import Ccr2004.SpiNorFlash
import Mathlib.Data.Vector.Defs

/-!
# Updating the flash

`FlashWriteVerify` of `FlashApp.c`: erase whole sectors, then program and
read back one sector at a time. The update is exact - on success the range
holds the data and the rest of the last sector is blank - and confined: no
byte outside the erased sectors changes, whatever fails and wherever.

The argument needs the read-back only for exactness; confinement follows
from the driver methods, each of which stays inside its own range.
`FlashApp` and the driver agree on `FLASH_SECTOR_SIZE`. Progress output is
left out.
-/

namespace Ccr2004

namespace Spi

/-- One sector of the erase loop. -/
def eraseSector (flashOffset : UInt32) (idx : Nat) (s : Spi) :
    Run (Flow Spi (EfiStatus × Spi)) := do
  let (status, s) ← s.spiNorErase (flashOffset + UInt32.ofNat idx * flashSectorSize) 1
  if status.isError then .ok (.exit (status, s)) else .ok (.next s)

/-- The loop variables of the program and verify loop. -/
structure VerifyState where
  offset : UInt32
  verifyBuf : List UInt8
  spi : Spi

def verifyRound (flashOffset : UInt32) (data : List UInt8) (dataSize : UInt32)
    (st : VerifyState) : Run (Flow VerifyState (EfiStatus × Spi)) :=
  if st.offset < dataSize then do
    let left := dataSize - st.offset
    let chunk := if left > flashSectorSize then flashSectorSize else left
    let bytes ← loadSlice data st.offset.toNat chunk.toNat
    let (status, s) ← st.spi.spiNorWriteData (flashOffset + st.offset) chunk bytes
    if status.isError then .ok (.exit (status, s))
    else do
      let (status, verifyBuf, s) ←
        s.spiNorReadData (flashOffset + st.offset) chunk st.verifyBuf
      if status.isError then .ok (.exit (.deviceError, s))
      else do
        let back ← loadSlice verifyBuf 0 chunk.toNat
        if bytes ≠ back then .ok (.exit (.deviceError, s))
        else
          .ok (.next { offset := st.offset + chunk, verifyBuf := verifyBuf, spi := s })
  else .ok (.exit (.success, st.spi))

/-- `FlashWriteVerify`. `pool` is what `AllocatePool` returns: a sector of
uninitialised bytes, or null. -/
def flashWriteVerify (s : Spi) (pool : Option (List.Vector UInt8 4096))
    (flashOffset : UInt32) (data : List UInt8) (dataSize : UInt32) :
    Run (EfiStatus × Spi) := do
  let eraseSize := (dataSize + flashSectorSize - 1) &&& ~~~(flashSectorSize - 1)
  let sectorsToErase := eraseSize / flashSectorSize
  match ← forFrom (eraseSector flashOffset) sectorsToErase.toNat 0 s with
  | .exit r => .ok r
  | .next s =>
      match pool with
      | none => .ok (.outOfResources, s)
      | some verifyBuf =>
          loopFuel (verifyRound flashOffset data dataSize) (dataSize.toNat + 1)
            { offset := 0, verifyBuf := verifyBuf.toList, spi := s }

end Spi

/-! ## The erased range -/

/-- A length rounded up to whole sectors. -/
def wholeSectors (n : Nat) : Nat := (n + 4095) / 4096 * 4096

theorem le_wholeSectors (n : Nat) : n ≤ wholeSectors n := by
  rw [wholeSectors]
  omega

theorem toNat_and_not_sector (x : UInt32) :
    (x &&& ~~~(flashSectorSize - 1)).toNat = x.toNat / 4096 * 4096 := by
  have hmask : (~~~(flashSectorSize - 1)).toBitVec = BitVec.allOnes 32 <<< 12 := by decide
  rw [← UInt32.toNat_toBitVec, UInt32.toBitVec_and, hmask, toNat_and_allOnes_shiftLeft,
    UInt32.toNat_toBitVec]
  simp only [Nat.reducePow]

theorem toNat_sectorsToErase (dataSize : UInt32) (h : dataSize.toNat + 4095 < 4294967296) :
    (((dataSize + flashSectorSize - 1) &&& ~~~(flashSectorSize - 1)) /
      flashSectorSize).toNat = (dataSize.toNat + 4095) / 4096 := by
  have hsize : flashSectorSize.toNat = 4096 := rfl
  have hone : (1 : UInt32).toNat = 1 := rfl
  have hpred : (dataSize + flashSectorSize - 1).toNat = dataSize.toNat + 4095 := by
    rw [UInt32.toNat_sub, UInt32.toNat_add, hsize, hone]
    omega
  rw [UInt32.toNat_div, toNat_and_not_sector, hpred, hsize]
  omega

namespace Spi

theorem eraseSector_spec {m : Memory UInt8} {flashOffset : UInt32} {n i : Nat} {s : Spi}
    (haligned : flashOffset.toNat % 4096 = 0)
    (h : flashOffset.toNat + 4096 * n ≤ 16777216) (hi : i < n)
    (hs : Erased m s.flash.cells flashOffset.toNat (flashOffset.toNat + 4096 * i)) :
    ∃ c, eraseSector flashOffset i s = .ok c
      ∧ c.Post
        (fun s' => Erased m s'.flash.cells flashOffset.toNat
          (flashOffset.toNat + 4096 * (i + 1)))
        (fun r => r.1 ≠ .success ∧ Memory.SameOutside flashOffset.toNat
          (flashOffset.toNat + 4096 * n) m r.2.flash.cells) := by
  set addr := flashOffset + UInt32.ofNat i * flashSectorSize with haddr
  have hsector : addr.toNat = flashOffset.toNat + 4096 * i := by
    rw [haddr, UInt32.toNat_add, UInt32.toNat_mul,
      UInt32.toNat_ofNat_of_lt' (show i < 4294967296 by omega),
      show flashSectorSize.toNat = 4096 from rfl]
    omega
  have hone : (1 : UInt32).toNat = 1 := rfl
  obtain ⟨status, s', herase, hconf, hblank⟩ :=
    s.spiNorErase_spec addr 1 (by omega) (by omega)
  rw [hone, Nat.mul_one, hsector] at hconf hblank
  rw [eraseSector, herase, ok_bind]
  dsimp only
  by_cases herr : status.isError
  · exact ⟨_, if_pos herr, EfiStatus.isError_iff.mp herr,
      (hs.same.mono (Nat.le_refl _) (by omega)).trans (hconf.mono (by omega) (by omega))⟩
  · refine ⟨_, if_neg herr, hs.append (by omega) (by omega) ?_⟩
    rw [Nat.mul_succ, ← Nat.add_assoc]
    exact hblank (EfiStatus.not_isError_iff.mp herr)

/-! ## Programming and reading back -/

/-- One round, whatever it is to keep (`I`) and however the loop is to end
(`R`): what is left to show is about the write of a chunk and the read after
it. -/
theorem verifyRound_rule {flashOffset dataSize : UInt32} {data : List UInt8}
    {I : VerifyState → Prop} {R : EfiStatus × Spi → Prop} {st : VerifyState}
    (hdata : dataSize.toNat ≤ data.length) (hle : st.offset.toNat ≤ dataSize.toNat)
    (hend : st.offset.toNat = dataSize.toNat → R (.success, st.spi))
    (hchunk : ∀ chunk : UInt32, 0 < chunk.toNat → chunk.toNat ≤ 4096 →
      (st.offset + chunk).toNat = st.offset.toNat + chunk.toNat →
      st.offset.toNat + chunk.toNat ≤ dataSize.toNat →
      ∀ bytes, bytes = slice data st.offset.toNat chunk.toNat → bytes.length = chunk.toNat →
      ∃ status s₁,
        st.spi.spiNorWriteData (flashOffset + st.offset) chunk bytes = .ok (status, s₁)
        ∧ (status.isError = true → R (status, s₁))
        ∧ (¬ status.isError = true → ∃ status' verifyBuf s₂,
          s₁.spiNorReadData (flashOffset + st.offset) chunk st.verifyBuf =
            .ok (status', verifyBuf, s₂)
          ∧ verifyBuf.length = 4096
          ∧ R (.deviceError, s₂)
          ∧ (¬ status'.isError = true → bytes = slice verifyBuf 0 chunk.toNat →
            I { offset := st.offset + chunk, verifyBuf := verifyBuf, spi := s₂ }))) :
    ∃ c, verifyRound flashOffset data dataSize st = .ok c
      ∧ c.Post
        (fun st' => I st'
          ∧ dataSize.toNat - st'.offset.toNat < dataSize.toNat - st.offset.toNat) R := by
  rw [verifyRound]
  by_cases hmore : st.offset < dataSize
  · rw [if_pos hmore]
    dsimp only
    rw [UInt32.lt_iff_toNat_lt] at hmore
    set chunk := if dataSize - st.offset > flashSectorSize then flashSectorSize
      else dataSize - st.offset with hsel
    obtain ⟨hn, hoff⟩ := toNat_sectorChunk hle hsel
    rw [loadSlice_ok (by omega), ok_bind]
    set bytes := slice data st.offset.toNat chunk.toNat with hbytes
    obtain ⟨status, s₁, hwrite, herror, hok⟩ := hchunk chunk (by omega) (by omega) hoff
      (by omega) bytes hbytes (length_slice (by omega))
    rw [hwrite, ok_bind]
    dsimp only
    by_cases herr : status.isError
    · exact ⟨_, if_pos herr, herror herr⟩
    obtain ⟨status', verifyBuf, s₂, hread, hsame, herror', hnext⟩ := hok herr
    rw [if_neg herr, hread, ok_bind]
    dsimp only
    by_cases herr' : status'.isError
    · exact ⟨_, if_pos herr', herror'⟩
    rw [if_neg herr', loadSlice_ok (by omega), ok_bind]
    by_cases hcmp : bytes ≠ slice verifyBuf 0 chunk.toNat
    · exact ⟨_, if_pos hcmp, herror'⟩
    · refine ⟨_, if_neg hcmp, hnext herr' (not_not.mp hcmp), ?_⟩
      dsimp only
      omega
  · rw [if_neg hmore]
    rw [UInt32.lt_iff_toNat_lt] at hmore
    exact ⟨_, rfl, hend (by omega)⟩

/-- What the loop keeps: it has changed nothing outside `[a, hi)`, the data
up to `offset` is in the flash, and the cells after the data are blank. -/
structure VerifyInv (m : Memory UInt8) (a hi : Nat) (data : List UInt8)
    (st : VerifyState) : Prop where
  size_eq : st.verifyBuf.length = 4096
  offset_le : st.offset.toNat ≤ data.length
  confined : Memory.SameOutside a hi m st.spi.flash.cells
  exact : st.spi.flash.cells.read a st.offset.toNat = data.take st.offset.toNat
  blank : ∀ x, a + data.length ≤ x → x < hi → st.spi.flash.cells x = 0xFF

/-- What an update promises, whatever its status. -/
structure Updated (m : Memory UInt8) (a hi : Nat) (data : List UInt8)
    (r : EfiStatus × Spi) : Prop where
  confined : Memory.SameOutside a hi m r.2.flash.cells
  exact : r.1 = .success → r.2.flash.cells.read a data.length = data
  blank : r.1 = .success → ∀ x, a + data.length ≤ x → x < hi → r.2.flash.cells x = 0xFF

theorem Updated.of_error {m : Memory UInt8} {a hi : Nat} {data : List UInt8}
    {status : EfiStatus} {s : Spi} (hconf : Memory.SameOutside a hi m s.flash.cells)
    (herr : status ≠ .success) : Updated m a hi data (status, s) :=
  ⟨hconf, fun h => absurd h herr, fun h => absurd h herr⟩

theorem verifyRound_spec {m : Memory UInt8} {flashOffset dataSize : UInt32} {hi : Nat}
    {data : List UInt8} (hsize : dataSize.toNat = data.length)
    (hfits : flashOffset.toNat + data.length ≤ 16777216)
    (hhi : flashOffset.toNat + data.length ≤ hi) {st : VerifyState}
    (hst : VerifyInv m flashOffset.toNat hi data st) :
    ∃ c, verifyRound flashOffset data dataSize st = .ok c
      ∧ c.Post
        (fun st' => VerifyInv m flashOffset.toNat hi data st'
          ∧ data.length - st'.offset.toNat < data.length - st.offset.toNat)
        (Updated m flashOffset.toNat hi data) := by
  obtain ⟨hbuf, hle, hconf, hexact, hblank⟩ := hst
  rw [← hsize] at hle ⊢
  refine verifyRound_rule (by omega) hle (fun hdone => ?_) ?_
  · refine ⟨hconf, fun _ => ?_, fun _ => hblank⟩
    rw [hdone, hsize, List.take_length] at hexact
    exact hexact
  intro chunk hpos hmax hoff hend bytes hbytes hlen
  have haddr : (flashOffset + st.offset).toNat = flashOffset.toNat + st.offset.toNat := by
    rw [UInt32.toNat_add]
    omega
  obtain ⟨⟨status, s₁⟩, hwrite, hwritten⟩ := st.spi.spiNorWriteData_spec
    (flashOffset + st.offset) hlen (by omega)
  have hstep := hwritten.confined
  dsimp only at hstep
  rw [haddr, hlen] at hstep
  have hconf₁ := hconf.trans (hstep.mono (by omega) (by omega))
  refine ⟨status, s₁, hwrite,
    fun herr => Updated.of_error hconf₁ (EfiStatus.isError_iff.mp herr), fun _ => ?_⟩
  obtain ⟨status, verifyBuf, s₂, hread, hflash, hsame, hback⟩ :=
    s₁.spiNorReadData_spec (flashOffset + st.offset) chunk st.verifyBuf (by omega)
      (by omega)
  rw [haddr] at hback
  rw [← hflash] at hconf₁ hstep hback
  refine ⟨status, verifyBuf, s₂, hread, hsame.trans hbuf,
    Updated.of_error hconf₁ (by decide), fun herr hcmp => ?_⟩
  have hgot : s₂.flash.cells.read (flashOffset.toNat + st.offset.toNat) chunk.toNat =
      bytes := by
    rw [← hback (EfiStatus.not_isError_iff.mp herr), hcmp, slice, List.drop_zero]
  refine ⟨hsame.trans hbuf, by dsimp only; omega, hconf₁, ?_, ?_⟩
  · dsimp only
    rw [hoff, Memory.read_append, hgot, hstep.read_eq (Or.inl (by omega)), hexact,
      List.take_add, hbytes, slice]
  · intro x hx hx'
    dsimp only
    rw [hstep x (Or.inr (by omega))]
    exact hblank x hx hx'

/-- A zeroed flash behind a bus without errors. -/
def zeroedSpi : Spi where
  outcome _ := { failed := false, latched := true, status := 0, noise := fun _ => 0 }
  flash := { cells := fun _ => 0, wel := false }
  log := []

/-- Erase, program and verify, put together. -/
theorem flashWriteVerify_updated (s : Spi) (pool : Option (List.Vector UInt8 4096))
    {flashOffset dataSize : UInt32} {data : List UInt8}
    (haligned : flashOffset.toNat % 4096 = 0) (hsize : dataSize.toNat = data.length)
    (hfits : flashOffset.toNat + data.length ≤ 16777216) :
    ∃ r, s.flashWriteVerify pool flashOffset data dataSize = .ok r
      ∧ Updated s.flash.cells flashOffset.toNat
          (flashOffset.toNat + wholeSectors data.length) data r := by
  have hcount := toNat_sectorsToErase dataSize (by omega)
  rw [hsize] at hcount
  have hend : 4096 * ((data.length + 4095) / 4096) = wholeSectors data.length := by
    rw [wholeSectors, Nat.mul_comm]
  have hle := le_wholeSectors data.length
  have hroom : flashOffset.toNat + 4096 * ((data.length + 4095) / 4096) ≤ 16777216 := by
    omega
  obtain ⟨c, hc, hpost⟩ := forFrom_total (n := (data.length + 4095) / 4096) (i := 0) (s := s)
    (I := fun i s' => Erased s.flash.cells s'.flash.cells flashOffset.toNat
      (flashOffset.toNat + 4096 * i))
    (fun i s' _ hi hs' => eraseSector_spec haligned hroom (by omega) hs')
    (Erased.nil _ _)
  rw [Nat.zero_add, hend] at hpost
  rw [flashWriteVerify, hcount, hc, ok_bind]
  cases c with
  | exit r => exact ⟨r, rfl, Updated.of_error hpost.2 hpost.1⟩
  | next s₁ =>
      have herased : Erased s.flash.cells s₁.flash.cells flashOffset.toNat
        (flashOffset.toNat + wholeSectors data.length) := hpost
      cases pool with
      | none => exact ⟨_, rfl, Updated.of_error herased.same (by decide)⟩
      | some verifyBuf =>
          exact loopFuel_total
            (I := VerifyInv s.flash.cells flashOffset.toNat
              (flashOffset.toNat + wholeSectors data.length) data)
            (μ := fun st => data.length - st.offset.toNat)
            (fun st hst => verifyRound_spec hsize hfits (by omega) hst)
            ⟨verifyBuf.toList_length, Nat.zero_le _, herased.same, by simp [Memory.read],
              fun x hx hx' => herased.blank x (by omega) hx'⟩
            (by dsimp only; omega)

/-- The update law: on success the range holds the data and the rest of the
last erased sector is blank; in every case the bytes outside the erased
sectors are what they were. -/
theorem flashWriteVerify_exact (s : Spi) (pool : Option (List.Vector UInt8 4096))
    (flashOffset : UInt32) (data : List UInt8)
    (haligned : flashOffset.toNat % 4096 = 0)
    (hfits : flashOffset.toNat + data.length ≤ 16777216) :
    ∃ status s',
      s.flashWriteVerify pool flashOffset data (UInt32.ofNat data.length) =
          .ok (status, s')
        ∧ (status = .success →
            s'.flash.cells.read flashOffset.toNat data.length = data
              ∧ ∀ x, flashOffset.toNat + data.length ≤ x →
                  x < flashOffset.toNat + wholeSectors data.length →
                  s'.flash.cells x = 0xFF)
        ∧ ∀ x, x < flashOffset.toNat ∨ flashOffset.toNat + wholeSectors data.length ≤ x →
            s'.flash.cells x = s.flash.cells x := by
  have hsize : (UInt32.ofNat data.length).toNat = data.length :=
    UInt32.toNat_ofNat_of_lt' (show data.length < 4294967296 by omega)
  obtain ⟨r, hrun, hupd⟩ := s.flashWriteVerify_updated pool haligned hsize hfits
  exact ⟨r.1, r.2, hrun, fun h => ⟨hupd.exact h, hupd.blank h⟩, hupd.confined⟩

/-- Three bytes over a flash of zeros, with no errors. -/
theorem flashWriteVerify_exact_threeBytes :
    ∃ s', zeroedSpi.flashWriteVerify (some (List.Vector.replicate 4096 0)) 0x00C00000
        [0x7F, 0x45, 0x4C] 3 = .ok (.success, s')
      ∧ s'.flash.cells.read 0x00C00000 3 = [0x7F, 0x45, 0x4C]
      ∧ s'.flash.cells 0x00C00FFF = 0xFF
      ∧ s'.flash.cells 0x00BFFFFF = 0 := by
  obtain ⟨status, s', hrun, hexact, hconf⟩ := flashWriteVerify_exact zeroedSpi
    (some (List.Vector.replicate 4096 0)) 0x00C00000 [0x7F, 0x45, 0x4C]
    (by decide) (by decide)
  have hok : (zeroedSpi.flashWriteVerify (some (List.Vector.replicate 4096 0))
      0x00C00000 [0x7F, 0x45, 0x4C] 3).map Prod.fst = .ok .success := by decide +kernel
  have hstatus : status = .success := by
    rw [show (3 : UInt32) = UInt32.ofNat [(0x7F : UInt8), 0x45, 0x4C].length from rfl,
      hrun] at hok
    exact Except.ok.inj hok
  subst hstatus
  obtain ⟨hdata, hblank⟩ := hexact rfl
  exact ⟨s', hrun, hdata, hblank _ (by decide) (by decide), hconf _ (by decide)⟩

/-! ## Boot slots -/

/-- `FLASH_SLOT0_OFFSET`. -/
def flashSlot0Offset : UInt32 := 0x00800000

/-- `FLASH_SLOT1_OFFSET`. -/
def flashSlot1Offset : UInt32 := 0x00C00000

/-- `FLASH_SLOT_SIZE`. -/
def flashSlotSize : UInt32 := 0x00400000

/-- `FLASH_MAX_IMAGE_SIZE`. -/
def flashMaxImageSize : UInt32 := flashSlotSize - 0x10000

/-- Writing an image to a slot leaves the other slot and the boot loader
alone, however it ends. -/
theorem slotUpdate_confined (s : Spi) (pool : Option (List.Vector UInt8 4096))
    {slot : UInt32} (hslot : slot = flashSlot0Offset ∨ slot = flashSlot1Offset)
    {data : List UInt8} (hsize : data.length < flashMaxImageSize.toNat) :
    ∃ r, s.flashWriteVerify pool slot data (UInt32.ofNat data.length) = .ok r
      ∧ Memory.SameOutside slot.toNat (slot.toNat + flashSlotSize.toNat) s.flash.cells
          r.2.flash.cells := by
  have hmax : flashMaxImageSize.toNat = 0x3F0000 := rfl
  have hslotSize : flashSlotSize.toNat = 0x400000 := rfl
  have hplace : slot.toNat % 4096 = 0 ∧ slot.toNat ≤ 0xC00000 := by
    rcases hslot with rfl | rfl
    · decide
    · decide
  obtain ⟨haligned, hle⟩ := hplace
  have hofNat : (UInt32.ofNat data.length).toNat = data.length :=
    UInt32.toNat_ofNat_of_lt' (show data.length < 4294967296 by omega)
  obtain ⟨r, hrun, hupd⟩ := s.flashWriteVerify_updated pool haligned hofNat (by omega)
  refine ⟨r, hrun, hupd.confined.mono (Nat.le_refl _) ?_⟩
  rw [wholeSectors]
  omega

/-! ## Raw mode -/

/-- The value of a hexadecimal digit. -/
def hexDigit (c : UInt16) : Option UInt64 :=
  if 0x30 ≤ c ∧ c ≤ 0x39 then some (c - 0x30).toUInt64
  else if 0x61 ≤ c ∧ c ≤ 0x66 then some (c - 0x61 + 10).toUInt64
  else if 0x41 ≤ c ∧ c ≤ 0x46 then some (c - 0x41 + 10).toUInt64
  else none

/-- The loop of `HexStrToUintn`: `Val` is shifted before the character is
looked at. -/
def hexDigits : UInt64 → List UInt16 → UInt64
  | val, [] => val
  | val, c :: str =>
      if c = 0 then val
      else
        match hexDigit c with
        | some d => hexDigits (val <<< 4 ||| d) str
        | none => val <<< 4

/-- `HexStrToUintn`; the list ends where the string has its NUL. -/
def hexStrToUintn (str : List UInt16) : UInt64 :=
  match str with
  | c₀ :: c₁ :: rest =>
      if c₀ = 0x30 ∧ (c₁ = 0x78 ∨ c₁ = 0x58) then hexDigits 0 rest else hexDigits 0 str
  | _ => hexDigits 0 str

/-- Raw mode of `FlashAppEntry`: `offsetArg` is `Argv[2]` and `file` what
`ReadFile` makes of `Argv[3]`. -/
def flashAppRaw (s : Spi) (pool : Option (List.Vector UInt8 4096)) (offsetArg : List UInt16)
    (file : Except EfiStatus (List UInt8)) : Run (EfiStatus × Spi) :=
  let flashOffset := (hexStrToUintn offsetArg).toUInt32
  match file with
  | .error status => .ok (status, s)
  | .ok fileData =>
      let fileSize := UInt32.ofNat fileData.length
      if flashOffset + fileSize > flashSize then .ok (.invalidParameter, s)
      else if flashOffset &&& (flashSectorSize - 1) ≠ 0 then .ok (.invalidParameter, s)
      else s.flashWriteVerify pool flashOffset fileData fileSize

end Spi

end Ccr2004
