import Ccr2004.Bytes
import Ccr2004.NorFlash

/-!
# The SPI NOR flash driver

`SpiNorFlashDxe.c`: the status polls and the read, write and erase methods
of the flash protocol. Delays and messages are left out. A `Buffer` that is
written to is passed in and returned.
-/

namespace Ccr2004

/-- The four bytes of `Cmd`: an opcode and a 24-bit address. -/
def addressedCmd (op : UInt8) (addr : UInt32) : List UInt8 :=
  [op, (addr >>> 16).toUInt8, (addr >>> 8).toUInt8, addr.toUInt8]

namespace Spi

def flashReadStatus (s : Spi) (statusCmd : UInt8) : Except EfiStatus UInt8 × Spi :=
  match s.halRead [statusCmd] 1 with
  | (.ok bytes, s) => (.ok (bytes.headD 0), s)
  | (.error status, s) => (.error status, s)

/-- One poll for the latch. -/
def welRound (_ : Nat) (s : Spi) : Run (Flow Spi (EfiStatus × Spi)) :=
  match s.flashReadStatus cmdReadStatus with
  | (.error status, s) => .ok (.exit (status, s))
  | (.ok sr, s) =>
      if sr &&& srWel ≠ 0 then .ok (.exit (.success, s)) else .ok (.next s)

def flashWriteEnable (s : Spi) : Run (EfiStatus × Spi) :=
  let (status, s) := s.halCmdOnly [cmdWriteEnable]
  if status.isError then .ok (status, s)
  else do
    match ← forFrom welRound 100 0 s with
    | .next s => .ok (.deviceError, s)
    | .exit r => .ok r

/-- `WIP_POLL_MAX`. -/
def wipPollMax : Nat := 10000

/-- One poll for the end of an operation. -/
def wipRound (_ : Nat) (s : Spi) : Run (Flow Spi (EfiStatus × Spi)) :=
  match s.flashReadStatus cmdReadStatus with
  | (.error _, s) => .ok (.exit (.deviceError, s))
  | (.ok sr, s) =>
      if sr &&& srWip = 0 then .ok (.exit (.success, s)) else .ok (.next s)

def flashWaitReady (s : Spi) : Run (EfiStatus × Spi) := do
  match ← forFrom wipRound wipPollMax 0 s with
  | .next s => .ok (.timeout, s)
  | .exit r => .ok r

/-! ## Reading -/

/-- The loop variables of `SpiNorReadData`. -/
structure ReadState where
  offset : UInt32
  buffer : List UInt8
  spi : Spi

def readRound (flashAddress lengthInBytes : UInt32) (st : ReadState) :
    Run (Flow ReadState (EfiStatus × List UInt8 × Spi)) :=
  if st.offset < lengthInBytes then
    let left := lengthInBytes - st.offset
    let addr := flashAddress + st.offset
    let chunk := if left > flashSectorSize then flashSectorSize else left
    match st.spi.halRead (addressedCmd cmdReadData addr) chunk with
    | (.error _, s) => .ok (.exit (.deviceError, st.buffer, s))
    | (.ok bytes, s) => do
        let buffer ← storeSlice st.buffer st.offset.toNat bytes
        .ok (.next { offset := st.offset + chunk, buffer := buffer, spi := s })
  else .ok (.exit (.success, st.buffer, st.spi))

def spiNorReadData (s : Spi) (flashAddress lengthInBytes : UInt32)
    (buffer : List UInt8) : Run (EfiStatus × List UInt8 × Spi) :=
  if flashAddress + lengthInBytes > flashSize then .ok (.invalidParameter, buffer, s)
  else
    loopFuel (readRound flashAddress lengthInBytes) (lengthInBytes.toNat + 1)
      { offset := 0, buffer := buffer, spi := s }

/-! ## Writing -/

/-- The loop variables of `SpiNorWriteData`; `buffer` is what `Buffer` points
at. -/
structure WriteState where
  flashAddress : UInt32
  lengthInBytes : UInt32
  buffer : List UInt8
  spi : Spi

def writeRound (st : WriteState) : Run (Flow WriteState (EfiStatus × Spi)) :=
  if st.lengthInBytes > 0 then do
    let pageOffset := st.flashAddress &&& (flashPageSize - 1)
    let room := flashPageSize - pageOffset
    let chunkSize := if room > st.lengthInBytes then st.lengthInBytes else room
    let (status, s) ← st.spi.flashWriteEnable
    if status.isError then .ok (.exit (status, s))
    else do
      let bytes ← loadSlice st.buffer 0 chunkSize.toNat
      let (status, s) := s.halWrite (addressedCmd cmdPageProgram st.flashAddress) bytes
      if status.isError then .ok (.exit (status, s))
      else do
        let (status, s) ← s.flashWaitReady
        if status.isError then .ok (.exit (status, s))
        else
          .ok (.next
            { flashAddress := st.flashAddress + chunkSize
              lengthInBytes := st.lengthInBytes - chunkSize
              buffer := st.buffer.drop chunkSize.toNat
              spi := s })
  else .ok (.exit (.success, st.spi))

def spiNorWriteData (s : Spi) (flashAddress lengthInBytes : UInt32)
    (buffer : List UInt8) : Run (EfiStatus × Spi) :=
  if flashAddress + lengthInBytes > flashSize then .ok (.invalidParameter, s)
  else
    loopFuel writeRound (lengthInBytes.toNat + 1)
      { flashAddress := flashAddress, lengthInBytes := lengthInBytes, buffer := buffer
        spi := s }

/-! ## Erasing -/

def eraseRound (flashAddress : UInt32) (idx : Nat) (s : Spi) :
    Run (Flow Spi (EfiStatus × Spi)) := do
  let addr := flashAddress + UInt32.ofNat idx * flashSectorSize
  let (status, s) ← s.flashWriteEnable
  if status.isError then .ok (.exit (status, s))
  else do
    let (status, s) := s.halCmdOnly (addressedCmd cmdSectorErase addr)
    if status.isError then .ok (.exit (status, s))
    else do
      let (status, s) ← s.flashWaitReady
      if status.isError then .ok (.exit (status, s)) else .ok (.next s)

def spiNorErase (s : Spi) (flashAddress blockCount : UInt32) : Run (EfiStatus × Spi) :=
  if flashAddress &&& (flashSectorSize - 1) ≠ 0 then .ok (.invalidParameter, s)
  else if flashAddress + blockCount * flashSectorSize > flashSize then
    .ok (.invalidParameter, s)
  else do
    match ← forFrom (eraseRound flashAddress) blockCount.toNat 0 s with
    | .next s => .ok (.success, s)
    | .exit r => .ok r

/-! ## The status polls -/

theorem flashReadStatus_spec (s : Spi) :
    ∃ r s', s.flashReadStatus cmdReadStatus = (r, s') ∧ s'.flash = s.flash
      ∧ (∀ sr, r = .ok sr → (sr &&& srWel ≠ 0 ↔ s.flash.wel = true))
      ∧ ∀ e, r = .error e → e = .deviceError := by
  obtain ⟨o, r, s', hread, hflash, hok, herr⟩ := s.halRead_spec [cmdReadStatus] 1
  rw [flashReadStatus, hread]
  cases r with
  | error e => exact ⟨_, _, rfl, hflash, by simp, by simpa using herr⟩
  | ok bytes =>
      refine ⟨_, _, rfl, hflash, ?_, by simp⟩
      rintro sr hsr
      obtain rfl := Except.ok.inj hsr
      rw [(hok bytes rfl).1]
      exact s.flash.statusByte_wel o

theorem welRound_spec (i : Nat) (s : Spi) :
    ∃ c, welRound i s = .ok c
      ∧ c.Post (fun s' => s'.flash = s.flash)
          (fun r => r.2.flash = s.flash ∧ (r.1 = .success → s.flash.wel = true)) := by
  obtain ⟨r, s', hread, hflash, hwel, herr⟩ := s.flashReadStatus_spec
  rw [welRound, hread]
  cases r with
  | error status =>
      obtain rfl := herr status rfl
      exact ⟨_, rfl, hflash, by simp⟩
  | ok sr =>
      by_cases hsr : sr &&& srWel ≠ 0
      · exact ⟨_, if_pos hsr, hflash, fun _ => (hwel sr rfl).mp hsr⟩
      · exact ⟨_, if_neg hsr, hflash⟩

/-- A write enable that succeeds leaves the latch set. -/
theorem flashWriteEnable_spec (s : Spi) :
    ∃ status s', s.flashWriteEnable = .ok (status, s')
      ∧ s'.flash.cells = s.flash.cells
      ∧ (status = .success → s'.flash.wel = true) := by
  obtain ⟨o, status, s₁, hcmd, hflash, -⟩ := s.halCmdOnly_spec [cmdWriteEnable]
  have hcells : s₁.flash.cells = s.flash.cells := by rw [hflash]; rfl
  rw [flashWriteEnable, hcmd]
  by_cases herr : status.isError
  · refine ⟨status, s₁, if_pos herr, hcells, ?_⟩
    rintro rfl
    cases herr
  · obtain ⟨c, hc, hpost⟩ := forFrom_total (n := 100) (i := 0) (s := s₁)
      (I := fun _ s' => s'.flash = s₁.flash)
      (E := fun r : EfiStatus × Spi => r.2.flash = s₁.flash
        ∧ (r.1 = .success → s₁.flash.wel = true))
      (by
        intro i s' _ _ hs'
        obtain ⟨c, hc, hpost⟩ := welRound_spec i s'
        refine ⟨c, hc, ?_⟩
        rwa [hs'] at hpost)
      rfl
    dsimp only
    rw [if_neg herr, hc]
    cases c with
    | next s' =>
        refine ⟨.deviceError, s', rfl, ?_, by simp⟩
        rw [show s'.flash = s₁.flash from hpost, hcells]
    | exit r =>
        obtain ⟨hr, hwel⟩ := hpost
        refine ⟨r.1, r.2, rfl, by rw [hr, hcells], ?_⟩
        intro hsuccess
        rw [hr]
        exact hwel hsuccess

theorem wipRound_spec (i : Nat) (s : Spi) :
    ∃ c, wipRound i s = .ok c
      ∧ c.Post (fun s' => s'.flash = s.flash) (fun r => r.2.flash = s.flash) := by
  obtain ⟨r, s', hread, hflash, -⟩ := s.flashReadStatus_spec
  rw [wipRound, hread]
  cases r with
  | error status => exact ⟨_, rfl, hflash⟩
  | ok sr =>
      by_cases hsr : sr &&& srWip = 0
      · exact ⟨_, if_pos hsr, hflash⟩
      · exact ⟨_, if_neg hsr, hflash⟩

/-- Waiting only looks. -/
theorem flashWaitReady_spec (s : Spi) :
    ∃ status s', s.flashWaitReady = .ok (status, s') ∧ s'.flash = s.flash := by
  obtain ⟨c, hc, hpost⟩ := forFrom_total (n := wipPollMax) (i := 0) (s := s)
    (I := fun _ s' => s'.flash = s.flash)
    (E := fun r : EfiStatus × Spi => r.2.flash = s.flash)
    (by
      intro i s' _ _ hs'
      obtain ⟨c, hc, hpost⟩ := wipRound_spec i s'
      refine ⟨c, hc, ?_⟩
      rwa [hs'] at hpost)
    rfl
  rw [flashWaitReady, hc]
  cases c with
  | next s' => exact ⟨.timeout, s', rfl, hpost⟩
  | exit r => exact ⟨r.1, r.2, rfl, hpost⟩

/-! ## Addresses -/

/-- Below 16 MiB the device takes the address it is meant to. -/
theorem address_bytes {addr : UInt32} (h : addr.toNat < 16777216) :
    NorFlash.address (addr >>> 16).toUInt8 (addr >>> 8).toUInt8 addr.toUInt8 =
      addr.toNat := by
  simp only [NorFlash.address, UInt32.toNat_toUInt8, UInt32.toNat_shiftRight,
    UInt32.reduceToNat, Nat.shiftRight_eq_div_pow, Nat.reduceMod, Nat.reducePow]
  omega

theorem exec_read (f : NorFlash) (o : Outcome) {addr : UInt32} {n : Nat}
    (h : addr.toNat + n ≤ 16777216) (hn : 0 < n) :
    f.exec o (addressedCmd cmdReadData addr) [] n =
      (f, f.cells.read addr.toNat n) := by
  have hcells : (List.range n).map
      (fun i => f.cells ((addr.toNat + i) % flashSize.toNat)) =
      f.cells.read addr.toNat n := by
    apply List.map_congr_left
    intro i hi
    have hlt : i < n := List.mem_range.mp hi
    rw [show flashSize.toNat = 16777216 from rfl, Nat.mod_eq_of_lt (by omega)]
  rw [addressedCmd, NorFlash.exec]
  rw [if_pos rfl, address_bytes (by omega), hcells]

theorem exec_program (f : NorFlash) (o : Outcome) {addr : UInt32} (bs : List UInt8)
    (h : addr.toNat < 16777216) :
    (f.exec o (addressedCmd cmdPageProgram addr) bs 0).1 = f.program o addr.toNat bs := by
  rw [addressedCmd, NorFlash.exec]
  rw [if_neg (by decide), if_pos rfl, address_bytes h]

theorem exec_erase (f : NorFlash) (o : Outcome) {addr : UInt32}
    (h : addr.toNat < 16777216) :
    (f.exec o (addressedCmd cmdSectorErase addr) [] 0).1 = f.erase o addr.toNat := by
  rw [addressedCmd, NorFlash.exec]
  rw [if_neg (by decide), if_neg (by decide), if_pos rfl, address_bytes h]

/-- The range check of the driver does not wrap on a range inside the
device. -/
theorem rangeCheck_passes {a n : UInt32} (h : a.toNat + n.toNat ≤ 16777216) :
    ¬ a + n > flashSize := by
  rw [gt_iff_lt, UInt32.lt_iff_toNat_lt, UInt32.toNat_add,
    show flashSize.toNat = 16777216 from rfl]
  omega

theorem toNat_min (a b : UInt32) :
    (if a > b then b else a).toNat = min a.toNat b.toNat := by
  split
  · rename_i h
    rw [gt_iff_lt, UInt32.lt_iff_toNat_lt] at h
    omega
  · rename_i h
    rw [gt_iff_lt, UInt32.lt_iff_toNat_lt] at h
    omega

/-- The chunk at an offset: a sector, or what is left; the offset after it
does not wrap. -/
theorem toNat_sectorChunk {n off chunk : UInt32} (hle : off.toNat ≤ n.toNat)
    (hchunk : chunk = if n - off > flashSectorSize then flashSectorSize else n - off) :
    chunk.toNat = min (n.toNat - off.toNat) 4096
      ∧ (off + chunk).toNat = off.toNat + chunk.toNat := by
  have hsize : chunk.toNat = min (n.toNat - off.toNat) 4096 := by
    rw [hchunk, toNat_min, UInt32.toNat_sub_of_le _ _ (UInt32.le_iff_toNat_le.mpr hle)]
    rfl
  have hbound := n.toNat_lt
  refine ⟨hsize, ?_⟩
  rw [UInt32.toNat_add]
  omega

/-! ## The read method -/

theorem length_exec_read (f : NorFlash) (o : Outcome) (addr : UInt32) (n : Nat) :
    (f.exec o (addressedCmd cmdReadData addr) [] n).2.length = n := by
  rw [addressedCmd, NorFlash.exec, if_pos rfl, List.length_map, List.length_range]

/-- One round of a read, whatever it is to keep (`I`) and however the loop is
to end (`R`): what is left to show is about one command. -/
theorem readRound_rule {flashAddress lengthInBytes : UInt32} {I : ReadState → Prop}
    {R : EfiStatus × List UInt8 × Spi → Prop} {st : ReadState}
    (hsize : lengthInBytes.toNat ≤ st.buffer.length)
    (hle : st.offset.toNat ≤ lengthInBytes.toNat)
    (hend : st.offset.toNat = lengthInBytes.toNat → R (.success, st.buffer, st.spi))
    (hchunk : ∀ chunk : UInt32, 0 < chunk.toNat →
      (st.offset + chunk).toNat = st.offset.toNat + chunk.toNat →
      st.offset.toNat + chunk.toNat ≤ lengthInBytes.toNat →
      ∀ r s',
        st.spi.halRead (addressedCmd cmdReadData (flashAddress + st.offset)) chunk = (r, s') →
        (∀ e, r = .error e → R (.deviceError, st.buffer, s'))
        ∧ ∀ bytes buffer, r = .ok bytes → bytes.length = chunk.toNat →
          buffer = st.buffer.take st.offset.toNat ++ bytes
            ++ st.buffer.drop (st.offset.toNat + bytes.length) →
          buffer.length = st.buffer.length →
          I { offset := st.offset + chunk, buffer := buffer, spi := s' }) :
    ∃ c, readRound flashAddress lengthInBytes st = .ok c
      ∧ c.Post
        (fun st' => I st'
          ∧ lengthInBytes.toNat - st'.offset.toNat < lengthInBytes.toNat - st.offset.toNat) R := by
  rw [readRound]
  by_cases hmore : st.offset < lengthInBytes
  · rw [if_pos hmore]
    dsimp only
    rw [UInt32.lt_iff_toNat_lt] at hmore
    set chunk := if lengthInBytes - st.offset > flashSectorSize then flashSectorSize
      else lengthInBytes - st.offset with hsel
    obtain ⟨hn, hoff⟩ := toNat_sectorChunk hle hsel
    obtain ⟨o, r, s', hread, -, hbytes, -⟩ :=
      st.spi.halRead_spec (addressedCmd cmdReadData (flashAddress + st.offset)) chunk
    obtain ⟨herror, hnext⟩ := hchunk chunk (by omega) hoff (by omega) r s' hread
    rw [hread]
    cases r with
    | error e => exact ⟨_, rfl, herror e rfl⟩
    | ok bytes =>
        have hlen : bytes.length = chunk.toNat := by
          rw [(hbytes bytes rfl).1, length_exec_read]
        dsimp only
        rw [storeSlice_ok (by omega)]
        refine ⟨_, rfl, hnext bytes _ rfl hlen rfl ?_, by dsimp only; omega⟩
        simp only [List.length_append, List.length_take, List.length_drop]
        omega
  · rw [if_neg hmore]
    rw [UInt32.lt_iff_toNat_lt] at hmore
    exact ⟨_, rfl, hend (by omega)⟩

/-- What a read has done when `offset` bytes are in. -/
structure ReadInv (f : NorFlash) (a n size : Nat) (st : ReadState) : Prop where
  flash : st.spi.flash = f
  offset_le : st.offset.toNat ≤ n
  size_eq : st.buffer.length = size
  filled : st.buffer.take st.offset.toNat = f.cells.read a st.offset.toNat

theorem readRound_spec {f : NorFlash} {flashAddress lengthInBytes : UInt32} {size : Nat}
    (h : flashAddress.toNat + lengthInBytes.toNat ≤ 16777216)
    (hsize : lengthInBytes.toNat ≤ size) {st : ReadState}
    (hst : ReadInv f flashAddress.toNat lengthInBytes.toNat size st) :
    ∃ c, readRound flashAddress lengthInBytes st = .ok c
      ∧ c.Post
        (fun st' => ReadInv f flashAddress.toNat lengthInBytes.toNat size st'
          ∧ lengthInBytes.toNat - st'.offset.toNat < lengthInBytes.toNat - st.offset.toNat)
        (fun r => r.2.2.flash = f ∧ r.2.1.length = size
          ∧ (r.1 = .success →
              r.2.1.take lengthInBytes.toNat =
                f.cells.read flashAddress.toNat lengthInBytes.toNat)) := by
  obtain ⟨hflash, hle, hlen, hfilled⟩ := hst
  refine readRound_rule (by omega) hle (fun hdone => ?_) ?_
  · refine ⟨hflash, hlen, fun _ => ?_⟩
    rwa [hdone] at hfilled
  intro chunk hpos hoff hend r s' hread
  have haddr : (flashAddress + st.offset).toNat = flashAddress.toNat + st.offset.toNat := by
    rw [UInt32.toNat_add]
    omega
  obtain ⟨o, r', s'', hread', hs', hok, -⟩ :=
    st.spi.halRead_spec (addressedCmd cmdReadData (flashAddress + st.offset)) chunk
  obtain ⟨rfl, rfl⟩ := Prod.mk.inj (hread'.symm.trans hread)
  rw [exec_read _ _ (by omega) hpos, hflash] at hs' hok
  refine ⟨fun e _ => ⟨hs', hlen, by simp⟩, ?_⟩
  rintro bytes buffer hr hbytes rfl hsame
  obtain ⟨hcells, -⟩ := hok bytes hr
  refine ⟨hs', by dsimp only; omega, hsame.trans hlen, ?_⟩
  dsimp only at hcells ⊢
  rw [hoff, Memory.read_append, ← haddr, ← hcells, hfilled, List.take_append_of_le_length]
  · rw [List.take_of_length_le]
    simp [hbytes]
  · simp [hbytes]

/-- A read changes nothing, and one that succeeds delivers the cells. -/
theorem spiNorReadData_spec (s : Spi) (flashAddress lengthInBytes : UInt32)
    (buffer : List UInt8) (h : flashAddress.toNat + lengthInBytes.toNat ≤ 16777216)
    (hsize : lengthInBytes.toNat ≤ buffer.length) :
    ∃ status buffer' s',
      s.spiNorReadData flashAddress lengthInBytes buffer = .ok (status, buffer', s')
        ∧ s'.flash = s.flash ∧ buffer'.length = buffer.length
        ∧ (status = .success → buffer'.take lengthInBytes.toNat =
            s.flash.cells.read flashAddress.toNat lengthInBytes.toNat) := by
  obtain ⟨r, hr, hpost⟩ := loopFuel_total (k := lengthInBytes.toNat + 1)
    (I := ReadInv s.flash flashAddress.toNat lengthInBytes.toNat buffer.length)
    (μ := fun st => lengthInBytes.toNat - st.offset.toNat)
    (fun st hst => readRound_spec h hsize hst)
    (s := { offset := 0, buffer := buffer, spi := s })
    ⟨rfl, Nat.zero_le _, rfl, by simp [Memory.read]⟩ (by dsimp only; omega)
  rw [spiNorReadData, if_neg (rangeCheck_passes h)]
  exact ⟨r.1, r.2.1, r.2.2, hr, hpost⟩

/-! ## The write method -/

/-- The chunk of a write: to the end of the page or of the data. -/
theorem toNat_writeChunk (a n : UInt32) :
    (if flashPageSize - (a &&& (flashPageSize - 1)) > n then n
      else flashPageSize - (a &&& (flashPageSize - 1))).toNat =
      min (256 - a.toNat % 256) n.toNat := by
  have hmod : (a &&& (flashPageSize - 1)).toNat = a.toNat % 256 := by
    rw [UInt32.toNat_and, show (flashPageSize - 1).toNat = 2 ^ 8 - 1 from rfl,
      Nat.and_two_pow_sub_one_eq_mod]
  have hroom : (flashPageSize - (a &&& (flashPageSize - 1))).toNat =
      256 - a.toNat % 256 := by
    rw [UInt32.toNat_sub_of_le _ _ (UInt32.le_iff_toNat_le.mpr _), hmod]
    · rfl
    · rw [hmod, show flashPageSize.toNat = 256 from rfl]
      omega
  rw [toNat_min, hroom]

/-- What a round of a write takes off the front of the data: bytes up to the
end of a page. -/
structure PagePiece (st : WriteState) (piece rest : List UInt8) : Prop where
  buffer : st.buffer = piece ++ rest
  nonempty : piece ≠ []
  inPage : st.flashAddress.toNat % 256 + piece.length ≤ 256

/-- How a round of a write ends: nothing was left, a call failed, or the piece
is programmed. -/
inductive WriteStep (st : WriteState) : Flow WriteState (EfiStatus × Spi) → Prop where
  | finished (hnil : st.buffer = []) : WriteStep st (.exit (.success, st.spi))
  | notEnabled {status : EfiStatus} {s : Spi}
      (henable : st.spi.flashWriteEnable = .ok (status, s)) (herr : status.isError = true) :
      WriteStep st (.exit (status, s))
  | notProgrammed {piece rest : List UInt8} {enabled status : EfiStatus} {s₁ s₂ : Spi}
      (hpiece : PagePiece st piece rest) (henable : st.spi.flashWriteEnable = .ok (enabled, s₁))
      (henabled : enabled = .success)
      (hwrite : s₁.halWrite (addressedCmd cmdPageProgram st.flashAddress) piece = (status, s₂))
      (herr : status.isError = true) :
      WriteStep st (.exit (status, s₂))
  | waited {piece rest : List UInt8} {enabled written status : EfiStatus} {s₁ s₂ s₃ : Spi}
      {c : Flow WriteState (EfiStatus × Spi)}
      (hpiece : PagePiece st piece rest) (henable : st.spi.flashWriteEnable = .ok (enabled, s₁))
      (henabled : enabled = .success)
      (hwrite : s₁.halWrite (addressedCmd cmdPageProgram st.flashAddress) piece = (written, s₂))
      (hwritten : written = .success) (hwait : s₂.flashWaitReady = .ok (status, s₃))
      (hend : status.isError = true ∧ c = .exit (status, s₃)
        ∨ status = .success ∧ ∃ st', c = .next st' ∧ st'.spi = s₃ ∧ st'.buffer = rest
          ∧ st'.lengthInBytes.toNat = rest.length
          ∧ st'.flashAddress.toNat = (st.flashAddress.toNat + piece.length) % 4294967296) :
      WriteStep st c

theorem writeRound_step {st : WriteState} (hleft : st.lengthInBytes.toNat = st.buffer.length) :
    ∃ c, writeRound st = .ok c ∧ WriteStep st c := by
  rw [writeRound]
  by_cases hmore : st.lengthInBytes > 0
  · rw [if_pos hmore]
    dsimp only
    have hpos : 0 < st.lengthInBytes.toNat := UInt32.lt_iff_toNat_lt.mp hmore
    have hn := toNat_writeChunk st.flashAddress st.lengthInBytes
    set chunk := if flashPageSize - (st.flashAddress &&& (flashPageSize - 1)) >
      st.lengthInBytes then st.lengthInBytes
      else flashPageSize - (st.flashAddress &&& (flashPageSize - 1)) with hchunk
    set bytes := slice st.buffer 0 chunk.toNat with hbytes
    have hlen : bytes.length = chunk.toNat := length_slice (by omega)
    have hpiece : PagePiece st bytes (st.buffer.drop chunk.toNat) := by
      refine ⟨?_, fun hnil => ?_, by omega⟩
      · rw [hbytes, slice, List.drop_zero, List.take_append_drop]
      · rw [hnil, List.length_nil] at hlen
        omega
    obtain ⟨status, s₁, henable, -, -⟩ := st.spi.flashWriteEnable_spec
    rw [henable, ok_bind]
    dsimp only
    by_cases herr : status.isError
    · exact ⟨_, if_pos herr, .notEnabled henable herr⟩
    have henabled := EfiStatus.not_isError_iff.mp herr
    rw [if_neg herr, loadSlice_ok (by omega), ok_bind]
    obtain ⟨-, status, s₂, hwrite, -, -⟩ :=
      s₁.halWrite_spec (addressedCmd cmdPageProgram st.flashAddress) bytes
    rw [← hbytes, hwrite]
    dsimp only
    by_cases herr : status.isError
    · exact ⟨_, if_pos herr, .notProgrammed hpiece henable henabled hwrite herr⟩
    have hwritten := EfiStatus.not_isError_iff.mp herr
    obtain ⟨status, s₃, hwait, -⟩ := s₂.flashWaitReady_spec
    rw [if_neg herr, hwait, ok_bind]
    dsimp only
    by_cases herr : status.isError
    · exact ⟨_, if_pos herr, .waited hpiece henable henabled hwrite hwritten hwait
        (.inl ⟨herr, rfl⟩)⟩
    · refine ⟨_, if_neg herr, .waited hpiece henable henabled hwrite hwritten hwait
        (.inr ⟨EfiStatus.not_isError_iff.mp herr, _, rfl, rfl, rfl, ?_, ?_⟩)⟩
      · rw [UInt32.toNat_sub_of_le _ _ (UInt32.le_iff_toNat_le.mpr (by omega)),
          List.length_drop, hleft]
      · rw [UInt32.toNat_add, hlen]
  · rw [if_neg hmore]
    refine ⟨_, rfl, .finished (List.eq_nil_of_length_eq_zero ?_)⟩
    rw [gt_iff_lt, UInt32.lt_iff_toNat_lt] at hmore
    rw [← hleft]
    simpa using hmore

/-- The data left after a round is shorter. -/
theorem PagePiece.rest_lt {st : WriteState} {piece rest : List UInt8}
    (h : PagePiece st piece rest) : rest.length < st.buffer.length := by
  rw [h.buffer, List.length_append]
  have hpos := List.length_pos_iff.mpr h.nonempty
  omega

/-- What a write has done when `st` is left to do: `done` is programmed. -/
structure WriteInv (m : Memory UInt8) (a : Nat) (data : List UInt8) (st : WriteState) :
    Prop where
  programmed : ∃ done, data = done ++ st.buffer
    ∧ st.flashAddress.toNat = a + done.length
    ∧ Programmed m st.spi.flash.cells a done
  left : st.lengthInBytes.toNat = st.buffer.length

/-- What the method promises, whatever its status. -/
structure Written (m : Memory UInt8) (a : Nat) (data : List UInt8)
    (r : EfiStatus × Spi) : Prop where
  confined : Memory.SameOutside a (a + data.length) m r.2.flash.cells
  exact : r.1 = .success → Programmed m r.2.flash.cells a data

/-- A write that stops with an error leaves a trace inside its range only. -/
theorem Written.of_error {m m' : Memory UInt8} {a n : Nat} {done rest : List UInt8}
    {status : EfiStatus} {s : Spi} (hdone : Programmed m m' a done)
    (hs : Memory.SameOutside (a + done.length) (a + done.length + n) m' s.flash.cells)
    (hn : n ≤ rest.length) (herr : status.isError) :
    Written m a (done ++ rest) (status, s) := by
  constructor
  · rw [List.length_append]
    exact (hdone.same.mono (Nat.le_refl _) (by omega)).trans
      (hs.mono (by omega) (by omega))
  · rintro rfl
    cases herr

/-- A page program touches the piece's cells only, and ANDs the piece into
them when it succeeds. -/
theorem PagePiece.program_spec {st : WriteState} {piece rest : List UInt8}
    (hpiece : PagePiece st piece rest) {s₁ s₂ : Spi} {status : EfiStatus}
    (hfits : st.flashAddress.toNat < 16777216)
    (henable : st.spi.flashWriteEnable = .ok (.success, s₁))
    (hwrite : s₁.halWrite (addressedCmd cmdPageProgram st.flashAddress) piece = (status, s₂)) :
    Memory.SameOutside st.flashAddress.toNat (st.flashAddress.toNat + piece.length)
        st.spi.flash.cells s₂.flash.cells
      ∧ (status = .success →
          Programmed st.spi.flash.cells s₂.flash.cells st.flashAddress.toNat piece) := by
  obtain ⟨status', s₁', henable', hcells, hwel⟩ := st.spi.flashWriteEnable_spec
  obtain ⟨rfl, rfl⟩ := Prod.mk.inj (Except.ok.inj (henable'.symm.trans henable))
  obtain ⟨o, status', s₂', hwrite', hflash, hok⟩ :=
    s₁'.halWrite_spec (addressedCmd cmdPageProgram st.flashAddress) piece
  obtain ⟨rfl, rfl⟩ := Prod.mk.inj (hwrite'.symm.trans hwrite)
  rw [exec_program _ _ _ hfits] at hflash
  have hconf := s₁'.flash.program_confined o hpiece.inPage
  rw [← hflash, hcells] at hconf
  refine ⟨hconf, fun hstatus => ⟨hconf, fun i hi => ?_⟩⟩
  rw [hflash, NorFlash.program_and (hwel rfl) (hok hstatus) hpiece.inPage hi, hcells]

theorem writeRound_spec {m : Memory UInt8} {a : Nat} {data : List UInt8}
    (h : a + data.length ≤ 16777216) {st : WriteState} (hst : WriteInv m a data st) :
    ∃ c, writeRound st = .ok c
      ∧ c.Post
        (fun st' => WriteInv m a data st'
          ∧ st'.lengthInBytes.toNat < st.lengthInBytes.toNat)
        (Written m a data) := by
  obtain ⟨⟨done, rfl, haddr, hdone⟩, hleft⟩ := hst
  rw [List.length_append] at h
  obtain ⟨c, hc, hstep⟩ := writeRound_step hleft
  refine ⟨c, hc, ?_⟩
  cases hstep with
  | finished hnil =>
      rw [hnil, List.append_nil]
      exact ⟨hdone.same, fun _ => hdone⟩
  | notEnabled henable herr =>
      obtain ⟨status', s₁', henable', hcells, -⟩ := st.spi.flashWriteEnable_spec
      obtain ⟨rfl, rfl⟩ := Prod.mk.inj (Except.ok.inj (henable'.symm.trans henable))
      refine Written.of_error hdone (n := 0) ?_ (Nat.zero_le _) herr
      rw [hcells]
      exact Memory.SameOutside.refl _ _ _
  | notProgrammed hpiece henable henabled hwrite herr =>
      obtain rfl := henabled
      have hless := hpiece.rest_lt
      have hconf := (hpiece.program_spec (by omega) henable hwrite).1
      rw [haddr] at hconf
      refine Written.of_error hdone hconf ?_ herr
      rw [hpiece.buffer, List.length_append]
      exact Nat.le_add_right _ _
  | @waited piece rest _ _ _ _ s₂ s₃ _ hpiece henable henabled hwrite hwritten hwait hend =>
      obtain rfl := henabled
      obtain rfl := hwritten
      have hless := hpiece.rest_lt
      obtain ⟨hconf, hprog⟩ := hpiece.program_spec (by omega) henable hwrite
      have hprog := hprog rfl
      rw [haddr] at hconf hprog
      obtain ⟨status', s₃', hwait', hflash₃⟩ := s₂.flashWaitReady_spec
      obtain ⟨rfl, rfl⟩ := Prod.mk.inj (Except.ok.inj (hwait'.symm.trans hwait))
      rw [← hflash₃] at hconf hprog
      rw [hpiece.buffer, List.length_append] at h
      rcases hend with ⟨herr, rfl⟩ | ⟨-, st', rfl, rfl, rfl, hleft', haddr'⟩
      · refine Written.of_error hdone hconf ?_ herr
        rw [hpiece.buffer, List.length_append]
        exact Nat.le_add_right _ _
      · refine ⟨⟨⟨done ++ piece, ?_, ?_, hdone.append hprog⟩, hleft'⟩, by omega⟩
        · rw [hpiece.buffer, List.append_assoc]
        · rw [haddr', haddr, List.length_append]
          omega

/-- A write stays inside its range, and one that succeeds has ANDed the data
into it. -/
theorem spiNorWriteData_spec (s : Spi) (flashAddress : UInt32) {lengthInBytes : UInt32}
    {buffer : List UInt8} (hlen : buffer.length = lengthInBytes.toNat)
    (h : flashAddress.toNat + lengthInBytes.toNat ≤ 16777216) :
    ∃ r, s.spiNorWriteData flashAddress lengthInBytes buffer = .ok r
      ∧ Written s.flash.cells flashAddress.toNat buffer r := by
  rw [spiNorWriteData, if_neg (rangeCheck_passes h)]
  exact loopFuel_total
    (I := WriteInv s.flash.cells flashAddress.toNat buffer)
    (μ := fun st => st.lengthInBytes.toNat)
    (fun st hst => writeRound_spec (by omega) hst)
    ⟨⟨[], rfl, rfl, Programmed.nil _ _⟩, hlen.symm⟩ (Nat.lt_succ_self _)

/-! ## The erase method -/

theorem eraseRound_spec {m : Memory UInt8} {flashAddress : UInt32} {n i : Nat} {s : Spi}
    (haligned : flashAddress.toNat % 4096 = 0)
    (h : flashAddress.toNat + 4096 * n ≤ 16777216) (hi : i < n)
    (hs : Erased m s.flash.cells flashAddress.toNat (flashAddress.toNat + 4096 * i)) :
    ∃ c, eraseRound flashAddress i s = .ok c
      ∧ c.Post
        (fun s' => Erased m s'.flash.cells flashAddress.toNat
          (flashAddress.toNat + 4096 * (i + 1)))
        (fun r => r.1 ≠ .success ∧ Memory.SameOutside flashAddress.toNat
          (flashAddress.toNat + 4096 * n) m r.2.flash.cells) := by
  set addr := flashAddress + UInt32.ofNat i * flashSectorSize with haddr
  have hsector : addr.toNat = flashAddress.toNat + 4096 * i := by
    rw [haddr, UInt32.toNat_add, UInt32.toNat_mul, UInt32.toNat_ofNat_of_lt' (show i < 4294967296 by omega),
      show flashSectorSize.toNat = 4096 from rfl]
    omega
  have hout : Memory.SameOutside flashAddress.toNat (flashAddress.toNat + 4096 * n) m
      s.flash.cells := hs.same.mono (Nat.le_refl _) (by omega)
  obtain ⟨status, s₁, henable, hcells, hwel⟩ := s.flashWriteEnable_spec
  rw [eraseRound, henable, ok_bind]
  dsimp only
  by_cases herr : status.isError
  · exact ⟨_, if_pos herr, EfiStatus.isError_iff.mp herr, by rwa [hcells]⟩
  have hwel' : s₁.flash.wel = true := hwel (EfiStatus.not_isError_iff.mp herr)
  obtain ⟨o, status, s₂, hcmd, hflash, hok⟩ :=
    s₁.halCmdOnly_spec (addressedCmd cmdSectorErase addr)
  rw [exec_erase _ _ (by omega)] at hflash
  have hconf := s₁.flash.erase_confined o (a := addr.toNat) (by omega)
  rw [← hflash, hcells] at hconf
  have hout₂ := hout.trans (hconf.mono (by omega) (by omega))
  rw [if_neg herr, hcmd]
  dsimp only
  by_cases herr : status.isError
  · exact ⟨_, if_pos herr, EfiStatus.isError_iff.mp herr, hout₂⟩
  have ho : o.failed = false := hok (EfiStatus.not_isError_iff.mp herr)
  have herased : Erased s.flash.cells s₂.flash.cells
      (flashAddress.toNat + 4096 * i) (flashAddress.toNat + 4096 * (i + 1)) := by
    rw [Nat.mul_succ, ← Nat.add_assoc, ← hsector]
    refine ⟨hconf, ?_⟩
    intro x hx hx'
    rw [hflash]
    exact NorFlash.erase_blank hwel' ho (by omega) ⟨hx, hx'⟩
  obtain ⟨status, s₃, hwait, hflash₃⟩ := s₂.flashWaitReady_spec
  rw [if_neg herr, hwait, ok_bind]
  dsimp only
  rw [← hflash₃] at herased hout₂
  by_cases herr : status.isError
  · exact ⟨_, if_pos herr, EfiStatus.isError_iff.mp herr, hout₂⟩
  · exact ⟨_, if_neg herr, hs.append (by omega) (by omega) herased⟩

/-- An erase stays inside its sectors, and one that succeeds blanks them. -/
theorem spiNorErase_spec (s : Spi) (flashAddress blockCount : UInt32)
    (haligned : flashAddress.toNat % 4096 = 0)
    (h : flashAddress.toNat + 4096 * blockCount.toNat ≤ 16777216) :
    ∃ status s', s.spiNorErase flashAddress blockCount = .ok (status, s')
      ∧ Memory.SameOutside flashAddress.toNat
          (flashAddress.toNat + 4096 * blockCount.toNat) s.flash.cells s'.flash.cells
      ∧ (status = .success → Erased s.flash.cells s'.flash.cells flashAddress.toNat
          (flashAddress.toNat + 4096 * blockCount.toNat)) := by
  have halign : ¬ flashAddress &&& (flashSectorSize - 1) ≠ 0 := by
    rw [not_not, ← UInt32.toNat_inj, UInt32.toNat_and,
      show (flashSectorSize - 1).toNat = 2 ^ 12 - 1 from rfl,
      Nat.and_two_pow_sub_one_eq_mod]
    exact haligned
  have hmul : (blockCount * flashSectorSize).toNat = 4096 * blockCount.toNat := by
    rw [UInt32.toNat_mul, show flashSectorSize.toNat = 4096 from rfl]
    omega
  obtain ⟨c, hc, hpost⟩ := forFrom_total (n := blockCount.toNat) (i := 0) (s := s)
    (I := fun i s' => Erased s.flash.cells s'.flash.cells flashAddress.toNat
      (flashAddress.toNat + 4096 * i))
    (fun i s' _ hi hs' => eraseRound_spec haligned h (by omega) hs')
    (Erased.nil _ _)
  rw [spiNorErase, if_neg halign, if_neg (rangeCheck_passes (by omega)), hc]
  rw [Nat.zero_add] at hpost
  cases c with
  | next s' => exact ⟨_, _, rfl, Erased.same hpost, fun _ => hpost⟩
  | exit r => exact ⟨r.1, r.2, rfl, hpost.2, fun hr => absurd hr hpost.1⟩

end Spi

end Ccr2004
