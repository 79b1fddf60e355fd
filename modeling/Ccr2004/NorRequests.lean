import Ccr2004.NorRange

/-!
# Requests to the NOR flash

The four ways to ask for a range of the flash: the three driver methods, which
check their own range, and raw mode of `FlashApp`, which adds an offset and a
file size and then calls the driver sector by sector.

The driver catches most of what raw mode's own check lets through: a sector
above the device is rejected, and the update stops. The one offset that gets
past both is the last sector of the 32-bit range, whose end wraps to 0.
-/

namespace Ccr2004

/-- Some exchanges lead from `s` to `s'`. -/
def Spi.Reaches (s s' : Spi) : Prop := ∃ es, s.Traced es s'

theorem Spi.Reaches.refl (s : Spi) : s.Reaches s := ⟨[], .nil s⟩

theorem Spi.Reaches.trans {s s' s'' : Spi} (h : s.Reaches s') (h' : s'.Reaches s'') :
    s.Reaches s'' := by
  obtain ⟨es, htr⟩ := h
  obtain ⟨es', htr'⟩ := h'
  exact ⟨es ++ es', htr.append htr'⟩

theorem CallTrace.reaches {s : Spi} {op : UInt8} {a n : Nat} {r : EfiStatus × Spi}
    (h : CallTrace s op a n r) : s.Reaches r.2 := by
  obtain ⟨k, es, hprog, -⟩ := h
  exact ⟨es, hprog.traced⟩

/-- The exchanges so far stayed inside the device, and each kind of command
goes on at `next`. -/
def InsideUpTo (s₀ : Spi) (off : Nat) (next : UInt8 → Nat) (s : Spi) : Prop :=
  ∃ es, s₀.Traced es s ∧ InsideFlash (fun _ => off) es ∧ afterAll (fun _ => off) es = next

theorem InsideUpTo.start (s : Spi) (off : Nat) : InsideUpTo s off (fun _ => off) s :=
  ⟨[], .nil s, trivial, rfl⟩

theorem InsideUpTo.traceTo {s₀ s : Spi} {off : Nat} {next : UInt8 → Nat}
    (h : InsideUpTo s₀ off next s) : InsideFlash (fun _ => off) (s₀.traceTo s) := by
  obtain ⟨es, htr, hin, -⟩ := h
  rwa [htr.traceTo_eq]

/-- A call that starts where its kind of command is, inside the device. -/
theorem CallTrace.extend {s₀ s : Spi} {off a n : Nat} {op : UInt8} {next : UInt8 → Nat}
    {r : EfiStatus × Spi} (h : CallTrace s op a n r) (hs : InsideUpTo s₀ off next s)
    (hnext : next op = a) (hroom : a + n ≤ flashSize.toNat) :
    (∃ next', InsideUpTo s₀ off next' r.2)
      ∧ (r.1 = .success → InsideUpTo s₀ off (Function.update next op (a + n)) r.2) := by
  obtain ⟨es, htr, hin, rfl⟩ := hs
  obtain ⟨k, es', hprog, hk, hall, -⟩ := h
  have hin' := insideFlash_append.mpr ⟨hin, hprog.inside (by omega) _ hnext⟩
  refine ⟨⟨_, _, htr.append hprog.traced, hin', rfl⟩, ?_⟩
  intro hok
  obtain rfl := hall hok
  refine ⟨_, htr.append hprog.traced, hin', ?_⟩
  rw [afterAll_append, hprog.counted, hnext]

namespace Spi

/-! ## Raw mode inside the device -/

/-- Erasing goes on sector by sector up to the end of the device; the sector
after it is rejected. -/
theorem eraseSector_inside {s₀ s : Spi} {off : UInt32} {i : Nat}
    (haligned : off.toNat % 4096 = 0) (hroom : off.toNat + 4096 * i ≤ flashSize.toNat)
    (hs : InsideUpTo s₀ off.toNat
      (Function.update (fun _ => off.toNat) cmdSectorErase (off.toNat + 4096 * i)) s) :
    ∃ c, eraseSector off i s = .ok c
      ∧ c.Post
        (fun s' => off.toNat + 4096 * (i + 1) ≤ flashSize.toNat
          ∧ InsideUpTo s₀ off.toNat (Function.update (fun _ => off.toNat) cmdSectorErase
              (off.toNat + 4096 * (i + 1))) s')
        (fun r => ∃ next, InsideUpTo s₀ off.toNat next r.2) := by
  have hsize : flashSize.toNat = 16777216 := rfl
  have hlen : (1 * flashSectorSize).toNat = 4096 := rfl
  have hone : (1 : UInt32).toNat = 1 := rfl
  set addr := off + UInt32.ofNat i * flashSectorSize with haddr
  have hplace : addr.toNat = off.toNat + 4096 * i := by
    rw [haddr, UInt32.toNat_add, UInt32.toNat_mul,
      UInt32.toNat_ofNat_of_lt' (show i < 4294967296 by omega),
      show flashSectorSize.toNat = 4096 from rfl]
    omega
  have halign := (aligned_iff addr).mpr (by omega)
  rw [eraseSector]
  by_cases hnext : off.toNat + 4096 * (i + 1) ≤ flashSize.toNat
  · have hcheck := (check_iff addr (1 * flashSectorSize)).mpr (by omega)
    obtain ⟨r, hrun, hcall⟩ := s.spiNorErase_call addr 1 halign hcheck
    rw [hone, hplace, Nat.mul_one] at hcall
    have hroom' : off.toNat + 4096 * i + 4096 ≤ flashSize.toNat := by
      rw [Nat.add_assoc, ← Nat.mul_succ]
      exact hnext
    obtain ⟨hany, hok⟩ := hcall.extend hs (Function.update_self _ _ _) hroom'
    rw [hrun, ok_bind]
    by_cases herr : r.1.isError
    · exact ⟨_, if_pos herr, hany⟩
    · have hdone := hok (EfiStatus.not_isError_iff.mp herr)
      rw [Function.update_idem, Nat.add_assoc, ← Nat.mul_succ] at hdone
      exact ⟨_, if_neg herr, hnext, hdone⟩
  · have hcheck : addr + 1 * flashSectorSize > flashSize := by
      by_contra hpass
      have hle := (check_iff _ _).mp hpass
      omega
    have hrun : s.spiNorErase addr 1 = .ok (.invalidParameter, s) := by
      rw [spiNorErase, if_neg halign, if_pos hcheck]
    rw [hrun]
    exact ⟨_, rfl, _, hs⟩

/-- The program and verify loop inside the device. -/
structure VerifyInside (s₀ : Spi) (off dataSize : Nat) (st : VerifyState) : Prop where
  upTo : ∃ next, InsideUpTo s₀ off next st.spi
    ∧ next cmdPageProgram = off + st.offset.toNat
    ∧ next cmdReadData = off + st.offset.toNat
  room : off + st.offset.toNat ≤ flashSize.toNat
  offset_le : st.offset.toNat ≤ dataSize
  size_eq : st.verifyBuf.length = 4096

theorem verifyRound_inside {s₀ : Spi} {off dataSize : UInt32} {data : List UInt8}
    (hdata : dataSize.toNat ≤ data.length) {st : VerifyState}
    (hst : VerifyInside s₀ off.toNat dataSize.toNat st) :
    ∃ c, verifyRound off data dataSize st = .ok c
      ∧ c.Post
        (fun st' => VerifyInside s₀ off.toNat dataSize.toNat st'
          ∧ dataSize.toNat - st'.offset.toNat < dataSize.toNat - st.offset.toNat)
        (fun r => ∃ next, InsideUpTo s₀ off.toNat next r.2) := by
  obtain ⟨⟨next, hup, hprogram, hreads⟩, hroom, hle, hbuf⟩ := hst
  have hsize : flashSize.toNat = 16777216 := rfl
  refine verifyRound_rule hdata hle (fun _ => ⟨next, hup⟩) ?_
  intro chunk hpos hmax hoff hend bytes hbytes hlen
  have haddr : (off + st.offset).toNat = off.toNat + st.offset.toNat := by
    rw [UInt32.toNat_add]
    omega
  by_cases hnext : off.toNat + st.offset.toNat + chunk.toNat ≤ flashSize.toNat
  · have hcheck := (check_iff (off + st.offset) chunk).mpr (by omega)
    obtain ⟨⟨status, s₁⟩, hwrite, hcall⟩ := st.spi.spiNorWriteData_call hlen hcheck
    obtain ⟨hany, hok⟩ := hcall.extend hup (by rw [hprogram, haddr]) (by omega)
    refine ⟨status, s₁, hwrite, fun _ => hany, fun herr => ?_⟩
    have hup₁ := hok (EfiStatus.not_isError_iff.mp herr)
    obtain ⟨status, verifyBuf, s₂, hread, hsame, hcall⟩ :=
      s₁.spiNorReadData_call st.verifyBuf (by omega) hcheck
    obtain ⟨hany, hok⟩ := hcall.extend hup₁
      (by rw [Function.update_of_ne (by decide), hreads, haddr]) (by omega)
    refine ⟨status, verifyBuf, s₂, hread, hsame.trans hbuf, hany, fun herr _ => ?_⟩
    have hup₂ := hok (EfiStatus.not_isError_iff.mp herr)
    refine ⟨⟨_, hup₂, ?_, ?_⟩, ?_, ?_, hsame.trans hbuf⟩
    · rw [Function.update_of_ne (by decide), Function.update_self, haddr, hoff]
      omega
    · rw [Function.update_self, haddr, hoff]
      omega
    all_goals dsimp only; omega
  · -- the driver rejects the write, and the loop ends
    have hcheck : off + st.offset + chunk > flashSize := by
      by_contra hpass
      have hle := (check_iff _ _).mp hpass
      omega
    have hrun : st.spi.spiNorWriteData (off + st.offset) chunk bytes =
        .ok (.invalidParameter, st.spi) := by
      rw [spiNorWriteData, if_pos hcheck]
    exact ⟨_, _, hrun, fun _ => ⟨next, hup⟩, fun herr => absurd rfl herr⟩

/-- An update that starts inside the device never leaves it. -/
theorem flashWriteVerify_inside (s : Spi) (pool : Option (List.Vector UInt8 4096))
    {off dataSize : UInt32} {data : List UInt8} (haligned : off.toNat % 4096 = 0)
    (hstart : off.toNat ≤ flashSize.toNat) (hdata : dataSize.toNat ≤ data.length) :
    ∃ r, s.flashWriteVerify pool off data dataSize = .ok r
      ∧ InsideFlash (fun _ => off.toNat) (s.traceTo r.2) := by
  rw [flashWriteVerify]
  generalize hcount : (((dataSize + flashSectorSize - 1) &&& ~~~(flashSectorSize - 1)) /
    flashSectorSize).toNat = count
  obtain ⟨c, hc, hpost⟩ := forFrom_total (n := count) (i := 0) (s := s)
    (I := fun i s' => off.toNat + 4096 * i ≤ flashSize.toNat
      ∧ InsideUpTo s off.toNat (Function.update (fun _ => off.toNat) cmdSectorErase
          (off.toNat + 4096 * i)) s')
    (fun i s' _ _ hs' => eraseSector_inside haligned hs'.1 hs'.2)
    ⟨hstart, by rw [Nat.mul_zero, Nat.add_zero, Function.update_eq_self]
                exact .start s off.toNat⟩
  rw [hc, ok_bind]
  cases c with
  | exit r =>
      obtain ⟨next, hup⟩ := hpost
      exact ⟨r, rfl, hup.traceTo⟩
  | next s₁ =>
      obtain ⟨-, hup⟩ := hpost
      cases pool with
      | none => exact ⟨_, rfl, hup.traceTo⟩
      | some verifyBuf =>
          obtain ⟨r, hr, next, hdone⟩ := loopFuel_total (k := dataSize.toNat + 1)
            (I := VerifyInside s off.toNat dataSize.toNat)
            (μ := fun st => dataSize.toNat - st.offset.toNat)
            (fun st hst => verifyRound_inside hdata hst)
            (s := { offset := 0, verifyBuf := verifyBuf.toList, spi := s₁ })
            ⟨⟨_, hup, by rw [Function.update_of_ne (by decide)]; rfl,
              by rw [Function.update_of_ne (by decide)]; rfl⟩, hstart, Nat.zero_le _,
              verifyBuf.toList_length⟩
            (by dsimp only; omega)
          exact ⟨r, hr, hdone.traceTo⟩

/-! ## Raw mode past the device -/

/-- A sector past the device is rejected, unless its end wraps. -/
theorem flashWriteVerify_rejected (s : Spi) (pool : Option (List.Vector UInt8 4096))
    {off dataSize : UInt32} (data : List UInt8) (haligned : off.toNat % 4096 = 0)
    (hoff : flashSize.toNat < off.toNat) (hlast : off.toNat ≠ 0xFFFFF000)
    (hpos : 0 < dataSize.toNat) (hcount : dataSize.toNat + 4095 < 4294967296) :
    s.flashWriteVerify pool off data dataSize = .ok (.invalidParameter, s) := by
  have hsize : flashSize.toNat = 16777216 := rfl
  have hlen : (1 * flashSectorSize).toNat = 4096 := rfl
  have hbound := off.toNat_lt
  have halign := (aligned_iff off).mpr haligned
  have hcheck : off + 1 * flashSectorSize > flashSize := by
    by_contra hpass
    have hle := (check_iff _ _).mp hpass
    omega
  have hfirst : eraseSector off 0 s = .ok (.exit (.invalidParameter, s)) := by
    rw [eraseSector, show off + UInt32.ofNat 0 * flashSectorSize = off from off.add_zero,
      spiNorErase, if_neg halign, if_pos hcheck]
    rfl
  obtain ⟨n, hn⟩ := Nat.exists_eq_succ_of_ne_zero
    (show (dataSize.toNat + 4095) / 4096 ≠ 0 by omega)
  rw [flashWriteVerify, toNat_sectorsToErase dataSize hcount, hn, forFrom_succ_exit hfirst]
  rfl

theorem spiNorErase_reaches (s : Spi) (flashAddress blockCount : UInt32) :
    ∃ r, s.spiNorErase flashAddress blockCount = .ok r ∧ s.Reaches r.2 := by
  by_cases haligned : flashAddress &&& (flashSectorSize - 1) ≠ 0
  · exact ⟨_, if_pos haligned, .refl s⟩
  by_cases hcheck : flashAddress + blockCount * flashSectorSize > flashSize
  · exact ⟨_, (if_neg haligned).trans (if_pos hcheck), .refl s⟩
  · obtain ⟨r, hrun, hcall⟩ := s.spiNorErase_call flashAddress blockCount haligned hcheck
    exact ⟨r, hrun, hcall.reaches⟩

theorem spiNorWriteData_reaches (s : Spi) (flashAddress : UInt32) {lengthInBytes : UInt32}
    {buffer : List UInt8} (hlen : buffer.length = lengthInBytes.toNat) :
    ∃ r, s.spiNorWriteData flashAddress lengthInBytes buffer = .ok r ∧ s.Reaches r.2 := by
  by_cases hcheck : flashAddress + lengthInBytes > flashSize
  · exact ⟨_, if_pos hcheck, .refl s⟩
  · obtain ⟨r, hrun, hcall⟩ := s.spiNorWriteData_call hlen hcheck
    exact ⟨r, hrun, hcall.reaches⟩

theorem spiNorReadData_reaches (s : Spi) (flashAddress lengthInBytes : UInt32)
    (buffer : List UInt8) (hsize : lengthInBytes.toNat ≤ buffer.length) :
    ∃ status buffer' s',
      s.spiNorReadData flashAddress lengthInBytes buffer = .ok (status, buffer', s')
        ∧ buffer'.length = buffer.length ∧ s.Reaches s' := by
  by_cases hcheck : flashAddress + lengthInBytes > flashSize
  · exact ⟨_, _, _, if_pos hcheck, rfl, .refl s⟩
  · obtain ⟨status, buffer', s', hrun, hsame, hcall⟩ := s.spiNorReadData_call buffer hsize hcheck
    exact ⟨status, buffer', s', hrun, hsame, hcall.reaches⟩

theorem eraseSector_reaches {s₀ : Spi} (off : UInt32) (i : Nat) {s : Spi}
    (hs : s₀.Reaches s) :
    ∃ c, eraseSector off i s = .ok c ∧ c.Post s₀.Reaches (fun r => s₀.Reaches r.2) := by
  obtain ⟨r, hrun, hr⟩ :=
    s.spiNorErase_reaches (off + UInt32.ofNat i * flashSectorSize) 1
  rw [eraseSector, hrun, ok_bind]
  by_cases herr : r.1.isError
  · exact ⟨_, if_pos herr, hs.trans hr⟩
  · exact ⟨_, if_neg herr, hs.trans hr⟩

theorem verifyRound_reaches {s₀ : Spi} (off : UInt32) {dataSize : UInt32} {data : List UInt8}
    (hdata : dataSize.toNat ≤ data.length) {st : VerifyState}
    (hst : s₀.Reaches st.spi ∧ st.offset.toNat ≤ dataSize.toNat
      ∧ st.verifyBuf.length = 4096) :
    ∃ c, verifyRound off data dataSize st = .ok c
      ∧ c.Post
        (fun st' => (s₀.Reaches st'.spi ∧ st'.offset.toNat ≤ dataSize.toNat
            ∧ st'.verifyBuf.length = 4096)
          ∧ dataSize.toNat - st'.offset.toNat < dataSize.toNat - st.offset.toNat)
        (fun r => s₀.Reaches r.2) := by
  obtain ⟨hs, hle, hbuf⟩ := hst
  refine verifyRound_rule hdata hle (fun _ => hs) ?_
  intro chunk hpos hmax hoff hend bytes hbytes hlen
  obtain ⟨⟨status, s₁⟩, hwrite, hreach₁⟩ :=
    st.spi.spiNorWriteData_reaches (off + st.offset) hlen
  have hs₁ := hs.trans hreach₁
  refine ⟨status, s₁, hwrite, fun _ => hs₁, fun _ => ?_⟩
  obtain ⟨status, verifyBuf, s₂, hread, hsame, hreach₂⟩ :=
    s₁.spiNorReadData_reaches (off + st.offset) chunk st.verifyBuf (by omega)
  have hs₂ := hs₁.trans hreach₂
  refine ⟨status, verifyBuf, s₂, hread, hsame.trans hbuf, hs₂, fun _ _ => ⟨hs₂, ?_, ?_⟩⟩
  · dsimp only
    omega
  · exact hsame.trans hbuf

/-- The last sector of the 32-bit range: its end wraps to 0, and the driver
erases the last sector of the device instead. -/
theorem flashWriteVerify_wraps {s : Spi} (hsound : Sound s)
    (pool : Option (List.Vector UInt8 4096)) {dataSize : UInt32} {data : List UInt8}
    (hdata : dataSize.toNat ≤ data.length) (hpos : 0 < dataSize.toNat)
    (hcount : dataSize.toNat + 4095 < 4294967296) :
    ∃ r, s.flashWriteVerify pool 0xFFFFF000 data dataSize = .ok r
      ∧ ¬ InsideFlash (fun _ => 0xFFFFF000) (s.traceTo r.2) := by
  obtain ⟨⟨status, s₁⟩, herase, k, es, hprog, -, hall, hok⟩ :=
    s.spiNorErase_call 0xFFFFF000 1 (by decide) (by decide)
  obtain rfl : status = .success := hok hsound
  obtain rfl : k = 4096 := hall rfl
  have hfirst : eraseSector 0xFFFFF000 0 s = .ok (.next s₁) := by
    rw [eraseSector, show 0xFFFFF000 + UInt32.ofNat 0 * flashSectorSize = 0xFFFFF000 from rfl,
      herase]
    rfl
  -- whatever follows, the first sector is in the trace
  have hpast : ∀ s', s₁.Reaches s' →
      ¬ InsideFlash (fun _ => 0xFFFFF000) (s.traceTo s') := by
    rintro s' ⟨es', htr⟩ hin
    rw [(hprog.traced.append htr).traceTo_eq] at hin
    have hle := afterAll_le cmdSectorErase (insideFlash_append.mp hin).1
    rw [hprog.counted, Function.update_self] at hle
    rcases hle with heq | hle
    · cases heq
    · exact absurd hle (by decide)
  obtain ⟨n, hn⟩ := Nat.exists_eq_succ_of_ne_zero
    (show (dataSize.toNat + 4095) / 4096 ≠ 0 by omega)
  obtain ⟨c, hc, hpost⟩ := forFrom_total (n := n) (i := 1) (s := s₁)
    (I := fun _ s' => s₁.Reaches s')
    (fun i _ _ _ hs' => eraseSector_reaches 0xFFFFF000 i hs') (.refl s₁)
  rw [flashWriteVerify, toNat_sectorsToErase dataSize hcount, hn, forFrom_succ_next hfirst,
    hc, ok_bind]
  cases c with
  | exit r => exact ⟨r, rfl, hpast _ hpost⟩
  | next s₂ =>
      cases pool with
      | none => exact ⟨_, rfl, hpast _ hpost⟩
      | some verifyBuf =>
          obtain ⟨r, hr, hreach⟩ := loopFuel_total (k := dataSize.toNat + 1)
            (I := fun st : VerifyState => s₁.Reaches st.spi
              ∧ st.offset.toNat ≤ dataSize.toNat ∧ st.verifyBuf.length = 4096)
            (μ := fun st => dataSize.toNat - st.offset.toNat)
            (fun st hst => verifyRound_reaches 0xFFFFF000 hdata hst)
            (s := { offset := 0, verifyBuf := verifyBuf.toList, spi := s₂ })
            ⟨hpost, Nat.zero_le _, verifyBuf.toList_length⟩ (by dsimp only; omega)
          exact ⟨r, hr, hpast _ hreach⟩

end Spi

/-! ## The requests -/

/-- A request, with a buffer as long as its caller promises. -/
inductive NorRequest where
  | readData (flashAddress lengthInBytes : UInt32) (buffer : List UInt8)
      (room : lengthInBytes.toNat ≤ buffer.length)
  | writeData (flashAddress lengthInBytes : UInt32) (buffer : List UInt8)
      (full : buffer.length = lengthInBytes.toNat)
  | erase (flashAddress blockCount : UInt32)
  | raw (pool : Option (List.Vector UInt8 4096)) (offsetArg : List UInt16)
      (fileData : List UInt8)

namespace NorRequest

/-- The first byte a request names. -/
def base : NorRequest → UInt32
  | readData flashAddress _ _ _ => flashAddress
  | writeData flashAddress _ _ _ => flashAddress
  | erase flashAddress _ => flashAddress
  | raw _ offsetArg _ => (Spi.hexStrToUintn offsetArg).toUInt32

def run : NorRequest → Spi → Run (EfiStatus × Spi)
  | readData flashAddress lengthInBytes buffer _, s => do
      let (status, _, s) ← s.spiNorReadData flashAddress lengthInBytes buffer
      .ok (status, s)
  | writeData flashAddress lengthInBytes buffer _, s =>
      s.spiNorWriteData flashAddress lengthInBytes buffer
  | erase flashAddress blockCount, s => s.spiNorErase flashAddress blockCount
  | raw pool offsetArg fileData, s => s.flashAppRaw pool offsetArg (.ok fileData)

/-- Whatever is behind the bus, every command of the run is sent to the place
the request means, inside the device. -/
def StaysInside (req : NorRequest) : Prop :=
  ∀ s, ∃ r, req.run s = .ok r ∧ InsideFlash (fun _ => req.base.toNat) (s.traceTo r.2)

/-- The sum a check adds does not reach 2^32, or comes out past the device all
the same; raw mode is caught by the driver except at the last sector. -/
def SumExact : NorRequest → Prop
  | readData flashAddress lengthInBytes _ _ | writeData flashAddress lengthInBytes _ _ =>
      flashAddress.toNat + lengthInBytes.toNat < 4294967296
        ∨ 4294967296 + flashSize.toNat < flashAddress.toNat + lengthInBytes.toNat
  | erase flashAddress blockCount =>
      flashAddress.toNat % 4096 ≠ 0
        ∨ flashAddress.toNat + 4096 * blockCount.toNat < 4294967296
        ∨ flashSize.toNat < (flashAddress.toNat + 4096 * blockCount.toNat) % 4294967296
  | raw _ offsetArg fileData =>
      (Spi.hexStrToUintn offsetArg).toUInt32 ≠ 0xFFFFF000
        ∨ fileData.length % 4294967296 < 4096
        ∨ flashSize.toNat + 4096 < fileData.length % 4294967296

theorem readData_staysInside_iff (a n : UInt32) (buffer : List UInt8)
    (room : n.toNat ≤ buffer.length) :
    (readData a n buffer room).StaysInside ↔ (readData a n buffer room).SumExact := by
  have hsize : flashSize.toNat = 16777216 := rfl
  have ha := a.toNat_lt
  have hn := n.toNat_lt
  have hrejected : ¬ ¬ a + n > flashSize →
      ∀ s, (readData a n buffer room).run s = .ok (.invalidParameter, s) := by
    intro hcheck s
    rw [run, Spi.spiNorReadData, if_pos (not_not.mp hcheck)]
    rfl
  have haccepted : ¬ a + n > flashSize → ∀ s, ∃ r,
      (readData a n buffer room).run s = .ok r
        ∧ CallTrace s cmdReadData a.toNat n.toNat r := by
    intro hcheck s
    obtain ⟨status, buffer', s', hrun, -, hcall⟩ := s.spiNorReadData_call buffer room hcheck
    refine ⟨(status, s'), ?_, hcall⟩
    rw [run, hrun]
    rfl
  rw [StaysInside, base, call_stays_iff hrejected haccepted (fun hcheck hzero => ?_), SumExact,
    check_iff]
  · omega
  · have hle := (check_iff a n).mp hcheck
    omega

theorem writeData_staysInside_iff (a n : UInt32) (buffer : List UInt8)
    (full : buffer.length = n.toNat) :
    (writeData a n buffer full).StaysInside ↔ (writeData a n buffer full).SumExact := by
  have hsize : flashSize.toNat = 16777216 := rfl
  have ha := a.toNat_lt
  have hn := n.toNat_lt
  have hrejected : ¬ ¬ a + n > flashSize →
      ∀ s, (writeData a n buffer full).run s = .ok (.invalidParameter, s) :=
    fun hcheck s => if_pos (not_not.mp hcheck)
  rw [StaysInside, base, call_stays_iff hrejected
    (fun hcheck s => s.spiNorWriteData_call full hcheck) (fun hcheck hzero => ?_), SumExact,
    check_iff]
  · omega
  · have hle := (check_iff a n).mp hcheck
    omega

/-- The sum of the erase check, over the integers. -/
theorem eraseCheck_iff (a count : UInt32) :
    ¬ a + count * flashSectorSize > flashSize ↔
      (a.toNat + 4096 * count.toNat) % 4294967296 ≤ 16777216 := by
  rw [check_iff, UInt32.toNat_mul, show flashSectorSize.toNat = 4096 from rfl]
  omega

theorem erase_staysInside_iff (a count : UInt32) :
    (erase a count).StaysInside ↔ (erase a count).SumExact := by
  have hsize : flashSize.toNat = 16777216 := rfl
  have ha := a.toNat_lt
  have hrejected : ¬ (¬ a &&& (flashSectorSize - 1) ≠ 0
        ∧ ¬ a + count * flashSectorSize > flashSize) →
      ∀ s, (erase a count).run s = .ok (.invalidParameter, s) := by
    intro hbad s
    rw [run, Spi.spiNorErase]
    by_cases haligned : a &&& (flashSectorSize - 1) ≠ 0
    · exact if_pos haligned
    · rw [if_neg haligned]
      exact if_pos (not_not.mp fun hcheck => hbad ⟨haligned, hcheck⟩)
  rw [StaysInside, base, call_stays_iff hrejected
    (fun hacc s => s.spiNorErase_call a count hacc.1 hacc.2) (fun hacc hzero => ?_), SumExact,
    aligned_iff, eraseCheck_iff]
  · omega
  · have hle := (eraseCheck_iff a count).mp hacc.2
    omega

/-- A request that is turned down before anything is sent. -/
theorem staysInside_of_rejected {req : NorRequest}
    (h : ∀ s, req.run s = .ok (.invalidParameter, s)) : req.StaysInside := by
  intro s
  refine ⟨_, h s, ?_⟩
  rw [Spi.traceTo_self]
  trivial

theorem raw_staysInside_iff (pool : Option (List.Vector UInt8 4096))
    (offsetArg : List UInt16) (fileData : List UInt8) :
    (raw pool offsetArg fileData).StaysInside ↔ (raw pool offsetArg fileData).SumExact := by
  set off := (Spi.hexStrToUintn offsetArg).toUInt32 with hoff
  set size := UInt32.ofNat fileData.length with hsize
  have hflash : flashSize.toNat = 16777216 := rfl
  have hlast : (0xFFFFF000 : UInt32).toNat = 0xFFFFF000 := rfl
  have hmod : size.toNat = fileData.length % 4294967296 := UInt32.toNat_ofNat'
  have hdata : size.toNat ≤ fileData.length := by
    rw [hmod]
    exact Nat.mod_le _ _
  have hbound := off.toNat_lt
  have hexact : (raw pool offsetArg fileData).SumExact ↔
      off.toNat ≠ 0xFFFFF000 ∨ size.toNat < 4096 ∨ flashSize.toNat + 4096 < size.toNat := by
    rw [SumExact, ← hmod, ne_eq, ← UInt32.toNat_inj, hlast]
  have hrun : ∀ s, (raw pool offsetArg fileData).run s =
      if off + size > flashSize then .ok (.invalidParameter, s)
      else if off &&& (flashSectorSize - 1) ≠ 0 then .ok (.invalidParameter, s)
      else s.flashWriteVerify pool off fileData size := fun s => rfl
  have hbase : (raw pool offsetArg fileData).base = off := rfl
  rw [hexact]
  by_cases hcheck : off + size > flashSize
  · refine iff_of_true (staysInside_of_rejected fun s => (hrun s).trans (if_pos hcheck)) ?_
    have hover := not_imp_not.mpr (check_iff off size).mpr (not_not.mpr hcheck)
    omega
  have hpass := (check_iff off size).mp hcheck
  by_cases halign : off &&& (flashSectorSize - 1) ≠ 0
  · refine iff_of_true (staysInside_of_rejected fun s => ?_) ?_
    · rw [hrun, if_neg hcheck]
      exact if_pos halign
    · have hodd := not_imp_not.mpr (aligned_iff off).mpr (not_not.mpr halign)
      omega
  have haligned := (aligned_iff off).mp halign
  have hupdate : ∀ s, (raw pool offsetArg fileData).run s =
      s.flashWriteVerify pool off fileData size := by
    intro s
    rw [hrun, if_neg hcheck, if_neg halign]
  rcases Nat.lt_or_ge flashSize.toNat off.toNat with hpast | hstart
  · by_cases hwrap : off.toNat = 0xFFFFF000
    · refine iff_of_false ?_ (by omega)
      intro hstays
      obtain ⟨r, hr, hin⟩ := hstays Spi.zeroedSpi
      have hoffset : off = 0xFFFFF000 := UInt32.toNat_inj.mp hwrap
      obtain ⟨r', hr', hout⟩ := Spi.flashWriteVerify_wraps sound_zeroedSpi pool hdata
        (by omega) (by omega)
      rw [hupdate, hoffset, hr'] at hr
      obtain rfl := Except.ok.inj hr
      rw [hbase, hwrap] at hin
      exact hout hin
    · refine iff_of_true (staysInside_of_rejected fun s => ?_) (Or.inl hwrap)
      rw [hupdate]
      exact s.flashWriteVerify_rejected pool fileData haligned hpast hwrap (by omega) (by omega)
  · refine iff_of_true (fun s => ?_) (by omega)
    rw [hupdate, hbase]
    exact s.flashWriteVerify_inside pool haligned hstart hdata

/-- A request stays inside the device exactly when its sum does not wrap into
the range the check accepts. -/
theorem staysInside_iff_sumExact (req : NorRequest) : req.StaysInside ↔ req.SumExact := by
  cases req with
  | readData a n buffer room => exact readData_staysInside_iff a n buffer room
  | writeData a n buffer full => exact writeData_staysInside_iff a n buffer full
  | erase a count => exact erase_staysInside_iff a count
  | raw pool offsetArg fileData => exact raw_staysInside_iff pool offsetArg fileData

/-- Erasing the last sector of the 32-bit range is accepted. -/
theorem not_staysInside_eraseLast : ¬ (erase 0xFFFFF000 1).StaysInside := by
  rw [erase_staysInside_iff, SumExact]
  decide

end NorRequest

end Ccr2004
