import Ccr2004.KernelElf

/-!
# The size of a PE image

`PeEnd` is what the image says: the greatest end of the raw data of its
sections, when its headers parse. `GetPeFileSize` computes it unless the
offset of the PE header is so great that the 32-bit sum behind it wraps; then
the check passes and the signature is read outside the image.
-/

namespace Ccr2004

/-! ## Words read byte by byte -/

/-- One more byte of a 16-bit word. -/
theorem toNat_or_byte16 {x b : UInt16} (hx : x.toNat < 2 ^ 8) (hb : b.toNat < 256) :
    (x ||| (b <<< 8)).toNat = x.toNat + 256 * b.toNat := by
  have hshift : (b <<< 8).toNat = b.toNat <<< 8 := by
    rw [UInt16.toNat_shiftLeft]
    refine Nat.mod_eq_of_lt ?_
    rw [show (8 : UInt16).toNat % 16 = 8 from rfl, Nat.shiftLeft_eq]
    omega
  rw [UInt16.toNat_or, hshift, Nat.or_comm, ← Nat.shiftLeft_add_eq_or_of_lt hx, Nat.shiftLeft_eq]
  omega

/-- One more byte of a 32-bit word. -/
theorem toNat_or_byte32 {x b k : UInt32} (hk : k.toNat ≤ 24) (hx : x.toNat < 2 ^ k.toNat)
    (hb : b.toNat < 256) : (x ||| (b <<< k)).toNat = x.toNat + 2 ^ k.toNat * b.toNat := by
  have hpow : 2 ^ k.toNat ≤ 2 ^ 24 := Nat.pow_le_pow_right (by omega) hk
  have hfits : b.toNat * 2 ^ k.toNat < 2 ^ 32 := by
    calc b.toNat * 2 ^ k.toNat ≤ 255 * 2 ^ 24 := Nat.mul_le_mul (by omega) hpow
      _ < 2 ^ 32 := by omega
  have hshift : (b <<< k).toNat = b.toNat <<< k.toNat := by
    rw [UInt32.toNat_shiftLeft, Nat.mod_eq_of_lt (a := k.toNat) (by omega), Nat.shiftLeft_eq,
      Nat.mod_eq_of_lt hfits]
  rw [UInt32.toNat_or, hshift, Nat.or_comm, ← Nat.shiftLeft_add_eq_or_of_lt hx, Nat.shiftLeft_eq,
    Nat.mul_comm, Nat.add_comm]

section Words

variable {data : List UInt8} {off : Nat}

theorem imageByte_ok (h : off < data.length) : imageByte data off = .ok (word8 data off) := if_pos h

theorem imageByte_error (h : data.length ≤ off) : imageByte data off = .error .image :=
  if_neg (by omega)

theorem toNat_word8 (data : List UInt8) (off : Nat) :
    (word8 data off).toNat = leNat (slice data off 1) := by
  have hlt := leNat_slice_lt data off 1
  rw [word8, UInt8.toNat_ofNat']
  exact Nat.mod_eq_of_lt hlt

theorem toNat_word16 (data : List UInt8) (off : Nat) :
    (word16 data off).toNat = leNat (slice data off 2) := by
  have hlt := leNat_slice_lt data off 2
  rw [word16, UInt16.toNat_ofNat']
  exact Nat.mod_eq_of_lt hlt

theorem toNat_word32 (data : List UInt8) (off : Nat) :
    (word32 data off).toNat = leNat (slice data off 4) := by
  have hlt := leNat_slice_lt data off 4
  rw [word32, UInt32.toNat_ofNat']
  exact Nat.mod_eq_of_lt hlt

/-- The value of a word from its first byte and the rest. -/
theorem leNat_slice_succ (h : off < data.length) (n : Nat) :
    leNat (slice data off (1 + n))
      = (word8 data off).toNat + 256 * leNat (slice data (off + 1) n) := by
  rw [slice_add, leNat_append, length_slice (by omega), toNat_word8, Nat.pow_one]

theorem imageWord16_ok (h : off + 2 ≤ data.length) :
    imageWord16 data off = .ok (word16 data off) := by
  have h0 := (word8 data off).toNat_lt
  have h1 := (word8 data (off + 1)).toNat_lt
  have hval : leNat (slice data off 2)
      = (word8 data off).toNat + 256 * (word8 data (off + 1)).toNat := by
    rw [show 2 = 1 + 1 from rfl, leNat_slice_succ (by omega), toNat_word8 data (off + 1)]
  rw [imageWord16, imageByte_ok (by omega), ok_bind, imageByte_ok (by omega), ok_bind]
  refine congrArg _ (UInt16.toNat_inj.mp ?_)
  rw [toNat_or_byte16 (by rwa [UInt8.toNat_toUInt16]) (by rwa [UInt8.toNat_toUInt16]),
    UInt8.toNat_toUInt16, UInt8.toNat_toUInt16, toNat_word16, hval]

theorem imageWord32_ok (h : off + 4 ≤ data.length) :
    imageWord32 data off = .ok (word32 data off) := by
  have h0 := (word8 data off).toNat_lt
  have h1 := (word8 data (off + 1)).toNat_lt
  have h2 := (word8 data (off + 2)).toNat_lt
  have h3 := (word8 data (off + 3)).toNat_lt
  have hval : leNat (slice data off 4) = (word8 data off).toNat
      + 256 * ((word8 data (off + 1)).toNat + 256 * ((word8 data (off + 2)).toNat
        + 256 * (word8 data (off + 3)).toNat)) := by
    rw [show 4 = 1 + (1 + (1 + 1)) from rfl, leNat_slice_succ (by omega),
      leNat_slice_succ (by omega), leNat_slice_succ (by omega), ← toNat_word8]
  rw [imageWord32, imageByte_ok (by omega), ok_bind, imageByte_ok (by omega), ok_bind,
    imageByte_ok (by omega), ok_bind, imageByte_ok (by omega), ok_bind]
  refine congrArg _ (UInt32.toNat_inj.mp ?_)
  have e8 : (2 : Nat) ^ (8 : UInt32).toNat = 256 := rfl
  have e16 : (2 : Nat) ^ (16 : UInt32).toNat = 65536 := rfl
  have e24 : (2 : Nat) ^ (24 : UInt32).toNat = 16777216 := rfl
  have s1 := toNat_or_byte32 (x := (word8 data off).toUInt32) (b := (word8 data (off + 1)).toUInt32)
    (k := 8) (by decide) (by rw [e8, UInt8.toNat_toUInt32]; omega)
    (by rw [UInt8.toNat_toUInt32]; omega)
  rw [e8, UInt8.toNat_toUInt32, UInt8.toNat_toUInt32] at s1
  have s2 := toNat_or_byte32 (b := (word8 data (off + 2)).toUInt32) (k := 16) (by decide)
    (by rw [s1, e16]; omega) (by rw [UInt8.toNat_toUInt32]; omega)
  rw [e16, s1, UInt8.toNat_toUInt32] at s2
  have s3 := toNat_or_byte32 (b := (word8 data (off + 3)).toUInt32) (k := 24) (by decide)
    (by rw [s2, e24]; omega) (by rw [UInt8.toNat_toUInt32]; omega)
  rw [e24, s2, UInt8.toNat_toUInt32] at s3
  rw [s3, toNat_word32, hval]
  omega

end Words

/-! ## What an image says -/

section Image

variable (img : List UInt8)

/-- `e_lfanew`. -/
def peOffset : Nat := leNat (slice img 0x3C 4)

def peSectionCount : Nat := leNat (slice img (peOffset img + 6) 2)

/-- The header of a section. -/
def peSection (i : Nat) : Nat :=
  peOffset img + 24 + leNat (slice img (peOffset img + 20) 2) + 40 * i

/-- `PointerToRawData + SizeOfRawData`. -/
def peSectionEnd (i : Nat) : Nat :=
  leNat (slice img (peSection img i + 20) 4) + leNat (slice img (peSection img i + 16) 4)

/-- The greatest end of the raw data of the first `n` sections. -/
def peEndOf (n : Nat) : Nat := ((List.range n).map (peSectionEnd img)).foldl max 0

/-- The greatest end of the raw data of a section. -/
def peEnd : Nat := peEndOf img (peSectionCount img)

/-- The PE headers parse: the DOS header, the signature and the COFF header,
and the section table are all there. -/
structure PeParses : Prop where
  dos : 0x40 ≤ img.length
  coff : peOffset img + 24 ≤ img.length
  signature : slice img (peOffset img) 4 = [0x50, 0x45, 0, 0]
  table : peSection img (peSectionCount img) ≤ img.length

instance : Decidable (PeParses img) :=
  decidable_of_iff (0x40 ≤ img.length ∧ peOffset img + 24 ≤ img.length
      ∧ slice img (peOffset img) 4 = [0x50, 0x45, 0, 0]
      ∧ peSection img (peSectionCount img) ≤ img.length)
    ⟨fun h => ⟨h.1, h.2.1, h.2.2.1, h.2.2.2⟩, fun h => ⟨h.dos, h.coff, h.signature, h.table⟩⟩

/-- The size of the image in the file. -/
def kernelFileSize : Nat := if PeParses img then peEnd img else img.length

/-- The sum behind the offset of the PE header does not wrap in 32 bits. -/
def PeOffsetFits : Prop := img.length < 0x40 ∨ peOffset img < 2 ^ 32 - 24

variable {img}

theorem slice_one {off : Nat} (h : off + 1 ≤ img.length) : slice img off 1 = [word8 img off] := by
  obtain ⟨b, hb⟩ := List.length_eq_one_iff.mp (length_slice h)
  rw [word8, hb, readByte]

theorem slice_four {off : Nat} (h : off + 4 ≤ img.length) :
    slice img off 4
      = [word8 img off, word8 img (off + 1), word8 img (off + 2), word8 img (off + 3)] := by
  rw [show 4 = 1 + (1 + (1 + 1)) from rfl, slice_add, slice_add, slice_add, slice_one (by omega),
    slice_one (by omega), slice_one (by omega), slice_one (by omega)]
  rfl

theorem toNat_max (a b : Nat) (ha : a < 2 ^ 64) (hb : b < 2 ^ 64) :
    (if UInt64.ofNat b > UInt64.ofNat a then UInt64.ofNat b else UInt64.ofNat a)
      = UInt64.ofNat (max a b) := by
  by_cases h : UInt64.ofNat b > UInt64.ofNat a
  · rw [if_pos h]
    rw [gt_iff_lt, UInt64.lt_iff_toNat_lt, toNat_ofNat_of_lt ha, toNat_ofNat_of_lt hb] at h
    rw [Nat.max_eq_right (Nat.le_of_lt h)]
  · rw [if_neg h]
    rw [gt_iff_lt, UInt64.lt_iff_toNat_lt, toNat_ofNat_of_lt ha, toNat_ofNat_of_lt hb] at h
    rw [Nat.max_eq_left (Nat.not_lt.mp h)]

theorem peSectionEnd_lt (img : List UInt8) (i : Nat) : peSectionEnd img i < 2 ^ 33 := by
  have hptr := leNat_slice_lt img (peSection img i + 20) 4
  have hsize := leNat_slice_lt img (peSection img i + 16) 4
  rw [peSectionEnd]
  omega

/-- A round over the section table. -/
theorem peSectionRound_ok {secStart : UInt64} {i : Nat} {m : Nat}
    (hlen : img.length ≤ xzOutputMaxSize) (hstart : secStart.toNat = peSection img 0)
    (hin : peSection img (i + 1) ≤ img.length) (hm : m < 2 ^ 33) :
    peSectionRound img secStart i (UInt64.ofNat m)
      = .ok (.next (UInt64.ofNat (max m (peSectionEnd img i)))) := by
  have hmax : xzOutputMaxSize = 2 ^ 25 := rfl
  have hnext : peSection img (i + 1) = peSection img i + 40 := by
    rw [peSection, peSection]
    omega
  have hsum : peSection img 0 + 40 * i = peSection img i := by
    rw [peSection, peSection]
    omega
  have hi : (UInt64.ofNat i).toNat = i := toNat_ofNat_of_lt (by omega)
  have hmul : (UInt64.ofNat i * 40).toNat = 40 * i := by
    rw [UInt64.toNat_mul, hi, show (40 : UInt64).toNat = 40 from rfl]
    omega
  have hso : (secStart + UInt64.ofNat i * 40).toNat = peSection img i := by
    rw [toNat_add_of_lt hstart hmul (by omega), hsum]
  have h16 : (secStart + UInt64.ofNat i * 40 + 16).toNat = peSection img i + 16 :=
    toNat_add_of_lt hso rfl (by omega)
  have h20 : (secStart + UInt64.ofNat i * 40 + 20).toNat = peSection img i + 20 :=
    toNat_add_of_lt hso rfl (by omega)
  have hend : (word32 img (peSection img i + 20)).toUInt64
      + (word32 img (peSection img i + 16)).toUInt64 = UInt64.ofNat (peSectionEnd img i) := by
    have hlt := peSectionEnd_lt img i
    refine UInt64.toNat_inj.mp ?_
    rw [toNat_ofNat_of_lt (by omega), toNat_add_of_lt (UInt32.toNat_toUInt64 _)
      (UInt32.toNat_toUInt64 _), toNat_word32, toNat_word32, peSectionEnd]
    rw [toNat_word32, toNat_word32]
    exact Nat.lt_trans hlt (by omega)
  have hsize : imageWord32 img (peSection img i + 16) = .ok (word32 img (peSection img i + 16)) :=
    imageWord32_ok (by omega)
  have hptr : imageWord32 img (peSection img i + 20) = .ok (word32 img (peSection img i + 20)) :=
    imageWord32_ok (by omega)
  rw [peSectionRound]
  simp only [h16, h20, hsize, hptr, ok_bind, hend]
  rw [toNat_max m _ (by omega) (Nat.lt_trans (peSectionEnd_lt img i) (by omega))]

theorem peEndOf_succ (img : List UInt8) (n : Nat) :
    peEndOf img (n + 1) = max (peEndOf img n) (peSectionEnd img n) := by
  rw [peEndOf, List.range_succ, List.map_append, List.foldl_append]
  rfl

theorem peEndOf_lt (img : List UInt8) (n : Nat) : peEndOf img n < 2 ^ 33 := by
  induction n with
  | zero => exact Nat.two_pow_pos 33
  | succ n ih =>
      rw [peEndOf_succ]
      exact Nat.max_lt.mpr ⟨ih, peSectionEnd_lt img n⟩

/-- The loop over the section table takes the greatest end. -/
theorem peSections_ok {secStart : UInt64} (hlen : img.length ≤ xzOutputMaxSize)
    (hstart : secStart.toNat = peSection img 0)
    (hin : peSection img (peSectionCount img) ≤ img.length) :
    ∃ c, forFrom (peSectionRound img secStart) (peSectionCount img) 0 0 = .ok c
      ∧ c.state = UInt64.ofNat (peEnd img) := by
  have hzero : (0 : UInt64) = UInt64.ofNat (peEndOf img 0) := rfl
  obtain ⟨c, hrun, hc⟩ := @forFrom_total _ _ _ (peSectionRound img secStart)
    (fun i m => m = UInt64.ofNat (peEndOf img i)) (fun _ => False)
    (peSectionCount img) 0 0 (fun i m _ hi hm => by
      have hin' : peSection img (i + 1) ≤ img.length := by
        refine Nat.le_trans ?_ hin
        rw [peSection, peSection]
        omega
      refine ⟨_, by rw [hm, peSectionRound_ok hlen hstart hin' (peEndOf_lt img i)], ?_⟩
      rw [Flow.post_next, peEndOf_succ]) hzero
  refine ⟨c, hrun, ?_⟩
  cases c with
  | next m =>
      rw [Flow.post_next, Nat.zero_add] at hc
      exact hc
  | exit m => exact hc.elim

/-- Past the DOS header: the 32-bit sum of the check decides whether the image
is left. -/
theorem getPeFileSize_dos (hlen : img.length ≤ xzOutputMaxSize) (hdos : 0x40 ≤ img.length)
    (hmz : img.take 2 = [0x4D, 0x5A]) :
    getPeFileSize img = (do
      let peOff := word32 img 0x3C
      if (peOff + 24).toUInt64 > UInt64.ofNat img.length then .ok none
      else do
        let s0 ← imageByte img peOff.toNat
        let s1 ← imageByte img (peOff + 1).toNat
        let s2 ← imageByte img (peOff + 2).toNat
        let s3 ← imageByte img (peOff + 3).toNat
        if s0 ≠ 0x50 ∨ s1 ≠ 0x45 ∨ s2 ≠ 0 ∨ s3 ≠ 0 then .ok none
        else do
          let numSections ← imageWord16 img (peOff + 6).toNat
          let optHdrSize ← imageWord16 img (peOff + 20).toNat
          let secStart := (peOff + 24 + optHdrSize.toUInt32).toUInt64
          if secStart + numSections.toUInt64 * 40 > UInt64.ofNat img.length then .ok none
          else do
            let maxEnd ← forFrom (peSectionRound img secStart) numSections.toNat 0 0
            .ok (some maxEnd.state)) := by
  have hmax : xzOutputMaxSize = 2 ^ 25 := rfl
  have hsize : ¬ UInt64.ofNat img.length < 0x40 := by
    rw [UInt64.lt_iff_toNat_lt, toNat_ofNat_of_lt (by omega)]
    exact Nat.not_lt.mpr hdos
  have hbytes : slice img 0 (1 + 1) = [0x4D, 0x5A] := hmz
  rw [slice_add, slice_one (by omega), slice_one (by omega)] at hbytes
  have hm : word8 img 0 = 0x4D := List.head_eq_of_cons_eq hbytes
  have hz : word8 img (0 + 1) = 0x5A := List.head_eq_of_cons_eq (List.tail_eq_of_cons_eq hbytes)
  have hmz' : ¬ ((0x4D : UInt8) ≠ 0x4D ∨ (0x5A : UInt8) ≠ 0x5A) := by decide
  rw [getPeFileSize, if_neg hsize, imageByte_ok (by omega), ok_bind, imageByte_ok (by omega),
    ok_bind, hm, hz, if_neg hmz', imageWord32_ok (by omega), ok_bind]

theorem toNat_peOff (img : List UInt8) : (word32 img 0x3C).toNat = peOffset img := toNat_word32 _ _

/-- A field behind an offset of the PE header that fits. -/
theorem toNat_peOff_add (hlen : img.length ≤ xzOutputMaxSize)
    (hcoff : peOffset img + 24 ≤ img.length) {k : UInt32} (hk : k.toNat ≤ 24) :
    (word32 img 0x3C + k).toNat = peOffset img + k.toNat := by
  have hmax : xzOutputMaxSize = 2 ^ 25 := rfl
  rw [UInt32.toNat_add, toNat_peOff]
  exact Nat.mod_eq_of_lt (by omega)

/-- The start of the section table. -/
theorem toNat_secStart (hlen : img.length ≤ xzOutputMaxSize)
    (hcoff : peOffset img + 24 ≤ img.length) :
    (word32 img 0x3C + 24 + (word16 img (peOffset img + 20)).toUInt32).toUInt64.toNat
      = peSection img 0 := by
  have hmax : xzOutputMaxSize = 2 ^ 25 := rfl
  have hopt := (word16 img (peOffset img + 20)).toNat_lt
  rw [UInt32.toNat_toUInt64, UInt32.toNat_add, toNat_peOff_add hlen hcoff (by decide),
    UInt16.toNat_toUInt32, Nat.mod_eq_of_lt, toNat_word16, peSection]
  · rfl
  · have h24 : (24 : UInt32).toNat = 24 := rfl
    omega

theorem toNat_tableEnd {secStart : UInt64} (hlen : img.length ≤ xzOutputMaxSize)
    (hcoff : peOffset img + 24 ≤ img.length) (hstart : secStart.toNat = peSection img 0) :
    (secStart + (word16 img (peOffset img + 6)).toUInt64 * 40).toNat
      = peSection img (peSectionCount img) := by
  have hmax : xzOutputMaxSize = 2 ^ 25 := rfl
  have hnum := leNat_slice_lt img (peOffset img + 6) 2
  have hopt := leNat_slice_lt img (peOffset img + 20) 2
  have hmul : ((word16 img (peOffset img + 6)).toUInt64 * 40).toNat = 40 * peSectionCount img := by
    rw [UInt64.toNat_mul, UInt16.toNat_toUInt64, toNat_word16, show (40 : UInt64).toNat = 40 from rfl,
      peSectionCount]
    omega
  rw [toNat_add_of_lt hstart hmul, peSection, peSection, Nat.mul_zero, Nat.add_zero]
  rw [peSection, peSectionCount]
  omega

/-- Past the signature: the section table. -/
theorem peTable_ok (hlen : img.length ≤ xzOutputMaxSize) (hdos : 0x40 ≤ img.length)
    (hcoff : peOffset img + 24 ≤ img.length)
    (hsig : slice img (peOffset img) 4 = [0x50, 0x45, 0, 0]) {secStart : UInt64}
    (hstart : secStart.toNat = peSection img 0) :
    (if secStart + (word16 img (peOffset img + 6)).toUInt64 * 40 > UInt64.ofNat img.length
      then .ok none
      else do
        let maxEnd ← forFrom (peSectionRound img secStart)
          (word16 img (peOffset img + 6)).toNat 0 0
        .ok (some maxEnd.state) : KernelRun (Option UInt64))
      = .ok (if PeParses img then some (UInt64.ofNat (peEnd img)) else none) := by
  have hmax : xzOutputMaxSize = 2 ^ 25 := rfl
  have htable : secStart + (word16 img (peOffset img + 6)).toUInt64 * 40 > UInt64.ofNat img.length
      ↔ ¬ peSection img (peSectionCount img) ≤ img.length := by
    rw [gt_iff_lt, UInt64.lt_iff_toNat_lt, toNat_tableEnd hlen hcoff hstart,
      toNat_ofNat_of_lt (by omega), Nat.not_le]
  by_cases hin : peSection img (peSectionCount img) ≤ img.length
  · obtain ⟨c, hrun, hc⟩ := peSections_ok hlen hstart hin
    have hparses : PeParses img := ⟨hdos, hcoff, hsig, hin⟩
    rw [if_neg fun h => htable.mp h hin, toNat_word16]
    change (forFrom (peSectionRound img secStart) (peSectionCount img) 0 0 >>= _) = _
    rw [hrun, ok_bind, hc, if_pos hparses]
  · rw [if_pos (htable.mpr hin), if_neg fun h : PeParses img => hin h.table]

/-- The headers of an image whose offset of the PE header fits. -/
theorem getPeFileSize_fits (hlen : img.length ≤ xzOutputMaxSize) (hdos : 0x40 ≤ img.length)
    (hmz : img.take 2 = [0x4D, 0x5A]) (hfits : peOffset img < 2 ^ 32 - 24) :
    getPeFileSize img
      = .ok (if PeParses img then some (UInt64.ofNat (peEnd img)) else none) := by
  have hmax : xzOutputMaxSize = 2 ^ 25 := rfl
  have hcheck : (word32 img 0x3C + 24).toUInt64 > UInt64.ofNat img.length
      ↔ ¬ peOffset img + 24 ≤ img.length := by
    rw [gt_iff_lt, UInt64.lt_iff_toNat_lt, toNat_ofNat_of_lt (by omega), UInt32.toNat_toUInt64,
      UInt32.toNat_add, toNat_peOff, show (24 : UInt32).toNat = 24 from rfl,
      Nat.mod_eq_of_lt (by omega), Nat.not_le]
  rw [getPeFileSize_dos hlen hdos hmz]
  by_cases hcoff : peOffset img + 24 ≤ img.length
  · have hoff : ∀ {k : UInt32}, k.toNat ≤ 24 →
        (word32 img 0x3C + k).toNat = peOffset img + k.toNat := toNat_peOff_add hlen hcoff
    have hfour := slice_four (show peOffset img + 4 ≤ img.length by omega)
    simp only [if_neg fun h => hcheck.mp h hcoff, toNat_peOff, hoff (k := 1) (by decide),
      hoff (k := 2) (by decide), hoff (k := 3) (by decide), hoff (k := 6) (by decide),
      hoff (k := 20) (by decide)]
    change (imageByte img (peOffset img) >>= fun s0 => imageByte img (peOffset img + 1) >>= fun s1 =>
      imageByte img (peOffset img + 2) >>= fun s2 => imageByte img (peOffset img + 3) >>= fun s3 =>
      if s0 ≠ 0x50 ∨ s1 ≠ 0x45 ∨ s2 ≠ 0 ∨ s3 ≠ 0 then .ok none
      else imageWord16 img (peOffset img + 6) >>= fun _ =>
        imageWord16 img (peOffset img + 20) >>= _) = _
    rw [imageByte_ok (by omega), ok_bind, imageByte_ok (by omega), ok_bind,
      imageByte_ok (by omega), ok_bind, imageByte_ok (by omega), ok_bind]
    by_cases hsig : slice img (peOffset img) 4 = [0x50, 0x45, 0, 0]
    · have hbytes := hsig
      rw [hfour] at hbytes
      simp only [List.cons.injEq, and_true] at hbytes
      obtain ⟨h0, h1, h2, h3⟩ := hbytes
      rw [if_neg (by rw [h0, h1, h2, h3]; decide), imageWord16_ok (by omega), ok_bind,
        imageWord16_ok (by omega), ok_bind]
      exact peTable_ok hlen hdos hcoff hsig (toNat_secStart hlen hcoff)
    · rw [if_pos, if_neg fun h : PeParses img => hsig h.signature]
      by_contra hall
      simp only [not_or, not_not] at hall
      obtain ⟨h0, h1, h2, h3⟩ := hall
      exact hsig (by rw [hfour, h0, h1, h2, h3])
  · simp only [if_pos (hcheck.mpr hcoff)]
    rw [if_neg fun h : PeParses img => hcoff h.coff]

/-- An offset of the PE header at the end of 32 bits. -/
theorem getPeFileSize_wraps (hlen : img.length ≤ xzOutputMaxSize) (hdos : 0x40 ≤ img.length)
    (hmz : img.take 2 = [0x4D, 0x5A]) (hwraps : ¬ peOffset img < 2 ^ 32 - 24) :
    getPeFileSize img = .error .image := by
  have hmax : xzOutputMaxSize = 2 ^ 25 := rfl
  have hoff := (word32 img 0x3C).toNat_lt
  have hcheck : ¬ (word32 img 0x3C + 24).toUInt64 > UInt64.ofNat img.length := by
    rw [gt_iff_lt, UInt64.lt_iff_toNat_lt, toNat_ofNat_of_lt (by omega), UInt32.toNat_toUInt64,
      UInt32.toNat_add, show (24 : UInt32).toNat = 24 from rfl]
    rw [toNat_peOff] at hoff ⊢
    omega
  rw [getPeFileSize_dos hlen hdos hmz]
  simp only [if_neg hcheck]
  rw [imageByte_error (by rw [toNat_peOff]; omega), error_bind]

end Image

end Ccr2004
