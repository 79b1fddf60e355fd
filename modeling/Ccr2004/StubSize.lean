import Ccr2004.KernelStub

/-!
# The size reported for the stub

`GetPeFileSize` takes the greatest end of the raw data of the sections as the
headers state it, and nothing compares that end with the size of the image.
`StubFits` is what the headers must say for a loader to trust the size: they
are read inside the image, and every section ends inside it.
-/

namespace Ccr2004

/-- No access outside the image, and every run that hands the image out
reports a size within it. -/
structure StubTrusted (img : List UInt8) : Prop where
  inside : ∃ size, getPeFileSize img = .ok size
  size : ∀ env data out, extractKernelAndInitrd env data = .ok out →
    out.stubBuffer = some img → out.stubSize.toNat ≤ img.length

/-- An image with a DOS header has the offset of its PE header fit, and when
its headers parse its sections end inside it. -/
def StubFits (img : List UInt8) : Prop :=
  0x40 ≤ img.length → img.take 2 = [0x4D, 0x5A] →
    peOffset img < 2 ^ 32 - 24 ∧ (PeParses img → peEnd img ≤ img.length)

instance (img : List UInt8) : Decidable (StubFits img) :=
  inferInstanceAs (Decidable (_ → _ → _ ∧ _))

/-! ## The size of any image -/

section Image

variable {img : List UInt8}

theorem getPeFileSize_short (hsmall : img.length < 0x40) : getPeFileSize img = .ok none := by
  have hsize : UInt64.ofNat img.length < 0x40 := by
    rw [UInt64.lt_iff_toNat_lt, toNat_ofNat_of_lt (by omega)]
    exact hsmall
  rw [getPeFileSize, if_pos hsize]

/-- Without the DOS magic the image is not parsed. -/
theorem getPeFileSize_notMz (hlen : img.length ≤ xzOutputMaxSize)
    (hmz : img.take 2 ≠ [0x4D, 0x5A]) : getPeFileSize img = .ok none := by
  have hmax : xzOutputMaxSize = 2 ^ 25 := rfl
  rcases Nat.lt_or_ge img.length 0x40 with hsmall | hdos
  · exact getPeFileSize_short hsmall
  · have hsize : ¬ UInt64.ofNat img.length < 0x40 := by
      rw [UInt64.lt_iff_toNat_lt, toNat_ofNat_of_lt (by omega)]
      exact Nat.not_lt.mpr hdos
    have htwo : img.take 2 = [word8 img 0, word8 img (0 + 1)] := by
      have hbytes : img.take 2 = slice img 0 (1 + 1) := rfl
      rw [hbytes, slice_add, slice_one (by omega), slice_one (by omega)]
      rfl
    have hne : word8 img 0 ≠ 0x4D ∨ word8 img (0 + 1) ≠ 0x5A := by
      by_contra h
      simp only [not_or, not_not] at h
      exact hmz (by rw [htwo, h.1, h.2])
    rw [getPeFileSize, if_neg hsize, imageByte_ok (by omega), ok_bind, imageByte_ok (by omega),
      ok_bind, if_pos hne]

/-- The size that a run reports when the headers are read inside the image. -/
theorem getPeFileSize_inside (hlen : img.length ≤ xzOutputMaxSize)
    (hfits : 0x40 ≤ img.length → img.take 2 = [0x4D, 0x5A] → peOffset img < 2 ^ 32 - 24) :
    ∃ size, getPeFileSize img = .ok size
      ∧ (size = none ∨ img.take 2 = [0x4D, 0x5A] ∧ PeParses img
        ∧ size = some (UInt64.ofNat (peEnd img))) := by
  by_cases hmz : img.take 2 = [0x4D, 0x5A]
  · rcases Nat.lt_or_ge img.length 0x40 with hsmall | hdos
    · exact ⟨none, getPeFileSize_short hsmall, .inl rfl⟩
    · have hrun := getPeFileSize_fits hlen hdos hmz (hfits hdos hmz)
      by_cases hparses : PeParses img
      · rw [if_pos hparses] at hrun
        exact ⟨_, hrun, .inr ⟨hmz, hparses, rfl⟩⟩
      · rw [if_neg hparses] at hrun
        exact ⟨none, hrun, .inl rfl⟩
  · exact ⟨none, getPeFileSize_notMz hlen hmz, .inl rfl⟩

theorem toNat_peEnd (img : List UInt8) : (UInt64.ofNat (peEnd img)).toNat = peEnd img :=
  toNat_ofNat_of_lt (Nat.lt_trans (peEndOf_lt img _) (by omega))

end Image

/-! ## What a run reports -/

section Report

variable {env : KernelEnv} {data img : List UInt8} {out : KernelExtract}

/-- The stub of a run is what the first stream decoded to, reported with the
size that `GetPeFileSize` finds, or its own. -/
theorem extract_stub (h : extractKernelAndInitrd env data = .ok out)
    (hstub : out.stubBuffer = some img) :
    (∃ input consumed, env.tryXzDecompress 0 input = .ok (img, consumed))
      ∧ ∃ size, getPeFileSize img = .ok size
        ∧ out.stubSize = size.getD (UInt64.ofNat img.length) := by
  rcases extract_cases h with hfailed | ⟨-, img', input, consumed, size, htry, hsize, hbuffer,
    hreported⟩
  · rw [hfailed] at hstub
    cases hstub
  · obtain rfl := Option.some.inj (hbuffer.symm.trans hstub)
    exact ⟨⟨input, consumed, htry⟩, size, hsize, hreported⟩

end Report

/-! ## An image that a run hands out -/

/-- A decoder that gives the image for one stream. -/
def stubEnv (img : List UInt8) : KernelEnv where
  xzDecRun input :=
    if mzStream.isPrefixOf input then ⟨.streamEnd, mzStream.length, img⟩ else ⟨.other, 0, []⟩
  allocOutput _ := true
  xzDecInit _ := true

def stubContents : List UInt8 := mzStream ++ (List.replicate 0 0 ++ [1, 2])

theorem stubEnv_contract (img : List UInt8) :
    XzContract (stubEnv img) fun s out => s = mzStream ∧ out = img where
  magic s out h := by
    rw [h.1]
    exact ⟨_, rfl⟩
  run s out rest h _ := by
    obtain ⟨rfl, rfl⟩ := h
    rfl

/-- Every image with a DOS magic is handed out by a run. -/
theorem extract_stubEnv {img : List UInt8} (hlen : img.length ≤ xzOutputMaxSize)
    (hmz : img.take 2 = [0x4D, 0x5A]) {size : Option UInt64} (hsize : getPeFileSize img = .ok size) :
    extractKernelAndInitrd (stubEnv img) (bootElf stubContents)
      = .ok ⟨.success, some img, size.getD (UInt64.ofNat img.length), none, 0⟩ := by
  have hlayout : BootLayout stubContents := by decide +kernel
  have hcontents : InitrdContents (fun s out => s = mzStream ∧ out = img) stubContents img none
      mzStream 0 [1, 2] := ⟨rfl, ⟨rfl, rfl⟩, .none (by decide)⟩
  have hfile := hlayout.file hcontents hmz hlen
  have hdata : (bootElf stubContents).length < 2 ^ 63 := by decide +kernel
  rw [hfile.extract_eq (stubEnv_contract img) ⟨fun _ => rfl, fun _ => rfl⟩ hdata, hsize, ok_bind]
  rfl

/-! ## The size is trustworthy -/

/-- The headers are read inside the image, and the end they state is the size
that some run reports. -/
theorem StubTrusted.fits {img : List UInt8} (hlen : img.length ≤ xzOutputMaxSize)
    (h : StubTrusted img) : StubFits img := by
  intro hdos hmz
  have hoff : peOffset img < 2 ^ 32 - 24 := by
    by_contra hwraps
    obtain ⟨size, hrun⟩ := h.inside
    rw [getPeFileSize_wraps hlen hdos hmz hwraps] at hrun
    cases hrun
  refine ⟨hoff, fun hparses => ?_⟩
  have hrun := getPeFileSize_fits hlen hdos hmz hoff
  rw [if_pos hparses] at hrun
  have hle := h.size _ _ _ (extract_stubEnv hlen hmz hrun) rfl
  rwa [Option.getD_some, toNat_peEnd] at hle

theorem StubFits.trusted {img : List UInt8} (hlen : img.length ≤ xzOutputMaxSize)
    (h : StubFits img) : StubTrusted img := by
  have hmax : xzOutputMaxSize = 2 ^ 25 := rfl
  obtain ⟨size, hrun, hsize⟩ := getPeFileSize_inside hlen fun hdos hmz => (h hdos hmz).1
  refine ⟨⟨size, hrun⟩, fun env data out hout hstub => ?_⟩
  obtain ⟨-, size', hrun', hreported⟩ := extract_stub hout hstub
  obtain rfl := Except.ok.inj (hrun.symm.trans hrun')
  rw [hreported]
  rcases hsize with rfl | ⟨hmz, hparses, rfl⟩
  · rw [Option.getD_none, toNat_ofNat_of_lt (by omega)]
  · rw [Option.getD_some, toNat_peEnd]
    exact (h hparses.dos hmz).2 hparses

/-- For every image that fits the output buffer, the size reported for it can
be trusted exactly when its headers are read inside it and its sections end
inside it. -/
theorem stubTrusted_iff {img : List UInt8} (hlen : img.length ≤ xzOutputMaxSize) :
    StubTrusted img ↔ StubFits img :=
  ⟨StubTrusted.fits hlen, StubFits.trusted hlen⟩

/-- An image of 128 bytes with one section of `rawSize` bytes at its start. -/
def oneSectionImage (rawSize : Nat) : List UInt8 :=
  [0x4D, 0x5A] ++ List.replicate 58 0 ++ leBytes 4 0x40
    ++ ([0x50, 0x45, 0, 0] ++ leBytes 2 0xAA64 ++ leBytes 2 1 ++ List.replicate 16 0)
    ++ (List.replicate 16 0 ++ leBytes 4 rawSize ++ leBytes 4 0 ++ List.replicate 16 0)

/-- A section that is the whole image. -/
theorem stubTrusted_wholeSection : StubTrusted (oneSectionImage 128) :=
  (stubTrusted_iff (by decide +kernel)).mpr (by decide +kernel)

/-- A section that states one page more than the image has: a loader that
copies the reported size reads past the image. -/
theorem not_stubTrusted_longSection : ¬ StubTrusted (oneSectionImage 0x1000) := fun h =>
  absurd (h.fits (by decide +kernel)) (by decide +kernel)

end Ccr2004
