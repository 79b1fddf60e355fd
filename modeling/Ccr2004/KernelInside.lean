import Ccr2004.KernelElf

/-!
# When the extraction stays inside the boot ELF

`elfSafe_iff` joins the lemmas of the lookup, of the loaded segments and of
the searches: past the range to search, an access outside the file is not
possible, whatever the decoder returns within its contract.
-/

namespace Ccr2004

/-! ## The image is not the ELF -/

/-- A run that accesses nothing outside the ELF. -/
def ImageOnly {α : Type} (run : KernelRun α) : Prop := ∀ e, run = .error e → e = .image

namespace ImageOnly

variable {α β : Type}

theorem ok (a : α) : ImageOnly (.ok a : KernelRun α) := fun _ h => by cases h

theorem bind {run : KernelRun α} {f : α → KernelRun β} (h : ImageOnly run)
    (hf : ∀ a, ImageOnly (f a)) : ImageOnly (run >>= f) := by
  cases run with
  | error e => exact fun e' h' => h e' (congrArg _ (Except.error.inj h'))
  | ok a => exact hf a

theorem ite {p : Prop} [Decidable p] {x y : KernelRun α} (hx : ImageOnly x) (hy : ImageOnly y) :
    ImageOnly (if p then x else y) := by
  split
  · exact hx
  · exact hy

theorem byte (data : List UInt8) (off : Nat) : ImageOnly (imageByte data off) := by
  rw [imageByte]
  split
  · exact ok _
  · exact fun e h => (Except.error.inj h).symm

theorem word16 (data : List UInt8) (off : Nat) : ImageOnly (imageWord16 data off) :=
  (byte data off).bind fun _ => (byte data _).bind fun _ => ok _

theorem word32 (data : List UInt8) (off : Nat) : ImageOnly (imageWord32 data off) :=
  (byte data off).bind fun _ => (byte data _).bind fun _ => (byte data _).bind fun _ =>
    (byte data _).bind fun _ => ok _

theorem peSections (data : List UInt8) (secStart : UInt64) :
    ∀ (n i : Nat) (maxEnd : UInt64), ImageOnly (forFrom (peSectionRound data secStart) n i maxEnd)
  | 0, _, _ => ok _
  | n + 1, i, maxEnd => by
      have hround : ImageOnly (peSectionRound data secStart i maxEnd) :=
        (word32 data _).bind fun _ => (word32 data _).bind fun _ => ok _
      refine hround.bind fun c => ?_
      cases c with
      | next m => exact peSections data secStart n (i + 1) m
      | exit m => exact ok _

theorem peFileSize (data : List UInt8) : ImageOnly (getPeFileSize data) := by
  rw [getPeFileSize]
  refine ite (ok _) ((byte data _).bind fun _ => (byte data _).bind fun _ => ite (ok _) ?_)
  refine (word32 data _).bind fun _ => ite (ok _) ?_
  -- the signature
  refine (byte data _).bind fun _ => (byte data _).bind fun _ => (byte data _).bind fun _ =>
    (byte data _).bind fun _ => ite (ok _) ?_
  refine (word16 data _).bind fun _ => (word16 data _).bind fun _ => ite (ok _) ?_
  exact (peSections data _ _ _ _).bind fun _ => ok _

end ImageOnly

/-! ## Past the range to search -/

section Extract

variable {env : KernelEnv} {data : List UInt8} {start stop : UInt64}

/-- The input of a decompression. -/
theorem elfBytes_found (hstop : stop.toNat ≤ data.length) {pos : UInt64}
    (h : FirstMagic data start stop pos) :
    elfBytes data pos.toNat (stop - pos).toNat
      = .ok (slice data pos.toNat (stop.toNat - pos.toNat)) := by
  have hle : pos ≤ stop := by
    rw [UInt64.le_iff_toNat_le]
    have := h.fits
    omega
  rw [UInt64.toNat_sub_of_le _ _ hle, elfBytes_ok]
  have := UInt64.le_iff_toNat_le.mp hle
  omega

/-- The search for the second stream stays inside the file. -/
theorem extractInitrd_total (env : KernelEnv) (hn : data.length < 2 ^ 63) (hstop : stop.toNat ≤ data.length)
    (hle : start ≤ stop) (kernel : List UInt8) (size : UInt64) :
    ∃ out, extractInitrd env data stop start kernel size = .ok out := by
  obtain ⟨pos, hskip, hpos⟩ := skipZeros_spec hn hstop start
  have hpos' := UInt64.le_iff_toNat_le.mp (hpos.bound hle)
  obtain ⟨found, hfind, hfound⟩ := findXzStream_spec hn hstop (show pos.toNat < 2 ^ 64 - 6 by omega)
  rw [extractInitrd, hskip, ok_bind, hfind, ok_bind]
  cases found with
  | none => exact ⟨_, rfl⟩
  | some pos2 =>
      simp only [elfBytes_found hstop hfound, ok_bind]
      split
      · exact ⟨_, rfl⟩
      · split
        · exact ⟨_, rfl⟩
        · exact ⟨_, rfl⟩

/-- A decompression that succeeds hands out what the decoder left. -/
theorem tryXzDecompress_ok {call : Nat} {input out : List UInt8} {consumed : Nat}
    (h : env.tryXzDecompress call input = .ok (out, consumed)) :
    out = (env.xzDecRun input).out ∧ consumed = (env.xzDecRun input).inPos
      ∧ ((env.xzDecRun input).ret = .streamEnd ∨ 0 < (env.xzDecRun input).out.length) := by
  unfold KernelEnv.tryXzDecompress at h
  split at h
  · cases h
  · split at h
    · cases h
    · simp only at h
      split at h
      · rename_i hend
        cases h
        exact ⟨rfl, rfl, .inl hend⟩
      · split at h
        · rename_i hout
          cases h
          exact ⟨rfl, rfl, .inr hout⟩
        · cases h

/-- Past the range to search only the image may be left. -/
theorem extract_imageOnly (hn : data.length < 2 ^ 63)
    (hdec : ∀ input, (env.xzDecRun input).inPos ≤ input.length)
    (hrange : searchRange data = .ok (start, stop)) (hstop : stop.toNat ≤ data.length)
    (hstart : start.toNat < 2 ^ 64 - 6) : ImageOnly (extractKernelAndInitrd env data) := by
  obtain ⟨found, hfind, hfound⟩ := findXzStream_spec hn hstop hstart
  rw [extractKernelAndInitrd, hrange, ok_bind]
  simp only [hfind, ok_bind]
  cases found with
  | none => exact .ok _
  | some pos =>
      simp only [elfBytes_found hstop hfound, ok_bind]
      have hfits := hfound.fits
      have hdec' := hdec (slice data pos.toNat (stop.toNat - pos.toNat))
      rw [length_slice (by omega)] at hdec'
      cases htry : env.tryXzDecompress 0 (slice data pos.toNat (stop.toNat - pos.toNat)) with
      | error status => exact .ok _
      | ok res =>
          obtain ⟨kernel, consumed⟩ := res
          have hconsumed := (tryXzDecompress_ok htry).2.1
          refine .ite (.ok _) ((ImageOnly.peFileSize kernel).bind fun parsed => ?_)
          have hnext : (pos + UInt64.ofNat consumed).toNat = pos.toNat + consumed :=
            toNat_add_of_lt rfl (toNat_ofNat_of_lt (by omega)) (by omega)
          have hle : pos + UInt64.ofNat consumed ≤ stop := by
            rw [UInt64.le_iff_toNat_le]
            omega
          obtain ⟨out, hout⟩ := extractInitrd_total env hn hstop hle kernel
            (parsed.getD (UInt64.ofNat kernel.length))
          rw [hout]
          exact .ok out

end Extract

/-! ## The whole extraction -/

/-- Every access of the extraction is inside the ELF, and a section that is
found lies inside it over the integers. -/
structure ElfSafe (env : KernelEnv) (data : List UInt8) : Prop where
  reads : ImageOnly (extractKernelAndInitrd env data)
  contents : ∀ off size, findElfSection data initrdName = .ok (.ok (off, size)) →
    off.toNat + size.toNat ≤ data.length

/-- The condition on the file: it holds the fields of the program headers, no
sum that passes its check wraps, no name that is compared runs off the end,
and no `PT_LOAD` segment ends at the end of the address space when there is no
section to search. -/
structure ElfInside (data : List UInt8) : Prop where
  lookup : LookupInside data
  contents : ∀ k, FoundAt data k → NoWrap (secOffset data k) (secSize data k)
  fields : 58 ≤ data.length
  segments : (∀ k, ¬ FoundAt data k) → SegmentsFrom data 0 (word16 data 56).toNat

section Whole

variable {env : KernelEnv} {data : List UInt8}

/-- A range to search that is not reached. -/
theorem extract_error {e : KernelFault} (h : searchRange data = .error e) :
    extractKernelAndInitrd env data = .error e := by
  rw [extractKernelAndInitrd, h, error_bind]

theorem not_imageOnly_of_elf {α : Type} {run : KernelRun α} (h : run = .error .elf) :
    ¬ ImageOnly run := fun himage => by cases himage _ h

theorem FoundAt.unique {j k : Nat} (hj : FoundAt data j) (hk : FoundAt data k) : j = k := by
  rcases Nat.lt_trichotomy j k with hlt | heq | hgt
  · exact absurd hj.named (hk.before j hlt).2
  · exact heq
  · exact absurd hk.named (hj.before k hgt).2

/-- With a section, everything depends on its bounds. -/
theorem elfSafe_found (hn : data.length < 2 ^ 63)
    (hdec : ∀ input, (env.xzDecRun input).inPos ≤ input.length) (hlook : LookupInside data)
    {k : Nat} (hk : FoundAt data k)
    (hrun : findElfSection data initrdName = .ok (.ok (secOffset data k, secSize data k))) :
    ElfSafe env data ↔ ElfInside data := by
  constructor
  · intro h
    have hin := h.contents _ _ hrun
    have hlen := hk.header.length
    refine ⟨hlook, fun j hj => ?_, by omega, fun hnone => absurd hk (hnone k)⟩
    rw [hj.unique hk, NoWrap]
    omega
  · intro h
    have hw := h.contents k hk
    have hin := (passes_iff hn hw).mp hk.contents
    have hstop : (secOffset data k + secSize data k).toNat
        = (secOffset data k).toNat + (secSize data k).toNat := toNat_add_of_lt rfl rfl hw
    have hrange : searchRange data
        = .ok (secOffset data k, secOffset data k + secSize data k) := by
      rw [searchRange, hrun, ok_bind]
    refine ⟨extract_imageOnly hn hdec hrange (by omega) (by omega), fun off size h' => ?_⟩
    rw [hrun] at h'
    cases h'
    exact hin

/-- Without a section, everything depends on the loaded segments. -/
theorem elfSafe_segments (hn : data.length < 2 ^ 63)
    (hdec : ∀ input, (env.xzDecRun input).inPos ≤ input.length) (hlook : LookupInside data)
    (hnone : ∀ k, ¬ FoundAt data k) {e : EfiStatus}
    (hrun : findElfSection data initrdName = .ok (.error e)) :
    ElfSafe env data ↔ ElfInside data := by
  have hrange : searchRange data = (do
      let start ← ptLoadEnd data
      .ok (start, UInt64.ofNat data.length)) := by
    rw [searchRange, hrun, ok_bind]
  have hcontents : ∀ off size, findElfSection data initrdName = .ok (.ok (off, size)) →
      off.toNat + size.toNat ≤ data.length := fun off size h => by
    rw [hrun] at h
    cases h
  have hlen := toNat_length hn
  rcases ptLoadEnd_cases hn with ⟨hin, start, hstart, hlt⟩ | 
    ⟨hout, hstart | ⟨hfields, start, hstart, hge⟩⟩
  · rw [hstart, ok_bind] at hrange
    refine ⟨fun _ => ⟨hlook, fun k h => absurd h (hnone k), hin.1, fun _ => hin.2⟩, fun _ => ?_⟩
    exact ⟨extract_imageOnly hn hdec hrange (Nat.le_of_eq hlen) hlt, hcontents⟩
  · rw [hstart, error_bind] at hrange
    exact ⟨fun h => absurd h.reads (not_imageOnly_of_elf (extract_error hrange)),
      fun h => absurd ⟨h.fields, h.segments hnone⟩ hout⟩
  · rw [hstart, ok_bind] at hrange
    have hwrap : start + 6 ≤ UInt64.ofNat data.length := by
      rw [UInt64.le_iff_toNat_le, hlen, UInt64.toNat_add]
      have hlast := start.toNat_lt
      have hsix : (6 : UInt64).toNat = 6 := rfl
      omega
    have hrun' : extractKernelAndInitrd env data = .error .elf := by
      rw [extractKernelAndInitrd, hrange, ok_bind]
      simp only [findXzStream_wrap hn hge hwrap, error_bind]
    exact ⟨fun h => absurd h.reads (not_imageOnly_of_elf hrun'),
      fun h => absurd ⟨h.fields, h.segments hnone⟩ hout⟩

end Whole

/-- A decoder that rejects its input. -/
def rejectingEnv : KernelEnv := ⟨fun _ => ⟨.other, 0, []⟩, fun _ => true, fun _ => true⟩

/-- An ELF header alone, whose section table lies 64 bytes before the end of
the address space. -/
def wrappingElf : List UInt8 :=
  [0x7F, 0x45, 0x4C, 0x46, 2, 1, 1, 0, 0, 0, 0, 0, 0, 0, 0, 0, 2, 0, 183, 0, 1, 0, 0, 0]
    ++ leBytes 8 0 ++ leBytes 8 0 ++ leBytes 8 0xFFFFFFFFFFFFFFC0
    ++ [0, 0, 0, 0, 64, 0, 0, 0, 0, 0, 64, 0, 1, 0, 0, 0]

end Ccr2004
