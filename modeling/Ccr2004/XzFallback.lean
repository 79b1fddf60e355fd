import Ccr2004.StubSize
import Ccr2004.XzStream

/-!
# Streams with a broken container

`TryXzDecompress` makes its decoder in single-call mode and has a branch for a
stream whose blocks decode but whose index or footer does not: keep what is
out. The decoder has it out, and takes it back before it returns
(`xzDecRun_fails`), so the branch is dead; in the other mode the output would
stay (`xzDecRun_prealloc`).
-/

namespace Ccr2004

/-! ## The decoder behind the extraction -/

section Decoder

variable {σ : Type} (lzma2 : Lzma2 σ)

/-- The buffers of `TryXzDecompress`. -/
def XzBuf.start (input : List UInt8) : XzBuf := ⟨input, 0, [], xzOutputMaxSize⟩

/-- The single call of `TryXzDecompress`. -/
def Lzma2.singleCall (input : List UInt8) : XzResult :=
  match xzDecRun lzma2 (xzDecInit lzma2 .single) (.start input) with
  | .ok (ret, _, b) => ⟨if ret = .streamEnd then .streamEnd else .other, b.inPos, b.out⟩
  | .error _ => ⟨.other, 0, []⟩

/-- The extraction with this decoder. -/
def Lzma2.kernelEnv (allocOutput xzDecInit : Nat → Bool) : KernelEnv :=
  ⟨lzma2.singleCall, allocOutput, xzDecInit⟩

theorem XzBuf.start_valid (input : List UInt8) : (XzBuf.start input).Valid :=
  ⟨Nat.zero_le _, Nat.zero_le _⟩

/-- The call ends: with the stream, or with both positions at the start. -/
theorem Lzma2.singleCall_cases (input : List UInt8) :
    (∃ b, (XzBuf.start input).Advances b ∧ lzma2.singleCall input = ⟨.streamEnd, b.inPos, b.out⟩)
      ∨ lzma2.singleCall input = ⟨.other, 0, []⟩ := by
  obtain ⟨ret, s, b, hrun, hadv⟩ := decMain_total lzma2 (XzBuf.start_valid input)
    (headerAhead_reset (xzDecInit lzma2 .single))
  by_cases hend : ret = .streamEnd
  · subst hend
    exact .inl ⟨b, hadv, by rw [singleCall, xzDecRun_ends lzma2 rfl hrun]; rfl⟩
  · obtain ⟨ret', hret', hcall⟩ := xzDecRun_fails lzma2 rfl hrun hadv hend
    refine .inr ?_
    rw [singleCall, hcall]
    simp only [if_neg hret']
    rfl

/-- What is consumed was there, and what is out fits the output buffer. -/
theorem Lzma2.singleCall_bounds (input : List UInt8) :
    (lzma2.singleCall input).inPos ≤ input.length
      ∧ (lzma2.singleCall input).out.length ≤ xzOutputMaxSize := by
  rcases lzma2.singleCall_cases input with ⟨b, hadv, hrun⟩ | hrun
  · have hv := hadv.valid (XzBuf.start_valid input)
    have hinside := hv.inside
    have hfits := hv.fits
    rw [hadv.input] at hinside
    rw [hadv.outSize] at hfits
    rw [hrun]
    exact ⟨hinside, hfits⟩
  · rw [hrun]
    exact ⟨Nat.zero_le _, Nat.zero_le _⟩

end Decoder

/-! ## The image of a run -/

/-- An image handed out fits the output buffer. -/
theorem extract_stub_fits {σ : Type} (lzma2 : Lzma2 σ) {allocOutput xzDecInit : Nat → Bool}
    {data img : List UInt8} {out : KernelExtract}
    (h : extractKernelAndInitrd (lzma2.kernelEnv allocOutput xzDecInit) data = .ok out)
    (hstub : out.stubBuffer = some img) : img.length ≤ xzOutputMaxSize := by
  obtain ⟨⟨input, consumed, htry⟩, -⟩ := extract_stub h hstub
  rw [(tryXzDecompress_ok htry).1]
  exact (lzma2.singleCall_bounds input).2

/-! ## The rescue branch -/

/-- The blocks are decoded: what follows is the index and the footer. -/
def XzSequence.pastBlocks : XzSequence → Bool
  | .blockStart | .index | .indexPadding | .indexCrc32 | .streamFooter => true
  | _ => false

/-- The blocks of the stream decode to `bytes`, and decoding fails after
them: at the index or the footer, or because neither is there. -/
structure ContainerFails {σ : Type} (lzma2 : Lzma2 σ) (input bytes : List UInt8) : Prop where
  some : bytes ≠ []
  fails : ∃ ret s b, decMain lzma2 (xzDecInit lzma2 .single) (.start input) = .ok (ret, s, b)
    ∧ ret ≠ .streamEnd ∧ s.sequence.pastBlocks = true ∧ b.out = bytes

/-- The call succeeds with exactly these bytes. -/
def Rescued (env : KernelEnv) (call : Nat) (input bytes : List UInt8) : Prop :=
  ∃ consumed, env.tryXzDecompress call input = .ok (bytes, consumed)

section Rescue

variable {σ : Type} {lzma2 : Lzma2 σ} {input bytes : List UInt8}

/-- A failure of the machine is a failure of the call, and nothing is out. -/
theorem ContainerFails.singleCall (h : ContainerFails lzma2 input bytes) :
    lzma2.singleCall input = ⟨.other, 0, []⟩ := by
  obtain ⟨ret, s, b, hrun, hret, -, -⟩ := h.fails
  obtain ⟨ret', s', b', htotal, hadv⟩ := decMain_total lzma2 (XzBuf.start_valid input)
    (headerAhead_reset (xzDecInit lzma2 .single))
  cases Except.ok.inj (htotal.symm.trans hrun)
  obtain ⟨ret', hret', hcall⟩ := xzDecRun_fails lzma2 rfl htotal hadv hret
  rw [Lzma2.singleCall, hcall]
  simp only [if_neg hret']
  rfl

/-- The branch that would keep the bytes sees none. -/
theorem ContainerFails.not_rescued (h : ContainerFails lzma2 input bytes)
    (allocOutput xzDecInit : Nat → Bool) (call : Nat) :
    ¬ Rescued (lzma2.kernelEnv allocOutput xzDecInit) call input bytes := by
  rintro ⟨consumed, htry⟩
  have hout : bytes = (lzma2.singleCall input).out := (tryXzDecompress_ok htry).1
  rw [h.singleCall] at hout
  exact h.some hout

end Rescue

/-- A stream whose container is broken is never rescued: not for any input,
any decoder of its blocks and any outcome of the allocations. -/
theorem tryXzDecompress_not_rescued {σ : Type} {lzma2 : Lzma2 σ} {input bytes : List UInt8}
    (h : ContainerFails lzma2 input bytes) (allocOutput xzDecInit : Nat → Bool) (call : Nat) :
    ¬ Rescued (lzma2.kernelEnv allocOutput xzDecInit) call input bytes :=
  h.not_rescued allocOutput xzDecInit call

/-! ## A stream without its footer -/

/-- Chunks of stored data, up to the end marker. -/
def storedChunks : Nat → XzBuf → XzCode × XzBuf
  | 0, b => (.ok, b)
  | n + 1, b =>
      let control := b.input.getD b.inPos 0
      let size := 256 * (b.input.getD (b.inPos + 1) 0).toNat
        + (b.input.getD (b.inPos + 2) 0).toNat + 1
      if b.inPos = b.input.length then (.ok, b)
      else if control = 0 then (.streamEnd, { b with inPos := b.inPos + 1 })
      else if control > 2 ∨ b.input.length < b.inPos + 3 + size
          ∨ b.outSize < b.out.length + size then (.dataError, b)
      else storedChunks n { b with
        inPos := b.inPos + 3 + size
        out := b.out ++ slice b.input (b.inPos + 3) size }

theorem storedChunks_advances (n : Nat) :
    ∀ b : XzBuf, b.Advances (storedChunks n b).2 := by
  induction n with
  | zero => exact fun b => .refl b
  | succ n ih =>
      intro b
      rw [storedChunks]
      split
      · exact .refl b
      · rename_i hend
        split
        · exact XzBuf.advances_byte hend
        · split
          · exact .refl b
          · rename_i hroom
            simp only [not_or, Nat.not_lt] at hroom
            obtain ⟨-, hin, hout⟩ := hroom
            refine XzBuf.Advances.trans ?_ (ih _)
            refine ⟨rfl, rfl, ?_, List.prefix_append _ _, fun hv => ⟨hin, ?_⟩⟩
            · exact Nat.le_trans (Nat.le_add_right _ 3) (Nat.le_add_right _ _)
            · rwa [List.length_append, length_slice hin]

/-- The LZMA2 decoder, for data that is stored. -/
def storedLzma2 : Lzma2 Unit where
  init := ()
  reset _ _ := (.ok, ())
  run _ b := ((storedChunks b.input.length b).1, (), (storedChunks b.input.length b).2)
  advances _ b := storedChunks_advances b.input.length b

example : (storedLzma2.singleCall mzStream).out = [0x4D, 0x5A] := by decide +kernel

/-- The stream of an image that is its magic alone, with a broken footer. -/
def brokenStream : List UInt8 := mzStream.take 54 ++ [0, 0]

theorem brokenStream_fails : ContainerFails storedLzma2 brokenStream [0x4D, 0x5A] where
  some := by decide
  fails := by
    have hcheck : (match decMain storedLzma2 (xzDecInit storedLzma2 .single) (.start brokenStream) with
        | .ok (ret, s, b) =>
            decide (ret ≠ .streamEnd ∧ s.sequence.pastBlocks = true ∧ b.out = [0x4D, 0x5A])
        | .error _ => false) = true := by decide +kernel
    cases hrun : decMain storedLzma2 (xzDecInit storedLzma2 .single) (.start brokenStream) with
    | error e =>
        rw [hrun] at hcheck
        cases hcheck
    | ok r =>
        obtain ⟨ret, s, b⟩ := r
        rw [hrun] at hcheck
        exact ⟨ret, s, b, rfl, of_decide_eq_true hcheck⟩

/-- The two bytes of its block are out, and the call reports bad data. -/
theorem brokenStream_compromised : ContainerFails storedLzma2 brokenStream [0x4D, 0x5A]
    ∧ (storedLzma2.kernelEnv (fun _ => true) fun _ => true).tryXzDecompress 0 brokenStream
      = .error .compromisedData := by
  have hcall := brokenStream_fails.singleCall
  refine ⟨brokenStream_fails, ?_⟩
  simp [KernelEnv.tryXzDecompress, Lzma2.kernelEnv, hcall]

theorem tryXzDecompress_not_rescued_broken : ¬ Rescued
    (storedLzma2.kernelEnv (fun _ => true) fun _ => true) 0 brokenStream [0x4D, 0x5A] :=
  tryXzDecompress_not_rescued brokenStream_fails _ _ _

end Ccr2004
