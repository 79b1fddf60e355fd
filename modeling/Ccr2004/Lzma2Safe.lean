import Ccr2004.Lzma2Dec
import Ccr2004.LzmaSafe

/-!
# The input of the LZMA decoder

`lzma2_lzma` gives `lzma_main` an input that reaches `LZMA_IN_REQUIRED` bytes
past its limit, whichever buffer it is in, so no symbol reads past the end of
it. `lzma2Lzma_total` puts its three parts together: no fault, and if there was
space it wrote something, or read on, or waits for more of the chunk.
-/

namespace Ccr2004

/-! ## `lzma_main` over a buffer -/

/-- The LZMA decoder is set up, over the history `past`. -/
structure XzDecLzma2.Coding (s : XzDecLzma2) (past : List UInt8) : Prop where
  lzma : s.lzma.Ok past
  probs : s.coder.probs.Good
  low : 31 * 2 ^ 13 ≤ s.coder.rc.range.toNat

/-- What decoding LZMA leaves of the chunk. -/
structure XzDecLzma2.Keeps (s s' : XzDecLzma2) : Prop where
  sequence : s'.sequence = s.sequence
  nextSequence : s'.nextSequence = s.nextSequence
  uncompressed : s'.uncompressed = s.uncompressed
  needDictReset : s'.needDictReset = s.needDictReset
  needProps : s'.needProps = s.needProps
  tempBuf : s'.temp.buf.length = s.temp.buf.length

namespace XzDecLzma2

theorem Keeps.refl (s : XzDecLzma2) : s.Keeps s := ⟨rfl, rfl, rfl, rfl, rfl, rfl⟩

theorem Keeps.trans {s s' s'' : XzDecLzma2} (h : s.Keeps s') (h' : s'.Keeps s'') : s.Keeps s'' :=
  ⟨h'.sequence.trans h.sequence, h'.nextSequence.trans h.nextSequence,
    h'.uncompressed.trans h.uncompressed, h'.needDictReset.trans h.needDictReset,
    h'.needProps.trans h.needProps, h'.tempBuf.trans h.tempBuf⟩

/-- A call of `lzma_main` over an input that reaches far enough past its limit. -/
theorem main_total {s : XzDecLzma2} {past input : List UInt8} {inPos inLimit : Nat}
    (h : s.Coding past) (hlimit : s.lzma.dict.pos ≤ s.lzma.dict.limit) (hin : inPos ≤ inLimit)
    (hrequired : inLimit + lzmaInRequired ≤ input.length) :
    ∃ valid s', s.main input inPos inLimit = .ok (valid, s') ∧ s.Keeps s'
      ∧ s'.compressed = s.compressed ∧ s'.temp = s.temp
      ∧ inPos ≤ s'.coder.rc.inPos ∧ s'.coder.rc.inPos ≤ input.length
      ∧ ∃ bytes, s.lzma.Wrote s'.lzma bytes ∧ (valid = true →
        s'.Coding (bytes.reverse ++ past) ∧ s.lzma.dec.SameProps s'.lzma.dec
          ∧ (s.lzma.dict.pos < s.lzma.dict.limit → bytes ≠ [])) := by
  have hsupplied : LzmaCoder.Supplied { s.coder with
      rc := { s.coder.rc with input := input, inPos := inPos, inLimit := inLimit } } :=
    ⟨h.probs, h.low, hin, hrequired⟩
  obtain ⟨valid, lzma, coder, hrun, hreads, hinside, hprobs, hlow, bytes, hwrote, hvalid⟩ :=
    lzmaMain_total h.lzma hlimit hsupplied
  rw [hreads.input] at hinside
  refine ⟨valid, { s with lzma := lzma, coder := coder }, by rw [XzDecLzma2.main, hrun, ok_bind],
    ⟨rfl, rfl, rfl, rfl, rfl, rfl⟩, rfl, rfl, hreads.inPos, hinside, bytes, hwrote,
    fun hv => ?_⟩
  obtain ⟨hdone, -, hne⟩ := hvalid hv
  exact ⟨⟨hdone.ok, hprobs, hlow⟩, hdone.props, hne⟩

end XzDecLzma2

/-! ## `lzma2_lzma` -/

/-- What `lzma2_lzma` is called with: `temp` holds the beginning of what is
left of the chunk, and less than a symbol may need. -/
structure Lzma2Ready (s : XzDecLzma2) (b : XzBuf) (past : List UInt8) : Prop where
  coding : s.Coding past
  limit : s.lzma.dict.pos ≤ s.lzma.dict.limit
  buf : s.temp.buf.length = 3 * lzmaInRequired
  size : s.temp.size ≤ s.compressed
  short : s.temp.size < lzmaInRequired
  inside : b.inPos ≤ b.input.length

/-- From `s` and `b`, `bytes` have been decoded, and the input has been read on. -/
structure Lzma2Step (s : XzDecLzma2) (b : XzBuf) (s' : XzDecLzma2) (b' : XzBuf)
    (bytes : List UInt8) : Prop where
  keeps : s.Keeps s'
  moved : ∃ n, b' = b.moved n [] ∧ b.inPos + n ≤ b.input.length
  wrote : s.lzma.Wrote s'.lzma bytes

/-- How `lzma2_lzma` ends: when it could write, it wrote or it read on, or it
has all the input and waits for more of the chunk. -/
def Lzma2End (s : XzDecLzma2) (b : XzBuf) (past : List UInt8)
    (r : Bool × XzDecLzma2 × XzBuf) : Prop :=
  ∃ bytes, Lzma2Step s b r.2.1 r.2.2 bytes ∧ (r.1 = true →
    Lzma2Ready r.2.1 r.2.2 (bytes.reverse ++ past) ∧ s.lzma.dec.SameProps r.2.1.lzma.dec
      ∧ (s.lzma.dict.pos < s.lzma.dict.limit → bytes ≠ [] ∨ b.inPos < r.2.2.inPos
        ∨ r.2.2.inPos = r.2.2.input.length ∧ r.2.1.temp.size < r.2.1.compressed))

/-- What holds between the parts: nothing is in `temp`, and if nothing was
written there was no space, or nothing was done because the chunk goes on. -/
structure Lzma2Between (s : XzDecLzma2) (b : XzBuf) (past : List UInt8) (s' : XzDecLzma2)
    (b' : XzBuf) (bytes : List UInt8) : Prop where
  step : Lzma2Step s b s' b' bytes
  ready : Lzma2Ready s' b' (bytes.reverse ++ past)
  empty : s'.temp.size = 0
  props : s.lzma.dec.SameProps s'.lzma.dec

theorem copy_ok {t : Lzma2Temp} {p : Nat} {x : List UInt8} (h : p + x.length ≤ t.buf.length) :
    ∃ buf, t.copy p x = .ok { t with buf := buf } ∧ buf.length = t.buf.length
      ∧ buf = t.buf.take p ++ x ++ t.buf.drop (p + x.length) := by
  refine ⟨_, if_pos h, ?_, rfl⟩
  simp only [List.length_append, List.length_take, List.length_drop]
  omega

theorem peek_ok {b : XzBuf} {n : Nat} (h : b.inPos + n ≤ b.input.length) :
    b.peek n = .ok ((b.input.drop b.inPos).take n)
      ∧ ((b.input.drop b.inPos).take n).length = n := by
  refine ⟨if_pos h, ?_⟩
  rw [List.length_take, List.length_drop]
  omega

theorem lzma2Take_eq (s : XzDecLzma2) (b : XzBuf) :
    lzma2Take s b = min (min (2 * lzmaInRequired - s.temp.size) (s.compressed - s.temp.size))
      (b.input.length - b.inPos) := by
  simp only [lzma2Take]
  split <;> split <;> omega

theorem lzma2FillTemp_ok {s : XzDecLzma2} {b : XzBuf} {past : List UInt8}
    (h : Lzma2Ready s b past) :
    ∃ buf, lzma2FillTemp s b (lzma2Take s b) = .ok { s.temp with buf := buf }
      ∧ buf.length = 3 * lzmaInRequired := by
  have htake := lzma2Take_eq s b
  have hbuf := h.buf
  have hshort := h.short
  have hinside := h.inside
  simp only [lzmaInRequired] at *
  obtain ⟨hpeek, hlen⟩ := peek_ok (b := b) (n := lzma2Take s b) (by omega)
  obtain ⟨buf, hcopy, hbuf', -⟩ := copy_ok (t := s.temp) (p := s.temp.size)
    (x := (b.input.drop b.inPos).take (lzma2Take s b)) (by rw [hlen]; omega)
  simp only [lzma2FillTemp, hpeek, ok_bind, hcopy]
  split
  · obtain ⟨buf', hcopy', hbuf'', -⟩ := copy_ok (t := { s.temp with buf := buf })
      (p := s.temp.size + lzma2Take s b)
      (x := List.replicate (3 * 21 - s.temp.size - lzma2Take s b) 0)
      (by rw [List.length_replicate]; simp only; omega)
    exact ⟨buf', hcopy', by rw [hbuf'']; simp only; omega⟩
  · exact ⟨buf, rfl, by omega⟩

/-- Decoding from `temp` ends the call, or leaves it empty. -/
theorem lzma2LeaveTemp_ok {s s' : XzDecLzma2} {b : XzBuf} {past bytes : List UInt8} {tmp : Nat}
    (h : Lzma2Ready s b past) (htmp : b.inPos + tmp ≤ b.input.length)
    (hsum : s.temp.size + tmp ≤ s.compressed)
    (hkeeps : s.Keeps s') (hcompressed : s'.compressed = s.compressed)
    (hsize : s'.temp.size = s.temp.size) (hread : s'.coder.rc.inPos ≤ s.temp.size + tmp)
    (hwrote : s.lzma.Wrote s'.lzma bytes) (hcoding : s'.Coding (bytes.reverse ++ past))
    (hprops : s.lzma.dec.SameProps s'.lzma.dec)
    (hne : s.lzma.dict.pos < s.lzma.dict.limit → bytes ≠ []) :
    ∃ r, lzma2LeaveTemp s' b = .ok r ∧ r.Post
      (fun x => Lzma2Between s b past x.1 x.2 bytes) (Lzma2End s b past) := by
  have hbuf := h.buf
  have htempBuf := hkeeps.tempBuf
  have hshort := h.short
  have hle := h.size
  have hlimit : s'.lzma.dict.pos ≤ s'.lzma.dict.limit := by
    rw [hwrote.dict]
    exact hwrote.limit
  rw [lzma2LeaveTemp]
  simp only
  by_cases hless : s'.coder.rc.inPos < s'.temp.size
  · have hlen : ((s'.temp.buf.drop s'.coder.rc.inPos).take
        (s'.temp.size - s'.coder.rc.inPos)).length = s'.temp.size - s'.coder.rc.inPos := by
      rw [List.length_take, List.length_drop]
      simp only [lzmaInRequired] at *
      omega
    obtain ⟨buf, hcopy, hbuf', -⟩ := copy_ok (t := s'.temp) (p := 0)
      (x := (s'.temp.buf.drop s'.coder.rc.inPos).take (s'.temp.size - s'.coder.rc.inPos))
      (by rw [hlen]; simp only [lzmaInRequired] at *; omega)
    rw [if_pos hless, hcopy, ok_bind]
    refine ⟨_, rfl, bytes, ⟨⟨hkeeps.sequence, hkeeps.nextSequence, hkeeps.uncompressed,
      hkeeps.needDictReset, hkeeps.needProps, hbuf'.trans htempBuf⟩, ⟨0, ?_, ?_⟩, hwrote⟩,
      fun _ => ⟨⟨⟨hcoding.lzma, hcoding.probs, hcoding.low⟩, hlimit,
        (hbuf'.trans htempBuf).trans hbuf, ?_, ?_, h.inside⟩, hprops, fun hspace =>
        Or.inl (hne hspace)⟩⟩
    · rw [XzBuf.moved_zero]
    · exact h.inside
    · simp only
      omega
    · simp only
      omega
  · rw [if_neg hless]
    refine ⟨_, rfl, ⟨⟨⟨hkeeps.sequence, hkeeps.nextSequence, hkeeps.uncompressed,
      hkeeps.needDictReset, hkeeps.needProps, htempBuf⟩,
      ⟨s'.coder.rc.inPos - s'.temp.size, ?_, ?_⟩, hwrote⟩,
      ⟨⟨hcoding.lzma, hcoding.probs, hcoding.low⟩, hlimit, htempBuf.trans hbuf, Nat.zero_le _,
        Nat.lt_of_le_of_lt (Nat.zero_le _) hshort, ?_⟩, rfl, hprops⟩⟩
    · simp only [XzBuf.moved, List.append_nil]
    · omega
    · simp only
      omega

/-- Decoding from `temp`, which is done when it holds something, or when all
of the chunk has been read. -/
theorem lzma2FromTemp_ok {s : XzDecLzma2} {b : XzBuf} {past : List UInt8}
    (h : Lzma2Ready s b past) :
    ∃ r, lzma2FromTemp s b = .ok r ∧ r.Post
      (fun x => ∃ bytes, Lzma2Between s b past x.1 x.2 bytes
        ∧ (s.lzma.dict.pos < s.lzma.dict.limit → bytes = [] → x = (s, b) ∧ 0 < s.compressed))
      (Lzma2End s b past) := by
  have hsize := h.size
  have hshort := h.short
  have hinside := h.inside
  by_cases hdo : s.temp.size > 0 ∨ s.compressed = 0
  · have htake := lzma2Take_eq s b
    obtain ⟨buf, hfill, hbuf⟩ := lzma2FillTemp_ok h
    simp only [lzma2FromTemp]
    rw [if_pos hdo, hfill]
    simp only [ok_bind]
    by_cases hfew : s.temp.size + lzma2Take s b ≠ s.compressed
        ∧ s.temp.size + lzma2Take s b < lzmaInRequired
    · rw [if_pos hfew]
      refine ⟨_, rfl, [], ⟨⟨rfl, rfl, rfl, rfl, rfl, hbuf.trans h.buf.symm⟩,
        ⟨lzma2Take s b, ?_, by omega⟩, ?_⟩, fun _ => ⟨⟨⟨h.coding.lzma, h.coding.probs,
        h.coding.low⟩, h.limit, hbuf, ?_, ?_, ?_⟩,
        ⟨rfl, rfl, rfl⟩, fun _ => Or.inr (Or.inr ?_)⟩⟩
      · simp only [XzBuf.moved, List.append_nil]
      · exact .refl s.lzma h.coding.lzma.dict.full_eq h.coding.lzma.dict.window.pos_le h.limit
      · simp only
        omega
      · exact hfew.2
      · simp only
        omega
      · simp only [lzmaInRequired] at *
        omega
    · rw [if_neg hfew]
      have hrequired : (if s.temp.size + lzma2Take s b = s.compressed
          then s.temp.size + lzma2Take s b
          else s.temp.size + lzma2Take s b - lzmaInRequired) + lzmaInRequired ≤ buf.length := by
        simp only [lzmaInRequired] at *
        split <;> omega
      obtain ⟨valid, s', hmain, hkeeps, hcompressed, htemp, -, hend, bytes, hwrote, hvalid⟩ :=
        XzDecLzma2.main_total (s := { s with temp := { s.temp with buf := buf } })
          (show XzDecLzma2.Coding _ past from ⟨h.coding.lzma, h.coding.probs, h.coding.low⟩) h.limit
          (Nat.zero_le _) hrequired
      have hkeeps' : s.Keeps s' := ⟨hkeeps.sequence, hkeeps.nextSequence, hkeeps.uncompressed,
        hkeeps.needDictReset, hkeeps.needProps, hkeeps.tempBuf.trans (hbuf.trans h.buf.symm)⟩
      rw [hmain, ok_bind]
      simp only
      split
      · rename_i hfail
        exact ⟨_, rfl, bytes, ⟨hkeeps', ⟨0, by rw [XzBuf.moved_zero], h.inside⟩, hwrote⟩,
          fun hfalse => Bool.noConfusion hfalse⟩
      · rename_i hgood
        simp only [Bool.or_eq_true, Bool.not_eq_true', decide_eq_true_eq, not_or,
          Bool.not_eq_false, Nat.not_lt] at hgood
        obtain ⟨hcoding, hprops, hne⟩ := hvalid hgood.1
        have hts : s'.temp.size = s.temp.size := by rw [htemp]
        rw [hts] at hgood
        obtain ⟨r, hr, hpost⟩ := lzma2LeaveTemp_ok h (by omega) (by omega) hkeeps' hcompressed hts
          hgood.2 hwrote hcoding hprops hne
        exact ⟨r, hr, hpost.imp (fun x hx => ⟨bytes, hx, fun hspace hnil =>
          absurd hnil (hne hspace)⟩) fun _ hx => hx⟩
  · rw [lzma2FromTemp, if_neg hdo]
    refine ⟨_, rfl, [], ⟨⟨.refl s, ⟨0, by rw [XzBuf.moved_zero], h.inside⟩,
      .refl s.lzma h.coding.lzma.dict.full_eq h.coding.lzma.dict.window.pos_le h.limit⟩, h,
      by simp only; omega, ⟨rfl, rfl, rfl⟩⟩, fun _ _ => ⟨rfl, by omega⟩⟩

/-- Decoding from the caller's buffer. -/
theorem lzma2FromInput_ok {s : XzDecLzma2} {b : XzBuf} {past : List UInt8}
    (h : Lzma2Ready s b past) (hempty : s.temp.size = 0) :
    ∃ r, lzma2FromInput s b = .ok r ∧ r.Post
      (fun x => ∃ bytes, Lzma2Between s b past x.1 x.2 bytes
        ∧ (s.lzma.dict.pos < s.lzma.dict.limit → bytes = [] → x = (s, b)
          ∧ b.input.length - b.inPos < lzmaInRequired))
      (Lzma2End s b past) := by
  have hinside := h.inside
  have hrefl := Lzma.Wrote.refl s.lzma h.coding.lzma.dict.full_eq
    h.coding.lzma.dict.window.pos_le h.limit
  by_cases hmany : b.input.length - b.inPos ≥ lzmaInRequired
  · obtain ⟨inLimit, hinLimit⟩ : ∃ inLimit, inLimit =
      if b.input.length - b.inPos ≥ s.compressed + lzmaInRequired then b.inPos + s.compressed
      else b.input.length - lzmaInRequired := ⟨_, rfl⟩
    have hin : b.inPos ≤ inLimit ∧ inLimit + lzmaInRequired ≤ b.input.length := by
      split at hinLimit <;> omega
    obtain ⟨valid, s', hmain, hkeeps, hcompressed, htemp, hlow, hend, bytes, hwrote, hvalid⟩ :=
      XzDecLzma2.main_total h.coding h.limit hin.1 hin.2
    have hstep : ∀ b', (∃ n, b' = b.moved n [] ∧ b.inPos + n ≤ b.input.length) →
        Lzma2Step s b s' b' bytes := fun b' hb' => ⟨hkeeps, hb', hwrote⟩
    simp only [lzma2FromInput]
    rw [if_pos hmany, ← hinLimit, hmain, ok_bind]
    simp only
    cases valid with
    | false =>
        exact ⟨_, rfl, bytes, hstep b ⟨0, by rw [XzBuf.moved_zero], hinside⟩,
          fun hfalse => Bool.noConfusion hfalse⟩
    | true =>
        rw [Bool.not_true, if_neg (by decide)]
        obtain ⟨hcoding, hprops, hne⟩ := hvalid rfl
        split
        · exact ⟨_, rfl, bytes, hstep b ⟨0, by rw [XzBuf.moved_zero], hinside⟩,
            fun hfalse => Bool.noConfusion hfalse⟩
        · rename_i hused
          refine ⟨_, rfl, bytes, ⟨⟨⟨hkeeps.sequence, hkeeps.nextSequence, hkeeps.uncompressed,
            hkeeps.needDictReset, hkeeps.needProps, hkeeps.tempBuf⟩,
            ⟨s'.coder.rc.inPos - b.inPos, ?_, by omega⟩, hwrote⟩, ⟨⟨hcoding.lzma, hcoding.probs,
            hcoding.low⟩, ?_, hkeeps.tempBuf.trans h.buf, ?_, ?_, hend⟩, ?_, hprops⟩,
            fun hspace hnil => absurd hnil (hne hspace)⟩
          · simp only [XzBuf.moved, List.append_nil, XzBuf.mk.injEq, true_and, and_true]
            omega
          · rw [hwrote.dict]
            exact hwrote.limit
          · simp only [htemp]
            omega
          · simp only [htemp]
            exact h.short
          · simp only [htemp]
            exact hempty
  · simp only [lzma2FromInput]
    rw [if_neg hmany]
    exact ⟨_, rfl, [], ⟨⟨.refl s, ⟨0, by rw [XzBuf.moved_zero], hinside⟩, hrefl⟩, h, hempty,
      ⟨rfl, rfl, rfl⟩⟩, fun _ _ => ⟨rfl, by omega⟩⟩

/-- What is kept of the input when it runs short. -/
theorem lzma2ToTemp_ok {s : XzDecLzma2} {b : XzBuf} {past : List UInt8}
    (h : Lzma2Ready s b past) :
    ∃ s' b', lzma2ToTemp s b = .ok (true, s', b') ∧ Lzma2Step s b s' b' []
      ∧ Lzma2Ready s' b' past ∧ s.lzma.dec.SameProps s'.lzma.dec
      ∧ (b.input.length - b.inPos < lzmaInRequired → 0 < s.compressed →
        b.inPos < b'.inPos ∨ b'.inPos = b'.input.length ∧ s'.temp.size < s'.compressed) := by
  have hinside := h.inside
  have hbuf := h.buf
  have hrefl := Lzma.Wrote.refl s.lzma h.coding.lzma.dict.full_eq
    h.coding.lzma.dict.window.pos_le h.limit
  by_cases hfew : b.input.length - b.inPos < lzmaInRequired
  · obtain ⟨n, hn⟩ : ∃ n, n = if b.input.length - b.inPos > s.compressed then s.compressed
      else b.input.length - b.inPos := ⟨_, rfl⟩
    have hle : n ≤ s.compressed ∧ n ≤ b.input.length - b.inPos := by
      split at hn <;> omega
    obtain ⟨hpeek, hlen⟩ := peek_ok (b := b) (n := n) (by omega)
    obtain ⟨buf, hcopy, hbuf', -⟩ := copy_ok (t := s.temp) (p := 0)
      (x := (b.input.drop b.inPos).take n) (by rw [hlen]; simp only [lzmaInRequired] at *; omega)
    have hrun : lzma2ToTemp s b = .ok (true, { s with temp := ⟨n, buf⟩ }, b.moved n []) := by
      simp only [lzma2ToTemp, XzBuf.moved, List.append_nil]
      rw [if_pos hfew, ← hn, hpeek, ok_bind, hcopy, ok_bind]
    refine ⟨_, _, hrun, ⟨⟨rfl, rfl, rfl, rfl, rfl, hbuf'⟩, ⟨n, rfl, by omega⟩, hrefl.dict,
      hrefl.limit⟩, ⟨⟨h.coding.lzma, h.coding.probs, h.coding.low⟩, h.limit, hbuf'.trans hbuf,
      hle.1, ?_, ?_⟩, ⟨rfl, rfl, rfl⟩, fun _ hmore => ?_⟩
    · simp only
      omega
    · simp only [XzBuf.moved]
      omega
    · simp only [XzBuf.moved]
      split at hn <;> omega
  · have hrun : lzma2ToTemp s b = .ok (true, s, b) := by
      simp only [lzma2ToTemp]
      rw [if_neg hfew]
    exact ⟨s, b, hrun, ⟨.refl s, ⟨0, by rw [XzBuf.moved_zero], hinside⟩, hrefl⟩, h, ⟨rfl, rfl, rfl⟩,
      fun hfew' => absurd hfew' hfew⟩

theorem Lzma2Step.trans {s s' s'' : XzDecLzma2} {b b' b'' : XzBuf} {past bytes bytes' : List UInt8}
    (h : Lzma2Ready s b past) (hs : Lzma2Step s b s' b' bytes)
    (hs' : Lzma2Step s' b' s'' b'' bytes') : Lzma2Step s b s'' b'' (bytes ++ bytes') where
  keeps := hs.keeps.trans hs'.keeps
  moved := by
    obtain ⟨n, rfl, hn⟩ := hs.moved
    obtain ⟨m, rfl, hm⟩ := hs'.moved
    refine ⟨n + m, XzBuf.moved_moved .., ?_⟩
    simp only [XzBuf.moved] at hm
    omega
  wrote := hs.wrote.trans h.coding.lzma.dict.window.pos_le hs'.wrote

/-- `lzma2_lzma` ends without a fault. -/
theorem lzma2Lzma_total {s : XzDecLzma2} {b : XzBuf} {past : List UInt8}
    (h : Lzma2Ready s b past) : ∃ r, lzma2Lzma s b = .ok r ∧ Lzma2End s b past r := by
  obtain ⟨r1, hr1, hpost1⟩ := lzma2FromTemp_ok h
  rw [lzma2Lzma, hr1, ok_bind]
  cases r1 with
  | exit r => exact ⟨r, rfl, hpost1⟩
  | next x1 =>
      obtain ⟨s1, b1⟩ := x1
      obtain ⟨bytes1, hbetween1, hfresh1⟩ := hpost1
      obtain ⟨r2, hr2, hpost2⟩ := lzma2FromInput_ok hbetween1.ready hbetween1.empty
      simp only [hr2, ok_bind]
      cases r2 with
      | exit r =>
          obtain ⟨bytes2, hstep2, hvalid2⟩ := hpost2
          refine ⟨r, rfl, bytes1 ++ bytes2, hbetween1.step.trans h hstep2, fun hv => ?_⟩
          obtain ⟨hready, hprops, hprogress⟩ := hvalid2 hv
          refine ⟨by rw [List.reverse_append, List.append_assoc]; exact hready,
            hbetween1.props.trans hprops, fun hspace => ?_⟩
          by_cases hnil : bytes1 = []
          · obtain ⟨heq, -⟩ := hfresh1 hspace hnil
            obtain ⟨rfl, rfl⟩ := Prod.mk.injEq .. |>.mp heq
            rw [hnil, List.nil_append]
            exact hprogress hspace
          · exact Or.inl fun hn => hnil (List.append_eq_nil_iff.mp hn).1
      | next x2 =>
          obtain ⟨s2, b2⟩ := x2
          obtain ⟨bytes2, hbetween2, hfresh2⟩ := hpost2
          obtain ⟨s3, b3, hr3, hstep3, hready3, hprops3, hprogress3⟩ :=
            lzma2ToTemp_ok hbetween2.ready
          have hstep12 := hbetween1.step.trans h hbetween2.step
          have hready : Lzma2Ready s3 b3 ((bytes1 ++ bytes2).reverse ++ past) := by
            rw [List.reverse_append, List.append_assoc]
            exact hready3
          refine ⟨(true, s3, b3), hr3, bytes1 ++ bytes2, ?_, fun _ => ⟨hready,
            (hbetween1.props.trans hbetween2.props).trans hprops3, fun hspace => ?_⟩⟩
          · have := hstep12.trans h hstep3
            rwa [List.append_nil] at this
          · by_cases hnil : bytes1 = []
            · obtain ⟨heq, hmore⟩ := hfresh1 hspace hnil
              obtain ⟨rfl, rfl⟩ := Prod.mk.injEq .. |>.mp heq
              by_cases hnil2 : bytes2 = []
              · obtain ⟨heq2, hfew⟩ := hfresh2 hspace hnil2
                obtain ⟨rfl, rfl⟩ := Prod.mk.injEq .. |>.mp heq2
                exact Or.inr (hprogress3 hfew hmore)
              · exact Or.inl fun hn => hnil2 (List.append_eq_nil_iff.mp hn).2
            · exact Or.inl fun hn => hnil (List.append_eq_nil_iff.mp hn).1

end Ccr2004
