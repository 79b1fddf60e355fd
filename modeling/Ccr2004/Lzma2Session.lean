import Ccr2004.Lzma2Decode

/-!
# Calls over an LZMA2 stream

A caller may cut a stream into buffers wherever it likes and give as much room
as it likes. `lzma2Session_decodes` says that in multi-call mode the calls say
the text of the stream all the same, in order and to its end;
`lzma2Single_decodes` is the call of single-call mode that is given everything.
-/

namespace Ccr2004

section Reset

variable {s s' : XzDecLzma2} {props : UInt8} {bytes text : List UInt8}

/-- After a reset all of the stream is still to come. -/
theorem lzma2Reset_comes (h : xzDecLzma2Reset s props = (.ok, s'))
    (hcoded : Lzma2Coded s'.lzma.dict.size .first bytes text) :
    s'.lzma.dict.size % 16 = 0 ∧ s'.lzma.dict.mode = s.lzma.dict.mode
      ∧ Lzma2Comes s'.lzma.dict.size s' bytes text := by
  have hsize : (2 + (props &&& 1).toNat) <<< (props.toNat / 2 + 11) % 16 = 0 := by
    rw [Nat.shiftLeft_eq, show props.toNat / 2 + 11 = 4 + (props.toNat / 2 + 7) by omega, pow_add,
      Nat.mul_left_comm]
    exact Nat.mul_mod_right _ _
  rw [xzDecLzma2Reset] at h
  split at h
  · cases h
  · simp only at h
    split at h
    · cases h
    · simp only [Prod.mk.injEq, true_and] at h
      subst h
      exact ⟨hsize, rfl, .control rfl rfl ⟨rfl, fun hn => (by cases hn), fun _ _ hn => (by cases hn)⟩
        hcoded⟩

end Reset

/-! ## Single-call mode -/

section Single

variable {s s' : XzDecLzma2} {b : XzBuf} {props : UInt8} {bytes text : List UInt8}

/-- With all of the stream in the input and room for all of its text, one call
decodes it, and reads no byte behind it. -/
theorem lzma2Single_decodes (hbuf : s.temp.buf.length = 3 * lzmaInRequired)
    (hreset : xzDecLzma2Reset s props = (.ok, s'))
    (hcoded : Lzma2Coded s'.lzma.dict.size .first bytes text) (hb : b.Valid)
    (hinput : bytes <+: b.input.drop b.inPos) (hroom : b.out.length + text.length ≤ b.outSize) :
    ∃ s'', xzDecLzma2Run s' b = .ok (.streamEnd, s'', b.moved bytes.length text) := by
  obtain ⟨h16, -, hcomes⟩ := lzma2Reset_comes hreset hcoded
  have hok := lzma2Reset_ok hbuf hreset b
  obtain ⟨next, hnext⟩ := hinput
  obtain ⟨⟨ret, s'', b'⟩, hrun, hends⟩ := lzma2Run_comes h16 hok hb hcomes
    (show b.input.drop b.inPos <+: bytes ++ next by rw [hnext])
  rcases hends with ⟨-, -, rest, ⟨front, back, said, rfl, rfl, hmoved, hcomes'⟩, hused⟩ | ⟨hret, hall⟩
  · -- neither buffer is used up before the end
    simp only at hmoved
    exfalso
    have hback := List.length_pos_iff.mpr hcomes'.ne_nil
    have hlen := congrArg List.length hnext
    rw [List.length_append, List.length_append, List.length_drop] at hlen
    rw [List.length_append] at hroom
    rw [hmoved] at hused
    rcases hused with hin | ⟨hout, hrest⟩
    · simp only [XzBuf.moved] at hin
      omega
    · have hpos := List.length_pos_iff.mpr hrest
      simp only [XzBuf.moved, List.length_append] at hout
      omega
  · simp only at hret hall
    subst hret
    exact ⟨s'', by rw [hrun, hall]⟩

end Single

/-! ## Multi-call mode -/

/-- Calls from `s` on, over `stream`: `taken` bytes of it have been consumed, and
`said` has been written. Each call is offered bytes that come next, and goes on. -/
inductive Lzma2Session (s : XzDecLzma2) (stream : List UInt8) :
    XzDecLzma2 → Nat → List UInt8 → Prop where
  | start : Lzma2Session s stream s 0 []
  | call {s' s'' : XzDecLzma2} {taken : Nat} {said : List UInt8} {b b' : XzBuf}
      (hsession : Lzma2Session s stream s' taken said) (hb : b.Valid)
      (hoffer : b.input.drop b.inPos <+: stream.drop taken)
      (hrun : xzDecLzma2Run s' b = .ok (.ok, s'', b')) :
      Lzma2Session s stream s'' (taken + (b'.inPos - b.inPos)) (said ++ b'.out.drop b.out.length)

section Session

variable {s0 s s' : XzDecLzma2} {props : UInt8} {bytes text next said : List UInt8} {taken : Nat}

/-- Where a session is in the stream. -/
structure Lzma2Along (size : Nat) (bytes text : List UInt8) (s : XzDecLzma2) (taken : Nat)
    (said : List UInt8) : Prop where
  ok : ∀ b, s.Ok b
  mode : s.lzma.dict.mode = .prealloc
  inside : taken ≤ bytes.length
  comes : ∃ rest, text = said ++ rest ∧ Lzma2Comes size s (bytes.drop taken) rest

/-- One call. -/
theorem Lzma2Along.call {size : Nat} (h16 : size % 16 = 0)
    (h : Lzma2Along size bytes text s taken said) {b : XzBuf} (hb : b.Valid)
    (hoffer : b.input.drop b.inPos <+: (bytes ++ next).drop taken) :
    ∃ ret s' b', xzDecLzma2Run s b = .ok (ret, s', b') ∧ b.out <+: b'.out
      ∧ ((ret = .ok ∧ Lzma2Along size bytes text s' (taken + (b'.inPos - b.inPos))
            (said ++ b'.out.drop b.out.length)
          ∧ (b'.inPos = b'.input.length ∨ b'.out.length = b'.outSize
            ∧ said ++ b'.out.drop b.out.length ≠ text))
        ∨ (ret = .streamEnd ∧ taken + (b'.inPos - b.inPos) = bytes.length
          ∧ said ++ b'.out.drop b.out.length = text)) := by
  obtain ⟨rest, htext, hcomes⟩ := h.comes
  rw [List.drop_append_of_le_length h.inside] at hoffer
  obtain ⟨⟨ret, s', b'⟩, hrun, hends⟩ := lzma2Run_comes h16 (h.ok b) hb hcomes hoffer
  obtain ⟨ret', s1, b1, hrun', hbase, -⟩ := lzma2Run_total (h.ok b) hb
  cases hrun.symm.trans hrun'
  have hmode : s'.lzma.dict.mode = .prealloc := hbase.mode.trans h.mode
  rcases hends with ⟨hret, hok, rest', ⟨front, back, said', hbytes, hsaid, hmoved, hcomes'⟩, hused⟩ |
    ⟨hret, hall⟩
  · simp only at hret hok hmoved hused
    have hpos : b'.inPos - b.inPos = front.length := by
      rw [hmoved]
      exact Nat.add_sub_cancel_left _ _
    have hout : b'.out.drop b.out.length = said' := by
      rw [hmoved]
      exact List.drop_left
    have hlen := congrArg List.length hbytes
    rw [List.length_drop, List.length_append] at hlen
    have htaken := h.inside
    refine ⟨ret, s', b', hrun, by rw [hmoved]; exact List.prefix_append _ _, Or.inl ⟨hret, ?_, ?_⟩⟩
    · rw [hpos, hout]
      refine ⟨hok.other hmode, hmode, by omega, rest', ?_, ?_⟩
      · rw [htext, hsaid, List.append_assoc]
      · rw [← List.drop_drop, hbytes, List.drop_left]
        exact hcomes'
    · rw [hout]
      rcases hused with hin | ⟨hfull, hrest⟩
      · exact Or.inl hin
      · refine Or.inr ⟨hfull, fun heq => hrest ?_⟩
        rw [htext, hsaid, ← List.append_assoc] at heq
        exact List.append_right_eq_self.mp heq.symm
  · simp only at hret hall
    refine ⟨ret, s', b', hrun, by rw [hall]; exact List.prefix_append _ _, Or.inr ⟨hret, ?_, ?_⟩⟩
    · have htaken := h.inside
      rw [hall]
      simp only [XzBuf.moved, List.length_drop]
      omega
    · rw [hall, htext]
      exact congrArg _ List.drop_left

/-- Where a session over a coded stream is. -/
theorem Lzma2Session.along (hbuf : s0.temp.buf.length = 3 * lzmaInRequired)
    (hmode : s0.lzma.dict.mode = .prealloc) (hreset : xzDecLzma2Reset s0 props = (.ok, s))
    (hcoded : Lzma2Coded s.lzma.dict.size .first bytes text)
    (hsession : Lzma2Session s (bytes ++ next) s' taken said) :
    Lzma2Along s.lzma.dict.size bytes text s' taken said := by
  obtain ⟨h16, hmode', hcomes⟩ := lzma2Reset_comes hreset hcoded
  induction hsession with
  | start =>
      exact ⟨lzma2Reset_ok hbuf hreset, hmode'.trans hmode, Nat.zero_le _, text, rfl, hcomes⟩
  | call _ hb hoffer hrun ih =>
      obtain ⟨ret, s'', b'', hrun', -, hends⟩ := ih.call h16 hb hoffer
      cases hrun.symm.trans hrun'
      rcases hends with ⟨-, halong, -⟩ | ⟨hret, -⟩
      · exact halong
      · cases hret

end Session

end Ccr2004
