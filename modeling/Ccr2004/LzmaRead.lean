import Ccr2004.LzmaSafe

/-!
# What a symbol reads

The range decoder sees its input only at `in_pos`, so that more bytes behind
change nothing for a symbol that ends without them (`run_extend`). With
`LZMA_IN_REQUIRED` bytes ahead every symbol does: `lzmaSymbol_required`.
-/

namespace Ccr2004

/-! ## More input -/

/-- The decoder with more input behind. -/
def RcDec.extend (rc : RcDec) (more : List UInt8) : RcDec := { rc with input := rc.input ++ more }

def LzmaCoder.extend (c : LzmaCoder) (more : List UInt8) : LzmaCoder :=
  { c with rc := c.rc.extend more }

variable {more : List UInt8}

@[simp] theorem LzmaCoder.extend_probs (c : LzmaCoder) : (c.extend more).probs = c.probs := rfl

theorem normalize_extend {rc rc' : RcDec} (h : rc.normalize = .ok rc') :
    (rc.extend more).normalize = .ok (rc'.extend more) := by
  rw [RcDec.normalize] at h ⊢
  by_cases hr : rc.range < 0x1000000
  · rw [if_pos hr] at h
    rw [if_pos (show (rc.extend more).range < 0x1000000 from hr)]
    cases hbyte : rc.input[rc.inPos]? with
    | none =>
        rw [hbyte] at h
        cases h
    | some byte =>
        have hbyte' : (rc.extend more).input[(rc.extend more).inPos]? = some byte :=
          (List.getElem?_append_left (List.getElem?_eq_some_iff.mp hbyte).1).trans hbyte
        rw [hbyte] at h
        cases h
        rw [hbyte']
        rfl
  · rw [if_neg hr] at h
    rw [if_neg (show ¬ (rc.extend more).range < 0x1000000 from hr)]
    cases h
    rfl

theorem rcBit_extend {i : Nat} {c c' : LzmaCoder} {bit : Bool} (h : rcBit i c = .ok (bit, c')) :
    rcBit i (c.extend more) = .ok (bit, c'.extend more) := by
  obtain ⟨rc, hrc, hbit⟩ := bind_eq_ok.mp h
  rw [rcBit, show (c.extend more).rc.normalize = _ from normalize_extend hrc, ok_bind]
  simp only [RcDec.extend, LzmaCoder.extend_probs] at hbit ⊢
  split at hbit
  · rename_i hlt
    cases hbit
    exact if_pos hlt
  · rename_i hlt
    cases hbit
    exact if_neg hlt

theorem rcDirectBit_extend {c c' : LzmaCoder} {bit : Bool} (h : rcDirectBit c = .ok (bit, c')) :
    rcDirectBit (c.extend more) = .ok (bit, c'.extend more) := by
  obtain ⟨rc, hrc, hbit⟩ := bind_eq_ok.mp h
  rw [rcDirectBit, show (c.extend more).rc.normalize = _ from normalize_extend hrc, ok_bind]
  cases hbit
  rfl

/-- What a decoder does not need, it does not notice. -/
theorem run_extend {α : Type} {p : Decision Nat α} {c c' : LzmaCoder} {x : α} (more : List UInt8)
    (h : p.run lzmaSource c = .ok (x, c')) :
    p.run lzmaSource (c.extend more) = .ok (x, c'.extend more) := by
  obtain ⟨t, ht, rfl⟩ := Decision.run_sim (S := lzmaSource) (T := lzmaSource)
    (R := fun c t => t = c.extend more) (fun _ _ _ _ _ hR hbit => ⟨_, hR ▸ rcBit_extend hbit, rfl⟩)
    (fun _ _ _ _ hR hbit => ⟨_, hR ▸ rcDirectBit_extend hbit, rfl⟩) p rfl h
  exact ht

/-- The decoder when its input ends at `n`. -/
def LzmaCoder.cut (c : LzmaCoder) (n : Nat) : LzmaCoder :=
  { c with rc := { c.rc with input := c.rc.input.take n } }

theorem LzmaCoder.extend_cut (c : LzmaCoder) (n : Nat) :
    (c.cut n).extend (c.rc.input.drop n) = c := by
  simp only [cut, extend, RcDec.extend, List.take_append_drop]

/-- A decoder over an input that affords all its paths up to `n` reads no
further, not even to normalise once more. -/
theorem run_cut {α : Type} {Q : α → Prop} {p : Decision Nat α} {a b n : Nat} {c : LzmaCoder}
    (hp : LzmaWithin a b Q p) (h : Affords a b (c.cut n)) :
    ∃ x c', p.run lzmaSource (c.cut n) = .ok (x, c') ∧ Q x ∧ Affords 0 0 c'
      ∧ (c.cut n).rc.Reads c'.rc
      ∧ p.run lzmaSource c = .ok (x, c'.extend (c.rc.input.drop n)) := by
  obtain ⟨x, c', hrun, hQ, hafford, hreads⟩ := run_affords hp (show Affords (a + 0) (b + 0) _ from h)
  have hfull := run_extend (c.rc.input.drop n) hrun
  rw [c.extend_cut] at hfull
  exact ⟨x, c', hrun, hQ, hafford, hreads, hfull⟩

theorem affords_cut {c : LzmaCoder} {n : Nat} (hprobs : c.probs.Good)
    (hlow : 31 * 2 ^ 13 ≤ c.rc.range.toNat) (hin : c.rc.inPos + lzmaInRequired ≤ n)
    (hn : n ≤ c.rc.input.length) : Affords 22 26 (c.cut n) :=
  affords_symbol hprobs hlow (by
    simp only [LzmaCoder.cut, List.length_take]
    omega)

/-- `LZMA_IN_REQUIRED` is enough: with so many bytes ahead a symbol decodes
without a fault, and with the normalisation after it reads none behind them. -/
theorem lzmaSymbol_required {s : Lzma} {past : List UInt8} {c : LzmaCoder} (h : s.Ok past)
    (hspace : s.dict.pos < s.dict.limit) (hprobs : c.probs.Good)
    (hlow : 31 * 2 ^ 13 ≤ c.rc.range.toNat)
    (hin : c.rc.inPos + lzmaInRequired ≤ c.rc.input.length) :
    ∃ valid s' c' rc, (lzmaSymbol s).run lzmaSource c = .ok ((valid, s'), c')
      ∧ c'.rc.normalize = .ok rc ∧ c.rc.inPos ≤ rc.inPos
      ∧ rc.inPos ≤ c.rc.inPos + lzmaInRequired := by
  obtain ⟨⟨valid, s'⟩, c1, -, -, hafford, hreads, hrun⟩ :=
    run_cut (within_lzmaSymbol h hspace) (affords_cut hprobs hlow (Nat.le_refl _) hin)
  obtain ⟨rc, hnorm, hrc, -, hreads'⟩ := normalize_affords hafford
  refine ⟨valid, s', _, _, hrun, normalize_extend hnorm, (hreads.trans hreads').inPos, ?_⟩
  have hinside : rc.inPos ≤ rc.input.length := hrc.inside
  rw [(hreads.trans hreads').input] at hinside
  simp only [LzmaCoder.cut, List.length_take] at hinside
  simp only [RcDec.extend]
  omega

/-- A decoder before its first symbol, over zeros. -/
theorem lzmaSymbol_required_first : ∃ valid s' c' rc,
    (lzmaSymbol ⟨⟨.single, 0, [], 0, 0, 0, 1, 1, 4096, 0⟩, ⟨0, 0, 0, 0, .litLit, 0, 3, 0, 3⟩⟩).run
        lzmaSource ⟨⟨0xFFFFFFFF, 0, 0, List.replicate 21 0, 0, 0⟩, fun _ => 1024⟩
      = .ok ((valid, s'), c') ∧ c'.rc.normalize = .ok rc ∧ 0 ≤ rc.inPos ∧ rc.inPos ≤ 0 + 21 :=
  @lzmaSymbol_required _ [] _
    ⟨⟨⟨by decide, by decide, Or.inl ⟨rfl, rfl⟩, fun k hk => absurd hk (Nat.not_lt_zero k)⟩, rfl,
        Nat.le_refl _, by decide, by decide, fun hm => by cases hm⟩,
      ⟨⟨0, rfl, by decide⟩, by decide, by decide, by decide, by decide, by decide, by decide⟩,
      by decide⟩
    (by decide)
    (fun _ _ => (by decide : 31 ≤ (1024 : UInt16).toNat ∧ (1024 : UInt16).toNat ≤ 2017))
    (by decide) (by decide)

end Ccr2004
