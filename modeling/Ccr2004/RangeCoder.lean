import Ccr2004.Decision

/-!
# Adaptive binary range coding

A range coder cuts a range in two for every bit, takes one part and, when the
range falls below `top`, reads one byte more. `RangeState` is the decoder: the
range, the offset of the coded number in it, and the bytes to come. The encoder
goes backwards: it is given the offset at the end of a path and adds what every
cut has taken away, so that no carry runs through what was written.

`run_encode` says that the decoder inverts it along any path of any `Decision`,
whatever the model does with the bits it has seen, as long as no cut leaves a
part that one byte cannot bring back to `top` (`BitModel.Lawful`).
-/

namespace Ccr2004

/-- An adaptive model of the bits of cells `ι`: where it cuts a range, and
what it learns from a bit. -/
structure BitModel (ι μ : Type) where
  bound : μ → ι → Nat → Nat
  learn : μ → ι → Bool → μ

structure RangeState (μ : Type) where
  model : μ
  range : Nat
  code : Nat
  rest : List UInt8

namespace RangeState

variable {ι α μ : Type}

def normalize (top : Nat) (s : RangeState μ) : Run (RangeState μ) :=
  if s.range < top then
    match s.rest with
    | [] => .error .outOfBounds
    | byte :: rest =>
        .ok { s with range := s.range * 256, code := s.code * 256 + byte.toNat, rest := rest }
  else .ok s

/-- A code outside both halves is the end of a direct bit: no encoder writes it. -/
def source (M : BitModel ι μ) (top : Nat) : Decision.BitSource ι (RangeState μ) where
  bit i s := do
    let s ← s.normalize top
    let cut := M.bound s.model i s.range
    if s.code < cut then
      .ok (false, { s with range := cut, model := M.learn s.model i false })
    else
      .ok (true, { s with range := s.range - cut, code := s.code - cut,
                          model := M.learn s.model i true })
  direct s := do
    let s ← s.normalize top
    let half := s.range / 2
    if s.code < half then .ok (false, { s with range := half })
    else if s.code - half < half then
      .ok (true, { s with range := half, code := s.code - half })
    else .error .outOfBounds

/-- The decoder with more bytes to come. -/
def extend (s : RangeState μ) (tail : List UInt8) : RangeState μ := { s with rest := s.rest ++ tail }

theorem extend_extend (s : RangeState μ) (tail tail' : List UInt8) :
    (s.extend tail).extend tail' = s.extend (tail ++ tail') := by
  simp only [extend, List.append_assoc]

@[simp] theorem extend_nil (s : RangeState μ) : s.extend [] = s := by
  rw [extend, List.append_nil]

theorem normalize_extend {top : Nat} {s s' : RangeState μ} (tail : List UInt8)
    (h : s.normalize top = .ok s') : (s.extend tail).normalize top = .ok (s'.extend tail) := by
  obtain ⟨m, r, c, rest⟩ := s
  rw [normalize] at h
  rw [normalize, extend]
  by_cases hr : r < top
  · rw [if_pos hr] at h
    rw [if_pos hr]
    cases rest with
    | nil => cases h
    | cons byte rest =>
        cases h
        rfl
  · rw [if_neg hr] at h
    rw [if_neg hr]
    cases h
    rfl

/-- Once is enough. -/
theorem normalize_normalize {top : Nat} {s s' : RangeState μ} (htop : top ≤ 256 * s.range)
    (h : s.normalize top = .ok s') : s'.normalize top = .ok s' ∧ top ≤ s'.range := by
  rw [normalize] at h
  split at h
  · split at h
    · cases h
    · cases h
      have hge : ¬ s.range * 256 < top := by omega
      exact ⟨by rw [normalize, if_neg hge], by simp only; omega⟩
  · rename_i hr
    cases h
    exact ⟨by rw [normalize, if_neg hr], by omega⟩

/-- The decoder does not notice bytes that it does not need. -/
theorem run_extend {M : BitModel ι μ} {top : Nat} {p : Decision ι α} {s s' : RangeState μ} {x : α}
    (tail : List UInt8) (h : p.run (source M top) s = .ok (x, s')) :
    p.run (source M top) (s.extend tail) = .ok (x, s'.extend tail) := by
  have hbit : ∀ i (s t : RangeState μ) c s', t = s.extend tail →
      (source M top).bit i s = .ok (c, s') →
      ∃ t', (source M top).bit i t = .ok (c, t') ∧ t' = s'.extend tail := by
    rintro i s _ c s' rfl hbit
    obtain ⟨u, hu, hcut⟩ := bind_eq_ok.mp hbit
    refine ⟨_, ?_, rfl⟩
    simp only [source, normalize_extend tail hu, ok_bind]
    simp only [extend] at hcut ⊢
    split at hcut
    · rename_i hlt
      cases hcut
      exact if_pos hlt
    · rename_i hlt
      cases hcut
      exact if_neg hlt
  have hdirect : ∀ (s t : RangeState μ) c s', t = s.extend tail →
      (source M top).direct s = .ok (c, s') →
      ∃ t', (source M top).direct t = .ok (c, t') ∧ t' = s'.extend tail := by
    rintro s _ c s' rfl hdirect
    obtain ⟨u, hu, hhalf⟩ := bind_eq_ok.mp hdirect
    refine ⟨_, ?_, rfl⟩
    simp only [source, normalize_extend tail hu, ok_bind]
    simp only [extend] at hhalf ⊢
    split at hhalf
    · rename_i hlt
      cases hhalf
      exact if_pos hlt
    · rename_i hlt
      split at hhalf
      · rename_i hlt'
        cases hhalf
        exact (if_neg hlt).trans (if_pos hlt')
      · cases hhalf
  obtain ⟨t, ht, rfl⟩ := Decision.run_sim hbit hdirect p rfl h
  exact ht

/-- What begins with a predicted bit depends on the normalised decoder only. -/
theorem run_bit_congr {M : BitModel ι μ} {top : Nat} {i : ι} {next : Bool → Decision ι α}
    {s t : RangeState μ} (h : s.normalize top = t.normalize top) :
    (Decision.bit i next).run (source M top) s = (Decision.bit i next).run (source M top) t := by
  simp only [Decision.run, source, h]

end RangeState

namespace BitModel

variable {ι α μ : Type}

/-- Every cut leaves two parts that one byte brings back to `top`, and so does
a direct bit. -/
structure Lawful (M : BitModel ι μ) (top : Nat) (Good : μ → Prop) (ok : ι → Prop) : Prop where
  pos : 0 < top
  low : ∀ m i r, Good m → ok i → top ≤ r → top ≤ 256 * M.bound m i r
  high : ∀ m i r, Good m → ok i → top ≤ r →
    M.bound m i r < r ∧ top ≤ 256 * (r - M.bound m i r)
  half : ∀ r, top ≤ r → top ≤ 256 * (r / 2)
  learn : ∀ m i c, Good m → ok i → Good (M.learn m i c)

/-- The range a bit is decoded in. -/
def scaled (top r : Nat) : Nat := if r < top then r * 256 else r

/-- The part of a cut range that a bit stands for: its size, and where it begins. -/
def part (c : Bool) (cut r : Nat) : Nat := if c then r - cut else cut

def offset (c : Bool) (cut : Nat) : Nat := if c then cut else 0

/-- Write an offset in the scaled range: the byte that scaling reads is its
last digit. -/
def emit (top r : Nat) (v : Nat × List UInt8) : Nat × List UInt8 :=
  if r < top then (v.1 / 256, UInt8.ofNat (v.1 % 256) :: v.2) else v

/-- Offset and bytes from which `p` takes the path `bits`, when `k` gives them
for what follows the path. -/
def encode (M : BitModel ι μ) (top : Nat) : Decision ι α → List Bool → μ → Nat →
    (α → μ → Nat → Nat × List UInt8) → Nat × List UInt8
  | .done a, _, m, r, k => k a m r
  | .fault _, _, _, _, _ => (0, [])
  | .bit _ _, [], _, _, _ => (0, [])
  | .bit i next, c :: bits, m, r, k =>
      let cut := M.bound m i (scaled top r)
      let after := encode M top (next c) bits (M.learn m i c) (part c cut (scaled top r)) k
      emit top r (offset c cut + after.1, after.2)
  | .direct _, [], _, _, _ => (0, [])
  | .direct next, c :: bits, m, r, k =>
      let half := scaled top r / 2
      let after := encode M top (next c) bits m half k
      emit top r (offset c half + after.1, after.2)

/-- The model and the range at the end of the path `bits`. -/
def along (M : BitModel ι μ) (top : Nat) : Decision ι α → List Bool → μ → Nat → μ × Nat
  | .done _, _, m, r => (m, r)
  | .fault _, _, m, r => (m, r)
  | .bit _ _, [], m, r => (m, r)
  | .bit i next, c :: bits, m, r =>
      along M top (next c) bits (M.learn m i c) (part c (M.bound m i (scaled top r)) (scaled top r))
  | .direct _, [], m, r => (m, r)
  | .direct next, c :: bits, m, r => along M top (next c) bits m (scaled top r / 2)

/-- The end of a code: the decoder scales once more, and offset 0 is left. -/
def finish (top r : Nat) : Nat × List UInt8 := emit top r (0, [])

theorem scaled_ge {top r : Nat} (h : top ≤ 256 * r) : top ≤ scaled top r := by
  rw [scaled]
  split <;> omega

/-- An offset inside the scaled range comes from one inside the range. -/
theorem emit_lt {top r : Nat} {v : Nat × List UInt8} (h : v.1 < scaled top r) :
    (emit top r v).1 < r := by
  rw [scaled] at h
  rw [emit]
  split at h
  · rename_i hr
    rw [if_pos hr]
    exact Nat.div_lt_of_lt_mul (by omega)
  · rename_i hr
    rwa [if_neg hr]

/-- Normalising reads back what `emit` has written. -/
theorem normalize_emit {top r : Nat} {m : μ} (v : Nat × List UInt8) (rest : List UInt8) :
    RangeState.normalize top ⟨m, r, (emit top r v).1, (emit top r v).2 ++ rest⟩
      = .ok ⟨m, scaled top r, v.1, v.2 ++ rest⟩ := by
  rw [emit, scaled, RangeState.normalize]
  by_cases hr : r < top
  · have hdigit : (UInt8.ofNat (v.1 % 256)).toNat = v.1 % 256 := by
      rw [UInt8.toNat_ofNat']
      omega
    simp only [if_pos hr, List.cons_append, hdigit, Nat.div_add_mod']
  · simp only [if_neg hr]

theorem finish_lt {top r : Nat} (hr : 0 < r) : (finish top r).1 < r :=
  emit_lt (by rw [scaled]; split <;> simp only <;> omega)

section Inverse

variable {M : BitModel ι μ} {top : Nat} {Good : μ → Prop} {ok : ι → Prop}

/-- One predicted bit. -/
theorem bit_emit (hM : M.Lawful top Good ok) {m : μ} {i : ι} {r : Nat} (hm : Good m)
    (hi : ok i) (hr : top ≤ 256 * r) (c : Bool) {cut : Nat}
    (hcut : cut = M.bound m i (scaled top r)) {after : Nat × List UInt8}
    (hafter : after.1 < part c cut (scaled top r)) :
    (emit top r (offset c cut + after.1, after.2)).1 < r
      ∧ ∀ rest, (RangeState.source M top).bit i
          ⟨m, r, (emit top r (offset c cut + after.1, after.2)).1,
            (emit top r (offset c cut + after.1, after.2)).2 ++ rest⟩
        = .ok (c, ⟨M.learn m i c, part c cut (scaled top r), after.1, after.2 ++ rest⟩) := by
  obtain ⟨hlt, -⟩ := hM.high m i _ hm hi (scaled_ge hr)
  subst hcut
  refine ⟨emit_lt ?_, fun rest => ?_⟩
  · cases c <;> simp only [part, offset, if_true, if_false, Bool.false_eq_true] at hafter ⊢ <;>
      omega
  · simp only [RangeState.source, normalize_emit, ok_bind]
    cases c with
    | false =>
        simp only [part, offset, if_false, Bool.false_eq_true, Nat.zero_add] at hafter ⊢
        rw [if_pos hafter]
    | true =>
        simp only [part, offset, if_true] at hafter ⊢
        rw [if_neg (by omega), Nat.add_sub_cancel_left]

/-- One direct bit. -/
theorem direct_emit {m : μ} {r : Nat} (c : Bool) {after : Nat × List UInt8}
    (hafter : after.1 < scaled top r / 2) :
    (emit top r (offset c (scaled top r / 2) + after.1, after.2)).1 < r
      ∧ ∀ rest, (RangeState.source M top).direct
          ⟨m, r, (emit top r (offset c (scaled top r / 2) + after.1, after.2)).1,
            (emit top r (offset c (scaled top r / 2) + after.1, after.2)).2 ++ rest⟩
        = .ok (c, ⟨m, scaled top r / 2, after.1, after.2 ++ rest⟩) := by
  refine ⟨emit_lt ?_, fun rest => ?_⟩
  · cases c <;> simp only [offset, if_true, if_false, Bool.false_eq_true] <;> omega
  · simp only [RangeState.source, normalize_emit, ok_bind]
    cases c with
    | false =>
        simp only [offset, if_false, Bool.false_eq_true, Nat.zero_add]
        rw [if_pos hafter]
    | true =>
        simp only [offset, if_true]
        rw [if_neg (by omega), Nat.add_sub_cancel_left, if_pos hafter]

theorem part_ge (hM : M.Lawful top Good ok) {m : μ} {i : ι} {r : Nat} (hm : Good m)
    (hi : ok i) (hr : top ≤ 256 * r) (c : Bool) :
    top ≤ 256 * part c (M.bound m i (scaled top r)) (scaled top r) := by
  have htop := scaled_ge hr
  cases c with
  | false => exact hM.low m i _ hm hi htop
  | true => exact (hM.high m i _ hm hi htop).2

/-- The range and the model at the end of a path are as good as at its start. -/
theorem along_good (hM : M.Lawful top Good ok) {p : Decision ι α} {rate a b : Nat}
    {Q : α → Prop} (hp : Decision.Within ok rate a b Q p) {bits : List Bool} {m : μ} {r : Nat}
    (hm : Good m) (hr : top ≤ 256 * r) :
    Good (along M top p bits m r).1 ∧ top ≤ 256 * (along M top p bits m r).2 := by
  induction hp generalizing bits m r with
  | done hx => exact ⟨hm, hr⟩
  | @bit a b Q i next hi hnext ih =>
      cases bits with
      | nil => exact ⟨hm, hr⟩
      | cons c bits => exact ih c (hM.learn m i c hm hi) (part_ge hM hm hi hr c)
  | direct hnext ih =>
      cases bits with
      | nil => exact ⟨hm, hr⟩
      | cons c bits => exact ih c hm (hM.half _ (scaled_ge hr))
  | trade hp ih => exact ih hm hr

/-- The decoder inverts the encoder along a path: it ends where the path ends,
with the range and the model from which `k` was asked for the rest. -/
theorem run_encode (hM : M.Lawful top Good ok) {p : Decision ι α} {rate a b : Nat}
    {Q : α → Prop} {bits bits' : List Bool} {x : α} {m : μ} {r : Nat}
    {k : α → μ → Nat → Nat × List UInt8}
    (hp : Decision.Within ok rate a b Q p) (hpath : p.follow bits = some (x, bits'))
    (hm : Good m) (hr : top ≤ 256 * r) {m' : μ} {r' : Nat}
    (hend : along M top p bits m r = (m', r')) (hk : (k x m' r').1 < r') :
    (encode M top p bits m r k).1 < r ∧ ∀ rest,
      p.run (RangeState.source M top)
          ⟨m, r, (encode M top p bits m r k).1, (encode M top p bits m r k).2 ++ rest⟩
        = .ok (x, ⟨m', r', (k x m' r').1, (k x m' r').2 ++ rest⟩) := by
  induction hp generalizing bits m r with
  | done hx =>
      obtain ⟨rfl, rfl⟩ := Prod.mk.injEq .. |>.mp (Option.some.inj hpath)
      obtain ⟨rfl, rfl⟩ := Prod.mk.injEq .. |>.mp hend
      exact ⟨hk, fun rest => rfl⟩
  | @bit a b Q i next hi hnext ih =>
      cases bits with
      | nil => cases hpath
      | cons c bits =>
          obtain ⟨hafter, hrun⟩ := ih c hpath (hM.learn m i c hm hi) (part_ge hM hm hi hr c) hend
          obtain ⟨hlt, hbit⟩ := bit_emit hM hm hi hr c rfl hafter
          refine ⟨hlt, fun rest => ?_⟩
          rw [Decision.run, encode, hbit rest, ok_bind]
          exact hrun rest
  | direct hnext ih =>
      cases bits with
      | nil => cases hpath
      | cons c bits =>
          obtain ⟨hafter, hrun⟩ := ih c hpath hm (hM.half _ (scaled_ge hr)) hend
          obtain ⟨hlt, hbit⟩ := direct_emit (M := M) c hafter
          refine ⟨hlt, fun rest => ?_⟩
          rw [Decision.run, encode, hbit rest, ok_bind]
          exact hrun rest
  | trade hp ih => exact ih hpath hm hr hend

end Inverse

end BitModel

end Ccr2004
