import Mathlib.Data.List.Basic

/-!
# Self-delimiting frames

A framing is an encoding of frames as nonempty lists that can be told apart
from the front: `next` finds the frame a list starts with, if it starts with
one. Frames written one after the other are then read back one after the
other. Such a list is walked in three ways, each with its rules for the
outcomes of `next`:

- reading all of it: `encode_eq_iff_of_next` takes off one frame, and
  `encode_ne_of_next_none` says that a list without a frame at its front
  ends the attempt;
- reading as far as there are frames: `exists_leading` splits a list into
  frames and a rest that does not start with one;
- searching for the first frame of a kind, `First`: `first_iff_of_next`
  finds it, `first_iff_of_next_not` skips a frame, `not_first_of_next_none`
  gives up.
-/

namespace Ccr2004

/-- Frames of type `R` over an alphabet `β`. -/
structure Framing (β R : Type) where
  bytes : R → List β
  next : List β → Option R
  bytes_ne : ∀ r, bytes r ≠ []
  next_eq_some : ∀ {bs r}, next bs = some r ↔ bytes r <+: bs

namespace Framing

variable {β R : Type} (F : Framing β R)

/-- Frames one after the other. -/
def encode (rs : List R) : List β := rs.flatMap F.bytes

@[simp] theorem encode_nil : F.encode [] = [] := rfl

@[simp] theorem encode_cons (r : R) (rs : List R) :
    F.encode (r :: rs) = F.bytes r ++ F.encode rs := rfl

@[simp] theorem encode_append (rs rs' : List R) :
    F.encode (rs ++ rs') = F.encode rs ++ F.encode rs' := List.flatMap_append

variable {F}

theorem next_append (r : R) (bs : List β) : F.next (F.bytes r ++ bs) = some r :=
  F.next_eq_some.mpr (List.prefix_append _ _)

theorem next_nil : F.next [] = none := by
  cases h : F.next [] with
  | none => rfl
  | some r =>
      have hpre := F.next_eq_some.mp h
      exact absurd (List.prefix_nil.mp hpre) (F.bytes_ne r)

/-- The list after the frame at its front. -/
theorem eq_append_of_next {bs : List β} {r : R} (h : F.next bs = some r) :
    bs = F.bytes r ++ bs.drop (F.bytes r).length := by
  obtain ⟨rest, rfl⟩ := F.next_eq_some.mp h
  rw [List.drop_left]

theorem encode_eq_nil_iff {rs : List R} : F.encode rs = [] ↔ rs = [] := by
  cases rs with
  | nil => simp
  | cons r rs => simp [F.bytes_ne r]

/-! ## Reading all of a list -/

/-- The first of the frames of a list is the one at its front. -/
theorem encode_eq_iff_of_next {bs : List β} {r : R} (h : F.next bs = some r)
    {rs : List R} :
    F.encode rs = bs ↔
      ∃ rs', rs = r :: rs' ∧ F.encode rs' = bs.drop (F.bytes r).length := by
  constructor
  · intro heq
    cases rs with
    | nil =>
        rw [← heq, encode_nil, next_nil] at h
        cases h
    | cons q rs' =>
        rw [encode_cons] at heq
        rw [← heq, next_append] at h
        obtain rfl := Option.some.inj h
        exact ⟨rs', rfl, by rw [← heq, List.drop_left]⟩
  · rintro ⟨rs', rfl, heq⟩
    rw [encode_cons, heq]
    exact (eq_append_of_next h).symm

/-- A nonempty list without a frame at its front is not a list of frames. -/
theorem encode_ne_of_next_none {bs : List β} (h : F.next bs = none) (hne : bs ≠ [])
    (rs : List R) : F.encode rs ≠ bs := by
  rintro rfl
  cases rs with
  | nil => exact hne rfl
  | cons r rs =>
      rw [encode_cons, next_append] at h
      cases h

theorem encode_injective {rs rs' : List R} (h : F.encode rs = F.encode rs') :
    rs = rs' := by
  induction rs generalizing rs' with
  | nil => exact (encode_eq_nil_iff.mp h.symm).symm
  | cons r rs ih =>
      obtain ⟨rs'', rfl, h'⟩ :=
        (encode_eq_iff_of_next (next_append r (F.encode rs))).mp h.symm
      rw [List.drop_left] at h'
      rw [ih h'.symm]

/-! ## The frames at the front -/

/-- Every list is frames and a rest that does not start with one. -/
theorem exists_leading (F : Framing β R) : ∀ bs : List β,
    ∃ rs rest, bs = F.encode rs ++ rest ∧ F.next rest = none := by
  intro bs
  induction hn : bs.length using Nat.strongRecOn generalizing bs with
  | ind n ih =>
      cases hnext : F.next bs with
      | none => exact ⟨[], bs, rfl, hnext⟩
      | some r =>
          have hbs := eq_append_of_next hnext
          have hpos := List.length_pos_iff.mpr (F.bytes_ne r)
          have hlen := congrArg List.length hbs
          rw [List.length_append] at hlen
          obtain ⟨rs, rest, hsplit, hrest⟩ :=
            ih (bs.drop (F.bytes r).length).length (by omega) _ rfl
          refine ⟨r :: rs, rest, ?_, hrest⟩
          rw [encode_cons, List.append_assoc, ← hsplit]
          exact hbs

/-! ## The first frame of a kind -/

variable (F) in
/-- `r` is the first frame of `bs` that satisfies `P`; what follows it is not
looked at. -/
def First (P : R → Prop) (bs : List β) (r : R) : Prop :=
  ∃ pre rest, bs = F.encode pre ++ (F.bytes r ++ rest) ∧ (∀ q ∈ pre, ¬ P q) ∧ P r

variable {P : R → Prop} {bs : List β} {r : R}

theorem first_iff_of_next (h : F.next bs = some r) (hP : P r) {q : R} :
    F.First P bs q ↔ q = r := by
  constructor
  · rintro ⟨pre, rest, rfl, hpre, -⟩
    cases pre with
    | nil =>
        rw [encode_nil, List.nil_append, next_append] at h
        exact Option.some.inj h
    | cons p pre =>
        rw [encode_cons, List.append_assoc, next_append] at h
        obtain rfl := Option.some.inj h
        exact absurd hP (hpre _ (List.mem_cons_self ..))
  · rintro rfl
    refine ⟨[], bs.drop (F.bytes q).length, ?_, by simp, hP⟩
    exact eq_append_of_next h

theorem first_iff_of_next_not (h : F.next bs = some r) (hP : ¬ P r) {q : R} :
    F.First P bs q ↔ F.First P (bs.drop (F.bytes r).length) q := by
  constructor
  · rintro ⟨pre, rest, rfl, hpre, hq⟩
    cases pre with
    | nil =>
        rw [encode_nil, List.nil_append, next_append] at h
        obtain rfl := Option.some.inj h
        exact absurd hq hP
    | cons p pre =>
        rw [encode_cons, List.append_assoc, next_append] at h
        obtain rfl := Option.some.inj h
        refine ⟨pre, rest, ?_, fun x hx => hpre x (List.mem_cons_of_mem _ hx), hq⟩
        rw [encode_cons, List.append_assoc, List.drop_left]
  · rintro ⟨pre, rest, heq, hpre, hq⟩
    refine ⟨r :: pre, rest, ?_, ?_, hq⟩
    · rw [encode_cons, List.append_assoc, ← heq]
      exact eq_append_of_next h
    · intro x hx
      rcases List.mem_cons.mp hx with rfl | hx
      · exact hP
      · exact hpre x hx

theorem not_first_of_next_none (h : F.next bs = none) (q : R) : ¬ F.First P bs q := by
  rintro ⟨pre, rest, rfl, -, -⟩
  cases pre with
  | nil =>
      rw [encode_nil, List.nil_append, next_append] at h
      cases h
  | cons p pre =>
      rw [encode_cons, List.append_assoc, next_append] at h
      cases h

theorem First.unique {q : R} (h : F.First P bs r) (h' : F.First P bs q) : r = q := by
  obtain ⟨pre, rest, rfl, hpre, hr⟩ := h
  induction pre with
  | nil =>
      rw [encode_nil, List.nil_append] at h'
      exact ((first_iff_of_next (next_append r rest) hr).mp h').symm
  | cons p pre ih =>
      rw [encode_cons, List.append_assoc] at h'
      have hp : ¬ P p := hpre p (List.mem_cons_self ..)
      rw [first_iff_of_next_not (next_append p _) hp, List.drop_left] at h'
      exact ih h' fun x hx => hpre x (List.mem_cons_of_mem _ hx)

end Framing

end Ccr2004
