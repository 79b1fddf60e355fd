import Mathlib.Data.List.Basic
import Mathlib.Tactic.Common

/-!
# Histories that are copied from

What a sliding-window decompressor has produced, newest element first:
distance 0 is the element before. `copies` repeats from a distance, element by
element, so that a copy may read what it has written itself.
-/

namespace Ccr2004

namespace Lz77

variable {α : Type}

/-- `n` more elements, each the one at distance `dist`. -/
def copies (dist : Nat) : Nat → List α → List α
  | 0, past => past
  | n + 1, past =>
      match past[dist]? with
      | none => past
      | some x => copies dist n (x :: past)

@[simp] theorem copies_zero (dist : Nat) (past : List α) : copies dist 0 past = past := rfl

theorem copies_succ {dist n : Nat} {past : List α} {x : α} (h : past[dist]? = some x) :
    copies dist (n + 1) past = copies dist n (x :: past) := by
  rw [copies, h]

theorem length_copies {dist n : Nat} {past : List α} (h : dist < past.length) :
    (copies dist n past).length = past.length + n := by
  induction n generalizing past with
  | zero => rfl
  | succ n ih =>
      rw [copies_succ (List.getElem?_eq_getElem h), ih (by rw [List.length_cons]; omega),
        List.length_cons]
      omega

theorem suffix_copies (dist n : Nat) (past : List α) : past <:+ copies dist n past := by
  induction n generalizing past with
  | zero => exact List.suffix_refl past
  | succ n ih =>
      rw [copies]
      cases past[dist]? with
      | none => exact List.suffix_refl past
      | some x => exact (List.suffix_cons x past).trans (ih (x :: past))

/-- A copy may stop and go on later. -/
theorem copies_add (dist n m : Nat) (past : List α) :
    copies dist (n + m) past = copies dist m (copies dist n past) := by
  induction n generalizing past with
  | zero => rw [Nat.zero_add, copies_zero]
  | succ n ih =>
      rw [show n + 1 + m = (n + m) + 1 by omega, copies, copies]
      cases hx : past[dist]? with
      | none =>
          cases m with
          | zero => rfl
          | succ m => rw [copies, hx]
      | some x => exact ih (x :: past)

end Lz77

end Ccr2004
