import Mathlib.Data.List.Basic

/-!
# Addressed memories

A memory is a function from addresses to cells. `read` and `write` move
lists of cells, and `SameOutside lo hi` is the frame condition: two
memories that differ at most on `[lo, hi)`. A cell after a write is either
the byte written there or the old one (`write_inside`, `write_outside`);
everything else here follows from these two. `copyUp` copies cell by cell: it
is right as long as it does not start inside its source (`copyUp_inside`), and
where it does it reads back what it wrote (`copyUp_overlap`).
-/

namespace Ccr2004

/-- A memory with cells of type `α`. -/
abbrev Memory (α : Type) := Nat → α

namespace Memory

variable {α : Type}

/-- The `n` cells from `a` on. -/
def read (m : Memory α) (a n : Nat) : List α :=
  (List.range n).map fun i => m (a + i)

/-- The memory with `bs` stored from `a` on. -/
def write (m : Memory α) (a : Nat) (bs : List α) : Memory α := fun x =>
  if h : a ≤ x ∧ x - a < bs.length then bs.get ⟨x - a, h.2⟩ else m x

/-- The memory with the cells of `[lo, hi)` replaced. -/
def fill (m : Memory α) (lo hi : Nat) (g : Nat → α) : Memory α := fun x =>
  if lo ≤ x ∧ x < hi then g x else m x

@[simp] theorem length_read (m : Memory α) (a n : Nat) :
    (m.read a n).length = n := by
  simp [read]

@[simp] theorem getElem_read (m : Memory α) (a n i : Nat)
    (h : i < (m.read a n).length) : (m.read a n)[i] = m (a + i) := by
  simp [read]

@[simp] theorem write_nil (m : Memory α) (a : Nat) : m.write a [] = m := by
  funext x
  simp [write]

theorem write_inside {m : Memory α} {a i : Nat} {bs : List α}
    (h : i < bs.length) : m.write a bs (a + i) = bs[i] := by
  have hin : a ≤ a + i ∧ a + i - a < bs.length := by omega
  rw [write, dif_pos hin]
  simp only [List.get_eq_getElem, Nat.add_sub_cancel_left]

theorem write_outside {m : Memory α} {a x : Nat} {bs : List α}
    (h : x < a ∨ a + bs.length ≤ x) : m.write a bs x = m x := by
  rw [write, dif_neg (by omega)]

theorem read_congr {m m' : Memory α} {a n : Nat}
    (h : ∀ i, i < n → m (a + i) = m' (a + i)) : m.read a n = m'.read a n := by
  apply List.ext_getElem (by simp)
  intro i hi _
  simp only [getElem_read]
  exact h i (by simpa using hi)

theorem read_append (m : Memory α) (a n k : Nat) :
    m.read a (n + k) = m.read a n ++ m.read (a + n) k := by
  simp [read, List.range_add, Nat.add_assoc]

theorem write_append (m : Memory α) (a : Nat) (bs cs : List α) :
    m.write a (bs ++ cs) = (m.write a bs).write (a + bs.length) cs := by
  funext x
  by_cases hx : x < a + bs.length
  · rw [write_outside (Or.inl hx)]
    by_cases ha : a ≤ x
    · obtain ⟨i, rfl⟩ := Nat.exists_eq_add_of_le ha
      rw [write_inside (by rw [List.length_append]; omega), write_inside (by omega),
        List.getElem_append_left]
    · rw [write_outside (by omega), write_outside (by omega)]
  · by_cases hc : x < a + bs.length + cs.length
    · obtain ⟨i, rfl⟩ := Nat.exists_eq_add_of_le (Nat.not_lt.mp hx)
      rw [write_inside (by omega), Nat.add_assoc,
        write_inside (by rw [List.length_append]; omega),
        List.getElem_append_right (by omega)]
      simp only [Nat.add_sub_cancel_left]
    · rw [write_outside (by rw [List.length_append]; omega), write_outside (by omega),
        write_outside (by omega)]

/-- Part of what was copied in reads as the same part of the source. -/
theorem read_write_read (m m' : Memory α) (a b : Nat) {n k l : Nat} (h : k + l ≤ n) :
    (m.write a (m'.read b n)).read (a + k) l = m'.read (b + k) l := by
  apply List.ext_getElem (by simp)
  intro i hi _
  have hl : i < l := by simpa using hi
  rw [getElem_read, getElem_read, Nat.add_assoc,
    write_inside (by rw [length_read]; omega), getElem_read, Nat.add_assoc]

/-- `m'` differs from `m` at most on `[lo, hi)`. -/
def SameOutside (lo hi : Nat) (m m' : Memory α) : Prop :=
  ∀ x, x < lo ∨ hi ≤ x → m' x = m x

namespace SameOutside

variable {lo hi lo' hi' : Nat} {m m' m'' : Memory α}

theorem refl (lo hi : Nat) (m : Memory α) : SameOutside lo hi m m := by
  intro x _
  rfl

theorem trans (h : SameOutside lo hi m m') (h' : SameOutside lo hi m' m'') :
    SameOutside lo hi m m'' := by
  intro x hx
  rw [h' x hx, h x hx]

theorem mono (h : SameOutside lo hi m m') (hlo : lo' ≤ lo) (hhi : hi ≤ hi') :
    SameOutside lo' hi' m m' := by
  intro x hx
  exact h x (by omega)

theorem read_eq (h : SameOutside lo hi m m') {a n : Nat}
    (ha : a + n ≤ lo ∨ hi ≤ a) : m'.read a n = m.read a n := by
  apply read_congr
  intro i hi
  exact h _ (by omega)

end SameOutside

theorem sameOutside_write (m : Memory α) (a : Nat) (bs : List α) :
    SameOutside a (a + bs.length) m (m.write a bs) := by
  intro x hx
  exact write_outside hx

/-! ## Several writes in a row -/

section Folds

variable {ι : Type} (a : ι → Nat) (bs : ι → List α)

theorem foldl_write_outside {x : Nat} :
    ∀ {l : List ι} {m : Memory α},
      (∀ s ∈ l, x < a s ∨ a s + (bs s).length ≤ x) →
      l.foldl (fun m s => m.write (a s) (bs s)) m x = m x
  | [], _, _ => rfl
  | s :: l, m, h => by
      rw [List.foldl_cons,
        foldl_write_outside (fun t ht => h t (List.mem_cons_of_mem s ht)),
        write_outside (h s (List.mem_cons_self ..))]

/-- The last write over a cell wins. -/
theorem foldl_write_last {pre post : List ι} {s : ι} {m : Memory α} {k : Nat}
    (hk : k < (bs s).length)
    (h : ∀ t ∈ post, a s + k < a t ∨ a t + (bs t).length ≤ a s + k) :
    (pre ++ s :: post).foldl (fun m s => m.write (a s) (bs s)) m (a s + k) =
      (bs s)[k] := by
  rw [List.foldl_append, List.foldl_cons, foldl_write_outside a bs h, write_inside hk]

end Folds

/-! ## Copying upwards -/

/-- `n` cells copied one by one, from the lowest on. -/
def copyUp : Nat → Memory α → Nat → Nat → Memory α
  | 0, m, _, _ => m
  | n + 1, m, src, dst => copyUp n (m.write dst [m src]) (src + 1) (dst + 1)

theorem write_one (m : Memory α) (a : Nat) (c : α) : m.write a [c] a = c := by
  simp [write]

theorem sameOutside_copyUp (n : Nat) (m : Memory α) (src dst : Nat) :
    SameOutside dst (dst + n) m (copyUp n m src dst) := by
  induction n generalizing m src dst with
  | zero => exact .refl _ _ m
  | succ n ih =>
      have hone : SameOutside dst (dst + (n + 1)) m (m.write dst [m src]) :=
        (sameOutside_write m dst [m src]).mono (Nat.le_refl _)
          (by rw [List.length_singleton]; omega)
      exact hone.trans ((ih _ (src + 1) (dst + 1)).mono (by omega) (by omega))

theorem copyUp_add (n k : Nat) (m : Memory α) (src dst : Nat) :
    copyUp (n + k) m src dst = copyUp k (copyUp n m src dst) (src + n) (dst + n) := by
  induction n generalizing m src dst with
  | zero => simp [copyUp]
  | succ n ih =>
      rw [Nat.succ_add, copyUp, ih, copyUp, Nat.succ_add_eq_add_succ, Nat.succ_add_eq_add_succ]

/-- The copy is right unless it starts inside its source. -/
theorem copyUp_inside {n i : Nat} (m : Memory α) {src dst : Nat}
    (h : dst ≤ src ∨ src + n ≤ dst) (hi : i < n) :
    copyUp n m src dst (dst + i) = m (src + i) := by
  induction n generalizing m src dst i with
  | zero => omega
  | succ n ih =>
      rw [copyUp]
      cases i with
      | zero =>
          rw [sameOutside_copyUp n _ (src + 1) (dst + 1) _ (Or.inl (by omega))]
          exact write_one m dst (m src)
      | succ i =>
          rw [Nat.add_comm i 1, ← Nat.add_assoc, ← Nat.add_assoc, ih _ (by omega) (by omega)]
          exact write_outside (by rw [List.length_singleton]; omega)

/-- Where it starts inside its source, it reads what it has written. -/
theorem copyUp_overlap {n : Nat} (m : Memory α) {src dst : Nat} (hlo : src < dst)
    (hhi : dst < src + n) : copyUp n m src dst (dst + (dst - src)) = m src := by
  obtain ⟨k, rfl⟩ := Nat.exists_eq_add_of_lt hlo
  obtain ⟨l, rfl⟩ := Nat.exists_eq_add_of_lt (show k + 1 < n by omega)
  rw [show k + 1 + l + 1 = (k + 1) + (1 + l) by omega, copyUp_add, copyUp_add]
  rw [sameOutside_copyUp l _ _ _ _ (Or.inl (by omega))]
  have hsecond : copyUp (k + 1) m src (src + k + 1) (src + k + 1) = m src := by
    rw [copyUp, sameOutside_copyUp k _ _ _ _ (Or.inl (by omega))]
    exact write_one m _ _
  rw [show src + k + 1 + (src + k + 1 - src) = src + k + 1 + (k + 1) by omega, copyUp, copyUp,
    write_one]
  exact hsecond

theorem fill_inside {m : Memory α} {lo hi x : Nat} {g : Nat → α}
    (h : lo ≤ x ∧ x < hi) : m.fill lo hi g x = g x :=
  if_pos h

theorem sameOutside_fill (m : Memory α) (lo hi : Nat) (g : Nat → α) :
    SameOutside lo hi m (m.fill lo hi g) := by
  intro x hx
  exact if_neg (by omega)

end Memory

end Ccr2004
