import Mathlib.Data.Fintype.Pigeonhole
import Mathlib.Data.List.Count
import Mathlib.Algebra.BigOperators.Group.List.Basic
import Mathlib.Algebra.GroupWithZero.Nat

/-!
# Parent maps and the trees they draw

A partial function `up : α → Option α` is a set of parent pointers. With no
cycle on a finite type every chain of pointers ends (`climb_ends`). When the
child lists `kids` are the pointers read backwards, without repetition, the
depth-first walk from a node meets each node below it exactly once
(`count_walk`).
-/

namespace Ccr2004

namespace Forest

variable {α : Type} (up : α → Option α)

/-- The node `n` pointers above `x`. -/
def climb : Nat → α → Option α
  | 0, x => some x
  | n + 1, x => (up x).bind (climb n)

@[simp] theorem climb_zero (x : α) : climb up 0 x = some x := rfl

theorem climb_succ (n : Nat) (x : α) :
    climb up (n + 1) x = (up x).bind (climb up n) := rfl

theorem climb_one (x : α) : climb up 1 x = up x := by
  rw [climb_succ]
  cases up x <;> rfl

theorem climb_add : ∀ (m n : Nat) (x : α),
    climb up (m + n) x = (climb up m x).bind (climb up n)
  | 0, n, x => by rw [Nat.zero_add]; rfl
  | m + 1, n, x => by
      rw [show m + 1 + n = (m + n) + 1 by omega, climb_succ, climb_succ]
      cases up x with
      | none => rfl
      | some y => exact climb_add m n y

/-- The last pointer of a chain. -/
theorem climb_succ_eq_some {n : Nat} {x y : α} :
    climb up (n + 1) x = some y ↔ ∃ z, climb up n x = some z ∧ up z = some y := by
  rw [climb_add, Option.bind_eq_some_iff]
  simp only [climb_one]

theorem climb_none_mono {m n : Nat} {x : α} (hmn : m ≤ n)
    (h : climb up m x = none) : climb up n x = none := by
  obtain ⟨k, rfl⟩ := Nat.exists_eq_add_of_le hmn
  rw [climb_add, h]; rfl

/-- No node is above itself. -/
def Acyclic : Prop := ∀ n x, climb up (n + 1) x ≠ some x

variable {up}

/-- On a finite type a chain without a cycle ends. -/
theorem climb_ends [Finite α] (hac : Acyclic up) (x : α) :
    ∃ n, climb up n x = none := by
  by_contra hnever
  have hsome : ∀ n, ∃ y, climb up n x = some y := fun n =>
    Option.ne_none_iff_exists'.mp fun h => hnever ⟨n, h⟩
  choose node hnode using hsome
  obtain ⟨m, n, hne, heq⟩ := Finite.exists_ne_map_eq_of_infinite node
  -- two visits to one node are a cycle through it
  wlog hlt : m < n generalizing m n
  · exact this n m hne.symm heq.symm (by omega)
  refine hac (n - m - 1) (node m) ?_
  have hsplit := climb_add up m (n - m) x
  rw [show m + (n - m) = n by omega, hnode n, hnode m, Option.bind_some,
    ← heq] at hsplit
  rw [show n - m - 1 + 1 = n - m by omega]
  exact hsplit.symm

/-- A cycle never ends. -/
theorem cycle_never_ends {n : Nat} {x : α} (hcycle : climb up (n + 1) x = some x)
    (m : Nat) : climb up m x ≠ none := by
  have hround : ∀ k, climb up (k * (n + 1)) x = some x := by
    intro k
    induction k with
    | zero => rw [Nat.zero_mul]; rfl
    | succ k ih => rw [Nat.succ_mul, climb_add, ih, Option.bind_some, hcycle]
  intro hm
  have hnone := climb_none_mono up (Nat.le_mul_of_pos_right m n.succ_pos) hm
  rw [hround m] at hnone
  cases hnone

/-- Pointers along which every chain ends have no cycle. -/
theorem acyclic_of_ends (hends : ∀ x, ∃ n, climb up n x = none) : Acyclic up := by
  intro n x hcycle
  obtain ⟨m, hm⟩ := hends x
  exact cycle_never_ends hcycle m hm

/-- On a cycle every node has a pointer, so pointers to nodes without one do
not count. -/
theorem acyclic_of_inner {up' : α → Option α}
    (hinner : ∀ x y, up x = some y → up y ≠ none → up' x = some y) (hac : Acyclic up') :
    Acyclic up := by
  intro n x hcycle
  have hclimb : ∀ k y, climb up k x = some y → climb up' k x = some y := by
    intro k
    induction k with
    | zero => exact fun _ h => h
    | succ k ih =>
        intro y hy
        obtain ⟨z, hz, hzy⟩ := (climb_succ_eq_some up).mp hy
        refine (climb_succ_eq_some up').mpr ⟨z, ih z hz, hinner z y hzy fun hnone => ?_⟩
        refine cycle_never_ends hcycle (k + 1 + 1) ?_
        rw [climb_add, hy, Option.bind_some, climb_one, hnone]
  exact hac n x (hclimb (n + 1) x hcycle)

/-- So it ends at a node without a pointer. -/
theorem exists_top [Finite α] (hac : Acyclic up) (x : α) :
    ∃ n y, climb up n x = some y ∧ up y = none := by
  obtain ⟨n, hn⟩ := climb_ends hac x
  induction n with
  | zero => cases hn
  | succ n ih =>
      cases hz : climb up n x with
      | none => exact ih hz
      | some y =>
          refine ⟨n, y, hz, ?_⟩
          rw [climb_add, hz, Option.bind_some, climb_one] at hn
          exact hn

/-- Under acyclicity a node is above another at one height only. -/
theorem climb_height_unique (hac : Acyclic up) {m n : Nat} {x y : α}
    (hm : climb up m x = some y) (hn : climb up n x = some y) : m = n := by
  wlog hle : m ≤ n generalizing m n
  · exact (this hn hm (by omega)).symm
  by_contra hne
  have hsplit := climb_add up m (n - m) x
  rw [show m + (n - m) = n by omega, hn, hm, Option.bind_some] at hsplit
  refine hac (n - m - 1) y ?_
  rw [show n - m - 1 + 1 = n - m by omega]
  exact hsplit.symm

/-! ## Walking down -/

/-- The depth-first walk through child lists, `n` levels deep. -/
def walk (kids : α → List α) : Nat → α → List α
  | 0, x => [x]
  | n + 1, x => x :: (kids x).flatMap (walk kids n)

variable [DecidableEq α] {kids : α → List α}

theorem sum_map_indicator (c : α) : ∀ l : List α,
    (l.map fun d => if d = c then 1 else 0).sum = l.count c
  | [] => rfl
  | d :: l => by
      rw [List.map_cons, List.sum_cons, sum_map_indicator c l, List.count_cons]
      by_cases h : d = c
      · simp [h, Nat.add_comm]
      · simp [h]

/-- A node that is not above `x` within `n` pointers does not meet it on a
walk of `n` levels. -/
theorem count_walk_eq_zero (hkids : ∀ p c, c ∈ kids p → up c = some p) :
    ∀ {n : Nat} {x y : α}, (∀ k ≤ n, climb up k x ≠ some y) →
      (walk kids n y).count x = 0
  | 0, x, y, h => by
      have hxy : x ≠ y := fun hxy => h 0 (Nat.le_refl 0) (by rw [hxy]; rfl)
      simp [walk, hxy.symm]
  | n + 1, x, y, h => by
      have hxy : x ≠ y := fun hxy => h 0 (Nat.zero_le _) (by rw [hxy]; rfl)
      rw [walk, List.count_cons_of_ne hxy.symm, List.count_flatMap,
        List.sum_eq_zero_iff_forall_eq_nat]
      intro m hm
      obtain ⟨c, hc, rfl⟩ := List.mem_map.mp hm
      refine count_walk_eq_zero hkids fun k hk hclimb => ?_
      exact h (k + 1) (by omega)
        ((climb_succ_eq_some up).mpr ⟨c, hclimb, hkids y c hc⟩)

/-- The walk meets every node below its start exactly once. -/
theorem count_walk (hac : Acyclic up)
    (hkids : ∀ p c, (kids p).count c = if up c = some p then 1 else 0) :
    ∀ {n k : Nat} {x y : α}, k ≤ n → climb up k x = some y →
      (walk kids n y).count x = 1 := by
  have hmem : ∀ p c, c ∈ kids p → up c = some p := by
    intro p c hc
    by_contra hne
    have hcount := hkids p c
    rw [if_neg hne, List.count_eq_zero] at hcount
    exact hcount hc
  intro n
  induction n with
  | zero =>
      intro k x y hk hclimb
      obtain rfl := Nat.le_zero.mp hk
      obtain rfl := Option.some.inj hclimb
      simp [walk]
  | succ n ih =>
      intro k x y hk hclimb
      cases k with
      | zero =>
          obtain rfl := Option.some.inj hclimb
          rw [walk, List.count_cons_self, List.count_flatMap]
          have hrest : ((kids x).map (List.count x ∘ walk kids n)).sum = 0 := by
            rw [List.sum_eq_zero_iff_forall_eq_nat]
            intro m hm
            obtain ⟨c, hc, rfl⟩ := List.mem_map.mp hm
            refine count_walk_eq_zero hmem fun j _ hj => ?_
            exact hac j x ((climb_succ_eq_some up).mpr ⟨c, hj, hmem x c hc⟩)
          omega
      | succ k =>
          have hxy : x ≠ y := fun hxy => hac k x (by rw [hclimb, hxy])
          obtain ⟨z, hz, hup⟩ := (climb_succ_eq_some up).mp hclimb
          rw [walk, List.count_cons_of_ne hxy.symm, List.count_flatMap]
          -- only the child on the chain from `x` meets it
          have heach : (kids y).map (List.count x ∘ walk kids n)
              = (kids y).map fun d => if d = z then 1 else 0 := by
            refine List.map_congr_left fun d hd => ?_
            rw [Function.comp_apply]
            split
            · rename_i hdz
              rw [hdz]
              exact ih (by omega) hz
            · rename_i hdz
              refine count_walk_eq_zero hmem fun j _ hj => hdz ?_
              have habove : climb up (j + 1) x = some y :=
                (climb_succ_eq_some up).mpr ⟨d, hj, hmem y d hd⟩
              obtain rfl : j = k := by
                have := climb_height_unique hac habove hclimb
                omega
              exact Option.some.inj (hj.symm.trans hz)
          rw [heach, sum_map_indicator, hkids, if_pos hup]

end Forest

end Ccr2004
