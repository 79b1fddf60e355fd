import Mathlib.Data.List.MinMax
import Mathlib.Data.List.Perm.Basic

/-!
# Keyed registers that keep the newest version

Versions `a` carry a key `key a`, if any, and a stamp `stamp a` in a linear
order. `winner l k` is the version of `k` with the greatest stamp among
`l`: what a register ends with when the versions arrive in the order of `l`
and each replaces an older one (`winner_concat_self`). When no two versions
share a stamp the winner is determined by the set of versions
(`winner_eq_some_iff`), so the order of arrival does not matter
(`winner_perm`).
-/

namespace Ccr2004

namespace Newest

variable {α β κ : Type} [LinearOrder β] [DecidableEq κ]
variable (key : α → Option κ) (stamp : α → β)

/-- The versions of a key, in order of arrival. -/
def versions (l : List α) (k : κ) : List α :=
  l.filter fun a => key a = some k

/-- The version of a key with the greatest stamp. -/
def winner (l : List α) (k : κ) : Option α :=
  (versions key l k).argmax stamp

/-- What a register holds after a version arrives. -/
def supersede (cur : Option α) (a : α) : α :=
  match cur with
  | none => a
  | some c => if stamp c < stamp a then a else c

variable {key stamp} {l : List α} {a : α} {k : κ}

theorem mem_versions : a ∈ versions key l k ↔ a ∈ l ∧ key a = some k := by
  simp [versions]

theorem versions_concat_self (h : key a = some k) :
    versions key (l ++ [a]) k = versions key l k ++ [a] := by
  simp [versions, h]

theorem versions_concat_ne (h : key a ≠ some k) :
    versions key (l ++ [a]) k = versions key l k := by
  simp [versions, h]

@[simp] theorem winner_nil : winner key stamp [] k = none := rfl

theorem winner_concat_self (h : key a = some k) :
    winner key stamp (l ++ [a]) k
      = some (supersede stamp (winner key stamp l k) a) := by
  unfold winner
  rw [versions_concat_self h, List.argmax_concat]
  cases (versions key l k).argmax stamp with
  | none => rfl
  | some c => simp only [supersede]; split <;> rfl

theorem winner_concat_ne (h : key a ≠ some k) :
    winner key stamp (l ++ [a]) k = winner key stamp l k := by
  unfold winner
  rw [versions_concat_ne h]

theorem winner_mem (h : winner key stamp l k = some a) : a ∈ l ∧ key a = some k :=
  mem_versions.mp (List.argmax_mem h)

theorem winner_eq_none_iff :
    winner key stamp l k = none ↔ ∀ a ∈ l, key a ≠ some k := by
  simp [winner, versions, List.argmax_eq_none, List.filter_eq_nil_iff]

/-- With distinct stamps the winner is the one version of the key that none
exceeds. -/
theorem winner_eq_some_iff (hinj : ∀ x ∈ l, ∀ y ∈ l, stamp x = stamp y → x = y) :
    winner key stamp l k = some a ↔
      a ∈ l ∧ key a = some k ∧ ∀ b ∈ l, key b = some k → stamp b ≤ stamp a := by
  constructor
  · intro h
    obtain ⟨hmem, hkey⟩ := winner_mem h
    exact ⟨hmem, hkey, fun b hb hkb =>
      List.le_of_mem_argmax (mem_versions.mpr ⟨hb, hkb⟩) h⟩
  · rintro ⟨hmem, hkey, hmax⟩
    cases hw : winner key stamp l k with
    | none => exact absurd hkey (winner_eq_none_iff.mp hw a hmem)
    | some c =>
        obtain ⟨hc, hkc⟩ := winner_mem hw
        have hle : stamp a ≤ stamp c :=
          List.le_of_mem_argmax (mem_versions.mpr ⟨hmem, hkey⟩) hw
        rw [hinj c hc a hmem (le_antisymm (hmax c hc hkc) hle)]

/-- The order of arrival does not matter. -/
theorem winner_perm {l' : List α} (hperm : l'.Perm l)
    (hinj : ∀ x ∈ l, ∀ y ∈ l, stamp x = stamp y → x = y) (k : κ) :
    winner key stamp l' k = winner key stamp l k := by
  have hinj' : ∀ x ∈ l', ∀ y ∈ l', stamp x = stamp y → x = y := fun x hx y hy =>
    hinj x (hperm.mem_iff.mp hx) y (hperm.mem_iff.mp hy)
  refine Option.ext fun a => ?_
  rw [winner_eq_some_iff hinj, winner_eq_some_iff hinj']
  simp only [hperm.mem_iff]

end Newest

end Ccr2004
