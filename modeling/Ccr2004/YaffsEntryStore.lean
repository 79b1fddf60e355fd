import Ccr2004.YaffsBlock

/-!
# The entries of a summary on the stack

`ScanBlockViaSummary` copies the entries of a summary to `EntryStore`, an
array for 64 of them, before it reads any other page. `entryStoreWrites` is
which words of the array the copy writes, whatever the array can hold; the
copy of the model stops with a fault at the first one outside
(`copyEntries_ok_iff`).

The only check on the geometry is that the entries fit a page. That admits
up to 168 of them, and 32-bit sizes that wrap; only an all-ones entry among
the first 65 keeps such a copy inside.
-/

namespace Ccr2004

/-- `EntryStore` has three words for each entry. -/
def entryStoreWords : Nat := 3 * yaffs2MaxPagesPerBlk

/-- The indices of `EntryStore` that `n` rounds of the copy write, from entry
`i` on. -/
def entryStoreWrites (page : PageData) : Nat → Nat → List Nat
  | 0, _ => []
  | n + 1, i =>
      if summaryEntryAt page i = .erased then []
      else [i * 3 + 0, i * 3 + 1, i * 3 + 2] ++ entryStoreWrites page n (i + 1)

/-- When the checks let the copy happen, it stays inside `EntryStore`. -/
def StoresInside (pagesPerBlock : UInt32) (page : PageData) : Prop :=
  ∀ seq, checkSummary pagesPerBlock page = .ok (some seq) →
    ∀ idx ∈ entryStoreWrites page (pagesPerBlock - 1).toNat 0, idx < entryStoreWords

/-- At most 64 entries, or an all-ones one among the first 65. -/
def EntriesFit (pagesPerBlock : UInt32) (page : PageData) : Prop :=
  (pagesPerBlock - 1).toNat ≤ 64 ∨ ∃ i ≤ 64, summaryEntryAt page i = .erased

/-! ## The indices -/

theorem mem_entryStoreWrites {page : PageData} {idx : Nat} (n i : Nat) :
    idx ∈ entryStoreWrites page n i ↔
      ∃ k < n, (∀ j ≤ k, summaryEntryAt page (i + j) ≠ .erased)
        ∧ (i + k) * 3 ≤ idx ∧ idx < (i + k) * 3 + 3 := by
  induction n generalizing i with
  | zero => simp [entryStoreWrites]
  | succ n ih =>
      rw [entryStoreWrites]
      split
      · rename_i herased
        refine iff_of_false List.not_mem_nil ?_
        rintro ⟨k, -, hlive, -⟩
        exact hlive 0 (Nat.zero_le k) herased
      · rename_i hlive
        rw [List.mem_append, ih]
        constructor
        · rintro (hmem | ⟨k, hk, hall, hlow, hhigh⟩)
          · refine ⟨0, Nat.succ_pos n, fun j hj => ?_, ?_⟩
            · rwa [Nat.le_zero.mp hj]
            · simp only [List.mem_cons, List.not_mem_nil, or_false] at hmem
              omega
          · refine ⟨k + 1, by omega, fun j hj => ?_, by omega, by omega⟩
            rcases j with _ | j
            · exact hlive
            · have := hall j (by omega)
              rwa [Nat.add_right_comm] at this
        · rintro ⟨k, hk, hall, hlow, hhigh⟩
          rcases k with _ | k
          · left
            simp only [List.mem_cons, List.not_mem_nil, or_false]
            omega
          · refine Or.inr ⟨k, by omega, fun j hj => ?_, by omega, by omega⟩
            have := hall (j + 1) (by omega)
            rwa [← Nat.add_assoc, Nat.add_right_comm] at this

/-- All indices are inside exactly when entry 64 is not reached. -/
theorem entryStoreWrites_inside_iff (page : PageData) (n : Nat) :
    (∀ idx ∈ entryStoreWrites page n 0, idx < entryStoreWords) ↔
      n ≤ 64 ∨ ∃ i ≤ 64, summaryEntryAt page i = .erased := by
  have hwords : entryStoreWords = 192 := rfl
  rw [hwords]
  constructor
  · intro h
    by_contra hover
    rw [not_or, Nat.not_le] at hover
    obtain ⟨hn, hnone⟩ := hover
    refine absurd (h 192 ((mem_entryStoreWrites n 0).mpr ⟨64, hn, fun j hj herased => ?_, ?_⟩))
      (Nat.lt_irrefl 192)
    · rw [Nat.zero_add] at herased
      exact hnone ⟨j, hj, herased⟩
    · omega
  · intro hfit idx hidx
    obtain ⟨k, hk, hall, -, hhigh⟩ := (mem_entryStoreWrites n 0).mp hidx
    rcases hfit with hn | ⟨i, hi, herased⟩
    · omega
    · have hlt : k < i := by
        by_contra hge
        have := hall i (by omega)
        rw [Nat.zero_add] at this
        exact this herased
      omega

/-! ## The copy -/

theorem loadSummaryEntry_ok {page : PageData} {i : Nat} (hi : i ≤ 64) :
    loadSummaryEntry page i = .ok (summaryEntryAt page i) := by
  have hbytes : pageBytes = 2048 := rfl
  rw [loadSummaryEntry, PageData.load32_eq_ok.mpr ⟨by omega, rfl⟩,
    PageData.load32_eq_ok.mpr ⟨by omega, rfl⟩, PageData.load32_eq_ok.mpr ⟨by omega, rfl⟩]
  rfl

theorem copyEntry_fits (page : PageData) {store : List SummaryEntry} (h : store.length ≤ 64) :
    copyEntry page store.length store =
      if summaryEntryAt page store.length = .erased then .ok (.exit store)
      else if store.length < 64 then .ok (.next (store ++ [summaryEntryAt page store.length]))
      else .error .outOfBounds := by
  rw [copyEntry, loadSummaryEntry_ok h]
  rfl

/-- The copy ends without a fault exactly when it writes inside the array. -/
theorem copyLoop_ok_iff (page : PageData) (n : Nat) (store : List SummaryEntry)
    (hlen : store.length ≤ 64) :
    (∃ r, forFrom (copyEntry page) n store.length store = .ok r) ↔
      ∀ idx ∈ entryStoreWrites page n store.length, idx < entryStoreWords := by
  have hwords : entryStoreWords = 192 := rfl
  induction n generalizing store with
  | zero => simp [entryStoreWrites]
  | succ n ih =>
      have hround := copyEntry_fits page hlen
      rw [entryStoreWrites]
      by_cases herased : summaryEntryAt page store.length = .erased
      · rw [if_pos herased] at hround ⊢
        refine iff_of_true ⟨_, forFrom_succ_exit hround⟩ (List.forall_mem_nil _)
      · rw [if_neg herased] at hround ⊢
        rw [List.forall_mem_append]
        rcases Nat.lt_or_eq_of_le hlen with hlt | heq
        · rw [if_pos hlt] at hround
          rw [forFrom_succ_next hround]
          have hstep := ih (store ++ [summaryEntryAt page store.length]) (by
            rw [List.length_append, List.length_singleton]
            omega)
          rw [List.length_append, List.length_singleton] at hstep
          refine hstep.trans (and_iff_right fun idx hidx => ?_).symm
          simp only [List.mem_cons, List.not_mem_nil, or_false] at hidx
          omega
        · rw [heq, if_neg (Nat.lt_irrefl 64)] at hround
          refine iff_of_false ?_ ?_
          · rintro ⟨r, hr⟩
            rw [heq, forFrom, hround] at hr
            cases hr
          · rintro ⟨hfirst, -⟩
            have := hfirst (store.length * 3 + 0) List.mem_cons_self
            omega

theorem copyEntries_ok_iff (pagesPerBlock : UInt32) (page : PageData) :
    (∃ entries, copyEntries pagesPerBlock page = .ok entries) ↔
      ∀ idx ∈ entryStoreWrites page (pagesPerBlock - 1).toNat 0, idx < entryStoreWords := by
  have hloop := copyLoop_ok_iff page (pagesPerBlock - 1).toNat [] (Nat.zero_le 64)
  rw [List.length_nil] at hloop
  rw [← hloop, copyEntries]
  constructor
  · rintro ⟨entries, h⟩
    obtain ⟨r, hr, -⟩ := bind_eq_ok.mp h
    exact ⟨r, hr⟩
  · rintro ⟨r, hr⟩
    exact ⟨r.state, by rw [hr]; rfl⟩

/-! ## The bound -/

/-- An accepted summary is copied inside the array exactly when its entries
fit. -/
theorem storesInside_iff (pagesPerBlock : UInt32) (page : PageData) :
    StoresInside pagesPerBlock page ↔
      ∀ seq, checkSummary pagesPerBlock page = .ok (some seq) → EntriesFit pagesPerBlock page :=
  forall₂_congr fun _ _ => entryStoreWrites_inside_iff page (pagesPerBlock - 1).toNat

/-- The summary of a block of 128 pages: one entry, and 126 of zeros. -/
def longSummary : PageData := fun i =>
  match i.val with
  | 0 => 1
  | 9 => 0x10
  | 12 => 1
  | 16 => 1
  | _ => 0

/-- It passes every check, and its copy writes up to the end of entry 126. -/
theorem not_storesInside_longSummary :
    checkSummary 128 longSummary = .ok (some 0x1000) ∧ ¬ StoresInside 128 longSummary := by
  have hcheck : checkSummary 128 longSummary = .ok (some 0x1000) := by decide +kernel
  refine ⟨hcheck, fun h => ?_⟩
  have hlive : ∀ i < 65, summaryEntryAt longSummary i ≠ .erased := by decide +kernel
  rcases (entryStoreWrites_inside_iff longSummary _).mp (h _ hcheck) with hle | ⟨i, hi, herased⟩
  · exact absurd hle (by decide)
  · exact hlive i (Nat.lt_succ_of_le hi) herased

end Ccr2004
