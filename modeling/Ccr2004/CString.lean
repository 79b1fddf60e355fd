import Ccr2004.Run

/-!
# Zero-terminated strings

A pointer into a buffer is the rest of the buffer from it on, so that
advancing it is `tail`, and reading through it at the end of the buffer is a
fault. `cString` is the string a pointer stands for, `strLen` its length. `strnCmp` compares two
of them up to a length and stops at a terminator; on a terminated string it
never leaves its buffers, and `strnCmp_spec` says what a zero result means;
`strCmp` compares two of them whole.
-/

namespace Ccr2004

/-- `*p`. -/
def loadByte : List UInt8 → Run UInt8
  | [] => .error .outOfBounds
  | c :: _ => .ok c

/-- `p[i]`. -/
def loadAt (p : List UInt8) (i : Nat) : Run UInt8 := loadByte (p.drop i)

@[simp] theorem loadByte_cons (c : UInt8) (p : List UInt8) : loadByte (c :: p) = .ok c := rfl

/-- The bytes before the terminator. -/
def cString (p : List UInt8) : List UInt8 := p.takeWhile (· ≠ 0)

/-- `strlen`. -/
def strLen : List UInt8 → Run Nat
  | [] => .error .outOfBounds
  | c :: p => if c = 0 then .ok 0 else do
      let n ← strLen p
      .ok (n + 1)

theorem cString_append_zero (s t : List UInt8) : cString (s ++ 0 :: t) = cString s := by
  induction s with
  | nil => rfl
  | cons c s ih =>
      rw [List.cons_append, cString, cString]
      by_cases hc : c = 0
      · simp [hc]
      · rw [List.takeWhile_cons_of_pos (by simpa using hc),
          List.takeWhile_cons_of_pos (by simpa using hc)]
        exact congrArg (c :: ·) ih

theorem strLen_eq : ∀ {p : List UInt8}, (0 : UInt8) ∈ p → strLen p = .ok (cString p).length
  | [], hp => by cases hp
  | c :: p, hp => by
      rw [strLen, cString]
      by_cases hc : c = 0
      · simp [hc]
      · have hp' : (0 : UInt8) ∈ p := (List.mem_cons.mp hp).resolve_left fun h => hc h.symm
        rw [if_neg hc, strLen_eq hp', ok_bind, List.takeWhile_cons_of_pos (by simpa using hc)]
        rfl

/-- `strncmp`: the difference of the first bytes that differ. -/
def strnCmp : List UInt8 → List UInt8 → Nat → Run Int
  | _, _, 0 => .ok 0
  | p, q, n + 1 => do
      let a ← loadByte p
      let b ← loadByte q
      if a ≠ 0 ∧ b ≠ 0 ∧ a = b ∧ n ≠ 0 then strnCmp p.tail q.tail n
      else .ok ((a.toNat : Int) - b.toNat)

theorem toNat_sub_eq_zero_iff (a b : UInt8) :
    ((a.toNat : Int) - b.toNat = 0) ↔ a = b := by
  rw [← UInt8.toNat_inj]
  omega

/-- `strcmp`. -/
def strCmp : List UInt8 → List UInt8 → Run Int
  | [], _ => .error .outOfBounds
  | a :: p, q => do
      let b ← loadByte q
      if a ≠ 0 ∧ a = b then strCmp p q.tail else .ok ((a.toNat : Int) - b.toNat)

/-- Two terminated strings compare equal when they are the same string. -/
theorem strCmp_spec :
    ∀ {s t : List UInt8}, (∀ c ∈ s, c ≠ 0) → (∀ c ∈ t, c ≠ 0) →
      ∃ v, strCmp (s ++ [0]) (t ++ [0]) = .ok v ∧ (v = 0 ↔ s = t)
  | [], [], _, _ => ⟨0, rfl, by simp⟩
  | [], b :: t, _, ht => by
      have hb : b ≠ 0 := ht b (List.mem_cons_self ..)
      refine ⟨((0 : UInt8).toNat : Int) - b.toNat, by simp [strCmp], ?_⟩
      rw [toNat_sub_eq_zero_iff]
      simp [hb.symm]
  | a :: s, [], hs, _ => by
      have ha : a ≠ 0 := hs a (List.mem_cons_self ..)
      refine ⟨(a.toNat : Int) - (0 : UInt8).toNat, by simp [strCmp], ?_⟩
      rw [toNat_sub_eq_zero_iff]
      simp [ha]
  | a :: s, b :: t, hs, ht => by
      have ha : a ≠ 0 := hs a (List.mem_cons_self ..)
      rw [List.cons_append, List.cons_append, strCmp, loadByte_cons, ok_bind]
      by_cases hab : a = b
      · obtain ⟨v, hrun, hv⟩ := strCmp_spec
          (fun c hc => hs c (List.mem_cons_of_mem _ hc))
          (fun c hc => ht c (List.mem_cons_of_mem _ hc))
        refine ⟨v, by rw [if_pos ⟨ha, hab⟩]; exact hrun, ?_⟩
        rw [hv, hab]
        simp
      · refine ⟨_, if_neg fun h => hab h.2, ?_⟩
        rw [toNat_sub_eq_zero_iff]
        simp [hab]

/-- A comparison with a string leaves the buffer exactly when what is left of
it is a prefix of the string, and finds equality when the string and its
terminator are there. -/
theorem strCmp_cases {t p : List UInt8} (ht : ∀ c ∈ t, c ≠ 0) :
    (p <+: t ∧ strCmp p (t ++ [0]) = .error .outOfBounds)
      ∨ (¬ p <+: t ∧ ∃ v, strCmp p (t ++ [0]) = .ok v ∧ (v = 0 ↔ t ++ [0] <+: p)) := by
  induction p generalizing t with
  | nil => exact .inl ⟨List.nil_prefix, rfl⟩
  | cons a p ih =>
      cases t with
      | nil =>
          refine .inr ⟨by simp, (a.toNat : Int) - (0 : UInt8).toNat, by simp [strCmp], ?_⟩
          rw [toNat_sub_eq_zero_iff, List.nil_append, List.cons_prefix_cons]
          exact ⟨fun h => ⟨h.symm, List.nil_prefix⟩, fun h => h.1.symm⟩
      | cons b t =>
          have hb : b ≠ 0 := ht b (List.mem_cons_self ..)
          rw [List.cons_append, strCmp, loadByte_cons, ok_bind, List.tail_cons,
            List.cons_prefix_cons, List.cons_prefix_cons]
          by_cases hab : a = b
          · rw [if_pos ⟨by rw [hab]; exact hb, hab⟩]
            rcases ih (fun c hc => ht c (List.mem_cons_of_mem _ hc)) with
              ⟨hpre, hrun⟩ | ⟨hpre, v, hrun, hv⟩
            · exact .inl ⟨⟨hab, hpre⟩, hrun⟩
            · refine .inr ⟨fun h => hpre h.2, v, hrun, ?_⟩
              rw [hv]
              exact ⟨fun h => ⟨hab.symm, h⟩, fun h => h.2⟩
          · rw [if_neg fun h => hab h.2]
            refine .inr ⟨fun h => hab h.1, _, rfl, ?_⟩
            rw [toNat_sub_eq_zero_iff]
            exact ⟨fun h => absurd h hab, fun h => absurd h.1.symm hab⟩

/-- A comparison with a string of the given length, in a buffer that is
terminated: it stays inside both and finds out whether one starts with the
other. -/
theorem strnCmp_spec (rest : List UInt8) :
    ∀ {s p : List UInt8}, (∀ c ∈ s, c ≠ 0) → (0 : UInt8) ∈ p →
      ∃ v, strnCmp p (s ++ rest) s.length = .ok v ∧ (v = 0 ↔ s <+: p)
  | [], p, _, _ => ⟨0, by simp [strnCmp], by simp⟩
  | _ :: _, [], _, hp => by cases hp
  | b :: s, a :: p, hs, hp => by
      have hb : b ≠ 0 := hs b (List.mem_cons_self ..)
      rw [List.length_cons, strnCmp]
      simp only [List.cons_append, loadByte_cons, ok_bind, List.tail_cons,
        List.cons_prefix_cons]
      by_cases hcont : a ≠ 0 ∧ b ≠ 0 ∧ a = b ∧ s.length ≠ 0
      · rw [if_pos hcont]
        obtain ⟨ha, -, rfl, -⟩ := hcont
        have hp' : (0 : UInt8) ∈ p :=
          (List.mem_cons.mp hp).resolve_left (fun h => ha h.symm)
        obtain ⟨v, hrun, hv⟩ := strnCmp_spec rest
          (fun c hc => hs c (List.mem_cons_of_mem _ hc)) hp'
        exact ⟨v, hrun, by rw [hv]; simp⟩
      · refine ⟨_, if_neg hcont, ?_⟩
        rw [toNat_sub_eq_zero_iff, eq_comm]
        constructor
        · rintro rfl
          have hnil : s = [] := by
            by_contra hne
            exact hcont ⟨hb, hb, rfl, fun h => hne (List.length_eq_zero_iff.mp h)⟩
          exact ⟨rfl, hnil ▸ List.nil_prefix⟩
        · exact fun h => h.1

/-- Whether a terminated buffer holds exactly the string `s`: it starts with
`s`, and the byte after that is there and is the terminator. -/
theorem cString_eq_iff {s p : List UInt8} (hs : ∀ c ∈ s, c ≠ 0) (hp : (0 : UInt8) ∈ p)
    (hpre : s <+: p) :
    ∃ c, loadAt p s.length = .ok c ∧ (c = 0 ↔ cString p = s) := by
  obtain ⟨t, rfl⟩ := hpre
  have hdrop : (s ++ t).drop s.length = t := List.drop_left
  cases t with
  | nil =>
      rw [List.append_nil] at hp
      exact absurd rfl (hs 0 hp)
  | cons c t =>
      refine ⟨c, by rw [loadAt, hdrop, loadByte_cons], ?_⟩
      have htake : cString (s ++ c :: t) = s ++ cString (c :: t) :=
        List.takeWhile_append_of_pos fun x hx => by simpa using hs x hx
      rw [htake]
      by_cases hc : c = 0
      · simp [hc, cString]
      · simp [hc, cString]

theorem prefix_of_cString_eq {s p : List UInt8} (h : cString p = s) : s <+: p := by
  rw [← h]
  exact List.takeWhile_prefix _

end Ccr2004
