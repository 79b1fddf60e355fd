import Ccr2004.FlashApp
import Mathlib.Data.Nat.Digits.Lemmas

/-!
# The offset argument

`HexStrToUintn` reads the offset that raw mode erases at. `hexRun` is what a
reader takes for the number: the longest run of hexadecimal digits after an
optional `0x`. The loop shifts before it looks at the character, so a
character that ends the number early counts as one more digit
(`hexDigits_run`); a NUL does not.

Shifting the value of the run once more changes it unless it is 0 modulo
2^64, which is a condition on the last sixteen digits (`hexValue_mod_eq_zero`).
-/

namespace Ccr2004

/-! ## The number in a string -/

def isHexDigit (c : UInt16) : Bool := (Spi.hexDigit c).isSome

/-- What follows an optional `0x` or `0X`. -/
def hexBody : List UInt16 → List UInt16
  | c₀ :: c₁ :: rest =>
      if c₀ = 0x30 ∧ (c₁ = 0x78 ∨ c₁ = 0x58) then rest else c₀ :: c₁ :: rest
  | str => str

/-- The digits of the number. -/
def hexRun (str : List UInt16) : List UInt16 := (hexBody str).takeWhile isHexDigit

/-- What is left after the number. -/
def hexRest (str : List UInt16) : List UInt16 := (hexBody str).dropWhile isHexDigit

/-- What a digit stands for. -/
def digitValue (c : UInt16) : Nat := ((Spi.hexDigit c).getD 0).toNat

/-- The number some digits stand for, the first the most significant. -/
def hexValue (digits : List UInt16) : Nat := Nat.ofDigits 16 (digits.map digitValue).reverse

/-- The number is all of the string. -/
def EndsAfterRun (str : List UInt16) : Prop :=
  (hexRest str).head? = none ∨ (hexRest str).head? = some 0

instance : DecidablePred EndsAfterRun := fun _ => inferInstanceAs (Decidable (_ ∨ _))

/-- The last sixteen digits of the number, all of them when there are fewer,
are zeros. -/
def RunEndsInZeros (str : List UInt16) : Prop :=
  ∀ c ∈ (hexRun str).reverse.take 16, c = 0x30

/-- The value returned is that of the number. -/
def ReadsNumber (str : List UInt16) : Prop :=
  (Spi.hexStrToUintn str).toNat = hexValue (hexRun str) % 2 ^ 64

/-! ## Digits -/

/-- The three ranges of digits. -/
theorem hexDigit_cases {c : UInt16} {d : UInt64} (h : Spi.hexDigit c = some d) :
    (0x30 ≤ c.toNat ∧ c.toNat ≤ 0x39 ∧ d.toNat = c.toNat - 0x30)
      ∨ (0x61 ≤ c.toNat ∧ c.toNat ≤ 0x66 ∧ d.toNat = c.toNat - 0x61 + 10)
      ∨ (0x41 ≤ c.toNat ∧ c.toNat ≤ 0x46 ∧ d.toNat = c.toNat - 0x41 + 10) := by
  simp only [Spi.hexDigit, UInt16.le_iff_toNat_le, UInt16.reduceToNat] at h
  split at h
  · rename_i hrange
    obtain rfl := Option.some.inj h
    rw [UInt16.toNat_toUInt64, UInt16.toNat_sub]
    simp only [UInt16.reduceToNat]
    omega
  · split at h
    · rename_i hrange
      obtain rfl := Option.some.inj h
      rw [UInt16.toNat_toUInt64, UInt16.toNat_add, UInt16.toNat_sub]
      simp only [UInt16.reduceToNat]
      omega
    · split at h
      · rename_i hrange
        obtain rfl := Option.some.inj h
        rw [UInt16.toNat_toUInt64, UInt16.toNat_add, UInt16.toNat_sub]
        simp only [UInt16.reduceToNat]
        omega
      · cases h

theorem isHexDigit_iff {c : UInt16} :
    isHexDigit c = true ↔ ∃ d, Spi.hexDigit c = some d ∧ d.toNat = digitValue c := by
  rw [isHexDigit, Option.isSome_iff_exists]
  constructor
  · rintro ⟨d, hd⟩
    exact ⟨d, hd, by rw [digitValue, hd]; rfl⟩
  · rintro ⟨d, hd, -⟩
    exact ⟨d, hd⟩

theorem digitValue_lt (c : UInt16) : digitValue c < 16 := by
  rw [digitValue]
  rcases hd : Spi.hexDigit c with _ | d
  · decide
  · show d.toNat < 16
    rcases hexDigit_cases hd with h | h | h <;> omega

theorem digitValue_eq_zero_iff {c : UInt16} (h : isHexDigit c = true) :
    digitValue c = 0 ↔ c = 0x30 := by
  obtain ⟨d, hd, hval⟩ := isHexDigit_iff.mp h
  rw [← hval, ← UInt16.toNat_inj, show (0x30 : UInt16).toNat = 0x30 from rfl]
  rcases hexDigit_cases hd with h | h | h <;> omega

/-! ## The loop -/

theorem toNat_shift (val : UInt64) : (val <<< 4).toNat = val.toNat * 16 % 2 ^ 64 := by
  rw [UInt64.toNat_shiftLeft, Nat.shiftLeft_eq]
  rfl

theorem toNat_shift_or {val d : UInt64} (hd : d.toNat < 16) :
    (val <<< 4 ||| d).toNat = (val.toNat * 16 + d.toNat) % 2 ^ 64 := by
  have hmul : val.toNat * 16 % 2 ^ 64 = val.toNat % 2 ^ 60 * 2 ^ 4 :=
    Nat.mul_mod_mul_right 16 val.toNat (2 ^ 60)
  have hlow : val.toNat % 2 ^ 60 * 2 ^ 4 + d.toNat < 2 ^ 64 := by
    have hmod := Nat.mod_lt val.toNat (show 2 ^ 60 > 0 from Nat.two_pow_pos 60)
    omega
  rw [UInt64.toNat_or, toNat_shift, hmul, ← Nat.shiftLeft_eq,
    ← Nat.shiftLeft_add_eq_or_of_lt (show d.toNat < 2 ^ 4 from hd), Nat.shiftLeft_eq,
    ← Nat.mod_eq_of_lt hlow, ← hmul, Nat.mod_add_mod]

/-- Modulo an `m` prime to 15, 0 is the only residue that 16 fixes. -/
theorem mul_sixteen_mod_eq_self_iff {m v : Nat} (hm : Nat.Coprime m 15) (hv : v < m) :
    v * 16 % m = v ↔ v = 0 := by
  constructor
  · intro h
    have hsub : m ∣ v * 16 - v := (Nat.modEq_iff_dvd' (by omega)).mp (by
      rw [Nat.ModEq, h, Nat.mod_eq_of_lt hv])
    rw [show v * 16 - v = 15 * v by omega] at hsub
    exact Nat.eq_zero_of_dvd_of_lt (hm.dvd_of_dvd_mul_left hsub) hv
  · rintro rfl
    exact Nat.zero_mod m

theorem shift_eq_self_iff (val : UInt64) : (val <<< 4).toNat = val.toNat ↔ val.toNat = 0 := by
  rw [toNat_shift]
  exact mul_sixteen_mod_eq_self_iff (Nat.Coprime.pow_left 64 (by decide)) val.toNat_lt

theorem hexValue_cons (c : UInt16) (digits : List UInt16) :
    hexValue (c :: digits) = digitValue c * 16 ^ digits.length + hexValue digits := by
  rw [hexValue, List.map_cons, List.reverse_cons, Nat.ofDigits_append, List.length_reverse,
    List.length_map, Nat.ofDigits_singleton, hexValue, Nat.mul_comm, Nat.add_comm]

/-- The loop over a number and what follows it: shifted once more when that
is not the end. -/
theorem hexDigits_run (str : List UInt16) (val : UInt64) :
    ∃ v : UInt64,
      v.toNat = (val.toNat * 16 ^ (str.takeWhile isHexDigit).length
          + hexValue (str.takeWhile isHexDigit)) % 2 ^ 64
        ∧ Spi.hexDigits val str =
          if (str.dropWhile isHexDigit).head? = none ∨ (str.dropWhile isHexDigit).head? = some 0
          then v else v <<< 4 := by
  induction str generalizing val with
  | nil =>
      refine ⟨val, ?_, rfl⟩
      rw [List.takeWhile_nil, List.length_nil, Nat.pow_zero, Nat.mul_one, hexValue]
      exact (Nat.mod_eq_of_lt val.toNat_lt).symm
  | cons c str ih =>
      by_cases hc : isHexDigit c = true
      · obtain ⟨d, hd, hval⟩ := isHexDigit_iff.mp hc
        have hne : c ≠ 0 := by
          rintro rfl
          cases hd
        obtain ⟨v, hv, hrun⟩ := ih (val <<< 4 ||| d)
        refine ⟨v, ?_, ?_⟩
        · rw [hv, toNat_shift_or (hval ▸ digitValue_lt c), List.takeWhile_cons_of_pos hc,
            List.length_cons, hexValue_cons, hval, Nat.pow_succ, ← Nat.mod_add_mod,
            Nat.mod_mul_mod, Nat.mod_add_mod]
          congr 1
          ring
        · rw [Spi.hexDigits, if_neg hne, hd, List.dropWhile_cons_of_pos hc]
          exact hrun
      · rw [List.takeWhile_cons_of_neg hc, List.dropWhile_cons_of_neg hc, List.head?_cons]
        refine ⟨val, ?_, ?_⟩
        · rw [List.length_nil, Nat.pow_zero, Nat.mul_one]
          exact (Nat.mod_eq_of_lt val.toNat_lt).symm
        · have hnone : Spi.hexDigit c = none := by
            simpa [isHexDigit] using hc
          rw [Spi.hexDigits, hnone]
          simp

/-! ## The value of the run -/

/-- A number is 0 modulo 16^k exactly when its last `k` digits are. -/
theorem ofDigits_mod_eq_zero_iff {k : Nat} {digits : List Nat} (h : ∀ d ∈ digits, d < 16) :
    Nat.ofDigits 16 digits % 16 ^ k = 0 ↔ ∀ d ∈ digits.take k, d = 0 := by
  rw [Nat.ofDigits_mod_pow_eq_ofDigits_take k (by decide) digits h]
  have hsmall : ∀ d ∈ digits.take k, d < 16 := fun d hd => h d (List.mem_of_mem_take hd)
  generalize digits.take k = low at hsmall
  induction low with
  | nil => simp
  | cons d low ih =>
      rw [List.forall_mem_cons] at hsmall
      rw [Nat.ofDigits_cons, List.forall_mem_cons]
      simp [ih hsmall.2]

theorem hexValue_mod_eq_zero_iff {digits : List UInt16}
    (h : ∀ c ∈ digits, isHexDigit c = true) :
    hexValue digits % 2 ^ 64 = 0 ↔ ∀ c ∈ digits.reverse.take 16, c = 0x30 := by
  have hlt : ∀ d ∈ (digits.map digitValue).reverse, d < 16 := by
    intro d hd
    obtain ⟨c, -, rfl⟩ := List.mem_map.mp (List.mem_reverse.mp hd)
    exact digitValue_lt c
  rw [hexValue, show (2 : Nat) ^ 64 = 16 ^ 16 by norm_num, ofDigits_mod_eq_zero_iff hlt,
    ← List.map_reverse, ← List.map_take, List.forall_mem_map]
  refine forall₂_congr fun c hc => digitValue_eq_zero_iff ?_
  exact h c (List.mem_reverse.mp (List.mem_of_mem_take hc))

/-- The value returned is that of the number exactly when the string ends
with it, or when one more digit would not change it. -/
theorem readsNumber_iff (str : List UInt16) :
    ReadsNumber str ↔ EndsAfterRun str ∨ RunEndsInZeros str := by
  have hbody : Spi.hexStrToUintn str = Spi.hexDigits 0 (hexBody str) := by
    rcases str with _ | ⟨c₀, _ | ⟨c₁, rest⟩⟩
    · rfl
    · rfl
    · rw [Spi.hexStrToUintn, hexBody]
      split <;> rfl
  have hdigits : ∀ c ∈ hexRun str, isHexDigit c = true := fun c hc =>
    List.all_eq_true.mp (List.all_takeWhile (l := hexBody str)) c hc
  obtain ⟨v, hv, hrun⟩ := hexDigits_run (hexBody str) 0
  rw [show (0 : UInt64).toNat = 0 from rfl, Nat.zero_mul, Nat.zero_add] at hv
  change v.toNat = hexValue (hexRun str) % 2 ^ 64 at hv
  change _ = if EndsAfterRun str then v else v <<< 4 at hrun
  rw [ReadsNumber, hbody, hrun, RunEndsInZeros, ← hexValue_mod_eq_zero_iff hdigits]
  by_cases hend : EndsAfterRun str
  · rw [if_pos hend]
    exact iff_of_true hv (Or.inl hend)
  · rw [if_neg hend, ← hv, shift_eq_self_iff]
    exact (or_iff_right hend).symm

/-- `80000h` is read as 0x800000, which is the first boot slot. -/
theorem not_readsNumber_suffix :
    Spi.hexStrToUintn [0x38, 0x30, 0x30, 0x30, 0x30, 0x68] = 0x800000
      ∧ hexValue (hexRun [0x38, 0x30, 0x30, 0x30, 0x30, 0x68]) = 0x80000
      ∧ ¬ ReadsNumber [0x38, 0x30, 0x30, 0x30, 0x30, 0x68] := by
  have hread : Spi.hexStrToUintn [0x38, 0x30, 0x30, 0x30, 0x30, 0x68] = 0x800000 := by decide
  have hrun : hexRun [0x38, 0x30, 0x30, 0x30, 0x30, 0x68] = [0x38, 0x30, 0x30, 0x30, 0x30] := by
    decide
  have hvalue : hexValue [0x38, 0x30, 0x30, 0x30, 0x30] = 0x80000 := by
    decide
  refine ⟨hread, by rw [hrun, hvalue], ?_⟩
  rw [ReadsNumber, hread, hrun, hvalue]
  decide

end Ccr2004
