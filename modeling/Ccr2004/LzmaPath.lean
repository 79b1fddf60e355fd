import Ccr2004.LzmaFormat

/-!
# The bits of a symbol

An encoder's side of `LzmaHistory.symbol`: which bits make it decode a given
byte, length or distance. There is a lemma for each tree of `xz_dec_lzma2.c`
and one for each kind of symbol; `follow_symbol` puts them together.
-/

namespace Ccr2004

/-! ## The trees -/

/-- The last `n` bits of `v`, the highest first. -/
def highBits : Nat → Nat → List Bool
  | 0, _ => []
  | n + 1, v => decide (v / 2 ^ n % 2 = 1) :: highBits n v

/-- The last `n` bits of `v`, the lowest first. -/
def lowBits : Nat → Nat → List Bool
  | 0, _ => []
  | n + 1, v => decide (v % 2 = 1) :: lowBits n (v / 2)

section Trees

variable {probs : ProbArray} {rest : List Bool}

theorem follow_probBit {i : Int} (h : 0 ≤ i) (hi : i < probs.size) (c : Bool) :
    (probs.bit i).follow (c :: rest) = some (c, rest) := by
  rw [probs.bit_of_lt h hi, Decision.follow_askBit]

/-- A bit moves from the value into the symbol. -/
theorem symbol_step (symbol v n : Nat) :
    (if decide (v / 2 ^ n % 2 = 1) = true then symbol * 2 + 1 else symbol * 2) * 2 ^ n + v % 2 ^ n
      = symbol * 2 ^ (n + 1) + v % 2 ^ (n + 1) := by
  have hbit : (if decide (v / 2 ^ n % 2 = 1) = true then symbol * 2 + 1 else symbol * 2)
      = symbol * 2 + v / 2 ^ n % 2 := by
    by_cases hone : v / 2 ^ n % 2 = 1
    · rw [if_pos (decide_eq_true hone), hone]
    · rw [if_neg (by rwa [decide_eq_true_eq])]
      omega
  rw [hbit, Nat.mod_pow_succ, pow_succ']
  ring

theorem symbol_range {symbol j : Nat} (hlow : 2 ^ j ≤ symbol) (hhigh : symbol < 2 ^ (j + 1))
    (bit : Bool) : 2 ^ (j + 1) ≤ (if bit = true then symbol * 2 + 1 else symbol * 2)
      ∧ (if bit = true then symbol * 2 + 1 else symbol * 2) < 2 ^ (j + 1 + 1) := by
  rw [pow_succ 2 (j + 1)]
  have hdouble : 2 ^ (j + 1) = 2 * 2 ^ j := by rw [pow_succ']
  cases bit <;> simp only [if_true, if_false, Bool.false_eq_true] <;> omega

theorem follow_rcBittreeFrom {k : Nat} (hsize : 2 ^ k ≤ probs.size) (v : Nat) :
    ∀ n j symbol, j + n = k → 0 < n → 2 ^ j ≤ symbol → symbol < 2 ^ (j + 1) →
      ∀ fuel, n ≤ fuel → (rcBittreeFrom probs (2 ^ k) fuel symbol).follow (highBits n v ++ rest)
        = some (symbol * 2 ^ n + v % 2 ^ n, rest)
  | 0, _, _, _, hn, _, _, _, _ => absurd hn (Nat.lt_irrefl 0)
  | n + 1, _, _, _, _, _, _, 0, hfuel => absurd hfuel (Nat.not_succ_le_zero n)
  | n + 1, j, symbol, hj, _, hlow, hhigh, fuel + 1, hfuel => by
      have hjk : 2 ^ (j + 1) ≤ 2 ^ k := Nat.pow_le_pow_right (by omega) (by omega)
      rw [rcBittreeFrom, highBits, List.cons_append,
        Decision.follow_bind (follow_probBit (by omega) (by omega) _)]
      obtain ⟨hnlow, hnhigh⟩ := symbol_range hlow hhigh (decide (v / 2 ^ n % 2 = 1))
      rw [← symbol_step]
      simp only at hnlow hnhigh ⊢
      rcases Nat.eq_zero_or_pos n with rfl | hn
      · obtain rfl : j + 1 = k := by omega
        rw [if_neg (Nat.not_lt.mpr hnlow), pow_zero, Nat.mod_one, Nat.mul_one]
        rfl
      · have hlt : 2 ^ (j + 1 + 1) ≤ 2 ^ k := Nat.pow_le_pow_right (by omega) (by omega)
        rw [if_pos (Nat.lt_of_lt_of_le hnhigh hlt)]
        exact follow_rcBittreeFrom hsize v n (j + 1) _ (by omega) hn hnlow hnhigh fuel (by omega)

theorem follow_rcBittree {limit k v : Nat} (hlimit : limit = 2 ^ k) (hsize : limit ≤ probs.size)
    (hk : 0 < k) (hk32 : k ≤ 32) (hv : v < limit) :
    (rcBittree probs limit).follow (highBits k v ++ rest) = some (limit + v, rest) := by
  subst hlimit
  rw [rcBittree, follow_rcBittreeFrom hsize v k 0 1 (by omega) hk (by norm_num) (by norm_num) 32 hk32,
    Nat.one_mul, Nat.mod_eq_of_lt hv]

theorem follow_rcBittreeReverseFrom {offset : Int} {k : Nat} (hfirst : 0 ≤ offset + 1)
    (hlast : offset + 2 ^ k ≤ probs.size) :
    ∀ n j symbol dest v, j + n = k → 0 < n → 2 ^ j ≤ symbol → symbol < 2 ^ (j + 1) →
      ∀ fuel, n ≤ fuel → (rcBittreeReverseFrom probs offset k fuel j symbol dest).follow
        (lowBits n v ++ rest) = some (dest + v % 2 ^ n * 2 ^ j, rest)
  | 0, _, _, _, _, _, hn, _, _, _, _ => absurd hn (Nat.lt_irrefl 0)
  | n + 1, _, _, _, _, _, _, _, _, 0, hfuel => absurd hfuel (Nat.not_succ_le_zero n)
  | n + 1, j, symbol, dest, v, hj, _, hlow, hhigh, fuel + 1, hfuel => by
      have hjk : 2 ^ (j + 1) ≤ 2 ^ k := Nat.pow_le_pow_right (by omega) (by omega)
      have hcast : (2 : Int) ^ k = ((2 ^ k : Nat) : Int) := by push_cast; rfl
      rw [rcBittreeReverseFrom, lowBits, List.cons_append,
        Decision.follow_bind (follow_probBit (by omega) (by omega) _)]
      obtain ⟨hnlow, hnhigh⟩ := symbol_range hlow hhigh (decide (v % 2 = 1))
      have hdest : (if decide (v % 2 = 1) = true then dest + 2 ^ j else dest)
          + v / 2 % 2 ^ n * 2 ^ (j + 1) = dest + v % 2 ^ (n + 1) * 2 ^ j := by
        have hbit : (if decide (v % 2 = 1) = true then dest + 2 ^ j else dest)
            = dest + v % 2 * 2 ^ j := by
          by_cases hone : v % 2 = 1
          · rw [if_pos (decide_eq_true hone), hone, Nat.one_mul]
          · rw [if_neg (by rwa [decide_eq_true_eq]), show v % 2 = 0 by omega, Nat.zero_mul,
              Nat.add_zero]
        rw [hbit, pow_succ' 2 n, Nat.mod_mul, pow_succ' 2 j]
        ring
      rw [← hdest]
      simp only at hnlow hnhigh ⊢
      by_cases hn : j + 1 < k
      · rw [if_pos hn]
        exact follow_rcBittreeReverseFrom hfirst hlast n (j + 1) _ _ (v / 2) (by omega) (by omega)
          hnlow hnhigh fuel (by omega)
      · obtain rfl : n = 0 := by omega
        rw [if_neg hn, pow_zero, Nat.mod_one, Nat.zero_mul, Nat.add_zero]
        rfl

theorem follow_rcBittreeReverse {offset : Int} {k dest v : Nat} (hfirst : 0 ≤ offset + 1)
    (hlast : offset + 2 ^ k ≤ probs.size) (hk : 0 < k) (hk32 : k ≤ 32) :
    (rcBittreeReverse probs offset dest k).follow (lowBits k v ++ rest)
      = some (dest + v % 2 ^ k, rest) := by
  rw [rcBittreeReverse, follow_rcBittreeReverseFrom hfirst hlast k 0 1 dest v (by omega) hk
    (by norm_num) (by norm_num) 32 hk32, pow_zero, Nat.mul_one]

theorem follow_rcDirect {n : Nat} (hn : 0 < n) (dest v : Nat) :
    (rcDirect dest n).follow (highBits n v ++ rest) = some (dest * 2 ^ n + v % 2 ^ n, rest) := by
  rw [rcDirect, if_neg (by omega)]
  clear hn
  induction n generalizing dest with
  | zero =>
      rw [highBits, rcDirectFrom, pow_zero, Nat.mod_one, Nat.mul_one]
      rfl
  | succ n ih =>
      have hbit : dest * 2 + (if decide (v / 2 ^ n % 2 = 1) = true then 1 else 0)
          = if decide (v / 2 ^ n % 2 = 1) = true then dest * 2 + 1 else dest * 2 := by
        split <;> rfl
      rw [rcDirectFrom, highBits, List.cons_append, Decision.follow_bind (Decision.follow_askDirect ..),
        ← symbol_step, ← hbit]
      exact ih _

/-- A literal after a match takes the same bits, from other cells. -/
theorem follow_lzmaMatchedFrom (hsize : probs.size = 0x300) (v : Nat) :
    ∀ n j symbol, j + n = 8 → 0 < n → 2 ^ j ≤ symbol → symbol < 2 ^ (j + 1) →
      ∀ (matchByte offset : UInt32), offset.toNat ≤ 256 → ∀ fuel, n ≤ fuel →
        (lzmaMatchedFrom probs fuel symbol matchByte offset).follow (highBits n v ++ rest)
          = some (symbol * 2 ^ n + v % 2 ^ n, rest)
  | 0, _, _, _, hn, _, _, _, _, _, _, _ => absurd hn (Nat.lt_irrefl 0)
  | n + 1, _, _, _, _, _, _, _, _, _, 0, hfuel => absurd hfuel (Nat.not_succ_le_zero n)
  | n + 1, j, symbol, hj, _, hlow, hhigh, matchByte, offset, hoffset, fuel + 1, hfuel => by
      have hj8 : 2 ^ (j + 1) ≤ 2 ^ 8 := Nat.pow_le_pow_right (by omega) (by omega)
      have hmatch : (matchByte &&& offset).toNat ≤ offset.toNat := by
        rw [UInt32.toNat_and]
        exact Nat.and_le_right
      rw [lzmaMatchedFrom, highBits, List.cons_append,
        Decision.follow_bind (follow_probBit (by omega) (by rw [hsize]; omega) _)]
      obtain ⟨hnlow, hnhigh⟩ := symbol_range hlow hhigh (decide (v / 2 ^ n % 2 = 1))
      have hoffset' : ∀ bit : Bool, (if bit = true then offset &&& (matchByte &&& offset)
          else offset &&& ~~~(matchByte &&& offset)).toNat ≤ 256 := fun bit => by
        cases bit <;> simp only [if_true, if_false, Bool.false_eq_true, UInt32.toNat_and] <;>
          exact Nat.le_trans Nat.and_le_left hoffset
      rw [← symbol_step]
      simp only at hnlow hnhigh ⊢
      rcases Nat.eq_zero_or_pos n with rfl | hn
      · obtain rfl : j = 7 := by omega
        rw [if_neg (show ¬ _ < 256 from Nat.not_lt.mpr hnlow), pow_zero, Nat.mod_one, Nat.mul_one]
        rfl
      · have hlt : 2 ^ (j + 1 + 1) ≤ 2 ^ 8 := Nat.pow_le_pow_right (by omega) (by omega)
        rw [if_pos (show _ < 256 from Nat.lt_of_lt_of_le hnhigh hlt)]
        exact follow_lzmaMatchedFrom hsize v n (j + 1) _ (by omega) hn hnlow hnhigh _ _
          (hoffset' _) fuel (by omega)

end Trees

/-! ## Lengths and distances -/

/-- The length of a match. -/
structure LzmaLen where
  len : Nat
  low : 2 ≤ len
  high : len ≤ 273
deriving Repr, DecidableEq

def LzmaLen.bits (l : LzmaLen) : List Bool :=
  if l.len < 10 then false :: highBits 3 (l.len - 2)
  else if l.len < 18 then true :: false :: highBits 3 (l.len - 10)
  else true :: true :: highBits 8 (l.len - 18)

/-- The slot of a distance: its highest two bits and how many follow them. -/
def distSlot (dist : Nat) : Nat :=
  if dist < 4 then dist else 2 * Nat.log2 dist + dist / 2 ^ (Nat.log2 dist - 1) % 2

/-- The bits of a distance: the slot, and then the bits below, the last four of
many backwards. -/
def distBits (dist : Nat) : List Bool :=
  highBits 6 (distSlot dist) ++
    if distSlot dist < 4 then []
    else if distSlot dist < 14 then lowBits (distSlot dist / 2 - 1) dist
    else highBits (distSlot dist / 2 - 5) (dist / 16) ++ lowBits 4 dist

section Values

variable {rest : List Bool}

theorem follow_lzmaLen {l : LenDec} {posState : Nat} (hpos : posState < 16) (len : LzmaLen) :
    (lzmaLen l posState).follow (len.bits ++ rest) = some (len.len, rest) := by
  obtain ⟨len, hlow, hhigh⟩ := len
  have hask : ∀ (probs : ProbArray) (bit : Bool) (bits : List Bool), probs.size = 1 →
      (probs.bit 0).follow (bit :: bits) = some (bit, bits) := fun probs bit bits hsize =>
    follow_probBit (Int.le_refl 0) (by rw [hsize]; decide) bit
  rw [lzmaLen, LzmaLen.bits]
  simp only
  split
  · rw [List.cons_append, Decision.follow_bind (hask _ _ _ rfl), Bool.not_false, if_pos rfl,
      checkIndex_ok hpos, Decision.ofRun_ok, Decision.done_bind,
      Decision.follow_bind (follow_rcBittree (show 8 = 2 ^ 3 from rfl) (Nat.le_refl 8) (by decide)
        (by decide) (by omega))]
    rw [show 2 + (8 + (len - 2)) - 8 = len by omega]
    rfl
  · split
    · rw [List.cons_append, Decision.follow_bind (hask _ _ _ rfl), Bool.not_true,
        if_neg (by decide), List.cons_append, Decision.follow_bind (hask _ _ _ rfl), Bool.not_false,
        if_pos rfl, checkIndex_ok hpos, Decision.ofRun_ok, Decision.done_bind,
        Decision.follow_bind (follow_rcBittree (show 8 = 2 ^ 3 from rfl) (Nat.le_refl 8) (by decide)
          (by decide) (by omega))]
      rw [show 10 + (8 + (len - 10)) - 8 = len by omega]
      rfl
    · rw [List.cons_append, Decision.follow_bind (hask _ _ _ rfl), Bool.not_true,
        if_neg (by decide), List.cons_append, Decision.follow_bind (hask _ _ _ rfl), Bool.not_true,
        if_neg (by decide), Decision.follow_bind (follow_rcBittree
          (show 256 = 2 ^ 8 from rfl) (Nat.le_refl 256) (by decide) (by decide) (by omega))]
      rw [show 18 + (256 + (len - 18)) - 256 = len by omega]
      rfl

/-- What the slot leaves of a distance. -/
theorem distSlot_spec {dist : Nat} (hlow : 4 ≤ dist) (hhigh : dist < 2 ^ 32) :
    4 ≤ distSlot dist ∧ distSlot dist < 64
      ∧ dist = (2 + distSlot dist % 2) * 2 ^ (distSlot dist / 2 - 1)
        + dist % 2 ^ (distSlot dist / 2 - 1) := by
  have hne : dist ≠ 0 := by omega
  obtain ⟨n, hn⟩ : ∃ n, Nat.log2 dist = n + 2 := by
    have : 2 ≤ Nat.log2 dist := (Nat.le_log2 hne).mpr hlow
    exact ⟨Nat.log2 dist - 2, by omega⟩
  have hle : 2 ^ (n + 2) ≤ dist := hn ▸ Nat.log2_self_le hne
  have hlt : dist < 2 ^ (n + 3) := by
    have := Nat.lt_log2_self (n := dist)
    rwa [hn] at this
  have h32 : n + 2 < 32 := by
    by_contra hge
    have := Nat.pow_le_pow_right (n := 2) (by decide) (Nat.le_of_not_lt hge)
    omega
  have hslot : distSlot dist = 2 * (n + 2) + dist / 2 ^ (n + 1) % 2 := by
    rw [distSlot, if_neg (by omega), hn]
    rfl
  have hhalf : distSlot dist / 2 - 1 = n + 1 := by omega
  have hbit : distSlot dist % 2 = dist / 2 ^ (n + 1) % 2 := by omega
  refine ⟨by omega, by omega, ?_⟩
  rw [hhalf, hbit]
  -- between two and four times the power
  have hq : 2 ≤ dist / 2 ^ (n + 1) ∧ dist / 2 ^ (n + 1) < 4 := by
    rw [Nat.le_div_iff_mul_le (Nat.two_pow_pos _), Nat.div_lt_iff_lt_mul (Nat.two_pow_pos _)]
    rw [pow_succ' 2 (n + 1)] at hle
    rw [show n + 3 = n + 1 + 1 + 1 by omega, pow_succ' 2 (n + 1 + 1), pow_succ' 2 (n + 1)] at hlt
    omega
  have hquot : 2 + dist / 2 ^ (n + 1) % 2 = dist / 2 ^ (n + 1) := by omega
  rw [hquot, Nat.mul_comm]
  exact (Nat.div_add_mod _ _).symm

/-- A match with a new distance. -/
theorem follow_lzmaMatch {posState : Nat} (hpos : posState < 16) (dec : LzmaDec) (len : LzmaLen)
    {dist : Nat} (hdist : dist < 2 ^ 32) :
    (lzmaMatch dec posState).follow (len.bits ++ (distBits dist ++ rest))
      = some ({ dec with state := dec.state.match, rep3 := dec.rep2, rep2 := dec.rep1
                         rep1 := dec.rep0, rep0 := dist, len := len.len }, rest) := by
  have hslot64 : distSlot dist < 64 := by
    by_cases hfew : dist < 4
    · rw [distSlot, if_pos hfew]
      omega
    · exact (distSlot_spec (Nat.le_of_not_lt hfew) hdist).2.1
  rw [lzmaMatch, Decision.follow_bind (follow_lzmaLen hpos len), distBits, List.append_assoc,
    Decision.follow_bind (follow_rcBittree (show 64 = 2 ^ 6 from rfl) (Nat.le_refl 64) (by decide)
      (by decide) hslot64)]
  have hback : 64 + distSlot dist - 64 = distSlot dist := Nat.add_sub_cancel_left ..
  simp only [hback]
  by_cases hfew : dist < 4
  · have hslot : distSlot dist = dist := if_pos hfew
    rw [hslot, if_pos hfew, if_pos hfew]
    rfl
  · obtain ⟨hlow, -, hspec⟩ := distSlot_spec (Nat.le_of_not_lt hfew) hdist
    generalize distSlot dist = slot at *
    have hnot : ¬ slot < 4 := Nat.not_lt.mpr hlow
    rw [if_neg hnot, if_neg hnot]
    by_cases hsmall : slot < 14
    · rw [if_pos hsmall, if_pos hsmall]
      rw [Decision.follow_bind (follow_rcBittreeReverse (k := slot / 2 - 1) ?_ ?_ (by omega)
        (by omega)), ← hspec]
      · rfl
      · interval_cases slot <;> decide
      · interval_cases slot <;> decide
    · have halign : ∀ x, (rcBittreeReverse distAlign 0 x 4).follow (lowBits 4 dist ++ rest)
          = some (x + dist % 2 ^ 4, rest) := fun x =>
        follow_rcBittreeReverse (by decide) (by decide) (by decide) (by decide)
      rw [if_neg hsmall, if_neg hsmall, List.append_assoc,
        show slot / 2 - 1 - 4 = slot / 2 - 5 by omega,
        Decision.follow_bind (follow_rcDirect (by omega) ..),
        Decision.follow_bind (halign _)]
      have hall : ((2 + slot % 2) * 2 ^ (slot / 2 - 5) + dist / 16 % 2 ^ (slot / 2 - 5)) * 16
          + dist % 2 ^ 4 = dist := by
        have hpow : 2 ^ (slot / 2 - 1) = 16 * 2 ^ (slot / 2 - 5) := by
          rw [show slot / 2 - 1 = 4 + (slot / 2 - 5) by omega, pow_add, show 2 ^ 4 = 16 from rfl]
        rw [hpow, Nat.mod_mul] at hspec
        rw [show 2 ^ 4 = 16 from rfl]
        conv_rhs => rw [hspec]
        ring
      rw [hall]
      rfl

/-- Which of the last four distances. -/
inductive LzmaRep where
  | rep0
  | rep1
  | rep2
  | rep3
deriving Repr, DecidableEq

/-- The distance comes to the front. -/
def LzmaDec.recall (dec : LzmaDec) : LzmaRep → LzmaDec
  | .rep0 => { dec with state := dec.state.longRep }
  | .rep1 => { dec with state := dec.state.longRep, rep1 := dec.rep0, rep0 := dec.rep1 }
  | .rep2 => { dec with state := dec.state.longRep, rep2 := dec.rep1, rep1 := dec.rep0,
                        rep0 := dec.rep2 }
  | .rep3 => { dec with state := dec.state.longRep, rep3 := dec.rep2, rep2 := dec.rep1,
                        rep1 := dec.rep0, rep0 := dec.rep3 }

def LzmaRep.bits : LzmaRep → List Bool
  | .rep0 => [false, true]
  | .rep1 => [true, false]
  | .rep2 => [true, true, false]
  | .rep3 => [true, true, true]

theorem follow_lzmaRepMatch {posState : Nat} (hpos : posState < 16) (dec : LzmaDec) (i : LzmaRep)
    (len : LzmaLen) :
    (lzmaRepMatch dec posState).follow (i.bits ++ (len.bits ++ rest))
      = some ({ dec.recall i with len := len.len }, rest) := by
  have hstate := dec.state.index_lt
  have hask : ∀ (probs : ProbArray) (bit : Bool) (bits : List Bool), probs.size = 12 →
      (probs.bit dec.state.index).follow (bit :: bits) = some (bit, bits) :=
    fun probs bit bits hsize => follow_probBit (by omega) (by omega) bit
  have hlong : ∀ (bit : Bool) (bits : List Bool),
      ((isRep0Long dec.state).bit posState).follow (bit :: bits) = some (bit, bits) :=
    fun bit bits => follow_probBit (by omega) (by simp only [isRep0Long]; omega) bit
  have hlen : (lzmaLen repLenDec posState).follow (len.bits ++ rest) = some (len.len, rest) :=
    follow_lzmaLen hpos len
  rw [lzmaRepMatch]
  cases i with
  | rep0 =>
      simp only [LzmaRep.bits, List.cons_append, List.nil_append]
      rw [Decision.follow_bind (hask _ _ _ rfl), Bool.not_false, if_pos rfl,
        Decision.follow_bind (hlong _ _), Bool.not_true, if_neg (by decide),
        Decision.follow_bind hlen]
      rfl
  | rep1 =>
      simp only [LzmaRep.bits, List.cons_append, List.nil_append]
      rw [Decision.follow_bind (hask _ _ _ rfl), Bool.not_true, if_neg (by decide),
        Decision.follow_bind (hask _ _ _ rfl), Bool.not_false, if_pos rfl, Decision.follow_bind hlen]
      rfl
  | rep2 =>
      simp only [LzmaRep.bits, List.cons_append, List.nil_append]
      rw [Decision.follow_bind (hask _ _ _ rfl), Bool.not_true, if_neg (by decide),
        Decision.follow_bind (hask _ _ _ rfl), Bool.not_true, if_neg (by decide),
        Decision.follow_bind (hask _ _ _ rfl), Bool.not_false, if_pos rfl, Decision.follow_bind hlen]
      rfl
  | rep3 =>
      simp only [LzmaRep.bits, List.cons_append, List.nil_append]
      rw [Decision.follow_bind (hask _ _ _ rfl), Bool.not_true, if_neg (by decide),
        Decision.follow_bind (hask _ _ _ rfl), Bool.not_true, if_neg (by decide),
        Decision.follow_bind (hask _ _ _ rfl), Bool.not_true, if_neg (by decide),
        Decision.follow_bind hlen]
      rfl

theorem follow_shortRep {posState : Nat} (hpos : posState < 16) (dec : LzmaDec) :
    (lzmaRepMatch dec posState).follow (false :: false :: rest)
      = some ({ dec with state := dec.state.shortRep, len := 1 }, rest) := by
  have hstate := dec.state.index_lt
  have hask : (isRep0.bit dec.state.index).follow (false :: false :: rest)
      = some (false, false :: rest) := follow_probBit (by omega) (by simp only [isRep0]; omega) _
  have hlong : ((isRep0Long dec.state).bit posState).follow (false :: rest) = some (false, rest) :=
    follow_probBit (by omega) (by simp only [isRep0Long]; omega) _
  rw [lzmaRepMatch, Decision.follow_bind hask, Bool.not_false, if_pos rfl,
    Decision.follow_bind hlong, Bool.not_false, if_pos rfl]
  rfl

end Values

/-! ## Symbols -/

/-- A symbol as an encoder chooses it. -/
inductive LzmaPacket where
  | literal (byte : UInt8)
  | newMatch (dist : Fin (2 ^ 32)) (len : LzmaLen)
  | shortRep
  | longRep (i : LzmaRep) (len : LzmaLen)
deriving Repr, DecidableEq

namespace LzmaPacket

def bits : LzmaPacket → List Bool
  | .literal byte => false :: highBits 8 byte.toNat
  | .newMatch dist len => true :: false :: (len.bits ++ distBits dist)
  | .shortRep => [true, true, false, false]
  | .longRep i len => true :: true :: (i.bits ++ len.bits)

/-- What the packet says after the decoder `dec`. -/
def symbol (dec : LzmaDec) : LzmaPacket → UInt8 ⊕ LzmaDec
  | .literal byte => .inl byte
  | .newMatch dist len => .inr { dec with state := dec.state.match, rep3 := dec.rep2
                                          rep2 := dec.rep1, rep1 := dec.rep0, rep0 := dist
                                          len := len.len }
  | .shortRep => .inr { dec with state := dec.state.shortRep, len := 1 }
  | .longRep i len => .inr { dec.recall i with len := len.len }

end LzmaPacket

/-- The bits of a packet decode to what it says. -/
theorem follow_symbol {h : LzmaHistory} (hok : h.Ok) (p : LzmaPacket) (rest : List Bool) :
    h.symbol.follow (p.bits ++ rest) = some (p.symbol h.dec, rest) := by
  have hstate := h.dec.state.index_lt
  have hpos : h.past.length &&& h.dec.posMask < 16 :=
    Nat.lt_of_le_of_lt Nat.and_le_right hok.dec.posMask
  have hmatch : ∀ (bit : Bool) (bits : List Bool), ((isMatch h.dec.state).bit
      ((h.past.length &&& h.dec.posMask : Nat))).follow (bit :: bits) = some (bit, bits) :=
    fun bit bits => follow_probBit (by omega) (by simp only [isMatch]; omega) bit
  have hrep : ∀ (bit : Bool) (bits : List Bool),
      (isRep.bit h.dec.state.index).follow (bit :: bits) = some (bit, bits) :=
    fun bit bits => follow_probBit (by omega) (by simp only [isRep]; omega) bit
  rw [LzmaHistory.symbol]
  cases p with
  | literal byte =>
      have hliteral : h.literal.follow (highBits 8 byte.toNat ++ rest)
          = some (0x100 + byte.toNat, rest) := by
        obtain ⟨i, -, hprobs⟩ := LzmaHistory.literalProbs_lt hok.dec
        rw [LzmaHistory.literal, hprobs]
        split
        · exact follow_rcBittree (show 0x100 = 2 ^ 8 from rfl) (show 0x100 ≤ 0x300 by decide)
            (by decide) (by decide) byte.toNat_lt
        · rw [lzmaMatched, follow_lzmaMatchedFrom rfl byte.toNat 8 0 1 rfl (by decide) (by decide)
            (by decide) _ _ (by decide) 32 (by decide), Nat.mod_eq_of_lt byte.toNat_lt, Nat.one_mul]
          rfl
      simp only [LzmaPacket.bits, LzmaPacket.symbol, List.cons_append]
      rw [Decision.follow_bind (hmatch _ _), Bool.not_false, if_pos rfl,
        Decision.follow_bind hliteral]
      have hbyte : UInt8.ofNat (0x100 + byte.toNat) = byte := UInt8.toNat_inj.mp (by
        rw [UInt8.toNat_ofNat']
        have := byte.toNat_lt
        omega)
      change some (Sum.inl (UInt8.ofNat (0x100 + byte.toNat)), rest) = _
      rw [hbyte]
  | newMatch dist len =>
      simp only [LzmaPacket.bits, LzmaPacket.symbol, List.cons_append, List.append_assoc]
      rw [Decision.follow_bind (hmatch _ _), Bool.not_true, if_neg (by decide), lzmaAnyMatch,
        Decision.bind_assoc, Decision.follow_bind (hrep _ _), if_neg (by decide),
        Decision.follow_bind (follow_lzmaMatch hpos h.dec len dist.isLt)]
      rfl
  | shortRep =>
      simp only [LzmaPacket.bits, LzmaPacket.symbol, List.cons_append, List.nil_append]
      rw [Decision.follow_bind (hmatch _ _), Bool.not_true, if_neg (by decide), lzmaAnyMatch,
        Decision.bind_assoc, Decision.follow_bind (hrep _ _), if_pos rfl,
        Decision.follow_bind (follow_shortRep hpos h.dec)]
      rfl
  | longRep i len =>
      simp only [LzmaPacket.bits, LzmaPacket.symbol, List.cons_append, List.append_assoc]
      rw [Decision.follow_bind (hmatch _ _), Bool.not_true, if_neg (by decide), lzmaAnyMatch,
        Decision.bind_assoc, Decision.follow_bind (hrep _ _), if_pos rfl,
        Decision.follow_bind (follow_lzmaRepMatch hpos h.dec i len)]
      rfl

end Ccr2004
