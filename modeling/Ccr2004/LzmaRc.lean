import Ccr2004.RangeCoder
import Ccr2004.XzStream
import Mathlib.Tactic.Ring
import Mathlib.Tactic.NormNum

/-!
# The range decoder of LZMA

The second part of `XzDec/xz_dec_lzma2.c`. What it decodes is written as a
`Decision` over the probabilities of `struct lzma_dec`, which lie in one block
of memory; `lzmaSource` is `rc_bit` and the body of the loop of `rc_direct`.

`Affords a b` says of a decoder that it can decode `a` bits with probabilities
and `b` direct bits and normalise once more, all within its input: a bit of
either kind shrinks the range by a bounded factor and a byte multiplies it by
256, so that a product of the two is kept (`rcBit_affords`,
`rcDirectBit_affords`). `affords_symbol` is the bound that the source states
as `LZMA_IN_REQUIRED`.
-/

namespace Ccr2004

/-- `LZMA_IN_REQUIRED`. -/
def lzmaInRequired : Nat := 21

/-- `PROBS_TOTAL`. -/
def probsTotal : Nat := 1846 + 16 * 0x300

/-- The probabilities from `is_match` to the end of `literal`. -/
abbrev Probs := Nat → UInt16

/-- `struct rc_dec`. -/
structure RcDec where
  range : UInt32
  code : UInt32
  initBytesLeft : Nat
  input : List UInt8
  inPos : Nat
  inLimit : Nat
deriving Repr, DecidableEq

/-- The range decoder with the probabilities it adapts. -/
structure LzmaCoder where
  rc : RcDec
  probs : Probs

namespace RcDec

def reset (rc : RcDec) : RcDec :=
  { rc with range := 0xFFFFFFFF, code := 0, initBytesLeft := 5 }

/-- `rc_read_init`: false while there are bytes missing. -/
def readInitFrom : Nat → RcDec → XzBuf → Bool × RcDec × XzBuf
  | 0, rc, b => (true, rc, b)
  | n + 1, rc, b =>
      match b.input[b.inPos]? with
      | none => (false, rc, b)
      | some byte =>
          readInitFrom n { rc with code := (rc.code <<< 8) + byte.toUInt32, initBytesLeft := n }
            { b with inPos := b.inPos + 1 }

def readInit (rc : RcDec) (b : XzBuf) : Bool × RcDec × XzBuf :=
  readInitFrom rc.initBytesLeft rc b

def limitExceeded (rc : RcDec) : Bool := rc.inPos > rc.inLimit

def isFinished (rc : RcDec) : Bool := rc.code = 0

def normalize (rc : RcDec) : Run RcDec :=
  if rc.range < 0x1000000 then
    match rc.input[rc.inPos]? with
    | none => .error .outOfBounds
    | some byte =>
        .ok { rc with range := rc.range <<< 8, code := (rc.code <<< 8) + byte.toUInt32,
                      inPos := rc.inPos + 1 }
  else .ok rc

end RcDec

/-- `rc_bit`. -/
def rcBit (i : Nat) (c : LzmaCoder) : Run (Bool × LzmaCoder) := do
  let rc ← c.rc.normalize
  let prob := c.probs i
  let bound := (rc.range >>> 11) * prob.toUInt32
  if rc.code < bound then
    .ok (false, ⟨{ rc with range := bound },
      Function.update c.probs i (prob + ((2048 - prob) >>> 5))⟩)
  else
    .ok (true, ⟨{ rc with range := rc.range - bound, code := rc.code - bound },
      Function.update c.probs i (prob - (prob >>> 5))⟩)

/-- One round of `rc_direct`: the bit is `mask + 1`. -/
def rcDirectBit (c : LzmaCoder) : Run (Bool × LzmaCoder) := do
  let rc ← c.rc.normalize
  let range := rc.range >>> 1
  let code := rc.code - range
  let mask := (0 : UInt32) - (code >>> 31)
  let code := code + (range &&& mask)
  .ok (mask + 1 = 1, ⟨{ rc with range := range, code := code }, c.probs⟩)

def lzmaSource : Decision.BitSource Nat LzmaCoder := ⟨rcBit, rcDirectBit⟩

/-! ## Arrays of probabilities -/

/-- An array of probabilities: its first index among all of them, and its size. -/
structure ProbArray where
  base : Nat
  size : Nat
deriving Repr, DecidableEq

/-- `rc_bit(&s->rc, &probs[i])`. -/
def ProbArray.bit (probs : ProbArray) (i : Int) : Decision Nat Bool :=
  if 0 ≤ i ∧ i < probs.size then .askBit (probs.base + i.toNat) else .fault .outOfBounds

def rcBittreeFrom (probs : ProbArray) (limit : Nat) : Nat → Nat → Decision Nat Nat
  | 0, _ => .fault .diverge
  | n + 1, symbol => do
      let bit ← probs.bit symbol
      let symbol := if bit then symbol * 2 + 1 else symbol * 2
      if symbol < limit then rcBittreeFrom probs limit n symbol else pure symbol

/-- `rc_bittree`: `symbol` doubles in 32 bits. -/
def rcBittree (probs : ProbArray) (limit : Nat) : Decision Nat Nat :=
  rcBittreeFrom probs limit 32 1

def rcBittreeReverseFrom (probs : ProbArray) (offset : Int) (limit : Nat) :
    Nat → Nat → Nat → Nat → Decision Nat Nat
  | 0, _, _, _ => .fault .diverge
  | n + 1, i, symbol, dest => do
      let bit ← probs.bit (offset + symbol)
      let symbol := if bit then symbol * 2 + 1 else symbol * 2
      let dest := if bit then dest + 2 ^ i else dest
      if i + 1 < limit then rcBittreeReverseFrom probs offset limit n (i + 1) symbol dest
      else pure dest

/-- `rc_bittree_reverse` with a pointer `offset` into the array: what it adds
to `*dest`. -/
def rcBittreeReverse (probs : ProbArray) (offset : Int) (dest limit : Nat) : Decision Nat Nat :=
  rcBittreeReverseFrom probs offset limit 32 0 1 dest

def rcDirectFrom : Nat → Nat → Decision Nat Nat
  | 0, dest => pure dest
  | n + 1, dest => do
      let bit ← .askDirect
      rcDirectFrom n (dest * 2 + if bit then 1 else 0)

/-- `rc_direct`: the loop tests `--limit` after its body, in 32 bits. -/
def rcDirect (dest limit : Nat) : Decision Nat Nat :=
  rcDirectFrom (if limit = 0 then 2 ^ 32 else limit) dest

/-! ## What decoding a bit costs -/

/-- The probabilities never leave this range, so that neither bit is certain. -/
def Probs.Good (probs : Probs) : Prop :=
  ∀ i < probsTotal, 31 ≤ (probs i).toNat ∧ (probs i).toNat ≤ 2017

theorem Probs.Good.update {probs : Probs} (h : probs.Good) {i : Nat} {p : UInt16}
    (hp : 31 ≤ p.toNat ∧ p.toNat ≤ 2017) : Probs.Good (Function.update probs i p) := by
  intro j hlt
  by_cases hj : j = i
  · rw [hj, Function.update_self]
    exact hp
  · rw [Function.update_of_ne hj]
    exact h j hlt

theorem prob_up {p : UInt16} (h : 31 ≤ p.toNat ∧ p.toNat ≤ 2017) :
    31 ≤ (p + ((2048 - p) >>> 5)).toNat ∧ (p + ((2048 - p) >>> 5)).toNat ≤ 2017 := by
  have hsub : (2048 - p).toNat = 2048 - p.toNat := by
    rw [UInt16.toNat_sub_of_le _ _ (UInt16.le_iff_toNat_le.mpr (by simp; omega))]
    rfl
  have hshift : ((2048 - p) >>> 5).toNat = (2048 - p.toNat) / 32 := by
    rw [UInt16.toNat_shiftRight, hsub, Nat.shiftRight_eq_div_pow]
    rfl
  rw [UInt16.toNat_add, hshift, Nat.mod_eq_of_lt (by omega)]
  omega

theorem prob_down {p : UInt16} (h : 31 ≤ p.toNat ∧ p.toNat ≤ 2017) :
    31 ≤ (p - (p >>> 5)).toNat ∧ (p - (p >>> 5)).toNat ≤ 2017 := by
  have hshift : (p >>> 5).toNat = p.toNat / 32 := by
    rw [UInt16.toNat_shiftRight, Nat.shiftRight_eq_div_pow]
    rfl
  rw [UInt16.toNat_sub_of_le _ _ (UInt16.le_iff_toNat_le.mpr (by omega)), hshift]
  omega

/-- The decoder can decode `a` bits with probabilities and `b` direct bits,
whatever they are, and normalise after them: by then the range times a power
of 256 for the bytes left is still `RC_TOP_VALUE`. -/
structure Affords (a b : Nat) (c : LzmaCoder) : Prop where
  probs : c.probs.Good
  inside : c.rc.inPos ≤ c.rc.input.length
  low : 31 * 2 ^ 13 ≤ c.rc.range.toNat
  budget : 2 ^ 24 * 2 ^ (24 * a + 14 * b)
    ≤ c.rc.range.toNat * 256 ^ (c.rc.input.length - c.rc.inPos) * ((31 * 8191) ^ a * 8191 ^ b)

/-- `rc'` has read on in the same input. -/
structure RcDec.Reads (rc rc' : RcDec) : Prop where
  input : rc'.input = rc.input
  inLimit : rc'.inLimit = rc.inLimit
  inPos : rc.inPos ≤ rc'.inPos
  initBytesLeft : rc'.initBytesLeft = rc.initBytesLeft

theorem RcDec.Reads.refl (rc : RcDec) : rc.Reads rc := ⟨rfl, rfl, Nat.le_refl _, rfl⟩

theorem RcDec.Reads.trans {rc rc' rc'' : RcDec} (h : rc.Reads rc') (h' : rc'.Reads rc'') :
    rc.Reads rc'' :=
  ⟨h'.input.trans h.input, h'.inLimit.trans h.inLimit, h.inPos.trans h'.inPos,
    h'.initBytesLeft.trans h.initBytesLeft⟩

/-- A bit with a probability keeps this part of the range. -/
theorem cut_ge {r p : Nat} (hr : 2 ^ 24 ≤ r) (hp : 31 ≤ p ∧ p ≤ 2017) :
    r * (31 * 8191) ≤ r / 2048 * p * 2 ^ 24 ∧ r * (31 * 8191) ≤ (r - r / 2048 * p) * 2 ^ 24
      ∧ 31 * 2 ^ 13 ≤ r / 2048 * p ∧ 31 * 2 ^ 13 ≤ r - r / 2048 * p ∧ r / 2048 * p < r := by
  obtain ⟨q, hq⟩ : ∃ q, q = r / 2048 := ⟨_, rfl⟩
  have hqr : 2048 * q ≤ r ∧ r < 2048 * q + 2048 := by omega
  have hq13 : 2 ^ 13 ≤ q := by omega
  have hlow : 31 * q ≤ q * p := by
    rw [Nat.mul_comm]
    exact Nat.mul_le_mul_left q hp.1
  have hhigh : q * p ≤ 2017 * q := by
    rw [Nat.mul_comm 2017]
    exact Nat.mul_le_mul_left q hp.2
  rw [← hq]
  omega

/-- So does a direct bit. -/
theorem half_ge {r : Nat} (hr : 2 ^ 24 ≤ r) :
    r * 8191 ≤ r / 2 * 2 ^ 14 ∧ 31 * 2 ^ 13 ≤ r / 2 := by
  omega

theorem factor_le (a b : Nat) : (31 * 8191) ^ a * 8191 ^ b ≤ 2 ^ (24 * a + 14 * b) := by
  rw [pow_add, pow_mul, pow_mul]
  exact Nat.mul_le_mul (Nat.pow_le_pow_left (by norm_num) a) (Nat.pow_le_pow_left (by norm_num) b)

theorem Affords.mono {a b a' b' : Nat} {c : LzmaCoder} (ha : a' ≤ a) (hb : b' ≤ b)
    (h : Affords a b c) : Affords a' b' c := by
  refine ⟨h.probs, h.inside, h.low, ?_⟩
  obtain ⟨x, rfl⟩ := Nat.exists_eq_add_of_le ha
  obtain ⟨y, rfl⟩ := Nat.exists_eq_add_of_le hb
  have hpos : 0 < 2 ^ (24 * x + 14 * y) := Nat.two_pow_pos _
  apply Nat.le_of_mul_le_mul_right _ hpos
  calc 2 ^ 24 * 2 ^ (24 * a' + 14 * b') * 2 ^ (24 * x + 14 * y)
      = 2 ^ 24 * 2 ^ (24 * (a' + x) + 14 * (b' + y)) := by
        rw [Nat.mul_assoc, ← pow_add]
        congr 2
        ring
    _ ≤ _ := h.budget
    _ = c.rc.range.toNat * 256 ^ (c.rc.input.length - c.rc.inPos)
          * ((31 * 8191) ^ a' * 8191 ^ b') * ((31 * 8191) ^ x * 8191 ^ y) := by ring
    _ ≤ _ := Nat.mul_le_mul_left _ (factor_le x y)

/-- A bit with a probability shrinks the range less than seven direct bits do. -/
def tradeRate : Nat := 7

theorem Affords.trade {a b : Nat} {c : LzmaCoder} (h : Affords a (b + tradeRate) c) :
    Affords (a + 1) b c := by
  refine ⟨h.probs, h.inside, h.low, ?_⟩
  have hrate : 8191 ^ 7 * 2 ^ 24 ≤ 31 * 8191 * 2 ^ 98 := by norm_num
  apply Nat.le_of_mul_le_mul_right _ (Nat.two_pow_pos 98)
  calc 2 ^ 24 * 2 ^ (24 * (a + 1) + 14 * b) * 2 ^ 98
      = 2 ^ 24 * 2 ^ (24 * a + 14 * (b + 7)) * 2 ^ 24 := by ring
    _ ≤ c.rc.range.toNat * 256 ^ (c.rc.input.length - c.rc.inPos)
          * ((31 * 8191) ^ a * 8191 ^ (b + 7)) * 2 ^ 24 := Nat.mul_le_mul_right _ h.budget
    _ = c.rc.range.toNat * 256 ^ (c.rc.input.length - c.rc.inPos)
          * ((31 * 8191) ^ a * 8191 ^ b) * (8191 ^ 7 * 2 ^ 24) := by ring
    _ ≤ c.rc.range.toNat * 256 ^ (c.rc.input.length - c.rc.inPos)
          * ((31 * 8191) ^ a * 8191 ^ b) * (31 * 8191 * 2 ^ 98) := Nat.mul_le_mul_left _ hrate
    _ = _ := by ring

/-- Normalising is paid for. -/
theorem normalize_affords {a b : Nat} {c : LzmaCoder} (h : Affords a b c) :
    ∃ rc, c.rc.normalize = .ok rc ∧ Affords a b ⟨rc, c.probs⟩ ∧ 2 ^ 24 ≤ rc.range.toNat
      ∧ c.rc.Reads rc := by
  by_cases hr : c.rc.range < 0x1000000
  · have hrn : c.rc.range.toNat < 2 ^ 24 := UInt32.lt_iff_toNat_lt.mp hr
    have hlt : c.rc.inPos < c.rc.input.length := by
      by_contra hge
      have hbudget := h.budget
      rw [Nat.sub_eq_zero_of_le (Nat.le_of_not_lt hge), pow_zero, Nat.mul_one] at hbudget
      have := Nat.mul_le_mul_left (c.rc.range.toNat) (factor_le a b)
      have := Nat.mul_lt_mul_of_pos_right hrn (Nat.two_pow_pos (24 * a + 14 * b))
      omega
    have hshift : (c.rc.range <<< 8).toNat = c.rc.range.toNat * 256 := by
      rw [UInt32.toNat_shiftLeft, Nat.shiftLeft_eq]
      change c.rc.range.toNat * 256 % 2 ^ 32 = _
      omega
    have hrun : c.rc.normalize = .ok
        { c.rc with range := c.rc.range <<< 8
                    code := (c.rc.code <<< 8) + (c.rc.input.get ⟨c.rc.inPos, hlt⟩).toUInt32
                    inPos := c.rc.inPos + 1 } := by
      rw [RcDec.normalize, if_pos hr, List.getElem?_eq_getElem hlt]
      rfl
    refine ⟨_, hrun, ⟨h.probs, hlt, ?_, ?_⟩, ?_, rfl, rfl, Nat.le_succ _, rfl⟩
    · have := h.low
      simp only [hshift]
      omega
    · have hbytes : 256 ^ (c.rc.input.length - c.rc.inPos)
          = 256 * 256 ^ (c.rc.input.length - (c.rc.inPos + 1)) := by
        rw [← pow_succ']
        congr 1
        omega
      simp only [hshift]
      rw [Nat.mul_assoc _ 256, ← hbytes]
      exact h.budget
    · have := h.low
      simp only [hshift]
      omega
  · have hrn : 2 ^ 24 ≤ c.rc.range.toNat := Nat.le_of_not_lt fun hlt =>
      hr (UInt32.lt_iff_toNat_lt.mpr hlt)
    exact ⟨c.rc, by rw [RcDec.normalize, if_neg hr], h, hrn, .refl _⟩

/-- What is left of the budget after a bit that kept `keep / unit` of the range. -/
theorem budget_step {a b range range' bytes keep unit : Nat} {exp : Nat}
    (hkeep : range * keep ≤ range' * unit) (hunit : unit = 2 ^ exp) {rest : Nat}
    (hbudget : 2 ^ 24 * 2 ^ (exp + (24 * a + 14 * b)) ≤ range * bytes * (keep * rest)) :
    2 ^ 24 * 2 ^ (24 * a + 14 * b) ≤ range' * bytes * rest := by
  apply Nat.le_of_mul_le_mul_right _ (hunit ▸ Nat.two_pow_pos exp : 0 < unit)
  calc 2 ^ 24 * 2 ^ (24 * a + 14 * b) * unit
      = 2 ^ 24 * 2 ^ (exp + (24 * a + 14 * b)) := by
        rw [hunit, pow_add]
        ring
    _ ≤ range * bytes * (keep * rest) := hbudget
    _ = range * keep * (bytes * rest) := by ring
    _ ≤ range' * unit * (bytes * rest) := Nat.mul_le_mul_right _ hkeep
    _ = range' * bytes * rest * unit := by ring

/-- `rc_bit`, where it can be afforded. -/
theorem rcBit_affords {a b i : Nat} {c : LzmaCoder} (hi : i < probsTotal)
    (h : Affords (a + 1) b c) :
    ∃ bit c', rcBit i c = .ok (bit, c') ∧ Affords a b c' ∧ c.rc.Reads c'.rc := by
  obtain ⟨rc, hnorm, hrc, htop, hreads⟩ := normalize_affords h
  have hp : 31 ≤ (c.probs i).toNat ∧ (c.probs i).toNat ≤ 2017 := hrc.probs i hi
  obtain ⟨hcut, hrest, hlow, hhigh, hlt⟩ := cut_ge htop hp
  have hbound : ((rc.range >>> 11) * (c.probs i).toUInt32).toNat
      = rc.range.toNat / 2048 * (c.probs i).toNat := by
    have hlt32 := rc.range.toNat_lt
    have hshift : (rc.range >>> 11).toNat = rc.range.toNat / 2048 := by
      rw [UInt32.toNat_shiftRight, Nat.shiftRight_eq_div_pow]
      rfl
    rw [UInt32.toNat_mul, hshift, UInt16.toNat_toUInt32]
    exact Nat.mod_eq_of_lt (by omega)
  have hbudget : 2 ^ 24 * 2 ^ (24 + (24 * a + 14 * b)) ≤ rc.range.toNat
      * 256 ^ (rc.input.length - rc.inPos) * (31 * 8191 * ((31 * 8191) ^ a * 8191 ^ b)) := by
    rw [← Nat.mul_assoc (31 * 8191), ← pow_succ', show 24 + (24 * a + 14 * b)
      = 24 * (a + 1) + 14 * b by ring]
    exact hrc.budget
  rw [rcBit, hnorm, ok_bind]
  simp only
  split
  · refine ⟨false, _, rfl, ⟨hrc.probs.update (prob_up hp), hrc.inside, ?_, ?_⟩,
      hreads.trans ⟨rfl, rfl, Nat.le_refl _, rfl⟩⟩
    · rw [hbound]
      exact hlow
    · rw [hbound]
      exact budget_step hcut rfl hbudget
  · have hsub : (rc.range - (rc.range >>> 11) * (c.probs i).toUInt32).toNat
        = rc.range.toNat - rc.range.toNat / 2048 * (c.probs i).toNat := by
      rw [UInt32.toNat_sub_of_le _ _ (UInt32.le_iff_toNat_le.mpr (by omega)), hbound]
    refine ⟨true, _, rfl, ⟨hrc.probs.update (prob_down hp), hrc.inside, ?_, ?_⟩,
      hreads.trans ⟨rfl, rfl, Nat.le_refl _, rfl⟩⟩
    · rw [hsub]
      exact hhigh
    · rw [hsub]
      exact budget_step hrest rfl hbudget

/-- A round of `rc_direct`, where it can be afforded. -/
theorem rcDirectBit_affords {a b : Nat} {c : LzmaCoder} (h : Affords a (b + 1) c) :
    ∃ bit c', rcDirectBit c = .ok (bit, c') ∧ Affords a b c' ∧ c.rc.Reads c'.rc := by
  obtain ⟨rc, hnorm, hrc, htop, hreads⟩ := normalize_affords h
  obtain ⟨hhalf, hlow⟩ := half_ge htop
  have hshift : (rc.range >>> 1).toNat = rc.range.toNat / 2 := by
    rw [UInt32.toNat_shiftRight, Nat.shiftRight_eq_div_pow]
    rfl
  have hbudget : 2 ^ 24 * 2 ^ (14 + (24 * a + 14 * b)) ≤ rc.range.toNat
      * 256 ^ (rc.input.length - rc.inPos) * (8191 * ((31 * 8191) ^ a * 8191 ^ b)) := by
    have hfactor : 8191 * ((31 * 8191) ^ a * 8191 ^ b) = (31 * 8191) ^ a * 8191 ^ (b + 1) := by
      ring
    rw [hfactor, show 14 + (24 * a + 14 * b) = 24 * a + 14 * (b + 1) by ring]
    exact hrc.budget
  rw [rcDirectBit, hnorm, ok_bind]
  refine ⟨_, _, rfl, ⟨hrc.probs, hrc.inside, ?_, ?_⟩,
    hreads.trans ⟨rfl, rfl, Nat.le_refl _, rfl⟩⟩
  · rw [hshift]
    exact hlow
  · rw [hshift]
    exact budget_step hhalf rfl hbudget

/-- Every path of `p` stays among the probabilities and ends in `Q`. -/
abbrev LzmaWithin {α : Type} (a b : Nat) (Q : α → Prop) (p : Decision Nat α) : Prop :=
  Decision.Within (· < probsTotal) tradeRate a b Q p

/-- A decoder over an input that affords all its paths ends, inside the input. -/
theorem run_affords {α : Type} {Q : α → Prop} {p : Decision Nat α}
    {a b a' b' : Nat} {c : LzmaCoder} (hp : LzmaWithin a b Q p)
    (h : Affords (a + a') (b + b') c) :
    ∃ x c', p.run lzmaSource c = .ok (x, c') ∧ Q x ∧ Affords a' b' c' ∧ c.rc.Reads c'.rc := by
  refine Decision.run_within (J := fun a b c' => Affords a b c' ∧ c.rc.Reads c'.rc)
    ?_ ?_ ?_ ?_ hp ⟨h, .refl _⟩
  · intro a b i u hi ⟨hu, hr⟩
    obtain ⟨bit, v, hv, hav, hrv⟩ := rcBit_affords hi hu
    exact ⟨bit, v, hv, hav, hr.trans hrv⟩
  · intro a b u ⟨hu, hr⟩
    obtain ⟨bit, v, hv, hav, hrv⟩ := rcDirectBit_affords hu
    exact ⟨bit, v, hv, hav, hr.trans hrv⟩
  · intro a b a' b' u ha hb ⟨hu, hr⟩
    exact ⟨hu.mono ha hb, hr⟩
  · intro a b u ⟨hu, hr⟩
    exact ⟨hu.trade, hr⟩

/-- With `LZMA_IN_REQUIRED` bytes ahead, the decoder can decode the longest
symbol, of 22 bits with probabilities and 26 direct bits, and normalise. -/
theorem affords_symbol {c : LzmaCoder} (hprobs : c.probs.Good)
    (hlow : 31 * 2 ^ 13 ≤ c.rc.range.toNat)
    (hin : c.rc.inPos + lzmaInRequired ≤ c.rc.input.length) : Affords 22 26 c := by
  rw [lzmaInRequired] at hin
  refine ⟨hprobs, by omega, hlow, ?_⟩
  have hbytes : 256 ^ 21 ≤ 256 ^ (c.rc.input.length - c.rc.inPos) :=
    Nat.pow_le_pow_right (by norm_num) (by omega)
  calc 2 ^ 24 * 2 ^ (24 * 22 + 14 * 26)
      ≤ 31 * 2 ^ 13 * 256 ^ 21 * ((31 * 8191) ^ 22 * 8191 ^ 26) := by decide +kernel
    _ ≤ _ := Nat.mul_le_mul_right _ (Nat.mul_le_mul hlow hbytes)

/-! ## What the trees decode -/

/-- The array is among the probabilities. -/
def ProbArray.Inside (probs : ProbArray) : Prop := probs.base + probs.size ≤ probsTotal

instance (probs : ProbArray) : Decidable probs.Inside :=
  inferInstanceAs (Decidable (probs.base + probs.size ≤ probsTotal))

section Trees

variable {probs : ProbArray}

theorem ProbArray.bit_of_lt {i : Int} (h : 0 ≤ i) (hi : i < probs.size) :
    probs.bit i = .askBit (probs.base + i.toNat) := if_pos ⟨h, hi⟩

theorem within_probBit (hin : probs.Inside) {i : Int} (h : 0 ≤ i) (hi : i < probs.size) :
    LzmaWithin 1 0 (fun _ => True) (probs.bit i) := by
  rw [probs.bit_of_lt h hi]
  rw [ProbArray.Inside] at hin
  exact Decision.within_askBit (by omega) fun _ => trivial

theorem within_rcBittreeFrom (hin : probs.Inside) {k : Nat} (hsize : 2 ^ k ≤ probs.size) :
    ∀ n j symbol, j + n = k → 0 < n → 2 ^ j ≤ symbol → symbol < 2 ^ (j + 1) →
      ∀ fuel, n ≤ fuel → LzmaWithin n 0
        (fun x => 2 ^ k ≤ x ∧ x < 2 ^ (k + 1)) (rcBittreeFrom probs (2 ^ k) fuel symbol)
  | 0, _, _, _, hn, _, _, _, _ => absurd hn (Nat.lt_irrefl 0)
  | n + 1, j, symbol, hj, _, hlow, hhigh, 0, hfuel => absurd hfuel (Nat.not_succ_le_zero n)
  | n + 1, j, symbol, hj, _, hlow, hhigh, fuel + 1, hfuel => by
      have hjk : 2 ^ (j + 1) ≤ 2 ^ k := Nat.pow_le_pow_right (by omega) (by omega)
      have hdouble : 2 ^ (j + 1) = 2 * 2 ^ j := by rw [pow_succ']
      rw [rcBittreeFrom]
      have hask := within_probBit (i := (symbol : Int)) hin (by omega) (by omega)
      refine hask.bind_bit fun bit _ => ?_
      obtain ⟨next, hnext⟩ : ∃ next, next = if bit = true then symbol * 2 + 1 else symbol * 2 :=
        ⟨_, rfl⟩
      have hrange : 2 ^ (j + 1) ≤ next ∧ next < 2 ^ (j + 1 + 1) := by
        rw [pow_succ 2 (j + 1)]
        cases bit <;> simp only [if_true, if_false, Bool.false_eq_true] at hnext <;> omega
      simp only [← hnext]
      rcases Nat.eq_zero_or_pos n with rfl | hn
      · obtain rfl : j + 1 = k := by omega
        rw [if_neg (by omega)]
        exact .done hrange
      · have hlt : 2 ^ (j + 1 + 1) ≤ 2 ^ k := Nat.pow_le_pow_right (by omega) (by omega)
        rw [if_pos (by omega)]
        exact within_rcBittreeFrom hin hsize n (j + 1) next (by omega) hn hrange.1 hrange.2 fuel
          (by omega)

/-- A tree of `2 ^ k` leaves takes `k` bits. -/
theorem within_rcBittree (hin : probs.Inside) {k : Nat} (hsize : 2 ^ k ≤ probs.size)
    (hk : 0 < k) (hk32 : k ≤ 32) :
    LzmaWithin k 0 (fun x => 2 ^ k ≤ x ∧ x < 2 ^ (k + 1))
      (rcBittree probs (2 ^ k)) :=
  within_rcBittreeFrom hin hsize k 0 1 (by omega) hk (by norm_num) (by norm_num) 32 hk32

theorem within_rcBittreeReverseFrom (hin : probs.Inside) {offset : Int} {k : Nat}
    (hfirst : 0 ≤ offset + 1) (hlast : offset + 2 ^ k ≤ probs.size) (d : Nat) :
    ∀ n j symbol dest, j + n = k → 0 < n → 2 ^ j ≤ symbol → symbol < 2 ^ (j + 1) →
      d ≤ dest → dest < d + 2 ^ j →
      ∀ fuel, n ≤ fuel → LzmaWithin n 0
        (fun x => d ≤ x ∧ x < d + 2 ^ k) (rcBittreeReverseFrom probs offset k fuel j symbol dest)
  | 0, _, _, _, _, hn, _, _, _, _, _, _ => absurd hn (Nat.lt_irrefl 0)
  | n + 1, _, _, _, _, _, _, _, _, _, 0, hfuel => absurd hfuel (Nat.not_succ_le_zero n)
  | n + 1, j, symbol, dest, hj, _, hlow, hhigh, hd, hdest, fuel + 1, hfuel => by
      have hjk : 2 ^ (j + 1) ≤ 2 ^ k := Nat.pow_le_pow_right (by omega) (by omega)
      have hdouble : 2 ^ (j + 1) = 2 * 2 ^ j := by rw [pow_succ']
      have hcast : (2 : Int) ^ k = ((2 ^ k : Nat) : Int) := by push_cast; rfl
      rw [rcBittreeReverseFrom]
      have hask := within_probBit (i := offset + symbol) hin (by omega) (by omega)
      refine hask.bind_bit fun bit _ => ?_
      obtain ⟨next, hnext⟩ : ∃ next, next = if bit = true then symbol * 2 + 1 else symbol * 2 :=
        ⟨_, rfl⟩
      obtain ⟨dest', hdest'⟩ : ∃ dest', dest' = if bit = true then dest + 2 ^ j else dest :=
        ⟨_, rfl⟩
      have hrange : 2 ^ (j + 1) ≤ next ∧ next < 2 ^ (j + 1 + 1) := by
        rw [pow_succ 2 (j + 1)]
        cases bit <;> simp only [if_true, if_false, Bool.false_eq_true] at hnext <;> omega
      have hrange' : d ≤ dest' ∧ dest' < d + 2 ^ (j + 1) := by
        cases bit <;> simp only [if_true, if_false, Bool.false_eq_true] at hdest' <;> omega
      simp only [← hnext, ← hdest']
      by_cases hn : j + 1 < k
      · rw [if_pos hn]
        exact within_rcBittreeReverseFrom hin hfirst hlast d n (j + 1) next dest' (by omega)
          (by omega) hrange.1 hrange.2 hrange'.1 hrange'.2 fuel (by omega)
      · obtain rfl : j + 1 = k := by omega
        rw [if_neg hn]
        exact .done hrange'

/-- A reverse tree of `k` bits adds less than `2 ^ k`. -/
theorem within_rcBittreeReverse (hin : probs.Inside) {offset : Int} {k dest : Nat}
    (hfirst : 0 ≤ offset + 1) (hlast : offset + 2 ^ k ≤ probs.size) (hk : 0 < k)
    (hk32 : k ≤ 32) :
    LzmaWithin k 0 (fun x => dest ≤ x ∧ x < dest + 2 ^ k)
      (rcBittreeReverse probs offset dest k) :=
  within_rcBittreeReverseFrom hin hfirst hlast dest k 0 1 dest (by omega) hk (by norm_num)
    (by norm_num) (Nat.le_refl _) (by omega) 32 hk32

theorem within_rcDirectFrom (n : Nat) : ∀ dest,
    LzmaWithin 0 n (fun x => dest * 2 ^ n ≤ x ∧ x < (dest + 1) * 2 ^ n)
      (rcDirectFrom n dest) := by
  induction n with
  | zero =>
      intro dest
      exact .done (by omega)
  | succ n ih =>
      intro dest
      have hask : LzmaWithin 0 1 (fun _ => True) .askDirect :=
        Decision.within_askDirect fun _ => trivial
      rw [rcDirectFrom]
      refine hask.bind_direct fun bit _ =>
        (ih _).mono (Nat.le_refl _) (Nat.le_refl _) fun x hx => ?_
      obtain ⟨hlow, hhigh⟩ := hx
      rw [pow_succ']
      constructor
      · refine Nat.le_trans ?_ hlow
        rw [← Nat.mul_assoc]
        exact Nat.mul_le_mul_right _ (by omega)
      · refine Nat.lt_of_lt_of_le hhigh ?_
        rw [← Nat.mul_assoc]
        exact Nat.mul_le_mul_right _ (by split <;> omega)

theorem within_rcDirect {n : Nat} (hn : 0 < n) (dest : Nat) :
    LzmaWithin 0 n (fun x => dest * 2 ^ n ≤ x ∧ x < (dest + 1) * 2 ^ n)
      (rcDirect dest n) := by
  rw [rcDirect, if_neg (by omega)]
  exact within_rcDirectFrom n dest

end Trees

end Ccr2004
