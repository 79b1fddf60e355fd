import Ccr2004.LzmaRead

/-!
# What LZMA data means

The decoder of `xz_dec_lzma2.c` keeps a window, stops at limits and reads from
buffers that end. This file says what the data means without any of that: a
history that only grows, symbols that append to it (`LzmaHistory.symbol`,
`LzmaHistory.accept`) and a range decoder over a list of bytes. `LzmaCoded` is
the data of one chunk: symbols, and at their end nothing is left of the bytes
and of the code.

`run_agrees` is the tie to the range decoder of the source: wherever both
decode a symbol they decode the same one.
-/

namespace Ccr2004

/-! ## The model of the bits -/

/-- `RC_TOP_VALUE`. -/
def rcTop : Nat := 2 ^ 24

/-- How `rc_bit` cuts the range, and what it learns. -/
def lzmaModel : BitModel Nat Probs where
  bound probs i r := r / 2048 * (probs i).toNat
  learn probs i bit := Function.update probs i
    (if bit then probs i - (probs i >>> 5) else probs i + ((2048 - probs i) >>> 5))

theorem lzmaModel_lawful : lzmaModel.Lawful rcTop Probs.Good (· < probsTotal) where
  pos := by decide
  low probs i r hp hi hr := by
    obtain ⟨-, -, hlow, -, -⟩ := cut_ge hr (hp i hi)
    simp only [lzmaModel, rcTop]
    omega
  high probs i r hp hi hr := by
    obtain ⟨-, -, -, hhigh, hlt⟩ := cut_ge hr (hp i hi)
    simp only [lzmaModel, rcTop]
    omega
  half r hr := by
    simp only [rcTop] at *
    omega
  learn probs i bit hp hi := by
    cases bit with
    | false => exact hp.update (prob_up (hp i hi))
    | true => exact hp.update (prob_down (hp i hi))

/-- The range decoder over a list of bytes. -/
abbrev LzmaRange := RangeState Probs

def lzmaRangeSource : Decision.BitSource Nat LzmaRange := RangeState.source lzmaModel rcTop

/-! ## The history -/

/-- What has been said so far, newest byte first, and the decoder between two
symbols. -/
structure LzmaHistory where
  past : List UInt8
  dec : LzmaDec
deriving Repr, DecidableEq

namespace LzmaHistory

/-- The literal coder follows the byte before and the position. -/
def literalProbs (h : LzmaHistory) : ProbArray :=
  literalCoder ((h.past[0]?.getD 0).toNat >>> (8 - h.dec.lc)
    + (h.past.length &&& h.dec.literalPosMask) <<< h.dec.lc)

def literal (h : LzmaHistory) : Decision Nat Nat :=
  if h.dec.state.isLiteral then rcBittree h.literalProbs 0x100
  else lzmaMatched h.literalProbs (h.past[h.dec.rep0]?.getD 0)

/-- The symbol that comes next: a byte, or the decoder with the length and the
distance of a copy. -/
def symbol (h : LzmaHistory) : Decision Nat (UInt8 ⊕ LzmaDec) := do
  let posState := h.past.length &&& h.dec.posMask
  if !(← (isMatch h.dec.state).bit posState) then return .inl (UInt8.ofNat (← h.literal))
  else return .inr (← lzmaAnyMatch h.dec posState)

/-- A symbol appended to the history; no distance goes past its beginning or
past a dictionary of `size` bytes. -/
def accept (size : Nat) (h : LzmaHistory) : UInt8 ⊕ LzmaDec → Option LzmaHistory
  | .inl byte => some ⟨byte :: h.past, { h.dec with state := h.dec.state.literal }⟩
  | .inr dec =>
      if dec.rep0 < h.past.length ∧ dec.rep0 < size then
        some ⟨Lz77.copies dec.rep0 dec.len h.past, { dec with len := 0 }⟩
      else none

/-- The decoder is in order, and after a match its distance is valid. -/
structure Ok (h : LzmaHistory) : Prop where
  dec : h.dec.Ok
  rep0 : h.dec.state.isLiteral = false → h.dec.rep0 < h.past.length

section Within

variable {h : LzmaHistory}

theorem literalProbs_lt (hok : h.dec.Ok) : ∃ i < 16, h.literalProbs = literalCoder i := by
  obtain ⟨lp, hmask, hsum⟩ := hok.literal
  have hlow : (h.past[0]?.getD 0).toNat >>> (8 - h.dec.lc) < 2 ^ h.dec.lc := by
    have hbyte : (h.past[0]?.getD 0).toNat < 2 ^ 8 := (h.past[0]?.getD 0).toNat_lt
    rw [Nat.shiftRight_eq_div_pow]
    apply Nat.div_lt_of_lt_mul
    rwa [← pow_add, Nat.sub_add_cancel (by omega)]
  have hhigh : (h.past.length &&& h.dec.literalPosMask) <<< h.dec.lc
      ≤ (2 ^ lp - 1) * 2 ^ h.dec.lc := by
    rw [Nat.shiftLeft_eq, hmask]
    exact Nat.mul_le_mul_right _ Nat.and_le_right
  have hpow : (2 ^ lp - 1) * 2 ^ h.dec.lc + 2 ^ h.dec.lc = 2 ^ (lp + h.dec.lc) := by
    rw [pow_add, Nat.sub_mul, Nat.one_mul]
    exact Nat.sub_add_cancel (Nat.le_mul_of_pos_left _ (Nat.two_pow_pos lp))
  have h16 : 2 ^ (lp + h.dec.lc) ≤ 2 ^ 4 := Nat.pow_le_pow_right (by omega) (by omega)
  exact ⟨_, by omega, rfl⟩

theorem within_literal (hok : h.dec.Ok) : LzmaWithin 8 0 (fun _ => True) h.literal := by
  obtain ⟨i, hi, hprobs⟩ := literalProbs_lt hok
  have hin := literalCoder_inside hi
  rw [literal, hprobs]
  split
  · exact (within_rcBittree hin (k := 8) (show 2 ^ 8 ≤ 0x300 by decide) (by decide)
      (by decide)).imp fun _ _ => trivial
  · exact within_lzmaMatchedFrom hin rfl 8 0 1 rfl (by decide) (by decide) (by decide) _ _
      (by decide) 32 (by decide)

/-- What a symbol may be. -/
def Sent (h : LzmaHistory) : UInt8 ⊕ LzmaDec → Prop
  | .inl _ => True
  | .inr dec => h.dec.Matched dec

theorem within_symbol (hok : h.dec.Ok) : LzmaWithin 22 26 h.Sent h.symbol := by
  have hstate := h.dec.state.index_lt
  have hposState : h.past.length &&& h.dec.posMask < 16 :=
    Nat.lt_of_le_of_lt Nat.and_le_right hok.posMask
  have hask := within_probBit (i := (h.past.length &&& h.dec.posMask : Nat))
    (by simp only [ProbArray.Inside, isMatch, probsTotal]; omega : (isMatch h.dec.state).Inside)
    (by omega) (by simp only [isMatch]; omega)
  rw [symbol]
  refine hask.bind_bit fun isMatch _ => ?_
  cases isMatch with
  | false =>
      rw [Bool.not_false, if_pos rfl]
      exact ((within_literal hok).then_free fun _ _ => .done trivial).mono (by decide) (by decide)
        fun _ hx => hx
  | true =>
      rw [Bool.not_true, if_neg (by decide)]
      exact (within_lzmaAnyMatch hok hposState).then_free fun _ hm => .done hm

/-- A symbol begins with a predicted bit. -/
theorem symbol_eq_bit (hok : h.dec.Ok) : ∃ i next, h.symbol = .bit i next := by
  have hposState : h.past.length &&& h.dec.posMask < 16 :=
    Nat.lt_of_le_of_lt Nat.and_le_right hok.posMask
  rw [symbol, ProbArray.bit_of_lt (by omega) (by simp only [isMatch]; omega)]
  exact ⟨_, _, rfl⟩

theorem accept_ok {size : Nat} {h' : LzmaHistory} {x : UInt8 ⊕ LzmaDec} (hok : h.Ok)
    (hsent : h.Sent x) (hacc : h.accept size x = some h') :
    h'.Ok ∧ h.past.length < h'.past.length ∧ h.past <:+ h'.past ∧ h.dec.SameProps h'.dec := by
  cases x with
  | inl byte =>
      cases hacc
      refine ⟨⟨⟨hok.dec.literal, hok.dec.posMask, hok.dec.len, hok.dec.rep0, hok.dec.rep1,
        hok.dec.rep2, hok.dec.rep3⟩, fun hlit => ?_⟩, Nat.lt_succ_self _, List.suffix_cons _ _,
        ⟨rfl, rfl, rfl⟩⟩
      exact absurd hlit (by rw [LzmaState.isLiteral_literal]; decide)
  | inr dec =>
      have hm : h.dec.Matched dec := hsent
      rw [accept] at hacc
      split at hacc
      · rename_i hvalid
        cases hacc
        have hdec := hok.dec.of_matched hm
        have hlen : (Lz77.copies dec.rep0 dec.len h.past).length = h.past.length + dec.len :=
          Lz77.length_copies hvalid.1
        refine ⟨⟨⟨hdec.literal, hdec.posMask, Nat.zero_le _, hdec.rep0, hdec.rep1, hdec.rep2,
          hdec.rep3⟩, fun _ => ?_⟩, ?_, Lz77.suffix_copies _ _ _,
          ⟨hm.lc, hm.literalPosMask, hm.posMask⟩⟩
        · simp only [hlen]
          omega
        · have := hm.len_pos
          simp only [hlen]
          omega
      · cases hacc

end Within

end LzmaHistory

/-! ## The data of a chunk -/

/-- From the history `h` and the range decoder `m` on, symbols lead to the
history `h'`; then all bytes have been read, and the code is 0. -/
inductive LzmaCoded (size : Nat) : LzmaHistory → LzmaRange → LzmaHistory → Probs → Prop where
  | done {h : LzmaHistory} {m m' : LzmaRange} (hend : m.normalize rcTop = .ok m')
      (hcode : m'.code = 0) (hrest : m'.rest = []) : LzmaCoded size h m h m'.model
  | symbol {h h' h'' : LzmaHistory} {m m' : LzmaRange} {x : UInt8 ⊕ LzmaDec} {probs : Probs}
      (hrun : h.symbol.run lzmaRangeSource m = .ok (x, m')) (hacc : h.accept size x = some h')
      (hcoded : LzmaCoded size h' m' h'' probs) : LzmaCoded size h m h'' probs

section Coded

variable {size : Nat} {h h' : LzmaHistory} {m : LzmaRange} {probs : Probs}

/-- There are the bytes to normalise with. -/
theorem LzmaCoded.normalize (hc : LzmaCoded size h m h' probs) (hok : h.dec.Ok) :
    ∃ m', m.normalize rcTop = .ok m' := by
  cases hc with
  | done hend => exact ⟨_, hend⟩
  | symbol hrun =>
      obtain ⟨i, next, hbit⟩ := h.symbol_eq_bit hok
      rw [hbit] at hrun
      obtain ⟨r, hr, -⟩ := bind_eq_ok.mp hrun
      obtain ⟨m', hm', -⟩ := bind_eq_ok.mp hr
      exact ⟨m', hm'⟩

/-- Only the normalised decoder matters. -/
theorem LzmaCoded.congr (hc : LzmaCoded size h m h' probs) (hok : h.dec.Ok) {m' : LzmaRange}
    (heq : m'.normalize rcTop = m.normalize rcTop) : LzmaCoded size h m' h' probs := by
  cases hc with
  | done hend hcode hrest => exact .done (heq.trans hend) hcode hrest
  | symbol hrun hacc hcoded =>
      obtain ⟨i, next, hbit⟩ := h.symbol_eq_bit hok
      rw [hbit, lzmaRangeSource, RangeState.run_bit_congr heq.symm, ← lzmaRangeSource, ← hbit]
        at hrun
      exact .symbol hrun hacc hcoded

end Coded

/-! ## The range decoder of the source -/

/-- The decoder `c` over its input is `m`, with the bytes `after` not yet in the
input. -/
structure LzmaCoder.Shows (c : LzmaCoder) (after : List UInt8) (m : LzmaRange) : Prop where
  probs : m.model = c.probs
  good : c.probs.Good
  range : m.range = c.rc.range.toNat
  code : m.code = c.rc.code.toNat
  lt : m.code < m.range
  rest : m.rest = c.rc.input.drop c.rc.inPos ++ after

section Agrees

variable {c c' : LzmaCoder} {after : List UInt8} {m m' : LzmaRange}

theorem drop_of_getElem? {l : List UInt8} {i : Nat} {byte : UInt8} (h : l[i]? = some byte) :
    l.drop i = byte :: l.drop (i + 1) := by
  obtain ⟨hlt, rfl⟩ := List.getElem?_eq_some_iff.mp h
  exact List.drop_eq_getElem_cons hlt

/-- Both normalise, and with one byte. -/
theorem LzmaCoder.Shows.normalize {rc : RcDec} (hs : c.Shows after m) (hc : c.rc.normalize = .ok rc)
    (hm : m.normalize rcTop = .ok m') : LzmaCoder.Shows ⟨rc, c.probs⟩ after m' := by
  obtain ⟨hprobs, hgood, hrange, hcode, hlt, hrest⟩ := hs
  rw [RcDec.normalize] at hc
  rw [RangeState.normalize] at hm
  by_cases hr : c.rc.range < 0x1000000
  · have hrn : c.rc.range.toNat < 2 ^ 24 := UInt32.lt_iff_toNat_lt.mp hr
    rw [if_pos hr] at hc
    rw [if_pos (by rw [hrange, rcTop]; exact hrn)] at hm
    cases hbyte : c.rc.input[c.rc.inPos]? with
    | none =>
        rw [hbyte] at hc
        cases hc
    | some byte =>
        rw [hbyte] at hc
        rw [hrest, drop_of_getElem? hbyte] at hm
        cases hc
        cases hm
        have h8 : (8 : UInt32).toNat % 32 = 8 := rfl
        have hrange' : (c.rc.range <<< 8).toNat = c.rc.range.toNat * 256 := by
          rw [UInt32.toNat_shiftLeft, Nat.shiftLeft_eq, h8]
          omega
        have hbytelt := byte.toNat_lt
        have hcode' : ((c.rc.code <<< 8) + byte.toUInt32).toNat
            = c.rc.code.toNat * 256 + byte.toNat := by
          rw [UInt32.toNat_add, UInt32.toNat_shiftLeft, Nat.shiftLeft_eq, h8,
            UInt8.toNat_toUInt32]
          omega
        refine ⟨hprobs, hgood, ?_, ?_, ?_, rfl⟩
        · simp only [hrange', hrange]
        · simp only [hcode', hcode]
        · simp only
          omega
  · have hrn : 2 ^ 24 ≤ c.rc.range.toNat := Nat.le_of_not_lt fun hlt' =>
      hr (UInt32.lt_iff_toNat_lt.mpr hlt')
    rw [if_neg hr] at hc
    rw [if_neg (by rw [hrange, rcTop]; omega)] at hm
    cases hc
    cases hm
    exact ⟨hprobs, hgood, hrange, hcode, hlt, hrest⟩

theorem rcBit_agrees {i : Nat} {bit bit' : Bool} (hi : i < probsTotal) (hs : c.Shows after m)
    (hc : rcBit i c = .ok (bit, c')) (hm : lzmaRangeSource.bit i m = .ok (bit', m')) :
    bit = bit' ∧ c'.Shows after m' := by
  obtain ⟨rc, hrc, hc⟩ := bind_eq_ok.mp hc
  obtain ⟨m1, hm1, hm⟩ := bind_eq_ok.mp hm
  obtain ⟨hprobs, hgood, hrange, hcode, hlt, hrest⟩ := hs.normalize hrc hm1
  have hp := hgood i hi
  simp only at hprobs hgood hrange hcode hlt hrest hp
  have hbound : ((rc.range >>> 11) * (c.probs i).toUInt32).toNat
      = rc.range.toNat / 2048 * (c.probs i).toNat := by
    have hlt32 := rc.range.toNat_lt
    have hshift : (rc.range >>> 11).toNat = rc.range.toNat / 2048 := by
      rw [UInt32.toNat_shiftRight, Nat.shiftRight_eq_div_pow]
      rfl
    have hle : rc.range.toNat / 2048 * (c.probs i).toNat ≤ rc.range.toNat / 2048 * 2017 :=
      Nat.mul_le_mul_left _ hp.2
    rw [UInt32.toNat_mul, hshift, UInt16.toNat_toUInt32]
    exact Nat.mod_eq_of_lt (by omega)
  have hcut : lzmaModel.bound m1.model i m1.range = rc.range.toNat / 2048 * (c.probs i).toNat := by
    simp only [lzmaModel, hprobs, hrange]
  have hle : rc.range.toNat / 2048 * (c.probs i).toNat ≤ rc.range.toNat := by
    have hmul : rc.range.toNat / 2048 * (c.probs i).toNat ≤ rc.range.toNat / 2048 * 2017 :=
      Nat.mul_le_mul_left _ hp.2
    omega
  simp only [hcut] at hm
  simp only at hc
  split at hc
  · rename_i hbit
    rw [UInt32.lt_iff_toNat_lt, hbound] at hbit
    rw [if_pos (by omega)] at hm
    cases hc
    cases hm
    refine ⟨rfl, ?_, hgood.update (prob_up hp), hbound.symm, hcode, ?_, hrest⟩
    · simp only [lzmaModel, hprobs]
      rfl
    · simp only
      omega
  · rename_i hbit
    rw [UInt32.lt_iff_toNat_lt, hbound] at hbit
    rw [if_neg (by omega)] at hm
    cases hc
    cases hm
    have hsub : (rc.range - (rc.range >>> 11) * (c.probs i).toUInt32).toNat
        = rc.range.toNat - rc.range.toNat / 2048 * (c.probs i).toNat := by
      rw [UInt32.toNat_sub_of_le _ _ (UInt32.le_iff_toNat_le.mpr (by omega)), hbound]
    have hsub' : (rc.code - (rc.range >>> 11) * (c.probs i).toUInt32).toNat
        = rc.code.toNat - rc.range.toNat / 2048 * (c.probs i).toNat := by
      rw [UInt32.toNat_sub_of_le _ _ (UInt32.le_iff_toNat_le.mpr (by omega)), hbound]
    refine ⟨rfl, ?_, hgood.update (prob_down hp), ?_, ?_, ?_, hrest⟩
    · simp only [lzmaModel, hprobs]
      rfl
    · simp only [hsub, hrange]
    · simp only [hsub', hcode]
    · simp only
      omega

theorem rcDirectBit_agrees {bit bit' : Bool} (hs : c.Shows after m)
    (hc : rcDirectBit c = .ok (bit, c')) (hm : lzmaRangeSource.direct m = .ok (bit', m')) :
    bit = bit' ∧ c'.Shows after m' := by
  obtain ⟨rc, hrc, hc⟩ := bind_eq_ok.mp hc
  obtain ⟨m1, hm1, hm⟩ := bind_eq_ok.mp hm
  obtain ⟨hprobs, hgood, hrange, hcode, hlt, hrest⟩ := hs.normalize hrc hm1
  simp only at hprobs hgood hrange hcode hlt hrest
  have hr32 := rc.range.toNat_lt
  have hhalf : (rc.range >>> 1).toNat = rc.range.toNat / 2 := by
    rw [UInt32.toNat_shiftRight, Nat.shiftRight_eq_div_pow]
    rfl
  have hc31 : ∀ x : UInt32, (x >>> 31).toNat = x.toNat / 2 ^ 31 := fun x => by
    rw [UInt32.toNat_shiftRight, Nat.shiftRight_eq_div_pow]
    rfl
  simp only [hrange, hcode] at hm
  cases hc
  by_cases hlow : rc.code.toNat < rc.range.toNat / 2
  · -- the difference wraps round, and the mask adds the half again
    rw [if_pos hlow] at hm
    cases hm
    have hsub : (rc.code - rc.range >>> 1).toNat
        = 2 ^ 32 - rc.range.toNat / 2 + rc.code.toNat := by
      rw [UInt32.toNat_sub, hhalf]
      omega
    have hmask : (rc.code - rc.range >>> 1) >>> 31 = 1 := UInt32.toNat_inj.mp (by
      rw [hc31, hsub, show (1 : UInt32).toNat = 1 from rfl]
      omega)
    have hback : rc.code - rc.range >>> 1 + (rc.range >>> 1 &&& ((0 : UInt32) - 1)) = rc.code := by
      rw [show (0 - 1 : UInt32) = -1 from rfl, UInt32.and_neg_one, UInt32.sub_add_cancel]
    rw [hmask, hback]
    refine ⟨rfl, hprobs, hgood, hhalf.symm, rfl, hlow, hrest⟩
  · rw [if_neg hlow] at hm
    split at hm
    · rename_i hhigh
      cases hm
      have hsub : (rc.code - rc.range >>> 1).toNat = rc.code.toNat - rc.range.toNat / 2 := by
        rw [UInt32.toNat_sub_of_le _ _ (UInt32.le_iff_toNat_le.mpr (by omega)), hhalf]
      have hmask : (rc.code - rc.range >>> 1) >>> 31 = 0 := UInt32.toNat_inj.mp (by
        rw [hc31, hsub, show (0 : UInt32).toNat = 0 from rfl]
        omega)
      have hkeep : rc.code - rc.range >>> 1 + (rc.range >>> 1 &&& (0 : UInt32))
          = rc.code - rc.range >>> 1 := by
        rw [UInt32.and_zero, UInt32.add_zero]
      rw [hmask, UInt32.sub_zero, hkeep]
      exact ⟨rfl, hprobs, hgood, hhalf.symm, hsub.symm, hhigh, hrest⟩
    · cases hm

/-- Wherever both decode a symbol, it is the same one, and they still agree. -/
theorem run_agrees {α : Type} {a b : Nat} {Q : α → Prop} {p : Decision Nat α} {x y : α}
    (hp : LzmaWithin a b Q p) (hs : c.Shows after m) (hc : p.run lzmaSource c = .ok (x, c'))
    (hm : p.run lzmaRangeSource m = .ok (y, m')) : x = y ∧ c'.Shows after m' :=
  Decision.run_agree (R := fun c m => LzmaCoder.Shows c after m)
    (fun _ _ _ _ _ _ _ hi hs hc hm => rcBit_agrees hi hs hc hm)
    (fun _ _ _ _ _ _ hs hc hm => rcDirectBit_agrees hs hc hm) hp hs hc hm

end Agrees

end Ccr2004
