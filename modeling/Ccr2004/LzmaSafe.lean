import Ccr2004.LzmaDec
import Mathlib.Tactic.IntervalCases

/-!
# What one LZMA symbol may do

`within_lzmaSymbol`: from a state with the invariants `Lzma.Ok`, and with space
in the dictionary, a symbol takes at most 22 bits with probabilities and 26
direct bits on every path, reads no probability outside its array and no byte
outside the dictionary, and leaves the invariants. `lzmaMain_total` is the loop
over symbols: it ends without a fault as long as `LZMA_IN_REQUIRED` bytes follow
the limit of the input.
-/

namespace Ccr2004

/-- The decoded properties and the ranges of what is decoded. -/
structure LzmaDec.Ok (dec : LzmaDec) : Prop where
  literal : ∃ lp, dec.literalPosMask = 2 ^ lp - 1 ∧ dec.lc + lp ≤ 4
  posMask : dec.posMask < 16
  len : dec.len ≤ 273
  rep0 : dec.rep0 < 2 ^ 32
  rep1 : dec.rep1 < 2 ^ 32
  rep2 : dec.rep2 < 2 ^ 32
  rep3 : dec.rep3 < 2 ^ 32

/-- The state between two symbols, over the history `past`: after a match its
distance is one that can be read. -/
structure Lzma.Ok (s : Lzma) (past : List UInt8) : Prop where
  dict : s.dict.Holds past
  dec : s.dec.Ok
  rep0 : s.dec.state.isLiteral = false ∨ 0 < s.dec.len →
    s.dec.rep0 < s.dict.full ∧ s.dec.rep0 < s.dict.size

/-- `s'` is `s` with `bytes` written below the limit. -/
structure Lzma.Wrote (s s' : Lzma) (bytes : List UInt8) : Prop where
  dict : s'.dict = (s.dict.written bytes).fill
  limit : s.dict.pos + bytes.length ≤ s.dict.limit

/-! ## Literals -/

section Literal

variable {s : Lzma} {past : List UInt8}

/-- The literal coder is one of the 16. -/
theorem lzmaLiteralProbs_ok (h : s.Ok past) :
    ∃ i, i < 16 ∧ lzmaLiteralProbs s = .ok (literalCoder i) := by
  obtain ⟨lp, hmask, hsum⟩ := h.dec.literal
  have hget : s.dict.get 0 = .ok (past[0]?.getD 0) := h.dict.get (by
    rcases h.dict.full_pos_or_nil with hpos | hnil
    · exact Or.inl hpos
    · exact Or.inr hnil)
  have hlow : (past[0]?.getD 0).toNat >>> (8 - s.dec.lc) < 2 ^ s.dec.lc := by
    have hbyte : (past[0]?.getD 0).toNat < 2 ^ 8 := (past[0]?.getD 0).toNat_lt
    rw [Nat.shiftRight_eq_div_pow]
    apply Nat.div_lt_of_lt_mul
    rwa [← pow_add, Nat.sub_add_cancel (by omega)]
  have hhigh : (s.dict.pos &&& s.dec.literalPosMask) <<< s.dec.lc
      ≤ (2 ^ lp - 1) * 2 ^ s.dec.lc := by
    rw [Nat.shiftLeft_eq, hmask]
    exact Nat.mul_le_mul_right _ Nat.and_le_right
  have hpow : (2 ^ lp - 1) * 2 ^ s.dec.lc + 2 ^ s.dec.lc = 2 ^ (lp + s.dec.lc) := by
    rw [pow_add, Nat.sub_mul, Nat.one_mul]
    exact Nat.sub_add_cancel (Nat.le_mul_of_pos_left _ (Nat.two_pow_pos lp))
  have h16 : 2 ^ (lp + s.dec.lc) ≤ 2 ^ 4 := Nat.pow_le_pow_right (by omega) (by omega)
  refine ⟨(past[0]?.getD 0).toNat >>> (8 - s.dec.lc)
    + (s.dict.pos &&& s.dec.literalPosMask) <<< s.dec.lc, by omega, ?_⟩
  simp only [lzmaLiteralProbs, hget, ok_bind]
  rw [checkIndex, if_pos (by omega), ok_bind]

theorem literalCoder_inside {i : Nat} (hi : i < 16) : (literalCoder i).Inside := by
  simp only [ProbArray.Inside, literalCoder, probsTotal]
  omega

/-- The bits of a literal after a match: both halves of the table of the match
bit lie behind the plain one. -/
theorem within_lzmaMatchedFrom {probs : ProbArray} (hin : probs.Inside)
    (hsize : probs.size = 0x300) :
    ∀ n j symbol, j + n = 8 → 0 < n → 2 ^ j ≤ symbol → symbol < 2 ^ (j + 1) →
      ∀ (matchByte offset : UInt32), offset.toNat ≤ 256 → ∀ fuel, n ≤ fuel →
        LzmaWithin n 0 (fun _ => True) (lzmaMatchedFrom probs fuel symbol matchByte offset)
  | 0, _, _, _, hn, _, _, _, _, _, _, _ => absurd hn (Nat.lt_irrefl 0)
  | n + 1, _, _, _, _, _, _, _, _, _, 0, hfuel => absurd hfuel (Nat.not_succ_le_zero n)
  | n + 1, j, symbol, hj, _, hlow, hhigh, matchByte, offset, hoffset, fuel + 1, hfuel => by
      have hj8 : 2 ^ (j + 1) ≤ 2 ^ 8 := Nat.pow_le_pow_right (by omega) (by omega)
      have hdouble : 2 ^ (j + 1) = 2 * 2 ^ j := by rw [pow_succ']
      have hbit : (matchByte &&& offset).toNat ≤ offset.toNat := by
        rw [UInt32.toNat_and]
        exact Nat.and_le_right
      have hask := within_probBit
        (i := (offset.toNat : Int) + (matchByte &&& offset).toNat + symbol) hin (by omega)
        (by rw [hsize]; omega)
      rw [lzmaMatchedFrom]
      refine hask.bind_bit fun bit _ => ?_
      obtain ⟨next, hnext⟩ : ∃ next, next = if bit = true then symbol * 2 + 1 else symbol * 2 :=
        ⟨_, rfl⟩
      have hrange : 2 ^ (j + 1) ≤ next ∧ next < 2 ^ (j + 1 + 1) := by
        rw [pow_succ 2 (j + 1)]
        cases bit <;> simp only [if_true, if_false, Bool.false_eq_true] at hnext <;> omega
      have hoffset' : (if bit = true then offset &&& (matchByte &&& offset)
          else offset &&& ~~~(matchByte &&& offset)).toNat ≤ 256 := by
        cases bit <;> simp only [if_true, if_false, Bool.false_eq_true, UInt32.toNat_and] <;>
          exact Nat.le_trans Nat.and_le_left hoffset
      simp only [← hnext]
      by_cases hn : next < 0x100
      · rw [if_pos hn]
        have hj7 : j + 1 < 8 := by
          by_contra hge
          obtain rfl : j = 7 := by omega
          omega
        exact within_lzmaMatchedFrom hin hsize n (j + 1) next (by omega) (by omega) hrange.1
          hrange.2 _ _ hoffset' fuel (by omega)
      · rw [if_neg hn]
        exact .done trivial

theorem within_lzmaLiteralSymbol (h : s.Ok past) {i : Nat} (hi : i < 16) :
    LzmaWithin 8 0 (fun _ => True) (lzmaLiteralSymbol s (literalCoder i)) := by
  have hin := literalCoder_inside hi
  rw [lzmaLiteralSymbol]
  split
  · exact (within_rcBittree hin (k := 8) (show 2 ^ 8 ≤ 0x300 by decide) (by decide)
      (by decide)).imp fun _ _ => trivial
  · rename_i hlit
    have hget := h.dict.get (Or.inl (h.rep0 (Or.inl (by simpa using hlit))).1)
    rw [hget, Decision.ofRun_ok, Decision.done_bind]
    exact within_lzmaMatchedFrom hin rfl 8 0 1 rfl (by decide) (by decide) (by decide) _ _
      (by decide) 32 (by decide)

theorem within_lzmaLiteral (h : s.Ok past) (hspace : s.dict.pos < s.dict.limit) :
    LzmaWithin 8 0 (fun s' => ∃ byte, s' =
      { dict := (s.dict.written [byte]).fill
        dec := { s.dec with state := s.dec.state.literal } }) (lzmaLiteral s) := by
  obtain ⟨i, hi, hprobs⟩ := lzmaLiteralProbs_ok h
  rw [lzmaLiteral, hprobs, Decision.ofRun_ok, Decision.done_bind]
  refine (within_lzmaLiteralSymbol h hi).then_free fun symbol _ => ?_
  rw [(h.dict.put hspace _).1, Decision.ofRun_ok, Decision.done_bind]
  exact .done ⟨_, rfl⟩

end Literal

/-! ## Matches -/

/-- Where the two length decoders are. -/
def LenDec.Inside (l : LenDec) : Prop := l.base + 514 ≤ probsTotal

instance (l : LenDec) : Decidable l.Inside :=
  inferInstanceAs (Decidable (l.base + 514 ≤ probsTotal))

theorem checkIndex_ok {i size : Nat} (h : i < size) : checkIndex i size = .ok () := if_pos h

/-- A length of 2 to 273 takes at most ten bits. -/
theorem within_lzmaLen {l : LenDec} (hin : l.Inside) {posState : Nat} (hpos : posState < 16) :
    LzmaWithin 10 0 (fun len => 2 ≤ len ∧ len ≤ 273) (lzmaLen l posState) := by
  rw [LenDec.Inside] at hin
  have hchoice : l.choice.Inside := by
    simp only [ProbArray.Inside, LenDec.choice]
    omega
  have hchoice2 : l.choice2.Inside := by
    simp only [ProbArray.Inside, LenDec.choice2]
    omega
  have hlow : (l.low posState).Inside := by
    simp only [ProbArray.Inside, LenDec.low]
    omega
  have hmid : (l.mid posState).Inside := by
    simp only [ProbArray.Inside, LenDec.mid]
    omega
  have hhigh : l.high.Inside := by
    simp only [ProbArray.Inside, LenDec.high]
    omega
  have hask := within_probBit (i := 0) hchoice (by decide) (show (0 : Int) < 1 by decide)
  have hask2 := within_probBit (i := 0) hchoice2 (by decide) (show (0 : Int) < 1 by decide)
  rw [lzmaLen]
  refine hask.bind_bit fun atLeast10 _ => ?_
  cases atLeast10 with
  | false =>
      rw [Bool.not_false, if_pos rfl, checkIndex_ok hpos, Decision.ofRun_ok, Decision.done_bind]
      have htree := within_rcBittree hlow (k := 3) (show 2 ^ 3 ≤ 8 by decide) (by decide)
        (by decide)
      exact (htree.then_free fun x hx => .done (by omega)).mono (by decide) (Nat.le_refl _)
        fun _ hx => hx
  | true =>
      rw [Bool.not_true, if_neg (by decide)]
      refine hask2.bind_bit fun atLeast18 _ => ?_
      cases atLeast18 with
      | false =>
          rw [Bool.not_false, if_pos rfl, checkIndex_ok hpos, Decision.ofRun_ok,
            Decision.done_bind]
          have htree := within_rcBittree hmid (k := 3) (show 2 ^ 3 ≤ 8 by decide) (by decide)
            (by decide)
          exact (htree.then_free fun x hx => .done (by omega)).mono (by decide) (Nat.le_refl _)
            fun _ hx => hx
      | true =>
          rw [Bool.not_true, if_neg (by decide)]
          have htree := within_rcBittree hhigh (k := 8) (show 2 ^ 8 ≤ 256 by decide) (by decide)
            (by decide)
          exact htree.then_free fun x hx => .done (by omega)

/-- What a match leaves of the decoder: the properties it was given, and a
state that remembers the match. -/
structure LzmaDec.Matched (dec dec' : LzmaDec) : Prop where
  lc : dec'.lc = dec.lc
  literalPosMask : dec'.literalPosMask = dec.literalPosMask
  posMask : dec'.posMask = dec.posMask
  len_pos : 0 < dec'.len
  len : dec'.len ≤ 273
  rep0 : dec'.rep0 < 2 ^ 32
  rep1 : dec'.rep1 < 2 ^ 32
  rep2 : dec'.rep2 < 2 ^ 32
  rep3 : dec'.rep3 < 2 ^ 32

/-- The distance slots and what follows them: at most four bits with
probabilities and 26 direct ones, or five with probabilities. -/
theorem within_distance {dec : LzmaDec} (dec' : LzmaDec) (slot : Nat) (hslot : slot < 64)
    (hdec : ∀ rep0, rep0 < 2 ^ 32 → dec.Matched { dec' with rep0 := rep0 }) :
    LzmaWithin 4 26 dec.Matched
      (if slot < 4 then pure { dec' with rep0 := slot }
      else if slot < 14 then do
        let rep0 ← rcBittreeReverse distSpecial
          (((2 + slot % 2) * 2 ^ (slot / 2 - 1) : Nat) - slot - 1)
          ((2 + slot % 2) * 2 ^ (slot / 2 - 1)) (slot / 2 - 1)
        pure { dec' with rep0 := rep0 }
      else do
        let rep0 ← rcDirect (2 + slot % 2) (slot / 2 - 1 - 4)
        let rep0 ← rcBittreeReverse distAlign 0 (rep0 * 16) 4
        pure { dec' with rep0 := rep0 }) := by
  split
  · exact .done (hdec slot (by omega))
  · split
    · have htree : LzmaWithin (slot / 2 - 1) 0 (fun x => x < 2 ^ 32)
          (rcBittreeReverse distSpecial (((2 + slot % 2) * 2 ^ (slot / 2 - 1) : Nat) - slot - 1)
            ((2 + slot % 2) * 2 ^ (slot / 2 - 1)) (slot / 2 - 1)) := by
        refine (within_rcBittreeReverse (by decide) ?_ ?_ ?_ ?_).imp ?_
        · interval_cases slot <;> decide
        · interval_cases slot <;> decide
        · omega
        · omega
        · intro x hx
          interval_cases slot <;> norm_num at hx ⊢ <;> omega
      have hfive : LzmaWithin 5 0 dec.Matched (rcBittreeReverse distSpecial
          (((2 + slot % 2) * 2 ^ (slot / 2 - 1) : Nat) - slot - 1)
          ((2 + slot % 2) * 2 ^ (slot / 2 - 1)) (slot / 2 - 1) >>= fun rep0 =>
            pure { dec' with rep0 := rep0 }) :=
        (htree.then_free fun x hx => .done (hdec x hx)).mono (by omega) (Nat.le_refl _)
          fun _ hx => hx
      exact hfive.trade.mono (Nat.le_refl _) (by decide) fun _ hx => hx
    · obtain ⟨n, hn⟩ : ∃ n, n = slot / 2 - 1 - 4 := ⟨_, rfl⟩
      have hbits : 2 + slot % 2 + 1 ≤ 4 := by omega
      have hn26 : 2 ^ n ≤ 2 ^ 26 := Nat.pow_le_pow_right (by decide) (by omega)
      rw [← hn]
      have hdirect := within_rcDirect (n := n) (by omega) (2 + slot % 2)
      have hrest : ∀ x, (2 + slot % 2) * 2 ^ n ≤ x ∧ x < (2 + slot % 2 + 1) * 2 ^ n →
          LzmaWithin 4 0 dec.Matched (rcBittreeReverse distAlign 0 (x * 16) 4 >>= fun rep0 =>
            pure { dec' with rep0 := rep0 }) := by
        intro x hx
        have hx28 : x < 4 * 2 ^ 26 :=
          Nat.lt_of_lt_of_le hx.2 (Nat.mul_le_mul hbits hn26)
        have htree : LzmaWithin 4 0 (fun y => x * 16 ≤ y ∧ y < x * 16 + 2 ^ 4)
            (rcBittreeReverse distAlign 0 (x * 16) 4) :=
          within_rcBittreeReverse (by decide) (by decide) (by decide) (by decide) (by decide)
        exact htree.then_free fun y hy => .done (hdec y (by omega))
      exact (hdirect.bind hrest).mono (by omega) (by omega) fun _ hx => hx

theorem distSlots_inside (len : Nat) : (distSlots (lzmaGetDistState len)).Inside := by
  simp only [ProbArray.Inside, distSlots, lzmaGetDistState, probsTotal]
  split <;> omega

theorem within_lzmaMatch {dec : LzmaDec} (h : dec.Ok) {posState : Nat} (hpos : posState < 16) :
    LzmaWithin 20 26 dec.Matched (lzmaMatch dec posState) := by
  have hafter : ∀ len, 2 ≤ len ∧ len ≤ 273 → LzmaWithin 10 26 dec.Matched _ := fun len hlen =>
    (within_rcBittree (k := 6) (distSlots_inside len) (show 2 ^ 6 ≤ 64 by decide) (by decide)
      (by decide)).bind fun x hx => within_distance { dec with
        state := dec.state.match, rep3 := dec.rep2, rep2 := dec.rep1, rep1 := dec.rep0,
        len := len } (x - 64) (by omega) fun rep0 hrep0 =>
          ⟨rfl, rfl, rfl, by simp only; omega, hlen.2, hrep0, h.rep0, h.rep1, h.rep2⟩
  rw [lzmaMatch]
  exact (within_lzmaLen (by decide : matchLenDec.Inside) hpos).bind hafter

theorem within_lzmaRepMatch {dec : LzmaDec} (h : dec.Ok) {posState : Nat}
    (hpos : posState < 16) : LzmaWithin 13 0 dec.Matched (lzmaRepMatch dec posState) := by
  have hstate := dec.state.index_lt
  have hlen := within_lzmaLen (l := repLenDec) (by decide) hpos
  have hask0 := within_probBit (i := dec.state.index) (by decide : isRep0.Inside) (by omega)
    (by simp only [isRep0]; omega)
  have hask1 := within_probBit (i := dec.state.index) (by decide : isRep1.Inside) (by omega)
    (by simp only [isRep1]; omega)
  have hask2 := within_probBit (i := dec.state.index) (by decide : isRep2.Inside) (by omega)
    (by simp only [isRep2]; omega)
  have hlong := within_probBit (i := posState)
    (by simp only [ProbArray.Inside, isRep0Long, probsTotal]; omega :
      (isRep0Long dec.state).Inside) (by omega) (by simp only [isRep0Long]; omega)
  rw [lzmaRepMatch]
  refine hask0.bind_bit fun other _ => ?_
  cases other with
  | false =>
      rw [Bool.not_false, if_pos rfl]
      refine hlong.bind_bit fun isLong _ => ?_
      cases isLong with
      | false =>
          rw [Bool.not_false, if_pos rfl]
          exact .done ⟨rfl, rfl, rfl, Nat.one_pos, by simp, h.rep0, h.rep1, h.rep2, h.rep3⟩
      | true =>
          rw [Bool.not_true, if_neg (by decide)]
          exact (hlen.then_free fun len hl => .done ⟨rfl, rfl, rfl, by simp only; omega, hl.2,
            h.rep0, h.rep1, h.rep2, h.rep3⟩).mono (by decide) (Nat.le_refl _) fun _ hx => hx
  | true =>
      rw [Bool.not_true, if_neg (by decide)]
      refine hask1.bind_bit fun not1 _ => ?_
      cases not1 with
      | false =>
          rw [Bool.not_false, if_pos rfl]
          exact (hlen.then_free fun len hl => .done ⟨rfl, rfl, rfl, by simp only; omega, hl.2,
            h.rep1, h.rep0, h.rep2, h.rep3⟩).mono (by decide) (Nat.le_refl _) fun _ hx => hx
      | true =>
          rw [Bool.not_true, if_neg (by decide)]
          refine hask2.bind_bit fun not2 _ => ?_
          cases not2 with
          | false =>
              rw [Bool.not_false, if_pos rfl]
              exact hlen.then_free fun len hl => .done ⟨rfl, rfl, rfl, by simp only; omega, hl.2,
                h.rep2, h.rep0, h.rep1, h.rep3⟩
          | true =>
              rw [Bool.not_true, if_neg (by decide)]
              exact hlen.then_free fun len hl => .done ⟨rfl, rfl, rfl, by simp only; omega, hl.2,
                h.rep3, h.rep0, h.rep1, h.rep2⟩

theorem within_lzmaAnyMatch {dec : LzmaDec} (h : dec.Ok) {posState : Nat}
    (hpos : posState < 16) : LzmaWithin 21 26 dec.Matched (lzmaAnyMatch dec posState) := by
  have hstate := dec.state.index_lt
  have hask := within_probBit (i := dec.state.index) (by decide : isRep.Inside) (by omega)
    (by simp only [isRep]; omega)
  rw [lzmaAnyMatch]
  refine hask.bind_bit fun rep _ => ?_
  cases rep with
  | false =>
      rw [if_neg (by decide)]
      exact within_lzmaMatch h hpos
  | true =>
      rw [if_pos rfl]
      exact (within_lzmaRepMatch h hpos).mono (by decide) (by decide) fun _ hx => hx

/-! ## A symbol -/

theorem Lzma.Wrote.trans {s s' s'' : Lzma} {bytes bytes' : List UInt8}
    (hpos : s.dict.pos ≤ s.dict.buf.length) (h : s.Wrote s' bytes) (h' : s'.Wrote s'' bytes') :
    s.Wrote s'' (bytes ++ bytes') where
  dict := by rw [h'.dict, h.dict, Dictionary.fill_written_fill hpos]
  limit := by
    have hl := h'.limit
    rw [h.dict] at hl
    rw [List.length_append, ← Nat.add_assoc]
    exact hl

theorem Lzma.Wrote.refl (s : Lzma) (hfull : s.dict.full = s.dict.buf.length)
    (hpos : s.dict.pos ≤ s.dict.buf.length) (hlimit : s.dict.pos ≤ s.dict.limit) :
    s.Wrote s [] where
  dict := by
    rw [Dictionary.written_nil]
    ext1
    case full =>
      rw [Dictionary.fill_full]
      omega
    all_goals rfl
  limit := hlimit

/-- The properties are those that were given. -/
structure LzmaDec.SameProps (dec dec' : LzmaDec) : Prop where
  lc : dec'.lc = dec.lc
  literalPosMask : dec'.literalPosMask = dec.literalPosMask
  posMask : dec'.posMask = dec.posMask

theorem LzmaDec.SameProps.trans {dec dec' dec'' : LzmaDec} (h : dec.SameProps dec')
    (h' : dec'.SameProps dec'') : dec.SameProps dec'' :=
  ⟨h'.lc.trans h.lc, h'.literalPosMask.trans h.literalPosMask, h'.posMask.trans h.posMask⟩

theorem LzmaDec.Ok.of_matched {dec dec' : LzmaDec} (h : dec.Ok) (hm : dec.Matched dec') :
    dec'.Ok where
  literal := by
    rw [hm.literalPosMask, hm.lc]
    exact h.literal
  posMask := hm.posMask ▸ h.posMask
  len := hm.len
  rep0 := hm.rep0
  rep1 := hm.rep1
  rep2 := hm.rep2
  rep3 := hm.rep3

/-- What is left when no distance was invalid: `bytes` in the dictionary. -/
structure LzmaDone (s s' : Lzma) (past bytes : List UInt8) : Prop where
  wrote : s.Wrote s' bytes
  ok : s'.Ok (bytes.reverse ++ past)
  props : s.dec.SameProps s'.dec

/-- What a symbol has done. -/
def SymbolPost (s : Lzma) (past : List UInt8) (r : Bool × Lzma) : Prop :=
  ∃ bytes, s.Wrote r.2 bytes ∧ (r.1 = true →
    bytes ≠ [] ∧ r.2.Ok (bytes.reverse ++ past) ∧ s.dec.SameProps r.2.dec)

section Symbol

variable {s : Lzma} {past : List UInt8}

theorem literal_done (h : s.Ok past) (hspace : s.dict.pos < s.dict.limit) (byte : UInt8) :
    LzmaDone s
      { dict := (s.dict.written [byte]).fill
        dec := { s.dec with state := s.dec.state.literal } } past [byte] := by
  have hput := (h.dict.put hspace byte).2
  refine ⟨⟨rfl, hspace⟩, ⟨hput, ?_, ?_⟩, ⟨rfl, rfl, rfl⟩⟩
  · exact ⟨h.dec.literal, h.dec.posMask, h.dec.len, h.dec.rep0, h.dec.rep1, h.dec.rep2,
      h.dec.rep3⟩
  · rintro (hlit | hlen)
    · exact absurd hlit (by rw [LzmaState.isLiteral_literal]; decide)
    · obtain ⟨hfull, hsize⟩ := h.rep0 (Or.inr hlen)
      refine ⟨?_, hsize⟩
      change s.dec.rep0 < (s.dict.written [byte]).fill.full
      rw [Dictionary.fill_full]
      exact Nat.lt_of_lt_of_le hfull (Nat.le_max_left _ _)

/-- A repeat of a valid distance, of at least a byte. -/
theorem repeat_done (h : s.Ok past) (hspace : s.dict.pos < s.dict.limit) {dec : LzmaDec}
    (hdec : dec.Ok) (hprops : s.dec.SameProps dec) (hlen : 0 < dec.len)
    (hfull : dec.rep0 < s.dict.full) (hsize : dec.rep0 < s.dict.size) :
    ∃ bytes : List UInt8, bytes.length = min (s.dict.limit - s.dict.pos) dec.len
      ∧ Lz77.copies dec.rep0 bytes.length past = bytes.reverse ++ past
      ∧ s.dict.repeat dec.len dec.rep0
        = .ok (some ((s.dict.written bytes).fill, dec.len - bytes.length))
      ∧ LzmaDone s
        { dict := (s.dict.written bytes).fill
          dec := { dec with len := dec.len - bytes.length } } past bytes := by
  obtain ⟨bytes, hbytes, hcopies, hrun, hholds⟩ := h.dict.repeat hspace hlen hfull hsize
  have hdl := hdec.len
  refine ⟨bytes, hbytes, hcopies, hrun, ⟨rfl, by omega⟩, ⟨hholds, ?_, fun _ => ?_⟩,
    ⟨hprops.lc, hprops.literalPosMask, hprops.posMask⟩⟩
  · exact ⟨hdec.literal, hdec.posMask, Nat.le_trans (Nat.sub_le _ _) hdl, hdec.rep0, hdec.rep1,
      hdec.rep2, hdec.rep3⟩
  · refine ⟨?_, hsize⟩
    change dec.rep0 < (s.dict.written bytes).fill.full
    rw [Dictionary.fill_full]
    exact Nat.lt_of_lt_of_le hfull (Nat.le_max_left _ _)

theorem LzmaDone.symbolPost {s' : Lzma} {bytes : List UInt8} (h : LzmaDone s s' past bytes)
    (hne : bytes ≠ []) : SymbolPost s past (true, s') :=
  ⟨bytes, h.wrote, fun _ => ⟨hne, h.ok, h.props⟩⟩

/-- A symbol takes at most 22 bits with probabilities and 26 direct bits, and
no path of it faults. -/
theorem within_lzmaSymbol (h : s.Ok past) (hspace : s.dict.pos < s.dict.limit) :
    LzmaWithin 22 26 (SymbolPost s past) (lzmaSymbol s) := by
  have hstate := s.dec.state.index_lt
  have hposState : s.dict.pos &&& s.dec.posMask < 16 :=
    Nat.lt_of_le_of_lt Nat.and_le_right h.dec.posMask
  have hask := within_probBit (i := (s.dict.pos &&& s.dec.posMask : Nat))
    (by simp only [ProbArray.Inside, isMatch, probsTotal]; omega : (isMatch s.dec.state).Inside)
    (by omega) (by simp only [isMatch]; omega)
  rw [lzmaSymbol]
  refine hask.bind_bit fun isMatch _ => ?_
  cases isMatch with
  | false =>
      rw [Bool.not_false, if_pos rfl]
      refine ((within_lzmaLiteral h hspace).then_free ?_).mono (by decide) (by decide)
        fun _ hx => hx
      rintro _ ⟨byte, rfl⟩
      exact .done ((literal_done h hspace byte).symbolPost (List.cons_ne_nil _ _))
  | true =>
      rw [Bool.not_true, if_neg (by decide)]
      refine (within_lzmaAnyMatch h.dec hposState).then_free fun dec hm => ?_
      by_cases hvalid : dec.rep0 < s.dict.full ∧ dec.rep0 < s.dict.size
      · obtain ⟨bytes, hbytes, -, hrun, hdone⟩ := repeat_done h hspace (h.dec.of_matched hm)
          ⟨hm.lc, hm.literalPosMask, hm.posMask⟩ hm.len_pos hvalid.1 hvalid.2
        have hlen := hm.len_pos
        rw [hrun, Decision.ofRun_ok, Decision.done_bind]
        exact .done (hdone.symbolPost (List.length_pos_iff.mp (by omega)))
      · have hrun : s.dict.repeat dec.len dec.rep0 = .ok none := if_pos (by omega)
        rw [hrun, Decision.ofRun_ok, Decision.done_bind]
        have hsame := Lzma.Wrote.refl s h.dict.full_eq h.dict.window.pos_le (Nat.le_of_lt hspace)
        exact .done ⟨[], ⟨hsame.dict, hsame.limit⟩, fun hfalse => Bool.noConfusion hfalse⟩

end Symbol

/-! ## The decoder core -/

/-- The input may be read up to its limit and `LZMA_IN_REQUIRED` bytes on. -/
structure LzmaCoder.Supplied (c : LzmaCoder) : Prop where
  probs : c.probs.Good
  low : 31 * 2 ^ 13 ≤ c.rc.range.toNat
  inPos : c.rc.inPos ≤ c.rc.inLimit
  required : c.rc.inLimit + lzmaInRequired ≤ c.rc.input.length

theorem LzmaCoder.Supplied.affords {c : LzmaCoder} (h : c.Supplied) : Affords 22 26 c :=
  affords_symbol h.probs h.low (by have := h.inPos; have := h.required; omega)

section Main

variable {s : Lzma} {past : List UInt8}

theorem LzmaDone.refl (h : s.Ok past) (hlimit : s.dict.pos ≤ s.dict.limit) :
    LzmaDone s s past [] :=
  ⟨.refl s h.dict.full_eq h.dict.window.pos_le hlimit, h, ⟨rfl, rfl, rfl⟩⟩

theorem LzmaDone.trans {s' s'' : Lzma} {bytes bytes' : List UInt8} (h : s.Ok past)
    (hd : LzmaDone s s' past bytes) (hd' : LzmaDone s' s'' (bytes.reverse ++ past) bytes') :
    LzmaDone s s'' past (bytes ++ bytes') where
  wrote := hd.wrote.trans h.dict.window.pos_le hd'.wrote
  ok := by
    rw [List.reverse_append, List.append_assoc]
    exact hd'.ok
  props := hd.props.trans hd'.props

/-- The repeat that was pending writes something if it can. -/
theorem lzmaPending_ok (h : s.Ok past) (hlimit : s.dict.pos ≤ s.dict.limit) :
    ∃ s' bytes, lzmaPending s = .ok s' ∧ LzmaDone s s' past bytes
      ∧ (bytes = [] → s' = s) := by
  by_cases hp : s.dict.pos < s.dict.limit ∧ 0 < s.dec.len
  · obtain ⟨hfull, hsize⟩ := h.rep0 (Or.inr hp.2)
    obtain ⟨bytes, hbytes, -, hrun, hdone⟩ :=
      repeat_done h hp.1 h.dec ⟨rfl, rfl, rfl⟩ hp.2 hfull hsize
    have hne : bytes ≠ [] := List.length_pos_iff.mp (by omega)
    refine ⟨_, bytes, ?_, hdone, fun hnil => absurd hnil hne⟩
    rw [lzmaPending, if_pos (by simp [Dictionary.hasSpace, hp]), hrun, ok_bind]
  · refine ⟨s, [], ?_, .refl h hlimit, fun _ => rfl⟩
    rw [lzmaPending, if_neg (by
      simp only [Dictionary.hasSpace, Bool.and_eq_true, decide_eq_true_eq]
      omega)]

/-- What the rounds keep, from the state `s` and the decoder `c` on. -/
structure MainInv (s : Lzma) (c : LzmaCoder) (past : List UInt8) (x : Lzma × LzmaCoder) :
    Prop where
  done : ∃ bytes, LzmaDone s x.1 past bytes ∧ (bytes = [] → x = (s, c))
  affords : Affords 0 0 x.2
  reads : c.rc.Reads x.2.rc

/-- How the rounds end. -/
def MainEnd (s : Lzma) (c : LzmaCoder) (past : List UInt8) (r : Bool × Lzma × LzmaCoder) :
    Prop :=
  c.rc.Reads r.2.2.rc ∧ Affords 0 0 r.2.2 ∧ ∃ bytes, s.Wrote r.2.1 bytes ∧ (r.1 = true →
    LzmaDone s r.2.1 past bytes ∧ (s.dict.pos < s.dict.limit → bytes ≠ []))

theorem lzmaMainRound_ok {c : LzmaCoder} (h : s.Ok past) (hc : c.Supplied)
    {x : Lzma × LzmaCoder} (hx : MainInv s c past x) :
    ∃ r, lzmaMainRound x = .ok r ∧ r.Post
      (fun x' => MainInv s c past x'
        ∧ x'.1.dict.limit - x'.1.dict.pos < x.1.dict.limit - x.1.dict.pos)
      (MainEnd s c past) := by
  obtain ⟨s', c'⟩ := x
  obtain ⟨bytes, hdone, hstart⟩ := hx.done
  have hreads : c.rc.Reads c'.rc := hx.reads
  have haffords : Affords 0 0 c' := hx.affords
  by_cases hgo : s'.dict.pos < s'.dict.limit ∧ c'.rc.inPos ≤ c'.rc.inLimit
  · have hrequired : c'.rc.inPos + lzmaInRequired ≤ c'.rc.input.length := by
      have hreq := hc.required
      rw [← hreads.inLimit, ← hreads.input] at hreq
      omega
    have hafford : Affords (22 + 0) (26 + 0) c' :=
      affords_symbol haffords.probs haffords.low hrequired
    obtain ⟨⟨valid, s''⟩, c'', hrun, hpost, hafford', hreads'⟩ :=
      run_affords (within_lzmaSymbol hdone.ok hgo.1) hafford
    have hround : lzmaMainRound (s', c')
        = .ok (if valid then .next (s'', c'') else .exit (false, s'', c'')) := by
      rw [lzmaMainRound, if_pos (by
        simp only [Dictionary.hasSpace, RcDec.limitExceeded, Bool.and_eq_true, decide_eq_true_eq,
          Bool.not_eq_true', decide_eq_false_iff_not]
        omega), hrun, ok_bind]
    refine ⟨_, hround, ?_⟩
    obtain ⟨bytes', hw, hvalid⟩ := hpost
    cases valid with
    | false =>
        exact ⟨hreads.trans hreads', hafford', bytes ++ bytes',
          hdone.wrote.trans h.dict.window.pos_le hw, fun hfalse => Bool.noConfusion hfalse⟩
    | true =>
        obtain ⟨hne, hok, hprops⟩ := hvalid rfl
        have hlen : 0 < bytes'.length := List.length_pos_iff.mpr hne
        refine ⟨⟨⟨bytes ++ bytes', hdone.trans h ⟨hw, hok, hprops⟩, fun hnil => ?_⟩, hafford',
          hreads.trans hreads'⟩, ?_⟩
        · exact absurd (List.append_eq_nil_iff.mp hnil).2 hne
        · change s''.dict.limit - s''.dict.pos < s'.dict.limit - s'.dict.pos
          have hlimit := hw.limit
          have hdict : s''.dict.limit = s'.dict.limit
              ∧ s''.dict.pos = s'.dict.pos + bytes'.length := by
            rw [hw.dict]
            exact ⟨rfl, rfl⟩
          omega
  · refine ⟨.exit (true, s', c'), ?_, hreads, haffords, bytes, hdone.wrote,
      fun _ => ⟨hdone, fun hspace hnil => ?_⟩⟩
    · rw [lzmaMainRound, if_neg (by
        simp only [Dictionary.hasSpace, RcDec.limitExceeded, Bool.and_eq_true, decide_eq_true_eq,
          Bool.not_eq_true', decide_eq_false_iff_not]
        omega)]
    · obtain ⟨rfl, rfl⟩ := Prod.mk.injEq .. |>.mp (hstart hnil)
      exact hgo ⟨hspace, hc.inPos⟩

/-- `lzma_main` ends without a fault, in its input and with the invariants of
the decoder, and it writes a byte if the dictionary has space. -/
theorem lzmaMain_total {c : LzmaCoder} (h : s.Ok past) (hlimit : s.dict.pos ≤ s.dict.limit)
    (hc : c.Supplied) :
    ∃ valid s' c', lzmaMain s c = .ok (valid, s', c') ∧ c.rc.Reads c'.rc
      ∧ c'.rc.inPos ≤ c'.rc.input.length ∧ c'.probs.Good ∧ 31 * 2 ^ 13 ≤ c'.rc.range.toNat
      ∧ ∃ bytes, s.Wrote s' bytes ∧ (valid = true → LzmaDone s s' past bytes
        ∧ 2 ^ 24 ≤ c'.rc.range.toNat ∧ (s.dict.pos < s.dict.limit → bytes ≠ [])) := by
  obtain ⟨s1, bytes1, hpending, hdone1, hsame⟩ := lzmaPending_ok h hlimit
  have hlimit1 : s1.dict.pos ≤ s1.dict.limit := by
    rw [hdone1.wrote.dict]
    exact hdone1.wrote.limit
  have hinit : MainInv s1 c (bytes1.reverse ++ past) (s1, c) :=
    ⟨⟨[], .refl hdone1.ok hlimit1, fun _ => rfl⟩, hc.affords.mono (by omega) (by omega),
      .refl _⟩
  obtain ⟨⟨valid, s', c'⟩, hloop, hreads, haffords, bytes, hwrote, hend⟩ :=
    loopFuel_total (I := MainInv s1 c (bytes1.reverse ++ past))
      (fun x hx => lzmaMainRound_ok hdone1.ok hc hx) hinit (Nat.lt_succ_self _)
  have hwrote' := hdone1.wrote.trans h.dict.window.pos_le hwrote
  rw [lzmaMain, hpending, ok_bind, hloop, ok_bind]
  cases valid with
  | false =>
      exact ⟨false, s', c', rfl, hreads, haffords.inside, haffords.probs, haffords.low, _, hwrote',
        fun hfalse => Bool.noConfusion hfalse⟩
  | true =>
      obtain ⟨rc, hnorm, hrc, htop, hreads'⟩ := normalize_affords haffords
      obtain ⟨hdone, hne⟩ := hend rfl
      refine ⟨true, s', ⟨rc, c'.probs⟩, ?_, hreads.trans hreads', hrc.inside, hrc.probs, hrc.low,
        _, hwrote', fun _ => ⟨hdone1.trans h hdone, htop, fun hspace hnil => ?_⟩⟩
      · simp only [if_true, hnorm, ok_bind]
      · obtain ⟨hnil1, hnil⟩ := List.append_eq_nil_iff.mp hnil
        rw [hsame hnil1] at hne
        exact hne hspace hnil

end Main

end Ccr2004
