import Ccr2004.LzmaFormat

/-!
# What LZMA2 data means

A stream of LZMA2 is chunks, stored or compressed, and an end marker. Between
two chunks there is the history since the last dictionary reset and, once
properties were given, the LZMA decoder with its probabilities. `Lzma2Coded`
reads the chunks off whole: nothing in it depends on how the bytes arrive or on
how much room there is.
-/

namespace Ccr2004

/-! ## The probabilities that count -/

/-- Alike where `struct lzma_dec` has a probability. -/
def Probs.Same (p q : Probs) : Prop := ∀ i < probsTotal, p i = q i

theorem Probs.Same.update {p q : Probs} (h : p.Same q) (i : Nat) (x : UInt16) :
    Probs.Same (Function.update p i x) (Function.update q i x) := by
  intro j hj
  by_cases hij : j = i
  · subst hij
    rw [Function.update_self, Function.update_self]
  · rw [Function.update_of_ne hij, Function.update_of_ne hij]
    exact h j hj

/-- One decoder with two models. -/
structure Remodel (m m' : LzmaRange) : Prop where
  range : m'.range = m.range
  code : m'.code = m.code
  rest : m'.rest = m.rest
  same : m.model.Same m'.model

section Remodel

variable {m m' n : LzmaRange}

theorem Remodel.normalize (h : Remodel m m') (hn : m.normalize rcTop = .ok n) :
    ∃ n', m'.normalize rcTop = .ok n' ∧ Remodel n n' := by
  obtain ⟨hrange, hcode, hrest, hsame⟩ := h
  rw [RangeState.normalize] at hn ⊢
  rw [hrange, hrest]
  split at hn
  · rename_i hr
    rw [if_pos hr]
    split at hn
    · cases hn
    · cases hn
      exact ⟨_, rfl, rfl, by simp only [hcode], rfl, hsame⟩
  · rename_i hr
    rw [if_neg hr]
    cases hn
    exact ⟨_, rfl, hrange, hcode, hrest, hsame⟩

theorem Remodel.bit {i : Nat} {c : Bool} (hi : i < probsTotal) (h : Remodel m m')
    (hn : lzmaRangeSource.bit i m = .ok (c, n)) :
    ∃ n', lzmaRangeSource.bit i m' = .ok (c, n') ∧ Remodel n n' := by
  obtain ⟨u, hu, hcut⟩ := bind_eq_ok.mp hn
  obtain ⟨u', hu', hrange, hcode, hrest, hsame⟩ := h.normalize hu
  have hp : u.model i = u'.model i := hsame i hi
  have hbound : lzmaModel.bound u'.model i u.range = lzmaModel.bound u.model i u.range := by
    simp only [lzmaModel, hp]
  have hlearn : ∀ bit, (lzmaModel.learn u.model i bit).Same (lzmaModel.learn u'.model i bit) :=
    fun bit => by
      simp only [lzmaModel, hp]
      exact hsame.update i _
  simp only [lzmaRangeSource, RangeState.source, hu', ok_bind, hrange, hcode, hbound]
  simp only at hcut
  split at hcut
  · rename_i hlt
    cases hcut
    exact ⟨_, if_pos hlt, rfl, rfl, hrest, hlearn false⟩
  · rename_i hlt
    cases hcut
    exact ⟨_, if_neg hlt, rfl, rfl, hrest, hlearn true⟩

theorem Remodel.direct {c : Bool} (h : Remodel m m')
    (hn : lzmaRangeSource.direct m = .ok (c, n)) :
    ∃ n', lzmaRangeSource.direct m' = .ok (c, n') ∧ Remodel n n' := by
  obtain ⟨u, hu, hhalf⟩ := bind_eq_ok.mp hn
  obtain ⟨u', hu', hrange, hcode, hrest, hsame⟩ := h.normalize hu
  simp only [lzmaRangeSource, RangeState.source, hu', ok_bind, hrange, hcode]
  simp only at hhalf
  split at hhalf
  · rename_i hlt
    cases hhalf
    exact ⟨_, if_pos hlt, rfl, rfl, hrest, hsame⟩
  · rename_i hlt
    split at hhalf
    · rename_i hlt'
      cases hhalf
      exact ⟨_, (if_neg hlt).trans (if_pos hlt'), rfl, rfl, hrest, hsame⟩
    · cases hhalf

end Remodel

section Coded

variable {size : Nat} {h goal : LzmaHistory} {m : LzmaRange} {probs : Probs}

/-- The data of a chunk does not see the other probabilities. -/
theorem LzmaCoded.remodel (hc : LzmaCoded size h m goal probs) (hok : h.Ok) {m' : LzmaRange}
    (hm : Remodel m m') :
    ∃ probs', LzmaCoded size h m' goal probs' ∧ probs.Same probs' := by
  induction hc generalizing m' with
  | done hend hcode hrest =>
      obtain ⟨n', hn', -, hcode', hrest', hsame⟩ := hm.normalize hend
      exact ⟨_, .done hn' (hcode'.trans hcode) (hrest'.trans hrest), hsame⟩
  | symbol hrun hacc hcoded ih =>
      have hwithin := LzmaHistory.within_symbol hok.dec
      obtain ⟨n', hn', hm'⟩ := Decision.run_sim_within (R := Remodel)
        (fun _ _ _ _ _ hi hR hn => hR.bit hi hn) (fun _ _ _ _ hR hn => hR.direct hn) hwithin hm
        hrun
      obtain ⟨hok', -⟩ := LzmaHistory.accept_ok hok (hwithin.post hrun) hacc
      obtain ⟨probs', hc', hsame⟩ := ih hok' hm'
      exact ⟨probs', .symbol hn' hacc hc', hsame⟩

/-- Symbols only append. -/
theorem LzmaCoded.grows (hc : LzmaCoded size h m goal probs) (hok : h.Ok) :
    h.past <:+ goal.past ∧ goal.Ok ∧ (h.dec.len = 0 → goal.dec.len = 0) := by
  induction hc with
  | done hend hcode hrest => exact ⟨List.suffix_refl _, hok, fun hlen => hlen⟩
  | symbol hrun hacc hcoded ih =>
      have hsent := (LzmaHistory.within_symbol hok.dec).post hrun
      obtain ⟨hok', -, hsuffix, -⟩ := LzmaHistory.accept_ok hok hsent hacc
      obtain ⟨hsuffix', hgoal, hlen'⟩ := ih hok'
      refine ⟨hsuffix.trans hsuffix', hgoal, fun hlen => hlen' ?_⟩
      rename_i x _
      cases x with
      | inl byte =>
          cases hacc
          exact hlen
      | inr dec =>
          rw [LzmaHistory.accept] at hacc
          split at hacc
          · cases hacc
            rfl
          · cases hacc

/-- Where nothing is left to say, nothing is left of the data. -/
theorem LzmaCoded.finished (hc : LzmaCoded size h m goal probs) (hok : h.Ok)
    (hlen : goal.past.length ≤ h.past.length) (htop : rcTop ≤ m.range) :
    goal = h ∧ m.code = 0 ∧ m.rest = [] ∧ probs = m.model := by
  cases hc with
  | done hend hcode hrest =>
      rw [RangeState.normalize, if_neg (Nat.not_lt.mpr htop)] at hend
      cases hend
      exact ⟨rfl, hcode, hrest, rfl⟩
  | symbol hrun hacc hcoded =>
      have hsent := (LzmaHistory.within_symbol hok.dec).post hrun
      obtain ⟨hok', hless, -, -⟩ := LzmaHistory.accept_ok hok hsent hacc
      have := (hcoded.grows hok').1.length_le
      omega

end Coded

/-! ## The chunks -/

/-- What the chunks before have left: the history, and the LZMA decoder once
properties were given since the last dictionary reset. -/
structure Lzma2State where
  past : List UInt8
  lzma : Option (LzmaDec × Probs)
  needDictReset : Bool

namespace Lzma2State

def first : Lzma2State := ⟨[], none, true⟩

/-- What a control byte resets; the first chunk has to reset the dictionary. -/
def start (w : Lzma2State) (control : UInt8) : Option Lzma2State :=
  if control ≥ 0xE0 ∨ control = 0x01 then some ⟨[], none, false⟩
  else if w.needDictReset then none
  else some w

end Lzma2State

/-- Properties of an LZMA decoder that LZMA2 allows. -/
structure LzmaProps where
  lc : Nat
  lp : Nat
  pb : Nat
  literal : lc + lp ≤ 4
  pos : pb ≤ 4
deriving Repr, DecidableEq

namespace LzmaProps

def byte (p : LzmaProps) : UInt8 := UInt8.ofNat ((p.pb * 5 + p.lp) * 9 + p.lc)

def dec (p : LzmaProps) : LzmaDec where
  rep0 := 0
  rep1 := 0
  rep2 := 0
  rep3 := 0
  state := .litLit
  len := 0
  lc := p.lc
  literalPosMask := 2 ^ p.lp - 1
  posMask := 2 ^ p.pb - 1

end LzmaProps

/-- Every probability one half. -/
def freshProbs : Probs := fun _ => 1024

/-- The decoder after a state reset. -/
def LzmaDec.restart (dec : LzmaDec) : LzmaDec :=
  { dec with state := .litLit, rep0 := 0, rep1 := 0, rep2 := 0, rep3 := 0, len := 0 }

/-- The LZMA decoder of a chunk, and the bytes that its header has for it. -/
inductive Lzma2Setup (control : UInt8) :
    Option (LzmaDec × Probs) → List UInt8 → LzmaDec → Probs → Prop where
  | props {l : Option (LzmaDec × Probs)} (p : LzmaProps) (hcontrol : 0xC0 ≤ control) :
      Lzma2Setup control l [p.byte] p.dec freshProbs
  | state {dec : LzmaDec} {probs : Probs} (hcontrol : 0xA0 ≤ control) (hlt : control < 0xC0) :
      Lzma2Setup control (some (dec, probs)) [] dec.restart freshProbs
  | keep {dec : LzmaDec} {probs : Probs} (hcontrol : 0x80 ≤ control) (hlt : control < 0xA0) :
      Lzma2Setup control (some (dec, probs)) [] dec probs

theorem Lzma2Setup.control {control : UInt8} {l : Option (LzmaDec × Probs)} {setup : List UInt8}
    {dec : LzmaDec} {probs : Probs} (h : Lzma2Setup control l setup dec probs) : 0x80 ≤ control := by
  cases h with
  | props p hcontrol => exact UInt8.le_trans (by decide) hcontrol
  | state hcontrol => exact UInt8.le_trans (by decide) hcontrol
  | keep hcontrol => exact hcontrol

/-- A number of two bytes, the high one first. -/
def be16 (hi lo : UInt8) : Nat := hi.toNat * 256 + lo.toNat

/-- The code that the range decoder starts with: of five bytes the last four. -/
def rcCode : List UInt8 → Nat
  | [_, a, b, c, d] => ((a.toNat * 256 + b.toNat) * 256 + c.toNat) * 256 + d.toNat
  | _ => 0

/-- From the state `w` on, `bytes` are chunks that say `text`. -/
inductive Lzma2Coded (size : Nat) : Lzma2State → List UInt8 → List UInt8 → Prop where
  | done {w : Lzma2State} : Lzma2Coded size w [0x00] []
  | stored {w w' : Lzma2State} {control hi lo : UInt8} {data bytes text : List UInt8}
      (hcontrol : control = 0x01 ∨ control = 0x02) (hstart : w.start control = some w')
      (hlength : be16 hi lo + 1 = data.length)
      (hrest : Lzma2Coded size { w' with past := data.reverse ++ w'.past } bytes text) :
      Lzma2Coded size w (control :: hi :: lo :: (data ++ bytes)) (data ++ text)
  | lzma {w w' : Lzma2State} {control u1 u0 c1 c0 : UInt8} {setup init body bytes out text :
      List UInt8} {dec dec' : LzmaDec} {probs probs' : Probs} (hstart : w.start control = some w')
      (hsetup : Lzma2Setup control w'.lzma setup dec probs) (hinit : init.length = 5)
      (hcode : rcCode init < 0xFFFFFFFF) (hcompressed : be16 c1 c0 + 1 = init.length + body.length)
      (hcoded : LzmaCoded size ⟨w'.past, dec⟩ ⟨probs, 0xFFFFFFFF, rcCode init, body⟩
        ⟨out.reverse ++ w'.past, dec'⟩ probs')
      (hlength : (control &&& 0x1F).toNat * 2 ^ 16 + be16 u1 u0 + 1 = out.length)
      (hrest : Lzma2Coded size { w' with past := out.reverse ++ w'.past, lzma := some (dec', probs') }
        bytes text) :
      Lzma2Coded size w
        (control :: u1 :: u0 :: c1 :: c0 :: (setup ++ (init ++ (body ++ bytes)))) (out ++ text)

theorem Lzma2Coded.ne_nil {size : Nat} {w : Lzma2State} {bytes text : List UInt8}
    (h : Lzma2Coded size w bytes text) : bytes ≠ [] := by
  cases h <;> exact List.cons_ne_nil _ _

end Ccr2004
