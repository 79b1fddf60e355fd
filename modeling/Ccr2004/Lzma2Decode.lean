import Ccr2004.Lzma2Format
import Ccr2004.Lzma2Refine

/-!
# The LZMA2 decoder decodes LZMA2

`Lzma2Comes` says where `struct xz_dec_lzma2` is in a coded stream, between any
two rounds of `xz_dec_lzma2_run`: what it has not taken yet and what it has not
said yet. `lzma2Round_comes` is a round: what it takes and what it says come off
the fronts of the two. `lzma2Run_comes` is a call, wherever its buffers end.
-/

namespace Ccr2004

/-! ## The bytes at the front -/

namespace RcDec

/-- `rc` with bytes of its first code read. -/
def feed (rc : RcDec) (init : List UInt8) : RcDec :=
  { rc with code := init.foldl (fun code byte => (code <<< 8) + byte.toUInt32) rc.code
            initBytesLeft := rc.initBytesLeft - init.length }

@[simp] theorem feed_nil (rc : RcDec) : rc.feed [] = rc := rfl

theorem feed_append (rc : RcDec) (a b : List UInt8) : (rc.feed a).feed b = rc.feed (a ++ b) := by
  simp only [feed, List.foldl_append, List.length_append, Nat.sub_sub]

/-- All of the old code is shifted out. -/
theorem feed_code (rc : RcDec) {init : List UInt8} (h : init.length = 5) :
    (rc.feed init).code.toNat = rcCode init := by
  obtain ⟨x, a, b, c, d, rfl⟩ : ∃ x a b c d, init = [x, a, b, c, d] := by
    match init, h with
    | [x, a, b, c, d], _ => exact ⟨x, a, b, c, d, rfl⟩
  have ha := a.toNat_lt
  have hb := b.toNat_lt
  have hc := c.toNat_lt
  have hd := d.toNat_lt
  have hshift : ∀ (code : UInt32) (byte : UInt8), ((code <<< 8) + byte.toUInt32).toNat
      = (code.toNat * 256 + byte.toNat) % 2 ^ 32 := fun code byte => by
    rw [UInt32.toNat_add, UInt32.toNat_shiftLeft, UInt8.toNat_toUInt32, Nat.shiftLeft_eq,
      show (8 : UInt32).toNat % 32 = 8 from rfl]
    omega
  simp only [feed, List.foldl_cons, List.foldl_nil, hshift, rcCode]
  omega

end RcDec

section Front

variable {b : XzBuf} {l next : List UInt8} {x : UInt8}

/-- The next byte of the input is the next byte of the stream. -/
theorem offer_next (hlt : b.inPos < b.input.length) (h : b.input.drop b.inPos <+: x :: l) :
    b.next = .ok (x, b.moved 1 []) ∧ b.input[b.inPos]? = some x := by
  obtain ⟨byte, hnext, hget⟩ := next_ok hlt
  have hhead := congrArg List.head? (drop_of_getElem? hget)
  obtain ⟨z, hz⟩ := h
  rw [drop_of_getElem? hget] at hz
  obtain ⟨rfl, -⟩ := List.cons.inj hz
  exact ⟨hnext, hget⟩

/-- `rc_read_init` takes what there is of its five bytes. -/
theorem readInit_offer {rc : RcDec} {init : List UInt8} (hb : b.inPos ≤ b.input.length)
    (hlen : init.length = rc.initBytesLeft) (h : b.input.drop b.inPos <+: init ++ next) :
    ∃ front back, init = front ++ back
      ∧ rc.readInit b = (back.isEmpty, rc.feed front, b.moved front.length [])
      ∧ b.inPos + front.length ≤ b.input.length
      ∧ (back ≠ [] → b.inPos + front.length = b.input.length) := by
  rw [RcDec.readInit, ← hlen]
  induction init generalizing rc b with
  | nil =>
      refine ⟨[], [], rfl, ?_, hb, fun hne => absurd rfl hne⟩
      rw [List.length_nil, RcDec.readInitFrom, RcDec.feed_nil, XzBuf.moved_zero]
      rfl
  | cons x init ih =>
      rcases Nat.eq_or_lt_of_le hb with hend | hlt
      · refine ⟨[], x :: init, rfl, ?_, hb, fun _ => hend⟩
        rw [List.length_cons, RcDec.readInitFrom, List.getElem?_eq_none (by omega), RcDec.feed_nil,
          List.length_nil, XzBuf.moved_zero]
        rfl
      · rw [List.cons_append] at h
        obtain ⟨-, hget⟩ := offer_next hlt h
        have hlen' : init.length = (rc.feed [x]).initBytesLeft := by
          rw [List.length_cons] at hlen
          simp only [RcDec.feed, List.length_singleton]
          omega
        have hoffer := offer_moved (b := b) (l := x :: init) (k := 1) hlt (by
          rw [List.length_cons]
          omega) h
        obtain ⟨front, back, rfl, hread, hin, hout⟩ := ih (b := b.moved 1 []) hlt hlen'
          hoffer
        have hfirst : b.inPos + 1 + front.length = b.inPos + (x :: front).length := by
          rw [List.length_cons]
          omega
        rw [XzBuf.moved_moved, RcDec.feed_append, List.append_nil, Nat.add_comm 1] at hread
        refine ⟨x :: front, back, rfl, ?_, hfirst ▸ hin, fun hne => hfirst ▸ hout hne⟩
        rw [List.length_cons, RcDec.readInitFrom, hget]
        refine Eq.trans ?_ hread
        simp only [RcDec.feed, XzBuf.moved, List.append_nil, List.foldl_cons, List.foldl_nil,
          ← hlen, List.length_cons, List.length_nil, Nat.zero_add, Nat.add_sub_cancel]

end Front

/-! ## Where the decoder is -/

/-- A byte of a chunk header goes into a size. -/
def XzDecLzma2.field (s : XzDecLzma2) (byte : UInt8) : Option XzDecLzma2 :=
  match s.sequence with
  | .uncompressed1 => some { s with uncompressed := s.uncompressed + byte.toNat <<< 8
                                    sequence := .uncompressed2 }
  | .uncompressed2 => some { s with uncompressed := s.uncompressed + byte.toNat + 1
                                    sequence := .compressed0 }
  | .compressed0 => some { s with compressed := byte.toNat <<< 8, sequence := .compressed1 }
  | .compressed1 => some { s with compressed := s.compressed + byte.toNat + 1
                                  sequence := s.nextSequence }
  | _ => none

/-- The decoder that `lzma_props` or the control byte leaves, over `probs`. -/
structure XzDecLzma2.Set (s : XzDecLzma2) (dec : LzmaDec) (probs : Probs) : Prop where
  eq : s.lzma.dec = dec
  len : dec.len = 0
  probs : probs.Same s.coder.probs
  range : s.coder.rc.range = 0xFFFFFFFF
  code : s.coder.rc.code = 0
  initBytesLeft : s.coder.rc.initBytesLeft = 5

/-- The dictionary shows the history, where LZMA looks at positions too. -/
structure Dictionary.Shows (d : Dictionary) (past : List UInt8) : Prop where
  holds : d.Holds past
  aligned : d.pos % 16 = past.length % 16

/-- Between two chunks. -/
structure XzDecLzma2.At (s : XzDecLzma2) (w : Lzma2State) : Prop where
  needDictReset : s.needDictReset = w.needDictReset
  dict : w.needDictReset = false → s.lzma.dict.Shows w.past
  lzma : ∀ dec probs, w.needDictReset = false → w.lzma = some (dec, probs) →
    s.needProps = false ∧ s.Set dec probs

/-- From `s` on, `bytes` are still to be taken and `text` is still to be said. -/
inductive Lzma2Comes (size : Nat) : XzDecLzma2 → List UInt8 → List UInt8 → Prop where
  | control {s : XzDecLzma2} {w : Lzma2State} {bytes text : List UInt8}
      (hsize : s.lzma.dict.size = size) (hseq : s.sequence = .control) (hat : s.At w)
      (hcoded : Lzma2Coded size w bytes text) : Lzma2Comes size s bytes text
  | field {s s' : XzDecLzma2} {byte : UInt8} {bytes text : List UInt8}
      (hfield : s.field byte = some s') (hcomes : Lzma2Comes size s' bytes text) :
      Lzma2Comes size s (byte :: bytes) text
  | properties {s : XzDecLzma2} {byte : UInt8} {dec : LzmaDec} {coder : LzmaCoder}
      {bytes text : List UInt8} (hseq : s.sequence = .properties)
      (hprops : lzmaProps s.lzma.dec s.coder byte = (true, dec, coder))
      (hcomes : Lzma2Comes size { s with lzma := { s.lzma with dec := dec }, coder := coder
                                         sequence := .lzmaPrepare } bytes text) :
      Lzma2Comes size s (byte :: bytes) text
  | prepare {s : XzDecLzma2} {init bytes text : List UInt8} (hseq : s.sequence = .lzmaPrepare)
      (hinit : init.length = s.coder.rc.initBytesLeft) (hcompressed : 5 ≤ s.compressed)
      (hcomes : Lzma2Comes size { s with coder := { s.coder with rc := s.coder.rc.feed init }
                                         compressed := s.compressed - 5
                                         sequence := .lzmaRun } bytes text) :
      Lzma2Comes size s (init ++ bytes) text
  | run {s : XzDecLzma2} {past left bytes out text : List UInt8} {h : LzmaHistory} {m : LzmaRange}
      {dec : LzmaDec} {probs probs' : Probs} (hsize : s.lzma.dict.size = size)
      (hseq : s.sequence = .lzmaRun) (hchunk : s.Coded past left h m ⟨out.reverse ++ past, dec⟩ probs')
      (hout : out.length = s.uncompressed) (hlen : dec.len = 0) (hsame : probs.Same probs')
      (hcoded : Lzma2Coded size ⟨out.reverse ++ past, some (dec, probs), false⟩ bytes text) :
      Lzma2Comes size s (left ++ bytes) (out ++ text)
  | copy {s : XzDecLzma2} {w : Lzma2State} {data bytes text : List UInt8}
      (hsize : s.lzma.dict.size = size) (hseq : s.sequence = .copy) (hat : s.At w)
      (hlength : data.length = s.compressed)
      (hcoded : Lzma2Coded size { w with past := data.reverse ++ w.past } bytes text) :
      Lzma2Comes size s (data ++ bytes) (data ++ text)

/-- The end marker is always still to come. -/
theorem Lzma2Comes.ne_nil {size : Nat} {s : XzDecLzma2} {bytes text : List UInt8}
    (h : Lzma2Comes size s bytes text) : bytes ≠ [] := by
  induction h with
  | control _ _ _ hcoded => exact hcoded.ne_nil
  | field => exact List.cons_ne_nil _ _
  | properties => exact List.cons_ne_nil _ _
  | prepare _ _ _ _ ih => exact List.append_ne_nil_of_right_ne_nil _ ih
  | run _ _ _ _ _ _ hcoded => exact List.append_ne_nil_of_right_ne_nil _ hcoded.ne_nil
  | copy _ _ _ _ hcoded => exact List.append_ne_nil_of_right_ne_nil _ hcoded.ne_nil

/-! ## The control byte and what follows it -/

section Control

variable {size : Nat} {s : XzDecLzma2} {b : XzBuf} {w w' : Lzma2State}

/-- `LzmaProps.byte` is what `lzma_props` takes apart. -/
theorem lzmaProps_byte (p : LzmaProps) (dec : LzmaDec) (coder : LzmaCoder) :
    lzmaProps dec coder p.byte = (true, p.dec, ⟨coder.rc.reset,
      fun i => if i < probsTotal then 1024 else coder.probs i⟩) := by
  obtain ⟨lc, lp, pb, hliteral, hpos⟩ := p
  have hnum : (LzmaProps.byte ⟨lc, lp, pb, hliteral, hpos⟩).toNat = (pb * 5 + lp) * 9 + lc := by
    rw [LzmaProps.byte, UInt8.toNat_ofNat']
    exact Nat.mod_eq_of_lt (show (pb * 5 + lp) * 9 + lc < 2 ^ 8 by omega)
  have hpb : ((pb * 5 + lp) * 9 + lc) / 45 = pb := by omega
  have hlp : ((pb * 5 + lp) * 9 + lc) % 45 / 9 = lp := by omega
  have hlc : ((pb * 5 + lp) * 9 + lc) % 45 % 9 = lc := by omega
  simp only [lzmaProps, hnum, hpb, hlp, hlc]
  rw [if_neg (by omega), if_neg (by omega)]
  rfl

/-- The header of an LZMA chunk has been read, up to the code. -/
theorem prepare_comes {past init body bytes out text : List UInt8} {dec dec' : LzmaDec}
    {probs probs' : Probs} (hsize : s.lzma.dict.size = size) (hseq : s.sequence = .lzmaPrepare)
    (hempty : s.temp.size = 0) (hshows : s.lzma.dict.Shows past) (hset : s.LzmaSet)
    (hdec : s.Set dec probs) (hinit : init.length = 5) (hcode : rcCode init < 0xFFFFFFFF)
    (hcompressed : s.compressed = 5 + body.length)
    (hcoded : LzmaCoded size ⟨past, dec⟩ ⟨probs, 0xFFFFFFFF, rcCode init, body⟩
      ⟨out.reverse ++ past, dec'⟩ probs')
    (hout : out.length = s.uncompressed)
    (hrest : Lzma2Coded size ⟨out.reverse ++ past, some (dec', probs'), false⟩ bytes text) :
    Lzma2Comes size s (init ++ (body ++ bytes)) (out ++ text) := by
  have hok : s.lzma.Ok past := ⟨hshows.holds, hset.dec, hset.rep0⟩
  have htracks : s.lzma.Tracks past ⟨past, dec⟩ := by
    refine ⟨hok, hshows.aligned, ?_, ?_⟩
    · have hlen := hdec.len
      simp only [hdec.eq]
      cases hd : dec
      rw [hd] at hlen
      simp only at hlen
      rw [hlen]
    · simp only [hdec.eq, hdec.len, Lz77.copies_zero]
  have hmodel : Remodel ⟨probs, 0xFFFFFFFF, rcCode init, body⟩
      ⟨s.coder.probs, 0xFFFFFFFF, rcCode init, body⟩ := ⟨rfl, rfl, rfl, hdec.probs⟩
  obtain ⟨probs'', hcoded', hsame⟩ := hcoded.remodel htracks.history_ok hmodel
  refine .prepare hseq (hinit.trans hdec.initBytesLeft.symm) (by omega) (.run hsize rfl
    (h := ⟨past, dec⟩) (m := ⟨s.coder.probs, 0xFFFFFFFF, rcCode init, body⟩) ⟨htracks,
      hsize.symm ▸ hcoded', ⟨rfl, hset.probs, ?_, (RcDec.feed_code _ hinit).symm, hcode⟩, ?_, ?_, ?_⟩
      hout ((hcoded.grows htracks.history_ok).2.2 hdec.len) hsame hrest)
  · change 0xFFFFFFFF = s.coder.rc.range.toNat
    rw [hdec.range]
    rfl
  · simp only [rcTop]
    decide
  · simp only [hempty, List.take_zero, List.nil_append]
  · simp only
    omega

/-- What a control byte resets. -/
theorem start_comes (hok : s.Ok b) (hb : b.Valid) (hsize : s.lzma.dict.size = size)
    (hseq : s.sequence = .control) (hat : s.At w) {x : UInt8} (hstart : w.start x = some w')
    {resets : Bool} (hresets : resets = (decide (x ≥ 0xE0) || decide (x = 0x01))) :
    ¬ (!resets && s.needDictReset) = true ∧ ∃ s1 : XzDecLzma2, s1 = (if resets = true then
        { s with needProps := true, needDictReset := false
                 lzma := { s.lzma with dict := s.lzma.dict.reset b } } else s)
      ∧ s1.At w' ∧ s1.lzma.dict.size = size ∧ s1.temp.size = 0 ∧ w'.needDictReset = false
      ∧ (w'.lzma ≠ none → s1.LzmaSet) := by
  have hempty := hok.empty (by rw [hseq]; decide)
  by_cases hx : x ≥ 0xE0 ∨ x = 0x01
  · have hr : resets = true := by
      rw [hresets]
      rcases hx with hx | hx
      · rw [decide_eq_true hx, Bool.true_or]
      · rw [decide_eq_true hx, Bool.or_true]
    rw [Lzma2State.start, if_pos hx] at hstart
    cases hstart
    obtain ⟨hholds, -⟩ := Dictionary.reset_holds hok.size_pos hok.ring hb
    rw [hr, Bool.not_true, Bool.false_and, if_pos rfl]
    exact ⟨by decide, _, rfl, ⟨rfl, fun _ => ⟨hholds, rfl⟩, fun _ _ _ hl => by cases hl⟩, hsize,
      hempty, rfl, fun hne => absurd rfl hne⟩
  · have hr : resets = false := by
      rw [not_or] at hx
      rw [hresets, decide_eq_false hx.1, decide_eq_false hx.2]
      rfl
    rw [Lzma2State.start, if_neg hx] at hstart
    split at hstart
    · cases hstart
    · rename_i hneed
      cases hstart
      have hneed' : s.needDictReset = false := by
        rw [hat.needDictReset]
        exact Bool.eq_false_iff.mpr hneed
      rw [hr, hneed', if_neg (by decide)]
      refine ⟨by decide, s, rfl, hat, hsize, hempty, hat.needDictReset ▸ hneed', fun hne => ?_⟩
      obtain ⟨⟨dec, probs⟩, hl⟩ := Option.ne_none_iff_exists'.mp hne
      obtain ⟨hprops, -⟩ := hat.lzma dec probs (hat.needDictReset ▸ hneed') hl
      have htarget : s.target = .control := by rw [XzDecLzma2.target, hseq]
      exact hok.lzma hneed' hprops (by rw [htarget]; decide)

/-- The four bytes of the sizes of an LZMA chunk. -/
theorem sizes_comes {u1 u0 c1 c0 : UInt8} {bytes text : List UInt8}
    (hseq : s.sequence = .uncompressed1)
    (h : Lzma2Comes size { s with uncompressed := s.uncompressed + be16 u1 u0 + 1
                                  compressed := be16 c1 c0 + 1
                                  sequence := s.nextSequence } bytes text) :
    Lzma2Comes size s (u1 :: u0 :: c1 :: c0 :: bytes) text := by
  have hu : s.uncompressed + u1.toNat <<< 8 + u0.toNat + 1 = s.uncompressed + be16 u1 u0 + 1 := by
    rw [be16, Nat.shiftLeft_eq]
    omega
  have hc : c1.toNat <<< 8 + c0.toNat + 1 = be16 c1 c0 + 1 := by
    rw [be16, Nat.shiftLeft_eq]
  refine .field (by rw [XzDecLzma2.field, hseq]) (.field rfl (.field rfl (.field rfl ?_)))
  simp only [hu, hc]
  exact h

/-- `SEQ_CONTROL` in a coded stream: its end, or the header of a chunk. -/
theorem control_comes (hok : s.Ok b) (hb : b.Valid) (hsize : s.lzma.dict.size = size)
    (hseq : s.sequence = .control) (hat : s.At w) {x : UInt8} {bytes text : List UInt8}
    (hcoded : Lzma2Coded size w (x :: bytes) text) :
    (lzma2Control s b x = .exit (.streamEnd, s, b) ∧ bytes = [] ∧ text = [])
      ∨ ∃ s', lzma2Control s b x = .next (s', b) ∧ Lzma2Comes size s' bytes text := by
  obtain ⟨resets, hresets⟩ : ∃ resets : Bool,
    resets = (decide (x ≥ 0xE0) || decide (x = 0x01)) := ⟨_, rfl⟩
  cases hcoded with
  | done => exact Or.inl ⟨if_pos rfl, rfl, rfl⟩
  | @stored _ _ _ hi lo data bytes text hcontrol hstart hlength hrest =>
      obtain ⟨hgo, s1, hs1, hat1, hsize1, hempty1, hneed1, -⟩ :=
        start_comes hok hb hsize hseq hat hstart hresets
      right
      have hkind : x ≠ 0x00 ∧ ¬ x ≥ 0x80 ∧ ¬ x > 0x02 := by
        rcases hcontrol with rfl | rfl <;> decide
      refine ⟨{ s1 with sequence := .compressed0, nextSequence := .copy }, ?_, ?_⟩
      · rw [lzma2Control, if_neg hkind.1]
        simp only [← hresets]
        rw [if_neg hgo]
        simp only [← hs1]
        rw [if_neg hkind.2.1, if_neg hkind.2.2]
      · refine .field rfl (.field rfl (.copy hsize1 rfl ⟨hat1.needDictReset, hat1.dict, ?_⟩ ?_
          hrest))
        · intro dec probs hneed hl
          obtain ⟨hp, hset⟩ := hat1.lzma dec probs hneed hl
          exact ⟨hp, ⟨hset.eq, hset.len, hset.probs, hset.range, hset.code, hset.initBytesLeft⟩⟩
        · simp only [Nat.shiftLeft_eq]
          rw [be16] at hlength
          exact hlength.symm
  | @lzma _ w' _ u1 u0 c1 c0 setup init body bytes out text dec dec' probs probs' hstart hsetup
      hinit hcode hcompressed hcoded hlength hrest =>
      obtain ⟨hgo, s1, hs1, hat1, hsize1, hempty1, hneed1, hset1⟩ :=
        start_comes hok hb hsize hseq hat hstart hresets
      right
      have hshows := hat1.dict hneed1
      rw [hneed1] at hrest
      rw [hinit] at hcompressed
      have hlong := hsetup.control
      have hzero : x ≠ 0x00 := by
        rintro rfl
        exact absurd hlong (by decide)
      have hround : lzma2Control s b x =
          if x ≥ 0xC0 then .next ({ s1 with
            uncompressed := (x &&& 0x1F).toNat <<< 16
            sequence := .uncompressed1
            needProps := false
            nextSequence := .properties }, b)
          else if s1.needProps then .exit (.dataError, { s1 with
            uncompressed := (x &&& 0x1F).toNat <<< 16
            sequence := .uncompressed1 }, b)
          else if x ≥ 0xA0 then .next ({ s1 with
            uncompressed := (x &&& 0x1F).toNat <<< 16
            sequence := .uncompressed1
            nextSequence := .lzmaPrepare
            lzma := { s1.lzma with dec := (lzmaReset s1.lzma.dec s1.coder).1 }
            coder := (lzmaReset s1.lzma.dec s1.coder).2 }, b)
          else .next ({ s1 with
            uncompressed := (x &&& 0x1F).toNat <<< 16
            sequence := .uncompressed1
            nextSequence := .lzmaPrepare }, b) := by
        rw [lzma2Control, if_neg hzero]
        simp only [← hresets]
        rw [if_neg hgo]
        simp only [← hs1]
        rw [if_pos hlong]
      have hsum : (x &&& 0x1F).toNat <<< 16 + be16 u1 u0 + 1 = out.length := by
        rw [Nat.shiftLeft_eq]
        exact hlength
      generalize hl : w'.lzma = l at hsetup
      cases hsetup with
      | props p hcontrol =>
          rw [hround, if_pos hcontrol]
          refine ⟨_, rfl, sizes_comes rfl ?_⟩
          have hp := lzmaProps_byte p s1.lzma.dec s1.coder
          obtain ⟨hdec, hlit, hlen, hprobs, hlow⟩ := lzmaProps_ok hp
          refine .properties rfl hp ?_
          change Lzma2Comes size _ (init ++ (body ++ bytes)) _
          exact prepare_comes hsize1 rfl hempty1 ⟨hshows.holds, hshows.aligned⟩
            (.fresh hdec hlit hlen hprobs hlow)
            ⟨rfl, rfl, fun i hi => (if_pos hi).symm, rfl, rfl, rfl⟩ hinit hcode hcompressed hcoded
            hsum.symm hrest
      | @state dec probs hcontrol hlt =>
          obtain ⟨hprops, hat⟩ := hat1.lzma dec probs hneed1 hl
          have hs := hset1 (by rw [hl]; exact Option.some_ne_none _)
          rw [hround, if_neg (UInt8.not_le.mpr hlt), if_neg (by rw [hprops]; decide),
            if_pos hcontrol]
          refine ⟨_, rfl, sizes_comes rfl ?_⟩
          change Lzma2Comes size _ (init ++ (body ++ bytes)) _
          obtain ⟨hdec, hlit, hlen, hprobs, hlow⟩ :=
            lzmaReset_ok s1.coder hs.dec.literal hs.dec.posMask
          refine prepare_comes hsize1 rfl hempty1 ⟨hshows.holds, hshows.aligned⟩
            (.fresh hdec hlit hlen hprobs hlow)
            ⟨?_, rfl, fun i hi => (if_pos hi).symm, rfl, rfl, rfl⟩ hinit hcode hcompressed hcoded
            hsum.symm hrest
          rw [← hat.eq]
          rfl
      | @keep dec probs hcontrol hlt =>
          obtain ⟨hprops, hat⟩ := hat1.lzma dec probs hneed1 hl
          have hs := hset1 (by rw [hl]; exact Option.some_ne_none _)
          rw [hround, if_neg (UInt8.not_le.mpr (UInt8.lt_trans hlt (by decide))),
            if_neg (by rw [hprops]; decide), if_neg (UInt8.not_le.mpr hlt)]
          refine ⟨_, rfl, sizes_comes rfl ?_⟩
          change Lzma2Comes size _ (init ++ (body ++ bytes)) _
          exact prepare_comes hsize1 rfl hempty1 ⟨hshows.holds, hshows.aligned⟩
            ⟨hs.dec, hs.rep0, hs.probs, hs.low⟩
            ⟨hat.eq, hat.len, hat.probs, hat.range, hat.code, hat.initBytesLeft⟩ hinit hcode
            hcompressed hcoded hsum.symm hrest

end Control

/-! ## A round -/

/-- From `bytes` and `text`, the front of both is done, and `rest` is still to
be said. -/
def Lzma2Moves (size : Nat) (b : XzBuf) (bytes text : List UInt8) (s' : XzDecLzma2) (b' : XzBuf)
    (rest : List UInt8) : Prop :=
  ∃ front back said, bytes = front ++ back ∧ text = said ++ rest
    ∧ b' = b.moved front.length said ∧ Lzma2Comes size s' back rest

/-- Why a call returns before the end. -/
def XzBuf.Used (b : XzBuf) (rest : List UInt8) : Prop :=
  b.inPos = b.input.length ∨ b.out.length = b.outSize ∧ rest ≠ []

/-- How a round ends. -/
def Lzma2Follows (size : Nat) (b : XzBuf) (bytes text : List UInt8) : Lzma2Flow → Prop :=
  Flow.Post (fun x => ∃ rest, Lzma2Moves size b bytes text x.1 x.2 rest)
    fun r => (r.1 = .ok ∧ ∃ rest, Lzma2Moves size b bytes text r.2.1 r.2.2 rest ∧ r.2.2.Used rest)
      ∨ (r.1 = .streamEnd ∧ r.2.2 = b.moved bytes.length text)

section Round

variable {size : Nat} {s : XzDecLzma2} {b : XzBuf} {bytes text next : List UInt8}

theorem Dictionary.Shows.wrap {d : Dictionary} {past : List UInt8} (h : d.Shows past)
    (hsize : d.size % 16 = 0) : d.wrap.settle.Shows past :=
  ⟨h.holds.wrap, (Dictionary.wrap_mod h.holds.ring hsize).trans h.aligned⟩

/-- Where all of its text is said, nothing of the data is left, and the decoder is
the one that the data ends with. -/
theorem XzDecLzma2.Coded.finished {past left : List UInt8} {h : LzmaHistory} {m : LzmaRange}
    {dec : LzmaDec} {probs : Probs} (hc : s.Coded past left h m ⟨past, dec⟩ probs) :
    s.lzma.dec = dec ∧ s.lzma.dec.len = 0 ∧ s.coder.rc.code = 0 ∧ left = [] ∧ s.compressed = 0
      ∧ s.coder.probs = probs := by
  have hle := (hc.coded.grows hc.tracks.history_ok).1.length_le
  have hpast := congrArg List.length hc.tracks.past
  -- a match that is still to be copied would say more than there is
  obtain ⟨hlen, hfull⟩ : s.lzma.dec.len = 0 ∧ h.past.length = past.length := by
    rcases Nat.eq_zero_or_pos s.lzma.dec.len with hzero | hpos
    · rw [hzero, Lz77.copies_zero] at hpast
      exact ⟨hzero, hpast⟩
    · have hrep := (hc.tracks.ok.rep0 (Or.inr hpos)).1
      rw [Lz77.length_copies (Nat.lt_of_lt_of_le hrep hc.tracks.ok.dict.full_le)] at hpast
      simp only at hle
      omega
  obtain ⟨hgoal, hcode, hrest, hprobs⟩ := hc.coded.finished hc.tracks.history_ok
    (Nat.le_of_eq hfull.symm) hc.top
  obtain ⟨-, hdec⟩ := hc.tracks.settled hlen
  have hall := hc.rest
  have hcompressed := hc.compressed
  rw [hrest] at hall hcompressed
  refine ⟨?_, hlen, UInt32.toNat_inj.mp (hc.matched.code ▸ hcode),
    (List.append_eq_nil_iff.mp hall.symm).2, hcompressed.symm, ?_⟩
  · rw [← hdec, ← hgoal]
  · rw [hprobs, hc.matched.probs]

/-- `SEQ_LZMA_RUN` in a coded stream. -/
theorem lzma2RunChunk_comes (h16 : size % 16 = 0) (hok : s.Ok b) (hb : b.Valid)
    {past left out : List UInt8} {h : LzmaHistory} {m : LzmaRange} {dec : LzmaDec}
    {probs probs' : Probs} (hsize : s.lzma.dict.size = size) (hseq : s.sequence = .lzmaRun)
    (hchunk : s.Coded past left h m ⟨out.reverse ++ past, dec⟩ probs')
    (hout : out.length = s.uncompressed) (hlen : dec.len = 0) (hsame : probs.Same probs')
    (hcoded : Lzma2Coded size ⟨out.reverse ++ past, some (dec, probs), false⟩ bytes text)
    (hoffer : b.input.drop b.inPos <+: (left ++ bytes) ++ next) :
    ∃ r, lzma2RunChunk s b = .ok r ∧ Lzma2Follows size b (left ++ bytes) (out ++ text) r := by
  have htarget : s.target = .lzmaRun := by rw [XzDecLzma2.target, hseq]
  have hfresh : s.needDictReset = false := by
    rw [← Bool.not_eq_true]
    intro hneed
    rw [hok.fresh hneed] at hseq
    cases hseq
  have hprops := hok.props (Or.inr (Or.inr htarget))
  obtain ⟨-, hrests⟩ := hok.dict hfresh
  have hholds := hchunk.tracks.ok.dict
  have hset := hok.lzma hfresh hprops (by rw [htarget]; decide)
  obtain ⟨htemp, hshort⟩ := hok.temp hseq
  obtain ⟨outMax, houtMax⟩ : ∃ outMax, outMax = min (b.outSize - b.out.length) s.uncompressed :=
    ⟨_, rfl⟩
  obtain ⟨hlow, hhigh, -⟩ := Dictionary.setLimit_bounds hholds outMax
  obtain ⟨s1, hs1⟩ : ∃ s1 : XzDecLzma2,
      s1 = { s with lzma := { s.lzma with dict := s.lzma.dict.setLimit outMax } } := ⟨_, rfl⟩
  have hready : Lzma2Ready s1 b past := by
    subst hs1
    exact ⟨⟨⟨hholds.setLimit outMax, hset.dec, hset.rep0⟩, hset.probs, hset.low⟩, hlow, hok.tempBuf,
      htemp, hshort, hb.inside⟩
  have hchunk1 : s1.Coded past left h m ⟨out.reverse ++ past, dec⟩ probs' := by
    subst hs1
    exact ⟨⟨⟨hholds.setLimit outMax, hset.dec, hset.rep0⟩, hchunk.tracks.aligned,
      hchunk.tracks.dec, hchunk.tracks.past⟩, hchunk.coded, ⟨hchunk.matched.probs,
      hchunk.matched.good, hchunk.matched.range, hchunk.matched.code, hchunk.matched.lt⟩,
      hchunk.top, hchunk.rest, hchunk.compressed⟩
  have hbound : past.length + (s1.lzma.dict.limit - s1.lzma.dict.pos)
      ≤ (out.reverse ++ past).length := by
    rw [hs1, List.length_append, List.length_reverse]
    change past.length + ((s.lzma.dict.setLimit outMax).limit - s.lzma.dict.pos) ≤ _
    omega
  have hoffer1 : b.input.drop b.inPos <+: left ++ (bytes ++ next) := by
    rw [← List.append_assoc]
    exact hoffer
  obtain ⟨s', b', hlzma, said, k, h', m', hb', hk, hwrote, hchunk'⟩ :=
    lzma2Lzma_coded hchunk1 hready hbound hoffer1
  obtain ⟨r, hlzma', said', hstep, hvalid⟩ := lzma2Lzma_total hready
  cases hlzma.symm.trans hlzma'
  cases hwrote.unique hready.coding.lzma.dict.window.pos_le hstep.wrote
  obtain ⟨hready', -, -⟩ := hvalid rfl
  have hkeeps := hstep.keeps
  rw [hs1] at hstep
  obtain ⟨dict, n, hflush, hn, hin, -⟩ := flush_ok hholds hrests hstep hready'
  have hkn : k = n := by
    rw [hb'] at hin
    exact Nat.add_left_cancel hin
  obtain rfl : dict = s'.lzma.dict.wrap.settle :=
    (congrArg (fun r => r.2.1) hflush).symm
  have hunc : s'.uncompressed = out.length := by rw [hkeeps.uncompressed, hs1, hout]
  have hsize' : s'.lzma.dict.size = size := by
    rw [hwrote.dict, hs1, ← hsize]
    rfl
  have hshows : s'.lzma.dict.wrap.settle.Shows (said.reverse ++ past) :=
    Dictionary.Shows.wrap ⟨hchunk'.tracks.ok.dict, hchunk'.tracks.aligned⟩ (hsize' ▸ h16)
  -- what has been said is the front of what the chunk says
  obtain ⟨more, rfl⟩ : ∃ more, out = said ++ more := by
    have hsuffix : said.reverse ++ past <:+ out.reverse ++ past := by
      refine List.IsSuffix.trans ?_ (hchunk'.coded.grows hchunk'.tracks.history_ok).1
      rw [hchunk'.tracks.past]
      exact Lz77.suffix_copies _ _ _
    obtain ⟨z, hz⟩ := hsuffix
    rw [← List.append_assoc] at hz
    have hrev := congrArg List.reverse (List.append_cancel_right hz)
    rw [List.reverse_append, List.reverse_reverse, List.reverse_reverse] at hrev
    exact ⟨z.reverse, hrev.symm⟩
  have hmoved : b.moved n said = b.moved (left.take k).length said := by
    rw [List.length_take, Nat.min_eq_left hk, hkn]
  have hbytes : left ++ bytes = left.take k ++ (left.drop k ++ bytes) := by
    rw [← List.append_assoc, List.take_append_drop]
  have hgoal : (said ++ more).reverse ++ past = more.reverse ++ (said.reverse ++ past) := by
    rw [List.reverse_append, List.append_assoc]
  rw [hgoal] at hchunk' hcoded
  rw [List.length_append] at hunc
  have hmoves : ∀ s'' : XzDecLzma2, Lzma2Comes size s'' (left.drop k ++ bytes) (more ++ text) →
      Lzma2Moves size b (left ++ bytes) (said ++ more ++ text) s'' (b.moved n said)
        (more ++ text) := fun s'' hcomes =>
    ⟨left.take k, left.drop k ++ bytes, said, hbytes, List.append_assoc .., hmoved, hcomes⟩
  rw [lzma2RunChunk, ← houtMax, ← hs1, hlzma, ok_bind]
  simp only
  rw [Bool.not_true, if_neg (by decide), hflush]
  simp only
  split
  · -- the chunk is said: nothing of it is left
    rename_i hlast
    obtain rfl : more = [] := List.eq_nil_of_length_eq_zero (by omega)
    obtain ⟨hdec, hdlen, hzero, hnone, hcompressed, hprobs'⟩ := hchunk'.finished
    rw [if_neg (by
      simp only [hcompressed, hdlen, RcDec.isFinished, hzero]
      decide)]
    refine ⟨_, rfl, [] ++ text, hmoves _ ?_⟩
    rw [hnone]
    refine .control hsize' rfl ⟨?_, fun _ => hshows, fun dec' probs'' _ hl => ?_⟩ hcoded
    · rw [hkeeps.needDictReset, hs1, hfresh]
    · cases hl
      refine ⟨by rw [hkeeps.needProps, hs1, hprops], ?_, hlen, ?_, rfl, rfl, rfl⟩
      · exact hdec
      · rw [← hprobs'] at hsame
        exact hsame
  · rename_i hlast
    have hmore : more ≠ [] := by
      rintro rfl
      rw [List.length_nil] at hunc
      omega
    have hcomes : Lzma2Comes size { s' with
        lzma := { s'.lzma with dict := s'.lzma.dict.wrap.settle }
        uncompressed := s'.uncompressed - said.length } (left.drop k ++ bytes) (more ++ text) := by
      have hrest : XzDecLzma2.Coded { s' with
          lzma := { s'.lzma with dict := s'.lzma.dict.wrap.settle }
          uncompressed := s'.uncompressed - said.length } (said.reverse ++ past) (left.drop k) h' m'
          ⟨more.reverse ++ (said.reverse ++ past), dec⟩ probs' :=
        ⟨⟨⟨hshows.holds, hchunk'.tracks.ok.dec, hchunk'.tracks.ok.rep0⟩, hshows.aligned,
          hchunk'.tracks.dec, hchunk'.tracks.past⟩, hchunk'.coded, hchunk'.matched, hchunk'.top,
          hchunk'.rest, hchunk'.compressed⟩
      refine .run hsize' ?_ hrest ?_ hlen hsame hcoded
      · simp only
        rw [hkeeps.sequence, hs1, hseq]
      · simp only
        omega
    split
    · rename_i hstop
      refine ⟨_, rfl, Or.inl ⟨rfl, more ++ text, hmoves _ hcomes, ?_⟩⟩
      rcases hstop with hfull | ⟨hin', -⟩
      · exact Or.inr ⟨hfull, List.append_ne_nil_of_left_ne_nil hmore _⟩
      · exact Or.inl hin'
    · exact ⟨_, rfl, more ++ text, hmoves _ hcomes⟩

theorem Lzma2Moves.moved {s' : XzDecLzma2} {b' : XzBuf} {front back rest : List UInt8}
    (h : Lzma2Moves size (b.moved front.length []) back text s' b' rest) :
    Lzma2Moves size b (front ++ back) text s' b' rest := by
  obtain ⟨front', back', said, rfl, htext, rfl, hcomes⟩ := h
  refine ⟨front ++ front', back', said, (List.append_assoc ..).symm, htext, ?_, hcomes⟩
  rw [XzBuf.moved_moved, List.nil_append, List.length_append]

theorem Lzma2Follows.moved {r : Lzma2Flow} {front back : List UInt8}
    (h : Lzma2Follows size (b.moved front.length []) back text r) :
    Lzma2Follows size b (front ++ back) text r := by
  refine h.imp (fun x hx => ?_) fun r hr => ?_
  · obtain ⟨rest, hmoves⟩ := hx
    exact ⟨rest, hmoves.moved⟩
  · rcases hr with ⟨hret, rest, hmoves, hused⟩ | ⟨hret, hend⟩
    · exact Or.inl ⟨hret, rest, hmoves.moved, hused⟩
    · right
      rw [hend, XzBuf.moved_moved, List.nil_append, List.length_append]
      exact ⟨hret, rfl⟩

/-- `SEQ_LZMA_PREPARE` in a coded stream. -/
theorem lzma2Prepare_comes (h16 : size % 16 = 0) (hok : s.Ok b) (hb : b.Valid)
    {init : List UInt8} (hseq : s.sequence = .lzmaPrepare)
    (hinit : init.length = s.coder.rc.initBytesLeft) (hcompressed : 5 ≤ s.compressed)
    (hcomes : Lzma2Comes size { s with coder := { s.coder with rc := s.coder.rc.feed init }
                                       compressed := s.compressed - 5
                                       sequence := .lzmaRun } bytes text)
    (hoffer : b.input.drop b.inPos <+: (init ++ bytes) ++ next) :
    ∃ r, lzma2Prepare s b = .ok r ∧ Lzma2Follows size b (init ++ bytes) text r := by
  obtain ⟨front, back, rfl, hread, hin, hout⟩ := readInit_offer hb.inside hinit (by
    rw [← List.append_assoc]
    exact hoffer)
  rw [lzma2Prepare, if_neg (Nat.not_lt.mpr hcompressed), hread]
  simp only
  cases back with
  | nil =>
      rw [List.append_nil] at hcomes hoffer ⊢
      rw [List.isEmpty_nil, Bool.not_true, if_neg (by decide)]
      have hok' := hok.prepared hseq (s.coder.rc.feed front).code
        (s.coder.rc.feed front).initBytesLeft front.length
      have hoffer' := offer_moved (b := b) (l := front ++ bytes) hin
        (by rw [List.length_append]; omega) hoffer
      rw [List.drop_left] at hoffer'
      cases hcomes with
      | control _ hq => cases hq
      | field hf => cases hf
      | properties hq => cases hq
      | prepare hq => cases hq
      | copy _ hq => cases hq
      | run hsize _ hchunk hlen' hzero hsame hcoded =>
          obtain ⟨r, hr, hfollows⟩ := lzma2RunChunk_comes h16 hok'
            ((advances_read hin).valid hb) hsize rfl hchunk hlen' hzero hsame hcoded hoffer'
          exact ⟨r, hr, hfollows.moved⟩
  | cons x back =>
      refine ⟨_, if_pos (by rfl), Or.inl ⟨rfl, text, ⟨front, x :: back ++ bytes, [], ?_, rfl,
        rfl, .prepare hseq ?_ hcompressed ?_⟩, Or.inl (hout (List.cons_ne_nil _ _))⟩⟩
      · rw [List.append_assoc]
      · rw [List.length_append] at hinit
        simp only [RcDec.feed]
        omega
      · rw [RcDec.feed_append]
        exact hcomes

/-- `SEQ_COPY` in a coded stream. -/
theorem lzma2Copy_comes (h16 : size % 16 = 0) (hok : s.Ok b) (hb : b.Valid)
    (hlt : b.inPos < b.input.length) {w : Lzma2State} {data : List UInt8}
    (hsize : s.lzma.dict.size = size) (hseq : s.sequence = .copy) (hat : s.At w)
    (hlength : data.length = s.compressed)
    (hcoded : Lzma2Coded size { w with past := data.reverse ++ w.past } bytes text)
    (hoffer : b.input.drop b.inPos <+: (data ++ bytes) ++ next) :
    ∃ r, lzma2Round (s, b) = .ok r ∧ Lzma2Follows size b (data ++ bytes) (data ++ text) r := by
  have hfresh : s.needDictReset = false := by
    rw [← Bool.not_eq_true]
    intro hneed
    rw [hok.fresh hneed] at hseq
    cases hseq
  obtain ⟨-, hrests⟩ := hok.dict hfresh
  have hneed := hat.needDictReset.symm.trans hfresh
  obtain ⟨hholds, haligned⟩ := hat.dict hneed
  obtain ⟨said, dict, hsaid, hlen, hcopy, hholds', -, hkeeps, hmod⟩ :=
    hholds.uncompressed hrests s.compressed
  have hroom : said.length = min s.compressed
      (min (b.input.length - b.inPos) (b.outSize - b.out.length)) := hlen
  -- what is copied is the front of the data
  have hfront : said = data.take said.length := by
    obtain ⟨z, hz⟩ := hoffer
    have hcut := congrArg (List.take said.length) hz
    rw [List.take_append_of_le_length (by rw [List.length_drop]; omega), List.append_assoc,
      List.take_append_of_le_length (by omega)] at hcut
    rw [← hlen] at hsaid
    exact hsaid.trans hcut
  obtain ⟨more, rfl⟩ : ∃ more, data = said ++ more :=
    ⟨data.drop said.length, by conv_lhs => rw [← List.take_append_drop said.length data, ← hfront]⟩
  have hback : { w with past := (said ++ more).reverse ++ w.past }
      = { w with past := more.reverse ++ (said.reverse ++ w.past) } := by
    rw [List.reverse_append, List.append_assoc]
  rw [hback] at hcoded
  rw [List.length_append] at hlength
  have hat' : ∀ q left, XzDecLzma2.At { s with
      lzma := { s.lzma with dict := dict }
      compressed := left
      sequence := q } { w with past := said.reverse ++ w.past } := fun q left => by
    refine ⟨hat.needDictReset, fun _ => ⟨hholds', hmod 16 (hsize ▸ h16) haligned⟩,
      fun dec probs hn hl => ?_⟩
    obtain ⟨hp, hset⟩ := hat.lzma dec probs hn hl
    exact ⟨hp, ⟨hset.eq, hset.len, hset.probs, hset.range, hset.code, hset.initBytesLeft⟩⟩
  have hmoves : ∀ s' : XzDecLzma2, Lzma2Comes size s' (more ++ bytes) (more ++ text) →
      Lzma2Moves size b (said ++ more ++ bytes) (said ++ more ++ text) s'
        (b.moved said.length said) (more ++ text) := fun s' hcomes =>
    ⟨said, more ++ bytes, said, List.append_assoc .., List.append_assoc .., rfl, hcomes⟩
  have hsize' : dict.size = size := hkeeps.size.trans hsize
  simp only [lzma2Round]
  rw [if_pos (Or.inl hlt), hseq]
  simp only [hcopy, ok_bind]
  split
  · rename_i hleft
    have hmore : more ≠ [] := by
      rintro rfl
      rw [List.length_nil] at hlength
      omega
    refine ⟨_, rfl, Or.inl ⟨rfl, more ++ text, hmoves _ (.copy hsize' rfl (hat' _ _) ?_ hcoded), ?_⟩⟩
    · simp only
      omega
    · have hin := hb.inside
      have hfits := hb.fits
      have hpos : (b.moved said.length said).inPos = b.inPos + said.length := rfl
      have hinput : (b.moved said.length said).input = b.input := rfl
      have hout : (b.moved said.length said).out.length = b.out.length + said.length :=
        List.length_append
      have hoSize : (b.moved said.length said).outSize = b.outSize := rfl
      rw [XzBuf.Used, hpos, hinput, hout, hoSize]
      by_cases hend : b.inPos + said.length = b.input.length
      · exact Or.inl hend
      · exact Or.inr ⟨by omega, List.append_ne_nil_of_left_ne_nil hmore _⟩
  · rename_i hnone
    obtain rfl : more = [] := List.eq_nil_of_length_eq_zero (by omega)
    exact ⟨_, rfl, _, hmoves _ (.control hsize' rfl (hat' _ _) hcoded)⟩

/-- The bytes of a chunk header. -/
theorem lzma2Round_field {s' : XzDecLzma2} {b' : XzBuf} {x : UInt8}
    (hlt : b.inPos < b.input.length) (hnext : b.next = .ok (x, b')) (h : s.field x = some s') :
    lzma2Round (s, b) = .ok (.next (s', b')) := by
  simp only [lzma2Round]
  rw [if_pos (Or.inl hlt)]
  rw [XzDecLzma2.field] at h
  cases hseq : s.sequence <;> rw [hseq] at h <;> cases h <;> simp only [hnext, ok_bind]

/-- A round, wherever the decoder is in a coded stream. -/
theorem lzma2Round_comes (h16 : size % 16 = 0) (hok : s.Ok b) (hb : b.Valid)
    (hcomes : Lzma2Comes size s bytes text) (hoffer : b.input.drop b.inPos <+: bytes ++ next) :
    ∃ r, lzma2Round (s, b) = .ok r ∧ Lzma2Follows size b bytes text r := by
  by_cases hlt : b.inPos < b.input.length
  · cases hcomes with
    | @control _ w _ _ hsize hseq hat hcoded =>
        obtain ⟨x, bytes, rfl⟩ := List.exists_cons_of_ne_nil hcoded.ne_nil
        obtain ⟨hnext, -⟩ := offer_next hlt hoffer
        have hround : lzma2Round (s, b) = .ok (lzma2Control s (b.moved 1 []) x) := by
          simp only [lzma2Round]
          rw [if_pos (Or.inl hlt), hseq]
          simp only [hnext, ok_bind]
        refine ⟨_, hround, ?_⟩
        rcases control_comes (hok.moved 1) ((advances_read hlt).valid hb) hsize hseq hat hcoded with
          ⟨hend, rfl, rfl⟩ | ⟨s', hgo, hcomes⟩
        · rw [hend]
          exact Or.inr ⟨rfl, rfl⟩
        · rw [hgo]
          exact ⟨text, [x], bytes, [], rfl, rfl, rfl, hcomes⟩
    | @field _ s' x bytes _ hfield hcomes =>
        obtain ⟨hnext, -⟩ := offer_next hlt hoffer
        exact ⟨_, lzma2Round_field hlt hnext hfield, text, [x], bytes, [], rfl, rfl, rfl, hcomes⟩
    | @properties _ x dec coder bytes _ hseq hprops hcomes =>
        obtain ⟨hnext, -⟩ := offer_next hlt hoffer
        have hround : lzma2Round (s, b) = lzma2Prepare { s with
            lzma := { s.lzma with dec := dec }
            coder := coder
            sequence := .lzmaPrepare } (b.moved 1 []) := by
          simp only [lzma2Round]
          rw [if_pos (Or.inl hlt), hseq]
          simp only [hnext, ok_bind, hprops]
          exact if_neg (by decide)
        have hoffer' := offer_moved (b := b) (l := x :: bytes) (k := 1) hlt (by
          rw [List.length_cons]
          omega) hoffer
        have hok' := hok.withProps hseq hprops
        have hb' := (advances_read (b := b) (n := 1) hlt).valid hb
        cases hcomes with
        | control _ hq => cases hq
        | field hf => cases hf
        | properties hq => cases hq
        | run _ hq => cases hq
        | copy _ hq => cases hq
        | prepare hq hinit hcompressed hcomes =>
            obtain ⟨r, hr, hfollows⟩ :=
              lzma2Prepare_comes h16 hok' hb' hq hinit hcompressed hcomes hoffer'
            have hall : Lzma2Follows size b ([x] ++ _) text r := hfollows.moved
            exact ⟨r, hround.trans hr, hall⟩
    | prepare hseq hinit hcompressed hcomes =>
        simp only [lzma2Round]
        rw [if_pos (Or.inl hlt), hseq]
        exact lzma2Prepare_comes h16 hok hb hseq hinit hcompressed hcomes hoffer
    | run hsize hseq hchunk hout hlen hsame hcoded =>
        simp only [lzma2Round]
        rw [if_pos (Or.inl hlt), hseq]
        exact lzma2RunChunk_comes h16 hok hb hsize hseq hchunk hout hlen hsame hcoded hoffer
    | copy hsize hseq hat hlength hcoded =>
        exact lzma2Copy_comes h16 hok hb hlt hsize hseq hat hlength hcoded hoffer
  · by_cases hseq : s.sequence = .lzmaRun
    · cases hcomes with
      | control _ hq => rw [hseq] at hq; cases hq
      | field hf => rw [XzDecLzma2.field, hseq] at hf; cases hf
      | properties hq => rw [hseq] at hq; cases hq
      | prepare hq => rw [hseq] at hq; cases hq
      | copy _ hq => rw [hseq] at hq; cases hq
      | run hsize _ hchunk hout hlen hsame hcoded =>
          simp only [lzma2Round]
          rw [if_pos (Or.inr hseq), hseq]
          exact lzma2RunChunk_comes h16 hok hb hsize hseq hchunk hout hlen hsame hcoded hoffer
    · simp only [lzma2Round]
      rw [if_neg (by tauto)]
      exact ⟨_, rfl, Or.inl ⟨rfl, text, ⟨[], bytes, [], rfl, rfl, (b.moved_zero).symm, hcomes⟩,
        Or.inl (Nat.le_antisymm hb.inside (Nat.not_lt.mp hlt))⟩⟩

/-! ## A call -/

theorem Lzma2Moves.trans {s'' : XzDecLzma2} {b' b'' : XzBuf} {rest rest' : List UInt8}
    {front back said : List UInt8} (hbytes : bytes = front ++ back) (htext : text = said ++ rest)
    (hb : b' = b.moved front.length said) (h : Lzma2Moves size b' back rest s'' b'' rest') :
    Lzma2Moves size b bytes text s'' b'' rest' := by
  obtain ⟨front', back', said', rfl, rfl, rfl, hcomes⟩ := h
  subst hb
  refine ⟨front ++ front', back', said ++ said', ?_, ?_, ?_, hcomes⟩
  · rw [hbytes, List.append_assoc]
  · rw [htext, List.append_assoc]
  · rw [XzBuf.moved_moved, List.length_append]

/-- How a call ends: with all of the stream, or because a buffer is used up. -/
def Lzma2Ends (size : Nat) (b : XzBuf) (bytes text : List UInt8)
    (r : XzCode × XzDecLzma2 × XzBuf) : Prop :=
  (r.1 = .ok ∧ r.2.1.Ok r.2.2 ∧ ∃ rest, Lzma2Moves size b bytes text r.2.1 r.2.2 rest
    ∧ r.2.2.Used rest) ∨ (r.1 = .streamEnd ∧ r.2.2 = b.moved bytes.length text)

/-- A call of `xz_dec_lzma2_run` in a coded stream, wherever its buffers end. -/
theorem lzma2Run_comes (h16 : size % 16 = 0) (hok : s.Ok b) (hb : b.Valid)
    (hcomes : Lzma2Comes size s bytes text) (hoffer : b.input.drop b.inPos <+: bytes ++ next) :
    ∃ r, xzDecLzma2Run s b = .ok r ∧ Lzma2Ends size b bytes text r := by
  have hround : ∀ x : XzDecLzma2 × XzBuf,
      (x.1.Ok x.2 ∧ x.2.Valid ∧ ∃ rest, Lzma2Moves size b bytes text x.1 x.2 rest) →
      ∃ r, lzma2Round x = .ok r ∧ r.Post
        (fun x' => (x'.1.Ok x'.2 ∧ x'.2.Valid
          ∧ ∃ rest, Lzma2Moves size b bytes text x'.1 x'.2 rest) ∧ x'.2.ahead < x.2.ahead)
        (Lzma2Ends size b bytes text) := by
    rintro ⟨s', b'⟩ ⟨hok', hb', rest, front, back, said, hbytes, htext, hmoved, hcomes'⟩
    simp only at hok' hb' hmoved
    have hoffer' : b'.input.drop b'.inPos <+: back ++ next := by
      have hin := hb'.inside
      rw [hmoved, XzBuf.moved] at hin ⊢
      rw [hbytes] at hoffer
      have hfront := offer_moved (b := b) hin (by rw [List.length_append]; omega) hoffer
      rw [List.drop_left] at hfront
      exact hfront
    obtain ⟨r, hr, hfollows⟩ := lzma2Round_comes h16 hok' hb' hcomes' hoffer'
    obtain ⟨r', hr', hpost⟩ := lzma2Round_total hok' hb'
    cases hr.symm.trans hr'
    refine ⟨r, hr, ?_⟩
    cases r with
    | next x =>
        obtain ⟨rest', hmoves⟩ := hfollows
        obtain ⟨hokx, -, hadv, hless⟩ := hpost
        exact ⟨⟨hokx, hadv.valid hb', rest',
          .trans hbytes htext hmoved hmoves⟩, hless⟩
    | exit e =>
        obtain ⟨-, -, hend, -⟩ := hpost
        rcases hfollows with ⟨hret, rest', hmoves, hused⟩ | ⟨hret, hall⟩
        · exact Or.inl ⟨hret, hend (Or.inl hret), rest', .trans hbytes htext hmoved hmoves, hused⟩
        · refine Or.inr ⟨hret, ?_⟩
          rw [hall, hmoved, XzBuf.moved_moved, hbytes, htext, List.length_append]
  exact loopFuel_total hround (k := lzma2Fuel b) (s := (s, b)) ⟨hok, hb, text, [], bytes, [],
    rfl, rfl, (b.moved_zero).symm, hcomes⟩ (Nat.lt_succ_self _)

end Round

end Ccr2004
