import Ccr2004.Lzma2Machine
import Ccr2004.XzFallback

/-!
# The stream decoder over its LZMA2 decoder

`XzDec` with the decoder of `XzDec/xz_dec_lzma2.c` behind `s->lzma2`. An access
outside a buffer loses that decoder; `xzDec_inside` says that no caller sees
this happen, in either mode, whatever the input is and however it is cut into
calls. What carries it is `XzDec.Sound`: the LZMA2 decoder is set up wherever
`SEQ_BLOCK_UNCOMPRESS` can find it.
-/

namespace Ccr2004

/-! ## The decoder of the blocks -/

instance (b b' : XzBuf) : Decidable (b.Advances b') :=
  decidable_of_iff
    (b'.input = b.input ∧ b'.outSize = b.outSize ∧ b.inPos ≤ b'.inPos ∧ b.out <+: b'.out
      ∧ (b.inPos ≤ b.input.length ∧ b.out.length ≤ b.outSize →
          b'.inPos ≤ b'.input.length ∧ b'.out.length ≤ b'.outSize))
    ⟨fun ⟨hinput, hsize, hpos, hout, hvalid⟩ => ⟨hinput, hsize, hpos, hout, fun hb =>
        ⟨(hvalid ⟨hb.inside, hb.fits⟩).1, (hvalid ⟨hb.inside, hb.fits⟩).2⟩⟩,
      fun h => ⟨h.input, h.outSize, h.inPos, h.out, fun hb =>
        ⟨(h.valid ⟨hb.1, hb.2⟩).inside, (h.valid ⟨hb.1, hb.2⟩).fits⟩⟩⟩

/-- A call of the decoder behind `s->lzma2`; positions outside the buffers are
an access outside, too. -/
def lzma2Call (s : Run XzDecLzma2) (b : XzBuf) : Run (XzCode × XzDecLzma2 × XzBuf) := do
  let s ← s
  let (ret, s, b') ← xzDecLzma2Run s b
  if b.Advances b' then .ok (ret, s, b') else .error .outOfBounds

def lzma2Step (s : Run XzDecLzma2) (b : XzBuf) : XzCode × Run XzDecLzma2 × XzBuf :=
  match lzma2Call s b with
  | .ok (ret, s, b) => (ret, .ok s, b)
  | .error fault => (.dataError, .error fault, b)

def lzma2Restart (s : Run XzDecLzma2) (props : UInt8) : XzCode × Run XzDecLzma2 :=
  match s with
  | .ok s => ((xzDecLzma2Reset s props).1, .ok (xzDecLzma2Reset s props).2)
  | .error fault => (.dataError, .error fault)

/-- The LZMA2 decoder of a stream decoder. -/
def xzLzma2 (mode : XzMode) (dictMax : Nat) : Lzma2 (Run XzDecLzma2) where
  init := .ok (xzDecLzma2Create mode dictMax)
  reset := lzma2Restart
  run := lzma2Step
  advances s b := by
    rw [lzma2Step]
    cases hcall : lzma2Call s b with
    | error fault => exact .refl b
    | ok r =>
        obtain ⟨ret, s', b'⟩ := r
        obtain ⟨d, -, hd⟩ := bind_eq_ok.mp hcall
        obtain ⟨⟨ret', d', b''⟩, -, hr⟩ := bind_eq_ok.mp hd
        simp only at hr
        split at hr
        · rename_i hadv
          cases hr
          exact hadv
        · cases hr

/-! ## What a caller may do -/

/-- The codes that are no error; `XZ_BUF_ERROR` asks for more room or input. -/
def XzCode.live (ret : XzCode) : Bool := ret = .ok ∨ ret = .bufError ∨ ret = .streamEnd

/-- A caller goes on after these codes; in single-call mode a call starts over
by itself. -/
def XzMode.goesOn (mode : XzMode) (ret : XzCode) : Bool := mode = .single || ret.live

/-- The decoders that calls lead to, `true` while `xz_dec_run` may follow and
`false` until the next `xz_dec_reset`. -/
inductive XzReach (mode : XzMode) (dictMax : Nat) : Bool → XzDec (Run XzDecLzma2) → Prop where
  | init : XzReach mode dictMax true (xzDecInit (xzLzma2 mode dictMax) mode)
  | reset {live : Bool} {s : XzDec (Run XzDecLzma2)} :
      XzReach mode dictMax live s → XzReach mode dictMax true s.reset
  | run {s s' : XzDec (Run XzDecLzma2)} {b b' : XzBuf} {ret : XzCode} :
      XzReach mode dictMax true s → b.Valid →
        xzDecRun (xzLzma2 mode dictMax) s b = .ok (ret, s', b') →
          XzReach mode dictMax (mode.goesOn ret) s'

/-! ## The invariant -/

/-- The LZMA2 decoder is there. -/
structure XzDec.Has (s : XzDec (Run XzDecLzma2)) (mode : XzMode) (d : XzDecLzma2) : Prop where
  decoder : s.lzma2 = .ok d
  tempBuf : d.temp.buf.length = 3 * lzmaInRequired
  dictMode : d.lzma.dict.mode = mode
  sameMode : s.mode = mode

/-- And it is set up where it runs next; a header that is partly read is not
complete. -/
structure XzDec.Sound (s : XzDec (Run XzDecLzma2)) (mode : XzMode) (b : XzBuf) : Prop where
  has : ∃ d, s.Has mode d ∧ (s.sequence = .blockUncompress → d.Ok b)
  header : s.sequence = .blockHeader → s.temp.pos < s.temp.size

variable {mode : XzMode} {s s' : XzDec (Run XzDecLzma2)} {b b' : XzBuf}
  {d d' : XzDecLzma2}

theorem XzDec.Has.keep {t : XzDec (Run XzDecLzma2)} (h : s.Has mode d) (hsame : t.lzma2 = s.lzma2)
    (hmode : t.mode = s.mode) : t.Has mode d :=
  ⟨hsame.trans h.decoder, h.tempBuf, h.dictMode, hmode.trans h.sameMode⟩

/-- Nothing else matters where it does not run next. -/
theorem XzDec.Has.sound (h : s.Has mode d) {q : XzSequence} (hq : s.sequence = q)
    (hnot : q ≠ .blockUncompress) (hhead : q ≠ .blockHeader) (b : XzBuf) : s.Sound mode b := by
  subst hq
  exact ⟨⟨d, h, fun hc => absurd hc hnot⟩, fun hc => absurd hc hhead⟩

theorem XzDec.Sound.other (h : s.Sound .prealloc b) (b' : XzBuf) : s.Sound .prealloc b' := by
  obtain ⟨⟨d, hhas, hok⟩, hheader⟩ := h
  exact ⟨⟨d, hhas, fun hq => (hok hq).other hhas.dictMode b'⟩, hheader⟩

/-! ## The parts that leave the decoder alone -/

section Frame

variable {σ : Type} (lzma2 : Lzma2 σ)

/-- Two states of the stream decoder in one place, with one LZMA2 decoder. -/
def XzDec.Alike (s s' : XzDec σ) : Prop :=
  s'.lzma2 = s.lzma2 ∧ s'.mode = s.mode ∧ s'.sequence = s.sequence

theorem XzDec.Alike.trans {s s' s'' : XzDec σ} (h : s.Alike s') (h' : s'.Alike s'') : s.Alike s'' :=
  ⟨h'.1.trans h.1, h'.2.1.trans h.2.1, h'.2.2.trans h.2.2⟩

theorem fillTemp_alike (s : XzDec σ) (b : XzBuf) : s.Alike (fillTemp s b).2.1 := by
  rw [fillTemp]
  split
  · exact ⟨rfl, rfl, rfl⟩
  · exact ⟨rfl, rfl, rfl⟩

/-- A fill that is not complete wants more. -/
theorem fillTemp_more {s s' : XzDec σ} {b b' : XzBuf} (hpos : s.temp.pos < s.temp.size)
    (h : fillTemp s b = (false, s', b')) : s'.temp.pos < s'.temp.size := by
  rw [fillTemp] at h
  split at h
  · cases h
  · rename_i hnot
    cases h
    simp only at hnot ⊢
    omega

/-- A fill that completes took all that was missing. -/
theorem fillTemp_took {s s' : XzDec σ} {b b' : XzBuf} (hpos : s.temp.pos < s.temp.size)
    (h : fillTemp s b = (true, s', b')) : b.inPos < b'.inPos := by
  rw [fillTemp] at h
  split at h
  · rename_i hfull
    cases h
    simp only at hfull ⊢
    omega
  · cases h

theorem decStreamHeader_alike (s : XzDec σ) : s.Alike (decStreamHeader s).2 := by
  simp only [decStreamHeader]
  repeat' split
  all_goals exact ⟨rfl, rfl, rfl⟩

theorem decIndexFrom_alike (n : Nat) : ∀ (s : XzDec σ) (b : XzBuf),
    s.Alike (decIndexFrom n s b).2.1 := by
  induction n with
  | zero => exact fun s b => ⟨rfl, rfl, rfl⟩
  | succ n ih =>
      intro s b
      have hvli : s.Alike (decVli s b.input b.inPos b.input.length).2.2 := ⟨rfl, rfl, rfl⟩
      have hnext : ∀ (t : XzDec σ) (c : XzBuf), s.Alike t → s.Alike (decIndexFrom n t c).2.1 :=
        fun t c ht => ht.trans (ih t c)
      rw [decIndexFrom]
      simp only
      split
      · exact hvli
      · split
        · split
          · exact hvli
          · split
            · exact hnext _ _ hvli
            · exact hvli
        · split
          · exact hnext _ _ hvli
          · exact hvli
        · split
          · exact hnext _ _ hvli
          · exact hvli

theorem crc32ValidateFrom_alike (n : Nat) : ∀ (s : XzDec σ) (b : XzBuf),
    s.Alike (crc32ValidateFrom n s b).2.1 := by
  induction n with
  | zero => exact fun s b => ⟨rfl, rfl, rfl⟩
  | succ n ih =>
      intro s b
      rw [crc32ValidateFrom]
      split
      · exact ⟨rfl, rfl, rfl⟩
      · simp only
        split
        · exact ⟨rfl, rfl, rfl⟩
        · split
          · exact ih { s with pos := s.pos + 8 } _
          · exact ⟨rfl, rfl, rfl⟩

theorem blockPaddingFrom_alike (n : Nat) : ∀ (s : XzDec σ) (b : XzBuf),
    s.Alike (blockPaddingFrom n s b).2.1 := by
  induction n with
  | zero => exact fun s b => ⟨rfl, rfl, rfl⟩
  | succ n ih =>
      intro s b
      rw [blockPaddingFrom]
      split
      · exact ⟨rfl, rfl, rfl⟩
      · split
        · exact ⟨rfl, rfl, rfl⟩
        · simp only
          split
          · exact ⟨rfl, rfl, rfl⟩
          · exact ih { s with block := { s.block with compressed := s.block.compressed + 1 } } _

theorem indexPaddingFrom_alike (n : Nat) : ∀ (s : XzDec σ) (b : XzBuf),
    s.Alike (indexPaddingFrom n s b).2.1 := by
  induction n with
  | zero => exact fun s b => ⟨rfl, rfl, rfl⟩
  | succ n ih =>
      intro s b
      rw [indexPaddingFrom]
      split
      · exact ⟨rfl, rfl, rfl⟩
      · split
        · exact ⟨rfl, rfl, rfl⟩
        · simp only
          split
          · exact ⟨rfl, rfl, rfl⟩
          · exact ih s _

theorem decBlockSize_alike {s s' : XzDec σ} {present : Bool} {size : UInt64}
    (h : decBlockSize s present = some (size, s')) : s.Alike s' := by
  have hvli : s.Alike (decVli s s.temp.buf s.temp.pos s.temp.size).2.2 := ⟨rfl, rfl, rfl⟩
  rw [decBlockSize] at h
  split at h
  · simp only at h
    split at h
    · cases h
    · simp only [Option.some.injEq, Prod.mk.injEq] at h
      rw [← h.2]
      exact hvli
  · simp only [Option.some.injEq, Prod.mk.injEq] at h
    rw [← h.2]
    exact ⟨rfl, rfl, rfl⟩

/-- A block header leads to a reset of the decoder with the byte that says how
large its dictionary is, or to an error. -/
def Restarted (s : XzDec σ) (r : XzCode × XzDec σ) : Prop :=
  r.2.mode = s.mode ∧ ((s.Alike r.2 ∧ (r.1 = .dataError ∨ r.1 = .optionsError))
    ∨ ∃ props, r.2.lzma2 = (lzma2.reset s.lzma2 props).2
        ∧ (r.1 = (lzma2.reset s.lzma2 props).1 ∨ r.1 = .optionsError))

theorem decFilterFlags_restarted {s t : XzDec σ} (ht : s.Alike t) :
    Restarted lzma2 s (decFilterFlags lzma2 t) := by
  have hreset : ∀ props, (lzma2.reset t.lzma2 props).2 = (lzma2.reset s.lzma2 props).2
      ∧ (lzma2.reset t.lzma2 props).1 = (lzma2.reset s.lzma2 props).1 := fun props => by
    rw [ht.1]
    exact ⟨rfl, rfl⟩
  rw [decFilterFlags]
  simp only
  split
  · exact ⟨ht.2.1, Or.inl ⟨ht, Or.inl rfl⟩⟩
  · split
    · exact ⟨ht.2.1, Or.inl ⟨ht, Or.inr rfl⟩⟩
    · split
      · exact ⟨ht.2.1, Or.inl ⟨ht, Or.inr rfl⟩⟩
      · split
        · exact ⟨ht.2.1, Or.inl ⟨ht, Or.inl rfl⟩⟩
        · split
          · exact ⟨ht.2.1, Or.inr ⟨_, (hreset _).1, Or.inl (hreset _).2⟩⟩
          · rename_i hret
            split
            · exact ⟨ht.2.1, Or.inr ⟨_, (hreset _).1, Or.inr rfl⟩⟩
            · exact ⟨ht.2.1, Or.inr ⟨_, (hreset _).1, Or.inl
                ((not_not.mp hret).symm.trans (hreset _).2)⟩⟩

theorem decBlockHeader_restarted (s : XzDec σ) : Restarted lzma2 s (decBlockHeader lzma2 s) := by
  rw [decBlockHeader]
  simp only
  split
  · exact ⟨rfl, Or.inl ⟨⟨rfl, rfl, rfl⟩, Or.inl rfl⟩⟩
  · split
    · exact ⟨rfl, Or.inl ⟨⟨rfl, rfl, rfl⟩, Or.inr rfl⟩⟩
    · split
      · exact ⟨rfl, Or.inl ⟨⟨rfl, rfl, rfl⟩, Or.inl rfl⟩⟩
      · rename_i compressed s1 h1
        have hs1 := decBlockSize_alike h1
        split
        · exact ⟨hs1.2.1, Or.inl ⟨hs1, Or.inl rfl⟩⟩
        · rename_i uncompressed s2 h2
          have hs2 := decBlockSize_alike h2
          exact decFilterFlags_restarted lzma2 (hs1.trans hs2)

/-- A block leaves the LZMA2 decoder as its run does, and reports its code or
bad data. -/
theorem decBlock_ran (s : XzDec σ) (b : XzBuf) :
    (decBlock lzma2 s b).2.1.lzma2 = (lzma2.run s.lzma2 b).2.1
      ∧ (decBlock lzma2 s b).2.2 = (lzma2.run s.lzma2 b).2.2
      ∧ (decBlock lzma2 s b).2.1.mode = s.mode ∧ (decBlock lzma2 s b).2.1.sequence = s.sequence
      ∧ ((decBlock lzma2 s b).1 = (lzma2.run s.lzma2 b).1 ∨ (decBlock lzma2 s b).1 = .dataError) := by
  rw [decBlock]
  simp only
  split
  · exact ⟨rfl, rfl, rfl, rfl, Or.inr rfl⟩
  · split
    · split
      · exact ⟨rfl, rfl, rfl, rfl, Or.inr rfl⟩
      · split
        · exact ⟨rfl, rfl, rfl, rfl, Or.inr rfl⟩
        · exact ⟨rfl, rfl, rfl, rfl, Or.inl rfl⟩
    · exact ⟨rfl, rfl, rfl, rfl, Or.inl rfl⟩

end Frame

/-! ## A case of the machine -/

/-- The call that a block makes stays in its buffers. -/
theorem lzma2Step_ok (h : d.Ok b) (hb : b.Valid) :
    ∃ ret d' b', lzma2Step (.ok d) b = (ret, .ok d', b') ∧ d.Base d' ∧ b.Advances b'
      ∧ (ret.live = true → d'.Ok b') := by
  obtain ⟨ret, d', b', hrun, hbase, hadv, hok, hret⟩ := lzma2Run_total h hb
  refine ⟨ret, d', b', ?_, hbase, hadv, fun hlive => hok ?_⟩
  · rw [lzma2Step, lzma2Call]
    simp only [ok_bind, hrun, if_pos hadv]
  · rcases hret with rfl | rfl | rfl
    · exact Or.inl rfl
    · exact Or.inr rfl
    · cases hlive

/-- What a case leaves behind. -/
def SoundPost (mode : XzMode) : XzFlow (Run XzDecLzma2) → Prop :=
  Flow.Post (fun c => c.1.Sound mode c.2)
    fun r => (∃ d, r.2.1.Has mode d) ∧ (r.1.live = true → r.2.1.Sound mode r.2.2)

/-- A return from a case that no block follows. -/
theorem soundPost_exit (h : s.Has mode d) {q : XzSequence} (hq : s.sequence = q)
    (hnot : q ≠ .blockUncompress) (hhead : q ≠ .blockHeader) (ret : XzCode) (b : XzBuf) :
    SoundPost mode (.exit (ret, s, b)) :=
  ⟨⟨d, h⟩, fun _ => h.sound hq hnot hhead b⟩

theorem soundPost_goOn (h : s.Has mode d) {q : XzSequence} (hq : s.sequence = q)
    (hnot : q ≠ .blockUncompress) (hhead : q ≠ .blockHeader) {go ret : XzCode} (q' : XzSequence)
    (hnot' : q' ≠ .blockUncompress) (hhead' : q' ≠ .blockHeader) (b : XzBuf) :
    SoundPost mode (.goOn go ret s b q') := by
  rw [XzFlow.goOn]
  split
  · exact (h.keep (t := { s with sequence := q' }) rfl rfl).sound rfl hnot' hhead' b
  · exact soundPost_exit h hq hnot hhead ret b

/-- The header of a block sets the LZMA2 decoder up, for any input. -/
theorem lzma2Restart_ok {props : UInt8} (h : d.temp.buf.length = 3 * lzmaInRequired)
    (hret : (lzma2Restart (.ok d) props).1 = .ok) (b : XzBuf) :
    (xzDecLzma2Reset d props).2.Ok b :=
  lzma2Reset_ok h (Prod.ext hret rfl) b

theorem lzma2Restart_live (d : XzDecLzma2) (props : UInt8) :
    (lzma2Restart (.ok d) props).1 ≠ .ok → (lzma2Restart (.ok d) props).1.live = false := by
  simp only [lzma2Restart, xzDecLzma2Reset]
  split
  · exact fun _ => rfl
  · split
    · exact fun _ => rfl
    · exact fun hne => absurd rfl hne

/-- The size of a block header, from its first byte. -/
theorem headerSize_pos (byte : UInt8) : 0 < ((byte.toUInt32 + 1) * 4).toNat := by
  have hlt := byte.toNat_lt
  simp only [UInt32.toNat_mul, UInt32.toNat_add, UInt8.toNat_toUInt32,
    show (1 : UInt32).toNat = 1 from rfl, show (4 : UInt32).toNat = 4 from rfl]
  omega

theorem blockHeader_sound (dictMax : Nat) (h : s.Has mode d) (hpos : s.temp.pos < s.temp.size)
    (hseq : s.sequence = .blockHeader) :
    SoundPost mode (decMainRound (xzLzma2 mode dictMax) (s, b)) := by
  have halike := fillTemp_alike s b
  rw [decMainRound, hseq]
  simp only
  split
  · rename_i s1 b1 heq
    rw [heq] at halike
    have hq : s1.sequence = .blockHeader := halike.2.2.trans hseq
    have hhas := h.keep halike.1 halike.2.1
    exact ⟨⟨d, hhas⟩, fun _ => ⟨⟨d, hhas, fun hc => by rw [hq] at hc; cases hc⟩,
      fun _ => fillTemp_more hpos heq⟩⟩
  · rename_i s1 b1 heq
    rw [heq] at halike
    have hhas := h.keep halike.1 halike.2.1
    obtain ⟨hmode, hcase⟩ := decBlockHeader_restarted (xzLzma2 mode dictMax) s1
    obtain ⟨ret, s2, hs2⟩ : ∃ ret s2, decBlockHeader (xzLzma2 mode dictMax) s1 = (ret, s2) :=
      ⟨_, _, rfl⟩
    rw [hs2] at hmode hcase ⊢
    have hsame := hmode.trans hhas.sameMode
    rcases hcase with ⟨hkeep, hret⟩ | ⟨props, hdec, hret⟩
    · -- an error before the reset
      have hne : ret ≠ .ok ∧ ret.live = false := by
        rcases hret with rfl | rfl <;> exact ⟨by decide, rfl⟩
      simp only [XzFlow.goOn, if_neg hne.1]
      refine ⟨⟨d, hhas.keep hkeep.1 hkeep.2.1⟩, fun hlive => ?_⟩
      rw [hne.2] at hlive
      cases hlive
    · have hbase := lzma2Reset_base d props
      rw [hhas.decoder] at hdec hret
      have hhas2 : s2.Has mode (xzDecLzma2Reset d props).2 :=
        ⟨hdec, hbase.tempBuf.trans h.tempBuf, hbase.mode.trans h.dictMode, hsame⟩
      simp only [XzFlow.goOn]
      split
      · rename_i hok
        have hreset : (lzma2Restart (.ok d) props).1 = .ok := by
          rcases hret with hret | hret
          · exact hret.symm.trans hok
          · rw [hok] at hret
            cases hret
        exact ⟨⟨_, ⟨hhas2.decoder, hhas2.tempBuf, hhas2.dictMode, hhas2.sameMode⟩,
          fun _ => lzma2Restart_ok h.tempBuf hreset b1⟩, fun hc => by cases hc⟩
      · rename_i hne
        have hdead : ret.live = false := by
          rcases hret with rfl | rfl
          · exact lzma2Restart_live d props hne
          · rfl
        refine ⟨⟨_, hhas2⟩, fun hlive => ?_⟩
        rw [hdead] at hlive
        cases hlive

theorem blockUncompress_sound (dictMax : Nat) (h : s.Has mode d) (hok : d.Ok b) (hb : b.Valid)
    (hseq : s.sequence = .blockUncompress) :
    SoundPost mode (decMainRound (xzLzma2 mode dictMax) (s, b)) := by
  obtain ⟨code, d', b', hstep, hbase, -, hok'⟩ := lzma2Step_ok hok hb
  have hrun : (xzLzma2 mode dictMax).run s.lzma2 b = (code, .ok d', b') := by
    rw [h.decoder]
    exact hstep
  obtain ⟨hdec, hbuf, hmode, hq, hret⟩ := decBlock_ran (xzLzma2 mode dictMax) s b
  obtain ⟨ret, s1, b1, hblock⟩ : ∃ ret s1 b1,
      decBlock (xzLzma2 mode dictMax) s b = (ret, s1, b1) := ⟨_, _, _, rfl⟩
  rw [hblock, hrun] at hdec hbuf hret
  rw [hblock] at hmode hq
  simp only at hret
  have hhas : s1.Has mode d' :=
    ⟨hdec, hbase.tempBuf.trans h.tempBuf, hbase.mode.trans h.dictMode, hmode.trans h.sameMode⟩
  rw [decMainRound, hseq]
  simp only [hblock, XzFlow.goOn]
  split
  · exact (hhas.keep (t := { s1 with sequence := .blockPadding }) rfl rfl).sound
      (q := .blockPadding) rfl (by decide) (by decide) b1
  · refine ⟨⟨d', hhas⟩, fun hlive => ⟨⟨d', hhas, fun _ => ?_⟩, fun hc => ?_⟩⟩
    · have hcode : code.live = true := by
        rcases hret with hret | hret
        · exact hret ▸ hlive
        · rw [show ret = .dataError from hret] at hlive
          cases hlive
      have hb1 : b1 = b' := hbuf
      rw [hb1]
      exact hok' hcode
    · rw [show s1.sequence = .blockUncompress from hq.trans hseq] at hc
      cases hc

/-- A case keeps the LZMA2 decoder, set up where the next one runs it. -/
theorem decMainRound_sound (dictMax : Nat) (h : s.Sound mode b) (hb : b.Valid) :
    SoundPost mode (decMainRound (xzLzma2 mode dictMax) (s, b)) := by
  obtain ⟨⟨d, hhas, hok⟩, hheader⟩ := h
  have hkeep : ∀ {t : XzDec (Run XzDecLzma2)}, s.Alike t → t.Has mode d :=
    fun ht => hhas.keep ht.1 ht.2.1
  have hfill := fillTemp_alike s b
  cases hseq : s.sequence with
  | streamHeader =>
      rw [decMainRound, hseq]
      simp only
      split
      · rename_i s1 b1 heq
        rw [heq] at hfill
        exact soundPost_exit (hkeep hfill) (hfill.2.2.trans hseq) (by decide) (by decide) _ _
      · rename_i s1 b1 heq
        rw [heq] at hfill
        have hhead := decStreamHeader_alike { s1 with sequence := XzSequence.blockStart }
        exact soundPost_goOn (q := .blockStart) ((hkeep hfill).keep hhead.1 hhead.2.1) hhead.2.2
          (by decide) (by decide) .blockStart (by decide) (by decide) b1
  | blockStart =>
      rw [decMainRound, hseq]
      simp only
      split
      · exact soundPost_exit hhas hseq (by decide) (by decide) _ _
      · split
        · exact (hhas.keep (t := { s with inStart := b.inPos, sequence := .index }) rfl rfl).sound
            (q := .index) rfl (by decide) (by decide) _
        · refine ⟨⟨d, hhas.keep rfl rfl, fun hc => by cases hc⟩, fun _ => ?_⟩
          exact headerSize_pos _
  | blockHeader => exact blockHeader_sound dictMax hhas (hheader hseq) hseq
  | blockUncompress => exact blockUncompress_sound dictMax hhas (hok hseq) hb hseq
  | blockPadding =>
      have hpad := blockPaddingFrom_alike 4 s b
      rw [decMainRound, hseq]
      simp only
      split
      · rename_i ret s1 b1 heq
        rw [heq] at hpad
        exact soundPost_exit (hkeep hpad) (hpad.2.2.trans hseq) (by decide) (by decide) _ _
      · rename_i s1 b1 heq
        rw [heq] at hpad
        exact ((hkeep hpad).keep (t := { s1 with sequence := .blockCheck }) rfl rfl).sound
          (q := .blockCheck) rfl (by decide) (by decide) _
  | blockCheck =>
      have hcrc := crc32ValidateFrom_alike 4 s b
      rw [decMainRound, hseq]
      simp only
      split
      · exact soundPost_goOn (hkeep hcrc) (hcrc.2.2.trans hseq) (by decide) (by decide) .blockStart
          (by decide) (by decide) _
      · exact (hhas.keep (t := { s with sequence := .blockStart }) rfl rfl).sound
          (q := .blockStart) rfl (by decide) (by decide) _
  | index =>
      have hindex := decIndexFrom_alike (b.input.length - b.inPos + 1) s b
      rw [decMainRound, hseq]
      exact soundPost_goOn (hkeep hindex) (hindex.2.2.trans hseq) (by decide) (by decide)
        .indexPadding (by decide) (by decide) _
  | indexPadding =>
      have hpad := indexPaddingFrom_alike 4 s b
      rw [decMainRound, hseq]
      simp only
      split
      · rename_i ret s1 b1 heq
        rw [heq] at hpad
        exact soundPost_exit (hkeep hpad) (hpad.2.2.trans hseq) (by decide) (by decide) _ _
      · rename_i s1 b1 heq
        rw [heq] at hpad
        have hhas1 := (hkeep hpad).keep (t := indexUpdate s1 b1) rfl rfl
        split
        · exact soundPost_exit hhas1 (hpad.2.2.trans hseq) (by decide) (by decide) _ _
        · exact (hhas1.keep (t := { indexUpdate s1 b1 with sequence := .indexCrc32 }) rfl rfl).sound
            (q := .indexCrc32) rfl (by decide) (by decide) _
  | indexCrc32 =>
      have hcrc := crc32ValidateFrom_alike 4 s b
      rw [decMainRound, hseq]
      simp only
      split
      · obtain ⟨hdec, hbuf, hmode, hsame⟩ := hkeep hcrc
        exact ⟨⟨d, ⟨hdec, hbuf, hmode, hsame⟩, fun hc => by cases hc⟩, fun hc => by cases hc⟩
      · exact soundPost_exit (hkeep hcrc) (hcrc.2.2.trans hseq) (by decide) (by decide) _ _
  | streamFooter =>
      rw [decMainRound, hseq]
      simp only
      split
      · rename_i s1 b1 heq
        rw [heq] at hfill
        exact soundPost_exit (hkeep hfill) (hfill.2.2.trans hseq) (by decide) (by decide) _ _
      · rename_i s1 b1 heq
        rw [heq] at hfill
        exact soundPost_exit (hkeep hfill) (hfill.2.2.trans hseq) (by decide) (by decide) _ _

/-- A case that goes on has moved a position or the state forward. -/
theorem decMainRound_moves (dictMax : Nat) (h : s.Sound mode b) (hb : b.Valid) :
    (decMainRound (xzLzma2 mode dictMax) (s, b)).Post
      (fun c => b.Advances c.2 ∧ c.2.Valid ∧ decMainMeasure c < decMainMeasure (s, b))
      fun r => b.Advances r.2.2 := by
  by_cases hseq : s.sequence = .blockHeader
  · have hfill := fillTemp_advances s b
    rw [decMainRound, hseq]
    simp only
    split
    · rename_i s1 b1 heq
      rw [heq] at hfill
      exact hfill
    · rename_i s1 b1 heq
      rw [heq] at hfill
      have htook := fillTemp_took (h.header hseq) heq
      rw [XzFlow.goOn]
      split
      · refine ⟨hfill, hfill.valid hb, ?_⟩
        have hinside := (hfill.valid hb).inside
        have hrank := XzSequence.rank_le .blockUncompress
        simp only [decMainMeasure]
        simp only at hinside hfill
        rw [hfill.input] at hinside ⊢
        omega
      · exact hfill
  · exact (decMainRound_post (xzLzma2 mode dictMax) hb fun hc => absurd hc hseq).imp
      (fun c hc => ⟨hc.1, hc.2.1, hc.2.2.2⟩) fun r hr => hr

/-! ## Whole calls -/

/-- What a call ends with: the decoder is there, and sound while a caller may
go on. -/
def CallPost (mode : XzMode) (b : XzBuf) (r : XzCode × XzDec (Run XzDecLzma2) × XzBuf) : Prop :=
  b.Advances r.2.2 ∧ (∃ d, r.2.1.Has mode d) ∧ (r.1.live = true → r.2.1.Sound mode r.2.2)

theorem decMain_sound (dictMax : Nat) (h : s.Sound mode b) (hb : b.Valid) :
    ∃ r, decMain (xzLzma2 mode dictMax) s b = .ok r ∧ CallPost mode b r := by
  have hround : ∀ c : XzDec (Run XzDecLzma2) × XzBuf,
      c.1.Sound mode c.2 ∧ c.2.Valid ∧ b.Advances c.2 →
      ∃ f, (.ok (decMainRound (xzLzma2 mode dictMax) c) : Run _) = .ok f
        ∧ f.Post (fun c' => (c'.1.Sound mode c'.2 ∧ c'.2.Valid ∧ b.Advances c'.2)
            ∧ decMainMeasure c' < decMainMeasure c) (CallPost mode b) := by
    rintro ⟨s1, b1⟩ ⟨hsound, hvalid, hadv⟩
    refine ⟨_, rfl, ?_⟩
    have hpost := decMainRound_sound dictMax hsound hvalid
    have hmoves := decMainRound_moves dictMax hsound hvalid
    cases hround : decMainRound (xzLzma2 mode dictMax) (s1, b1) with
    | next c =>
        rw [hround] at hpost hmoves
        exact ⟨⟨hpost, hmoves.2.1, hadv.trans hmoves.1⟩, hmoves.2.2⟩
    | exit r =>
        rw [hround] at hpost hmoves
        exact ⟨hadv.trans hmoves, hpost⟩
  have hrank := XzSequence.rank_le s.sequence
  have hstart : XzDec.Sound { s with inStart := b.inPos } mode b := by
    obtain ⟨⟨d, hhas, hok⟩, hheader⟩ := h
    exact ⟨⟨d, hhas.keep rfl rfl, hok⟩, hheader⟩
  exact loopFuel_total hround (k := decMainFuel b) (s := ({ s with inStart := b.inPos }, b))
    ⟨hstart, hb, .refl b⟩ (by rw [decMainMeasure, decMainFuel]; simp only; omega)

theorem XzDec.Has.reset_sound (h : s.Has mode d) (b : XzBuf) : s.reset.Sound mode b :=
  (h.keep (t := s.reset) rfl rfl).sound (q := .streamHeader) rfl (by decide) (by decide) b

/-- `xz_dec_run` in single-call mode starts over, whatever was before. -/
theorem xzDecRun_single_sound (dictMax : Nat) (h : s.Has .single d) (hb : b.Valid) :
    ∃ ret s' b' d', xzDecRun (xzLzma2 .single dictMax) s b = .ok (ret, s', b')
      ∧ b.Advances b' ∧ s'.Has .single d' := by
  obtain ⟨⟨ret, s', b'⟩, hrun, hadv, ⟨d', hd'⟩, -⟩ :=
    decMain_sound dictMax (h.reset_sound b) hb
  by_cases hend : ret = .streamEnd
  · subst hend
    exact ⟨_, s', b', d', xzDecRun_ends _ h.sameMode hrun, hadv, hd'⟩
  · obtain ⟨ret', -, hcall⟩ := xzDecRun_fails _ h.sameMode hrun hadv hend
    exact ⟨ret', s', b, d', hcall, .refl b, hd'⟩

/-- In multi-call mode it goes on where it was. -/
theorem xzDecRun_prealloc_sound (dictMax : Nat) (h : s.Sound .prealloc b) (hmode : s.mode = .prealloc)
    (hb : b.Valid) :
    ∃ r, xzDecRun (xzLzma2 .prealloc dictMax) s b = .ok r ∧ CallPost .prealloc b r := by
  obtain ⟨⟨ret, s', b'⟩, hrun, hadv, ⟨d', hd'⟩, hlive⟩ := decMain_sound dictMax h hb
  have hkeep : ∀ allow, ret.live = true →
      XzDec.Sound { s' with allowBufError := allow } .prealloc b' := by
    intro allow hr
    obtain ⟨⟨d, hhas, hok⟩, hheader⟩ := hlive hr
    exact ⟨⟨d, hhas.keep rfl rfl, hok⟩, hheader⟩
  rw [xzDecRun, hmode]
  simp only [hrun, ok_bind]
  split
  · rename_i hstill
    refine ⟨_, rfl, hadv, ⟨d', hd'.keep rfl rfl⟩, fun _ => hkeep true ?_⟩
    rw [hstill.1]
    rfl
  · exact ⟨_, rfl, hadv, ⟨d', hd'.keep rfl rfl⟩, hkeep false⟩

/-- The invariant of the decoders that calls lead to. -/
theorem XzReach.sound {dictMax : Nat} {live : Bool} (h : XzReach mode dictMax live s) :
    (∃ d, s.Has mode d) ∧ (live = true → mode = .prealloc → ∀ b, s.Sound mode b) := by
  induction h with
  | init =>
      have hinit : XzDec.Has (xzDecInit (xzLzma2 mode dictMax) mode) mode
          (xzDecLzma2Create mode dictMax) := ⟨rfl, List.length_replicate, rfl, rfl⟩
      exact ⟨⟨_, hinit⟩, fun _ _ => hinit.reset_sound⟩
  | reset _ ih =>
      obtain ⟨⟨d, hd⟩, -⟩ := ih
      exact ⟨⟨d, hd.keep rfl rfl⟩, fun _ _ => hd.reset_sound⟩
  | @run s s' b b' ret _ hb hrun ih =>
      obtain ⟨⟨d, hd⟩, hsound⟩ := ih
      cases mode with
      | single =>
          obtain ⟨ret', s1, b1, d', hrun', -, hd'⟩ := xzDecRun_single_sound dictMax hd hb
          cases hrun.symm.trans hrun'
          exact ⟨⟨d', hd'⟩, fun _ hc => by cases hc⟩
      | prealloc =>
          obtain ⟨r, hrun', -, hd', hlive⟩ :=
            xzDecRun_prealloc_sound dictMax (hsound rfl rfl b) hd.sameMode hb
          cases hrun.symm.trans hrun'
          exact ⟨hd', fun hgoes _ b'' => (hlive hgoes).other b''⟩

end Ccr2004
