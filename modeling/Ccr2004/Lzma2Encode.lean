import Ccr2004.Lzma2Session
import Ccr2004.LzmaPath

/-!
# An encoder for LZMA2

The decoder is to invert every encoder, so this one is given its packets and
its chunks and decides nothing. `lzmaWrite` turns packets into the bytes of a
chunk by way of `BitModel.encode`, `lzma2Write` adds the headers;
`lzma2Write_coded` says that what it writes means what it was given, and
`lzma2Write_decodes` that the decoder of the source gives it back.
-/

namespace Ccr2004

/-! ## Packets -/

/-- What packets say after the history `h`, when every distance in them is
valid. -/
def lzmaSay (size : Nat) : List LzmaPacket → LzmaHistory → Option LzmaHistory
  | [], h => some h
  | p :: ps, h => (h.accept size (p.symbol h.dec)).bind (lzmaSay size ps)

/-- The offset in the range `r` and the bytes behind it that packets are
encoded to. -/
def lzmaWrite (size : Nat) : List LzmaPacket → LzmaHistory → Probs → Nat → Nat × List UInt8
  | [], _, _, r => BitModel.finish rcTop r
  | p :: ps, h, probs, r =>
      lzmaModel.encode rcTop h.symbol p.bits probs r fun x probs r =>
        match h.accept size x with
        | some h => lzmaWrite size ps h probs r
        | none => (0, [])

/-- The probabilities after the packets. -/
def lzmaLearn (size : Nat) : List LzmaPacket → LzmaHistory → Probs → Nat → Probs
  | [], _, probs, _ => probs
  | p :: ps, h, probs, r =>
      let after := lzmaModel.along rcTop h.symbol p.bits probs r
      match h.accept size (p.symbol h.dec) with
      | some h => lzmaLearn size ps h after.1 after.2
      | none => probs

section Packets

variable {size : Nat} {h goal : LzmaHistory} {probs : Probs}

/-- What is encoded says what the packets say. -/
theorem lzmaWrite_coded {ps : List LzmaPacket} {r : Nat} (hok : h.Ok)
    (hsay : lzmaSay size ps h = some goal) (hprobs : probs.Good) (hr : rcTop ≤ 256 * r) :
    (lzmaWrite size ps h probs r).1 < r
      ∧ LzmaCoded size h ⟨probs, r, (lzmaWrite size ps h probs r).1,
        (lzmaWrite size ps h probs r).2⟩ goal (lzmaLearn size ps h probs r)
      ∧ (lzmaLearn size ps h probs r).Good := by
  induction ps generalizing h probs r with
  | nil =>
      cases hsay
      have hend := @BitModel.normalize_emit _ rcTop r probs (0, []) []
      rw [List.append_nil] at hend
      refine ⟨BitModel.finish_lt (by rw [rcTop] at hr; omega), .done hend rfl rfl, hprobs⟩
  | cons p ps ih =>
      obtain ⟨h', hacc, hsay'⟩ := Option.bind_eq_some_iff.mp hsay
      have hwithin := LzmaHistory.within_symbol hok.dec
      have hpath := follow_symbol hok p []
      rw [List.append_nil] at hpath
      obtain ⟨probs', r', hend⟩ : ∃ probs' r',
          lzmaModel.along rcTop h.symbol p.bits probs r = (probs', r') := ⟨_, _, rfl⟩
      obtain ⟨hgood', hr'⟩ : (lzmaModel.along rcTop h.symbol p.bits probs r).1.Good
          ∧ rcTop ≤ 256 * (lzmaModel.along rcTop h.symbol p.bits probs r).2 :=
        BitModel.along_good lzmaModel_lawful hwithin hprobs hr
      rw [hend] at hgood' hr'
      obtain ⟨hok', -⟩ := LzmaHistory.accept_ok hok (hwithin.follow_post hpath) hacc
      obtain ⟨hlt, hcoded, hlearn⟩ := ih hok' hsay' hgood' hr'
      obtain ⟨hlt', hrun⟩ := BitModel.run_encode lzmaModel_lawful hwithin hpath hprobs hr hend
        (k := fun x probs r => match h.accept size x with
          | some h => lzmaWrite size ps h probs r
          | none => (0, [])) (by simp only [hacc]; exact hlt)
      have hstep := hrun []
      simp only [hacc, List.append_nil] at hstep
      have hlearnEq : lzmaLearn size (p :: ps) h probs r = lzmaLearn size ps h' probs' r' := by
        simp only [lzmaLearn, hend, hacc]
      rw [hlearnEq]
      exact ⟨hlt', .symbol hstep hacc hcoded, hlearn⟩

end Packets

/-! ## Chunks -/

/-- What an LZMA chunk resets. -/
inductive Lzma2Reset where
  | keep
  | state
  | props (p : LzmaProps)
  | dict (p : LzmaProps)
deriving Repr, DecidableEq

namespace Lzma2Reset

/-- The control byte without the bits of the size. -/
def control : Lzma2Reset → Nat
  | .keep => 0x80
  | .state => 0xA0
  | .props _ => 0xC0
  | .dict _ => 0xE0

/-- The bytes of the header for the LZMA decoder, and the decoder it gets. -/
def setup : Lzma2Reset → Option (LzmaDec × Probs) → Option (List UInt8 × LzmaDec × Probs)
  | .keep, l => l.map fun l => ([], l.1, l.2)
  | .state, l => l.map fun l => ([], l.1.restart, freshProbs)
  | .props p, _ => some ([p.byte], p.dec, freshProbs)
  | .dict p, _ => some ([p.byte], p.dec, freshProbs)

end Lzma2Reset

inductive Lzma2Chunk where
  | stored (reset : Bool) (data : List UInt8)
  | lzma (reset : Lzma2Reset) (packets : List LzmaPacket)
deriving Repr, DecidableEq

/-- A number in two bytes. -/
def be16Bytes (n : Nat) : List UInt8 := [UInt8.ofNat (n / 256), UInt8.ofNat n]

/-- The five bytes that `rc_read_init` reads. -/
def rcInit (code : Nat) : List UInt8 :=
  0 :: (be16Bytes (code / 2 ^ 16) ++ be16Bytes code)

/-- The bytes of a chunk, what it says, and the state after it. -/
def Lzma2Chunk.write (size : Nat) (w : Lzma2State) :
    Lzma2Chunk → Option (List UInt8 × List UInt8 × Lzma2State)
  | .stored reset data => do
      let control := if reset then 0x01 else 0x02
      let w ← w.start control
      if 0 < data.length ∧ data.length ≤ 2 ^ 16 then
        some (control :: (be16Bytes (data.length - 1) ++ data), data,
          { w with past := data.reverse ++ w.past })
      else none
  | .lzma reset packets => do
      let w ← w.start (UInt8.ofNat reset.control)
      let (setup, dec, probs) ← reset.setup w.lzma
      let goal ← lzmaSay size packets ⟨w.past, dec⟩
      let out := (goal.past.take (goal.past.length - w.past.length)).reverse
      let (code, body) := lzmaWrite size packets ⟨w.past, dec⟩ probs 0xFFFFFFFF
      if 0 < out.length ∧ out.length ≤ 2 ^ 21 ∧ 5 + body.length ≤ 2 ^ 16 then
        some (UInt8.ofNat (reset.control + (out.length - 1) / 2 ^ 16)
            :: (be16Bytes (out.length - 1) ++ (be16Bytes (5 + body.length - 1)
              ++ (setup ++ (rcInit code ++ body)))), out,
          { w with
            past := goal.past
            lzma := some (goal.dec, lzmaLearn size packets ⟨w.past, dec⟩ probs 0xFFFFFFFF) })
      else none

/-- A stream: its chunks, and the end marker. -/
def lzma2Write (size : Nat) : List Lzma2Chunk → Lzma2State → Option (List UInt8 × List UInt8)
  | [], _ => some ([0x00], [])
  | c :: cs, w => do
      let (bytes, text, w) ← c.write size w
      let (bytes', text') ← lzma2Write size cs w
      some (bytes ++ bytes', text ++ text')

/-- The LZMA decoder between two chunks is in order. -/
def Lzma2State.Ok (w : Lzma2State) : Prop :=
  ∀ dec probs, w.lzma = some (dec, probs) → LzmaHistory.Ok ⟨w.past, dec⟩ ∧ probs.Good

section Chunks

variable {size : Nat} {w w' : Lzma2State} {bytes text : List UInt8}

theorem be16_bytes (n : Nat) : be16 (UInt8.ofNat (n / 256)) (UInt8.ofNat n) = n % 2 ^ 16 := by
  rw [be16, UInt8.toNat_ofNat', UInt8.toNat_ofNat']
  omega

theorem rcCode_init {code : Nat} (h : code < 2 ^ 32) : rcCode (rcInit code) = code := by
  simp only [rcInit, be16Bytes, List.cons_append, List.nil_append, rcCode, UInt8.toNat_ofNat']
  omega

theorem freshProbs_good : freshProbs.Good := fun _ _ =>
  (by decide : 31 ≤ (1024 : UInt16).toNat ∧ (1024 : UInt16).toNat ≤ 2017)

theorem LzmaProps.dec_ok (p : LzmaProps) (past : List UInt8) : LzmaHistory.Ok ⟨past, p.dec⟩ := by
  have hpow := Nat.pow_le_pow_right (n := 2) (by decide) p.pos
  refine ⟨⟨⟨p.lp, rfl, p.literal⟩, ?_, Nat.zero_le _, Nat.two_pow_pos 32, Nat.two_pow_pos 32,
    Nat.two_pow_pos 32, Nat.two_pow_pos 32⟩, fun hlit => by cases hlit⟩
  simp only [LzmaProps.dec]
  omega

theorem Lzma2State.Ok.start (hok : w.Ok) {control : UInt8} (h : w.start control = some w') :
    w'.Ok := by
  rw [Lzma2State.start] at h
  split at h
  · cases h
    exact fun _ _ hl => by cases hl
  · split at h
    · cases h
    · cases h
      exact hok

/-- The bits of the size do not change what a control byte resets. -/
theorem Lzma2Reset.control_byte (reset : Lzma2Reset) {n : Nat} (hn : n < 32) :
    (UInt8.ofNat (reset.control + n)).toNat = reset.control + n
      ∧ (UInt8.ofNat (reset.control + n) &&& 0x1F).toNat = n := by
  have hlt : reset.control + n < 2 ^ 8 := by
    cases reset <;> simp only [Lzma2Reset.control] <;> omega
  have hnum : (UInt8.ofNat (reset.control + n)).toNat = reset.control + n := by
    rw [UInt8.toNat_ofNat', Nat.mod_eq_of_lt hlt]
  refine ⟨hnum, ?_⟩
  rw [UInt8.toNat_and, hnum, show (0x1F : UInt8).toNat = 2 ^ 5 - 1 from rfl,
    Nat.and_two_pow_sub_one_eq_mod]
  cases reset <;> simp only [Lzma2Reset.control] <;> omega

theorem Lzma2Reset.start (reset : Lzma2Reset) {n : Nat} (hn : n < 32) (w : Lzma2State) :
    w.start (UInt8.ofNat (reset.control + n)) = w.start (UInt8.ofNat reset.control) := by
  have hbyte := (reset.control_byte hn).1
  have hbase := (reset.control_byte (n := 0) (by decide)).1
  rw [Nat.add_zero] at hbase
  have hiff : (UInt8.ofNat (reset.control + n) ≥ 0xE0 ∨ UInt8.ofNat (reset.control + n) = 0x01)
      ↔ (UInt8.ofNat reset.control ≥ 0xE0 ∨ UInt8.ofNat reset.control = 0x01) := by
    simp only [ge_iff_le, UInt8.le_iff_toNat_le, ← UInt8.toNat_inj, hbyte, hbase]
    cases reset <;> simp only [Lzma2Reset.control] <;> simp <;> omega
  simp only [Lzma2State.start, hiff]

/-- The header of an LZMA chunk sets up what the encoder has used. -/
theorem Lzma2Reset.setup_ok {reset : Lzma2Reset} {l : Option (LzmaDec × Probs)}
    {setup : List UInt8} {dec : LzmaDec} {probs : Probs}
    (h : reset.setup l = some (setup, dec, probs)) {n : Nat} (hn : n < 32) :
    Lzma2Setup (UInt8.ofNat (reset.control + n)) l setup dec probs := by
  have hbyte := (reset.control_byte hn).1
  have hge : ∀ x : UInt8, x.toNat ≤ reset.control → x ≤ UInt8.ofNat (reset.control + n) :=
    fun x hx => UInt8.le_iff_toNat_le.mpr (by omega)
  have hlt : ∀ x : UInt8, reset.control + 32 ≤ x.toNat → UInt8.ofNat (reset.control + n) < x :=
    fun x hx => UInt8.lt_iff_toNat_lt.mpr (by omega)
  cases reset with
  | keep =>
      obtain ⟨⟨dec, probs⟩, rfl, heq⟩ := Option.map_eq_some_iff.mp h
      cases heq
      exact .keep (hge _ (Nat.le_refl _)) (hlt _ (Nat.le_refl _))
  | state =>
      obtain ⟨⟨dec, probs⟩, rfl, heq⟩ := Option.map_eq_some_iff.mp h
      cases heq
      exact .state (hge _ (Nat.le_refl _)) (hlt _ (Nat.le_refl _))
  | props p =>
      cases h
      exact .props p (hge _ (Nat.le_refl _))
  | dict p =>
      cases h
      exact .props p (hge _ (show 0xC0 ≤ 0xE0 by decide))

theorem Lzma2Reset.setup_good {reset : Lzma2Reset} {setup : List UInt8} {dec : LzmaDec}
    {probs : Probs} (h : reset.setup w.lzma = some (setup, dec, probs)) (hok : w.Ok) :
    LzmaHistory.Ok ⟨w.past, dec⟩ ∧ probs.Good := by
  cases reset with
  | keep =>
      obtain ⟨⟨dec, probs⟩, hl, heq⟩ := Option.map_eq_some_iff.mp h
      cases heq
      exact hok dec probs hl
  | state =>
      obtain ⟨⟨dec, probs⟩, hl, heq⟩ := Option.map_eq_some_iff.mp h
      cases heq
      have hdec := (hok dec probs hl).1.dec
      exact ⟨⟨⟨hdec.literal, hdec.posMask, Nat.zero_le _, Nat.two_pow_pos 32, Nat.two_pow_pos 32,
        Nat.two_pow_pos 32, Nat.two_pow_pos 32⟩, fun hlit => by cases hlit⟩, freshProbs_good⟩
  | props p =>
      cases h
      exact ⟨p.dec_ok _, freshProbs_good⟩
  | dict p =>
      cases h
      exact ⟨p.dec_ok _, freshProbs_good⟩

/-- A chunk says what it was given, before whatever comes behind it. -/
theorem Lzma2Chunk.write_coded {c : Lzma2Chunk} (hok : w.Ok)
    (h : c.write size w = some (bytes, text, w')) :
    w'.Ok ∧ ∀ bytes' text', Lzma2Coded size w' bytes' text' →
      Lzma2Coded size w (bytes ++ bytes') (text ++ text') := by
  cases c with
  | stored reset data =>
      obtain ⟨w1, hstart, h⟩ := Option.bind_eq_some_iff.mp h
      split at h
      · rename_i hlen
        cases h
        refine ⟨fun dec probs hl => ?_, fun bytes' text' hrest => ?_⟩
        · obtain ⟨⟨hdec, hrep⟩, hgood⟩ := hok.start hstart dec probs hl
          refine ⟨⟨hdec, fun hlit => ?_⟩, hgood⟩
          have hrep' := hrep hlit
          simp only [List.length_append] at hrep' ⊢
          omega
        · simp only [be16Bytes, List.cons_append, List.nil_append]
          refine .stored ?_ hstart ?_ hrest
          · cases reset
            · exact Or.inr rfl
            · exact Or.inl rfl
          · rw [be16_bytes]
            omega
      · cases h
  | lzma reset packets =>
      obtain ⟨w1, hstart, h⟩ := Option.bind_eq_some_iff.mp h
      obtain ⟨⟨setup, dec, probs⟩, hsetup, h⟩ := Option.bind_eq_some_iff.mp h
      obtain ⟨goal, hsay, h⟩ := Option.bind_eq_some_iff.mp h
      simp only at h hsay
      split at h
      · rename_i hlen
        cases h
        obtain ⟨hhistory, hprobs⟩ := reset.setup_good hsetup (hok.start hstart)
        obtain ⟨hcode, hcoded, hgood⟩ :=
          lzmaWrite_coded hhistory hsay hprobs (r := 0xFFFFFFFF) (by decide)
        obtain ⟨⟨z, hz⟩, hgoal, -⟩ := hcoded.grows hhistory
        obtain ⟨out, hout⟩ : ∃ out, out =
          (goal.past.take (goal.past.length - w1.past.length)).reverse := ⟨_, rfl⟩
        have hpast : goal.past = out.reverse ++ w1.past := by
          have hzlen : goal.past.length - w1.past.length = z.length := by
            rw [← hz, List.length_append]
            exact Nat.add_sub_cancel ..
          rw [hout, List.reverse_reverse, hzlen, ← hz, List.take_left]
        rw [← hout] at hlen ⊢
        generalize lzmaWrite size packets ⟨w1.past, dec⟩ probs 0xFFFFFFFF = x at hlen hcode hcoded ⊢
        obtain ⟨code, body⟩ := x
        simp only at hlen hcode hcoded ⊢
        have hn : (out.length - 1) / 2 ^ 16 < 32 := by omega
        refine ⟨fun dec' probs' hl => ?_, fun bytes' text' hrest => ?_⟩
        · cases hl
          exact ⟨hgoal, hgood⟩
        · have hcodeEq := rcCode_init (show code < 2 ^ 32 by omega)
          have hdata : LzmaCoded size ⟨w1.past, dec⟩ ⟨probs, 0xFFFFFFFF, rcCode (rcInit code), body⟩
              ⟨out.reverse ++ w1.past, goal.dec⟩
              (lzmaLearn size packets ⟨w1.past, dec⟩ probs 0xFFFFFFFF) := by
            rw [hcodeEq, ← hpast]
            exact hcoded
          simp only [be16Bytes, List.cons_append, List.nil_append, List.append_assoc]
          refine .lzma ((reset.start hn w).trans hstart) (reset.setup_ok hsetup hn) rfl
            (hcodeEq.symm ▸ hcode) ?_ hdata ?_ (hpast ▸ hrest)
          · rw [be16_bytes, show (rcInit code).length = 5 from rfl]
            omega
          · rw [(reset.control_byte hn).2, be16_bytes]
            omega
      · cases h

/-- A stream says what its chunks say. -/
theorem lzma2Write_coded {cs : List Lzma2Chunk} (hok : w.Ok)
    (h : lzma2Write size cs w = some (bytes, text)) : Lzma2Coded size w bytes text := by
  induction cs generalizing w bytes text with
  | nil =>
      cases h
      exact .done
  | cons c cs ih =>
      obtain ⟨⟨bytes1, text1, w1⟩, hwrite, h⟩ := Option.bind_eq_some_iff.mp h
      obtain ⟨⟨bytes2, text2⟩, hrest, h⟩ := Option.bind_eq_some_iff.mp h
      cases h
      obtain ⟨hok1, hcoded⟩ := Lzma2Chunk.write_coded hok hwrite
      exact hcoded _ _ (ih hok1 hrest)

theorem Lzma2State.first_ok : Lzma2State.first.Ok := fun _ _ hl => by cases hl

/-- The decoder inverts the encoder, whatever chunks and packets it was given. -/
theorem lzma2Write_decodes {s s' : XzDecLzma2} {b : XzBuf} {props : UInt8} {cs : List Lzma2Chunk}
    (hbuf : s.temp.buf.length = 3 * lzmaInRequired) (hreset : xzDecLzma2Reset s props = (.ok, s'))
    (hwrite : lzma2Write s'.lzma.dict.size cs .first = some (bytes, text)) (hb : b.Valid)
    (hinput : bytes <+: b.input.drop b.inPos) (hroom : b.out.length + text.length ≤ b.outSize) :
    ∃ s'', xzDecLzma2Run s' b = .ok (.streamEnd, s'', b.moved bytes.length text) :=
  lzma2Single_decodes hbuf hreset (lzma2Write_coded Lzma2State.first_ok hwrite) hb hinput hroom

theorem lzma2Write_decodes_stored : ∃ s',
    xzDecLzma2Run (xzDecLzma2Reset (xzDecLzma2Create .single 0) 0).2
        ⟨[0x01, 0x00, 0x00, 0x61, 0x00], 0, [], 1⟩
      = .ok (.streamEnd, s', ⟨[0x01, 0x00, 0x00, 0x61, 0x00], 5, [0x61], 1⟩) := by
  have hreset : xzDecLzma2Reset (xzDecLzma2Create .single 0) 0
      = (.ok, (xzDecLzma2Reset (xzDecLzma2Create .single 0) 0).2) := rfl
  have hwrite : lzma2Write 4096 [.stored true [0x61]] .first
      = some ([0x01, 0x00, 0x00, 0x61, 0x00], [0x61]) := rfl
  have hb : XzBuf.Valid ⟨[0x01, 0x00, 0x00, 0x61, 0x00], 0, [], 1⟩ := ⟨by decide, by decide⟩
  exact lzma2Write_decodes rfl hreset hwrite hb (List.prefix_refl _) (Nat.le_refl 1)

end Chunks

end Ccr2004
