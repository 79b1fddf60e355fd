import Ccr2004.Lzma2Safe

/-!
# The LZMA2 machine stays in its buffers

A round of `xz_dec_lzma2_run` keeps the invariants of the decoder
(`XzDecLzma2.Ok`) and either returns or moves one of the two positions
(`lzma2Round_total`); `lzma2Run_total` follows for the whole call, whatever
the input is. Every successful reset establishes the invariants, also after an
error (`lzma2Reset_ok`).
-/

namespace Ccr2004

/-! ## The invariants of the machine -/

/-- Where the fields of a chunk header lead. -/
def XzDecLzma2.target (s : XzDecLzma2) : Lzma2Sequence :=
  match s.sequence with
  | .uncompressed1 | .uncompressed2 | .compressed0 | .compressed1 => s.nextSequence
  | q => q

/-- The LZMA decoder is set up, whatever the history. -/
structure XzDecLzma2.LzmaSet (s : XzDecLzma2) : Prop where
  dec : s.lzma.dec.Ok
  rep0 : s.lzma.dec.state.isLiteral = false ∨ 0 < s.lzma.dec.len →
    s.lzma.dec.rep0 < s.lzma.dict.full ∧ s.lzma.dec.rep0 < s.lzma.dict.size
  probs : s.coder.probs.Good
  low : 31 * 2 ^ 13 ≤ s.coder.rc.range.toNat

/-- The invariants of `struct xz_dec_lzma2` between two rounds. Until the first
control byte nothing is said of the dictionary, and until properties were read
nothing of the LZMA decoder. -/
structure XzDecLzma2.Ok (s : XzDecLzma2) (b : XzBuf) : Prop where
  tempBuf : s.temp.buf.length = 3 * lzmaInRequired
  size_pos : 0 < s.lzma.dict.size
  ring : s.lzma.dict.mode = .prealloc → s.lzma.dict.bufEnd = s.lzma.dict.size
  fresh : s.needDictReset = true → s.sequence = .control
  dict : s.needDictReset = false → (∃ past, s.lzma.dict.Holds past) ∧ s.lzma.dict.Rests b
  lzma : s.needDictReset = false → s.needProps = false → s.target ≠ .properties → s.LzmaSet
  props : s.target = .properties ∨ s.target = .lzmaPrepare ∨ s.target = .lzmaRun →
    s.needProps = false
  next : s.target = .control ∨ s.target = .properties ∨ s.target = .lzmaPrepare
    ∨ s.target = .lzmaRun ∨ s.target = .copy
  run : s.nextSequence = .properties ∨ s.nextSequence = .lzmaPrepare ∨ s.nextSequence = .copy
    ∨ s.sequence = .control
  sized : s.sequence ≠ .control → s.sequence ≠ .uncompressed1 → s.sequence ≠ .uncompressed2 →
    s.target ≠ .copy → 0 < s.uncompressed
  copy : s.sequence = .copy → 0 < s.compressed
  empty : s.sequence ≠ .lzmaRun → s.temp.size = 0
  temp : s.sequence = .lzmaRun → s.temp.size ≤ s.compressed ∧ s.temp.size < lzmaInRequired

/-- Between two symbols after a reset no match is under way, so that nothing is
asked of the distance. -/
theorem XzDecLzma2.LzmaSet.fresh {s : XzDecLzma2} (hdec : s.lzma.dec.Ok)
    (hliteral : s.lzma.dec.state.isLiteral = true) (hlen : s.lzma.dec.len = 0)
    (hprobs : s.coder.probs.Good) (hlow : 31 * 2 ^ 13 ≤ s.coder.rc.range.toNat) : s.LzmaSet := by
  refine ⟨hdec, fun hor => ?_, hprobs, hlow⟩
  rw [hliteral, hlen] at hor
  rcases hor with hor | hor
  · cases hor
  · exact absurd hor (Nat.lt_irrefl 0)

/-- What outlives an error. -/
structure XzDecLzma2.Base (s s' : XzDecLzma2) : Prop where
  tempBuf : s'.temp.buf.length = s.temp.buf.length
  mode : s'.lzma.dict.mode = s.lzma.dict.mode
  sizeMax : s'.lzma.dict.sizeMax = s.lzma.dict.sizeMax

theorem XzDecLzma2.Base.refl (s : XzDecLzma2) : s.Base s := ⟨rfl, rfl, rfl⟩

theorem XzDecLzma2.Base.trans {s s' s'' : XzDecLzma2} (h : s.Base s') (h' : s'.Base s'') :
    s.Base s'' :=
  ⟨h'.tempBuf.trans h.tempBuf, h'.mode.trans h.mode, h'.sizeMax.trans h.sizeMax⟩

/-- How far the two buffers still go. -/
def XzBuf.ahead (b : XzBuf) : Nat := b.input.length - b.inPos + (b.outSize - b.out.length)

/-- What a round does from `s` and `b` on. -/
def Lzma2Post (s : XzDecLzma2) (b : XzBuf) : Lzma2Flow → Prop :=
  Flow.Post (fun x => x.1.Ok x.2 ∧ s.Base x.1 ∧ b.Advances x.2 ∧ x.2.ahead < b.ahead)
    fun r => s.Base r.2.1 ∧ b.Advances r.2.2
      ∧ (r.1 = .ok ∨ r.1 = .streamEnd → r.2.1.Ok r.2.2) ∧ (r.1 = .ok ∨ r.1 = .streamEnd
        ∨ r.1 = .dataError)

theorem Dictionary.Rests.moved {d : Dictionary} {b : XzBuf} (h : d.Rests b) (n : Nat) :
    d.Rests (b.moved n []) := by
  have hout : (b.moved n []).out = b.out := List.append_nil _
  exact ⟨h.start_eq, h.ring, fun hm => by rw [hout]; exact h.base hm,
    fun hm => by rw [hout]; exact h.out hm⟩

theorem Dictionary.Rests.setLimit {d : Dictionary} {b : XzBuf} (h : d.Rests b) (n : Nat) :
    (d.setLimit n).Rests b :=
  ⟨h.start_eq, h.ring, h.base, h.out⟩

/-- There is space up to a limit if there is in the output. -/
theorem Dictionary.Rests.room {d : Dictionary} {b : XzBuf} (h : d.Rests b)
    (hout : b.out.length < b.outSize) : d.pos < d.bufEnd := by
  cases hm : d.mode with
  | single =>
      have := h.base hm
      omega
  | prealloc => exact h.ring hm

theorem Dictionary.setLimit_bounds {d : Dictionary} {past : List UInt8} (h : d.Holds past)
    (n : Nat) : d.pos ≤ (d.setLimit n).limit ∧ (d.setLimit n).limit ≤ d.pos + n
      ∧ (d.pos < d.bufEnd → 0 < n → d.pos < (d.setLimit n).limit) := by
  have hpos := h.window.pos_le
  have hle := h.window.length_le
  simp only [Dictionary.setLimit]
  split <;> omega

/-- The result of decoding, written out. -/
theorem flush_ok {s s' : XzDecLzma2} {b b' : XzBuf} {past bytes : List UInt8} {n : Nat}
    (hholds : s.lzma.dict.Holds past) (hrests : s.lzma.dict.Rests b)
    (hstep : Lzma2Step { s with lzma := { s.lzma with dict := s.lzma.dict.setLimit n } } b s' b'
      bytes)
    (hready : Lzma2Ready s' b' (bytes.reverse ++ past)) :
    ∃ dict m, s'.lzma.dict.flush b' = (bytes.length, dict, b.moved m bytes)
      ∧ b.inPos + m ≤ b.input.length ∧ b'.inPos = b.inPos + m ∧ b'.input = b.input
      ∧ dict.Holds (bytes.reverse ++ past) ∧ dict.Rests (b.moved m bytes)
      ∧ dict.full = s'.lzma.dict.full ∧ dict.size = s.lzma.dict.size
      ∧ dict.mode = s.lzma.dict.mode ∧ dict.bufEnd = s.lzma.dict.bufEnd
      ∧ dict.sizeMax = s.lzma.dict.sizeMax ∧ s'.lzma.dict.size = s.lzma.dict.size
      ∧ s'.lzma.dict.mode = s.lzma.dict.mode ∧ s'.lzma.dict.sizeMax = s.lzma.dict.sizeMax := by
  obtain ⟨m, rfl, hm⟩ := hstep.moved
  have hwrote := hstep.wrote
  have hdict := hwrote.dict
  have hlimit := hwrote.limit
  have hholds' := hholds.setLimit n
  have hrests' := (hrests.setLimit n).moved m
  have hflush := @Dictionary.Rests.flush _ _ bytes hrests' hholds'.window.pos_le
  rw [← hdict, XzBuf.moved_moved, Nat.add_zero, List.nil_append] at hflush
  have hle := hholds'.limit_le
  have hsettled := hready.coding.lzma.dict.wrap
  rw [hdict] at hsettled
  have hrests'' := @Dictionary.Rests.settle _ _ bytes 0 hrests' (by
    rcases hholds'.window.shape with ⟨hb, -⟩ | ⟨hp, -, -⟩
    · exact Or.inl hb
    · exact Or.inr hp) (by simp only at hlimit; omega) (by
    cases hmode : s.lzma.dict.mode with
    | single => exact Or.inr hmode
    | prealloc =>
        left
        have := hrests.ring hmode
        change 0 < s.lzma.dict.bufEnd
        omega)
  rw [XzBuf.moved_moved, Nat.add_zero, List.nil_append] at hrests''
  refine ⟨_, m, hflush, hm, rfl, rfl, ?_, ?_, ?_⟩
  · rw [hdict]
    exact hsettled
  · rw [hdict]
    exact hrests''
  · rw [hdict]
    exact ⟨rfl, rfl, rfl, rfl, rfl, rfl, rfl, rfl⟩

/-- `SEQ_LZMA_RUN`. -/
theorem lzma2RunChunk_ok {s : XzDecLzma2} {b : XzBuf} (h : s.Ok b) (hb : b.Valid)
    (hrun : s.sequence = .lzmaRun) :
    ∃ r, lzma2RunChunk s b = .ok r ∧ Lzma2Post s b r := by
  have htarget : s.target = .lzmaRun := by rw [XzDecLzma2.target, hrun]
  have hfresh : s.needDictReset = false := by
    rw [← Bool.not_eq_true]
    intro hneed
    rw [h.fresh hneed] at hrun
    cases hrun
  have hprops := h.props (Or.inr (Or.inr htarget))
  obtain ⟨⟨past, hholds⟩, hrests⟩ := h.dict hfresh
  have hset := h.lzma hfresh hprops (by rw [htarget]; decide)
  have hsized : 0 < s.uncompressed := h.sized (by rw [hrun]; decide) (by rw [hrun]; decide)
    (by rw [hrun]; decide) (by rw [htarget]; decide)
  obtain ⟨hsize, hshort⟩ := h.temp hrun
  obtain ⟨outMax, houtMax⟩ : ∃ outMax, outMax = min (b.outSize - b.out.length) s.uncompressed :=
    ⟨_, rfl⟩
  obtain ⟨hlow, hhigh, hspace⟩ := Dictionary.setLimit_bounds hholds outMax
  obtain ⟨s1, hs1⟩ : ∃ s1 : XzDecLzma2,
      s1 = { s with lzma := { s.lzma with dict := s.lzma.dict.setLimit outMax } } := ⟨_, rfl⟩
  have hready : Lzma2Ready s1 b past := by
    subst hs1
    exact ⟨⟨⟨hholds.setLimit outMax, hset.dec, hset.rep0⟩, hset.probs, hset.low⟩, hlow, h.tempBuf,
      hsize, hshort, hb.inside⟩
  obtain ⟨⟨valid, s', b'⟩, hlzma, bytes, hstep, hvalid⟩ := lzma2Lzma_total hready
  have hfits : bytes.length ≤ outMax := by
    have := hstep.wrote.limit
    rw [hs1] at this
    simp only at this
    exact Nat.le_of_add_le_add_left (this.trans hhigh)
  have hdict' := hstep.wrote.dict
  have hkeeps := hstep.keeps
  rw [lzma2RunChunk, ← houtMax, ← hs1, hlzma, ok_bind]
  simp only
  cases valid with
  | false =>
      rw [Bool.not_false, if_pos rfl]
      obtain ⟨m, hb', hm⟩ := hstep.moved
      refine ⟨_, rfl, ⟨hkeeps.tempBuf.trans (by rw [hs1]), ?_, ?_⟩, ?_, fun hor => ?_,
        Or.inr (Or.inr rfl)⟩
      · rw [hdict', hs1]
        rfl
      · rw [hdict', hs1]
        rfl
      · rw [hb']
        exact XzBuf.advances_moved (fun _ => hm) fun ho => ho
      · rcases hor with hor | hor <;> cases hor
  | true =>
      obtain ⟨hready', hsame, hprogress⟩ := hvalid rfl
      rw [hs1] at hstep hsame
      obtain ⟨dict, m, hflush, hm, hin, hinput, hholds', hrests', hfull, hdsize, hdmode, hdend, hdmax,
        hssize, hsmode, hsmax⟩ := flush_ok hholds hrests hstep hready'
      have hadv : b.Advances (b.moved m bytes) :=
        XzBuf.advances_moved (fun _ => hm) fun ho => by omega
      have hbytes : b.out.length + bytes.length = (b.moved m bytes).out.length := by
        rw [XzBuf.moved, List.length_append]
      have hunc : s'.uncompressed = s.uncompressed := by rw [hkeeps.uncompressed, hs1]
      have hbase : ∀ s'' : XzDecLzma2, s''.temp.buf.length = s'.temp.buf.length →
          s''.lzma.dict = dict → s.Base s'' := fun s'' ht hd =>
        ⟨ht.trans (hkeeps.tempBuf.trans (by rw [hs1])), by rw [hd, hdmode], by rw [hd, hdmax]⟩
      have hlzmaSet : s'.lzma.dec.Ok ∧ (s'.lzma.dec.state.isLiteral = false ∨ 0 < s'.lzma.dec.len →
          s'.lzma.dec.rep0 < dict.full ∧ s'.lzma.dec.rep0 < dict.size) := by
        refine ⟨hready'.coding.lzma.dec, fun hor => ?_⟩
        have hrep := hready'.coding.lzma.rep0 hor
        rw [hfull, hdsize, ← hssize]
        exact hrep
      have hring : dict.mode = .prealloc → dict.bufEnd = dict.size := by
        rw [hdmode, hdend, hdsize]
        exact h.ring
      have hfresh' : s'.needDictReset = false := by rw [hkeeps.needDictReset, hs1, hfresh]
      have hprops' : s'.needProps = false := by rw [hkeeps.needProps, hs1, hprops]
      rw [Bool.not_true, if_neg (by decide), hflush]
      simp only
      split
      · -- the last byte of the chunk
        rename_i hlast
        have hmore : 0 < bytes.length := by omega
        split
        · refine ⟨_, rfl, hbase _ rfl rfl, hadv, fun hor => ?_, Or.inr (Or.inr rfl)⟩
          rcases hor with hor | hor <;> cases hor
        · rename_i hend
          simp only [Bool.or_eq_true, decide_eq_true_eq, not_or, Nat.not_lt, Nat.le_zero] at hend
          refine ⟨_, rfl, ⟨hready'.buf, hdsize ▸ h.size_pos, hring, fun hneed => ?_,
            fun _ => ⟨⟨_, hholds'⟩, hrests'⟩, fun _ _ _ => ⟨hlzmaSet.1, hlzmaSet.2,
            hready'.coding.probs, by change 31 * 2 ^ 13 ≤ (0xFFFFFFFF : UInt32).toNat; decide⟩,
            fun hor => ?_, Or.inl rfl, Or.inr (Or.inr (Or.inr rfl)), fun hc => absurd rfl hc,
            fun hc => ?_, fun _ => ?_, fun hc => ?_⟩, hbase _ rfl rfl, hadv, ?_⟩
          · exact absurd (hfresh'.symm.trans hneed) (by decide)
          · rcases hor with hor | hor | hor <;> cases hor
          · cases hc
          · have hle : s'.temp.size ≤ s'.compressed := hready'.size
            have hnone : s'.compressed = 0 := hend.1.1
            exact Nat.le_zero.mp (hnone ▸ hle)
          · cases hc
          · simp only [XzBuf.ahead]
            simp only [XzBuf.moved, List.length_append]
            omega
      · rename_i hlast
        have hok : XzDecLzma2.Ok { s' with
            lzma := { s'.lzma with dict := dict }
            uncompressed := s'.uncompressed - bytes.length } (b.moved m bytes) := by
          have hseq : s'.sequence = .lzmaRun := by rw [hkeeps.sequence, hs1, hrun]
          have htarget' : XzDecLzma2.target { s' with
              lzma := { s'.lzma with dict := dict }
              uncompressed := s'.uncompressed - bytes.length } = .lzmaRun := by
            simp only [XzDecLzma2.target, hseq]
          refine ⟨hready'.buf, hdsize ▸ h.size_pos, hring, fun hneed => ?_,
            fun _ => ⟨⟨_, hholds'⟩, hrests'⟩, fun _ _ _ => ⟨hlzmaSet.1, hlzmaSet.2,
            hready'.coding.probs, hready'.coding.low⟩, fun _ => hprops', ?_, ?_, fun _ _ _ _ => ?_,
            fun hc => ?_, fun hc => absurd hseq hc, fun _ => ⟨hready'.size, hready'.short⟩⟩
          · exact absurd (hfresh'.symm.trans hneed) (by decide)
          · rw [htarget']
            exact Or.inr (Or.inr (Or.inr (Or.inl rfl)))
          · have hnext : s'.nextSequence = s.nextSequence := by rw [hkeeps.nextSequence, hs1]
            rw [hnext]
            rcases h.run with hr | hr | hr | hr
            · exact Or.inl hr
            · exact Or.inr (Or.inl hr)
            · exact Or.inr (Or.inr (Or.inl hr))
            · rw [hrun] at hr
              cases hr
          · simp only
            omega
          · rw [hseq] at hc
            cases hc
        split
        · exact ⟨_, rfl, hbase _ rfl rfl, hadv, fun _ => hok, Or.inl rfl⟩
        · rename_i hgo
          refine ⟨_, rfl, hok, hbase _ rfl rfl, hadv, ?_⟩
          have hroom : b.out.length < b.outSize ∨ bytes ≠ [] := by
            by_cases hfull : b.out.length < b.outSize
            · exact Or.inl hfull
            · right
              rintro rfl
              apply hgo
              left
              have := hb.fits
              simp only [XzBuf.moved, List.append_nil]
              omega
          have hmoved : bytes ≠ [] ∨ b.inPos < (b.moved m bytes).inPos := by
            rcases hroom with hfull | hne
            · have hgap := hspace (hrests.room hfull) (by omega)
              rcases hprogress (by rw [hs1]; exact hgap) with hne | hread | ⟨hall, hwait⟩
              · exact Or.inl hne
              · right
                rw [hin] at hread
                exact hread
              · exfalso
                apply hgo
                right
                refine ⟨?_, hwait⟩
                rw [hin, hinput] at hall
                exact hall
            · exact Or.inl hne
          have hin' : (b.moved m bytes).inPos = b.inPos + m := rfl
          have hlen : bytes ≠ [] → 0 < bytes.length := fun hne => List.length_pos_iff.mpr hne
          simp only [XzBuf.ahead, ← hbytes, hin']
          have hinput' : (b.moved m bytes).input = b.input := rfl
          have hsize' : (b.moved m bytes).outSize = b.outSize := rfl
          rw [hinput', hsize']
          rcases hmoved with hne | hread
          · have := hlen hne
            omega
          · omega

/-! ## The rounds -/

theorem Lzma2Post.lift {s s' : XzDecLzma2} {b b' : XzBuf} {r : Lzma2Flow} (hbase : s.Base s')
    (hadv : b.Advances b') (hahead : b'.ahead ≤ b.ahead) (h : Lzma2Post s' b' r) :
    Lzma2Post s b r :=
  h.imp (fun _ hx => ⟨hx.1, hbase.trans hx.2.1, hadv.trans hx.2.2.1,
      Nat.lt_of_lt_of_le hx.2.2.2 hahead⟩)
    fun _ hr => ⟨hbase.trans hr.1, hadv.trans hr.2.1, hr.2.2⟩

theorem next_ok {b : XzBuf} (h : b.inPos < b.input.length) :
    ∃ byte, b.next = .ok (byte, b.moved 1 []) ∧ b.input[b.inPos]? = some byte := by
  have hget := List.getElem?_eq_getElem h
  refine ⟨b.input.get ⟨b.inPos, h⟩, ?_, hget⟩
  rw [XzBuf.next, hget, XzBuf.moved, List.append_nil]
  rfl

theorem advances_read {b : XzBuf} {n : Nat} (h : b.inPos + n ≤ b.input.length) :
    b.Advances (b.moved n []) :=
  XzBuf.advances_moved (fun _ => h) fun ho => ho

theorem ahead_read {b : XzBuf} {n : Nat} (h : b.inPos + n ≤ b.input.length) :
    (b.moved n []).ahead + n = b.ahead := by
  have hin : (b.moved n []).inPos = b.inPos + n := rfl
  have hlen : (b.moved n []).input = b.input := rfl
  have hout : (b.moved n []).out = b.out := List.append_nil _
  have hsize : (b.moved n []).outSize = b.outSize := rfl
  simp only [XzBuf.ahead, hin, hlen, hout, hsize]
  omega

/-- The bytes that `rc_read_init` takes. -/
theorem readInitFrom_ok (n : Nat) (rc : RcDec) (b : XzBuf) (hb : b.inPos ≤ b.input.length) :
    ∃ ready code left k, rc.readInitFrom n b = (ready, { rc with code := code
                                                                 initBytesLeft := left },
        b.moved k []) ∧ b.inPos + k ≤ b.input.length := by
  induction n generalizing rc b with
  | zero =>
      refine ⟨true, rc.code, rc.initBytesLeft, 0, ?_, hb⟩
      rw [RcDec.readInitFrom, XzBuf.moved_zero]
  | succ n ih =>
      rcases Nat.eq_or_lt_of_le hb with hend | hlt
      · refine ⟨false, rc.code, rc.initBytesLeft, 0, ?_, hb⟩
        rw [RcDec.readInitFrom, List.getElem?_eq_none (by omega), XzBuf.moved_zero]
      · obtain ⟨ready, code, left, k, hrun, hk⟩ := ih
          { rc with code := (rc.code <<< 8) + (b.input.get ⟨b.inPos, hlt⟩).toUInt32
                    initBytesLeft := n } { b with inPos := b.inPos + 1 } hlt
        refine ⟨ready, code, left, k + 1, ?_, by simp only at hk; omega⟩
        rw [RcDec.readInitFrom, List.getElem?_eq_getElem hlt]
        refine hrun.trans ?_
        simp only [XzBuf.moved, Nat.add_right_comm b.inPos 1 k]
        rfl

namespace XzDecLzma2

/-- The byte read for a field of a chunk header changes only the fields. -/
theorem Ok.header {s : XzDecLzma2} {b : XzBuf} (h : s.Ok b) (hseq : s.sequence ≠ .control)
    (hnot : s.sequence ≠ .lzmaRun) {q : Lzma2Sequence} {u c n : Nat} {s' : XzDecLzma2}
    (hs' : s' = { s with sequence := q, uncompressed := u, compressed := c })
    (htarget : s'.target = s.target) (hrun : q ≠ .lzmaRun)
    (hsized : q ≠ .uncompressed1 → q ≠ .uncompressed2 → s.target ≠ .copy → 0 < u)
    (hcopy : q = .copy → 0 < c) : s'.Ok (b.moved n []) := by
  have hfresh : s.needDictReset ≠ true := fun hneed => hseq (h.fresh hneed)
  subst hs'
  refine ⟨h.tempBuf, h.size_pos, h.ring, fun hneed => absurd hneed hfresh,
    fun hneed => ⟨(h.dict hneed).1, (h.dict hneed).2.moved n⟩, fun hneed hprops hne => ?_, ?_, ?_,
    ?_, fun _ h1 h2 hne => ?_, hcopy, fun _ => h.empty hnot, fun hc => absurd hc hrun⟩
  · rw [htarget] at hne
    have hset := h.lzma hneed hprops hne
    exact ⟨hset.dec, hset.rep0, hset.probs, hset.low⟩
  · rw [htarget]
    exact h.props
  · rw [htarget]
    exact h.next
  · rcases h.run with hr | hr | hr | hr
    · exact Or.inl hr
    · exact Or.inr (Or.inl hr)
    · exact Or.inr (Or.inr (Or.inl hr))
    · exact absurd hr hseq
  · rw [htarget] at hne
    exact hsized h1 h2 hne

/-- The bytes of the first code have been read. -/
theorem Ok.prepared {s : XzDecLzma2} {b : XzBuf} (h : s.Ok b) (hseq : s.sequence = .lzmaPrepare)
    (code : UInt32) (left n : Nat) :
    XzDecLzma2.Ok { s with
      coder := { s.coder with rc := { s.coder.rc with code := code, initBytesLeft := left } }
      compressed := s.compressed - 5
      sequence := .lzmaRun } (b.moved n []) := by
  have htarget : s.target = .lzmaPrepare := by rw [XzDecLzma2.target, hseq]
  have hempty := h.empty (by rw [hseq]; decide)
  have hprops := h.props (Or.inr (Or.inl htarget))
  refine ⟨h.tempBuf, h.size_pos, h.ring, fun hneed => ?_, fun hneed => ⟨(h.dict hneed).1,
    (h.dict hneed).2.moved n⟩, fun hneed hp _ => ?_, fun _ => hprops,
    Or.inr (Or.inr (Or.inr (Or.inl rfl))), ?_, fun _ _ _ _ => ?_, fun hc => ?_,
    fun hc => absurd rfl hc, fun _ => ?_⟩
  · rw [h.fresh hneed] at hseq
    cases hseq
  · have hset := h.lzma hneed hp (by rw [htarget]; decide)
    exact ⟨hset.dec, hset.rep0, hset.probs, hset.low⟩
  · rcases h.run with hr | hr | hr | hr
    · exact Or.inl hr
    · exact Or.inr (Or.inl hr)
    · exact Or.inr (Or.inr (Or.inl hr))
    · rw [hseq] at hr
      cases hr
  · exact h.sized (by rw [hseq]; decide) (by rw [hseq]; decide) (by rw [hseq]; decide)
      (by rw [htarget]; decide)
  · cases hc
  · change s.temp.size ≤ s.compressed - 5 ∧ s.temp.size < lzmaInRequired
    rw [hempty, lzmaInRequired]
    omega

theorem Ok.moved {s : XzDecLzma2} {b : XzBuf} (h : s.Ok b) (n : Nat) : s.Ok (b.moved n []) :=
  ⟨h.tempBuf, h.size_pos, h.ring, h.fresh, fun hn => ⟨(h.dict hn).1, (h.dict hn).2.moved n⟩,
    h.lzma, h.props, h.next, h.run, h.sized, h.copy, h.empty, h.temp⟩

/-- In multi-call mode the invariants do not depend on the caller's buffers. -/
theorem Ok.other {s : XzDecLzma2} {b : XzBuf} (h : s.Ok b)
    (hmode : s.lzma.dict.mode = .prealloc) (b' : XzBuf) : s.Ok b' := by
  have hsingle : s.lzma.dict.mode ≠ .single := by
    rw [hmode]
    decide
  refine ⟨h.tempBuf, h.size_pos, h.ring, h.fresh, fun hneed => ?_, h.lzma, h.props, h.next, h.run,
    h.sized, h.copy, h.empty, h.temp⟩
  obtain ⟨hholds, hrests⟩ := h.dict hneed
  exact ⟨hholds, hrests.start_eq, hrests.ring, fun hc => absurd hc hsingle,
    fun hc => absurd hc hsingle⟩

end XzDecLzma2

/-- `SEQ_LZMA_PREPARE`. -/
theorem lzma2Prepare_ok {s : XzDecLzma2} {b : XzBuf} (h : s.Ok b) (hb : b.Valid)
    (hseq : s.sequence = .lzmaPrepare) :
    ∃ r, lzma2Prepare s b = .ok r ∧ Lzma2Post s b r := by
  rw [lzma2Prepare]
  split
  · refine ⟨_, rfl, .refl s, .refl b, fun hor => ?_, Or.inr (Or.inr rfl)⟩
    rcases hor with hor | hor <;> cases hor
  · obtain ⟨ready, code, left, k, hread, hk⟩ := readInitFrom_ok s.coder.rc.initBytesLeft
      s.coder.rc b hb.inside
    rw [RcDec.readInit, hread]
    simp only
    have hadv := advances_read hk
    cases ready with
    | false =>
        rw [Bool.not_false, if_pos rfl]
        refine ⟨_, rfl, ⟨rfl, rfl, rfl⟩, hadv, fun _ => ?_, Or.inl rfl⟩
        exact ⟨h.tempBuf, h.size_pos, h.ring, h.fresh, fun hneed => ⟨(h.dict hneed).1,
          (h.dict hneed).2.moved k⟩, fun hneed hprops hne =>
          ⟨(h.lzma hneed hprops hne).dec, (h.lzma hneed hprops hne).rep0,
            (h.lzma hneed hprops hne).probs, (h.lzma hneed hprops hne).low⟩,
          h.props, h.next, h.run, h.sized, h.copy, h.empty, h.temp⟩
    | true =>
        rw [Bool.not_true, if_neg (by decide)]
        have hok := h.prepared hseq code left k
        obtain ⟨r, hr, hpost⟩ := lzma2RunChunk_ok hok (hadv.valid hb) rfl
        refine ⟨r, hr, hpost.lift (by exact ⟨rfl, rfl, rfl⟩) hadv ?_⟩
        have := ahead_read hk
        omega

/-- `lzma_reset`, whatever the state before it: only the literal coder and the
position mask are kept. -/
theorem lzmaReset_ok {dec : LzmaDec} (coder : LzmaCoder)
    (hliteral : ∃ lp, dec.literalPosMask = 2 ^ lp - 1 ∧ dec.lc + lp ≤ 4)
    (hpos : dec.posMask < 16) :
    (lzmaReset dec coder).1.Ok ∧ (lzmaReset dec coder).1.state.isLiteral = true
      ∧ (lzmaReset dec coder).1.len = 0 ∧ (lzmaReset dec coder).2.probs.Good
      ∧ 31 * 2 ^ 13 ≤ (lzmaReset dec coder).2.rc.range.toNat := by
  have hzero : 0 < 2 ^ 32 := Nat.two_pow_pos 32
  refine ⟨⟨hliteral, hpos, Nat.zero_le _, hzero, hzero, hzero, hzero⟩, rfl, rfl,
    fun i hi => ?_, ?_⟩
  · simp only [lzmaReset]
    rw [if_pos hi]
    decide
  · simp only [lzmaReset, RcDec.reset]
    decide

/-- `SEQ_PROPERTIES`, for properties that are valid. -/
theorem lzmaProps_ok {dec dec' : LzmaDec} {coder coder' : LzmaCoder} {props : UInt8}
    (h : lzmaProps dec coder props = (true, dec', coder')) :
    dec'.Ok ∧ dec'.state.isLiteral = true ∧ dec'.len = 0 ∧ coder'.probs.Good
      ∧ 31 * 2 ^ 13 ≤ coder'.rc.range.toNat := by
  rw [lzmaProps] at h
  split at h
  · cases h
  · rename_i hle
    simp only at h
    split at h
    · cases h
    · rename_i hsum
      rw [Prod.mk.injEq, Prod.mk.injEq] at h
      obtain ⟨-, rfl, rfl⟩ := h
      have hpb : props.toNat / 45 ≤ 4 := by omega
      have hlit : props.toNat % 45 % 9 + props.toNat % 45 / 9 ≤ 4 := by omega
      have hmask : 2 ^ (props.toNat / 45) - 1 < 16 := by
        have := Nat.pow_le_pow_right (n := 2) (by decide) hpb
        omega
      exact lzmaReset_ok coder ⟨props.toNat % 45 / 9, rfl, hlit⟩ hmask

/-- The properties have been read, too. -/
theorem XzDecLzma2.Ok.withProps {s : XzDecLzma2} {b : XzBuf} (h : s.Ok b)
    (hseq : s.sequence = .properties) {props : UInt8} {dec : LzmaDec} {coder : LzmaCoder}
    (hprops : lzmaProps s.lzma.dec s.coder props = (true, dec, coder)) :
    XzDecLzma2.Ok { s with lzma := { s.lzma with dec := dec }
                           coder := coder
                           sequence := .lzmaPrepare } (b.moved 1 []) := by
  have htarget : s.target = .properties := by rw [XzDecLzma2.target, hseq]
  obtain ⟨hdec, hlit, hlen, hprobs, hlow⟩ := lzmaProps_ok hprops
  refine ⟨h.tempBuf, h.size_pos, h.ring, fun hneed => ?_, fun hneed => ⟨(h.dict hneed).1,
    (h.dict hneed).2.moved 1⟩, fun _ _ _ => .fresh hdec hlit hlen hprobs hlow,
    fun _ => h.props (Or.inl htarget), Or.inr (Or.inr (Or.inl rfl)), ?_, fun _ _ _ _ => ?_,
    fun hc => ?_, fun _ => h.empty (by rw [hseq]; decide), fun hc => ?_⟩
  · rw [h.fresh hneed] at hseq
    cases hseq
  · rcases h.run with hr | hr | hr | hr
    · exact Or.inl hr
    · exact Or.inr (Or.inl hr)
    · exact Or.inr (Or.inr (Or.inl hr))
    · rw [hseq] at hr
      cases hr
  · exact h.sized (by rw [hseq]; decide) (by rw [hseq]; decide) (by rw [hseq]; decide)
      (by rw [htarget]; decide)
  · cases hc
  · cases hc

theorem lzma2Properties_ok {s : XzDecLzma2} {b : XzBuf} (h : s.Ok b) (hb : b.Valid)
    (hseq : s.sequence = .properties) (hlt : b.inPos < b.input.length) :
    ∃ r, lzma2Round (s, b) = .ok r ∧ Lzma2Post s b r := by
  obtain ⟨props, hnext, -⟩ := next_ok hlt
  have hadv := advances_read (n := 1) hlt
  obtain ⟨⟨valid, dec, coder⟩, hprops⟩ : ∃ r, r = lzmaProps s.lzma.dec s.coder props := ⟨_, rfl⟩
  simp only [lzma2Round]
  rw [if_pos (Or.inl hlt), hseq]
  simp only [hnext, ok_bind, ← hprops]
  cases valid with
  | false =>
      rw [Bool.not_false, if_pos rfl]
      refine ⟨_, rfl, ⟨rfl, rfl, rfl⟩, hadv, fun hor => ?_, Or.inr (Or.inr rfl)⟩
      rcases hor with hor | hor <;> cases hor
  | true =>
      rw [Bool.not_true, if_neg (by decide)]
      have hok := h.withProps hseq hprops.symm
      obtain ⟨r, hr, hpost⟩ := lzma2Prepare_ok hok (hadv.valid hb) rfl
      refine ⟨r, hr, hpost.lift (by exact ⟨rfl, rfl, rfl⟩) hadv ?_⟩
      have := ahead_read (b := b) (n := 1) hlt
      omega

/-- `SEQ_COPY`. -/
theorem lzma2Copy_ok {s : XzDecLzma2} {b : XzBuf} (h : s.Ok b) (hseq : s.sequence = .copy)
    (hlt : b.inPos < b.input.length) :
    ∃ r, lzma2Round (s, b) = .ok r ∧ Lzma2Post s b r := by
  have htarget : s.target = .copy := by rw [XzDecLzma2.target, hseq]
  have hfresh : s.needDictReset = false := by
    rw [← Bool.not_eq_true]
    intro hneed
    rw [h.fresh hneed] at hseq
    cases hseq
  obtain ⟨⟨past, hholds⟩, hrests⟩ := h.dict hfresh
  obtain ⟨bytes, dict, -, hlen, hcopy, hholds', hrests', hkeeps, -⟩ :=
    hholds.uncompressed hrests s.compressed
  have hcopied := h.copy hseq
  have hfits : b.inPos + bytes.length ≤ b.input.length
      ∧ b.out.length + bytes.length ≤ max b.outSize b.out.length
      ∧ bytes.length ≤ s.compressed := by
    simp only [XzBuf.room] at hlen
    omega
  have hadv : b.Advances (b.moved bytes.length bytes) :=
    XzBuf.advances_moved (fun _ => hfits.1) fun ho => by omega
  have hset : s.needProps = false → s.lzma.dec.Ok
      ∧ (s.lzma.dec.state.isLiteral = false ∨ 0 < s.lzma.dec.len →
        s.lzma.dec.rep0 < dict.full ∧ s.lzma.dec.rep0 < dict.size)
      ∧ s.coder.probs.Good ∧ 31 * 2 ^ 13 ≤ s.coder.rc.range.toNat := fun hprops => by
    have hs := h.lzma hfresh hprops (by rw [htarget]; decide)
    refine ⟨hs.dec, fun hor => ?_, hs.probs, hs.low⟩
    obtain ⟨hf, hz⟩ := hs.rep0 hor
    exact ⟨Nat.lt_of_lt_of_le hf hkeeps.full, hkeeps.size ▸ hz⟩
  have hok : ∀ q left, (q = .control ∨ q = .copy ∧ 0 < left) → XzDecLzma2.Ok { s with
      lzma := { s.lzma with dict := dict }
      compressed := left
      sequence := q } (b.moved bytes.length bytes) := by
    intro q left hq
    have hqt : XzDecLzma2.target { s with
      lzma := { s.lzma with dict := dict }
      compressed := left
      sequence := q } = q := by
      rcases hq with rfl | ⟨rfl, -⟩ <;> rfl
    refine ⟨h.tempBuf, hkeeps.size ▸ h.size_pos, ?_, fun hneed => ?_,
      fun _ => ⟨⟨_, hholds'⟩, hrests'⟩, fun _ hprops _ => ?_, fun hor => ?_, ?_, ?_,
      fun hc _ _ hne => ?_, fun hc => ?_, fun _ => h.empty (by rw [hseq]; decide), fun hc => ?_⟩
    · rw [hkeeps.mode, hkeeps.bufEnd, hkeeps.size]
      exact h.ring
    · exact absurd (hfresh.symm.trans hneed) (by decide)
    · obtain ⟨hdec, hrep, hprobs, hlow⟩ := hset hprops
      exact ⟨hdec, hrep, hprobs, hlow⟩
    · rw [hqt] at hor
      rcases hq with rfl | ⟨rfl, -⟩ <;> rcases hor with hor | hor | hor <;> cases hor
    · rw [hqt]
      rcases hq with hq | ⟨hq, -⟩
      · exact Or.inl hq
      · exact Or.inr (Or.inr (Or.inr (Or.inr hq)))
    · rcases hq with hq | ⟨hq, -⟩
      · exact Or.inr (Or.inr (Or.inr hq))
      · rcases h.run with hr | hr | hr | hr
        · exact Or.inl hr
        · exact Or.inr (Or.inl hr)
        · exact Or.inr (Or.inr (Or.inl hr))
        · rw [hseq] at hr
          cases hr
    · rw [hqt] at hne
      rcases hq with hq | ⟨hq, -⟩
      · exact absurd hq hc
      · exact absurd hq hne
    · rcases hq with rfl | ⟨-, hpos⟩
      · cases hc
      · exact hpos
    · rcases hq with rfl | ⟨rfl, -⟩ <;> cases hc
  simp only [lzma2Round]
  rw [if_pos (Or.inl hlt), hseq]
  simp only [hcopy, ok_bind]
  split
  · rename_i hmore
    exact ⟨_, rfl, ⟨rfl, hkeeps.mode, hkeeps.sizeMax⟩, hadv,
      fun _ => hok .copy _ (Or.inr ⟨rfl, hmore⟩), Or.inl rfl⟩
  · rename_i hdone
    refine ⟨_, rfl, hok .control _ (Or.inl rfl), ⟨rfl, hkeeps.mode, hkeeps.sizeMax⟩, hadv, ?_⟩
    have hin : (b.moved bytes.length bytes).inPos = b.inPos + bytes.length := rfl
    have hinput : (b.moved bytes.length bytes).input = b.input := rfl
    have hsize : (b.moved bytes.length bytes).outSize = b.outSize := rfl
    have hout : (b.moved bytes.length bytes).out.length = b.out.length + bytes.length :=
      List.length_append
    simp only [XzBuf.ahead, hin, hinput, hsize, hout]
    omega

/-- `SEQ_CONTROL`: what the control byte leads to. -/
theorem lzma2Control_ok {s : XzDecLzma2} {b : XzBuf} (h : s.Ok b) (hb : b.Valid)
    (hseq : s.sequence = .control) (tmp : UInt8) :
    (lzma2Control s b tmp).Post (fun x => x.1.Ok b ∧ s.Base x.1 ∧ x.2 = b)
      fun r => s.Base r.2.1 ∧ r.2.2 = b ∧ (r.1 = .streamEnd → r.2.1.Ok b)
        ∧ (r.1 = .streamEnd ∨ r.1 = .dataError) := by
  have htarget : s.target = .control := by rw [XzDecLzma2.target, hseq]
  rw [lzma2Control]
  split
  · exact ⟨.refl s, rfl, fun _ => h, Or.inl rfl⟩
  · obtain ⟨resets, hresets⟩ : ∃ resets : Bool,
      resets = (decide (tmp ≥ 0xE0) || decide (tmp = 0x01)) := ⟨_, rfl⟩
    simp only [← hresets]
    split
    · exact ⟨.refl s, rfl, fun hr => (by cases hr), Or.inr rfl⟩
    · rename_i hgo
      obtain ⟨s1, hs1⟩ : ∃ s1 : XzDecLzma2, s1 = if resets = true then
        { s with needProps := true, needDictReset := false
                 lzma := { s.lzma with dict := s.lzma.dict.reset b } } else s := ⟨_, rfl⟩
      have hbase : s.Base s1 := by
        subst hs1
        split
        · exact ⟨rfl, rfl, rfl⟩
        · exact .refl s
      have hfields : s1.temp = s.temp ∧ s1.lzma.dict.size = s.lzma.dict.size
          ∧ s1.sequence = .control
          ∧ (s1.lzma.dict.mode = .prealloc → s1.lzma.dict.bufEnd = s1.lzma.dict.size)
          ∧ s1.needDictReset = false
          ∧ ((∃ past, s1.lzma.dict.Holds past) ∧ s1.lzma.dict.Rests b)
          ∧ (s1.needProps = false → s1.LzmaSet) := by
        subst hs1
        split
        · rename_i hr
          obtain ⟨hholds, hrests⟩ := Dictionary.reset_holds h.size_pos h.ring hb
          exact ⟨rfl, rfl, hseq, fun hm => hholds.ring hm, rfl, ⟨⟨_, hholds⟩, hrests⟩,
            fun hp => (by cases hp)⟩
        · rename_i hr
          have hneed : s.needDictReset = false := by
            rw [← Bool.not_eq_true]
            intro hneed
            simp only [hneed, Bool.and_true, Bool.not_eq_true', Bool.not_eq_false] at hgo
            exact hr hgo
          exact ⟨rfl, rfl, hseq, h.ring, hneed, h.dict hneed,
            fun hp => h.lzma hneed hp (by rw [htarget]; decide)⟩
      obtain ⟨htemp, hsize, hseq1, hring, hneed, hdict, hset⟩ := hfields
      have hempty : s1.temp.size = 0 := by
        rw [htemp]
        exact h.empty (by rw [hseq]; decide)
      have hbuf : s1.temp.buf.length = 3 * lzmaInRequired := by
        rw [htemp]
        exact h.tempBuf
      have hfresh : s1.needDictReset ≠ true := by
        rw [hneed]
        decide
      simp only [← hs1]
      split
      · rename_i hlzma
        split
        · refine ⟨⟨hbuf, hsize ▸ h.size_pos, hring, fun hn => absurd hn hfresh, fun _ => hdict,
            fun _ _ hne => absurd rfl hne, fun _ => rfl, Or.inr (Or.inl rfl), Or.inl rfl,
            fun _ hc => absurd rfl hc, fun hc => ?_, fun _ => hempty, fun hc => ?_⟩,
            ⟨hbase.tempBuf, hbase.mode, hbase.sizeMax⟩, rfl⟩
          · cases hc
          · cases hc
        · split
          · exact ⟨⟨hbase.tempBuf, hbase.mode, hbase.sizeMax⟩, rfl, fun hr => (by cases hr),
              Or.inr rfl⟩
          · rename_i hprops
            have hp : s1.needProps = false := by simpa using hprops
            have hs := hset hp
            split
            · obtain ⟨hdec, hlit, hlen, hprobs, hlow⟩ :=
                lzmaReset_ok s1.coder hs.dec.literal hs.dec.posMask
              refine ⟨⟨hbuf, hsize ▸ h.size_pos, hring, fun hn => absurd hn hfresh, fun _ => hdict,
                fun _ _ _ => .fresh hdec hlit hlen hprobs hlow, fun _ => hp,
                Or.inr (Or.inr (Or.inl rfl)), Or.inr (Or.inl rfl), fun _ hc => absurd rfl hc,
                fun hc => ?_, fun _ => hempty, fun hc => ?_⟩,
                ⟨hbase.tempBuf, hbase.mode, hbase.sizeMax⟩, rfl⟩
              · cases hc
              · cases hc
            · refine ⟨⟨hbuf, hsize ▸ h.size_pos, hring, fun hn => absurd hn hfresh, fun _ => hdict,
                fun _ _ _ => ⟨hs.dec, hs.rep0, hs.probs, hs.low⟩, fun _ => hp,
                Or.inr (Or.inr (Or.inl rfl)), Or.inr (Or.inl rfl), fun _ hc => absurd rfl hc,
                fun hc => ?_, fun _ => hempty, fun hc => ?_⟩,
                ⟨hbase.tempBuf, hbase.mode, hbase.sizeMax⟩, rfl⟩
              · cases hc
              · cases hc
      · split
        · exact ⟨hbase, rfl, fun hr => (by cases hr), Or.inr rfl⟩
        · refine ⟨⟨hbuf, hsize ▸ h.size_pos, hring, fun hn => absurd hn hfresh, fun _ => hdict,
            fun _ hp _ => ⟨(hset hp).dec, (hset hp).rep0, (hset hp).probs, (hset hp).low⟩,
            fun hor => ?_, Or.inr (Or.inr (Or.inr (Or.inr rfl))), Or.inr (Or.inr (Or.inl rfl)),
            fun _ _ _ hne => absurd rfl hne, fun hc => ?_, fun _ => hempty, fun hc => ?_⟩,
            ⟨hbase.tempBuf, hbase.mode, hbase.sizeMax⟩, rfl⟩
          · rcases hor with hor | hor | hor <;> cases hor
          · cases hc
          · cases hc

/-- The bytes of a chunk header. -/
theorem lzma2Header_ok {s : XzDecLzma2} {b : XzBuf} (h : s.Ok b)
    (hseq : s.sequence = .uncompressed1 ∨ s.sequence = .uncompressed2 ∨ s.sequence = .compressed0
      ∨ s.sequence = .compressed1) (hlt : b.inPos < b.input.length) :
    ∃ r, lzma2Round (s, b) = .ok r ∧ Lzma2Post s b r := by
  obtain ⟨byte, hnext, -⟩ := next_ok hlt
  have hadv := advances_read (n := 1) hlt
  have hahead : (b.moved 1 []).ahead < b.ahead := by
    have := ahead_read (b := b) (n := 1) hlt
    omega
  have hcontrol : s.sequence ≠ .control := by
    rcases hseq with hq | hq | hq | hq <;> rw [hq] <;> decide
  have hrun : s.sequence ≠ .lzmaRun := by
    rcases hseq with hq | hq | hq | hq <;> rw [hq] <;> decide
  simp only [lzma2Round]
  rw [if_pos (Or.inl hlt)]
  rcases hseq with hq | hq | hq | hq <;> rw [hq] <;> simp only [hnext, ok_bind]
  · have htarget : s.target = s.nextSequence := by rw [XzDecLzma2.target, hq]
    exact ⟨_, rfl, h.header hcontrol hrun rfl htarget.symm (by decide)
      (fun _ h2 => absurd rfl h2) (fun hc => by cases hc), ⟨rfl, rfl, rfl⟩, hadv, hahead⟩
  · have htarget : s.target = s.nextSequence := by rw [XzDecLzma2.target, hq]
    exact ⟨_, rfl, h.header hcontrol hrun rfl htarget.symm (by decide)
      (fun _ _ _ => Nat.succ_pos _) (fun hc => by cases hc), ⟨rfl, rfl, rfl⟩, hadv, hahead⟩
  · have htarget : s.target = s.nextSequence := by rw [XzDecLzma2.target, hq]
    exact ⟨_, rfl, h.header hcontrol hrun rfl htarget.symm (by decide)
      (fun _ _ hne => h.sized hcontrol (by rw [hq]; decide) (by rw [hq]; decide) hne)
      (fun hc => by cases hc), ⟨rfl, rfl, rfl⟩, hadv, hahead⟩
  · have htarget : s.target = s.nextSequence := by rw [XzDecLzma2.target, hq]
    have hkind : s.nextSequence = .properties ∨ s.nextSequence = .lzmaPrepare
        ∨ s.nextSequence = .copy := by
      rcases h.run with hr | hr | hr | hr
      · exact Or.inl hr
      · exact Or.inr (Or.inl hr)
      · exact Or.inr (Or.inr hr)
      · exact absurd hr hcontrol
    have htarget' : XzDecLzma2.target { s with
        sequence := s.nextSequence
        uncompressed := s.uncompressed
        compressed := s.compressed + byte.toNat + 1 } = s.target := by
      rw [htarget]
      rcases hkind with hk | hk | hk <;> simp only [XzDecLzma2.target, hk]
    exact ⟨_, rfl, h.header hcontrol hrun rfl htarget'
      (by rcases hkind with hk | hk | hk <;> rw [hk] <;> decide)
      (fun _ _ hne => h.sized hcontrol (by rw [hq]; decide) (by rw [hq]; decide) hne)
      (fun _ => Nat.succ_pos _), ⟨rfl, rfl, rfl⟩, hadv, hahead⟩

/-- A round ends without a fault, and goes on only after it has read or
written. -/
theorem lzma2Round_total {s : XzDecLzma2} {b : XzBuf} (h : s.Ok b) (hb : b.Valid) :
    ∃ r, lzma2Round (s, b) = .ok r ∧ Lzma2Post s b r := by
  by_cases hlt : b.inPos < b.input.length
  · cases hseq : s.sequence with
    | control =>
        obtain ⟨tmp, hnext, -⟩ := next_ok hlt
        have hadv := advances_read (n := 1) hlt
        have hahead : (b.moved 1 []).ahead < b.ahead := by
          have := ahead_read (b := b) (n := 1) hlt
          omega
        have hpost := lzma2Control_ok (h.moved 1) (hadv.valid hb) hseq tmp
        simp only [lzma2Round]
        rw [if_pos (Or.inl hlt), hseq]
        simp only [hnext, ok_bind]
        refine ⟨_, rfl, hpost.imp ?_ ?_⟩
        · rintro ⟨s', b'⟩ ⟨hok, hbase, rfl⟩
          exact ⟨hok, hbase, hadv, hahead⟩
        · rintro ⟨ret, s', b'⟩ ⟨hbase, rfl, hend, hret⟩
          refine ⟨hbase, hadv, fun hor => ?_, hret.elim (fun hr => Or.inr (Or.inl hr))
            fun hr => Or.inr (Or.inr hr)⟩
          rcases hor with rfl | rfl
          · rcases hret with hret | hret <;> cases hret
          · exact hend rfl
    | uncompressed1 => exact lzma2Header_ok h (Or.inl hseq) hlt
    | uncompressed2 => exact lzma2Header_ok h (Or.inr (Or.inl hseq)) hlt
    | compressed0 => exact lzma2Header_ok h (Or.inr (Or.inr (Or.inl hseq))) hlt
    | compressed1 => exact lzma2Header_ok h (Or.inr (Or.inr (Or.inr hseq))) hlt
    | properties => exact lzma2Properties_ok h hb hseq hlt
    | lzmaPrepare =>
        simp only [lzma2Round]
        rw [if_pos (Or.inl hlt), hseq]
        exact lzma2Prepare_ok h hb hseq
    | lzmaRun =>
        simp only [lzma2Round]
        rw [if_pos (Or.inl hlt), hseq]
        exact lzma2RunChunk_ok h hb hseq
    | copy => exact lzma2Copy_ok h hseq hlt
  · by_cases hseq : s.sequence = .lzmaRun
    · simp only [lzma2Round]
      rw [if_pos (Or.inr hseq), hseq]
      exact lzma2RunChunk_ok h hb hseq
    · simp only [lzma2Round]
      rw [if_neg (by tauto)]
      exact ⟨_, rfl, .refl s, .refl b, fun _ => h, Or.inl rfl⟩

/-- A call of `xz_dec_lzma2_run` ends without a fault. It keeps both positions
inside their buffers, and its invariants unless it returns an error. -/
theorem lzma2Run_total {s : XzDecLzma2} {b : XzBuf} (h : s.Ok b) (hb : b.Valid) :
    ∃ ret s' b', xzDecLzma2Run s b = .ok (ret, s', b') ∧ s.Base s' ∧ b.Advances b'
      ∧ (ret = .ok ∨ ret = .streamEnd → s'.Ok b')
      ∧ (ret = .ok ∨ ret = .streamEnd ∨ ret = .dataError) := by
  have hround : ∀ x : XzDecLzma2 × XzBuf, x.1.Ok x.2 ∧ s.Base x.1 ∧ b.Advances x.2 →
      ∃ r, lzma2Round x = .ok r ∧ r.Post
        (fun x' => (x'.1.Ok x'.2 ∧ s.Base x'.1 ∧ b.Advances x'.2) ∧ x'.2.ahead < x.2.ahead)
        (fun r => s.Base r.2.1 ∧ b.Advances r.2.2
          ∧ (r.1 = .ok ∨ r.1 = .streamEnd → r.2.1.Ok r.2.2)
          ∧ (r.1 = .ok ∨ r.1 = .streamEnd ∨ r.1 = .dataError)) := by
    rintro ⟨s', b'⟩ ⟨hok, hbase, hadv⟩
    obtain ⟨r, hr, hpost⟩ := lzma2Round_total hok (hadv.valid hb)
    refine ⟨r, hr, hpost.imp ?_ ?_⟩
    · rintro x' ⟨hok', hbase', hadv', hless⟩
      exact ⟨⟨hok', hbase.trans hbase', hadv.trans hadv'⟩, hless⟩
    · rintro r' ⟨hbase', hadv', hend, hret⟩
      exact ⟨hbase.trans hbase', hadv.trans hadv', hend, hret⟩
  obtain ⟨⟨ret, s', b'⟩, hrun, hpost⟩ :=
    loopFuel_total hround (k := lzma2Fuel b) (s := (s, b)) ⟨h, .refl s, .refl b⟩
      (Nat.lt_succ_self _)
  exact ⟨ret, s', b', hrun, hpost⟩

/-! ## Starting over -/

/-- A reset that succeeds sets up the decoder for any input, whatever state it
is in. -/
theorem lzma2Reset_ok {s s' : XzDecLzma2} {props : UInt8}
    (hbuf : s.temp.buf.length = 3 * lzmaInRequired)
    (h : xzDecLzma2Reset s props = (.ok, s')) (b : XzBuf) : s'.Ok b := by
  have hsize : 0 < (2 + (props &&& 1).toNat) <<< (props.toNat / 2 + 11) := by
    rw [Nat.shiftLeft_eq]
    exact Nat.mul_pos (by omega) (Nat.two_pow_pos _)
  rw [xzDecLzma2Reset] at h
  split at h
  · cases h
  · simp only at h
    split at h
    · cases h
    · simp only [Prod.mk.injEq, true_and] at h
      subst h
      refine ⟨hbuf, hsize, fun hm => if_pos hm, fun _ => rfl, fun hn => ?_, fun hn => ?_,
        fun hor => ?_, Or.inl rfl, Or.inr (Or.inr (Or.inr rfl)), fun hc => absurd rfl hc,
        fun hc => ?_, fun _ => rfl, fun hc => ?_⟩
      · cases hn
      · cases hn
      · rcases hor with hor | hor | hor <;> cases hor
      · cases hc
      · cases hc

theorem lzma2Reset_base (s : XzDecLzma2) (props : UInt8) :
    s.Base (xzDecLzma2Reset s props).2 := by
  rw [xzDecLzma2Reset]
  split
  · exact .refl s
  · simp only
    split
    · exact ⟨rfl, rfl, rfl⟩
    · exact ⟨rfl, rfl, rfl⟩

end Ccr2004
