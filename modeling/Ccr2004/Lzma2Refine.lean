import Ccr2004.Lzma2Machine
import Ccr2004.LzmaRefine

/-!
# Coded data in pieces

The data of an LZMA chunk reaches `lzma_main` through `temp` and through the
caller's buffers, cut wherever these end. `XzDecLzma2.Coded` says what is left
of it: the bytes in `temp`, and `left` behind them. `lzma2Lzma_coded` follows the
three parts of `lzma2_lzma`: none of them loses a byte or makes one up, and none
of them sees an error.
-/

namespace Ccr2004

/-! ## The range decoder between two inputs -/

/-- The decoder `c` is `m`, whatever its input is. -/
structure LzmaCoder.Matches (c : LzmaCoder) (m : LzmaRange) : Prop where
  probs : m.model = c.probs
  good : c.probs.Good
  range : m.range = c.rc.range.toNat
  code : m.code = c.rc.code.toNat
  lt : m.code < m.range

/-- What is left of a chunk: `m` has the bytes in `temp` and then `left`. -/
structure XzDecLzma2.Coded (s : XzDecLzma2) (past left : List UInt8) (h : LzmaHistory)
    (m : LzmaRange) (goal : LzmaHistory) (probs : Probs) : Prop where
  tracks : s.lzma.Tracks past h
  coded : LzmaCoded s.lzma.dict.size h m goal probs
  matched : s.coder.Matches m
  top : rcTop ≤ m.range
  rest : m.rest = s.temp.buf.take s.temp.size ++ left
  compressed : m.rest.length = s.compressed

/-- From `s` and `b` on, decoding has used a part of `left` and is still in the
middle of the data. -/
def Lzma2Goes (s : XzDecLzma2) (b : XzBuf) (past left : List UInt8) (goal : LzmaHistory)
    (probs : Probs) (s' : XzDecLzma2) (b' : XzBuf) : Prop :=
  ∃ bytes k h m, b' = b.moved k [] ∧ k ≤ left.length ∧ s.lzma.Wrote s'.lzma bytes
    ∧ s'.Coded (bytes.reverse ++ past) (left.drop k) h m goal probs

/-- What was written shows in the dictionary. -/
theorem Lzma.Wrote.unique {s s' : Lzma} {bytes bytes' : List UInt8}
    (hp : s.dict.pos ≤ s.dict.buf.length) (h : s.Wrote s' bytes) (h' : s.Wrote s' bytes') :
    bytes = bytes' := by
  have hpos : ∀ {x}, s.Wrote s' x → s'.dict.pos = s.dict.pos + x.length := fun hx => by
    rw [hx.dict]
    rfl
  have hmid : ∀ {x}, s.Wrote s' x → (s'.dict.buf.drop s.dict.pos).take x.length = x := by
    intro x hx
    have htake : (s.dict.buf.take s.dict.pos).length = s.dict.pos := by
      rw [List.length_take, Nat.min_eq_left hp]
    have hbuf : s'.dict.buf
        = s.dict.buf.take s.dict.pos ++ (x ++ s.dict.buf.drop (s.dict.pos + x.length)) := by
      rw [hx.dict, ← List.append_assoc]
      rfl
    rw [hbuf, List.drop_left' htake, List.take_left]
  have hlen : bytes.length = bytes'.length := by
    have h1 := hpos h
    have h2 := hpos h'
    omega
  rw [← hmid h, hlen, hmid h']

theorem take_past {a l : List UInt8} {n : Nat} (ha : a.length = n) (k : Nat) :
    (a ++ l).take (n + k) = a ++ l.take k := by
  subst ha
  exact List.take_length_add_append k

theorem drop_past {a l : List UInt8} {n : Nat} (ha : a.length = n) (k : Nat) :
    (a ++ l).drop (n + k) = l.drop k := by
  subst ha
  exact List.drop_length_add_append k

section Coded

variable {s : XzDecLzma2} {b : XzBuf} {past left : List UInt8} {h : LzmaHistory} {m : LzmaRange}
  {goal : LzmaHistory} {probs : Probs}

theorem XzDecLzma2.Coded.left_length (hc : s.Coded past left h m goal probs)
    (hsize : s.temp.size ≤ s.temp.buf.length) : s.temp.size + left.length = s.compressed := by
  have hrest := hc.compressed
  rw [hc.rest, List.length_append, List.length_take, Nat.min_eq_left hsize] at hrest
  exact hrest

/-- A call of `lzma_main` over an input that has the data up to `n`. -/
theorem main_coded {input after tail : List UInt8} {inPos inLimit n : Nat}
    (hc : s.Coded past left h m goal probs) (hlimit : s.lzma.dict.pos ≤ s.lzma.dict.limit)
    (hbound : past.length + (s.lzma.dict.limit - s.lzma.dict.pos) ≤ goal.past.length)
    (hfeed : m.rest ++ tail = (input.take n).drop inPos ++ after) (hin : inPos ≤ inLimit)
    (hreq : inLimit + lzmaInRequired ≤ n) (hn : n ≤ input.length) :
    ∃ s' bytes h' m', s.main input inPos inLimit = .ok (true, s')
      ∧ s.lzma.Wrote s'.lzma bytes ∧ s'.temp = s.temp ∧ s'.compressed = s.compressed
      ∧ s'.lzma.Tracks (bytes.reverse ++ past) h'
      ∧ LzmaCoded s'.lzma.dict.size h' m' goal probs ∧ s'.coder.Matches m' ∧ rcTop ≤ m'.range
      ∧ inPos ≤ s'.coder.rc.inPos ∧ s'.coder.rc.inPos ≤ n
      ∧ s'.coder.rc.inPos - inPos ≤ m.rest.length
      ∧ m'.rest = m.rest.drop (s'.coder.rc.inPos - inPos) := by
  obtain ⟨hprobs, hgood, hrange, hcode, hlt⟩ := hc.matched
  have hshows : LzmaCoder.Shows (LzmaCoder.cut { s.coder with
      rc := { s.coder.rc with input := input, inPos := inPos, inLimit := inLimit } } n) after
      (m.extend tail) := ⟨hprobs, hgood, hrange, hcode, hlt, hfeed⟩
  have hlow : 31 * 2 ^ 13 ≤ s.coder.rc.range.toNat := by
    have := hc.top
    rw [hrange, rcTop] at this
    omega
  obtain ⟨s', c', bytes, h', m', hrun, hgoes, hshows', htop, hreads, hend⟩ :=
    lzmaMain_coded hc.tracks hlimit hbound hc.coded hshows hlow hin hreq hn
  obtain ⟨hsize, -, -⟩ := hgoes.size_eq
  have hpos : inPos ≤ c'.rc.inPos := hreads.inPos
  -- the input is where it was, so what has been read is a part of the data
  have hrest : m'.rest ++ tail = (m.rest ++ tail).drop (c'.rc.inPos - inPos) := by
    have hrest' : m'.rest ++ tail = (input.take n).drop c'.rc.inPos ++ after := by
      have := hshows'.rest
      simp only [LzmaCoder.cut, RangeState.extend, hreads.input] at this
      exact this
    have hfar : c'.rc.inPos - inPos ≤ ((input.take n).drop inPos).length := by
      rw [List.length_drop, List.length_take]
      omega
    rw [hfeed, List.drop_append_of_le_length hfar, List.drop_drop, hrest',
      Nat.add_sub_cancel' hpos]
  have hused : c'.rc.inPos - inPos ≤ m.rest.length := by
    have hlen := congrArg List.length hrest
    have hfeedlen := congrArg List.length hfeed
    simp only [List.length_append, List.length_drop, List.length_take] at hlen hfeedlen
    omega
  have hdrop : m'.rest = m.rest.drop (c'.rc.inPos - inPos) := by
    rw [List.drop_append_of_le_length hused] at hrest
    exact List.append_cancel_right hrest
  refine ⟨{ s with lzma := s', coder := c' }, bytes, h', m', by rw [XzDecLzma2.main, hrun, ok_bind],
    hgoes.done.wrote, rfl, rfl, hgoes.tracks, hsize.symm ▸ hgoes.coded,
    ⟨hshows'.probs, hshows'.good, hshows'.range, hshows'.code, hshows'.lt⟩, htop, hpos, hend, hused,
    hdrop⟩

/-! ## The three parts -/

/-- What `temp` holds once it is filled. -/
theorem fillTemp_coded (hc : s.Coded past left h m goal probs) (hready : Lzma2Ready s b past)
    {next : List UInt8} (hoffer : b.input.drop b.inPos <+: left ++ next) :
    ∃ buf, lzma2FillTemp s b (lzma2Take s b) = .ok { s.temp with buf := buf }
      ∧ buf.length = 3 * lzmaInRequired
      ∧ buf.take (s.temp.size + lzma2Take s b) = m.rest.take (s.temp.size + lzma2Take s b)
      ∧ (s.temp.size + lzma2Take s b = s.compressed → ∃ zeros, buf = m.rest ++ zeros) := by
  have htake := lzma2Take_eq s b
  have hbuf := hready.buf
  have hshort := hready.short
  have hinside := hready.inside
  have hsize : s.temp.size ≤ s.temp.buf.length := by
    simp only [lzmaInRequired] at *
    omega
  have hleft := hc.left_length hsize
  obtain ⟨n, hn⟩ : ∃ n, n = lzma2Take s b := ⟨_, rfl⟩
  rw [← hn] at htake ⊢
  simp only [lzmaInRequired] at *
  obtain ⟨hpeek, hlen⟩ := peek_ok (b := b) (n := n) (by omega)
  have hpiece : (b.input.drop b.inPos).take n = left.take n := by
    obtain ⟨z, hz⟩ := hoffer
    have hz' := congrArg (List.take n) hz
    rw [List.take_append_of_le_length (by rw [List.length_drop]; omega),
      List.take_append_of_le_length (by omega)] at hz'
    exact hz'
  have hhead : (s.temp.buf.take s.temp.size).length = s.temp.size := by
    rw [List.length_take, Nat.min_eq_left hsize]
  have hdata : m.rest.take (s.temp.size + n) = s.temp.buf.take s.temp.size ++ left.take n := by
    rw [hc.rest, take_past hhead]
  obtain ⟨buf, hcopy, hbuf', hbufeq⟩ := copy_ok (t := s.temp) (p := s.temp.size)
    (x := (b.input.drop b.inPos).take n) (by rw [hlen]; omega)
  have hfront : buf.take (s.temp.size + n) = m.rest.take (s.temp.size + n) := by
    rw [hbufeq, hdata, hpiece]
    apply List.take_left'
    rw [List.length_append, hhead, ← hpiece, hlen]
  simp only [lzma2FillTemp, hpeek, ok_bind, hcopy]
  split
  · rename_i hall
    obtain ⟨buf', hcopy', hbuf'', hbufeq'⟩ := copy_ok (t := { s.temp with buf := buf })
      (p := s.temp.size + n) (x := List.replicate (3 * 21 - s.temp.size - n) 0)
      (by rw [List.length_replicate]; simp only; omega)
    have hwhole : buf' = m.rest ++ List.replicate (3 * 21 - s.temp.size - n) 0 := by
      rw [hbufeq', List.length_replicate, hfront, hall, ← hc.compressed, List.take_length,
        List.drop_eq_nil_of_le (by simp only; rw [hc.compressed]; omega), List.append_nil]
    refine ⟨buf', hcopy', by rw [hbuf'']; simp only; omega, ?_, fun _ => ⟨_, hwhole⟩⟩
    rw [hwhole, hall, ← hc.compressed, List.take_left, List.take_length]
  · rename_i hnot
    exact ⟨buf, rfl, by omega, hfront, fun hall => absurd hall hnot⟩

/-- Decoding from `temp`. -/
theorem lzma2FromTemp_coded (hc : s.Coded past left h m goal probs) (hready : Lzma2Ready s b past)
    (hbound : past.length + (s.lzma.dict.limit - s.lzma.dict.pos) ≤ goal.past.length)
    {next : List UInt8} (hoffer : b.input.drop b.inPos <+: left ++ next) :
    ∃ r, lzma2FromTemp s b = .ok r ∧ r.Post
      (fun x => Lzma2Goes s b past left goal probs x.1 x.2 ∧ x.1.temp.size = 0)
      (fun r => r.1 = true ∧ Lzma2Goes s b past left goal probs r.2.1 r.2.2) := by
  have hbuf := hready.buf
  have hshort := hready.short
  have hinside := hready.inside
  have hle := hready.size
  have hsize : s.temp.size ≤ s.temp.buf.length := by
    simp only [lzmaInRequired] at *
    omega
  have hleft := hc.left_length hsize
  have hrefl := Lzma.Wrote.refl s.lzma hready.coding.lzma.dict.full_eq
    hready.coding.lzma.dict.window.pos_le hready.limit
  by_cases hdo : s.temp.size > 0 ∨ s.compressed = 0
  · have htake := lzma2Take_eq s b
    obtain ⟨buf, hfill, hlen, hfront, hwhole⟩ := fillTemp_coded hc hready hoffer
    simp only [lzma2FromTemp]
    rw [if_pos hdo, hfill]
    simp only [ok_bind]
    obtain ⟨n, hn⟩ : ∃ n, n = lzma2Take s b := ⟨_, rfl⟩
    rw [← hn] at htake hfront hwhole ⊢
    by_cases hfew : s.temp.size + n ≠ s.compressed ∧ s.temp.size + n < lzmaInRequired
    · rw [if_pos hfew]
      refine ⟨_, rfl, rfl, [], n, h, m, ?_, by omega, hrefl, ?_⟩
      · simp only [XzBuf.moved, List.append_nil]
      · refine ⟨hc.tracks, hc.coded, hc.matched, hc.top, ?_, hc.compressed⟩
        have hhead : (s.temp.buf.take s.temp.size).length = s.temp.size := by
          rw [List.length_take, Nat.min_eq_left hsize]
        simp only
        rw [hfront, hc.rest, take_past hhead, List.append_assoc, List.take_append_drop]
    · rw [if_neg hfew]
      obtain ⟨inLimit, hinLimit⟩ : ∃ inLimit, inLimit =
        if s.temp.size + n = s.compressed then s.temp.size + n
        else s.temp.size + n - lzmaInRequired := ⟨_, rfl⟩
      -- how far the buffer holds the data, and what stands before and behind it
      obtain ⟨e, after, tail, hfeed, hreq, hend, hkind⟩ : ∃ e after tail,
          m.rest ++ tail = (buf.take e).drop 0 ++ after ∧ inLimit + lzmaInRequired ≤ e
            ∧ e ≤ buf.length ∧ (e = s.temp.size + n ∨ s.temp.size + n = s.compressed) := by
        by_cases hall : s.temp.size + n = s.compressed
        · obtain ⟨zeros, hzeros⟩ := hwhole hall
          refine ⟨buf.length, [], zeros, ?_, ?_, Nat.le_refl _, Or.inr hall⟩
          · rw [List.take_length, List.drop_zero, List.append_nil, hzeros]
          · rw [if_pos hall] at hinLimit
            simp only [lzmaInRequired] at *
            omega
        · refine ⟨s.temp.size + n, m.rest.drop (s.temp.size + n), [], ?_, ?_, ?_, Or.inl rfl⟩
          · rw [hfront, List.drop_zero, List.take_append_drop, List.append_nil]
          · rw [if_neg hall] at hinLimit
            omega
          · simp only [lzmaInRequired] at *
            omega
      have hc' : XzDecLzma2.Coded { s with temp := { s.temp with buf := buf } } past left h m goal
          probs := by
        refine ⟨hc.tracks, hc.coded, hc.matched, hc.top, ?_, hc.compressed⟩
        have hhead : (s.temp.buf.take s.temp.size).length = s.temp.size := by
          rw [List.length_take, Nat.min_eq_left hsize]
        have hcut := congrArg (List.take s.temp.size) hfront
        rw [List.take_take, List.take_take, Nat.min_eq_left (Nat.le_add_right _ _)] at hcut
        simp only
        rw [hcut, hc.rest, List.take_left' hhead]
      obtain ⟨s', bytes, h', m', hmain, hwrote, htemp, hcompressed, htracks, hcoded, hmatched, htop,
        -, hread, hused, hrest⟩ := main_coded hc' hready.limit hbound hfeed (Nat.zero_le _) hreq
          hend
      rw [Nat.sub_zero] at hused hrest
      rw [← hinLimit, hmain, ok_bind]
      have hts : s'.temp.size = s.temp.size := by rw [htemp]
      have hfar : s'.coder.rc.inPos ≤ s.temp.size + n := by
        rcases hkind with rfl | hall
        · exact hread
        · rw [hc.compressed] at hused
          omega
      simp only
      rw [hts, if_neg (by simp only [Bool.not_true, Bool.false_or, decide_eq_true_eq]; omega)]
      rw [lzma2LeaveTemp]
      simp only
      have hhead : (s.temp.buf.take s.temp.size).length = s.temp.size := by
        rw [List.length_take, Nat.min_eq_left hsize]
      have hleftover : m'.rest.length = s.compressed - s'.coder.rc.inPos := by
        rw [hrest, List.length_drop, hc.compressed]
      by_cases hless : s'.coder.rc.inPos < s'.temp.size
      · -- what `temp` still holds moves to its front
        have hkept : (s'.temp.buf.drop s'.coder.rc.inPos).take (s'.temp.size - s'.coder.rc.inPos)
            = (s.temp.buf.take s.temp.size).drop s'.coder.rc.inPos := by
          have hcut := congrArg (List.take s.temp.size) hfront
          rw [List.take_take, List.take_take, Nat.min_eq_left (Nat.le_add_right _ _), hc.rest,
            List.take_left' hhead] at hcut
          rw [htemp, ← List.drop_take, hcut]
        rw [hts] at hless
        have hlen' : ((s.temp.buf.take s.temp.size).drop s'.coder.rc.inPos).length
            = s.temp.size - s'.coder.rc.inPos := by
          rw [List.length_drop, hhead]
        obtain ⟨buf', hcopy, -, hbuf'⟩ := copy_ok (t := s'.temp) (p := 0)
          (x := (s.temp.buf.take s.temp.size).drop s'.coder.rc.inPos) (by
            rw [hlen', htemp]
            simp only [lzmaInRequired] at *
            omega)
        rw [if_pos (by rw [hts]; exact hless), hkept, hcopy, ok_bind]
        refine ⟨_, rfl, rfl, bytes, 0, h', m', by rw [XzBuf.moved_zero], Nat.zero_le _, hwrote,
          ⟨htracks, hcoded, hmatched, htop, ?_, ?_⟩⟩
        · simp only [hts, List.drop_zero]
          rw [hrest, hc.rest, List.drop_append_of_le_length (by rw [hhead]; omega), hbuf',
            List.take_zero, List.nil_append, List.take_left' hlen']
        · simp only [hcompressed]
          exact hleftover
      · rw [if_neg hless]
        rw [hts] at hless
        refine ⟨_, rfl, ⟨bytes, s'.coder.rc.inPos - s.temp.size, h', m', ?_, by omega, hwrote, ?_⟩,
          rfl⟩
        · simp only [XzBuf.moved, List.append_nil, hts]
        · refine ⟨htracks, hcoded, hmatched, htop, ?_, ?_⟩
          · simp only [List.take_zero, List.nil_append]
            have hdrop := drop_past (l := left) hhead (s'.coder.rc.inPos - s.temp.size)
            rw [Nat.add_sub_cancel' (by omega)] at hdrop
            rw [hrest, hc.rest, hdrop]
          · simp only [hcompressed]
            exact hleftover
  · rw [lzma2FromTemp, if_neg hdo]
    refine ⟨_, rfl, ⟨[], 0, h, m, by rw [XzBuf.moved_zero], Nat.zero_le _, hrefl, hc⟩, ?_⟩
    simp only
    omega

/-- Decoding from the caller's buffer. -/
theorem lzma2FromInput_coded (hc : s.Coded past left h m goal probs)
    (hready : Lzma2Ready s b past) (hempty : s.temp.size = 0)
    (hbound : past.length + (s.lzma.dict.limit - s.lzma.dict.pos) ≤ goal.past.length)
    {next : List UInt8} (hoffer : b.input.drop b.inPos <+: left ++ next) :
    ∃ s' b', lzma2FromInput s b = .ok (.next (s', b'))
      ∧ Lzma2Goes s b past left goal probs s' b' := by
  have hinside := hready.inside
  have hleft : m.rest = left := by
    rw [hc.rest, hempty, List.take_zero, List.nil_append]
  have hlen := hc.compressed
  rw [hleft] at hlen
  by_cases hmany : b.input.length - b.inPos ≥ lzmaInRequired
  · obtain ⟨inLimit, hinLimit⟩ : ∃ inLimit, inLimit =
      if b.input.length - b.inPos ≥ s.compressed + lzmaInRequired then b.inPos + s.compressed
      else b.input.length - lzmaInRequired := ⟨_, rfl⟩
    have hin : b.inPos ≤ inLimit ∧ inLimit + lzmaInRequired ≤ b.input.length := by
      split at hinLimit <;> omega
    obtain ⟨z, hz⟩ := hoffer
    have hfeed : m.rest ++ next = (b.input.take b.input.length).drop b.inPos ++ z := by
      rw [List.take_length, hleft, hz]
    obtain ⟨s', bytes, h', m', hmain, hwrote, htemp, hcompressed, htracks, hcoded, hmatched, htop,
      hlow, -, hused, hrest⟩ := main_coded hc hready.limit hbound hfeed hin.1 hin.2 (Nat.le_refl _)
    rw [hleft] at hused hrest
    simp only [lzma2FromInput]
    rw [if_pos hmany, ← hinLimit, hmain, ok_bind]
    simp only
    rw [Bool.not_true, if_neg (by decide), if_neg (by omega)]
    refine ⟨_, _, rfl, bytes, s'.coder.rc.inPos - b.inPos, h', m', ?_, hused, hwrote,
      ⟨htracks, hcoded, hmatched, htop, ?_, ?_⟩⟩
    · simp only [XzBuf.moved, List.append_nil, XzBuf.mk.injEq, true_and, and_true]
      omega
    · simp only [htemp, hempty, List.take_zero, List.nil_append]
      exact hrest
    · simp only [hcompressed]
      rw [hrest, List.length_drop, hlen]
  · refine ⟨s, b, ?_, [], 0, h, m, by rw [XzBuf.moved_zero], Nat.zero_le _,
      .refl s.lzma hready.coding.lzma.dict.full_eq hready.coding.lzma.dict.window.pos_le
        hready.limit, hc⟩
    simp only [lzma2FromInput]
    rw [if_neg hmany]

/-- Keeping the last bytes. -/
theorem lzma2ToTemp_coded (hc : s.Coded past left h m goal probs)
    (hready : Lzma2Ready s b past) (hempty : s.temp.size = 0) {next : List UInt8}
    (hoffer : b.input.drop b.inPos <+: left ++ next) :
    ∃ s' b', lzma2ToTemp s b = .ok (true, s', b')
      ∧ Lzma2Goes s b past left goal probs s' b' := by
  have hinside := hready.inside
  have hbuf := hready.buf
  have hleft : m.rest = left := by
    rw [hc.rest, hempty, List.take_zero, List.nil_append]
  have hlen := hc.compressed
  rw [hleft] at hlen
  have hrefl := Lzma.Wrote.refl s.lzma hready.coding.lzma.dict.full_eq
    hready.coding.lzma.dict.window.pos_le hready.limit
  by_cases hfew : b.input.length - b.inPos < lzmaInRequired
  · obtain ⟨n, hn⟩ : ∃ n, n = if b.input.length - b.inPos > s.compressed then s.compressed
      else b.input.length - b.inPos := ⟨_, rfl⟩
    have hle : n ≤ s.compressed ∧ n ≤ b.input.length - b.inPos := by
      split at hn <;> omega
    obtain ⟨hpeek, hpiece⟩ := peek_ok (b := b) (n := n) (by omega)
    obtain ⟨buf, hcopy, -, hbufeq⟩ := copy_ok (t := s.temp) (p := 0)
      (x := (b.input.drop b.inPos).take n) (by rw [hpiece]; simp only [lzmaInRequired] at *; omega)
    refine ⟨{ s with temp := ⟨n, buf⟩ }, b.moved n [], ?_, [], n, h, m, rfl, by omega, hrefl,
      ⟨hc.tracks, hc.coded, hc.matched, hc.top, ?_, hc.compressed⟩⟩
    · simp only [lzma2ToTemp, XzBuf.moved, List.append_nil]
      rw [if_pos hfew, ← hn, hpeek, ok_bind, hcopy, ok_bind]
    · obtain ⟨z, hz⟩ := hoffer
      have hsame := congrArg (List.take n) hz
      rw [List.take_append_of_le_length (by rw [List.length_drop]; omega),
        List.take_append_of_le_length (by omega)] at hsame
      simp only [hbufeq, List.take_zero, List.nil_append]
      rw [List.take_left' hpiece, hsame, List.take_append_drop, hleft]
  · refine ⟨s, b, ?_, [], 0, h, m, by rw [XzBuf.moved_zero], Nat.zero_le _, hrefl, hc⟩
    simp only [lzma2ToTemp]
    rw [if_neg hfew]

/-! ## Together -/

theorem Lzma2Goes.trans {s' s'' : XzDecLzma2} {b' b'' : XzBuf} {bytes : List UInt8} {k : Nat}
    (hpos : s.lzma.dict.pos ≤ s.lzma.dict.buf.length) (hb : b' = b.moved k [])
    (hk : k ≤ left.length) (hwrote : s.lzma.Wrote s'.lzma bytes)
    (hgoes : Lzma2Goes s' b' (bytes.reverse ++ past) (left.drop k) goal probs s'' b'') :
    Lzma2Goes s b past left goal probs s'' b'' := by
  obtain ⟨bytes', k', h', m', rfl, hk', hwrote', hc'⟩ := hgoes
  rw [List.length_drop] at hk'
  refine ⟨bytes ++ bytes', k + k', h', m', ?_, by omega, hwrote.trans hpos hwrote', ?_⟩
  · rw [hb, XzBuf.moved_moved, List.append_nil]
  · rw [List.reverse_append, List.append_assoc, ← List.drop_drop]
    exact hc'

/-- What is offered after a part of it has been taken. -/
theorem offer_moved {l next : List UInt8} {k : Nat} (hk : b.inPos + k ≤ b.input.length)
    (hkl : k ≤ l.length) (h : b.input.drop b.inPos <+: l ++ next) :
    (b.moved k []).input.drop (b.moved k []).inPos <+: l.drop k ++ next := by
  obtain ⟨z, hz⟩ := h
  refine ⟨z, ?_⟩
  have hdrop := congrArg (List.drop k) hz
  rw [List.drop_append_of_le_length (by rw [List.length_drop]; omega),
    List.drop_append_of_le_length hkl, List.drop_drop] at hdrop
  exact hdrop

/-- `lzma2_lzma` over coded data, however much of it is there. -/
theorem lzma2Lzma_coded (hc : s.Coded past left h m goal probs) (hready : Lzma2Ready s b past)
    (hbound : past.length + (s.lzma.dict.limit - s.lzma.dict.pos) ≤ goal.past.length)
    {next : List UInt8} (hoffer : b.input.drop b.inPos <+: left ++ next) :
    ∃ s' b', lzma2Lzma s b = .ok (true, s', b')
      ∧ Lzma2Goes s b past left goal probs s' b' := by
  have hpos := hready.coding.lzma.dict.window.pos_le
  obtain ⟨r1, hr1, hgoes1⟩ := lzma2FromTemp_coded hc hready hbound hoffer
  obtain ⟨r1', hr1', hpost1⟩ := lzma2FromTemp_ok hready
  cases hr1.symm.trans hr1'
  rw [lzma2Lzma, hr1, ok_bind]
  cases r1 with
  | exit r =>
      obtain ⟨valid, s', b'⟩ := r
      obtain ⟨rfl, hgoes⟩ := hgoes1
      exact ⟨s', b', rfl, hgoes⟩
  | next x1 =>
      obtain ⟨s1, b1⟩ := x1
      obtain ⟨⟨bytes1, k1, h1, m1, hb1, hk1, hwrote1, hc1⟩, hempty1⟩ := hgoes1
      obtain ⟨bytes1', hbetween1, -⟩ := hpost1
      cases hwrote1.unique hpos hbetween1.step.wrote
      obtain ⟨hsize1, hlimit1, hpos1⟩ : s1.lzma.dict.size = s.lzma.dict.size
          ∧ s1.lzma.dict.limit = s.lzma.dict.limit
          ∧ s1.lzma.dict.pos = s.lzma.dict.pos + bytes1.length := by
        rw [hwrote1.dict]
        exact ⟨rfl, rfl, rfl⟩
      have hroom1 := hwrote1.limit
      have hbound1 : (bytes1.reverse ++ past).length + (s1.lzma.dict.limit - s1.lzma.dict.pos)
          ≤ goal.past.length := by
        rw [List.length_append, List.length_reverse]
        omega
      have hin1 : b.inPos + k1 ≤ b.input.length := by
        have := hbetween1.ready.inside
        rw [hb1] at this
        exact this
      have hoffer1 := offer_moved hin1 hk1 hoffer
      rw [← hb1] at hoffer1
      obtain ⟨s2, b2, hr2, hgoes2⟩ :=
        lzma2FromInput_coded hc1 hbetween1.ready hempty1 hbound1 hoffer1
      obtain ⟨r2, hr2', hpost2⟩ := lzma2FromInput_ok hbetween1.ready hbetween1.empty
      cases hr2.symm.trans hr2'
      obtain ⟨bytes2', hbetween2, -⟩ := hpost2
      obtain ⟨bytes2, k2, h2, m2, hb2, hk2, hwrote2, hc2⟩ := hgoes2
      cases hwrote2.unique hbetween1.ready.coding.lzma.dict.window.pos_le hbetween2.step.wrote
      have hin2 : b1.inPos + k2 ≤ b1.input.length := by
        have := hbetween2.ready.inside
        rw [hb2] at this
        exact this
      have hoffer2 := offer_moved hin2 hk2 hoffer1
      rw [← hb2] at hoffer2
      obtain ⟨s3, b3, hr3, hgoes3⟩ :=
        lzma2ToTemp_coded hc2 hbetween2.ready hbetween2.empty hoffer2
      simp only [hr2, ok_bind]
      exact ⟨s3, b3, hr3, .trans hpos hb1 hk1 hwrote1
        (.trans hbetween1.ready.coding.lzma.dict.window.pos_le hb2 hk2 hwrote2 hgoes3)⟩

end Coded

end Ccr2004
