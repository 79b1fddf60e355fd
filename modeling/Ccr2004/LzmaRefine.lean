import Ccr2004.LzmaFormat

/-!
# The decoder says what the data says

`Lzma.Tracks` ties a decoder, which may still owe a part of its last copy, to a
history of `LzmaFormat`. A symbol of `lzma_main` is then a symbol of the history
(`lzmaSymbol_eq`) and what it does to the dictionary is what the history accepts
(`accept_tracks`). `lzmaMain_coded` is the loop: over data that is coded it never
meets a distance that is not valid, wherever it is stopped.
-/

namespace Ccr2004

/-- What a symbol does to the dictionary. -/
def Lzma.accept (s : Lzma) : UInt8 ⊕ LzmaDec → Run (Bool × Lzma)
  | .inl byte => do
      let dict ← s.dict.put byte
      .ok (true, { dict := dict, dec := { s.dec with state := s.dec.state.literal } })
  | .inr dec => do
      match ← s.dict.repeat dec.len dec.rep0 with
      | none => .ok (false, { s with dec := dec })
      | some (dict, len) => .ok (true, { dict := dict, dec := { dec with len := len } })

/-- `s` has written all of the history but the end of its last copy. -/
structure Lzma.Tracks (s : Lzma) (past : List UInt8) (h : LzmaHistory) : Prop where
  ok : s.Ok past
  aligned : s.dict.pos % 16 = past.length % 16
  dec : h.dec = { s.dec with len := 0 }
  past : h.past = Lz77.copies s.dec.rep0 s.dec.len past

section Symbol

variable {s : Lzma} {past : List UInt8} {h : LzmaHistory}

theorem and_congr_mod {a b mask : Nat} (hmask : mask < 16) (h : a % 16 = b % 16) :
    a &&& mask = b &&& mask := by
  have hmod : ∀ x, x &&& mask = (x % 16) &&& mask := fun x => by
    apply Nat.eq_of_testBit_eq
    intro i
    rw [Nat.testBit_and, Nat.testBit_and, show 16 = 2 ^ 4 from rfl, Nat.testBit_mod_two_pow]
    by_cases hi : i < 4
    · rw [decide_eq_true hi, Bool.true_and]
    · have hlow : mask.testBit i = false :=
        Nat.testBit_lt_two_pow (Nat.lt_of_lt_of_le hmask (Nat.pow_le_pow_right (by decide)
          (Nat.le_of_not_lt hi) : 2 ^ 4 ≤ 2 ^ i))
      rw [hlow, Bool.and_false, Bool.and_false]
  rw [hmod a, hmod b, h]

theorem Dictionary.Holds.full_le {d : Dictionary} (h : d.Holds past) : d.full ≤ past.length :=
  h.full_eq ▸ h.window.length_le_past

/-- A distance into the history and into a dictionary of this size is valid. -/
theorem Dictionary.Holds.lt_full {d : Dictionary} {dist : Nat} (h : d.Holds past)
    (hpast : dist < past.length) (hsize : dist < d.size) : dist < d.full := by
  have hfull := h.full_eq
  rcases h.window.shape with ⟨hb, hp⟩ | ⟨hm, hb, -⟩
  · omega
  · have := h.ring hm
    omega

theorem LzmaDec.Ok.literalPosMask_lt {dec : LzmaDec} (h : dec.Ok) : dec.literalPosMask < 16 := by
  obtain ⟨lp, hmask, hsum⟩ := h.literal
  have hpow : 2 ^ lp ≤ 2 ^ 4 := Nat.pow_le_pow_right (by decide) (by omega)
  have hpos := Nat.two_pow_pos lp
  omega

/-- Without a copy to finish, the history is what is in the dictionary. -/
theorem Lzma.Tracks.settled (ht : s.Tracks past h) (hlen : s.dec.len = 0) :
    h.past = past ∧ h.dec = s.dec := by
  refine ⟨by rw [ht.past, hlen, Lz77.copies_zero], ?_⟩
  rw [ht.dec]
  cases hdec : s.dec
  rw [hdec] at hlen
  simp only at hlen
  rw [hlen]

theorem Lzma.Tracks.history_ok (ht : s.Tracks past h) : h.Ok := by
  have hdec := ht.ok.dec
  refine ⟨?_, fun hlit => ?_⟩
  · rw [ht.dec]
    exact ⟨hdec.literal, hdec.posMask, Nat.zero_le _, hdec.rep0, hdec.rep1, hdec.rep2, hdec.rep3⟩
  · rw [ht.dec] at hlit ⊢
    have hrep := (ht.ok.rep0 (Or.inl hlit)).1
    have hle := ht.ok.dict.full_le
    have hsuffix := (Lz77.suffix_copies s.dec.rep0 s.dec.len past).length_le
    rw [ht.past]
    simp only
    omega

theorem literalProbs_eq (ht : s.Tracks past h) (hlen : s.dec.len = 0) :
    lzmaLiteralProbs s = .ok h.literalProbs := by
  obtain ⟨hpast, hdec⟩ := ht.settled hlen
  have hget : s.dict.get 0 = .ok (past[0]?.getD 0) := ht.ok.dict.get ht.ok.dict.full_pos_or_nil
  obtain ⟨i, hi, hprobs⟩ := lzmaLiteralProbs_ok ht.ok
  have hpos : s.dict.pos &&& s.dec.literalPosMask = past.length &&& s.dec.literalPosMask :=
    and_congr_mod ht.ok.dec.literalPosMask_lt ht.aligned
  simp only [lzmaLiteralProbs, hget, ok_bind, hpos] at hprobs ⊢
  rw [checkIndex] at hprobs ⊢
  split at hprobs
  · rename_i hlt
    rw [if_pos hlt, ok_bind, LzmaHistory.literalProbs, hpast, hdec]
  · cases hprobs

theorem literal_eq (ht : s.Tracks past h) (hlen : s.dec.len = 0) :
    lzmaLiteralSymbol s h.literalProbs = h.literal := by
  obtain ⟨hpast, hdec⟩ := ht.settled hlen
  rw [lzmaLiteralSymbol, LzmaHistory.literal, hdec]
  split
  · rfl
  · rename_i hlit
    have hget := ht.ok.dict.get (Or.inl (ht.ok.rep0 (Or.inl (by simpa using hlit))).1)
    rw [hget, Decision.ofRun_ok, Decision.done_bind, hpast]

/-- A symbol of the decoder is one of the history, and what the dictionary makes
of it. -/
theorem lzmaSymbol_eq (ht : s.Tracks past h) (hlen : s.dec.len = 0) :
    lzmaSymbol s = h.symbol >>= fun x => .ofRun (s.accept x) := by
  obtain ⟨hpast, hdec⟩ := ht.settled hlen
  have hpos : s.dict.pos &&& s.dec.posMask = past.length &&& s.dec.posMask :=
    and_congr_mod ht.ok.dec.posMask ht.aligned
  rw [lzmaSymbol, LzmaHistory.symbol, hpos, hpast, hdec, Decision.bind_assoc]
  congr 1
  funext isMatch
  cases isMatch with
  | false =>
      rw [Bool.not_false, if_pos rfl, if_pos rfl, lzmaLiteral, literalProbs_eq ht hlen,
        Decision.ofRun_ok, Decision.done_bind, literal_eq ht hlen, Decision.bind_assoc,
        Decision.bind_assoc]
      congr 1
      funext symbol
      change _ = Decision.ofRun (s.accept (.inl (UInt8.ofNat symbol)))
      rw [Lzma.accept]
      cases s.dict.put (UInt8.ofNat symbol) with
      | error f => rfl
      | ok dict => rfl
  | true =>
      rw [Bool.not_true, if_neg (by decide), if_neg (by decide), Decision.bind_assoc]
      congr 1
      funext dec
      change _ = Decision.ofRun (s.accept (.inr dec))
      rw [Lzma.accept]
      cases s.dict.repeat dec.len dec.rep0 with
      | error f => rfl
      | ok r =>
          cases r with
          | none => rfl
          | some r => rfl

/-- A part of a copy that the dictionary has space for. -/
theorem repeat_tracks {dec : LzmaDec} (ht : s.Ok past)
    (haligned : s.dict.pos % 16 = past.length % 16)
    (hspace : s.dict.pos < s.dict.limit) (hdec : dec.Ok) (hprops : s.dec.SameProps dec)
    (hlen : 0 < dec.len) (hfull : dec.rep0 < s.dict.full) (hsize : dec.rep0 < s.dict.size)
    (hh : h.dec = { dec with len := 0 }) (hpast : h.past = Lz77.copies dec.rep0 dec.len past) :
    ∃ dict len bytes, s.dict.repeat dec.len dec.rep0 = .ok (some (dict, len))
      ∧ LzmaDone s { dict := dict, dec := { dec with len := len } } past bytes
      ∧ Lzma.Tracks { dict := dict, dec := { dec with len := len } } (bytes.reverse ++ past) h
      ∧ 0 < bytes.length ∧ (dict.pos < dict.limit → len = 0) := by
  obtain ⟨bytes, hbytes, hcopies, hrun, hdone⟩ :=
    repeat_done ht hspace hdec hprops hlen hfull hsize
  refine ⟨_, _, bytes, hrun, hdone, ⟨hdone.ok, Dictionary.written_mod bytes haligned, hh, ?_⟩, by omega,
    fun hgap => ?_⟩
  · have hsplit := Lz77.copies_add dec.rep0 bytes.length (dec.len - bytes.length) past
    rw [hcopies, Nat.add_sub_cancel' (by omega)] at hsplit
    rw [hpast, hsplit]
  · simp only [Dictionary.fill_pos, Dictionary.written_pos, Dictionary.fill_limit,
      Dictionary.written_limit] at hgap
    omega

/-- What the history accepts, the dictionary takes: as much of it as there is
space for. -/
theorem accept_tracks {x : UInt8 ⊕ LzmaDec} {h' : LzmaHistory} (ht : s.Tracks past h)
    (hlen : s.dec.len = 0) (hspace : s.dict.pos < s.dict.limit) (hsent : h.Sent x)
    (hacc : h.accept s.dict.size x = some h') :
    ∃ s' bytes, s.accept x = .ok (true, s') ∧ LzmaDone s s' past bytes
      ∧ s'.Tracks (bytes.reverse ++ past) h' ∧ 0 < bytes.length
      ∧ (s'.dict.pos < s'.dict.limit → s'.dec.len = 0) := by
  obtain ⟨hpast, hdec⟩ := ht.settled hlen
  cases x with
  | inl byte =>
      cases hacc
      have hdone := literal_done ht.ok hspace byte
      refine ⟨_, [byte], ?_, hdone, ⟨hdone.ok, Dictionary.written_mod _ ht.aligned, ?_, ?_⟩,
        Nat.one_pos, fun _ => hlen⟩
      · rw [Lzma.accept, (ht.ok.dict.put hspace byte).1, ok_bind]
      · simp only [hdec, hlen]
      · simp only [hpast, hlen, Lz77.copies_zero]
        rfl
  | inr dec =>
      have hm : s.dec.Matched dec := hdec ▸ hsent
      rw [LzmaHistory.accept, hpast] at hacc
      split at hacc
      · rename_i hvalid
        cases hacc
        obtain ⟨dict, len, bytes, hrun, hdone, htracks, hpos, hrest⟩ := repeat_tracks
          (h := ⟨Lz77.copies dec.rep0 dec.len past, { dec with len := 0 }⟩) ht.ok ht.aligned
          hspace (ht.ok.dec.of_matched hm) ⟨hm.lc, hm.literalPosMask, hm.posMask⟩ hm.len_pos
          (ht.ok.dict.lt_full hvalid.1 hvalid.2) hvalid.2 rfl rfl
        refine ⟨_, bytes, ?_, hdone, htracks, hpos, hrest⟩
        rw [Lzma.accept, hrun, ok_bind]
      · cases hacc

end Symbol

/-! ## The loop over symbols -/

/-- `bytes` have been decoded from `past` on, and the rest of the data is coded
up to the history `goal`. -/
structure LzmaGoes (s : Lzma) (past bytes : List UInt8) (s' : Lzma) (h : LzmaHistory)
    (m : LzmaRange) (goal : LzmaHistory) (probs : Probs) : Prop where
  done : LzmaDone s s' past bytes
  tracks : s'.Tracks (bytes.reverse ++ past) h
  coded : LzmaCoded s.dict.size h m goal probs

/-- The decoder `c` reads the data `m` and `tail` after it, of which its input
holds all up to `n` and `after` is still to come. -/
structure LzmaFeed (c : LzmaCoder) (n : Nat) (after tail : List UInt8) (m : LzmaRange) : Prop where
  shows : ∃ m', m'.normalize rcTop = (m.extend tail).normalize rcTop
    ∧ (c.cut n).Shows after m'
  affords : Affords 0 0 (c.cut n)

section Main

variable {s : Lzma} {past : List UInt8} {h : LzmaHistory} {c : LzmaCoder} {n : Nat}
  {after tail : List UInt8} {m : LzmaRange} {goal : LzmaHistory} {probs : Probs}

/-- Finishing a copy says nothing new. -/
theorem lzmaPending_goes (ht : s.Tracks past h) (hlimit : s.dict.pos ≤ s.dict.limit)
    (hcoded : LzmaCoded s.dict.size h m goal probs) :
    ∃ s' bytes, lzmaPending s = .ok s' ∧ LzmaGoes s past bytes s' h m goal probs
      ∧ (s'.dict.pos < s'.dict.limit → s'.dec.len = 0) := by
  by_cases hp : s.dict.pos < s.dict.limit ∧ 0 < s.dec.len
  · obtain ⟨hfull, hsize⟩ := ht.ok.rep0 (Or.inr hp.2)
    obtain ⟨dict, len, bytes, hrun, hdone, htracks, -, hrest⟩ := repeat_tracks ht.ok ht.aligned
      hp.1 ht.ok.dec ⟨rfl, rfl, rfl⟩ hp.2 hfull hsize ht.dec ht.past
    refine ⟨_, bytes, ?_, ⟨hdone, htracks, hcoded⟩, hrest⟩
    rw [lzmaPending, if_pos (by simp [Dictionary.hasSpace, hp]), hrun, ok_bind]
  · refine ⟨s, [], ?_, ⟨.refl ht.ok hlimit, ht, hcoded⟩, fun hspace => by omega⟩
    rw [lzmaPending, if_neg (by
      simp only [Dictionary.hasSpace, Bool.and_eq_true, decide_eq_true_eq]
      omega)]

/-- The decoder reads on in the same data. -/
theorem LzmaCoder.cut_extend {c c' : LzmaCoder} (h : (c.cut n).rc.Reads c'.rc) :
    (c'.extend (c.rc.input.drop n)).cut n = c' := by
  obtain ⟨hinput, -, -, -⟩ := h
  simp only [LzmaCoder.cut, LzmaCoder.extend, RcDec.extend] at hinput ⊢
  have htake : (c'.rc.input ++ c.rc.input.drop n).take n = c'.rc.input := by
    rw [hinput, List.take_append_drop]
  rw [htake]

theorem LzmaCoder.reads_extend {c c' : LzmaCoder} (h : (c.cut n).rc.Reads c'.rc) :
    c.rc.Reads (c'.extend (c.rc.input.drop n)).rc := by
  obtain ⟨hinput, hlimit, hpos, hinit⟩ := h
  refine ⟨?_, hlimit, hpos, hinit⟩
  simp only [LzmaCoder.extend, RcDec.extend, hinput]
  simp only [LzmaCoder.cut, List.take_append_drop]

/-- One symbol. -/
theorem symbol_goes (ht : s.Tracks past h) (hlen : s.dec.len = 0)
    (hspace : s.dict.pos < s.dict.limit) (hcoded : LzmaCoded s.dict.size h m goal probs)
    (hmore : past.length < goal.past.length) (hfeed : LzmaFeed c n after tail m)
    (hin : c.rc.inPos + lzmaInRequired ≤ n) (hn : n ≤ c.rc.input.length) :
    ∃ s' c' bytes h' m', (lzmaSymbol s).run lzmaSource c = .ok ((true, s'), c')
      ∧ LzmaGoes s past bytes s' h' m' goal probs ∧ LzmaFeed c' n after tail m'
      ∧ c.rc.Reads c'.rc ∧ 0 < bytes.length ∧ (s'.dict.pos < s'.dict.limit → s'.dec.len = 0) := by
  obtain ⟨hpast, -⟩ := ht.settled hlen
  have hok := ht.history_ok
  obtain ⟨⟨m1, hm1, hshows⟩, haffords⟩ := hfeed
  cases hcoded with
  | done => exact absurd hmore (by rw [hpast]; exact Nat.lt_irrefl _)
  | @symbol _ h' _ _ m' x _ hrun hacc hcoded' =>
      have hwithin := LzmaHistory.within_symbol hok.dec
      have hmany : Affords 22 26 (c.cut n) := affords_cut haffords.probs haffords.low hin hn
      obtain ⟨y, c', hcut, hsent, hafford', hreads, hfull⟩ := run_cut hwithin hmany
      -- the data, with what follows it, gives the same symbol
      have hdata : h.symbol.run lzmaRangeSource m1 = .ok (x, m'.extend tail) := by
        obtain ⟨i, next, hbit⟩ := h.symbol_eq_bit hok.dec
        have hext := RangeState.run_extend tail hrun
        rw [hbit] at hext ⊢
        exact (RangeState.run_bit_congr hm1).trans hext
      obtain ⟨rfl, hshows'⟩ := run_agrees hwithin hshows hcut hdata
      obtain ⟨s', bytes, haccept, hdone, htracks, hpos, hrest⟩ :=
        accept_tracks ht hlen hspace hsent hacc
      refine ⟨s', _, bytes, h', m', ?_, ⟨hdone, htracks, hcoded'⟩, ⟨⟨m'.extend tail, rfl, ?_⟩, ?_⟩,
        LzmaCoder.reads_extend hreads, hpos, hrest⟩
      · rw [lzmaSymbol_eq ht hlen, Decision.run_bind, hfull, ok_bind, haccept, Decision.ofRun_ok,
          Decision.run_done]
      · rwa [LzmaCoder.cut_extend hreads]
      · rwa [LzmaCoder.cut_extend hreads]

theorem LzmaGoes.size_eq {bytes : List UInt8} {s' : Lzma}
    (hg : LzmaGoes s past bytes s' h m goal probs) :
    s'.dict.size = s.dict.size ∧ s'.dict.limit = s.dict.limit
      ∧ s'.dict.pos = s.dict.pos + bytes.length := by
  rw [hg.done.wrote.dict]
  exact ⟨rfl, rfl, rfl⟩

theorem LzmaGoes.trans {bytes bytes' : List UInt8} {s' s'' : Lzma} {h' : LzmaHistory}
    {m' : LzmaRange} (ht : s.Ok past) (hg : LzmaGoes s past bytes s' h m goal probs)
    (hg' : LzmaGoes s' (bytes.reverse ++ past) bytes' s'' h' m' goal probs) :
    LzmaGoes s past (bytes ++ bytes') s'' h' m' goal probs where
  done := hg.done.trans ht hg'.done
  tracks := by
    rw [List.reverse_append, List.append_assoc]
    exact hg'.tracks
  coded := hg.size_eq.1 ▸ hg'.coded

/-- What the rounds of `lzma_main` keep, from `s` and `c` on. -/
def MainGoes (s : Lzma) (past : List UInt8) (goal : LzmaHistory) (probs : Probs) (c : LzmaCoder)
    (n : Nat) (after tail : List UInt8) (x : Lzma × LzmaCoder) : Prop :=
  ∃ bytes h m, LzmaGoes s past bytes x.1 h m goal probs ∧ LzmaFeed x.2 n after tail m
    ∧ c.rc.Reads x.2.rc ∧ (x.1.dict.pos < x.1.dict.limit → x.1.dec.len = 0)

theorem lzmaMainRound_goes (hs : s.Ok past)
    (hbound : past.length + (s.dict.limit - s.dict.pos) ≤ goal.past.length)
    (hreq : c.rc.inLimit + lzmaInRequired ≤ n) (hn : n ≤ c.rc.input.length)
    {x : Lzma × LzmaCoder} (hx : MainGoes s past goal probs c n after tail x) :
    ∃ r, lzmaMainRound x = .ok r ∧ r.Post
      (fun x' => MainGoes s past goal probs c n after tail x'
        ∧ x'.1.dict.limit - x'.1.dict.pos < x.1.dict.limit - x.1.dict.pos)
      fun r => r.1 = true ∧ MainGoes s past goal probs c n after tail r.2 := by
  obtain ⟨s', c'⟩ := x
  obtain ⟨bytes, h, m, hgoes, hfeed, hreads, hlen⟩ := hx
  obtain ⟨hsize, hlimit, hpos⟩ := hgoes.size_eq
  simp only at hsize hlimit hpos hgoes hfeed hreads hlen
  by_cases hgo : s'.dict.pos < s'.dict.limit ∧ c'.rc.inPos ≤ c'.rc.inLimit
  · have hmore : (bytes.reverse ++ past).length < goal.past.length := by
      rw [List.length_append, List.length_reverse]
      omega
    have hinLimit := hreads.inLimit
    obtain ⟨s'', c'', bytes', h', m', hrun, hgoes', hfeed', hreads', hne, hlen'⟩ :=
      symbol_goes hgoes.tracks (hlen hgo.1) hgo.1 (hsize.symm ▸ hgoes.coded) hmore hfeed
        (by omega) (by rw [hreads.input]; exact hn)
    have hround : lzmaMainRound (s', c') = .ok (.next (s'', c'')) := by
      rw [lzmaMainRound, if_pos (by
        simp only [Dictionary.hasSpace, RcDec.limitExceeded, Bool.and_eq_true, decide_eq_true_eq,
          Bool.not_eq_true', decide_eq_false_iff_not]
        omega), hrun, ok_bind]
      rfl
    obtain ⟨-, hlimit', hpos'⟩ := hgoes'.size_eq
    refine ⟨_, hround, ⟨bytes ++ bytes', h', m', hgoes.trans hs hgoes', hfeed',
      hreads.trans hreads', hlen'⟩, ?_⟩
    simp only
    omega
  · refine ⟨.exit (true, s', c'), ?_, rfl, bytes, h, m, hgoes, hfeed, hreads, hlen⟩
    rw [lzmaMainRound, if_neg (by
      simp only [Dictionary.hasSpace, RcDec.limitExceeded, Bool.and_eq_true, decide_eq_true_eq,
        Bool.not_eq_true', decide_eq_false_iff_not]
      omega)]

/-- `lzma_main` over coded data, wherever its input and its output end. The
range decoder is left normalised, over the data that is left. -/
theorem lzmaMain_coded (ht : s.Tracks past h) (hlimit : s.dict.pos ≤ s.dict.limit)
    (hbound : past.length + (s.dict.limit - s.dict.pos) ≤ goal.past.length)
    (hcoded : LzmaCoded s.dict.size h m goal probs) (hshows : (c.cut n).Shows after (m.extend tail))
    (hlow : 31 * 2 ^ 13 ≤ c.rc.range.toNat) (hin : c.rc.inPos ≤ c.rc.inLimit)
    (hreq : c.rc.inLimit + lzmaInRequired ≤ n) (hn : n ≤ c.rc.input.length) :
    ∃ s' c' bytes h' m', lzmaMain s c = .ok (true, s', c')
      ∧ LzmaGoes s past bytes s' h' m' goal probs ∧ (c'.cut n).Shows after (m'.extend tail)
      ∧ rcTop ≤ m'.range ∧ c.rc.Reads c'.rc ∧ c'.rc.inPos ≤ n := by
  obtain ⟨s1, bytes1, hpending, hgoes1, hlen1⟩ := lzmaPending_goes ht hlimit hcoded
  obtain ⟨hsize1, hlimit1, hpos1⟩ := hgoes1.size_eq
  have hspace1 := hgoes1.done.wrote.limit
  have hfeed : LzmaFeed c n after tail m :=
    ⟨⟨_, rfl, hshows⟩, (affords_cut (c := c) hshows.good hlow (by omega) hn).mono (by omega) (by omega)⟩
  have hinit : MainGoes s1 (bytes1.reverse ++ past) goal probs c n after tail (s1, c) :=
    ⟨[], h, m, ⟨.refl hgoes1.tracks.ok (by omega), hgoes1.tracks, hsize1.symm ▸ hcoded⟩, hfeed,
      .refl _, hlen1⟩
  obtain ⟨⟨valid, s', c'⟩, hloop, hvalid, bytes, h', m', hgoes, hfeed', hreads, -⟩ :=
    loopFuel_total (I := MainGoes s1 (bytes1.reverse ++ past) goal probs c n after tail)
      (fun x hx => lzmaMainRound_goes hgoes1.tracks.ok (by
        rw [List.length_append, List.length_reverse]
        omega) hreq hn hx) hinit (Nat.lt_succ_self _)
  subst hvalid
  simp only at hgoes hfeed' hreads
  obtain ⟨⟨m1, hm1, hshows1⟩, haffords⟩ := hfeed'
  -- what the last normalisation reads is the data's, too
  obtain ⟨mN, hmN⟩ := hgoes.coded.normalize hgoes.tracks.history_ok.dec
  rw [RangeState.normalize_extend tail hmN] at hm1
  obtain ⟨rc, hrc, hrcAffords, -, hreads'⟩ := normalize_affords haffords
  have hshowsN := hshows1.normalize hrc hm1
  have hrange1 : rcTop ≤ 256 * m1.range := by
    have := haffords.low
    rw [hshows1.range, rcTop]
    omega
  obtain ⟨-, htop⟩ := RangeState.normalize_normalize hrange1 hm1
  have hrangeN : rcTop ≤ mN.range := htop
  have hnormal : mN.normalize rcTop = m'.normalize rcTop := by
    rw [hmN, RangeState.normalize, if_neg (Nat.not_lt.mpr hrangeN)]
  have hfull : ((c'.cut n).rc.extend (c'.rc.input.drop n)).normalize
      = .ok (rc.extend (c'.rc.input.drop n)) := normalize_extend hrc
  have hback : (c'.cut n).rc.extend (c'.rc.input.drop n) = c'.rc :=
    congrArg LzmaCoder.rc (c'.extend_cut n)
  rw [hback] at hfull
  have hcutN : (LzmaCoder.cut ⟨rc.extend (c'.rc.input.drop n), c'.probs⟩ n) = ⟨rc, c'.probs⟩ :=
    @LzmaCoder.cut_extend n c' ⟨rc, c'.probs⟩ hreads'
  refine ⟨s', ⟨rc.extend (c'.rc.input.drop n), c'.probs⟩, bytes1 ++ bytes, h', mN, ?_,
    hgoes1.trans ht.ok ⟨hgoes.done, hgoes.tracks,
      hgoes.coded.congr hgoes.tracks.history_ok.dec hnormal⟩, ?_, htop, ?_, ?_⟩
  · rw [lzmaMain, hpending, ok_bind, hloop, ok_bind]
    simp only [if_true, hfull, ok_bind]
  · rw [hcutN]
    exact hshowsN
  · exact hreads.trans (@LzmaCoder.reads_extend n c' ⟨rc, c'.probs⟩ hreads')
  · have hinside : rc.inPos ≤ rc.input.length := hrcAffords.inside
    have hinput : rc.input = c'.rc.input.take n := hreads'.input
    rw [hinput, List.length_take] at hinside
    simp only [RcDec.extend]
    omega

end Main

end Ccr2004
