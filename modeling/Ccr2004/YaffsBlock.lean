import Ccr2004.YaffsReach

/-!
# The two ways through a block

On a block without read errors each path hands over a list of pages that
its content determines: the page-by-page path the pages before the first
erased one whose tags qualify, the summary path the pages before the first
all-ones entry whose entry is not a pseudo-object's. `scanBlockPageByPage_hands`
and `scanBlockViaSummary_hands` say so, and everything else compares the two
lists.
-/

namespace Ccr2004

/-! ## Pages selected by index -/

/-- The selected pages among the first `n`. -/
def pagesUpTo (keep : Nat → Bool) (page : Nat → Page) (n : Nat) : List Page :=
  ((List.range n).filter keep).map page

theorem pagesUpTo_succ (keep : Nat → Bool) (page : Nat → Page) (n : Nat) :
    pagesUpTo keep page (n + 1) =
      pagesUpTo keep page n ++ if keep n then [page n] else [] := by
  unfold pagesUpTo
  rw [List.range_succ, List.filter_append, List.map_append, List.filter_singleton]
  cases keep n <;> rfl

theorem mem_pagesUpTo {keep : Nat → Bool} {page : Nat → Page} {n : Nat} {p : Page} :
    p ∈ pagesUpTo keep page n ↔ ∃ i < n, keep i = true ∧ page i = p := by
  simp [pagesUpTo, and_assoc]

theorem pagesUpTo_prefix (keep : Nat → Bool) (page : Nat → Page) {m n : Nat}
    (h : m ≤ n) : pagesUpTo keep page m <+: pagesUpTo keep page n := by
  obtain ⟨k, rfl⟩ := Nat.exists_eq_add_of_le h
  induction k with
  | zero => exact List.prefix_refl _
  | succ k ih =>
      rw [← Nat.add_assoc, pagesUpTo_succ]
      exact (ih (Nat.le_add_right m k)).trans (List.prefix_append _ _)

theorem pagesUpTo_stable {keep : Nat → Bool} (page : Nat → Page) {m n : Nat}
    (h : m ≤ n) (hnone : ∀ i, m ≤ i → i < n → keep i = false) :
    pagesUpTo keep page n = pagesUpTo keep page m := by
  obtain ⟨k, rfl⟩ := Nat.exists_eq_add_of_le h
  induction k with
  | zero => rfl
  | succ k ih =>
      rw [← Nat.add_assoc, pagesUpTo_succ, ih (Nat.le_add_right m k)
        (fun i hi hlt => hnone i hi (by omega)), hnone (m + k) (by omega) (by omega)]
      exact List.append_nil _

theorem pagesUpTo_congr {keep keep' : Nat → Bool} {page page' : Nat → Page} {n : Nat}
    (hkeep : ∀ i < n, keep i = keep' i)
    (hpage : ∀ i < n, keep i = true → page i = page' i) :
    pagesUpTo keep page n = pagesUpTo keep' page' n := by
  induction n with
  | zero => rfl
  | succ n ih =>
      rw [pagesUpTo_succ, pagesUpTo_succ, ih (fun i hi => hkeep i (by omega))
        (fun i hi => hpage i (by omega)), ← hkeep n (by omega)]
      cases hk : keep n with
      | true => rw [if_pos rfl, if_pos rfl, hpage n (by omega) hk]
      | false => rfl

/-! ## Handing over a list -/

section Block

variable {σ : Type} {nand : NandFlashProtocol σ} {pools : UInt32 → Pool}

/-- One state of the scan becomes another by handing over these pages; the
device may be in any state. -/
structure HandsOver (pools : UInt32 → Pool) (st : ScanState σ) (pages : List Page)
    (st' : ScanState σ) : Prop where
  volume : replay pools st.volume pages = .ok st'.volume
  handed : st'.handed = st.handed ++ pages.map Page.call
  pageCount : st'.pageCount = st.pageCount + UInt32.ofNat pages.length
  headerCount : st'.headerCount
    = st.headerCount + UInt32.ofNat (pages.countP fun p => p.tags.isHeader)

theorem HandsOver.nil {st st' : ScanState σ} (hvol : st'.volume = st.volume)
    (hhanded : st'.handed = st.handed) (hpage : st'.pageCount = st.pageCount)
    (hheader : st'.headerCount = st.headerCount) : HandsOver pools st [] st' :=
  ⟨by rw [hvol]; rfl, by simpa using hhanded, by simpa using hpage,
    by simpa using hheader⟩

theorem replay_append {vol vol' : Yaffs2Volume} {pages pages' : List Page} :
    replay pools vol (pages ++ pages') = .ok vol' ↔
      ∃ v, replay pools vol pages = .ok v ∧ replay pools v pages' = .ok vol' := by
  rw [replay, List.foldlM_append]
  exact bind_eq_ok

theorem HandsOver.trans {st₁ st₂ st₃ : ScanState σ} {pages pages' : List Page}
    (h : HandsOver pools st₁ pages st₂) (h' : HandsOver pools st₂ pages' st₃) :
    HandsOver pools st₁ (pages ++ pages') st₃ where
  volume := replay_append.mpr ⟨_, h.volume, h'.volume⟩
  handed := by rw [h'.handed, h.handed, List.map_append, List.append_assoc]
  pageCount := by
    rw [h'.pageCount, h.pageCount, List.length_append, UInt32.ofNat_add, UInt32.add_assoc]
  headerCount := by
    rw [h'.headerCount, h.headerCount, List.countP_append, UInt32.ofNat_add,
      UInt32.add_assoc]

/-- The same pages leave the same volume, history and counters. -/
theorem HandsOver.unique {st st₁ st₂ : ScanState σ} {pages : List Page}
    (h₁ : HandsOver pools st pages st₁) (h₂ : HandsOver pools st pages st₂) :
    st₁.volume = st₂.volume ∧ st₁.handed = st₂.handed
      ∧ st₁.pageCount = st₂.pageCount ∧ st₁.headerCount = st₂.headerCount := by
  refine ⟨?_, by rw [h₁.handed, h₂.handed], by rw [h₁.pageCount, h₂.pageCount],
    by rw [h₁.headerCount, h₂.headerCount]⟩
  have := h₁.volume.symm.trans h₂.volume
  exact Except.ok.inj this

/-- Hand over one page, with its counters, leaving the device in state `n`:
the common end of a round of either path. -/
def ScanState.handPage (pools : UInt32 → Pool) (st : ScanState σ) (n : σ) (p : Page) :
    Run (Flow (ScanState σ) (ScanState σ)) := do
  let vol ← p.call.apply (pools p.idx) st.volume
  .ok (.next ⟨n, vol, st.pageCount + 1,
    if p.tags.isHeader then st.headerCount + 1 else st.headerCount,
    st.handed ++ [p.call]⟩)

theorem ScanState.handPage_eq_ok {st : ScanState σ} {n : σ} {p : Page}
    {r : Flow (ScanState σ) (ScanState σ)} (h : st.handPage pools n p = .ok r) :
    ∃ st', r = .next st' ∧ HandsOver pools st [p] st' := by
  obtain ⟨vol, hrun, hr⟩ := bind_eq_ok.mp h
  refine ⟨_, (Except.ok.inj hr).symm, ?_, rfl, rfl, ?_⟩
  · rw [replay, List.foldlM_cons, hrun]
    rfl
  · cases hh : p.tags.isHeader <;> simp [hh]

/-- A page that a replay gets to is handed over without a fault. -/
theorem ScanState.handPage_total {st s : ScanState σ} {pages rest : List Page} {p : Page}
    {vol : Yaffs2Volume} (hs : HandsOver pools st pages s)
    (hpre : pages ++ [p] <+: rest) (h : replay pools st.volume rest = .ok vol) (n : σ) :
    ∃ r, s.handPage pools n p = .ok r := by
  obtain ⟨tail, rfl⟩ := hpre
  obtain ⟨v, hv, -⟩ := replay_append.mp h
  obtain ⟨v', hv', hp⟩ := replay_append.mp hv
  obtain rfl : s.volume = v' := Except.ok.inj (hs.volume.symm.trans hv')
  rw [replay, List.foldlM_cons] at hp
  obtain ⟨v'', hp, -⟩ := bind_eq_ok.mp hp
  exact ⟨_, by rw [ScanState.handPage, hp]; rfl⟩

/-! ## The content of a block -/

/-- The tag words and the data of each page of a block. -/
structure BlockContent where
  tags : Nat → RawTags
  data : Nat → PageData

/-- Reads of the block at `base` succeed and return its content: a body read
right after the tags of a page returns that page. -/
structure ReadsBlock (nand : NandFlashProtocol σ) (base : UInt32) (c : BlockContent) :
    Prop where
  tags : ∀ i < nand.pagesPerBlock.toNat, ∀ n, ∃ n' n'',
    nand.readTags (base + UInt32.ofNat i) n = (.ok (c.tags i), n')
      ∧ nand.readPageBody n' = (.ok (c.data i), n'')
  page : ∀ i < nand.pagesPerBlock.toNat, ∀ n, ∃ n',
    nand.readPage (base + UInt32.ofNat i) n = (.ok (c.data i), n')

/-- Page `i` with its own tags. -/
def BlockContent.page (c : BlockContent) (base : UInt32) (i : Nat) : Page :=
  ⟨base + UInt32.ofNat i, c.tags i, c.data i⟩

/-- Tags that either path would process. -/
def qualifies (raw : RawTags) : Bool :=
  seqInRange raw.word0 && !isPseudoObject (parseTagWords raw).objId

/-- The page-by-page path gets to page `i`. -/
def BlockContent.written (c : BlockContent) (i : Nat) : Bool :=
  decide (∀ j ≤ i, areTagsErased (c.tags j) = false)

/-- The pages the page-by-page path hands over. -/
def BlockContent.direct (c : BlockContent) (i : Nat) : Bool :=
  c.written i && qualifies (c.tags i)

theorem parseTagWords_seqNumber (raw : RawTags) :
    (parseTagWords raw).seqNumber = raw.word0 := by
  unfold parseTagWords
  split <;> rfl

/-! ## The page-by-page path -/

/-- The pages selected so far, when every page so far is written. -/
def DirectUpTo (pools : UInt32 → Pool) (c : BlockContent) (base : UInt32)
    (st : ScanState σ) (j : Nat) (s : ScanState σ) : Prop :=
  (∀ k < j, areTagsErased (c.tags k) = false)
    ∧ HandsOver pools st (pagesUpTo c.direct (c.page base) j) s

variable (pools) in
/-- One round of the page loop. -/
theorem scanPage_eq {c : BlockContent} {base : UInt32} (hreads : ReadsBlock nand base c)
    {j : Nat} (hj : j < nand.pagesPerBlock.toNat) (s : ScanState σ) :
    ∃ n, scanPage nand pools base j s =
      if areTagsErased (c.tags j) then .ok (.exit (s.device n))
      else if qualifies (c.tags j) then s.handPage pools n (c.page base j)
      else .ok (.next (s.device n)) := by
  obtain ⟨n, n', htags, hbody⟩ := hreads.tags j hj s.nand
  unfold scanPage
  simp only [htags, parseTagWords_seqNumber, ScanState.device]
  by_cases herased : areTagsErased (c.tags j) = true
  · exact ⟨n, by simp only [herased, if_true]⟩
  · by_cases hq : qualifies (c.tags j) = true
    · obtain ⟨hseq, hobj⟩ : seqInRange (c.tags j).word0 = true
          ∧ isPseudoObject (parseTagWords (c.tags j)).objId = false := by
        simpa [qualifies] using hq
      simp only [herased, hq, hseq, hobj, Bool.not_true, Bool.false_eq_true, if_false,
        if_true, ScanState.handPage, ScanState.hand]
      by_cases hheader : (parseTagWords (c.tags j)).isHeader = true
      · have hih : (c.page base j).tags.isHeader = true := hheader
        have hcall : (c.page base j).call = .header (parseTagWords (c.tags j))
            (c.data j) (base + UInt32.ofNat j) := if_pos hheader
        refine ⟨n', ?_⟩
        simp only [hheader, if_true, hbody, hih, hcall, bind_assoc, ok_bind]
        rfl
      · have hih : ¬(c.page base j).tags.isHeader = true := hheader
        have hcall : (c.page base j).call = .chunk (parseTagWords (c.tags j))
            (base + UInt32.ofNat j) := if_neg hheader
        refine ⟨n, ?_⟩
        simp only [hheader, Bool.false_eq_true, if_false, hih, hcall, bind_assoc, ok_bind]
        rfl
    · refine ⟨n, ?_⟩
      simp only [herased, hq, Bool.false_eq_true, if_false]
      by_cases hseq : seqInRange (c.tags j).word0 = true
      · have hobj : isPseudoObject (parseTagWords (c.tags j)).objId = true := by
          simpa [qualifies, hseq] using hq
        simp only [hseq, hobj, Bool.not_true, Bool.false_eq_true, if_false, if_true]
      · simp only [hseq, Bool.not_false, if_true]

/-- The first erased page ends the selection. -/
theorem BlockContent.direct_eq_false {c : BlockContent} {i j : Nat} (hij : j ≤ i)
    (h : areTagsErased (c.tags j) = true) : c.direct i = false := by
  simp only [BlockContent.direct, BlockContent.written, Bool.and_eq_false_iff,
    decide_eq_false_iff_not]
  left
  intro hall
  rw [hall j hij] at h
  cases h

/-- What a round leaves, given that it ends. -/
theorem scanPage_hands {c : BlockContent} {base : UInt32} (hreads : ReadsBlock nand base c)
    {st s : ScanState σ} {j : Nat} {r : Flow (ScanState σ) (ScanState σ)}
    (hj : j < nand.pagesPerBlock.toNat) (hs : DirectUpTo pools c base st j s)
    (h : scanPage nand pools base j s = .ok r) :
    r.Post (DirectUpTo pools c base st (j + 1))
      (HandsOver pools st (pagesUpTo c.direct (c.page base) nand.pagesPerBlock.toNat)) := by
  obtain ⟨hwritten, hhands⟩ := hs
  obtain ⟨n, heq⟩ := scanPage_eq pools hreads hj s
  rw [heq] at h
  by_cases herased : areTagsErased (c.tags j) = true
  · rw [if_pos herased] at h
    obtain rfl := Except.ok.inj h
    rw [Flow.post_exit, pagesUpTo_stable _ (Nat.le_of_lt hj)
      fun i hi _ => BlockContent.direct_eq_false hi herased]
    exact ⟨hhands.volume, hhands.handed, hhands.pageCount, hhands.headerCount⟩
  · have hwritten' : ∀ k < j + 1, areTagsErased (c.tags k) = false := by
      intro k hk
      rcases Nat.lt_succ_iff_lt_or_eq.mp hk with hlt | rfl
      · exact hwritten k hlt
      · simpa using herased
    have hdirect : c.direct j = qualifies (c.tags j) := by
      have hall : c.written j = true := by
        simpa [BlockContent.written] using fun k hk => hwritten' k (by omega)
      rw [BlockContent.direct, hall, Bool.true_and]
    rw [if_neg herased] at h
    by_cases hq : qualifies (c.tags j) = true
    · rw [if_pos hq] at h
      obtain ⟨s', rfl, hone⟩ := ScanState.handPage_eq_ok h
      refine ⟨hwritten', ?_⟩
      rw [pagesUpTo_succ, hdirect, if_pos hq]
      exact hhands.trans hone
    · rw [if_neg hq] at h
      obtain rfl := Except.ok.inj h
      refine ⟨hwritten', ?_⟩
      rw [pagesUpTo_succ, hdirect, if_neg hq, List.append_nil]
      exact ⟨hhands.volume, hhands.handed, hhands.pageCount, hhands.headerCount⟩

/-- The page-by-page path hands over the pages it selects. -/
theorem scanBlockPageByPage_hands {block : UInt32} {c : BlockContent}
    (hreads : ReadsBlock nand (block * nand.pagesPerBlock) c) {st st' : ScanState σ}
    (h : scanBlockPageByPage nand pools block st = .ok st') :
    HandsOver pools st (pagesUpTo c.direct (c.page (block * nand.pagesPerBlock))
      nand.pagesPerBlock.toNat) st' := by
  obtain ⟨r, hloop, h⟩ := bind_eq_ok.mp h
  obtain rfl := Except.ok.inj h
  have hpost := forFrom_post
    (I := DirectUpTo pools c (block * nand.pagesPerBlock) st)
    (fun j s r _ hj hs hbody => scanPage_hands hreads (by omega) hs hbody)
    ⟨fun k hk => absurd hk (Nat.not_lt_zero k), .nil rfl rfl rfl rfl⟩ hloop
  rw [Nat.zero_add] at hpost
  cases r with
  | next s => exact hpost.2
  | exit s => exact hpost

/-- It does not fault when the volume can take these pages. -/
theorem scanBlockPageByPage_total {block : UInt32} {c : BlockContent}
    (hreads : ReadsBlock nand (block * nand.pagesPerBlock) c) {st : ScanState σ}
    {vol : Yaffs2Volume}
    (h : replay pools st.volume (pagesUpTo c.direct
      (c.page (block * nand.pagesPerBlock)) nand.pagesPerBlock.toNat) = .ok vol) :
    ∃ st', scanBlockPageByPage nand pools block st = .ok st' := by
  have hround : ∀ j s, 0 ≤ j → j < 0 + nand.pagesPerBlock.toNat →
      DirectUpTo pools c (block * nand.pagesPerBlock) st j s →
      ∃ r, scanPage nand pools (block * nand.pagesPerBlock) j s = .ok r
        ∧ r.Post (DirectUpTo pools c (block * nand.pagesPerBlock) st (j + 1))
          (HandsOver pools st (pagesUpTo c.direct (c.page (block * nand.pagesPerBlock))
            nand.pagesPerBlock.toNat)) := by
    intro j s _ hj hs
    have hlt : j < nand.pagesPerBlock.toNat := by omega
    have hend : ∃ r, scanPage nand pools (block * nand.pagesPerBlock) j s = .ok r := by
      obtain ⟨n, heq⟩ := scanPage_eq pools hreads hlt s
      rw [heq]
      split
      · exact ⟨_, rfl⟩
      · rename_i herased
        split
        · rename_i hq
          refine ScanState.handPage_total hs.2 ?_ h n
          have hkeep : c.direct j = true := by
            simp only [BlockContent.direct, BlockContent.written, Bool.and_eq_true,
              decide_eq_true_eq]
            refine ⟨fun k hk => ?_, hq⟩
            rcases Nat.lt_or_eq_of_le hk with hlt | rfl
            · exact hs.1 k hlt
            · simpa using herased
          have hpre := pagesUpTo_prefix c.direct (c.page (block * nand.pagesPerBlock))
            (show j + 1 ≤ nand.pagesPerBlock.toNat by omega)
          rwa [pagesUpTo_succ, hkeep] at hpre
        · exact ⟨_, rfl⟩
    obtain ⟨r, hr⟩ := hend
    exact ⟨r, hr, scanPage_hands hreads hlt hs hr⟩
  obtain ⟨r, hloop, -⟩ := forFrom_total hround
    ⟨fun k hk => absurd hk (Nat.not_lt_zero k), .nil rfl rfl rfl rfl⟩
  exact ⟨r.state, by rw [scanBlockPageByPage, hloop]; rfl⟩

/-! ## The summary path -/

/-- The entries the copy keeps: those before the first all-ones one. -/
structure CopiedEntries (body : PageData) (n : Nat) (entries : List SummaryEntry) :
    Prop where
  get : ∀ i < entries.length, entries[i]? = some (summaryEntryAt body i)
  live : ∀ i < entries.length, summaryEntryAt body i ≠ .erased
  le : entries.length ≤ n
  stop : entries.length < n → summaryEntryAt body entries.length = .erased

theorem loadSummaryEntry_eq {body : PageData} {i : Nat} {e : SummaryEntry}
    (h : loadSummaryEntry body i = .ok e) : e = summaryEntryAt body i := by
  obtain ⟨objId, h₁, h⟩ := bind_eq_ok.mp h
  obtain ⟨chunkId, h₂, h⟩ := bind_eq_ok.mp h
  obtain ⟨nBytes, h₃, h⟩ := bind_eq_ok.mp h
  rw [← Except.ok.inj h, (PageData.load32_eq_ok.mp h₁).2, (PageData.load32_eq_ok.mp h₂).2,
    (PageData.load32_eq_ok.mp h₃).2]
  rfl

/-- One round of the copy. -/
theorem copyEntry_eq {body : PageData} {i : Nat} {store : List SummaryEntry}
    {r : Flow (List SummaryEntry) (List SummaryEntry)}
    (h : copyEntry body i store = .ok r) :
    (summaryEntryAt body i = .erased ∧ r = .exit store)
      ∨ (summaryEntryAt body i ≠ .erased
        ∧ r = .next (store ++ [summaryEntryAt body i])) := by
  obtain ⟨e, he, h⟩ := bind_eq_ok.mp h
  obtain rfl := loadSummaryEntry_eq he
  split at h
  · rename_i herased
    exact Or.inl ⟨herased, (Except.ok.inj h).symm⟩
  · rename_i hlive
    split at h
    · exact Or.inr ⟨hlive, (Except.ok.inj h).symm⟩
    · cases h

theorem copyEntries_copied {pagesPerBlock : UInt32} {body : PageData}
    {entries : List SummaryEntry} (h : copyEntries pagesPerBlock body = .ok entries) :
    CopiedEntries body (pagesPerBlock - 1).toNat entries := by
  obtain ⟨r, hloop, h⟩ := bind_eq_ok.mp h
  obtain rfl := Except.ok.inj h
  -- so far: every entry below `j`, all of them live
  have hpost := forFrom_post
    (I := fun j store => store.length = j
      ∧ (∀ i < j, store[i]? = some (summaryEntryAt body i))
      ∧ ∀ i < j, summaryEntryAt body i ≠ .erased)
    (E := CopiedEntries body (pagesPerBlock - 1).toNat)
    (fun j store r _ hj hstore hbody => by
      obtain ⟨hlen, hget, hlive⟩ := hstore
      rcases copyEntry_eq hbody with ⟨herased, rfl⟩ | ⟨hne, rfl⟩
      · refine ⟨fun i hi => hget i (by omega), fun i hi => hlive i (by omega), by omega,
          fun _ => by rw [hlen]; exact herased⟩
      · refine ⟨by simp [hlen], fun i hi => ?_, fun i hi => ?_⟩
        · rcases Nat.lt_succ_iff_lt_or_eq.mp hi with hlt | rfl
          · rw [List.getElem?_append_left (by omega)]
            exact hget i hlt
          · rw [← hlen, List.getElem?_concat_length]
        · rcases Nat.lt_succ_iff_lt_or_eq.mp hi with hlt | rfl
          · exact hlive i hlt
          · exact hne)
    ⟨rfl, by simp, by simp⟩ hloop
  cases r with
  | exit store => exact hpost
  | next store =>
      obtain ⟨hlen, hget, hlive⟩ := hpost
      rw [Nat.zero_add] at hlen hget hlive
      exact ⟨fun i hi => hget i (hlen ▸ hi), fun i hi => hlive i (hlen ▸ hi),
        Nat.le_of_eq hlen, fun hlt => absurd hlen (Nat.ne_of_lt hlt)⟩

/-- The summary path gets to entry `i`: it is one of the first `n`, and no
entry up to it is all ones. -/
def entryReached (body : PageData) (n i : Nat) : Bool :=
  decide (i < n ∧ ∀ j ≤ i, summaryEntryAt body j ≠ .erased)

theorem CopiedEntries.reached_iff {body : PageData} {n : Nat}
    {entries : List SummaryEntry} (h : CopiedEntries body n entries) (i : Nat) :
    entryReached body n i = true ↔ i < entries.length := by
  rw [entryReached, decide_eq_true_eq]
  constructor
  · rintro ⟨hi, hall⟩
    by_contra hge
    have hlt : entries.length < n := by omega
    exact hall entries.length (by omega) (h.stop hlt)
  · intro hi
    have hle := h.le
    exact ⟨by omega, fun j hj => h.live j (by omega)⟩

/-- The pages the summary path hands over. -/
def viaSummary (body : PageData) (n i : Nat) : Bool :=
  entryReached body n i
    && !isPseudoObject (unpackEntry (body.u32 8) (summaryEntryAt body i)).objId

/-- Page `i` with the tags its entry gives it. -/
def BlockContent.summaryPage (c : BlockContent) (base : UInt32) (body : PageData)
    (i : Nat) : Page :=
  entryPage (body.u32 8) (summaryEntryAt body i) (c.data i) (base + UInt32.ofNat i)

variable (pools) in
/-- One round of the entry loop. -/
theorem processEntry_eq {c : BlockContent} {base : UInt32}
    (hreads : ReadsBlock nand base c) {body : PageData} {entries : List SummaryEntry}
    {j : Nat} (hj : j < nand.pagesPerBlock.toNat)
    (hget : entries[j]? = some (summaryEntryAt body j)) (s : ScanState σ) :
    ∃ n, processEntry nand pools base (body.u32 8) entries j s =
      if isPseudoObject (unpackEntry (body.u32 8) (summaryEntryAt body j)).objId then
        .ok (.next s)
      else s.handPage pools n (c.summaryPage base body j) := by
  obtain ⟨n, hpage⟩ := hreads.page j hj s.nand
  unfold processEntry
  simp only [hget, ScanState.device]
  by_cases hobj :
      isPseudoObject (unpackEntry (body.u32 8) (summaryEntryAt body j)).objId = true
  · exact ⟨n, by simp only [hobj, if_true]⟩
  · simp only [hobj, Bool.false_eq_true, if_false, ScanState.handPage, ScanState.hand]
    by_cases hheader :
        (unpackEntry (body.u32 8) (summaryEntryAt body j)).isHeader = true
    · have hih : (c.summaryPage base body j).tags.isHeader = true := hheader
      have hcall : (c.summaryPage base body j).call
          = .header (unpackEntry (body.u32 8) (summaryEntryAt body j)) (c.data j)
            (base + UInt32.ofNat j) := if_pos hheader
      refine ⟨n, ?_⟩
      simp only [hheader, if_true, hpage, hih, hcall, bind_assoc, ok_bind]
      rfl
    · have hih : ¬(c.summaryPage base body j).tags.isHeader = true := hheader
      have hcall : (c.summaryPage base body j).call
          = .chunk (unpackEntry (body.u32 8) (summaryEntryAt body j))
            (base + UInt32.ofNat j) := if_neg hheader
      refine ⟨s.nand, ?_⟩
      simp only [hheader, Bool.false_eq_true, if_false, hih, hcall, bind_assoc, ok_bind]
      rfl

/-- The summary page of a block with `pagesPerBlock` pages. -/
abbrev lastPage (nand : NandFlashProtocol σ) : Nat := nand.pagesPerBlock.toNat - 1

theorem lastPage_ofNat (hppb : nand.pagesPerBlock ≠ 0) :
    UInt32.ofNat (lastPage nand) = nand.pagesPerBlock - 1
      ∧ (nand.pagesPerBlock - 1).toNat = lastPage nand
      ∧ lastPage nand < nand.pagesPerBlock.toNat := by
  have hpos : nand.pagesPerBlock.toNat ≠ 0 := fun h => hppb (UInt32.toNat_inj.mp h)
  have hsub : (nand.pagesPerBlock - 1).toNat = nand.pagesPerBlock.toNat - 1 := by
    rw [UInt32.toNat_sub_of_le _ _ (by
      rw [UInt32.le_iff_toNat_le]; simp only [UInt32.reduceToNat]; omega)]
    rfl
  refine ⟨?_, hsub, Nat.sub_lt (Nat.pos_of_ne_zero hpos) Nat.one_pos⟩
  rw [lastPage, ← hsub, UInt32.ofNat_toNat]

/-- What an accepted summary says about the content of its block. -/
structure AcceptedSummary (nand : NandFlashProtocol σ) (c : BlockContent)
    (blockSeq : UInt32) (entries : List SummaryEntry) : Prop where
  written : areTagsErased (c.tags (lastPage nand)) = false
  summary : isSummaryPage (c.tags (lastPage nand)) = true
  seq : blockSeq = (c.data (lastPage nand)).u32 8
  inRange : seqInRange blockSeq = true
  entries : CopiedEntries (c.data (lastPage nand)) (lastPage nand) entries

theorem readSummary_accepted {block : UInt32} {c : BlockContent}
    (hppb : nand.pagesPerBlock ≠ 0)
    (hreads : ReadsBlock nand (block * nand.pagesPerBlock) c) {n n' : σ}
    {blockSeq : UInt32} {entries : List SummaryEntry}
    (h : readSummary nand block n = .ok (some (blockSeq, entries), n')) :
    AcceptedSummary nand c blockSeq entries := by
  obtain ⟨hlast, hsub, hlt⟩ := lastPage_ofNat hppb
  obtain ⟨raw, n₁, body, htags, herased, hsummary, hbody, hcheck, hcopy⟩ :=
    readSummary_eq_some h
  obtain ⟨m, m', htags', hbody'⟩ := hreads.tags (lastPage nand) hlt n
  rw [hlast, htags] at htags'
  obtain ⟨hraw, rfl⟩ := Prod.mk.inj htags'
  obtain rfl := Except.ok.inj hraw
  rw [hbody] at hbody'
  obtain ⟨hdata, rfl⟩ := Prod.mk.inj hbody'
  obtain rfl := Except.ok.inj hdata
  obtain ⟨hseq, hrange⟩ := checkSummary_blockSeq hcheck
  have hcopied := copyEntries_copied hcopy
  rw [hsub] at hcopied
  exact ⟨herased, hsummary, hseq, hrange, hcopied⟩

/-- What a round of the entry loop leaves. -/
theorem processEntry_hands {c : BlockContent} {base : UInt32}
    (hreads : ReadsBlock nand base c) {body : PageData} {entries : List SummaryEntry}
    {n : Nat} (hcopied : CopiedEntries body n entries)
    (hn : n ≤ nand.pagesPerBlock.toNat) {st s : ScanState σ} {j : Nat}
    {r : Flow (ScanState σ) (ScanState σ)} (hj : j < entries.length)
    (hs : HandsOver pools st (pagesUpTo (viaSummary body n) (c.summaryPage base body) j) s)
    (h : processEntry nand pools base (body.u32 8) entries j s = .ok r) :
    r.Post (HandsOver pools st
      (pagesUpTo (viaSummary body n) (c.summaryPage base body) (j + 1)))
      (fun _ => False) := by
  have hle := hcopied.le
  obtain ⟨m, heq⟩ := processEntry_eq pools hreads
    (show j < nand.pagesPerBlock.toNat by omega) (hcopied.get j hj) s
  rw [heq] at h
  have hkeep : viaSummary body n j
      = !isPseudoObject (unpackEntry (body.u32 8) (summaryEntryAt body j)).objId := by
    rw [viaSummary, (hcopied.reached_iff j).mpr hj, Bool.true_and]
  by_cases hobj :
      isPseudoObject (unpackEntry (body.u32 8) (summaryEntryAt body j)).objId = true
  · rw [if_pos hobj] at h
    obtain rfl := Except.ok.inj h
    rw [Flow.post_next, pagesUpTo_succ, hkeep, hobj]
    simpa using hs
  · rw [if_neg hobj] at h
    obtain ⟨s', rfl, hone⟩ := ScanState.handPage_eq_ok h
    rw [Flow.post_next, pagesUpTo_succ, hkeep, if_pos (by simpa using hobj)]
    exact hs.trans hone

/-- When the summary path goes through, it hands over the pages its entries
select. -/
theorem scanBlockViaSummary_hands {block : UInt32} {c : BlockContent}
    (hppb : nand.pagesPerBlock ≠ 0)
    (hreads : ReadsBlock nand (block * nand.pagesPerBlock) c) {st st' : ScanState σ}
    (h : scanBlockViaSummary nand pools block st = .ok (true, st')) :
    ∃ entries,
      AcceptedSummary nand c ((c.data (lastPage nand)).u32 8) entries
        ∧ HandsOver pools st
          (pagesUpTo (viaSummary (c.data (lastPage nand)) (lastPage nand))
            (c.summaryPage (block * nand.pagesPerBlock) (c.data (lastPage nand)))
            (lastPage nand)) st' := by
  obtain ⟨⟨summary, n⟩, hread, h⟩ := bind_eq_ok.mp h
  cases summary with
  | none => cases (Prod.mk.inj (Except.ok.inj h)).1
  | some summary =>
      obtain ⟨blockSeq, entries⟩ := summary
      have haccepted := readSummary_accepted hppb hreads hread
      have hcopied := haccepted.entries
      obtain rfl := haccepted.seq
      obtain ⟨r, hloop, h⟩ := bind_eq_ok.mp h
      obtain ⟨-, rfl⟩ := Prod.mk.inj (Except.ok.inj h)
      refine ⟨entries, haccepted, ?_⟩
      have hstart : HandsOver pools st (pagesUpTo
          (viaSummary (c.data (lastPage nand)) (lastPage nand))
          (c.summaryPage (block * nand.pagesPerBlock) (c.data (lastPage nand))) 0)
          (st.device n) := .nil rfl rfl rfl rfl
      have hpost := forFrom_post
        (I := fun j s => HandsOver pools st (pagesUpTo
          (viaSummary (c.data (lastPage nand)) (lastPage nand))
          (c.summaryPage (block * nand.pagesPerBlock) (c.data (lastPage nand))) j) s)
        (fun j s r _ hj hs hround => processEntry_hands hreads hcopied
          (Nat.le_of_lt (lastPage_ofNat hppb).2.2) (by omega) hs hround)
        hstart hloop
      cases r with
      | exit s => exact hpost.elim
      | next s =>
          rw [Flow.post_next, Nat.zero_add] at hpost
          have hnone : ∀ i, entries.length ≤ i → i < lastPage nand →
              viaSummary (c.data (lastPage nand)) (lastPage nand) i = false := by
            intro i hi _
            have hnot : ¬entryReached (c.data (lastPage nand)) (lastPage nand) i = true :=
              fun hr => absurd ((hcopied.reached_iff i).mp hr) (by omega)
            rw [viaSummary, Bool.eq_false_iff.mpr hnot, Bool.false_and]
          rw [pagesUpTo_stable _ hcopied.le hnone]
          exact hpost

end Block

/-! ## A stored block -/

/-- A device with one block, whose reads return its content. -/
def storedNand (pagesPerBlock : UInt32) (c : BlockContent) : NandFlashProtocol UInt32 where
  pagesPerBlock := pagesPerBlock
  numBlocks := 1
  readPage := fun page _ => (.ok (c.data page.toNat), page)
  readTags := fun page _ => (.ok (c.tags page.toNat), page)
  readPageBody := fun page => (.ok (c.data page.toNat), page)

theorem storedNand_reads (pagesPerBlock : UInt32) (c : BlockContent) :
    ReadsBlock (storedNand pagesPerBlock c) (0 * pagesPerBlock) c := by
  have hidx : ∀ i < pagesPerBlock.toNat, (0 * pagesPerBlock + UInt32.ofNat i).toNat = i := by
    intro i hi
    have hlt := pagesPerBlock.toNat_lt
    rw [UInt32.zero_mul, UInt32.zero_add, UInt32.toNat_ofNat_of_lt' (Nat.lt_trans hi hlt)]
  constructor
  · intro i hi n
    refine ⟨0 * pagesPerBlock + UInt32.ofNat i, 0 * pagesPerBlock + UInt32.ofNat i, ?_, ?_⟩
    · simp only [storedNand, hidx i hi]
    · simp only [storedNand, hidx i hi]
  · intro i hi n
    refine ⟨0 * pagesPerBlock + UInt32.ofNat i, ?_⟩
    simp only [storedNand, hidx i hi]

end Ccr2004
