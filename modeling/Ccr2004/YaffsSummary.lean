import Ccr2004.YaffsBlock

/-!
# When a summary can replace the pages

The two paths of `YaffsBlock`, compared. `SummaryCovers` is the condition
under which the summary path processes every page it has to with the page's
own tags, and `SummaryAddsNothing` the one under which it processes no other;
together they make both paths hand over the same pages
(`selection_eq`). A faithful summary meets both
(`scanBlockViaSummary_refines`). The checks the code makes on a summary do
not imply them: `summary_processes_iff` says exactly what is missing, and
`summary_drops_page` shows a block that passes every check and loses a page.
-/

namespace Ccr2004

/-- The entry that repeats tag words 1..3. -/
def tagEntry (raw : RawTags) : SummaryEntry := ⟨raw.word1, raw.word2, raw.word3⟩

section Compare

variable {σ : Type} {nand : NandFlashProtocol σ} {pools : UInt32 → Pool}
variable (nand) (c : BlockContent)

/-- Entry `i` of the block's summary. -/
def BlockContent.entry (i : Nat) : SummaryEntry :=
  summaryEntryAt (c.data (lastPage nand)) i

/-- The `BlockSeq` of the block's summary. -/
def BlockContent.blockSeq : UInt32 := (c.data (lastPage nand)).u32 8

/-- Each entry is missing or agrees with the tags of its page. -/
def AgreesUnlessZero : Prop :=
  ∀ i < lastPage nand, c.entry nand i = .zero ∨ c.entry nand i = tagEntry (c.tags i)

/-- Every page the scan has to process is summarised: it has an entry, no
entry up to it ends the copy, and its sequence number is the summary's. -/
def SummaryCovers : Prop :=
  ∀ i < lastPage nand, qualifies (c.tags i) = true →
    c.entry nand i ≠ .zero ∧ (∀ j ≤ i, c.entry nand j ≠ .erased)
      ∧ (c.tags i).word0 = c.blockSeq nand

/-- No page to process comes after an erased one, and no entry belongs to a
page of a real object whose own sequence number is out of range. -/
structure SummaryAddsNothing : Prop where
  ordered : ∀ i < lastPage nand, qualifies (c.tags i) = true → c.written i = true
  dated : ∀ i, entryReached (c.data (lastPage nand)) (lastPage nand) i = true →
    c.entry nand i ≠ .zero → seqInRange (c.tags i).word0 = false →
    isPseudoObject (parseTagWords (c.tags i)).objId = true

variable {nand c}

/-! ## The selections -/

theorem parseTagWords_objId (seq : UInt32) (raw : RawTags) :
    (unpackEntry seq (tagEntry raw)).objId = (parseTagWords raw).objId := by
  unfold unpackEntry parseTagWords tagEntry
  simp only
  split <;> rfl

theorem unpackEntry_zero_pseudo (seq : UInt32) :
    isPseudoObject (unpackEntry seq .zero).objId = true := rfl

theorem summaryPage_eq {base : UInt32} {i : Nat}
    (hentry : c.entry nand i = tagEntry (c.tags i))
    (hseq : (c.tags i).word0 = c.blockSeq nand) :
    c.summaryPage base (c.data (lastPage nand)) i = c.page base i := by
  have hentry' : summaryEntryAt (c.data (lastPage nand)) i = tagEntry (c.tags i) := hentry
  have hseq' : (c.data (lastPage nand)).u32 8 = (c.tags i).word0 := hseq.symm
  rw [BlockContent.summaryPage, hentry', hseq']
  rfl

theorem direct_eq_true_iff {i : Nat} :
    c.direct i = true ↔ c.written i = true ∧ qualifies (c.tags i) = true := by
  rw [BlockContent.direct, Bool.and_eq_true]

theorem viaSummary_eq_true_iff {i : Nat} :
    viaSummary (c.data (lastPage nand)) (lastPage nand) i = true ↔
      entryReached (c.data (lastPage nand)) (lastPage nand) i = true
        ∧ isPseudoObject (unpackEntry (c.blockSeq nand) (c.entry nand i)).objId = false := by
  rw [viaSummary, Bool.and_eq_true, Bool.not_eq_true']
  rfl

theorem entryReached_iff {i : Nat} :
    entryReached (c.data (lastPage nand)) (lastPage nand) i = true ↔
      i < lastPage nand ∧ ∀ j ≤ i, c.entry nand j ≠ .erased := by
  rw [entryReached, decide_eq_true_eq]
  rfl

/-- The page loop skips the summary page itself. -/
theorem direct_lastPage (h : isSummaryPage (c.tags (lastPage nand)) = true) :
    c.direct (lastPage nand) = false := by
  have hobj : isPseudoObject (parseTagWords (c.tags (lastPage nand))).objId = true := by
    simp only [isSummaryPage, Bool.and_eq_true, beq_iff_eq] at h
    obtain ⟨⟨hid, hbit⟩, -⟩ := h
    simp [parseTagWords, hbit, isPseudoObject, hid]
  rw [BlockContent.direct, qualifies, hobj, Bool.not_true, Bool.and_false, Bool.and_false]

/-- A page that qualifies and is covered is selected by the summary path,
with its own tags. -/
theorem viaSummary_of_covered (hagree : AgreesUnlessZero nand c)
    (hcovers : SummaryCovers nand c) {i : Nat} (hi : i < lastPage nand)
    (hq : qualifies (c.tags i) = true) :
    viaSummary (c.data (lastPage nand)) (lastPage nand) i = true
      ∧ c.entry nand i = tagEntry (c.tags i) := by
  obtain ⟨hzero, hlive, -⟩ := hcovers i hi hq
  have hentry : c.entry nand i = tagEntry (c.tags i) := (hagree i hi).resolve_left hzero
  refine ⟨viaSummary_eq_true_iff.mpr ⟨entryReached_iff.mpr ⟨hi, hlive⟩, ?_⟩, hentry⟩
  rw [hentry, parseTagWords_objId]
  simp only [qualifies, Bool.and_eq_true, Bool.not_eq_true'] at hq
  exact hq.2

/-- Both paths select the same pages under the two conditions. -/
theorem selection_eq (hagree : AgreesUnlessZero nand c) (hcovers : SummaryCovers nand c)
    (hadds : SummaryAddsNothing nand c)
    (hsummary : isSummaryPage (c.tags (lastPage nand)) = true)
    (hppb : nand.pagesPerBlock ≠ 0) (base : UInt32) :
    pagesUpTo c.direct (c.page base) nand.pagesPerBlock.toNat
      = pagesUpTo (viaSummary (c.data (lastPage nand)) (lastPage nand))
        (c.summaryPage base (c.data (lastPage nand))) (lastPage nand) := by
  have hlt := (lastPage_ofNat hppb).2.2
  rw [pagesUpTo_stable _ (Nat.le_of_lt hlt) fun i hge hi => by
    have hlast : i = lastPage nand := by
      have : lastPage nand = nand.pagesPerBlock.toNat - 1 := rfl
      omega
    rw [hlast, direct_lastPage hsummary]]
  refine pagesUpTo_congr (fun i hi => ?_) fun i hi hkeep => ?_
  · rw [Bool.eq_iff_iff, direct_eq_true_iff]
    constructor
    · rintro ⟨-, hq⟩
      exact (viaSummary_of_covered hagree hcovers hi hq).1
    · intro hvia
      obtain ⟨hreached, hobj⟩ := viaSummary_eq_true_iff.mp hvia
      have hzero : c.entry nand i ≠ .zero := by
        intro hz
        rw [hz, unpackEntry_zero_pseudo] at hobj
        cases hobj
      rw [(hagree i hi).resolve_left hzero, parseTagWords_objId] at hobj
      have hseq : seqInRange (c.tags i).word0 = true := by
        by_contra hout
        have hpseudo := hadds.dated i hreached hzero (by simpa using hout)
        rw [hobj] at hpseudo
        cases hpseudo
      have hq : qualifies (c.tags i) = true := by simp [qualifies, hseq, hobj]
      exact ⟨hadds.ordered i hi hq, hq⟩
  · have hq := (direct_eq_true_iff.mp hkeep).2
    exact (summaryPage_eq (viaSummary_of_covered hagree hcovers hi hq).2
      (hcovers i hi hq).2.2).symm

/-- Both conditions make the page-by-page path end like the summary path. -/
theorem scanBlockPageByPage_same {block : UInt32} (hppb : nand.pagesPerBlock ≠ 0)
    (hreads : ReadsBlock nand (block * nand.pagesPerBlock) c)
    (hagree : AgreesUnlessZero nand c) (hcovers : SummaryCovers nand c)
    (hadds : SummaryAddsNothing nand c) {st st' : ScanState σ}
    (h : scanBlockViaSummary nand pools block st = .ok (true, st')) :
    ∃ st'', scanBlockPageByPage nand pools block st = .ok st''
      ∧ st''.volume = st'.volume ∧ st''.handed = st'.handed
      ∧ st''.pageCount = st'.pageCount ∧ st''.headerCount = st'.headerCount := by
  obtain ⟨entries, haccepted, hhands⟩ := scanBlockViaSummary_hands hppb hreads h
  rw [← selection_eq hagree hcovers hadds haccepted.summary hppb] at hhands
  obtain ⟨st'', hrun⟩ := scanBlockPageByPage_total hreads hhands.volume
  exact ⟨st'', hrun, (scanBlockPageByPage_hands hreads hrun).unique hhands⟩

/-! ## Faithful summaries -/

variable (nand c) in
/-- A summary that repeats the tags of a well-written block: erased pages
only at the end, no written page with all-ones words 1..3, one sequence
number. -/
structure FaithfulSummary : Prop where
  entries : ∀ i < lastPage nand, c.entry nand i = tagEntry (c.tags i)
  tail : ∀ i j, i ≤ j → j < lastPage nand → areTagsErased (c.tags i) = true →
    areTagsErased (c.tags j) = true
  words : ∀ i < lastPage nand, tagEntry (c.tags i) = .erased →
    areTagsErased (c.tags i) = true
  seq : ∀ i < lastPage nand, areTagsErased (c.tags i) = false →
    (c.tags i).word0 = c.blockSeq nand

theorem qualifies_written {raw : RawTags} (h : qualifies raw = true) :
    areTagsErased raw = false := by
  rw [Bool.eq_false_iff]
  intro herased
  simp only [areTagsErased, Bool.and_eq_true, beq_iff_eq] at herased
  rw [qualifies, herased.1.1.1] at h
  cases h

theorem FaithfulSummary.written (h : FaithfulSummary nand c) {i : Nat}
    (hi : i < lastPage nand) (hq : qualifies (c.tags i) = true) :
    ∀ j ≤ i, areTagsErased (c.tags j) = false := by
  intro j hj
  rw [Bool.eq_false_iff]
  intro herased
  have := h.tail j i hj hi herased
  rw [qualifies_written hq] at this
  cases this

theorem FaithfulSummary.covers (h : FaithfulSummary nand c) : SummaryCovers nand c := by
  intro i hi hq
  have hwritten := h.written hi hq
  refine ⟨fun hzero => ?_, fun j hj herased => ?_,
    h.seq i hi (hwritten i (Nat.le_refl i))⟩
  · -- an all-zero entry would be of object 0
    have hobj := parseTagWords_objId (c.blockSeq nand) (c.tags i)
    rw [← h.entries i hi, hzero] at hobj
    simp only [qualifies, ← hobj, unpackEntry_zero_pseudo, Bool.not_true,
      Bool.and_false] at hq
    cases hq
  · rw [h.entries j (by omega)] at herased
    have := h.words j (by omega) herased
    rw [hwritten j hj] at this
    cases this

theorem FaithfulSummary.addsNothing (h : FaithfulSummary nand c)
    (hrange : seqInRange (c.blockSeq nand) = true) : SummaryAddsNothing nand c where
  ordered := fun i hi hq => by
    simpa [BlockContent.written] using h.written hi hq
  dated := fun i hreached _ hout => by
    obtain ⟨hi, hlive⟩ := entryReached_iff.mp hreached
    have hwritten : areTagsErased (c.tags i) = false := by
      rw [Bool.eq_false_iff]
      intro herased
      simp only [areTagsErased, Bool.and_eq_true, beq_iff_eq] at herased
      obtain ⟨⟨⟨-, h1⟩, h2⟩, h3⟩ := herased
      refine hlive i (Nat.le_refl i) ?_
      rw [h.entries i hi, tagEntry, h1, h2, h3]
      rfl
    rw [h.seq i hi hwritten, hrange] at hout
    cases hout

/-- On a block whose summary is faithful the summary path leaves the
volume, the history and the counters of the page-by-page path. -/
theorem scanBlockViaSummary_refines {block : UInt32} (hppb : nand.pagesPerBlock ≠ 0)
    (hreads : ReadsBlock nand (block * nand.pagesPerBlock) c)
    (hfaithful : FaithfulSummary nand c) {st st' : ScanState σ}
    (h : scanBlockViaSummary nand pools block st = .ok (true, st')) :
    ∃ st'', scanBlockPageByPage nand pools block st = .ok st''
      ∧ st''.volume = st'.volume ∧ st''.handed = st'.handed
      ∧ st''.pageCount = st'.pageCount ∧ st''.headerCount = st'.headerCount := by
  obtain ⟨entries, haccepted, -⟩ := scanBlockViaSummary_hands hppb hreads h
  exact scanBlockPageByPage_same hppb hreads (fun i hi => Or.inr (hfaithful.entries i hi))
    hfaithful.covers (hfaithful.addsNothing haccepted.inRange) h

/-! ## What the checks leave open -/

variable (nand c) in
/-- Every page the scan has to process was handed over with its own tags. -/
def ProcessedOwn (base : UInt32) (st st' : ScanState σ) : Prop :=
  ∀ i < lastPage nand, qualifies (c.tags i) = true →
    ∃ calls, st'.handed = st.handed ++ calls ∧ (c.page base i).call ∈ calls

theorem base_add_injOn {base : UInt32} {i j : Nat} (hi : i < 2 ^ 32) (hj : j < 2 ^ 32)
    (h : base + UInt32.ofNat i = base + UInt32.ofNat j) : i = j := by
  have heq := congrArg UInt32.toNat (UInt32.add_right_inj base |>.mp h)
  rw [UInt32.toNat_ofNat_of_lt' hi, UInt32.toNat_ofNat_of_lt' hj] at heq
  exact heq

theorem lastPage_lt (nand : NandFlashProtocol σ) : lastPage nand < 2 ^ 32 := by
  have := nand.pagesPerBlock.toNat_lt
  have hle : lastPage nand ≤ nand.pagesPerBlock.toNat := Nat.sub_le _ 1
  omega

/-- A call for page `i` of the block in a selection of its pages is the
selected page `i`. -/
theorem call_mem_pagesUpTo {keep : Nat → Bool} {page : Nat → Page} {base : UInt32}
    (hidx : ∀ j, (page j).idx = base + UInt32.ofNat j) {n i : Nat} (hn : n ≤ 2 ^ 32)
    (hi : i < 2 ^ 32) {call : PageCall} (hcall : call.page = base + UInt32.ofNat i)
    (hmem : call ∈ (pagesUpTo keep page n).map Page.call) :
    keep i = true ∧ (page i).call = call := by
  obtain ⟨p, hp, rfl⟩ := List.mem_map.mp hmem
  obtain ⟨j, hj, hkeep, rfl⟩ := mem_pagesUpTo.mp hp
  rw [Page.call_page, hidx] at hcall
  obtain rfl := base_add_injOn (by omega) hi hcall
  exact ⟨hkeep, rfl⟩

theorem call_mem_of_keep {keep : Nat → Bool} {page : Nat → Page} {n i : Nat}
    (hi : i < n) (hkeep : keep i = true) :
    (page i).call ∈ (pagesUpTo keep page n).map Page.call :=
  List.mem_map.mpr ⟨page i, mem_pagesUpTo.mpr ⟨i, hi, hkeep, rfl⟩, rfl⟩

/-- The summary path processes what it has to exactly when the summary
covers it. -/
theorem processedOwn_iff {base : UInt32} (hagree : AgreesUnlessZero nand c)
    {st st' : ScanState σ}
    (hhands : HandsOver pools st
      (pagesUpTo (viaSummary (c.data (lastPage nand)) (lastPage nand))
        (c.summaryPage base (c.data (lastPage nand))) (lastPage nand)) st') :
    ProcessedOwn nand c base st st' ↔ SummaryCovers nand c := by
  have hlt := lastPage_lt nand
  constructor
  · intro h i hi hq
    obtain ⟨calls, hcalls, hmem⟩ := h i hi hq
    obtain rfl := List.append_cancel_left (hcalls.symm.trans hhands.handed)
    obtain ⟨hvia, hcall⟩ := call_mem_pagesUpTo (i := i) (fun _ => rfl) (Nat.le_of_lt hlt)
      (by omega) (Page.call_page _) hmem
    obtain ⟨hreached, hobj⟩ := viaSummary_eq_true_iff.mp hvia
    refine ⟨fun hzero => ?_, (entryReached_iff.mp hreached).2, ?_⟩
    · rw [hzero, unpackEntry_zero_pseudo] at hobj
      cases hobj
    · have htags := congrArg (fun call => call.tags.seqNumber) hcall
      simp only [Page.call_tags] at htags
      have hown : (c.page base i).tags.seqNumber = (c.tags i).word0 :=
        parseTagWords_seqNumber _
      rw [← hown, ← htags]
      exact unpackEntry_seqNumber _ _
  · intro h i hi hq
    obtain ⟨hvia, hentry⟩ := viaSummary_of_covered hagree h hi hq
    refine ⟨_, hhands.handed, ?_⟩
    have hpage : c.summaryPage base (c.data (lastPage nand)) i = c.page base i :=
      summaryPage_eq hentry (h i hi hq).2.2
    rw [← hpage]
    exact call_mem_of_keep hi hvia

/-- When the page-by-page path makes the same calls, the summary adds
nothing. -/
theorem addsNothing_of_handed {base : UInt32} (hagree : AgreesUnlessZero nand c)
    (hcovers : SummaryCovers nand c) {st st' st'' : ScanState σ}
    (hhands : HandsOver pools st
      (pagesUpTo (viaSummary (c.data (lastPage nand)) (lastPage nand))
        (c.summaryPage base (c.data (lastPage nand))) (lastPage nand)) st')
    (hdirect : HandsOver pools st
      (pagesUpTo c.direct (c.page base) nand.pagesPerBlock.toNat) st'')
    (hsame : st''.handed = st'.handed) : SummaryAddsNothing nand c := by
  have hlt := lastPage_lt nand
  rw [hhands.handed, hdirect.handed] at hsame
  have hcalls := List.append_cancel_left hsame
  have hback : ∀ i < lastPage nand,
      viaSummary (c.data (lastPage nand)) (lastPage nand) i = true → c.direct i = true := by
    intro i hi hvia
    have hmem : (c.summaryPage base (c.data (lastPage nand)) i).call ∈
        (pagesUpTo (viaSummary (c.data (lastPage nand)) (lastPage nand))
          (c.summaryPage base (c.data (lastPage nand))) (lastPage nand)).map Page.call :=
      call_mem_of_keep hi hvia
    rw [← hcalls] at hmem
    exact (call_mem_pagesUpTo (i := i) (fun _ => rfl)
      (Nat.le_of_lt nand.pagesPerBlock.toNat_lt) (by omega) (Page.call_page _) hmem).1
  refine ⟨fun i hi hq => ?_, fun i hreached hzero hout => ?_⟩
  · have hvia := (viaSummary_of_covered hagree hcovers hi hq).1
    exact (direct_eq_true_iff.mp (hback i hi hvia)).1
  · by_contra hobj
    have hi := (entryReached_iff.mp hreached).1
    have hvia : viaSummary (c.data (lastPage nand)) (lastPage nand) i = true := by
      refine viaSummary_eq_true_iff.mpr ⟨hreached, ?_⟩
      rw [(hagree i hi).resolve_left hzero, parseTagWords_objId]
      simpa using hobj
    have hq := (direct_eq_true_iff.mp (hback i hi hvia)).2
    simp [qualifies, hout] at hq

/-- A summary that passes every check and agrees with its pages where it has
entries: it makes the scan process every page with its own tags exactly when
it covers them, and makes it end as the page-by-page path would, call by
call, exactly when in addition it adds nothing. -/
theorem summary_processes_iff {block : UInt32} (hppb : nand.pagesPerBlock ≠ 0)
    (hreads : ReadsBlock nand (block * nand.pagesPerBlock) c)
    (hagree : AgreesUnlessZero nand c) {st st' : ScanState σ}
    (h : scanBlockViaSummary nand pools block st = .ok (true, st')) :
    (ProcessedOwn nand c (block * nand.pagesPerBlock) st st' ↔ SummaryCovers nand c)
      ∧ ((ProcessedOwn nand c (block * nand.pagesPerBlock) st st'
          ∧ ∃ st'', scanBlockPageByPage nand pools block st = .ok st''
            ∧ st''.handed = st'.handed ∧ st''.volume = st'.volume)
        ↔ SummaryCovers nand c ∧ SummaryAddsNothing nand c) := by
  obtain ⟨entries, -, hhands⟩ := scanBlockViaSummary_hands hppb hreads h
  have hown := processedOwn_iff hagree hhands
  refine ⟨hown, ?_, ?_⟩
  · rintro ⟨hprocessed, st'', hrun, hhanded, -⟩
    have hcovers := hown.mp hprocessed
    exact ⟨hcovers, addsNothing_of_handed hagree hcovers hhands
      (scanBlockPageByPage_hands hreads hrun) hhanded⟩
  · rintro ⟨hcovers, hadds⟩
    obtain ⟨st'', hrun, hvol, hhanded, -⟩ :=
      scanBlockPageByPage_same hppb hreads hagree hcovers hadds h
    exact ⟨hown.mpr hcovers, st'', hrun, hhanded, hvol⟩

end Compare

/-! ## A block of three pages -/

/-- The body of a summary page: version, block, sequence number, checksum
and the entries. -/
def summaryData (blockSeq : UInt32) (entries : List SummaryEntry) : PageData :=
  let body := entries.flatMap fun e =>
    leBytes 4 e.objId.toNat ++ leBytes 4 e.chunkId.toNat ++ leBytes 4 e.nBytes.toNat
  let sum := (body.map UInt8.toNat).sum
  let bytes := leBytes 4 1 ++ leBytes 4 0 ++ leBytes 4 blockSeq.toNat ++ leBytes 4 sum ++ body
  fun i => bytes.getD i 0

/-- Data pages of two objects, then a summary with the given entries. -/
def twoObjects (entries : List SummaryEntry) : BlockContent where
  tags := fun i => [⟨0x1000, 0x101, 1, 2032⟩, ⟨0x1000, 0x102, 1, 2032⟩,
    ⟨0x1000, 0x10, 1, 40⟩].getD i ⟨0, 0, 0, 0⟩
  data := fun i => if i = 2 then summaryData 0x1000 entries else fun _ => 0

def faithfulBlock : BlockContent := twoObjects [⟨0x101, 1, 2032⟩, ⟨0x102, 1, 2032⟩]

/-- The second entry is missing. -/
def staleBlock : BlockContent := twoObjects [⟨0x101, 1, 2032⟩, .zero]

def emptyScan : ScanState UInt32 := ⟨0, .empty, 0, 0, []⟩

theorem scanBlockViaSummary_refines_faithfulBlock :
    ∃ st' st'',
      scanBlockViaSummary (storedNand 3 faithfulBlock) noFailure 0 emptyScan
          = .ok (true, st')
        ∧ scanBlockPageByPage (storedNand 3 faithfulBlock) noFailure 0 emptyScan = .ok st''
        ∧ st''.volume = st'.volume ∧ st'.pageCount = 2 := by
  obtain ⟨st', hrun, hcount⟩ : ∃ st',
      scanBlockViaSummary (storedNand 3 faithfulBlock) noFailure 0 emptyScan
        = .ok (true, st') ∧ st'.pageCount = 2 := ⟨_, rfl, rfl⟩
  have hwritten : ∀ i < 2, areTagsErased (faithfulBlock.tags i) = false := by decide
  have hfaithful : FaithfulSummary (storedNand 3 faithfulBlock) faithfulBlock :=
    { entries := by decide
      tail := fun i j hij hj h => by
        rw [hwritten i (Nat.lt_of_le_of_lt hij hj)] at h
        cases h
      words := by decide
      seq := by decide }
  obtain ⟨st'', hdirect, hvol, -⟩ := scanBlockViaSummary_refines (by decide)
    (storedNand_reads 3 faithfulBlock) hfaithful hrun
  exact ⟨st', st'', hrun, hdirect, hvol, hcount⟩

theorem summary_processes_iff_staleBlock :
    ∃ st', scanBlockViaSummary (storedNand 3 staleBlock) noFailure 0 emptyScan
        = .ok (true, st')
      ∧ (ProcessedOwn (storedNand 3 staleBlock) staleBlock (0 * 3) emptyScan st'
        ↔ SummaryCovers (storedNand 3 staleBlock) staleBlock) := by
  obtain ⟨st', hrun⟩ : ∃ st',
      scanBlockViaSummary (storedNand 3 staleBlock) noFailure 0 emptyScan
        = .ok (true, st') := ⟨_, rfl⟩
  exact ⟨st', hrun, (summary_processes_iff (by decide) (storedNand_reads 3 staleBlock)
    (by decide +kernel : ∀ i < 2, staleBlock.entry (storedNand 3 staleBlock) i = .zero
      ∨ staleBlock.entry (storedNand 3 staleBlock) i = tagEntry (staleBlock.tags i))
    hrun).1⟩

/-- The block passes every check of the summary path and its one missing
entry loses an object: page 1 qualifies and is never processed. -/
theorem summary_drops_page :
    ∃ st' st'',
      scanBlockViaSummary (storedNand 3 staleBlock) noFailure 0 emptyScan = .ok (true, st')
        ∧ scanBlockPageByPage (storedNand 3 staleBlock) noFailure 0 emptyScan = .ok st''
        ∧ AgreesUnlessZero (storedNand 3 staleBlock) staleBlock
        ∧ qualifies (staleBlock.tags 1) = true
        ∧ ¬ProcessedOwn (storedNand 3 staleBlock) staleBlock (0 * 3) emptyScan st'
        ∧ st'.volume.object? 0x102 = none
        ∧ (st''.volume.object? 0x102).isSome = true := by
  obtain ⟨st', hrun, hnone⟩ : ∃ st',
      scanBlockViaSummary (storedNand 3 staleBlock) noFailure 0 emptyScan
        = .ok (true, st') ∧ st'.volume.object? 0x102 = none := ⟨_, rfl, rfl⟩
  obtain ⟨st'', hdirect, hsome⟩ : ∃ st'',
      scanBlockPageByPage (storedNand 3 staleBlock) noFailure 0 emptyScan = .ok st''
        ∧ (st''.volume.object? 0x102).isSome = true := ⟨_, rfl, rfl⟩
  have hagree : AgreesUnlessZero (storedNand 3 staleBlock) staleBlock :=
    (by decide +kernel : ∀ i < 2, staleBlock.entry (storedNand 3 staleBlock) i = .zero
      ∨ staleBlock.entry (storedNand 3 staleBlock) i = tagEntry (staleBlock.tags i))
  obtain ⟨entries, -, hhands⟩ := scanBlockViaSummary_hands (by decide)
    (storedNand_reads 3 staleBlock) hrun
  refine ⟨st', st'', hrun, hdirect, hagree, by decide, fun hprocessed => ?_, hnone, hsome⟩
  have hcovers := (processedOwn_iff hagree hhands).mp hprocessed 1 (by decide) (by decide)
  exact hcovers.1 (by decide +kernel)

end Ccr2004
