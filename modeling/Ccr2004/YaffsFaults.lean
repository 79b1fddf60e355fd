import Ccr2004.YaffsReplays
import Ccr2004.YaffsSummary

/-!
# The scan on a device with unreadable pages

`FlashContent` is what a device returns, page by page, with `none` where its
reads fail; `DeviceHolds` says that a device returns it. Both ways through a
block are then fixed by the content: `scanBlockPageByPage_replays` and
`scanBlockViaSummary_replays` give the pages each hands over, and
`scanBlock_replays` the `Selection` of a round of the block loop.
-/

namespace Ccr2004

/-! ## What a device returns -/

/-- The tag words and the data of every page; `none` where a read fails. -/
structure FlashContent where
  tags : UInt32 → Option RawTags
  body : UInt32 → Option PageData

/-- The outcome of a read of something that is `v`, or cannot be read. -/
def ReadsAs {σ α : Type} (v : Option α) (r : Except EfiStatus α × σ) : Prop :=
  match v with
  | none => ∃ e, r.1 = .error e
  | some a => r.1 = .ok a

/-- A device returns this content in any state, numbers its pages in 32 bits,
and reads a body right after the tags of its page from that page. -/
structure DeviceHolds {σ : Type} (nand : NandFlashProtocol σ) (c : FlashContent) : Prop where
  tags : ∀ page n, ReadsAs (c.tags page) (nand.readTags page n)
  body : ∀ page n, (c.tags page).isSome = true →
    ReadsAs (c.body page) (nand.readPageBody (nand.readTags page n).2)
  page : ∀ page n, ReadsAs (c.body page) (nand.readPage page n)
  pagesPerBlock : nand.pagesPerBlock ≠ 0
  numbered : nand.numBlocks.toNat * nand.pagesPerBlock.toNat ≤ 2 ^ 32

/-- The page cannot be read or is erased: the test of the block loop and of
the page loop. -/
def FlashContent.stops (c : FlashContent) (page : UInt32) : Bool :=
  match c.tags page with
  | none => true
  | some raw => areTagsErased raw

/-- Tags that qualify, and a body that can be read when they are a header's. -/
def FlashContent.usable (c : FlashContent) (page : UInt32) (tags : Yaffs2Tags) : Bool :=
  !isPseudoObject tags.objId && (!tags.isHeader || (c.body page).isSome)

/-- A readable, valid page of a real object. -/
def FlashContent.counts (c : FlashContent) (page : UInt32) : Bool :=
  match c.tags page with
  | none => false
  | some raw => seqInRange raw.word0 && c.usable page (parseTagWords raw)

/-- A page under the given tag words. -/
def FlashContent.pageAs (c : FlashContent) (page : UInt32) (raw : RawTags) : Page :=
  ⟨page, raw, (c.body page).getD fun _ => 0⟩

/-- The tag words of a page; those of an unreadable one are not used. -/
def FlashContent.rawAt (c : FlashContent) (page : UInt32) : RawTags :=
  (c.tags page).getD ⟨0, 0, 0, 0⟩

/-- A page under its own tag words. -/
def FlashContent.pageAt (c : FlashContent) (page : UInt32) : Page :=
  c.pageAs page (c.rawAt page)

theorem FlashContent.pageAs_call_iff (c : FlashContent) (page : UInt32) (raw raw' : RawTags) :
    (c.pageAs page raw).call = (c.pageAs page raw').call
      ↔ parseTagWords raw = parseTagWords raw' := by
  constructor
  · intro h
    have htags := congrArg PageCall.tags h
    rwa [Page.call_tags, Page.call_tags] at htags
  · intro h
    unfold Page.call Page.tags FlashContent.pageAs
    rw [h]

section Scan

variable {σ : Type} {nand : NandFlashProtocol σ} {pools : UInt32 → Pool}
variable {c : FlashContent}

theorem readsAs_some {α : Type} {a : α} {r : Except EfiStatus α × σ} :
    ReadsAs (some a) r ↔ r.1 = .ok a := Iff.rfl

theorem readsAs_none {α : Type} {r : Except EfiStatus α × σ} :
    ReadsAs none r ↔ ∃ e, r.1 = .error e := Iff.rfl

/-! ## One page -/

variable (pools) in
/-- The common end of a round of either path: a header's body is read and the
header handed over when that succeeds, a data page is handed over as it is. -/
theorem handRead_replays {page : UInt32} {r : Except EfiStatus PageData × σ}
    {st s : ScanState σ} (hvol : s.volume = st.volume) (hhanded : s.handed = st.handed)
    (raw : RawTags) :
    ReadsAs (c.body page) r → Replays pools st
      (if !(parseTagWords raw).isHeader || (c.body page).isSome then [c.pageAs page raw]
        else []) Flow.next
      (if (parseTagWords raw).isHeader then
        match r with
        | (.error _, n) => .ok (.next (s.device n))
        | (.ok body, n) => do
            let s := { s.device n with headerCount := s.headerCount + 1 }
            let s ← s.hand pools (.header (parseTagWords raw) body page)
            .ok (.next s)
      else do
        let s ← s.hand pools (.chunk (parseTagWords raw) page)
        .ok (.next s) : Run (Flow (ScanState σ) (ScanState σ))) := by
  intro hread
  obtain ⟨r, n⟩ := r
  cases hheader : (parseTagWords raw).isHeader with
  | false =>
      rw [if_neg Bool.false_ne_true, Bool.not_false, Bool.true_or, if_pos rfl]
      exact .hand (if_neg (by rw [Page.tags, FlashContent.pageAs, hheader]; simp))
        hvol hhanded _
  | true =>
      rw [if_pos rfl, Bool.not_true, Bool.false_or]
      cases hbody : c.body page with
      | none =>
          rw [hbody, readsAs_none] at hread
          obtain ⟨e, he⟩ := hread
          obtain rfl : r = .error e := he
          exact .of_same rfl hvol hhanded
      | some body =>
          rw [hbody, readsAs_some] at hread
          obtain rfl : r = .ok body := hread
          have hcall : (c.pageAs page raw).call
              = .header (parseTagWords raw) body page := by
            rw [Page.call, Page.tags, FlashContent.pageAs, hbody]
            exact if_pos hheader
          rw [Option.isSome_some, if_pos rfl]
          exact Replays.hand (s := { s.device n with headerCount := s.headerCount + 1 })
            hcall hvol hhanded _

/-- A round of the page loop. -/
theorem scanPage_replays (h : DeviceHolds nand c) (base : UInt32) (j : Nat)
    (s : ScanState σ) :
    if c.stops (base + UInt32.ofNat j) then
      Replays pools s [] .exit (scanPage nand pools base j s)
    else
      Replays pools s (if c.counts (base + UInt32.ofNat j)
        then [c.pageAt (base + UInt32.ofNat j)] else []) .next
        (scanPage nand pools base j s) := by
  have htags := h.tags (base + UInt32.ofNat j) s.nand
  have hbody := h.body (base + UInt32.ofNat j) s.nand
  unfold scanPage FlashContent.stops FlashContent.counts FlashContent.pageAt
    FlashContent.rawAt
  rcases hread : nand.readTags (base + UInt32.ofNat j) s.nand with ⟨r, n⟩
  rw [hread] at htags hbody
  simp only [hread]
  cases hc : c.tags (base + UInt32.ofNat j) with
  | none =>
      rw [hc, readsAs_none] at htags
      obtain ⟨e, he⟩ := htags
      obtain rfl : r = .error e := he
      show Replays pools s [] Flow.exit _
      exact .of_same rfl rfl rfl
  | some raw =>
      rw [hc, readsAs_some] at htags
      obtain rfl : r = .ok raw := htags
      simp only [Option.getD_some, parseTagWords_seqNumber, FlashContent.usable]
      by_cases herased : areTagsErased raw = true
      · rw [if_pos herased, if_pos herased]
        exact .of_same rfl rfl rfl
      · rw [if_neg herased, if_neg herased]
        by_cases hseq : seqInRange raw.word0 = true
        · by_cases hobj : isPseudoObject (parseTagWords raw).objId = true
          · simp only [hseq, hobj, Bool.not_true, Bool.false_and, Bool.and_false,
              Bool.false_eq_true, if_false, if_true]
            exact .of_same rfl rfl rfl
          · simp only [hseq, hobj, Bool.not_true, Bool.not_false, Bool.true_and,
              Bool.false_eq_true, if_false]
            exact handRead_replays pools (s := { s.device n with pageCount := s.pageCount + 1 })
              rfl rfl raw (hbody (by rw [hc]; rfl))
        · simp only [hseq, Bool.not_false, Bool.false_and, Bool.false_eq_true, if_false,
            if_true]
          exact .of_same rfl rfl rfl

/-! ## The page-by-page path -/

/-- Every page of the block up to page `i` is readable and written. -/
def FlashContent.reaches (c : FlashContent) (base : UInt32) (i : Nat) : Bool :=
  !leavesBefore (fun j => c.stops (base + UInt32.ofNat j)) (i + 1)

theorem FlashContent.reaches_iff {base : UInt32} {i : Nat} :
    c.reaches base i = true ↔ ∀ j ≤ i, c.stops (base + UInt32.ofNat j) = false := by
  rw [FlashContent.reaches, Bool.not_eq_true', leavesBefore_eq_false]
  exact ⟨fun h j hj => h j (Nat.lt_succ_of_le hj), fun h j hj => h j (Nat.le_of_lt_succ hj)⟩

theorem scanBlockPageByPage_replays (h : DeviceHolds nand c) (block : UInt32)
    (s : ScanState σ) :
    Replays pools s
      (pagesUpTo (fun i => c.reaches (block * nand.pagesPerBlock) i
          && c.counts (block * nand.pagesPerBlock + UInt32.ofNat i))
        (fun i => c.pageAt (block * nand.pagesPerBlock + UInt32.ofNat i))
        nand.pagesPerBlock.toNat) id
      (scanBlockPageByPage nand pools block s) := by
  have hrounds : RoundReplays pools
      (fun j => c.stops (block * nand.pagesPerBlock + UInt32.ofNat j))
      (fun j => if c.counts (block * nand.pagesPerBlock + UInt32.ofNat j)
        then [c.pageAt (block * nand.pagesPerBlock + UInt32.ofNat j)] else [])
      (scanPage nand pools (block * nand.pagesPerBlock)) nand.pagesPerBlock.toNat :=
    fun j _ s => scanPage_replays h (block * nand.pagesPerBlock) j s
  have hloop := forFrom_replays hrounds s
  rw [roundPages_eq_pagesUpTo] at hloop
  exact hloop.map fun st' => by split <;> rfl

/-! ## The summary path -/

/-- The summary of a block, as `readSummary` takes it from the content. -/
def FlashContent.summary (c : FlashContent) (nand : NandFlashProtocol σ) (block : UInt32) :
    Run (Option (UInt32 × List SummaryEntry)) :=
  let summaryPage := block * nand.pagesPerBlock + (nand.pagesPerBlock - 1)
  match c.tags summaryPage, c.body summaryPage with
  | some raw, some body =>
      if areTagsErased raw || !isSummaryPage raw then .ok none
      else do
        match ← checkSummary nand.pagesPerBlock body with
        | none => .ok none
        | some blockSeq => do
            let entries ← copyEntries nand.pagesPerBlock body
            .ok (some (blockSeq, entries))
  | _, _ => .ok none

theorem readSummary_summary (h : DeviceHolds nand c) (block : UInt32) (n : σ) :
    ∃ n', readSummary nand block n = (c.summary nand block >>= fun s => .ok (s, n')) := by
  have htags := h.tags (block * nand.pagesPerBlock + (nand.pagesPerBlock - 1)) n
  have hbody := h.body (block * nand.pagesPerBlock + (nand.pagesPerBlock - 1)) n
  unfold readSummary FlashContent.summary
  rcases hread : nand.readTags (block * nand.pagesPerBlock + (nand.pagesPerBlock - 1)) n
    with ⟨r, n₁⟩
  rw [hread] at htags hbody
  simp only [hread]
  cases hc : c.tags (block * nand.pagesPerBlock + (nand.pagesPerBlock - 1)) with
  | none =>
      rw [hc, readsAs_none] at htags
      obtain ⟨e, he⟩ := htags
      obtain rfl : r = .error e := he
      exact ⟨n₁, rfl⟩
  | some raw =>
      rw [hc, readsAs_some] at htags
      obtain rfl : r = .ok raw := htags
      replace hbody := hbody (by rw [hc]; rfl)
      rcases hread' : nand.readPageBody n₁ with ⟨r', n₂⟩
      simp only [hread'] at hbody ⊢
      by_cases herased : areTagsErased raw = true
      · refine ⟨n₁, ?_⟩
        rw [if_pos herased]
        cases c.body (block * nand.pagesPerBlock + (nand.pagesPerBlock - 1)) with
        | none => rfl
        | some body => simp only [herased, Bool.true_or, if_true, ok_bind]
      · rw [if_neg herased]
        by_cases hsummary : isSummaryPage raw = true
        · rw [if_neg (by simp [hsummary])]
          cases hb : c.body (block * nand.pagesPerBlock + (nand.pagesPerBlock - 1)) with
          | none =>
              rw [hb, readsAs_none] at hbody
              obtain ⟨e, he⟩ := hbody
              obtain rfl : r' = .error e := he
              exact ⟨n₂, rfl⟩
          | some body =>
              rw [hb, readsAs_some] at hbody
              obtain rfl : r' = .ok body := hbody
              refine ⟨n₂, ?_⟩
              simp only [herased, hsummary, Bool.not_true, Bool.or_self,
                Bool.false_eq_true, if_false, bind_assoc]
              refine congrArg _ (funext fun check => ?_)
              cases check with
              | none => rfl
              | some blockSeq => simp only [bind_assoc, ok_bind]
        · refine ⟨n₁, ?_⟩
          rw [if_pos (by simpa using hsummary)]
          cases c.body (block * nand.pagesPerBlock + (nand.pagesPerBlock - 1)) with
          | none => rfl
          | some body =>
              simp only [hsummary, Bool.not_false, Bool.or_true, if_true, ok_bind]

/-- The tag words entry `i` stands for. -/
def entryRaw (blockSeq : UInt32) (entries : List SummaryEntry) (i : Nat) : RawTags :=
  let e := entries[i]?.getD .zero
  ⟨blockSeq, e.objId, e.chunkId, e.nBytes⟩

/-- The summary path hands page `i` over: there is an entry for it, of a real
object, and its body can be read when the entry is a header's. -/
def FlashContent.listed (c : FlashContent) (base blockSeq : UInt32)
    (entries : List SummaryEntry) (i : Nat) : Bool :=
  decide (i < entries.length)
    && c.usable (base + UInt32.ofNat i) (parseTagWords (entryRaw blockSeq entries i))

theorem listed_eq_false {base blockSeq : UInt32} {entries : List SummaryEntry} {i : Nat}
    (hi : entries.length ≤ i) : c.listed base blockSeq entries i = false := by
  rw [FlashContent.listed, decide_eq_false (Nat.not_lt_of_le hi), Bool.false_and]

theorem processEntry_replays (h : DeviceHolds nand c) (base blockSeq : UInt32)
    {entries : List SummaryEntry} {i : Nat} (hi : i < entries.length) (s : ScanState σ) :
    Replays pools s
      (if c.listed base blockSeq entries i
        then [c.pageAs (base + UInt32.ofNat i) (entryRaw blockSeq entries i)] else []) .next
      (processEntry nand pools base blockSeq entries i s) := by
  have hread := h.page (base + UInt32.ofNat i) s.nand
  have hget : entries[i]? = some entries[i] := List.getElem?_eq_getElem hi
  have hraw : parseTagWords (entryRaw blockSeq entries i)
      = unpackEntry blockSeq entries[i] := by
    rw [entryRaw, hget]
    rfl
  unfold processEntry
  simp only [hget, FlashContent.listed, FlashContent.usable, hi, decide_true, Bool.true_and]
  by_cases hobj : isPseudoObject (unpackEntry blockSeq entries[i]).objId = true
  · simp only [hraw, hobj, Bool.not_true, Bool.false_and, Bool.false_eq_true, if_false,
      if_true]
    exact .of_same rfl rfl rfl
  · have hend := handRead_replays pools (s := { s with pageCount := s.pageCount + 1 })
      (show _ = s.volume from rfl) rfl (entryRaw blockSeq entries i) hread
    rw [hraw] at hend
    simp only [hraw, hobj, Bool.not_false, Bool.true_and, Bool.false_eq_true, if_false]
    exact hend

/-- A summary has no entry for the page it is on. -/
theorem summary_length {block blockSeq : UInt32} {entries : List SummaryEntry}
    (hppb : nand.pagesPerBlock ≠ 0)
    (h : c.summary nand block = .ok (some (blockSeq, entries))) :
    entries.length < nand.pagesPerBlock.toNat := by
  unfold FlashContent.summary at h
  simp only at h
  split at h
  · split at h
    · cases Except.ok.inj h
    · obtain ⟨check, -, h⟩ := bind_eq_ok.mp h
      cases check with
      | none => cases Except.ok.inj h
      | some seq =>
          obtain ⟨copied, hcopy, h⟩ := bind_eq_ok.mp h
          obtain ⟨-, rfl⟩ := Prod.mk.inj (Option.some.inj (Except.ok.inj h))
          have hle := (copyEntries_copied hcopy).le
          obtain ⟨-, hsub, hlt⟩ := lastPage_ofNat hppb
          omega
  · cases Except.ok.inj h

variable (pools) in
/-- The way through a block whose summary is accepted. -/
theorem scanBlockViaSummary_replays (h : DeviceHolds nand c) {block blockSeq : UInt32}
    {entries : List SummaryEntry}
    (hsummary : c.summary nand block = .ok (some (blockSeq, entries))) (s : ScanState σ) :
    Replays pools s
      (pagesUpTo (c.listed (block * nand.pagesPerBlock) blockSeq entries)
        (fun i => c.pageAs (block * nand.pagesPerBlock + UInt32.ofNat i)
          (entryRaw blockSeq entries i)) entries.length) (true, ·)
      (scanBlockViaSummary nand pools block s) := by
  obtain ⟨n, hread⟩ := readSummary_summary h block s.nand
  have hrounds : RoundReplays pools (fun _ => false)
      (fun i => if c.listed (block * nand.pagesPerBlock) blockSeq entries i
        then [c.pageAs (block * nand.pagesPerBlock + UInt32.ofNat i)
          (entryRaw blockSeq entries i)] else [])
      (processEntry nand pools (block * nand.pagesPerBlock) blockSeq entries)
      entries.length :=
    fun i hi s => processEntry_replays h _ _ hi s
  have hnone : ∀ n, leavesBefore (fun _ => false) n = false := fun n =>
    leavesBefore_eq_false.mpr fun _ _ => rfl
  have hloop := forFrom_replays hrounds (s.device n)
  simp only [roundPages_eq_pagesUpTo, hnone, Bool.not_false, Bool.true_and] at hloop
  rw [scanBlockViaSummary, hread, hsummary, ok_bind, ok_bind]
  exact hloop.map fun _ => rfl

/-! ## One block -/

/-- What the scan hands over of a block: which pages, and under which tag
words. -/
structure Selection where
  keep : Nat → Bool
  raw : Nat → RawTags

/-- The selection a block's content leads to. -/
def FlashContent.selection (c : FlashContent) (nand : NandFlashProtocol σ)
    (block : UInt32) : Run Selection :=
  let base := block * nand.pagesPerBlock
  let own := fun i => c.rawAt (base + UInt32.ofNat i)
  if c.stops base then .ok ⟨fun _ => false, own⟩
  else do
    match ← c.summary nand block with
    | none =>
        .ok ⟨fun i => c.reaches base i && c.counts (base + UInt32.ofNat i), own⟩
    | some (blockSeq, entries) =>
        .ok ⟨c.listed base blockSeq entries, entryRaw blockSeq entries⟩

/-- The pages of a selection. -/
def FlashContent.select (c : FlashContent) (nand : NandFlashProtocol σ) (block : UInt32)
    (sel : Selection) : List Page :=
  pagesUpTo sel.keep
    (fun i => c.pageAs (block * nand.pagesPerBlock + UInt32.ofNat i) (sel.raw i))
    nand.pagesPerBlock.toNat

/-- The readable, valid pages of real objects in a block. -/
def FlashContent.readable (c : FlashContent) (nand : NandFlashProtocol σ)
    (block : UInt32) : List Page :=
  pagesUpTo (fun i => c.counts (block * nand.pagesPerBlock + UInt32.ofNat i))
    (fun i => c.pageAt (block * nand.pagesPerBlock + UInt32.ofNat i))
    nand.pagesPerBlock.toNat

variable (pools) in
/-- A block whose first page cannot be read or is erased is passed over. -/
theorem scanBlock_probe (h : DeviceHolds nand c) (b : Nat) (s : ScanState σ) :
    ∃ n, scanBlock nand pools b s =
      if c.stops (UInt32.ofNat b * nand.pagesPerBlock) then .ok (.next (s.device n))
      else (do
        let (done, st) ← scanBlockViaSummary nand pools (UInt32.ofNat b) (s.device n)
        if done then .ok (.next st)
        else do
          let st ← scanBlockPageByPage nand pools (UInt32.ofNat b) st
          .ok (.next st)) := by
  have htags := h.tags (UInt32.ofNat b * nand.pagesPerBlock) s.nand
  unfold scanBlock FlashContent.stops
  rcases hread : nand.readTags (UInt32.ofNat b * nand.pagesPerBlock) s.nand with ⟨r, n⟩
  rw [hread] at htags
  simp only [hread]
  refine ⟨n, ?_⟩
  cases hc : c.tags (UInt32.ofNat b * nand.pagesPerBlock) with
  | none =>
      rw [hc, readsAs_none] at htags
      obtain ⟨e, he⟩ := htags
      obtain rfl : r = .error e := he
      rfl
  | some raw =>
      rw [hc, readsAs_some] at htags
      obtain rfl : r = .ok raw := htags
      rfl

theorem scanBlock_replays (h : DeviceHolds nand c) {b : Nat} {sel : Selection}
    (hsel : c.selection nand (UInt32.ofNat b) = .ok sel) (s : ScanState σ) :
    Replays pools s (c.select nand (UInt32.ofNat b) sel) .next
      (scanBlock nand pools b s) := by
  obtain ⟨n, hprobe⟩ := scanBlock_probe pools h b s
  rw [hprobe]
  unfold FlashContent.selection at hsel
  simp only at hsel
  by_cases hstop : c.stops (UInt32.ofNat b * nand.pagesPerBlock) = true
  · rw [if_pos hstop] at hsel ⊢
    obtain rfl := Except.ok.inj hsel
    have hnil : c.select nand (UInt32.ofNat b) ⟨fun _ => false, fun i =>
        c.rawAt (UInt32.ofNat b * nand.pagesPerBlock + UInt32.ofNat i)⟩ = [] :=
      pagesUpTo_stable _ (Nat.zero_le _) fun _ _ _ => rfl
    rw [hnil]
    exact .of_same rfl rfl rfl
  · rw [if_neg hstop] at hsel ⊢
    obtain ⟨summary, hsummary, hsel⟩ := bind_eq_ok.mp hsel
    cases summary with
    | none =>
        obtain rfl := Except.ok.inj hsel
        obtain ⟨n', hread⟩ := readSummary_summary h (UInt32.ofNat b) n
        have hvia : scanBlockViaSummary nand pools (UInt32.ofNat b) (s.device n)
            = .ok (false, s.device n') := by
          rw [scanBlockViaSummary]
          change (readSummary nand (UInt32.ofNat b) n >>= _) = _
          rw [hread, hsummary]
          rfl
        rw [hvia, ok_bind]
        exact (scanBlockPageByPage_replays h (UInt32.ofNat b) (s.device n')).map
          fun _ => rfl
    | some summary =>
        obtain ⟨blockSeq, entries⟩ := summary
        obtain rfl := Except.ok.inj hsel
        have hlt := summary_length h.pagesPerBlock hsummary
        have hvia := scanBlockViaSummary_replays pools h hsummary (s.device n)
        have hselect : c.select nand (UInt32.ofNat b)
              ⟨c.listed (UInt32.ofNat b * nand.pagesPerBlock) blockSeq entries,
                entryRaw blockSeq entries⟩
            = pagesUpTo (c.listed (UInt32.ofNat b * nand.pagesPerBlock) blockSeq entries)
              (fun i => c.pageAs (UInt32.ofNat b * nand.pagesPerBlock + UInt32.ofNat i)
                (entryRaw blockSeq entries i)) entries.length :=
          pagesUpTo_stable _ (Nat.le_of_lt hlt) fun _ hi _ => listed_eq_false hi
        rw [hselect]
        exact hvia.map fun _ => rfl

/-- Where the summary cannot be taken from the content, the block faults. -/
theorem scanBlock_selects (h : DeviceHolds nand c) {b : Nat} {s : ScanState σ}
    {r : Flow (ScanState σ) (ScanState σ)} (hrun : scanBlock nand pools b s = .ok r) :
    ∃ sel, c.selection nand (UInt32.ofNat b) = .ok sel := by
  obtain ⟨n, hprobe⟩ := scanBlock_probe pools h b s
  unfold FlashContent.selection
  by_cases hstop : c.stops (UInt32.ofNat b * nand.pagesPerBlock) = true
  · exact ⟨_, if_pos hstop⟩
  · rw [hprobe, if_neg hstop] at hrun
    obtain ⟨⟨done, st⟩, hvia, -⟩ := bind_eq_ok.mp hrun
    obtain ⟨n', hread⟩ := readSummary_summary h (UInt32.ofNat b) n
    rw [scanBlockViaSummary] at hvia
    obtain ⟨⟨summary, m⟩, hsummary, -⟩ := bind_eq_ok.mp hvia
    rw [show (s.device n).nand = n from rfl, hread] at hsummary
    obtain ⟨summary', hsummary, -⟩ := bind_eq_ok.mp hsummary
    simp only [if_neg hstop, hsummary, ok_bind]
    cases summary' with
    | none => exact ⟨_, rfl⟩
    | some summary => exact ⟨_, rfl⟩

end Scan

end Ccr2004
