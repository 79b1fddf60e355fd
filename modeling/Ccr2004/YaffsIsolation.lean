import Ccr2004.YaffsFaults

/-!
# Are read failures isolated

The pages a scan has to process (`readablePages`) against the pages it gets
to. They differ where the scan gives a block up too early: at a first page
that cannot be read, or in the page loop at the first such page, in the same
branch as for an erased one. `BlockKept` is the condition on the content of a
block under which nothing is lost, and `scanBlocks_isolated` says that it is
exact.
-/

namespace Ccr2004

section Scan

variable {σ : Type} {nand : NandFlashProtocol σ} {pools : UInt32 → Pool}
variable {c : FlashContent}

/-! ## The selection against the readable pages -/

variable (nand c) in
/-- The scan of a block selects its readable, valid pages of real objects.
The first page of the block is readable and written unless there are none;
when the summary is not taken, none comes after an unreadable or an erased
page; when it is, its entries are those of exactly these pages. -/
def BlockKept (block : UInt32) : Prop :=
  let base := block * nand.pagesPerBlock
  let page := fun i => base + UInt32.ofNat i
  if c.stops base then ∀ i < nand.pagesPerBlock.toNat, c.counts (page i) = false
  else match c.summary nand block with
    | .error _ => False
    | .ok none => ∀ i < nand.pagesPerBlock.toNat, c.counts (page i) = true →
        ∀ j ≤ i, c.stops (page j) = false
    | .ok (some (blockSeq, entries)) => ∀ i < nand.pagesPerBlock.toNat,
        c.listed base blockSeq entries i = c.counts (page i)
          ∧ (c.counts (page i) = true → parseTagWords (entryRaw blockSeq entries i)
            = parseTagWords (c.rawAt (page i)))

/-- Two selections from the pages of one block make the same calls exactly
when they agree page by page. -/
theorem pagesUpTo_calls_iff {keep keep' : Nat → Bool} {page page' : Nat → Page}
    {base : UInt32} {n : Nat} (hn : n ≤ 2 ^ 32)
    (hidx : ∀ j, (page j).idx = base + UInt32.ofNat j)
    (hidx' : ∀ j, (page' j).idx = base + UInt32.ofNat j) :
    (pagesUpTo keep page n).map Page.call = (pagesUpTo keep' page' n).map Page.call
      ↔ ∀ i < n, keep i = keep' i ∧ (keep' i = true → (page i).call = (page' i).call) := by
  constructor
  · intro h i hi
    have hto : keep i = true → keep' i = true ∧ (page' i).call = (page i).call := by
      intro hkeep
      have hmem : (page i).call ∈ (pagesUpTo keep page n).map Page.call :=
        call_mem_of_keep hi hkeep
      rw [h] at hmem
      exact call_mem_pagesUpTo hidx' hn (Nat.lt_of_lt_of_le hi hn)
        (by rw [Page.call_page, hidx]) hmem
    have hfrom : keep' i = true → keep i = true ∧ (page i).call = (page' i).call := by
      intro hkeep
      have hmem : (page' i).call ∈ (pagesUpTo keep' page' n).map Page.call :=
        call_mem_of_keep hi hkeep
      rw [← h] at hmem
      exact call_mem_pagesUpTo hidx hn (Nat.lt_of_lt_of_le hi hn)
        (by rw [Page.call_page, hidx']) hmem
    exact ⟨Bool.eq_iff_iff.mpr ⟨fun hk => (hto hk).1, fun hk => (hfrom hk).1⟩,
      fun hk => (hfrom hk).2⟩
  · intro h
    induction n with
    | zero => rfl
    | succ n ih =>
        rw [pagesUpTo_succ, pagesUpTo_succ, List.map_append, List.map_append,
          ih (Nat.le_of_succ_le hn) fun i hi => h i (Nat.lt_succ_of_lt hi)]
        obtain ⟨hkeep, hcall⟩ := h n (Nat.lt_succ_self n)
        rw [hkeep]
        cases hk : keep' n with
        | false => rfl
        | true => rw [if_pos rfl, if_pos rfl, List.map_singleton, List.map_singleton, hcall hk]

theorem select_calls_iff (nand : NandFlashProtocol σ) (c : FlashContent) (block : UInt32)
    (sel : Selection) :
    (c.select nand block sel).map Page.call = (c.readable nand block).map Page.call
      ↔ ∀ i < nand.pagesPerBlock.toNat,
        sel.keep i = c.counts (block * nand.pagesPerBlock + UInt32.ofNat i)
          ∧ (c.counts (block * nand.pagesPerBlock + UInt32.ofNat i) = true →
            parseTagWords (sel.raw i)
              = parseTagWords (c.rawAt (block * nand.pagesPerBlock + UInt32.ofNat i))) := by
  rw [FlashContent.select, FlashContent.readable,
    pagesUpTo_calls_iff (Nat.le_of_lt nand.pagesPerBlock.toNat_lt) (fun _ => rfl)
      fun _ => rfl]
  simp only [FlashContent.pageAt, FlashContent.pageAs_call_iff]

/-- A block is kept exactly when the scan selects its readable pages. -/
theorem blockKept_iff (nand : NandFlashProtocol σ) (c : FlashContent) (block : UInt32) :
    BlockKept nand c block ↔ ∃ sel, c.selection nand block = .ok sel
      ∧ (c.select nand block sel).map Page.call = (c.readable nand block).map Page.call := by
  unfold BlockKept FlashContent.selection
  simp only [select_calls_iff]
  by_cases hstop : c.stops (block * nand.pagesPerBlock) = true
  · rw [if_pos hstop, if_pos hstop]
    simp only [Except.ok.injEq, exists_eq_left', implies_true, and_true,
      eq_comm (a := false)]
  · rw [if_neg hstop, if_neg hstop]
    cases c.summary nand block with
    | error e => simp
    | ok summary =>
        cases summary with
        | none =>
            simp only [ok_bind, Except.ok.injEq, exists_eq_left', implies_true, and_true,
              Bool.and_eq_right_iff_imp, FlashContent.reaches_iff]
        | some summary =>
            simp only [ok_bind, Except.ok.injEq, exists_eq_left']

/-- Without a summary, and with erased pages only behind the last page that
counts, a block is kept exactly when no page that counts comes after one that
cannot be read. -/
theorem blockKept_iff_readable {block : UInt32} (hsummary : c.summary nand block = .ok none)
    (hlast : ∀ i j, i ≤ j → j < nand.pagesPerBlock.toNat →
      (c.tags (block * nand.pagesPerBlock + UInt32.ofNat i)).any areTagsErased = true →
      c.counts (block * nand.pagesPerBlock + UInt32.ofNat j) = false) :
    BlockKept nand c block ↔ ∀ i < nand.pagesPerBlock.toNat,
      c.counts (block * nand.pagesPerBlock + UInt32.ofNat i) = true →
      ∀ j ≤ i, (c.tags (block * nand.pagesPerBlock + UInt32.ofNat j)).isSome = true := by
  have hfirst : block * nand.pagesPerBlock + UInt32.ofNat 0 = block * nand.pagesPerBlock :=
    UInt32.add_zero _
  -- before a page that counts, only an unreadable page stops the scan
  have hstops : ∀ i < nand.pagesPerBlock.toNat, ∀ j ≤ i,
      c.counts (block * nand.pagesPerBlock + UInt32.ofNat i) = true →
      (c.stops (block * nand.pagesPerBlock + UInt32.ofNat j) = false ↔
        (c.tags (block * nand.pagesPerBlock + UInt32.ofNat j)).isSome = true) := by
    intro i hi j hj hcounts
    have herased := hlast j i hj hi
    rw [hcounts] at herased
    unfold FlashContent.stops
    cases htags : c.tags (block * nand.pagesPerBlock + UInt32.ofNat j) with
    | none => simp
    | some raw =>
        rw [htags] at herased
        simpa using herased
  unfold BlockKept
  simp only [hsummary]
  split
  · rename_i hstop
    constructor
    · intro hnone i hi hcounts
      rw [hnone i hi] at hcounts
      cases hcounts
    · intro hreadable i hi
      by_contra hcounts
      have hcounts := Bool.not_eq_false _ ▸ hcounts
      have hopen := (hstops i hi 0 (Nat.zero_le i) hcounts).mpr
        (hreadable i hi hcounts 0 (Nat.zero_le i))
      rw [hfirst, hstop] at hopen
      cases hopen
  · constructor
    · exact fun hkept i hi hcounts j hj =>
        (hstops i hi j hj hcounts).mp (hkept i hi hcounts j hj)
    · exact fun hreadable i hi hcounts j hj =>
        (hstops i hi j hj hcounts).mpr (hreadable i hi hcounts j hj)

/-! ## The block loop -/

/-- The pages a block hands over; none where its summary cannot be taken. -/
def FlashContent.scanned (c : FlashContent) (nand : NandFlashProtocol σ)
    (block : UInt32) : List Page :=
  match c.selection nand block with
  | .error _ => []
  | .ok sel => c.select nand block sel

theorem FlashContent.scanned_eq {block : UInt32} {sel : Selection}
    (h : c.selection nand block = .ok sel) :
    c.scanned nand block = c.select nand block sel := by
  rw [FlashContent.scanned, h]

variable (nand c) in
/-- Every readable, valid page of a real object, block by block. -/
def readablePages : List Page :=
  (List.range nand.numBlocks.toNat).flatMap fun b => c.readable nand (UInt32.ofNat b)

theorem scanBlocks_replays (h : DeviceHolds nand c)
    (hsel : ∀ b < nand.numBlocks.toNat, ∃ sel,
      c.selection nand (UInt32.ofNat b) = .ok sel) (s : ScanState σ) :
    Replays pools s
      ((List.range nand.numBlocks.toNat).flatMap fun b =>
        c.scanned nand (UInt32.ofNat b)) id (scanBlocks nand pools s) := by
  have hrounds : RoundReplays pools (fun _ => false)
      (fun b => c.scanned nand (UInt32.ofNat b)) (scanBlock nand pools)
      nand.numBlocks.toNat := by
    intro b hb s
    obtain ⟨sel, hsel⟩ := hsel b hb
    rw [if_neg Bool.false_ne_true]
    simp only [FlashContent.scanned_eq hsel]
    exact scanBlock_replays h hsel s
  have hloop := forFrom_replays hrounds s
  rw [roundPages_never] at hloop
  exact hloop.map fun st' => by split <;> rfl

/-- The block loop ends only when every block has a selection. -/
theorem scanBlocks_selects (h : DeviceHolds nand c) {s st' : ScanState σ}
    (hrun : scanBlocks nand pools s = .ok st') :
    ∀ b < nand.numBlocks.toNat, ∃ sel, c.selection nand (UInt32.ofNat b) = .ok sel := by
  obtain ⟨r, hloop, -⟩ := bind_eq_ok.mp hrun
  have hpost := forFrom_post
    (I := fun j _ => ∀ b < j, ∃ sel, c.selection nand (UInt32.ofNat b) = .ok sel)
    (E := fun _ => False)
    (fun j s r _ _ hj hround => by
      obtain ⟨sel, hsel⟩ := scanBlock_selects h hround
      have hreplays : Replays pools s _ Flow.next _ := scanBlock_replays h hsel s
      obtain ⟨st', rfl, -⟩ := hreplays.eq_ok hround
      intro b hb
      rcases Nat.lt_succ_iff_lt_or_eq.mp hb with hlt | rfl
      · exact hj b hlt
      · exact ⟨sel, hsel⟩)
    (fun b hb => absurd hb (Nat.not_lt_zero b)) hloop
  cases r with
  | exit s => exact hpost.elim
  | next s =>
      rw [Flow.post_next, Nat.zero_add] at hpost
      exact hpost

theorem page_toNat (h : DeviceHolds nand c) {b i : Nat} (hb : b < nand.numBlocks.toNat)
    (hi : i < nand.pagesPerBlock.toNat) :
    (UInt32.ofNat b * nand.pagesPerBlock + UInt32.ofNat i).toNat
      = b * nand.pagesPerBlock.toNat + i := by
  have hpage : b * nand.pagesPerBlock.toNat + i < 2 ^ 32 := by
    have hle : (b + 1) * nand.pagesPerBlock.toNat
        ≤ nand.numBlocks.toNat * nand.pagesPerBlock.toNat := Nat.mul_le_mul_right _ hb
    have hnumbered := h.numbered
    rw [Nat.succ_mul] at hle
    omega
  have hb32 : b < 2 ^ 32 := Nat.lt_trans hb nand.numBlocks.toNat_lt
  have hi32 : i < 2 ^ 32 := Nat.lt_trans hi nand.pagesPerBlock.toNat_lt
  rw [UInt32.toNat_add, UInt32.toNat_mul, UInt32.toNat_ofNat_of_lt' hb32,
    UInt32.toNat_ofNat_of_lt' hi32, Nat.mod_add_mod, Nat.mod_eq_of_lt hpage]

/-- A call for a page of block `b` tells the block. -/
theorem pagesUpTo_block (h : DeviceHolds nand c) {b : Nat} (hb : b < nand.numBlocks.toNat)
    {keep : Nat → Bool} {page : Nat → Page}
    (hidx : ∀ i, (page i).idx = UInt32.ofNat b * nand.pagesPerBlock + UInt32.ofNat i) :
    ∀ call ∈ (pagesUpTo keep page nand.pagesPerBlock.toNat).map Page.call,
      call.page.toNat / nand.pagesPerBlock.toNat = b := by
  intro call hcall
  obtain ⟨p, hp, rfl⟩ := List.mem_map.mp hcall
  obtain ⟨i, hi, -, rfl⟩ := mem_pagesUpTo.mp hp
  rw [Page.call_page, hidx, page_toNat h hb hi, Nat.mul_comm,
    Nat.mul_add_div (Nat.lt_of_le_of_lt (Nat.zero_le i) hi), Nat.div_eq_of_lt hi,
    Nat.add_zero]

/-- The pages handed over are the readable ones exactly when every block is
kept. -/
theorem scanned_readable_iff (h : DeviceHolds nand c)
    (hsel : ∀ b < nand.numBlocks.toNat, ∃ sel,
      c.selection nand (UInt32.ofNat b) = .ok sel) :
    ((List.range nand.numBlocks.toNat).flatMap fun b =>
        c.scanned nand (UInt32.ofNat b)).map Page.call
          = (readablePages nand c).map Page.call
      ↔ ∀ b < nand.numBlocks.toNat, BlockKept nand c (UInt32.ofNat b) := by
  have hkept : ∀ b < nand.numBlocks.toNat, BlockKept nand c (UInt32.ofNat b) ↔
      (c.scanned nand (UInt32.ofNat b)).map Page.call
        = (c.readable nand (UInt32.ofNat b)).map Page.call := by
    intro b hb
    obtain ⟨sel, hsel⟩ := hsel b hb
    rw [blockKept_iff, FlashContent.scanned_eq hsel, hsel]
    simp only [Except.ok.injEq, exists_eq_left']
  rw [readablePages, List.map_flatMap, List.map_flatMap]
  constructor
  · intro hcalls b hb
    refine (hkept b hb).mpr (flatMap_range_inj
      (fun call : PageCall => call.page.toNat / nand.pagesPerBlock.toNat)
      (fun b hb => ?_) (fun b hb => ?_) hcalls b hb)
    · obtain ⟨sel, hsel⟩ := hsel b hb
      rw [FlashContent.scanned_eq hsel]
      exact pagesUpTo_block h hb fun _ => rfl
    · exact pagesUpTo_block h hb fun _ => rfl
  · intro hblocks
    refine List.flatMap_congr fun b hb => ?_
    have hlt := List.mem_range.mp hb
    exact (hkept b hlt).mp (hblocks b hlt)

/-- Read failures are isolated: the block loop ends with every readable,
valid page of a real object handed over, in order, and with the table that
replaying these pages gives. -/
def ScanIsolated (nand : NandFlashProtocol σ) (pools : UInt32 → Pool) (c : FlashContent)
    (n : σ) : Prop :=
  ∃ st', scanBlocks nand pools ⟨n, .empty, 0, 0, []⟩ = .ok st'
    ∧ st'.handed = (readablePages nand c).map Page.call
    ∧ replay pools .empty (readablePages nand c) = .ok st'.volume

/-- The block loop isolates read failures exactly when the readable pages can
be replayed at all and the failures, the erased pages and the summaries of
every block leave it kept. -/
theorem scanBlocks_isolated (h : DeviceHolds nand c) (pools : UInt32 → Pool) (n : σ) :
    ScanIsolated nand pools c n ↔
      (∃ vol, replay pools .empty (readablePages nand c) = .ok vol)
        ∧ ∀ b < nand.numBlocks.toNat, BlockKept nand c (UInt32.ofNat b) := by
  constructor
  · rintro ⟨st', hrun, hhanded, hvol⟩
    have hsel := scanBlocks_selects h hrun
    obtain ⟨s, rfl, -, hscanned⟩ := (scanBlocks_replays h hsel _).eq_ok hrun
    simp only [List.nil_append] at hscanned
    rw [hscanned] at hhanded
    exact ⟨⟨_, hvol⟩, (scanned_readable_iff h hsel).mp hhanded⟩
  · rintro ⟨⟨vol, hvol⟩, hblocks⟩
    have hsel : ∀ b < nand.numBlocks.toNat, ∃ sel,
        c.selection nand (UInt32.ofNat b) = .ok sel := by
      intro b hb
      obtain ⟨sel, hsel, -⟩ := (blockKept_iff nand c _).mp (hblocks b hb)
      exact ⟨sel, hsel⟩
    have hcalls := (scanned_readable_iff h hsel).mpr hblocks
    have hreplay := hvol
    rw [← replay_congr .empty hcalls] at hreplay
    obtain ⟨st', hrun, hvol', hhanded⟩ :=
      (scanBlocks_replays h hsel ⟨n, .empty, 0, 0, []⟩).total hreplay
    refine ⟨st', hrun, ?_, by rw [hvol', hvol]⟩
    rw [hhanded, List.nil_append, hcalls]

end Scan

/-! ## A block with an unreadable page -/

/-- A device that holds a content. -/
def faultyNand (pagesPerBlock numBlocks : UInt32) (c : FlashContent) :
    NandFlashProtocol UInt32 where
  pagesPerBlock := pagesPerBlock
  numBlocks := numBlocks
  readPage := fun page _ => ((c.body page).elim (.error .deviceError) .ok, page)
  readTags := fun page _ => ((c.tags page).elim (.error .deviceError) .ok, page)
  readPageBody := fun page => ((c.body page).elim (.error .deviceError) .ok, page)

theorem readsAs_elim {σ α : Type} (v : Option α) (n : σ) :
    ReadsAs v (v.elim (.error .deviceError) .ok, n) := by
  cases v with
  | none => exact ⟨_, rfl⟩
  | some a => exact rfl

theorem faultyNand_holds {pagesPerBlock numBlocks : UInt32} (c : FlashContent)
    (hppb : pagesPerBlock ≠ 0)
    (hnumbered : numBlocks.toNat * pagesPerBlock.toNat ≤ 2 ^ 32) :
    DeviceHolds (faultyNand pagesPerBlock numBlocks c) c where
  tags := fun page _ => readsAs_elim (c.tags page) page
  body := fun page _ _ => readsAs_elim (c.body page) page
  page := fun page _ => readsAs_elim (c.body page) page
  pagesPerBlock := hppb
  numbered := hnumbered

/-- The header of a file of this size. -/
def sizedHeader (size : UInt8) : PageData :=
  fun off => if off = 0x124 then size else 0

/-- Two headers of object 0x101, an unreadable page, and an erased page last:
the second header is at page `new` and the unreadable page at page `bad`. -/
def updatedFile (new bad : UInt32) : FlashContent where
  tags := fun page =>
    if page = 0 ∨ page = new then some ⟨0x1000, 0x101, 0x80000000, 0⟩
    else if page = bad then none
    else some ⟨0xFFFFFFFF, 0xFFFFFFFF, 0xFFFFFFFF, 0xFFFFFFFF⟩
  body := fun page =>
    if page = bad then none else some (sizedHeader (if page = 0 then 1 else 2))

/-- An unreadable page behind both headers loses nothing. -/
theorem scanBlocks_isolated_updatedFile :
    ScanIsolated (faultyNand 4 1 (updatedFile 1 2)) noFailure (updatedFile 1 2) 0 := by
  have hkept : BlockKept (faultyNand 4 1 (updatedFile 1 2)) (updatedFile 1 2) 0 := by
    have hstop : (updatedFile 1 2).stops
        (0 * (faultyNand 4 1 (updatedFile 1 2)).pagesPerBlock) = false := by decide
    have hsummary : (updatedFile 1 2).summary (faultyNand 4 1 (updatedFile 1 2)) 0
        = .ok none := rfl
    unfold BlockKept
    simp only [hstop, hsummary, Bool.false_eq_true, if_false]
    decide
  refine (scanBlocks_isolated (faultyNand_holds _ (by decide) (by decide)) noFailure 0).mpr
    ⟨⟨_, rfl⟩, fun b hb => ?_⟩
  obtain rfl := Nat.lt_one_iff.mp hb
  exact hkept

/-- The unreadable page hides the later header: the file keeps the size it
had before the update. -/
theorem scanBlocks_oldVersion :
    DeviceHolds (faultyNand 4 1 (updatedFile 2 1)) (updatedFile 2 1)
      ∧ ¬ScanIsolated (faultyNand 4 1 (updatedFile 2 1)) noFailure (updatedFile 2 1) 0
      ∧ ∃ st' vol,
        scanBlocks (faultyNand 4 1 (updatedFile 2 1)) noFailure ⟨0, .empty, 0, 0, []⟩
            = .ok st'
        ∧ replay noFailure .empty
            (readablePages (faultyNand 4 1 (updatedFile 2 1)) (updatedFile 2 1)) = .ok vol
        ∧ (st'.volume.object? 0x101).map Yaffs2Object.fileSize = some 1
        ∧ (vol.object? 0x101).map Yaffs2Object.fileSize = some 2 := by
  obtain ⟨st', hrun, hold⟩ : ∃ st',
      scanBlocks (faultyNand 4 1 (updatedFile 2 1)) noFailure ⟨0, .empty, 0, 0, []⟩
          = .ok st'
        ∧ (st'.volume.object? 0x101).map Yaffs2Object.fileSize = some 1 := ⟨_, rfl, rfl⟩
  obtain ⟨vol, hreplay, hnew⟩ : ∃ vol,
      replay noFailure .empty
          (readablePages (faultyNand 4 1 (updatedFile 2 1)) (updatedFile 2 1)) = .ok vol
        ∧ (vol.object? 0x101).map Yaffs2Object.fileSize = some 2 := ⟨_, rfl, rfl⟩
  refine ⟨faultyNand_holds _ (by decide) (by decide), ?_, st', vol, hrun, hreplay, hold, hnew⟩
  rintro ⟨st, hst, -, hvol⟩
  obtain rfl := Except.ok.inj (hrun.symm.trans hst)
  obtain rfl := Except.ok.inj (hreplay.symm.trans hvol)
  rw [hold] at hnew
  cases hnew

end Ccr2004
