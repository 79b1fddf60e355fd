import Ccr2004.YaffsChunks
import Ccr2004.YaffsTree

/-!
# Volumes the scan can reach

Whatever path a block takes, the scan only ever hands over pages whose tags
pass its three tests (`Page.Scannable`). `Reached` closes the empty volume
under such pages, with any of the allocations failing, and `scanBlocks_reached`
says that the block loop stays inside it: `Continues` carries the pages
handed over from one state of the scan to the next.

Every reached volume represents its objects (`Reached.untied`), and each of
its objects is as the scan leaves them (`Reached.scanned`).
-/

namespace Ccr2004

/-! ## Pages -/

/-- A written page: its index, its tag words and its data. -/
structure Page where
  idx : UInt32
  raw : RawTags
  body : PageData

def Page.tags (p : Page) : Yaffs2Tags := parseTagWords p.raw

/-- The call the scan makes for a page. -/
def Page.call (p : Page) : PageCall :=
  if p.tags.isHeader then .header p.tags p.body p.idx else .chunk p.tags p.idx

/-- The tags pass the tests both paths make before a call. -/
structure Page.Scannable (p : Page) : Prop where
  seq : seqInRange p.tags.seqNumber = true
  obj : isPseudoObject p.tags.objId = false

@[simp] theorem Page.call_tags (p : Page) : p.call.tags = p.tags := by
  unfold Page.call
  split <;> rfl

@[simp] theorem Page.call_page (p : Page) : p.call.page = p.idx := by
  unfold Page.call
  split <;> rfl

theorem Page.chunkId_lt (p : Page) : p.tags.chunkId.toNat < 2 ^ 31 :=
  parseTagWords_chunkId_lt p.raw

theorem isPseudoObject_ne_zero {objId : UInt32} (h : isPseudoObject objId = false) :
    objId ≠ 0 := by
  rintro rfl
  cases h

theorem Page.Scannable.objId_ne_zero {p : Page} (h : p.Scannable) :
    p.tags.objId ≠ 0 := isPseudoObject_ne_zero h.obj

/-- No allocation fails. -/
abbrev noFailure : UInt32 → Pool := fun _ => .full

/-- Hand over a sequence of pages. -/
def replay (pools : UInt32 → Pool) (vol : Yaffs2Volume) (pages : List Page) :
    Run Yaffs2Volume :=
  pages.foldlM (fun vol p => p.call.apply (pools p.idx) vol) vol

/-! ## Reached volumes -/

/-- The volumes a scan can hold before the tree is built. -/
inductive Reached : Yaffs2Volume → Prop
  | empty : Reached .empty
  | hand {vol vol' : Yaffs2Volume} {pool : Pool} {p : Page} :
      Reached vol → p.Scannable → p.call.apply pool vol = .ok vol' → Reached vol'

theorem Reached.replay {pools : UInt32 → Pool} :
    ∀ {pages : List Page} {vol vol' : Yaffs2Volume}, Reached vol →
      (∀ p ∈ pages, p.Scannable) → replay pools vol pages = .ok vol' → Reached vol'
  | [], vol, vol', h, _, hrun => by
      obtain rfl := Except.ok.inj hrun
      exact h
  | p :: pages, vol, vol', h, hpages, hrun => by
      rw [Ccr2004.replay, List.foldlM_cons] at hrun
      obtain ⟨vol₁, hp, hrest⟩ := bind_eq_ok.mp hrun
      exact Reached.replay (.hand h (hpages p (List.mem_cons_self ..)) hp)
        (fun q hq => hpages q (List.mem_cons_of_mem _ hq)) hrest

/-- An object as the scan leaves it: unlinked, with its chunk array in order
and its name terminated. -/
structure ScannedObject (obj : Yaffs2Object) : Prop where
  parent : obj.parent = none
  children : obj.children = []
  chunks : ChunksOK obj
  terminated : obj.name.get 255 = 0

theorem ScannedObject.fresh (id : UInt32) : ScannedObject (.fresh id) where
  parent := rfl
  children := rfl
  chunks := .fresh id
  terminated := List.Vector.get_replicate 0 255

theorem PageCall.Updates.scanned {pool : Pool} {obj obj' : Yaffs2Object}
    {c : PageCall} (h : c.Updates pool obj obj')
    (hlt : c.tags.chunkId.toNat < 2 ^ 31) (hobj : ScannedObject obj) :
    ScannedObject obj' := by
  have hchunks := h.chunksOK hlt hobj.chunks
  cases c with
  | header tags body page =>
      rw [PageCall.Updates] at h
      by_cases hstale : headerIsStale obj tags page = true
      · rw [h, headerUpdate, if_pos hstale]
        exact hobj
      · rw [headerUpdate, if_neg hstale] at h
        subst h
        exact ⟨hobj.parent, hobj.children, hchunks, by
          simp [parseObjectHeader, headerName]⟩
  | chunk tags page =>
      obtain ⟨chunks, alloc, count, rfl⟩ := h.of_chunk
      exact ⟨hobj.parent, hobj.children, hchunks, hobj.terminated⟩

theorem Reached.tableOK {vol : Yaffs2Volume} (h : Reached vol) : TableOK vol := by
  induction h with
  | empty => exact .empty
  | hand _ hp hrun ih =>
      exact (PageCall.apply_ok ih (by rw [Page.call_tags]; exact hp.objId_ne_zero) hrun).1

/-- What handing over a scannable page does to a reached volume. -/
theorem Reached.effect {vol vol' : Yaffs2Volume} (h : Reached vol) {p : Page}
    (hp : p.Scannable) {pool : Pool} (hrun : p.call.apply pool vol = .ok vol') :
    p.call.Effect pool vol vol' :=
  (PageCall.apply_ok h.tableOK (by rw [Page.call_tags]; exact hp.objId_ne_zero) hrun).2

theorem Reached.scanned {vol : Yaffs2Volume} (h : Reached vol) :
    ∀ i obj, vol.object? i = some obj → ScannedObject obj := by
  induction h with
  | empty =>
      intro i obj hobj
      rw [Yaffs2Volume.object?_empty] at hobj
      cases hobj
  | @hand vol vol' pool p hvol hp hrun ih =>
      refine (hvol.effect hp hrun).all (.fresh _) (fun obj obj' hobj hupd => ?_) ih
      exact hupd.scanned (by rw [Page.call_tags]; exact p.chunkId_lt) hobj

theorem Reached.object?_zero {vol : Yaffs2Volume} (h : Reached vol) :
    vol.object? 0 = none := by
  induction h with
  | empty => exact Yaffs2Volume.object?_empty 0
  | @hand vol vol' pool p hvol hp hrun ih =>
      rcases hvol.effect hp hrun with hsame | ⟨obj', -, hview⟩
      · rw [hsame, ih]
      · rw [hview, Page.call_tags, if_neg hp.objId_ne_zero.symm, ih]

theorem Reached.untied {vol : Yaffs2Volume} (h : Reached vol) : Untied vol where
  table := h.tableOK
  zero := h.object?_zero
  parent := fun i obj hobj => (h.scanned i obj hobj).parent
  children := fun i obj hobj => (h.scanned i obj hobj).children

/-! ## Calls that have room -/

/-- Processing a header whose object id has room never faults. -/
theorem processHeader_total {vol : Yaffs2Volume} (hok : TableOK vol) (pool : Pool)
    (body : PageData) {tags : Yaffs2Tags} (page : UInt32) (hid : tags.objId ≠ 0)
    (hroom : TableRoom vol.maxObjId tags.objId) :
    ∃ vol', processHeader pool vol body tags page = .ok vol'
      ∧ (pool = .full → ∀ j, vol'.object? j =
          if j = tags.objId then
            some (headerUpdate tags body page
              ((vol.object? tags.objId).getD (.fresh tags.objId)))
          else vol.object? j) := by
  obtain ⟨found, vol₁, hfind, -, hsome, hfull⟩ :=
    findOrCreateObject_of_room hok pool hid hroom
  unfold processHeader
  rw [hfind, ok_bind]
  cases found with
  | none => exact ⟨vol₁, rfl, fun h => absurd rfl (hfull h)⟩
  | some obj =>
      have hfound := hsome obj rfl
      simp only
      rw [← hfound.obj_eq]
      by_cases hstale : headerIsStale obj tags page = true
      · rw [if_pos hstale]
        refine ⟨vol₁, rfl, fun _ j => ?_⟩
        rw [hfound.others, headerUpdate, if_pos hstale]
      · rw [if_neg hstale]
        obtain ⟨-, hview⟩ :=
          hfound.store hok hid (headerUpdate_objId tags body page obj)
        rw [headerUpdate, if_neg hstale] at hview ⊢
        exact ⟨_, rfl, fun _ => hview⟩

/-- Processing a data chunk whose object id has room never faults. -/
theorem processDataChunk_total {vol : Yaffs2Volume} (hok : TableOK vol) (pool : Pool)
    {tags : Yaffs2Tags} (page : UInt32) (hid : tags.objId ≠ 0)
    (hroom : TableRoom vol.maxObjId tags.objId) (hlt : tags.chunkId.toNat < 2 ^ 31)
    (hchunk : tags.chunkId ≠ 0)
    (hchunks : ∀ i obj, vol.object? i = some obj → ChunksOK obj) :
    ∃ vol', processDataChunk pool vol tags page = .ok vol'
      ∧ (pool = .full → ∃ obj',
          ChunkRecorded tags page
            ((vol.object? tags.objId).getD (.fresh tags.objId)) obj'
          ∧ ∀ j, vol'.object? j =
              if j = tags.objId then some obj' else vol.object? j) := by
  obtain ⟨found, vol₁, hfind, -, hsome, hfull⟩ :=
    findOrCreateObject_of_room hok pool hid hroom
  unfold processDataChunk
  rw [if_neg hchunk, hfind, ok_bind]
  cases found with
  | none => exact ⟨vol₁, rfl, fun h => absurd rfl (hfull h)⟩
  | some obj =>
      have hfound := hsome obj rfl
      have hobj : ChunksOK obj := by
        rw [hfound.obj_eq]
        cases hold : vol.object? tags.objId with
        | none => exact .fresh _
        | some old => exact hchunks _ old hold
      simp only
      rw [← hfound.obj_eq]
      rcases growChunks_recordChunk pool hobj hchunk hlt page with
        ⟨hnone, hpool⟩ | ⟨grown, obj', hgrow, hrec, hrecorded⟩
      · refine ⟨vol₁, by rw [hnone]; rfl, fun h => ?_⟩
        rw [h] at hpool
        cases hpool
      · have hupd : (PageCall.chunk tags page).Updates pool obj obj' :=
          Or.inr ⟨hchunk, grown, hgrow, hrec⟩
        refine ⟨vol₁.setSlot tags.objId (some obj'), by
          simp only [hgrow, ok_bind, hrec],
          fun _ => ⟨obj', hrecorded, (hfound.store hok hid hupd.objId).2⟩⟩

/-- Handing over a page whose object id has room never faults. -/
theorem Reached.hand_total {vol : Yaffs2Volume} (h : Reached vol) {p : Page}
    (hp : p.Scannable) (hroom : TableRoom vol.maxObjId p.tags.objId) (pool : Pool) :
    ∃ vol', p.call.apply pool vol = .ok vol' ∧ Reached vol' := by
  have hrun : ∃ vol', p.call.apply pool vol = .ok vol' := by
    unfold Page.call
    split
    · obtain ⟨vol', hrun, -⟩ := processHeader_total h.tableOK pool p.body p.idx
        hp.objId_ne_zero hroom
      exact ⟨vol', hrun⟩
    · by_cases hchunk : p.tags.chunkId = 0
      · exact ⟨vol, by simp [PageCall.apply, processDataChunk, hchunk]⟩
      · obtain ⟨vol', hrun, -⟩ := processDataChunk_total h.tableOK pool p.idx
          hp.objId_ne_zero hroom p.chunkId_lt hchunk
          (fun i obj hobj => (h.scanned i obj hobj).chunks)
        exact ⟨vol', hrun⟩
  obtain ⟨vol', hrun⟩ := hrun
  exact ⟨vol', hrun, .hand h hp hrun⟩

/-! ## The scan stays inside -/

section Scan

variable {σ : Type} {nand : NandFlashProtocol σ} {pools : UInt32 → Pool}

/-- One state of a scan goes on to another by handing over scannable
pages. -/
def Continues (pools : UInt32 → Pool) (st st' : ScanState σ) : Prop :=
  ∃ pages : List Page, (∀ p ∈ pages, p.Scannable)
    ∧ st'.handed = st.handed ++ pages.map Page.call
    ∧ replay pools st.volume pages = .ok st'.volume

theorem Continues.refl (st : ScanState σ) : Continues pools st st :=
  ⟨[], by simp, by simp, rfl⟩

theorem Continues.trans {st₁ st₂ st₃ : ScanState σ} (h : Continues pools st₁ st₂)
    (h' : Continues pools st₂ st₃) : Continues pools st₁ st₃ := by
  obtain ⟨pages, hpages, hhanded, hrun⟩ := h
  obtain ⟨pages', hpages', hhanded', hrun'⟩ := h'
  refine ⟨pages ++ pages', ?_, ?_, ?_⟩
  · intro p hp
    rcases List.mem_append.mp hp with hp | hp
    · exact hpages p hp
    · exact hpages' p hp
  · rw [hhanded', hhanded, List.map_append, List.append_assoc]
  · rw [replay, List.foldlM_append]
    exact bind_eq_ok.mpr ⟨st₂.volume, hrun, hrun'⟩

/-- Handing over one page, whatever the counters do. -/
theorem Continues.hand {st st₁ st' : ScanState σ} {p : Page} {call : PageCall}
    (hp : p.Scannable) (h : st₁.hand pools call = .ok st') (hcall : p.call = call)
    (hvol : st₁.volume = st.volume) (hhanded : st₁.handed = st.handed) :
    Continues pools st st' := by
  subst hcall
  obtain ⟨vol, hrun, hst⟩ := bind_eq_ok.mp h
  obtain rfl := Except.ok.inj hst
  refine ⟨[p], by simpa using hp, by simp [hhanded], ?_⟩
  rw [Page.call_page, hvol] at hrun
  rw [replay, List.foldlM_cons, hrun, ok_bind]
  rfl

/-- The page whose tag words are the summary's sequence number and one of
its entries. -/
def entryPage (blockSeq : UInt32) (e : SummaryEntry) (body : PageData)
    (page : UInt32) : Page :=
  ⟨page, ⟨blockSeq, e.objId, e.chunkId, e.nBytes⟩, body⟩

/-- The two decoders of tags agree. -/
theorem entryPage_tags (blockSeq : UInt32) (e : SummaryEntry) (body : PageData)
    (page : UInt32) : (entryPage blockSeq e body page).tags = unpackEntry blockSeq e := rfl

theorem unpackEntry_seqNumber (blockSeq : UInt32) (e : SummaryEntry) :
    (unpackEntry blockSeq e).seqNumber = blockSeq := by
  unfold unpackEntry
  split <;> rfl

theorem processEntry_continues {basePage blockSeq : UInt32}
    (hseq : seqInRange blockSeq = true) {entries : List SummaryEntry} {i : Nat}
    {st : ScanState σ} {c : Flow (ScanState σ) (ScanState σ)}
    (h : processEntry nand pools basePage blockSeq entries i st = .ok c) :
    c.Post (Continues pools st) (Continues pools st) := by
  unfold processEntry at h
  split at h
  · cases h
  · rename_i e _
    simp only at h
    split at h
    · obtain rfl := Except.ok.inj h
      exact .refl st
    · rename_i hobj
      have hscan : ∀ body, (entryPage blockSeq e body
          (basePage + UInt32.ofNat i)).Scannable := fun body =>
        ⟨by rw [entryPage_tags, unpackEntry_seqNumber]; exact hseq, by
          rw [entryPage_tags]; simpa using hobj⟩
      split at h
      · rename_i hheader
        split at h
        · obtain rfl := Except.ok.inj h
          exact .refl st
        · rename_i body n _
          obtain ⟨st', hhand, hc⟩ := bind_eq_ok.mp h
          obtain rfl := Except.ok.inj hc
          have hcall : (entryPage blockSeq e body (basePage + UInt32.ofNat i)).call
              = .header (unpackEntry blockSeq e) body (basePage + UInt32.ofNat i) :=
            if_pos hheader
          exact .hand (hscan body) hhand hcall rfl rfl
      · rename_i hheader
        obtain ⟨st', hhand, hc⟩ := bind_eq_ok.mp h
        obtain rfl := Except.ok.inj hc
        have hcall : (entryPage blockSeq e (fun _ => 0) (basePage + UInt32.ofNat i)).call
            = .chunk (unpackEntry blockSeq e) (basePage + UInt32.ofNat i) :=
          if_neg hheader
        exact .hand (hscan _) hhand hcall rfl rfl

theorem scanPage_continues {basePage : UInt32} {pageInBlock : Nat}
    {st : ScanState σ} {c : Flow (ScanState σ) (ScanState σ)}
    (h : scanPage nand pools basePage pageInBlock st = .ok c) :
    c.Post (Continues pools st) (Continues pools st) := by
  unfold scanPage at h
  simp only at h
  split at h
  · obtain rfl := Except.ok.inj h
    exact .refl st
  · rename_i raw n _
    split at h
    · obtain rfl := Except.ok.inj h
      exact .refl st
    · split at h
      · obtain rfl := Except.ok.inj h
        exact .refl st
      · rename_i hseq
        split at h
        · obtain rfl := Except.ok.inj h
          exact .refl st
        · rename_i hobj
          have hscan : ∀ body, (Page.mk (basePage + UInt32.ofNat pageInBlock)
              raw body).Scannable := fun body =>
            ⟨by simpa [Page.tags] using hseq, by simpa [Page.tags] using hobj⟩
          split at h
          · rename_i hheader
            split at h
            · obtain rfl := Except.ok.inj h
              exact .refl st
            · rename_i body n' _
              obtain ⟨st', hhand, hc⟩ := bind_eq_ok.mp h
              obtain rfl := Except.ok.inj hc
              exact .hand (hscan body) hhand (if_pos hheader) rfl rfl
          · rename_i hheader
            obtain ⟨st', hhand, hc⟩ := bind_eq_ok.mp h
            obtain rfl := Except.ok.inj hc
            exact .hand (hscan fun _ => 0) hhand (if_neg hheader) rfl rfl

/-- The sequence number of an accepted summary is its third word. -/
theorem checkSummary_blockSeq {pagesPerBlock : UInt32} {body : PageData} {seq : UInt32}
    (h : checkSummary pagesPerBlock body = .ok (some seq)) :
    seq = body.u32 8 ∧ seqInRange seq = true := by
  unfold checkSummary at h
  simp only at h
  split at h
  · cases Except.ok.inj h
  · split at h
    · cases Except.ok.inj h
    · rename_i hseq
      split at h
      · cases Except.ok.inj h
      · obtain ⟨sum, -, h⟩ := bind_eq_ok.mp h
        split at h
        · cases Except.ok.inj h
        · obtain ⟨first, -, h⟩ := bind_eq_ok.mp h
          split at h
          · cases Except.ok.inj h
          · obtain rfl := Option.some.inj (Except.ok.inj h)
            exact ⟨rfl, by simpa using hseq⟩

/-- What an accepted summary has passed: the tags of the summary page, the
checks on its body and the copy of its entries. -/
theorem readSummary_eq_some {block : UInt32} {n n' : σ} {blockSeq : UInt32}
    {entries : List SummaryEntry}
    (h : readSummary nand block n = .ok (some (blockSeq, entries), n')) :
    ∃ raw n₁ body,
      nand.readTags (block * nand.pagesPerBlock + (nand.pagesPerBlock - 1)) n
          = (.ok raw, n₁)
        ∧ areTagsErased raw = false ∧ isSummaryPage raw = true
        ∧ nand.readPageBody n₁ = (.ok body, n')
        ∧ checkSummary nand.pagesPerBlock body = .ok (some blockSeq)
        ∧ copyEntries nand.pagesPerBlock body = .ok entries := by
  unfold readSummary at h
  simp only at h
  split at h
  · cases (Prod.mk.inj (Except.ok.inj h)).1
  · rename_i raw n₁ htags
    split at h
    · cases (Prod.mk.inj (Except.ok.inj h)).1
    · rename_i herased
      split at h
      · cases (Prod.mk.inj (Except.ok.inj h)).1
      · rename_i hsummary
        split at h
        · cases (Prod.mk.inj (Except.ok.inj h)).1
        · rename_i body n₂ hbody
          obtain ⟨seq, hcheck, h⟩ := bind_eq_ok.mp h
          cases seq with
          | none => cases (Prod.mk.inj (Except.ok.inj h)).1
          | some seq =>
              obtain ⟨es, hcopy, h⟩ := bind_eq_ok.mp h
              obtain ⟨hsome, rfl⟩ := Prod.mk.inj (Except.ok.inj h)
              obtain ⟨rfl, rfl⟩ := Prod.mk.inj (Option.some.inj hsome)
              exact ⟨raw, n₁, body, htags, by simpa using herased,
                by simpa using hsummary, hbody, hcheck, hcopy⟩

theorem readSummary_seq {block : UInt32} {n n' : σ} {blockSeq : UInt32}
    {entries : List SummaryEntry}
    (h : readSummary nand block n = .ok (some (blockSeq, entries), n')) :
    seqInRange blockSeq = true := by
  obtain ⟨raw, n₁, body, -, -, -, -, hcheck, -⟩ := readSummary_eq_some h
  exact (checkSummary_blockSeq hcheck).2

theorem scanBlockViaSummary_continues {block : UInt32} {st st' : ScanState σ}
    {done : Bool} (h : scanBlockViaSummary nand pools block st = .ok (done, st')) :
    Continues pools st st' := by
  unfold scanBlockViaSummary at h
  obtain ⟨⟨summary, n⟩, hread, h⟩ := bind_eq_ok.mp h
  cases summary with
  | none =>
      obtain ⟨-, rfl⟩ := Prod.mk.inj (Except.ok.inj h)
      exact .refl st
  | some summary =>
      obtain ⟨blockSeq, entries⟩ := summary
      obtain ⟨c, hloop, h⟩ := bind_eq_ok.mp h
      obtain ⟨-, rfl⟩ := Prod.mk.inj (Except.ok.inj h)
      have hseq := readSummary_seq hread
      have hstart : Continues pools st (st.device n) := .refl st
      refine Flow.Post.state (forFrom_post (I := fun _ s => Continues pools st s)
        (fun j s c _ _ hs hbody => ?_) hstart hloop)
      exact (processEntry_continues hseq hbody).imp
        (fun _ h => hs.trans h) (fun _ h => hs.trans h)

theorem scanBlockPageByPage_continues {block : UInt32} {st st' : ScanState σ}
    (h : scanBlockPageByPage nand pools block st = .ok st') :
    Continues pools st st' := by
  obtain ⟨c, hloop, h⟩ := bind_eq_ok.mp h
  obtain rfl := Except.ok.inj h
  refine Flow.Post.state (forFrom_post (I := fun _ s => Continues pools st s)
    (fun j s c _ _ hs hbody => ?_) (Continues.refl st) hloop)
  exact (scanPage_continues hbody).imp (fun _ h => hs.trans h) (fun _ h => hs.trans h)

theorem scanBlock_continues {block : Nat} {st : ScanState σ}
    {c : Flow (ScanState σ) (ScanState σ)}
    (h : scanBlock nand pools block st = .ok c) :
    c.Post (Continues pools st) (Continues pools st) := by
  unfold scanBlock at h
  simp only at h
  split at h
  · obtain rfl := Except.ok.inj h
    exact .refl st
  · split at h
    · obtain rfl := Except.ok.inj h
      exact .refl st
    · obtain ⟨⟨done, st₁⟩, hsummary, h⟩ := bind_eq_ok.mp h
      have hfirst := scanBlockViaSummary_continues hsummary
      cases done with
      | true =>
          obtain rfl := Except.ok.inj h
          exact hfirst
      | false =>
          obtain ⟨st₂, hpages, h⟩ := bind_eq_ok.mp h
          obtain rfl := Except.ok.inj h
          exact hfirst.trans (scanBlockPageByPage_continues hpages)

/-- The block loop only hands over scannable pages. -/
theorem scanBlocks_continues {st st' : ScanState σ}
    (h : scanBlocks nand pools st = .ok st') : Continues pools st st' := by
  obtain ⟨c, hloop, h⟩ := bind_eq_ok.mp h
  obtain rfl := Except.ok.inj h
  refine Flow.Post.state (forFrom_post (I := fun _ s => Continues pools st s)
    (fun j s c _ _ hs hbody => ?_) (Continues.refl st) hloop)
  exact (scanBlock_continues hbody).imp (fun _ h => hs.trans h) (fun _ h => hs.trans h)

/-- The volume a scan of the blocks leaves is a reached one. -/
theorem scanBlocks_reached {n : σ} {st : ScanState σ}
    (h : scanBlocks nand pools ⟨n, .empty, 0, 0, []⟩ = .ok st) : Reached st.volume := by
  obtain ⟨pages, hpages, -, hrun⟩ := scanBlocks_continues h
  exact Reached.empty.replay hpages hrun

end Scan

end Ccr2004
