import Mathlib.Data.Prod.Lex
import Ccr2004.Newest
import Ccr2004.YaffsReach

/-!
# Version resolution

`ProcessHeader` and `ProcessDataChunk` as registers that keep the newest
version. The pages handed over are versions in the sense of `Newest`: a
header page of its object, a data page of its object and chunk id, both
stamped with the sequence number and then the page index. `Resolves` says
that a volume holds the winner of every key, whatever the object table and
the chunk arrays went through to grow. `replay_step` is one call and
`replay_resolves` a whole sequence of calls; `replay_newest` adds that the
order of the sequence does not matter.
-/

namespace Ccr2004

/-! ## Pages as versions -/

/-- What decides between two versions. -/
def Page.stamp (p : Page) : ℕ ×ₗ ℕ :=
  toLex (p.tags.seqNumber.toNat, p.idx.toNat)

/-- The object a header page describes. -/
def Page.headerKey (p : Page) : Option UInt32 :=
  if p.tags.isHeader then some p.tags.objId else none

/-- The object and the chunk id of a data page. -/
def Page.chunkKey (p : Page) : Option (UInt32 × Nat) :=
  if p.tags.isHeader then none else some (p.tags.objId, p.tags.chunkId.toNat)

/-- A page that makes its object exist: data pages with chunk id 0 are
ignored. -/
def Page.Touches (p : Page) (id : UInt32) : Prop :=
  p.tags.objId = id ∧ (p.tags.isHeader = true ∨ p.tags.chunkId ≠ 0)

abbrev newestHeader (pages : List Page) (id : UInt32) : Option Page :=
  Newest.winner Page.headerKey Page.stamp pages id

abbrev newestChunk (pages : List Page) (id : UInt32) (k : Nat) : Option Page :=
  Newest.winner Page.chunkKey Page.stamp pages (id, k)

/-- The greatest chunk id among the data pages of an object, 0 without any. -/
def greatestChunk (pages : List Page) (id : UInt32) : Nat :=
  ((pages.filter fun p => p.tags.objId = id ∧ p.tags.isHeader = false).map
    fun p => p.tags.chunkId.toNat).foldr max 0

/-- The header page and the fields decoded from it. -/
structure HeaderFields where
  headerSeq : UInt32
  headerPage : UInt32
  type : UInt32
  parentId : UInt32
  name : List.Vector UInt8 256
  mode : UInt32
  mTime : UInt32
  fileSize : UInt64
  equivId : UInt32
deriving DecidableEq

def Yaffs2Object.headerFields (obj : Yaffs2Object) : HeaderFields where
  headerSeq := obj.headerSeq
  headerPage := obj.headerPage
  type := obj.type
  parentId := obj.parentId
  name := obj.name
  mode := obj.mode
  mTime := obj.mTime
  fileSize := obj.fileSize
  equivId := obj.equivId

/-- The fields a header page decodes to. -/
def Page.headerFields (p : Page) : HeaderFields :=
  { (parseObjectHeader p.body (.fresh p.tags.objId)).headerFields with
    headerSeq := p.tags.seqNumber, headerPage := p.idx }

/-- Where a data page is. -/
def Page.chunkLoc (p : Page) : ChunkLoc :=
  ⟨p.idx, p.tags.nBytes, p.tags.seqNumber⟩

/-- An object holds the newest header and the newest version of every chunk
among the pages handed over. -/
structure Resolved (pages : List Page) (id : UInt32) (obj : Yaffs2Object) : Prop where
  header : obj.headerFields = ((newestHeader pages id).map Page.headerFields).getD
    (Yaffs2Object.fresh id).headerFields
  chunk : ∀ k, obj.chunkAt k = ((newestChunk pages id (k + 1)).map Page.chunkLoc).getD .unset
  count : obj.chunkCount.toNat = greatestChunk pages id
  chunks : ChunksOK obj

/-- A volume holds exactly the objects the pages touch, each resolved. -/
structure Resolves (pages : List Page) (vol : Yaffs2Volume) : Prop where
  table : TableOK vol
  present : ∀ id, (vol.object? id).isSome = true ↔ ∃ p ∈ pages, p.Touches id
  objects : ∀ id, Resolved pages id ((vol.object? id).getD (.fresh id))

/-- The tags the callers let through, at a page index that is not
`YAFFS2_CHUNK_UNSET`. -/
structure Page.Valid (p : Page) : Prop where
  seq : seqInRange p.tags.seqNumber = true
  obj : p.tags.objId ≠ 0
  idx : p.idx < yaffs2ChunkUnset

/-! ## The two comparisons -/

theorem seqInRange_ne_zero {seq : UInt32} (h : seqInRange seq = true) : seq ≠ 0 := by
  rintro rfl
  cases h

theorem Page.stamp_lt_iff (p q : Page) :
    q.stamp < p.stamp ↔ q.tags.seqNumber < p.tags.seqNumber
      ∨ (q.tags.seqNumber = p.tags.seqNumber ∧ q.idx < p.idx) := by
  rw [Page.stamp, Page.stamp, Prod.Lex.toLex_lt_toLex, UInt32.toNat_inj,
    UInt32.lt_iff_toNat_lt, UInt32.lt_iff_toNat_lt]

/-- `ProcessHeader` drops a page exactly when its stamp does not exceed the
one of the header it holds. -/
theorem headerIsStale_iff {obj : Yaffs2Object} {p q : Page}
    (hq : seqInRange q.tags.seqNumber = true)
    (hobj : obj.headerFields = q.headerFields) :
    headerIsStale obj p.tags p.idx = true ↔ ¬q.stamp < p.stamp := by
  have hseq : obj.headerSeq = q.tags.seqNumber := congrArg HeaderFields.headerSeq hobj
  have hpage : obj.headerPage = q.idx := congrArg HeaderFields.headerPage hobj
  have hne := seqInRange_ne_zero hq
  rw [Page.stamp_lt_iff]
  simp only [headerIsStale, hseq, hpage, hne, ne_eq, not_false_eq_true, decide_true,
    Bool.true_and, Bool.or_eq_true, Bool.and_eq_true, decide_eq_true_eq, beq_iff_eq]
  simp only [UInt32.lt_iff_toNat_lt, UInt32.le_iff_toNat_le, ← UInt32.toNat_inj]
  omega

/-- `ProcessDataChunk` replaces an entry exactly when the stamp exceeds the
one it holds. -/
theorem chunkIsNewer_iff {p q : Page} (hq : q.idx < yaffs2ChunkUnset) :
    chunkIsNewer q.chunkLoc p.tags p.idx = true ↔ q.stamp < p.stamp := by
  have hne : q.idx ≠ yaffs2ChunkUnset := UInt32.ne_of_lt hq
  rw [Page.stamp_lt_iff]
  simp only [chunkIsNewer, Page.chunkLoc, beq_iff_eq, Bool.or_eq_true,
    Bool.and_eq_true, decide_eq_true_eq, hne, false_or, gt_iff_lt]
  rw [eq_comm (a := p.tags.seqNumber)]

/-! ## One page -/

theorem greatestChunk_concat (pages : List Page) (p : Page) (id : UInt32) :
    greatestChunk (pages ++ [p]) id =
      if p.tags.objId = id ∧ p.tags.isHeader = false then
        max p.tags.chunkId.toNat (greatestChunk pages id)
      else greatestChunk pages id := by
  have hmax : ∀ (l : List Nat) (n : Nat), (l ++ [n]).foldr max 0 = max n (l.foldr max 0) := by
    intro l n
    induction l with
    | nil => simp
    | cons m l ih =>
        rw [List.cons_append, List.foldr_cons, ih, List.foldr_cons]
        omega
  unfold greatestChunk
  rw [List.filter_append]
  split
  · rename_i h
    simp only [h, decide_true, List.filter_singleton, List.map_append, and_self]
    exact hmax _ _
  · rename_i h
    simp [h]

theorem Resolved.fresh (id : UInt32) : Resolved [] id (.fresh id) where
  header := rfl
  chunk := fun _ => rfl
  count := rfl
  chunks := .fresh id

/-- A page of another object, or one that is ignored, changes nothing. -/
theorem Resolved.skip {pages : List Page} {p : Page} {id : UInt32} {obj : Yaffs2Object}
    (h : Resolved pages id obj) (hp : ¬p.Touches id) :
    Resolved (pages ++ [p]) id obj := by
  have hheader : p.headerKey ≠ some id := by
    intro hkey
    unfold Page.headerKey at hkey
    split at hkey
    · rename_i hh
      exact hp ⟨Option.some.inj hkey, Or.inl hh⟩
    · cases hkey
  have hchunk : ∀ k, p.chunkKey ≠ some (id, k + 1) := by
    intro k hkey
    unfold Page.chunkKey at hkey
    split at hkey
    · cases hkey
    · obtain ⟨hid, hk⟩ := Prod.mk.inj (Option.some.inj hkey)
      refine hp ⟨hid, Or.inr fun h0 => ?_⟩
      rw [h0] at hk
      simp at hk
  refine ⟨?_, fun k => ?_, ?_, h.chunks⟩
  · rw [newestHeader, Newest.winner_concat_ne hheader]
    exact h.header
  · rw [newestChunk, Newest.winner_concat_ne (hchunk k)]
    exact h.chunk k
  · rw [greatestChunk_concat, h.count]
    split
    · rename_i hpage
      have h0 : p.tags.chunkId = 0 := by
        by_contra hne
        exact hp ⟨hpage.1, Or.inr hne⟩
      rw [h0]
      exact (Nat.zero_max _).symm
    · rfl

/-- A header page: the winner among the headers, nothing else. -/
theorem Resolved.header_page {pages : List Page} {p : Page} {obj : Yaffs2Object}
    (h : Resolved pages p.tags.objId obj) (hheader : p.tags.isHeader = true)
    (hseq : ∀ q ∈ pages, seqInRange q.tags.seqNumber = true) :
    Resolved (pages ++ [p]) p.tags.objId (headerUpdate p.tags p.body p.idx obj) := by
  have hkey : p.headerKey = some p.tags.objId := if_pos hheader
  have hchunk : ∀ k, p.chunkKey ≠ some (p.tags.objId, k) := by
    simp [Page.chunkKey, hheader]
  have hrest : (headerUpdate p.tags p.body p.idx obj).chunks = obj.chunks
      ∧ (headerUpdate p.tags p.body p.idx obj).chunkCount = obj.chunkCount
      ∧ (headerUpdate p.tags p.body p.idx obj).chunkAlloc = obj.chunkAlloc := by
    unfold headerUpdate
    split <;> exact ⟨rfl, rfl, rfl⟩
  obtain ⟨hchunks, hcount, halloc⟩ := hrest
  refine ⟨?_, fun k => ?_, ?_, ⟨?_, ?_, ?_⟩⟩
  · rw [newestHeader, Newest.winner_concat_self hkey, Option.map_some, Option.getD_some]
    have hfields : headerIsStale obj p.tags p.idx = false →
        (headerUpdate p.tags p.body p.idx obj).headerFields = p.headerFields := by
      intro hfresh
      rw [headerUpdate, if_neg (by rw [hfresh]; exact Bool.false_ne_true)]
      rfl
    cases hw : Newest.winner Page.headerKey Page.stamp pages p.tags.objId with
    | none =>
        have hold := h.header
        rw [newestHeader, hw] at hold
        have hzero : obj.headerSeq = 0 := congrArg HeaderFields.headerSeq hold
        exact hfields (by simp [headerIsStale, hzero])
    | some q =>
        have hold := h.header
        rw [newestHeader, hw] at hold
        have hstale := headerIsStale_iff (p := p)
          (hseq q (Newest.winner_mem hw).1) hold
        simp only [Newest.supersede]
        split
        · rename_i hlt
          exact hfields (by
            rw [Bool.eq_false_iff]
            exact fun hs => hstale.mp hs hlt)
        · rename_i hlt
          rw [headerUpdate, if_pos (hstale.mpr hlt)]
          exact hold
  · rw [newestChunk, Newest.winner_concat_ne (hchunk (k + 1))]
    rw [Yaffs2Object.chunkAt, hchunks]
    exact h.chunk k
  · rw [greatestChunk_concat, hcount, h.count, if_neg (by simp [hheader])]
  · rw [hchunks, halloc]; exact h.chunks.null
  · rw [hchunks, halloc]; exact h.chunks.size
  · rw [hcount, halloc]; exact h.chunks.count

/-- A data page: the winner among the versions of its chunk, and the
greatest chunk id. -/
theorem Resolved.data_page {pages : List Page} {p : Page} {obj obj' : Yaffs2Object}
    (h : Resolved pages p.tags.objId obj) (hdata : p.tags.isHeader = false)
    (hrec : ChunkRecorded p.tags p.idx obj obj')
    (hidx : ∀ q ∈ pages, q.idx < yaffs2ChunkUnset) :
    Resolved (pages ++ [p]) p.tags.objId obj' := by
  have hheader : p.headerKey ≠ some p.tags.objId := by simp [Page.headerKey, hdata]
  have hfields : obj'.headerFields = obj.headerFields := by
    obtain ⟨chunks, alloc, count, rfl⟩ := hrec.rest
    rfl
  refine ⟨?_, fun k => ?_, ?_, hrec.ok⟩
  · rw [newestHeader, Newest.winner_concat_ne hheader, hfields]
    exact h.header
  · rw [hrec.chunkAt, h.chunk]
    by_cases hk : k + 1 = p.tags.chunkId.toNat
    · have hkey : p.chunkKey = some (p.tags.objId, k + 1) := by
        simp [Page.chunkKey, hdata, hk]
      rw [newestChunk, newestChunk, Newest.winner_concat_self hkey, Option.map_some,
        Option.getD_some]
      cases hw : Newest.winner Page.chunkKey Page.stamp pages (p.tags.objId, k + 1) with
      | none =>
          have hnew : chunkIsNewer .unset p.tags p.idx = true := by
            simp [chunkIsNewer, ChunkLoc.unset, yaffs2ChunkUnset]
          rw [Option.map_none, Option.getD_none, if_pos ⟨hk, hnew⟩]
          rfl
      | some q =>
          have hnewer := chunkIsNewer_iff (p := p) (hidx q (Newest.winner_mem hw).1)
          rw [Option.map_some, Option.getD_some]
          simp only [hk, true_and, hnewer, Newest.supersede]
          split <;> rfl
    · have hkey : p.chunkKey ≠ some (p.tags.objId, k + 1) := by
        simp [Page.chunkKey, hdata, Ne.symm hk]
      rw [if_neg (fun hc : _ ∧ _ => hk hc.1), newestChunk, newestChunk,
        Newest.winner_concat_ne hkey]
  · rw [hrec.count, h.count, greatestChunk_concat, if_pos ⟨rfl, hdata⟩]

/-! ## A sequence of pages -/

/-- The object table does not wrap: at every step of the sequence it has
room for the object id. -/
def RoomFor (pages : List Page) : Prop :=
  ∀ pre p, pre ++ [p] <+: pages → ∀ vol, replay noFailure .empty pre = .ok vol →
    TableRoom vol.maxObjId p.tags.objId

theorem Resolves.empty : Resolves [] .empty where
  table := .empty
  present := fun id => by simp [Yaffs2Volume.object?_empty]
  objects := fun id => by
    rw [Yaffs2Volume.object?_empty]
    exact .fresh id

/-- Pages that do not touch the object it is about leave a volume resolved
where they change nothing. -/
theorem Resolves.skip {pages : List Page} {p : Page} {vol : Yaffs2Volume}
    (h : Resolves pages vol) (hp : ∀ id, ¬p.Touches id) : Resolves (pages ++ [p]) vol where
  table := h.table
  present := fun id => by
    rw [h.present]
    simp [hp]
  objects := fun id => (h.objects id).skip (hp id)

/-- A call that stores a resolved object resolves the volume. -/
theorem Resolves.store {pages : List Page} {p : Page} {vol vol' : Yaffs2Volume}
    {obj' : Yaffs2Object} (h : Resolves pages vol) (htable : TableOK vol')
    (hp : p.Touches p.tags.objId) (hobj : Resolved (pages ++ [p]) p.tags.objId obj')
    (hview : ∀ j, vol'.object? j =
      if j = p.tags.objId then some obj' else vol.object? j) :
    Resolves (pages ++ [p]) vol' where
  table := htable
  present := fun id => by
    rw [hview]
    split
    · rename_i hid
      subst hid
      exact ⟨fun _ => ⟨p, by simp, hp⟩, fun _ => rfl⟩
    · rename_i hid
      have hne : ¬p.Touches id := fun ht => hid ht.1.symm
      rw [h.present]
      simp [hne]
  objects := fun id => by
    rw [hview]
    split
    · rename_i hid
      subst hid
      exact hobj
    · rename_i hid
      exact (h.objects id).skip fun ht => hid ht.1.symm

/-- One call on a resolved volume. -/
theorem replay_step {pages : List Page} {p : Page} {vol : Yaffs2Volume}
    (h : Resolves pages vol) (hpages : ∀ q ∈ pages, q.Valid) (hp : p.Valid)
    (hroom : TableRoom vol.maxObjId p.tags.objId) :
    ∃ vol', p.call.apply .full vol = .ok vol' ∧ Resolves (pages ++ [p]) vol' := by
  have hobj := h.objects p.tags.objId
  have htable : ∀ vol', p.call.apply .full vol = .ok vol' → TableOK vol' := fun vol' hrun =>
    (PageCall.apply_ok h.table (by rw [Page.call_tags]; exact hp.obj) hrun).1
  cases hheader : p.tags.isHeader with
  | true =>
      obtain ⟨vol', hrun, hview⟩ := processHeader_total h.table .full p.body p.idx
        hp.obj hroom
      have hcall : p.call.apply .full vol = .ok vol' := by
        rw [Page.call, if_pos hheader]; exact hrun
      exact ⟨vol', hcall, h.store (htable vol' hcall) ⟨rfl, Or.inl hheader⟩
        (hobj.header_page hheader fun q hq => (hpages q hq).seq) (hview rfl)⟩
  | false =>
      have hcall : p.call = .chunk p.tags p.idx := if_neg (by simp [hheader])
      by_cases hchunk : p.tags.chunkId = 0
      · refine ⟨vol, by simp [hcall, PageCall.apply, processDataChunk, hchunk],
          h.skip fun id ht => ?_⟩
        rcases ht.2 with hh | hne
        · rw [hheader] at hh
          cases hh
        · exact hne hchunk
      · have hchunks : ∀ i obj, vol.object? i = some obj → ChunksOK obj := by
          intro i obj hi
          have hres := (h.objects i).chunks
          rwa [hi] at hres
        obtain ⟨vol', hrun, hfull⟩ := processDataChunk_total h.table .full p.idx
          hp.obj hroom p.chunkId_lt hchunk hchunks
        obtain ⟨obj', hrec, hview⟩ := hfull rfl
        have hresolved : Resolved (pages ++ [p]) p.tags.objId obj' :=
          hobj.data_page hheader hrec fun q hq => (hpages q hq).idx
        have hrun' : p.call.apply .full vol = .ok vol' := by rw [hcall]; exact hrun
        exact ⟨vol', hrun', h.store (htable vol' hrun') ⟨rfl, Or.inr hchunk⟩
          hresolved hview⟩

/-- A whole sequence of calls ends and resolves the volume. -/
theorem replay_resolves (pages : List Page) (hpages : ∀ p ∈ pages, p.Valid)
    (hroom : RoomFor pages) :
    ∃ vol, replay noFailure .empty pages = .ok vol ∧ Resolves pages vol := by
  induction pages using List.reverseRecOn with
  | nil => exact ⟨.empty, rfl, .empty⟩
  | append_singleton pre p ih =>
      have hpre : ∀ q ∈ pre, q.Valid := fun q hq => hpages q (by simp [hq])
      obtain ⟨vol, hrun, hres⟩ := ih hpre fun pre' q hpre =>
        hroom pre' q (hpre.trans (List.prefix_append pre [p]))
      obtain ⟨vol', hstep, hres'⟩ := replay_step hres hpre (hpages p (by simp))
        (hroom pre p (List.prefix_refl _) vol hrun)
      refine ⟨vol', ?_, hres'⟩
      rw [replay, List.foldlM_append]
      exact bind_eq_ok.mpr ⟨vol, hrun, by rw [List.foldlM_cons, hstep]; rfl⟩

/-! ## The order of the pages -/

/-- Two slots that hold the same resolved object, whatever their arrays went
through. -/
structure SameResolved (o o' : Option Yaffs2Object) : Prop where
  header : o.map Yaffs2Object.headerFields = o'.map Yaffs2Object.headerFields
  chunk : ∀ k, o.map (fun obj => obj.chunkAt k) = o'.map fun obj => obj.chunkAt k
  count : o.map Yaffs2Object.chunkCount = o'.map Yaffs2Object.chunkCount

theorem Page.stamp_injOn {pages : List Page} (h : (pages.map Page.idx).Nodup) :
    ∀ p ∈ pages, ∀ q ∈ pages, p.stamp = q.stamp → p = q := by
  intro p hp q hq hstamp
  have hidx : p.idx = q.idx :=
    UInt32.toNat_inj.mp (congrArg Prod.snd (toLex.injective hstamp))
  exact List.inj_on_of_nodup_map h hp hq hidx

theorem greatestChunk_perm {pages pages' : List Page} (h : pages'.Perm pages)
    (id : UInt32) : greatestChunk pages' id = greatestChunk pages id := by
  unfold greatestChunk
  have : LeftCommutative (max : Nat → Nat → Nat) := ⟨by intros; omega⟩
  exact ((h.filter _).map _).foldr_eq 0

/-- Volumes that resolve two orders of the same pages show the same
objects. -/
theorem Resolves.same {pages pages' : List Page} {vol vol' : Yaffs2Volume}
    (h : Resolves pages vol) (h' : Resolves pages' vol') (hperm : pages'.Perm pages)
    (hdistinct : (pages.map Page.idx).Nodup) (id : UInt32) :
    SameResolved (vol'.object? id) (vol.object? id) := by
  have hinj := Page.stamp_injOn hdistinct
  have hsome : (vol'.object? id).isSome = (vol.object? id).isSome := by
    rw [Bool.eq_iff_iff, h.present, h'.present]
    simp only [hperm.mem_iff]
  have hobj := h.objects id
  have hobj' := h'.objects id
  cases hv : vol.object? id with
  | none =>
      rw [hv] at hsome
      have hnone : vol'.object? id = none := by simpa using hsome
      rw [hnone]
      exact ⟨rfl, fun _ => rfl, rfl⟩
  | some obj =>
      rw [hv] at hsome hobj
      obtain ⟨obj', hv'⟩ := Option.isSome_iff_exists.mp hsome
      rw [hv'] at hobj' ⊢
      rw [Option.getD_some] at hobj hobj'
      refine ⟨congrArg some ?_, fun k => congrArg some ?_, congrArg some ?_⟩
      · rw [hobj.header, hobj'.header, newestHeader, Newest.winner_perm hperm hinj]
      · show obj'.chunkAt k = obj.chunkAt k
        rw [hobj.chunk, hobj'.chunk, newestChunk, Newest.winner_perm hperm hinj]
      · exact UInt32.toNat_inj.mp
          (by rw [hobj.count, hobj'.count, greatestChunk_perm hperm])

/-- Handing over any sequence of distinct pages for which the object table
does not wrap leaves every object with its newest header and the newest
version of each chunk, in any order of the pages. -/
theorem replay_newest (pages : List Page) (hpages : ∀ p ∈ pages, p.Valid)
    (hdistinct : (pages.map Page.idx).Nodup) (hroom : RoomFor pages) :
    ∃ vol, replay noFailure .empty pages = .ok vol ∧ Resolves pages vol
      ∧ ∀ pages', pages'.Perm pages → RoomFor pages' →
        ∃ vol', replay noFailure .empty pages' = .ok vol'
          ∧ ∀ id, SameResolved (vol'.object? id) (vol.object? id) := by
  obtain ⟨vol, hrun, hres⟩ := replay_resolves pages hpages hroom
  refine ⟨vol, hrun, hres, fun pages' hperm hroom' => ?_⟩
  obtain ⟨vol', hrun', hres'⟩ := replay_resolves pages'
    (fun p hp => hpages p (hperm.mem_iff.mp hp)) hroom'
  exact ⟨vol', hrun', hres.same hres' hperm hdistinct⟩

/-- Ids below the wrap of `ObjId + 64` have room in every order. -/
theorem roomFor_of_le {pages : List Page}
    (h : ∀ p ∈ pages, p.tags.objId.toNat ≤ 0xFFFFFFBE) : RoomFor pages :=
  fun _ p hpre _ _ => Or.inl (h p (hpre.subset (by simp)))

/-- Two versions of the first chunk of object 0x101, the newer one first. -/
def twoVersions : List Page :=
  [⟨9, ⟨0x1001, 0x101, 1, 7⟩, fun _ => 0⟩, ⟨4, ⟨0x1000, 0x101, 1, 8⟩, fun _ => 0⟩]

theorem replay_newest_twoVersions :
    ∃ vol, replay noFailure .empty twoVersions = .ok vol ∧ Resolves twoVersions vol
      ∧ ∀ pages', pages'.Perm twoVersions → RoomFor pages' →
        ∃ vol', replay noFailure .empty pages' = .ok vol'
          ∧ ∀ id, SameResolved (vol'.object? id) (vol.object? id) :=
  replay_newest twoVersions
    (fun p hp => ⟨(by decide : ∀ p ∈ twoVersions, seqInRange p.tags.seqNumber = true) p hp,
      (by decide : ∀ p ∈ twoVersions, p.tags.objId ≠ 0) p hp,
      (by decide : ∀ p ∈ twoVersions, p.idx < yaffs2ChunkUnset) p hp⟩)
    (by decide) (roomFor_of_le (by decide))

end Ccr2004
