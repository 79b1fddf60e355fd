import Mathlib.Data.Nat.Bitwise
import Ccr2004.YaffsTable

/-!
# Chunk arrays

`ProcessDataChunk` on one object. `ChunksOK` is the representation
invariant of a growable chunk array: the buffer has `ChunkAlloc` entries
and `ChunkCount` does not exceed it. A chunk id that tags can carry has
bit 31 clear, so neither growth rule wraps (`nextChunkAlloc_of_lt`), and a
call never leaves the array.
-/

namespace Ccr2004

/-! ## Chunk ids -/

theorem toNat_lt_of_and_eq_zero {x : UInt32} (h : x &&& 0x80000000 = 0) :
    x.toNat < 2 ^ 31 := by
  have hx := x.toNat_lt
  have hand : x.toNat &&& 2 ^ 31 = 0 := by
    have := congrArg UInt32.toNat h
    rwa [UInt32.toNat_and] at this
  rw [Nat.and_two_pow, Nat.testBit_eq_decide_div_mod_eq] at hand
  by_contra hge
  have hbit : x.toNat / 2 ^ 31 % 2 = 1 := by omega
  simp at hand
  omega

/-- The chunk id of a data page has bit 31 clear. -/
theorem parseTagWords_chunkId_lt (raw : RawTags) :
    (parseTagWords raw).chunkId.toNat < 2 ^ 31 := by
  unfold parseTagWords
  split
  · simp
  · rename_i h
    exact toNat_lt_of_and_eq_zero (by simpa using h)

/-! ## The array of an object -/

/-- Entry `k` of the chunk array; past the array a chunk is unset. -/
def Yaffs2Object.chunkAt (obj : Yaffs2Object) (k : Nat) : ChunkLoc :=
  ((obj.chunks.getD [])[k]?).getD .unset

/-- The array and its two counters agree. -/
structure ChunksOK (obj : Yaffs2Object) : Prop where
  null : obj.chunks = none → obj.chunkAlloc = 0
  size : ∀ chunks, obj.chunks = some chunks → chunks.length = obj.chunkAlloc.toNat
  count : obj.chunkCount ≤ obj.chunkAlloc

theorem ChunksOK.fresh (id : UInt32) : ChunksOK (.fresh id) where
  null := fun _ => rfl
  size := fun _ h => by cases h
  count := UInt32.le_refl 0

/-- Growth covers the chunk and does not wrap. -/
theorem nextChunkAlloc_of_lt {alloc chunkId : UInt32} (hgt : alloc < chunkId)
    (hid : chunkId.toNat < 2 ^ 31) :
    chunkId ≤ nextChunkAlloc alloc chunkId ∧ alloc ≤ nextChunkAlloc alloc chunkId := by
  rw [UInt32.lt_iff_toNat_lt] at hgt
  have hdouble : (alloc * 2).toNat = alloc.toNat * 2 := by
    rw [UInt32.toNat_mul]; simp only [UInt32.reduceToNat]; omega
  have hextra : (chunkId + 8).toNat = chunkId.toNat + 8 := by
    rw [UInt32.toNat_add]; simp only [UInt32.reduceToNat]; omega
  unfold nextChunkAlloc
  dsimp only
  generalize hfloor : (if alloc * 2 < 8 then 8 else alloc * 2) = floored
  have hle : alloc.toNat ≤ floored.toNat := by
    rw [← hfloor]
    split
    · rename_i h
      rw [UInt32.lt_iff_toNat_lt, hdouble] at h
      simp only [UInt32.reduceToNat] at h ⊢
      omega
    · omega
  simp only [UInt32.le_iff_toNat_le, UInt32.lt_iff_toNat_lt]
  split <;> omega

theorem getD_append_replicate {α : Type} (old : List α) (a : α) (n k : Nat) :
    ((old ++ List.replicate n a)[k]?).getD a = (old[k]?).getD a := by
  by_cases hk : k < old.length
  · rw [List.getElem?_append_left hk]
  · rw [List.getElem?_append_right (by omega), List.getElem?_replicate,
      List.getElem?_eq_none (l := old) (by omega)]
    split <;> rfl

/-- `growChunks` never faults on a chunk id that tags can carry: it fails
with the allocation, or the array covers the chunk and shows the same
entries. -/
theorem growChunks_total (pool : Pool) {obj : Yaffs2Object} (hok : ChunksOK obj)
    {chunkId : UInt32} (hid : chunkId.toNat < 2 ^ 31) :
    ∃ grown, growChunks pool obj chunkId = .ok grown
      ∧ (pool .chunks = true → grown ≠ none)
      ∧ ∀ obj', grown = some obj' → ChunksOK obj' ∧ chunkId ≤ obj'.chunkAlloc
        ∧ (∀ k, obj'.chunkAt k = obj.chunkAt k) := by
  unfold growChunks
  by_cases hgt : chunkId > obj.chunkAlloc
  · rw [if_pos hgt]
    by_cases hpool : pool .chunks = true
    · obtain ⟨hcover, hgrow⟩ := nextChunkAlloc_of_lt hgt hid
      have hcopy := carryOver_replicate ChunkLoc.unset hok.size
        (UInt32.le_iff_toNat_le.mp hgrow)
      have hlen : (obj.chunks.getD []).length ≤ obj.chunkAlloc.toNat := by
        cases hchunks : obj.chunks with
        | none => exact Nat.zero_le _
        | some old => exact Nat.le_of_eq (hok.size old hchunks)
      rw [UInt32.le_iff_toNat_le] at hgrow
      refine ⟨_, by simp only [hpool, Bool.not_true, Bool.false_eq_true, if_false,
        hcopy, ok_bind]; rfl, fun _ => by simp, ?_⟩
      intro obj' hobj'
      obtain rfl := Option.some.inj hobj'
      refine ⟨⟨fun h => (by cases h), ?_, ?_⟩, hcover, ?_⟩
      · intro chunks hchunks
        obtain rfl := Option.some.inj hchunks
        rw [List.length_append, List.length_replicate]
        simp only
        omega
      · exact UInt32.le_trans hok.count (UInt32.le_iff_toNat_le.mpr hgrow)
      · intro k
        exact getD_append_replicate _ _ _ _
    · refine ⟨none, by simp [hpool], fun h => absurd h hpool, fun _ h => by cases h⟩
  · rw [if_neg hgt]
    refine ⟨some obj, rfl, fun _ => by simp, fun obj' hobj' => ?_⟩
    obtain rfl := Option.some.inj hobj'
    exact ⟨hok, UInt32.not_lt.mp hgt, fun _ => rfl⟩

/-- `recordChunk` on an array that covers the chunk. -/
theorem recordChunk_total {obj : Yaffs2Object} (hok : ChunksOK obj)
    {tags : Yaffs2Tags} (hid : tags.chunkId ≠ 0) (hcover : tags.chunkId ≤ obj.chunkAlloc)
    (page : UInt32) :
    ∃ obj', recordChunk obj tags page = .ok obj' ∧ ChunksOK obj'
      ∧ obj'.chunkCount.toNat = max tags.chunkId.toNat obj.chunkCount.toNat
      ∧ ∀ k, obj'.chunkAt k =
          if k + 1 = tags.chunkId.toNat
              ∧ chunkIsNewer (obj.chunkAt k) tags page = true then
            ⟨page, tags.nBytes, tags.seqNumber⟩
          else obj.chunkAt k := by
  have hpos : tags.chunkId.toNat ≠ 0 := fun h => hid (UInt32.toNat_inj.mp h)
  have hidx : (tags.chunkId - 1).toNat = tags.chunkId.toNat - 1 := by
    rw [UInt32.toNat_sub_of_le _ _ (by
      rw [UInt32.le_iff_toNat_le]; simp only [UInt32.reduceToNat]; omega)]
    rfl
  rw [UInt32.le_iff_toNat_le] at hcover
  cases hchunks : obj.chunks with
  | none =>
      have hnone := hok.null hchunks
      rw [hnone] at hcover
      simp only [UInt32.reduceToNat] at hcover
      omega
  | some chunks =>
      have hsize := hok.size chunks hchunks
      have hlt : (tags.chunkId - 1).toNat < chunks.length := by omega
      obtain ⟨existing, hex⟩ : ∃ e, obj.chunkAt (tags.chunkId - 1).toNat = e :=
        ⟨_, rfl⟩
      have hget : chunks[(tags.chunkId - 1).toNat]? = some existing := by
        simp [← hex, Yaffs2Object.chunkAt, hchunks, hlt]
      have hrun : recordChunk obj tags page = .ok { obj with
          chunks := some (if chunkIsNewer existing tags page then
              chunks.set (tags.chunkId - 1).toNat ⟨page, tags.nBytes, tags.seqNumber⟩
            else chunks)
          chunkCount :=
            if tags.chunkId > obj.chunkCount then tags.chunkId else obj.chunkCount } := by
        simp only [recordChunk, hchunks, hget]
      have hcount : (if tags.chunkId > obj.chunkCount then tags.chunkId
          else obj.chunkCount).toNat = max tags.chunkId.toNat obj.chunkCount.toNat := by
        split
        · rename_i h
          exact (Nat.max_eq_left (Nat.le_of_lt (UInt32.lt_iff_toNat_lt.mp h))).symm
        · rename_i h
          exact (Nat.max_eq_right (UInt32.le_iff_toNat_le.mp (UInt32.not_lt.mp h))).symm
      refine ⟨_, hrun, ⟨fun h => (by cases h), ?_, ?_⟩, hcount, fun k => ?_⟩
      · intro l hl
        obtain rfl := Option.some.inj hl
        split
        · rw [List.length_set]; exact hsize
        · exact hsize
      · simp only
        split
        · exact UInt32.le_iff_toNat_le.mpr hcover
        · exact hok.count
      · have hold : obj.chunkAt k = (chunks[k]?).getD .unset := by
          simp [Yaffs2Object.chunkAt, hchunks]
        by_cases hk : k + 1 = tags.chunkId.toNat
        · have hkidx : (tags.chunkId - 1).toNat = k := by omega
          rw [hkidx] at hex hlt
          rw [hex]
          by_cases hnew : chunkIsNewer existing tags page = true
          · simp [Yaffs2Object.chunkAt, hnew, hkidx, hlt, hk]
          · rw [if_neg (fun h : _ ∧ _ => hnew h.2)]
            simp only [Yaffs2Object.chunkAt, if_neg hnew, Option.getD_some]
            rw [← hex, hold]
        · have hkne : (tags.chunkId - 1).toNat ≠ k := by omega
          rw [if_neg (fun h : _ ∧ _ => hk h.1), hold]
          by_cases hnew : chunkIsNewer existing tags page = true
          · simp [Yaffs2Object.chunkAt, hnew, List.getElem?_set_ne hkne]
          · simp [Yaffs2Object.chunkAt, hnew]

/-! ## A whole chunk call -/

/-- What a chunk call that gets its memory leaves behind. -/
structure ChunkRecorded (tags : Yaffs2Tags) (page : UInt32)
    (obj obj' : Yaffs2Object) : Prop where
  ok : ChunksOK obj'
  count : obj'.chunkCount.toNat = max tags.chunkId.toNat obj.chunkCount.toNat
  chunkAt : ∀ k, obj'.chunkAt k =
    if k + 1 = tags.chunkId.toNat ∧ chunkIsNewer (obj.chunkAt k) tags page = true then
      ⟨page, tags.nBytes, tags.seqNumber⟩
    else obj.chunkAt k
  rest : ∃ chunks alloc count, obj' = { obj with
    chunks := chunks, chunkAlloc := alloc, chunkCount := count }

/-- Growing and recording one chunk never faults. -/
theorem growChunks_recordChunk (pool : Pool) {obj : Yaffs2Object} (hok : ChunksOK obj)
    {tags : Yaffs2Tags} (hid : tags.chunkId ≠ 0) (hlt : tags.chunkId.toNat < 2 ^ 31)
    (page : UInt32) :
    (growChunks pool obj tags.chunkId = .ok none ∧ pool .chunks = false)
      ∨ ∃ grown obj', growChunks pool obj tags.chunkId = .ok (some grown)
        ∧ recordChunk grown tags page = .ok obj' ∧ ChunkRecorded tags page obj obj' := by
  obtain ⟨grown, hgrow, hpool, hgrown⟩ := growChunks_total pool hok hlt
  cases grown with
  | none => exact Or.inl ⟨hgrow, by simpa using fun h => hpool h rfl⟩
  | some grown =>
      obtain ⟨hok₁, hcover, hat₁⟩ := hgrown grown rfl
      obtain ⟨obj', hrec, hok₂, hcount, hat₂⟩ := recordChunk_total hok₁ hid hcover page
      have hsame : grown.chunkCount = obj.chunkCount := by
        obtain ⟨chunks, alloc, rfl⟩ := growChunks_eq_some hgrow
        rfl
      have hupd : (PageCall.chunk tags page).Updates pool obj obj' :=
        Or.inr ⟨hid, grown, hgrow, hrec⟩
      refine Or.inr ⟨grown, obj', hgrow, hrec, hok₂, by rw [hcount, hsame], fun k => ?_,
        hupd.of_chunk⟩
      rw [hat₂, hat₁]

/-- Updates keep the chunk array well formed. -/
theorem PageCall.Updates.chunksOK {pool : Pool} {obj obj' : Yaffs2Object}
    {c : PageCall} (h : c.Updates pool obj obj')
    (hlt : c.tags.chunkId.toNat < 2 ^ 31) (hok : ChunksOK obj) : ChunksOK obj' := by
  cases c with
  | header tags body page =>
      rw [h, headerUpdate]
      split
      · exact hok
      · exact ⟨hok.null, hok.size, hok.count⟩
  | chunk tags page =>
      rcases h with rfl | ⟨hid, grown, hgrow, hrec⟩
      · exact hok
      · rcases growChunks_recordChunk pool hok hid hlt page with
          ⟨hnone, -⟩ | ⟨grown', obj₁, hgrow', hrec', hrecorded⟩
        · rw [hgrow] at hnone
          cases Except.ok.inj hnone
        · rw [hgrow] at hgrow'
          obtain rfl := Option.some.inj (Except.ok.inj hgrow')
          rw [hrec] at hrec'
          obtain rfl := Except.ok.inj hrec'
          exact hrecorded.ok

end Ccr2004
