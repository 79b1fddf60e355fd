import Ccr2004.YaffsTypes

/-!
# The NAND scan

`Scan.c`, function by function. `ProcessHeader` and `ProcessDataChunk`
resolve the versions of one page into the volume; `ScanBlockViaSummary` and
`ScanBlockPageByPage` are the two ways through a block; `BuildTree` turns
the object table into a directory tree.

Every allocation takes its outcome from a `Pool`, so that a statement may
let any of them fail. An access through `Objects` or `Chunks` is checked
against the buffer that is really allocated, not against `MaxObjId` or
`ChunkAlloc`. The scan's `handed` field is a history variable: the pages
handed to the two processing functions, in order. No function reads it.
-/

namespace Ccr2004

/-! ## Memory -/

/-- The places where the scan allocates. -/
inductive AllocSite where
  | objects
  | object
  | chunks
deriving Repr, DecidableEq

/-- Whether each allocation of one call succeeds. -/
abbrev Pool := AllocSite → Bool

/-- The pool in which every allocation succeeds. -/
def Pool.full : Pool := fun _ => true

/-- `CopyMem` of `n` elements between two buffers. -/
def copyMem {α : Type} (dst src : List α) (n : Nat) : Run (List α) :=
  if n ≤ dst.length ∧ n ≤ src.length then .ok (src.take n ++ dst.drop n)
  else .error .outOfBounds

/-- Fill a buffer just allocated from the one it replaces, unless that one
is null. -/
def carryOver {α : Type} (fresh : List α) (old : Option (List α)) (n : Nat) :
    Run (List α) :=
  match old with
  | none => .ok fresh
  | some old => copyMem fresh old n

/-! ## Tags -/

def areTagsErased (raw : RawTags) : Bool :=
  raw.word0 == 0xFFFFFFFF && raw.word1 == 0xFFFFFFFF
    && raw.word2 == 0xFFFFFFFF && raw.word3 == 0xFFFFFFFF

def parseTagWords (raw : RawTags) : Yaffs2Tags :=
  if raw.word2 &&& 0x80000000 ≠ 0 then
    { seqNumber := raw.word0, objId := raw.word1 &&& 0x0FFFFFFF
      chunkId := 0, nBytes := raw.word3, isHeader := true }
  else
    { seqNumber := raw.word0, objId := raw.word1
      chunkId := raw.word2, nBytes := raw.word3, isHeader := false }

/-- The scan's sequence number test. -/
def seqInRange (seq : UInt32) : Bool :=
  !(seq < yaffs2SeqMin || seq > yaffs2SeqMax)

/-- The object ids neither path processes. -/
def isPseudoObject (objId : UInt32) : Bool :=
  objId == 0 || objId == yaffs2ObjectIdUnlinked
    || objId == yaffs2ObjectIdDeleted || objId == yaffs2SummaryObjId

/-! ## The object table -/

/-- The `MaxObjId` that `EnsureObjectsCapacity` grows to. -/
def nextMaxObjId (maxObjId objId : UInt32) : UInt32 :=
  let newMax := (maxObjId + 1) * 2
  let newMax := if newMax < 256 then 256 else newMax
  if newMax ≤ objId then objId + 64 else newMax

def ensureObjectsCapacity (pool : Pool) (vol : Yaffs2Volume) (objId : UInt32) :
    Run (EfiStatus × Yaffs2Volume) :=
  if objId ≤ vol.maxObjId then .ok (.success, vol)
  else
    let newMax := nextMaxObjId vol.maxObjId objId
    if !pool .objects then .ok (.outOfResources, vol)
    else do
      let newObjects := List.replicate (newMax + 1).toNat none
      let newObjects ← carryOver newObjects vol.objects (vol.maxObjId + 1).toNat
      .ok (.success, { vol with objects := some newObjects, maxObjId := newMax })

def findOrCreateObject (pool : Pool) (vol : Yaffs2Volume) (objId : UInt32) :
    Run (Option Yaffs2Object × Yaffs2Volume) := do
  let (status, vol) ← ensureObjectsCapacity pool vol objId
  if status.isError then .ok (none, vol)
  else
    match ← vol.slot objId with
    | some obj => .ok (some obj, vol)
    | none =>
        if !pool .object then .ok (none, vol)
        else
          let obj := Yaffs2Object.fresh objId
          .ok (some obj, vol.setSlot objId (some obj))

/-! ## Headers -/

/-- `ProcessHeader`'s test for an existing header that is newer. -/
def headerIsStale (obj : Yaffs2Object) (tags : Yaffs2Tags) (pageIdx : UInt32) : Bool :=
  obj.headerSeq ≠ 0
    && (tags.seqNumber < obj.headerSeq
      || (tags.seqNumber == obj.headerSeq && pageIdx ≤ obj.headerPage))

/-- A 32-bit field in which all ones stand for zero. -/
def unsetToZero (v : UInt32) : UInt32 :=
  if v = 0xFFFFFFFF then 0 else v

/-- `Obj->Name` after copying 255 bytes and terminating. -/
def headerName (data : PageData) : List.Vector UInt8 256 :=
  List.Vector.ofFn fun i => if i.val < 255 then data.byte (0x0A + i.val) else 0

/-- `Obj->Alias` after copying 159 bytes and terminating. -/
def headerAlias (data : PageData) : List.Vector UInt8 160 :=
  List.Vector.ofFn fun i => if i.val < 159 then data.byte (0x130 + i.val) else 0

/-- The object header fields of a page, written over an object. -/
def parseObjectHeader (data : PageData) (obj : Yaffs2Object) : Yaffs2Object :=
  let type := data.u32 0x00
  let sizeLow := unsetToZero (data.u32 0x124)
  let sizeHigh := unsetToZero (data.u32 0x128)
  { obj with
    type := type
    parentId := data.u32 0x04
    name := headerName data
    mode := data.u32 0x10C
    mTime := unsetToZero (data.u32 0x11C)
    fileSize := sizeLow.toUInt64 ||| (sizeHigh.toUInt64 <<< 32)
    equivId := unsetToZero (data.u32 0x12C)
    aliasPath := if type = yaffs2TypeSymlink then headerAlias data else obj.aliasPath }

def processHeader (pool : Pool) (vol : Yaffs2Volume) (pageBuf : PageData)
    (tags : Yaffs2Tags) (pageIdx : UInt32) : Run Yaffs2Volume := do
  let (found, vol) ← findOrCreateObject pool vol tags.objId
  match found with
  | none => .ok vol
  | some obj =>
      if headerIsStale obj tags pageIdx then .ok vol
      else
        let obj := { parseObjectHeader pageBuf obj with
          headerSeq := tags.seqNumber, headerPage := pageIdx }
        .ok (vol.setSlot tags.objId (some obj))

/-! ## Data chunks -/

/-- The `ChunkAlloc` that `ProcessDataChunk` grows to. -/
def nextChunkAlloc (chunkAlloc chunkId : UInt32) : UInt32 :=
  let newAlloc := chunkAlloc * 2
  let newAlloc := if newAlloc < 8 then 8 else newAlloc
  if newAlloc < chunkId then chunkId + 8 else newAlloc

/-- Make room for a chunk; `none` when the allocation fails. -/
def growChunks (pool : Pool) (obj : Yaffs2Object) (chunkId : UInt32) :
    Run (Option Yaffs2Object) :=
  if chunkId > obj.chunkAlloc then
    let newAlloc := nextChunkAlloc obj.chunkAlloc chunkId
    if !pool .chunks then .ok none
    else do
      let newChunks := List.replicate newAlloc.toNat ChunkLoc.unset
      let newChunks ← carryOver newChunks obj.chunks obj.chunkAlloc.toNat
      .ok (some { obj with chunks := some newChunks, chunkAlloc := newAlloc })
  else .ok (some obj)

/-- The test for a chunk version that replaces the existing one. -/
def chunkIsNewer (existing : ChunkLoc) (tags : Yaffs2Tags) (pageIdx : UInt32) : Bool :=
  existing.pageIndex == yaffs2ChunkUnset || tags.seqNumber > existing.seqNumber
    || (tags.seqNumber == existing.seqNumber && pageIdx > existing.pageIndex)

/-- Record a chunk version in the object's array and track the greatest
chunk id. -/
def recordChunk (obj : Yaffs2Object) (tags : Yaffs2Tags) (pageIdx : UInt32) :
    Run Yaffs2Object :=
  let chunkIdx := tags.chunkId - 1
  match obj.chunks with
  | none => .error .nullDeref
  | some chunks =>
      match chunks[chunkIdx.toNat]? with
      | none => .error .outOfBounds
      | some existing =>
          let chunks :=
            if chunkIsNewer existing tags pageIdx then
              chunks.set chunkIdx.toNat ⟨pageIdx, tags.nBytes, tags.seqNumber⟩
            else chunks
          .ok { obj with
            chunks := some chunks
            chunkCount :=
              if tags.chunkId > obj.chunkCount then tags.chunkId else obj.chunkCount }

def processDataChunk (pool : Pool) (vol : Yaffs2Volume) (tags : Yaffs2Tags)
    (pageIdx : UInt32) : Run Yaffs2Volume :=
  if tags.chunkId = 0 then .ok vol
  else do
    let (found, vol) ← findOrCreateObject pool vol tags.objId
    match found with
    | none => .ok vol
    | some obj =>
        match ← growChunks pool obj tags.chunkId with
        | none => .ok vol
        | some obj =>
            let obj ← recordChunk obj tags pageIdx
            .ok (vol.setSlot tags.objId (some obj))

/-! ## Pages handed to the volume -/

/-- A call of `ProcessHeader` or `ProcessDataChunk`. -/
inductive PageCall where
  | header (tags : Yaffs2Tags) (body : PageData) (page : UInt32)
  | chunk (tags : Yaffs2Tags) (page : UInt32)

def PageCall.page : PageCall → UInt32
  | .header _ _ page => page
  | .chunk _ page => page

def PageCall.tags : PageCall → Yaffs2Tags
  | .header tags _ _ => tags
  | .chunk tags _ => tags

/-- Make the call. -/
def PageCall.apply (pool : Pool) (vol : Yaffs2Volume) : PageCall → Run Yaffs2Volume
  | .header tags body page => processHeader pool vol body tags page
  | .chunk tags page => processDataChunk pool vol tags page

/-- The state of a scan: the device, the volume and the two page counters,
with the history of the calls made. -/
structure ScanState (σ : Type) where
  nand : σ
  volume : Yaffs2Volume
  pageCount : UInt32
  headerCount : UInt32
  handed : List PageCall

/-- The device after a read. -/
def ScanState.device {σ : Type} (st : ScanState σ) (n : σ) : ScanState σ :=
  { st with nand := n }

/-- Hand a page over; `pools` decides the allocations of the call for each
page. -/
def ScanState.hand {σ : Type} (pools : UInt32 → Pool) (st : ScanState σ)
    (call : PageCall) : Run (ScanState σ) := do
  let vol ← call.apply (pools call.page) st.volume
  .ok { st with volume := vol, handed := st.handed ++ [call] }

/-! ## The summary path -/

/-- One entry of a block summary. -/
structure SummaryEntry where
  objId : UInt32
  chunkId : UInt32
  nBytes : UInt32
deriving Repr, DecidableEq

/-- The entry of an erased page. -/
def SummaryEntry.erased : SummaryEntry := ⟨0xFFFFFFFF, 0xFFFFFFFF, 0xFFFFFFFF⟩

/-- The entry of a page whose summary is missing. -/
def SummaryEntry.zero : SummaryEntry := ⟨0, 0, 0⟩

def yaffs2SummaryHeaderSize : UInt32 := 16
def yaffs2SummaryEntrySize : UInt32 := 12
def yaffs2SummaryVersion : UInt32 := 1

/-- `YAFFS2_MAX_PAGES_PER_BLK`: the entries that fit in `EntryStore`. -/
def yaffs2MaxPagesPerBlk : Nat := 64

/-- The tags of a summary page. -/
def isSummaryPage (raw : RawTags) : Bool :=
  raw.word1 == yaffs2SummaryObjId && raw.word2 &&& 0x80000000 == 0 && raw.word2 == 1

/-- The byte sum of `[off, off + n)` in 32 bits. -/
def byteSum (page : PageData) (off n : Nat) : UInt32 :=
  (List.range n).foldl (fun sum i => sum + (page.byte (off + i)).toUInt32) 0

/-- `SummaryChecksum`: the byte sum, with its reads checked. -/
def summaryChecksum (page : PageData) (off n : Nat) : Run UInt32 :=
  if off + n ≤ pageBytes then .ok (byteSum page off n) else .error .outOfBounds

/-- The three words of entry `i`. -/
def summaryEntryAt (page : PageData) (i : Nat) : SummaryEntry :=
  ⟨page.u32 (16 + i * 12), page.u32 (16 + i * 12 + 4), page.u32 (16 + i * 12 + 8)⟩

/-- Load entry `i`. -/
def loadSummaryEntry (page : PageData) (i : Nat) : Run SummaryEntry := do
  let objId ← page.load32 (16 + i * 12)
  let chunkId ← page.load32 (16 + i * 12 + 4)
  let nBytes ← page.load32 (16 + i * 12 + 8)
  .ok ⟨objId, chunkId, nBytes⟩

/-- The checks on the body of a summary page: version, sequence number,
size, checksum, and an all-zero first entry. The result is `BlockSeq`. -/
def checkSummary (pagesPerBlock : UInt32) (page : PageData) : Run (Option UInt32) :=
  let version := page.u32 0
  let blockSeq := page.u32 8
  let storedSum := page.u32 12
  if version ≠ yaffs2SummaryVersion then .ok none
  else if !seqInRange blockSeq then .ok none
  else
    let numEntries := pagesPerBlock - 1
    let summaryBytes := numEntries * yaffs2SummaryEntrySize
    if yaffs2SummaryHeaderSize + summaryBytes > yaffs2DataPerPage then .ok none
    else do
      let sum ← summaryChecksum page 16 summaryBytes.toNat
      if sum ≠ storedSum then .ok none
      else
        let first ← loadSummaryEntry page 0
        if first = .zero then .ok none else .ok (some blockSeq)

/-- One round of the copy to `EntryStore`: stop at an all-ones entry. -/
def copyEntry (page : PageData) (i : Nat) (store : List SummaryEntry) :
    Run (Flow (List SummaryEntry) (List SummaryEntry)) := do
  let e ← loadSummaryEntry page i
  if e = .erased then .ok (.exit store)
  else if store.length < yaffs2MaxPagesPerBlk then .ok (.next (store ++ [e]))
  else .error .outOfBounds

/-- The entries up to the first erased one. -/
def copyEntries (pagesPerBlock : UInt32) (page : PageData) : Run (List SummaryEntry) := do
  let store ← forFrom (copyEntry page) (pagesPerBlock - 1).toNat 0 []
  .ok store.state

/-- The tags an entry unpacks to. -/
def unpackEntry (blockSeq : UInt32) (e : SummaryEntry) : Yaffs2Tags :=
  if e.chunkId &&& 0x80000000 ≠ 0 then
    { seqNumber := blockSeq, objId := e.objId &&& 0x0FFFFFFF
      chunkId := 0, nBytes := e.nBytes, isHeader := true }
  else
    { seqNumber := blockSeq, objId := e.objId
      chunkId := e.chunkId, nBytes := e.nBytes, isHeader := false }

section Nand

variable {σ : Type} (nand : NandFlashProtocol σ) (pools : UInt32 → Pool)

/-- Process entry `i` of the block at `basePage`. -/
def processEntry (basePage blockSeq : UInt32) (entries : List SummaryEntry)
    (i : Nat) (st : ScanState σ) : Run (Flow (ScanState σ) (ScanState σ)) :=
  match entries[i]? with
  | none => .error .outOfBounds
  | some e =>
      let tags := unpackEntry blockSeq e
      let page := basePage + UInt32.ofNat i
      if isPseudoObject tags.objId then .ok (.next st)
      else
        let st := { st with pageCount := st.pageCount + 1 }
        if tags.isHeader then
          match nand.readPage page st.nand with
          | (.error _, n) => .ok (.next (st.device n))
          | (.ok body, n) => do
              let st := { st.device n with headerCount := st.headerCount + 1 }
              let st ← st.hand pools (.header tags body page)
              .ok (.next st)
        else do
          let st ← st.hand pools (.chunk tags page)
          .ok (.next st)

/-- The block's last page, read as a summary: `BlockSeq` and the entries
when every check passes. -/
def readSummary (block : UInt32) (n : σ) :
    Run (Option (UInt32 × List SummaryEntry) × σ) :=
  let basePage := block * nand.pagesPerBlock
  let summaryPage := basePage + (nand.pagesPerBlock - 1)
  match nand.readTags summaryPage n with
  | (.error _, n) => .ok (none, n)
  | (.ok raw, n) =>
      if areTagsErased raw then .ok (none, n)
      else if !isSummaryPage raw then .ok (none, n)
      else
        match nand.readPageBody n with
        | (.error _, n) => .ok (none, n)
        | (.ok body, n) => do
            match ← checkSummary nand.pagesPerBlock body with
            | none => .ok (none, n)
            | some blockSeq => do
                let entries ← copyEntries nand.pagesPerBlock body
                .ok (some (blockSeq, entries), n)

def scanBlockViaSummary (block : UInt32) (st : ScanState σ) :
    Run (Bool × ScanState σ) := do
  match ← readSummary nand block st.nand with
  | (none, n) => .ok (false, st.device n)
  | (some (blockSeq, entries), n) => do
      let basePage := block * nand.pagesPerBlock
      let st ← forFrom (processEntry nand pools basePage blockSeq entries)
        entries.length 0 (st.device n)
      .ok (true, st.state)

/-! ## The page-by-page path -/

/-- Process page `pageInBlock` of the block at `basePage`. -/
def scanPage (basePage : UInt32) (pageInBlock : Nat) (st : ScanState σ) :
    Run (Flow (ScanState σ) (ScanState σ)) :=
  let page := basePage + UInt32.ofNat pageInBlock
  match nand.readTags page st.nand with
  | (.error _, n) => .ok (.exit (st.device n))
  | (.ok raw, n) =>
      let st := st.device n
      if areTagsErased raw then .ok (.exit st)
      else
        let tags := parseTagWords raw
        if !seqInRange tags.seqNumber then .ok (.next st)
        else if isPseudoObject tags.objId then .ok (.next st)
        else
          let st := { st with pageCount := st.pageCount + 1 }
          if tags.isHeader then
            match nand.readPageBody st.nand with
            | (.error _, n) => .ok (.next (st.device n))
            | (.ok body, n) => do
                let st := { st.device n with headerCount := st.headerCount + 1 }
                let st ← st.hand pools (.header tags body page)
                .ok (.next st)
          else do
            let st ← st.hand pools (.chunk tags page)
            .ok (.next st)

def scanBlockPageByPage (block : UInt32) (st : ScanState σ) : Run (ScanState σ) := do
  let basePage := block * nand.pagesPerBlock
  let st ← forFrom (scanPage nand pools basePage) nand.pagesPerBlock.toNat 0 st
  .ok st.state

/-! ## The whole scan -/

/-- One round of the block loop. -/
def scanBlock (block : Nat) (st : ScanState σ) :
    Run (Flow (ScanState σ) (ScanState σ)) :=
  let block := UInt32.ofNat block
  let basePage := block * nand.pagesPerBlock
  match nand.readTags basePage st.nand with
  | (.error _, n) => .ok (.next (st.device n))
  | (.ok raw, n) =>
      if areTagsErased raw then .ok (.next (st.device n))
      else do
        let (done, st) ← scanBlockViaSummary nand pools block (st.device n)
        if done then .ok (.next st)
        else do
          let st ← scanBlockPageByPage nand pools block st
          .ok (.next st)

/-- The block loop of `Yaffs2ScanNand`. -/
def scanBlocks (st : ScanState σ) : Run (ScanState σ) := do
  let st ← forFrom (scanBlock nand pools) nand.numBlocks.toNat 0 st
  .ok st.state

end Nand

/-! ## The directory tree -/

/-- What `BuildTree`'s first pass removes: objects without a header,
pseudo-objects, and objects parented under one. -/
def isRemoved (i : UInt32) (obj : Yaffs2Object) : Bool :=
  obj.type == 0
    || i == yaffs2ObjectIdUnlinked || i == yaffs2ObjectIdDeleted
    || obj.parentId == yaffs2ObjectIdUnlinked || obj.parentId == yaffs2ObjectIdDeleted

/-- The first pass at index `i`. -/
def removeInvalid (i : UInt32) (vol : Yaffs2Volume) : Run Yaffs2Volume := do
  match ← vol.slot i with
  | none => .ok vol
  | some obj => .ok (if isRemoved i obj then vol.setSlot i none else vol)

/-- Write through the pointer to object `id`. -/
def Yaffs2Volume.modify (vol : Yaffs2Volume) (id : UInt32)
    (f : Yaffs2Object → Yaffs2Object) : Run Yaffs2Volume := do
  match ← vol.slot id with
  | none => .error .nullDeref
  | some obj => .ok (vol.setSlot id (some (f obj)))

/-- Set the parent pointer and append to the parent's child list. -/
def linkChild (i parent : UInt32) (vol : Yaffs2Volume) : Run Yaffs2Volume := do
  let vol ← vol.modify i fun obj => { obj with parent := some parent }
  vol.modify parent fun obj => { obj with children := obj.children ++ [i] }

/-- Whether an object's `ParentId` names no object of the table. -/
def isOrphan (vol : Yaffs2Volume) (obj : Yaffs2Object) : Run Bool :=
  if obj.parentId = 0 then .ok true
  else if obj.parentId > vol.maxObjId then .ok true
  else do
    let parent ← vol.slot obj.parentId
    .ok parent.isNone

/-- The second pass at index `i`. -/
def resolveParent (i : UInt32) (vol : Yaffs2Volume) : Run Yaffs2Volume := do
  match ← vol.slot i with
  | none => .ok vol
  | some obj =>
      if i = 1 then vol.modify i fun obj => { obj with parent := none }
      else if ← isOrphan vol obj then
        match ← vol.slot 1 with
        | none => .ok vol
        | some _ => linkChild i 1 vol
      else linkChild i obj.parentId vol

/-- `for (i = 1; i <= Volume->MaxObjId; i++)`, with `i` in 32 bits. -/
def forObjects (pass : UInt32 → Yaffs2Volume → Run Yaffs2Volume) (fuel : Nat)
    (vol : Yaffs2Volume) : Run Yaffs2Volume :=
  loopFuel (fun (s : UInt32 × Yaffs2Volume) =>
    if s.1 ≤ s.2.maxObjId then do
      let vol ← pass s.1 s.2
      .ok (.next (s.1 + 1, vol))
    else .ok (.exit s.2)) fuel (1, vol)

def buildTree (fuel : Nat) (vol : Yaffs2Volume) : Run Yaffs2Volume := do
  let vol ← forObjects removeInvalid fuel vol
  let vol ← forObjects resolveParent fuel vol
  if vol.maxObjId ≥ 1 then do
    let root ← vol.slot 1
    .ok { vol with root := root.map fun _ => 1 }
  else .ok { vol with root := none }

/-- Rounds no 32-bit loop that ends can exceed. -/
def loopLimit : Nat := 2 ^ 32

/-- `Yaffs2ScanNand`, on a volume just allocated. -/
def yaffs2ScanNand {σ : Type} (nand : NandFlashProtocol σ) (pools : UInt32 → Pool)
    (n : σ) : Run (EfiStatus × Yaffs2Volume) := do
  let st ← scanBlocks nand pools ⟨n, .empty, 0, 0, []⟩
  let vol ← buildTree loopLimit st.volume
  match vol.root with
  | none => .ok (.volumeCorrupted, vol)
  | some root => do
      match ← vol.slot root with
      | none => .error .nullDeref
      | some obj =>
          if obj.type = yaffs2TypeDir then .ok (.success, vol)
          else .ok (.volumeCorrupted, vol)

end Ccr2004
