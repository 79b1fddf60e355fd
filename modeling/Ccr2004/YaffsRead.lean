import Ccr2004.YaffsInfo
import Ccr2004.YaffsChunks

/-!
# File reads

`Yaffs2Read` from `ReadDir.c`: the directory branch of `YaffsInfo` and the
file branch, a loop that copies one chunk, or zeros, a round. `Buffer` is the
list of its bytes, and the loop ends with a status and the state at its end.

`readFileLoop_spec` is what the loop leaves for every position: what it stored
stands in front of the rest of the buffer, and while the position does not
wrap every stored byte is `chunkByte` of the chunk index the code computes,
32 bits of it.
-/

namespace Ccr2004

/-! ## The model -/

/-- What a call leaves. A directory read writes `record`, a file read
`buffer`. -/
structure Yaffs2ReadOut (σ : Type) where
  status : EfiStatus
  bufferSize : Option UInt64
  record : Option EfiFileInfo
  buffer : Option (List UInt8)
  ifile : Option Yaffs2IFile
  device : σ

/-- The loop's variables: `BytesCopied`, the caller's buffer and the device. -/
structure FileRead (σ : Type) where
  copied : UInt64
  buffer : List UInt8
  device : σ

/-- `n` bytes of the page buffer. -/
def PageData.load (page : PageData) (off n : Nat) : Run (List UInt8) :=
  if off + n ≤ pageBytes then .ok ((List.range n).map fun i => page.byte (off + i))
  else .error .outOfBounds

/-- `Chunks[ChunkIdx]`. -/
def Yaffs2Object.loadChunk (obj : Yaffs2Object) (idx : UInt32) : Run ChunkLoc :=
  match obj.chunks with
  | none => .error .nullDeref
  | some chunks =>
      match chunks[idx.toNat]? with
      | none => .error .outOfBounds
      | some loc => .ok loc

def zeroMem (buffer : List UInt8) (off : Nat) (n : UInt32) : Run (List UInt8) :=
  storeSlice buffer off (List.replicate n.toNat 0)

/-- Copy what is valid of a chunk and zero the rest. -/
def copyChunk (page : PageData) (nBytes offset copyLen : UInt32) (buffer : List UInt8)
    (copied : UInt64) : Run (List UInt8) :=
  let validBytes := if nBytes > yaffs2DataPerPage then yaffs2DataPerPage else nBytes
  if offset < validBytes then do
    let actualCopy := validBytes - offset
    let actualCopy := if actualCopy > copyLen then copyLen else actualCopy
    let bytes ← page.load offset.toNat actualCopy.toNat
    let buffer ← storeSlice buffer copied.toNat bytes
    if actualCopy < copyLen then
      zeroMem buffer (copied.toNat + actualCopy.toNat) (copyLen - actualCopy)
    else .ok buffer
  else zeroMem buffer copied.toNat copyLen

section File

variable {σ : Type} (nand : NandFlashProtocol σ)

/-- The location of a chunk that is recorded. -/
def Yaffs2Object.recordedChunk (obj : Yaffs2Object) (idx : UInt32) : Run (Option ChunkLoc) :=
  if idx < obj.chunkCount then do
    let loc ← obj.loadChunk idx
    if loc.pageIndex ≠ yaffs2ChunkUnset then .ok (some loc) else .ok none
  else .ok none

/-- One round of the loop; it ends with a status and the state at its end. -/
def readFileRound (obj : Yaffs2Object) (position readLen : UInt64) (st : FileRead σ) :
    Run (Flow (FileRead σ) (EfiStatus × FileRead σ)) :=
  if st.copied < readLen then do
    let chunkIdx := ((position + st.copied) / yaffs2DataPerPage.toUInt64).toUInt32
    let offset := ((position + st.copied) % yaffs2DataPerPage.toUInt64).toUInt32
    let copyLen := yaffs2DataPerPage - offset
    let copyLen :=
      if copyLen.toUInt64 > readLen - st.copied then (readLen - st.copied).toUInt32 else copyLen
    match ← obj.recordedChunk chunkIdx with
    | some loc =>
        match nand.readPage loc.pageIndex st.device with
        | (.error _, device) =>
            if st.copied > 0 then .ok (.exit (.success, { st with device := device }))
            else .ok (.exit (.deviceError, { st with device := device }))
        | (.ok page, device) => do
            let buffer ← copyChunk page loc.nBytes offset copyLen st.buffer st.copied
            .ok (.next ⟨st.copied + copyLen.toUInt64, buffer, device⟩)
    | none => do
        let buffer ← zeroMem st.buffer st.copied.toNat copyLen
        .ok (.next ⟨st.copied + copyLen.toUInt64, buffer, st.device⟩)
  else .ok (.exit (.success, st))

/-- `ReadLen`. -/
def readLength (fileSize position bufferSize : UInt64) : UInt64 :=
  if position + bufferSize > fileSize then fileSize - position else bufferSize

/-- The file branch; every round copies a byte, which bounds the loop. -/
def yaffs2ReadFile (obj : Yaffs2Object) (ifile : Yaffs2IFile) (bufferSize : UInt64)
    (buffer : Option (List UInt8)) (n : σ) : Run (Yaffs2ReadOut σ) :=
  if buffer.isNone ∧ bufferSize > 0 then
    .ok ⟨.invalidParameter, some bufferSize, none, buffer, some ifile, n⟩
  else if ifile.position ≥ obj.fileSize then
    .ok ⟨.success, some 0, none, buffer, some ifile, n⟩
  else do
    let readLen := readLength obj.fileSize ifile.position bufferSize
    let (status, st) ← loopFuel (readFileRound nand obj ifile.position readLen)
      (readLen.toNat + 1) ⟨0, buffer.getD [], n⟩
    let buffer := buffer.map fun _ => st.buffer
    if status.isError then .ok ⟨status, some bufferSize, none, buffer, some ifile, st.device⟩
    else
      .ok ⟨.success, some st.copied, none, buffer,
        some { ifile with position := ifile.position + st.copied }, st.device⟩

def yaffs2Read (epochToEfiTime : UInt64 → EfiTime → EfiTime) (vol : Yaffs2Volume)
    (this : Option Yaffs2IFile) (bufferSize : Option UInt64) (buffer : Option (List UInt8))
    (n : σ) : Run (Yaffs2ReadOut σ) :=
  match this, bufferSize with
  | some ifile, some bufSize => do
      let obj ← vol.deref ifile.oFile
      if obj.type = yaffs2TypeDir then do
        let ((status, size, record), ifile) ←
          yaffs2ReadDirectory epochToEfiTime vol ifile buffer.isSome bufSize
        .ok ⟨status, some size, record, buffer, some ifile, n⟩
      else yaffs2ReadFile nand obj ifile bufSize buffer n
  | _, _ => .ok ⟨.invalidParameter, bufferSize, none, buffer, this, n⟩

end File

/-! ## One chunk -/

theorem PageData.load_ok (page : PageData) {off n : Nat} (h : off + n ≤ pageBytes) :
    page.load off n = .ok ((List.range n).map fun i => page.byte (off + i)) := if_pos h

/-- The bytes a round copies from a chunk. -/
def chunkBytes (page : PageData) (nBytes : UInt32) (off len : Nat) : List UInt8 :=
  (List.range len).map fun i => if off + i < nBytes.toNat then page.byte (off + i) else 0

theorem length_chunkBytes (page : PageData) (nBytes : UInt32) (off len : Nat) :
    (chunkBytes page nBytes off len).length = len := by
  rw [chunkBytes, List.length_map, List.length_range]

/-- The valid bytes, then zeros. -/
theorem chunkBytes_add (page : PageData) {nBytes : UInt32} {off len : Nat} (pad : Nat)
    (hvalid : off + len ≤ nBytes.toNat) (hpad : pad = 0 ∨ nBytes.toNat ≤ off + len) :
    chunkBytes page nBytes off (len + pad)
      = ((List.range len).map fun i => page.byte (off + i)) ++ List.replicate pad 0 := by
  rw [chunkBytes, List.range_add, List.map_append, List.map_map]
  congr 1
  · refine List.map_congr_left fun i hi => ?_
    have := List.mem_range.mp hi
    rw [if_pos (by omega)]
  · refine List.eq_replicate_iff.mpr ⟨by simp, fun b hb => ?_⟩
    obtain ⟨i, hi, rfl⟩ := List.mem_map.mp hb
    have := List.mem_range.mp hi
    rw [Function.comp_apply, if_neg (by omega)]

theorem chunkBytes_zero {page : PageData} {nBytes : UInt32} {off : Nat} (len : Nat)
    (h : nBytes.toNat ≤ off) : chunkBytes page nBytes off len = List.replicate len 0 := by
  refine List.eq_replicate_iff.mpr ⟨length_chunkBytes .., fun b hb => ?_⟩
  obtain ⟨i, -, rfl⟩ := List.mem_map.mp hb
  exact if_neg (by omega)

/-- Stores that follow each other are one store. -/
theorem storeSlice_append {buffer as bs : List UInt8} {off : Nat}
    (h : off + as.length + bs.length ≤ buffer.length) :
    (storeSlice buffer off as >>= fun buffer => storeSlice buffer (off + as.length) bs)
      = storeSlice buffer off (as ++ bs) := by
  have hlen : (buffer.take off ++ as).length = off + as.length := by
    rw [List.length_append, List.length_take, Nat.min_eq_left (by omega)]
  have hrest : (buffer.take off ++ as ++ buffer.drop (off + as.length)).length
      = buffer.length := by
    rw [List.length_append, hlen, List.length_drop]
    omega
  rw [storeSlice_ok (by omega), ok_bind, storeSlice_ok (by omega),
    storeSlice_ok (by rw [List.length_append]; omega), List.take_append_of_le_length (by omega),
    List.take_of_length_le (by omega), List.drop_append, List.drop_of_length_le (by omega), hlen,
    Nat.add_sub_cancel_left, List.drop_drop, List.nil_append, List.length_append,
    List.append_assoc, List.append_assoc, List.append_assoc, List.append_assoc, Nat.add_assoc]

theorem toNat_min32 (a b : UInt32) : (if a > b then b else a).toNat = min a.toNat b.toNat := by
  by_cases h : a > b
  · rw [if_pos h]
    exact (Nat.min_eq_right (Nat.le_of_lt (UInt32.lt_iff_toNat_lt.mp h))).symm
  · rw [if_neg h]
    exact (Nat.min_eq_left (UInt32.le_iff_toNat_le.mp (UInt32.not_lt.mp h))).symm

/-- `copyChunk` stores the bytes of the chunk. -/
theorem copyChunk_eq (page : PageData) (nBytes : UInt32) {offset copyLen : UInt32}
    {buffer : List UInt8} {copied : UInt64} (hin : offset.toNat < 2032) (hchunk : offset.toNat + copyLen.toNat ≤ 2032)
    (hroom : copied.toNat + copyLen.toNat ≤ buffer.length) :
    copyChunk page nBytes offset copyLen buffer copied
      = storeSlice buffer copied.toNat (chunkBytes page nBytes offset.toNat copyLen.toNat) := by
  have hdata : yaffs2DataPerPage.toNat = 2032 := rfl
  have hpage : pageBytes = 2048 := rfl
  rw [copyChunk]
  generalize hvalid : (if nBytes > yaffs2DataPerPage then yaffs2DataPerPage else nBytes) = valid
  have hmin : valid.toNat = min nBytes.toNat 2032 := by
    rw [← hvalid, toNat_min32, hdata]
  by_cases hoff : offset < valid
  · simp only [if_pos hoff]
    rw [UInt32.lt_iff_toNat_lt] at hoff
    have hsub : (valid - offset).toNat = valid.toNat - offset.toNat :=
      UInt32.toNat_sub_of_le _ _ (UInt32.le_iff_toNat_le.mpr (by omega))
    generalize hactual : (if valid - offset > copyLen then copyLen else valid - offset) = actual
    have hcopy : actual.toNat = min (valid.toNat - offset.toNat) copyLen.toNat := by
      rw [← hactual, toNat_min32, hsub]
    have hvalidCopy : offset.toNat + actual.toNat ≤ nBytes.toNat := by omega
    have hbytes := chunkBytes_add page (copyLen.toNat - actual.toNat) hvalidCopy (by omega)
    rw [Nat.add_sub_cancel' (by omega)] at hbytes
    rw [page.load_ok (by omega), ok_bind, hbytes]
    by_cases hpad : actual < copyLen
    · have hpad' : (copyLen - actual).toNat = copyLen.toNat - actual.toNat :=
        UInt32.toNat_sub_of_le _ _ (UInt32.le_of_lt hpad)
      simp only [if_pos hpad, zeroMem, hpad']
      rw [← storeSlice_append]
      · simp only [List.length_map, List.length_range]
      · simp only [List.length_map, List.length_range, List.length_replicate]
        omega
    · rw [UInt32.lt_iff_toNat_lt] at hpad
      rw [Nat.sub_eq_zero_of_le (by omega), List.replicate_zero, List.append_nil]
      simp only [UInt32.lt_iff_toNat_lt, hpad, if_false]
      rw [storeSlice_ok (by rw [List.length_map, List.length_range]; omega), ok_bind]
  · rw [if_neg hoff, zeroMem]
    rw [UInt32.lt_iff_toNat_lt] at hoff
    rw [chunkBytes_zero copyLen.toNat (by omega)]

/-! ## The loop -/

section Loop

variable {σ : Type}

/-- The pages behind a device that fails on some of them. -/
def Serves (nand : NandFlashProtocol σ) (page : UInt32 → PageData) (bad : UInt32 → Bool) : Prop :=
  ∀ idx n, (bad idx = true ∧ ∃ e, (nand.readPage idx n).1 = .error e)
    ∨ (bad idx = false ∧ (nand.readPage idx n).1 = .ok (page idx))

/-- Chunk `k` of an object is recorded. -/
def Yaffs2Object.Recorded (obj : Yaffs2Object) (k : Nat) : Prop :=
  k < obj.chunkCount.toNat ∧ (obj.chunkAt k).pageIndex ≠ yaffs2ChunkUnset

instance (obj : Yaffs2Object) (k : Nat) : Decidable (obj.Recorded k) := instDecidableAnd

/-- Byte `off` of chunk `k`: zero where the chunk has none. -/
def chunkByte (obj : Yaffs2Object) (page : UInt32 → PageData) (k off : Nat) : UInt8 :=
  if obj.Recorded k ∧ off < (obj.chunkAt k).nBytes.toNat then
    (page (obj.chunkAt k).pageIndex).byte off
  else 0

/-- The chunk index the code computes from a position: 32 bits of it. -/
def codeChunk (b : Nat) : Nat := b / 2032 % 2 ^ 32

/-- The byte the code reads at a position. -/
def codeByte (obj : Yaffs2Object) (page : UInt32 → PageData) (b : Nat) : UInt8 :=
  chunkByte obj page (codeChunk b) (b % 2032)

/-- The chunk the code reads at a position is on a failing page. -/
def CodeFails (obj : Yaffs2Object) (bad : UInt32 → Bool) (b : Nat) : Prop :=
  obj.Recorded (codeChunk b) ∧ bad (obj.chunkAt (codeChunk b)).pageIndex = true

theorem recordedChunk_eq {obj : Yaffs2Object} (hok : ChunksOK obj) (idx : UInt32) :
    obj.recordedChunk idx
      = .ok (if obj.Recorded idx.toNat then some (obj.chunkAt idx.toNat) else none) := by
  rw [Yaffs2Object.recordedChunk]
  by_cases hlt : idx < obj.chunkCount
  · have hlt' := UInt32.lt_iff_toNat_lt.mp hlt
    have hcount := UInt32.le_iff_toNat_le.mp hok.count
    rw [if_pos hlt]
    cases hchunks : obj.chunks with
    | none =>
        have hzero := congrArg UInt32.toNat (hok.null hchunks)
        rw [UInt32.toNat_zero] at hzero
        omega
    | some chunks =>
        have hsize := hok.size chunks hchunks
        have hget : chunks[idx.toNat]? = some (obj.chunkAt idx.toNat) := by
          rw [Yaffs2Object.chunkAt, hchunks, Option.getD_some,
            List.getElem?_eq_getElem (by omega), Option.getD_some]
        have hload : obj.loadChunk idx = .ok (obj.chunkAt idx.toNat) := by
          rw [Yaffs2Object.loadChunk, hchunks]
          simp only [hget]
        rw [hload, ok_bind]
        by_cases hset : (obj.chunkAt idx.toNat).pageIndex ≠ yaffs2ChunkUnset
        · have hrec : obj.Recorded idx.toNat := ⟨hlt', hset⟩
          rw [if_pos hset, if_pos hrec]
        · have hrec : ¬ obj.Recorded idx.toNat := fun h => hset h.2
          rw [if_neg hset, if_neg hrec]
  · have hrec : ¬ obj.Recorded idx.toNat := fun h => hlt (UInt32.lt_iff_toNat_lt.mpr h.1)
    rw [if_neg hlt, if_neg hrec]

variable {nand : NandFlashProtocol σ} {page : UInt32 → PageData} {bad : UInt32 → Bool}
  {obj : Yaffs2Object} {position readLen : UInt64} {buffer : List UInt8}

/-- What the loop has stored after `copied` bytes. -/
structure Copied (obj : Yaffs2Object) (page : UInt32 → PageData) (bad : UInt32 → Bool)
    (position readLen : UInt64) (buffer : List UInt8) (st : FileRead σ) : Prop where
  le : st.copied.toNat ≤ readLen.toNat
  served : position.toNat + readLen.toNat ≤ 2 ^ 64 →
    ∀ j < st.copied.toNat, ¬ CodeFails obj bad (position.toNat + j)
  stored : ∃ stored, stored.length = st.copied.toNat
    ∧ st.buffer = stored ++ buffer.drop st.copied.toNat
    ∧ (position.toNat + readLen.toNat ≤ 2 ^ 64 →
      stored = (List.range st.copied.toNat).map fun j => codeByte obj page (position.toNat + j))

/-- How the loop ends: with everything copied, or at a failing page. -/
structure LoopEnd (obj : Yaffs2Object) (page : UInt32 → PageData) (bad : UInt32 → Bool)
    (position readLen : UInt64) (buffer : List UInt8) (out : EfiStatus × FileRead σ) : Prop where
  copied : Copied obj page bad position readLen buffer out.2
  status : (out.1 = .success ∧ out.2.copied = readLen)
    ∨ (CodeFails obj bad (position + out.2.copied).toNat ∧ out.2.copied < readLen
      ∧ ((out.1 = .success ∧ out.2.copied > 0) ∨ (out.1 = .deviceError ∧ out.2.copied = 0)))

/-- The bytes of one round. -/
def roundBytes (obj : Yaffs2Object) (page : UInt32 → PageData) (b len : Nat) : List UInt8 :=
  (List.range len).map fun i => chunkByte obj page (codeChunk b) (b % 2032 + i)

theorem length_roundBytes (obj : Yaffs2Object) (page : UInt32 → PageData) (b len : Nat) : (roundBytes obj page b len).length = len := by
  rw [roundBytes, List.length_map, List.length_range]

/-- Inside one chunk, consecutive bytes have consecutive offsets. -/
theorem roundBytes_eq {b len : Nat} (hlen : b % 2032 + len ≤ 2032) :
    roundBytes obj page b len = (List.range len).map fun i => codeByte obj page (b + i) := by
  refine List.map_congr_left fun i hi => ?_
  have hlt := List.mem_range.mp hi
  have hdiv : (b + i) / 2032 = b / 2032 := by omega
  have hmod : (b + i) % 2032 = b % 2032 + i := by omega
  rw [codeByte, codeChunk, codeChunk, hdiv, hmod]

theorem roundBytes_recorded {b : Nat} (len : Nat) (h : obj.Recorded (codeChunk b)) :
    roundBytes obj page b len = chunkBytes (page (obj.chunkAt (codeChunk b)).pageIndex)
      (obj.chunkAt (codeChunk b)).nBytes (b % 2032) len := by
  refine List.map_congr_left fun i _ => ?_
  by_cases hlt : b % 2032 + i < (obj.chunkAt (codeChunk b)).nBytes.toNat
  · rw [chunkByte, if_pos ⟨h, hlt⟩, if_pos hlt]
  · rw [chunkByte, if_neg fun h' => hlt h'.2, if_neg hlt]

theorem roundBytes_hole {b : Nat} (len : Nat) (h : ¬ obj.Recorded (codeChunk b)) :
    roundBytes obj page b len = List.replicate len 0 := by
  refine List.eq_replicate_iff.mpr ⟨length_roundBytes .., fun x hx => ?_⟩
  obtain ⟨i, -, rfl⟩ := List.mem_map.mp hx
  exact if_neg fun h' => h h'.1

theorem Copied.length {st : FileRead σ} (h : Copied obj page bad position readLen buffer st)
    (hroom : readLen.toNat ≤ buffer.length) : st.buffer.length = buffer.length := by
  obtain ⟨stored, hlength, hbuffer, -⟩ := h.stored
  have hle := h.le
  rw [hbuffer, List.length_append, hlength, List.length_drop]
  omega

/-- A store behind what is stored. -/
theorem Copied.store {st : FileRead σ} (h : Copied obj page bad position readLen buffer st)
    (hroom : readLen.toNat ≤ buffer.length) {len : UInt32}
    (hlen : len.toNat ≤ readLen.toNat - st.copied.toNat)
    (hchunk : (position + st.copied).toNat % 2032 + len.toNat ≤ 2032)
    (hgood : ¬ CodeFails obj bad (position + st.copied).toNat) (device : σ) :
    ∃ stored, storeSlice st.buffer st.copied.toNat
        (roundBytes obj page (position + st.copied).toNat len.toNat) = .ok stored
      ∧ Copied obj page bad position readLen buffer ⟨st.copied + len.toUInt64, stored, device⟩ := by
  obtain ⟨stored, hlength, hbuffer, hbytes⟩ := h.stored
  have hle := h.le
  have hnext : (st.copied + len.toUInt64).toNat = st.copied.toNat + len.toNat :=
    toNat_add_of_lt rfl (UInt32.toNat_toUInt64 len) (by have := readLen.toNat_lt; omega)
  have hround := length_roundBytes obj page (position + st.copied).toNat
    len.toNat
  refine ⟨_, storeSlice_ok ?_, ?_, fun hwrap j hj => ?_,
    stored ++ roundBytes obj page (position + st.copied).toNat len.toNat, ?_, ?_, ?_⟩
  · rw [hround, hbuffer, List.length_append, hlength, List.length_drop]
    omega
  · simp only [hnext]
    omega
  · simp only [hnext] at hj
    rcases Nat.lt_or_ge j st.copied.toNat with hlt | hge
    · exact h.served hwrap j hlt
    · -- the bytes of a round are in the chunk it read
      have hsum : (position + st.copied).toNat = position.toNat + st.copied.toNat :=
        toNat_add_of_lt rfl rfl (by omega)
      have hsame : (position.toNat + j) / 2032 = (position + st.copied).toNat / 2032 := by omega
      rwa [CodeFails, codeChunk, hsame]
  · rw [List.length_append, hlength, hround, hnext]
  · rw [hround, hbuffer, ← hlength, List.take_left, List.drop_append, List.drop_of_length_le
      (by omega), List.nil_append, List.drop_drop, Nat.add_sub_cancel_left]
    simp only [hnext, hlength]
  · intro hwrap
    simp only [hnext]
    rw [hbytes hwrap, roundBytes_eq hchunk, List.range_add, List.map_append, List.map_map]
    by_cases hzero : len.toNat = 0
    · rw [hzero]
      rfl
    · have hsum : (position + st.copied).toNat = position.toNat + st.copied.toNat :=
        toNat_add_of_lt rfl rfl (by omega)
      rw [hsum]
      simp only [Function.comp_def, Nat.add_assoc]

/-- The chunk, the offset in it and the length of a round. -/
theorem toNat_chunkIdx (x : UInt64) :
    (x / yaffs2DataPerPage.toUInt64).toUInt32.toNat = codeChunk x.toNat := by
  rw [UInt64.toNat_toUInt32, UInt64.toNat_div]
  rfl

theorem toNat_offset (x : UInt64) :
    (x % yaffs2DataPerPage.toUInt64).toUInt32.toNat = x.toNat % 2032 := by
  rw [UInt64.toNat_toUInt32, UInt64.toNat_mod, show yaffs2DataPerPage.toUInt64.toNat = 2032 from rfl]
  omega

theorem toNat_copyLen {offset : UInt32} (hoff : offset.toNat < 2032) (left : UInt64) :
    (if (yaffs2DataPerPage - offset).toUInt64 > left then left.toUInt32
      else yaffs2DataPerPage - offset).toNat = min (2032 - offset.toNat) left.toNat := by
  have hsub : (yaffs2DataPerPage - offset).toNat = 2032 - offset.toNat :=
    UInt32.toNat_sub_of_le _ _ (UInt32.le_iff_toNat_le.mpr (Nat.le_of_lt hoff))
  by_cases h : (yaffs2DataPerPage - offset).toUInt64 > left
  · rw [if_pos h, UInt64.toNat_toUInt32]
    rw [gt_iff_lt, UInt64.lt_iff_toNat_lt, UInt32.toNat_toUInt64, hsub] at h
    omega
  · rw [if_neg h, hsub]
    rw [gt_iff_lt, UInt64.lt_iff_toNat_lt, UInt32.toNat_toUInt64, hsub] at h
    omega

theorem readPage_pair {idx : UInt32} {n : σ} {r : Except EfiStatus PageData}
    (h : (nand.readPage idx n).1 = r) :
    nand.readPage idx n = (r, (nand.readPage idx n).2) := Prod.ext h rfl

/-- What is copied from the page of a recorded chunk. -/
theorem Copied.copyChunk {st : FileRead σ}
    (h : Copied obj page bad position readLen buffer st) (hroom : readLen.toNat ≤ buffer.length)
    {offset len : UInt32} (hlen : len.toNat ≤ readLen.toNat - st.copied.toNat)
    (hoff : offset.toNat = (position + st.copied).toNat % 2032)
    (hchunk : offset.toNat + len.toNat ≤ 2032)
    (hrec : obj.Recorded (codeChunk (position + st.copied).toNat))
    (hgood : ¬ CodeFails obj bad (position + st.copied).toNat) (device : σ) :
    ∃ stored, Ccr2004.copyChunk
        (page (obj.chunkAt (codeChunk (position + st.copied).toNat)).pageIndex)
        (obj.chunkAt (codeChunk (position + st.copied).toNat)).nBytes offset len st.buffer
        st.copied = .ok stored
      ∧ Copied obj page bad position readLen buffer ⟨st.copied + len.toUInt64, stored, device⟩ := by
  obtain ⟨stored, hstore, hcopied⟩ := h.store hroom hlen (hoff ▸ hchunk) hgood device
  rw [roundBytes_recorded _ hrec, ← hoff] at hstore
  have hmod := Nat.mod_lt (position + st.copied).toNat (show 2032 > 0 by decide)
  have hle := h.le
  have hspace : st.copied.toNat + len.toNat ≤ st.buffer.length := by
    rw [h.length hroom]
    omega
  refine ⟨stored, ?_, hcopied⟩
  rw [copyChunk_eq _ _ (by omega) hchunk hspace]
  exact hstore

/-- A failing page ends the read, with an error when nothing is copied. -/
theorem Copied.failed {st : FileRead σ} (h : Copied obj page bad position readLen buffer st)
    (hfails : CodeFails obj bad (position + st.copied).toNat) (hlt : st.copied < readLen)
    (device : σ) :
    LoopEnd obj page bad position readLen buffer
      (if st.copied > 0 then .success else .deviceError, { st with device := device }) := by
  refine ⟨⟨h.le, h.served, h.stored⟩, .inr ⟨hfails, hlt, ?_⟩⟩
  by_cases hzero : st.copied > 0
  · exact .inl ⟨if_pos hzero, hzero⟩
  · exact .inr ⟨if_neg hzero, UInt64.le_zero_iff.mp (UInt64.not_lt.mp hzero)⟩

/-- A round copies bytes, or it ends the loop. -/
theorem readFileRound_spec (hserves : Serves nand page bad) (hok : ChunksOK obj)
    (hroom : readLen.toNat ≤ buffer.length) {st : FileRead σ}
    (h : Copied obj page bad position readLen buffer st) :
    ∃ c, readFileRound nand obj position readLen st = .ok c
      ∧ c.Post (fun st' => Copied obj page bad position readLen buffer st'
          ∧ readLen.toNat - st'.copied.toNat < readLen.toNat - st.copied.toNat)
        (LoopEnd obj page bad position readLen buffer) := by
  rw [readFileRound]
  by_cases hlt : st.copied < readLen
  · have hlt' := UInt64.lt_iff_toNat_lt.mp hlt
    have hleft : (readLen - st.copied).toNat = readLen.toNat - st.copied.toNat :=
      UInt64.toNat_sub_of_le _ _ (UInt64.le_of_lt hlt)
    have hidx := toNat_chunkIdx (position + st.copied)
    have hoff := toNat_offset (position + st.copied)
    have hlen := toNat_copyLen
      (show ((position + st.copied) % yaffs2DataPerPage.toUInt64).toUInt32.toNat < 2032 by
        rw [hoff]
        exact Nat.mod_lt _ (by decide)) (readLen - st.copied)
    rw [if_pos hlt]
    simp only [recordedChunk_eq hok, ok_bind]
    generalize ((position + st.copied) / yaffs2DataPerPage.toUInt64).toUInt32 = idx at hidx ⊢
    generalize ((position + st.copied) % yaffs2DataPerPage.toUInt64).toUInt32 = offset
      at hoff hlen ⊢
    generalize (if (yaffs2DataPerPage - offset).toUInt64 > readLen - st.copied then
      (readLen - st.copied).toUInt32 else yaffs2DataPerPage - offset) = len at hlen ⊢
    have hmod := Nat.mod_lt (position + st.copied).toNat (show 2032 > 0 by decide)
    have hmeasure : readLen.toNat - (st.copied + len.toUInt64).toNat
        < readLen.toNat - st.copied.toNat := by
      rw [toNat_add_of_lt rfl (UInt32.toNat_toUInt64 len) (by have := readLen.toNat_lt; omega)]
      omega
    rw [hidx]
    by_cases hrec : obj.Recorded (codeChunk (position + st.copied).toNat)
    · rw [if_pos hrec]
      simp only []
      rcases hserves (obj.chunkAt (codeChunk (position + st.copied).toNat)).pageIndex st.device with
        ⟨hbad, e, hread⟩ | ⟨hgood, hread⟩
      · rw [readPage_pair hread]
        have hend := h.failed ⟨hrec, hbad⟩ hlt
          (nand.readPage (obj.chunkAt (codeChunk (position + st.copied).toNat)).pageIndex
            st.device).2
        by_cases hzero : st.copied > 0
        · simp only [if_pos hzero] at hend ⊢
          exact ⟨_, rfl, hend⟩
        · simp only [if_neg hzero] at hend ⊢
          exact ⟨_, rfl, hend⟩
      · have hserved : ¬ CodeFails obj bad (position + st.copied).toNat := fun h => by
          rw [h.2] at hgood
          cases hgood
        obtain ⟨stored, hcopy, hcopied⟩ := h.copyChunk hroom (by omega : len.toNat ≤ _) hoff
          (by omega) hrec hserved
          (nand.readPage (obj.chunkAt (codeChunk (position + st.copied).toNat)).pageIndex
            st.device).2
        rw [readPage_pair hread]
        simp only [hcopy, ok_bind]
        exact ⟨_, rfl, hcopied, hmeasure⟩
    · obtain ⟨stored, hstore, hcopied⟩ := h.store hroom (by omega : len.toNat ≤ _) (by omega)
        (fun h => hrec h.1) st.device
      rw [roundBytes_hole _ hrec] at hstore
      rw [if_neg hrec]
      simp only [zeroMem, hstore, ok_bind]
      exact ⟨_, rfl, hcopied, hmeasure⟩
  · rw [if_neg hlt]
    have hend : st.copied = readLen :=
      UInt64.toNat_inj.mp (Nat.le_antisymm h.le (UInt64.le_iff_toNat_le.mp (UInt64.not_lt.mp hlt)))
    exact ⟨_, rfl, h, .inl ⟨rfl, hend⟩⟩

/-- The loop ends, with what it copied in front of the rest of the buffer. -/
theorem readFileLoop_spec (position : UInt64) (hserves : Serves nand page bad) (hok : ChunksOK obj)
    (hroom : readLen.toNat ≤ buffer.length) (n : σ) :
    ∃ out, loopFuel (readFileRound nand obj position readLen) (readLen.toNat + 1) ⟨0, buffer, n⟩
        = .ok out ∧ LoopEnd obj page bad position readLen buffer out := by
  have hstart : Copied obj page bad position readLen buffer (⟨0, buffer, n⟩ : FileRead σ) :=
    ⟨Nat.zero_le _, fun _ j hj => absurd hj (Nat.not_lt_zero j), [], rfl, rfl, fun _ => rfl⟩
  exact loopFuel_total (μ := fun st : FileRead σ => readLen.toNat - st.copied.toNat)
    (fun st h => readFileRound_spec hserves hok hroom h) hstart (by
      rw [UInt64.toNat_zero]
      omega)

end Loop

end Ccr2004
