import Ccr2004.FormatBlock

/-!
# The layout of a written GPT

What is on the device after `WriteProtectiveMbr` and `WriteGpt` is read back
from the blocks they wrote: `GptLayout` states the order of the six regions,
the pointers, the range of the partition and the checksums in terms of the
written bytes alone. `writeGpt_run` gives the blocks of a run that the size
check lets through; `gpt_layout` is the case where the sizes do not wrap,
`gpt_layout_fails` the two where they do.
-/

namespace Ccr2004

/-! ## Reading a block back -/

def readWord32 (b : List UInt8) (off : Nat) : UInt32 :=
  UInt32.ofNat (leNat (slice b off 4))

def readWord64 (b : List UInt8) (off : Nat) : UInt64 :=
  UInt64.ofNat (leNat (slice b off 8))

def EfiGuid.read (b : List UInt8) (off : Nat) : EfiGuid where
  data1 := readWord32 b off
  data2 := UInt16.ofNat (leNat (slice b (off + 4) 2))
  data3 := UInt16.ofNat (leNat (slice b (off + 6) 2))
  data4 := UInt64.ofNat (leNat (slice b (off + 8) 8).reverse)

/-- The header that a block starts with. -/
def GptHeader.read (b : List UInt8) : GptHeader where
  signature := readWord64 b 0
  revision := readWord32 b 8
  headerSize := readWord32 b 12
  crc32 := readWord32 b 16
  reserved := readWord32 b 20
  myLba := readWord64 b 24
  alternateLba := readWord64 b 32
  firstUsableLba := readWord64 b 40
  lastUsableLba := readWord64 b 48
  diskGuid := EfiGuid.read b 56
  partitionEntryLba := readWord64 b 72
  numberOfPartitionEntries := readWord32 b 80
  sizeOfPartitionEntry := readWord32 b 84
  partitionEntryArrayCrc32 := readWord32 b 88

/-- The first `HeaderSize` bytes of a header block, the CRC field zero. -/
def zeroedHeader (b : List UInt8) : List UInt8 :=
  b.take 16 ++ (List.replicate 4 0 ++ slice b 20 ((GptHeader.read b).headerSize.toNat - 20))

/-- The partition entry array that these blocks hold. -/
def entryArray (ws : List BlockWrite) : List UInt8 :=
  (ws.flatMap fun w => w.data).take (128 * 128)

def lbas (ws : List BlockWrite) : List Nat :=
  ws.map fun w => w.lba.toNat

/-! ## The layout -/

/-- The writes of the MBR and the GPT, by region. -/
structure GptRegions where
  mbr : BlockWrite
  header : BlockWrite
  entries : List BlockWrite
  backupEntries : List BlockWrite
  backupHeader : BlockWrite

namespace GptRegions

def writes (r : GptRegions) : List BlockWrite :=
  r.mbr :: r.header :: (r.entries ++ (r.backupEntries ++ [r.backupHeader]))

def primary (r : GptRegions) : GptHeader :=
  GptHeader.read r.header.data

/-- Every block of the device that the layout names, in the order of the
regions; the usable range by its two ends. -/
def order (r : GptRegions) : List Nat :=
  r.mbr.lba.toNat :: r.header.lba.toNat :: (lbas r.entries
    ++ (r.primary.firstUsableLba.toNat :: r.primary.lastUsableLba.toNat
    :: (lbas r.backupEntries ++ [r.backupHeader.lba.toNat])))

end GptRegions

/-- A header says where it is, where the other one and the array are, and
carries the checksums of what was written. -/
structure HeaderPoints (crc : List UInt8 → UInt32) (w other : BlockWrite)
    (entries : List BlockWrite) : Prop where
  myLba : (GptHeader.read w.data).myLba = w.lba
  alternateLba : (GptHeader.read w.data).alternateLba = other.lba
  entryLba : lbas entries
    = List.range' (GptHeader.read w.data).partitionEntryLba.toNat entries.length
  crc32 : (GptHeader.read w.data).crc32 = crc (zeroedHeader w.data)
  entriesCrc : (GptHeader.read w.data).partitionEntryArrayCrc32 = crc (entryArray entries)

structure GptLayout (crc : List UInt8 → UInt32) (blockSize : UInt32) (totalBlocks : UInt64)
    (r : GptRegions) : Prop where
  ordered : r.order.Pairwise (· < ·)
  inside : ∀ w ∈ r.writes, w.lba.toNat < totalBlocks.toNat
  primary : HeaderPoints crc r.header r.backupHeader r.entries
  backup : HeaderPoints crc r.backupHeader r.header r.backupEntries
  usable : (GptHeader.read r.backupHeader.data).firstUsableLba = r.primary.firstUsableLba
    ∧ (GptHeader.read r.backupHeader.data).lastUsableLba = r.primary.lastUsableLba
  copies : r.backupEntries.map (·.data) = r.entries.map (·.data)
  complete : (entryArray r.entries).length = 128 * 128
  partition : readWord64 (entryArray r.entries) 32 = r.primary.firstUsableLba
    ∧ readWord64 (entryArray r.entries) 40 = r.primary.lastUsableLba
  onePartition : ∀ b ∈ slice (entryArray r.entries) 128 (127 * 128), b = 0
  formatted : r.primary.firstUsableLba = fatFirstUsable blockSize
    ∧ r.primary.lastUsableLba = fatLastUsable blockSize totalBlocks

/-! ## Writes that succeed -/

theorem blockOf_ok {blockSize : UInt32} {bytes : List UInt8}
    (h : bytes.length ≤ blockSize.toNat) :
    blockOf blockSize bytes
      = .ok (bytes ++ List.replicate (blockSize.toNat - bytes.length) 0) := by
  have hfit : 0 + bytes.length ≤ (List.replicate blockSize.toNat (0 : UInt8)).length := by
    simpa using h
  rw [blockOf, storeSlice_ok hfit]
  simp

/-- Blocks written one after the other from `lba` on. -/
def blocksFrom : UInt64 → List (List UInt8) → List BlockWrite
  | _, [] => []
  | lba, data :: rest => ⟨lba, data, .success⟩ :: blocksFrom (lba + 1) rest

theorem blocksFrom_data (lba : UInt64) (chunks : List (List UInt8)) :
    (blocksFrom lba chunks).map (·.data) = chunks := by
  induction chunks generalizing lba with
  | nil => rfl
  | cons data rest ih => rw [blocksFrom, List.map_cons, ih]

theorem length_blocksFrom (lba : UInt64) (chunks : List (List UInt8)) :
    (blocksFrom lba chunks).length = chunks.length := by
  have h := congrArg List.length (blocksFrom_data lba chunks)
  rwa [List.length_map] at h

theorem entryArray_blocksFrom (lba : UInt64) (chunks : List (List UInt8)) :
    entryArray (blocksFrom lba chunks) = chunks.flatten.take (128 * 128) := by
  rw [entryArray, List.flatMap_def, blocksFrom_data]

theorem lbas_blocksFrom {lba : UInt64} {chunks : List (List UInt8)}
    (h : lba.toNat + chunks.length < 2 ^ 64) :
    lbas (blocksFrom lba chunks) = List.range' lba.toNat chunks.length := by
  induction chunks generalizing lba with
  | nil => rfl
  | cons data rest ih =>
      rw [List.length_cons] at h
      have hnext : (lba + 1).toNat = lba.toNat + 1 := by
        rw [UInt64.toNat_add, show (1 : UInt64).toNat = 1 from rfl]
        omega
      have hrec := ih (show (lba + 1).toNat + rest.length < 2 ^ 64 by omega)
      rw [hnext] at hrec
      rw [blocksFrom, lbas, List.map_cons, List.length_cons, List.range'_succ]
      exact congrArg _ hrec

theorem ceilDiv_step {b n : Nat} (hb : 0 < b) (hn : 0 < n) :
    (n - b + (b - 1)) / b + 1 = (n + (b - 1)) / b := by
  by_cases hbig : b ≤ n
  · rw [show n + (b - 1) = (n - b + (b - 1)) + b by omega, Nat.add_div_right _ hb]
  · rw [show n + (b - 1) = (n - 1) + b by omega, Nat.add_div_right _ hb,
      Nat.div_eq_of_lt (by omega), Nat.div_eq_of_lt (by omega)]

/-- Padding the first block shows only past the end of the bytes. -/
theorem take_flatten_cons {bs pad : List UInt8} {b : Nat} {chunks : List (List UInt8)}
    (hpad : b ≤ bs.length → pad = [])
    (h : chunks.flatten.take (bs.drop b).length = bs.drop b) :
    ((bs.take b ++ pad) :: chunks).flatten.take bs.length = bs := by
  rw [List.flatten_cons]
  by_cases hbig : b ≤ bs.length
  · have htake : (bs.take b).length = b := by
      rw [List.length_take]
      omega
    rw [List.length_drop] at h
    rw [hpad hbig, List.append_nil, List.take_append, htake, h,
      List.take_of_length_le (by omega), List.take_append_drop]
  · have htake : bs.take b = bs := List.take_of_length_le (by omega)
    rw [htake, List.append_assoc, List.take_left]

/-- A block that starts with what fits of the bytes. -/
def padded (blockSize : Nat) (bytes : List UInt8) : List UInt8 :=
  bytes.take blockSize ++ List.replicate (blockSize - (bytes.take blockSize).length) 0

theorem writeEntriesRound_next (crc : List UInt8 → UInt32) (blockSize : UInt32)
    {rest : List UInt8} (hrest : rest.length > 0) (lba : UInt64) (log : List BlockWrite) :
    writeEntriesRound (.succeeding crc) blockSize (rest, lba, log)
      = .ok (.next (rest.drop blockSize.toNat, lba + 1,
          log ++ [⟨lba, padded blockSize.toNat rest, .success⟩])) := by
  have htake : (rest.take blockSize.toNat).length ≤ blockSize.toNat := List.length_take_le ..
  simp only [writeEntriesRound]
  rw [if_pos hrest]
  by_cases hbig : rest.length > blockSize.toNat
  · rw [if_pos hbig, blockOf_ok htake]
    rfl
  · rw [if_neg hbig, List.take_length, List.drop_length,
      List.drop_of_length_le (by omega), padded, List.take_of_length_le (by omega),
      blockOf_ok (by omega)]
    rfl

/-- The loop cuts the bytes into blocks; the blocks do not depend on where
they are written. -/
theorem writeEntriesRounds (crc : List UInt8 → UInt32) (blockSize : UInt32)
    (hB : 0 < blockSize.toNat) :
    ∀ (fuel : Nat) (rest : List UInt8), rest.length < fuel →
      ∃ chunks : List (List UInt8),
        chunks.length = (rest.length + (blockSize.toNat - 1)) / blockSize.toNat
        ∧ chunks.flatten.take rest.length = rest
        ∧ ∀ lba log, loopFuel (writeEntriesRound (.succeeding crc) blockSize) fuel
            (rest, lba, log) = .ok (.success, log ++ blocksFrom lba chunks)
  | 0, rest, h => by omega
  | fuel + 1, rest, h => by
      by_cases hrest : rest.length > 0
      · -- one block, then what is left
        obtain ⟨chunks, hlen, hflat, hrun⟩ :=
          writeEntriesRounds crc blockSize hB fuel (rest.drop blockSize.toNat)
            (by rw [List.length_drop]; omega)
        refine ⟨padded blockSize.toNat rest :: chunks, ?_, ?_, ?_⟩
        · rw [List.length_cons, hlen, List.length_drop, ceilDiv_step hB hrest]
        · refine take_flatten_cons (fun hbig => ?_) hflat
          rw [List.length_take, Nat.min_eq_left hbig, Nat.sub_self, List.replicate_zero]
        · intro lba log
          rw [loopFuel_next (writeEntriesRound_next crc blockSize hrest lba log), hrun,
            List.append_assoc]
          rfl
      · refine ⟨[], ?_, ?_, ?_⟩
        · rw [List.length_nil, Nat.div_eq_of_lt (by omega)]
        · rw [List.eq_nil_of_length_eq_zero (by omega : rest.length = 0)]
          rfl
        · intro lba log
          rw [loopFuel_exit (by rw [writeEntriesRound, if_neg hrest])]
          simp [blocksFrom]

/-! ## The header block -/

theorem readWord32_leBytes (x : UInt32) : UInt32.ofNat (leNat (leBytes 4 x.toNat)) = x := by
  rw [leNat_leBytes_of_lt x.toNat_lt, UInt32.ofNat_toNat]

theorem readWord64_leBytes (x : UInt64) : UInt64.ofNat (leNat (leBytes 8 x.toNat)) = x := by
  rw [leNat_leBytes_of_lt x.toNat_lt, UInt64.ofNat_toNat]

theorem readWord16_leBytes (x : UInt16) : UInt16.ofNat (leNat (leBytes 2 x.toNat)) = x := by
  rw [leNat_leBytes_of_lt x.toNat_lt, UInt16.ofNat_toNat]

@[simp] theorem EfiGuid.length_bytes (g : EfiGuid) : g.bytes.length = 16 := by
  simp [EfiGuid.bytes]

theorem GptHeader.length_bytes (h : GptHeader) : h.bytes.length = 92 := by
  simp [GptHeader.bytes]

/-- A header block gives back the header it was made of. -/
theorem GptHeader.read_bytes (h : GptHeader) (post : List UInt8) :
    GptHeader.read (h.bytes ++ post) = h := by
  cases h
  simp [GptHeader.read, GptHeader.bytes, readWord32, readWord64, EfiGuid.read, EfiGuid.bytes,
    slice_append_of_le, slice_append_here, readWord32_leBytes, readWord64_leBytes, readWord16_leBytes]

/-- The CRC is a field of its own in the bytes of a header. -/
theorem GptHeader.bytes_crc32 (h : GptHeader) :
    ∃ A R : List UInt8, A.length = 16 ∧ R.length = 72
      ∧ ∀ c : UInt32, { h with crc32 := c }.bytes = A ++ (leBytes 4 c.toNat ++ R) := by
  refine ⟨leBytes 8 h.signature.toNat ++ (leBytes 4 h.revision.toNat
      ++ leBytes 4 h.headerSize.toNat),
    leBytes 4 h.reserved.toNat ++ (leBytes 8 h.myLba.toNat ++ (leBytes 8 h.alternateLba.toNat
      ++ (leBytes 8 h.firstUsableLba.toNat ++ (leBytes 8 h.lastUsableLba.toNat
      ++ (h.diskGuid.bytes ++ (leBytes 8 h.partitionEntryLba.toNat
      ++ (leBytes 4 h.numberOfPartitionEntries.toNat ++ (leBytes 4 h.sizeOfPartitionEntry.toNat
      ++ leBytes 4 h.partitionEntryArrayCrc32.toNat)))))))), by simp, by simp, fun c => ?_⟩
  rw [GptHeader.bytes, List.append_assoc, List.append_assoc]

/-- A sealed header carries the checksum of its bytes with the field zero. -/
theorem GptHeader.sealed_crc32 (crc : List UInt8 → UInt32) (h : GptHeader)
    (hsize : h.headerSize = 92) (post : List UInt8) :
    (h.sealed (.succeeding crc)).crc32
      = crc (zeroedHeader ((h.sealed (.succeeding crc)).bytes ++ post)) := by
  obtain ⟨A, R, hA, hR, hbytes⟩ := GptHeader.bytes_crc32 h
  have hread := GptHeader.read_bytes (h.sealed (.succeeding crc)) post
  rw [zeroedHeader, hread, show (h.sealed (.succeeding crc)).headerSize = 92 from hsize]
  show crc { h with crc32 := 0 }.bytes = _
  rw [show (h.sealed (.succeeding crc)).bytes = A ++ (leBytes 4 _ ++ R) from hbytes _, hbytes 0,
    List.append_assoc, List.append_assoc, List.take_left' hA,
    slice_append_of_le (by omega), slice_append_of_le (by simp; omega), length_leBytes, hA]
  show _ = crc (A ++ (List.replicate 4 0 ++ slice (R ++ post) 0 72))
  rw [slice_append_here hR]
  rfl

/-! ## The partition entry array -/

theorem gptEntries_fields (first last : UInt64) :
    ∃ head tail : List UInt8, head.length = 32 ∧ tail.length = 80
      ∧ gptEntries first last = head ++ (leBytes 8 first.toNat ++ (leBytes 8 last.toNat
        ++ (tail ++ List.replicate (127 * 128) 0))) := by
  refine ⟨espTypeGuid.bytes ++ partGuid.bytes, leBytes 8 0 ++ partitionName,
    by simp, by simp [partitionName], ?_⟩
  rw [gptEntries, List.append_assoc, List.append_assoc]

theorem length_gptEntries (first last : UInt64) :
    (gptEntries first last).length = 128 * 128 := by
  obtain ⟨head, tail, hhead, htail, h⟩ := gptEntries_fields first last
  rw [h]
  simp only [List.length_append, length_leBytes, List.length_replicate, hhead, htail]

theorem gptEntries_range (first last : UInt64) :
    readWord64 (gptEntries first last) 32 = first
      ∧ readWord64 (gptEntries first last) 40 = last := by
  obtain ⟨head, tail, hhead, htail, h⟩ := gptEntries_fields first last
  rw [h]
  constructor
  · rw [readWord64, slice_mid _ hhead (length_leBytes ..), readWord64_leBytes]
  · rw [readWord64, slice_append_of_le (by omega), hhead,
      slice_mid _ (length_leBytes ..) (length_leBytes ..), readWord64_leBytes]

theorem gptEntries_rest (first last : UInt64) :
    slice (gptEntries first last) 128 (127 * 128) = List.replicate (127 * 128) 0 := by
  obtain ⟨head, tail, hhead, htail, h⟩ := gptEntries_fields first last
  have hpre : (head ++ (leBytes 8 first.toNat ++ (leBytes 8 last.toNat ++ tail))).length = 128 := by
    simp only [List.length_append, length_leBytes, hhead, htail]
  have hslice := slice_mid ([] : List UInt8) hpre
    (List.length_replicate : (List.replicate (127 * 128) (0 : UInt8)).length = 127 * 128)
  rw [List.append_nil] at hslice
  rw [h]
  simpa only [List.append_assoc] using hslice

/-! ## The run -/

theorem storeSlice_length {α : Type} (buf : List α) (off : Nat) (bs : List α)
    (h : off + bs.length ≤ buf.length) :
    ∃ buf', storeSlice buf off bs = .ok buf' ∧ buf'.length = buf.length := by
  refine ⟨_, storeSlice_ok h, ?_⟩
  rw [List.length_append, List.length_append, List.length_take, List.length_drop]
  omega

/-- The protective MBR is one block, and building it cannot fail. -/
theorem writeProtectiveMbr_eq {blockSize : UInt32} (hB : 512 ≤ blockSize.toNat)
    (totalBlocks : UInt64) :
    ∃ mbr : List UInt8, mbr.length = blockSize.toNat
      ∧ ∀ env log, writeProtectiveMbr env blockSize totalBlocks log =
        if !env.alloc .mbr then .ok (.outOfResources, log)
        else .ok (env.writeBlocks 0 mbr log) := by
  let endLba : UInt32 := if totalBlocks - 1 > 0xFFFFFFFF then 0xFFFFFFFF
    else (totalBlocks - 1).toUInt32
  have hrecord : (mbrPartitionRecord endLba).length = 16 := by simp [mbrPartitionRecord]
  obtain ⟨buf, hbuf, hlen⟩ := storeSlice_length (List.replicate blockSize.toNat 0) 446
    (mbrPartitionRecord endLba) (by rw [List.length_replicate]; omega)
  rw [List.length_replicate] at hlen
  obtain ⟨mbr, hmbr, hsize⟩ := storeSlice_length buf 510 (leBytes 2 0xAA55)
    (by rw [length_leBytes]; omega)
  refine ⟨mbr, hsize.trans hlen, fun env log => ?_⟩
  unfold writeProtectiveMbr
  simp only [endLba] at hbuf
  simp only [hbuf, hmbr, ok_bind]

theorem writeProtectiveMbr_run (crc : List UInt8 → UInt32) {blockSize : UInt32}
    (hB : 512 ≤ blockSize.toNat) (totalBlocks : UInt64) (log : List BlockWrite) :
    ∃ mbr, writeProtectiveMbr (.succeeding crc) blockSize totalBlocks log
      = .ok (.success, log ++ [⟨0, mbr, .success⟩]) := by
  obtain ⟨mbr, -, hrun⟩ := writeProtectiveMbr_eq hB totalBlocks
  exact ⟨mbr, hrun _ log⟩

/-- The header of one copy. -/
def gptHeader (crc : List UInt8 → UInt32) (blockSize : UInt32) (totalBlocks : UInt64)
    (myLba alternateLba partitionEntryLba : UInt64) : GptHeader :=
  GptHeader.sealed (.succeeding crc)
    { signature := 0x5452415020494645
      revision := 0x00010000
      headerSize := 92
      crc32 := 0
      reserved := 0
      myLba := myLba
      alternateLba := alternateLba
      firstUsableLba := fatFirstUsable blockSize
      lastUsableLba := fatLastUsable blockSize totalBlocks
      diskGuid := diskGuid
      partitionEntryLba := partitionEntryLba
      numberOfPartitionEntries := gptEntryCount
      sizeOfPartitionEntry := gptEntrySize
      partitionEntryArrayCrc32 :=
        crc (gptEntries (fatFirstUsable blockSize) (fatLastUsable blockSize totalBlocks)) }

/-- The regions of a run; `chunks` are the blocks of the entry array. -/
def gptRegions (crc : List UInt8 → UInt32) (blockSize : UInt32) (totalBlocks : UInt64)
    (mbr : List UInt8) (chunks : List (List UInt8)) : GptRegions :=
  let last := fatLastUsable blockSize totalBlocks
  let pad := List.replicate (blockSize.toNat - 92) 0
  { mbr := ⟨0, mbr, .success⟩
    header := ⟨1, (gptHeader crc blockSize totalBlocks 1 (totalBlocks - 1) 2).bytes ++ pad,
      .success⟩
    entries := blocksFrom 2 chunks
    backupEntries := blocksFrom (last + 1) chunks
    backupHeader := ⟨totalBlocks - 1,
      (gptHeader crc blockSize totalBlocks (totalBlocks - 1) 1 (last + 1)).bytes ++ pad,
      .success⟩ }

theorem gptHeader_block {blockSize : UInt32} (hB : 512 ≤ blockSize.toNat) (h : GptHeader) :
    blockOf blockSize h.bytes
      = .ok (h.bytes ++ List.replicate (blockSize.toNat - 92) 0) := by
  rw [blockOf_ok (by rw [GptHeader.length_bytes]; omega), GptHeader.length_bytes]

theorem writeGpt_volumeFull (env : FormatEnv) {blockSize : UInt32} {totalBlocks : UInt64}
    (h : fatLastUsable blockSize totalBlocks ≤ fatFirstUsable blockSize)
    (log : List BlockWrite) :
    writeGpt env blockSize totalBlocks log = .ok (.volumeFull, log) :=
  if_pos h

/-- The blocks of a run that the size check lets through. -/
theorem writeGpt_run (crc : List UInt8 → UInt32) {blockSize : UInt32} {totalBlocks : UInt64}
    (hB : 512 ≤ blockSize.toNat)
    (hfit : ¬ fatLastUsable blockSize totalBlocks ≤ fatFirstUsable blockSize)
    (mbr : List UInt8) :
    ∃ chunks : List (List UInt8),
      chunks.length = (128 * 128 + (blockSize.toNat - 1)) / blockSize.toNat
      ∧ chunks.flatten.take (128 * 128)
        = gptEntries (fatFirstUsable blockSize) (fatLastUsable blockSize totalBlocks)
      ∧ writeGpt (.succeeding crc) blockSize totalBlocks [⟨0, mbr, .success⟩]
        = .ok (.success, (gptRegions crc blockSize totalBlocks mbr chunks).writes) := by
  have hlen := length_gptEntries (fatFirstUsable blockSize) (fatLastUsable blockSize totalBlocks)
  obtain ⟨chunks, hcount, hflat, hrun⟩ := writeEntriesRounds crc blockSize (by omega)
    entriesFuel (gptEntries (fatFirstUsable blockSize) (fatLastUsable blockSize totalBlocks))
    (by rw [hlen, entriesFuel]; omega)
  rw [hlen] at hcount hflat
  refine ⟨chunks, hcount, hflat, (if_neg hfit).trans ?_⟩
  show (blockOf blockSize (gptHeader crc blockSize totalBlocks 1 (totalBlocks - 1) 2).bytes
    >>= _) = _
  rw [gptHeader_block hB, ok_bind]
  show (loopFuel (writeEntriesRound (.succeeding crc) blockSize) entriesFuel
    (gptEntries (fatFirstUsable blockSize) (fatLastUsable blockSize totalBlocks), 2, _)
    >>= _) = _
  rw [hrun, ok_bind]
  show (loopFuel (writeEntriesRound (.succeeding crc) blockSize) entriesFuel
    (gptEntries (fatFirstUsable blockSize) (fatLastUsable blockSize totalBlocks),
      fatLastUsable blockSize totalBlocks + 1, _) >>= _) = _
  rw [hrun, ok_bind]
  show (blockOf blockSize (gptHeader crc blockSize totalBlocks (totalBlocks - 1) 1
    (fatLastUsable blockSize totalBlocks + 1)).bytes >>= _) = _
  rw [gptHeader_block hB, ok_bind]
  show Except.ok (EfiStatus.success, _) = Except.ok (EfiStatus.success, _)
  simp only [gptRegions, GptRegions.writes, List.append_assoc]
  rfl

/-! ## The sizes -/

theorem toNat_gptEntriesLbas {blockSize : UInt32} (hB : 512 ≤ blockSize.toNat) :
    (gptEntriesLbas blockSize).toNat
      = (128 * 128 + (blockSize.toNat - 1)) % 2 ^ 32 / blockSize.toNat := by
  have hsum : (gptEntryCount * gptEntrySize + blockSize - 1).toNat
      = (128 * 128 + (blockSize.toNat - 1)) % 2 ^ 32 := by
    rw [UInt32.toNat_sub, UInt32.toNat_add,
      show (gptEntryCount * gptEntrySize).toNat = 128 * 128 from rfl,
      show (1 : UInt32).toNat = 1 from rfl]
    have hlt := blockSize.toNat_lt
    omega
  rw [gptEntriesLbas, UInt32.toNat_div, hsum]

/-- Block sizes for which the sum in `GPT_ENTRIES_LBAS` does not wrap. -/
theorem gptEntriesLbas_of_le {blockSize : UInt32} (hB : 512 ≤ blockSize.toNat)
    (h : blockSize.toNat ≤ 2 ^ 32 - 16384) :
    (gptEntriesLbas blockSize).toNat
        = (128 * 128 + (blockSize.toNat - 1)) / blockSize.toNat
      ∧ 1 ≤ (gptEntriesLbas blockSize).toNat ∧ (gptEntriesLbas blockSize).toNat ≤ 32 := by
  have heq : (gptEntriesLbas blockSize).toNat
      = (128 * 128 + (blockSize.toNat - 1)) / blockSize.toNat := by
    rw [toNat_gptEntriesLbas hB, Nat.mod_eq_of_lt (by omega)]
  refine ⟨heq, ?_, ?_⟩
  · rw [heq, Nat.le_div_iff_mul_le (by omega)]
    omega
  · rw [heq, ← Nat.lt_succ_iff, Nat.div_lt_iff_lt_mul (by omega)]
    omega

/-- Past that the sum wraps, and the array is given no blocks. -/
theorem gptEntriesLbas_of_gt {blockSize : UInt32} (h : 2 ^ 32 - 16384 < blockSize.toNat) :
    gptEntriesLbas blockSize = 0 := by
  apply UInt32.toNat_inj.mp
  have hlt := blockSize.toNat_lt
  rw [toNat_gptEntriesLbas (by omega), Nat.div_eq_of_lt (by omega)]
  rfl

theorem toNat_fatFirstUsable {blockSize : UInt32} (h : (gptEntriesLbas blockSize).toNat ≤ 32) :
    (fatFirstUsable blockSize).toNat = 2 + (gptEntriesLbas blockSize).toNat := by
  rw [fatFirstUsable, UInt32.toNat_toUInt64, UInt32.toNat_add, show (2 : UInt32).toNat = 2 from rfl]
  omega

theorem toNat_fatLastUsable {blockSize : UInt32} {totalBlocks : UInt64}
    (h : (gptEntriesLbas blockSize).toNat ≤ 32) :
    (fatLastUsable blockSize totalBlocks).toNat
      = (totalBlocks.toNat + 2 ^ 64 - 2 - (gptEntriesLbas blockSize).toNat) % 2 ^ 64 := by
  have hlt := totalBlocks.toNat_lt
  rw [fatLastUsable, UInt64.toNat_sub, UInt64.toNat_sub, UInt32.toNat_toUInt64,
    show (2 : UInt64).toNat = 2 from rfl]
  omega
/-! ## The layout of a run -/

theorem headerPoints (crc : List UInt8 → UInt32) (blockSize : UInt32) (totalBlocks : UInt64)
    {myLba alternateLba entryLba : UInt64} {other : BlockWrite} {chunks : List (List UInt8)}
    (pad : List UInt8) (hother : other.lba = alternateLba) (hfits : entryLba.toNat + chunks.length < 2 ^ 64)
    (hflat : chunks.flatten.take (128 * 128)
      = gptEntries (fatFirstUsable blockSize) (fatLastUsable blockSize totalBlocks)) :
    HeaderPoints crc
      ⟨myLba, (gptHeader crc blockSize totalBlocks myLba alternateLba entryLba).bytes ++ pad,
        .success⟩ other (blocksFrom entryLba chunks) := by
  have hread := GptHeader.read_bytes
    (gptHeader crc blockSize totalBlocks myLba alternateLba entryLba) pad
  constructor
  · rw [hread]
    rfl
  · rw [hread, hother]
    rfl
  · rw [hread, length_blocksFrom, lbas_blocksFrom hfits]
    rfl
  · rw [hread]
    exact GptHeader.sealed_crc32 crc _ rfl pad
  · rw [hread, entryArray_blocksFrom, hflat]
    rfl

theorem regions_ordered {n f l m t : Nat} (hf : 2 + n ≤ f) (hl : f < l) (hm : l < m)
    (ht : m + n ≤ t) :
    (0 :: 1 :: (List.range' 2 n ++ (f :: l :: (List.range' m n ++ [t])))).Pairwise (· < ·) := by
  have hback : (List.range' m n ++ [t]).Pairwise (· < ·) := by
    rw [List.pairwise_append]
    refine ⟨List.pairwise_lt_range', List.pairwise_singleton _ _, fun a ha b hb => ?_⟩
    rw [List.mem_range'_1] at ha
    rw [List.mem_singleton] at hb
    omega
  have hmem : ∀ a ∈ List.range' m n ++ [t], m ≤ a := by
    intro a ha
    rcases List.mem_append.mp ha with h | h
    · exact (List.mem_range'_1.mp h).1
    · rw [List.mem_singleton.mp h]
      omega
  have husable : (f :: l :: (List.range' m n ++ [t])).Pairwise (· < ·) := by
    rw [List.pairwise_cons, List.pairwise_cons]
    refine ⟨fun a ha => ?_, fun a ha => ?_, hback⟩
    · rcases List.mem_cons.mp ha with rfl | ha
      · exact hl
      · have := hmem a ha
        omega
    · have := hmem a ha
      omega
  have hfront : (List.range' 0 (2 + n)).Pairwise (· < ·) := List.pairwise_lt_range'
  have hall : (List.range' 0 (2 + n) ++ (f :: l :: (List.range' m n ++ [t]))).Pairwise (· < ·) := by
    rw [List.pairwise_append]
    refine ⟨hfront, husable, fun a ha b hb => ?_⟩
    have ha := (List.mem_range'_1.mp ha).2
    rcases List.mem_cons.mp hb with rfl | hb
    · omega
    · have := (List.pairwise_cons.mp husable).1 b hb
      omega
  rwa [show List.range' 0 (2 + n) = 0 :: 1 :: List.range' 2 n by
    rw [Nat.add_comm 2 n, List.range'_succ, List.range'_succ]] at hall

theorem regions_le {n f l m t : Nat} (hf : 2 + n ≤ f) (hl : f < l) (hm : l < m)
    (ht : m + n ≤ t) :
    ∀ a ∈ 0 :: 1 :: (List.range' 2 n ++ (f :: l :: (List.range' m n ++ [t]))), a ≤ t := by
  intro a ha
  simp only [List.mem_cons, List.mem_append, List.mem_range'_1, List.not_mem_nil, or_false] at ha
  omega

theorem GptRegions.lba_mem_order {r : GptRegions} {w : BlockWrite} (h : w ∈ r.writes) :
    w.lba.toNat ∈ r.order := by
  have hmem : ∀ ws : List BlockWrite, w ∈ ws → w.lba.toNat ∈ lbas ws :=
    fun ws hw => List.mem_map_of_mem hw
  simp only [writes, List.mem_cons, List.mem_append, List.not_mem_nil, or_false] at h
  simp only [order, List.mem_cons, List.mem_append, List.not_mem_nil, or_false]
  rcases h with rfl | rfl | h | h | rfl
  · exact .inl rfl
  · exact .inr (.inl rfl)
  · exact .inr (.inr (.inl (hmem _ h)))
  · exact .inr (.inr (.inr (.inr (.inr (.inl (hmem _ h))))))
  · exact .inr (.inr (.inr (.inr (.inr (.inr rfl)))))

theorem gptRegions_primary (crc : List UInt8 → UInt32) (blockSize : UInt32)
    (totalBlocks : UInt64) (mbr : List UInt8) (chunks : List (List UInt8)) :
    (gptRegions crc blockSize totalBlocks mbr chunks).primary
      = gptHeader crc blockSize totalBlocks 1 (totalBlocks - 1) 2 :=
  GptHeader.read_bytes _ _

theorem gptRegions_backup (crc : List UInt8 → UInt32) (blockSize : UInt32)
    (totalBlocks : UInt64) (mbr : List UInt8) (chunks : List (List UInt8)) :
    GptHeader.read (gptRegions crc blockSize totalBlocks mbr chunks).backupHeader.data
      = gptHeader crc blockSize totalBlocks (totalBlocks - 1) 1
          (fatLastUsable blockSize totalBlocks + 1) :=
  GptHeader.read_bytes _ _

/-- The layout of a run whose sizes do not wrap. -/
theorem gpt_layout (crc : List UInt8 → UInt32) {blockSize : UInt32} {totalBlocks : UInt64}
    (mbr : List UInt8) {chunks : List (List UInt8)}
    (hlbas : (gptEntriesLbas blockSize).toNat ≤ 32)
    (hcount : chunks.length = (gptEntriesLbas blockSize).toNat)
    (hflat : chunks.flatten.take (128 * 128)
      = gptEntries (fatFirstUsable blockSize) (fatLastUsable blockSize totalBlocks))
    (htotal : 2 + (gptEntriesLbas blockSize).toNat ≤ totalBlocks.toNat)
    (hfit : ¬ fatLastUsable blockSize totalBlocks ≤ fatFirstUsable blockSize) :
    GptLayout crc blockSize totalBlocks (gptRegions crc blockSize totalBlocks mbr chunks) := by
  have hT := totalBlocks.toNat_lt
  have hfirst := toNat_fatFirstUsable hlbas
  have hlast : (fatLastUsable blockSize totalBlocks).toNat
      = totalBlocks.toNat - 2 - (gptEntriesLbas blockSize).toNat := by
    rw [toNat_fatLastUsable hlbas]
    omega
  rw [UInt64.le_iff_toNat_le, hfirst, hlast] at hfit
  have hbackup : (fatLastUsable blockSize totalBlocks + 1).toNat
      = totalBlocks.toNat - 1 - (gptEntriesLbas blockSize).toNat := by
    rw [UInt64.toNat_add, hlast, show (1 : UInt64).toNat = 1 from rfl]
    omega
  have hend : (totalBlocks - 1).toNat = totalBlocks.toNat - 1 := by
    rw [UInt64.toNat_sub, show (1 : UInt64).toNat = 1 from rfl]
    omega
  have hfits : (2 : UInt64).toNat + chunks.length < 2 ^ 64 := by
    rw [hcount, show (2 : UInt64).toNat = 2 from rfl]
    omega
  have hfits' : (fatLastUsable blockSize totalBlocks + 1).toNat + chunks.length < 2 ^ 64 := by
    rw [hcount, hbackup]
    omega
  have hf : 2 + chunks.length ≤ (fatFirstUsable blockSize).toNat := by omega
  have hl : (fatFirstUsable blockSize).toNat < (fatLastUsable blockSize totalBlocks).toNat := by
    omega
  have hm : (fatLastUsable blockSize totalBlocks).toNat
      < (fatLastUsable blockSize totalBlocks + 1).toNat := by omega
  have ht : (fatLastUsable blockSize totalBlocks + 1).toNat + chunks.length
      ≤ (totalBlocks - 1).toNat := by omega
  have hprimary := gptRegions_primary crc blockSize totalBlocks mbr chunks
  have harray : entryArray (gptRegions crc blockSize totalBlocks mbr chunks).entries
      = gptEntries (fatFirstUsable blockSize) (fatLastUsable blockSize totalBlocks) := by
    rw [← hflat]
    exact entryArray_blocksFrom _ _
  have horder : (gptRegions crc blockSize totalBlocks mbr chunks).order
      = 0 :: 1 :: (List.range' 2 chunks.length ++ ((fatFirstUsable blockSize).toNat
        :: (fatLastUsable blockSize totalBlocks).toNat
        :: (List.range' (fatLastUsable blockSize totalBlocks + 1).toNat chunks.length
          ++ [(totalBlocks - 1).toNat]))) := by
    rw [GptRegions.order, hprimary]
    show _ :: _ :: (lbas (blocksFrom 2 chunks) ++ (_ :: _ :: (lbas (blocksFrom _ chunks) ++ _))) = _
    rw [lbas_blocksFrom hfits, lbas_blocksFrom hfits']
    rfl
  constructor
  · rw [horder]
    exact regions_ordered hf hl hm ht
  · intro w hw
    have hmem := regions_le hf hl hm ht _ (by rw [← horder]; exact GptRegions.lba_mem_order hw)
    omega
  · exact headerPoints crc blockSize totalBlocks _ rfl hfits hflat
  · exact headerPoints crc blockSize totalBlocks _ rfl hfits' hflat
  · rw [hprimary, gptRegions_backup]
    exact ⟨rfl, rfl⟩
  · exact (blocksFrom_data _ _).trans (blocksFrom_data _ _).symm
  · rw [harray, length_gptEntries]
  · rw [harray, hprimary]
    exact gptEntries_range _ _
  · rw [harray, gptEntries_rest]
    exact fun b hb => List.eq_of_mem_replicate hb
  · rw [hprimary]
    exact ⟨rfl, rfl⟩

/-! ## When the sizes do not wrap -/

/-- The first two blocks and those of the array lie below the usable range. -/
theorem GptLayout.first_gt {crc : List UInt8 → UInt32} {blockSize : UInt32}
    {totalBlocks : UInt64} {r : GptRegions} (h : GptLayout crc blockSize totalBlocks r) :
    2 < (fatFirstUsable blockSize).toNat := by
  obtain ⟨w, hw⟩ : ∃ w, w ∈ r.entries := by
    apply List.exists_mem_of_ne_nil
    intro hnil
    have hlen := h.complete
    rw [hnil] at hlen
    cases hlen
  have hmem : w.lba.toNat ∈ lbas r.entries := List.mem_map_of_mem hw
  have hord := h.ordered
  rw [GptRegions.order, h.formatted.1, List.pairwise_cons, List.pairwise_cons,
    List.pairwise_append] at hord
  obtain ⟨h0, h1, _, _, h2⟩ := hord
  have hmbr := h0 _ (List.mem_cons_self ..)
  have hheader := h1 _ (List.mem_append_left _ hmem)
  have hentry := h2 _ hmem _ (List.mem_cons_self ..)
  omega

theorem GptLayout.last_lt {crc : List UInt8 → UInt32} {blockSize : UInt32}
    {totalBlocks : UInt64} {r : GptRegions} (h : GptLayout crc blockSize totalBlocks r) :
    (fatLastUsable blockSize totalBlocks).toNat < totalBlocks.toNat := by
  have hord := h.ordered
  rw [GptRegions.order, h.formatted.2, List.pairwise_cons, List.pairwise_cons,
    List.pairwise_append, List.pairwise_cons, List.pairwise_cons] at hord
  obtain ⟨_, _, _, ⟨_, hlast, _⟩, _⟩ := hord
  have hback := hlast r.backupHeader.lba.toNat
    (List.mem_append_right _ (List.mem_cons_self ..))
  have hinside := h.inside r.backupHeader (by simp [GptRegions.writes])
  omega

/-- Sizes for which no sum and no difference of `WriteGpt` wraps, or for
which the check rejects the device although one does. -/
def GptSizes (blockSize : UInt32) (totalBlocks : UInt64) : Prop :=
  blockSize.toNat ≤ 2 ^ 32 - 16384
      ∧ 2 + (128 * 128 + (blockSize.toNat - 1)) / blockSize.toNat ≤ totalBlocks.toNat
    ∨ 2 ^ 32 - 16384 < blockSize.toNat ∧ 2 ≤ totalBlocks.toNat ∧ totalBlocks.toNat ≤ 4

/-- The MBR is written, and the GPT is rejected for its size or laid out as
it should be. -/
def GptCorrect (crc : List UInt8 → UInt32) (blockSize : UInt32) (totalBlocks : UInt64) : Prop :=
  ∃ written status log,
    writeProtectiveMbr (.succeeding crc) blockSize totalBlocks [] = .ok (.success, written)
      ∧ writeGpt (.succeeding crc) blockSize totalBlocks written = .ok (status, log)
      ∧ (status = .volumeFull ∨ status = .success
        ∧ ∃ r : GptRegions, r.writes = log ∧ GptLayout crc blockSize totalBlocks r)

theorem GptSizes.of_full {blockSize : UInt32} {totalBlocks : UInt64} (hB : 512 ≤ blockSize.toNat)
    (h : fatLastUsable blockSize totalBlocks ≤ fatFirstUsable blockSize) :
    GptSizes blockSize totalBlocks := by
  rw [UInt64.le_iff_toNat_le] at h
  by_cases hsmall : blockSize.toNat ≤ 2 ^ 32 - 16384
  · obtain ⟨hlbas, _, hle⟩ := gptEntriesLbas_of_le hB hsmall
    rw [toNat_fatLastUsable hle, toNat_fatFirstUsable hle] at h
    exact .inl ⟨hsmall, by omega⟩
  · have hzero := gptEntriesLbas_of_gt (by omega : 2 ^ 32 - 16384 < blockSize.toNat)
    rw [toNat_fatLastUsable (by simp [hzero]), toNat_fatFirstUsable (by simp [hzero]), hzero] at h
    have hT := totalBlocks.toNat_lt
    rw [show (0 : UInt32).toNat = 0 from rfl] at h
    exact .inr ⟨by omega, by omega, by omega⟩

theorem GptSizes.of_layout {crc : List UInt8 → UInt32} {blockSize : UInt32}
    {totalBlocks : UInt64} (hB : 512 ≤ blockSize.toNat) {r : GptRegions}
    (h : GptLayout crc blockSize totalBlocks r) : GptSizes blockSize totalBlocks := by
  have hT := totalBlocks.toNat_lt
  have hfirst := h.first_gt
  have hlast := h.last_lt
  by_cases hsmall : blockSize.toNat ≤ 2 ^ 32 - 16384
  · obtain ⟨hlbas, _, hle⟩ := gptEntriesLbas_of_le hB hsmall
    rw [toNat_fatLastUsable hle] at hlast
    exact .inl ⟨hsmall, by omega⟩
  · have hzero := gptEntriesLbas_of_gt (by omega : 2 ^ 32 - 16384 < blockSize.toNat)
    rw [toNat_fatFirstUsable (by simp [hzero]), hzero] at hfirst
    exact absurd hfirst (Nat.lt_irrefl _)

/-- With sizes that hold, a run that is not rejected has the layout. -/
theorem GptSizes.layout {blockSize : UInt32} {totalBlocks : UInt64}
    (hB : 512 ≤ blockSize.toNat) (h : GptSizes blockSize totalBlocks)
    (hfit : ¬ fatLastUsable blockSize totalBlocks ≤ fatFirstUsable blockSize) :
    blockSize.toNat ≤ 2 ^ 32 - 16384
      ∧ 2 + (gptEntriesLbas blockSize).toNat ≤ totalBlocks.toNat := by
  rcases h with ⟨hsmall, htotal⟩ | ⟨hbig, htwo, hfour⟩
  · rw [(gptEntriesLbas_of_le hB hsmall).1]
    exact ⟨hsmall, htotal⟩
  · have hzero := gptEntriesLbas_of_gt hbig
    rw [UInt64.le_iff_toNat_le, toNat_fatLastUsable (by simp [hzero]),
      toNat_fatFirstUsable (by simp [hzero]), hzero, show (0 : UInt32).toNat = 0 from rfl] at hfit
    omega

/-- Exactly when the GPT is laid out as it should be. -/
theorem gptCorrect_iff (crc : List UInt8 → UInt32) {blockSize : UInt32} (totalBlocks : UInt64)
    (hB : 512 ≤ blockSize) :
    GptCorrect crc blockSize totalBlocks ↔ GptSizes blockSize totalBlocks := by
  have hB' : 512 ≤ blockSize.toNat := UInt32.le_iff_toNat_le.mp hB
  obtain ⟨mbr, hmbr⟩ := writeProtectiveMbr_run crc hB' totalBlocks []
  rw [List.nil_append] at hmbr
  constructor
  · rintro ⟨written, status, log, hwritten, hgpt, hend⟩
    rw [hmbr] at hwritten
    obtain rfl : [⟨0, mbr, .success⟩] = written := congrArg Prod.snd (Except.ok.inj hwritten)
    by_cases hfit : fatLastUsable blockSize totalBlocks ≤ fatFirstUsable blockSize
    · exact .of_full hB' hfit
    · obtain ⟨chunks, _, _, hrun⟩ := writeGpt_run crc hB' hfit mbr
      rw [hrun] at hgpt
      obtain rfl : EfiStatus.success = status := congrArg Prod.fst (Except.ok.inj hgpt)
      rcases hend with hfull | ⟨_, r, _, hr⟩
      · cases hfull
      · exact .of_layout hB' hr
  · intro hsizes
    by_cases hfit : fatLastUsable blockSize totalBlocks ≤ fatFirstUsable blockSize
    · exact ⟨_, _, _, hmbr, writeGpt_volumeFull _ hfit _, .inl rfl⟩
    · obtain ⟨hsmall, htotal⟩ := hsizes.layout hB' hfit
      obtain ⟨hlbas, _, hle⟩ := gptEntriesLbas_of_le hB' hsmall
      obtain ⟨chunks, hcount, hflat, hrun⟩ := writeGpt_run crc hB' hfit mbr
      exact ⟨_, _, _, hmbr, hrun, .inr ⟨rfl, _, rfl,
        gpt_layout crc mbr hle (hcount.trans hlbas.symm) hflat htotal hfit⟩⟩

theorem gptCorrect_oneMebibyte : GptCorrect (fun _ => 0) 512 2048 :=
  (gptCorrect_iff _ 2048 (by decide)).mpr (.inl ⟨by decide, by decide⟩)

/-- A device of one block: the last usable block wraps and passes the check,
and what is written is no layout. -/
theorem writeGpt_oneBlock : ∃ written log,
    writeProtectiveMbr (.succeeding fun _ => 0) 512 1 [] = .ok (.success, written)
      ∧ writeGpt (.succeeding fun _ => 0) 512 1 written = .ok (.success, log)
      ∧ ∀ r : GptRegions, r.writes = log → ¬ GptLayout (fun _ => 0) 512 1 r := by
  have hB : 512 ≤ (512 : UInt32).toNat := Nat.le_refl _
  have hfit : ¬ fatLastUsable 512 1 ≤ fatFirstUsable 512 := by decide
  obtain ⟨mbr, hmbr⟩ := writeProtectiveMbr_run (fun _ => 0) hB 1 []
  obtain ⟨chunks, _, _, hrun⟩ := writeGpt_run (fun _ => 0) hB hfit mbr
  refine ⟨_, _, hmbr, hrun, fun r _ hr => ?_⟩
  have hlast := hr.last_lt
  revert hlast
  decide

end Ccr2004
