import Ccr2004.Bytes
import Ccr2004.Efi

/-!
# Formatting a block device

`FormatBlockApp.c`: the protective MBR, the two copies of the GPT, and the
FAT file system on the one partition. What the application calls is a
`FormatEnv`: the status of each `WriteBlocks` call by its number, the outcome
of each allocation, and `CalculateCrc32`. The state is the log of the
`WriteBlocks` calls made, first to last. A block buffer is the list of its
bytes; a store outside it is a fault.
-/

namespace Ccr2004

/-! ## The device -/

/-- A call of `WriteBlocks` for one block, and the status it returned. -/
structure BlockWrite where
  lba : UInt64
  data : List UInt8
  status : EfiStatus
deriving DecidableEq

/-- The allocations of the application. -/
inductive FormatAlloc where
  | mbr
  | entries
  | header
  | primaryBlock
  | backupBlock
  | bootSector
  | fsInfo
  | fatSector
deriving Repr, DecidableEq

/-- The services behind `BlockIo` and `gBS`. -/
structure FormatEnv where
  writeStatus : Nat → EfiStatus
  alloc : FormatAlloc → Bool
  calculateCrc32 : List UInt8 → UInt32

/-- The services when every write and every allocation succeeds. -/
def FormatEnv.succeeding (crc : List UInt8 → UInt32) : FormatEnv where
  writeStatus := fun _ => .success
  alloc := fun _ => true
  calculateCrc32 := crc

/-- `BlockIo->WriteBlocks` of one block. -/
def FormatEnv.writeBlocks (env : FormatEnv) (lba : UInt64) (data : List UInt8)
    (log : List BlockWrite) : EfiStatus × List BlockWrite :=
  let status := env.writeStatus log.length
  (status, log ++ [⟨lba, data, status⟩])

/-- Writes of one buffer to several blocks, whatever their status. -/
def FormatEnv.writeEach (env : FormatEnv) (lbas : List UInt64) (data : List UInt8)
    (log : List BlockWrite) : List BlockWrite :=
  lbas.foldl (fun log lba => (env.writeBlocks lba data log).2) log

/-- A zeroed block that starts with these bytes. -/
def blockOf (blockSize : UInt32) (bytes : List UInt8) : Run (List UInt8) :=
  storeSlice (List.replicate blockSize.toNat 0) 0 bytes

/-! ## The protective MBR -/

/-- `MBR_PARTITION_RECORD`. -/
def mbrPartitionRecord (sizeInLba : UInt32) : List UInt8 :=
  [0x00, 0x00, 0x02, 0x00, 0xEE, 0xFF, 0xFF, 0xFF] ++ leBytes 4 1 ++ leBytes 4 sizeInLba.toNat

def writeProtectiveMbr (env : FormatEnv) (blockSize : UInt32) (totalBlocks : UInt64)
    (log : List BlockWrite) : Run (EfiStatus × List BlockWrite) :=
  if !env.alloc .mbr then .ok (.outOfResources, log)
  else do
    let endLba := if totalBlocks - 1 > 0xFFFFFFFF then 0xFFFFFFFF
      else (totalBlocks - 1).toUInt32
    let mbr ← storeSlice (List.replicate blockSize.toNat 0) 446 (mbrPartitionRecord endLba)
    let mbr ← storeSlice mbr 510 (leBytes 2 0xAA55)
    .ok (env.writeBlocks 0 mbr log)

/-! ## The GPT -/

/-- `EFI_GUID`. -/
structure EfiGuid where
  data1 : UInt32
  data2 : UInt16
  data3 : UInt16
  data4 : UInt64
deriving Repr, DecidableEq

/-- The bytes of a GUID; `data4` is an array of bytes, given as the word of
its bytes in memory order. -/
def EfiGuid.bytes (g : EfiGuid) : List UInt8 :=
  leBytes 4 g.data1.toNat ++ leBytes 2 g.data2.toNat ++ leBytes 2 g.data3.toNat
    ++ (leBytes 8 g.data4.toNat).reverse

/-- `mEspTypeGuid`. -/
def espTypeGuid : EfiGuid := ⟨0xC12A7328, 0xF81F, 0x11D2, 0xBA4B00A0C93EC93B⟩

/-- `mDiskGuid`. -/
def diskGuid : EfiGuid := ⟨0xA0A1A2A3, 0xB0B1, 0xC0C1, 0xD0D1D2D3D4D5D6D7⟩

/-- `mPartGuid`. -/
def partGuid : EfiGuid := ⟨0xE0E1E2E3, 0xF0F1, 0x0001, 0x1011121314151617⟩

def gptEntryCount : UInt32 := 128
def gptEntrySize : UInt32 := 128

/-- `GPT_ENTRIES_LBAS`. -/
def gptEntriesLbas (blockSize : UInt32) : UInt32 :=
  (gptEntryCount * gptEntrySize + blockSize - 1) / blockSize

/-- `EFI_PARTITION_TABLE_HEADER`. -/
structure GptHeader where
  signature : UInt64
  revision : UInt32
  headerSize : UInt32
  crc32 : UInt32
  reserved : UInt32
  myLba : UInt64
  alternateLba : UInt64
  firstUsableLba : UInt64
  lastUsableLba : UInt64
  diskGuid : EfiGuid
  partitionEntryLba : UInt64
  numberOfPartitionEntries : UInt32
  sizeOfPartitionEntry : UInt32
  partitionEntryArrayCrc32 : UInt32
deriving Repr, DecidableEq

/-- `sizeof (EFI_PARTITION_TABLE_HEADER)` bytes. -/
def GptHeader.bytes (h : GptHeader) : List UInt8 :=
  leBytes 8 h.signature.toNat ++ (leBytes 4 h.revision.toNat ++ (leBytes 4 h.headerSize.toNat
    ++ (leBytes 4 h.crc32.toNat ++ (leBytes 4 h.reserved.toNat ++ (leBytes 8 h.myLba.toNat
    ++ (leBytes 8 h.alternateLba.toNat ++ (leBytes 8 h.firstUsableLba.toNat
    ++ (leBytes 8 h.lastUsableLba.toNat ++ (h.diskGuid.bytes
    ++ (leBytes 8 h.partitionEntryLba.toNat ++ (leBytes 4 h.numberOfPartitionEntries.toNat
    ++ (leBytes 4 h.sizeOfPartitionEntry.toNat
    ++ leBytes 4 h.partitionEntryArrayCrc32.toNat))))))))))))

/-- Set the CRC of a header: the CRC of its bytes with the field zero. -/
def GptHeader.sealed (env : FormatEnv) (h : GptHeader) : GptHeader :=
  let h := { h with crc32 := 0 }
  { h with crc32 := env.calculateCrc32 h.bytes }

/-- `L"EFI System"`, in the 36 characters of `PartitionName`. -/
def partitionName : List UInt8 :=
  [0x45, 0, 0x46, 0, 0x49, 0, 0x20, 0, 0x53, 0, 0x79, 0, 0x73, 0, 0x74, 0, 0x65, 0, 0x6D, 0]
    ++ List.replicate 52 0

/-- The partition entry array: one `EFI_PARTITION_ENTRY`, and zeros. -/
def gptEntries (startingLba endingLba : UInt64) : List UInt8 :=
  espTypeGuid.bytes ++ (partGuid.bytes ++ (leBytes 8 startingLba.toNat
    ++ (leBytes 8 endingLba.toNat ++ (leBytes 8 0 ++ (partitionName
    ++ List.replicate (127 * 128) 0)))))

/-- One round of a loop that writes the entries: `rest` is what `Ptr` and
`Remaining` still cover. -/
def writeEntriesRound (env : FormatEnv) (blockSize : UInt32)
    (s : List UInt8 × UInt64 × List BlockWrite) :
    Run (Flow (List UInt8 × UInt64 × List BlockWrite) (EfiStatus × List BlockWrite)) :=
  let (rest, lba, log) := s
  if rest.length > 0 then do
    let chunkSize := if rest.length > blockSize.toNat then blockSize.toNat else rest.length
    let lbaBlock ← blockOf blockSize (rest.take chunkSize)
    let (status, log) := env.writeBlocks lba lbaBlock log
    if status.isError then .ok (.exit (status, log))
    else .ok (.next (rest.drop chunkSize, lba + 1, log))
  else .ok (.exit (.success, log))

/-- Rounds that are enough for an array of 128 * 128 bytes. -/
def entriesFuel : Nat := 128 * 128 + 1

/-- Write the entries to the blocks from `lba` on. -/
def writeEntries (env : FormatEnv) (blockSize : UInt32) (lba : UInt64) (entries : List UInt8)
    (log : List BlockWrite) : Run (EfiStatus × List BlockWrite) :=
  loopFuel (writeEntriesRound env blockSize) entriesFuel (entries, lba, log)

def writeGpt (env : FormatEnv) (blockSize : UInt32) (totalBlocks : UInt64)
    (log : List BlockWrite) : Run (EfiStatus × List BlockWrite) :=
  let entriesLbas := gptEntriesLbas blockSize
  let firstUsable := (2 + entriesLbas).toUInt64
  let lastUsable := totalBlocks - 2 - entriesLbas.toUInt64
  let backupHdrLba := totalBlocks - 1
  let backupEntriesLba := lastUsable + 1
  if lastUsable ≤ firstUsable then .ok (.volumeFull, log)
  else if !env.alloc .entries then .ok (.outOfResources, log)
  else
    let entries := gptEntries firstUsable lastUsable
    let entriesCrc := env.calculateCrc32 entries
    if !env.alloc .header then .ok (.outOfResources, log)
    else do
      let hdr : GptHeader := GptHeader.sealed env
        { signature := 0x5452415020494645
          revision := 0x00010000
          headerSize := 92
          crc32 := 0
          reserved := 0
          myLba := 1
          alternateLba := backupHdrLba
          firstUsableLba := firstUsable
          lastUsableLba := lastUsable
          diskGuid := diskGuid
          partitionEntryLba := 2
          numberOfPartitionEntries := gptEntryCount
          sizeOfPartitionEntry := gptEntrySize
          partitionEntryArrayCrc32 := entriesCrc }
      let block ← blockOf blockSize hdr.bytes
      let (status, log) := env.writeBlocks 1 block log
      if status.isError then .ok (status, log)
      else if !env.alloc .primaryBlock then .ok (.outOfResources, log)
      else do
        let (status, log) ← writeEntries env blockSize 2 entries log
        if status.isError then .ok (status, log)
        else if !env.alloc .backupBlock then .ok (.outOfResources, log)
        else do
          let (status, log) ← writeEntries env blockSize backupEntriesLba entries log
          if status.isError then .ok (status, log)
          else do
            let hdr := GptHeader.sealed env
              { hdr with
                myLba := backupHdrLba
                alternateLba := 1
                partitionEntryLba := backupEntriesLba }
            let block ← blockOf blockSize hdr.bytes
            .ok (env.writeBlocks backupHdrLba block log)

/-! ## The FAT file system -/

def fat16RootEntryCount : UInt16 := 512

/-- `FAT16_ROOT_DIR_SECTORS`. -/
def fat16RootDirSectors (blockSize : UInt32) : UInt32 :=
  (fat16RootEntryCount.toUInt32 * 32 + blockSize - 1) / blockSize

/-- `FirstUsable` as `FormatFat` computes it again. -/
def fatFirstUsable (blockSize : UInt32) : UInt64 :=
  (2 + gptEntriesLbas blockSize).toUInt64

/-- `LastUsable` as `FormatFat` computes it again. -/
def fatLastUsable (blockSize : UInt32) (totalBlocks : UInt64) : UInt64 :=
  totalBlocks - 2 - (gptEntriesLbas blockSize).toUInt64

def partSectors (blockSize : UInt32) (totalBlocks : UInt64) : UInt64 :=
  fatLastUsable blockSize totalBlocks - fatFirstUsable blockSize + 1

/-- What `FormatFat` settles before it writes. -/
structure FatSizing where
  useFat32 : Bool
  secPerClus : UInt32
  fatSz : UInt32
  rsvdSecCnt : UInt32
  rootDirSectors : UInt32
  totalClusters : UInt32
deriving Repr, DecidableEq

/-- Sectors of a table of `count + 2` entries. -/
def fatSectors (blockSize entrySize count : UInt32) : UInt32 :=
  ((count + 2) * entrySize + blockSize - 1) / blockSize

/-- One round of the search for a FAT16 cluster size. -/
def tryFat16 (blockSize : UInt32) (partSectors : UInt64) (i : Nat) : Option FatSizing :=
  let rootDirSectors := fat16RootDirSectors blockSize
  let rsvdSecCnt : UInt32 := 1
  let tryClus : UInt32 := 1 <<< UInt32.ofNat i
  let tryClusters :=
    ((partSectors - rsvdSecCnt.toUInt64 - rootDirSectors.toUInt64) / tryClus.toUInt64).toUInt32
  let tryFatSz := fatSectors blockSize 2 tryClusters
  let dataSectors := partSectors.toUInt32 - rsvdSecCnt - 2 * tryFatSz - rootDirSectors
  let tryClusters := dataSectors / tryClus
  if tryClusters ≥ 4085 ∧ tryClusters ≤ 65524 then
    some ⟨false, tryClus, tryFatSz, rsvdSecCnt, rootDirSectors, tryClusters⟩
  else none

/-- `SecPerClus` of a FAT32 volume. -/
def fat32SecPerClus (blockSize : UInt32) : UInt32 :=
  let secPerClus := if blockSize ≥ 32768 then 1 else 32768 / blockSize
  if secPerClus > 128 then 128 else secPerClus

def sizeFat32 (blockSize : UInt32) (partSectors : UInt64) : FatSizing :=
  let rsvdSecCnt : UInt32 := 32
  let secPerClus := fat32SecPerClus blockSize
  let totalClusters := ((partSectors - rsvdSecCnt.toUInt64) / secPerClus.toUInt64).toUInt32
  let fatSz := fatSectors blockSize 4 totalClusters
  let totalClusters :=
    ((partSectors - rsvdSecCnt.toUInt64 - (2 * fatSz).toUInt64) / secPerClus.toUInt64).toUInt32
  let fatSz := fatSectors blockSize 4 totalClusters
  ⟨true, secPerClus, fatSz, rsvdSecCnt, 0, totalClusters⟩

/-- The choice of the FAT type: the first FAT16 cluster size that fits,
else FAT32. -/
def fatSizing (blockSize : UInt32) (partSectors : UInt64) : FatSizing :=
  match (List.range 7).findSome? (tryFat16 blockSize partSectors) with
  | some sizing => sizing
  | none => sizeFat32 blockSize partSectors

/-- The fields that both boot sectors start with. -/
structure Bpb where
  jmpBoot : List UInt8
  oemName : List UInt8
  bytsPerSec : UInt16
  secPerClus : UInt8
  rsvdSecCnt : UInt16
  numFats : UInt8
  rootEntCnt : UInt16
  totSec16 : UInt16
  media : UInt8
  fatSz16 : UInt16
  secPerTrk : UInt16
  numHeads : UInt16
  hiddSec : UInt32
  totSec32 : UInt32
deriving Repr, DecidableEq

def Bpb.bytes (b : Bpb) : List UInt8 :=
  b.jmpBoot ++ (b.oemName ++ (leBytes 2 b.bytsPerSec.toNat ++ (b.secPerClus
    :: (leBytes 2 b.rsvdSecCnt.toNat ++ (b.numFats :: (leBytes 2 b.rootEntCnt.toNat
    ++ (leBytes 2 b.totSec16.toNat ++ (b.media :: (leBytes 2 b.fatSz16.toNat
    ++ (leBytes 2 b.secPerTrk.toNat ++ (leBytes 2 b.numHeads.toNat
    ++ (leBytes 4 b.hiddSec.toNat ++ leBytes 4 b.totSec32.toNat))))))))))))

/-- `"MTIKUEFI"`. -/
def oemName : List UInt8 := [0x4D, 0x54, 0x49, 0x4B, 0x55, 0x45, 0x46, 0x49]

/-- `"EFI SYSTEM "`. -/
def volumeLabel : List UInt8 :=
  [0x45, 0x46, 0x49, 0x20, 0x53, 0x59, 0x53, 0x54, 0x45, 0x4D, 0x20]

/-- `"FAT16   "`. -/
def fat16Type : List UInt8 := [0x46, 0x41, 0x54, 0x31, 0x36, 0x20, 0x20, 0x20]

/-- `"FAT32   "`. -/
def fat32Type : List UInt8 := [0x46, 0x41, 0x54, 0x33, 0x32, 0x20, 0x20, 0x20]

def fat16Bpb (blockSize : UInt32) (partSectors firstUsable : UInt64) (z : FatSizing) : Bpb where
  jmpBoot := [0xEB, 0x3C, 0x90]
  oemName := oemName
  bytsPerSec := blockSize.toUInt16
  secPerClus := z.secPerClus.toUInt8
  rsvdSecCnt := z.rsvdSecCnt.toUInt16
  numFats := 2
  rootEntCnt := fat16RootEntryCount
  totSec16 := if partSectors ≤ 0xFFFF then partSectors.toUInt16 else 0
  media := 0xF8
  fatSz16 := z.fatSz.toUInt16
  secPerTrk := 63
  numHeads := 255
  hiddSec := firstUsable.toUInt32
  totSec32 := if partSectors ≤ 0xFFFF then 0 else partSectors.toUInt32

def fat32Bpb (blockSize : UInt32) (partSectors firstUsable : UInt64) (z : FatSizing) : Bpb where
  jmpBoot := [0xEB, 0x58, 0x90]
  oemName := oemName
  bytsPerSec := blockSize.toUInt16
  secPerClus := z.secPerClus.toUInt8
  rsvdSecCnt := z.rsvdSecCnt.toUInt16
  numFats := 2
  rootEntCnt := 0
  totSec16 := 0
  media := 0xF8
  fatSz16 := 0
  secPerTrk := 63
  numHeads := 255
  hiddSec := firstUsable.toUInt32
  totSec32 := partSectors.toUInt32

/-- `FAT16_BOOT_SECTOR` from offset 36 on. -/
def fat16Extension : List UInt8 :=
  [0x80, 0, 0x29] ++ leBytes 4 0xDEADBEEF ++ volumeLabel ++ fat16Type
    ++ List.replicate 448 0 ++ leBytes 2 0xAA55

/-- `FAT32_BOOT_SECTOR` from offset 36 on. -/
def fat32Extension (fatSz : UInt32) : List UInt8 :=
  leBytes 4 fatSz.toNat ++ leBytes 2 0 ++ leBytes 2 0 ++ leBytes 4 2 ++ leBytes 2 1
    ++ leBytes 2 6 ++ List.replicate 12 0 ++ [0x80, 0, 0x29] ++ leBytes 4 0xDEADBEEF
    ++ volumeLabel ++ fat32Type ++ List.replicate 420 0 ++ leBytes 2 0xAA55

def fatBpb (blockSize : UInt32) (partSectors firstUsable : UInt64) (z : FatSizing) : Bpb :=
  if z.useFat32 then fat32Bpb blockSize partSectors firstUsable z
  else fat16Bpb blockSize partSectors firstUsable z

def bootSector (blockSize : UInt32) (partSectors firstUsable : UInt64) (z : FatSizing) :
    List UInt8 :=
  (fatBpb blockSize partSectors firstUsable z).bytes
    ++ if z.useFat32 then fat32Extension z.fatSz else fat16Extension

/-- `FAT32_FSINFO`. -/
def fsInfo (totalClusters : UInt32) : List UInt8 :=
  leBytes 4 0x41615252 ++ List.replicate 480 0 ++ leBytes 4 0x61417272
    ++ leBytes 4 (totalClusters - 1).toNat ++ leBytes 4 3 ++ List.replicate 12 0
    ++ leBytes 4 0xAA550000

/-- The entries of the first sector of a FAT that are in use. -/
def fatHead (useFat32 : Bool) : List UInt8 :=
  if useFat32 then leBytes 4 0x0FFFFFF8 ++ leBytes 4 0x0FFFFFFF ++ leBytes 4 0x0FFFFFFF
  else leBytes 2 0xFFF8 ++ leBytes 2 0xFFFF

/-- The boot sector and, for FAT32, its copy at sector 6. -/
def writeBootSectors (env : FormatEnv) (firstUsable : UInt64) (useFat32 : Bool)
    (sector : List UInt8) (log : List BlockWrite) : EfiStatus × List BlockWrite :=
  let (status, log) := env.writeBlocks firstUsable sector log
  if status.isError then (status, log)
  else if useFat32 then env.writeBlocks (firstUsable + 6) sector log
  else (status, log)

/-- The two FATs and the root directory, whatever the statuses are. -/
def writeFatArea (env : FormatEnv) (blockSize : UInt32) (firstUsable : UInt64) (z : FatSizing)
    (log : List BlockWrite) : Run (EfiStatus × List BlockWrite) :=
  let fatStartLba := firstUsable + z.rsvdSecCnt.toUInt64
  let fat2StartLba := fatStartLba + z.fatSz.toUInt64
  let rootDirLba := fat2StartLba + z.fatSz.toUInt64
  let dataStartLba := rootDirLba + z.rootDirSectors.toUInt64
  if !env.alloc .fatSector then .ok (.outOfResources, log)
  else do
    let sector ← blockOf blockSize (fatHead z.useFat32)
    let log := env.writeEach [fatStartLba, fat2StartLba] sector log
    let sector := List.replicate blockSize.toNat 0
    let log := env.writeEach ((List.range' 1 (z.fatSz.toNat - 1)).flatMap fun i =>
      [fatStartLba + UInt64.ofNat i, fat2StartLba + UInt64.ofNat i]) sector log
    let root := if z.useFat32
      then (List.range z.secPerClus.toNat).map fun j => dataStartLba + UInt64.ofNat j
      else (List.range z.rootDirSectors.toNat).map fun i => rootDirLba + UInt64.ofNat i
    .ok (.success, env.writeEach root sector log)

def formatFat (env : FormatEnv) (blockSize : UInt32) (totalBlocks : UInt64)
    (log : List BlockWrite) : Run (EfiStatus × List BlockWrite) :=
  let firstUsable := fatFirstUsable blockSize
  let partSectors := partSectors blockSize totalBlocks
  let z := fatSizing blockSize partSectors
  if !env.alloc .bootSector then .ok (.outOfResources, log)
  else do
    let sector ← blockOf blockSize (bootSector blockSize partSectors firstUsable z)
    let (status, log) := writeBootSectors env firstUsable z.useFat32 sector log
    if status.isError then .ok (status, log)
    else if z.useFat32 then
      if !env.alloc .fsInfo then .ok (.outOfResources, log)
      else do
        let info ← blockOf blockSize (fsInfo z.totalClusters)
        let log := env.writeEach [firstUsable + 1, firstUsable + 7] info log
        writeFatArea env blockSize firstUsable z log
    else writeFatArea env blockSize firstUsable z log

/-! ## The application -/

/-- What is read of `BlockIo->Media`. -/
structure BlockMedia where
  readOnly : Bool
  blockSize : UInt32
  lastBlock : UInt64
deriving Repr, DecidableEq

/-- `target` is what `OpenProtocol` of the handle gives. -/
def formatBlockDevice (env : FormatEnv) (target : Except EfiStatus BlockMedia) :
    Run (EfiStatus × List BlockWrite) :=
  match target with
  | .error status => .ok (status, [])
  | .ok media =>
      if media.readOnly then .ok (.writeProtected, [])
      else
        let blockSize := media.blockSize
        let totalBlocks := media.lastBlock + 1
        if blockSize < 512 then .ok (.unsupported, [])
        else do
          let (status, log) ← writeProtectiveMbr env blockSize totalBlocks []
          if status.isError then .ok (status, log)
          else do
            let (status, log) ← writeGpt env blockSize totalBlocks log
            if status.isError then .ok (status, log)
            else formatFat env blockSize totalBlocks log

end Ccr2004
