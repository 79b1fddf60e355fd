import Ccr2004.YaffsOpen

/-!
# File information and directory reads

`BuildFileInfo` and the directory branch of `Yaffs2Read` from `ReadDir.c`,
`Yaffs2SetPosition`, and `Yaffs2GetInfo` from `Info.c`. An information
record stands for the bytes the functions write to `Buffer`; a call that
writes nothing returns `none` for it. `EpochToEfiTime` is a parameter: it
writes the calendar fields of the seconds since the epoch over an
`EFI_TIME`.
-/

namespace Ccr2004

/-! ## The records -/

/-- `EFI_TIME`. -/
structure EfiTime where
  year : UInt16
  month : UInt8
  day : UInt8
  hour : UInt8
  minute : UInt8
  second : UInt8
  pad1 : UInt8
  nanosecond : UInt32
  timeZone : Int16
  daylight : UInt8
  pad2 : UInt8
deriving DecidableEq

/-- An `EFI_TIME` after `ZeroMem`. -/
def EfiTime.zero : EfiTime := ⟨0, 0, 0, 0, 0, 0, 0, 0, 0, 0, 0⟩

/-- `EFI_FILE_INFO`; `fileName` ends with its terminator. -/
structure EfiFileInfo where
  size : UInt64
  fileSize : UInt64
  physicalSize : UInt64
  createTime : EfiTime
  lastAccessTime : EfiTime
  modificationTime : EfiTime
  fileAttribute : UInt64
  fileName : List UInt16
deriving DecidableEq

/-- `EFI_FILE_SYSTEM_INFO`. -/
structure EfiFileSystemInfo where
  size : UInt64
  readOnly : Bool
  volumeSize : UInt64
  freeSpace : UInt64
  blockSize : UInt32
  volumeLabel : List UInt16
deriving DecidableEq

/-- What `Yaffs2GetInfo` writes to `Buffer`. -/
inductive InfoRecord where
  | file (info : EfiFileInfo)
  | fileSystem (info : EfiFileSystemInfo)
  | volumeLabel (label : List UInt16)
deriving DecidableEq

/-- The `InformationType`s `Yaffs2GetInfo` tells apart. -/
inductive InfoType where
  | fileInfo
  | fileSystemInfo
  | volumeLabel
  | other
deriving Repr, DecidableEq

def sizeOfEfiFileInfo : UInt64 := 80
def sizeOfEfiFileSystemInfo : UInt64 := 36
def sizeOfEfiFileSystemVolumeLabel : UInt64 := 2

def efiFileReadOnly : UInt64 := 0x01
def efiFileDirectory : UInt64 := 0x10

/-- `(n + 1) * sizeof (CHAR16)`. -/
def char16Bytes (n : Nat) : UInt64 := (UInt64.ofNat n + 1) * 2

section Info

variable (epochToEfiTime : UInt64 → EfiTime → EfiTime)

/-- The times of a record whose memory is zeroed. -/
def efiTime (mTime : UInt32) : EfiTime :=
  if mTime ≠ 0 then epochToEfiTime mTime.toUInt64 .zero else .zero

/-- The record of an object, with `nameLen` characters of its name. -/
def fileInfo (obj : Yaffs2Object) (nameLen : Nat) (size : UInt64) : EfiFileInfo where
  size := size
  fileSize := obj.fileSize
  physicalSize := obj.fileSize
  createTime := efiTime epochToEfiTime obj.mTime
  lastAccessTime := efiTime epochToEfiTime obj.mTime
  modificationTime := efiTime epochToEfiTime obj.mTime
  fileAttribute :=
    if obj.type = yaffs2TypeDir then efiFileReadOnly ||| efiFileDirectory else efiFileReadOnly
  fileName := (obj.name.toList.take nameLen).map UInt8.toUInt16 ++ [0]

/-- Write a record of `size` bytes, if it fits: the status, what `*BufSize`
holds afterwards, and the record. -/
def writeInfo {α : Type} (hasBuffer : Bool) (bufSize size : UInt64) (info : α) :
    Run (EfiStatus × UInt64 × Option α) :=
  if bufSize < size then .ok (.bufferTooSmall, size, none)
  else if !hasBuffer then .error .nullDeref
  else .ok (.success, size, some info)

/-! ## Directory reads -/

def buildFileInfo (obj : Yaffs2Object) (hasBuffer : Bool) (bufSize : UInt64) :
    Run (EfiStatus × UInt64 × Option EfiFileInfo) := do
  let nameLen ← strLen obj.name.toList
  let infoSize := sizeOfEfiFileInfo + char16Bytes nameLen
  writeInfo hasBuffer bufSize infoSize (fileInfo epochToEfiTime obj nameLen infoSize)

/-- The object a child is displayed with: the target of a hardlink, under
the hardlink's name. -/
def displayedObject (vol : Yaffs2Volume) (child : Yaffs2Object) : Run Yaffs2Object :=
  if child.type = yaffs2TypeHardlink then
    if child.equivId > 0 ∧ child.equivId ≤ vol.maxObjId then do
      match ← vol.slot child.equivId with
      | none => .ok child
      | some target => .ok { target with name := child.name }
    else .ok child
  else .ok child

/-- The directory branch of `Yaffs2Read`: the status, `*BufferSize`, the
record, and the handle. -/
def yaffs2ReadDirectory (vol : Yaffs2Volume) (ifile : Yaffs2IFile) (hasBuffer : Bool)
    (bufferSize : UInt64) :
    Run ((EfiStatus × UInt64 × Option EfiFileInfo) × Yaffs2IFile) :=
  match ifile.dirCursor with
  | none => .error .nullDeref
  | some [] => .ok ((.success, 0, none), ifile)
  | some (entry :: rest) => do
      let child ← vol.deref (some entry)
      let shown ← displayedObject vol child
      let out ← buildFileInfo epochToEfiTime shown hasBuffer bufferSize
      if !out.1.isError then
        .ok (out, { ifile with dirCursor := some rest, position := ifile.position + 1 })
      else .ok (out, ifile)

end Info

/-- `Yaffs2SetPosition`, on a handle that is not null. -/
def yaffs2SetPosition (vol : Yaffs2Volume) (ifile : Yaffs2IFile) (position : UInt64) :
    Run (EfiStatus × Yaffs2IFile) := do
  let obj ← vol.deref ifile.oFile
  if obj.type = yaffs2TypeDir then
    if position ≠ 0 then .ok (.unsupported, ifile)
    else .ok (.success, { ifile with dirCursor := some obj.children, position := 0 })
  else if position = 0xFFFFFFFFFFFFFFFF then
    .ok (.success, { ifile with position := obj.fileSize })
  else .ok (.success, { ifile with position := position })

/-! ## GetInfo -/

/-- `YAFFS2_VOLUME_LABEL`. -/
def yaffs2VolumeLabel : List UInt16 :=
  [0x4D, 0x69, 0x6B, 0x72, 0x6F, 0x54, 0x69, 0x6B, 0x20, 0x4E, 0x41, 0x4E, 0x44]

/-- `Yaffs2GetInfo`: the status, what `*BufferSize` holds afterwards, and the
record. -/
def yaffs2GetInfo {σ : Type} (epochToEfiTime : UInt64 → EfiTime → EfiTime)
    (nand : NandFlashProtocol σ) (vol : Yaffs2Volume) (this : Option Yaffs2IFile)
    (informationType : Option InfoType) (bufferSize : Option UInt64) (hasBuffer : Bool) :
    Run (EfiStatus × Option UInt64 × Option InfoRecord) :=
  match this, informationType, bufferSize with
  | some ifile, some informationType, some bufSize =>
      match informationType with
      | .fileInfo => do
          let oFile ← vol.deref ifile.oFile
          let nameLen ← if ifile.oFile = vol.root then .ok 0 else strLen oFile.name.toList
          let needed := sizeOfEfiFileInfo + char16Bytes nameLen
          let (status, size, info) ← writeInfo hasBuffer bufSize needed
            (fileInfo epochToEfiTime oFile nameLen needed)
          .ok (status, some size, info.map .file)
      | .fileSystemInfo => do
          let labelLen := yaffs2VolumeLabel.length
          let needed := sizeOfEfiFileSystemInfo + char16Bytes labelLen
          let (status, size, info) ← writeInfo hasBuffer bufSize needed
            { size := needed
              readOnly := true
              volumeSize := nand.numBlocks.toUInt64 * nand.pagesPerBlock.toUInt64
                * yaffs2DataPerPage.toUInt64
              freeSpace := 0
              blockSize := yaffs2DataPerPage
              volumeLabel := yaffs2VolumeLabel ++ [0] }
          .ok (status, some size, info.map .fileSystem)
      | .volumeLabel => do
          let labelLen := yaffs2VolumeLabel.length
          let needed := sizeOfEfiFileSystemVolumeLabel + char16Bytes labelLen
          let (status, size, info) ← writeInfo hasBuffer bufSize needed
            (yaffs2VolumeLabel ++ [0])
          .ok (status, some size, info.map .volumeLabel)
      | .other => .ok (.unsupported, bufferSize, none)
  | _, _, _ => .ok (.invalidParameter, bufferSize, none)

end Ccr2004
