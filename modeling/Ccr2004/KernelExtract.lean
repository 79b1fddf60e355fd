import Ccr2004.Bytes
import Ccr2004.CString
import Ccr2004.Efi

/-!
# Kernel extraction

`KernelExtract.c`: the `initrd` section of the boot ELF, or what follows its
loaded segments, holds one XZ stream with the kernel and maybe a second one
with the initrd. The ELF is the list of its bytes and `UINTN` is `UInt64`; a
sum of offsets wraps, the access that follows does not. The XZ decoder and
the outcome of each allocation are a `KernelEnv`.
-/

namespace Ccr2004

/-- Why a run stops: an access outside the ELF, one outside the decompressed
image, or a search that does not end. -/
inductive KernelFault where
  | elf
  | image
  | diverge
deriving Repr, DecidableEq

abbrev KernelRun (α : Type) := Except KernelFault α

/-! ## Reading the ELF -/

/-- `n` bytes of the ELF. -/
def elfBytes (data : List UInt8) (off n : Nat) : KernelRun (List UInt8) :=
  if off + n ≤ data.length then .ok (slice data off n) else .error .elf

def elfByte (data : List UInt8) (off : Nat) : KernelRun UInt8 := do
  let bytes ← elfBytes data off 1
  .ok (UInt8.ofNat (leNat bytes))

def elf16 (data : List UInt8) (off : Nat) : KernelRun UInt16 := do
  let bytes ← elfBytes data off 2
  .ok (UInt16.ofNat (leNat bytes))

def elf32 (data : List UInt8) (off : Nat) : KernelRun UInt32 := do
  let bytes ← elfBytes data off 4
  .ok (UInt32.ofNat (leNat bytes))

def elf64 (data : List UInt8) (off : Nat) : KernelRun UInt64 := do
  let bytes ← elfBytes data off 8
  .ok (UInt64.ofNat (leNat bytes))

/-- `AsciiStrCmp` of a string in the ELF. -/
def elfStrCmp (data : List UInt8) (off : Nat) (name : List UInt8) : KernelRun Int :=
  match strCmp (data.drop off) (name ++ [0]) with
  | .ok v => .ok v
  | .error _ => .error .elf

/-- `e_shstrndx * e_shentsize`, an `int`, as a `UINTN`. -/
def intProduct (a b : UInt16) : UInt64 :=
  (a.toUInt32 * b.toUInt32).toInt32.toInt64.toUInt64

/-! ## Sections -/

/-- One round of the loop over the sections. -/
def findElfSectionRound (data name : List UInt8) (shoff : UInt64) (shentsize : UInt16)
    (strOffset strSize : UInt64) (i : Nat) (_ : Unit) :
    KernelRun (Flow Unit (Except EfiStatus (UInt64 × UInt64))) :=
  let size := UInt64.ofNat data.length
  let shOff := shoff + UInt64.ofNat i * shentsize.toUInt64
  if shOff + 64 > size then .ok (.exit (.error .notFound))
  else do
    let shName ← elf32 data shOff.toNat
    if shName.toUInt64 ≥ strSize then .ok (.next ())
    else do
      let order ← elfStrCmp data (strOffset.toNat + shName.toNat) name
      if order = 0 then do
        let secOffset ← elf64 data (shOff.toNat + 24)
        let secSize ← elf64 data (shOff.toNat + 32)
        if secOffset + secSize > size then .ok (.exit (.error .notFound))
        else .ok (.exit (.ok (secOffset, secSize)))
      else .ok (.next ())

/-- The search behind the header checks. -/
def findInSections (data name : List UInt8) (shoff : UInt64) (shentsize shnum shstrndx : UInt16) :
    KernelRun (Except EfiStatus (UInt64 × UInt64)) :=
  let size := UInt64.ofNat data.length
  let strTabOff := shoff + intProduct shstrndx shentsize
  if strTabOff + 64 > size then .ok (.error .notFound)
  else do
    let strOffset ← elf64 data (strTabOff.toNat + 24)
    let strSize ← elf64 data (strTabOff.toNat + 32)
    if strOffset + strSize > size then .ok (.error .notFound)
    else do
      match ← forFrom (findElfSectionRound data name shoff shentsize strOffset strSize)
          shnum.toNat 0 () with
      | .next () => .ok (.error .notFound)
      | .exit found => .ok found

def findElfSection (data name : List UInt8) : KernelRun (Except EfiStatus (UInt64 × UInt64)) :=
  if UInt64.ofNat data.length < 64 then .ok (.error .invalidParameter)
  else do
    let magic ← elf32 data 0
    if magic ≠ 0x464C457F then .ok (.error .invalidParameter)
    else do
      let elfClass ← elfByte data 4
      let elfData ← elfByte data 5
      if elfClass ≠ 2 ∨ elfData ≠ 1 then .ok (.error .invalidParameter)
      else do
        let machine ← elf16 data 18
        if machine ≠ 183 then .ok (.error .invalidParameter)
        else do
          let shnum ← elf16 data 60
          let shoff ← elf64 data 40
          let shstrndx ← elf16 data 62
          if shnum = 0 ∨ shoff = 0 ∨ shstrndx ≥ shnum then .ok (.error .notFound)
          else do
            let shentsize ← elf16 data 58
            findInSections data name shoff shentsize shnum shstrndx

/-! ## Loaded segments -/

/-- One round of the loop over the program headers. -/
def ptLoadRound (data : List UInt8) (phoff : UInt64) (phentsize : UInt16) (i : Nat)
    (ptLoadEnd : UInt64) : KernelRun (Flow UInt64 UInt64) :=
  let phOff := phoff + UInt64.ofNat i * phentsize.toUInt64
  if phOff + 56 > UInt64.ofNat data.length then .ok (.exit ptLoadEnd)
  else do
    let pType ← elf32 data phOff.toNat
    if pType = 1 then do
      let pOffset ← elf64 data (phOff.toNat + 8)
      let pFilesz ← elf64 data (phOff.toNat + 32)
      let segEnd := pOffset + pFilesz
      .ok (.next (if segEnd > ptLoadEnd then segEnd else ptLoadEnd))
    else .ok (.next ptLoadEnd)

/-- The greatest end of a `PT_LOAD` segment. -/
def ptLoadEnd (data : List UInt8) : KernelRun UInt64 := do
  let phnum ← elf16 data 56
  if phnum = 0 then .ok 0
  else do
    let phoff ← elf64 data 32
    let phentsize ← elf16 data 54
    let last ← forFrom (ptLoadRound data phoff phentsize) phnum.toNat 0 0
    .ok last.state

/-! ## XZ streams -/

/-- `gXzMagic`. -/
def xzMagic : List UInt8 := [0xFD, 0x37, 0x7A, 0x58, 0x5A, 0x00]

/-- `CPIO_MAGIC`. -/
def cpioMagic : List UInt8 := [0x30, 0x37, 0x30, 0x37, 0x30, 0x31]

/-- `XZ_OUTPUT_MAX_SIZE`. -/
def xzOutputMaxSize : Nat := 32 * 1024 * 1024

def findXzRound (data : List UInt8) (dataSize : UInt64) (_ : Nat) (i : UInt64) :
    KernelRun (Flow UInt64 (Option UInt64)) :=
  if i + 6 ≤ dataSize then do
    let bytes ← elfBytes data i.toNat 6
    if bytes = xzMagic then .ok (.exit (some i)) else .ok (.next (i + 1))
  else .ok (.exit none)

/-- `FindXzStream`. -/
def findXzStream (data : List UInt8) (dataSize startOffset : UInt64) :
    KernelRun (Option UInt64) := do
  match ← forFrom (findXzRound data dataSize) (data.length + 1) 0 startOffset with
  | .exit found => .ok found
  | .next _ => .error .diverge

inductive XzRet where
  | streamEnd
  | other
deriving Repr, DecidableEq

/-- What `xz_dec_run` leaves: its result, `in_pos` and the output. -/
structure XzResult where
  ret : XzRet
  inPos : Nat
  out : List UInt8

/-- The decoder, and whether the output buffer and the decoder of each of the
two calls can be allocated. -/
structure KernelEnv where
  xzDecRun : List UInt8 → XzResult
  allocOutput : Nat → Bool
  xzDecInit : Nat → Bool

/-- `TryXzDecompress`: the output and the bytes consumed. -/
def KernelEnv.tryXzDecompress (env : KernelEnv) (call : Nat) (input : List UInt8) :
    Except EfiStatus (List UInt8 × Nat) :=
  if !env.allocOutput call then .error .outOfResources
  else if !env.xzDecInit call then .error .outOfResources
  else
    let res := env.xzDecRun input
    if res.ret = .streamEnd then .ok (res.out, res.inPos)
    else if res.out.length > 0 then .ok (res.out, res.inPos)
    else .error .compromisedData

/-! ## The PE image -/

def imageByte (data : List UInt8) (off : Nat) : KernelRun UInt8 :=
  if off < data.length then .ok (UInt8.ofNat (leNat (slice data off 1))) else .error .image

/-- A 16-bit word read byte by byte. -/
def imageWord16 (data : List UInt8) (off : Nat) : KernelRun UInt16 := do
  let b0 ← imageByte data off
  let b1 ← imageByte data (off + 1)
  .ok (b0.toUInt16 ||| (b1.toUInt16 <<< 8))

/-- A 32-bit word read byte by byte. -/
def imageWord32 (data : List UInt8) (off : Nat) : KernelRun UInt32 := do
  let b0 ← imageByte data off
  let b1 ← imageByte data (off + 1)
  let b2 ← imageByte data (off + 2)
  let b3 ← imageByte data (off + 3)
  .ok (b0.toUInt32 ||| (b1.toUInt32 <<< 8) ||| (b2.toUInt32 <<< 16) ||| (b3.toUInt32 <<< 24))

def peSectionRound (data : List UInt8) (secStart : UInt64) (i : Nat) (maxEnd : UInt64) :
    KernelRun (Flow UInt64 UInt64) := do
  let so := secStart + UInt64.ofNat i * 40
  let rawSize ← imageWord32 data (so + 16).toNat
  let rawPtr ← imageWord32 data (so + 20).toNat
  let secEnd := rawPtr.toUInt64 + rawSize.toUInt64
  .ok (.next (if secEnd > maxEnd then secEnd else maxEnd))

/-- `GetPeFileSize`; `none` is `FALSE`. -/
def getPeFileSize (data : List UInt8) : KernelRun (Option UInt64) :=
  let dataSize := UInt64.ofNat data.length
  if dataSize < 0x40 then .ok none
  else do
    let m ← imageByte data 0
    let z ← imageByte data 1
    if m ≠ 0x4D ∨ z ≠ 0x5A then .ok none
    else do
      let peOffset ← imageWord32 data 0x3C
      if (peOffset + 24).toUInt64 > dataSize then .ok none
      else do
        let s0 ← imageByte data peOffset.toNat
        let s1 ← imageByte data (peOffset + 1).toNat
        let s2 ← imageByte data (peOffset + 2).toNat
        let s3 ← imageByte data (peOffset + 3).toNat
        if s0 ≠ 0x50 ∨ s1 ≠ 0x45 ∨ s2 ≠ 0 ∨ s3 ≠ 0 then .ok none
        else do
          let numSections ← imageWord16 data (peOffset + 6).toNat
          let optHdrSize ← imageWord16 data (peOffset + 20).toNat
          let secStart := (peOffset + 24 + optHdrSize.toUInt32).toUInt64
          if secStart + numSections.toUInt64 * 40 > dataSize then .ok none
          else do
            let maxEnd ← forFrom (peSectionRound data secStart) numSections.toNat 0 0
            .ok (some maxEnd.state)

/-! ## The two streams -/

/-- The status and the four outputs. -/
structure KernelExtract where
  status : EfiStatus
  stubBuffer : Option (List UInt8)
  stubSize : UInt64
  initrdData : Option (List UInt8)
  initrdSize : UInt64
deriving Repr, DecidableEq

/-- A return with an error. -/
def KernelExtract.failed (status : EfiStatus) : KernelExtract :=
  ⟨status, none, 0, none, 0⟩

def initrdName : List UInt8 := [0x69, 0x6E, 0x69, 0x74, 0x72, 0x64]

/-- Where to search: the section, or what follows the loaded segments. -/
def searchRange (data : List UInt8) : KernelRun (UInt64 × UInt64) := do
  match ← findElfSection data initrdName with
  | .ok (secOffset, secSize) => .ok (secOffset, secOffset + secSize)
  | .error _ => do
      let start ← ptLoadEnd data
      .ok (start, UInt64.ofNat data.length)

def skipZerosRound (data : List UInt8) (searchEnd : UInt64) (_ : Nat) (pos : UInt64) :
    KernelRun (Flow UInt64 UInt64) :=
  if pos < searchEnd then do
    let b ← elfByte data pos.toNat
    if b = 0 then .ok (.next (pos + 1)) else .ok (.exit pos)
  else .ok (.exit pos)

/-- Skip the padding between the streams. -/
def skipZeros (data : List UInt8) (searchEnd start : UInt64) : KernelRun UInt64 := do
  match ← forFrom (skipZerosRound data searchEnd) (data.length + 1) 0 start with
  | .exit pos => .ok pos
  | .next _ => .error .diverge

/-- The second stream, after a kernel that is accepted. -/
def extractInitrd (env : KernelEnv) (data : List UInt8) (searchEnd stream2Start : UInt64)
    (kernel : List UInt8) (kernelFileSize : UInt64) : KernelRun KernelExtract := do
  let start ← skipZeros data searchEnd stream2Start
  let found ← findXzStream data searchEnd start
  match found with
  | none => .ok ⟨.success, some kernel, kernelFileSize, none, 0⟩
  | some pos => do
      let input ← elfBytes data pos.toNat (searchEnd - pos).toNat
      match env.tryXzDecompress 1 input with
      | .error _ => .ok ⟨.success, some kernel, kernelFileSize, none, 0⟩
      | .ok (initrd, _) =>
          if initrd.length ≥ 6 ∧ initrd.take 6 = cpioMagic then
            .ok ⟨.success, some kernel, kernelFileSize, some initrd,
              UInt64.ofNat initrd.length⟩
          else .ok ⟨.success, some kernel, kernelFileSize, none, 0⟩

def extractKernelAndInitrd (env : KernelEnv) (data : List UInt8) : KernelRun KernelExtract := do
  let (searchStart, searchEnd) ← searchRange data
  let found ← findXzStream data searchEnd searchStart
  match found with
  | none => .ok (.failed .notFound)
  | some xzOffset => do
      let input ← elfBytes data xzOffset.toNat (searchEnd - xzOffset).toNat
      match env.tryXzDecompress 0 input with
      | .error status => .ok (.failed status)
      | .ok (kernel, consumed) =>
          if kernel.length < 2 ∨ kernel.take 2 ≠ [0x4D, 0x5A] then .ok (.failed .notFound)
          else do
            let parsed ← getPeFileSize kernel
            let kernelFileSize := parsed.getD (UInt64.ofNat kernel.length)
            extractInitrd env data searchEnd (xzOffset + UInt64.ofNat consumed) kernel
              kernelFileSize

end Ccr2004
