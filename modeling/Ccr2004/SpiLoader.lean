import Ccr2004.SpiNorFlash

/-!
# The SPI loader

`SpiFlash.c` and `ElfLoader.c`: the first-stage loader that reads an ELF
image from the flash slot into memory. The machine is the memory, the SPI
bus, the byte ranges stored to so far and whether any address or size sum
has wrapped so far; every such sum goes through `add32` or `add64`.

Structures are decoded from memory each time the source reads a field, so
that a store over the header or the program-header table would be seen.
`SpiloaderPanic` waits forever. Console output is left out.
-/

namespace Ccr2004

/-! ## The machine -/

structure Machine where
  spi : Spi
  mem : Memory UInt8
  stores : List (Nat × Nat)
  wrapped : Bool

namespace Machine

/-- A 64-bit sum. -/
def add64 (m : Machine) (x y : UInt64) : UInt64 × Machine :=
  (x + y, { m with wrapped := m.wrapped || decide (2 ^ 64 ≤ x.toNat + y.toNat) })

/-- A 32-bit sum. -/
def add32 (m : Machine) (x y : UInt32) : UInt32 × Machine :=
  (x + y, { m with wrapped := m.wrapped || decide (2 ^ 32 ≤ x.toNat + y.toNat) })

def store (m : Machine) (a : UInt64) (bs : List UInt8) : Machine :=
  { m with
    mem := m.mem.write a.toNat bs
    stores := m.stores ++ [(a.toNat, bs.length)] }

end Machine

/-! ## Headers -/

/-- The fields of `ELF64_EHDR` the loader reads. -/
structure Elf64Ehdr where
  ident : List UInt8
  machine : UInt16
  version : UInt32
  entry : UInt64
  phoff : UInt64
  ehsize : UInt16
  phentsize : UInt16
  phnum : UInt16
deriving DecidableEq

/-- The fields of `ELF64_PHDR` the loader reads. -/
structure Elf64Phdr where
  type : UInt32
  offset : UInt64
  vaddr : UInt64
  paddr : UInt64
  filesz : UInt64
  memsz : UInt64
deriving DecidableEq

def ehdrSize : Nat := 64
def phdrSize : Nat := 56

def decodeEhdr (bs : List UInt8) : Elf64Ehdr where
  ident := slice bs 0 16
  machine := UInt16.ofNat (leNat (slice bs 18 2))
  version := UInt32.ofNat (leNat (slice bs 20 4))
  entry := UInt64.ofNat (leNat (slice bs 24 8))
  phoff := UInt64.ofNat (leNat (slice bs 32 8))
  ehsize := UInt16.ofNat (leNat (slice bs 52 2))
  phentsize := UInt16.ofNat (leNat (slice bs 54 2))
  phnum := UInt16.ofNat (leNat (slice bs 56 2))

def decodePhdr (bs : List UInt8) : Elf64Phdr where
  type := UInt32.ofNat (leNat (slice bs 0 4))
  offset := UInt64.ofNat (leNat (slice bs 8 8))
  vaddr := UInt64.ofNat (leNat (slice bs 16 8))
  paddr := UInt64.ofNat (leNat (slice bs 24 8))
  filesz := UInt64.ofNat (leNat (slice bs 32 8))
  memsz := UInt64.ofNat (leNat (slice bs 40 8))

def readEhdr (mem : Memory UInt8) (a : Nat) : Elf64Ehdr := decodeEhdr (mem.read a ehdrSize)
def readPhdr (mem : Memory UInt8) (a : Nat) : Elf64Phdr := decodePhdr (mem.read a phdrSize)

/-- Where a segment goes: `p_paddr`, or `p_vaddr` when that is zero. -/
def Elf64Phdr.target (ph : Elf64Phdr) : UInt64 :=
  if ph.paddr ≠ 0 then ph.paddr else ph.vaddr

/-- `(uint64_t)e_phnum * sizeof (ELF64_PHDR)`. -/
def Elf64Ehdr.tableSize (h : Elf64Ehdr) : UInt64 := h.phnum.toUInt64 * 56

/-! ## Constants -/

/-- `SPILOADER_LOAD_ADDR`. -/
def spiloaderLoadAddr : UInt64 := 0x04000000

/-- `SPILOADER_MAX_IMAGE_SIZE`. -/
def spiloaderMaxImageSize : UInt64 := 8 * 1024 * 1024

/-- `SPILOADER_PHDR_LIMIT`. -/
def spiloaderPhdrLimit : UInt16 := 32

/-- `CCR2004_SPI_FLASH_OFFSET`. -/
def ccr2004SpiFlashOffset : UInt32 := 0x00800000

def ptLoad : UInt32 := 1
def elfClass64 : UInt8 := 2
def elfData2Lsb : UInt8 := 1
def evCurrent : UInt8 := 1
def emAarch64 : UInt16 := 183

/-- `CacheLineBytes`, from the value of `CTR_EL0`. -/
def cacheLineBytes (ctr : UInt64) : UInt64 := (4 : UInt64) <<< ((ctr >>> 16) &&& 0x0F)

/-- Where the linker and the stack put what the loader keeps in memory: the
program-header table in `.bss`, `Header` on the stack above it, both inside
`[SPILOADER_LOAD_ADDR, __stack_top)`. -/
structure LoaderLayout where
  mProgramHeaders : Nat
  header : Nat
  stackTop : UInt64
  load_le : spiloaderLoadAddr.toNat ≤ mProgramHeaders
  table_le : mProgramHeaders + 32 * phdrSize ≤ header
  header_le : header + ehdrSize ≤ stackTop.toNat

namespace Machine

/-! ## Reading the flash -/

/-- The loop variables of `SpiFlashRead`. -/
structure FlashReadState where
  flashOffset : UInt32
  bytes : UInt64
  length : UInt64
  machine : Machine

/-- A read that fails may leave anything in its buffer; the callers give up. -/
def flashReadRound (st : FlashReadState) : Run (Flow FlashReadState (Int × Machine)) :=
  if st.length > 0 then
    let chunk := if st.length > 4096 then 4096 else st.length
    match st.machine.spi.transfer (addressedCmd cmdReadData st.flashOffset) []
        chunk.toUInt32.toNat with
    | (none, spi) => .ok (.exit (-1, { st.machine with spi := spi }))
    | (some data, spi) =>
        let m := { st.machine with spi := spi }.store st.bytes data
        let (flashOffset, m) := m.add32 st.flashOffset chunk.toUInt32
        let (bytes, m) := m.add64 st.bytes chunk
        .ok (.next
          { flashOffset := flashOffset, bytes := bytes, length := st.length - chunk
            machine := m })
  else .ok (.exit (0, st.machine))

def spiFlashRead (m : Machine) (flashOffset : UInt32) (buffer length : UInt64) :
    Run (Int × Machine) :=
  let (fileEnd, m) := m.add64 flashOffset.toUInt64 length
  if fileEnd > 0x01000000 then .ok (-1, m)
  else
    loopFuel flashReadRound (length.toNat + 1)
      { flashOffset := flashOffset, bytes := buffer, length := length, machine := m }

/-- One byte of `SpiloaderMemSet`. -/
def memSetRound (destination : UInt64) (value : UInt8) (index : Nat) (m : Machine) :
    Run (Flow Machine Machine) :=
  let (a, m) := m.add64 destination (UInt64.ofNat index)
  .ok (.next (m.store a [value]))

/-- `SpiloaderMemSet`. -/
def memSet (m : Machine) (destination : UInt64) (value : UInt8) (length : UInt64) :
    Run Machine := do
  let c ← forFrom (memSetRound destination value) length.toNat 0 m
  .ok c.state

/-! ## Validation -/

def rangeOverlaps (m : Machine) (startA sizeA startB sizeB : UInt64) : Bool × Machine :=
  if sizeA = 0 ∨ sizeB = 0 then (false, m)
  else
    let (endA, m) := m.add64 startA sizeA
    let (endB, m) := m.add64 startB sizeB
    if endA < startA ∨ endB < startB then (true, m)
    else (!(decide (endA ≤ startB) || decide (endB ≤ startA)), m)

def validateElfHeader (m : Machine) (a : Nat) : Int × Machine :=
  let header := readEhdr m.mem a
  if header.ident.take 4 ≠ [0x7f, 0x45, 0x4C, 0x46] then (-1, m)
  else if header.ident[4]? ≠ some elfClass64 ∨ header.ident[5]? ≠ some elfData2Lsb
      ∨ header.ident[6]? ≠ some evCurrent then (-1, m)
  else if header.machine ≠ emAarch64 ∨ header.version ≠ evCurrent.toUInt32
      ∨ header.ehsize < 64 ∨ header.phentsize ≠ 56 ∨ header.phnum = 0
      ∨ header.phnum > spiloaderPhdrLimit then (-1, m)
  else if header.phoff > spiloaderMaxImageSize then (-1, m)
  else
    let (tableEnd, m) := m.add64 header.phoff header.tableSize
    if tableEnd > spiloaderMaxImageSize then (-1, m) else (0, m)

/-- The loop variables of `ValidateProgramHeaders`. -/
structure ValidateState where
  index : UInt16
  highest : UInt64
  machine : Machine

/-- One header; `none` where the function returns -1, `*MaxFileExtent` where
it returns 0. -/
def validateRound (L : LoaderLayout) (reservedBase reservedSize : UInt64)
    (st : ValidateState) : Run (Flow ValidateState (Option UInt64 × Machine)) :=
  let m := st.machine
  if st.index < (readEhdr m.mem L.header).phnum then
    let ph := readPhdr m.mem (L.mProgramHeaders + phdrSize * st.index.toNat)
    if ph.type ≠ ptLoad then .ok (.next { st with index := st.index + 1 })
    else if ph.memsz < ph.filesz then .ok (.exit (none, m))
    else
      let target := ph.target
      let (segmentEnd, m) := m.add64 target ph.memsz
      let (fileEnd, m) := m.add64 ph.offset ph.filesz
      if segmentEnd < target ∨ fileEnd < ph.offset then .ok (.exit (none, m))
      else if fileEnd > spiloaderMaxImageSize then .ok (.exit (none, m))
      else
        let (overlaps, m) := m.rangeOverlaps target ph.memsz reservedBase reservedSize
        if overlaps then .ok (.exit (none, m))
        else
          .ok (.next
            { index := st.index + 1
              highest := if fileEnd > st.highest then fileEnd else st.highest
              machine := m })
  else .ok (.exit (some st.highest, m))

def validateProgramHeaders (L : LoaderLayout) (m : Machine)
    (reservedBase reservedSize : UInt64) : Run (Option UInt64 × Machine) :=
  let header := readEhdr m.mem L.header
  let (highest, m) := m.add64 header.phoff header.tableSize
  loopFuel (validateRound L reservedBase reservedSize) 65536
    { index := 0, highest := highest, machine := m }

/-! ## Loading -/

/-- One `dc civac`: the memory does not change. -/
def cacheRound (line last : UInt64) (st : UInt64 × Machine) :
    Run (Flow (UInt64 × Machine) Machine) :=
  let (cursor, m) := st
  if cursor < last then .ok (.next (m.add64 cursor line)) else .ok (.exit m)

def cleanInvalidateDataCacheRange (m : Machine) (ctr address length : UInt64) :
    Run Machine :=
  if length = 0 then .ok m
  else
    let line := cacheLineBytes ctr
    let start := address &&& ~~~(line - 1)
    let (sum, m) := m.add64 address length
    let (sum, m) := m.add64 sum line
    let last := (sum - 1) &&& ~~~(line - 1)
    loopFuel (cacheRound line last) (last.toNat + 1) (start, m)

/-- The file bytes of a segment. -/
def loadFileBytes (m : Machine) (target : UInt64) (ph : Elf64Phdr) : Run Machine :=
  if ph.filesz > 0 then do
    let (offset, m) := m.add32 ccr2004SpiFlashOffset ph.offset.toUInt32
    let (r, m) ← m.spiFlashRead offset target ph.filesz
    -- `SpiloaderPanic`
    if r ≠ 0 then .error .diverge else .ok m
  else .ok m

/-- The zeros of a segment. -/
def zeroRest (m : Machine) (target : UInt64) (ph : Elf64Phdr) : Run Machine :=
  if ph.memsz > ph.filesz then
    let (destination, m) := m.add64 target ph.filesz
    m.memSet destination 0 (ph.memsz - ph.filesz)
  else .ok m

/-- `LoadSegment`, with the address of its header. -/
def loadSegment (ctr : UInt64) (m : Machine) (a : Nat) : Run Machine := do
  let target := (readPhdr m.mem a).target
  let m ← m.loadFileBytes target (readPhdr m.mem a)
  let m ← m.zeroRest target (readPhdr m.mem a)
  m.cleanInvalidateDataCacheRange ctr target (readPhdr m.mem a).memsz

def loadRound (L : LoaderLayout) (ctr : UInt64) (st : UInt16 × Machine) :
    Run (Flow (UInt16 × Machine) Machine) :=
  let (index, m) := st
  if index < (readEhdr m.mem L.header).phnum then
    let a := L.mProgramHeaders + phdrSize * index.toNat
    if (readPhdr m.mem a).type ≠ ptLoad then .ok (.next (index + 1, m))
    else do
      let m ← m.loadSegment ctr a
      .ok (.next (index + 1, m))
  else .ok (.exit m)

/-- The loading loop of `LoadImageFromFlash`. -/
def loadSegments (L : LoaderLayout) (ctr : UInt64) (m : Machine) : Run Machine :=
  loopFuel (loadRound L ctr) 65536 (0, m)

/-- `LoadImageFromFlash` up to the loading loop; `none` where it returns
-1. -/
def readHeaders (L : LoaderLayout) (m : Machine) : Run (Option UInt64 × Machine) := do
  let reservedBase := spiloaderLoadAddr
  let reservedSize := L.stackTop - reservedBase
  let (r, m) ← m.spiFlashRead ccr2004SpiFlashOffset (UInt64.ofNat L.header) 64
  if r ≠ 0 then .ok (none, m)
  else
    let (r, m) := m.validateElfHeader L.header
    if r ≠ 0 then .ok (none, m)
    else do
      let header := readEhdr m.mem L.header
      let (offset, m) := m.add32 ccr2004SpiFlashOffset header.phoff.toUInt32
      let (r, m) ← m.spiFlashRead offset (UInt64.ofNat L.mProgramHeaders) header.tableSize
      if r ≠ 0 then .ok (none, m)
      else m.validateProgramHeaders L reservedBase reservedSize

/-- `SPILOADER_RESULT`. -/
structure SpiloaderResult where
  entryPoint : UInt64
  reservedTop : UInt64
deriving DecidableEq

/-- `LoadImageFromFlash`: `*Result` where it returns 0, `none` where it
returns -1. -/
def loadImageFromFlash (L : LoaderLayout) (ctr : UInt64) (m : Machine) :
    Run (Option SpiloaderResult × Machine) := do
  match ← m.readHeaders L with
  | (none, m) => .ok (none, m)
  | (some _, m) => do
      let m ← m.loadSegments L ctr
      .ok (some
        { entryPoint := (readEhdr m.mem L.header).entry
          reservedTop := L.stackTop }, m)

end Machine

end Ccr2004
