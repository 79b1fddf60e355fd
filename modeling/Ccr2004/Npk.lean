import Ccr2004.Bytes
import Ccr2004.CString

/-!
# The package parser

`npk_parser.c`: inflating the content container of a package, splitting the
content into entries and extracting one of them.

zlib is a parameter: `inflateInit` and `inflate` as the parser calls them,
on a stream state of any type. `alloc n` is whether an allocation of `n`
bytes succeeds. A `size_t` is a `Nat` - every one is a sum of 32-bit lengths
and of offsets into a buffer - and `avail_out` is cut to 32 bits where it is
assigned. Freeing memory is left out.
-/

namespace Ccr2004

inductive NpkStatus where
  | ok
  | invalidArgument
  | noMemory
  | truncated
  | badMagic
  | zlibError
  | noContentContainer
  | notFound
  | notAFile
deriving Repr, DecidableEq

inductive NpkEntryType where
  | other
  | file
  | dir
deriving Repr, DecidableEq

/-- `npk_entry_t`. `name` is the whole allocation, with its terminator, and
`data` the offset of the payload in the content buffer. -/
structure NpkEntry where
  name : List UInt8
  mode : UInt16
  size : UInt32
  type : NpkEntryType
  data : Nat
deriving Repr, DecidableEq

/-- The fields of `npk_package_t` the parser reads back. -/
structure NpkPackage where
  contentBuffer : List UInt8
  entries : List NpkEntry
deriving Repr, DecidableEq

/-- `NPK_MAGIC_BYTES`. -/
def npkMagicBytes : Nat := 0xBAD0F11E

/-- `NPK_ZLIB_COMPRESSED_DATA`. -/
def npkZlibCompressedData : UInt16 := 4

/-- `NPK_HEADER_SIZE`. -/
def npkHeaderSize : Nat := 8

/-- `NPK_CONTAINER_HEADER_SIZE`. -/
def npkContainerHeaderSize : Nat := 6

/-- `NPK_ZLIB_OBJECT_HEADER_SIZE`. -/
def npkZlibObjectHeaderSize : Nat := 30

def readLe16 (buffer : List UInt8) (off : Nat) : Run UInt16 := do
  let bs ← loadSlice buffer off 2
  .ok (UInt16.ofNat (leNat bs))

def readLe32 (buffer : List UInt8) (off : Nat) : Run UInt32 := do
  let bs ← loadSlice buffer off 4
  .ok (UInt32.ofNat (leNat bs))

def npkEntryTypeFromMode (mode : UInt16) : NpkEntryType :=
  if mode &&& 0xF000 = 0x4000 then .dir
  else if mode &&& 0xF000 = 0x8000 then .file
  else .other

/-! ## Inflating -/

/-- What `inflate` returns, as far as the parser looks. -/
inductive ZReturn where
  | ok
  | streamEnd
  | error
deriving Repr, DecidableEq

/-- zlib, with stream states of type `σ`. `inflate` is given `avail_out` and
returns the bytes it stores at `next_out`. -/
structure Zlib (σ : Type) where
  inflateInit : List UInt8 → Option σ
  inflate : σ → Nat → ZReturn × List UInt8 × σ

/-- The loop variables of `npk_inflate_payload`: `out` is what is in the
output buffer so far, so that its length is `total_out`. -/
structure InflateState (σ : Type) where
  capacity : Nat
  out : List UInt8
  stream : σ

section

variable {σ : Type} (z : Zlib σ) (alloc : Nat → Bool)

/-- The capacity for the next call: doubled when the buffer is full. -/
def grownCapacity (capacity totalOut : Nat) : Nat :=
  if totalOut = capacity then capacity * 2 else capacity

/-- `avail_out`, a 32-bit word. -/
def availOut (capacity totalOut : Nat) : Nat := (capacity - totalOut) % 2 ^ 32

def inflateRound (st : InflateState σ) :
    Run (Flow (InflateState σ) (Except NpkStatus (List UInt8))) :=
  let capacity := grownCapacity st.capacity st.out.length
  if st.out.length = st.capacity ∧ !alloc capacity then .ok (.exit (.error .noMemory))
  else
    match z.inflate st.stream (availOut capacity st.out.length) with
    | (.streamEnd, bytes, _) => .ok (.exit (.ok (st.out ++ bytes)))
    | (.ok, bytes, stream) =>
        .ok (.next { capacity := capacity, out := st.out ++ bytes, stream := stream })
    | (.error, _, _) => .ok (.exit (.error .zlibError))

/-- The capacity the output buffer starts with. -/
def firstCapacity (inputLen : Nat) : Nat :=
  if inputLen * 4 < 4096 then 4096 else inputLen * 4

/-- `npk_inflate_payload`, for at most `rounds` calls of `inflate`. -/
def npkInflatePayload (rounds : Nat) (input : List UInt8) :
    Run (Except NpkStatus (List UInt8)) :=
  let capacity := firstCapacity input.length
  if !alloc capacity then .ok (.error .noMemory)
  else
    match z.inflateInit input with
    | none => .ok (.error .zlibError)
    | some stream =>
        loopFuel (inflateRound z alloc) rounds
          { capacity := capacity, out := [], stream := stream }

/-! ## Entries -/

/-- `npk_append_entry`. The pointers are offsets into the content buffer. -/
def npkAppendEntry (package : NpkPackage) (namePtr : Nat) (nameLen mode : UInt16)
    (payloadPtr : Nat) (payloadLen : UInt32) : Run (NpkStatus × NpkPackage) :=
  if !alloc ((package.entries.length + 1) * 32) then .ok (.noMemory, package)
  else if !alloc (nameLen.toNat + 1) then .ok (.noMemory, package)
  else do
    let name ← loadSlice package.contentBuffer namePtr nameLen.toNat
    let entry : NpkEntry :=
      { name := name ++ [0]
        mode := mode
        size := payloadLen
        type := npkEntryTypeFromMode mode
        data := payloadPtr }
    .ok (.ok, { package with entries := package.entries ++ [entry] })

def entriesRound (st : Nat × NpkPackage) :
    Run (Flow (Nat × NpkPackage) (NpkStatus × NpkPackage)) :=
  let (offset, package) := st
  let buffer := package.contentBuffer
  if offset < buffer.length then
    if buffer.length - offset < npkZlibObjectHeaderSize then
      .ok (.exit (.truncated, package))
    else do
      let mode ← readLe16 buffer offset
      let payloadLen ← readLe32 buffer (offset + 24)
      let nameLen ← readLe16 buffer (offset + 28)
      let required := npkZlibObjectHeaderSize + nameLen.toNat + payloadLen.toNat
      if required > buffer.length - offset then .ok (.exit (.truncated, package))
      else do
        let namePtr := offset + npkZlibObjectHeaderSize
        let payloadPtr := namePtr + nameLen.toNat
        let (status, package) ←
          npkAppendEntry alloc package namePtr nameLen mode payloadPtr payloadLen
        if status ≠ .ok then .ok (.exit (status, package))
        else .ok (.next (offset + required, package))
  else .ok (.exit (.ok, package))

def npkParseEntries (package : NpkPackage) : Run (NpkStatus × NpkPackage) :=
  loopFuel (entriesRound alloc) (package.contentBuffer.length + 1) (0, package)

/-! ## Containers -/

/-- One container: where the walk goes on, or how it ends - with a status, or
at the payload of the content container. -/
def containerRound (buffer : List UInt8) (payloadEnd offset : Nat) :
    Run (Flow Nat (Except NpkStatus (List UInt8))) :=
  if offset < payloadEnd then
    if payloadEnd - offset < npkContainerHeaderSize then .ok (.exit (.error .truncated))
    else do
      let containerId ← readLe16 buffer offset
      let containerPayloadLen ← readLe32 buffer (offset + 2)
      let containerSize := npkContainerHeaderSize + containerPayloadLen.toNat
      if containerSize > payloadEnd - offset then .ok (.exit (.error .truncated))
      else if containerId = npkZlibCompressedData then do
        let payload ← loadSlice buffer (offset + npkContainerHeaderSize)
          containerPayloadLen.toNat
        .ok (.exit (.ok payload))
      else .ok (.next (offset + containerSize))
  else .ok (.exit (.error .noContentContainer))

def npkFindAndInflateContent (rounds : Nat) (buffer : List UInt8) (bufferSize : Nat)
    (package : NpkPackage) : Run (NpkStatus × NpkPackage) := do
  let payloadLen ← readLe32 buffer 4
  if payloadLen.toNat > bufferSize - npkHeaderSize then .ok (.truncated, package)
  else
    let payloadEnd := npkHeaderSize + payloadLen.toNat
    match ← loopFuel (containerRound buffer payloadEnd) (payloadEnd + 1) npkHeaderSize with
    | .error status => .ok (status, package)
    | .ok payload =>
        match ← npkInflatePayload z alloc rounds payload with
        | .error status => .ok (status, package)
        | .ok content => npkParseEntries alloc { package with contentBuffer := content }

/-- `npk_parse_buffer`: the status and the slot `out_package` points to. -/
def npkParseBuffer (rounds : Nat) (buffer : Option (List UInt8)) (bufferSize : Nat)
    (outPackage : Option (Option NpkPackage)) :
    Run (NpkStatus × Option (Option NpkPackage)) :=
  let outPackage := outPackage.map fun _ => none
  match buffer, outPackage with
  | some bytes, some _ =>
      if bufferSize < npkHeaderSize then .ok (.invalidArgument, outPackage)
      else do
        let magic ← readLe32 bytes 0
        if magic.toNat ≠ npkMagicBytes then .ok (.badMagic, outPackage)
        else if !alloc 48 then .ok (.noMemory, outPackage)
        else do
          let (status, package) ← npkFindAndInflateContent z alloc rounds bytes bufferSize
            { contentBuffer := [], entries := [] }
          if status ≠ .ok then .ok (status, outPackage)
          else .ok (.ok, some (some package))
  | _, _ => .ok (.invalidArgument, outPackage)

/-! ## Extraction -/

/-- The search through the entries: the status, `*out_data` and
`*out_size`. -/
def extractEntry (package : NpkPackage) (filename : List UInt8) :
    List NpkEntry → Run (NpkStatus × Option (List UInt8) × Nat)
  | [] => .ok (.notFound, none, 0)
  | entry :: rest => do
      let v ← strCmp entry.name filename
      if v ≠ 0 then extractEntry package filename rest
      else if entry.type ≠ .file then .ok (.notAFile, none, 0)
      else if entry.size = 0 then .ok (.ok, none, 0)
      else if !alloc entry.size.toNat then .ok (.noMemory, none, 0)
      else do
        let copy ← loadSlice package.contentBuffer entry.data entry.size.toNat
        .ok (.ok, some copy, entry.size.toNat)

/-- `npk_extract_file`, with valid output pointers. -/
def npkExtractFile (package : Option NpkPackage) (filename : Option (List UInt8)) :
    Run (NpkStatus × Option (List UInt8) × Nat) :=
  match package, filename with
  | some package, some filename => extractEntry alloc package filename package.entries
  | _, _ => .ok (.invalidArgument, none, 0)

end

end Ccr2004
