import Mathlib.Data.Vector.Basic
import Ccr2004.Bytes
import Ccr2004.Efi

/-!
# The YAFFS2 data model

The records of `MtYaffs2Dxe.h` and the NAND protocol of
`MikroTikNandFlash.h`. A pointer to an object is the object's index in the
`Objects` array: the driver allocates every object in its own slot and
never moves it. A list head is the list of the objects linked into it, in
order. A pool buffer is `none` while its pointer is null, and the list of
its elements once it is allocated.
-/

namespace Ccr2004

/-! ## Pages -/

/-- Bytes of a NAND page, tags included. -/
abbrev pageBytes : Nat := 2048

/-- `YAFFS2_DATA_PER_PAGE`. -/
def yaffs2DataPerPage : UInt32 := 2032

/-- The content of a page buffer. -/
abbrev PageData := Fin pageBytes → UInt8

/-- The byte at an offset below the page size. -/
def PageData.byte (p : PageData) (off : Nat) : UInt8 :=
  if h : off < pageBytes then p ⟨off, h⟩ else 0

/-- `*(UINT32 *)(Data + off)`. -/
def PageData.u32 (p : PageData) (off : Nat) : UInt32 :=
  UInt32.ofNat
    (leNat [p.byte off, p.byte (off + 1), p.byte (off + 2), p.byte (off + 3)])

/-- Two words of a page are equal when their bytes are. -/
theorem PageData.u32_eq_iff (page : PageData) (a b : Nat) :
    page.u32 a = page.u32 b ↔ ∀ i < 4, page.byte (a + i) = page.byte (b + i) := by
  constructor
  · intro h
    have hfits : ∀ bs : List UInt8, bs.length = 4 → leNat bs < 2 ^ 32 :=
      fun bs hlen => by simpa [hlen] using leNat_lt bs
    have hval := congrArg UInt32.toNat h
    rw [PageData.u32, PageData.u32, UInt32.toNat_ofNat_of_lt' (hfits _ rfl),
      UInt32.toNat_ofNat_of_lt' (hfits _ rfl)] at hval
    have hbytes := leNat_inj (by rfl) hval
    simp only [List.cons.injEq, and_true] at hbytes
    obtain ⟨h0, h1, h2, h3⟩ := hbytes
    intro i hi
    rcases (show i = 0 ∨ i = 1 ∨ i = 2 ∨ i = 3 by omega) with rfl | rfl | rfl | rfl
    · exact h0
    · exact h1
    · exact h2
    · exact h3
  · intro h
    have h0 := h 0 (by omega)
    have h1 := h 1 (by omega)
    have h2 := h 2 (by omega)
    have h3 := h 3 (by omega)
    rw [Nat.add_zero, Nat.add_zero] at h0
    rw [PageData.u32, PageData.u32, h0, h1, h2, h3]

/-- `*(UINT32 *)(Data + off)` at an offset the code computes: a load outside
the buffer is a fault. -/
def PageData.load32 (p : PageData) (off : Nat) : Run UInt32 :=
  if off + 4 ≤ pageBytes then .ok (p.u32 off) else .error .outOfBounds

theorem PageData.load32_eq_ok {p : PageData} {off : Nat} {v : UInt32} :
    p.load32 off = .ok v ↔ off + 4 ≤ pageBytes ∧ v = p.u32 off := by
  by_cases h : off + 4 ≤ pageBytes
  · simp [PageData.load32, h, eq_comm]
  · simp [PageData.load32, h]

/-! ## Tags -/

/-- The four tag words at the end of a page. -/
structure RawTags where
  word0 : UInt32
  word1 : UInt32
  word2 : UInt32
  word3 : UInt32
deriving Repr, DecidableEq

/-- `YAFFS_INBAND_TAG_OFF`. -/
def yaffsInbandTagOff : Nat := pageBytes - 16

/-- The last 16 bytes of a page. -/
def PageData.inbandTags (page : PageData) : RawTags :=
  ⟨page.u32 yaffsInbandTagOff, page.u32 (yaffsInbandTagOff + 4),
   page.u32 (yaffsInbandTagOff + 8), page.u32 (yaffsInbandTagOff + 12)⟩

/-- `YAFFS2_TAGS`. -/
structure Yaffs2Tags where
  seqNumber : UInt32
  objId : UInt32
  chunkId : UInt32
  nBytes : UInt32
  isHeader : Bool
deriving Repr, DecidableEq

def yaffs2SeqMin : UInt32 := 0x00001000
def yaffs2SeqMax : UInt32 := 0xEFFFFF00

def yaffs2TypeFile : UInt32 := 1
def yaffs2TypeSymlink : UInt32 := 2
def yaffs2TypeDir : UInt32 := 3
def yaffs2TypeHardlink : UInt32 := 4

def yaffs2ObjectIdUnlinked : UInt32 := 3
def yaffs2ObjectIdDeleted : UInt32 := 4

/-- `YAFFS2_SUMMARY_OBJ_ID`. -/
def yaffs2SummaryObjId : UInt32 := 0x10

/-! ## Objects and volumes -/

/-- `YAFFS2_CHUNK_LOC`: where the winning version of a chunk is. -/
structure ChunkLoc where
  pageIndex : UInt32
  nBytes : UInt32
  seqNumber : UInt32
deriving Repr, DecidableEq

/-- `YAFFS2_CHUNK_UNSET`. -/
def yaffs2ChunkUnset : UInt32 := 0xFFFFFFFF

/-- An entry of a chunk array filled with 0xFF bytes. -/
def ChunkLoc.unset : ChunkLoc := ⟨0xFFFFFFFF, 0xFFFFFFFF, 0xFFFFFFFF⟩

/-- `YAFFS2_OBJECT`. -/
structure Yaffs2Object where
  objId : UInt32
  parentId : UInt32
  type : UInt32
  name : List.Vector UInt8 256
  mode : UInt32
  mTime : UInt32
  fileSize : UInt64
  aliasPath : List.Vector UInt8 160
  equivId : UInt32
  headerSeq : UInt32
  headerPage : UInt32
  /-- `Parent`, null for the root and while the tree is not built. -/
  parent : Option UInt32
  /-- The objects linked into `ChildHead`, first to last. -/
  children : List UInt32
  chunkCount : UInt32
  chunkAlloc : UInt32
  chunks : Option (List ChunkLoc)
deriving DecidableEq

/-- A zeroed object with its `ObjId` set and its lists initialised. -/
def Yaffs2Object.fresh (objId : UInt32) : Yaffs2Object where
  objId := objId
  parentId := 0
  type := 0
  name := List.Vector.replicate 256 0
  mode := 0
  mTime := 0
  fileSize := 0
  aliasPath := List.Vector.replicate 160 0
  equivId := 0
  headerSeq := 0
  headerPage := 0
  parent := none
  children := []
  chunkCount := 0
  chunkAlloc := 0
  chunks := none

/-- `YAFFS2_VOLUME`: the object table and what is derived from it. -/
structure Yaffs2Volume where
  objects : Option (List (Option Yaffs2Object))
  maxObjId : UInt32
  root : Option UInt32
deriving DecidableEq

/-- The volume as `AllocateZeroPool` leaves it. -/
def Yaffs2Volume.empty : Yaffs2Volume := ⟨none, 0, none⟩

/-- `Volume->Objects[id]`. -/
def Yaffs2Volume.slot (vol : Yaffs2Volume) (id : UInt32) :
    Run (Option Yaffs2Object) :=
  match vol.objects with
  | none => .error .nullDeref
  | some table =>
      match table[id.toNat]? with
      | none => .error .outOfBounds
      | some o => .ok o

/-- `Volume->Objects[id] = o`, for an index that `slot` has just read. -/
def Yaffs2Volume.setSlot (vol : Yaffs2Volume) (id : UInt32)
    (o : Option Yaffs2Object) : Yaffs2Volume :=
  { vol with objects := vol.objects.map fun table => table.set id.toNat o }

/-- The object with an id, if the table has one. -/
def Yaffs2Volume.object? (vol : Yaffs2Volume) (id : UInt32) :
    Option Yaffs2Object :=
  (vol.objects.getD [])[id.toNat]?.join

/-! ## The NAND protocol -/

/-- `MIKROTIK_NAND_FLASH_PROTOCOL`: the geometry and the three reads, over
the state `σ` of the device behind them. -/
structure NandFlashProtocol (σ : Type) where
  pagesPerBlock : UInt32
  numBlocks : UInt32
  readPage : UInt32 → σ → Except EfiStatus PageData × σ
  readTags : UInt32 → σ → Except EfiStatus RawTags × σ
  readPageBody : σ → Except EfiStatus PageData × σ

end Ccr2004
