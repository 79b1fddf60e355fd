import Ccr2004.YaffsScan

/-!
# The probe's view of a YAFFS2 page

`NandProbeApp.c` reads object headers through the packed structure
`YAFFS_OBJ_HDR`, `Scan.c` through explicit byte offsets. The offset of a
member of a packed structure is the sum of the sizes declared before it
(`packedOffset`), so the declaration is modelled as it stands and the
offsets follow from it.

The two agree on the type and the parent. The declaration has no padding
after the name and keeps the stock YAFFS2 place of the high size word, so
the mode, the modification time and the sizes are read elsewhere than where
the driver reads them, and a page with chunk word 0 is a header for the
probe and no header for the driver. `decodersAgree_iff` says on which pages
none of this shows.
-/

namespace Ccr2004

/-! ## Packed structures -/

/-- The offset of a member in a packed structure, given as its members with
their sizes in declaration order. -/
def packedOffset {F : Type} [DecidableEq F] : List (F × Nat) → F → Nat
  | [], _ => 0
  | (g, size) :: members, f => if g = f then 0 else size + packedOffset members f

/-- The members of `YAFFS_OBJ_HDR`. -/
inductive ObjHdrMember where
  | type | parentObjId | sumNoLongerUsed | name
  | ystMode | ystUid | ystGid | ystAtime | ystMtime | ystCtime
  | fileSizeLow | equivId | aliasPath | ystRdev
  | winCtime | winAtime | winMtime
  | inbandShadowedObjId | inbandIsShrink
  | fileSizeHigh | reserved | shadowsObj | isShrink
deriving Repr, DecidableEq

/-- `YAFFS_OBJ_HDR`, under `#pragma pack(1)`. -/
def yaffsObjHdr : List (ObjHdrMember × Nat) :=
  [(.type, 4), (.parentObjId, 4), (.sumNoLongerUsed, 2), (.name, 256),
   (.ystMode, 4), (.ystUid, 4), (.ystGid, 4), (.ystAtime, 4), (.ystMtime, 4),
   (.ystCtime, 4), (.fileSizeLow, 4), (.equivId, 4), (.aliasPath, 160),
   (.ystRdev, 4), (.winCtime, 8), (.winAtime, 8), (.winMtime, 8),
   (.inbandShadowedObjId, 4), (.inbandIsShrink, 4), (.fileSizeHigh, 4),
   (.reserved, 4), (.shadowsObj, 4), (.isShrink, 4)]

/-- `Hdr->m` for a 32-bit member of the header on a page. -/
def PageData.objHdr (page : PageData) (m : ObjHdrMember) : UInt32 :=
  page.u32 (packedOffset yaffsObjHdr m)

/-! ## Tags -/

def yaffsExtraObjIdMask : UInt32 := 0x0FFFFFFF
def yaffsExtraHeaderFlag : UInt32 := 0x80000000
def yaffsLowestSeq : UInt32 := 0x00001000
def yaffsHighestSeq : UInt32 := 0xEFFFFF00

/-- The words of `YAFFS_PACKED_TAGS` are `SeqNumber`, `ObjId`, `ChunkId` and
`NBytes`. -/
def isValidYaffsTags (tags : RawTags) : Bool :=
  if tags.word0 = 0xFFFFFFFF then false
  else if tags.word0 = 0 ∧ tags.word1 = 0 ∧ tags.word2 = 0 then false
  else if tags.word0 < yaffsLowestSeq ∨ tags.word0 > yaffsHighestSeq then false
  else if tags.word1 &&& yaffsExtraObjIdMask = 0 then false
  else true

def isYaffsObjectHeader (tags : RawTags) : Bool :=
  if tags.word2 = 0 then true
  else if tags.word2 &&& yaffsExtraHeaderFlag ≠ 0 then true
  else false

/-! ## The object list -/

/-- `YAFFS_OBJ_RECORD`; the name is the characters before its NUL. -/
structure YaffsObjRecord where
  objId : UInt32
  parentId : UInt32
  type : UInt32
  mode : UInt32
  fileSize : UInt64
  mtime : UInt32
  name : List UInt8
  seqNumber : UInt32
deriving Repr, DecidableEq

/-- `IsPageErased`: 64-bit words of ones. -/
def isPageErased (page : PageData) : Bool :=
  (List.range pageBytes).all fun i => page.byte i == 0xFF

/-- `AsciiStrnCpyS` of the name, terminated at its last byte, to a buffer of
64 characters. -/
def recordName (page : PageData) : List UInt8 :=
  (((List.range 255).map fun i =>
    page.byte (packedOffset yaffsObjHdr .name + i)).takeWhile (· ≠ 0)).take 63

/-- The record made of a header page. -/
def recordOf (page : PageData) : YaffsObjRecord where
  objId := page.inbandTags.word1 &&& yaffsExtraObjIdMask
  parentId := page.objHdr .parentObjId
  type := page.objHdr .type
  mode := page.objHdr .ystMode
  fileSize :=
    ((page.objHdr .fileSizeHigh).toUInt64 <<< 32) ||| (page.objHdr .fileSizeLow).toUInt64
  mtime := page.objHdr .ystMtime
  name := recordName page
  seqNumber := page.inbandTags.word0

/-- Replace the first record with the same id if the new one has a higher
sequence number; `none` when there is no such record. -/
def updateRecord (r : YaffsObjRecord) : List YaffsObjRecord → Option (List YaffsObjRecord)
  | [] => none
  | old :: objs =>
      if old.objId = r.objId then
        some ((if r.seqNumber > old.seqNumber then r else old) :: objs)
      else (updateRecord r objs).map (old :: ·)

/-- Record an object, if there is space. -/
def recordObject (objMax : Nat) (r : YaffsObjRecord) (objs : List YaffsObjRecord) :
    List YaffsObjRecord :=
  if objs.length < objMax then (updateRecord r objs).getD (objs ++ [r]) else objs

/-- `ValidPages`, and `ObjList` up to `ObjCount`, or `none` when the list is
`NULL`. -/
structure ProbeState (σ : Type) where
  device : σ
  validPages : UInt32
  objList : Option (List YaffsObjRecord)

/-- What `ScanBlockForYaffs` does with a page it has read. -/
def probePage {σ : Type} (objMax : Nat) (page : PageData) (st : ProbeState σ) :
    ProbeState σ :=
  if isPageErased page then st
  else if !isValidYaffsTags page.inbandTags then st
  else
    let st := { st with validPages := st.validPages + 1 }
    if isYaffsObjectHeader page.inbandTags then
      if page.objHdr .type ≥ yaffs2TypeFile ∧ page.objHdr .type ≤ 5 then
        { st with objList := st.objList.map (recordObject objMax (recordOf page)) }
      else st
    else st

def nandPagesPerBlock : Nat := 64

section Probe

variable {σ : Type} (readBlocks : UInt64 → σ → Except EfiStatus PageData × σ)

/-- One round of the page loop. -/
def probePageAt (objMax : Nat) (baseLba : UInt64) (pageInBlock : Nat)
    (st : ProbeState σ) : Run (Flow (ProbeState σ) (ProbeState σ)) :=
  match readBlocks (baseLba + UInt64.ofNat pageInBlock) st.device with
  | (.error _, d) => .ok (.exit { st with device := d })
  | (.ok page, d) => .ok (.next (probePage objMax page { st with device := d }))

/-- `ScanBlockForYaffs`, once its page buffer is allocated. -/
def scanBlockForYaffs (objMax : Nat) (block : UInt32)
    (objList : Option (List YaffsObjRecord)) (device : σ) : Run (ProbeState σ) := do
  let baseLba := block.toUInt64 * UInt64.ofNat nandPagesPerBlock
  let st ← forFrom (probePageAt readBlocks objMax baseLba) nandPagesPerBlock 0
    ⟨device, 0, objList⟩
  .ok st.state

end Probe

/-! ## The list over a run -/

/-- The update is of the first record with the id. -/
theorem updateRecord_eq_some {r : YaffsObjRecord} :
    ∀ {objs objs' : List YaffsObjRecord}, updateRecord r objs = some objs' →
      ∃ pre old post, objs = pre ++ old :: post ∧ old.objId = r.objId
        ∧ objs' = pre ++ (if r.seqNumber > old.seqNumber then r else old) :: post
  | [], _, h => by cases h
  | old :: objs, objs', h => by
      rw [updateRecord] at h
      by_cases hid : old.objId = r.objId
      · rw [if_pos hid] at h
        obtain rfl := Option.some.inj h
        exact ⟨[], old, objs, rfl, hid, rfl⟩
      · rw [if_neg hid] at h
        obtain ⟨rest, hrest, rfl⟩ := Option.map_eq_some_iff.mp h
        obtain ⟨pre, old', post, rfl, hid', rfl⟩ := updateRecord_eq_some hrest
        exact ⟨old :: pre, old', post, rfl, hid', rfl⟩

theorem updateRecord_ids {r : YaffsObjRecord} {objs objs' : List YaffsObjRecord}
    (h : updateRecord r objs = some objs') :
    objs'.map YaffsObjRecord.objId = objs.map YaffsObjRecord.objId := by
  obtain ⟨pre, old, post, rfl, hid, rfl⟩ := updateRecord_eq_some h
  rw [List.map_append, List.map_append, List.map_cons, List.map_cons]
  split
  · rw [hid]
  · rfl

theorem updateRecord_none {r : YaffsObjRecord} :
    ∀ {objs : List YaffsObjRecord}, updateRecord r objs = none →
      r.objId ∉ objs.map YaffsObjRecord.objId
  | [], _ => List.not_mem_nil
  | old :: objs, h => by
      rw [updateRecord] at h
      by_cases hid : old.objId = r.objId
      · rw [if_pos hid] at h
        exact absurd h (Option.some_ne_none _)
      · rw [if_neg hid, Option.map_eq_none_iff] at h
        rw [List.map_cons, List.mem_cons]
        rintro (heq | hmem)
        · exact hid heq.symm
        · exact updateRecord_none h hmem

theorem mem_updateRecord {r x : YaffsObjRecord} {objs objs' : List YaffsObjRecord}
    (h : updateRecord r objs = some objs') (hx : x ∈ objs') : x = r ∨ x ∈ objs := by
  obtain ⟨pre, old, post, rfl, hid, rfl⟩ := updateRecord_eq_some h
  rcases List.mem_append.mp hx with hpre | hrest
  · exact .inr (List.mem_append_left _ hpre)
  · rcases List.mem_cons.mp hrest with hhead | hpost
    · split at hhead
      · exact .inl hhead
      · exact .inr (hhead ▸ List.mem_append_right _ List.mem_cons_self)
    · exact .inr (List.mem_append_right _ (List.mem_cons_of_mem _ hpost))

/-- A page the probe counts as a valid object header. -/
def IsProbeHeader (page : PageData) : Prop :=
  isValidYaffsTags page.inbandTags = true ∧ isYaffsObjectHeader page.inbandTags = true

/-- The object list holds one record for each id, each made of a header
page. -/
structure ProbeListOK (objs : List YaffsObjRecord) : Prop where
  ids : (objs.map YaffsObjRecord.objId).Nodup
  pages : ∀ x ∈ objs, ∃ page, IsProbeHeader page ∧ x = recordOf page

theorem recordObject_ok {objMax : Nat} {page : PageData} {objs : List YaffsObjRecord}
    (hpage : IsProbeHeader page) (hok : ProbeListOK objs) :
    ProbeListOK (recordObject objMax (recordOf page) objs) := by
  rw [recordObject]
  split
  · cases hu : updateRecord (recordOf page) objs with
    | none =>
        have hfresh := updateRecord_none hu
        refine ⟨?_, fun x hx => ?_⟩
        · rw [Option.getD_none, List.map_append, List.map_singleton]
          exact hok.ids.append (List.nodup_singleton _)
            (List.disjoint_singleton.mpr hfresh)
        · rcases List.mem_append.mp hx with hold | hnew
          · exact hok.pages x hold
          · exact ⟨page, hpage, List.mem_singleton.mp hnew⟩
    | some objs' =>
        refine ⟨?_, fun x hx => ?_⟩
        · rw [Option.getD_some, updateRecord_ids hu]
          exact hok.ids
        · rcases mem_updateRecord hu hx with rfl | hold
          · exact ⟨page, hpage, rfl⟩
          · exact hok.pages x hold
  · exact hok

theorem probePage_ok {σ : Type} {objMax : Nat} (page : PageData) {st : ProbeState σ}
    (hok : ∀ objs, st.objList = some objs → ProbeListOK objs) :
    ∀ objs, (probePage objMax page st).objList = some objs → ProbeListOK objs := by
  intro objs hobjs
  rw [probePage] at hobjs
  split at hobjs
  · exact hok objs hobjs
  · split at hobjs
    · exact hok objs hobjs
    · rename_i hvalid
      dsimp only at hobjs
      split at hobjs
      · rename_i hheader
        split at hobjs
        · obtain ⟨before, hbefore, rfl⟩ := Option.map_eq_some_iff.mp hobjs
          exact recordObject_ok ⟨by simpa using hvalid, hheader⟩ (hok before hbefore)
        · exact hok objs hobjs
      · exact hok objs hobjs

/-- Scanning a block keeps the object list in order, whatever the device
answers. -/
theorem scanBlockForYaffs_ok {σ : Type}
    {readBlocks : UInt64 → σ → Except EfiStatus PageData × σ} {objMax : Nat}
    {block : UInt32} {objList : Option (List YaffsObjRecord)} {device : σ}
    {st : ProbeState σ} (hok : ∀ objs, objList = some objs → ProbeListOK objs)
    (h : scanBlockForYaffs readBlocks objMax block objList device = .ok st) :
    ∀ objs, st.objList = some objs → ProbeListOK objs := by
  rw [scanBlockForYaffs] at h
  obtain ⟨c, hc, hst⟩ := bind_eq_ok.mp h
  obtain rfl := Except.ok.inj hst
  have hpost : c.Post (fun st => ∀ objs, st.objList = some objs → ProbeListOK objs)
      (fun st => ∀ objs, st.objList = some objs → ProbeListOK objs) := by
    refine forFrom_post (I := fun _ st => ∀ objs, st.objList = some objs → ProbeListOK objs)
      (fun j s c _ _ hI hbody => ?_) hok hc
    rw [probePageAt] at hbody
    split at hbody
    · obtain rfl := Except.ok.inj hbody
      exact hI
    · obtain rfl := Except.ok.inj hbody
      exact probePage_ok _ hI
  exact hpost.state

/-! ## The two decoders -/

/-- The words `ProcessHeader` decodes from a header page. -/
structure HeaderWords where
  type : UInt32
  parentId : UInt32
  mode : UInt32
  mTime : UInt32
  sizeLow : UInt32
  sizeHigh : UInt32
deriving Repr, DecidableEq

def headerWords (page : PageData) : HeaderWords where
  type := page.u32 0x00
  parentId := page.u32 0x04
  mode := page.u32 0x10C
  mTime := page.u32 0x11C
  sizeLow := page.u32 0x124
  sizeHigh := page.u32 0x128

/-- The same fields through `YAFFS_OBJ_HDR`. -/
def probeWords (page : PageData) : HeaderWords where
  type := page.objHdr .type
  parentId := page.objHdr .parentObjId
  mode := page.objHdr .ystMode
  mTime := page.objHdr .ystMtime
  sizeLow := page.objHdr .fileSizeLow
  sizeHigh := page.objHdr .fileSizeHigh

/-- The driver keeps these words, with all ones read as zero in the time and
the sizes. -/
theorem parseObjectHeader_words (page : PageData) (obj : Yaffs2Object) :
    let o := parseObjectHeader page obj
    let w := headerWords page
    o.type = w.type ∧ o.parentId = w.parentId ∧ o.mode = w.mode
      ∧ o.mTime = unsetToZero w.mTime
      ∧ o.fileSize = (unsetToZero w.sizeLow).toUInt64
          ||| ((unsetToZero w.sizeHigh).toUInt64 <<< 32) :=
  ⟨rfl, rfl, rfl, rfl, rfl⟩

/-- The probe records these words. -/
theorem recordOf_words (page : PageData) :
    let r := recordOf page
    let w := probeWords page
    r.type = w.type ∧ r.parentId = w.parentId ∧ r.mode = w.mode ∧ r.mtime = w.mTime
      ∧ r.fileSize = (w.sizeHigh.toUInt64 <<< 32) ||| w.sizeLow.toUInt64 :=
  ⟨rfl, rfl, rfl, rfl, rfl⟩

/-- The probe and the driver classify a page alike, and read the same words
from a header page. -/
structure DecodersAgree (page : PageData) : Prop where
  classify : isYaffsObjectHeader page.inbandTags = (parseTagWords page.inbandTags).isHeader
  words : (parseTagWords page.inbandTags).isHeader = true →
    probeWords page = headerWords page

/-- The halfwords at `off`, `off + 2` and `off + 4` are equal. -/
def HalfwordRepeats (page : PageData) (off : Nat) : Prop :=
  ∀ i < 4, page.byte (off + i) = page.byte (off + 2 + i)

theorem isHeader_iff (raw : RawTags) :
    (parseTagWords raw).isHeader = true ↔ raw.word2 &&& 0x80000000 ≠ 0 := by
  rw [parseTagWords]
  split <;> simp_all

theorem classify_iff (raw : RawTags) :
    isYaffsObjectHeader raw = (parseTagWords raw).isHeader ↔ raw.word2 ≠ 0 := by
  by_cases hzero : raw.word2 = 0
  · simp [isYaffsObjectHeader, parseTagWords, hzero]
  · rw [isYaffsObjectHeader, if_neg hzero, Bool.eq_iff_iff, isHeader_iff,
      yaffsExtraHeaderFlag]
    simp [hzero]

/-- Where the packed structure places the members the probe reads. -/
theorem probeWords_eq (page : PageData) :
    probeWords page = ⟨page.u32 0x00, page.u32 0x04, page.u32 0x10A, page.u32 0x11A,
      page.u32 0x122, page.u32 0x1EE⟩ := rfl

theorem words_iff (page : PageData) :
    probeWords page = headerWords page ↔
      HalfwordRepeats page 0x10A ∧ HalfwordRepeats page 0x11A
        ∧ HalfwordRepeats page 0x122
        ∧ ∀ i < 4, page.byte (0x1EE + i) = page.byte (0x128 + i) := by
  rw [probeWords_eq, headerWords, HeaderWords.mk.injEq, page.u32_eq_iff 0x10A 0x10C,
    page.u32_eq_iff 0x11A 0x11C, page.u32_eq_iff 0x122 0x124, page.u32_eq_iff 0x1EE 0x128]
  simp only [HalfwordRepeats, true_and]

/-- The decoders agree on a page exactly when its chunk word is not zero
and, on a header page, the halfwords around the mode, the time and the low
size word repeat and the bytes at 0x1EE equal those of the high size
word. -/
theorem decodersAgree_iff (page : PageData) :
    DecodersAgree page ↔
      page.inbandTags.word2 ≠ 0 ∧
        (page.inbandTags.word2 &&& 0x80000000 ≠ 0 →
          HalfwordRepeats page 0x10A ∧ HalfwordRepeats page 0x11A
            ∧ HalfwordRepeats page 0x122
            ∧ ∀ i < 4, page.byte (0x1EE + i) = page.byte (0x128 + i)) := by
  constructor
  · intro h
    refine ⟨(classify_iff _).mp h.classify, fun hbit => ?_⟩
    exact (words_iff page).mp (h.words ((isHeader_iff _).mpr hbit))
  · rintro ⟨hchunk, hwords⟩
    refine ⟨(classify_iff _).mpr hchunk, fun hheader => ?_⟩
    exact (words_iff page).mpr (hwords ((isHeader_iff _).mp hheader))

/-- The header page of a file of 100 bytes with mode 0100644, in the layout
of the driver. -/
def filePage : PageData := fun i =>
  match i.val with
  | 0x000 => 1
  | 0x004 => 1
  | 0x00A => 0x66
  | 0x10C => 0xA4
  | 0x10D => 0x81
  | 0x124 => 100
  | 2033 => 0x10
  | 2036 => 0x01
  | 2037 => 0x01
  | 2039 => 0x10
  | 2040 => 0x01
  | 2043 => 0x80
  | 2044 => 100
  | _ => 0

/-- On a well-formed header the probe reads a mode and a size the driver does
not. -/
theorem decodersAgree_file_fails :
    isValidYaffsTags filePage.inbandTags = true
      ∧ seqInRange filePage.inbandTags.word0 = true
      ∧ (parseTagWords filePage.inbandTags).isHeader = true
      ∧ (headerWords filePage).mode = 0x81A4 ∧ (probeWords filePage).mode = 0x81A40000
      ∧ (headerWords filePage).sizeLow = 100
      ∧ (probeWords filePage).sizeLow = 100 * 65536
      ∧ ¬ DecodersAgree filePage := by
  have hheader : (parseTagWords filePage.inbandTags).isHeader = true := by decide
  have hmode : (probeWords filePage).mode ≠ (headerWords filePage).mode := by decide
  refine ⟨by decide, by decide, hheader, by decide, by decide, by decide, by decide, ?_⟩
  intro hagree
  exact hmode (congrArg HeaderWords.mode (hagree.words hheader))

end Ccr2004
