import Mathlib.Data.List.TakeWhile
import Ccr2004.YaffsInfo
import Ccr2004.YaffsPath

/-!
# Listing against opening

A directory read displays a hardlink with the attributes of the object its
`EquivId` names, one hop away; `Yaffs2Open` follows up to 15 links. So the
record read for a child and the one `GetInfo` returns for the opened child
come from two objects once a hardlink names a hardlink, and once a name is
empty, since the empty path opens the directory itself.

`Enumerating` is the life of a handle on a directory; every record it reads
is the `fileInfo` of the displayed object (`readDirectory_spec`), and
`open_child` says which object the child's name opens.
-/

namespace Ccr2004

/-! ## What is displayed -/

/-- The object whose attributes a child is listed with. -/
def displayed (vol : Yaffs2Volume) (child : Yaffs2Object) : Yaffs2Object :=
  if child.type = yaffs2TypeHardlink then (vol.object? child.equivId).getD child else child

section Listing

variable {vol : Yaffs2Volume}

theorem displayedObject_eq (hvol : VolumeOK vol) (child : Yaffs2Object) :
    displayedObject vol child = .ok { displayed vol child with name := child.name } := by
  rw [displayedObject, displayed]
  by_cases hlink : child.type = yaffs2TypeHardlink
  · rw [if_pos hlink, if_pos hlink]
    cases htarget : vol.object? child.equivId with
    | some target =>
        have hne : child.equivId ≠ 0 := by
          intro h0
          rw [h0, hvol.zero] at htarget
          cases htarget
        have hin : child.equivId > 0 ∧ child.equivId ≤ vol.maxObjId :=
          ⟨UInt32.pos_iff_ne_zero.mpr hne, hvol.table.le_of_object? htarget⟩
        rw [if_pos hin, hvol.slot htarget, ok_bind, Option.getD_some]
    | none =>
        rw [Option.getD_none]
        by_cases hin : child.equivId > 0 ∧ child.equivId ≤ vol.maxObjId
        · rw [if_pos hin, hvol.table.slot (UInt32.pos_iff_ne_zero.mp hin.1) hin.2, htarget,
            ok_bind]
        · rw [if_neg hin]
  · rw [if_neg hlink, if_neg hlink]

theorem take_nameLen (name : List UInt8) : name.take (cString name).length = cString name :=
  (List.prefix_iff_eq_take.mp (List.takeWhile_prefix _)).symm

variable {epochToEfiTime : UInt64 → EfiTime → EfiTime}

theorem writeInfo_success {α : Type} {hasBuffer : Bool} {bufSize size out : UInt64}
    {info written : α}
    (h : writeInfo hasBuffer bufSize size info = .ok (.success, out, some written)) :
    written = info := by
  rw [writeInfo] at h
  split at h
  · cases h
  · split at h
    · cases h
    · cases h
      rfl

/-- The record a directory read gives for a child: the displayed object
under the child's own name. -/
def listedInfo (epochToEfiTime : UInt64 → EfiTime → EfiTime) (vol : Yaffs2Volume)
    (child : Yaffs2Object) : EfiFileInfo :=
  let nameLen := (cString child.name.toList).length
  fileInfo epochToEfiTime { displayed vol child with name := child.name } nameLen
    (sizeOfEfiFileInfo + char16Bytes nameLen)

/-- The name in the record is the one a caller opens. -/
theorem listedInfo_fileName (child : Yaffs2Object) :
    (listedInfo epochToEfiTime vol child).fileName = child.chars ++ [0] := by
  rw [listedInfo, fileInfo, take_nameLen, Yaffs2Object.chars]

/-- A read at a child writes its record if it fits, and then moves on. -/
theorem readDirectory_run (hvol : VolumeOK vol) {file : Yaffs2IFile} {child : UInt32}
    {rest : List UInt32} {childObj : Yaffs2Object}
    (hcursor : file.dirCursor = some (child :: rest)) (hobj : vol.object? child = some childObj)
    (hasBuffer : Bool) (bufferSize : UInt64) :
    yaffs2ReadDirectory epochToEfiTime vol file hasBuffer bufferSize = (do
      let out ← writeInfo hasBuffer bufferSize (listedInfo epochToEfiTime vol childObj).size
        (listedInfo epochToEfiTime vol childObj)
      if !out.1.isError then
        .ok (out, { file with dirCursor := some rest, position := file.position + 1 })
      else .ok (out, file)) := by
  have hlen := strLen_eq (hvol.terminated child childObj hobj)
  unfold yaffs2ReadDirectory buildFileInfo
  simp only [hcursor, hvol.deref hobj, displayedObject_eq hvol, ok_bind, hlen]
  rfl

theorem readDirectory_spec (hvol : VolumeOK vol) {file file' : Yaffs2IFile}
    {child : UInt32} {rest : List UInt32} {childObj : Yaffs2Object}
    (hcursor : file.dirCursor = some (child :: rest)) (hobj : vol.object? child = some childObj)
    {hasBuffer : Bool} {bufferSize size : UInt64} {listed : EfiFileInfo}
    (h : yaffs2ReadDirectory epochToEfiTime vol file hasBuffer bufferSize
      = .ok ((.success, size, some listed), file')) :
    listed = listedInfo epochToEfiTime vol childObj := by
  rw [readDirectory_run hvol hcursor hobj] at h
  obtain ⟨out, hwrite, h⟩ := bind_eq_ok.mp h
  have hout : out = (.success, size, some listed) := by
    split at h
    · exact (Prod.mk.inj (Except.ok.inj h)).1
    · exact (Prod.mk.inj (Except.ok.inj h)).1
  rw [hout] at hwrite
  exact writeInfo_success hwrite

/-- With room for any record the read succeeds. -/
theorem readDirectory_success (hvol : VolumeOK vol) {position : UInt64} {oFile : ObjectPtr}
    {child : UInt32} {rest : List UInt32} {childObj : Yaffs2Object}
    (hobj : vol.object? child = some childObj) :
    yaffs2ReadDirectory epochToEfiTime vol ⟨position, oFile, some (child :: rest)⟩ true
        0xFFFFFFFFFFFFFFFF
      = .ok ((.success, (listedInfo epochToEfiTime vol childObj).size,
          some (listedInfo epochToEfiTime vol childObj)),
        ⟨position + 1, oFile, some rest⟩) := by
  have hroom : ¬ (0xFFFFFFFFFFFFFFFF : UInt64) < (listedInfo epochToEfiTime vol childObj).size :=
    UInt64.not_lt.mpr (UInt64.le_iff_toNat_le.mpr (Nat.le_of_lt_succ (UInt64.toNat_lt _)))
  rw [readDirectory_run hvol rfl hobj, writeInfo, if_neg hroom]
  rfl

/-! ## A handle on a directory -/

/-- The states of a handle from its allocation on, over any reads and any
changes of position. -/
inductive Enumerating (epochToEfiTime : UInt64 → EfiTime → EfiTime) (vol : Yaffs2Volume)
    (dir : UInt32) : Yaffs2IFile → Prop
  | opened {alloc : Bool} {file : Yaffs2IFile}
      (h : yaffs2AllocateIFile alloc vol (some dir) = .ok (some file)) :
      Enumerating epochToEfiTime vol dir file
  | read {file file' : Yaffs2IFile} (before : Enumerating epochToEfiTime vol dir file)
      {hasBuffer : Bool} {bufferSize : UInt64} {out : EfiStatus × UInt64 × Option EfiFileInfo}
      (h : yaffs2ReadDirectory epochToEfiTime vol file hasBuffer bufferSize = .ok (out, file')) :
      Enumerating epochToEfiTime vol dir file'
  | setPosition {file file' : Yaffs2IFile} (before : Enumerating epochToEfiTime vol dir file)
      {position : UInt64} {status : EfiStatus}
      (h : yaffs2SetPosition vol file position = .ok (status, file')) :
      Enumerating epochToEfiTime vol dir file'

/-- A read leaves the handle on its object, with the cursor where it was or
one entry on. -/
theorem readDirectory_handle {file file' : Yaffs2IFile} {hasBuffer : Bool}
    {bufferSize : UInt64} {out : EfiStatus × UInt64 × Option EfiFileInfo}
    (h : yaffs2ReadDirectory epochToEfiTime vol file hasBuffer bufferSize = .ok (out, file')) :
    file'.oFile = file.oFile ∧ (file'.dirCursor = file.dirCursor
      ∨ ∃ entry rest, file.dirCursor = some (entry :: rest) ∧ file'.dirCursor = some rest) := by
  rw [yaffs2ReadDirectory] at h
  split at h
  · cases h
  · cases h
    exact ⟨rfl, .inl rfl⟩
  · obtain ⟨child, -, h⟩ := bind_eq_ok.mp h
    obtain ⟨shown, -, h⟩ := bind_eq_ok.mp h
    obtain ⟨out', -, h⟩ := bind_eq_ok.mp h
    split at h
    · cases h
      exact ⟨rfl, .inr ⟨_, _, ‹_›, rfl⟩⟩
    · cases h
      exact ⟨rfl, .inl rfl⟩

/-- The cursor is always at a rest of the child list. -/
theorem Enumerating.cursor (hvol : VolumeOK vol) {dir : UInt32} {dirObj : Yaffs2Object}
    (hdir : vol.object? dir = some dirObj) (htype : dirObj.type = yaffs2TypeDir)
    {file : Yaffs2IFile} (h : Enumerating epochToEfiTime vol dir file) :
    file.oFile = some dir ∧ ∃ entries, file.dirCursor = some entries
      ∧ entries <:+ dirObj.children := by
  induction h with
  | @opened alloc file h =>
      rw [yaffs2AllocateIFile_eq hvol hdir] at h
      cases alloc with
      | false => cases h
      | true =>
          cases h
          exact ⟨rfl, _, if_pos htype, List.suffix_refl _⟩
  | read before h ih =>
      obtain ⟨hfile, entries, hentries, hsuffix⟩ := ih
      obtain ⟨hfile', hcursor⟩ := readDirectory_handle h
      refine ⟨hfile'.trans hfile, ?_⟩
      rcases hcursor with hsame | ⟨entry, rest, hcons, hrest⟩
      · exact ⟨entries, hsame.trans hentries, hsuffix⟩
      · obtain rfl := Option.some.inj (hentries.symm.trans hcons)
        exact ⟨rest, hrest, (List.suffix_cons entry rest).trans hsuffix⟩
  | setPosition before h ih =>
      obtain ⟨hfile, entries, hentries, hsuffix⟩ := ih
      rw [yaffs2SetPosition, hfile, hvol.deref hdir, ok_bind, if_pos htype] at h
      split at h
      · cases h
        exact ⟨hfile, entries, hentries, hsuffix⟩
      · cases h
        exact ⟨rfl, _, rfl, List.suffix_refl _⟩

/-! ## What is opened -/

theorem chars_pathChars (obj : Yaffs2Object) : PathChars obj.chars :=
  pathChars_cString _

theorem chars_length_lt (obj : Yaffs2Object) : obj.chars.length < path8Size := by
  have htake : (cString obj.name.toList).length ≤ obj.name.toList.length :=
    (List.takeWhile_prefix _).length_le
  rw [List.Vector.toList_length] at htake
  rw [Yaffs2Object.chars, List.length_map, path8Size]
  omega

/-- The object a child's name opens in its directory: the end of its chain
of hardlinks, and the directory itself for the empty name. -/
def openedBy (vol : Yaffs2Volume) (dir child : UInt32) (name : List UInt16) :
    Option UInt32 :=
  if name = [] then some dir else followHardlinks vol 16 child

/-- A name that only the child has leads to `openedBy`. -/
theorem resolvePath_child {dir child : UInt32} {dirObj childObj : Yaffs2Object}
    (hdir : vol.object? dir = some dirObj) (htype : dirObj.type = yaffs2TypeDir)
    (hmem : child ∈ dirObj.children) (hobj : vol.object? child = some childObj)
    (hunique : ∀ c ∈ dirObj.children,
      (vol.object? c).map Yaffs2Object.chars = some childObj.chars → c = child)
    (hback : backslash ∉ childObj.chars) (hdot : childObj.chars ≠ [dot])
    (hdotdot : childObj.chars ≠ [dot, dot]) :
    resolvePath vol (pathStart vol dir childObj.chars) (components childObj.chars)
      = openedBy vol dir child childObj.chars := by
  have hstart : pathStart vol dir childObj.chars = dir := by
    have hhead : childObj.chars.head? ≠ some backslash :=
      fun h => hback (List.mem_of_mem_head? h)
    rw [pathStart, if_neg hhead, hdir, Option.map_some, if_pos (by rw [htype])]
  rw [hstart, openedBy]
  by_cases hempty : childObj.chars = []
  · rw [if_pos hempty, hempty, components_nil]
    rfl
  · rw [if_neg hempty, components_single hempty hback, resolvePath, List.foldlM_cons, enter,
      if_neg hdot, if_neg hdotdot, hdir, Option.bind_some, if_pos htype]
    have hfind : (dirObj.children.find? fun c =>
        decide ((vol.object? c).map Yaffs2Object.chars = some childObj.chars)) = some child := by
      cases hf : dirObj.children.find? fun c =>
          decide ((vol.object? c).map Yaffs2Object.chars = some childObj.chars) with
      | none =>
          have hno := List.find?_eq_none.mp hf child hmem
          rw [hobj] at hno
          exact absurd (decide_eq_true rfl) hno
      | some c =>
          have hname := List.find?_some hf
          exact congrArg some
            (hunique c (List.mem_of_find?_eq_some hf) (of_decide_eq_true hname))
    rw [hfind, Option.bind_some]
    exact Option.bind_fun_some _

/-- Only a read-only open succeeds. -/
theorem open_readOnly {fuel : Nat} {alloc : Bool} {this : Option Yaffs2IFile}
    {newHandle out : Option (Option Yaffs2IFile)} {fileName : Option (List UInt16)}
    {openMode : UInt64} {stack : List UInt8}
    (h : yaffs2Open fuel alloc vol this newHandle fileName openMode stack
      = .ok (.success, out)) :
    openMode &&& efiFileModeWrite = 0 ∧ openMode &&& efiFileModeCreate = 0 := by
  unfold yaffs2Open at h
  split at h
  · split at h
    · cases h
    · split at h
      · cases h
      · exact ⟨not_not.mp ‹_›, not_not.mp ‹_›⟩
  · cases h

/-- Opening a child by its name, from any handle on the directory. -/
theorem open_child_run (hvol : VolumeOK vol) {dir child : UInt32}
    {dirObj childObj : Yaffs2Object} (hdir : vol.object? dir = some dirObj)
    (htype : dirObj.type = yaffs2TypeDir) (hmem : child ∈ dirObj.children)
    (hobj : vol.object? child = some childObj)
    (hunique : ∀ c ∈ dirObj.children,
      (vol.object? c).map Yaffs2Object.chars = some childObj.chars → c = child)
    (hback : backslash ∉ childObj.chars) (hdot : childObj.chars ≠ [dot])
    (hdotdot : childObj.chars ≠ [dot, dot]) {ifile : Yaffs2IFile}
    (hfile : ifile.oFile = some dir) {openMode : UInt64}
    (hwrite : openMode &&& efiFileModeWrite = 0)
    (hcreate : openMode &&& efiFileModeCreate = 0) (alloc : Bool)
    (slot : Option Yaffs2IFile) (stack : List UInt8) {fuel : Nat} (hfuel : path8Size ≤ fuel) :
    yaffs2Open fuel alloc vol (some ifile) (some slot) (some childObj.chars) openMode stack
      = finishOpen alloc vol slot (openedBy vol dir child childObj.chars) := by
  have hlive : (vol.object? dir).isSome = true := by rw [hdir]; rfl
  rw [yaffs2Open_run hvol hfile hlive (chars_length_lt childObj) (chars_pathChars childObj)
    hwrite hcreate alloc slot stack hfuel,
    resolvePath_child hdir htype hmem hobj hunique hback hdot hdotdot]

/-- What an open that succeeds opened. -/
theorem open_child (hvol : VolumeOK vol) {dir child : UInt32}
    {dirObj childObj : Yaffs2Object} (hdir : vol.object? dir = some dirObj)
    (htype : dirObj.type = yaffs2TypeDir) (hmem : child ∈ dirObj.children)
    (hobj : vol.object? child = some childObj)
    (hunique : ∀ c ∈ dirObj.children,
      (vol.object? c).map Yaffs2Object.chars = some childObj.chars → c = child)
    (hback : backslash ∉ childObj.chars) (hdot : childObj.chars ≠ [dot])
    (hdotdot : childObj.chars ≠ [dot, dot]) {ifile opened : Yaffs2IFile}
    (hfile : ifile.oFile = some dir) {openMode : UInt64} {alloc : Bool}
    {slot : Option Yaffs2IFile} {stack : List UInt8} {fuel : Nat} (hfuel : path8Size ≤ fuel)
    (h : yaffs2Open fuel alloc vol (some ifile) (some slot) (some childObj.chars) openMode stack
      = .ok (.success, some (some opened))) :
    ∃ target obj, openedBy vol dir child childObj.chars = some target
      ∧ vol.object? target = some obj ∧ opened.oFile = some target := by
  obtain ⟨hwrite, hcreate⟩ := open_readOnly h
  rw [open_child_run hvol hdir htype hmem hobj hunique hback hdot hdotdot hfile hwrite hcreate
    alloc slot stack hfuel] at h
  cases htarget : openedBy vol dir child childObj.chars with
  | none =>
      rw [htarget] at h
      cases h
  | some target =>
      have hsome : (vol.object? target).isSome = true := by
        rw [openedBy] at htarget
        split at htarget
        · obtain rfl := Option.some.inj htarget
          rw [hdir]
          rfl
        · exact (resolveHardlinks_eq hvol 16 (hvol.children dir dirObj hdir child hmem)).2
            target htarget
      obtain ⟨obj, htargetObj⟩ := Option.isSome_iff_exists.mp hsome
      refine ⟨target, obj, rfl, htargetObj, ?_⟩
      rw [htarget] at h
      simp only [finishOpen, yaffs2AllocateIFile_eq hvol htargetObj, ok_bind] at h
      cases alloc with
      | false => cases h
      | true =>
          cases h
          rfl

theorem length_cString_name (name : List.Vector UInt8 256) :
    (cString name.toList).length ≤ 256 := by
  have hle := (List.takeWhile_prefix (l := name.toList) (fun c : UInt8 => c ≠ 0)).length_le
  rwa [name.toList_length] at hle

/-- A record is never empty. -/
theorem infoSize_pos {nameLen : Nat} (hlen : nameLen ≤ 256) :
    0 < sizeOfEfiFileInfo + char16Bytes nameLen := by
  have hone : (UInt64.ofNat nameLen + 1).toNat = nameLen + 1 :=
    toNat_add_of_lt (toNat_ofNat_of_lt (by omega)) rfl (by omega)
  have hchars : (char16Bytes nameLen).toNat = (nameLen + 1) * 2 := by
    rw [char16Bytes, UInt64.toNat_mul, hone]
    exact Nat.mod_eq_of_lt (by rw [show (2 : UInt64).toNat = 2 from rfl]; omega)
  rw [UInt64.lt_iff_toNat_lt, toNat_add_of_lt (n := 80) rfl hchars (by omega), UInt64.toNat_zero]
  omega

/-- `GetInfo` writes the record of the open object, if it fits. -/
theorem getInfo_run {σ : Type} (epochToEfiTime : UInt64 → EfiTime → EfiTime)
    (nand : NandFlashProtocol σ) (hvol : VolumeOK vol)
    {opened : Yaffs2IFile} {target : UInt32} {obj : Yaffs2Object}
    (hfile : opened.oFile = some target) (hobj : vol.object? target = some obj) :
    ∃ nameLen size, 0 < size ∧ ∀ hasBuffer bufferSize,
      yaffs2GetInfo epochToEfiTime nand vol (some opened) (some .fileInfo) (some bufferSize)
          hasBuffer = (do
        let (status, size, info) ← writeInfo hasBuffer bufferSize size
          (fileInfo epochToEfiTime obj nameLen size)
        .ok (status, some size, info.map .file)) := by
  let nameLen := if some target = vol.root then 0 else (cString obj.name.toList).length
  have hlen : nameLen ≤ 256 := by
    rw [show nameLen = if some target = vol.root then 0 else (cString obj.name.toList).length
      from rfl]
    split
    · exact Nat.zero_le _
    · exact length_cString_name obj.name
  refine ⟨nameLen, sizeOfEfiFileInfo + char16Bytes nameLen, infoSize_pos hlen,
    fun hasBuffer bufferSize => ?_⟩
  rw [yaffs2GetInfo]
  simp only [hfile, hvol.deref hobj, ok_bind]
  by_cases hroot : some target = vol.root
  · rw [if_pos hroot, show nameLen = 0 from if_pos hroot]
  · rw [if_neg hroot, strLen_eq (hvol.terminated target obj hobj), ok_bind,
      show nameLen = (cString obj.name.toList).length from if_neg hroot]

theorem getInfo_file {σ : Type} {nand : NandFlashProtocol σ} (hvol : VolumeOK vol)
    {opened : Yaffs2IFile} {target : UInt32} {obj : Yaffs2Object}
    (hfile : opened.oFile = some target) (hobj : vol.object? target = some obj)
    {bufferSize : UInt64} {size : Option UInt64} {hasBuffer : Bool} {info : EfiFileInfo}
    (h : yaffs2GetInfo epochToEfiTime nand vol (some opened) (some .fileInfo)
      (some bufferSize) hasBuffer = .ok (.success, size, some (.file info))) :
    ∃ nameLen size', info = fileInfo epochToEfiTime obj nameLen size' := by
  obtain ⟨nameLen, needed, -, hrun⟩ := getInfo_run epochToEfiTime nand hvol hfile hobj
  rw [hrun] at h
  obtain ⟨⟨status, size', out⟩, hwrite, h⟩ := bind_eq_ok.mp h
  obtain ⟨rfl, -, hinfo⟩ : status = .success ∧ some size' = size
      ∧ out.map InfoRecord.file = some (.file info) := by
    simpa using h
  obtain ⟨record, rfl, hrecord⟩ := Option.map_eq_some_iff.mp hinfo
  obtain rfl := InfoRecord.file.inj hrecord
  exact ⟨nameLen, needed, writeInfo_success hwrite⟩

/-- With room for any record `GetInfo` succeeds. -/
theorem getInfo_success {σ : Type} (epochToEfiTime : UInt64 → EfiTime → EfiTime)
    (nand : NandFlashProtocol σ) (hvol : VolumeOK vol)
    {opened : Yaffs2IFile} {target : UInt32} {obj : Yaffs2Object}
    (hfile : opened.oFile = some target) (hobj : vol.object? target = some obj) :
    ∃ nameLen size, yaffs2GetInfo epochToEfiTime nand vol (some opened) (some .fileInfo)
        (some 0xFFFFFFFFFFFFFFFF) true
      = .ok (.success, some size, some (.file (fileInfo epochToEfiTime obj nameLen size))) := by
  obtain ⟨nameLen, size, -, hrun⟩ := getInfo_run epochToEfiTime nand hvol hfile hobj
  have hroom : ¬ (0xFFFFFFFFFFFFFFFF : UInt64) < size :=
    UInt64.not_lt.mpr (UInt64.le_iff_toNat_le.mpr (Nat.le_of_lt_succ (UInt64.toNat_lt _)))
  refine ⟨nameLen, size, ?_⟩
  rw [hrun, writeInfo, if_neg hroom]
  rfl

/-! ## Agreement -/

/-- Two records give the same size, kind and times. -/
structure EfiFileInfo.Agrees (a b : EfiFileInfo) : Prop where
  fileSize : a.fileSize = b.fileSize
  physicalSize : a.physicalSize = b.physicalSize
  directory : a.fileAttribute &&& efiFileDirectory = b.fileAttribute &&& efiFileDirectory
  createTime : a.createTime = b.createTime
  lastAccessTime : a.lastAccessTime = b.lastAccessTime
  modificationTime : a.modificationTime = b.modificationTime

/-- Two objects have the same size, are both directories or neither, and have
the same time. -/
structure SameAttributes (epochToEfiTime : UInt64 → EfiTime → EfiTime)
    (a b : Yaffs2Object) : Prop where
  fileSize : a.fileSize = b.fileSize
  directory : a.type = yaffs2TypeDir ↔ b.type = yaffs2TypeDir
  time : efiTime epochToEfiTime a.mTime = efiTime epochToEfiTime b.mTime

theorem directory_eq_iff (a b : Yaffs2Object) (n n' : Nat) (size size' : UInt64) :
    (fileInfo epochToEfiTime a n size).fileAttribute &&& efiFileDirectory
        = (fileInfo epochToEfiTime b n' size').fileAttribute &&& efiFileDirectory
      ↔ (a.type = yaffs2TypeDir ↔ b.type = yaffs2TypeDir) := by
  have hdir : (efiFileReadOnly ||| efiFileDirectory) &&& efiFileDirectory
      ≠ efiFileReadOnly &&& efiFileDirectory := by decide
  rw [fileInfo, fileInfo]
  by_cases ha : a.type = yaffs2TypeDir
  · by_cases hb : b.type = yaffs2TypeDir
    · simp [ha, hb]
    · simp only [ha, hb, if_true, if_false, iff_false, not_true_eq_false]
      exact hdir
  · by_cases hb : b.type = yaffs2TypeDir
    · simp only [ha, hb, if_true, if_false, iff_true]
      exact iff_of_false hdir.symm not_false
    · simp [ha, hb]

/-- The records of two objects agree when the objects do, whatever the
names. -/
theorem fileInfo_agrees_iff (a b : Yaffs2Object) (n n' : Nat) (size size' : UInt64) :
    (fileInfo epochToEfiTime a n size).Agrees (fileInfo epochToEfiTime b n' size')
      ↔ SameAttributes epochToEfiTime a b := by
  constructor
  · intro h
    exact ⟨h.fileSize, (directory_eq_iff a b n n' size size').mp h.directory,
      h.modificationTime⟩
  · intro h
    exact ⟨h.fileSize, h.fileSize, (directory_eq_iff a b n n' size size').mpr h.directory,
      h.time, h.time, h.time⟩

/-- When a child is listed as what it opens as: its name is not empty and it
is no hardlink to a hardlink (or to nothing), or what is displayed happens
to have the attributes of what is opened. -/
inductive ListedAsOpened (epochToEfiTime : UInt64 → EfiTime → EfiTime) (vol : Yaffs2Volume)
    (dir child : UInt32) (childObj : Yaffs2Object) : Prop
  | direct (named : childObj.chars ≠ [])
      (oneHop : (displayed vol childObj).type ≠ yaffs2TypeHardlink)
  | alike {target : UInt32} {obj : Yaffs2Object}
      (opens : openedBy vol dir child childObj.chars = some target)
      (targetObj : vol.object? target = some obj)
      (same : SameAttributes epochToEfiTime (displayed vol childObj) obj)

/-- At most one link away from its file, a child opens as the object it is
displayed with. -/
theorem openedBy_direct {dir child target : UInt32} {childObj obj : Yaffs2Object}
    (hobj : vol.object? child = some childObj) (hnamed : childObj.chars ≠ [])
    (hhop : (displayed vol childObj).type ≠ yaffs2TypeHardlink)
    (hopens : openedBy vol dir child childObj.chars = some target)
    (htarget : vol.object? target = some obj) : obj = displayed vol childObj := by
  rw [openedBy, if_neg hnamed] at hopens
  rw [displayed] at hhop ⊢
  by_cases hlink : childObj.type = yaffs2TypeHardlink
  · rw [followHardlinks_hop hobj hlink] at hopens
    rw [if_pos hlink] at hhop ⊢
    cases hequiv : vol.object? childObj.equivId with
    | none =>
        rw [hequiv] at hhop
        exact absurd hlink hhop
    | some next =>
        rw [hequiv, Option.getD_some] at hhop
        rw [followHardlinks_stop hequiv hhop] at hopens
        obtain rfl := Option.some.inj hopens
        exact (Option.some.inj (hequiv.symm.trans htarget)).symm
  · rw [followHardlinks_stop hobj hlink] at hopens
    rw [if_neg hlink]
    obtain rfl := Option.some.inj hopens
    exact Option.some.inj (htarget.symm.trans hobj)

end Listing

/-- A header page: the low bytes of the type, the parent, the size and the
`EquivId`, and a name of one character. -/
def linkHeader (type parentId name size equivId : UInt8) : PageData := fun i =>
  match i.val with
  | 0x000 => type
  | 0x004 => parentId
  | 0x00A => name
  | 0x124 => size
  | 0x12C => equivId
  | _ => 0

/-- The root with a file `a` of 100 bytes, a hardlink `b` to it, and a
hardlink `c` to `b`. -/
def linkedBlock : BlockContent where
  tags := fun i => [⟨0x1000, 1, 0x80000000, 0⟩, ⟨0x1000, 5, 0x80000000, 0⟩,
    ⟨0x1000, 6, 0x80000000, 0⟩, ⟨0x1000, 7, 0x80000000, 0⟩].getD i
      ⟨0xFFFFFFFF, 0xFFFFFFFF, 0xFFFFFFFF, 0xFFFFFFFF⟩
  data := fun i => [linkHeader 3 1 0 0 0, linkHeader 1 1 0x61 100 0, linkHeader 4 1 0x62 0 5,
    linkHeader 4 1 0x63 0 6].getD i fun _ => 0

/-- The volume mounted from this block. -/
theorem exists_linkedVolume :
    ∃ vol root a b c, BuiltTree vol
      ∧ vol.object? 1 = some root ∧ root.type = yaffs2TypeDir ∧ root.children = [5, 6, 7]
      ∧ vol.object? 5 = some a ∧ a.type = yaffs2TypeFile ∧ a.fileSize = 100
        ∧ a.chars = [0x61]
      ∧ vol.object? 6 = some b ∧ b.type = yaffs2TypeHardlink ∧ b.fileSize = 0
        ∧ b.equivId = 5 ∧ b.chars = [0x62]
      ∧ vol.object? 7 = some c ∧ c.type = yaffs2TypeHardlink ∧ c.equivId = 6
        ∧ c.chars = [0x63] := by
  obtain ⟨st, hblocks, ⟨root, hroot, hdir⟩, ⟨a, ha, haFields⟩, ⟨b, hb, hbFields⟩,
      ⟨c, hc, hcFields⟩, hchildren⟩ : ∃ st,
      scanBlocks (storedNand 4 linkedBlock) noFailure ⟨0, .empty, 0, 0, []⟩ = .ok st
        ∧ (∃ root, survivor st.volume 1 = some root ∧ root.type = yaffs2TypeDir)
        ∧ (∃ a, survivor st.volume 5 = some a
          ∧ (a.type, a.fileSize, a.chars) = (yaffs2TypeFile, 100, [0x61]))
        ∧ (∃ b, survivor st.volume 6 = some b
          ∧ (b.type, b.fileSize, b.equivId, b.chars) = (yaffs2TypeHardlink, 0, 5, [0x62]))
        ∧ (∃ c, survivor st.volume 7 = some c
          ∧ (c.type, c.equivId, c.chars) = (yaffs2TypeHardlink, 6, [0x63]))
        ∧ (((List.range (st.volume.maxObjId.toNat + 1)).map UInt32.ofNat).filter fun i =>
          (survivor st.volume i).isSome && i != 1
            && (namedParent st.volume i).getD 1 == 1) = [5, 6, 7] :=
    ⟨_, rfl, ⟨_, rfl, rfl⟩, ⟨_, rfl, by decide +kernel⟩, ⟨_, rfl, by decide +kernel⟩,
      ⟨_, rfl, by decide +kernel⟩, by decide +kernel⟩
  obtain ⟨vol, pruned, hbuilt, hfrom⟩ := exists_built hblocks (by rw [hroot]; rfl)
  have hlist := hfrom.childList_eq (by rw [hroot]; rfl) (st.volume.maxObjId.toNat + 1) 1
  rw [hchildren] at hlist
  have hat : ∀ {i o}, survivor st.volume i = some o →
      vol.object? i = some (tied pruned (st.volume.maxObjId.toNat + 1) i o) :=
    fun ho => hfrom.object?_eq_some.mpr ⟨_, ho, rfl⟩
  simp only [Prod.mk.injEq] at haFields hbFields hcFields
  exact ⟨vol, _, _, _, _, hbuilt, hat hroot, hdir, hlist, hat ha, haFields.1, haFields.2.1,
    haFields.2.2, hat hb, hbFields.1, hbFields.2.1, hbFields.2.2.1, hbFields.2.2.2, hat hc,
    hcFields.1, hcFields.2.1, hcFields.2.2⟩

end Ccr2004
