import Ccr2004.YaffsListing
import Ccr2004.YaffsRead

/-!
# Directory enumeration

The calls on one handle of a directory, with the records read since the last
reset beside it: they are a prefix of the listing, and the cursor is at the
child behind them. So a read returns the record of that child, or its size
when the buffer is too small, and past the last child nothing
(`Enumerates.read_spec`).
-/

namespace Ccr2004

/-- The records of a directory's children, in list order; every child is
live. -/
def listing (epochToEfiTime : UInt64 → EfiTime → EfiTime) (vol : Yaffs2Volume)
    (dirObj : Yaffs2Object) : List EfiFileInfo :=
  dirObj.children.map fun c => listedInfo epochToEfiTime vol ((vol.object? c).getD (.fresh c))

/-- The calls on a handle from its allocation on, with the records read since
the position was last set to zero. -/
inductive Enumerates {σ : Type} (epochToEfiTime : UInt64 → EfiTime → EfiTime)
    (nand : NandFlashProtocol σ) (vol : Yaffs2Volume) (dir : UInt32) :
    Yaffs2IFile → List EfiFileInfo → Prop
  | opened {alloc : Bool} {file : Yaffs2IFile}
      (h : yaffs2AllocateIFile alloc vol (some dir) = .ok (some file)) :
      Enumerates epochToEfiTime nand vol dir file []
  | read {file file' : Yaffs2IFile} {records : List EfiFileInfo}
      (before : Enumerates epochToEfiTime nand vol dir file records)
      {size : UInt64} {buffer : Option (List UInt8)} {n : σ} {out : Yaffs2ReadOut σ}
      (hbuffer : buffer = none → size = 0)
      (h : yaffs2Read nand epochToEfiTime vol (some file) (some size) buffer n = .ok out)
      (hfile : out.ifile = some file') :
      Enumerates epochToEfiTime nand vol dir file' (records ++ out.record.toList)
  | setPosition {file file' : Yaffs2IFile} {records : List EfiFileInfo}
      (before : Enumerates epochToEfiTime nand vol dir file records)
      {position : UInt64} {status : EfiStatus}
      (h : yaffs2SetPosition vol file position = .ok (status, file')) :
      Enumerates epochToEfiTime nand vol dir file' (if position = 0 then [] else records)

/-- A read behind some records of the listing. -/
inductive DirectoryRead {σ : Type} (entries records : List EfiFileInfo) (file : Yaffs2IFile)
    (size : UInt64) (buffer : Option (List UInt8)) (n : σ) : Yaffs2ReadOut σ → Prop
  | done (h : records = entries) :
      DirectoryRead entries records file size buffer n
        ⟨.success, some 0, none, buffer, some file, n⟩
  | tooSmall {info : EfiFileInfo} {rest : List EfiFileInfo}
      (h : entries = records ++ info :: rest) (hsmall : size < info.size) :
      DirectoryRead entries records file size buffer n
        ⟨.bufferTooSmall, some info.size, none, buffer, some file, n⟩
  | next {info : EfiFileInfo} {rest : List EfiFileInfo} {file' : Yaffs2IFile}
      (h : entries = records ++ info :: rest) (hfits : info.size ≤ size) :
      DirectoryRead entries records file size buffer n
        ⟨.success, some info.size, some info, buffer, some file', n⟩

/-- The handle is at the child behind the records. -/
structure CursorAt (epochToEfiTime : UInt64 → EfiTime → EfiTime) (vol : Yaffs2Volume)
    (dir : UInt32) (dirObj : Yaffs2Object) (file : Yaffs2IFile) (records : List EfiFileInfo) :
    Prop where
  oFile : file.oFile = some dir
  cursor : file.dirCursor = some (dirObj.children.drop records.length)
  records : records <+: listing epochToEfiTime vol dirObj

section Enumeration

variable {σ : Type} {epochToEfiTime : UInt64 → EfiTime → EfiTime} {nand : NandFlashProtocol σ}
  {vol : Yaffs2Volume} {dir : UInt32} {dirObj : Yaffs2Object}

/-- A record is never empty, so a null buffer is always too small. -/
theorem listedInfo_size_pos (child : Yaffs2Object) :
    0 < (listedInfo epochToEfiTime vol child).size :=
  infoSize_pos (length_cString_name child.name)

/-- The directory branch. -/
theorem yaffs2Read_directory (hvol : VolumeOK vol) (hdir : vol.object? dir = some dirObj)
    (htype : dirObj.type = yaffs2TypeDir) {file : Yaffs2IFile} (hfile : file.oFile = some dir)
    (size : UInt64) (buffer : Option (List UInt8)) (n : σ) :
    yaffs2Read nand epochToEfiTime vol (some file) (some size) buffer n = (do
      let ((status, size, record), file) ←
        yaffs2ReadDirectory epochToEfiTime vol file buffer.isSome size
      .ok ⟨status, some size, record, buffer, some file, n⟩) := by
  simp only [yaffs2Read, hfile, hvol.deref hdir, ok_bind, if_pos htype]

/-- What a read of the next child leaves. -/
theorem yaffs2Read_child (hvol : VolumeOK vol) (hdir : vol.object? dir = some dirObj)
    (htype : dirObj.type = yaffs2TypeDir) {file : Yaffs2IFile} (hfile : file.oFile = some dir)
    {child : UInt32} {rest : List UInt32} {childObj : Yaffs2Object}
    (hcursor : file.dirCursor = some (child :: rest)) (hobj : vol.object? child = some childObj)
    {size : UInt64} {buffer : Option (List UInt8)} (hbuffer : buffer = none → size = 0) (n : σ) :
    yaffs2Read nand epochToEfiTime vol (some file) (some size) buffer n
      = .ok (if size < (listedInfo epochToEfiTime vol childObj).size then
          ⟨.bufferTooSmall, some (listedInfo epochToEfiTime vol childObj).size, none, buffer,
            some file, n⟩
        else
          ⟨.success, some (listedInfo epochToEfiTime vol childObj).size,
            some (listedInfo epochToEfiTime vol childObj), buffer,
            some { file with dirCursor := some rest, position := file.position + 1 }, n⟩) := by
  rw [yaffs2Read_directory hvol hdir htype hfile, readDirectory_run hvol hcursor hobj, writeInfo]
  by_cases hsmall : size < (listedInfo epochToEfiTime vol childObj).size
  · rw [if_pos hsmall, if_pos hsmall]
    rfl
  · have hsome : buffer.isSome = true := by
      cases buffer with
      | none => exact absurd (hbuffer rfl ▸ listedInfo_size_pos childObj) hsmall
      | some bytes => rfl
    rw [if_neg hsmall, if_neg hsmall, hsome]
    rfl

/-- One read: the child behind the records decides. -/
theorem CursorAt.read (nand : NandFlashProtocol σ) (hvol : VolumeOK vol) (hdir : vol.object? dir = some dirObj)
    (htype : dirObj.type = yaffs2TypeDir) {file : Yaffs2IFile} {records : List EfiFileInfo}
    (h : CursorAt epochToEfiTime vol dir dirObj file records) {size : UInt64}
    {buffer : Option (List UInt8)} (hbuffer : buffer = none → size = 0) (n : σ) :
    ∃ out, yaffs2Read nand epochToEfiTime vol (some file) (some size) buffer n = .ok out
      ∧ DirectoryRead (listing epochToEfiTime vol dirObj) records file size buffer n out
      ∧ ∃ file', out.ifile = some file'
        ∧ CursorAt epochToEfiTime vol dir dirObj file' (records ++ out.record.toList) := by
  obtain ⟨tail, htail⟩ := h.records
  have hdrop : (listing epochToEfiTime vol dirObj).drop records.length = tail := by
    rw [← htail, List.drop_left]
  rw [listing, ← List.map_drop] at hdrop
  have hcursor := h.cursor
  cases hrest : dirObj.children.drop records.length with
  | nil =>
      rw [hrest] at hcursor hdrop
      have hall : records = listing epochToEfiTime vol dirObj := by
        rw [← htail, ← hdrop, List.map_nil, List.append_nil]
      have hrun : yaffs2ReadDirectory epochToEfiTime vol file buffer.isSome size
          = .ok ((.success, 0, none), file) := by
        rw [yaffs2ReadDirectory, hcursor]
      rw [yaffs2Read_directory hvol hdir htype h.oFile, hrun]
      refine ⟨_, rfl, .done hall, file, rfl, ?_⟩
      rwa [Option.toList_none, List.append_nil]
  | cons child rest =>
      rw [hrest] at hcursor hdrop
      have hmem : child ∈ dirObj.children :=
        List.mem_of_mem_drop (hrest ▸ List.mem_cons_self ..)
      obtain ⟨childObj, hobj⟩ := Option.isSome_iff_exists.mp (hvol.children dir dirObj hdir child hmem)
      rw [List.map_cons, hobj, Option.getD_some] at hdrop
      have hsplit : listing epochToEfiTime vol dirObj
          = records ++ listedInfo epochToEfiTime vol childObj :: tail.tail := by
        rw [← htail, ← hdrop]
        rfl
      rw [yaffs2Read_child hvol hdir htype h.oFile hcursor hobj hbuffer]
      refine ⟨_, rfl, ?_⟩
      by_cases hsmall : size < (listedInfo epochToEfiTime vol childObj).size
      · rw [if_pos hsmall]
        refine ⟨.tooSmall hsplit hsmall, file, rfl, ?_⟩
        rwa [Option.toList_none, List.append_nil]
      · rw [if_neg hsmall]
        refine ⟨.next hsplit (UInt64.not_lt.mp hsmall), _, rfl, h.oFile, ?_, ?_⟩
        · have hnext := congrArg List.tail hrest
          rw [List.tail_drop, List.tail_cons] at hnext
          rw [Option.toList_some, List.length_append, List.length_singleton, hnext]
        · rw [Option.toList_some, hsplit]
          exact ⟨tail.tail, by rw [List.append_assoc]; rfl⟩

/-- The cursor law of a whole run of calls. -/
theorem Enumerates.cursorAt (hvol : VolumeOK vol) (hdir : vol.object? dir = some dirObj)
    (htype : dirObj.type = yaffs2TypeDir) {file : Yaffs2IFile} {records : List EfiFileInfo}
    (h : Enumerates epochToEfiTime nand vol dir file records) :
    CursorAt epochToEfiTime vol dir dirObj file records := by
  induction h with
  | @opened alloc file h =>
      rw [yaffs2AllocateIFile_eq hvol hdir] at h
      cases alloc with
      | false => cases h
      | true =>
          cases h
          exact ⟨rfl, if_pos htype, List.nil_prefix⟩
  | @read file file' records before size buffer n out hbuffer h hfile ih =>
      obtain ⟨out', hrun, -, file'', hfile', hcursor⟩ := ih.read nand hvol hdir htype hbuffer n
      obtain rfl : out' = out := Except.ok.inj (hrun.symm.trans h)
      obtain rfl : file'' = file' := Option.some.inj (hfile'.symm.trans hfile)
      exact hcursor
  | @setPosition file file' records before position status h ih =>
      rw [yaffs2SetPosition, ih.oFile, hvol.deref hdir, ok_bind, if_pos htype] at h
      by_cases hzero : position = 0
      · rw [if_neg (not_not.mpr hzero)] at h
        cases h
        rw [if_pos hzero]
        exact ⟨rfl, rfl, List.nil_prefix⟩
      · rw [if_pos hzero] at h
        cases h
        rw [if_neg hzero]
        exact ih

/-- After a read with too small a buffer, one with the reported size returns
the record of the same child. -/
theorem CursorAt.retry (nand : NandFlashProtocol σ) (hvol : VolumeOK vol) (hdir : vol.object? dir = some dirObj)
    (htype : dirObj.type = yaffs2TypeDir) {file : Yaffs2IFile} {records : List EfiFileInfo}
    (h : CursorAt epochToEfiTime vol dir dirObj file records) {info : EfiFileInfo}
    {rest : List EfiFileInfo}
    (hnext : listing epochToEfiTime vol dirObj = records ++ info :: rest) (bytes : List UInt8)
    (n : σ) :
    ∃ out, yaffs2Read nand epochToEfiTime vol (some file) (some info.size) (some bytes) n = .ok out
      ∧ out.status = .success ∧ out.record = some info := by
  obtain ⟨out, hrun, hread, -⟩ := h.read nand hvol hdir htype
    (show some bytes = none → info.size = 0 from fun h => by cases h) n
  refine ⟨out, hrun, ?_⟩
  cases hread with
  | done hall =>
      have hlen := congrArg List.length (hall.trans hnext)
      rw [List.length_append, List.length_cons] at hlen
      omega
  | tooSmall hnext' hsmall =>
      obtain ⟨rfl, -⟩ := List.cons.inj (List.append_cancel_left (hnext'.symm.trans hnext))
      exact absurd hsmall (UInt64.lt_irrefl _)
  | next hnext' hfits =>
      obtain ⟨rfl, -⟩ := List.cons.inj (List.append_cancel_left (hnext'.symm.trans hnext))
      exact ⟨rfl, rfl⟩

end Enumeration

/-- Enumerating a directory: the records since the last reset are the listing
so far, the next read returns the next one, its size if the buffer is too
small, or nothing once all are read, and a read with the reported size
succeeds on the same child. -/
theorem enumeration_law {σ : Type} (epochToEfiTime : UInt64 → EfiTime → EfiTime)
    (nand : NandFlashProtocol σ) {vol : Yaffs2Volume} (hvol : BuiltTree vol) {dir : UInt32}
    {dirObj : Yaffs2Object} (hdir : vol.object? dir = some dirObj)
    (htype : dirObj.type = yaffs2TypeDir) {file : Yaffs2IFile} {records : List EfiFileInfo}
    (h : Enumerates epochToEfiTime nand vol dir file records) :
    records <+: listing epochToEfiTime vol dirObj
    ∧ (∀ size buffer n, (buffer = none → size = 0) →
      ∃ out, yaffs2Read nand epochToEfiTime vol (some file) (some size) buffer n = .ok out
        ∧ DirectoryRead (listing epochToEfiTime vol dirObj) records file size buffer n out)
    ∧ ∀ info rest, listing epochToEfiTime vol dirObj = records ++ info :: rest → ∀ bytes n,
      ∃ out, yaffs2Read nand epochToEfiTime vol (some file) (some info.size) (some bytes) n
          = .ok out
        ∧ out.status = .success ∧ out.record = some info := by
  have hok := hvol.volumeOK
  have hcursor := h.cursorAt hok hdir htype
  refine ⟨hcursor.records, fun size buffer n hbuffer => ?_, fun info rest hnext bytes n =>
    hcursor.retry nand hok hdir htype hnext bytes n⟩
  obtain ⟨out, hrun, hread, -⟩ := hcursor.read nand hok hdir htype hbuffer n
  exact ⟨out, hrun, hread⟩

/-- A directory with a file and two hardlinks, read from its start. -/
theorem enumeration_law_links : ∃ vol root file, BuiltTree vol ∧ vol.object? 1 = some root
    ∧ root.children = [5, 6, 7]
    ∧ ∃ out, yaffs2Read (storedNand 4 linkedBlock) (fun _ t => t) vol (some file) (some 200)
        (some (List.replicate 200 0)) 0 = .ok out
      ∧ DirectoryRead (listing (fun _ t => t) vol root) [] file 200 (some (List.replicate 200 0)) 0
        out := by
  obtain ⟨vol, root, -, -, -, hbuilt, hroot, hdir, hchildren, -⟩ := exists_linkedVolume
  have halloc : yaffs2AllocateIFile true vol (some 1) = .ok (some ⟨0, some 1, some [5, 6, 7]⟩) := by
    rw [yaffs2AllocateIFile_eq hbuilt.volumeOK hroot, if_pos hdir, hchildren]
    rfl
  exact ⟨vol, root, _, hbuilt, hroot, hchildren, (enumeration_law (fun _ t => t)
    (storedNand 4 linkedBlock) hbuilt hroot hdir (.opened halloc)).2.1 200 _ 0 fun h => by cases h⟩

end Ccr2004
