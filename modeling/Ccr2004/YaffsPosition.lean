import Ccr2004.YaffsReadLaw

/-!
# File positions

The clipping test of a file read adds the position and the buffer size in 64
bits, and the chunk index is narrowed to 32. `positionsExact_iff` is the exact
price: past a sum that wraps the whole buffer is filled, and a position from
chunk `2 ^ 32` on shows the chunk of the same low 32 bits if that one is
recorded.
-/

namespace Ccr2004

/-- What a read stores, over the integers: at most what is left of the file,
each byte from the chunk it lies in. -/
def PositionsExact (vol : Yaffs2Volume) (ifile : Yaffs2IFile) (obj : Yaffs2Object)
    (size : UInt64) : Prop :=
  ∀ (σ : Type) (nand : NandFlashProtocol σ) (epochToEfiTime : UInt64 → EfiTime → EfiTime) page bad
    (buffer : List UInt8) n, Serves nand page bad → size.toNat ≤ buffer.length →
    ∃ out, yaffs2Read nand epochToEfiTime vol (some ifile) (some size) (some buffer) n = .ok out
      ∧ ((∃ c ≤ readCount obj ifile.position size,
          Delivers ifile buffer (content obj page ifile.position.toNat c) out)
        ∨ Refuses ifile size buffer out)

/-- A byte the code reads from a chunk it does not lie in. -/
def Misread (obj : Yaffs2Object) (b : Nat) : Prop :=
  2 ^ 32 ≤ b / 2032 ∧ obj.Recorded (codeChunk b)
    ∧ b % 2032 < (obj.chunkAt (codeChunk b)).nBytes.toNat

/-- Neither narrowing loses anything. -/
def PositionsFit (obj : Yaffs2Object) (position size : UInt64) : Prop :=
  obj.fileSize ≤ position
    ∨ (position.toNat + size.toNat < 2 ^ 64
      ∧ ∀ j < readCount obj position size, ¬ Misread obj (position.toNat + j))

section Positions

variable {vol : Yaffs2Volume} {ifile : Yaffs2IFile} {obj : Yaffs2Object} {size : UInt64}

/-- Past the chunk table a byte is zero. -/
theorem logicalByte_of_ge (page : UInt32 → PageData) {b : Nat} (h : 2 ^ 32 ≤ b / 2032) :
    logicalByte obj page b = 0 := by
  refine if_neg fun h' => ?_
  have hcount := obj.chunkCount.toNat_lt
  exact absurd h'.1.1 (by omega)

theorem codeByte_of_not_misread (page : UInt32 → PageData) {b : Nat} (h : ¬ Misread obj b) :
    codeByte obj page b = logicalByte obj page b := by
  rcases Nat.lt_or_ge (b / 2032) (2 ^ 32) with hlt | hge
  · exact codeByte_of_lt hlt
  · rw [logicalByte_of_ge page hge]
    exact if_neg fun h' => h ⟨hge, h'.1, h'.2⟩

/-- A page of ones shows every misread byte. -/
theorem codeByte_of_misread {b : Nat} (h : Misread obj b) :
    codeByte obj (fun _ _ => 0xFF) b ≠ logicalByte obj (fun _ _ => 0xFF) b := by
  have hpage : b % 2032 < pageBytes := Nat.lt_of_lt_of_le (Nat.mod_lt _ (by decide)) (by decide)
  rw [logicalByte_of_ge _ h.1, codeByte, chunkByte, if_pos h.2, PageData.byte, dif_pos hpage]
  decide

/-- Under the condition a read is exact, whatever fails. -/
theorem PositionsFit.exact (hfile : OpenFile vol ifile obj)
    (h : PositionsFit obj ifile.position size) : PositionsExact vol ifile obj size := by
  intro σ nand epochToEfiTime page bad buffer n hserves hbuffer
  rcases UInt64.lt_or_le ifile.position obj.fileSize with hpos | hpos
  · obtain ⟨hfits, hread⟩ := h.resolve_left (UInt64.not_le.mpr hpos)
    obtain ⟨out, hrun, hend⟩ := yaffs2Read_loop epochToEfiTime hfile hserves hpos hbuffer n
    refine ⟨_, hrun, ?_⟩
    rcases readResult_cases hpos hfits hend with ⟨c, hc, hdelivers, -, -⟩ | ⟨hrefuses, -, -⟩
    · refine .inl ⟨c, hc, ?_⟩
      have hcontent : (List.range c).map (fun j => codeByte obj page (ifile.position.toNat + j))
          = content obj page ifile.position.toNat c :=
        List.map_congr_left fun j hj => codeByte_of_not_misread page
          (hread j (Nat.lt_of_lt_of_le (List.mem_range.mp hj) hc))
      rwa [← hcontent]
    · exact .inr hrefuses
  · exact ⟨_, yaffs2Read_past hfile hpos n, .inl ⟨0, Nat.zero_le _, delivers_nothing n⟩⟩

/-- A read without faults copies all of `ReadLen`. -/
theorem readResult_plain (size : UInt64) {page : PageData} {readLen : UInt64} {buffer : List UInt8}
    {out : EfiStatus × FileRead Unit}
    (hend : LoopEnd obj (fun _ => page) (fun _ => false) ifile.position readLen buffer out) :
    (readResult ifile size out).status = .success
      ∧ (readResult ifile size out).bufferSize = some readLen := by
  rcases hend.status with ⟨hsuccess, hall⟩ | ⟨hfails, -, -⟩
  · rw [readResult, hsuccess, hall]
    exact ⟨rfl, rfl⟩
  · cases hfails.2

/-- So an exact read of a device without faults delivers content. -/
theorem PositionsExact.plain (h : PositionsExact vol ifile obj size)
    (hfile : OpenFile vol ifile obj) (hpos : ifile.position < obj.fileSize) :
    ∃ out : EfiStatus × FileRead Unit,
      LoopEnd obj (fun _ => fun _ => 0xFF) (fun _ => false) ifile.position
        (readLength obj.fileSize ifile.position size) (List.replicate size.toNat 0) out
      ∧ ∃ c ≤ readCount obj ifile.position size,
        Delivers ifile (List.replicate size.toNat 0)
          (content obj (fun _ => fun _ => 0xFF) ifile.position.toNat c)
          (readResult ifile size out) := by
  have hserves := plainNand_serves fun _ => 0xFF
  have hbuffer : size.toNat ≤ (List.replicate size.toNat (0 : UInt8)).length := by
    rw [List.length_replicate]
  obtain ⟨out, hrun, hend⟩ := yaffs2Read_loop (fun _ t => t) hfile hserves hpos hbuffer ()
  obtain ⟨out', hrun', hout⟩ := h Unit _ (fun _ t => t) _ _ _ () hserves hbuffer
  obtain rfl : out' = readResult ifile size out := Except.ok.inj (hrun'.symm.trans hrun)
  refine ⟨out, hend, hout.resolve_right fun hrefuses => ?_⟩
  have hstatus := (readResult_plain size hend).1
  rw [hrefuses.status] at hstatus
  cases hstatus

/-- A sum that wraps fills the whole buffer. -/
theorem not_exact_of_wraps (hfile : OpenFile vol ifile obj) (hpos : ifile.position < obj.fileSize)
    (hwraps : 2 ^ 64 ≤ ifile.position.toNat + size.toNat) :
    ¬ PositionsExact vol ifile obj size := by
  intro h
  obtain ⟨out, hend, c, hc, hdelivers⟩ := h.plain hfile hpos
  have hsize := (readResult_plain size hend).2
  rw [readLength_of_wraps hpos hwraps] at hsize
  have hcopied := hdelivers.bufferSize
  rw [length_content, hsize] at hcopied
  have hsizeNat := congrArg UInt64.toNat (Option.some.inj hcopied)
  have hpos' := UInt64.lt_iff_toNat_lt.mp hpos
  have hfileSize := obj.fileSize.toNat_lt
  have hsizeLt := size.toNat_lt
  rw [readCount] at hc
  rw [toNat_ofNat_of_lt (by omega)] at hsizeNat
  omega

/-- A misread byte is delivered. -/
theorem not_exact_of_misread (hfile : OpenFile vol ifile obj)
    (hpos : ifile.position < obj.fileSize)
    (hfits : ifile.position.toNat + size.toNat < 2 ^ 64) {j : Nat}
    (hj : j < readCount obj ifile.position size)
    (hmis : Misread obj (ifile.position.toNat + j)) : ¬ PositionsExact vol ifile obj size := by
  intro h
  obtain ⟨out, hend, c, hc, hdelivers⟩ := h.plain hfile hpos
  rcases readResult_cases hpos hfits hend with ⟨c', hc', hcode, hall, -⟩ | ⟨hrefuses, -, -⟩
  · have hcount : c' = readCount obj ifile.position size :=
      hall.resolve_right fun h => by cases h.2.2.2
    have hlen := size.toNat_lt
    have hle : readCount obj ifile.position size ≤ size.toNat := Nat.min_le_left _ _
    have hbytes := hcode.delivered (by
      rw [List.length_map, List.length_range]
      omega)
    rw [hdelivers.delivered (by rw [length_content]; omega)] at hbytes
    have hsame : c = c' := by simpa using congrArg List.length hbytes
    have hbyte := congrArg (fun bytes => bytes[j]?) hbytes
    simp [content, hsame, hcount, hj] at hbyte
    exact codeByte_of_misread hmis hbyte.symm
  · have hstatus := (readResult_plain size hend).1
    rw [hrefuses.status] at hstatus
    cases hstatus

end Positions

/-- A read is exact precisely when neither narrowing loses anything. -/
theorem positionsExact_iff {vol : Yaffs2Volume} {ifile : Yaffs2IFile} {obj : Yaffs2Object}
    {size : UInt64} (hfile : OpenFile vol ifile obj) :
    PositionsExact vol ifile obj size ↔ PositionsFit obj ifile.position size := by
  refine ⟨fun h => ?_, fun h => h.exact hfile⟩
  rcases UInt64.lt_or_le ifile.position obj.fileSize with hpos | hpos
  · rcases Nat.lt_or_ge (ifile.position.toNat + size.toNat) (2 ^ 64) with hfits | hwraps
    · exact .inr ⟨hfits, fun j hj hmis => not_exact_of_misread hfile hpos hfits hj hmis h⟩
    · exact absurd h (not_exact_of_wraps hfile hpos hwraps)
  · exact .inl hpos

/-- A read of a small file is exact. -/
theorem positionsExact_small : PositionsExact (volumeOf smallFile) (handleAt 1) smallFile 16 := by
  refine (positionsExact_iff (smallFile_open 1)).mpr (.inr ⟨by decide, fun j hj hmis => ?_⟩)
  have hcount : readCount smallFile (handleAt 1).position 16 = 2 := rfl
  have hposition : (handleAt 1).position.toNat = 1 := rfl
  have hchunk := hmis.1
  rw [hposition] at hchunk
  omega

/-- A header page of a file one byte longer than `2032 * 2 ^ 32`. -/
def largeHeader : PageData := fun i =>
  match i.val with
  | 0 => 1
  | 0x124 => 1
  | 0x128 => 0xF0
  | 0x129 => 0x07
  | _ => 0

/-- The object of that header, with one chunk recorded. -/
def largeFile : Yaffs2Object :=
  { parseObjectHeader largeHeader (.fresh 2) with
    chunkCount := 1
    chunkAlloc := 1
    chunks := some [⟨7, 3, yaffs2SeqMin⟩] }

theorem largeFile_open (position : UInt64) :
    OpenFile (volumeOf largeFile) (handleAt position) largeFile where
  deref := rfl
  file := by decide
  chunks :=
    { null := fun h => by cases h
      size := fun chunks h => by
        obtain rfl := Option.some.inj h
        rfl
      count := by decide }

/-- At byte `2032 * 2 ^ 32` of that file the first chunk is read, and a buffer
of the greatest size is filled past the end of a file of three bytes. -/
theorem positionsExact_large_fails :
    yaffs2SetPosition (volumeOf largeFile) (handleAt 0) 0x7F000000000
        = .ok (.success, handleAt 0x7F000000000)
      ∧ ¬ PositionsExact (volumeOf largeFile) (handleAt 0x7F000000000) largeFile 1
      ∧ ¬ PositionsExact (volumeOf smallFile) (handleAt 2) smallFile 0xFFFFFFFFFFFFFFFF := by
  have hsize : largeFile.fileSize = 0x7F000000001 := by decide
  have hmis : Misread largeFile (0x7F000000000 + 0) := by
    refine ⟨by decide, ?_, by decide⟩
    exact ⟨by decide, by decide⟩
  refine ⟨by decide, fun h => ?_, fun h => ?_⟩
  · exact not_exact_of_misread (largeFile_open 0x7F000000000) (by decide) (by decide) (j := 0)
      (by decide) hmis h
  · exact not_exact_of_wraps (smallFile_open 2) (by decide) (by decide) h

end Ccr2004
