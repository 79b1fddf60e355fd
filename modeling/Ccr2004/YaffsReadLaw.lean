import Ccr2004.YaffsRead
import Ccr2004.YaffsPath

/-!
# The file read law

Byte `b` of a file is `logicalByte`: the byte of the chunk it lies in, or zero.
A read delivers the bytes from the position on, up to the end of the file, the
size of the buffer or the first failing page (`ReadLaw`). The code computes a
chunk index of 32 bits and clips with a 64-bit sum, so the law holds as long as
neither loses anything: for files up to `2032 * 2 ^ 32` bytes and sums below
`2 ^ 64`, and in general exactly under `PositionsFit`.
-/

namespace Ccr2004

/-! ## The content of a file -/

/-- Byte `b` of a file. -/
def logicalByte (obj : Yaffs2Object) (page : UInt32 → PageData) (b : Nat) : UInt8 :=
  chunkByte obj page (b / 2032) (b % 2032)

/-- `len` bytes of a file. -/
def content (obj : Yaffs2Object) (page : UInt32 → PageData) (pos len : Nat) : List UInt8 :=
  (List.range len).map fun j => logicalByte obj page (pos + j)

/-- The chunk of byte `b` is on a failing page. -/
def ChunkFails (obj : Yaffs2Object) (bad : UInt32 → Bool) (b : Nat) : Prop :=
  obj.Recorded (b / 2032) ∧ bad (obj.chunkAt (b / 2032)).pageIndex = true

/-- The bytes a read is asked for: no more than the buffer holds or the file
has left. -/
def readCount (obj : Yaffs2Object) (position size : UInt64) : Nat :=
  min size.toNat (obj.fileSize.toNat - position.toNat)

/-- A handle on a file. -/
structure OpenFile (vol : Yaffs2Volume) (ifile : Yaffs2IFile) (obj : Yaffs2Object) : Prop where
  deref : vol.deref ifile.oFile = .ok obj
  file : obj.type ≠ yaffs2TypeDir
  chunks : ChunksOK obj

section Content

variable {obj : Yaffs2Object} {page : UInt32 → PageData} {bad : UInt32 → Bool}

@[simp] theorem length_content (pos len : Nat) : (content obj page pos len).length = len := by
  rw [content, List.length_map, List.length_range]

theorem content_add (pos len more : Nat) :
    content obj page pos (len + more)
      = content obj page pos len ++ content obj page (pos + len) more := by
  rw [content, List.range_add, List.map_append, List.map_map]
  congr 1
  exact List.map_congr_left fun j _ => by rw [Function.comp_apply, Nat.add_assoc]

theorem take_content {pos len n : Nat} (h : n ≤ len) :
    (content obj page pos len).take n = content obj page pos n := by
  obtain ⟨more, rfl⟩ := Nat.exists_eq_add_of_le h
  rw [content_add, List.take_append_of_le_length (by rw [length_content]),
    List.take_of_length_le (by rw [length_content])]

theorem codeChunk_of_lt {b : Nat} (h : b / 2032 < 2 ^ 32) : codeChunk b = b / 2032 :=
  Nat.mod_eq_of_lt h

theorem codeByte_of_lt {b : Nat} (h : b / 2032 < 2 ^ 32) :
    codeByte obj page b = logicalByte obj page b := by
  rw [codeByte, codeChunk_of_lt h, logicalByte]

theorem codeFails_of_lt {b : Nat} (h : b / 2032 < 2 ^ 32) :
    CodeFails obj bad b ↔ ChunkFails obj bad b := by
  rw [CodeFails, codeChunk_of_lt h, ChunkFails]

end Content

/-! ## One read -/

/-- A read that delivers bytes. -/
structure Delivers {σ : Type} (ifile : Yaffs2IFile) (buffer bytes : List UInt8)
    (out : Yaffs2ReadOut σ) : Prop where
  status : out.status = .success
  bufferSize : out.bufferSize = some (UInt64.ofNat bytes.length)
  buffer : out.buffer = some (bytes ++ buffer.drop bytes.length)
  ifile : ∃ position, position.toNat = ifile.position.toNat + bytes.length
    ∧ out.ifile = some { ifile with position := position }

/-- A read that fails and changes nothing. -/
structure Refuses {σ : Type} (ifile : Yaffs2IFile) (size : UInt64) (buffer : List UInt8)
    (out : Yaffs2ReadOut σ) : Prop where
  status : out.status = .deviceError
  bufferSize : out.bufferSize = some size
  buffer : out.buffer = some buffer
  ifile : out.ifile = some ifile

/-- The law of one read: the bytes at the position, all that are asked for
unless the next one is on a failing page, or an error when the first one is. -/
structure ReadLaw {σ : Type} (obj : Yaffs2Object) (page : UInt32 → PageData)
    (bad : UInt32 → Bool) (ifile : Yaffs2IFile) (size : UInt64) (buffer : List UInt8)
    (out : Yaffs2ReadOut σ) : Prop where
  result : (∃ c ≤ readCount obj ifile.position size,
      Delivers ifile buffer (content obj page ifile.position.toNat c) out
        ∧ (c = readCount obj ifile.position size
          ∨ ChunkFails obj bad (ifile.position.toNat + c)))
    ∨ Refuses ifile size buffer out
  refused : out.status = .deviceError ↔
    0 < readCount obj ifile.position size ∧ ChunkFails obj bad ifile.position.toNat

section Read

variable {σ : Type} {nand : NandFlashProtocol σ} {page : UInt32 → PageData}
  {bad : UInt32 → Bool} {vol : Yaffs2Volume} {ifile : Yaffs2IFile} {obj : Yaffs2Object}
  {size : UInt64} {buffer : List UInt8}

/-- What the loop's end makes of a call. -/
def readResult (ifile : Yaffs2IFile) (size : UInt64) (out : EfiStatus × FileRead σ) :
    Yaffs2ReadOut σ :=
  if out.1.isError then
    ⟨out.1, some size, none, some out.2.buffer, some ifile, out.2.device⟩
  else
    ⟨.success, some out.2.copied, none, some out.2.buffer,
      some { ifile with position := ifile.position + out.2.copied }, out.2.device⟩

theorem readLength_of_fits (hpos : ifile.position < obj.fileSize)
    (hfits : ifile.position.toNat + size.toNat < 2 ^ 64) :
    (readLength obj.fileSize ifile.position size).toNat = readCount obj ifile.position size := by
  have hpos' := UInt64.lt_iff_toNat_lt.mp hpos
  have hsum : (ifile.position + size).toNat = ifile.position.toNat + size.toNat :=
    toNat_add_of_lt rfl rfl hfits
  rw [readLength, readCount]
  by_cases h : ifile.position + size > obj.fileSize
  · rw [if_pos h, UInt64.toNat_sub_of_le _ _ (UInt64.le_of_lt hpos)]
    rw [gt_iff_lt, UInt64.lt_iff_toNat_lt, hsum] at h
    omega
  · rw [if_neg h]
    rw [gt_iff_lt, UInt64.lt_iff_toNat_lt, hsum] at h
    omega

/-- A sum that wraps is not clipped. -/
theorem readLength_of_wraps (hpos : ifile.position < obj.fileSize)
    (hwraps : 2 ^ 64 ≤ ifile.position.toNat + size.toNat) :
    readLength obj.fileSize ifile.position size = size := by
  have hpos' := UInt64.lt_iff_toNat_lt.mp hpos
  have hsize := size.toNat_lt
  have hposition := ifile.position.toNat_lt
  rw [readLength, if_neg]
  rw [gt_iff_lt, UInt64.lt_iff_toNat_lt, UInt64.toNat_add]
  omega

theorem readLength_le (hpos : ifile.position < obj.fileSize) :
    (readLength obj.fileSize ifile.position size).toNat ≤ size.toNat := by
  rcases Nat.lt_or_ge (ifile.position.toNat + size.toNat) (2 ^ 64) with hfits | hwraps
  · rw [readLength_of_fits hpos hfits]
    exact Nat.min_le_left _ _
  · rw [readLength_of_wraps hpos hwraps]

/-- A read at or past the end of the file. -/
theorem yaffs2Read_past {epochToEfiTime : UInt64 → EfiTime → EfiTime}
    (hfile : OpenFile vol ifile obj) (hpos : obj.fileSize ≤ ifile.position) (n : σ) :
    yaffs2Read nand epochToEfiTime vol (some ifile) (some size) (some buffer) n
      = .ok ⟨.success, some 0, none, some buffer, some ifile, n⟩ := by
  simp only [yaffs2Read, hfile.deref, ok_bind, if_neg hfile.file, yaffs2ReadFile,
    Option.isNone_some, Bool.false_eq_true, false_and, if_false, ge_iff_le, if_pos hpos]

/-- A read inside the file is its loop. -/
theorem yaffs2Read_loop (epochToEfiTime : UInt64 → EfiTime → EfiTime)
    (hfile : OpenFile vol ifile obj) (hserves : Serves nand page bad)
    (hpos : ifile.position < obj.fileSize) (hbuffer : size.toNat ≤ buffer.length) (n : σ) :
    ∃ out, yaffs2Read nand epochToEfiTime vol (some ifile) (some size) (some buffer) n
        = .ok (readResult ifile size out)
      ∧ LoopEnd obj page bad ifile.position (readLength obj.fileSize ifile.position size) buffer
          out := by
  obtain ⟨out, hrun, hend⟩ := readFileLoop_spec ifile.position hserves hfile.chunks
    (Nat.le_trans (readLength_le hpos) hbuffer) n
  refine ⟨out, ?_, hend⟩
  simp only [yaffs2Read, hfile.deref, ok_bind, if_neg hfile.file, yaffs2ReadFile,
    Option.isNone_some, Bool.false_eq_true, false_and, if_false, ge_iff_le,
    if_neg (UInt64.not_le.mpr hpos), Option.getD_some, hrun, Option.map_some, readResult]
  split
  · rfl
  · rfl

/-- A read past the end delivers nothing. -/
theorem delivers_nothing (n : σ) :
    Delivers ifile buffer [] ⟨.success, some 0, none, some buffer, some ifile, n⟩ :=
  ⟨rfl, rfl, rfl, ifile.position, rfl, rfl⟩

/-- What the loop leaves when the clipping sum does not wrap. -/
theorem readResult_cases {out : EfiStatus × FileRead σ} (hpos : ifile.position < obj.fileSize)
    (hfits : ifile.position.toNat + size.toNat < 2 ^ 64)
    (hend : LoopEnd obj page bad ifile.position
      (readLength obj.fileSize ifile.position size) buffer out) :
    (∃ c ≤ readCount obj ifile.position size,
        Delivers ifile buffer ((List.range c).map fun j =>
          codeByte obj page (ifile.position.toNat + j)) (readResult ifile size out)
        ∧ (c = readCount obj ifile.position size
          ∨ 0 < c ∧ c < readCount obj ifile.position size
            ∧ CodeFails obj bad (ifile.position.toNat + c))
        ∧ ∀ j < c, ¬ CodeFails obj bad (ifile.position.toNat + j))
      ∨ (Refuses ifile size buffer (readResult ifile size out)
        ∧ 0 < readCount obj ifile.position size
        ∧ CodeFails obj bad ifile.position.toNat) := by
  obtain ⟨status, st⟩ := out
  obtain ⟨⟨hle, hserved, stored, hlength, hbuffer, hbytes⟩, hstatus⟩ := hend
  have hlen := readLength_of_fits hpos hfits
  have hcount : readCount obj ifile.position size ≤ size.toNat := Nat.min_le_left _ _
  simp only at hle hserved hlength hbuffer hbytes hstatus
  rw [hlen] at hle hserved hbytes
  have hsum : (ifile.position + st.copied).toNat = ifile.position.toNat + st.copied.toNat :=
    toNat_add_of_lt rfl rfl (by omega)
  have hcode := hbytes (by omega)
  have hdelivers : status = .success → Delivers ifile buffer ((List.range st.copied.toNat).map
      fun j => codeByte obj page (ifile.position.toNat + j)) (readResult ifile size (status, st)) := by
    intro hsuccess
    have hres : readResult ifile size (status, st) = ⟨.success, some st.copied, none,
        some st.buffer, some { ifile with position := ifile.position + st.copied }, st.device⟩ := by
      rw [readResult, hsuccess]
      rfl
    rw [hres, ← hcode]
    refine ⟨rfl, ?_, ?_, _, ?_, rfl⟩
    · rw [hlength, UInt64.ofNat_toNat]
    · rw [hlength, hbuffer]
    · rw [hsum, hlength]
  rw [hsum] at hstatus
  rcases hstatus with ⟨hsuccess, hall⟩ | ⟨hfails, hlt, ⟨hsuccess, hsome⟩ | ⟨herror, hzero⟩⟩
  · refine .inl ⟨_, hle, hdelivers hsuccess, .inl ?_, hserved (by omega)⟩
    rw [← hlen, ← hall]
  · rw [UInt64.lt_iff_toNat_lt, hlen] at hlt
    exact .inl ⟨_, hle, hdelivers hsuccess, .inr ⟨UInt64.lt_iff_toNat_lt.mp hsome, hlt, hfails⟩,
      hserved (by omega)⟩
  · rw [hzero] at hlength hbuffer hfails hlt
    rw [UInt64.lt_iff_toNat_lt, hlen, UInt64.toNat_zero] at hlt
    obtain rfl := List.length_eq_zero_iff.mp hlength
    refine .inr ⟨⟨?_, ?_, ?_, ?_⟩, hlt, hfails⟩
    · rw [readResult, herror]
      rfl
    · rw [readResult, herror]
      rfl
    · rw [readResult, herror]
      exact congrArg some hbuffer
    · rw [readResult, herror]
      rfl

/-- The law of a read of a file whose chunk indices fit in 32 bits. -/
theorem yaffs2Read_readLaw (epochToEfiTime : UInt64 → EfiTime → EfiTime)
    (hfile : OpenFile vol ifile obj) (hsize : obj.fileSize.toNat ≤ 2032 * 2 ^ 32)
    (hserves : Serves nand page bad) (hfits : ifile.position.toNat + size.toNat < 2 ^ 64)
    (hbuffer : size.toNat ≤ buffer.length) (n : σ) :
    ∃ out, yaffs2Read nand epochToEfiTime vol (some ifile) (some size) (some buffer) n = .ok out
      ∧ ReadLaw obj page bad ifile size buffer out := by
  rcases UInt64.lt_or_le ifile.position obj.fileSize with hpos | hpos
  · obtain ⟨out, hrun, hend⟩ := yaffs2Read_loop epochToEfiTime hfile hserves hpos hbuffer n
    have hpos' := UInt64.lt_iff_toNat_lt.mp hpos
    have hcount : ifile.position.toNat + readCount obj ifile.position size
        ≤ obj.fileSize.toNat := by
      rw [readCount]
      omega
    have hsmall : ∀ b < obj.fileSize.toNat, b / 2032 < 2 ^ 32 := fun b hb => by omega
    refine ⟨_, hrun, ?_⟩
    rcases readResult_cases hpos hfits hend with
      ⟨c, hc, hdelivers, hall, hserved⟩ | ⟨hrefuses, hsome, hfails⟩
    · have hcontent : (List.range c).map (fun j => codeByte obj page (ifile.position.toNat + j))
          = content obj page ifile.position.toNat c :=
        List.map_congr_left fun j hj => codeByte_of_lt (hsmall _ (by
          have := List.mem_range.mp hj
          omega))
      rw [hcontent] at hdelivers
      refine ⟨.inl ⟨c, hc, hdelivers, ?_⟩, fun h => ?_, fun h => ?_⟩
      · rcases hall with hall | ⟨-, hlt, hfails⟩
        · exact .inl hall
        · exact .inr ((codeFails_of_lt (hsmall _ (by omega))).mp hfails)
      · rw [hdelivers.status] at h
        cases h
      · have hcode := (codeFails_of_lt (hsmall _ hpos')).mpr h.2
        rcases hall with hall | ⟨hzero, -, -⟩
        · exact absurd hcode (hserved 0 (by omega))
        · exact absurd hcode (hserved 0 hzero)
    · exact ⟨.inr hrefuses, fun _ => ⟨hsome, (codeFails_of_lt (hsmall _ hpos')).mp hfails⟩,
        fun _ => hrefuses.status⟩
  · refine ⟨_, yaffs2Read_past hfile hpos n, ?_⟩
    have hcount : readCount obj ifile.position size = 0 := by
      rw [readCount, Nat.sub_eq_zero_of_le (UInt64.le_iff_toNat_le.mp hpos), Nat.min_zero]
    refine ⟨.inl ⟨0, Nat.zero_le _, delivers_nothing n, .inl hcount.symm⟩, fun h => ?_, fun h => ?_⟩
    · cases h
    · rw [hcount] at h
      exact absurd h.1 (Nat.lt_irrefl 0)

/-! ## Sequences of reads -/

/-- What a call has put into the buffer. -/
def Yaffs2ReadOut.delivered (out : Yaffs2ReadOut σ) : List UInt8 :=
  match out.status, out.buffer, out.bufferSize with
  | .success, some buffer, some size => buffer.take size.toNat
  | _, _, _ => []

/-- Reads of any sizes from one handle on, each with faults of its own. -/
inductive Reads (σ : Type) (epochToEfiTime : UInt64 → EfiTime → EfiTime) (vol : Yaffs2Volume)
    (page : UInt32 → PageData) (start : Yaffs2IFile) : List UInt8 → Yaffs2IFile → Prop
  | none : Reads σ epochToEfiTime vol page start [] start
  | read {bytes : List UInt8} {file file' : Yaffs2IFile}
      (before : Reads σ epochToEfiTime vol page start bytes file)
      {nand : NandFlashProtocol σ} {bad : UInt32 → Bool} (hserves : Serves nand page bad)
      {size : UInt64} {buffer : List UInt8} {n : σ} {out : Yaffs2ReadOut σ}
      (hfits : file.position.toNat + size.toNat < 2 ^ 64) (hbuffer : size.toNat ≤ buffer.length)
      (h : yaffs2Read nand epochToEfiTime vol (some file) (some size) (some buffer) n = .ok out)
      (hfile : out.ifile = some file') :
      Reads σ epochToEfiTime vol page start (bytes ++ out.delivered) file'

theorem Delivers.delivered {bytes : List UInt8} {out : Yaffs2ReadOut σ}
    (h : Delivers ifile buffer bytes out) (hlen : bytes.length < 2 ^ 64) :
    out.delivered = bytes := by
  simp only [Yaffs2ReadOut.delivered, h.status, h.buffer, h.bufferSize]
  rw [toNat_ofNat_of_lt hlen, List.take_left]

theorem Refuses.delivered {out : Yaffs2ReadOut σ} (h : Refuses ifile size buffer out) :
    out.delivered = [] := by
  simp only [Yaffs2ReadOut.delivered, h.status]

/-- A sequence of reads delivers the content from its first position on. -/
theorem Reads.content {epochToEfiTime : UInt64 → EfiTime → EfiTime}
    (hfile : OpenFile vol ifile obj) (hsize : obj.fileSize.toNat ≤ 2032 * 2 ^ 32)
    {bytes : List UInt8} {file : Yaffs2IFile}
    (h : Reads σ epochToEfiTime vol page ifile bytes file) :
    file.position.toNat = ifile.position.toNat + bytes.length ∧ OpenFile vol file obj
      ∧ (bytes ≠ [] → file.position.toNat ≤ obj.fileSize.toNat)
      ∧ bytes = Ccr2004.content obj page ifile.position.toNat bytes.length := by
  induction h with
  | none => exact ⟨rfl, hfile, fun h => absurd rfl h, rfl⟩
  | @read bytes file file' before nand bad hserves size buffer n out hfits hbuffer h hout ih =>
      obtain ⟨hpos, hopen, hend, hbytes⟩ := ih
      obtain ⟨out', hrun, hlaw⟩ := yaffs2Read_readLaw epochToEfiTime hopen hsize hserves hfits
        hbuffer n
      obtain rfl : out' = out := Except.ok.inj (hrun.symm.trans h)
      rcases hlaw.result with ⟨c, hc, hdelivers, -⟩ | hrefuses
      · have hcount : c ≤ size.toNat := Nat.le_trans hc (Nat.min_le_left _ _)
        have hleft : c ≤ obj.fileSize.toNat - file.position.toNat :=
          Nat.le_trans hc (Nat.min_le_right _ _)
        rw [hdelivers.delivered (by rw [length_content]; have := size.toNat_lt; omega)]
        obtain ⟨position, hposition, hout'⟩ := hdelivers.ifile
        obtain rfl := Option.some.inj (hout'.symm.trans hout)
        rw [length_content] at hposition
        refine ⟨?_, ⟨hopen.deref, hopen.file, hopen.chunks⟩, fun hne => ?_, ?_⟩
        · rw [List.length_append, length_content]
          simp only
          omega
        · simp only
          rcases Nat.eq_zero_or_pos c with rfl | hc'
          · rw [Nat.add_zero] at hposition
            rw [hposition]
            exact hend (by simpa [Ccr2004.content] using hne)
          · omega
        · rw [List.length_append, length_content, content_add, ← hbytes, hpos]
      · rw [hrefuses.delivered, List.append_nil]
        obtain rfl := Option.some.inj (hrefuses.ifile.symm.trans hout)
        exact ⟨hpos, hopen, hend, hbytes⟩

/-- One read without faults delivers at least what any sequence does. -/
theorem Reads.one {epochToEfiTime : UInt64 → EfiTime → EfiTime}
    (hfile : OpenFile vol ifile obj) (hsize : obj.fileSize.toNat ≤ 2032 * 2 ^ 32)
    {bytes : List UInt8} {file : Yaffs2IFile}
    (h : Reads σ epochToEfiTime vol page ifile bytes file)
    (hserves : Serves nand page fun _ => false)
    (hfits : ifile.position.toNat + size.toNat < 2 ^ 64) (hbuffer : size.toNat ≤ buffer.length)
    (hlong : bytes.length ≤ size.toNat) (n : σ) :
    ∃ out, yaffs2Read nand epochToEfiTime vol (some ifile) (some size) (some buffer) n = .ok out
      ∧ out.status = .success ∧ bytes <+: out.delivered := by
  obtain ⟨hpos, -, hend, hbytes⟩ := h.content hfile hsize
  obtain ⟨out, hrun, hlaw⟩ := yaffs2Read_readLaw epochToEfiTime hfile hsize hserves hfits
    hbuffer n
  have hnever : ∀ b, ¬ ChunkFails obj (fun _ => false) b := fun b h => by cases h.2
  refine ⟨out, hrun, ?_⟩
  rcases hlaw.result with ⟨c, hc, hdelivers, hall⟩ | hrefuses
  · have hcount : c = readCount obj ifile.position size := hall.resolve_right (hnever _)
    have hsmall : c ≤ size.toNat := by
      rw [hcount]
      exact Nat.min_le_left _ _
    refine ⟨hdelivers.status, ?_⟩
    rw [hdelivers.delivered (by rw [length_content]; have := size.toNat_lt; omega)]
    have hle : bytes.length ≤ c := by
      by_cases hne : bytes = []
      · rw [hne]
        exact Nat.zero_le c
      · have hin := hend hne
        rw [hcount, readCount]
        omega
    rw [hbytes, ← take_content hle]
    exact List.take_prefix _ _
  · exact absurd (hlaw.refused.mp hrefuses.status).2 (hnever _)

end Read

/-- The read law, and what it gives for sequences of reads. -/
theorem yaffs2Read_law {σ : Type} (epochToEfiTime : UInt64 → EfiTime → EfiTime)
    {vol : Yaffs2Volume} {ifile : Yaffs2IFile} {obj : Yaffs2Object}
    (hfile : OpenFile vol ifile obj) (hsize : obj.fileSize.toNat ≤ 2032 * 2 ^ 32)
    (page : UInt32 → PageData) :
    (∀ (nand : NandFlashProtocol σ) bad size buffer n, Serves nand page bad →
      ifile.position.toNat + size.toNat < 2 ^ 64 → size.toNat ≤ buffer.length →
      ∃ out, yaffs2Read nand epochToEfiTime vol (some ifile) (some size) (some buffer) n = .ok out
        ∧ ReadLaw obj page bad ifile size buffer out)
    ∧ ∀ bytes file, Reads σ epochToEfiTime vol page ifile bytes file →
      bytes = content obj page ifile.position.toNat bytes.length
      ∧ file.position.toNat = ifile.position.toNat + bytes.length
      ∧ ∀ (nand : NandFlashProtocol σ) size buffer n, Serves nand page (fun _ => false) →
        ifile.position.toNat + size.toNat < 2 ^ 64 → size.toNat ≤ buffer.length →
        bytes.length ≤ size.toNat →
        ∃ out, yaffs2Read nand epochToEfiTime vol (some ifile) (some size) (some buffer) n
            = .ok out
          ∧ out.status = .success ∧ bytes <+: out.delivered :=
  ⟨fun _ _ _ _ n hserves hfits hbuffer => yaffs2Read_readLaw _ hfile hsize hserves hfits hbuffer n,
    fun _ _ h => ⟨(h.content hfile hsize).2.2.2, (h.content hfile hsize).1,
      fun _ _ _ n hserves hfits hbuffer hlong => h.one hfile hsize hserves hfits hbuffer hlong n⟩⟩

/-! ## A small file -/

/-- A file of three bytes in one chunk. -/
def smallFile : Yaffs2Object :=
  { Yaffs2Object.fresh 2 with
    type := yaffs2TypeFile
    fileSize := 3
    chunkCount := 1
    chunkAlloc := 1
    chunks := some [⟨7, 3, yaffs2SeqMin⟩] }

/-- A volume with one object in slot 2, and a handle on it. -/
def volumeOf (obj : Yaffs2Object) : Yaffs2Volume := ⟨some [none, none, some obj], 2, none⟩

def handleAt (position : UInt64) : Yaffs2IFile := ⟨position, some 2, none⟩

/-- A device whose pages all read the same. -/
def plainNand (page : PageData) : NandFlashProtocol Unit where
  pagesPerBlock := 64
  numBlocks := 1
  readPage _ n := (.ok page, n)
  readTags _ n := (.error .deviceError, n)
  readPageBody n := (.ok page, n)

theorem plainNand_serves (page : PageData) :
    Serves (plainNand page) (fun _ => page) fun _ => false := fun _ _ => .inr ⟨rfl, rfl⟩

theorem smallFile_open (position : UInt64) :
    OpenFile (volumeOf smallFile) (handleAt position) smallFile where
  deref := rfl
  file := by decide
  chunks :=
    { null := fun h => by cases h
      size := fun chunks h => by
        obtain rfl := Option.some.inj h
        rfl
      count := by decide }

/-- Two bytes of the file, from its second one on. -/
theorem yaffs2Read_law_small : ∃ out, yaffs2Read (plainNand fun _ => 0x41) (fun _ t => t)
      (volumeOf smallFile) (some (handleAt 1)) (some 16) (some (List.replicate 16 0)) () = .ok out
    ∧ ReadLaw smallFile (fun _ _ => 0x41) (fun _ => false) (handleAt 1) 16 (List.replicate 16 0)
        out :=
  (yaffs2Read_law _ (smallFile_open 1) (by decide) _).1 _ _ _ _ _ (plainNand_serves _) (by decide)
    (by decide)

end Ccr2004
