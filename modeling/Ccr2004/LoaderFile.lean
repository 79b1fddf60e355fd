import Ccr2004.YaffsListing
import Ccr2004.YaffsReadLaw

/-!
# Reading a package file

`ReadFileToBuffer` of `RouterOSLoader.c` opens a file, asks for its size,
allocates as much and reads once. The driver may answer a read with fewer
bytes and success: it does when a page fails after the first chunk. The
loader takes what it got for the file; `ReadFile` of the flash application
compares the two sizes.

So a file is read whole or not at all exactly when no page after the first
chunk fails without the first one failing too (`readsWhole_iff`). The read is
the law of `YaffsReadLaw` at position 0 for the size of the file
(`readWhole_cases`).
-/

namespace Ccr2004

/-- `AllocatePool`: nothing, or a buffer of the size with what is in it. -/
structure BufferPool where
  allocatePool : UInt64 → Option (List UInt8)
  length_eq : ∀ {size buffer}, allocatePool size = some buffer → buffer.length = size.toNat

/-- The status, `*FileData` and `*FileSize` if they are set, and the
device. -/
structure ReadFileOut (σ : Type) where
  status : EfiStatus
  fileData : Option (List UInt8)
  fileSize : Option UInt64
  device : σ

def efiFileModeRead : UInt64 := 0x0000000000000001

/-- `Info->FileSize`. -/
def infoFileSize : Option InfoRecord → Run UInt64
  | some (.file info) => .ok info.fileSize
  | _ => .error .nullDeref

/-- What is returned of the read. -/
def returnRead {σ : Type} (out : Yaffs2ReadOut σ) : ReadFileOut σ :=
  if out.status.isError then ⟨out.status, none, none, out.device⟩
  else ⟨.success, out.buffer, out.bufferSize, out.device⟩

section ReadFile

variable {σ : Type} (epochToEfiTime : UInt64 → EfiTime → EfiTime) (nand : NandFlashProtocol σ)

/-- What `ReadFileToBuffer` does with the open file. `infoAlloc` is whether
the record of the file can be allocated. -/
def readOpenFile (pool : BufferPool) (infoAlloc : Bool) (vol : Yaffs2Volume)
    (file : Option Yaffs2IFile) (n : σ) : Run (ReadFileOut σ) := do
  let (status, infoSize, _) ←
    yaffs2GetInfo epochToEfiTime nand vol file (some .fileInfo) (some 0) false
  if status ≠ .bufferTooSmall then .ok ⟨.deviceError, none, none, n⟩
  else if !infoAlloc then .ok ⟨.outOfResources, none, none, n⟩
  else
    let (status, _, info) ←
      yaffs2GetInfo epochToEfiTime nand vol file (some .fileInfo) infoSize true
    if status.isError then .ok ⟨status, none, none, n⟩
    else
      let readSize ← infoFileSize info
      match pool.allocatePool readSize with
      | none => .ok ⟨.outOfResources, none, none, n⟩
      | some buffer =>
          let out ← yaffs2Read nand epochToEfiTime vol file (some readSize) (some buffer) n
          .ok (returnRead out)

/-- `ReadFileToBuffer` on this driver. `handleAlloc` is whether the driver can
allocate the handle, `stack` what its path buffer holds. -/
def readFileToBuffer (pool : BufferPool) (handleAlloc infoAlloc : Bool) (fuel : Nat)
    (vol : Yaffs2Volume) (root : Yaffs2IFile) (path : List UInt16) (stack : List UInt8) (n : σ) :
    Run (ReadFileOut σ) := do
  let (status, slot) ← yaffs2Open fuel handleAlloc vol (some root) (some none) (some path)
    efiFileModeRead stack
  if status.isError then .ok ⟨status, none, none, n⟩
  else readOpenFile epochToEfiTime nand pool infoAlloc vol slot.join n

end ReadFile

/-! ## Opened files -/

/-- A handle that is opened is at the start of its object. -/
theorem yaffs2Open_success {fuel : Nat} {alloc : Bool} {vol : Yaffs2Volume}
    {this file : Option Yaffs2IFile} {newHandle : Option (Option Yaffs2IFile)}
    {fileName : Option (List UInt16)} {openMode : UInt64} {stack : List UInt8}
    (h : yaffs2Open fuel alloc vol this newHandle fileName openMode stack
      = .ok (.success, some file)) :
    ∃ opened, file = some opened ∧ opened.position = 0 := by
  rcases yaffs2Open_cases h with ⟨herr, -⟩ | ⟨-, target, opened, hfile, halloc⟩
  · exact absurd rfl herr
  obtain rfl := Option.some.inj hfile
  refine ⟨opened, rfl, ?_⟩
  rw [yaffs2AllocateIFile] at halloc
  split at halloc
  · cases halloc
  · obtain ⟨obj, -, halloc⟩ := bind_eq_ok.mp halloc
    obtain rfl := Option.some.inj (Except.ok.inj halloc)
    rfl

theorem object?_of_deref {vol : Yaffs2Volume} {p : ObjectPtr} {obj : Yaffs2Object}
    (h : vol.deref p = .ok obj) : ∃ id, p = some id ∧ vol.object? id = some obj := by
  cases p with
  | none => cases h
  | some id =>
      obtain ⟨slot, hslot, h⟩ := bind_eq_ok.mp h
      cases slot with
      | none => cases h
      | some obj' =>
          obtain rfl := Except.ok.inj h
          obtain ⟨table, htable, hget⟩ := Yaffs2Volume.slot_eq_ok.mp hslot
          refine ⟨id, rfl, ?_⟩
          rw [Yaffs2Volume.object?, htable]
          simp [hget]

/-- Linking leaves the chunk arrays as the scan made them. -/
theorem BuiltTree.chunksOK {vol : Yaffs2Volume} (h : BuiltTree vol) {id : UInt32}
    {obj : Yaffs2Object} (hobj : vol.object? id = some obj) : ChunksOK obj := by
  obtain ⟨scanned, fuel, hreached, hbuild, -⟩ := h
  obtain ⟨tree, pruned, hrun, -, -, -, hpruned, htree, -⟩ :=
    buildTree_spec hreached.untied (Nat.le_max_left loopLimit fuel)
  obtain rfl : tree = vol :=
    Except.ok.inj (hrun.symm.trans (buildTree_mono (Nat.le_max_right loopLimit fuel) hbuild))
  rw [htree, Option.map_eq_some_iff] at hobj
  obtain ⟨old, hold, rfl⟩ := hobj
  have hchunks := (hreached.scanned id old (keptObject_eq_some.mp hold).1).chunks
  exact ⟨hchunks.null, hchunks.size, hchunks.count⟩

/-! ## The read -/

section Read

variable {σ : Type} (nand : NandFlashProtocol σ) {page : UInt32 → PageData}
  {bad : UInt32 → Bool} {vol : Yaffs2Volume} {ifile : Yaffs2IFile} {obj : Yaffs2Object}
  {buffer : List UInt8}

/-- The first `c` bytes of a file as the code reads them. -/
def codeContent (obj : Yaffs2Object) (page : UInt32 → PageData) (c : Nat) : List UInt8 :=
  (List.range c).map (codeByte obj page)

@[simp] theorem length_codeContent (c : Nat) : (codeContent obj page c).length = c := by
  rw [codeContent, List.length_map, List.length_range]

theorem codeContent_eq_iff {c : Nat} :
    codeContent obj page c = content obj page 0 c
      ↔ ∀ b < c, codeByte obj page b = logicalByte obj page b := by
  simp only [codeContent, content, Nat.zero_add]
  constructor
  · intro h b hb
    exact List.map_inj_left.mp h b (List.mem_range.mpr hb)
  · exact fun h => List.map_congr_left fun b hb => h b (List.mem_range.mp hb)

/-- A read of all of a file: everything up to the first failing page, or an
error when that is the first one. -/
theorem readWhole_cases (epochToEfiTime : UInt64 → EfiTime → EfiTime)
    (hfile : OpenFile vol ifile obj) (hpos : ifile.position = 0) (hserves : Serves nand page bad)
    (hbuffer : buffer.length = obj.fileSize.toNat) (n : σ) :
    ∃ out, yaffs2Read nand epochToEfiTime vol (some ifile) (some obj.fileSize) (some buffer) n
        = .ok out
      ∧ ((∃ c ≤ obj.fileSize.toNat, Delivers ifile buffer (codeContent obj page c) out
          ∧ (c = obj.fileSize.toNat
            ∨ 0 < c ∧ c < obj.fileSize.toNat ∧ CodeFails obj bad c)
          ∧ ∀ b < c, ¬ CodeFails obj bad b)
        ∨ (Refuses ifile obj.fileSize buffer out ∧ CodeFails obj bad 0)) := by
  have hstart : ifile.position.toNat = 0 := by rw [hpos, UInt64.toNat_zero]
  rcases UInt64.lt_or_le ifile.position obj.fileSize with hlt | hle
  · obtain ⟨out, hrun, hend⟩ :=
      yaffs2Read_loop epochToEfiTime hfile hserves hlt (Nat.le_of_eq hbuffer.symm) n
    have hfits : ifile.position.toNat + obj.fileSize.toNat < 2 ^ 64 := by
      rw [hstart, Nat.zero_add]
      exact obj.fileSize.toNat_lt
    have hcount : readCount obj ifile.position obj.fileSize = obj.fileSize.toNat := by
      rw [readCount, hstart, Nat.sub_zero, Nat.min_self]
    refine ⟨_, hrun, ?_⟩
    have hcases := readResult_cases hlt hfits hend
    simp only [hcount, hstart, Nat.zero_add] at hcases
    rcases hcases with ⟨c, hc, hdelivers, hall, hserved⟩ | ⟨hrefuses, -, hfails⟩
    · exact .inl ⟨c, hc, hdelivers, hall, hserved⟩
    · exact .inr ⟨hrefuses, hfails⟩
  · have hzero : obj.fileSize.toNat = 0 := by
      have hle' := UInt64.le_iff_toNat_le.mp hle
      omega
    exact ⟨_, yaffs2Read_past hfile hle n, .inl ⟨0, Nat.zero_le _, delivers_nothing n,
      .inl hzero.symm, fun b hb => absurd hb (Nat.not_lt_zero b)⟩⟩

/-- What the loader makes of an open file: the size it asks for is the one
`GetInfo` gives, and it returns what the driver read. -/
theorem readOpenFile_run (epochToEfiTime : UInt64 → EfiTime → EfiTime) (hvol : VolumeOK vol)
    {target : UInt32} (hfile : ifile.oFile = some target) (hobj : vol.object? target = some obj)
    (pool : BufferPool) (n : σ) :
    (∃ info size, yaffs2GetInfo epochToEfiTime nand vol (some ifile) (some .fileInfo) (some size)
          true = .ok (.success, some size, some (.file info))
        ∧ info.fileSize = obj.fileSize)
      ∧ readOpenFile epochToEfiTime nand pool false vol (some ifile) n
        = .ok ⟨.outOfResources, none, none, n⟩
      ∧ readOpenFile epochToEfiTime nand pool true vol (some ifile) n =
        match pool.allocatePool obj.fileSize with
        | none => .ok ⟨.outOfResources, none, none, n⟩
        | some buffer =>
            yaffs2Read nand epochToEfiTime vol (some ifile) (some obj.fileSize) (some buffer) n
              >>= fun out => .ok (returnRead out) := by
  obtain ⟨nameLen, size, hpos, hinfo⟩ := getInfo_run epochToEfiTime nand hvol hfile hobj
  have hsmall : yaffs2GetInfo epochToEfiTime nand vol (some ifile) (some .fileInfo) (some 0) false
      = .ok (.bufferTooSmall, some size, none) := by
    rw [hinfo, writeInfo, if_pos hpos]
    rfl
  have hfull : yaffs2GetInfo epochToEfiTime nand vol (some ifile) (some .fileInfo) (some size) true
      = .ok (.success, some size, some (.file (fileInfo epochToEfiTime obj nameLen size))) := by
    rw [hinfo, writeInfo, if_neg (UInt64.lt_irrefl size)]
    rfl
  refine ⟨⟨_, size, hfull, rfl⟩, ?_, ?_⟩
  · rw [readOpenFile, hsmall]
    rfl
  · rw [readOpenFile, hsmall]
    simp only [ok_bind, ne_eq, not_true_eq_false, if_false, Bool.not_true, Bool.false_eq_true,
      hfull, EfiStatus.isError_success, infoFileSize]
    rfl

end Read

/-! ## Whole files -/

/-- A device that holds pages and fails on some of them. -/
structure FaultyNand (σ : Type) where
  nand : NandFlashProtocol σ
  page : UInt32 → PageData
  bad : UInt32 → Bool
  serves : Serves nand page bad

/-- A call of `ReadFileToBuffer` on a mounted volume. -/
structure LoaderCall (σ : Type) where
  vol : Yaffs2Volume
  built : BuiltTree vol
  root : Yaffs2IFile
  path : List UInt16
  device : FaultyNand σ
  state : σ
  epochToEfiTime : UInt64 → EfiTime → EfiTime
  pool : BufferPool
  handleAlloc : Bool
  infoAlloc : Bool
  stack : List UInt8
  fuel : Nat

namespace LoaderCall

variable {σ : Type} (call : LoaderCall σ)

def run : Run (ReadFileOut σ) :=
  readFileToBuffer call.epochToEfiTime call.device.nand call.pool call.handleAlloc call.infoAlloc
    call.fuel call.vol call.root call.path call.stack call.state

/-- The path opens as a file. -/
structure Opens (file : Yaffs2IFile) (obj : Yaffs2Object) : Prop where
  opened : yaffs2Open call.fuel call.handleAlloc call.vol (some call.root) (some none)
    (some call.path) efiFileModeRead call.stack = .ok (.success, some (some file))
  deref : call.vol.deref file.oFile = .ok obj
  isFile : obj.type ≠ yaffs2TypeDir

/-- A call that succeeds reports the size of the file and returns all of
it. -/
def ReadsWhole : Prop :=
  ∀ file obj, call.Opens file obj → ∀ out, call.run = .ok out → out.status = .success →
    ∃ info size,
      yaffs2GetInfo call.epochToEfiTime call.device.nand call.vol (some file) (some .fileInfo)
          (some size) true = .ok (.success, some size, some (.file info))
        ∧ out.fileSize = some info.fileSize
        ∧ out.fileData = some (content obj call.device.page 0 info.fileSize.toNat)

/-- Every chunk of the file is on a page that can be read, and is the chunk
that its 32-bit index reads. -/
def Readable (obj : Yaffs2Object) : Prop :=
  ∀ b < obj.fileSize.toNat, ¬ CodeFails obj call.device.bad b
    ∧ codeByte obj call.device.page b = logicalByte obj call.device.page b

/-- If the file gets as far as the read, its first page fails or none
does. -/
def FailsFirst : Prop :=
  ∀ file obj, call.Opens file obj → call.infoAlloc = true →
    (call.pool.allocatePool obj.fileSize).isSome = true →
    CodeFails obj call.device.bad 0 ∨ call.Readable obj

variable {call} {file : Yaffs2IFile} {obj : Yaffs2Object}

theorem Opens.openFile (h : call.Opens file obj) : OpenFile call.vol file obj := by
  obtain ⟨target, -, hobj⟩ := object?_of_deref h.deref
  exact ⟨h.deref, h.isFile, call.built.chunksOK hobj⟩

/-- An error and its cause, or a first part of the file that ends at its end
or at a failing page. -/
theorem Opens.run_cases (h : call.Opens file obj) :
    (∃ out, call.run = .ok out ∧ out.status ≠ .success
        ∧ (call.infoAlloc = true → (call.pool.allocatePool obj.fileSize).isSome = true →
          CodeFails obj call.device.bad 0))
      ∨ (call.infoAlloc = true ∧ (call.pool.allocatePool obj.fileSize).isSome = true
        ∧ ∃ c ≤ obj.fileSize.toNat, ∃ rest device,
          call.run = .ok ⟨.success, some (codeContent obj call.device.page c ++ rest),
            some (UInt64.ofNat c), device⟩
          ∧ rest.length = obj.fileSize.toNat - c
          ∧ (c = obj.fileSize.toNat
            ∨ 0 < c ∧ c < obj.fileSize.toNat ∧ CodeFails obj call.device.bad c)
          ∧ ∀ b < c, ¬ CodeFails obj call.device.bad b) := by
  obtain ⟨target, htarget, hobj⟩ := object?_of_deref h.deref
  obtain ⟨opened, hopened, hpos⟩ := yaffs2Open_success h.opened
  obtain rfl := Option.some.inj hopened
  obtain ⟨-, hnoInfo, hread⟩ := readOpenFile_run call.device.nand call.epochToEfiTime
    call.built.volumeOK htarget hobj call.pool call.state
  have hrun : call.run = readOpenFile call.epochToEfiTime call.device.nand call.pool
      call.infoAlloc call.vol (some file) call.state := by
    rw [run, readFileToBuffer, h.opened]
    rfl
  cases hinfo : call.infoAlloc with
  | false =>
      rw [hinfo, hnoInfo] at hrun
      exact .inl ⟨_, hrun, EfiStatus.noConfusion, fun hfalse => by cases hfalse⟩
  | true =>
      rw [hinfo, hread] at hrun
      cases hpool : call.pool.allocatePool obj.fileSize with
      | none =>
          rw [hpool] at hrun
          exact .inl ⟨_, hrun, EfiStatus.noConfusion, fun _ hnone => by cases hnone⟩
      | some buffer =>
          have hlen := call.pool.length_eq hpool
          obtain ⟨out, hcall, hcases⟩ := readWhole_cases call.device.nand call.epochToEfiTime
            h.openFile hpos call.device.serves hlen call.state
          rw [hpool] at hrun
          simp only [hcall, ok_bind] at hrun
          rcases hcases with ⟨c, hc, hdelivers, hall, hserved⟩ | ⟨hrefuses, hfails⟩
          · refine .inr ⟨rfl, rfl, c, hc, buffer.drop c, out.device, ?_, ?_, hall, hserved⟩
            · rw [hrun, returnRead, hdelivers.status, hdelivers.buffer, hdelivers.bufferSize,
                length_codeContent]
              rfl
            · rw [List.length_drop, hlen]
          · refine .inl ⟨_, hrun, ?_, fun _ _ => hfails⟩
            rw [returnRead, hrefuses.status]
            exact EfiStatus.noConfusion

theorem ReadsWhole.failsFirst (h : call.ReadsWhole) : call.FailsFirst := by
  intro file obj hopens hinfo hpool
  rcases hopens.run_cases with ⟨-, -, -, hcause⟩ | ⟨-, -, c, hc, rest, device, hrun, hrest, -,
    hserved⟩
  · exact .inl (hcause hinfo hpool)
  · obtain ⟨target, htarget, hobj⟩ := object?_of_deref hopens.deref
    obtain ⟨info, size, hget, hsize, hdata⟩ := h file obj hopens _ hrun rfl
    obtain ⟨nameLen, size', rfl⟩ := getInfo_file call.built.volumeOK htarget hobj hget
    have hfileSize : UInt64.ofNat c = obj.fileSize := Option.some.inj hsize
    have hall : c = obj.fileSize.toNat := by
      have hlt := obj.fileSize.toNat_lt
      rw [← hfileSize, toNat_ofNat_of_lt (by omega)]
    have hnil : rest = [] := List.length_eq_zero_iff.mp (by omega)
    have hcontent : codeContent obj call.device.page c = content obj call.device.page 0 c := by
      have hbytes := Option.some.inj hdata
      rw [hnil, List.append_nil] at hbytes
      rw [hbytes, hall]
      rfl
    rw [codeContent_eq_iff] at hcontent
    exact .inr fun b hb => ⟨hserved b (by omega), hcontent b (by omega)⟩

theorem FailsFirst.readsWhole (h : call.FailsFirst) : call.ReadsWhole := by
  intro file obj hopens out hout hsuccess
  obtain ⟨target, htarget, hobj⟩ := object?_of_deref hopens.deref
  obtain ⟨⟨info, size, hget, hsize⟩, -, -⟩ := readOpenFile_run call.device.nand
    call.epochToEfiTime call.built.volumeOK htarget hobj call.pool call.state
  rcases hopens.run_cases with ⟨out', hrun, herror, -⟩ | ⟨hinfo, hpool, c, hc, rest, device, hrun,
    hrest, hend, hserved⟩
  · obtain rfl := Except.ok.inj (hrun.symm.trans hout)
    exact absurd hsuccess herror
  · obtain rfl := Except.ok.inj (hrun.symm.trans hout)
    have hall : c = obj.fileSize.toNat := by
      rcases hend with hall | ⟨hsome, hlt, hfails⟩
      · exact hall
      · rcases h file obj hopens hinfo hpool with hfirst | hreadable
        · exact absurd hfirst (hserved 0 hsome)
        · exact absurd hfails (hreadable c hlt).1
    have hcontent : codeContent obj call.device.page c = content obj call.device.page 0 c := by
      rw [codeContent_eq_iff]
      intro b hb
      rcases h file obj hopens hinfo hpool with hfirst | hreadable
      · exact absurd hfirst (hserved 0 (Nat.zero_lt_of_lt hb))
      · exact (hreadable b (hall ▸ hb)).2
    have hnil : rest = [] := List.length_eq_zero_iff.mp (by omega)
    refine ⟨info, size, hget, ?_, ?_⟩
    · rw [hsize, hall, UInt64.ofNat_toNat]
    · rw [hnil, List.append_nil, hcontent, hsize, hall]

/-- For a file whose chunk indices fit in 32 bits the condition is about the
failing pages only. -/
theorem readable_iff (hsmall : obj.fileSize.toNat ≤ 2032 * 2 ^ 32) :
    call.Readable obj ↔ ∀ b < obj.fileSize.toNat, ¬ ChunkFails obj call.device.bad b := by
  refine forall_congr' fun b => forall_congr' fun hb => ?_
  have hlt : b / 2032 < 2 ^ 32 := by omega
  rw [codeFails_of_lt hlt]
  exact and_iff_left (codeByte_of_lt hlt)

end LoaderCall

/-- A file is read whole or not at all exactly when, of the pages it is read
from, the first one fails or none does. -/
theorem readsWhole_iff {σ : Type} (call : LoaderCall σ) :
    call.ReadsWhole ↔ call.FailsFirst :=
  ⟨LoaderCall.ReadsWhole.failsFirst, LoaderCall.FailsFirst.readsWhole⟩

/-! ## A file of two chunks -/

/-- The root with a file `a` of 4064 bytes. -/
def twoChunkBlock : BlockContent where
  tags := fun i => [⟨0x1000, 1, 0x80000000, 0⟩, ⟨0x1000, 5, 0x80000000, 0⟩,
    ⟨0x1000, 5, 1, 2032⟩, ⟨0x1000, 5, 2, 2032⟩].getD i
      ⟨0xFFFFFFFF, 0xFFFFFFFF, 0xFFFFFFFF, 0xFFFFFFFF⟩
  data := fun i => [linkHeader 3 1 0 0 0,
    fun j => if j.val = 0x125 then 0x0F else linkHeader 1 1 0x61 0xE0 0 j].getD i fun _ => 0

/-- The volume mounted from this block. -/
theorem exists_twoChunkVolume :
    ∃ vol root a, BuiltTree vol
      ∧ vol.object? 1 = some root ∧ root.type = yaffs2TypeDir ∧ root.children = [5]
      ∧ vol.object? 5 = some a ∧ a.type = yaffs2TypeFile ∧ a.fileSize = 4064
        ∧ a.chars = [0x61] ∧ a.chunkCount = 2
        ∧ (a.chunkAt 0).pageIndex = 2 ∧ (a.chunkAt 1).pageIndex = 3 := by
  obtain ⟨st, hblocks, ⟨root, hroot, hdir⟩, ⟨a, ha, haFields⟩, hchildren⟩ : ∃ st,
      scanBlocks (storedNand 4 twoChunkBlock) noFailure ⟨0, .empty, 0, 0, []⟩ = .ok st
        ∧ (∃ root, survivor st.volume 1 = some root ∧ root.type = yaffs2TypeDir)
        ∧ (∃ a, survivor st.volume 5 = some a
          ∧ (a.type, a.fileSize, a.chars, a.chunkCount, (a.chunkAt 0).pageIndex,
              (a.chunkAt 1).pageIndex) = (yaffs2TypeFile, 4064, [0x61], 2, 2, 3))
        ∧ (((List.range (st.volume.maxObjId.toNat + 1)).map UInt32.ofNat).filter fun i =>
          (survivor st.volume i).isSome && i != 1
            && (namedParent st.volume i).getD 1 == 1) = [5] :=
    ⟨_, rfl, ⟨_, rfl, rfl⟩, ⟨_, rfl, by decide +kernel⟩, by decide +kernel⟩
  obtain ⟨vol, pruned, hbuilt, hfrom⟩ := exists_built hblocks (by rw [hroot]; rfl)
  have hlist := hfrom.childList_eq (by rw [hroot]; rfl) (st.volume.maxObjId.toNat + 1) 1
  rw [hchildren] at hlist
  have hat : ∀ {i o}, survivor st.volume i = some o →
      vol.object? i = some (tied pruned (st.volume.maxObjId.toNat + 1) i o) :=
    fun ho => hfrom.object?_eq_some.mpr ⟨_, ho, rfl⟩
  simp only [Prod.mk.injEq] at haFields
  exact ⟨vol, _, _, hbuilt, hat hroot, hdir, hlist, hat ha, haFields.1, haFields.2.1,
    haFields.2.2.1, haFields.2.2.2.1, haFields.2.2.2.2.1, haFields.2.2.2.2.2⟩

/-- A device whose page 3 cannot be read. -/
def lastPageFails : FaultyNand Unit where
  nand :=
    { pagesPerBlock := 4
      numBlocks := 1
      readPage := fun idx n => (if idx = 3 then .error .deviceError else .ok fun _ => 0x41, n)
      readTags := fun _ n => (.error .deviceError, n)
      readPageBody := fun n => (.ok fun _ => 0x41, n) }
  page := fun _ _ => 0x41
  bad := fun idx => idx == 3
  serves := fun idx _ => by
    by_cases h : idx = 3
    · exact .inl ⟨by simp [h], .deviceError, if_pos h⟩
    · exact .inr ⟨by simp [h], if_neg h⟩

/-- The first chunk is taken for the file. -/
theorem not_readsWhole_twoChunks :
    ∃ (call : LoaderCall Unit) (file : Yaffs2IFile) (obj : Yaffs2Object),
      call.Opens file obj ∧ obj.fileSize = 4064 ∧ call.device = lastPageFails
        ∧ ¬ call.ReadsWhole := by
  obtain ⟨vol, root, a, hbuilt, hroot, hdir, hchildren, ha, htype, hsize, hname, hcount, hfirst,
    hsecond⟩ := exists_twoChunkVolume
  have hok := hbuilt.volumeOK
  have hfile : a.type ≠ yaffs2TypeDir := by rw [htype]; decide
  have hunique : ∀ i ∈ root.children,
      (vol.object? i).map Yaffs2Object.chars = some a.chars → i = 5 := by
    rw [hchildren]
    simp
  have hopens : openedBy vol 1 5 a.chars = some 5 := by
    rw [openedBy, hname, if_neg (by decide), followHardlinks_stop ha (by rw [htype]; decide)]
  have hopen := open_child_run hok hroot hdir (by simp [hchildren]) ha hunique
    (by rw [hname]; decide) (by rw [hname]; decide) (by rw [hname]; decide)
    (rfl : Yaffs2IFile.oFile ⟨0, some 1, none⟩ = some 1)
    (by decide : efiFileModeRead &&& efiFileModeWrite = 0) (by decide) true none []
    (Nat.le_refl 512)
  rw [hopens, finishOpen, yaffs2AllocateIFile_eq hok ha, if_neg hfile] at hopen
  let call : LoaderCall Unit :=
    { vol := vol
      built := hbuilt
      root := ⟨0, some 1, none⟩
      path := a.chars
      device := lastPageFails
      state := ()
      epochToEfiTime := fun _ t => t
      pool := ⟨fun size => some (List.replicate size.toNat 0), fun h => by
        obtain rfl := Option.some.inj h
        exact List.length_replicate⟩
      handleAlloc := true
      infoAlloc := true
      stack := []
      fuel := 512 }
  have hcall : call.Opens ⟨0, some 5, none⟩ a := ⟨hopen, hok.deref ha, hfile⟩
  refine ⟨call, _, a, hcall, hsize, rfl, fun hwhole => ?_⟩
  rcases hwhole.failsFirst _ a hcall rfl rfl with hfails | hreadable
  · have hpage : lastPageFails.bad (a.chunkAt 0).pageIndex = true := hfails.2
    rw [hfirst] at hpage
    exact absurd hpage (by decide)
  · have hlt : 2032 < a.fileSize.toNat := by rw [hsize]; decide
    refine (hreadable 2032 hlt).1 ⟨⟨?_, ?_⟩, ?_⟩
    · show 1 < a.chunkCount.toNat
      rw [hcount]
      decide
    · show (a.chunkAt 1).pageIndex ≠ yaffs2ChunkUnset
      rw [hsecond]
      decide
    · show lastPageFails.bad (a.chunkAt 1).pageIndex = true
      rw [hsecond]
      rfl

end Ccr2004
