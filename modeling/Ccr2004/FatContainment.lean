import Ccr2004.FatSizing

/-!
# Formatting stays inside the partition

The blocks of every run of `FormatFat` are a prefix of one list,
`formatBlocks`, whatever the writes and the allocations give
(`formatFat_run`). So containment is a property of that list, and
`formatBlocks_inside` ties it to the sizing.
-/

namespace Ccr2004

/-! ## The boot sector read back -/

def Bpb.read (b : List UInt8) : Bpb where
  jmpBoot := slice b 0 3
  oemName := slice b 3 8
  bytsPerSec := UInt16.ofNat (leNat (slice b 11 2))
  secPerClus := UInt8.ofNat (leNat (slice b 13 1))
  rsvdSecCnt := UInt16.ofNat (leNat (slice b 14 2))
  numFats := UInt8.ofNat (leNat (slice b 16 1))
  rootEntCnt := UInt16.ofNat (leNat (slice b 17 2))
  totSec16 := UInt16.ofNat (leNat (slice b 19 2))
  media := UInt8.ofNat (leNat (slice b 21 1))
  fatSz16 := UInt16.ofNat (leNat (slice b 22 2))
  secPerTrk := UInt16.ofNat (leNat (slice b 24 2))
  numHeads := UInt16.ofNat (leNat (slice b 26 2))
  hiddSec := readWord32 b 28
  totSec32 := readWord32 b 32

/-- The sector count a reader takes: the 16-bit field unless it is zero. -/
def Bpb.totalSectors (b : Bpb) : Nat :=
  if b.totSec16 = 0 then b.totSec32.toNat else b.totSec16.toNat

theorem slice_cons_of_lt {b : UInt8} {bs : List UInt8} {off n : Nat} (h : 0 < off) :
    slice (b :: bs) off n = slice bs (off - 1) n :=
  @slice_append_of_le UInt8 [b] bs off n h

theorem slice_cons_here (b : UInt8) (bs : List UInt8) : slice (b :: bs) 0 1 = [b] := rfl

/-- A boot sector gives back the fields it starts with. -/
theorem Bpb.read_bytes (b : Bpb) (hjmp : b.jmpBoot.length = 3) (hoem : b.oemName.length = 8)
    (post : List UInt8) : Bpb.read (b.bytes ++ post) = b := by
  cases b
  simp only at hjmp hoem
  simp [Bpb.read, Bpb.bytes, readWord32, slice_append_of_le, slice_append_here, slice_cons_of_lt,
    slice_cons_here, readByte, hjmp, hoem, readWord32_leBytes, readWord16_leBytes]

theorem Bpb.length_bytes (b : Bpb) (hjmp : b.jmpBoot.length = 3) (hoem : b.oemName.length = 8) :
    b.bytes.length = 36 := by
  simp only [Bpb.bytes, List.length_append, List.length_cons, length_leBytes, hjmp, hoem]

theorem fatBpb_lengths (blockSize : UInt32) (partSectors first : UInt64) (z : FatSizing) :
    (fatBpb blockSize partSectors first z).jmpBoot.length = 3
      ∧ (fatBpb blockSize partSectors first z).oemName.length = 8 := by
  rw [fatBpb]
  split
  · exact ⟨rfl, rfl⟩
  · exact ⟨rfl, rfl⟩

theorem length_bootSector (blockSize : UInt32) (partSectors first : UInt64) (z : FatSizing) :
    (bootSector blockSize partSectors first z).length = 512 := by
  obtain ⟨hjmp, hoem⟩ := fatBpb_lengths blockSize partSectors first z
  rw [bootSector, List.length_append, Bpb.length_bytes _ hjmp hoem]
  split
  · simp only [fat32Extension, volumeLabel, fat32Type, List.length_append, List.length_cons,
      List.length_nil, List.length_replicate, length_leBytes]
  · simp only [fat16Extension, volumeLabel, fat16Type, List.length_append, List.length_cons,
      List.length_nil, List.length_replicate, length_leBytes]

/-- The fields of the boot sector that `FormatFat` writes. -/
theorem read_bootSector (blockSize : UInt32) (partSectors first : UInt64) (z : FatSizing)
    (post : List UInt8) :
    Bpb.read (bootSector blockSize partSectors first z ++ post)
      = fatBpb blockSize partSectors first z := by
  obtain ⟨hjmp, hoem⟩ := fatBpb_lengths blockSize partSectors first z
  rw [bootSector, List.append_assoc, Bpb.read_bytes _ hjmp hoem]

/-! ## The blocks of a run -/

/-- A block and what is written to it. -/
def BlockWrite.block (w : BlockWrite) : UInt64 × List UInt8 :=
  (w.lba, w.data)

/-- The boot sector, its copy and the two FSInfo sectors. -/
def headBlocks (blockSize : UInt32) (partSectors first : UInt64) (z : FatSizing) :
    List (UInt64 × List UInt8) :=
  let boot := padded blockSize.toNat (bootSector blockSize partSectors first z)
  let info := padded blockSize.toNat (fsInfo z.totalClusters)
  if z.useFat32 then [(first, boot), (first + 6, boot), (first + 1, info), (first + 7, info)]
  else [(first, boot)]

/-- The root directory of a FAT16 volume, the root cluster of a FAT32 one. -/
def rootLbas (first : UInt64) (z : FatSizing) : List UInt64 :=
  let rootDirLba := first + z.rsvdSecCnt.toUInt64 + z.fatSz.toUInt64 + z.fatSz.toUInt64
  if z.useFat32
  then (List.range z.secPerClus.toNat).map fun j =>
    rootDirLba + z.rootDirSectors.toUInt64 + UInt64.ofNat j
  else (List.range z.rootDirSectors.toNat).map fun i => rootDirLba + UInt64.ofNat i

/-- The first sectors of the two FATs. -/
def fatHeadLbas (first : UInt64) (z : FatSizing) : List UInt64 :=
  [first + z.rsvdSecCnt.toUInt64, first + z.rsvdSecCnt.toUInt64 + z.fatSz.toUInt64]

/-- The other sectors of the two FATs. -/
def fatRestLbas (first : UInt64) (z : FatSizing) : List UInt64 :=
  (List.range' 1 (z.fatSz.toNat - 1)).flatMap fun i =>
    [first + z.rsvdSecCnt.toUInt64 + UInt64.ofNat i,
      first + z.rsvdSecCnt.toUInt64 + z.fatSz.toUInt64 + UInt64.ofNat i]

/-- The two FATs and the root directory. -/
def areaBlocks (blockSize : UInt32) (first : UInt64) (z : FatSizing) :
    List (UInt64 × List UInt8) :=
  let zero := List.replicate blockSize.toNat 0
  (fatHeadLbas first z).map (·, padded blockSize.toNat (fatHead z.useFat32))
    ++ ((fatRestLbas first z).map (·, zero) ++ (rootLbas first z).map (·, zero))

/-- What `FormatFat` writes when nothing fails, in order. -/
def formatBlocks (blockSize : UInt32) (partSectors first : UInt64) (z : FatSizing) :
    List (UInt64 × List UInt8) :=
  headBlocks blockSize partSectors first z ++ areaBlocks blockSize first z

theorem padded_of_le {blockSize : Nat} {bytes : List UInt8} (h : bytes.length ≤ blockSize) :
    padded blockSize bytes = bytes ++ List.replicate (blockSize - bytes.length) 0 := by
  rw [padded, List.take_of_length_le h]

theorem blockOf_padded {blockSize : UInt32} {bytes : List UInt8}
    (h : bytes.length ≤ blockSize.toNat) :
    blockOf blockSize bytes = .ok (padded blockSize.toNat bytes) := by
  rw [blockOf_ok h, padded_of_le h]

theorem writeBlocks_eq (env : FormatEnv) (lba : UInt64) (data : List UInt8)
    (log : List BlockWrite) :
    env.writeBlocks lba data log
      = (env.writeStatus log.length, log ++ [⟨lba, data, env.writeStatus log.length⟩]) := rfl

/-- Nothing fails. -/
def FormatEnv.Succeeds (env : FormatEnv) : Prop :=
  (∀ n, env.writeStatus n = .success) ∧ ∀ a, env.alloc a = true

/-- A run that writes these blocks in order, all of them when it ends with
success, and that ends so when nothing fails. -/
def Writes (env : FormatEnv) (blocks : List (UInt64 × List UInt8))
    (run : List BlockWrite → Run (EfiStatus × List BlockWrite)) : Prop :=
  ∀ log, ∃ status ws, run log = .ok (status, log ++ ws)
    ∧ ws.map BlockWrite.block <+: blocks
    ∧ (status = .success → ws.map BlockWrite.block = blocks)
    ∧ (env.Succeeds → status = .success)

namespace Writes

variable {env : FormatEnv} {blocks blocks' : List (UInt64 × List UInt8)}
  {run : List BlockWrite → Run (EfiStatus × List BlockWrite)}

theorem done (env : FormatEnv) : Writes env [] fun log => .ok (.success, log) := fun log =>
  ⟨.success, [], by rw [List.append_nil], List.prefix_rfl, fun _ => rfl, fun _ => rfl⟩

/-- An allocation comes before the run. -/
theorem alloc (a : FormatAlloc) (h : Writes env blocks run) :
    Writes env blocks fun log =>
      if !env.alloc a then .ok (.outOfResources, log) else run log := by
  intro log
  cases halloc : env.alloc a with
  | true => exact h log
  | false =>
      refine ⟨.outOfResources, [], ?_, List.nil_prefix, ?_, fun hs => ?_⟩
      · rw [List.append_nil]
        rfl
      · intro hstatus
        cases hstatus
      · rw [hs.2 a] at halloc
        cases halloc

/-- Writes whose status is not looked at come before the run. -/
theorem each (lbas : List UInt64) (data : List UInt8) (h : Writes env blocks run) :
    Writes env (lbas.map (·, data) ++ blocks) fun log =>
      run (env.writeEach lbas data log) := by
  induction lbas with
  | nil => exact h
  | cons lba rest ih =>
      intro log
      obtain ⟨status, ws, hrun, hpre, hall, hs⟩ := ih (env.writeBlocks lba data log).2
      refine ⟨status, ⟨lba, data, env.writeStatus log.length⟩ :: ws, ?_, ?_, ?_, hs⟩
      · refine hrun.trans ?_
        rw [writeBlocks_eq, List.append_assoc]
        rfl
      · exact List.cons_prefix_cons.mpr ⟨rfl, hpre⟩
      · intro hstatus
        exact congrArg _ (hall hstatus)

/-- A write whose failure ends the run comes before it. -/
theorem write (lba : UInt64) (data : List UInt8) (h : Writes env blocks run) :
    Writes env ((lba, data) :: blocks) fun log =>
      let (status, log) := env.writeBlocks lba data log
      if status.isError then .ok (status, log) else run log := by
  intro log
  cases hwrite : (env.writeStatus log.length).isError with
  | false =>
      obtain ⟨status, ws, hrun, hpre, hall, hs⟩ := each [lba] data h log
      refine ⟨status, ws, ?_, hpre, hall, hs⟩
      simp only [writeBlocks_eq, hwrite]
      exact hrun
  | true =>
      have hne := EfiStatus.isError_iff.mp hwrite
      refine ⟨env.writeStatus log.length, [⟨lba, data, env.writeStatus log.length⟩], ?_, ?_,
        fun hstatus => absurd hstatus hne, fun hs => hs.1 _⟩
      · simp only [writeBlocks_eq, hwrite]
        rfl
      · exact List.cons_prefix_cons.mpr ⟨rfl, List.nil_prefix⟩

end Writes

theorem length_fatHead (useFat32 : Bool) : (fatHead useFat32).length ≤ 12 := by
  cases useFat32 <;> simp [fatHead]

theorem writes_fatArea (env : FormatEnv) {blockSize : UInt32} (hB : 512 ≤ blockSize.toNat)
    (first : UInt64) (z : FatSizing) :
    Writes env (areaBlocks blockSize first z) (writeFatArea env blockSize first z) := by
  have hfit : (fatHead z.useFat32).length ≤ blockSize.toNat := by
    have hhead := length_fatHead z.useFat32
    omega
  have hrun : writeFatArea env blockSize first z = fun log =>
      if !env.alloc .fatSector then .ok (.outOfResources, log)
      else .ok (.success, env.writeEach (rootLbas first z) (List.replicate blockSize.toNat 0)
        (env.writeEach (fatRestLbas first z) (List.replicate blockSize.toNat 0)
          (env.writeEach (fatHeadLbas first z)
            (padded blockSize.toNat (fatHead z.useFat32)) log))) := by
    funext log
    unfold writeFatArea
    rw [blockOf_padded hfit]
    rfl
  have hroot := (Writes.done env).each (rootLbas first z)
    (List.replicate blockSize.toNat 0)
  rw [List.append_nil] at hroot
  rw [hrun]
  exact ((hroot.each (fatRestLbas first z) _).each (fatHeadLbas first z) _).alloc .fatSector

theorem length_fsInfo (totalClusters : UInt32) : (fsInfo totalClusters).length = 512 := by
  simp only [fsInfo, List.length_append, List.length_replicate, length_leBytes]

/-- The boot sectors, when what follows writes its blocks. -/
theorem writes_bootSectors {env : FormatEnv} {blocks : List (UInt64 × List UInt8)}
    {run : List BlockWrite → Run (EfiStatus × List BlockWrite)} (first : UInt64)
    (useFat32 : Bool) (sector : List UInt8) (h : Writes env blocks run) :
    Writes env ((first, sector) :: ((if useFat32 then [(first + 6, sector)] else []) ++ blocks))
      fun log =>
        let (status, log) := writeBootSectors env first useFat32 sector log
        if status.isError then .ok (status, log) else run log := by
  cases useFat32 with
  | false =>
      intro log
      obtain ⟨status, ws, hrun, hpost⟩ := h.write first sector log
      refine ⟨status, ws, ?_, hpost⟩
      rw [← hrun]
      unfold writeBootSectors
      simp only [writeBlocks_eq]
      by_cases hstatus : (env.writeStatus log.length).isError = true
      · simp [hstatus]
      · simp [hstatus]
  | true =>
      intro log
      obtain ⟨status, ws, hrun, hpost⟩ := (h.write (first + 6) sector).write first sector log
      refine ⟨status, ws, ?_, hpost⟩
      rw [← hrun]
      unfold writeBootSectors
      simp only [writeBlocks_eq]
      by_cases hstatus : (env.writeStatus log.length).isError = true
      · simp [hstatus]
      · simp [hstatus]

/-- Every run writes the blocks of the volume in order, and all of them when
it ends with success. -/
theorem writes_formatFat (env : FormatEnv) {blockSize : UInt32} (hB : 512 ≤ blockSize.toNat)
    (totalBlocks : UInt64) :
    Writes env (formatBlocks blockSize (partSectors blockSize totalBlocks)
        (fatFirstUsable blockSize) (fatSizing blockSize (partSectors blockSize totalBlocks)))
      (formatFat env blockSize totalBlocks) := by
  have hboot : (bootSector blockSize (partSectors blockSize totalBlocks)
      (fatFirstUsable blockSize)
      (fatSizing blockSize (partSectors blockSize totalBlocks))).length ≤ blockSize.toNat := by
    rw [length_bootSector]
    exact hB
  have hinfo : (fsInfo (fatSizing blockSize (partSectors blockSize totalBlocks)).totalClusters).length
      ≤ blockSize.toNat := by
    rw [length_fsInfo]
    exact hB
  have harea := writes_fatArea env hB (fatFirstUsable blockSize)
    (fatSizing blockSize (partSectors blockSize totalBlocks))
  unfold formatFat
  simp only [blockOf_padded hboot, blockOf_padded hinfo, ok_bind]
  generalize fatSizing blockSize (partSectors blockSize totalBlocks) = z at *
  cases hfat : z.useFat32 with
  | false =>
      have hrun := (writes_bootSectors (fatFirstUsable blockSize) false
        (padded blockSize.toNat (bootSector blockSize (partSectors blockSize totalBlocks)
          (fatFirstUsable blockSize) z)) harea).alloc .bootSector
      simp only [formatBlocks, headBlocks, hfat]
      exact hrun
  | true =>
      have hrun := (writes_bootSectors (fatFirstUsable blockSize) true
        (padded blockSize.toNat (bootSector blockSize (partSectors blockSize totalBlocks)
          (fatFirstUsable blockSize) z))
        (harea.each [fatFirstUsable blockSize + 1, fatFirstUsable blockSize + 7]
          (padded blockSize.toNat (fsInfo z.totalClusters)) |>.alloc .fsInfo)).alloc .bootSector
      simp only [formatBlocks, headBlocks, hfat]
      exact hrun

/-! ## Inside the partition -/

section Area

variable {first : UInt64} {z : FatSizing} {sectors : Nat}

theorem fatHeadLbas_inside (hone : z.rsvdSecCnt.toNat + 2 * z.fatSz.toNat + 1 ≤ sectors)
    (hlt : first.toNat + sectors ≤ 2 ^ 64) :
    ∀ lba ∈ fatHeadLbas first z, first.toNat + z.rsvdSecCnt.toNat ≤ lba.toNat
      ∧ lba.toNat < first.toNat + sectors := by
  have hstart := toNat_add_of_lt (a := first) rfl (UInt32.toNat_toUInt64 z.rsvdSecCnt) (by omega)
  have hstart' := toNat_add_of_lt hstart (UInt32.toNat_toUInt64 z.fatSz) (by omega)
  intro lba hlba
  simp only [fatHeadLbas, List.mem_cons, List.not_mem_nil, or_false] at hlba
  rcases hlba with rfl | rfl
  · omega
  · omega

theorem fatRestLbas_inside (hone : z.rsvdSecCnt.toNat + 2 * z.fatSz.toNat + 1 ≤ sectors)
    (hlt : first.toNat + sectors ≤ 2 ^ 64) :
    ∀ lba ∈ fatRestLbas first z, first.toNat + z.rsvdSecCnt.toNat ≤ lba.toNat
      ∧ lba.toNat < first.toNat + sectors := by
  have hstart := toNat_add_of_lt (a := first) rfl (UInt32.toNat_toUInt64 z.rsvdSecCnt) (by omega)
  have hstart' := toNat_add_of_lt hstart (UInt32.toNat_toUInt64 z.fatSz) (by omega)
  intro lba hlba
  simp only [fatRestLbas, List.mem_flatMap, List.mem_range'_1] at hlba
  obtain ⟨i, hi, hlba⟩ := hlba
  simp only [List.mem_cons, List.not_mem_nil, or_false] at hlba
  have hoff := toNat_ofNat_of_lt (show i < 2 ^ 64 by omega)
  have hfirst := toNat_add_of_lt hstart hoff (by omega)
  have hsecond := toNat_add_of_lt hstart' hoff (by omega)
  rcases hlba with rfl | rfl
  · omega
  · omega

theorem rootLbas_inside
    (hroot : z.useFat32 = true →
      z.rsvdSecCnt.toNat + 2 * z.fatSz.toNat + z.rootDirSectors.toNat + z.secPerClus.toNat
        ≤ sectors)
    (hdir : z.rsvdSecCnt.toNat + 2 * z.fatSz.toNat + z.rootDirSectors.toNat + 1 ≤ sectors)
    (hlt : first.toNat + sectors ≤ 2 ^ 64) :
    ∀ lba ∈ rootLbas first z, first.toNat + z.rsvdSecCnt.toNat ≤ lba.toNat
      ∧ lba.toNat < first.toNat + sectors := by
  have hstart := toNat_add_of_lt (a := first) rfl (UInt32.toNat_toUInt64 z.rsvdSecCnt) (by omega)
  have hstart' := toNat_add_of_lt hstart (UInt32.toNat_toUInt64 z.fatSz) (by omega)
  have hdirStart := toNat_add_of_lt hstart' (UInt32.toNat_toUInt64 z.fatSz) (by omega)
  have hdata := toNat_add_of_lt hdirStart (UInt32.toNat_toUInt64 z.rootDirSectors) (by omega)
  intro lba hlba
  unfold rootLbas at hlba
  by_cases hfat : z.useFat32 = true
  · rw [if_pos hfat] at hlba
    obtain ⟨j, hj, rfl⟩ := List.mem_map.mp hlba
    have hj := List.mem_range.mp hj
    have hroot := hroot hfat
    have hsum := toNat_add_of_lt hdata (toNat_ofNat_of_lt (show j < 2 ^ 64 by omega)) (by omega)
    omega
  · rw [if_neg hfat] at hlba
    obtain ⟨i, hi, rfl⟩ := List.mem_map.mp hlba
    have hi := List.mem_range.mp hi
    have hsum := toNat_add_of_lt hdirStart (toNat_ofNat_of_lt (show i < 2 ^ 64 by omega))
      (by omega)
    omega

theorem headBlocks_inside (blockSize : UInt32) (partSectors : UInt64)
    (hone : 1 ≤ sectors) (hfat32 : z.useFat32 = true → 8 ≤ sectors)
    (hlt : first.toNat + sectors ≤ 2 ^ 64) :
    ∀ b ∈ headBlocks blockSize partSectors first z,
      first.toNat ≤ b.1.toNat ∧ b.1.toNat < first.toNat + sectors := by
  intro b hb
  unfold headBlocks at hb
  by_cases hfat : z.useFat32 = true
  · have hsec := hfat32 hfat
    have h1 : (first + 1).toNat = first.toNat + 1 := toNat_add_of_lt rfl rfl (by omega)
    have h6 : (first + 6).toNat = first.toNat + 6 := toNat_add_of_lt rfl rfl (by omega)
    have h7 : (first + 7).toNat = first.toNat + 7 := toNat_add_of_lt rfl rfl (by omega)
    simp only [if_pos hfat, List.mem_cons, List.not_mem_nil, or_false] at hb
    rcases hb with rfl | rfl | rfl | rfl
    · dsimp only
      omega
    · dsimp only
      omega
    · dsimp only
      omega
    · dsimp only
      omega
  · simp only [if_neg hfat, List.mem_cons, List.not_mem_nil, or_false] at hb
    rw [hb]
    dsimp only
    omega

/-- The FATs and the root directory follow the reserved sectors. -/
theorem areaBlocks_inside (blockSize : UInt32) (hin : z.Inside sectors) (hshape : z.Shape)
    (hlt : first.toNat + sectors ≤ 2 ^ 64) :
    ∀ b ∈ areaBlocks blockSize first z, first.toNat + z.rsvdSecCnt.toNat ≤ b.1.toNat
      ∧ b.1.toNat < first.toNat + sectors := by
  have hclus := hshape.cluster
  have hsum := hin.clusters
  -- behind the FATs there is at least one more sector
  have hdir : z.rsvdSecCnt.toNat + 2 * z.fatSz.toNat + z.rootDirSectors.toNat + 1 ≤ sectors := by
    by_cases hfat : z.useFat32 = true
    · have hroot := hin.root hfat
      have hshape := hshape.fat32 hfat
      omega
    · have hcount := hshape.fat16 (by simpa using hfat)
      have hmul := Nat.mul_le_mul hcount hclus
      omega
  have hroot : z.useFat32 = true →
      z.rsvdSecCnt.toNat + 2 * z.fatSz.toNat + z.rootDirSectors.toNat + z.secPerClus.toNat
        ≤ sectors := by
    intro hfat
    have hroot := hin.root hfat
    have hshape := hshape.fat32 hfat
    omega
  intro b hb
  simp only [areaBlocks, List.mem_append, List.mem_map] at hb
  rcases hb with ⟨lba, hlba, rfl⟩ | ⟨lba, hlba, rfl⟩ | ⟨lba, hlba, rfl⟩
  · exact fatHeadLbas_inside (by omega) hlt lba hlba
  · exact fatRestLbas_inside (by omega) hlt lba hlba
  · exact rootLbas_inside hroot hdir hlt lba hlba

/-- The blocks of a volume whose sizing lies inside the partition. -/
theorem formatBlocks_inside (blockSize : UInt32) (partSectors : UInt64)
    (hin : z.Inside sectors) (hshape : z.Shape) (hlt : first.toNat + sectors ≤ 2 ^ 64) :
    ∀ b ∈ formatBlocks blockSize partSectors first z,
      first.toNat ≤ b.1.toNat ∧ b.1.toNat < first.toNat + sectors := by
  intro b hb
  rcases List.mem_append.mp hb with hhead | harea
  · have hone : 1 ≤ sectors := by
      have hsum := hin.clusters
      have hclus := hshape.cluster
      by_cases hfat : z.useFat32 = true
      · have hroot := hin.root hfat
        omega
      · have hmul := Nat.mul_le_mul (hshape.fat16 (by simpa using hfat)) hclus
        omega
    refine headBlocks_inside blockSize partSectors hone (fun hfat => ?_) hlt b hhead
    have hroot := hin.root hfat
    have hshape := hshape.fat32 hfat
    omega
  · obtain ⟨hlow, hhigh⟩ := areaBlocks_inside blockSize hin hshape hlt b harea
    exact ⟨by omega, hhigh⟩

/-- The last sector of the root cluster is written. -/
theorem root_mem_formatBlocks (blockSize : UInt32) (partSectors : UInt64) (hshape : z.Shape)
    (hfat : z.useFat32 = true) (hfirst : first.toNat < 2 ^ 32) :
    ∃ b ∈ formatBlocks blockSize partSectors first z,
      b.1.toNat = first.toNat + z.rsvdSecCnt.toNat + z.fatSz.toNat + z.fatSz.toNat
        + z.rootDirSectors.toNat + (z.secPerClus.toNat - 1) := by
  have hclus := hshape.cluster
  have hfatLt := z.fatSz.toNat_lt
  have hrsvd := z.rsvdSecCnt.toNat_lt
  have hdir := z.rootDirSectors.toNat_lt
  have hsize := z.secPerClus.toNat_lt
  have hstart := toNat_add_of_lt (a := first) rfl (UInt32.toNat_toUInt64 z.rsvdSecCnt) (by omega)
  have hstart' := toNat_add_of_lt hstart (UInt32.toNat_toUInt64 z.fatSz) (by omega)
  have hdirStart := toNat_add_of_lt hstart' (UInt32.toNat_toUInt64 z.fatSz) (by omega)
  have hdata := toNat_add_of_lt hdirStart (UInt32.toNat_toUInt64 z.rootDirSectors) (by omega)
  have hlast := toNat_add_of_lt hdata
    (toNat_ofNat_of_lt (show z.secPerClus.toNat - 1 < 2 ^ 64 by omega)) (by omega)
  refine ⟨(_, List.replicate blockSize.toNat 0), ?_, hlast⟩
  refine List.mem_append_right _ (List.mem_append_right _ (List.mem_append_right _ ?_))
  refine List.mem_map_of_mem ?_
  unfold rootLbas
  rw [if_pos hfat]
  exact List.mem_map.mpr ⟨z.secPerClus.toNat - 1, List.mem_range.mpr (by omega), rfl⟩

end Area

/-! ## The property -/

/-- The volume ends inside the partition, and in every run the boot sector
says its size and all blocks written lie in the usable range. -/
structure FatContained (blockSize : UInt32) (totalBlocks : UInt64) : Prop where
  clusters :
    let z := fatSizing blockSize (partSectors blockSize totalBlocks)
    z.rsvdSecCnt.toNat + 2 * z.fatSz.toNat + z.rootDirSectors.toNat
      + z.totalClusters.toNat * z.secPerClus.toNat ≤ (partSectors blockSize totalBlocks).toNat
  run : ∀ env log, ∃ status ws, formatFat env blockSize totalBlocks log = .ok (status, log ++ ws)
    ∧ (∀ w ∈ ws, fatFirstUsable blockSize ≤ w.lba ∧ w.lba ≤ fatLastUsable blockSize totalBlocks)
    ∧ (∀ w, ws.head? = some w →
      (Bpb.read w.data).totalSectors = (partSectors blockSize totalBlocks).toNat)

/-- The sizes with which that is so. `P` is the number of sectors of the
partition and `S` the size of a FAT32 cluster. -/
def FatSizes (blockSize : UInt32) (totalBlocks : UInt64) : Prop :=
  let S := if 32768 ≤ blockSize.toNat then 1 else 32768 / blockSize.toNat
  ∃ P, totalBlocks.toNat = P + (2 * (gptEntriesLbas blockSize).toNat + 3) ∧ P < 2 ^ 32
    ∧ (34 + S ≤ P ∨ 33 ≤ P ∧ 2 ^ 32 ≤ blockSize.toNat + 4 * (P - 32) + 7)

/-- The sector count of the boot sector is the low word of the real one. -/
theorem totalSectors_fatBpb (blockSize : UInt32) (partSectors first : UInt64) (z : FatSizing) :
    (fatBpb blockSize partSectors first z).totalSectors = partSectors.toNat % 2 ^ 32 := by
  have hword := UInt64.toNat_toUInt32 partSectors
  unfold fatBpb Bpb.totalSectors
  by_cases hfat : z.useFat32 = true
  · rw [if_pos hfat]
    exact hword
  · rw [if_neg hfat]
    by_cases hsmall : partSectors ≤ 0xFFFF
    · have hlt : partSectors.toNat ≤ 0xFFFF := UInt64.le_iff_toNat_le.mp hsmall
      have hhalf : partSectors.toUInt16.toNat = partSectors.toNat := by
        rw [UInt64.toNat_toUInt16, Nat.mod_eq_of_lt (by omega)]
      simp only [fat16Bpb, if_pos hsmall]
      by_cases hzero : partSectors.toUInt16 = 0
      · rw [if_pos hzero]
        rw [hzero] at hhalf
        rw [← hhalf]
        rfl
      · rw [if_neg hzero, hhalf, Nat.mod_eq_of_lt (by omega)]
    · simp only [fat16Bpb, if_neg hsmall]
      exact hword

theorem fatSizes_iff {blockSize : UInt32} {totalBlocks : UInt64} (hB : 512 ≤ blockSize.toNat)
    (h : (fatFirstUsable blockSize).toNat < (fatLastUsable blockSize totalBlocks).toNat) :
    FatSizes blockSize totalBlocks ↔
      (partSectors blockSize totalBlocks).toNat < 2 ^ 32
        ∧ (34 + (fat32SecPerClus blockSize).toNat ≤ (partSectors blockSize totalBlocks).toNat
          ∨ 33 ≤ (partSectors blockSize totalBlocks).toNat ∧ 2 ^ 32
            ≤ blockSize.toNat + 4 * ((partSectors blockSize totalBlocks).toNat - 32) + 7) := by
  have hlbas := gptEntriesLbas_le hB
  have hfirst := toNat_fatFirstUsable hlbas
  have hlast : (fatLastUsable blockSize totalBlocks).toNat = _ := toNat_fatLastUsable hlbas
  have hsum := toNat_partSectors (by omega) h
  have hT := totalBlocks.toNat_lt
  rw [toNat_fat32SecPerClus hB]
  constructor
  · rintro ⟨P, htotal, hP, hroom⟩
    obtain rfl : P = (partSectors blockSize totalBlocks).toNat := by omega
    exact ⟨hP, hroom⟩
  · rintro ⟨hP, hroom⟩
    exact ⟨_, by omega, hP, hroom⟩

theorem formatBlocks_cons (blockSize : UInt32) (sectors first : UInt64) (z : FatSizing) :
    ∃ rest, formatBlocks blockSize sectors first z
      = (first, padded blockSize.toNat (bootSector blockSize sectors first z)) :: rest := by
  cases hfat : z.useFat32 with
  | false =>
      simp only [formatBlocks, headBlocks, hfat]
      exact ⟨_, rfl⟩
  | true =>
      simp only [formatBlocks, headBlocks, hfat]
      exact ⟨_, rfl⟩

/-- The first block a run writes is the boot sector. -/
theorem firstBlock_sectors {blockSize : UInt32} {sectors first : UInt64} {z : FatSizing}
    {ws : List BlockWrite} {w : BlockWrite} (hB : 512 ≤ blockSize.toNat)
    (hpre : ws.map BlockWrite.block <+: formatBlocks blockSize sectors first z)
    (hw : ws.head? = some w) :
    (Bpb.read w.data).totalSectors = sectors.toNat % 2 ^ 32 := by
  obtain ⟨rest, hcons⟩ := formatBlocks_cons blockSize sectors first z
  cases ws with
  | nil => cases hw
  | cons w' ws' =>
      obtain rfl : w' = w := Option.some.inj hw
      rw [hcons] at hpre
      have hdata : w'.data = padded blockSize.toNat (bootSector blockSize sectors first z) :=
        congrArg Prod.snd (List.cons_prefix_cons.mp hpre).1
      rw [hdata, padded_of_le (by rw [length_bootSector]; exact hB), read_bootSector,
        totalSectors_fatBpb]

/-- A run in which nothing fails writes everything, so what holds of every
run holds of all the blocks. -/
theorem FatContained.blocks {blockSize : UInt32} {totalBlocks : UInt64}
    (hB : 512 ≤ blockSize.toNat) (h : FatContained blockSize totalBlocks) :
    (∀ b ∈ formatBlocks blockSize (partSectors blockSize totalBlocks)
        (fatFirstUsable blockSize) (fatSizing blockSize (partSectors blockSize totalBlocks)),
      b.1.toNat ≤ (fatLastUsable blockSize totalBlocks).toNat)
      ∧ (partSectors blockSize totalBlocks).toNat < 2 ^ 32 := by
  obtain ⟨status, ws, hrun, hpre, hall, hs⟩ :=
    writes_formatFat (.succeeding fun _ => 0) hB totalBlocks []
  obtain ⟨status', ws', hrun', hinside, hhead⟩ := h.run (.succeeding fun _ => 0) []
  rw [hrun] at hrun'
  obtain rfl : ws = ws' := congrArg Prod.snd (Except.ok.inj hrun')
  have hblocks := hall (hs ⟨fun _ => rfl, fun _ => rfl⟩)
  constructor
  · intro b hb
    rw [← hblocks] at hb
    obtain ⟨w, hw, rfl⟩ := List.mem_map.mp hb
    exact UInt64.le_iff_toNat_le.mp (hinside w hw).2
  · cases ws with
    | nil =>
        -- the boot sector at least is written
        obtain ⟨rest, hcons⟩ := formatBlocks_cons blockSize (partSectors blockSize totalBlocks)
          (fatFirstUsable blockSize) (fatSizing blockSize (partSectors blockSize totalBlocks))
        rw [hcons] at hblocks
        cases hblocks
    | cons w rest =>
        have hsectors := (hhead w rfl).symm.trans (firstBlock_sectors hB hpre rfl)
        rw [hsectors]
        exact Nat.mod_lt _ (by omega)

theorem fatContained_cond {blockSize : UInt32} {totalBlocks : UInt64}
    (hB : 512 ≤ blockSize.toNat)
    (hrange : (fatFirstUsable blockSize).toNat < (fatLastUsable blockSize totalBlocks).toNat) :
    FatContained blockSize totalBlocks ↔ FatSizes blockSize totalBlocks := by
  have hlbas := gptEntriesLbas_le hB
  have hfirst := toNat_fatFirstUsable hlbas
  have hsum := toNat_partSectors (by omega) hrange
  have hlast := (fatLastUsable blockSize totalBlocks).toNat_lt
  rw [fatSizes_iff hB hrange]
  constructor
  · intro hin
    obtain ⟨hblocks, hP⟩ := hin.blocks hB
    refine ⟨hP, (fatSizing_inside_iff hB hP).mp ⟨hin.clusters, fun hfat => ?_⟩⟩
    have hshape := fatSizing_shape hB hP
    obtain ⟨b, hb, hroot⟩ := root_mem_formatBlocks blockSize (partSectors blockSize totalBlocks)
      hshape hfat (by omega : (fatFirstUsable blockSize).toNat < 2 ^ 32)
    have hend := hblocks b hb
    have hclus := hshape.cluster
    have hdir := (hshape.fat32 hfat).2
    omega
  · rintro ⟨hP, hroom⟩
    have hin := (fatSizing_inside_iff hB hP).mpr hroom
    have hblocks := formatBlocks_inside blockSize (partSectors blockSize totalBlocks) hin
      (fatSizing_shape hB hP)
      (by omega : (fatFirstUsable blockSize).toNat + _ ≤ 2 ^ 64)
    refine ⟨hin.clusters, fun env log => ?_⟩
    obtain ⟨status, ws, hrun, hpre, _, _⟩ := writes_formatFat env hB totalBlocks log
    refine ⟨status, ws, hrun, fun w hw => ?_, fun w hw => ?_⟩
    · obtain ⟨hlow, hhigh⟩ := hblocks w.block (hpre.subset (List.mem_map_of_mem hw))
      unfold BlockWrite.block at hhigh
      dsimp only at hhigh
      rw [UInt64.le_iff_toNat_le, UInt64.le_iff_toNat_le]
      exact ⟨hlow, by omega⟩
    · rw [firstBlock_sectors hB hpre hw, Nat.mod_eq_of_lt hP]

/-- Exactly when formatting stays inside the partition. -/
theorem fatContained_iff {env : FormatEnv} {blockSize : UInt32} {totalBlocks : UInt64}
    {written log : List BlockWrite} (hB : 512 ≤ blockSize)
    (hgpt : writeGpt env blockSize totalBlocks written = .ok (.success, log)) :
    FatContained blockSize totalBlocks ↔ FatSizes blockSize totalBlocks :=
  fatContained_cond (UInt32.le_iff_toNat_le.mp hB) (first_lt_last_of_writeGpt hgpt)

theorem writeGpt_fits (crc : List UInt8 → UInt32) {blockSize : UInt32} {totalBlocks : UInt64}
    (hB : 512 ≤ blockSize.toNat)
    (hfit : ¬ fatLastUsable blockSize totalBlocks ≤ fatFirstUsable blockSize) :
    ∃ written log, writeGpt (.succeeding crc) blockSize totalBlocks written
      = .ok (.success, log) := by
  obtain ⟨chunks, _, _, hrun⟩ := writeGpt_run crc hB hfit []
  exact ⟨_, _, hrun⟩

theorem fatContained_oneMebibyte : FatContained 512 2048 := by
  obtain ⟨written, log, hgpt⟩ := writeGpt_fits (fun _ => 0)
    (show 512 ≤ (512 : UInt32).toNat from Nat.le_refl _)
    (show ¬ fatLastUsable 512 2048 ≤ fatFirstUsable 512 by decide)
  exact (fatContained_iff (by decide) hgpt).mpr ⟨1981, by decide, by decide, .inl (by decide)⟩

/-- 164 blocks of 512 bytes: the last sector of the root cluster is the first
of the backup entries. -/
theorem fatContained_tooSmall_fails :
    (∃ written log, writeGpt (.succeeding fun _ => 0) 512 164 written = .ok (.success, log))
      ∧ ¬ FatContained 512 164 := by
  constructor
  · exact writeGpt_fits (fun _ => 0) (show 512 ≤ (512 : UInt32).toNat from Nat.le_refl _)
      (show ¬ fatLastUsable 512 164 ≤ fatFirstUsable 512 by decide)
  · intro h
    have hfat : (fatSizing 512 (partSectors 512 164)).useFat32 = true := by decide
    have hP : (partSectors 512 164).toNat < 2 ^ 32 := by decide
    obtain ⟨b, hb, hroot⟩ := root_mem_formatBlocks 512 (partSectors 512 164)
      (fatSizing_shape (show 512 ≤ (512 : UInt32).toNat from Nat.le_refl _) hP) hfat
      (show (fatFirstUsable 512).toNat < 2 ^ 32 by decide)
    have hend := (h.blocks (Nat.le_refl _)).1 b hb
    rw [hroot] at hend
    revert hend
    decide

end Ccr2004
