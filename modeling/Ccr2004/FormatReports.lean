import Ccr2004.FormatSteps

/-!
# What formatting reports

Two properties of `FormatBlockDevice` read off its steps. A success stands for
every write that is checked, and the FSInfo sectors, the FATs and the root
directory are not (`reportsWrites_iff`). A device that is refused for its
size is left as it was, unless the refusal is that of `WriteGpt`, which comes
after the protective MBR is written (`leavesIntact_iff`).
-/

namespace Ccr2004

/-! ## Every failed write is reported -/

section Reports

/-- A run that ends with success had no write that failed. -/
def ReportsWrites (env : FormatEnv) (target : Except EfiStatus BlockMedia) : Prop :=
  ∀ log, formatBlockDevice env target = .ok (.success, log) → ∀ w ∈ log, w.status = .success

/-- The MBR, both copies of the GPT and the boot sectors. -/
def BlockMedia.checkedWrites (media : BlockMedia) : Nat :=
  3 + 2 * ((128 * 128 + (media.blockSize.toNat - 1)) / media.blockSize.toNat)
    + if media.sizing.useFat32 then 2 else 1

/-- These, the FSInfo sectors, the FATs and the root directory. -/
def BlockMedia.issuedWrites (media : BlockMedia) : Nat :=
  media.checkedWrites + (2 + 2 * (media.sizing.fatSz.toNat - 1))
    + if media.sizing.useFat32 then 2 + media.sizing.secPerClus.toNat
      else media.sizing.rootDirSectors.toNat

/-- Nothing that is checked goes wrong: the sizes, the allocations and the
first writes. -/
structure FormatProceeds (env : FormatEnv) (media : BlockMedia) : Prop where
  accepted : media.Accepted
  alloc : ∀ a, (a = .fsInfo → media.sizing.useFat32 = true) → env.alloc a = true
  checked : ∀ n < media.checkedWrites, env.writeStatus n = .success

/-- When nothing that is checked goes wrong, nothing else does. -/
def LateWritesSucceed (env : FormatEnv) (media : BlockMedia) : Prop :=
  FormatProceeds env media →
    ∀ n, media.checkedWrites ≤ n → n < media.issuedWrites → env.writeStatus n = .success

variable (crc : List UInt8 → UInt32) (media : BlockMedia) (mbr : List UInt8)
  (chunks : List (List UInt8))

theorem bootSteps_checked (first : UInt64) (useFat32 : Bool) (sector : List UInt8) :
    ∀ lba data, .write lba data false ∉ bootSteps first useFat32 sector := by
  intro lba data
  cases useFat32 with
  | false => simp [bootSteps]
  | true => simp [bootSteps]

theorem checkedSteps_checked :
    ∀ lba data, .write lba data false ∉ checkedSteps crc media mbr chunks := by
  intro lba data hmem
  simp only [checkedSteps, gptSteps, List.mem_append, List.mem_cons, List.not_mem_nil, or_false,
    reduceCtorEq, FormatStep.write.injEq, Bool.false_eq_true, and_false, false_or] at hmem
  rcases hmem with (hmem | hmem) | hmem
  · exact entrySteps_checked _ _ _ _ hmem
  · exact entrySteps_checked _ _ _ _ hmem
  · exact bootSteps_checked _ _ _ _ _ hmem

theorem allocs_checkedSteps : FormatStep.allocs (checkedSteps crc media mbr chunks)
    = [.mbr, .entries, .header, .primaryBlock, .backupBlock, .bootSector] := by
  have hboot : ∀ first useFat32 sector, FormatStep.allocs (bootSteps first useFat32 sector) = [] := by
    intro first useFat32 sector
    cases useFat32 with
    | false => rfl
    | true => rfl
  simp only [checkedSteps, gptSteps, FormatStep.allocs_append, FormatStep.allocs,
    allocs_entrySteps, hboot]
  rfl

theorem writes_checkedSteps
    (hcount : chunks.length = (128 * 128 + (media.blockSize.toNat - 1)) / media.blockSize.toNat) :
    FormatStep.writes (checkedSteps crc media mbr chunks) = media.checkedWrites := by
  have hboot : ∀ first useFat32 sector,
      FormatStep.writes (bootSteps first useFat32 sector) = if useFat32 then 2 else 1 := by
    intro first useFat32 sector
    cases useFat32 with
    | false => rfl
    | true => rfl
  simp only [checkedSteps, gptSteps, FormatStep.writes_append, FormatStep.writes,
    writes_entrySteps, hboot, hcount, BlockMedia.checkedWrites]
  omega

theorem ofBlocks_unchecked (blocks : List (UInt64 × List UInt8)) :
    ∀ lba data, .write lba data true ∉ FormatStep.ofBlocks false blocks := by
  intro lba data hmem
  obtain ⟨b, -, hb⟩ := List.mem_map.mp hmem
  cases hb

theorem volumeSteps_unchecked (blockSize : UInt32) (first : UInt64) (z : FatSizing) :
    ∀ lba data, .write lba data true ∉ volumeSteps blockSize first z := by
  intro lba data hmem
  rw [volumeSteps] at hmem
  split at hmem
  · simp only [List.mem_cons, List.mem_append, reduceCtorEq, false_or] at hmem
    rcases hmem with hmem | hmem
    · exact ofBlocks_unchecked _ _ _ hmem
    · exact ofBlocks_unchecked _ _ _ hmem
  · simp only [List.mem_cons, reduceCtorEq, false_or] at hmem
    exact ofBlocks_unchecked _ _ _ hmem

theorem allocs_volumeSteps (blockSize : UInt32) (first : UInt64) (z : FatSizing) :
    FormatStep.allocs (volumeSteps blockSize first z)
      = if z.useFat32 then [.fsInfo, .fatSector] else [.fatSector] := by
  rw [volumeSteps]
  split
  · simp only [FormatStep.allocs, FormatStep.allocs_append, FormatStep.allocs_ofBlocks,
      List.nil_append]
  · simp only [FormatStep.allocs, FormatStep.allocs_ofBlocks]

theorem length_areaBlocks (blockSize : UInt32) (first : UInt64) (z : FatSizing) :
    (areaBlocks blockSize first z).length = 2 + 2 * (z.fatSz.toNat - 1)
      + if z.useFat32 then z.secPerClus.toNat else z.rootDirSectors.toNat := by
  have hroot : (rootLbas first z).length
      = if z.useFat32 then z.secPerClus.toNat else z.rootDirSectors.toNat := by
    rw [rootLbas]
    split <;> simp
  have hrest : (fatRestLbas first z).length = 2 * (z.fatSz.toNat - 1) := by
    simp [fatRestLbas, List.length_flatMap]
    omega
  simp only [areaBlocks, List.length_append, List.length_map, hroot, hrest, fatHeadLbas,
    List.length_cons, List.length_nil]
  omega

theorem writes_volumeSteps (blockSize : UInt32) (first : UInt64) (z : FatSizing) :
    FormatStep.writes (volumeSteps blockSize first z) = 2 + 2 * (z.fatSz.toNat - 1)
      + if z.useFat32 then 2 + z.secPerClus.toNat else z.rootDirSectors.toNat := by
  rw [volumeSteps]
  split
  · rename_i hfat
    simp only [FormatStep.writes, FormatStep.writes_append, FormatStep.writes_ofBlocks,
      length_areaBlocks, List.length_map, List.length_cons, List.length_nil, if_pos hfat]
    omega
  · rename_i hfat
    simp only [FormatStep.writes, FormatStep.writes_ofBlocks, length_areaBlocks, if_neg hfat]

end Reports

section Success

variable {env : FormatEnv} {media : BlockMedia}

/-- A run on an accepted device ends with success exactly when nothing that is
checked goes wrong, and has then issued all the writes. -/
theorem formatBlockDevice_success (env : FormatEnv) (h : media.Accepted) :
    ∃ steps, FormatStep.writes steps = media.issuedWrites ∧ ∀ log,
      formatBlockDevice env (.ok media) = .ok (.success, log)
        ↔ FormatProceeds env media ∧ log = env.recorded 0 steps := by
  obtain ⟨mbr, chunks, hcount, hrun⟩ := formatBlockDevice_performs env h
  have hwrites := writes_checkedSteps env.calculateCrc32 media mbr chunks hcount
  have hpasses : env.Passes 0 (checkedSteps env.calculateCrc32 media mbr chunks
      ++ volumeSteps media.blockSize (fatFirstUsable media.blockSize) media.sizing)
        ↔ FormatProceeds env media := by
    rw [passes_append, passes_checked (checkedSteps_checked _ _ _ _),
      passes_unchecked (volumeSteps_unchecked _ _ _), hwrites, allocs_checkedSteps,
      allocs_volumeSteps]
    constructor
    · rintro ⟨⟨hallocs, hchecked⟩, hlate⟩
      refine ⟨h, fun a ha => ?_, fun n hn => hchecked n (Nat.zero_le _) (by omega)⟩
      cases a with
      | fsInfo => exact hlate _ (by rw [if_pos (ha rfl)]; exact List.mem_cons_self ..)
      | fatSector => exact hlate _ (by split <;> simp)
      | _ => exact hallocs _ (by decide)
    · intro hproceeds
      refine ⟨⟨fun a ha => hproceeds.alloc a fun heq => ?_,
        fun k _ hk => hproceeds.checked k (by omega)⟩, fun a ha => hproceeds.alloc a fun heq => ?_⟩
      · subst heq
        exact absurd ha (by decide)
      · subst heq
        by_contra hfat
        rw [if_neg hfat] at ha
        exact absurd ha (by decide)
  refine ⟨checkedSteps env.calculateCrc32 media mbr chunks
    ++ volumeSteps media.blockSize (fatFirstUsable media.blockSize) media.sizing, ?_, fun log => ?_⟩
  · rw [FormatStep.writes_append, hwrites, writes_volumeSteps, BlockMedia.issuedWrites]
    omega
  · rw [hrun, ← hpasses]
    exact ⟨fun heq => perform_eq_success.mp (Except.ok.inj heq),
      fun hpass => congrArg _ (perform_eq_success.mpr hpass)⟩

/-- Only an accepted device is formatted. -/
theorem accepted_of_success {log : List BlockWrite}
    (h : formatBlockDevice env (.ok media) = .ok (.success, log)) : media.Accepted := by
  simp only [formatBlockDevice] at h
  split at h
  · cases h
  · rename_i hwritable
    split at h
    · cases h
    · rename_i hsize
      have hB : 512 ≤ media.blockSize.toNat := by
        rw [UInt32.lt_iff_toNat_lt] at hsize
        exact Nat.not_lt.mp hsize
      refine ⟨by simpa using hwritable, hB, fun hfull => ?_⟩
      obtain ⟨⟨status, log'⟩, -, h⟩ := bind_eq_ok.mp h
      simp only at h
      split at h
      · rename_i herr
        cases h
        cases herr
      · rw [writeGpt_volumeFull env hfull, ok_bind] at h
        cases h

theorem ReportsWrites.late {env : FormatEnv} {media : BlockMedia}
    (h : ReportsWrites env (.ok media)) : LateWritesSucceed env media := by
  intro hproceeds n hn hlt
  obtain ⟨steps, hwrites, hiff⟩ := formatBlockDevice_success env hproceeds.accepted
  have hall := h _ ((hiff _).mpr ⟨hproceeds, rfl⟩)
  exact (recorded_succeed env 0 steps).mp hall n (Nat.zero_le _) (by omega)

theorem LateWritesSucceed.reports {env : FormatEnv} {media : BlockMedia}
    (h : LateWritesSucceed env media) : ReportsWrites env (.ok media) := by
  intro log hrun
  obtain ⟨steps, hwrites, hiff⟩ := formatBlockDevice_success env (accepted_of_success hrun)
  obtain ⟨hproceeds, rfl⟩ := (hiff log).mp hrun
  refine (recorded_succeed env 0 steps).mpr fun n _ hn => ?_
  by_cases hearly : n < media.checkedWrites
  · exact hproceeds.checked n hearly
  · exact h hproceeds n (Nat.not_lt.mp hearly) (by omega)

end Success

/-- Every failed write is reported exactly when the writes that are not
checked succeed, or something that is checked goes wrong. -/
theorem reportsWrites_iff (env : FormatEnv) (target : Except EfiStatus BlockMedia) :
    ReportsWrites env target ↔ ∀ media, target = .ok media → LateWritesSucceed env media := by
  cases target with
  | error status =>
      refine iff_of_true (fun log hrun => ?_) fun media hmedia => by cases hmedia
      cases hrun
      exact fun w hw => absurd hw List.not_mem_nil
  | ok media =>
      constructor
      · intro h media' hmedia
        obtain rfl := Except.ok.inj hmedia
        exact h.late
      · exact fun h => (h media rfl).reports

/-- The services when one write fails. -/
def FormatEnv.failingOnce (n : Nat) : FormatEnv where
  writeStatus k := if k = n then .deviceError else .success
  alloc _ := true
  calculateCrc32 _ := 0

/-- One MiB: the first write of the FATs fails, and the run ends with success. -/
theorem not_reportsWrites_fat :
    ¬ ReportsWrites (.failingOnce (BlockMedia.checkedWrites ⟨false, 512, 2047⟩ + 2))
      (.ok ⟨false, 512, 2047⟩) := by
  intro h
  have hcounts : BlockMedia.checkedWrites ⟨false, 512, 2047⟩ = 69
      ∧ BlockMedia.issuedWrites ⟨false, 512, 2047⟩ = 137 := by decide
  have hproceeds : FormatProceeds
      (.failingOnce (BlockMedia.checkedWrites ⟨false, 512, 2047⟩ + 2)) ⟨false, 512, 2047⟩ := by
    refine ⟨⟨rfl, by decide, by decide⟩, fun _ _ => rfl, fun n hn => ?_⟩
    exact if_neg (by omega)
  have hlate := h.late hproceeds (BlockMedia.checkedWrites ⟨false, 512, 2047⟩ + 2) (by omega)
    (by omega)
  rw [FormatEnv.failingOnce] at hlate
  simp only [if_true, reduceCtorEq] at hlate

/-! ## A refused device is left as it was -/

/-- The blocks of a device after these writes. -/
def applyWrites (disk : UInt64 → List UInt8) (log : List BlockWrite) : UInt64 → List UInt8 :=
  log.foldl (fun disk w => Function.update disk w.lba w.data) disk

/-- Whatever is on the device: a run without a failed write that refuses the
device for its size leaves every block as it was. -/
def LeavesIntact (media : BlockMedia) : Prop :=
  ∀ env, (∀ n, env.writeStatus n = .success) → ∀ status log,
    formatBlockDevice env (.ok media) = .ok (status, log) →
    status = .unsupported ∨ status = .volumeFull →
    ∀ disk : UInt64 → List UInt8, (∀ lba, (disk lba).length = media.blockSize.toNat) →
      applyWrites disk log = disk

/-- The device is refused before anything is written, or not for its size. -/
def RefusedEarly (media : BlockMedia) : Prop :=
  media.readOnly = true ∨ media.blockSize < 512
    ∨ fatFirstUsable media.blockSize < fatLastUsable media.blockSize (media.lastBlock + 1)

section Intact

variable {env : FormatEnv} {media : BlockMedia}

/-- Without a failed write, steps end with success or for want of memory. -/
theorem perform_status (hw : ∀ n, env.writeStatus n = .success) (steps : List FormatStep) :
    ∀ log, (env.perform steps log).1 = .success ∨ (env.perform steps log).1 = .outOfResources := by
  induction steps with
  | nil => exact fun log => .inl rfl
  | cons step rest ih =>
      intro log
      cases step with
      | alloc a =>
          rw [FormatEnv.perform]
          split
          · exact ih log
          · exact .inr rfl
      | write lba data checked =>
          rw [perform_write, hw, EfiStatus.isError_success, Bool.and_false, if_neg (by decide)]
          exact ih _

/-- The check of `WriteGpt` refuses the device, and block 0 is written. -/
theorem formatBlockDevice_refusedLate (hwritable : media.readOnly = false)
    (hB : 512 ≤ media.blockSize.toNat)
    (hfull : fatLastUsable media.blockSize (media.lastBlock + 1)
      ≤ fatFirstUsable media.blockSize) :
    ∃ mbr : List UInt8, mbr.length = media.blockSize.toNat
      ∧ formatBlockDevice (.succeeding fun _ => 0) (.ok media)
        = .ok (.volumeFull, [⟨0, mbr, .success⟩]) := by
  obtain ⟨mbr, hlen, hmbr⟩ := performs_protectiveMbr (.succeeding fun _ => 0) hB
    (media.lastBlock + 1)
  have hsize : ¬ media.blockSize < 512 := by
    rw [UInt32.lt_iff_toNat_lt]
    exact Nat.not_lt.mpr hB
  have hrun : writeProtectiveMbr (.succeeding fun _ => 0) media.blockSize (media.lastBlock + 1) []
      = .ok (.success, [⟨0, mbr, .success⟩]) := hmbr []
  refine ⟨mbr, hlen, ?_⟩
  unfold formatBlockDevice
  simp only [hwritable, if_neg hsize, hrun, ok_bind, EfiStatus.isError_success,
    writeGpt_volumeFull _ hfull]
  rfl

/-- A device that only `WriteGpt` refuses has lost its block 0. -/
theorem LeavesIntact.refusedEarly {media : BlockMedia} (h : LeavesIntact media) :
    RefusedEarly media := by
  by_contra hlate
  simp only [RefusedEarly, not_or, UInt32.lt_iff_toNat_lt, UInt64.lt_iff_toNat_lt,
    Nat.not_lt] at hlate
  obtain ⟨hwritable, hB, hfull⟩ := hlate
  obtain ⟨mbr, hlen, hrun⟩ := formatBlockDevice_refusedLate (by simpa using hwritable) hB
    (UInt64.le_iff_toNat_le.mpr hfull)
  -- a device whose blocks all differ from the MBR
  have hsame := h _ (fun _ => rfl) _ _ hrun (.inr rfl) (fun _ => mbr.map (· + 1))
    (fun _ => by rw [List.length_map, hlen])
  have hzero := congrFun hsame 0
  simp only [applyWrites, List.foldl_cons, List.foldl_nil, Function.update_self] at hzero
  cases mbr with
  | nil =>
      rw [List.length_nil] at hlen
      rw [← hlen] at hB
      exact absurd hB (by decide)
  | cons b rest =>
      have hb : b = b + 1 := List.head_eq_of_cons_eq hzero
      have hne := congrArg UInt8.toNat hb
      have hlt := b.toNat_lt
      rw [UInt8.toNat_add, show (1 : UInt8).toNat = 1 from rfl] at hne
      omega

theorem RefusedEarly.leavesIntact {media : BlockMedia} (h : RefusedEarly media) :
    LeavesIntact media := by
  intro env hw status log hrun hrefused disk _
  have hwhole := hrun
  simp only [formatBlockDevice] at hrun
  split at hrun
  · cases hrun
    rcases hrefused with hrefused | hrefused <;> cases hrefused
  · rename_i hwritable
    split at hrun
    · cases hrun
      rfl
    · rename_i hsize
      have hB : 512 ≤ media.blockSize.toNat := by
        rw [UInt32.lt_iff_toNat_lt] at hsize
        exact Nat.not_lt.mp hsize
      have hroom : fatFirstUsable media.blockSize
          < fatLastUsable media.blockSize (media.lastBlock + 1) :=
        (h.resolve_left hwritable).resolve_left hsize
      have haccepted : media.Accepted := ⟨by simpa using hwritable, hB, fun hle => by
        rw [UInt64.lt_iff_toNat_lt] at hroom
        rw [UInt64.le_iff_toNat_le] at hle
        omega⟩
      obtain ⟨mbr, chunks, -, hperforms⟩ := formatBlockDevice_performs env haccepted
      have hstatus := congrArg Prod.fst (Except.ok.inj (hperforms.symm.trans hwhole))
      rcases perform_status hw _ [] with hend | hend
      · rw [hend] at hstatus
        subst hstatus
        rcases hrefused with hrefused | hrefused <;> cases hrefused
      · rw [hend] at hstatus
        subst hstatus
        rcases hrefused with hrefused | hrefused <;> cases hrefused

end Intact

/-- A refused device is left intact unless it is `WriteGpt` that refuses it. -/
theorem leavesIntact_iff (media : BlockMedia) : LeavesIntact media ↔ RefusedEarly media :=
  ⟨LeavesIntact.refusedEarly, RefusedEarly.leavesIntact⟩

/-- 64 blocks of 512 bytes are too few for the GPT, and block 0 is gone. -/
theorem not_leavesIntact_small : ¬ LeavesIntact ⟨false, 512, 63⟩ := fun h =>
  absurd h.refusedEarly (by unfold RefusedEarly; decide)

end Ccr2004
