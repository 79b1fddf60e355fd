import Ccr2004.FatContainment

/-!
# Formatting as a list of steps

A run of `FormatBlockDevice` on a device that both size checks let through is
a fixed list of steps: allocations, writes whose status is checked, and writes
whose status is not (`formatBlockDevice_performs`). What a run reports is then
a property of that list: `perform_eq_success` says which statuses and
allocations a run asks for to end with success, and `passes_checked` and
`passes_unchecked` read it off the two kinds of lists it is made of.
-/

namespace Ccr2004

/-! ## Steps -/

inductive FormatStep where
  | alloc (a : FormatAlloc)
  | write (lba : UInt64) (data : List UInt8) (checked : Bool)
deriving DecidableEq

namespace FormatStep

/-- What a list of steps allocates. -/
def allocs : List FormatStep → List FormatAlloc
  | [] => []
  | .alloc a :: steps => a :: allocs steps
  | .write .. :: steps => allocs steps

/-- The number of writes in a list of steps. -/
def writes : List FormatStep → Nat
  | [] => 0
  | .alloc _ :: steps => writes steps
  | .write .. :: steps => writes steps + 1

theorem allocs_append (steps steps' : List FormatStep) :
    allocs (steps ++ steps') = allocs steps ++ allocs steps' := by
  induction steps with
  | nil => rfl
  | cons step rest ih =>
      cases step with
      | alloc a => exact congrArg _ ih
      | write lba data checked => exact ih

theorem writes_append (steps steps' : List FormatStep) :
    writes (steps ++ steps') = writes steps + writes steps' := by
  induction steps with
  | nil => exact (Nat.zero_add _).symm
  | cons step rest ih =>
      cases step with
      | alloc a => exact ih
      | write lba data checked =>
          simp only [List.cons_append, writes, ih]
          omega

/-- Writes of these blocks. -/
def ofBlocks (checked : Bool) (blocks : List (UInt64 × List UInt8)) : List FormatStep :=
  blocks.map fun b => .write b.1 b.2 checked

@[simp] theorem allocs_ofBlocks (checked : Bool) (blocks : List (UInt64 × List UInt8)) :
    allocs (ofBlocks checked blocks) = [] := by
  induction blocks with
  | nil => rfl
  | cons b rest ih => exact ih

@[simp] theorem writes_ofBlocks (checked : Bool) (blocks : List (UInt64 × List UInt8)) :
    writes (ofBlocks checked blocks) = blocks.length := by
  induction blocks with
  | nil => rfl
  | cons b rest ih => exact congrArg (· + 1) ih

end FormatStep

/-- Perform the steps, up to an allocation or a checked write that fails. -/
def FormatEnv.perform (env : FormatEnv) :
    List FormatStep → List BlockWrite → EfiStatus × List BlockWrite
  | [], log => (.success, log)
  | .alloc a :: steps, log => if env.alloc a then env.perform steps log else (.outOfResources, log)
  | .write lba data checked :: steps, log =>
      let (status, log) := env.writeBlocks lba data log
      if checked && status.isError then (status, log) else env.perform steps log

section Perform

variable {env : FormatEnv} {steps steps' : List FormatStep} {log : List BlockWrite}

theorem perform_write (lba : UInt64) (data : List UInt8) (checked : Bool)
    (steps : List FormatStep) (log : List BlockWrite) :
    env.perform (.write lba data checked :: steps) log
      = if checked && (env.writeStatus log.length).isError
        then (env.writeStatus log.length, log ++ [⟨lba, data, env.writeStatus log.length⟩])
        else env.perform steps (log ++ [⟨lba, data, env.writeStatus log.length⟩]) := rfl

theorem perform_append (steps steps' : List FormatStep) (log : List BlockWrite) :
    env.perform (steps ++ steps') log
      = if (env.perform steps log).1.isError then env.perform steps log
        else env.perform steps' (env.perform steps log).2 := by
  induction steps generalizing log with
  | nil => rfl
  | cons step rest ih =>
      cases step with
      | alloc a =>
          simp only [List.cons_append, FormatEnv.perform]
          split
          · exact ih log
          · rfl
      | write lba data checked =>
          simp only [List.cons_append, FormatEnv.perform]
          split
          · rename_i hfail
            rw [if_pos (Bool.and_eq_true_iff.mp hfail).2]
          · exact ih _

/-- What the steps ask for: the write of number `n` comes first. -/
def FormatEnv.Passes (env : FormatEnv) : Nat → List FormatStep → Prop
  | _, [] => True
  | n, .alloc a :: steps => env.alloc a = true ∧ env.Passes n steps
  | n, .write _ _ checked :: steps =>
      (checked = true → env.writeStatus n = .success) ∧ env.Passes (n + 1) steps

/-- The statuses of the writes from number `n` on. -/
def FormatEnv.recorded (env : FormatEnv) : Nat → List FormatStep → List BlockWrite
  | _, [] => []
  | n, .alloc _ :: steps => env.recorded n steps
  | n, .write lba data _ :: steps =>
      ⟨lba, data, env.writeStatus n⟩ :: env.recorded (n + 1) steps

/-- A run ends with success exactly when the steps pass, and it has then
written all their blocks. -/
theorem perform_eq_success {log' : List BlockWrite} :
    env.perform steps log = (.success, log')
      ↔ env.Passes log.length steps ∧ log' = log ++ env.recorded log.length steps := by
  induction steps generalizing log with
  | nil =>
      rw [FormatEnv.perform, FormatEnv.recorded, List.append_nil, Prod.mk.injEq]
      exact ⟨fun h => ⟨trivial, h.2.symm⟩, fun h => ⟨rfl, h.2.symm⟩⟩
  | cons step rest ih =>
      cases step with
      | alloc a =>
          rw [FormatEnv.perform, FormatEnv.Passes, FormatEnv.recorded]
          by_cases halloc : env.alloc a = true
          · rw [if_pos halloc, ih]
            simp [halloc]
          · rw [if_neg halloc]
            simp [halloc]
      | write lba data checked =>
          rw [perform_write, FormatEnv.Passes, FormatEnv.recorded]
          by_cases hfail : (checked && (env.writeStatus log.length).isError) = true
          · obtain ⟨hchecked, herr⟩ := Bool.and_eq_true_iff.mp hfail
            have hne := EfiStatus.isError_iff.mp herr
            rw [if_pos hfail, Prod.mk.injEq]
            exact ⟨fun h => absurd h.1 hne, fun h => absurd (h.1.1 hchecked) hne⟩
          · have hpass : checked = true → env.writeStatus log.length = .success := by
              intro hchecked
              by_contra hne
              exact hfail (Bool.and_eq_true_iff.mpr ⟨hchecked, EfiStatus.isError_iff.mpr hne⟩)
            rw [if_neg hfail, ih, List.length_append, List.append_assoc]
            simp only [List.length_singleton, List.singleton_append]
            exact ⟨fun h => ⟨⟨hpass, h.1⟩, h.2⟩, fun h => ⟨h.1.2, h.2⟩⟩

theorem passes_append (n : Nat) (steps steps' : List FormatStep) :
    env.Passes n (steps ++ steps')
      ↔ env.Passes n steps ∧ env.Passes (n + FormatStep.writes steps) steps' := by
  induction steps generalizing n with
  | nil => exact ⟨fun h => ⟨trivial, h⟩, fun h => h.2⟩
  | cons step rest ih =>
      cases step with
      | alloc a =>
          simp only [List.cons_append, FormatEnv.Passes, FormatStep.writes, ih, and_assoc]
      | write lba data checked =>
          simp only [List.cons_append, FormatEnv.Passes, FormatStep.writes, ih, and_assoc]
          rw [show n + 1 + FormatStep.writes rest = n + (FormatStep.writes rest + 1) by omega]

/-- Steps that check every write ask for all of them. -/
theorem passes_checked {n : Nat} (h : ∀ lba data, .write lba data false ∉ steps) :
    env.Passes n steps ↔ (∀ a ∈ FormatStep.allocs steps, env.alloc a = true)
      ∧ ∀ k, n ≤ k → k < n + FormatStep.writes steps → env.writeStatus k = .success := by
  induction steps generalizing n with
  | nil =>
      refine ⟨fun _ => ⟨fun a ha => absurd ha List.not_mem_nil, fun k hk hlt => ?_⟩,
        fun _ => trivial⟩
      exact absurd hlt (Nat.not_lt.mpr hk)
  | cons step rest ih =>
      have hrest : ∀ lba data, .write lba data false ∉ rest := fun lba data hmem =>
        h lba data (List.mem_cons_of_mem _ hmem)
      cases step with
      | alloc a =>
          simp only [FormatEnv.Passes, FormatStep.allocs, FormatStep.writes, ih hrest,
            List.forall_mem_cons, and_assoc]
      | write lba data checked =>
          cases checked with
          | false => exact absurd (List.mem_cons_self ..) (h lba data)
          | true =>
              simp only [FormatEnv.Passes, FormatStep.allocs, FormatStep.writes, ih hrest]
              constructor
              · rintro ⟨hfirst, hallocs, hall⟩
                refine ⟨hallocs, fun k hk hlt => ?_⟩
                rcases Nat.eq_or_lt_of_le hk with rfl | hk
                · exact hfirst trivial
                · exact hall k hk (by omega)
              · rintro ⟨hallocs, hall⟩
                exact ⟨fun _ => hall n (Nat.le_refl _) (by omega), hallocs,
                  fun k hk hlt => hall k (by omega) (by omega)⟩

/-- Steps that check no write ask for the allocations alone. -/
theorem passes_unchecked {n : Nat} (h : ∀ lba data, .write lba data true ∉ steps) :
    env.Passes n steps ↔ ∀ a ∈ FormatStep.allocs steps, env.alloc a = true := by
  induction steps generalizing n with
  | nil => exact ⟨fun _ a ha => absurd ha List.not_mem_nil, fun _ => trivial⟩
  | cons step rest ih =>
      have hrest : ∀ lba data, .write lba data true ∉ rest := fun lba data hmem =>
        h lba data (List.mem_cons_of_mem _ hmem)
      cases step with
      | alloc a =>
          simp only [FormatEnv.Passes, FormatStep.allocs, ih hrest, List.forall_mem_cons]
      | write lba data checked =>
          cases checked with
          | true => exact absurd (List.mem_cons_self ..) (h lba data)
          | false =>
              simp only [FormatEnv.Passes, FormatStep.allocs, ih hrest]
              exact ⟨fun h => h.2, fun h => ⟨fun hne => (by cases hne), h⟩⟩

/-- The writes on record succeeded exactly when their statuses did. -/
theorem recorded_succeed (env : FormatEnv) (n : Nat) (steps : List FormatStep) :
    (∀ w ∈ env.recorded n steps, w.status = .success)
      ↔ ∀ k, n ≤ k → k < n + FormatStep.writes steps → env.writeStatus k = .success := by
  induction steps generalizing n with
  | nil =>
      refine ⟨fun _ k hk hlt => absurd hlt (Nat.not_lt.mpr hk), fun _ w hw => ?_⟩
      exact absurd hw List.not_mem_nil
  | cons step rest ih =>
      cases step with
      | alloc a => exact ih n
      | write lba data checked =>
          simp only [FormatEnv.recorded, FormatStep.writes, List.forall_mem_cons, ih]
          constructor
          · rintro ⟨hfirst, hall⟩ k hk hlt
            rcases Nat.eq_or_lt_of_le hk with rfl | hk
            · exact hfirst
            · exact hall k hk (by omega)
          · intro hall
            exact ⟨hall n (Nat.le_refl _) (by omega), fun k hk hlt => hall k (by omega) (by omega)⟩

end Perform

/-! ## Runs that perform steps -/

/-- A run that performs these steps. -/
def Performs (env : FormatEnv) (steps : List FormatStep)
    (run : List BlockWrite → Run (EfiStatus × List BlockWrite)) : Prop :=
  ∀ log, run log = .ok (env.perform steps log)

namespace Performs

variable {env : FormatEnv} {steps steps' : List FormatStep}
  {run run' : List BlockWrite → Run (EfiStatus × List BlockWrite)}

theorem done (env : FormatEnv) : Performs env [] fun log => .ok (.success, log) := fun _ => rfl

theorem alloc (a : FormatAlloc) (h : Performs env steps run) :
    Performs env (.alloc a :: steps) fun log =>
      if !env.alloc a then .ok (.outOfResources, log) else run log := by
  intro log
  simp only [FormatEnv.perform]
  cases halloc : env.alloc a with
  | true => exact h log
  | false => rfl

/-- A last write, whose status the run returns. -/
theorem last (env : FormatEnv) (lba : UInt64) (data : List UInt8) :
    Performs env [.write lba data true] fun log => .ok (env.writeBlocks lba data log) := by
  intro log
  simp only [FormatEnv.perform, Bool.true_and]
  split
  · rfl
  · rename_i hfail
    rw [writeBlocks_eq] at hfail ⊢
    simp only [EfiStatus.isError_iff, not_not] at hfail
    simp only [hfail]

/-- A write whose failure ends the run comes before it. -/
theorem write (lba : UInt64) (data : List UInt8) (h : Performs env steps run) :
    Performs env (.write lba data true :: steps) fun log =>
      let (status, log) := env.writeBlocks lba data log
      if status.isError then .ok (status, log) else run log := by
  intro log
  simp only [FormatEnv.perform, Bool.true_and]
  cases env.writeBlocks lba data log with
  | mk status log' =>
      cases hstatus : status.isError with
      | true => rfl
      | false => exact h log'

/-- Writes whose status is not looked at come before the run. -/
theorem each (lbas : List UInt64) (data : List UInt8) (h : Performs env steps run) :
    Performs env (FormatStep.ofBlocks false (lbas.map (·, data)) ++ steps) fun log =>
      run (env.writeEach lbas data log) := by
  induction lbas with
  | nil => exact h
  | cons lba rest ih => exact fun log => ih (env.writeBlocks lba data log).2

/-- One run after the other, when the first one ends with success. -/
theorem seq (h : Performs env steps run) (h' : Performs env steps' run') :
    Performs env (steps ++ steps') (fun log => do
      let (status, log) ← run log
      if status.isError then .ok (status, log) else run' log) := by
  intro log
  simp only [h log, ok_bind, perform_append]
  split
  · rfl
  · exact h' _

end Performs

/-! ## The partition table -/

/-- Blocks written one after the other from `lba` on. -/
def entrySteps : UInt64 → List (List UInt8) → List FormatStep
  | _, [] => []
  | lba, data :: rest => .write lba data true :: entrySteps (lba + 1) rest

theorem allocs_entrySteps (lba : UInt64) (chunks : List (List UInt8)) :
    FormatStep.allocs (entrySteps lba chunks) = [] := by
  induction chunks generalizing lba with
  | nil => rfl
  | cons data rest ih => exact ih (lba + 1)

theorem writes_entrySteps (lba : UInt64) (chunks : List (List UInt8)) :
    FormatStep.writes (entrySteps lba chunks) = chunks.length := by
  induction chunks generalizing lba with
  | nil => rfl
  | cons data rest ih => exact congrArg (· + 1) (ih (lba + 1))

theorem entrySteps_checked (lba : UInt64) (chunks : List (List UInt8)) :
    ∀ lba' data, .write lba' data false ∉ entrySteps lba chunks := by
  induction chunks generalizing lba with
  | nil => exact fun _ _ => List.not_mem_nil
  | cons data rest ih =>
      intro lba' data' hmem
      rcases List.mem_cons.mp hmem with heq | hmem
      · cases heq
      · exact ih (lba + 1) lba' data' hmem

theorem writeEntriesRound_rest (env : FormatEnv) (blockSize : UInt32) {rest : List UInt8}
    (hrest : rest.length > 0) (lba : UInt64) (log : List BlockWrite) :
    writeEntriesRound env blockSize (rest, lba, log)
      = .ok (let (status, log) := env.writeBlocks lba (padded blockSize.toNat rest) log
          if status.isError then .exit (status, log)
          else .next (rest.drop blockSize.toNat, lba + 1, log)) := by
  have htake : (rest.take blockSize.toNat).length ≤ blockSize.toNat := List.length_take_le ..
  simp only [writeEntriesRound]
  rw [if_pos hrest]
  by_cases hbig : rest.length > blockSize.toNat
  · rw [if_pos hbig, blockOf_ok htake, ok_bind, padded]
    cases env.writeBlocks lba _ log with
    | mk status log' => cases hstatus : status.isError <;> simp
  · rw [if_neg hbig, List.take_length, List.drop_length, List.drop_of_length_le (by omega),
      padded, List.take_of_length_le (by omega), blockOf_ok (by omega), ok_bind]
    cases env.writeBlocks lba _ log with
    | mk status log' => cases hstatus : status.isError <;> simp

/-- The loop cuts the bytes into blocks, whatever their writes give. -/
theorem performs_entries (env : FormatEnv) {blockSize : UInt32} (hB : 0 < blockSize.toNat) :
    ∀ (fuel : Nat) (rest : List UInt8), rest.length < fuel →
      ∃ chunks : List (List UInt8),
        chunks.length = (rest.length + (blockSize.toNat - 1)) / blockSize.toNat
        ∧ ∀ lba, Performs env (entrySteps lba chunks) fun log =>
          loopFuel (writeEntriesRound env blockSize) fuel (rest, lba, log)
  | 0, rest, h => by omega
  | fuel + 1, rest, h => by
      by_cases hrest : rest.length > 0
      · obtain ⟨chunks, hlen, hrun⟩ := performs_entries env hB fuel (rest.drop blockSize.toNat)
          (by rw [List.length_drop]; omega)
        refine ⟨padded blockSize.toNat rest :: chunks, ?_, fun lba log => ?_⟩
        · rw [List.length_cons, hlen, List.length_drop, ceilDiv_step hB hrest]
        · rw [entrySteps, ← (hrun (lba + 1)).write lba (padded blockSize.toNat rest) log]
          show (writeEntriesRound env blockSize (rest, lba, log) >>= _) = _
          rw [writeEntriesRound_rest env blockSize hrest, ok_bind]
          cases hwrite : env.writeBlocks lba (padded blockSize.toNat rest) log with
          | mk status log' => cases hstatus : status.isError <;> simp [hwrite, hstatus]
      · refine ⟨[], ?_, fun lba log => ?_⟩
        · rw [List.length_nil, Nat.div_eq_of_lt (by omega)]
        · show loopFuel (writeEntriesRound env blockSize) (fuel + 1) (rest, lba, log) = _
          have hexit : writeEntriesRound env blockSize (rest, lba, log)
              = .ok (.exit (.success, log)) := if_neg hrest
          rw [loopFuel_exit hexit]
          rfl

/-- What `WriteGpt` does to a device that its size check lets through. -/
def gptSteps (crc : List UInt8 → UInt32) (blockSize : UInt32) (totalBlocks : UInt64)
    (chunks : List (List UInt8)) : List FormatStep :=
  let last := fatLastUsable blockSize totalBlocks
  let header := gptHeader crc blockSize totalBlocks 1 (totalBlocks - 1) 2
  let backup := gptHeader crc blockSize totalBlocks (totalBlocks - 1) 1 (last + 1)
  let pad := List.replicate (blockSize.toNat - 92) 0
  [.alloc .entries, .alloc .header, .write 1 (header.bytes ++ pad) true, .alloc .primaryBlock]
    ++ (entrySteps 2 chunks ++ ([.alloc .backupBlock]
    ++ (entrySteps (last + 1) chunks ++ [.write (totalBlocks - 1) (backup.bytes ++ pad) true])))

theorem performs_writeGpt (env : FormatEnv) {blockSize : UInt32} {totalBlocks : UInt64}
    (hB : 512 ≤ blockSize.toNat)
    (hfit : ¬ fatLastUsable blockSize totalBlocks ≤ fatFirstUsable blockSize) :
    ∃ chunks : List (List UInt8),
      chunks.length = (128 * 128 + (blockSize.toNat - 1)) / blockSize.toNat
      ∧ Performs env (gptSteps env.calculateCrc32 blockSize totalBlocks chunks)
        (writeGpt env blockSize totalBlocks) := by
  have hlen := length_gptEntries (fatFirstUsable blockSize) (fatLastUsable blockSize totalBlocks)
  obtain ⟨chunks, hcount, hrun⟩ := performs_entries env (show 0 < blockSize.toNat by omega)
    entriesFuel (gptEntries (fatFirstUsable blockSize) (fatLastUsable blockSize totalBlocks))
    (by rw [hlen, entriesFuel]; omega)
  rw [hlen] at hcount
  refine ⟨chunks, hcount, fun log => (if_neg hfit).trans ?_⟩
  have hbackup := (hrun (fatLastUsable blockSize totalBlocks + 1)).seq
    (.last env (totalBlocks - 1) ((gptHeader env.calculateCrc32 blockSize totalBlocks
      (totalBlocks - 1) 1 (fatLastUsable blockSize totalBlocks + 1)).bytes
        ++ List.replicate (blockSize.toNat - 92) 0))
  have hentries := ((hrun 2).seq (hbackup.alloc .backupBlock)).alloc .primaryBlock
  have hheader := hentries.write 1 ((gptHeader env.calculateCrc32 blockSize totalBlocks 1
    (totalBlocks - 1) 2).bytes ++ List.replicate (blockSize.toNat - 92) 0)
  simp only [gptHeader_block hB, ok_bind]
  exact (hheader.alloc .header).alloc .entries log

/-! ## The volume -/

/-- The boot sector and, for FAT32, its copy. -/
def bootSteps (first : UInt64) (useFat32 : Bool) (sector : List UInt8) : List FormatStep :=
  .write first sector true :: if useFat32 then [.write (first + 6) sector true] else []

/-- The FSInfo sectors of a FAT32 volume, the FATs and the root directory. -/
def volumeSteps (blockSize : UInt32) (first : UInt64) (z : FatSizing) : List FormatStep :=
  let info := padded blockSize.toNat (fsInfo z.totalClusters)
  let area := .alloc .fatSector :: FormatStep.ofBlocks false (areaBlocks blockSize first z)
  if z.useFat32
  then .alloc .fsInfo :: (FormatStep.ofBlocks false ([first + 1, first + 7].map (·, info)) ++ area)
  else area

/-- The boot sectors, when what follows performs its steps. -/
theorem Performs.bootSectors {env : FormatEnv} {steps : List FormatStep}
    {run : List BlockWrite → Run (EfiStatus × List BlockWrite)} (first : UInt64) (useFat32 : Bool)
    (sector : List UInt8) (h : Performs env steps run) :
    Performs env (bootSteps first useFat32 sector ++ steps) fun log =>
      let (status, log) := writeBootSectors env first useFat32 sector log
      if status.isError then .ok (status, log) else run log := by
  intro log
  cases useFat32 with
  | false =>
      have hrun := h.write first sector log
      rw [bootSteps, if_neg (by decide), List.cons_append, List.nil_append, ← hrun]
      unfold writeBootSectors
      cases hwrite : env.writeBlocks first sector log with
      | mk status log' => cases hstatus : status.isError <;> simp [hwrite, hstatus]
  | true =>
      have hrun := (h.write (first + 6) sector).write first sector log
      rw [bootSteps, if_pos rfl, List.cons_append, List.cons_append, List.nil_append, ← hrun]
      unfold writeBootSectors
      cases hwrite : env.writeBlocks first sector log with
      | mk status log' => cases hstatus : status.isError <;> simp [hwrite, hstatus]

theorem performs_fatArea (env : FormatEnv) {blockSize : UInt32} (hB : 512 ≤ blockSize.toNat)
    (first : UInt64) (z : FatSizing) :
    Performs env (.alloc .fatSector :: FormatStep.ofBlocks false (areaBlocks blockSize first z))
      (writeFatArea env blockSize first z) := by
  have hfit : (fatHead z.useFat32).length ≤ blockSize.toNat := by
    have hhead := length_fatHead z.useFat32
    omega
  have hrest := ((Performs.done env).each (rootLbas first z)
    (List.replicate blockSize.toNat 0)).each (fatRestLbas first z)
      (List.replicate blockSize.toNat 0)
  have hrun := (hrest.each (fatHeadLbas first z)
    (padded blockSize.toNat (fatHead z.useFat32))).alloc .fatSector
  have hsteps : FormatStep.ofBlocks false (areaBlocks blockSize first z)
      = FormatStep.ofBlocks false ((fatHeadLbas first z).map
          (·, padded blockSize.toNat (fatHead z.useFat32)))
        ++ (FormatStep.ofBlocks false ((fatRestLbas first z).map
          (·, List.replicate blockSize.toNat 0))
        ++ (FormatStep.ofBlocks false ((rootLbas first z).map
          (·, List.replicate blockSize.toNat 0)) ++ [])) := by
    simp only [FormatStep.ofBlocks, areaBlocks, List.map_append, List.append_nil]
  intro log
  unfold writeFatArea
  rw [blockOf_padded hfit, hsteps]
  exact hrun log

/-- The boot sectors are checked, the rest of the volume is not. -/
theorem performs_formatFat (env : FormatEnv) {blockSize : UInt32} (hB : 512 ≤ blockSize.toNat)
    (totalBlocks : UInt64) :
    let z := fatSizing blockSize (partSectors blockSize totalBlocks)
    let first := fatFirstUsable blockSize
    let boot := bootSector blockSize (partSectors blockSize totalBlocks) first z
    Performs env (.alloc .bootSector :: (bootSteps first z.useFat32 (padded blockSize.toNat boot)
        ++ volumeSteps blockSize first z))
      (formatFat env blockSize totalBlocks) := by
  intro z first boot log
  have hboot : boot.length ≤ blockSize.toNat := by
    rw [length_bootSector]
    exact hB
  have hinfo : (fsInfo z.totalClusters).length ≤ blockSize.toNat := by
    rw [length_fsInfo]
    exact hB
  have harea := performs_fatArea env hB first z
  have hvolume : Performs env (volumeSteps blockSize first z) fun log =>
      if z.useFat32 then
        if !env.alloc .fsInfo then .ok (.outOfResources, log)
        else writeFatArea env blockSize first z (env.writeEach [first + 1, first + 7]
          (padded blockSize.toNat (fsInfo z.totalClusters)) log)
      else writeFatArea env blockSize first z log := by
    intro log
    rw [volumeSteps]
    by_cases hfat : z.useFat32 = true
    · simp only [if_pos hfat]
      exact (harea.each [first + 1, first + 7]
        (padded blockSize.toNat (fsInfo z.totalClusters))).alloc .fsInfo log
    · simp only [if_neg hfat]
      exact harea log
  have hrun := (hvolume.bootSectors first z.useFat32 (padded blockSize.toNat boot)).alloc
    .bootSector log
  have hsector : blockOf blockSize (bootSector blockSize (partSectors blockSize totalBlocks)
      (fatFirstUsable blockSize) (fatSizing blockSize (partSectors blockSize totalBlocks)))
        = .ok (padded blockSize.toNat boot) := blockOf_padded hboot
  have hfsInfo : blockOf blockSize
      (fsInfo (fatSizing blockSize (partSectors blockSize totalBlocks)).totalClusters)
        = .ok (padded blockSize.toNat (fsInfo z.totalClusters)) := blockOf_padded hinfo
  rw [← hrun]
  unfold formatFat
  simp only [hsector, hfsInfo, ok_bind]
  rfl

/-! ## The whole run -/

theorem performs_protectiveMbr (env : FormatEnv) {blockSize : UInt32} (hB : 512 ≤ blockSize.toNat)
    (totalBlocks : UInt64) :
    ∃ mbr : List UInt8, mbr.length = blockSize.toNat
      ∧ Performs env [.alloc .mbr, .write 0 mbr true]
        (writeProtectiveMbr env blockSize totalBlocks) := by
  obtain ⟨mbr, hsize, hrun⟩ := writeProtectiveMbr_eq hB totalBlocks
  refine ⟨mbr, hsize, fun log => ?_⟩
  rw [hrun]
  exact (Performs.last env 0 mbr).alloc .mbr log

/-- The sizing of the volume of a device. -/
def BlockMedia.sizing (media : BlockMedia) : FatSizing :=
  fatSizing media.blockSize (partSectors media.blockSize (media.lastBlock + 1))

/-- The steps that check their writes, up to the boot sectors. -/
def checkedSteps (crc : List UInt8 → UInt32) (media : BlockMedia) (mbr : List UInt8)
    (chunks : List (List UInt8)) : List FormatStep :=
  let first := fatFirstUsable media.blockSize
  let boot := bootSector media.blockSize (partSectors media.blockSize (media.lastBlock + 1)) first
    media.sizing
  [.alloc .mbr, .write 0 mbr true]
    ++ (gptSteps crc media.blockSize (media.lastBlock + 1) chunks
    ++ (.alloc .bootSector
      :: bootSteps first media.sizing.useFat32 (padded media.blockSize.toNat boot)))

/-- Both size checks let the device through. -/
structure BlockMedia.Accepted (media : BlockMedia) : Prop where
  writable : media.readOnly = false
  blockSize : 512 ≤ media.blockSize.toNat
  room : ¬ fatLastUsable media.blockSize (media.lastBlock + 1) ≤ fatFirstUsable media.blockSize

/-- A run on an accepted device performs its steps. -/
theorem formatBlockDevice_performs (env : FormatEnv) {media : BlockMedia} (h : media.Accepted) :
    ∃ (mbr : List UInt8) (chunks : List (List UInt8)),
      chunks.length = (128 * 128 + (media.blockSize.toNat - 1)) / media.blockSize.toNat
      ∧ formatBlockDevice env (.ok media)
        = .ok (env.perform (checkedSteps env.calculateCrc32 media mbr chunks
          ++ volumeSteps media.blockSize (fatFirstUsable media.blockSize) media.sizing) []) := by
  obtain ⟨mbr, -, hmbr⟩ := performs_protectiveMbr env h.blockSize (media.lastBlock + 1)
  obtain ⟨chunks, hcount, hgpt⟩ := performs_writeGpt env h.blockSize h.room
  have hfat := performs_formatFat env h.blockSize (media.lastBlock + 1)
  have hrun := hmbr.seq (hgpt.seq hfat)
  have hsize : ¬ media.blockSize < 512 := by
    rw [UInt32.lt_iff_toNat_lt]
    exact Nat.not_lt.mpr h.blockSize
  refine ⟨mbr, chunks, hcount, ?_⟩
  rw [checkedSteps, List.append_assoc, List.append_assoc]
  refine Eq.trans ?_ (hrun [])
  unfold formatBlockDevice
  simp only [h.writable, if_neg hsize]
  rfl

end Ccr2004
