import Ccr2004.Forest
import Ccr2004.YaffsBlock

/-!
# The directory tree

`BuildTree` links every object under the one its `ParentId` names, or under
the root when it names none. That is a tree of directories
(`DirectoryTree`) exactly when the `ParentId`s of the surviving objects form
no cycle and name directories only (`directoryTree_iff`). Nothing in the
scan checks either, so a flash image with two directories that name each
other scans successfully and hides both (`cycle_hides_objects`).
-/

namespace Ccr2004

instance finite_uint32 : Finite UInt32 :=
  Finite.of_injective (fun x : UInt32 => (⟨x.toNat, x.toNat_lt⟩ : Fin (2 ^ 32)))
    fun _ _ h => UInt32.toNat_inj.mp (Fin.mk.inj h)

/-! ## What a tree is -/

/-- `Parent` of an object. -/
def Yaffs2Volume.parentOf (vol : Yaffs2Volume) (i : UInt32) : Option UInt32 :=
  (vol.object? i).bind fun obj => obj.parent

/-- What enumerating an object yields: directories list their children. -/
def Yaffs2Volume.listing (vol : Yaffs2Volume) (i : UInt32) : List UInt32 :=
  match vol.object? i with
  | none => []
  | some obj => if obj.type = yaffs2TypeDir then obj.children else []

/-- The objects of a volume form a tree of directories under object 1. -/
structure DirectoryTree (vol : Yaffs2Volume) : Prop where
  /-- Every object but the root is in exactly one child list, once, namely
  that of its parent. -/
  linkedOnce : ∀ i obj, vol.object? i = some obj → i ≠ 1 →
    ∃ p par, obj.parent = some p ∧ vol.object? p = some par
      ∧ ∀ q o, vol.object? q = some o → o.children.count i = if q = p then 1 else 0
  /-- Following `Parent` reaches the root. -/
  rooted : ∀ i, (vol.object? i).isSome = true → ∃ n, Forest.climb vol.parentOf n i = some 1
  /-- Every ancestor is a directory. -/
  directories : ∀ n i p, Forest.climb vol.parentOf (n + 1) i = some p →
    ∃ obj, vol.object? p = some obj ∧ obj.type = yaffs2TypeDir
  /-- Recursive enumeration from the root meets every object exactly once. -/
  enumerated : ∀ i, (vol.object? i).isSome = true →
    ∃ depth, ∀ n, depth ≤ n → (Forest.walk vol.listing n 1).count i = 1
  /-- Orphans hang under the root. -/
  orphans : ∀ i obj, vol.object? i = some obj → i ≠ 1 →
    vol.object? obj.parentId = none → obj.parent = some 1

/-! ## The condition -/

/-- The surviving object that the `ParentId` of a surviving object names. -/
def namedParent (vol : Yaffs2Volume) (i : UInt32) : Option UInt32 :=
  match survivor vol i with
  | none => none
  | some obj =>
      if i = 1 then none
      else if (survivor vol obj.parentId).isSome then some obj.parentId else none

/-- The `ParentId`s of the surviving objects form no cycle and name
directories only. -/
structure ParentsOK (vol : Yaffs2Volume) : Prop where
  acyclic : Forest.Acyclic (namedParent vol)
  directories : ∀ i p, namedParent vol i = some p →
    ∃ obj, survivor vol p = some obj ∧ obj.type = yaffs2TypeDir

/-! ## Links -/

section Built

variable {vol pruned tree : Yaffs2Volume}

/-- A tree that `BuildTree` made of the survivors of `vol`. -/
structure BuiltFrom (vol pruned tree : Yaffs2Volume) : Prop where
  table : TableOK vol
  zero : vol.object? 0 = none
  max : pruned.maxObjId = vol.maxObjId
  survivors : ∀ j, pruned.object? j = survivor vol j
  tree : ∀ j, tree.object? j =
    (survivor vol j).map (tied pruned (vol.maxObjId.toNat + 1) j)

theorem BuiltFrom.le_of_survivor (h : BuiltFrom vol pruned tree) {i : UInt32}
    {obj : Yaffs2Object} (hobj : survivor vol i = some obj) :
    i.toNat < vol.maxObjId.toNat + 1 := by
  have hle := h.table.le_of_object? (keptObject_eq_some.mp hobj).1
  rw [UInt32.le_iff_toNat_le] at hle
  omega

/-- A link goes to the named parent, or to the root when there is none. -/
theorem BuiltFrom.linkTarget_eq (h : BuiltFrom vol pruned tree)
    (hroot : (survivor vol 1).isSome = true) {i : UInt32} {obj : Yaffs2Object}
    (hobj : survivor vol i = some obj) (hi : i ≠ 1) :
    linkTarget pruned i = some ((namedParent vol i).getD 1) := by
  have hnone : (obj.parentId = 0 ∨ obj.parentId > pruned.maxObjId
      ∨ pruned.object? obj.parentId = none) ↔ survivor vol obj.parentId = none := by
    rw [h.survivors, h.max]
    constructor
    · rintro (h0 | hgt | hnone)
      · rw [h0, survivor, h.zero]; rfl
      · rw [survivor, h.table.object?_of_gt hgt]; rfl
      · exact hnone
    · exact fun hnone => Or.inr (Or.inr hnone)
  simp only [linkTarget, namedParent, h.survivors i, hobj, if_neg hi, hnone]
  rw [h.survivors 1]
  cases hpar : survivor vol obj.parentId with
  | none => simp [hroot]
  | some par => simp

theorem linkTarget_root (vol : Yaffs2Volume) : linkTarget vol 1 = none := by
  unfold linkTarget
  split
  · rfl
  · rfl

theorem BuiltFrom.linkTarget_none (h : BuiltFrom vol pruned tree) {i : UInt32}
    (hobj : survivor vol i = none) : linkTarget pruned i = none := by
  rw [linkTarget, h.survivors, hobj]

/-- `Parent` is the link. -/
theorem BuiltFrom.parentOf_eq (h : BuiltFrom vol pruned tree) (i : UInt32) :
    tree.parentOf i = linkTarget pruned i := by
  rw [Yaffs2Volume.parentOf, h.tree]
  cases hobj : survivor vol i with
  | none => rw [h.linkTarget_none hobj]; rfl
  | some obj => exact if_pos (h.le_of_survivor hobj)

/-- The child lists of the tree, from the survivors. -/
theorem BuiltFrom.childList_eq (h : BuiltFrom vol pruned tree)
    (hroot : (survivor vol 1).isSome = true) (n : Nat) (p : UInt32) :
    childList pruned n p = ((List.range n).map UInt32.ofNat).filter fun i =>
      (survivor vol i).isSome && i != 1 && (namedParent vol i).getD 1 == p := by
  refine List.filter_congr fun i _ => ?_
  rw [Bool.eq_iff_iff, decide_eq_true_iff]
  cases hobj : survivor vol i with
  | none => simp [h.linkTarget_none hobj]
  | some obj =>
      by_cases hi : i = 1
      · simp [hi, linkTarget_root]
      · simp [h.linkTarget_eq hroot hobj hi, hi]

theorem count_map_ofNat_range {n : Nat} (hn : n ≤ 2 ^ 32) (i : UInt32) :
    ((List.range n).map UInt32.ofNat).count i = if i.toNat < n then 1 else 0 := by
  have hnodup : ((List.range n).map UInt32.ofNat).Nodup := by
    refine List.Nodup.map_on (fun a ha b hb hab => ?_) List.nodup_range
    have ha' := List.mem_range.mp ha
    have hb' := List.mem_range.mp hb
    have heq := congrArg UInt32.toNat hab
    rwa [UInt32.toNat_ofNat_of_lt' (Nat.lt_of_lt_of_le ha' hn),
      UInt32.toNat_ofNat_of_lt' (Nat.lt_of_lt_of_le hb' hn)] at heq
  split
  · rename_i hi
    exact List.count_eq_one_of_mem hnodup
      (List.mem_map.mpr ⟨i.toNat, List.mem_range.mpr hi, UInt32.ofNat_toNat⟩)
  · rename_i hi
    refine List.count_eq_zero.mpr fun hmem => hi ?_
    obtain ⟨a, ha, rfl⟩ := List.mem_map.mp hmem
    have ha' := List.mem_range.mp ha
    rwa [UInt32.toNat_ofNat_of_lt' (Nat.lt_of_lt_of_le ha' hn)]

/-- The child lists are the links read backwards. -/
theorem BuiltFrom.count_childList (h : BuiltFrom vol pruned tree) (p i : UInt32) :
    (childList pruned (vol.maxObjId.toNat + 1) p).count i
      = if linkTarget pruned i = some p then 1 else 0 := by
  unfold childList
  by_cases hlink : linkTarget pruned i = some p
  · have hlt : i.toNat < vol.maxObjId.toNat + 1 := by
      cases hobj : survivor vol i with
      | none => rw [h.linkTarget_none hobj] at hlink; cases hlink
      | some obj => exact h.le_of_survivor hobj
    rw [List.count_filter (by simpa using hlink), if_pos hlink,
      count_map_ofNat_range (by have := vol.maxObjId.toNat_lt; omega), if_pos hlt]
  · rw [if_neg hlink, List.count_eq_zero]
    intro hmem
    exact hlink (by simpa using (List.mem_filter.mp hmem).2)

/-- A `ParentId` that names a survivor is the link. -/
theorem BuiltFrom.linkTarget_of_named (h : BuiltFrom vol pruned tree)
    (hroot : (survivor vol 1).isSome = true) {i p : UInt32} (hp : namedParent vol i = some p) :
    linkTarget pruned i = some p := by
  cases hobj : survivor vol i with
  | none => simp [namedParent, hobj] at hp
  | some obj =>
      have hi : i ≠ 1 := by
        rintro rfl
        simp [namedParent, hobj] at hp
      rw [h.linkTarget_eq hroot hobj hi, hp]
      rfl

/-- A link is a `ParentId`, or it falls back to the root. -/
theorem BuiltFrom.named_or_root (h : BuiltFrom vol pruned tree)
    (hroot : (survivor vol 1).isSome = true) {i p : UInt32} (hp : linkTarget pruned i = some p) :
    namedParent vol i = some p ∨ p = 1 := by
  cases hobj : survivor vol i with
  | none => rw [h.linkTarget_none hobj] at hp; cases hp
  | some obj =>
      have hi : i ≠ 1 := by
        rintro rfl
        rw [linkTarget_root] at hp
        cases hp
      rw [h.linkTarget_eq hroot hobj hi] at hp
      cases hn : namedParent vol i with
      | none =>
          rw [hn] at hp
          exact .inr (Option.some.inj hp).symm
      | some q => rw [hn] at hp; exact .inl hp

/-- Links without a cycle are `ParentId`s without a cycle: the root ends
every chain that a fallback link is on. -/
theorem BuiltFrom.acyclic_iff (h : BuiltFrom vol pruned tree)
    (hroot : (survivor vol 1).isSome = true) :
    Forest.Acyclic (linkTarget pruned) ↔ Forest.Acyclic (namedParent vol) := by
  constructor
  · exact Forest.acyclic_of_inner fun i p hp _ => h.linkTarget_of_named hroot hp
  · refine Forest.acyclic_of_inner fun i p hp hup => ?_
    rcases h.named_or_root hroot hp with hn | rfl
    · exact hn
    · exact absurd (linkTarget_root _) hup

/-! ## The tree -/

theorem BuiltFrom.object?_eq_some (h : BuiltFrom vol pruned tree) {i : UInt32}
    {obj : Yaffs2Object} :
    tree.object? i = some obj ↔ ∃ old, survivor vol i = some old
      ∧ tied pruned (vol.maxObjId.toNat + 1) i old = obj := by
  rw [h.tree, Option.map_eq_some_iff]

/-- Every chain of links ends at the root. -/
theorem BuiltFrom.rooted (h : BuiltFrom vol pruned tree)
    (hroot : (survivor vol 1).isSome = true)
    (hac : Forest.Acyclic (linkTarget pruned)) {i : UInt32}
    (hi : (survivor vol i).isSome = true) :
    ∃ n, Forest.climb (linkTarget pruned) n i = some 1 := by
  obtain ⟨n, top, hclimb, htop⟩ := Forest.exists_top hac i
  have hsurvivor : (survivor vol top).isSome = true := by
    cases n with
    | zero =>
        obtain rfl := Option.some.inj hclimb
        exact hi
    | succ n =>
        obtain ⟨z, -, hz⟩ := (Forest.climb_succ_eq_some _).mp hclimb
        have hsome := linkTarget_isSome hz
        rwa [h.survivors] at hsome
  obtain ⟨obj, hobj⟩ := Option.isSome_iff_exists.mp hsurvivor
  have htop1 : top = 1 := by
    by_contra hne
    rw [h.linkTarget_eq hroot hobj hne] at htop
    cases htop
  exact ⟨n, htop1 ▸ hclimb⟩

/-- With directories for parents, the listings are the links read
backwards. -/
theorem BuiltFrom.count_listing (h : BuiltFrom vol pruned tree)
    (hdirs : ∀ i p, linkTarget pruned i = some p →
      ∃ obj, survivor vol p = some obj ∧ obj.type = yaffs2TypeDir) (p i : UInt32) :
    (tree.listing p).count i = if linkTarget pruned i = some p then 1 else 0 := by
  unfold Yaffs2Volume.listing
  rw [h.tree]
  cases hobj : survivor vol p with
  | none =>
      have hne : linkTarget pruned i ≠ some p := by
        intro hlink
        obtain ⟨obj, hsome, -⟩ := hdirs i p hlink
        rw [hobj] at hsome
        cases hsome
      rw [if_neg hne]
      rfl
  | some obj =>
      by_cases hdir : obj.type = yaffs2TypeDir
      · simp only [Option.map_some, tied, hdir, if_true]
        exact h.count_childList p i
      · have hne : linkTarget pruned i ≠ some p := by
          intro hlink
          obtain ⟨obj', hsome, hdir'⟩ := hdirs i p hlink
          rw [hobj] at hsome
          exact hdir (Option.some.inj hsome ▸ hdir')
        simp only [Option.map_some, tied, hdir, if_false, if_neg hne]
        rfl

theorem BuiltFrom.linkedOnce (h : BuiltFrom vol pruned tree)
    (hroot : (survivor vol 1).isSome = true) {i : UInt32} {obj : Yaffs2Object}
    (hobj : tree.object? i = some obj) (hi : i ≠ 1) :
    ∃ p par, obj.parent = some p ∧ tree.object? p = some par
      ∧ ∀ q o, tree.object? q = some o → o.children.count i = if q = p then 1 else 0 := by
  obtain ⟨old, hold, rfl⟩ := h.object?_eq_some.mp hobj
  have hlink := h.linkTarget_eq hroot hold hi
  obtain ⟨par, hpar⟩ := Option.isSome_iff_exists.mp (linkTarget_isSome hlink)
  rw [h.survivors] at hpar
  refine ⟨_, _, ?_, h.object?_eq_some.mpr ⟨par, hpar, rfl⟩, fun q o ho => ?_⟩
  · exact (if_pos (h.le_of_survivor hold)).trans hlink
  · obtain ⟨old', -, rfl⟩ := h.object?_eq_some.mp ho
    rw [tied, h.count_childList, hlink]
    simp only [Option.some.injEq, eq_comm]

theorem BuiltFrom.orphans (h : BuiltFrom vol pruned tree)
    (hroot : (survivor vol 1).isSome = true) {i : UInt32} {obj : Yaffs2Object}
    (hobj : tree.object? i = some obj) (hi : i ≠ 1)
    (horphan : tree.object? obj.parentId = none) : obj.parent = some 1 := by
  obtain ⟨old, hold, rfl⟩ := h.object?_eq_some.mp hobj
  have hpar : survivor vol old.parentId = none := by
    rw [h.tree, Option.map_eq_none_iff] at horphan
    exact horphan
  have hnamed : namedParent vol i = none := by
    simp [namedParent, hold, hpar]
  refine (if_pos (h.le_of_survivor hold)).trans ?_
  rw [h.linkTarget_eq hroot hold hi, hnamed]
  rfl

/-- The links form a tree of directories exactly when the `ParentId`s do. -/
theorem BuiltFrom.directoryTree_iff (h : BuiltFrom vol pruned tree) {root : Yaffs2Object}
    (hroot : survivor vol 1 = some root) (hdir : root.type = yaffs2TypeDir) :
    DirectoryTree tree ↔ ParentsOK vol := by
  have hsome : (survivor vol 1).isSome = true := by rw [hroot]; rfl
  have hup : tree.parentOf = linkTarget pruned := funext h.parentOf_eq
  have hisSome : ∀ i, (tree.object? i).isSome = (survivor vol i).isSome := fun i => by
    rw [h.tree, Option.isSome_map]
  constructor
  · intro htree
    constructor
    · rw [← h.acyclic_iff hsome, ← hup]
      refine Forest.acyclic_of_ends fun i => ?_
      cases hobj : survivor vol i with
      | none =>
          refine ⟨1, ?_⟩
          rw [Forest.climb_one, h.parentOf_eq, h.linkTarget_none hobj]
      | some obj =>
          obtain ⟨n, hn⟩ := htree.rooted i (by rw [hisSome, hobj]; rfl)
          refine ⟨n + 1, ?_⟩
          rw [Forest.climb_add, hn, Option.bind_some, Forest.climb_one, h.parentOf_eq,
            linkTarget_root]
    · intro i p hp
      have hclimb : Forest.climb tree.parentOf 1 i = some p := by
        rw [Forest.climb_one, h.parentOf_eq]
        exact h.linkTarget_of_named hsome hp
      obtain ⟨obj, hobj, htype⟩ := htree.directories 0 i p hclimb
      obtain ⟨old, hold, rfl⟩ := h.object?_eq_some.mp hobj
      exact ⟨old, hold, htype⟩
  · rintro ⟨hacyclic, hdirs⟩
    have hac := (h.acyclic_iff hsome).mpr hacyclic
    have hlinkdir : ∀ i p, linkTarget pruned i = some p →
        ∃ obj, survivor vol p = some obj ∧ obj.type = yaffs2TypeDir := by
      intro i p hp
      rcases h.named_or_root hsome hp with hn | rfl
      · exact hdirs i p hn
      · exact ⟨root, hroot, hdir⟩
    refine ⟨fun i obj hobj hi => h.linkedOnce hsome hobj hi, fun i hi => ?_,
      fun n i p hclimb => ?_, fun i hi => ?_,
      fun i obj hobj hi horphan => h.orphans hsome hobj hi horphan⟩
    · rw [hup]
      exact h.rooted hsome hac (hisSome i ▸ hi)
    · rw [hup] at hclimb
      obtain ⟨z, -, hz⟩ := (Forest.climb_succ_eq_some _).mp hclimb
      obtain ⟨old, hold, htype⟩ := hlinkdir z p hz
      exact ⟨_, h.object?_eq_some.mpr ⟨old, hold, rfl⟩, htype⟩
    · obtain ⟨depth, hdepth⟩ := h.rooted hsome hac (hisSome i ▸ hi)
      exact ⟨depth, fun n hn =>
        Forest.count_walk hac (h.count_listing hlinkdir) hn hdepth⟩

end Built

/-! ## The whole scan -/

/-- Once the blocks are scanned `Yaffs2ScanNand` ends, and succeeds when the
root is a directory. -/
theorem yaffs2ScanNand_run {σ : Type} {nand : NandFlashProtocol σ}
    {pools : UInt32 → Pool} {n : σ} {st : ScanState σ}
    (hblocks : scanBlocks nand pools ⟨n, .empty, 0, 0, []⟩ = .ok st) :
    ∃ pruned tree, BuiltFrom st.volume pruned tree
      ∧ yaffs2ScanNand nand pools n = .ok
        (if (survivor st.volume 1).map Yaffs2Object.type = some yaffs2TypeDir
          then .success else .volumeCorrupted, tree) := by
  have huntied := (scanBlocks_reached hblocks).untied
  obtain ⟨tree, pruned, hbuild, hok, hmax, hmaxp, hpruned, htree, hroot⟩ :=
    buildTree_spec huntied (Nat.le_refl loopLimit)
  refine ⟨pruned, tree, ⟨huntied.table, huntied.zero, hmaxp, hpruned, htree⟩, ?_⟩
  unfold yaffs2ScanNand
  rw [hblocks, ok_bind, hbuild, ok_bind, hroot]
  cases hsurvivor : survivor st.volume 1 with
  | none => simp
  | some root =>
      have hobj : tree.object? 1
          = some (tied pruned (st.volume.maxObjId.toNat + 1) 1 root) := by
        rw [htree, hsurvivor]; rfl
      have hslot := hok.slot (by decide) (hok.le_of_object? hobj)
      rw [hobj] at hslot
      simp only [Option.map_some, hslot, ok_bind, tied, Option.some.injEq]
      split <;> rfl

theorem yaffs2ScanNand_success {σ : Type} {nand : NandFlashProtocol σ}
    {pools : UInt32 → Pool} {n : σ} {st : ScanState σ} {vol : Yaffs2Volume}
    (hblocks : scanBlocks nand pools ⟨n, .empty, 0, 0, []⟩ = .ok st)
    (h : yaffs2ScanNand nand pools n = .ok (.success, vol)) :
    ∃ pruned root, BuiltFrom st.volume pruned vol
      ∧ survivor st.volume 1 = some root ∧ root.type = yaffs2TypeDir := by
  obtain ⟨pruned, tree, hbuilt, hrun⟩ := yaffs2ScanNand_run hblocks
  rw [hrun] at h
  obtain ⟨hstatus, rfl⟩ := Prod.mk.inj (Except.ok.inj h)
  split at hstatus
  · rename_i hdir
    obtain ⟨root, hroot, htype⟩ := Option.map_eq_some_iff.mp hdir
    exact ⟨pruned, root, hbuilt, hroot, htype⟩
  · cases hstatus

/-- A successful scan leaves a tree of directories exactly when the
`ParentId`s of the objects it kept form no cycle and name directories. -/
theorem scan_directoryTree_iff {σ : Type} {nand : NandFlashProtocol σ}
    {pools : UInt32 → Pool} {n : σ} {st : ScanState σ} {vol : Yaffs2Volume}
    (hblocks : scanBlocks nand pools ⟨n, .empty, 0, 0, []⟩ = .ok st)
    (h : yaffs2ScanNand nand pools n = .ok (.success, vol)) :
    DirectoryTree vol ↔ ParentsOK st.volume := by
  obtain ⟨pruned, root, hbuilt, hroot, hdir⟩ := yaffs2ScanNand_success hblocks h
  exact hbuilt.directoryTree_iff hroot hdir

/-- The header page of an object with no name. -/
def headerData (type parentId : UInt32) : PageData :=
  let bytes := leBytes 4 type.toNat ++ leBytes 4 parentId.toNat
  fun i => bytes.getD i 0

/-- Headers of the root and of two directories with the given parents. -/
def twoDirectories (parent₅ parent₆ : UInt32) : BlockContent where
  tags := fun i => [⟨0x1000, 1, 0x80000000, 0⟩, ⟨0x1000, 5, 0x80000000, 0⟩,
    ⟨0x1000, 6, 0x80000000, 0⟩].getD i ⟨0xFFFFFFFF, 0xFFFFFFFF, 0xFFFFFFFF, 0xFFFFFFFF⟩
  data := fun i => [headerData 3 1, headerData 3 parent₅, headerData 3 parent₆].getD i
    fun _ => 0

theorem scan_directoryTree_iff_nested :
    ∃ st vol,
      scanBlocks (storedNand 4 (twoDirectories 1 5)) noFailure ⟨0, .empty, 0, 0, []⟩ = .ok st
        ∧ yaffs2ScanNand (storedNand 4 (twoDirectories 1 5)) noFailure 0 = .ok (.success, vol)
        ∧ (DirectoryTree vol ↔ ParentsOK st.volume) := by
  obtain ⟨st, hblocks, hroot⟩ : ∃ st,
      scanBlocks (storedNand 4 (twoDirectories 1 5)) noFailure ⟨0, .empty, 0, 0, []⟩
        = .ok st
      ∧ (survivor st.volume 1).map Yaffs2Object.type = some yaffs2TypeDir := ⟨_, rfl, rfl⟩
  obtain ⟨pruned, tree, -, hrun⟩ := yaffs2ScanNand_run hblocks
  rw [if_pos hroot] at hrun
  exact ⟨st, tree, hblocks, hrun, scan_directoryTree_iff hblocks hrun⟩

/-- Two directories that name each other as parent: the scan succeeds, and
neither is under the root. -/
theorem cycle_hides_objects :
    ∃ st vol,
      scanBlocks (storedNand 4 (twoDirectories 6 5)) noFailure ⟨0, .empty, 0, 0, []⟩ = .ok st
        ∧ yaffs2ScanNand (storedNand 4 (twoDirectories 6 5)) noFailure 0 = .ok (.success, vol)
        ∧ (vol.object? 5).isSome = true ∧ ¬DirectoryTree vol := by
  obtain ⟨st, hblocks, hroot, h5, h6⟩ : ∃ st,
      scanBlocks (storedNand 4 (twoDirectories 6 5)) noFailure ⟨0, .empty, 0, 0, []⟩
        = .ok st
      ∧ (survivor st.volume 1).map Yaffs2Object.type = some yaffs2TypeDir
      ∧ namedParent st.volume 5 = some 6 ∧ namedParent st.volume 6 = some 5 :=
    ⟨_, rfl, rfl, rfl, rfl⟩
  obtain ⟨pruned, tree, hbuilt, hrun⟩ := yaffs2ScanNand_run hblocks
  rw [if_pos hroot] at hrun
  obtain ⟨root, hsurvivor, hdir⟩ := Option.map_eq_some_iff.mp hroot
  refine ⟨st, tree, hblocks, hrun, ?_, fun htree => ?_⟩
  · rw [hbuilt.tree, Option.isSome_map]
    cases hobj : survivor st.volume 5 with
    | none => simp [namedParent, hobj] at h5
    | some obj => rfl
  · refine ((hbuilt.directoryTree_iff hsurvivor hdir).mp htree).acyclic 1 5 ?_
    rw [Forest.climb_succ, h5, Option.bind_some, Forest.climb_one, h6]

end Ccr2004
