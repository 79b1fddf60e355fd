import Ccr2004.YaffsTable

/-!
# The tree construction

What the two loops of `BuildTree` do to a table that represents its
objects. `forObjects_total` is the loop rule: below the last id of 32 bits
the counter reaches its end, so a pass that never faults leaves a table.
`removeInvalid_spec` and `resolveParent_spec` say what one round does, and
`forObjects_removeInvalid` and `forObjects_resolveParent` what a whole pass
does; `buildTree_spec` puts the passes together.
-/

namespace Ccr2004

/-! ## The loop over the table -/

/-- A pass over the ids `1 .. MaxObjId` that keeps an invariant of the
table. -/
theorem forObjects_total {pass : UInt32 → Yaffs2Volume → Run Yaffs2Volume}
    {I : Nat → Yaffs2Volume → Prop} {top : UInt32} (htop : top.toNat < 2 ^ 32 - 1)
    (hconst : ∀ n vol, I n vol → vol.maxObjId = top)
    (hstep : ∀ (i : UInt32) vol, i ≠ 0 → i ≤ top → I i.toNat vol →
      ∃ vol', pass i vol = .ok vol' ∧ I (i.toNat + 1) vol')
    {fuel : Nat} (hfuel : top.toNat < fuel) {vol : Yaffs2Volume} (hI : I 1 vol) :
    ∃ vol', forObjects pass fuel vol = .ok vol' ∧ I (top.toNat + 1) vol' := by
  unfold forObjects
  refine loopFuel_total
    (I := fun s => 1 ≤ s.1.toNat ∧ s.1.toNat ≤ top.toNat + 1 ∧ I s.1.toNat s.2)
    (μ := fun s => top.toNat + 1 - s.1.toNat) ?_ ⟨Nat.le_refl 1, by simp, hI⟩ ?_
  · rintro ⟨i, vol⟩ ⟨hpos, hle, hI⟩
    simp only at hpos hle hI
    have hmax := hconst _ _ hI
    by_cases hi : i ≤ vol.maxObjId
    · have hi' : i.toNat ≤ top.toNat := by
        rw [hmax, UInt32.le_iff_toNat_le] at hi; exact hi
      have hi0 : i ≠ 0 := by
        rintro rfl; simp at hpos
      obtain ⟨vol', hpass, hI'⟩ := hstep i vol hi0 (UInt32.le_iff_toNat_le.mpr hi') hI
      have hsucc : (i + 1).toNat = i.toNat + 1 := by
        rw [UInt32.toNat_add]; simp only [UInt32.reduceToNat]; omega
      refine ⟨.next (i + 1, vol'), by simp [hi, hpass], ?_⟩
      simp only [Flow.post_next, hsucc]
      exact ⟨⟨by omega, by omega, hI'⟩, by omega⟩
    · refine ⟨.exit vol, by simp [hi], ?_⟩
      rw [hmax, UInt32.le_iff_toNat_le] at hi
      have hend : i.toNat = top.toNat + 1 := by omega
      rw [Flow.post_exit, ← hend]
      exact hI
  · simp only [UInt32.reduceToNat]
    omega

/-- More fuel does not change a pass that ends. -/
theorem forObjects_mono {pass : UInt32 → Yaffs2Volume → Run Yaffs2Volume}
    {fuel fuel' : Nat} {vol vol' : Yaffs2Volume} (hle : fuel ≤ fuel')
    (h : forObjects pass fuel vol = .ok vol') : forObjects pass fuel' vol = .ok vol' :=
  loopFuel_mono hle h

/-! ## One round of each pass -/

/-- An object the first pass keeps. -/
def keptObject (i : UInt32) (o : Option Yaffs2Object) : Option Yaffs2Object :=
  o.filter fun obj => !isRemoved i obj

theorem keptObject_eq_some {i : UInt32} {o : Option Yaffs2Object}
    {obj : Yaffs2Object} :
    keptObject i o = some obj ↔ o = some obj ∧ isRemoved i obj = false := by
  simp [keptObject, Option.filter_eq_some_iff]

theorem removeInvalid_spec {vol : Yaffs2Volume} (hok : TableOK vol) {i : UInt32}
    (hi : i ≠ 0) (hle : i ≤ vol.maxObjId) :
    ∃ vol', removeInvalid i vol = .ok vol' ∧ TableOK vol'
      ∧ vol'.maxObjId = vol.maxObjId
      ∧ ∀ j, vol'.object? j =
          if j = i then keptObject i (vol.object? i) else vol.object? j := by
  have hslot := hok.slot hi hle
  unfold removeInvalid
  rw [hslot, ok_bind]
  cases hobj : vol.object? i with
  | none =>
      refine ⟨vol, rfl, hok, rfl, fun j => ?_⟩
      split
      · rename_i hj; rw [hj, hobj]; rfl
      · rfl
  | some obj =>
      rw [hobj] at hslot
      by_cases hrem : isRemoved i obj = true
      · refine ⟨vol.setSlot i none, by simp [hrem],
          hok.setSlot hslot (fun o ho => by cases ho), rfl, fun j => ?_⟩
        rw [Yaffs2Volume.object?_setSlot hslot]
        simp [keptObject, Option.filter, hrem]
      · refine ⟨vol, by simp [hrem], hok, rfl, fun j => ?_⟩
        split
        · rename_i hj
          have hkeep : isRemoved i obj = false := by simpa using hrem
          rw [hj, hobj, keptObject_eq_some.mpr ⟨rfl, hkeep⟩]
        · rfl

/-- The object the second pass links `i` under. -/
def linkTarget (vol : Yaffs2Volume) (i : UInt32) : Option UInt32 :=
  match vol.object? i with
  | none => none
  | some obj =>
      if i = 1 then none
      else if obj.parentId = 0 ∨ obj.parentId > vol.maxObjId
          ∨ vol.object? obj.parentId = none then
        if (vol.object? 1).isSome then some 1 else none
      else some obj.parentId

/-- The target of a link is an object. -/
theorem linkTarget_isSome {vol : Yaffs2Volume} {i p : UInt32}
    (h : linkTarget vol i = some p) : (vol.object? p).isSome := by
  unfold linkTarget at h
  split at h
  · cases h
  · rename_i obj hobj
    split at h
    · cases h
    · split at h
      · split at h
        · rename_i hroot
          rw [← Option.some.inj h]; exact hroot
        · cases h
      · rename_i hpar
        rw [← Option.some.inj h, Option.isSome_iff_ne_none]
        exact fun hnone => hpar (Or.inr (Or.inr hnone))

/-- So is the object that links. -/
theorem linkTarget_source {vol : Yaffs2Volume} {i p : UInt32}
    (h : linkTarget vol i = some p) : (vol.object? i).isSome := by
  unfold linkTarget at h
  split at h
  · cases h
  · rename_i hobj
    rw [hobj]
    rfl

theorem isOrphan_eq {vol : Yaffs2Volume} (hok : TableOK vol) (obj : Yaffs2Object) :
    isOrphan vol obj = .ok (decide (obj.parentId = 0 ∨ obj.parentId > vol.maxObjId
      ∨ vol.object? obj.parentId = none)) := by
  unfold isOrphan
  by_cases h0 : obj.parentId = 0
  · simp [h0]
  · by_cases hgt : obj.parentId > vol.maxObjId
    · simp [h0, hgt]
    · have hle := UInt32.not_lt.mp hgt
      rw [if_neg h0, if_neg hgt, hok.slot h0 hle, ok_bind]
      cases vol.object? obj.parentId <;> simp [h0, hle]

theorem modify_spec {vol : Yaffs2Volume} (hok : TableOK vol) {i : UInt32}
    (hi : i ≠ 0) {obj : Yaffs2Object} (hobj : vol.object? i = some obj)
    {f : Yaffs2Object → Yaffs2Object} (hf : ∀ o, (f o).objId = o.objId) :
    ∃ vol', vol.modify i f = .ok vol' ∧ TableOK vol'
      ∧ vol'.maxObjId = vol.maxObjId
      ∧ ∀ j, vol'.object? j = if j = i then some (f obj) else vol.object? j := by
  have hslot := hok.slot hi (hok.le_of_object? hobj)
  rw [hobj] at hslot
  refine ⟨vol.setSlot i (some (f obj)), ?_, ?_, rfl, ?_⟩
  · rw [Yaffs2Volume.modify, hslot, ok_bind]
  · refine hok.setSlot hslot fun o ho => ?_
    rw [← Option.some.inj ho, hf]
    exact hok.ids i obj hobj
  · exact fun j => Yaffs2Volume.object?_setSlot hslot _ j

/-- The two writes of a link, read at any object. -/
def linked (i p j : UInt32) (obj : Yaffs2Object) : Yaffs2Object :=
  { obj with
    parent := if j = i then some p else obj.parent
    children := if j = p then obj.children ++ [i] else obj.children }

theorem linkChild_spec {vol : Yaffs2Volume} (hok : TableOK vol) {i p : UInt32}
    (hi : i ≠ 0) (hp : p ≠ 0) (hobj : (vol.object? i).isSome)
    (hpar : (vol.object? p).isSome) :
    ∃ vol', linkChild i p vol = .ok vol' ∧ TableOK vol'
      ∧ vol'.maxObjId = vol.maxObjId
      ∧ ∀ j, vol'.object? j = (vol.object? j).map (linked i p j) := by
  obtain ⟨obj, hobj⟩ := Option.isSome_iff_exists.mp hobj
  obtain ⟨vol₁, hmod₁, hok₁, hmax₁, hview₁⟩ :=
    modify_spec hok hi hobj (f := fun obj => { obj with parent := some p }) (fun _ => rfl)
  have hpar₁ : (vol₁.object? p).isSome := by
    rw [hview₁]; split
    · rfl
    · exact hpar
  obtain ⟨par, hpar₁⟩ := Option.isSome_iff_exists.mp hpar₁
  obtain ⟨vol₂, hmod₂, hok₂, hmax₂, hview₂⟩ := modify_spec hok₁ hp hpar₁
    (f := fun obj => { obj with children := obj.children ++ [i] }) (fun _ => rfl)
  refine ⟨vol₂, by rw [linkChild, hmod₁, ok_bind, hmod₂], hok₂,
    hmax₂.trans hmax₁, fun j => ?_⟩
  rw [hview₂]
  by_cases hjp : j = p
  · subst hjp
    rw [if_pos rfl]
    rw [hview₁] at hpar₁
    by_cases hji : j = i
    · subst hji
      rw [if_pos rfl] at hpar₁
      rw [← Option.some.inj hpar₁, hobj]
      simp [linked]
    · rw [if_neg hji] at hpar₁
      simp [hpar₁, linked, hji]
  · rw [if_neg hjp, hview₁]
    by_cases hji : j = i
    · subst hji
      simp [hobj, linked, hjp]
    · rw [if_neg hji]
      cases vol.object? j <;> simp [linked, hji, hjp]

/-- What a round of the second pass does to object `j`. -/
def resolved (vol : Yaffs2Volume) (i j : UInt32) (obj : Yaffs2Object) :
    Yaffs2Object :=
  { obj with
    parent :=
      if j = i then
        match linkTarget vol i with
        | some p => some p
        | none => if i = 1 then none else obj.parent
      else obj.parent
    children :=
      if linkTarget vol i = some j then obj.children ++ [i] else obj.children }

theorem resolved_of_target {vol : Yaffs2Volume} {i p : UInt32}
    (h : linkTarget vol i = some p) (j : UInt32) (obj : Yaffs2Object) :
    resolved vol i j obj = linked i p j obj := by
  simp [resolved, linked, h, eq_comm]

theorem resolveParent_spec {vol : Yaffs2Volume} (hok : TableOK vol) {i : UInt32}
    (hi : i ≠ 0) (hle : i ≤ vol.maxObjId) :
    ∃ vol', resolveParent i vol = .ok vol' ∧ TableOK vol'
      ∧ vol'.maxObjId = vol.maxObjId
      ∧ ∀ j, vol'.object? j = (vol.object? j).map (resolved vol i j) := by
  have hslot := hok.slot hi hle
  unfold resolveParent
  rw [hslot, ok_bind]
  cases hobj : vol.object? i with
  | none =>
      have hnone : linkTarget vol i = none := by simp [linkTarget, hobj]
      refine ⟨vol, rfl, hok, rfl, fun j => ?_⟩
      cases hj : vol.object? j with
      | none => rfl
      | some o =>
          have hne : j ≠ i := by rintro rfl; rw [hobj] at hj; cases hj
          simp [resolved, hnone, hne]
  | some obj =>
      have hsome : (vol.object? i).isSome := by rw [hobj]; rfl
      by_cases hroot : i = 1
      · subst hroot
        have hnone : linkTarget vol 1 = none := by simp [linkTarget, hobj]
        obtain ⟨vol', hmod, hok', hmax, hview⟩ :=
          modify_spec hok hi hobj (f := fun obj => { obj with parent := none })
            (fun _ => rfl)
        refine ⟨vol', by simpa using hmod, hok', hmax, fun j => ?_⟩
        rw [hview]
        by_cases hj : j = 1
        · rw [if_pos hj, hj, hobj]
          simp [resolved, hnone]
        · rw [if_neg hj]
          cases vol.object? j <;> simp [resolved, hnone, hj]
      · simp only [hroot, if_false, isOrphan_eq hok, ok_bind, decide_eq_true_eq]
        by_cases horph : obj.parentId = 0 ∨ obj.parentId > vol.maxObjId
            ∨ vol.object? obj.parentId = none
        · have hle1 : (1 : UInt32) ≤ vol.maxObjId := by
            rw [UInt32.le_iff_toNat_le] at hle ⊢
            have : i.toNat ≠ 0 := fun h => hi (UInt32.toNat_inj.mp h)
            simp only [UInt32.reduceToNat]
            omega
          rw [if_pos horph, hok.slot (by decide) hle1, ok_bind]
          cases h1 : vol.object? 1 with
          | none =>
              have hnone : linkTarget vol i = none := by
                simp [linkTarget, hobj, hroot, horph, h1]
              refine ⟨vol, rfl, hok, rfl, fun j => ?_⟩
              cases hj : vol.object? j with
              | none => rfl
              | some o => by_cases hji : j = i <;> simp [resolved, hnone, hji, hroot]
          | some r =>
              have htarget : linkTarget vol i = some 1 := by
                simp [linkTarget, hobj, hroot, horph, h1]
              obtain ⟨vol', hlink, hok', hmax, hview⟩ := linkChild_spec hok hi
                (p := 1) (by decide) hsome (by rw [h1]; rfl)
              refine ⟨vol', hlink, hok', hmax, fun j => ?_⟩
              rw [hview, funext (resolved_of_target htarget j)]
        · have hp0 : obj.parentId ≠ 0 := fun h => horph (Or.inl h)
          have hpar : (vol.object? obj.parentId).isSome := by
            rw [Option.isSome_iff_ne_none]
            exact fun h => horph (Or.inr (Or.inr h))
          have htarget : linkTarget vol i = some obj.parentId := by
            simp [linkTarget, hobj, hroot, if_neg horph]
          obtain ⟨vol', hlink, hok', hmax, hview⟩ := linkChild_spec hok hi hp0 hsome hpar
          refine ⟨vol', by rw [if_neg horph]; exact hlink, hok', hmax, fun j => ?_⟩
          rw [hview, funext (resolved_of_target htarget j)]

/-! ## The two passes -/

/-- The object with an id that survives the first pass. -/
def survivor (vol : Yaffs2Volume) (i : UInt32) : Option Yaffs2Object :=
  keptObject i (vol.object? i)

/-- A table the scan has filled: it represents its objects, slot 0 is free,
and no object is linked yet. -/
structure Untied (vol : Yaffs2Volume) : Prop where
  table : TableOK vol
  zero : vol.object? 0 = none
  parent : ∀ i obj, vol.object? i = some obj → obj.parent = none
  children : ∀ i obj, vol.object? i = some obj → obj.children = []

theorem forObjects_removeInvalid {vol : Yaffs2Volume} (hvol : Untied vol)
    {fuel : Nat} (hfuel : vol.maxObjId.toNat < fuel) :
    ∃ vol', forObjects removeInvalid fuel vol = .ok vol' ∧ Untied vol'
      ∧ vol'.maxObjId = vol.maxObjId ∧ ∀ j, vol'.object? j = survivor vol j := by
  obtain ⟨vol', hrun, hok, hmax, hview⟩ := forObjects_total
    (I := fun n v => TableOK v ∧ v.maxObjId = vol.maxObjId
      ∧ ∀ j, v.object? j = if j.toNat < n then survivor vol j else vol.object? j)
    hvol.table.bound (fun _ _ h => h.2.1)
    (by
      rintro i v hi hle ⟨hok, hmax, hview⟩
      obtain ⟨v', hrun, hok', hmax', hview'⟩ := removeInvalid_spec hok hi (hmax ▸ hle)
      refine ⟨v', hrun, hok', hmax'.trans hmax, fun j => ?_⟩
      rw [hview']
      by_cases hj : j = i
      · rw [if_pos hj, hj, hview, if_neg (Nat.lt_irrefl _),
          if_pos (Nat.lt_succ_self _)]
        rfl
      · have hne : j.toNat ≠ i.toNat := fun h => hj (UInt32.toNat_inj.mp h)
        rw [if_neg hj, hview]
        simp only [show j.toNat < i.toNat + 1 ↔ j.toNat < i.toNat by omega])
    hfuel
    ⟨hvol.table, rfl, fun j => by
      by_cases hj : j.toNat < 1
      · have hj0 : j = 0 := UInt32.toNat_inj.mp (by simpa using hj)
        rw [if_pos hj, hj0, survivor, hvol.zero]; rfl
      · rw [if_neg hj]⟩
  have hview' : ∀ j, vol'.object? j = survivor vol j := by
    intro j
    rw [hview]
    by_cases hj : j.toNat < vol.maxObjId.toNat + 1
    · rw [if_pos hj]
    · have hgt : vol.maxObjId < j := UInt32.lt_iff_toNat_lt.mpr (by omega)
      rw [if_neg hj, survivor, hvol.table.object?_of_gt hgt]; rfl
  refine ⟨vol', hrun, ⟨hok, ?_, ?_, ?_⟩, hmax, hview'⟩
  · rw [hview', survivor, hvol.zero]; rfl
  · intro i obj hobj
    rw [hview', survivor, keptObject_eq_some] at hobj
    exact hvol.parent i obj hobj.1
  · intro i obj hobj
    rw [hview', survivor, keptObject_eq_some] at hobj
    exact hvol.children i obj hobj.1

/-- The objects below `n` that link under `p`, in the order they are
linked. -/
def childList (vol : Yaffs2Volume) (n : Nat) (p : UInt32) : List UInt32 :=
  ((List.range n).map UInt32.ofNat).filter fun i => linkTarget vol i = some p

/-- An object after the second pass has gone through the ids below `n`. -/
def tied (vol : Yaffs2Volume) (n : Nat) (j : UInt32) (obj : Yaffs2Object) :
    Yaffs2Object :=
  { obj with
    parent := if j.toNat < n then linkTarget vol j else none
    children := childList vol n j }

/-- Links depend on which objects there are and on their `ParentId` only. -/
theorem linkTarget_congr {vol vol' : Yaffs2Volume}
    {g : UInt32 → Yaffs2Object → Yaffs2Object}
    (hmax : vol'.maxObjId = vol.maxObjId)
    (hview : ∀ j, vol'.object? j = (vol.object? j).map (g j))
    (hg : ∀ j obj, (g j obj).parentId = obj.parentId) (i : UInt32) :
    linkTarget vol' i = linkTarget vol i := by
  unfold linkTarget
  rw [hview i]
  cases hobj : vol.object? i with
  | none => rfl
  | some obj =>
      simp only [Option.map_some, hg, hview, hmax, Option.map_eq_none_iff,
        Option.isSome_map]

theorem childList_succ (vol : Yaffs2Volume) (i p : UInt32) :
    childList vol (i.toNat + 1) p =
      if linkTarget vol i = some p then childList vol i.toNat p ++ [i]
      else childList vol i.toNat p := by
  have hof : UInt32.ofNat i.toNat = i := UInt32.ofNat_toNat
  unfold childList
  rw [List.range_succ, List.map_append, List.filter_append, List.map_singleton, hof,
    List.filter_singleton]
  by_cases h : linkTarget vol i = some p <;> simp [h]

theorem tied_succ {vol v : Yaffs2Volume} {i : UInt32}
    (hlink : linkTarget v i = linkTarget vol i) (j : UInt32) (obj : Yaffs2Object) :
    resolved v i j (tied vol i.toNat j obj) = tied vol (i.toNat + 1) j obj := by
  have hparent : (resolved v i j (tied vol i.toNat j obj)).parent
      = (tied vol (i.toNat + 1) j obj).parent := by
    simp only [resolved, tied, hlink]
    by_cases hj : j = i
    · subst hj
      rw [if_pos rfl, if_pos (Nat.lt_succ_self _), if_neg (Nat.lt_irrefl _)]
      cases linkTarget vol j <;> simp
    · have hne : j.toNat ≠ i.toNat := fun h => hj (UInt32.toNat_inj.mp h)
      rw [if_neg hj]
      simp only [show j.toNat < i.toNat + 1 ↔ j.toNat < i.toNat by omega]
  have hchildren : (resolved v i j (tied vol i.toNat j obj)).children
      = (tied vol (i.toNat + 1) j obj).children := by
    simp only [resolved, tied, hlink, childList_succ]
  simp only [resolved, tied] at hparent hchildren ⊢
  rw [hparent, hchildren]

theorem forObjects_resolveParent {vol : Yaffs2Volume} (hvol : Untied vol)
    {fuel : Nat} (hfuel : vol.maxObjId.toNat < fuel) :
    ∃ vol', forObjects resolveParent fuel vol = .ok vol' ∧ TableOK vol'
      ∧ vol'.maxObjId = vol.maxObjId
      ∧ ∀ j, vol'.object? j =
          (vol.object? j).map (tied vol (vol.maxObjId.toNat + 1) j) := by
  have hlink0 : linkTarget vol 0 = none := by simp [linkTarget, hvol.zero]
  refine forObjects_total
    (I := fun n v => TableOK v ∧ v.maxObjId = vol.maxObjId
      ∧ ∀ j, v.object? j = (vol.object? j).map (tied vol n j))
    hvol.table.bound (fun _ _ h => h.2.1) ?_ hfuel ⟨hvol.table, rfl, ?_⟩
  · rintro i v hi hle ⟨hok, hmax, hview⟩
    obtain ⟨v', hrun, hok', hmax', hview'⟩ := resolveParent_spec hok hi (hmax ▸ hle)
    have hlink := linkTarget_congr hmax hview (fun _ _ => rfl) i
    refine ⟨v', hrun, hok', hmax'.trans hmax, fun j => ?_⟩
    rw [hview', hview, Option.map_map]
    exact congrArg (fun f => (vol.object? j).map f)
      (funext fun obj => tied_succ hlink j obj)
  · intro j
    cases hobj : vol.object? j with
    | none => rfl
    | some obj =>
        have hne : ¬j.toNat < 1 := fun h => by
          have hj0 : j = 0 := UInt32.toNat_inj.mp (by simpa using h)
          rw [hj0, hvol.zero] at hobj
          cases hobj
        have hchildren : childList vol 1 j = [] := by
          simp [childList, hlink0]
        simp only [Option.map_some, tied, if_neg hne, hchildren]
        rw [← hvol.parent j obj hobj, ← hvol.children j obj hobj]

theorem buildTree_mono {fuel fuel' : Nat} {vol tree : Yaffs2Volume}
    (hle : fuel ≤ fuel') (h : buildTree fuel vol = .ok tree) :
    buildTree fuel' vol = .ok tree := by
  obtain ⟨vol₁, hrun₁, h⟩ := bind_eq_ok.mp h
  obtain ⟨vol₂, hrun₂, h⟩ := bind_eq_ok.mp h
  rw [buildTree, forObjects_mono hle hrun₁, ok_bind, forObjects_mono hle hrun₂]
  exact h

/-- `BuildTree` on a table the scan has filled: it ends, stays inside the
table, and leaves the survivors, each linked to its target. -/
theorem buildTree_spec {vol : Yaffs2Volume} (hvol : Untied vol) {fuel : Nat}
    (hfuel : loopLimit ≤ fuel) :
    ∃ tree pruned, buildTree fuel vol = .ok tree
      ∧ TableOK tree ∧ tree.maxObjId = vol.maxObjId
      ∧ pruned.maxObjId = vol.maxObjId
      ∧ (∀ j, pruned.object? j = survivor vol j)
      ∧ (∀ j, tree.object? j =
          (survivor vol j).map (tied pruned (vol.maxObjId.toNat + 1) j))
      ∧ tree.root = (survivor vol 1).map fun _ => 1 := by
  have hbound := hvol.table.bound
  have hlt : vol.maxObjId.toNat < fuel := by
    unfold loopLimit at hfuel; omega
  obtain ⟨pruned, hrun₁, hun, hmax₁, hview₁⟩ := forObjects_removeInvalid hvol hlt
  obtain ⟨tree, hrun₂, hok, hmax₂, hview₂⟩ :=
    forObjects_resolveParent hun (hmax₁ ▸ hlt)
  have hview : ∀ j, tree.object? j =
      (survivor vol j).map (tied pruned (vol.maxObjId.toNat + 1) j) := by
    intro j
    rw [hview₂, hview₁, hmax₁]
  have hmax := hmax₂.trans hmax₁
  by_cases hge : tree.maxObjId ≥ 1
  · have hslot := hok.slot (by decide) hge
    refine ⟨{ tree with root := (tree.object? 1).map fun _ => 1 }, pruned, ?_,
      ⟨hok.null, hok.size, hok.floor, hok.bound, hok.ids⟩, hmax, hmax₁, hview₁,
      hview, ?_⟩
    · rw [buildTree, hrun₁, ok_bind, hrun₂, ok_bind, if_pos hge, hslot, ok_bind]
    · rw [hview]; cases survivor vol 1 <;> rfl
  · have hgt : tree.maxObjId < 1 := UInt32.not_le.mp hge
    refine ⟨{ tree with root := none }, pruned, ?_,
      ⟨hok.null, hok.size, hok.floor, hok.bound, hok.ids⟩, hmax, hmax₁, hview₁,
      hview, ?_⟩
    · rw [buildTree, hrun₁, ok_bind, hrun₂, ok_bind, if_neg hge]
    · rw [survivor, hvol.table.object?_of_gt (hmax ▸ hgt)]; rfl

end Ccr2004
