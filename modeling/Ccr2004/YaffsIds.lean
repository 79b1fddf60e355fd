import Ccr2004.YaffsReach

/-!
# Which object ids the table can take

Data chunk ids are not masked, so the scan passes any 32-bit id to
`FindOrCreateObject`. `TableKept` is what the rest of the driver relies on
afterwards. It holds for the ids with `TableRoom` and for no others
(`objectTable_kept_iff`): past `0xFFFFFFBE` the fallback `ObjId + 64` wraps
to a table of at most 64 slots, and the slot of the id is read outside it.
-/

namespace Ccr2004

/-- Both loops of `BuildTree` end and index inside the array. -/
def BuildTreeEnds (vol : Yaffs2Volume) : Prop :=
  ∃ tree, ∀ fuel, loopLimit ≤ fuel → buildTree fuel vol = .ok tree

/-- `FindOrCreateObject` on this id stays inside its buffers, whichever
allocations fail, and when it returns an object: the id is in range, the
array has `MaxObjId + 1` entries, `MaxObjId` did not shrink, every object is
where it was, and each sits at its own id. -/
def TableKept (vol : Yaffs2Volume) (objId : UInt32) : Prop :=
  ∀ pool, ∃ found vol', findOrCreateObject pool vol objId = .ok (found, vol')
    ∧ (found ≠ none →
      objId ≤ vol'.maxObjId
        ∧ (∃ table, vol'.objects = some table
          ∧ table.length = vol'.maxObjId.toNat + 1)
        ∧ vol.maxObjId ≤ vol'.maxObjId
        ∧ (∀ i obj, vol.object? i = some obj → vol'.object? i = some obj)
        ∧ (∀ i obj, vol'.object? i = some obj → obj.objId = i)
        ∧ BuildTreeEnds vol')

theorem Untied.buildTreeEnds {vol : Yaffs2Volume} (h : Untied vol) :
    BuildTreeEnds vol := by
  obtain ⟨tree, pruned, hrun, -⟩ := buildTree_spec h (Nat.le_refl loopLimit)
  exact ⟨tree, fun fuel hfuel => buildTree_mono hfuel hrun⟩

/-- Finding an object keeps a table of unlinked objects one. -/
theorem FoundObject.untied {vol vol' : Yaffs2Volume} {objId : UInt32}
    {obj : Yaffs2Object} (hvol : Untied vol) (hid : objId ≠ 0)
    (h : FoundObject vol objId obj vol') : Untied vol' := by
  have hobj : obj.parent = none ∧ obj.children = [] := by
    rw [h.obj_eq]
    cases hold : vol.object? objId with
    | none => exact ⟨rfl, rfl⟩
    | some old => exact ⟨hvol.parent _ old hold, hvol.children _ old hold⟩
  have hcases : ∀ i o, vol'.object? i = some o →
      o = obj ∨ vol.object? i = some o := by
    intro i o ho
    rw [h.others] at ho
    split at ho
    · exact Or.inl (Option.some.inj ho).symm
    · exact Or.inr ho
  refine ⟨h.table, ?_, fun i o ho => ?_, fun i o ho => ?_⟩
  · rw [h.others, if_neg hid.symm, hvol.zero]
  · rcases hcases i o ho with rfl | hold
    · exact hobj.1
    · exact hvol.parent i o hold
  · rcases hcases i o ho with rfl | hold
    · exact hobj.2
    · exact hvol.children i o hold

theorem tableKept_of_room {vol : Yaffs2Volume} (hvol : Untied vol) {objId : UInt32}
    (hid : objId ≠ 0) (hroom : TableRoom vol.maxObjId objId) : TableKept vol objId := by
  intro pool
  obtain ⟨found, vol', hrun, -, hsome, -⟩ :=
    findOrCreateObject_of_room hvol.table pool hid hroom
  refine ⟨found, vol', hrun, fun hne => ?_⟩
  obtain ⟨obj, hobj⟩ := Option.ne_none_iff_exists'.mp hne
  have hfound := hsome obj hobj
  refine ⟨hfound.covers, ?_, hfound.grows, fun i o ho => ?_, hfound.table.ids,
    (hfound.untied hvol hid).buildTreeEnds⟩
  · obtain ⟨table, htable, -⟩ := Yaffs2Volume.slot_eq_ok.mp (hfound.slot hid)
    exact ⟨table, htable, hfound.table.size table htable⟩
  · rw [hfound.others]
    split
    · rename_i hi
      subst hi
      rw [hfound.obj_eq, ho, Option.getD_some]
    · exact ho

theorem tableRoom_of_kept {vol : Yaffs2Volume} {objId : UInt32}
    (h : TableKept vol objId) : TableRoom vol.maxObjId objId := by
  by_contra hroom
  obtain ⟨found, vol', hrun, -⟩ := h .full
  rcases findOrCreateObject_of_no_room .full hroom with ⟨hpool, -⟩ | ⟨-, e, he⟩
  · cases hpool
  · rw [hrun] at he
    cases he

/-- On every volume the scan reaches, `BuildTree` ends inside the array; a
page whose id has room is processed without a fault; and the table takes an
id correctly exactly when it has room for it. -/
theorem objectTable_kept_iff {vol : Yaffs2Volume} (hvol : Reached vol) :
    BuildTreeEnds vol
      ∧ (∀ (p : Page) (pool : Pool), p.Scannable → TableRoom vol.maxObjId p.tags.objId →
        ∃ vol', p.call.apply pool vol = .ok vol' ∧ Reached vol')
      ∧ ∀ objId, isPseudoObject objId = false →
        (TableKept vol objId ↔ TableRoom vol.maxObjId objId) :=
  ⟨hvol.untied.buildTreeEnds,
    fun _ pool hp hroom => hvol.hand_total hp hroom pool,
    fun _ hid => ⟨tableRoom_of_kept, tableKept_of_room hvol.untied (isPseudoObject_ne_zero hid)⟩⟩

/-- An empty volume takes the id of a first data page. -/
theorem objectTable_kept_iff_empty :
    Reached .empty ∧ BuildTreeEnds .empty
      ∧ (TableKept .empty 0x101 ↔ TableRoom 0 0x101) :=
  ⟨.empty, (objectTable_kept_iff .empty).1,
    (objectTable_kept_iff .empty).2.2 0x101 (by decide)⟩

/-- The first id past the wrap of `ObjId + 64`, as a data page with word 1
equal to `0xFFFFFFC0` gives it: `MaxObjId` becomes 0 and the slot of the id
is read outside the one-entry table. -/
theorem not_tableKept_wrapped :
    Reached .empty ∧ isPseudoObject 0xFFFFFFC0 = false
      ∧ findOrCreateObject .full .empty 0xFFFFFFC0 = .error .outOfBounds
      ∧ ¬TableKept .empty 0xFFFFFFC0 :=
  ⟨.empty, by decide, by rfl, fun h => absurd (tableRoom_of_kept h) (by decide)⟩

end Ccr2004
