import Ccr2004.YaffsScan

/-!
# The object table

`EnsureObjectsCapacity` and `FindOrCreateObject` against the representation
invariant `TableOK`: the table is null and `MaxObjId` zero, or the buffer
really holds `MaxObjId + 1` slots and an object sits at its own id.

The growth rule is 32-bit arithmetic on an id read from flash.
`TableRoom` is the exact condition under which it makes room for the id:
below it `nextMaxObjId_of_room`, outside it `nextMaxObjId_of_no_room`, where
the fallback `ObjId + 64` wraps and the new table has at most 64 slots.
-/

namespace Ccr2004

/-! ## Slots -/

namespace Yaffs2Volume

theorem slot_eq_ok {vol : Yaffs2Volume} {id : UInt32} {o : Option Yaffs2Object} :
    vol.slot id = .ok o ↔
      ∃ table, vol.objects = some table ∧ table[id.toNat]? = some o := by
  unfold slot
  cases vol.objects with
  | none => simp
  | some table =>
      cases h : table[id.toNat]? with
      | none => simp [h]
      | some o' => simp [h]

@[simp] theorem maxObjId_setSlot (vol : Yaffs2Volume) (id : UInt32)
    (o : Option Yaffs2Object) : (vol.setSlot id o).maxObjId = vol.maxObjId := rfl

@[simp] theorem root_setSlot (vol : Yaffs2Volume) (id : UInt32)
    (o : Option Yaffs2Object) : (vol.setSlot id o).root = vol.root := rfl

/-- Writing a slot that exists changes that slot and no other. -/
theorem object?_setSlot {vol : Yaffs2Volume} {id : UInt32}
    {old : Option Yaffs2Object} (h : vol.slot id = .ok old)
    (o : Option Yaffs2Object) (j : UInt32) :
    (vol.setSlot id o).object? j = if j = id then o else vol.object? j := by
  obtain ⟨table, htable, hget⟩ := slot_eq_ok.mp h
  have hlt : id.toNat < table.length := (List.getElem?_eq_some_iff.mp hget).1
  by_cases hj : j = id
  · subst hj
    simp [object?, setSlot, htable, hlt]
  · have hne : id.toNat ≠ j.toNat := fun h => hj (UInt32.toNat_inj.mp h.symm)
    simp [object?, setSlot, htable, hj, List.getElem?_set_ne hne]

theorem object?_empty (id : UInt32) : Yaffs2Volume.empty.object? id = none := by
  simp [object?, empty]

end Yaffs2Volume

/-! ## The representation invariant -/

/-- The table and `MaxObjId` agree, and every object is at its own id. -/
structure TableOK (vol : Yaffs2Volume) : Prop where
  null : vol.objects = none → vol.maxObjId = 0
  size : ∀ table, vol.objects = some table → table.length = vol.maxObjId.toNat + 1
  floor : ∀ table, vol.objects = some table → 256 ≤ vol.maxObjId.toNat
  bound : vol.maxObjId.toNat < 2 ^ 32 - 1
  ids : ∀ id obj, vol.object? id = some obj → obj.objId = id

theorem TableOK.empty : TableOK .empty where
  null := fun _ => rfl
  size := fun _ h => by simp [Yaffs2Volume.empty] at h
  floor := fun _ h => by simp [Yaffs2Volume.empty] at h
  bound := by simp [Yaffs2Volume.empty]
  ids := fun id obj h => by rw [Yaffs2Volume.object?_empty] at h; cases h

/-- Every id up to `MaxObjId` has a slot, once there is a table. -/
theorem TableOK.slot {vol : Yaffs2Volume} (hok : TableOK vol) {id : UInt32}
    (hid : id ≠ 0) (hle : id ≤ vol.maxObjId) :
    vol.slot id = .ok (vol.object? id) := by
  rw [UInt32.le_iff_toNat_le] at hle
  have hpos : id.toNat ≠ 0 := fun h => hid (UInt32.toNat_inj.mp h)
  cases htable : vol.objects with
  | none =>
      rw [hok.null htable] at hle
      exact absurd (Nat.le_zero.mp hle) hpos
  | some table =>
      have hsize := hok.size table htable
      have hlt : id.toNat < table.length := by omega
      rw [Yaffs2Volume.slot_eq_ok.mpr ⟨table, htable, List.getElem?_eq_getElem hlt⟩]
      simp [Yaffs2Volume.object?, htable, List.getElem?_eq_getElem hlt]

/-- An id past the table is free. -/
theorem TableOK.object?_of_gt {vol : Yaffs2Volume} (hok : TableOK vol)
    {id : UInt32} (hgt : vol.maxObjId < id) : vol.object? id = none := by
  rw [UInt32.lt_iff_toNat_lt] at hgt
  cases htable : vol.objects with
  | none => simp [Yaffs2Volume.object?, htable]
  | some table =>
      have hsize := hok.size table htable
      have hnone : table[id.toNat]? = none := List.getElem?_eq_none (by omega)
      simp [Yaffs2Volume.object?, htable, hnone]

theorem TableOK.le_of_object? {vol : Yaffs2Volume} (hok : TableOK vol)
    {id : UInt32} {obj : Yaffs2Object} (h : vol.object? id = some obj) :
    id ≤ vol.maxObjId := by
  by_contra hgt
  rw [hok.object?_of_gt (UInt32.not_le.mp hgt)] at h
  cases h

theorem TableOK.setSlot {vol : Yaffs2Volume} (hok : TableOK vol) {id : UInt32}
    {old o : Option Yaffs2Object} (hslot : vol.slot id = .ok old)
    (hid : ∀ obj, o = some obj → obj.objId = id) : TableOK (vol.setSlot id o) where
  null := fun h => hok.null (by simpa [Yaffs2Volume.setSlot] using h)
  size := fun table h => by
    obtain ⟨t, ht, -⟩ := Yaffs2Volume.slot_eq_ok.mp hslot
    simp only [Yaffs2Volume.setSlot, ht, Option.map_some, Option.some.injEq] at h
    rw [← h, List.length_set, hok.size t ht, Yaffs2Volume.maxObjId_setSlot]
  floor := fun table h => by
    obtain ⟨t, ht, -⟩ := Yaffs2Volume.slot_eq_ok.mp hslot
    exact hok.floor t ht
  bound := hok.bound
  ids := fun j obj h => by
    rw [Yaffs2Volume.object?_setSlot hslot] at h
    by_cases hj : j = id
    · rw [if_pos hj] at h
      rw [hj]
      exact hid obj h
    · rw [if_neg hj] at h
      exact hok.ids j obj h

/-! ## Growing -/

/-- The ids the growth rule makes room for: those below the wrap of
`ObjId + 64`, those the table already covers, and those a doubling that does
not wrap covers. -/
def TableRoom (maxObjId objId : UInt32) : Prop :=
  objId.toNat ≤ 0xFFFFFFBE ∨ objId.toNat ≤ maxObjId.toNat
    ∨ (objId.toNat < 2 * (maxObjId.toNat + 1) ∧ 2 * (maxObjId.toNat + 1) < 2 ^ 32)

instance (maxObjId objId : UInt32) : Decidable (TableRoom maxObjId objId) :=
  inferInstanceAs (Decidable (_ ∨ _))

/-- `nextMaxObjId` over the naturals. -/
theorem nextMaxObjId_toNat (maxObjId objId : UInt32) :
    (nextMaxObjId maxObjId objId).toNat =
      if max (2 * (maxObjId.toNat + 1) % 2 ^ 32) 256 ≤ objId.toNat
      then (objId.toNat + 64) % 2 ^ 32
      else max (2 * (maxObjId.toNat + 1) % 2 ^ 32) 256 := by
  have hdouble : ((maxObjId + 1) * 2).toNat = 2 * (maxObjId.toNat + 1) % 2 ^ 32 := by
    rw [UInt32.toNat_mul, UInt32.toNat_add]
    simp only [UInt32.reduceToNat]
    omega
  have hfloor : (if (maxObjId + 1) * 2 < 256 then 256 else (maxObjId + 1) * 2).toNat
      = max (2 * (maxObjId.toNat + 1) % 2 ^ 32) 256 := by
    by_cases h : (maxObjId + 1) * 2 < 256
    · rw [if_pos h]
      rw [UInt32.lt_iff_toNat_lt, hdouble] at h
      simp only [UInt32.reduceToNat] at h ⊢
      omega
    · rw [if_neg h]
      rw [UInt32.lt_iff_toNat_lt, hdouble] at h
      simp only [UInt32.reduceToNat] at h
      omega
  unfold nextMaxObjId
  dsimp only
  generalize (if (maxObjId + 1) * 2 < 256 then 256 else (maxObjId + 1) * 2) = floored
    at hfloor ⊢
  simp only [UInt32.le_iff_toNat_le, apply_ite UInt32.toNat, hfloor,
    UInt32.toNat_add]
  rfl

theorem nextMaxObjId_of_room {maxObjId objId : UInt32}
    (hgt : maxObjId < objId) (hroom : TableRoom maxObjId objId) :
    objId.toNat ≤ (nextMaxObjId maxObjId objId).toNat
      ∧ 256 ≤ (nextMaxObjId maxObjId objId).toNat
      ∧ (nextMaxObjId maxObjId objId).toNat < 2 ^ 32 - 1 := by
  rw [UInt32.lt_iff_toNat_lt] at hgt
  have hobj := objId.toNat_lt
  rw [nextMaxObjId_toNat]
  unfold TableRoom at hroom
  split <;> omega

/-- Without room the new table is smaller than 65 slots, and the id is far
outside it. -/
theorem nextMaxObjId_of_no_room {maxObjId objId : UInt32}
    (hroom : ¬TableRoom maxObjId objId) :
    (nextMaxObjId maxObjId objId + 1).toNat ≤ 64 ∧ 0xFFFFFFBF ≤ objId.toNat
      ∧ maxObjId < objId := by
  have hobj := objId.toNat_lt
  unfold TableRoom at hroom
  rw [UInt32.toNat_add, nextMaxObjId_toNat, UInt32.lt_iff_toNat_lt]
  simp only [UInt32.reduceToNat]
  split <;> omega

/-- A buffer filled with `a` takes over all of the old buffer. -/
theorem carryOver_replicate {α : Type} {old : Option (List α)} {n m : Nat} (a : α)
    (hlen : ∀ l, old = some l → l.length = n) (hle : n ≤ m) :
    carryOver (List.replicate m a) old n
      = .ok (old.getD [] ++ List.replicate (m - (old.getD []).length) a) := by
  cases old with
  | none => simp [carryOver]
  | some l =>
      have hl := hlen l rfl
      have hfits : n ≤ (List.replicate m a).length ∧ n ≤ l.length := by
        rw [List.length_replicate, hl]; exact ⟨hle, Nat.le_refl n⟩
      simp only [carryOver, copyMem, if_pos hfits, Option.getD_some]
      rw [← hl, List.take_length, List.drop_replicate]

/-- The table after growth: the old slots, then null ones. -/
theorem getElem?_join_grown {α : Type} (old : List (Option α)) (n i : Nat) :
    (old ++ List.replicate n none)[i]?.join = old[i]?.join := by
  by_cases hi : i < old.length
  · rw [List.getElem?_append_left hi]
  · rw [List.getElem?_append_right (by omega), List.getElem?_replicate,
      List.getElem?_eq_none (l := old) (by omega)]
    split <;> rfl

/-- What `EnsureObjectsCapacity` does when the id has room: nothing, when it
fails or the table is large enough; otherwise it grows the table and keeps
every object. -/
theorem ensureObjectsCapacity_of_room {vol : Yaffs2Volume} (hok : TableOK vol)
    (pool : Pool) {objId : UInt32} (hroom : TableRoom vol.maxObjId objId) :
    ∃ status vol', ensureObjectsCapacity pool vol objId = .ok (status, vol')
      ∧ TableOK vol' ∧ vol.maxObjId ≤ vol'.maxObjId ∧ vol'.root = vol.root
      ∧ (∀ j, vol'.object? j = vol.object? j)
      ∧ (status.isError = false → objId ≤ vol'.maxObjId)
      ∧ (pool .objects = true → status = .success) := by
  unfold ensureObjectsCapacity
  by_cases hle : objId ≤ vol.maxObjId
  · rw [if_pos hle]
    exact ⟨_, _, rfl, hok, UInt32.le_refl _, rfl, fun _ => rfl, fun _ => hle,
      fun _ => rfl⟩
  · rw [if_neg hle]
    have hgt := UInt32.not_le.mp hle
    obtain ⟨hcover, hfloor, hbound⟩ := nextMaxObjId_of_room hgt hroom
    have hgrow : vol.maxObjId.toNat < (nextMaxObjId vol.maxObjId objId).toNat :=
      Nat.lt_of_lt_of_le (UInt32.lt_iff_toNat_lt.mp hgt) hcover
    have hslots : (nextMaxObjId vol.maxObjId objId + 1).toNat
        = (nextMaxObjId vol.maxObjId objId).toNat + 1 := by
      rw [UInt32.toNat_add]; simp only [UInt32.reduceToNat]; omega
    have hold : (vol.maxObjId + 1).toNat = vol.maxObjId.toNat + 1 := by
      rw [UInt32.toNat_add]; simp only [UInt32.reduceToNat]; omega
    have hlenle : (vol.objects.getD []).length ≤ vol.maxObjId.toNat + 1 := by
      cases htable : vol.objects with
      | none => exact Nat.zero_le _
      | some old => exact Nat.le_of_eq (hok.size old htable)
    by_cases hpool : pool .objects = true
    · have hcopy := carryOver_replicate (none : Option Yaffs2Object)
        (fun l hl => (hok.size l hl).trans hold.symm)
        (show (vol.maxObjId + 1).toNat
          ≤ (nextMaxObjId vol.maxObjId objId + 1).toNat by omega)
      rw [hslots] at hcopy
      refine ⟨.success, ⟨some (vol.objects.getD [] ++ List.replicate
        ((nextMaxObjId vol.maxObjId objId).toNat + 1 - (vol.objects.getD []).length) none),
        nextMaxObjId vol.maxObjId objId, vol.root⟩, ?_, ?_, ?_, rfl, ?_, ?_, fun _ => rfl⟩
      · simp only [hpool, Bool.not_true, Bool.false_eq_true, if_false, hslots, hcopy,
          ok_bind]
      · constructor
        · exact fun h => by cases h
        · intro table htable
          obtain rfl := Option.some.inj htable
          rw [List.length_append, List.length_replicate]
          simp only
          omega
        · exact fun _ _ => hfloor
        · exact hbound
        · intro id obj h
          refine hok.ids id obj ?_
          rw [← h]
          simp only [Yaffs2Volume.object?, Option.getD_some, getElem?_join_grown]
      · exact UInt32.le_iff_toNat_le.mpr (Nat.le_of_lt hgrow)
      · intro j
        simp only [Yaffs2Volume.object?, Option.getD_some, getElem?_join_grown]
      · exact fun _ => UInt32.le_iff_toNat_le.mpr hcover
    · refine ⟨.outOfResources, vol, ?_, hok, UInt32.le_refl _, rfl, fun _ => rfl, ?_, ?_⟩
      · simp [hpool]
      · exact fun h => by simp [EfiStatus.isError] at h
      · exact fun h => absurd h hpool

/-- Without room the growth that succeeds leaves a table that does not
reach the id, when the copy into it does not fault first. -/
theorem ensureObjectsCapacity_of_no_room {vol : Yaffs2Volume} {pool : Pool}
    {objId : UInt32} (hroom : ¬TableRoom vol.maxObjId objId)
    (hpool : pool .objects = true) :
    (∃ e, ensureObjectsCapacity pool vol objId = .error e)
      ∨ ∃ table, table.length ≤ 64
        ∧ ensureObjectsCapacity pool vol objId
          = .ok (.success, ⟨some table, nextMaxObjId vol.maxObjId objId, vol.root⟩) := by
  obtain ⟨hsmall, -, hgt⟩ := nextMaxObjId_of_no_room hroom
  unfold ensureObjectsCapacity
  rw [if_neg (UInt32.not_le.mpr hgt)]
  simp only [hpool, Bool.not_true, Bool.false_eq_true, if_false]
  cases hcopy : carryOver
      (List.replicate (nextMaxObjId vol.maxObjId objId + 1).toNat none) vol.objects
      (vol.maxObjId + 1).toNat with
  | error e => exact Or.inl ⟨e, rfl⟩
  | ok table =>
      refine Or.inr ⟨table, ?_, rfl⟩
      have hlen : table.length = (nextMaxObjId vol.maxObjId objId + 1).toNat := by
        cases htable : vol.objects with
        | none =>
            rw [htable] at hcopy
            rw [← Except.ok.inj hcopy, List.length_replicate]
        | some old =>
            rw [htable] at hcopy
            simp only [carryOver, copyMem] at hcopy
            split at hcopy
            · rename_i hfits
              rw [← Except.ok.inj hcopy, List.length_append, List.length_take,
                List.length_drop, List.length_replicate]
              rw [List.length_replicate] at hfits
              omega
            · cases hcopy
      omega

/-! ## Finding or creating an object -/

/-- What a successful `FindOrCreateObject` guarantees: the table still
represents, it covers the id, and only the id's slot may have changed, from
null to a fresh object. -/
structure FoundObject (vol : Yaffs2Volume) (objId : UInt32) (obj : Yaffs2Object)
    (vol' : Yaffs2Volume) : Prop where
  table : TableOK vol'
  grows : vol.maxObjId ≤ vol'.maxObjId
  covers : objId ≤ vol'.maxObjId
  obj_eq : obj = (vol.object? objId).getD (.fresh objId)
  others : ∀ j, vol'.object? j = if j = objId then some obj else vol.object? j

/-- What `FindOrCreateObject` guarantees when it returns NULL. -/
structure NotFound (vol vol' : Yaffs2Volume) : Prop where
  table : TableOK vol'
  objects : ∀ j, vol'.object? j = vol.object? j

theorem FoundObject.slot {vol : Yaffs2Volume} {objId : UInt32}
    {obj : Yaffs2Object} {vol' : Yaffs2Volume} (h : FoundObject vol objId obj vol')
    (hid : objId ≠ 0) : vol'.slot objId = .ok (some obj) := by
  rw [h.table.slot hid h.covers, h.others, if_pos rfl]

theorem findOrCreateObject_of_room {vol : Yaffs2Volume} (hok : TableOK vol)
    (pool : Pool) {objId : UInt32} (hid : objId ≠ 0)
    (hroom : TableRoom vol.maxObjId objId) :
    ∃ found vol', findOrCreateObject pool vol objId = .ok (found, vol')
      ∧ (found = none → NotFound vol vol')
      ∧ (∀ obj, found = some obj → FoundObject vol objId obj vol')
      ∧ (pool = .full → found ≠ none) := by
  obtain ⟨status, grown, hensure, hgrown, hgrows, -, hkept, hcovers, hfull⟩ :=
    ensureObjectsCapacity_of_room hok pool hroom
  unfold findOrCreateObject
  rw [hensure, ok_bind]
  by_cases herr : status.isError = true
  · refine ⟨none, grown, by simp [herr], fun _ => ⟨hgrown, hkept⟩, ?_, ?_⟩
    · intro obj h; cases h
    · rintro rfl
      rw [hfull rfl] at herr
      cases herr
  · have herr' : status.isError = false := by simpa using herr
    have hcover := hcovers herr'
    have hslot := hgrown.slot hid hcover
    simp only [herr', Bool.false_eq_true, if_false, hslot, ok_bind]
    cases hobj : grown.object? objId with
    | some obj =>
        refine ⟨some obj, grown, rfl, fun h => (by cases h), ?_, by simp⟩
        intro obj' h
        obtain rfl := Option.some.inj h
        refine ⟨hgrown, hgrows, hcover, ?_, ?_⟩
        · rw [← hkept, hobj, Option.getD_some]
        · intro j
          split
          · rename_i hj; rw [hj, hobj]
          · exact hkept j
    | none =>
        rw [hobj] at hslot
        by_cases hpool : pool .object = true
        · refine ⟨some (.fresh objId), grown.setSlot objId (some (.fresh objId)),
            by simp [hpool], fun h => (by cases h), ?_, by simp⟩
          intro obj' h
          obtain rfl := Option.some.inj h
          refine ⟨hgrown.setSlot hslot ?_, hgrows, hcover, ?_, ?_⟩
          · intro obj hobj'
            rw [← Option.some.inj hobj']; rfl
          · rw [← hkept, hobj, Option.getD_none]
          · intro j
            rw [Yaffs2Volume.object?_setSlot hslot, hkept]
        · refine ⟨none, grown, by simp [hpool], fun _ => ⟨hgrown, hkept⟩, ?_, ?_⟩
          · intro obj h; cases h
          · rintro rfl
            exact absurd rfl hpool

/-- Without room `FindOrCreateObject` fails when the allocation does, and
otherwise leaves its buffer. -/
theorem findOrCreateObject_of_no_room {vol : Yaffs2Volume} (pool : Pool)
    {objId : UInt32} (hroom : ¬TableRoom vol.maxObjId objId) :
    (pool .objects = false ∧ findOrCreateObject pool vol objId = .ok (none, vol))
      ∨ (pool .objects = true ∧ ∃ e, findOrCreateObject pool vol objId = .error e) := by
  obtain ⟨-, hlarge, hgt⟩ := nextMaxObjId_of_no_room hroom
  by_cases hpool : pool .objects = true
  · refine Or.inr ⟨hpool, ?_⟩
    unfold findOrCreateObject
    rcases ensureObjectsCapacity_of_no_room hroom hpool with
      ⟨e, he⟩ | ⟨table, hlen, he⟩
    · exact ⟨e, by rw [he, error_bind]⟩
    · refine ⟨.outOfBounds, ?_⟩
      have hout : table[objId.toNat]? = none := List.getElem?_eq_none (by omega)
      rw [he, ok_bind]
      simp [Yaffs2Volume.slot, hout]
  · have hfalse : pool .objects = false := by simpa using hpool
    refine Or.inl ⟨hfalse, ?_⟩
    simp [findOrCreateObject, ensureObjectsCapacity,
      if_neg (UInt32.not_le.mpr hgt), hfalse, EfiStatus.isError]

/-- Every call that does not fault, with or without room. -/
theorem findOrCreateObject_ok {vol vol' : Yaffs2Volume} (hok : TableOK vol)
    {pool : Pool} {objId : UInt32} (hid : objId ≠ 0)
    {found : Option Yaffs2Object}
    (h : findOrCreateObject pool vol objId = .ok (found, vol')) :
    (found = none → NotFound vol vol')
      ∧ ∀ obj, found = some obj → FoundObject vol objId obj vol' := by
  by_cases hroom : TableRoom vol.maxObjId objId
  · obtain ⟨found₁, vol₁, hrun, hnone, hsome, -⟩ :=
      findOrCreateObject_of_room hok pool hid hroom
    rw [hrun] at h
    obtain ⟨rfl, rfl⟩ := Prod.mk.inj (Except.ok.inj h)
    exact ⟨hnone, hsome⟩
  · rcases findOrCreateObject_of_no_room pool hroom with ⟨-, hrun⟩ | ⟨-, e, hrun⟩
    · rw [hrun] at h
      obtain ⟨rfl, rfl⟩ := Prod.mk.inj (Except.ok.inj h)
      exact ⟨fun _ => ⟨hok, fun _ => rfl⟩, fun obj h => (by cases h)⟩
    · rw [hrun] at h
      cases h

/-! ## The two calls -/

/-- What `ProcessHeader` does to the object it found. -/
def headerUpdate (tags : Yaffs2Tags) (body : PageData) (page : UInt32)
    (obj : Yaffs2Object) : Yaffs2Object :=
  if headerIsStale obj tags page then obj
  else { parseObjectHeader body obj with
    headerSeq := tags.seqNumber, headerPage := page }

/-- What a call may do to the object it found: a chunk whose array cannot be
grown leaves the object as it is. -/
def PageCall.Updates (pool : Pool) (obj obj' : Yaffs2Object) : PageCall → Prop
  | .header tags body page => obj' = headerUpdate tags body page obj
  | .chunk tags page => obj' = obj
      ∨ tags.chunkId ≠ 0 ∧ ∃ grown, growChunks pool obj tags.chunkId = .ok (some grown)
        ∧ recordChunk grown tags page = .ok obj'

theorem headerUpdate_objId (tags : Yaffs2Tags) (body : PageData) (page : UInt32)
    (obj : Yaffs2Object) : (headerUpdate tags body page obj).objId = obj.objId := by
  unfold headerUpdate
  split <;> rfl

/-- What `growChunks` does to an object: nothing, or a new array and its
length. -/
theorem growChunks_eq_some {pool : Pool} {obj obj' : Yaffs2Object} {chunkId : UInt32}
    (h : growChunks pool obj chunkId = .ok (some obj')) :
    ∃ chunks alloc, obj' = { obj with chunks := chunks, chunkAlloc := alloc } := by
  unfold growChunks at h
  split at h
  · simp only at h
    split at h
    · cases Except.ok.inj h
    · obtain ⟨chunks, -, hobj⟩ := bind_eq_ok.mp h
      exact ⟨some chunks, _, (Option.some.inj (Except.ok.inj hobj)).symm⟩
  · exact ⟨obj.chunks, obj.chunkAlloc, (Option.some.inj (Except.ok.inj h)).symm⟩

/-- What `recordChunk` does to an object: its array and its greatest chunk
id. -/
theorem recordChunk_eq_ok {obj obj' : Yaffs2Object} {tags : Yaffs2Tags}
    {page : UInt32} (h : recordChunk obj tags page = .ok obj') :
    ∃ chunks count, obj' = { obj with chunks := chunks, chunkCount := count } := by
  simp only [recordChunk] at h
  split at h
  · cases h
  · split at h
    · cases h
    · exact ⟨_, _, (Except.ok.inj h).symm⟩

/-- A chunk call leaves the header fields and the links alone. -/
theorem PageCall.Updates.of_chunk {pool : Pool} {obj obj' : Yaffs2Object}
    {tags : Yaffs2Tags} {page : UInt32}
    (h : (PageCall.chunk tags page).Updates pool obj obj') :
    ∃ chunks alloc count, obj' = { obj with
      chunks := chunks, chunkAlloc := alloc, chunkCount := count } := by
  rcases h with rfl | ⟨-, grown, hgrow, hrec⟩
  · exact ⟨_, _, _, rfl⟩
  · obtain ⟨chunks, alloc, rfl⟩ := growChunks_eq_some hgrow
    obtain ⟨chunks', count, rfl⟩ := recordChunk_eq_ok hrec
    exact ⟨_, _, _, rfl⟩

theorem PageCall.Updates.objId {pool : Pool} {obj obj' : Yaffs2Object}
    {c : PageCall} (h : c.Updates pool obj obj') : obj'.objId = obj.objId := by
  cases c with
  | header tags body page => rw [h, headerUpdate_objId]
  | chunk tags page =>
      obtain ⟨chunks, alloc, count, rfl⟩ := h.of_chunk
      rfl

theorem FoundObject.obj_id {vol : Yaffs2Volume} (hok : TableOK vol)
    {objId : UInt32} {obj : Yaffs2Object} {vol' : Yaffs2Volume}
    (h : FoundObject vol objId obj vol') : obj.objId = objId := by
  rw [h.obj_eq]
  cases hobj : vol.object? objId with
  | none => rfl
  | some o => exact hok.ids objId o hobj

/-- Storing what a call makes of the found object. -/
theorem FoundObject.store {vol : Yaffs2Volume} (hok : TableOK vol)
    {objId : UInt32} {obj obj' : Yaffs2Object} {vol' : Yaffs2Volume}
    (h : FoundObject vol objId obj vol') (hid : objId ≠ 0)
    (hkeep : obj'.objId = obj.objId) :
    TableOK (vol'.setSlot objId (some obj'))
      ∧ ∀ j, (vol'.setSlot objId (some obj')).object? j
          = if j = objId then some obj' else vol.object? j := by
  have hslot := h.slot hid
  constructor
  · refine h.table.setSlot hslot fun o ho => ?_
    rw [← Option.some.inj ho, hkeep, h.obj_id hok]
  · intro j
    rw [Yaffs2Volume.object?_setSlot hslot, h.others]
    split <;> rfl

/-- What a call that does not fault does to the table: nothing to any
object, or an update of the object with its id. -/
def PageCall.Effect (pool : Pool) (vol vol' : Yaffs2Volume) (c : PageCall) : Prop :=
  (∀ j, vol'.object? j = vol.object? j)
    ∨ ∃ obj', c.Updates pool ((vol.object? c.tags.objId).getD (.fresh c.tags.objId)) obj'
      ∧ ∀ j, vol'.object? j = if j = c.tags.objId then some obj' else vol.object? j

theorem processHeader_ok {vol vol' : Yaffs2Volume} (hok : TableOK vol)
    {pool : Pool} {body : PageData} {tags : Yaffs2Tags} {page : UInt32}
    (hid : tags.objId ≠ 0) (h : processHeader pool vol body tags page = .ok vol') :
    TableOK vol' ∧ (PageCall.header tags body page).Effect pool vol vol' := by
  obtain ⟨⟨found, vol₁⟩, hfind, hrest⟩ := bind_eq_ok.mp h
  obtain ⟨hnone, hsome⟩ := findOrCreateObject_ok hok hid hfind
  cases found with
  | none =>
      obtain rfl := Except.ok.inj hrest
      exact ⟨(hnone rfl).table, Or.inl (hnone rfl).objects⟩
  | some obj =>
      have hfound := hsome obj rfl
      simp only at hrest
      by_cases hstale : headerIsStale obj tags page = true
      · rw [if_pos hstale] at hrest
        obtain rfl := Except.ok.inj hrest
        have hobj : obj = headerUpdate tags body page obj := by
          rw [headerUpdate, if_pos hstale]
        exact ⟨hfound.table, Or.inr ⟨obj, hfound.obj_eq ▸ hobj, hfound.others⟩⟩
      · rw [if_neg hstale] at hrest
        obtain rfl := Except.ok.inj hrest
        have hobj : { parseObjectHeader body obj with
            headerSeq := tags.seqNumber, headerPage := page }
              = headerUpdate tags body page obj := (if_neg hstale).symm
        obtain ⟨htable, hview⟩ := hfound.store hok hid
          (show Yaffs2Object.objId { parseObjectHeader body obj with
            headerSeq := tags.seqNumber, headerPage := page } = obj.objId from rfl)
        exact ⟨htable, Or.inr ⟨_, hfound.obj_eq ▸ hobj, hview⟩⟩

theorem processDataChunk_ok {vol vol' : Yaffs2Volume} (hok : TableOK vol)
    {pool : Pool} {tags : Yaffs2Tags} {page : UInt32} (hid : tags.objId ≠ 0)
    (h : processDataChunk pool vol tags page = .ok vol') :
    TableOK vol' ∧ (PageCall.chunk tags page).Effect pool vol vol' := by
  unfold processDataChunk at h
  split at h
  · obtain rfl := Except.ok.inj h
    exact ⟨hok, Or.inl fun _ => rfl⟩
  · rename_i hchunk
    obtain ⟨⟨found, vol₁⟩, hfind, hrest⟩ := bind_eq_ok.mp h
    obtain ⟨hnone, hsome⟩ := findOrCreateObject_ok hok hid hfind
    cases found with
    | none =>
        obtain rfl := Except.ok.inj hrest
        exact ⟨(hnone rfl).table, Or.inl (hnone rfl).objects⟩
    | some obj =>
        have hfound := hsome obj rfl
        obtain ⟨grown, hgrow, hrest⟩ := bind_eq_ok.mp hrest
        cases grown with
        | none =>
            obtain rfl := Except.ok.inj hrest
            exact ⟨hfound.table,
              Or.inr ⟨obj, Or.inl hfound.obj_eq, hfound.others⟩⟩
        | some obj₁ =>
            obtain ⟨obj₂, hrec, hvol⟩ := bind_eq_ok.mp hrest
            obtain rfl := Except.ok.inj hvol
            have hupd : (PageCall.chunk tags page).Updates pool obj obj₂ :=
              Or.inr ⟨hchunk, obj₁, hgrow, hrec⟩
            obtain ⟨htable, hview⟩ := hfound.store hok hid hupd.objId
            exact ⟨htable, Or.inr ⟨obj₂, hfound.obj_eq ▸ hupd, hview⟩⟩

/-- No call that ends breaks the representation invariant, and it touches
only the object with its id. -/
theorem PageCall.apply_ok {vol vol' : Yaffs2Volume} (hok : TableOK vol)
    {pool : Pool} {c : PageCall} (hid : c.tags.objId ≠ 0)
    (h : c.apply pool vol = .ok vol') : TableOK vol' ∧ c.Effect pool vol vol' := by
  cases c with
  | header tags body page => exact processHeader_ok hok hid h
  | chunk tags page => exact processDataChunk_ok hok hid h

/-- A property of single objects that fresh objects have and updates keep
holds of every object after a call. -/
theorem PageCall.Effect.all {P : Yaffs2Object → Prop} {pool : Pool}
    {vol vol' : Yaffs2Volume} {c : PageCall} (h : c.Effect pool vol vol')
    (hfresh : P (.fresh c.tags.objId))
    (hupd : ∀ obj obj', P obj → c.Updates pool obj obj' → P obj')
    (hall : ∀ i obj, vol.object? i = some obj → P obj) :
    ∀ i obj, vol'.object? i = some obj → P obj := by
  intro i obj hobj
  rcases h with hsame | ⟨obj', hupd', hview⟩
  · rw [hsame] at hobj
    exact hall i obj hobj
  · rw [hview] at hobj
    split at hobj
    · obtain rfl := Option.some.inj hobj
      refine hupd _ _ ?_ hupd'
      cases hold : vol.object? c.tags.objId with
      | none => exact hfresh
      | some old => exact hall _ old hold
    · exact hall i obj hobj

end Ccr2004
