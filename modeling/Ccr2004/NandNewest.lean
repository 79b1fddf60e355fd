import Ccr2004.NandProbe
import Ccr2004.Newest
import Ccr2004.Runs
import Mathlib.Data.Prod.Lex

/-!
# What the probe's list says about the objects

The probe keeps one record for each object, the comment says the one with the
highest sequence number. The pages it accepts as object headers are versions
in the sense of `Newest`, ordered as the driver orders them: by sequence
number, and inside a block, whose pages share one, by page. `newestRecord` is
what the list should hold for an object.

The list is guarded against overflow before it is searched, so that a full
list is not updated either, and a record is replaced only by a strictly higher
sequence number, so that of two headers in one block the first one stays. A
scan is a run over the pages it reads (`probeBlocks_eq`); what one page does is
`newest_kept`, and `newest_lost` when it is one that should replace a record
and does not.
-/

namespace Ccr2004

/-! ## Several blocks -/

section Scan

variable {σ : Type} (readBlocks : UInt64 → σ → Except EfiStatus PageData × σ)

/-- The blocks that are scanned, in increasing order. A block for which no
page buffer is allocated changes nothing and is left out. -/
structure ScanOrder where
  blocks : List UInt32
  increasing : blocks.Pairwise (· < ·)

/-- The calls of `ScanBlockForYaffs` that `NandProbeAppEntry` makes, on one
list of objects. -/
def probeBlocks (objMax : Nat) :
    List UInt32 → Option (List YaffsObjRecord) → σ → Run (Option (List YaffsObjRecord) × σ)
  | [], objList, device => .ok (objList, device)
  | block :: blocks, objList, device => do
      let st ← scanBlockForYaffs readBlocks objMax block objList device
      probeBlocks objMax blocks st.objList st.device

/-- A page that was read, with its index on the device. -/
structure ProbedPage where
  index : Nat
  page : PageData

/-- `n` pages of a block from page `i` on, up to the first that cannot be
read. -/
def readsFrom (block : UInt32) : Nat → Nat → σ → List ProbedPage × σ
  | 0, _, device => ([], device)
  | n + 1, i, device =>
      match readBlocks (block.toUInt64 * UInt64.ofNat nandPagesPerBlock + UInt64.ofNat i)
        device with
      | (.error _, device) => ([], device)
      | (.ok page, device) =>
          let (pages, device) := readsFrom block n (i + 1) device
          (⟨block.toNat * nandPagesPerBlock + i, page⟩ :: pages, device)

/-- The pages a scan reads. -/
def pagesRead : List UInt32 → σ → List ProbedPage × σ
  | [], device => ([], device)
  | block :: blocks, device =>
      let (pages, device) := readsFrom readBlocks block nandPagesPerBlock 0 device
      let (rest, device) := pagesRead blocks device
      (pages ++ rest, device)

end Scan

/-! ## Header pages as versions -/

/-- A page that `ScanBlockForYaffs` takes for an object header. -/
def acceptsHeader (page : PageData) : Bool :=
  !isPageErased page && isValidYaffsTags page.inbandTags && isYaffsObjectHeader page.inbandTags
    && (page.objHdr .type ≥ yaffs2TypeFile && page.objHdr .type ≤ 5)

namespace ProbedPage

/-- The object a page is the header of. -/
def key (p : ProbedPage) : Option UInt32 :=
  if acceptsHeader p.page then some (recordOf p.page).objId else none

/-- What decides between two versions: the sequence number, then the page. -/
def stamp (p : ProbedPage) : ℕ ×ₗ ℕ :=
  toLex ((recordOf p.page).seqNumber.toNat, p.index)

end ProbedPage

/-- The record of the newest header of an object. -/
def newestRecord (seen : List ProbedPage) (id : UInt32) : Option YaffsObjRecord :=
  (Newest.winner ProbedPage.key ProbedPage.stamp seen id).map fun p => recordOf p.page

/-! ## The list over a run -/

/-- `ObjList` up to `ObjCount`, and the pages read so far. -/
structure ProbeRun where
  objs : List YaffsObjRecord
  seen : List ProbedPage

/-- What a page does to the list. -/
def recordPage (objMax : Nat) (page : PageData) (objs : List YaffsObjRecord) :
    List YaffsObjRecord :=
  if acceptsHeader page then recordObject objMax (recordOf page) objs else objs

def probeStep (objMax : Nat) (p : ProbedPage) (st : ProbeRun) : ProbeRun where
  objs := recordPage objMax p.page st.objs
  seen := st.seen ++ [p]

@[simp] theorem probeStep_objs (objMax : Nat) (p : ProbedPage) (st : ProbeRun) :
    (probeStep objMax p st).objs = recordPage objMax p.page st.objs := by
  rw [probeStep]

/-- The list keeps the newest version of each of its objects, one record for
each, within its capacity. -/
structure KeepsNewest (objMax : Nat) (st : ProbeRun) : Prop where
  newest : ∀ x ∈ st.objs, newestRecord st.seen x.objId = some x
  ids : (st.objs.map YaffsObjRecord.objId).Nodup
  capacity : st.objs.length ≤ objMax

/-- A page that is a newer header of an object in the list says what its
record says, or has a higher sequence number while the list has room. -/
def ReplacesNewer (objMax : Nat) (p : ProbedPage) (st : ProbeRun) : Prop :=
  ∀ x ∈ st.objs, p.key = some x.objId → x.seqNumber ≤ (recordOf p.page).seqNumber →
    recordOf p.page = x
      ∨ (x.seqNumber < (recordOf p.page).seqNumber ∧ st.objs.length < objMax)

/-- What carries the induction: the list as it should be, every accepted
object in it as long as it has room, and pages to come behind those read. -/
structure ProbeInv (objMax : Nat) (pages : List ProbedPage) (st : ProbeRun) : Prop where
  keeps : KeepsNewest objMax st
  complete : st.objs.length < objMax →
    ∀ p ∈ st.seen, ∀ id, p.key = some id → id ∈ st.objs.map YaffsObjRecord.objId
  behind : ∀ q ∈ st.seen, ∀ p ∈ pages, q.index < p.index
  increasing : pages.Pairwise (·.index < ·.index)

theorem probePage_objList {σ : Type} (objMax : Nat) (page : PageData) (st : ProbeState σ) :
    (probePage objMax page st).objList = st.objList.map (recordPage objMax page)
      ∧ (probePage objMax page st).device = st.device := by
  have hid : acceptsHeader page = false → recordPage objMax page = id := fun h => by
    funext objs
    rw [recordPage, h]
    rfl
  rw [probePage]
  by_cases herased : isPageErased page = true
  · rw [if_pos herased, hid (by simp [acceptsHeader, herased]), Option.map_id]
    exact ⟨rfl, rfl⟩
  rw [if_neg herased]
  by_cases hvalid : isValidYaffsTags page.inbandTags = true
  · rw [if_neg (by simp [hvalid])]
    by_cases hheader : isYaffsObjectHeader page.inbandTags = true
    · rw [if_pos hheader]
      by_cases htype : page.objHdr .type ≥ yaffs2TypeFile ∧ page.objHdr .type ≤ 5
      · have haccepts : acceptsHeader page = true := by
          simp [acceptsHeader, herased, hvalid, hheader, htype.1, htype.2]
        rw [if_pos htype]
        refine ⟨congrArg (st.objList.map ·) ?_, rfl⟩
        funext objs
        rw [recordPage, if_pos haccepts]
      · have hrejects : acceptsHeader page = false := by
          simp only [acceptsHeader, Bool.and_eq_false_iff, decide_eq_false_iff_not]
          rcases not_and_or.mp htype with h | h
          · exact .inr (.inl h)
          · exact .inr (.inr h)
        rw [if_neg htype, hid hrejects, Option.map_id]
        exact ⟨rfl, rfl⟩
    · rw [if_neg hheader, hid (by simp [acceptsHeader, hheader]), Option.map_id]
      exact ⟨rfl, rfl⟩
  · rw [if_pos (by simpa using hvalid), hid (by simp [acceptsHeader, hvalid]), Option.map_id]
    exact ⟨rfl, rfl⟩

/-! ## The list under one record -/

/-- What is in the list after a record with a known id. -/
theorem mem_updateRecord_cases {r x : YaffsObjRecord} {objs objs' : List YaffsObjRecord}
    (hnodup : (objs.map YaffsObjRecord.objId).Nodup) (h : updateRecord r objs = some objs')
    (hx : x ∈ objs') :
    (x ∈ objs ∧ x.objId ≠ r.objId)
      ∨ ∃ old ∈ objs, old.objId = r.objId ∧ x = if r.seqNumber > old.seqNumber then r else old := by
  obtain ⟨pre, old, post, rfl, hid, rfl⟩ := updateRecord_eq_some h
  rw [List.map_append, List.map_cons, List.nodup_middle, List.nodup_cons, List.mem_append,
    not_or, hid] at hnodup
  obtain ⟨⟨hpre, hpost⟩, -⟩ := hnodup
  rcases List.mem_append.mp hx with hmem | hrest
  · exact .inl ⟨List.mem_append_left _ hmem, fun hxid => hpre (hxid ▸ List.mem_map_of_mem hmem)⟩
  · rcases List.mem_cons.mp hrest with rfl | hmem
    · exact .inr ⟨old, List.mem_append_right _ List.mem_cons_self, hid, rfl⟩
    · exact .inl ⟨List.mem_append_right _ (List.mem_cons_of_mem _ hmem),
        fun hxid => hpost (hxid ▸ List.mem_map_of_mem hmem)⟩

/-- A record that is not exceeded stays. -/
theorem mem_updateRecord_of_le {r x : YaffsObjRecord} {objs objs' : List YaffsObjRecord}
    (h : updateRecord r objs = some objs') (hx : x ∈ objs) (hle : ¬ r.seqNumber > x.seqNumber) :
    x ∈ objs' := by
  obtain ⟨pre, old, post, rfl, -, rfl⟩ := updateRecord_eq_some h
  rcases List.mem_append.mp hx with hmem | hrest
  · exact List.mem_append_left _ hmem
  · refine List.mem_append_right _ ?_
    rcases List.mem_cons.mp hrest with rfl | hmem
    · rw [if_neg hle]
      exact List.mem_cons_self
    · exact List.mem_cons_of_mem _ hmem

theorem updateRecord_mem {r : YaffsObjRecord} {objs objs' : List YaffsObjRecord}
    (h : updateRecord r objs = some objs') : r.objId ∈ objs.map YaffsObjRecord.objId := by
  obtain ⟨pre, old, post, rfl, hid, -⟩ := updateRecord_eq_some h
  rw [← hid]
  exact List.mem_map_of_mem (List.mem_append_right _ List.mem_cons_self)

theorem length_updateRecord {r : YaffsObjRecord} {objs objs' : List YaffsObjRecord}
    (h : updateRecord r objs = some objs') : objs'.length = objs.length := by
  have hids := congrArg List.length (updateRecord_ids h)
  rwa [List.length_map, List.length_map] at hids

/-! ## The newest record under one page -/

variable {objMax : Nat} {pages : List ProbedPage} {p : ProbedPage} {st : ProbeRun}

theorem newestRecord_other {seen : List ProbedPage} {id : UInt32} (h : p.key ≠ some id) :
    newestRecord (seen ++ [p]) id = newestRecord seen id := by
  rw [newestRecord, Newest.winner_concat_ne h, newestRecord]

theorem newestRecord_first {seen : List ProbedPage} {id : UInt32} (hkey : p.key = some id)
    (h : ∀ q ∈ seen, q.key ≠ some id) :
    newestRecord (seen ++ [p]) id = some (recordOf p.page) := by
  rw [newestRecord, Newest.winner_concat_self hkey, Newest.winner_eq_none_iff.mpr h]
  rfl

/-- Of two versions the later page wins unless its sequence number is
lower. -/
theorem newestRecord_again {seen : List ProbedPage} {id : UInt32} {x : YaffsObjRecord}
    (hkey : p.key = some id) (h : newestRecord seen id = some x)
    (hbehind : ∀ q ∈ seen, q.index < p.index) :
    newestRecord (seen ++ [p]) id =
      some (if x.seqNumber ≤ (recordOf p.page).seqNumber then recordOf p.page else x) := by
  obtain ⟨q, hq, rfl⟩ := Option.map_eq_some_iff.mp h
  have hindex := hbehind q (Newest.winner_mem hq).1
  have hstamp : q.stamp < p.stamp ↔ (recordOf q.page).seqNumber ≤ (recordOf p.page).seqNumber := by
    rw [ProbedPage.stamp, ProbedPage.stamp, Prod.Lex.toLex_lt_toLex, UInt32.le_iff_toNat_le]
    constructor
    · rintro (hlt | ⟨heq, -⟩)
      · exact Nat.le_of_lt hlt
      · exact Nat.le_of_eq heq
    · intro hle
      rcases Nat.lt_or_eq_of_le hle with hlt | heq
      · exact .inl hlt
      · exact .inr ⟨heq, hindex⟩
  rw [newestRecord, Newest.winner_concat_self hkey, hq, Newest.supersede, Option.map_some]
  by_cases hle : (recordOf q.page).seqNumber ≤ (recordOf p.page).seqNumber
  · rw [if_pos hle, if_pos (hstamp.mpr hle)]
  · rw [if_neg hle, if_neg fun hlt => hle (hstamp.mp hlt)]

theorem key_eq_some_iff {id : UInt32} :
    p.key = some id ↔ acceptsHeader p.page = true ∧ (recordOf p.page).objId = id := by
  rw [ProbedPage.key]
  split
  · simp [*]
  · simp [*]

/-! ## One page -/

/-- A record that the page leaves alone is still the newest when the page is
no newer header of its object, or says the same. -/
theorem KeepsNewest.untouched (h : KeepsNewest objMax st)
    (hbehind : ∀ q ∈ st.seen, q.index < p.index) {x : YaffsObjRecord} (hx : x ∈ st.objs)
    (hsame : p.key = some x.objId → x.seqNumber ≤ (recordOf p.page).seqNumber →
      recordOf p.page = x) :
    newestRecord (st.seen ++ [p]) x.objId = some x := by
  by_cases hkey : p.key = some x.objId
  · rw [newestRecord_again hkey (h.newest x hx) hbehind]
    by_cases hle : x.seqNumber ≤ (recordOf p.page).seqNumber
    · rw [if_pos hle, hsame hkey hle]
    · rw [if_neg hle]
  · rw [newestRecord_other hkey, h.newest x hx]

/-- The record that stands in for an object the list already has. -/
theorem KeepsNewest.replaced (h : KeepsNewest objMax st)
    (hbehind : ∀ q ∈ st.seen, q.index < p.index) {old : YaffsObjRecord} (hold : old ∈ st.objs)
    (hkey : p.key = some old.objId) (hid : old.objId = (recordOf p.page).objId)
    (hnewer : old.seqNumber ≤ (recordOf p.page).seqNumber →
      recordOf p.page = old ∨ old.seqNumber < (recordOf p.page).seqNumber) :
    newestRecord (st.seen ++ [p])
        (if (recordOf p.page).seqNumber > old.seqNumber then recordOf p.page else old).objId
      = some (if (recordOf p.page).seqNumber > old.seqNumber then recordOf p.page else old) := by
  have hnewest := newestRecord_again hkey (h.newest old hold) hbehind
  by_cases hle : old.seqNumber ≤ (recordOf p.page).seqNumber
  · rw [if_pos hle] at hnewest
    by_cases hlt : (recordOf p.page).seqNumber > old.seqNumber
    · rw [if_pos hlt, ← hid]
      exact hnewest
    · rw [if_neg hlt, hnewest]
      exact congrArg some ((hnewer hle).resolve_right hlt)
  · rw [if_neg hle] at hnewest
    rw [if_neg fun hlt => hle (UInt32.le_of_lt hlt)]
    exact hnewest

/-- What a page can do to the list: nothing, replace a record, or add one. -/
theorem recordPage_cases (objMax : Nat) (page : PageData) (objs : List YaffsObjRecord) :
    ((acceptsHeader page = false ∨ ¬ objs.length < objMax) ∧ recordPage objMax page objs = objs)
      ∨ (objs.length < objMax ∧ acceptsHeader page = true
        ∧ updateRecord (recordOf page) objs = some (recordPage objMax page objs))
      ∨ (objs.length < objMax ∧ acceptsHeader page = true
        ∧ updateRecord (recordOf page) objs = none
        ∧ recordPage objMax page objs = objs ++ [recordOf page]) := by
  cases haccepts : acceptsHeader page with
  | false => exact .inl ⟨.inl rfl, by rw [recordPage, haccepts]; rfl⟩
  | true =>
      rw [recordPage, if_pos haccepts, recordObject]
      by_cases hroom : objs.length < objMax
      · rw [if_pos hroom]
        cases hupdate : updateRecord (recordOf page) objs with
        | none => exact .inr (.inr ⟨hroom, rfl, rfl, rfl⟩)
        | some objs' => exact .inr (.inl ⟨hroom, rfl, rfl⟩)
      · exact .inl ⟨.inr hroom, if_neg hroom⟩

theorem ProbeInv.index_lt (h : ProbeInv objMax (p :: pages) st) :
    ∀ q ∈ st.seen, q.index < p.index :=
  fun q hq => h.behind q hq p List.mem_cons_self

/-- A page under the condition leaves the list as it should be. -/
theorem newest_kept (h : ProbeInv objMax (p :: pages) st) (hok : ReplacesNewer objMax p st) :
    KeepsNewest objMax (probeStep objMax p st) := by
  have hbehind := h.index_lt
  rcases recordPage_cases objMax p.page st.objs with
    ⟨hwhy, hobjs⟩ | ⟨hroom, haccepts, hupdate⟩ | ⟨hroom, haccepts, hfresh, hobjs⟩
  · have hsame : ∀ x ∈ st.objs, newestRecord (st.seen ++ [p]) x.objId = some x := fun x hx =>
      h.keeps.untouched hbehind hx fun hkey hle => by
        rcases hok x hx hkey hle with hsays | ⟨-, hroom⟩
        · exact hsays
        · rcases hwhy with hrejects | hfull
          · rw [(key_eq_some_iff.mp hkey).1] at hrejects
            cases hrejects
          · exact absurd hroom hfull
    refine ⟨?_, ?_, ?_⟩
    · rw [probeStep_objs, hobjs]
      exact hsame
    · rw [probeStep_objs, hobjs]
      exact h.keeps.ids
    · rw [probeStep_objs, hobjs]
      exact h.keeps.capacity
  · refine ⟨fun x hx => ?_, ?_, ?_⟩
    · rw [probeStep_objs] at hx
      rcases mem_updateRecord_cases h.keeps.ids hupdate hx with ⟨hold, hne⟩ | ⟨old, hold, hid, rfl⟩
      · exact h.keeps.untouched hbehind hold fun hkey _ =>
          absurd (key_eq_some_iff.mp hkey).2.symm hne
      · have hkey : p.key = some old.objId := key_eq_some_iff.mpr ⟨haccepts, hid.symm⟩
        exact h.keeps.replaced hbehind hold hkey hid fun hle =>
          (hok old hold hkey hle).imp_right And.left
    · rw [probeStep_objs, updateRecord_ids hupdate]
      exact h.keeps.ids
    · rw [probeStep_objs, length_updateRecord hupdate]
      exact h.keeps.capacity
  · have hnew : ∀ q ∈ st.seen, q.key ≠ some (recordOf p.page).objId := fun q hq hkey =>
      updateRecord_none hfresh (h.complete hroom q hq _ hkey)
    refine ⟨fun x hx => ?_, ?_, ?_⟩
    · rw [probeStep_objs, hobjs] at hx
      rcases List.mem_append.mp hx with hold | hlast
      · refine h.keeps.untouched hbehind hold fun hkey _ => absurd ?_ (updateRecord_none hfresh)
        rw [(key_eq_some_iff.mp hkey).2]
        exact List.mem_map_of_mem hold
      · obtain rfl := List.mem_singleton.mp hlast
        exact newestRecord_first (key_eq_some_iff.mpr ⟨haccepts, rfl⟩) hnew
    · rw [probeStep_objs, hobjs, List.map_append, List.map_singleton]
      exact h.keeps.ids.append (List.nodup_singleton _)
        (List.disjoint_singleton.mpr (updateRecord_none hfresh))
    · rw [probeStep_objs, hobjs, List.length_append, List.length_singleton]
      exact hroom

theorem probeInv_step (h : ProbeInv objMax (p :: pages) st) (hok : ReplacesNewer objMax p st) :
    ProbeInv objMax pages (probeStep objMax p st) where
  keeps := newest_kept h hok
  complete := by
    intro hroom' q hq id hkey
    rcases recordPage_cases objMax p.page st.objs with
      ⟨hwhy, hobjs⟩ | ⟨hroom, haccepts, hupdate⟩ | ⟨hroom, haccepts, -, hobjs⟩
    · rw [probeStep_objs, hobjs] at hroom' ⊢
      rcases List.mem_append.mp hq with hold | hnew
      · exact h.complete hroom' q hold id hkey
      · obtain rfl := List.mem_singleton.mp hnew
        rcases hwhy with hrejects | hfull
        · rw [(key_eq_some_iff.mp hkey).1] at hrejects
          cases hrejects
        · exact absurd hroom' hfull
    · rw [probeStep_objs, updateRecord_ids hupdate]
      rcases List.mem_append.mp hq with hold | hnew
      · exact h.complete hroom q hold id hkey
      · obtain rfl := List.mem_singleton.mp hnew
        rw [← (key_eq_some_iff.mp hkey).2]
        exact updateRecord_mem hupdate
    · rw [probeStep_objs, hobjs, List.map_append, List.map_singleton]
      rcases List.mem_append.mp hq with hold | hnew
      · exact List.mem_append_left _ (h.complete hroom q hold id hkey)
      · obtain rfl := List.mem_singleton.mp hnew
        rw [← (key_eq_some_iff.mp hkey).2]
        exact List.mem_append_right _ List.mem_cons_self
  behind := by
    intro q hq p' hp'
    rcases List.mem_append.mp hq with hold | hnew
    · exact h.behind q hold p' (List.mem_cons_of_mem _ hp')
    · obtain rfl := List.mem_singleton.mp hnew
      exact (List.pairwise_cons.mp h.increasing).1 p' hp'
  increasing := (List.pairwise_cons.mp h.increasing).2

/-- A newer header that neither says what the record says nor replaces it:
the record that is still there is not the newest. -/
theorem newest_lost (h : ProbeInv objMax (p :: pages) st) (hbad : ¬ ReplacesNewer objMax p st) :
    ¬ KeepsNewest objMax (probeStep objMax p st) := by
  rw [ReplacesNewer] at hbad
  push Not at hbad
  obtain ⟨x, hx, hkey, hle, hsays, hstays⟩ := hbad
  intro hkeeps
  have hstill : x ∈ (probeStep objMax p st).objs := by
    rcases recordPage_cases objMax p.page st.objs with
      ⟨-, hobjs⟩ | ⟨hroom, -, hupdate⟩ | ⟨hroom, -, -, hobjs⟩
    · rw [probeStep_objs, hobjs]
      exact hx
    · rw [probeStep_objs]
      exact mem_updateRecord_of_le hupdate hx fun hlt => absurd hroom (Nat.not_lt.mpr (hstays hlt))
    · rw [probeStep_objs, hobjs]
      exact List.mem_append_left _ hx
  have hnewest := newestRecord_again hkey (h.keeps.newest x hx) h.index_lt
  rw [if_pos hle] at hnewest
  exact hsays (Option.some.inj (hnewest.symm.trans (hkeeps.newest x hstill)))

/-! ## A scan is a run -/

theorem runEvents_probeStep (seen : List ProbedPage) (objs : List YaffsObjRecord) :
    (runEvents (probeStep objMax) pages ⟨objs, seen⟩).objs =
      pages.foldl (fun objs p => recordPage objMax p.page objs) objs := by
  induction pages generalizing objs seen with
  | nil => rfl
  | cons p pages ih =>
      rw [runEvents_cons, List.foldl_cons, probeStep, ih]

section Reads

variable {σ : Type} (readBlocks : UInt64 → σ → Except EfiStatus PageData × σ)

/-- The page loop records the pages it reads. -/
theorem forFrom_probePageAt (objMax : Nat) (block : UInt32) (n i : Nat) (st : ProbeState σ) :
    ∃ c, forFrom (probePageAt readBlocks objMax
          (block.toUInt64 * UInt64.ofNat nandPagesPerBlock)) n i st = .ok c
      ∧ c.state.objList = st.objList.map ((readsFrom readBlocks block n i st.device).1.foldl
          fun objs p => recordPage objMax p.page objs)
      ∧ c.state.device = (readsFrom readBlocks block n i st.device).2 := by
  induction n generalizing i st with
  | zero => exact ⟨.next st, rfl, (congrFun Option.map_id st.objList).symm, rfl⟩
  | succ n ih =>
      rw [readsFrom]
      cases hread : readBlocks (block.toUInt64 * UInt64.ofNat nandPagesPerBlock + UInt64.ofNat i)
          st.device with
      | mk answer device =>
          cases answer with
          | error status =>
              refine ⟨_, forFrom_succ_exit (by rw [probePageAt, hread]), ?_, rfl⟩
              exact (congrFun Option.map_id st.objList).symm
          | ok page =>
              obtain ⟨hobjs, hdevice⟩ := probePage_objList objMax page { st with device := device }
              obtain ⟨c, hrun, hlist, hend⟩ :=
                ih (i + 1) (probePage objMax page { st with device := device })
              refine ⟨c, ?_, ?_, ?_⟩
              · rw [forFrom_succ_next (by rw [probePageAt, hread])]
                exact hrun
              · rw [hlist, hobjs, hdevice, Option.map_map]
                rfl
              · rw [hend, hdevice]

/-- A scan leaves the list as the run over the pages it reads does. -/
theorem probeBlocks_eq (blocks : List UInt32) (seen : List ProbedPage)
    (objs : List YaffsObjRecord) (device : σ) :
    probeBlocks readBlocks objMax blocks (some objs) device =
      .ok (some (runEvents (probeStep objMax) (pagesRead readBlocks blocks device).1
          ⟨objs, seen⟩).objs, (pagesRead readBlocks blocks device).2) := by
  simp only [runEvents_probeStep]
  induction blocks generalizing objs device with
  | nil => rfl
  | cons block blocks ih =>
      obtain ⟨c, hrun, hlist, hend⟩ :=
        forFrom_probePageAt readBlocks objMax block nandPagesPerBlock 0 ⟨device, 0, some objs⟩
      rw [probeBlocks, scanBlockForYaffs, hrun]
      simp only [ok_bind]
      rw [hlist, hend, Option.map_some, ih, pagesRead]
      simp only [List.foldl_append]

/-! ## The order of the pages -/

theorem readsFrom_index (block : UInt32) (n i : Nat) (device : σ) :
    (∀ p ∈ (readsFrom readBlocks block n i device).1,
        block.toNat * nandPagesPerBlock + i ≤ p.index
          ∧ p.index < block.toNat * nandPagesPerBlock + i + n)
      ∧ (readsFrom readBlocks block n i device).1.Pairwise (·.index < ·.index) := by
  induction n generalizing i device with
  | zero => exact ⟨fun p hp => absurd hp List.not_mem_nil, List.Pairwise.nil⟩
  | succ n ih =>
      rw [readsFrom]
      cases hread : readBlocks (block.toUInt64 * UInt64.ofNat nandPagesPerBlock + UInt64.ofNat i)
          device with
      | mk answer device =>
          cases answer with
          | error status => exact ⟨fun p hp => absurd hp List.not_mem_nil, List.Pairwise.nil⟩
          | ok page =>
              obtain ⟨hbounds, hsorted⟩ := ih (i + 1) device
              refine ⟨fun p hp => ?_, List.pairwise_cons.mpr ⟨fun p hp => ?_, hsorted⟩⟩
              · rcases List.mem_cons.mp hp with rfl | hrest
                · exact ⟨Nat.le_refl _, by dsimp only; omega⟩
                · have hp' := hbounds p hrest
                  omega
              · have hp' := hbounds p hp
                dsimp only
                omega

theorem pagesRead_index {blocks : List UInt32} (hblocks : blocks.Pairwise (· < ·))
    (device : σ) :
    (∀ p ∈ (pagesRead readBlocks blocks device).1, ∃ block ∈ blocks,
        block.toNat * nandPagesPerBlock ≤ p.index)
      ∧ (pagesRead readBlocks blocks device).1.Pairwise (·.index < ·.index) := by
  induction blocks generalizing device with
  | nil => exact ⟨fun p hp => absurd hp List.not_mem_nil, List.Pairwise.nil⟩
  | cons block blocks ih =>
      obtain ⟨hlater, hrest⟩ := List.pairwise_cons.mp hblocks
      rw [pagesRead]
      obtain ⟨hbounds, hsorted⟩ :=
        readsFrom_index readBlocks block nandPagesPerBlock 0 device
      obtain ⟨hbehind, hsorted'⟩ :=
        ih hrest (readsFrom readBlocks block nandPagesPerBlock 0 device).2
      refine ⟨fun p hp => ?_, List.pairwise_append.mpr ⟨hsorted, hsorted', fun p hp q hq => ?_⟩⟩
      · rcases List.mem_append.mp hp with hfirst | hlast
        · exact ⟨block, List.mem_cons_self, (hbounds p hfirst).1⟩
        · obtain ⟨block', hmem, hle⟩ := hbehind p hlast
          exact ⟨block', List.mem_cons_of_mem _ hmem, hle⟩
      · obtain ⟨block', hmem, hle⟩ := hbehind q hq
        have hlt : block.toNat < block'.toNat := UInt32.lt_iff_toNat_lt.mp (hlater block' hmem)
        have hp' := (hbounds p hp).2
        have hstep := Nat.mul_le_mul_right nandPagesPerBlock (Nat.succ_le_of_lt hlt)
        rw [Nat.succ_mul] at hstep
        omega

end Reads

/-! ## The scan -/

section Scans

variable {σ : Type} (readBlocks : UInt64 → σ → Except EfiStatus PageData × σ) (objMax : UInt32)
  (order : ScanOrder) (device : σ)

/-- At every point of a scan the list keeps the newest version of each of its
objects. -/
def ScanKeepsNewest : Prop :=
  AlongRun (probeStep objMax.toNat) (KeepsNewest objMax.toNat)
    (pagesRead readBlocks order.blocks device).1 ⟨[], []⟩

/-- No page of a scan is a newer header that the list does not take. -/
def ScanReplacesNewer : Prop :=
  StepsMeet (probeStep objMax.toNat) (ReplacesNewer objMax.toNat)
    (pagesRead readBlocks order.blocks device).1 ⟨[], []⟩

variable {readBlocks objMax order device}

theorem ProbeInv.start (hpages : pages.Pairwise (·.index < ·.index)) (objMax : Nat) :
    ProbeInv objMax pages ⟨[], []⟩ where
  keeps := ⟨fun _ hx => absurd hx List.not_mem_nil, List.nodup_nil, Nat.zero_le _⟩
  complete := fun _ _ hq => absurd hq List.not_mem_nil
  behind := fun _ hq => absurd hq List.not_mem_nil
  increasing := hpages

theorem ScanKeepsNewest.iff_replaces :
    ScanKeepsNewest readBlocks objMax order device
      ↔ ScanReplacesNewer readBlocks objMax order device :=
  alongRun_iff_stepsMeet_of (ProbeInv objMax.toNat) (fun _ _ h => h.keeps)
    (fun _ _ _ h hok => probeInv_step h hok) (fun _ _ _ h hbad => newest_lost h hbad) _
    (ProbeInv.start (pagesRead_index readBlocks order.increasing device).2 _)

end Scans

/-- A scan in increasing order leaves the list as its pages do, one after the
other. At every point of it the list holds the newest header of each of its
objects exactly when every page that is a newer header of an object in the
list says what the record says, or has a higher sequence number while the
list has room. -/
theorem scanKeepsNewest_iff {σ : Type}
    (readBlocks : UInt64 → σ → Except EfiStatus PageData × σ) (objMax : UInt32)
    (order : ScanOrder) (device : σ) :
    probeBlocks readBlocks objMax.toNat order.blocks (some []) device =
        .ok (some (runEvents (probeStep objMax.toNat)
            (pagesRead readBlocks order.blocks device).1 ⟨[], []⟩).objs,
          (pagesRead readBlocks order.blocks device).2)
      ∧ (ScanKeepsNewest readBlocks objMax order device
        ↔ ScanReplacesNewer readBlocks objMax order device) :=
  ⟨probeBlocks_eq readBlocks order.blocks [] [] device, ScanKeepsNewest.iff_replaces⟩

/-- The header of `filePage` again, with another size. -/
def grownPage : PageData := fun i => if i.val = 0x124 then 200 else filePage i

/-- A block whose first two pages are headers of one object. -/
def twoHeaders (lba : UInt64) (device : Unit) : Except EfiStatus PageData × Unit :=
  if lba = 0 then (.ok filePage, device)
  else if lba = 1 then (.ok grownPage, device)
  else (.error .deviceError, device)

theorem pagesRead_twoHeaders :
    (pagesRead twoHeaders [0] ()).1 = [⟨0, filePage⟩, ⟨1, grownPage⟩] := rfl

def firstBlock : ScanOrder := ⟨[0], List.pairwise_singleton _ _⟩

/-- The list keeps the first of the two headers. -/
theorem not_scanKeepsNewest_twoHeaders : ¬ ScanKeepsNewest twoHeaders 256 firstBlock () := by
  intro hkeeps
  have hfirst : (probeStep 256 ⟨0, filePage⟩ ⟨[], []⟩).objs = [recordOf filePage] := by
    have haccepts : acceptsHeader filePage = true := by decide +kernel
    rw [probeStep_objs, recordPage, if_pos haccepts]
    rfl
  have hsteps : ScanReplacesNewer twoHeaders 256 firstBlock () :=
    ScanKeepsNewest.iff_replaces.mp hkeeps
  rw [ScanReplacesNewer, firstBlock, pagesRead_twoHeaders] at hsteps
  have hsecond : ReplacesNewer 256 ⟨1, grownPage⟩ (probeStep 256 ⟨0, filePage⟩ ⟨[], []⟩) :=
    hsteps.2.1
  have hkey : ProbedPage.key ⟨1, grownPage⟩ = some (recordOf filePage).objId := by decide +kernel
  have hsays : (recordOf grownPage).fileSize ≠ (recordOf filePage).fileSize := by decide +kernel
  have hseq : (recordOf grownPage).seqNumber = (recordOf filePage).seqNumber := by decide +kernel
  have hmem : recordOf filePage ∈ (probeStep 256 ⟨0, filePage⟩ ⟨[], []⟩).objs := by
    rw [hfirst]
    exact List.mem_cons_self
  rcases hsecond _ hmem hkey (UInt32.le_of_eq hseq.symm) with hsame | ⟨hlt, -⟩
  · exact hsays (congrArg YaffsObjRecord.fileSize hsame)
  · exact absurd hlt (by rw [hseq]; exact UInt32.lt_irrefl _)

end Ccr2004
