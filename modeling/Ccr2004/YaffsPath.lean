import Mathlib.Data.List.TakeWhile
import Mathlib.Data.Vector.Mem
import Ccr2004.YaffsDirectory
import Ccr2004.YaffsOpen

/-!
# Path resolution

What `Yaffs2Open` is for: the fold of `enter` over the components of the
path (`resolvePath`). The scanner in `Open.c` works in place on a buffer,
with two rules for advancing and a prefix comparison for equality;
`walkPath_eq` shows that on any volume the tree construction leaves it
computes the fold and stays inside its buffers.
-/

namespace Ccr2004

/-! ## The meaning of a path -/

def dot : UInt16 := 0x2E
def backslash : UInt16 := 0x5C

/-- The non-empty components between backslashes. -/
def components (path : List UInt16) : List (List UInt16) :=
  (path.splitOn backslash).filter fun comp => comp ≠ []

/-- The zero-terminated name of an object, as characters. -/
def Yaffs2Object.chars (obj : Yaffs2Object) : List UInt16 :=
  (cString obj.name.toList).map UInt8.toUInt16

/-- The object a hardlink stands for, after fewer than `n` hops. -/
def followHardlinks (vol : Yaffs2Volume) : Nat → UInt32 → Option UInt32
  | 0, _ => none
  | n + 1, id => (vol.object? id).bind fun obj =>
      if obj.type ≠ yaffs2TypeHardlink then some id
      else followHardlinks vol n obj.equivId

/-- Enter one component from an object. -/
def enter (vol : Yaffs2Volume) (current : UInt32) (comp : List UInt16) : Option UInt32 :=
  if comp = [dot] then some current
  else if comp = [dot, dot] then some ((vol.parentOf current).getD current)
  else
    (vol.object? current).bind fun obj =>
      if obj.type = yaffs2TypeDir then
        (obj.children.find? fun c =>
          decide ((vol.object? c).map Yaffs2Object.chars = some comp)).bind
            (followHardlinks vol 16)
      else none

/-- The object at the end of a list of components. -/
def resolvePath (vol : Yaffs2Volume) (start : UInt32) (comps : List (List UInt16)) :
    Option UInt32 :=
  comps.foldlM (enter vol) start

/-- Where resolution starts: the root for a path with a leading backslash,
otherwise the handle's directory, or the parent of the handle's file. -/
def pathStart (vol : Yaffs2Volume) (handle : UInt32) (path : List UInt16) : UInt32 :=
  if path.head? = some backslash then 1
  else if (vol.object? handle).map Yaffs2Object.type = some yaffs2TypeDir then handle
  else (vol.parentOf handle).getD 1

/-! ## Mounted volumes -/

/-- A volume that `BuildTree` made of a table the scan can reach, with a
root. -/
def BuiltTree (vol : Yaffs2Volume) : Prop :=
  ∃ scanned fuel, Reached scanned ∧ buildTree fuel scanned = .ok vol ∧ vol.root ≠ none

/-- What path resolution relies on: every pointer of the tree leads to an
object, and every name is terminated. -/
structure VolumeOK (vol : Yaffs2Volume) : Prop where
  table : TableOK vol
  zero : vol.object? 0 = none
  root : vol.root = some 1
  rootLive : (vol.object? 1).isSome = true
  children : ∀ i obj, vol.object? i = some obj → ∀ c ∈ obj.children,
    (vol.object? c).isSome = true
  parent : ∀ i obj p, vol.object? i = some obj → obj.parent = some p →
    (vol.object? p).isSome = true
  terminated : ∀ i obj, vol.object? i = some obj → (0 : UInt8) ∈ obj.name.toList

theorem BuiltTree.volumeOK {vol : Yaffs2Volume} (h : BuiltTree vol) : VolumeOK vol := by
  obtain ⟨scanned, fuel, hreached, hbuild, hroot⟩ := h
  obtain ⟨tree, pruned, hrun, hok, -, -, hpruned, htree, hrooted⟩ :=
    buildTree_spec hreached.untied (Nat.le_max_left loopLimit fuel)
  obtain rfl : tree = vol :=
    Except.ok.inj (hrun.symm.trans (buildTree_mono (Nat.le_max_right loopLimit fuel) hbuild))
  have hlive : ∀ j, (pruned.object? j).isSome = true → (tree.object? j).isSome = true := by
    intro j hj
    rw [htree, Option.isSome_map, ← hpruned]
    exact hj
  have hobj : ∀ i obj, tree.object? i = some obj → ∃ old, scanned.object? i = some old
      ∧ tied pruned (scanned.maxObjId.toNat + 1) i old = obj := by
    intro i obj hi
    rw [htree, Option.map_eq_some_iff] at hi
    obtain ⟨old, hold, heq⟩ := hi
    exact ⟨old, (keptObject_eq_some.mp hold).1, heq⟩
  have hsurvivor : (survivor scanned 1).isSome = true := by
    cases hs : survivor scanned 1 with
    | none => rw [hs] at hrooted; exact absurd hrooted hroot
    | some root => rfl
  refine ⟨hok, ?_, ?_, ?_, ?_, ?_, ?_⟩
  · rw [htree, survivor, hreached.object?_zero]
    rfl
  · obtain ⟨root, hs⟩ := Option.isSome_iff_exists.mp hsurvivor
    rw [hrooted, hs]
    rfl
  · rw [htree, Option.isSome_map]
    exact hsurvivor
  · intro i obj hi c hc
    obtain ⟨old, -, rfl⟩ := hobj i obj hi
    have hlink : linkTarget pruned c = some i := by
      simpa using (List.mem_filter.mp hc).2
    exact hlive c (linkTarget_source hlink)
  · intro i obj p hi hp
    obtain ⟨old, -, rfl⟩ := hobj i obj hi
    simp only [tied] at hp
    split at hp
    · exact hlive p (linkTarget_isSome hp)
    · cases hp
  · intro i obj hi
    obtain ⟨old, hold, rfl⟩ := hobj i obj hi
    exact (List.Vector.mem_iff_get 0 old.name).mpr
      ⟨255, (hreached.scanned i old hold).terminated⟩

/-! ## Objects and links -/

section Walk

variable {vol : Yaffs2Volume}

theorem VolumeOK.slot (hvol : VolumeOK vol) {id : UInt32} {obj : Yaffs2Object}
    (hobj : vol.object? id = some obj) : vol.slot id = .ok (some obj) := by
  have hid : id ≠ 0 := by
    rintro rfl
    rw [hvol.zero] at hobj
    cases hobj
  rw [hvol.table.slot hid (hvol.table.le_of_object? hobj), hobj]

theorem VolumeOK.deref (hvol : VolumeOK vol) {id : UInt32} {obj : Yaffs2Object}
    (hobj : vol.object? id = some obj) : vol.deref (some id) = .ok obj := by
  rw [Yaffs2Volume.deref, hvol.slot hobj, ok_bind]

theorem followHardlinks_stop {id : UInt32} {obj : Yaffs2Object}
    (hobj : vol.object? id = some obj) (htype : obj.type ≠ yaffs2TypeHardlink) (n : Nat) :
    followHardlinks vol (n + 1) id = some id := by
  rw [followHardlinks, hobj, Option.bind_some, if_pos htype]

theorem followHardlinks_hop {id : UInt32} {obj : Yaffs2Object}
    (hobj : vol.object? id = some obj) (htype : obj.type = yaffs2TypeHardlink) (n : Nat) :
    followHardlinks vol (n + 1) id = followHardlinks vol n obj.equivId := by
  rw [followHardlinks, hobj, Option.bind_some, if_neg fun h => h htype]

/-- `ResolveHardlinks` follows the links and returns an object or null. -/
theorem resolveHardlinks_eq (hvol : VolumeOK vol) : ∀ (n : Nat) {id : UInt32},
    (vol.object? id).isSome = true →
      resolveHardlinks vol n (some id) = .ok (followHardlinks vol n id)
        ∧ ∀ r, followHardlinks vol n id = some r → (vol.object? r).isSome = true
  | 0, _, _ => ⟨rfl, fun r h => by cases h⟩
  | n + 1, id, hlive => by
      obtain ⟨obj, hobj⟩ := Option.isSome_iff_exists.mp hlive
      rw [resolveHardlinks, hvol.deref hobj, ok_bind, followHardlinks, hobj, Option.bind_some]
      by_cases hlink : obj.type ≠ yaffs2TypeHardlink
      · rw [if_pos hlink, if_pos hlink]
        refine ⟨rfl, fun r h => ?_⟩
        rw [← Option.some.inj h]
        exact hlive
      · rw [if_neg hlink, if_neg hlink]
        cases htarget : vol.object? obj.equivId with
        | none =>
            have hdead : followHardlinks vol n obj.equivId = none := by
              cases n with
              | zero => rfl
              | succ n => rw [followHardlinks, htarget]; rfl
            rw [hdead]
            refine ⟨?_, fun r h => by cases h⟩
            by_cases hout : obj.equivId = 0 ∨ obj.equivId > vol.maxObjId
            · rw [if_pos hout]
            · obtain ⟨hid, hle⟩ := not_or.mp hout
              rw [if_neg hout, hvol.table.slot hid (UInt32.not_lt.mp hle), htarget, ok_bind]
        | some target =>
            have hin : ¬(obj.equivId = 0 ∨ obj.equivId > vol.maxObjId) := by
              rintro (h0 | hgt)
              · rw [h0, hvol.zero] at htarget
                cases htarget
              · rw [hvol.table.object?_of_gt hgt] at htarget
                cases htarget
            rw [if_neg hin, hvol.slot htarget, ok_bind]
            exact resolveHardlinks_eq hvol n (by rw [htarget]; rfl)

/-- The links are followed for fewer than `n` hops, to an object that is not
a hardlink. -/
theorem followHardlinks_eq_some_iff : ∀ {n : Nat} {id r : UInt32},
    followHardlinks vol n id = some r ↔
      ∃ hops < n, Forest.climb (fun i => (vol.object? i).bind fun obj =>
          if obj.type = yaffs2TypeHardlink then some obj.equivId else none) hops id = some r
        ∧ ∃ obj, vol.object? r = some obj ∧ obj.type ≠ yaffs2TypeHardlink
  | 0, id, r => by simp [followHardlinks]
  | n + 1, id, r => by
      rw [followHardlinks]
      cases hobj : vol.object? id with
      | none =>
          simp only [Option.bind_none]
          constructor
          · intro h; cases h
          · rintro ⟨hops, -, hclimb, o, ho, -⟩
            cases hops with
            | zero =>
                obtain rfl := Option.some.inj hclimb
                rw [hobj] at ho
                cases ho
            | succ hops =>
                rw [Forest.climb_succ, hobj] at hclimb
                cases hclimb
      | some obj =>
          rw [Option.bind_some]
          by_cases hlink : obj.type = yaffs2TypeHardlink
          · rw [if_neg (fun h => h hlink), followHardlinks_eq_some_iff]
            constructor
            · rintro ⟨hops, hlt, hclimb, hr⟩
              refine ⟨hops + 1, by omega, ?_, hr⟩
              rw [Forest.climb_succ, hobj, Option.bind_some, if_pos hlink]
              exact hclimb
            · rintro ⟨hops, hlt, hclimb, o, ho, hne⟩
              cases hops with
              | zero =>
                  obtain rfl := Option.some.inj hclimb
                  rw [hobj] at ho
                  exact absurd (Option.some.inj ho ▸ hlink) hne
              | succ hops =>
                  rw [Forest.climb_succ, hobj, Option.bind_some, if_pos hlink] at hclimb
                  exact ⟨hops, by omega, hclimb, o, ho, hne⟩
          · rw [if_pos hlink]
            constructor
            · intro h
              obtain rfl := Option.some.inj h
              exact ⟨0, by omega, rfl, obj, hobj, hlink⟩
            · rintro ⟨hops, -, hclimb, -⟩
              cases hops with
              | zero => exact hclimb
              | succ hops =>
                  rw [Forest.climb_succ, hobj, Option.bind_some, if_neg hlink] at hclimb
                  cases hclimb

/-! ## Components -/

theorem toUInt8_toUInt16 {c : UInt16} (h : c ≤ 0xFF) : c.toUInt8.toUInt16 = c := by
  rw [UInt16.le_iff_toNat_le] at h
  rw [← UInt16.toNat_inj]
  simp only [UInt8.toNat_toUInt16, UInt16.toNat_toUInt8]
  exact Nat.mod_eq_of_lt (Nat.lt_succ_of_le h)

/-- Characters up to 0xFF and bytes say the same. -/
theorem map_toUInt16_eq_iff {bs : List UInt8} {cs : List UInt16} (h : ∀ c ∈ cs, c ≤ 0xFF) :
    bs.map UInt8.toUInt16 = cs ↔ bs = cs.map UInt16.toUInt8 := by
  have hround : (cs.map UInt16.toUInt8).map UInt8.toUInt16 = cs := by
    rw [List.map_map]
    exact (List.map_congr_left fun c hc => toUInt8_toUInt16 (h c hc)).trans (List.map_id cs)
  constructor
  · rintro rfl
    rw [List.map_map]
    exact (List.map_id'' (fun b => by simp) bs).symm
  · rintro rfl
    exact hround

/-- The characters a path may have. -/
def PathChars (path : List UInt16) : Prop := ∀ c ∈ path, c ≠ 0 ∧ c ≤ 0xFF

/-- A terminated string, as characters. -/
theorem pathChars_cString (p : List UInt8) : PathChars ((cString p).map UInt8.toUInt16) := by
  intro c hc
  obtain ⟨b, hb, rfl⟩ := List.mem_map.mp hc
  have hb0 : b ≠ 0 := by simpa using List.mem_takeWhile_imp hb
  refine ⟨fun h => hb0 ?_, ?_⟩
  · rw [← UInt16.toNat_inj, UInt8.toNat_toUInt16] at h
    exact UInt8.toNat_inj.mp h
  · rw [UInt16.le_iff_toNat_le, UInt8.toNat_toUInt16]
    exact Nat.le_of_lt_succ b.toNat_lt

/-- `Path8` from the rest of a path on. -/
def path8From (rest : List UInt16) (junk : List UInt8) : List UInt8 :=
  rest.map UInt16.toUInt8 ++ 0 :: junk

theorem toUInt8_eq_iff {c d : UInt16} (hc : c ≤ 0xFF) (hd : d ≤ 0xFF) :
    c.toUInt8 = d.toUInt8 ↔ c = d := by
  constructor
  · intro h
    rw [← toUInt8_toUInt16 hc, h, toUInt8_toUInt16 hd]
  · rintro rfl
    rfl

theorem toUInt8_eq_dotChar {c : UInt16} (hc : c ≤ 0xFF) :
    c.toUInt8 = dotChar ↔ c = dot := toUInt8_eq_iff hc (d := dot) (by decide)

theorem toUInt8_eq_backslashChar {c : UInt16} (hc : c ≤ 0xFF) :
    c.toUInt8 = backslashChar ↔ c = backslash := toUInt8_eq_iff hc (d := backslash) (by decide)

theorem PathChars.bytes {comp : List UInt16} (h : PathChars comp) :
    ∀ b ∈ comp.map UInt16.toUInt8, b ≠ 0 := by
  intro b hb
  obtain ⟨c, hc, rfl⟩ := List.mem_map.mp hb
  intro h0
  exact (h c hc).1 ((toUInt8_eq_iff (d := 0) (h c hc).2 (by decide)).mp h0)

/-- Scanning for the end of a component. -/
theorem componentEnd_eq {c : UInt8} (hc : c = 0 ∨ c = backslashChar) (rest : List UInt8) :
    ∀ {fuel : Nat} {s : List UInt8}, (∀ b ∈ s, b ≠ 0 ∧ b ≠ backslashChar) →
      s.length < fuel → componentEnd fuel (s ++ c :: rest) = .ok (c :: rest)
  | 0, _, _, hfuel => by omega
  | fuel + 1, [], _, _ => by
      have hstop : ¬(c ≠ 0 ∧ c ≠ backslashChar) := by
        rintro ⟨h0, hb⟩
        exact hc.elim h0 hb
      have hround : endRound (c :: rest) = .ok (.exit (c :: rest)) := by
        rw [endRound, loadByte_cons, ok_bind, if_neg hstop]
      exact loopFuel_exit hround
  | fuel + 1, b :: s, hs, hfuel => by
      have hround : endRound (b :: (s ++ c :: rest)) = .ok (.next (s ++ c :: rest)) := by
        rw [endRound, loadByte_cons, ok_bind, if_pos (hs b (List.mem_cons_self ..)),
          List.tail_cons]
      rw [componentEnd, List.cons_append, loopFuel_next hround]
      exact componentEnd_eq hc rest (fun x hx => hs x (List.mem_cons_of_mem _ hx))
        (by simpa using hfuel)

/-- The comparison of a child's name with a component. -/
theorem nameMatches_eq {name s : List UInt8} (hname : (0 : UInt8) ∈ name)
    (hs : ∀ c ∈ s, c ≠ 0) (rest : List UInt8) :
    nameMatches name (s ++ rest) s.length = .ok (decide (cString name = s)) := by
  obtain ⟨v, hrun, hv⟩ := strnCmp_spec rest hs hname
  rw [nameMatches, hrun, ok_bind]
  by_cases hzero : v = 0
  · obtain ⟨c, hload, hc⟩ := cString_eq_iff hs hname (hv.mp hzero)
    rw [if_pos hzero, hload, ok_bind, beq_eq_decide, decide_eq_decide.mpr hc]
  · have hne : cString name ≠ s := fun h => hzero (hv.mpr (prefix_of_cString_eq h))
    rw [if_neg hzero, decide_eq_false hne]

/-- The search takes the first child with the name. -/
theorem findChild_eq (hvol : VolumeOK vol) {comp : List UInt16} (hcomp : PathChars comp)
    (rest : List UInt8) :
    ∀ {children : List UInt32}, (∀ c ∈ children, (vol.object? c).isSome = true) →
      findChild vol (comp.map UInt16.toUInt8 ++ rest) comp.length children
        = .ok (children.find? fun c =>
          decide ((vol.object? c).map Yaffs2Object.chars = some comp))
  | [], _ => rfl
  | id :: children, hlive => by
      obtain ⟨child, hchild⟩ := Option.isSome_iff_exists.mp (hlive id (List.mem_cons_self ..))
      have hmatch := nameMatches_eq (hvol.terminated id child hchild) hcomp.bytes rest
      rw [List.length_map] at hmatch
      have hname : ((vol.object? id).map Yaffs2Object.chars = some comp)
          ↔ cString child.name.toList = comp.map UInt16.toUInt8 := by
        rw [hchild, Option.map_some, Option.some.injEq, Yaffs2Object.chars,
          map_toUInt16_eq_iff fun c hc => (hcomp c hc).2]
      rw [findChild, hvol.deref hchild, ok_bind, hmatch, ok_bind, List.find?_cons]
      by_cases heq : cString child.name.toList = comp.map UInt16.toUInt8
      · rw [decide_eq_true heq, decide_eq_true (hname.mpr heq)]
        rfl
      · rw [decide_eq_false heq, decide_eq_false fun h => heq (hname.mp h)]
        exact findChild_eq hvol hcomp rest fun c hc => hlive c (List.mem_cons_of_mem _ hc)

theorem isDot_eq {comp : List UInt16} (hcomp : PathChars comp) (rest : List UInt8) :
    isDot (comp.map UInt16.toUInt8 ++ rest) comp.length = .ok (decide (comp = [dot])) := by
  unfold isDot
  match comp, hcomp with
  | [], _ => rfl
  | [c], hcomp =>
      have hc : c.toUInt8 = dotChar ↔ c = dot :=
        toUInt8_eq_dotChar (hcomp c (by simp)).2
      simp [loadAt, beq_eq_decide, hc]
  | _ :: _ :: _, _ => simp

theorem isDotDot_eq {comp : List UInt16} (hcomp : PathChars comp) (rest : List UInt8) :
    isDotDot (comp.map UInt16.toUInt8 ++ rest) comp.length
      = .ok (decide (comp = [dot, dot])) := by
  unfold isDotDot
  match comp, hcomp with
  | [], _ => rfl
  | [_], _ => simp
  | [c, d], hcomp =>
      have hc : c.toUInt8 = dotChar ↔ c = dot :=
        toUInt8_eq_dotChar (hcomp c (by simp)).2
      have hd : d.toUInt8 = dotChar ↔ d = dot :=
        toUInt8_eq_dotChar (hcomp d (by simp)).2
      have hload : loadAt ([c, d].map UInt16.toUInt8 ++ rest) 0 = .ok c.toUInt8 := rfl
      have hload' : loadAt ([c, d].map UInt16.toUInt8 ++ rest) 1 = .ok d.toUInt8 := rfl
      simp only [List.length_cons, List.length_nil, Nat.reduceAdd, if_true, hload, hload',
        ok_bind, ne_eq, hc, beq_eq_decide, hd]
      by_cases hcd : c = dot <;> simp [hcd]
  | _ :: _ :: _ :: _, _ => simp

/-- One component of the walk is one step of the fold. -/
theorem walkComponent_eq (hvol : VolumeOK vol) {comp : List UInt16}
    (hcomp : PathChars comp) (rest : List UInt8) {current : UInt32}
    (hlive : (vol.object? current).isSome = true) :
    walkComponent vol (comp.map UInt16.toUInt8 ++ rest) comp.length (some current)
        = .ok ((enter vol current comp).map some)
      ∧ ∀ r, enter vol current comp = some r → (vol.object? r).isSome = true := by
  obtain ⟨obj, hobj⟩ := Option.isSome_iff_exists.mp hlive
  rw [walkComponent, isDot_eq hcomp, ok_bind, enter]
  by_cases hdot : comp = [dot]
  · rw [if_pos (decide_eq_true hdot), if_pos hdot]
    refine ⟨rfl, fun r h => ?_⟩
    rw [← Option.some.inj h]
    exact hlive
  rw [if_neg (by simpa using hdot), if_neg hdot, isDotDot_eq hcomp, ok_bind]
  by_cases hdotdot : comp = [dot, dot]
  · rw [if_pos (decide_eq_true hdotdot), if_pos hdotdot, hvol.deref hobj, ok_bind]
    have hparent : vol.parentOf current = obj.parent := by
      rw [Yaffs2Volume.parentOf, hobj, Option.bind_some]
    rw [hparent]
    cases hp : obj.parent with
    | none =>
        refine ⟨rfl, fun r h => ?_⟩
        rw [← Option.some.inj h]
        exact hlive
    | some parent =>
        refine ⟨rfl, fun r h => ?_⟩
        rw [← Option.some.inj h]
        exact hvol.parent current obj parent hobj hp
  rw [if_neg (by simpa using hdotdot), if_neg hdotdot, hvol.deref hobj, ok_bind, hobj,
    Option.bind_some]
  by_cases hdir : obj.type = yaffs2TypeDir
  · rw [if_neg (fun h => h hdir), if_pos hdir,
      findChild_eq hvol hcomp rest (hvol.children current obj hobj), ok_bind]
    cases hfind : obj.children.find? fun c =>
        decide ((vol.object? c).map Yaffs2Object.chars = some comp) with
    | none => exact ⟨rfl, fun r h => by cases h⟩
    | some child =>
        have hchild := hvol.children current obj hobj child (List.mem_of_find?_eq_some hfind)
        obtain ⟨hrun, hlive'⟩ := resolveHardlinks_eq hvol 16 hchild
        simp only [hrun, ok_bind, Option.bind_some]
        cases hfollow : followHardlinks vol 16 child with
        | none => exact ⟨rfl, fun r h => by cases h⟩
        | some r =>
            refine ⟨rfl, fun r' h => ?_⟩
            rw [← Option.some.inj h]
            exact hlive' r hfollow
  · rw [if_pos hdir, if_neg hdir]
    exact ⟨rfl, fun r h => by cases h⟩

/-! ## The walk -/

@[simp] theorem components_nil : components [] = [] := by
  simp [components, List.splitOn_nil]

theorem components_backslash (rest : List UInt16) :
    components (backslash :: rest) = components rest := by
  have h := List.splitOn_append_cons_self (a := backslash) [] rest
  rw [List.nil_append] at h
  simp [components, h, List.splitOn_nil]

theorem components_single {comp : List UInt16} (hne : comp ≠ []) (h : backslash ∉ comp) :
    components comp = [comp] := by
  simp [components, List.splitOn_eq_singleton h, hne]

theorem components_cons {comp : List UInt16} (hne : comp ≠ []) (h : backslash ∉ comp)
    (rest : List UInt16) :
    components (comp ++ backslash :: rest) = comp :: components rest := by
  simp [components, List.splitOn_append_cons_self_of_not_mem h, hne]

/-- A path that does not start with a backslash is a component, then nothing
or a backslash and the rest. -/
theorem exists_component : ∀ {c : UInt16} (rest : List UInt16), c ≠ backslash →
    ∃ comp, comp ≠ [] ∧ backslash ∉ comp
      ∧ (c :: rest = comp ∨ ∃ tail, c :: rest = comp ++ backslash :: tail)
  | c, [], hc => ⟨[c], by simp, by simpa using hc.symm, Or.inl rfl⟩
  | c, d :: rest, hc => by
      by_cases hd : d = backslash
      · subst hd
        exact ⟨[c], by simp, by simpa using hc.symm, Or.inr ⟨rest, rfl⟩⟩
      · obtain ⟨comp, -, hmem, hsplit⟩ := exists_component rest hd
        refine ⟨c :: comp, by simp, by simp [hc.symm, hmem], ?_⟩
        rcases hsplit with heq | ⟨tail, heq⟩
        · exact Or.inl (by rw [heq])
        · exact Or.inr ⟨tail, by rw [heq, List.cons_append]⟩

theorem PathChars.append_left {s t : List UInt16} (h : PathChars (s ++ t)) : PathChars s :=
  fun c hc => h c (List.mem_append_left t hc)

theorem PathChars.append_right {s t : List UInt16} (h : PathChars (s ++ t)) : PathChars t :=
  fun c hc => h c (List.mem_append_right s hc)

theorem PathChars.bytes_stop {comp : List UInt16} (h : PathChars comp)
    (hback : backslash ∉ comp) :
    ∀ b ∈ comp.map UInt16.toUInt8, b ≠ 0 ∧ b ≠ backslashChar := by
  intro b hb
  refine ⟨h.bytes b hb, ?_⟩
  obtain ⟨c, hc, rfl⟩ := List.mem_map.mp hb
  exact fun heq => hback ((toUInt8_eq_backslashChar (h c hc).2).mp heq ▸ hc)

/-- One round over a component: the walk is at the byte `c` that ends it and
goes on behind a backslash. -/
theorem walkRound_eq (hvol : VolumeOK vol) (fuel : Nat) {comp : List UInt16}
    (hne : comp ≠ []) (hback : backslash ∉ comp) (hcomp : PathChars comp)
    (hfuel : comp.length < fuel) {c : UInt8} (hc : c = 0 ∨ c = backslashChar)
    (rest : List UInt8) {current : UInt32} (hlive : (vol.object? current).isSome = true) :
    walkRound fuel vol (comp.map UInt16.toUInt8 ++ c :: rest, some current) = .ok
      (match enter vol current comp with
      | none => .exit none
      | some r => .next (if c = backslashChar then rest else c :: rest, some r)) := by
  have hstop := hcomp.bytes_stop hback
  have hend : componentEnd fuel (comp.map UInt16.toUInt8 ++ c :: rest) = .ok (c :: rest) :=
    componentEnd_eq hc rest hstop (by rw [List.length_map]; exact hfuel)
  have hlen : (comp.map UInt16.toUInt8 ++ c :: rest).length - (c :: rest).length
      = comp.length := by
    rw [List.length_append, List.length_map, Nat.add_sub_cancel]
  obtain ⟨hwalk, -⟩ := walkComponent_eq hvol hcomp (c :: rest) hlive
  obtain ⟨b, bs, hcons⟩ : ∃ b bs, comp.map UInt16.toUInt8 = b :: bs :=
    List.exists_cons_of_ne_nil fun h => hne (List.map_eq_nil_iff.mp h)
  have hload : loadByte (comp.map UInt16.toUInt8 ++ c :: rest) = .ok b := by
    rw [hcons]; rfl
  have hb : b ≠ 0 := (hstop b (by rw [hcons]; exact List.mem_cons_self ..)).1
  have hpos : comp.length ≠ 0 := fun h => hne (List.length_eq_zero_iff.mp h)
  unfold walkRound
  simp only [hload, ok_bind, hb, if_false, hend, hlen, hpos, hwalk]
  cases enter vol current comp with
  | none => rfl
  | some r => simp only [Option.map_some, loadByte_cons, ok_bind, List.tail_cons]

/-- One round over an empty component. -/
theorem walkRound_backslash (fuel : Nat) (path : List UInt16) (junk : List UInt8)
    (hfuel : 0 < fuel) (current : UInt32) :
    walkRound fuel vol (path8From (backslash :: path) junk, some current)
      = .ok (.next (path8From path junk, some current)) := by
  have hend : componentEnd fuel (path8From (backslash :: path) junk)
      = .ok (path8From (backslash :: path) junk) :=
    componentEnd_eq (s := []) (Or.inr rfl) _ (by simp) hfuel
  have hload : loadByte (path8From (backslash :: path) junk) = .ok backslashChar := rfl
  have hne : backslashChar ≠ 0 := by decide
  have htail : (path8From (backslash :: path) junk).tail = path8From path junk := rfl
  unfold walkRound
  simp only [hload, ok_bind, hne, if_false, hend, Nat.sub_self, if_true, htail]

/-- A round over a component, then the loop behind it: the first step of the
fold, then the rest of it. -/
theorem walkLoop_component {fuel k : Nat} {bytes bytes' : List UInt8} {current : UInt32}
    {comp : List UInt16} {comps : List (List UInt16)}
    (hround : walkRound fuel vol (bytes, some current) = .ok
      (match enter vol current comp with
      | none => .exit none
      | some r => .next (bytes', some r)))
    (hrest : ∀ r, enter vol current comp = some r →
      loopFuel (walkRound fuel vol) k (bytes', some r) = .ok ((resolvePath vol r comps).map some)) :
    loopFuel (walkRound fuel vol) (k + 1) (bytes, some current)
      = .ok ((resolvePath vol current (comp :: comps)).map some) := by
  rw [resolvePath, List.foldlM_cons]
  cases henter : enter vol current comp with
  | none =>
      rw [henter] at hround
      rw [loopFuel_exit hround]
      rfl
  | some r =>
      rw [henter] at hround
      rw [loopFuel_next hround]
      exact hrest r henter

/-- The scanner computes the fold. -/
theorem walkPath_eq (hvol : VolumeOK vol) {fuel : Nat} (junk : List UInt8) :
    ∀ {k : Nat} {path : List UInt16} {current : UInt32}, PathChars path →
      (vol.object? current).isSome = true → path.length < k → path.length < fuel →
      loopFuel (walkRound fuel vol) k (path8From path junk, some current)
        = .ok ((resolvePath vol current (components path)).map some)
  | 0, _, _, _, _, hk, _ => by omega
  | k + 1, [], current, _, _, _, _ => by
      have hround : walkRound fuel vol (path8From [] junk, some current)
          = .ok (.exit (some (some current))) := rfl
      rw [loopFuel_exit hround, components_nil]
      rfl
  | k + 1, c :: rest, current, hpath, hlive, hk, hfuel => by
      rw [List.length_cons] at hk hfuel
      by_cases hc : c = backslash
      · -- an empty component
        subst hc
        rw [loopFuel_next (walkRound_backslash fuel rest junk (by omega) current),
          components_backslash]
        exact walkPath_eq hvol junk (fun d hd => hpath d (List.mem_cons_of_mem _ hd)) hlive
          (by omega) (by omega)
      · obtain ⟨comp, hne, hback, hsplit⟩ := exists_component rest hc
        have hpos : comp.length ≠ 0 := fun h => hne (List.length_eq_zero_iff.mp h)
        rcases hsplit with heq | ⟨tail, heq⟩
        · -- the last component
          have hlen : comp.length = rest.length + 1 := by rw [← heq, List.length_cons]
          rw [heq] at hpath ⊢
          rw [components_single hne hback, path8From]
          refine walkLoop_component (walkRound_eq hvol fuel hne hback hpath (by omega)
            (Or.inl rfl) junk hlive) fun r henter => ?_
          rw [if_neg (by decide), ← components_nil]
          have hrec : loopFuel (walkRound fuel vol) k (path8From [] junk, some r)
              = .ok ((resolvePath vol r (components [])).map some) :=
            walkPath_eq hvol junk (fun d hd => by cases hd)
              ((walkComponent_eq hvol hpath junk hlive).2 r henter)
              (by rw [List.length_nil]; omega) (by rw [List.length_nil]; omega)
          exact hrec
        · have hlen : comp.length + (tail.length + 1) = rest.length + 1 := by
            rw [← List.length_cons (a := backslash), ← List.length_append, ← heq,
              List.length_cons]
          rw [heq] at hpath ⊢
          have hbuf : path8From (comp ++ backslash :: tail) junk
              = comp.map UInt16.toUInt8 ++ backslashChar :: path8From tail junk := by
            rw [path8From, List.map_append, List.append_assoc]
            rfl
          rw [components_cons hne hback, hbuf]
          refine walkLoop_component (walkRound_eq hvol fuel hne hback hpath.append_left
            (by omega) (Or.inr rfl) (path8From tail junk) hlive) fun r henter => ?_
          rw [if_pos rfl]
          exact walkPath_eq hvol junk
            (fun d hd => hpath.append_right d (List.mem_cons_of_mem _ hd))
            ((walkComponent_eq hvol hpath.append_left junk hlive).2 r henter)
            (by omega) (by omega)

end Walk

/-! ## The whole function -/

theorem startObject_eq {vol : Yaffs2Volume} (hvol : VolumeOK vol) {ifile : Yaffs2IFile}
    {handle : UInt32} (hfile : ifile.oFile = some handle)
    (hlive : (vol.object? handle).isSome = true) :
    startObject vol ifile = .ok (some
        (if (vol.object? handle).map Yaffs2Object.type = some yaffs2TypeDir then handle
          else (vol.parentOf handle).getD 1)) := by
  obtain ⟨obj, hobj⟩ := Option.isSome_iff_exists.mp hlive
  rw [startObject, hfile, hvol.deref hobj, ok_bind, Yaffs2Volume.parentOf, hobj,
    Option.bind_some, Option.map_some, hvol.root]
  by_cases hdir : obj.type = yaffs2TypeDir
  · simp [hdir]
  · cases obj.parent <;> simp [hdir]

theorem pathStart_live {vol : Yaffs2Volume} (hvol : VolumeOK vol) {handle : UInt32}
    (hlive : (vol.object? handle).isSome = true) (path : List UInt16) :
    (vol.object? (pathStart vol handle path)).isSome = true := by
  unfold pathStart
  split
  · exact hvol.rootLive
  · split
    · exact hlive
    · obtain ⟨obj, hobj⟩ := Option.isSome_iff_exists.mp hlive
      rw [Yaffs2Volume.parentOf, hobj, Option.bind_some]
      cases hp : obj.parent with
      | none => exact hvol.rootLive
      | some p => exact hvol.parent handle obj p hobj hp

/-- A path that fits is converted whole, terminator included. -/
theorem convertPath_eq {path : List UInt16} (hlen : path.length < path8Size)
    (stack : List UInt8) :
    convertPath path stack = path8From path (stack.drop (path.length + 1)) := by
  have htake : (path ++ [0]).take (path.length + 1) = path ++ [0] :=
    List.take_of_length_le (by simp)
  unfold convertPath path8From
  rw [if_neg (Nat.not_le.mpr hlen)]
  simp only [htake, List.map_append, List.append_assoc]
  rfl

/-- The walk from the start of the buffer, the leading backslash included. -/
theorem walkFrom_eq {vol : Yaffs2Volume} (hvol : VolumeOK vol) {fuel : Nat}
    (junk : List UInt8) {path : List UInt16} (hchars : PathChars path)
    (hfuel : path.length < fuel) {handle : UInt32}
    (hlive : (vol.object? handle).isSome = true) {current : ObjectPtr}
    (hcurrent : path.head? ≠ some backslash → current = some (pathStart vol handle path)) :
    ∃ c, loadByte (path8From path junk) = .ok c
      ∧ (let (p, current) := if c = backslashChar
          then ((path8From path junk).tail, vol.root) else (path8From path junk, current)
        walkPath fuel vol p current)
        = .ok ((resolvePath vol (pathStart vol handle path) (components path)).map some) := by
  have hstart := pathStart_live hvol hlive path
  cases path with
  | nil =>
      refine ⟨0, rfl, ?_⟩
      rw [if_neg (by decide), hcurrent (by simp)]
      exact walkPath_eq hvol junk hchars hstart hfuel hfuel
  | cons c rest =>
      refine ⟨c.toUInt8, rfl, ?_⟩
      by_cases hc : c = backslash
      · subst hc
        have hroot : pathStart vol handle (backslash :: rest) = 1 := if_pos rfl
        have hbyte : backslash.toUInt8 = backslashChar := by decide
        rw [if_pos hbyte, hroot, components_backslash, hvol.root]
        rw [List.length_cons] at hfuel
        exact walkPath_eq hvol junk (fun d hd => hchars d (List.mem_cons_of_mem _ hd))
          hvol.rootLive (by omega) (by omega)
      · have hne : c.toUInt8 ≠ backslashChar := fun h =>
          hc ((toUInt8_eq_backslashChar (hchars c (List.mem_cons_self ..)).2).mp h)
        rw [if_neg hne, hcurrent (by simpa using hc)]
        exact walkPath_eq hvol junk hchars hstart hfuel hfuel

/-- An open allocates a handle, or it fails and leaves the slot behind
`NewHandle` alone. -/
theorem yaffs2Open_cases {fuel : Nat} {alloc : Bool} {vol : Yaffs2Volume}
    {this : Option Yaffs2IFile} {newHandle out : Option (Option Yaffs2IFile)}
    {fileName : Option (List UInt16)} {openMode : UInt64} {stack : List UInt8}
    {status : EfiStatus}
    (h : yaffs2Open fuel alloc vol this newHandle fileName openMode stack
      = .ok (status, out)) :
    (status ≠ .success ∧ out = newHandle)
      ∨ (status = .success ∧ ∃ target opened, out = some (some opened)
        ∧ yaffs2AllocateIFile alloc vol target = .ok (some opened)) := by
  unfold yaffs2Open at h
  split at h
  · split at h
    · cases h
      exact .inl ⟨by decide, rfl⟩
    · split at h
      · cases h
        exact .inl ⟨by decide, rfl⟩
      · obtain ⟨current, -, h⟩ := bind_eq_ok.mp h
        obtain ⟨c, -, h⟩ := bind_eq_ok.mp h
        obtain ⟨walked, -, h⟩ := bind_eq_ok.mp h
        cases walked with
        | none =>
            cases h
            exact .inl ⟨by decide, rfl⟩
        | some target =>
            obtain ⟨newIFile, halloc, h⟩ := bind_eq_ok.mp h
            cases newIFile with
            | none =>
                cases h
                exact .inl ⟨by decide, rfl⟩
            | some opened =>
                cases h
                exact .inr ⟨rfl, target, opened, rfl, halloc⟩
  · cases h
    exact .inl ⟨by decide, rfl⟩

/-- On every error the slot behind `NewHandle` is untouched. -/
theorem yaffs2Open_error {fuel : Nat} {alloc : Bool} {vol : Yaffs2Volume}
    {this : Option Yaffs2IFile} {newHandle out : Option (Option Yaffs2IFile)}
    {fileName : Option (List UInt16)} {openMode : UInt64} {stack : List UInt8}
    {status : EfiStatus}
    (h : yaffs2Open fuel alloc vol this newHandle fileName openMode stack
      = .ok (status, out))
    (herr : status ≠ .success) : out = newHandle := by
  rcases yaffs2Open_cases h with ⟨-, hout⟩ | ⟨hok, -⟩
  · exact hout
  · exact absurd hok herr

/-- Every object the fold meets is an object. -/
theorem resolvePath_live {vol : Yaffs2Volume} (hvol : VolumeOK vol) :
    ∀ {comps : List (List UInt16)} {current r : UInt32},
      (∀ comp ∈ comps, PathChars comp) → (vol.object? current).isSome = true →
      resolvePath vol current comps = some r → (vol.object? r).isSome = true
  | [], current, r, _, hlive, h => by
      obtain rfl := Option.some.inj h
      exact hlive
  | comp :: comps, current, r, hcomps, hlive, h => by
      rw [resolvePath, List.foldlM_cons] at h
      obtain ⟨next, henter, hrest⟩ := Option.bind_eq_some_iff.mp h
      have hnext := (walkComponent_eq hvol (hcomps comp (List.mem_cons_self ..)) [] hlive).2
        next henter
      exact resolvePath_live hvol (fun x hx => hcomps x (List.mem_cons_of_mem _ hx)) hnext hrest

theorem mem_of_mem_splitOn {c : UInt16} {comp : List UInt16} :
    ∀ {path : List UInt16}, comp ∈ path.splitOn backslash → c ∈ comp → c ∈ path := by
  intro path
  induction path generalizing comp with
  | nil => simp [List.splitOn_nil]; rintro rfl h; cases h
  | cons d path ih =>
      rw [List.splitOn_cons_eq_if_modifyHead]
      split
      · intro hcomp hc
        rcases List.mem_cons.mp hcomp with rfl | hcomp
        · cases hc
        · exact List.mem_cons_of_mem _ (ih hcomp hc)
      · intro hcomp hc
        cases hsplit : path.splitOn backslash with
        | nil => exact absurd hsplit (List.splitOn_ne_nil _ _)
        | cons first rest =>
            rw [hsplit, List.modifyHead_cons] at hcomp
            rcases List.mem_cons.mp hcomp with rfl | hcomp
            · rcases List.mem_cons.mp hc with rfl | hc
              · exact List.mem_cons_self ..
              · exact List.mem_cons_of_mem _ (ih (hsplit ▸ List.mem_cons_self ..) hc)
            · exact List.mem_cons_of_mem _
                (ih (hsplit ▸ List.mem_cons_of_mem _ hcomp) hc)

/-- How `Yaffs2Open` ends once the walk has: not found, or the allocation of
the handle. -/
def finishOpen (alloc : Bool) (vol : Yaffs2Volume) (slot : Option Yaffs2IFile) :
    Option UInt32 → Run (EfiStatus × Option (Option Yaffs2IFile))
  | none => .ok (.notFound, some slot)
  | some target => do
      match ← yaffs2AllocateIFile alloc vol (some target) with
      | none => .ok (.outOfResources, some slot)
      | some newIFile => .ok (.success, some (some newIFile))

/-- Opening to read walks what `Path8` holds up to its terminator, then
allocates the handle. -/
theorem yaffs2Open_converted {vol : Yaffs2Volume} (hvol : VolumeOK vol) {ifile : Yaffs2IFile}
    {handle : UInt32} (hfile : ifile.oFile = some handle)
    (hlive : (vol.object? handle).isSome = true) {fileName seen : List UInt16}
    {stack junk : List UInt8} (hconv : convertPath fileName stack = path8From seen junk)
    (hchars : PathChars seen) {openMode : UInt64}
    (hwrite : openMode &&& efiFileModeWrite = 0)
    (hcreate : openMode &&& efiFileModeCreate = 0) (alloc : Bool)
    (slot : Option Yaffs2IFile) {fuel : Nat} (hfuel : seen.length < fuel) :
    yaffs2Open fuel alloc vol (some ifile) (some slot) (some fileName) openMode stack
      = finishOpen alloc vol slot
        (resolvePath vol (pathStart vol handle seen) (components seen)) := by
  have hcurrent : seen.head? ≠ some backslash →
      (some (if (vol.object? handle).map Yaffs2Object.type = some yaffs2TypeDir then handle
        else (vol.parentOf handle).getD 1) : ObjectPtr) = some (pathStart vol handle seen) := by
    intro hhead
    rw [pathStart, if_neg hhead]
  obtain ⟨c, hload, hwalk⟩ := walkFrom_eq hvol junk hchars hfuel hlive hcurrent
  unfold yaffs2Open
  simp only [hwrite, hcreate, ne_eq, not_true_eq_false, if_false,
    startObject_eq hvol hfile hlive, ok_bind, hconv, hload]
  simp only at hwalk
  rw [hwalk, ok_bind]
  cases resolvePath vol (pathStart vol handle seen) (components seen) with
  | none => rfl
  | some target => rfl

/-- Opening a path that fits is its resolution, then the allocation of the
handle. -/
theorem yaffs2Open_run {vol : Yaffs2Volume} (hvol : VolumeOK vol) {ifile : Yaffs2IFile}
    {handle : UInt32} (hfile : ifile.oFile = some handle)
    (hlive : (vol.object? handle).isSome = true) {path : List UInt16}
    (hlen : path.length < path8Size) (hchars : PathChars path) {openMode : UInt64}
    (hwrite : openMode &&& efiFileModeWrite = 0)
    (hcreate : openMode &&& efiFileModeCreate = 0) (alloc : Bool)
    (slot : Option Yaffs2IFile) (stack : List UInt8) {fuel : Nat} (hfuel : path8Size ≤ fuel) :
    yaffs2Open fuel alloc vol (some ifile) (some slot) (some path) openMode stack
      = finishOpen alloc vol slot
        (resolvePath vol (pathStart vol handle path) (components path)) :=
  yaffs2Open_converted hvol hfile hlive (convertPath_eq hlen stack) hchars hwrite hcreate
    alloc slot (Nat.lt_of_lt_of_le hlen hfuel)

/-- The handle allocated for an object. -/
theorem yaffs2AllocateIFile_eq {vol : Yaffs2Volume} (hvol : VolumeOK vol) {id : UInt32}
    {obj : Yaffs2Object} (hobj : vol.object? id = some obj) (alloc : Bool) :
    yaffs2AllocateIFile alloc vol (some id) = .ok (if alloc then some
      ⟨0, some id, if obj.type = yaffs2TypeDir then some obj.children else none⟩ else none) := by
  rw [yaffs2AllocateIFile, hvol.deref hobj]
  cases alloc with
  | false => rfl
  | true => rfl

/-- `Yaffs2Open` resolves a path as the fold over its components does: it
opens the object at the end of the fold, and returns `EFI_NOT_FOUND` when
the fold fails. Whatever error it returns, the slot behind `NewHandle` keeps
its content. -/
theorem yaffs2Open_resolves {vol : Yaffs2Volume} (hvol : BuiltTree vol)
    (ifile : Yaffs2IFile) {handle : UInt32} (hfile : ifile.oFile = some handle)
    (hlive : (vol.object? handle).isSome = true) (path : List UInt16)
    (hlen : path.length < path8Size) (hchars : PathChars path) (openMode : UInt64)
    (hwrite : openMode &&& efiFileModeWrite = 0)
    (hcreate : openMode &&& efiFileModeCreate = 0) (slot : Option Yaffs2IFile)
    (stack : List UInt8) {fuel : Nat} (hfuel : path8Size ≤ fuel) :
    (∃ status out,
      yaffs2Open fuel true vol (some ifile) (some slot) (some path) openMode stack
          = .ok (status, out)
        ∧ match resolvePath vol (pathStart vol handle path) (components path) with
          | none => status = .notFound ∧ out = some slot
          | some target => status = .success
            ∧ ∃ file, out = some (some file) ∧ file.oFile = some target ∧ file.position = 0)
      ∧ ∀ fuel alloc this newHandle fileName openMode stack status out,
        yaffs2Open fuel alloc vol this newHandle fileName openMode stack = .ok (status, out) →
        status ≠ .success → out = newHandle := by
  refine ⟨?_, fun _ _ _ _ _ _ _ _ _ => yaffs2Open_error⟩
  have hok := hvol.volumeOK
  rw [yaffs2Open_run hok hfile hlive hlen hchars hwrite hcreate true slot stack hfuel]
  cases hres : resolvePath vol (pathStart vol handle path) (components path) with
  | none => exact ⟨_, _, rfl, rfl, rfl⟩
  | some target =>
      have hcomps : ∀ comp ∈ components path, PathChars comp := fun comp hcomp d hd =>
        hchars d (mem_of_mem_splitOn (List.mem_of_mem_filter hcomp) hd)
      obtain ⟨obj, hobj⟩ := Option.isSome_iff_exists.mp
        (resolvePath_live hok hcomps (pathStart_live hok hlive path) hres)
      simp only [finishOpen, yaffs2AllocateIFile_eq hok hobj, ok_bind, if_true]
      exact ⟨_, _, rfl, rfl, _, rfl, rfl, rfl⟩

/-- A scan that finds a root mounts. -/
theorem exists_built {σ : Type} {nand : NandFlashProtocol σ} {pools : UInt32 → Pool} {n : σ}
    {st : ScanState σ} (hblocks : scanBlocks nand pools ⟨n, .empty, 0, 0, []⟩ = .ok st)
    (hkept : (survivor st.volume 1).isSome = true) :
    ∃ vol pruned, BuiltTree vol ∧ BuiltFrom st.volume pruned vol := by
  have hreached := scanBlocks_reached hblocks
  obtain ⟨vol, pruned, hbuild, -, -, hmax, hpruned, htree, hroot⟩ :=
    buildTree_spec hreached.untied (Nat.le_refl loopLimit)
  refine ⟨vol, pruned, ⟨st.volume, loopLimit, hreached, hbuild, fun hnone => ?_⟩,
    ⟨hreached.untied.table, hreached.untied.zero, hmax, hpruned, htree⟩⟩
  rw [hroot, Option.map_eq_none_iff] at hnone
  rw [hnone] at hkept
  cases hkept

/-- A volume with a root, mounted from a medium. -/
theorem builtTree_root : ∃ vol, BuiltTree vol ∧ (vol.object? 1).isSome = true := by
  obtain ⟨st, hblocks, hkept⟩ : ∃ st,
      scanBlocks (storedNand 4 (twoDirectories 1 5)) noFailure ⟨0, .empty, 0, 0, []⟩
        = .ok st ∧ (survivor st.volume 1).isSome = true := ⟨_, rfl, rfl⟩
  obtain ⟨vol, pruned, hbuilt, hfrom⟩ := exists_built hblocks hkept
  refine ⟨vol, hbuilt, ?_⟩
  rw [hfrom.tree, Option.isSome_map]
  exact hkept

theorem yaffs2Open_resolves_root :
    ∃ vol out, BuiltTree vol
      ∧ yaffs2Open 512 true vol (some ⟨0, some 1, none⟩) (some none) (some [backslash, dot]) 1
          (List.replicate 512 0) = .ok (.success, out)
      ∧ ∃ file, out = some (some file) ∧ file.oFile = some 1 := by
  obtain ⟨vol, hbuilt, hlive⟩ := builtTree_root
  have hchars : PathChars [backslash, dot] := by
    intro c hc
    rcases List.mem_cons.mp hc with rfl | hc
    · decide
    · rw [List.mem_singleton.mp hc]
      decide
  obtain ⟨⟨status, out, hrun, hres⟩, -⟩ := yaffs2Open_resolves hbuilt
    ⟨0, some 1, none⟩ rfl hlive [backslash, dot] (by decide) hchars
    1 (by decide) (by decide) none (List.replicate 512 0) (Nat.le_refl 512)
  obtain ⟨rfl, file, hout, hfile, -⟩ := hres
  exact ⟨vol, out, hbuilt, hrun, file, hout, hfile⟩

end Ccr2004
