import Ccr2004.YaffsPath

/-!
# The conversion of a path

`Yaffs2Open` cuts a path to 512 characters and each character to a byte, and
walks what is left up to the first zero byte (`seenPath`). The walk itself is
the resolution of that path. It is the resolution of the whole path only when
nothing was cut: a character above 0xFF is in no name of a volume, so a path
that has one names nothing, while its bytes may name an object.
-/

namespace Ccr2004

/-- What the walk sees of a path. -/
def seenPath (path : List UInt16) : List UInt16 :=
  (cString ((path.take path8Size).map UInt16.toUInt8)).map UInt8.toUInt16

/-- `Path8` ends up with a terminator in it. -/
def Terminated (path : List UInt16) : Prop :=
  path.length < path8Size ∨ ∃ c ∈ path.take path8Size, c.toUInt8 = 0

/-- Opening `path` for reading walks inside `Path8` up to a terminator it
contains, and what it opens is the object that the whole path names. -/
def OpensFaithfully (vol : Yaffs2Volume) (ifile : Yaffs2IFile) (handle : UInt32)
    (path : List UInt16) : Prop :=
  ∀ (alloc : Bool) (slot : Option Yaffs2IFile) (openMode : UInt64) (stack : List UInt8)
    (fuel : Nat), openMode &&& efiFileModeWrite = 0 → openMode &&& efiFileModeCreate = 0 →
    stack.length = path8Size → path8Size ≤ fuel →
    (0 : UInt8) ∈ convertPath path stack
      ∧ ∃ status out,
        yaffs2Open fuel alloc vol (some ifile) (some slot) (some path) openMode stack
            = .ok (status, out)
          ∧ (status = .success → ∃ file target, out = some (some file)
              ∧ file.oFile = some target
              ∧ resolvePath vol (pathStart vol handle path) (components path) = some target)

/-! ## What the conversion leaves -/

/-- A buffer with a terminator is its string, the terminator and a rest. -/
theorem exists_cString_split {p : List UInt8} (h : (0 : UInt8) ∈ p) :
    ∃ junk, p = cString p ++ 0 :: junk := by
  induction p with
  | nil => cases h
  | cons c p ih =>
      by_cases hc : c = 0
      · exact ⟨p, by rw [hc]; rfl⟩
      · obtain ⟨junk, hjunk⟩ :=
          ih ((List.mem_cons.mp h).resolve_left fun heq => hc heq.symm)
        refine ⟨junk, ?_⟩
        rw [cString, List.takeWhile_cons_of_pos (by simpa using hc), List.cons_append]
        exact congrArg (c :: ·) hjunk

theorem pathChars_seenPath (path : List UInt16) : PathChars (seenPath path) :=
  pathChars_cString _

theorem map_toUInt8_seenPath (path : List UInt16) :
    (seenPath path).map UInt16.toUInt8 =
      cString ((path.take path8Size).map UInt16.toUInt8) := by
  rw [seenPath, List.map_map]
  exact List.map_id'' (fun b => by simp) _

/-- What is seen leaves room for the terminator. -/
theorem length_seenPath_lt {path : List UInt16} (hterm : Terminated path) :
    (seenPath path).length < path8Size := by
  set bytes := (path.take path8Size).map UInt16.toUInt8 with hbytes
  have hlen : bytes.length = min path8Size path.length := by
    rw [hbytes, List.length_map, List.length_take]
  have hseen : (seenPath path).length = (cString bytes).length := List.length_map _
  rcases hterm with hshort | ⟨c, hc, hzero⟩
  · have hle : (cString bytes).length ≤ bytes.length := (List.takeWhile_prefix _).length_le
    omega
  · obtain ⟨junk, hjunk⟩ := exists_cString_split (List.mem_map.mpr ⟨c, hc, hzero⟩)
    have hsum := congrArg List.length hjunk
    rw [← hbytes, List.length_append, List.length_cons] at hsum
    omega

/-- A path that fits is seen whole. -/
theorem seenPath_eq {path : List UInt16} (hlen : path.length < path8Size)
    (hchars : PathChars path) : seenPath path = path := by
  have hall : cString (path.map UInt16.toUInt8) = path.map UInt16.toUInt8 :=
    List.takeWhile_eq_self_iff.mpr fun b hb => by simpa using hchars.bytes b hb
  rw [seenPath, List.take_of_length_le (Nat.le_of_lt hlen), hall]
  exact (map_toUInt16_eq_iff fun c hc => (hchars c hc).2).mpr rfl

/-- `Path8` is what is seen, a terminator, and bytes that are not looked at. -/
theorem convertPath_seenPath {path : List UInt16} {stack : List UInt8}
    (hstack : stack.length = path8Size) (hterm : Terminated path) :
    ∃ junk, convertPath path stack = path8From (seenPath path) junk := by
  rcases Nat.lt_or_ge path.length path8Size with hlen | hlen
  · have hsplit : convertPath path stack =
        path.map UInt16.toUInt8 ++ 0 :: stack.drop (path.length + 1) := convertPath_eq hlen stack
    obtain ⟨junk, hjunk⟩ := exists_cString_split
      (List.mem_append_right (path.map UInt16.toUInt8)
        (List.mem_cons_self (a := (0 : UInt8)) (l := stack.drop (path.length + 1))))
    refine ⟨junk, ?_⟩
    rw [hsplit, path8From, map_toUInt8_seenPath, List.take_of_length_le (Nat.le_of_lt hlen)]
    rwa [cString_append_zero] at hjunk
  · have hall : (path ++ [0]).take path8Size = path.take path8Size :=
      List.take_append_of_le_length hlen
    have hsplit : convertPath path stack = (path.take path8Size).map UInt16.toUInt8 := by
      unfold convertPath
      rw [if_pos hlen]
      dsimp only
      rw [Nat.sub_add_cancel (by decide), hall, List.drop_of_length_le (Nat.le_of_eq hstack),
        List.append_nil]
    obtain ⟨c, hc, hzero⟩ := hterm.resolve_left (Nat.not_lt.mpr hlen)
    obtain ⟨junk, hjunk⟩ := exists_cString_split (List.mem_map.mpr ⟨c, hc, hzero⟩)
    exact ⟨junk, by rw [hsplit, path8From, map_toUInt8_seenPath, ← hjunk]⟩

/-- There is a terminator in `Path8` in just these cases. -/
theorem zero_mem_convertPath_iff {path : List UInt16} {stack : List UInt8}
    (hstack : stack.length = path8Size) :
    (0 : UInt8) ∈ convertPath path stack ↔ Terminated path := by
  constructor
  · intro hzero
    by_contra hterm
    obtain ⟨hlen, hnone⟩ := not_or.mp hterm
    have hall : (path ++ [0]).take path8Size = path.take path8Size :=
      List.take_append_of_le_length (Nat.not_lt.mp hlen)
    unfold convertPath at hzero
    rw [if_pos (Nat.not_lt.mp hlen)] at hzero
    dsimp only at hzero
    rw [Nat.sub_add_cancel (by decide), hall, List.drop_of_length_le (Nat.le_of_eq hstack),
      List.append_nil] at hzero
    obtain ⟨c, hc, heq⟩ := List.mem_map.mp hzero
    exact hnone ⟨c, hc, heq⟩
  · intro hterm
    obtain ⟨junk, hjunk⟩ := convertPath_seenPath hstack hterm
    rw [hjunk, path8From]
    exact List.mem_append_right _ List.mem_cons_self

/-! ## Characters above 0xFF -/

/-- No name of a volume has such a character. -/
theorem enter_eq_none_of_wide (vol : Yaffs2Volume) (current : UInt32) {comp : List UInt16}
    {c : UInt16} (hc : c ∈ comp) (hwide : 0xFF < c) : enter vol current comp = none := by
  have hnarrow : ∀ {d : UInt16}, d ≤ 0xFF → c ≠ d := by
    rintro d hd rfl
    exact absurd hwide (UInt16.not_lt.mpr hd)
  have hdot : comp ≠ [dot] := by
    rintro rfl
    exact hnarrow (d := dot) (by decide) (List.mem_singleton.mp hc)
  have hdotdot : comp ≠ [dot, dot] := by
    rintro rfl
    rcases List.mem_cons.mp hc with heq | hc
    · exact hnarrow (d := dot) (by decide) heq
    · exact hnarrow (d := dot) (by decide) (List.mem_singleton.mp hc)
  rw [enter, if_neg hdot, if_neg hdotdot]
  cases vol.object? current with
  | none => rfl
  | some obj =>
      rw [Option.bind_some]
      split
      · have hfind : (obj.children.find? fun i =>
            decide ((vol.object? i).map Yaffs2Object.chars = some comp)) = none := by
          rw [List.find?_eq_none]
          intro i _ hname
          obtain ⟨child, -, hchars⟩ := Option.map_eq_some_iff.mp (of_decide_eq_true hname)
          rw [← hchars] at hc
          exact hnarrow (pathChars_cString _ c hc).2 rfl
        rw [hfind]
        rfl
      · rfl

/-- Every character of a path but the backslashes is in a component. -/
theorem exists_mem_splitOn {c : UInt16} (hback : c ≠ backslash) {path : List UInt16}
    (hc : c ∈ path) : ∃ comp ∈ path.splitOn backslash, c ∈ comp := by
  induction path with
  | nil => cases hc
  | cons d path ih =>
      rw [List.splitOn_cons_eq_if_modifyHead]
      rcases List.mem_cons.mp hc with rfl | hc
      · rw [if_neg (by simpa using hback)]
        cases hsplit : path.splitOn backslash with
        | nil => exact absurd hsplit (List.splitOn_ne_nil _ _)
        | cons first rest => exact ⟨c :: first, List.mem_cons_self, List.mem_cons_self⟩
      · obtain ⟨comp, hcomp, hmem⟩ := ih hc
        split
        · exact ⟨comp, List.mem_cons_of_mem _ hcomp, hmem⟩
        · cases hsplit : path.splitOn backslash with
          | nil => exact absurd hsplit (List.splitOn_ne_nil _ _)
          | cons first rest =>
              rw [hsplit] at hcomp
              rcases List.mem_cons.mp hcomp with rfl | hcomp
              · exact ⟨d :: comp, List.mem_cons_self, List.mem_cons_of_mem _ hmem⟩
              · exact ⟨comp, List.mem_cons_of_mem _ hcomp, hmem⟩

/-- A path with such a character names nothing. -/
theorem resolvePath_eq_none_of_wide {vol : Yaffs2Volume} (start : UInt32)
    {path : List UInt16} {c : UInt16} (hc : c ∈ path) (hwide : 0xFF < c) :
    resolvePath vol start (components path) = none := by
  have hback : c ≠ backslash := by
    rintro rfl
    exact absurd hwide (by decide)
  obtain ⟨comp, hcomp, hmem⟩ := exists_mem_splitOn hback hc
  have hkept : comp ∈ components path :=
    List.mem_filter.mpr ⟨hcomp, decide_eq_true (List.ne_nil_of_mem hmem)⟩
  have hnone := fun current => enter_eq_none_of_wide vol current hmem hwide
  generalize components path = comps at hkept
  induction comps generalizing start with
  | nil => cases hkept
  | cons first rest ih =>
      rw [resolvePath, List.foldlM_cons]
      rcases List.mem_cons.mp hkept with rfl | hkept
      · rw [hnone]
        rfl
      · cases enter vol start first with
        | none => rfl
        | some next => exact ih next hkept

/-! ## The law -/

/-- The converted path names no object of the volume. -/
def SeesNothing (vol : Yaffs2Volume) (handle : UInt32) (path : List UInt16) : Prop :=
  resolvePath vol (pathStart vol handle (seenPath path)) (components (seenPath path)) = none

/-- A path that the conversion leaves as it is. -/
def PathFits (path : List UInt16) : Prop := path.length < path8Size ∧ ∀ c ∈ path, c ≤ 0xFF

theorem PathFits.pathChars {path : List UInt16} (h : PathFits path) (hpath : ∀ c ∈ path, c ≠ 0) :
    PathChars path := fun c hc => ⟨hpath c hc, h.2 c hc⟩

/-- A path of bytes is terminated only when it is short. -/
theorem fits_of_terminated {path : List UInt16} (hpath : ∀ c ∈ path, c ≠ 0)
    (hterm : Terminated path) (hbytes : ∀ c ∈ path, c ≤ 0xFF) : PathFits path := by
  refine ⟨?_, hbytes⟩
  rcases hterm with hlen | ⟨c, hc, hzero⟩
  · exact hlen
  · have hmem := List.mem_of_mem_take hc
    have hc0 : c = 0 := (toUInt8_eq_iff (d := 0) (hbytes c hmem) (by decide)).mp hzero
    exact absurd hc0 (hpath c hmem)

section Open

variable {vol : Yaffs2Volume} {ifile : Yaffs2IFile} {handle : UInt32} {path : List UInt16}

/-- An open for reading resolves what it sees. -/
theorem yaffs2Open_seenPath (hvol : VolumeOK vol) (hfile : ifile.oFile = some handle)
    (hlive : (vol.object? handle).isSome = true) (hterm : Terminated path)
    {openMode : UInt64} (hwrite : openMode &&& efiFileModeWrite = 0)
    (hcreate : openMode &&& efiFileModeCreate = 0) (alloc : Bool) (slot : Option Yaffs2IFile)
    {stack : List UInt8} (hstack : stack.length = path8Size) {fuel : Nat}
    (hfuel : path8Size ≤ fuel) :
    yaffs2Open fuel alloc vol (some ifile) (some slot) (some path) openMode stack
      = finishOpen alloc vol slot
        (resolvePath vol (pathStart vol handle (seenPath path))
          (components (seenPath path))) := by
  obtain ⟨junk, hconv⟩ := convertPath_seenPath hstack hterm
  exact yaffs2Open_converted hvol hfile hlive hconv (pathChars_seenPath path) hwrite hcreate
    alloc slot (Nat.lt_of_lt_of_le (length_seenPath_lt hterm) hfuel)

/-- The end of an open that resolved to an object. -/
theorem finishOpen_some (hvol : VolumeOK vol) {target : UInt32}
    (hlive : (vol.object? target).isSome = true) (alloc : Bool) (slot : Option Yaffs2IFile) :
    ∃ status out, finishOpen alloc vol slot (some target) = .ok (status, out)
      ∧ (alloc = true → status = .success)
      ∧ (status = .success → ∃ file, out = some (some file) ∧ file.oFile = some target) := by
  obtain ⟨obj, hobj⟩ := Option.isSome_iff_exists.mp hlive
  rw [finishOpen, yaffs2AllocateIFile_eq hvol hobj]
  cases alloc with
  | false => exact ⟨_, _, rfl, by simp, by simp⟩
  | true => exact ⟨_, _, rfl, fun _ => rfl, fun _ => ⟨_, rfl, rfl⟩⟩

theorem resolvePath_seenPath_live (hvol : VolumeOK vol)
    (hlive : (vol.object? handle).isSome = true) {target : UInt32}
    (hres : resolvePath vol (pathStart vol handle (seenPath path))
      (components (seenPath path)) = some target) :
    (vol.object? target).isSome = true := by
  refine resolvePath_live hvol ?_ (pathStart_live hvol hlive _) hres
  intro comp hcomp d hd
  exact pathChars_seenPath path d (mem_of_mem_splitOn (List.mem_of_mem_filter hcomp) hd)

theorem OpensFaithfully.fits (hvol : BuiltTree vol) (hfile : ifile.oFile = some handle)
    (hlive : (vol.object? handle).isSome = true) (hpath : ∀ c ∈ path, c ≠ 0)
    (hopens : OpensFaithfully vol ifile handle path) :
    PathFits path ∨ (Terminated path ∧ SeesNothing vol handle path) := by
  have hok := hvol.volumeOK
  obtain ⟨hzero, status, out, hrun, hres⟩ := hopens true none 1
    (List.replicate path8Size 0) path8Size (by decide) (by decide) List.length_replicate
    (Nat.le_refl _)
  have hterm := (zero_mem_convertPath_iff List.length_replicate).mp hzero
  by_cases hbytes : ∀ c ∈ path, c ≤ 0xFF
  · exact .inl (fits_of_terminated hpath hterm hbytes)
  push Not at hbytes
  obtain ⟨c, hc, hwide⟩ := hbytes
  refine .inr ⟨hterm, ?_⟩
  rw [yaffs2Open_seenPath hok hfile hlive hterm (by decide) (by decide) true none
    List.length_replicate (Nat.le_refl _)] at hrun
  rw [SeesNothing]
  cases hseen : resolvePath vol (pathStart vol handle (seenPath path))
      (components (seenPath path)) with
  | none => rfl
  | some target =>
      -- the bytes name an object, the whole path does not
      obtain ⟨status', out', hrun', hsuccess, -⟩ := finishOpen_some hok
        (resolvePath_seenPath_live hok hlive hseen) true none
      rw [hseen, hrun'] at hrun
      obtain ⟨rfl, rfl⟩ := Prod.mk.inj (Except.ok.inj hrun)
      obtain ⟨file, target', -, -, hwhole⟩ := hres (hsuccess rfl)
      rw [resolvePath_eq_none_of_wide _ hc (UInt16.not_le.mp hwide)] at hwhole
      cases hwhole

theorem opensFaithfully_of_fits (hvol : BuiltTree vol) (hfile : ifile.oFile = some handle)
    (hlive : (vol.object? handle).isSome = true) (hpath : ∀ c ∈ path, c ≠ 0)
    (hcond : PathFits path ∨ (Terminated path ∧ SeesNothing vol handle path)) :
    OpensFaithfully vol ifile handle path := by
  have hok := hvol.volumeOK
  rintro alloc slot openMode stack fuel hwrite hcreate hstack hfuel
  have hterm : Terminated path := by
    rcases hcond with hfits | ⟨hterm, -⟩
    · exact .inl hfits.1
    · exact hterm
  refine ⟨(zero_mem_convertPath_iff hstack).mpr hterm, ?_⟩
  rw [yaffs2Open_seenPath hok hfile hlive hterm hwrite hcreate alloc slot hstack hfuel]
  cases hseen : resolvePath vol (pathStart vol handle (seenPath path))
      (components (seenPath path)) with
  | none => exact ⟨_, _, rfl, by simp⟩
  | some target =>
      obtain ⟨status, out, hrun, -, hfile'⟩ := finishOpen_some hok
        (resolvePath_seenPath_live hok hlive hseen) alloc slot
      refine ⟨status, out, hrun, fun hsuccess => ?_⟩
      obtain ⟨file, hout, htarget⟩ := hfile' hsuccess
      refine ⟨file, target, hout, htarget, ?_⟩
      rcases hcond with hfits | ⟨-, hnothing⟩
      · rwa [seenPath_eq hfits.1 (hfits.pathChars hpath)] at hseen
      · rw [SeesNothing, hseen] at hnothing
        cases hnothing

/-- An open is faithful exactly when the conversion changes nothing, or leaves
a terminated path that names nothing. -/
theorem opensFaithfully_iff (hvol : BuiltTree vol) (hfile : ifile.oFile = some handle)
    (hlive : (vol.object? handle).isSome = true) (hpath : ∀ c ∈ path, c ≠ 0) :
    OpensFaithfully vol ifile handle path ↔
      PathFits path ∨ (Terminated path ∧ SeesNothing vol handle path) :=
  ⟨OpensFaithfully.fits hvol hfile hlive hpath, opensFaithfully_of_fits hvol hfile hlive hpath⟩

end Open

/-- The path of one dot, from the root. -/
theorem opensFaithfully_iff_dot :
    ∃ vol, BuiltTree vol ∧ OpensFaithfully vol ⟨0, some 1, none⟩ 1 [dot] := by
  obtain ⟨vol, hbuilt, hlive⟩ := builtTree_root
  have hdot : ∀ c ∈ [dot], c ≠ 0 ∧ c ≤ 0xFF := by
    intro c hc
    rw [List.mem_singleton.mp hc]
    decide
  exact ⟨vol, hbuilt, (opensFaithfully_iff hbuilt rfl hlive fun c hc => (hdot c hc).1).mpr
    (.inl ⟨by decide, fun c hc => (hdot c hc).2⟩)⟩

/-- The path of the one character U+0100 opens the root. -/
theorem not_opensFaithfully_wide :
    ∃ vol, BuiltTree vol ∧ ¬ OpensFaithfully vol ⟨0, some 1, none⟩ 1 [0x100] := by
  obtain ⟨vol, hbuilt, hlive⟩ := builtTree_root
  refine ⟨vol, hbuilt, fun hopens => ?_⟩
  have hnonzero : ∀ c ∈ [(0x100 : UInt16)], c ≠ 0 := by
    intro c hc
    rw [List.mem_singleton.mp hc]
    decide
  rcases hopens.fits hbuilt rfl hlive hnonzero with hfits | ⟨-, hnothing⟩
  · exact absurd (hfits.2 0x100 List.mem_cons_self) (by decide)
  · have hseen : seenPath [0x100] = [] := by decide
    rw [SeesNothing, hseen, components_nil] at hnothing
    cases hnothing

end Ccr2004
