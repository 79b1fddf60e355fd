import Ccr2004.CString
import Ccr2004.YaffsTypes

/-!
# Opening a file

`Open.c`: `Yaffs2Open` with its hardlink resolution and the allocation of
the new handle. `Path8` is a buffer of 512 bytes whose earlier content is
arbitrary, and the two pointers of the walk are the rests of that buffer.
`NewHandle` points to a slot; the function returns what is in it afterwards.
-/

namespace Ccr2004

/-- A pointer to an object: null, or the object's index. -/
abbrev ObjectPtr := Option UInt32

/-- The object behind a pointer. -/
def Yaffs2Volume.deref (vol : Yaffs2Volume) : ObjectPtr → Run Yaffs2Object
  | none => .error .nullDeref
  | some id => do
      match ← vol.slot id with
      | none => .error .nullDeref
      | some obj => .ok obj

/-- `YAFFS2_IFILE`. `DirCursor` is the list entries from the cursor on. -/
structure Yaffs2IFile where
  position : UInt64
  oFile : ObjectPtr
  dirCursor : Option (List UInt32)
deriving DecidableEq

/-- `alloc` is whether the allocation succeeds. -/
def yaffs2AllocateIFile (alloc : Bool) (vol : Yaffs2Volume) (oFile : ObjectPtr) :
    Run (Option Yaffs2IFile) :=
  if !alloc then .ok none
  else do
    let obj ← vol.deref oFile
    .ok (some
      { position := 0
        oFile := oFile
        dirCursor := if obj.type = yaffs2TypeDir then some obj.children else none })

/-- The loop of `ResolveHardlinks`, with the rounds that are left. -/
def resolveHardlinks (vol : Yaffs2Volume) : Nat → ObjectPtr → Run ObjectPtr
  | 0, _ => .ok none
  | depth + 1, p => do
      let obj ← vol.deref p
      if obj.type ≠ yaffs2TypeHardlink then .ok p
      else if obj.equivId = 0 ∨ obj.equivId > vol.maxObjId then .ok none
      else
        match ← vol.slot obj.equivId with
        | none => .ok none
        | some _ => resolveHardlinks vol depth (some obj.equivId)

/-- `EFI_FILE_MODE_WRITE`. -/
def efiFileModeWrite : UInt64 := 0x0000000000000002

/-- `EFI_FILE_MODE_CREATE`. -/
def efiFileModeCreate : UInt64 := 0x8000000000000000

def dotChar : UInt8 := 0x2E
def backslashChar : UInt8 := 0x5C

/-- `sizeof (Path8)`. -/
def path8Size : Nat := 512

/-- `Path8` after the conversion: `Len + 1` characters of the file name,
each cut to a byte, over what the stack held. -/
def convertPath (fileName : List UInt16) (stack : List UInt8) : List UInt8 :=
  let len := if fileName.length ≥ path8Size then path8Size - 1 else fileName.length
  ((fileName ++ [0]).take (len + 1)).map UInt16.toUInt8 ++ stack.drop (len + 1)

/-- The object a relative path starts from: the handle's directory, or the
parent of the handle's file. -/
def startObject (vol : Yaffs2Volume) (ifile : Yaffs2IFile) : Run ObjectPtr := do
  let current ← vol.deref ifile.oFile
  if current.type ≠ yaffs2TypeDir then
    match current.parent with
    | none => .ok vol.root
    | some parent => .ok (some parent)
  else .ok ifile.oFile

/-- One round of the scan for `End`. -/
def endRound (e : List UInt8) : Run (Flow (List UInt8) (List UInt8)) := do
  let c ← loadByte e
  if c ≠ 0 ∧ c ≠ backslashChar then .ok (.next e.tail) else .ok (.exit e)

/-- `End`: the first backslash or terminator from `p` on. -/
def componentEnd (fuel : Nat) (p : List UInt8) : Run (List UInt8) :=
  loopFuel endRound fuel p

/-- `(CompLen == 1) && (p[0] == '.')`. -/
def isDot (p : List UInt8) (compLen : Nat) : Run Bool :=
  if compLen = 1 then do
    let c ← loadAt p 0
    .ok (c == dotChar)
  else .ok false

/-- `(CompLen == 2) && (p[0] == '.') && (p[1] == '.')`. -/
def isDotDot (p : List UInt8) (compLen : Nat) : Run Bool :=
  if compLen = 2 then do
    let c ← loadAt p 0
    if c ≠ dotChar then .ok false
    else do
      let c ← loadAt p 1
      .ok (c == dotChar)
  else .ok false

/-- `(AsciiStrnCmp (Child->Name, p, CompLen) == 0) && (Child->Name[CompLen] == '\0')`. -/
def nameMatches (name p : List UInt8) (compLen : Nat) : Run Bool := do
  let v ← strnCmp name p compLen
  if v = 0 then do
    let c ← loadAt name compLen
    .ok (c == 0)
  else .ok false

/-- The search through `ChildHead`; null when no child matches. -/
def findChild (vol : Yaffs2Volume) (p : List UInt8) (compLen : Nat) :
    List UInt32 → Run ObjectPtr
  | [] => .ok none
  | id :: rest => do
      let child ← vol.deref (some id)
      if ← nameMatches child.name.toList p compLen then .ok (some id)
      else findChild vol p compLen rest

/-- One component: the new `Current`, or `none` where the function returns
`EFI_NOT_FOUND`. -/
def walkComponent (vol : Yaffs2Volume) (p : List UInt8) (compLen : Nat)
    (current : ObjectPtr) : Run (Option ObjectPtr) := do
  if ← isDot p compLen then .ok (some current)
  else if ← isDotDot p compLen then do
    let obj ← vol.deref current
    match obj.parent with
    | none => .ok (some current)
    | some parent => .ok (some (some parent))
  else do
    let obj ← vol.deref current
    if obj.type ≠ yaffs2TypeDir then .ok none
    else
      match ← findChild vol p compLen obj.children with
      | none => .ok none
      | some child =>
          match ← resolveHardlinks vol 16 (some child) with
          | none => .ok none
          | some target => .ok (some (some target))

/-- One round of the walk. -/
def walkRound (fuel : Nat) (vol : Yaffs2Volume) (s : List UInt8 × ObjectPtr) :
    Run (Flow (List UInt8 × ObjectPtr) (Option ObjectPtr)) := do
  let (p, current) := s
  let c ← loadByte p
  if c = 0 then .ok (.exit (some current))
  else do
    let e ← componentEnd fuel p
    let compLen := p.length - e.length
    if compLen = 0 then .ok (.next (e.tail, current))
    else
      match ← walkComponent vol p compLen current with
      | none => .ok (.exit none)
      | some current => do
          let c ← loadByte e
          .ok (.next (if c = backslashChar then e.tail else e, current))

/-- The walk; `none` where the function returns `EFI_NOT_FOUND`. -/
def walkPath (fuel : Nat) (vol : Yaffs2Volume) (p : List UInt8) (current : ObjectPtr) :
    Run (Option ObjectPtr) :=
  loopFuel (walkRound fuel vol) fuel (p, current)

/-- `Yaffs2Open`: the status and the slot `NewHandle` points to. `stack` is
what `Path8` holds before the conversion. -/
def yaffs2Open (fuel : Nat) (alloc : Bool) (vol : Yaffs2Volume)
    (this : Option Yaffs2IFile) (newHandle : Option (Option Yaffs2IFile))
    (fileName : Option (List UInt16)) (openMode : UInt64) (stack : List UInt8) :
    Run (EfiStatus × Option (Option Yaffs2IFile)) :=
  match this, newHandle, fileName with
  | some ifile, some _, some fileName =>
      if openMode &&& efiFileModeWrite ≠ 0 then .ok (.writeProtected, newHandle)
      else if openMode &&& efiFileModeCreate ≠ 0 then .ok (.writeProtected, newHandle)
      else do
        let current ← startObject vol ifile
        let path8 := convertPath fileName stack
        let c ← loadByte path8
        let (p, current) :=
          if c = backslashChar then (path8.tail, vol.root) else (path8, current)
        match ← walkPath fuel vol p current with
        | none => .ok (.notFound, newHandle)
        | some current =>
            match ← yaffs2AllocateIFile alloc vol current with
            | none => .ok (.outOfResources, newHandle)
            | some newIFile => .ok (.success, some (some newIFile))
  | _, _, _ => .ok (.invalidParameter, newHandle)

end Ccr2004
