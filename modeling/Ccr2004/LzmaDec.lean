import Ccr2004.LzmaRc
import Ccr2004.XzDict

/-!
# The LZMA decoder

The third part of `XzDec/xz_dec_lzma2.c`, with `xz_lzma2.h`: what one symbol is
and how it changes the dictionary, as a `Decision` over the probabilities, and
`lzma_main`, which decodes symbols until the dictionary is full up to its limit
or the input may not hold another one.
-/

namespace Ccr2004

/-! ## The state -/

/-- `enum lzma_state`. -/
inductive LzmaState where
  | litLit
  | matchLitLit
  | repLitLit
  | shortrepLitLit
  | matchLit
  | repLit
  | shortrepLit
  | litMatch
  | litLongrep
  | litShortrep
  | nonlitMatch
  | nonlitRep
deriving Repr, DecidableEq

namespace LzmaState

/-- The value of the state in C. -/
def index : LzmaState → Nat
  | .litLit => 0
  | .matchLitLit => 1
  | .repLitLit => 2
  | .shortrepLitLit => 3
  | .matchLit => 4
  | .repLit => 5
  | .shortrepLit => 6
  | .litMatch => 7
  | .litLongrep => 8
  | .litShortrep => 9
  | .nonlitMatch => 10
  | .nonlitRep => 11

def isLiteral (state : LzmaState) : Bool := state.index < 7

/-- Up to `STATE_SHORTREP_LIT_LIT` back to the first state, up to
`STATE_LIT_SHORTREP` three states back, else six. -/
def literal : LzmaState → LzmaState
  | .litLit | .matchLitLit | .repLitLit | .shortrepLitLit => .litLit
  | .matchLit => .matchLitLit
  | .repLit => .repLitLit
  | .shortrepLit => .shortrepLitLit
  | .litMatch => .matchLit
  | .litLongrep => .repLit
  | .litShortrep => .shortrepLit
  | .nonlitMatch => .matchLit
  | .nonlitRep => .repLit

def «match» (state : LzmaState) : LzmaState :=
  if state.index < 7 then .litMatch else .nonlitMatch

def longRep (state : LzmaState) : LzmaState :=
  if state.index < 7 then .litLongrep else .nonlitRep

def shortRep (state : LzmaState) : LzmaState :=
  if state.index < 7 then .litShortrep else .nonlitRep

theorem index_lt (state : LzmaState) : state.index < 12 := by
  cases state <;> decide

theorem isLiteral_literal (state : LzmaState) : state.literal.isLiteral = true := by
  cases state <;> rfl

end LzmaState

/-- `struct lzma_dec` without its probabilities. Distances and lengths stay
below `2 ^ 32` (`LzmaDec.Ok`). -/
structure LzmaDec where
  rep0 : Nat
  rep1 : Nat
  rep2 : Nat
  rep3 : Nat
  state : LzmaState
  len : Nat
  lc : Nat
  literalPosMask : Nat
  posMask : Nat
deriving Repr, DecidableEq

/-- What a symbol reads and writes besides the range decoder. -/
structure Lzma where
  dict : Dictionary
  dec : LzmaDec
deriving Repr, DecidableEq

/-! ## The arrays of `struct lzma_dec` -/

/-- `is_match[state]`. -/
def isMatch (state : LzmaState) : ProbArray := ⟨16 * state.index, 16⟩

def isRep : ProbArray := ⟨192, 12⟩

def isRep0 : ProbArray := ⟨204, 12⟩

def isRep1 : ProbArray := ⟨216, 12⟩

def isRep2 : ProbArray := ⟨228, 12⟩

/-- `is_rep0_long[state]`. -/
def isRep0Long (state : LzmaState) : ProbArray := ⟨240 + 16 * state.index, 16⟩

/-- `dist_slot[distState]`. -/
def distSlots (distState : Nat) : ProbArray := ⟨432 + 64 * distState, 64⟩

def distSpecial : ProbArray := ⟨688, 114⟩

def distAlign : ProbArray := ⟨802, 16⟩

/-- `struct lzma_len_dec`: where it begins. -/
structure LenDec where
  base : Nat
deriving Repr, DecidableEq

def matchLenDec : LenDec := ⟨818⟩

def repLenDec : LenDec := ⟨1332⟩

def LenDec.choice (l : LenDec) : ProbArray := ⟨l.base, 1⟩

def LenDec.choice2 (l : LenDec) : ProbArray := ⟨l.base + 1, 1⟩

/-- `low[posState]`. -/
def LenDec.low (l : LenDec) (posState : Nat) : ProbArray := ⟨l.base + 2 + 8 * posState, 8⟩

/-- `mid[posState]`. -/
def LenDec.mid (l : LenDec) (posState : Nat) : ProbArray := ⟨l.base + 130 + 8 * posState, 8⟩

def LenDec.high (l : LenDec) : ProbArray := ⟨l.base + 258, 256⟩

/-- `literal[i]`. -/
def literalCoder (i : Nat) : ProbArray := ⟨1846 + 0x300 * i, 0x300⟩

/-- Position states index the arrays of 16 entries. -/
def checkIndex (i size : Nat) : Run Unit :=
  if i < size then .ok () else .error .outOfBounds

/-! ## Symbols -/

def lzmaLiteralProbs (s : Lzma) : Run ProbArray := do
  let prevByte ← s.dict.get 0
  let low := prevByte.toNat >>> (8 - s.dec.lc)
  let high := (s.dict.pos &&& s.dec.literalPosMask) <<< s.dec.lc
  checkIndex (low + high) 16
  .ok (literalCoder (low + high))

/-- The loop over the bits of a literal after a match. -/
def lzmaMatchedFrom (probs : ProbArray) :
    Nat → (symbol : Nat) → (matchByte offset : UInt32) → Decision Nat Nat
  | 0, _, _, _ => .fault .diverge
  | n + 1, symbol, matchByte, offset => do
      let matchBit := matchByte &&& offset
      let matchByte := matchByte <<< 1
      let bit ← probs.bit (offset.toNat + matchBit.toNat + symbol)
      let offset := if bit then offset &&& matchBit else offset &&& ~~~matchBit
      let symbol := if bit then symbol * 2 + 1 else symbol * 2
      if symbol < 0x100 then lzmaMatchedFrom probs n symbol matchByte offset else pure symbol

def lzmaMatched (probs : ProbArray) (matchByte : UInt8) : Decision Nat Nat :=
  lzmaMatchedFrom probs 32 1 (matchByte.toUInt32 <<< 1) 0x100

/-- The bits of a literal. -/
def lzmaLiteralSymbol (s : Lzma) (probs : ProbArray) : Decision Nat Nat :=
  if s.dec.state.isLiteral then rcBittree probs 0x100
  else do
    let matchByte ← .ofRun (s.dict.get s.dec.rep0)
    lzmaMatched probs matchByte

def lzmaLiteral (s : Lzma) : Decision Nat Lzma := do
  let probs ← .ofRun (lzmaLiteralProbs s)
  let symbol ← lzmaLiteralSymbol s probs
  let dict ← .ofRun (s.dict.put (UInt8.ofNat symbol))
  pure { dict := dict, dec := { s.dec with state := s.dec.state.literal } }

/-- `lzma_len`: the length it stores. -/
def lzmaLen (l : LenDec) (posState : Nat) : Decision Nat Nat := do
  if !(← l.choice.bit 0) then
    .ofRun (checkIndex posState 16)
    return 2 + (← rcBittree (l.low posState) 8) - 8
  else if !(← l.choice2.bit 0) then
    .ofRun (checkIndex posState 16)
    return 10 + (← rcBittree (l.mid posState) 8) - 8
  else
    return 18 + (← rcBittree l.high 256) - 256

/-- `lzma_get_dist_state`. -/
def lzmaGetDistState (len : Nat) : Nat := if len < 6 then len - 2 else 3

def lzmaMatch (dec : LzmaDec) (posState : Nat) : Decision Nat LzmaDec := do
  let dec := { dec with state := dec.state.match, rep3 := dec.rep2, rep2 := dec.rep1,
                        rep1 := dec.rep0 }
  let len ← lzmaLen matchLenDec posState
  let distSlot := (← rcBittree (distSlots (lzmaGetDistState len)) 64) - 64
  if distSlot < 4 then return { dec with len := len, rep0 := distSlot }
  else
    let limit := distSlot / 2 - 1
    let rep0 := 2 + distSlot % 2
    if distSlot < 14 then
      let rep0 := rep0 * 2 ^ limit
      let rep0 ← rcBittreeReverse distSpecial ((rep0 : Int) - distSlot - 1) rep0 limit
      return { dec with len := len, rep0 := rep0 }
    else
      let rep0 ← rcDirect rep0 (limit - 4)
      let rep0 := rep0 * 16
      let rep0 ← rcBittreeReverse distAlign 0 rep0 4
      return { dec with len := len, rep0 := rep0 }

def lzmaRepMatch (dec : LzmaDec) (posState : Nat) : Decision Nat LzmaDec := do
  if !(← isRep0.bit dec.state.index) then
    if !(← (isRep0Long dec.state).bit posState) then
      return { dec with state := dec.state.shortRep, len := 1 }
    else
      let len ← lzmaLen repLenDec posState
      return { dec with state := dec.state.longRep, len := len }
  else if !(← isRep1.bit dec.state.index) then
    let len ← lzmaLen repLenDec posState
    return { dec with state := dec.state.longRep, len := len,
                      rep1 := dec.rep0, rep0 := dec.rep1 }
  else if !(← isRep2.bit dec.state.index) then
    let len ← lzmaLen repLenDec posState
    return { dec with state := dec.state.longRep, len := len,
                      rep2 := dec.rep1, rep1 := dec.rep0, rep0 := dec.rep2 }
  else
    let len ← lzmaLen repLenDec posState
    return { dec with state := dec.state.longRep, len := len, rep3 := dec.rep2,
                      rep2 := dec.rep1, rep1 := dec.rep0, rep0 := dec.rep3 }

/-- Either kind of match. -/
def lzmaAnyMatch (dec : LzmaDec) (posState : Nat) : Decision Nat LzmaDec := do
  if ← isRep.bit dec.state.index then lzmaRepMatch dec posState
  else lzmaMatch dec posState

/-- One round of `lzma_main`: false for a distance that is not valid. -/
def lzmaSymbol (s : Lzma) : Decision Nat (Bool × Lzma) := do
  let posState := s.dict.pos &&& s.dec.posMask
  if !(← (isMatch s.dec.state).bit posState) then
    return (true, ← lzmaLiteral s)
  else
    let dec ← lzmaAnyMatch s.dec posState
    match ← .ofRun (s.dict.repeat dec.len dec.rep0) with
    | none => return (false, { s with dec := dec })
    | some (dict, len) => return (true, { dict := dict, dec := { dec with len := len } })

/-! ## The decoder core -/

def lzmaMainRound (c : Lzma × LzmaCoder) :
    Run (Flow (Lzma × LzmaCoder) (Bool × Lzma × LzmaCoder)) :=
  if c.1.dict.hasSpace && !c.2.rc.limitExceeded then do
    let ((valid, s), coder) ← (lzmaSymbol c.1).run lzmaSource c.2
    .ok (if valid then .next (s, coder) else .exit (false, s, coder))
  else .ok (.exit (true, c))

/-- The repeat that the dictionary had no space for. -/
def lzmaPending (s : Lzma) : Run Lzma :=
  if s.dict.hasSpace && s.dec.len > 0 then do
    match ← s.dict.repeat s.dec.len s.dec.rep0 with
    | none => .ok s
    | some (dict, len) => .ok { dict := dict, dec := { s.dec with len := len } }
  else .ok s

def lzmaMain (s : Lzma) (coder : LzmaCoder) : Run (Bool × Lzma × LzmaCoder) := do
  let s ← lzmaPending s
  let (valid, s, coder) ← loopFuel lzmaMainRound (s.dict.limit - s.dict.pos + 1) (s, coder)
  if valid then do
    let rc ← coder.rc.normalize
    .ok (true, s, { coder with rc := rc })
  else .ok (false, s, coder)

/-- `lzma_reset`: the loop runs over all the probabilities, from `is_match` on. -/
def lzmaReset (dec : LzmaDec) (coder : LzmaCoder) : LzmaDec × LzmaCoder :=
  ({ dec with state := .litLit, rep0 := 0, rep1 := 0, rep2 := 0, rep3 := 0, len := 0 },
    { rc := coder.rc.reset, probs := fun i => if i < probsTotal then 1024 else coder.probs i })

/-- `lzma_props`: the loops divide by 45 and by 9. -/
def lzmaProps (dec : LzmaDec) (coder : LzmaCoder) (props : UInt8) :
    Bool × LzmaDec × LzmaCoder :=
  if props.toNat > (4 * 5 + 4) * 9 + 8 then (false, dec, coder)
  else
    let dec := { dec with posMask := 2 ^ (props.toNat / 45) - 1 }
    let lp := props.toNat % 45 / 9
    let dec := { dec with literalPosMask := lp, lc := props.toNat % 45 % 9 }
    if dec.lc + lp > 4 then (false, dec, coder)
    else
      let (dec, coder) := lzmaReset { dec with literalPosMask := 2 ^ lp - 1 } coder
      (true, dec, coder)

end Ccr2004
