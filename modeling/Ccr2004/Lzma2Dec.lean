import Ccr2004.LzmaDec

/-!
# The LZMA2 decoder

The last part of `XzDec/xz_dec_lzma2.c`: `lzma2_lzma`, which gives `lzma_main`
its input, from the caller's buffer while there is plenty and from `temp` near
its end, and `xz_dec_lzma2_run`, the machine over the chunks.
-/

namespace Ccr2004

/-- `enum lzma2_seq`. -/
inductive Lzma2Sequence where
  | control
  | uncompressed1
  | uncompressed2
  | compressed0
  | compressed1
  | properties
  | lzmaPrepare
  | lzmaRun
  | copy
deriving Repr, DecidableEq

/-- `temp`: `buf` holds `3 * LZMA_IN_REQUIRED` bytes. -/
structure Lzma2Temp where
  size : Nat
  buf : List UInt8
deriving Repr, DecidableEq

/-- `struct xz_dec_lzma2`. -/
structure XzDecLzma2 where
  coder : LzmaCoder
  lzma : Lzma
  sequence : Lzma2Sequence
  nextSequence : Lzma2Sequence
  uncompressed : Nat
  compressed : Nat
  needDictReset : Bool
  needProps : Bool
  temp : Lzma2Temp

/-! ## The input of the LZMA decoder -/

/-- `b->in + b->in_pos`, `n` bytes. -/
def XzBuf.peek (b : XzBuf) (n : Nat) : Run (List UInt8) :=
  if b.inPos + n ≤ b.input.length then .ok ((b.input.drop b.inPos).take n)
  else .error .outOfBounds

/-- `b->in[b->in_pos++]`. -/
def XzBuf.next (b : XzBuf) : Run (UInt8 × XzBuf) :=
  match b.input[b.inPos]? with
  | some byte => .ok (byte, { b with inPos := b.inPos + 1 })
  | none => .error .outOfBounds

/-- Copy into `temp.buf` at `pos`. -/
def Lzma2Temp.copy (t : Lzma2Temp) (pos : Nat) (bytes : List UInt8) : Run Lzma2Temp :=
  if pos + bytes.length ≤ t.buf.length then
    .ok { t with buf := t.buf.take pos ++ bytes ++ t.buf.drop (pos + bytes.length) }
  else .error .outOfBounds

/-- `lzma_main` over an input. -/
def XzDecLzma2.main (s : XzDecLzma2) (input : List UInt8) (inPos inLimit : Nat) :
    Run (Bool × XzDecLzma2) := do
  let rc := { s.coder.rc with input := input, inPos := inPos, inLimit := inLimit }
  let (valid, lzma, coder) ← lzmaMain s.lzma { s.coder with rc := rc }
  .ok (valid, { s with lzma := lzma, coder := coder })

/-- How many bytes are copied behind those in `temp`. -/
def lzma2Take (s : XzDecLzma2) (b : XzBuf) : Nat :=
  let inAvail := b.input.length - b.inPos
  let tmp := 2 * lzmaInRequired - s.temp.size
  let tmp := if tmp > s.compressed - s.temp.size then s.compressed - s.temp.size else tmp
  if tmp > inAvail then inAvail else tmp

/-- `temp` with `tmp` more bytes, and with zeros after the end of the chunk. -/
def lzma2FillTemp (s : XzDecLzma2) (b : XzBuf) (tmp : Nat) : Run Lzma2Temp := do
  let bytes ← b.peek tmp
  let temp ← s.temp.copy s.temp.size bytes
  if s.temp.size + tmp = s.compressed then
    temp.copy (s.temp.size + tmp) (List.replicate (3 * lzmaInRequired - s.temp.size - tmp) 0)
  else .ok temp

/-- After decoding from `temp`: keep what it still holds, or go on in the
caller's buffer. -/
def lzma2LeaveTemp (s : XzDecLzma2) (b : XzBuf) :
    Run (Flow (XzDecLzma2 × XzBuf) (Bool × XzDecLzma2 × XzBuf)) :=
  let s := { s with compressed := s.compressed - s.coder.rc.inPos }
  if s.coder.rc.inPos < s.temp.size then do
    let size := s.temp.size - s.coder.rc.inPos
    let temp ← s.temp.copy 0 ((s.temp.buf.drop s.coder.rc.inPos).take size)
    .ok (.exit (true, { s with temp := { temp with size := size } }, b))
  else
    .ok (.next ({ s with temp := { s.temp with size := 0 } },
      { b with inPos := b.inPos + (s.coder.rc.inPos - s.temp.size) }))

/-- The first part of `lzma2_lzma`: decode from `temp`. -/
def lzma2FromTemp (s : XzDecLzma2) (b : XzBuf) :
    Run (Flow (XzDecLzma2 × XzBuf) (Bool × XzDecLzma2 × XzBuf)) :=
  if s.temp.size > 0 ∨ s.compressed = 0 then do
    let tmp := lzma2Take s b
    let temp ← lzma2FillTemp s b tmp
    if s.temp.size + tmp ≠ s.compressed ∧ s.temp.size + tmp < lzmaInRequired then
      .ok (.exit (true, { s with temp := { temp with size := s.temp.size + tmp } },
        { b with inPos := b.inPos + tmp }))
    else do
      let inLimit :=
        if s.temp.size + tmp = s.compressed then s.temp.size + tmp
        else s.temp.size + tmp - lzmaInRequired
      let (valid, s) ← XzDecLzma2.main { s with temp := temp } temp.buf 0 inLimit
      if !valid || s.coder.rc.inPos > s.temp.size + tmp then .ok (.exit (false, s, b))
      else lzma2LeaveTemp s b
  else .ok (.next (s, b))

/-- The second part: decode from the caller's buffer. -/
def lzma2FromInput (s : XzDecLzma2) (b : XzBuf) :
    Run (Flow (XzDecLzma2 × XzBuf) (Bool × XzDecLzma2 × XzBuf)) :=
  let inAvail := b.input.length - b.inPos
  if inAvail ≥ lzmaInRequired then do
    let inLimit :=
      if inAvail ≥ s.compressed + lzmaInRequired then b.inPos + s.compressed
      else b.input.length - lzmaInRequired
    let (valid, s) ← s.main b.input b.inPos inLimit
    if !valid then .ok (.exit (false, s, b))
    else
      let inAvail := s.coder.rc.inPos - b.inPos
      if inAvail > s.compressed then .ok (.exit (false, s, b))
      else
        .ok (.next ({ s with compressed := s.compressed - inAvail },
          { b with inPos := s.coder.rc.inPos }))
  else .ok (.next (s, b))

/-- The third part: keep the last bytes in `temp`. -/
def lzma2ToTemp (s : XzDecLzma2) (b : XzBuf) : Run (Bool × XzDecLzma2 × XzBuf) :=
  let inAvail := b.input.length - b.inPos
  if inAvail < lzmaInRequired then do
    let inAvail := if inAvail > s.compressed then s.compressed else inAvail
    let bytes ← b.peek inAvail
    let temp ← s.temp.copy 0 bytes
    .ok (true, { s with temp := { temp with size := inAvail } },
      { b with inPos := b.inPos + inAvail })
  else .ok (true, s, b)

def lzma2Lzma (s : XzDecLzma2) (b : XzBuf) : Run (Bool × XzDecLzma2 × XzBuf) := do
  match ← lzma2FromTemp s b with
  | .exit r => .ok r
  | .next (s, b) =>
      match ← lzma2FromInput s b with
      | .exit r => .ok r
      | .next (s, b) => lzma2ToTemp s b

/-! ## The chunks -/

/-- How a round of the machine ends: it goes on, or it returns. -/
abbrev Lzma2Flow := Flow (XzDecLzma2 × XzBuf) (XzCode × XzDecLzma2 × XzBuf)

/-- `SEQ_CONTROL`. -/
def lzma2Control (s : XzDecLzma2) (b : XzBuf) (tmp : UInt8) : Lzma2Flow :=
  if tmp = 0x00 then .exit (.streamEnd, s, b)
  else
    let resets : Bool := tmp ≥ 0xE0 || tmp = 0x01
    if !resets && s.needDictReset then .exit (.dataError, s, b)
    else
      let s := if resets then
        { s with needProps := true, needDictReset := false
                 lzma := { s.lzma with dict := s.lzma.dict.reset b } } else s
      if tmp ≥ 0x80 then
        let s := { s with uncompressed := (tmp &&& 0x1F).toNat <<< 16, sequence := .uncompressed1 }
        if tmp ≥ 0xC0 then .next ({ s with needProps := false, nextSequence := .properties }, b)
        else if s.needProps then .exit (.dataError, s, b)
        else
          let s := { s with nextSequence := .lzmaPrepare }
          if tmp ≥ 0xA0 then
            let (dec, coder) := lzmaReset s.lzma.dec s.coder
            .next ({ s with lzma := { s.lzma with dec := dec }, coder := coder }, b)
          else .next (s, b)
      else if tmp > 0x02 then .exit (.dataError, s, b)
      else .next ({ s with sequence := .compressed0, nextSequence := .copy }, b)

/-- `SEQ_LZMA_RUN`. -/
def lzma2RunChunk (s : XzDecLzma2) (b : XzBuf) : Run Lzma2Flow := do
  let dict := s.lzma.dict.setLimit (min (b.outSize - b.out.length) s.uncompressed)
  let (valid, s, b) ← lzma2Lzma { s with lzma := { s.lzma with dict := dict } } b
  if !valid then .ok (.exit (.dataError, s, b))
  else
    let (copySize, dict, b) := s.lzma.dict.flush b
    let s := { s with lzma := { s.lzma with dict := dict }
                      uncompressed := s.uncompressed - copySize }
    if s.uncompressed = 0 then
      if s.compressed > 0 || s.lzma.dec.len > 0 || !s.coder.rc.isFinished then
        .ok (.exit (.dataError, s, b))
      else
        .ok (.next ({ s with coder := { s.coder with rc := s.coder.rc.reset }
                             sequence := .control }, b))
    else if b.out.length = b.outSize ∨ b.inPos = b.input.length ∧ s.temp.size < s.compressed then
      .ok (.exit (.ok, s, b))
    else .ok (.next (s, b))

/-- `SEQ_LZMA_PREPARE`, which falls through. -/
def lzma2Prepare (s : XzDecLzma2) (b : XzBuf) : Run Lzma2Flow :=
  if s.compressed < 5 then .ok (.exit (.dataError, s, b))
  else
    let (ready, rc, b) := s.coder.rc.readInit b
    let s := { s with coder := { s.coder with rc := rc } }
    if !ready then .ok (.exit (.ok, s, b))
    else lzma2RunChunk { s with compressed := s.compressed - 5, sequence := .lzmaRun } b

/-- One round of the loop of `xz_dec_lzma2_run`. -/
def lzma2Round (c : XzDecLzma2 × XzBuf) : Run Lzma2Flow :=
  let (s, b) := c
  if b.inPos < b.input.length ∨ s.sequence = .lzmaRun then
    match s.sequence with
    | .control => do
        let (tmp, b) ← b.next
        .ok (lzma2Control s b tmp)
    | .uncompressed1 => do
        let (byte, b) ← b.next
        .ok (.next ({ s with uncompressed := s.uncompressed + byte.toNat <<< 8
                             sequence := .uncompressed2 }, b))
    | .uncompressed2 => do
        let (byte, b) ← b.next
        .ok (.next ({ s with uncompressed := s.uncompressed + byte.toNat + 1
                             sequence := .compressed0 }, b))
    | .compressed0 => do
        let (byte, b) ← b.next
        .ok (.next ({ s with compressed := byte.toNat <<< 8, sequence := .compressed1 }, b))
    | .compressed1 => do
        let (byte, b) ← b.next
        .ok (.next ({ s with compressed := s.compressed + byte.toNat + 1
                             sequence := s.nextSequence }, b))
    | .properties => do
        let (props, b) ← b.next
        let (valid, dec, coder) := lzmaProps s.lzma.dec s.coder props
        let s := { s with lzma := { s.lzma with dec := dec }, coder := coder }
        if !valid then .ok (.exit (.dataError, s, b))
        else lzma2Prepare { s with sequence := .lzmaPrepare } b
    | .lzmaPrepare => lzma2Prepare s b
    | .lzmaRun => lzma2RunChunk s b
    | .copy => do
        let (dict, b, left) ← s.lzma.dict.uncompressed b s.compressed
        let s := { s with lzma := { s.lzma with dict := dict }, compressed := left }
        if left > 0 then .ok (.exit (.ok, s, b)) else .ok (.next ({ s with sequence := .control }, b))
  else .ok (.exit (.ok, s, b))

/-- Rounds enough to read the input and to fill the output, a byte a round. -/
def lzma2Fuel (b : XzBuf) : Nat :=
  b.input.length - b.inPos + (b.outSize - b.out.length) + 1

def xzDecLzma2Run (s : XzDecLzma2) (b : XzBuf) : Run (XzCode × XzDecLzma2 × XzBuf) :=
  loopFuel lzma2Round (lzma2Fuel b) (s, b)

/-! ## Setting up -/

/-- `xz_dec_lzma2_create`, when there is memory: what the allocation leaves
unset is 0. -/
def xzDecLzma2Create (mode : XzMode) (dictMax : Nat) : XzDecLzma2 where
  coder := ⟨⟨0, 0, 0, [], 0, 0⟩, fun _ => 0⟩
  lzma := ⟨⟨mode, 0, [], 0, 0, 0, 0, 0, 0, dictMax⟩, ⟨0, 0, 0, 0, .litLit, 0, 0, 0, 0⟩⟩
  sequence := .control
  nextSequence := .control
  uncompressed := 0
  compressed := 0
  needDictReset := false
  needProps := false
  temp := ⟨0, List.replicate (3 * lzmaInRequired) 0⟩

def xzDecLzma2Reset (s : XzDecLzma2) (props : UInt8) : XzCode × XzDecLzma2 :=
  if props > 39 then (.optionsError, s)
  else
    let size := (2 + (props &&& 1).toNat) <<< (props.toNat / 2 + 11)
    let s := { s with lzma := { s.lzma with dict := { s.lzma.dict with size := size } } }
    if s.lzma.dict.mode = .prealloc ∧ size > s.lzma.dict.sizeMax then (.memlimitError, s)
    else
      let bufEnd := if s.lzma.dict.mode = .prealloc then size else s.lzma.dict.bufEnd
      (.ok, { s with
        lzma := { s.lzma with dict := { s.lzma.dict with bufEnd := bufEnd } }
        sequence := .control
        needDictReset := true
        temp := { s.temp with size := 0 } })

end Ccr2004
