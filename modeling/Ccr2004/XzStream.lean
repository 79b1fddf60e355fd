import Ccr2004.KernelExtract
import Ccr2004.Run

/-!
# The XZ stream decoder

`XzDec/xz_dec_stream.c`: a stream header, blocks, an index that must match
what the blocks were, and a footer. `dec_main` is a machine over `sequence`
that reads the input and hands the compressed data of a block to the LZMA2
decoder, which is a `Lzma2`. Both positions only advance there
(`decMain_total`); it is `xz_dec_run` that takes them back, and only in
single-call mode (`xzDecRun_single`).
-/

namespace Ccr2004

/-! ## Checksums -/

/-- An entry of `xz_crc32_table`. -/
def xzCrc32Entry (i : UInt32) : UInt32 :=
  (List.range 8).foldl (fun r _ => (r >>> 1) ^^^ (0xEDB88320 &&& ~~~((r &&& 1) - 1))) i

def xzCrc32 (buf : List UInt8) (crc : UInt32) : UInt32 :=
  ~~~(buf.foldl (fun crc byte => xzCrc32Entry (byte.toUInt32 ^^^ (crc &&& 0xFF)) ^^^ (crc >>> 8))
    (~~~crc))

/-! ## The decoder and its buffers -/

/-- `enum xz_ret`. -/
inductive XzCode where
  | ok
  | streamEnd
  | unsupportedCheck
  | memError
  | memlimitError
  | formatError
  | optionsError
  | dataError
  | bufError
deriving Repr, DecidableEq

/-- `enum xz_mode`, as far as it is enabled. -/
inductive XzMode where
  | single
  | prealloc
deriving Repr, DecidableEq

/-- `struct xz_buf`: `out` is the output up to `out_pos`. -/
structure XzBuf where
  input : List UInt8
  inPos : Nat
  out : List UInt8
  outSize : Nat
deriving Repr, DecidableEq

/-- Both positions are inside their buffers. -/
structure XzBuf.Valid (b : XzBuf) : Prop where
  inside : b.inPos ≤ b.input.length
  fits : b.out.length ≤ b.outSize

/-- What decoding does to the buffers: it reads on and it writes on. -/
structure XzBuf.Advances (b b' : XzBuf) : Prop where
  input : b'.input = b.input
  outSize : b'.outSize = b.outSize
  inPos : b.inPos ≤ b'.inPos
  out : b.out <+: b'.out
  valid : b.Valid → b'.Valid

/-- The LZMA2 decoder: it advances both positions within their buffers. -/
structure Lzma2 (σ : Type) where
  init : σ
  reset : σ → UInt8 → XzCode × σ
  run : σ → XzBuf → XzCode × σ × XzBuf
  advances : ∀ (s : σ) (b : XzBuf), b.Advances (run s b).2.2

inductive XzSequence where
  | streamHeader
  | blockStart
  | blockHeader
  | blockUncompress
  | blockPadding
  | blockCheck
  | index
  | indexPadding
  | indexCrc32
  | streamFooter
deriving Repr, DecidableEq

inductive XzIndexSequence where
  | count
  | unpadded
  | uncompressed
deriving Repr, DecidableEq

/-- `struct xz_dec_hash`. -/
structure XzHash where
  unpadded : UInt64
  uncompressed : UInt64
  crc32 : UInt32
deriving Repr, DecidableEq

/-- The structure in memory, with its padding. -/
def XzHash.bytes (h : XzHash) : List UInt8 :=
  leBytes 8 h.unpadded.toNat ++ leBytes 8 h.uncompressed.toNat ++ leBytes 4 h.crc32.toNat
    ++ [0, 0, 0, 0]

structure XzBlockHeader where
  compressed : UInt64
  uncompressed : UInt64
  size : UInt32
deriving Repr, DecidableEq

structure XzBlock where
  compressed : UInt64
  uncompressed : UInt64
  count : UInt64
  hash : XzHash
deriving Repr, DecidableEq

structure XzIndex where
  sequence : XzIndexSequence
  size : UInt64
  count : UInt64
  hash : XzHash
deriving Repr, DecidableEq

/-- `temp`: `buf` is what was copied so far. -/
structure XzTemp where
  pos : Nat
  size : Nat
  buf : List UInt8
deriving Repr, DecidableEq

/-- `struct xz_dec`. -/
structure XzDec (σ : Type) where
  sequence : XzSequence
  pos : UInt32
  vli : UInt64
  inStart : Nat
  outStart : Nat
  crc32 : UInt32
  checkType : UInt8
  mode : XzMode
  allowBufError : Bool
  blockHeader : XzBlockHeader
  block : XzBlock
  index : XzIndex
  temp : XzTemp
  lzma2 : σ

def vliUnknown : UInt64 := 0xFFFFFFFFFFFFFFFF

def streamHeaderSize : Nat := 12

section Decoder

variable {σ : Type} (lzma2 : Lzma2 σ) (s : XzDec σ) (b : XzBuf)

/-- `xz_dec_reset`. -/
def XzDec.reset (s : XzDec σ) : XzDec σ :=
  { s with
    sequence := .streamHeader
    allowBufError := false
    pos := 0
    crc32 := 0
    block := ⟨0, 0, 0, ⟨0, 0, 0⟩⟩
    index := ⟨.count, 0, 0, ⟨0, 0, 0⟩⟩
    temp := ⟨0, streamHeaderSize, s.temp.buf⟩ }

/-- `xz_dec_init`, when both allocations succeed. -/
def xzDecInit (mode : XzMode) : XzDec σ :=
  XzDec.reset
    { sequence := .streamHeader, pos := 0, vli := 0, inStart := 0, outStart := 0, crc32 := 0
      checkType := 0, mode := mode, allowBufError := false, blockHeader := ⟨0, 0, 0⟩
      block := ⟨0, 0, 0, ⟨0, 0, 0⟩⟩, index := ⟨.count, 0, 0, ⟨0, 0, 0⟩⟩, temp := ⟨0, 0, []⟩
      lzma2 := lzma2.init }

/-! ## Parts of the stream -/

def fillTemp (s : XzDec σ) (b : XzBuf) : Bool × XzDec σ × XzBuf :=
  let copySize := min (b.input.length - b.inPos) (s.temp.size - s.temp.pos)
  let temp : XzTemp := { s.temp with
    pos := s.temp.pos + copySize
    buf := s.temp.buf.take s.temp.pos ++ slice b.input b.inPos copySize }
  let b := { b with inPos := b.inPos + copySize }
  if temp.pos = temp.size then (true, { s with temp := { temp with pos := 0 } }, b)
  else (false, { s with temp := temp }, b)

/-- The loop of `dec_vli`, over at most `n` bytes: the result, `in_pos`, `pos`
and `vli`. -/
def decVliFrom (input : List UInt8) : Nat → Nat → UInt32 → UInt64 → XzCode × Nat × UInt32 × UInt64
  | 0, inPos, pos, vli => (.ok, inPos, pos, vli)
  | n + 1, inPos, pos, vli =>
      let byte := input.getD inPos 0
      let vli := vli ||| ((byte &&& 0x7F).toUInt64 <<< pos.toUInt64)
      if byte &&& 0x80 = 0 then
        if byte = 0 ∧ pos ≠ 0 then (.dataError, inPos + 1, pos, vli)
        else (.streamEnd, inPos + 1, 0, vli)
      else
        let pos := pos + 7
        if pos = 7 * 9 then (.dataError, inPos + 1, pos, vli)
        else decVliFrom input n (inPos + 1) pos vli

def decVli (input : List UInt8) (inPos inSize : Nat) : XzCode × Nat × XzDec σ :=
  let (ret, inPos, pos, vli) :=
    decVliFrom input (inSize - inPos) inPos s.pos (if s.pos = 0 then 0 else s.vli)
  (ret, inPos, { s with pos := pos, vli := vli })

def decBlock : XzCode × XzDec σ × XzBuf :=
  let inStart := b.inPos
  let outStart := b.out.length
  let (ret, state, b) := lzma2.run s.lzma2 b
  let compressed := s.block.compressed + UInt64.ofNat (b.inPos - inStart)
  let uncompressed := s.block.uncompressed + UInt64.ofNat (b.out.length - outStart)
  let s := { s with
    inStart := inStart
    outStart := outStart
    lzma2 := state
    block := { s.block with compressed := compressed, uncompressed := uncompressed } }
  if compressed > s.blockHeader.compressed ∨ uncompressed > s.blockHeader.uncompressed then
    (.dataError, s, b)
  else
    let s := { s with
      crc32 := if s.checkType = 1 then xzCrc32 (b.out.drop outStart) s.crc32 else s.crc32 }
    if ret = .streamEnd then
      if s.blockHeader.compressed ≠ vliUnknown ∧ s.blockHeader.compressed ≠ compressed then
        (.dataError, s, b)
      else if s.blockHeader.uncompressed ≠ vliUnknown ∧ s.blockHeader.uncompressed ≠ uncompressed then
        (.dataError, s, b)
      else
        let unpadded := s.block.hash.unpadded + (s.blockHeader.size.toUInt64 + compressed)
          + (if s.checkType = 1 then 4 else 0)
        let hash : XzHash := ⟨unpadded, s.block.hash.uncompressed + uncompressed, s.block.hash.crc32⟩
        (ret, { s with
          block := { s.block with
            count := s.block.count + 1
            hash := { hash with crc32 := xzCrc32 hash.bytes hash.crc32 } } }, b)
    else (ret, s, b)

def indexUpdate : XzDec σ :=
  let inUsed := b.inPos - s.inStart
  { s with
    index := { s.index with size := s.index.size + UInt64.ofNat inUsed }
    crc32 := xzCrc32 (slice b.input s.inStart inUsed) s.crc32 }

/-- The loop of `dec_index`, over at most `n` integers. -/
def decIndexFrom : Nat → XzDec σ → XzBuf → XzCode × XzDec σ × XzBuf
  | 0, s, b => (.ok, s, b)
  | n + 1, s, b =>
      let (ret, inPos, s) := decVli s b.input b.inPos b.input.length
      let b := { b with inPos := inPos }
      if ret ≠ .streamEnd then (ret, indexUpdate s b, b)
      else
        match s.index.sequence with
        | .count =>
            let s := { s with index := { s.index with count := s.vli } }
            if s.index.count ≠ s.block.count then (.dataError, s, b)
            else
              let s := { s with index := { s.index with sequence := .unpadded } }
              if s.index.count > 0 then decIndexFrom n s b else (.streamEnd, s, b)
        | .unpadded =>
            let s := { s with
              index := { s.index with
                hash := { s.index.hash with unpadded := s.index.hash.unpadded + s.vli }
                sequence := .uncompressed } }
            if s.index.count > 0 then decIndexFrom n s b else (.streamEnd, s, b)
        | .uncompressed =>
            let hash : XzHash := { s.index.hash with uncompressed := s.index.hash.uncompressed + s.vli }
            let s := { s with
              index := { s.index with
                hash := { hash with crc32 := xzCrc32 hash.bytes hash.crc32 }
                count := s.index.count - 1
                sequence := .unpadded } }
            if s.index.count > 0 then decIndexFrom n s b else (.streamEnd, s, b)

/-- Every integer takes a byte, so one more round than there are bytes left
is never needed. -/
def decIndex : XzCode × XzDec σ × XzBuf := decIndexFrom (b.input.length - b.inPos + 1) s b

/-- The loop of `crc32_validate`, over at most `n` bytes. -/
def crc32ValidateFrom : Nat → XzDec σ → XzBuf → XzCode × XzDec σ × XzBuf
  | 0, s, b => (.streamEnd, { s with crc32 := 0, pos := 0 }, b)
  | n + 1, s, b =>
      if b.inPos = b.input.length then (.ok, s, b)
      else
        let byte := b.input.getD b.inPos 0
        let b := { b with inPos := b.inPos + 1 }
        if (s.crc32 >>> s.pos) &&& 0xFF ≠ byte.toUInt32 then (.dataError, s, b)
        else
          let s := { s with pos := s.pos + 8 }
          if s.pos < 32 then crc32ValidateFrom n s b
          else (.streamEnd, { s with crc32 := 0, pos := 0 }, b)

def crc32Validate : XzCode × XzDec σ × XzBuf := crc32ValidateFrom 4 s b

def decStreamHeader : XzCode × XzDec σ :=
  let buf := s.temp.buf
  if buf.take 6 ≠ xzMagic then (.formatError, s)
  else if xzCrc32 (slice buf 6 2) 0 ≠ UInt32.ofNat (leNat (slice buf 8 4)) then (.dataError, s)
  else if buf.getD 6 0 ≠ 0 then (.optionsError, s)
  else if buf.getD 7 0 > 15 then (.optionsError, s)
  else
    let s := { s with checkType := buf.getD 7 0 }
    if s.checkType > 1 then (.optionsError, s) else (.ok, s)

def decStreamFooter : XzCode :=
  let buf := s.temp.buf
  if slice buf 10 2 ≠ [0x59, 0x5A] then .dataError
  else if xzCrc32 (slice buf 4 6) 0 ≠ UInt32.ofNat (leNat (slice buf 0 4)) then .dataError
  else if s.index.size >>> 2 ≠ UInt64.ofNat (leNat (slice buf 4 4)) then .dataError
  else if buf.getD 8 0 ≠ 0 ∨ buf.getD 9 0 ≠ s.checkType then .dataError
  else .streamEnd

/-- A size of the block header, present or not. -/
def decBlockSize (present : Bool) : Option (UInt64 × XzDec σ) :=
  if present then
    let (ret, pos, s) := decVli s s.temp.buf s.temp.pos s.temp.size
    let s := { s with temp := { s.temp with pos := pos } }
    if ret ≠ .streamEnd then none else some (s.vli, s)
  else some (vliUnknown, s)

/-- The filter flags and the header padding. -/
def decFilterFlags : XzCode × XzDec σ :=
  let buf := s.temp.buf
  let pos := s.temp.pos
  let size := s.temp.size
  if size - pos < 2 then (.dataError, s)
  else if buf.getD pos 0 ≠ 0x21 then (.optionsError, s)
  else if buf.getD (pos + 1) 0 ≠ 0x01 then (.optionsError, s)
  else if size - (pos + 2) < 1 then (.dataError, s)
  else
    let (ret, state) := lzma2.reset s.lzma2 (buf.getD (pos + 2) 0)
    let s := { s with lzma2 := state }
    if ret ≠ .ok then (ret, s)
    else if (slice buf (pos + 3) (size - (pos + 3))).any (· ≠ 0) then (.optionsError, s)
    else
      (.ok, { s with
        temp := { s.temp with pos := 0 }
        block := { s.block with compressed := 0, uncompressed := 0 } })

def decBlockHeader : XzCode × XzDec σ :=
  let size := s.temp.size - 4
  let s := { s with temp := { s.temp with size := size } }
  let buf := s.temp.buf
  if xzCrc32 (buf.take size) 0 ≠ UInt32.ofNat (leNat (slice buf size 4)) then (.dataError, s)
  else
    let s := { s with temp := { s.temp with pos := 2 } }
    if buf.getD 1 0 &&& 0x3F ≠ 0 then (.optionsError, s)
    else
      match decBlockSize s (buf.getD 1 0 &&& 0x40 ≠ 0) with
      | none => (.dataError, s)
      | some (compressed, s) =>
          let s := { s with blockHeader := { s.blockHeader with compressed := compressed } }
          match decBlockSize s (buf.getD 1 0 &&& 0x80 ≠ 0) with
          | none => (.dataError, s)
          | some (uncompressed, s) =>
              decFilterFlags lzma2
                { s with blockHeader := { s.blockHeader with uncompressed := uncompressed } }

/-- `SEQ_BLOCK_PADDING`, over at most `n` bytes. -/
def blockPaddingFrom : Nat → XzDec σ → XzBuf → Option XzCode × XzDec σ × XzBuf
  | 0, s, b => (none, s, b)
  | n + 1, s, b =>
      if s.block.compressed &&& 3 = 0 then (none, s, b)
      else if b.inPos = b.input.length then (some .ok, s, b)
      else
        let byte := b.input.getD b.inPos 0
        let b := { b with inPos := b.inPos + 1 }
        if byte ≠ 0 then (some .dataError, s, b)
        else blockPaddingFrom n
          { s with block := { s.block with compressed := s.block.compressed + 1 } } b

/-- `SEQ_INDEX_PADDING`, over at most `n` bytes. -/
def indexPaddingFrom : Nat → XzDec σ → XzBuf → Option XzCode × XzDec σ × XzBuf
  | 0, s, b => (none, s, b)
  | n + 1, s, b =>
      if (s.index.size + UInt64.ofNat (b.inPos - s.inStart)) &&& 3 = 0 then (none, s, b)
      else if b.inPos = b.input.length then (some .ok, indexUpdate s b, b)
      else
        let byte := b.input.getD b.inPos 0
        let b := { b with inPos := b.inPos + 1 }
        if byte ≠ 0 then (some .dataError, s, b) else indexPaddingFrom n s b

/-! ## The machine -/

abbrev XzFlow (σ : Type) := Flow (XzDec σ × XzBuf) (XzCode × XzDec σ × XzBuf)

/-- What a part of the stream returns, when it is not the code to go on with. -/
def XzFlow.goOn (go ret : XzCode) (s : XzDec σ) (b : XzBuf) (next : XzSequence) : XzFlow σ :=
  if ret = go then .next ({ s with sequence := next }, b) else .exit (ret, s, b)

/-- One case of `dec_main`; falling through is going on with the next one. -/
def decMainRound (c : XzDec σ × XzBuf) : XzFlow σ :=
  let (s, b) := c
  match s.sequence with
  | .streamHeader =>
      match fillTemp s b with
      | (false, s, b) => .exit (.ok, s, b)
      | (true, s, b) =>
          let (ret, s) := decStreamHeader { s with sequence := .blockStart }
          .goOn .ok ret s b .blockStart
  | .blockStart =>
      if b.inPos = b.input.length then .exit (.ok, s, b)
      else
        let byte := b.input.getD b.inPos 0
        if byte = 0 then
          .next ({ s with inStart := b.inPos, sequence := .index }, { b with inPos := b.inPos + 1 })
        else
          let size := (byte.toUInt32 + 1) * 4
          .next ({ s with
            blockHeader := { s.blockHeader with size := size }
            temp := { s.temp with pos := 0, size := size.toNat }
            sequence := .blockHeader }, b)
  | .blockHeader =>
      match fillTemp s b with
      | (false, s, b) => .exit (.ok, s, b)
      | (true, s, b) =>
          let (ret, s) := decBlockHeader lzma2 s
          .goOn .ok ret s b .blockUncompress
  | .blockUncompress =>
      let (ret, s, b) := decBlock lzma2 s b
      .goOn .streamEnd ret s b .blockPadding
  | .blockPadding =>
      match blockPaddingFrom 4 s b with
      | (some ret, s, b) => .exit (ret, s, b)
      | (none, s, b) => .next ({ s with sequence := .blockCheck }, b)
  | .blockCheck =>
      if s.checkType = 1 then
        let (ret, s, b) := crc32Validate s b
        .goOn .streamEnd ret s b .blockStart
      else .next ({ s with sequence := .blockStart }, b)
  | .index =>
      let (ret, s, b) := decIndex s b
      .goOn .streamEnd ret s b .indexPadding
  | .indexPadding =>
      match indexPaddingFrom 4 s b with
      | (some ret, s, b) => .exit (ret, s, b)
      | (none, s, b) =>
          let s := indexUpdate s b
          if s.block.hash ≠ s.index.hash then .exit (.dataError, s, b)
          else .next ({ s with sequence := .indexCrc32 }, b)
  | .indexCrc32 =>
      let (ret, s, b) := crc32Validate s b
      if ret = .streamEnd then
        .next ({ s with
          temp := { s.temp with size := streamHeaderSize }
          sequence := .streamFooter }, b)
      else .exit (ret, s, b)
  | .streamFooter =>
      match fillTemp s b with
      | (false, s, b) => .exit (.ok, s, b)
      | (true, s, b) => .exit (decStreamFooter s, s, b)

/-- Ten cases to a byte are enough: between two of them that take none the
sequence only goes down. -/
def decMainFuel (b : XzBuf) : Nat := 10 * (b.input.length - b.inPos) + 10

def decMain : Run (XzCode × XzDec σ × XzBuf) :=
  loopFuel (fun c => .ok (decMainRound lzma2 c)) (decMainFuel b) ({ s with inStart := b.inPos }, b)

/-- The mode is set once, when the decoder is made. -/
def xzDecRun : Run (XzCode × XzDec σ × XzBuf) := do
  let mode := s.mode
  let s := match mode with
    | .single => s.reset
    | .prealloc => s
  let inStart := b.inPos
  let outStart := b.out.length
  let (ret, s, b) ← decMain lzma2 s b
  match mode with
  | .single =>
      let ret := if ret = .ok then (if b.inPos = b.input.length then .dataError else .bufError) else ret
      if ret ≠ .streamEnd then .ok (ret, s, { b with inPos := inStart, out := b.out.take outStart })
      else .ok (ret, s, b)
  | .prealloc =>
      if ret = .ok ∧ inStart = b.inPos ∧ outStart = b.out.length then
        .ok (if s.allowBufError then .bufError else ret, { s with allowBufError := true }, b)
      else .ok (ret, { s with allowBufError := false }, b)

end Decoder

/-! ## Both positions advance -/

namespace XzBuf

variable {b b' b'' : XzBuf}

theorem Advances.refl (b : XzBuf) : b.Advances b :=
  ⟨rfl, rfl, Nat.le_refl _, List.prefix_refl _, id⟩

theorem Advances.trans (h : b.Advances b') (h' : b'.Advances b'') : b.Advances b'' where
  input := h'.input.trans h.input
  outSize := h'.outSize.trans h.outSize
  inPos := Nat.le_trans h.inPos h'.inPos
  out := h.out.trans h'.out
  valid hv := h'.valid (h.valid hv)

/-- Reading on takes input and leaves the output as it is. -/
theorem advances_inPos (b : XzBuf) {pos : Nat} (hle : b.inPos ≤ pos)
    (hin : b.inPos ≤ b.input.length → pos ≤ b.input.length) :
    b.Advances { b with inPos := pos } :=
  ⟨rfl, rfl, hle, List.prefix_refl _, fun hv => ⟨hin hv.inside, hv.fits⟩⟩

theorem advances_byte (hne : b.inPos ≠ b.input.length) :
    b.Advances { b with inPos := b.inPos + 1 } :=
  b.advances_inPos (Nat.le_succ _) fun hle => by omega

end XzBuf

section Advances

variable {σ : Type} (lzma2 : Lzma2 σ)

/-- A fill takes what is missing, or all there is. -/
theorem fillTemp_advances (s : XzDec σ) (b : XzBuf) : b.Advances (fillTemp s b).2.2 := by
  have hcopy : b.Advances
      { b with inPos := b.inPos + min (b.input.length - b.inPos) (s.temp.size - s.temp.pos) } :=
    b.advances_inPos (Nat.le_add_right _ _) fun hle => by omega
  rw [fillTemp]
  split
  · exact hcopy
  · exact hcopy

/-- A fill from the start that completes took all the bytes asked for. -/
theorem fillTemp_full {s s' : XzDec σ} {b b' : XzBuf} (hpos : s.temp.pos = 0)
    (h : fillTemp s b = (true, s', b')) : b'.inPos = b.inPos + s.temp.size := by
  rw [fillTemp] at h
  split at h
  · rename_i hfull
    simp only [hpos] at h hfull
    simp only [Prod.mk.injEq, true_and] at h
    rw [← h.2]
    simp only
    omega
  · cases h

theorem decVliFrom_bounds (input : List UInt8) (n : Nat) :
    ∀ (inPos : Nat) (pos : UInt32) (vli : UInt64),
      inPos ≤ (decVliFrom input n inPos pos vli).2.1
        ∧ (decVliFrom input n inPos pos vli).2.1 ≤ inPos + n := by
  induction n with
  | zero =>
      intro inPos pos vli
      exact ⟨Nat.le_refl _, Nat.le_refl _⟩
  | succ n ih =>
      intro inPos pos vli
      have hone : inPos + 1 ≤ inPos + (n + 1) := by omega
      rw [decVliFrom]
      simp only
      split
      · split
        · exact ⟨Nat.le_succ _, hone⟩
        · exact ⟨Nat.le_succ _, hone⟩
      · split
        · exact ⟨Nat.le_succ _, hone⟩
        · have hrest := ih (inPos + 1) (pos + 7)
            (vli ||| ((input.getD inPos 0 &&& 0x7F).toUInt64 <<< pos.toUInt64))
          exact ⟨by omega, by omega⟩

theorem decVli_advances (s : XzDec σ) (b : XzBuf) :
    b.Advances { b with inPos := (decVli s b.input b.inPos b.input.length).2.1 } := by
  have hbounds := decVliFrom_bounds b.input (b.input.length - b.inPos) b.inPos s.pos
    (if s.pos = 0 then 0 else s.vli)
  refine b.advances_inPos hbounds.1 fun hle => ?_
  have hupper := hbounds.2
  rw [Nat.add_sub_cancel' hle] at hupper
  exact hupper

theorem decIndexFrom_advances (n : Nat) :
    ∀ (s : XzDec σ) (b : XzBuf), b.Advances (decIndexFrom n s b).2.2 := by
  induction n with
  | zero => exact fun s b => .refl b
  | succ n ih =>
      intro s b
      have hvli := decVli_advances s b
      rw [decIndexFrom]
      simp only
      split
      · exact hvli
      · split
        · split
          · exact hvli
          · split
            · exact hvli.trans (ih _ _)
            · exact hvli
        · split
          · exact hvli.trans (ih _ _)
          · exact hvli
        · split
          · exact hvli.trans (ih _ _)
          · exact hvli

theorem crc32ValidateFrom_advances (n : Nat) :
    ∀ (s : XzDec σ) (b : XzBuf), b.Advances (crc32ValidateFrom n s b).2.2 := by
  induction n with
  | zero => exact fun s b => .refl b
  | succ n ih =>
      intro s b
      rw [crc32ValidateFrom]
      by_cases hend : b.inPos = b.input.length
      · rw [if_pos hend]
        exact .refl b
      · have hbyte := XzBuf.advances_byte hend
        rw [if_neg hend]
        simp only
        split
        · exact hbyte
        · split
          · exact hbyte.trans (ih _ _)
          · exact hbyte

theorem blockPaddingFrom_advances (n : Nat) :
    ∀ (s : XzDec σ) (b : XzBuf), b.Advances (blockPaddingFrom n s b).2.2 := by
  induction n with
  | zero => exact fun s b => .refl b
  | succ n ih =>
      intro s b
      rw [blockPaddingFrom]
      split
      · exact .refl b
      · split
        · exact .refl b
        · rename_i hend
          have hbyte := XzBuf.advances_byte hend
          simp only
          split
          · exact hbyte
          · exact hbyte.trans (ih _ _)

theorem indexPaddingFrom_advances (n : Nat) :
    ∀ (s : XzDec σ) (b : XzBuf), b.Advances (indexPaddingFrom n s b).2.2 := by
  induction n with
  | zero => exact fun s b => .refl b
  | succ n ih =>
      intro s b
      rw [indexPaddingFrom]
      split
      · exact .refl b
      · split
        · exact .refl b
        · rename_i hend
          have hbyte := XzBuf.advances_byte hend
          simp only
          split
          · exact hbyte
          · exact hbyte.trans (ih _ _)

theorem decBlock_advances (s : XzDec σ) (b : XzBuf) : b.Advances (decBlock lzma2 s b).2.2 := by
  have hrun := lzma2.advances s.lzma2 b
  rw [decBlock]
  simp only
  split
  · exact hrun
  · split
    · split
      · exact hrun
      · split
        · exact hrun
        · exact hrun
    · exact hrun

/-! ## The machine ends -/

/-- Between two cases that take input the sequence goes down. -/
def XzSequence.rank : XzSequence → Nat
  | .streamHeader => 9
  | .blockUncompress => 8
  | .blockPadding => 7
  | .blockCheck => 6
  | .blockStart => 5
  | .blockHeader => 4
  | .index => 3
  | .indexPadding => 2
  | .indexCrc32 => 1
  | .streamFooter => 0

def decMainMeasure (c : XzDec σ × XzBuf) : Nat :=
  10 * (c.2.input.length - c.2.inPos) + c.1.sequence.rank

/-- A block header is read from its start, and is not empty. -/
def HeaderAhead (s : XzDec σ) : Prop :=
  s.sequence = .blockHeader → s.temp.pos = 0 ∧ 0 < s.temp.size

theorem XzSequence.rank_lt {b b' : XzBuf} (hadv : b.Advances b') {q q' : XzSequence}
    (hrank : q'.rank < q.rank) :
    10 * (b'.input.length - b'.inPos) + q'.rank < 10 * (b.input.length - b.inPos) + q.rank := by
  have hpos := hadv.inPos
  rw [hadv.input]
  omega

theorem XzSequence.rank_le (q : XzSequence) : q.rank ≤ 9 := by
  cases q <;> decide

/-- What a case leaves behind. -/
def RoundPost (s : XzDec σ) (b : XzBuf) : XzFlow σ → Prop :=
  Flow.Post (fun c => b.Advances c.2 ∧ c.2.Valid ∧ HeaderAhead c.1
      ∧ decMainMeasure c < decMainMeasure (s, b))
    fun r => b.Advances r.2.2

/-- A case that goes on to a sequence further down. -/
theorem roundPost_down {s s' : XzDec σ} {b b' : XzBuf} (hv : b.Valid) (hadv : b.Advances b')
    {p : XzSequence} (q : XzSequence) (hp : s.sequence = p) (hq : s'.sequence = q)
    (hrank : q.rank < p.rank) (hnot : q ≠ .blockHeader) : RoundPost s b (.next (s', b')) := by
  subst hp hq
  exact ⟨hadv, hadv.valid hv, fun h => absurd h hnot, XzSequence.rank_lt hadv hrank⟩

theorem roundPost_goOn {s s' : XzDec σ} {b b' : XzBuf} (hv : b.Valid) (hadv : b.Advances b')
    {go ret : XzCode} {p : XzSequence} (q : XzSequence) (hp : s.sequence = p)
    (hrank : q.rank < p.rank) (hnot : q ≠ .blockHeader) :
    RoundPost s b (.goOn go ret s' b' q) := by
  rw [XzFlow.goOn]
  split
  · exact roundPost_down hv hadv q hp rfl hrank hnot
  · exact hadv

/-- The first byte of a block says how long its header is. -/
theorem blockStart_post {s : XzDec σ} {b : XzBuf} (hv : b.Valid)
    (hseq : s.sequence = .blockStart) : RoundPost s b (decMainRound lzma2 (s, b)) := by
  rw [decMainRound, hseq]
  simp only
  by_cases hend : b.inPos = b.input.length
  · rw [if_pos hend]
    exact .refl b
  · rw [if_neg hend]
    split
    · exact roundPost_down hv (XzBuf.advances_byte hend) .index hseq rfl (by decide) (by decide)
    · rename_i hbyte
      refine ⟨.refl b, hv, fun _ => ⟨rfl, ?_⟩, XzSequence.rank_lt (.refl b) ?_⟩
      · have hlt := (b.input.getD b.inPos 0).toNat_lt
        simp only [UInt32.toNat_mul, UInt32.toNat_add, UInt8.toNat_toUInt32,
          show (1 : UInt32).toNat = 1 from rfl, show (4 : UInt32).toNat = 4 from rfl]
        omega
      · rw [hseq]
        exact Nat.lt_succ_self 4

/-- A block header that is all there has taken input, so the sequence can go
up again. -/
theorem blockHeader_post {s : XzDec σ} {b : XzBuf} (hv : b.Valid) (hahead : HeaderAhead s)
    (hseq : s.sequence = .blockHeader) : RoundPost s b (decMainRound lzma2 (s, b)) := by
  have hfill := fillTemp_advances s b
  obtain ⟨hpos, hsize⟩ := hahead hseq
  rw [decMainRound, hseq]
  simp only
  split
  · rename_i s' b' heq
    rw [heq] at hfill
    exact hfill
  · rename_i s' b' heq
    rw [heq] at hfill
    have htook := fillTemp_full hpos heq
    rw [XzFlow.goOn]
    split
    · refine ⟨hfill, hfill.valid hv, fun h => (by cases h), ?_⟩
      have hinside := (hfill.valid hv).inside
      have hrank := XzSequence.rank_le .blockUncompress
      simp only [decMainMeasure]
      simp only at hinside hfill
      rw [hfill.input] at hinside ⊢
      omega
    · exact hfill

/-- Only the header of a block takes input for sure; every other case goes
down. -/
theorem decMainRound_post {s : XzDec σ} {b : XzBuf} (hv : b.Valid) (hahead : HeaderAhead s) :
    RoundPost s b (decMainRound lzma2 (s, b)) := by
  rw [decMainRound]
  cases hseq : s.sequence with
  | streamHeader =>
      have hfill := fillTemp_advances s b
      simp only
      split
      · rename_i s' b' heq
        rw [heq] at hfill
        exact hfill
      · rename_i s' b' heq
        rw [heq] at hfill
        exact roundPost_goOn hv hfill .blockStart hseq (by decide) (by decide)
  | blockStart =>
      have hpost := blockStart_post lzma2 hv hseq
      rwa [decMainRound, hseq] at hpost
  | blockHeader =>
      have hpost := blockHeader_post lzma2 hv hahead hseq
      rwa [decMainRound, hseq] at hpost
  | blockUncompress =>
      exact roundPost_goOn hv (decBlock_advances lzma2 s b) .blockPadding hseq (by decide) (by decide)
  | blockPadding =>
      have hpad := blockPaddingFrom_advances 4 s b
      simp only
      split
      · rename_i ret s' b' heq
        rw [heq] at hpad
        exact hpad
      · rename_i s' b' heq
        rw [heq] at hpad
        exact roundPost_down hv hpad .blockCheck hseq rfl (by decide) (by decide)
  | blockCheck =>
      simp only
      split
      · exact roundPost_goOn hv (crc32ValidateFrom_advances 4 s b) .blockStart hseq (by decide)
          (by decide)
      · exact roundPost_down hv (.refl b) .blockStart hseq rfl (by decide) (by decide)
  | index =>
      have hindex : b.Advances (decIndex s b).2.2 := decIndexFrom_advances _ s b
      exact roundPost_goOn hv hindex .indexPadding hseq (by decide) (by decide)
  | indexPadding =>
      have hpad := indexPaddingFrom_advances 4 s b
      simp only
      split
      · rename_i ret s' b' heq
        rw [heq] at hpad
        exact hpad
      · rename_i s' b' heq
        rw [heq] at hpad
        split
        · exact hpad
        · exact roundPost_down hv hpad .indexCrc32 hseq rfl (by decide) (by decide)
  | indexCrc32 =>
      have hcrc : b.Advances (crc32Validate s b).2.2 := crc32ValidateFrom_advances 4 s b
      simp only
      split
      · exact roundPost_down hv hcrc .streamFooter hseq rfl (by decide) (by decide)
      · exact hcrc
  | streamFooter =>
      have hfill := fillTemp_advances s b
      simp only
      split
      · rename_i s' b' heq
        rw [heq] at hfill
        exact hfill
      · rename_i s' b' heq
        rw [heq] at hfill
        exact hfill

/-- Decoding ends for every input, with both positions inside their buffers. -/
theorem decMain_total {s : XzDec σ} {b : XzBuf} (hv : b.Valid) (hahead : HeaderAhead s) :
    ∃ ret s' b', decMain lzma2 s b = .ok (ret, s', b') ∧ b.Advances b' := by
  have hrank := XzSequence.rank_le s.sequence
  -- every round that goes on moves a position or the state forward
  have hround : ∀ c : XzDec σ × XzBuf, (b.Advances c.2 ∧ c.2.Valid ∧ HeaderAhead c.1) →
      ∃ f, (.ok (decMainRound lzma2 c) : Run _) = .ok f
        ∧ f.Post (fun c' => (b.Advances c'.2 ∧ c'.2.Valid ∧ HeaderAhead c'.1)
            ∧ decMainMeasure c' < decMainMeasure c) (fun r => b.Advances r.2.2) := by
    rintro c ⟨hb, hvalid, hhead⟩
    refine ⟨_, rfl, (decMainRound_post lzma2 hvalid hhead).imp ?_ ?_⟩
    · rintro c' ⟨hadv, hvalid', hhead', hlt⟩
      exact ⟨⟨hb.trans hadv, hvalid', hhead'⟩, hlt⟩
    · exact fun r hr => hb.trans hr
  obtain ⟨⟨ret, s', b'⟩, hrun, hadv⟩ := loopFuel_total hround
    (k := decMainFuel b) (s := ({ s with inStart := b.inPos }, b)) ⟨.refl b, hv, hahead⟩
    (by rw [decMainMeasure, decMainFuel]; simp only; omega)
  exact ⟨ret, s', b', hrun, hadv⟩

/-! ## The wrapper -/

theorem headerAhead_reset (s : XzDec σ) : HeaderAhead s.reset := fun h => by cases h

/-- A single call that decodes the stream keeps what it did. -/
theorem xzDecRun_ends {s s' : XzDec σ} {b b' : XzBuf} (hmode : s.mode = .single)
    (hrun : decMain lzma2 s.reset b = .ok (.streamEnd, s', b')) :
    xzDecRun lzma2 s b = .ok (.streamEnd, s', b') := by
  rw [xzDecRun, hmode]
  simp only [hrun, ok_bind]
  rfl

/-- Any other single call takes both positions back. -/
theorem xzDecRun_fails {s s' : XzDec σ} {b b' : XzBuf} {ret : XzCode} (hmode : s.mode = .single)
    (hrun : decMain lzma2 s.reset b = .ok (ret, s', b')) (hadv : b.Advances b')
    (hret : ret ≠ .streamEnd) :
    ∃ ret', ret' ≠ .streamEnd ∧ xzDecRun lzma2 s b = .ok (ret', s', b) := by
  have hback : { b' with inPos := b.inPos, out := b'.out.take b.out.length } = b := by
    have htake := List.prefix_iff_eq_take.mp hadv.out
    have hinput := hadv.input
    have houtSize := hadv.outSize
    cases b
    simp only at hinput houtSize htake ⊢
    rw [hinput, houtSize, ← htake]
  have hsingle : (if ret = .ok then (if b'.inPos = b'.input.length then .dataError
      else .bufError) else ret : XzCode) ≠ .streamEnd := by
    split
    · split
      · exact fun h => by cases h
      · exact fun h => by cases h
    · exact hret
  refine ⟨_, hsingle, ?_⟩
  rw [xzDecRun, hmode]
  simp only [hrun, ok_bind, hback]
  rw [if_pos hsingle]

/-- A multi-call decoder leaves its output as it is. -/
theorem xzDecRun_prealloc {s s' : XzDec σ} {b b' : XzBuf} {ret : XzCode}
    (hmode : s.mode = .prealloc) (hrun : decMain lzma2 s b = .ok (ret, s', b')) :
    ∃ ret' s'', xzDecRun lzma2 s b = .ok (ret', s'', b') := by
  rw [xzDecRun, hmode]
  simp only [hrun, ok_bind]
  split
  · exact ⟨_, _, rfl⟩
  · exact ⟨_, _, rfl⟩

end Advances

end Ccr2004
