import Mathlib.Logic.Relation
import Ccr2004.Lzma2Encode
import Ccr2004.XzLzma2
import Ccr2004.XzParts

/-!
# Whole XZ streams

`xzWrite` puts the blocks of a stream between its header and its footer, and
`xz_dec_run` takes them apart again. The rounds of `dec_main` are followed with
any LZMA2 decoder that takes the data of the blocks (`xzWrite_decMain`); the
decoder of the source does when the data is coded (`xzDecRun_decodes`), and
every text has a stream of stored chunks (`xzDecRun_text`).
-/

namespace Ccr2004

/-! ## Headers and the footer -/

section Headers

variable {σ : Type} {lzma2 : Lzma2 σ} {s : XzDec σ} {b : XzBuf} {rest : List UInt8}

/-- Bytes with their checksum. -/
def withCrc32 (bytes : List UInt8) : List UInt8 := bytes ++ leBytes 4 (xzCrc32 bytes 0).toNat

theorem crc32_leNat (crc : UInt32) : UInt32.ofNat (leNat (leBytes 4 crc.toNat)) = crc := by
  rw [leNat_leBytes_of_lt crc.toNat_lt, UInt32.ofNat_toNat]

/-- The byte of the stream flags for the check. -/
def xzCheck (crc : Bool) : UInt8 := if crc then 1 else 0

def xzStreamHeader (crc : Bool) : List UInt8 := xzMagic ++ withCrc32 [0x00, xzCheck crc]

theorem decStreamHeader_ahead {crc : Bool} (h : s.temp.buf = xzStreamHeader crc) :
    decStreamHeader s = (.ok, { s with checkType := xzCheck crc }) := by
  have hmagic : s.temp.buf.take 6 = xzMagic := by rw [h]; rfl
  have hflags : slice s.temp.buf 6 2 = [0x00, xzCheck crc] := by rw [h]; rfl
  have hcrc : slice s.temp.buf 8 4 = leBytes 4 (xzCrc32 [0x00, xzCheck crc] 0).toNat := by
    rw [h]
    rfl
  have hzero : s.temp.buf.getD 6 0 = 0 := by rw [h]; rfl
  have hcheck : s.temp.buf.getD 7 0 = xzCheck crc := by rw [h]; rfl
  have hle : ¬ xzCheck crc > 1 := by cases crc <;> decide
  have hsmall : ¬ xzCheck crc > 15 := by cases crc <;> decide
  simp only [decStreamHeader]
  rw [if_neg (not_not.mpr hmagic), hflags, hcrc, crc32_leNat, if_neg (not_not.mpr rfl),
    if_neg (not_not.mpr hzero), hcheck, if_neg hsmall, if_neg hle]

/-- A block header of twelve bytes, without the sizes. -/
def xzBlockHeader (props : UInt8) : List UInt8 :=
  withCrc32 [0x02, 0x00, 0x21, 0x01, props, 0x00, 0x00, 0x00]

theorem decBlockSize_absent (s : XzDec σ) : decBlockSize s false = some (vliUnknown, s) := rfl

theorem decFilterFlags_ahead {props : UInt8} {st : σ} (hpos : s.temp.pos = 2)
    (hsize : s.temp.size = 8) (h : s.temp.buf = xzBlockHeader props)
    (hreset : lzma2.reset s.lzma2 props = (.ok, st)) :
    decFilterFlags lzma2 s = (.ok, { s with
      lzma2 := st
      temp := ⟨0, 8, xzBlockHeader props⟩
      block := ⟨0, 0, s.block.count, s.block.hash⟩ }) := by
  have hfilter : (xzBlockHeader props).getD 2 0 = 0x21 := rfl
  have hlength : (xzBlockHeader props).getD (2 + 1) 0 = 0x01 := rfl
  have hdict : (xzBlockHeader props).getD (2 + 2) 0 = props := rfl
  have hpadding : slice (xzBlockHeader props) (2 + 3) (8 - (2 + 3)) = [0x00, 0x00, 0x00] := rfl
  simp only [decFilterFlags, hpos, hsize, h, hfilter, hlength, hdict, hreset, hpadding]
  rw [if_neg (by decide), if_neg (not_not.mpr rfl), if_neg (not_not.mpr rfl),
    if_neg (by decide), if_neg (not_not.mpr rfl), if_neg (by decide)]

theorem decBlockHeader_ahead {props : UInt8} {st : σ} (hsize : s.temp.size = 12)
    (h : s.temp.buf = xzBlockHeader props) (hreset : lzma2.reset s.lzma2 props = (.ok, st)) :
    decBlockHeader lzma2 s = (.ok, { s with
      lzma2 := st
      temp := ⟨0, 8, xzBlockHeader props⟩
      blockHeader := ⟨vliUnknown, vliUnknown, s.blockHeader.size⟩
      block := ⟨0, 0, s.block.count, s.block.hash⟩ }) := by
  have hbody : (xzBlockHeader props).take 8
      = [0x02, 0x00, 0x21, 0x01, props, 0x00, 0x00, 0x00] := rfl
  have hcrc : slice (xzBlockHeader props) 8 4
      = leBytes 4 (xzCrc32 [0x02, 0x00, 0x21, 0x01, props, 0x00, 0x00, 0x00] 0).toNat := rfl
  have hflags : (xzBlockHeader props).getD 1 0 = 0 := rfl
  simp only [decBlockHeader, hsize, h]
  rw [show 12 - 4 = 8 from rfl, hbody, hcrc, crc32_leNat, if_neg (not_not.mpr rfl), hflags,
    if_neg (by decide), show decide ((0 : UInt8) &&& 0x40 ≠ 0) = false by decide,
    show decide ((0 : UInt8) &&& 0x80 ≠ 0) = false by decide, decBlockSize_absent]
  simp only [decBlockSize_absent]
  exact decFilterFlags_ahead rfl rfl rfl hreset

/-- What the index says of a block. -/
def xzRecord (crc : Bool) (data text : List UInt8) : XzRecord :=
  ⟨12 + data.length + (if crc then 4 else 0), text.length⟩

theorem decBlock_ahead {crc : Bool} {data text : List UInt8} {st : σ}
    (hcheck : s.checkType = xzCheck crc) (hblock : s.block.compressed = 0)
    (huncompressed : s.block.uncompressed = 0)
    (hheader : s.blockHeader = ⟨vliUnknown, vliUnknown, 12⟩)
    (hrun : lzma2.run s.lzma2 b = (.streamEnd, st, b.moved data.length text)) :
    decBlock lzma2 s b = (.streamEnd, { s with
        inStart := b.inPos
        outStart := b.out.length
        lzma2 := st
        crc32 := if crc then xzCrc32 text s.crc32 else s.crc32
        block := ⟨UInt64.ofNat data.length, UInt64.ofNat text.length, s.block.count + 1,
          s.block.hash.add (xzRecord crc data text)⟩ }, b.moved data.length text) := by
  have hin : (b.moved data.length text).inPos - b.inPos = data.length := Nat.add_sub_cancel_left _ _
  have hout : (b.moved data.length text).out.length - b.out.length = text.length := by
    rw [XzBuf.moved, List.length_append]
    exact Nat.add_sub_cancel_left _ _
  have hdrop : (b.moved data.length text).out.drop b.out.length = text := List.drop_left
  have hmax : ∀ x : UInt64, ¬ x > vliUnknown := fun x hlt =>
    absurd (UInt64.lt_iff_toNat_lt.mp hlt) (Nat.not_lt.mpr (Nat.le_of_lt_succ x.toNat_lt))
  have hunpadded : s.block.hash.unpadded + ((12 : UInt32).toUInt64 + UInt64.ofNat data.length)
      + (if crc = true then 4 else 0)
      = s.block.hash.unpadded + UInt64.ofNat (12 + data.length + (if crc then 4 else 0)) := by
    rw [UInt64.ofNat_add, UInt64.ofNat_add, UInt64.add_assoc]
    cases crc <;> rfl
  have htype : (s.checkType = 1) = (crc = true) := by
    rw [hcheck]
    cases crc <;> decide
  simp only [decBlock, hrun]
  rw [hin, hout, hdrop, hblock, huncompressed, hheader, UInt64.zero_add, UInt64.zero_add]
  simp only [htype]
  rw [if_neg (not_or.mpr ⟨hmax _, hmax _⟩), if_pos trivial, if_neg fun h => h.1 rfl,
    if_neg fun h => h.1 rfl, hunpadded]
  rfl

/-- The footer, for an index of `size` bytes without its checksum. -/
def xzFooter (crc : Bool) (size : Nat) : List UInt8 :=
  let flags := leBytes 4 (size / 4) ++ [0x00, xzCheck crc]
  leBytes 4 (xzCrc32 flags 0).toNat ++ (flags ++ [0x59, 0x5A])

theorem decStreamFooter_ahead {crc : Bool} {size : Nat} (h : s.temp.buf = xzFooter crc size)
    (hcheck : s.checkType = xzCheck crc) (hsize : s.index.size = UInt64.ofNat size)
    (hfits : size / 4 < 2 ^ 32) : decStreamFooter s = .streamEnd := by
  have hmagic : slice s.temp.buf 10 2 = [0x59, 0x5A] := by rw [h]; rfl
  have hflags : slice s.temp.buf 4 6 = leBytes 4 (size / 4) ++ [0x00, xzCheck crc] := by rw [h]; rfl
  have hcrc : slice s.temp.buf 0 4
      = leBytes 4 (xzCrc32 (leBytes 4 (size / 4) ++ [0x00, xzCheck crc]) 0).toNat := by
    rw [h]
    rfl
  have hback : slice s.temp.buf 4 4 = leBytes 4 (size / 4) := by rw [h]; rfl
  have hzero : s.temp.buf.getD 8 0 = 0 := by rw [h]; rfl
  have hlast : s.temp.buf.getD 9 0 = s.checkType := by rw [h, hcheck]; rfl
  have hshift : UInt64.ofNat size >>> 2 = UInt64.ofNat (size / 4) := by
    apply UInt64.toNat_inj.mp
    rw [UInt64.toNat_shiftRight, toNat_ofNat_of_lt (by omega), toNat_ofNat_of_lt (by omega)]
    exact Nat.shiftRight_eq_div_pow size 2
  simp only [decStreamFooter]
  rw [if_neg (not_not.mpr hmagic), hflags, hcrc, crc32_leNat, if_neg (not_not.mpr rfl), hback, hsize,
    leNat_leBytes_of_lt (show size / 4 < 256 ^ 4 by omega), if_neg (not_not.mpr hshift),
    if_neg (not_or.mpr ⟨not_not.mpr hzero, not_not.mpr hlast⟩)]

end Headers

/-! ## Blocks -/

/-- A block: the compressed data and the text it is for. -/
structure XzBlockData where
  props : UInt8
  data : List UInt8
  text : List UInt8
deriving Repr, DecidableEq

/-- The bytes of the check. -/
def xzCheckBytes (crc : Bool) (text : List UInt8) : List UInt8 :=
  if crc then leBytes 4 (xzCrc32 text 0).toNat else []

def XzBlockData.bytes (crc : Bool) (x : XzBlockData) : List UInt8 :=
  xzBlockHeader x.props ++ (x.data ++ (xzPadding x.data.length ++ xzCheckBytes crc x.text))

def XzBlockData.record (crc : Bool) (x : XzBlockData) : XzRecord := xzRecord crc x.data x.text

/-- From a state in order, the LZMA2 decoder takes the data of a block for its
text, and is in order again. -/
def Lzma2.Decodes {σ : Type} (lzma2 : Lzma2 σ) (good : σ → Prop) (x : XzBlockData) : Prop :=
  ∀ st, good st → ∃ st', lzma2.reset st x.props = (.ok, st') ∧
    ∀ b : XzBuf, b.Valid → x.data <+: b.input.drop b.inPos →
      b.out.length + x.text.length ≤ b.outSize →
      ∃ st'', lzma2.run st' b = (.streamEnd, st'', b.moved x.data.length x.text) ∧ good st''

section Rounds

variable {σ : Type} (lzma2 : Lzma2 σ) {s : XzDec σ} {b : XzBuf} {rest : List UInt8} {crc : Bool}
  {records : List XzRecord} {sum : UInt32}

/-- Where the blocks of `records` are decoded and the index is not reached;
`sum` is the checksum of the block so far. -/
structure XzDec.Amid (s : XzDec σ) (crc : Bool) (records : List XzRecord) (sum : UInt32) :
    Prop where
  pos : s.pos = 0
  crc32 : s.crc32 = sum
  check : s.checkType = xzCheck crc
  temp : s.temp.pos = 0
  count : s.block.count = UInt64.ofNat records.length
  hash : s.block.hash = records.foldl XzHash.add ⟨0, 0, 0⟩
  index : s.index = ⟨.count, 0, 0, ⟨0, 0, 0⟩⟩

/-- `SEQ_BLOCK_START`, where a block follows. -/
theorem blockStart_round (hs : s.Amid crc records 0) (hq : s.sequence = .blockStart)
    (h : b.input.drop b.inPos = 0x02 :: rest) :
    ∃ s', decMainRound lzma2 (s, b) = .next (s', b) ∧ s'.Amid crc records 0
      ∧ s'.sequence = .blockHeader ∧ s'.temp.size = 12 ∧ s'.blockHeader.size = 12
      ∧ s'.lzma2 = s.lzma2 := by
  obtain ⟨hne, hget⟩ := XzBuf.byte_ahead h
  refine ⟨{ s with
      blockHeader := { s.blockHeader with size := 12 }
      temp := { s.temp with pos := 0, size := 12 }
      sequence := .blockHeader }, ?_, ⟨hs.pos, hs.crc32, hs.check, rfl, hs.count, hs.hash, hs.index⟩,
    rfl, rfl, rfl, rfl⟩
  simp only [decMainRound, hq, hget]
  rw [if_neg hne, if_neg (by decide)]
  rfl

theorem blockHeader_round {props : UInt8} {st : σ} (hs : s.Amid crc records 0)
    (hq : s.sequence = .blockHeader) (hsize : s.temp.size = 12) (hhead : s.blockHeader.size = 12)
    (hreset : lzma2.reset s.lzma2 props = (.ok, st))
    (h : b.input.drop b.inPos = xzBlockHeader props ++ rest) :
    ∃ s', decMainRound lzma2 (s, b) = .next (s', b.moved (xzBlockHeader props).length [])
      ∧ s'.Amid crc records 0 ∧ s'.sequence = .blockUncompress ∧ s'.lzma2 = st
      ∧ s'.blockHeader = ⟨vliUnknown, vliUnknown, 12⟩ ∧ s'.block.compressed = 0
      ∧ s'.block.uncompressed = 0 := by
  have hfill := fillTemp_ahead hs.temp (show s.temp.size = (xzBlockHeader props).length from hsize) h
  have hdec := @decBlockHeader_ahead σ lzma2
    { s with temp := ⟨0, (xzBlockHeader props).length, xzBlockHeader props⟩ } props st rfl rfl hreset
  refine ⟨{ s with
      lzma2 := st
      temp := ⟨0, 8, xzBlockHeader props⟩
      blockHeader := ⟨vliUnknown, vliUnknown, s.blockHeader.size⟩
      block := ⟨0, 0, s.block.count, s.block.hash⟩
      sequence := .blockUncompress }, ?_,
    ⟨hs.pos, hs.crc32, hs.check, rfl, hs.count, hs.hash, hs.index⟩, rfl, rfl,
    by rw [hhead], rfl, rfl⟩
  simp only [decMainRound, hq]
  rw [hfill]
  simp only
  rw [hdec]
  exact if_pos rfl

theorem blockUncompress_round {data text : List UInt8} {st : σ} (hs : s.Amid crc records 0)
    (hq : s.sequence = .blockUncompress) (hhead : s.blockHeader = ⟨vliUnknown, vliUnknown, 12⟩)
    (hcompressed : s.block.compressed = 0) (huncompressed : s.block.uncompressed = 0)
    (hrun : lzma2.run s.lzma2 b = (.streamEnd, st, b.moved data.length text)) :
    ∃ s', decMainRound lzma2 (s, b) = .next (s', b.moved data.length text)
      ∧ s'.Amid crc (records ++ [xzRecord crc data text]) (if crc then xzCrc32 text 0 else 0)
      ∧ s'.sequence = .blockPadding ∧ s'.lzma2 = st
      ∧ s'.block.compressed = UInt64.ofNat data.length := by
  have hblock := decBlock_ahead hs.check hcompressed huncompressed hhead hrun
  refine ⟨{ s with
      inStart := b.inPos
      outStart := b.out.length
      lzma2 := st
      crc32 := if crc then xzCrc32 text s.crc32 else s.crc32
      block := ⟨UInt64.ofNat data.length, UInt64.ofNat text.length, s.block.count + 1,
        s.block.hash.add (xzRecord crc data text)⟩
      sequence := .blockPadding }, ?_,
    ⟨hs.pos, by rw [hs.crc32], hs.check, hs.temp, ?_, ?_, hs.index⟩, rfl, rfl, rfl⟩
  · simp only [decMainRound, hq]
    rw [hblock]
    exact if_pos rfl
  · rw [hs.count, List.length_append, UInt64.ofNat_add]
    rfl
  · rw [List.foldl_concat, hs.hash]

theorem blockPadding_round {size : Nat} (hs : s.Amid crc records sum)
    (hq : s.sequence = .blockPadding) (hsize : s.block.compressed = UInt64.ofNat size)
    (h : b.input.drop b.inPos = xzPadding size ++ rest) :
    ∃ s', decMainRound lzma2 (s, b) = .next (s', b.moved (xzPadding size).length [])
      ∧ s'.Amid crc records sum ∧ s'.sequence = .blockCheck ∧ s'.lzma2 = s.lzma2 := by
  have haligned := xzPadding_aligned size
  rw [xzPadding, List.length_replicate] at haligned ⊢
  obtain ⟨c, hpad⟩ := blockPaddingFrom_ahead 4 s b size _ hsize haligned (by omega) (by omega) h
  refine ⟨{ s with
      block := { s.block with compressed := c }
      sequence := .blockCheck }, ?_,
    ⟨hs.pos, hs.crc32, hs.check, hs.temp, hs.count, hs.hash, hs.index⟩, rfl, rfl⟩
  simp only [decMainRound, hq]
  rw [hpad]

theorem blockCheck_round {text : List UInt8}
    (hs : s.Amid crc records (if crc then xzCrc32 text 0 else 0)) (hq : s.sequence = .blockCheck)
    (h : b.input.drop b.inPos = xzCheckBytes crc text ++ rest) :
    ∃ s', decMainRound lzma2 (s, b) = .next (s', b.moved (xzCheckBytes crc text).length [])
      ∧ s'.Amid crc records 0 ∧ s'.sequence = .blockStart ∧ s'.lzma2 = s.lzma2 := by
  cases crc with
  | false =>
      have hcheck : ¬ s.checkType = 1 := by rw [hs.check]; decide
      refine ⟨{ s with sequence := .blockStart }, ?_,
        ⟨hs.pos, hs.crc32, hs.check, hs.temp, hs.count, hs.hash, hs.index⟩, rfl, rfl⟩
      simp only [decMainRound, hq]
      rw [if_neg hcheck, xzCheckBytes, if_neg (by decide), List.length_nil, XzBuf.moved_zero]
  | true =>
      have hcheck : s.checkType = 1 := by rw [hs.check]; rfl
      have hsum : s.crc32 = xzCrc32 text 0 := hs.crc32
      rw [xzCheckBytes, if_pos rfl, ← hsum] at h ⊢
      refine ⟨{ s with crc32 := 0, pos := 0, sequence := .blockStart }, ?_,
        ⟨rfl, rfl, hs.check, hs.temp, hs.count, hs.hash, hs.index⟩, rfl, rfl⟩
      simp only [decMainRound, hq]
      rw [if_pos hcheck, crc32Validate_ahead hs.pos h, length_leBytes]
      exact if_pos rfl

theorem XzBuf.Valid.moved {part text : List UInt8} (hb : b.Valid)
    (h : b.input.drop b.inPos = part ++ rest) (hroom : b.out.length + text.length ≤ b.outSize) :
    (b.moved part.length text).Valid := by
  have hlen := XzBuf.length_ahead h
  have hin := hb.inside
  refine ⟨?_, ?_⟩
  · simp only [XzBuf.moved]
    omega
  · rw [XzBuf.moved, List.length_append]
    exact hroom

/-- Rounds of `dec_main`. -/
abbrev XzRounds : XzDec σ × XzBuf → XzDec σ × XzBuf → Prop :=
  Relation.ReflTransGen fun c c' => decMainRound lzma2 c = .next c'

/-- The rounds of one block. -/
theorem XzBlockData.decodes {good : σ → Prop} {x : XzBlockData} (hs : s.Amid crc records 0)
    (hq : s.sequence = .blockStart) (hgood : good s.lzma2) (hdecodes : lzma2.Decodes good x)
    (hb : b.Valid) (hroom : b.out.length + x.text.length ≤ b.outSize)
    (h : b.input.drop b.inPos = x.bytes crc ++ rest) :
    ∃ s', XzRounds lzma2 (s, b) (s', b.moved (x.bytes crc).length x.text)
      ∧ s'.Amid crc (records ++ [x.record crc]) 0 ∧ s'.sequence = .blockStart ∧ good s'.lzma2 := by
  -- the header sets the decoder up, and the next round runs it
  obtain ⟨st, hreset, hrun⟩ := hdecodes s.lzma2 hgood
  rw [XzBlockData.bytes, List.append_assoc, List.append_assoc, List.append_assoc] at h
  obtain ⟨s1, hr1, hs1, hq1, hsize1, hhead1, hl1⟩ := blockStart_round lzma2 hs hq h
  rw [← hl1] at hreset
  obtain ⟨s2, hr2, hs2, hq2, hl2, hhead2, hc2, hu2⟩ :=
    blockHeader_round lzma2 hs1 hq1 hsize1 hhead1 hreset h
  have h2 := XzBuf.drop_moved [] h
  have hb2 : (b.moved (xzBlockHeader x.props).length []).Valid := hb.moved h hb.fits
  have hroom2 : (b.moved (xzBlockHeader x.props).length []).out.length + x.text.length
      ≤ (b.moved (xzBlockHeader x.props).length []).outSize := by
    rw [XzBuf.moved, List.append_nil]
    exact hroom
  obtain ⟨st', hrun', hgood'⟩ := hrun _ hb2 (h2 ▸ List.prefix_append _ _) hroom2
  rw [← hl2] at hrun'
  obtain ⟨s3, hr3, hs3, hq3, hl3, hc3⟩ := blockUncompress_round lzma2 hs2 hq2 hhead2 hc2 hu2 hrun'
  have h3 := XzBuf.drop_moved x.text h2
  obtain ⟨s4, hr4, hs4, hq4, hl4⟩ := blockPadding_round lzma2 hs3 hq3 hc3 h3
  have h4 := XzBuf.drop_moved [] h3
  obtain ⟨s5, hr5, hs5, hq5, hl5⟩ := blockCheck_round lzma2 hs4 hq4 h4
  have hmoved : ((((b.moved (xzBlockHeader x.props).length []).moved x.data.length x.text).moved
      (xzPadding x.data.length).length []).moved (xzCheckBytes crc x.text).length [])
      = b.moved (x.bytes crc).length x.text := by
    simp only [XzBuf.moved_moved, XzBlockData.bytes, List.length_append, List.append_nil,
      List.nil_append, Nat.add_assoc]
  rw [hmoved] at hr5
  exact ⟨s5, .head hr1 (.head hr2 (.head hr3 (.head hr4 (.single hr5)))), hs5, hq5,
    by rw [hl5, hl4, hl3]; exact hgood'⟩

/-- The rounds of all blocks. -/
theorem xzBlocks_decode {good : σ → Prop} {blocks : List XzBlockData} :
    ∀ {s : XzDec σ} {b : XzBuf} {records : List XzRecord}, s.Amid crc records 0 →
    s.sequence = .blockStart → good s.lzma2 → (∀ x ∈ blocks, lzma2.Decodes good x) → b.Valid →
    b.out.length + (blocks.flatMap XzBlockData.text).length ≤ b.outSize →
    b.input.drop b.inPos = blocks.flatMap (XzBlockData.bytes crc) ++ rest →
    ∃ s', XzRounds lzma2 (s, b) (s', b.moved (blocks.flatMap (XzBlockData.bytes crc)).length
        (blocks.flatMap XzBlockData.text))
      ∧ s'.Amid crc (records ++ blocks.map (XzBlockData.record crc)) 0
      ∧ s'.sequence = .blockStart ∧ good s'.lzma2 := by
  induction blocks with
  | nil =>
      intro s b records hs hq hgood _ _ _ _
      rw [List.flatMap_nil, List.length_nil, List.flatMap_nil, XzBuf.moved_zero, List.map_nil,
        List.append_nil]
      exact ⟨s, .refl, hs, hq, hgood⟩
  | cons x blocks ih =>
      intro s b records hs hq hgood hdecodes hb hroom h
      rw [List.flatMap_cons, List.append_assoc] at h
      rw [List.flatMap_cons, List.length_append] at hroom
      obtain ⟨s1, hsteps1, hs1, hq1, hgood1⟩ := XzBlockData.decodes lzma2 hs hq hgood
        (hdecodes x List.mem_cons_self) hb (by omega) h
      have hroom1 : (b.moved (x.bytes crc).length x.text).out.length
          + (blocks.flatMap XzBlockData.text).length ≤ b.outSize := by
        rw [XzBuf.moved, List.length_append]
        omega
      obtain ⟨s2, hsteps2, hs2, hq2, hgood2⟩ := ih hs1 hq1 hgood1
        (fun y hy => hdecodes y (List.mem_cons_of_mem _ hy)) (hb.moved h (by omega)) hroom1
        (XzBuf.drop_moved x.text h)
      rw [XzBuf.moved_moved, ← List.length_append] at hsteps2
      rw [List.append_assoc] at hs2
      exact ⟨s2, hsteps1.trans hsteps2, hs2, hq2, hgood2⟩

/-! ## The index -/

/-- The index indicator and the integers. -/
def xzIndexBody (records : List XzRecord) : List UInt8 :=
  0x00 :: (vliBytes records.length ++ records.flatMap XzRecord.bytes)

/-- The index without its checksum. -/
def xzIndex (records : List XzRecord) : List UInt8 :=
  xzIndexBody records ++ xzPadding (xzIndexBody records).length

/-- Behind the blocks; the index begins at `inStart`, and what was read of it agrees. -/
structure XzDec.Indexed (s : XzDec σ) (crc : Bool) (inStart : Nat) : Prop where
  pos : s.pos = 0
  crc32 : s.crc32 = 0
  check : s.checkType = xzCheck crc
  temp : s.temp.pos = 0
  inStart : s.inStart = inStart
  size : s.index.size = 0
  agrees : s.block.hash = s.index.hash

theorem index_rounds (hs : s.Amid crc records 0) (hq : s.sequence = .blockStart)
    (hlen : records.length < 2 ^ 63) (hfits : ∀ r ∈ records, r.Fits)
    (h : b.input.drop b.inPos = xzIndexBody records ++ rest) :
    ∃ s', XzRounds lzma2 (s, b) (s', b.moved (xzIndexBody records).length [])
      ∧ s'.Indexed crc b.inPos ∧ s'.sequence = .indexPadding := by
  obtain ⟨hne, hget⟩ := XzBuf.byte_ahead (x := 0x00) h
  have hstart : decMainRound lzma2 (s, b)
      = .next ({ s with inStart := b.inPos, sequence := .index }, b.moved 1 []) := by
    simp only [decMainRound, hq, hget]
    rw [if_neg hne, if_pos trivial, XzBuf.skip_eq]
  have h1 : (b.moved 1 []).input.drop (b.moved 1 []).inPos
      = vliBytes records.length ++ (records.flatMap XzRecord.bytes ++ rest) := by
    rw [← List.append_assoc]
    exact @XzBuf.drop_moved b [0x00] _ [] h
  obtain ⟨vli, hindex⟩ := decIndex_ahead (s := { s with inStart := b.inPos, sequence := .index })
    hs.index hs.pos hs.count hlen hfits h1
  have hread : decMainRound lzma2 ({ s with inStart := b.inPos, sequence := .index }, b.moved 1 [])
      = .next ({ s with
          inStart := b.inPos
          vli := vli
          index := ⟨.unpadded, 0, 0, records.foldl XzHash.add ⟨0, 0, 0⟩⟩
          sequence := .indexPadding }, b.moved (xzIndexBody records).length []) := by
    simp only [decMainRound]
    rw [hindex, XzBuf.moved_moved, xzIndexBody, List.length_cons, Nat.add_comm 1]
    exact if_pos rfl
  exact ⟨_, .head hstart (.single hread),
    ⟨hs.pos, hs.crc32, hs.check, hs.temp, rfl, rfl, hs.hash⟩, rfl⟩

theorem indexPadding_round {index : List UInt8} {inStart size : Nat} (hs : s.Indexed crc inStart)
    (hq : s.sequence = .indexPadding) (hpos : b.inPos = inStart + size)
    (h : b.input.drop b.inPos = xzPadding size ++ rest)
    (hindex : slice b.input inStart (size + (xzPadding size).length) = index) :
    ∃ s', decMainRound lzma2 (s, b) = .next (s', b.moved (xzPadding size).length [])
      ∧ s'.sequence = .indexCrc32 ∧ s'.pos = 0 ∧ s'.crc32 = xzCrc32 index 0
      ∧ s'.checkType = xzCheck crc ∧ s'.temp.pos = 0
      ∧ s'.index.size = UInt64.ofNat (size + (xzPadding size).length) := by
  have haligned := xzPadding_aligned size
  have hpad := indexPaddingFrom_ahead hs.size 4 b (xzPadding size).length
    (by rw [hs.inStart, hpos]; exact Nat.le_add_right _ _)
    (by rw [hs.inStart, hpos, Nat.add_sub_cancel_left]; exact haligned)
    (by rw [xzPadding, List.length_replicate]; omega)
    (by rw [xzPadding, List.length_replicate]; omega)
    (by rw [h, xzPadding, List.length_replicate])
  have hused : (b.moved (xzPadding size).length []).inPos - s.inStart
      = size + (xzPadding size).length := by
    rw [hs.inStart]
    simp only [XzBuf.moved]
    omega
  have hslice : slice (b.moved (xzPadding size).length []).input s.inStart
      (size + (xzPadding size).length) = index := by
    rw [hs.inStart]
    exact hindex
  refine ⟨{ indexUpdate s (b.moved (xzPadding size).length []) with sequence := .indexCrc32 }, ?_,
    rfl, hs.pos, ?_, hs.check, hs.temp, ?_⟩
  · simp only [decMainRound, hq]
    rw [hpad]
    exact if_neg (not_not.mpr hs.agrees)
  · simp only [indexUpdate]
    rw [hused, hslice, hs.crc32]
  · simp only [indexUpdate]
    rw [hused, hs.size, UInt64.zero_add]

/-- The rounds from the checksum of the index to the end. -/
theorem footer_rounds {index : List UInt8} (hq : s.sequence = .indexCrc32) (hpos : s.pos = 0)
    (hcrc : s.crc32 = xzCrc32 index 0) (hcheck : s.checkType = xzCheck crc) (htemp : s.temp.pos = 0)
    (hsize : s.index.size = UInt64.ofNat index.length) (hfits : index.length / 4 < 2 ^ 32)
    (h : b.input.drop b.inPos
      = leBytes 4 (xzCrc32 index 0).toNat ++ (xzFooter crc index.length ++ rest)) :
    ∃ c s', XzRounds lzma2 (s, b) c
      ∧ decMainRound lzma2 c = .exit (.streamEnd, s', b.moved (4 + 12) []) := by
  rw [← hcrc] at h
  have hvalidate := crc32Validate_ahead hpos h
  have hround : decMainRound lzma2 (s, b) = .next ({ s with
      crc32 := 0
      pos := 0
      temp := { s.temp with size := streamHeaderSize }
      sequence := .streamFooter }, b.moved 4 []) := by
    simp only [decMainRound, hq]
    rw [hvalidate]
    exact if_pos rfl
  have h1 : (b.moved 4 []).input.drop (b.moved 4 []).inPos = xzFooter crc index.length ++ rest := by
    have hdrop := XzBuf.drop_moved [] h
    rwa [length_leBytes] at hdrop
  have hfill := fillTemp_ahead (s := { s with
      crc32 := 0
      pos := 0
      temp := { s.temp with size := streamHeaderSize }
      sequence := .streamFooter }) htemp
    (show streamHeaderSize = (xzFooter crc index.length).length from rfl) h1
  refine ⟨_, { s with
      crc32 := 0
      pos := 0
      temp := ⟨0, (xzFooter crc index.length).length, xzFooter crc index.length⟩
      sequence := .streamFooter }, .single hround, ?_⟩
  simp only [decMainRound]
  rw [hfill]
  simp only
  rw [decStreamFooter_ahead (s := { s with
      crc32 := 0
      pos := 0
      temp := ⟨0, (xzFooter crc index.length).length, xzFooter crc index.length⟩
      sequence := .streamFooter }) rfl hcheck hsize hfits, XzBuf.moved_moved]
  rfl

/-- The rounds from the index to the end. -/
theorem xzIndex_decodes (hs : s.Amid crc records 0) (hq : s.sequence = .blockStart)
    (hlen : records.length < 2 ^ 63) (hfits : ∀ r ∈ records, r.Fits)
    (hsize : (xzIndex records).length / 4 < 2 ^ 32)
    (h : b.input.drop b.inPos
      = withCrc32 (xzIndex records) ++ (xzFooter crc (xzIndex records).length ++ rest)) :
    ∃ c s', XzRounds lzma2 (s, b) c ∧ decMainRound lzma2 c = .exit (.streamEnd, s',
      b.moved (withCrc32 (xzIndex records) ++ xzFooter crc (xzIndex records).length).length []) := by
  have hlength : (xzIndex records).length = (xzIndexBody records).length
      + (xzPadding (xzIndexBody records).length).length := List.length_append
  have hslice : slice b.input b.inPos ((xzIndexBody records).length
      + (xzPadding (xzIndexBody records).length).length) = xzIndex records := by
    rw [slice, h, ← hlength, withCrc32, List.append_assoc, List.take_left]
  rw [withCrc32, List.append_assoc] at h
  have hbody : b.input.drop b.inPos = xzIndexBody records ++ (xzPadding (xzIndexBody records).length
      ++ (leBytes 4 (xzCrc32 (xzIndex records) 0).toNat
        ++ (xzFooter crc (xzIndex records).length ++ rest))) := by
    rw [h]
    exact List.append_assoc ..
  obtain ⟨s1, hsteps1, hs1, hq1⟩ := index_rounds lzma2 hs hq hlen hfits hbody
  have h1 := XzBuf.drop_moved [] hbody
  obtain ⟨s2, hr2, hq2, hpos2, hcrc2, hcheck2, htemp2, hsize2⟩ :=
    indexPadding_round lzma2 hs1 hq1 rfl h1 hslice
  have h2 := XzBuf.drop_moved [] h1
  rw [← hlength] at hsize2
  obtain ⟨c, s3, hsteps3, hexit⟩ :=
    footer_rounds lzma2 hq2 hpos2 hcrc2 hcheck2 htemp2 hsize2 hsize h2
  refine ⟨c, s3, (hsteps1.tail hr2).trans hsteps3, ?_⟩
  rw [hexit, XzBuf.moved_moved, XzBuf.moved_moved]
  -- the checksum and the footer are sixteen bytes
  have hall : (xzIndexBody records).length + (xzPadding (xzIndexBody records).length).length + (4 + 12)
      = (withCrc32 (xzIndex records) ++ xzFooter crc (xzIndex records).length).length := by
    rw [List.length_append, withCrc32, List.length_append, length_leBytes, hlength,
      show (xzFooter crc _).length = 12 from rfl, Nat.add_assoc _ 4 12]
  rw [← hall]
  rfl

end Rounds

/-! ## The stream -/

/-- A stream: the header, the blocks, the index and the footer. -/
def xzWrite (crc : Bool) (blocks : List XzBlockData) : List UInt8 :=
  let index := xzIndex (blocks.map (XzBlockData.record crc))
  xzStreamHeader crc ++ (blocks.flatMap (XzBlockData.bytes crc)
    ++ (withCrc32 index ++ xzFooter crc index.length))

/-- The sizes can be written in the index and in the footer. -/
structure XzFits (crc : Bool) (blocks : List XzBlockData) : Prop where
  count : blocks.length < 2 ^ 63
  records : ∀ x ∈ blocks, (x.record crc).Fits
  index : (xzIndex (blocks.map (XzBlockData.record crc))).length / 4 < 2 ^ 32

section Stream

variable {σ : Type} (lzma2 : Lzma2 σ) (s : XzDec σ) {b : XzBuf} {rest : List UInt8} {crc : Bool}

theorem decMainRound_streamHeader {s s' s'' : XzDec σ} {b' : XzBuf} (hq : s.sequence = .streamHeader)
    (hfill : fillTemp s b = (true, s', b'))
    (hdec : decStreamHeader { s' with sequence := .blockStart } = (.ok, s'')) :
    decMainRound lzma2 (s, b) = .next ({ s'' with sequence := .blockStart }, b') := by
  simp only [decMainRound, hq]
  rw [hfill]
  simp only
  rw [hdec]
  exact if_pos rfl

theorem streamHeader_round (h : b.input.drop b.inPos = xzStreamHeader crc ++ rest) :
    ∃ s', decMainRound lzma2 ({ s.reset with inStart := b.inPos }, b)
        = .next (s', b.moved (xzStreamHeader crc).length [])
      ∧ s'.Amid crc [] 0 ∧ s'.sequence = .blockStart ∧ s'.lzma2 = s.lzma2 := by
  have hfill := fillTemp_ahead (s := { s.reset with inStart := b.inPos }) rfl
    (show streamHeaderSize = (xzStreamHeader crc).length from rfl) h
  have hdec := @decStreamHeader_ahead σ { s.reset with
    inStart := b.inPos
    temp := ⟨0, (xzStreamHeader crc).length, xzStreamHeader crc⟩
    sequence := .blockStart } crc rfl
  exact ⟨_, decMainRound_streamHeader lzma2 rfl hfill hdec, ⟨rfl, rfl, rfl, rfl, rfl, rfl, rfl⟩, rfl, rfl⟩

/-- Where the rounds lead, `dec_main` ends. -/
theorem decMain_of_rounds {c : XzDec σ × XzBuf} {r : XzCode × XzDec σ × XzBuf} (hv : b.Valid)
    (hahead : HeaderAhead s) (hrounds : XzRounds lzma2 ({ s with inStart := b.inPos }, b) c)
    (hexit : decMainRound lzma2 c = .exit r) : decMain lzma2 s b = .ok r := by
  -- `decMain_total` has the fuel, so all that is left is which result it is
  have hend : ∀ {c0 : XzDec σ × XzBuf} {k : Nat} {t : XzCode × XzDec σ × XzBuf},
      XzRounds lzma2 c0 c → loopFuel (fun c => .ok (decMainRound lzma2 c)) k c0 = .ok t → t = r := by
    intro c0 k t hsteps
    induction hsteps using Relation.ReflTransGen.head_induction_on generalizing k with
    | refl =>
        intro hrun
        cases k with
        | zero => cases hrun
        | succ k =>
            rw [loopFuel_exit (congrArg _ hexit)] at hrun
            exact (Except.ok.inj hrun).symm
    | head hstep _ ih =>
        intro hrun
        cases k with
        | zero => cases hrun
        | succ k =>
            rw [loopFuel_next (congrArg _ hstep)] at hrun
            exact ih hrun
  obtain ⟨ret, s', b', hrun, -⟩ := decMain_total lzma2 hv hahead
  rw [hrun, hend hrounds hrun]

/-- With an LZMA2 decoder that takes the data of the blocks, `dec_main` takes the
whole stream for the texts of the blocks. -/
theorem xzWrite_decMain {good : σ → Prop} {blocks : List XzBlockData} (hgood : good s.lzma2)
    (hdecodes : ∀ x ∈ blocks, lzma2.Decodes good x) (hfits : XzFits crc blocks) (hb : b.Valid)
    (hroom : b.out.length + (blocks.flatMap XzBlockData.text).length ≤ b.outSize)
    (hinput : xzWrite crc blocks <+: b.input.drop b.inPos) :
    ∃ s', decMain lzma2 s.reset b = .ok (.streamEnd, s',
      b.moved (xzWrite crc blocks).length (blocks.flatMap XzBlockData.text)) := by
  obtain ⟨rest, hrest⟩ := hinput
  have h : b.input.drop b.inPos = xzStreamHeader crc ++ (blocks.flatMap (XzBlockData.bytes crc)
      ++ (withCrc32 (xzIndex (blocks.map (XzBlockData.record crc)))
        ++ (xzFooter crc (xzIndex (blocks.map (XzBlockData.record crc))).length ++ rest))) := by
    rw [← hrest, xzWrite]
    simp only [List.append_assoc]
  obtain ⟨s1, hr1, hs1, hq1, hl1⟩ := streamHeader_round lzma2 s h
  have h1 := XzBuf.drop_moved [] h
  have hb1 : (b.moved (xzStreamHeader crc).length []).Valid := hb.moved h hb.fits
  obtain ⟨s2, hsteps2, hs2, hq2, -⟩ := xzBlocks_decode lzma2 hs1 hq1 (hl1 ▸ hgood) hdecodes hb1
    (by rw [XzBuf.moved, List.append_nil]; exact hroom) h1
  have h2 := XzBuf.drop_moved (blocks.flatMap XzBlockData.text) h1
  rw [List.nil_append] at hs2
  obtain ⟨c, s3, hsteps3, hexit⟩ := xzIndex_decodes lzma2 hs2 hq2
    (by rw [List.length_map]; exact hfits.count)
    (fun r hr => by
      obtain ⟨x, hx, rfl⟩ := List.mem_map.mp hr
      exact hfits.records x hx) hfits.index h2
  refine ⟨s3, ?_⟩
  have hall := decMain_of_rounds lzma2 s.reset hb (headerAhead_reset s)
    (.head hr1 (hsteps2.trans hsteps3)) hexit
  rw [hall, XzBuf.moved_moved, XzBuf.moved_moved, xzWrite]
  simp only [List.length_append, List.append_nil, List.nil_append]

end Stream

/-! ## With the LZMA2 decoder -/

/-- The size of the dictionary, from its byte in the block header. -/
def lzma2DictSize (props : UInt8) : Nat := (2 + (props &&& 1).toNat) <<< (props.toNat / 2 + 11)

/-- The data of a block is the LZMA2 stream of its text. -/
structure XzBlockData.Coded (x : XzBlockData) : Prop where
  props : x.props ≤ 39
  data : Lzma2Coded (lzma2DictSize x.props) .first x.data x.text

/-- A decoder between two blocks, in single-call mode. Nothing of the block before
matters, since the header of the next one resets it. -/
def SingleReady (st : Run XzDecLzma2) : Prop :=
  ∃ d, st = .ok d ∧ d.temp.buf.length = 3 * lzmaInRequired ∧ d.lzma.dict.mode = .single

theorem lzma2Reset_single {d : XzDecLzma2} {props : UInt8} (hmode : d.lzma.dict.mode = .single)
    (hprops : props ≤ 39) :
    ∃ d', xzDecLzma2Reset d props = (.ok, d') ∧ d'.lzma.dict.size = lzma2DictSize props
      ∧ d'.lzma.dict.mode = .single ∧ d'.temp.buf = d.temp.buf := by
  have hle : ¬ props > 39 := UInt8.not_lt.mpr hprops
  have hsingle : ∀ p : Prop, ¬ (d.lzma.dict.mode = .prealloc ∧ p) := fun p h => by
    rw [hmode] at h
    cases h.1
  simp only [xzDecLzma2Reset]
  rw [if_neg hle, if_neg (hsingle _)]
  exact ⟨_, rfl, rfl, hmode, rfl⟩

theorem XzBlockData.Coded.decodes {x : XzBlockData} (hx : x.Coded) (dictMax : Nat) :
    (xzLzma2 .single dictMax).Decodes SingleReady x := by
  rintro _ ⟨d, rfl, hbuf, hmode⟩
  obtain ⟨d', hreset, hsize, hmode', hbuf'⟩ := lzma2Reset_single hmode hx.props
  refine ⟨.ok d', ?_, fun b hb hinput hroom => ?_⟩
  · show ((xzDecLzma2Reset d x.props).1, (.ok (xzDecLzma2Reset d x.props).2 : Run XzDecLzma2)) = _
    rw [hreset]
  · have hok := lzma2Reset_ok hbuf hreset b
    obtain ⟨d'', hrun⟩ := lzma2Single_decodes hbuf hreset (hsize ▸ hx.data) hb hinput hroom
    obtain ⟨ret, s'', b', hrun', hbase, hadv, -⟩ := lzma2Run_total hok hb
    cases hrun.symm.trans hrun'
    refine ⟨.ok d'', ?_, d'', rfl, ?_, hbase.mode.trans hmode'⟩
    · show lzma2Step (.ok d') b = _
      rw [lzma2Step, lzma2Call]
      simp only [ok_bind, hrun, if_pos hadv]
    · exact hbase.tempBuf.trans (hbuf'.symm ▸ hbuf)

section Call

variable {s : XzDec (Run XzDecLzma2)} {b : XzBuf} {dictMax : Nat} {live crc : Bool}
  {blocks : List XzBlockData}

theorem XzDec.Has.decodes {d : XzDecLzma2} (hd : s.Has .single d) (dictMax : Nat)
    (hblocks : ∀ x ∈ blocks, x.Coded) (hfits : XzFits crc blocks) (hb : b.Valid)
    (hinput : xzWrite crc blocks <+: b.input.drop b.inPos)
    (hroom : b.out.length + (blocks.flatMap XzBlockData.text).length ≤ b.outSize) :
    ∃ s', xzDecRun (xzLzma2 .single dictMax) s b = .ok (.streamEnd, s',
      b.moved (xzWrite crc blocks).length (blocks.flatMap XzBlockData.text)) := by
  obtain ⟨s', hrun⟩ := xzWrite_decMain (xzLzma2 .single dictMax) s
    ⟨d, hd.decoder, hd.tempBuf, hd.dictMode⟩ (fun x hx => (hblocks x hx).decodes dictMax) hfits hb
    hroom hinput
  exact ⟨s', xzDecRun_ends _ hd.sameMode hrun⟩

/-- A call in single-call mode, after any calls before it, takes a whole stream
for the texts of its blocks, and reads no byte behind it. -/
theorem xzDecRun_decodes (hreach : XzReach .single dictMax live s)
    (hblocks : ∀ x ∈ blocks, x.Coded) (hfits : XzFits crc blocks) (hb : b.Valid)
    (hinput : xzWrite crc blocks <+: b.input.drop b.inPos)
    (hroom : b.out.length + (blocks.flatMap XzBlockData.text).length ≤ b.outSize) :
    ∃ s', xzDecRun (xzLzma2 .single dictMax) s b = .ok (.streamEnd, s',
      b.moved (xzWrite crc blocks).length (blocks.flatMap XzBlockData.text)) := by
  obtain ⟨d, hd⟩ := hreach.sound.1
  exact hd.decodes dictMax hblocks hfits hb hinput hroom

theorem xzDecRun_decodes_stored : ∃ s', xzDecRun (xzLzma2 .single 0)
    (xzDecInit (xzLzma2 .single 0) .single)
    ⟨xzWrite true [⟨0, [0x01, 0x00, 0x00, 0x61, 0x00], [0x61]⟩], 0, [], 1⟩ = .ok (.streamEnd, s',
      ⟨xzWrite true [⟨0, [0x01, 0x00, 0x00, 0x61, 0x00], [0x61]⟩], 56, [0x61], 1⟩) := by
  have hdata : Lzma2Coded 4096 .first [0x01, 0x00, 0x00, 0x61, 0x00] [0x61] :=
    @Lzma2Coded.stored 4096 .first _ 0x01 0x00 0x00 [0x61] [0x00] [] (Or.inl rfl) rfl rfl .done
  have hblocks : ∀ x ∈ [(⟨0, [0x01, 0x00, 0x00, 0x61, 0x00], [0x61]⟩ : XzBlockData)], x.Coded :=
    fun x hx => by
      cases List.mem_singleton.mp hx
      exact ⟨by decide, hdata⟩
  have hfits : XzFits true [⟨0, [0x01, 0x00, 0x00, 0x61, 0x00], [0x61]⟩] :=
    ⟨by decide, by decide, by decide⟩
  have hb : XzBuf.Valid
      ⟨xzWrite true [⟨0, [0x01, 0x00, 0x00, 0x61, 0x00], [0x61]⟩], 0, [], 1⟩ :=
    ⟨Nat.zero_le _, by decide⟩
  exact xzDecRun_decodes .init hblocks hfits hb (List.prefix_refl _) (Nat.le_refl 1)

end Call

/-! ## Texts -/

/-- What the encoder writes can be the data of a block. -/
theorem lzma2Write_block {props : UInt8} {cs : List Lzma2Chunk} {data text : List UInt8}
    (hprops : props ≤ 39) (hwrite : lzma2Write (lzma2DictSize props) cs .first = some (data, text)) :
    XzBlockData.Coded ⟨props, data, text⟩ :=
  ⟨hprops, lzma2Write_coded Lzma2State.first_ok hwrite⟩

/-- A text in stored chunks, at most `n` of them. -/
def storedText : Nat → List UInt8 → List Lzma2Chunk
  | 0, _ => []
  | n + 1, text =>
      if text = [] then []
      else .stored true (text.take (2 ^ 16)) :: storedText n (text.drop (2 ^ 16))

theorem lzma2Write_storedText (size n : Nat) : ∀ (text : List UInt8) (w : Lzma2State),
    text.length ≤ n → ∃ bytes, lzma2Write size (storedText n text) w = some (bytes, text)
      ∧ bytes.length ≤ 4 * text.length + 1 := by
  induction n with
  | zero =>
      intro text w hn
      obtain rfl := List.length_eq_zero_iff.mp (Nat.le_zero.mp hn)
      exact ⟨[0x00], rfl, Nat.le_refl 1⟩
  | succ n ih =>
      intro text w hn
      rw [storedText]
      split
      · rename_i hnil
        subst hnil
        exact ⟨[0x00], rfl, Nat.le_refl 1⟩
      · rename_i htext
        have hpos := List.length_pos_iff.mpr htext
        have htake : (text.take (2 ^ 16)).length = min (2 ^ 16) text.length := List.length_take
        have hdrop : (text.drop (2 ^ 16)).length = text.length - 2 ^ 16 := List.length_drop
        obtain ⟨bytes, hrest, hlen⟩ := ih (text.drop (2 ^ 16))
          ⟨(text.take (2 ^ 16)).reverse ++ [], none, false⟩ (by omega)
        refine ⟨0x01 :: (be16Bytes ((text.take (2 ^ 16)).length - 1) ++ text.take (2 ^ 16)) ++ bytes,
          ?_, ?_⟩
        · have hchunk : (Lzma2Chunk.stored true (text.take (2 ^ 16))).write size w
              = some (0x01 :: (be16Bytes ((text.take (2 ^ 16)).length - 1) ++ text.take (2 ^ 16)),
                text.take (2 ^ 16), ⟨(text.take (2 ^ 16)).reverse ++ [], none, false⟩) := by
            have hstart : w.start 0x01 = some ⟨[], none, false⟩ := if_pos (Or.inr rfl)
            simp only [Lzma2Chunk.write, if_true, hstart, Option.bind_eq_bind, Option.bind_some]
            rw [if_pos ⟨by omega, by omega⟩]
          rw [lzma2Write, hchunk]
          simp only [Option.bind_eq_bind, Option.bind_some, hrest, List.take_append_drop]
        · rw [List.length_append, List.length_cons, List.length_append, be16Bytes]
          simp only [List.length_cons, List.length_nil]
          omega

theorem vliBytesFrom_le (k : Nat) : ∀ n, (vliBytesFrom k n).length ≤ k + 1 := by
  induction k with
  | zero => exact fun n => Nat.le_refl 1
  | succ k ih =>
      intro n
      rw [vliBytesFrom]
      split
      · exact Nat.succ_le_succ (Nat.zero_le _)
      · exact Nat.succ_le_succ (ih _)

/-- Every text has a stream that a call takes for it. -/
theorem xzDecRun_text {text : List UInt8} (htext : text.length < 2 ^ 60) :
    ∃ bytes, ∀ {s : XzDec (Run XzDecLzma2)} {b : XzBuf} {dictMax : Nat} {live : Bool},
      XzReach .single dictMax live s → b.Valid → bytes <+: b.input.drop b.inPos →
      b.out.length + text.length ≤ b.outSize →
      ∃ s', xzDecRun (xzLzma2 .single dictMax) s b
        = .ok (.streamEnd, s', b.moved bytes.length text) := by
  obtain ⟨data, hwrite, hlen⟩ :=
    lzma2Write_storedText (lzma2DictSize 0) text.length text .first (Nat.le_refl _)
  have hcoded := lzma2Write_block (by decide) hwrite
  have hrecord : (XzBlockData.record true ⟨0, data, text⟩).Fits := by
    simp only [XzBlockData.record, xzRecord, XzRecord.Fits, if_true]
    omega
  have hindex : (xzIndex [XzBlockData.record true ⟨0, data, text⟩]).length / 4 < 2 ^ 32 := by
    have hone := vliBytesFrom_le 8 (XzBlockData.record true ⟨0, data, text⟩).unpadded
    have htwo := vliBytesFrom_le 8 (XzBlockData.record true ⟨0, data, text⟩).uncompressed
    have hcount : (vliBytes [XzBlockData.record true ⟨0, data, text⟩].length).length = 1 := rfl
    rw [xzIndex, List.length_append, xzPadding, List.length_replicate, xzIndexBody, List.length_cons,
      List.length_append, hcount, List.flatMap_cons, List.flatMap_nil, List.append_nil,
      XzRecord.bytes, List.length_append, vliBytes, vliBytes]
    omega
  have hfits : XzFits true [⟨0, data, text⟩] :=
    ⟨show 1 < 2 ^ 63 by decide, fun x hx => by cases List.mem_singleton.mp hx; exact hrecord, hindex⟩
  refine ⟨xzWrite true [⟨0, data, text⟩], fun hreach hb hinput hroom => ?_⟩
  have hflat : [(⟨0, data, text⟩ : XzBlockData)].flatMap XzBlockData.text = text :=
    List.append_nil text
  obtain ⟨d, hd⟩ := hreach.sound.1
  obtain ⟨s', hrun⟩ := hd.decodes _ (fun x hx => by
    cases List.mem_singleton.mp hx
    exact hcoded) hfits hb hinput (hflat.symm ▸ hroom)
  rw [hflat] at hrun
  exact ⟨s', hrun⟩

end Ccr2004
