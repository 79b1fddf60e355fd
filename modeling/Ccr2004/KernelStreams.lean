import Ccr2004.XzFallback
import Ccr2004.XzWrite

/-!
# The extraction with the decoder of the source

`KernelStub` takes the decoder by its contract. The decoder of `XzDec` keeps it
(`xzContract`) for the streams whose blocks are coded, so a boot ELF made of
such streams is extracted with no assumption on the decoder left.
-/

namespace Ccr2004

/-- A stream of a text. -/
structure XzStreamOf (crc : Bool) (blocks : List XzBlockData) (s out : List UInt8) : Prop where
  bytes : s = xzWrite crc blocks
  coded : ∀ x ∈ blocks, x.Coded
  fits : XzFits crc blocks
  text : out = blocks.flatMap XzBlockData.text

def XzValid (s out : List UInt8) : Prop := ∃ crc blocks, XzStreamOf crc blocks s out

theorem xzMagic_prefix (crc : Bool) (blocks : List XzBlockData) : xzMagic <+: xzWrite crc blocks :=
  ⟨withCrc32 [0x00, xzCheck crc] ++ _, rfl⟩

/-- The single call of `TryXzDecompress`. -/
theorem singleCall_decodes {s out rest : List UInt8} (dictMax : Nat) (h : XzValid s out)
    (hfits : out.length ≤ xzOutputMaxSize) :
    (xzLzma2 .single dictMax).singleCall (s ++ rest) = ⟨.streamEnd, s.length, out⟩ := by
  obtain ⟨crc, blocks, rfl, hcoded, hsizes, rfl⟩ := h
  have hinit : XzReach .single dictMax true (xzDecInit (xzLzma2 .single dictMax) .single) := .init
  obtain ⟨d, hd⟩ := hinit.sound.1
  have hroom : 0 + (blocks.flatMap XzBlockData.text).length ≤ xzOutputMaxSize := by omega
  obtain ⟨s', hrun⟩ := hd.decodes dictMax hcoded hsizes
    (XzBuf.start_valid (xzWrite crc blocks ++ rest)) (List.prefix_append _ _) hroom
  rw [Lzma2.singleCall, hrun]
  simp only [XzBuf.start, XzBuf.moved, List.nil_append, Nat.zero_add, if_true]

theorem xzContract (dictMax : Nat) (allocOutput xzDecInit : Nat → Bool) :
    XzContract ((xzLzma2 .single dictMax).kernelEnv allocOutput xzDecInit) XzValid where
  magic s out h := by
    obtain ⟨crc, blocks, rfl, -, -, -⟩ := h
    exact xzMagic_prefix crc blocks
  run _ _ _ h hfits := singleCall_decodes dictMax h hfits

/-- With this decoder, and memory for both calls, a boot ELF is extracted as it
should be exactly when the offset of the PE header of its kernel fits. -/
theorem extracts_decoded {data kernel : List UInt8} {second : Option (List UInt8)} {k : Nat}
    (dictMax : Nat) (hn : data.length < 2 ^ 63) (h : KernelFile XzValid data kernel second k) :
    extractKernelAndInitrd ((xzLzma2 .single dictMax).kernelEnv (fun _ => true) fun _ => true) data
      = .ok (.expected kernel second) ↔ PeOffsetFits kernel :=
  extracts_cond (xzContract dictMax _ _) ⟨fun _ => rfl, fun _ => rfl⟩ hn h

/-- A block of one stored chunk, as `xz` writes it for a short file. -/
theorem stored_coded {props lo : UInt8} {text : List UInt8} (hprops : props ≤ 39)
    (hlength : lo.toNat + 1 = text.length) :
    XzBlockData.Coded ⟨props, 0x01 :: 0x00 :: lo :: (text ++ [0x00]), text⟩ := by
  have hbig : be16 0x00 lo + 1 = text.length := by
    rw [← hlength, be16]
    exact congrArg (· + 1) (Nat.zero_add _)
  have hdata := @Lzma2Coded.stored (lzma2DictSize props) .first _ 0x01 0x00 lo text [0x00] []
    (Or.inl rfl) rfl hbig .done
  rw [List.append_nil] at hdata
  exact ⟨hprops, hdata⟩

theorem mzStream_valid : XzValid mzStream [0x4D, 0x5A] := by
  refine ⟨true, [⟨0x0C, [0x01, 0x00, 0x01, 0x4D, 0x5A, 0x00], [0x4D, 0x5A]⟩], by decide +kernel,
    fun x hx => ?_, ⟨by decide, by decide, by decide⟩, rfl⟩
  cases List.mem_singleton.mp hx
  exact @stored_coded 0x0C 0x01 [0x4D, 0x5A] (by decide) rfl

theorem cpioStream_valid : XzValid cpioStream cpioMagic := by
  refine ⟨true, [⟨0x0C, [0x01, 0x00, 0x05, 0x30, 0x37, 0x30, 0x37, 0x30, 0x31, 0x00], cpioMagic⟩],
    by decide +kernel, fun x hx => ?_, ⟨by decide, by decide, by decide⟩, rfl⟩
  cases List.mem_singleton.mp hx
  exact @stored_coded 0x0C 0x05 cpioMagic (by decide) rfl

/-- Both streams of a boot ELF are extracted. -/
theorem extracts_decoded_both :
    extractKernelAndInitrd ((xzLzma2 .single 0).kernelEnv (fun _ => true) fun _ => true)
      (bootElf bothContents) = .ok (.expected [0x4D, 0x5A] (some cpioMagic)) := by
  have hlayout : BootLayout bothContents := by decide +kernel
  have hcontents : InitrdContents XzValid bothContents [0x4D, 0x5A] (some cpioMagic) mzStream 3
      (cpioStream ++ [1, 2]) :=
    ⟨rfl, mzStream_valid, .stream [1, 2] cpioStream_valid (by decide)⟩
  have hlen : (bootElf bothContents).length < 2 ^ 63 := by decide +kernel
  exact (extracts_decoded 0 hlen (hlayout.file hcontents rfl (by decide))).mpr (.inl (by decide))

end Ccr2004
