import Ccr2004.KernelInside
import Ccr2004.PeImage

/-!
# The kernel and the initrd of a well-formed boot ELF

`KernelFile` says what a boot ELF is: a section table inside the file, and a
section `initrd` with one XZ stream, padding, and a second stream or no magic
at all. Under the contract of the decoder the lookup, both searches and both
decompressions are determined; what is left is the size of the PE image, and
there `extracts_cond` needs the offset of its PE header to fit.
-/

namespace Ccr2004

/-! ## A well-formed file -/

/-- The decoder keeps its contract: a valid stream starts with the magic and
is decoded whatever follows, when its output fits. -/
structure XzContract (env : KernelEnv) (valid : List UInt8 → List UInt8 → Prop) : Prop where
  magic : ∀ s out, valid s out → xzMagic <+: s
  run : ∀ s out rest, valid s out → out.length ≤ xzOutputMaxSize →
    env.xzDecRun (s ++ rest) = ⟨.streamEnd, s.length, out⟩

/-- Every allocation succeeds. -/
structure Allocates (env : KernelEnv) : Prop where
  output : ∀ call, env.allocOutput call = true
  decoder : ∀ call, env.xzDecInit call = true

/-- An ELF whose section table and string table are inside the file. -/
structure ElfFile (data : List UInt8) : Prop where
  header : HeaderOk data
  entsize : word16 data 58 = 64
  table : (word64 data 40).toNat + 64 * (word16 data 60).toNat ≤ data.length
  strings : (strOffset data).toNat + (strSize data).toNat ≤ data.length
  terminated : 0 < (strSize data).toNat →
    word8 data ((strOffset data).toNat + (strSize data).toNat - 1) = 0

/-- What follows the padding: a second stream, or no magic. -/
inductive SecondStream (valid : List UInt8 → List UInt8 → Prop) :
    List UInt8 → Option (List UInt8) → Prop
  | stream {s out : List UInt8} (tail : List UInt8) :
      valid s out → out.length ≤ xzOutputMaxSize → SecondStream valid (s ++ tail) (some out)
  | none {tail : List UInt8} : ¬ xzMagic <:+: tail → SecondStream valid tail none

/-- The contents of the section. -/
structure InitrdContents (valid : List UInt8 → List UInt8 → Prop) (contents kernel : List UInt8)
    (second : Option (List UInt8)) (s : List UInt8) (pad : Nat) (rest : List UInt8) : Prop where
  eq : contents = s ++ (List.replicate pad 0 ++ rest)
  first : valid s kernel
  second : SecondStream valid rest second

/-- A boot ELF with the kernel and what the second stream decodes to. -/
structure KernelFile (valid : List UInt8 → List UInt8 → Prop) (data kernel : List UInt8)
    (second : Option (List UInt8)) (k : Nat) : Prop extends ElfFile data where
  lt : k < (word16 data 60).toNat
  named : Named data k
  unnamed : ∀ j < k, ¬ Named data j
  inside : (secOffset data k).toNat + (secSize data k).toNat ≤ data.length
  contents : ∃ s pad rest, InitrdContents valid
    (slice data (secOffset data k).toNat (secSize data k).toNat) kernel second s pad rest
  mz : kernel.take 2 = [0x4D, 0x5A]
  fits : kernel.length ≤ xzOutputMaxSize

/-- The initrd: the second stream when it is a cpio archive. -/
def initrdOf (second : Option (List UInt8)) : Option (List UInt8) :=
  second.filter fun out => out.take 6 = cpioMagic

/-- What is to be extracted. -/
def KernelExtract.expected (kernel : List UInt8) (second : Option (List UInt8)) :
    KernelExtract where
  status := .success
  stubBuffer := some kernel
  stubSize := UInt64.ofNat (kernelFileSize kernel)
  initrdData := initrdOf second
  initrdSize := UInt64.ofNat ((initrdOf second).elim 0 List.length)

/-! ## The lookup -/

theorem toNat_signExtend {x : UInt32} (h : x.toNat < 2 ^ 31) :
    x.toInt32.toInt64.toUInt64.toNat = x.toNat := by
  have hmsb : x.toBitVec.msb = false := by
    rw [BitVec.msb_eq_false_iff_two_mul_lt]
    change 2 * x.toNat < _
    omega
  change (x.toBitVec.signExtend 64).toNat = x.toBitVec.toNat
  rw [BitVec.signExtend_eq_setWidth_of_msb_false hmsb, BitVec.toNat_setWidth]
  change x.toNat % _ = x.toNat
  exact Nat.mod_eq_of_lt (by omega)

namespace ElfFile

variable {data : List UInt8} {i : Nat}

theorem toNat_shOff (h : ElfFile data) (hn : data.length < 2 ^ 63)
    (hi : i < (word16 data 60).toNat) :
    (shOff data i).toNat = (word64 data 40).toNat + 64 * i := by
  have htable := h.table
  have hnum := (word16 data 60).toNat_lt
  have hmul : (UInt64.ofNat i * (word16 data 58).toUInt64).toNat = 64 * i := by
    rw [h.entsize, UInt64.toNat_mul, toNat_ofNat_of_lt (by omega),
      show ((64 : UInt16).toUInt64).toNat = 64 from rfl]
    omega
  exact toNat_add_of_lt rfl hmul (by omega)

theorem toNat_strTabOff (h : ElfFile data) (hn : data.length < 2 ^ 63) :
    (strTabOff data).toNat = (word64 data 40).toNat + 64 * (word16 data 62).toNat := by
  have htable := h.table
  have hnum := (word16 data 60).toNat_lt
  have hndx := UInt16.lt_iff_toNat_lt.mp h.header.shstrndx
  have hmul : ((word16 data 62).toUInt32 * (word16 data 58).toUInt32).toNat
      = 64 * (word16 data 62).toNat := by
    rw [h.entsize, UInt32.toNat_mul, UInt16.toNat_toUInt32,
      show ((64 : UInt16).toUInt32).toNat = 64 from rfl]
    omega
  have hprod : (intProduct (word16 data 62) (word16 data 58)).toNat
      = 64 * (word16 data 62).toNat := by
    rw [intProduct, toNat_signExtend (by omega), hmul]
  exact toNat_add_of_lt rfl hprod (by omega)

theorem noWrap_strTab (h : ElfFile data) (hn : data.length < 2 ^ 63) :
    NoWrap (strTabOff data) 64 ∧ Passes data (strTabOff data) 64 := by
  have htable := h.table
  have hndx := UInt16.lt_iff_toNat_lt.mp h.header.shstrndx
  have hoff := h.toNat_strTabOff hn
  have h64 : (64 : UInt64).toNat = 64 := rfl
  have hw : NoWrap (strTabOff data) 64 := by
    rw [NoWrap]
    omega
  exact ⟨hw, (passes_iff hn hw).mpr (by omega)⟩

theorem noWrap_section (h : ElfFile data) (hn : data.length < 2 ^ 63)
    (hi : i < (word16 data 60).toNat) :
    NoWrap (shOff data i) 64 ∧ Passes data (shOff data i) 64 := by
  have htable := h.table
  have hoff := h.toNat_shOff hn hi
  have h64 : (64 : UInt64).toNat = 64 := rfl
  have hw : NoWrap (shOff data i) 64 := by
    rw [NoWrap]
    omega
  exact ⟨hw, (passes_iff hn hw).mpr (by omega)⟩

/-- A name in a terminated string table is not cut off. -/
theorem name_inside (h : ElfFile data) (hname : HasName data i) :
    ¬ nameBytes data i <+: initrdName := by
  intro hpre
  have hlt : (shName data i).toNat < (strSize data).toNat := by
    have := UInt64.lt_iff_toNat_lt.mp hname
    rwa [UInt32.toNat_toUInt64] at this
  have hstrings := h.strings
  have hlast := h.terminated (by omega)
  have hmem : (0 : UInt8) ∈ slice (nameBytes data i)
      ((strSize data).toNat - 1 - (shName data i).toNat) 1 := by
    rw [nameBytes, slice_drop, show (strOffset data).toNat + (shName data i).toNat
      + ((strSize data).toNat - 1 - (shName data i).toNat)
        = (strOffset data).toNat + (strSize data).toNat - 1 by omega,
      slice_one (by omega), hlast]
    exact List.mem_singleton_self 0
  have hzero := hpre.subset (List.mem_of_mem_drop (List.mem_of_mem_take hmem))
  exact initrdName_ne_zero 0 hzero rfl

theorem lookupInside (h : ElfFile data) (hn : data.length < 2 ^ 63) : LookupInside data :=
  ⟨fun _ _ => (h.noWrap_strTab hn).1, fun _ hk =>
    ⟨fun _ => (h.noWrap_section hn hk.lt).1, fun _ hname => h.name_inside hname⟩⟩

end ElfFile

section Extraction

variable {valid : List UInt8 → List UInt8 → Prop} {env : KernelEnv} {data kernel : List UInt8}
  {second : Option (List UInt8)} {k : Nat}

theorem KernelFile.foundAt (h : KernelFile valid data kernel second k)
    (hn : data.length < 2 ^ 63) : FoundAt data k := by
  have hstrings := h.strings
  have hinside := h.inside
  have hw : NoWrap (strOffset data) (strSize data) := by
    rw [NoWrap]
    omega
  have hw' : NoWrap (secOffset data k) (secSize data k) := by
    rw [NoWrap]
    omega
  exact ⟨⟨h.header, (h.noWrap_strTab hn).2, (passes_iff hn hw).mpr hstrings, h.lt,
    fun j hj => ⟨(h.noWrap_section hn (Nat.lt_trans hj h.lt)).2, h.unnamed j hj⟩⟩,
    (h.noWrap_section hn h.lt).2, h.named, (passes_iff hn hw').mpr hinside⟩

/-- The range to search is the section. -/
theorem KernelFile.searchRange_eq (h : KernelFile valid data kernel second k)
    (hn : data.length < 2 ^ 63) :
    searchRange data = .ok (secOffset data k, secOffset data k + secSize data k) := by
  have hk := h.foundAt hn
  rcases findElfSection_spec hn with
    ⟨hlook, -⟩ | ⟨-, j, hj, hrun⟩ | ⟨-, hnone, -⟩
  · exact absurd (h.lookupInside hn) hlook
  · rw [searchRange, hrun, ok_bind, hj.unique hk]
  · exact absurd hk (hnone k)

/-! ## The searches -/

/-- A magic at the start of a range is found there. -/
theorem findXzStream_here {start stop : UInt64} (hn : data.length < 2 ^ 63)
    (hstop : stop.toNat ≤ data.length) (hin : start.toNat + 6 ≤ stop.toNat)
    (hmagic : MagicAt data start.toNat) :
    findXzStream data stop start = .ok (some start) := by
  obtain ⟨found, hrun, hfound⟩ := findXzStream_spec hn hstop (show start.toNat < 2 ^ 64 - 6 by omega)
  rw [hrun]
  cases found with
  | none => exact absurd hmagic (hfound _ (Nat.le_refl _) hin)
  | some pos =>
      rcases Nat.lt_or_ge start.toNat pos.toNat with hlt | hge
      · exact absurd hmagic (hfound.before _ (Nat.le_refl _) hlt)
      · have hle := UInt64.le_iff_toNat_le.mp hfound.le
        rw [UInt64.toNat_inj.mp (show pos.toNat = start.toNat by omega)]

/-- A range without a magic. -/
theorem findXzStream_none {start stop : UInt64} (hn : data.length < 2 ^ 63)
    (hstop : stop.toNat ≤ data.length) (hstart : start.toNat < 2 ^ 64 - 6)
    (hnone : ∀ off, start.toNat ≤ off → off + 6 ≤ stop.toNat → ¬ MagicAt data off) :
    findXzStream data stop start = .ok none := by
  obtain ⟨found, hrun, hfound⟩ := findXzStream_spec hn hstop hstart
  rw [hrun]
  cases found with
  | none => rfl
  | some pos =>
      exact absurd hfound.here (hnone _ (UInt64.le_iff_toNat_le.mp hfound.le) hfound.fits)

/-! ## The second stream -/

theorem slice_padding {pad j : Nat} (rest : List UInt8) (hj : j < pad) :
    slice (List.replicate pad 0 ++ rest) j 1 = [(0 : UInt8)] := by
  obtain ⟨m, rfl⟩ := Nat.exists_eq_add_of_lt hj
  rw [show j + m + 1 = j + (1 + m) by omega, List.replicate_add, List.replicate_add,
    List.append_assoc, List.append_assoc]
  exact slice_mid _ List.length_replicate rfl

/-- No magic starts in the padding. -/
theorem not_magicAt_padded {pad j : Nat} {rest : List UInt8} (hrest : ¬ xzMagic <:+: rest) :
    ¬ MagicAt (List.replicate pad 0 ++ rest) j := by
  intro hmagic
  rw [MagicAt] at hmagic
  rcases Nat.lt_or_ge j pad with hlt | hge
  · rw [show 6 = 1 + 5 from rfl, slice_add, slice_padding rest hlt] at hmagic
    exact absurd (List.head_eq_of_cons_eq hmagic) (by decide)
  · rw [slice_append_of_le (by rwa [List.length_replicate])] at hmagic
    refine hrest (hmagic ▸ ?_)
    exact (List.take_prefix _ _).isInfix.trans (List.drop_suffix _ _).isInfix

theorem magicAt_of_prefix {s : List UInt8} (h : xzMagic <+: s) (post : List UInt8) :
    slice (s ++ post) 0 6 = xzMagic := by
  obtain ⟨t, rfl⟩ := h
  rw [List.append_assoc]
  exact slice_append_here rfl

section Second

variable {start stop : UInt64} {pad : Nat} {rest : List UInt8} {size : UInt64}

/-- A slice of what follows the first stream. -/
theorem slice_after (hle : start.toNat ≤ stop.toNat)
    (hafter : slice data start.toNat (stop.toNat - start.toNat) = List.replicate pad 0 ++ rest)
    (off n : Nat) (hoff : start.toNat ≤ off) (hin : off + n ≤ stop.toNat) :
    slice data off n = slice (List.replicate pad 0 ++ rest) (off - start.toNat) n := by
  rw [← hafter, slice_slice _ (by omega), show start.toNat + (off - start.toNat) = off by omega]

theorem length_after (hstop : stop.toNat ≤ data.length) (hle : start.toNat ≤ stop.toNat)
    (hafter : slice data start.toNat (stop.toNat - start.toNat) = List.replicate pad 0 ++ rest) :
    pad + rest.length = stop.toNat - start.toNat := by
  have hlen := congrArg List.length hafter
  rw [length_slice (by omega), List.length_append, List.length_replicate] at hlen
  exact hlen.symm

/-- Without a second stream there is no initrd. -/
theorem extractInitrd_none (hn : data.length < 2 ^ 63) (hstop : stop.toNat ≤ data.length)
    (hle : start.toNat ≤ stop.toNat)
    (hafter : slice data start.toNat (stop.toNat - start.toNat) = List.replicate pad 0 ++ rest)
    (hrest : ¬ xzMagic <:+: rest) :
    extractInitrd env data stop start kernel size = .ok ⟨.success, some kernel, size, none, 0⟩ := by
  obtain ⟨pos, hskip, hpos⟩ := skipZeros_spec hn hstop start
  have hpos' := UInt64.le_iff_toNat_le.mp hpos.le
  have hend := UInt64.le_iff_toNat_le.mp (hpos.bound (UInt64.le_iff_toNat_le.mpr hle))
  have hlen := length_after hstop hle hafter
  have hfind : findXzStream data stop pos = .ok none := by
    refine findXzStream_none hn hstop (by omega) fun off hoff hin hmagic => ?_
    rw [MagicAt, slice_after hle hafter _ _ (by omega) hin] at hmagic
    exact not_magicAt_padded hrest hmagic
  rw [extractInitrd, hskip, ok_bind, hfind, ok_bind]

/-- The padding ends at the second stream. -/
theorem skipZeros_padding (hn : data.length < 2 ^ 63) (hstop : stop.toNat ≤ data.length)
    (hle : start.toNat ≤ stop.toNat)
    (hafter : slice data start.toNat (stop.toNat - start.toNat) = List.replicate pad 0 ++ rest)
    (hrest : xzMagic <+: rest) :
    ∃ pos, skipZeros data stop start = .ok pos ∧ pos.toNat = start.toNat + pad := by
  obtain ⟨pos, hskip, hpos⟩ := skipZeros_spec hn hstop start
  have hpos' := UInt64.le_iff_toNat_le.mp hpos.le
  have hlen := length_after hstop hle hafter
  have hsix := hrest.length_le
  rw [show xzMagic.length = 6 from rfl] at hsix
  refine ⟨pos, hskip, ?_⟩
  rcases Nat.lt_trichotomy pos.toNat (start.toNat + pad) with hlt | heq | hgt
  · -- still in the padding
    have hzero := slice_after hle hafter _ 1 hpos' (by omega)
    rw [slice_padding rest (by omega), slice_one (by omega)] at hzero
    exact absurd (List.head_eq_of_cons_eq hzero)
      (hpos.stop (UInt64.lt_iff_toNat_lt.mpr (by omega)))
  · exact heq
  · -- behind the first byte of the magic
    have hfirst := slice_after hle hafter (start.toNat + pad) 1 (by omega) (by omega)
    obtain ⟨t, rfl⟩ := hrest
    rw [slice_one (by omega), hpos.zeros _ (by omega) hgt,
      slice_append_of_le (by rw [List.length_replicate]; omega), List.length_replicate,
      show start.toNat + pad - start.toNat - pad = 0 by omega] at hfirst
    exact absurd (List.head_eq_of_cons_eq hfirst) (by decide)

/-- The second stream is decoded, and kept when it is a cpio archive. -/
theorem extractInitrd_stream (hdec : XzContract env valid) (halloc : Allocates env)
    (hn : data.length < 2 ^ 63) (hstop : stop.toNat ≤ data.length)
    (hle : start.toNat ≤ stop.toNat) {s out tail : List UInt8}
    (hafter : slice data start.toNat (stop.toNat - start.toNat)
      = List.replicate pad 0 ++ (s ++ tail))
    (hvalid : valid s out) (hfits : out.length ≤ xzOutputMaxSize) :
    extractInitrd env data stop start kernel size
      = .ok ⟨.success, some kernel, size, initrdOf (some out),
          UInt64.ofNat ((initrdOf (some out)).elim 0 List.length)⟩ := by
  have hmagic := hdec.magic s out hvalid
  have hlen := length_after hstop hle hafter
  have hsix := hmagic.length_le
  rw [show xzMagic.length = 6 from rfl] at hsix
  rw [List.length_append] at hlen
  obtain ⟨pos, hskip, hpos⟩ := skipZeros_padding hn hstop hle hafter
    (hmagic.trans (List.prefix_append s tail))
  have hat : ∀ n, pos.toNat + n ≤ stop.toNat → slice data pos.toNat n = slice (s ++ tail) 0 n := by
    intro n hin
    rw [slice_after hle hafter _ _ (by omega) hin,
      slice_append_of_le (by rw [List.length_replicate]; omega), List.length_replicate,
      show pos.toNat - start.toNat - pad = 0 by omega]
  have hhere : MagicAt data pos.toNat := by
    rw [MagicAt, hat 6 (by omega), magicAt_of_prefix hmagic]
  have hfind : findXzStream data stop pos = .ok (some pos) :=
    findXzStream_here hn hstop (by omega) hhere
  have hinput : elfBytes data pos.toNat (stop - pos).toNat = .ok (s ++ tail) := by
    rw [UInt64.toNat_sub_of_le _ _ (UInt64.le_iff_toNat_le.mpr (by omega)),
      elfBytes_ok (by omega), hat _ (by omega), slice, List.drop_zero,
      List.take_of_length_le (by rw [List.length_append]; omega)]
  have htry : env.tryXzDecompress 1 (s ++ tail) = .ok (out, s.length) := by
    simp [KernelEnv.tryXzDecompress, halloc.output, halloc.decoder, hdec.run s out tail hvalid hfits]
  rw [extractInitrd, hskip, ok_bind, hfind, ok_bind]
  simp only [hinput, ok_bind, htry]
  by_cases hcpio : out.take 6 = cpioMagic
  · have hsize : out.length ≥ 6 := by
      have := congrArg List.length hcpio
      rw [List.length_take, show cpioMagic.length = 6 from rfl] at this
      omega
    rw [if_pos ⟨hsize, hcpio⟩]
    simp [initrdOf, Option.filter, hcpio]
  · rw [if_neg fun h => hcpio h.2]
    simp [initrdOf, Option.filter, hcpio]

theorem extractInitrd_second (hdec : XzContract env valid) (halloc : Allocates env)
    (hn : data.length < 2 ^ 63) (hstop : stop.toNat ≤ data.length)
    (hle : start.toNat ≤ stop.toNat)
    (hafter : slice data start.toNat (stop.toNat - start.toNat) = List.replicate pad 0 ++ rest)
    (hsecond : SecondStream valid rest second) :
    extractInitrd env data stop start kernel size
      = .ok ⟨.success, some kernel, size, initrdOf second,
          UInt64.ofNat ((initrdOf second).elim 0 List.length)⟩ := by
  cases hsecond with
  | stream tail hvalid hfits =>
      exact extractInitrd_stream hdec halloc hn hstop hle hafter hvalid hfits
  | none hrest => exact extractInitrd_none hn hstop hle hafter hrest

end Second

/-! ## The whole extraction -/

/-- The first stream is found at the start of the section and decoded. -/
theorem KernelFile.extract_eq (h : KernelFile valid data kernel second k)
    (hdec : XzContract env valid) (halloc : Allocates env) (hn : data.length < 2 ^ 63) :
    extractKernelAndInitrd env data
      = (do
        let parsed ← getPeFileSize kernel
        .ok ⟨.success, some kernel, parsed.getD (UInt64.ofNat kernel.length), initrdOf second,
          UInt64.ofNat ((initrdOf second).elim 0 List.length)⟩) := by
  obtain ⟨s, pad, rest, hcontents⟩ := h.contents
  have hinside := h.inside
  have hmagic := hdec.magic s kernel hcontents.first
  have hsix := hmagic.length_le
  rw [show xzMagic.length = 6 from rfl] at hsix
  have hlen := congrArg List.length hcontents.eq
  rw [length_slice hinside, List.length_append] at hlen
  have hstop : (secOffset data k + secSize data k).toNat
      = (secOffset data k).toNat + (secSize data k).toNat := toNat_add_of_lt rfl rfl (by omega)
  have hhere : MagicAt data (secOffset data k).toNat := by
    have hfirst := magicAt_of_prefix hmagic (List.replicate pad 0 ++ rest)
    rwa [← hcontents.eq, slice_slice _ (by omega)] at hfirst
  have hfind : findXzStream data (secOffset data k + secSize data k) (secOffset data k)
      = .ok (some (secOffset data k)) := findXzStream_here hn (by omega) (by omega) hhere
  have hinput : elfBytes data (secOffset data k).toNat
      (secOffset data k + secSize data k - secOffset data k).toNat
        = .ok (s ++ (List.replicate pad 0 ++ rest)) := by
    rw [UInt64.toNat_sub_of_le _ _ (UInt64.le_iff_toNat_le.mpr (by omega)), hstop,
      Nat.add_sub_cancel_left, elfBytes_ok hinside, hcontents.eq]
  have htry : env.tryXzDecompress 0 (s ++ (List.replicate pad 0 ++ rest))
      = .ok (kernel, s.length) := by
    simp [KernelEnv.tryXzDecompress, halloc.output, halloc.decoder,
      hdec.run s kernel _ hcontents.first h.fits]
  -- what follows the first stream
  have hnext : (secOffset data k + UInt64.ofNat s.length).toNat
      = (secOffset data k).toNat + s.length :=
    toNat_add_of_lt rfl (toNat_ofNat_of_lt (by omega)) (by omega)
  have hafter : slice data (secOffset data k + UInt64.ofNat s.length).toNat
      ((secOffset data k + secSize data k).toNat
        - (secOffset data k + UInt64.ofNat s.length).toNat)
          = List.replicate pad 0 ++ rest := by
    have heq := hcontents.eq
    rw [show (secSize data k).toNat = s.length + ((secSize data k).toNat - s.length) by omega,
      slice_add] at heq
    have hright := (List.append_inj heq (length_slice (by omega))).2
    rwa [hnext, hstop, Nat.add_sub_add_left]
  have hmz : ¬ (kernel.length < 2 ∨ kernel.take 2 ≠ [0x4D, 0x5A]) := by
    have htwo := congrArg List.length h.mz
    rw [List.length_take, show [(0x4D : UInt8), 0x5A].length = 2 from rfl] at htwo
    exact fun h' => h'.elim (fun hlt => by omega) fun hne => hne h.mz
  rw [extractKernelAndInitrd, h.searchRange_eq hn, ok_bind]
  simp only [hfind, hinput, htry, ok_bind, if_neg hmz]
  refine congrArg _ (funext fun parsed => ?_)
  exact extractInitrd_second hdec halloc hn (by omega) (by omega) hafter hcontents.second

/-- A boot ELF is extracted as it should be exactly when the offset of the PE
header of its kernel fits. -/
theorem extracts_cond (hdec : XzContract env valid) (halloc : Allocates env)
    (hn : data.length < 2 ^ 63) (h : KernelFile valid data kernel second k) :
    extractKernelAndInitrd env data = .ok (.expected kernel second) ↔ PeOffsetFits kernel := by
  have hmax : xzOutputMaxSize = 2 ^ 25 := rfl
  have hfits := h.fits
  rw [h.extract_eq hdec halloc hn]
  rcases Nat.lt_or_ge kernel.length 0x40 with hsmall | hdos
  · have hsize : UInt64.ofNat kernel.length < 0x40 := by
      rw [UInt64.lt_iff_toNat_lt, toNat_ofNat_of_lt (by omega)]
      exact hsmall
    have hparses : ¬ PeParses kernel := fun hp => absurd hp.dos (Nat.not_le.mpr hsmall)
    rw [getPeFileSize, if_pos hsize, ok_bind, KernelExtract.expected, kernelFileSize,
      if_neg hparses]
    exact ⟨fun _ => .inl hsmall, fun _ => rfl⟩
  · by_cases hoff : peOffset kernel < 2 ^ 32 - 24
    · rw [getPeFileSize_fits h.fits hdos h.mz hoff, ok_bind, KernelExtract.expected,
        kernelFileSize]
      refine ⟨fun _ => .inr hoff, fun _ => ?_⟩
      by_cases hparses : PeParses kernel
      · rw [if_pos hparses, if_pos hparses]
        rfl
      · rw [if_neg hparses, if_neg hparses]
        rfl
    · rw [getPeFileSize_wraps h.fits hdos h.mz hoff, error_bind]
      refine ⟨fun h' => (by cases h'), fun h' => ?_⟩
      rcases h' with hlt | hlt
      · exact absurd hlt (Nat.not_lt.mpr hdos)
      · exact absurd hlt hoff

/-- The second stream leaves the stub as it is, and never fails the call. -/
theorem extractInitrd_cases {stop start size : UInt64} {out : KernelExtract}
    (h : extractInitrd env data stop start kernel size = .ok out) :
    out.status = .success ∧ out.stubBuffer = some kernel ∧ out.stubSize = size := by
  rw [extractInitrd] at h
  obtain ⟨pos, -, h⟩ := bind_eq_ok.mp h
  obtain ⟨found, -, h⟩ := bind_eq_ok.mp h
  cases found with
  | none =>
      obtain rfl := Except.ok.inj h
      exact ⟨rfl, rfl, rfl⟩
  | some pos =>
      obtain ⟨input, -, h⟩ := bind_eq_ok.mp h
      split at h
      · obtain rfl := Except.ok.inj h
        exact ⟨rfl, rfl, rfl⟩
      · split at h
        · obtain rfl := Except.ok.inj h
          exact ⟨rfl, rfl, rfl⟩
        · obtain rfl := Except.ok.inj h
          exact ⟨rfl, rfl, rfl⟩

/-- A run leaves no buffer, or a stub that is what the first stream decoded
to, with the size that `GetPeFileSize` finds, or its own. -/
theorem extract_cases {out : KernelExtract} (h : extractKernelAndInitrd env data = .ok out) :
    out = .failed out.status ∨ (out.status = .success ∧ ∃ img input consumed size,
      env.tryXzDecompress 0 input = .ok (img, consumed) ∧ getPeFileSize img = .ok size
        ∧ out.stubBuffer = some img ∧ out.stubSize = size.getD (UInt64.ofNat img.length)) := by
  rw [extractKernelAndInitrd] at h
  obtain ⟨range, -, h⟩ := bind_eq_ok.mp h
  obtain ⟨found, -, h⟩ := bind_eq_ok.mp h
  cases found with
  | none =>
      obtain rfl := Except.ok.inj h
      exact .inl rfl
  | some pos =>
      obtain ⟨input, -, h⟩ := bind_eq_ok.mp h
      split at h
      · obtain rfl := Except.ok.inj h
        exact .inl rfl
      · rename_i img consumed htry
        split at h
        · obtain rfl := Except.ok.inj h
          exact .inl rfl
        · obtain ⟨size, hsize, h⟩ := bind_eq_ok.mp h
          obtain ⟨hstatus, hbuffer, hreported⟩ := extractInitrd_cases h
          exact .inr ⟨hstatus, img, input, consumed, size, htry, hsize, hbuffer, hreported⟩

/-- A return with an error leaves no buffer. -/
theorem extract_failed {out : KernelExtract} (h : extractKernelAndInitrd env data = .ok out)
    (herr : out.status ≠ .success) : out = .failed out.status := by
  rcases extract_cases h with hfailed | ⟨hok, -⟩
  · exact hfailed
  · exact absurd hok herr

end Extraction

/-- Every return with an error leaves no buffer, and a boot ELF is extracted
as it should be exactly when the offset of the PE header of its kernel fits. -/
theorem extractKernelAndInitrd_iff {env : KernelEnv}
    {valid : List UInt8 → List UInt8 → Prop} {data kernel : List UInt8}
    {second : Option (List UInt8)} {k : Nat} (hdec : XzContract env valid)
    (halloc : Allocates env) (hn : data.length < 2 ^ 63)
    (h : KernelFile valid data kernel second k) :
    (extractKernelAndInitrd env data = .ok (.expected kernel second) ↔ PeOffsetFits kernel)
    ∧ ∀ env data out, extractKernelAndInitrd env data = .ok out → out.status ≠ .success →
      out.stubBuffer = none ∧ out.stubSize = 0 ∧ out.initrdData = none ∧ out.initrdSize = 0 :=
  ⟨extracts_cond hdec halloc hn h, fun env data out h herr => by
    rw [extract_failed h herr]
    exact ⟨rfl, rfl, rfl, rfl⟩⟩

/-! ## Two boot ELFs -/

/-- The XZ stream of an image that is its magic alone. -/
def mzStream : List UInt8 :=
  [0xFD, 0x37, 0x7A, 0x58, 0x5A, 0x00, 0x00, 0x01, 0x69, 0x22, 0xDE, 0x36, 0x02, 0x00, 0x21, 0x01,
   0x0C, 0x00, 0x00, 0x00, 0x8F, 0x98, 0x41, 0x9C, 0x01, 0x00, 0x01, 0x4D, 0x5A, 0x00, 0x00, 0x00,
   0x5D, 0x9B, 0xB0, 0x8F, 0x00, 0x01, 0x16, 0x02, 0xD0, 0x61, 0x10, 0xD2, 0x90, 0x42, 0x99, 0x0D,
   0x01, 0x00, 0x00, 0x00, 0x00, 0x01, 0x59, 0x5A]

/-- The XZ stream of a cpio magic. -/
def cpioStream : List UInt8 :=
  [0xFD, 0x37, 0x7A, 0x58, 0x5A, 0x00, 0x00, 0x01, 0x69, 0x22, 0xDE, 0x36, 0x02, 0x00, 0x21, 0x01,
   0x0C, 0x00, 0x00, 0x00, 0x8F, 0x98, 0x41, 0x9C, 0x01, 0x00, 0x05, 0x30, 0x37, 0x30, 0x37, 0x30,
   0x31, 0x00, 0x00, 0x00, 0xE5, 0xFF, 0x2E, 0xF9, 0x00, 0x01, 0x1A, 0x06, 0xC5, 0xEA, 0xC8, 0x79,
   0x90, 0x42, 0x99, 0x0D, 0x01, 0x00, 0x00, 0x00, 0x00, 0x01, 0x59, 0x5A]

/-- An image whose offset of the PE header is the greatest one. -/
def farImage : List UInt8 := [0x4D, 0x5A] ++ List.replicate 58 0 ++ [0xFF, 0xFF, 0xFF, 0xFF]

def farStream : List UInt8 :=
  [0xFD, 0x37, 0x7A, 0x58, 0x5A, 0x00, 0x00, 0x01, 0x69, 0x22, 0xDE, 0x36, 0x02, 0x00, 0x21, 0x01,
   0x0C, 0x00, 0x00, 0x00, 0x8F, 0x98, 0x41, 0x9C, 0xE0, 0x00, 0x3F, 0x00, 0x0B, 0x5D, 0x00, 0x26,
   0x96, 0x7C, 0x1B, 0x8C, 0xDB, 0x04, 0x40, 0xF0, 0x00, 0x00, 0x00, 0x00, 0xCE, 0xBE, 0x6E, 0xAC,
   0x00, 0x01, 0x23, 0x40, 0xDA, 0x83, 0xF3, 0xE8, 0x90, 0x42, 0x99, 0x0D, 0x01, 0x00, 0x00, 0x00,
   0x00, 0x01, 0x59, 0x5A]

/-- The streams a decoder is asked for here, and what they decode to. -/
def bootStreams : List (List UInt8 × List UInt8) :=
  [(mzStream, [0x4D, 0x5A]), (cpioStream, cpioMagic), (farStream, farImage)]

def bootEnv : KernelEnv where
  xzDecRun input :=
    match bootStreams.find? fun p => p.1.isPrefixOf input with
    | some p => ⟨.streamEnd, p.1.length, p.2⟩
    | none => ⟨.other, 0, []⟩
  allocOutput _ := true
  xzDecInit _ := true

/-- An ELF with a null section, the section `initrd` and `.shstrtab`. -/
def bootElf (contents : List UInt8) : List UInt8 :=
  [0x7F, 0x45, 0x4C, 0x46, 2, 1, 1, 0, 0, 0, 0, 0, 0, 0, 0, 0, 2, 0, 183, 0, 1, 0, 0, 0]
    ++ leBytes 8 0 ++ leBytes 8 0 ++ leBytes 8 (82 + contents.length)
    ++ [0, 0, 0, 0, 64, 0, 0, 0, 0, 0, 64, 0, 3, 0, 2, 0]
    ++ ([0] ++ initrdName ++ [0] ++ [0x2E, 0x73, 0x68, 0x73, 0x74, 0x72, 0x74, 0x61, 0x62, 0])
    ++ contents ++ List.replicate 64 0
    ++ (leBytes 4 1 ++ leBytes 4 1 ++ leBytes 8 0 ++ leBytes 8 0 ++ leBytes 8 82
      ++ leBytes 8 contents.length ++ List.replicate 24 0)
    ++ (leBytes 4 8 ++ leBytes 4 3 ++ leBytes 8 0 ++ leBytes 8 0 ++ leBytes 8 64 ++ leBytes 8 18
      ++ List.replicate 24 0)

theorem bootEnv_contract : XzContract bootEnv fun s out => (s, out) ∈ bootStreams where
  magic s out h := by
    simp only [bootStreams, List.mem_cons, Prod.mk.injEq, List.not_mem_nil, or_false] at h
    rcases h with ⟨rfl, rfl⟩ | ⟨rfl, rfl⟩ | ⟨rfl, rfl⟩
    · exact ⟨_, rfl⟩
    · exact ⟨_, rfl⟩
    · exact ⟨_, rfl⟩
  run s out rest h _ := by
    simp only [bootStreams, List.mem_cons, Prod.mk.injEq, List.not_mem_nil, or_false] at h
    rcases h with ⟨rfl, rfl⟩ | ⟨rfl, rfl⟩ | ⟨rfl, rfl⟩
    · rfl
    · rfl
    · rfl

theorem bootEnv_allocates : Allocates bootEnv := ⟨fun _ => rfl, fun _ => rfl⟩

/-- The layout of such an ELF, with its second section called `initrd`. -/
def BootLayout (contents : List UInt8) : Prop :=
  let data := bootElf contents
  (64 ≤ data.length ∧ word32 data 0 = 0x464C457F ∧ word8 data 4 = 2 ∧ word8 data 5 = 1
      ∧ word16 data 18 = 183 ∧ word16 data 60 ≠ 0 ∧ word64 data 40 ≠ 0
      ∧ word16 data 62 < word16 data 60)
    ∧ (word16 data 58 = 64 ∧ (word64 data 40).toNat + 64 * (word16 data 60).toNat ≤ data.length
      ∧ (strOffset data).toNat + (strSize data).toNat ≤ data.length
      ∧ word8 data ((strOffset data).toNat + (strSize data).toNat - 1) = 0)
    ∧ 1 < (word16 data 60).toNat ∧ Named data 1 ∧ ¬ Named data 0
    ∧ (secOffset data 1).toNat + (secSize data 1).toNat ≤ data.length
    ∧ slice data (secOffset data 1).toNat (secSize data 1).toNat = contents

instance (contents : List UInt8) : Decidable (BootLayout contents) := instDecidableAnd

theorem BootLayout.file {valid : List UInt8 → List UInt8 → Prop} {contents kernel : List UInt8}
    {second : Option (List UInt8)} (h : BootLayout contents) {s rest : List UInt8} {pad : Nat}
    (hcontents : InitrdContents valid contents kernel second s pad rest)
    (hmz : kernel.take 2 = [0x4D, 0x5A]) (hfits : kernel.length ≤ xzOutputMaxSize) :
    KernelFile valid (bootElf contents) kernel second 1 := by
  obtain ⟨⟨h1, h2, h3, h4, h5, h6, h7, h8⟩, ⟨hent, htable, hstrings, hterm⟩, hlt, hnamed, hnull,
    hinside, hslice⟩ := h
  refine ⟨⟨⟨h1, h2, h3, h4, h5, h6, h7, h8⟩, hent, htable, hstrings, fun _ => hterm⟩, hlt, hnamed,
    fun j hj => ?_, hinside, ⟨s, pad, rest, ?_⟩, hmz, hfits⟩
  · rwa [Nat.lt_one_iff.mp hj]
  · rwa [hslice]

/-- A section with both streams and padding between them. -/
def bothContents : List UInt8 := mzStream ++ (List.replicate 3 0 ++ (cpioStream ++ [1, 2]))

/-- Both streams of a boot ELF are extracted. -/
theorem extract_both : extractKernelAndInitrd bootEnv (bootElf bothContents)
    = .ok ⟨.success, some [0x4D, 0x5A], 2, some cpioMagic, 6⟩ := by
  have hlayout : BootLayout bothContents := by decide +kernel
  have hcontents : InitrdContents (fun s out => (s, out) ∈ bootStreams) bothContents [0x4D, 0x5A]
      (some cpioMagic) mzStream 3 (cpioStream ++ [1, 2]) :=
    ⟨rfl, List.mem_cons_self .., .stream [1, 2] (List.mem_cons_of_mem _ (List.mem_cons_self ..))
      (by decide)⟩
  have hlen : (bootElf bothContents).length < 2 ^ 63 := by decide +kernel
  exact (extractKernelAndInitrd_iff bootEnv_contract bootEnv_allocates hlen
    (hlayout.file hcontents rfl (by decide))).1.mpr (.inl (by decide))

def farContents : List UInt8 := farStream ++ (List.replicate 0 0 ++ [1, 2])

/-- A boot ELF whose kernel is read outside its image. -/
theorem extract_far_fails : XzContract bootEnv (fun s out => (s, out) ∈ bootStreams)
    ∧ Allocates bootEnv
    ∧ KernelFile (fun s out => (s, out) ∈ bootStreams) (bootElf farContents) farImage none 1
    ∧ extractKernelAndInitrd bootEnv (bootElf farContents) ≠ .ok (.expected farImage none) := by
  have hlayout : BootLayout farContents := by decide +kernel
  have hcontents : InitrdContents (fun s out => (s, out) ∈ bootStreams) farContents farImage none
      farStream 0 [1, 2] :=
    ⟨rfl, List.mem_cons_of_mem _ (List.mem_cons_of_mem _ (List.mem_cons_self ..)), .none (by decide)⟩
  have hfile := hlayout.file hcontents rfl (by decide)
  have hlen : (bootElf farContents).length < 2 ^ 63 := by decide +kernel
  have hdos : ¬ farImage.length < 0x40 := by decide
  have hoff : ¬ peOffset farImage < 2 ^ 32 - 24 := by decide
  refine ⟨bootEnv_contract, bootEnv_allocates, hfile, fun h => ?_⟩
  exact ((extracts_cond bootEnv_contract bootEnv_allocates hlen hfile).mp h).elim hdos hoff

end Ccr2004
