import Ccr2004.LoaderSteps

/-!
# Loading an image is safe

What the loader's checks on the headers are worth, for every content of the
slot. `Fits` is what `ValidateProgramHeaders` establishes of one segment; a
segment that fits is loaded inside its own range, which is apart from the
reserved one, so that the headers are still there for the next segment.

The checks bound every sum but one. `CleanInvalidateDataCacheRange` rounds
the end of a segment up to a cache line, and a segment that ends in the last
line of the address space passes the checks and wraps there. `lineWraps` is
that case.
-/

namespace Ccr2004

/-! ## The slot -/

/-- The ELF header in the slot. -/
def slotEhdr (flash : Memory UInt8) : Elf64Ehdr := readEhdr flash 0x800000

/-- The program header with the given index in the slot. -/
def slotPhdr (flash : Memory UInt8) (i : Nat) : Elf64Phdr :=
  readPhdr flash (0x800000 + (slotEhdr flash).phoff.toNat + phdrSize * i)

/-- The first `n` program headers that are to be loaded. -/
def slotSegments (flash : Memory UInt8) (n : Nat) : List Elf64Phdr :=
  ((List.range n).map (slotPhdr flash)).filter (·.type = ptLoad)

/-- What a segment looks like in memory: its file bytes, then zeros. -/
def segmentBytes (flash : Memory UInt8) (ph : Elf64Phdr) : List UInt8 :=
  flash.read (0x800000 + ph.offset.toNat) ph.filesz.toNat
    ++ List.replicate (ph.memsz.toNat - ph.filesz.toNat) 0

/-- The addresses no segment may touch. -/
def LoaderLayout.Reserved (L : LoaderLayout) (x : Nat) : Prop :=
  spiloaderLoadAddr.toNat ≤ x ∧ x < L.stackTop.toNat

/-- The end of the segment does not round up to a cache line. -/
def lineWraps (ctr : UInt64) (ph : Elf64Phdr) : Prop :=
  ph.memsz ≠ 0 ∧
    2 ^ 64 ≤ ph.target.toNat + ph.memsz.toNat + (cacheLineBytes ctr).toNat

instance (ctr : UInt64) (ph : Elf64Phdr) : Decidable (lineWraps ctr ph) :=
  inferInstanceAs (Decidable (_ ∧ _))

/-- What validation establishes of a segment. -/
structure Fits (L : LoaderLayout) (ph : Elf64Phdr) : Prop where
  filesz_le : ph.filesz.toNat ≤ ph.memsz.toNat
  target_lt : ph.target.toNat + ph.memsz.toNat < 2 ^ 64
  file_le : ph.offset.toNat + ph.filesz.toNat ≤ 8388608
  apart : ∀ x, ph.target.toNat ≤ x → x < ph.target.toNat + ph.memsz.toNat →
    ¬ L.Reserved x

theorem length_segmentBytes {L : LoaderLayout} {ph : Elf64Phdr} (h : Fits L ph)
    (flash : Memory UInt8) : (segmentBytes flash ph).length = ph.memsz.toNat := by
  have hle := h.filesz_le
  rw [segmentBytes, List.length_append, Memory.length_read, List.length_replicate]
  omega

theorem getElem_segmentBytes (flash : Memory UInt8) (ph : Elf64Phdr) {k : Nat}
    (hk : k < (segmentBytes flash ph).length) :
    (segmentBytes flash ph)[k] =
      if k < ph.filesz.toNat then flash (0x800000 + ph.offset.toNat + k) else 0 := by
  simp only [segmentBytes]
  split
  · rename_i h
    rw [List.getElem_append_left (by simpa using h), Memory.getElem_read]
  · rename_i h
    rw [List.getElem_append_right (by simpa using h), List.getElem_replicate]

namespace Machine

/-! ## Validation -/

/-- Ranges that do not wrap overlap when they share an address. -/
theorem rangeOverlaps_spec (m : Machine) {startA sizeA : UInt64} (startB sizeB : UInt64)
    (hA : startA.toNat + sizeA.toNat < 2 ^ 64) (hB : startB.toNat + sizeB.toNat < 2 ^ 64) :
    ∃ b, m.rangeOverlaps startA sizeA startB sizeB = (b, m)
      ∧ (b = false → ∀ x, startA.toNat ≤ x → x < startA.toNat + sizeA.toNat →
          ¬ (startB.toNat ≤ x ∧ x < startB.toNat + sizeB.toNat)) := by
  rw [rangeOverlaps]
  by_cases hempty : sizeA = 0 ∨ sizeB = 0
  · refine ⟨false, if_pos hempty, ?_⟩
    intro _ x hx hx'
    rcases hempty with rfl | rfl
    · rw [UInt64.toNat_zero] at hx'
      omega
    · rw [UInt64.toNat_zero]
      omega
  · have hendA : (startA + sizeA).toNat = startA.toNat + sizeA.toNat := by
      rw [UInt64.toNat_add]
      omega
    have hendB : (startB + sizeB).toNat = startB.toNat + sizeB.toNat := by
      rw [UInt64.toNat_add]
      omega
    have hfits : ¬ (startA + sizeA < startA ∨ startB + sizeB < startB) := by
      rw [UInt64.lt_iff_toNat_lt, UInt64.lt_iff_toNat_lt]
      omega
    rw [if_neg hempty, add64_ok _ hA]
    dsimp only
    rw [add64_ok _ hB]
    dsimp only
    rw [if_neg hfits]
    refine ⟨_, rfl, ?_⟩
    intro hb x hx hx'
    simp only [Bool.not_eq_false', Bool.or_eq_true, decide_eq_true_eq,
      UInt64.le_iff_toNat_le] at hb
    omega

/-- A sum that does not come out smaller than its first part has not
wrapped. -/
theorem add64_of_not_lt (m : Machine) {x y : UInt64} (h : ¬ x + y < x) :
    m.add64 x y = (x + y, m) ∧ x.toNat + y.toNat < 2 ^ 64 := by
  rw [UInt64.lt_iff_toNat_lt, UInt64.toNat_add] at h
  have hx := x.toNat_lt
  have hy := y.toNat_lt
  have hlt : x.toNat + y.toNat < 2 ^ 64 := by omega
  exact ⟨add64_ok m hlt, hlt⟩

theorem reserved_sum (L : LoaderLayout) :
    spiloaderLoadAddr.toNat + (L.stackTop - spiloaderLoadAddr).toNat =
      L.stackTop.toNat := by
  have h₁ := L.load_le
  have h₂ := L.table_le
  have h₃ := L.header_le
  rw [UInt64.toNat_sub_of_le _ _ (UInt64.le_iff_toNat_le.mpr (by omega))]
  omega

/-- What the validation loop keeps: the machine as it was, and every segment
seen so far fits. -/
structure ValidateInv (L : LoaderLayout) (m : Machine) (st : ValidateState) : Prop where
  machine : st.machine = m
  fits : ∀ j, j < st.index.toNat →
    (readPhdr m.mem (L.mProgramHeaders + phdrSize * j)).type = ptLoad →
    Fits L (readPhdr m.mem (L.mProgramHeaders + phdrSize * j))

/-- Every header of the table that is to be loaded fits. -/
def TableFits (L : LoaderLayout) (m : Machine) : Prop :=
  ∀ j, j < (readEhdr m.mem L.header).phnum.toNat →
    (readPhdr m.mem (L.mProgramHeaders + phdrSize * j)).type = ptLoad →
    Fits L (readPhdr m.mem (L.mProgramHeaders + phdrSize * j))

theorem ValidateInv.next {L : LoaderLayout} {m : Machine} {st : ValidateState}
    (hst : ValidateInv L m st) (hidx : st.index < (readEhdr m.mem L.header).phnum)
    {highest : UInt64}
    (hph : (readPhdr m.mem (L.mProgramHeaders + phdrSize * st.index.toNat)).type = ptLoad →
      Fits L (readPhdr m.mem (L.mProgramHeaders + phdrSize * st.index.toNat))) :
    ValidateInv L m { index := st.index + 1, highest := highest, machine := m } := by
  have hnum := (readEhdr m.mem L.header).phnum.toNat_lt
  rw [UInt16.lt_iff_toNat_lt] at hidx
  refine ⟨rfl, ?_⟩
  intro j hj
  rw [UInt16.toNat_add, show (1 : UInt16).toNat = 1 from rfl,
    Nat.mod_eq_of_lt (by omega)] at hj
  rcases Nat.lt_succ_iff_lt_or_eq.mp hj with hlt | rfl
  · exact hst.fits j hlt
  · exact hph

theorem validateRound_spec {L : LoaderLayout} {m : Machine} {st : ValidateState}
    {c : Flow ValidateState (Option UInt64 × Machine)} (hst : ValidateInv L m st)
    (hc : validateRound L spiloaderLoadAddr (L.stackTop - spiloaderLoadAddr) st = .ok c) :
    c.Post (ValidateInv L m)
      (fun r => ∀ h, r.1 = some h → r.2 = m ∧ TableFits L m) := by
  obtain ⟨rfl, hfits⟩ := id hst
  rw [validateRound] at hc
  dsimp only at hc
  by_cases hidx : st.index < (readEhdr st.machine.mem L.header).phnum
  · rw [if_pos hidx] at hc
    set ph := readPhdr st.machine.mem (L.mProgramHeaders + phdrSize * st.index.toNat)
      with hph
    by_cases hload : ph.type ≠ ptLoad
    · rw [if_pos hload] at hc
      obtain rfl := Except.ok.inj hc
      exact hst.next hidx fun h => absurd h hload
    rw [if_neg hload] at hc
    by_cases hsize : ph.memsz < ph.filesz
    · rw [if_pos hsize] at hc
      obtain rfl := Except.ok.inj hc
      simp
    rw [if_neg hsize] at hc
    by_cases hwrap : ph.target + ph.memsz < ph.target ∨ ph.offset + ph.filesz < ph.offset
    · have hsum : ∀ (m : Machine) (x y : UInt64), (m.add64 x y).1 = x + y := fun _ _ _ => rfl
      rw [hsum, hsum, if_pos hwrap] at hc
      obtain rfl := Except.ok.inj hc
      simp
    rw [not_or] at hwrap
    obtain ⟨hend, htarget⟩ := st.machine.add64_of_not_lt hwrap.1
    obtain ⟨hfile, hfileLt⟩ := st.machine.add64_of_not_lt hwrap.2
    rw [hend] at hc
    dsimp only at hc
    rw [hfile] at hc
    dsimp only at hc
    rw [if_neg (by rw [not_or]; exact hwrap)] at hc
    by_cases himage : ph.offset + ph.filesz > spiloaderMaxImageSize
    · rw [if_pos himage] at hc
      obtain rfl := Except.ok.inj hc
      simp
    rw [if_neg himage] at hc
    have hres := reserved_sum L
    obtain ⟨b, hoverlaps, hapart⟩ := st.machine.rangeOverlaps_spec spiloaderLoadAddr
      (L.stackTop - spiloaderLoadAddr) htarget (by rw [hres]; exact L.stackTop.toNat_lt)
    rw [hoverlaps] at hc
    cases b with
    | true =>
        obtain rfl := Except.ok.inj hc
        simp
    | false =>
        obtain rfl := Except.ok.inj hc
        refine hst.next hidx fun _ => ?_
        change Fits L ph
        rw [UInt64.lt_iff_toNat_lt] at hsize
        rw [gt_iff_lt, UInt64.lt_iff_toNat_lt, UInt64.toNat_add, Nat.mod_eq_of_lt hfileLt,
          show spiloaderMaxImageSize.toNat = 8388608 from rfl] at himage
        refine ⟨by omega, htarget, by omega, ?_⟩
        intro x hx hx'
        rw [LoaderLayout.Reserved, ← hres]
        exact hapart rfl x hx hx'
  · rw [if_neg hidx] at hc
    obtain rfl := Except.ok.inj hc
    rintro h -
    refine ⟨rfl, ?_⟩
    intro j hj
    rw [UInt16.lt_iff_toNat_lt] at hidx
    exact hfits j (by omega)

/-- Validation that succeeds has changed nothing, and every segment fits. -/
theorem validateProgramHeaders_spec {L : LoaderLayout} {m m' : Machine} {highest : UInt64}
    (hsum : (readEhdr m.mem L.header).phoff.toNat
      + (readEhdr m.mem L.header).tableSize.toNat < 2 ^ 64)
    (h : m.validateProgramHeaders L spiloaderLoadAddr (L.stackTop - spiloaderLoadAddr) =
      .ok (some highest, m')) : m' = m ∧ TableFits L m := by
  rw [validateProgramHeaders] at h
  dsimp only at h
  rw [add64_ok m hsum] at h
  have hstart : ValidateInv L m
      { index := 0
        highest := (readEhdr m.mem L.header).phoff + (readEhdr m.mem L.header).tableSize
        machine := m } :=
    ⟨rfl, fun j hj => absurd hj (Nat.not_lt_zero j)⟩
  exact loopFuel_post (I := ValidateInv L m)
    (E := fun r => ∀ h, r.1 = some h → r.2 = m ∧ TableFits L m)
    (fun st c hst hc => validateRound_spec hst hc) hstart h highest rfl

theorem toNat_tableSize (h : Elf64Ehdr) : h.tableSize.toNat = phdrSize * h.phnum.toNat := by
  have hnum := h.phnum.toNat_lt
  rw [Elf64Ehdr.tableSize, UInt64.toNat_mul, UInt16.toNat_toUInt64,
    show (56 : UInt64).toNat = 56 from rfl, phdrSize]
  omega

theorem validateElfHeader_spec {m m' : Machine} {a : Nat}
    (h : m.validateElfHeader a = (0, m')) :
    m' = m ∧ (readEhdr m.mem a).phnum.toNat ≤ 32
      ∧ (readEhdr m.mem a).phoff.toNat + (readEhdr m.mem a).tableSize.toNat ≤ 8388608 := by
  rw [validateElfHeader] at h
  dsimp only at h
  set header := readEhdr m.mem a with hheader
  split_ifs at h with hmagic hclass hmachine hoff hend
  · exact absurd (congrArg Prod.fst h) (by simp)
  · exact absurd (congrArg Prod.fst h) (by simp)
  · exact absurd (congrArg Prod.fst h) (by simp)
  · exact absurd (congrArg Prod.fst h) (by simp)
  · exact absurd (congrArg Prod.fst h) (by simp)
  · simp only [not_or] at hmachine
    have hnum := hmachine.2.2.2.2.2
    rw [gt_iff_lt, UInt16.lt_iff_toNat_lt,
      show spiloaderPhdrLimit.toNat = 32 from rfl] at hnum
    rw [gt_iff_lt, UInt64.lt_iff_toNat_lt,
      show spiloaderMaxImageSize.toNat = 8388608 from rfl] at hoff
    have hsize := toNat_tableSize header
    rw [phdrSize] at hsize
    rw [add64_ok m (by omega)] at h hend
    dsimp only at hend
    rw [gt_iff_lt, UInt64.lt_iff_toNat_lt, UInt64.toNat_add, Nat.mod_eq_of_lt (by omega),
      show spiloaderMaxImageSize.toNat = 8388608 from rfl] at hend
    exact ⟨(congrArg Prod.snd h).symm, by omega, by omega⟩

/-! ## The headers in memory -/

/-- What holds when the loading loop begins: the headers of the slot are in
memory, and every segment fits. -/
structure HeadersRead (L : LoaderLayout) (m m' : Machine) : Prop where
  effect : Effect m m' (Set.Ico L.mProgramHeaders L.stackTop.toNat)
  sums : m'.wrapped = m.wrapped
  ehdr : readEhdr m'.mem L.header = slotEhdr m.spi.flash.cells
  phdr : ∀ j, j < (slotEhdr m.spi.flash.cells).phnum.toNat →
    readPhdr m'.mem (L.mProgramHeaders + phdrSize * j) = slotPhdr m.spi.flash.cells j
  phnum_le : (slotEhdr m.spi.flash.cells).phnum.toNat ≤ 32
  fits : TableFits L m'

/-- The ELF header is the slot's once it has been copied. -/
theorem readEhdr_copied (mem cells : Memory UInt8) (dst : Nat) :
    readEhdr (mem.write dst (cells.read 0x800000 64)) dst = slotEhdr cells := by
  have hcopy := Memory.read_write_read mem cells dst 0x800000 (n := 64) (k := 0) (l := 64)
    (by omega)
  rw [readEhdr, slotEhdr, readEhdr, show ehdrSize = 64 from rfl]
  exact congrArg decodeEhdr hcopy

/-- So is each program header of a table that has been copied. -/
theorem readPhdr_copied (mem cells : Memory UInt8) (dst : Nat) {size j : Nat}
    (h : phdrSize * j + phdrSize ≤ size) :
    readPhdr (mem.write dst (cells.read (0x800000 + (slotEhdr cells).phoff.toNat) size))
      (dst + phdrSize * j) = slotPhdr cells j := by
  have hcopy := Memory.read_write_read mem cells dst (0x800000 + (slotEhdr cells).phoff.toNat)
    (n := size) (k := phdrSize * j) (l := phdrSize) h
  rw [readPhdr, slotPhdr, readPhdr]
  exact congrArg decodePhdr hcopy

/-- The first read of `readHeaders` brings the ELF header to the stack. -/
theorem readHeader_spec {L : LoaderLayout} {m m₁ : Machine}
    (h : m.spiFlashRead ccr2004SpiFlashOffset (UInt64.ofNat L.header) 64 = .ok (0, m₁)) :
    Effect m m₁ (Set.Ico L.header (L.header + 64)) ∧ m₁.wrapped = m.wrapped
      ∧ readEhdr m₁.mem L.header = slotEhdr m.spi.flash.cells := by
  have hheader := L.header_le
  have htop := L.stackTop.toNat_lt
  have hE : ehdrSize = 64 := rfl
  have hhdr : (UInt64.ofNat L.header).toNat = L.header :=
    UInt64.toNat_ofNat_of_lt' (show L.header < 18446744073709551616 by omega)
  have hbase : ccr2004SpiFlashOffset.toNat = 0x800000 := rfl
  have hsixtyfour : (64 : UInt64).toNat = 64 := rfl
  obtain ⟨r, hread, heff, hsums, hmem⟩ :=
    m.spiFlashRead_spec ccr2004SpiFlashOffset (UInt64.ofNat L.header) 64 (by omega) (by omega)
      (by omega)
  obtain rfl := Except.ok.inj (hread.symm.trans h)
  have hmem := hmem rfl
  rw [hhdr, hbase, hsixtyfour] at hmem
  rw [hhdr, hsixtyfour] at heff
  refine ⟨heff, hsums, ?_⟩
  dsimp only at hmem
  rw [hmem]
  exact readEhdr_copied m.mem m.spi.flash.cells L.header

/-- The second brings the table to `.bss`, below the header. -/
theorem readTable_spec {L : LoaderLayout} {m m₁ : Machine} {eh : Elf64Ehdr}
    (heh : eh = slotEhdr m.spi.flash.cells) (hnum : eh.phnum.toNat ≤ 32)
    (hoff : eh.phoff.toNat + eh.tableSize.toNat ≤ 8388608)
    (h : m.spiFlashRead (ccr2004SpiFlashOffset + eh.phoff.toUInt32)
      (UInt64.ofNat L.mProgramHeaders) eh.tableSize = .ok (0, m₁)) :
    Effect m m₁ (Set.Ico L.mProgramHeaders L.header) ∧ m₁.wrapped = m.wrapped
      ∧ readEhdr m₁.mem L.header = readEhdr m.mem L.header
      ∧ ∀ j, j < eh.phnum.toNat →
        readPhdr m₁.mem (L.mProgramHeaders + phdrSize * j) =
          slotPhdr m.spi.flash.cells j := by
  have htable := L.table_le
  have hheader := L.header_le
  have htop := L.stackTop.toNat_lt
  have hP : phdrSize = 56 := rfl
  have hsize := toNat_tableSize eh
  rw [hP] at hsize
  have htab : (UInt64.ofNat L.mProgramHeaders).toNat = L.mProgramHeaders :=
    UInt64.toNat_ofNat_of_lt' (show L.mProgramHeaders < 18446744073709551616 by omega)
  have hcast : eh.phoff.toUInt32.toNat = eh.phoff.toNat := by
    rw [UInt64.toNat_toUInt32]
    omega
  have hsum : (ccr2004SpiFlashOffset + eh.phoff.toUInt32).toNat =
      0x800000 + eh.phoff.toNat := by
    rw [UInt32.toNat_add, hcast, show ccr2004SpiFlashOffset.toNat = 0x800000 from rfl]
    omega
  obtain ⟨r, hread, heff, hsums, hmem⟩ :=
    m.spiFlashRead_spec (ccr2004SpiFlashOffset + eh.phoff.toUInt32)
      (UInt64.ofNat L.mProgramHeaders) eh.tableSize (by omega) (by omega) (by omega)
  obtain rfl := Except.ok.inj (hread.symm.trans h)
  have hmem := hmem rfl
  rw [htab, hsum] at hmem
  rw [htab] at heff
  have heff : Effect m m₁ (Set.Ico L.mProgramHeaders L.header) := by
    refine heff.mono ?_
    intro x hx
    rw [Set.mem_Ico] at hx ⊢
    omega
  refine ⟨heff, hsums, ?_, ?_⟩
  · rw [readEhdr, readEhdr, heff.read_eq]
    intro i hi
    rw [Set.mem_Ico]
    omega
  · intro j hj
    dsimp only at hmem
    rw [hmem, heh]
    exact readPhdr_copied m.mem m.spi.flash.cells L.mProgramHeaders
      (by rw [hP, ← heh]; omega)

theorem readHeaders_spec {L : LoaderLayout} {m m' : Machine} {highest : UInt64}
    (h : m.readHeaders L = .ok (some highest, m')) : HeadersRead L m m' := by
  have htable := L.table_le
  have hheader := L.header_le
  rw [readHeaders] at h
  obtain ⟨⟨r, m₁⟩, hread₁, h⟩ := bind_eq_ok.mp h
  dsimp only at h
  by_cases hr : r ≠ 0
  · rw [if_pos hr] at h
    cases h
  rw [if_neg hr] at h
  obtain rfl := not_not.mp hr
  obtain ⟨heff₁, hsums₁, hehdr₁⟩ := readHeader_spec hread₁
  rcases hvalid : m₁.validateElfHeader L.header with ⟨v, m₂⟩
  rw [hvalid] at h
  dsimp only at h
  by_cases hv : v ≠ 0
  · rw [if_pos hv] at h
    cases h
  rw [if_neg hv] at h
  obtain rfl := not_not.mp hv
  obtain ⟨rfl, hnum, hoff⟩ := validateElfHeader_spec hvalid
  rw [hehdr₁] at h hnum hoff
  rw [← heff₁.flash] at h hnum hoff hehdr₁
  have hcast : (slotEhdr m₂.spi.flash.cells).phoff.toUInt32.toNat =
      (slotEhdr m₂.spi.flash.cells).phoff.toNat := by
    rw [UInt64.toNat_toUInt32]
    omega
  rw [add32_ok _ (by rw [hcast, show ccr2004SpiFlashOffset.toNat = 0x800000 from rfl]; omega)]
    at h
  obtain ⟨⟨r, m₃⟩, hread₃, h⟩ := bind_eq_ok.mp h
  dsimp only at h
  by_cases hr : r ≠ 0
  · rw [if_pos hr] at h
    cases h
  rw [if_neg hr] at h
  obtain rfl := not_not.mp hr
  obtain ⟨heff₃, hsums₃, hehdr₃, hphdr⟩ := readTable_spec rfl hnum hoff hread₃
  rw [hehdr₁] at hehdr₃
  obtain ⟨rfl, hfits⟩ := validateProgramHeaders_spec (by rw [hehdr₃]; omega) h
  rw [heff₁.flash] at hehdr₃ hphdr hnum
  refine ⟨(heff₁.mono ?_).trans (heff₃.mono ?_), hsums₃.trans hsums₁, hehdr₃, hphdr, hnum, hfits⟩
  · intro x hx
    rw [Set.mem_Ico] at hx ⊢
    have hE : ehdrSize = 64 := rfl
    omega
  · intro x hx
    rw [Set.mem_Ico] at hx ⊢
    omega

/-! ## Loading a segment -/

/-- What loading a segment has done when it returns. -/
structure SegmentLoaded (ctr : UInt64) (ph : Elf64Phdr) (m m' : Machine) : Prop where
  effect : Effect m m' (Set.Ico ph.target.toNat (ph.target.toNat + ph.memsz.toNat))
  mem : m'.mem = m.mem.write ph.target.toNat (segmentBytes m.spi.flash.cells ph)
  sums : m'.wrapped = (m.wrapped || decide (lineWraps ctr ph))

/-- The file bytes of a segment, when it has any. -/
theorem loadFileBytes_spec {L : LoaderLayout} {m m' : Machine} {ph : Elf64Phdr}
    (hfits : Fits L ph) (h : m.loadFileBytes ph.target ph = .ok m') :
    Effect m m' (Set.Ico ph.target.toNat (ph.target.toNat + ph.memsz.toNat))
      ∧ m'.wrapped = m.wrapped
      ∧ m'.mem = m.mem.write ph.target.toNat
          (m.spi.flash.cells.read (0x800000 + ph.offset.toNat) ph.filesz.toNat) := by
  obtain ⟨hsize, htarget, hfile, -⟩ := hfits
  have hbase : ccr2004SpiFlashOffset.toNat = 0x800000 := rfl
  rw [loadFileBytes] at h
  by_cases hsome : ph.filesz > 0
  · rw [if_pos hsome] at h
    have hcast : ph.offset.toUInt32.toNat = ph.offset.toNat := by
      rw [UInt64.toNat_toUInt32]
      omega
    have hsum : (ccr2004SpiFlashOffset + ph.offset.toUInt32).toNat =
        0x800000 + ph.offset.toNat := by
      rw [UInt32.toNat_add, hcast, hbase]
      omega
    rw [add32_ok _ (by omega)] at h
    dsimp only at h
    obtain ⟨⟨r, m₁⟩, hread, heff, hsums, hmem⟩ :=
      m.spiFlashRead_spec (ccr2004SpiFlashOffset + ph.offset.toUInt32) ph.target ph.filesz
        (by omega) (by omega) (by omega)
    rw [hread, ok_bind] at h
    dsimp only at h hsums hmem
    by_cases hr : r ≠ 0
    · rw [if_pos hr] at h
      cases h
    rw [if_neg hr] at h
    obtain rfl := Except.ok.inj h
    refine ⟨heff.mono ?_, hsums, ?_⟩
    · intro x hx
      rw [Set.mem_Ico] at hx ⊢
      omega
    · rw [hmem (not_not.mp hr), hsum]
  · rw [if_neg hsome] at h
    obtain rfl := Except.ok.inj h
    rw [gt_iff_lt, UInt64.lt_iff_toNat_lt, UInt64.toNat_zero] at hsome
    refine ⟨Effect.refl _ _, rfl, ?_⟩
    rw [show ph.filesz.toNat = 0 by omega]
    simp [Memory.read]

/-- The zeros of a segment, when it has any. -/
theorem zeroRest_spec {L : LoaderLayout} {m m' : Machine} {ph : Elf64Phdr}
    (hfits : Fits L ph) (h : m.zeroRest ph.target ph = .ok m') :
    Effect m m' (Set.Ico ph.target.toNat (ph.target.toNat + ph.memsz.toNat))
      ∧ m'.wrapped = m.wrapped
      ∧ m'.mem = m.mem.write (ph.target.toNat + ph.filesz.toNat)
          (List.replicate (ph.memsz.toNat - ph.filesz.toNat) 0) := by
  obtain ⟨hsize, htarget, -, -⟩ := hfits
  rw [zeroRest] at h
  by_cases hsome : ph.memsz > ph.filesz
  · rw [if_pos hsome, add64_ok _ (by omega)] at h
    dsimp only at h
    have hleft : (ph.memsz - ph.filesz).toNat = ph.memsz.toNat - ph.filesz.toNat :=
      UInt64.toNat_sub_of_le _ _ (UInt64.le_iff_toNat_le.mpr hsize)
    have hsum : (ph.target + ph.filesz).toNat = ph.target.toNat + ph.filesz.toNat := by
      rw [UInt64.toNat_add]
      omega
    obtain ⟨m₁, hset, heff, hsums, hmem⟩ := m.memSet_spec (ph.target + ph.filesz)
      (ph.memsz - ph.filesz) 0 (by omega)
    rw [hset] at h
    obtain rfl := Except.ok.inj h
    rw [hsum, hleft] at hmem heff
    refine ⟨heff.mono ?_, hsums, hmem⟩
    intro x hx
    rw [Set.mem_Ico] at hx ⊢
    omega
  · rw [if_neg hsome] at h
    obtain rfl := Except.ok.inj h
    rw [gt_iff_lt, UInt64.lt_iff_toNat_lt] at hsome
    refine ⟨Effect.refl _ _, rfl, ?_⟩
    rw [show ph.memsz.toNat - ph.filesz.toNat = 0 by omega, List.replicate_zero,
      Memory.write_nil]

/-- A segment that fits is loaded into its own range. -/
theorem loadSegment_spec {L : LoaderLayout} {ctr : UInt64} {m m' : Machine} {a : Nat}
    (hfits : Fits L (readPhdr m.mem a))
    (ha : ∀ i, i < phdrSize → L.Reserved (a + i)) (h : m.loadSegment ctr a = .ok m') :
    SegmentLoaded ctr (readPhdr m.mem a) m m' := by
  have hkeep : ∀ {m₁ : Machine},
      Effect m m₁ (Set.Ico (readPhdr m.mem a).target.toNat
        ((readPhdr m.mem a).target.toNat + (readPhdr m.mem a).memsz.toNat)) →
      readPhdr m₁.mem a = readPhdr m.mem a := by
    intro m₁ heff
    rw [readPhdr, readPhdr, heff.read_eq]
    intro i hi hin
    exact hfits.apart _ hin.1 hin.2 (ha i hi)
  rw [loadSegment] at h
  obtain ⟨m₁, hread, h⟩ := bind_eq_ok.mp h
  obtain ⟨heff₁, hsums₁, hmem₁⟩ := loadFileBytes_spec hfits hread
  rw [hkeep heff₁] at h
  obtain ⟨m₂, hzero, h⟩ := bind_eq_ok.mp h
  obtain ⟨heff₂, hsums₂, hmem₂⟩ := zeroRest_spec hfits hzero
  rw [hkeep (heff₁.trans heff₂)] at h
  obtain ⟨m₃, hcache, hm₃⟩ :=
    m₂.cleanInvalidateDataCacheRange_spec ctr hfits.target_lt
  rw [hcache] at h
  obtain rfl := Except.ok.inj h
  rw [hm₃]
  constructor
  · exact (heff₁.trans heff₂).trans
      ⟨rfl, ⟨[], by simp⟩, ⟨[], by simp⟩, fun _ _ => rfl⟩
  · dsimp only
    rw [hmem₂, hmem₁, segmentBytes, Memory.write_append, Memory.length_read]
  · dsimp only
    rw [hsums₂, hsums₁]
    rfl

/-! ## The loading loop -/

theorem slotSegments_succ (flash : Memory UInt8) (n : Nat) :
    slotSegments flash (n + 1) = slotSegments flash n
      ++ (if (slotPhdr flash n).type = ptLoad then [slotPhdr flash n] else []) := by
  rw [slotSegments, List.range_succ, List.map_append, List.filter_append, slotSegments]
  congr 1
  by_cases h : (slotPhdr flash n).type = ptLoad
  · simp [h]
  · simp [h]

/-- The memory with the segments of `l` written over `mem` in order. -/
def withSegments (flash : Memory UInt8) (mem : Memory UInt8) (l : List Elf64Phdr) :
    Memory UInt8 :=
  l.foldl (fun mem ph => mem.write ph.target.toNat (segmentBytes flash ph)) mem

theorem withSegments_concat (flash mem : Memory UInt8) (l : List Elf64Phdr)
    (ph : Elf64Phdr) : withSegments flash mem (l ++ [ph]) =
      (withSegments flash mem l).write ph.target.toNat (segmentBytes flash ph) := by
  rw [withSegments, List.foldl_append]
  rfl

/-- What the loading loop has done before the header `index`. -/
structure LoadInv (L : LoaderLayout) (ctr : UInt64) (flash : Memory UInt8) (m : Machine)
    (st : UInt16 × Machine) : Prop where
  index_le : st.1.toNat ≤ (slotEhdr flash).phnum.toNat
  effect : Effect m st.2 {x | ¬ L.Reserved x}
  mem : st.2.mem = withSegments flash m.mem (slotSegments flash st.1.toNat)
  sums : st.2.wrapped = true ↔
    m.wrapped = true ∨ ∃ ph ∈ slotSegments flash st.1.toNat, lineWraps ctr ph

/-- What holds when the loop is over. -/
structure Loaded (L : LoaderLayout) (ctr : UInt64) (flash : Memory UInt8)
    (m m' : Machine) : Prop where
  effect : Effect m m' {x | ¬ L.Reserved x}
  mem : m'.mem =
    withSegments flash m.mem (slotSegments flash (slotEhdr flash).phnum.toNat)
  sums : m'.wrapped = true ↔ m.wrapped = true
    ∨ ∃ ph ∈ slotSegments flash (slotEhdr flash).phnum.toNat, lineWraps ctr ph

theorem reserved_of_le (L : LoaderLayout) {x : Nat} (h : L.mProgramHeaders ≤ x)
    (h' : x < L.stackTop.toNat) : L.Reserved x :=
  ⟨Nat.le_trans L.load_le h, h'⟩

/-- A header that is not to be loaded changes nothing. -/
theorem LoadInv.skip {L : LoaderLayout} {ctr : UInt64} {flash : Memory UInt8}
    {m m₁ : Machine} {index index' : UInt16} (hst : LoadInv L ctr flash m (index, m₁))
    (hnext : index'.toNat = index.toNat + 1)
    (hmore : index.toNat < (slotEhdr flash).phnum.toNat)
    (hload : (slotPhdr flash index.toNat).type ≠ ptLoad) :
    LoadInv L ctr flash m (index', m₁) := by
  obtain ⟨hidx, heff, hmem, hsums⟩ := hst
  have hsucc := slotSegments_succ flash index.toNat
  rw [if_neg hload, List.append_nil, ← hnext] at hsucc
  exact ⟨by dsimp only; omega, heff, by rw [hsucc]; exact hmem,
    by rw [hsucc]; exact hsums⟩

/-- A segment that was loaded is one more segment of the image. -/
theorem LoadInv.load {L : LoaderLayout} {ctr : UInt64} {flash : Memory UInt8}
    {m m₁ m₂ : Machine} {index index' : UInt16}
    (hst : LoadInv L ctr flash m (index, m₁)) (hnext : index'.toNat = index.toNat + 1)
    (hmore : index.toNat < (slotEhdr flash).phnum.toNat)
    (hload : (slotPhdr flash index.toNat).type = ptLoad)
    (hfits : Fits L (slotPhdr flash index.toNat)) (hcells : m₁.spi.flash.cells = flash)
    (hdone : SegmentLoaded ctr (slotPhdr flash index.toNat) m₁ m₂) :
    LoadInv L ctr flash m (index', m₂) := by
  obtain ⟨hidx, heff, hmem, hsums⟩ := hst
  have hsucc := slotSegments_succ flash index.toNat
  rw [if_pos hload, ← hnext] at hsucc
  refine ⟨by dsimp only; omega, heff.trans (hdone.effect.mono ?_), ?_, ?_⟩
  · intro x hx
    exact hfits.apart x hx.1 hx.2
  · dsimp only at hmem ⊢
    rw [hsucc, withSegments_concat, hdone.mem, hmem, hcells]
  · dsimp only at hsums ⊢
    rw [hsucc, hdone.sums, Bool.or_eq_true, hsums, decide_eq_true_eq]
    simp only [List.mem_append, List.mem_singleton]
    constructor
    · rintro ((h | ⟨ph, hph, h⟩) | h)
      · exact Or.inl h
      · exact Or.inr ⟨ph, Or.inl hph, h⟩
      · exact Or.inr ⟨_, Or.inr rfl, h⟩
    · rintro (h | ⟨ph, hph | rfl, h⟩)
      · exact Or.inl (Or.inl h)
      · exact Or.inl (Or.inr ⟨ph, hph, h⟩)
      · exact Or.inr h

theorem loadRound_spec {L : LoaderLayout} {ctr : UInt64} {m₀ m : Machine}
    (hread : HeadersRead L m₀ m) {st : UInt16 × Machine}
    {c : Flow (UInt16 × Machine) Machine}
    (hst : LoadInv L ctr m₀.spi.flash.cells m st) (hc : loadRound L ctr st = .ok c) :
    c.Post (LoadInv L ctr m₀.spi.flash.cells m) (Loaded L ctr m₀.spi.flash.cells m) := by
  obtain ⟨index, m₁⟩ := st
  obtain ⟨hidx, heff, hmem, hsums⟩ := id hst
  dsimp only at hidx heff hmem hsums
  set flash := m₀.spi.flash.cells with hflash
  have htable := L.table_le
  have hheader := L.header_le
  have hE : ehdrSize = 64 := rfl
  have hP : phdrSize = 56 := rfl
  have hnum := hread.phnum_le
  have hehdr : readEhdr m₁.mem L.header = slotEhdr flash := by
    rw [← hread.ehdr, readEhdr, readEhdr, heff.read_eq]
    intro i hi hout
    exact hout (reserved_of_le L (by omega) (by omega))
  rw [loadRound] at hc
  dsimp only at hc
  rw [hehdr] at hc
  by_cases hmore : index < (slotEhdr flash).phnum
  · rw [if_pos hmore] at hc
    rw [UInt16.lt_iff_toNat_lt] at hmore
    change (slotEhdr flash).phnum.toNat ≤ 32 at hnum
    have hplace : ∀ i, i < phdrSize →
        L.Reserved (L.mProgramHeaders + phdrSize * index.toNat + i) := by
      intro i hi
      rw [hP] at hi htable ⊢
      exact reserved_of_le L (by omega) (by omega)
    have hphdr : readPhdr m₁.mem (L.mProgramHeaders + phdrSize * index.toNat) =
        slotPhdr flash index.toNat := by
      rw [← hread.phdr _ hmore, readPhdr, readPhdr, heff.read_eq]
      intro i hi hout
      exact hout (hplace i hi)
    have hnext : (index + 1).toNat = index.toNat + 1 := by
      rw [UInt16.toNat_add, show (1 : UInt16).toNat = 1 from rfl]
      omega
    rw [hphdr] at hc
    by_cases hload : (slotPhdr flash index.toNat).type ≠ ptLoad
    · rw [if_pos hload] at hc
      obtain rfl := Except.ok.inj hc
      exact hst.skip hnext hmore hload
    · rw [if_neg hload] at hc
      rw [not_not] at hload
      obtain ⟨m₂, hseg, hc⟩ := bind_eq_ok.mp hc
      obtain rfl := Except.ok.inj hc
      have hrow := hread.phdr _ hmore
      have hfits : Fits L (slotPhdr flash index.toNat) := by
        rw [← hrow]
        refine hread.fits _ (by rw [hread.ehdr]; exact hmore) ?_
        rw [hrow]
        exact hload
      have hdone := loadSegment_spec (by rw [hphdr]; exact hfits) hplace hseg
      rw [hphdr] at hdone
      have hcells : m₁.spi.flash.cells = flash := by
        rw [heff.flash, hread.effect.flash]
      exact hst.load hnext hmore hload hfits hcells hdone
  · rw [if_neg hmore] at hc
    obtain rfl := Except.ok.inj hc
    rw [UInt16.lt_iff_toNat_lt] at hmore
    rw [show index.toNat = (slotEhdr flash).phnum.toNat by omega] at hmem hsums
    exact ⟨heff, hmem, hsums⟩

theorem loadSegments_spec {L : LoaderLayout} {ctr : UInt64} {m₀ m m' : Machine}
    (hread : HeadersRead L m₀ m) (h : m.loadSegments L ctr = .ok m') :
    Loaded L ctr m₀.spi.flash.cells m m' := by
  refine loopFuel_post (I := LoadInv L ctr m₀.spi.flash.cells m)
    (E := Loaded L ctr m₀.spi.flash.cells m)
    (fun st c hst hc => loadRound_spec hread hst hc) ?_ h
  exact ⟨Nat.zero_le _, Effect.refl _ _, rfl, by simp [slotSegments]⟩

/-! ## The whole load -/

/-- The machine before `LoadImageFromFlash`. -/
def boot (outcome : Nat → Outcome) (flash : NorFlash) (mem : Memory UInt8) : Machine where
  spi := { outcome := outcome, flash := flash, log := [] }
  mem := mem
  stores := []
  wrapped := false

/-- What loading does to the flash and to memory. `m` is the machine at the
start, `m'` the one at the end; the segments are loaded from the machine
`readHeaders` leaves. -/
structure CopySafe (L : LoaderLayout) (m m' : Machine) : Prop where
  /-- Every transaction is a read inside the slot. -/
  reads : ∀ t ∈ m'.spi.log, ReadInside t
  /-- No byte stored for a segment is in the reserved range. -/
  stores : ∀ highest m₁, m.readHeaders L = .ok (highest, m₁) →
    ∃ rs, m'.stores = m₁.stores ++ rs
      ∧ ∀ r ∈ rs, ∀ x, r.1 ≤ x → x < r.1 + r.2 → ¬ L.Reserved x
  /-- The reserved range is as it was. -/
  reserved : ∀ highest m₁, m.readHeaders L = .ok (highest, m₁) →
    ∀ x, L.Reserved x → m'.mem x = m₁.mem x
  /-- A segment that no later one overwrites holds its file bytes, then
  zeros. -/
  final : ∀ pre ph post,
    slotSegments m.spi.flash.cells (slotEhdr m.spi.flash.cells).phnum.toNat =
      pre ++ ph :: post →
    ∀ k, k < ph.memsz.toNat →
      (∀ later ∈ post, ph.target.toNat + k < later.target.toNat
        ∨ later.target.toNat + later.memsz.toNat ≤ ph.target.toNat + k) →
      m'.mem (ph.target.toNat + k) =
        if k < ph.filesz.toNat then
          m.spi.flash.cells (0x800000 + ph.offset.toNat + k)
        else 0

/-- Safe loading: besides, no sum has wrapped. -/
structure SafeLoad (L : LoaderLayout) (m m' : Machine) : Prop extends CopySafe L m m' where
  sums : m'.wrapped = false

/-- A load that succeeds has read and checked the headers and run the
loading loop to its end. -/
theorem loadImageFromFlash_spec {L : LoaderLayout} {ctr : UInt64} {m m' : Machine}
    {res : SpiloaderResult} (h : m.loadImageFromFlash L ctr = .ok (some res, m')) :
    ∃ highest m₁, m.readHeaders L = .ok (some highest, m₁) ∧ HeadersRead L m m₁
      ∧ Loaded L ctr m.spi.flash.cells m₁ m' := by
  rw [loadImageFromFlash] at h
  obtain ⟨⟨highest, m₁⟩, hheaders, h⟩ := bind_eq_ok.mp h
  cases highest with
  | none => cases h
  | some highest =>
      have hread := readHeaders_spec hheaders
      obtain ⟨m₂, hsegs, h⟩ := bind_eq_ok.mp h
      obtain ⟨-, rfl⟩ := Prod.mk.inj (Except.ok.inj h)
      exact ⟨highest, m₁, hheaders, hread, loadSegments_spec hread hsegs⟩

/-- The segments of the slot all fit. -/
theorem HeadersRead.fits_slot {L : LoaderLayout} {m m₁ : Machine}
    (hread : HeadersRead L m m₁) {ph : Elf64Phdr}
    (hph : ph ∈ slotSegments m.spi.flash.cells
      (slotEhdr m.spi.flash.cells).phnum.toNat) : Fits L ph := by
  rw [slotSegments, List.mem_filter, List.mem_map] at hph
  obtain ⟨⟨j, hj, rfl⟩, hload⟩ := hph
  rw [List.mem_range] at hj
  rw [← hread.phdr j hj]
  refine hread.fits j (by rw [hread.ehdr]; exact hj) ?_
  rw [hread.phdr j hj]
  exact of_decide_eq_true hload

/-- The copy is safe for every image that loads. -/
theorem loadImageFromFlash_copySafe {L : LoaderLayout} {ctr : UInt64}
    {outcome : Nat → Outcome} {flash : NorFlash} {mem : Memory UInt8}
    {res : SpiloaderResult} {m' : Machine}
    (h : (boot outcome flash mem).loadImageFromFlash L ctr = .ok (some res, m')) :
    CopySafe L (boot outcome flash mem) m' := by
  obtain ⟨highest, m₁, hheaders, hread, heff, hmem, -⟩ := loadImageFromFlash_spec h
  constructor
  · obtain ⟨ts, hts, hin⟩ := hread.effect.reads
    obtain ⟨ts', hts', hin'⟩ := heff.reads
    rw [hts', hts]
    simp only [boot, List.nil_append]
    intro t ht
    rcases List.mem_append.mp ht with ht | ht
    · exact hin t ht
    · exact hin' t ht
  · intro highest' m₂ hrun
    rw [hheaders] at hrun
    obtain ⟨-, rfl⟩ := Prod.mk.inj (Except.ok.inj hrun)
    exact heff.stores
  · intro highest' m₂ hrun x hx
    rw [hheaders] at hrun
    obtain ⟨-, rfl⟩ := Prod.mk.inj (Except.ok.inj hrun)
    exact heff.mem x fun hout => hout hx
  · intro pre ph post hsegs k hk hlater
    have hfits : ∀ ph' ∈ pre ++ ph :: post, Fits L ph' := by
      rw [← hsegs]
      exact fun ph' hph' => hread.fits_slot hph'
    have hlen := length_segmentBytes (hfits ph (by simp)) flash.cells
    change m'.mem = withSegments flash.cells m₁.mem _ at hmem
    rw [hmem, hsegs, withSegments,
      Memory.foldl_write_last (fun ph : Elf64Phdr => ph.target.toNat)
        (segmentBytes flash.cells) (by rw [hlen]; exact hk)]
    · exact getElem_segmentBytes _ _ _
    · intro later hin
      rw [length_segmentBytes (hfits later (by simp [hin]))]
      exact hlater later hin

/-! ## Two images -/

def encodePhdr (ph : Elf64Phdr) : List UInt8 :=
  leBytes 4 ph.type.toNat ++ leBytes 4 0 ++ leBytes 8 ph.offset.toNat
    ++ leBytes 8 ph.vaddr.toNat ++ leBytes 8 ph.paddr.toNat ++ leBytes 8 ph.filesz.toNat
    ++ leBytes 8 ph.memsz.toNat ++ leBytes 8 0

/-- An ELF image with its program headers after the ELF header. -/
def elfImage (entry : UInt64) (phs : List Elf64Phdr) : List UInt8 :=
  [0x7f, 0x45, 0x4C, 0x46, 2, 1, 1] ++ List.replicate 9 0 ++ leBytes 2 2 ++ leBytes 2 183
    ++ leBytes 4 1 ++ leBytes 8 entry.toNat ++ leBytes 8 64 ++ leBytes 8 0 ++ leBytes 4 0
    ++ leBytes 2 64 ++ leBytes 2 56 ++ leBytes 2 phs.length ++ leBytes 6 0
    ++ phs.flatMap encodePhdr

/-- A flash with an image in its slot. -/
def slotFlash (image : List UInt8) : NorFlash where
  cells a := if a < 0x800000 then 0xFF else (image[a - 0x800000]?).getD 0xFF
  wel := false

def quiet : Nat → Outcome := fun _ =>
  { failed := false, latched := false, status := 0, noise := fun _ => 0 }

def sampleLayout : LoaderLayout where
  mProgramHeaders := 0x04010000
  header := 0x04013F00
  stackTop := 0x04014000
  load_le := by decide
  table_le := by decide
  header_le := by decide

/-- A segment at 1 MiB: the first bytes of the file, then zeros. -/
def lowSegment : Elf64Phdr where
  type := 1
  offset := 0
  vaddr := 0
  paddr := 0x100000
  filesz := 4
  memsz := 8

/-- One byte of zeros just below the end of the address space. -/
def topSegment : Elf64Phdr where
  type := 1
  offset := 0
  vaddr := 0
  paddr := 0xFFFFFFFFFFFFFFFE
  filesz := 0
  memsz := 1

/-- A machine with an image of the given segments in the slot. -/
def sampleBoot (phs : List Elf64Phdr) : Machine :=
  boot quiet (slotFlash (elfImage 0x100000 phs)) fun _ => 0xAA

/-- A run whose result and flag are known has succeeded. -/
theorem load_of_map {m : Machine} {L : LoaderLayout} {c : UInt64} {r : SpiloaderResult}
    {w : Bool} (h : (m.loadImageFromFlash L c).map (fun s => (s.1, s.2.wrapped)) =
      .ok (some r, w)) :
    ∃ res m', m.loadImageFromFlash L c = .ok (some res, m') ∧ m'.wrapped = w := by
  cases hrun : m.loadImageFromFlash L c with
  | error e =>
      rw [hrun] at h
      cases h
  | ok s =>
      rw [hrun] at h
      obtain ⟨hres, hw⟩ := Prod.mk.inj (Except.ok.inj h)
      exact ⟨r, s.2, by rw [← hres], hw⟩

/-- Loading is safe exactly when no segment ends in the last cache line of
the address space. -/
theorem loadImageFromFlash_safe_iff (L : LoaderLayout) (ctr : UInt64)
    (outcome : Nat → Outcome) (flash : NorFlash) (mem : Memory UInt8)
    {res : SpiloaderResult} {m' : Machine}
    (h : (boot outcome flash mem).loadImageFromFlash L ctr = .ok (some res, m')) :
    SafeLoad L (boot outcome flash mem) m' ↔
      ∀ ph ∈ slotSegments flash.cells (slotEhdr flash.cells).phnum.toNat,
        ph.memsz ≠ 0 →
          ph.target.toNat + ph.memsz.toNat + (cacheLineBytes ctr).toNat < 2 ^ 64 := by
  obtain ⟨highest, m₁, hheaders, hread, -, -, hsums⟩ := loadImageFromFlash_spec h
  have hstart : m₁.wrapped = false := hread.sums
  change m'.wrapped = true ↔ m₁.wrapped = true ∨
    ∃ ph ∈ slotSegments flash.cells (slotEhdr flash.cells).phnum.toNat,
      lineWraps ctr ph at hsums
  rw [hstart] at hsums
  constructor
  · rintro hsafe ph hph hne
    by_contra hge
    have hwrapped := hsums.mpr (Or.inr ⟨ph, hph, hne, Nat.not_lt.mp hge⟩)
    rw [hsafe.sums] at hwrapped
    cases hwrapped
  · intro hcond
    refine ⟨loadImageFromFlash_copySafe h, ?_⟩
    rw [Bool.eq_false_iff]
    intro hwrapped
    rcases hsums.mp hwrapped with hfalse | ⟨ph, hph, hne, hge⟩
    · cases hfalse
    · have hlt := hcond ph hph hne
      omega

/-- An image with one segment at 1 MiB loads safely. -/
theorem loadImageFromFlash_safe_iff_lowSegment :
    ∃ res m', (sampleBoot [lowSegment]).loadImageFromFlash sampleLayout 0x8444C004 =
        .ok (some res, m')
      ∧ SafeLoad sampleLayout (sampleBoot [lowSegment]) m' := by
  obtain ⟨res, m', hrun, -⟩ := load_of_map (w := false) (m := sampleBoot [lowSegment])
    (L := sampleLayout) (c := 0x8444C004)
    (r := { entryPoint := 0x100000, reservedTop := 0x04014000 }) (by decide +kernel)
  exact ⟨res, m', hrun, (loadImageFromFlash_safe_iff _ _ _ _ _ hrun).mpr
    (by decide +kernel)⟩

/-- A segment that ends in the last cache line loads, and a sum wraps. -/
theorem loadImageFromFlash_wraps :
    ∃ res m', (sampleBoot [topSegment]).loadImageFromFlash sampleLayout 0x8444C004 =
        .ok (some res, m')
      ∧ ¬ SafeLoad sampleLayout (sampleBoot [topSegment]) m' := by
  obtain ⟨res, m', hrun, hwrapped⟩ := load_of_map (w := true)
    (m := sampleBoot [topSegment]) (L := sampleLayout) (c := 0x8444C004)
    (r := { entryPoint := 0x100000, reservedTop := 0x04014000 }) (by decide +kernel)
  refine ⟨res, m', hrun, ?_⟩
  intro hsafe
  rw [hsafe.sums] at hwrapped
  cases hwrapped

end Machine

end Ccr2004
