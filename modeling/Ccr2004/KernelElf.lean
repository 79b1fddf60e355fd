import Ccr2004.KernelExtract

/-!
# The boot ELF is read inside its bounds

The extraction stays inside the file exactly when no sum of offsets that it
compares with the size wraps, no section name it compares runs off the end,
and the file holds at least the program header fields, which are read without
a check of the size. The header checks, the section loop and the loop over the
program headers have a lemma each that says when they stay inside and what
they leave; past them the two searches and the two decompressions have bounds
of their own.
-/

namespace Ccr2004

/-! ## Fields -/

def word8 (data : List UInt8) (off : Nat) : UInt8 := UInt8.ofNat (leNat (slice data off 1))

def word16 (data : List UInt8) (off : Nat) : UInt16 := UInt16.ofNat (leNat (slice data off 2))

def word32 (data : List UInt8) (off : Nat) : UInt32 := UInt32.ofNat (leNat (slice data off 4))

def word64 (data : List UInt8) (off : Nat) : UInt64 := UInt64.ofNat (leNat (slice data off 8))

theorem elfBytes_ok {data : List UInt8} {off n : Nat} (h : off + n ≤ data.length) :
    elfBytes data off n = .ok (slice data off n) := if_pos h

theorem elf8_ok {data : List UInt8} {off : Nat} (h : off + 1 ≤ data.length) :
    elfByte data off = .ok (word8 data off) := by
  rw [elfByte, elfBytes_ok h, ok_bind]
  rfl

theorem elf16_ok {data : List UInt8} {off : Nat} (h : off + 2 ≤ data.length) :
    elf16 data off = .ok (word16 data off) := by
  rw [elf16, elfBytes_ok h, ok_bind]
  rfl

theorem elf32_ok {data : List UInt8} {off : Nat} (h : off + 4 ≤ data.length) :
    elf32 data off = .ok (word32 data off) := by
  rw [elf32, elfBytes_ok h, ok_bind]
  rfl

theorem elf64_ok {data : List UInt8} {off : Nat} (h : off + 8 ≤ data.length) :
    elf64 data off = .ok (word64 data off) := by
  rw [elf64, elfBytes_ok h, ok_bind]
  rfl

theorem elf16_error {data : List UInt8} {off : Nat} (h : data.length < off + 2) :
    elf16 data off = .error .elf := by
  rw [elf16, elfBytes, if_neg (by omega), error_bind]

theorem elf32_error {data : List UInt8} {off : Nat} (h : data.length < off + 4) :
    elf32 data off = .error .elf := by
  rw [elf32, elfBytes, if_neg (by omega), error_bind]

theorem elf64_error {data : List UInt8} {off : Nat} (h : data.length < off + 8) :
    elf64 data off = .error .elf := by
  rw [elf64, elfBytes, if_neg (by omega), error_bind]

/-! ## Range checks -/

/-- The check the code makes of a range. -/
def Passes (data : List UInt8) (off len : UInt64) : Prop := off + len ≤ UInt64.ofNat data.length

instance (data : List UInt8) (off len : UInt64) : Decidable (Passes data off len) :=
  inferInstanceAs (Decidable (off + len ≤ UInt64.ofNat data.length))

/-- The sum of the check is the one over the integers. -/
def NoWrap (off len : UInt64) : Prop := off.toNat + len.toNat < 2 ^ 64

instance (off len : UInt64) : Decidable (NoWrap off len) :=
  inferInstanceAs (Decidable (off.toNat + len.toNat < 2 ^ 64))

section Checks

variable {data : List UInt8} {off len : UInt64}

theorem not_passes : ¬ Passes data off len ↔ off + len > UInt64.ofNat data.length :=
  UInt64.not_le

theorem toNat_length (hn : data.length < 2 ^ 63) :
    (UInt64.ofNat data.length).toNat = data.length := by
  rw [UInt64.toNat_ofNat']
  omega

theorem passes_iff (hn : data.length < 2 ^ 63) (hw : NoWrap off len) :
    Passes data off len ↔ off.toNat + len.toNat ≤ data.length := by
  unfold NoWrap at hw
  rw [Passes, UInt64.le_iff_toNat_le, toNat_length hn, UInt64.toNat_add]
  omega

/-- A header whose sum wraps lies past the end of the file. -/
theorem lt_of_wrap (hn : data.length < 2 ^ 63) (hlen : len.toNat ≤ 64) (hw : ¬ NoWrap off len) :
    data.length < off.toNat := by
  unfold NoWrap at hw
  omega

end Checks

/-! ## Section headers -/

section Sections

variable (data : List UInt8)

/-- The checks of the ELF header. -/
structure HeaderOk : Prop where
  length : 64 ≤ data.length
  magic : word32 data 0 = 0x464C457F
  class64 : word8 data 4 = 2
  dataLsb : word8 data 5 = 1
  machine : word16 data 18 = 183
  shnum : word16 data 60 ≠ 0
  shoff : word64 data 40 ≠ 0
  shstrndx : word16 data 62 < word16 data 60

/-- The header of `.shstrtab`. -/
def strTabOff : UInt64 := word64 data 40 + intProduct (word16 data 62) (word16 data 58)

def strOffset : UInt64 := word64 data ((strTabOff data).toNat + 24)

def strSize : UInt64 := word64 data ((strTabOff data).toNat + 32)

variable (i : Nat)

/-- The header of a section. -/
def shOff : UInt64 := word64 data 40 + UInt64.ofNat i * (word16 data 58).toUInt64

def shName : UInt32 := word32 data (shOff data i).toNat

def secOffset : UInt64 := word64 data ((shOff data i).toNat + 24)

def secSize : UInt64 := word64 data ((shOff data i).toNat + 32)

/-- The file from the name of a section on. -/
def nameBytes : List UInt8 := data.drop ((strOffset data).toNat + (shName data i).toNat)

/-- The name of a section starts inside the string table. -/
def HasName : Prop := (shName data i).toUInt64 < strSize data

/-- A section is called `initrd`. -/
def Named : Prop := HasName data i ∧ initrdName ++ [0] <+: nameBytes data i

/-- The search goes on to the next section. -/
def Passed : Prop := Passes data (shOff data i) 64 ∧ ¬ Named data i

/-- A section header is read inside the file, and so is its name. -/
structure SectionInside : Prop where
  header : Passes data (shOff data i) 64 → NoWrap (shOff data i) 64
  name : Passes data (shOff data i) 64 → HasName data i → ¬ nameBytes data i <+: initrdName

instance : Decidable (HasName data i) :=
  inferInstanceAs (Decidable ((shName data i).toUInt64 < strSize data))

instance : Decidable (Named data i) :=
  inferInstanceAs (Decidable (HasName data i ∧ initrdName ++ [0] <+: nameBytes data i))

/-- What a round leaves. -/
def sectionFlow : Flow Unit (Except EfiStatus (UInt64 × UInt64)) :=
  if Passes data (shOff data i) 64 then
    if Named data i then
      if Passes data (secOffset data i) (secSize data i) then
        .exit (.ok (secOffset data i, secSize data i))
      else .exit (.error .notFound)
    else .next ()
  else .exit (.error .notFound)

/-- The round of the search for `initrd`. -/
abbrev initrdRound : Nat → Unit → KernelRun (Flow Unit (Except EfiStatus (UInt64 × UInt64))) :=
  findElfSectionRound data initrdName (word64 data 40) (word16 data 58) (strOffset data)
    (strSize data)

end Sections

section SectionRounds

variable {data : List UInt8} {i : Nat}

theorem sectionFlow_eq_next : sectionFlow data i = .next () ↔ Passed data i := by
  unfold sectionFlow Passed
  by_cases hp : Passes data (shOff data i) 64
  · by_cases hnm : Named data i
    · rw [if_pos hp, if_pos hnm]
      split
      all_goals simp [hnm]
    · simp [hp, hnm]
  · simp [hp]

theorem initrdName_ne_zero : ∀ c ∈ initrdName, c ≠ 0 := by simp [initrdName]

theorem initrdRound_eq :
    initrdRound data i () =
      (if shOff data i + 64 > UInt64.ofNat data.length then .ok (.exit (.error .notFound))
      else do
        let name ← elf32 data (shOff data i).toNat
        if name.toUInt64 ≥ strSize data then .ok (.next ())
        else do
          let order ← elfStrCmp data ((strOffset data).toNat + name.toNat) initrdName
          if order = 0 then do
            let off ← elf64 data ((shOff data i).toNat + 24)
            let size ← elf64 data ((shOff data i).toNat + 32)
            if off + size > UInt64.ofNat data.length then .ok (.exit (.error .notFound))
            else .ok (.exit (.ok (off, size)))
          else .ok (.next ())) := rfl

/-- The comparison with the name of a section. -/
theorem elfStrCmp_cases (data : List UInt8) (off : Nat) :
    (data.drop off <+: initrdName ∧ elfStrCmp data off initrdName = .error .elf)
      ∨ (¬ data.drop off <+: initrdName ∧ ∃ v, elfStrCmp data off initrdName = .ok v
        ∧ (v = 0 ↔ initrdName ++ [0] <+: data.drop off)) := by
  rcases strCmp_cases (p := data.drop off) initrdName_ne_zero with
    ⟨hpre, hrun⟩ | ⟨hpre, v, hrun, hv⟩
  · exact .inl ⟨hpre, by rw [elfStrCmp, hrun]⟩
  · exact .inr ⟨hpre, v, by rw [elfStrCmp, hrun], hv⟩

theorem initrdRound_outside (hp : ¬ Passes data (shOff data i) 64) :
    initrdRound data i () = .ok (.exit (.error .notFound)) := by
  rw [initrdRound_eq, if_pos (not_passes.mp hp)]

/-- A section header past the end of the file. -/
theorem initrdRound_wrap (hn : data.length < 2 ^ 63) (hp : Passes data (shOff data i) 64)
    (hw : ¬ NoWrap (shOff data i) 64) : initrdRound data i () = .error .elf := by
  have hpast := lt_of_wrap hn (by decide) hw
  rw [initrdRound_eq, if_neg fun h => not_passes.mpr h hp, elf32_error (by omega), error_bind]

/-- A section header inside the file, whose name decides. -/
theorem initrdRound_inside (hn : data.length < 2 ^ 63) (hp : Passes data (shOff data i) 64)
    (hw : NoWrap (shOff data i) 64) :
    initrdRound data i () =
      if HasName data i ∧ nameBytes data i <+: initrdName then .error .elf
      else .ok (sectionFlow data i) := by
  have hin : (shOff data i).toNat + 64 ≤ data.length := (passes_iff hn hw).mp hp
  rw [initrdRound_eq, if_neg fun h => not_passes.mpr h hp, elf32_ok (by omega), ok_bind,
    sectionFlow, if_pos hp]
  change (if (shName data i).toUInt64 ≥ strSize data then _ else _) = _
  by_cases hname : HasName data i
  · rw [if_neg (UInt64.not_le.mpr hname)]
    rcases elfStrCmp_cases data ((strOffset data).toNat + (shName data i).toNat) with
      ⟨hpre, hrun⟩ | ⟨hpre, v, hrun, hv⟩
    · rw [shName] at hrun
      rw [hrun, error_bind, if_pos ⟨hname, hpre⟩]
    · have hinside : ¬ (HasName data i ∧ nameBytes data i <+: initrdName) := fun h => hpre h.2
      rw [shName] at hrun
      rw [hrun, ok_bind, if_neg hinside]
      by_cases hzero : v = 0
      · have hnamed : Named data i := ⟨hname, hv.mp hzero⟩
        rw [if_pos hnamed, if_pos hzero, elf64_ok (by omega), ok_bind,
          elf64_ok (by omega), ok_bind]
        by_cases hc : Passes data (secOffset data i) (secSize data i)
        · rw [if_pos hc]
          exact if_neg fun h => not_passes.mpr h hc
        · rw [if_neg hc]
          exact if_pos (not_passes.mp hc)
      · have hnamed : ¬ Named data i := fun h => hzero (hv.mpr h.2)
        rw [if_neg hnamed, if_neg hzero]
  · rw [if_pos (UInt64.not_lt.mp hname), if_neg fun h => hname h.1,
      if_neg fun h : Named data i => hname h.1]

/-- A round ends exactly when the header and the name are inside the file. -/
theorem initrdRound_cases (hn : data.length < 2 ^ 63) :
    (SectionInside data i ∧ initrdRound data i () = .ok (sectionFlow data i))
      ∨ (¬ SectionInside data i ∧ initrdRound data i () = .error .elf) := by
  by_cases hp : Passes data (shOff data i) 64
  · by_cases hw : NoWrap (shOff data i) 64
    · rw [initrdRound_inside hn hp hw]
      by_cases hname : HasName data i ∧ nameBytes data i <+: initrdName
      · exact .inr ⟨fun h => h.name hp hname.1 hname.2, if_pos hname⟩
      · exact .inl ⟨⟨fun _ => hw, fun _ h h' => hname ⟨h, h'⟩⟩, if_neg hname⟩
    · exact .inr ⟨fun h => hw (h.header hp), initrdRound_wrap hn hp hw⟩
  · refine .inl ⟨⟨fun h => absurd h hp, fun h => absurd h hp⟩, ?_⟩
    rw [initrdRound_outside hp, sectionFlow, if_neg hp]

theorem initrdRound_next (hn : data.length < 2 ^ 63) :
    initrdRound data i () = .ok (.next ()) ↔ SectionInside data i ∧ Passed data i := by
  rw [← sectionFlow_eq_next]
  rcases initrdRound_cases (i := i) hn with ⟨hin, hrun⟩ | ⟨hout, hrun⟩
  · rw [hrun]
    exact ⟨fun h => ⟨hin, Except.ok.inj h⟩, fun h => congrArg _ h.2⟩
  · rw [hrun]
    exact ⟨fun h => (by cases h), fun h => absurd h.1 hout⟩

end SectionRounds

/-! ## The section lookup -/

section Lookup

variable (data : List UInt8)

/-- The search comes to a section. -/
structure SectionReached (k : Nat) : Prop where
  header : HeaderOk data
  strTab : Passes data (strTabOff data) 64
  strings : Passes data (strOffset data) (strSize data)
  lt : k < (word16 data 60).toNat
  before : ∀ j < k, Passed data j

/-- The search ends at a section with success. -/
structure FoundAt (k : Nat) : Prop extends SectionReached data k where
  here : Passes data (shOff data k) 64
  named : Named data k
  contents : Passes data (secOffset data k) (secSize data k)

/-- No access of the lookup leaves the file. -/
structure LookupInside : Prop where
  strTab : HeaderOk data → Passes data (strTabOff data) 64 → NoWrap (strTabOff data) 64
  sections : ∀ k, SectionReached data k → SectionInside data k

variable {data}

/-- What the header checks of the lookup leave. -/
theorem findElfSection_header (hn : data.length < 2 ^ 63) :
    (HeaderOk data ∧ findElfSection data initrdName = findInSections data initrdName
        (word64 data 40) (word16 data 58) (word16 data 60) (word16 data 62))
      ∨ (¬ HeaderOk data ∧ ∃ e, findElfSection data initrdName = .ok (.error e)) := by
  rw [findElfSection]
  by_cases hlen : UInt64.ofNat data.length < 64
  · rw [if_pos hlen]
    rw [UInt64.lt_iff_toNat_lt, toNat_length hn] at hlen
    exact .inr ⟨fun h => absurd h.length (Nat.not_le.mpr hlen), _, rfl⟩
  rw [if_neg hlen]
  rw [UInt64.lt_iff_toNat_lt, toNat_length hn] at hlen
  have hlen' : 64 ≤ data.length := Nat.not_lt.mp hlen
  rw [elf32_ok (by omega), ok_bind]
  by_cases hmagic : word32 data 0 ≠ 0x464C457F
  · rw [if_pos hmagic]
    exact .inr ⟨fun h => hmagic h.magic, _, rfl⟩
  rw [if_neg hmagic, elf8_ok (by omega), ok_bind, elf8_ok (by omega), ok_bind]
  by_cases hident : word8 data 4 ≠ 2 ∨ word8 data 5 ≠ 1
  · rw [if_pos hident]
    exact .inr ⟨fun h => hident.elim (fun h4 => h4 h.class64) fun h5 => h5 h.dataLsb, _, rfl⟩
  rw [if_neg hident, elf16_ok (by omega), ok_bind]
  by_cases hmachine : word16 data 18 ≠ 183
  · rw [if_pos hmachine]
    exact .inr ⟨fun h => hmachine h.machine, _, rfl⟩
  rw [if_neg hmachine, elf16_ok (by omega), ok_bind, elf64_ok (by omega), ok_bind,
    elf16_ok (by omega), ok_bind]
  by_cases htable : word16 data 60 = 0 ∨ word64 data 40 = 0 ∨ word16 data 62 ≥ word16 data 60
  · rw [if_pos htable]
    refine .inr ⟨fun h => ?_, _, rfl⟩
    rcases htable with hnum | hoff | hndx
    · exact h.shnum hnum
    · exact h.shoff hoff
    · exact UInt16.not_le.mpr h.shstrndx hndx
  rw [if_neg htable, elf16_ok (by omega), ok_bind]
  rw [not_or, not_or, ge_iff_le, UInt16.not_le] at htable
  rw [not_or, not_not, not_not] at hident
  exact .inl ⟨⟨hlen', not_not.mp hmagic, hident.1, hident.2, not_not.mp hmachine, htable.1,
    htable.2.1, htable.2.2⟩, rfl⟩

/-- What a lookup leaves: an access outside the file, the section it ends at, or
an error. -/
def LookupSpec (data : List UInt8) (run : KernelRun (Except EfiStatus (UInt64 × UInt64))) :
    Prop :=
  (¬ LookupInside data ∧ run = .error .elf)
    ∨ (LookupInside data ∧ ∃ k, FoundAt data k ∧ run = .ok (.ok (secOffset data k, secSize data k)))
    ∨ (LookupInside data ∧ (∀ k, ¬ FoundAt data k) ∧ ∃ e, run = .ok (.error e))

/-- A lookup that comes to no section. -/
theorem lookupSpec_unreached (hreached : ∀ k, ¬ SectionReached data k)
    (hstr : HeaderOk data → Passes data (strTabOff data) 64 → NoWrap (strTabOff data) 64)
    (e : EfiStatus) : LookupSpec data (.ok (.error e)) :=
  .inr (.inr ⟨⟨hstr, fun k h => absurd h (hreached k)⟩, fun k h => hreached k h.toSectionReached, e, rfl⟩)

/-- The search behind the header checks. -/
abbrev initrdSearch (data : List UInt8) : KernelRun (Except EfiStatus (UInt64 × UInt64)) :=
  findInSections data initrdName (word64 data 40) (word16 data 58) (word16 data 60)
    (word16 data 62)

theorem initrdSearch_eq :
    initrdSearch data =
      (if strTabOff data + 64 > UInt64.ofNat data.length then .ok (.error .notFound)
      else do
        let off ← elf64 data ((strTabOff data).toNat + 24)
        let size ← elf64 data ((strTabOff data).toNat + 32)
        if off + size > UInt64.ofNat data.length then .ok (.error .notFound)
        else do
          match ← forFrom (findElfSectionRound data initrdName (word64 data 40) (word16 data 58)
              off size) (word16 data 60).toNat 0 () with
          | .next () => .ok (.error .notFound)
          | .exit found => .ok found) := rfl

/-- The search past its checks is the loop over the sections. -/
theorem initrdSearch_loop (hn : data.length < 2 ^ 63)
    (hp : Passes data (strTabOff data) 64) (hw : NoWrap (strTabOff data) 64)
    (hs : Passes data (strOffset data) (strSize data)) :
    initrdSearch data = (do
      match ← forFrom (initrdRound data) (word16 data 60).toNat 0 () with
      | .next () => .ok (.error .notFound)
      | .exit found => .ok found) := by
  have hin : (strTabOff data).toNat + 64 ≤ data.length := (passes_iff hn hw).mp hp
  rw [initrdSearch_eq, if_neg fun h => not_passes.mpr h hp, elf64_ok (by omega), ok_bind,
    elf64_ok (by omega), ok_bind]
  exact if_neg fun h => not_passes.mpr h hs

/-- The loop over the sections of a header that passes its checks. -/
theorem initrdLoop_spec (hn : data.length < 2 ^ 63) (hh : HeaderOk data)
    (hp : Passes data (strTabOff data) 64) (hw : NoWrap (strTabOff data) 64)
    (hs : Passes data (strOffset data) (strSize data)) :
    LookupSpec data (initrdSearch data) := by
  have hstr : HeaderOk data → Passes data (strTabOff data) 64 → NoWrap (strTabOff data) 64 :=
    fun _ _ => hw
  rw [initrdSearch_loop hn hp hw hs]
  rcases forFrom_first (initrdRound data) (word16 data 60).toNat 0 with
    ⟨hall, hrun⟩ | ⟨k, -, hk, hbefore, hne, hrun⟩
  · -- every section is passed
    rw [hrun, ok_bind]
    have hpassed : ∀ k < (word16 data 60).toNat, SectionInside data k ∧ Passed data k :=
      fun k hk => (initrdRound_next hn).mp (hall k (Nat.zero_le k) (by omega))
    refine .inr (.inr ⟨⟨hstr, fun k h => (hpassed k h.lt).1⟩, fun k h => ?_, _, rfl⟩)
    exact (hpassed k h.lt).2.2 h.named
  · have hk' : k < (word16 data 60).toNat := by omega
    have hpassed : ∀ j < k, SectionInside data j ∧ Passed data j :=
      fun j hj => (initrdRound_next hn).mp (hbefore j (Nat.zero_le j) hj)
    have hreached : SectionReached data k := ⟨hh, hp, hs, hk', fun j hj => (hpassed j hj).2⟩
    rcases initrdRound_cases (i := k) hn with ⟨hin, hround⟩ | ⟨hout, hround⟩
    · have hstop : ¬ Passed data k := fun h => hne ((initrdRound_next hn).mpr ⟨hin, h⟩)
      have hle : ∀ j, SectionReached data j → j ≤ k := fun j h => by
        by_contra hlt
        exact hstop (h.before k (Nat.not_le.mp hlt))
      have hinside : LookupInside data := ⟨hstr, fun j h => by
        rcases Nat.lt_or_eq_of_le (hle j h) with hlt | rfl
        · exact (hpassed j hlt).1
        · exact hin⟩
      have hfound : ∀ j, FoundAt data j → j = k := fun j h => by
        by_contra hjk
        exact (hpassed j (by have := hle j h.toSectionReached; omega)).2.2 h.named
      rw [hrun, hround, ok_bind, sectionFlow]
      by_cases hhere : Passes data (shOff data k) 64
      · have hnamed : Named data k := by
          by_contra hnamed
          exact hstop ⟨hhere, hnamed⟩
        rw [if_pos hhere, if_pos hnamed]
        by_cases hc : Passes data (secOffset data k) (secSize data k)
        · rw [if_pos hc]
          exact .inr (.inl ⟨hinside, k, ⟨hreached, hhere, hnamed, hc⟩, rfl⟩)
        · rw [if_neg hc]
          exact .inr (.inr ⟨hinside, fun j h => hc (hfound j h ▸ h.contents), _, rfl⟩)
      · rw [if_neg hhere]
        exact .inr (.inr ⟨hinside, fun j h => hhere (hfound j h ▸ h.here), _, rfl⟩)
    · refine .inl ⟨fun h => hout (h.sections k hreached), ?_⟩
      rw [hrun, hround, error_bind]

/-- What the search behind the header checks leaves. -/
theorem initrdSearch_spec (hn : data.length < 2 ^ 63) (hh : HeaderOk data) :
    LookupSpec data (initrdSearch data) := by
  by_cases hp : Passes data (strTabOff data) 64
  · by_cases hw : NoWrap (strTabOff data) 64
    · by_cases hs : Passes data (strOffset data) (strSize data)
      · exact initrdLoop_spec hn hh hp hw hs
      · have hin : (strTabOff data).toNat + 64 ≤ data.length := (passes_iff hn hw).mp hp
        rw [initrdSearch_eq, if_neg fun h => not_passes.mpr h hp, elf64_ok (by omega), ok_bind,
          elf64_ok (by omega), ok_bind]
        change LookupSpec data (if strOffset data + strSize data > _ then _ else _)
        rw [if_pos (not_passes.mp hs)]
        exact lookupSpec_unreached (fun k h => hs h.strings) (fun _ _ => hw) _
    · have hpast := lt_of_wrap hn (by decide) hw
      rw [initrdSearch_eq, if_neg fun h => not_passes.mpr h hp, elf64_error (by omega),
        error_bind]
      exact .inl ⟨fun h => hw (h.strTab hh hp), rfl⟩
  · rw [initrdSearch_eq, if_pos (not_passes.mp hp)]
    exact lookupSpec_unreached (fun k h => hp h.strTab) (fun _ h => absurd h hp) _

theorem findElfSection_spec (hn : data.length < 2 ^ 63) :
    LookupSpec data (findElfSection data initrdName) := by
  rcases findElfSection_header hn with ⟨hh, hrun⟩ | ⟨hh, e, hrun⟩
  · rw [hrun]
    exact initrdSearch_spec hn hh
  · rw [hrun]
    exact lookupSpec_unreached (fun k h => hh h.header) (fun h => absurd h hh) e

end Lookup

/-! ## Program headers -/

section Segments

variable (data : List UInt8) (i : Nat)

/-- A program header. -/
def phOff : UInt64 := word64 data 32 + UInt64.ofNat i * (word16 data 54).toUInt64

def segEnd : UInt64 :=
  word64 data ((phOff data i).toNat + 8) + word64 data ((phOff data i).toNat + 32)

/-- A program header is read inside the file, and no `PT_LOAD` segment ends
where the search behind it would wrap. -/
structure SegmentInside : Prop where
  header : NoWrap (phOff data i) 56
  load : word32 data (phOff data i).toNat = 1 → (segEnd data i).toNat < 2 ^ 64 - 6

variable {data i}

/-- A round that comes to a program header. -/
theorem ptLoadRound_cases (hn : data.length < 2 ^ 63) (m : UInt64) :
    (¬ Passes data (phOff data i) 56
        ∧ ptLoadRound data (word64 data 32) (word16 data 54) i m = .ok (.exit m))
      ∨ (Passes data (phOff data i) 56 ∧ ¬ NoWrap (phOff data i) 56
        ∧ ptLoadRound data (word64 data 32) (word16 data 54) i m = .error .elf)
      ∨ (Passes data (phOff data i) 56 ∧ NoWrap (phOff data i) 56
        ∧ ∃ m', ptLoadRound data (word64 data 32) (word16 data 54) i m = .ok (.next m')
          ∧ (m'.toNat < 2 ^ 64 - 6 ↔ m.toNat < 2 ^ 64 - 6 ∧
            (word32 data (phOff data i).toNat = 1 → (segEnd data i).toNat < 2 ^ 64 - 6))) := by
  have hround : ptLoadRound data (word64 data 32) (word16 data 54) i m =
      (if phOff data i + 56 > UInt64.ofNat data.length then .ok (.exit m)
      else do
        let pType ← elf32 data (phOff data i).toNat
        if pType = 1 then do
          let pOffset ← elf64 data ((phOff data i).toNat + 8)
          let pFilesz ← elf64 data ((phOff data i).toNat + 32)
          .ok (.next (if pOffset + pFilesz > m then pOffset + pFilesz else m))
        else .ok (.next m)) := rfl
  rw [hround]
  by_cases hp : Passes data (phOff data i) 56
  · rw [if_neg fun h => not_passes.mpr h hp]
    by_cases hw : NoWrap (phOff data i) 56
    · have hin : (phOff data i).toNat + 56 ≤ data.length := (passes_iff hn hw).mp hp
      refine .inr (.inr ⟨hp, hw, ?_⟩)
      rw [elf32_ok (by omega), ok_bind]
      by_cases hload : word32 data (phOff data i).toNat = 1
      · rw [if_pos hload, elf64_ok (by omega), ok_bind, elf64_ok (by omega), ok_bind]
        refine ⟨_, rfl, ?_⟩
        change (if segEnd data i > m then segEnd data i else m).toNat < _ ↔ _
        by_cases hgt : segEnd data i > m
        · rw [if_pos hgt]
          have hlt := UInt64.lt_iff_toNat_lt.mp hgt
          exact ⟨fun h => ⟨by omega, fun _ => h⟩, fun h => h.2 hload⟩
        · rw [if_neg hgt]
          have hle := UInt64.le_iff_toNat_le.mp (UInt64.not_lt.mp hgt)
          exact ⟨fun h => ⟨h, fun _ => by omega⟩, fun h => h.1⟩
      · rw [if_neg hload]
        exact ⟨m, rfl, fun h => ⟨h, fun h' => absurd h' hload⟩, fun h => h.1⟩
    · have hpast := lt_of_wrap hn (by decide) hw
      rw [elf32_error (by omega), error_bind]
      exact .inr (.inl ⟨hp, hw, rfl⟩)
  · rw [if_pos (not_passes.mp hp)]
    exact .inl ⟨hp, rfl⟩

/-- Every program header the loop comes to from `i` on is inside the file. -/
def SegmentsFrom (data : List UInt8) (i n : Nat) : Prop :=
  ∀ k, i ≤ k → k < i + n → (∀ j, i ≤ j → j ≤ k → Passes data (phOff data j) 56) →
    SegmentInside data k

theorem segmentsFrom_succ (n : Nat) :
    SegmentsFrom data i (n + 1) ↔
      (Passes data (phOff data i) 56 → SegmentInside data i ∧ SegmentsFrom data (i + 1) n) := by
  constructor
  · intro h hp
    refine ⟨h i (Nat.le_refl i) (by omega) fun j hj hji => ?_, fun k hk hkn hbefore => ?_⟩
    · rwa [show j = i by omega]
    · refine h k (by omega) (by omega) fun j hj hjk => ?_
      rcases Nat.lt_or_eq_of_le hj with hlt | rfl
      · exact hbefore j hlt hjk
      · exact hp
  · intro h k hk hkn hbefore
    have hi := h (hbefore i (Nat.le_refl i) hk)
    rcases Nat.lt_or_eq_of_le hk with hlt | rfl
    · exact hi.2 k hlt (by omega) fun j hj hjk => hbefore j (by omega) hjk
    · exact hi.1

/-- The loop over the program headers ends below the wrap exactly when every
header it comes to is inside the file. -/
theorem ptLoadLoop_cases (hn : data.length < 2 ^ 63) (n : Nat) (m : UInt64) :
    ((m.toNat < 2 ^ 64 - 6 ∧ SegmentsFrom data i n)
        ∧ ∃ c, forFrom (ptLoadRound data (word64 data 32) (word16 data 54)) n i m = .ok c
          ∧ c.state.toNat < 2 ^ 64 - 6)
      ∨ (¬ (m.toNat < 2 ^ 64 - 6 ∧ SegmentsFrom data i n)
        ∧ (forFrom (ptLoadRound data (word64 data 32) (word16 data 54)) n i m = .error .elf
          ∨ ∃ c, forFrom (ptLoadRound data (word64 data 32) (word16 data 54)) n i m = .ok c
            ∧ ¬ c.state.toNat < 2 ^ 64 - 6)) := by
  induction n generalizing i m with
  | zero =>
      have hnone : SegmentsFrom data i 0 := fun k hk hk' => by omega
      by_cases hm : m.toNat < 2 ^ 64 - 6
      · exact .inl ⟨⟨hm, hnone⟩, _, rfl, hm⟩
      · exact .inr ⟨fun h => hm h.1, .inr ⟨_, rfl, hm⟩⟩
  | succ n ih =>
      rw [segmentsFrom_succ]
      rcases ptLoadRound_cases (i := i) hn m with
        ⟨hp, hrun⟩ | ⟨hp, hw, hrun⟩ | ⟨hp, hw, m', hrun, hm'⟩
      · rw [forFrom_succ_exit hrun]
        by_cases hm : m.toNat < 2 ^ 64 - 6
        · exact .inl ⟨⟨hm, fun h => absurd h hp⟩, _, rfl, hm⟩
        · exact .inr ⟨fun h => hm h.1, .inr ⟨_, rfl, hm⟩⟩
      · rw [forFrom, hrun, error_bind]
        exact .inr ⟨fun h => hw (h.2 hp).1.header, .inl rfl⟩
      · rw [forFrom_succ_next hrun]
        have hcond : (m.toNat < 2 ^ 64 - 6 ∧ (Passes data (phOff data i) 56 →
            SegmentInside data i ∧ SegmentsFrom data (i + 1) n))
            ↔ m'.toNat < 2 ^ 64 - 6 ∧ SegmentsFrom data (i + 1) n := by
          rw [hm']
          exact ⟨fun h => ⟨⟨h.1, (h.2 hp).1.load⟩, (h.2 hp).2⟩,
            fun h => ⟨h.1.1, fun _ => ⟨⟨hw, h.1.2⟩, h.2⟩⟩⟩
        rw [hcond]
        exact ih m'

/-- What the search behind the loaded segments starts from. -/
theorem ptLoadEnd_cases (hn : data.length < 2 ^ 63) :
    ((58 ≤ data.length ∧ SegmentsFrom data 0 (word16 data 56).toNat)
        ∧ ∃ m, ptLoadEnd data = .ok m ∧ m.toNat < 2 ^ 64 - 6)
      ∨ (¬ (58 ≤ data.length ∧ SegmentsFrom data 0 (word16 data 56).toNat)
        ∧ (ptLoadEnd data = .error .elf
          ∨ 58 ≤ data.length ∧ ∃ m, ptLoadEnd data = .ok m ∧ ¬ m.toNat < 2 ^ 64 - 6)) := by
  rw [ptLoadEnd]
  by_cases hlen : 58 ≤ data.length
  · rw [elf16_ok (by omega), ok_bind]
    by_cases hnum : word16 data 56 = 0
    · rw [if_pos hnum, hnum]
      exact .inl ⟨⟨hlen, fun k _ hk => absurd hk (by simp)⟩, 0, rfl, by decide⟩
    · rw [if_neg hnum, elf64_ok (by omega), ok_bind, elf16_ok (by omega), ok_bind]
      rcases ptLoadLoop_cases (i := 0) hn (word16 data 56).toNat 0 with
        ⟨hin, c, hrun, hc⟩ | ⟨hout, hrun | ⟨c, hrun, hc⟩⟩
      · rw [hrun, ok_bind]
        exact .inl ⟨⟨hlen, hin.2⟩, _, rfl, hc⟩
      · rw [hrun, error_bind]
        exact .inr ⟨fun h => hout ⟨by decide, h.2⟩, .inl rfl⟩
      · rw [hrun, ok_bind]
        exact .inr ⟨fun h => hout ⟨by decide, h.2⟩, .inr ⟨hlen, _, rfl, hc⟩⟩
  · rw [elf16_error (by omega), error_bind]
    exact .inr ⟨fun h => hlen h.1, .inl rfl⟩

end Segments

/-! ## The searches -/

section Searches

variable {data : List UInt8} {dataSize start : UInt64}

/-- The XZ magic stands at an offset. -/
def MagicAt (data : List UInt8) (off : Nat) : Prop := slice data off 6 = xzMagic

/-- The first XZ magic in a range. -/
structure FirstMagic (data : List UInt8) (start dataSize pos : UInt64) : Prop where
  le : start ≤ pos
  fits : pos.toNat + 6 ≤ dataSize.toNat
  here : MagicAt data pos.toNat
  before : ∀ off, start.toNat ≤ off → off < pos.toNat → ¬ MagicAt data off

/-- What a search leaves: the first magic, or none in the range. -/
def SearchSpec (data : List UInt8) (start dataSize : UInt64) : Option UInt64 → Prop
  | some pos => FirstMagic data start dataSize pos
  | none => ∀ off, start.toNat ≤ off → off + 6 ≤ dataSize.toNat → ¬ MagicAt data off

/-- The position of a search after some rounds, with no magic behind it. -/
structure Searched (data : List UInt8) (start dataSize : UInt64) (rounds : Nat) (i : UInt64) :
    Prop where
  position : i.toNat = start.toNat + rounds
  bound : rounds ≠ 0 → i.toNat ≤ dataSize.toNat
  before : ∀ off, start.toNat ≤ off → off < i.toNat → ¬ MagicAt data off

theorem findXzRound_spec (hn : data.length < 2 ^ 63) (hsize : dataSize.toNat ≤ data.length)
    (hstart : start.toNat < 2 ^ 64 - 6) {rounds : Nat} {i : UInt64}
    (h : Searched data start dataSize rounds i) :
    ∃ c, findXzRound data dataSize rounds i = .ok c
      ∧ c.Post (Searched data start dataSize (rounds + 1)) (SearchSpec data start dataSize) := by
  have hlt : i.toNat < 2 ^ 64 - 6 := by
    rcases Nat.eq_zero_or_pos rounds with rfl | hpos
    · have := h.position
      omega
    · have := h.bound (by omega)
      omega
  have hadd : (i + 6).toNat = i.toNat + 6 := toNat_add_of_lt rfl rfl (by omega)
  have hsucc : (i + 1).toNat = i.toNat + 1 := toNat_add_of_lt rfl rfl (by omega)
  rw [findXzRound]
  by_cases hfits : i + 6 ≤ dataSize
  · have hfits' : i.toNat + 6 ≤ dataSize.toNat := by
      rwa [UInt64.le_iff_toNat_le, hadd] at hfits
    rw [if_pos hfits, elfBytes_ok (by omega), ok_bind]
    by_cases hmagic : slice data i.toNat 6 = xzMagic
    · rw [if_pos hmagic]
      have hle : start ≤ i := by
        rw [UInt64.le_iff_toNat_le, h.position]
        omega
      exact ⟨_, rfl, hle, hfits', hmagic, h.before⟩
    · rw [if_neg hmagic]
      refine ⟨_, rfl, ?_, fun _ => by omega, fun off hoff hoff' => ?_⟩
      · rw [hsucc, h.position]
        omega
      · rcases Nat.lt_or_ge off i.toNat with hbehind | hhere
        · exact h.before off hoff hbehind
        · rwa [show off = i.toNat by omega]
  · rw [if_neg hfits]
    rw [UInt64.le_iff_toNat_le, hadd] at hfits
    exact ⟨_, rfl, fun off hoff hin => h.before off hoff (by omega)⟩

/-- A search that does not start at the end of the address space. -/
theorem findXzStream_spec (hn : data.length < 2 ^ 63) (hsize : dataSize.toNat ≤ data.length)
    (hstart : start.toNat < 2 ^ 64 - 6) :
    ∃ found, findXzStream data dataSize start = .ok found
      ∧ SearchSpec data start dataSize found := by
  have hzero : Searched data start dataSize 0 start :=
    ⟨rfl, fun h => absurd rfl h, fun off hoff hoff' => by omega⟩
  obtain ⟨c, hrun, hpost⟩ := forFrom_total (n := data.length + 1) (i := 0)
    (fun _ _ _ _ h => findXzRound_spec hn hsize hstart h) hzero
  rw [findXzStream, hrun, ok_bind]
  cases c with
  | exit found => exact ⟨found, rfl, hpost⟩
  | next i =>
      -- more rounds than there are bytes
      have hpos := hpost.position
      have hbound := hpost.bound (by omega)
      omega

/-- A search that starts at the end of the address space reads there. -/
theorem findXzStream_wrap (hn : data.length < 2 ^ 63) (hstart : ¬ start.toNat < 2 ^ 64 - 6)
    (hlen : start + 6 ≤ dataSize) : findXzStream data dataSize start = .error .elf := by
  rw [findXzStream, forFrom, findXzRound, if_pos hlen, elfBytes, if_neg (by omega)]
  rfl

/-- The position after padding. -/
structure Skipped (data : List UInt8) (start searchEnd pos : UInt64) : Prop where
  le : start ≤ pos
  bound : start ≤ searchEnd → pos ≤ searchEnd
  zeros : ∀ off, start.toNat ≤ off → off < pos.toNat → word8 data off = 0
  stop : pos < searchEnd → word8 data pos.toNat ≠ 0

/-- The position of the skipping loop after some rounds, with zeros behind it. -/
structure Padding (data : List UInt8) (start searchEnd : UInt64) (rounds : Nat) (pos : UInt64) :
    Prop where
  position : pos.toNat = start.toNat + rounds
  bound : rounds ≠ 0 → pos ≤ searchEnd
  zeros : ∀ off, start.toNat ≤ off → off < pos.toNat → word8 data off = 0

theorem Padding.skipped {rounds : Nat} {pos : UInt64} (h : Padding data start dataSize rounds pos)
    (hstop : pos < dataSize → word8 data pos.toNat ≠ 0) : Skipped data start dataSize pos where
  le := UInt64.le_iff_toNat_le.mpr (by rw [h.position]; omega)
  bound := by
    rcases Nat.eq_zero_or_pos rounds with rfl | hrounds
    · rw [show pos = start from UInt64.toNat_inj.mp h.position]
      exact id
    · exact fun _ => h.bound (by omega)
  zeros := h.zeros
  stop := hstop

theorem skipZerosRound_spec (hn : data.length < 2 ^ 63) (hsize : dataSize.toNat ≤ data.length)
    {rounds : Nat} {pos : UInt64} (h : Padding data start dataSize rounds pos) :
    ∃ c, skipZerosRound data dataSize rounds pos = .ok c
      ∧ c.Post (Padding data start dataSize (rounds + 1)) (Skipped data start dataSize) := by
  rw [skipZerosRound]
  by_cases hlt : pos < dataSize
  · have hlt' := UInt64.lt_iff_toNat_lt.mp hlt
    rw [if_pos hlt, elf8_ok (by omega), ok_bind]
    by_cases hb : word8 data pos.toNat = 0
    · have hsucc : (pos + 1).toNat = pos.toNat + 1 := toNat_add_of_lt rfl rfl (by omega)
      rw [if_pos hb]
      refine ⟨_, rfl, ?_, fun _ => ?_, fun off hoff hoff' => ?_⟩
      · rw [hsucc, h.position]
        omega
      · rw [UInt64.le_iff_toNat_le]
        omega
      · rcases Nat.lt_or_ge off pos.toNat with hbehind | hhere
        · exact h.zeros off hoff hbehind
        · rwa [show off = pos.toNat by omega]
    · rw [if_neg hb]
      exact ⟨_, rfl, h.skipped fun _ => hb⟩
  · rw [if_neg hlt]
    exact ⟨_, rfl, h.skipped fun h => absurd h hlt⟩

theorem skipZeros_spec (hn : data.length < 2 ^ 63) (hsize : dataSize.toNat ≤ data.length)
    (start : UInt64) :
    ∃ pos, skipZeros data dataSize start = .ok pos ∧ Skipped data start dataSize pos := by
  have hzero : Padding data start dataSize 0 start :=
    ⟨rfl, fun h => absurd rfl h, fun off hoff hoff' => by omega⟩
  obtain ⟨c, hrun, hpost⟩ := forFrom_total (n := data.length + 1) (i := 0)
    (fun _ _ _ _ h => skipZerosRound_spec hn hsize h) hzero
  rw [skipZeros, hrun, ok_bind]
  cases c with
  | exit pos => exact ⟨pos, rfl, hpost⟩
  | next pos =>
      -- more rounds than there are bytes
      have hpos := hpost.position
      have hle := UInt64.le_iff_toNat_le.mp (hpost.bound (by omega))
      omega

end Searches

end Ccr2004
