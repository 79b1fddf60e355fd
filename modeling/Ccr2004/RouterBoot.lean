import Ccr2004.Memory
import Ccr2004.Bytes
import Mathlib.Data.Vector.Basic

/-!
# Handing over to RouterBoot

`RouterBootApp` copies the device tree and the boot image to pages of its own,
leaves boot services and jumps to a trampoline, which copies the image byte by
byte to 0x00110000 and jumps there. The pages are wherever the allocator puts
them; it does not know about the fixed range.

The copy loop is `Memory.copyUp` (`copyLoop_eq`), so what the range holds in
the end follows from where the image copy is: a copy that starts below the
range and reaches into it overwrites itself. The range may also be where the
device tree or the trampoline is. `relocates_iff` says that nothing else can
go wrong.
-/

namespace Ccr2004

/-! ## The placement -/

/-- 2 GB from address 0. -/
def memorySize : Nat := 2 ^ 31

/-- `EFI_SIZE_TO_PAGES`. -/
def efiSizeToPages (size : Nat) : Nat := size / 4096 + if size % 4096 = 0 then 0 else 1

/-- `size` bytes from `base` on. -/
structure Region where
  base : Nat
  size : Nat

namespace Region

def Holds (r : Region) (x : Nat) : Prop := r.base ≤ x ∧ x < r.base + r.size

def Apart (r s : Region) : Prop := ∀ x, r.Holds x → ¬ s.Holds x

/-- The pages that `AllocatePages` gives for `size` bytes. -/
def pages (base size : Nat) : Region := ⟨base, efiSizeToPages size * 4096⟩

end Region

/-- Where the copies of a device tree of `n` bytes and an image of `k` bytes
are, and the application with its trampoline. -/
structure Placement (n k : Nat) where
  dtbPages : Nat
  rbPages : Nat
  code : Region
  trampoline : Region
  aligned : 4096 ∣ dtbPages ∧ 4096 ∣ rbPages
  dtb_le : dtbPages + efiSizeToPages n * 4096 ≤ memorySize
  rb_le : rbPages + efiSizeToPages k * 4096 ≤ memorySize
  code_le : code.base + code.size ≤ memorySize
  trampoline_in : ∀ x, trampoline.Holds x → code.Holds x
  dtb_rb : (Region.pages dtbPages n).Apart (.pages rbPages k)
  dtb_code : (Region.pages dtbPages n).Apart code
  rb_code : (Region.pages rbPages k).Apart code

/-- What no one but the application writes to. -/
def Placement.Owns {n k : Nat} (p : Placement n k) (x : Nat) : Prop :=
  (Region.pages p.dtbPages n).Holds x ∨ (Region.pages p.rbPages k).Holds x ∨ p.code.Holds x

/-- What becomes of memory between the copies and the trampoline: the memory
map, and `ExitBootServices`. -/
structure BootExit {n k : Nat} (p : Placement n k) where
  exit : Memory UInt8 → Memory UInt8
  keeps : ∀ m x, p.Owns x → exit m x = m x

/-! ## The application -/

/-- `TotalSize`: bytes 4 to 7 of the header. -/
def fdtTotalSize (bytes : List UInt8) : UInt32 :=
  ((bytes.getD 4 0).toUInt32 <<< 24) ||| ((bytes.getD 5 0).toUInt32 <<< 16)
    ||| ((bytes.getD 6 0).toUInt32 <<< 8) ||| (bytes.getD 7 0).toUInt32

/-- A device tree of `n` bytes. -/
structure Fdt (n : Nat) where
  bytes : List.Vector UInt8 n
  header : 8 ≤ n
  total : (fdtTotalSize bytes.toList).toNat = n

/-- `CopyMem` of bytes that are elsewhere. -/
def copyToPages (m : Memory UInt8) (dst : Nat) (bs : List UInt8) : Run (Memory UInt8) :=
  if dst + bs.length ≤ memorySize then .ok (m.write dst bs) else .error .outOfBounds

/-- `ROUTERBOOT_LOAD_ADDR`. -/
def routerBootLoadAddr : UInt64 := 0x00110000

/-- The registers of the copy loop, and memory. -/
structure CopyLoop where
  x20 : UInt64
  x3 : UInt64
  x4 : UInt64
  memory : Memory UInt8

def ldrb (m : Memory UInt8) (addr : UInt64) : Run UInt8 :=
  if addr.toNat < memorySize then .ok (m addr.toNat) else .error .outOfBounds

def strb (m : Memory UInt8) (addr : UInt64) (b : UInt8) : Run (Memory UInt8) :=
  if addr.toNat < memorySize then .ok (m.write addr.toNat [b]) else .error .outOfBounds

/-- `.Lcopy`. -/
def copyRound (st : CopyLoop) : Run (Flow CopyLoop CopyLoop) :=
  if st.x4 = 0 then .ok (.exit st)
  else do
    let w5 ← ldrb st.memory st.x20
    let memory ← strb st.memory st.x3 w5
    .ok (.next ⟨st.x20 + 1, st.x3 + 1, st.x4 - 1, memory⟩)

/-- The jump: where to, and `x0`. -/
structure Handover where
  pc : UInt64
  x0 : UInt64
  memory : Memory UInt8

/-- `RouterBootTrampoline`. The caches and the MMU do not show in the contents
of memory. -/
def routerBootTrampoline (x0 x1 x2 : UInt64) (m : Memory UInt8) : Run Handover := do
  let st ← loopFuel copyRound (x2.toNat + 1) ⟨x1, routerBootLoadAddr, x2, m⟩
  .ok ⟨routerBootLoadAddr, x0, st.memory⟩

/-- `RouterBootAppEntry` from the copies on, with the pages it got. -/
def routerBootLaunch {n k : Nat} (p : Placement n k) (boot : BootExit p) (dtb : Fdt n)
    (image : List.Vector UInt8 k) (m : Memory UInt8) : Run Handover := do
  let dtbSize := fdtTotalSize dtb.bytes.toList
  let m ← copyToPages m p.dtbPages (dtb.bytes.toList.take dtbSize.toNat)
  let m ← copyToPages m p.rbPages image.toList
  routerBootTrampoline (UInt64.ofNat p.dtbPages) (UInt64.ofNat p.rbPages) (UInt64.ofNat k)
    (boot.exit m)

/-! ## What is asked of it -/

variable {n k : Nat}

/-- The range that the trampoline fills. -/
def loadRange (k : Nat) : Region := ⟨routerBootLoadAddr.toNat, k⟩

/-- Whatever the image is, it arrives, and neither the device tree nor the
trampoline is changed. -/
def Relocates (p : Placement n k) (boot : BootExit p) (dtb : Fdt n) (m : Memory UInt8) : Prop :=
  ∀ image : List.Vector UInt8 k, ∃ out, routerBootLaunch p boot dtb image m = .ok out
    ∧ out.pc = routerBootLoadAddr ∧ out.x0.toNat = p.dtbPages
    ∧ out.memory.read out.pc.toNat k = image.toList
    ∧ out.memory.read out.x0.toNat n = dtb.bytes.toList
    ∧ ∀ x, p.trampoline.Holds x → out.memory x = m x

/-- The image copy does not reach into the range from below, and the device
tree and the trampoline are outside it. -/
structure Placement.Clear (p : Placement n k) : Prop where
  image : routerBootLoadAddr.toNat ≤ p.rbPages ∨ p.rbPages + k ≤ routerBootLoadAddr.toNat
  dtb : (loadRange k).Apart ⟨p.dtbPages, n⟩
  trampoline : (loadRange k).Apart p.trampoline

/-! ## The copy loop -/

theorem ldrb_ok {m : Memory UInt8} {addr : UInt64} (h : addr.toNat < memorySize) :
    ldrb m addr = .ok (m addr.toNat) := if_pos h

theorem strb_ok {m : Memory UInt8} {addr : UInt64} (b : UInt8) (h : addr.toNat < memorySize) :
    strb m addr b = .ok (m.write addr.toNat [b]) := if_pos h

/-- The loop copies upwards, unless it leaves memory. -/
theorem copyLoop_eq (size : Nat) : ∀ st : CopyLoop, st.x4.toNat = size →
    st.x20.toNat + size ≤ memorySize → st.x3.toNat + size ≤ 2 * memorySize →
    (∃ st', loopFuel copyRound (size + 1) st = .ok st'
        ∧ st'.memory = Memory.copyUp size st.memory st.x20.toNat st.x3.toNat)
      ∨ (loopFuel copyRound (size + 1) st = .error .outOfBounds
        ∧ memorySize < st.x3.toNat + size) := by
  have hmemory : memorySize = 2 ^ 31 := rfl
  induction size with
  | zero =>
      intro st hsize _ _
      have hzero : st.x4 = 0 := UInt64.toNat_inj.mp hsize
      exact .inl ⟨st, loopFuel_exit (by rw [copyRound, if_pos hzero]), rfl⟩
  | succ size ih =>
      intro st hsize hsrc hdst
      have hne : st.x4 ≠ 0 := fun hzero => by
        rw [hzero, UInt64.toNat_zero] at hsize
        omega
      by_cases hin : st.x3.toNat < memorySize
      · have hone : (1 : UInt64).toNat = 1 := rfl
        have hsrc' : (st.x20 + 1).toNat = st.x20.toNat + 1 := toNat_add_of_lt rfl rfl (by omega)
        have hdst' : (st.x3 + 1).toNat = st.x3.toNat + 1 := toNat_add_of_lt rfl rfl (by omega)
        have hleft : (st.x4 - 1).toNat = size := by
          rw [UInt64.toNat_sub_of_le _ _ (UInt64.le_iff_toNat_le.mpr (by omega)), hsize, hone]
          rfl
        have hround : copyRound st = .ok (.next ⟨st.x20 + 1, st.x3 + 1, st.x4 - 1,
            st.memory.write st.x3.toNat [st.memory st.x20.toNat]⟩) := by
          rw [copyRound, if_neg hne, ldrb_ok (by omega), ok_bind, strb_ok _ hin, ok_bind]
        rw [loopFuel_next hround, Memory.copyUp]
        have hrec := ih ⟨st.x20 + 1, st.x3 + 1, st.x4 - 1,
          st.memory.write st.x3.toNat [st.memory st.x20.toNat]⟩ hleft
          (by simp only [hsrc']; omega) (by simp only [hdst']; omega)
        simp only [hsrc', hdst'] at hrec
        rcases hrec with ⟨st', hrun, hcopied⟩ | ⟨hrun, hout⟩
        · exact .inl ⟨st', hrun, hcopied⟩
        · exact .inr ⟨hrun, by omega⟩
      · refine .inr ⟨?_, by omega⟩
        have hround : copyRound st = .error .outOfBounds := by
          rw [copyRound, if_neg hne, ldrb_ok (by omega), ok_bind, strb, if_neg hin]
          rfl
        rw [loopFuel, hround]
        rfl

/-! ## The copies -/

theorem le_efiSizeToPages (size : Nat) : size ≤ efiSizeToPages size * 4096 := by
  rw [efiSizeToPages]
  split
  · omega
  · omega

theorem Region.pages_holds (base : Nat) {size i : Nat} (h : i < size) :
    (Region.pages base size).Holds (base + i) := by
  have hle := le_efiSizeToPages size
  exact ⟨Nat.le_add_right base i, by show base + i < base + efiSizeToPages size * 4096; omega⟩

/-- A copy to pages stays in them. -/
theorem write_outside_pages {m : Memory UInt8} {base x : Nat} {bs : List UInt8}
    (h : ¬ (Region.pages base bs.length).Holds x) : m.write base bs x = m x := by
  refine Memory.write_outside ?_
  by_contra hin
  have hle := le_efiSizeToPages bs.length
  exact h ⟨by show base ≤ x; omega, by show x < base + efiSizeToPages bs.length * 4096; omega⟩

/-- Memory before the trampoline. -/
def placed (p : Placement n k) (boot : BootExit p) (dtb : Fdt n) (image : List.Vector UInt8 k)
    (m : Memory UInt8) : Memory UInt8 :=
  boot.exit ((m.write p.dtbPages dtb.bytes.toList).write p.rbPages image.toList)

section Placed

variable (p : Placement n k) (boot : BootExit p) (dtb : Fdt n) (image : List.Vector UInt8 k)
  (m : Memory UInt8)

theorem placed_image {i : Nat} (hi : i < k) :
    placed p boot dtb image m (p.rbPages + i) =
      image.toList.get ⟨i, by rw [image.toList_length]; exact hi⟩ := by
  rw [placed, boot.keeps _ _ (.inr (.inl (Region.pages_holds _ hi))),
    Memory.write_inside (by rw [image.toList_length]; exact hi)]
  rfl

theorem placed_dtb {i : Nat} (hi : i < n) :
    placed p boot dtb image m (p.dtbPages + i) =
      dtb.bytes.toList.get ⟨i, by rw [dtb.bytes.toList_length]; exact hi⟩ := by
  have hown := Region.pages_holds p.dtbPages hi
  have hother := p.dtb_rb _ hown
  rw [placed, boot.keeps _ _ (.inl hown),
    write_outside_pages (by rw [image.toList_length]; exact hother),
    Memory.write_inside (by rw [dtb.bytes.toList_length]; exact hi)]
  rfl

theorem placed_code {x : Nat} (hx : p.code.Holds x) :
    placed p boot dtb image m x = m x := by
  have hdtb : ¬ (Region.pages p.dtbPages n).Holds x := fun h => p.dtb_code x h hx
  have hrb : ¬ (Region.pages p.rbPages k).Holds x := fun h => p.rb_code x h hx
  rw [placed, boot.keeps _ _ (.inr (.inr hx)),
    write_outside_pages (by rw [image.toList_length]; exact hrb),
    write_outside_pages (by rw [dtb.bytes.toList_length]; exact hdtb)]

/-- The launch hands over what the loop made of memory, unless the range
leaves memory. -/
theorem routerBootLaunch_cases :
    (∃ out, routerBootLaunch p boot dtb image m = .ok out
        ∧ out.pc = routerBootLoadAddr ∧ out.x0.toNat = p.dtbPages
        ∧ out.memory = Memory.copyUp k (placed p boot dtb image m) p.rbPages
          routerBootLoadAddr.toNat)
      ∨ (routerBootLaunch p boot dtb image m = .error .outOfBounds
        ∧ memorySize < routerBootLoadAddr.toNat + k) := by
  have hmemory : memorySize = 2 ^ 31 := rfl
  have hload : routerBootLoadAddr.toNat = 0x110000 := rfl
  have hn := le_efiSizeToPages n
  have hk := le_efiSizeToPages k
  have hdtb := p.dtb_le
  have hrb := p.rb_le
  have hsize : (UInt64.ofNat k).toNat = k := toNat_ofNat_of_lt (by omega)
  have hsrc : (UInt64.ofNat p.rbPages).toNat = p.rbPages := toNat_ofNat_of_lt (by omega)
  have hx0 : (UInt64.ofNat p.dtbPages).toNat = p.dtbPages := toNat_ofNat_of_lt (by omega)
  have htake : dtb.bytes.toList.take (fdtTotalSize dtb.bytes.toList).toNat = dtb.bytes.toList := by
    rw [dtb.total]
    exact List.take_of_length_le (Nat.le_of_eq dtb.bytes.toList_length)
  have hrun : routerBootLaunch p boot dtb image m = routerBootTrampoline (UInt64.ofNat p.dtbPages)
      (UInt64.ofNat p.rbPages) (UInt64.ofNat k) (placed p boot dtb image m) := by
    simp only [routerBootLaunch, htake]
    rw [copyToPages, if_pos (by rw [dtb.bytes.toList_length]; omega), ok_bind, copyToPages,
      if_pos (by rw [image.toList_length]; omega), ok_bind, placed]
  have hloop := copyLoop_eq k
    ⟨UInt64.ofNat p.rbPages, routerBootLoadAddr, UInt64.ofNat k, placed p boot dtb image m⟩ hsize
    (by simp only [hsrc]; omega) (by simp only [hload]; omega)
  simp only [hsrc] at hloop
  rw [hrun, routerBootTrampoline, hsize]
  rcases hloop with ⟨st, hst, hcopied⟩ | ⟨herror, hout⟩
  · exact .inl ⟨_, by rw [hst]; rfl, rfl, hx0, hcopied⟩
  · exact .inr ⟨by rw [herror]; rfl, hout⟩

end Placed

/-! ## Exactly when the hand-over is right -/

section Clear

variable {p : Placement n k} {boot : BootExit p} {dtb : Fdt n} {m : Memory UInt8}

theorem getElem_of_read_eq {m : Memory UInt8} {a size i : Nat} {bs : List UInt8}
    (h : m.read a size = bs) (hi : i < bs.length) : m (a + i) = bs[i] := by
  subst h
  rw [Memory.getElem_read]

theorem loadRange_outside {x : Nat} (h : ¬ (loadRange k).Holds x) :
    x < routerBootLoadAddr.toNat ∨ routerBootLoadAddr.toNat + k ≤ x := by
  rcases Nat.lt_or_ge x routerBootLoadAddr.toNat with hlt | hge
  · exact .inl hlt
  · exact .inr (Nat.le_of_not_lt fun hlt => h ⟨hge, hlt⟩)

theorem Placement.Clear.relocates (h : p.Clear) : Relocates p boot dtb m := by
  have hmemory : memorySize = 2 ^ 31 := rfl
  have hload : routerBootLoadAddr.toNat = 0x110000 := rfl
  have hk := le_efiSizeToPages k
  have hrb := p.rb_le
  intro image
  rcases routerBootLaunch_cases p boot dtb image m with
    ⟨out, hrun, hpc, hx0, hmem⟩ | ⟨-, hout⟩
  · refine ⟨out, hrun, hpc, hx0, ?_, ?_, fun x hx => ?_⟩
    · rw [hpc, hmem]
      refine List.ext_getElem (by rw [Memory.length_read, image.toList_length]) fun i hi _ => ?_
      rw [Memory.length_read] at hi
      rw [Memory.getElem_read, Memory.copyUp_inside _ h.image hi, placed_image _ _ _ _ _ hi]
      rfl
    · rw [hx0, hmem]
      refine List.ext_getElem (by rw [Memory.length_read, dtb.bytes.toList_length])
        fun i hi _ => ?_
      rw [Memory.length_read] at hi
      have hfree : ¬ (loadRange k).Holds (p.dtbPages + i) := fun hin =>
        h.dtb _ hin ⟨Nat.le_add_right _ _, Nat.add_lt_add_left hi _⟩
      rw [Memory.getElem_read, Memory.sameOutside_copyUp k _ _ _ _
        (loadRange_outside hfree), placed_dtb _ _ _ _ _ hi]
      rfl
    · have hfree : ¬ (loadRange k).Holds x := fun hin => h.trampoline x hin hx
      rw [hmem, Memory.sameOutside_copyUp k _ _ _ _
        (loadRange_outside hfree), placed_code _ _ _ _ _ (p.trampoline_in x hx)]
  · rcases h.image with hle | hle
    · omega
    · omega

/-- An image of one byte repeated. -/
def constImage (k : Nat) (c : UInt8) : List.Vector UInt8 k :=
  ⟨List.replicate k c, List.length_replicate⟩

/-- An image with one byte set. -/
def spikeImage (k j : Nat) : List.Vector UInt8 k :=
  ⟨(List.range k).map fun i => if i = j then 1 else 0, by rw [List.length_map, List.length_range]⟩

theorem exists_byte_ne (b : UInt8) : ∃ c : UInt8, c ≠ b := by
  by_cases h : b = 0
  · exact ⟨1, by rw [h]; decide⟩
  · exact ⟨0, fun heq => h heq.symm⟩

/-- A constant image is what the range holds, wherever its copy was. -/
theorem Relocates.const (h : Relocates p boot dtb m) (c : UInt8) :
    ∃ out : Handover, out.x0.toNat = p.dtbPages
      ∧ out.memory.read out.x0.toNat n = dtb.bytes.toList
      ∧ (∀ x, p.trampoline.Holds x → out.memory x = m x)
      ∧ ∀ x, (loadRange k).Holds x → out.memory x = c := by
  obtain ⟨out, -, hpc, hx0, himage, hdtb, hcode⟩ := h (constImage k c)
  refine ⟨out, hx0, hdtb, hcode, fun x hx => ?_⟩
  obtain ⟨i, rfl⟩ := Nat.exists_eq_add_of_le hx.1
  have hi : i < (constImage k c).toList.length := by
    rw [List.Vector.toList_length]
    exact Nat.lt_of_add_lt_add_left hx.2
  rw [hpc] at himage
  have hbyte := getElem_of_read_eq himage hi
  rw [show (loadRange k).base = routerBootLoadAddr.toNat from rfl, hbyte]
  exact List.getElem_replicate _

theorem Relocates.clear (h : Relocates p boot dtb m) : p.Clear where
  image := by
    by_contra hbad
    have hlo : p.rbPages < routerBootLoadAddr.toNat := by omega
    have hhi : routerBootLoadAddr.toNat < p.rbPages + k := by omega
    -- the byte that lies where the copy starts is gone when it is its turn
    obtain ⟨out, hrun, hpc, -, himage, -⟩ :=
      h (spikeImage k (routerBootLoadAddr.toNat - p.rbPages))
    rcases routerBootLaunch_cases p boot dtb
        (spikeImage k (routerBootLoadAddr.toNat - p.rbPages)) m with
      ⟨out', hrun', -, -, hmem⟩ | ⟨herror, -⟩
    · obtain rfl := Except.ok.inj (hrun'.symm.trans hrun)
      rw [hpc] at himage
      have hi : routerBootLoadAddr.toNat - p.rbPages
          < (spikeImage k (routerBootLoadAddr.toNat - p.rbPages)).toList.length := by
        rw [List.Vector.toList_length]
        omega
      have hbyte := getElem_of_read_eq himage hi
      have hfirst := placed_image p boot dtb
        (spikeImage k (routerBootLoadAddr.toNat - p.rbPages)) m (show 0 < k by omega)
      rw [hmem, Memory.copyUp_overlap _ hlo hhi] at hbyte
      rw [Nat.add_zero] at hfirst
      rw [hfirst] at hbyte
      have hne : (0 : Nat) ≠ routerBootLoadAddr.toNat - p.rbPages := by omega
      simp [spikeImage, hne] at hbyte
    · rw [herror] at hrun
      cases hrun
  dtb := by
    intro x hin hdtb
    obtain ⟨i, rfl⟩ := Nat.exists_eq_add_of_le hdtb.1
    have hi : i < dtb.bytes.toList.length := by
      rw [List.Vector.toList_length]
      exact Nat.lt_of_add_lt_add_left hdtb.2
    obtain ⟨c, hc⟩ := exists_byte_ne dtb.bytes.toList[i]
    obtain ⟨out, hx0, hread, -, hconst⟩ := h.const c
    rw [hx0] at hread
    exact hc ((hconst _ hin).symm.trans (getElem_of_read_eq hread hi))
  trampoline := by
    intro x hin hcode
    obtain ⟨c, hc⟩ := exists_byte_ne (m x)
    obtain ⟨out, -, -, hkept, hconst⟩ := h.const c
    exact hc ((hconst x hin).symm.trans (hkept x hcode))

end Clear

/-- The launch hands the image over intact, whatever it is, exactly when its
copy does not reach into the load range from below and neither the device
tree nor the trampoline is in the range. -/
theorem relocates_iff (p : Placement n k) (boot : BootExit p) (dtb : Fdt n) (m : Memory UInt8) :
    Relocates p boot dtb m ↔ p.Clear :=
  ⟨Relocates.clear, Placement.Clear.relocates⟩

/-! ## A device tree in the range -/

/-- Ranges with a boundary between them. -/
theorem Region.apart_of_le {r s : Region} (h : r.base + r.size ≤ s.base) : r.Apart s :=
  fun x hr hs => by
    have hlt : x < r.base + r.size := hr.2
    have hle : s.base ≤ x := hs.1
    omega

/-- The device tree got the page at 0x00110000. -/
def lowPlacement : Placement 40 4096 where
  dtbPages := 0x110000
  rbPages := 0x200000
  code := ⟨0x300000, 0x4000⟩
  trampoline := ⟨0x301000, 0x100⟩
  aligned := by decide
  dtb_le := by decide
  rb_le := by decide
  code_le := by decide
  trampoline_in := fun x hx => by
    have hlo : 0x301000 ≤ x := hx.1
    have hhi : x < 0x301000 + 0x100 := hx.2
    exact ⟨by show 0x300000 ≤ x; omega, by show x < 0x300000 + 0x4000; omega⟩
  dtb_rb := Region.apart_of_le (by decide)
  dtb_code := Region.apart_of_le (by decide)
  rb_code := Region.apart_of_le (by decide)

/-- Nothing else happens to memory. -/
def quietExit : BootExit lowPlacement := ⟨id, fun _ _ _ => rfl⟩

/-- A header without a tree. -/
def bareFdt : Fdt 40 where
  bytes := ⟨[0xD0, 0x0D, 0xFE, 0xED, 0, 0, 0, 40] ++ List.replicate 32 0, rfl⟩
  header := by decide
  total := by decide

theorem not_relocates_low : ¬ Relocates lowPlacement quietExit bareFdt fun _ => 0 := by
  intro h
  have hin : (loadRange 4096).Holds 0x110000 := ⟨by decide, by decide⟩
  exact h.clear.dtb 0x110000 hin ⟨by decide, by decide⟩

end Ccr2004
