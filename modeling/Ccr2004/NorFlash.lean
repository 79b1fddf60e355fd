import Ccr2004.Efi
import Ccr2004.Memory

/-!
# The serial NOR flash and the HAL in front of it

The W25Q128JWS as the driver sees it: 16 MiB of cells and a write-enable
latch. Erasing sets a sector to 0xFF, a page program ANDs bytes into the
cells of one page and wraps inside it, and both need the latch.

What the driver cannot control is an `Outcome` for each transaction: whether
the HAL reports an error, whether a write enable latches, the status bits
other than the latch, and what a program or an erase that failed half way
leaves in the cells it was addressed to.
-/

namespace Ccr2004

/-! ## Commands and geometry -/

def cmdReadData : UInt8 := 0x03
def cmdWriteEnable : UInt8 := 0x06
def cmdPageProgram : UInt8 := 0x02
def cmdSectorErase : UInt8 := 0x20
def cmdReadStatus : UInt8 := 0x05

def srWip : UInt8 := 0x01
def srWel : UInt8 := 0x02

/-- `FLASH_SIZE`. -/
def flashSize : UInt32 := 16 * 1024 * 1024

/-- `FLASH_PAGE_SIZE`. -/
def flashPageSize : UInt32 := 256

/-- `FLASH_SECTOR_SIZE`. -/
def flashSectorSize : UInt32 := 4 * 1024

/-! ## The device -/

/-- How one transaction turns out. -/
structure Outcome where
  failed : Bool
  latched : Bool
  status : UInt8
  noise : Nat → UInt8

structure NorFlash where
  cells : Memory UInt8
  wel : Bool

namespace NorFlash

/-- The address the device takes from three command bytes. -/
def address (a2 a1 a0 : UInt8) : Nat :=
  a2.toNat * 65536 + a1.toNat * 256 + a0.toNat

/-- The status register: the latch is its own, the other bits are not
predicted. -/
def statusByte (f : NorFlash) (o : Outcome) : UInt8 :=
  if f.wel then o.status ||| srWel else o.status &&& ~~~srWel

/-- The bytes of a program from column `col` of the page at `page` on. -/
def programBytes (o : Outcome) (page : Nat) :
    Nat → List UInt8 → Memory UInt8 → Memory UInt8
  | _, [], m => m
  | col, b :: bs, m =>
      programBytes o page ((col + 1) % 256) bs
        (m.write (page + col)
          [if o.failed then o.noise (page + col) else m (page + col) &&& b])

def program (f : NorFlash) (o : Outcome) (a : Nat) (bs : List UInt8) : NorFlash :=
  if f.wel then
    { cells := programBytes o (a / 256 * 256) (a % 256) bs f.cells
      wel := o.failed && o.latched }
  else f

def erase (f : NorFlash) (o : Outcome) (a : Nat) : NorFlash :=
  if f.wel then
    { cells := f.cells.fill (a / 4096 * 4096) (a / 4096 * 4096 + 4096)
        fun x => if o.failed then o.noise x else 0xFF
      wel := o.failed && o.latched }
  else f

/-- One transaction: command bytes, the bytes sent after them, and how many
bytes are clocked in. -/
def exec (f : NorFlash) (o : Outcome) (cmd data : List UInt8) (n : Nat) :
    NorFlash × List UInt8 :=
  match cmd with
  | [op] =>
      if op = cmdWriteEnable then ({ f with wel := f.wel || o.latched }, [])
      else if op = cmdReadStatus then (f, List.replicate n (f.statusByte o))
      else (f, [])
  | [op, a2, a1, a0] =>
      let a := address a2 a1 a0
      if op = cmdReadData then
        (f, (List.range n).map fun i => f.cells ((a + i) % flashSize.toNat))
      else if op = cmdPageProgram then (f.program o a data, [])
      else if op = cmdSectorErase then (f.erase o a, [])
      else (f, [])
  | _ => (f, [])

end NorFlash

/-! ## What one operation does to the cells -/

namespace NorFlash

variable {o : Outcome}

/-- A program that does not run over the end of its page. -/
theorem programBytes_confined (o : Outcome) (page : Nat) :
    ∀ (bs : List UInt8) (col : Nat) (m : Memory UInt8), col + bs.length ≤ 256 →
      Memory.SameOutside (page + col) (page + col + bs.length) m
        (programBytes o page col bs m)
  | [], _, m, _ => Memory.SameOutside.refl _ _ m
  | b :: bs, col, m, h => by
      rw [List.length_cons] at h ⊢
      have hfirst := Memory.sameOutside_write m (page + col)
        [if o.failed then o.noise (page + col) else m (page + col) &&& b]
      cases bs with
      | nil => exact hfirst
      | cons c bs =>
          have hcol : (col + 1) % 256 = col + 1 := by
            rw [List.length_cons] at h
            omega
          have hrest := programBytes_confined o page (c :: bs) (col + 1)
            (m.write (page + col)
              [if o.failed then o.noise (page + col) else m (page + col) &&& b])
            (by omega)
          rw [programBytes, hcol]
          exact (hfirst.mono (Nat.le_refl _) (by simp)).trans
            (hrest.mono (by omega) (by omega))

theorem programBytes_and (ho : o.failed = false) (page : Nat) :
    ∀ (bs : List UInt8) (col : Nat) (m : Memory UInt8), col + bs.length ≤ 256 →
      ∀ i (hi : i < bs.length),
        programBytes o page col bs m (page + col + i) = m (page + col + i) &&& bs[i]
  | [], _, _, _, _, hi => by simp at hi
  | b :: bs, col, m, h, i, hi => by
      rw [List.length_cons] at h
      set m' := m.write (page + col)
        [if o.failed then o.noise (page + col) else m (page + col) &&& b] with hm'
      have hstep : programBytes o page col (b :: bs) m =
          programBytes o page ((col + 1) % 256) bs m' := rfl
      have hconf : col + 1 + bs.length ≤ 256 := by omega
      cases bs with
      | nil =>
          obtain rfl : i = 0 := by simpa using hi
          rw [hstep, programBytes, hm', Memory.write_inside (by simp), ho]
          rfl
      | cons c bs =>
          have hcol : (col + 1) % 256 = col + 1 := by
            rw [List.length_cons] at h
            omega
          rw [hstep, hcol]
          cases i with
          | zero =>
              rw [programBytes_confined o page (c :: bs) (col + 1) m' hconf _
                (Or.inl (by omega)), hm', Memory.write_inside (i := 0) (by simp), ho]
              rfl
          | succ i =>
              have hrec := programBytes_and ho page (c :: bs) (col + 1) m' hconf i
                (by simpa using hi)
              rw [show page + (col + 1) + i = page + col + (i + 1) by omega] at hrec
              rw [hrec, hm', Memory.write_outside (Or.inr (by simp))]
              rfl

/-- Whatever comes of it, a program changes only the bytes it names. -/
theorem program_confined (f : NorFlash) (o : Outcome) {a : Nat} {bs : List UInt8}
    (h : a % 256 + bs.length ≤ 256) :
    Memory.SameOutside a (a + bs.length) f.cells (f.program o a bs).cells := by
  have hpage : a / 256 * 256 + a % 256 = a := by omega
  rw [program]
  split
  · have hconf := programBytes_confined o (a / 256 * 256) bs (a % 256) f.cells h
    rwa [hpage] at hconf
  · exact Memory.SameOutside.refl _ _ _

theorem program_and {f : NorFlash} (hw : f.wel = true) (ho : o.failed = false)
    {a : Nat} {bs : List UInt8} (h : a % 256 + bs.length ≤ 256) {i : Nat}
    (hi : i < bs.length) :
    (f.program o a bs).cells (a + i) = f.cells (a + i) &&& bs[i] := by
  have hpage : a / 256 * 256 + a % 256 = a := by omega
  have hand := programBytes_and ho (a / 256 * 256) bs (a % 256) f.cells h i hi
  rw [hpage] at hand
  rw [program, if_pos hw]
  exact hand

/-- Whatever comes of it, an erase changes only its sector. -/
theorem erase_confined (f : NorFlash) (o : Outcome) {a : Nat} (h : a % 4096 = 0) :
    Memory.SameOutside a (a + 4096) f.cells (f.erase o a).cells := by
  have hsector : a / 4096 * 4096 = a := by omega
  rw [erase]
  split
  · rw [hsector]
    exact Memory.sameOutside_fill _ _ _ _
  · exact Memory.SameOutside.refl _ _ _

theorem erase_blank {f : NorFlash} (hw : f.wel = true) (ho : o.failed = false)
    {a x : Nat} (h : a % 4096 = 0) (hx : a ≤ x ∧ x < a + 4096) :
    (f.erase o a).cells x = 0xFF := by
  have hsector : a / 4096 * 4096 = a := by omega
  rw [erase, if_pos hw, hsector]
  dsimp only
  rw [Memory.fill_inside hx, ho]
  rfl

/-- The latch is read as it is. -/
theorem statusByte_wel (f : NorFlash) (o : Outcome) :
    f.statusByte o &&& srWel ≠ 0 ↔ f.wel = true := by
  have hclear : o.status &&& ~~~srWel &&& srWel = 0 := by
    rw [UInt8.and_assoc, UInt8.not_and_self, UInt8.and_zero]
  have hset : (o.status ||| srWel) &&& srWel = srWel := by
    apply UInt8.toBitVec_inj.mp
    ext i hi
    simpa using Or.inr
  rw [statusByte]
  cases f.wel with
  | false => simp [hclear]
  | true =>
      rw [if_pos rfl, hset]
      decide

end NorFlash

/-! ## Programmed and erased ranges -/

/-- `m'` is `m` with `bs` ANDed in from `a` on. -/
structure Programmed (m m' : Memory UInt8) (a : Nat) (bs : List UInt8) : Prop where
  same : Memory.SameOutside a (a + bs.length) m m'
  and : ∀ i (h : i < bs.length), m' (a + i) = m (a + i) &&& bs[i]

/-- `m'` is `m` with `[lo, hi)` set to 0xFF. -/
structure Erased (m m' : Memory UInt8) (lo hi : Nat) : Prop where
  same : Memory.SameOutside lo hi m m'
  blank : ∀ x, lo ≤ x → x < hi → m' x = 0xFF

theorem Programmed.nil (m : Memory UInt8) (a : Nat) : Programmed m m a [] :=
  ⟨Memory.SameOutside.refl _ _ m, fun _ h => absurd h (Nat.not_lt_zero _)⟩

theorem Programmed.append {m m' m'' : Memory UInt8} {a : Nat} {bs cs : List UInt8}
    (h : Programmed m m' a bs) (h' : Programmed m' m'' (a + bs.length) cs) :
    Programmed m m'' a (bs ++ cs) := by
  constructor
  · rw [List.length_append, ← Nat.add_assoc]
    exact (h.same.mono (Nat.le_refl _) (by omega)).trans
      (h'.same.mono (by omega) (Nat.le_refl _))
  · intro i hi
    rw [List.length_append] at hi
    rcases Nat.lt_or_ge i bs.length with hlt | hge
    · rw [h'.same _ (Or.inl (by omega)), h.and i hlt, List.getElem_append_left hlt]
    · obtain ⟨j, rfl⟩ := Nat.exists_eq_add_of_le hge
      rw [← Nat.add_assoc, h'.and j (by omega), h.same _ (Or.inr (by omega)),
        List.getElem_append_right (by omega)]
      simp only [Nat.add_sub_cancel_left]

theorem Erased.nil (m : Memory UInt8) (lo : Nat) : Erased m m lo lo :=
  ⟨Memory.SameOutside.refl _ _ m, fun x h h' => by omega⟩

theorem Erased.append {m m' m'' : Memory UInt8} {lo mid hi : Nat} (hlo : lo ≤ mid)
    (hhi : mid ≤ hi) (h : Erased m m' lo mid) (h' : Erased m' m'' mid hi) :
    Erased m m'' lo hi := by
  constructor
  · exact (h.same.mono (Nat.le_refl _) hhi).trans (h'.same.mono hlo (Nat.le_refl _))
  · intro x hx hx'
    rcases Nat.lt_or_ge x mid with hlt | hge
    · rw [h'.same x (Or.inl hlt), h.blank x hx hlt]
    · exact h'.blank x hge hx'

/-! ## The HAL -/

/-- A transaction as it went over the bus. -/
structure Transaction where
  cmd : List UInt8
  data : List UInt8
  count : Nat
  failed : Bool

/-- The bus: the device behind it, the outcomes of the transactions to come
by their number, and the transactions so far. -/
structure Spi where
  outcome : Nat → Outcome
  flash : NorFlash
  log : List Transaction

namespace Spi

/-- The bytes clocked in, or nothing when the HAL reports an error. -/
def transfer (s : Spi) (cmd data : List UInt8) (n : Nat) : Option (List UInt8) × Spi :=
  let o := s.outcome s.log.length
  let (flash, answer) := s.flash.exec o cmd data n
  (if o.failed then none else some answer,
    { s with flash := flash, log := s.log ++ [⟨cmd, data, n, o.failed⟩] })

/-- `HalRead`. The buffer a failed read leaves behind is never looked at. -/
def halRead (s : Spi) (cmd : List UInt8) (bufLen : UInt32) :
    Except EfiStatus (List UInt8) × Spi :=
  match s.transfer cmd [] bufLen.toNat with
  | (some bytes, s) => (.ok bytes, s)
  | (none, s) => (.error .deviceError, s)

/-- `HalWrite`. -/
def halWrite (s : Spi) (cmd data : List UInt8) : EfiStatus × Spi :=
  match s.transfer cmd data 0 with
  | (some _, s) => (.success, s)
  | (none, s) => (.deviceError, s)

/-- `HalCmdOnly`. -/
def halCmdOnly (s : Spi) (cmd : List UInt8) : EfiStatus × Spi :=
  match s.transfer cmd [] 0 with
  | (some _, s) => (.success, s)
  | (none, s) => (.deviceError, s)

/-- The flash after a transaction is the device's doing alone. -/
theorem halRead_spec (s : Spi) (cmd : List UInt8) (n : UInt32) :
    ∃ o r s', s.halRead cmd n = (r, s') ∧ s'.flash = (s.flash.exec o cmd [] n.toNat).1
      ∧ (∀ bytes, r = .ok bytes →
          bytes = (s.flash.exec o cmd [] n.toNat).2 ∧ o.failed = false)
      ∧ ∀ e, r = .error e → e = .deviceError := by
  refine ⟨s.outcome s.log.length, ?_⟩
  rw [halRead, transfer]
  cases hf : (s.outcome s.log.length).failed with
  | false =>
      refine ⟨_, _, rfl, rfl, ?_, by simp⟩
      intro bytes h
      exact ⟨(Except.ok.inj h).symm, rfl⟩
  | true => exact ⟨_, _, rfl, rfl, by simp, by simp⟩

theorem halWrite_spec (s : Spi) (cmd data : List UInt8) :
    ∃ o status s', s.halWrite cmd data = (status, s')
      ∧ s'.flash = (s.flash.exec o cmd data 0).1
      ∧ (status = .success → o.failed = false) := by
  refine ⟨s.outcome s.log.length, ?_⟩
  rw [halWrite, transfer]
  cases hf : (s.outcome s.log.length).failed with
  | false => exact ⟨_, _, rfl, rfl, by simp⟩
  | true => exact ⟨_, _, rfl, rfl, by simp⟩

theorem halCmdOnly_spec (s : Spi) (cmd : List UInt8) :
    ∃ o status s', s.halCmdOnly cmd = (status, s')
      ∧ s'.flash = (s.flash.exec o cmd [] 0).1
      ∧ (status = .success → o.failed = false) :=
  s.halWrite_spec cmd []

end Spi

end Ccr2004
