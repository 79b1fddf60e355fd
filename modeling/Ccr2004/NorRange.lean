import Ccr2004.NorTrace
import Ccr2004.FlashApp
import Mathlib.Logic.Function.Basic

/-!
# The range checks of the NOR driver

A request names a range of bytes over the integers; what goes on the bus is a
24-bit address. `InsideFlash` says that the two agree and that the range ends
inside the device, command by command: each kind of command starts where the
request starts and continues where the one before ended.

The checks add in 32 bits. A sum that reaches 2^32 passes as a small number,
and then the commands run into addresses taken modulo 2^24.
-/

namespace Ccr2004

/-! ## What the commands name -/

/-- The bytes a command with an address names. -/
def Exchange.size (e : Exchange) : Nat :=
  match e.cmd with
  | [op, _, _, _] =>
      if op = cmdReadData then e.count
      else if op = cmdPageProgram then e.data.length
      else if op = cmdSectorErase then flashSectorSize.toNat
      else 0
  | _ => 0

/-- Where each kind of command goes on after `e`. -/
def advance (next : UInt8 → Nat) (e : Exchange) : UInt8 → Nat :=
  fun op => if e.cmd.head? = some op then next op + e.size else next op

/-- Every command is sent to the place the request means, and stays inside the
device there. -/
def InsideFlash : (UInt8 → Nat) → List Exchange → Prop
  | _, [] => True
  | next, e :: es =>
      (∀ op a2 a1 a0, e.cmd = [op, a2, a1, a0] →
        NorFlash.address a2 a1 a0 = next op ∧ next op + e.size ≤ flashSize.toNat)
      ∧ InsideFlash (advance next e) es

theorem Exchange.size_cases (e : Exchange) :
    e.size = 0 ∨ ∃ op a2 a1 a0, e.cmd = [op, a2, a1, a0] := by
  rw [Exchange.size]
  split
  · rename_i op a2 a1 a0 hcmd
    exact Or.inr ⟨op, a2, a1, a0, hcmd⟩
  · exact Or.inl rfl

@[simp] theorem size_readData (addr : UInt32) (data : List UInt8) (n : Nat)
    (answer : Option (List UInt8)) :
    (Exchange.mk (addressedCmd cmdReadData addr) data n answer).size = n := by
  rw [addressedCmd, Exchange.size]
  exact if_pos rfl

@[simp] theorem size_pageProgram (addr : UInt32) (data : List UInt8) (n : Nat)
    (answer : Option (List UInt8)) :
    (Exchange.mk (addressedCmd cmdPageProgram addr) data n answer).size = data.length := by
  rw [addressedCmd, Exchange.size]
  exact (if_neg (by decide)).trans (if_pos rfl)

@[simp] theorem size_sectorErase (addr : UInt32) (data : List UInt8) (n : Nat)
    (answer : Option (List UInt8)) :
    (Exchange.mk (addressedCmd cmdSectorErase addr) data n answer).size = 4096 := by
  rw [addressedCmd, Exchange.size]
  exact (if_neg (by decide)).trans ((if_neg (by decide)).trans (if_pos rfl))

/-- Where each kind of command goes on after `es`. -/
def afterAll (next : UInt8 → Nat) (es : List Exchange) : UInt8 → Nat := es.foldl advance next

theorem afterAll_append (next : UInt8 → Nat) (es es' : List Exchange) :
    afterAll next (es ++ es') = afterAll (afterAll next es) es' := List.foldl_append

theorem insideFlash_append {es es' : List Exchange} : ∀ {next : UInt8 → Nat},
    InsideFlash next (es ++ es') ↔
      InsideFlash next es ∧ InsideFlash (afterAll next es) es' := by
  induction es with
  | nil => exact fun {next} => ⟨fun h => ⟨trivial, h⟩, fun h => h.2⟩
  | cons e es ih =>
      intro next
      rw [List.cons_append, InsideFlash, InsideFlash, ih, and_assoc]
      rfl

/-- A command moves its own kind on. -/
theorem advance_eq_update (next : UInt8 → Nat) {e : Exchange} {op : UInt8}
    (h : e.cmd.head? = some op) :
    advance next e = Function.update next op (next op + e.size) := by
  funext op'
  rw [advance, h]
  by_cases hop : op' = op
  · rw [hop, Function.update_self, if_pos rfl]
  · rw [Function.update_of_ne hop, if_neg fun heq => hop (Option.some.inj heq).symm]

/-- A command without an address goes nowhere. -/
theorem advance_of_unaddressed (next : UInt8 → Nat) {e : Exchange} (h : e.cmd.length = 1) :
    advance next e = next := by
  obtain ⟨op, hop⟩ := List.length_eq_one_iff.mp h
  have hsize : e.size = 0 := by rw [Exchange.size, hop]
  funext op'
  rw [advance, hsize, Nat.add_zero, ite_self]

theorem afterAll_of_unaddressed (next : UInt8 → Nat) {es : List Exchange}
    (h : Unaddressed es) : afterAll next es = next := by
  induction es with
  | nil => rfl
  | cons e es ih =>
      rw [afterAll, List.foldl_cons, advance_of_unaddressed next (h e List.mem_cons_self)]
      exact ih fun e he => h e (List.mem_cons_of_mem _ he)

theorem insideFlash_of_unaddressed (next : UInt8 → Nat) {es : List Exchange}
    (h : Unaddressed es) : InsideFlash next es := by
  induction es with
  | nil => trivial
  | cons e es ih =>
      have he : e.cmd.length = 1 := h e List.mem_cons_self
      refine ⟨?_, ?_⟩
      · intro op a2 a1 a0 hcmd
        rw [hcmd] at he
        cases he
      · rw [advance_of_unaddressed next he]
        exact ih fun e he => h e (List.mem_cons_of_mem _ he)

/-- Commands that stayed inside the device have not gone past its end. -/
theorem afterAll_le {es : List Exchange} (op : UInt8) : ∀ {next : UInt8 → Nat},
    InsideFlash next es →
      afterAll next es op = next op ∨ afterAll next es op ≤ flashSize.toNat := by
  induction es with
  | nil => exact fun _ => Or.inl rfl
  | cons e es ih =>
      rintro next ⟨hfirst, hrest⟩
      rcases ih hrest with heq | hle
      · have hcons : afterAll next (e :: es) op = advance next e op := heq
        rw [hcons, advance]
        rcases e.size_cases with hzero | ⟨op', a2, a1, a0, hcmd⟩
        · rw [hzero, Nat.add_zero, ite_self]
          exact Or.inl rfl
        · rw [hcmd, List.head?_cons]
          by_cases hop : some op' = some op
          · obtain rfl := Option.some.inj hop
            rw [if_pos rfl]
            exact Or.inr (hfirst op' a2 a1 a0 hcmd).2
          · exact Or.inl (if_neg hop)
      · exact Or.inr hle

/-! ## One call of the driver -/

/-- What a call leaves on the bus when it has dealt with `k` bytes from `a`
on. -/
structure Progress (s₀ : Spi) (op : UInt8) (a k : Nat) (es : List Exchange) (s : Spi) :
    Prop where
  traced : s₀.Traced es s
  counted : ∀ next, afterAll next es = Function.update next op (next op + k)
  inside : a + k ≤ flashSize.toNat → ∀ next, next op = a → InsideFlash next es

namespace Progress

variable {s₀ s s' : Spi} {op : UInt8} {a k m : Nat} {es es' : List Exchange}

theorem start (s : Spi) (op : UInt8) (a : Nat) : Progress s op a 0 [] s where
  traced := .nil s
  counted next := by rw [Nat.add_zero, Function.update_eq_self]; rfl
  inside _ _ _ := trivial

theorem unaddressed (h : Progress s₀ op a k es s) (htr : s.Traced es' s')
    (hes : Unaddressed es') : Progress s₀ op a k (es ++ es') s' where
  traced := h.traced.append htr
  counted next := by
    rw [afterAll_append, h.counted, afterAll_of_unaddressed _ hes]
  inside hroom next hnext :=
    insideFlash_append.mpr
      ⟨h.inside hroom next hnext, insideFlash_of_unaddressed _ hes⟩

/-- One more command, at the address that 32 bits give for the next byte. -/
theorem command {data : List UInt8} {count : Nat} {answer : Option (List UInt8)}
    {addr : UInt32} (h : Progress s₀ op a k es s)
    (htr : s.Traced [⟨addressedCmd op addr, data, count, answer⟩] s')
    (haddr : addr.toNat = (a + k) % 4294967296)
    (hsize : (Exchange.mk (addressedCmd op addr) data count answer).size = m) (hm : 0 < m) :
    Progress s₀ op a (k + m) (es ++ [⟨addressedCmd op addr, data, count, answer⟩]) s' where
  traced := h.traced.append htr
  counted next := by
    rw [afterAll_append, h.counted, afterAll, List.foldl_cons, List.foldl_nil,
      advance_eq_update _ rfl, hsize, Function.update_self, Function.update_idem,
      Nat.add_assoc]
  inside hroom next hnext := by
    have hflash : flashSize.toNat = 16777216 := rfl
    have hexact : addr.toNat = a + k := by omega
    refine insideFlash_append.mpr ⟨h.inside (by omega) next hnext, ?_, trivial⟩
    rintro op' a2 a1 a0 hcmd
    obtain ⟨rfl, rfl, rfl, rfl⟩ : op = op' ∧ (addr >>> 16).toUInt8 = a2
        ∧ (addr >>> 8).toUInt8 = a1 ∧ addr.toUInt8 = a0 := by
      simpa [addressedCmd] using hcmd
    rw [h.counted, Function.update_self, hnext, hsize, Spi.address_bytes (by omega)]
    exact ⟨hexact, by omega⟩

end Progress

/-- A bus without errors: write enables latch, and an operation is over by the
first poll. -/
def Sound (s : Spi) : Prop :=
  ∀ i, (s.outcome i).failed = false ∧ (s.outcome i).latched = true ∧ (s.outcome i).status = 0

/-- A call that names `n` bytes from `a` on and passed its check. -/
def CallTrace (s₀ : Spi) (op : UInt8) (a n : Nat) (r : EfiStatus × Spi) : Prop :=
  ∃ k es, Progress s₀ op a k es r.2 ∧ k ≤ n ∧ (r.1 = .success → k = n)
    ∧ (Sound s₀ → r.1 = .success)

/-- A call that gives up where a bus without errors would not. -/
theorem CallTrace.of_error {s₀ s : Spi} {op : UInt8} {a k n : Nat} {es : List Exchange}
    {status : EfiStatus} (h : Progress s₀ op a k es s) (hk : k ≤ n) (herr : status.isError)
    (hsound : ¬ Sound s₀) : CallTrace s₀ op a n (status, s) := by
  refine ⟨k, es, h, hk, ?_, fun hs => absurd hs hsound⟩
  rintro rfl
  cases herr

namespace Sound

variable {s s' : Spi}

theorem of_traced (h : Sound s) {es : List Exchange} (htr : s.Traced es s') : Sound s' := by
  intro i
  rw [htr.outcome]
  exact h i

theorem halRead (h : Sound s) (cmd : List UInt8) (n : UInt32) :
    ∃ bytes s', s.halRead cmd n = (.ok bytes, s') := by
  rw [Spi.halRead, Spi.transfer]
  dsimp only
  rw [(h _).1]
  exact ⟨_, _, rfl⟩

theorem halWrite (h : Sound s) (cmd data : List UInt8) :
    s.halWrite cmd data = (.success, (s.transfer cmd data 0).2) := by
  rw [Spi.halWrite, Spi.transfer]
  dsimp only
  rw [(h _).1]
  rfl

theorem flashReadStatus (h : Sound s) :
    ∃ s', s.flashReadStatus cmdReadStatus =
      (.ok (s.flash.statusByte (s.outcome s.log.length)), s') := by
  rw [Spi.flashReadStatus, Spi.halRead, Spi.transfer]
  dsimp only
  rw [(h _).1]
  exact ⟨_, rfl⟩

/-- The first poll sees the latch. -/
theorem flashWriteEnable (h : Sound s) :
    ∃ s', s.flashWriteEnable = .ok (.success, s') := by
  set s₁ := (s.transfer [cmdWriteEnable] [] 0).2 with hs₁
  have hsound : Sound s₁ := h.of_traced (.single s [cmdWriteEnable] [] 0)
  have hwel : s₁.flash.wel = true := by
    rw [hs₁, Spi.transfer_flash, NorFlash.exec, if_pos rfl]
    dsimp only
    rw [(h _).2.1, Bool.or_true]
  obtain ⟨s₂, hread⟩ := hsound.flashReadStatus
  have hround : Spi.welRound 0 s₁ = .ok (.exit (.success, s₂)) := by
    rw [Spi.welRound, hread]
    exact if_pos ((s₁.flash.statusByte_wel _).mpr hwel)
  have hcmd : s.halCmdOnly [cmdWriteEnable] = (.success, s₁) := h.halWrite _ _
  refine ⟨s₂, ?_⟩
  rw [Spi.flashWriteEnable, hcmd]
  dsimp only
  rw [if_neg (by decide), forFrom_succ_exit hround]
  rfl

/-- The first poll sees the operation over. -/
theorem flashWaitReady (h : Sound s) :
    ∃ s', s.flashWaitReady = .ok (.success, s') := by
  have hidle : s.flash.statusByte (s.outcome s.log.length) &&& srWip = 0 := by
    rw [NorFlash.statusByte, (h _).2.2]
    cases s.flash.wel with
    | false => rfl
    | true => rfl
  obtain ⟨s₁, hread⟩ := h.flashReadStatus
  have hround : Spi.wipRound 0 s = .ok (.exit (.success, s₁)) := by
    rw [Spi.wipRound, hread]
    exact if_pos hidle
  refine ⟨s₁, ?_⟩
  rw [Spi.flashWaitReady, Spi.wipPollMax, forFrom_succ_exit hround]
  rfl

end Sound

namespace Spi

/-! ## Reading -/

/-- The read loop at `st`. -/
structure ReadTrace (s₀ : Spi) (a n size : Nat) (st : ReadState) : Prop where
  progress : ∃ es, Progress s₀ cmdReadData a st.offset.toNat es st.spi
  offset_le : st.offset.toNat ≤ n
  size_eq : st.buffer.length = size

theorem readRound_call {s₀ : Spi} {flashAddress lengthInBytes : UInt32} {size : Nat}
    (hsize : lengthInBytes.toNat ≤ size) {st : ReadState}
    (hst : ReadTrace s₀ flashAddress.toNat lengthInBytes.toNat size st) :
    ∃ c, readRound flashAddress lengthInBytes st = .ok c
      ∧ c.Post
        (fun st' => ReadTrace s₀ flashAddress.toNat lengthInBytes.toNat size st'
          ∧ lengthInBytes.toNat - st'.offset.toNat < lengthInBytes.toNat - st.offset.toNat)
        (fun r => r.2.1.length = size
          ∧ CallTrace s₀ cmdReadData flashAddress.toNat lengthInBytes.toNat (r.1, r.2.2)) := by
  obtain ⟨⟨es, hprog⟩, hle, hlen⟩ := hst
  refine readRound_rule (by omega) hle
    (fun hdone => ⟨hlen, _, es, hprog, hle, fun _ => hdone, fun _ => rfl⟩) ?_
  intro chunk hpos hoff hend r s' hread
  obtain ⟨answer, r', s'', hread', htr, -⟩ :=
    st.spi.halRead_traced (addressedCmd cmdReadData (flashAddress + st.offset)) chunk
  obtain ⟨rfl, rfl⟩ := Prod.mk.inj (hread'.symm.trans hread)
  have hnext := hprog.command (m := chunk.toNat) htr (UInt32.toNat_add _ _)
    (size_readData _ _ _ _) (by omega)
  rw [← hoff] at hnext
  constructor
  · rintro e rfl
    refine ⟨hlen, _, _, hnext, by omega, by simp, fun hsound => ?_⟩
    obtain ⟨bytes, s₁, hgood⟩ := (hsound.of_traced hprog.traced).halRead
      (addressedCmd cmdReadData (flashAddress + st.offset)) chunk
    rw [hread] at hgood
    cases hgood
  · rintro bytes buffer rfl hbytes hbuffer hsame
    exact ⟨⟨_, hnext⟩, by dsimp only; omega, hsame.trans hlen⟩

theorem spiNorReadData_call (s : Spi) {flashAddress lengthInBytes : UInt32}
    (buffer : List UInt8) (hsize : lengthInBytes.toNat ≤ buffer.length)
    (hcheck : ¬ flashAddress + lengthInBytes > flashSize) :
    ∃ status buffer' s',
      s.spiNorReadData flashAddress lengthInBytes buffer = .ok (status, buffer', s')
        ∧ buffer'.length = buffer.length
        ∧ CallTrace s cmdReadData flashAddress.toNat lengthInBytes.toNat (status, s') := by
  obtain ⟨r, hr, hpost⟩ := loopFuel_total (k := lengthInBytes.toNat + 1)
    (I := ReadTrace s flashAddress.toNat lengthInBytes.toNat buffer.length)
    (μ := fun st => lengthInBytes.toNat - st.offset.toNat)
    (fun st hst => readRound_call hsize hst)
    (s := { offset := 0, buffer := buffer, spi := s })
    ⟨⟨[], .start s _ _⟩, Nat.zero_le _, rfl⟩ (by dsimp only; omega)
  rw [spiNorReadData, if_neg hcheck]
  exact ⟨r.1, r.2.1, r.2.2, hr, hpost⟩

/-! ## Writing and erasing -/

theorem not_sound_of_enable {s s' : Spi} {status : EfiStatus}
    (h : s.flashWriteEnable = .ok (status, s')) (herr : status.isError) : ¬ Sound s := by
  intro hsound
  obtain ⟨s₁, hok⟩ := hsound.flashWriteEnable
  rw [h] at hok
  obtain ⟨rfl, -⟩ := Prod.mk.inj (Except.ok.inj hok)
  cases herr

theorem not_sound_of_wait {s s' : Spi} {status : EfiStatus}
    (h : s.flashWaitReady = .ok (status, s')) (herr : status.isError) : ¬ Sound s := by
  intro hsound
  obtain ⟨s₁, hok⟩ := hsound.flashWaitReady
  rw [h] at hok
  obtain ⟨rfl, -⟩ := Prod.mk.inj (Except.ok.inj hok)
  cases herr

theorem not_sound_of_write {s s' : Spi} {cmd data : List UInt8} {status : EfiStatus}
    (h : s.halWrite cmd data = (status, s')) (herr : status.isError) : ¬ Sound s := by
  intro hsound
  rw [hsound.halWrite] at h
  obtain ⟨rfl, -⟩ := Prod.mk.inj h
  cases herr

/-- The write loop at `st`. -/
structure WriteTrace (s₀ : Spi) (a n : Nat) (st : WriteState) : Prop where
  progress : ∃ k es, Progress s₀ cmdPageProgram a k es st.spi
    ∧ st.flashAddress.toNat = (a + k) % 4294967296 ∧ k + st.buffer.length = n
  left : st.lengthInBytes.toNat = st.buffer.length

theorem writeRound_call {s₀ : Spi} {a n : Nat} {st : WriteState}
    (hst : WriteTrace s₀ a n st) :
    ∃ c, writeRound st = .ok c
      ∧ c.Post
        (fun st' => WriteTrace s₀ a n st'
          ∧ st'.lengthInBytes.toNat < st.lengthInBytes.toNat)
        (CallTrace s₀ cmdPageProgram a n) := by
  obtain ⟨⟨k, es, hprog, haddr, hk⟩, hleft⟩ := hst
  have hsound {s : Spi} {es : List Exchange} (htr : s₀.Traced es s) (h : ¬ Sound s) :
      ¬ Sound s₀ := fun hs => h (hs.of_traced htr)
  obtain ⟨c, hc, hstep⟩ := writeRound_step hleft
  refine ⟨c, hc, ?_⟩
  obtain ⟨status₁, s₁, enable, henable₁, htr₁, hun, -⟩ := st.spi.flashWriteEnable_traced
  have hprog₁ := hprog.unaddressed htr₁ hun
  cases hstep with
  | finished hnil =>
      rw [hnil, List.length_nil] at hk
      exact ⟨k, es, hprog, by omega, fun _ => by omega, fun _ => rfl⟩
  | notEnabled henable herr =>
      obtain ⟨rfl, rfl⟩ := Prod.mk.inj (Except.ok.inj (henable₁.symm.trans henable))
      exact CallTrace.of_error hprog₁ (by omega) herr
        (hsound hprog.traced (not_sound_of_enable henable herr))
  | @notProgrammed piece rest _ _ _ _ hpiece henable henabled hwrite herr =>
      obtain ⟨rfl, rfl⟩ := Prod.mk.inj (Except.ok.inj (henable₁.symm.trans henable))
      obtain ⟨answer, status₂, s₂, hwrite₂, htr₂, -⟩ :=
        s₁.halWrite_traced (addressedCmd cmdPageProgram st.flashAddress) piece
      obtain ⟨rfl, rfl⟩ := Prod.mk.inj (hwrite₂.symm.trans hwrite)
      rw [hpiece.buffer, List.length_append] at hk
      have hprog₂ := hprog₁.command (m := piece.length) htr₂ haddr
        (size_pageProgram _ _ _ _) (List.length_pos_iff.mpr hpiece.nonempty)
      exact CallTrace.of_error hprog₂ (by omega) herr
        (hsound hprog₁.traced (not_sound_of_write hwrite herr))
  | @waited piece rest _ _ _ _ s₂ s₃ _ hpiece henable henabled hwrite hwritten hwait hend =>
      obtain ⟨rfl, rfl⟩ := Prod.mk.inj (Except.ok.inj (henable₁.symm.trans henable))
      obtain ⟨answer, status₂, s₂', hwrite₂, htr₂, -⟩ :=
        s₁.halWrite_traced (addressedCmd cmdPageProgram st.flashAddress) piece
      obtain ⟨rfl, rfl⟩ := Prod.mk.inj (hwrite₂.symm.trans hwrite)
      obtain ⟨status₃, s₃', wait, hwait₃, htr₃, hpolls, -⟩ := s₂'.flashWaitReady_traced
      obtain ⟨rfl, rfl⟩ := Prod.mk.inj (Except.ok.inj (hwait₃.symm.trans hwait))
      have hless := hpiece.rest_lt
      rw [hpiece.buffer, List.length_append] at hk
      have hprog₂ := hprog₁.command (m := piece.length) htr₂ haddr
        (size_pageProgram _ _ _ _) (List.length_pos_iff.mpr hpiece.nonempty)
      have hprog₃ := hprog₂.unaddressed htr₃ hpolls.unaddressed
      rcases hend with ⟨herr, rfl⟩ | ⟨-, st', rfl, rfl, rfl, hleft', haddr'⟩
      · exact CallTrace.of_error hprog₃ (by omega) herr
          (hsound hprog₂.traced (not_sound_of_wait hwait herr))
      · refine ⟨⟨⟨_, _, hprog₃, ?_, by omega⟩, hleft'⟩, by omega⟩
        rw [haddr', haddr]
        omega

theorem spiNorWriteData_call (s : Spi) {flashAddress lengthInBytes : UInt32}
    {buffer : List UInt8} (hlen : buffer.length = lengthInBytes.toNat)
    (hcheck : ¬ flashAddress + lengthInBytes > flashSize) :
    ∃ r, s.spiNorWriteData flashAddress lengthInBytes buffer = .ok r
      ∧ CallTrace s cmdPageProgram flashAddress.toNat lengthInBytes.toNat r := by
  rw [spiNorWriteData, if_neg hcheck]
  exact loopFuel_total
    (I := WriteTrace s flashAddress.toNat lengthInBytes.toNat)
    (μ := fun st => st.lengthInBytes.toNat)
    (fun st hst => writeRound_call hst)
    ⟨⟨0, [], .start s _ _, by
      rw [Nat.add_zero, Nat.mod_eq_of_lt flashAddress.toNat_lt], by
      rw [hlen, Nat.zero_add]⟩, hlen.symm⟩ (Nat.lt_succ_self _)

theorem eraseRound_call {s₀ : Spi} {flashAddress : UInt32} {n i : Nat} {s : Spi}
    (hi : i < n) (hn : n < 4294967296)
    (hs : ∃ es, Progress s₀ cmdSectorErase flashAddress.toNat (4096 * i) es s) :
    ∃ c, eraseRound flashAddress i s = .ok c
      ∧ c.Post
        (fun s' => ∃ es, Progress s₀ cmdSectorErase flashAddress.toNat (4096 * (i + 1)) es s')
        (fun r => r.1 ≠ .success
          ∧ CallTrace s₀ cmdSectorErase flashAddress.toNat (4096 * n) r) := by
  obtain ⟨es, hprog⟩ := hs
  set addr := flashAddress + UInt32.ofNat i * flashSectorSize with haddr
  have hplace : addr.toNat = (flashAddress.toNat + 4096 * i) % 4294967296 := by
    rw [haddr, UInt32.toNat_add, UInt32.toNat_mul,
      UInt32.toNat_ofNat_of_lt' (show i < 4294967296 by omega),
      show flashSectorSize.toNat = 4096 from rfl]
    omega
  have hsound {s : Spi} {es : List Exchange} (htr : s₀.Traced es s) (h : ¬ Sound s) :
      ¬ Sound s₀ := fun hs => h (hs.of_traced htr)
  obtain ⟨status, s₁, enable, henable, htr₁, hun, -⟩ := s.flashWriteEnable_traced
  have hprog₁ := hprog.unaddressed htr₁ hun
  rw [eraseRound, henable, ok_bind]
  dsimp only
  by_cases herr : status.isError
  · exact ⟨_, if_pos herr, EfiStatus.isError_iff.mp herr, CallTrace.of_error hprog₁
      (by omega) herr (hsound hprog.traced (not_sound_of_enable henable herr))⟩
  obtain ⟨answer, status, s₂, hcmd, htr₂, -⟩ :=
    s₁.halCmdOnly_traced (addressedCmd cmdSectorErase addr)
  have hprog₂ := hprog₁.command (m := 4096) htr₂ hplace (size_sectorErase _ _ _ _)
    (by omega)
  rw [if_neg herr, hcmd]
  dsimp only
  by_cases herr : status.isError
  · exact ⟨_, if_pos herr, EfiStatus.isError_iff.mp herr, CallTrace.of_error hprog₂
      (by omega) herr (hsound hprog₁.traced (not_sound_of_write hcmd herr))⟩
  obtain ⟨status, s₃, wait, hwait, htr₃, hpolls, -⟩ := s₂.flashWaitReady_traced
  have hprog₃ := hprog₂.unaddressed htr₃ hpolls.unaddressed
  rw [if_neg herr, hwait, ok_bind]
  dsimp only
  by_cases herr : status.isError
  · exact ⟨_, if_pos herr, EfiStatus.isError_iff.mp herr, CallTrace.of_error hprog₃
      (by omega) herr (hsound hprog₂.traced (not_sound_of_wait hwait herr))⟩
  · exact ⟨_, if_neg herr, _, hprog₃⟩

theorem spiNorErase_call (s : Spi) (flashAddress blockCount : UInt32)
    (haligned : ¬ flashAddress &&& (flashSectorSize - 1) ≠ 0)
    (hcheck : ¬ flashAddress + blockCount * flashSectorSize > flashSize) :
    ∃ r, s.spiNorErase flashAddress blockCount = .ok r
      ∧ CallTrace s cmdSectorErase flashAddress.toNat (4096 * blockCount.toNat) r := by
  obtain ⟨c, hc, hpost⟩ := forFrom_total (n := blockCount.toNat) (i := 0) (s := s)
    (I := fun i s' =>
      ∃ es, Progress s cmdSectorErase flashAddress.toNat (4096 * i) es s')
    (fun i s' _ hi hs' => eraseRound_call (by omega) blockCount.toNat_lt hs')
    ⟨[], .start s _ _⟩
  rw [spiNorErase, if_neg haligned, if_neg hcheck, hc]
  rw [Nat.zero_add] at hpost
  cases c with
  | next s' =>
      obtain ⟨es, hprog⟩ := hpost
      exact ⟨_, rfl, _, es, hprog, Nat.le_refl _, fun _ => rfl, fun _ => rfl⟩
  | exit r => exact ⟨r, rfl, hpost.2⟩

end Spi

/-! ## The checks -/

/-- What the 32-bit sum lets through. -/
theorem check_iff (a n : UInt32) :
    ¬ a + n > flashSize ↔ (a.toNat + n.toNat) % 4294967296 ≤ 16777216 := by
  rw [gt_iff_lt, UInt32.lt_iff_toNat_lt, UInt32.toNat_add,
    show flashSize.toNat = 16777216 from rfl]
  omega

theorem aligned_iff (a : UInt32) :
    ¬ a &&& (flashSectorSize - 1) ≠ 0 ↔ a.toNat % 4096 = 0 := by
  rw [not_not, ← UInt32.toNat_inj, UInt32.toNat_and,
    show (flashSectorSize - 1).toNat = 2 ^ 12 - 1 from rfl, Nat.and_two_pow_sub_one_eq_mod]
  rfl

theorem CallTrace.inside {s : Spi} {op : UInt8} {a n : Nat} {r : EfiStatus × Spi}
    (h : CallTrace s op a n r) (hroom : a + n ≤ flashSize.toNat) :
    InsideFlash (fun _ => a) (s.traceTo r.2) := by
  obtain ⟨k, es, hprog, hk, -, -⟩ := h
  rw [hprog.traced.traceTo_eq]
  exact hprog.inside (by omega) _ rfl

/-- On a bus without errors a call that passed its check goes all the way. -/
theorem CallTrace.not_inside {s : Spi} {op : UInt8} {a n : Nat} {r : EfiStatus × Spi}
    (h : CallTrace s op a n r) (hsound : Sound s) (hn : 0 < n)
    (hroom : ¬ a + n ≤ flashSize.toNat) : ¬ InsideFlash (fun _ => a) (s.traceTo r.2) := by
  obtain ⟨k, es, hprog, -, hall, hok⟩ := h
  obtain rfl := hall (hok hsound)
  rw [hprog.traced.traceTo_eq]
  intro hin
  have hle := afterAll_le op hin
  rw [hprog.counted, Function.update_self] at hle
  omega

theorem Spi.traceTo_self (s : Spi) : s.traceTo s = [] := (Spi.Traced.nil s).traceTo_eq

theorem sound_zeroedSpi : Sound Spi.zeroedSpi := fun _ => ⟨rfl, rfl, rfl⟩

/-- A call stays inside the device on every bus exactly when its check lets
only ranges inside the device through. -/
theorem call_stays_iff {run : Spi → Run (EfiStatus × Spi)} {accepted : Prop} {op : UInt8}
    {a n : Nat} (hrejected : ¬ accepted → ∀ s, run s = .ok (.invalidParameter, s))
    (haccepted : accepted → ∀ s, ∃ r, run s = .ok r ∧ CallTrace s op a n r)
    (hempty : accepted → n = 0 → a ≤ flashSize.toNat) :
    (∀ s, ∃ r, run s = .ok r ∧ InsideFlash (fun _ => a) (s.traceTo r.2)) ↔
      (accepted → a + n ≤ flashSize.toNat) := by
  constructor
  · intro hall hacc
    by_contra hroom
    obtain ⟨r, hrun, hin⟩ := hall Spi.zeroedSpi
    obtain ⟨r', hrun', hcall⟩ := haccepted hacc Spi.zeroedSpi
    obtain rfl := Except.ok.inj (hrun.symm.trans hrun')
    have hpos : 0 < n := by
      by_contra hzero
      have hbase := hempty hacc (by omega)
      omega
    exact hcall.not_inside sound_zeroedSpi hpos hroom hin
  · intro hroom s
    by_cases hacc : accepted
    · obtain ⟨r, hrun, hcall⟩ := haccepted hacc s
      exact ⟨r, hrun, hcall.inside (hroom hacc)⟩
    · refine ⟨_, hrejected hacc s, ?_⟩
      rw [Spi.traceTo_self]
      trivial

end Ccr2004
