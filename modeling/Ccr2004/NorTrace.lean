import Ccr2004.SpiNorFlash

/-!
# The exchanges of a run with the flash

`Transaction` is what the driver put on the bus; an `Exchange` is one with its
answer. `traceTo` lists the exchanges between two states of a run, and `Traced`
is the same relation built up one transfer at a time, so that a method's trace
is put together from the traces of its calls.

The status polls are described here once: `Enabled` is a write enable that was
seen to latch, `Ready` a wait that saw the operation end.
-/

namespace Ccr2004

/-- A transaction and its answer, none when the HAL reports an error. -/
structure Exchange where
  cmd : List UInt8
  data : List UInt8
  count : Nat
  answer : Option (List UInt8)

namespace Spi

/-- The transactions `ts` with the answers the device gives from `s` on. -/
def exchanges : Spi → List Transaction → List Exchange
  | _, [] => []
  | s, t :: ts =>
      ⟨t.cmd, t.data, t.count, (s.transfer t.cmd t.data t.count).1⟩
        :: exchanges (s.transfer t.cmd t.data t.count).2 ts

/-- What a run from `s` to `s'` put on the bus, with the answers. -/
def traceTo (s s' : Spi) : List Exchange := s.exchanges (s'.log.drop s.log.length)

/-- `es` takes the bus from `s` to `s'`. -/
inductive Traced : Spi → List Exchange → Spi → Prop
  | nil (s : Spi) : Traced s [] s
  | cons {s s' : Spi} {es : List Exchange} (cmd data : List UInt8) (n : Nat) :
      Traced (s.transfer cmd data n).2 es s' →
      Traced s (⟨cmd, data, n, (s.transfer cmd data n).1⟩ :: es) s'

theorem Traced.single (s : Spi) (cmd data : List UInt8) (n : Nat) :
    Traced s [⟨cmd, data, n, (s.transfer cmd data n).1⟩] (s.transfer cmd data n).2 :=
  .cons cmd data n (.nil _)

theorem Traced.append {s s' s'' : Spi} {es es' : List Exchange} (h : Traced s es s')
    (h' : Traced s' es' s'') : Traced s (es ++ es') s'' := by
  induction h with
  | nil s => exact h'
  | cons cmd data n _ ih => exact .cons cmd data n (ih h')

theorem transfer_log (s : Spi) (cmd data : List UInt8) (n : Nat) :
    (s.transfer cmd data n).2.log =
      s.log ++ [⟨cmd, data, n, (s.outcome s.log.length).failed⟩] := rfl

/-- A trace is the log with the answers. -/
theorem Traced.log {s s' : Spi} {es : List Exchange} (h : Traced s es s') :
    ∃ ts, s'.log = s.log ++ ts ∧ s.exchanges ts = es := by
  induction h with
  | nil s => exact ⟨[], (List.append_nil _).symm, rfl⟩
  | cons cmd data n _ ih =>
      obtain ⟨ts, hlog, hts⟩ := ih
      rw [transfer_log, List.append_assoc] at hlog
      refine ⟨_, hlog, ?_⟩
      rw [List.singleton_append, exchanges, hts]

theorem Traced.traceTo_eq {s s' : Spi} {es : List Exchange} (h : Traced s es s') :
    s.traceTo s' = es := by
  obtain ⟨ts, hlog, hts⟩ := h.log
  rw [traceTo, hlog, List.drop_left, hts]

theorem Traced.split {s s'' : Spi} {es es' : List Exchange} (h : Traced s (es ++ es') s'') :
    ∃ s', Traced s es s' ∧ Traced s' es' s'' := by
  induction es generalizing s with
  | nil => exact ⟨s, .nil s, h⟩
  | cons e es ih =>
      obtain ⟨⟩ | ⟨cmd, data, n, hrest⟩ := h
      obtain ⟨s', hs', hs''⟩ := ih hrest
      exact ⟨s', .cons cmd data n hs', hs''⟩

theorem Traced.outcome {s s' : Spi} {es : List Exchange} (h : Traced s es s') :
    s'.outcome = s.outcome := by
  induction h with
  | nil s => rfl
  | cons cmd data n _ ih => rw [ih]; rfl

theorem transfer_flash (s : Spi) (cmd data : List UInt8) (n : Nat) :
    (s.transfer cmd data n).2.flash =
      (s.flash.exec (s.outcome s.log.length) cmd data n).1 := rfl

/-- Without an address there is nothing to change. -/
theorem Traced.cells_of_unaddressed {s s' : Spi} {es : List Exchange} (h : Traced s es s')
    (hes : ∀ e ∈ es, e.cmd.length = 1) : s'.flash.cells = s.flash.cells := by
  induction h with
  | nil s => rfl
  | @cons s s' es cmd data n hrest ih =>
      rw [ih fun e he => hes e (List.mem_cons_of_mem _ he), transfer_flash]
      have hlen : cmd.length = 1 := hes _ List.mem_cons_self
      obtain ⟨op, rfl⟩ := List.length_eq_one_iff.mp hlen
      rw [NorFlash.exec]
      split
      · rfl
      · split <;> rfl

end Spi

/-- A status read. -/
def statusRead (answer : Option (List UInt8)) : Exchange := ⟨[cmdReadStatus], [], 1, answer⟩

/-! ## The HAL calls -/

namespace Spi

theorem transfer_cases (s : Spi) (cmd data : List UInt8) (n : Nat) :
    (s.transfer cmd data n).1 = none
      ∨ (s.transfer cmd data n).1 =
        some (s.flash.exec (s.outcome s.log.length) cmd data n).2 := by
  rw [transfer]
  cases (s.outcome s.log.length).failed with
  | false => exact Or.inr rfl
  | true => exact Or.inl rfl

/-- A read that succeeds returns the answer. -/
theorem halRead_traced (s : Spi) (cmd : List UInt8) (n : UInt32) :
    ∃ answer r s', s.halRead cmd n = (r, s') ∧ Traced s [⟨cmd, [], n.toNat, answer⟩] s'
      ∧ ∀ bytes, r = .ok bytes → answer = some bytes := by
  have htr := Traced.single s cmd [] n.toNat
  rw [halRead]
  generalize s.transfer cmd [] n.toNat = p at htr ⊢
  obtain ⟨answer, s'⟩ := p
  cases answer with
  | none => exact ⟨_, _, _, rfl, htr, by simp⟩
  | some bytes => exact ⟨_, _, _, rfl, htr, by simp⟩

theorem halWrite_traced (s : Spi) (cmd data : List UInt8) :
    ∃ answer, ∃ status s', s.halWrite cmd data = (status, s')
      ∧ Traced s [⟨cmd, data, 0, answer⟩] s'
      ∧ (status = .success → ∃ bytes, answer = some bytes) := by
  have htr := Traced.single s cmd data 0
  rw [halWrite]
  generalize s.transfer cmd data 0 = p at htr ⊢
  obtain ⟨answer, s'⟩ := p
  cases answer with
  | none => exact ⟨_, _, _, rfl, htr, by simp⟩
  | some bytes => exact ⟨_, _, _, rfl, htr, by simp⟩

theorem halCmdOnly_traced (s : Spi) (cmd : List UInt8) :
    ∃ answer, ∃ status s', s.halCmdOnly cmd = (status, s')
      ∧ Traced s [⟨cmd, [], 0, answer⟩] s'
      ∧ (status = .success → ∃ bytes, answer = some bytes) :=
  s.halWrite_traced cmd []

theorem flashReadStatus_traced (s : Spi) :
    ∃ answer r s', s.flashReadStatus cmdReadStatus = (r, s')
      ∧ Traced s [statusRead answer] s' ∧ (∀ sr, r = .ok sr → answer = some [sr])
      ∧ ∀ e, r = .error e → e = .deviceError := by
  have hanswer := s.transfer_cases [cmdReadStatus] [] (1 : UInt32).toNat
  have htr := Traced.single s [cmdReadStatus] [] (1 : UInt32).toNat
  rw [flashReadStatus, halRead]
  generalize s.transfer [cmdReadStatus] [] (1 : UInt32).toNat = p at htr hanswer ⊢
  obtain ⟨answer, s'⟩ := p
  rcases hanswer with rfl | rfl
  · exact ⟨_, _, _, rfl, htr, by simp, by simp⟩
  · refine ⟨_, _, _, rfl, htr, ?_, by simp⟩
    rintro sr hsr
    obtain rfl := Except.ok.inj hsr
    rfl

end Spi

/-! ## The status polls -/

/-- Nothing but status reads. -/
def Polls (es : List Exchange) : Prop := ∀ e ∈ es, e.cmd = [cmdReadStatus]

/-- Commands without an address. -/
def Unaddressed (es : List Exchange) : Prop := ∀ e ∈ es, e.cmd.length = 1

/-- A write enable, and status reads until one shows the latch. -/
def Enabled (es : List Exchange) : Prop :=
  ∃ answer polls sr,
    es = ⟨[cmdWriteEnable], [], 0, some answer⟩ :: (polls ++ [statusRead (some [sr])])
      ∧ Polls polls ∧ sr &&& srWel ≠ 0

/-- Status reads until one shows no operation in progress. -/
def Ready (es : List Exchange) : Prop :=
  ∃ polls sr, es = polls ++ [statusRead (some [sr])] ∧ Polls polls ∧ sr &&& srWip = 0

theorem Polls.nil : Polls [] := fun _ he => absurd he List.not_mem_nil

theorem Polls.snoc {es : List Exchange} (h : Polls es) (answer : Option (List UInt8)) :
    Polls (es ++ [statusRead answer]) := by
  intro e he
  rcases List.mem_append.mp he with he | he
  · exact h e he
  · rw [List.mem_singleton.mp he]
    rfl

theorem Polls.unaddressed {es : List Exchange} (h : Polls es) : Unaddressed es := by
  intro e he
  rw [h e he]
  rfl

theorem Unaddressed.append {es es' : List Exchange} (h : Unaddressed es)
    (h' : Unaddressed es') : Unaddressed (es ++ es') := by
  intro e he
  rcases List.mem_append.mp he with he | he
  · exact h e he
  · exact h' e he

theorem Enabled.unaddressed {es : List Exchange} (h : Enabled es) : Unaddressed es := by
  obtain ⟨answer, polls, sr, rfl, hpolls, -⟩ := h
  intro e he
  rcases List.mem_cons.mp he with rfl | he
  · rfl
  · exact (hpolls.snoc _).unaddressed e he

theorem Ready.polls {es : List Exchange} (h : Ready es) : Polls es := by
  obtain ⟨polls, sr, rfl, hpolls, -⟩ := h
  exact hpolls.snoc _

namespace Spi

theorem welRound_traced {s₀ : Spi} (i : Nat) {s : Spi}
    (hs : ∃ es, Traced s₀ es s ∧ Polls es) :
    ∃ c, welRound i s = .ok c
      ∧ c.Post (fun s' => ∃ es, Traced s₀ es s' ∧ Polls es)
          (fun r => ∃ es, Traced s₀ es r.2 ∧ Polls es
            ∧ (r.1 = .success → ∃ polls sr, es = polls ++ [statusRead (some [sr])]
                ∧ Polls polls ∧ sr &&& srWel ≠ 0)) := by
  obtain ⟨es, htr, hpolls⟩ := hs
  obtain ⟨answer, r, s', hread, htr', hok, herr⟩ := s.flashReadStatus_traced
  have hall := htr.append htr'
  rw [welRound, hread]
  cases r with
  | error status =>
      refine ⟨_, rfl, _, hall, hpolls.snoc _, ?_⟩
      rintro rfl
      cases herr _ rfl
  | ok sr =>
      obtain rfl := hok sr rfl
      by_cases hsr : sr &&& srWel ≠ 0
      · exact ⟨_, if_pos hsr, _, hall, hpolls.snoc _, fun _ => ⟨es, sr, rfl, hpolls, hsr⟩⟩
      · exact ⟨_, if_neg hsr, _, hall, hpolls.snoc _⟩

/-- A write enable sends no address, and one that succeeds was seen to
latch. -/
theorem flashWriteEnable_traced (s : Spi) :
    ∃ status s' es, s.flashWriteEnable = .ok (status, s') ∧ Traced s es s'
      ∧ Unaddressed es ∧ (status = .success → Enabled es) := by
  obtain ⟨answer, status, s₁, hcmd, htr, hsome⟩ := s.halCmdOnly_traced [cmdWriteEnable]
  have hwren : Unaddressed [⟨[cmdWriteEnable], [], 0, answer⟩] := by
    intro e he
    rw [List.mem_singleton.mp he]
    rfl
  rw [flashWriteEnable, hcmd]
  by_cases herr : status.isError
  · refine ⟨status, s₁, _, if_pos herr, htr, hwren, ?_⟩
    rintro rfl
    cases herr
  obtain ⟨bytes, rfl⟩ := hsome (EfiStatus.not_isError_iff.mp herr)
  obtain ⟨c, hc, hpost⟩ := forFrom_total (n := 100) (i := 0) (s := s₁)
    (I := fun _ s' => ∃ es, Traced s₁ es s' ∧ Polls es)
    (fun i _ _ _ hs' => welRound_traced i hs')
    ⟨[], .nil s₁, Polls.nil⟩
  dsimp only
  rw [if_neg herr, hc]
  cases c with
  | next s' =>
      obtain ⟨es, htr', hpolls⟩ := hpost
      exact ⟨.deviceError, s', _, rfl, htr.append htr', hwren.append hpolls.unaddressed,
        by simp⟩
  | exit r =>
      obtain ⟨es, htr', hpolls, hwel⟩ := hpost
      refine ⟨r.1, r.2, _, rfl, htr.append htr', hwren.append hpolls.unaddressed, ?_⟩
      intro hsuccess
      obtain ⟨polls, sr, rfl, hpolls, hsr⟩ := hwel hsuccess
      exact ⟨bytes, polls, sr, rfl, hpolls, hsr⟩

theorem wipRound_traced {s₀ : Spi} (i : Nat) {s : Spi}
    (hs : ∃ es, Traced s₀ es s ∧ Polls es) :
    ∃ c, wipRound i s = .ok c
      ∧ c.Post (fun s' => ∃ es, Traced s₀ es s' ∧ Polls es)
          (fun r => ∃ es, Traced s₀ es r.2 ∧ Polls es ∧ (r.1 = .success → Ready es)) := by
  obtain ⟨es, htr, hpolls⟩ := hs
  obtain ⟨answer, r, s', hread, htr', hok, -⟩ := s.flashReadStatus_traced
  have hall := htr.append htr'
  rw [wipRound, hread]
  cases r with
  | error status => exact ⟨_, rfl, _, hall, hpolls.snoc _, by simp⟩
  | ok sr =>
      obtain rfl := hok sr rfl
      by_cases hsr : sr &&& srWip = 0
      · exact ⟨_, if_pos hsr, _, hall, hpolls.snoc _, fun _ => ⟨es, sr, rfl, hpolls, hsr⟩⟩
      · exact ⟨_, if_neg hsr, _, hall, hpolls.snoc _⟩

/-- A wait polls, and one that succeeds saw the operation end. -/
theorem flashWaitReady_traced (s : Spi) :
    ∃ status s' es, s.flashWaitReady = .ok (status, s') ∧ Traced s es s' ∧ Polls es
      ∧ (status = .success → Ready es) := by
  obtain ⟨c, hc, hpost⟩ := forFrom_total (n := wipPollMax) (i := 0) (s := s)
    (I := fun _ s' => ∃ es, Traced s es s' ∧ Polls es)
    (fun i _ _ _ hs' => wipRound_traced i hs')
    ⟨[], .nil s, Polls.nil⟩
  rw [flashWaitReady, hc]
  cases c with
  | next s' =>
      obtain ⟨es, htr, hpolls⟩ := hpost
      exact ⟨.timeout, s', es, rfl, htr, hpolls, by simp⟩
  | exit r =>
      obtain ⟨es, htr, hpolls, hready⟩ := hpost
      exact ⟨r.1, r.2, es, rfl, htr, hpolls, hready⟩

end Spi

end Ccr2004
