import Ccr2004.DwI2cPushed

/-!
# The errors of a request

The error conditions of the controller stay in `RAW_INTR_STAT` until they are
cleared. `latchingMmio` puts that behaviour around a controller of any kind,
and around a source of errors that raises any of them before any access. What
was raised since the interrupts were cleared is then still pending or has
been cleared (`Latches.Accounted`), through every loop of a request. The
FIFO waits clear what they find and look at TX_ABRT alone, so a request that
ends with success has had no error exactly when its waits have cleared none
(`errorsReported_iff`).
-/

namespace Ccr2004

/-! ## A controller that latches its errors -/

/-- The controller, the error conditions pending in `RAW_INTR_STAT`, and two
histories since `CLR_INTR` was read: those raised, and those cleared by a
read of their own register. -/
structure Latches (τ : Type) where
  device : τ
  raw : UInt32
  raised : UInt32
  cleared : UInt32

namespace Latches

variable {τ : Type}

def latch (errors : UInt32) (s : Latches τ) : Latches τ :=
  { s with
    raw := s.raw ||| (errors &&& dwIcErrCondition)
    raised := s.raised ||| (errors &&& dwIcErrCondition) }

def clear (mask : UInt32) (s : Latches τ) : Latches τ :=
  { s with
    raw := s.raw &&& ~~~mask
    cleared := s.cleared ||| (s.raw &&& mask) }

end Latches

/-- The registers of a controller that latches what `raise` gives before each
access. -/
def latchingMmio {τ : Type} (inner : DwMmio τ) (raise : τ → UInt32) : DwMmio (Latches τ) where
  read reg s :=
    let s := s.latch (raise s.device)
    let (v, device) := inner.read reg s.device
    let s := { s with device := device }
    match reg with
    | .rawIntrStat => ((v &&& ~~~dwIcErrCondition) ||| s.raw, s)
    | .clrIntr => (v, { s with raw := 0, raised := 0, cleared := 0 })
    | .clrRxUnder => (v, s.clear dwIcIntrRxUnder)
    | .clrRxOver => (v, s.clear dwIcIntrRxOver)
    | .clrTxAbrt => (v, s.clear dwIcIntrTxAbrt)
    | _ => (v, s)
  write reg v s :=
    let s := s.latch (raise s.device)
    { s with device := inner.write reg v s.device }

/-- What was raised is pending or cleared, and only errors are pending. -/
structure Latches.Accounted {τ : Type} (s : Latches τ) : Prop where
  raised : s.raised = s.raw ||| s.cleared
  errors : s.raw &&& dwIcErrCondition = s.raw

section Latching

variable {τ : Type}

theorem clear_or_kept (raw cleared mask : UInt32) :
    (raw &&& ~~~mask) ||| (cleared ||| (raw &&& mask)) = raw ||| cleared := by
  apply UInt32.eq_of_toBitVec_eq
  simp only [UInt32.toBitVec_or, UInt32.toBitVec_and, UInt32.toBitVec_not]
  ext i hi
  simp only [BitVec.getElem_or, BitVec.getElem_and, BitVec.getElem_not]
  cases raw.toBitVec[i] <;> cases cleared.toBitVec[i] <;> cases mask.toBitVec[i] <;> rfl

theorem Latches.Accounted.latch {s : Latches τ} (h : s.Accounted) (errors : UInt32) :
    (s.latch errors).Accounted := by
  constructor
  · show s.raised ||| _ = s.raw ||| _ ||| s.cleared
    rw [h.raised, UInt32.or_assoc, UInt32.or_assoc, UInt32.or_comm s.cleared]
  · show (s.raw ||| (errors &&& dwIcErrCondition)) &&& dwIcErrCondition = _
    rw [or_and_distrib, h.errors, UInt32.and_assoc, UInt32.and_self]
    rfl

theorem Latches.Accounted.clear {s : Latches τ} (h : s.Accounted) (mask : UInt32) :
    (s.clear mask).Accounted := by
  constructor
  · show s.raised = (s.raw &&& ~~~mask) ||| (s.cleared ||| (s.raw &&& mask))
    rw [clear_or_kept, h.raised]
  · show s.raw &&& ~~~mask &&& dwIcErrCondition = s.raw &&& ~~~mask
    rw [UInt32.and_assoc, UInt32.and_comm (~~~mask), ← UInt32.and_assoc, h.errors]

theorem Latches.accounted_cleared (device : τ) : (⟨device, 0, 0, 0⟩ : Latches τ).Accounted :=
  ⟨UInt32.zero_or.symm, UInt32.zero_and⟩

/-- The device alone does not matter. -/
theorem Latches.Accounted.withDevice {s : Latches τ} (h : s.Accounted) (device : τ) :
    { s with device := device }.Accounted :=
  ⟨h.raised, h.errors⟩

end Latching

/-! ## Properties of the controller along a request -/

/-- A property of the controller that no register access changes. -/
structure DeviceKeeps {σ : Type} (mmio : DwMmio σ) (I : σ → Prop) : Prop where
  read : ∀ reg s, I s → I (mmio.read reg s).2
  write : ∀ reg v s, I s → I (mmio.write reg v s)

section Keeps

variable {σ : Type} {mmio : DwMmio σ} {I : σ → Prop} (hI : DeviceKeeps mmio I)
include hI

theorem DeviceKeeps.quiet : Quiet mmio fun bus => I bus.device where
  read reg _ bus hbus := hI.read reg bus.device hbus
  write reg _ v bus hbus := hI.write reg v bus.device hbus

theorem DeviceKeeps.readOperationByte {txFifo : UInt32} {isLastOp needRestart : Bool} {i : Nat}
    {s : OpState σ} {c : Flow (OpState σ) (EfiStatus × OpState σ)}
    (h : readOperationByte mmio txFifo isLastOp needRestart i s = .ok c)
    (hs : I s.bus.device) :
    c.Post (fun s' => I s'.bus.device) (fun t => I t.2.bus.device) := by
  have htx := hI.quiet.waitTxData txFifo s.bus hs
  rw [Ccr2004.readOperationByte] at h
  generalize dwI2cWaitTxData mmio txFifo s.bus = tx at h htx
  obtain ⟨txStatus, txBus⟩ := tx
  dsimp only at h htx
  split at h
  · obtain rfl := Except.ok.inj h
    exact htx
  · generalize cmdData dwIcDataCmdCmd _ _ = cmd at h
    have hrx := hI.quiet.waitRxData (dwI2cWrite mmio .dataCmd cmd txBus)
      (hI.write .dataCmd cmd _ htx)
    generalize dwI2cWaitRxData mmio (dwI2cWrite mmio .dataCmd cmd txBus) = rx at h hrx
    obtain ⟨rxStatus, rxBus⟩ := rx
    dsimp only at h hrx
    split at h
    · obtain rfl := Except.ok.inj h
      exact hrx
    · split at h
      · obtain rfl := Except.ok.inj h
        exact hI.read .dataCmd _ hrx
      · cases h

theorem DeviceKeeps.writeOperationByte {txFifo : UInt32} {isLastOp needRestart : Bool} {i : Nat}
    {s : OpState σ} {c : Flow (OpState σ) (EfiStatus × OpState σ)}
    (h : writeOperationByte mmio txFifo isLastOp needRestart i s = .ok c)
    (hs : I s.bus.device) :
    c.Post (fun s' => I s'.bus.device) (fun t => I t.2.bus.device) := by
  have htx := hI.quiet.waitTxData txFifo s.bus hs
  rw [Ccr2004.writeOperationByte] at h
  generalize dwI2cWaitTxData mmio txFifo s.bus = tx at h htx
  obtain ⟨txStatus, txBus⟩ := tx
  dsimp only at h htx
  split at h
  · obtain rfl := Except.ok.inj h
    exact htx
  · split at h
    · cases h
    · obtain rfl := Except.ok.inj h
      exact hI.write .dataCmd _ _ htx

theorem DeviceKeeps.transferOperation {txFifo : UInt32} {count i : Nat} {st : RequestState σ}
    {c : Flow (RequestState σ) (EfiStatus × RequestState σ)}
    (h : transferOperation mmio txFifo count i st = .ok c) (hst : I st.bus.device) :
    c.Post (fun st' => I st'.bus.device) (fun t => I t.2.bus.device) := by
  rw [Ccr2004.transferOperation] at h
  split at h
  · cases h
  · rename_i op _
    obtain ⟨c', hloop, h⟩ := bind_eq_ok.mp h
    have hpost : c'.Post (fun s' => I s'.bus.device) (fun t => I t.2.bus.device) := by
      refine forFrom_post (I := fun _ s => I s.bus.device) (fun j s c _ _ hs hround => ?_) hst hloop
      split at hround
      · exact hI.readOperationByte hround hs
      · exact hI.writeOperationByte hround hs
    cases c' with
    | next s' =>
        obtain rfl := Except.ok.inj h
        exact hpost
    | exit t =>
        obtain rfl := Except.ok.inj h
        exact hpost

theorem DeviceKeeps.transferOperations {txFifo : UInt32} {operations : List I2cOperation}
    {bus : DwBus σ} {c : Flow (RequestState σ) (EfiStatus × RequestState σ)}
    (h : transferOperations mmio txFifo operations bus = .ok c) (hbus : I bus.device) :
    c.Post (fun st => I st.bus.device) (fun t => I t.2.bus.device) :=
  forFrom_post (I := fun _ st => I st.bus.device)
    (fun _ _ _ _ _ hst hround => hI.transferOperation hround hst) hbus h

end Keeps

/-! ## From the cleared interrupts to the final check -/

section Final

variable {τ : Type} {inner : DwMmio τ} {raise : τ → UInt32}

theorem accounted_keeps : DeviceKeeps (latchingMmio inner raise) Latches.Accounted where
  read reg s hs := by
    have hlatched := (hs.latch (raise s.device)).withDevice
      (inner.read reg (s.latch (raise s.device)).device).2
    cases reg with
    | clrIntr => exact Latches.accounted_cleared _
    | clrRxUnder => exact hlatched.clear _
    | clrRxOver => exact hlatched.clear _
    | clrTxAbrt => exact hlatched.clear _
    | _ => exact hlatched
  write reg v s hs := (hs.latch (raise s.device)).withDevice _

/-- Whatever was pending before, the cleared interrupts leave nothing. -/
theorem beginRequest_accounted {slaveAddress : UInt64} {bus bus' : DwBus (Latches τ)}
    (h : beginRequest (latchingMmio inner raise) slaveAddress bus = (.success, bus')) :
    bus'.device.Accounted := by
  dsimp only [beginRequest] at h
  split at h
  · rename_i hbusy
    rw [(Prod.mk.inj h).1] at hbusy
    cases hbusy
  · obtain rfl := (Prod.mk.inj h).2
    exact Latches.accounted_cleared _

/-- The request gets to the check of errors at its end, with this bus. -/
def ReachesFinalCheck {σ : Type} (mmio : DwMmio σ) (txFifo : UInt32) (slaveAddress : UInt64)
    (operations : List I2cOperation) (device : σ) (bus : DwBus σ) : Prop :=
  ∃ st status, ReachesCompletionWait mmio txFifo slaveAddress operations device st
    ∧ dwI2cFinish mmio st.bus = (status, bus) ∧ ¬ status.isError = true

variable {txFifo : UInt32} {slaveAddress : UInt64} {operations : List I2cOperation}
  {start : Latches τ}

theorem finalCheck_accounted {bus : DwBus (Latches τ)}
    (h : ReachesFinalCheck (latchingMmio inner raise) txFifo slaveAddress operations start bus) :
    (dwI2cRead (latchingMmio inner raise) .rawIntrStat bus).2.device.Accounted := by
  obtain ⟨st, status, ⟨-, begun, hbegin, hloop⟩, hfinish, -⟩ := h
  have hst : st.bus.device.Accounted :=
    accounted_keeps.transferOperations hloop (beginRequest_accounted hbegin)
  have hkeeps : DeviceKeeps (latchingMmio inner raise) Latches.Accounted := accounted_keeps
  have hbus := hkeeps.quiet.finish st.bus hst
  rw [hfinish] at hbus
  exact hkeeps.read .rawIntrStat bus.device hbus

/-- The request gets there in one way. -/
theorem finalCheck_unique {σ : Type} {mmio : DwMmio σ} {device : σ} {bus bus' : DwBus σ}
    (h : ReachesFinalCheck mmio txFifo slaveAddress operations device bus)
    (h' : ReachesFinalCheck mmio txFifo slaveAddress operations device bus') : bus = bus' := by
  obtain ⟨st, status, ⟨-, begun, hbegin, hloop⟩, hfinish, -⟩ := h
  obtain ⟨st', status', ⟨-, begun', hbegin', hloop'⟩, hfinish', -⟩ := h'
  obtain rfl := (Prod.mk.inj (hbegin.symm.trans hbegin')).2
  obtain rfl := Flow.next.inj (Except.ok.inj (hloop.symm.trans hloop'))
  exact (Prod.mk.inj (hfinish.symm.trans hfinish')).2

/-- The status the final check gives. -/
theorem finishRequest_status {σ : Type} {mmio : DwMmio σ} {st : RequestState σ}
    {status : EfiStatus} {bus : DwBus σ} (hfinish : dwI2cFinish mmio st.bus = (status, bus))
    (hok : ¬ status.isError = true) :
    (finishRequest mmio st.bus).1 = .success
      ↔ (dwI2cRead mmio .rawIntrStat bus).1 &&& dwIcErrCondition = 0 := by
  have hsplit : ∀ v : UInt32, v &&& dwIcErrCondition = 0
      ↔ v &&& dwIcErrCondition &&& dwIcIntrTxAbrt = 0
        ∧ v &&& dwIcErrCondition &&& (dwIcIntrRxUnder ||| dwIcIntrRxOver) = 0 := by
    intro v
    constructor
    · intro h
      rw [h]
      exact ⟨rfl, rfl⟩
    · rintro ⟨htx, hrx⟩
      have hall : dwIcErrCondition = (dwIcIntrRxUnder ||| dwIcIntrRxOver) ||| dwIcIntrTxAbrt := rfl
      have hself : v &&& dwIcErrCondition &&& dwIcErrCondition = v &&& dwIcErrCondition := by
        rw [UInt32.and_assoc, UInt32.and_self]
      rw [← hself]
      conv_lhs => rw [hall, UInt32.and_comm, or_and_distrib]
      rw [UInt32.and_comm _ (v &&& _), UInt32.and_comm _ (v &&& _), ← hall, hrx, htx]
      rfl
  rw [finishRequest, hfinish, hsplit]
  dsimp only
  rw [if_neg hok]
  show (if _ then EfiStatus.noResponse else if _ then .deviceError else .success) = _ ↔ _
  split
  · rename_i htx
    exact iff_of_false (fun h => by cases h) fun h => htx h.1
  · rename_i htx
    split
    · rename_i hrx
      exact iff_of_false (fun h => by cases h) fun h => hrx h.2
    · rename_i hrx
      exact iff_of_true rfl ⟨not_not.mp htx, not_not.mp hrx⟩

/-- What the read of `RAW_INTR_STAT` shows is what is pending. -/
theorem rawIntrStat_errors (bus : DwBus (Latches τ))
    (h : (dwI2cRead (latchingMmio inner raise) .rawIntrStat bus).2.device.Accounted) :
    (dwI2cRead (latchingMmio inner raise) .rawIntrStat bus).1 &&& dwIcErrCondition
      = (dwI2cRead (latchingMmio inner raise) .rawIntrStat bus).2.device.raw := by
  have herrors := h.errors
  show ((_ &&& ~~~dwIcErrCondition) ||| _) &&& dwIcErrCondition = _
  rw [or_and_distrib, UInt32.and_assoc]
  refine Eq.trans ?_ herrors
  rw [show ~~~dwIcErrCondition &&& dwIcErrCondition = 0 from rfl, UInt32.and_zero,
    UInt32.zero_or]
  rfl

end Final

/-! ## No error is swallowed -/

/-- `DwI2cStartRequest` with its `Done` label: what it returns, and what it
leaves in `*I2cStatus` when that is given. -/
def dwI2cStartRequestDone {σ : Type} (mmio : DwMmio σ) (txFifo : UInt32) (slaveAddress : UInt64)
    (packet : Option I2cRequestPacket) (i2cStatus : Option EfiStatus) (bus : DwBus σ) :
    Run (EfiStatus × Option EfiStatus × RequestState σ) := do
  let (status, st) ← dwI2cStartRequest mmio txFifo slaveAddress packet bus
  .ok (status, i2cStatus.map fun _ => status, st)

section Errors

variable {τ : Type} (inner : DwMmio τ) (raise : τ → UInt32) (txFifo : UInt32)
  (slaveAddress : UInt64) (packet : Option I2cRequestPacket) (start : Latches τ)

/-- `*I2cStatus` is what is returned, and with success no error was raised
from the cleared interrupts to the final check. -/
def ErrorsReported : Prop :=
  ∀ i2cStatus status out st,
    dwI2cStartRequestDone (latchingMmio inner raise) txFifo slaveAddress packet i2cStatus
        ⟨start, [], []⟩ = .ok (status, out, st) →
    out = i2cStatus.map (fun _ => status)
      ∧ (status = .success → ∃ p bus, packet = some p
          ∧ ReachesFinalCheck (latchingMmio inner raise) txFifo slaveAddress p.operations start bus
          ∧ (dwI2cRead (latchingMmio inner raise) .rawIntrStat bus).2.device.raised = 0)

/-- When the final check finds no error, none was found before and
cleared. -/
def NoneCleared : Prop :=
  ∀ p bus, packet = some p →
    ReachesFinalCheck (latchingMmio inner raise) txFifo slaveAddress p.operations start bus →
    (dwI2cRead (latchingMmio inner raise) .rawIntrStat bus).2.device.raw = 0 →
    (dwI2cRead (latchingMmio inner raise) .rawIntrStat bus).2.device.cleared = 0

variable {inner raise txFifo slaveAddress packet start} in
theorem ErrorsReported.noneCleared
    (h : ErrorsReported inner raise txFifo slaveAddress packet start) :
    NoneCleared inner raise txFifo slaveAddress packet start := by
  rintro p bus rfl hfinal hraw
  have haccounted := finalCheck_accounted hfinal
  obtain ⟨st, status, hwait, hfinish, hok⟩ := id hfinal
  have hsuccess : (finishRequest (latchingMmio inner raise) st.bus).1 = .success := by
    rw [finishRequest_status hfinish hok, rawIntrStat_errors bus haccounted, hraw]
  have hrun := startRequest_from_wait (latchingMmio inner raise) txFifo hwait
  have hdone : dwI2cStartRequestDone (latchingMmio inner raise) txFifo slaveAddress (some p)
      none ⟨start, [], []⟩
        = .ok (.success, none,
            { st with bus := (finishRequest (latchingMmio inner raise) st.bus).2 }) := by
    rw [dwI2cStartRequestDone, hrun, hsuccess]
    rfl
  obtain ⟨p', bus', hp, hfinal', hraised⟩ := (h _ _ _ _ hdone).2 rfl
  obtain rfl := Option.some.inj hp
  obtain rfl := finalCheck_unique hfinal hfinal'
  rw [haccounted.raised, hraw, UInt32.zero_or] at hraised
  exact hraised

variable {inner raise txFifo slaveAddress packet start} in
theorem NoneCleared.errorsReported
    (h : NoneCleared inner raise txFifo slaveAddress packet start) :
    ErrorsReported inner raise txFifo slaveAddress packet start := by
  intro i2cStatus status out st hdone
  rw [dwI2cStartRequestDone] at hdone
  obtain ⟨⟨status', st'⟩, hrun, hret⟩ := bind_eq_ok.mp hdone
  obtain ⟨rfl, htail⟩ := Prod.mk.inj (Except.ok.inj hret)
  obtain ⟨rfl, rfl⟩ := Prod.mk.inj htail
  refine ⟨rfl, fun hsuccess => ?_⟩
  subst hsuccess
  cases packet with
  | none => cases hrun
  | some p =>
      rcases startRequest_cases hrun with
        ⟨hfailed, -⟩ | ⟨st', hwait, hok, hstatus, -⟩ | ⟨status', st', habort, hstatus, -⟩
      · cases hfailed
      · obtain ⟨finish, bus, hfinish⟩ : ∃ finish bus,
            dwI2cFinish (latchingMmio inner raise) st'.bus = (finish, bus) := ⟨_, _, rfl⟩
        rw [hfinish] at hok
        have hfinal : ReachesFinalCheck (latchingMmio inner raise) txFifo slaveAddress
            p.operations start bus := ⟨st', finish, hwait, hfinish, hok⟩
        have haccounted := finalCheck_accounted hfinal
        have hraw := (finishRequest_status hfinish hok).mp hstatus.symm
        rw [rawIntrStat_errors bus haccounted] at hraw
        refine ⟨p, bus, rfl, hfinal, ?_⟩
        rw [haccounted.raised, hraw, h p bus rfl hfinal hraw]
        rfl
      · have hfailed := abort_failed habort
        rw [abortRequest] at hstatus
        dsimp only at hstatus
        split at hstatus
        · cases hstatus
        · rw [← hstatus] at hfailed
          cases hfailed

/-- Errors are reported exactly when no wait has cleared one before a final
check that finds none. -/
theorem errorsReported_iff :
    ErrorsReported inner raise txFifo slaveAddress packet start
      ↔ NoneCleared inner raise txFifo slaveAddress packet start :=
  ⟨ErrorsReported.noneCleared, NoneCleared.errorsReported⟩

end Errors

/-- A controller whose transmit FIFO is full when it is first looked at; the
state is the enable register and whether it has been. -/
def fullOnce : DwMmio (UInt32 × Bool) where
  read reg s :=
    match reg with
    | .status => (0x0C, s)
    | .rawIntrStat => (0x200, s)
    | .enableStatus => (s.1, s)
    | .txflr => (if s.2 then 0 else 16, (s.1, true))
    | _ => (0, s)
  write reg v s := if reg = .enable then (v, s.2) else s

/-- RX_OVER is raised while the request waits for that FIFO, and the request
ends with success. -/
theorem not_errorsReported_overrun :
    ¬ ErrorsReported fullOnce (fun s => if s.2 then 0 else dwIcIntrRxOver) 16 0x50
      (some (.writeByte 0x10)) ⟨(0, false), 0, 0, 0⟩ := by
  intro h
  have hfinal : ReachesFinalCheck
      (latchingMmio fullOnce fun s => if s.2 then 0 else dwIcIntrRxOver) 16 0x50
      [.writeByte 0x10] ⟨(0, false), 0, 0, 0⟩
      ⟨⟨(1, true), 0, dwIcIntrRxOver, dwIcIntrRxOver⟩, [0x210], []⟩ :=
    ⟨⟨⟨⟨(1, true), 0, dwIcIntrRxOver, dwIcIntrRxOver⟩, [0x210], []⟩, [.writeByte 0x10]⟩, .success,
      ⟨by decide, _, rfl, rfl⟩, rfl, by decide⟩
  have hcleared := h.noneCleared _ _ rfl hfinal rfl
  exact absurd hcleared (by decide)

end Ccr2004
