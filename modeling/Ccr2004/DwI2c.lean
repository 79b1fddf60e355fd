import Ccr2004.Efi
import Ccr2004.I2c

/-!
# The DesignWare I2C controller

`DwI2cStartRequest` of `DwI2cDxe.c` with the functions it calls. The
controller is the environment: a register access is answered from a device
state of any type, so every timing of the FIFOs is covered. `words` and
`received` are history variables: what was written to `DATA_CMD` and what
was read from it.

The polls leave both histories alone (`quiet_traffic`), so the framing of a
transaction is decided by the two nested loops alone. What they have written
when they end is `requestWords`, with the STOP bit on the last word only if
the last operation has a byte to carry it.
-/

namespace Ccr2004

/-! ## Registers -/

inductive DwReg where
  | tar | dataCmd | rawIntrStat
  | clrIntr | clrRxUnder | clrRxOver | clrTxAbrt | clrStopDet
  | enable | status | txflr | enableStatus
deriving Repr, DecidableEq

def dwIcDataCmdDatMask : UInt32 := 0xFF
def dwIcDataCmdCmd : UInt32 := 0x100
def dwIcDataCmdStop : UInt32 := 0x200
def dwIcDataCmdRestart : UInt32 := 0x400

def dwIcIntrRxUnder : UInt32 := 0x001
def dwIcIntrRxOver : UInt32 := 0x002
def dwIcIntrTxAbrt : UInt32 := 0x040
def dwIcIntrStopDet : UInt32 := 0x200
def dwIcErrCondition : UInt32 := dwIcIntrRxUnder ||| dwIcIntrRxOver ||| dwIcIntrTxAbrt

def dwIcStatusTfe : UInt32 := 0x04
def dwIcStatusRfne : UInt32 := 0x08
def dwIcStatusMstActivity : UInt32 := 0x20

def dwMaxTransferPollCount : Nat := 100000
def dwMaxStatusPollCount : Nat := 100
def dwMaxMstActivityPollCount : Nat := 20

/-- `MmioRead32` and `MmioWrite32` on the registers of one controller. -/
structure DwMmio (σ : Type) where
  read : DwReg → σ → UInt32 × σ
  write : DwReg → UInt32 → σ → σ

/-- The controller with the traffic through `DATA_CMD`. -/
structure DwBus (σ : Type) where
  device : σ
  words : List UInt32
  received : List UInt32

section Controller

variable {σ : Type} (mmio : DwMmio σ) (txFifo : UInt32)

def dwI2cRead (reg : DwReg) (bus : DwBus σ) : UInt32 × DwBus σ :=
  let (v, device) := mmio.read reg bus.device
  (v, { bus with
    device := device
    received := if reg = .dataCmd then bus.received ++ [v] else bus.received })

def dwI2cWrite (reg : DwReg) (v : UInt32) (bus : DwBus σ) : DwBus σ :=
  { bus with
    device := mmio.write reg v bus.device
    words := if reg = .dataCmd then bus.words ++ [v] else bus.words }

/-! ## Polls -/

/-- A poll loop: repeat a check until it gives a status, `EFI_TIMEOUT` after
the last round. -/
def poll (check : DwBus σ → Option EfiStatus × DwBus σ) :
    Nat → DwBus σ → EfiStatus × DwBus σ
  | 0, bus => (.timeout, bus)
  | n + 1, bus =>
      match check bus with
      | (some status, bus) => (status, bus)
      | (none, bus) => poll check n bus

def dwI2cEnable (enable : UInt32) (bus : DwBus σ) : EfiStatus × DwBus σ :=
  let bus := dwI2cWrite mmio .enable enable bus
  poll (fun bus =>
    let (v, bus) := dwI2cRead mmio .enableStatus bus
    (if v &&& 0x01 = enable then some .success else none, bus))
    dwMaxStatusPollCount bus

/-- Read a register for its side effect if a condition holds. -/
def readIf (cond : Prop) [Decidable cond] (reg : DwReg) (bus : DwBus σ) : DwBus σ :=
  if cond then (dwI2cRead mmio reg bus).2 else bus

def dwI2cCheckErrors (bus : DwBus σ) : UInt32 × DwBus σ :=
  let (raw, bus) := dwI2cRead mmio .rawIntrStat bus
  let errors := raw &&& dwIcErrCondition
  let bus := readIf mmio (errors &&& dwIcIntrRxUnder ≠ 0) .clrRxUnder bus
  let bus := readIf mmio (errors &&& dwIcIntrRxOver ≠ 0) .clrRxOver bus
  let bus := readIf mmio (errors &&& dwIcIntrTxAbrt ≠ 0) .clrTxAbrt bus
  (errors, bus)

def dwI2cWaitBusNotBusy (bus : DwBus σ) : EfiStatus × DwBus σ :=
  poll (fun bus =>
    let (v, bus) := dwI2cRead mmio .status bus
    (if v &&& dwIcStatusMstActivity = 0 then some .success else none, bus))
    dwMaxMstActivityPollCount bus

/-- What the two FIFO waits do in a round that is not yet ready. -/
def abortCheck (bus : DwBus σ) : Option EfiStatus × DwBus σ :=
  let (errors, bus) := dwI2cCheckErrors mmio bus
  (if errors &&& dwIcIntrTxAbrt ≠ 0 then some .aborted else none, bus)

def dwI2cWaitTxData (bus : DwBus σ) : EfiStatus × DwBus σ :=
  poll (fun bus =>
    let (level, bus) := dwI2cRead mmio .txflr bus
    if level < txFifo then (some .success, bus) else abortCheck mmio bus)
    dwMaxTransferPollCount bus

def dwI2cWaitRxData (bus : DwBus σ) : EfiStatus × DwBus σ :=
  poll (fun bus =>
    let (v, bus) := dwI2cRead mmio .status bus
    if v &&& dwIcStatusRfne ≠ 0 then (some .success, bus) else abortCheck mmio bus)
    dwMaxTransferPollCount bus

def dwI2cFinish (bus : DwBus σ) : EfiStatus × DwBus σ :=
  let (status, bus) := poll (fun bus =>
    let (v, bus) := dwI2cRead mmio .status bus
    (if v &&& dwIcStatusTfe ≠ 0 then some .success else none, bus))
    dwMaxTransferPollCount bus
  if status.isError then (status, bus)
  else
    poll (fun bus =>
      let (v, bus) := dwI2cRead mmio .rawIntrStat bus
      if v &&& dwIcIntrStopDet ≠ 0 then
        (some .success, (dwI2cRead mmio .clrStopDet bus).2)
      else (none, bus))
      dwMaxTransferPollCount bus

/-! ## The request -/

/-- The bus and the operation a byte loop works on. -/
structure OpState (σ : Type) where
  bus : DwBus σ
  op : I2cOperation

/-- The bus and the packet an operation loop works on. -/
structure RequestState (σ : Type) where
  bus : DwBus σ
  operations : List I2cOperation

/-- `CmdData` for a byte of an operation. -/
def cmdData (base : UInt32) (isLastByte restart : Bool) : UInt32 :=
  let cmd := base
  let cmd := if isLastByte then cmd ||| dwIcDataCmdStop else cmd
  if restart then cmd ||| dwIcDataCmdRestart else cmd

/-- One round of the byte loop of a read operation. -/
def readOperationByte (isLastOp needRestart : Bool) (byteIdx : Nat) (s : OpState σ) :
    Run (Flow (OpState σ) (EfiStatus × OpState σ)) :=
  let (status, bus) := dwI2cWaitTxData mmio txFifo s.bus
  if status.isError then .ok (.exit (status, { s with bus := bus }))
  else
    let isLastByte := isLastOp && byteIdx + 1 == s.op.buffer.length
    let cmd := cmdData dwIcDataCmdCmd isLastByte (needRestart && byteIdx == 0)
    let bus := dwI2cWrite mmio .dataCmd cmd bus
    let (status, bus) := dwI2cWaitRxData mmio bus
    if status.isError then .ok (.exit (status, { s with bus := bus }))
    else
      let (v, bus) := dwI2cRead mmio .dataCmd bus
      if byteIdx < s.op.buffer.length then
        .ok (.next ⟨bus, s.op.setByte byteIdx (v &&& dwIcDataCmdDatMask).toUInt8⟩)
      else .error .outOfBounds

/-- One round of the byte loop of a write operation. -/
def writeOperationByte (isLastOp needRestart : Bool) (byteIdx : Nat) (s : OpState σ) :
    Run (Flow (OpState σ) (EfiStatus × OpState σ)) :=
  let (status, bus) := dwI2cWaitTxData mmio txFifo s.bus
  if status.isError then .ok (.exit (status, { s with bus := bus }))
  else
    let isLastByte := isLastOp && byteIdx + 1 == s.op.buffer.length
    match s.op.buffer[byteIdx]? with
    | none => .error .outOfBounds
    | some b =>
        let cmd := cmdData (b.toUInt32 &&& dwIcDataCmdDatMask) isLastByte
          (needRestart && byteIdx == 0)
        .ok (.next { s with bus := dwI2cWrite mmio .dataCmd cmd bus })

/-- The byte loop of operation `opIdx` out of `count`. -/
def transferOperation (count opIdx : Nat) (st : RequestState σ) :
    Run (Flow (RequestState σ) (EfiStatus × RequestState σ)) :=
  match st.operations[opIdx]? with
  | none => .error .outOfBounds
  | some op => do
      let isLastOp := opIdx + 1 == count
      let needRestart := decide (opIdx > 0)
      let round := if op.isRead then readOperationByte mmio txFifo isLastOp needRestart
        else writeOperationByte mmio txFifo isLastOp needRestart
      match ← forFrom round op.buffer.length 0 ⟨st.bus, op⟩ with
      | .next s => .ok (.next ⟨s.bus, st.operations.set opIdx s.op⟩)
      | .exit (status, s) => .ok (.exit (status, ⟨s.bus, st.operations.set opIdx s.op⟩))

/-- The loop over the operations. -/
def transferOperations (operations : List I2cOperation) (bus : DwBus σ) :
    Run (Flow (RequestState σ) (EfiStatus × RequestState σ)) :=
  forFrom (transferOperation mmio txFifo operations.length) operations.length 0
    ⟨bus, operations⟩

/-- From the bus check to the cleared interrupts. -/
def beginRequest (slaveAddress : UInt64) (bus : DwBus σ) : EfiStatus × DwBus σ :=
  let (status, bus) := dwI2cWaitBusNotBusy mmio bus
  if status.isError then (status, bus)
  else
    let (_, bus) := dwI2cEnable mmio 0 bus
    let bus := dwI2cWrite mmio .tar (slaveAddress &&& 0x3FF).toUInt32 bus
    let (_, bus) := dwI2cEnable mmio 1 bus
    let (_, bus) := dwI2cRead mmio .clrIntr bus
    (.success, bus)

/-- The bus left alone and disabled. -/
def endRequest (bus : DwBus σ) : DwBus σ :=
  let (_, bus) := dwI2cWaitBusNotBusy mmio bus
  (dwI2cEnable mmio 0 bus).2

/-- The `Abort` label. -/
def abortRequest (status : EfiStatus) (bus : DwBus σ) : EfiStatus × DwBus σ :=
  let bus := dwI2cWrite mmio .dataCmd dwIcDataCmdStop bus
  let (_, bus) := dwI2cFinish mmio bus
  let (_, bus) := dwI2cCheckErrors mmio bus
  (if status = .aborted then .noResponse else status, endRequest mmio bus)

/-- From the completion wait on. -/
def finishRequest (bus : DwBus σ) : EfiStatus × DwBus σ :=
  let (status, bus) := dwI2cFinish mmio bus
  if status.isError then abortRequest mmio status bus
  else
    let (errors, bus) := dwI2cCheckErrors mmio bus
    let status :=
      if errors &&& dwIcIntrTxAbrt ≠ 0 then EfiStatus.noResponse
      else if errors &&& (dwIcIntrRxUnder ||| dwIcIntrRxOver) ≠ 0 then .deviceError
      else .success
    (status, endRequest mmio bus)

/-- `DwI2cStartRequest`: the status, and the bus and the packet it leaves. -/
def dwI2cStartRequest (slaveAddress : UInt64) (packet : Option I2cRequestPacket)
    (bus : DwBus σ) : Run (EfiStatus × RequestState σ) :=
  match packet with
  | none => .ok (.invalidParameter, ⟨bus, []⟩)
  | some packet =>
      if packet.operations.length = 0 then .ok (.invalidParameter, ⟨bus, packet.operations⟩)
      else
        let (status, bus) := beginRequest mmio slaveAddress bus
        if status.isError then .ok (status, ⟨bus, packet.operations⟩)
        else do
          match ← transferOperations mmio txFifo packet.operations bus with
          | .next st =>
              let (status, bus) := finishRequest mmio st.bus
              .ok (status, { st with bus := bus })
          | .exit (status, st) =>
              let (status, bus) := abortRequest mmio status st.bus
              .ok (status, { st with bus := bus })

/-! ## What the polls keep -/

/-- A property that no access to a register but `DATA_CMD` changes. -/
structure Quiet (P : DwBus σ → Prop) : Prop where
  read : ∀ reg, reg ≠ .dataCmd → ∀ bus, P bus → P (dwI2cRead mmio reg bus).2
  write : ∀ reg, reg ≠ .dataCmd → ∀ v bus, P bus → P (dwI2cWrite mmio reg v bus)

theorem poll_keeps {P : DwBus σ → Prop} {check : DwBus σ → Option EfiStatus × DwBus σ}
    (hcheck : ∀ bus, P bus → P (check bus).2) :
    ∀ (n : Nat) (bus : DwBus σ), P bus → P (poll check n bus).2
  | 0, _, hbus => hbus
  | n + 1, bus, hbus => by
      have hround := hcheck bus hbus
      rw [poll]
      split
      · rename_i heq
        rw [heq] at hround
        exact hround
      · rename_i heq
        rw [heq] at hround
        exact poll_keeps hcheck n _ hround

section Quiet

variable {mmio} {P : DwBus σ → Prop} (hP : Quiet mmio P)
include hP

theorem Quiet.readIf {cond : Prop} [Decidable cond] {reg : DwReg} (hreg : reg ≠ .dataCmd)
    (bus : DwBus σ) (hbus : P bus) : P (readIf mmio cond reg bus) := by
  rw [Ccr2004.readIf]
  split
  · exact hP.read reg hreg bus hbus
  · exact hbus

theorem Quiet.checkErrors (bus : DwBus σ) (hbus : P bus) :
    P (dwI2cCheckErrors mmio bus).2 := by
  have hraw := hP.read .rawIntrStat (by decide) bus hbus
  exact hP.readIf (by decide) _ (hP.readIf (by decide) _ (hP.readIf (by decide) _ hraw))

theorem Quiet.abortCheck (bus : DwBus σ) (hbus : P bus) : P (abortCheck mmio bus).2 :=
  hP.checkErrors bus hbus

theorem Quiet.waitTxData (txFifo : UInt32) (bus : DwBus σ) (hbus : P bus) :
    P (dwI2cWaitTxData mmio txFifo bus).2 := by
  refine poll_keeps (fun bus hbus => ?_) _ bus hbus
  have hlevel := hP.read .txflr (by decide) bus hbus
  dsimp only
  split
  · exact hlevel
  · exact hP.abortCheck _ hlevel

theorem Quiet.waitRxData (bus : DwBus σ) (hbus : P bus) :
    P (dwI2cWaitRxData mmio bus).2 := by
  refine poll_keeps (fun bus hbus => ?_) _ bus hbus
  have hstatus := hP.read .status (by decide) bus hbus
  dsimp only
  split
  · exact hstatus
  · exact hP.abortCheck _ hstatus

theorem Quiet.waitBusNotBusy (bus : DwBus σ) (hbus : P bus) :
    P (dwI2cWaitBusNotBusy mmio bus).2 :=
  poll_keeps (fun bus hbus => hP.read _ (by decide) bus hbus) _ bus hbus

theorem Quiet.enable (enable : UInt32) (bus : DwBus σ) (hbus : P bus) :
    P (dwI2cEnable mmio enable bus).2 :=
  poll_keeps (fun bus hbus => hP.read _ (by decide) bus hbus) _ _ (hP.write _ (by decide) _ _ hbus)

theorem Quiet.finish (bus : DwBus σ) (hbus : P bus) : P (dwI2cFinish mmio bus).2 := by
  unfold dwI2cFinish
  generalize hwait : poll _ dwMaxTransferPollCount bus = r
  have hr : P r.2 := by
    rw [← hwait]
    exact poll_keeps (fun bus hbus => hP.read _ (by decide) bus hbus) _ bus hbus
  obtain ⟨status, bus'⟩ := r
  dsimp only
  split
  · exact hr
  · refine poll_keeps (fun bus hbus => ?_) _ bus' hr
    have hraw := hP.read .rawIntrStat (by decide) bus hbus
    split
    · exact hP.read _ (by decide) _ hraw
    · exact hraw

theorem Quiet.endRequest (bus : DwBus σ) (hbus : P bus) : P (endRequest mmio bus) :=
  hP.enable 0 _ (hP.waitBusNotBusy bus hbus)

theorem Quiet.beginRequest (slaveAddress : UInt64) (bus : DwBus σ) (hbus : P bus) :
    P (beginRequest mmio slaveAddress bus).2 := by
  have hidle := hP.waitBusNotBusy bus hbus
  dsimp only [Ccr2004.beginRequest]
  split
  · exact hidle
  · exact hP.read _ (by decide) _ (hP.enable 1 _ (hP.write _ (by decide) _ _ (hP.enable 0 _ hidle)))

end Quiet

/-! ## Polls leave the traffic alone -/

/-- Both histories. -/
def DwBus.traffic (bus : DwBus σ) : List UInt32 × List UInt32 := (bus.words, bus.received)

theorem quiet_traffic (t : List UInt32 × List UInt32) :
    Quiet mmio fun bus => bus.traffic = t where
  read reg hreg bus hbus := by
    rw [← hbus]
    simp [dwI2cRead, DwBus.traffic, hreg]
  write reg hreg v bus hbus := by
    rw [← hbus]
    simp [dwI2cWrite, DwBus.traffic, hreg]

theorem checkErrors_traffic (bus : DwBus σ) :
    (dwI2cCheckErrors mmio bus).2.traffic = bus.traffic :=
  (quiet_traffic mmio _).checkErrors bus rfl

theorem waitTxData_traffic (bus : DwBus σ) :
    (dwI2cWaitTxData mmio txFifo bus).2.traffic = bus.traffic :=
  (quiet_traffic mmio _).waitTxData txFifo bus rfl

theorem waitRxData_traffic (bus : DwBus σ) :
    (dwI2cWaitRxData mmio bus).2.traffic = bus.traffic :=
  (quiet_traffic mmio _).waitRxData bus rfl

theorem finish_traffic (bus : DwBus σ) :
    (dwI2cFinish mmio bus).2.traffic = bus.traffic :=
  (quiet_traffic mmio _).finish bus rfl

theorem endRequest_traffic (bus : DwBus σ) :
    (endRequest mmio bus).traffic = bus.traffic :=
  (quiet_traffic mmio _).endRequest bus rfl

theorem beginRequest_traffic (slaveAddress : UInt64) (bus : DwBus σ) :
    (beginRequest mmio slaveAddress bus).2.traffic = bus.traffic :=
  (quiet_traffic mmio _).beginRequest slaveAddress bus rfl

end Controller

end Ccr2004
