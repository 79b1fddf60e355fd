import Ccr2004.Efi
import Mathlib.Data.List.ReduceOption
import Ccr2004.Runs

/-!
# The Ethernet driver's resources

The five state calls of the Simple Network Protocol in `AlEthNextDxe.c`,
with the two helpers that own the hardware, `AlEthHwInitialize` and
`AlEthHwShutdown`, and the driver binding's `Stop`.

A block of pages is named by the serial number of its allocation, so that a
freed block is never mistaken for a later one at the same address. The
hardware is what decides safety: whether the MAC and the UDMA run, and which
blocks their queues point at. `canWrite` are the blocks the DMA engine can
write now. The HAL calls succeed; whether an `AllocatePages` does is part of
the call that makes it. `doubleAlloc` and `freedLive` are history variables:
that a set was allocated while blocks were owned, and that a block was freed
while the engine could write it.
-/

namespace Ccr2004

/-! ## The hardware and the page allocator -/

/-- `EFI_SIMPLE_NETWORK_STATE`. -/
inductive SnpState where
  | stopped
  | started
  | initialized
deriving Repr, DecidableEq

structure EthHw where
  macRunning : Bool
  udmaRunning : Bool
  /-- The blocks the UDMA queues point at. -/
  dmaBlocks : List Nat
  nextBlock : Nat
  allocated : List Nat
  doubleAlloc : Bool
  freedLive : Bool
deriving Repr, DecidableEq

/-- The blocks the DMA engine can write. -/
def EthHw.canWrite (hw : EthHw) : List Nat :=
  if hw.udmaRunning then hw.dmaBlocks else []

/-- A successful `AllocatePages`. -/
def EthHw.allocatePages (hw : EthHw) : Nat × EthHw :=
  (hw.nextBlock,
    { hw with nextBlock := hw.nextBlock + 1, allocated := hw.allocated ++ [hw.nextBlock] })

def EthHw.freePages (hw : EthHw) (block : Nat) : EthHw :=
  { hw with
    allocated := hw.allocated.filter (· ≠ block)
    freedLive := hw.freedLive || decide (block ∈ hw.canWrite) }

/-- `al_eth_adapter_init`: the UDMA goes to its normal state. -/
def EthHw.adapterInit (hw : EthHw) : EthHw := { hw with udmaRunning := true }

/-- `al_eth_adapter_stop`. -/
def EthHw.adapterStop (hw : EthHw) : EthHw := { hw with udmaRunning := false }

/-- `al_eth_mac_start` and `al_eth_mac_stop`. -/
def EthHw.setMac (hw : EthHw) (run : Bool) : EthHw := { hw with macRunning := run }

/-- `al_udma_q_reset` of the two queues. -/
def EthHw.queueReset (hw : EthHw) : EthHw := { hw with dmaBlocks := [] }

/-- Point the queues at blocks. -/
def EthHw.queueAdd (hw : EthHw) (blocks : List Nat) : EthHw :=
  { hw with dmaBlocks := hw.dmaBlocks ++ blocks }

/-! ## The context -/

/-- `AL_ETH_NUM_RX_DESC`. -/
def alEthNumRxDesc : Nat := 32

/-- `AL_ETH_NEXT_CONTEXT`, as far as the state calls use it: `State`,
`DescRingBase`, `RxBuffers`, whether the queue handles are set, and
`TxBufInFlight`. -/
structure AlEthContext where
  state : SnpState
  descRing : Option Nat
  rxBuffers : List (Option Nat)
  queues : Bool
  txBufInFlight : Option UInt64
deriving Repr, DecidableEq

/-- The blocks a context points at. -/
def AlEthContext.owned (ctx : AlEthContext) : List Nat :=
  ctx.descRing.toList ++ ctx.rxBuffers.reduceOption

/-- The context as the driver binding's `Start` leaves it. -/
def AlEthContext.fresh : AlEthContext where
  state := .stopped
  descRing := none
  rxBuffers := List.replicate alEthNumRxDesc none
  queues := false
  txBufInFlight := none

/-- The adapter: its context until the driver's `Stop` frees it, and the
hardware. -/
structure AlEthAdapter where
  ctx : Option AlEthContext
  hw : EthHw
deriving Repr, DecidableEq

def AlEthAdapter.fresh : AlEthAdapter where
  ctx := some .fresh
  hw := ⟨false, false, [], 0, [], false, false⟩

/-! ## Hardware initialisation and shutdown -/

/-- The loop that allocates the receive buffers, from slot `idx` on; it
gives up at the first allocation that fails. -/
def allocateRxBuffers (allocOk : Nat → Bool) :
    Nat → List (Option Nat) → EthHw → Bool × List (Option Nat) × EthHw
  | _, [], hw => (true, [], hw)
  | idx, old :: slots, hw =>
      if allocOk (idx + 1) then
        let (block, hw) := hw.allocatePages
        let (done, slots, hw) := allocateRxBuffers allocOk (idx + 1) slots hw
        (done, some block :: slots, hw)
      else (false, old :: slots, hw)

/-- The cleanup of stale state through a temporary adapter handle. -/
def haltStale (hw : EthHw) : EthHw :=
  hw.adapterInit.setMac false |>.queueReset |>.adapterStop

/-- `AlEthHwInitialize`; `allocOk i` says whether its `i`-th allocation
succeeds. -/
def alEthHwInitialize (allocOk : Nat → Bool) (ctx : AlEthContext) (hw : EthHw) :
    EfiStatus × AlEthContext × EthHw :=
  let hw := { hw with doubleAlloc := hw.doubleAlloc || !ctx.owned.isEmpty }
  if !allocOk 0 then (.outOfResources, ctx, hw)
  else
    let (ring, hw) := hw.allocatePages
    let ctx := { ctx with descRing := some ring }
    let (done, rxBuffers, hw) := allocateRxBuffers allocOk 0 ctx.rxBuffers hw
    let ctx := { ctx with rxBuffers := rxBuffers }
    if !done then (.outOfResources, ctx, hw)
    else
      let hw := (haltStale hw).adapterInit
      let hw := hw.queueAdd [ring]
      let ctx := { ctx with queues := true }
      let hw := hw.queueAdd rxBuffers.reduceOption
      let hw := hw.setMac true
      (.success, { ctx with txBufInFlight := none }, hw)

/-- The loop that frees the receive buffers. -/
def freeRxBuffers : List (Option Nat) → EthHw → EthHw
  | [], hw => hw
  | none :: slots, hw => freeRxBuffers slots hw
  | some block :: slots, hw => freeRxBuffers slots (hw.freePages block)

def alEthHwShutdown (ctx : AlEthContext) (hw : EthHw) : AlEthContext × EthHw :=
  let hw := hw.setMac false
  let hw := if ctx.queues then hw.queueReset else hw
  let hw := hw.adapterStop
  let hw := freeRxBuffers ctx.rxBuffers hw
  let ctx := { ctx with rxBuffers := ctx.rxBuffers.map fun _ => none }
  match ctx.descRing with
  | none => (ctx, hw)
  | some ring => ({ ctx with descRing := none }, hw.freePages ring)

/-! ## The state calls -/

def alEthNextSnpStart (ctx : AlEthContext) : EfiStatus × AlEthContext :=
  if ctx.state = .started ∨ ctx.state = .initialized then (.alreadyStarted, ctx)
  else if ctx.state ≠ .stopped then (.deviceError, ctx)
  else (.success, { ctx with state := .started })

def alEthNextSnpStop (ctx : AlEthContext) : EfiStatus × AlEthContext :=
  if ctx.state = .stopped then (.notStarted, ctx)
  else (.success, { ctx with state := .stopped })

def alEthNextSnpInitialize (allocOk : Nat → Bool) (ctx : AlEthContext) (hw : EthHw) :
    EfiStatus × AlEthContext × EthHw :=
  if ctx.state = .stopped then (.notStarted, ctx, hw)
  else if ctx.state = .initialized then (.success, ctx, hw)
  else
    let (status, ctx, hw) := alEthHwInitialize allocOk ctx hw
    if status.isError then (status, ctx, hw)
    else (.success, { ctx with state := .initialized }, hw)

def alEthNextSnpReset (allocOk : Nat → Bool) (ctx : AlEthContext) (hw : EthHw) :
    EfiStatus × AlEthContext × EthHw :=
  if ctx.state = .stopped then (.notStarted, ctx, hw)
  else if ctx.state ≠ .initialized then (.deviceError, ctx, hw)
  else
    let (ctx, hw) := alEthHwShutdown ctx hw
    let (status, ctx, hw) := alEthHwInitialize allocOk ctx hw
    if status.isError then (status, { ctx with state := .started }, hw)
    else (.success, ctx, hw)

def alEthNextSnpShutdown (ctx : AlEthContext) (hw : EthHw) :
    EfiStatus × AlEthContext × EthHw :=
  if ctx.state = .stopped then (.notStarted, ctx, hw)
  else
    let (ctx, hw) :=
      if ctx.state = .initialized then alEthHwShutdown ctx hw else (ctx, hw)
    (.success, { ctx with state := .started }, hw)

/-- `AlEthNextStop`: with no children, or when a protocol cannot be opened or
uninstalled, the child is left as it is. -/
def alEthNextStop (children : Nat) (protocols : EfiStatus) (ctx : AlEthContext)
    (hw : EthHw) : EfiStatus × Option AlEthContext × EthHw :=
  if children = 0 then (.success, some ctx, hw)
  else if protocols.isError then (protocols, some ctx, hw)
  else
    let hw := if ctx.state = .initialized then (alEthHwShutdown ctx hw).2 else hw
    (.success, none, hw)

/-- A call on the adapter. -/
inductive SnpCall where
  | snpStart
  | snpStop
  | snpInitialize (allocOk : Nat → Bool)
  | snpReset (allocOk : Nat → Bool)
  | snpShutdown
  | driverStop (children : Nat) (protocols : EfiStatus)

/-- One call; there is nothing left to call once the context is freed. -/
def snpStep (call : SnpCall) (a : AlEthAdapter) : AlEthAdapter :=
  match a.ctx with
  | none => a
  | some ctx =>
      match call with
      | .snpStart => { a with ctx := some (alEthNextSnpStart ctx).2 }
      | .snpStop => { a with ctx := some (alEthNextSnpStop ctx).2 }
      | .snpInitialize allocOk =>
          let (_, ctx, hw) := alEthNextSnpInitialize allocOk ctx a.hw
          ⟨some ctx, hw⟩
      | .snpReset allocOk =>
          let (_, ctx, hw) := alEthNextSnpReset allocOk ctx a.hw
          ⟨some ctx, hw⟩
      | .snpShutdown =>
          let (_, ctx, hw) := alEthNextSnpShutdown ctx a.hw
          ⟨some ctx, hw⟩
      | .driverStop children protocols =>
          let (_, ctx, hw) := alEthNextStop children protocols ctx a.hw
          ⟨ctx, hw⟩

end Ccr2004
