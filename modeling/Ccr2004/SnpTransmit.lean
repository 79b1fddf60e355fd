import Ccr2004.AlEthNext

/-!
# Transmit buffers

`AlEthNextSnpTransmit` and `AlEthNextSnpGetStatus`, with the transmit queue
of the UDMA between them. A caller's buffer belongs to the driver from the
`Transmit` that accepts it until `GetStatus` hands it back; `TxBufInFlight`
is the driver's only record of it.

`accepted`, `completed` and `returned` are history variables: the buffers
that were accepted, that the hardware is done with, and that were handed
back, each in order. What a caller relies on is `BuffersAccounted`. Both
calls collect completions, and `Transmit` drops what it collects, so the
account is kept exactly as long as no `Transmit` finds a completed buffer
(`txRun_accounted_iff`).
-/

namespace Ccr2004

/-! ## The transmit queue -/

/-- The queue: buffers submitted and not yet completed, and completions not
yet collected. -/
structure TxRing where
  pending : List UInt64
  done : List UInt64
deriving Repr, DecidableEq

/-- What `al_udma_available_get` gives for an empty queue of
`AL_ETH_DESCS_PER_Q` descriptors: all but the 16 that are kept back. -/
def txUsableDescs : Nat := 64 - 16

/-- `al_eth_comp_tx_get`: the completions, all collected. -/
def alEthCompTxGet (ring : TxRing) : Nat × TxRing :=
  (ring.done.length, { ring with done := [] })

/-- `al_eth_tx_pkt_prepare` of a packet in one buffer, and the doorbell; the
number of descriptors is 0 when the queue is full. -/
def alEthTxSubmit (buffer : UInt64) (ring : TxRing) : Nat × TxRing :=
  if txUsableDescs - (ring.pending.length + ring.done.length) < 1 then (0, ring)
  else (1, { ring with pending := ring.pending ++ [buffer] })

/-! ## The calls -/

/-- `SnpMode.MediaHeaderSize`. -/
def mediaHeaderSize : UInt64 := 14

/-- The status of a call made in another state than `Initialized`. -/
def notInitializedStatus (state : SnpState) : EfiStatus :=
  if state = .stopped then .notStarted else .deviceError

/-- The checks on the arguments of the header to build. -/
def headerArguments (headerSize : UInt64) (destAddr protocol : Bool) : EfiStatus :=
  if headerSize = 0 then .success
  else if headerSize ≠ mediaHeaderSize then .invalidParameter
  else if !destAddr || !protocol then .invalidParameter
  else .success

/-- Submit a buffer, once nothing is in flight. -/
def submitBuffer (headerSize : UInt64) (buffer : UInt64) (destAddr protocol : Bool)
    (ctx : AlEthContext) (ring : TxRing) : EfiStatus × AlEthContext × TxRing :=
  let status := headerArguments headerSize destAddr protocol
  if status.isError then (status, ctx, ring)
  else
    let (numDescs, ring) := alEthTxSubmit buffer ring
    if numDescs = 0 then (.deviceError, ctx, ring)
    else (.success, { ctx with txBufInFlight := some buffer }, ring)

/-- `AlEthNextSnpTransmit`; a null buffer is `none`, and the other two
pointers are given by whether they are not null. -/
def alEthNextSnpTransmit (headerSize bufferSize : UInt64) (buffer : Option UInt64)
    (destAddr protocol : Bool) (ctx : AlEthContext) (ring : TxRing) :
    EfiStatus × AlEthContext × TxRing :=
  if ctx.state ≠ .initialized then (notInitializedStatus ctx.state, ctx, ring)
  else
    match buffer with
    | none => (.invalidParameter, ctx, ring)
    | some buffer =>
        if bufferSize < mediaHeaderSize then (.bufferTooSmall, ctx, ring)
        else
          match ctx.txBufInFlight with
          | none => submitBuffer headerSize buffer destAddr protocol ctx ring
          | some _ =>
              let (comp, ring) := alEthCompTxGet ring
              if comp > 0 then
                submitBuffer headerSize buffer destAddr protocol
                  { ctx with txBufInFlight := none } ring
              else (.notReady, ctx, ring)

/-- `AlEthNextSnpGetStatus`; `txBuf` says whether a recycled buffer is asked
for, and the result holds the one handed back. -/
def alEthNextSnpGetStatus (txBuf : Bool) (ctx : AlEthContext) (ring : TxRing) :
    EfiStatus × Option UInt64 × AlEthContext × TxRing :=
  if ctx.state ≠ .initialized then (notInitializedStatus ctx.state, none, ctx, ring)
  else if txBuf then
    match ctx.txBufInFlight with
    | none => (.success, none, ctx, ring)
    | some buffer =>
        let (compDescs, ring) := alEthCompTxGet ring
        if compDescs > 0 then
          (.success, some buffer, { ctx with txBufInFlight := none }, ring)
        else (.success, none, ctx, ring)
  else (.success, none, ctx, ring)

/-! ## Runs -/

structure TxState where
  ctx : AlEthContext
  ring : TxRing
  accepted : List UInt64
  completed : List UInt64
  returned : List UInt64
deriving Repr, DecidableEq

/-- The state after an initialisation. -/
def TxState.start (ctx : AlEthContext) : TxState := ⟨ctx, ⟨[], []⟩, [], [], []⟩

inductive TxEvent where
  | transmit (headerSize bufferSize : UInt64) (buffer : Option UInt64)
      (destAddr protocol : Bool)
  | getStatus (txBuf : Bool)
  /-- The hardware completes the oldest buffer in the queue. -/
  | complete

def txStep (event : TxEvent) (s : TxState) : TxState :=
  match event with
  | .transmit headerSize bufferSize buffer destAddr protocol =>
      let (status, ctx, ring) :=
        alEthNextSnpTransmit headerSize bufferSize buffer destAddr protocol s.ctx s.ring
      { s with
        ctx := ctx
        ring := ring
        accepted := if status.isError then s.accepted else s.accepted ++ buffer.toList }
  | .getStatus txBuf =>
      let (_, recycled, ctx, ring) := alEthNextSnpGetStatus txBuf s.ctx s.ring
      { s with ctx := ctx, ring := ring, returned := s.returned ++ recycled.toList }
  | .complete =>
      match s.ring.pending with
      | [] => s
      | buffer :: rest =>
          { s with
            ring := ⟨rest, s.ring.done ++ [buffer]⟩
            completed := s.completed ++ [buffer] }

/-- Every accepted buffer has been handed back once, in order and after its
completion, or is the one that will be handed back as soon as it is
completed. -/
structure BuffersAccounted (s : TxState) : Prop where
  account : s.accepted = s.returned ++ s.ctx.txBufInFlight.toList
  completedFirst : s.returned <+: s.completed
  collectable : s.completed = s.accepted → ∀ buffer, s.ctx.txBufInFlight = some buffer →
    (alEthNextSnpGetStatus true s.ctx s.ring).2.1 = some buffer

/-- A `Transmit` that gets past its argument checks does not find its
predecessor completed. -/
def TxEventOK (event : TxEvent) (s : TxState) : Prop :=
  match event with
  | .transmit _ bufferSize (some _) _ _ =>
      mediaHeaderSize ≤ bufferSize → s.ctx.txBufInFlight = none ∨ s.ring.done = []
  | _ => True

/-- What every event keeps: the queue holds the buffer in flight, and what
was completed is what was handed back and what is still to be collected. -/
structure TxInv (s : TxState) : Prop where
  state : s.ctx.state = .initialized
  account : s.accepted = s.returned ++ s.ctx.txBufInFlight.toList
  completed : s.completed = s.returned ++ s.ring.done
  ring : s.ring.done ++ s.ring.pending = s.ctx.txBufInFlight.toList

/-- A completed buffer in flight is the only thing in the queue. -/
theorem TxInv.ring_of_done {s : TxState} (h : TxInv s) {buffer : UInt64}
    (hflight : s.ctx.txBufInFlight = some buffer) (hdone : s.ring.done ≠ []) :
    s.ring = ⟨[], [buffer]⟩ := by
  have hring := h.ring
  rw [hflight, Option.toList_some] at hring
  rcases hs : s.ring with ⟨pending, done⟩
  rw [hs] at hring hdone
  rcases done with _ | ⟨b, done⟩
  · exact absurd rfl hdone
  · rw [List.cons_append, List.cons.injEq, List.append_eq_nil_iff] at hring
    obtain ⟨rfl, rfl, rfl⟩ := hring
    rfl

theorem TxInv.ring_of_idle {s : TxState} (h : TxInv s)
    (hflight : s.ctx.txBufInFlight = none) : s.ring = ⟨[], []⟩ := by
  have hring := h.ring
  rw [hflight, Option.toList_none, List.append_eq_nil_iff] at hring
  rcases hs : s.ring with ⟨pending, done⟩
  rw [hs] at hring
  obtain ⟨rfl, rfl⟩ := hring
  rfl

/-- Asking for a recycled buffer once the one in flight is completed. -/
theorem getStatus_recycles {ctx : AlEthContext} {buffer : UInt64}
    (hstate : ctx.state = .initialized) (hflight : ctx.txBufInFlight = some buffer) :
    alEthNextSnpGetStatus true ctx ⟨[], [buffer]⟩
      = (.success, some buffer, { ctx with txBufInFlight := none }, ⟨[], []⟩) := by
  simp [alEthNextSnpGetStatus, alEthCompTxGet, hstate, hflight]

theorem TxInv.accounted {s : TxState} (h : TxInv s) : BuffersAccounted s := by
  refine ⟨h.account, ?_, fun hall buffer hflight => ?_⟩
  · rw [h.completed]
    exact List.prefix_append _ _
  · have hdone : s.ring.done ≠ [] := by
      intro hnone
      rw [h.completed, h.account, hnone, hflight] at hall
      have hlen := congrArg List.length hall
      simp at hlen
    rw [h.ring_of_done hflight hdone, getStatus_recycles h.state hflight]

/-! ## The steps -/

/-- Submitting to an empty queue: refused by its arguments, or accepted. -/
theorem submitBuffer_cases (headerSize buffer : UInt64) (destAddr protocol : Bool)
    (ctx : AlEthContext) :
    (∃ status, status ≠ .success ∧
        submitBuffer headerSize buffer destAddr protocol ctx ⟨[], []⟩
          = (status, ctx, ⟨[], []⟩))
      ∨ submitBuffer headerSize buffer destAddr protocol ctx ⟨[], []⟩
          = (.success, { ctx with txBufInFlight := some buffer }, ⟨[buffer], []⟩) := by
  rw [submitBuffer]
  dsimp only
  split
  · rename_i herr
    exact Or.inl ⟨_, EfiStatus.isError_iff.mp herr, rfl⟩
  · exact Or.inr rfl

section Transmit

variable (headerSize buffer : UInt64) {bufferSize : UInt64} (destAddr protocol : Bool)

/-- What `Transmit` does once its own arguments are right: it submits with
nothing in flight, waits for a buffer that is not completed, and drops one
that is. -/
theorem transmit_idle {ctx : AlEthContext} (ring : TxRing)
    (hstate : ctx.state = .initialized) (hsize : mediaHeaderSize ≤ bufferSize)
    (hflight : ctx.txBufInFlight = none) :
    alEthNextSnpTransmit headerSize bufferSize (some buffer) destAddr protocol ctx ring
      = submitBuffer headerSize buffer destAddr protocol ctx ring := by
  rw [alEthNextSnpTransmit, if_neg (not_not.mpr hstate)]
  dsimp only
  rw [if_neg (UInt64.not_lt.mpr hsize), hflight]

theorem transmit_busy {ctx : AlEthContext} {ring : TxRing} {inFlight : UInt64}
    (hstate : ctx.state = .initialized) (hsize : mediaHeaderSize ≤ bufferSize)
    (hflight : ctx.txBufInFlight = some inFlight) (hdone : ring.done = []) :
    alEthNextSnpTransmit headerSize bufferSize (some buffer) destAddr protocol ctx ring
      = (.notReady, ctx, ring) := by
  rcases ring with ⟨pending, done⟩
  obtain rfl := hdone
  rw [alEthNextSnpTransmit, if_neg (not_not.mpr hstate)]
  dsimp only
  rw [if_neg (UInt64.not_lt.mpr hsize), hflight]
  rfl

theorem transmit_reclaims {ctx : AlEthContext} {inFlight : UInt64}
    (hstate : ctx.state = .initialized) (hsize : mediaHeaderSize ≤ bufferSize)
    (hflight : ctx.txBufInFlight = some inFlight) :
    alEthNextSnpTransmit headerSize bufferSize (some buffer) destAddr protocol ctx
        ⟨[], [inFlight]⟩
      = submitBuffer headerSize buffer destAddr protocol
          { ctx with txBufInFlight := none } ⟨[], []⟩ := by
  rw [alEthNextSnpTransmit, if_neg (not_not.mpr hstate)]
  dsimp only
  rw [if_neg (UInt64.not_lt.mpr hsize), hflight]
  rfl

/-- A `Transmit` that is refused before it looks at the queue. -/
theorem transmit_refused {ctx : AlEthContext} (ring : TxRing)
    (hstate : ctx.state = .initialized) {buffer : Option UInt64}
    (hargs : buffer = none ∨ bufferSize < mediaHeaderSize) :
    ∃ status, status ≠ .success ∧
      alEthNextSnpTransmit headerSize bufferSize buffer destAddr protocol ctx ring
        = (status, ctx, ring) := by
  unfold alEthNextSnpTransmit
  rw [if_neg (not_not.mpr hstate)]
  cases buffer with
  | none => exact ⟨.invalidParameter, by decide, rfl⟩
  | some buffer =>
      have hsize := hargs.resolve_left (Option.some_ne_none _)
      dsimp only
      rw [if_pos hsize]
      exact ⟨.bufferTooSmall, by decide, rfl⟩

/-- A call that fails and changes nothing. -/
theorem txStep_refused {s : TxState} {buffer : Option UInt64} {status : EfiStatus}
    (hstatus : status ≠ .success)
    (heq : alEthNextSnpTransmit headerSize bufferSize buffer destAddr protocol s.ctx s.ring
      = (status, s.ctx, s.ring)) :
    txStep (.transmit headerSize bufferSize buffer destAddr protocol) s = s := by
  rw [txStep, heq]
  dsimp only
  rw [if_pos (EfiStatus.isError_iff.mpr hstatus)]

theorem transmit_idle_inv {s : TxState} (hinv : TxInv s)
    (hsize : mediaHeaderSize ≤ bufferSize) (hflight : s.ctx.txBufInFlight = none) :
    TxInv (txStep (.transmit headerSize bufferSize (some buffer) destAddr protocol) s) := by
  have hring := hinv.ring_of_idle hflight
  have htransmit := transmit_idle headerSize buffer destAddr protocol s.ring
    hinv.state hsize hflight
  rcases submitBuffer_cases headerSize buffer destAddr protocol s.ctx with
    ⟨status, hstatus, heq⟩ | heq
  · rw [txStep_refused headerSize destAddr protocol hstatus (by rw [htransmit, hring, heq])]
    exact hinv
  · have haccount := hinv.account
    have hcompleted := hinv.completed
    rw [hflight, Option.toList_none, List.append_nil] at haccount
    rw [hring] at hcompleted
    rw [txStep, htransmit, hring, heq]
    refine ⟨hinv.state, ?_, hcompleted, rfl⟩
    show s.accepted ++ [buffer] = s.returned ++ [buffer]
    rw [haccount]

/-- The account after a completed buffer was dropped. -/
theorem transmit_forgets {s : TxState} (hinv : TxInv s)
    (hsize : mediaHeaderSize ≤ bufferSize) {inFlight : UInt64}
    (hflight : s.ctx.txBufInFlight = some inFlight) (hdone : s.ring.done ≠ []) :
    ¬ BuffersAccounted
      (txStep (.transmit headerSize bufferSize (some buffer) destAddr protocol) s) := by
  have hring := hinv.ring_of_done hflight hdone
  have htransmit := transmit_reclaims headerSize buffer destAddr protocol
    hinv.state hsize hflight
  have hlen := congrArg List.length hinv.account
  rw [hflight, Option.toList_some, List.length_append, List.length_singleton] at hlen
  intro hgood
  have hafter := congrArg List.length hgood.account
  rcases submitBuffer_cases headerSize buffer destAddr protocol
    { s.ctx with txBufInFlight := none } with ⟨status, hstatus, heq⟩ | heq
  · rw [txStep, hring, htransmit, heq] at hafter
    dsimp only at hafter
    rw [if_pos (EfiStatus.isError_iff.mpr hstatus), Option.toList_none, List.append_nil]
      at hafter
    omega
  · rw [txStep, hring, htransmit, heq] at hafter
    have hnew : (s.accepted ++ [buffer]).length = (s.returned ++ [buffer]).length := hafter
    rw [List.length_append, List.length_append] at hnew
    omega

end Transmit

/-- Nothing to recycle: nothing is in flight, or it is not completed. -/
theorem getStatus_waits {ctx : AlEthContext} {ring : TxRing} (txBuf : Bool)
    (hstate : ctx.state = .initialized)
    (hwait : txBuf = false ∨ ctx.txBufInFlight = none ∨ ring.done = []) :
    alEthNextSnpGetStatus txBuf ctx ring = (.success, none, ctx, ring) := by
  rw [alEthNextSnpGetStatus, if_neg (not_not.mpr hstate)]
  rcases hwait with rfl | hflight | hdone
  · rfl
  · rw [hflight]
    cases txBuf <;> rfl
  · rcases ring with ⟨pending, done⟩
    obtain rfl := hdone
    cases txBuf with
    | false => rfl
    | true => cases ctx.txBufInFlight <;> rfl

theorem getStatus_inv (txBuf : Bool) {s : TxState} (hinv : TxInv s) :
    TxInv (txStep (.getStatus txBuf) s) := by
  by_cases hwait : txBuf = false ∨ s.ctx.txBufInFlight = none ∨ s.ring.done = []
  · rw [txStep, getStatus_waits txBuf hinv.state hwait]
    dsimp only
    rw [Option.toList_none, List.append_nil]
    exact hinv
  · obtain ⟨htxBuf, hrest⟩ := not_or.mp hwait
    obtain ⟨hflight, hdone⟩ := not_or.mp hrest
    obtain ⟨buffer, hbuffer⟩ := Option.ne_none_iff_exists'.mp hflight
    obtain rfl := (Bool.not_eq_false txBuf).mp htxBuf
    have hring := hinv.ring_of_done hbuffer hdone
    have hcompleted := hinv.completed
    have haccount := hinv.account
    rw [hring] at hcompleted
    rw [hbuffer] at haccount
    rw [txStep, hring, getStatus_recycles hinv.state hbuffer]
    refine ⟨hinv.state, ?_, ?_, rfl⟩
    · rw [haccount]
      exact (List.append_nil _).symm
    · rw [hcompleted]
      exact (List.append_nil _).symm

theorem complete_inv {s : TxState} (hinv : TxInv s) : TxInv (txStep .complete s) := by
  dsimp only [txStep]
  cases hpending : s.ring.pending with
  | nil => exact hinv
  | cons buffer rest =>
      have hcompleted : s.completed ++ [buffer] = s.returned ++ (s.ring.done ++ [buffer]) := by
        rw [hinv.completed, List.append_assoc]
      have hring : s.ring.done ++ [buffer] ++ rest = s.ctx.txBufInFlight.toList := by
        rw [← hinv.ring, hpending, List.append_assoc]
        rfl
      exact ⟨hinv.state, hinv.account, hcompleted, hring⟩

theorem txStep_inv (event : TxEvent) (s : TxState) (hinv : TxInv s)
    (hok : TxEventOK event s) : TxInv (txStep event s) := by
  cases event with
  | complete => exact complete_inv hinv
  | getStatus txBuf => exact getStatus_inv txBuf hinv
  | transmit headerSize bufferSize buffer destAddr protocol =>
      by_cases hargs : buffer = none ∨ bufferSize < mediaHeaderSize
      · obtain ⟨status, hstatus, heq⟩ := transmit_refused headerSize destAddr protocol
          s.ring hinv.state hargs
        rw [txStep_refused headerSize destAddr protocol hstatus heq]
        exact hinv
      · obtain ⟨hbuffer, hlt⟩ := not_or.mp hargs
        obtain ⟨buffer, rfl⟩ := Option.ne_none_iff_exists'.mp hbuffer
        have hsize := UInt64.not_lt.mp hlt
        cases hflight : s.ctx.txBufInFlight with
        | none => exact transmit_idle_inv headerSize buffer destAddr protocol hinv hsize hflight
        | some inFlight =>
            have hdone := (hok hsize).resolve_left (by rw [hflight]; exact Option.some_ne_none _)
            have hbusy := transmit_busy headerSize buffer destAddr protocol
              hinv.state hsize hflight hdone
            rw [txStep_refused headerSize destAddr protocol (show EfiStatus.notReady ≠ .success by decide) hbusy]
            exact hinv

theorem txStep_forgets (event : TxEvent) (s : TxState) (hinv : TxInv s)
    (hbad : ¬ TxEventOK event s) : ¬ BuffersAccounted (txStep event s) := by
  cases event with
  | complete => exact absurd trivial hbad
  | getStatus txBuf => exact absurd trivial hbad
  | transmit headerSize bufferSize buffer destAddr protocol =>
      cases buffer with
      | none => exact absurd trivial hbad
      | some buffer =>
          obtain ⟨hsize, hrest⟩ := Classical.not_imp.mp hbad
          obtain ⟨hflight, hdone⟩ := not_or.mp hrest
          obtain ⟨inFlight, hinFlight⟩ := Option.ne_none_iff_exists'.mp hflight
          exact transmit_forgets headerSize buffer destAddr protocol hinv hsize hinFlight hdone

/-- A successful initialisation leaves nothing in flight. -/
theorem hwInitialize_txBuf {allocOk : Nat → Bool} {ctx ctx' : AlEthContext} {hw hw' : EthHw}
    (h : alEthHwInitialize allocOk ctx hw = (.success, ctx', hw')) :
    ctx'.txBufInFlight = none := by
  dsimp only [alEthHwInitialize] at h
  split at h
  · exact absurd (congrArg Prod.fst h) nofun
  · split at h
    · exact absurd (congrArg Prod.fst h) nofun
    · have hctx : _ = ctx' := congrArg (fun r => r.2.1) h
      rw [← hctx]

/-- From an initialisation on, every accepted buffer is accounted for in
every state of a run exactly when no `Transmit` that gets past its argument
checks finds the previous buffer completed and not yet collected. -/
theorem txRun_accounted_iff (ctx : AlEthContext) (hstate : ctx.state = .initialized)
    (hflight : ctx.txBufInFlight = none) (events : List TxEvent) :
    AlongRun txStep BuffersAccounted events (.start ctx)
      ↔ StepsMeet txStep TxEventOK events (.start ctx) := by
  have hstart : TxInv (.start ctx) :=
    ⟨hstate, by rw [TxState.start, hflight]; rfl, rfl, by rw [TxState.start, hflight]; rfl⟩
  exact alongRun_iff_stepsMeet (fun _ hinv => hinv.accounted) txStep_inv txStep_forgets
    events hstart

/-- The context after `Start` and `Initialize` on a fresh adapter. -/
def initializedContext : AlEthContext :=
  (alEthNextSnpInitialize (fun _ => true) (alEthNextSnpStart .fresh).2
    AlEthAdapter.fresh.hw).2.1

/-- One buffer sent and collected. -/
theorem txRun_accounted_iff_oneBuffer :
    initializedContext.state = .initialized ∧ initializedContext.txBufInFlight = none
      ∧ AlongRun txStep BuffersAccounted
          [.transmit 0 64 (some 0x1000) false false, .complete, .getStatus true]
          (.start initializedContext) := by
  have hstate : initializedContext.state = .initialized := by decide
  have hflight : initializedContext.txBufInFlight = none := by decide
  refine ⟨hstate, hflight, (txRun_accounted_iff initializedContext hstate hflight _).mpr ?_⟩
  exact ⟨fun _ => Or.inl hflight, trivial, trivial, trivial⟩

/-- Two buffers sent in a row: the second `Transmit` collects the completion
of the first, which is never handed back. -/
theorem txRun_accounted_twoBuffers_fails :
    ¬ AlongRun txStep BuffersAccounted
        [.transmit 0 64 (some 0x1000) false false, .complete,
          .transmit 0 64 (some 0x2000) false false, .complete, .getStatus true,
          .getStatus true] (.start initializedContext)
      ∧ (runEvents txStep
          [.transmit 0 64 (some 0x1000) false false, .complete,
            .transmit 0 64 (some 0x2000) false false, .complete, .getStatus true,
            .getStatus true] (.start initializedContext)).accepted = [0x1000, 0x2000]
      ∧ (runEvents txStep
          [.transmit 0 64 (some 0x1000) false false, .complete,
            .transmit 0 64 (some 0x2000) false false, .complete, .getStatus true,
            .getStatus true] (.start initializedContext)).returned = [0x2000] := by
  refine ⟨fun hrun => ?_, by decide, by decide⟩
  obtain ⟨-, -, -, hforgot, -⟩ := hrun
  exact absurd hforgot.account (by decide)

end Ccr2004
