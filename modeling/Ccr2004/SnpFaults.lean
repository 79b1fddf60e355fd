import Ccr2004.SnpResources

/-!
# Initialisations that fail

`AlEthHwInitialize` with every call in it that can fail: the page
allocations, the adapter, the queues, the MAC, MDIO and the posts of receive
buffers. Each failure returns at once and keeps what was allocated, so the
context is left owning nothing exactly when the first allocation is the one
that fails (`failureUndone_iff`). With a HAL that works it is the
initialisation of the state calls (`initializeWith_working`).
-/

namespace Ccr2004

/-! ## The calls that can fail -/

/-- `UDMA_TX` and `UDMA_RX`. -/
inductive UdmaType where
  | tx
  | rx
deriving Repr, DecidableEq

/-- How the calls of one initialisation end: the status of each
`AllocatePages`, whether each HAL call succeeds, and what a HAL call that
fails leaves of the hardware. -/
structure EthHal where
  allocatePages : Nat → EfiStatus
  adapterInit : Bool
  queueConfig : UdmaType → Bool
  macConfig : Bool
  mdioConfig : Bool
  rxBufferAdd : Nat → Bool
  failed : EthHw → EthHw

/-- A HAL that works, on a machine with these pages. -/
def EthHal.working (allocOk : Nat → Bool) : EthHal where
  allocatePages i := if allocOk i then .success else .outOfResources
  adapterInit := true
  queueConfig _ := true
  macConfig := true
  mdioConfig := true
  rxBufferAdd _ := true
  failed hw := hw

/-- HAL calls one after the other, up to the first that fails. -/
def EthHal.run (hal : EthHal) : List (Bool × (EthHw → EthHw)) → EthHw → Bool × EthHw
  | [], hw => (true, hw)
  | (ok, effect) :: calls, hw =>
      if ok then hal.run calls (effect hw) else (false, hal.failed hw)

/-- The loop that allocates the receive buffers, with its status. -/
def EthHal.allocateRxBuffers (hal : EthHal) :
    Nat → List (Option Nat) → EthHw → EfiStatus × List (Option Nat) × EthHw
  | _, [], hw => (.success, [], hw)
  | idx, old :: slots, hw =>
      let status := hal.allocatePages (idx + 1)
      if status.isError then (status, old :: slots, hw)
      else
        let (block, hw) := hw.allocatePages
        let (status, slots, hw) := hal.allocateRxBuffers (idx + 1) slots hw
        (status, some block :: slots, hw)

/-- `AlEthHwInitialize`. -/
def EthHal.hwInitialize (hal : EthHal) (ctx : AlEthContext) (hw : EthHw) :
    EfiStatus × AlEthContext × EthHw :=
  let hw := { hw with doubleAlloc := hw.doubleAlloc || !ctx.owned.isEmpty }
  let status := hal.allocatePages 0
  if status.isError then (status, ctx, hw)
  else
    let (ring, hw) := hw.allocatePages
    let ctx := { ctx with descRing := some ring }
    let (status, rxBuffers, hw) := hal.allocateRxBuffers 0 ctx.rxBuffers hw
    let ctx := { ctx with rxBuffers := rxBuffers }
    if status.isError then (status, ctx, hw)
    else
      let hw := haltStale hw
      let (ok, hw) := hal.run [(hal.adapterInit, .adapterInit),
        (hal.queueConfig .tx, (·.queueAdd [ring])), (hal.queueConfig .rx, id)] hw
      if !ok then (.deviceError, ctx, hw)
      else
        let ctx := { ctx with queues := true }
        -- the status of the PHY is only printed
        let (ok, hw) := hal.run ([(hal.macConfig, id), (hal.mdioConfig, id)]
          ++ (List.range alEthNumRxDesc).map fun idx => (hal.rxBufferAdd idx, id)) hw
        if !ok then (.deviceError, ctx, hw)
        else
          let hw := hw.queueAdd rxBuffers.reduceOption
          let hw := hw.setMac true
          (.success, { ctx with txBufInFlight := none }, hw)

/-- `AlEthNextSnpInitialize`. -/
def EthHal.snpInitialize (hal : EthHal) (ctx : AlEthContext) (hw : EthHw) :
    EfiStatus × AlEthContext × EthHw :=
  if ctx.state = .stopped then (.notStarted, ctx, hw)
  else if ctx.state = .initialized then (.success, ctx, hw)
  else
    let (status, ctx, hw) := hal.hwInitialize ctx hw
    if status.isError then (status, ctx, hw)
    else (.success, { ctx with state := .initialized }, hw)

/-- `AlEthNextSnpReset`. -/
def EthHal.snpReset (hal : EthHal) (ctx : AlEthContext) (hw : EthHw) :
    EfiStatus × AlEthContext × EthHw :=
  if ctx.state = .stopped then (.notStarted, ctx, hw)
  else if ctx.state ≠ .initialized then (.deviceError, ctx, hw)
  else
    let (ctx, hw) := alEthHwShutdown ctx hw
    let (status, ctx, hw) := hal.hwInitialize ctx hw
    if status.isError then (status, { ctx with state := .started }, hw)
    else (.success, ctx, hw)

/-! ## With a HAL that works -/

theorem run_map_id (hal : EthHal) {ok : Nat → Bool} (idxs : List Nat)
    (hok : ∀ i ∈ idxs, ok i = true) (hw : EthHw) :
    hal.run (idxs.map fun i => (ok i, id)) hw = (true, hw) := by
  induction idxs with
  | nil => rfl
  | cons i idxs ih =>
      rw [List.map_cons, EthHal.run, if_pos (hok i List.mem_cons_self)]
      exact ih fun j hj => hok j (List.mem_cons_of_mem i hj)

theorem working_allocatePages (allocOk : Nat → Bool) (i : Nat) :
    (EthHal.working allocOk).allocatePages i
      = if allocOk i then .success else .outOfResources := rfl

theorem working_calls (allocOk : Nat → Bool) :
    (EthHal.working allocOk).adapterInit = true
      ∧ (∀ q, (EthHal.working allocOk).queueConfig q = true)
      ∧ (EthHal.working allocOk).macConfig = true ∧ (EthHal.working allocOk).mdioConfig = true
      ∧ ∀ idx, (EthHal.working allocOk).rxBufferAdd idx = true :=
  ⟨rfl, fun _ => rfl, rfl, rfl, fun _ => rfl⟩

theorem isError_outOfResources : EfiStatus.outOfResources.isError = true := rfl

theorem allocateRxBuffers_working (allocOk : Nat → Bool) (slots : List (Option Nat)) :
    ∀ (idx : Nat) (hw : EthHw), (EthHal.working allocOk).allocateRxBuffers idx slots hw
      = (if (allocateRxBuffers allocOk idx slots hw).1 then .success else .outOfResources,
          (allocateRxBuffers allocOk idx slots hw).2) := by
  induction slots with
  | nil => exact fun _ _ => rfl
  | cons old slots ih =>
      intro idx hw
      rw [EthHal.allocateRxBuffers, Ccr2004.allocateRxBuffers, working_allocatePages]
      cases hok : allocOk (idx + 1) with
      | false => simp [isError_outOfResources]
      | true => simp [ih]

/-- The initialisation of the state calls, where only allocations fail. -/
theorem initializeWith_working (allocOk : Nat → Bool) (ctx : AlEthContext) (hw : EthHw) :
    (EthHal.working allocOk).hwInitialize ctx hw = alEthHwInitialize allocOk ctx hw := by
  obtain ⟨hadapter, hqueue, hmac, hmdio, hadd⟩ := working_calls allocOk
  have hposts : ∀ hw' : EthHw, (EthHal.working allocOk).run
      ((List.range alEthNumRxDesc).map fun idx => ((EthHal.working allocOk).rxBufferAdd idx, id))
      hw' = (true, hw') := run_map_id _ _ fun i _ => hadd i
  rw [EthHal.hwInitialize, alEthHwInitialize, working_allocatePages]
  cases hfirst : allocOk 0 with
  | false => simp [isError_outOfResources]
  | true =>
      simp only [allocateRxBuffers_working, if_true, EfiStatus.isError_success,
        Bool.false_eq_true, if_false, Bool.not_true]
      cases hdone : (allocateRxBuffers allocOk 0 ctx.rxBuffers (EthHw.allocatePages
          { hw with doubleAlloc := hw.doubleAlloc || !ctx.owned.isEmpty }).2).1 with
      | false => simp [isError_outOfResources]
      | true =>
          simp only [List.cons_append, List.nil_append, EthHal.run, hadapter, hqueue, hmac, hmdio,
            hposts, if_true, id_eq, EfiStatus.isError_success, Bool.false_eq_true, if_false,
            Bool.not_true]

/-! ## Which initialisations fail -/

/-- No call of an initialisation with this many receive buffers fails. -/
structure EthHal.Succeeds (hal : EthHal) (slots : Nat) : Prop where
  alloc : ∀ i ≤ slots, ¬ (hal.allocatePages i).isError = true
  adapter : hal.adapterInit = true
  queue : ∀ q, hal.queueConfig q = true
  mac : hal.macConfig = true
  mdio : hal.mdioConfig = true
  add : ∀ idx < alEthNumRxDesc, hal.rxBufferAdd idx = true

section Initialize

variable (hal : EthHal)

theorem run_ok_iff (calls : List (Bool × (EthHw → EthHw))) :
    ∀ hw : EthHw, (hal.run calls hw).1 = true ↔ ∀ call ∈ calls, call.1 = true := by
  induction calls with
  | nil => simp [EthHal.run]
  | cons call calls ih =>
      intro hw
      rcases call with ⟨ok, effect⟩
      cases ok with
      | false => simp [EthHal.run]
      | true => simp [EthHal.run, ih]

theorem allocateRxBuffers_isError (slots : List (Option Nat)) :
    ∀ (idx : Nat) (hw : EthHw), ¬ (hal.allocateRxBuffers idx slots hw).1.isError = true
      ↔ ∀ i < slots.length, ¬ (hal.allocatePages (idx + i + 1)).isError = true := by
  induction slots with
  | nil => simp [EthHal.allocateRxBuffers]
  | cons old slots ih =>
      intro idx hw
      rw [EthHal.allocateRxBuffers, List.length_cons]
      by_cases hfailed : (hal.allocatePages (idx + 1)).isError = true
      · dsimp only
        rw [if_pos hfailed]
        exact iff_of_false (fun h => h hfailed) fun h => h 0 (Nat.zero_lt_succ _) hfailed
      · dsimp only
        rw [if_neg hfailed]
        dsimp only
        rw [ih]
        constructor
        · intro h i hi
          cases i with
          | zero => exact hfailed
          | succ i =>
              have hnext := h i (by omega)
              rwa [show idx + 1 + i + 1 = idx + (i + 1) + 1 by omega] at hnext
        · intro h i hi
          have hnext := h (i + 1) (by omega)
          rwa [show idx + (i + 1) + 1 = idx + 1 + i + 1 by omega] at hnext

theorem configure_ok_iff (ring : Nat) (hw : EthHw) :
    (hal.run [(hal.adapterInit, .adapterInit), (hal.queueConfig .tx, (·.queueAdd [ring])),
        (hal.queueConfig .rx, id)] hw).1 = true
      ↔ hal.adapterInit = true ∧ ∀ q, hal.queueConfig q = true := by
  rw [run_ok_iff]
  simp only [List.mem_cons, List.not_mem_nil, or_false, forall_eq_or_imp, forall_eq]
  refine and_congr_right fun _ => ⟨fun h q => ?_, fun h => ⟨h .tx, h .rx⟩⟩
  cases q with
  | tx => exact h.1
  | rx => exact h.2

theorem post_ok_iff (hw : EthHw) :
    (hal.run ([(hal.macConfig, id), (hal.mdioConfig, id)]
        ++ (List.range alEthNumRxDesc).map fun idx => (hal.rxBufferAdd idx, id)) hw).1 = true
      ↔ hal.macConfig = true ∧ hal.mdioConfig = true
        ∧ ∀ idx < alEthNumRxDesc, hal.rxBufferAdd idx = true := by
  rw [run_ok_iff]
  simp only [List.cons_append, List.nil_append, List.mem_cons, List.mem_map, List.mem_range,
    forall_eq_or_imp, forall_exists_index, and_imp, forall_apply_eq_imp_iff₂]

variable {hal}

/-- The first allocation fails: nothing has changed. -/
theorem initialize_first {ctx : AlEthContext} {hw : EthHw}
    (h : (hal.allocatePages 0).isError = true) :
    hal.hwInitialize ctx hw = (hal.allocatePages 0, ctx,
      { hw with doubleAlloc := hw.doubleAlloc || !ctx.owned.isEmpty }) := by
  rw [EthHal.hwInitialize]
  dsimp only
  rw [if_pos h]

/-- Past it the context owns a ring, whether or not another call fails. -/
theorem initialize_later (ctx : AlEthContext) (hw : EthHw)
    (hfirst : ¬ (hal.allocatePages 0).isError = true) :
    (hal.hwInitialize ctx hw).2.1.descRing ≠ none
      ∧ (¬ (hal.hwInitialize ctx hw).1.isError = true ↔ hal.Succeeds ctx.rxBuffers.length) := by
  obtain ⟨ring, hw', hring⟩ : ∃ ring hw', EthHw.allocatePages
      { hw with doubleAlloc := hw.doubleAlloc || !ctx.owned.isEmpty } = (ring, hw') := ⟨_, _, rfl⟩
  have halloc := allocateRxBuffers_isError hal ctx.rxBuffers 0 hw'
  obtain ⟨status, rxBuffers, hw'', hrx⟩ : ∃ status rxBuffers hw'',
      hal.allocateRxBuffers 0 ctx.rxBuffers hw' = (status, rxBuffers, hw'') := ⟨_, _, _, rfl⟩
  rw [EthHal.hwInitialize]
  dsimp only
  rw [if_neg hfirst, hring]
  dsimp only
  rw [hrx] at halloc ⊢
  dsimp only at halloc ⊢
  by_cases hfailed : status.isError = true
  · rw [if_pos hfailed]
    refine ⟨Option.some_ne_none ring, iff_of_false (fun h => h hfailed) fun h => ?_⟩
    refine halloc.mpr (fun i hi => ?_) hfailed
    rw [Nat.zero_add]
    exact h.alloc _ hi
  · rw [if_neg hfailed]
    have hslots := halloc.mp hfailed
    have hconfigure := configure_ok_iff hal ring (haltStale hw'')
    generalize hal.run _ (haltStale hw'') = r at hconfigure ⊢
    obtain ⟨ok, hw₁⟩ := r
    dsimp only at hconfigure ⊢
    cases ok with
    | false =>
        refine ⟨Option.some_ne_none ring, iff_of_false (fun h => h rfl) fun h => ?_⟩
        exact absurd (hconfigure.mpr ⟨h.adapter, h.queue⟩) Bool.false_ne_true
    | true =>
        obtain ⟨hadapter, hqueue⟩ := hconfigure.mp rfl
        have hpost := post_ok_iff hal hw₁
        simp only [Bool.not_true, Bool.false_eq_true, if_false]
        generalize hal.run _ hw₁ = r at hpost ⊢
        obtain ⟨ok, hw₂⟩ := r
        dsimp only at hpost ⊢
        cases ok with
        | false =>
            refine ⟨Option.some_ne_none ring, iff_of_false (fun h => h rfl) fun h => ?_⟩
            exact absurd (hpost.mpr ⟨h.mac, h.mdio, h.add⟩) Bool.false_ne_true
        | true =>
            obtain ⟨hmac, hmdio, hadd⟩ := hpost.mp rfl
            refine ⟨Option.some_ne_none ring, iff_of_true (by simp) ?_⟩
            refine ⟨fun i hi => ?_, hadapter, hqueue, hmac, hmdio, hadd⟩
            cases i with
            | zero => exact hfirst
            | succ i =>
                have hslot := hslots i (by omega)
                rwa [Nat.zero_add] at hslot

theorem initialize_state (hal : EthHal) (ctx : AlEthContext) (hw : EthHw) :
    (hal.hwInitialize ctx hw).2.1.state = ctx.state := by
  rw [EthHal.hwInitialize]
  dsimp only
  split
  · rfl
  · split
    · rfl
    · split
      · rfl
      · split
        · rfl
        · rfl

end Initialize

/-! ## A failed initialisation is undone -/

/-- The two calls that initialise the hardware. -/
inductive InitCaller where
  | snpInitialize
  | snpReset
deriving Repr, DecidableEq

def InitCaller.call (caller : InitCaller) (hal : EthHal) (ctx : AlEthContext) (hw : EthHw) :
    EfiStatus × AlEthContext × EthHw :=
  match caller with
  | .snpInitialize => hal.snpInitialize ctx hw
  | .snpReset => hal.snpReset ctx hw

/-- The state in which the call gets to `AlEthHwInitialize`. -/
def InitCaller.state : InitCaller → SnpState
  | .snpInitialize => .started
  | .snpReset => .initialized

/-- When the initialisation fails, nothing is owned, the engines are stopped,
and `Initialize` can be called again. -/
def FailureUndone (caller : InitCaller) (hal : EthHal) (ctx : AlEthContext) (hw : EthHw) : Prop :=
  ctx.state = caller.state → ∀ status ctx' hw',
    caller.call hal ctx hw = (status, ctx', hw') → status.isError = true →
      ctx'.owned = [] ∧ hw'.macRunning = false ∧ hw'.udmaRunning = false ∧ ctx'.state = .started

/-- Nothing fails, or the first allocation does, with nothing owned before
and the engines stopped, as `Reset` leaves them itself. -/
def FailsFirst (caller : InitCaller) (hal : EthHal) (ctx : AlEthContext) (hw : EthHw) : Prop :=
  hal.Succeeds ctx.rxBuffers.length ∨ (hal.allocatePages 0).isError = true
    ∧ (caller = .snpInitialize →
      ctx.owned = [] ∧ hw.macRunning = false ∧ hw.udmaRunning = false)

/-- Freeing pages leaves the engines as they are. -/
theorem freeRxBuffers_running (slots : List (Option Nat)) :
    ∀ hw : EthHw, (freeRxBuffers slots hw).macRunning = hw.macRunning
      ∧ (freeRxBuffers slots hw).udmaRunning = hw.udmaRunning := by
  induction slots with
  | nil => exact fun _ => ⟨rfl, rfl⟩
  | cons slot slots ih =>
      intro hw
      cases slot with
      | none => exact ih hw
      | some block => exact ih (hw.freePages block)

/-- Whatever was owned and running: after a shutdown nothing is. -/
theorem hwShutdown_stops (ctx : AlEthContext) (hw : EthHw) :
    ∃ ctx' hw', alEthHwShutdown ctx hw = (ctx', hw') ∧ ctx'.owned = []
      ∧ hw'.macRunning = false ∧ hw'.udmaRunning = false
      ∧ ctx'.rxBuffers.length = ctx.rxBuffers.length := by
  obtain ⟨stopped, hstopped⟩ : ∃ stopped,
      (if ctx.queues then (hw.setMac false).queueReset else hw.setMac false).adapterStop
        = stopped := ⟨_, rfl⟩
  have hstate : stopped.macRunning = false ∧ stopped.udmaRunning = false := by
    rw [← hstopped]
    split <;> exact ⟨rfl, rfl⟩
  obtain ⟨hmac, hudma⟩ := freeRxBuffers_running ctx.rxBuffers stopped
  rw [hstate.1] at hmac
  rw [hstate.2] at hudma
  have hnone : (ctx.rxBuffers.map fun _ => (none : Option Nat)).reduceOption = [] := by
    rw [List.map_const']
    exact reduceOption_replicate_none _
  rw [alEthHwShutdown]
  dsimp only
  rw [hstopped]
  cases hring : ctx.descRing with
  | none =>
      refine ⟨_, _, rfl, ?_, hmac, hudma, List.length_map ..⟩
      rw [AlEthContext.owned, hnone]
      rfl
  | some ring =>
      refine ⟨_, _, rfl, ?_, hmac, hudma, List.length_map ..⟩
      rw [AlEthContext.owned, hnone]
      rfl

theorem owned_ne_nil {ctx : AlEthContext} (h : ctx.descRing ≠ none) : ctx.owned ≠ [] := by
  cases hring : ctx.descRing with
  | none => exact absurd hring h
  | some ring =>
      rw [AlEthContext.owned, hring]
      exact List.cons_ne_nil _ _

/-- What an initialisation leaves when it fails, from a context that owns
nothing with the engines stopped or not. -/
theorem initialize_undone_iff (hal : EthHal) (ctx : AlEthContext) (hw : EthHw) :
    ((hal.hwInitialize ctx hw).1.isError = true → (hal.hwInitialize ctx hw).2.1.owned = []
        ∧ (hal.hwInitialize ctx hw).2.2.macRunning = false
        ∧ (hal.hwInitialize ctx hw).2.2.udmaRunning = false)
      ↔ hal.Succeeds ctx.rxBuffers.length ∨ (hal.allocatePages 0).isError = true
        ∧ ctx.owned = [] ∧ hw.macRunning = false ∧ hw.udmaRunning = false := by
  by_cases hfirst : (hal.allocatePages 0).isError = true
  · rw [initialize_first hfirst]
    dsimp only
    constructor
    · exact fun h => .inr ⟨hfirst, h hfirst⟩
    · rintro (hall | ⟨-, h⟩) _
      · exact absurd hfirst (hall.alloc 0 (Nat.zero_le _))
      · exact h
  · obtain ⟨hring, hok⟩ := initialize_later ctx hw hfirst
    constructor
    · intro h
      by_contra hfails
      have hfailed : (hal.hwInitialize ctx hw).1.isError = true := by
        by_contra hsuccess
        exact hfails (.inl (hok.mp hsuccess))
      exact owned_ne_nil hring (h hfailed).1
    · rintro (hall | ⟨hfailed, -⟩) herror
      · exact absurd herror (hok.mpr hall)
      · exact absurd hfailed hfirst

/-- What a caller has to undo is what its initialisation leaves, whichever
state it sets. -/
theorem undone_of_call {hal : EthHal} {ctx : AlEthContext} {hw : EthHw}
    {call : EfiStatus × AlEthContext × EthHw} {done : AlEthContext × EthHw}
    (hcall : call = if (hal.hwInitialize ctx hw).1.isError then
        ((hal.hwInitialize ctx hw).1, { (hal.hwInitialize ctx hw).2.1 with state := .started },
          (hal.hwInitialize ctx hw).2.2)
      else (.success, done)) :
    (∀ status ctx' hw', call = (status, ctx', hw') → status.isError = true →
        ctx'.owned = [] ∧ hw'.macRunning = false ∧ hw'.udmaRunning = false
          ∧ ctx'.state = .started)
      ↔ ((hal.hwInitialize ctx hw).1.isError = true → (hal.hwInitialize ctx hw).2.1.owned = []
        ∧ (hal.hwInitialize ctx hw).2.2.macRunning = false
        ∧ (hal.hwInitialize ctx hw).2.2.udmaRunning = false) := by
  constructor
  · intro h hfailed
    obtain ⟨howned, hmac, hudma, -⟩ := h _ _ _ (hcall.trans (if_pos hfailed)) hfailed
    exact ⟨howned, hmac, hudma⟩
  · intro h status ctx' hw' hrun herror
    rw [hrun] at hcall
    by_cases hfailed : (hal.hwInitialize ctx hw).1.isError = true
    · rw [if_pos hfailed] at hcall
      obtain ⟨rfl, hrest⟩ := Prod.mk.inj hcall
      obtain ⟨rfl, rfl⟩ := Prod.mk.inj hrest
      obtain ⟨howned, hmac, hudma⟩ := h hfailed
      exact ⟨howned, hmac, hudma, rfl⟩
    · rw [if_neg hfailed] at hcall
      obtain ⟨rfl, -⟩ := Prod.mk.inj hcall
      cases herror

theorem snpInitialize_undone (hal : EthHal) {ctx : AlEthContext} (hw : EthHw)
    (hstate : ctx.state = .started) :
    FailureUndone .snpInitialize hal ctx hw ↔ FailsFirst .snpInitialize hal ctx hw := by
  have hkept := initialize_state hal ctx hw
  rw [hstate] at hkept
  have hcall : hal.snpInitialize ctx hw
      = if (hal.hwInitialize ctx hw).1.isError then
          ((hal.hwInitialize ctx hw).1, { (hal.hwInitialize ctx hw).2.1 with state := .started },
            (hal.hwInitialize ctx hw).2.2)
        else (.success, { (hal.hwInitialize ctx hw).2.1 with state := .initialized },
          (hal.hwInitialize ctx hw).2.2) := by
    rw [← hkept, EthHal.snpInitialize, hstate]
    rfl
  have hcaller : ctx.state = InitCaller.snpInitialize.state := hstate
  rw [FailureUndone, FailsFirst, forall_prop_of_true hcaller, forall_prop_of_true rfl,
    ← initialize_undone_iff]
  exact undone_of_call hcall

/-- `Reset` releases everything before it initialises. -/
theorem snpReset_undone (hal : EthHal) {ctx : AlEthContext} (hw : EthHw)
    (hstate : ctx.state = .initialized) :
    FailureUndone .snpReset hal ctx hw ↔ FailsFirst .snpReset hal ctx hw := by
  obtain ⟨ctx₀, hw₀, hshut, howned, hmac, hudma, hlen⟩ := hwShutdown_stops ctx hw
  have hcall : hal.snpReset ctx hw
      = if (hal.hwInitialize ctx₀ hw₀).1.isError then
          ((hal.hwInitialize ctx₀ hw₀).1,
            { (hal.hwInitialize ctx₀ hw₀).2.1 with state := .started },
            (hal.hwInitialize ctx₀ hw₀).2.2)
        else (.success, (hal.hwInitialize ctx₀ hw₀).2) := by
    rw [EthHal.snpReset, hstate, hshut]
    rfl
  have hundone := initialize_undone_iff hal ctx₀ hw₀
  simp only [howned, hmac, hudma, hlen, and_true] at hundone
  have hcaller : ctx.state = InitCaller.snpReset.state := hstate
  rw [FailureUndone, FailsFirst, forall_prop_of_true hcaller, and_iff_left nofun, ← hundone]
  exact undone_of_call hcall

/-- A failed initialisation is undone exactly when it fails at its first
allocation. -/
theorem failureUndone_iff (caller : InitCaller) (hal : EthHal) (ctx : AlEthContext)
    (hw : EthHw) :
    FailureUndone caller hal ctx hw
      ↔ (ctx.state = caller.state → FailsFirst caller hal ctx hw) := by
  by_cases hstate : ctx.state = caller.state
  · rw [forall_prop_of_true hstate]
    cases caller with
    | snpInitialize => exact snpInitialize_undone hal hw hstate
    | snpReset => exact snpReset_undone hal hw hstate
  · exact iff_of_true (fun h => absurd h hstate) fun h => absurd h hstate

/-- When MDIO cannot be configured the context keeps 33 blocks and the UDMA
runs. -/
theorem not_failureUndone_mdio :
    ¬ FailureUndone .snpInitialize { EthHal.working fun _ => true with mdioConfig := false }
      { AlEthContext.fresh with state := .started } AlEthAdapter.fresh.hw := by
  rw [snpInitialize_undone _ _ rfl]
  rintro (hall | ⟨hfirst, -⟩)
  · exact absurd hall.mdio Bool.false_ne_true
  · exact absurd hfirst (by decide)

end Ccr2004
