import Ccr2004.AlEthNext

/-!
# Who owns the Ethernet driver's pages

Between calls the adapter is in one of two conditions: `Idle`, with the
engines stopped and nothing allocated, or `HoldsSet`, with one descriptor
ring and one full set of receive buffers that the queues point at. The two
helpers take one to the other (`hwInitialize_holds`, `hwShutdown_idle`), so
the state calls keep `AdapterInv`: idle unless the state is `Initialized`.

Two steps leave it. `Stop` in the state `Initialized` forgets the hardware,
and an initialisation that runs out of pages after its first allocation
keeps what it has allocated. `snpRun_resources_iff` says that these are all:
a run keeps `ResourcesOK` in every state if and only if it has no such step.
-/

namespace Ccr2004

/-! ## The property -/

/-- The context owns a descriptor ring and a receive buffer in every slot,
all different. -/
def OwnsOneSet (ctx : AlEthContext) : Prop :=
  ∃ ring bufs, ctx.descRing = some ring ∧ ctx.rxBuffers = bufs.map some
    ∧ bufs.length = alEthNumRxDesc ∧ (ring :: bufs).Nodup

structure ResourcesOK (a : AlEthAdapter) : Prop where
  /-- Out of the state `Initialized` the engines are stopped and nothing is
  owned. -/
  idle : ∀ ctx, a.ctx = some ctx → ctx.state ≠ .initialized →
    a.hw.macRunning = false ∧ a.hw.udmaRunning = false ∧ ctx.owned = []
  /-- In it exactly one set is owned. -/
  oneSet : ∀ ctx, a.ctx = some ctx → ctx.state = .initialized → OwnsOneSet ctx
  noDouble : a.hw.doubleAlloc = false
  /-- Nothing was freed while the engine could write it. -/
  noFreedLive : a.hw.freedLive = false
  /-- What the engine can write is allocated. -/
  live : ∀ b ∈ a.hw.canWrite, b ∈ a.hw.allocated
  /-- What is allocated has an owner, so nothing outlives the context. -/
  noLeak : ∀ b ∈ a.hw.allocated, ∃ ctx, a.ctx = some ctx ∧ b ∈ ctx.owned
  /-- Once the context is freed the engines are stopped. -/
  gone : a.ctx = none → a.hw.macRunning = false ∧ a.hw.udmaRunning = false

/-- All allocations of an initialisation succeed, or the first one fails. -/
def AllocAllOrNone (allocOk : Nat → Bool) : Prop :=
  allocOk 0 = false ∨ ∀ i ≤ alEthNumRxDesc, allocOk i = true

/-- The steps that are safe in a state. -/
def SnpCallOK (call : SnpCall) (a : AlEthAdapter) : Prop :=
  ∀ ctx, a.ctx = some ctx →
    match call with
    | .snpStop => ctx.state ≠ .initialized
    | .snpInitialize allocOk => ctx.state = .started → AllocAllOrNone allocOk
    | .snpReset allocOk => ctx.state = .initialized → AllocAllOrNone allocOk
    | _ => True

/-! ## The two conditions -/

structure Idle (ctx : AlEthContext) (hw : EthHw) : Prop where
  mac : hw.macRunning = false
  udma : hw.udmaRunning = false
  allocated : hw.allocated = []
  descRing : ctx.descRing = none
  rxBuffers : ctx.rxBuffers = List.replicate alEthNumRxDesc none
  double : hw.doubleAlloc = false
  freed : hw.freedLive = false

structure HoldsSet (ring : Nat) (bufs : List Nat) (ctx : AlEthContext) (hw : EthHw) :
    Prop where
  descRing : ctx.descRing = some ring
  rxBuffers : ctx.rxBuffers = bufs.map some
  length : bufs.length = alEthNumRxDesc
  nodup : (ring :: bufs).Nodup
  allocated : hw.allocated = ring :: bufs
  dma : hw.dmaBlocks = ring :: bufs
  double : hw.doubleAlloc = false
  freed : hw.freedLive = false

/-- What every call keeps. -/
def AdapterInv (a : AlEthAdapter) : Prop :=
  match a.ctx with
  | none => ∃ ctx, Idle ctx a.hw
  | some ctx =>
      (ctx.state ≠ .initialized → Idle ctx a.hw)
        ∧ (ctx.state = .initialized → ∃ ring bufs, HoldsSet ring bufs ctx a.hw)

theorem reduceOption_map_some {α : Type} (l : List α) : (l.map some).reduceOption = l := by
  rw [List.reduceOption, List.filterMap_map]
  exact List.filterMap_some

theorem reduceOption_replicate_none {α : Type} (n : Nat) :
    (List.replicate n (none : Option α)).reduceOption = [] := by
  rw [List.reduceOption, List.filterMap_replicate]
  rfl

theorem Idle.owned {ctx : AlEthContext} {hw : EthHw} (h : Idle ctx hw) : ctx.owned = [] := by
  rw [AlEthContext.owned, h.descRing, h.rxBuffers, reduceOption_replicate_none]
  rfl

theorem HoldsSet.owned {ring : Nat} {bufs : List Nat} {ctx : AlEthContext} {hw : EthHw}
    (h : HoldsSet ring bufs ctx hw) : ctx.owned = ring :: bufs := by
  rw [AlEthContext.owned, h.descRing, h.rxBuffers, reduceOption_map_some]
  rfl

theorem canWrite_of_stopped {hw : EthHw} (h : hw.udmaRunning = false) : hw.canWrite = [] := by
  rw [EthHw.canWrite, h]
  rfl

theorem AdapterInv.resourcesOK {a : AlEthAdapter} (h : AdapterInv a) : ResourcesOK a := by
  rcases a with ⟨ctx, hw⟩
  rcases ctx with _ | ctx
  · obtain ⟨ctx, hidle⟩ := h
    refine ⟨?_, ?_, hidle.double, hidle.freed, ?_, ?_, fun _ => ⟨hidle.mac, hidle.udma⟩⟩
    · intro _ hctx
      cases hctx
    · intro _ hctx
      cases hctx
    · intro b hb
      rw [canWrite_of_stopped hidle.udma] at hb
      exact absurd hb List.not_mem_nil
    · intro b hb
      rw [hidle.allocated] at hb
      exact absurd hb List.not_mem_nil
  · obtain ⟨hidle, hholds⟩ := h
    by_cases hinit : ctx.state = .initialized
    · obtain ⟨ring, bufs, hset⟩ := hholds hinit
      refine ⟨?_, ?_, hset.double, hset.freed, ?_, ?_, fun hgone => by cases hgone⟩
      · intro _ hctx hne
        obtain rfl := Option.some.inj hctx
        exact absurd hinit hne
      · intro _ hctx _
        obtain rfl := Option.some.inj hctx
        exact ⟨ring, bufs, hset.descRing, hset.rxBuffers, hset.length, hset.nodup⟩
      · intro b hb
        rw [EthHw.canWrite] at hb
        split at hb
        · rw [hset.allocated, ← hset.dma]
          exact hb
        · exact absurd hb List.not_mem_nil
      · intro b hb
        refine ⟨ctx, rfl, ?_⟩
        rw [hset.owned, ← hset.allocated]
        exact hb
    · have hrest := hidle hinit
      refine ⟨?_, ?_, hrest.double, hrest.freed, ?_, ?_, fun hgone => by cases hgone⟩
      · intro _ hctx _
        obtain rfl := Option.some.inj hctx
        exact ⟨hrest.mac, hrest.udma, hrest.owned⟩
      · intro _ hctx hstate
        obtain rfl := Option.some.inj hctx
        exact absurd hstate hinit
      · intro b hb
        rw [canWrite_of_stopped hrest.udma] at hb
        exact absurd hb List.not_mem_nil
      · intro b hb
        rw [hrest.allocated] at hb
        exact absurd hb List.not_mem_nil

/-! ## The helpers -/

/-- The receive buffers of an initialisation whose allocations succeed get
consecutive serial numbers. -/
theorem allocateRxBuffers_ok {allocOk : Nat → Bool} :
    ∀ {idx : Nat} {slots : List (Option Nat)} {hw : EthHw},
      (∀ i, i < slots.length → allocOk (idx + i + 1) = true) →
      allocateRxBuffers allocOk idx slots hw
        = (true, (List.range' hw.nextBlock slots.length).map some,
            { hw with
              nextBlock := hw.nextBlock + slots.length
              allocated := hw.allocated ++ List.range' hw.nextBlock slots.length })
  | _, [], hw, _ => by simp [allocateRxBuffers]
  | idx, old :: slots, hw, hok => by
      have hhead : allocOk (idx + 1) = true := hok 0 (by simp)
      have hrest : ∀ i, i < slots.length → allocOk (idx + 1 + i + 1) = true := by
        intro i hi
        have hnext := hok (i + 1) (by rw [List.length_cons]; omega)
        rwa [show idx + (i + 1) + 1 = idx + 1 + i + 1 by omega] at hnext
      rw [allocateRxBuffers, if_pos hhead]
      dsimp only [EthHw.allocatePages]
      rw [allocateRxBuffers_ok hrest]
      dsimp only
      rw [List.length_cons, List.range'_succ, List.map_cons, List.append_assoc,
        List.singleton_append, Nat.add_assoc, Nat.add_comm 1]

/-- The loop gets through exactly when every allocation succeeds. -/
theorem allocateRxBuffers_done {allocOk : Nat → Bool} :
    ∀ {idx : Nat} {slots : List (Option Nat)} {hw : EthHw},
      (allocateRxBuffers allocOk idx slots hw).1 = true →
        ∀ i, i < slots.length → allocOk (idx + i + 1) = true
  | _, [], _, _, i, hi => absurd hi (Nat.not_lt_zero i)
  | idx, old :: slots, hw, h, i, hi => by
      rw [allocateRxBuffers] at h
      split at h
      · rename_i hhead
        cases i with
        | zero => exact hhead
        | succ i =>
            rw [List.length_cons] at hi
            have hrest := allocateRxBuffers_done h i (by omega)
            rwa [show idx + 1 + i + 1 = idx + (i + 1) + 1 by omega] at hrest
      · exact absurd h Bool.false_ne_true

/-- Initialising an idle adapter with all allocations succeeding. -/
theorem hwInitialize_holds {allocOk : Nat → Bool} {ctx : AlEthContext} {hw : EthHw}
    (hidle : Idle ctx hw) (hok : ∀ i ≤ alEthNumRxDesc, allocOk i = true) :
    ∃ ctx' hw', alEthHwInitialize allocOk ctx hw = (.success, ctx', hw')
      ∧ ctx'.state = ctx.state ∧ ∃ ring bufs, HoldsSet ring bufs ctx' hw' := by
  have hfirst : allocOk 0 = true := hok 0 (Nat.zero_le _)
  have hslots : ∀ i, i < ctx.rxBuffers.length → allocOk (0 + i + 1) = true := by
    intro i hi
    rw [hidle.rxBuffers, List.length_replicate] at hi
    exact hok _ (by omega)
  rw [alEthHwInitialize, hfirst]
  dsimp only [EthHw.allocatePages]
  rw [allocateRxBuffers_ok hslots]
  refine ⟨_, _, rfl, rfl, hw.nextBlock, List.range' (hw.nextBlock + 1) alEthNumRxDesc, ?_⟩
  have hlen : ctx.rxBuffers.length = alEthNumRxDesc := by
    rw [hidle.rxBuffers, List.length_replicate]
  constructor
  · rfl
  · rw [hlen]
  · exact List.length_range'
  · exact List.nodup_range' (n := alEthNumRxDesc + 1)
  · show hw.allocated ++ [hw.nextBlock] ++ List.range' (hw.nextBlock + 1) ctx.rxBuffers.length
      = _
    rw [hidle.allocated, hlen]
    rfl
  · show [] ++ [hw.nextBlock]
        ++ ((List.range' (hw.nextBlock + 1) ctx.rxBuffers.length).map some).reduceOption = _
    rw [reduceOption_map_some, hlen]
    rfl
  · show (hw.doubleAlloc || !ctx.owned.isEmpty) = false
    rw [hidle.double, hidle.owned]
    rfl
  · exact hidle.freed

/-- When the very first allocation fails nothing has changed. -/
theorem hwInitialize_none {allocOk : Nat → Bool} {ctx : AlEthContext} {hw : EthHw}
    (hidle : Idle ctx hw) (hfirst : allocOk 0 = false) :
    alEthHwInitialize allocOk ctx hw = (.outOfResources, ctx, hw) := by
  rw [alEthHwInitialize, hfirst, hidle.owned]
  simp [hidle.double.symm]

/-- When a later one fails the context is left owning pages. -/
theorem hwInitialize_partial {allocOk : Nat → Bool} {ctx : AlEthContext} {hw : EthHw}
    (hidle : Idle ctx hw) (hpart : ¬ AllocAllOrNone allocOk) :
    ∃ ctx' hw', alEthHwInitialize allocOk ctx hw = (.outOfResources, ctx', hw')
      ∧ ctx'.state = ctx.state ∧ ctx'.owned ≠ [] := by
  have hfirst : allocOk 0 = true := by
    cases h : allocOk 0 with
    | true => rfl
    | false => exact absurd (Or.inl h) hpart
  obtain ⟨ring, hw', halloc⟩ :
      ∃ ring hw', EthHw.allocatePages
        { hw with doubleAlloc := hw.doubleAlloc || !ctx.owned.isEmpty } = (ring, hw') :=
    ⟨_, _, rfl⟩
  obtain ⟨done, rxBuffers, hw'', hrx⟩ :
      ∃ done rxBuffers hw'', allocateRxBuffers allocOk 0 ctx.rxBuffers hw'
        = (done, rxBuffers, hw'') := ⟨_, _, _, rfl⟩
  have hdone : done = false := by
    cases hd : done with
    | false => rfl
    | true =>
        rw [hd] at hrx
        have hall := allocateRxBuffers_done (congrArg Prod.fst hrx)
        rw [hidle.rxBuffers, List.length_replicate] at hall
        refine absurd (Or.inr fun i hi => ?_) hpart
        rcases i with _ | i
        · exact hfirst
        · have hslot := hall i (by omega)
          rwa [Nat.zero_add] at hslot
  rw [alEthHwInitialize, hfirst]
  dsimp only
  rw [halloc]
  dsimp only
  rw [hrx, hdone]
  exact ⟨_, _, rfl, rfl, List.cons_ne_nil _ _⟩

/-- Freeing blocks the engine cannot write. -/
theorem freeRxBuffers_stopped :
    ∀ {bufs : List Nat} {hw : EthHw}, hw.udmaRunning = false →
      freeRxBuffers (bufs.map some) hw
        = { hw with allocated := hw.allocated.filter fun b => b ∉ bufs }
  | [], hw, _ => by simp [freeRxBuffers]
  | buf :: bufs, hw, hstop => by
      have hfree : hw.freePages buf
          = { hw with allocated := hw.allocated.filter (· ≠ buf) } := by
        rw [EthHw.freePages, canWrite_of_stopped hstop]
        simp
      rw [List.map_cons, freeRxBuffers, hfree, freeRxBuffers_stopped (by exact hstop)]
      congr 1
      rw [List.filter_filter]
      congr 1
      funext b
      simp [Bool.and_comm]

/-- Shutting down frees the one set, after both engines are stopped. -/
theorem hwShutdown_idle {ring : Nat} {bufs : List Nat} {ctx : AlEthContext} {hw : EthHw}
    (hset : HoldsSet ring bufs ctx hw) :
    ∃ ctx' hw', alEthHwShutdown ctx hw = (ctx', hw') ∧ ctx'.state = ctx.state
      ∧ Idle ctx' hw' := by
  obtain ⟨stopped, hstopped⟩ : ∃ stopped,
      (if ctx.queues then (hw.setMac false).queueReset else hw.setMac false).adapterStop
        = stopped := ⟨_, rfl⟩
  have hstate : stopped.macRunning = false ∧ stopped.udmaRunning = false
      ∧ stopped.allocated = ring :: bufs ∧ stopped.doubleAlloc = false
      ∧ stopped.freedLive = false := by
    rw [← hstopped]
    split <;> exact ⟨rfl, rfl, hset.allocated, hset.double, hset.freed⟩
  obtain ⟨hmac, hudma, hallocated, hdouble, hfreed⟩ := hstate
  rw [alEthHwShutdown]
  dsimp only
  rw [hstopped, hset.rxBuffers, hset.descRing, freeRxBuffers_stopped hudma]
  refine ⟨_, _, rfl, rfl, hmac, hudma, ?_, rfl, ?_, hdouble, ?_⟩
  · show ((stopped.allocated.filter fun b => b ∉ bufs).filter (· ≠ ring)) = []
    rw [hallocated, List.filter_filter, List.filter_eq_nil_iff]
    intro b hb
    rcases List.mem_cons.mp hb with rfl | hbuf
    · simp
    · simp [hbuf]
  · show (bufs.map some).map (fun _ => none) = List.replicate alEthNumRxDesc none
    rw [List.map_map, ← hset.length]
    exact List.map_const'
  · show (stopped.freedLive || decide (ring ∈ EthHw.canWrite _)) = false
    rw [canWrite_of_stopped (by exact hudma), hfreed]
    rfl

/-! ## The calls -/

theorem started_ne_initialized : SnpState.started ≠ .initialized := by
  decide

/-- An idle context in a state other than `Initialized`. -/
theorem adapterInv_idle {ctx : AlEthContext} {hw : EthHw} (hidle : Idle ctx hw)
    (hstate : ctx.state ≠ .initialized) : AdapterInv ⟨some ctx, hw⟩ :=
  ⟨fun _ => hidle, fun h => absurd h hstate⟩

theorem adapterInv_holds {ring : Nat} {bufs : List Nat} {ctx : AlEthContext} {hw : EthHw}
    (hset : HoldsSet ring bufs ctx hw) (hstate : ctx.state = .initialized) :
    AdapterInv ⟨some ctx, hw⟩ :=
  ⟨fun h => absurd hstate h, fun _ => ⟨ring, bufs, hset⟩⟩

/-- `State` is none of the helpers' business. -/
theorem Idle.withState {ctx : AlEthContext} {hw : EthHw} (h : Idle ctx hw) (st : SnpState) :
    Idle { ctx with state := st } hw :=
  ⟨h.mac, h.udma, h.allocated, h.descRing, h.rxBuffers, h.double, h.freed⟩

theorem HoldsSet.withState {ring : Nat} {bufs : List Nat} {ctx : AlEthContext} {hw : EthHw}
    (h : HoldsSet ring bufs ctx hw) (st : SnpState) :
    HoldsSet ring bufs { ctx with state := st } hw :=
  ⟨h.descRing, h.rxBuffers, h.length, h.nodup, h.allocated, h.dma, h.double, h.freed⟩

theorem snpInitialize_inv {allocOk : Nat → Bool} {ctx : AlEthContext} {hw : EthHw}
    (hinv : AdapterInv ⟨some ctx, hw⟩)
    (hok : ctx.state = .started → AllocAllOrNone allocOk) :
    AdapterInv ⟨some (alEthNextSnpInitialize allocOk ctx hw).2.1,
      (alEthNextSnpInitialize allocOk ctx hw).2.2⟩ := by
  rw [alEthNextSnpInitialize]
  cases hstate : ctx.state with
  | stopped => exact hinv
  | initialized => exact hinv
  | started =>
      have hne : ctx.state ≠ .initialized := by
        rw [hstate]
        decide
      have hidle := hinv.1 hne
      rcases hok hstate with hfirst | hall
      · rw [hwInitialize_none hidle hfirst]
        exact hinv
      · obtain ⟨ctx', hw', heq, -, ring, bufs, hset⟩ := hwInitialize_holds hidle hall
        rw [heq]
        exact adapterInv_holds (hset.withState .initialized) rfl

theorem snpInitialize_spoils {allocOk : Nat → Bool} {ctx : AlEthContext} {hw : EthHw}
    (hinv : AdapterInv ⟨some ctx, hw⟩) (hstate : ctx.state = .started)
    (hpart : ¬ AllocAllOrNone allocOk) :
    ¬ ResourcesOK ⟨some (alEthNextSnpInitialize allocOk ctx hw).2.1,
      (alEthNextSnpInitialize allocOk ctx hw).2.2⟩ := by
  have hne : ctx.state ≠ .initialized := by
    rw [hstate]
    decide
  obtain ⟨ctx', hw', heq, hstate', howned⟩ := hwInitialize_partial (hinv.1 hne) hpart
  rw [alEthNextSnpInitialize, hstate, heq]
  intro hgood
  have hne' : ctx'.state ≠ .initialized := by
    rw [hstate']
    exact hne
  exact howned (hgood.idle ctx' rfl hne').2.2

theorem snpReset_inv {allocOk : Nat → Bool} {ctx : AlEthContext} {hw : EthHw}
    (hinv : AdapterInv ⟨some ctx, hw⟩)
    (hok : ctx.state = .initialized → AllocAllOrNone allocOk) :
    AdapterInv ⟨some (alEthNextSnpReset allocOk ctx hw).2.1,
      (alEthNextSnpReset allocOk ctx hw).2.2⟩ := by
  rw [alEthNextSnpReset]
  cases hstate : ctx.state with
  | stopped => exact hinv
  | started => exact hinv
  | initialized =>
      obtain ⟨ring, bufs, hset⟩ := hinv.2 hstate
      obtain ⟨ctx', hw', hshut, hstate', hidle⟩ := hwShutdown_idle hset
      rw [hshut]
      dsimp only
      rcases hok hstate with hfirst | hall
      · rw [hwInitialize_none hidle hfirst]
        exact adapterInv_idle (hidle.withState .started) started_ne_initialized
      · obtain ⟨ctx'', hw'', heq, hstate'', ring', bufs', hset'⟩ :=
          hwInitialize_holds hidle hall
        rw [heq]
        exact adapterInv_holds hset' (hstate''.trans (hstate'.trans hstate))

theorem snpReset_spoils {allocOk : Nat → Bool} {ctx : AlEthContext} {hw : EthHw}
    (hinv : AdapterInv ⟨some ctx, hw⟩) (hstate : ctx.state = .initialized)
    (hpart : ¬ AllocAllOrNone allocOk) :
    ¬ ResourcesOK ⟨some (alEthNextSnpReset allocOk ctx hw).2.1,
      (alEthNextSnpReset allocOk ctx hw).2.2⟩ := by
  obtain ⟨ring, bufs, hset⟩ := hinv.2 hstate
  obtain ⟨ctx', hw', hshut, -, hidle⟩ := hwShutdown_idle hset
  obtain ⟨ctx'', hw'', heq, -, howned⟩ := hwInitialize_partial hidle hpart
  rw [alEthNextSnpReset, hstate, hshut]
  dsimp only
  rw [heq]
  intro hgood
  exact howned (hgood.idle { ctx'' with state := .started } rfl started_ne_initialized).2.2

theorem snpShutdown_inv {ctx : AlEthContext} {hw : EthHw}
    (hinv : AdapterInv ⟨some ctx, hw⟩) :
    AdapterInv ⟨some (alEthNextSnpShutdown ctx hw).2.1,
      (alEthNextSnpShutdown ctx hw).2.2⟩ := by
  rw [alEthNextSnpShutdown]
  cases hstate : ctx.state with
  | stopped => exact hinv
  | started =>
      have hne : ctx.state ≠ .initialized := by
        rw [hstate]
        decide
      exact adapterInv_idle ((hinv.1 hne).withState .started) started_ne_initialized
  | initialized =>
      obtain ⟨ring, bufs, hset⟩ := hinv.2 hstate
      obtain ⟨ctx', hw', hshut, -, hidle⟩ := hwShutdown_idle hset
      rw [hshut]
      exact adapterInv_idle (hidle.withState .started) started_ne_initialized

theorem driverStop_inv {children : Nat} {protocols : EfiStatus} {ctx : AlEthContext}
    {hw : EthHw} (hinv : AdapterInv ⟨some ctx, hw⟩) :
    AdapterInv ⟨(alEthNextStop children protocols ctx hw).2.1,
      (alEthNextStop children protocols ctx hw).2.2⟩ := by
  rw [alEthNextStop]
  split
  · exact hinv
  · split
    · exact hinv
    · dsimp only
      split
      · rename_i hstate
        obtain ⟨ring, bufs, hset⟩ := hinv.2 hstate
        obtain ⟨ctx', hw', hshut, -, hidle⟩ := hwShutdown_idle hset
        rw [hshut]
        exact ⟨ctx', hidle⟩
      · rename_i hstate
        exact ⟨ctx, hinv.1 hstate⟩

theorem snpStep_inv (call : SnpCall) (a : AlEthAdapter) (hinv : AdapterInv a)
    (hok : SnpCallOK call a) : AdapterInv (snpStep call a) := by
  rcases a with ⟨ctx, hw⟩
  rcases ctx with _ | ctx
  · exact hinv
  · have hctx := hok ctx rfl
    cases call with
    | snpStart =>
        dsimp only [snpStep, alEthNextSnpStart]
        cases hstate : ctx.state with
        | stopped =>
            have hne : ctx.state ≠ .initialized := by
              rw [hstate]
              decide
            exact adapterInv_idle ((hinv.1 hne).withState .started) started_ne_initialized
        | started => exact hinv
        | initialized => exact hinv
    | snpStop =>
        dsimp only [snpStep, alEthNextSnpStop]
        split
        · exact hinv
        · exact adapterInv_idle ((hinv.1 hctx).withState .stopped) nofun
    | snpInitialize allocOk => exact snpInitialize_inv hinv hctx
    | snpReset allocOk => exact snpReset_inv hinv hctx
    | snpShutdown => exact snpShutdown_inv hinv
    | driverStop children protocols => exact driverStop_inv hinv

/-- `Stop` in the state `Initialized` leaves pages owned by a stopped
context. -/
theorem snpStop_spoils {ctx : AlEthContext} {hw : EthHw}
    (hinv : AdapterInv ⟨some ctx, hw⟩) (hstate : ctx.state = .initialized) :
    ¬ ResourcesOK ⟨some (alEthNextSnpStop ctx).2, hw⟩ := by
  obtain ⟨ring, bufs, hset⟩ := hinv.2 hstate
  rw [alEthNextSnpStop, hstate]
  intro hgood
  have howned := (hgood.idle { ctx with state := .stopped } rfl nofun).2.2
  exact absurd ((hset.withState .stopped).owned.symm.trans howned) (List.cons_ne_nil _ _)

theorem snpStep_spoils (call : SnpCall) (a : AlEthAdapter) (hinv : AdapterInv a)
    (hbad : ¬ SnpCallOK call a) : ¬ ResourcesOK (snpStep call a) := by
  rcases a with ⟨ctx, hw⟩
  obtain ⟨ctx', himp⟩ := not_forall.mp hbad
  obtain ⟨hctx, hcall⟩ := Classical.not_imp.mp himp
  dsimp only at hctx
  subst hctx
  cases call with
  | snpStop => exact snpStop_spoils hinv (not_not.mp hcall)
  | snpInitialize allocOk =>
      obtain ⟨hstate, hpart⟩ := Classical.not_imp.mp hcall
      exact snpInitialize_spoils hinv hstate hpart
  | snpReset allocOk =>
      obtain ⟨hstate, hpart⟩ := Classical.not_imp.mp hcall
      exact snpReset_spoils hinv hstate hpart
  | snpStart => exact absurd trivial hcall
  | snpShutdown => exact absurd trivial hcall
  | driverStop children protocols => exact absurd trivial hcall

theorem adapterInv_fresh : AdapterInv .fresh :=
  adapterInv_idle ⟨rfl, rfl, rfl, rfl, rfl, rfl, rfl⟩ nofun

/-- A run on a fresh adapter keeps the resources in order in every state it
passes through exactly when it never calls `Stop` in the state `Initialized`
and no initialisation runs out of pages halfway. -/
theorem snpRun_resources_iff (calls : List SnpCall) :
    AlongRun snpStep ResourcesOK calls .fresh ↔ StepsMeet snpStep SnpCallOK calls .fresh :=
  alongRun_iff_stepsMeet (fun _ hinv => hinv.resourcesOK) snpStep_inv snpStep_spoils calls
    adapterInv_fresh

/-- Start, initialise and stop: the engines are left running on the pages of
a stopped context, and the driver's `Stop` then frees the context without
stopping them. -/
theorem snpRun_resources_stop_fails :
    ¬ AlongRun snpStep ResourcesOK
        [.snpStart, .snpInitialize fun _ => true, .snpStop, .driverStop 1 .success] .fresh
      ∧ (runEvents snpStep [.snpStart, .snpInitialize fun _ => true, .snpStop,
          .driverStop 1 .success] .fresh).ctx = none
      ∧ (runEvents snpStep [.snpStart, .snpInitialize fun _ => true, .snpStop,
          .driverStop 1 .success] .fresh).hw.canWrite.length = 33 := by
  have hrunning : (snpStep .snpStop (snpStep (.snpInitialize fun _ => true)
      (snpStep .snpStart .fresh))).hw.udmaRunning = true := by decide
  refine ⟨fun hrun => ?_, by decide, by decide⟩
  obtain ⟨-, -, -, hstopped, -⟩ := hrun
  have hidle := (hstopped.idle _ rfl nofun).2.1
  exact absurd (hrunning.symm.trans hidle) (by decide)

end Ccr2004
