import Ccr2004.DwI2cFraming

/-!
# The bytes a request writes

A word written to `DATA_CMD` without the read bit is a byte on the bus. The
words of the loops, wherever a wait ends them, are a prefix of `loopWords`,
whose bytes are those of the packet (`pushedBytes_loopWords`). The `Abort`
label sends its STOP with a write command, so it adds a byte 0x00
(`abortRequest_words`): nothing that was not asked for is written exactly
when that is the next byte of the packet there (`pushesOnly_iff`).
-/

namespace Ccr2004

/-- The byte of a write command. -/
def pushedByte (w : UInt32) : Option UInt8 :=
  if w &&& dwIcDataCmdCmd = 0 then some w.toUInt8 else none

/-- The bytes these words put on the bus. -/
def pushedBytes (words : List UInt32) : List UInt8 :=
  words.filterMap pushedByte

/-! ## The words of the packet -/

/-- A flag outside the read bit and the data bits does not change the byte. -/
theorem pushedByte_or (w flag : UInt32) (hcmd : flag &&& dwIcDataCmdCmd = 0)
    (hdata : flag.toUInt8 = 0) : pushedByte (w ||| flag) = pushedByte w := by
  rw [pushedByte, pushedByte, or_and_distrib, hcmd, UInt32.or_zero, UInt32.toUInt8_or, hdata,
    UInt8.or_zero]

@[simp] theorem pushedByte_cmdData (w : UInt32) (isLastByte restart : Bool) :
    pushedByte (cmdData w isLastByte restart) = pushedByte w := by
  have hstop := pushedByte_or w dwIcDataCmdStop (by decide) (by decide)
  cases isLastByte with
  | false =>
      cases restart with
      | false => rfl
      | true => exact pushedByte_or w _ (by decide) (by decide)
  | true =>
      cases restart with
      | false => exact hstop
      | true => exact (pushedByte_or _ _ (by decide) (by decide)).trans hstop

theorem pushedByte_write (b : UInt8) : pushedByte b.toUInt32 = some b := by
  have hread : b.toUInt32 &&& dwIcDataCmdCmd = 0 := by
    rw [← toUInt32_and_mask, UInt32.and_assoc]
    exact UInt32.and_zero
  rw [pushedByte, if_pos hread, UInt8.toUInt8_toUInt32]

/-- Flags that leave each byte as it is leave the bytes as they are. -/
theorem pushedBytes_mapIdx (ws : List UInt32) :
    ∀ (f : Nat → UInt32 → UInt32), (∀ j w, pushedByte (f j w) = pushedByte w) →
      pushedBytes (ws.mapIdx f) = pushedBytes ws := by
  induction ws with
  | nil => exact fun _ _ => rfl
  | cons w ws ih =>
      intro f hf
      have hrest := ih (fun j => f (j + 1)) (fun j => hf (j + 1))
      simp only [pushedBytes] at hrest ⊢
      rw [List.mapIdx_cons, List.filterMap_cons, List.filterMap_cons, hf, hrest]

theorem pushedBytes_opWords (isLastOp needRestart : Bool) (op : I2cOperation) :
    pushedBytes (opWords isLastOp needRestart op) = op.written := by
  rw [opWords, pushedBytes_mapIdx _ _ fun j w => pushedByte_cmdData w _ _,
    I2cOperation.commands, I2cOperation.written]
  split
  · have hread : pushedByte dwIcDataCmdCmd = none := by decide
    rw [pushedBytes, List.filterMap_eq_nil_iff]
    intro w hw
    rw [List.eq_of_mem_replicate hw, hread]
  · rw [pushedBytes, List.filterMap_map]
    exact (List.filterMap_congr fun b _ => pushedByte_write b).trans List.filterMap_some

theorem pushedBytes_loopWords (count : Nat) (operations : List I2cOperation) :
    pushedBytes (loopWords count operations) = operations.flatMap I2cOperation.written := by
  induction operations using List.reverseRecOn with
  | nil => rfl
  | append_singleton operations op ih =>
      have happend : ∀ ws ws' : List UInt32,
          pushedBytes (ws ++ ws') = pushedBytes ws ++ pushedBytes ws' :=
        fun _ _ => List.filterMap_append
      rw [loopWords_snoc, happend, ih, pushedBytes_opWords, List.flatMap_append]
      simp

section Controller

variable {σ : Type} (mmio : DwMmio σ) (txFifo : UInt32)

/-! ## The end of a request -/

/-- The abort writes one word. -/
theorem abortRequest_words (status : EfiStatus) (bus : DwBus σ) :
    (abortRequest mmio status bus).2.words = bus.words ++ [dwIcDataCmdStop] := by
  have htraffic : (abortRequest mmio status bus).2.traffic
      = (dwI2cWrite mmio .dataCmd dwIcDataCmdStop bus).traffic := by
    dsimp only [abortRequest]
    rw [endRequest_traffic, checkErrors_traffic, finish_traffic]
  exact congrArg Prod.fst htraffic

/-- The completion wait writes nothing, unless it aborts. -/
theorem finishRequest_words {bus : DwBus σ}
    (h : ¬ (dwI2cFinish mmio bus).1.isError = true) :
    (finishRequest mmio bus).2.words = bus.words := by
  have htraffic : (finishRequest mmio bus).2.traffic = bus.traffic := by
    dsimp only [finishRequest]
    rw [if_neg h]
    dsimp only
    rw [endRequest_traffic, checkErrors_traffic, finish_traffic]
  exact congrArg Prod.fst htraffic

/-! ## The runs of a request -/

/-- The request gets to its `Abort` label, with this status and state: from a
wait of the loops or from the completion wait. -/
inductive ReachesAbort (slaveAddress : UInt64) (operations : List I2cOperation) (device : σ) :
    EfiStatus → RequestState σ → Prop
  | wait {bus : DwBus σ} {status : EfiStatus} {st : RequestState σ} :
      operations.length ≠ 0 →
      beginRequest mmio slaveAddress ⟨device, [], []⟩ = (.success, bus) →
      transferOperations mmio txFifo operations bus = .ok (.exit (status, st)) →
      ReachesAbort slaveAddress operations device status st
  | finish {st : RequestState σ} {status : EfiStatus} {bus : DwBus σ} :
      ReachesCompletionWait mmio txFifo slaveAddress operations device st →
      dwI2cFinish mmio st.bus = (status, bus) → status.isError = true →
      ReachesAbort slaveAddress operations device status { st with bus := bus }

variable {mmio txFifo} {slaveAddress : UInt64} {operations : List I2cOperation} {device : σ}

theorem beginRequest_success {bus bus' : DwBus σ} {status : EfiStatus}
    (h : beginRequest mmio slaveAddress bus = (status, bus')) (hok : ¬ status.isError = true) :
    status = .success := by
  dsimp only [beginRequest] at h
  split at h
  · rename_i hbusy
    obtain ⟨rfl, -⟩ := Prod.mk.inj h
    exact absurd hbusy hok
  · exact (Prod.mk.inj h).1.symm

/-- What is left of the request at the `Abort` label. -/
theorem startRequest_from_abort {status : EfiStatus} {st : RequestState σ}
    (h : ReachesAbort mmio txFifo slaveAddress operations device status st) :
    dwI2cStartRequest mmio txFifo slaveAddress (some ⟨operations⟩) ⟨device, [], []⟩
      = .ok ((abortRequest mmio status st.bus).1,
          { st with bus := (abortRequest mmio status st.bus).2 }) := by
  cases h with
  | wait hne hbegin hloop =>
      rw [dwI2cStartRequest]
      dsimp only
      rw [if_neg hne, hbegin]
      dsimp only
      rw [if_neg (by rw [EfiStatus.isError_success]; exact Bool.false_ne_true), hloop]
      rfl
  | finish hwait hfinish herror =>
      rw [startRequest_from_wait mmio txFifo hwait, finishRequest, hfinish]
      dsimp only
      rw [if_pos herror]

/-- A wait that gives up leaves an error. -/
theorem abort_failed {status : EfiStatus} {st : RequestState σ}
    (h : ReachesAbort mmio txFifo slaveAddress operations device status st) :
    status.isError = true := by
  cases h with
  | @wait bus _ _ _ _ hloop =>
      obtain ⟨c, hc, hpost⟩ := transferOperations_spec mmio txFifo operations bus
      obtain rfl := Except.ok.inj (hloop.symm.trans hc)
      exact GivenUp.failed hpost
  | finish _ _ herror => exact herror

/-- A request is refused or finds the bus busy, completes, or aborts. -/
theorem startRequest_cases {status : EfiStatus} {st : RequestState σ}
    (h : dwI2cStartRequest mmio txFifo slaveAddress (some ⟨operations⟩) ⟨device, [], []⟩
      = .ok (status, st)) :
    (status.isError = true ∧ st.bus.words = [])
      ∨ (∃ st', ReachesCompletionWait mmio txFifo slaveAddress operations device st'
          ∧ ¬ (dwI2cFinish mmio st'.bus).1.isError = true
          ∧ status = (finishRequest mmio st'.bus).1
          ∧ st = { st' with bus := (finishRequest mmio st'.bus).2 })
      ∨ ∃ status' st', ReachesAbort mmio txFifo slaveAddress operations device status' st'
          ∧ status = (abortRequest mmio status' st'.bus).1
          ∧ st = { st' with bus := (abortRequest mmio status' st'.bus).2 } := by
  by_cases hempty : operations.length = 0
  · rw [dwI2cStartRequest] at h
    dsimp only at h
    rw [if_pos hempty] at h
    obtain ⟨rfl, rfl⟩ := Prod.mk.inj (Except.ok.inj h)
    exact .inl ⟨rfl, rfl⟩
  · have htraffic := beginRequest_traffic mmio slaveAddress ⟨device, [], []⟩
    cases hbegin : beginRequest mmio slaveAddress ⟨device, [], []⟩ with
    | mk begun bus =>
        rw [hbegin] at htraffic
        by_cases hbusy : begun.isError = true
        · rw [dwI2cStartRequest] at h
          dsimp only at h
          rw [if_neg hempty, hbegin] at h
          dsimp only at h
          rw [if_pos hbusy] at h
          obtain ⟨rfl, rfl⟩ := Prod.mk.inj (Except.ok.inj h)
          exact .inl ⟨hbusy, congrArg Prod.fst htraffic⟩
        · obtain rfl := beginRequest_success hbegin hbusy
          obtain ⟨c, hloop, -⟩ := transferOperations_spec mmio txFifo operations bus
          cases c with
          | exit t =>
              have habort : ReachesAbort mmio txFifo slaveAddress operations device t.1 t.2 :=
                .wait hempty hbegin hloop
              rw [startRequest_from_abort habort] at h
              obtain ⟨rfl, rfl⟩ := Prod.mk.inj (Except.ok.inj h)
              exact .inr (.inr ⟨_, _, habort, rfl, rfl⟩)
          | next st' =>
              have hwait : ReachesCompletionWait mmio txFifo slaveAddress operations device st' :=
                ⟨hempty, bus, hbegin, hloop⟩
              by_cases herror : (dwI2cFinish mmio st'.bus).1.isError = true
              · have habort := ReachesAbort.finish hwait rfl herror
                rw [startRequest_from_abort habort] at h
                obtain ⟨rfl, rfl⟩ := Prod.mk.inj (Except.ok.inj h)
                exact .inr (.inr ⟨_, _, habort, rfl, rfl⟩)
              · rw [startRequest_from_wait mmio txFifo hwait] at h
                obtain ⟨rfl, rfl⟩ := Prod.mk.inj (Except.ok.inj h)
                exact .inr (.inl ⟨st', hwait, herror, rfl, rfl⟩)

/-- At the `Abort` label the words are the first of those of the loops. -/
theorem abort_words {status : EfiStatus} {st : RequestState σ}
    (h : ReachesAbort mmio txFifo slaveAddress operations device status st) :
    st.bus.words <+: loopWords operations.length operations := by
  cases h with
  | @wait bus _ _ hne hbegin hloop =>
      have htraffic := beginRequest_traffic mmio slaveAddress ⟨device, [], []⟩
      rw [hbegin] at htraffic
      have hwords : bus.words = [] := congrArg Prod.fst htraffic
      obtain ⟨c, hc, hpost⟩ := transferOperations_spec mmio txFifo operations bus
      obtain rfl := Except.ok.inj (hloop.symm.trans hc)
      have hgiven : GivenUp (bus.words ++ loopWords operations.length operations) status st.bus :=
        hpost
      rw [hwords, List.nil_append] at hgiven
      exact hgiven.words
  | @finish st _ bus hwait hfinish _ =>
      have htraffic := finish_traffic mmio st.bus
      rw [hfinish] at htraffic
      have hwords : bus.words = st.bus.words := congrArg Prod.fst htraffic
      refine ⟨[], ?_⟩
      rw [List.append_nil]
      exact hwords.trans (completionWait_spec mmio txFifo hwait).1

end Controller

/-! ## No other byte is written -/

/-- Whatever the outcome, the bytes written are the first of those the packet
asks to write. -/
def PushesOnly {σ : Type} (mmio : DwMmio σ) (txFifo : UInt32) (slaveAddress : UInt64)
    (packet : I2cRequestPacket) (device : σ) : Prop :=
  ∀ status st, dwI2cStartRequest mmio txFifo slaveAddress (some packet) ⟨device, [], []⟩
      = .ok (status, st) →
    pushedBytes st.bus.words <+: packet.written

/-- Where the request aborts, the next byte of the packet is 0x00. -/
def AbortsAtZero {σ : Type} (mmio : DwMmio σ) (txFifo : UInt32) (slaveAddress : UInt64)
    (packet : I2cRequestPacket) (device : σ) : Prop :=
  ∀ status st, ReachesAbort mmio txFifo slaveAddress packet.operations device status st →
    packet.written[(pushedBytes st.bus.words).length]? = some 0

/-- One more element of a list. -/
theorem append_singleton_prefix_iff {α : Type} {xs l : List α} {a : α} (h : xs <+: l) :
    xs ++ [a] <+: l ↔ l[xs.length]? = some a := by
  obtain ⟨rest, rfl⟩ := h
  rw [List.prefix_append_right_inj, List.getElem?_append_right (Nat.le_refl _), Nat.sub_self]
  cases rest with
  | nil => simp
  | cons b rest => simp [eq_comm]

section Pushed

variable {σ : Type} {mmio : DwMmio σ} {txFifo : UInt32} {slaveAddress : UInt64}
  {packet : I2cRequestPacket} {device : σ}

/-- The first words of a packet write the first of its bytes. -/
theorem pushedBytes_front {ws : List UInt32}
    (hws : ws <+: loopWords packet.operations.length packet.operations) :
    pushedBytes ws <+: packet.written := by
  rw [I2cRequestPacket.written, ← pushedBytes_loopWords packet.operations.length]
  exact hws.filterMap pushedByte

/-- The abort writes a zero. -/
theorem pushedBytes_abort (ws : List UInt32) :
    pushedBytes (ws ++ [dwIcDataCmdStop]) = pushedBytes ws ++ [0] := by
  rw [pushedBytes, List.filterMap_append]
  rfl

theorem PushesOnly.abortsAtZero (h : PushesOnly mmio txFifo slaveAddress packet device) :
    AbortsAtZero mmio txFifo slaveAddress packet device := by
  intro status st habort
  have hpushed := h _ _ (startRequest_from_abort habort)
  dsimp only at hpushed
  rw [abortRequest_words, pushedBytes_abort] at hpushed
  exact (append_singleton_prefix_iff (pushedBytes_front (abort_words habort))).mp hpushed

theorem AbortsAtZero.pushesOnly (h : AbortsAtZero mmio txFifo slaveAddress packet device) :
    PushesOnly mmio txFifo slaveAddress packet device := by
  intro status st hrun
  rcases startRequest_cases hrun with
    ⟨-, hnone⟩ | ⟨st', hwait, hok, -, rfl⟩ | ⟨status', st', habort, -, rfl⟩
  · rw [hnone]
    exact List.nil_prefix
  · dsimp only
    rw [finishRequest_words mmio hok, (completionWait_spec mmio txFifo hwait).1]
    exact pushedBytes_front List.prefix_rfl
  · dsimp only
    rw [abortRequest_words, pushedBytes_abort]
    exact (append_singleton_prefix_iff (pushedBytes_front (abort_words habort))).mpr
      (h _ _ habort)

end Pushed

/-- Exactly when the byte the abort writes is the next one anyway, only bytes
of the packet are written. -/
theorem pushesOnly_iff {σ : Type} (mmio : DwMmio σ) (txFifo : UInt32) (slaveAddress : UInt64)
    (packet : I2cRequestPacket) (device : σ) :
    PushesOnly mmio txFifo slaveAddress packet device
      ↔ AbortsAtZero mmio txFifo slaveAddress packet device :=
  ⟨PushesOnly.abortsAtZero, AbortsAtZero.pushesOnly⟩

/-- A bus on which no slave answers: the words leave the FIFO, nothing is
received and TX_ABRT is raised. -/
def absentSlave : DwMmio UInt32 where
  read reg enabled :=
    match reg with
    | .status => (0x04, enabled)
    | .rawIntrStat => (0x240, enabled)
    | .enableStatus => (enabled, enabled)
    | _ => (0, enabled)
  write reg v enabled := if reg = .enable then v else enabled

/-- Selecting a register of a slave that does not answer writes 0x00 after
the register's number. -/
theorem not_pushesOnly_absentSlave :
    ¬ PushesOnly absentSlave 16 0x50 ⟨[.writeByte 0x10, readOne 0]⟩ 0 := by
  intro h
  have habort : ReachesAbort absentSlave 16 0x50 [.writeByte 0x10, readOne 0] 0 .aborted
      ⟨⟨1, [0x010, 0x700], []⟩, [.writeByte 0x10, readOne 0]⟩ :=
    .wait (by decide) rfl rfl
  exact absurd (h.abortsAtZero _ _ habort) (by decide)

end Ccr2004
