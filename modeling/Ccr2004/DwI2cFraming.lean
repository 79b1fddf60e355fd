import Mathlib.Algebra.GroupWithZero.Nat
import Mathlib.Data.List.Induction
import Ccr2004.DwI2c

/-!
# The framing of an I2C transaction

What a request puts on the bus, said without the loops: `requestWords` is
one command word for each byte of each operation, with RESTART on the first
word of every operation but the first, and `stopOnLast` adds STOP to the
last word. `Delivered` splits the received words over the read operations.

The byte loop of one operation writes `opWords` (`transferOperation_spec`),
the operation loop their concatenation (`transferOperations_spec`), which is
the request's words with STOP only when the last operation has a byte.
-/

namespace Ccr2004

/-! ## The transaction a packet asks for -/

/-- One command word for each byte: the read command or the byte to
write. -/
def I2cOperation.commands (op : I2cOperation) : List UInt32 :=
  if op.isRead then List.replicate op.buffer.length dwIcDataCmdCmd
  else op.buffer.map UInt8.toUInt32

/-- The commands of all operations, RESTART on the first word of each but
operation 0. -/
def requestWords (operations : List I2cOperation) : List UInt32 :=
  (operations.mapIdx fun k op => op.commands.mapIdx fun j w =>
    if k ≠ 0 ∧ j = 0 then w ||| dwIcDataCmdRestart else w).flatten

/-- STOP on the last word. -/
def stopOnLast (words : List UInt32) : List UInt32 :=
  words.mapIdx fun j w => if j + 1 = words.length then w ||| dwIcDataCmdStop else w

/-- What an operation with received words `vs` leaves: the bytes in order in
the buffer of a read, and everything else as it was. -/
structure Served (op : I2cOperation) (vs : List UInt32) (op' : I2cOperation) : Prop where
  flags : op'.flags = op.flags
  buffer : op'.buffer = if op.isRead then vs.map UInt32.toUInt8 else op.buffer
  count : vs.length = if op.isRead then op.buffer.length else 0

/-- The received words, in order, serve the operations one after the
other. -/
inductive Delivered : List I2cOperation → List UInt32 → List I2cOperation → Prop
  | nil : Delivered [] [] []
  | snoc {ops ops' : List I2cOperation} {received vs : List UInt32}
      {op op' : I2cOperation} :
      Delivered ops received ops' → Served op vs op' →
      Delivered (ops ++ [op]) (received ++ vs) (ops' ++ [op'])

/-- The bytes of all operations of a packet. -/
def totalBytes (operations : List I2cOperation) : Nat :=
  (operations.map fun op => op.buffer.length).sum

/-- The traffic of a request that reached its completion wait is the
transaction its packet asks for. -/
structure Framed {σ : Type} (operations : List I2cOperation) (st : RequestState σ) :
    Prop where
  words : st.bus.words = stopOnLast (requestWords operations)
  delivered : Delivered operations st.bus.received st.operations

section Controller

variable {σ : Type} (mmio : DwMmio σ) (txFifo : UInt32)

/-- `DwI2cStartRequest` gets to `DwI2cFinish` through its loops, in state
`st`. -/
def ReachesCompletionWait (slaveAddress : UInt64) (operations : List I2cOperation)
    (device : σ) (st : RequestState σ) : Prop :=
  operations.length ≠ 0 ∧
    ∃ bus, beginRequest mmio slaveAddress ⟨device, [], []⟩ = (.success, bus)
      ∧ transferOperations mmio txFifo operations bus = .ok (.next st)

/-- What is left of the request there. -/
theorem startRequest_from_wait {slaveAddress : UInt64} {operations : List I2cOperation}
    {device : σ} {st : RequestState σ}
    (h : ReachesCompletionWait mmio txFifo slaveAddress operations device st) :
    dwI2cStartRequest mmio txFifo slaveAddress (some ⟨operations⟩) ⟨device, [], []⟩
      = .ok ((finishRequest mmio st.bus).1,
          { st with bus := (finishRequest mmio st.bus).2 }) := by
  obtain ⟨hne, bus, hbegin, hloop⟩ := h
  rw [dwI2cStartRequest]
  dsimp only
  rw [if_neg hne, hbegin]
  dsimp only
  rw [if_neg (by rw [EfiStatus.isError_success]; exact Bool.false_ne_true), hloop]
  rfl

/-! ## One operation -/

/-- The words the byte loop writes. -/
def opWords (isLastOp needRestart : Bool) (op : I2cOperation) : List UInt32 :=
  op.commands.mapIdx fun j w =>
    cmdData w (isLastOp && j + 1 == op.buffer.length) (needRestart && j == 0)

@[simp] theorem length_commands (op : I2cOperation) :
    op.commands.length = op.buffer.length := by
  rw [I2cOperation.commands]
  split <;> simp

@[simp] theorem length_opWords (isLastOp needRestart : Bool) (op : I2cOperation) :
    (opWords isLastOp needRestart op).length = op.buffer.length := by
  simp [opWords]

/-- The words up to byte `i` and the one of byte `i`. -/
theorem take_opWords_succ {isLastOp needRestart : Bool} {op : I2cOperation} {i : Nat}
    {base : UInt32} (hbase : op.commands[i]? = some base) :
    (opWords isLastOp needRestart op).take (i + 1)
      = (opWords isLastOp needRestart op).take i
        ++ [cmdData base (isLastOp && i + 1 == op.buffer.length) (needRestart && i == 0)] := by
  rw [List.take_add_one, opWords, List.getElem?_mapIdx, hbase]
  rfl

theorem commands_read {op : I2cOperation} {i : Nat} (hread : op.isRead = true)
    (hi : i < op.buffer.length) : op.commands[i]? = some dwIcDataCmdCmd := by
  rw [I2cOperation.commands, if_pos hread, List.getElem?_replicate, if_pos hi]

theorem commands_write {op : I2cOperation} {i : Nat} {b : UInt8} (hwrite : ¬ op.isRead = true)
    (hb : op.buffer[i]? = some b) : op.commands[i]? = some b.toUInt32 := by
  rw [I2cOperation.commands, if_neg hwrite, List.getElem?_map, hb]
  rfl

theorem toUInt32_and_mask (b : UInt8) : b.toUInt32 &&& dwIcDataCmdDatMask = b.toUInt32 := by
  apply UInt32.toNat_inj.mp
  rw [UInt32.toNat_and, UInt8.toNat_toUInt32]
  exact (Nat.and_two_pow_sub_one_eq_mod b.toNat 8).trans (Nat.mod_eq_of_lt b.toNat_lt)

theorem low_byte (v : UInt32) : (v &&& dwIcDataCmdDatMask).toUInt8 = v.toUInt8 := by
  apply UInt8.toNat_inj.mp
  rw [UInt32.toNat_toUInt8, UInt32.toNat_toUInt8, UInt32.toNat_and]
  have hmask : v.toNat &&& dwIcDataCmdDatMask.toNat = v.toNat % 2 ^ 8 :=
    Nat.and_two_pow_sub_one_eq_mod v.toNat 8
  rw [hmask, Nat.mod_mod]

/-- The two waits of a byte, as far as a round needs them: a status and a bus
with the same traffic. -/
theorem waitTxData_quiet (bus : DwBus σ) :
    ∃ status bus', dwI2cWaitTxData mmio txFifo bus = (status, bus')
      ∧ bus'.words = bus.words ∧ bus'.received = bus.received := by
  have htraffic := waitTxData_traffic mmio txFifo bus
  exact ⟨_, _, rfl, congrArg Prod.fst htraffic, congrArg Prod.snd htraffic⟩

theorem waitRxData_quiet (bus : DwBus σ) :
    ∃ status bus', dwI2cWaitRxData mmio bus = (status, bus')
      ∧ bus'.words = bus.words ∧ bus'.received = bus.received := by
  have htraffic := waitRxData_traffic mmio bus
  exact ⟨_, _, rfl, congrArg Prod.fst htraffic, congrArg Prod.snd htraffic⟩

/-- What is left when a wait gives up: an error, and no words but these. -/
structure GivenUp (words : List UInt32) (status : EfiStatus) (bus : DwBus σ) : Prop where
  failed : status.isError = true
  words : bus.words <+: words

/-- One round of a read: it gives up waiting, or it writes the next word and
stores what it receives. -/
theorem readOperationByte_spec (isLastOp needRestart : Bool) {i : Nat} {s : OpState σ}
    (hi : i < s.op.buffer.length) :
    ∃ c, readOperationByte mmio txFifo isLastOp needRestart i s = .ok c
      ∧ c.Post (fun s' => ∃ v : UInt32,
          s'.bus.words = s.bus.words ++ [cmdData dwIcDataCmdCmd
            (isLastOp && i + 1 == s.op.buffer.length) (needRestart && i == 0)]
          ∧ s'.bus.received = s.bus.received ++ [v]
          ∧ s'.op = s.op.setByte i v.toUInt8)
        (fun t => GivenUp (s.bus.words ++ [cmdData dwIcDataCmdCmd
          (isLastOp && i + 1 == s.op.buffer.length) (needRestart && i == 0)]) t.1 t.2.bus) := by
  obtain ⟨txStatus, txBus, htx, htxWords, htxReceived⟩ :=
    waitTxData_quiet mmio txFifo s.bus
  rw [readOperationByte, htx]
  dsimp only
  split
  · rename_i hfailed
    refine ⟨_, rfl, hfailed, ?_⟩
    rw [← htxWords]
    exact List.prefix_append _ _
  · obtain ⟨rxStatus, rxBus, hrx, hrxWords, hrxReceived⟩ :=
      waitRxData_quiet mmio (dwI2cWrite mmio .dataCmd (cmdData dwIcDataCmdCmd
        (isLastOp && i + 1 == s.op.buffer.length) (needRestart && i == 0)) txBus)
    rw [hrx]
    dsimp only
    split
    · rename_i hfailed
      refine ⟨_, rfl, hfailed, ?_⟩
      rw [← htxWords, show rxBus.words = _ from hrxWords]
      exact List.prefix_rfl
    · rw [low_byte]
      refine ⟨_, rfl, (dwI2cRead mmio .dataCmd rxBus).1, ?_, ?_, rfl⟩
      · rw [← htxWords]
        exact hrxWords
      · rw [← htxReceived]
        exact congrArg (· ++ _) hrxReceived

/-- One round of a write: it gives up waiting, or it writes the next word. -/
theorem writeOperationByte_spec (isLastOp needRestart : Bool) {i : Nat} {s : OpState σ}
    {b : UInt8} (hb : s.op.buffer[i]? = some b) :
    ∃ c, writeOperationByte mmio txFifo isLastOp needRestart i s = .ok c
      ∧ c.Post (fun s' =>
          s'.bus.words = s.bus.words ++ [cmdData b.toUInt32
            (isLastOp && i + 1 == s.op.buffer.length) (needRestart && i == 0)]
          ∧ s'.bus.received = s.bus.received ∧ s'.op = s.op)
        (fun t => GivenUp (s.bus.words ++ [cmdData b.toUInt32
          (isLastOp && i + 1 == s.op.buffer.length) (needRestart && i == 0)]) t.1 t.2.bus) := by
  obtain ⟨txStatus, txBus, htx, htxWords, htxReceived⟩ :=
    waitTxData_quiet mmio txFifo s.bus
  rw [writeOperationByte, htx]
  dsimp only
  split
  · rename_i hfailed
    refine ⟨_, rfl, hfailed, ?_⟩
    rw [← htxWords]
    exact List.prefix_append _ _
  · rw [hb]
    dsimp only
    rw [toUInt32_and_mask]
    refine ⟨_, rfl, ?_, htxReceived, rfl⟩
    rw [← htxWords]
    rfl

theorem GivenUp.take {start words : List UInt32} {n : Nat} {status : EfiStatus} {bus : DwBus σ}
    (h : GivenUp (start ++ words.take n) status bus) : GivenUp (start ++ words) status bus :=
  ⟨h.failed, h.words.trans ((List.prefix_append_right_inj start).mpr (List.take_prefix n words))⟩

/-- The byte loop of a read, up to byte `i`. -/
structure ReadUpTo (op : I2cOperation) (isLastOp needRestart : Bool) (start : DwBus σ)
    (i : Nat) (s : OpState σ) : Prop where
  words : s.bus.words = start.words ++ (opWords isLastOp needRestart op).take i
  received : ∃ vs : List UInt32, vs.length = i ∧ s.bus.received = start.received ++ vs
    ∧ s.op.buffer = vs.map UInt32.toUInt8 ++ op.buffer.drop i
  flags : s.op.flags = op.flags

theorem ReadUpTo.length {op : I2cOperation} {isLastOp needRestart : Bool}
    {start : DwBus σ} {i : Nat} {s : OpState σ}
    (h : ReadUpTo op isLastOp needRestart start i s) (hi : i ≤ op.buffer.length) :
    s.op.buffer.length = op.buffer.length := by
  obtain ⟨vs, hlen, -, hbuffer⟩ := h.received
  rw [hbuffer, List.length_append, List.length_map, List.length_drop]
  omega

/-- Storing the next byte. -/
theorem set_after_prefix {α : Type} {vs : List α} {rest : List α} {i : Nat} (v : α)
    (hlen : vs.length = i) :
    (vs ++ rest).set i v = vs ++ rest.set 0 v := by
  rw [List.set_append_right _ _ (by omega), hlen, Nat.sub_self]

theorem readLoop_spec {op : I2cOperation} (hread : op.isRead = true)
    (isLastOp needRestart : Bool) (start : DwBus σ) :
    ∃ c, forFrom (readOperationByte mmio txFifo isLastOp needRestart) op.buffer.length 0
        ⟨start, op⟩ = .ok c
      ∧ c.Post (ReadUpTo op isLastOp needRestart start op.buffer.length)
        (fun t => GivenUp (start.words ++ opWords isLastOp needRestart op) t.1 t.2.bus) := by
  have hstart : ReadUpTo op isLastOp needRestart start 0 ⟨start, op⟩ :=
    ⟨by simp, ⟨[], by simp⟩, rfl⟩
  suffices hloop : ∃ c, forFrom (readOperationByte mmio txFifo isLastOp needRestart)
        op.buffer.length 0 ⟨start, op⟩ = .ok c
      ∧ c.Post (ReadUpTo op isLastOp needRestart start (0 + op.buffer.length))
        (fun t => GivenUp (start.words ++ opWords isLastOp needRestart op) t.1 t.2.bus) by
    rwa [Nat.zero_add] at hloop
  refine forFrom_total (I := ReadUpTo op isLastOp needRestart start) (fun i s _ hi hs => ?_) hstart
  rw [Nat.zero_add] at hi
  have hlen := hs.length (Nat.le_of_lt hi)
  obtain ⟨c, hc, hpost⟩ := readOperationByte_spec mmio txFifo isLastOp needRestart
    (i := i) (s := s) (by omega)
  have hnext : s.bus.words ++ [cmdData dwIcDataCmdCmd (isLastOp && i + 1 == s.op.buffer.length)
      (needRestart && i == 0)] = start.words ++ (opWords isLastOp needRestart op).take (i + 1) := by
    rw [hs.words, take_opWords_succ (commands_read hread hi), hlen, List.append_assoc]
  rw [hnext] at hpost
  refine ⟨c, hc, hpost.imp (fun s' hs' => ?_) (fun t ht => ht.take)⟩
  obtain ⟨v, hwords, hreceived, hop⟩ := hs'
  obtain ⟨vs, hvs, hrec, hbuffer⟩ := hs.received
  refine ⟨hwords, ⟨vs ++ [v], by simp [hvs], ?_, ?_⟩, ?_⟩
  · rw [hreceived, hrec, List.append_assoc]
  · rw [hop, I2cOperation.setByte_buffer, hbuffer,
      set_after_prefix _ (by rw [List.length_map]; exact hvs),
      List.drop_eq_getElem_cons hi, List.set_cons_zero, List.map_append, List.map_singleton,
      List.append_assoc, List.singleton_append]
  · rw [hop, I2cOperation.setByte_flags]
    exact hs.flags

/-- The byte loop of a write, up to byte `i`. -/
structure WrittenUpTo (op : I2cOperation) (isLastOp needRestart : Bool) (start : DwBus σ)
    (i : Nat) (s : OpState σ) : Prop where
  words : s.bus.words = start.words ++ (opWords isLastOp needRestart op).take i
  received : s.bus.received = start.received
  op : s.op = op

theorem writeLoop_spec {op : I2cOperation} (hwrite : ¬ op.isRead = true)
    (isLastOp needRestart : Bool) (start : DwBus σ) :
    ∃ c, forFrom (writeOperationByte mmio txFifo isLastOp needRestart) op.buffer.length 0
        ⟨start, op⟩ = .ok c
      ∧ c.Post (WrittenUpTo op isLastOp needRestart start op.buffer.length)
        (fun t => GivenUp (start.words ++ opWords isLastOp needRestart op) t.1 t.2.bus) := by
  have hstart : WrittenUpTo op isLastOp needRestart start 0 ⟨start, op⟩ :=
    ⟨by simp, rfl, rfl⟩
  suffices hloop : ∃ c, forFrom (writeOperationByte mmio txFifo isLastOp needRestart)
        op.buffer.length 0 ⟨start, op⟩ = .ok c
      ∧ c.Post (WrittenUpTo op isLastOp needRestart start (0 + op.buffer.length))
        (fun t => GivenUp (start.words ++ opWords isLastOp needRestart op) t.1 t.2.bus) by
    rwa [Nat.zero_add] at hloop
  refine forFrom_total (I := WrittenUpTo op isLastOp needRestart start) (fun i s _ hi hs => ?_) hstart
  rw [Nat.zero_add] at hi
  have hb : op.buffer[i]? = some op.buffer[i] := List.getElem?_eq_getElem hi
  obtain ⟨c, hc, hpost⟩ := writeOperationByte_spec mmio txFifo isLastOp needRestart
    (s := s) (by rw [hs.op]; exact hb)
  have hnext : s.bus.words ++ [cmdData op.buffer[i].toUInt32
      (isLastOp && i + 1 == s.op.buffer.length) (needRestart && i == 0)]
        = start.words ++ (opWords isLastOp needRestart op).take (i + 1) := by
    rw [hs.words, hs.op, take_opWords_succ (commands_write hwrite hb), List.append_assoc]
  rw [hnext] at hpost
  refine ⟨c, hc, hpost.imp (fun s' hs' => ?_) (fun t ht => ht.take)⟩
  obtain ⟨hwords, hreceived, hop⟩ := hs'
  exact ⟨hwords, hreceived.trans hs.received, hop.trans hs.op⟩

/-- What one operation does: its words after those before it, its received
words after those before them. -/
structure Transferred (op : I2cOperation) (isLastOp needRestart : Bool)
    (start : DwBus σ) (s : OpState σ) : Prop where
  words : s.bus.words = start.words ++ opWords isLastOp needRestart op
  served : ∃ vs, s.bus.received = start.received ++ vs ∧ Served op vs s.op

theorem byteLoop_spec (op : I2cOperation) (isLastOp needRestart : Bool)
    (start : DwBus σ) :
    ∃ c, forFrom (if op.isRead then readOperationByte mmio txFifo isLastOp needRestart
          else writeOperationByte mmio txFifo isLastOp needRestart)
        op.buffer.length 0 ⟨start, op⟩ = .ok c
      ∧ c.Post (Transferred op isLastOp needRestart start)
        (fun t => GivenUp (start.words ++ opWords isLastOp needRestart op) t.1 t.2.bus) := by
  have htake : (opWords isLastOp needRestart op).take op.buffer.length
      = opWords isLastOp needRestart op := List.take_of_length_le (by simp)
  by_cases hread : op.isRead = true
  · rw [if_pos hread]
    obtain ⟨c, hc, hpost⟩ := readLoop_spec mmio txFifo hread
      isLastOp needRestart start
    refine ⟨c, hc, hpost.imp (fun s hs => ?_) (fun _ ht => ht)⟩
    obtain ⟨vs, hvs, hrec, hbuffer⟩ := hs.received
    refine ⟨hs.words.trans (by rw [htake]), vs, hrec, hs.flags, ?_, ?_⟩
    · rw [if_pos hread, hbuffer, List.drop_length, List.append_nil]
    · rw [if_pos hread, hvs]
  · rw [if_neg hread]
    obtain ⟨c, hc, hpost⟩ := writeLoop_spec mmio txFifo hread
      isLastOp needRestart start
    refine ⟨c, hc, hpost.imp (fun s hs => ?_) (fun _ ht => ht)⟩
    refine ⟨hs.words.trans (by rw [htake]), [], by rw [hs.received, List.append_nil], ?_⟩
    rw [hs.op]
    exact ⟨rfl, by rw [if_neg hread], by rw [if_neg hread]; rfl⟩

/-! ## The operation loop -/

/-- The words the loop writes for the first operations of a packet of
`count`. -/
def loopWords (count : Nat) (operations : List I2cOperation) : List UInt32 :=
  (operations.mapIdx fun k op => opWords (k + 1 == count) (decide (k > 0)) op).flatten

theorem loopWords_snoc (count : Nat) (operations : List I2cOperation) (op : I2cOperation) :
    loopWords count (operations ++ [op])
      = loopWords count operations
        ++ opWords (operations.length + 1 == count) (decide (operations.length > 0)) op := by
  rw [loopWords, List.mapIdx_concat, List.flatten_append, List.flatten_singleton]
  rfl

/-- The first operations have the first words. -/
theorem loopWords_take (count : Nat) (operations : List I2cOperation) (n : Nat) :
    loopWords count (operations.take n) <+: loopWords count operations := by
  refine ⟨((operations.drop n).mapIdx fun k op => opWords (k + (operations.take n).length + 1 == count)
    (decide (k + (operations.take n).length > 0)) op).flatten, ?_⟩
  rw [loopWords, loopWords, ← List.flatten_append]
  conv_rhs => rw [← List.take_append_drop n operations, List.mapIdx_append]

theorem Delivered.length {ops ops' : List I2cOperation} {received : List UInt32}
    (h : Delivered ops received ops') : ops'.length = ops.length := by
  induction h with
  | nil => rfl
  | snoc _ _ ih => rw [List.length_append, List.length_append, ih]; rfl

/-- The operation loop, up to operation `i`. -/
structure ServedUpTo (operations : List I2cOperation) (start : DwBus σ) (i : Nat)
    (st : RequestState σ) : Prop where
  words : st.bus.words = start.words ++ loopWords operations.length (operations.take i)
  delivered : ∃ received done, st.bus.received = start.received ++ received
    ∧ st.operations = done ++ operations.drop i
    ∧ Delivered (operations.take i) received done

theorem transferOperation_spec {operations : List I2cOperation} {start : DwBus σ} {i : Nat}
    {st : RequestState σ} (hi : i < operations.length)
    (hst : ServedUpTo operations start i st) :
    ∃ c, transferOperation mmio txFifo operations.length i st = .ok c
      ∧ c.Post (ServedUpTo operations start (i + 1))
        (fun t => GivenUp (start.words ++ loopWords operations.length operations) t.1 t.2.bus) := by
  obtain ⟨received, done, hrec, hops, hdone⟩ := hst.delivered
  have htake : (operations.take i).length = i := List.length_take_of_le (Nat.le_of_lt hi)
  have hlen : done.length = i := hdone.length.trans htake
  have hop : st.operations[i]? = some operations[i] := by
    rw [hops, List.getElem?_append_right (by omega), hlen, Nat.sub_self,
      List.drop_eq_getElem_cons hi]
    rfl
  obtain ⟨c, hc, hpost⟩ := byteLoop_spec mmio txFifo operations[i]
    (i + 1 == operations.length) (decide (i > 0)) st.bus
  rw [transferOperation, hop]
  dsimp only
  rw [hc]
  have hsucc : operations.take (i + 1) = operations.take i ++ [operations[i]] := by
    rw [List.take_add_one, List.getElem?_eq_getElem hi]
    rfl
  have hnext : st.bus.words ++ opWords (i + 1 == operations.length) (decide (i > 0)) operations[i]
      = start.words ++ loopWords operations.length (operations.take (i + 1)) := by
    rw [hsucc, loopWords_snoc, htake, ← List.append_assoc, ← hst.words]
  cases c with
  | exit t =>
      have hgiven : GivenUp _ t.1 t.2.bus := hpost
      rw [hnext] at hgiven
      exact ⟨_, rfl, hgiven.failed, hgiven.words.trans
        ((List.prefix_append_right_inj _).mpr (loopWords_take _ _ _))⟩
  | next s =>
      obtain ⟨vs, hvs, hserved⟩ := Transferred.served hpost
      refine ⟨_, rfl, ⟨(Transferred.words hpost).trans hnext, received ++ vs, done ++ [s.op],
        ?_, ?_, ?_⟩⟩
      · rw [← List.append_assoc, ← hrec]
        exact hvs
      · dsimp only
        rw [hops, set_after_prefix _ hlen, List.drop_eq_getElem_cons hi, List.set_cons_zero,
          List.append_assoc, List.singleton_append]
      · rw [hsucc]
        exact hdone.snoc hserved

/-- The loops end without a fault; when they get through, the traffic is
`loopWords` and the received words are delivered. -/
theorem transferOperations_spec (operations : List I2cOperation) (start : DwBus σ) :
    ∃ c, transferOperations mmio txFifo operations start = .ok c
      ∧ c.Post (ServedUpTo operations start operations.length)
        (fun t => GivenUp (start.words ++ loopWords operations.length operations) t.1 t.2.bus) := by
  have hstart : ServedUpTo operations start 0 ⟨start, operations⟩ :=
    ⟨by simp [loopWords], [], [], by simp, by simp, by
      rw [List.take_zero]
      exact .nil⟩
  have hloop : ∃ c, transferOperations mmio txFifo operations start = .ok c
      ∧ c.Post (ServedUpTo operations start (0 + operations.length))
        (fun t => GivenUp (start.words ++ loopWords operations.length operations) t.1 t.2.bus) :=
    forFrom_total (I := ServedUpTo operations start)
      (fun i st _ hi hst => transferOperation_spec mmio txFifo (by omega) hst) hstart
  rwa [Nat.zero_add] at hloop

/-- What a request has done when it reaches its completion wait. -/
theorem completionWait_spec {slaveAddress : UInt64} {operations : List I2cOperation}
    {device : σ} {st : RequestState σ}
    (h : ReachesCompletionWait mmio txFifo slaveAddress operations device st) :
    st.bus.words = loopWords operations.length operations
      ∧ Delivered operations st.bus.received st.operations := by
  obtain ⟨-, bus, hbegin, hloop⟩ := h
  have htraffic := beginRequest_traffic mmio slaveAddress ⟨device, [], []⟩
  rw [hbegin] at htraffic
  have hwords : bus.words = [] := congrArg Prod.fst htraffic
  have hreceived : bus.received = [] := congrArg Prod.snd htraffic
  obtain ⟨c, hc, hpost⟩ := transferOperations_spec mmio txFifo operations bus
  obtain rfl := Except.ok.inj (hloop.symm.trans hc)
  have hserved : ServedUpTo operations bus operations.length st := hpost
  obtain ⟨received, done, hrec, hops, hdone⟩ := hserved.delivered
  rw [List.take_length] at hdone
  rw [List.drop_length, List.append_nil] at hops
  rw [hreceived, List.nil_append] at hrec
  refine ⟨?_, by rw [hrec, hops]; exact hdone⟩
  have hall := hserved.words
  rwa [hwords, List.nil_append, List.take_length] at hall

end Controller

/-! ## The words against the transaction -/

theorem opWords_plain (k : Nat) (op : I2cOperation) :
    opWords false (decide (k > 0)) op
      = op.commands.mapIdx fun j w => if k ≠ 0 ∧ j = 0 then w ||| dwIcDataCmdRestart else w := by
  rw [opWords]
  congr 1
  funext j w
  by_cases hrestart : k ≠ 0 ∧ j = 0
  · obtain ⟨hk, rfl⟩ := hrestart
    simp [cmdData, hk, Nat.pos_of_ne_zero hk]
  · rw [if_neg hrestart]
    have hflag : (decide (k > 0) && j == 0) = false := by
      rw [Bool.and_eq_false_iff, decide_eq_false_iff_not, beq_eq_false_iff_ne]
      by_contra hboth
      exact hrestart ⟨by omega, by omega⟩
    rw [hflag, Bool.false_and]
    rfl

/-- STOP commutes with RESTART. -/
theorem cmdData_stop (w : UInt32) (isLastByte restart : Bool) :
    cmdData w isLastByte restart
      = if isLastByte then cmdData w false restart ||| dwIcDataCmdStop
        else cmdData w false restart := by
  cases isLastByte with
  | false => rfl
  | true =>
      cases restart with
      | false => rfl
      | true =>
          show w ||| dwIcDataCmdStop ||| dwIcDataCmdRestart
            = w ||| dwIcDataCmdRestart ||| dwIcDataCmdStop
          rw [UInt32.or_assoc, UInt32.or_comm dwIcDataCmdStop, ← UInt32.or_assoc]

theorem opWords_last (needRestart : Bool) (op : I2cOperation) :
    opWords true needRestart op = stopOnLast (opWords false needRestart op) := by
  rw [stopOnLast, length_opWords, opWords, opWords, List.mapIdx_mapIdx]
  congr 1
  funext j w
  rw [cmdData_stop, Bool.true_and, Bool.false_and]
  simp only [beq_iff_eq, Function.comp]

theorem requestWords_snoc (operations : List I2cOperation) (op : I2cOperation) :
    requestWords (operations ++ [op])
      = requestWords operations ++ opWords false (decide (operations.length > 0)) op := by
  rw [requestWords, List.mapIdx_concat, List.flatten_append, List.flatten_singleton,
    opWords_plain]
  rfl

/-- Operations that are not the last write their words without STOP. -/
theorem loopWords_of_lt {count : Nat} (operations : List I2cOperation)
    (hlt : operations.length < count) :
    loopWords count operations = requestWords operations := by
  induction operations using List.reverseRecOn with
  | nil => rfl
  | append_singleton operations op ih =>
      rw [List.length_append, List.length_singleton] at hlt
      have hne : (operations.length + 1 == count) = false := by
        rw [beq_eq_false_iff_ne]
        omega
      rw [loopWords_snoc, requestWords_snoc, ih (by omega), hne]

/-- The last operation writes its words with STOP on the last of them. -/
theorem loopWords_snoc_last (operations : List I2cOperation) (op : I2cOperation) :
    loopWords (operations ++ [op]).length (operations ++ [op])
      = requestWords operations
        ++ stopOnLast (opWords false (decide (operations.length > 0)) op) := by
  have hcount : (operations ++ [op]).length = operations.length + 1 := by
    rw [List.length_append, List.length_singleton]
  rw [loopWords_snoc, hcount, beq_self_eq_true, opWords_last,
    loopWords_of_lt operations (Nat.lt_succ_self _)]

theorem length_requestWords (operations : List I2cOperation) :
    (requestWords operations).length = totalBytes operations := by
  induction operations using List.reverseRecOn with
  | nil => rfl
  | append_singleton operations op ih =>
      rw [requestWords_snoc, List.length_append, ih, length_opWords, totalBytes, totalBytes,
        List.map_append, List.sum_append]
      simp

/-- STOP on the last word of a concatenation. -/
theorem stopOnLast_append {ws ws' : List UInt32} (hne : ws' ≠ []) :
    stopOnLast (ws ++ ws') = ws ++ stopOnLast ws' := by
  have hpos : 0 < ws'.length := List.length_pos_iff.mpr hne
  rw [stopOnLast, List.mapIdx_append, stopOnLast]
  congr 1
  · refine List.ext_getElem (by simp) fun j hj hj' => ?_
    rw [List.getElem_mapIdx, if_neg]
    rw [List.length_append]
    omega
  · congr 1
    funext j w
    have hlast : j + ws.length + 1 = (ws ++ ws').length ↔ j + 1 = ws'.length := by
      rw [List.length_append]
      omega
    simp only [hlast]

/-- Before it is put on the last word, no word has the STOP bit. -/
theorem commands_stop {op : I2cOperation} :
    ∀ w ∈ op.commands, w &&& dwIcDataCmdStop = 0 := by
  intro w hw
  rw [I2cOperation.commands] at hw
  split at hw
  · rw [List.eq_of_mem_replicate hw]
    decide
  · obtain ⟨b, -, rfl⟩ := List.mem_map.mp hw
    rw [← toUInt32_and_mask, UInt32.and_assoc]
    exact UInt32.and_zero

theorem or_and_distrib (a b c : UInt32) : (a ||| b) &&& c = a &&& c ||| b &&& c := by
  apply UInt32.toNat_inj.mp
  rw [UInt32.toNat_and, UInt32.toNat_or, UInt32.toNat_or, UInt32.toNat_and, UInt32.toNat_and,
    Nat.and_or_distrib_right]

theorem requestWords_stop (operations : List I2cOperation) :
    ∀ w ∈ requestWords operations, w &&& dwIcDataCmdStop = 0 := by
  intro w hw
  obtain ⟨ws, hws, hw⟩ := List.mem_flatten.mp hw
  obtain ⟨k, hk, rfl⟩ := List.mem_mapIdx.mp hws
  obtain ⟨j, hj, rfl⟩ := List.mem_mapIdx.mp hw
  have hclear := commands_stop _ (List.getElem_mem hj)
  split
  · rw [or_and_distrib, hclear]
    decide
  · exact hclear

/-- Putting STOP on the last word changes it. -/
theorem stopOnLast_ne {ws : List UInt32} (hne : ws ≠ [])
    (hstop : ∀ w ∈ ws, w &&& dwIcDataCmdStop = 0) : ws ≠ stopOnLast ws := by
  obtain ⟨init, w, hws⟩ := (List.eq_nil_or_concat ws).resolve_left hne
  rw [List.concat_eq_append] at hws
  subst hws
  intro heq
  rw [stopOnLast_append (List.cons_ne_nil _ _)] at heq
  have hw : w = w ||| dwIcDataCmdStop :=
    (List.cons.inj (List.append_cancel_left heq)).1
  have hclear := hstop w (List.mem_append_right _ (List.mem_singleton_self w))
  have hset : (w ||| dwIcDataCmdStop) &&& dwIcDataCmdStop = 0 := by
    rw [← hw]
    exact hclear
  rw [or_and_distrib, hclear] at hset
  exact absurd hset (by decide)

/-- The loops write the words of the transaction exactly when the last
operation has a byte for the STOP bit. -/
theorem loopWords_eq_iff {operations : List I2cOperation} {last : I2cOperation}
    (hlast : operations.getLast? = some last) (hbytes : 0 < totalBytes operations) :
    loopWords operations.length operations = stopOnLast (requestWords operations)
      ↔ last.buffer ≠ [] := by
  obtain ⟨init, rfl⟩ := List.getLast?_eq_some_iff.mp hlast
  rw [loopWords_snoc_last]
  by_cases hempty : last.buffer = []
  · have hnone : opWords false (decide (init.length > 0)) last = [] := by
      rw [← List.length_eq_zero_iff, length_opWords, hempty]
      rfl
    have hne : requestWords (init ++ [last]) ≠ [] := by
      rw [← List.length_pos_iff, length_requestWords]
      exact hbytes
    have hinit : requestWords (init ++ [last]) = requestWords init := by
      rw [requestWords_snoc, hnone, List.append_nil]
    refine iff_of_false (fun heq => ?_) (fun hnonempty => hnonempty hempty)
    refine stopOnLast_ne hne (requestWords_stop _) ?_
    rw [← heq, hinit, hnone]
    exact (List.append_nil _).symm
  · have hsome : opWords false (decide (init.length > 0)) last ≠ [] := by
      rw [← List.length_pos_iff, length_opWords]
      exact List.length_pos_iff.mpr hempty
    refine iff_of_true ?_ hempty
    rw [requestWords_snoc, stopOnLast_append hsome]

/-- A request with at least one byte that reaches its completion wait has put
exactly its transaction on the bus, and stored what it received, if and only
if its last operation is not empty. -/
theorem startRequest_framed_iff {σ : Type} {mmio : DwMmio σ} {txFifo : UInt32}
    {slaveAddress : UInt64} {operations : List I2cOperation} {device : σ}
    {st : RequestState σ} (hbytes : 0 < totalBytes operations)
    (hwait : ReachesCompletionWait mmio txFifo slaveAddress operations device st) :
    Framed operations st ↔ ∀ last, operations.getLast? = some last → last.buffer ≠ [] := by
  obtain ⟨hwords, hdelivered⟩ := completionWait_spec mmio txFifo hwait
  have hne : operations ≠ [] := List.length_pos_iff.mp (Nat.pos_of_ne_zero hwait.1)
  obtain ⟨last, hlast⟩ : ∃ last, operations.getLast? = some last :=
    ⟨_, List.getLast?_eq_some_getLast hne⟩
  have hiff := loopWords_eq_iff hlast hbytes
  rw [← hwords] at hiff
  constructor
  · intro hframed other hother
    obtain rfl := Option.some.inj (hlast.symm.trans hother)
    exact hiff.mp hframed.words
  · intro hall
    exact ⟨hiff.mpr (hall last hlast), hdelivered⟩

/-! ## Two requests -/

/-- A controller that is never busy, takes every word at once and receives
0x5A; the state is the last value written to the enable register. -/
def readyController : DwMmio UInt32 where
  read reg enabled :=
    match reg with
    | .status => (0x0C, enabled)
    | .rawIntrStat => (0x200, enabled)
    | .enableStatus => (enabled, enabled)
    | .dataCmd => (0x5A, enabled)
    | _ => (0, enabled)
  write reg v enabled := if reg = .enable then v else enabled

/-- A read of one byte. -/
def readOne (b : UInt8) : I2cOperation := ⟨i2cFlagRead, [b], Nat.succ_lt_succ (Nat.zero_lt_succ _)⟩

/-- A write of no byte. -/
def writeNone : I2cOperation := ⟨0, [], Nat.zero_lt_succ _⟩

/-- Select a register, then read it. -/
theorem startRequest_framed_iff_registerRead :
    0 < totalBytes [.writeByte 0x10, readOne 0]
      ∧ ReachesCompletionWait readyController 16 0x50 [.writeByte 0x10, readOne 0] 0
          ⟨⟨1, [0x010, 0x700], [0x5A]⟩, [.writeByte 0x10, readOne 0x5A]⟩
      ∧ Framed [.writeByte 0x10, readOne 0]
          (⟨⟨1, [0x010, 0x700], [0x5A]⟩, [.writeByte 0x10, readOne 0x5A]⟩ :
            RequestState UInt32) := by
  have hbytes : 0 < totalBytes [.writeByte 0x10, readOne 0] := by decide
  have hwait : ReachesCompletionWait readyController 16 0x50 [.writeByte 0x10, readOne 0] 0
      ⟨⟨1, [0x010, 0x700], [0x5A]⟩, [.writeByte 0x10, readOne 0x5A]⟩ :=
    ⟨by decide, ⟨1, [], []⟩, rfl, rfl⟩
  refine ⟨hbytes, hwait, (startRequest_framed_iff hbytes hwait).mpr fun last hlast => ?_⟩
  obtain rfl := Option.some.inj hlast
  exact List.cons_ne_nil _ _

/-- With an empty last operation the only word goes out without STOP. -/
theorem startRequest_framed_emptyLast_fails :
    0 < totalBytes [.writeByte 0x10, writeNone]
      ∧ ReachesCompletionWait readyController 16 0x50 [.writeByte 0x10, writeNone] 0
          ⟨⟨1, [0x010], []⟩, [.writeByte 0x10, writeNone]⟩
      ∧ stopOnLast (requestWords [.writeByte 0x10, writeNone]) = [0x210]
      ∧ ¬ Framed [.writeByte 0x10, writeNone]
          (⟨⟨1, [0x010], []⟩, [.writeByte 0x10, writeNone]⟩ : RequestState UInt32) := by
  have hwords : stopOnLast (requestWords [.writeByte 0x10, writeNone]) = [0x210] := by decide
  refine ⟨by decide, ⟨by decide, ⟨1, [], []⟩, rfl, rfl⟩, hwords, fun hframed => ?_⟩
  have heq := hframed.words.trans hwords
  exact absurd heq (by decide)

end Ccr2004
