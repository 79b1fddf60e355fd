import Ccr2004.SnpReceive

/-!
# Frames through the receive queue

Runs of frames that arrive and of `Receive` calls, from the queue as the
initialisation leaves it. `arrived` and `delivered` are history variables,
and `owed` is the frame a call was last too small for. Nothing is lost as
long as what was delivered and what is still in the queue make up what has
arrived.

The posted buffers always are a run of slots that ends at the tail
(`RxRing.Contiguous`), so a frame never lands in a buffer whose packet is
still to be collected. But a call with too small a buffer gives the frame's
buffer back although the caller is to retry, and the frame is gone: the
condition that every `Receive` has room is exact (`nothingLost_iff`).
-/

namespace Ccr2004

/-! ## The hardware's side -/

/-- What the DMA engine writes at the start of a buffer. -/
def RxBuffer.write (b : RxBuffer) (piece : List UInt8) : RxBuffer where
  bytes := (piece ++ b.bytes.drop piece.length).take alEthRxBufSize
  full := by
    rw [List.length_take, List.length_append, List.length_drop, b.full]
    omega

/-- The pieces of a frame that go to further buffers than the first. -/
def spillPieces (bytes : List UInt8) : List (List UInt8) :=
  if bytes = [] then []
  else bytes.take alEthRxBufSize :: spillPieces (bytes.drop alEthRxBufSize)
termination_by bytes.length
decreasing_by
  rename_i hne
  rw [List.length_drop]
  exact Nat.sub_lt (List.length_pos_iff.mpr hne) (Nat.zero_lt_succ _)

/-- A frame in pieces of a buffer each. -/
def framePieces (frame : List UInt8) : List (List UInt8) :=
  frame.take alEthRxBufSize :: spillPieces (frame.drop alEthRxBufSize)

/-- The completion of a frame. -/
def frameCompletion (frame : List UInt8) (flags : UInt32) : RxCompletion where
  first := (frame.take alEthRxBufSize).length
  more := (spillPieces (frame.drop alEthRxBufSize)).map List.length
  flags := flags

/-- Pieces written to buffers, one each. -/
def fillBuffers : List RxSlot → List (List UInt8) → (RxSlot → RxBuffer) → RxSlot → RxBuffer
  | slot :: slots, piece :: pieces, buffers =>
      fillBuffers slots pieces (Function.update buffers slot ((buffers slot).write piece))
  | _, _, buffers => buffers

/-- The descriptors that are completed. -/
def RxRing.usedDescs (ring : RxRing) : Nat := (ring.done.map RxCompletion.numDescs).sum

/-- A frame arrives. It is dropped when there are not enough buffers for
it. -/
def RxRing.arrive (ring : RxRing) (frame : List UInt8) (flags : UInt32) : Option RxRing :=
  if hfits : ring.usedDescs + (frameCompletion frame flags).numDescs ≤ ring.posted.length then
    some {
      tail := ring.tail
      buffers :=
        fillBuffers (ring.posted.drop ring.usedDescs) (framePieces frame) ring.buffers
      posted := ring.posted
      done := ring.done ++ [frameCompletion frame flags]
      covered := by
        rw [List.map_append, List.sum_append]
        exact hfits }
  else none

/-! ## Runs -/

inductive RxEvent where
  | arrive (frame : List UInt8) (flags : UInt32)
  | receive (args : ReceiveArgs)

/-- The queue and the history: the frames that have arrived without an error
flag, those delivered, and the one that was refused with the size to come
back with. -/
structure RxState where
  ring : RxRing
  arrived : List (List UInt8)
  delivered : List (List UInt8)
  owed : Option (Nat × List UInt8)

/-- The state after an initialisation. -/
def RxState.start (buffers : RxSlot → RxBuffer) : RxState := ⟨.fresh buffers, [], [], none⟩

/-- The frame a call leaves owed: the one it refuses, or the one owed before
when it had no room for that. -/
def owedAfter (args : ReceiveArgs) (ring : RxRing) (status : EfiStatus) (out : ReceiveOutputs)
    (owed : Option (Nat × List UInt8)) : Option (Nat × List UInt8) :=
  match status, out.bufferSize, ring.done.head? with
  | .bufferTooSmall, some size, some pkt => some (size, ring.packet pkt)
  | _, _, _ => owed.filter fun o => !(args.buffer && args.bufferSize.any fun room => o.1 ≤ room)

def rxStep (event : RxEvent) (s : RxState) : RxState :=
  match event with
  | .arrive frame flags =>
      match s.ring.arrive frame flags with
      | none => s
      | some ring =>
          { s with
            ring := ring
            arrived := s.arrived
              ++ if (frameCompletion frame flags).Failed then [] else [frame] }
  | .receive args =>
      let (status, out, ring) := alEthNextSnpReceive .initialized args s.ring
      { s with
        ring := ring
        delivered := s.delivered ++ out.buffer.toList
        owed := owedAfter args s.ring status out s.owed }

/-- The frames without an error flag in these packets. -/
def packetFrames (buffers : RxSlot → RxBuffer) : List RxSlot → List RxCompletion → List (List UInt8)
  | _, [] => []
  | slots, pkt :: done =>
      (if pkt.Failed then [] else [packetBytes buffers slots (pkt.first :: pkt.more)])
        ++ packetFrames buffers (slots.drop pkt.numDescs) done

/-- The frames in the queue. -/
def RxRing.frames (ring : RxRing) : List (List UInt8) :=
  packetFrames ring.buffers ring.posted ring.done

/-- Every frame has been delivered once, in order, or is in the queue; and
the next call with room for a frame that was refused delivers it. -/
structure NothingLost (s : RxState) : Prop where
  inOrder : s.delivered ++ s.ring.frames = s.arrived
  retried : ∀ size frame, s.owed = some (size, frame) → ∀ args room, args.Given room →
    size ≤ room → ∃ ring,
      alEthNextSnpReceive .initialized args s.ring = (.success, .frame args frame, ring)

/-- A `Receive` that finds a frame finds one it can read, with room for it. -/
def RxEventOK (event : RxEvent) (s : RxState) : Prop :=
  match event with
  | .arrive _ _ => True
  | .receive args => ∀ room, args.Given room → ∀ pkt, s.ring.done.head? = some pkt →
      ¬ pkt.Failed → pkt.InBounds ∧ pkt.first ≤ room ∧ s.ring.InTail pkt

/-! ## Packets in the buffers -/

section Buffers

variable {buffers buffers' : RxSlot → RxBuffer}

/-- The bytes of a packet are in as many buffers as it has lengths. -/
theorem packetBytes_congr (lens : List Nat) : ∀ {slots slots' : List RxSlot},
    slots.take lens.length = slots'.take lens.length →
    (∀ slot ∈ slots.take lens.length, buffers slot = buffers' slot) →
      packetBytes buffers slots lens = packetBytes buffers' slots' lens := by
  induction lens with
  | nil => simp [packetBytes]
  | cons len lens ih =>
      intro slots slots' hslots hsame
      rw [List.length_cons] at hslots hsame
      rcases slots with _ | ⟨slot, slots⟩
      · rw [List.take_nil, eq_comm, List.take_eq_nil_iff] at hslots
        obtain rfl := hslots.resolve_left (Nat.succ_ne_zero _)
        rfl
      · rcases slots' with _ | ⟨slot', slots'⟩
        · simp at hslots
        · rw [List.take_succ_cons, List.take_succ_cons, List.cons.injEq] at hslots
          rw [List.take_succ_cons] at hsame
          obtain ⟨rfl, hrest⟩ := hslots
          rw [packetBytes, packetBytes, hsame slot List.mem_cons_self,
            ih hrest fun other hother => hsame other (List.mem_cons_of_mem slot hother)]

theorem packetFrames_congr (done : List RxCompletion) : ∀ {slots slots' : List RxSlot},
    slots.take (done.map RxCompletion.numDescs).sum
        = slots'.take (done.map RxCompletion.numDescs).sum →
    (∀ slot ∈ slots.take (done.map RxCompletion.numDescs).sum, buffers slot = buffers' slot) →
      packetFrames buffers slots done = packetFrames buffers' slots' done := by
  induction done with
  | nil => simp [packetFrames]
  | cons pkt done ih =>
      intro slots slots' hslots hsame
      rw [List.map_cons, List.sum_cons] at hslots hsame
      have hfirst := congrArg (List.take pkt.numDescs) hslots
      have hrest := congrArg (List.drop pkt.numDescs) hslots
      rw [List.take_take, List.take_take, Nat.min_eq_left (Nat.le_add_right _ _)] at hfirst
      rw [List.drop_take, List.drop_take, Nat.add_sub_cancel_left] at hrest
      rw [List.take_add] at hsame
      rw [packetFrames, packetFrames, packetBytes_congr (pkt.first :: pkt.more) hfirst
          fun slot hslot => hsame slot (List.mem_append_left _ hslot),
        ih hrest fun slot hslot => hsame slot (List.mem_append_right _ hslot)]

theorem packetFrames_cons (buffers : RxSlot → RxBuffer) (slots : List RxSlot)
    (pkt : RxCompletion) (done : List RxCompletion) :
    packetFrames buffers slots (pkt :: done)
      = (if pkt.Failed then [] else [packetBytes buffers slots (pkt.first :: pkt.more)])
        ++ packetFrames buffers (slots.drop pkt.numDescs) done := rfl

theorem packetFrames_append (buffers : RxSlot → RxBuffer) (pkt : RxCompletion) :
    ∀ (done : List RxCompletion) (slots : List RxSlot),
      packetFrames buffers slots (done ++ [pkt]) = packetFrames buffers slots done
        ++ packetFrames buffers (slots.drop (done.map RxCompletion.numDescs).sum) [pkt]
  | [], slots => rfl
  | other :: done, slots => by
      rw [List.cons_append, packetFrames_cons, packetFrames_append buffers pkt done,
        packetFrames_cons buffers slots other done, List.map_cons, List.sum_cons,
        ← List.drop_drop, List.append_assoc]

end Buffers

/-! ## Arrivals -/

theorem flatten_spillPieces (bytes : List UInt8) : (spillPieces bytes).flatten = bytes := by
  induction bytes using spillPieces.induct with
  | case1 => rw [spillPieces, if_pos rfl]; rfl
  | case2 bytes hne ih =>
      rw [spillPieces, if_neg hne, List.flatten_cons, ih, List.take_append_drop]

theorem flatten_framePieces (frame : List UInt8) : (framePieces frame).flatten = frame := by
  rw [framePieces, List.flatten_cons, flatten_spillPieces, List.take_append_drop]

theorem length_le_of_mem_spillPieces (bytes : List UInt8) :
    ∀ piece ∈ spillPieces bytes, piece.length ≤ alEthRxBufSize := by
  induction bytes using spillPieces.induct with
  | case1 => rw [spillPieces, if_pos rfl]; exact List.forall_mem_nil _
  | case2 bytes hne ih =>
      rw [spillPieces, if_neg hne]
      exact List.forall_mem_cons.mpr ⟨List.length_take_le _ _, ih⟩

theorem length_le_of_mem_framePieces (frame : List UInt8) :
    ∀ piece ∈ framePieces frame, piece.length ≤ alEthRxBufSize :=
  List.forall_mem_cons.mpr ⟨List.length_take_le _ _, length_le_of_mem_spillPieces _⟩

/-- A piece is read back from the buffer it was written to. -/
theorem RxBuffer.take_write (b : RxBuffer) {piece : List UInt8}
    (hlen : piece.length ≤ alEthRxBufSize) :
    (b.write piece).bytes.take piece.length = piece := by
  rw [RxBuffer.write, List.take_take, Nat.min_eq_left hlen, List.take_left]

/-- Buffers that are not filled stay as they are. -/
theorem fillBuffers_other {slot : RxSlot} : ∀ {slots : List RxSlot}, slot ∉ slots →
    ∀ (pieces : List (List UInt8)) (buffers : RxSlot → RxBuffer),
      fillBuffers slots pieces buffers slot = buffers slot
  | [], _, _, _ => by simp [fillBuffers]
  | _ :: _, _, [], _ => by simp [fillBuffers]
  | other :: slots, hslot, piece :: pieces, buffers => by
      rw [List.mem_cons, not_or] at hslot
      rw [fillBuffers, fillBuffers_other hslot.2, Function.update_of_ne hslot.1]

/-- Pieces written to different buffers are read back. -/
theorem packetBytes_fillBuffers : ∀ {slots : List RxSlot} {pieces : List (List UInt8)},
    slots.Nodup → pieces.length ≤ slots.length →
    (∀ piece ∈ pieces, piece.length ≤ alEthRxBufSize) → ∀ buffers : RxSlot → RxBuffer,
      packetBytes (fillBuffers slots pieces buffers) slots (pieces.map List.length)
        = pieces.flatten
  | _, [], _, _, _, _ => by simp [packetBytes]
  | [], _ :: _, _, h, _, _ => by simp at h
  | slot :: slots, piece :: pieces, hnodup, hcount, hsizes, buffers => by
      obtain ⟨hslot, hslots⟩ := List.nodup_cons.mp hnodup
      obtain ⟨hpiece, hpieces⟩ := List.forall_mem_cons.mp hsizes
      rw [fillBuffers, List.map_cons, packetBytes, fillBuffers_other hslot,
        Function.update_self, RxBuffer.take_write _ hpiece, List.flatten_cons,
        packetBytes_fillBuffers hslots (Nat.le_of_succ_le_succ hcount) hpieces]

theorem frameCompletion_short {frame : List UInt8} (hlen : frame.length ≤ alEthRxBufSize)
    (flags : UInt32) : frameCompletion frame flags = ⟨frame.length, [], flags⟩ := by
  rw [frameCompletion, List.take_of_length_le hlen, List.drop_of_length_le hlen, spillPieces,
    if_pos rfl, List.map_nil]

theorem arrive_fits (ring : RxRing) (frame : List UInt8) (flags : UInt32)
    (hfits : ring.usedDescs + (frameCompletion frame flags).numDescs ≤ ring.posted.length) :
    ∃ ring', ring.arrive frame flags = some ring'
      ∧ ring'.done = ring.done ++ [frameCompletion frame flags] := by
  rw [RxRing.arrive, dif_pos hfits]
  exact ⟨_, rfl, rfl⟩

/-! ## The posted buffers -/

/-- The slot so many further on, around the end of `RxBuffers`. -/
def slotAfter (start : RxSlot) (i : Nat) : RxSlot :=
  ⟨(start.val + i) % 32, Nat.mod_lt _ (Nat.zero_lt_succ 31)⟩

/-- Slots in the order of their indices. -/
def slotRun (start : RxSlot) (n : Nat) : List RxSlot :=
  (List.range n).map (slotAfter start)

/-- The posted buffers are a run of slots up to the tail. -/
def RxRing.Contiguous (ring : RxRing) : Prop :=
  ∃ start n, n ≤ 32 ∧ ring.posted = slotRun start n ∧ ring.tail = slotAfter start n

theorem slotAfter_add (start : RxSlot) (i j : Nat) :
    slotAfter (slotAfter start i) j = slotAfter start (i + j) := by
  apply Fin.ext
  simp only [slotAfter]
  omega

theorem slotAfter_one (slot : RxSlot) : slotAfter slot 1 = slot + 1 := rfl

theorem slotAfter_round (slot : RxSlot) : slotAfter slot 32 = slot := by
  apply Fin.ext
  simp only [slotAfter]
  omega

theorem length_slotRun (start : RxSlot) (n : Nat) : (slotRun start n).length = n := by
  rw [slotRun, List.length_map, List.length_range]

theorem drop_slotRun (start : RxSlot) (n k : Nat) :
    (slotRun start n).drop k = slotRun (slotAfter start k) (n - k) := by
  rw [slotRun, slotRun, ← List.map_drop, List.range_eq_range', List.drop_range',
    List.range'_eq_map_range, List.map_map]
  refine List.map_congr_left fun i _ => ?_
  rw [slotAfter_add, Function.comp_apply, Nat.zero_add, Nat.mul_one]

theorem slotRun_succ (start : RxSlot) (n : Nat) :
    slotRun start (n + 1) = slotRun start n ++ [slotAfter start n] := by
  rw [slotRun, slotRun, List.range_succ, List.map_append, List.map_singleton]

theorem nodup_slotRun (start : RxSlot) {n : Nat} (hn : n ≤ 32) : (slotRun start n).Nodup := by
  refine List.Nodup.map_on (fun i hi j hj h => ?_) List.nodup_range
  have hval := congrArg Fin.val h
  rw [List.mem_range] at hi hj
  simp only [slotAfter] at hval
  omega

section Queue

variable {ring : RxRing}

theorem RxRing.Contiguous.nodup (h : ring.Contiguous) : ring.posted.Nodup := by
  obtain ⟨start, n, hn, hposted, -⟩ := h
  rw [hposted]
  exact nodup_slotRun start hn

theorem nextDescs_of_next {pkt : RxCompletion} (hnext : ring.done.head? = some pkt) :
    ring.nextDescs = pkt.numDescs := by
  obtain ⟨done, hdone⟩ := List.head?_eq_some_iff.mp hnext
  rw [RxRing.nextDescs, hdone]
  exact Nat.add_zero _

/-- A packet's buffers leave the run at its front, and the tail's joins it at
its end. -/
theorem RxRing.Contiguous.next {pkt : RxCompletion} (h : ring.Contiguous)
    (hnext : ring.done.head? = some pkt) : ring.ack.reSubmit.Contiguous := by
  obtain ⟨start, n, hn, hposted, htail⟩ := h
  obtain ⟨slot, slots, hcons, hslots⟩ := RxRing.posted_of_next hnext
  have hlen := length_slotRun start n
  rw [← hposted, hcons, List.length_cons] at hlen
  have hback : ring.ack.posted = slotRun (slotAfter start pkt.numDescs) (n - pkt.numDescs) := by
    rw [RxRing.ack_posted, nextDescs_of_next hnext, hposted, drop_slotRun]
  have hroom : ring.ack.posted.length < txUsableDescs := by
    rw [hback, length_slotRun, txUsableDescs]
    omega
  have hdescs : pkt.numDescs ≤ n ∧ 1 ≤ pkt.numDescs := by
    rw [RxCompletion.numDescs]
    omega
  have hend : ring.tail
      = slotAfter (slotAfter start pkt.numDescs) (n - pkt.numDescs) := by
    rw [htail, slotAfter_add, Nat.add_sub_cancel' hdescs.1]
  refine ⟨slotAfter start pkt.numDescs, n - pkt.numDescs + 1, by omega, ?_, ?_⟩
  · rw [RxRing.reSubmit_posted _ hroom, slotRun_succ, hback, ← hend]
    rfl
  · show ring.tail + 1 = _
    rw [← slotAfter_one, hend, slotAfter_add]

/-- Collecting a packet takes its frame off the front of the queue. -/
theorem frames_of_next {pkt : RxCompletion} (hnext : ring.done.head? = some pkt) :
    ring.frames
      = (if pkt.Failed then [] else [ring.packet pkt]) ++ ring.ack.reSubmit.frames := by
  obtain ⟨done, hdone⟩ := List.head?_eq_some_iff.mp hnext
  have hack : ring.ack.done = done := by
    rw [RxRing.ack_done, hdone]
    rfl
  have hposted : ring.ack.posted = ring.posted.drop pkt.numDescs := by
    rw [RxRing.ack_posted, nextDescs_of_next hnext]
  have hcovered := ring.ack.covered
  rw [RxRing.frames, RxRing.frames, hdone, packetFrames_cons, RxRing.packet]
  congr 1
  show packetFrames ring.buffers _ done
    = packetFrames ring.buffers (ring.ack.posted ++ _) ring.ack.done
  rw [hack] at hcovered ⊢
  rw [← hposted]
  refine packetFrames_congr done ?_ fun _ _ => rfl
  rw [List.take_append_of_le_length hcovered]

/-- A frame that arrives is the last in the queue, and the others are still
there. -/
theorem frames_arrive {ring' : RxRing} {frame : List UInt8} {flags : UInt32}
    (hposted : ring.posted.Nodup) (h : ring.arrive frame flags = some ring') :
    ring'.frames
      = ring.frames ++ if (frameCompletion frame flags).Failed then [] else [frame] := by
  rw [RxRing.arrive] at h
  split at h
  · rename_i hfits
    obtain rfl := Option.some.inj h
    have hused : ring.usedDescs = (ring.done.map RxCompletion.numDescs).sum := rfl
    have hlens : (frameCompletion frame flags).first :: (frameCompletion frame flags).more
        = (framePieces frame).map List.length := rfl
    have hsplit := hposted
    rw [← List.take_append_drop ring.usedDescs ring.posted, List.nodup_append] at hsplit
    obtain ⟨-, hfree, hapart⟩ := hsplit
    have hold : ∀ slot ∈ ring.posted.take ring.usedDescs,
        fillBuffers (ring.posted.drop ring.usedDescs) (framePieces frame) ring.buffers slot
          = ring.buffers slot := fun slot hslot =>
      fillBuffers_other (fun hmem => hapart slot hslot slot hmem rfl) _ _
    have hcount : (framePieces frame).length ≤ (ring.posted.drop ring.usedDescs).length := by
      have hdescs : (frameCompletion frame flags).numDescs = (framePieces frame).length := by
        rw [← List.length_map (f := List.length), ← hlens]
        rfl
      rw [List.length_drop, ← hdescs]
      exact Nat.le_sub_of_add_le' hfits
    rw [RxRing.frames, packetFrames_append, packetFrames_congr ring.done rfl hold,
      packetFrames_cons, ← hused, hlens,
      packetBytes_fillBuffers hfree hcount (length_le_of_mem_framePieces frame),
      flatten_framePieces]
    rw [packetFrames, List.append_nil]
    rfl
  · cases h

theorem RxRing.Contiguous.arrive {ring' : RxRing} {frame : List UInt8} {flags : UInt32}
    (h : ring.Contiguous) (harrive : ring.arrive frame flags = some ring') :
    ring'.Contiguous := by
  rw [RxRing.arrive] at harrive
  split at harrive
  · obtain rfl := Option.some.inj harrive
    exact h
  · cases harrive

end Queue

/-! ## Runs in which nothing is lost -/

/-- What every step that meets the condition keeps; no frame is refused in
such a run. -/
structure RxInv (s : RxState) : Prop where
  contiguous : s.ring.Contiguous
  inOrder : s.delivered ++ s.ring.frames = s.arrived
  owed : s.owed = none

theorem RxInv.nothingLost {s : RxState} (h : RxInv s) : NothingLost s := by
  refine ⟨h.inOrder, fun size frame howed => ?_⟩
  rw [h.owed] at howed
  cases howed

theorem rxStep_arrive {s : RxState} (hinv : RxInv s) (frame : List UInt8) (flags : UInt32) :
    RxInv (rxStep (.arrive frame flags) s) := by
  rw [rxStep]
  rcases harrive : s.ring.arrive frame flags with _ | ring
  · exact hinv
  · refine ⟨hinv.contiguous.arrive harrive, ?_, hinv.owed⟩
    show s.delivered ++ ring.frames = s.arrived ++ _
    rw [frames_arrive hinv.contiguous.nodup harrive, ← List.append_assoc, hinv.inOrder]

/-- What a call leaves of the state, given how it ends. -/
theorem rxStep_receive {s : RxState} {args : ReceiveArgs} {status : EfiStatus}
    {out : ReceiveOutputs} {ring : RxRing}
    (hrun : alEthNextSnpReceive .initialized args s.ring = (status, out, ring)) :
    rxStep (.receive args) s
      = ⟨ring, s.arrived, s.delivered ++ out.buffer.toList,
          owedAfter args s.ring status out s.owed⟩ := by
  rw [rxStep, hrun]

/-- Only a call that reports a size leaves a frame owed. -/
theorem owedAfter_unset (args : ReceiveArgs) (ring : RxRing) (status : EfiStatus) :
    owedAfter args ring status .unset none = none := by
  unfold owedAfter
  split
  · rename_i hsize _
    cases hsize
  · rfl

theorem owedAfter_success (args : ReceiveArgs) (ring : RxRing) (out : ReceiveOutputs) :
    owedAfter args ring .success out none = none := by
  unfold owedAfter
  split
  · rename_i hstatus _ _
    cases hstatus
  · rfl

/-- A call that writes nothing keeps the invariant with the queue's. -/
theorem RxInv.unset {s : RxState} (hinv : RxInv s) {ring : RxRing}
    (hcontiguous : ring.Contiguous) (hframes : ring.frames = s.ring.frames)
    (args : ReceiveArgs) (status : EfiStatus) :
    RxInv ⟨ring, s.arrived, s.delivered ++ ReceiveOutputs.unset.buffer.toList,
      owedAfter args s.ring status .unset s.owed⟩ := by
  refine ⟨hcontiguous, ?_, ?_⟩
  · show s.delivered ++ [] ++ ring.frames = s.arrived
    rw [List.append_nil, hframes, hinv.inOrder]
  · rw [hinv.owed]
    exact owedAfter_unset args s.ring status

section Receive

variable {s : RxState} {args : ReceiveArgs}

theorem rxStep_receive_inv (hinv : RxInv s) (hok : RxEventOK (.receive args) s) :
    RxInv (rxStep (.receive args) s) := by
  by_cases hargs : ∃ room, args.Given room
  · obtain ⟨room, hargs⟩ := hargs
    rcases hnext : s.ring.done.head? with _ | pkt
    · rw [rxStep_receive (receive_none hargs hnext), RxRing.ack_of_none hnext]
      exact hinv.unset hinv.contiguous rfl args .notReady
    · have hcontiguous := hinv.contiguous.next hnext
      have hframes := frames_of_next hnext
      by_cases hfailed : pkt.Failed
      · rw [if_pos hfailed, List.nil_append] at hframes
        rw [rxStep_receive (receive_failed hargs hnext hfailed)]
        exact hinv.unset hcontiguous hframes.symm args .notReady
      · obtain ⟨hlen, hroom, htail⟩ := hok room hargs pkt hnext hfailed
        rw [if_neg hfailed, (RxRing.packet_eq_iff hnext hlen.buffer).mpr htail] at hframes
        rw [rxStep_receive (receive_delivers hargs hnext hfailed hlen hroom)]
        refine ⟨hcontiguous, ?_, ?_⟩
        · show s.delivered ++ [_] ++ s.ring.ack.reSubmit.frames = s.arrived
          rw [List.append_assoc, ← hframes, hinv.inOrder]
        · rw [hinv.owed]
          exact owedAfter_success args s.ring
            (.frame args ((s.ring.buffers s.ring.tail).bytes.take pkt.first))
  · obtain ⟨status, -, hrun⟩ := receive_refused .initialized args s.ring
      fun h => hargs h.2
    rw [rxStep_receive hrun]
    exact hinv.unset hinv.contiguous rfl args status

/-- A frame that is taken off the queue and not delivered is gone. -/
theorem gone_of_undelivered {delivered frames arrived : List (List UInt8)} {frame : List UInt8}
    (horder : delivered ++ ([frame] ++ frames) = arrived) :
    delivered ++ [] ++ frames ≠ arrived := by
  intro hafter
  have hlen := congrArg List.length (horder.trans hafter.symm)
  simp at hlen

/-- The frame at the front is gone, or something else was delivered for it. -/
theorem rxStep_receive_loses (hinv : RxInv s) (hbad : ¬ RxEventOK (.receive args) s) :
    ¬ NothingLost (rxStep (.receive args) s) := by
  simp only [RxEventOK, not_forall] at hbad
  obtain ⟨room, hargs, pkt, hnext, hfailed, hbad⟩ := hbad
  have horder := hinv.inOrder
  rw [frames_of_next hnext, if_neg hfailed] at horder
  intro hgood
  have hafter := hgood.inOrder
  by_cases hlen : pkt.InBounds
  · rcases Nat.lt_or_ge room pkt.first with hroom | hroom
    · rw [rxStep_receive (receive_tooSmall hargs hnext hfailed hlen hroom)] at hafter
      exact gone_of_undelivered horder hafter
    · rw [rxStep_receive (receive_delivers hargs hnext hfailed hlen hroom)] at hafter
      have hafter' : s.delivered ++ [(s.ring.buffers s.ring.tail).bytes.take pkt.first]
          ++ s.ring.ack.reSubmit.frames = s.arrived := hafter
      rw [← horder, List.append_assoc, List.append_cancel_left_eq,
        List.append_cancel_right_eq, List.singleton_inj] at hafter'
      exact hbad ⟨hlen, hroom, (RxRing.packet_eq_iff hnext hlen.buffer).mp hafter'.symm⟩
  · rw [rxStep_receive (receive_badLength hargs hnext hfailed hlen)] at hafter
    exact gone_of_undelivered horder hafter

end Receive

theorem rxInv_start (buffers : RxSlot → RxBuffer) : RxInv (RxState.start buffers) := by
  have hposted : List.finRange 32 = slotRun 0 32 := by decide
  exact ⟨⟨0, 32, le_rfl, hposted, rfl⟩, rfl, rfl⟩

/-- Nothing is lost in a run exactly when every `Receive` in it that finds a
frame has room for it and can read it. -/
theorem nothingLost_iff (buffers : RxSlot → RxBuffer) (events : List RxEvent) :
    AlongRun rxStep NothingLost events (RxState.start buffers)
      ↔ StepsMeet rxStep RxEventOK events (RxState.start buffers) := by
  refine alongRun_iff_stepsMeet (fun _ h => h.nothingLost) ?_ ?_ events (rxInv_start buffers)
  · intro event s hinv hok
    cases event with
    | arrive frame flags => exact rxStep_arrive hinv frame flags
    | receive args => exact rxStep_receive_inv hinv hok
  · intro event s hinv hbad
    cases event with
    | arrive frame flags => exact absurd trivial hbad
    | receive args => exact rxStep_receive_loses hinv hbad

/-- A frame of 60 bytes, asked for with room for 10 and then for 2048, is
gone. -/
theorem not_nothingLost_small :
    ¬ AlongRun rxStep NothingLost
      [.arrive (List.replicate 60 0) 0, .receive ⟨some 10, true, false, false, false, false⟩,
        .receive ⟨some 2048, true, false, false, false, false⟩]
      (RxState.start fun _ => ⟨List.replicate alEthRxBufSize 0, List.length_replicate⟩) := by
  have hframe : frameCompletion (List.replicate 60 0) 0 = ⟨60, [], 0⟩ :=
    frameCompletion_short (by decide) 0
  rintro ⟨-, -, hsecond, -⟩
  refine rxStep_receive_loses (rxStep_arrive (rxInv_start _) (List.replicate 60 0) 0) ?_ hsecond
  intro hok
  obtain ⟨ring', harrive, hdone⟩ := arrive_fits
    (.fresh fun _ => ⟨List.replicate alEthRxBufSize 0, List.length_replicate⟩)
    (List.replicate 60 0) 0 (by rw [hframe]; decide)
  have hnext : ring'.done.head? = some ⟨60, [], 0⟩ := by
    rw [hdone, hframe]
    rfl
  rw [rxStep, RxState.start, harrive] at hok
  exact absurd (hok 10 ⟨rfl, rfl⟩ _ hnext (by decide)).2.1 (by decide)

/-! ## Frames that fit a buffer -/

/-- The posted buffers are all of them from the tail on, and every packet is
in one. -/
structure RxRing.InStep (ring : RxRing) : Prop where
  posted : ring.posted = slotRun ring.tail 32
  single : ∀ pkt ∈ ring.done, pkt.more = []

theorem RxRing.InStep.head {ring : RxRing} (h : ring.InStep) :
    ring.posted.head? = some ring.tail := by
  rw [h.posted]
  exact congrArg some (Fin.ext (Nat.mod_eq_of_lt ring.tail.isLt))

theorem RxRing.InStep.inTail {ring : RxRing} (h : ring.InStep) {pkt : RxCompletion}
    (hnext : ring.done.head? = some pkt) : ring.InTail pkt := by
  refine ⟨fun len hlen => ?_, fun slot hslot => ?_⟩
  · rw [h.single pkt (List.mem_of_mem_head? hnext)] at hlen
    cases hlen
  · obtain rfl := Option.some.inj (h.head.symm.trans hslot)
    rfl

/-- Without the next packet's, all buffers but the tail's are posted. -/
theorem RxRing.InStep.ack {ring : RxRing} (h : ring.InStep) {pkt : RxCompletion}
    (hnext : ring.done.head? = some pkt) : ring.ack.posted = slotRun (ring.tail + 1) 31 := by
  have hdescs : ring.nextDescs = 1 := by
    rw [nextDescs_of_next hnext, RxCompletion.numDescs,
      h.single pkt (List.mem_of_mem_head? hnext)]
    rfl
  rw [RxRing.ack_posted, hdescs, h.posted, drop_slotRun]
  rfl

theorem RxRing.InStep.next {ring : RxRing} (h : ring.InStep) {pkt : RxCompletion}
    (hnext : ring.done.head? = some pkt) : ring.ack.reSubmit.InStep := by
  have hposted := h.ack hnext
  have hround : slotAfter (ring.tail + 1) 31 = ring.tail := by
    rw [← slotAfter_one, slotAfter_add, slotAfter_round]
  have hroom : ring.ack.posted.length < txUsableDescs := by
    rw [hposted, length_slotRun]
    decide
  refine ⟨?_, fun pkt hpkt => h.single pkt (List.mem_of_mem_drop hpkt)⟩
  rw [RxRing.reSubmit_posted _ hroom, hposted, RxRing.reSubmit_tail, slotRun_succ _ 31]
  show _ ++ [ring.tail] = slotRun (ring.tail + 1) 31 ++ [slotAfter (ring.tail + 1) 31]
  rw [hround]

theorem RxRing.InStep.arrive {ring ring' : RxRing} {frame : List UInt8} {flags : UInt32}
    (h : ring.InStep) (hlen : frame.length ≤ alEthRxBufSize)
    (harrive : ring.arrive frame flags = some ring') : ring'.InStep := by
  rw [RxRing.arrive] at harrive
  split at harrive
  · obtain rfl := Option.some.inj harrive
    refine ⟨h.posted, fun pkt hpkt => ?_⟩
    rcases List.mem_append.mp hpkt with hold | hnew
    · exact h.single pkt hold
    · rw [List.mem_singleton.mp hnew, frameCompletion_short hlen]
  · cases harrive

theorem RxRing.InStep.receive {ring : RxRing} (h : ring.InStep) (state : SnpState)
    (args : ReceiveArgs) : (alEthNextSnpReceive state args ring).2.2.InStep := by
  rcases receive_ring state args ring with hsame | ⟨⟨pkt, hnext⟩, htaken⟩
  · rw [hsame]
    exact h
  · rw [htaken]
    exact h.next hnext

theorem RxRing.InStep.fresh (buffers : RxSlot → RxBuffer) : (RxRing.fresh buffers).InStep :=
  ⟨(by decide : List.finRange 32 = slotRun 0 32), List.forall_mem_nil _⟩

def RxEvent.Short : RxEvent → Prop
  | .arrive frame _ => frame.length ≤ alEthRxBufSize
  | .receive _ => True

theorem rxStep_inStep (event : RxEvent) (s : RxState) (hshort : event.Short)
    (h : s.ring.InStep) : (rxStep event s).ring.InStep := by
  cases event with
  | arrive frame flags =>
      rw [rxStep]
      rcases harrive : s.ring.arrive frame flags with _ | ring
      · exact h
      · exact h.arrive hshort harrive
  | receive args =>
      exact h.receive .initialized args

/-- While every frame fits a buffer the next packet is in the tail's, so the
condition on a `Receive` is one on lengths. -/
theorem inTail_of_short {buffers : RxSlot → RxBuffer} {events : List RxEvent}
    (hshort : ∀ event ∈ events, event.Short) {pkt : RxCompletion}
    (hnext : (runEvents rxStep events (RxState.start buffers)).ring.done.head? = some pkt) :
    (runEvents rxStep events (RxState.start buffers)).ring.InTail pkt := by
  exact RxRing.InStep.inTail
    (runEvents_inv rxStep_inStep hshort (RxRing.InStep.fresh buffers)) hnext

end Ccr2004
