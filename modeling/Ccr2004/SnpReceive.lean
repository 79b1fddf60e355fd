import Ccr2004.SnpTransmit
import Ccr2004.Bytes

/-!
# Receive

`AlEthNextSnpReceive` over the receive queue of the UDMA. The hardware fills
posted buffers in the order they were posted, a packet possibly several of
them; the driver takes the packet from the buffer its own `RxBufTailIdx`
points at and looks at the first length only.

A call is sound when its success delivers the next packet, and nothing else
counts as a success. It fails that on two kinds of packets: one whose length
is out of bounds is dropped with `EFI_SUCCESS`, and one that is not all in
the tail's buffer is delivered as something else (`receiveSound_iff`).
-/

namespace Ccr2004

/-! ## The receive queue -/

/-- `AL_ETH_RX_BUF_SIZE`. -/
def alEthRxBufSize : Nat := 2048

/-- A receive buffer. -/
structure RxBuffer where
  bytes : List UInt8
  full : bytes.length = alEthRxBufSize

/-- An index into `RxBuffers`. -/
abbrev RxSlot := Fin 32

/-- A completed packet: `bufs[i].len` of its descriptors, and the flags of
the last of them. -/
structure RxCompletion where
  first : Nat
  more : List Nat
  flags : UInt32
deriving Repr, DecidableEq

def RxCompletion.numDescs (pkt : RxCompletion) : Nat := pkt.more.length + 1

/-- `AL_ETH_RX_ERROR | AL_UDMA_CDESC_ERROR`. -/
def rxErrorFlags : UInt32 := 0x80010000

def RxCompletion.Failed (pkt : RxCompletion) : Prop := pkt.flags &&& rxErrorFlags ≠ 0

instance (pkt : RxCompletion) : Decidable pkt.Failed :=
  inferInstanceAs (Decidable (_ ≠ _))

/-- The queue, with `RxBuffers` and `RxBufTailIdx` of the driver: the buffers
the hardware has and those it has completed, oldest first, and the packets
completed in them. -/
structure RxRing where
  tail : RxSlot
  buffers : RxSlot → RxBuffer
  posted : List RxSlot
  done : List RxCompletion
  covered : (done.map RxCompletion.numDescs).sum ≤ posted.length

/-- The descriptors of the next packet. -/
def RxRing.nextDescs (ring : RxRing) : Nat :=
  ((ring.done.take 1).map RxCompletion.numDescs).sum

/-- `al_udma_cdesc_ack` of the next packet. -/
def RxRing.ack (ring : RxRing) : RxRing where
  tail := ring.tail
  buffers := ring.buffers
  posted := ring.posted.drop ring.nextDescs
  done := ring.done.drop 1
  covered := by
    have hall := ring.covered
    rw [← List.take_append_drop 1 ring.done, List.map_append, List.sum_append] at hall
    rw [List.length_drop]
    exact Nat.le_sub_of_add_le (by rw [RxRing.nextDescs]; omega)

/-- `al_eth_pkt_rx`. -/
def alEthPktRx (ring : RxRing) : Option RxCompletion × RxRing :=
  (ring.done.head?, ring.ack)

/-- `al_eth_rx_buffer_add` of the tail's buffer with its doorbell, when there
is room for a descriptor, and the step of `RxBufTailIdx`. -/
def RxRing.reSubmit (ring : RxRing) : RxRing where
  tail := ring.tail + 1
  buffers := ring.buffers
  posted := ring.posted
    ++ if txUsableDescs - ring.posted.length < 1 then [] else [ring.tail]
  done := ring.done
  covered := by
    rw [List.length_append]
    exact Nat.le_add_right_of_le ring.covered

@[simp] theorem RxRing.ack_posted (ring : RxRing) :
    ring.ack.posted = ring.posted.drop ring.nextDescs := rfl

@[simp] theorem RxRing.ack_done (ring : RxRing) : ring.ack.done = ring.done.drop 1 := rfl

@[simp] theorem RxRing.reSubmit_done (ring : RxRing) : ring.reSubmit.done = ring.done := rfl

@[simp] theorem RxRing.reSubmit_tail (ring : RxRing) : ring.reSubmit.tail = ring.tail + 1 := rfl

/-- With nothing completed there is nothing to acknowledge. -/
theorem RxRing.ack_of_none {ring : RxRing} (hnext : ring.done.head? = none) :
    ring.ack = ring := by
  rcases ring with ⟨tail, buffers, posted, done, covered⟩
  obtain rfl := List.head?_eq_none_iff.mp hnext
  rfl

/-- The tail's buffer goes back while there is room for its descriptor. -/
theorem RxRing.reSubmit_posted (ring : RxRing) (hroom : ring.posted.length < txUsableDescs) :
    ring.reSubmit.posted = ring.posted ++ [ring.tail] := by
  have hfree : ¬ txUsableDescs - ring.posted.length < 1 := by omega
  show ring.posted ++ (if _ then [] else [ring.tail]) = _
  rw [if_neg hfree]

/-! ## The call -/

/-- The arguments: `*BufferSize` when `BufferSize` is not null, and which of
the other pointers are not. -/
structure ReceiveArgs where
  bufferSize : Option Nat
  buffer : Bool
  headerSize : Bool
  srcAddr : Bool
  destAddr : Bool
  protocol : Bool
deriving Repr, DecidableEq

/-- What is written through the pointers to the parts of the header. -/
structure RxHeader where
  headerSize : Option UInt64
  destAddr : Option (List UInt8)
  srcAddr : Option (List UInt8)
  protocol : Option UInt16
deriving Repr, DecidableEq

/-- What a call writes; `none` is left as it was. -/
structure ReceiveOutputs where
  bufferSize : Option Nat
  buffer : Option (List UInt8)
  header : RxHeader
deriving Repr, DecidableEq

def RxHeader.unset : RxHeader := ⟨none, none, none, none⟩

/-- The header information in a packet. -/
def rxHeader (args : ReceiveArgs) (pktData : List UInt8) : RxHeader where
  headerSize := if args.headerSize then some mediaHeaderSize else none
  destAddr := if args.destAddr then some (slice pktData 0 6) else none
  srcAddr := if args.srcAddr then some (slice pktData 6 6) else none
  protocol := if args.protocol then
      some ((pktData.getD 12 0).toUInt16 <<< 8 ||| (pktData.getD 13 0).toUInt16)
    else none

/-- From the label `ReSubmit` on. -/
def receiveReSubmit (pkt : RxCompletion) (out : ReceiveOutputs) (ring : RxRing) :
    EfiStatus × ReceiveOutputs × RxRing :=
  (if ¬ pkt.Failed then .success else .notReady, out, ring.reSubmit)

/-- `AlEthNextSnpReceive`. -/
def alEthNextSnpReceive (state : SnpState) (args : ReceiveArgs) (ring : RxRing) :
    EfiStatus × ReceiveOutputs × RxRing :=
  if state ≠ .initialized then (notInitializedStatus state, ⟨none, none, .unset⟩, ring)
  else
    match args.buffer, args.bufferSize with
    | true, some bufferSize =>
        match alEthPktRx ring with
        | (none, ring) => (.notReady, ⟨none, none, .unset⟩, ring)
        | (some pkt, ring) =>
            if pkt.Failed then receiveReSubmit pkt ⟨none, none, .unset⟩ ring
            else if pkt.first < 14 ∨ alEthRxBufSize < pkt.first then
              receiveReSubmit pkt ⟨none, none, .unset⟩ ring
            else if bufferSize < pkt.first then
              (.bufferTooSmall, ⟨some pkt.first, none, .unset⟩, ring.reSubmit)
            else
              let pktData := (ring.buffers ring.tail).bytes
              receiveReSubmit pkt
                ⟨some pkt.first, some (pktData.take pkt.first), rxHeader args pktData⟩ ring
    | _, _ => (.invalidParameter, ⟨none, none, .unset⟩, ring)

/-! ## Packets in memory -/

/-- The bytes that were written to these buffers, as many to each as its
descriptor says. -/
def packetBytes (buffers : RxSlot → RxBuffer) : List RxSlot → List Nat → List UInt8
  | slot :: slots, len :: lens =>
      (buffers slot).bytes.take len ++ packetBytes buffers slots lens
  | _, _ => []

/-- The bytes of the next packet. -/
def RxRing.packet (ring : RxRing) (pkt : RxCompletion) : List UInt8 :=
  packetBytes ring.buffers ring.posted (pkt.first :: pkt.more)

/-- The packet is all in one buffer, and that one reads as the tail's. -/
structure RxRing.InTail (ring : RxRing) (pkt : RxCompletion) : Prop where
  single : ∀ len ∈ pkt.more, len = 0
  reads : ∀ slot ∈ ring.posted.head?,
    (ring.buffers slot).bytes.take pkt.first = (ring.buffers ring.tail).bytes.take pkt.first

theorem RxBuffer.length_take (b : RxBuffer) {len : Nat} (hlen : len ≤ alEthRxBufSize) :
    (b.bytes.take len).length = len := by
  rw [List.length_take, b.full, Nat.min_eq_left hlen]

theorem RxBuffer.take_eq_nil {b : RxBuffer} {len : Nat} (h : b.bytes.take len = []) :
    len = 0 := by
  rcases List.take_eq_nil_iff.mp h with hlen | hnone
  · exact hlen
  · have hfull := b.full
    rw [hnone] at hfull
    cases hfull

theorem packetBytes_eq_nil_iff (buffers : RxSlot → RxBuffer) :
    ∀ {slots : List RxSlot} {lens : List Nat}, lens.length ≤ slots.length →
      (packetBytes buffers slots lens = [] ↔ ∀ len ∈ lens, len = 0)
  | _, [], _ => by simp [packetBytes]
  | [], _ :: _, h => by simp at h
  | slot :: slots, len :: lens, h => by
      rw [packetBytes, List.append_eq_nil_iff, List.forall_mem_cons,
        packetBytes_eq_nil_iff buffers (Nat.le_of_succ_le_succ h)]
      refine and_congr_left fun _ => ⟨RxBuffer.take_eq_nil, ?_⟩
      rintro rfl
      exact List.take_zero

/-- A collected packet has a buffer for each of its descriptors. -/
theorem RxRing.posted_of_next {ring : RxRing} {pkt : RxCompletion}
    (hnext : ring.done.head? = some pkt) :
    ∃ slot slots, ring.posted = slot :: slots ∧ pkt.more.length ≤ slots.length := by
  have hcovered := ring.covered
  obtain ⟨done, hdone⟩ := List.head?_eq_some_iff.mp hnext
  rw [hdone, List.map_cons, List.sum_cons, RxCompletion.numDescs] at hcovered
  rcases hposted : ring.posted with _ | ⟨slot, slots⟩
  · rw [hposted, List.length_nil] at hcovered
    omega
  · rw [hposted, List.length_cons] at hcovered
    exact ⟨slot, slots, rfl, by omega⟩

theorem RxRing.packet_eq_iff {ring : RxRing} {pkt : RxCompletion}
    (hnext : ring.done.head? = some pkt) (hlen : pkt.first ≤ alEthRxBufSize) :
    ring.packet pkt = (ring.buffers ring.tail).bytes.take pkt.first ↔ ring.InTail pkt := by
  obtain ⟨slot, slots, hposted, hslots⟩ := RxRing.posted_of_next hnext
  have hmore := packetBytes_eq_nil_iff ring.buffers hslots
  rw [RxRing.packet, hposted, packetBytes]
  constructor
  · intro h
    have hcount := congrArg List.length h
    rw [List.length_append, RxBuffer.length_take _ hlen, RxBuffer.length_take _ hlen] at hcount
    have hnone : packetBytes ring.buffers slots pkt.more = [] :=
      List.eq_nil_of_length_eq_zero (by omega)
    rw [hnone, List.append_nil] at h
    refine ⟨hmore.mp hnone, fun slot' hslot' => ?_⟩
    rw [hposted] at hslot'
    obtain rfl := Option.some.inj hslot'
    exact h
  · intro h
    rw [hmore.mpr h.single, List.append_nil]
    exact h.reads slot (by rw [hposted]; rfl)

/-! ## What a call does -/

/-- Nothing is written. -/
def ReceiveOutputs.unset : ReceiveOutputs := ⟨none, none, .unset⟩

/-- What a call that delivers these bytes writes. -/
def ReceiveOutputs.frame (args : ReceiveArgs) (bytes : List UInt8) : ReceiveOutputs :=
  ⟨some bytes.length, some bytes, rxHeader args bytes⟩

/-- The bounds a length has to be in. -/
structure RxCompletion.InBounds (pkt : RxCompletion) : Prop where
  header : 14 ≤ pkt.first
  buffer : pkt.first ≤ alEthRxBufSize

/-- The call gets to the queue, with this many bytes of room. -/
structure ReceiveArgs.Given (args : ReceiveArgs) (room : Nat) : Prop where
  buffer : args.buffer = true
  bufferSize : args.bufferSize = some room

/-- The header is in the first bytes of a packet. -/
theorem rxHeader_take (args : ReceiveArgs) (pktData : List UInt8) {len : Nat} (hlen : 14 ≤ len) :
    rxHeader args (pktData.take len) = rxHeader args pktData := by
  have hslice : ∀ off, off + 6 ≤ len → slice (pktData.take len) off 6 = slice pktData off 6 := by
    intro off hoff
    rw [slice, slice, List.drop_take, List.take_take, Nat.min_eq_left (by omega)]
  have hbyte : ∀ i < len, (pktData.take len).getD i 0 = pktData.getD i 0 := by
    intro i hi
    rw [List.getD_eq_getElem?_getD, List.getD_eq_getElem?_getD, List.getElem?_take_of_lt hi]
  rw [rxHeader, rxHeader, hslice 0 (by omega), hslice 6 (by omega), hbyte 12 (by omega),
    hbyte 13 (by omega)]

section Receive

variable {args : ReceiveArgs} {ring : RxRing} {room : Nat} {pkt : RxCompletion}

theorem receive_none (hargs : args.Given room) (hnext : ring.done.head? = none) :
    alEthNextSnpReceive .initialized args ring = (.notReady, .unset, ring.ack) := by
  rw [alEthNextSnpReceive, if_neg (not_not.mpr rfl), hargs.buffer, hargs.bufferSize]
  dsimp only
  rw [alEthPktRx, hnext]
  rfl

/-- A packet with an error flag goes back to the ring. -/
theorem receive_failed (hargs : args.Given room) (hnext : ring.done.head? = some pkt)
    (hfailed : pkt.Failed) :
    alEthNextSnpReceive .initialized args ring = (.notReady, .unset, ring.ack.reSubmit) := by
  rw [alEthNextSnpReceive, if_neg (not_not.mpr rfl), hargs.buffer, hargs.bufferSize]
  dsimp only
  rw [alEthPktRx, hnext]
  dsimp only
  rw [if_pos hfailed, receiveReSubmit, if_neg (not_not.mpr hfailed)]
  rfl

/-- So does one of a bad length, as a success. -/
theorem receive_badLength (hargs : args.Given room) (hnext : ring.done.head? = some pkt)
    (hfailed : ¬ pkt.Failed) (hlen : ¬ pkt.InBounds) :
    alEthNextSnpReceive .initialized args ring = (.success, .unset, ring.ack.reSubmit) := by
  have hbad : pkt.first < 14 ∨ alEthRxBufSize < pkt.first := by
    by_contra hgood
    rw [not_or, Nat.not_lt, Nat.not_lt] at hgood
    exact hlen ⟨hgood.1, hgood.2⟩
  rw [alEthNextSnpReceive, if_neg (not_not.mpr rfl), hargs.buffer, hargs.bufferSize]
  dsimp only
  rw [alEthPktRx, hnext]
  dsimp only
  rw [if_neg hfailed, if_pos hbad, receiveReSubmit, if_pos hfailed]
  rfl

theorem not_badLength (hlen : pkt.InBounds) : ¬ (pkt.first < 14 ∨ alEthRxBufSize < pkt.first) :=
  not_or.mpr ⟨Nat.not_lt.mpr hlen.header, Nat.not_lt.mpr hlen.buffer⟩

/-- And one that the caller has no room for. -/
theorem receive_tooSmall (hargs : args.Given room) (hnext : ring.done.head? = some pkt)
    (hfailed : ¬ pkt.Failed) (hlen : pkt.InBounds) (hroom : room < pkt.first) :
    alEthNextSnpReceive .initialized args ring
      = (.bufferTooSmall, ⟨some pkt.first, none, .unset⟩, ring.ack.reSubmit) := by
  rw [alEthNextSnpReceive, if_neg (not_not.mpr rfl), hargs.buffer, hargs.bufferSize]
  dsimp only
  rw [alEthPktRx, hnext]
  dsimp only
  rw [if_neg hfailed, if_neg (not_badLength hlen), if_pos hroom]

/-- What is delivered is in the tail's buffer. -/
theorem receive_delivers (hargs : args.Given room) (hnext : ring.done.head? = some pkt)
    (hfailed : ¬ pkt.Failed) (hlen : pkt.InBounds) (hroom : pkt.first ≤ room) :
    alEthNextSnpReceive .initialized args ring
      = (.success, .frame args ((ring.buffers ring.tail).bytes.take pkt.first),
          ring.ack.reSubmit) := by
  have hout : (⟨some pkt.first, some ((ring.buffers ring.tail).bytes.take pkt.first),
      rxHeader args (ring.buffers ring.tail).bytes⟩ : ReceiveOutputs)
        = .frame args ((ring.buffers ring.tail).bytes.take pkt.first) := by
    rw [ReceiveOutputs.frame, RxBuffer.length_take _ hlen.buffer, rxHeader_take _ _ hlen.header]
  rw [alEthNextSnpReceive, if_neg (not_not.mpr rfl), hargs.buffer, hargs.bufferSize]
  dsimp only
  rw [alEthPktRx, hnext]
  dsimp only
  rw [if_neg hfailed, if_neg (not_badLength hlen), if_neg (Nat.not_lt.mpr hroom),
    receiveReSubmit, if_pos hfailed, ← hout]
  rfl

/-- A call that does not get to the queue. -/
theorem receive_refused (state : SnpState) (args : ReceiveArgs) (ring : RxRing)
    (h : ¬ (state = .initialized ∧ ∃ room, args.Given room)) :
    ∃ status, status.isError = true
      ∧ alEthNextSnpReceive state args ring = (status, .unset, ring) := by
  rw [alEthNextSnpReceive]
  by_cases hstate : state = .initialized
  · rw [if_neg (not_not.mpr hstate)]
    rcases hbuffer : args.buffer with _ | _
    · exact ⟨.invalidParameter, rfl, rfl⟩
    · rcases hsize : args.bufferSize with _ | room
      · exact ⟨.invalidParameter, rfl, rfl⟩
      · exact absurd ⟨hstate, room, hbuffer, hsize⟩ h
  · rw [if_pos hstate]
    refine ⟨notInitializedStatus state, ?_, rfl⟩
    rw [notInitializedStatus]
    split <;> rfl

/-- A call leaves the queue as it is, or takes its next packet and gives a
buffer back. -/
theorem receive_ring (state : SnpState) (args : ReceiveArgs) (ring : RxRing) :
    (alEthNextSnpReceive state args ring).2.2 = ring
      ∨ (∃ pkt, ring.done.head? = some pkt)
        ∧ (alEthNextSnpReceive state args ring).2.2 = ring.ack.reSubmit := by
  by_cases hcall : state = .initialized ∧ ∃ room, args.Given room
  · obtain ⟨rfl, room, hargs⟩ := hcall
    rcases hnext : ring.done.head? with _ | pkt
    · left
      rw [receive_none hargs hnext, RxRing.ack_of_none hnext]
    · refine .inr ⟨⟨pkt, rfl⟩, ?_⟩
      by_cases hfailed : pkt.Failed
      · rw [receive_failed hargs hnext hfailed]
      · by_cases hlen : pkt.InBounds
        · rcases Nat.lt_or_ge room pkt.first with hroom | hroom
          · rw [receive_tooSmall hargs hnext hfailed hlen hroom]
          · rw [receive_delivers hargs hnext hfailed hlen hroom]
        · rw [receive_badLength hargs hnext hfailed hlen]
  · obtain ⟨status, -, hrun⟩ := receive_refused state args ring hcall
    left
    rw [hrun]

end Receive

/-! ## Soundness -/

/-- The next packet was collected and at most one buffer given back, or
nothing has changed. -/
def GivesBackOnce (ring ring' : RxRing) : Prop :=
  ring'.posted = ring.posted ∧ ring'.done = ring.done
    ∨ ∃ back, ring'.posted = ring.posted.drop ring.nextDescs ++ back
      ∧ ring'.done = ring.done.drop 1 ∧ back.length ≤ 1

/-- A success delivers the next packet, whatever delivers none is an error,
and a buffer goes back once. -/
structure ReceiveSound (state : SnpState) (args : ReceiveArgs) (ring : RxRing) : Prop where
  delivers : (alEthNextSnpReceive state args ring).1 = .success →
    ∃ pkt, ring.done.head? = some pkt ∧ ¬ pkt.Failed
      ∧ (alEthNextSnpReceive state args ring).2.1 = .frame args (ring.packet pkt)
  fails : (alEthNextSnpReceive state args ring).2.1.buffer = none →
    (alEthNextSnpReceive state args ring).1.isError = true
  givesBack : GivesBackOnce ring (alEthNextSnpReceive state args ring).2.2

/-- The next packet, if it has no error flag and the call gets to it, is of a
length within bounds and, when there is room for it, in the tail's buffer. -/
def NextReadable (state : SnpState) (args : ReceiveArgs) (ring : RxRing) : Prop :=
  state = .initialized → ∀ room, args.Given room → ∀ pkt, ring.done.head? = some pkt →
    ¬ pkt.Failed → pkt.InBounds ∧ (pkt.first ≤ room → ring.InTail pkt)

theorem givesBackOnce_receive (state : SnpState) (args : ReceiveArgs) (ring : RxRing) :
    GivesBackOnce ring (alEthNextSnpReceive state args ring).2.2 := by
  rcases receive_ring state args ring with hsame | ⟨-, htaken⟩
  · rw [hsame]
    exact .inl ⟨rfl, rfl⟩
  · rw [htaken]
    refine .inr ⟨_, rfl, rfl, ?_⟩
    split <;> simp

section Next

variable {args : ReceiveArgs} {ring : RxRing} {room : Nat} {pkt : RxCompletion}

/-- A call that ends with an error. -/
theorem receiveSound_error {state : SnpState} {status : EfiStatus} {out : ReceiveOutputs}
    {ring' : RxRing} (hrun : alEthNextSnpReceive state args ring = (status, out, ring'))
    (herror : status.isError = true) : ReceiveSound state args ring := by
  refine ⟨?_, ?_, givesBackOnce_receive state args ring⟩
  · rw [hrun]
    intro h
    exact absurd h (EfiStatus.isError_iff.mp herror)
  · rw [hrun]
    exact fun _ => herror

theorem receiveSound_next (hargs : args.Given room) (hnext : ring.done.head? = some pkt) :
    ReceiveSound .initialized args ring
      ↔ (¬ pkt.Failed → pkt.InBounds ∧ (pkt.first ≤ room → ring.InTail pkt)) := by
  by_cases hfailed : pkt.Failed
  · exact iff_of_true (receiveSound_error (receive_failed hargs hnext hfailed) rfl)
      fun h => absurd hfailed h
  rw [forall_prop_of_true hfailed]
  by_cases hlen : pkt.InBounds
  · rw [and_iff_right hlen]
    rcases Nat.lt_or_ge room pkt.first with hroom | hroom
    · exact iff_of_true (receiveSound_error (receive_tooSmall hargs hnext hfailed hlen hroom) rfl)
        fun h => absurd h (Nat.not_le.mpr hroom)
    · have hrun := receive_delivers hargs hnext hfailed hlen hroom
      rw [forall_prop_of_true hroom, ← RxRing.packet_eq_iff hnext hlen.buffer]
      constructor
      · intro h
        obtain ⟨pkt', hnext', -, hout⟩ := h.delivers (by rw [hrun])
        obtain rfl := Option.some.inj (hnext.symm.trans hnext')
        rw [hrun] at hout
        exact (Option.some.inj (congrArg ReceiveOutputs.buffer hout)).symm
      · intro hpacket
        refine ⟨fun _ => ⟨pkt, hnext, hfailed, ?_⟩, ?_, givesBackOnce_receive _ _ _⟩
        · rw [hrun, hpacket]
        · rw [hrun]
          intro hnone
          cases hnone
  · refine iff_of_false (fun h => ?_) fun h => hlen h.1
    have herror := h.fails
    rw [receive_badLength hargs hnext hfailed hlen] at herror
    cases herror rfl

end Next

/-- A call is sound exactly when the next packet can be read. -/
theorem receiveSound_iff (state : SnpState) (args : ReceiveArgs) (ring : RxRing) :
    ReceiveSound state args ring ↔ NextReadable state args ring := by
  by_cases hcall : state = .initialized ∧ ∃ room, args.Given room
  · obtain ⟨rfl, room, hargs⟩ := hcall
    have hroom : ∀ room', args.Given room' → room' = room := fun room' hargs' =>
      Option.some.inj (hargs'.bufferSize.symm.trans hargs.bufferSize)
    rcases hnext : ring.done.head? with _ | pkt
    · refine iff_of_true (receiveSound_error (receive_none hargs hnext) rfl) ?_
      intro _ _ _ pkt hpkt
      cases hnext.symm.trans hpkt
    · rw [receiveSound_next hargs hnext]
      constructor
      · intro h _ room' hargs' pkt' hnext'
        obtain rfl := hroom room' hargs'
        obtain rfl := Option.some.inj (hnext.symm.trans hnext')
        exact h
      · exact fun h => h rfl room hargs pkt hnext
  · obtain ⟨status, herror, hrun⟩ := receive_refused state args ring hcall
    refine iff_of_true (receiveSound_error hrun herror) fun hstate room hargs => ?_
    exact absurd ⟨hstate, room, hargs⟩ hcall

/-- The queue as `AlEthHwInitialize` fills it, over these buffers. -/
def RxRing.fresh (buffers : RxSlot → RxBuffer) : RxRing where
  tail := 0
  buffers := buffers
  posted := List.finRange 32
  done := []
  covered := Nat.zero_le _

/-- A packet of 10 bytes without an error flag is dropped with a success. -/
theorem not_receiveSound_short :
    ¬ ReceiveSound .initialized ⟨some 2048, true, false, false, false, false⟩
      { RxRing.fresh fun _ => ⟨List.replicate alEthRxBufSize 0, List.length_replicate⟩ with
        done := [⟨10, [], 0⟩]
        covered := Nat.le_of_ble_eq_true rfl } := by
  rw [receiveSound_next ⟨rfl, rfl⟩ rfl]
  intro h
  have hlen := (h (by decide)).1.header
  exact absurd hlen (by decide)

end Ccr2004
