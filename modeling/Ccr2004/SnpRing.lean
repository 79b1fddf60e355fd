import Ccr2004.SnpFrames

/-!
# The receive ring over a run

`AlEthHwInitialize` posts its buffers one by one; from then on completions
come in and `Receive` gives one buffer back for each that it collects. As
long as every frame is in one buffer, the posted buffers are all of them from
the tail on (`RxRing.InStep`), and everything else follows: which buffer the
tail is, how many there are, and that a descriptor is free for every one that
is given back (`RxRing.InStep.kept`).

A completion is arbitrary here: any bytes in the buffer, any length and
flags.
-/

namespace Ccr2004

/-! ## Filling the ring -/

/-- The queue before any buffer is posted. -/
def RxRing.bare (buffers : RxSlot → RxBuffer) : RxRing where
  tail := ⟨0, Nat.zero_lt_succ 31⟩
  buffers := buffers
  posted := []
  done := []
  covered := Nat.le_refl 0

/-- `al_eth_rx_buffer_add`: it fails when no descriptor is free. -/
def RxRing.bufferAdd (ring : RxRing) (slot : RxSlot) : Option RxRing :=
  if txUsableDescs - ring.posted.length < 1 then none
  else some {
    tail := ring.tail
    buffers := ring.buffers
    posted := ring.posted ++ [slot]
    done := ring.done
    covered := by
      rw [List.length_append]
      exact Nat.le_add_right_of_le ring.covered }

/-- The loop of `AlEthHwInitialize` that fills the ring. -/
def RxRing.fill : List RxSlot → RxRing → Option RxRing
  | [], ring => some ring
  | slot :: slots, ring => (ring.bufferAdd slot).bind (RxRing.fill slots)

theorem RxRing.fill_room (slots : List RxSlot) : ∀ ring : RxRing,
    ring.posted.length + slots.length ≤ txUsableDescs →
    ∃ ring', ring.fill slots = some ring' ∧ ring'.posted = ring.posted ++ slots
      ∧ ring'.tail = ring.tail ∧ ring'.buffers = ring.buffers ∧ ring'.done = ring.done := by
  induction slots with
  | nil => exact fun ring _ => ⟨ring, rfl, (List.append_nil _).symm, rfl, rfl, rfl⟩
  | cons slot slots ih =>
      intro ring hroom
      rw [List.length_cons] at hroom
      have hfree : ¬ txUsableDescs - ring.posted.length < 1 := by omega
      have hroom' : (ring.posted ++ [slot]).length + slots.length ≤ txUsableDescs := by
        rw [List.length_append, List.length_singleton]
        omega
      rw [RxRing.fill, RxRing.bufferAdd, if_neg hfree, Option.bind_some]
      obtain ⟨ring', hfill, hposted, hrest⟩ := ih ⟨_, _, _, _, _⟩ hroom'
      refine ⟨ring', hfill, ?_, hrest⟩
      rw [hposted]
      exact List.append_assoc _ [slot] slots

/-- Filling posts every buffer, in the order of the slots. -/
theorem RxRing.fill_bare (buffers : RxSlot → RxBuffer) :
    (RxRing.bare buffers).fill (List.finRange 32) = some (.fresh buffers) := by
  obtain ⟨⟨tail, buffers', posted, done, covered⟩, hfill, hposted, htail, hbuffers, hdone⟩ :=
    RxRing.fill_room (List.finRange 32) (.bare buffers)
      (show 0 + (List.finRange 32).length ≤ txUsableDescs by decide)
  obtain rfl : tail = 0 := htail
  obtain rfl : buffers' = buffers := hbuffers
  obtain rfl : done = [] := hdone
  obtain rfl : posted = List.finRange 32 := hposted
  exact hfill

/-! ## Completions and calls -/

/-- The buffers the hardware has. -/
def RxRing.held (ring : RxRing) : List RxSlot := ring.posted.drop ring.usedDescs

/-- The hardware completes the first buffer it has, with any bytes in it. -/
def RxRing.complete (ring : RxRing) (bytes : RxBuffer) (len : Nat) (flags : UInt32) : RxRing :=
  match hheld : ring.held with
  | [] => ring
  | slot :: _ => {
      tail := ring.tail
      buffers := Function.update ring.buffers slot bytes
      posted := ring.posted
      done := ring.done ++ [⟨len, [], flags⟩]
      covered := by
        have hlen := congrArg List.length hheld
        rw [RxRing.held, List.length_drop, List.length_cons] at hlen
        rw [List.map_append, List.sum_append]
        show ring.usedDescs + 1 ≤ ring.posted.length
        omega }

/-- What happens to the ring between `Initialize` and `Shutdown`. -/
inductive RingEvent where
  | complete (bytes : RxBuffer) (len : Nat) (flags : UInt32)
  | receive (args : ReceiveArgs)

def ringStep : RingEvent → RxRing → RxRing
  | .complete bytes len flags, ring => ring.complete bytes len flags
  | .receive args, ring => (alEthNextSnpReceive .initialized args ring).2.2

/-- The next completion to be collected is the one in the tail's buffer, no
buffer is lost or posted twice, and the one a `Receive` gives back finds a
descriptor. `filled` is the ring after the initialisation. -/
structure RingKept (filled ring : RxRing) : Prop where
  tail : ring.posted.head? = some ring.tail
  count : ring.held.length + ring.done.length = filled.posted.length
  once : ring.posted.Nodup
  room : ring.done ≠ [] → 1 ≤ txUsableDescs - ring.ack.posted.length

/-! ## The invariant -/

/-- With one descriptor for each packet, there are as many as packets. -/
theorem RxRing.InStep.usedDescs {ring : RxRing} (h : ring.InStep) :
    ring.usedDescs = ring.done.length := by
  have hone : ∀ pkt ∈ ring.done, pkt.numDescs = 1 := by
    intro pkt hpkt
    rw [RxCompletion.numDescs, h.single pkt hpkt]
    rfl
  rw [RxRing.usedDescs, List.map_congr_left hone]
  simp

theorem RxRing.InStep.kept {ring : RxRing} (h : ring.InStep) (buffers : RxSlot → RxBuffer) :
    RingKept (.fresh buffers) ring := by
  have hlen : ring.posted.length = 32 := by rw [h.posted, length_slotRun]
  refine ⟨h.head, ?_, h.posted ▸ nodup_slotRun ring.tail le_rfl, fun hdone => ?_⟩
  · have hcovered : ring.usedDescs ≤ ring.posted.length := ring.covered
    rw [h.usedDescs] at hcovered
    rw [RxRing.held, List.length_drop, h.usedDescs, hlen]
    show _ = (List.finRange 32).length
    rw [List.length_finRange]
    omega
  · obtain ⟨pkt, hnext⟩ := Option.ne_none_iff_exists'.mp
      fun hnone => hdone (List.head?_eq_none_iff.mp hnone)
    rw [h.ack hnext, length_slotRun]
    decide

theorem RxRing.InStep.complete {ring : RxRing} (h : ring.InStep) (bytes : RxBuffer) (len : Nat)
    (flags : UInt32) : (ring.complete bytes len flags).InStep := by
  rw [RxRing.complete]
  split
  · exact h
  · refine ⟨h.posted, fun pkt hpkt => ?_⟩
    rcases List.mem_append.mp hpkt with hold | hnew
    · exact h.single pkt hold
    · rw [List.mem_singleton.mp hnew]

theorem ringStep_inStep (event : RingEvent) (ring : RxRing) (h : ring.InStep) :
    (ringStep event ring).InStep := by
  cases event with
  | complete bytes len flags => exact h.complete bytes len flags
  | receive args => exact h.receive .initialized args

/-- The initialisation posts every buffer, and from then on the ring is kept
along every run. -/
theorem ringKept_along (buffers : RxSlot → RxBuffer) (events : List RingEvent) :
    ∃ filled, (RxRing.bare buffers).fill (List.finRange 32) = some filled
      ∧ AlongRun ringStep (RingKept filled) events filled :=
  ⟨.fresh buffers, RxRing.fill_bare buffers,
    alongRun_of_inv (fun _ h => h.kept buffers) ringStep_inStep events
      (RxRing.InStep.fresh buffers)⟩

end Ccr2004
