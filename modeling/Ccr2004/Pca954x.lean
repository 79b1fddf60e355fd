import Ccr2004.Efi
import Ccr2004.I2c
import Ccr2004.Runs

/-!
# The PCA954x channel mux

`Pca954xDxe.c`: child buses that share one parent bus behind a channel
switch. The driver remembers the channel it selected last in
`ActiveChannel` and skips the select when the next request is for the same
channel. `CacheFresh` is what this needs: whenever the cache names a
channel, the switch's register holds exactly that channel's bit. A select,
a failed select and a reset keep it.

A child's own request can address the switch. The driver forwards it and
leaves the cache alone, so the invariant is kept only if the request leaves
the child's own bit in the register (`KeepsChannel`).

The parent bus is the environment: each request it gets carries the answer
it will give, and `latched` says whether a request that failed still got its
last byte through. `forwarded` is a history variable.
-/

namespace Ccr2004

/-! ## The driver -/

def pca9546SlaveAddress : UInt64 := 0x70
def pca9546ChannelCount : UInt32 := 4
def pca954xNoChannel : UInt32 := 0xFF

/-- `PCA954X_CHANNEL_CONTEXT`: the channels that have a child handle. -/
structure ChannelContext where
  channel : UInt32
  channel_lt : channel < pca9546ChannelCount
deriving DecidableEq

/-- `(UINT8)(1U << Channel)`. -/
def channelBit (channel : UInt32) : UInt8 := ((1 : UInt32) <<< channel).toUInt8

/-- The parent's answer to one `StartRequest`. -/
structure ParentAnswer where
  status : EfiStatus
  latched : Bool

/-- A child's request as it was forwarded: whose it was, and what the
switch's register held. -/
structure Forward where
  channel : UInt32
  register : UInt8
deriving Repr, DecidableEq

/-- `PCA954X_MUX_CONTEXT` with the register of the switch. -/
structure MuxState where
  activeChannel : UInt32
  register : UInt8
  forwarded : List Forward
deriving Repr, DecidableEq

/-- A call on a child bus, with the answers of the parent to the requests it
may cause. A null `This` or packet is `none`. -/
inductive MuxCall where
  | setBusFrequency (chan : Option ChannelContext) (status : EfiStatus)
  | reset (chan : Option ChannelContext) (status : EfiStatus)
  | startRequest (chan : Option ChannelContext) (slaveAddress : UInt64)
      (packet : Option I2cRequestPacket) (selectAnswer forwardAnswer : ParentAnswer)

section Mux

-- The slave addresses on which the parent reaches the switch.
variable (reachesMux : UInt64 → Bool)

/-- The register after a request on the parent bus. -/
def registerAfter (answer : ParentAnswer) (slaveAddress : UInt64)
    (packet : I2cRequestPacket) (register : UInt8) : UInt8 :=
  match packet.written.getLast? with
  | none => register
  | some b =>
      if reachesMux slaveAddress ∧ (answer.status = .success ∨ answer.latched) then b
      else register

/-- `ParentI2cMaster->StartRequest`. -/
def parentStartRequest (answer : ParentAnswer) (slaveAddress : UInt64)
    (packet : I2cRequestPacket) (mux : MuxState) : EfiStatus × MuxState :=
  (answer.status,
    { mux with register := registerAfter reachesMux answer slaveAddress packet mux.register })

def pca954xSelectChannel (answer : ParentAnswer) (channel : UInt32) (mux : MuxState) :
    EfiStatus × MuxState :=
  if mux.activeChannel = channel then (.success, mux)
  else
    let packet := I2cRequestPacket.writeByte (channelBit channel)
    let (status, mux) := parentStartRequest reachesMux answer pca9546SlaveAddress packet mux
    if status.isError then (status, { mux with activeChannel := pca954xNoChannel })
    else (status, { mux with activeChannel := channel })

def pca954xSetBusFrequency (chan : Option ChannelContext) (status : EfiStatus)
    (mux : MuxState) : EfiStatus × MuxState :=
  match chan with
  | none => (.invalidParameter, mux)
  | some _ => (status, mux)

def pca954xReset (chan : Option ChannelContext) (status : EfiStatus) (mux : MuxState) :
    EfiStatus × MuxState :=
  match chan with
  | none => (.invalidParameter, mux)
  | some _ => (status, { mux with activeChannel := pca954xNoChannel })

def pca954xStartRequest (chan : Option ChannelContext) (slaveAddress : UInt64)
    (packet : Option I2cRequestPacket) (selectAnswer forwardAnswer : ParentAnswer)
    (mux : MuxState) : EfiStatus × MuxState :=
  match chan, packet with
  | some chan, some packet =>
      let (status, mux) := pca954xSelectChannel reachesMux selectAnswer chan.channel mux
      if status.isError then (status, mux)
      else
        let mux := { mux with forwarded := mux.forwarded ++ [⟨chan.channel, mux.register⟩] }
        parentStartRequest reachesMux forwardAnswer slaveAddress packet mux
  | _, _ => (.invalidParameter, mux)

/-- One call on a child bus. -/
def muxStep (call : MuxCall) (mux : MuxState) : MuxState :=
  match call with
  | .setBusFrequency chan status => (pca954xSetBusFrequency chan status mux).2
  | .reset chan status => (pca954xReset chan status mux).2
  | .startRequest chan slaveAddress packet selectAnswer forwardAnswer =>
      (pca954xStartRequest reachesMux chan slaveAddress packet selectAnswer forwardAnswer mux).2

/-- The context `Pca954xDxeInitialize` leaves: it probes the switch with a
write of zero, and installs the child buses only if that succeeds. -/
def pca954xDxeInitialize (answer : ParentAnswer) (register : UInt8) : Option MuxState :=
  let mux : MuxState := ⟨pca954xNoChannel, register, []⟩
  let (status, mux) :=
    parentStartRequest reachesMux answer pca9546SlaveAddress (.writeByte 0) mux
  if status.isError then none else some mux

/-! ## The cache -/

/-- The cache names a channel only if the register holds exactly its bit. -/
def CacheFresh (mux : MuxState) : Prop :=
  ∀ chan : ChannelContext, mux.activeChannel = chan.channel →
    mux.register = channelBit chan.channel

/-- Every request was forwarded while the register held exactly the bit of
its channel. -/
def Isolated (mux : MuxState) : Prop :=
  ∀ f ∈ mux.forwarded, f.register = channelBit f.channel

structure MuxInv (mux : MuxState) : Prop where
  fresh : CacheFresh mux
  isolated : Isolated mux

/-- A request that reaches the switch writes nothing, or last of all its own
channel's bit. -/
def KeepsChannel : MuxCall → Prop
  | .startRequest (some chan) slaveAddress (some packet) _ _ =>
      reachesMux slaveAddress = true →
        ∀ b, packet.written.getLast? = some b → b = channelBit chan.channel
  | _ => True

theorem noChannel_ne (chan : ChannelContext) : pca954xNoChannel ≠ chan.channel := by
  intro h
  have hlt := UInt32.lt_iff_toNat_lt.mp chan.channel_lt
  rw [← h] at hlt
  exact absurd hlt (by decide)

/-- A cache that names no channel is never stale. -/
theorem cacheFresh_noChannel {mux : MuxState} (h : mux.activeChannel = pca954xNoChannel) :
    CacheFresh mux :=
  fun chan hchan => absurd (h.symm.trans hchan) (noChannel_ne chan)

variable {reachesMux}

theorem registerAfter_writeByte {answer : ParentAnswer} {slaveAddress : UInt64}
    (b register : UInt8) (hreach : reachesMux slaveAddress = true)
    (hstatus : answer.status = .success) :
    registerAfter reachesMux answer slaveAddress (.writeByte b) register = b := by
  simp [registerAfter, hreach, hstatus]

/-- A request that leaves a channel's bit in the register keeps that bit
there. -/
theorem registerAfter_keeps {answer : ParentAnswer} {slaveAddress : UInt64}
    {packet : I2cRequestPacket} {register bit : UInt8} (hbit : register = bit)
    (hpacket : reachesMux slaveAddress = true →
      ∀ b, packet.written.getLast? = some b → b = bit) :
    registerAfter reachesMux answer slaveAddress packet register = bit := by
  rw [registerAfter]
  cases hlast : packet.written.getLast? with
  | none => exact hbit
  | some b =>
      dsimp only
      split
      · rename_i hwritten
        exact hpacket hwritten.1 b hlast
      · exact hbit

/-- What selecting a channel does: it touches the cache and the register
only, and where it succeeds the register holds the channel's bit. -/
theorem selectChannel_spec (hmux : reachesMux pca9546SlaveAddress = true)
    {answer : ParentAnswer} {chan : ChannelContext} {mux mux' : MuxState} {status : EfiStatus}
    (h : pca954xSelectChannel reachesMux answer chan.channel mux = (status, mux'))
    (hfresh : CacheFresh mux) :
    mux'.forwarded = mux.forwarded ∧ CacheFresh mux' ∧
      (status = .success → mux'.activeChannel = chan.channel
        ∧ mux'.register = channelBit chan.channel) := by
  rw [pca954xSelectChannel] at h
  by_cases hactive : mux.activeChannel = chan.channel
  · rw [if_pos hactive] at h
    obtain ⟨rfl, rfl⟩ := Prod.mk.inj h
    exact ⟨rfl, hfresh, fun _ => ⟨hactive, hfresh chan hactive⟩⟩
  · rw [if_neg hactive] at h
    dsimp only [parentStartRequest] at h
    split at h
    · rename_i herr
      obtain ⟨rfl, rfl⟩ := Prod.mk.inj h
      exact ⟨rfl, cacheFresh_noChannel rfl,
        fun hok => absurd hok (EfiStatus.isError_iff.mp herr)⟩
    · rename_i hok
      obtain ⟨rfl, rfl⟩ := Prod.mk.inj h
      have hlatched := registerAfter_writeByte (channelBit chan.channel) mux.register
        hmux (EfiStatus.not_isError_iff.mp hok)
      refine ⟨rfl, fun other hother => ?_, fun _ => ⟨rfl, hlatched⟩⟩
      rw [← hother]
      exact hlatched

/-- A child's request keeps the invariant if it leaves its own channel
selected. -/
theorem startRequest_inv (hmux : reachesMux pca9546SlaveAddress = true)
    {chan : ChannelContext} {slaveAddress : UInt64} {packet : I2cRequestPacket}
    {selectAnswer forwardAnswer : ParentAnswer} {mux : MuxState}
    (hkeep : reachesMux slaveAddress = true →
      ∀ b, packet.written.getLast? = some b → b = channelBit chan.channel)
    (hinv : MuxInv mux) :
    MuxInv (pca954xStartRequest reachesMux (some chan) slaveAddress (some packet)
      selectAnswer forwardAnswer mux).2 := by
  obtain ⟨status, mux', hselect⟩ :
      ∃ status mux', pca954xSelectChannel reachesMux selectAnswer chan.channel mux
        = (status, mux') := ⟨_, _, rfl⟩
  obtain ⟨hforwarded, hfresh, hsuccess⟩ := selectChannel_spec hmux hselect hinv.fresh
  have hisolated : Isolated mux' := by
    rw [Isolated, hforwarded]
    exact hinv.isolated
  rw [pca954xStartRequest, hselect]
  dsimp only
  split
  · exact ⟨hfresh, hisolated⟩
  · rename_i hok
    obtain ⟨hactive, hbit⟩ := hsuccess (EfiStatus.not_isError_iff.mp hok)
    refine ⟨fun other hother => ?_, fun f hf => ?_⟩
    · have hsame : chan.channel = other.channel := hactive.symm.trans hother
      rw [← hsame]
      exact registerAfter_keeps hbit hkeep
    · rcases List.mem_append.mp hf with hold | hnew
      · exact hisolated f hold
      · obtain rfl := List.mem_singleton.mp hnew
        exact hbit

theorem muxStep_inv (hmux : reachesMux pca9546SlaveAddress = true) (call : MuxCall)
    (mux : MuxState) (hkeep : KeepsChannel reachesMux call) (hinv : MuxInv mux) :
    MuxInv (muxStep reachesMux call mux) := by
  cases call with
  | setBusFrequency chan status => cases chan <;> exact hinv
  | reset chan status =>
      cases chan with
      | none => exact hinv
      | some chan => exact ⟨cacheFresh_noChannel rfl, hinv.isolated⟩
  | startRequest chan slaveAddress packet selectAnswer forwardAnswer =>
      cases chan with
      | none => exact hinv
      | some chan =>
          cases packet with
          | none => exact hinv
          | some packet => exact startRequest_inv hmux hkeep hinv

theorem dxeInitialize_inv {answer : ParentAnswer} {register : UInt8} {mux : MuxState}
    (h : pca954xDxeInitialize reachesMux answer register = some mux) : MuxInv mux := by
  rw [pca954xDxeInitialize] at h
  dsimp only [parentStartRequest] at h
  split at h
  · cases h
  · obtain rfl := Option.some.inj h
    exact ⟨cacheFresh_noChannel rfl, fun f hf => absurd hf List.not_mem_nil⟩

/-- A forwarded request that leaves another byte in the register makes the
cache stale. -/
theorem startRequest_stale (hmux : reachesMux pca9546SlaveAddress = true)
    {chan : ChannelContext} {slaveAddress : UInt64} {packet : I2cRequestPacket}
    {selectAnswer forwardAnswer : ParentAnswer} {mux : MuxState} {b : UInt8}
    (hselect : selectAnswer.status = .success) (hforward : forwardAnswer.status = .success)
    (hreach : reachesMux slaveAddress = true) (hlast : packet.written.getLast? = some b)
    (hb : b ≠ channelBit chan.channel) (hinv : MuxInv mux) :
    ¬ CacheFresh (pca954xStartRequest reachesMux (some chan) slaveAddress (some packet)
      selectAnswer forwardAnswer mux).2 := by
  obtain ⟨status, mux', hsel⟩ :
      ∃ status mux', pca954xSelectChannel reachesMux selectAnswer chan.channel mux
        = (status, mux') := ⟨_, _, rfl⟩
  have hstatus : status = .success := by
    have hfst := congrArg Prod.fst hsel
    rw [pca954xSelectChannel] at hfst
    by_cases hactive : mux.activeChannel = chan.channel
    · rw [if_pos hactive] at hfst
      exact hfst.symm
    · rw [if_neg hactive] at hfst
      simpa [parentStartRequest, hselect] using hfst.symm
  obtain ⟨-, -, hsuccess⟩ := selectChannel_spec hmux hsel hinv.fresh
  have hactive := (hsuccess hstatus).1
  intro hfresh
  rw [pca954xStartRequest, hsel] at hfresh
  dsimp only at hfresh
  rw [hstatus, EfiStatus.isError_success, if_neg Bool.false_ne_true] at hfresh
  have hreg := hfresh chan hactive
  dsimp only [parentStartRequest] at hreg
  rw [registerAfter, hlast] at hreg
  dsimp only at hreg
  rw [if_pos ⟨hreach, Or.inl hforward⟩] at hreg
  exact hb hreg

/-- In a run in which every request that reaches the switch leaves its own
channel's bit in the register, each request was forwarded with exactly that
bit there, whatever the parent answered. -/
theorem muxRun_isolated (hmux : reachesMux pca9546SlaveAddress = true)
    {answer : ParentAnswer} {register : UInt8} {mux : MuxState}
    (hinit : pca954xDxeInitialize reachesMux answer register = some mux)
    (calls : List MuxCall) (hkeep : ∀ call ∈ calls, KeepsChannel reachesMux call) :
    Isolated (runEvents (muxStep reachesMux) calls mux) :=
  (runEvents_inv (muxStep_inv hmux) hkeep (dxeInitialize_inv hinit)).isolated

end Mux

/-! ## Two runs -/

/-- Seven address bits, as on a bus in standard mode. -/
def reachesPca9546 (slaveAddress : UInt64) : Bool := slaveAddress &&& 0x7F == 0x70

def ParentAnswer.ok : ParentAnswer := ⟨.success, true⟩

def channel0 : ChannelContext := ⟨0, by decide⟩

def channel1 : ChannelContext := ⟨1, by decide⟩

/-- Requests of two children, with a reset, a failed select, and a child
that selects its own channel once more. -/
def sharedBusCalls : List MuxCall :=
  [.startRequest (some channel0) 0x50 (some (.writeByte 0)) .ok .ok,
   .startRequest (some channel1) 0x50 (some (.writeByte 0)) .ok .ok,
   .startRequest (some channel0) 0x50 (some (.writeByte 0)) ⟨.timeout, true⟩ .ok,
   .startRequest (some channel1) 0x70 (some (.writeByte 2)) .ok .ok,
   .reset (some channel1) .success,
   .setBusFrequency (some channel0) .success,
   .startRequest (some channel1) 0x51 (some (.writeByte 9)) .ok .ok]

theorem muxRun_isolated_sharedBus :
    ∃ mux, pca954xDxeInitialize reachesPca9546 .ok 0xF = some mux
      ∧ (∀ call ∈ sharedBusCalls, KeepsChannel reachesPca9546 call)
      ∧ Isolated (runEvents (muxStep reachesPca9546) sharedBusCalls mux) := by
  have hkeep : ∀ call ∈ sharedBusCalls, KeepsChannel reachesPca9546 call := by
    intro call hcall
    simp only [sharedBusCalls, List.mem_cons, List.not_mem_nil, or_false] at hcall
    rcases hcall with rfl | rfl | rfl | rfl | rfl | rfl | rfl
    · intro hreach
      exact absurd hreach (by decide)
    · intro hreach
      exact absurd hreach (by decide)
    · intro hreach
      exact absurd hreach (by decide)
    · intro _ b hb
      rw [I2cRequestPacket.written_writeByte] at hb
      exact (Option.some.inj hb).symm
    · trivial
    · trivial
    · intro hreach
      exact absurd hreach (by decide)
  have hinit : pca954xDxeInitialize reachesPca9546 .ok 0xF
      = some ⟨pca954xNoChannel, 0, []⟩ := by decide
  exact ⟨_, hinit, hkeep, muxRun_isolated (by decide) hinit sharedBusCalls hkeep⟩

/-- The child on channel 0 writes 2 to the switch and then asks for slave
0x50: the cache still says channel 0, the register says channel 1. -/
def strayCalls : List MuxCall :=
  [.startRequest (some channel0) 0x70 (some (.writeByte 2)) .ok .ok,
   .startRequest (some channel0) 0x50 (some (.writeByte 0)) .ok .ok]

theorem muxRun_isolated_stray_fails :
    ∃ mux, pca954xDxeInitialize reachesPca9546 .ok 0 = some mux
      ∧ (runEvents (muxStep reachesPca9546) strayCalls mux).forwarded = [⟨0, 1⟩, ⟨0, 2⟩]
      ∧ ¬ Isolated (runEvents (muxStep reachesPca9546) strayCalls mux) := by
  have hinit : pca954xDxeInitialize reachesPca9546 .ok 0
      = some ⟨pca954xNoChannel, 0, []⟩ := by decide
  have hforwarded : (runEvents (muxStep reachesPca9546) strayCalls
      ⟨pca954xNoChannel, 0, []⟩).forwarded = [⟨0, 1⟩, ⟨0, 2⟩] := by decide
  refine ⟨_, hinit, hforwarded, fun hisolated => ?_⟩
  have hmem : (⟨0, 2⟩ : Forward) ∈ (runEvents (muxStep reachesPca9546) strayCalls
      ⟨pca954xNoChannel, 0, []⟩).forwarded := by
    rw [hforwarded]
    exact List.mem_cons_of_mem _ List.mem_cons_self
  exact absurd (hisolated _ hmem) (by decide)

end Ccr2004
