import Ccr2004.ZlibStored

/-!
# Growing the output buffer

`npk_inflate_payload` with its buffer: `malloc`, `realloc` and the stores of
`inflate` are modelled here, and `npkInflateBuffer_eq` says that the loop over
the bytes produced so far is what they come to.

A call of `inflate` is given the free part of the buffer as long as that is
less than 4 GiB. `InflatesWhole` is what follows for every stream; it fails
when the buffer starts with 4 GiB or more, or has to be doubled once more
after it has got there (`inflatesWhole_iff`). The stream that shows it hands
out what it can and keeps its end for a call of its own (`Zlib.trailing`).
-/

namespace Ccr2004

/-! ## The buffer -/

section Buffer

variable {σ : Type} (z : Zlib σ) (alloc : Nat → Bool) (noise : Nat → Nat → UInt8)

/-- `malloc` of `uefi_libc.h`. `noise n` is what a new block of `n` bytes
holds. -/
def malloc (n : Nat) : Option (List UInt8) :=
  if alloc n then some ((List.range n).map (noise n)) else none

/-- `realloc` of a block, whose length is in its hidden header. -/
def realloc (block : List UInt8) (newSize : Nat) : Option (List UInt8) :=
  (malloc alloc noise newSize).map fun newBlock =>
    block.take newSize ++ newBlock.drop block.length

/-- The loop variables, with the buffer as it is in memory. -/
structure BufferState (σ : Type) where
  buffer : List UInt8
  totalOut : Nat
  stream : σ

/-- The buffer with room for the next call. -/
def grownBuffer (buffer : List UInt8) (totalOut : Nat) : Option (List UInt8) :=
  if totalOut = buffer.length then realloc alloc noise buffer (buffer.length * 2)
  else some buffer

/-- The end of `npk_inflate_payload`: the buffer is cut to what is in it, if
that can be had. -/
def shrunkBuffer (buffer : List UInt8) (totalOut : Nat) : List UInt8 :=
  if totalOut = 0 then []
  else ((realloc alloc noise buffer totalOut).getD buffer).take totalOut

def bufferRound (st : BufferState σ) :
    Run (Flow (BufferState σ) (Except NpkStatus (List UInt8))) :=
  match grownBuffer alloc noise st.buffer st.totalOut with
  | none => .ok (.exit (.error .noMemory))
  | some buffer =>
      match z.inflate st.stream (availOut buffer.length st.totalOut) with
      | (.error, _, _) => .ok (.exit (.error .zlibError))
      | (.ok, bytes, stream) => do
          let buffer ← storeSlice buffer st.totalOut bytes
          .ok (.next ⟨buffer, st.totalOut + bytes.length, stream⟩)
      | (.streamEnd, bytes, _) => do
          let buffer ← storeSlice buffer st.totalOut bytes
          .ok (.exit (.ok (shrunkBuffer alloc noise buffer (st.totalOut + bytes.length))))

/-- `npk_inflate_payload`, for at most `rounds` calls of `inflate`. -/
def npkInflateBuffer (rounds : Nat) (input : List UInt8) :
    Run (Except NpkStatus (List UInt8)) :=
  match malloc alloc noise (firstCapacity input.length) with
  | none => .ok (.error .noMemory)
  | some buffer =>
      match z.inflateInit input with
      | none => .ok (.error .zlibError)
      | some stream => loopFuel (bufferRound z alloc noise) rounds ⟨buffer, 0, stream⟩

end Buffer

section Refines

variable {σ : Type} {z : Zlib σ} {alloc : Nat → Bool} {noise : Nat → Nat → UInt8}

theorem length_malloc {n : Nat} {block : List UInt8} (h : malloc alloc noise n = some block) :
    block.length = n := by
  rw [malloc] at h
  split at h
  · rw [← Option.some.inj h, List.length_map, List.length_range]
  · cases h

theorem malloc_none {n : Nat} (h : alloc n = false) : malloc alloc noise n = none := by
  rw [malloc, h]
  rfl

variable (noise) in
theorem malloc_some {n : Nat} (h : alloc n = true) :
    ∃ block, malloc alloc noise n = some block := by
  rw [malloc, if_pos h]
  exact ⟨_, rfl⟩

variable (noise) in
/-- A block that grows keeps what it holds. -/
theorem realloc_grow (block : List UInt8) {n : Nat} (hn : block.length ≤ n)
    (h : alloc n = true) :
    ∃ grown, realloc alloc noise block n = some grown ∧ grown.length = n
      ∧ grown.take block.length = block := by
  obtain ⟨newBlock, hnew⟩ := malloc_some noise h
  have hlen := length_malloc hnew
  refine ⟨block ++ newBlock.drop block.length, ?_, ?_, List.take_left⟩
  · rw [realloc, hnew, Option.map_some, List.take_of_length_le hn]
  · rw [List.length_append, List.length_drop, hlen]
    omega

/-- A block that shrinks keeps what still fits. -/
theorem take_shrunkBuffer {buffer : List UInt8} {totalOut : Nat}
    (h : totalOut ≤ buffer.length) :
    shrunkBuffer alloc noise buffer totalOut = buffer.take totalOut := by
  rw [shrunkBuffer]
  by_cases hzero : totalOut = 0
  · rw [if_pos hzero, hzero, List.take_zero]
  · rw [if_neg hzero, realloc]
    rcases hnew : malloc alloc noise totalOut with _ | newBlock
    · rfl
    · have hlen := length_malloc hnew
      rw [Option.map_some, Option.getD_some, List.drop_of_length_le (by omega), List.append_nil,
        List.take_take, Nat.min_self]

/-- The buffer holds what has been produced. -/
structure Buffers (b : BufferState σ) (st : InflateState σ) : Prop where
  capacity : b.buffer.length = st.capacity
  totalOut : b.totalOut = st.out.length
  out : b.buffer.take b.totalOut = st.out
  stream : b.stream = st.stream

theorem Buffers.room {b : BufferState σ} {st : InflateState σ} (h : Buffers b st) :
    b.totalOut ≤ b.buffer.length := by
  have hlen := congrArg List.length h.out
  rw [List.length_take, ← h.totalOut] at hlen
  omega

variable (noise) in
/-- The buffer a call is given. -/
theorem Buffers.grown {b : BufferState σ} {st : InflateState σ} (h : Buffers b st)
    (hgrow : CanGrow alloc st.capacity st.out.length) :
    ∃ buffer, grownBuffer alloc noise b.buffer b.totalOut = some buffer
      ∧ buffer.length = grownCapacity st.capacity st.out.length
      ∧ buffer.take st.out.length = st.out := by
  rw [grownBuffer, grownCapacity, ← h.totalOut, ← h.capacity]
  by_cases hfull : b.totalOut = b.buffer.length
  · have halloc := hgrow (by rw [← h.totalOut, ← h.capacity, hfull])
    rw [grownCapacity, ← h.totalOut, ← h.capacity, if_pos hfull] at halloc
    obtain ⟨buffer, hre, hlen, htake⟩ :=
      realloc_grow noise b.buffer (by omega) halloc
    rw [if_pos hfull, if_pos hfull]
    refine ⟨buffer, hre, hlen, ?_⟩
    rw [hfull, htake, ← h.out, hfull, List.take_length]
  · rw [if_neg hfull, if_neg hfull]
    exact ⟨b.buffer, rfl, rfl, h.out⟩

/-- What `inflate` stores goes behind what has been produced. -/
theorem storeSlice_take {buffer bytes : List UInt8} {t : Nat}
    (h : t + bytes.length ≤ buffer.length) :
    ∃ buffer', storeSlice buffer t bytes = .ok buffer' ∧ buffer'.length = buffer.length
      ∧ buffer'.take (t + bytes.length) = buffer.take t ++ bytes := by
  refine ⟨_, storeSlice_ok h, ?_, ?_⟩
  · simp only [List.length_append, List.length_take, List.length_drop]
    omega
  · refine List.take_left' ?_
    rw [List.length_append, List.length_take]
    omega

theorem Buffers.cannotGrow {b : BufferState σ} {st : InflateState σ} (h : Buffers b st)
    (hgrow : ¬ CanGrow alloc st.capacity st.out.length) :
    grownBuffer alloc noise b.buffer b.totalOut = none := by
  rw [CanGrow, Classical.not_imp, Bool.not_eq_true, grownCapacity] at hgrow
  obtain ⟨hfull, hnone⟩ := hgrow
  rw [if_pos hfull] at hnone
  rw [grownBuffer, h.totalOut, h.capacity, if_pos hfull, realloc, malloc_none hnone]
  rfl

variable (z noise) in
/-- How a round over the buffer starts. -/
theorem Buffers.call {b : BufferState σ} {st : InflateState σ} (h : Buffers b st)
    (hgrow : CanGrow alloc st.capacity st.out.length) :
    ∃ buffer, buffer.length = grownCapacity st.capacity st.out.length
      ∧ buffer.take st.out.length = st.out
      ∧ bufferRound z alloc noise b =
        match z.inflate st.stream
          (availOut (grownCapacity st.capacity st.out.length) st.out.length) with
        | (.error, _, _) => .ok (.exit (.error .zlibError))
        | (.ok, bytes, stream) => storeSlice buffer st.out.length bytes >>= fun buffer =>
            .ok (.next ⟨buffer, st.out.length + bytes.length, stream⟩)
        | (.streamEnd, bytes, _) => storeSlice buffer st.out.length bytes >>= fun buffer =>
            .ok (.exit (.ok (shrunkBuffer alloc noise buffer
              (st.out.length + bytes.length)))) := by
  obtain ⟨buffer, hbuffer, hlen, hout⟩ := h.grown noise hgrow
  refine ⟨buffer, hlen, hout, ?_⟩
  rw [bufferRound, hbuffer, h.stream, h.totalOut, ← hlen]

/-- As long as `inflate` keeps to `avail_out`, the loop over the buffer ends
like the one over the bytes. -/
theorem bufferLoop_eq {decode : List UInt8 → List UInt8 × Bool}
    {At : List UInt8 → σ → List UInt8 → Nat → Prop} (hz : z.Honours decode At)
    {x : List UInt8} (k : Nat) {b : BufferState σ} {st : InflateState σ} {l : Nat}
    (h : Buffers b st) (hat : At x st.stream st.out l) :
    loopFuel (bufferRound z alloc noise) k b = loopFuel (inflateRound z alloc) k st := by
  induction k generalizing b st l with
  | zero => rfl
  | succ k ih =>
      by_cases hgrow : CanGrow alloc st.capacity st.out.length
      · have hround := inflateRound_call (z := z) hgrow
        obtain ⟨buffer, hlen, hout, hround'⟩ := h.call z noise hgrow
        have hroom := h.room
        rw [h.totalOut, h.capacity] at hroom
        rcases hcall : z.inflate st.stream
          (availOut (grownCapacity st.capacity st.out.length) st.out.length) with ⟨r, bytes, s'⟩
        have hbytes := (hz.produces hat hcall).1
        have hfits : st.out.length + bytes.length ≤ buffer.length := by
          have hcap : st.out.length ≤ grownCapacity st.capacity st.out.length := by
            rw [grownCapacity]
            split <;> omega
          have hmod := Nat.mod_le (grownCapacity st.capacity st.out.length - st.out.length) (2 ^ 32)
          rw [availOut] at hbytes
          omega
        obtain ⟨buffer', hstore, hlen', htake⟩ := storeSlice_take hfits
        rw [hout] at htake
        rw [hcall] at hround hround'
        cases r with
        | streamEnd =>
            dsimp only at hround hround'
            rw [hstore, ok_bind, take_shrunkBuffer (by omega), htake] at hround'
            rw [loopFuel_exit hround, loopFuel_exit hround']
        | ok =>
            dsimp only at hround hround'
            rw [hstore, ok_bind] at hround'
            obtain ⟨l', hat', -⟩ := hz.progress hat hcall
            rw [loopFuel_next hround, loopFuel_next hround']
            refine ih ⟨?_, ?_, ?_, rfl⟩ hat'
            · exact hlen'.trans hlen
            · exact List.length_append.symm
            · exact htake
        | error => rw [loopFuel_exit hround, loopFuel_exit hround']
      · have hround : bufferRound z alloc noise b = .ok (.exit (.error .noMemory)) := by
          rw [bufferRound, h.cannotGrow hgrow]
        rw [loopFuel_exit (inflateRound_noMemory hgrow), loopFuel_exit hround]

theorem npkInflateBuffer_eq {decode : List UInt8 → List UInt8 × Bool}
    {At : List UInt8 → σ → List UInt8 → Nat → Prop} (hz : z.Honours decode At)
    (rounds : Nat) (x : List UInt8) :
    npkInflateBuffer z alloc noise rounds x = npkInflatePayload z alloc rounds x := by
  obtain ⟨s, hinit, hat⟩ := hz.init x
  rw [npkInflateBuffer, npkInflatePayload]
  rcases halloc : alloc (firstCapacity x.length) with _ | _
  · rw [malloc_none halloc]
    rfl
  · obtain ⟨buffer, hbuffer⟩ := malloc_some noise halloc
    rw [hbuffer, hinit]
    exact bufferLoop_eq hz rounds ⟨length_malloc hbuffer, rfl, List.take_zero, rfl⟩ hat

end Refines

/-! ## The calls -/

/-- A call of `inflate`: the capacity of the buffer and the bytes in it. -/
structure InflateCall where
  capacity : Nat
  produced : Nat
deriving Repr, DecidableEq

/-- `avail_out` is what is free of the buffer, and something is. -/
def InflateCall.Exact (call : InflateCall) : Prop :=
  availOut call.capacity call.produced = call.capacity - call.produced
    ∧ availOut call.capacity call.produced ≠ 0

section Calls

variable {σ : Type} (z : Zlib σ) (alloc : Nat → Bool)

/-- The calls of the loop: one in each round that does not run out of
memory. -/
def inflateCalls : Nat → InflateState σ → List InflateCall
  | 0, _ => []
  | k + 1, st =>
      let call : InflateCall := ⟨grownCapacity st.capacity st.out.length, st.out.length⟩
      match inflateRound z alloc st with
      | .ok (.exit (.error .noMemory)) => []
      | .ok (.next st) => call :: inflateCalls k st
      | _ => [call]

def npkInflateCalls (rounds : Nat) (input : List UInt8) : List InflateCall :=
  if !alloc (firstCapacity input.length) then []
  else
    match z.inflateInit input with
    | none => []
    | some stream => inflateCalls z alloc rounds ⟨firstCapacity input.length, [], stream⟩

end Calls

section Calls

variable {σ : Type} {z : Zlib σ} {alloc : Nat → Bool}

theorem inflateCalls_next {st st' : InflateState σ} (h : inflateRound z alloc st = .ok (.next st'))
    (k : Nat) :
    inflateCalls z alloc (k + 1) st =
      ⟨grownCapacity st.capacity st.out.length, st.out.length⟩ :: inflateCalls z alloc k st' := by
  rw [inflateCalls, h]

variable (z) in
/-- A round that can grow the buffer makes its call. -/
theorem mem_inflateCalls (st : InflateState σ) (h : CanGrow alloc st.capacity st.out.length)
    (k : Nat) :
    ⟨grownCapacity st.capacity st.out.length, st.out.length⟩
      ∈ inflateCalls z alloc (k + 1) st := by
  have hround := inflateRound_call (z := z) h
  rcases hcall : z.inflate st.stream
    (availOut (grownCapacity st.capacity st.out.length) st.out.length) with ⟨r, bytes, s'⟩
  rw [hcall] at hround
  rw [inflateCalls, hround]
  cases r <;> exact List.mem_cons_self

variable {decode : List UInt8 → List UInt8 × Bool} {At : List UInt8 → σ → List UInt8 → Nat → Prop}

/-- What holds of every call under the invariant of a rule. -/
theorem inflateCalls_rule (hz : z.Honours decode At) {x : List UInt8} {I : Nat → Nat → Prop}
    {Q : Except NpkStatus (List UInt8) → Prop} (hrule : InflateRule alloc decode x I Q)
    {P : InflateCall → Prop}
    (hP : ∀ {c t}, I c t → t ≤ (decode x).1.length → CanGrow alloc c t →
      P ⟨grownCapacity c t, t⟩) (k : Nat)
    {st : InflateState σ} {l : Nat} (hat : At x st.stream st.out l)
    (hout : st.out <+: (decode x).1) (hI : I st.capacity st.out.length) :
    ∀ call ∈ inflateCalls z alloc k st, P call := by
  induction k generalizing st l with
  | zero => exact List.forall_mem_nil _
  | succ k ih =>
      by_cases hgrow : CanGrow alloc st.capacity st.out.length
      · have hthis := hP hI hout.length_le hgrow
        have hround := inflateRound_call (z := z) hgrow
        rcases hcall : z.inflate st.stream
          (availOut (grownCapacity st.capacity st.out.length) st.out.length) with ⟨r, b, s'⟩
        rw [hcall] at hround
        cases r with
        | streamEnd =>
            rw [inflateCalls, hround]
            exact List.forall_mem_singleton.mpr hthis
        | error =>
            rw [inflateCalls, hround]
            exact List.forall_mem_singleton.mpr hthis
        | ok =>
            obtain ⟨hb, hpre⟩ := hz.produces hat hcall
            obtain ⟨l', hat', -⟩ := hz.progress hat hcall
            rw [inflateCalls_next hround, List.forall_mem_cons]
            refine ⟨hthis, ih hat' hpre ?_⟩
            dsimp only
            rw [List.length_append]
            exact hrule.keep hI hout.length_le hgrow _ (by omega) (by omega)
      · rw [inflateCalls, inflateRound_noMemory hgrow]
        exact List.forall_mem_nil _

end Calls

/-! ## Streams below the limit -/

/-- A zlib stream, of a length that fits `avail_in`. -/
structure CompressedInput (decode : List UInt8 → List UInt8 × Bool) where
  bytes : List UInt8
  fits : bytes.length < 2 ^ 32
  ends : (decode bytes).2 = true

section Growth

variable {decode : List UInt8 → List UInt8 × Bool} {alloc : Nat → Bool}

/-- However a conforming `inflate` splits the output, the loop ends with all
of it or out of memory, and gives every call what is free of the buffer. -/
structure InflatesWhole (alloc : Nat → Bool) (x : CompressedInput decode) : Prop where
  result : ∀ {σ : Type} {z : Zlib σ} {At : List UInt8 → σ → List UInt8 → Nat → Prop},
    z.Honours decode At → ∀ (noise : Nat → Nat → UInt8) (rounds : Nat),
      x.bytes.length + (decode x.bytes).1.length < rounds →
        npkInflateBuffer z alloc noise rounds x.bytes = .ok (.ok (decode x.bytes).1)
          ∨ npkInflateBuffer z alloc noise rounds x.bytes = .ok (.error .noMemory)
  calls : ∀ {σ : Type} {z : Zlib σ} {At : List UInt8 → σ → List UInt8 → Nat → Prop},
    z.Honours decode At → ∀ rounds, ∀ call ∈ npkInflateCalls z alloc rounds x.bytes, call.Exact

/-- The buffer cannot be had, or it starts below 4 GiB and the output ends,
or memory does, before it is full past that. -/
def EndsBelow (alloc : Nat → Bool) (inputLen outputLen : Nat) : Prop :=
  alloc (firstCapacity inputLen) = false
    ∨ firstCapacity inputLen < 2 ^ 32
      ∧ (outputLen < growPast 20 (firstCapacity inputLen)
        ∨ ∃ j, firstCapacity inputLen * 2 ^ (j + 1) ≤ growPast 20 (firstCapacity inputLen) * 2
          ∧ alloc (firstCapacity inputLen * 2 ^ (j + 1)) = false)

theorem doublings_le_iff {c i j : Nat} (hc : 0 < c) : c * 2 ^ i ≤ c * 2 ^ j ↔ i ≤ j := by
  rw [Nat.mul_le_mul_left_iff hc, Nat.pow_le_pow_iff_right (by decide)]

/-- The capacities below the limit: doublings of the first one, each made
when the one before was full. -/
structure Doubled (alloc : Nat → Bool) (first last c t : Nat) : Prop where
  doublings : ∃ i, c = first * 2 ^ i ∧ (i = 0 ∨ c ≤ 2 * t)
    ∧ ∀ j < i, alloc (first * 2 ^ (j + 1)) = true
  le_last : c ≤ last
  le_capacity : t ≤ c

/-- Below the limit a full buffer is not the last one: the output would go
on, and the doubling after it cannot be had. -/
theorem Doubled.before_last {first J c t outputLen : Nat} (hfirst : 0 < first)
    (h : Doubled alloc first (first * 2 ^ J) c t) (ht : t ≤ outputLen)
    (hend : outputLen < first * 2 ^ J
      ∨ ∃ j, first * 2 ^ (j + 1) ≤ first * 2 ^ J * 2 ∧ alloc (first * 2 ^ (j + 1)) = false)
    (hfull : t = c) (hgrow : alloc (c * 2) = true) : c * 2 ≤ first * 2 ^ J := by
  obtain ⟨⟨i, hc, -, hhad⟩, hlast, -⟩ := h
  rw [hc, doublings_le_iff hfirst] at hlast
  rw [hc, Nat.mul_assoc, ← Nat.pow_succ] at hgrow ⊢
  rw [doublings_le_iff hfirst]
  rcases hend with hshort | ⟨j, hj, hnone⟩
  · by_contra hge
    have hmono := (doublings_le_iff (j := i) hfirst).mpr (show J ≤ i by omega)
    omega
  · rw [Nat.mul_assoc, ← Nat.pow_succ, doublings_le_iff hfirst] at hj
    rcases Nat.lt_trichotomy j i with hlt | rfl | hgt
    · rw [hhad j hlt] at hnone
      cases hnone
    · rw [hgrow] at hnone
      cases hnone
    · omega

/-- The capacity for the next call is one of them, with less than 4 GiB
free. -/
theorem Doubled.step {first J c t outputLen : Nat} (hfirst : 0 < first)
    (hsmall : first < 2 ^ 32) (hlast : first * 2 ^ J < 2 ^ 33)
    (h : Doubled alloc first (first * 2 ^ J) c t) (ht : t ≤ outputLen)
    (hend : outputLen < first * 2 ^ J
      ∨ ∃ j, first * 2 ^ (j + 1) ≤ first * 2 ^ J * 2 ∧ alloc (first * 2 ^ (j + 1)) = false)
    (hgrow : CanGrow alloc c t) :
    (⟨grownCapacity c t, t⟩ : InflateCall).Exact
      ∧ ∀ t', t ≤ t' → t' ≤ t + availOut (grownCapacity c t) t →
          Doubled alloc first (first * 2 ^ J) (grownCapacity c t) t' := by
  have hbefore := h.before_last hfirst ht hend
  obtain ⟨⟨i, hc, hhalf, hhad⟩, hle, hroom⟩ := h
  have hpos : 0 < c := by
    rw [hc]
    exact Nat.mul_pos hfirst (Nat.two_pow_pos i)
  rw [CanGrow, grownCapacity] at hgrow
  rw [grownCapacity, InflateCall.Exact]
  dsimp only
  by_cases hfull : t = c
  · rw [if_pos hfull] at hgrow ⊢
    have hdouble := hbefore hfull (hgrow hfull)
    have havail : availOut (c * 2) t = c * 2 - t := Nat.mod_eq_of_lt (by omega)
    rw [havail]
    refine ⟨⟨rfl, by omega⟩, fun t' hlow hhigh => ⟨⟨i + 1, ?_, Or.inr (by omega), ?_⟩, hdouble,
      by omega⟩⟩
    · rw [hc, Nat.mul_assoc, Nat.pow_succ]
    · intro j hj
      rcases Nat.lt_succ_iff_lt_or_eq.mp hj with hlt | rfl
      · exact hhad j hlt
      · rw [Nat.pow_succ, ← Nat.mul_assoc, ← hc]
        exact hgrow hfull
  · rw [if_neg hfull]
    have hfree : c - t < 2 ^ 32 := by
      rcases hhalf with rfl | hhalf
      · rw [Nat.pow_zero, Nat.mul_one] at hc
        omega
      · omega
    have havail : availOut c t = c - t := Nat.mod_eq_of_lt hfree
    rw [havail]
    refine ⟨⟨rfl, by omega⟩, fun t' hlow hhigh => ⟨⟨i, hc, ?_, hhad⟩, hle, by omega⟩⟩
    exact hhalf.imp_right fun hhalf => by omega

theorem EndsBelow.inflatesWhole {x : CompressedInput decode}
    (h : EndsBelow alloc x.bytes.length (decode x.bytes).1.length) : InflatesWhole alloc x := by
  rcases hmem : alloc (firstCapacity x.bytes.length) with _ | _
  · -- not even the first buffer can be had
    constructor
    · intro σ z At hz noise rounds _
      right
      rw [npkInflateBuffer, malloc_none hmem]
    · intro σ z At hz rounds
      rw [npkInflateCalls, hmem]
      exact List.forall_mem_nil _
  · obtain ⟨hsmall, hend⟩ := h.resolve_left (by rw [hmem]; exact Bool.noConfusion)
    have hmin := le_firstCapacity x.bytes.length
    obtain ⟨J, hJ, hle, hlt⟩ := growPast_eq 20 hsmall (by omega)
    rw [hJ] at hend hlt
    have hstart : Doubled alloc (firstCapacity x.bytes.length)
        (firstCapacity x.bytes.length * 2 ^ J) (firstCapacity x.bytes.length) 0 :=
      ⟨⟨0, by rw [Nat.pow_zero, Nat.mul_one], Or.inl rfl, fun j hj => absurd hj j.not_lt_zero⟩,
        Nat.le_mul_of_pos_right _ (Nat.two_pow_pos J), Nat.zero_le _⟩
    have hstep := fun {c t} (hI : Doubled alloc (firstCapacity x.bytes.length)
        (firstCapacity x.bytes.length * 2 ^ J) c t) ht hgrow =>
      hI.step (by omega) hsmall hlt ht hend hgrow
    have hrule : InflateRule alloc decode x.bytes
        (Doubled alloc (firstCapacity x.bytes.length) (firstCapacity x.bytes.length * 2 ^ J))
        (fun r => r = .ok (decode x.bytes).1 ∨ r = .error .noMemory) :=
      { keep := fun hI ht hgrow => (hstep hI ht hgrow).2
        noMemory := fun _ _ => Or.inr rfl
        whole := fun _ _ _ => Or.inl rfl
        fails := fun hI ht hgrow hdry =>
          absurd (hdry x.ends).1 (hstep hI ht hgrow).1.2 }
    constructor
    · intro σ z At hz noise rounds hrounds
      obtain ⟨r, hrun, hr⟩ := npkInflatePayload_rule hz x.bytes hrule hstart hmem hrounds
      rw [npkInflateBuffer_eq hz, hrun]
      exact hr.imp (congrArg _) (congrArg _)
    · intro σ z At hz rounds
      obtain ⟨s, hinit, hat⟩ := hz.init x.bytes
      rw [npkInflateCalls, hmem, hinit]
      exact inflateCalls_rule hz hrule (fun hI ht hgrow => (hstep hI ht hgrow).1) rounds hat
        List.nil_prefix hstart

end Growth

/-! ## A stream that ends in a call of its own -/

/-- Hand out as much as there is room for, and end with the first call after
the last byte. -/
def Zlib.trailing (decode : List UInt8 → List UInt8 × Bool) : Zlib (List UInt8 × Bool) where
  inflateInit x := some (decode x)
  inflate s n :=
    if s.1 = [] then (if s.2 then .streamEnd else .error, [], s)
    else if n = 0 then (.error, [], s)
    else (.ok, s.1.take n, (s.1.drop n, s.2))

theorem Zlib.trailing_inflate {decode : List UInt8 → List UInt8 × Bool}
    {s s' : List UInt8 × Bool} {n : Nat} {r : ZReturn} {b : List UInt8}
    (h : (Zlib.trailing decode).inflate s n = (r, b, s')) :
    (s.1 = [] ∧ b = [] ∧ r = if s.2 then .streamEnd else .error)
      ∨ (s.1 ≠ [] ∧ n = 0 ∧ b = [] ∧ r = .error)
      ∨ (s.1 ≠ [] ∧ n ≠ 0 ∧ b = s.1.take n ∧ r = .ok ∧ s' = (s.1.drop n, s.2)) := by
  simp only [trailing] at h
  by_cases hrest : s.1 = []
  · rw [if_pos hrest, Prod.mk.injEq, Prod.mk.injEq] at h
    exact Or.inl ⟨hrest, h.2.1.symm, h.1.symm⟩
  · rw [if_neg hrest] at h
    by_cases hn : n = 0
    · rw [if_pos hn, Prod.mk.injEq, Prod.mk.injEq] at h
      exact Or.inr (Or.inl ⟨hrest, hn, h.2.1.symm, h.1.symm⟩)
    · rw [if_neg hn, Prod.mk.injEq, Prod.mk.injEq] at h
      exact Or.inr (Or.inr ⟨hrest, hn, h.2.1.symm, h.1.symm, h.2.2.symm⟩)

theorem Zlib.trailing_honours (decode : List UInt8 → List UInt8 × Bool) :
    (Zlib.trailing decode).Honours decode (Zlib.BufferedAt decode) where
  init x := ⟨decode x, rfl, rfl⟩
  produces := by
    intro x s p l n r b s' hat hcall
    rw [BufferedAt] at hat
    rw [hat, List.prefix_append_right_inj]
    rcases trailing_inflate hcall with ⟨-, rfl, -⟩ | ⟨-, -, rfl, -⟩ | ⟨-, -, rfl, -⟩
    · exact ⟨Nat.zero_le _, List.nil_prefix⟩
    · exact ⟨Nat.zero_le _, List.nil_prefix⟩
    · exact ⟨List.length_take_le _ _, List.take_prefix _ _⟩
  streamEnd := by
    intro x s p l n b s' hat hcall
    rw [BufferedAt] at hat
    rw [hat]
    rcases trailing_inflate hcall with ⟨hrest, rfl, hr⟩ | ⟨-, -, -, hr⟩ | ⟨-, -, -, hr, -⟩
    · refine ⟨?_, by rw [hrest]⟩
      by_contra hs
      rw [if_neg hs] at hr
      cases hr
    · cases hr
    · cases hr
  progress := by
    intro x s p l n b s' hat hcall
    rw [BufferedAt] at hat
    rcases trailing_inflate hcall with ⟨-, -, hr⟩ | ⟨-, -, -, hr⟩ | ⟨hrest, hn, rfl, -, rfl⟩
    · split at hr <;> cases hr
    · cases hr
    · refine ⟨l, ?_, Nat.le_refl _, Or.inr fun hnil => ?_⟩
      · rw [BufferedAt, hat, List.append_assoc, List.take_append_drop]
      · rcases List.take_eq_nil_iff.mp hnil with hzero | hempty
        · exact hn hzero
        · exact hrest hempty
  error := by
    intro x s p l n b s' hat hcall hend
    rw [BufferedAt] at hat
    rw [hat] at hend ⊢
    rcases trailing_inflate hcall with ⟨-, -, hr⟩ | ⟨hrest, hn, -, -⟩ | ⟨-, -, -, hr, -⟩
    · rw [if_pos hend] at hr
      cases hr
    · exact ⟨hn, fun heq => hrest (List.self_eq_append_right.mp heq)⟩
    · cases hr

section Trailing

variable {decode : List UInt8 → List UInt8 × Bool} {alloc : Nat → Bool}

variable (decode) in
theorem trailing_round {c : Nat} {out rest : List UInt8} (ends : Bool)
    (hgrow : CanGrow alloc c out.length) (hrest : rest ≠ [])
    (hroom : availOut (grownCapacity c out.length) out.length ≠ 0) :
    inflateRound (Zlib.trailing decode) alloc ⟨c, out, (rest, ends)⟩ = .ok (.next
      ⟨grownCapacity c out.length,
        out ++ rest.take (availOut (grownCapacity c out.length) out.length),
        (rest.drop (availOut (grownCapacity c out.length) out.length), ends)⟩) := by
  rw [inflateRound_call hgrow, Zlib.trailing]
  dsimp only
  rw [if_neg hrest, if_neg hroom]

/-- A full buffer is doubled. -/
theorem canGrow_full {c last : Nat} {out : List UInt8} (hfull : out.length = c)
    (hle : c ≤ last)
    (halloc : ∀ i, c * 2 ^ (i + 1) ≤ last * 2 → alloc (c * 2 ^ (i + 1)) = true) :
    grownCapacity c out.length = c * 2 ∧ CanGrow alloc c out.length := by
  have hgrown : grownCapacity c out.length = c * 2 := if_pos hfull
  refine ⟨hgrown, fun _ => ?_⟩
  have hfirst := halloc 0
  rw [Nat.zero_add, Nat.pow_one] at hfirst
  rw [hgrown]
  exact hfirst (Nat.mul_le_mul_right 2 hle)

variable (decode) in
/-- From a full buffer it goes on to the limit, and makes one more call
there. -/
theorem trailing_reaches {last : Nat} (hlast : last < 2 ^ 33) (j : Nat) {c : Nat}
    (out rest : List UInt8) (ends : Bool) (hfull : out.length = c) (hc : c * 2 ^ j = last)
    (hpos : 0 < c) (hrest : last ≤ c + rest.length)
    (halloc : ∀ i, c * 2 ^ (i + 1) ≤ last * 2 → alloc (c * 2 ^ (i + 1)) = true) :
    ∃ k, ⟨last * 2, last⟩ ∈ inflateCalls (Zlib.trailing decode) alloc k ⟨c, out, (rest, ends)⟩ := by
  have hle : c ≤ last := by
    rw [← hc]
    exact Nat.le_mul_of_pos_right c (Nat.two_pow_pos j)
  obtain ⟨hgrown, hgrow⟩ := canGrow_full hfull hle halloc
  induction j generalizing c out rest with
  | zero =>
      have hmem := mem_inflateCalls (Zlib.trailing decode) ⟨c, out, (rest, ends)⟩ hgrow 0
      rw [Nat.pow_zero, Nat.mul_one] at hc
      rw [hgrown, hfull] at hmem
      rw [← hc]
      exact ⟨1, hmem⟩
  | succ j ih =>
      rw [Nat.pow_succ', ← Nat.mul_assoc] at hc
      have hdouble : c * 2 ≤ last := by
        rw [← hc]
        exact Nat.le_mul_of_pos_right _ (Nat.two_pow_pos j)
      have havail : availOut (c * 2) out.length = c := by
        rw [availOut, hfull, Nat.mod_eq_of_lt (by omega)]
        omega
      have hne : rest ≠ [] := by
        rintro rfl
        rw [List.length_nil] at hrest
        omega
      have hround := trailing_round decode ends hgrow hne
        (by rw [hgrown, havail]; omega)
      rw [hgrown, havail] at hround
      have hlen : (out ++ rest.take c).length = c * 2 := by
        rw [List.length_append, List.length_take, hfull]
        omega
      have hdrop : last ≤ c * 2 + (rest.drop c).length := by
        rw [List.length_drop]
        omega
      have halloc' : ∀ i, c * 2 * 2 ^ (i + 1) ≤ last * 2 → alloc (c * 2 * 2 ^ (i + 1)) = true := by
        intro i hi
        rw [Nat.mul_assoc, ← Nat.pow_succ'] at hi ⊢
        exact halloc (i + 1) hi
      obtain ⟨hgrown', hgrow'⟩ := canGrow_full hlen hdouble halloc'
      obtain ⟨k, hk⟩ := ih (out ++ rest.take c) (rest.drop c) hlen hc (by omega) hdrop halloc' hdouble hgrown' hgrow'
      refine ⟨k + 1, ?_⟩
      rw [inflateCalls_next hround]
      exact List.mem_cons_of_mem _ hk

/-- The buffer of the first call is the one that was asked for. -/
theorem grownCapacity_first (n : Nat) :
    grownCapacity (firstCapacity n) ([] : List UInt8).length = firstCapacity n := by
  have hmin := le_firstCapacity n
  exact if_neg (by rw [List.length_nil]; omega)

theorem canGrow_first {alloc : Nat → Bool} {n : Nat} (hmem : alloc (firstCapacity n) = true) :
    CanGrow alloc (firstCapacity n) ([] : List UInt8).length := by
  intro _
  rwa [grownCapacity_first]

theorem InflatesWhole.exact_trailing {x : CompressedInput decode} (h : InflatesWhole alloc x)
    (hmem : alloc (firstCapacity x.bytes.length) = true) (k : Nat) :
    ∀ call ∈ inflateCalls (Zlib.trailing decode) alloc k
      ⟨firstCapacity x.bytes.length, [], decode x.bytes⟩, call.Exact := by
  have hall := h.calls (Zlib.trailing_honours decode) k
  rwa [npkInflateCalls, hmem] at hall

/-- The first call is given the whole first buffer. -/
theorem InflatesWhole.small {x : CompressedInput decode} (h : InflatesWhole alloc x)
    (hmem : alloc (firstCapacity x.bytes.length) = true) :
    firstCapacity x.bytes.length < 2 ^ 32 := by
  have hcall := mem_inflateCalls (Zlib.trailing decode)
    ⟨firstCapacity x.bytes.length, [], decode x.bytes⟩ (canGrow_first hmem) 0
  obtain ⟨hexact, -⟩ := h.exact_trailing hmem 1 _ hcall
  dsimp only at hexact
  rw [grownCapacity_first, List.length_nil, availOut] at hexact
  have hmod := Nat.mod_lt (firstCapacity x.bytes.length - 0) (Nat.two_pow_pos 32)
  omega

theorem InflatesWhole.endsBelow {x : CompressedInput decode} (h : InflatesWhole alloc x) :
    EndsBelow alloc x.bytes.length (decode x.bytes).1.length := by
  rcases hmem : alloc (firstCapacity x.bytes.length) with _ | _
  · exact Or.inl hmem
  have hmin := le_firstCapacity x.bytes.length
  have hsmall := h.small hmem
  refine Or.inr ⟨hsmall, ?_⟩
  by_contra hpast
  rw [not_or, Nat.not_lt, not_exists] at hpast
  obtain ⟨hlong, hhad⟩ := hpast
  obtain ⟨J, hJ, hle, hlt⟩ := growPast_eq 20 hsmall (by omega)
  have halloc : ∀ i, firstCapacity x.bytes.length * 2 ^ (i + 1)
      ≤ growPast 20 (firstCapacity x.bytes.length) * 2 →
        alloc (firstCapacity x.bytes.length * 2 ^ (i + 1)) = true := by
    intro i hi
    have := hhad i
    rw [not_and, Bool.not_eq_false] at this
    exact this hi
  have hfirst : firstCapacity x.bytes.length ≤ growPast 20 (firstCapacity x.bytes.length) := by
    omega
  have havail : availOut (firstCapacity x.bytes.length) ([] : List UInt8).length
      = firstCapacity x.bytes.length := Nat.mod_eq_of_lt hsmall
  -- the first call fills the buffer
  have hne : (decode x.bytes).1 ≠ [] := by
    intro hnil
    rw [hnil, List.length_nil] at hlong
    omega
  have hround := trailing_round decode (decode x.bytes).2 (canGrow_first hmem) hne
    (by rw [grownCapacity_first, havail]; omega)
  rw [grownCapacity_first, havail, List.nil_append] at hround
  obtain ⟨k, hk⟩ := trailing_reaches decode hlt J
    ((decode x.bytes).1.take (firstCapacity x.bytes.length))
    ((decode x.bytes).1.drop (firstCapacity x.bytes.length)) (decode x.bytes).2
    (by rw [List.length_take]; omega) hJ.symm (by omega)
    (by rw [List.length_drop]; omega) halloc
  obtain ⟨hexact, -⟩ := h.exact_trailing hmem (k + 1) ⟨_, _⟩ (by
    rw [inflateCalls_next hround]
    exact List.mem_cons_of_mem _ hk)
  dsimp only at hexact
  rw [availOut] at hexact
  have hmod := Nat.mod_lt (growPast 20 (firstCapacity x.bytes.length) * 2
    - growPast 20 (firstCapacity x.bytes.length)) (Nat.two_pow_pos 32)
  omega

/-- Every conforming `inflate` gets through exactly when the loop ends below
4 GiB. -/
theorem inflatesWhole_iff (alloc : Nat → Bool) (x : CompressedInput decode) :
    InflatesWhole alloc x ↔ EndsBelow alloc x.bytes.length (decode x.bytes).1.length :=
  ⟨InflatesWhole.endsBelow, EndsBelow.inflatesWhole⟩

/-- 2^30 bytes of stored blocks, for 33 bytes of output. -/
def giantInput : CompressedInput storedDecode where
  bytes := storedStream 214748356 (List.replicate 33 0)
  fits := by
    rw [length_storedStream, List.length_replicate]
    decide
  ends := by
    rw [storedDecode_storedStream _ (by rw [List.length_replicate]; decide)]

/-- For an input of 1 GiB the first call already has no room. -/
theorem not_inflatesWhole_giant : ¬ InflatesWhole (fun _ => true) giantInput := by
  intro h
  have hlen : giantInput.bytes.length = 2 ^ 30 := by
    rw [giantInput, length_storedStream, List.length_replicate]
    norm_num
  rcases h.endsBelow with hmem | ⟨hsmall, -⟩
  · cases hmem
  · rw [hlen] at hsmall
    exact absurd hsmall (by decide)

end Trailing

end Ccr2004
