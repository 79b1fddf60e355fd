import Ccr2004.Npk

/-!
# The inflate loop

`Zlib.Honours` is what zlib documents about `inflate`, for a stream that is
given all of its input at once. `decode x` is what the input `x` stands for:
the output, and whether the stream ends there or goes wrong there.

The loop doubles a full buffer, and hands `inflate` what is left of it as a
32-bit word. Past 4 GiB that word runs dry while the buffer is not full, and
the loop can then neither store nor grow: `inflateLimit` is the output it
gets through, for each length of the input. `npkInflatePayload_spec` is the
whole behaviour of the loop: it ends, with the output of a stream that ends
within the limit, and with an error for any other.
-/

namespace Ccr2004

section

variable {σ : Type}

/-- The streaming contract. `At x s p l` says that `s` is a state of the
stream of `x` that has produced `p` and has `l` bytes of input left. -/
structure Zlib.Honours (z : Zlib σ) (decode : List UInt8 → List UInt8 × Bool)
    (At : List UInt8 → σ → List UInt8 → Nat → Prop) : Prop where
  /-- A stream starts with nothing produced. -/
  init : ∀ x, ∃ s, z.inflateInit x = some s ∧ At x s [] x.length
  /-- A call produces the next bytes of the output, and no more than there is
  room for. -/
  produces : ∀ {x s p l n r b s'}, At x s p l → z.inflate s n = (r, b, s') →
    b.length ≤ n ∧ p ++ b <+: (decode x).1
  /-- `Z_STREAM_END` comes when all of the output has been produced. -/
  streamEnd : ∀ {x s p l n b s'}, At x s p l → z.inflate s n = (.streamEnd, b, s') →
    (decode x).2 = true ∧ p ++ b = (decode x).1
  /-- `Z_OK` means progress: input was consumed or output produced. -/
  progress : ∀ {x s p l n b s'}, At x s p l → z.inflate s n = (.ok, b, s') →
    ∃ l', At x s' (p ++ b) l' ∧ l' ≤ l ∧ (l' < l ∨ b ≠ [])
  /-- A stream that ends fails only where output waits and there is no room
  for it. -/
  error : ∀ {x s p l n b s'}, At x s p l → z.inflate s n = (.error, b, s') →
    (decode x).2 = true → n = 0 ∧ p ≠ (decode x).1

/-! ## How far the output buffer reaches -/

/-- The first capacity past 4 GiB that doubling `c` comes to. -/
def growPast : Nat → Nat → Nat
  | 0, c => c
  | k + 1, c => if 2 ^ 32 ≤ c then c else growPast k (c * 2)

/-- The output the loop gets through for an input of the given length. -/
def inflateLimit (inputLen : Nat) : Nat :=
  let c := firstCapacity inputLen
  if 2 ^ 32 ≤ c then c % 2 ^ 32
  else growPast 20 c + growPast 20 c % 2 ^ 32

theorem growPast_eq (k : Nat) {c : Nat} (h : c < 2 ^ 32) (hk : 2 ^ 32 ≤ c * 2 ^ k) :
    ∃ j, growPast k c = c * 2 ^ j ∧ 2 ^ 32 ≤ growPast k c ∧ growPast k c < 2 ^ 33 := by
  induction k generalizing c with
  | zero => omega
  | succ k ih =>
      rw [growPast, if_neg (by omega)]
      rcases Nat.lt_or_ge (c * 2) (2 ^ 32) with hlt | hge
      · obtain ⟨j, hj, hle, hlt⟩ := ih hlt (by rw [Nat.mul_assoc, ← Nat.pow_succ']; exact hk)
        exact ⟨j + 1, by rw [hj, Nat.mul_assoc, ← Nat.pow_succ'], hle, hlt⟩
      · have hself : growPast k (c * 2) = c * 2 := by
          cases k with
          | zero => rfl
          | succ k => rw [growPast, if_pos hge]
        rw [hself]
        exact ⟨1, by rw [Nat.pow_one], hge, by omega⟩

theorem le_firstCapacity (n : Nat) : 4096 ≤ firstCapacity n := by
  rw [firstCapacity]
  split <;> omega

/-- The capacities of a run: `t` bytes are out and `c` is the capacity. With
a first capacity past 4 GiB it never changes. Otherwise it is a doubling of
the first one, up to the first that is past 4 GiB (`full`) and once more. -/
inductive CapacityOK (inputLen : Nat) : Nat → Nat → Prop where
  | large {t : Nat} : 2 ^ 32 ≤ firstCapacity inputLen →
      t ≤ firstCapacity inputLen % 2 ^ 32 → CapacityOK inputLen (firstCapacity inputLen) t
  | growing {c t j : Nat} : firstCapacity inputLen < 2 ^ 32 → c < 2 ^ 32 → t ≤ c →
      growPast 20 (firstCapacity inputLen) = c * 2 ^ j → CapacityOK inputLen c t
  | full {t : Nat} : firstCapacity inputLen < 2 ^ 32 →
      growPast 20 (firstCapacity inputLen) ≤ 2 * t →
      t ≤ growPast 20 (firstCapacity inputLen) →
      CapacityOK inputLen (growPast 20 (firstCapacity inputLen)) t
  | past {t : Nat} : firstCapacity inputLen < 2 ^ 32 →
      growPast 20 (firstCapacity inputLen) ≤ t →
      t ≤ growPast 20 (firstCapacity inputLen)
        + growPast 20 (firstCapacity inputLen) % 2 ^ 32 →
      CapacityOK inputLen (growPast 20 (firstCapacity inputLen) * 2) t

theorem CapacityOK.start (n : Nat) : CapacityOK n (firstCapacity n) 0 := by
  rcases Nat.lt_or_ge (firstCapacity n) (2 ^ 32) with hlt | hge
  · have hmin := le_firstCapacity n
    obtain ⟨j, hj, -⟩ := growPast_eq 20 hlt (by omega)
    exact .growing hlt hlt (Nat.zero_le _) hj
  · exact .large hge (Nat.zero_le _)

/-- Below 4 GiB there is a doubling left, and it stays within the last
capacity. -/
theorem doubling_left {n c j : Nat} (hsmall : firstCapacity n < 2 ^ 32) (hc : c < 2 ^ 32)
    (hj : growPast 20 (firstCapacity n) = c * 2 ^ j) :
    ∃ k, growPast 20 (firstCapacity n) = c * 2 * 2 ^ k ∧ 0 < c
      ∧ c * 2 ≤ growPast 20 (firstCapacity n) := by
  have hmin := le_firstCapacity n
  obtain ⟨-, -, hle, -⟩ := growPast_eq 20 hsmall (by omega)
  cases j with
  | zero =>
      rw [Nat.pow_zero, Nat.mul_one] at hj
      omega
  | succ k =>
      rw [Nat.pow_succ', ← Nat.mul_assoc] at hj
      have hpow : 1 ≤ 2 ^ k := Nat.one_le_two_pow
      have hmul : c * 2 ≤ c * 2 * 2 ^ k := Nat.le_mul_of_pos_right _ hpow
      refine ⟨k, hj, Nat.pos_of_ne_zero ?_, hj ▸ hmul⟩
      rintro rfl
      rw [Nat.zero_mul] at hj
      omega

/-- A doubled capacity is one of the run: it is below 4 GiB, or the last. -/
theorem CapacityOK.double {n c t j : Nat} (hsmall : firstCapacity n < 2 ^ 32)
    (hc : c < 2 ^ 32) (hj : growPast 20 (firstCapacity n) = c * 2 * 2 ^ j)
    (hlo : c ≤ t) (hhi : t ≤ c * 2) : CapacityOK n (c * 2) t := by
  have hmin := le_firstCapacity n
  obtain ⟨-, -, -, hlt⟩ := growPast_eq 20 hsmall (by omega)
  rcases Nat.lt_or_ge (c * 2) (2 ^ 32) with hlt' | hge'
  · exact .growing hsmall hlt' hhi hj
  · have hone : growPast 20 (firstCapacity n) = c * 2 := by
      cases j with
      | zero => rw [hj, Nat.pow_zero, Nat.mul_one]
      | succ j =>
          have hpow : 1 ≤ 2 ^ j := Nat.one_le_two_pow
          have hmul : c * 2 * 2 ≤ c * 2 * 2 * 2 ^ j := Nat.le_mul_of_pos_right _ hpow
          rw [Nat.pow_succ', ← Nat.mul_assoc] at hj
          omega
    rw [← hone]
    exact .full hsmall (by omega) (by omega)

/-- What one call is given: never more than the limit leaves, and nothing at
all only when the limit is reached. -/
theorem CapacityOK.room {n c t : Nat} (h : CapacityOK n c t) :
    t + availOut (grownCapacity c t) t ≤ inflateLimit n
      ∧ (availOut (grownCapacity c t) t = 0 → t = inflateLimit n)
      ∧ ∀ t', t ≤ t' → t' ≤ t + availOut (grownCapacity c t) t →
          CapacityOK n (grownCapacity c t) t' := by
  rw [inflateLimit]
  cases h with
  | large hbig ht =>
      have hgrown : grownCapacity (firstCapacity n) t = firstCapacity n :=
        if_neg (by omega)
      rw [hgrown, if_pos hbig, availOut]
      refine ⟨by omega, by omega, ?_⟩
      intro t' _ ht'
      exact .large hbig (by omega)
  | growing hsmall hc ht hj =>
      have hmin := le_firstCapacity n
      obtain ⟨-, -, -, hlt⟩ := growPast_eq 20 hsmall (by omega)
      obtain ⟨j, hdouble, hpos, hmul⟩ := doubling_left hsmall hc hj
      rw [if_neg (by omega), grownCapacity]
      by_cases hfull : t = c
      · rw [if_pos hfull, availOut]
        subst hfull
        refine ⟨by omega, by omega, ?_⟩
        intro t' hle' ht'
        exact .double hsmall hc hdouble hle' (by omega)
      · rw [if_neg hfull, availOut]
        refine ⟨by omega, by omega, ?_⟩
        intro t' hle' ht'
        exact .growing hsmall hc (by omega) hj
  | full hsmall hhalf ht =>
      have hmin := le_firstCapacity n
      obtain ⟨-, -, hle, hlt⟩ := growPast_eq 20 hsmall (by omega)
      rw [if_neg (by omega), grownCapacity]
      by_cases hfull : t = growPast 20 (firstCapacity n)
      · rw [if_pos hfull, availOut]
        refine ⟨by omega, by omega, ?_⟩
        intro t' hle' ht'
        exact .past hsmall (by omega) (by omega)
      · rw [if_neg hfull, availOut]
        refine ⟨by omega, by omega, ?_⟩
        intro t' hle' ht'
        exact .full hsmall (by omega) (by omega)
  | past hsmall hfull ht =>
      have hmin := le_firstCapacity n
      obtain ⟨-, -, hle, hlt⟩ := growPast_eq 20 hsmall (by omega)
      have hgrown : grownCapacity (growPast 20 (firstCapacity n) * 2) t =
          growPast 20 (firstCapacity n) * 2 := if_neg (by omega)
      rw [if_neg (by omega), hgrown, availOut]
      refine ⟨by omega, by omega, ?_⟩
      intro t' hle' ht'
      exact .past hsmall (by omega) (by omega)

/-! ## The loop -/

variable {z : Zlib σ} {alloc : Nat → Bool} {decode : List UInt8 → List UInt8 × Bool}
  {At : List UInt8 → σ → List UInt8 → Nat → Prop}

/-- The buffer can be grown if it has to be. -/
def CanGrow (alloc : Nat → Bool) (c t : Nat) : Prop :=
  t = c → alloc (grownCapacity c t) = true

/-- What it takes to get through the loop for the input `x`: an invariant of
the capacity and of what has been produced that a call keeps, and the result
of each way to end. -/
structure InflateRule (alloc : Nat → Bool) (decode : List UInt8 → List UInt8 × Bool)
    (x : List UInt8) (I : Nat → Nat → Prop) (Q : Except NpkStatus (List UInt8) → Prop) :
    Prop where
  keep : ∀ {c t}, I c t → t ≤ (decode x).1.length → CanGrow alloc c t →
    ∀ t', t ≤ t' → t' ≤ t + availOut (grownCapacity c t) t → I (grownCapacity c t) t'
  noMemory : ∀ {c t}, I c t → ¬ CanGrow alloc c t → Q (.error .noMemory)
  whole : ∀ {c t}, I c t → (decode x).2 = true →
    (decode x).1.length ≤ t + availOut (grownCapacity c t) t → Q (.ok (decode x).1)
  fails : ∀ {c t}, I c t → t ≤ (decode x).1.length → CanGrow alloc c t →
    ((decode x).2 = true →
      availOut (grownCapacity c t) t = 0 ∧ t ≠ (decode x).1.length) → Q (.error .zlibError)

/-- How a round starts. -/
theorem inflateRound_noMemory {st : InflateState σ}
    (h : ¬ CanGrow alloc st.capacity st.out.length) :
    inflateRound z alloc st = .ok (.exit (.error .noMemory)) := by
  rw [CanGrow, Classical.not_imp, Bool.not_eq_true] at h
  rw [inflateRound, if_pos ⟨h.1, by rw [h.2]; rfl⟩]

theorem inflateRound_call {st : InflateState σ} (h : CanGrow alloc st.capacity st.out.length) :
    inflateRound z alloc st =
      match z.inflate st.stream
        (availOut (grownCapacity st.capacity st.out.length) st.out.length) with
      | (.streamEnd, bytes, _) => .ok (.exit (.ok (st.out ++ bytes)))
      | (.ok, bytes, stream) =>
          .ok (.next ⟨grownCapacity st.capacity st.out.length, st.out ++ bytes, stream⟩)
      | (.error, _, _) => .ok (.exit (.error .zlibError)) := by
  have hmem : ¬ (st.out.length = st.capacity
      ∧ (!alloc (grownCapacity st.capacity st.out.length)) = true) := by
    rintro ⟨hfull, hnone⟩
    rw [h hfull] at hnone
    cases hnone
  exact if_neg hmem

/-- Every call that returns `Z_OK` uses up input or output, so a number of
rounds past what is left of both is enough. -/
theorem inflateLoop_rule (hz : z.Honours decode At) {x : List UInt8} {I : Nat → Nat → Prop}
    {Q : Except NpkStatus (List UInt8) → Prop} (hrule : InflateRule alloc decode x I Q) (k : Nat)
    {st : InflateState σ} {l : Nat} (hat : At x st.stream st.out l)
    (hout : st.out <+: (decode x).1) (hI : I st.capacity st.out.length)
    (hk : l + ((decode x).1.length - st.out.length) < k) :
    ∃ r, loopFuel (inflateRound z alloc) k st = .ok r ∧ Q r := by
  induction k generalizing st l with
  | zero => omega
  | succ k ih =>
      by_cases hgrow : CanGrow alloc st.capacity st.out.length
      · have hround := inflateRound_call (z := z) hgrow
        rcases hcall : z.inflate st.stream
          (availOut (grownCapacity st.capacity st.out.length) st.out.length) with ⟨r, b, s'⟩
        rw [hcall] at hround
        obtain ⟨hb, hpre⟩ := hz.produces hat hcall
        have hlen := hpre.length_le
        rw [List.length_append] at hlen
        cases r with
        | streamEnd =>
            obtain ⟨hends, hall⟩ := hz.streamEnd hat hcall
            refine ⟨_, loopFuel_exit hround, ?_⟩
            rw [hall]
            refine hrule.whole hI hends ?_
            rw [← hall, List.length_append]
            omega
        | ok =>
            obtain ⟨l', hat', hl', hmoved⟩ := hz.progress hat hcall
            rw [loopFuel_next hround]
            apply ih hat' hpre
            · dsimp only
              rw [List.length_append]
              exact hrule.keep hI (by omega) hgrow _ (by omega) (by omega)
            · dsimp only
              rw [List.length_append]
              rcases hmoved with hinput | houtput
              · omega
              · have hpos := List.length_pos_iff.mpr houtput
                omega
        | error =>
            refine ⟨_, loopFuel_exit hround, hrule.fails hI (by omega) hgrow fun hends => ?_⟩
            obtain ⟨hzero, hrest⟩ := hz.error hat hcall hends
            exact ⟨hzero, fun hall => hrest (hout.eq_of_length hall)⟩
      · exact ⟨_, loopFuel_exit (inflateRound_noMemory hgrow), hrule.noMemory hI hgrow⟩

theorem npkInflatePayload_rule (hz : z.Honours decode At) (x : List UInt8)
    {I : Nat → Nat → Prop} {Q : Except NpkStatus (List UInt8) → Prop}
    (hrule : InflateRule alloc decode x I Q) (hI : I (firstCapacity x.length) 0)
    (hfirst : alloc (firstCapacity x.length) = true) {rounds : Nat}
    (hrounds : x.length + (decode x).1.length < rounds) :
    ∃ r, npkInflatePayload z alloc rounds x = .ok r ∧ Q r := by
  obtain ⟨s, hinit, hat⟩ := hz.init x
  have hmem : ¬ (!alloc (firstCapacity x.length)) = true := by simp [hfirst]
  rw [npkInflatePayload, if_neg hmem, hinit]
  exact inflateLoop_rule hz hrule rounds hat List.nil_prefix hI (by simpa using hrounds)

/-! ## With memory -/

/-- What the loop returns. -/
def inflateResult (decode : List UInt8 → List UInt8 × Bool) (x : List UInt8) :
    Except NpkStatus (List UInt8) :=
  if (decode x).2 = true ∧ (decode x).1.length ≤ inflateLimit x.length then
    .ok (decode x).1
  else .error .zlibError

theorem inflateRule_memory (halloc : ∀ n, alloc n = true) (x : List UInt8) :
    InflateRule alloc decode x (CapacityOK x.length) (· = inflateResult decode x) where
  keep := fun hcap _ _ => hcap.room.2.2
  noMemory := fun _ hnone => absurd (fun _ => halloc _) hnone
  whole := fun hcap hends hlen => by
    rw [inflateResult, if_pos ⟨hends, Nat.le_trans hlen hcap.room.1⟩]
  fails := fun hcap hle _ hdry => by
    rw [inflateResult, if_neg]
    rintro ⟨hends, hfits⟩
    obtain ⟨hzero, hne⟩ := hdry hends
    have hlimit := hcap.room.2.1 hzero
    omega

/-- With enough rounds the loop returns the output of a stream that ends
within the limit, and an error for every other stream. -/
theorem npkInflatePayload_spec (hz : z.Honours decode At)
    (halloc : ∀ n, alloc n = true) (x : List UInt8) {rounds : Nat}
    (hrounds : x.length + (decode x).1.length < rounds) :
    npkInflatePayload z alloc rounds x = .ok (inflateResult decode x) := by
  obtain ⟨r, hrun, rfl⟩ := npkInflatePayload_rule hz x (inflateRule_memory halloc x)
    (CapacityOK.start x.length) (halloc _) hrounds
  exact hrun

/-- Below 4 GiB nothing is cut off. -/
theorem inflateLimit_ge {n : Nat} (h : n * 4 < 2 ^ 32) : 2 ^ 32 ≤ inflateLimit n := by
  have hmin := le_firstCapacity n
  have hsmall : firstCapacity n < 2 ^ 32 := by
    rw [firstCapacity]
    split <;> omega
  obtain ⟨-, -, hle, -⟩ := growPast_eq 20 hsmall (by omega)
  rw [inflateLimit]
  rw [if_neg (by omega)]
  omega

end

end Ccr2004
