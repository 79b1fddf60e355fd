import Mathlib.Data.List.Basic

/-!
# Checked runs and counted loops

Programs are modelled as functions into `Except Fault`: a run either ends
with a value or stops at the first access the language leaves undefined.
This file holds what every later file reasons with - the inversion of
`bind`, the two loop combinators, and one rule per way of using a loop:

- `forFrom body n i s` is `for (; n more times; i++)` with an early exit.
  `forFrom_post` is partial correctness, `forFrom_total` adds that no
  iteration faults, `forFrom_add` splits a loop at an index, and
  `forFrom_first` finds the iteration that leaves a loop without a state.
- `loopFuel body k s` is a `while` loop cut off after `k` rounds;
  `loopFuel_total` bounds the rounds by a measure, and `loopFuel_mono`
  says that more fuel changes nothing.
-/

namespace Ccr2004

/-- Why a run stops without a value: an access through a null pointer, an
access outside its buffer, or a loop that does not end. -/
inductive Fault where
  | nullDeref
  | outOfBounds
  | diverge
deriving Repr, DecidableEq

/-- A run that may fault. -/
abbrev Run (α : Type) := Except Fault α

@[simp] theorem ok_bind {ε α β : Type} (a : α) (f : α → Except ε β) :
    (Except.ok a >>= f) = f a := rfl

@[simp] theorem error_bind {ε α β : Type} (e : ε) (f : α → Except ε β) :
    ((Except.error e : Except ε α) >>= f) = .error e := rfl

@[simp] theorem pure_eq_ok {ε α : Type} (a : α) :
    (pure a : Except ε α) = .ok a := rfl

theorem bind_eq_ok {ε α β : Type} {x : Except ε α} {f : α → Except ε β} {b : β} :
    (x >>= f) = .ok b ↔ ∃ a, x = .ok a ∧ f a = .ok b := by
  cases x with
  | error e => simp
  | ok a => simp

/-! ## How an iteration ends -/

/-- An iteration falls through to the next one, or leaves the loop. -/
inductive Flow (σ τ : Type) where
  | next (s : σ)
  | exit (t : τ)
deriving Repr, DecidableEq

namespace Flow

variable {σ τ : Type}

/-- `P` of a state that falls through, `E` of a value that leaves. -/
def Post (P : σ → Prop) (E : τ → Prop) : Flow σ τ → Prop
  | .next s => P s
  | .exit t => E t

/-- The state after the loop when `break` leaves with the state itself. -/
def state : Flow σ σ → σ
  | .next s => s
  | .exit s => s

@[simp] theorem post_next (P : σ → Prop) (E : τ → Prop) (s : σ) :
    (Flow.next s : Flow σ τ).Post P E ↔ P s := Iff.rfl

@[simp] theorem post_exit (P : σ → Prop) (E : τ → Prop) (t : τ) :
    (Flow.exit t : Flow σ τ).Post P E ↔ E t := Iff.rfl

@[simp] theorem state_next (s : σ) : (Flow.next s : Flow σ σ).state = s := rfl

@[simp] theorem state_exit (s : σ) : (Flow.exit s : Flow σ σ).state = s := rfl

theorem Post.imp {P P' : σ → Prop} {E E' : τ → Prop} {c : Flow σ τ}
    (h : c.Post P E) (hP : ∀ s, P s → P' s) (hE : ∀ t, E t → E' t) :
    c.Post P' E' := by
  cases c with
  | next s => exact hP s h
  | exit t => exact hE t h

theorem Post.state {P : σ → Prop} {c : Flow σ σ} (h : c.Post P P) :
    P c.state := by
  cases c with
  | next s => exact h
  | exit s => exact h

end Flow

/-! ## Counted loops -/

section Counted

variable {ε σ τ : Type}

/-- Run `body i`, `body (i + 1)`, ... for `n` iterations, or until one of
them leaves. -/
def forFrom (body : Nat → σ → Except ε (Flow σ τ)) :
    Nat → Nat → σ → Except ε (Flow σ τ)
  | 0, _, s => .ok (.next s)
  | n + 1, i, s => do
      match ← body i s with
      | .next s' => forFrom body n (i + 1) s'
      | .exit t => .ok (.exit t)

@[simp] theorem forFrom_zero (body : Nat → σ → Except ε (Flow σ τ)) (i : Nat)
    (s : σ) : forFrom body 0 i s = .ok (.next s) := rfl

theorem forFrom_succ_next {body : Nat → σ → Except ε (Flow σ τ)} {n i : Nat}
    {s s' : σ} (h : body i s = .ok (.next s')) :
    forFrom body (n + 1) i s = forFrom body n (i + 1) s' := by
  rw [forFrom, h]; rfl

theorem forFrom_succ_exit {body : Nat → σ → Except ε (Flow σ τ)} {n i : Nat}
    {s : σ} {t : τ} (h : body i s = .ok (.exit t)) :
    forFrom body (n + 1) i s = .ok (.exit t) := by
  rw [forFrom, h]; rfl

theorem forFrom_one (body : Nat → σ → Except ε (Flow σ τ)) (i : Nat) (s : σ) :
    forFrom body 1 i s = body i s := by
  rw [forFrom]
  cases body i s with
  | error e => rfl
  | ok c => cases c <;> rfl

/-- A run of a nonempty loop is its first iteration and, when that one falls
through, a run of the rest. -/
theorem forFrom_succ_eq_ok {body : Nat → σ → Except ε (Flow σ τ)} {n i : Nat}
    {s : σ} {c : Flow σ τ} :
    forFrom body (n + 1) i s = .ok c ↔
      (∃ s', body i s = .ok (.next s') ∧ forFrom body n (i + 1) s' = .ok c)
        ∨ (∃ t, body i s = .ok (.exit t) ∧ c = .exit t) := by
  rw [forFrom, bind_eq_ok]
  constructor
  · rintro ⟨c', hb, hc⟩
    cases c' with
    | next s' => exact Or.inl ⟨s', hb, hc⟩
    | exit t => exact Or.inr ⟨t, hb, (Except.ok.inj hc).symm⟩
  · rintro (⟨s', hb, hc⟩ | ⟨t, hb, rfl⟩)
    · exact ⟨_, hb, hc⟩
    · exact ⟨_, hb, rfl⟩

/-- Partial correctness: an invariant indexed by the iteration, and what an
iteration that leaves guarantees. -/
theorem forFrom_post {body : Nat → σ → Except ε (Flow σ τ)}
    {I : Nat → σ → Prop} {E : τ → Prop} :
    ∀ {n i : Nat} {s : σ} {c : Flow σ τ},
      (∀ j s c, i ≤ j → j < i + n → I j s → body j s = .ok c →
        c.Post (I (j + 1)) E) →
      I i s → forFrom body n i s = .ok c → c.Post (I (i + n)) E
  | 0, i, s, c, _, hI, h => by
      obtain rfl := Except.ok.inj h
      exact hI
  | n + 1, i, s, c, hstep, hI, h => by
      rcases forFrom_succ_eq_ok.mp h with ⟨s', hb, hrest⟩ | ⟨t, hb, rfl⟩
      · have hI' : I (i + 1) s' := hstep i s _ (Nat.le_refl i) (by omega) hI hb
        have hrec := forFrom_post
          (fun j s c hj hjn => hstep j s c (by omega) (by omega)) hI' hrest
        rwa [show i + 1 + n = i + (n + 1) by omega] at hrec
      · exact hstep i s _ (Nat.le_refl i) (by omega) hI hb

/-- Total correctness: under the invariant no iteration faults. -/
theorem forFrom_total {body : Nat → σ → Except ε (Flow σ τ)}
    {I : Nat → σ → Prop} {E : τ → Prop} :
    ∀ {n i : Nat} {s : σ},
      (∀ j s, i ≤ j → j < i + n → I j s →
        ∃ c, body j s = .ok c ∧ c.Post (I (j + 1)) E) →
      I i s → ∃ c, forFrom body n i s = .ok c ∧ c.Post (I (i + n)) E
  | 0, i, s, _, hI => ⟨.next s, rfl, hI⟩
  | n + 1, i, s, hstep, hI => by
      obtain ⟨c, hb, hc⟩ := hstep i s (Nat.le_refl i) (by omega) hI
      cases c with
      | exit t => exact ⟨.exit t, forFrom_succ_exit hb, hc⟩
      | next s' =>
          obtain ⟨c', hc', hpost⟩ := forFrom_total (n := n) (i := i + 1)
            (fun j s hj hjn => hstep j s (by omega) (by omega)) hc
          rw [show i + 1 + n = i + (n + 1) by omega] at hpost
          exact ⟨c', by rw [forFrom_succ_next hb, hc'], hpost⟩

/-- A loop of `n + m` iterations is a loop of `n`, then one of `m`. -/
theorem forFrom_add (body : Nat → σ → Except ε (Flow σ τ)) :
    ∀ (n m i : Nat) (s : σ),
      forFrom body (n + m) i s =
        (forFrom body n i s >>= fun c =>
          match c with
          | .next s' => forFrom body m (i + n) s'
          | .exit t => .ok (.exit t))
  | 0, m, i, s => by simp
  | n + 1, m, i, s => by
      rw [show n + 1 + m = (n + m) + 1 by omega, forFrom, forFrom]
      cases hb : body i s with
      | error e => rfl
      | ok c =>
          cases c with
          | exit t => rfl
          | next s' =>
              simp only [ok_bind]
              rw [forFrom_add body n m (i + 1) s',
                show i + 1 + n = i + (n + 1) by omega]

/-- A loop that carries no state is decided by its first round that does not
fall through. -/
theorem forFrom_first (body : Nat → Unit → Except ε (Flow Unit τ)) (n i : Nat) :
    ((∀ k, i ≤ k → k < i + n → body k () = .ok (.next ()))
        ∧ forFrom body n i () = .ok (.next ()))
      ∨ ∃ k, i ≤ k ∧ k < i + n ∧ (∀ j, i ≤ j → j < k → body j () = .ok (.next ()))
        ∧ body k () ≠ .ok (.next ()) ∧ forFrom body n i () = body k () := by
  induction n generalizing i with
  | zero => exact .inl ⟨fun k _ _ => by omega, rfl⟩
  | succ n ih =>
      by_cases hb : body i () = .ok (.next ())
      · rw [forFrom_succ_next hb]
        have hi : ∀ j, i ≤ j → ¬ i + 1 ≤ j → body j () = .ok (.next ()) := fun j hj hj' => by
          rwa [show j = i by omega]
        rcases ih (i + 1) with ⟨hall, hrun⟩ | ⟨k, hik, hk, hbefore, hne, hrun⟩
        · refine .inl ⟨fun j hj hjn => ?_, hrun⟩
          by_cases hj' : i + 1 ≤ j
          · exact hall j hj' (by omega)
          · exact hi j hj hj'
        · refine .inr ⟨k, by omega, by omega, fun j hj hjk => ?_, hne, hrun⟩
          by_cases hj' : i + 1 ≤ j
          · exact hbefore j hj' hjk
          · exact hi j hj hj'
      · refine .inr ⟨i, Nat.le_refl i, by omega, fun j _ _ => by omega, hb, ?_⟩
        rw [forFrom]
        cases hr : body i () with
        | error e => rfl
        | ok c =>
            cases c with
            | next s => exact absurd hr hb
            | exit t => rfl

end Counted

/-! ## While loops -/

section While

variable {σ τ : Type}

/-- Run `body` until it leaves, for at most the given number of rounds. -/
def loopFuel (body : σ → Run (Flow σ τ)) : Nat → σ → Run τ
  | 0, _ => .error .diverge
  | k + 1, s => do
      match ← body s with
      | .next s' => loopFuel body k s'
      | .exit t => .ok t

theorem loopFuel_next {body : σ → Run (Flow σ τ)} {k : Nat} {s s' : σ}
    (h : body s = .ok (.next s')) :
    loopFuel body (k + 1) s = loopFuel body k s' := by
  rw [loopFuel, h]; rfl

theorem loopFuel_exit {body : σ → Run (Flow σ τ)} {k : Nat} {s : σ} {t : τ}
    (h : body s = .ok (.exit t)) : loopFuel body (k + 1) s = .ok t := by
  rw [loopFuel, h]; rfl

theorem loopFuel_eq_ok {body : σ → Run (Flow σ τ)} {k : Nat} {s : σ} {t : τ} :
    loopFuel body (k + 1) s = .ok t ↔
      (∃ s', body s = .ok (.next s') ∧ loopFuel body k s' = .ok t)
        ∨ body s = .ok (.exit t) := by
  rw [loopFuel, bind_eq_ok]
  constructor
  · rintro ⟨c, hb, hc⟩
    cases c with
    | next s' => exact Or.inl ⟨s', hb, hc⟩
    | exit t' =>
        obtain rfl := Except.ok.inj hc
        exact Or.inr hb
  · rintro (⟨s', hb, hc⟩ | hb)
    · exact ⟨_, hb, hc⟩
    · exact ⟨_, hb, rfl⟩

/-- Partial correctness of a while loop. -/
theorem loopFuel_post {body : σ → Run (Flow σ τ)} {I : σ → Prop} {E : τ → Prop}
    (hstep : ∀ s c, I s → body s = .ok c → c.Post I E) :
    ∀ {k : Nat} {s : σ} {t : τ}, I s → loopFuel body k s = .ok t → E t
  | 0, _, _, _, h => by cases h
  | k + 1, s, t, hI, h => by
      rcases loopFuel_eq_ok.mp h with ⟨s', hb, hrest⟩ | hb
      · exact loopFuel_post hstep (hstep s _ hI hb) hrest
      · exact hstep s _ hI hb

/-- Total correctness of a while loop: a measure that every round lowers
bounds the rounds, so enough fuel gives the result. -/
theorem loopFuel_total {body : σ → Run (Flow σ τ)} {I : σ → Prop} {E : τ → Prop}
    {μ : σ → Nat}
    (hstep : ∀ s, I s → ∃ c, body s = .ok c ∧
      c.Post (fun s' => I s' ∧ μ s' < μ s) E) :
    ∀ {k : Nat} {s : σ}, I s → μ s < k → ∃ t, loopFuel body k s = .ok t ∧ E t
  | 0, _, _, hk => by omega
  | k + 1, s, hI, hk => by
      obtain ⟨c, hb, hc⟩ := hstep s hI
      cases c with
      | exit t => exact ⟨t, loopFuel_exit hb, hc⟩
      | next s' =>
          obtain ⟨hI', hμ⟩ := hc
          obtain ⟨t, ht, hE⟩ := loopFuel_total hstep (k := k) hI' (by omega)
          exact ⟨t, by rw [loopFuel_next hb, ht], hE⟩

/-- A loop that ends ends the same way with more fuel. -/
theorem loopFuel_mono {body : σ → Run (Flow σ τ)} :
    ∀ {k k' : Nat} {s : σ} {t : τ}, k ≤ k' → loopFuel body k s = .ok t →
      loopFuel body k' s = .ok t
  | 0, _, _, _, _, h => by cases h
  | k + 1, 0, _, _, hk, _ => by omega
  | k + 1, k' + 1, s, t, hk, h => by
      rcases loopFuel_eq_ok.mp h with ⟨s', hb, hrest⟩ | hb
      · rw [loopFuel_next hb]
        exact loopFuel_mono (by omega) hrest
      · exact loopFuel_exit hb

end While

end Ccr2004
