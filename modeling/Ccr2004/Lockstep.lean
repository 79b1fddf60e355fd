import Ccr2004.Run

/-!
# Two runs in lockstep

Two programs that take the same steps on states a relation connects: both
stop with the same fault, or both end in related values. The rules follow
the shape of the programs - `Lockstep.bind` for a sequence,
`forFrom_lockstep` for a counted loop, `Answers` for a device that answers
a request and changes state - so a refinement between two versions of one
program is a walk over its text with one local fact at the place where the
versions differ.
-/

namespace Ccr2004

section Lockstep

variable {ε α β γ δ σ σ' τ τ' : Type}

/-- Both runs fail alike, or both end and `R` relates what they end with. -/
inductive Lockstep (R : α → β → Prop) : Except ε α → Except ε β → Prop
  | ok {a : α} {b : β} (h : R a b) : Lockstep R (.ok a) (.ok b)
  | error (e : ε) : Lockstep R (.error e) (.error e)

theorem Lockstep.refl {R : α → α → Prop} (hR : ∀ a, R a a) (x : Except ε α) :
    Lockstep R x x := by
  cases x with
  | error e => exact .error e
  | ok a => exact .ok (hR a)

theorem Lockstep.bind {R : α → β → Prop} {S : γ → δ → Prop} {x : Except ε α}
    {y : Except ε β} {f : α → Except ε γ} {g : β → Except ε δ} (h : Lockstep R x y)
    (hfg : ∀ a b, R a b → Lockstep S (f a) (g b)) :
    Lockstep S (x >>= f) (y >>= g) := by
  cases h with
  | error e => exact .error e
  | ok h => exact hfg _ _ h

/-- What the first run ends with, the second ends with up to `R`. -/
theorem Lockstep.exists_ok {R : α → β → Prop} {x : Except ε α} {y : Except ε β} {a : α}
    (h : Lockstep R x y) (hx : x = .ok a) : ∃ b, y = .ok b ∧ R a b := by
  cases h with
  | error e => cases hx
  | ok h =>
      obtain rfl := Except.ok.inj hx
      exact ⟨_, rfl, h⟩

/-- Runs whose results are equal are equal. -/
theorem Lockstep.eq {x y : Except ε α} (h : Lockstep Eq x y) : x = y := by
  cases h with
  | error e => rfl
  | ok h => rw [h]

/-! ## Loops -/

/-- Two iterations end the same way, in related states. -/
inductive Flow.Related (R : σ → σ' → Prop) (E : τ → τ' → Prop) :
    Flow σ τ → Flow σ' τ' → Prop
  | next {s : σ} {s' : σ'} (h : R s s') : Flow.Related R E (.next s) (.next s')
  | exit {t : τ} {t' : τ'} (h : E t t') : Flow.Related R E (.exit t) (.exit t')

theorem Flow.Related.state {R : σ → σ' → Prop} {c : Flow σ σ} {c' : Flow σ' σ'}
    (h : Flow.Related R R c c') : R c.state c'.state := by
  cases h with
  | next h => exact h
  | exit h => exact h

/-- Loops whose bodies run in lockstep run in lockstep. -/
theorem forFrom_lockstep {body : Nat → σ → Except ε (Flow σ τ)}
    {body' : Nat → σ' → Except ε (Flow σ' τ')} {R : σ → σ' → Prop} {E : τ → τ' → Prop}
    (hbody : ∀ j s s', R s s' → Lockstep (Flow.Related R E) (body j s) (body' j s'))
    (n : Nat) : ∀ {i : Nat} {s : σ} {s' : σ'}, R s s' →
      Lockstep (Flow.Related R E) (forFrom body n i s) (forFrom body' n i s') := by
  induction n with
  | zero => exact fun hR => .ok (.next hR)
  | succ n ih =>
      intro i s s' hR
      refine (hbody i s s' hR).bind fun c c' hc => ?_
      cases hc with
      | next hR' => exact ih hR'
      | exit hE => exact .ok (.exit hE)

/-! ## Requests to a device -/

/-- Two devices answer a request alike and are related afterwards; `G` is
what an answer that is no error brings along. -/
inductive Answers (R : σ → σ' → Prop) (G : α → σ → σ' → Prop) :
    Except ε α × σ → Except ε α × σ' → Prop
  | error {t : σ} {t' : σ'} (e : ε) (h : R t t') : Answers R G (.error e, t) (.error e, t')
  | ok {t : σ} {t' : σ'} {a : α} (h : R t t') (hG : G a t t') :
      Answers R G (.ok a, t) (.ok a, t')

/-- The two ways a request can go, as equations to rewrite with. -/
theorem Answers.outcome {R : σ → σ' → Prop} {G : α → σ → σ' → Prop}
    {x : Except ε α × σ} {y : Except ε α × σ'} (h : Answers R G x y) :
    (∃ e t t', x = (.error e, t) ∧ y = (.error e, t') ∧ R t t')
      ∨ ∃ a t t', x = (.ok a, t) ∧ y = (.ok a, t') ∧ R t t' ∧ G a t t' := by
  cases h with
  | error e h => exact .inl ⟨e, _, _, rfl, rfl, h⟩
  | ok h hG => exact .inr ⟨_, _, _, rfl, rfl, h, hG⟩

/-- Bring along more: what follows from the first device's answer too. -/
theorem Answers.imp {R : σ → σ' → Prop} {G G' : α → σ → σ' → Prop}
    {x : Except ε α × σ} {y : Except ε α × σ'} (h : Answers R G x y)
    (hG : ∀ a t t', x = (.ok a, t) → R t t' → G a t t' → G' a t t') :
    Answers R G' x y := by
  cases h with
  | error e h => exact .error e h
  | ok h hGa => exact .ok h (hG _ _ _ rfl h hGa)

end Lockstep

end Ccr2004
