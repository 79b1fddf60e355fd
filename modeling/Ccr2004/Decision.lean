import Ccr2004.Run

/-!
# Decoders of binary codes

A decoder of a binary code asks for one bit after the other. Some bits are
predicted by a cell of an adaptive model, the others by nothing; what is asked
next depends on the answers. `Decision` is such a decoder without its input,
and a `BitSource` is what answers. This file holds

- the monad, and `Decision.run` over a source,
- `Decision.Within`: no path faults, every path asks at most so many bits of
  either kind, and what it ends with satisfies a postcondition,
- `Decision.run_within`: over a source that can afford these bits the decoder
  ends, and satisfies the postcondition,
- `Decision.run_sim`: related sources give related runs, and
  `Decision.run_agree`: so do sources that need not both answer,
- `Decision.follow`: the value at the end of one path.
-/

namespace Ccr2004

/-- A decoder that asks for the bits of cells of type `ι`. -/
inductive Decision (ι α : Type) where
  | done (a : α)
  | fault (f : Fault)
  | bit (i : ι) (next : Bool → Decision ι α)
  | direct (next : Bool → Decision ι α)

namespace Decision

variable {ι α β γ : Type}

protected def bind : Decision ι α → (α → Decision ι β) → Decision ι β
  | .done a, f => f a
  | .fault e, _ => .fault e
  | .bit i next, f => .bit i fun c => (next c).bind f
  | .direct next, f => .direct fun c => (next c).bind f

instance : Monad (Decision ι) where
  pure := .done
  bind := Decision.bind

/-- A checked computation that asks for nothing. -/
def ofRun : Run α → Decision ι α
  | .ok a => .done a
  | .error e => .fault e

/-- Ask for the bit of a cell. -/
def askBit (i : ι) : Decision ι Bool := .bit i .done

/-- Ask for a bit that nothing predicts. -/
def askDirect : Decision ι Bool := .direct .done

@[simp] theorem pure_eq_done (a : α) : (pure a : Decision ι α) = .done a := rfl

@[simp] theorem done_bind (a : α) (f : α → Decision ι β) :
    (Decision.done a >>= f) = f a := rfl

@[simp] theorem fault_bind (e : Fault) (f : α → Decision ι β) :
    ((Decision.fault e : Decision ι α) >>= f) = .fault e := rfl

@[simp] theorem bit_bind (i : ι) (next : Bool → Decision ι α) (f : α → Decision ι β) :
    (Decision.bit i next >>= f) = .bit i fun c => next c >>= f := rfl

@[simp] theorem direct_bind (next : Bool → Decision ι α) (f : α → Decision ι β) :
    (Decision.direct next >>= f) = .direct fun c => next c >>= f := rfl

@[simp] theorem ofRun_ok (a : α) : (ofRun (.ok a) : Decision ι α) = .done a := rfl

theorem bind_assoc (p : Decision ι α) (f : α → Decision ι β) (g : β → Decision ι γ) :
    (p >>= f >>= g) = p >>= fun a => f a >>= g := by
  induction p with
  | done a => rfl
  | fault e => rfl
  | bit i next ih => simp only [bit_bind, ih]
  | direct next ih => simp only [direct_bind, ih]

/-! ## Running on a source of bits -/

/-- What answers: a state, and how it gives a bit of either kind. -/
structure BitSource (ι σ : Type) where
  bit : ι → σ → Run (Bool × σ)
  direct : σ → Run (Bool × σ)

section Run

variable {σ τ : Type}

def run (S : BitSource ι σ) : Decision ι α → σ → Run (α × σ)
  | .done a, s => .ok (a, s)
  | .fault e, _ => .error e
  | .bit i next, s => S.bit i s >>= fun r => (next r.1).run S r.2
  | .direct next, s => S.direct s >>= fun r => (next r.1).run S r.2

@[simp] theorem run_done (S : BitSource ι σ) (a : α) (s : σ) :
    (Decision.done a).run S s = .ok (a, s) := rfl

theorem run_bind (S : BitSource ι σ) (p : Decision ι α) (f : α → Decision ι β) (s : σ) :
    (p >>= f).run S s = p.run S s >>= fun r => (f r.1).run S r.2 := by
  induction p generalizing s with
  | done a => rfl
  | fault e => rfl
  | bit i next ih =>
      rw [bit_bind, run, run]
      cases S.bit i s with
      | error e => rfl
      | ok r => exact ih r.1 r.2
  | direct next ih =>
      rw [direct_bind, run, run]
      cases S.direct s with
      | error e => rfl
      | ok r => exact ih r.1 r.2

/-- Two sources whose answers agree whenever their states are related: what
one run ends with, the other ends with, in a related state. -/
theorem run_sim {S : BitSource ι σ} {T : BitSource ι τ} {R : σ → τ → Prop}
    (hbit : ∀ i s t c s', R s t → S.bit i s = .ok (c, s') →
      ∃ t', T.bit i t = .ok (c, t') ∧ R s' t')
    (hdirect : ∀ s t c s', R s t → S.direct s = .ok (c, s') →
      ∃ t', T.direct t = .ok (c, t') ∧ R s' t')
    (p : Decision ι α) {s s' : σ} {t : τ} {a : α} (hR : R s t)
    (h : p.run S s = .ok (a, s')) : ∃ t', p.run T t = .ok (a, t') ∧ R s' t' := by
  induction p generalizing s t with
  | done b =>
      obtain ⟨rfl, rfl⟩ := Prod.mk.injEq .. |>.mp (Except.ok.inj h)
      exact ⟨t, rfl, hR⟩
  | fault e => cases h
  | bit i next ih =>
      obtain ⟨⟨c, u⟩, hu, hrest⟩ := bind_eq_ok.mp h
      obtain ⟨v, hv, hRv⟩ := hbit i s t c u hR hu
      obtain ⟨t', ht', hR'⟩ := ih c hRv hrest
      exact ⟨t', by rw [run, hv, ok_bind, ht'], hR'⟩
  | direct next ih =>
      obtain ⟨⟨c, u⟩, hu, hrest⟩ := bind_eq_ok.mp h
      obtain ⟨v, hv, hRv⟩ := hdirect s t c u hR hu
      obtain ⟨t', ht', hR'⟩ := ih c hRv hrest
      exact ⟨t', by rw [run, hv, ok_bind, ht'], hR'⟩

end Run

/-! ## What every path does -/

/-- No path faults or asks for a cell outside `ok`, each asks at most `a`
predicted and `b` direct bits, and its result satisfies `Q`. A predicted bit
more may stand for `rate` direct ones. -/
inductive Within (ok : ι → Prop) (rate : Nat) :
    Nat → Nat → (α → Prop) → Decision ι α → Prop where
  | done {a b : Nat} {Q : α → Prop} {x : α} (hx : Q x) : Within ok rate a b Q (.done x)
  | bit {a b : Nat} {Q : α → Prop} {i : ι} {next : Bool → Decision ι α} (hi : ok i)
      (hnext : ∀ c, Within ok rate a b Q (next c)) : Within ok rate (a + 1) b Q (.bit i next)
  | direct {a b : Nat} {Q : α → Prop} {next : Bool → Decision ι α}
      (hnext : ∀ c, Within ok rate a b Q (next c)) : Within ok rate a (b + 1) Q (.direct next)
  | trade {a b : Nat} {Q : α → Prop} {p : Decision ι α} (hp : Within ok rate (a + 1) b Q p) :
      Within ok rate a (b + rate) Q p

section Within

variable {ok : ι → Prop} {rate a a' b b' : Nat} {Q : α → Prop}

theorem within_askBit {i : ι} {Q : Bool → Prop} (hi : ok i) (hQ : ∀ c, Q c) :
    Within ok rate 1 0 Q (askBit i) :=
  .bit hi fun c => .done (hQ c)

theorem within_askDirect {Q : Bool → Prop} (hQ : ∀ c, Q c) :
    Within ok rate 0 1 Q askDirect :=
  .direct fun c => .done (hQ c)

theorem Within.mono {Q' : α → Prop} {p : Decision ι α} (h : Within ok rate a b Q p)
    (ha : a ≤ a') (hb : b ≤ b') (hQ : ∀ x, Q x → Q' x) : Within ok rate a' b' Q' p := by
  induction h generalizing a' b' with
  | done hx => exact .done (hQ _ hx)
  | bit hi hnext ih =>
      obtain ⟨n, rfl⟩ : ∃ n, a' = n + 1 := ⟨a' - 1, by omega⟩
      exact .bit hi fun c => ih c (by omega) hb hQ
  | direct hnext ih =>
      obtain ⟨n, rfl⟩ : ∃ n, b' = n + 1 := ⟨b' - 1, by omega⟩
      exact .direct fun c => ih c ha (by omega) hQ
  | trade hp ih =>
      obtain ⟨n, rfl⟩ : ∃ n, b' = n + rate := ⟨b' - rate, by omega⟩
      exact .trade (ih (by omega) (by omega) hQ)

theorem Within.imp {Q' : α → Prop} {p : Decision ι α} (h : Within ok rate a b Q p)
    (hQ : ∀ x, Q x → Q' x) : Within ok rate a b Q' p :=
  h.mono (Nat.le_refl a) (Nat.le_refl b) hQ

/-- The bits of a sequence add up. -/
theorem Within.bind {R : β → Prop} {p : Decision ι α} {f : α → Decision ι β}
    (h : Within ok rate a b Q p) (hf : ∀ x, Q x → Within ok rate a' b' R (f x)) :
    Within ok rate (a + a') (b + b') R (p >>= f) := by
  induction h with
  | done hx => exact (hf _ hx).mono (by omega) (by omega) fun _ hy => hy
  | bit hi hnext ih =>
      rw [Nat.add_right_comm]
      exact .bit hi fun c => ih c hf
  | direct hnext ih =>
      rw [Nat.add_right_comm]
      exact .direct fun c => ih c hf
  | trade hp ih =>
      rw [Nat.add_right_comm _ rate]
      have := ih hf
      rw [Nat.add_right_comm] at this
      exact .trade this

theorem Within.bind_bit {R : β → Prop} {p : Decision ι α} {f : α → Decision ι β}
    (h : Within ok rate 1 0 Q p) (hf : ∀ x, Q x → Within ok rate a b R (f x)) :
    Within ok rate (a + 1) b R (p >>= f) := by
  rw [Nat.add_comm, ← Nat.zero_add b]
  exact h.bind hf

theorem Within.bind_direct {R : β → Prop} {p : Decision ι α} {f : α → Decision ι β}
    (h : Within ok rate 0 1 Q p) (hf : ∀ x, Q x → Within ok rate a b R (f x)) :
    Within ok rate a (b + 1) R (p >>= f) := by
  rw [Nat.add_comm, ← Nat.zero_add a]
  exact h.bind hf

/-- What asks for nothing comes last. -/
theorem Within.then_free {R : β → Prop} {p : Decision ι α} {f : α → Decision ι β}
    (h : Within ok rate a b Q p) (hf : ∀ x, Q x → Within ok rate 0 0 R (f x)) :
    Within ok rate a b R (p >>= f) :=
  h.bind hf

end Within

/-- Over a source whose states afford what `Within` allows - `J a b` is "`a`
predicted and `b` direct bits can be paid" - the decoder ends, and what it did
not use can still be paid. -/
theorem run_within {σ : Type} {S : BitSource ι σ} {ok : ι → Prop} {rate : Nat}
    {J : Nat → Nat → σ → Prop}
    (hbit : ∀ a b i s, ok i → J (a + 1) b s → ∃ c s', S.bit i s = .ok (c, s') ∧ J a b s')
    (hdirect : ∀ a b s, J a (b + 1) s → ∃ c s', S.direct s = .ok (c, s') ∧ J a b s')
    (hmono : ∀ a b a' b' s, a' ≤ a → b' ≤ b → J a b s → J a' b' s)
    (htrade : ∀ a b s, J a (b + rate) s → J (a + 1) b s)
    {Q : α → Prop} {p : Decision ι α} {a b a' b' : Nat} {s : σ} (hp : Within ok rate a b Q p)
    (hJ : J (a + a') (b + b') s) :
    ∃ x s', p.run S s = .ok (x, s') ∧ Q x ∧ J a' b' s' := by
  induction hp generalizing s with
  | done hx => exact ⟨_, s, rfl, hx, hmono _ _ _ _ s (by omega) (by omega) hJ⟩
  | bit hi hnext ih =>
      rw [Nat.add_right_comm] at hJ
      obtain ⟨c, u, hu, hJu⟩ := hbit _ _ _ s hi hJ
      obtain ⟨x, s', hs', hQ, hJ'⟩ := ih c hJu
      exact ⟨x, s', by rw [run, hu, ok_bind, hs'], hQ, hJ'⟩
  | direct hnext ih =>
      rw [Nat.add_right_comm] at hJ
      obtain ⟨c, u, hu, hJu⟩ := hdirect _ _ s hJ
      obtain ⟨x, s', hs', hQ, hJ'⟩ := ih c hJu
      exact ⟨x, s', by rw [run, hu, ok_bind, hs'], hQ, hJ'⟩
  | trade hp ih =>
      rw [Nat.add_right_comm] at hJ
      apply ih
      rw [Nat.add_right_comm]
      exact htrade _ _ s hJ

/-- Two sources that give one bit wherever both answer: where both runs end,
they end with one value, in related states. -/
theorem run_agree {σ τ : Type} {S : BitSource ι σ} {T : BitSource ι τ} {ok : ι → Prop}
    {rate a b : Nat} {Q : α → Prop} {R : σ → τ → Prop}
    (hbit : ∀ i s t c d s' t', ok i → R s t → S.bit i s = .ok (c, s') →
      T.bit i t = .ok (d, t') → c = d ∧ R s' t')
    (hdirect : ∀ s t c d s' t', R s t → S.direct s = .ok (c, s') → T.direct t = .ok (d, t') →
      c = d ∧ R s' t')
    {p : Decision ι α} (hp : Within ok rate a b Q p) {s s' : σ} {t t' : τ} {x y : α} (hR : R s t)
    (h : p.run S s = .ok (x, s')) (h' : p.run T t = .ok (y, t')) : x = y ∧ R s' t' := by
  induction hp generalizing s t with
  | done hx =>
      obtain ⟨rfl, rfl⟩ := Prod.mk.injEq .. |>.mp (Except.ok.inj h)
      obtain ⟨rfl, rfl⟩ := Prod.mk.injEq .. |>.mp (Except.ok.inj h')
      exact ⟨rfl, hR⟩
  | bit hi hnext ih =>
      obtain ⟨⟨c, u⟩, hu, hrest⟩ := bind_eq_ok.mp h
      obtain ⟨⟨d, v⟩, hv, hrest'⟩ := bind_eq_ok.mp h'
      obtain ⟨rfl, hRv⟩ := hbit _ s t c d u v hi hR hu hv
      exact ih c hRv hrest hrest'
  | direct hnext ih =>
      obtain ⟨⟨c, u⟩, hu, hrest⟩ := bind_eq_ok.mp h
      obtain ⟨⟨d, v⟩, hv, hrest'⟩ := bind_eq_ok.mp h'
      obtain ⟨rfl, hRv⟩ := hdirect s t c d u v hR hu hv
      exact ih c hRv hrest hrest'
  | trade hp ih => exact ih hR h h'

theorem Within.post {σ : Type} {S : BitSource ι σ} {ok : ι → Prop} {rate a b : Nat}
    {Q : α → Prop} {p : Decision ι α} (hp : Within ok rate a b Q p) {s s' : σ} {x : α}
    (h : p.run S s = .ok (x, s')) : Q x := by
  induction hp generalizing s with
  | done hx =>
      obtain ⟨rfl, -⟩ := Prod.mk.injEq .. |>.mp (Except.ok.inj h)
      exact hx
  | bit hi hnext ih =>
      obtain ⟨⟨c, u⟩, -, hrest⟩ := bind_eq_ok.mp h
      exact ih c hrest
  | direct hnext ih =>
      obtain ⟨⟨c, u⟩, -, hrest⟩ := bind_eq_ok.mp h
      exact ih c hrest
  | trade hp ih => exact ih h

/-- `run_sim` over cells that `Within` allows. -/
theorem run_sim_within {σ τ : Type} {S : BitSource ι σ} {T : BitSource ι τ} {ok : ι → Prop}
    {rate a b : Nat} {Q : α → Prop} {R : σ → τ → Prop}
    (hbit : ∀ i s t c s', ok i → R s t → S.bit i s = .ok (c, s') →
      ∃ t', T.bit i t = .ok (c, t') ∧ R s' t')
    (hdirect : ∀ s t c s', R s t → S.direct s = .ok (c, s') →
      ∃ t', T.direct t = .ok (c, t') ∧ R s' t')
    {p : Decision ι α} (hp : Within ok rate a b Q p) {s s' : σ} {t : τ} {x : α} (hR : R s t)
    (h : p.run S s = .ok (x, s')) : ∃ t', p.run T t = .ok (x, t') ∧ R s' t' := by
  induction hp generalizing s t with
  | done hx =>
      obtain ⟨rfl, rfl⟩ := Prod.mk.injEq .. |>.mp (Except.ok.inj h)
      exact ⟨t, rfl, hR⟩
  | bit hi hnext ih =>
      obtain ⟨⟨c, u⟩, hu, hrest⟩ := bind_eq_ok.mp h
      obtain ⟨v, hv, hRv⟩ := hbit _ s t c u hi hR hu
      obtain ⟨t', ht', hR'⟩ := ih c hRv hrest
      exact ⟨t', by rw [run, hv, ok_bind, ht'], hR'⟩
  | direct hnext ih =>
      obtain ⟨⟨c, u⟩, hu, hrest⟩ := bind_eq_ok.mp h
      obtain ⟨v, hv, hRv⟩ := hdirect s t c u hR hu
      obtain ⟨t', ht', hR'⟩ := ih c hRv hrest
      exact ⟨t', by rw [run, hv, ok_bind, ht'], hR'⟩
  | trade hp ih => exact ih hR h

/-! ## One path -/

/-- The value that the answers `bits` lead to, and the answers left over. -/
def follow : Decision ι α → List Bool → Option (α × List Bool)
  | .done a, bits => some (a, bits)
  | .fault _, _ => none
  | .bit _ _, [] => none
  | .bit _ next, c :: bits => (next c).follow bits
  | .direct _, [] => none
  | .direct next, c :: bits => (next c).follow bits

@[simp] theorem follow_done (a : α) (bits : List Bool) :
    (Decision.done a : Decision ι α).follow bits = some (a, bits) := by
  rw [follow]

@[simp] theorem follow_askBit (i : ι) (c : Bool) (bits : List Bool) :
    (askBit i).follow (c :: bits) = some (c, bits) := by
  rw [askBit, follow, follow]

@[simp] theorem follow_askDirect (c : Bool) (bits : List Bool) :
    (askDirect : Decision ι Bool).follow (c :: bits) = some (c, bits) := by
  rw [askDirect, follow, follow]

theorem follow_bind {p : Decision ι α} {f : α → Decision ι β} {bits rest : List Bool} {a : α}
    (h : p.follow bits = some (a, rest)) : (p >>= f).follow bits = (f a).follow rest := by
  induction p generalizing bits with
  | done b =>
      obtain ⟨rfl, rfl⟩ := Prod.mk.injEq .. |>.mp (Option.some.inj h)
      rfl
  | fault e => cases h
  | bit i next ih =>
      cases bits with
      | nil => cases h
      | cons c bits => exact ih c h
  | direct next ih =>
      cases bits with
      | nil => cases h
      | cons c bits => exact ih c h

theorem Within.follow_post {ok : ι → Prop} {rate a b : Nat} {Q : α → Prop} {p : Decision ι α}
    (hp : Within ok rate a b Q p) {bits rest : List Bool} {x : α}
    (h : p.follow bits = some (x, rest)) : Q x := by
  induction hp generalizing bits with
  | done hx =>
      obtain ⟨rfl, -⟩ := Prod.mk.injEq .. |>.mp (Option.some.inj h)
      exact hx
  | bit hi hnext ih =>
      cases bits with
      | nil => cases h
      | cons c bits => exact ih c h
  | direct hnext ih =>
      cases bits with
      | nil => cases h
      | cons c bits => exact ih c h
  | trade hp ih => exact ih h

end Decision

end Ccr2004
