import Mathlib.Data.List.Basic

/-!
# Runs of an event-driven machine

A driver behind a protocol is called in an order it does not choose. Its
run over a list of events is the fold of its step function. An invariant
is shown for one step (`runEvents_inv`) and holds wherever the run stops;
events that need a side condition are the ones a predicate admits.

`AlongRun` says a property of every state a run passes through, `StepsMeet`
a condition on every step of it, each judged in the state before the step.
When a step keeps an invariant under the condition and spoils the property
without it, the two are equivalent (`alongRun_iff_stepsMeet`), also where the
invariant is about what is still to come (`alongRun_iff_stepsMeet_of`).
-/

namespace Ccr2004

variable {σ ε : Type}

/-- The state after a list of events. -/
def runEvents (step : ε → σ → σ) (events : List ε) (s : σ) : σ :=
  events.foldl (fun s e => step e s) s

section Runs

variable {step : ε → σ → σ}

@[simp] theorem runEvents_nil (s : σ) : runEvents step [] s = s := rfl

@[simp] theorem runEvents_cons (e : ε) (events : List ε) (s : σ) :
    runEvents step (e :: events) s = runEvents step events (step e s) := rfl

/-- A property that every admitted event keeps holds at the end of a run of
admitted events. -/
theorem runEvents_inv {Inv : σ → Prop} {Ok : ε → Prop}
    (hstep : ∀ e s, Ok e → Inv s → Inv (step e s)) :
    ∀ {events : List ε} {s : σ}, (∀ e ∈ events, Ok e) → Inv s →
      Inv (runEvents step events s)
  | [], _, _, hinv => hinv
  | e :: _, s, hok, hinv => by
      have hnext : Inv (step e s) := hstep e s (hok e List.mem_cons_self) hinv
      rw [runEvents_cons]
      exact runEvents_inv hstep (fun e' hmem => hok e' (List.mem_cons_of_mem e hmem)) hnext

variable (step)

/-- The property in every state of a run, the first and the last included. -/
def AlongRun (P : σ → Prop) : List ε → σ → Prop
  | [], s => P s
  | e :: events, s => P s ∧ AlongRun P events (step e s)

/-- The condition on every step of a run. -/
def StepsMeet (Ok : ε → σ → Prop) : List ε → σ → Prop
  | [], _ => True
  | e :: events, s => Ok e s ∧ StepsMeet Ok events (step e s)

variable {step}

theorem AlongRun.head {P : σ → Prop} : ∀ {events : List ε} {s : σ},
    AlongRun step P events s → P s
  | [], _, h => h
  | _ :: _, _, h => h.1

/-- An invariant that every step keeps holds along every run. -/
theorem alongRun_of_inv {Inv P : σ → Prop} (hP : ∀ s, Inv s → P s)
    (hkeep : ∀ e s, Inv s → Inv (step e s)) :
    ∀ (events : List ε) {s : σ}, Inv s → AlongRun step P events s
  | [], s, hinv => hP s hinv
  | e :: events, s, hinv => ⟨hP s hinv, alongRun_of_inv hP hkeep events (hkeep e s hinv)⟩

/-- An invariant that speaks of the events to come as well. -/
theorem alongRun_iff_stepsMeet_of (Inv : List ε → σ → Prop) {P : σ → Prop}
    {Ok : ε → σ → Prop} (hP : ∀ events s, Inv events s → P s)
    (hkeep : ∀ e events s, Inv (e :: events) s → Ok e s → Inv events (step e s))
    (hspoil : ∀ e events s, Inv (e :: events) s → ¬ Ok e s → ¬ P (step e s)) :
    ∀ (events : List ε) {s : σ}, Inv events s →
      (AlongRun step P events s ↔ StepsMeet step Ok events s)
  | [], s, hinv => iff_of_true (hP [] s hinv) trivial
  | e :: events, s, hinv => by
      constructor
      · rintro ⟨-, hrest⟩
        have hok : Ok e s := by
          by_contra hbad
          exact hspoil e events s hinv hbad hrest.head
        exact ⟨hok, (alongRun_iff_stepsMeet_of Inv hP hkeep hspoil events
          (hkeep e events s hinv hok)).mp hrest⟩
      · rintro ⟨hok, hrest⟩
        exact ⟨hP _ s hinv, (alongRun_iff_stepsMeet_of Inv hP hkeep hspoil events
          (hkeep e events s hinv hok)).mpr hrest⟩

theorem alongRun_iff_stepsMeet {Inv P : σ → Prop} {Ok : ε → σ → Prop}
    (hP : ∀ s, Inv s → P s)
    (hkeep : ∀ e s, Inv s → Ok e s → Inv (step e s))
    (hspoil : ∀ e s, Inv s → ¬ Ok e s → ¬ P (step e s)) (events : List ε) {s : σ}
    (hinv : Inv s) : AlongRun step P events s ↔ StepsMeet step Ok events s :=
  alongRun_iff_stepsMeet_of (fun _ => Inv) (fun _ => hP) (fun e _ => hkeep e)
    (fun e _ => hspoil e) events hinv

end Runs

end Ccr2004
