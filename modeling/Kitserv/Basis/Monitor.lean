import Mathlib

/-! Automata that watch a trace: a state, and a partial step for each event. A trace is accepted
when no event is refused. -/
namespace Monitor

universe u v

variable {σ : Type u} {ε : Type v}

/-- The state behind a list of events, unless one of them is refused. -/
def run (step : σ → ε → Option σ) : σ → List ε → Option σ
  | s, [] => some s
  | s, e :: rest => (step s e).bind fun s => run step s rest

variable {step : σ → ε → Option σ} {s s' : σ}

@[simp] theorem run_nil : run step s [] = some s := rfl

@[simp] theorem run_cons (e : ε) (rest : List ε) :
    run step s (e :: rest) = (step s e).bind fun s => run step s rest := rfl

theorem run_append (before after : List ε) :
    run step s (before ++ after) = (run step s before).bind fun s => run step s after := by
  induction before generalizing s with
  | nil => rfl
  | cons e rest ih =>
    simp only [List.cons_append, run_cons]
    cases step s e with
    | none => rfl
    | some s => exact ih

/-- A trace that is accepted goes on with what its state accepts. -/
theorem run_append_of {before after : List ε} (h : run step s before = some s') :
    run step s (before ++ after) = run step s' after := by
  rw [run_append, h]
  rfl

theorem run_silent {events : List ε} (silent : ∀ e ∈ events, step s e = some s) :
    run step s events = some s := by
  induction events with
  | nil => rfl
  | cons e rest ih =>
    rw [run_cons, silent e (List.mem_cons_self ..)]
    exact ih fun e member => silent e (List.mem_cons_of_mem _ member)

/-- The invariant rule: what the steps of good events keep holds behind all of them. -/
theorem run_keeps {inv : σ → Prop} {good : ε → Prop} {events : List ε}
    (keep : ∀ s e s', inv s → good e → step s e = some s' → inv s') (start : inv s)
    (run : Monitor.run step s events = some s') (all : ∀ e ∈ events, good e) : inv s' := by
  induction events generalizing s with
  | nil =>
    cases run
    exact start
  | cons e rest ih =>
    obtain ⟨next, first, later⟩ := Option.bind_eq_some_iff.mp run
    exact ih (keep s e next start (all e (List.mem_cons_self ..)) first) later
      fun e member => all e (List.mem_cons_of_mem _ member)

/-- `calm` holds of every state that a trace leads to. -/
def Always (step : σ → ε → Option σ) (calm : σ → Prop) : List ε → σ → Prop
  | [], s => calm s
  | e :: rest, s => calm s ∧ ∀ s' ∈ step s e, Always step calm rest s'

instance Always.decidable {calm : σ → Prop} [DecidablePred calm] :
    (events : List ε) → DecidablePred (Always step calm events)
  | [] => fun s => inferInstanceAs (Decidable (calm s))
  | e :: rest => fun s =>
    have : DecidablePred (Always step calm rest) := decidable rest
    inferInstanceAs (Decidable (calm s ∧ ∀ s' ∈ step s e, Always step calm rest s'))

theorem always_of {calm : σ → Prop} {events : List ε} (all : ∀ s, calm s) :
    Always step calm events s := by
  induction events generalizing s with
  | nil => exact all s
  | cons e rest ih => exact ⟨all s, fun s' _ => ih⟩

theorem Always.here {calm : σ → Prop} {events : List ε} (h : Always step calm events s) : calm s := by
  cases events with
  | nil => exact h
  | cons e rest => exact h.1

/-- The invariant rule for a trace whose states are calm. -/
theorem run_keeps_calm {inv calm : σ → Prop} {good : ε → Prop} {events : List ε}
    (keep : ∀ s e s', inv s → calm s → good e → step s e = some s' → inv s') (start : inv s)
    (run : Monitor.run step s events = some s') (all : ∀ e ∈ events, good e)
    (calms : Always step calm events s) : inv s' := by
  induction events generalizing s with
  | nil =>
    cases run
    exact start
  | cons e rest ih =>
    obtain ⟨next, first, later⟩ := Option.bind_eq_some_iff.mp run
    have here : inv next := keep s e next start calms.1 (all e (List.mem_cons_self ..)) first
    exact ih here later (fun e member => all e (List.mem_cons_of_mem _ member))
      (calms.2 next first)

end Monitor
