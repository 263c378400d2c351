import Mathlib

/-! Runs of a step function that is a total function on states. -/
namespace Steps

universe u v

variable {σ : Type u} {step : σ → σ}

def Meets (step : σ → σ) (good : σ → Prop) (n : Nat) (s : σ) : Prop :=
  ∀ m < n, good (step^[m] s)

variable {good inv : σ → Prop} {n : Nat} {s : σ}

instance [DecidablePred good] : Decidable (Meets step good n s) :=
  inferInstanceAs (Decidable (∀ m < n, good (step^[m] s)))

theorem Meets.mono (h : Meets step good n s) {m : Nat} (le : m ≤ n) : Meets step good m s :=
  fun i lt => h i (Nat.lt_of_lt_of_le lt le)

theorem Meets.snoc (h : Meets step good n s) (last : good (step^[n] s)) : Meets step good (n + 1) s := by
  intro m lt
  rcases Nat.lt_succ_iff_lt_or_eq.mp lt with before | rfl
  · exact h m before
  · exact last

theorem Meets.tail (h : Meets step good (n + 1) s) : Meets step good n (step s) :=
  fun m lt => h (m + 1) (Nat.succ_lt_succ lt)

/-- The invariant rule: what good steps keep holds after all of them. -/
theorem inv_of_step (keep : ∀ s, inv s → good s → inv (step s)) (start : inv s)
    (meets : Meets step good n s) : inv (step^[n] s) := by
  induction n generalizing s with
  | zero => exact start
  | succ n ih =>
    have first : good s := meets 0 (Nat.succ_pos n)
    exact ih (keep s start first) meets.tail

theorem step_of_inv (law : σ → σ → Prop) (keep : ∀ s, inv s → good s → inv (step s))
    (one : ∀ s, inv s → good s → law s (step s)) (start : inv s)
    (meets : Meets step good (n + 1) s) : law (step^[n] s) (step^[n + 1] s) := by
  have here : inv (step^[n] s) := inv_of_step keep start (meets.mono (Nat.le_succ n))
  rw [Function.iterate_succ_apply']
  exact one _ here (meets n (Nat.lt_succ_self n))

variable {α : Type v}

/-- What the first `n` steps put out, one after the other. -/
def collect (step : σ → σ) (out : σ → List α) : Nat → σ → List α
  | 0, _ => []
  | n + 1, s => out s ++ collect step out n (step s)

theorem collect_succ (step : σ → σ) (out : σ → List α) (n : Nat) (s : σ) :
    collect step out (n + 1) s = collect step out n s ++ out (step^[n] s) := by
  induction n generalizing s with
  | zero => exact List.append_nil _
  | succ n ih =>
    rw [collect, ih, collect, List.append_assoc]
    rfl

/-- The conservation rule: if what each good step puts out and what is owed behind it make up what was
owed before it and what the step makes due, then the same holds of all of them together. -/
theorem collect_conserves {out due : σ → List α} {owes : σ → List α → Prop}
    (keep : ∀ s, inv s → good s → inv (step s))
    (one : ∀ s, inv s → good s → ∀ debt, owes s debt →
      ∃ debt', out s ++ debt' = debt ++ due s ∧ owes (step s) debt')
    (start : inv s) (meets : Meets step good n s) {debt : List α} (owed : owes s debt) :
    ∃ debt', collect step out n s ++ debt' = debt ++ collect step due n s ∧
      owes (step^[n] s) debt' := by
  induction n generalizing s debt with
  | zero => exact ⟨debt, by rw [collect, collect, List.nil_append, List.append_nil], owed⟩
  | succ n ih =>
    have first : good s := meets 0 (Nat.succ_pos n)
    obtain ⟨next, paid, owed'⟩ := one s start first debt owed
    obtain ⟨last, later, owed''⟩ := ih (keep s start first) meets.tail owed'
    refine ⟨last, ?_, owed''⟩
    calc out s ++ collect step out n (step s) ++ last
        = out s ++ (next ++ collect step due n (step s)) := by rw [List.append_assoc, later]
      _ = debt ++ due s ++ collect step due n (step s) := by rw [← List.append_assoc, paid]
      _ = debt ++ (due s ++ collect step due n (step s)) := List.append_assoc ..

theorem collect_nil (step : σ → σ) (n : Nat) (s : σ) :
    collect step (fun _ => ([] : List α)) n s = [] := by
  induction n generalizing s with
  | zero => rfl
  | succ n ih => exact ih (step s)

/-- The conservation rule where nothing falls due after the start. -/
theorem collect_settles {out : σ → List α} {owes : σ → List α → Prop}
    (keep : ∀ s, inv s → good s → inv (step s))
    (one : ∀ s, inv s → good s → ∀ debt, owes s debt →
      ∃ debt', out s ++ debt' = debt ∧ owes (step s) debt')
    (start : inv s) (meets : Meets step good n s) {debt : List α} (owed : owes s debt) :
    ∃ debt', collect step out n s ++ debt' = debt ∧ owes (step^[n] s) debt' := by
  have step_pays : ∀ s, inv s → good s → ∀ debt, owes s debt →
      ∃ debt', out s ++ debt' = debt ++ [] ∧ owes (step s) debt' := by
    simpa only [List.append_nil] using one
  obtain ⟨debt', paid, left⟩ := collect_conserves keep step_pays start meets owed
  rw [collect_nil, List.append_nil] at paid
  exact ⟨debt', paid, left⟩

end Steps
