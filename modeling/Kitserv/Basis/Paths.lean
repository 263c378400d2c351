import Mathlib

namespace Paths

universe u v

variable {σ : Type u} {step : σ → σ → Prop} {ended : σ → Prop} {path : Nat → σ}

def Follows (step : σ → σ → Prop) (ended : σ → Prop) (path : Nat → σ) : Prop :=
  ∀ i, ended (path i) ∨ step (path i) (path (i + 1))

theorem Follows.tail (h : Follows step ended path) :
    Follows step ended fun i => path (i + 1) := fun i => h (i + 1)

/-- The rule of the measure: a path along which it falls is ended at some point. -/
theorem ends_of_falling {β : Type v} {lt : β → β → Prop} (wf : WellFounded lt) (measure : σ → β)
    {inv : σ → Prop} (falls : ∀ s s', inv s → step s s' → inv s' ∧ lt (measure s') (measure s))
    (start : inv (path 0)) (follows : Follows step ended path) : ∃ i, ended (path i) := by
  generalize first : measure (path 0) = m
  induction m using wf.induction generalizing path with
  | _ m ih =>
    subst first
    rcases follows 0 with done | one
    · exact ⟨0, done⟩
    · obtain ⟨kept, less⟩ := falls _ _ start one
      obtain ⟨i, done⟩ := ih _ less kept follows.tail rfl
      exact ⟨i + 1, done⟩

/-- Three numbers, the first one counting most. -/
def Less : Nat × Nat × Nat → Nat × Nat × Nat → Prop :=
  Prod.Lex (· < ·) (Prod.Lex (· < ·) (· < ·))

theorem less_wf : WellFounded Less :=
  (Nat.lt_wfRel.wf).prod_lex ((Nat.lt_wfRel.wf).prod_lex Nat.lt_wfRel.wf)

variable {a a' b b' c c' : Nat}

theorem Less.first (h : a' < a) : Less (a', b', c') (a, b, c) := .left _ _ h

theorem Less.second (h : a' ≤ a) (less : b' < b) : Less (a', b', c') (a, b, c) :=
  .right' _ h (.left _ _ less)

theorem Less.third (h : a' ≤ a) (less : c' < c) : Less (a', b, c') (a, b, c) :=
  .right' _ h (.right _ less)

end Paths
