import Mathlib

namespace Logged

universe u

variable {ε α β : Type u}

def value (x : Writer (List ε) α) : α := (WriterT.run x).1

def log (x : Writer (List ε) α) : List ε := (WriterT.run x).2

section Values

variable (x y : Writer (List ε) α) (f : α → Writer (List ε) β)

@[simp] theorem value_pure (a : α) : value (pure a : Writer (List ε) α) = a := rfl

@[simp] theorem value_bind : value (x >>= f) = value (f (value x)) := rfl

@[simp] theorem value_ite (c : Prop) {_ : Decidable c} :
    value (if c then x else y) = if c then value x else value y := apply_ite value c x y

@[simp] theorem log_pure (a : α) : log (pure a : Writer (List ε) α) = [] := rfl

@[simp] theorem log_tell (entries : List ε) :
    log (tell entries : Writer (List ε) PUnit) = entries := rfl

@[simp] theorem log_bind : log (x >>= f) = log x ++ log (f (value x)) := rfl

end Values

/-- Every entry of the log satisfies `entry`, and the result satisfies `result`. -/
structure Emits (entry : ε → Prop) (result : α → Prop) (x : Writer (List ε) α) : Prop where
  entries : ∀ e ∈ log x, entry e
  returns : result (value x)

section Rules

variable {entry : ε → Prop} {result result' : α → Prop} {after : β → Prop}
  {x y : Writer (List ε) α} {f : α → Writer (List ε) β}

theorem Emits.pure {a : α} (h : result a) : Emits entry result (pure a : Writer (List ε) α) :=
  ⟨by simp, h⟩

theorem Emits.tell {entries : List ε} (h : ∀ e ∈ entries, entry e) :
    Emits entry (fun _ => True) (tell entries : Writer (List ε) PUnit) :=
  ⟨h, trivial⟩

theorem Emits.bind (first : Emits entry result x)
    (second : ∀ a, result a → Emits entry after (f a)) : Emits entry after (x >>= f) := by
  have later := second (value x) first.returns
  refine ⟨fun e member => ?_, later.returns⟩
  rw [log_bind, List.mem_append] at member
  rcases member with before | behind
  · exact first.entries e before
  · exact later.entries e behind

theorem Emits.ite {c : Prop} {_ : Decidable c} (yes : c → Emits entry result x)
    (no : ¬ c → Emits entry result y) : Emits entry result (if c then x else y) := by
  split
  · rename_i holds
    exact yes holds
  · rename_i fails
    exact no fails

theorem Emits.mono (h : Emits entry result x) (weaker : ∀ a, result a → result' a) :
    Emits entry result' x :=
  ⟨h.entries, weaker _ h.returns⟩

/-- A result that is known otherwise. -/
theorem Emits.exactly (h : Emits entry result x) {a : α} (same : value x = a) :
    Emits entry (fun b => b = a) x :=
  ⟨h.entries, same⟩

end Rules

end Logged
