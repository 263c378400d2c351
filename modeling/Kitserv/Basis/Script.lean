import Mathlib

namespace Script

variable {σ ι ρ : Type*} (step : ι → σ → ρ × σ)

def runs : List ι → σ → List (ρ × σ)
  | [], _ => []
  | i :: is, s => step i s :: runs is (step i s).2

def final : List ι → σ → σ
  | [], s => s
  | i :: is, s => final is (step i s).2

def Meets (P : ι → σ → Prop) : List ι → σ → Prop
  | [], _ => True
  | i :: is, s => P i s ∧ Meets P is (step i s).2

variable {step} {P : ι → σ → Prop} {Good : ρ × σ → Prop} {Inv : σ → Prop}

theorem good_of_meets (ok : ∀ i s, Inv s → P i s → Good (step i s) ∧ Inv (step i s).2) :
    ∀ {is : List ι} {s : σ}, Inv s → Meets step P is s → ∀ r ∈ runs step is s, Good r
  | [], _, _, _ => by simp [runs]
  | i :: is, s, inv, ⟨here, later⟩ => by
    obtain ⟨good, inv'⟩ := ok i s inv here
    intro r hr
    rcases List.mem_cons.mp hr with rfl | hr
    · exact good
    · exact good_of_meets ok inv' later r hr

theorem good_iff_meets (exact_step : ∀ i s, Inv s → (Good (step i s) ↔ P i s))
    (keeps : ∀ i s, Inv s → Good (step i s) → Inv (step i s).2) :
    ∀ {is : List ι} {s : σ}, Inv s → ((∀ r ∈ runs step is s, Good r) ↔ Meets step P is s)
  | [], _, _ => by simp [runs, Meets]
  | i :: is, s, inv => by
    constructor
    · intro all
      have here : Good (step i s) := all _ (by simp [runs])
      refine ⟨(exact_step i s inv).mp here, ?_⟩
      refine (good_iff_meets exact_step keeps (keeps i s inv here)).mp ?_
      exact fun r hr => all r (List.mem_cons_of_mem _ hr)
    · rintro ⟨here, later⟩
      have good := (exact_step i s inv).mpr here
      intro r hr
      rcases List.mem_cons.mp hr with rfl | hr
      · exact good
      · exact (good_iff_meets exact_step keeps (keeps i s inv good)).mpr later r hr

end Script
