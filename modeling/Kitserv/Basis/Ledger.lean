import Kitserv.Basis.Monitor
import Mathlib

/-! Accounts of resources that are taken over and given back. A monitor keeps what is owned; the
trace that it accepts is even at every end of a period, and gives back what is owned only. -/
namespace Ledger

universe u

variable {ρ : Type u}

/-- What an event does to the resources that are owned. At `settle` a period ends, and all of them
must have been given back. -/
inductive Entry (ρ : Type u) where
  | gain (r : ρ)
  | drop (r : ρ)
  | settle
  | idle
  deriving DecidableEq

variable [DecidableEq ρ]

def post (owned : List ρ) : Entry ρ → Option (List ρ)
  | .gain r => some (r :: owned)
  | .drop r => if r ∈ owned then some (owned.erase r) else none
  | .settle => if owned = [] then some [] else none
  | .idle => some owned

def gains (r : ρ) (entries : List (Entry ρ)) : Nat := entries.count (.gain r)

def drops (r : ρ) (entries : List (Entry ρ)) : Nat := entries.count (.drop r)

def Entry.Fair (owned : List ρ) (before : List (Entry ρ)) : Entry ρ → Prop
  | gain _ | idle => True
  | drop r => drops r before < owned.count r + gains r before
  | settle => ∀ r, drops r before = owned.count r + gains r before

/-- Nothing is given back that is not owned, and every period ends with everything given back. -/
def Even (owned : List ρ) (entries : List (Entry ρ)) : Prop :=
  ∀ before e after, entries = before ++ e :: after → e.Fair owned before

variable {owned left : List ρ} {e : Entry ρ} {entries : List (Entry ρ)}

theorem count_post (accepted : post owned e = some left) (r : ρ) :
    owned.count r + gains r [e] = left.count r + drops r [e] := by
  cases e with
  | gain r' =>
    cases accepted
    simp only [gains, drops, List.count_cons, List.count_nil, beq_iff_eq, Entry.gain.injEq,
      reduceCtorEq, if_false]
    omega
  | drop r' =>
    simp only [post] at accepted
    split at accepted
    · rename_i member
      cases accepted
      have some' := List.count_pos_iff.mpr member
      simp only [gains, drops, List.count_cons, List.count_nil, beq_iff_eq, Entry.drop.injEq,
        reduceCtorEq, if_false, List.count_erase]
      by_cases same : r' = r
      · subst same
        simp only [if_true]
        omega
      · simp only [same, if_false]
        omega
    · cases accepted
  | settle =>
    simp only [post] at accepted
    split at accepted
    · rename_i none
      cases accepted
      rw [none]
      rfl
    · cases accepted
  | idle =>
    cases accepted
    rfl

theorem fair_of_post (accepted : post owned e = some left) : e.Fair owned [] := by
  cases e with
  | gain | idle => trivial
  | drop r =>
    simp only [post] at accepted
    split at accepted
    · rename_i member
      exact Nat.lt_of_lt_of_le (List.count_pos_iff.mpr member) (Nat.le_add_right ..)
    · cases accepted
  | settle =>
    simp only [post] at accepted
    split at accepted
    · rename_i none
      intro r
      rw [none]
      rfl
    · cases accepted

theorem post_of_fair (fair : e.Fair owned []) : ∃ left, post owned e = some left := by
  cases e with
  | gain r => exact ⟨r :: owned, rfl⟩
  | idle => exact ⟨owned, rfl⟩
  | drop r =>
    have member : r ∈ owned := List.count_pos_iff.mp (Nat.lt_of_lt_of_le fair (Nat.le_refl _))
    exact ⟨owned.erase r, if_pos member⟩
  | settle =>
    have none : owned = [] := List.eq_nil_iff_forall_not_mem.mpr fun r member =>
      Nat.lt_irrefl 0 (Nat.lt_of_lt_of_eq (List.count_pos_iff.mpr member) (fair r).symm)
    exact ⟨[], if_pos none⟩

theorem fair_cons {first : Entry ρ} (accepted : post owned first = some left)
    (before : List (Entry ρ)) : e.Fair owned (first :: before) ↔ e.Fair left before := by
  have counted (r : ρ) := count_post accepted r
  simp only [gains, drops, List.count_cons, List.count_nil] at counted
  cases e with
  | gain | idle => exact Iff.rfl
  | drop r =>
    have counted := counted r
    simp only [Entry.Fair, gains, drops, List.count_cons]
    omega
  | settle =>
    simp only [Entry.Fair, gains, drops, List.count_cons]
    refine forall_congr' fun r => ?_
    have counted := counted r
    omega

/-- The monitor accepts the traces that are even, and no others. -/
theorem even_iff : Even owned entries ↔ (Monitor.run post owned entries).isSome = true := by
  induction entries generalizing owned with
  | nil =>
    refine ⟨fun _ => rfl, fun _ before e after split => ?_⟩
    exact absurd split (by simp)
  | cons first rest ih =>
    rw [Monitor.run_cons]
    constructor
    · intro even
      obtain ⟨left, accepted⟩ := post_of_fair (even [] first rest rfl)
      rw [accepted, Option.bind_some]
      refine ih.mp fun before e after split => ?_
      have fair := even (first :: before) e after (by rw [split, List.cons_append])
      exact (fair_cons accepted before).mp fair
    · intro isSome
      obtain ⟨left, accepted⟩ : ∃ left, post owned first = some left := by
        cases step : post owned first with
        | none =>
          rw [step] at isSome
          cases isSome
        | some left => exact ⟨left, rfl⟩
      rw [accepted, Option.bind_some] at isSome
      intro before e after split
      cases before with
      | nil =>
        cases split
        exact fair_of_post accepted
      | cons e' before =>
        obtain ⟨rfl, rest⟩ := List.cons.inj split
        exact (fair_cons accepted before).mpr (ih.mpr isSome before e after rest)

end Ledger
