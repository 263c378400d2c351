import Mathlib

/-! A barrier that a counted number of parties pass together. Whoever arrives waits for the end of
the round, and the arrival that completes the count ends it for everybody who waits. -/
namespace Barrier

universe u v

/-- Where a party is. -/
inductive Place where
  | before
  | waiting (round : Nat)
  | past
  deriving DecidableEq, Repr

/-- The places of the parties, the arrivals of the round that is going on, and its number. -/
structure State (ι : Type u) where
  place : ι → Place := fun _ => .before
  arrived : Nat := 0
  round : Nat := 0

/-- The steps that are left at the barrier. -/
def Place.left : Place → Nat
  | before => 2
  | waiting _ => 1
  | past => 0

/-- When the value at one index changes, so does its share of a sum. -/
theorem sum_update {ι : Type u} {α : Type v} [DecidableEq ι] {indices : Finset ι} {i : ι}
    (weight : ι → α → Nat) (f : ι → α) (member : i ∈ indices) (a : α) :
    ∑ j ∈ indices, weight j (Function.update f i a j) + weight i (f i) =
      ∑ j ∈ indices, weight j (f j) + weight i a := by
  rw [← Finset.add_sum_erase indices _ member, ← Finset.add_sum_erase indices (fun j => weight j (f j)) member,
    Function.update_self]
  have same : ∑ j ∈ indices.erase i, weight j (Function.update f i a j) =
      ∑ j ∈ indices.erase i, weight j (f j) := by
    apply Finset.sum_congr rfl
    intro j other
    rw [Function.update_of_ne (Finset.ne_of_mem_erase other)]
  rw [same]
  omega

namespace State

variable {ι : Type u}

def arrive [DecidableEq ι] (count : Nat) (s : State ι) (i : ι) : Option (State ι) :=
  match s.place i with
  | .before =>
    let place := Function.update s.place i (.waiting s.round)
    if s.arrived + 1 = count then some { place := place, arrived := 0, round := s.round + 1 }
    else some { place := place, arrived := s.arrived + 1, round := s.round }
  | _ => none

/-- A party leaves when the round that it waits for has ended. -/
def leave [DecidableEq ι] (s : State ι) (i : ι) : Option (State ι) :=
  match s.place i with
  | .waiting round =>
    if round < s.round then some { s with place := Function.update s.place i .past } else none
  | _ => none

/-- The parties that have arrived. -/
def here (s : State ι) (parties : Finset ι) : Finset ι := parties.filter fun i => s.place i ≠ .before

def remaining (s : State ι) (parties : Finset ι) : Nat := ∑ i ∈ parties, (s.place i).left

/-- As long as somebody is missing, the others wait. -/
structure Closed (parties : Finset ι) (s : State ι) : Prop where
  round : s.round = 0
  places : ∀ i, s.place i = .before ∨ i ∈ parties ∧ s.place i = .waiting 0
  arrived : s.arrived = (s.here parties).card
  missing : s.arrived < parties.card

/-- Behind the last arrival, everybody waits for a round that has ended or is past. -/
structure Open (parties : Finset ι) (s : State ι) : Prop where
  round : s.round = 1
  inside : ∀ i ∈ parties, s.place i = .waiting 0 ∨ s.place i = .past
  outside : ∀ i, i ∉ parties → s.place i = .before

variable {parties : Finset ι} {s s' : State ι} {i j : ι}

theorem closed_start (some_party : parties.Nonempty) : Closed parties ({} : State ι) where
  round := rfl
  places _ := .inl rfl
  arrived := by
    have nobody : State.here ({} : State ι) parties = ∅ :=
      Finset.filter_false_of_mem fun _ _ different => different rfl
    rw [nobody]
    rfl
  missing := some_party.card_pos

/-- When as many are here as there are parties, everybody is. -/
theorem all_here (full : (s.here parties).card = parties.card) (member : i ∈ parties) :
    s.place i ≠ .before := by
  have all : s.here parties = parties :=
    Finset.eq_of_subset_of_card_le (Finset.filter_subset _ _) (Nat.le_of_eq full.symm)
  have inside : i ∈ s.here parties := all.symm ▸ member
  exact (Finset.mem_filter.mp inside).2

/-- The rendezvous: nobody is past the barrier before everybody has arrived. -/
theorem Closed.not_past (ok : Closed parties s) : s.place i ≠ .past := by
  intro past
  rcases ok.places i with before | ⟨-, waits⟩
  · rw [before] at past
    cases past
  · rw [waits] at past
    cases past

theorem Closed.somebody (ok : Closed parties s) : ∃ i ∈ parties, s.place i = .before := by
  by_contra nobody
  have full : s.here parties = parties := by
    apply Finset.filter_true_of_mem
    intro i member before
    exact nobody ⟨i, member, before⟩
  have missing := ok.missing
  rw [ok.arrived, full] at missing
  exact Nat.lt_irrefl _ missing

theorem remaining_start : State.remaining ({} : State ι) parties = 2 * parties.card := by
  exact (Finset.sum_const_nat (m := 2) fun _ _ => rfl).trans (Nat.mul_comm _ _)

theorem remaining_eq_zero : s.remaining parties = 0 ↔ ∀ i ∈ parties, s.place i = .past := by
  rw [remaining, Finset.sum_eq_zero_iff]
  apply forall₂_congr
  intro i _
  cases s.place i <;> simp [Place.left]

variable [DecidableEq ι] {count : Nat}

/-- What an arrival does. -/
theorem arrive_cases (h : s.arrive count i = some s') :
    s.place i = .before ∧ s'.place = Function.update s.place i (.waiting s.round) ∧
      (s.arrived + 1 = count ∧ s'.arrived = 0 ∧ s'.round = s.round + 1 ∨
        s.arrived + 1 ≠ count ∧ s'.arrived = s.arrived + 1 ∧ s'.round = s.round) := by
  unfold arrive at h
  split at h
  · rename_i before
    dsimp only at h
    split at h
    · rename_i last
      cases h
      exact ⟨before, rfl, .inl ⟨last, rfl, rfl⟩⟩
    · rename_i early
      cases h
      exact ⟨before, rfl, .inr ⟨early, rfl, rfl⟩⟩
  · cases h

theorem leave_cases (h : s.leave i = some s') :
    ∃ round < s.round, s.place i = .waiting round ∧
      s' = { s with place := Function.update s.place i .past } := by
  unfold leave at h
  split at h
  · rename_i round waits
    split at h
    · rename_i ended
      cases h
      exact ⟨round, ended, waits, rfl⟩
    · cases h
  · cases h

theorem arrive_remaining (member : i ∈ parties) (h : s.arrive count i = some s') :
    s'.remaining parties + 1 = s.remaining parties := by
  obtain ⟨before, new, -⟩ := arrive_cases h
  have moved := sum_update (fun _ => Place.left) s.place member (.waiting s.round)
  rw [before, ← new] at moved
  exact Nat.succ.inj moved

theorem leave_remaining (member : i ∈ parties) (h : s.leave i = some s') :
    s'.remaining parties + 1 = s.remaining parties := by
  obtain ⟨round, -, waits, rfl⟩ := leave_cases h
  have moved := sum_update (fun _ => Place.left) s.place member .past
  rw [waits] at moved
  exact moved

/-- Whoever is before the barrier can arrive. -/
theorem arrive_isSome (before : s.place i = .before) : (s.arrive count i).isSome := by
  simp only [arrive, before]
  split <;> rfl

/-- One more is here. -/
theorem card_here_update (member : i ∈ parties) (before : s.place i = .before)
    (new : s'.place = Function.update s.place i (.waiting 0)) :
    (s'.here parties).card = (s.here parties).card + 1 := by
  have more : s'.here parties = insert i (s.here parties) := by
    ext j
    simp only [here, new, Finset.mem_filter, Finset.mem_insert]
    by_cases same : j = i
    · subst same
      simp only [Function.update_self, ne_eq, reduceCtorEq, not_false_eq_true, and_true, true_or,
        iff_true]
      exact member
    · rw [Function.update_of_ne same]
      simp only [same, false_or]
  have absent : i ∉ s.here parties := by
    intro inside
    exact (Finset.mem_filter.mp inside).2 before
  rw [more, Finset.card_insert_of_notMem absent]

/-- An arrival before the last one leaves the barrier closed, and the last one opens it. -/
theorem Closed.arrive (ok : Closed parties s) (member : i ∈ parties)
    (h : s.arrive parties.card i = some s') : Closed parties s' ∨ Open parties s' := by
  obtain ⟨before, new, step⟩ := arrive_cases h
  rw [ok.round] at new step
  have more : (s'.here parties).card = s.arrived + 1 := by
    rw [card_here_update member before new, ok.arrived]
  have moved : ∀ j, s'.place j = .before ∨ j ∈ parties ∧ s'.place j = .waiting 0 := by
    intro j
    rw [new]
    by_cases same : j = i
    · subst same
      exact .inr ⟨member, Function.update_self ..⟩
    · rw [Function.update_of_ne same]
      exact ok.places j
  rcases step with ⟨last, -, round⟩ | ⟨early, arrived, round⟩
  · refine .inr { round := round, inside := ?_, outside := ?_ }
    · intro j inside
      have here := all_here (more.trans last) inside
      rcases moved j with absent | ⟨-, waits⟩
      · exact absurd absent here
      · exact .inl waits
    · intro j outside
      rcases moved j with absent | ⟨inside, -⟩
      · exact absent
      · exact absurd inside outside
  · refine .inl { round := round, places := moved, arrived := arrived.trans more.symm, missing := ?_ }
    rw [arrived]
    exact Nat.lt_of_le_of_ne ok.missing early

/-- Nobody leaves a closed barrier. -/
theorem Closed.not_leave (ok : Closed parties s) : s.leave i ≠ some s' := by
  intro h
  obtain ⟨round, ended, -⟩ := leave_cases h
  rw [ok.round] at ended
  cases ended

/-- Nobody arrives at an open one. -/
theorem Open.not_arrive (ok : Open parties s) (member : i ∈ parties) :
    s.arrive count i ≠ some s' := by
  intro h
  obtain ⟨before, -⟩ := arrive_cases h
  rcases ok.inside i member with waits | past
  · rw [before] at waits
    cases waits
  · rw [before] at past
    cases past

theorem Open.leave (ok : Open parties s) (h : s.leave i = some s') : Open parties s' := by
  obtain ⟨round, -, waits, rfl⟩ := leave_cases h
  have member : i ∈ parties := by
    by_contra outside
    rw [ok.outside i outside] at waits
    cases waits
  refine { round := ok.round, inside := ?_, outside := ?_ }
  · intro j inside
    by_cases same : j = i
    · subst same
      exact .inr (Function.update_self ..)
    · simp only [Function.update_of_ne same]
      exact ok.inside j inside
  · intro j outside
    have other : j ≠ i := by
      rintro rfl
      exact outside member
    simp only [Function.update_of_ne other]
    exact ok.outside j outside

/-- Whoever waits at an open barrier can leave it. -/
theorem Open.goes (ok : Open parties s) (waits : s.place i = .waiting 0) : (s.leave i).isSome := by
  have ended : 0 < s.round := by
    rw [ok.round]
    exact Nat.one_pos
  simp only [State.leave, waits, ended, if_true, Option.isSome_some]

end State

end Barrier
