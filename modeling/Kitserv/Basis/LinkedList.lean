import Mathlib

/-! Singly linked lists in a store: `next i` is the link of the node `i`, and `none` where the
store has no node. A link `none` ends the list. -/
namespace LinkedList

/-- The nodes on the way from a link to the end of its list. -/
inductive Linked (next : Nat → Option (Option Nat)) : Option Nat → List Nat → Prop where
  | nil : Linked next none []
  | cons {i : Nat} {link : Option Nat} {rest : List Nat} (node : next i = some link)
      (tail : Linked next link rest) : Linked next (some i) (i :: rest)

namespace Linked

variable {next next' : Nat → Option (Option Nat)} {link : Option Nat} {nodes nodes' : List Nat}

theorem some_iff {i : Nat} : Linked next (some i) nodes ↔
    ∃ link rest, nodes = i :: rest ∧ next i = some link ∧ Linked next link rest := by
  constructor
  · rintro (_ | ⟨node, tail⟩)
    exact ⟨_, _, rfl, node, tail⟩
  · rintro ⟨link, rest, rfl, node, tail⟩
    exact cons node tail

theorem frame (h : Linked next link nodes) (same : ∀ i ∈ nodes, next' i = next i) :
    Linked next' link nodes := by
  induction h with
  | nil => exact nil
  | cons node tail ih =>
    have first := same _ (List.mem_cons_self ..)
    exact cons (first.trans node) (ih fun i member => same i (List.mem_cons_of_mem _ member))

theorem range_iff {i n : Nat} (steps : ∀ j < n, next (i + j) = some (some (i + j + 1))) :
    Linked next (some i) nodes ↔
      ∃ rest, nodes = List.range' i n ++ rest ∧ Linked next (some (i + n)) rest := by
  induction n generalizing i nodes with
  | zero => simp
  | succ n ih =>
    have first := steps 0 (Nat.succ_pos n)
    have later := @ih nodes.tail (i + 1) fun j lt => by
      have step := steps (j + 1) (Nat.succ_lt_succ lt)
      rwa [show i + (j + 1) = i + 1 + j by omega] at step
    rw [show i + 1 + n = i + (n + 1) by omega] at later
    rw [some_iff]
    constructor
    · rintro ⟨link, rest, rfl, node, tail⟩
      cases first.symm.trans node
      obtain ⟨rest', same, linked⟩ := later.mp tail
      exact ⟨rest', congrArg (i :: ·) same, linked⟩
    · rintro ⟨rest, rfl, linked⟩
      exact ⟨_, _, rfl, first, later.mpr ⟨rest, rfl, linked⟩⟩

end Linked

/-- The nodes on the way from a link to another one, `last`. -/
inductive Segment (next : Nat → Option (Option Nat)) : Option Nat → List Nat → Option Nat → Prop where
  | nil {last : Option Nat} : Segment next last [] last
  | cons {i : Nat} {link last : Option Nat} {rest : List Nat} (node : next i = some link)
      (tail : Segment next link rest last) : Segment next (some i) (i :: rest) last

namespace Segment

variable {next next' : Nat → Option (Option Nat)} {link last : Option Nat} {nodes : List Nat}

theorem nil_iff : Segment next link [] last ↔ link = last := by
  constructor
  · rintro ⟨⟩
    rfl
  · rintro rfl
    exact nil

theorem cons_iff {i : Nat} : Segment next link (i :: nodes) last ↔
    ∃ link', link = some i ∧ next i = some link' ∧ Segment next link' nodes last := by
  constructor
  · rintro (_ | ⟨node, tail⟩)
    exact ⟨_, rfl, node, tail⟩
  · rintro ⟨link', rfl, node, tail⟩
    exact cons node tail

theorem none_iff : Segment next link nodes none ↔ Linked next link nodes := by
  constructor
  · generalize ends : none = last
    intro segment
    induction segment with
    | nil =>
      cases ends
      exact .nil
    | cons node tail ih => exact .cons node (ih ends)
  · intro linked
    induction linked with
    | nil => exact nil
    | cons node tail ih => exact cons node ih

theorem frame (h : Segment next link nodes last) (same : ∀ i ∈ nodes, next' i = next i) :
    Segment next' link nodes last := by
  induction h with
  | nil => exact nil
  | cons node tail ih =>
    have first := same _ (List.mem_cons_self ..)
    exact cons (first.trans node) (ih fun i member => same i (List.mem_cons_of_mem _ member))

theorem range {i n : Nat} (steps : ∀ j < n, next (i + j) = some (some (i + j + 1)))
    (rest : Segment next (some (i + n)) nodes last) :
    Segment next (some i) (List.range' i n ++ nodes) last := by
  induction n generalizing i with
  | zero => exact rest
  | succ n ih =>
    have first := steps 0 (Nat.succ_pos n)
    refine cons first (ih (fun j lt => ?_) ?_)
    · have step := steps (j + 1) (Nat.succ_lt_succ lt)
      rwa [show i + (j + 1) = i + 1 + j by omega] at step
    · rwa [show i + 1 + n = i + (n + 1) by omega]

end Segment

end LinkedList
