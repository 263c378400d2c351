import Kitserv.HolderSteps

namespace Kitserv

open LinkedList

def ConnectionContainer.walk (container : ConnectionContainer) : Nat → Link → List Nat
  | 0, _ | _ + 1, none => []
  | n + 1, some i => i :: container.walk n ((container.next i).getD none)

def ConnectionContainer.freeSlots (container : ConnectionContainer) : List Nat :=
  container.walk container.freelistCount.toNat container.firstFreeConn

theorem walk_segment {container : ConnectionContainer} {link last : Link} {nodes : List Nat}
    (h : Segment container.next link nodes last) : container.walk nodes.length link = nodes := by
  induction h with
  | nil => rfl
  | cons node tail ih => simp only [List.length_cons, ConnectionContainer.walk, node, Option.getD_some, ih]

theorem FreeChain.freeSlots {n : Nat} {used : Nat → Prop} {container : ConnectionContainer}
    {free : List Nat} {last : Link} (h : FreeChain n used container free last) :
    container.freeSlots = free := by
  rw [ConnectionContainer.freeSlots, h.count, Int.toNat_natCast, walk_segment h.segment]

def WorkerThread.drops (i : Nat) : WorkerThread → Prop
  | serving _ => False
  | removing conn _ | closing conn _ | releasing conn _ => conn = i

/-- A thread is in the middle of an accept or of an event with the slot `i` of the worker `w`. -/
def Threads.Busy (s : Threads) (w i : Nat) : Prop :=
  (∃ a fd, s.accepters a = .adding fd w i) ∨
    ∃ worker, s.workers[w]? = some worker ∧ worker.thread.drops i

/-- The slot belongs to exactly one socket that is open and registered with the queue of the worker. -/
def Threads.Belongs (s : Threads) (worker : Worker) (i : Nat) : Prop :=
  ∃! fd, s.isOpen fd = true ∧ worker.queue fd = some i

def Threads.Settled (s : Threads) : Prop := ∀ w i, ¬ s.Busy w i

/-- Every slot that is not on the free list of its worker belongs to a socket. -/
def Threads.NoneLost (s : Threads) : Prop :=
  ∀ (w : Nat) worker, s.workers[w]? = some worker → ∀ i < worker.container.connections.length,
    i ∉ worker.container.freeSlots → s.Belongs worker i

/-- The same, but for the slots that a thread in the middle of a step has in its hands. -/
def Threads.Accounted (s : Threads) : Prop :=
  ∀ (w : Nat) worker, s.workers[w]? = some worker → ∀ i < worker.container.connections.length,
    i ∉ worker.container.freeSlots → s.Busy w i ∨ s.Belongs worker i

theorem Tracks.accounted {memory : List (List RawSlot)} {holders : Holders} {s : Threads}
    (t : Tracks memory holders s) (whole : holders.Whole) : s.Accounted := by
  intro w worker found i inside taken
  obtain ⟨slots, slotsAt⟩ := t.slots found
  have tracks := t.workers w slots worker slotsAt found
  obtain ⟨free, chain⟩ := tracks.chain
  rw [chain.freeSlots] at taken
  have used : UsedSlot holders w worker i := by
    rw [chain.size] at inside
    exact Classical.byContradiction fun unused => taken ((chain.member i).mpr ⟨inside, unused⟩)
  rcases used with ⟨fd, h, held, slot⟩ | ⟨events, releasing⟩
  · cases h with
    | accepter a => cases slot
    | assigned a v j =>
      cases slot
      exact .inl (.inl ⟨a, fd, t.assigned fd a w i held⟩)
    | registered v j =>
      cases slot
      refine .inr ⟨fd, ⟨?_, (tracks.queue fd i).mpr held⟩, fun fd' other => ?_⟩
      · rw [t.isOpen, held, Option.isSome_some]
      · exact tracks.same_socket ⟨_, (tracks.queue fd' i).mp other.2, rfl⟩ ⟨_, held, rfl⟩
    | dropped v j =>
      cases slot
      obtain ⟨events, closing⟩ := tracks.dropped fd i held
      exact .inl (.inr ⟨worker, found, by rw [closing]; rfl⟩)
    | lost v j =>
      cases slot
      exact absurd held (whole fd w i)
  · exact .inl (.inr ⟨worker, found, by rw [releasing]; rfl⟩)

theorem Tracks.not_accounted {memory : List (List RawSlot)} {holders : Holders} {s : Threads} {fd : Int}
    {w i : Nat} {worker : Worker} (t : Tracks memory holders s) (found : s.workers[w]? = some worker)
    (lost : holders fd = some (.lost w i)) : ¬ s.Accounted := by
  intro accounted
  obtain ⟨slots, slotsAt⟩ := t.slots found
  have tracks := t.workers w slots worker slotsAt found
  have here : holders.At fd w i := ⟨_, lost, rfl⟩
  -- no other holder has a socket for this slot
  have alone {fd' : Int} {h : Holder} (held : holders fd' = some h) (slot : h.slot = some (w, i)) :
      h = .lost w i := by
    cases tracks.same_socket here ⟨h, held, slot⟩
    exact Option.some.inj (held.symm.trans lost)
  obtain ⟨conn, slot, -⟩ := tracks.sock fd i here
  obtain ⟨inside, -⟩ := List.getElem?_eq_some_iff.mp slot
  obtain ⟨free, chain⟩ := tracks.chain
  have taken : i ∉ worker.container.freeSlots := by
    rw [chain.freeSlots]
    exact fun member => ((chain.member i).mp member).2 (.inl ⟨fd, here⟩)
  rcases accounted w worker found i inside taken with (⟨a, fd', adds⟩ | ⟨worker', found', drops⟩) | belongs
  · have hand := t.hand a
    rw [adds] at hand
    cases alone hand rfl
  · cases found.symm.trans found'
    cases thread : worker.thread with
    | serving events =>
      rw [thread] at drops
      exact drops
    | removing j events =>
      rw [thread] at drops
      cases drops
      obtain ⟨fd', held⟩ := tracks.pending i (by simp [thread, WorkerThread.pending])
      cases alone held rfl
    | closing j events =>
      rw [thread] at drops
      cases drops
      obtain ⟨fd', held⟩ := tracks.closing i events thread
      cases alone held rfl
    | releasing j events =>
      rw [thread] at drops
      cases drops
      exact (tracks.releasing i events thread).2 fd here
  · obtain ⟨fd', ⟨-, registered⟩, -⟩ := belongs
    cases alone ((tracks.queue fd' i).mp registered) rfl

theorem Threads.Accounted.noneLost {s : Threads} (h : s.Accounted) (settled : s.Settled) :
    s.NoneLost := fun w worker found i inside taken =>
  (h w worker found i inside taken).resolve_left (settled w i)

def Registers (actions : List Action) : Prop := ∀ action ∈ actions, ∀ a, action ≠ .add a false

theorem run_accounted {memory : List (List RawSlot)} {actions : List Action} {s : Threads}
    (run : Monitor.run Threads.step (.start memory) actions = some s) (registers : Registers actions) :
    s.Accounted := by
  have keep (s : Threads) (action : Action) (s' : Threads)
      (tracked : ∃ holders, Tracks memory holders s ∧ holders.Whole)
      (registers : ∀ a, action ≠ .add a false) (step : s.step action = some s') :
      ∃ holders, Tracks memory holders s' ∧ holders.Whole := by
    obtain ⟨holders, tracks, whole⟩ := tracked
    obtain ⟨holders', tracks', whole'⟩ := tracks.step step
    exact ⟨holders', tracks', whole' registers whole⟩
  have start : ∃ holders, Tracks memory holders (.start memory) ∧ holders.Whole :=
    ⟨_, Tracks.start memory, by simp [Holders.Whole]⟩
  obtain ⟨holders, tracks, whole⟩ := Monitor.run_keeps keep start run registers
  exact tracks.accounted whole

/-- No slot is lost in any state of a run exactly if every registration succeeds. -/
theorem no_slot_lost_iff {memory : List (List RawSlot)} {actions : List Action} {s : Threads}
    (run : Monitor.run Threads.step (.start memory) actions = some s) :
    (∀ n s', Monitor.run Threads.step (.start memory) (actions.take n) = some s' → s'.Accounted) ↔
      Registers actions := by
  constructor
  · intro accounted action member a failed
    subst failed
    obtain ⟨before, after, rfl⟩ := List.append_of_mem member
    rw [Monitor.run_append] at run
    obtain ⟨s₀, early, later⟩ := Option.bind_eq_some_iff.mp run
    obtain ⟨s', step, -⟩ := Option.bind_eq_some_iff.mp later
    obtain ⟨holders, tracks⟩ := run_tracked early
    obtain ⟨holders', tracks', -, lost⟩ := tracks.add step
    obtain ⟨fd, w, i, worker, found, lost⟩ := lost rfl
    refine tracks'.not_accounted found lost (accounted (before.length + 1) s' ?_)
    have front : (before ++ Action.add a false :: after).take (before.length + 1) =
        before ++ [.add a false] := by
      simp [List.take_append, List.take_of_length_le]
    rw [front, Monitor.run_append_of early, Monitor.run_cons, step]
    rfl
  · intro registers n s' early
    exact run_accounted early fun action member => registers action (List.mem_of_mem_take member)

def acceptOnce (ok : Bool) : List Action := [.accept 0 5, .score 0, .take 0, .add 0 ok]

theorem no_slot_lost_iff_once :
    (∀ n s', Monitor.run Threads.step (.start [[rawSlot none]]) ((acceptOnce true).take n) = some s' →
      s'.Accounted) ↔ Registers (acceptOnce true) := by
  have reached : (Monitor.run Threads.step (.start [[rawSlot none]]) (acceptOnce true)).isSome = true := by
    decide +kernel
  obtain ⟨s, run⟩ := Option.isSome_iff_exists.mp reached
  exact no_slot_lost_iff run

/-- A registration that fails: the accept is over, the only slot is neither free nor of a socket
that the worker will hear of, and the socket stays open. -/
theorem failed_registration_loses_slot : ∃ s,
    Monitor.run Threads.step (.start [[rawSlot none]]) (acceptOnce false) = some s ∧ s.Settled ∧
      s.isOpen 5 = true ∧ ¬ s.NoneLost := by
  refine ⟨_, rfl, ?_, rfl, fun kept => ?_⟩
  · rintro w i (⟨a, fd, adds⟩ | ⟨worker, found, drops⟩)
    · cases a <;> cases adds
    · cases w with
      | zero =>
        cases found
        cases drops
      | succ w => cases found
  · obtain ⟨fd, ⟨-, registered⟩, -⟩ := kept 0 _ rfl 0 (by decide) (by decide)
    cases registered

end Kitserv
