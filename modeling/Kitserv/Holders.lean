import Kitserv.Workers
import Mathlib

/-! Who has an open socket, and the slot that goes with it. Nothing in kitserv.c stores this: the
local variables, the queues and the free lists of the threads agree with it in every state. -/
namespace Kitserv

open LinkedList

/-- Where an open socket is: with an accepter, alone or with a slot, registered with the queue of a
worker, taken out of it to be closed, or with nobody. -/
inductive Holder where
  | accepter (a : Nat)
  | assigned (a w i : Nat)
  | registered (w i : Nat)
  | dropped (w i : Nat)
  | lost (w i : Nat)
  deriving DecidableEq, Repr

def Holder.slot : Holder → Option (Nat × Nat)
  | accepter _ => none
  | assigned _ w i | registered w i | dropped w i | lost w i => some (w, i)

abbrev Holders := Int → Option Holder

def Holders.At (holders : Holders) (fd : Int) (w i : Nat) : Prop :=
  ∃ h, holders fd = some h ∧ h.slot = some (w, i)

def WorkerThread.pending : WorkerThread → List Nat
  | serving events | closing _ events | releasing _ events => events
  | removing conn events => conn :: events

/-- A slot is in use as long as it has a socket, and until its worker has released it. -/
def UsedSlot (holders : Holders) (w : Nat) (worker : Worker) (i : Nat) : Prop :=
  (∃ fd, holders.At fd w i) ∨ ∃ events, worker.thread = .releasing i events

structure WorkerTracks (n : Nat) (last : Link) (holders : Holders) (w : Nat) (worker : Worker) :
    Prop where
  queue : ∀ fd i, worker.queue fd = some i ↔ holders fd = some (.registered w i)
  once : worker.thread.pending.Nodup
  pending : ∀ i ∈ worker.thread.pending, ∃ fd, holders fd = some (.registered w i)
  dropped : ∀ fd i, holders fd = some (.dropped w i) → ∃ events, worker.thread = .closing i events
  closing : ∀ i events, worker.thread = .closing i events → ∃ fd, holders fd = some (.dropped w i)
  releasing : ∀ i events, worker.thread = .releasing i events → i < n ∧ ∀ fd, ¬ holders.At fd w i
  sock : ∀ fd i, holders.At fd w i →
    ∃ conn, worker.container.connections[i]? = some conn ∧ conn.sockfd = fd
  chain : ∃ free, FreeChain n (UsedSlot holders w worker) worker.container free last

def Hand (holders : Holders) (a : Nat) : AccepterThread → Prop
  | .accepting => True
  | .selecting fd _ _ _ | .refusing fd => holders fd = some (.accepter a)
  | .adding fd w i => holders fd = some (.assigned a w i)

structure Tracks (memory : List (List RawSlot)) (holders : Holders) (s : Threads) : Prop where
  size : s.workers.length = memory.length
  isOpen : ∀ fd, s.isOpen fd = (holders fd).isSome
  hand : ∀ a, Hand holders a (s.accepters a)
  assigned : ∀ fd a w i, holders fd = some (.assigned a w i) → s.accepters a = .adding fd w i
  workers : ∀ w slots worker, memory[w]? = some slots → s.workers[w]? = some worker →
    WorkerTracks slots.length (endLink slots) holders w worker

section Frame

variable {holders holders' : Holders} {n w : Nat} {last : Link} {worker : Worker} {fd : Int}
  {x : Option Holder}

theorem WorkerTracks.congr (h : WorkerTracks n last holders w worker)
    (same : ∀ fd h i, Holder.slot h = some (w, i) → (holders' fd = some h ↔ holders fd = some h)) :
    WorkerTracks n last holders' w worker := by
  have at_iff (fd : Int) (i : Nat) : holders'.At fd w i ↔ holders.At fd w i := by
    constructor
    · rintro ⟨h, here, slot⟩
      exact ⟨h, (same fd h i slot).mp here, slot⟩
    · rintro ⟨h, here, slot⟩
      exact ⟨h, (same fd h i slot).mpr here, slot⟩
  obtain ⟨free, chain⟩ := h.chain
  refine ⟨fun fd i => ?_, h.once, fun i member => ?_, fun fd i here => ?_, fun i events closing => ?_,
    fun i events releasing => ?_, fun fd i here => h.sock fd i ((at_iff fd i).mp here), free,
    chain.congr fun i => ?_⟩
  · rw [same fd _ i rfl]
    exact h.queue fd i
  · obtain ⟨fd, here⟩ := h.pending i member
    exact ⟨fd, (same fd _ i rfl).mpr here⟩
  · exact h.dropped fd i ((same fd _ i rfl).mp here)
  · obtain ⟨fd, here⟩ := h.closing i events closing
    exact ⟨fd, (same fd _ i rfl).mpr here⟩
  · obtain ⟨lt, none⟩ := h.releasing i events releasing
    exact ⟨lt, fun fd here => none fd ((at_iff fd i).mp here)⟩
  · simp only [UsedSlot, at_iff]

theorem update_some {fd' : Int} {h : Holder} : Function.update holders fd x fd' = some h ↔
    fd' = fd ∧ x = some h ∨ fd' ≠ fd ∧ holders fd' = some h := by
  by_cases same : fd' = fd
  · subst same
    simp
  · simp [same]

theorem WorkerTracks.frame (h : WorkerTracks n last holders w worker)
    (old : ∀ i, ¬ holders.At fd w i) (new : ∀ h i, x = some h → h.slot ≠ some (w, i)) :
    WorkerTracks n last (Function.update holders fd x) w worker := by
  refine h.congr fun fd' h i slot => ?_
  rw [update_some]
  constructor
  · rintro (⟨-, here⟩ | ⟨-, here⟩)
    · exact absurd slot (new h i here)
    · exact here
  · intro here
    refine .inr ⟨?_, here⟩
    rintro rfl
    exact old i ⟨h, here, slot⟩

theorem Hand.frame {b : Nat} {thread : AccepterThread} (h : Hand holders b thread)
    (alone : holders fd ≠ some (.accepter b)) (assigned : ∀ w i, holders fd ≠ some (.assigned b w i)) :
    Hand (Function.update holders fd x) b thread := by
  have other {fd' : Int} {h : Holder} (here : holders fd' = some h) (differs : holders fd ≠ some h) :
      Function.update holders fd x fd' = some h := by
    refine update_some.mpr (.inr ⟨?_, here⟩)
    rintro rfl
    exact differs here
  cases thread with
  | accepting => trivial
  | selecting fd' i best score => exact other h alone
  | adding fd' w i => exact other h (assigned w i)
  | refusing fd' => exact other h alone

end Frame

section Workers

variable {holders : Holders} {a w : Nat} {worker : Worker} {fd : Int}

theorem WorkerTracks.take {n i : Nat} {last : Link} {free : List Nat}
    (h : WorkerTracks n last holders w worker) (held : holders fd = some (.accepter a))
    (chain : FreeChain n (UsedSlot holders w worker) worker.container (i :: free) last) :
    ∃ container, connectionAccept worker.container fd = some (some i, container) ∧
      WorkerTracks n last (Function.update holders fd (some (.assigned a w i))) w
        { worker with container := container } := by
  obtain ⟨conn, slot, accepted, taken⟩ := chain.take fd
  obtain ⟨lt, unused⟩ := (chain.member i).mp (List.mem_cons_self ..)
  refine ⟨_, accepted, ?_⟩
  have inside : i < worker.container.connections.length := by rwa [chain.size]
  -- the sockets of the other slots stay where they are
  have kept {fd' : Int} {h : Holder} (other : ∀ b v j, h ≠ .assigned b v j) (mine : h ≠ .accepter a) :
      Function.update holders fd (some (.assigned a w i)) fd' = some h ↔ holders fd' = some h := by
    rw [update_some]
    constructor
    · rintro (⟨-, here⟩ | ⟨-, here⟩)
      · cases here
        exact absurd rfl (other a w i)
      · exact here
    · intro here
      refine .inr ⟨?_, here⟩
      rintro rfl
      cases held.symm.trans here
      exact mine rfl
  have at_iff (fd' : Int) (j : Nat) :
      Holders.At (Function.update holders fd (some (.assigned a w i))) fd' w j ↔
        fd' = fd ∧ j = i ∨ holders.At fd' w j := by
    constructor
    · rintro ⟨h, here, slot⟩
      rcases update_some.mp here with ⟨same, here⟩ | ⟨-, here⟩
      · cases here
        cases slot
        exact .inl ⟨same, rfl⟩
      · exact .inr ⟨h, here, slot⟩
    · rintro (⟨rfl, rfl⟩ | ⟨h, here, slot⟩)
      · exact ⟨_, Function.update_self .., rfl⟩
      · refine ⟨h, update_some.mpr (.inr ⟨?_, here⟩), slot⟩
        rintro rfl
        cases held.symm.trans here
        cases slot
  refine ⟨fun fd' j => ?_, h.once, fun j member => ?_, fun fd' j here => ?_, fun j events closing => ?_,
    fun j events releasing => ?_, fun fd' j here => ?_, free, taken.congr fun j => ?_⟩
  · rw [kept (by simp) (by simp)]
    exact h.queue fd' j
  · obtain ⟨fd', here⟩ := h.pending j member
    exact ⟨fd', (kept (by simp) (by simp)).mpr here⟩
  · exact h.dropped fd' j ((kept (by simp) (by simp)).mp here)
  · obtain ⟨fd', here⟩ := h.closing j events closing
    exact ⟨fd', (kept (by simp) (by simp)).mpr here⟩
  · obtain ⟨lt, none⟩ := h.releasing j events releasing
    refine ⟨lt, fun fd' here => ?_⟩
    rcases (at_iff fd' j).mp here with ⟨-, rfl⟩ | here
    · exact unused (.inr ⟨events, releasing⟩)
    · exact none fd' here
  · rcases (at_iff fd' j).mp here with ⟨rfl, rfl⟩ | here
    · exact ⟨_, List.getElem?_set_self inside, rfl⟩
    · obtain ⟨conn', slot', same⟩ := h.sock fd' j here
      refine ⟨conn', ?_, same⟩
      rw [next_set ?_]
      · exact slot'
      · rintro rfl
        exact unused (.inl ⟨fd', here⟩)
  · simp only [UsedSlot, at_iff]
    constructor
    · rintro (⟨fd', ⟨-, same⟩ | here⟩ | releasing)
      · exact .inl same
      · exact .inr (.inl ⟨fd', here⟩)
      · exact .inr (.inr releasing)
    · rintro (rfl | ⟨fd', here⟩ | releasing)
      · exact .inl ⟨fd, .inl ⟨rfl, rfl⟩⟩
      · exact .inl ⟨fd', .inr here⟩
      · exact .inr releasing

theorem at_update {i : Nat} {old new : Holder} (held : holders fd = some old)
    (oldSlot : old.slot = some (w, i)) (newSlot : new.slot = some (w, i)) (fd' : Int) (v j : Nat) :
    Holders.At (Function.update holders fd (some new)) fd' v j ↔ holders.At fd' v j := by
  constructor
  · rintro ⟨h, here, slot⟩
    rcases update_some.mp here with ⟨rfl, changed⟩ | ⟨-, kept⟩
    · cases changed
      exact ⟨old, held, (oldSlot.trans newSlot.symm).trans slot⟩
    · exact ⟨h, kept, slot⟩
  · rintro ⟨h, here, slot⟩
    by_cases same : fd' = fd
    · subst same
      cases held.symm.trans here
      exact ⟨new, Function.update_self .., (newSlot.trans oldSlot.symm).trans slot⟩
    · exact ⟨h, update_some.mpr (.inr ⟨same, here⟩), slot⟩

theorem WorkerTracks.add {n i : Nat} {last : Link} {new : Holder} {queue : Int → Option Nat}
    (h : WorkerTracks n last holders w worker) (held : holders fd = some (.assigned a w i))
    (result : new = .registered w i ∧ queue = Function.update worker.queue fd (some i) ∨
      new = .lost w i ∧ queue = worker.queue) :
    WorkerTracks n last (Function.update holders fd (some new)) w { worker with queue := queue } := by
  have slot : new.slot = some (w, i) := by
    rcases result with ⟨rfl, -⟩ | ⟨rfl, -⟩ <;> rfl
  have at_iff := at_update held rfl slot
  have kept {fd' : Int} {h : Holder} (here : holders fd' = some h) (other : ∀ b v j, h ≠ .assigned b v j) :
      Function.update holders fd (some new) fd' = some h := by
    refine update_some.mpr (.inr ⟨?_, here⟩)
    rintro rfl
    cases held.symm.trans here
    exact other a w i rfl
  obtain ⟨free, chain⟩ := h.chain
  refine ⟨fun fd' j => ?_, h.once, fun j member => ?_, fun fd' j here => ?_, fun j events closing => ?_,
    fun j events releasing => ?_, fun fd' j here => h.sock fd' j ((at_iff fd' w j).mp here), free,
    chain.congr fun j => ?_⟩
  · by_cases same : fd' = fd
    · subst same
      rw [Function.update_self]
      rcases result with ⟨rfl, rfl⟩ | ⟨rfl, rfl⟩
      · simp
      · simp [h.queue, held]
    · rw [Function.update_of_ne same, ← h.queue]
      rcases result with ⟨-, rfl⟩ | ⟨-, rfl⟩
      · simp only [Function.update_of_ne same]
      · rfl
  · obtain ⟨fd', here⟩ := h.pending j member
    exact ⟨fd', kept here (by simp)⟩
  · rcases update_some.mp here with ⟨-, changed⟩ | ⟨-, same⟩
    · rcases result with ⟨rfl, -⟩ | ⟨rfl, -⟩ <;> cases changed
    · exact h.dropped fd' j same
  · obtain ⟨fd', here⟩ := h.closing j events closing
    exact ⟨fd', kept here (by simp)⟩
  · obtain ⟨lt, none⟩ := h.releasing j events releasing
    exact ⟨lt, fun fd' here => none fd' ((at_iff fd' w j).mp here)⟩
  · simp only [UsedSlot, at_iff]

/-- Two sockets have different slots. -/
theorem WorkerTracks.same_socket {n i : Nat} {last : Link} {fd' : Int}
    (h : WorkerTracks n last holders w worker) (one : holders.At fd w i) (other : holders.At fd' w i) :
    fd = fd' := by
  obtain ⟨conn, slot, rfl⟩ := h.sock fd i one
  obtain ⟨conn', slot', rfl⟩ := h.sock fd' i other
  cases slot.symm.trans slot'
  rfl

theorem WorkerTracks.serving {n : Nat} {last : Link} {thread : WorkerThread}
    (h : WorkerTracks n last holders w worker)
    (old : ∀ i events, worker.thread ≠ .closing i events ∧ worker.thread ≠ .releasing i events)
    (new : ∀ i events, thread ≠ .closing i events ∧ thread ≠ .releasing i events)
    (once : thread.pending.Nodup)
    (pending : ∀ i ∈ thread.pending, ∃ fd, holders fd = some (.registered w i)) :
    WorkerTracks n last holders w { worker with thread := thread } := by
  obtain ⟨free, chain⟩ := h.chain
  refine ⟨h.queue, once, pending, fun fd i here => ?_, fun i events closing => ?_,
    fun i events releasing => ?_, h.sock, free, chain.congr fun i => ?_⟩
  · obtain ⟨events, closing⟩ := h.dropped fd i here
    exact absurd closing (old i events).1
  · exact absurd closing (new i events).1
  · exact absurd releasing (new i events).2
  · simp only [UsedSlot, fun events => (old i events).2, fun events => (new i events).2]

theorem WorkerTracks.serve {n i : Nat} {last : Link} {conn : Connection} (client : Client)
    (h : WorkerTracks n last holders w worker) (held : holders.At fd w i)
    (slot : worker.container.connections[i]? = some conn) :
    WorkerTracks n last holders w { worker with
      container := { worker.container with
        connections := worker.container.connections.set i { conn with client := client } } } := by
  obtain ⟨free, chain⟩ := h.chain
  refine ⟨h.queue, h.once, h.pending, h.dropped, h.closing, h.releasing, fun fd' j here => ?_, free,
    chain.serve conn client (.inl ⟨fd, held⟩)⟩
  obtain ⟨conn', slot', same⟩ := h.sock fd' j here
  by_cases equal : i = j
  · subst equal
    cases slot.symm.trans slot'
    obtain ⟨inside, -⟩ := List.getElem?_eq_some_iff.mp slot
    exact ⟨_, List.getElem?_set_self inside, same⟩
  · exact ⟨conn', (next_set equal).trans slot', same⟩

theorem WorkerTracks.remove {n i : Nat} {last : Link} {events : List Nat}
    (h : WorkerTracks n last holders w worker) (busy : worker.thread = .removing i events)
    (held : holders fd = some (.registered w i)) :
    WorkerTracks n last (Function.update holders fd (some (.dropped w i))) w { worker with
      queue := Function.update worker.queue fd none
      thread := .closing i events } := by
  have at_iff (fd' : Int) (v j : Nat) :
      Holders.At (Function.update holders fd (some (.dropped w i))) fd' v j ↔ holders.At fd' v j :=
    at_update held rfl rfl fd' v j
  have once := h.once
  have pending := h.pending
  rw [busy] at once pending
  obtain ⟨distinct, once⟩ := List.nodup_cons.mp once
  obtain ⟨free, chain⟩ := h.chain
  refine ⟨fun fd' j => ?_, once, fun j member => ?_, fun fd' j here => ?_, fun j events' closing => ?_,
    by simp, fun fd' j here => h.sock fd' j ((at_iff fd' w j).mp here), free, chain.congr fun j => ?_⟩
  · by_cases same : fd' = fd
    · subst same
      simp
    · simp only [Function.update_of_ne same, h.queue]
  · obtain ⟨fd', here⟩ := pending j (List.mem_cons_of_mem _ member)
    refine ⟨fd', update_some.mpr (.inr ⟨?_, here⟩)⟩
    rintro rfl
    cases held.symm.trans here
    exact distinct member
  · rcases update_some.mp here with ⟨-, changed⟩ | ⟨-, same⟩
    · cases changed
      exact ⟨events, rfl⟩
    · obtain ⟨events', closing⟩ := h.dropped fd' j same
      cases busy.symm.trans closing
  · cases closing
    exact ⟨fd, Function.update_self ..⟩
  · simp only [UsedSlot, at_iff, busy]
    simp

theorem WorkerTracks.close {n i : Nat} {last : Link} {events : List Nat}
    (h : WorkerTracks n last holders w worker) (busy : worker.thread = .closing i events)
    (held : holders fd = some (.dropped w i)) :
    WorkerTracks n last (Function.update holders fd none) w
      { worker with thread := .releasing i events } := by
  have once := h.once
  have pending := h.pending
  rw [busy] at once pending
  obtain ⟨free, chain⟩ := h.chain
  have at_iff (fd' : Int) (j : Nat) : Holders.At (Function.update holders fd none) fd' w j ↔
      fd' ≠ fd ∧ holders.At fd' w j := by
    constructor
    · rintro ⟨h, here, slot⟩
      rcases update_some.mp here with ⟨-, changed⟩ | ⟨other, same⟩
      · cases changed
      · exact ⟨other, h, same, slot⟩
    · rintro ⟨other, h, here, slot⟩
      exact ⟨h, update_some.mpr (.inr ⟨other, here⟩), slot⟩
  refine ⟨fun fd' j => ?_, once, fun j member => ?_, fun fd' j here => ?_, by simp,
    fun j events' releasing => ?_, fun fd' j here => h.sock fd' j ((at_iff fd' j).mp here).2, free,
    chain.congr fun j => ?_⟩
  · by_cases same : fd' = fd
    · subst same
      simp [h.queue, held]
    · simp only [Function.update_of_ne same, h.queue]
  · obtain ⟨fd', here⟩ := pending j member
    refine ⟨fd', update_some.mpr (.inr ⟨?_, here⟩)⟩
    rintro rfl
    cases held.symm.trans here
  · rcases update_some.mp here with ⟨-, changed⟩ | ⟨other, same⟩
    · cases changed
    · obtain ⟨events', closing⟩ := h.dropped fd' j same
      cases busy.symm.trans closing
      exact absurd (h.same_socket ⟨_, same, rfl⟩ ⟨_, held, rfl⟩) other
  · cases releasing
    obtain ⟨conn, slot, -⟩ := h.sock fd i ⟨_, held, rfl⟩
    obtain ⟨inside, -⟩ := List.getElem?_eq_some_iff.mp slot
    refine ⟨chain.size ▸ inside, fun fd' here => ?_⟩
    obtain ⟨other, before⟩ := (at_iff fd' i).mp here
    exact other (h.same_socket before ⟨_, held, rfl⟩)
  · simp only [UsedSlot, at_iff, busy]
    constructor
    · rintro (⟨fd', -, here⟩ | ⟨events', releasing⟩)
      · exact .inl ⟨fd', here⟩
      · cases releasing
        exact .inl ⟨fd, _, held, rfl⟩
    · rintro (⟨fd', here⟩ | ⟨events', releasing⟩)
      · by_cases same : fd' = fd
        · subst same
          obtain ⟨h, here, slot⟩ := here
          cases held.symm.trans here
          cases slot
          exact .inr ⟨events, rfl⟩
        · exact .inl ⟨fd', same, here⟩
      · cases releasing

theorem WorkerTracks.release {n i : Nat} {last : Link} {events : List Nat}
    {container : ConnectionContainer} {k k' : Kernel} (h : WorkerTracks n last holders w worker)
    (busy : worker.thread = .releasing i events)
    (closed : connectionClose worker.container k i = some (container, k')) :
    WorkerTracks n last holders w
      { worker with container := container, thread := .serving events } := by
  have once := h.once
  have pending := h.pending
  rw [busy] at once pending
  obtain ⟨free, chain⟩ := h.chain
  obtain ⟨lt, none⟩ := h.releasing i events busy
  have chain' := chain.close lt (.inr ⟨events, busy⟩) closed
  refine ⟨h.queue, once, pending, fun fd j here => ?_, by simp, by simp, fun fd j here => ?_, i :: free,
    chain'.congr fun j => ?_⟩
  · obtain ⟨events', closing⟩ := h.dropped fd j here
    cases busy.symm.trans closing
  · obtain ⟨conn, slot, same⟩ := h.sock fd j here
    refine ⟨conn, ?_, same⟩
    simp only [connectionClose, Option.map_eq_some_iff, Prod.mk.injEq] at closed
    obtain ⟨conn', -, rfl, -⟩ := closed
    refine (next_set ?_).trans slot
    rintro rfl
    exact none fd here
  · simp only [UsedSlot, busy]
    constructor
    · rintro (⟨fd, here⟩ | ⟨events', releasing⟩)
      · refine ⟨.inl ⟨fd, here⟩, ?_⟩
        rintro rfl
        exact none fd here
      · cases releasing
    · rintro ⟨here | ⟨events', releasing⟩, other⟩
      · exact .inl here
      · cases releasing
        exact absurd rfl other

end Workers

end Kitserv
