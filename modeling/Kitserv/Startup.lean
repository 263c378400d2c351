import Kitserv.Basis.Barrier
import Kitserv.System

/-! `kitserv_server_start` from the first thread that it creates on, and each thread up to the startup
barrier and behind it. -/
namespace Kitserv

open Barrier

/-- The threads of the program. -/
inductive Party where
  | main
  | worker (w : Nat)
  | accepter (a : Nat)
  deriving DecidableEq, Repr

/-- What `kitserv_server_start` knows when it creates the threads. -/
structure Plan where
  slots : Nat
  numWorkers : Nat
  bindIpv4 : Bool
  bindIpv6 : Bool
  deriving DecidableEq, Repr

namespace Plan

/-- Accepter 0 is for IPv4, accepter 1 for IPv6. -/
def accepters (plan : Plan) : List Party :=
  (if plan.bindIpv4 then [.accepter 0] else []) ++ if plan.bindIpv6 then [.accepter 1] else []

/-- The threads that are created, in their order. -/
def creates (plan : Plan) : List Party :=
  (List.range plan.numWorkers).map .worker ++ plan.accepters

/-- The count of `startup_barrier` -/
def count (plan : Plan) : Nat :=
  plan.numWorkers + plan.bindIpv4.toNat + plan.bindIpv6.toNat + 1

/-- The steps of a start: each helper is created, each worker allocates its slots and opens its queue,
and each thread arrives at the barrier and leaves it. -/
def work (plan : Plan) : Nat :=
  5 * plan.numWorkers + 3 * (plan.bindIpv4.toNat + plan.bindIpv6.toNat) + 2

def parties (plan : Plan) : Finset Party := insert .main plan.creates.toFinset

theorem worker_mem (plan : Plan) (w : Nat) : .worker w ∈ plan.creates ↔ w < plan.numWorkers := by
  have other : .worker w ∉ plan.accepters := by
    unfold accepters
    split <;> split <;> simp
  simp only [creates, List.mem_append, other, or_false, List.mem_map, List.mem_range,
    Party.worker.injEq, exists_eq_right]

theorem main_notMem (plan : Plan) : .main ∉ plan.creates := by
  unfold creates accepters
  split <;> split <;> simp

theorem creates_nodup (plan : Plan) : plan.creates.Nodup := by
  refine List.nodup_append.mpr ⟨?_, ?_, ?_⟩
  · exact List.nodup_range.map fun _ _ same => Party.worker.inj same
  · unfold accepters
    split <;> split <;> simp
  · intro p inside q other same
    subst same
    obtain ⟨w, -, rfl⟩ := List.mem_map.mp inside
    revert other
    unfold accepters
    split <;> split <;> simp

theorem creates_length (plan : Plan) : plan.creates.length + 1 = plan.count := by
  unfold creates accepters count
  cases plan.bindIpv4 <;> cases plan.bindIpv6 <;> simp

/-- The barrier waits for exactly the threads that there are. -/
theorem card_parties (plan : Plan) : plan.parties.card = plan.count := by
  have absent : Party.main ∉ plan.creates.toFinset := by
    rw [List.mem_toFinset]
    exact plan.main_notMem
  rw [parties, Finset.card_insert_of_notMem absent, List.toFinset_card_of_nodup plan.creates_nodup]
  exact plan.creates_length

theorem mem_parties {plan : Plan} {p : Party} : p ∈ plan.parties ↔ p = .main ∨ p ∈ plan.creates := by
  rw [parties, Finset.mem_insert, List.mem_toFinset]

end Plan

/-- Where a thread is on its way to the barrier. -/
inductive Prologue where
  | absent
  | allocating
  | queueing
  | ready
  deriving DecidableEq, Repr

/-- The first statement of `client_worker` and of `accept_worker` -/
def Party.entry : Party → Prologue
  | .worker _ => .allocating
  | .main | .accepter _ => .ready

/-- The steps that a thread has left in front of the barrier, with its creation. -/
def Party.todo : Party → Prologue → Nat
  | .main, .absent => 0
  | .worker _, .absent => 3
  | .accepter _, .absent => 1
  | _, .allocating => 2
  | _, .queueing => 1
  | _, .ready => 0

/-- The threads that are left to create, where each one is, the startup barrier, and the state that the
threads share. -/
structure Startup where
  toCreate : List Party
  prologue : Party → Prologue := fun _ => .absent
  barrier : Barrier.State Party := {}
  system : System

/-- The steps of the threads, with what malloc, epoll and pthread_create answer. -/
inductive Launch where
  | create (ok : Bool)
  | allocate (w : Nat) (memory : Option (List RawSlot))
  | openQueue (w : Nat) (queuefd : Int)
  | arrive (p : Party)
  | leave (p : Party)
  | move (m : Move)

def Move.party : Move → Party
  | .accept a .. | .score a | .take a | .add a _ | .refuse a => .accepter a
  | .wait w _ | .serve w | .remove w | .close w | .release w => .worker w

def Launch.move? : Launch → Option Move
  | .move m => some m
  | _ => none

namespace Startup

/-- Before the first `pthread_create`. The workers are what malloc returned. -/
def init (plan : Plan) (raw : List Worker) (sockets : Int → Socket) (left : Nat → Kernel) : Startup where
  toCreate := plan.creates
  system := { threads := { workers := raw }, sockets := sockets, left := left }

def setWorker (s : Startup) (w : Nat) (worker : Worker) (prologue : Prologue) : Startup :=
  { s with
    prologue := Function.update s.prologue (.worker w) prologue
    system := { s.system with threads := s.system.threads.setWorker w worker } }

def spawn (s : Startup) (p : Party) (rest : List Party) : Startup :=
  { s with toCreate := rest, prologue := Function.update s.prologue p p.entry }

/-- `pthread_create` -/
def create (s : Startup) (ok : Bool) : Option Startup :=
  match s.toCreate with
  | [] => none
  | p :: rest => if ok then some (s.spawn p rest) else none

/-- `connection_init` in `client_worker` -/
def allocate (plan : Plan) (s : Startup) (w : Nat) (memory : Option (List RawSlot)) : Option Startup :=
  match s.prologue (.worker w), memory, s.system.threads.workers[w]? with
  | .allocating, some slots, some worker =>
    if slots.length = plan.slots then
      some (s.setWorker w { worker with container := connectionInit slots } .queueing)
    else none
  | _, _, _ => none

/-- `kitserv_queue_init` in `client_worker`; the worker is then at the top of its loop. -/
def openQueue (s : Startup) (w : Nat) (queuefd : Int) : Option Startup :=
  match s.prologue (.worker w), s.system.threads.workers[w]? with
  | .queueing, some worker =>
    if queuefd < 0 then none else some (s.setWorker w { container := worker.container } .ready)
  | _, _ => none

/-- The thread is at `pthread_barrier_wait`. -/
def ready (s : Startup) : Party → Bool
  | .main => s.toCreate.isEmpty
  | p => s.prologue p == .ready

def onBarrier (s : Startup) (barrier : Option (Barrier.State Party)) : Option Startup :=
  barrier.map fun barrier => { s with barrier := barrier }

/-- One step; `none` when it is not its thread's turn to make it, or when the process aborts. -/
def step (server : Server) (plan : Plan) (s : Startup) : Launch → Option Startup
  | .create ok => s.create ok
  | .allocate w memory => s.allocate plan w memory
  | .openQueue w queuefd => s.openQueue w queuefd
  | .arrive p => if s.ready p then s.onBarrier (s.barrier.arrive plan.count p) else none
  | .leave p => s.onBarrier (s.barrier.leave p)
  | .move m =>
    if s.barrier.place m.party = .past then
      (s.system.step server m).map fun system => { s with system := system }
    else none

/-- What a worker has set up. -/
structure SetUp (plan : Plan) (s : Startup) (w : Nat) : Prop where
  queueing : s.prologue (.worker w) = .queueing → ∃ slots worker, slots.length = plan.slots ∧
    s.system.threads.workers[w]? = some worker ∧ worker.container = connectionInit slots
  ready : s.prologue (.worker w) = .ready → ∃ slots, slots.length = plan.slots ∧
    s.system.threads.workers[w]? = some { container := connectionInit slots }

/-- Where the threads can be. -/
structure Ordered (plan : Plan) (s : Startup) : Prop where
  barrier : s.barrier.Closed plan.parties ∨ s.barrier.Open plan.parties
  ready : ∀ p, s.barrier.place p ≠ .before → s.ready p = true
  nodup : s.toCreate.Nodup
  planned : ∀ p ∈ s.toCreate, p ∈ plan.creates
  created : ∀ p, s.prologue p = .absent ↔ p ∉ plan.creates ∨ p ∈ s.toCreate
  accepters : ∀ a, s.prologue (.accepter a) = .absent ∨ s.prologue (.accepter a) = .ready

/-- As long as nobody is past the barrier, the workers write what is their own, and nobody writes the
rest. -/
structure Quiet (plan : Plan) (sockets : Int → Socket) (left : Nat → Kernel) (s : Startup) : Prop where
  size : s.system.threads.workers.length = plan.numWorkers
  rest : s.system =
    { threads := { workers := s.system.threads.workers }, sockets := sockets, left := left }
  setUp : ∀ w, s.SetUp plan w

/-- Behind the barrier, the moves so far are a run of the server from where it starts. -/
structure Started (server : Server) (plan : Plan) (sockets : Int → Socket) (left : Nat → Kernel)
    (s : Startup) (moves : List Move) (memory : List (List RawSlot)) : Prop where
  workers : memory.length = plan.numWorkers
  slots : ∀ blocks ∈ memory, blocks.length = plan.slots
  run : Monitor.run (System.step server) (.start memory sockets left) moves = some s.system

/-- The two phases. -/
def Tracks (server : Server) (plan : Plan) (sockets : Int → Socket) (left : Nat → Kernel) (s : Startup)
    (moves : List Move) : Prop :=
  s.barrier.Closed plan.parties ∧ moves = [] ∧ s.Quiet plan sockets left ∨
    s.barrier.Open plan.parties ∧ ∃ memory, s.Started server plan sockets left moves memory

end Startup

section Steps

variable {server : Server} {plan : Plan} {raw : List Worker} {sockets : Int → Socket}
  {left : Nat → Kernel} {s s' : Startup} {w : Nat}

namespace Startup

@[simp] theorem setWorker_toCreate (worker : Worker) (prologue : Prologue) :
    (s.setWorker w worker prologue).toCreate = s.toCreate := rfl

@[simp] theorem setWorker_barrier (worker : Worker) (prologue : Prologue) :
    (s.setWorker w worker prologue).barrier = s.barrier := rfl

@[simp] theorem setWorker_prologue (worker : Worker) (prologue : Prologue) :
    (s.setWorker w worker prologue).prologue =
      Function.update s.prologue (.worker w) prologue := rfl

@[simp] theorem setWorker_workers (worker : Worker) (prologue : Prologue) :
    (s.setWorker w worker prologue).system.threads.workers =
      s.system.threads.workers.set w worker := rfl

theorem ready_iff {p : Party} (other : p ≠ .main) : s.ready p = true ↔ s.prologue p = .ready := by
  cases p with
  | main => exact absurd rfl other
  | worker w => exact beq_iff_eq
  | accepter a => exact beq_iff_eq

theorem ready_main : s.ready .main = true ↔ s.toCreate = [] := List.isEmpty_iff

@[simp] theorem spawn_toCreate (p : Party) (rest : List Party) : (s.spawn p rest).toCreate = rest := rfl

@[simp] theorem spawn_prologue (p : Party) (rest : List Party) :
    (s.spawn p rest).prologue = Function.update s.prologue p p.entry := rfl

theorem create_cases {ok : Bool} (h : s.create ok = some s') :
    ∃ p rest, s.toCreate = p :: rest ∧ s' = s.spawn p rest := by
  unfold create at h
  split at h
  · cases h
  · rename_i p rest todo
    split at h
    · cases h
      exact ⟨p, rest, todo, rfl⟩
    · cases h

theorem allocate_cases {memory : Option (List RawSlot)} (h : s.allocate plan w memory = some s') :
    ∃ slots worker, s.prologue (.worker w) = .allocating ∧ slots.length = plan.slots ∧
      s.system.threads.workers[w]? = some worker ∧
      s' = s.setWorker w { worker with container := connectionInit slots } .queueing := by
  unfold allocate at h
  split at h
  · rename_i slots worker here slot
    split at h
    · rename_i size
      cases h
      exact ⟨slots, worker, here, size, slot, rfl⟩
    · cases h
  · cases h

theorem openQueue_cases {queuefd : Int} (h : s.openQueue w queuefd = some s') :
    ∃ worker, s.prologue (.worker w) = .queueing ∧ s.system.threads.workers[w]? = some worker ∧
      s' = s.setWorker w { container := worker.container } .ready := by
  unfold openQueue at h
  split at h
  · rename_i worker here slot
    split at h
    · cases h
    · cases h
      exact ⟨worker, here, slot, rfl⟩
  · cases h

theorem onBarrier_cases {barrier : Option (Barrier.State Party)} (h : s.onBarrier barrier = some s') :
    ∃ b, barrier = some b ∧ s' = { s with barrier := b } := by
  obtain ⟨b, at_barrier, rfl⟩ := Option.map_eq_some_iff.mp h
  exact ⟨b, at_barrier, rfl⟩

namespace Ordered

theorem start : (init plan raw sockets left).Ordered plan where
  barrier := .inl (State.closed_start ⟨.main, Plan.mem_parties.mpr (.inl rfl)⟩)
  ready _ different := absurd rfl different
  nodup := plan.creates_nodup
  planned _ member := member
  created p := by
    refine iff_of_true rfl ?_
    exact (Classical.em (p ∈ plan.creates)).symm
  accepters _ := .inl rfl

variable (ok : s.Ordered plan)
include ok

theorem mem_creates {p : Party} (here : s.prologue p ≠ .absent) : p ∈ plan.creates := by
  by_contra outside
  exact here ((ok.created p).mpr (.inl outside))

theorem party {p : Party} (ready : s.ready p = true) : p ∈ plan.parties := by
  by_cases main : p = .main
  · exact Plan.mem_parties.mpr (.inl main)
  · have here := (ready_iff main).mp ready
    refine Plan.mem_parties.mpr (.inr (ok.mem_creates ?_))
    rw [here]
    simp

/-- Somebody who is not at the barrier yet has not arrived. -/
theorem early {p : Party} (other : p ≠ .main) (here : s.prologue p ≠ .ready) :
    s.barrier.place p = .before := by
  by_contra arrived
  exact here ((ready_iff other).mp (ok.ready p arrived))

theorem early_main (todo : s.toCreate ≠ []) : s.barrier.place .main = .before := by
  by_contra arrived
  exact todo (ready_main.mp (ok.ready .main arrived))

/-- When the barrier is open, every prologue is over. -/
theorem finished (opened : s.barrier.Open plan.parties) :
    s.toCreate = [] ∧ ∀ p ∈ plan.creates, s.prologue p = .ready := by
  have arrived : ∀ p ∈ plan.parties, s.barrier.place p ≠ .before := by
    intro p member before
    rcases opened.inside p member with waits | past
    · rw [before] at waits
      cases waits
    · rw [before] at past
      cases past
  constructor
  · by_contra todo
    exact arrived .main (Plan.mem_parties.mpr (.inl rfl)) (ok.early_main todo)
  · intro p member
    by_contra here
    have other : p ≠ .main := by
      rintro rfl
      exact plan.main_notMem member
    exact arrived p (Plan.mem_parties.mpr (.inr member)) (ok.early other here)

theorem setWorker {worker : Worker} {next : Prologue} (here : s.prologue (.worker w) ≠ .absent)
    (early : s.prologue (.worker w) ≠ .ready) (there : next ≠ .absent) :
    (s.setWorker w worker next).Ordered plan where
  barrier := ok.barrier
  ready p arrived := by
    by_cases same : p = .worker w
    · subst same
      exact absurd (ok.early (by simp) early) arrived
    · have before := ok.ready p arrived
      cases p with
      | main => exact before
      | worker v =>
        rw [ready_iff (by simp)] at before ⊢
        rw [setWorker_prologue, Function.update_of_ne same]
        exact before
      | accepter a =>
        rw [ready_iff (by simp)] at before ⊢
        rw [setWorker_prologue, Function.update_of_ne same]
        exact before
  nodup := ok.nodup
  planned := ok.planned
  created p := by
    rw [setWorker_prologue, setWorker_toCreate, ← ok.created p]
    by_cases same : p = .worker w
    · subst same
      rw [Function.update_self]
      exact iff_of_false there here
    · rw [Function.update_of_ne same]
  accepters a := by
    rw [setWorker_prologue, Function.update_of_ne (by simp)]
    exact ok.accepters a

theorem spawn {p : Party} {rest : List Party} (todo : s.toCreate = p :: rest) :
    (s.spawn p rest).Ordered plan where
  barrier := ok.barrier
  ready q arrived := by
    by_cases main : q = .main
    · subst main
      refine absurd (ok.early_main ?_) arrived
      rw [todo]
      exact List.cons_ne_nil _ _
    · have here := (ready_iff main).mp (ok.ready q arrived)
      have other : q ≠ p := by
        rintro rfl
        rw [(ok.created q).mpr (.inr (todo ▸ List.mem_cons_self ..))] at here
        cases here
      rw [ready_iff main, spawn_prologue, Function.update_of_ne other]
      exact here
  nodup := by
    have nodup := ok.nodup
    rw [todo] at nodup
    exact nodup.of_cons
  planned q member := ok.planned q (todo ▸ List.mem_cons_of_mem _ member)
  created q := by
    rw [spawn_prologue, spawn_toCreate]
    by_cases same : q = p
    · subst same
      have nodup := ok.nodup
      rw [todo] at nodup
      have gone : q ∉ rest := (List.nodup_cons.mp nodup).1
      have inside : q ∈ plan.creates := ok.planned q (todo ▸ List.mem_cons_self ..)
      rw [Function.update_self]
      refine iff_of_false ?_ ?_
      · cases q <;> simp [Party.entry]
      · simp only [inside, gone, not_true_eq_false, or_self, not_false_eq_true]
    · rw [Function.update_of_ne same, ok.created q, todo, List.mem_cons]
      simp only [same, false_or]
  accepters a := by
    rw [spawn_prologue]
    by_cases same : .accepter a = p
    · subst same
      exact .inr (Function.update_self ..)
    · rw [Function.update_of_ne same]
      exact ok.accepters a

theorem arrive {p : Party} {barrier : Barrier.State Party} (ready : s.ready p = true)
    (h : s.barrier.arrive plan.count p = some barrier) :
    ({ s with barrier := barrier }).Ordered plan where
  barrier := by
    have member := ok.party ready
    rw [← plan.card_parties] at h
    rcases ok.barrier with closed | opened
    · exact closed.arrive member h
    · exact absurd h (opened.not_arrive member)
  ready q arrived := by
    obtain ⟨-, new, -⟩ := State.arrive_cases h
    by_cases same : q = p
    · subst same
      exact ready
    · refine ok.ready q ?_
      intro before
      apply arrived
      simp only [new, Function.update_of_ne same, before]
  nodup := ok.nodup
  planned := ok.planned
  created := ok.created
  accepters := ok.accepters

theorem leave {p : Party} {barrier : Barrier.State Party} (h : s.barrier.leave p = some barrier) :
    s.barrier.Open plan.parties ∧ barrier.Open plan.parties ∧
      ({ s with barrier := barrier }).Ordered plan := by
  rcases ok.barrier with closed | opened
  · exact absurd h closed.not_leave
  · have still := opened.leave h
    refine ⟨opened, still, .inr still, ?_, ok.nodup, ok.planned, ok.created, ok.accepters⟩
    intro q arrived
    obtain ⟨round, -, waits, new⟩ := State.leave_cases h
    refine ok.ready q ?_
    intro before
    by_cases same : q = p
    · subst same
      rw [before] at waits
      cases waits
    · apply arrived
      simp only [new, Function.update_of_ne same, before]

theorem step {e : Launch} (h : s.step server plan e = some s') : s'.Ordered plan := by
  cases e with
  | create started =>
    obtain ⟨p, rest, todo, rfl⟩ := create_cases h
    exact ok.spawn todo
  | allocate w memory =>
    obtain ⟨slots, worker, here, -, -, rfl⟩ := allocate_cases h
    apply ok.setWorker <;> simp [here]
  | openQueue w queuefd =>
    obtain ⟨worker, here, -, rfl⟩ := openQueue_cases h
    apply ok.setWorker <;> simp [here]
  | arrive p =>
    simp only [Startup.step] at h
    split at h
    · rename_i ready
      obtain ⟨barrier, arrived, rfl⟩ := onBarrier_cases h
      exact ok.arrive ready arrived
    · cases h
  | leave p =>
    obtain ⟨barrier, left, rfl⟩ := onBarrier_cases h
    exact (ok.leave left).2.2
  | move m =>
    simp only [Startup.step] at h
    split at h
    · obtain ⟨system, -, rfl⟩ := Option.map_eq_some_iff.mp h
      exact ⟨ok.barrier, ok.ready, ok.nodup, ok.planned, ok.created, ok.accepters⟩
    · cases h

end Ordered

namespace Quiet

theorem start (size : raw.length = plan.numWorkers) :
    (init plan raw sockets left).Quiet plan sockets left where
  size := size
  rest := rfl
  setUp w := by
    constructor
    · rintro ⟨⟩
    · rintro ⟨⟩

variable (quiet : s.Quiet plan sockets left)
include quiet

theorem spawn {p : Party} {rest : List Party} : (s.spawn p rest).Quiet plan sockets left where
  size := quiet.size
  rest := quiet.rest
  setUp w := by
    have before := quiet.setUp w
    by_cases same : .worker w = p
    · subst same
      constructor
      · intro here
        rw [spawn_prologue, Function.update_self] at here
        cases here
      · intro here
        rw [spawn_prologue, Function.update_self] at here
        cases here
    · constructor
      · rw [spawn_prologue, Function.update_of_ne same]
        exact before.queueing
      · rw [spawn_prologue, Function.update_of_ne same]
        exact before.ready

theorem setWorker {worker : Worker} {next : Prologue}
    (own : (s.setWorker w worker next).SetUp plan w) :
    (s.setWorker w worker next).Quiet plan sockets left where
  size := by rw [setWorker_workers, List.length_set, quiet.size]
  rest := by
    simp only [Startup.setWorker]
    rw [quiet.rest]
    rfl
  setUp v := by
    by_cases same : v = w
    · subst same
      exact own
    · have before := quiet.setUp v
      have elsewhere : (s.system.threads.workers.set w worker)[v]? = s.system.threads.workers[v]? :=
        List.getElem?_set_ne (Ne.symm same)
      have other : Party.worker v ≠ .worker w := by simpa using same
      constructor
      · rw [setWorker_prologue, Function.update_of_ne other, setWorker_workers, elsewhere]
        exact before.queueing
      · rw [setWorker_prologue, Function.update_of_ne other, setWorker_workers, elsewhere]
        exact before.ready

theorem allocate {memory : Option (List RawSlot)} (h : s.allocate plan w memory = some s') :
    s'.Quiet plan sockets left := by
  obtain ⟨slots, worker, -, size, slot, rfl⟩ := allocate_cases h
  have inside : w < s.system.threads.workers.length := (List.getElem?_eq_some_iff.mp slot).1
  refine quiet.setWorker { queueing := ?_, ready := ?_ }
  · intro _
    exact ⟨slots, _, size, List.getElem?_set_self inside, rfl⟩
  · intro here
    rw [setWorker_prologue, Function.update_self] at here
    cases here

theorem openQueue {queuefd : Int} (h : s.openQueue w queuefd = some s') :
    s'.Quiet plan sockets left := by
  obtain ⟨worker, here, slot, rfl⟩ := openQueue_cases h
  have inside : w < s.system.threads.workers.length := (List.getElem?_eq_some_iff.mp slot).1
  obtain ⟨slots, same, size, again, container⟩ := (quiet.setUp w).queueing here
  cases Option.some.inj (slot.symm.trans again)
  refine quiet.setWorker { queueing := ?_, ready := ?_ }
  · intro there
    rw [setWorker_prologue, Function.update_self] at there
    cases there
  · intro _
    refine ⟨slots, size, ?_⟩
    rw [setWorker_workers, List.getElem?_set_self inside, container]

/-- When every worker is ready, the state is the one that the server starts from. -/
theorem started (ready : ∀ w < plan.numWorkers, s.prologue (.worker w) = .ready) :
    ∃ memory, s.Started server plan sockets left [] memory := by
  have each : ∀ w, ∃ slots : List RawSlot, w < plan.numWorkers → slots.length = plan.slots ∧
      s.system.threads.workers[w]? = some { container := connectionInit slots } := by
    intro w
    by_cases inside : w < plan.numWorkers
    · obtain ⟨slots, size, slot⟩ := (quiet.setUp w).ready (ready w inside)
      exact ⟨slots, fun _ => ⟨size, slot⟩⟩
    · exact ⟨[], fun h => absurd h inside⟩
  choose blocks set_up using each
  refine ⟨(List.range plan.numWorkers).map blocks, ?_, ?_, ?_⟩
  · rw [List.length_map, List.length_range]
  · intro slots member
    obtain ⟨w, inside, rfl⟩ := List.mem_map.mp member
    exact (set_up w (List.mem_range.mp inside)).1
  · have workers : s.system.threads.workers =
        ((List.range plan.numWorkers).map blocks).map fun slots =>
          { container := connectionInit slots } := by
      apply List.ext_getElem?
      intro w
      rw [List.map_map, List.getElem?_map]
      by_cases inside : w < plan.numWorkers
      · rw [(set_up w inside).2, List.getElem?_range inside]
        rfl
      · have beyond : plan.numWorkers ≤ w := Nat.le_of_not_lt inside
        rw [List.getElem?_eq_none (quiet.size.trans_le beyond),
          List.getElem?_eq_none (List.length_range.trans_le beyond)]
        rfl
    rw [quiet.rest, workers]
    rfl

end Quiet

namespace Tracks

variable {moves : List Move}

theorem start (size : raw.length = plan.numWorkers) :
    (init plan raw sockets left).Tracks server plan sockets left [] :=
  .inl ⟨State.closed_start ⟨.main, Plan.mem_parties.mpr (.inl rfl)⟩, rfl, .start size⟩

/-- A step of a prologue is one in front of the barrier. -/
theorem early (tracks : s.Tracks server plan sockets left moves)
    (still : ¬ s.barrier.Open plan.parties) (barrier : s'.barrier = s.barrier)
    (keep : s.Quiet plan sockets left → s'.Quiet plan sockets left) :
    s'.Tracks server plan sockets left moves := by
  rcases tracks with ⟨closed, none, quiet⟩ | ⟨opened, -⟩
  · refine .inl ⟨?_, none, keep quiet⟩
    rw [barrier]
    exact closed
  · exact absurd opened still

theorem step {e : Launch} (ok : s.Ordered plan) (tracks : s.Tracks server plan sockets left moves)
    (h : s.step server plan e = some s') :
    s'.Tracks server plan sockets left (moves ++ e.move?.toList) := by
  cases e with
  | create started =>
    obtain ⟨p, rest, todo, rfl⟩ := create_cases h
    simp only [Launch.move?, Option.toList_none, List.append_nil]
    refine tracks.early ?_ rfl fun quiet => quiet.spawn
    intro opened
    rw [(ok.finished opened).1] at todo
    cases todo
  | allocate w memory =>
    have here := allocate_cases h
    obtain ⟨slots, worker, here, -, -, new⟩ := here
    simp only [Launch.move?, Option.toList_none, List.append_nil]
    refine tracks.early ?_ (new ▸ rfl) fun quiet => quiet.allocate h
    intro opened
    rw [(ok.finished opened).2 _ (ok.mem_creates (by simp [here]))] at here
    cases here
  | openQueue w queuefd =>
    obtain ⟨worker, here, -, new⟩ := openQueue_cases h
    simp only [Launch.move?, Option.toList_none, List.append_nil]
    refine tracks.early ?_ (new ▸ rfl) fun quiet => quiet.openQueue h
    intro opened
    rw [(ok.finished opened).2 _ (ok.mem_creates (by simp [here]))] at here
    cases here
  | arrive p =>
    have next := ok.step h
    simp only [Startup.step] at h
    split at h
    · rename_i ready
      obtain ⟨barrier, arrived, rfl⟩ := onBarrier_cases h
      simp only [Launch.move?, Option.toList_none, List.append_nil]
      rcases tracks with ⟨closed, none, quiet⟩ | ⟨opened, -⟩
      · rcases next.barrier with still | opened
        · exact .inl ⟨still, none, quiet.size, quiet.rest, fun w => ⟨(quiet.setUp w).1, (quiet.setUp w).2⟩⟩
        · refine .inr ⟨opened, ?_⟩
          have all := (next.finished opened).2
          obtain ⟨memory, started⟩ : ∃ memory, Started server plan sockets left _ [] memory :=
            quiet.started fun w inside => all _ ((plan.worker_mem w).mpr inside)
          rw [none]
          exact ⟨memory, started.workers, started.slots, started.run⟩
      · exact absurd arrived (opened.not_arrive (ok.party ready))
    · cases h
  | leave p =>
    obtain ⟨barrier, away, rfl⟩ := onBarrier_cases h
    obtain ⟨opened, still, -⟩ := ok.leave away
    simp only [Launch.move?, Option.toList_none, List.append_nil]
    rcases tracks with ⟨closed, -⟩ | ⟨-, memory, started⟩
    · exact absurd away closed.not_leave
    · exact .inr ⟨still, memory, started.workers, started.slots, started.run⟩
  | move m =>
    simp only [Startup.step] at h
    split at h
    · rename_i past
      obtain ⟨system, moved, rfl⟩ := Option.map_eq_some_iff.mp h
      rcases tracks with ⟨closed, -⟩ | ⟨opened, memory, started⟩
      · exact absurd past closed.not_past
      · refine .inr ⟨opened, memory, started.workers, started.slots, ?_⟩
        rw [Launch.move?, Option.toList_some, Monitor.run_append_of started.run, Monitor.run_cons, moved]
        rfl
    · cases h

theorem run {events : List Launch} (ok : s.Ordered plan)
    (tracks : s.Tracks server plan sockets left moves)
    (run : Monitor.run (Startup.step server plan) s events = some s') :
    s'.Ordered plan ∧ s'.Tracks server plan sockets left (moves ++ events.filterMap Launch.move?) := by
  induction events generalizing s moves with
  | nil =>
    cases run
    rw [List.filterMap_nil, List.append_nil]
    exact ⟨ok, tracks⟩
  | cons e rest ih =>
    obtain ⟨next, first, later⟩ := Option.bind_eq_some_iff.mp run
    have there := ih (ok.step first) (tracks.step ok first) later
    rw [List.append_assoc] at there
    have same : e.move?.toList ++ rest.filterMap Launch.move? =
        (e :: rest).filterMap Launch.move? := by
      cases found : e.move? with
      | none => rw [List.filterMap_cons_none found, Option.toList_none, List.nil_append]
      | some m => rw [List.filterMap_cons_some found, Option.toList_some, List.singleton_append]
    rw [← same]
    exact there

end Tracks

def remaining (plan : Plan) (s : Startup) : Nat :=
  ∑ p ∈ plan.parties, p.todo (s.prologue p) + s.barrier.remaining plan.parties

theorem remaining_init : (init plan raw sockets left).remaining plan = plan.work := by
  have absent : Party.main ∉ plan.creates.toFinset := by
    rw [List.mem_toFinset]
    exact plan.main_notMem
  have todo : ∑ p ∈ plan.parties, p.todo .absent =
      3 * plan.numWorkers + (plan.bindIpv4.toNat + plan.bindIpv6.toNat) := by
    rw [Plan.parties, Finset.sum_insert absent, List.sum_toFinset _ plan.creates_nodup, Plan.creates,
      List.map_append, List.sum_append, List.map_map]
    have workers : ((List.range plan.numWorkers).map
        ((fun p => p.todo .absent) ∘ Party.worker)).sum = 3 * plan.numWorkers := by
      rw [Nat.mul_comm]
      simp [Function.comp_def, Party.todo]
    have accepters : (plan.accepters.map fun p => p.todo .absent).sum =
        plan.bindIpv4.toNat + plan.bindIpv6.toNat := by
      unfold Plan.accepters
      cases plan.bindIpv4 <;> cases plan.bindIpv6 <;> rfl
    rw [workers, accepters]
    exact Nat.zero_add _
  change ∑ p ∈ plan.parties, p.todo .absent + State.remaining {} plan.parties = plan.work
  rw [todo, State.remaining_start, plan.card_parties, Plan.count, Plan.work]
  omega

/-- A prologue that goes on by one statement has one less to do. -/
theorem remaining_prologue {p : Party} {next : Prologue} (member : p ∈ plan.parties)
    (new : s'.prologue = Function.update s.prologue p next) (barrier : s'.barrier = s.barrier)
    (one : p.todo next + 1 = p.todo (s.prologue p)) : s'.remaining plan + 1 = s.remaining plan := by
  have moved := sum_update Party.todo s.prologue member next
  rw [← new] at moved
  unfold remaining
  rw [barrier]
  omega

theorem remaining_step {e : Launch} (ok : s.Ordered plan) (silent : e.move? = none)
    (h : s.step server plan e = some s') : s'.remaining plan + 1 = s.remaining plan := by
  cases e with
  | create started =>
    obtain ⟨p, rest, todo, rfl⟩ := create_cases h
    have here : p ∈ s.toCreate := todo ▸ List.mem_cons_self ..
    have inside : p ∈ plan.creates := ok.planned p here
    have absent : s.prologue p = .absent := (ok.created p).mpr (.inr here)
    refine remaining_prologue (Plan.mem_parties.mpr (.inr inside)) rfl rfl ?_
    rw [absent]
    cases p with
    | main => exact absurd inside plan.main_notMem
    | worker w => rfl
    | accepter a => rfl
  | allocate w memory =>
    obtain ⟨slots, worker, here, -, -, rfl⟩ := allocate_cases h
    have inside := ok.mem_creates (p := .worker w) (by simp [here])
    refine remaining_prologue (Plan.mem_parties.mpr (.inr inside)) rfl rfl ?_
    rw [here]
    rfl
  | openQueue w queuefd =>
    obtain ⟨worker, here, -, rfl⟩ := openQueue_cases h
    have inside := ok.mem_creates (p := .worker w) (by simp [here])
    refine remaining_prologue (Plan.mem_parties.mpr (.inr inside)) rfl rfl ?_
    rw [here]
    rfl
  | arrive p =>
    simp only [Startup.step] at h
    split at h
    · rename_i ready
      obtain ⟨barrier, arrived, rfl⟩ := onBarrier_cases h
      have less := State.arrive_remaining (ok.party ready) arrived
      exact congrArg (∑ p ∈ plan.parties, p.todo (s.prologue p) + ·) less
    · cases h
  | leave p =>
    obtain ⟨barrier, away, rfl⟩ := onBarrier_cases h
    obtain ⟨opened, -⟩ := ok.leave away
    obtain ⟨round, -, waits, -⟩ := State.leave_cases away
    have member : p ∈ plan.parties := by
      by_contra outside
      rw [opened.outside p outside] at waits
      cases waits
    have less := State.leave_remaining member away
    exact congrArg (∑ p ∈ plan.parties, p.todo (s.prologue p) + ·) less
  | move m => cases silent

theorem remaining_move {m : Move} (h : s.step server plan (.move m) = some s') :
    s'.remaining plan = s.remaining plan := by
  simp only [Startup.step] at h
  split at h
  · obtain ⟨system, -, rfl⟩ := Option.map_eq_some_iff.mp h
    rfl
  · cases h

/-- The steps that are not moves of the server. -/
def launches (events : List Launch) : Nat := events.countP fun e => e.move?.isNone

theorem remaining_run {events : List Launch} (ok : s.Ordered plan)
    (run : Monitor.run (Startup.step server plan) s events = some s') :
    s'.remaining plan + launches events = s.remaining plan := by
  induction events generalizing s with
  | nil =>
    cases run
    rfl
  | cons e rest ih =>
    obtain ⟨next, first, later⟩ := Option.bind_eq_some_iff.mp run
    have there := ih (ok.step first) later
    cases found : e.move? with
    | none =>
      have one := remaining_step ok found first
      have counted : launches (e :: rest) = launches rest + 1 := by
        simp [launches, found]
      omega
    | some m =>
      have is_move : e = .move m := by
        cases e with
        | move m' => exact congrArg Launch.move (Option.some.inj found)
        | _ => cases found
      subst is_move
      have same := remaining_move first
      have counted : launches (.move m :: rest) = launches rest := by
        simp [launches, found]
      omega

theorem remaining_eq_zero (ok : s.Ordered plan) :
    s.remaining plan = 0 ↔ ∀ p ∈ plan.parties, s.barrier.place p = .past := by
  rw [remaining, Nat.add_eq_zero_iff, State.remaining_eq_zero]
  constructor
  · exact And.right
  · intro past
    refine ⟨Finset.sum_eq_zero ?_, past⟩
    intro p member
    have ready : s.ready p = true := ok.ready p (by simp [past p member])
    by_cases main : p = .main
    · subst main
      have absent := (ok.created .main).mpr (.inl plan.main_notMem)
      rw [absent]
      rfl
    · rw [(ready_iff main).mp ready]
      cases p <;> rfl

/-- Whoever is missing at the barrier, and has been created, goes on. -/
theorem comes (server : Server) (ok : s.Ordered plan) (quiet : s.Quiet plan sockets left)
    (all : s.toCreate = []) {p : Party} (member : p ∈ plan.parties)
    (before : s.barrier.place p = .before) :
    ∃ e : Launch, e.move? = none ∧ (s.step server plan e).isSome := by
  have arrives : s.ready p = true → (s.step server plan (.arrive p)).isSome := by
    intro ready
    simp only [Startup.step, ready, if_true, onBarrier, Option.isSome_map]
    exact State.arrive_isSome before
  rcases Plan.mem_parties.mp member with rfl | inside
  · exact ⟨.arrive .main, rfl, arrives (ready_main.mpr all)⟩
  · have here : s.prologue p ≠ .absent := by
      rw [ne_eq, ok.created p, all]
      simp [inside]
    cases p with
    | main => exact absurd inside plan.main_notMem
    | accepter a =>
      refine ⟨.arrive (.accepter a), rfl, arrives ?_⟩
      rw [ready_iff (by simp)]
      exact (ok.accepters a).resolve_left here
    | worker w =>
      have bound : w < s.system.threads.workers.length :=
        ((plan.worker_mem w).mp inside).trans_eq quiet.size.symm
      have slot := List.getElem?_eq_getElem bound
      cases at_stage : s.prologue (.worker w) with
      | absent => exact absurd at_stage here
      | allocating =>
        refine ⟨.allocate w (some (List.replicate plan.slots (rawSlot none))), rfl, ?_⟩
        simp only [Startup.step, allocate, at_stage, slot, List.length_replicate, if_true,
          Option.isSome_some]
      | queueing =>
        refine ⟨.openQueue w 0, rfl, ?_⟩
        simp only [Startup.step, openQueue, at_stage, slot, lt_self_iff_false, if_false,
          Option.isSome_some]
      | ready =>
        refine ⟨.arrive (.worker w), rfl, arrives ?_⟩
        rw [ready_iff (by simp)]
        exact at_stage

/-- As long as somebody is not past the barrier, somebody goes on. -/
theorem goes_on (ok : s.Ordered plan) {moves : List Move}
    (tracks : s.Tracks server plan sockets left moves)
    (todo : ¬ ∀ p ∈ plan.parties, s.barrier.place p = .past) :
    ∃ e : Launch, e.move? = none ∧ (s.step server plan e).isSome := by
  rcases tracks with ⟨closed, -, quiet⟩ | ⟨opened, -⟩
  · by_cases all : s.toCreate = []
    · obtain ⟨p, member, before⟩ := closed.somebody
      exact comes server ok quiet all member before
    · refine ⟨.create true, rfl, ?_⟩
      simp only [Startup.step, create]
      split
      · rename_i none
        exact absurd none all
      · rfl
  · simp only [not_forall] at todo
    obtain ⟨p, member, behind⟩ := todo
    have waits := (opened.inside p member).resolve_right behind
    refine ⟨.leave p, rfl, ?_⟩
    simp only [Startup.step, onBarrier, Option.isSome_map]
    exact opened.goes waits

end Startup

variable {events : List Launch}

/-- Nobody gets past the barrier before every worker has its slots and its queue, and what the threads
do behind it is a run of the server from the state that the model of the threads starts from. -/
theorem startup_refines (size : raw.length = plan.numWorkers)
    (run : Monitor.run (Startup.step server plan) (.init plan raw sockets left) events = some s) :
    (∀ p, s.barrier.place p ≠ .past) ∧ events.filterMap Launch.move? = [] ∨
      (∀ p ∈ plan.parties, s.ready p = true) ∧ ∃ memory, memory.length = plan.numWorkers ∧
        (∀ blocks ∈ memory, blocks.length = plan.slots) ∧
        Monitor.run (System.step server) (.start memory sockets left)
          (events.filterMap Launch.move?) = some s.system := by
  obtain ⟨ok, tracks⟩ := Startup.Tracks.run .start (.start size) run
  rw [List.nil_append] at tracks
  rcases tracks with ⟨closed, none, -⟩ | ⟨opened, memory, started⟩
  · exact .inl ⟨fun p => closed.not_past, none⟩
  · refine .inr ⟨?_, memory, started.workers, started.slots, started.run⟩
    intro p member
    obtain ⟨all, ready⟩ := ok.finished opened
    rcases Plan.mem_parties.mp member with rfl | inside
    · exact Startup.ready_main.mpr all
    · have other : p ≠ .main := by
        rintro rfl
        exact plan.main_notMem inside
      exact (Startup.ready_iff other).mpr (ready p inside)

def onePlan : Plan := { slots := 1, numWorkers := 1, bindIpv4 := true, bindIpv6 := false }

/-- What malloc returned for one worker, with words that mean nothing. -/
def rawWorker : Worker :=
  { container := { freelistCount := -7, firstFreeConn := some 99, connections := [] }
    queue := fun _ => some 3, thread := .closing 4 [] }

/-- A start of one worker and one accepter, which takes a connection while the worker is still at the
barrier. -/
def oneStart : List Launch :=
  [.create true, .allocate 0 (some [rawSlot none]), .create true, .arrive (.accepter 0),
    .openQueue 0 4, .arrive (.worker 0), .arrive .main, .leave (.accepter 0),
    .move (.accept 0 5 askingTwice fun _ _ => []), .move (.score 0), .move (.take 0),
    .leave (.worker 0), .leave .main]

theorem oneStart_runs : ∃ s, Monitor.run (Startup.step rootServer onePlan)
    (.init onePlan [rawWorker] (fun _ => .accepted askingTwice fun _ _ => []) fun _ => askingTwice)
    oneStart = some s := by
  refine Option.isSome_iff_exists.mp ?_
  decide +kernel

theorem startup_refines_one : ∃ s, Monitor.run (Startup.step rootServer onePlan)
    (.init onePlan [rawWorker] (fun _ => .accepted askingTwice fun _ _ => []) fun _ => askingTwice)
    oneStart = some s ∧
    ((∀ p, s.barrier.place p ≠ .past) ∧ oneStart.filterMap Launch.move? = [] ∨
      (∀ p ∈ onePlan.parties, s.ready p = true) ∧ ∃ memory, memory.length = onePlan.numWorkers ∧
        (∀ blocks ∈ memory, blocks.length = onePlan.slots) ∧
        Monitor.run (System.step rootServer)
          (.start memory (fun _ => .accepted askingTwice fun _ _ => []) fun _ => askingTwice)
          (oneStart.filterMap Launch.move?) = some s.system) := by
  obtain ⟨s, run⟩ := oneStart_runs
  exact ⟨s, run, startup_refines rfl run⟩

/-- The start neither goes on for ever nor gets stuck: it takes `plan.work` steps, and as long as it has
taken fewer, a thread has one, whatever the threads that are past the barrier do. -/
theorem startup_completes (size : raw.length = plan.numWorkers)
    (run : Monitor.run (Startup.step server plan) (.init plan raw sockets left) events = some s) :
    Startup.launches events ≤ plan.work ∧
      (Startup.launches events = plan.work ↔ ∀ p ∈ plan.parties, s.barrier.place p = .past) ∧
      (Startup.launches events < plan.work →
        ∃ e : Launch, e.move? = none ∧ (s.step server plan e).isSome) := by
  obtain ⟨ok, tracks⟩ := Startup.Tracks.run .start (.start size) run
  have counted := Startup.remaining_run .start run
  rw [Startup.remaining_init] at counted
  have done := Startup.remaining_eq_zero ok
  have all : Startup.launches events = plan.work ↔ ∀ p ∈ plan.parties, s.barrier.place p = .past := by
    rw [← done]
    omega
  refine ⟨by omega, all, ?_⟩
  intro fewer
  apply Startup.goes_on ok tracks
  rw [← all]
  exact Nat.ne_of_lt fewer

theorem startup_completes_one : ∃ s, Monitor.run (Startup.step rootServer onePlan)
    (.init onePlan [rawWorker] (fun _ => .accepted askingTwice fun _ _ => []) fun _ => askingTwice)
    oneStart = some s ∧ Startup.launches oneStart ≤ onePlan.work ∧
    (Startup.launches oneStart = onePlan.work ↔ ∀ p ∈ onePlan.parties, s.barrier.place p = .past) ∧
    (Startup.launches oneStart < onePlan.work →
      ∃ e : Launch, e.move? = none ∧ (s.step rootServer onePlan e).isSome) := by
  obtain ⟨s, run⟩ := oneStart_runs
  exact ⟨s, run, startup_completes rfl run⟩

end Steps

end Kitserv
