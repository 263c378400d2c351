import Kitserv.Registration
import Kitserv.Session

/-! The whole server: the threads of kitserv.c with the calls of `kitserv_http_serve_client` that the
workers make, one case of the switch after the other. A call reads and writes what has the number of its
socket at that time. -/
namespace Kitserv

/-- A socket since its accept: the kernel behind it then and now, what the descriptors hold, and the bytes
that have been put on the wire. -/
structure Socket where
  opened : Kernel
  content : Nat → Int → Bytes
  kernel : Kernel
  wire : Bytes

namespace Socket

def accepted (k : Kernel) (content : Nat → Int → Bytes) : Socket :=
  { opened := k, content := content, kernel := k, wire := [] }

def Untouched (socket : Socket) : Prop := socket.kernel = socket.opened ∧ socket.wire = []

def serve (server : Server) (socket : Socket) (c : Client) (k : Kernel) : Socket :=
  { socket with
    kernel := k
    wire := socket.wire ++ (Conn.serving c socket.kernel).puts socket.content server }

end Socket

/-- The threads, the sockets by their numbers, what the last call of each worker left of its kernel, and
the sockets that the workers have closed. -/
structure System where
  threads : Threads
  sockets : Int → Socket
  left : Nat → Kernel
  ended : List Socket := []

/-- The steps of the accepter `a` and the worker `w`. A socket comes with the kernel behind it. -/
inductive Move where
  | accept (a : Nat) (sockfd : Int) (k : Kernel) (content : Nat → Int → Bytes)
  | score (a : Nat)
  | take (a : Nat)
  | add (a : Nat) (ok : Bool)
  | refuse (a : Nat)
  | wait (w : Nat) (ready : List Int)
  | serve (w : Nat)
  | remove (w : Nat)
  | close (w : Nat)
  | release (w : Nat)

namespace System

def start (memory : List (List RawSlot)) (sockets : Int → Socket) (left : Nat → Kernel) : System :=
  { threads := .start memory, sockets := sockets, left := left }

def onThreads (s : System) (threads : Option Threads) : Option System :=
  threads.map fun threads => { s with threads := threads }

def accept (s : System) (a : Nat) (sockfd : Int) (k : Kernel) (content : Nat → Int → Bytes) :
    Option System :=
  (s.threads.accept a sockfd).map fun threads =>
    if sockfd < 0 then { s with threads := threads }
    else { s with
      threads := threads
      sockets := Function.update s.sockets sockfd (.accepted k content) }

/-- One case of the switch of `kitserv_http_serve_client`, for the event that the worker looks at. -/
def serve (server : Server) (s : System) (w : Nat) : Option System :=
  match s.threads.workers[w]? with
  | none => none
  | some worker =>
    match worker.thread with
    | .serving (i :: _) =>
      match worker.container.connections[i]? with
      | none => none
      | some conn =>
        let socket := s.sockets conn.sockfd
        match serveStep server conn.client socket.kernel with
        | .next c k =>
          some { s with
            threads := s.threads.setWorker w { worker with
              container := { worker.container with
                connections := worker.container.connections.set i { conn with client := c } } }
            sockets := Function.update s.sockets conn.sockfd (socket.serve server conn.client k) }
        | .back o =>
          (s.threads.serve w o.client o.rc).map fun threads => { s with
            threads := threads
            sockets := Function.update s.sockets conn.sockfd
              (socket.serve server conn.client o.kernel)
            left := Function.update s.left w o.kernel }
        | .abort => none
    | _ => none

def close (s : System) (w : Nat) : Option System :=
  match s.threads.workers[w]? with
  | none => none
  | some worker =>
    match worker.thread with
    | .closing i _ =>
      match worker.container.connections[i]? with
      | none => none
      | some conn =>
        (s.threads.close w).map fun threads => { s with
          threads := threads
          ended := s.ended ++ [s.sockets conn.sockfd] }
    | _ => none

/-- One step; `none` when it is not its thread's turn to make it, or when it aborts. -/
def step (server : Server) (s : System) : Move → Option System
  | .accept a sockfd k content => s.accept a sockfd k content
  | .score a => s.onThreads (s.threads.score a)
  | .take a => s.onThreads (s.threads.take a)
  | .add a ok => s.onThreads (s.threads.add a ok)
  | .refuse a => s.onThreads (s.threads.refuse a)
  | .wait w ready => s.onThreads (s.threads.wait w ready)
  | .serve w => s.serve server w
  | .remove w => s.onThreads (s.threads.remove w)
  | .close w => s.close w
  | .release w => s.onThreads (s.threads.release w (s.left w))

end System

structure Client.Unused (server : Server) (c : Client) : Prop where
  reached : Reachable server c
  fresh : c.ta = {}
  empty : c.reqHeadersLen = 0

/-- What is assumed of the sockets that are accepted, and of the states that a case of the switch starts
from. -/
structure Terms where
  fine : Kernel → (Nat → Int → Bytes) → Prop
  good : Conn → Prop
  waits : ∀ c k, good (.waiting c k)

def Terms.none : Terms := { fine := fun _ _ => True, good := fun _ => True, waits := fun _ _ => trivial }

/-- A connection that has the socket for itself, from its accept on, comes to `conn`, and what it puts
on the wire is what has been put on that of the socket. -/
def Socket.Alone (server : Server) (terms : Terms) (socket : Socket) (conn : Conn) : Prop :=
  terms.fine socket.opened socket.content ∧ ∃ c n, c.Unused server ∧
    Steps.Meets (Conn.step server) terms.good n (.serving c socket.opened) ∧
    Conn.run server n (.serving c socket.opened) = conn ∧
    (Conn.serving c socket.opened).wire socket.content server n = socket.wire

section Alone

variable {server : Server} {terms : Terms} {socket : Socket} {c : Client} {k : Kernel}

theorem Socket.Alone.begin (fine : terms.fine socket.opened socket.content)
    (untouched : socket.Untouched) (unused : c.Unused server) :
    socket.Alone server terms (.serving c socket.kernel) := by
  refine ⟨fine, c, 0, unused, fun m lt => absurd lt (Nat.not_lt_zero m), ?_, untouched.2.symm⟩
  rw [untouched.1]
  rfl

theorem Socket.Alone.step {conn : Conn} {socket' : Socket} (alone : socket.Alone server terms conn)
    (good : terms.good conn) (opened : socket'.opened = socket.opened)
    (content : socket'.content = socket.content)
    (wire : socket'.wire = socket.wire ++ conn.puts socket.content server) :
    socket'.Alone server terms (conn.step server) := by
  obtain ⟨fine, c, n, unused, meets, rfl, same⟩ := alone
  rw [Socket.Alone, opened, content, wire]
  refine ⟨fine, c, n + 1, unused, meets.snoc good, Function.iterate_succ_apply' .., ?_⟩
  rw [Conn.wire, Steps.collect_succ, ← Conn.wire, same]
  rfl

theorem Socket.Alone.wake (alone : socket.Alone server terms (.waiting c k)) :
    socket.Alone server terms (.serving c k) :=
  alone.step (terms.waits c k) rfl rfl (List.append_nil _).symm

theorem Socket.Alone.serve {k' : Kernel} (alone : socket.Alone server terms (.serving c socket.kernel))
    (good : terms.good (.serving c socket.kernel)) :
    (socket.serve server c k').Alone server terms ((Conn.serving c socket.kernel).step server) :=
  alone.step good rfl rfl rfl

theorem Socket.Alone.reached (alone : socket.Alone server terms (.serving c k)) :
    Reachable server c := by
  obtain ⟨-, c₀, n, unused, -, run, -⟩ := alone
  have reached := run_reachable n socket.opened unused.reached
  rw [run] at reached
  exact reached

end Alone

inductive Turn where
  | rests
  | called
  | leaving
  | released
  deriving DecidableEq

def WorkerThread.turn (i : Nat) : WorkerThread → Turn
  | serving (j :: _) => if j = i then .called else .rests
  | serving [] => .rests
  | removing j _ | closing j _ => if j = i then .leaving else .rests
  | releasing j _ => if j = i then .released else .rests

def SlotOk (server : Server) (terms : Terms) (socket : Socket) (left : Kernel) (c : Client) :
    Turn → Prop
  | .rests => socket.Alone server terms (.waiting c socket.kernel) ∨
      terms.fine socket.opened socket.content ∧ socket.Untouched ∧ c.Unused server
  | .called => socket.Alone server terms (.serving c socket.kernel)
  | .leaving => left = socket.kernel ∧ Reachable server (resetClient c left).1 ∧
      socket.Alone server terms (.closed (resetClient c left).1 (resetClient c left).2)
  | .released => Reachable server (resetClient c left).1

def WorkerOk (server : Server) (terms : Terms) (sockets : Int → Socket) (left : Kernel)
    (worker : Worker) : Prop :=
  ∀ (i : Nat) conn, worker.container.connections[i]? = some conn →
    if i ∈ worker.container.freeSlots then conn.client.Unused server
    else SlotOk server terms (sockets conn.sockfd) left conn.client (worker.thread.turn i)

def AccepterThread.holds (fd : Int) : AccepterThread → Prop
  | selecting sockfd _ _ _ | refusing sockfd => sockfd = fd
  | accepting | adding _ _ _ => False

structure Isolated (server : Server) (terms : Terms) (s : System) : Prop where
  hands : ∀ a fd, (s.threads.accepters a).holds fd →
    terms.fine (s.sockets fd).opened (s.sockets fd).content ∧ (s.sockets fd).Untouched
  workers : ∀ (w : Nat) worker, s.threads.workers[w]? = some worker →
    WorkerOk server terms s.sockets (s.left w) worker
  ended : ∀ socket ∈ s.ended, ∃ c, socket.Alone server terms
    (.closed (resetClient c socket.kernel).1 (resetClient c socket.kernel).2)

section Slots

variable {server : Server} {terms : Terms} {socket : Socket} {left : Kernel} {c : Client}
  {sockets sockets' : Int → Socket} {worker : Worker} {i : Nat} {conn : Connection}

theorem SlotOk.call (h : SlotOk server terms socket left c .rests) :
    SlotOk server terms socket left c .called := by
  rcases h with waits | ⟨fine, untouched, unused⟩
  · exact waits.wake
  · exact .begin fine untouched unused

/-- The next event is looked at. -/
theorem SlotOk.goOn (h : SlotOk server terms socket left c .rests) (events : List Nat) :
    SlotOk server terms socket left c ((WorkerThread.serving events).turn i) := by
  cases events with
  | nil => exact h
  | cons j rest =>
    simp only [WorkerThread.turn]
    split
    · exact h.call
    · exact h

theorem SlotOk.congr_left {left' : Kernel} {turn : Turn} (h : SlotOk server terms socket left c turn)
    (turns : turn = .rests ∨ turn = .called) : SlotOk server terms socket left' c turn := by
  rcases turns with rfl | rfl <;> exact h

theorem WorkerOk.frame (h : WorkerOk server terms sockets left worker)
    (same : ∀ (i : Nat) conn, worker.container.connections[i]? = some conn →
      i ∉ worker.container.freeSlots → worker.thread.turn i ≠ .released →
      sockets' conn.sockfd = sockets conn.sockfd) :
    WorkerOk server terms sockets' left worker := by
  intro i conn slot
  have ok := h i conn slot
  split
  · rename_i free
    rwa [if_pos free] at ok
  · rename_i used
    rw [if_neg used] at ok
    by_cases released : worker.thread.turn i = .released
    · rw [released] at ok ⊢
      exact ok
    · rwa [same i conn slot used released]

theorem walk_congr {container container' : ConnectionContainer} (next : container'.next = container.next)
    (n : Nat) (link : Link) : container'.walk n link = container.walk n link := by
  induction n generalizing link with
  | zero => rfl
  | succ n ih =>
    cases link with
    | none => rfl
    | some j => simp only [ConnectionContainer.walk, next, ih]

theorem freeSlots_setClient {container : ConnectionContainer} (client : Client)
    (slot : container.connections[i]? = some conn) :
    { container with
      connections := container.connections.set i { conn with client := client } }.freeSlots =
        container.freeSlots := by
  refine walk_congr ?_ _ _
  funext j
  by_cases same : i = j
  · subst same
    obtain ⟨inside, -⟩ := List.getElem?_eq_some_iff.mp slot
    simp only [ConnectionContainer.next, List.getElem?_set_self inside, slot, Option.map_some]
  · simp only [ConnectionContainer.next, next_set same]

theorem FreeChain.freeSlots_take {n : Nat} {used : Nat → Prop} {container container' : ConnectionContainer}
    {free : List Nat} {last : Link} {fd : Int} (chain : FreeChain n used container free last)
    (accepted : connectionAccept container fd = some (some i, container')) :
    ∃ conn, container.connections[i]? = some conn ∧
      container'.connections = container.connections.set i { conn with sockfd := fd } ∧
      container.freeSlots = i :: container'.freeSlots ∧ i ∉ container'.freeSlots := by
  cases free with
  | nil =>
    rw [chain.full] at accepted
    split at accepted <;> cases accepted
  | cons j rest =>
    obtain ⟨conn, slot, found, taken⟩ := chain.take fd
    cases accepted.symm.trans found
    refine ⟨conn, slot, rfl, ?_, ?_⟩
    · rw [chain.freeSlots, taken.freeSlots]
    · rw [taken.freeSlots]
      exact (List.nodup_cons.mp chain.nodup).1

theorem FreeChain.freeSlots_close {n : Nat} {used : Nat → Prop}
    {container container' : ConnectionContainer} {free : List Nat} {last : Link} {k k' : Kernel}
    (chain : FreeChain n used container free last) (lt : i < n) (taken : used i)
    (closed : connectionClose container k i = some (container', k')) :
    ∃ conn, container.connections[i]? = some conn ∧
      container'.connections = container.connections.set i
        { conn with nextConn := container.firstFreeConn, client := (resetClient conn.client k).1 } ∧
      container'.freeSlots = i :: container.freeSlots := by
  have chain' := chain.close lt taken closed
  simp only [connectionClose, Option.map_eq_some_iff, Prod.mk.injEq] at closed
  obtain ⟨conn, slot, rfl, -⟩ := closed
  exact ⟨conn, slot, rfl, by rw [chain.freeSlots, chain'.freeSlots]⟩

end Slots

section Holders

variable {memory : List (List RawSlot)} {holders : Holders} {s : Threads} {w i : Nat} {worker : Worker}
  {conn : Connection}

/-- A slot that is in use, and whose socket has not been closed, has the socket of its record. -/
theorem Tracks.uses (t : Tracks memory holders s) (found : s.workers[w]? = some worker)
    (slot : worker.container.connections[i]? = some conn) (used : i ∉ worker.container.freeSlots)
    (turn : worker.thread.turn i ≠ .released) : holders.At conn.sockfd w i := by
  obtain ⟨slots, slotsAt⟩ := t.slots found
  have tracks := t.workers w slots worker slotsAt found
  obtain ⟨free, chain⟩ := tracks.chain
  obtain ⟨inside, -⟩ := List.getElem?_eq_some_iff.mp slot
  rw [chain.freeSlots, chain.member, ← chain.size] at used
  rcases not_not.mp (not_and.mp used inside) with ⟨fd, held⟩ | ⟨events, releasing⟩
  · obtain ⟨conn', slot', rfl⟩ := tracks.sock fd i held
    cases slot.symm.trans slot'
    exact held
  · rw [releasing] at turn
    exact absurd (if_pos rfl) turn

theorem Tracks.free_rests (t : Tracks memory holders s) (found : s.workers[w]? = some worker)
    (free : i ∈ worker.container.freeSlots) : worker.thread.turn i = .rests := by
  obtain ⟨slots, slotsAt⟩ := t.slots found
  have tracks := t.workers w slots worker slotsAt found
  obtain ⟨list, chain⟩ := tracks.chain
  rw [chain.freeSlots, chain.member] at free
  have unheld {h : Holder} {fd : Int} (held : holders fd = some h) : h.slot ≠ some (w, i) :=
    fun slot => free.2 (.inl ⟨fd, h, held, slot⟩)
  have quiet (pends : i ∈ worker.thread.pending) : False := by
    obtain ⟨fd, held⟩ := tracks.pending i pends
    exact unheld held rfl
  have closing := tracks.closing i
  cases thread : worker.thread with
  | serving events =>
    cases events with
    | nil => rfl
    | cons j rest =>
      refine if_neg ?_
      rintro rfl
      exact quiet (by simp [thread, WorkerThread.pending])
  | removing j events =>
    refine if_neg ?_
    rintro rfl
    exact quiet (by simp [thread, WorkerThread.pending])
  | closing j events =>
    refine if_neg ?_
    rintro rfl
    obtain ⟨fd, held⟩ := closing events thread
    exact unheld held rfl
  | releasing j events =>
    refine if_neg ?_
    rintro rfl
    exact free.2 (.inr ⟨events, thread⟩)

theorem Holders.At.sole {fd : Int} {v j : Nat} (one : holders.At fd w i) (other : holders.At fd v j) :
    v = w ∧ j = i := by
  obtain ⟨h, held, slot⟩ := one
  obtain ⟨h', held', slot'⟩ := other
  cases held.symm.trans held'
  cases slot.symm.trans slot'
  exact ⟨rfl, rfl⟩

theorem Tracks.at_isOpen {fd : Int} (t : Tracks memory holders s) (held : holders.At fd w i) :
    s.isOpen fd = true := by
  obtain ⟨h, held, -⟩ := held
  rw [t.isOpen, held, Option.isSome_some]

/-- The socket in the hands of an accepter is of no slot. -/
theorem Tracks.holds {fd : Int} {a : Nat} (t : Tracks memory holders s)
    (hand : (s.accepters a).holds fd) : holders fd = some (.accepter a) := by
  have tracks := t.hand a
  cases thread : s.accepters a with
  | accepting | adding =>
    rw [thread] at hand
    exact hand.elim
  | selecting | refusing =>
    rw [thread] at hand tracks
    cases hand
    exact tracks

end Holders

section Steps

variable {server : Server} {terms : Terms} {memory : List (List RawSlot)} {holders : Holders}
  {s s' : System} {threads : Threads} {a w : Nat}

theorem System.onThreads_some {result : Option Threads} (h : s.onThreads result = some s') :
    ∃ threads, result = some threads ∧ s' = { s with threads := threads } := by
  obtain ⟨threads, found, same⟩ := Option.map_eq_some_iff.mp h
  exact ⟨threads, found, same.symm⟩

theorem WorkerOk.congr {sockets : Int → Socket} {left : Kernel} {worker worker' : Worker}
    (h : WorkerOk server terms sockets left worker) (container : worker'.container = worker.container)
    (turn : ∀ i, worker'.thread.turn i = worker.thread.turn i) :
    WorkerOk server terms sockets left worker' := by
  intro i conn slot
  rw [container] at slot
  have ok := h i conn slot
  rwa [container, turn]

/-- What holds of the worker that has changed, and of the others, holds of all. -/
theorem workers_after {P : Nat → Worker → Prop} {workers : List Worker} {worker' : Worker}
    (mine : P w worker') (others : ∀ v worker, v ≠ w → workers[v]? = some worker → P v worker)
    (v : Nat) (worker : Worker) (found : (workers.set w worker')[v]? = some worker) : P v worker := by
  by_cases same : w = v
  · subst same
    have inside : w < workers.length := by
      obtain ⟨inside, -⟩ := List.getElem?_eq_some_iff.mp found
      rwa [List.length_set] at inside
    rw [List.getElem?_set_self inside] at found
    cases found
    exact mine
  · rw [List.getElem?_set_ne same] at found
    exact others v worker (Ne.symm same) found

theorem Isolated.onThreads (h : Isolated server terms s)
    (hands : ∀ b fd, (threads.accepters b).holds fd → (s.threads.accepters b).holds fd)
    (workers : ∀ (w : Nat) worker, threads.workers[w]? = some worker →
      WorkerOk server terms s.sockets (s.left w) worker) :
    Isolated server terms { s with threads := threads } :=
  ⟨fun b fd hand => h.hands b fd (hands b fd hand), workers, h.ended⟩

theorem holds_update {thread : AccepterThread} {accepters : Nat → AccepterThread}
    (mine : ∀ fd, thread.holds fd → (accepters a).holds fd) (b : Nat) (fd : Int)
    (hand : (Function.update accepters a thread b).holds fd) : (accepters b).holds fd := by
  by_cases same : b = a
  · subst same
    rw [Function.update_self] at hand
    exact mine fd hand
  · rwa [Function.update_of_ne same] at hand

theorem isolated_accept {fd : Int} {k : Kernel} {content : Nat → Int → Bytes}
    (t : Tracks memory holders s.threads) (h : Isolated server terms s) (fine : terms.fine k content)
    (step : s.accept a fd k content = some s') : Isolated server terms s' := by
  obtain ⟨threads, accepted, rfl⟩ := Option.map_eq_some_iff.mp step
  unfold Threads.accept at accepted
  split at accepted
  · by_cases negative : fd < 0
    · rw [if_pos negative] at accepted
      cases accepted
      rw [if_pos negative]
      exact h
    · rw [if_neg negative] at accepted
      split at accepted
      · cases accepted
      · rename_i shut
        cases accepted
        rw [if_neg negative]
        -- nobody holds the number of the new socket
        have other {fd' : Int} (isOpen : s.threads.isOpen fd' = true) : fd' ≠ fd := by
          rintro rfl
          exact shut isOpen
        refine ⟨fun b fd' hand => ?_, fun w worker found => ?_, h.ended⟩
        · by_cases same : b = a
          · subst same
            simp only [Threads.note, Threads.setAccepter, Function.update_self] at hand
            cases hand
            simp only [Function.update_self]
            exact ⟨fine, rfl, rfl⟩
          · simp only [Threads.note, Threads.setAccepter, Function.update_of_ne same] at hand
            have held : holders fd' = some (.accepter b) := t.holds hand
            have isOpen : s.threads.isOpen fd' = true := by rw [t.isOpen, held, Option.isSome_some]
            simp only [Function.update_of_ne (other isOpen)]
            exact h.hands b fd' hand
        · refine (h.workers w worker found).frame fun i conn slot used turn => ?_
          exact Function.update_of_ne (other (t.at_isOpen (t.uses found slot used turn))) ..
  · cases accepted

theorem isolated_score (h : Isolated server terms s) (step : s.threads.score a = some threads) :
    Isolated server terms { s with threads := threads } := by
  unfold Threads.score at step
  split at step
  · rename_i fd i best bestScore selecting
    split at step
    · cases step
    · simp only at step
      split at step
      · cases step
      · split at step
        all_goals
          cases step
          exact h.onThreads (holds_update fun fd' hand => by rw [selecting]; exact hand) h.workers
  · cases step

theorem isolated_take (t : Tracks memory holders s.threads) (h : Isolated server terms s)
    (step : s.threads.take a = some threads) : Isolated server terms { s with threads := threads } := by
  unfold Threads.take at step
  split at step
  · rename_i fd i victim score selecting
    have hand : (s.threads.accepters a).holds fd := by
      rw [selecting]
      exact rfl
    split at step
    · split at step
      · cases step
      · rename_i worker found
        split at step
        · cases step
        · cases step
          exact h.onThreads (holds_update fun fd' hand => by rw [selecting]; exact hand) h.workers
        · rename_i i container accepted
          cases step
          refine h.onThreads (holds_update fun fd' hand => hand.elim) ?_
          refine workers_after ?_ fun v worker _ => h.workers v worker
          obtain ⟨slots, slotsAt⟩ := t.slots found
          obtain ⟨free, chain⟩ := (t.workers victim slots worker slotsAt found).chain
          obtain ⟨conn, slot, connections, taken, gone⟩ := chain.freeSlots_take accepted
          obtain ⟨inside, -⟩ := List.getElem?_eq_some_iff.mp slot
          intro j conn' slot'
          rw [connections] at slot'
          by_cases same : i = j
          · subst same
            rw [List.getElem?_set_self inside] at slot'
            cases slot'
            rw [if_neg gone]
            have unused := h.workers victim worker found i conn slot
            rw [taken, if_pos (List.mem_cons_self ..)] at unused
            obtain ⟨fine, untouched⟩ := h.hands a fd hand
            -- no event is about a slot that has been free
            have rests : worker.thread.turn i = .rests :=
              t.free_rests found (taken ▸ List.mem_cons_self ..)
            simp only [rests]
            exact .inr ⟨fine, untouched, unused⟩
          · rw [List.getElem?_set_ne same] at slot'
            have ok := h.workers victim worker found j conn' slot'
            simpa only [taken, List.mem_cons, Ne.symm same, false_or] using ok
    · cases step
  · cases step

theorem isolated_add {ok : Bool} (h : Isolated server terms s) (step : s.threads.add a ok = some threads) :
    Isolated server terms { s with threads := threads } := by
  unfold Threads.add at step
  split at step
  · rename_i fd victim i adding
    split at step
    · cases step
    · rename_i worker found
      split at step
      · cases step
        refine h.onThreads (holds_update fun fd' hand => hand.elim) ?_
        exact workers_after ((h.workers victim worker found).congr rfl fun _ => rfl)
          fun v worker _ => h.workers v worker
      · cases step
        exact h.onThreads (holds_update fun fd' hand => hand.elim) h.workers
  · cases step

theorem isolated_refuse (h : Isolated server terms s) (step : s.threads.refuse a = some threads) :
    Isolated server terms { s with threads := threads } := by
  unfold Threads.refuse at step
  split at step
  · cases step
    exact h.onThreads (holds_update fun fd' hand => hand.elim) h.workers
  · cases step

theorem isolated_wait {ready : List Int} (h : Isolated server terms s)
    (step : s.threads.wait w ready = some threads) :
    Isolated server terms { s with threads := threads } := by
  unfold Threads.wait at step
  split at step
  · cases step
  · rename_i worker found
    split at step
    · rename_i idle
      split at step
      · cases step
        refine h.onThreads (fun _ _ hand => hand) ?_
        refine workers_after (fun i conn slot => ?_) fun v worker _ => h.workers v worker
        have ok := h.workers w worker found i conn slot
        simp only [idle, WorkerThread.turn] at ok
        split
        · rename_i free
          rwa [if_pos free] at ok
        · rename_i used
          rw [if_neg used] at ok
          exact ok.goOn _
      · cases step
    · cases step

theorem isolated_remove (h : Isolated server terms s) (step : s.threads.remove w = some threads) :
    Isolated server terms { s with threads := threads } := by
  unfold Threads.remove at step
  split at step
  · cases step
  · rename_i worker found
    split at step
    · rename_i i events busy
      split at step
      · cases step
      · cases step
        refine h.onThreads (fun _ _ hand => hand) ?_
        refine workers_after ((h.workers w worker found).congr rfl fun j => ?_)
          fun v worker _ => h.workers v worker
        rw [busy]
        rfl
    · cases step

/-- A case of the switch changes the slot and the socket of the event, and no other. -/
theorem isolated_slot {worker : Worker} {i : Nat} {events : List Nat} {conn : Connection}
    {thread : WorkerThread} {socket : Socket} {left : Kernel} {c : Client}
    (t : Tracks memory holders s.threads) (h : Isolated server terms s)
    (found : s.threads.workers[w]? = some worker) (busy : worker.thread = .serving (i :: events))
    (slot : worker.container.connections[i]? = some conn)
    (mine : SlotOk server terms socket left c (thread.turn i))
    (goesOn : ∀ j ≠ i, ∀ socket c, SlotOk server terms socket left c .rests →
      SlotOk server terms socket left c (thread.turn j)) :
    Isolated server terms { s with
      threads := s.threads.setWorker w { worker with
        container := { worker.container with
          connections := worker.container.connections.set i { conn with client := c } }
        thread := thread }
      sockets := Function.update s.sockets conn.sockfd socket
      left := Function.update s.left w left } := by
  have called : worker.thread.turn i = .called := by
    rw [busy]
    exact if_pos rfl
  have used : i ∉ worker.container.freeSlots := fun free => by
    cases called.symm.trans (t.free_rests found free)
  have held : holders.At conn.sockfd w i := t.uses found slot used (by simp [called])
  obtain ⟨inside, -⟩ := List.getElem?_eq_some_iff.mp slot
  -- the socket of another slot is another one
  have other {v : Nat} {found' : Worker} (foundAt : s.threads.workers[v]? = some found') (j : Nat)
      (conn' : Connection) (slot' : found'.container.connections[j]? = some conn')
      (used' : j ∉ found'.container.freeSlots) (turn : found'.thread.turn j ≠ .released)
      (different : ¬ (v = w ∧ j = i)) :
      Function.update s.sockets conn.sockfd socket conn'.sockfd = s.sockets conn'.sockfd := by
    refine Function.update_of_ne (fun same => different ?_) ..
    have held' := t.uses foundAt slot' used' turn
    rw [same] at held'
    exact held.sole held'
  refine ⟨fun b fd hand => ?_, ?_, h.ended⟩
  · have apart : fd ≠ conn.sockfd := by
      rintro rfl
      obtain ⟨holder, here, place⟩ := held
      cases here.symm.trans (t.holds hand)
      cases place
    simp only [Function.update_of_ne apart]
    exact h.hands b fd hand
  · refine workers_after (fun j conn' slot' => ?_) fun v found' different foundAt => ?_
    · simp only [freeSlots_setClient c slot, Function.update_self]
      by_cases same : i = j
      · subst same
        simp only [List.getElem?_set_self inside] at slot'
        cases slot'
        simpa only [if_neg used, Function.update_self] using mine
      · simp only [List.getElem?_set_ne same] at slot'
        have ok := h.workers w worker found j conn' slot'
        have rests : worker.thread.turn j = .rests := by
          rw [busy]
          exact if_neg same
        rw [rests] at ok
        split
        · rename_i free
          rwa [if_pos free] at ok
        · rename_i taken
          rw [if_neg taken] at ok
          rw [other found j conn' slot' taken (by simp [rests]) (by simp [Ne.symm same])]
          exact goesOn j (Ne.symm same) _ _ (ok.congr_left (.inl rfl))
    · simp only [Function.update_of_ne different]
      refine (h.workers v found' foundAt).frame fun j conn' slot' used' turn => ?_
      exact other foundAt j conn' slot' used' turn (by simp [different])

theorem System.serve_some (step : s.serve server w = some s') : ∃ worker i events conn,
    s.threads.workers[w]? = some worker ∧ worker.thread = .serving (i :: events) ∧
      worker.container.connections[i]? = some conn ∧
      ((∃ c k, serveStep server conn.client (s.sockets conn.sockfd).kernel = .next c k ∧
          s' = { s with
            threads := s.threads.setWorker w { worker with
              container := { worker.container with
                connections := worker.container.connections.set i { conn with client := c } } }
            sockets := Function.update s.sockets conn.sockfd
              ((s.sockets conn.sockfd).serve server conn.client k) }) ∨
        ∃ o, serveStep server conn.client (s.sockets conn.sockfd).kernel = .back o ∧
          s' = { s with
            threads := s.threads.setWorker w { worker with
              container := { worker.container with
                connections := worker.container.connections.set i { conn with client := o.client } }
              thread := if o.rc ≠ 0 then .removing i events else .serving events }
            sockets := Function.update s.sockets conn.sockfd
              ((s.sockets conn.sockfd).serve server conn.client o.kernel)
            left := Function.update s.left w o.kernel }) := by
  unfold System.serve at step
  split at step
  · cases step
  · rename_i worker found
    split at step
    · rename_i i events busy
      split at step
      · cases step
      · rename_i conn slot
        refine ⟨worker, i, events, conn, found, busy, slot, ?_⟩
        simp only at step
        split at step
        · rename_i c k served
          cases step
          exact .inl ⟨c, k, served, rfl⟩
        · rename_i o served
          simp only [Threads.serve, found, busy, slot, Option.map_some, Option.some.injEq] at step
          exact .inr ⟨o, served, step.symm⟩
        · cases step
    · cases step

def Worker.call? (sockets : Int → Socket) (worker : Worker) : Option Conn :=
  match worker.thread with
  | .serving (i :: _) => worker.container.connections[i]?.map fun conn =>
      .serving conn.client (sockets conn.sockfd).kernel
  | _ => none

def System.Meets (good : Conn → Prop) (s : System) : Prop :=
  ∀ worker ∈ s.threads.workers, ∀ conn ∈ worker.call? s.sockets, good conn

instance {good : Conn → Prop} [DecidablePred good] : DecidablePred (System.Meets good) := fun s =>
  inferInstanceAs (Decidable (∀ worker ∈ s.threads.workers, ∀ conn ∈ worker.call? s.sockets, good conn))

theorem isolated_serve (t : Tracks memory holders s.threads) (h : Isolated server terms s)
    (good : s.Meets terms.good) (step : s.serve server w = some s') : Isolated server terms s' := by
  obtain ⟨worker, i, events, conn, found, busy, slot, served⟩ := System.serve_some step
  have called : worker.thread.turn i = .called := by
    rw [busy]
    exact if_pos rfl
  have alone := h.workers w worker found i conn slot
  rw [called, if_neg (fun free => by cases called.symm.trans (t.free_rests found free))] at alone
  have good : terms.good (.serving conn.client (s.sockets conn.sockfd).kernel) :=
    good worker (List.mem_of_getElem? found) _ (by simp only [Worker.call?, busy, slot]; rfl)
  have reached := alone.reached
  rcases served with ⟨c, k, next, rfl⟩ | ⟨o, back, rfl⟩
  · have after : ((s.sockets conn.sockfd).serve server conn.client k).Alone server terms _ :=
      alone.serve good
    simp only [Conn.step, next] at after
    have mine : SlotOk server terms ((s.sockets conn.sockfd).serve server conn.client k) (s.left w) c
        (worker.thread.turn i) := by
      rw [called]
      exact after
    have ok := isolated_slot t h found busy slot mine fun j different socket c ok => by
      rw [busy]
      exact ok.goOn _
    rwa [Function.update_eq_self] at ok
  · have after : ((s.sockets conn.sockfd).serve server conn.client o.kernel).Alone server terms _ :=
      alone.serve good
    simp only [Conn.step, back] at after
    refine isolated_slot t h found busy slot ?_ fun j different socket c ok => ?_
    · by_cases rc : o.rc = 0
      · rw [if_pos rc] at after
        rw [if_neg (not_not.mpr rc)]
        exact SlotOk.goOn (.inl after) events
      · rw [if_neg rc] at after
        rw [if_pos rc]
        simp only [WorkerThread.turn, if_true]
        exact ⟨rfl, reached.reset back, after⟩
    · split
      · simp only [WorkerThread.turn, if_neg (Ne.symm different)]
        exact ok
      · exact ok.goOn _

theorem isolated_close (h : Isolated server terms s) (t : Tracks memory holders s.threads)
    (step : s.close w = some s') : Isolated server terms s' := by
  unfold System.close at step
  split at step
  · cases step
  · rename_i worker found
    split at step
    · rename_i i events busy
      split at step
      · cases step
      · rename_i conn slot
        simp only [Threads.close, found, busy, slot, Option.map_some, Option.some.injEq] at step
        subst step
        have leaving : worker.thread.turn i = .leaving := by
          rw [busy]
          exact if_pos rfl
        have ok := h.workers w worker found i conn slot
        rw [leaving, if_neg (fun free => by cases leaving.symm.trans (t.free_rests found free))] at ok
        obtain ⟨left, reached, alone⟩ := ok
        refine ⟨h.hands, ?_, fun socket member => ?_⟩
        · refine workers_after (fun j conn' slot' => ?_) fun v worker _ => h.workers v worker
          have ok := h.workers w worker found j conn' slot'
          simp only [busy, WorkerThread.turn] at ok ⊢
          by_cases same : i = j
          · subst same
            cases slot.symm.trans slot'
            rw [if_pos rfl] at ok ⊢
            split
            · rename_i free
              rwa [if_pos free] at ok
            · exact reached
          · rw [if_neg same] at ok ⊢
            exact ok
        · rcases List.mem_append.mp member with earlier | last
          · exact h.ended socket earlier
          · rw [List.mem_singleton] at last
            subst last
            rw [left] at alone
            exact ⟨conn.client, alone⟩
    · cases step

theorem isolated_release (t : Tracks memory holders s.threads) (h : Isolated server terms s)
    (step : s.threads.release w (s.left w) = some threads) :
    Isolated server terms { s with threads := threads } := by
  unfold Threads.release at step
  split at step
  · cases step
  · rename_i worker found
    split at step
    · rename_i i events busy
      split at step
      · cases step
      · rename_i container k' closed
        cases step
        have released : worker.thread.turn i = .released := by
          rw [busy]
          exact if_pos rfl
        have used : i ∉ worker.container.freeSlots := fun free => by
          cases released.symm.trans (t.free_rests found free)
        obtain ⟨slots, slotsAt⟩ := t.slots found
        have tracks := t.workers w slots worker slotsAt found
        obtain ⟨lt, -⟩ := tracks.releasing i events busy
        obtain ⟨free, chain⟩ := tracks.chain
        obtain ⟨conn, slot, connections, freed⟩ :=
          chain.freeSlots_close lt (.inr ⟨events, busy⟩) closed
        obtain ⟨inside, -⟩ := List.getElem?_eq_some_iff.mp slot
        have reached := h.workers w worker found i conn slot
        rw [released, if_neg used] at reached
        refine h.onThreads (fun _ _ hand => hand) ?_
        refine workers_after (fun j conn' slot' => ?_) fun v worker _ => h.workers v worker
        simp only [connections] at slot'
        simp only [freed, List.mem_cons]
        by_cases same : i = j
        · subst same
          rw [List.getElem?_set_self inside] at slot'
          cases slot'
          rw [if_pos (.inl rfl)]
          exact ⟨reached, rfl, rfl⟩
        · rw [List.getElem?_set_ne same] at slot'
          have ok := h.workers w worker found j conn' slot'
          have rests : worker.thread.turn j = .rests := by
            rw [busy]
            exact if_neg same
          rw [rests] at ok
          simp only [Ne.symm same, false_or]
          split
          · rename_i free
            rwa [if_pos free] at ok
          · rename_i taken
            rw [if_neg taken] at ok
            exact ok.goOn events
    · cases step

theorem isolated_start (sockets : Int → Socket) (left : Nat → Kernel) :
    Isolated server terms (.start memory sockets left) := by
  refine ⟨fun a fd hand => hand.elim, fun w worker found i conn slot => ?_, by simp [System.start]⟩
  simp only [System.start, Threads.start, List.getElem?_map, Option.map_eq_some_iff] at found
  obtain ⟨slots, -, rfl⟩ := found
  have free : i ∈ (connectionInit slots).freeSlots := by
    obtain ⟨inside, -⟩ := List.getElem?_eq_some_iff.mp slot
    have chain := connectionInit_chain slots
    rw [chain.freeSlots, List.mem_range, ← chain.size]
    exact inside
  rw [if_pos free]
  simp only [connectionInit, List.getElem?_mapIdx, Option.map_eq_some_iff] at slot
  obtain ⟨raw, -, rfl⟩ := slot
  exact ⟨.created raw.blocks, rfl, rfl⟩

def Move.Fine (fine : Kernel → (Nat → Int → Bytes) → Prop) : Move → Prop
  | accept _ _ k content => fine k content
  | _ => True

theorem tracks_serve (t : Tracks memory holders s.threads) (step : s.serve server w = some s') :
    ∃ holders, Tracks memory holders s'.threads := by
  obtain ⟨worker, i, events, conn, found, busy, slot, served⟩ := System.serve_some step
  rcases served with ⟨c, k, -, rfl⟩ | ⟨o, -, rfl⟩
  · refine ⟨holders, t.setWorker found fun slots slotsAt => ?_⟩
    have tracks := t.workers w slots worker slotsAt found
    obtain ⟨fd, held⟩ := tracks.pending i (by simp [busy, WorkerThread.pending])
    exact tracks.serve c ⟨_, held, rfl⟩ slot
  · have served : s.threads.serve w o.client o.rc = some (s.threads.setWorker w { worker with
        container := { worker.container with
          connections := worker.container.connections.set i { conn with client := o.client } }
        thread := if o.rc ≠ 0 then .removing i events else .serving events }) := by
      simp only [Threads.serve, found, busy, slot]
    obtain ⟨holders', tracks, -⟩ := t.serve served
    exact ⟨holders', tracks⟩

theorem System.accept_threads {fd : Int} {k : Kernel} {content : Nat → Int → Bytes}
    (step : s.accept a fd k content = some s') : s.threads.accept a fd = some s'.threads := by
  obtain ⟨threads, accepted, rfl⟩ := Option.map_eq_some_iff.mp step
  rw [accepted]
  split <;> rfl

theorem System.close_threads (step : s.close w = some s') : s.threads.close w = some s'.threads := by
  unfold System.close at step
  split at step
  · cases step
  · split at step
    · split at step
      · cases step
      · obtain ⟨threads, closed, rfl⟩ := Option.map_eq_some_iff.mp step
        exact closed
    · cases step

/-- The threads of the server go on as the threads alone. -/
theorem tracks_move {move : Move} (t : Tracks memory holders s.threads)
    (step : s.step server move = some s') : ∃ holders, Tracks memory holders s'.threads := by
  have moves {action : Action} (moved : s.threads.step action = some s'.threads) :
      ∃ holders, Tracks memory holders s'.threads := by
    obtain ⟨holders', tracks, -⟩ := t.step moved
    exact ⟨holders', tracks⟩
  have threads {action : Action} (moved : s.onThreads (s.threads.step action) = some s') :
      ∃ holders, Tracks memory holders s'.threads := by
    obtain ⟨threads, found, rfl⟩ := System.onThreads_some moved
    exact moves found
  cases move with
  | accept a fd k content => exact @moves (.accept a fd) (System.accept_threads step)
  | score a => exact @threads (.score a) step
  | take a => exact @threads (.take a) step
  | add a ok => exact @threads (.add a ok) step
  | refuse a => exact @threads (.refuse a) step
  | wait w ready => exact @threads (.wait w ready) step
  | serve w => exact tracks_serve t step
  | remove w => exact @threads (.remove w) step
  | close w => exact @moves (.close w) (System.close_threads step)
  | release w => exact @threads (.release w (s.left w)) step

theorem isolated_move {move : Move} (t : Tracks memory holders s.threads)
    (h : Isolated server terms s) (good : s.Meets terms.good) (fine : move.Fine terms.fine)
    (step : s.step server move = some s') : Isolated server terms s' := by
  cases move with
  | accept a fd k content => exact isolated_accept t h fine step
  | serve w => exact isolated_serve t h good step
  | close w => exact isolated_close h t step
  | score a =>
    obtain ⟨threads, found, rfl⟩ := System.onThreads_some step
    exact isolated_score h found
  | take a =>
    obtain ⟨threads, found, rfl⟩ := System.onThreads_some step
    exact isolated_take t h found
  | add a ok =>
    obtain ⟨threads, found, rfl⟩ := System.onThreads_some step
    exact isolated_add h found
  | refuse a =>
    obtain ⟨threads, found, rfl⟩ := System.onThreads_some step
    exact isolated_refuse h found
  | wait w ready =>
    obtain ⟨threads, found, rfl⟩ := System.onThreads_some step
    exact isolated_wait h found
  | remove w =>
    obtain ⟨threads, found, rfl⟩ := System.onThreads_some step
    exact isolated_remove h found
  | release w =>
    obtain ⟨threads, found, rfl⟩ := System.onThreads_some step
    exact isolated_release t h found

end Steps

section Runs

variable {server : Server} {memory : List (List RawSlot)} {sockets : Int → Socket} {left : Nat → Kernel}
  {moves : List Move} {s : System}

def System.Kept (server : Server) (terms : Terms) (memory : List (List RawSlot)) (s : System) : Prop :=
  ∃ holders, Tracks memory holders s.threads ∧ Isolated server terms s

/-- Every state of a run whose sockets and stages are as the terms say is one of isolated connections. -/
theorem run_isolated {terms : Terms}
    (run : Monitor.run (System.step server) (.start memory sockets left) moves = some s)
    (fine : ∀ move ∈ moves, move.Fine terms.fine)
    (good : Monitor.Always (System.step server) (System.Meets terms.good) moves
      (.start memory sockets left)) : s.Kept server terms memory := by
  have keep (s : System) (move : Move) (s' : System) (kept : s.Kept server terms memory)
      (good : s.Meets terms.good) (fine : move.Fine terms.fine)
      (step : s.step server move = some s') : s'.Kept server terms memory := by
    obtain ⟨holders, tracks, isolated⟩ := kept
    obtain ⟨holders', tracks'⟩ := tracks_move tracks step
    exact ⟨holders', tracks', isolated_move tracks isolated good fine step⟩
  have start : (System.start memory sockets left).Kept server terms memory :=
    ⟨_, Tracks.start memory, isolated_start sockets left⟩
  exact Monitor.run_keeps_calm keep start run fine good

/-- The slot `i` of the worker `w` is in use, and its socket has not been closed. -/
def System.Holds (s : System) (w i : Nat) (conn : Connection) (turn : Turn) : Prop :=
  ∃ worker, s.threads.workers[w]? = some worker ∧ worker.container.connections[i]? = some conn ∧
    i ∉ worker.container.freeSlots ∧ worker.thread.turn i = turn ∧ turn ≠ .released

/-- How far the connection of such a slot is. Behind a call that has failed it is the one that has been
closed: its worker has still to remove and to close the socket. -/
def Turn.Reaches (c : Client) (k : Kernel) (conn : Conn) : Turn → Prop
  | rests => conn = .serving c k ∨ conn = .waiting c k
  | called => conn = .serving c k
  | leaving => conn = .closed (resetClient c k).1 (resetClient c k).2
  | released => False

theorem Isolated.slot {terms : Terms} {w i : Nat} {conn : Connection} {turn : Turn}
    (h : Isolated server terms s) (holds : s.Holds w i conn turn) :
    SlotOk server terms (s.sockets conn.sockfd) (s.left w) conn.client turn := by
  obtain ⟨worker, found, slot, used, rfl, -⟩ := holds
  have ok := h.workers w worker found i conn slot
  rwa [if_neg used] at ok

theorem SlotOk.reaches {terms : Terms} {socket : Socket} {k : Kernel} {c : Client} {turn : Turn}
    (ok : SlotOk server terms socket k c turn) (held : turn ≠ .released) :
    ∃ state, socket.Alone server terms state ∧ turn.Reaches c socket.kernel state := by
  cases turn with
  | rests =>
    rcases ok with waits | ⟨fine, untouched, unused⟩
    · exact ⟨_, waits, .inr rfl⟩
    · exact ⟨_, .begin fine untouched unused, .inl rfl⟩
  | called => exact ⟨_, ok, rfl⟩
  | leaving =>
    obtain ⟨left, -, alone⟩ := ok
    rw [left] at alone
    exact ⟨_, alone, rfl⟩
  | released => exact absurd rfl held

theorem Tracks.held {holders : Holders} {w i : Nat} {conn : Connection} {turn : Turn}
    (t : Tracks memory holders s.threads) (holds : s.Holds w i conn turn) :
    holders.At conn.sockfd w i := by
  obtain ⟨worker, found, slot, used, rfl, held⟩ := holds
  exact t.uses found slot used held

/-- The connections of the server do not meet: each slot has a socket of its own, a connection is in the
state, and its socket has got the bytes, of a connection that is alone, up to the close of the socket, and
so it was with all of those that have been closed. A socket that has no slot has got nothing. -/
structure System.Separate (server : Server) (s : System) : Prop where
  apart : ∀ w i conn turn v j conn' turn', s.Holds w i conn turn → s.Holds v j conn' turn' →
    conn'.sockfd = conn.sockfd → v = w ∧ j = i
  alone : ∀ w i conn turn, s.Holds w i conn turn → ∃ state,
    (s.sockets conn.sockfd).Alone server .none state ∧
      turn.Reaches conn.client (s.sockets conn.sockfd).kernel state
  ended : ∀ socket ∈ s.ended, ∃ c k, socket.Alone server .none (.closed c k)
  unserved : ∀ a fd, (s.threads.accepters a).holds fd → (s.sockets fd).wire = []

theorem Isolated.separate {holders : Holders} (t : Tracks memory holders s.threads)
    (h : Isolated server .none s) : s.Separate server := by
  refine ⟨fun w i conn turn v j conn' turn' one other same => ?_, fun w i conn turn holds => ?_,
    fun socket member => ?_, fun a fd hand => (h.hands a fd hand).2.2⟩
  · have there := t.held other
    rw [same] at there
    exact (t.held one).sole there
  · have ok := h.slot holds
    obtain ⟨worker, -, -, -, -, held⟩ := holds
    exact ok.reaches held
  · obtain ⟨c, alone⟩ := h.ended socket member
    exact ⟨_, _, alone⟩

/-- Whatever the threads do, and in whatever order, a connection does what it does alone. -/
theorem connections_separate
    (run : Monitor.run (System.step server) (.start memory sockets left) moves = some s) :
    s.Separate server := by
  have fine : ∀ move ∈ moves, move.Fine Terms.none.fine := fun move _ => by cases move <;> trivial
  have good : Monitor.Always (System.step server) (System.Meets Terms.none.good) moves
      (.start memory sockets left) := Monitor.always_of fun _ _ _ _ _ => trivial
  obtain ⟨holders, tracks, isolated⟩ := run_isolated run fine good
  exact isolated.separate tracks

def servingTwo : List Move :=
  [.accept 0 5 askingTwice fun _ _ => ascii "abc", .score 0, .take 0, .add 0 true,
    .accept 0 7 askingTwice fun _ _ => ascii "abc", .wait 0 [5], .score 0, .serve 0, .take 0, .add 0 true,
    .serve 0, .serve 0, .serve 0, .wait 0 [7, 5], .serve 0, .serve 0]

def emptySite : System :=
  .start [[rawSlot (some 1), rawSlot none]] (fun _ => .accepted askingTwice fun _ _ => [])
    fun _ => askingTwice

theorem servingTwo_runs : ∃ s,
    Monitor.run (System.step rootServer) emptySite servingTwo = some s := by
  refine Option.isSome_iff_exists.mp ?_
  decide +kernel

theorem connections_separate_two : ∃ s,
    Monitor.run (System.step rootServer) emptySite servingTwo = some s ∧ s.Separate rootServer := by
  obtain ⟨s, run⟩ := servingTwo_runs
  exact ⟨s, run, connections_separate run⟩

end Runs

end Kitserv
