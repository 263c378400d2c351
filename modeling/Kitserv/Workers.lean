import Kitserv.Basis.Monitor
import Kitserv.Slots
import Mathlib

/-! The threads of kitserv.c: accepters that give new connections to workers, and workers that serve
connections and drop them. A step is one critical section, or one call of the kernel. -/
namespace Kitserv

def maxEvents : Nat := 64

inductive AccepterThread where
  | accepting
  | selecting (sockfd : Int) (i : Nat) (bestWorker : Option Nat) (bestScore : Int)
  | adding (sockfd : Int) (victimWorker newConn : Nat)
  | refusing (sockfd : Int)
  deriving DecidableEq, Repr

/-- Where a worker is in `client_worker`: the connections of the events that are left, and the one
that it drops. -/
inductive WorkerThread where
  | serving (events : List Nat)
  | removing (conn : Nat) (events : List Nat)
  | closing (conn : Nat) (events : List Nat)
  | releasing (conn : Nat) (events : List Nat)
  deriving DecidableEq, Repr

/-- `struct worker`. The queue gives the connection that is the data of a registered socket. -/
structure Worker where
  container : ConnectionContainer
  queue : Int → Option Nat := fun _ => none
  thread : WorkerThread := .serving []

inductive Note where
  | accepted (a : Nat) (sockfd : Int)
  | scored (a w : Nat) (score : Int)
  | took (a w : Nat) (link : Link)
  deriving DecidableEq, Repr

structure Threads where
  workers : List Worker
  accepters : Nat → AccepterThread := fun _ => .accepting
  isOpen : Int → Bool := fun _ => false
  log : List Note := []

/-- The steps of the accepter `a` and the worker `w`, with what the kernel answers. -/
inductive Action where
  | accept (a : Nat) (sockfd : Int)
  | score (a : Nat)
  | take (a : Nat)
  | add (a : Nat) (ok : Bool)
  | refuse (a : Nat)
  | wait (w : Nat) (ready : List Int)
  | serve (w : Nat) (client : Client) (rc : Int)
  | remove (w : Nat)
  | close (w : Nat)
  | release (w : Nat) (k : Kernel)

namespace Threads

def start (memory : List (List RawSlot)) : Threads where
  workers := memory.map fun slots => { container := connectionInit slots }

def setAccepter (s : Threads) (a : Nat) (thread : AccepterThread) : Threads :=
  { s with accepters := Function.update s.accepters a thread }

def setWorker (s : Threads) (w : Nat) (worker : Worker) : Threads :=
  { s with workers := s.workers.set w worker }

def setOpen (s : Threads) (sockfd : Int) (value : Bool) : Threads :=
  { s with isOpen := Function.update s.isOpen sockfd value }

def note (s : Threads) (n : Note) : Threads := { s with log := s.log ++ [n] }

/-- `kitserv_socket_accept` in `accept_worker` -/
def accept (s : Threads) (a : Nat) (sockfd : Int) : Option Threads :=
  match s.accepters a with
  | .accepting =>
    if sockfd < 0 then some s
    else if s.isOpen sockfd then none
    else some (((s.setOpen sockfd true).setAccepter a (.selecting sockfd 0 none (-1))).note
      (.accepted a sockfd))
  | _ => none

/-- One round of `select_client_worker`, with `score_worker` -/
def score (s : Threads) (a : Nat) : Option Threads :=
  match s.accepters a with
  | .selecting sockfd i bestWorker bestScore =>
    match s.workers[i]? with
    | none => none
    | some worker =>
      let currScore := worker.container.freelistCount
      if currScore < 0 then none
      else if currScore > bestScore then
        some ((s.setAccepter a (.selecting sockfd (i + 1) (some i) currScore)).note
          (.scored a i currScore))
      else
        some ((s.setAccepter a (.selecting sockfd (i + 1) bestWorker bestScore)).note
          (.scored a i currScore))
  | _ => none

/-- `connection_accept` of the worker that has been selected -/
def take (s : Threads) (a : Nat) : Option Threads :=
  match s.accepters a with
  | .selecting sockfd i (some victim) _ =>
    if i = s.workers.length then
      match s.workers[victim]? with
      | none => none
      | some worker =>
        match connectionAccept worker.container sockfd with
        | none => none
        | some (none, _) => some ((s.setAccepter a (.refusing sockfd)).note (.took a victim none))
        | some (some conn, container) =>
          some (((s.setWorker victim { worker with container := container }).setAccepter a
            (.adding sockfd victim conn)).note (.took a victim (some conn)))
    else none
  | _ => none

/-- `kitserv_queue_add`, whose result nobody looks at -/
def add (s : Threads) (a : Nat) (ok : Bool) : Option Threads :=
  match s.accepters a with
  | .adding sockfd victim conn =>
    match s.workers[victim]? with
    | none => none
    | some worker =>
      if ok then
        some ((s.setWorker victim
          { worker with queue := Function.update worker.queue sockfd (some conn) }).setAccepter a
            .accepting)
      else some (s.setAccepter a .accepting)
  | _ => none

/-- `kitserv_socket_close` of a socket that got no slot -/
def refuse (s : Threads) (a : Nat) : Option Threads :=
  match s.accepters a with
  | .refusing sockfd => some ((s.setOpen sockfd false).setAccepter a .accepting)
  | _ => none

/-- `kitserv_queue_wait`: events of some registered sockets -/
def wait (s : Threads) (w : Nat) (ready : List Int) : Option Threads :=
  match s.workers[w]? with
  | none => none
  | some worker =>
    match worker.thread with
    | .serving [] =>
      if ready.length ≤ maxEvents ∧ ready.Nodup ∧ ∀ fd ∈ ready, (worker.queue fd).isSome then
        some (s.setWorker w { worker with thread := .serving (ready.filterMap worker.queue) })
      else none
    | _ => none

/-- `kitserv_http_serve_client` for the next event -/
def serve (s : Threads) (w : Nat) (client : Client) (rc : Int) : Option Threads :=
  match s.workers[w]? with
  | none => none
  | some worker =>
    match worker.thread with
    | .serving (i :: events) =>
      match worker.container.connections[i]? with
      | none => none
      | some conn =>
        some (s.setWorker w { worker with
          container := { worker.container with
            connections := worker.container.connections.set i { conn with client := client } }
          thread := if rc ≠ 0 then .removing i events else .serving events })
    | _ => none

/-- `kitserv_queue_remove` -/
def remove (s : Threads) (w : Nat) : Option Threads :=
  match s.workers[w]? with
  | none => none
  | some worker =>
    match worker.thread with
    | .removing i events =>
      match worker.container.connections[i]? with
      | none => none
      | some conn => some (s.setWorker w { worker with
          queue := Function.update worker.queue conn.sockfd none
          thread := .closing i events })
    | _ => none

/-- `kitserv_socket_close` -/
def close (s : Threads) (w : Nat) : Option Threads :=
  match s.workers[w]? with
  | none => none
  | some worker =>
    match worker.thread with
    | .closing i events =>
      match worker.container.connections[i]? with
      | none => none
      | some conn => some ((s.setOpen conn.sockfd false).setWorker w
          { worker with thread := .releasing i events })
    | _ => none

/-- `connection_close` -/
def release (s : Threads) (w : Nat) (k : Kernel) : Option Threads :=
  match s.workers[w]? with
  | none => none
  | some worker =>
    match worker.thread with
    | .releasing i events =>
      match connectionClose worker.container k i with
      | none => none
      | some (container, _) => some (s.setWorker w
          { worker with container := container, thread := .serving events })
    | _ => none

def step (s : Threads) : Action → Option Threads
  | .accept a sockfd => s.accept a sockfd
  | .score a => s.score a
  | .take a => s.take a
  | .add a ok => s.add a ok
  | .refuse a => s.refuse a
  | .wait w ready => s.wait w ready
  | .serve w client rc => s.serve w client rc
  | .remove w => s.remove w
  | .close w => s.close w
  | .release w k => s.release w k

end Threads

end Kitserv
