import Kitserv.Basis.Steps
import Kitserv.Lifecycle
import Kitserv.Recv
import Kitserv.Send

/-! `kitserv_http_serve_client`, one case of its switch after the other, and the run of a
connection: one call after the other, until a call asks for the connection to be closed. -/
namespace Kitserv

/-- Where one case of the switch leads: on to a case again, to a return, or to a failed
assertion or a read outside of an array. -/
inductive Served where
  | next (c : Client) (k : Kernel)
  | back (o : Outcome)
  | abort

def logTransaction (s : Server) (c : Client) (k : Kernel) : Kernel :=
  if s.silentMode then k
  else k.emit (.logged c.ta.resp.status (c.ta.req.path.map (cString c.reqHeaders)))

/-- What the cases READ and SERVE do with the return value of their stage. -/
def afterStage (state : TransactionState) (o : Outcome) : Served :=
  if o.rc ≠ 0 then
    if o.client.ta.resp.status = .xHangup then .back { o with rc := -1 }
    else .next (o.client.setState .prepareResponse) o.kernel
  else if o.client.ta.state = state then .back { o with rc := 0 }
  else .next o.client o.kernel

def afterOutput (state : TransactionState) (o : Outcome) : Served :=
  if o.rc ≠ 0 then .back { o with rc := -1 }
  else if o.client.ta.state = state then .back { o with rc := 0 }
  else .next o.client o.kernel

/-- One case of the switch of `kitserv_http_serve_client`. -/
def serveStep (s : Server) (c : Client) (k : Kernel) : Served :=
  match c.ta.state with
  | .read => afterStage .read (recvRequest c k)
  | .serve =>
    match serveRequest s c k with
    | none => .abort
    | some o => afterStage .serve o
  | .prepareResponse =>
    match prepareResponse c k with
    | none => .abort
    | some o =>
      match afterOutput .prepareResponse o with
      | .next c k => .next c (logTransaction s c k)
      | result => result
  | .send => afterOutput .send (sendResponse c k)
  | .sendFile => afterOutput .sendFile (sendResponseFile c k)
  | .done =>
    match finalizeTransaction c k with
    | none => .abort
    | some (c, k) => .next c k

theorem serveStep_done {s : Server} {c : Client} {k : Kernel} (state : c.ta.state = .done) :
    serveStep s c k = match finalizeTransaction c k with
      | none => .abort
      | some (c, k) => .next c k := by
  unfold serveStep
  rw [state]

theorem serveStep_prepared {s : Server} {c : Client} {k : Kernel} {o : Outcome}
    (state : c.ta.state = .prepareResponse) (prepared : prepareResponse c k = some o) :
    serveStep s c k = match afterOutput .prepareResponse o with
      | .next c k => .next c (logTransaction s c k)
      | result => result := by
  unfold serveStep
  rw [state]
  simp only [prepared]

/-- A connection: in a call of `kitserv_http_serve_client`, waiting for the socket after a call
that returned 0, closed after one that did not, or stopped by an abort. -/
inductive Conn where
  | serving (c : Client) (k : Kernel)
  | waiting (c : Client) (k : Kernel)
  | closed (c : Client) (k : Kernel)
  | aborted

/-- The next step of a connection. A call that did not return 0 closes the connection, and the
socket calls again for one that waits. -/
def Conn.step (s : Server) : Conn → Conn
  | serving c k =>
    match serveStep s c k with
    | .next c k => serving c k
    | .back o =>
      if o.rc = 0 then waiting o.client o.kernel
      else closed (resetClient o.client o.kernel).1 (resetClient o.client o.kernel).2
    | .abort => aborted
  | waiting c k => serving c k
  | conn => conn

def Conn.run (s : Server) (n : Nat) (conn : Conn) : Conn := (Conn.step s)^[n] conn

end Kitserv
