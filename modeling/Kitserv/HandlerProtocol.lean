import Kitserv.Basis.Monitor
import Kitserv.SocketErrors

namespace Kitserv

def TransactionState.rank : TransactionState → Nat
  | read => 0
  | serve => 1
  | prepareResponse => 2
  | send => 3
  | sendFile => 4
  | done => 5

/-- What a handler may rely on: whether the route has been computed, whether the handler has been
called, what it saved last, and whether it has set a status. -/
structure Protocol where
  routed : Bool := false
  called : Bool := false
  saved : Ptr := 0
  answered : Bool := false
  deriving DecidableEq, Repr

/-- The protocol of one transaction after the other. The route is computed once; a handler that
has answered is not called; a call gets what was saved last in the transaction, and only a
handler saves. -/
def Protocol.step (p : Protocol) : Event → Option Protocol
  | .routed => if p.routed then none else some { p with routed := true }
  | .called state =>
    if p.answered ∨ state ≠ p.saved then none else some { p with called := true }
  | .saved state => if p.called then some { p with saved := state } else none
  | .returned status => some { p with answered := status ≠ .xRespStatusUnset }
  | .finalized | .reset => some {}
  | _ => some p

def Event.plain : Event → Bool
  | routed | called _ | saved _ | returned _ | finalized | reset => false
  | _ => true

theorem run_plain {events : List Event} (plain : ∀ e ∈ events, e.plain = true) (p : Protocol) :
    Monitor.run Protocol.step p events = some p := by
  refine Monitor.run_silent fun e member => ?_
  have plain := plain e member
  cases e <;> first | rfl | cases plain

theorem run_calls {events : List Event} (calls : ∀ e ∈ events, e.ofCall = true) {p : Protocol}
    (called : p.called = true) : Monitor.run Protocol.step p events =
      some { p with saved := lastSaved p.saved events } := by
  induction events generalizing p with
  | nil => rfl
  | cons e rest ih =>
    have call := calls e (List.mem_cons_self ..)
    have later : ∀ e ∈ rest, e.ofCall = true := fun e member => calls e (List.mem_cons_of_mem _ member)
    cases e
    case saved state =>
      simp only [Monitor.run_cons, Protocol.step, called, if_true, Option.bind_some]
      exact ih later rfl
    all_goals first | exact ih later called | cases call

section Recv

structure RecvKeeps (c : Client) (k : Kernel) (o : Outcome) : Prop where
  trace : ∃ events, o.kernel.trace = k.trace ++ events ∧
    ∀ e ∈ events, (∃ r, e = .socketRead r) ∨ ∃ info, e = .request info
  api : o.client.ta.api = c.ta.api
  resp : o.client.ta.resp = { c.ta.resp with status := o.client.ta.resp.status }
  state : o.client.ta.state = c.ta.state ∨ o.client.ta.state = .serve

theorem recvParse_keeps {c c₀ : Client} {k k₀ : Kernel} {r₀ : ReadResult} (p r : Option Nat)
    (trace : k.trace = k₀.trace ++ [.socketRead r₀]) (ta : c.ta = c₀.ta) :
    match recvParse c k p r with
    | .stop o => RecvKeeps c₀ k₀ o
    | .again c' k' _ _ => RecvKeeps c₀ k₀ { rc := 0, client := c', kernel := k' } ∧
        c'.ta.state = c₀.ta.state := by
  have one : ∀ e ∈ [Event.socketRead r₀], (∃ r, e = .socketRead r) ∨ ∃ info, e = .request info :=
    fun e member => .inl ⟨r₀, List.mem_singleton.mp member⟩
  unfold recvParse
  rw [ta]
  cases parse c.reqHeadersLen c₀.ta.parseState c.reqHeaders c₀.ta.req (p.getD 0) (r.getD 0) with
  | readMore state mem req p r => exact ⟨⟨⟨_, trace, one⟩, rfl, rfl, .inl rfl⟩, rfl⟩
  | finish mem req p =>
    refine ⟨⟨[.socketRead r₀, .request (HeadInfo.ofRequest mem req)], ?_, ?_⟩, rfl, rfl, .inr rfl⟩
    · simp [Kernel.emit, trace]
    · simp
  | fail mem req status => exact ⟨⟨_, trace, one⟩, rfl, rfl, .inl rfl⟩

theorem recvRound_keeps (c : Client) (k : Kernel) (p r : Option Nat) :
    match recvRound c k p r with
    | .stop o => RecvKeeps c k o
    | .again c' k' _ _ => RecvKeeps c k { rc := 0, client := c', kernel := k' } ∧
        c'.ta.state = c.ta.state := by
  have stopped {c' : Client} {k' : Kernel} {r₀ : ReadResult} {count : Nat}
      (got : k.read count = (r₀, k')) (rc : Int) (api : c'.ta.api = c.ta.api)
      (resp : c'.ta.resp = { c.ta.resp with status := c'.ta.resp.status })
      (state : c'.ta.state = c.ta.state) : RecvKeeps c k { rc := rc, client := c', kernel := k' } :=
    ⟨⟨[.socketRead r₀], read_trace got, by simp⟩, api, resp, .inl state⟩
  unfold recvRound
  cases got : k.read (httpBufsz - c.reqHeadersLen) with
  | mk res k' =>
    cases res with
    | wouldBlock =>
      simp only
      cases past : parsePastEnd c r with
      | true => exact stopped got 0 rfl rfl rfl
      | false => exact recvParse_keeps p r (read_trace got) rfl
    | failed code => exact stopped got (-1) rfl rfl rfl
    | data bs =>
      cases bs with
      | nil =>
        simp only
        by_cases full : httpBufsz ≤ c.reqHeadersLen
        · rw [if_pos full]
          cases past : parsePastEnd c r with
          | true => exact stopped got (-1) rfl rfl rfl
          | false => exact recvParse_keeps p r (read_trace got) rfl
        · rw [if_neg full]
          exact stopped got (-1) rfl rfl rfl
      | cons b bs => exact recvParse_keeps p r (read_trace got) rfl

theorem recvLoop_keeps (c : Client) (k : Kernel) (p r : Option Nat) :
    RecvKeeps c k (recvLoop c k p r) := by
  fun_induction recvLoop c k p r with
  | case1 c k p r o round =>
    have keeps := recvRound_keeps c k p r
    rw [round] at keeps
    exact keeps
  | case2 c k p r c' k' p' r' round ih =>
    have keeps := recvRound_keeps c k p r
    rw [round] at keeps
    obtain ⟨⟨⟨events, trace, reads⟩, api, resp, -⟩, state⟩ := keeps
    obtain ⟨events', trace', reads'⟩ := ih.trace
    refine ⟨⟨events ++ events', by rw [trace', trace, List.append_assoc], ?_⟩, ?_, ?_, ?_⟩
    · exact fun e member => (List.mem_append.mp member).elim (reads e) (reads' e)
    · exact ih.api.trans api
    · rw [ih.resp]
      simp only at resp
      rw [resp]
    · rw [← state]
      exact ih.state

end Recv

def PlainSince (k k' : Kernel) : Prop :=
  ∃ events, k'.trace = k.trace ++ events ∧ ∀ e ∈ events, e.plain = true

namespace PlainSince

variable {k k' k'' : Kernel}

theorem of_trace (h : k'.trace = k.trace) : PlainSince k k' :=
  ⟨[], by rw [h, List.append_nil], by simp⟩

theorem trans (h : PlainSince k k') (h' : PlainSince k' k'') : PlainSince k k'' := by
  obtain ⟨before, trace, plain⟩ := h
  obtain ⟨after, trace', plain'⟩ := h'
  refine ⟨before ++ after, by rw [trace', trace, List.append_assoc], fun e member => ?_⟩
  exact (List.mem_append.mp member).elim (plain e) (plain' e)

theorem emit (h : PlainSince k k') {e : Event} (plain : e.plain = true) :
    PlainSince k (k'.emit e) := h.trans ⟨[e], rfl, by simpa using plain⟩

theorem of_closes (h : Closes k k') : PlainSince k k' := by
  obtain ⟨events, trace, closes⟩ := h
  refine ⟨events, trace, fun e member => ?_⟩
  obtain ⟨fd, rfl⟩ := closes e member
  rfl

theorem run (h : PlainSince k k') {p : Protocol}
    (before : Monitor.run Protocol.step {} k.trace = some p) :
    Monitor.run Protocol.step {} k'.trace = some p := by
  obtain ⟨events, trace, plain⟩ := h
  rw [trace, Monitor.run_append_of before]
  exact run_plain plain p

end PlainSince

section Output

theorem sendLoop_plain (writes : List Transfer) (c : Client) (k : Kernel) :
    ((sendLoop c k writes).client.ta.state = c.ta.state ∨
        (sendLoop c k writes).client.ta.state = .sendFile) ∧
      PlainSince k (sendLoop c k writes).kernel := by
  have start (rest : List Transfer) : PlainSince k { k with writes := rest } := .of_trace rfl
  induction writes generalizing c k with
  | nil => exact ⟨.inl rfl, (start []).emit rfl⟩
  | cons t rest ih =>
    cases t with
    | wouldBlock => exact ⟨.inl rfl, (start rest).emit rfl⟩
    | failed code => exact ⟨.inl rfl, (start rest).emit rfl⟩
    | bytes n =>
      simp only [sendLoop]
      have sent (written : Nat) (bs : Bytes) : PlainSince k (({ k with writes := rest }.emit
        (.socketWrite (.bytes written))).emit (.sent bs)) := ((start rest).emit rfl).emit rfl
      split
      · exact ⟨.inr rfl, sent _ _⟩
      · obtain ⟨state, plain⟩ := ih (c.setBufs _) _ fun _ => .of_trace rfl
        exact ⟨state, (sent _ _).trans plain⟩

theorem sendFileClose_plain (c : Client) (k : Kernel) :
    PlainSince k (sendFileClose c k).kernel :=
  .of_closes (closeFdToZero_closes k c.ta.resp.fd)

theorem sendFileFailed_plain {k₀ : Kernel} (c : Client) (rc : Int) {k : Kernel}
    (plain : PlainSince k₀ k) :
    ((sendFileLoop.failed c rc k).client.ta.state = c.ta.state ∨
        (sendFileLoop.failed c rc k).client.ta.state = .done) ∧
      PlainSince k₀ (sendFileLoop.failed c rc k).kernel := by
  unfold sendFileLoop.failed
  split
  · exact ⟨.inr rfl, plain.trans (sendFileClose_plain c k)⟩
  · exact ⟨.inl rfl, plain⟩

theorem sendFileLoop_plain (sendfiles : List Transfer) (c : Client) (k : Kernel) :
    ((sendFileLoop c k sendfiles).client.ta.state = c.ta.state ∨
        (sendFileLoop c k sendfiles).client.ta.state = .done) ∧
      PlainSince k (sendFileLoop c k sendfiles).kernel := by
  have start (rest : List Transfer) : PlainSince k { k with sendfiles := rest } := .of_trace rfl
  induction sendfiles generalizing c k with
  | nil => exact sendFileFailed_plain c 0 ((start []).emit rfl)
  | cons t rest ih =>
    cases t with
    | wouldBlock => exact sendFileFailed_plain c 0 ((start rest).emit rfl)
    | failed code => exact sendFileFailed_plain c (-1) ((start rest).emit rfl)
    | bytes n =>
      simp only [sendFileLoop]
      generalize min n (toSizeT (c.ta.resp.bodyEnd - c.ta.resp.bodyPos + 1)) = taken
      have sent : PlainSince k (({ k with sendfiles := rest }.emit
          (.socketSendfile (.bytes taken))).emit (.sentFile c.ta.resp.fd c.ta.resp.bodyPos taken)) :=
        ((start rest).emit rfl).emit rfl
      split
      · exact ⟨.inr rfl, sent.trans (sendFileClose_plain _ _)⟩
      · split
        · exact ⟨.inr rfl, sent⟩
        · obtain ⟨state, plain⟩ := ih _ _ fun _ => .of_trace rfl
          exact ⟨state, sent.trans plain⟩

theorem logTransaction_plain (s : Server) (c : Client) (k : Kernel) :
    PlainSince k (logTransaction s c k) := by
  unfold logTransaction
  split
  · exact .of_trace rfl
  · exact PlainSince.emit (.of_trace rfl) rfl

end Output

structure HandlerInv (c : Client) (p : Protocol) : Prop where
  unserved : c.ta.state = .read ∨ c.ta.state = .serve ∧ c.ta.api.endpointHit = none →
    p = {} ∧ c.ta.api = {}
  served : c.ta.state = .serve → c.ta.api.endpointHit ≠ none →
    p.saved = c.ta.api.internalData ∧ p.answered = false

theorem HandlerInv.late {c : Client} (late : 2 ≤ c.ta.state.rank) (p : Protocol) :
    HandlerInv c p := by
  refine ⟨?_, ?_⟩
  · rintro (state | ⟨state, -⟩)
    · rw [state] at late
      exact absurd late (by decide)
    · rw [state] at late
      exact absurd late (by decide)
  · intro state
    rw [state] at late
    exact absurd late (by decide)

theorem HandlerInv.prepares (c : Client) (p : Protocol) :
    HandlerInv (c.setState .prepareResponse) p :=
  HandlerInv.late (c := c.setState .prepareResponse) (Nat.le_refl 2) p

structure Follows (c c' : Client) (k' : Kernel) : Prop where
  protocol : ∃ p, Monitor.run Protocol.step {} k'.trace = some p ∧ HandlerInv c' p
  forward : c.ta.state = .done ∨ c.ta.state.rank ≤ c'.ta.state.rank
  selected : c.ta.state = .serve → c'.ta.state = .serve → c.ta.api.endpointHit ≠ none →
    c'.ta.api.endpointHit = c.ta.api.endpointHit

def Kernel.Allowed (k : Kernel) : Prop := ∃ p, Monitor.run Protocol.step {} k.trace = some p

def Served.Follows (c : Client) : Served → Prop
  | next c' k' => Kitserv.Follows c c' k'
  | back o => (o.rc = 0 → Kitserv.Follows c o.client o.kernel) ∧ o.kernel.Allowed
  | abort => True

section Stages

variable {s : Server} {c : Client} {k : Kernel} {p : Protocol}

theorem follows_late {c' : Client} {k' : Kernel}
    (before : Monitor.run Protocol.step {} k.trace = some p) (plain : PlainSince k k')
    (late : 2 ≤ c.ta.state.rank) (forward : c.ta.state.rank ≤ c'.ta.state.rank) :
    Follows c c' k' := by
  refine ⟨⟨p, plain.run before, HandlerInv.late (Nat.le_trans late forward) p⟩, .inr forward, ?_⟩
  intro state
  rw [state] at late
  exact absurd late (by decide)

theorem afterOutput_follows {o : Outcome} {state : TransactionState}
    (zero : o.rc = 0 → Follows c o.client o.kernel) (allowed : o.kernel.Allowed) :
    (afterOutput state o).Follows c := by
  unfold afterOutput
  split
  · exact ⟨fun rc => absurd rc (by simp), allowed⟩
  · rename_i rc
    have zero := zero (by simpa using rc)
    split
    · exact ⟨fun _ => zero, allowed⟩
    · exact zero

theorem prepareResponse_follows (before : Monitor.run Protocol.step {} k.trace = some p)
    (state : c.ta.state = .prepareResponse) : (serveStep s c k).Follows c := by
  cases prepared : prepareResponse c k with
  | none =>
    have step : serveStep s c k = .abort := by simp only [serveStep, state, prepared]
    rw [step]
    trivial
  | some o =>
    have plain := PlainSince.of_closes (prepareResponse_closes prepared)
    rcases serveStep_prepareResponse (s := s) state prepared with ⟨-, step⟩ | ⟨rc, step⟩
    · rw [step]
      exact ⟨fun rc => absurd rc (by simp), p, plain.run before⟩
    · obtain ⟨rc', c', k'⟩ := o
      cases rc
      obtain ⟨c₁, buf, n, ready⟩ := prepareResponse_ready prepared
      rw [step]
      refine follows_late before (plain.trans (logTransaction_plain s c' k'))
        (by rw [state]; decide) ?_
      rw [state, ready]
      exact Nat.le_succ 2

theorem send_follows (before : Monitor.run Protocol.step {} k.trace = some p)
    (state : c.ta.state = .send) : (serveStep s c k).Follows c := by
  have step : serveStep s c k = afterOutput .send (sendResponse c k) := by rw [serveStep, state]
  obtain ⟨left, plain⟩ := sendLoop_plain k.writes c k
  rw [step]
  refine afterOutput_follows (fun _ => ?_) ⟨p, plain.run before⟩
  refine follows_late before plain (by rw [state]; decide) ?_
  rcases left with same | done
  · exact Nat.le_of_eq (congrArg _ same.symm)
  · have rank : (sendResponse c k).client.ta.state.rank = 4 := congrArg TransactionState.rank done
    rw [rank, state]
    decide

theorem sendFile_follows (before : Monitor.run Protocol.step {} k.trace = some p)
    (state : c.ta.state = .sendFile) : (serveStep s c k).Follows c := by
  have step : serveStep s c k = afterOutput .sendFile (sendResponseFile c k) := by
    rw [serveStep, state]
  have stage : ((sendResponseFile c k).client.ta.state = c.ta.state ∨
      (sendResponseFile c k).client.ta.state = .done) ∧ PlainSince k (sendResponseFile c k).kernel := by
    unfold sendResponseFile
    split
    · exact sendFileLoop_plain k.sendfiles c k
    · exact ⟨.inr rfl, .of_trace rfl⟩
  obtain ⟨left, plain⟩ := stage
  rw [step]
  refine afterOutput_follows (fun _ => ?_) ⟨p, plain.run before⟩
  refine follows_late before plain (by rw [state]; decide) ?_
  rcases left with same | done
  · exact Nat.le_of_eq (congrArg _ same.symm)
  · rw [done, state]
    decide

theorem done_follows (before : Monitor.run Protocol.step {} k.trace = some p)
    (state : c.ta.state = .done) : (serveStep s c k).Follows c := by
  have step := serveStep_done (s := s) (k := k) state
  rw [step]
  simp only [finalizeTransaction]
  split
  · rename_i final finalized
    trivial
  · rename_i c' k' finalized
    split at finalized
    · cases finalized
      refine ⟨⟨{}, ?_, fun _ => ⟨rfl, rfl⟩, (by rintro ⟨⟩)⟩, .inl state, (by rintro - ⟨⟩)⟩
      have trace : (k.realloc.2.emit .finalized).trace = k.trace ++ [.finalized] := rfl
      rw [trace, Monitor.run_append_of before]
      rfl
    · cases finalized

theorem read_follows (before : Monitor.run Protocol.step {} k.trace = some p) (inv : HandlerInv c p)
    (state : c.ta.state = .read) : (serveStep s c k).Follows c := by
  have step : serveStep s c k = afterStage .read (recvRequest c k) := by rw [serveStep, state]
  have keeps : RecvKeeps c k (recvRequest c k) := recvLoop_keeps ..
  obtain ⟨rfl, api⟩ := inv.unserved (.inl state)
  have plain : PlainSince k (recvRequest c k).kernel := by
    obtain ⟨events, trace, reads⟩ := keeps.trace
    refine ⟨events, trace, fun e member => ?_⟩
    rcases reads e member with ⟨r, rfl⟩ | ⟨info, rfl⟩ <;> rfl
  have fresh : (recvRequest c k).client.ta.api = {} := keeps.api.trans api
  have follows : Follows c (recvRequest c k).client (recvRequest c k).kernel := by
    refine ⟨⟨{}, plain.run before, fun _ => ⟨rfl, fresh⟩, ?_⟩, .inr ?_, ?_⟩
    · intro _ hit
      rw [fresh] at hit
      exact absurd rfl hit
    · rw [state]
      exact Nat.zero_le _
    · intro serve
      rw [state] at serve
      cases serve
  rw [step]
  unfold afterStage
  split
  · split
    · exact ⟨fun rc => absurd rc (by simp), _, plain.run before⟩
    · refine ⟨⟨{}, plain.run before, HandlerInv.prepares _ _⟩, .inr ?_, ?_⟩
      · rw [state]
        exact Nat.zero_le _
      · intro serve
        rw [state] at serve
        cases serve
  · split
    · exact ⟨fun _ => follows, _, plain.run before⟩
    · exact follows

theorem serveCont_follows (state : c.ta.state = .serve) {p : Protocol} (r : Client) {k' : Kernel}
    (allowed : Monitor.run Protocol.step {} k'.trace = some p) :
    (serveCont r k').rc = 0 ∧ Follows c (serveCont r k').client (serveCont r k').kernel := by
  refine ⟨rfl, ⟨p, allowed, HandlerInv.prepares r p⟩, .inr ?_, ?_⟩
  · rw [state]
    exact Nat.le_succ 1
  · exact fun _ serve => absurd serve (serveCont_state _ _)

theorem serveStatic_follows (state : c.ta.state = .serve) {p : Protocol} {c' : Client}
    (before : Monitor.run Protocol.step {} k.trace = some p) :
    (serveStatic s c' k).rc = 0 ∧ Follows c (serveStatic s c' k).client (serveStatic s c' k).kernel := by
  have frame := (handleStaticPath_frame s c' k
    ((c'.ta.req.path.map (cString c'.reqHeaders)).getD []) none).kernel
  obtain ⟨events, trace, calls⟩ := frame.trace
  refine serveCont_follows state _ (PlainSince.run ⟨events, trace, fun e member => ?_⟩ before)
  have call := calls e member
  cases e <;> first | rfl | cases call

theorem serveEndpoint_follows (state : c.ta.state = .serve)
    (before : Monitor.run Protocol.step {} k.trace = some p)
    (saved : p.saved = c.ta.api.internalData) (answered : p.answered = false) :
    (serveEndpoint s c k).rc = 0 ∧
      Follows c (serveEndpoint s c k).client (serveEndpoint s c k).kernel := by
  unfold serveEndpoint
  split
  · exact serveStatic_follows state before
  · rename_i handler hit
    have frame := runProgram_frame s (handler c.ta.api.internalData) c
      (k.emit (.called c.ta.api.internalData))
    simp only
    generalize runProgram s (handler c.ta.api.internalData) c _ = r at frame
    obtain ⟨events, trace, calls, data⟩ := frame.trace
    have called : Monitor.run Protocol.step {} (k.emit (.called c.ta.api.internalData)).trace =
        some { p with called := true } := by
      simp only [Kernel.emit, Monitor.run_append_of before, Monitor.run_cons, Protocol.step,
        answered, saved, ne_eq, not_true_eq_false, or_self, Bool.false_eq_true, if_false,
        Option.bind_some, Monitor.run_nil]
    have returned : Monitor.run Protocol.step {} (r.2.emit (.returned r.1.ta.resp.status)).trace =
        some { p with
          called := true
          saved := r.1.ta.api.internalData
          answered := r.1.ta.resp.status ≠ .xRespStatusUnset } := by
      simp only [Kernel.emit]
      rw [trace, List.append_assoc, Monitor.run_append_of called, Monitor.run_append_of
        (run_calls calls rfl), data, saved]
      rfl
    split
    · rename_i unset
      refine ⟨rfl, ⟨_, returned, ?_, ?_⟩, .inr ?_, fun _ _ _ => frame.endpointHit⟩
      · rintro (read | ⟨-, none⟩)
        · rw [frame.state, state] at read
          cases read
        · rw [frame.endpointHit, hit] at none
          cases none
      · exact fun _ _ => ⟨rfl, by simp [unset]⟩
      · rw [frame.state]
    · exact serveCont_follows state r.1 returned

/-- The assertions at the head of `kitserv_http_serve_request`. -/
def HeadAssertions (s : Server) (c : Client) : Prop :=
  s.apiTree.isSome = true → c.ta.api.endpointHit.isSome = false →
    c.ta.api.internalData = 0 ∧ c.ta.api.allowFlags = 0

theorem HandlerInv.headAssertions {c : Client} (inv : HandlerInv c p) (state : c.ta.state = .serve) :
    HeadAssertions s c := by
  intro _ none
  obtain ⟨-, fresh⟩ := inv.unserved (.inr ⟨state, by simpa using none⟩)
  rw [fresh]
  exact ⟨rfl, rfl⟩

theorem serveRequest_follows {o : Outcome} (state : c.ta.state = .serve)
    (before : Monitor.run Protocol.step {} k.trace = some p) (inv : HandlerInv c p)
    (served : serveRequest s c k = some o) : o.rc = 0 ∧ Follows c o.client o.kernel := by
  unfold serveRequest at served
  split at served
  · cases served
    exact serveStatic_follows state before
  · split at served
    · rename_i tree _ hit
      cases served
      obtain ⟨saved, answered⟩ := inv.served state (by
        rintro none
        rw [none] at hit
        cases hit)
      exact serveEndpoint_follows state before saved answered
    · rename_i tree _ none
      obtain ⟨rfl, fresh⟩ := inv.unserved (.inr ⟨state, by simpa using none⟩)
      have routed : Monitor.run Protocol.step {} (k.emit .routed).trace =
          some { routed := true } := by
        simp only [Kernel.emit, Monitor.run_append_of before]
        rfl
      split at served
      · cases served
      · simp only at served
        split at served
        · cases served
        · cases served
          exact serveCont_follows state _ routed
        · rename_i hit flags _
          cases served
          have fresh' : (0 : Ptr) = c.ta.api.internalData := by rw [fresh]
          obtain ⟨rc, follows⟩ := serveEndpoint_follows (s := s) (c := { c with ta := { c.ta with
            api := { c.ta.api with endpointHit := hit, allowFlags := flags } } }) state routed fresh' rfl
          refine ⟨rc, follows.protocol, follows.forward, fun _ _ selected => ?_⟩
          exact absurd (by simpa using none) selected

theorem serveStep_follows (before : Monitor.run Protocol.step {} k.trace = some p)
    (inv : HandlerInv c p) : (serveStep s c k).Follows c := by
  cases state : c.ta.state with
  | read => exact read_follows before inv state
  | serve =>
    cases served : serveRequest s c k with
    | none =>
      have step : serveStep s c k = .abort := by simp only [serveStep, state, served]
      rw [step]
      trivial
    | some o =>
      have step : serveStep s c k = afterStage .serve o := by simp only [serveStep, state, served]
      obtain ⟨rc, follows⟩ := serveRequest_follows state before inv served
      have allowed : o.kernel.Allowed := by
        obtain ⟨p', allowed, -⟩ := follows.protocol
        exact ⟨p', allowed⟩
      rw [step, afterStage, if_neg (by simp [rc])]
      split
      · exact ⟨fun _ => follows, allowed⟩
      · exact follows
  | prepareResponse => exact prepareResponse_follows before state
  | send => exact send_follows before state
  | sendFile => exact sendFile_follows before state
  | done => exact done_follows before state

end Stages

def Conn.Protocolled : Conn → Prop
  | serving c k | waiting c k => ∃ p, Monitor.run Protocol.step {} k.trace = some p ∧ HandlerInv c p
  | closed _ k => k.Allowed
  | aborted => True

def Conn.open? : Conn → Option Client
  | serving c _ | waiting c _ => some c
  | _ => none

def Conn.kernel? : Conn → Option Kernel
  | serving _ k | waiting _ k | closed _ k => some k
  | aborted => none

/-- What holds of one step of a connection: the events so far are allowed, the assertions hold
where the stage SERVE begins, the state moves forward until the transaction is done, and a handler
that has been selected stays. -/
structure HandlerLaw (s : Server) (conn next : Conn) : Prop where
  protocol : ∀ k, next.kernel? = some k → k.Allowed
  asserted : ∀ c k, conn = .serving c k → c.ta.state = .serve → HeadAssertions s c
  forward : ∀ c c', conn.open? = some c → next.open? = some c' →
    c.ta.state = .done ∨ c.ta.state.rank ≤ c'.ta.state.rank
  selected : ∀ c c', conn.open? = some c → next.open? = some c' → c.ta.state = .serve →
    c'.ta.state = .serve → c.ta.api.endpointHit ≠ none →
    c'.ta.api.endpointHit = c.ta.api.endpointHit

theorem Follows.law {s : Server} {c c' : Client} {k k' : Kernel} {p : Protocol} {next : Conn}
    (inv : HandlerInv c p) (h : Follows c c' k') (same : next.open? = some c')
    (kernel : next.kernel? = some k') : HandlerLaw s (.serving c k) next := by
  refine ⟨fun k'' left => ?_, ?_, ?_, ?_⟩
  · obtain ⟨p', allowed, -⟩ := h.protocol
    rw [kernel] at left
    cases left
    exact ⟨p', allowed⟩
  · rintro c k ⟨⟩ state
    exact inv.headAssertions state
  · rintro c c'' ⟨⟩ left
    rw [same] at left
    cases left
    exact h.forward
  · rintro c c'' ⟨⟩ left
    rw [same] at left
    cases left
    exact h.selected

theorem Kernel.Allowed.reset {k : Kernel} (h : k.Allowed) (c : Client) :
    (resetClient c k).2.Allowed := by
  obtain ⟨p, allowed⟩ := h
  have trace : (resetClient c k).2.trace = k.trace ++ [.reset] := rfl
  refine ⟨{}, ?_⟩
  rw [trace, Monitor.run_append_of allowed]
  rfl

theorem HandlerLaw.shut {s : Server} {conn next : Conn} (shut : conn.open? = none)
    (protocol : ∀ k, next.kernel? = some k → k.Allowed) : HandlerLaw s conn next := by
  refine ⟨protocol, ?_, ?_, ?_⟩
  · rintro c k rfl
    cases shut
  · intro c c' opened
    rw [shut] at opened
    cases opened
  · intro c c' opened
    rw [shut] at opened
    cases opened

theorem step_protocolled {s : Server} {conn : Conn} (h : conn.Protocolled) :
    (conn.step s).Protocolled ∧ HandlerLaw s conn (conn.step s) := by
  cases conn with
  | serving c k =>
    obtain ⟨p, before, inv⟩ := h
    have follows := serveStep_follows (s := s) before inv
    have asserted (next : Conn) (kernel : ∀ k, next.kernel? = some k → k.Allowed)
        (closed : next.open? = none) : HandlerLaw s (.serving c k) next := by
      refine ⟨kernel, ?_, ?_, ?_⟩
      · rintro c k ⟨⟩ state
        exact inv.headAssertions state
      · intro c c' _ left
        rw [closed] at left
        cases left
      · intro c c' _ left
        rw [closed] at left
        cases left
    simp only [Conn.step]
    revert follows
    cases serveStep s c k with
    | next c' k' =>
      intro follows
      exact ⟨Follows.protocol follows, Follows.law inv follows rfl rfl⟩
    | back o =>
      rintro ⟨zero, allowed⟩
      simp only
      split
      · rename_i rc
        exact ⟨(zero rc).protocol, (zero rc).law inv rfl rfl⟩
      · refine ⟨allowed.reset o.client, asserted _ ?_ rfl⟩
        rintro k' ⟨⟩
        exact allowed.reset o.client
    | abort =>
      refine fun _ => ⟨trivial, asserted .aborted ?_ rfl⟩
      rintro k' ⟨⟩
  | waiting c k =>
    obtain ⟨p, before, inv⟩ := h
    refine ⟨⟨p, before, inv⟩, ?_, ?_, ?_, ?_⟩
    · rintro k' ⟨⟩
      exact ⟨p, before⟩
    · rintro c k ⟨⟩
    · rintro c c' ⟨⟩ ⟨⟩
      exact .inr (Nat.le_refl _)
    · rintro c c' ⟨⟩ ⟨⟩ _ _ _
      rfl
  | closed c k =>
    refine ⟨h, .shut rfl ?_⟩
    rintro k' ⟨⟩
    exact h
  | aborted =>
    refine ⟨trivial, .shut rfl ?_⟩
    rintro k' ⟨⟩

/-- Whole runs from a client without a transaction. -/
theorem handler_protocol {s : Server} {c : Client} {k : Kernel} (n : Nat) (fresh : c.ta = {})
    (start : k.trace = []) :
    HandlerLaw s (Conn.run s n (.serving c k)) (Conn.run s (n + 1) (.serving c k)) := by
  have keep (conn : Conn) (inv : conn.Protocolled) (_ : True) : (conn.step s).Protocolled :=
    (step_protocolled inv).1
  have one (conn : Conn) (inv : conn.Protocolled) (_ : True) : HandlerLaw s conn (conn.step s) :=
    (step_protocolled inv).2
  refine Steps.step_of_inv (HandlerLaw s) keep one ?_ fun _ _ => trivial
  refine ⟨{}, by rw [start]; rfl, fun _ => ⟨rfl, by rw [fresh]⟩, fun state => ?_⟩
  rw [fresh] at state
  cases state

def oneRequest (handler : Handler) : Server :=
  { rootServer with apiTree := some (.node [] 0 []
      [{ pathPrefix := ascii "a", prefixLength := 1, method := 1, handler := handler,
         finishesPath := true }]) }

theorem handler_protocol_fresh : HandlerLaw (oneRequest fun _ => .ret)
    (Conn.run (oneRequest fun _ => .ret) 4 (.serving (createClientStruct Blocks.zeroed)
      { input := [.chunk 71 (ascii "ET /a HTTP/1.1\r\n\r\n")], fs := fun _ => .empty }))
    (Conn.run (oneRequest fun _ => .ret) (4 + 1) (.serving (createClientStruct Blocks.zeroed)
      { input := [.chunk 71 (ascii "ET /a HTTP/1.1\r\n\r\n")], fs := fun _ => .empty })) :=
  handler_protocol 4 rfl rfl

end Kitserv
