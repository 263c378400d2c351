import Kitserv.ApiFrame
import Kitserv.Connection
import Kitserv.SendStage

/-! How the stages translate errno: which operations of the socket a return value of
`kitserv_http_serve_client` follows, over whole calls from any state. -/
namespace Kitserv

def Event.wouldBlock : Event → Bool
  | socketRead .wouldBlock | socketWrite .wouldBlock | socketSendfile .wouldBlock => true
  | _ => false

def Event.hardError : Event → Bool
  | socketRead (.failed _) | socketWrite (.failed _) | socketSendfile (.failed _) => true
  | _ => false

/-- The events of a stage: a hard error ends them and is reported, and a stage that waits does so
for the socket. -/
structure Reported (events : List Event) (failed waits : Prop) : Prop where
  early : ∀ e ∈ events.dropLast, e.hardError = false
  last : ∀ e, events.getLast? = some e → e.hardError = true → failed
  blocked : waits → ∃ e, events.getLast? = some e ∧ e.wouldBlock = true

namespace Reported

variable {events : List Event} {e : Event} {failed waits : Prop}

theorem one (hard : e.hardError = true → failed) (blocked : waits → e.wouldBlock = true) :
    Reported [e] failed waits := by
  refine ⟨by simp, fun e' last => ?_, fun wait => ⟨e, rfl, blocked wait⟩⟩
  cases last
  exact hard

theorem cons (h : Reported events failed waits) (quiet : e.hardError = false)
    (blocked : waits → events ≠ []) : Reported (e :: events) failed waits := by
  cases events with
  | nil =>
    refine one (fun hard => ?_) (fun wait => absurd rfl (blocked wait))
    rw [quiet] at hard
    cases hard
  | cons e' rest =>
    refine ⟨?_, ?_, ?_⟩
    · intro d member
      rcases List.mem_cons.mp member with rfl | later
      · exact quiet
      · exact h.early d later
    · simpa only [List.getLast?_cons_cons] using h.last
    · simpa only [List.getLast?_cons_cons] using h.blocked

theorem ne_nil (h : Reported events failed waits) (wait : waits) : events ≠ [] := by
  obtain ⟨e, last, -⟩ := h.blocked wait
  rintro rfl
  cases last

theorem of_hardError (h : Reported events failed waits) {pre post : List Event}
    (split : events = pre ++ e :: post) (hard : e.hardError = true) : post = [] ∧ failed := by
  have ends : post = [] := by
    refine Classical.byContradiction fun more => ?_
    have early := h.early e (by
      rw [split, List.dropLast_append_of_ne_nil (List.cons_ne_nil e post),
        List.dropLast_cons_of_ne_nil more]
      simp)
    rw [hard] at early
    cases early
  subst ends
  exact ⟨rfl, h.last e (by rw [split]; simp) hard⟩

end Reported

section Read

theorem read_trace {k k' : Kernel} {count : Nat} {r : ReadResult} (h : k.read count = (r, k')) :
    k'.trace = k.trace ++ [.socketRead r] := by
  unfold Kernel.read at h
  split at h
  · cases h
    rfl
  · cases h
    rfl

def Round.Reports (c : Client) (k : Kernel) : Round → Prop
  | stop o => ∃ events, o.kernel.trace = k.trace ++ events ∧
      Reported events (o.rc ≠ 0 ∧ o.client.ta.resp.status = .xHangup)
        (o.rc = 0 ∧ o.client.ta.state = .read)
  | again c' k' _ _ => ∃ e, k'.trace = k.trace ++ [e] ∧ e.hardError = false ∧
      c'.ta.state = c.ta.state

theorem recvParse_reports {c c₀ : Client} {k k₀ : Kernel} {e : Event} (p r : Option Nat)
    (trace : k.trace = k₀.trace ++ [e]) (quiet : e.hardError = false)
    (state : c.ta.state = c₀.ta.state) : (recvParse c k p r).Reports c₀ k₀ := by
  unfold recvParse
  split
  · exact ⟨e, trace, quiet, state⟩
  · rename_i mem req p _
    refine ⟨[e, .request (HeadInfo.ofRequest mem req)], by simp [Kernel.emit, trace], ?_⟩
    refine Reported.cons (Reported.one (by rintro ⟨⟩) ?_) quiet ?_
    · rintro ⟨-, ⟨⟩⟩
    · exact fun _ => List.cons_ne_nil _ _
  · refine ⟨[e], trace, Reported.one ?_ ?_⟩
    · intro hard
      rw [quiet] at hard
      cases hard
    · rintro ⟨⟨⟩, -⟩

theorem recvRound_reports (c : Client) (k : Kernel) (p r : Option Nat) :
    (recvRound c k p r).Reports c k := by
  unfold recvRound
  split
  · rename_i k' got
    split
    · exact ⟨_, read_trace got, Reported.one (by rintro ⟨⟩) fun _ => rfl⟩
    · exact recvParse_reports p r (read_trace got) rfl rfl
  · rename_i code k' got
    refine ⟨_, read_trace got, Reported.one (fun _ => ⟨?_, rfl⟩) ?_⟩
    · exact Int.noConfusion
    · rintro ⟨⟨⟩, -⟩
  · rename_i k' got
    have gaveUp (status : HttpStatus) : Round.Reports c k
        (.stop { rc := -1, client := c.setStatus status, kernel := k' }) :=
      ⟨_, read_trace got, Reported.one (by rintro ⟨⟩) (by rintro ⟨⟨⟩, -⟩)⟩
    split
    · split
      · exact gaveUp _
      · exact recvParse_reports p r (read_trace got) rfl rfl
    · exact gaveUp _
  · rename_i b bs k' got
    exact recvParse_reports p r (read_trace got) rfl rfl

theorem recvLoop_reports (c : Client) (k : Kernel) (p r : Option Nat) :
    ∃ events, (recvLoop c k p r).kernel.trace = k.trace ++ events ∧
      Reported events ((recvLoop c k p r).rc ≠ 0 ∧
          (recvLoop c k p r).client.ta.resp.status = .xHangup)
        ((recvLoop c k p r).rc = 0 ∧ (recvLoop c k p r).client.ta.state = .read) := by
  fun_induction recvLoop c k p r with
  | case1 c k p r o round =>
    have reports := recvRound_reports c k p r
    rw [round] at reports
    exact reports
  | case2 c k p r c' k' p' r' round ih =>
    have reports := recvRound_reports c k p r
    rw [round] at reports
    obtain ⟨e, trace, quiet, -⟩ := reports
    obtain ⟨events, later, reported⟩ := ih
    refine ⟨e :: events, by rw [later, trace]; simp, reported.cons quiet reported.ne_nil⟩

end Read

section Write

def WritesSeen (bufs : RespBufs) : List Transfer → Prop
  | .failed _ :: _ => False
  | .bytes n :: rest => (bufs.advance (min n bufs.total)).2 = true ∨
      WritesSeen (bufs.advance (min n bufs.total)).1 rest
  | _ => True

theorem sendLoop_reports (writes : List Transfer) (c : Client) (k : Kernel)
    (seen : WritesSeen c.ta.resp.bufs writes) :
    (sendLoop c k writes).rc = 0 ∧ ∃ events,
      (sendLoop c k writes).kernel.trace = k.trace ++ events ∧
      Reported events False ((sendLoop c k writes).client.ta.state = .send) := by
  induction writes generalizing c k with
  | nil => exact ⟨rfl, [.socketWrite .wouldBlock], rfl, Reported.one (by rintro ⟨⟩) fun _ => rfl⟩
  | cons t rest ih =>
    cases t with
    | wouldBlock => exact ⟨rfl, [.socketWrite .wouldBlock], rfl, Reported.one (by rintro ⟨⟩) fun _ => rfl⟩
    | failed code => exact absurd seen id
    | bytes n =>
      simp only [WritesSeen] at seen
      simp only [sendLoop, length_describedBytes]
      split
      · refine ⟨rfl, [.socketWrite (.bytes (min n c.ta.resp.bufs.total)),
          .sent ((describedBytes k.outside c).take (min n c.ta.resp.bufs.total))],
          by simp [Kernel.emit], ?_⟩
        exact Reported.cons (Reported.one (by rintro ⟨⟩) (by rintro ⟨⟩)) rfl fun _ => List.cons_ne_nil _ _
      · rename_i more
        let taken := min n c.ta.resp.bufs.total
        let k' := ({ k with writes := rest }.emit (.socketWrite (.bytes taken))).emit
          (.sent ((describedBytes k.outside c).take taken))
        obtain ⟨rc, events, trace, reported⟩ :=
          ih (c.setBufs (c.ta.resp.bufs.advance taken).1) k' (seen.resolve_left more)
        refine ⟨rc, .socketWrite (.bytes taken) ::
          .sent ((describedBytes k.outside c).take taken) :: events, ?_, ?_⟩
        · refine trace.trans ?_
          simp [k', Kernel.emit]
        · exact (reported.cons rfl reported.ne_nil).cons rfl fun _ => List.cons_ne_nil _ _

end Write

section SendFile

theorem sendFileClose_trace (c : Client) (k : Kernel) :
    (sendFileClose c k).client.ta.state = .done ∧
      ∃ events, (sendFileClose c k).kernel.trace = k.trace ++ events ∧
        events.all (fun e => !e.hardError) = true := by
  refine ⟨rfl, ?_⟩
  simp only [sendFileClose, sendFileDone, Kernel.closeFdToZero]
  split
  · exact ⟨[.closed c.ta.resp.fd], rfl, rfl⟩
  · exact ⟨[], (List.append_nil _).symm, rfl⟩

theorem Reported.quiet {events : List Event} {failed waits : Prop}
    (quiet : events.all (fun e => !e.hardError) = true) (goes : ¬ waits) :
    Reported events failed waits := by
  simp only [List.all_eq_true, Bool.not_eq_true'] at quiet
  refine ⟨fun e member => quiet e (List.dropLast_subset _ member), ?_, fun wait => absurd wait goes⟩
  intro e last hard
  rw [quiet e (List.mem_of_getLast? last)] at hard
  cases hard

def FileReports (k : Kernel) (o : Outcome) : Prop :=
  ∃ events, o.kernel.trace = k.trace ++ events ∧
    Reported events (o.rc = -1) (o.rc = 0 ∧ o.client.ta.state = .sendFile)

theorem sendFileClose_reports {k k₀ : Kernel} {before : List Event} (c : Client)
    (trace : k.trace = k₀.trace ++ before)
    (quiet : before.all (fun e => !e.hardError) = true) : FileReports k₀ (sendFileClose c k) := by
  obtain ⟨state, events, closed, quiet'⟩ := sendFileClose_trace c k
  refine ⟨before ++ events, by rw [closed, trace, List.append_assoc], Reported.quiet ?_ ?_⟩
  · rw [List.all_append, quiet, quiet']
    rfl
  · rw [state]
    exact fun waits => TransactionState.noConfusion waits.2

theorem FileReports.after {k k₀ : Kernel} {o : Outcome} {e e' : Event}
    (h : FileReports k o) (trace : k.trace = k₀.trace ++ [e, e']) (quiet : e.hardError = false)
    (quiet' : e'.hardError = false) : FileReports k₀ o := by
  obtain ⟨events, later, reported⟩ := h
  refine ⟨e :: e' :: events, by rw [later, trace]; simp, ?_⟩
  exact (reported.cons quiet' reported.ne_nil).cons quiet fun _ => List.cons_ne_nil _ _

theorem sendFileLoop_reports (sendfiles : List Transfer) (c : Client) (k : Kernel)
    (seen : c.ta.resp.bodyEnd < c.ta.resp.bodyPos →
      ∀ code, sendfiles.head? ≠ some (.failed code)) :
    FileReports k (sendFileLoop c k sendfiles) := by
  induction sendfiles generalizing c k with
  | nil =>
    simp only [sendFileLoop, sendFileLoop.failed]
    split
    · exact sendFileClose_reports c rfl rfl
    · exact ⟨_, rfl, Reported.one nofun fun _ => rfl⟩
  | cons t rest ih =>
    cases t with
    | wouldBlock =>
      simp only [sendFileLoop, sendFileLoop.failed]
      split
      · exact sendFileClose_reports c rfl rfl
      · exact ⟨_, rfl, Reported.one nofun fun _ => rfl⟩
    | failed code =>
      have left : ¬ c.ta.resp.bodyPos > c.ta.resp.bodyEnd := fun past => seen past code rfl
      simp only [sendFileLoop, sendFileLoop.failed, if_neg left]
      exact ⟨_, rfl, Reported.one (fun _ => rfl) (by rintro ⟨⟨⟩, -⟩)⟩
    | bytes n =>
      simp only [sendFileLoop]
      generalize min n (toSizeT (c.ta.resp.bodyEnd - c.ta.resp.bodyPos + 1)) = sent
      have trace : (({ k with sendfiles := rest }.emit (.socketSendfile (.bytes sent))).emit
          (.sentFile c.ta.resp.fd c.ta.resp.bodyPos sent)).trace =
          k.trace ++ [.socketSendfile (.bytes sent), .sentFile c.ta.resp.fd c.ta.resp.bodyPos sent] :=
        by simp [Kernel.emit]
      split
      · exact sendFileClose_reports _ trace rfl
      · rename_i left
        split
        · exact ⟨_, trace, Reported.quiet rfl (by rintro ⟨-, ⟨⟩⟩)⟩
        · exact (ih _ _ fun past => absurd past left).after trace rfl rfl

/-- A stage that calls sendfile does not take its failure for the end of a file whose position is
behind its end. -/
def SendfileSeen (c : Client) (sendfiles : List Transfer) : Prop :=
  0 < c.ta.resp.fd → c.ta.req.method ≠ .head → c.ta.resp.bodyEnd < c.ta.resp.bodyPos →
    ∀ code, sendfiles.head? ≠ some (.failed code)

theorem sendResponseFile_reports {c : Client} {k : Kernel} (seen : SendfileSeen c k.sendfiles) :
    FileReports k (sendResponseFile c k) := by
  unfold sendResponseFile
  split
  · rename_i sends
    exact sendFileLoop_reports k.sendfiles c k (seen sends.1 sends.2)
  · exact ⟨[], (List.append_nil _).symm, Reported.quiet rfl (by rintro ⟨-, ⟨⟩⟩)⟩

end SendFile

def Served.kernel? : Served → Option Kernel
  | next _ k => some k
  | back o => some o.kernel
  | abort => none

/-- What the return value says about errno: a return of 0 follows an operation of the socket that
would block, or a handler that has not set a status; and a stage whose operation fails with another
errno does nothing more and the call returns -1. -/
structure ErrnoLaw (s : Server) (c : Client) (k : Kernel) : Prop where
  zero : ∀ o, serveStep s c k = .back o → o.rc = 0 →
    ∃ events, o.kernel.trace = k.trace ++ events ∧
      ((∃ e, events.getLast? = some e ∧ e.wouldBlock = true) ∨
        ((∃ state, .called state ∈ events) ∧ o.client.ta.resp.status = .xRespStatusUnset))
  hard : c.ta.state ≠ .serve → ∀ k', (serveStep s c k).kernel? = some k' →
    ∃ events, k'.trace = k.trace ++ events ∧
      ∀ pre e post, events = pre ++ e :: post → e.hardError = true →
        post = [] ∧ ∃ o, serveStep s c k = .back o ∧ o.rc = -1

/-- The states from which the stages SEND and SEND_FILE report their errors. -/
def ErrnoSeen (c : Client) (k : Kernel) : Prop :=
  match c.ta.state with
  | .send => WritesSeen c.ta.resp.bufs k.writes
  | .sendFile => SendfileSeen c k.sendfiles
  | _ => True

theorem errnoLaw_of_reported {s : Server} {c : Client} {k : Kernel} {events : List Event}
    (trace : ∀ k', (serveStep s c k).kernel? = some k' → k'.trace = k.trace ++ events)
    (reported : Reported events (∃ o, serveStep s c k = .back o ∧ o.rc = -1)
      (∃ o, serveStep s c k = .back o ∧ o.rc = 0)) : ErrnoLaw s c k := by
  refine ⟨fun o back rc => ?_, fun _ k' left => ?_⟩
  · have same := trace o.kernel (by rw [back]; rfl)
    exact ⟨events, same, .inl (reported.blocked ⟨o, back, rc⟩)⟩
  · exact ⟨events, trace k' left, fun pre e post split hard => reported.of_hardError split hard⟩

theorem Reported.imp {events : List Event} {failed failed' waits waits' : Prop}
    (h : Reported events failed waits) (fails : failed → failed') (waiting : waits' → waits) :
    Reported events failed' waits' :=
  ⟨h.early, fun e last hard => fails (h.last e last hard), fun wait => h.blocked (waiting wait)⟩

section Stages

variable {s : Server} {c : Client} {k : Kernel} {o : Outcome} {state : TransactionState}

theorem afterStage_kernel : (afterStage state o).kernel? = some o.kernel := by
  unfold afterStage
  split
  · split <;> rfl
  · split <;> rfl

theorem afterOutput_kernel : (afterOutput state o).kernel? = some o.kernel := by
  unfold afterOutput
  split
  · rfl
  · split <;> rfl

theorem afterStage_hangup (rc : o.rc ≠ 0) (status : o.client.ta.resp.status = .xHangup) :
    afterStage state o = .back { o with rc := -1 } := by
  rw [afterStage, if_pos rc, if_pos status]

theorem afterStage_zero {o' : Outcome} (back : afterStage state o = .back o') (rc : o'.rc = 0) :
    o.rc = 0 ∧ o'.client = o.client ∧ o'.kernel = o.kernel ∧ o.client.ta.state = state := by
  unfold afterStage at back
  split at back
  · split at back
    · cases back
      cases rc
    · cases back
  · rename_i done
    split at back
    · rename_i same
      cases back
      exact ⟨by simpa using done, rfl, rfl, same⟩
    · cases back

theorem afterOutput_failed (rc : o.rc ≠ 0) : afterOutput state o = .back { o with rc := -1 } := by
  rw [afterOutput, if_pos rc]

theorem afterOutput_zero {o' : Outcome} (back : afterOutput state o = .back o') (rc : o'.rc = 0) :
    o.rc = 0 ∧ o.client.ta.state = state := by
  unfold afterOutput at back
  split at back
  · cases back
    cases rc
  · rename_i done
    split at back
    · rename_i same
      exact ⟨by simpa using done, same⟩
    · cases back

end Stages

def Closes (k k' : Kernel) : Prop :=
  ∃ events, k'.trace = k.trace ++ events ∧ ∀ e ∈ events, ∃ fd, e = .closed fd

theorem Closes.of_trace {k k' k'' : Kernel} (h : Closes k k') (trace : k''.trace = k'.trace) :
    Closes k k'' := by
  obtain ⟨events, same, closes⟩ := h
  exact ⟨events, trace.trans same, closes⟩

theorem Closes.rfl' (k : Kernel) : Closes k k := ⟨[], (List.append_nil _).symm, by simp⟩

theorem closeFdToZero_closes (k : Kernel) (fd : Int) : Closes k (k.closeFdToZero fd).2 := by
  unfold Kernel.closeFdToZero
  split
  · exact ⟨[.closed fd], rfl, by simp⟩
  · exact .rfl' k

theorem Closes.trans {k k' k'' : Kernel} (h : Closes k k') (h' : Closes k' k'') : Closes k k'' := by
  obtain ⟨before, trace, closes⟩ := h
  obtain ⟨after, trace', closes'⟩ := h'
  refine ⟨before ++ after, by rw [trace', trace, List.append_assoc], fun e member => ?_⟩
  exact (List.mem_append.mp member).elim (closes e) (closes' e)

theorem closes_rule : PrepareRule fun _ k _ k' => Closes k k' where
  refl _ k := .rfl' k
  trans := .trans
  line _ k := .rfl' k
  header _ k _ _ := .rfl' k
  emptyLine _ k := .rfl' k
  unended _ k := .rfl' k
  describe _ k := .rfl' k
  wipe _ k := .rfl' k
  drop c k := closeFdToZero_closes k c.ta.resp.fd
  texts c k texts := (Closes.rfl' k).of_trace (by rw [(appendTexts_spec c k texts).kernel])

theorem prepareResponse_closes {c : Client} {k : Kernel} {o : Outcome}
    (h : prepareResponse c k = some o) : Closes k o.kernel := closes_rule.prepared h

theorem errnoLaw_read {s : Server} {c : Client} {k : Kernel} (state : c.ta.state = .read) :
    ErrnoLaw s c k := by
  have step : serveStep s c k = afterStage .read (recvRequest c k) := by
    rw [serveStep, state]
  obtain ⟨events, trace, reported⟩ := recvLoop_reports c k c.ta.reqParseBlk c.ta.reqParseIter
  refine errnoLaw_of_reported ?_ (reported.imp ?_ ?_)
  · intro k' left
    rw [step, afterStage_kernel] at left
    cases left
    exact trace
  · rintro ⟨rc, status⟩
    exact ⟨_, step.trans (afterStage_hangup rc status), rfl⟩
  · rintro ⟨o, back, rc⟩
    rw [step] at back
    obtain ⟨rc, -, -, state⟩ := afterStage_zero back rc
    exact ⟨rc, state⟩

theorem serveCont_state (c : Client) (k : Kernel) :
    (serveCont c k).client.ta.state ≠ .serve := by
  simp [serveCont, Client.setState]

theorem serveEndpoint_waits {s : Server} {c : Client} {k : Kernel}
    (waits : (serveEndpoint s c k).client.ta.state = .serve) :
    ∃ events, (serveEndpoint s c k).kernel.trace = k.trace ++ events ∧
      (∃ state, .called state ∈ events) ∧
      (serveEndpoint s c k).client.ta.resp.status = .xRespStatusUnset := by
  unfold serveEndpoint at waits ⊢
  split at waits
  · exact absurd waits (serveCont_state _ _)
  · rename_i handler hit
    have frame := runProgram_frame s (handler c.ta.api.internalData) c
      (k.emit (.called c.ta.api.internalData))
    simp only at waits ⊢
    generalize runProgram s (handler c.ta.api.internalData) c _ = r at frame waits ⊢
    obtain ⟨events, trace, -⟩ := frame.trace
    split at waits
    · rename_i unset
      rw [if_pos unset]
      refine ⟨.called c.ta.api.internalData :: events ++ [.returned r.1.ta.resp.status], ?_,
        ⟨_, List.mem_cons_self ..⟩, unset⟩
      simp only [Kernel.emit] at trace ⊢
      rw [trace]
      simp
    · exact absurd waits (serveCont_state _ _)

theorem serveRequest_waits {s : Server} {c : Client} {k : Kernel} {o : Outcome}
    (h : serveRequest s c k = some o) (waits : o.client.ta.state = .serve) :
    ∃ events, o.kernel.trace = k.trace ++ events ∧ (∃ state, .called state ∈ events) ∧
      o.client.ta.resp.status = .xRespStatusUnset := by
  unfold serveRequest at h
  split at h
  · cases h
    exact absurd waits (serveCont_state _ _)
  · split at h
    · cases h
      exact serveEndpoint_waits waits
    · split at h
      · cases h
      · simp only at h
        split at h
        · cases h
        · cases h
          exact absurd waits (serveCont_state _ _)
        · cases h
          obtain ⟨events, trace, ⟨p, called⟩, unset⟩ := serveEndpoint_waits waits
          refine ⟨.routed :: events, ?_, ⟨p, List.mem_cons_of_mem _ called⟩, unset⟩
          rw [trace]
          simp [Kernel.emit]

theorem errnoLaw_serve {s : Server} {c : Client} {k : Kernel} (state : c.ta.state = .serve) :
    ErrnoLaw s c k := by
  refine ⟨fun o back rc => ?_, fun other => absurd state other⟩
  simp only [serveStep, state] at back
  cases served : serveRequest s c k with
  | none =>
    rw [served] at back
    cases back
  | some o' =>
    rw [served] at back
    obtain ⟨-, client, kernel, state'⟩ := afterStage_zero back rc
    rw [client, kernel]
    obtain ⟨events, trace, called, unset⟩ := serveRequest_waits served state'
    exact ⟨events, trace, .inr ⟨called, unset⟩⟩

/-- Behind the preparation of a response the call goes on to send it, or returns -1. -/
theorem serveStep_prepareResponse {s : Server} {c : Client} {k : Kernel} {o : Outcome}
    (state : c.ta.state = .prepareResponse) (prepared : prepareResponse c k = some o) :
    (o.rc ≠ 0 ∧ serveStep s c k = .back { o with rc := -1 }) ∨
      (o.rc = 0 ∧ serveStep s c k = .next o.client (logTransaction s o.client o.kernel)) := by
  have step := serveStep_prepared (s := s) state prepared
  rw [step]
  by_cases rc : o.rc = 0
  · right
    obtain ⟨rc', c', k'⟩ := o
    cases rc
    obtain ⟨c₁, buf, n, ready⟩ := prepareResponse_ready prepared
    have sends : c'.ta.state ≠ .prepareResponse := by
      rw [ready]
      exact TransactionState.noConfusion
    rw [afterOutput, if_neg (by simp), if_neg sends]
    exact ⟨rfl, rfl⟩
  · rw [afterOutput_failed rc]
    exact .inl ⟨rc, rfl⟩

theorem logTransaction_trace (s : Server) (c : Client) (k : Kernel) :
    ∃ events, (logTransaction s c k).trace = k.trace ++ events ∧
      events.all (fun e => !e.hardError) = true := by
  unfold logTransaction
  split
  · exact ⟨[], (List.append_nil _).symm, rfl⟩
  · exact ⟨[.logged _ _], rfl, rfl⟩

theorem errnoLaw_prepareResponse {s : Server} {c : Client} {k : Kernel}
    (state : c.ta.state = .prepareResponse) : ErrnoLaw s c k := by
  cases prepared : prepareResponse c k with
  | none =>
    have step : serveStep s c k = .abort := by simp only [serveStep, state, prepared]
    exact ⟨by simp [step], by simp [step, Served.kernel?]⟩
  | some o =>
    obtain ⟨events, trace, closes⟩ := prepareResponse_closes prepared
    have quiet : events.all (fun e => !e.hardError) = true := by
      simp only [List.all_eq_true, Bool.not_eq_true']
      intro e member
      obtain ⟨fd, rfl⟩ := closes e member
      rfl
    rcases serveStep_prepareResponse (s := s) state prepared with ⟨-, step⟩ | ⟨-, step⟩
    · refine errnoLaw_of_reported ?_ (Reported.quiet quiet (by simp [step]))
      intro k' left
      rw [step] at left
      cases left
      exact trace
    · obtain ⟨logged, more, quiet'⟩ := logTransaction_trace s o.client o.kernel
      refine @errnoLaw_of_reported _ _ _ (events ++ logged) ?_
        (Reported.quiet (by rw [List.all_append, quiet, quiet']; rfl) (by simp [step]))
      intro k' left
      rw [step] at left
      cases left
      rw [more, trace, List.append_assoc]

theorem errnoLaw_send {s : Server} {c : Client} {k : Kernel} (state : c.ta.state = .send)
    (seen : WritesSeen c.ta.resp.bufs k.writes) : ErrnoLaw s c k := by
  have step : serveStep s c k = afterOutput .send (sendResponse c k) := by
    rw [serveStep, state]
  obtain ⟨rc, events, trace, reported⟩ := sendLoop_reports k.writes c k seen
  refine errnoLaw_of_reported ?_ (reported.imp False.elim ?_)
  · intro k' left
    rw [step, afterOutput_kernel] at left
    cases left
    exact trace
  · rintro ⟨o, back, rc⟩
    rw [step] at back
    exact (afterOutput_zero back rc).2

theorem errnoLaw_sendFile {s : Server} {c : Client} {k : Kernel} (state : c.ta.state = .sendFile)
    (seen : SendfileSeen c k.sendfiles) : ErrnoLaw s c k := by
  have step : serveStep s c k = afterOutput .sendFile (sendResponseFile c k) := by
    rw [serveStep, state]
  obtain ⟨events, trace, reported⟩ := sendResponseFile_reports seen
  refine errnoLaw_of_reported ?_ (reported.imp ?_ ?_)
  · intro k' left
    rw [step, afterOutput_kernel] at left
    cases left
    exact trace
  · intro rc
    exact ⟨_, step.trans (afterOutput_failed (by rw [rc]; decide)), rfl⟩
  · rintro ⟨o, back, rc⟩
    rw [step] at back
    exact afterOutput_zero back rc

theorem errnoLaw_done {s : Server} {c : Client} {k : Kernel} (state : c.ta.state = .done) :
    ErrnoLaw s c k := by
  have step := serveStep_done (s := s) (k := k) state
  cases finalized : finalizeTransaction c k with
  | none =>
    rw [finalized] at step
    exact ⟨by simp [step], by simp [step, Served.kernel?]⟩
  | some left =>
    obtain ⟨c', k'⟩ := left
    rw [finalized] at step
    have trace : k'.trace = k.trace ++ [.finalized] := by
      simp only [finalizeTransaction] at finalized
      split at finalized
      · cases finalized
        rfl
      · cases finalized
    refine @errnoLaw_of_reported _ _ _ [.finalized] ?_ (Reported.quiet rfl (by simp [step]))
    intro k'' left
    rw [step] at left
    cases left
    exact trace

theorem errnoLaw_of_seen (s : Server) {c : Client} {k : Kernel} (seen : ErrnoSeen c k) :
    ErrnoLaw s c k := by
  cases state : c.ta.state with
  | read => exact errnoLaw_read state
  | serve => exact errnoLaw_serve state
  | prepareResponse => exact errnoLaw_prepareResponse state
  | send =>
    rw [ErrnoSeen, state] at seen
    exact errnoLaw_send state seen
  | sendFile =>
    rw [ErrnoSeen, state] at seen
    exact errnoLaw_sendFile state seen
  | done => exact errnoLaw_done state

def Conn.ErrnoSeen : Conn → Prop
  | serving c k => Kitserv.ErrnoSeen c k
  | _ => True

/-- In every call from any state, while no stage gets to an error that it takes for something
else: errno is translated as the callers rely on. -/
theorem serve_client_errno {s : Server} {c c' : Client} {k k' : Kernel} {n : Nat}
    (seen : Steps.Meets (Conn.step s) Conn.ErrnoSeen (n + 1) (.serving c k))
    (reached : Conn.run s n (.serving c k) = .serving c' k') : ErrnoLaw s c' k' := by
  have here : Conn.ErrnoSeen (Conn.run s n (.serving c k)) := seen n (Nat.lt_succ_self n)
  rw [reached] at here
  exact errnoLaw_of_seen s here

def answering (writes : List Transfer) : Conn :=
  .serving (answeredOk.setState .prepareResponse) (.writing writes)

theorem answering_sends (writes : List Transfer) : ∃ c k,
    Conn.run rootServer 1 (answering writes) = .serving c k ∧ c.ta.state = .send ∧
      k.writes = writes := by
  have run : (prepareResponse (answeredOk.setState .prepareResponse) (.writing [])).map
      Outcome.rc = some 0 := by decide +kernel
  have same : prepareResponse (answeredOk.setState .prepareResponse) (.writing writes) =
      (prepareResponse (answeredOk.setState .prepareResponse) (.writing [])).map
        fun o => { o with kernel := .writing writes } := rfl
  obtain ⟨⟨rc, c, k⟩, prepared, rfl⟩ := Option.map_eq_some_iff.mp run
  rw [prepared] at same
  obtain ⟨c₁, buf, n, ready⟩ := prepareResponse_ready same
  have ready : c = describeBuffers ((prepareRespStart c₁).setHeaders buf n) := ready
  rcases serveStep_prepareResponse (s := rootServer) rfl same with ⟨failed, -⟩ | ⟨-, step⟩
  · exact absurd rfl failed
  · refine ⟨c, .writing writes, ?_, by rw [ready]; rfl, rfl⟩
    change Conn.step rootServer (answering writes) = _
    simp only [answering, Conn.step, step]
    rfl

theorem serve_client_errno_blocked : ∃ c k,
    Conn.run rootServer 1 (answering [.wouldBlock]) = .serving c k ∧ c.ta.state = .send ∧
      ErrnoLaw rootServer c k := by
  obtain ⟨c, k, reached, state, writes⟩ := answering_sends [.wouldBlock]
  refine ⟨c, k, reached, state, serve_client_errno (fun m lt => ?_) reached⟩
  rcases Nat.lt_succ_iff_lt_or_eq.mp lt with first | rfl
  · rw [Nat.lt_one_iff.mp first]
    exact trivial
  · change Conn.ErrnoSeen (Conn.run rootServer 1 (answering [.wouldBlock]))
    rw [reached]
    simp only [Conn.ErrnoSeen, ErrnoSeen, state, writes, WritesSeen]

/-- A peer that has gone (EPIPE): the call returns 0, and the connection waits for a socket that
will not report anything any more. -/
theorem failed_writev_waits : ∃ c k,
    Conn.run rootServer 1 (answering [.failed 32]) = .serving c k ∧ c.ta.state = .send ∧
      Conn.run rootServer 2 (answering [.failed 32]) =
        .waiting c ({ k with writes := [] }.emit (.socketWrite (.failed 32))) ∧
      ¬ ErrnoLaw rootServer c k := by
  obtain ⟨c, k, reached, state, writes⟩ := answering_sends [.failed 32]
  have step : serveStep rootServer c k =
      .back ⟨0, c, { k with writes := [] }.emit (.socketWrite (.failed 32))⟩ := by
    simp only [serveStep, state, sendResponse, writes, sendLoop, afterOutput, ne_eq,
      not_true_eq_false, if_false, if_true]
  refine ⟨c, k, reached, state, ?_, fun law => ?_⟩
  · have next : Conn.run rootServer 2 (answering [.failed 32]) =
        Conn.step rootServer (Conn.run rootServer 1 (answering [.failed 32])) := rfl
    rw [next, reached]
    simp only [Conn.step, step, if_true]
  · obtain ⟨events, trace, waits⟩ := law.zero _ step rfl
    have one : events = [.socketWrite (.failed 32)] := List.append_cancel_left trace.symm
    rw [one] at waits
    rcases waits with ⟨e, last, blocked⟩ | ⟨⟨p, called⟩, -⟩
    · cases last
      cases blocked
    · simp at called

end Kitserv
