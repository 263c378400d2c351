import Kitserv.Descriptors
import Kitserv.FileStage
import Kitserv.RangeServing

/-! Whole runs of a connection: what static serving has opened and what a handler has handed over is
closed once by the end of the transaction, and nothing else is, unless a step of the connection loses a
descriptor. -/
namespace Kitserv

section Stages

variable {s : Server} {c : Client} {k : Kernel}

/-- No descriptor before a file can have been chosen, and none when the transaction is done. -/
structure Owes (c : Client) : Prop where
  unused : c.ta.state = .read ∨ c.ta.state = .serve ∧ c.ta.api.endpointHit = none → c.ta.resp.fd ≤ 0
  done : c.ta.state = .done → c.ta.resp.fd ≤ 0

theorem Owes.between {c : Client} (read : c.ta.state ≠ .read) (serve : c.ta.state ≠ .serve)
    (done : c.ta.state ≠ .done) : Owes c :=
  ⟨fun state => absurd state (by simp [read, serve]), fun state => absurd state done⟩

def Served.Accounts (c : Client) (k : Kernel) : Served → Prop
  | next c' k' => Kitserv.Accounts c.held k c'.held k' ∧ Owes c'
  | back o => if o.rc = 0 then Kitserv.Accounts c.held k o.client.held o.kernel ∧ Owes o.client
      else Kitserv.Accounts c.held k [] o.kernel
  | abort => True

theorem serveStatic_accounts (none : c.ta.resp.fd ≤ 0) :
    Accounts c.held k (serveStatic s c k).client.held (serveStatic s c k).kernel :=
  handleStaticPath_accounts _ .none (.inl none)

theorem serveEndpoint_accounts {c' : Client} {k' : Kernel} (enters : Enters s c k c' k')
    (state : c.ta.state = .serve) (owes : Owes c) (keeps : serveKeepsFd s c k = true) :
    Accounts c.held k (serveEndpoint s c' k').client.held (serveEndpoint s c' k').kernel ∧
      ((serveEndpoint s c' k').client.ta.state = .serve →
        (serveEndpoint s c' k').client.ta.api.endpointHit.isSome = true) := by
  have routed : Accounts c.held k c'.held k' := by
    cases enters with
    | selected => exact .of_trace c.held rfl
    | routed => exact .emit k rfl
  have unhit : c'.ta.api.endpointHit = none → c'.ta.resp.fd ≤ 0 := by
    cases enters with
    | selected _ hit =>
      intro none
      rw [none] at hit
      cases hit
    | routed _ none => exact fun _ => owes.unused (.inr ⟨state, none⟩)
  simp only [serveKeepsFd, enters.entered] at keeps
  unfold serveEndpoint
  split
  · rename_i none
    exact ⟨routed.trans (serveStatic_accounts (unhit none)), (by rintro ⟨⟩)⟩
  · rename_i handler hit
    simp only [hit] at keeps
    have called : Accounts c'.held k' c'.held (k'.emit (.called c'.ta.api.internalData)) :=
      .emit k' rfl
    have ran := called.trans (runProgram_accounts keeps)
    have frame := runProgram_frame s (handler c'.ta.api.internalData) c'
      (k'.emit (.called c'.ta.api.internalData))
    simp only
    generalize runProgram s (handler c'.ta.api.internalData) c' _ = r at ran frame
    have returned : Accounts c'.held k' r.1.held (r.2.emit (.returned r.1.ta.resp.status)) :=
      ran.trans (.emit r.2 rfl)
    split
    · refine ⟨routed.trans returned, fun _ => ?_⟩
      rw [frame.endpointHit, hit]
      rfl
    · exact ⟨routed.trans returned, (by rintro ⟨⟩)⟩

theorem serveRequest_accounts {o : Outcome} (state : c.ta.state = .serve) (carries : Carries s c)
    (owes : Owes c) (keeps : serveKeepsFd s c k = true) (h : serveRequest s c k = some o) :
    Accounts c.held k o.client.held o.kernel ∧
      (o.client.ta.state = .serve → o.client.ta.api.endpointHit.isSome = true) := by
  rcases serveRequest_cases h with ⟨none, rfl⟩ | ⟨tree, flags, -, rfl⟩ | ⟨c', k', enters, rfl⟩
  · have unhit : c.ta.api.endpointHit = Option.none := by
      cases hit : c.ta.api.endpointHit with
      | none => rfl
      | some handler =>
        have found := (carries.routed state (by rw [hit]; rfl)).1
        rw [none] at found
        cases found
    exact ⟨serveStatic_accounts (owes.unused (.inr ⟨state, unhit⟩)), nofun⟩
  · have routed : Accounts c.held k c.held (k.emit .routed) := .emit k rfl
    exact ⟨routed, nofun⟩
  · exact serveEndpoint_accounts enters state owes keeps

theorem read_accounts (state : c.ta.state = .read) (owes : Owes c) :
    (serveStep s c k).Accounts c k := by
  have step : serveStep s c k = afterStage .read (recvRequest c k) := by rw [serveStep, state]
  have keeps : RecvKeeps c k (recvRequest c k) := recvLoop_keeps ..
  have none : c.ta.resp.fd ≤ 0 := owes.unused (.inl state)
  have fd : (recvRequest c k).client.ta.resp.fd = c.ta.resp.fd := by rw [keeps.resp]
  have reads : Accounts c.held k c.held (recvRequest c k).kernel := by
    obtain ⟨events, trace, reads⟩ := keeps.trace
    refine .silent c.held trace fun e member => ?_
    rcases reads e member with ⟨r, rfl⟩ | ⟨info, rfl⟩ <;> rfl
  have goes {c' : Client} (same : c'.ta.resp.fd = (recvRequest c k).client.ta.resp.fd) :
      Accounts c.held k c'.held (recvRequest c k).kernel := by
    rw [Client.held_congr (same.trans fd)]
    exact reads
  have unused : Owes (recvRequest c k).client := by
    rw [← fd] at none
    exact ⟨fun _ => none, fun _ => none⟩
  rw [step]
  unfold afterStage
  split
  · split
    · rw [Client.held_none none] at reads
      simp only [Served.Accounts, Client.held_none none]
      exact reads
    · exact ⟨goes rfl, .between (by simp [Client.setState]) (by simp [Client.setState])
        (by simp [Client.setState])⟩
  · split
    · simp only [Served.Accounts, if_true]
      exact ⟨goes rfl, unused⟩
    · exact ⟨goes rfl, unused⟩

/-- The stage PREPARE_RESPONSE, when it loses no descriptor. A hang-up leaves one open, and so does a
header block without room for its end when the body is preserved; when it is not, a block that has room
for all but the empty line makes 507 of `resp_fd`. -/
def prepareKeepsFd (c : Client) : Prop :=
  if c.ta.resp.status = .xHangup then c.ta.resp.fd ≤ 0
  else if c.ta.resp.preserveBodyOnError = true then
    c.ta.resp.fd ≤ 0 ∨ (c.headerBlock ++ lastLines (announcedLength c)).length + 2 < httpBufsz
  else c.ta.resp.status.isError = true ∨ c.ta.resp.fd = 507 ∨ ¬ NoRoomForEnd c

theorem prepareSuccess_fd (ok : HeadersOk c) (done : (prepareSuccess c).ok = true) :
    (prepareSuccess c).client.ta.resp.fd = c.ta.resp.fd := by
  rcases prepareSuccess_cases ok with ⟨r, success, headers⟩ | ⟨r, _, failed, -⟩ | ⟨r, failed, -⟩
  · rw [success]
    exact headers.described.fd
  · rw [failed] at done
    cases done
  · rw [failed] at done
    cases done

theorem prepareSuccess_full (ok : HeadersOk c) (full : httpBufsz ≤ c.headerBlock.length + 2) :
    (prepareSuccess c).ok = false := by
  rcases prepareSuccess_cases ok with ⟨r, -, headers⟩ | ⟨r, _, failed, -⟩ | ⟨r, failed, -⟩
  · have inside := headers.inside
    have crlf : (ascii "\r\n").length = 2 := rfl
    simp only [List.length_append, crlf] at inside
    omega
  · rw [failed]
  · rw [failed]

theorem errorResponse_preserved (keep : c.ta.resp.preserveBodyOnError = true) :
    errorResponse c k = some {
      rc := if (prepareSuccess c).ok then 0 else -1
      client := (prepareSuccess c).client
      kernel := k } := by
  simp only [errorResponse, prepareError, keep, if_true, Option.map_some, ne_eq, not_true_eq_false,
    if_false]

def Outcome.Accounts (c : Client) (k : Kernel) (o : Outcome) : Prop :=
  Kitserv.Accounts c.held k (if o.rc = 0 then o.client.held else []) o.kernel

theorem Outcome.Accounts.of_success (ok : HeadersOk c)
    (keeps : c.ta.resp.fd ≤ 0 ∨ (prepareSuccess c).ok = true) : Outcome.Accounts c k {
      rc := if (prepareSuccess c).ok then 0 else -1
      client := (prepareSuccess c).client
      kernel := k } := by
  unfold Outcome.Accounts
  cases passes : (prepareSuccess c).ok with
  | true =>
    have same := Client.held_congr (prepareSuccess_fd ok passes)
    simp only [if_true]
    rw [same]
    exact .of_trace c.held rfl
  | false =>
    have none : c.ta.resp.fd ≤ 0 := keeps.resolve_right (by rw [passes]; exact Bool.false_ne_true)
    rw [Client.held_none none]
    exact .of_trace [] rfl

theorem errorResponse_drops {o : Outcome} (ok : HeadersOk c)
    (keep : c.ta.resp.preserveBodyOnError = false) (h : errorResponse c k = some o) :
    o.Accounts c k := by
  simp only [errorResponse, Option.map_eq_some_iff] at h
  obtain ⟨e, prepared, rfl⟩ := h
  obtain ⟨dropped, good⟩ := prepareError_spec ok keep prepared
  obtain ⟨closed, none⟩ := closeFdToZero_accounts c k
  have closed : Accounts c.held k [] e.kernel :=
    closed.trans (.of_trace [] (by rw [dropped.kernel]))
  have none : e.client.ta.resp.fd ≤ 0 := by rwa [dropped.fd]
  split
  · rename_i failed
    simp only [Outcome.Accounts, if_neg failed]
    exact closed
  · rename_i done
    have ready := (good (not_not.mp done)).1.headers
    have passed := Outcome.Accounts.of_success (k := e.kernel) ready (.inl none)
    rw [Outcome.Accounts, Client.held_none none] at passed
    exact closed.trans passed

theorem retried_status {r : Client} {block : Bytes}
    (headers : WithHeaders (prepareRespStart c) block r) (status : HttpStatus) :
    HeadersOk (r.setStatus status) ∧
      (r.setStatus status).ta.resp.preserveBodyOnError = c.ta.resp.preserveBodyOnError ∧
      (r.setStatus status).ta.resp.fd = c.ta.resp.fd := by
  have ok := headers.headersOk
  refine ⟨⟨ok.size, ok.inside⟩, ?_⟩
  rw [headers.same]
  exact ⟨rfl, rfl⟩

theorem retried_fd {r : Client} {block : Bytes}
    (headers : WithHeaders (prepareRespStart c) block r) (fd : Int) :
    HeadersOk (r.setFd fd) ∧
      (r.setFd fd).ta.resp.preserveBodyOnError = c.ta.resp.preserveBodyOnError ∧
      (r.setFd fd).headerBlock = block := by
  have ok := headers.headersOk
  refine ⟨⟨ok.size, ok.inside⟩, ?_, headers.headerBlock⟩
  rw [headers.same]
  rfl

/-- A preserved body without a file: what the second pass does cannot lose a descriptor, and it comes to
nothing if the first has stored one. -/
theorem errorResponse_again {o : Outcome} (ok : HeadersOk c) (none : c.ta.resp.fd ≤ 0)
    (preserve : c.ta.resp.preserveBodyOnError = true) (failed : (prepareSuccess c).ok = false)
    (h : errorResponse (prepareSuccess c).client k = some o) : o.Accounts c k := by
  rcases prepareSuccess_cases ok with
    ⟨r, success, -⟩ | ⟨r, block, first, headers, -⟩ | ⟨r, first, headers, -, full⟩
  · rw [success] at failed
    cases failed
  · obtain ⟨ready, kept, fd⟩ := retried_status headers .http507InsufficientStorage
    rw [first, errorResponse_preserved (kept.trans preserve)] at h
    cases h
    rw [← fd] at none
    have passed := Outcome.Accounts.of_success (k := k) ready (.inl none)
    rw [Outcome.Accounts, Client.held_congr fd] at passed
    exact passed
  · obtain ⟨ready, kept, block⟩ := retried_fd headers 507
    have fails := prepareSuccess_full ready (by rw [block]; exact full)
    rw [first, errorResponse_preserved (kept.trans preserve)] at h
    cases h
    rw [Outcome.Accounts, Client.held_none none]
    simp only [fails, Bool.false_eq_true, if_false]
    exact .of_trace [] rfl

/-- A failed first pass: the canned response closes the file, or the 507 that has become of it. -/
theorem errorResponse_canned {o : Outcome} (ok : HeadersOk c)
    (canned : c.ta.resp.preserveBodyOnError = false) (failed : (prepareSuccess c).ok = false)
    (keeps : c.ta.resp.fd = 507 ∨ ¬ NoRoomForEnd c)
    (h : errorResponse (prepareSuccess c).client k = some o) : o.Accounts c k := by
  rcases prepareSuccess_cases ok with
    ⟨r, success, -⟩ | ⟨r, block, first, headers, -⟩ | ⟨r, first, headers, unended⟩
  · rw [success] at failed
    cases failed
  · obtain ⟨ready, kept, fd⟩ := retried_status headers .http507InsufficientStorage
    rw [first] at h
    have dropped := errorResponse_drops ready (kept.trans canned) h
    rw [Outcome.Accounts, Client.held_congr fd] at dropped
    exact dropped
  · obtain ⟨ready, kept, -⟩ := retried_fd headers 507
    have same : (r.setFd 507).ta.resp.fd = c.ta.resp.fd :=
      (keeps.resolve_right (not_not.mpr unended)).symm
    rw [first] at h
    have dropped := errorResponse_drops ready (kept.trans canned) h
    rw [Outcome.Accounts, Client.held_congr same] at dropped
    exact dropped

theorem prepareResponse_accounts {o : Outcome} (ok : HeadersOk c) (keeps : prepareKeepsFd c)
    (h : prepareResponse c k = some o) : o.Accounts c k := by
  unfold prepareKeepsFd at keeps
  unfold prepareResponse at h
  by_cases hangup : c.ta.resp.status = .xHangup
  · rw [if_pos hangup] at h keeps
    cases h
    rw [Outcome.Accounts, Client.held_none keeps]
    exact .of_trace [] rfl
  rw [if_neg hangup] at h keeps
  by_cases preserve : c.ta.resp.preserveBodyOnError = true
  · rw [if_pos preserve] at keeps
    have passes : c.ta.resp.fd ≤ 0 ∨ (prepareSuccess c).ok = true := by
      refine keeps.imp_right fun room => ?_
      rcases prepareSuccess_cases ok with ⟨r, success, -⟩ | ⟨r, _, -, -, full⟩ | ⟨r, -, -, -, full⟩
      · rw [success]
      · omega
      · omega
    have passed := Outcome.Accounts.of_success (k := k) ok passes
    split at h
    · rw [errorResponse_preserved preserve] at h
      cases h
      exact passed
    · simp only at h
      split at h <;> rename_i success
      · cases h
        simpa only [success, if_true] using passed
      · have failed : (prepareSuccess c).ok = false := by simpa using success
        exact errorResponse_again ok (passes.resolve_right success) preserve failed h
  · rw [if_neg preserve] at keeps
    have canned : c.ta.resp.preserveBodyOnError = false := by simpa using preserve
    split at h
    · exact errorResponse_drops ok canned h
    · rename_i good
      simp only at h
      split at h <;> rename_i success
      · have passed := Outcome.Accounts.of_success (k := k) ok (.inr success)
        cases h
        simpa only [success, if_true] using passed
      · have failed : (prepareSuccess c).ok = false := by simpa using success
        exact errorResponse_canned ok canned failed (keeps.resolve_left good) h

/-- Answers of sendfile that do not end the stage with bytes of the range left. -/
def notBroken (last : Int) : Int → List Transfer → Bool
  | _, [] | _, .wouldBlock :: _ => true
  | pos, .failed _ :: _ => last < pos
  | pos, .bytes n :: rest =>
    let taken := min n (toSizeT (last - pos + 1))
    last < pos + taken || (taken ≠ 0 && notBroken last (pos + taken) rest)

/-- The stage SEND_FILE, when it loses no descriptor: one of a HEAD request is not closed, nor is that
of a file that ends early, or that sendfile has failed on. -/
def sendFileKeepsFd (c : Client) (k : Kernel) : Bool :=
  c.ta.resp.fd ≤ 0 ||
    (c.ta.req.method ≠ .head && notBroken c.ta.resp.bodyEnd c.ta.resp.bodyPos k.sendfiles)

structure Outcome.Settles (owned : List Int) (k : Kernel) (o : Outcome) : Prop where
  accounts : Kitserv.Accounts owned k (if o.rc = 0 then o.client.held else []) o.kernel
  done : o.client.ta.state = .done → o.client.ta.resp.fd ≤ 0

theorem Outcome.Settles.after {owned left : List Int} {k' : Kernel} {o : Outcome}
    (h : o.Settles left k') (before : Kitserv.Accounts owned k left k') : o.Settles owned k :=
  ⟨before.trans h.accounts, h.done⟩

theorem sendFileDone_settles (none : c.ta.resp.fd ≤ 0) : (sendFileDone c k).Settles [] k := by
  have held : (sendFileDone c k).client.held = [] := Client.held_none none
  refine ⟨?_, fun _ => none⟩
  rw [held, ite_self]
  exact .of_trace [] rfl

theorem sendFileClose_settles : (sendFileClose c k).Settles c.held k := by
  obtain ⟨closed, none⟩ := closeFdToZero_accounts c k
  have zeroed := sendFileDone_settles (c := c.setFd (k.closeFdToZero c.ta.resp.fd).1)
    (k := (k.closeFdToZero c.ta.resp.fd).2) none
  exact zeroed.after closed

theorem sendFileLoop_settles (state : c.ta.state = .sendFile) (sendfiles : List Transfer)
    (keeps : notBroken c.ta.resp.bodyEnd c.ta.resp.bodyPos sendfiles = true) :
    (sendFileLoop c k sendfiles).Settles c.held k := by
  have waits (c : Client) (k k' : Kernel) (state : c.ta.state = .sendFile)
      (moved : Accounts c.held k c.held k') : (sendFileLoop.failed c 0 k').Settles c.held k := by
    unfold sendFileLoop.failed
    split
    · exact sendFileClose_settles.after moved
    · refine ⟨moved, fun done => ?_⟩
      rw [state] at done
      cases done
  induction sendfiles generalizing c k with
  | nil =>
    simp only [sendFileLoop]
    exact waits c k _ state ((Accounts.of_trace c.held rfl).trans (.emit { k with sendfiles := [] } rfl))
  | cons t rest ih =>
    have answered (t : Transfer) :
        Accounts c.held k c.held ({ k with sendfiles := rest }.emit (.socketSendfile t)) :=
      (Accounts.of_trace c.held rfl).trans (.emit { k with sendfiles := rest } rfl)
    cases t with
    | wouldBlock =>
      simp only [sendFileLoop]
      exact waits c k _ state (answered .wouldBlock)
    | failed code =>
      simp only [notBroken, decide_eq_true_eq] at keeps
      simp only [sendFileLoop, sendFileLoop.failed, if_pos keeps]
      exact sendFileClose_settles.after (answered (.failed code))
    | bytes n =>
      simp only [notBroken, Bool.or_eq_true, Bool.and_eq_true, decide_eq_true_eq] at keeps
      simp only [sendFileLoop]
      generalize min n (toSizeT (c.ta.resp.bodyEnd - c.ta.resp.bodyPos + 1)) = taken at keeps
      have moved := (answered (.bytes taken)).trans
        (.emit _ (e := .sentFile c.ta.resp.fd c.ta.resp.bodyPos taken) rfl)
      split
      · exact sendFileClose_settles.after moved
      · rename_i left
        obtain ⟨some', keeps⟩ := keeps.resolve_left left
        rw [if_neg some']
        exact (ih (c := c.setPos (c.ta.resp.bodyPos + taken)) state keeps).after moved

theorem sendResponseFile_settles (state : c.ta.state = .sendFile)
    (keeps : sendFileKeepsFd c k = true) : (sendResponseFile c k).Settles c.held k := by
  simp only [sendFileKeepsFd, Bool.or_eq_true, Bool.and_eq_true, decide_eq_true_eq] at keeps
  unfold sendResponseFile
  by_cases file : c.ta.resp.fd > 0
  · obtain ⟨method, whole⟩ := keeps.resolve_left (Int.not_le.mpr file)
    rw [if_pos ⟨file, method⟩]
    exact sendFileLoop_settles state k.sendfiles whole
  · have none := Int.not_lt.mp file
    rw [if_neg fun both => file both.1, Client.held_none none]
    exact sendFileDone_settles none

theorem sendLoop_accounts (writes : List Transfer) :
    Accounts c.held k (sendLoop c k writes).client.held (sendLoop c k writes).kernel := by
  have answered (c : Client) (k : Kernel) (t : Transfer) (rest : List Transfer) :
      Accounts c.held k c.held ({ k with writes := rest }.emit (.socketWrite t)) :=
    (Accounts.of_trace c.held rfl).trans (.emit { k with writes := rest } rfl)
  induction writes generalizing c k with
  | nil => exact answered c k .wouldBlock []
  | cons t rest ih =>
    cases t with
    | wouldBlock => exact answered c k .wouldBlock rest
    | failed code => exact answered c k (.failed code) rest
    | bytes n =>
      simp only [sendLoop]
      generalize min n (describedBytes k.outside c).length = taken
      have moved := (answered c k (.bytes taken) rest).trans
        (.emit _ (e := .sent ((describedBytes k.outside c).take taken)) rfl)
      split
      · exact moved
      · exact moved.trans ih

end Stages

section Run

variable {s : Server} {c : Client} {k : Kernel}

instance (c : Client) : Decidable (NoRoomForEnd c) := inferInstanceAs (Decidable (_ ∧ _))

instance (c : Client) : Decidable (prepareKeepsFd c) := by
  unfold prepareKeepsFd
  infer_instance

def Conn.keepsFd (s : Server) : Conn → Bool
  | serving c k =>
    match c.ta.state with
    | .serve => serveKeepsFd s c k
    | .prepareResponse => prepareKeepsFd c
    | .sendFile => sendFileKeepsFd c k
    | _ => true
  | _ => true

theorem prepare_accounts (state : c.ta.state = .prepareResponse) (ok : HeadersOk c)
    (keeps : prepareKeepsFd c) : (serveStep s c k).Accounts c k := by
  cases prepared : prepareResponse c k with
  | none =>
    have step : serveStep s c k = .abort := by simp only [serveStep, state, prepared]
    rw [step]
    trivial
  | some o =>
    have passed : o.Accounts c k := prepareResponse_accounts ok keeps prepared
    rcases serveStep_prepareResponse (s := s) state prepared with ⟨rc, step⟩ | ⟨rc, step⟩
    · rw [Outcome.Accounts, if_neg rc] at passed
      rw [step]
      exact passed
    · rw [Outcome.Accounts, if_pos rc] at passed
      obtain ⟨rc', c', k'⟩ := o
      cases rc
      obtain ⟨c₁, buf, n, ready⟩ := prepareResponse_ready prepared
      have sends : c'.ta.state = .send := by
        rw [ready]
        rfl
      have logged : Accounts c'.held k' c'.held (logTransaction s c' k') := by
        unfold logTransaction
        split
        · exact .of_trace c'.held rfl
        · exact .emit k' rfl
      rw [step]
      exact ⟨passed.trans logged, .between (by simp [sends]) (by simp [sends]) (by simp [sends])⟩

theorem serveStep_accounts (carries : Carries s c) (owes : Owes c)
    (keeps : (Conn.serving c k).keepsFd s = true) : (serveStep s c k).Accounts c k := by
  unfold Conn.keepsFd at keeps
  cases state : c.ta.state with
  | read => exact read_accounts state owes
  | serve =>
    simp only [state] at keeps
    cases served : serveRequest s c k with
    | none =>
      have step : serveStep s c k = .abort := by simp only [serveStep, state, served]
      rw [step]
      trivial
    | some o =>
      obtain ⟨accounts, hit⟩ := serveRequest_accounts state carries owes keeps served
      rcases serveStep_serve state served with ⟨waits, step⟩ | ⟨prepares, step⟩
      · have hit := hit waits
        rw [step]
        refine ⟨accounts, ⟨?_, fun done => ?_⟩⟩
        · rintro (read | ⟨-, none⟩)
          · rw [waits] at read
            cases read
          · rw [none] at hit
            cases hit
        · rw [waits] at done
          cases done
      · rw [step]
        exact ⟨accounts, .between (by simp [prepares]) (by simp [prepares]) (by simp [prepares])⟩
  | prepareResponse =>
    simp only [state, decide_eq_true_eq] at keeps
    exact prepare_accounts state (carries.lines (.inr (.inr state))).headers keeps
  | send =>
    have sent : Accounts c.held k (sendResponse c k).client.held (sendResponse c k).kernel :=
      sendLoop_accounts k.writes
    have between {c' : Client} (state : c'.ta.state = .send ∨ c'.ta.state = .sendFile) : Owes c' := by
      rcases state with state | state <;>
        exact .between (by simp [state]) (by simp [state]) (by simp [state])
    rcases serveStep_send s k state with ⟨waits, step⟩ | ⟨goes, step⟩
    · rw [step]
      exact ⟨sent, between (.inl waits)⟩
    · rw [step]
      exact ⟨sent, between (.inr goes)⟩
  | sendFile =>
    simp only [state] at keeps
    obtain ⟨accounts, done⟩ := sendResponseFile_settles state keeps
    rcases serveStep_sendFile s k state with ⟨rc, step⟩ | ⟨rc, waits, step⟩ | ⟨rc, ends, step⟩
    · rw [if_neg rc] at accounts
      rw [step]
      exact accounts
    · rw [if_pos rc] at accounts
      rw [step]
      exact ⟨accounts, .between (by simp [waits]) (by simp [waits]) (by simp [waits])⟩
    · rw [if_pos rc] at accounts
      rw [step]
      exact ⟨accounts, ⟨fun _ => done ends, done⟩⟩
  | done =>
    have none := Client.held_none (owes.done state)
    rw [serveStep_done state]
    unfold finalizeTransaction
    simp only
    split
    · trivial
    · rename_i c' k' left
      split at left
      · cases left
        refine ⟨?_, ⟨fun _ => Int.le_refl 0, fun _ => Int.le_refl 0⟩⟩
        rw [none]
        exact (Accounts.of_trace [] rfl).trans (.emit k.realloc.2 rfl)
      · cases left

/-- The descriptors that are owned are the transaction's, and a closed connection owns none. -/
def Conn.Accounted (s : Server) : Conn → Prop
  | serving c k | waiting c k => Carries s c ∧ Owes c ∧
      Monitor.run Ledger.post [] (k.trace.map Event.entry) = some c.held
  | closed _ k => Monitor.run Ledger.post [] (k.trace.map Event.entry) = some []
  | aborted => True

theorem Accounts.run {owned left : List Int} {k k' : Kernel} (h : Accounts owned k left k')
    (before : Monitor.run Ledger.post [] (k.trace.map Event.entry) = some owned) :
    Monitor.run Ledger.post [] (k'.trace.map Event.entry) = some left := by
  obtain ⟨events, trace, run⟩ := h
  rw [trace, List.map_append, Monitor.run_append_of before, run]

theorem step_accounted (conn : Conn) (h : conn.Accounted s) (keeps : conn.keepsFd s = true) :
    (conn.step s).Accounted s := by
  cases conn with
  | serving c k =>
    obtain ⟨carries, owes, before⟩ := h
    have kept := serveStep_carries (k := k) carries
    have accounts := serveStep_accounts carries owes keeps
    simp only [Conn.step]
    revert kept accounts
    cases serveStep s c k with
    | next c' k' =>
      rintro kept ⟨accounts, owes⟩
      exact ⟨kept, owes, accounts.run before⟩
    | back o =>
      intro kept accounts
      simp only [Served.Accounts] at accounts
      simp only
      split <;> rename_i rc
      · rw [if_pos rc] at accounts
        exact ⟨kept.2 rc, accounts.2, accounts.1.run before⟩
      · rw [if_neg rc] at accounts
        have settled : Accounts [] o.kernel [] (resetClient o.client o.kernel).2 :=
          (Accounts.of_trace [] rfl).trans (.emit o.kernel.realloc.2 rfl)
        exact (accounts.trans settled).run before
    | abort => exact fun _ _ => trivial
  | waiting c k => exact h
  | closed c k => exact h
  | aborted => trivial

/-- Every close is of a descriptor that the transaction owns, and where a transaction ends it has closed
each of them as often as it has been opened or handed over. -/
def Conn.EvenDescriptors (conn : Conn) : Prop :=
  ∀ k, conn.kernel? = some k → Ledger.Even [] (k.trace.map Event.entry)

theorem evenDescriptors_iff {conn : Conn} : conn.EvenDescriptors ↔ conn.kernel?.all (fun k =>
    (Monitor.run Ledger.post [] (k.trace.map Event.entry)).isSome) = true := by
  unfold Conn.EvenDescriptors
  cases conn.kernel? with
  | none => exact ⟨fun _ => rfl, fun _ _ => nofun⟩
  | some k =>
    rw [Option.all_some, ← Ledger.even_iff]
    exact ⟨fun even => even k rfl, fun even k' same => Option.some.inj same ▸ even⟩

instance (conn : Conn) : Decidable conn.EvenDescriptors := decidable_of_iff' _ evenDescriptors_iff

theorem Conn.Accounted.even {conn : Conn} (h : conn.Accounted s) : conn.EvenDescriptors := by
  rw [evenDescriptors_iff]
  cases conn with
  | serving c k | waiting c k =>
    rw [Conn.kernel?, Option.all_some, h.2.2]
    rfl
  | closed c k =>
    rw [Conn.Accounted] at h
    rw [Conn.kernel?, Option.all_some, h]
    rfl
  | aborted => rfl

/-- Whole runs of a connection, from a client without a transaction. -/
theorem descriptors_closed_once (n : Nat) (reached : Reachable s c) (fresh : c.ta = {})
    (start : k.trace = [])
    (meets : Steps.Meets (Conn.step s) (fun conn => conn.keepsFd s = true) n (.serving c k)) :
    (Conn.run s n (.serving c k)).EvenDescriptors := by
  have begins : (Conn.serving c k).Accounted s := by
    have none : c.ta.resp.fd ≤ 0 := Int.le_of_eq (by rw [fresh])
    refine ⟨reached.carries, ⟨fun _ => none, fun _ => none⟩, ?_⟩
    rw [start, Client.held_none none]
    rfl
  exact (Steps.inv_of_step step_accounted begins meets).even

def askedForFile (sendfiles : List Transfer) : Conn :=
  .serving (createClientStruct Blocks.zeroed) { Kernel.fiveBytes with
    input := [.chunk 71 (ascii "ET /a HTTP/1.1\r\n\r\n")]
    writes := [.bytes httpBufsz]
    sendfiles := sendfiles }

theorem descriptors_closed_once_five :
    (Conn.run rootServer 6 (askedForFile [.bytes 2, .bytes 3])).EvenDescriptors :=
  have meets : Steps.Meets (Conn.step rootServer) (fun conn => conn.keepsFd rootServer = true) 6
      (askedForFile [.bytes 2, .bytes 3]) := by
    unfold Steps.Meets
    decide +kernel
  descriptors_closed_once 6 (.created Blocks.zeroed) rfl rfl meets

/-- A file that is cut off after two bytes: the transaction is finalized with its descriptor open. -/
theorem short_file_leaks :
    ¬ (Conn.run rootServer 6 (askedForFile [.bytes 2, .bytes 0])).EvenDescriptors := by
  decide +kernel

end Run

end Kitserv
