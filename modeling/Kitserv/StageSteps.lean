import Kitserv.Delivery
import Kitserv.HandlerProtocol

namespace Kitserv

open Memory

section Recv

def ParseStep.mem : ParseStep → Bytes
  | goto _ mem _ _ _ | readMore _ mem _ _ _ | finish mem _ _ | fail mem _ _ => mem

def ParseEnd.mem : ParseEnd → Bytes
  | readMore _ mem _ _ _ | finish mem _ _ | fail mem _ _ => mem

theorem storePath_length (mem : Bytes) (req : Request) (p r : Nat) :
    (storePath mem req p r).1.length = mem.length := by
  simp only [storePath]
  split <;> simp

theorem parseStep_length (len : Nat) (state : ParseState) (mem : Bytes) (req : Request) (p r : Nat) :
    (parseStep len state mem req p r).mem.length = mem.length := by
  cases state with
  | new => rfl
  | reqMethod =>
    simp only [parseStep, reqMethod]
    split
    · rfl
    · split <;> rfl
  | reqPath =>
    simp only [parseStep, reqPath]
    split
    · rfl
    · split
      · rfl
      · split <;> exact storePath_length ..
  | reqVersion =>
    simp only [parseStep, reqVersion]
    split
    · rfl
    · split
      · rfl
      · split
        · rfl
        · split <;> rfl
  | reqVersionLf =>
    simp only [parseStep, reqVersionLf]
    split
    · rfl
    · split <;> rfl
  | reqHead =>
    simp only [parseStep, reqHead]
    split
    · rfl
    · split
      · split
        · exact List.length_set
        · split <;> simp [ParseStep.mem]
      · rfl
  | reqHeadLf =>
    simp only [parseStep, reqHeadLf]
    split
    · rfl
    · split
      · rfl
      · split <;> rfl

theorem parse_length (len : Nat) (state : ParseState) (mem : Bytes) (req : Request) (p r : Nat) :
    (parse len state mem req p r).mem.length = mem.length := by
  fun_induction parse len state mem req p r with
  | case1 state mem req p r state' mem' req' p' r' step ih =>
    have first := parseStep_length len state mem req p r
    rw [step] at first
    exact ih.trans first
  | case2 state mem req p r state' mem' req' p' r' step =>
    have first := parseStep_length len state mem req p r
    rwa [step] at first
  | case3 state mem req p r mem' req' p' step =>
    have first := parseStep_length len state mem req p r
    rwa [step] at first
  | case4 state mem req p r mem' req' status step =>
    have first := parseStep_length len state mem req p r
    rwa [step] at first

def Round.client : Round → Client
  | stop o => o.client
  | again c _ _ _ => c

def Round.kernel : Round → Kernel
  | stop o => o.kernel
  | again _ k _ _ => k

theorem recvParse_received (c : Client) (k : Kernel) (p r : Option Nat) :
    (recvParse c k p r).client.reqHeaders.length = c.reqHeaders.length ∧
      Received k.input (recvParse c k p r).kernel.input := by
  have length := parse_length c.reqHeadersLen c.ta.parseState c.reqHeaders c.ta.req (p.getD 0)
    (r.getD 0)
  unfold recvParse
  split
  · rename_i parsed
    rw [parsed] at length
    exact ⟨length, .refl k.input⟩
  · rename_i parsed
    rw [parsed] at length
    exact ⟨length, .refl k.input⟩
  · rename_i parsed
    rw [parsed] at length
    exact ⟨length, .refl k.input⟩

theorem recvRound_received (c : Client) (k : Kernel) (p r : Option Nat) :
    (recvRound c k p r).client.reqHeaders.length = c.reqHeaders.length ∧
      Received k.input (recvRound c k p r).kernel.input := by
  have parsed {c' : Client} {k' : Kernel} (size : c'.reqHeaders.length = c.reqHeaders.length)
      (first : Received k.input k'.input) :
      (recvParse c' k' p r).client.reqHeaders.length = c.reqHeaders.length ∧
        Received k.input (recvParse c' k' p r).kernel.input := by
    obtain ⟨length, later⟩ := recvParse_received c' k' p r
    exact ⟨length.trans size, first.trans later⟩
  unfold recvRound
  split
  · rename_i k' got
    split
    · exact ⟨rfl, .of_read got⟩
    · exact parsed rfl (.of_read got)
  · rename_i code k' got
    exact ⟨rfl, .of_read got⟩
  · rename_i k' got
    split
    · split
      · exact ⟨rfl, .of_read got⟩
      · exact parsed rfl (.of_read got)
    · exact ⟨rfl, .of_read got⟩
  · rename_i b bs k' got
    exact parsed (length_overwrite ..) (.of_read got)

theorem recvLoop_received (c : Client) (k : Kernel) (p r : Option Nat) :
    (recvLoop c k p r).client.reqHeaders.length = c.reqHeaders.length ∧
      Received k.input (recvLoop c k p r).kernel.input := by
  fun_induction recvLoop c k p r with
  | case1 c k p r o round =>
    have received := recvRound_received c k p r
    rwa [round] at received
  | case2 c k p r c' k' p' r' round ih =>
    have received := recvRound_received c k p r
    rw [round] at received
    exact ⟨ih.1.trans received.1, received.2.trans ih.2⟩

end Recv

section Status

def KeepsError (c c' : Client) : Prop := c.ta.resp.status.isError = true → c'.ta.resp.status.isError = true

theorem headerAdd_keepsError (c : Client) (key : Bytes) (value : Rendering) :
    KeepsError c (headerAdd c key value).client := by
  intro error
  obtain ⟨buf, n, added | full⟩ := headerAdd_shape c key value
  · rw [added]
    exact error
  · rw [full]
    rfl

theorem keepsError_rule : PrepareRule fun c _ c' _ => KeepsError c c' where
  refl _ _ := id
  trans first later error := later (first error)
  line _ _ := id
  header c _ key value := headerAdd_keepsError c key value
  emptyLine _ _ := id
  unended _ _ := id
  describe _ _ := id
  wipe _ _ := id
  drop _ _ := id
  texts c k texts error := by
    rw [(appendTexts_spec c k texts).client]
    exact error

theorem prepareResponse_keepsError {c : Client} {k : Kernel} {o : Outcome}
    (h : prepareResponse c k = some o) : KeepsError c o.client := keepsError_rule.prepared h

theorem sendLoop_status (writes : List Transfer) (c : Client) (k : Kernel) :
    (sendLoop c k writes).rc = 0 ∧
      (sendLoop c k writes).client.ta.resp.status = c.ta.resp.status ∧
      (sendLoop c k writes).client.ta.req = c.ta.req ∧
      ((sendLoop c k writes).client.ta.state = c.ta.state ∨
        (sendLoop c k writes).client.ta.state = .sendFile) := by
  induction writes generalizing c k with
  | nil => exact ⟨rfl, rfl, rfl, .inl rfl⟩
  | cons t rest ih =>
    cases t with
    | wouldBlock => exact ⟨rfl, rfl, rfl, .inl rfl⟩
    | failed code => exact ⟨rfl, rfl, rfl, .inl rfl⟩
    | bytes n =>
      simp only [sendLoop]
      split
      · exact ⟨rfl, rfl, rfl, .inr rfl⟩
      · exact ih ..

/-- How `kitserv_http_send_response_file` ends: it waits or fails in its state, or the transaction is
done, and then the connection is kept only without an error status and for HTTP/1.1. -/
structure FileEnds (c : Client) (o : Outcome) : Prop where
  status : o.client.ta.resp.status = c.ta.resp.status
  req : o.client.ta.req = c.ta.req
  state : o.client.ta.state = c.ta.state ∨ o.client.ta.state = .done ∧
    (o.rc = 0 → c.ta.resp.status.isError = false ∧ c.ta.req.version = .http11)

theorem sendFileDone_ends (c : Client) (k : Kernel) : FileEnds c (sendFileDone c k) := by
  refine ⟨rfl, rfl, .inr ⟨rfl, fun rc => ?_⟩⟩
  simp only [sendFileDone, Client.setState] at rc
  cases error : c.ta.resp.status.isError with
  | true => simp [error] at rc
  | false =>
    cases version : c.ta.req.version with
    | http10 => simp [version] at rc
    | http11 => exact ⟨rfl, rfl⟩

theorem sendFileFailed_ends (c : Client) (rc : Int) (k : Kernel) :
    FileEnds c (sendFileLoop.failed c rc k) := by
  unfold sendFileLoop.failed
  split
  · obtain ⟨status, req, state⟩ := sendFileDone_ends { c with ta := { c.ta with resp := { c.ta.resp with
      fd := (k.closeFdToZero c.ta.resp.fd).1 } } } (k.closeFdToZero c.ta.resp.fd).2
    exact ⟨status, req, state⟩
  · exact ⟨rfl, rfl, .inl rfl⟩

theorem sendFileLoop_ends (sendfiles : List Transfer) (c : Client) (k : Kernel) :
    FileEnds c (sendFileLoop c k sendfiles) := by
  induction sendfiles generalizing c k with
  | nil => exact sendFileFailed_ends ..
  | cons t rest ih =>
    cases t with
    | wouldBlock => exact sendFileFailed_ends ..
    | failed code => exact sendFileFailed_ends ..
    | bytes n =>
      simp only [sendFileLoop]
      generalize min n (toSizeT (c.ta.resp.bodyEnd - c.ta.resp.bodyPos + 1)) = taken
      generalize ({ k with sendfiles := rest }.emit (.socketSendfile (.bytes taken))).emit
        (.sentFile c.ta.resp.fd c.ta.resp.bodyPos taken) = k'
      split
      · obtain ⟨status, req, state⟩ := sendFileDone_ends { c with ta := { c.ta with resp :=
          { c.ta.resp with
            bodyPos := c.ta.resp.bodyPos + taken
            fd := (k'.closeFdToZero c.ta.resp.fd).1 } } } (k'.closeFdToZero c.ta.resp.fd).2
        exact ⟨status, req, state⟩
      · split
        · obtain ⟨status, req, state⟩ := sendFileDone_ends { c with ta := { c.ta with resp :=
            { c.ta.resp with bodyPos := c.ta.resp.bodyPos + taken } } } k'
          exact ⟨status, req, state⟩
        · obtain ⟨status, req, state⟩ := ih { c with ta := { c.ta with resp :=
            { c.ta.resp with bodyPos := c.ta.resp.bodyPos + taken } } } k'
          exact ⟨status, req, state⟩

theorem sendResponseFile_ends (c : Client) (k : Kernel) : FileEnds c (sendResponseFile c k) := by
  unfold sendResponseFile
  split
  · exact sendFileLoop_ends ..
  · exact sendFileDone_ends c k

end Status

section Serve

theorem serveEndpoint_state (s : Server) {c : Client} (k : Kernel) (state : c.ta.state = .serve) :
    (serveEndpoint s c k).rc = 0 ∧ ((serveEndpoint s c k).client.ta.state = .serve ∨
      (serveEndpoint s c k).client.ta.state = .prepareResponse) := by
  unfold serveEndpoint
  split
  · exact ⟨rfl, .inr rfl⟩
  · rename_i handler hit
    have frame := runProgram_frame s (handler c.ta.api.internalData) c
      (k.emit (.called c.ta.api.internalData))
    simp only
    split
    · exact ⟨rfl, .inl (frame.state.trans state)⟩
    · exact ⟨rfl, .inr rfl⟩

theorem serveRequest_state {s : Server} {c : Client} {k : Kernel} {o : Outcome}
    (h : serveRequest s c k = some o) (state : c.ta.state = .serve) :
    o.rc = 0 ∧ (o.client.ta.state = .serve ∨ o.client.ta.state = .prepareResponse) := by
  unfold serveRequest at h
  split at h
  · cases h
    exact ⟨rfl, .inr rfl⟩
  · split at h
    · cases h
      exact serveEndpoint_state s k state
    · split at h
      · cases h
      · simp only at h
        split at h
        · cases h
        · cases h
          exact ⟨rfl, .inr rfl⟩
        · cases h
          exact serveEndpoint_state s (k.emit .routed) state

/-- The step from SERVE. -/
theorem serveStep_serve {s : Server} {c : Client} {k : Kernel} {o : Outcome}
    (state : c.ta.state = .serve) (served : serveRequest s c k = some o) :
    (o.client.ta.state = .serve ∧ serveStep s c k = .back ⟨0, o.client, o.kernel⟩) ∨
      (o.client.ta.state = .prepareResponse ∧ serveStep s c k = .next o.client o.kernel) := by
  have step : serveStep s c k = afterStage .serve o := by simp only [serveStep, state, served]
  obtain ⟨rc, waits | prepares⟩ := serveRequest_state served state
  · left
    refine ⟨waits, ?_⟩
    rw [step, afterStage, if_neg (by simp [rc]), if_pos waits]
  · right
    refine ⟨prepares, ?_⟩
    rw [step, afterStage, if_neg (by simp [rc]), if_neg (by simp [prepares])]

end Serve

section Send

/-- The step from SEND. -/
theorem serveStep_send (s : Server) {c : Client} (k : Kernel) (state : c.ta.state = .send) :
    ((sendResponse c k).client.ta.state = .send ∧
        serveStep s c k = .back ⟨0, (sendResponse c k).client, (sendResponse c k).kernel⟩) ∨
      ((sendResponse c k).client.ta.state = .sendFile ∧
        serveStep s c k = .next (sendResponse c k).client (sendResponse c k).kernel) := by
  have step : serveStep s c k = afterOutput .send (sendResponse c k) := by rw [serveStep, state]
  have ends := sendLoop_status k.writes c k
  rw [← sendResponse] at ends
  obtain ⟨rc, -, -, waits | sent⟩ := ends
  · left
    have waits := waits.trans state
    refine ⟨waits, ?_⟩
    rw [step, afterOutput, if_neg (not_not.mpr rc), if_pos waits]
  · right
    refine ⟨sent, ?_⟩
    rw [step, afterOutput, if_neg (not_not.mpr rc), if_neg (by simp [sent])]

/-- The step from SEND_FILE. -/
theorem serveStep_sendFile (s : Server) {c : Client} (k : Kernel) (state : c.ta.state = .sendFile) :
    ((sendResponseFile c k).rc ≠ 0 ∧ serveStep s c k =
        .back ⟨-1, (sendResponseFile c k).client, (sendResponseFile c k).kernel⟩) ∨
      ((sendResponseFile c k).rc = 0 ∧ (sendResponseFile c k).client.ta.state = .sendFile ∧
        serveStep s c k = .back ⟨0, (sendResponseFile c k).client, (sendResponseFile c k).kernel⟩) ∨
      ((sendResponseFile c k).rc = 0 ∧ (sendResponseFile c k).client.ta.state = .done ∧
        serveStep s c k = .next (sendResponseFile c k).client (sendResponseFile c k).kernel) := by
  have step : serveStep s c k = afterOutput .sendFile (sendResponseFile c k) := by
    rw [serveStep, state]
  have ends := (sendResponseFile_ends c k).state
  rw [step, afterOutput]
  by_cases rc : (sendResponseFile c k).rc = 0
  · rw [if_neg (not_not.mpr rc)]
    rcases ends with waits | ⟨done, -⟩
    · have waits := waits.trans state
      rw [if_pos waits, rc]
      exact .inr (.inl ⟨rfl, waits, rfl⟩)
    · rw [if_neg (by simp [done])]
      exact .inr (.inr ⟨rc, done, rfl⟩)
  · rw [if_pos rc]
    exact .inl ⟨rc, rfl⟩

end Send

end Kitserv
