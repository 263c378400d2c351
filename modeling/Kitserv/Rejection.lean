import Kitserv.Framing
import Kitserv.PayloadRead

namespace Kitserv

structure HeadParsed (c : Client) : Prop where
  window : Window c
  payload : c.ta.reqPayload.isSome = true

theorem Untouched.headParsed {c c' : Client} {k k' : Kernel} (h : Untouched c k c' k')
    (parsed : HeadParsed c) : HeadParsed c' :=
  ⟨h.window parsed.window, h.payload ▸ parsed.payload⟩

section Calls

theorem HeadParsed.setStatus {c : Client} (h : HeadParsed c) (status : HttpStatus) :
    HeadParsed (c.setStatus status) :=
  ⟨⟨h.window.size, h.window.low, h.window.high, h.window.fits, h.window.cookies⟩, h.payload⟩

theorem readPayload_headParsed {c : Client} (parsed : HeadParsed c) (k : Kernel) (nbytes : Nat) :
    HeadParsed (readPayload c k nbytes).client := by
  have looped {c : Client} (parsed : HeadParsed c) (written : Bytes) (rest : Nat) :
      HeadParsed (readPayloadLoop c k written rest).handOver.client := by
    rw [(handOver_same _).2.1, readPayloadLoop_client]
    exact parsed.setStatus _
  obtain ⟨⟨size, low, high, fits, cookies⟩, payload⟩ := parsed
  rw [readPayload_eq]
  split
  · apply looped
    refine ⟨⟨size, ?_, ?_, fits, cookies⟩, payload⟩
    · simp only
      omega
    · simp only
      omega
  · exact looped ⟨⟨size, low, high, fits, cookies⟩, payload⟩ _ _

theorem apiCall_headParsed (s : Server) {c : Client} (k : Kernel) (f : Call)
    (parsed : HeadParsed c) : HeadParsed (apiCall s c k f).client := by
  by_cases payload : ∃ nbytes, f = .readPayload nbytes
  · obtain ⟨nbytes, rfl⟩ := payload
    exact readPayload_headParsed parsed k nbytes
  · refine ⟨(apiCall_other (k := k) s (not_exists.mp payload) parsed.window).window, ?_⟩
    rw [(apiCall_frame s c k f).client.same]
    exact parsed.payload

theorem headParsed_rule (s : Server) : CallRule s fun c _ c' _ => HeadParsed c → HeadParsed c' where
  silent := fun h => h.headParsed
  trans := fun first later parsed => later (first parsed)
  call := fun _ k f => apiCall_headParsed s k f

end Calls

structure Refused (c : Client) : Prop where
  state : c.ta.state = .prepareResponse ∨ c.ta.state = .send ∨ c.ta.state = .sendFile
  error : c.ta.resp.status.isError = true

/-- What holds of the client of a connection that is served, whatever it has received. -/
inductive Consistent (c : Client) : Prop where
  | reading {v : Bytes} (state : c.ta.state = .read)
      (progress : Progress v c c.ta.reqParseBlk c.ta.reqParseIter)
  | serving (state : c.ta.state ≠ .read) (parsed : HeadParsed c)
  | refused (refused : Refused c)

def Served.Keeps (inv : Client → Prop) : Served → Prop
  | next c _ => inv c
  | back o => o.rc = 0 → inv o.client
  | abort => True

def Conn.Keeps (inv : Client → Prop) : Conn → Prop
  | serving c _ | waiting c _ => inv c
  | closed _ _ | aborted => True

theorem Served.Keeps.conn {s : Server} {inv : Client → Prop} {c : Client} {k : Kernel}
    (h : (serveStep s c k).Keeps inv) : ((Conn.serving c k).step s).Keeps inv := by
  simp only [Conn.step]
  revert h
  cases serveStep s c k with
  | next c' k' => exact id
  | back o =>
    intro zero
    simp only
    split
    · rename_i rc
      exact zero rc
    · trivial
  | abort => exact id

/-- What each case of the switch keeps, a connection keeps. -/
theorem run_keeps {s : Server} {inv : Client → Prop} {conn : Conn} (n : Nat)
    (one : ∀ c k, inv c → (serveStep s c k).Keeps inv) (h : conn.Keeps inv) :
    (Conn.run s n conn).Keeps inv := by
  have keep (conn : Conn) (here : conn.Keeps inv) (_ : True) : (conn.step s).Keeps inv := by
    cases conn with
    | serving c k => exact (one c k here).conn
    | waiting c k => exact here
    | closed c k => exact here
    | aborted => trivial
  exact Steps.inv_of_step keep h fun _ _ => trivial

section Steps

variable {s : Server} {c : Client} {k : Kernel}

theorem afterStage_refused {o : Outcome} (rc : o.rc = -1)
    (error : o.client.ta.resp.status.isError = true) :
    (afterStage .read o).Keeps Refused := by
  have answered : o.client.ta.resp.status ≠ .xHangup := by
    rintro hangup
    rw [hangup] at error
    cases error
  rw [afterStage, if_pos (by simp [rc]), if_neg answered]
  exact ⟨.inl rfl, error⟩

theorem Served.Keeps.mono {inv inv' : Client → Prop} {r : Served} (h : r.Keeps inv)
    (weaker : ∀ c, inv c → inv' c) : r.Keeps inv' := by
  cases r with
  | next c k => exact weaker c h
  | back o => exact fun zero => weaker o.client (h zero)
  | abort => trivial

theorem read_keeps {v : Bytes} (state : c.ta.state = .read)
    (progress : Progress v c c.ta.reqParseBlk c.ta.reqParseIter) :
    (serveStep s c k).Keeps Consistent ∧
      ((recvRequest c k).rc = -1 → (serveStep s c k).Keeps Refused) := by
  have step : serveStep s c k = afterStage .read (recvRequest c k) := by rw [serveStep, state]
  obtain ⟨taken, -, room, recvEnd⟩ := recvRequest_spec k progress
  have size := (recvLoop_received c k c.ta.reqParseBlk c.ta.reqParseIter).1
  rw [← recvRequest] at size
  rw [step]
  revert size recvEnd
  generalize recvRequest c k = o
  intro recvEnd size
  have refuses (ends : (afterStage .read o).Keeps Refused) : (afterStage .read o).Keeps Consistent ∧
      (o.rc = -1 → (afterStage .read o).Keeps Refused) :=
    ⟨ends.mono fun _ => .refused, fun _ => ends⟩
  cases recvEnd with
  | waits rc progress' =>
    have reads : o.client.ta.state = .read := by rw [progress'.fresh]
    rw [afterStage, if_neg (by simp [rc]), if_pos reads]
    exact ⟨fun _ => .reading reads progress', fun failed => by simp [rc] at failed⟩
  | @accepts mem req p rc head buffer fill ta =>
    have serves : o.client.ta.state = .serve := by rw [ta]
    obtain ⟨window, -⟩ := Window.parsed room head (size.trans progress.size) buffer (by rw [ta])
      (by rw [ta]) (by rw [ta]) (by rw [ta])
    rw [afterStage, if_neg (by simp [rc]), if_neg (by simp [serves])]
    exact ⟨.serving (by simp [serves]) ⟨window, by rw [ta]; rfl⟩, fun failed => by simp [rc] at failed⟩
  | @rejects mem req status rc head ta =>
    have set : o.client.ta.resp.status = status := by rw [ta]
    refine refuses (afterStage_refused rc ?_)
    rw [set]
    rcases parse_status head with rfl | rfl | rfl <;> rfl
  | full rc undecided whole ta =>
    refine refuses (afterStage_refused rc ?_)
    rw [ta]
    rfl
  | hangup rc closed ta =>
    have set : o.client.ta.resp.status = .xHangup := by rw [ta]
    refine refuses ?_
    rw [afterStage, if_pos (by simp [rc]), if_pos set]
    exact fun zero => absurd zero (by simp)

theorem serve_keeps (state : c.ta.state = .serve) (parsed : HeadParsed c) :
    (serveStep s c k).Keeps Consistent := by
  cases served : serveRequest s c k with
  | none =>
    have step : serveStep s c k = .abort := by simp only [serveStep, state, served]
    rw [step]
    trivial
  | some o =>
    have parsed' := (headParsed_rule s).served served parsed
    rcases serveStep_serve state served with ⟨waits, step⟩ | ⟨prepares, step⟩
    · rw [step]
      exact fun _ => .serving (by simp [waits]) parsed'
    · rw [step]
      exact .serving (by simp [prepares]) parsed'

theorem prepare_keeps (state : c.ta.state = .prepareResponse) :
    (HeadParsed c → (serveStep s c k).Keeps Consistent) ∧
      (∀ o, prepareResponse c k = some o → o.client.ta.resp.status.isError = true →
        (serveStep s c k).Keeps Refused) := by
  cases prepared : prepareResponse c k with
  | none =>
    have step : serveStep s c k = .abort := by simp only [serveStep, state, prepared]
    rw [step]
    exact ⟨fun _ => trivial, fun _ none => by cases none⟩
  | some o =>
    rcases serveStep_prepareResponse (s := s) state prepared with ⟨rc, step⟩ | ⟨rc, step⟩
    · rw [step]
      exact ⟨fun _ zero => absurd zero (by simp), fun _ _ _ zero => absurd zero (by simp)⟩
    · have sends : o.client.ta.state = .send := by
        obtain ⟨rc', c', k'⟩ := o
        cases rc
        obtain ⟨c₁, buf, n, ready⟩ := prepareResponse_ready prepared
        rw [ready]
        rfl
      rw [step]
      refine ⟨fun parsed => .serving (by simp [sends]) ?_, ?_⟩
      · exact (prepareResponse_untouched prepared).headParsed parsed
      · rintro _ ⟨⟩ error
        exact ⟨.inr (.inl sends), error⟩

theorem send_keeps (state : c.ta.state = .send) :
    (HeadParsed c → (serveStep s c k).Keeps Consistent) ∧
      (c.ta.resp.status.isError = true → (serveStep s c k).Keeps Refused) := by
  have untouched := sendLoop_untouched k.writes c k
  have status := (sendLoop_status k.writes c k).2.1
  rw [← sendResponse] at untouched status
  have refused (ends : (sendResponse c k).client.ta.state = .send ∨
      (sendResponse c k).client.ta.state = .sendFile) (error : c.ta.resp.status.isError = true) :
      Refused (sendResponse c k).client := ⟨.inr ends, status ▸ error⟩
  rcases serveStep_send s k state with ⟨waits, step⟩ | ⟨goes, step⟩
  · rw [step]
    exact ⟨fun parsed _ => .serving (by simp [waits]) (untouched.headParsed parsed),
      fun error _ => refused (.inl waits) error⟩
  · rw [step]
    exact ⟨fun parsed => .serving (by simp [goes]) (untouched.headParsed parsed),
      fun error => refused (.inr goes) error⟩

theorem sendFile_keeps (state : c.ta.state = .sendFile) :
    (HeadParsed c → (serveStep s c k).Keeps Consistent) ∧
      (c.ta.resp.status.isError = true → (serveStep s c k).Keeps Refused) := by
  have untouched := sendResponseFile_untouched c k
  obtain ⟨status, -, ends⟩ := sendResponseFile_ends c k
  rcases serveStep_sendFile s k state with ⟨rc, step⟩ | ⟨rc, waits, step⟩ | ⟨rc, done, step⟩
  · rw [step]
    exact ⟨fun _ zero => absurd zero (by simp), fun _ zero => absurd zero (by simp)⟩
  · rw [step]
    exact ⟨fun parsed _ => .serving (by simp [waits]) (untouched.headParsed parsed),
      fun error _ => ⟨.inr (.inr waits), status ▸ error⟩⟩
  · rw [step]
    refine ⟨fun parsed => .serving (by simp [done]) (untouched.headParsed parsed), fun error => ?_⟩
    -- with an error status this stage returns -1
    rcases ends with stays | ⟨-, kept⟩
    · rw [done, state] at stays
      cases stays
    · rw [(kept rc).1] at error
      cases error

theorem done_keeps (state : c.ta.state = .done) (parsed : HeadParsed c) :
    (serveStep s c k).Keeps Consistent := by
  obtain ⟨c', k', finalized, idle, -⟩ := finalizeTransaction_idle parsed.window (k := k)
  have step : serveStep s c k = .next c' k' := by simp only [serveStep, state, finalized]
  rw [step]
  exact .reading (by rw [idle.fresh]) idle.progress

theorem refused_keeps (h : Refused c) : (serveStep s c k).Keeps Refused := by
  obtain ⟨state | state | state, error⟩ := h
  · cases prepared : prepareResponse c k with
    | none =>
      have step : serveStep s c k = .abort := by simp only [serveStep, state, prepared]
      rw [step]
      trivial
    | some o => exact (prepare_keeps state).2 o prepared (prepareResponse_keepsError prepared error)
  · exact (send_keeps state).2 error
  · exact (sendFile_keeps state).2 error

theorem serveStep_keeps (h : Consistent c) : (serveStep s c k).Keeps Consistent := by
  cases h with
  | refused refused => exact (refused_keeps refused).mono fun _ => .refused
  | reading state progress => exact (read_keeps state progress).1
  | serving other parsed =>
    cases state : c.ta.state with
    | read => exact absurd state other
    | serve => exact serve_keeps state parsed
    | prepareResponse => exact (prepare_keeps state).1 parsed
    | send => exact (send_keeps state).1 parsed
    | sendFile => exact (sendFile_keeps state).1 parsed
    | done => exact done_keeps state parsed

end Steps

/-- The step that gives the input up: the parser refuses it, or an error response is prepared. -/
def Conn.GivesUp : Conn → Prop
  | serving c k =>
    (c.ta.state = .read ∧ (recvRequest c k).rc = -1) ∨
      (c.ta.state = .prepareResponse ∧
        ∃ o, prepareResponse c k = some o ∧ 400 ≤ o.client.ta.resp.status.code)
  | _ => False

def Conn.Parses : Conn → Prop
  | serving c _ | waiting c _ => c.ta.state = .read
  | closed _ _ | aborted => False

/-- What `kitserv_http_finalize_transaction` finds: the assertion holds, and what is left of the
payload is inside of the header buffer. -/
structure Finalizable (c : Client) (k : Kernel) : Prop where
  parsed : ∃ p, c.ta.reqPayload = some p ∧ (p : Int) + c.ta.reqPayloadLen ≤ c.reqHeaders.length
  size : c.reqHeaders.length = httpBufsz
  low : 0 ≤ c.ta.reqPayloadPos
  high : c.ta.reqPayloadPos ≤ c.ta.reqPayloadLen
  fits : c.ta.reqPayloadLen ≤ httpBufsz
  holds : ∃ c' k', finalizeTransaction c k = some (c', k')

theorem HeadParsed.finalizable {c : Client} (h : HeadParsed c) (k : Kernel) : Finalizable c k := by
  obtain ⟨window, payload⟩ := h
  obtain ⟨c', k', finalized, -⟩ := finalizeTransaction_idle window (k := k)
  obtain ⟨p, parsed⟩ := Option.isSome_iff_exists.mp payload
  have fits := window.fits
  rw [parsed, Option.getD_some] at fits
  refine ⟨⟨p, parsed, ?_⟩, window.size, window.low, window.high, by omega, c', k', finalized⟩
  rw [window.size]
  exact fits

section Runs

variable {s : Server} {conn : Conn}

theorem Conn.GivesUp.refused (h : conn.GivesUp) (consistent : conn.Keeps Consistent) :
    (conn.step s).Keeps Refused := by
  cases conn with
  | serving c k =>
    rcases h with ⟨state, failed⟩ | ⟨state, o, prepared, error⟩
    · cases consistent with
      | reading _ progress => exact ((read_keeps state progress).2 failed).conn
      | serving other => exact absurd state other
      | refused refused => exact (refused_keeps refused).conn
    · have refused : o.client.ta.resp.status.isError = true := decide_eq_true error
      exact ((prepare_keeps state).2 o prepared refused).conn
  | waiting c k | closed c k | aborted => exact h.elim

theorem Conn.Keeps.parses_not (h : conn.Keeps Refused) : ¬ conn.Parses := by
  cases conn with
  | serving c k | waiting c k =>
    intro reads
    have late := h.state
    rw [show c.ta.state = .read from reads] at late
    simp at late
  | closed c k | aborted => exact id

theorem run_succ_add {m n : Nat} (lt : m < n) :
    Conn.run s n conn = Conn.run s (n - (m + 1)) ((Conn.run s m conn).step s) := by
  have split : n = n - (m + 1) + (m + 1) := by omega
  conv => lhs; rw [split]
  rw [Conn.run, Function.iterate_add_apply, Function.iterate_succ_apply']
  rfl

/-- A connection whose input has been refused takes no byte for a request any more, and a
transaction is finalized only behind a parsed head, with its payload inside of the buffer. -/
theorem rejected_input_ends {c : Client} {k : Kernel} (idle : Idle c) (n : Nat) :
    (∀ m < n, (Conn.run s m (.serving c k)).GivesUp → ¬ (Conn.run s n (.serving c k)).Parses) ∧
      ∀ c' k', Conn.run s n (.serving c k) = .serving c' k' → c'.ta.state = .done →
        Finalizable c' k' := by
  have start : (Conn.serving c k).Keeps Consistent :=
    .reading (by rw [idle.fresh]) idle.progress
  have reached (n : Nat) : (Conn.run s n (.serving c k)).Keeps Consistent :=
    run_keeps n (fun _ _ => serveStep_keeps) start
  refine ⟨fun m lt gives => ?_, fun c' k' serving done => ?_⟩
  · have refused : (Conn.run s n (.serving c k)).Keeps Refused := by
      rw [run_succ_add lt]
      exact run_keeps _ (fun _ _ => refused_keeps) (gives.refused (reached m))
    exact refused.parses_not
  · have here := reached n
    rw [serving] at here
    cases here with
    | reading reads =>
      rw [done] at reads
      cases reads
    | serving _ parsed => exact parsed.finalizable k'
    | refused refused =>
      have early := refused.state
      rw [done] at early
      simp at early

end Runs

def refusedInput : Kernel where
  input := [.chunk 71 (ascii "ARBAGE\n\nGET / HTTP/1.1\n\n")]
  writes := [.bytes 1000]
  fs _ := .empty

theorem rejected_input_ends_garbage :
    ¬ (Conn.run ignoring 3 (.serving (createClientStruct Blocks.zeroed) refusedInput)).Parses ∧
      ∃ c' k', Conn.run ignoring 5 (.serving (createClientStruct Blocks.zeroed) smuggling) =
        .serving c' k' ∧ Finalizable c' k' := by
  have gives : (Conn.run ignoring 0 (.serving (createClientStruct Blocks.zeroed)
      refusedInput)).GivesUp := .inl ⟨rfl, by decide +kernel⟩
  have done : (match Conn.run ignoring 5 (.serving (createClientStruct Blocks.zeroed) smuggling) with
      | .serving c _ => decide (c.ta.state = .done)
      | _ => false) = true := by decide +kernel
  refine ⟨(rejected_input_ends (createClientStruct_idle Blocks.zeroed) 3).1 0 (by decide) gives, ?_⟩
  split at done
  · rename_i c k serving
    exact ⟨c, k, serving, (rejected_input_ends (createClientStruct_idle Blocks.zeroed) 5).2 c k
      serving (of_decide_eq_true done)⟩
  · cases done

end Kitserv
