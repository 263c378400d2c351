import Kitserv.RecvChunks
import Kitserv.StageSteps

/-! Where the heads of a connection start in its stream, over whole runs. The connection takes the
stream piece by piece: a head, the payload that handlers read, and then, right behind the last byte
that somebody got, the next head. -/
namespace Kitserv

open Memory

/-- How far a stream has been taken, whether a transaction is going on, and where the next head
starts when the content-length of the last one counts. -/
structure Cursor where
  pos : Nat := 0
  busy : Bool := false
  next : Int := 0

/-- One transaction after the other: a head is the one that the stream has at the cursor, and payload
is what the stream has there. -/
def Cursor.step (stream : Bytes) (q : Cursor) : Event → Option Cursor
  | .request info =>
    match streamVerdict (stream.drop q.pos) with
    | .accepted head (some p) =>
      if q.busy = false ∧ info = head then
        some { pos := q.pos + p, busy := true, next := q.pos + p + info.contentLen }
      else none
    | _ => none
  | .payload bs =>
    if bs <+: stream.drop q.pos then some { q with pos := q.pos + bs.length } else none
  | .finalized => some { q with busy := false }
  | _ => some q

variable {stream : Bytes} {q : Cursor}

theorem run_inside {events : List Event} {rest : Bytes} (inside : ∀ e ∈ events, e.inside = true)
    (here : stream.drop q.pos = deliveredBytes events ++ rest) :
    ∃ q', Monitor.run (Cursor.step stream) q events = some q' ∧ q'.next = q.next ∧
      stream.drop q'.pos = rest := by
  induction events generalizing q with
  | nil => exact ⟨q, rfl, rfl, here⟩
  | cons e later ih =>
    have ordinary := inside e (List.mem_cons_self ..)
    have inside' : ∀ e ∈ later, e.inside = true := fun e member =>
      inside e (List.mem_cons_of_mem _ member)
    have front : deliveredBytes (e :: later) = e.payloadBytes ++ deliveredBytes later := rfl
    rw [front, List.append_assoc] at here
    cases e
    case payload bs =>
      have given : Cursor.step stream q (.payload bs) = some { q with pos := q.pos + bs.length } := by
        simp only [Cursor.step]
        rw [if_pos ⟨_, here.symm⟩]
      have behind : stream.drop (q.pos + bs.length) = deliveredBytes later ++ rest := by
        rw [← List.drop_drop, here]
        exact List.drop_left
      obtain ⟨q', accepted, next, left⟩ :=
        @ih { q with pos := q.pos + bs.length } inside' behind
      exact ⟨q', by rw [Monitor.run_cons, given]; exact accepted, next, left⟩
    case request | finalized | reset => cases ordinary
    all_goals exact ih inside' here

inductive Framed (stream : Bytes) (c : Client) (k : Kernel) (q : Cursor) : Prop where
  /-- The bytes `v` of the next head are there. -/
  | reading {v : Bytes} (state : c.ta.state = .read) (idle : q.busy = false)
      (progress : Progress v c c.ta.reqParseBlk c.ta.reqParseIter)
      (rest : stream.drop q.pos = v ++ pendingBytes k.input)
  | serving (state : c.ta.state ≠ .read) (window : Window c)
      (rest : stream.drop q.pos = unread c k)
  /-- The head has been refused, and the connection is going to be closed. -/
  | refused (state : c.ta.state = .prepareResponse ∨ c.ta.state = .send ∨ c.ta.state = .sendFile)
      (error : c.ta.resp.status.isError = true)

def Kernel.Reads (stream : Bytes) (k : Kernel) : Prop :=
  ∃ q, Monitor.run (Cursor.step stream) {} k.trace = some q

structure InStream (stream : Bytes) (c : Client) (k : Kernel) : Prop where
  soft : SoftInput k.input
  cursor : ∃ q, Monitor.run (Cursor.step stream) {} k.trace = some q ∧ Framed stream c k q

theorem InStream.reads {c : Client} {k : Kernel} (h : InStream stream c k) : k.Reads stream := by
  obtain ⟨q, run, -⟩ := h.cursor
  exact ⟨q, run⟩

def Served.InStream (stream : Bytes) : Served → Prop
  | next c k => Kitserv.InStream stream c k
  | back o => (o.rc = 0 → Kitserv.InStream stream o.client o.kernel) ∧ o.kernel.Reads stream
  | abort => True

theorem Window.parsed {v mem : Bytes} {req : Request} {p : Nat} {c : Client}
    (room : v.length ≤ httpBufsz) (head : headEnd v = .finish mem req p)
    (size : c.reqHeaders.length = httpBufsz) (buffer : c.reqHeaders.take v.length = mem)
    (hreq : c.ta.req = req) (payload : c.ta.reqPayload = some p) (pos : c.ta.reqPayloadPos = 0)
    (len : c.ta.reqPayloadLen = v.length - p) :
    Window c ∧ c.leftover = v.drop p := by
  obtain ⟨length, nonempty, inside, same⟩ := headEnd_tail head
  have strings := headEnd_strings head
  have front : c.reqHeaders.take v.length = mem.take v.length := by
    rw [buffer, ← length, List.take_length]
  refine ⟨⟨size, by omega, by omega, ?_, fun s cookies => ?_⟩, ?_⟩
  · rw [payload, len]
    simp only [Option.getD_some]
    omega
  · rw [payload]
    rw [hreq] at cookies
    have member : s ∈ req.strings := by simp [Request.strings, cookies]
    exact (strings.ends s member).congr (take_congr_le front.symm inside)
  · have count : ((v.length : Int) - p - 0).toNat = v.length - p := by omega
    simp only [Client.leftover, payload, pos, len, Option.getD_some, count, Int.toNat_zero,
      Nat.add_zero, Nat.add_sub_cancel' inside, slice_congr front (Nat.le_refl v.length)]
    rw [slice, same, List.take_of_length_le (by simp)]

theorem run_reads {k : Kernel} (run : Monitor.run (Cursor.step stream) {} k.trace = some q)
    (reads : List ReadResult) : Monitor.run (Cursor.step stream) {}
      (k.trace ++ reads.map Event.socketRead) = some q := by
  rw [Monitor.run_append_of run]
  refine Monitor.run_silent fun e member => ?_
  obtain ⟨r, -, rfl⟩ := List.mem_map.mp member
  rfl

theorem Kernel.Reads.emit {k : Kernel} {e : Event} (h : k.Reads stream)
    (silent : ∀ q, Cursor.step stream q e = some q) : (k.emit e).Reads stream := by
  obtain ⟨q, run⟩ := h
  refine ⟨q, ?_⟩
  rw [Kernel.emit, Monitor.run_append_of run, Monitor.run_cons, silent]
  rfl

theorem Delivers.inStream {c c' : Client} {k k' : Kernel} (h : Delivers c k c' k')
    (soft : SoftInput k.input) (run : Monitor.run (Cursor.step stream) {} k.trace = some q)
    (rest : stream.drop q.pos = unread c k) (state : c'.ta.state ≠ .read) :
    InStream stream c' k' := by
  obtain ⟨events, trace, inside, bytes⟩ := h.events
  obtain ⟨q', moved, -, left⟩ := run_inside inside (rest.trans bytes)
  refine ⟨h.soft soft, q', ?_, .serving state h.window left⟩
  rw [trace, Monitor.run_append_of run, moved]

theorem Untouched.run {c c' : Client} {k k' : Kernel} (h : Untouched c k c' k')
    (run : Monitor.run (Cursor.step stream) {} k.trace = some q) :
    Monitor.run (Cursor.step stream) {} k'.trace = some q := by
  obtain ⟨events, trace, quiet⟩ := h.events
  rw [trace, Monitor.run_append_of run]
  refine Monitor.run_silent fun e member => ?_
  have silent := quiet e member
  cases e <;> first | rfl | cases silent

section Steps

variable {s : Server} {c : Client} {k : Kernel}

theorem read_inStream {v : Bytes} (soft : SoftInput k.input) (state : c.ta.state = .read)
    (idle : q.busy = false)
    (progress : Progress v c c.ta.reqParseBlk c.ta.reqParseIter)
    (run : Monitor.run (Cursor.step stream) {} k.trace = some q)
    (rest : stream.drop q.pos = v ++ pendingBytes k.input) : (serveStep s c k).InStream stream := by
  have step : serveStep s c k = afterStage .read (recvRequest c k) := by rw [serveStep, state]
  obtain ⟨taken, bytes, room, recvEnd⟩ := recvRequest_spec k progress
  obtain ⟨size, received⟩ := recvLoop_received c k c.ta.reqParseBlk c.ta.reqParseIter
  have soft' := received.soft soft
  rw [← recvRequest] at size soft'
  rw [bytes, ← List.append_assoc] at rest
  rw [step, afterStage]
  revert size soft' recvEnd rest
  generalize recvRequest c k = o
  intro rest recvEnd size soft'
  -- the events of a call that accepts no head
  have only (frame : RecvFrame c k o []) :
      Monitor.run (Cursor.step stream) {} o.kernel.trace = some q := by
    obtain ⟨reads, kernel⟩ := frame.kernel
    rw [kernel]
    simp only [List.append_nil]
    exact run_reads run reads
  have refuses (frame : RecvFrame c k o []) (error : o.client.ta.resp.status.isError = true) :
      Served.InStream stream (.next (o.client.setState .prepareResponse) o.kernel) :=
    ⟨soft', q, only frame, .refused (.inl rfl) error⟩
  cases recvEnd with
  | waits rc progress' undecided short iter consumed frame =>
    have reads : o.client.ta.state = .read := by rw [progress'.fresh]
    have here : InStream stream o.client o.kernel :=
      ⟨soft', q, only frame, .reading reads idle progress' rest⟩
    rw [if_neg (by simp [rc]), if_pos reads]
    exact ⟨fun _ => here, here.reads⟩
  | @accepts mem req p rc head buffer fill ta frame =>
    have serves : o.client.ta.state = .serve := by rw [ta]
    obtain ⟨window, left⟩ := Window.parsed room head (size.trans progress.size) buffer (by rw [ta])
      (by rw [ta]) (by rw [ta]) (by rw [ta])
    have front := streamVerdict_accepted (pendingBytes o.kernel.input) room head
    rw [← rest] at front
    have trace : Monitor.run (Cursor.step stream) {} o.kernel.trace = some
        { pos := q.pos + p
          busy := true
          next := q.pos + p + (HeadInfo.ofRequest mem req).contentLen } := by
      obtain ⟨reads, kernel⟩ := frame.kernel
      rw [kernel]
      simp only
      rw [Monitor.run_append_of (run_reads run reads), Monitor.run_cons, Cursor.step, front]
      simp [idle]
    have behind : stream.drop (q.pos + p) = unread o.client o.kernel := by
      rw [← List.drop_drop, rest, List.drop_append_of_le_length (headEnd_tail head).inside, unread,
        left]
    rw [if_neg (by simp [rc]), if_neg (by simp [serves])]
    exact ⟨soft', _, trace, .serving (by simp [serves]) window behind⟩
  | @rejects mem req status rc head ta frame =>
    have set : o.client.ta.resp.status = status := by rw [ta]
    rw [if_pos (by simp [rc]), set]
    rcases parse_status head with rfl | rfl | rfl
    · rw [if_neg (by simp)]
      exact refuses frame (by rw [set]; rfl)
    · rw [if_neg (by simp)]
      exact refuses frame (by rw [set]; rfl)
    · rw [if_neg (by simp)]
      exact refuses frame (by rw [set]; rfl)
  | full rc undecided whole ta frame =>
    have set : o.client.ta.resp.status = .http431RequestHeaderFieldsTooLarge := by rw [ta]
    rw [if_pos (by simp [rc]), set, if_neg (by simp)]
    exact refuses frame (by rw [set]; rfl)
  | hangup rc closed ta frame =>
    have set : o.client.ta.resp.status = .xHangup := by rw [ta]
    rw [if_pos (by simp [rc]), if_pos set]
    exact ⟨fun zero => absurd zero (by simp), q, only frame⟩

theorem serve_inStream (soft : SoftInput k.input) (state : c.ta.state = .serve) (window : Window c)
    (run : Monitor.run (Cursor.step stream) {} k.trace = some q)
    (rest : stream.drop q.pos = unread c k) : (serveStep s c k).InStream stream := by
  cases served : serveRequest s c k with
  | none =>
    have step : serveStep s c k = .abort := by simp only [serveStep, state, served]
    rw [step]
    trivial
  | some o =>
    have delivers := serveRequest_delivers served window soft
    rcases serveStep_serve state served with ⟨waits, step⟩ | ⟨prepares, step⟩
    · have here := delivers.inStream soft run rest (by simp [waits])
      rw [step]
      exact ⟨fun _ => here, here.reads⟩
    · rw [step]
      exact delivers.inStream soft run rest (by simp [prepares])

theorem output_inStream {c' : Client} {k' : Kernel} (soft : SoftInput k.input)
    (old : c.ta.state ≠ .read) (run : Monitor.run (Cursor.step stream) {} k.trace = some q)
    (framed : Framed stream c k q) (h : Untouched c k c' k') (error : KeepsError c c')
    (state : (c'.ta.state = .send ∨ c'.ta.state = .sendFile) ∨
      c'.ta.state = .done ∧ c.ta.resp.status.isError = false) : InStream stream c' k' := by
  refine ⟨by rw [h.input]; exact soft, q, h.run run, ?_⟩
  cases framed with
  | reading reads => exact absurd reads old
  | serving _ window rest =>
    have left : unread c' k' = unread c k := by rw [unread, unread, h.leftover, h.input]
    refine .serving ?_ (h.window window) (rest.trans left.symm)
    rcases state with (sends | sends) | ⟨done, -⟩ <;> simp [*]
  | refused _ refused =>
    rcases state with sends | ⟨-, fine⟩
    · exact .refused (.inr sends) (error refused)
    · rw [refused] at fine
      cases fine

theorem prepareResponse_inStream (soft : SoftInput k.input) (state : c.ta.state = .prepareResponse)
    (run : Monitor.run (Cursor.step stream) {} k.trace = some q) (framed : Framed stream c k q) :
    (serveStep s c k).InStream stream := by
  cases prepared : prepareResponse c k with
  | none =>
    have step : serveStep s c k = .abort := by simp only [serveStep, state, prepared]
    rw [step]
    trivial
  | some o =>
    have untouched := prepareResponse_untouched prepared
    rcases serveStep_prepareResponse (s := s) state prepared with ⟨rc, step⟩ | ⟨rc, step⟩
    · rw [step]
      exact ⟨fun zero => absurd zero (by simp), q, untouched.run run⟩
    · rw [step]
      have logged := untouched.trans (logTransaction_untouched s o.client o.kernel)
      refine output_inStream soft (by simp [state]) run framed logged
        (prepareResponse_keepsError prepared) (.inl (.inl ?_))
      obtain ⟨rc', c', k'⟩ := o
      cases rc
      obtain ⟨c₁, buf, n, ready⟩ := prepareResponse_ready prepared
      rw [ready]
      rfl

theorem send_inStream (soft : SoftInput k.input) (state : c.ta.state = .send)
    (run : Monitor.run (Cursor.step stream) {} k.trace = some q) (framed : Framed stream c k q) :
    (serveStep s c k).InStream stream := by
  have same : (sendResponse c k).client.ta.resp.status = c.ta.resp.status :=
    (sendLoop_status k.writes c k).2.1
  have sent (ends : (sendResponse c k).client.ta.state = .send ∨
      (sendResponse c k).client.ta.state = .sendFile) :
      InStream stream (sendResponse c k).client (sendResponse c k).kernel :=
    output_inStream soft (by simp [state]) run framed (sendLoop_untouched k.writes c k)
      (fun error => same ▸ error) (.inl ends)
  rcases serveStep_send s k state with ⟨waits, step⟩ | ⟨goes, step⟩
  · rw [step]
    exact ⟨fun _ => sent (.inl waits), (sent (.inl waits)).reads⟩
  · rw [step]
    exact sent (.inr goes)

theorem sendFile_inStream (soft : SoftInput k.input) (state : c.ta.state = .sendFile)
    (run : Monitor.run (Cursor.step stream) {} k.trace = some q) (framed : Framed stream c k q) :
    (serveStep s c k).InStream stream := by
  have untouched := sendResponseFile_untouched c k
  obtain ⟨status, -, ends⟩ := sendResponseFile_ends c k
  have sent (ends : ((sendResponseFile c k).client.ta.state = .send ∨
      (sendResponseFile c k).client.ta.state = .sendFile) ∨
      (sendResponseFile c k).client.ta.state = .done ∧ c.ta.resp.status.isError = false) :
      InStream stream (sendResponseFile c k).client (sendResponseFile c k).kernel :=
    output_inStream soft (by simp [state]) run framed untouched (fun error => status ▸ error) ends
  rcases serveStep_sendFile s k state with ⟨rc, step⟩ | ⟨rc, waits, step⟩ | ⟨rc, done, step⟩
  · rw [step]
    exact ⟨fun zero => absurd zero (by simp), q, untouched.run run⟩
  · rw [step]
    have here := sent (.inl (.inr waits))
    exact ⟨fun _ => here, here.reads⟩
  · rw [step]
    refine sent (.inr ⟨done, ?_⟩)
    rcases ends with stays | ⟨-, kept⟩
    · rw [done, state] at stays
      cases stays
    · exact (kept rc).1

theorem done_inStream (soft : SoftInput k.input) (state : c.ta.state = .done)
    (run : Monitor.run (Cursor.step stream) {} k.trace = some q) (framed : Framed stream c k q) :
    (serveStep s c k).InStream stream := by
  cases framed with
  | reading reads =>
    rw [state] at reads
    cases reads
  | refused early =>
    rw [state] at early
    simp at early
  | serving _ window rest =>
    obtain ⟨c', k', finalized, idle, left, input, trace⟩ := finalizeTransaction_idle window (k := k)
    have step : serveStep s c k = .next c' k' := by simp only [serveStep, state, finalized]
    rw [step]
    refine ⟨by rw [input]; exact soft, { q with busy := false }, ?_,
      .reading (by rw [idle.fresh]) rfl idle.progress ?_⟩
    · rw [trace, Monitor.run_append_of run]
      rfl
    · rw [rest, unread, left, input]

theorem serveStep_inStream (h : InStream stream c k) : (serveStep s c k).InStream stream := by
  obtain ⟨soft, q, run, framed⟩ := h
  cases state : c.ta.state with
  | read =>
    cases framed with
    | reading _ idle progress rest => exact read_inStream soft state idle progress run rest
    | serving other => exact absurd state other
    | refused other => simp [state] at other
  | serve =>
    cases framed with
    | reading reads =>
      rw [state] at reads
      cases reads
    | serving _ window rest => exact serve_inStream soft state window run rest
    | refused other => simp [state] at other
  | prepareResponse => exact prepareResponse_inStream soft state run framed
  | send => exact send_inStream soft state run framed
  | sendFile => exact sendFile_inStream soft state run framed
  | done => exact done_inStream soft state run framed

end Steps

def Conn.InStream (stream : Bytes) : Conn → Prop
  | serving c k | waiting c k => Kitserv.InStream stream c k
  | closed _ k => k.Reads stream
  | aborted => True

theorem step_inStream {s : Server} {conn : Conn} (h : conn.InStream stream) :
    (conn.step s).InStream stream := by
  cases conn with
  | serving c k =>
    have next := serveStep_inStream (s := s) h
    simp only [Conn.step]
    revert next
    cases serveStep s c k with
    | next c' k' => exact id
    | back o =>
      rintro ⟨zero, reads⟩
      simp only
      split
      · rename_i rc
        exact zero rc
      · exact reads.emit fun _ => rfl
    | abort => exact fun _ => trivial
  | waiting c k => exact h
  | closed c k => exact h
  | aborted => trivial

theorem run_inStream {s : Server} {conn : Conn} (n : Nat) (h : conn.InStream stream) :
    (Conn.run s n conn).InStream stream := by
  have keep (conn : Conn) (inv : conn.InStream stream) (_ : True) : (conn.step s).InStream stream :=
    step_inStream inv
  exact Steps.inv_of_step keep h fun _ _ => trivial

theorem Idle.inStream {c : Client} {k : Kernel} (idle : Idle c) (soft : SoftInput k.input)
    (start : k.trace = [])
    (whole : stream = c.reqHeaders.take c.reqHeadersLen ++ pendingBytes k.input) :
    InStream stream c k :=
  ⟨soft, {}, by rw [start]; rfl, .reading (by rw [idle.fresh]) rfl idle.progress whole⟩

/-- `Cursor.step`, and a head has to start where the content-length of the request before it says. -/
def Cursor.stepByLength (stream : Bytes) (q : Cursor) (e : Event) : Option Cursor :=
  match e with
  | .request _ => if (q.pos : Int) = q.next then Cursor.step stream q e else none
  | _ => Cursor.step stream q e

/-- Every head starts behind the whole payload of the request before it. -/
def HeadsByLength (stream : Bytes) (trace : List Event) : Prop :=
  (Monitor.run (Cursor.stepByLength stream) {} trace).isSome = true

def owedStep (owed : Int) : Event → Option Int
  | .request info => if owed = 0 then some info.contentLen else none
  | .payload bs => some (owed - bs.length)
  | _ => some owed

/-- Every request that another one follows had its payload read to its end. -/
def PayloadsRead (trace : List Event) : Prop := (Monitor.run owedStep 0 trace).isSome = true

def headCount (events : List Event) : Nat :=
  events.countP fun
    | .request _ => true
    | _ => false

theorem owed_iff {q' : Cursor} {events : List Event} {owed : Int} (missing : owed = q.next - q.pos)
    (run : Monitor.run (Cursor.step stream) q events = some q') :
    (Monitor.run (Cursor.stepByLength stream) q events).isSome = true ↔
      (Monitor.run owedStep owed events).isSome = true := by
  induction events generalizing q owed with
  | nil => simp
  | cons e rest ih =>
    obtain ⟨q₁, first, later⟩ := Option.bind_eq_some_iff.mp run
    cases e
    case request info =>
      simp only [Monitor.run_cons, Cursor.stepByLength, owedStep, first]
      by_cases aligned : (q.pos : Int) = q.next
      · have settled : owed = 0 := by omega
        simp only [if_pos aligned, if_pos settled, Option.bind_some]
        refine ih ?_ later
        simp only [Cursor.step] at first
        split at first
        · split at first
          · cases first
            simp only [Int.natCast_add]
            omega
          · cases first
        · cases first
      · have open_ : owed ≠ 0 := by omega
        simp [if_neg aligned, if_neg open_]
    case payload bs =>
      simp only [Monitor.run_cons, Cursor.stepByLength, owedStep, first, Option.bind_some]
      refine ih ?_ later
      simp only [Cursor.step] at first
      split at first
      · cases first
        simp only [missing]
        omega
      · cases first
    all_goals
      cases first
      exact ih missing later

theorem reads_of_reached {s : Server} {c : Client} {k k' : Kernel} {n : Nat} (idle : Idle c)
    (soft : SoftInput k.input) (start : k.trace = [])
    (reached : (Conn.run s n (.serving c k)).kernel? = some k') :
    k'.Reads (c.reqHeaders.take c.reqHeadersLen ++ pendingBytes k.input) := by
  have here : (Conn.run s n (.serving c k)).InStream
      (c.reqHeaders.take c.reqHeadersLen ++ pendingBytes k.input) :=
    run_inStream n (idle.inStream soft start rfl)
  revert reached here
  cases Conn.run s n (.serving c k) with
  | serving c' k' | waiting c' k' =>
    rintro ⟨⟩ here
    exact here.reads
  | closed c' k' =>
    rintro ⟨⟩ here
    exact here
  | aborted => rintro ⟨⟩

/-- Payload is never taken for a head exactly when every handler reads the payload of its request
to the end. -/
theorem heads_by_length_iff {s : Server} {c : Client} {k k' : Kernel} {n : Nat} (idle : Idle c)
    (soft : SoftInput k.input) (start : k.trace = [])
    (reached : (Conn.run s n (.serving c k)).kernel? = some k') :
    HeadsByLength (c.reqHeaders.take c.reqHeadersLen ++ pendingBytes k.input) k'.trace ↔
      PayloadsRead k'.trace := by
  obtain ⟨q, run⟩ := reads_of_reached idle soft start reached
  exact owed_iff rfl run

/-- A new client has nothing left over. -/
theorem createClientStruct_front (blocks : Blocks) : (createClientStruct blocks).reqHeaders.take
    (createClientStruct blocks).reqHeadersLen = [] := List.take_zero

def readingTwo : Server :=
  { rootServer with apiTree := some (.node [] 0 []
      [{ pathPrefix := [], prefixLength := 0, method := 1, finishesPath := true
         handler := fun _ => .call (.readPayload 1) fun _ => .call (.readPayload 1) fun _ =>
           .call (.setResponseStatus 204) fun _ => .ret }]) }

def cutTwice : Kernel where
  input := [.chunk 71 (ascii "ET / HTTP/1.1\r\ncontent-length: 2\r\n\r\nh"),
    .chunk 105 (ascii "GET / HT"), .wouldBlock,
    .chunk 84 (ascii "P/1.1\r\ncontent-length: 2\r\n\r\nhi")]
  writes := [.bytes 1000]
  fs _ := .empty

theorem heads_by_length_iff_cutTwice : ∃ k',
    (Conn.run readingTwo 10 (.serving (createClientStruct Blocks.zeroed) cutTwice)).kernel? = some k' ∧
      headCount k'.trace = 2 ∧ PayloadsRead k'.trace ∧
      HeadsByLength (pendingBytes cutTwice.input) k'.trace := by
  have goes : (Conn.run readingTwo 10 (.serving (createClientStruct Blocks.zeroed)
      cutTwice)).kernel?.map (fun k => (headCount k.trace, (Monitor.run owedStep 0 k.trace).isSome)) =
        some (2, true) := by decide +kernel
  obtain ⟨k', reached, shown⟩ := Option.map_eq_some_iff.mp goes
  obtain ⟨heads, read⟩ := Prod.mk.inj shown
  have law := heads_by_length_iff (createClientStruct_idle Blocks.zeroed)
    (by simp [SoftInput, cutTwice]) rfl reached
  rw [createClientStruct_front, List.nil_append] at law
  exact ⟨k', reached, heads, read, law.mpr read⟩

def ignoring : Server :=
  { rootServer with apiTree := some (.node [] 0 []
      [{ pathPrefix := [], prefixLength := 0, method := 1, finishesPath := true
         handler := fun _ => .call (.setResponseStatus 204) fun _ => .ret }]) }

def smuggling : Kernel where
  input := [.chunk 71 (ascii "ET / HTTP/1.1\r\ncontent-length: 18\r\n\r\nGET / HTTP/1.1\r\n\r\n")]
  writes := [.bytes 1000]
  fs _ := .empty

/-- The second head that is parsed is the payload of the first request. -/
theorem payload_taken_for_head : ∃ k',
    (Conn.run ignoring 7 (.serving (createClientStruct Blocks.zeroed) smuggling)).kernel? = some k' ∧
      ¬ HeadsByLength (pendingBytes smuggling.input) k'.trace := by
  have owed : (Conn.run ignoring 7 (.serving (createClientStruct Blocks.zeroed)
      smuggling)).kernel?.map (fun k => (Monitor.run owedStep 0 k.trace).isSome) = some false := by
    decide +kernel
  obtain ⟨k', reached, refused⟩ := Option.map_eq_some_iff.mp owed
  have reads := reads_of_reached (createClientStruct_idle Blocks.zeroed)
    (by simp [SoftInput, smuggling]) rfl reached
  rw [createClientStruct_front, List.nil_append] at reads
  obtain ⟨q, run⟩ := reads
  refine ⟨k', reached, fun heads => ?_⟩
  have read : (Monitor.run owedStep 0 k'.trace).isSome = true := (owed_iff rfl run).mp heads
  rw [refused] at read
  cases read

end Kitserv
