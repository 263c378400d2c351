import Kitserv.Pipelining

/-! A client that ends its stream: every request in front of the end has its response prepared before
the connection is hung up, unless the end of file is met with bytes that nobody has parsed. -/
namespace Kitserv

open Memory

theorem headCount_append (before after : List Event) :
    headCount (before ++ after) = headCount before + headCount after := List.countP_append

theorem headCount_inside {events : List Event} (inside : ∀ e ∈ events, e.inside = true) :
    headCount events = 0 := by
  refine List.countP_eq_zero.mpr fun e member => ?_
  have ordinary := inside e member
  cases e with
  | request => cases ordinary
  | _ => simp

theorem headCount_reads (reads : List ReadResult) :
    headCount (reads.map Event.socketRead) = 0 := by
  refine headCount_inside fun e member => ?_
  obtain ⟨r, -, rfl⟩ := List.mem_map.mp member
  rfl

theorem headCount_exchange {x x' : Exchange} {events : List Event}
    (run : Monitor.run Exchange.step x events = some x') :
    headCount events + x'.later.length = x.later.length := by
  induction events generalizing x with
  | nil =>
    cases run
    exact Nat.zero_add _
  | cons e events ih =>
    obtain ⟨x₁, first, run⟩ := Option.bind_eq_some_iff.mp run
    have rest := ih run
    cases e
    case request info =>
      have counted : headCount (.request info :: events) = headCount events + 1 :=
        List.countP_cons_of_pos rfl
      obtain ⟨payload, later⟩ := x
      simp only [Exchange.step] at first
      split at first
      · split at first
        · cases first
          simp only [List.length_cons] at rest ⊢
          omega
        · cases first
      · cases first
    case payload bs =>
      have counted : headCount (.payload bs :: events) = headCount events :=
        List.countP_cons_of_neg (by simp)
      simp only [Exchange.step] at first
      split at first
      · cases first
        rw [counted]
        exact rest
      · cases first
    all_goals
      cases first
      exact rest

/-- A head that has been parsed and the response to which has not been prepared. -/
def Client.unprepared (c : Client) : Nat :=
  if c.ta.state = .serve ∨ c.ta.state = .prepareResponse then 1 else 0

def Prepared (c : Client) (k : Kernel) (c' : Client) (k' : Kernel) : Prop :=
  ∀ i, i + c'.unprepared < headCount k'.trace → i + c.unprepared < headCount k.trace

def Served.Prepares (c : Client) (k : Kernel) : Served → Prop
  | next c' k' => Prepared c k c' k' ∨ c'.ta.state = .send ∧
      ∀ i, i < headCount k'.trace → i + c.unprepared < headCount k.trace ∨ headCount k'.trace = i + 1
  | back o => o.rc = 0 → Prepared c k o.client o.kernel
  | abort => True

section Step

variable {stream : Bytes} {s : Server} {c c' : Client} {k k' : Kernel}

theorem Prepared.of_count (same : headCount k'.trace = headCount k.trace)
    (less : c.unprepared ≤ c'.unprepared) : Prepared c k c' k' := by
  intro i below
  rw [same] at below
  exact Nat.lt_of_le_of_lt (Nat.add_le_add_left less i) below

theorem Delivers.headCount (h : Delivers c k c' k') : headCount k'.trace = headCount k.trace := by
  obtain ⟨events, trace, inside, -⟩ := h.events
  rw [trace, headCount_append, headCount_inside inside, Nat.add_zero]

theorem Untouched.headCount (h : Untouched c k c' k') : headCount k'.trace = headCount k.trace := by
  obtain ⟨events, trace, quiet⟩ := h.events
  rw [trace, headCount_append, headCount_inside fun e member => Event.inside_of_quiet (quiet e member),
    Nat.add_zero]

theorem unprepared_of_state (h : c.ta.state ≠ .serve) (h' : c.ta.state ≠ .prepareResponse) :
    c.unprepared = 0 := if_neg (by simp [h, h'])

theorem unprepared_le : c.unprepared ≤ 1 := by
  unfold Client.unprepared
  split <;> simp

theorem read_prepares {v : Bytes} (state : c.ta.state = .read)
    (progress : Progress v c c.ta.reqParseBlk c.ta.reqParseIter) :
    (serveStep s c k).Prepares c k := by
  have none : c.unprepared = 0 := unprepared_of_state (by simp [state]) (by simp [state])
  have step : serveStep s c k = afterStage .read (recvRequest c k) := by rw [serveStep, state]
  obtain ⟨taken, -, -, recvEnd⟩ := recvRequest_spec k progress
  rw [step, afterStage]
  revert recvEnd
  generalize recvRequest c k = o
  intro recvEnd
  have only (frame : RecvFrame c k o []) : headCount o.kernel.trace = headCount k.trace := by
    obtain ⟨reads, kernel⟩ := frame.kernel
    rw [kernel]
    simp only [List.append_nil, headCount_append, headCount_reads, Nat.add_zero]
  have refuses (frame : RecvFrame c k o []) :
      Served.Prepares c k (.next (o.client.setState .prepareResponse) o.kernel) :=
    .inl (.of_count (only frame) (by rw [none]; exact Nat.zero_le _))
  have settles (status : o.client.ta.resp.status ≠ .xHangup) (rc : o.rc = -1)
      (frame : RecvFrame c k o []) : Served.Prepares c k (if o.rc ≠ 0 then
        if o.client.ta.resp.status = .xHangup then .back { o with rc := -1 }
        else .next (o.client.setState .prepareResponse) o.kernel
        else if o.client.ta.state = .read then .back { o with rc := 0 }
        else .next o.client o.kernel) := by
    rw [if_pos (by simp [rc]), if_neg status]
    exact refuses frame
  cases recvEnd with
  | waits rc progress' undecided short iter consumed frame =>
    have reads : o.client.ta.state = .read := by rw [progress'.fresh]
    rw [if_neg (by simp [rc]), if_pos reads]
    exact fun _ => Prepared.of_count (only frame) (by rw [none]; exact Nat.zero_le _)
  | @accepts mem req p rc head buffer fill ta frame =>
    have serves : o.client.ta.state = .serve := by rw [ta]
    rw [if_neg (by simp [rc]), if_neg (by simp [serves])]
    refine .inl fun i below => ?_
    obtain ⟨reads, kernel⟩ := frame.kernel
    have one : o.client.unprepared = 1 := if_pos (.inl serves)
    have counted : headCount [Event.request (HeadInfo.ofRequest mem req)] = 1 := rfl
    rw [kernel, one] at below
    simp only [headCount_append, headCount_reads, counted] at below
    rw [none]
    omega
  | @rejects mem req status rc head ta frame =>
    have set : o.client.ta.resp.status = status := by rw [ta]
    refine settles ?_ rc frame
    rw [set]
    rcases parse_status head with rfl | rfl | rfl <;> simp
  | full rc undecided whole ta frame =>
    refine settles ?_ rc frame
    rw [ta]
    simp
  | hangup rc closed ta frame =>
    have set : o.client.ta.resp.status = .xHangup := by rw [ta]
    rw [if_pos (by simp [rc]), if_pos set]
    exact fun zero => absurd zero (by simp)

theorem serveStep_prepares (inStream : InStream stream c k) : (serveStep s c k).Prepares c k := by
  obtain ⟨soft, q, run, framed⟩ := inStream
  cases state : c.ta.state with
  | read =>
    cases framed with
    | reading _ _ progress => exact read_prepares state progress
    | serving other => exact absurd state other
    | refused other => simp [state] at other
  | serve =>
    cases framed with
    | reading reads =>
      rw [state] at reads
      cases reads
    | refused other => simp [state] at other
    | serving _ window rest =>
      cases served : serveRequest s c k with
      | none =>
        have step : serveStep s c k = .abort := by simp only [serveStep, state, served]
        rw [step]
        trivial
      | some o =>
        have same := (serveRequest_delivers served window soft).headCount
        rcases serveStep_serve state served with ⟨waits, step⟩ | ⟨prepares, step⟩
        · have one : o.client.unprepared = 1 := if_pos (.inl waits)
          rw [step]
          exact fun _ => Prepared.of_count same (by rw [one]; exact unprepared_le)
        · have one : o.client.unprepared = 1 := if_pos (.inr prepares)
          rw [step]
          exact .inl (.of_count same (by rw [one]; exact unprepared_le))
  | prepareResponse =>
    cases prepared : prepareResponse c k with
    | none =>
      have step : serveStep s c k = .abort := by simp only [serveStep, state, prepared]
      rw [step]
      trivial
    | some o =>
      have untouched := prepareResponse_untouched prepared
      rcases serveStep_prepareResponse (s := s) state prepared with ⟨rc, step⟩ | ⟨rc, step⟩
      · rw [step]
        exact fun zero => absurd zero (by simp)
      · have same := (untouched.trans (logTransaction_untouched s o.client o.kernel)).headCount
        have one : c.unprepared = 1 := if_pos (.inr state)
        obtain ⟨rc', c', k'⟩ := o
        cases rc
        obtain ⟨c₁, buf, n, ready⟩ := prepareResponse_ready prepared
        have sends : c'.ta.state = .send := by rw [ready]; rfl
        rw [step]
        refine .inr ⟨sends, fun i below => ?_⟩
        rw [same] at below
        rw [one, same]
        rcases Nat.lt_or_ge (i + 1) (headCount k.trace) with less | last
        · exact .inl less
        · exact .inr (Nat.le_antisymm last below)
  | send =>
    have none : c.unprepared = 0 := unprepared_of_state (by simp [state]) (by simp [state])
    have sent : Prepared c k (sendResponse c k).client (sendResponse c k).kernel :=
      Prepared.of_count (sendLoop_untouched k.writes c k).headCount (by rw [none]; exact Nat.zero_le _)
    rcases serveStep_send s k state with ⟨-, step⟩ | ⟨-, step⟩
    · rw [step]
      exact fun _ => sent
    · rw [step]
      exact .inl sent
  | sendFile =>
    have none : c.unprepared = 0 := unprepared_of_state (by simp [state]) (by simp [state])
    have sent : Prepared c k (sendResponseFile c k).client (sendResponseFile c k).kernel :=
      Prepared.of_count (sendResponseFile_untouched c k).headCount (by rw [none]; exact Nat.zero_le _)
    rcases serveStep_sendFile s k state with ⟨-, step⟩ | ⟨-, -, step⟩ | ⟨-, -, step⟩
    · rw [step]
      exact fun zero => absurd zero (by simp)
    · rw [step]
      exact fun _ => sent
    · rw [step]
      exact .inl sent
  | done =>
    have none : c.unprepared = 0 := unprepared_of_state (by simp [state]) (by simp [state])
    cases framed with
    | reading reads =>
      rw [state] at reads
      cases reads
    | refused early => simp [state] at early
    | serving _ window rest =>
      obtain ⟨c', k', finalized, -, -, -, trace⟩ := finalizeTransaction_idle window (k := k)
      have step : serveStep s c k = .next c' k' := by simp only [serveStep, state, finalized]
      have same : headCount k'.trace = headCount k.trace := by
        rw [trace, headCount_append]
        rfl
      rw [step]
      exact .inl (.of_count same (by rw [none]; exact Nat.zero_le _))

end Step

section Run

variable {stream : Bytes} {s : Server} {c c' : Client} {k k' : Kernel} {n : Nat}

/-- The `m`-th step finds the connection in SEND, with so many heads parsed. -/
def Sends (s : Server) (conn : Conn) (m count : Nat) : Prop :=
  ∃ c k, Conn.run s m conn = .serving c k ∧ c.ta.state = .send ∧ headCount k.trace = count

theorem run_succ (s : Server) (n : Nat) (conn : Conn) :
    Conn.run s (n + 1) conn = (Conn.run s n conn).step s := Function.iterate_succ_apply' ..

theorem run_sends (inStream : InStream stream c k) (start : k.trace = [])
    (here : Conn.run s n (.serving c k) = .serving c' k' ∨
      Conn.run s n (.serving c k) = .waiting c' k') :
    ∀ i, i + c'.unprepared < headCount k'.trace → ∃ m ≤ n, Sends s (.serving c k) m (i + 1) := by
  induction n generalizing c' k' with
  | zero =>
    intro i below
    rcases here with here | here
    · cases here
      rw [start] at below
      cases below
    · cases here
  | succ n ih =>
    intro i below
    have next : (Conn.run s n (.serving c k)).InStream stream := run_inStream n inStream
    have later (c₁ : Client) (k₁ : Kernel) (before : Conn.run s n (.serving c k) = .serving c₁ k₁ ∨
        Conn.run s n (.serving c k) = .waiting c₁ k₁) (less : i + c₁.unprepared < headCount k₁.trace) :
        ∃ m ≤ n + 1, Sends s (.serving c k) m (i + 1) := by
      obtain ⟨m, below, sends⟩ := ih before i less
      exact ⟨m, Nat.le_succ_of_le below, sends⟩
    rw [run_succ] at here
    cases before : Conn.run s n (.serving c k) with
    | serving c₁ k₁ =>
      rw [before] at here next
      have prepares := serveStep_prepares (s := s) next
      simp only [Conn.step] at here
      cases step : serveStep s c₁ k₁ with
      | next c₂ k₂ =>
        rw [step] at here prepares
        rcases here with here | here
        · cases here
          rcases prepares with kept | ⟨sends, last⟩
          · exact later c₁ k₁ (.inl before) (kept i below)
          · rcases last i (Nat.lt_of_le_of_lt (Nat.le_add_right ..) below) with less | count
            · exact later c₁ k₁ (.inl before) less
            · refine ⟨n + 1, Nat.le_refl _, c', k', ?_, sends, count⟩
              rw [run_succ, before, Conn.step, step]
        · cases here
      | back o =>
        rw [step] at here prepares
        simp only at here
        split at here
        · rename_i rc
          rcases here with here | here
          · cases here
          · cases here
            exact later c₁ k₁ (.inl before) (prepares rc i below)
        · rcases here with here | here <;> cases here
      | abort =>
        rw [step] at here
        rcases here with here | here <;> cases here
    | waiting c₁ k₁ =>
      rw [before] at here
      rcases here with here | here
      · cases here
        exact later _ _ (.inr before) below
      · cases here
    | closed c₁ k₁ =>
      rw [before] at here
      rcases here with here | here <;> cases here
    | aborted =>
      rw [before] at here
      rcases here with here | here <;> cases here

end Run

section Input

variable {stream : Bytes} {s : Server} {c c' : Client} {k k' : Kernel} {n : Nat}

def EndsOnce (input : List Arrival) : Prop := ∃ open_, input = open_ ++ [.eof] ∧ OpenInput open_

theorem EndsOnce.soft {input : List Arrival} (h : EndsOnce input) : SoftInput input := by
  obtain ⟨open_, rfl, isOpen⟩ := h
  intro a member code
  rcases List.mem_append.mp member with member | member
  · exact (isOpen a member).2 code
  · simp [List.mem_singleton.mp member]

theorem EndsOnce.receive {count : Nat} {input rest : List Arrival} {res : ReadResult}
    (first : Kernel.receive count input = (res, rest)) (h : EndsOnce input) : EndsOnce rest := by
  obtain ⟨open_, rfl, isOpen⟩ := h
  cases open_ with
  | nil =>
    cases first
    exact ⟨[], rfl, by simp [OpenInput]⟩
  | cons a later =>
    have tail : OpenInput later := fun x member => isOpen x (List.mem_cons_of_mem _ member)
    cases a with
    | wouldBlock =>
      cases first
      exact ⟨later, rfl, tail⟩
    | eof => exact absurd rfl (isOpen .eof (List.mem_cons_self ..)).1
    | failed code => exact absurd rfl ((isOpen (.failed code) (List.mem_cons_self ..)).2 code)
    | chunk b bs =>
      simp only [List.cons_append, Kernel.receive] at first
      split at first
      · cases first
        exact ⟨later, rfl, tail⟩
      · rename_i b' bs' left
        cases first
        refine ⟨.chunk b' bs' :: later, rfl, fun x member => ?_⟩
        rcases List.mem_cons.mp member with rfl | member
        · simp
        · exact tail x member

theorem EndsOnce.empty {input : List Arrival} (h : EndsOnce input)
    (eof : input.head? = some .eof) : pendingBytes input = [] := by
  obtain ⟨open_, rfl, isOpen⟩ := h
  cases open_ with
  | nil => rfl
  | cons a later =>
    cases eof
    exact absurd rfl (isOpen .eof (List.mem_cons_self ..)).1

def Served.Receives (input : List Arrival) : Served → Prop
  | next _ k => Received input k.input
  | back o => Received input o.kernel.input
  | abort => True

theorem afterStage_receives {state : TransactionState} {input : List Arrival} {o : Outcome}
    (h : Received input o.kernel.input) : (afterStage state o).Receives input := by
  unfold afterStage
  split
  · split
    · exact h
    · exact h
  · split
    · exact h
    · exact h

theorem afterOutput_receives {state : TransactionState} {input : List Arrival} {o : Outcome}
    (h : Received input o.kernel.input) : (afterOutput state o).Receives input := by
  unfold afterOutput
  split
  · exact h
  · split
    · exact h
    · exact h

theorem Untouched.received (h : Untouched c k c' k') : Received k.input k'.input := by
  rw [h.input]
  exact .refl k.input

theorem serveStep_receives (inStream : InStream stream c k) :
    (serveStep s c k).Receives k.input := by
  obtain ⟨soft, q, run, framed⟩ := inStream
  cases state : c.ta.state with
  | read =>
    have step : serveStep s c k = afterStage .read (recvRequest c k) := by rw [serveStep, state]
    rw [step]
    exact afterStage_receives (recvLoop_received c k c.ta.reqParseBlk c.ta.reqParseIter).2
  | serve =>
    cases framed with
    | reading reads =>
      rw [state] at reads
      cases reads
    | refused other => simp [state] at other
    | serving _ window rest =>
      cases served : serveRequest s c k with
      | none =>
        have step : serveStep s c k = .abort := by simp only [serveStep, state, served]
        rw [step]
        trivial
      | some o =>
        have step : serveStep s c k = afterStage .serve o := by simp only [serveStep, state, served]
        rw [step]
        exact afterStage_receives (serveRequest_delivers served window soft).received
  | prepareResponse =>
    cases prepared : prepareResponse c k with
    | none =>
      have step : serveStep s c k = .abort := by simp only [serveStep, state, prepared]
      rw [step]
      trivial
    | some o =>
      have untouched := prepareResponse_untouched prepared
      rcases serveStep_prepareResponse (s := s) state prepared with ⟨-, step⟩ | ⟨-, step⟩
      · rw [step]
        exact untouched.received
      · rw [step]
        exact (untouched.trans (logTransaction_untouched s o.client o.kernel)).received
  | send =>
    have step : serveStep s c k = afterOutput .send (sendResponse c k) := by rw [serveStep, state]
    rw [step]
    exact afterOutput_receives (sendLoop_untouched k.writes c k).received
  | sendFile =>
    have step : serveStep s c k = afterOutput .sendFile (sendResponseFile c k) := by
      rw [serveStep, state]
    rw [step]
    exact afterOutput_receives (sendResponseFile_untouched c k).received
  | done =>
    cases framed with
    | reading reads =>
      rw [state] at reads
      cases reads
    | refused early => simp [state] at early
    | serving _ window rest =>
      obtain ⟨c', k', finalized, -, -, input, -⟩ := finalizeTransaction_idle window (k := k)
      have step : serveStep s c k = .next c' k' := by simp only [serveStep, state, finalized]
      rw [step, Served.Receives, input]
      exact .refl k.input

def Conn.Ending (stream : Bytes) : Conn → Prop
  | serving c k | waiting c k => Kitserv.InStream stream c k ∧ EndsOnce k.input
  | _ => True

theorem run_ending (n : Nat) {conn : Conn} (h : conn.Ending stream) :
    (Conn.run s n conn).Ending stream := by
  have keep (conn : Conn) (inv : conn.Ending stream) (_ : True) : (conn.step s).Ending stream := by
    cases conn with
    | serving c k =>
      obtain ⟨inStream, ends⟩ := inv
      have next := serveStep_inStream (s := s) inStream
      have receives := serveStep_receives (s := s) inStream
      simp only [Conn.step]
      revert next receives
      cases serveStep s c k with
      | next c' k' => exact fun next receives => ⟨next, receives.keeps EndsOnce.receive ends⟩
      | back o =>
        intro next receives
        simp only
        split
        · rename_i rc
          exact ⟨next.1 rc, receives.keeps EndsOnce.receive ends⟩
        · trivial
      | abort => exact fun _ _ => trivial
    | waiting c k => exact inv
    | closed c k => trivial
    | aborted => trivial
  exact Steps.inv_of_step keep h fun _ _ => trivial

end Input

/-- No stage READ starts with bytes in the buffer that nobody has parsed, room behind them, and the
end of file in front of the socket. -/
def Conn.Unsurprised : Conn → Prop
  | serving c k => c.ta.state = .read → parsePastEnd c c.ta.reqParseIter = false →
      0 < c.reqHeadersLen → c.reqHeadersLen < httpBufsz → k.input.head? ≠ some .eof
  | _ => True

/-- When the stream of a client has been hung up, all of its requests have been parsed and have come
to SEND. -/
theorem hangup_behind_last {s : Server} {c c' : Client} {k k' : Kernel} {n : Nat}
    {requests : List WireRequest} (idle : Idle c) (ends : EndsOnce k.input) (start : k.trace = [])
    (whole : c.reqHeaders.take c.reqHeadersLen ++ pendingBytes k.input = wire requests)
    (meets : Steps.Meets (Conn.step s) Conn.Unsurprised (n + 1) (.serving c k))
    (serving : Conn.run s n (.serving c k) = .serving c' k') (state : c'.ta.state = .read)
    (hangup : (recvRequest c' k').client.ta.resp.status = .xHangup)
    (reads : ReadsExactly k'.trace) :
    Monitor.run Exchange.step { later := requests } k'.trace = some { later := [] } ∧
      ∀ i < requests.length, ∃ m ≤ n, Sends s (.serving c k) m (i + 1) := by
  have begins := idle.inStream ends.soft start whole.symm
  obtain ⟨owed, read⟩ := Option.isSome_iff_exists.mp reads
  have here : (Conn.run s n (.serving c k)).Ending (wire requests) := run_ending n ⟨begins, ends⟩
  rw [serving] at here
  obtain ⟨⟨soft, q, run, framed⟩, ends'⟩ := here
  have first : Holds (wire requests) {} { later := requests } 0 := ⟨rfl, rfl, fun _ => rfl⟩
  obtain ⟨x, exchanged, holds⟩ := first.run run read
  cases framed with
  | serving other => exact absurd state other
  | refused other => simp [state] at other
  | @reading v _ idle' progress rest =>
    have none : x.payload = [] := by
      have owes := holds.owes
      rw [holds.idle idle'] at owes
      exact List.eq_nil_of_length_eq_zero owes.symm
    have ready : Undecided v ∨ v.length = httpBufsz ∨ k'.input.head? ≠ some .eof := by
      have good := meets n (Nat.lt_succ_self n)
      rw [← Conn.run, serving] at good
      have unsurprised := good state
      rcases Nat.eq_zero_or_pos v.length with empty | some
      · rw [List.eq_nil_of_length_eq_zero empty]
        exact .inl undecided_nil
      · rcases Nat.lt_or_ge v.length httpBufsz with room | full
        · cases past : parsePastEnd c' c'.ta.reqParseIter with
          | false =>
            rw [progress.fill] at unsurprised
            exact .inr (.inr (unsurprised past some room))
          | true =>
            rcases progress.cursor with none | ⟨-, undecided⟩
            · rw [none] at past
              cases past
            · exact .inl undecided
        · exact .inr (.inl (Nat.le_antisymm progress.room full))
    obtain ⟨eof, later⟩ := recvLoop_hangup progress soft hangup
    obtain ⟨taken, bytes, undecided⟩ := later ready
    have last : x.later = [] := by
      have received := (recvLoop_received c' k' c'.ta.reqParseBlk c'.ta.reqParseIter).2
      have empty := (received.keeps EndsOnce.receive ends').empty eof
      have here := rest.symm.trans holds.rest
      rw [none, List.nil_append, bytes, empty, ← List.append_assoc] at here
      exact wire_undecided here undecided (.inr rfl)
    obtain ⟨payload, later⟩ := x
    cases none
    cases last
    have count := headCount_exchange exchanged
    have sends := run_sends (s := s) begins start (.inl serving)
    have idle : c'.unprepared = 0 := unprepared_of_state (by simp [state]) (by simp [state])
    refine ⟨exchanged, fun i below => sends i ?_⟩
    simp only [List.length_nil] at count
    omega

instance : DecidablePred Conn.Unsurprised := fun conn =>
  match conn with
  | .serving c k => inferInstanceAs (Decidable (c.ta.state = .read →
      parsePastEnd c c.ta.reqParseIter = false → 0 < c.reqHeadersLen →
      c.reqHeadersLen < httpBufsz → k.input.head? ≠ some .eof))
  | .waiting _ _ | .closed _ _ | .aborted => isTrue trivial

def ParseEnd.says (length : Nat) (info : HeadInfo) : ParseEnd → Bool
  | .finish mem req p => decide (p = length ∧ HeadInfo.ofRequest mem req = info)
  | _ => false

theorem ParseEnd.finish_of_says {length : Nat} {info : HeadInfo} {ended : ParseEnd}
    (h : ended.says length info = true) :
    ∃ mem req, ended = .finish mem req length ∧ info = HeadInfo.ofRequest mem req := by
  cases ended with
  | finish mem req p =>
    obtain ⟨rfl, said⟩ := of_decide_eq_true h
    exact ⟨mem, req, rfl, said.symm⟩
  | _ => cases h

theorem getRoot_parses : ∃ mem req, headEnd (ascii "GET / HTTP/1.1\r\n\r\n") =
      .finish mem req (ascii "GET / HTTP/1.1\r\n\r\n").length ∧
    ({ method := .get, version := .http11, path := some (ascii "/"), query := none, cookies := none
       range := none, modifiedSince := none, contentLen := 0, mimetype := none,
       disposition := none } : HeadInfo) = HeadInfo.ofRequest mem req :=
  ParseEnd.finish_of_says (by decide +kernel)

theorem getRoot_fits : (ascii "GET / HTTP/1.1\r\n\r\n").length ≤ httpBufsz := by decide

def getRoot : WireRequest where
  head := ascii "GET / HTTP/1.1\r\n\r\n"
  payload := []
  info :=
    { method := .get, version := .http11, path := some (ascii "/"), query := none, cookies := none
      range := none, modifiedSince := none, contentLen := 0, mimetype := none, disposition := none }
  parses := getRoot_parses
  fits := getRoot_fits
  length := rfl

def hangingUp (b : Byte) (bs : Bytes) : Kernel where
  input := [.chunk b bs, .eof]
  writes := [.bytes 1000]
  fs _ := .empty

theorem hangingUp_endsOnce (b : Byte) (bs : Bytes) : EndsOnce (hangingUp b bs).input :=
  ⟨[.chunk b bs], rfl, by simp [OpenInput]⟩

def askingTwoHangingUp : Kernel where
  input := [.chunk 71 (ascii "ET / HTTP/1.1\r\n\r\n"), .chunk 71 (ascii "ET / HTTP/1.1\r\n\r\n"), .eof]
  writes := [.bytes 1000, .bytes 1000]
  fs _ := .empty

theorem hangup_behind_last_two : ∃ k',
    Monitor.run Exchange.step { later := [getRoot, getRoot] } (Kernel.trace k') =
        some { later := [] } ∧
      ∀ i < 2, ∃ m ≤ 12, Sends ignoring (.serving (createClientStruct Blocks.zeroed)
        askingTwoHangingUp) m (i + 1) := by
  have ends : EndsOnce askingTwoHangingUp.input :=
    ⟨[.chunk 71 (ascii "ET / HTTP/1.1\r\n\r\n"), .chunk 71 (ascii "ET / HTTP/1.1\r\n\r\n")], rfl,
      by simp [OpenInput]⟩
  have hangs : (match Conn.run ignoring 12 (.serving (createClientStruct Blocks.zeroed)
      askingTwoHangingUp) with
      | .serving c k => decide (c.ta.state = .read ∧
          (recvRequest c k).client.ta.resp.status = .xHangup ∧
          (Monitor.run readsStep 0 k.trace).isSome = true)
      | _ => false) = true := by decide +kernel
  have meets : ∀ m < 13, ((Conn.step ignoring)^[m] (.serving (createClientStruct Blocks.zeroed)
      askingTwoHangingUp)).Unsurprised := by decide +kernel
  split at hangs
  · rename_i c k serving
    obtain ⟨state, hangup, reads⟩ := of_decide_eq_true hangs
    exact ⟨k, hangup_behind_last (createClientStruct_idle Blocks.zeroed) ends rfl
      (by rw [createClientStruct_front, List.nil_append]; decide +kernel) meets serving state hangup
      reads⟩
  · cases hangs

/-- Two requests in one read, and the end of file behind them: the second one is not parsed. -/
theorem hangup_loses_request : EndsOnce (hangingUp 71 (ascii
      "ET / HTTP/1.1\r\n\r\nGET / HTTP/1.1\r\n\r\n")).input ∧
    pendingBytes (hangingUp 71 (ascii
      "ET / HTTP/1.1\r\n\r\nGET / HTTP/1.1\r\n\r\n")).input = wire [getRoot, getRoot] ∧
    ∃ c' k', Conn.run ignoring 6 (.serving (createClientStruct Blocks.zeroed) (hangingUp 71 (ascii
        "ET / HTTP/1.1\r\n\r\nGET / HTTP/1.1\r\n\r\n"))) = .serving c' k' ∧
      c'.ta.state = .read ∧ (recvRequest c' k').client.ta.resp.status = .xHangup ∧
      ReadsExactly k'.trace ∧ headCount k'.trace = 1 := by
  refine ⟨hangingUp_endsOnce .., by decide +kernel, ?_⟩
  have hangs : (match Conn.run ignoring 6 (.serving (createClientStruct Blocks.zeroed)
      (hangingUp 71 (ascii "ET / HTTP/1.1\r\n\r\nGET / HTTP/1.1\r\n\r\n"))) with
      | .serving c k => decide (c.ta.state = .read ∧
          (recvRequest c k).client.ta.resp.status = .xHangup ∧
          (Monitor.run readsStep 0 k.trace).isSome = true ∧ headCount k.trace = 1)
      | _ => false) = true := by decide +kernel
  split at hangs
  · rename_i c k serving
    obtain ⟨state, hangup, reads, heads⟩ := of_decide_eq_true hangs
    exact ⟨c, k, serving, state, hangup, reads, heads⟩
  · cases hangs

end Kitserv
