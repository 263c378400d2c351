import Kitserv.Lifecycle
import Kitserv.Send

namespace Kitserv

/-- Calls of `kitserv_http_send_response_file`, one after each readiness of the socket, until the
stage ends. -/
def sendFileCalls : Nat → Client → Kernel → Outcome
  | 0, c, k => { rc := 0, client := c, kernel := k }
  | n + 1, c, k =>
    let o := sendResponseFile c k
    if o.rc = 0 ∧ o.client.ta.state = .sendFile then sendFileCalls n o.client o.kernel else o

/-- The position behind the bytes of a file that were handed to the socket in order, from `pos`
on; `none` when something else was handed over. -/
def sentUpTo (fd : Int) : Int → List Event → Option Int
  | pos, [] => some pos
  | pos, .sentFile fd' start count :: rest =>
    if fd' = fd ∧ start = pos then sentUpTo fd (pos + count) rest else none
  | pos, _ :: rest => sentUpTo fd pos rest

theorem sentUpTo_append {fd : Int} (pos : Int) (before after : List Event) :
    sentUpTo fd pos (before ++ after) =
      (sentUpTo fd pos before).bind fun pos => sentUpTo fd pos after := by
  induction before generalizing pos with
  | nil => rfl
  | cons e rest ih =>
    cases e
    case sentFile fd' start count =>
      simp only [List.cons_append, sentUpTo]
      split
      · exact ih _
      · rfl
    all_goals exact ih pos

/-- No answer of sendfile that the stage gets to is 0 with bytes of the range left. -/
def NeverShort (last : Int) : Int → List Transfer → Prop
  | _, [] => True
  | pos, .wouldBlock :: rest => last < pos ∨ NeverShort last pos rest
  | _, .failed _ :: _ => True
  | pos, .bytes n :: rest =>
    let taken := min n (toSizeT (last - pos + 1))
    last < pos + taken ∨ (taken ≠ 0 ∧ NeverShort last (pos + taken) rest)

structure SendsRange (c : Client) : Prop where
  state : c.ta.state = .sendFile
  file : 0 < c.ta.resp.fd
  method : c.ta.req.method ≠ .head
  low : 0 ≤ c.ta.resp.bodyPos
  high : c.ta.resp.bodyEnd < 2 ^ 63

def Client.setPos (c : Client) (pos : Int) : Client :=
  { c with ta := { c.ta with resp := { c.ta.resp with bodyPos := pos } } }

/-- How calls of the stage leave it when they started at `pos` with these answers ahead. -/
inductive FileStage (c : Client) (sendfiles : List Transfer) (events : List Event) (o : Outcome) : Prop
  /-- The stage waits behind the bytes it has sent. -/
  | waits (pos : Int) (rc : o.rc = 0) (client : o.client = c.setPos pos)
      (sent : sentUpTo c.ta.resp.fd c.ta.resp.bodyPos events = some pos)
      (order : c.ta.resp.bodyPos ≤ pos) (left : pos ≤ c.ta.resp.bodyEnd)
      (same : NeverShort c.ta.resp.bodyEnd c.ta.resp.bodyPos sendfiles ↔
        NeverShort c.ta.resp.bodyEnd pos o.kernel.sendfiles)
  /-- The stage is over. -/
  | past (state : o.client.ta.state = .done)
      (whole : sentUpTo c.ta.resp.fd c.ta.resp.bodyPos events = some (c.ta.resp.bodyEnd + 1) ↔
        c.ta.resp.bodyPos ≤ c.ta.resp.bodyEnd + 1 ∧
          NeverShort c.ta.resp.bodyEnd c.ta.resp.bodyPos sendfiles)
  /-- The call failed. -/
  | fails (rc : o.rc = -1) (state : o.client.ta.state = .sendFile)

theorem sendFileClose_done (c : Client) (k : Kernel) :
    (sendFileClose c k).client.ta.state = .done ∧
      ∃ events, (sendFileClose c k).kernel.trace = k.trace ++ events ∧
        ∀ fd pos, sentUpTo fd pos events = some pos := by
  refine ⟨rfl, ?_⟩
  simp only [sendFileClose, sendFileDone, Kernel.closeFdToZero]
  split
  · exact ⟨[.closed c.ta.resp.fd], rfl, fun _ _ => rfl⟩
  · exact ⟨[], (List.append_nil _).symm, fun _ _ => rfl⟩

theorem fileStage_past {c : Client} {k : Kernel} (sendfiles : List Transfer)
    (past : c.ta.resp.bodyPos > c.ta.resp.bodyEnd)
    (never : NeverShort c.ta.resp.bodyEnd c.ta.resp.bodyPos sendfiles) {e : Event}
    (quiet : ∀ fd pos events, sentUpTo fd pos (e :: events) = sentUpTo fd pos events) :
    ∃ events, (sendFileClose c (k.emit e)).kernel.trace = k.trace ++ events ∧
      FileStage c sendfiles events (sendFileClose c (k.emit e)) := by
  obtain ⟨state, events, trace, still⟩ := sendFileClose_done c (k.emit e)
  refine ⟨e :: events, by rw [trace]; simp [Kernel.emit], .past state ?_⟩
  rw [quiet, still]
  constructor
  · intro same
    have := Option.some.inj same
    exact ⟨by omega, never⟩
  · intro whole
    have ends : c.ta.resp.bodyPos = c.ta.resp.bodyEnd + 1 := by omega
    rw [ends]

theorem FileStage.after {c : Client} {rest : List Transfer} {events : List Event} {o : Outcome}
    {n taken : Nat} (count : taken = min n (toSizeT (c.ta.resp.bodyEnd - c.ta.resp.bodyPos + 1)))
    (some' : taken ≠ 0) (left : ¬ c.ta.resp.bodyPos + taken > c.ta.resp.bodyEnd)
    (h : FileStage (c.setPos (c.ta.resp.bodyPos + taken)) rest events o) :
    FileStage c (.bytes n :: rest) (.socketSendfile (.bytes taken) ::
      .sentFile c.ta.resp.fd c.ta.resp.bodyPos taken :: events) o := by
  have first : sentUpTo c.ta.resp.fd c.ta.resp.bodyPos (.socketSendfile (.bytes taken) ::
      .sentFile c.ta.resp.fd c.ta.resp.bodyPos taken :: events) =
        sentUpTo c.ta.resp.fd (c.ta.resp.bodyPos + taken) events := by
    simp only [sentUpTo, and_self, if_true]
  have script : NeverShort c.ta.resp.bodyEnd c.ta.resp.bodyPos (.bytes n :: rest) ↔
      NeverShort c.ta.resp.bodyEnd (c.ta.resp.bodyPos + taken) rest := by
    simp only [NeverShort, ← count]
    exact ⟨fun h => (h.resolve_left left).2, fun h => .inr ⟨some', h⟩⟩
  cases h with
  | waits pos rc client sent order inside same =>
    have order : c.ta.resp.bodyPos + taken ≤ pos := order
    exact .waits pos rc client (first.trans sent) (by omega) inside (script.trans same)
  | past state whole =>
    have whole : sentUpTo c.ta.resp.fd (c.ta.resp.bodyPos + taken) events =
        some (c.ta.resp.bodyEnd + 1) ↔ c.ta.resp.bodyPos + taken ≤ c.ta.resp.bodyEnd + 1 ∧
          NeverShort c.ta.resp.bodyEnd (c.ta.resp.bodyPos + taken) rest := whole
    refine .past state ?_
    rw [first, whole, script]
    exact and_congr_left' (by omega)
  | fails rc state => exact .fails rc state

theorem sendFileLoop_stage (sendfiles : List Transfer) (c : Client) (k : Kernel)
    (sends : SendsRange c) : ∃ events,
      (sendFileLoop c k sendfiles).kernel.trace = k.trace ++ events ∧
      FileStage c sendfiles events (sendFileLoop c k sendfiles) := by
  induction sendfiles generalizing c k with
  | nil =>
    simp only [sendFileLoop, sendFileLoop.failed]
    split
    · rename_i past
      exact fileStage_past (k := { k with sendfiles := [] }) [] past trivial fun _ _ _ => rfl
    · refine ⟨[.socketSendfile .wouldBlock], rfl, ?_⟩
      exact .waits c.ta.resp.bodyPos rfl rfl rfl (Int.le_refl _) (by omega) Iff.rfl
  | cons t rest ih =>
    cases t with
    | wouldBlock =>
      simp only [sendFileLoop, sendFileLoop.failed]
      split
      · rename_i past
        exact fileStage_past (k := { k with sendfiles := rest }) (.wouldBlock :: rest) past
          (Or.inl past) fun _ _ _ => rfl
      · rename_i left
        refine ⟨[.socketSendfile .wouldBlock], rfl, ?_⟩
        refine .waits c.ta.resp.bodyPos rfl rfl rfl (Int.le_refl _) (by omega) ?_
        exact or_iff_right left
    | failed code =>
      simp only [sendFileLoop, sendFileLoop.failed]
      split
      · rename_i past
        exact fileStage_past (k := { k with sendfiles := rest }) (.failed code :: rest) past trivial
          fun _ _ _ => rfl
      · exact ⟨[.socketSendfile (.failed code)], rfl, .fails rfl sends.state⟩
    | bytes n =>
      obtain ⟨taken, count⟩ :
          ∃ taken, taken = min n (toSizeT (c.ta.resp.bodyEnd - c.ta.resp.bodyPos + 1)) := ⟨_, rfl⟩
      have trace (k' : Kernel) : ((k'.emit (.socketSendfile (.bytes taken))).emit
          (.sentFile c.ta.resp.fd c.ta.resp.bodyPos taken)).trace =
          k'.trace ++ [.socketSendfile (.bytes taken),
            .sentFile c.ta.resp.fd c.ta.resp.bodyPos taken] := by simp [Kernel.emit]
      have low := sends.low
      have high := sends.high
      simp only [sendFileLoop, ← count]
      split
      · rename_i past
        obtain ⟨state, events, closed, still⟩ := sendFileClose_done
          (c.setPos (c.ta.resp.bodyPos + taken)) (({ k with sendfiles := rest }.emit
            (.socketSendfile (.bytes taken))).emit
              (.sentFile c.ta.resp.fd c.ta.resp.bodyPos taken))
        refine ⟨[.socketSendfile (.bytes taken), .sentFile c.ta.resp.fd c.ta.resp.bodyPos taken] ++
          events, closed.trans ?_, .past state ?_⟩
        · rw [trace, List.append_assoc]
        · simp only [List.cons_append, List.nil_append, sentUpTo, and_self, if_true, still,
            Option.some.injEq, NeverShort, ← count]
          constructor
          · intro ends
            exact ⟨by omega, .inl past⟩
          · rintro ⟨order, -⟩
            have bytes := toSizeT_of_nonneg (x := c.ta.resp.bodyEnd - c.ta.resp.bodyPos + 1) (by omega)
              (by omega)
            have most : taken ≤ toSizeT (c.ta.resp.bodyEnd - c.ta.resp.bodyPos + 1) := by
              rw [count]
              exact Nat.min_le_right ..
            omega
      · rename_i left
        split
        · rename_i none
          refine ⟨_, trace _, .past rfl ?_⟩
          simp only [sentUpTo, and_self, if_true, Option.some.injEq, NeverShort, ← count, none,
            ne_eq, not_true_eq_false, false_and, or_false]
          omega
        · rename_i some'
          obtain ⟨events, later, stage⟩ := ih (c.setPos (c.ta.resp.bodyPos + taken))
            (({ k with sendfiles := rest }.emit (.socketSendfile (.bytes taken))).emit
              (.sentFile c.ta.resp.fd c.ta.resp.bodyPos taken))
            ⟨sends.state, sends.file, sends.method, by simp only [Client.setPos]; omega, high⟩
          refine ⟨.socketSendfile (.bytes taken) ::
            .sentFile c.ta.resp.fd c.ta.resp.bodyPos taken :: events, later.trans ?_,
            stage.after count some' left⟩
          rw [trace, List.append_assoc]
          rfl

theorem sendFileCalls_stage (n : Nat) (c : Client) (k : Kernel) (sends : SendsRange c) :
    ∃ events, (sendFileCalls n c k).kernel.trace = k.trace ++ events ∧
      ((sendFileCalls n c k).client.ta.state = .done →
        (sentUpTo c.ta.resp.fd c.ta.resp.bodyPos events = some (c.ta.resp.bodyEnd + 1) ↔
          c.ta.resp.bodyPos ≤ c.ta.resp.bodyEnd + 1 ∧
            NeverShort c.ta.resp.bodyEnd c.ta.resp.bodyPos k.sendfiles)) := by
  induction n generalizing c k with
  | zero =>
    refine ⟨[], (List.append_nil _).symm, fun done => ?_⟩
    cases sends.state.symm.trans done
  | succ n ih =>
    have call : sendResponseFile c k = sendFileLoop c k k.sendfiles :=
      if_pos ⟨sends.file, sends.method⟩
    obtain ⟨events, trace, stage⟩ := sendFileLoop_stage k.sendfiles c k sends
    simp only [sendFileCalls, call]
    generalize sendFileLoop c k k.sendfiles = o at trace stage
    cases stage with
    | waits pos rc client sent order left same =>
      have again : o.client.ta.state = .sendFile := by
        rw [client]
        exact sends.state
      rw [if_pos ⟨rc, again⟩]
      obtain ⟨events', trace', later⟩ := ih o.client o.kernel (by
        rw [client]
        exact ⟨sends.state, sends.file, sends.method, Int.le_trans sends.low order, sends.high⟩)
      refine ⟨events ++ events', by rw [trace', trace, List.append_assoc], fun done => ?_⟩
      have later := later done
      rw [client] at later
      have later : sentUpTo c.ta.resp.fd pos events' = some (c.ta.resp.bodyEnd + 1) ↔
          pos ≤ c.ta.resp.bodyEnd + 1 ∧ NeverShort c.ta.resp.bodyEnd pos o.kernel.sendfiles := later
      rw [sentUpTo_append, sent, Option.bind_some, later, same]
      exact and_congr_left' (by omega)
    | past state whole =>
      have ends : ¬ (o.rc = 0 ∧ o.client.ta.state = .sendFile) := by simp [state]
      rw [if_neg ends]
      exact ⟨events, trace, fun _ => whole⟩
    | fails rc state =>
      have ends : ¬ (o.rc = 0 ∧ o.client.ta.state = .sendFile) := by simp [rc]
      rw [if_neg ends]
      refine ⟨events, trace, fun done => ?_⟩
      cases state.symm.trans done

def sentFileDuring (n : Nat) (c : Client) (k : Kernel) : Option Int :=
  sentUpTo c.ta.resp.fd c.ta.resp.bodyPos ((sendFileCalls n c k).kernel.trace.drop k.trace.length)

/-- When the stage ends and leaves the connection open, the range has been sent whole, exactly as
long as it does not begin behind its end and sendfile never found it cut off. -/
theorem kept_alive_whole_iff {n : Nat} {c : Client} {k : Kernel} (sends : SendsRange c)
    (kept : (sendFileCalls n c k).rc = 0 ∧ (sendFileCalls n c k).client.ta.state = .done) :
    sentFileDuring n c k = some (c.ta.resp.bodyEnd + 1) ↔
      c.ta.resp.bodyPos ≤ c.ta.resp.bodyEnd + 1 ∧
        NeverShort c.ta.resp.bodyEnd c.ta.resp.bodyPos k.sendfiles := by
  obtain ⟨events, trace, whole⟩ := sendFileCalls_stage n c k sends
  rw [sentFileDuring, trace, List.drop_left]
  exact whole kept.2

def sendingFive : Client :=
  { createClientStruct Blocks.zeroed with
    ta :=
      { state := .sendFile
        req := { method := .get }
        resp := { status := .http200Ok, fd := 3, bodyPos := 0, bodyEnd := 4 } } }

def Kernel.sendingFile (sendfiles : List Transfer) : Kernel :=
  { sendfiles := sendfiles, fs := fun _ => .empty }

theorem sendingFive_sends : SendsRange sendingFive :=
  ⟨rfl, by decide, by decide, by decide, by decide⟩

theorem kept_alive_whole_iff_five :
    sentFileDuring 2 sendingFive (.sendingFile [.bytes 2, .wouldBlock, .bytes 9]) = some 5 ↔
      (0 : Int) ≤ 4 + 1 ∧ NeverShort 4 0 [.bytes 2, .wouldBlock, .bytes 9] :=
  have kept : (sendFileCalls 2 sendingFive (.sendingFile [.bytes 2, .wouldBlock, .bytes 9])).rc = 0 ∧
      (sendFileCalls 2 sendingFive
        (.sendingFile [.bytes 2, .wouldBlock, .bytes 9])).client.ta.state = .done := by
    decide +kernel
  kept_alive_whole_iff sendingFive_sends kept

/-- A file that is cut off after two bytes: the stage ends, the connection stays open, and three
of the announced bytes never come. -/
theorem short_file_kept_alive :
    (sendFileCalls 1 sendingFive (.sendingFile [.bytes 2, .bytes 0])).rc = 0 ∧
      (sendFileCalls 1 sendingFive (.sendingFile [.bytes 2, .bytes 0])).client.ta.state = .done ∧
      announcedLength sendingFive = 5 ∧
      sentFileDuring 1 sendingFive (.sendingFile [.bytes 2, .bytes 0]) = some 2 := by
  decide +kernel

end Kitserv
