import Kitserv.Lifecycle
import Kitserv.PrepareLaw
import Kitserv.Send

namespace Kitserv

/-- `kitserv_http_send_response`, called again as long as it leaves state HTTP_STATE_SEND. -/
def sendCalls : Nat → Client → Kernel → Outcome
  | 0, c, k => { rc := 0, client := c, kernel := k }
  | n + 1, c, k =>
    let o := sendResponse c k
    if o.rc = 0 ∧ o.client.ta.state = .send then sendCalls n o.client o.kernel else o

def Event.sentBytes : Event → Bytes
  | sent bs => bs
  | _ => []

def acceptedBytes (events : List Event) : Bytes := events.flatMap Event.sentBytes

def RespBufs.total (bufs : RespBufs) : Nat := bufs.start.len + bufs.headers.len + bufs.body.len

/-- Every write leaves a byte of the start line unsent or takes everything that is left. -/
def WithinStart (bufs : RespBufs) : List Transfer → Prop
  | [] => True
  | .bytes n :: rest =>
    min n bufs.total = bufs.total ∨
      (n < bufs.start.len ∧ WithinStart (bufs.advance n).1 rest)
  | .wouldBlock :: rest | .failed _ :: rest => WithinStart bufs rest

section Bytes

variable {outside : Nat → Byte}

theorem length_iovecBytes (buf : Bytes) (v : Iovec) : (v.bytes outside buf).length = v.len := by
  simp [Iovec.bytes]

theorem length_describedBytes (c : Client) :
    (describedBytes outside c).length = c.ta.resp.bufs.total := by
  simp only [describedBytes, RespBufs.total, List.length_append, length_iovecBytes]

theorem iovecBytes_advance (buf : Bytes) (v : Iovec) {n : Nat} (h : n < v.len) :
    (v.advance n).bytes outside buf = (v.bytes outside buf).drop n := by
  apply List.ext_getElem?
  intro i
  simp only [Iovec.bytes, Iovec.advance, if_neg (Nat.not_le.mpr h), List.getElem?_drop,
    List.getElem?_map]
  by_cases hi : i < v.len - n
  · rw [List.getElem?_range hi, List.getElem?_range (by omega)]
    simp only [Option.map_some, Nat.add_assoc]
  · rw [List.getElem?_eq_none (by simp; omega), List.getElem?_eq_none (by simp; omega)]
    rfl

end Bytes

variable {bufs : RespBufs} {n : Nat}

theorem advance_within (h : n < bufs.start.len) :
    bufs.advance n = ({ bufs with start := bufs.start.advance n }, false) := by
  simp only [RespBufs.advance]
  rw [if_neg (by omega)]

theorem advance_all : (bufs.advance bufs.total).2 = true := by
  have l₁ : bufs.start.len ≤ bufs.total := by unfold RespBufs.total; omega
  have l₂ : bufs.headers.len ≤ bufs.total := by unfold RespBufs.total; omega
  have l₃ : bufs.body.len ≤ bufs.total := by unfold RespBufs.total; omega
  simp only [RespBufs.advance, if_pos l₁, if_pos l₂, decide_eq_true l₃]

theorem advance_total (more : (bufs.advance n).2 = false) :
    (bufs.advance n).1.total + n ≤ bufs.total := by
  unfold RespBufs.total
  simp only [RespBufs.advance, Iovec.advance] at more ⊢
  split at more
  · rename_i l₁
    split at more
    · rename_i l₂
      have l₃ : ¬ bufs.body.len ≤ n := of_decide_eq_false more
      simp only [if_pos l₁, if_pos l₂, if_neg l₃]
      omega
    · rename_i l₂
      simp only [if_pos l₁, if_neg l₂]
      omega
  · rename_i l₁
    simp only [if_neg l₁]
    omega

theorem advance_loses (start : 0 < bufs.start.len) (beyond : bufs.start.len ≤ n)
    (more : (bufs.advance n).2 = false) : (bufs.advance n).1.total + n < bufs.total := by
  unfold RespBufs.total
  simp only [RespBufs.advance, Iovec.advance, if_pos beyond] at more ⊢
  split at more
  · rename_i l₂
    have l₃ : ¬ bufs.body.len ≤ n := of_decide_eq_false more
    simp only [if_pos l₂, if_neg l₃]
    omega
  · rename_i l₂
    simp only [if_neg l₂]
    omega

/-- What the SEND stage has done by the end of some calls, in terms of the client it began with:
`accepted` are the bytes that writev took. -/
structure StageEnd (outside : Nat → Byte) (c : Client) (script : List Transfer) (o : Outcome)
    (accepted : Bytes) : Prop where
  bound : accepted.length ≤ c.ta.resp.bufs.total
  complete : 0 < c.ta.resp.bufs.start.len → o.client.ta.state = .sendFile →
    (accepted.length = c.ta.resp.bufs.total ↔ WithinStart c.ta.resp.bufs script)
  inOrder : 0 < c.ta.resp.bufs.start.len → WithinStart c.ta.resp.bufs script →
    accepted <+: describedBytes outside c

def afterWrite (c : Client) (k : Kernel) (n : Nat) (rest : List Transfer) : Client × Kernel :=
  (c.setBufs (c.ta.resp.bufs.advance n).1,
    ({ k with writes := rest }.emit (.socketWrite (.bytes n))).emit
      (.sent ((describedBytes k.outside c).take n)))

theorem sendCalls_more {m : Nat} {c : Client} {k : Kernel} {rest : List Transfer}
    (script : k.writes = .bytes m :: rest)
    (more : (c.ta.resp.bufs.advance (min m c.ta.resp.bufs.total)).2 = false) :
    sendCalls (n + 1) c k =
      sendCalls (n + 1) (afterWrite c k (min m c.ta.resp.bufs.total) rest).1
        (afterWrite c k (min m c.ta.resp.bufs.total) rest).2 := by
  have again : sendResponse c k =
      sendResponse (afterWrite c k (min m c.ta.resp.bufs.total) rest).1
        (afterWrite c k (min m c.ta.resp.bufs.total) rest).2 := by
    simp only [sendResponse, script, sendLoop, length_describedBytes, more, Bool.false_eq_true,
      if_false]
    rfl
  simp only [sendCalls, again]

theorem sendCalls_done {m : Nat} {c : Client} {k : Kernel} {rest : List Transfer}
    (script : k.writes = .bytes m :: rest)
    (all : (c.ta.resp.bufs.advance (min m c.ta.resp.bufs.total)).2 = true) :
    sendCalls (n + 1) c k =
      { rc := 0
        client := (afterWrite c k (min m c.ta.resp.bufs.total) rest).1.setState .sendFile
        kernel := (afterWrite c k (min m c.ta.resp.bufs.total) rest).2 } := by
  simp only [sendCalls, sendResponse, script, sendLoop, length_describedBytes, all, if_true]
  rw [if_neg (by simp [Client.setState])]
  rfl

theorem sendCalls_blocked {t : Transfer} {c : Client} {k : Kernel} {rest : List Transfer}
    (script : k.writes = t :: rest) (state : c.ta.state = .send) (none : ∀ m, t ≠ .bytes m) :
    sendCalls (n + 1) c k = sendCalls n c ({ k with writes := rest }.emit (.socketWrite t)) := by
  cases t with
  | bytes m => exact absurd rfl (none m)
  | wouldBlock =>
    simp only [sendCalls, sendResponse, script, sendLoop]
    exact if_pos ⟨trivial, state⟩
  | failed code =>
    simp only [sendCalls, sendResponse, script, sendLoop]
    exact if_pos ⟨trivial, state⟩

theorem stageEnd_done {outside : Nat → Byte} {c : Client} {o : Outcome} {m : Nat}
    {rest : List Transfer}
    (all : (c.ta.resp.bufs.advance (min m c.ta.resp.bufs.total)).2 = true) :
    StageEnd outside c (.bytes m :: rest) o
      ((describedBytes outside c).take (min m c.ta.resp.bufs.total)) := by
  have len : ((describedBytes outside c).take (min m c.ta.resp.bufs.total)).length =
      min m c.ta.resp.bufs.total := by
    rw [List.length_take, length_describedBytes]
    omega
  refine ⟨by omega, fun _ _ => ?_, fun _ _ => List.take_prefix _ _⟩
  rw [len]
  refine ⟨.inl, ?_⟩
  rintro (whole | ⟨within, -⟩)
  · exact whole
  · have inside : min m c.ta.resp.bufs.total < c.ta.resp.bufs.start.len := by omega
    rw [advance_within inside] at all
    cases all

theorem stageEnd_more {outside : Nat → Byte} {c c' : Client} {o : Outcome} {m : Nat}
    {rest : List Transfer} {accepted : Bytes}
    (after : c' = c.setBufs (c.ta.resp.bufs.advance (min m c.ta.resp.bufs.total)).1)
    (more : (c.ta.resp.bufs.advance (min m c.ta.resp.bufs.total)).2 = false)
    (h : StageEnd outside c' rest o accepted) :
    StageEnd outside c (.bytes m :: rest) o
      ((describedBytes outside c).take (min m c.ta.resp.bufs.total) ++ accepted) := by
  have bufs' : c'.ta.resp.bufs = (c.ta.resp.bufs.advance (min m c.ta.resp.bufs.total)).1 := by
    rw [after]; rfl
  have len : ((describedBytes outside c).take (min m c.ta.resp.bufs.total) ++ accepted).length =
      min m c.ta.resp.bufs.total + accepted.length := by
    rw [List.length_append, List.length_take, length_describedBytes]
    omega
  have left := advance_total more
  have bound := h.bound
  rw [bufs'] at bound
  by_cases within : min m c.ta.resp.bufs.total < c.ta.resp.bufs.start.len
  · have part : c.ta.resp.bufs.start.len ≤ c.ta.resp.bufs.total := by
      unfold RespBufs.total; omega
    have exactly : min m c.ta.resp.bufs.total = m := by omega
    rw [exactly] at after bufs' len left bound within more ⊢
    have bufs'' := bufs'
    rw [advance_within within] at bufs''
    have start' : 0 < c'.ta.resp.bufs.start.len := by
      rw [bufs'']
      simp only [Iovec.advance, if_neg (Nat.not_le.mpr within)]
      omega
    have total' : c'.ta.resp.bufs.total + m = c.ta.resp.bufs.total := by
      rw [bufs'']
      simp only [RespBufs.total, Iovec.advance, if_neg (Nat.not_le.mpr within)]
      omega
    have dropped : describedBytes outside c' = (describedBytes outside c).drop m := by
      have first := @iovecBytes_advance outside c.respStart c.ta.resp.bufs.start m within
      rw [after]
      simp only [Client.setBufs, describedBytes, advance_within within, first]
      rw [List.append_assoc, List.append_assoc, List.drop_append_of_le_length]
      rw [length_iovecBytes]
      omega
    have script : WithinStart c.ta.resp.bufs (.bytes m :: rest) ↔
        WithinStart c'.ta.resp.bufs rest := by
      simp only [WithinStart, ← bufs']
      constructor
      · rintro (whole | ⟨-, later⟩)
        · omega
        · exact later
      · exact fun later => .inr ⟨within, later⟩
    refine ⟨by omega, fun _ done => ?_, fun _ inside => ?_⟩
    · rw [script, ← h.complete start' done, len]
      omega
    · have later := h.inOrder start' (script.mp inside)
      rw [dropped] at later
      conv => rhs; rw [← List.take_append_drop m (describedBytes outside c)]
      exact (List.prefix_append_right_inj _).mpr later
  · have never : ¬ WithinStart c.ta.resp.bufs (.bytes m :: rest) := by
      rintro (whole | ⟨inside, -⟩)
      · rw [whole, advance_all] at more
        cases more
      · omega
    refine ⟨by omega, fun start _ => ?_, fun _ inside => absurd inside never⟩
    have lost := advance_loses start (by omega) more
    exact iff_of_false (by omega) never

theorem sendCalls_spec (n : Nat) (script : List Transfer) (c : Client) (k : Kernel)
    (writes : k.writes = script) (state : c.ta.state = .send) :
    ∃ events, (sendCalls n c k).kernel.trace = k.trace ++ events ∧
      StageEnd k.outside c script (sendCalls n c k) (acceptedBytes events) := by
  induction n generalizing script c k with
  | zero =>
    refine ⟨[], by simp [sendCalls], Nat.zero_le _, fun _ done => ?_, fun _ _ => List.nil_prefix⟩
    cases state.symm.trans done
  | succ n outer =>
    induction script generalizing c k with
    | nil =>
      have again : sendCalls (n + 1) c k =
          sendCalls n c ({ k with writes := [] }.emit (.socketWrite .wouldBlock)) := by
        simp only [sendCalls, sendResponse, writes, sendLoop]
        exact if_pos ⟨trivial, state⟩
      rw [again]
      obtain ⟨events, trace, stage⟩ :=
        outer [] c ({ k with writes := [] }.emit (.socketWrite .wouldBlock)) rfl state
      exact ⟨.socketWrite .wouldBlock :: events, by rw [trace]; simp [Kernel.emit], stage⟩
    | cons t rest inner =>
      have blocked (none : ∀ m, t ≠ .bytes m)
          (skip : WithinStart c.ta.resp.bufs (t :: rest) ↔ WithinStart c.ta.resp.bufs rest) :
          ∃ events, (sendCalls (n + 1) c k).kernel.trace = k.trace ++ events ∧
            StageEnd k.outside c (t :: rest) (sendCalls (n + 1) c k) (acceptedBytes events) := by
        rw [sendCalls_blocked writes state none]
        obtain ⟨events, trace, stage⟩ :=
          outer rest c ({ k with writes := rest }.emit (.socketWrite t)) rfl state
        refine ⟨.socketWrite t :: events, by rw [trace]; simp [Kernel.emit], stage.bound, ?_, ?_⟩
        · exact fun start done => (stage.complete start done).trans skip.symm
        · exact fun start inside => stage.inOrder start (skip.mp inside)
      cases t with
      | wouldBlock => exact blocked (by simp) Iff.rfl
      | failed code => exact blocked (by simp) Iff.rfl
      | bytes m =>
        let taken := min m c.ta.resp.bufs.total
        let events₀ : List Event :=
          [.socketWrite (.bytes taken), .sent ((describedBytes k.outside c).take taken)]
        have accepted₀ : acceptedBytes events₀ = (describedBytes k.outside c).take taken := by
          simp [acceptedBytes, events₀, Event.sentBytes]
        cases last : (c.ta.resp.bufs.advance taken).2 with
        | true =>
          rw [sendCalls_done writes last]
          refine ⟨events₀, by simp [afterWrite, Kernel.emit, events₀, taken], ?_⟩
          rw [accepted₀]
          exact stageEnd_done last
        | false =>
          rw [sendCalls_more writes last]
          obtain ⟨events, trace, stage⟩ :=
            inner (afterWrite c k taken rest).1 (afterWrite c k taken rest).2 rfl state
          refine ⟨events₀ ++ events, ?_, ?_⟩
          · rw [trace]
            simp [afterWrite, Kernel.emit, events₀, taken]
          · have both : acceptedBytes (events₀ ++ events) =
                (describedBytes k.outside c).take taken ++ acceptedBytes events := by
              rw [← accepted₀]
              exact List.flatMap_append
            rw [both]
            exact stageEnd_more rfl last stage

def sentDuring (n : Nat) (c : Client) (k : Kernel) : Bytes :=
  acceptedBytes ((sendCalls n c k).kernel.trace.drop k.trace.length)

/-- A prepared response is sent byte by byte in order, and has been sent whole when the stage
ends, exactly as long as every write leaves some of the start line or takes all that is left. -/
theorem send_stage_exact {c₀ c : Client} {k₀ k : Kernel} (n : Nat)
    (prepared : prepareResponse c₀ k₀ = some { rc := 0, client := c, kernel := k }) :
    ((sendCalls n c k).client.ta.state = .sendFile →
      (sentDuring n c k = describedBytes k.outside c ↔ WithinStart c.ta.resp.bufs k.writes)) ∧
    (WithinStart c.ta.resp.bufs k.writes → sentDuring n c k <+: describedBytes k.outside c) := by
  obtain ⟨c₁, buf, m, ready⟩ := prepareResponse_ready prepared
  have state : c.ta.state = .send := by rw [ready]; rfl
  have start : 0 < c.ta.resp.bufs.start.len := by
    rw [ready, describeBuffers_start]
    exact prepareRespStart_pos c₁
  obtain ⟨events, trace, stage⟩ := sendCalls_spec n k.writes c k rfl state
  have sent : sentDuring n c k = acceptedBytes events := by
    rw [sentDuring, trace, List.drop_left]
  rw [sent]
  constructor
  · intro done
    have complete := stage.complete start done
    rw [← length_describedBytes] at complete
    constructor
    · intro all
      exact complete.mp (congrArg List.length all)
    · intro inside
      exact (stage.inOrder start inside).eq_of_length (complete.mpr inside)
  · exact stage.inOrder start

def answeredOk : Client := (createClientStruct Blocks.zeroed).setStatus .http200Ok

def Kernel.writing (writes : List Transfer) : Kernel :=
  { writes := writes, fs := fun _ => .empty }

theorem send_stage_exact_inside : ∃ c k,
    prepareResponse answeredOk (.writing [.bytes 5, .wouldBlock, .bytes 11, .bytes 39]) =
      some { rc := 0, client := c, kernel := k } ∧
    ((sendCalls 2 c k).client.ta.state = .sendFile →
      (sentDuring 2 c k = describedBytes k.outside c ↔ WithinStart c.ta.resp.bufs k.writes)) ∧
    (WithinStart c.ta.resp.bufs k.writes → sentDuring 2 c k <+: describedBytes k.outside c) := by
  have ready : (prepareResponse answeredOk
      (.writing [.bytes 5, .wouldBlock, .bytes 11, .bytes 39])).map (fun o => o.rc) = some 0 := by
    decide +kernel
  obtain ⟨⟨rc, c, k⟩, prepared, rfl⟩ := Option.map_eq_some_iff.mp ready
  exact ⟨c, k, prepared, send_stage_exact 2 prepared⟩

/-- A first write of just the 17 bytes of the start line, and a second one of what is described
then: the stage ends, and 17 bytes of the headers have been skipped. -/
theorem send_skips_headers : ∃ c k,
    prepareResponse answeredOk (.writing [.bytes 17, .bytes 21]) =
      some { rc := 0, client := c, kernel := k } ∧
    c.ta.resp.bufs.total = 55 ∧ (c.ta.resp.bufs.advance 17).1.total = 21 ∧
    (sendCalls 1 c k).client.ta.state = .sendFile ∧
    sentDuring 1 c k ≠ describedBytes k.outside c ∧ (sentDuring 1 c k).length = 38 := by
  have run : (prepareResponse answeredOk (.writing [.bytes 17, .bytes 21])).map (fun o =>
      (o.rc, o.client.ta.resp.bufs.total, (o.client.ta.resp.bufs.advance 17).1.total,
        (sendCalls 1 o.client o.kernel).client.ta.state,
        (sentDuring 1 o.client o.kernel).length)) = some (0, 55, 21, .sendFile, 38) := by
    decide +kernel
  obtain ⟨⟨rc, c, k⟩, prepared, values⟩ := Option.map_eq_some_iff.mp run
  simp only [Prod.mk.injEq] at values
  obtain ⟨rfl, total, left, state, sent⟩ := values
  refine ⟨c, k, prepared, total, left, state, ?_, sent⟩
  intro whole
  rw [whole, length_describedBytes] at sent
  omega

end Kitserv
