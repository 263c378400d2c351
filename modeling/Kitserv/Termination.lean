import Kitserv.Basis.Paths
import Kitserv.Rejection
import Kitserv.SendStage

/-! Whether a call of `kitserv_http_serve_client` returns. Its loops are taken apart into steps with
one system call of the loop each, and the world may answer in any way that brings the bytes of the
socket in order. -/
namespace Kitserv

open Memory
open Paths (Less)

structure Kernel.Drifts (k k' : Kernel) : Prop where
  bytes : pendingBytes k'.input = pendingBytes k.input
  trace : k'.trace = k.trace

/-- Where control is in `kitserv_http_serve_client`: at its switch, in front of the system call of
one of the loops, or behind it. -/
inductive Point where
  | switch (c : Client) (k : Kernel)
  | receiving (c : Client) (k : Kernel) (p r : Option Nat)
  | sending (c : Client) (k : Kernel)
  | sendingFile (c : Client) (k : Kernel)
  | returned (o : Outcome)
  | aborted

def Point.over : Point → Bool
  | returned _ | aborted => true
  | switch .. | receiving .. | sending .. | sendingFile .. => false

def Served.point : Served → Point
  | next c k => .switch c k
  | back o => .returned o
  | abort => .aborted

def enterCase (s : Server) (c : Client) (k : Kernel) : Point :=
  match c.ta.state with
  | .read => .receiving c k c.ta.reqParseBlk c.ta.reqParseIter
  | .send => .sending c k
  | .sendFile =>
    if c.ta.resp.fd > 0 ∧ c.ta.req.method ≠ .head then .sendingFile c k
    else (afterOutput .sendFile (sendFileDone c k)).point
  | .serve | .prepareResponse | .done => (serveStep s c k).point

def Round.point : Round → Point
  | stop o => (afterStage .read o).point
  | again c k p r => .receiving c k p r

def writevAnswer (c : Client) (k : Kernel) : Transfer → Point
  | .bytes n =>
    let data := describedBytes k.outside c
    let n := min n data.length
    let k := (k.emit (.socketWrite (.bytes n))).emit (.sent (data.take n))
    let r := c.ta.resp.bufs.advance n
    let c := c.setBufs r.1
    if r.2 then (afterOutput .send { rc := 0, client := c.setState .sendFile, kernel := k }).point
    else .sending c k
  | t => (afterOutput .send { rc := 0, client := c, kernel := k.emit (.socketWrite t) }).point

def sendfileAnswer (c : Client) (k : Kernel) : Transfer → Point
  | .bytes n =>
    let n := min n (toSizeT (c.ta.resp.bodyEnd - c.ta.resp.bodyPos + 1))
    let k := (k.emit (.socketSendfile (.bytes n))).emit
      (.sentFile c.ta.resp.fd c.ta.resp.bodyPos n)
    let c := { c with ta := { c.ta with resp := { c.ta.resp with
      bodyPos := c.ta.resp.bodyPos + n } } }
    if c.ta.resp.bodyPos > c.ta.resp.bodyEnd then (afterOutput .sendFile (sendFileClose c k)).point
    else if n = 0 then (afterOutput .sendFile (sendFileDone c k)).point
    else .sendingFile c k
  | .wouldBlock =>
    let k := k.emit (.socketSendfile .wouldBlock)
    (afterOutput .sendFile (sendFileLoop.failed c 0 k)).point
  | .failed code =>
    let k := k.emit (.socketSendfile (.failed code))
    (afterOutput .sendFile (sendFileLoop.failed c (-1) k)).point

def Transfer.Moves (size : Nat) (t : Transfer) : Prop := ∀ n, t = .bytes n → size ≠ 0 → n ≠ 0

/-- One step of a call, in whatever world it finds. For sendfile 0 is the end of the file. -/
inductive CallStep (s : Server) : Point → Point → Prop where
  | switch {c : Client} {k k' : Kernel} (world : k.Drifts k') :
      CallStep s (.switch c k) (enterCase s c k')
  | read {c : Client} {k k' : Kernel} (p r : Option Nat) (world : k.Drifts k') :
      CallStep s (.receiving c k p r) (recvRound c k' p r).point
  | writev {c : Client} {k k' : Kernel} (world : k.Drifts k') {t : Transfer}
      (moves : t.Moves c.ta.resp.bufs.total) : CallStep s (.sending c k) (writevAnswer c k' t)
  | sendfile {c : Client} {k k' : Kernel} (world : k.Drifts k') (t : Transfer) :
      CallStep s (.sendingFile c k) (sendfileAnswer c k' t)

theorem Kernel.Drifts.rfl' (k : Kernel) : k.Drifts k := ⟨rfl, rfl⟩

/-- A call that has not returned goes on. -/
theorem callStep_exists (s : Server) {a : Point} (more : a.over = false) :
    ∃ b, CallStep s a b := by
  cases a with
  | switch c k => exact ⟨_, .switch (.rfl' k)⟩
  | receiving c k p r => exact ⟨_, .read p r (.rfl' k)⟩
  | sending c k => exact ⟨_, .writev (t := .wouldBlock) (.rfl' k) (fun n bytes => by cases bytes)⟩
  | sendingFile c k => exact ⟨_, .sendfile (.rfl' k) .wouldBlock⟩
  | returned | aborted => cases more

section Simulation

open Relation (ReflTransGen)

variable {s : Server}

theorem recvLoop_simulated (c : Client) (k : Kernel) (p r : Option Nat) :
    ReflTransGen (CallStep s) (.receiving c k p r) (afterStage .read (recvLoop c k p r)).point := by
  fun_induction recvLoop c k p r with
  | case1 c k p r o round =>
    have one : CallStep s (.receiving c k p r) _ := .read p r (.rfl' k)
    rw [round] at one
    exact .single one
  | case2 c k p r c' k' p' r' round ih =>
    have one : CallStep s (.receiving c k p r) _ := .read p r (.rfl' k)
    rw [round] at one
    exact .head one ih

theorem sendLoop_simulated (writes : List Transfer) (moves : ∀ n, .bytes n ∈ writes → n ≠ 0)
    (c : Client) (k : Kernel) :
    ReflTransGen (CallStep s) (.sending c k) (afterOutput .send (sendLoop c k writes)).point := by
  induction writes generalizing c k with
  | nil =>
    have world : k.Drifts { k with writes := [] } := ⟨rfl, rfl⟩
    exact .single (.writev (t := .wouldBlock) world fun n bytes => by cases bytes)
  | cons t rest ih =>
    have world : k.Drifts { k with writes := rest } := ⟨rfl, rfl⟩
    have one : CallStep s (.sending c k) (writevAnswer c { k with writes := rest } t) :=
      .writev world fun n bytes _ => moves n (bytes ▸ List.mem_cons_self ..)
    cases t with
    | wouldBlock | failed => exact .single one
    | bytes n =>
      simp only [sendLoop]
      simp only [writevAnswer] at one
      split
      · rename_i all
        rw [if_pos all] at one
        exact .single one
      · rename_i more
        rw [if_neg more] at one
        exact .head one (ih (fun m member => moves m (List.mem_cons_of_mem _ member)) _ _)

theorem sendFileLoop_simulated (sendfiles : List Transfer) (c : Client) (k : Kernel) :
    ReflTransGen (CallStep s) (.sendingFile c k)
      (afterOutput .sendFile (sendFileLoop c k sendfiles)).point := by
  induction sendfiles generalizing c k with
  | nil =>
    have world : k.Drifts { k with sendfiles := [] } := ⟨rfl, rfl⟩
    exact .single (.sendfile world .wouldBlock)
  | cons t rest ih =>
    have world : k.Drifts { k with sendfiles := rest } := ⟨rfl, rfl⟩
    have one : CallStep s (.sendingFile c k) (sendfileAnswer c { k with sendfiles := rest } t) :=
      .sendfile world t
    cases t with
    | wouldBlock | failed => exact .single one
    | bytes n =>
      simp only [sendFileLoop]
      simp only [sendfileAnswer] at one
      split
      · rename_i past
        rw [if_pos past] at one
        exact .single one
      · rename_i inside
        rw [if_neg inside] at one
        split
        · rename_i none
          rw [if_pos none] at one
          exact .single one
        · rename_i more
          rw [if_neg more] at one
          exact .head one (ih _ _)

/-- The cases of the switch are made of these steps. -/
theorem serveStep_simulated {c : Client} {k : Kernel} (moves : ∀ n, .bytes n ∈ k.writes → n ≠ 0) :
    ReflTransGen (CallStep s) (.switch c k) (serveStep s c k).point := by
  have one : CallStep s (.switch c k) (enterCase s c k) := .switch (.rfl' k)
  cases state : c.ta.state with
  | read =>
    have step : serveStep s c k = afterStage .read (recvRequest c k) := by rw [serveStep, state]
    rw [enterCase, state] at one
    rw [step]
    exact .head one (recvLoop_simulated ..)
  | send =>
    have step : serveStep s c k = afterOutput .send (sendResponse c k) := by rw [serveStep, state]
    rw [enterCase, state] at one
    rw [step]
    exact .head one (sendLoop_simulated k.writes moves c k)
  | sendFile =>
    have step : serveStep s c k = afterOutput .sendFile (sendResponseFile c k) := by
      rw [serveStep, state]
    simp only [enterCase, state] at one
    rw [step, sendResponseFile]
    split
    · rename_i file
      rw [if_pos file] at one
      exact .head one (sendFileLoop_simulated k.sendfiles c k)
    · rename_i none
      rw [if_neg none] at one
      exact .single one
  | serve | prepareResponse | done =>
    rw [enterCase, state] at one
    exact .single one

end Simulation

def Client.owed (c : Client) : Nat := (c.ta.reqPayloadLen - c.ta.reqPayloadPos).toNat

def TransactionState.ahead : TransactionState → Nat
  | .serve => 5
  | .prepareResponse => 4
  | .send => 3
  | .sendFile => 2
  | .done => 1
  | .read => 0

def toCome (c : Client) (k : Kernel) : Nat :=
  (if c.ta.state = .read then c.reqHeadersLen else c.owed) + (pendingBytes k.input).length

/-- What falls with each step: a head takes bytes, the stages of a transaction follow each other, and
every round of a loop moves something. -/
def Point.measure : Point → Nat × Nat × Nat
  | switch c k => (toCome c k, 2 * c.ta.state.ahead + 2, 0)
  | receiving c k _ r => (toCome c k, 1, recvMeasure c r)
  | sending c k => (toCome c k, 7, c.ta.resp.bufs.total)
  | sendingFile c k => (toCome c k, 5, (c.ta.resp.bodyEnd - c.ta.resp.bodyPos + 1).toNat)
  | returned _ | aborted => (0, 0, 0)

def NoPayload (c : Client) : Prop :=
  c.ta.state = .read → c.ta.reqPayloadLen = 0 ∧ c.ta.reqPayloadPos = 0

def Point.Sound : Point → Prop
  | switch c _ => NoPayload c
  | receiving c _ _ _ => c.ta.state = .read ∧ NoPayload c
  | sending c _ => c.ta.state = .send
  | sendingFile c _ => c.ta.state = .sendFile
  | returned o => o.rc = 0 → NoPayload o.client
  | aborted => True

def Point.Falls (b : Point) (m : Nat × Nat × Nat) : Prop := b.Sound ∧ Less b.measure m

theorem Served.sound_iff {r : Served} : r.point.Sound ↔ r.Keeps NoPayload := by
  cases r <;> exact Iff.rfl

theorem NoPayload.of_state {c : Client} (other : c.ta.state ≠ .read) : NoPayload c :=
  fun state => absurd state other

section Stages

variable {s : Server} {c c' : Client} {k k' : Kernel} {n rank m : Nat}

theorem returned_falls {o : Outcome} (kept : o.rc = 0 → NoPayload o.client) (some : 0 < rank) :
    (Point.returned o).Falls (n, rank, m) :=
  ⟨kept, .second (Nat.zero_le n) some⟩

structure Drains (c : Client) (k : Kernel) (c' : Client) (k' : Kernel) : Prop where
  len : c'.ta.reqPayloadLen = c.ta.reqPayloadLen
  pos : c.ta.reqPayloadPos ≤ c'.ta.reqPayloadPos
  input : (pendingBytes k'.input).length ≤ (pendingBytes k.input).length

theorem Untouched.drains (h : Untouched c k c' k') : Drains c k c' k' :=
  ⟨h.len, Int.le_of_eq h.pos.symm, Nat.le_of_eq (by rw [h.input])⟩

theorem Drains.trans {c'' : Client} {k'' : Kernel} (h : Drains c k c' k')
    (h' : Drains c' k' c'' k'') : Drains c k c'' k'' :=
  ⟨h'.len.trans h.len, Int.le_trans h.pos h'.pos, Nat.le_trans h'.input h.input⟩

theorem Drains.toCome (h : Drains c k c' k') (before : c.ta.state ≠ .read)
    (after : c'.ta.state ≠ .read) : toCome c' k' ≤ toCome c k := by
  have pos := h.pos
  have input := h.input
  simp only [Kitserv.toCome, if_neg before, if_neg after, Client.owed, h.len]
  omega

theorem next_falls (drains : Drains c k c' k') (before : c.ta.state ≠ .read)
    (after : c'.ta.state ≠ .read) (later : 2 * c'.ta.state.ahead + 2 < rank) :
    (Point.switch c' k').Falls (toCome c k, rank, m) :=
  ⟨.of_state after, .second (drains.toCome before after) later⟩

/-- A stage from PREPARE_RESPONSE on that waits, fails or is done. -/
theorem afterOutput_falls {state : TransactionState} {o : Outcome} (here : c.ta.state = state)
    (other : state ≠ .read) (drains : Drains c k o.client o.kernel)
    (ends : o.client.ta.state = state ∨
      o.client.ta.state ≠ .read ∧ o.client.ta.state.ahead < state.ahead)
    (high : 2 * state.ahead < rank) :
    (afterOutput state o).point.Falls (toCome c k, rank, m) := by
  unfold afterOutput
  split
  · exact returned_falls (fun zero => absurd zero (by simp)) (by omega)
  · split
    · rename_i waits
      exact returned_falls (fun _ => .of_state (waits ▸ other)) (by omega)
    · rename_i goes
      obtain ⟨after, less⟩ := ends.resolve_left goes
      exact next_falls drains (here ▸ other) after (by omega)

theorem readPayloadLoop_input (c : Client) (k : Kernel) (written : Bytes) (nbytes : Nat) :
    (pendingBytes (readPayloadLoop c k written nbytes).kernel.input).length ≤
      (pendingBytes k.input).length := by
  have one {k k' : Kernel} {count : Nat} {res : ReadResult} (got : k.read count = (res, k')) :
      (pendingBytes k'.input).length ≤ (pendingBytes k.input).length := by
    rw [(read_spec got).bytes, List.length_append]
    exact Nat.le_add_left ..
  fun_induction readPayloadLoop c k written nbytes with
  | case1 => exact Nat.le_refl _
  | case2 k written nbytes give more k' got => exact one got
  | case3 k written nbytes deny more k' got => exact one got
  | case4 k written nbytes deny more code k' got => exact one got
  | case5 k written nbytes give more k' got => exact one got
  | case6 k written nbytes deny more k' got => exact one got
  | case7 k written nbytes more b bs k' got ih => exact Nat.le_trans ih (one got)

theorem readPayload_drains (c : Client) (k : Kernel) (nbytes : Nat) :
    Drains c k (readPayload c k nbytes).client (readPayload c k nbytes).kernel := by
  have looped (c : Client) (written : Bytes) (rest : Nat) :
      Drains c k (readPayloadLoop c k written rest).handOver.client
        (readPayloadLoop c k written rest).handOver.kernel := by
    obtain ⟨-, client, input, -⟩ := handOver_same (readPayloadLoop c k written rest)
    refine ⟨?_, ?_, ?_⟩
    · rw [client, readPayloadLoop_client]
      rfl
    · rw [client, readPayloadLoop_client]
      exact Int.le_refl _
    · rw [input]
      exact readPayloadLoop_input ..
  rw [readPayload_eq]
  split
  · obtain ⟨len, pos, input⟩ := looped { c with ta := { c.ta with
      reqPayloadPos := c.ta.reqPayloadPos +
        (min nbytes (c.ta.reqPayloadLen - c.ta.reqPayloadPos).toNat : Nat) } }
      (c.leftover.take nbytes) (nbytes - min nbytes (c.ta.reqPayloadLen - c.ta.reqPayloadPos).toNat)
    refine ⟨len, Int.le_trans ?_ pos, input⟩
    simp only
    omega
  · exact looped c [] nbytes

theorem parseCookies_drains (c : Client) (k : Kernel) : Drains c k (parseCookies c) k := by
  unfold parseCookies
  split
  · exact ⟨rfl, Int.le_refl _, Nat.le_refl _⟩
  · exact ⟨rfl, Int.le_refl _, Nat.le_refl _⟩

theorem drains_rule (s : Server) : CallRule s Drains where
  silent := fun h => h.drains
  trans := fun first later => first.trans later
  call := fun c k f => by
    by_cases payload : ∃ nbytes, f = .readPayload nbytes
    · obtain ⟨nbytes, rfl⟩ := payload
      exact readPayload_drains c k nbytes
    · by_cases cookies : ∃ key keylen, f = .getRequestCookieN key keylen
      · obtain ⟨key, keylen, rfl⟩ := cookies
        simp only [apiCall, getRequestCookieN]
        split
        · exact (Untouched.rfl' c k).drains
        · exact parseCookies_drains c k
      · simp only [not_exists] at cookies
        exact (apiCall_untouched s c k (not_exists.mp payload) cookies).drains

theorem serveRequest_falls (state : c.ta.state = .serve) :
    (serveStep s c k).point.Falls (toCome c k, 12, m) := by
  cases served : serveRequest s c k with
  | none =>
    have step : serveStep s c k = .abort := by simp only [serveStep, state, served]
    rw [step]
    exact ⟨trivial, .second (Nat.zero_le _) (by decide)⟩
  | some o =>
    rcases serveStep_serve state served with ⟨waits, step⟩ | ⟨prepares, step⟩
    · rw [step]
      exact returned_falls (fun _ => .of_state (by simp [waits])) (by decide)
    · rw [step]
      refine next_falls ((drains_rule s).served served) (by simp [state]) (by simp [prepares]) ?_
      simp only [prepares, TransactionState.ahead]
      decide

theorem prepareResponse_falls (state : c.ta.state = .prepareResponse) :
    (serveStep s c k).point.Falls (toCome c k, 10, m) := by
  cases prepared : prepareResponse c k with
  | none =>
    have step : serveStep s c k = .abort := by simp only [serveStep, state, prepared]
    rw [step]
    exact ⟨trivial, .second (Nat.zero_le _) (by decide)⟩
  | some o =>
    rcases serveStep_prepareResponse (s := s) state prepared with ⟨rc, step⟩ | ⟨rc, step⟩
    · rw [step]
      exact returned_falls (fun zero => absurd zero (by simp)) (by decide)
    · have sends : o.client.ta.state = .send := by
        obtain ⟨rc', c', k'⟩ := o
        cases rc
        obtain ⟨c₁, buf, n, ready⟩ := prepareResponse_ready prepared
        rw [ready]
        rfl
      have logged := (prepareResponse_untouched prepared).trans
        (logTransaction_untouched s o.client o.kernel)
      rw [step]
      refine next_falls logged.drains (by simp [state]) (by simp [sends]) ?_
      simp only [sends, TransactionState.ahead]
      decide

/-- What is left of the payload is the start of the next head. -/
theorem finalizeTransaction_falls (state : c.ta.state = .done) :
    (serveStep s c k).point.Falls (toCome c k, 4, m) := by
  rw [serveStep_done state]
  cases finalized : finalizeTransaction c k with
  | none => exact ⟨trivial, .second (Nat.zero_le _) (by decide)⟩
  | some r =>
    simp only [finalizeTransaction] at finalized
    split at finalized
    · cases finalized
      refine ⟨fun _ => ⟨rfl, rfl⟩, .second (Nat.le_of_eq ?_) (show 2 < 4 by decide)⟩
      simp [toCome, state, Client.owed, cleanupClient, Kernel.emit, Kernel.realloc]
    · cases finalized

theorem sendFileDone_untouched (c : Client) (k : Kernel) :
    Untouched c k (sendFileDone c k).client (sendFileDone c k).kernel :=
  .silent rfl rfl rfl rfl rfl rfl rfl

theorem sendFileStage_falls {o : Outcome} (state : c.ta.state = .sendFile)
    (untouched : Untouched c k o.client o.kernel)
    (ends : o.client.ta.state = .sendFile ∨ o.client.ta.state = .done) (high : 4 < rank) :
    (afterOutput .sendFile o).point.Falls (toCome c k, rank, m) := by
  refine afterOutput_falls state (by decide) untouched.drains (ends.imp_right fun done => ?_) high
  simp [done, TransactionState.ahead]

end Stages

section Recv

variable {c : Client} {k : Kernel} {p r : Option Nat}

theorem parse_empty (state : ParseState) (mem : Bytes) (req : Request) (p r : Nat) :
    ∃ state' mem' req' p' r', parse 0 state mem req p r = .readMore state' mem' req' p' r' := by
  by_cases started : state = .new
  · have first : parseStep 0 .new mem req p r = .goto .reqMethod mem req 0 0 := rfl
    rw [started, parse_eq, first]
    exact ⟨_, _, _, _, _, parse_stuck (by decide) mem req (Nat.zero_le 0)⟩
  · exact ⟨_, _, _, _, _, parse_stuck started mem req (Nat.zero_le r)⟩

theorem parse_finish_pos {len : Nat} {state : ParseState} {mem mem' : Bytes} {req req' : Request}
    {p r p' : Nat} (h : parse len state mem req p r = .finish mem' req' p') : 0 < p' := by
  fun_induction parse len state mem req p r with
  | case1 _ _ _ _ _ _ _ _ _ _ _ ih => exact ih h
  | case2 => cases h
  | case3 state mem req p r mem₁ req₁ p₁ step =>
    cases h
    cases parseStep_finish step
    simp only [parseStep, reqHeadLf] at step
    split at step
    · cases step
    · split at step
      · cases step
      · split at step
        · cases step
        · cases step
          exact Nat.succ_pos r
  | case4 => cases h

def Round.Falls (n : Nat) : Round → Prop
  | stop o => ∀ m, (afterStage .read o).point.Falls (n, 1, m)
  | again c k _ _ => c.ta.state = .read ∧ NoPayload c ∧ toCome c k = n

theorem afterStage_refuses {o : Outcome} (rc : o.rc = -1)
    (answered : o.client.ta.resp.status ≠ .xHangup) :
    afterStage .read o = .next (o.client.setState .prepareResponse) o.kernel := by
  rw [afterStage, if_pos (by simp [rc]), if_neg answered]

theorem recvParse_falls (state : c.ta.state = .read) (none : NoPayload c) :
    (recvParse c k p r).Falls (toCome c k) := by
  obtain ⟨len, pos⟩ := none state
  have filled (more : ∀ state' mem' req' p' r', parse c.reqHeadersLen c.ta.parseState c.reqHeaders
      c.ta.req (p.getD 0) (r.getD 0) ≠ .readMore state' mem' req' p' r') : 0 < c.reqHeadersLen := by
    apply Nat.pos_of_ne_zero
    intro empty
    obtain ⟨state', mem', req', p', r', reads⟩ :=
      parse_empty c.ta.parseState c.reqHeaders c.ta.req (p.getD 0) (r.getD 0)
    exact more state' mem' req' p' r' (by rw [empty]; exact reads)
  unfold recvParse
  split
  · exact ⟨state, none, by simp [toCome, state]⟩
  · rename_i mem req p' parsed
    intro m
    have some := filled fun _ _ _ _ _ => by simp [parsed]
    have behind := parse_finish_pos parsed
    have left : (((c.reqHeadersLen : Int) - p') - c.ta.reqPayloadPos).toNat < c.reqHeadersLen := by
      omega
    refine ⟨.of_state (by simp), .first ?_⟩
    simp only [toCome, state, Client.owed, Kernel.emit]
    simpa using left
  · rename_i mem req status parsed
    intro m
    have some := filled fun _ _ _ _ _ => by simp [parsed]
    have answered : status ≠ .xHangup := by
      rcases parse_status parsed with rfl | rfl | rfl <;> simp
    rw [afterStage_refuses rfl answered]
    refine ⟨.of_state (by simp [Client.setState]), .first ?_⟩
    simp only [toCome, state, Client.owed, Client.setState, len, pos]
    simpa using some

theorem recvRound_falls (state : c.ta.state = .read) (none : NoPayload c) :
    (recvRound c k p r).Falls (toCome c k) := by
  -- a read moves bytes from the socket to the buffer
  have read {k' : Kernel} {res : ReadResult} (got : k.read (httpBufsz - c.reqHeadersLen) = (res, k')) :
      (pendingBytes k.input).length = res.bytes.length + (pendingBytes k'.input).length := by
    rw [(read_spec got).bytes, List.length_append]
  have hangs {k' : Kernel} : Round.Falls (toCome c k)
      (.stop { rc := -1, client := c.setStatus .xHangup, kernel := k' }) := by
    intro m
    rw [afterStage_hangup (by simp) rfl]
    exact returned_falls (fun zero => absurd zero (by simp)) Nat.one_pos
  have again {k' : Kernel} (same : (pendingBytes k'.input).length = (pendingBytes k.input).length) :
      (recvParse c k' p r).Falls (toCome c k) := by
    have whole : toCome c k' = toCome c k := by rw [toCome, toCome, same]
    exact whole ▸ recvParse_falls state none
  unfold recvRound
  split
  · rename_i k' got
    split
    · intro m
      rw [afterStage, if_neg (by simp), if_pos state]
      exact returned_falls (fun _ => none) Nat.one_pos
    · exact again (by rw [read got]; simp [ReadResult.bytes])
  · exact hangs
  · rename_i k' got
    split
    · rename_i full
      split
      · intro m
        obtain ⟨len, pos⟩ := none state
        have some : 0 < c.reqHeadersLen := Nat.lt_of_lt_of_le (by decide) full
        rw [afterStage_refuses rfl (by simp [Client.setStatus])]
        refine ⟨.of_state (by simp [Client.setState]), .first ?_⟩
        simp only [toCome, state, Client.owed, Client.setState, Client.setStatus, len, pos, read got]
        simp only [ReadResult.bytes, List.length_nil, Nat.zero_add, reduceCtorEq, if_false, if_true]
        simpa using some
      · exact again (by rw [read got]; simp [ReadResult.bytes])
    · exact hangs
  · rename_i b bs k' got
    have whole : toCome { c with
        reqHeaders := overwrite c.reqHeaders c.reqHeadersLen (b :: bs)
        reqHeadersLen := c.reqHeadersLen + (b :: bs).length } k' = toCome c k := by
      simp only [toCome, state, if_true, read got, ReadResult.bytes]
      omega
    exact whole ▸ recvParse_falls state none

end Recv

section Step

variable {s : Server} {c : Client} {k k' : Kernel} {rank : Nat}

theorem Kernel.Drifts.toCome (world : k.Drifts k') (c : Client) : toCome c k' = toCome c k := by
  rw [Kitserv.toCome, Kitserv.toCome, world.bytes]

theorem enterCase_falls (none : NoPayload c) :
    (enterCase s c k).Falls (Point.switch c k).measure := by
  simp only [Point.measure]
  cases state : c.ta.state with
  | read =>
    rw [enterCase, state]
    exact ⟨⟨state, none⟩, .second (Nat.le_refl _) (show 1 < 2 by decide)⟩
  | serve =>
    rw [enterCase, state]
    exact serveRequest_falls state
  | prepareResponse =>
    rw [enterCase, state]
    exact prepareResponse_falls state
  | send =>
    rw [enterCase, state]
    exact ⟨state, .second (Nat.le_refl _) (show 7 < 8 by decide)⟩
  | sendFile =>
    simp only [enterCase, state]
    split
    · exact ⟨state, .second (Nat.le_refl _) (show 5 < 6 by decide)⟩
    · exact sendFileStage_falls state (sendFileDone_untouched c k) (.inr rfl) (by decide)
  | done =>
    rw [enterCase, state]
    exact finalizeTransaction_falls state

theorem recvStep_falls {p r : Option Nat} (state : c.ta.state = .read) (none : NoPayload c) :
    (recvRound c k p r).point.Falls (Point.receiving c k p r).measure := by
  have falls := recvRound_falls (k := k) (p := p) (r := r) state none
  cases round : recvRound c k p r with
  | stop o =>
    rw [round] at falls
    exact falls _
  | again c' k' p' r' =>
    rw [round] at falls
    obtain ⟨state', none', same⟩ := falls
    exact ⟨⟨state', none'⟩, .third (Nat.le_of_eq same) (recvRound_decreases round)⟩

/-- A writev that is not the last one leaves fewer bytes to send. -/
theorem writevAnswer_falls (state : c.ta.state = .send) {t : Transfer}
    (moves : t.Moves c.ta.resp.bufs.total) :
    (writevAnswer c k t).Falls (Point.sending c k).measure := by
  have stays (t : Transfer) : (afterOutput .send
      { rc := 0, client := c, kernel := k.emit (.socketWrite t) }).point.Falls
        (Point.sending c k).measure :=
    afterOutput_falls state (by decide) (Untouched.emit c k rfl).drains (.inl state) (by decide)
  cases t with
  | wouldBlock | failed => exact stays _
  | bytes n =>
    simp only [writevAnswer]
    have bound := @length_describedBytes k.outside c
    generalize describedBytes k.outside c = data at bound
    have moved : Untouched c k (c.setBufs (c.ta.resp.bufs.advance (min n data.length)).1)
        ((k.emit (.socketWrite (.bytes (min n data.length)))).emit
          (.sent (data.take (min n data.length)))) :=
      (Untouched.emit c k rfl).trans ((Untouched.emit c _ rfl).trans
        (.silent rfl rfl rfl rfl rfl rfl rfl))
    split
    · refine afterOutput_falls state (by decide) (moved.trans ?_).drains (.inr ?_) (by decide)
      · exact .silent rfl rfl rfl rfl rfl rfl rfl
      · exact ⟨by simp [Client.setState], show 2 < 3 by decide⟩
    · rename_i more
      have more : (c.ta.resp.bufs.advance (min n data.length)).2 = false := by simpa using more
      have less := advance_total more
      have some : c.ta.resp.bufs.total ≠ 0 := by
        intro nothing
        have all := @advance_all c.ta.resp.bufs
        rw [bound, nothing, Nat.min_zero] at more
        rw [nothing, more] at all
        cases all
      have sent := moves n rfl some
      refine ⟨state, .third (moved.drains.toCome (by simp [state]) (by simp [Client.setBufs, state]))
        ?_⟩
      simp only [Client.setBufs]
      omega

/-- A sendfile that is not the last one moves the position towards the end. -/
theorem sendfileAnswer_falls (state : c.ta.state = .sendFile) (t : Transfer) :
    (sendfileAnswer c k t).Falls (Point.sendingFile c k).measure := by
  have fails (rc : Int) (t : Transfer) :
      (afterOutput .sendFile (sendFileLoop.failed c rc (k.emit (.socketSendfile t)))).point.Falls
        (Point.sendingFile c k).measure := by
    have ends := (sendFileFailed_ends c rc (k.emit (.socketSendfile t))).state
    exact sendFileStage_falls state (sendFileFailed_untouched c k k.sendfiles t rc)
      (ends.imp (·.trans state) And.left) (by decide)
  cases t with
  | wouldBlock => exact fails 0 .wouldBlock
  | failed code => exact fails (-1) (.failed code)
  | bytes n =>
    simp only [sendfileAnswer]
    generalize min n (toSizeT (c.ta.resp.bodyEnd - c.ta.resp.bodyPos + 1)) = taken
    have moved : Untouched c k { c with ta := { c.ta with resp := { c.ta.resp with
        bodyPos := c.ta.resp.bodyPos + taken } } }
        ((k.emit (.socketSendfile (.bytes taken))).emit
          (.sentFile c.ta.resp.fd c.ta.resp.bodyPos taken)) :=
      (Untouched.emit c k rfl).trans ((Untouched.emit c _ rfl).trans
        (.silent rfl rfl rfl rfl rfl rfl rfl))
    split
    · exact sendFileStage_falls state (moved.trans (sendFileClose_untouched ..)) (.inr rfl)
        (by decide)
    · split
      · exact sendFileStage_falls state (moved.trans (sendFileDone_untouched ..)) (.inr rfl)
          (by decide)
      · rename_i inside some
        refine ⟨state, .third (moved.drains.toCome (by simp [state]) (by simp [state])) ?_⟩
        simp only
        omega

theorem callStep_falls {a b : Point} (sound : a.Sound) (step : CallStep s a b) :
    b.Falls a.measure := by
  cases step with
  | @switch c k k' world =>
    have falls : (enterCase s c k').Falls (Point.switch c k').measure := enterCase_falls sound
    rwa [Point.measure, world.toCome] at falls
  | @read c k k' p r world =>
    have falls : (recvRound c k' p r).point.Falls (Point.receiving c k' p r).measure :=
      recvStep_falls sound.1 sound.2
    rwa [Point.measure, world.toCome] at falls
  | @writev c k k' world t moves =>
    have falls : (writevAnswer c k' t).Falls (Point.sending c k').measure :=
      writevAnswer_falls sound moves
    rwa [Point.measure, world.toCome] at falls
  | @sendfile c k k' world t =>
    have falls : (sendfileAnswer c k' t).Falls (Point.sendingFile c k').measure :=
      sendfileAnswer_falls sound t
    rwa [Point.measure, world.toCome] at falls

end Step

section Reachable

variable {s : Server} {c : Client}

theorem recvLoop_keepsNoPayload (c : Client) (k : Kernel) (p r : Option Nat)
    (state : c.ta.state = .read) (none : NoPayload c) :
    (afterStage .read (recvLoop c k p r)).Keeps NoPayload := by
  fun_induction recvLoop c k p r with
  | case1 c k p r o round =>
    have falls := recvRound_falls (k := k) (p := p) (r := r) state none
    rw [round] at falls
    exact Served.sound_iff.mp (falls 0).1
  | case2 c k p r c' k' p' r' round ih =>
    have falls := recvRound_falls (k := k) (p := p) (r := r) state none
    rw [round] at falls
    exact ih falls.1 falls.2.1

theorem serveStep_keepsNoPayload (k : Kernel) (none : NoPayload c) :
    (serveStep s c k).Keeps NoPayload := by
  cases state : c.ta.state with
  | read =>
    have step : serveStep s c k = afterStage .read (recvRequest c k) := by rw [serveStep, state]
    rw [step]
    exact recvLoop_keepsNoPayload c k _ _ state none
  | serve => exact Served.sound_iff.mp (serveRequest_falls (m := 0) state).1
  | prepareResponse => exact Served.sound_iff.mp (prepareResponse_falls (m := 0) state).1
  | send =>
    rcases serveStep_send s k state with ⟨waits, step⟩ | ⟨goes, step⟩
    · rw [step]
      exact fun _ => .of_state (by simp [waits])
    · rw [step]
      exact .of_state (by simp [goes])
  | sendFile =>
    rcases serveStep_sendFile s k state with ⟨rc, step⟩ | ⟨rc, waits, step⟩ | ⟨rc, done, step⟩
    · rw [step]
      exact fun zero => absurd zero (by simp)
    · rw [step]
      exact fun _ => .of_state (by simp [waits])
    · rw [step]
      exact .of_state (by simp [done])
  | done => exact Served.sound_iff.mp (finalizeTransaction_falls (m := 0) state).1

/-- A client that a connection of the server can have: a new one, what a case of the switch leaves of
one, and one that has been reset for the next connection. -/
inductive Reachable (s : Server) : Client → Prop where
  | created (blocks : Blocks) : Reachable s (createClientStruct blocks)
  | next {c c' : Client} {k k' : Kernel} (before : Reachable s c)
      (step : serveStep s c k = .next c' k') : Reachable s c'
  | waits {c : Client} {k : Kernel} {o : Outcome} (before : Reachable s c)
      (step : serveStep s c k = .back o) (rc : o.rc = 0) : Reachable s o.client
  | reset {c : Client} {k : Kernel} {o : Outcome} (before : Reachable s c)
      (step : serveStep s c k = .back o) : Reachable s (resetClient o.client o.kernel).1

theorem Reachable.noPayload (reached : Reachable s c) : NoPayload c := by
  induction reached with
  | created => exact fun _ => ⟨rfl, rfl⟩
  | @next c c' k k' _ step ih =>
    have kept := serveStep_keepsNoPayload (s := s) k ih
    rwa [step] at kept
  | @waits c k o _ step rc ih =>
    have kept := serveStep_keepsNoPayload (s := s) k ih
    rw [step] at kept
    exact kept rc
  | reset => exact fun _ => ⟨rfl, rfl⟩

/-- A connection only meets reachable clients. -/
theorem run_reachable (n : Nat) (k : Kernel) (reached : Reachable s c) :
    (Conn.run s n (.serving c k)).Keeps (Reachable s) := by
  refine run_keeps n (fun c k before => ?_) reached
  cases step : serveStep s c k with
  | next c' k' => exact before.next step
  | back o => exact fun rc => before.waits step rc
  | abort => trivial

/-- `kitserv_http_serve_client` returns: along every sequence of its steps from a reachable client,
in any worlds with finitely many bytes to come, there is a last one. -/
theorem serve_client_returns (reached : Reachable s c) (k : Kernel) {path : Nat → Point}
    (start : path 0 = .switch c k) (follows : Paths.Follows (CallStep s) (·.over = true) path) :
    ∃ i, (path i).over = true := by
  refine Paths.ends_of_falling Paths.less_wf Point.measure
    (fun a b sound step => callStep_falls sound step) ?_ follows
  rw [start]
  exact reached.noPayload

def promptStep (s : Server) : Point → Point
  | .switch c k => enterCase s c k
  | .receiving c k p r => (recvRound c k p r).point
  | .sending c k => writevAnswer c k (.bytes c.ta.resp.bufs.total)
  | .sendingFile c k =>
    sendfileAnswer c k (.bytes (c.ta.resp.bodyEnd - c.ta.resp.bodyPos + 1).toNat)
  | .returned o => .returned o
  | .aborted => .aborted

theorem promptStep_follows (s : Server) (a : Point) :
    Paths.Follows (CallStep s) (·.over = true) fun i => (promptStep s)^[i] a := by
  intro i
  simp only [Function.iterate_succ_apply']
  cases (promptStep s)^[i] a with
  | switch c k => exact .inr (.switch (.rfl' k))
  | receiving c k p r => exact .inr (.read p r (.rfl' k))
  | sending c k =>
    have moves : (Transfer.bytes c.ta.resp.bufs.total).Moves c.ta.resp.bufs.total := by
      rintro n ⟨⟩ some
      exact some
    exact .inr (CallStep.writev (.rfl' k) moves)
  | sendingFile c k =>
    have moves := CallStep.sendfile (s := s) (c := c) (.rfl' k)
      (.bytes (c.ta.resp.bodyEnd - c.ta.resp.bodyPos + 1).toNat)
    exact .inr moves
  | returned | aborted => exact .inl rfl

def twoRequests : Kernel where
  input := [.chunk 71 (ascii "ET / HTTP/1.1\r\n\r\nGET / HTTP/1.1\r\n\r\n")]
  fs _ := .empty

theorem serve_client_returns_prompt : ∃ i, ((promptStep rootServer)^[i]
    (.switch (createClientStruct Blocks.zeroed) twoRequests)).over = true :=
  serve_client_returns (.created Blocks.zeroed) twoRequests rfl (promptStep_follows rootServer _)

end Reachable

end Kitserv
