import Kitserv.Independence
import Kitserv.Pipelining
import Kitserv.StaticView
import Kitserv.Wire

/-! A connection of a server without an API is a function of the bytes that it gets: the responses to the
heads in them, one behind the other, up to the first response that closes the connection. -/
namespace Kitserv

open Memory

def accepted (mem : Bytes) (req : Request) : Client :=
  { createClientStruct .zeroed with
    reqHeaders := mem ++ List.replicate (httpBufsz - mem.length) 0
    ta := { state := .serve, req := req } }

def rejected (req : Request) (status : HttpStatus) : Client :=
  { createClientStruct .zeroed with
    ta := { state := .prepareResponse, req := req, resp := { status := status } } }

def servedHead (s : Server) (files : FileSystem) (mem : Bytes) (req : Request) : Client :=
  (serveStatic s (accepted mem req) { fs := fun _ => files }).client

def Client.closes (c : Client) : Bool := c.ta.resp.status.isError || c.ta.req.version == .http10

/-- The bytes that a stream gets for an answer, if the descriptors of `files` hold `held`. -/
def session (s : Server) (files : FileSystem) (held : Int → Bytes) (stream : Bytes) : Bytes :=
  match _head : headEnd (stream.take httpBufsz) with
  | .finish mem req p =>
    let r := servedHead s files mem req
    staticResponse held r ++ if r.closes then [] else session s files held (stream.drop p)
  | .fail _ req status => staticResponse held (rejected req status)
  | .readMore _ _ req _ _ =>
    if httpBufsz ≤ stream.length then
      staticResponse held (rejected req .http431RequestHeaderFieldsTooLarge)
    else []
termination_by stream.length
decreasing_by
  obtain ⟨-, nonempty, inside, -⟩ := headEnd_tail _head
  rw [List.length_take] at inside
  rw [List.length_drop]
  omega

section Heads

variable {s : Server} {files : FileSystem} {held : Int → Bytes} {h v w rest mem : Bytes} {req : Request}
  {p : Nat}

/-- A head that has been accepted ends where the parser has stopped, whatever stands behind it. -/
theorem headEnd_exact (done : headEnd w = .finish mem req p) : ∃ mem',
    headEnd (w.take p) = .finish mem' req (w.take p).length ∧ mem = mem' ++ w.drop p := by
  have inside := (headEnd_tail done).inside
  have size : (w.take p).length = p := by rw [List.length_take, Nat.min_eq_left inside]
  have longer := headEnd_append (w.take p) (w.drop p)
  rw [List.take_append_drop, done] at longer
  cases early : headEnd (w.take p) with
  | finish mem' req' p' =>
    simp only [early] at longer
    cases longer
    exact ⟨mem', by rw [size], rfl⟩
  | fail mem' req' status =>
    simp only [early] at longer
    cases longer
  | readMore state mem' req' q r =>
    exfalso
    have resumes := headEnd_resume (w.take p) (w.drop p) (n := w.length) (by omega)
    unfold Resumes at resumes
    rw [headEnd] at early
    simp only [early] at resumes
    obtain ⟨started, length, before, rfl, same⟩ := resumes
    have whole : (mem' ++ w.drop p).length = w.length := by
      rw [List.length_append, length, ← List.length_append, List.take_append_drop]
    rw [List.take_append_drop] at same
    rw [headEnd, same, ← whole] at done
    have later := (parse_tail before (by omega) done).1.resolve_left started
    omega

theorem accepted_read (short : mem.length ≤ httpBufsz) (longer : v <+: mem) :
    HeadRead v req (createClientStruct .zeroed) (accepted mem req) := by
  obtain ⟨t, rfl⟩ := longer
  refine ⟨rfl, rfl, ?_, ?_⟩
  · simp only [accepted, List.append_assoc]
    exact List.take_left
  · simp only [accepted]
    rw [List.length_append, List.length_replicate]
    omega

theorem sameFiles_self (files : FileSystem) (held : Int → Bytes) :
    SameFiles held held { fs := fun _ => files } { fs := fun _ => files } := by
  refine ⟨fun _ _ _ => rfl, fun _ _ path => ?_⟩
  simp only
  cases files.openRdonly path with
  | ok fd => exact rfl
  | error e => exact rfl

theorem closes_twins {c c' : Client} {content content' : Int → Bytes}
    (twins : Twins content content' c c') : c'.closes = c.closes := by
  rw [Client.closes, Client.closes, twins.status, twins.req]

theorem accepted_answerable (head : headEnd h = .finish v req h.length) (fits : h.length ≤ httpBufsz)
    (read : HeadRead v req (createClientStruct .zeroed) (accepted mem req)) :
    Answerable (accepted mem req) := by
  have size : httpBufsz ≤ Blocks.zeroed.respBody.length := Nat.le_of_eq Blocks.zeroed.respBody_len.symm
  exact read.answerable head fits ⟨Blocks.zeroed.respStart_len, ⟨Int.ofNat_le.mpr size, size⟩⟩
    Blocks.zeroed.respHeaders_len rfl

/-- What stands behind a head does not matter to its response. -/
theorem servedHead_front (head : headEnd h = .finish v req h.length) (fits : h.length ≤ httpBufsz)
    (short : mem.length ≤ httpBufsz) (longer : v <+: mem) :
    Twins held held (servedHead s files v req) (servedHead s files mem req) := by
  have length := (headEnd_tail head).length
  have read : HeadRead v req _ (accepted v req) :=
    accepted_read (length ▸ fits) (List.prefix_refl v)
  have read' : HeadRead v req _ (accepted mem req) := accepted_read short longer
  exact serveStatic_twins (read.twins read' head (accepted_answerable head fits read)
    (accepted_answerable head fits read') held held) (sameFiles_self files held) rfl s

theorem session_accepted (rest : Bytes) (head : headEnd h = .finish v req h.length)
    (fits : h.length ≤ httpBufsz) : session s files held (h ++ rest) =
      staticResponse held (servedHead s files v req) ++
        if (servedHead s files v req).closes then [] else session s files held rest := by
  have length := (headEnd_tail head).length
  have longer := headEnd_longer (rest.take (httpBufsz - h.length)) head
  rw [← take_append_room fits] at longer
  have short : (v ++ rest.take (httpBufsz - h.length)).length ≤ httpBufsz := by
    rw [List.length_append, List.length_take]
    omega
  have twins := @servedHead_front s files held h v _ req head fits short (List.prefix_append ..)
  rw [session]
  split
  · rename_i mem' req' p' found
    cases longer.symm.trans found
    simp only
    rw [staticResponse_twins twins, closes_twins twins, List.drop_left]
  · rename_i found
    cases longer.symm.trans found
  · rename_i found
    cases longer.symm.trans found

theorem session_rejected {status : HttpStatus} (rest : Bytes) (room : v.length ≤ httpBufsz)
    (head : headEnd v = .fail mem req status) :
    session s files held (v ++ rest) = staticResponse held (rejected req status) := by
  have longer := headEnd_append v (rest.take (httpBufsz - v.length))
  rw [head, ← take_append_room room] at longer
  rw [session]
  split
  · rename_i found
    cases longer.symm.trans found
  · rename_i found
    cases longer.symm.trans found
    rfl
  · rename_i found
    cases longer.symm.trans found

theorem session_undecided {state : ParseState} {q r : Nat} (rest : Bytes)
    (head : headEnd v = .readMore state mem req q r)
    (full : v.length = httpBufsz ∨ v.length < httpBufsz ∧ rest = []) :
    session s files held (v ++ rest) = if v.length = httpBufsz then
      staticResponse held (rejected req .http431RequestHeaderFieldsTooLarge) else [] := by
  have first : (v ++ rest).take httpBufsz = v := by
    rcases full with full | ⟨short, rfl⟩
    · rw [← full, List.take_left]
    · rw [List.append_nil, List.take_of_length_le (Nat.le_of_lt short)]
  rw [← first] at head
  rw [session]
  split
  · rename_i found
    cases head.symm.trans found
  · rename_i found
    cases head.symm.trans found
  · rename_i found
    cases head.symm.trans found
    refine if_congr ?_ rfl rfl
    rw [List.length_append]
    rcases full with full | ⟨short, rfl⟩
    · omega
    · rw [List.length_nil]
      omega

end Heads

section Kernels

variable {k k' k'' : Kernel}

theorem Kernel.OnlySent.calm (h : k.OnlySent k') : k.Calm k' := by
  constructor <;> rw [h]

theorem calm_rule : PrepareRule fun _ k _ k' => k.Calm k' where
  refl _ _ := ⟨rfl, rfl, rfl⟩
  trans := .trans
  line _ _ := ⟨rfl, rfl, rfl⟩
  header _ _ _ _ := ⟨rfl, rfl, rfl⟩
  emptyLine _ _ := ⟨rfl, rfl, rfl⟩
  unended _ _ := ⟨rfl, rfl, rfl⟩
  describe _ _ := ⟨rfl, rfl, rfl⟩
  wipe _ _ := ⟨rfl, rfl, rfl⟩
  drop c k := closeFdToZero_calm k c.ta.resp.fd
  texts c k texts := by
    have appended := (appendTexts_spec c k texts).kernel
    constructor <;> rw [appended]

theorem logTransaction_calm (s : Server) (c : Client) (k : Kernel) : k.Calm (logTransaction s c k) := by
  unfold logTransaction
  split <;> exact ⟨rfl, rfl, rfl⟩

theorem logTransaction_outside (s : Server) (c : Client) (k : Kernel) :
    (logTransaction s c k).outside = k.outside := by
  unfold logTransaction
  split <;> rfl

end Kernels

section Prepared

variable {s : Server} {method : HttpMethod} {size : Int} {content content' : Int → Bytes}
  {status : HttpStatus} {req : Request} {c c' r : Client} {k k' : Kernel}

/-- A response that can be prepared has the status and the request of its transaction. -/
theorem Presented.answers (p : Presented method size c)
    (prepared : prepareResponse c k = some { rc := 0, client := r, kernel := k' }) :
    r.ta.resp.status = c.ta.resp.status ∧ r.ta.req = c.ta.req := by
  simp only [prepareResponse] at prepared
  split at prepared
  · cases prepared
  split at prepared
  · obtain ⟨⟨e, r', canned, client, headers⟩, -⟩ := errorResponse_spec p.headers p.keep prepared rfl
    simp only at client
    rw [client, headers.same, canned.same]
    exact ⟨rfl, rfl⟩
  · rename_i good
    have short := p.short
    have room : c.headerBlock.length + 58 < httpBufsz := by
      have large : httpBufsz = 4096 := rfl
      omega
    have small : (announcedLength c).natAbs < 2 ^ 64 := by
      obtain ⟨low, high, least, most, -⟩ := p.ranged (by simpa using good)
      have len := p.len
      unfold announcedLength
      split <;> omega
    obtain ⟨r', success, headers⟩ := prepareSuccess_room p.headers room small
    simp only [success, if_true] at prepared
    cases prepared
    rw [headers.same]
    exact ⟨rfl, rfl⟩

def HeadStatus (status : HttpStatus) : Prop :=
  ParseStatus status ∨ status = .http431RequestHeaderFieldsTooLarge

theorem HeadStatus.text (h : HeadStatus status) : status.isError = true ∧ status ≠ .xHangup ∧
    ∃ text : Bytes, text.length < httpBufsz ∧
      ∀ c : Client, c.ta.resp.status = status → errorBodyTexts c = some [text] := by
  rcases h with (rfl | rfl | rfl) | rfl
  all_goals
    refine ⟨rfl, (by rintro ⟨⟩), ?_⟩
    simp only [errorBodyTexts]
    refine ⟨_, ?_, fun c same => by rw [same]⟩
    decide

structure HeadRefused (req : Request) (status : HttpStatus) (c : Client) : Prop where
  refuses : HeadStatus status
  state : c.ta.state = .prepareResponse
  req : c.ta.req = req
  resp : c.ta.resp = { status := status }
  flags : c.ta.api.allowFlags = 0

theorem rejected_refused (refuses : HeadStatus status) : HeadRefused req status (rejected req status) :=
  ⟨refuses, rfl, rfl, rfl, rfl⟩

/-- Its response depends on nothing else. -/
theorem HeadRefused.same (h : HeadRefused req status c) (h' : HeadRefused req status c') :
    staticResponse content' c' = staticResponse content c := by
  obtain ⟨error, -, text, -, known⟩ := h.refuses.text
  have texts := known c (by rw [h.resp])
  have texts' := known c' (by rw [h'.resp])
  simp only [staticResponse, cannedBlock, allowBlock, cannedLength, cannedBody, h.resp, h'.resp, h.req,
    h'.req, h.flags, h'.flags, error, texts, texts', if_true, Bool.false_eq_true, if_false]

/-- A client between two transactions that can still prepare a response to a head it refuses. -/
theorem HeadRefused.prepared (h : HeadRefused req status c) (sizes : FirstSizes c)
    (headers : c.respHeaders.length = httpBufsz) (empty : c.respBody.len = 0)
    (buffer : c.reqHeaders.length = httpBufsz) :
    Presented req.method 0 c ∧ ∃ r l, prepareResponse c k = some { rc := 0, client := r, kernel := l } ∧
      ∀ outside, responseBytes outside content r = staticResponse content' (rejected req status) := by
  obtain ⟨error, alive, text, short, known⟩ := h.refuses.text
  have same : c.ta.resp.status = status := by rw [h.resp]
  have none : c.ta.resp.bufs = {} ∧ c.ta.resp.preserveBodyOnError = false := by
    rw [h.resp]
    exact ⟨rfl, rfl⟩
  have block : c.headerBlock = [] := by
    rw [Client.headerBlock, none.1]
    exact List.take_zero
  have presented : Presented req.method 0 c := by
    refine ⟨⟨headers, by rw [none.1]; decide⟩, by rw [block]; exact Nat.zero_le _, by rw [none.1],
      none.2, Nat.le_of_eq buffer, by rw [empty]; decide, fun good => ?_, .inl (by rw [h.req])⟩
    rw [same, error] at good
    cases good
  obtain ⟨r, l, prepared, bytes⟩ := @Presented.canned_bytes content _ _ c k [text] presented
    sizes.start (same ▸ alive) (same ▸ error) sizes.body h.flags (known c same) (by simpa using short)
  refine ⟨presented, r, l, prepared, fun outside => ?_⟩
  rw [bytes]
  exact HeadRefused.same (rejected_refused h.refuses) h

end Prepared

section Receive

variable {c : Client} {k : Kernel} {v : Bytes} {p r : Option Nat}

theorem recvParse_request (h : Entry v c p r) (k : Kernel) :
    (recvParse c k p r).client.ta.req = (headEnd v).req := by
  have start := h.same (c.reqHeaders.drop v.length) v.length (Nat.le_refl _)
  rw [List.take_append_drop] at start
  rw [(recvParse_parsed c k p r).2.1, h.fill, start, (headEnd_behind v _).2]

def Client.Asks (c : Client) (v : Bytes) : Prop := c.ta.req = (headEnd v).req

theorem recvRound_request (h : Progress v c p r) (known : r = none ∨ c.Asks v) (k : Kernel) :
    ∃ taken, pendingBytes k.input = taken ++ pendingBytes (recvRound c k p r).kernel.input ∧
      ((recvRound c k p r).client.ta.resp.status = .xHangup ∨
        (recvRound c k p r).client.Asks (v ++ taken)) := by
  have keep : v ++ [] = v := List.append_nil v
  have past (stuck : parsePastEnd c r = true) : c.Asks v :=
    known.resolve_left fun null => by rw [null] at stuck; cases stuck
  unfold recvRound
  rcases result : k.read (httpBufsz - c.reqHeadersLen) with ⟨res, k'⟩
  have spec := read_spec result
  have cascade (none : res.bytes = []) :
      ∃ taken, pendingBytes k.input = taken ++ pendingBytes (recvParse c k' p r).kernel.input ∧
        ((recvParse c k' p r).client.ta.resp.status = .xHangup ∨
          (recvParse c k' p r).client.Asks (v ++ taken)) := by
    refine ⟨[], ?_, .inr (keep.symm ▸ recvParse_request h.toEntry k')⟩
    rw [(recvParse_parsed c k' p r).2.2, ← none]
    exact spec.bytes
  cases res with
  | wouldBlock =>
    simp only
    split
    · rename_i stuck
      exact ⟨[], spec.bytes, .inr (keep.symm ▸ past stuck)⟩
    · exact cascade rfl
  | failed code => exact ⟨[], spec.bytes, .inl rfl⟩
  | data bs =>
    cases bs with
    | nil =>
      simp only
      split
      · split
        · rename_i stuck
          exact ⟨[], spec.bytes, .inr (keep.symm ▸ past stuck)⟩
        · exact cascade rfl
      · exact ⟨[], spec.bytes, .inl rfl⟩
    | cons b bs =>
      have fits := spec.length
      rw [h.fill] at fits
      refine ⟨b :: bs, ?_, .inr (recvParse_request (h.toEntry.extend fits) k')⟩
      rw [(recvParse_parsed _ k' p r).2.2]
      exact spec.bytes

theorem recvLoop_request (h : Progress v c p r) (known : r = none ∨ c.Asks v) :
    ∃ taken, pendingBytes k.input = taken ++ pendingBytes (recvLoop c k p r).kernel.input ∧
      ((recvLoop c k p r).client.ta.resp.status = .xHangup ∨
        (recvLoop c k p r).client.Asks (v ++ taken)) := by
  fun_induction recvLoop c k p r generalizing v with
  | case1 c k p r o round =>
    have here := recvRound_request h known k
    rwa [round] at here
  | case2 c k p r c' k' p' r' round ih =>
    obtain ⟨taken, bytes, here⟩ := recvRound_request h known k
    have spec := recvRound_spec h k
    rw [round] at spec here bytes
    cases spec with
    | asks taken' bytes' progress =>
      obtain rfl := List.append_cancel_right (bytes.symm.trans bytes')
      have goesOn : c'.Asks (v ++ taken) := by
        refine here.resolve_left fun hangup => ?_
        simp only [Round.client] at hangup
        rw [progress.fresh] at hangup
        cases hangup
      obtain ⟨more, rest, there⟩ := ih progress (.inr goesOn)
      refine ⟨taken ++ more, by rw [bytes, Round.kernel, rest, List.append_assoc], ?_⟩
      rw [← List.append_assoc]
      exact there

end Receive

section Comes

variable (s : Server) (files : FileSystem) (held : Int → Bytes) (content : Nat → Int → Bytes)
  (input : List Arrival)

def Client.behind (c : Client) (k : Kernel) : Bytes :=
  if c.closes then [] else session s files held (unread c k)

inductive Comes (c : Client) (k : Kernel) (bs : Bytes) : Prop where
  | reading {v : Bytes} (state : c.ta.state = .read)
      (progress : Progress v c c.ta.reqParseBlk c.ta.reqParseIter)
      (asks : c.ta.reqParseIter = none ∨ c.Asks v)
      (bytes : bs = session s files held (v ++ pendingBytes k.input))
  | serving {c₀ : Client} {h mem : Bytes} {req : Request} (state : c.ta.state = .serve)
      (head : headEnd h = .finish mem req h.length) (fits : h.length ≤ httpBufsz)
      (read : HeadRead mem req c₀ c) (answerable : Answerable c) (window : Window c)
      (bytes : bs = staticResponse held (servedHead s files mem req) ++
        if (servedHead s files mem req).closes then [] else session s files held (unread c k))
  | preparing {r : Client} {l : Kernel} (state : c.ta.state = .prepareResponse)
      (prepared : prepareResponse c k = some { rc := 0, client := r, kernel := l })
      (same : r.ta.resp.status = c.ta.resp.status ∧ r.ta.req = c.ta.req)
      (window : c.closes = false → Window c)
      (bytes : bs = responseBytes l.outside (content l.clock) r ++ c.behind s files held k)
  | sending (state : c.ta.state = .send ∨ c.ta.state = .sendFile ∨ c.ta.state = .done)
      (kept : c.ta.state = .done → c.closes = false) (window : c.closes = false → Window c)
      (bytes : bs = c.behind s files held k)

/-- What the kernel has been from the start of the connection on: the files stay the same, errno is no
EACCES of somebody else's, and the input `input` goes on as long as it did. -/
structure World (k : Kernel) : Prop where
  mounted : Mounted files held content k.fs
  errnos : ∀ e ∈ k.errnos, e ≠ .eacces
  stays : OpenInput input → OpenInput k.input

def Conn.Comes : Conn → Bytes → Prop
  | serving c k, bs =>
    Reachable s c ∧ World files held content input k ∧ Kitserv.Comes s files held content c k bs
  | waiting c k, bs =>
    Reachable s c ∧ World files held content input k ∧ Kitserv.Comes s files held content c k bs ∧
      (c.ta.state = .read → pendingBytes k.input = [] → bs = [])
  | closed _ k, bs => bs = [] ∨ k.BrokeOff ∨ ¬ OpenInput input
  | aborted, _ => False

end Comes

section Steps

variable {s : Server} {files : FileSystem} {held : Int → Bytes} {content : Nat → Int → Bytes}
  {input : List Arrival} {c c' : Client} {k k' : Kernel} {bs : Bytes}

theorem World.calm (world : World files held content input k) (calm : k.Calm k')
    (stays : OpenInput k.input → OpenInput k'.input) : World files held content input k' :=
  ⟨calm.fs ▸ world.mounted, calm.errnos ▸ world.errnos, fun isOpen => stays (world.stays isOpen)⟩

def StepComes (s : Server) (files : FileSystem) (held : Int → Bytes) (content : Nat → Int → Bytes)
    (input : List Arrival) (c : Client) (k : Kernel) (bs : Bytes) : Prop :=
  ∃ bs', bs = (Conn.serving c k).due content s ++ bs' ∧
    ((Conn.serving c k).step s).Comes s files held content input bs'

theorem behind_congr (closes : c'.closes = c.closes) (left : unread c' k' = unread c k) :
    c'.behind s files held k' = c.behind s files held k := by
  rw [Client.behind, Client.behind, closes, left]

theorem closes_congr (status : c'.ta.resp.status = c.ta.resp.status) (req : c'.ta.req = c.ta.req) :
    c'.closes = c.closes := by
  rw [Client.closes, Client.closes, status, req]

theorem Untouched.unread (h : Untouched c k c' k') : Kitserv.unread c' k' = Kitserv.unread c k := by
  rw [Kitserv.unread, Kitserv.unread, h.leftover, h.input]

/-- A refused head gets the response to it, and nothing comes behind that. -/
theorem HeadRefused.comes {req : Request} {status : HttpStatus} (h : HeadRefused req status c)
    (sizes : FirstSizes c) (headers : c.respHeaders.length = httpBufsz) (empty : c.respBody.len = 0)
    (buffer : c.reqHeaders.length = httpBufsz) :
    Comes s files held content c k (staticResponse held (rejected req status)) := by
  obtain ⟨presented, r, l, prepared, bytes⟩ := @HeadRefused.prepared (content k.clock) held status req c
    k h sizes headers empty buffer
  have closes : c.closes = true := by
    rw [Client.closes, h.resp, h.refuses.text.1, Bool.true_or]
  refine .preparing h.state prepared (presented.answers prepared)
    (fun kept => absurd (closes.symm.trans kept) Bool.noConfusion) ?_
  rw [(calm_rule.prepared prepared).clock, bytes, Client.behind, if_pos closes, List.append_nil]

theorem FirstSizes.of_reading (static : s.apiTree = none) (reached : Reachable s c)
    (state : c.ta.state = .read) : FirstSizes c ∧ c.respBody.len = 0 ∧
      c.respHeaders.length = httpBufsz := by
  obtain ⟨v, heard, reuses⟩ := (reached.recyclable static).heard
  exact ⟨reuses.toFirstSizes, reuses.empty state, reached.carries.size⟩

theorem read_comes {v : Bytes} (static : s.apiTree = none) (state : c.ta.state = .read)
    (reached : Reachable s c) (world : World files held content input k)
    (progress : Progress v c c.ta.reqParseBlk c.ta.reqParseIter)
    (asks : c.ta.reqParseIter = none ∨ c.Asks v)
    (bytes : bs = session s files held (v ++ pendingBytes k.input)) :
    StepComes s files held content input c k bs := by
  have step : serveStep s c k = afterStage .read (recvRequest c k) := by rw [serveStep, state]
  obtain ⟨sizes, empty, headers⟩ := FirstSizes.of_reading static reached state
  obtain ⟨taken, pending, room, recvEnd⟩ := recvRequest_spec k progress
  obtain ⟨taken', pending', asked⟩ := recvLoop_request (k := k) progress asks
  have size := (recvLoop_received c k c.ta.reqParseBlk c.ta.reqParseIter).1
  rw [← recvRequest] at pending' asked size
  obtain rfl := List.append_cancel_right (pending.symm.trans pending')
  rw [pending, ← List.append_assoc] at bytes
  refine ⟨bs, by rw [due_of_state (by simp [state]), List.nil_append], ?_⟩
  have kernel {tail : List Event} (frame : RecvFrame c k (recvRequest c k) tail) :
      World files held content input (recvRequest c k).kernel := by
    obtain ⟨reads, same⟩ := frame.kernel
    refine world.calm ⟨?_, ?_, ?_⟩ frame.stays <;> rw [same]
  have same {tail : List Event} (frame : RecvFrame c k (recvRequest c k) tail) :
      (recvRequest c k).client.respStart = c.respStart ∧
        (recvRequest c k).client.respBody = c.respBody ∧
        (recvRequest c k).client.respHeaders = c.respHeaders := by
    rw [frame.client]
    exact ⟨rfl, rfl, rfl⟩
  -- a head that is refused
  have refuses {req : Request} {status : HttpStatus} {tail : List Event} (rc : (recvRequest c k).rc = -1)
      (frame : RecvFrame c k (recvRequest c k) tail)
      (refused : HeadRefused req status ((recvRequest c k).client.setState .prepareResponse))
      (whole : bs = staticResponse held (rejected req status)) :
      ((Conn.serving c k).step s).Comes s files held content input bs := by
    obtain ⟨start, body, block⟩ := same frame
    have alive : (recvRequest c k).client.ta.resp.status ≠ .xHangup := by
      have resp := congrArg Response.status refused.resp
      have set : (recvRequest c k).client.ta.resp.status = status := resp
      rw [set]
      exact refused.refuses.text.2.1
    rw [afterStage, if_pos (by simp [rc]), if_neg alive] at step
    simp only [Conn.step, step]
    refine ⟨reached.next step, kernel frame, ?_⟩
    rw [whole]
    refine refused.comes (sizes.of_same start body) ?_ ?_ (size.trans progress.size)
    · exact (congrArg List.length block).trans headers
    · exact (congrArg Buffer.len body).trans empty
  generalize recvRequest c k = o at step recvEnd bytes asked size kernel same refuses
  cases recvEnd with
  | waits rc progress' undecided short iter consumed frame =>
    have reads : o.client.ta.state = .read := by rw [progress'.fresh]
    rw [afterStage, if_neg (by simp [rc]), if_pos reads] at step
    have alive : o.client.ta.resp.status ≠ .xHangup := by
      rw [progress'.fresh]
      rintro ⟨⟩
    simp only [Conn.step, step, if_true]
    refine ⟨reached.waits (o := { o with rc := 0 }) step rfl, kernel frame,
      .reading reads progress' (.inr (asked.resolve_left alive)) bytes, fun _ nothing => ?_⟩
    obtain ⟨_, _, _, _, _, head⟩ := undecided
    rw [bytes, nothing, session_undecided [] head (.inr ⟨short, rfl⟩), if_neg (Nat.ne_of_lt short)]
  | @accepts mem req p rc head buffer fill ta frame =>
    have serves : o.client.ta.state = .serve := by rw [ta]
    rw [afterStage, if_neg (by simp [rc]), if_neg (by simp [serves])] at step
    obtain ⟨mem', exact', rfl⟩ := headEnd_exact head
    have fits : ((v ++ taken).take p).length ≤ httpBufsz :=
      Nat.le_trans (List.length_take_le' ..) room
    have read : HeadRead mem' req c o.client := by
      refine ⟨frame.client, by rw [ta], ?_, size.trans progress.size⟩
      have first := congrArg (List.take mem'.length) buffer
      rwa [List.take_take, List.take_left, Nat.min_eq_left] at first
      rw [(headEnd_tail exact').length]
      exact List.length_take_le' ..
    obtain ⟨window, left⟩ := Window.parsed room head (size.trans progress.size) buffer (by rw [ta])
      (by rw [ta]) (by rw [ta]) (by rw [ta])
    simp only [Conn.step, step]
    refine ⟨reached.next step, kernel frame, .serving serves exact' fits read
      (read.answerable exact' fits sizes headers empty) window ?_⟩
    rw [unread, left, bytes, ← session_accepted _ exact' fits, ← List.append_assoc,
      List.take_append_drop]
  | @rejects mem req status rc head ta frame =>
    refine refuses rc frame ⟨.inl (parse_status head), rfl, ?_, ?_, ?_⟩
      (bytes.trans (session_rejected _ room head))
    all_goals
      simp only [Client.setState]
      rw [ta]
  | full rc undecided whole ta frame =>
    have alive : o.client.ta.resp.status ≠ .xHangup := by
      rw [ta]
      rintro ⟨⟩
    have req := asked.resolve_left alive
    obtain ⟨_, _, _, _, _, head⟩ := undecided
    have answer := @session_undecided s files held _ _ _ _ _ _
      (pendingBytes o.kernel.input) head (.inl whole)
    rw [if_pos whole] at answer
    rw [Client.Asks, head] at req
    refine refuses rc frame ⟨.inr rfl, rfl, req, ?_, ?_⟩ (bytes.trans answer)
    all_goals
      simp only [Client.setState]
      rw [ta]
  | hangup rc closed ta frame =>
    have set : o.client.ta.resp.status = .xHangup := by rw [ta]
    rw [afterStage, if_pos (by simp [rc]), if_pos set] at step
    simp only [Conn.step, step]
    exact Or.inr (Or.inr fun isOpen => closed (world.stays isOpen))

theorem serveStatic_untouched (s : Server) (c : Client) (k : Kernel) :
    Untouched c k (serveStatic s c k).client (serveStatic s c k).kernel :=
  (Untouched.fileCall (handleStaticPath_call ..)).trans (serveCont_untouched ..)

theorem World.served (world : World files held content input k) :
    World files held content input (serveStatic s c k).kernel := by
  have call := handleStaticPath_call s c k ((c.ta.req.path.map (cString c.reqHeaders)).getD []) none
  have fs : (serveStatic s c k).kernel.fs = k.fs := by
    rw [serveStatic, serveCont, call.kernel]
  refine ⟨fs ▸ world.mounted, fun e member => world.errnos e (handleStaticPath_errnos member), ?_⟩
  rw [(serveStatic_untouched s c k).input]
  exact world.stays

theorem serve_comes {c₀ : Client} {h mem : Bytes} {req : Request} (static : s.apiTree = none)
    (state : c.ta.state = .serve) (reached : Reachable s c) (world : World files held content input k)
    (head : headEnd h = .finish mem req h.length) (fits : h.length ≤ httpBufsz)
    (read : HeadRead mem req c₀ c) (answerable : Answerable c) (window : Window c)
    (bytes : bs = staticResponse held (servedHead s files mem req) ++
      if (servedHead s files mem req).closes then [] else session s files held (unread c k)) :
    StepComes s files held content input c k bs := by
  have served : serveRequest s c k = some (serveStatic s c k) := by simp only [serveRequest, static]
  have short : mem.length ≤ httpBufsz := (headEnd_tail head).length ▸ fits
  have calm : k.errnos.headD .zero ≠ .eacces := by
    cases stale : k.errnos with
    | nil => rintro ⟨⟩
    | cons e rest => exact world.errnos e (stale ▸ List.mem_cons_self ..)
  have asked : HeadRead mem req _ (accepted mem req) :=
    accepted_read short (List.prefix_refl mem)
  have twins := serveStatic_mounted (s := s) world.mounted calm
    (asked.twins read head (accepted_answerable head fits asked) answerable held
      (content (serveStatic s c k).kernel.clock))
  have untouched := serveStatic_untouched s c k
  have world' := world.served (s := s) (c := c)
  have presented := @serveStatic_presented s c k answerable.toAccepted (staticChoice s c k).size
    fun fname st c' k' errno found => by rw [found]; rfl
  obtain ⟨r, l, prepared, answer⟩ := @Answerable.prepared s c k answerable
    (content (serveStatic s c k).kernel.clock)
  have leads : (serveStatic s c k).client.ta.state = .prepareResponse := rfl
  rcases serveStep_serve state served with ⟨waits, -⟩ | ⟨-, step⟩
  · cases leads.symm.trans waits
  refine ⟨bs, by rw [due_of_state (by simp [state]), List.nil_append], ?_⟩
  simp only [Conn.step, step]
  refine ⟨reached.next step, world', .preparing leads prepared (presented.answers prepared)
    (fun _ => untouched.window window) ?_⟩
  have closes : (serveStatic s c k).client.closes = (servedHead s files mem req).closes :=
    closes_twins twins
  rw [bytes, (calm_rule.prepared prepared).clock, answer, staticResponse_twins twins, Client.behind,
    closes, untouched.unread]
  rfl

theorem prepare_comes {r : Client} {l : Kernel} (state : c.ta.state = .prepareResponse)
    (reached : Reachable s c) (world : World files held content input k)
    (prepared : prepareResponse c k = some { rc := 0, client := r, kernel := l })
    (same : r.ta.resp.status = c.ta.resp.status ∧ r.ta.req = c.ta.req)
    (window : c.closes = false → Window c)
    (bytes : bs = responseBytes l.outside (content l.clock) r ++ c.behind s files held k) :
    StepComes s files held content input c k bs := by
  have untouched := (prepareResponse_untouched prepared).trans (logTransaction_untouched s r l)
  have calm := (calm_rule.prepared prepared).trans (logTransaction_calm s r l)
  have closes := closes_congr same.1 same.2
  have sends : r.ta.state = .send := by
    obtain ⟨c₁, buf, n, ready⟩ := prepareResponse_ready prepared
    rw [ready]
    rfl
  rcases serveStep_prepareResponse (s := s) state prepared with ⟨failed, -⟩ | ⟨-, step⟩
  · exact absurd rfl failed
  have due : (Conn.serving c k).due content s = responseBytes l.outside (content l.clock) r := by
    simp only [Conn.due, state, step, logTransaction_outside, (logTransaction_calm s r l).clock]
  refine ⟨c.behind s files held k, by rw [bytes, due], ?_⟩
  simp only [Conn.step, step]
  refine ⟨reached.next step, world.calm calm (fun isOpen => untouched.input ▸ isOpen),
    .sending (.inl sends) (fun done => absurd (sends.symm.trans done) (by rintro ⟨⟩))
      (fun kept => untouched.window (window (closes ▸ kept)))
      (behind_congr closes untouched.unread).symm⟩

theorem sending_comes {c' : Client} {k' : Kernel} (untouched : Untouched c k c' k')
    (closes : c'.closes = c.closes) (window : c.closes = false → Window c)
    (bytes : bs = c.behind s files held k)
    (state : c'.ta.state = .send ∨ c'.ta.state = .sendFile ∨ c'.ta.state = .done ∧ c.closes = false) :
    Comes s files held content c' k' bs := by
  refine .sending (state.imp_right (Or.imp_right And.left)) (fun done => ?_)
    (fun kept => untouched.window (window (closes ▸ kept)))
    (bytes.trans (behind_congr closes untouched.unread).symm)
  rcases state with other | other | ⟨-, kept⟩
  · cases done.symm.trans other
  · cases done.symm.trans other
  · exact closes.trans kept

theorem send_comes (state : c.ta.state = .send) (reached : Reachable s c)
    (world : World files held content input k) (window : c.closes = false → Window c)
    (bytes : bs = c.behind s files held k) : StepComes s files held content input c k bs := by
  have untouched := sendLoop_untouched k.writes c k
  obtain ⟨-, status, req, -⟩ := sendLoop_status k.writes c k
  have calm := (sendLoop_onlySent k.writes c k).calm
  rw [← sendResponse] at untouched status req calm
  have closes := closes_congr status req
  have world' := world.calm calm fun isOpen => untouched.input ▸ isOpen
  refine ⟨bs, by rw [due_of_state (by simp [state]), List.nil_append], ?_⟩
  rcases serveStep_send s k state with ⟨waits, step⟩ | ⟨goes, step⟩
  · simp only [Conn.step, step, if_true]
    exact ⟨reached.waits (o := { sendResponse c k with rc := 0 }) step rfl, world',
      sending_comes untouched closes window bytes (.inl waits),
      fun reads => absurd (waits.symm.trans reads) (by rintro ⟨⟩)⟩
  · simp only [Conn.step, step]
    exact ⟨reached.next step, world', sending_comes untouched closes window bytes (.inr (.inl goes))⟩

theorem sendFileFailed_breaks {rc : Int} (broken : rc ≠ 0 → k.SendfileFailed)
    (h : (sendFileLoop.failed c rc k).rc ≠ 0) :
    (c.ta.resp.status.isError = true ∨ c.ta.req.version = .http10) ∨
      (sendFileLoop.failed c rc k).kernel.SendfileFailed := by
  unfold sendFileLoop.failed at h ⊢
  split
  · rename_i sent
    rw [if_pos sent] at h
    exact .inl (sendFileClose_closes h)
  · rename_i unsent
    rw [if_neg unsent] at h
    exact .inr (broken h)

/-- A call fails at the end of the last response, or for a sendfile that failed. -/
theorem sendFileLoop_breaks (sendfiles : List Transfer) (c : Client) (k : Kernel)
    (h : (sendFileLoop c k sendfiles).rc ≠ 0) :
    (c.ta.resp.status.isError = true ∨ c.ta.req.version = .http10) ∨
      (sendFileLoop c k sendfiles).kernel.SendfileFailed := by
  induction sendfiles generalizing c k with
  | nil => exact sendFileFailed_breaks (fun zero => absurd rfl zero) h
  | cons t rest ih =>
    cases t with
    | wouldBlock => exact sendFileFailed_breaks (fun zero => absurd rfl zero) h
    | failed code => exact sendFileFailed_breaks (fun _ => ⟨code, k.trace, rfl⟩) h
    | bytes n =>
      simp only [sendFileLoop] at h ⊢
      split
      · rename_i sent
        rw [if_pos sent] at h
        have done := sendFileClose_closes h
        exact .inl done
      · rename_i unsent
        rw [if_neg unsent] at h
        split
        · rename_i nothing
          rw [if_pos nothing] at h
          have done := sendFileDone_closes h
          exact .inl done
        · rename_i some
          rw [if_neg some] at h
          exact ih _ _ h

theorem sendResponseFile_breaks (h : (sendResponseFile c k).rc ≠ 0) :
    c.closes = true ∨ (sendResponseFile c k).kernel.SendfileFailed := by
  have closes (last : c.ta.resp.status.isError = true ∨ c.ta.req.version = .http10) :
      c.closes = true := by
    rw [Client.closes, Bool.or_eq_true, beq_iff_eq]
    exact last
  unfold sendResponseFile at h ⊢
  split
  · rename_i file
    rw [if_pos file] at h
    exact (sendFileLoop_breaks k.sendfiles c k h).imp_left closes
  · rename_i none
    rw [if_neg none] at h
    exact .inl (closes (sendFileDone_closes h))

theorem sendFile_comes (state : c.ta.state = .sendFile) (reached : Reachable s c)
    (world : World files held content input k) (window : c.closes = false → Window c)
    (bytes : bs = c.behind s files held k) : StepComes s files held content input c k bs := by
  have untouched := sendResponseFile_untouched c k
  obtain ⟨status, req, ends⟩ := sendResponseFile_ends c k
  have calm := (sendResponseFile_onlySent c k).calm
  have closes := closes_congr status req
  have world' := world.calm calm fun isOpen => untouched.input ▸ isOpen
  refine ⟨bs, by rw [due_of_state (by simp [state]), List.nil_append], ?_⟩
  rcases serveStep_sendFile s k state with ⟨failed, step⟩ | ⟨-, waits, step⟩ | ⟨rc, done, step⟩
  · simp only [Conn.step, step]
    rcases sendResponseFile_breaks failed with last | broken
    · exact Or.inl (by rw [bytes, Client.behind, if_pos last])
    · exact Or.inr (Or.inl (broken.reset _))
  · simp only [Conn.step, step, if_true]
    exact ⟨reached.waits (o := { sendResponseFile c k with rc := 0 }) step rfl, world',
      sending_comes untouched closes window bytes (.inr (.inl waits)),
      fun reads => absurd (waits.symm.trans reads) (by rintro ⟨⟩)⟩
  · have kept : c.closes = false := by
      rcases ends with stays | ⟨-, alive⟩
      · cases done.symm.trans (stays.trans state)
      · obtain ⟨good, version⟩ := alive rc
        rw [Client.closes, good, version]
        rfl
    simp only [Conn.step, step]
    exact ⟨reached.next step, world',
      sending_comes untouched closes window bytes (.inr (.inr ⟨done, kept⟩))⟩

theorem done_comes (state : c.ta.state = .done) (reached : Reachable s c)
    (world : World files held content input k) (kept : c.closes = false) (window : Window c)
    (bytes : bs = c.behind s files held k) : StepComes s files held content input c k bs := by
  obtain ⟨c', k', finalized, idle, left, same, -⟩ := finalizeTransaction_idle window (k := k)
  have step : serveStep s c k = .next c' k' := by simp only [serveStep, state, finalized]
  have calm : k.Calm k' := by
    simp only [finalizeTransaction] at finalized
    split at finalized
    · cases finalized
      exact ⟨rfl, rfl, rfl⟩
    · cases finalized
  refine ⟨bs, by rw [due_of_state (by simp [state]), List.nil_append], ?_⟩
  simp only [Conn.step, step]
  refine ⟨reached.next step, world.calm calm (fun isOpen => same ▸ isOpen),
    .reading (by rw [idle.fresh]) idle.progress (.inl (by rw [idle.fresh])) ?_⟩
  rw [bytes, Client.behind, kept, left, same, unread]
  rfl

/-- What a step prepares is the next of the responses to come. -/
theorem step_comes (static : s.apiTree = none) {conn : Conn}
    (h : conn.Comes s files held content input bs) :
    ∃ bs', bs = conn.due content s ++ bs' ∧ (conn.step s).Comes s files held content input bs' := by
  cases conn with
  | serving c k =>
    obtain ⟨reached, world, comes⟩ := h
    cases comes with
    | reading state progress asks bytes =>
      exact read_comes static state reached world progress asks bytes
    | serving state head fits read answerable window bytes =>
      exact serve_comes static state reached world head fits read answerable window bytes
    | preparing state prepared same window bytes =>
      exact prepare_comes state reached world prepared same window bytes
    | sending state kept window bytes =>
      rcases state with state | state | state
      · exact send_comes state reached world window bytes
      · exact sendFile_comes state reached world window bytes
      · exact done_comes state reached world (kept state) (window (kept state)) bytes
  | waiting c k =>
    obtain ⟨reached, world, comes, -⟩ := h
    exact ⟨bs, rfl, reached, world, comes⟩
  | closed c k => exact ⟨bs, rfl, h⟩
  | aborted => exact h.elim

end Steps

/-- What a connection may leave of the responses to its stream: nothing where it waits for a head with
nothing to come, nor where it has been closed, unless sendfile has failed or the input has ended. -/
def Conn.Left (input : List Arrival) : Conn → Bytes → Prop
  | serving .., _ => True
  | waiting c k, left => c.ta.state = .read → pendingBytes k.input = [] → left = []
  | closed _ k, left => left = [] ∨ k.BrokeOff ∨ ¬ OpenInput input
  | aborted, _ => False

/-- What is owed: what is unsent of the last response, and the responses to come. -/
def Conn.Owes (s : Server) (files : FileSystem) (held : Int → Bytes) (content : Nat → Int → Bytes)
    (input : List Arrival) (conn : Conn) (debt : Bytes) : Prop :=
  ∃ rest bs, debt = rest ++ bs ∧ conn.Unsent content rest ∧ conn.Comes s files held content input bs

section Owes

variable {s : Server} {files : FileSystem} {held : Int → Bytes} {content : Nat → Int → Bytes}
  {input : List Arrival} {conn : Conn} {debt : Bytes}

theorem owes_step (static : s.apiTree = none) (starting : conn.Starting) (sound : conn.OutputSound)
    (owes : conn.Owes s files held content input debt) :
    ∃ debt', conn.puts content s ++ debt' = debt ∧
      (conn.step s).Owes s files held content input debt' := by
  obtain ⟨rest, bs, rfl, unsent, comes⟩ := owes
  obtain ⟨rest', paid, unsent', -⟩ := conn_pays (s := s) starting sound unsent
  obtain ⟨bs', rfl, comes'⟩ := step_comes static comes
  refine ⟨rest' ++ bs', ?_, rest', bs', rfl, unsent', comes'⟩
  rw [← List.append_assoc, paid, List.append_assoc]

theorem Conn.Owes.left (owes : conn.Owes s files held content input debt) : conn.Left input debt := by
  obtain ⟨rest, bs, rfl, unsent, comes⟩ := owes
  cases conn with
  | serving c k => trivial
  | waiting c k =>
    intro reads nothing
    obtain ⟨-, -, -, last⟩ := comes
    cases unsent
    rw [last reads nothing, unsent_of_state (by simp [reads]) (by simp [reads]), List.append_nil]
  | closed c k =>
    rcases unsent with rfl | broken
    · exact comes
    · exact .inr (.inl broken)
  | aborted => exact comes

theorem owes_run {n : Nat} {c : Client} {k : Kernel} (static : s.apiTree = none)
    (reached : Reachable s c) (fresh : c.ta = {}) (mounted : Mounted files held content k.fs)
    (errnos : ∀ e ∈ k.errnos, e ≠ .eacces)
    (sound : Steps.Meets (Conn.step s) Conn.OutputSound n (.serving c k)) :
    ∃ debt, (Conn.serving c k).wire content s n ++ debt =
        session s files held (c.reqHeaders.take c.reqHeadersLen ++ pendingBytes k.input) ∧
      (Conn.run s n (.serving c k)).Owes s files held content k.input debt := by
  have state : c.ta.state = .read := by rw [fresh]
  have idle : Idle c := by
    obtain ⟨v, heard, -⟩ := (reached.recyclable static).heard
    have progress := (heard.recalls.reading state).1
    exact ⟨progress.size, by rw [progress.fill]; exact progress.room, fresh⟩
  have start : (Conn.serving c k).Starting := fun sends => by cases state.symm.trans sends
  have unsent : (Conn.serving c k).Unsent content [] :=
    (unsent_of_state (by simp [state]) (by simp [state])).symm
  have comes : (Conn.serving c k).Comes s files held content k.input
      (session s files held (c.reqHeaders.take c.reqHeadersLen ++ pendingBytes k.input)) :=
    ⟨reached, ⟨mounted, errnos, id⟩, .reading state idle.progress (.inl (by rw [fresh])) rfl⟩
  have keep : ∀ conn : Conn, conn.Starting → conn.OutputSound → (conn.step s).Starting :=
    fun _ => starting_step
  exact Steps.collect_settles keep (fun _ starting sound _ owes => owes_step static starting sound owes)
    start sound ⟨[], _, rfl, unsent, comes⟩

end Owes

/-- A connection of a server without an API puts the responses to its stream on the wire, whatever the
cuts of the stream are, and whatever the slot has been used for before: for files that stay the same, an
errno other than EACCES on entry to static serving, and sends that meet `Conn.OutputSound`, which is less
than any cuts of them. -/
theorem static_session {s : Server} {files : FileSystem} {held : Int → Bytes}
    {content : Nat → Int → Bytes} {n : Nat} {c : Client} {k : Kernel} (static : s.apiTree = none)
    (reached : Reachable s c) (fresh : c.ta = {}) (mounted : Mounted files held content k.fs)
    (errnos : ∀ e ∈ k.errnos, e ≠ .eacces)
    (sound : Steps.Meets (Conn.step s) Conn.OutputSound n (.serving c k)) :
    ∃ left, (Conn.serving c k).wire content s n ++ left =
        session s files held (c.reqHeaders.take c.reqHeadersLen ++ pendingBytes k.input) ∧
      (Conn.run s n (.serving c k)).Left k.input left := by
  obtain ⟨left, whole, owes⟩ := owes_run static reached fresh mounted errnos sound
  exact ⟨left, whole, owes.left⟩

theorem static_session_twice : ∃ left,
    (Conn.serving (createClientStruct .zeroed) askingTwice).wire (fun _ _ => ascii "abc") rootServer 20 ++
        left =
      session rootServer threeBytes (fun _ => ascii "abc")
        ((createClientStruct .zeroed).reqHeaders.take (createClientStruct .zeroed).reqHeadersLen ++
          pendingBytes askingTwice.input) ∧
    (Conn.run rootServer 20 (.serving (createClientStruct .zeroed) askingTwice)).Left
      askingTwice.input left := by
  have mounted : Mounted threeBytes (fun _ => ascii "abc") (fun _ _ => ascii "abc") askingTwice.fs :=
    ⟨fun _ _ => rfl, fun _ _ => rfl⟩
  have sound : Steps.Meets (Conn.step rootServer) Conn.OutputSound 20
      (.serving (createClientStruct .zeroed) askingTwice) := by decide +kernel
  exact static_session rfl (.created .zeroed) rfl mounted nofun sound

end Kitserv
