import Kitserv.RequestText
import Kitserv.StaticResponse

/-! Transactions do not influence each other: the response to a static request is the same on a client
with any transactions and connections behind it as on one that has just been created. -/
namespace Kitserv

open Memory

/-- The way of a connection, from a client with its kernel to the next response it prepares. -/
inductive Prepares (s : Server) : Client → Kernel → Client → Kernel → Prop where
  | next {c c' r : Client} {k k' l : Kernel} (early : c.ta.state ≠ .prepareResponse)
      (step : serveStep s c k = .next c' k') (rest : Prepares s c' k' r l) : Prepares s c k r l
  | waits {c r : Client} {k l : Kernel} {o : Outcome} (step : serveStep s c k = .back o)
      (rc : o.rc = 0) (rest : Prepares s o.client o.kernel r l) : Prepares s c k r l
  | prepared {c r : Client} {k l : Kernel} (state : c.ta.state = .prepareResponse)
      (step : serveStep s c k = .next r l) : Prepares s c k r l

/-- There is one such response, and the run of the connection comes to it. -/
theorem Prepares.unique {s : Server} {c r r' : Client} {k l l' : Kernel} (h : Prepares s c k r l)
    (h' : Prepares s c k r' l') : r' = r ∧ l' = l := by
  induction h with
  | next early step rest ih =>
    cases h' with
    | next early' step' rest' =>
      cases step.symm.trans step'
      exact ih rest'
    | waits step' => cases step.symm.trans step'
    | prepared state' => exact absurd state' early
  | waits step rc rest ih =>
    cases h' with
    | next early' step' => cases step.symm.trans step'
    | waits step' rc' rest' =>
      cases step.symm.trans step'
      exact ih rest'
    | prepared state' step' => cases step.symm.trans step'
  | prepared state step =>
    cases h' with
    | next early' => exact absurd state early'
    | waits step' => cases step.symm.trans step'
    | prepared state' step' =>
      cases step.symm.trans step'
      exact ⟨rfl, rfl⟩

theorem prepares_next {s : Server} {c c' r : Client} {k k' l : Kernel}
    (early : c.ta.state ≠ .prepareResponse) (step : serveStep s c k = .next c' k') :
    Prepares s c k r l ↔ Prepares s c' k' r l := by
  constructor
  · intro h
    cases h with
    | next early' step' rest =>
      cases step.symm.trans step'
      exact rest
    | waits step' => cases step.symm.trans step'
    | prepared state => exact absurd state early
  · intro h
    exact .next early step h

theorem prepares_waits {s : Server} {c r : Client} {k l : Kernel} {o : Outcome}
    (step : serveStep s c k = .back o) (rc : o.rc = 0) :
    Prepares s c k r l ↔ Prepares s o.client o.kernel r l := by
  constructor
  · intro h
    cases h with
    | next early step' => cases step.symm.trans step'
    | waits step' rc' rest =>
      cases step.symm.trans step'
      exact rest
    | prepared state step' => cases step.symm.trans step'
  · intro h
    exact .waits step rc h

theorem Prepares.run {s : Server} {c r : Client} {k l : Kernel} (h : Prepares s c k r l) :
    ∃ n, Conn.run s n (.serving c k) = .serving r l := by
  induction h with
  | @next c c' r k k' l early step rest ih =>
    obtain ⟨n, run⟩ := ih
    refine ⟨n + 1, ?_⟩
    rw [Conn.run, Function.iterate_succ_apply, Conn.step, step]
    exact run
  | @waits c r k l o step rc rest ih =>
    obtain ⟨n, run⟩ := ih
    refine ⟨n + 2, ?_⟩
    rw [Conn.run, Function.iterate_succ_apply, Function.iterate_succ_apply, Conn.step, step]
    simp only [rc, if_true]
    exact run
  | @prepared c r k l state step =>
    refine ⟨1, ?_⟩
    rw [Conn.run, Function.iterate_one, Conn.step, step]

section Reading

variable {s : Server} {c c' : Client} {k : Kernel} {h v w rest mem : Bytes} {req : Request}

/-- A part of the stream that a whole head stands in front of: it has the head, or too little of it. -/
theorem head_cut {more : Bytes} (head : headEnd h = .finish mem req h.length)
    (cut : w ++ more = h ++ rest) : (∃ t, w = h ++ t) ∨ (Undecided w ∧ w.length < h.length) := by
  rcases List.append_eq_append_iff.mp cut with ⟨u, rfl, -⟩ | ⟨t, rfl, -⟩
  · rcases u.eq_nil_or_concat with rfl | ⟨u', b, rfl⟩
    · exact .inl ⟨[], by simp⟩
    right
    have longer := headEnd_append w (u'.concat b)
    have size : w.length < (w ++ u'.concat b).length := by simp
    refine ⟨?_, size⟩
    cases early : headEnd w with
    | finish mem' req' p =>
      simp only [early] at longer
      cases longer.symm.trans head
      exact absurd (headEnd_tail early).inside (Nat.not_le.mpr size)
    | fail mem' req' status =>
      simp only [early] at longer
      cases longer.symm.trans head
    | readMore => exact ⟨_, _, _, _, _, early⟩
  · exact .inl ⟨t, rfl⟩

theorem headEnd_longer (t : Bytes) (head : headEnd h = .finish mem req h.length) :
    headEnd (h ++ t) = .finish (mem ++ t) req h.length := by
  have longer := headEnd_append h t
  rwa [head] at longer

structure HeadRead (mem : Bytes) (req : Request) (c c' : Client) : Prop where
  client : c' = { c with
    reqHeaders := c'.reqHeaders
    ta := c'.ta
    reqHeadersLen := c'.reqHeadersLen }
  ta : c'.ta = {
    state := .serve
    parseState := c'.ta.parseState
    req := req
    reqPayload := c'.ta.reqPayload
    reqPayloadLen := c'.ta.reqPayloadLen
    reqParseBlk := c'.ta.reqParseBlk
    reqParseIter := c'.ta.reqParseIter }
  front : c'.reqHeaders.take mem.length = mem
  size : c'.reqHeaders.length = httpBufsz

/-- A client between two transactions reads a head that comes in, however it is cut. -/
theorem reads_head (head : headEnd h = .finish mem req h.length) (fits : h.length ≤ httpBufsz)
    (progress : Progress v c c.ta.reqParseBlk c.ta.reqParseIter) (isOpen : OpenInput k.input)
    (cut : v ++ pendingBytes k.input = h ++ rest) :
    ∃ c' k', (∀ r l, Prepares s c k r l ↔ Prepares s c' k' r l) ∧ HeadRead mem req c c' ∧
      k'.fs = k.fs ∧ k'.errnos = k.errnos ∧ k'.reallocs = k.reallocs := by
  induction size : k.input.length using Nat.strong_induction_on generalizing v c k with
  | _ n ih =>
    subst size
    have state : c.ta.state = .read := by rw [progress.fresh]
    have step : serveStep s c k = afterStage .read (recvRequest c k) := by rw [serveStep, state]
    obtain ⟨taken, bytes, room, recvEnd⟩ := recvRequest_spec k progress
    have size := (recvLoop_received c k c.ta.reqParseBlk c.ta.reqParseIter).1
    rw [← recvRequest, progress.size] at size
    rw [bytes, ← List.append_assoc] at cut
    have here := head_cut head cut
    generalize recvRequest c k = o at step bytes recvEnd cut size
    cases recvEnd with
    | waits rc progress' undecided short iter consumed frame =>
      have less : (v ++ taken).length < h.length := by
        rcases here with ⟨t, same⟩ | ⟨-, less⟩
        · obtain ⟨_, _, _, _, _, early⟩ := undecided
          rw [same, headEnd_longer t head] at early
          cases early
        · exact less
      have smaller : o.kernel.input.length < k.input.length := by
        rcases consumed with empty | smaller
        · rw [empty] at cut
          have lengths := congrArg List.length cut
          simp only [pendingBytes, List.flatMap_nil, List.append_nil, List.length_append] at lengths less
          omega
        · exact smaller
      obtain ⟨c', k', runs, read, fs, errnos, reallocs⟩ :=
        ih _ smaller progress' (frame.stays isOpen) cut rfl
      obtain ⟨reads, kernel⟩ := frame.kernel
      have reads : o.client.ta.state = .read := by rw [progress'.fresh]
      rw [afterStage, if_neg (by simp [rc]), if_pos reads] at step
      refine ⟨c', k', fun r l => (prepares_waits step rfl).trans (runs r l),
        ⟨?_, read.ta, read.front, read.size⟩, ?_, ?_, ?_⟩
      · rw [read.client, frame.client]
      · rw [fs, kernel]
      · rw [errnos, kernel]
      · rw [reallocs, kernel]
    | @accepts mem' req' p rc found buffer fill ta frame =>
      obtain ⟨t, same⟩ := here.resolve_right fun short => by
        obtain ⟨⟨_, _, _, _, _, early⟩, -⟩ := short
        cases early.symm.trans found
      rw [same, headEnd_longer t head] at found
      cases found
      have serves : o.client.ta.state = .serve := by rw [ta]
      rw [afterStage, if_neg (by simp [rc]), if_neg (by simp [serves])] at step
      obtain ⟨reads, kernel⟩ := frame.kernel
      refine ⟨o.client, o.kernel, fun r l => prepares_next (by simp [state]) step,
        ⟨frame.client, by rw [ta], ?_, size⟩, by rw [kernel], by rw [kernel], by rw [kernel]⟩
      have length := (headEnd_tail head).length
      have first := congrArg (List.take mem.length) buffer
      rwa [List.take_take, List.take_left, Nat.min_eq_left] at first
      rw [same, length, List.length_append]
      exact Nat.le_add_right ..
    | rejects rc found ta frame =>
      rcases here with ⟨t, same⟩ | ⟨⟨_, _, _, _, _, early⟩, -⟩
      · rw [same, headEnd_longer t head] at found
        cases found
      · cases early.symm.trans found
    | full rc undecided whole ta frame =>
      rcases here with ⟨t, same⟩ | ⟨-, less⟩
      · obtain ⟨_, _, _, _, _, early⟩ := undecided
        rw [same, headEnd_longer t head] at early
        cases early
      · omega
    | hangup rc closed ta frame => exact absurd isOpen closed

def Route.isStatic : Route → Bool
  | done none _ => true
  | _ => false

/-- A head that is routed so, whatever stands behind it in the buffer. -/
def StaticHead (s : Server) (mem : Bytes) (req : Request) : Prop :=
  ∀ tree, s.apiTree = some tree → ∀ t,
    (parseApiTree (mem ++ t) req.method.bits 0 tree tree
      (skipSlashes (mem ++ t) (req.path.getD 0))).isStatic = true

/-- The bytes behind the head do not matter where the routing ends inside the path. -/
theorem staticHead_of_path {tree : ApiTree} (head : headEnd h = .finish mem req h.length)
    (found : s.apiTree = some tree)
    (inside : descendsPastEnd mem req.method.bits 0 tree tree
      (skipSlashes mem (req.path.getD 0)) = false)
    (route : (parseApiTree mem req.method.bits 0 tree tree
      (skipSlashes mem (req.path.getD 0))).isStatic = true) : StaticHead s mem req := by
  intro tree' found' t
  cases found.symm.trans found'
  obtain ⟨q, path, -⟩ := (headEnd_strings head).path
  have ends := (headEnd_strings head).ends q (mem_strings_path path)
  rw [← (headEnd_tail head).length] at ends
  have same : mem.take mem.length = (mem ++ t).take mem.length := by
    rw [List.take_length, List.take_left]
  have here := TextAt.of_terminated ends
  have here' := TextAt.of_terminated (ends.congr same)
  rw [← show cString mem q = cString (mem ++ t) q from cstr_congr same ends] at here'
  have slashes := length_takeWhile_le (cString mem q) fun b => b == 47
  rw [path, Option.getD_some] at inside route ⊢
  rw [here.skipSlashes_eq] at inside route
  rw [here'.skipSlashes_eq, ← (parse_of_text (here.drop slashes) (here'.drop slashes) inside).1]
  exact route

theorem HeadRead.textAt {p : Nat} (read : HeadRead mem req c c')
    (head : headEnd h = .finish mem req h.length) (member : p ∈ req.strings) :
    TextAt c'.reqHeaders p (cString mem p) := by
  have inside := (headEnd_strings head).ends p member
  rw [← (headEnd_tail head).length] at inside
  have same : mem.take mem.length = c'.reqHeaders.take mem.length := by
    rw [List.take_length, read.front]
  have here := TextAt.of_terminated (inside.congr same)
  have text : cString c'.reqHeaders p = cString mem p := (cstr_congr same inside).symm
  rwa [text] at here

theorem HeadRead.answerable (read : HeadRead mem req c c')
    (head : headEnd h = .finish mem req h.length) (fits : h.length ≤ httpBufsz)
    (sizes : FirstSizes c) (headers : c.respHeaders.length = httpBufsz) (empty : c.respBody.len = 0) :
    Answerable c' := by
  have same : c'.respStart = c.respStart ∧ c'.respBody = c.respBody ∧
      c'.respHeaders = c.respHeaders := by
    rw [read.client]
    exact ⟨rfl, rfl, rfl⟩
  obtain ⟨q, path, accepted, -⟩ := (headEnd_strings head).path
  have text := (read.textAt head (mem_strings_path path)).reads
  have short := requestPath_short head
  refine ⟨⟨by rw [read.ta], same.2.2 ▸ headers, by rw [same.2.1]; exact empty, read.size⟩,
    same.1 ▸ sizes.start, same.2.1 ▸ sizes.body, by rw [read.ta], q, by rw [read.ta]; exact path, ?_⟩
  rw [text, accepted]
  omega

theorem isStatic_iff {route : Route} : route.isStatic = true ↔ ∃ flags, route = .done none flags := by
  cases route with
  | done hit flags => cases hit <;> simp [Route.isStatic]
  | methodNotAllowed => simp [Route.isStatic]
  | outside => simp [Route.isStatic]

theorem HeadRead.serves (read : HeadRead mem req c c') (static : StaticHead s mem req) (k : Kernel) :
    ∃ l, serveRequest s c' k = some (serveStatic s c' l) ∧ l.fs = k.fs ∧ l.errnos = k.errnos ∧
      l.reallocs = k.reallocs := by
  have api : c'.ta.api = {} := by rw [read.ta]
  obtain rfl : c'.ta.req = req := by rw [read.ta]
  cases found : s.apiTree with
  | none => exact ⟨k, by simp only [serveRequest, found], rfl, rfl, rfl⟩
  | some tree =>
    have buffer := List.take_append_drop mem.length c'.reqHeaders
    rw [read.front] at buffer
    have route := static tree found (c'.reqHeaders.drop mem.length)
    rw [buffer] at route
    obtain ⟨flags, route⟩ := isStatic_iff.mp route
    have law := parseApiTree_flags c'.reqHeaders c'.ta.req.method.bits tree tree
      (skipSlashes c'.reqHeaders (c'.ta.req.path.getD 0))
    rw [route] at law
    obtain rfl : flags = 0 := law
    have same : { c' with ta := { c'.ta with
        api := { c'.ta.api with endpointHit := none, allowFlags := 0 } } } = c' := by
      have whole : c' = { c' with ta := { c'.ta with api := {} } } := by rw [← api]
      rw [api]
      exact whole.symm
    refine ⟨k.emit .routed, ?_, rfl, rfl, rfl⟩
    simp only [serveRequest, found, api, route, Option.isSome_none, Bool.false_eq_true, if_false,
      ne_eq, not_true_eq_false, or_self, serveEndpoint]
    rw [api] at same
    exact congrArg (fun c => some (serveStatic s c (k.emit .routed))) same

/-- Two clients behind the same head are twins. -/
theorem HeadRead.twins {d d' : Client} (read : HeadRead mem req c c') (read' : HeadRead mem req d d')
    (head : headEnd h = .finish mem req h.length) (a : Answerable c') (a' : Answerable d')
    (content content' : Int → Bytes) : Twins content content' c' d' := by
  have asked : c'.ta.req = req := by rw [read.ta]
  have asked' : d'.ta.req = req := by rw [read'.ta]
  refine ⟨asked'.trans asked.symm, ?_, ?_, a'.flags.trans a.flags.symm,
    a'.bodyEmpty.trans a.bodyEmpty.symm, a.headersOk, a'.headersOk,
    a'.headerBlock.trans a.headerBlock.symm, fun p member => ?_⟩
  · rw [a.resp, a'.resp]
  · rw [a.resp, a'.resp]
    exact .inl ⟨rfl, Int.le_refl 0⟩
  · rw [asked] at member
    exact ⟨_, read.textAt head member, read'.textAt head member⟩

end Reading

section Transactions

variable {s : Server} {c o r : Client} {k l : Kernel}

/-- The head `h` comes next on the connection, in one piece or in many, and nothing closes it. -/
structure Receives (c : Client) (k : Kernel) (h : Bytes) : Prop where
  isOpen : OpenInput k.input
  next : ∃ rest, c.reqHeaders.take c.reqHeadersLen ++ pendingBytes k.input = h ++ rest

theorem Recyclable.reachable (used : Recyclable s c) : Reachable s c := by
  induction used with
  | created blocks => exact .created blocks
  | next _ _ step ih => exact ih.next step
  | waits _ _ step rc ih => exact ih.waits step rc
  | reset _ _ step ih => exact ih.reset step

/-- Without an API every request is static, and every client can be used again. -/
theorem Reachable.recyclable (static : s.apiTree = none) (reached : Reachable s c) :
    Recyclable s c := by
  have keeps (c : Client) (k : Kernel) : serveKeepsBody s c k = true := by
    simp only [serveKeepsBody, entered, static]
  induction reached with
  | created blocks => exact .created blocks
  | next _ step ih => exact ih.next (fun _ => keeps _ _) step
  | waits _ step rc ih => exact ih.waits (fun _ => keeps _ _) step rc
  | reset _ step ih => exact ih.reset (fun _ => keeps _ _) step

/-- A response is prepared for a request that static serving has answered. -/
theorem prepares_static (state : c.ta.state = .serve)
    (served : serveRequest s c k = some (serveStatic s c l)) {l' : Kernel}
    (prepared : prepareResponse (serveStatic s c l).client (serveStatic s c l).kernel =
      some { rc := 0, client := r, kernel := l' }) : ∃ l, Prepares s c k r l := by
  have leads : (serveStatic s c l).client.ta.state = .prepareResponse := rfl
  have early : c.ta.state ≠ .prepareResponse := by simp [state]
  rcases serveStep_serve state served with ⟨waits, -⟩ | ⟨-, step⟩
  · cases leads.symm.trans waits
  · rcases serveStep_prepareResponse (s := s) leads prepared with ⟨failed, -⟩ | ⟨-, step'⟩
    · exact absurd rfl failed
    · exact ⟨_, .next early step (.prepared leads step')⟩

/-- A used client between two transactions reads a static request and is ready to answer it. -/
theorem Recyclable.reads {h mem : Bytes} {req : Request} (used : Recyclable s c) (fresh : c.ta = {})
    (head : headEnd h = .finish mem req h.length) (fits : h.length ≤ httpBufsz)
    (receives : Receives c k h) : ∃ c' k', (∀ r l, Prepares s c k r l ↔ Prepares s c' k' r l) ∧
      HeadRead mem req c c' ∧ Answerable c' ∧ k'.fs = k.fs ∧ k'.errnos = k.errnos := by
  obtain ⟨v, heard, reuses⟩ := used.heard
  have state : c.ta.state = .read := by rw [fresh]
  have progress := (heard.recalls.reading state).1
  have idle : Idle c := ⟨progress.size, by rw [progress.fill]; exact progress.room, fresh⟩
  obtain ⟨rest, cut⟩ := receives.next
  obtain ⟨c', k', runs, read, fs, errnos, -⟩ := reads_head (s := s) head fits idle.progress
    receives.isOpen cut
  exact ⟨c', k', runs, read, read.answerable head fits reuses.toFirstSizes used.reachable.carries.size
    (reuses.empty state), fs, errnos⟩

/-- A static request gets the same response from a client with any transactions and connections behind
it, whose handlers have left the body buffer its room, as from a client that is new. -/
theorem static_response_independent {content content' : Int → Bytes} {k' : Kernel} {h mem : Bytes}
    {req : Request} (blocks : Blocks) (used : Recyclable s c) (fresh : c.ta = {})
    (head : headEnd h = .finish mem req h.length) (fits : h.length ≤ httpBufsz)
    (static : StaticHead s mem req) (receives : Receives c k h)
    (receives' : Receives (createClientStruct blocks) k' h) (files : SameFiles content content' k k')
    (errno : k'.errnos.headD .zero = k.errnos.headD .zero) :
    ∃ r l r' l', Prepares s c k r l ∧ Prepares s (createClientStruct blocks) k' r' l' ∧
      ∀ outside outside', responseBytes outside content r = responseBytes outside' content' r' := by
  obtain ⟨d, m, runs, read, a, fs, errnos⟩ := used.reads fresh head fits receives
  obtain ⟨d', m', runs', read', a', fs', errnos'⟩ :=
    Recyclable.reads (.created blocks) rfl head fits receives'
  obtain ⟨l, served, fs₁, errnos₁, -⟩ := read.serves static m
  obtain ⟨l', served', fs₁', errnos₁', -⟩ := read'.serves static m'
  obtain ⟨r, n, r', n', prepared, prepared', same⟩ := static_responses_agree (s := s) a a'
    (read.twins read' head a a' content content') (files.congr (fs₁.trans fs) (fs₁'.trans fs'))
    (by rw [errnos₁, errnos, errnos₁', errnos']; exact errno)
  obtain ⟨l, first⟩ := prepares_static (by rw [read.ta]) served prepared
  obtain ⟨l', first'⟩ := prepares_static (by rw [read'.ta]) served' prepared'
  exact ⟨r, l, r', l', (runs r l).mpr first, (runs' r' l').mpr first', same⟩

end Transactions

section Runs

variable {s : Server} {c r : Client} {k l : Kernel}

/-- The slot of a connection that the next step closes, as the next connection gets it. -/
def Conn.slot (s : Server) : Conn → Option Client
  | serving c k =>
    match serveStep s c k with
    | .back o => if o.rc = 0 then none else some (resetClient o.client o.kernel).1
    | _ => none
  | _ => none

def Recycled (s : Server) (c : Client) : Prop :=
  ∃ c₀ k₀ o, Reachable s c₀ ∧ serveStep s c₀ k₀ = .back o ∧ o.rc ≠ 0 ∧
    c = (resetClient o.client o.kernel).1

theorem run_slot (n : Nat) (reached : Reachable s c) {d : Client}
    (slot : (Conn.run s n (.serving c k)).slot s = some d) : Recycled s d := by
  have kept := run_reachable n k reached
  revert slot kept
  cases Conn.run s n (.serving c k) with
  | serving c' k' =>
    intro slot kept
    simp only [Conn.slot] at slot
    split at slot
    · rename_i o step
      split at slot
      · cases slot
      · rename_i rc
        cases slot
        exact ⟨c', k', o, kept, step, rc, rfl⟩
    · cases slot
  | waiting | closed | aborted => nofun

theorem Recycled.reachable (recycled : Recycled s c) : Reachable s c := by
  obtain ⟨c₀, k₀, o, reached, step, -, rfl⟩ := recycled
  exact reached.reset step

end Runs

def asking (text : String) : Kernel where
  input := [.chunk 71 (ascii text).tail]
  writes := [.bytes 10000]
  fs := fun _ => .empty

theorem asking_receives {c : Client} (empty : c.reqHeadersLen = 0) {text : String}
    (starts : 71 :: (ascii text).tail = ascii text) : Receives c (asking text) (ascii text) := by
  refine ⟨by simp [asking, OpenInput], [], ?_⟩
  rw [empty, List.take_zero, List.nil_append, List.append_nil, ← starts]
  exact List.append_nil _

theorem Recycled.empty {s : Server} {c : Client} (recycled : Recycled s c) :
    c.ta = {} ∧ c.reqHeadersLen = 0 := by
  obtain ⟨c₀, k₀, o, -, -, -, rfl⟩ := recycled
  exact ⟨rfl, rfl⟩

/-- The head of "GET /x", as the parser leaves it. -/
theorem headEnd_x : headEnd (ascii "GET /x HTTP/1.1\r\n\r\n") =
    .finish (ascii "GET /x" ++ 0 :: ascii "HTTP/1.1\r\n\r\n")
      { method := .get, version := .http11, contentLen := 0, path := some 4 }
      (ascii "GET /x HTTP/1.1\r\n\r\n").length := by decide +kernel

theorem noFiles (text : String) :
    SameFiles (fun _ => []) (fun _ => []) (asking text) (asking text) :=
  ⟨fun _ _ _ => rfl, fun _ _ _ => rfl⟩

theorem static_response_independent_recycled : ∃ c r l r' l', Recycled rootServer c ∧
    Prepares rootServer c (asking "GET /x HTTP/1.1\r\n\r\n") r l ∧
    Prepares rootServer (createClientStruct .zeroed) (asking "GET /x HTTP/1.1\r\n\r\n") r' l' ∧
    ∀ outside outside',
      responseBytes outside (fun _ => []) r = responseBytes outside' (fun _ => []) r' := by
  obtain ⟨c, slot⟩ := Option.isSome_iff_exists.mp (show ((Conn.run rootServer 4
    (.serving (createClientStruct .zeroed) (asking "GET /old HTTP/1.0\r\n\r\n"))).slot
      rootServer).isSome = true by decide +kernel)
  have recycled := run_slot 4 (.created .zeroed) slot
  obtain ⟨fresh, empty⟩ := recycled.empty
  obtain ⟨r, l, r', l', answer⟩ := static_response_independent .zeroed
    (recycled.reachable.recyclable rfl) fresh headEnd_x (by decide) nofun
    (asking_receives empty (by decide)) (asking_receives rfl (by decide)) (noFiles _) rfl
  exact ⟨c, r, l, r', l', recycled, answer⟩

section Shrunk

variable {s : Server} {c r : Client} {k l : Kernel}

theorem realloc_starved (starved : ∀ out ∈ k.reallocs, out = .failed) {n : Nat}
    (left : n + 1 ≤ k.reallocs.length) : k.realloc.1 = .failed ∧ n ≤ k.realloc.2.reallocs.length ∧
      ∀ out ∈ k.realloc.2.reallocs, out = .failed := by
  unfold Kernel.realloc
  cases found : k.reallocs with
  | nil =>
    rw [found] at left
    cases left
  | cons out rest =>
    rw [found] at left starved
    exact ⟨starved out (List.mem_cons_self ..), Nat.le_of_succ_le_succ left,
      fun out member => starved out (List.mem_cons_of_mem _ member)⟩

/-- A second text that needs a larger block is refused when memory is short. -/
theorem appendTexts_starved {first second : Bytes} (empty : c.respBody.len = 0)
    (fits : (first.length : Int) < c.respBody.max)
    (full : c.respBody.max ≤ (first.length : Int) + second.length)
    (starved : ∀ out ∈ k.reallocs, out = .failed) (two : 2 ≤ k.reallocs.length) :
    (appendTexts c k [first, second]).rc ≠ 0 := by
  obtain ⟨-, one, starved'⟩ := realloc_starved starved two
  obtain ⟨failed, -⟩ := realloc_starved starved' one
  obtain ⟨first_fits, same⟩ := @Buffer.append_fits c.respBody first k.realloc.1 (by omega)
  have len : (c.respBody.append first k.realloc.1).buffer.len = first.length := by
    rw [same]
    simp [empty]
  have max : (c.respBody.append first k.realloc.1).buffer.max = c.respBody.max := by
    rw [same]
    rfl
  generalize appended : c.respBody.append first k.realloc.1 = a at first_fits len max
  have refused : (a.buffer.append second .failed).rc = -1 := by
    rw [Buffer.append, Buffer.ensureSpace_failed (by omega) (by omega) rfl]
  simp [appendTexts, appended, first_fits, failed, refused]

theorem prepareErrorResponseBody_starved {path : Bytes} {q : Nat} {o : Outcome}
    (status : c.ta.resp.status = .http404NotFound) (asked : c.ta.req.path = some q)
    (text : cString c.reqHeaders q = path) (fits : 11 < c.respBody.max)
    (full : c.respBody.max ≤ 11 + path.length) (starved : ∀ out ∈ k.reallocs, out = .failed)
    (two : 2 ≤ k.reallocs.length) (canned : prepareErrorResponseBody c k = some o) : o.rc ≠ 0 := by
  intro rc
  obtain ⟨d, k', texts, known, empty, reallocs, rfl⟩ := prepareErrorResponseBody_texts canned rc
  simp only [errorBodyTexts, status, asked, text, Option.map_some, Option.some.injEq] at known
  subst known
  refine appendTexts_starved ?_ ?_ ?_ ?_ ?_ rc
  · rw [empty]
  · rw [empty]
    exact fits
  · rw [empty]
    exact full
  · rw [reallocs]
    exact starved
  · rw [reallocs]
    exact two

/-- A canned 404 that does not fit into the body buffer is not prepared when memory is short. -/
theorem prepareResponse_starved {path : Bytes} {q : Nat} {o : Outcome}
    (status : c.ta.resp.status = .http404NotFound)
    (flag : c.ta.resp.preserveBodyOnError = false) (asked : c.ta.req.path = some q)
    (text : cString c.reqHeaders q = path)
    (fits : 11 < c.respBody.max) (full : c.respBody.max ≤ 11 + path.length)
    (starved : ∀ out ∈ k.reallocs, out = .failed) (two : 2 ≤ k.reallocs.length)
    (prepared : prepareResponse c k = some o) : o.rc ≠ 0 := by
  have failing : c.ta.resp.status.isError = true := by
    rw [status]
    rfl
  rw [prepareResponse, if_neg (by simp [status]), if_pos failing, errorResponse] at prepared
  obtain ⟨e, canned, rfl⟩ := Option.map_eq_some_iff.mp prepared
  have refused : e.rc ≠ 0 := by
    rw [prepareError, if_neg (by simp [flag])] at canned
    split at canned
    · exact prepareErrorResponseBody_starved status asked text fits full starved two canned
    · have not_405 : (resetHeaders c).ta.resp.status ≠ .http405MethodNotAllowed := by
        change c.ta.resp.status ≠ _
        simp [status]
      simp only [prepareErrorResponseHeaders, if_neg not_405, if_true] at canned
      exact @prepareErrorResponseBody_starved (resetHeaders c) k path q e status asked text fits full
        starved two canned
  rw [if_pos refused]
  exact refused

/-- Without files and without fallbacks, every path is answered with 404. -/
theorem serveStatic_missing {path : Bytes} {q : Nat} (context : s.defaultContext = rootServer.defaultContext)
    (get : c.ta.req.method = .get) (asked : c.ta.req.path = some q)
    (text : cString c.reqHeaders q = path) (short : path.length + 1 < pathMax)
    (unset : c.ta.resp.status = .xRespStatusUnset) (empty : ∀ t, k.fs t = .empty) :
    (serveStatic s c k).client = (c.setStatus .http404NotFound).setState .prepareResponse ∧
      (serveStatic s c k).kernel.reallocs = k.reallocs := by
  have method : c.ta.req.method.bits &&& HttpMethod.get.bits ≠ 0 := by
    rw [get]
    decide
  have name : candidates s.defaultContext path path = [ascii "/" ++ path] := by
    rw [context]
    rfl
  have known : ((c.ta.req.path.map (cString c.reqHeaders)).getD []) = path := by
    rw [asked]
    exact text
  have fits : ¬ (ascii "/" ++ path).length ≥ pathMax := by
    rw [List.length_append]
    have one : (ascii "/").length = 1 := rfl
    omega
  have none : (k.staleErrno.2.stat (ascii "/" ++ path)).1 = .error (.other 2) := by
    rw [Kernel.stat, Kernel.staleErrno]
    simp only [empty, FileSystem.empty]
  have tried : tryPaths c k.staleErrno.2 k.staleErrno.1 [ascii "/" ++ path] =
      .stop (c.setStatus .http404NotFound) (k.staleErrno.2.stat (ascii "/" ++ path)).2 (.other 2) := by
    have verified : verifyStaticPath c k.staleErrno.2 k.staleErrno.1 (ascii "/" ++ path) =
        { stat := .none, client := c, kernel := (k.staleErrno.2.stat (ascii "/" ++ path)).2
          errno := .other 2 } := by
      rw [verifyStaticPath, if_neg fits]
      generalize k.staleErrno.2.stat (ascii "/" ++ path) = answer at none
      obtain ⟨found, after⟩ := answer
      cases none
      rfl
    simp only [tryPaths, verified, unset, ne_eq, not_true_eq_false, if_false]
  simp only [serveStatic, handleStaticPath, Option.getD_none, if_neg method, known, name, tried]
  exact ⟨rfl, rfl⟩

end Shrunk

def longPath : Bytes := (List.replicate 1150 (ascii "/a")).flatten

def longGet : RequestText :=
  { method := .get, path := longPath, query := none, version := .http11, headers := [] }

/-- A handler that writes 2304 bytes, is refused 2048 more, and answers with a 500. -/
def refusedProgram : Program :=
  .call (.writeBody (List.replicate 2304 97)) fun _ =>
    .call (.writeBodyFmt (some (List.replicate 2048 98)) (some (List.replicate 2048 98))) fun _ =>
      .call (.setResponseStatus 500) fun _ => .ret

/-- No store leaves its block, but the formatted one has realloc cut the block to its own length. -/
example :
    let a := (Buffer.init (List.replicate httpBufsz 0)).append (List.replicate 2304 97) (.moved fun _ => 0)
    let b := a.buffer.appendva (some (List.replicate 2048 98)) (some (List.replicate 2048 98))
      (.moved fun _ => 0)
    b.rc = -1 ∧ b.buffer.buf.length = 2048 ∧ ∀ w ∈ a.stores ++ b.stores, w.Inside := by decide +kernel

def refusedTree : ApiTree :=
  .node [] 0 [] [{ endpoint (ascii "w") with handler := fun _ => refusedProgram }]

def refusedServer : Server := { rootServer with apiTree := some refusedTree }

def askingLong : Kernel where
  input := RequestText.arrivalOf longGet.bytes
  writes := [.bytes 10000]
  reallocs := [.failed, .failed]
  fs _ := .empty

theorem longPath_bytes {b : Byte} (member : b ∈ longPath) : b = 47 ∨ b = 97 := by
  obtain ⟨segment, repeated, inside⟩ := List.mem_flatten.mp member
  rw [List.eq_of_mem_replicate repeated] at inside
  simpa [ascii] using inside

theorem longPath_length : longPath.length = 2300 := by
  rw [longPath, List.length_flatten, List.map_replicate, List.sum_replicate]
  rfl

theorem longPath_decoded : decodedText longPath = longPath := by
  have plain (b : Byte) (other : ¬ (b = 47 ∨ b = 97)) : b ∉ longPath :=
    fun member => other (longPath_bytes member)
  exact decodedText_of_plain (plain _ (by decide)) (plain _ (by decide))

theorem longGet_wellFormed : longGet.WellFormed where
  method := by decide
  target := by
    intro b member
    have same : longGet.target = longPath := List.append_nil _
    rw [same] at member
    rcases longPath_bytes member with rfl | rfl
    · decide
    · decide
  mark := by
    intro member
    rcases longPath_bytes member with same | same
    · cases same
    · cases same
  path := by
    rw [show longGet.path = longPath from rfl, longPath_decoded]
    apply attemptedPathTraversal_of_plain
    intro member
    rcases longPath_bytes member with same | same
    · cases same
    · cases same
  headers := by
    rintro h ⟨⟩

theorem shrunk_slot : ((Conn.run refusedServer 4 (.serving (createClientStruct .zeroed)
    (asking "GET /w HTTP/1.0\r\n\r\n"))).slot refusedServer).any fun c =>
      c.respBody.max = 2304 ∧ c.respBody.len = 0 ∧ c.reqHeaders.length = httpBufsz := by
  decide +kernel

theorem longGet_length : longGet.bytes.length = 2317 := by
  have target : longGet.target = longPath := List.append_nil _
  have method : (methodText longGet.method).length = 3 := rfl
  have behind : (ascii "HTTP/" ++ versionText longGet.version ++ 13 :: 10 ::
      HeaderText.lines longGet.headers).length = 12 := rfl
  rw [RequestText.bytes, target, List.length_append, method, List.length_cons, List.length_append,
    List.length_cons, behind, longPath_length]

theorem askingLong_receives {c : Client} (empty : c.reqHeadersLen = 0) :
    Receives c askingLong longGet.bytes := by
  have some_byte : longGet.bytes = 71 :: longGet.bytes.tail := rfl
  have input : askingLong.input = [.chunk 71 longGet.bytes.tail] := by
    rw [askingLong, some_byte]
    rfl
  refine ⟨by simp [input, OpenInput], [], ?_⟩
  rw [empty, input, List.take_zero, List.nil_append, List.append_nil, some_byte]
  exact List.append_nil _

/-- The long request is for no entry of the tree. -/
theorem longGet_static {mem : Bytes} {req : Request} {q : Nat}
    (head : headEnd longGet.bytes = .finish mem req longGet.bytes.length) (get : req.method = .get)
    (asked : req.path = some q) (text : cString mem q = longPath) :
    StaticHead refusedServer mem req := by
  have here := TextAt.of_terminated ((headEnd_strings head).ends q (mem_strings_path asked))
  rw [text] at here
  have slash : skipSlashes mem q = q + 1 := here.skipSlashes_eq
  have inside : ∀ p, descendsPastEnd mem req.method.bits 0 refusedTree refusedTree p = false := by
    intro p
    rw [descendsPastEnd]
    generalize scanEntries mem req.method.bits p (segmentEnd mem p) 0 refusedTree.entries = scan
    have nowhere : scanSubtrees mem p (segmentEnd mem p) refusedTree.subtrees
        refusedTree.subtrees = .notFound := rfl
    split
    · rfl
    · split
      · rfl
      · split
        · rename_i found
          cases nowhere.symm.trans found
        · rfl
  have tree : refusedServer.apiTree = some refusedTree := rfl
  refine staticHead_of_path head tree (inside _) ?_
  have there : TextAt (longPath.drop 1 ++ [0]) 0 (longPath.drop 1) :=
    ⟨fun member => here.plain (List.mem_of_mem_drop member), [], rfl⟩
  have one : 1 ≤ longPath.length := by
    rw [longPath_length]
    decide
  rw [asked, Option.getD_some, slash, (parse_of_text (here.drop one) there (inside _)).1, get]
  decide +kernel

/-- Behind the head, memory is too short for the canned 404. -/
theorem longGet_unanswered {c r : Client} {k m l : Kernel} {q : Nat}
    (served : serveRequest refusedServer c k = some (serveStatic refusedServer c m))
    (state : c.ta.state = .serve) (get : c.ta.req.method = .get) (asked : c.ta.req.path = some q)
    (text : cString c.reqHeaders q = longPath) (fresh : c.ta.resp = {})
    (max : c.respBody.max = 2304) (empty : ∀ t, m.fs t = .empty)
    (starved : m.reallocs = [.failed, .failed]) : ¬ Prepares refusedServer c k r l := by
  intro prepares
  have short : longPath.length + 1 < pathMax := by
    rw [longPath_length]
    decide
  obtain ⟨client, reallocs⟩ := serveStatic_missing (s := refusedServer) rfl get asked text short
    (by rw [fresh]) empty
  generalize serveStatic refusedServer c m = o at served client reallocs
  obtain ⟨rc, d, n⟩ := o
  cases client
  have failed : ∀ o', prepareResponse ((c.setStatus .http404NotFound).setState .prepareResponse) n =
      some o' → o'.rc ≠ 0 := by
    intro o' prepared
    refine prepareResponse_starved (c := (c.setStatus .http404NotFound).setState .prepareResponse)
      rfl ?_ asked text ?_ ?_ ?_ ?_ prepared
    · change c.ta.resp.preserveBodyOnError = false
      rw [fresh]
    · change 11 < c.respBody.max
      rw [max]
      decide
    · change c.respBody.max ≤ _
      rw [max, longPath_length]
      decide
    · rw [reallocs, starved]
      simp
    · rw [reallocs, starved]
      exact Nat.le_refl _
  have leads : ((c.setStatus .http404NotFound).setState .prepareResponse).ta.state =
      .prepareResponse := rfl
  rcases serveStep_serve state served with ⟨waits, -⟩ | ⟨-, step⟩
  · cases leads.symm.trans waits
  · have early : c.ta.state ≠ .prepareResponse := by simp [state]
    have later := (prepares_next early step).mp prepares
    cases prepared : prepareResponse ((c.setStatus .http404NotFound).setState .prepareResponse) n with
    | none =>
      have stops : serveStep refusedServer
          ((c.setStatus .http404NotFound).setState .prepareResponse) n = .abort := by
        simp only [serveStep, leads, prepared]
      cases later with
      | next _ step' => cases stops.symm.trans step'
      | waits step' => cases stops.symm.trans step'
      | prepared _ step' => cases stops.symm.trans step'
    | some o' =>
      rcases serveStep_prepareResponse (s := refusedServer) leads prepared with
        ⟨-, closes⟩ | ⟨rc, -⟩
      · cases later with
        | next _ step' => cases closes.symm.trans step'
        | waits step' rc' =>
          cases closes.symm.trans step'
          cases rc'
        | prepared _ step' => cases closes.symm.trans step'
      · exact failed o' prepared rc

/-- A request whose body text is longer than the buffer that an earlier connection has left is not
answered when memory is short, and a new client answers it. -/
theorem shrunk_slot_unanswered : ∃ c mem req r' l', Recycled refusedServer c ∧
    headEnd longGet.bytes = .finish mem req longGet.bytes.length ∧
    StaticHead refusedServer mem req ∧ Receives c askingLong longGet.bytes ∧
    (∀ r l, ¬ Prepares refusedServer c askingLong r l) ∧
    Prepares refusedServer (createClientStruct .zeroed) askingLong r' l' := by
  obtain ⟨mem, req, head, info⟩ := (RequestText.headEnd_text longGet_wellFormed).1 (by rintro h ⟨⟩)
  have get : req.method = .get := congrArg HeadInfo.method info
  have path : req.path.map (cString mem) = some longPath :=
    (congrArg HeadInfo.path info).trans (congrArg some longPath_decoded)
  obtain ⟨q, asked, text⟩ := Option.map_eq_some_iff.mp path
  have static := longGet_static head get asked text
  have fits : longGet.bytes.length ≤ httpBufsz := by
    rw [longGet_length]
    decide
  obtain ⟨c, slot, left⟩ := (Option.any_eq_true _ _).mp shrunk_slot
  obtain ⟨max, -, size⟩ := of_decide_eq_true left
  have recycled := run_slot 4 (.created .zeroed) slot
  obtain ⟨fresh, filled⟩ := recycled.empty
  have receives := askingLong_receives filled
  have unanswered : ∀ r l, ¬ Prepares refusedServer c askingLong r l := by
    intro r l prepares
    have idle : Idle c := ⟨size, by rw [filled]; exact Nat.zero_le _, fresh⟩
    obtain ⟨rest, cut⟩ := receives.next
    obtain ⟨d, m, runs, read, fs, -, reallocs⟩ := reads_head (s := refusedServer) head fits
      idle.progress receives.isOpen cut
    obtain ⟨n, served, fs', -, reallocs'⟩ := read.serves static m
    have block : d.respBody = c.respBody := by rw [read.client]
    have same := (read.textAt head (mem_strings_path asked)).reads
    refine longGet_unanswered served (by rw [read.ta]) (by rw [read.ta]; exact get)
      (by rw [read.ta]; exact asked) (same.trans text) (by rw [read.ta]) (by rw [block]; exact max)
      ?_ ?_ ((runs r l).mp prepares)
    · intro t
      rw [fs', fs]
      rfl
    · rw [reallocs', reallocs]
      rfl
  obtain ⟨d, m, runs, read, a, -⟩ := Recyclable.reads (s := refusedServer) (.created .zeroed) rfl
    head fits (askingLong_receives rfl)
  obtain ⟨n, served, -⟩ := read.serves static m
  obtain ⟨r', l, prepared, -⟩ := a.prepared (s := refusedServer) (k := n) fun _ => []
  obtain ⟨l', first⟩ := prepares_static (by rw [read.ta]) served prepared
  exact ⟨c, mem, req, r', l', recycled, head, static, receives, unanswered, (runs r' l').mpr first⟩

end Kitserv
