import Kitserv.RequestText
import Kitserv.RouteFlags

namespace Kitserv

section Value

def allowedMethods (flags : Nat) : List HttpMethod :=
  (if flags &&& HttpMethod.get.bits ≠ 0 then [.get, .head] else []) ++
  (if flags &&& HttpMethod.put.bits ≠ 0 then [.put] else []) ++
  (if flags &&& HttpMethod.post.bits ≠ 0 then [.post] else []) ++
  (if flags &&& HttpMethod.delete.bits ≠ 0 then [.delete] else [])

def listedMethods (value : Bytes) : List Bytes :=
  (value.splitOn 44).map fun name => name.dropWhile (· == 32)

theorem names_listed (get put post delete : Prop) [Decidable get] [Decidable put] [Decidable post]
    [Decidable delete] :
    let body := (if get then ascii "GET, HEAD, " else []) ++ (if put then ascii "PUT, " else []) ++
      (if post then ascii "POST, " else []) ++ (if delete then ascii "DELETE, " else [])
    body.length > 2 → listedMethods (body.take (body.length - 2)) = List.map methodText
      ((if get then [.get, .head] else []) ++ (if put then [.put] else []) ++
        (if post then [.post] else []) ++ (if delete then [.delete] else [])) ∧
      13 ∉ body.take (body.length - 2) := by
  by_cases get <;> by_cases put <;> by_cases post <;> by_cases delete <;>
    simp only [*, if_true, if_false] <;> decide +kernel

theorem allowValue_lists {flags : Nat} (known : (allowBody flags).length > 2) :
    listedMethods (allowValue flags) = (allowedMethods flags).map methodText ∧
      13 ∉ allowValue flags := by
  have some : flags ≠ 0 := by
    rintro rfl
    exact absurd known (by decide)
  rw [allowValue, if_pos some]
  exact names_listed _ _ _ _ known

theorem static_lists : listedMethods (allowValue 0) = [HttpMethod.get, .head].map methodText ∧
    13 ∉ allowValue 0 := by decide +kernel

theorem mem_allowedMethods {flags : Nat} (m : HttpMethod) : m ∈ allowedMethods flags ↔
    m.bits &&& flags ≠ 0 ∧ (m = .head → HttpMethod.get.bits &&& flags ≠ 0) := by
  have unlisted (p : Prop) [Decidable p] (ms : List HttpMethod) :
      m ∈ (if p then ms else []) ↔ p ∧ m ∈ ms := by
    split <;> simp [*]
  have head : HttpMethod.get.bits &&& flags ≠ 0 → HttpMethod.head.bits &&& flags ≠ 0 := by
    intro get both
    have bits : HttpMethod.head.bits = 4 ||| HttpMethod.get.bits := rfl
    rw [bits, Nat.and_or_distrib_right, Nat.or_eq_zero_iff] at both
    exact get both.2
  simp only [allowedMethods, List.mem_append, unlisted, Nat.and_comm flags]
  cases m with
  | unset => simp [HttpMethod.bits]
  | head => simpa using head
  | get | put | post | delete => simp

end Value

section Header

/-- Who has refused the method of a request: the routing, for the entries that match its path, or
static serving, for the request itself or for its handler. -/
inductive Refuser where
  | routing (entries : List ApiEntry)
  | static
  | calledStatic

def Refuser.accepts : Refuser → HttpMethod → Bool
  | routing entries, m => entries.any (Kitserv.accepts m.bits)
  | static, m | calledStatic, m => m = .get ∨ m = .head

def OnlyFirst (key value block : Bytes) : Prop :=
  13 ∉ value ∧ ∃ others : List Header, (∀ h ∈ others, h.1 ≠ key) ∧
    block = headerLine key value ++ others.flatMap Header.line ++ ascii "\r\n"

/-- The prepared response has an allow header, which names exactly the methods that `r` accepts, and
not the one of the request. -/
def AllowHeader (r : Refuser) (method : HttpMethod) (c : Client) : Prop :=
  ∃ value, OnlyFirst (ascii "allow") value c.headerBlock ∧
    (∀ name, name ∈ listedMethods value ↔ ∃ m, r.accepts m = true ∧ name = methodText m) ∧
    methodText method ∉ listedMethods value

theorem OnlyFirst.unique {key value value' block : Bytes} (h : OnlyFirst key value block)
    (h' : OnlyFirst key value' block) : value' = value := by
  have cut {value : Bytes} (h : OnlyFirst key value block) :
      (block.drop (key ++ ascii ": ").length).takeWhile (fun b => b != 13) = value := by
    obtain ⟨line, others, -, rfl⟩ := h
    have behind : headerLine key value ++ others.flatMap Header.line ++ ascii "\r\n" =
        (key ++ ascii ": ") ++ (value ++ 13 :: (10 :: (others.flatMap Header.line ++ ascii "\r\n"))) := by
      have crlf : ascii "\r\n" = [13, 10] := rfl
      simp [headerLine, crlf]
    rw [behind, List.drop_left, List.takeWhile_append_of_pos, List.takeWhile_cons_of_neg (by simp),
      List.append_nil]
    intro b member
    exact bne_iff_ne.mpr fun eq => line (eq ▸ member)
  exact (cut h').symm.trans (cut h)

theorem methodText_injective {m m' : HttpMethod} (h : methodText m = methodText m') : m = m' := by
  cases m <;> cases m' <;> first | rfl | exact absurd h (by decide)

theorem allowHeader_iff {r : Refuser} {method : HttpMethod} {c : Client} {value : Bytes}
    {names : List HttpMethod} (first : OnlyFirst (ascii "allow") value c.headerBlock)
    (lists : listedMethods value = names.map methodText) :
    AllowHeader r method c ↔ (∀ m, m ∈ names ↔ r.accepts m = true) ∧ method ∉ names := by
  have listed (m : HttpMethod) : methodText m ∈ listedMethods value ↔ m ∈ names := by
    rw [lists]
    exact ⟨fun member => by
      obtain ⟨m', member', same⟩ := List.mem_map.mp member
      exact methodText_injective same ▸ member', List.mem_map_of_mem⟩
  constructor
  · rintro ⟨value', first', exact, other⟩
    rw [first.unique first'] at exact other
    refine ⟨fun m => ?_, fun member => other ((listed method).mpr member)⟩
    rw [← listed, exact]
    constructor
    · rintro ⟨m', accepts, same⟩
      exact methodText_injective same ▸ accepts
    · exact fun accepts => ⟨m, accepts, rfl⟩
  · rintro ⟨all, other⟩
    refine ⟨value, first, fun name => ?_, fun member => other ((listed method).mp member)⟩
    rw [lists, List.mem_map]
    constructor
    · rintro ⟨m, member, rfl⟩
      exact ⟨m, (all m).mp member, rfl⟩
    · rintro ⟨m, accepts, rfl⟩
      exact ⟨m, (all m).mpr accepts, rfl⟩

end Header

section Responses

variable {s : Server} {c : Client} {k : Kernel}

inductive Raises (s : Server) (c : Client) (k : Kernel) : Refuser → Prop where
  | routing {tree : ApiTree} {flags : Nat} (refuses : RoutingRefuses s c tree flags) :
      Raises s c k (.routing (entriesMatched c.reqHeaders tree tree c.routeStart))
  | unrouted (none : s.apiTree = none) (refused : c.refusable = true) : Raises s c k .static
  | fallback {c' : Client} {k' : Kernel} (enters : Enters s c k c' k')
      (none : c'.ta.api.endpointHit = none) (refused : c'.refusable = true) : Raises s c k .static
  | called {c' : Client} {k' : Kernel} {handler : Handler} (enters : Enters s c k c' k')
      (hit : c'.ta.api.endpointHit = some handler)
      (inside : refusedInside s (handler c'.ta.api.internalData) c'
        (k'.emit (.called c'.ta.api.internalData)) false = true) : Raises s c k .calledStatic

def Client.dropsHeaders (c : Client) : Prop :=
  c.ta.resp.preserveHeadersOnError = false ∧ c.ta.resp.preserveBodyOnError = false

def cannedHeaders (length : Int) : List Header :=
  [(ascii "content-type", ascii "text/plain"), (ascii "content-length", decimal length),
    (ascii "server", serverName)]

theorem cannedHeaders_other (length : Int) : ∀ h ∈ cannedHeaders length, h.1 ≠ ascii "allow" := by
  have type : ascii "content-type" ≠ ascii "allow" := by decide
  have announced : ascii "content-length" ≠ ascii "allow" := by decide
  have server : ascii "server" ≠ ascii "allow" := by decide
  simp [cannedHeaders, type, announced, server]

/-- The 405 response that is prepared: the allow header comes first. -/
theorem notAllowed_block {p : Outcome} (ok : HeadersOk c)
    (status : c.ta.resp.status = .http405MethodNotAllowed) (drops : c.dropsHeaders)
    (prepared : prepareResponse c k = some p) (rc : p.rc = 0) :
    ∃ others : List Header, (∀ h ∈ others, h.1 ≠ ascii "allow") ∧ p.client.headerBlock =
      headerLine (ascii "allow") (allowValue c.ta.api.allowFlags) ++ others.flatMap Header.line ++
        ascii "\r\n" := by
  have canned : errorResponse c k = some p := by
    unfold prepareResponse at prepared
    rwa [status, if_neg (by decide), if_pos (by decide)] at prepared
  obtain ⟨e, r, -, -, -, rfl, headers⟩ := errorResponse_parts ok drops.2 canned rc
  refine ⟨cannedHeaders (announcedLength e.client), cannedHeaders_other _, ?_⟩
  rw [headers.described.headers, cannedBlock, drops.1, if_neg (by simp), allowBlock, if_pos status]
  simp [cannedHeaders, Header.line, lastLines]

/-- The assertion of `http_header_add_allow` has held. -/
theorem notAllowed_known {p : Outcome} (status : c.ta.resp.status = .http405MethodNotAllowed)
    (drops : c.dropsHeaders) (prepared : prepareResponse c k = some p)
    (some : c.ta.api.allowFlags ≠ 0) : (allowBody c.ta.api.allowFlags).length > 2 := by
  by_contra short
  have aborts : prepareErrorResponseHeaders c = none := by
    have wiped : (resetHeaders c).ta.resp.status = .http405MethodNotAllowed := status
    have flags : (resetHeaders c).ta.api.allowFlags ≠ 0 := some
    simp only [prepareErrorResponseHeaders]
    rw [if_pos wiped, headerAddAllow, if_pos flags]
    exact if_neg short
  unfold prepareResponse errorResponse prepareError at prepared
  rw [status, if_neg (by decide), if_pos (by decide), if_neg (by simp [drops.2]),
    if_neg (by simp [drops.1]), aborts] at prepared
  cases prepared

theorem RoutingRefuses.served {tree : ApiTree} {flags : Nat} {o : Outcome}
    (h : RoutingRefuses s c tree flags) (served : serveRequest s c k = some o) :
    o = serveCont (c.notAllowed flags) (k.emit .routed) := by
  obtain ⟨found, fresh, route⟩ := h
  unfold Client.routeStart at route
  simp only [serveRequest, found, fresh, Option.isSome_none, Bool.false_eq_true, if_false,
    route] at served
  split at served
  · cases served
  · rw [← Option.some.inj served]
    simp only [Client.notAllowed, fresh]

theorem Enters.served {c' : Client} {k' : Kernel} {o : Outcome} (enters : Enters s c k c' k')
    (served : serveRequest s c k = some o) : o = serveEndpoint s c' k' := by
  cases enters with
  | selected found hit =>
    simp only [serveRequest, found, hit, if_true] at served
    exact (Option.some.inj served).symm
  | routed found none route =>
    unfold Client.routeStart at route
    simp only [serveRequest, found, none, Option.isSome_none, Bool.false_eq_true, if_false,
      route] at served
    split at served
    · cases served
    · exact (Option.some.inj served).symm

theorem Enters.method {c' : Client} {k' : Kernel} (enters : Enters s c k c' k') :
    c'.ta.req.method = c.ta.req.method := by cases enters <;> rfl

/-- The flags that the allow header is made of, next to the component that has refused. -/
inductive Flagged (method : HttpMethod) (flags : Nat) : Refuser → Prop where
  | routing {entries : List ApiEntry} (all : flags = methodsOf entries) (some : flags ≠ 0)
      (refused : method.bits &&& flags = 0) : Flagged method flags (.routing entries)
  | static (none : flags = 0) (refused : method.bits &&& HttpMethod.get.bits = 0) :
      Flagged method flags .static
  | called (accepted : method.bits &&& flags ≠ 0)
      (refused : method.bits &&& HttpMethod.get.bits = 0) : Flagged method flags .calledStatic

theorem handleStaticPath_refused {path : Bytes} {ctx : Option RequestContext} (refused : c.refusable = true) :
    (handleStaticPath s c k path ctx).client = c.setStatus .http405MethodNotAllowed := by
  have none : c.ta.req.method.bits &&& HttpMethod.get.bits = 0 := by
    simpa [Client.refusable] using refused
  unfold handleStaticPath
  simp only [none, if_true]

/-- The routing and the handler lead to these flags. -/
theorem Raises.flagged {r : Refuser} {o : Outcome} (raises : Raises s c k r) (carries : Carries s c)
    (state : c.ta.state = .serve) (served : serveRequest s c k = some o) :
    Flagged c.ta.req.method o.client.ta.api.allowFlags r := by
  have bits {c : Client} (refused : c.refusable = true) :
      c.ta.req.method.bits &&& HttpMethod.get.bits = 0 := by
    simpa [Client.refusable] using refused
  cases raises with
  | @routing tree flags refuses =>
    have law := parseApiTree_flags c.reqHeaders c.ta.req.method.bits tree tree c.routeStart
    rw [refuses.route] at law
    obtain ⟨all, some, refused⟩ := law
    rw [refuses.served served]
    exact .routing all some refused
  | unrouted none refused =>
    simp only [serveRequest, none, Option.some.injEq] at served
    have unhit : c.ta.api.endpointHit = Option.none := by
      by_contra hit
      have tree := (carries.routed state (Option.isSome_iff_ne_none.mpr hit)).1
      rw [none] at tree
      cases tree
    rw [← served]
    simp only [serveStatic, handleStaticPath_refused refused]
    refine .static ?_ (bits refused)
    exact congrArg Api.allowFlags (carries.fresh (.inr ⟨state, unhit⟩))
  | fallback enters none refused =>
    rw [enters.served served]
    simp only [serveEndpoint, none, serveStatic, handleStaticPath_refused refused]
    exact .static ((enters.flags carries state).2 none) (enters.method ▸ bits refused)
  | @called c' k' handler enters hit inside =>
    have refused : c'.refusable = true := refusedInside_refusable (by simp) inside
    have accepted := (enters.flags carries state).1 (by rw [hit]; rfl) refused
    have frame := (runProgram_frame s (handler c'.ta.api.internalData) c'
      (k'.emit (.called c'.ta.api.internalData))).client
    rw [enters.served served]
    simp only [serveEndpoint, hit]
    generalize runProgram s (handler c'.ta.api.internalData) c' _ = r at frame
    have flags : r.1.ta.api.allowFlags = c'.ta.api.allowFlags := by rw [frame.same]
    rw [← enters.method]
    split
    · exact .called (flags ▸ accepted) (bits refused)
    · refine .called ?_ (bits refused)
      exact flags ▸ accepted

theorem Flagged.allowHeader_iff {r : Refuser} {method : HttpMethod} {flags : Nat} {c : Client}
    (h : Flagged method flags r) (known : flags ≠ 0 → (allowBody flags).length > 2)
    (block : ∃ others : List Header, (∀ h ∈ others, h.1 ≠ ascii "allow") ∧ c.headerBlock =
      headerLine (ascii "allow") (allowValue flags) ++ others.flatMap Header.line ++ ascii "\r\n") :
    AllowHeader r method c ↔ r ≠ .calledStatic ∧ (r.accepts .head = true → r.accepts .get = true) := by
  cases h with
  | @routing entries all some refused =>
    obtain ⟨lists, line⟩ := allowValue_lists (known some)
    have accepts (m : HttpMethod) : (Refuser.routing entries).accepts m = true ↔ m.bits &&& flags ≠ 0 := by
      rw [all, and_methodsOf]
      rfl
    simp only [Kitserv.allowHeader_iff ⟨line, block⟩ lists, accepts, mem_allowedMethods, refused,
      not_true_eq_false, false_and, not_false_eq_true, and_true, ne_eq, reduceCtorEq, true_and]
    constructor
    · exact fun exact head => ((exact .head).mpr head).2 rfl
    · refine fun get m => ⟨And.left, fun accepted => ⟨accepted, ?_⟩⟩
      rintro rfl
      exact get accepted
  | static none refused =>
    subst none
    obtain ⟨lists, line⟩ := static_lists
    rw [Kitserv.allowHeader_iff ⟨line, block⟩ lists]
    refine iff_of_true ⟨fun m => by simp [Refuser.accepts], ?_⟩ ⟨nofun, fun _ => rfl⟩
    simp only [List.mem_cons, List.not_mem_nil, or_false]
    rintro (rfl | rfl) <;> cases refused
  | called accepted refused =>
    have some : flags ≠ 0 := by
      rintro rfl
      exact accepted (Nat.and_zero _)
    obtain ⟨lists, line⟩ := allowValue_lists (known some)
    rw [Kitserv.allowHeader_iff ⟨line, block⟩ lists]
    refine iff_of_false (fun all => all.2 ?_) fun direct => direct.1 rfl
    refine (mem_allowedMethods method).mpr ⟨accepted, ?_⟩
    rintro rfl
    cases refused

structure NotAllowedResponse (s : Server) (c : Client) (k : Kernel) (o p : Outcome) : Prop where
  reached : Reachable s c
  state : c.ta.state = .serve
  served : serveRequest s c k = some o
  status : o.client.ta.resp.status = .http405MethodNotAllowed
  drops : o.client.dropsHeaders
  prepared : prepareResponse o.client o.kernel = some p
  rc : p.rc = 0

/-- The allow header of a 405 response is right exactly if the method has not been refused by static
serving for a handler, and entries that accept HEAD come with one for GET. -/
theorem allow_header_iff {r : Refuser} {o p : Outcome} (response : NotAllowedResponse s c k o p)
    (raises : Raises s c k r) : AllowHeader r c.ta.req.method p.client ↔
      r ≠ .calledStatic ∧ (r.accepts .head = true → r.accepts .get = true) := by
  obtain ⟨reached, state, served, status, drops, prepared, rc⟩ := response
  have carries := reached.carries
  have flagged := raises.flagged carries state served
  have prepares : o.client.ta.state = .prepareResponse := by
    refine (serveRequest_state served state).2.resolve_left fun waits => ?_
    obtain ⟨-, -, -, unset⟩ := serveRequest_waits served waits
    rw [unset] at status
    cases status
  have lines := (serveRequest_carries carries state served).lines (.inr (.inr prepares))
  exact flagged.allowHeader_iff (notAllowed_known status drops prepared)
    (notAllowed_block lines.headers status drops prepared rc)

end Responses

section Endpoint

def postingFile : ApiEntry where
  pathPrefix := ascii "a"
  prefixLength := 1
  method := HttpMethod.post.bits
  handler _ := .call (.handleStaticPath (ascii "a") none) fun _ => .ret
  finishesPath := false

def posting : Server := { rootServer with apiTree := some (.node [] 0 [] [postingFile]) }

def requestA (first : Byte) (rest : Bytes) : Kernel where
  input := [.chunk first (rest ++ ascii " /a HTTP/1.1\r\n\r\n")]
  fs _ := .empty

def firstRefused (s : Server) (k : Kernel) (check : Client → Client → Bool) : Bool :=
  match serveStep s (createClientStruct Blocks.zeroed) k with
  | .next c k =>
    match serveRequest s c k with
    | none => false
    | some o =>
      match prepareResponse o.client o.kernel with
      | none => false
      | some p => check c p.client && decide (c.ta.state = .serve ∧
          o.client.ta.resp.status = .http405MethodNotAllowed ∧
          o.client.ta.resp.preserveHeadersOnError = false ∧
          o.client.ta.resp.preserveBodyOnError = false ∧ p.rc = 0)
  | _ => false

theorem firstRefused_response {s : Server} {k : Kernel} {check : Client → Client → Bool}
    (h : firstRefused s k check = true) :
    ∃ c k' o p, NotAllowedResponse s c k' o p ∧ check c p.client = true := by
  unfold firstRefused at h
  split at h
  · rename_i c k' step
    split at h
    · cases h
    · rename_i o served
      split at h
      · cases h
      · rename_i p prepared
        simp only [Bool.and_eq_true, decide_eq_true_eq] at h
        obtain ⟨checked, state, status, headers, body, rc⟩ := h
        exact ⟨c, k', o, p, ⟨.next (.created Blocks.zeroed) step, state, served, status,
          ⟨headers, body⟩, prepared, rc⟩, checked⟩
  · cases h

def Client.asksPosting (m : HttpMethod) (c : Client) : Bool :=
  c.ta.req.method = m && c.ta.api.endpointHit.isNone &&
    entryMatches c.reqHeaders c.routeStart (segmentEnd c.reqHeaders c.routeStart) postingFile

theorem posting_route {c : Client} {m : HttpMethod} (asks : c.asksPosting m = true) :
    c.ta.req.method = m ∧ c.ta.api.endpointHit = none ∧
      parseApiTree c.reqHeaders c.ta.req.method.bits 0 (.node [] 0 [] [postingFile])
        (.node [] 0 [] [postingFile]) c.routeStart =
        (if m.bits &&& 8 ≠ 0 then .done (some postingFile.handler) 8 else .methodNotAllowed 8) ∧
      entriesMatched c.reqHeaders (.node [] 0 [] [postingFile]) (.node [] 0 [] [postingFile])
        c.routeStart = [postingFile] := by
  simp only [Client.asksPosting, Bool.and_eq_true, decide_eq_true_eq,
    Option.isNone_iff_eq_none] at asks
  obtain ⟨⟨rfl, fresh⟩, matched⟩ := asks
  have segment := ((Bool.and_eq_true _ _).mp matched).1
  have scan : scanEntries c.reqHeaders c.ta.req.method.bits c.routeStart
      (segmentEnd c.reqHeaders c.routeStart) 0 [postingFile] =
      if c.ta.req.method.bits &&& 8 ≠ 0 then ⟨8, some postingFile.handler⟩ else ⟨8, none⟩ := by
    rw [scanEntries, if_pos segment, if_neg (by simp [postingFile])]
    rfl
  have matching : matchingEntries c.reqHeaders (.node [] 0 [] [postingFile]) c.routeStart =
      [postingFile] := List.filter_cons_of_pos matched
  refine ⟨rfl, fresh, ?_, ?_⟩
  · rw [parseApiTree_eq]
    simp only [ApiTree.entries, scan]
    split
    · rfl
    · rfl
  · rw [entriesMatched_eq]
    simp only [matching]
    exact if_pos (by decide)

theorem allow_header_iff_get : ∃ c k o p, NotAllowedResponse posting c k o p ∧
    Raises posting c k (.routing [postingFile]) ∧ AllowHeader (.routing [postingFile]) .get p.client := by
  have refused : firstRefused posting (requestA 71 (ascii "ET")) (fun c _ => c.asksPosting .get) =
    true := by decide +kernel
  obtain ⟨c, k, o, p, response, asks⟩ := firstRefused_response refused
  obtain ⟨method, fresh, route, matched⟩ := posting_route asks
  have raises : Raises posting c k (.routing [postingFile]) := matched ▸ .routing ⟨rfl, fresh, route⟩
  exact ⟨c, k, o, p, response, raises,
    method ▸ (allow_header_iff response raises).mpr ⟨nofun, by decide⟩⟩

/-- The handler of a POST has a file served to it: the response names POST. -/
theorem called_static_names_post : ∃ c k o p, NotAllowedResponse posting c k o p ∧
    Raises posting c k .calledStatic ∧ ¬ AllowHeader .calledStatic c.ta.req.method p.client := by
  have refused : firstRefused posting (requestA 80 (ascii "OST")) (fun c p =>
      c.asksPosting .post && p.headerBlock == headerLine (ascii "allow") (ascii "POST") ++
        (cannedHeaders 19).flatMap Header.line ++ ascii "\r\n") = true := by
    decide +kernel
  obtain ⟨c, k, o, p, response, checked⟩ := firstRefused_response refused
  obtain ⟨asks, block⟩ := (Bool.and_eq_true _ _).mp checked
  obtain ⟨method, fresh, route, -⟩ := posting_route asks
  have enters : Enters posting c k _ _ := .routed rfl fresh route
  refine ⟨c, k, o, p, response, .called enters rfl ?_, fun header => ?_⟩
  · simp only [postingFile, refusedInside, Client.refusable, method]
    decide
  · have first : OnlyFirst (ascii "allow") (ascii "POST") p.client.headerBlock :=
      ⟨by decide, _, cannedHeaders_other _, eq_of_beq block⟩
    have lists : listedMethods (ascii "POST") = [HttpMethod.post].map methodText := by decide +kernel
    refine ((allowHeader_iff first lists).mp header).2 ?_
    rw [method]
    exact List.mem_singleton_self _

end Endpoint

end Kitserv
