import Kitserv.HandlerHeaders
import Kitserv.Termination
import Kitserv.TreeRouting

/-! The flags that `parse_api_tree` collects, and what they are worth when the response is prepared:
they stay for the whole transaction, next to a method that static serving alone changes. -/
namespace Kitserv

open Memory

section Methods

theorem and_foldl_methods (method flags : Nat) (entries : List ApiEntry) :
    method &&& entries.foldl (fun flags e => flags ||| e.method) flags ≠ 0 ↔
      method &&& flags ≠ 0 ∨ entries.any (accepts method) = true := by
  induction entries generalizing flags with
  | nil => simp
  | cons e rest ih =>
    have split : method &&& (flags ||| e.method) ≠ 0 ↔
        method &&& flags ≠ 0 ∨ accepts method e = true := by
      rw [Nat.and_or_distrib_left, ne_eq, Nat.or_eq_zero_iff, not_and_or, accepts, bne_iff_ne]
    rw [List.foldl_cons, ih, split, List.any_cons, Bool.or_eq_true, or_assoc]

theorem and_methodsOf (method : Nat) (entries : List ApiEntry) :
    method &&& methodsOf entries ≠ 0 ↔ entries.any (accepts method) = true := by
  rw [methodsOf, and_foldl_methods, Nat.and_zero]
  simp

theorem foldl_methods (flags : Nat) (entries : List ApiEntry) :
    entries.foldl (fun flags e => flags ||| e.method) flags = flags ||| methodsOf entries := by
  induction entries generalizing flags with
  | nil => exact (Nat.or_zero flags).symm
  | cons e rest ih =>
    rw [methodsOf, List.foldl_cons, List.foldl_cons, ih, ih, Nat.zero_or, Nat.or_assoc]

theorem methodsOf_append (before after : List ApiEntry) :
    methodsOf (before ++ after) = methodsOf before ||| methodsOf after := by
  rw [methodsOf, List.foldl_append, foldl_methods]
  rfl

end Methods

section Routing

def matchingEntries (mem : Bytes) (tree : ApiTree) (path : Nat) : List ApiEntry :=
  tree.entries.filter (entryMatches mem path (segmentEnd mem path))

/-- The matching entries of all trees that `parse_api_tree` comes to. It stops at the first one with
an entry that has a method. -/
def entriesMatched (mem : Bytes) (root tree : ApiTree) (path : Nat) : List ApiEntry :=
  let here := matchingEntries mem tree path
  if methodsOf here ≠ 0 then here
  else match _found : scanSubtrees mem path (segmentEnd mem path) tree.subtrees root.subtrees with
    | .found subtree => here ++ entriesMatched mem root subtree (segmentEnd mem path + 1)
    | _ => here
termination_by sizeOf tree
decreasing_by exact subtree_lt _found

theorem entriesMatched_eq (mem : Bytes) (root tree : ApiTree) (path : Nat) :
    entriesMatched mem root tree path =
      let here := matchingEntries mem tree path
      if methodsOf here ≠ 0 then here
      else match scanSubtrees mem path (segmentEnd mem path) tree.subtrees root.subtrees with
        | .found subtree => here ++ entriesMatched mem root subtree (segmentEnd mem path + 1)
        | _ => here := by
  rw [entriesMatched]
  simp only
  split
  · rfl
  · split
    · rename_i found
      simp only [found]
    · rename_i other
      split
      · rename_i found
        exact absurd found (other _)
      · rfl

def Route.Flags (method : Nat) (matched : List ApiEntry) : Route → Prop
  | done (some _) flags => method &&& flags ≠ 0
  | done none flags => flags = 0
  | methodNotAllowed flags => flags = methodsOf matched ∧ flags ≠ 0 ∧ method &&& flags = 0
  | outside => True

theorem parseApiTree_flags (mem : Bytes) (method : Nat) (root tree : ApiTree) (path : Nat) :
    (parseApiTree mem method 0 root tree path).Flags method (entriesMatched mem root tree path) := by
  induction size : sizeOf tree using Nat.strong_induction_on generalizing tree path with
  | _ size' ih =>
    subst size
    have scan := scanEntries_matching mem method path (segmentEnd mem path) 0 tree.entries
    rw [← matchingEntries] at scan
    rw [parseApiTree_eq, entriesMatched_eq]
    simp only at scan ⊢
    generalize scanEntries mem method path (segmentEnd mem path) 0 tree.entries = scanned at scan ⊢
    obtain ⟨flags, hit⟩ := scanned
    cases found : (matchingEntries mem tree path).find? (accepts method) with
    | some e =>
      rw [found] at scan
      obtain ⟨rfl, accepted⟩ := scan
      exact accepted
    | none =>
      rw [found] at scan
      obtain ⟨rfl, rfl⟩ := scan
      have refused : method &&& methodsOf (matchingEntries mem tree path) = 0 := by
        by_contra accepted
        obtain ⟨e, member, accepts⟩ := List.any_eq_true.mp ((and_methodsOf ..).mp accepted)
        exact List.find?_eq_none.mp found e member accepts
      rw [← methodsOf]
      by_cases some : methodsOf (matchingEntries mem tree path) = 0
      · simp only [some, Option.isSome_none, Bool.false_eq_true, if_false, ne_eq, not_true_eq_false]
        cases next : scanSubtrees mem path (segmentEnd mem path) tree.subtrees root.subtrees with
        | notFound => exact rfl
        | outside => trivial
        | found subtree =>
          have later := ih _ (subtree_lt next) subtree (segmentEnd mem path + 1) rfl
          dsimp only
          revert later
          cases parseApiTree mem method 0 root subtree (segmentEnd mem path + 1) with
          | done hit flags => cases hit <;> exact id
          | outside => exact id
          | methodNotAllowed flags =>
            rintro ⟨all, rest⟩
            refine ⟨?_, rest⟩
            rw [methodsOf_append, some, Nat.zero_or]
            exact all
      · simp only [some, Option.isSome_none, Bool.false_eq_true, if_false, ne_eq,
          not_false_eq_true, if_true]
        exact ⟨rfl, some, refused⟩

end Routing

section Calls

def MethodKept (c r : Client) : Prop :=
  r.ta.req.method = c.ta.req.method ∨
    c.ta.req.method.bits &&& HttpMethod.get.bits ≠ 0 ∧ r.ta.req.method = .head

theorem MethodKept.trans {c r r' : Client} (h : MethodKept c r) (h' : MethodKept r r') :
    MethodKept c r' := by
  rcases h with same | ⟨get, head⟩
  · rcases h' with same' | ⟨get', head⟩
    · exact .inl (same'.trans same)
    · exact .inr ⟨same ▸ get', head⟩
  · rcases h' with same' | ⟨-, head'⟩
    · exact .inr ⟨get, same'.trans head⟩
    · exact .inr ⟨get, head'⟩

theorem HeadFrame.method {c r : Client} (h : HeadFrame c r) :
    r.ta.req.method = c.ta.req.method := by rw [h.same]

theorem handleStaticPath_method (s : Server) (c : Client) (k : Kernel) (path : Bytes)
    (ctx : Option RequestContext) : MethodKept c (handleStaticPath s c k path ctx).client := by
  unfold handleStaticPath
  simp only
  split
  · exact .inl rfl
  · rename_i get
    have choice := tryPaths_spec c k.staleErrno.2 k.staleErrno.1
      (candidates (ctx.getD s.defaultContext) ((c.ta.req.path.map (cString c.reqHeaders)).getD []) path)
    revert choice
    generalize tryPaths c k.staleErrno.2 k.staleErrno.1 _ = found
    cases found with
    | stop c' k' e =>
      rintro ⟨-, value, rfl, -⟩
      exact .inl rfl
    | pathSet fname st c' k' e =>
      rintro ⟨-, rfl⟩
      have described (fd : Int) (k' : Kernel) (e : Errno) :
          MethodKept c' (describeFile s.time (c'.setFd fd) k' e fname st).client := by
        have frame := (fileEnd_headFrame s.time ((c'.setFd fd).wholeFile st) fname st).method
        rw [describeFile_eq]
        revert frame
        cases fileEnd s.time ((c'.setFd fd).wholeFile st) fname st with
        | error r => exact .inl
        | full r => exact .inl
        | unmodified r => exact fun _ => .inr ⟨get, rfl⟩
      simp only [pathSet_eq]
      split
      · cases k'.openRdonly fname with
        | mk result k'' =>
          cases result with
          | error e => exact .inl rfl
          | ok fd => exact described fd.val k'' _
      · exact described fdHead k' _

theorem apiCall_method (s : Server) (c : Client) (k : Kernel) (f : Call) :
    MethodKept c (apiCall s c k f).client := by
  cases f with
  | handleStaticPath path ctx => exact handleStaticPath_method s c k path ctx
  | choose | getRequestMethod | getRequestPath | getRequestQuery | getRequestContentLength
  | getRequestMimeType | getRequestDisposition | resetHeaders | resetBody
  | setPreserveHeadersOnError | setPreserveBodyOnError | setResponseStatus | saveState =>
    exact .inl rfl
  | getRequestCookieN key keylen =>
    simp only [apiCall, getRequestCookieN, parseCookies]
    split
    · exact .inl rfl
    · split <;> exact .inl rfl
  | getRequestRange =>
    have same := parseRange_client c
    simp only [apiCall]
    generalize parseRange c = parsed at same
    obtain ⟨range, c'⟩ := parsed
    cases same
    cases range <;> exact .inl rfl
  | getRequestModifiedSinceDifference time =>
    simp only [apiCall]
    split <;> exact .inl rfl
  | readPayload nbytes =>
    left
    rw [apiCall, readPayload_client]
  | writeBody data =>
    left
    simp only [apiCall, BodyResult.asCall]
    rw [writeBody_body]
  | writeBodyFmt first second =>
    left
    simp only [apiCall, BodyResult.asCall]
    rw [writeBodyFmt_body]
  | sendFile fd filesize =>
    left
    simp only [apiCall, sendFile]
  | setSendRange pos last =>
    simp only [apiCall, setSendRange]
    split <;> exact .inl rfl
  | headerAdd key value => exact .inl (headerAdd_headFrame c key value).method
  | headerAddContentType mime => exact .inl (headerAdd_headFrame c _ _).method
  | headerAddContentTypeGuess extension => exact .inl (headerAdd_headFrame c _ _).method
  | headerAddLastModified time => exact .inl (headerAddLastModified_headFrame s.time c time).method

theorem runProgram_method (s : Server) (program : Program) (c : Client) (k : Kernel) :
    MethodKept c (runProgram s program c k).1 := by
  induction program generalizing c k with
  | ret => exact .inl rfl
  | call f next ih => exact (apiCall_method s c k f).trans (ih _ _ _)

def Client.refusable (c : Client) : Bool := c.ta.req.method.bits &&& HttpMethod.get.bits == 0

def refusedInside (s : Server) : Program → Client → Kernel → Bool → Bool
  | .ret, _, _, refused => refused
  | .call f next, c, k, refused =>
    let r := apiCall s c k f
    refusedInside s (next r.reply) r.client r.kernel <| match f with
      | .handleStaticPath _ _ => refused || c.refusable
      | .setResponseStatus _ => false
      | _ => refused

theorem MethodKept.refusable {c r : Client} (h : MethodKept c r) (refused : r.refusable = true) :
    c.refusable = true := by
  rcases h with same | ⟨-, head⟩
  · rw [Client.refusable, ← same]
    exact refused
  · rw [Client.refusable, head] at refused
    cases refused

theorem refusedInside_refusable {s : Server} {program : Program} {c : Client} {k : Kernel}
    {refused : Bool} (before : refused = true → c.refusable = true)
    (inside : refusedInside s program c k refused = true) : c.refusable = true := by
  suffices general : ∀ c₀, MethodKept c₀ c → (refused = true → c₀.refusable = true) →
      c₀.refusable = true from general c (.inl rfl) before
  clear before
  induction program generalizing c k refused with
  | ret => exact fun c₀ _ before => before inside
  | call f next ih =>
    intro c₀ kept before
    refine ih _ inside c₀ (kept.trans (apiCall_method s c k f)) ?_
    cases f with
    | handleStaticPath path ctx =>
      intro either
      exact (Bool.or_eq_true _ _ |>.mp either).elim before kept.refusable
    | setResponseStatus code => exact fun none => by cases none
    | _ => exact before

end Calls

section Size

theorem length_strAppend (buf : Bytes) (offset max : Nat) (value : Rendering) :
    (strAppend buf offset max value).buf.length = buf.length := by
  cases value with
  | none => rfl
  | some text =>
    simp only [strAppend]
    split <;> exact length_overwrite ..

def SameSize (c r : Client) : Prop := r.respHeaders.length = c.respHeaders.length

theorem headerAdd_size (c : Client) (key : Bytes) (value : Rendering) :
    SameSize c (headerAdd c key value).client := by
  have first := length_strAppend c.respHeaders c.ta.resp.bufs.headers.len httpBufsz
    (some (key ++ ascii ": "))
  simp only [SameSize, headerAdd]
  split
  · exact first
  · split
    · exact (length_strAppend ..).trans first
    · split <;> exact (length_strAppend ..).trans ((length_strAppend ..).trans first)

theorem size_rule : PrepareRule fun c _ r _ => SameSize c r where
  refl _ _ := rfl
  trans first later := later.trans first
  line _ _ := rfl
  header c _ key value := headerAdd_size c key value
  emptyLine _ _ := length_strAppend ..
  unended _ _ := rfl
  describe _ _ := rfl
  wipe _ _ := rfl
  drop _ _ := rfl
  texts c k texts := by rw [SameSize, (appendTexts_spec c k texts).client]

/-- The stages that send touch nothing outside of the transaction. -/
theorem sendLoop_ta (writes : List Transfer) (c : Client) (k : Kernel) :
    (sendLoop c k writes).client = { c with ta := (sendLoop c k writes).client.ta } := by
  induction writes generalizing c k with
  | nil => rfl
  | cons t rest ih =>
    cases t with
    | wouldBlock => rfl
    | failed code => rfl
    | bytes n =>
      simp only [sendLoop]
      split
      · rfl
      · exact ih ..

theorem sendFileFailed_ta (c : Client) (rc : Int) (k : Kernel) :
    (sendFileLoop.failed c rc k).client = { c with ta := (sendFileLoop.failed c rc k).client.ta } := by
  unfold sendFileLoop.failed
  split <;> rfl

theorem sendFileLoop_ta (sendfiles : List Transfer) (c : Client) (k : Kernel) :
    (sendFileLoop c k sendfiles).client = { c with ta := (sendFileLoop c k sendfiles).client.ta } := by
  induction sendfiles generalizing c k with
  | nil => exact sendFileFailed_ta ..
  | cons t rest ih =>
    cases t with
    | wouldBlock => exact sendFileFailed_ta ..
    | failed code => exact sendFileFailed_ta ..
    | bytes n =>
      simp only [sendFileLoop]
      split
      · rfl
      · split
        · rfl
        · exact ih ..

theorem sendResponseFile_ta (c : Client) (k : Kernel) :
    (sendResponseFile c k).client = { c with ta := (sendResponseFile c k).client.ta } := by
  unfold sendResponseFile
  split
  · exact sendFileLoop_ta ..
  · rfl

def Round.Leaves (buf : Bytes) : Round → Prop
  | stop o => o.client.respHeaders = buf
  | again c _ _ _ => c.respHeaders = buf

theorem recvParse_leaves (c : Client) (k : Kernel) (p r : Option Nat) :
    (recvParse c k p r).Leaves c.respHeaders := by
  unfold recvParse
  split <;> rfl

theorem recvRound_leaves (c : Client) (k : Kernel) (p r : Option Nat) :
    (recvRound c k p r).Leaves c.respHeaders := by
  unfold recvRound
  split
  · split
    · rfl
    · exact recvParse_leaves ..
  · rfl
  · split
    · split
      · rfl
      · exact recvParse_leaves ..
    · rfl
  · exact recvParse_leaves ..

theorem recvLoop_leaves (c : Client) (k : Kernel) (p r : Option Nat) :
    (recvLoop c k p r).client.respHeaders = c.respHeaders := by
  fun_induction recvLoop c k p r with
  | case1 c k p r o round =>
    have same := recvRound_leaves c k p r
    rwa [round] at same
  | case2 c k p r c' k' p' r' round ih =>
    have same := recvRound_leaves c k p r
    rw [round] at same
    exact ih.trans same

end Size

section Reached

variable {s : Server} {c : Client} {k : Kernel}

/-- The client and the kernel for which `kitserv_http_serve_request` comes to its endpoint. -/
inductive Enters (s : Server) (c : Client) (k : Kernel) : Client → Kernel → Prop where
  | selected {tree : ApiTree} (found : s.apiTree = some tree)
      (hit : c.ta.api.endpointHit.isSome = true) : Enters s c k c k
  | routed {tree : ApiTree} {hit : Option Handler} {flags : Nat} (found : s.apiTree = some tree)
      (none : c.ta.api.endpointHit = Option.none)
      (route : parseApiTree c.reqHeaders c.ta.req.method.bits 0 tree tree c.routeStart =
        .done hit flags) :
      Enters s c k { c with ta := { c.ta with
        api := { c.ta.api with endpointHit := hit, allowFlags := flags } } } (k.emit .routed)

structure RoutingRefuses (s : Server) (c : Client) (tree : ApiTree) (flags : Nat) : Prop where
  found : s.apiTree = some tree
  fresh : c.ta.api.endpointHit = none
  route : parseApiTree c.reqHeaders c.ta.req.method.bits 0 tree tree c.routeStart =
    .methodNotAllowed flags

def Client.notAllowed (c : Client) (flags : Nat) : Client :=
  Client.setStatus { c with ta := { c.ta with api := { c.ta.api with allowFlags := flags } } }
    .http405MethodNotAllowed

theorem serveRequest_cases {o : Outcome} (h : serveRequest s c k = some o) :
    (s.apiTree = none ∧ o = serveStatic s c k) ∨
    (∃ tree flags, RoutingRefuses s c tree flags ∧
      o = serveCont (c.notAllowed flags) (k.emit .routed)) ∨
    ∃ c' k', Enters s c k c' k' ∧ o = serveEndpoint s c' k' := by
  unfold serveRequest at h
  split at h
  · rename_i none
    cases h
    exact .inl ⟨none, rfl⟩
  · rename_i tree found
    split at h
    · rename_i hit
      cases h
      exact .inr (.inr ⟨c, k, .selected found hit, rfl⟩)
    · rename_i unhit
      have fresh : c.ta.api.endpointHit = none := by simpa using unhit
      split at h
      · cases h
      · simp only at h
        split at h
        · cases h
        · rename_i flags route
          cases h
          exact .inr (.inl ⟨tree, flags, ⟨found, fresh, route⟩, rfl⟩)
        · rename_i hit flags route
          cases h
          exact .inr (.inr ⟨_, _, .routed found fresh route, rfl⟩)

/-- What a client carries for a 405 response: the header block, and a route that is new or has
accepted the method, if static serving does not. -/
structure Carries (s : Server) (c : Client) : Prop where
  size : c.respHeaders.length = httpBufsz
  lines : c.ta.state = .read ∨ c.ta.state = .serve ∨ c.ta.state = .prepareResponse →
    HeaderLines (fun _ => True) c
  fresh : c.ta.state = .read ∨ c.ta.state = .serve ∧ c.ta.api.endpointHit = none → c.ta.api = {}
  routed : c.ta.state = .serve → c.ta.api.endpointHit.isSome = true →
    s.apiTree.isSome = true ∧
      (c.refusable = true → c.ta.req.method.bits &&& c.ta.api.allowFlags ≠ 0)

theorem Carries.late (size : c.respHeaders.length = httpBufsz) (read : c.ta.state ≠ .read)
    (serve : c.ta.state ≠ .serve)
    (lines : c.ta.state = .prepareResponse → HeaderLines (fun _ => True) c) : Carries s c :=
  ⟨size, fun states => lines (states.resolve_left read |>.resolve_left serve),
    fun states => absurd states (by simp [read, serve]), fun state => absurd state serve⟩

theorem Carries.prepares (lines : HeaderLines (fun _ => True) c) :
    Carries s (c.setState .prepareResponse) :=
  .late lines.headers.size (by simp [Client.setState]) (by simp [Client.setState])
    fun _ => lines.frame rfl rfl

theorem static_any (lib : TimeLib) : StaticHeaders lib fun _ => True :=
  ⟨fun _ => trivial, trivial, fun _ _ _ => trivial, fun _ _ _ => trivial, fun _ => trivial⟩

theorem calls_any (lib : TimeLib) (program : Program) :
    program.Calls (Call.Adds lib fun _ => True) := by
  induction program with
  | ret => trivial
  | call f next ih =>
    refine ⟨?_, ih⟩
    cases f with
    | headerAdd | headerAddLastModified => exact fun _ _ => trivial
    | handleStaticPath => exact static_any lib
    | _ => trivial

theorem Enters.found {c' : Client} {k' : Kernel} (enters : Enters s c k c' k') :
    s.apiTree.isSome = true := by
  cases enters with
  | selected found | routed found => rw [found]; rfl

theorem Enters.lines {c' : Client} {k' : Kernel} (enters : Enters s c k c' k')
    (lines : HeaderLines (fun _ => True) c) : HeaderLines (fun _ => True) c' := by
  cases enters with
  | selected => exact lines
  | routed => exact lines.frame rfl rfl

/-- What the routing says behind its end: a handler has accepted the method, or there are no flags. -/
theorem Enters.flags {c' : Client} {k' : Kernel} (enters : Enters s c k c' k') (carries : Carries s c)
    (state : c.ta.state = .serve) :
    (c'.ta.api.endpointHit.isSome = true → c'.refusable = true →
      c'.ta.req.method.bits &&& c'.ta.api.allowFlags ≠ 0) ∧
    (c'.ta.api.endpointHit = none → c'.ta.api.allowFlags = 0) := by
  cases enters with
  | selected found hit =>
    refine ⟨fun hit => (carries.routed state hit).2, fun none => ?_⟩
    rw [none] at hit
    cases hit
  | @routed tree hit flags found none route =>
    have law := parseApiTree_flags c.reqHeaders c.ta.req.method.bits tree tree c.routeStart
    rw [route] at law
    cases hit with
    | none => exact ⟨nofun, fun _ => law⟩
    | some h => exact ⟨fun _ _ => law, nofun⟩

theorem serveStatic_carries (lines : HeaderLines (fun _ => True) c) :
    Carries s (serveStatic s c k).client :=
  .prepares (lines.handleStaticPath (static_any s.time) k _ none)

theorem serveEndpoint_carries {c' : Client} {k' : Kernel} (enters : Enters s c k c' k')
    (carries : Carries s c) (state : c.ta.state = .serve) :
    Carries s (serveEndpoint s c' k').client := by
  have lines := enters.lines (carries.lines (.inr (.inl state)))
  have accepted := (enters.flags carries state).1
  unfold serveEndpoint
  split
  · exact serveStatic_carries lines
  · rename_i handler hit
    have frame := runProgram_frame s (handler c'.ta.api.internalData) c'
      (k'.emit (.called c'.ta.api.internalData))
    have method := runProgram_method s (handler c'.ta.api.internalData) c'
      (k'.emit (.called c'.ta.api.internalData))
    have block := lines.runProgram (calls_any s.time (handler c'.ta.api.internalData))
      (k'.emit (.called c'.ta.api.internalData))
    simp only
    generalize runProgram s (handler c'.ta.api.internalData) c' _ = r at frame method block
    have serves : r.1.ta.state = .serve := by
      rw [frame.state]
      cases enters <;> exact state
    split
    · refine ⟨block.headers.size, fun _ => block, ?_, fun _ _ => ⟨enters.found, fun refused => ?_⟩⟩
      · rintro (read | ⟨-, none⟩)
        · rw [serves] at read
          cases read
        · rw [frame.endpointHit, hit] at none
          cases none
      · have before := accepted (by rw [hit]; rfl) (method.refusable refused)
        have flags : r.1.ta.api.allowFlags = c'.ta.api.allowFlags := by rw [frame.client.same]
        rcases method with same | ⟨-, head⟩
        · rw [same, flags]
          exact before
        · rw [Client.refusable, head] at refused
          cases refused
    · exact .prepares block

theorem serveRequest_carries {o : Outcome} (carries : Carries s c) (state : c.ta.state = .serve)
    (h : serveRequest s c k = some o) : Carries s o.client := by
  have lines := carries.lines (.inr (.inl state))
  rcases serveRequest_cases h with ⟨-, rfl⟩ | ⟨tree, flags, -, rfl⟩ | ⟨c', k', enters, rfl⟩
  · exact serveStatic_carries lines
  · exact .prepares (lines.frame rfl rfl)
  · exact serveEndpoint_carries enters carries state

def Served.Carries (s : Server) : Served → Prop
  | next c _ => Kitserv.Carries s c
  | back o => o.client.respHeaders.length = httpBufsz ∧ (o.rc = 0 → Kitserv.Carries s o.client)
  | abort => True

theorem afterOutput_carries {state : TransactionState} {o : Outcome}
    (size : o.client.respHeaders.length = httpBufsz) (zero : o.rc = 0 → Carries s o.client) :
    (afterOutput state o).Carries s := by
  unfold afterOutput
  split
  · exact ⟨size, fun rc => absurd rc (by simp)⟩
  · rename_i rc
    have carries := zero (by simpa using rc)
    split
    · exact ⟨size, fun _ => carries⟩
    · exact carries

theorem read_carries (carries : Carries s c) (state : c.ta.state = .read) :
    (serveStep s c k).Carries s := by
  have step : serveStep s c k = afterStage .read (recvRequest c k) := by rw [serveStep, state]
  have keeps : RecvKeeps c k (recvRequest c k) := recvLoop_keeps ..
  have buf : (recvRequest c k).client.respHeaders = c.respHeaders := recvLoop_leaves ..
  have lines : HeaderLines (fun _ => True) (recvRequest c k).client :=
    (carries.lines (.inl state)).frame buf (by rw [keeps.resp])
  have fresh : (recvRequest c k).client.ta.api = {} := keeps.api.trans (carries.fresh (.inl state))
  have goes : Carries s (recvRequest c k).client := by
    refine ⟨lines.headers.size, fun _ => lines, fun _ => fresh, fun _ hit => ?_⟩
    rw [fresh] at hit
    cases hit
  rw [step]
  unfold afterStage
  split
  · split
    · exact ⟨lines.headers.size, fun rc => absurd rc (by simp)⟩
    · exact .prepares lines
  · split
    · exact ⟨lines.headers.size, fun _ => goes⟩
    · exact goes

theorem prepare_carries (carries : Carries s c) (state : c.ta.state = .prepareResponse) :
    (serveStep s c k).Carries s := by
  cases prepared : prepareResponse c k with
  | none =>
    have step : serveStep s c k = .abort := by simp only [serveStep, state, prepared]
    rw [step]
    trivial
  | some o =>
    have size := (size_rule.prepared prepared).trans carries.size
    rcases serveStep_prepareResponse (s := s) state prepared with ⟨-, step⟩ | ⟨rc, step⟩
    · rw [step]
      exact ⟨size, fun rc => absurd rc (by simp)⟩
    · obtain ⟨rc', c', k'⟩ := o
      cases rc
      obtain ⟨c₁, buf, n, ready⟩ := prepareResponse_ready prepared
      have sends : c'.ta.state = .send := by
        rw [ready]
        rfl
      rw [step]
      exact .late size (by simp [sends]) (by simp [sends]) (by simp [sends])

theorem serveStep_carries (carries : Carries s c) : (serveStep s c k).Carries s := by
  have late {r : Client} (size : r.respHeaders.length = httpBufsz)
      (state : r.ta.state = .send ∨ r.ta.state = .sendFile ∨ r.ta.state = .done) : Carries s r := by
    rcases state with state | state | state <;>
      exact .late size (by simp [state]) (by simp [state]) (by simp [state])
  cases state : c.ta.state with
  | read => exact read_carries carries state
  | serve =>
    cases served : serveRequest s c k with
    | none =>
      have step : serveStep s c k = .abort := by simp only [serveStep, state, served]
      rw [step]
      trivial
    | some o =>
      have carries' := serveRequest_carries carries state served
      rcases serveStep_serve state served with ⟨-, step⟩ | ⟨-, step⟩
      · rw [step]
        exact ⟨carries'.size, fun _ => carries'⟩
      · rw [step]
        exact carries'
  | prepareResponse => exact prepare_carries carries state
  | send =>
    have step : serveStep s c k = afterOutput .send (sendResponse c k) := by rw [serveStep, state]
    have size : (sendResponse c k).client.respHeaders.length = httpBufsz := by
      rw [sendResponse, sendLoop_ta]
      exact carries.size
    have ends := (sendLoop_status k.writes c k).2.2.2
    rw [state] at ends
    rw [step]
    exact afterOutput_carries size fun _ => late size (ends.imp_right .inl)
  | sendFile =>
    have step : serveStep s c k = afterOutput .sendFile (sendResponseFile c k) := by
      rw [serveStep, state]
    have size : (sendResponseFile c k).client.respHeaders.length = httpBufsz := by
      rw [sendResponseFile_ta]
      exact carries.size
    have ends := (sendResponseFile_ends c k).state
    rw [state] at ends
    rw [step]
    exact afterOutput_carries size fun _ => late size (.inr (ends.imp_right And.left))
  | done =>
    rw [serveStep_done state]
    unfold finalizeTransaction
    simp only
    split
    · rename_i left
      split at left <;> cases left
      trivial
    · rename_i c' k' left
      split at left
      · cases left
        exact ⟨carries.size, fun _ => .empty carries.size rfl, fun _ => rfl, (by rintro ⟨⟩)⟩
      · cases left

theorem Reachable.carries (reached : Reachable s c) : Carries s c := by
  have new {c : Client} (size : c.respHeaders.length = httpBufsz) (fresh : c.ta = {}) : Carries s c :=
    ⟨size, fun _ => .empty size (by rw [fresh]), fun _ => by rw [fresh],
      fun state => by rw [fresh] at state; cases state⟩
  induction reached with
  | created blocks => exact new blocks.respHeaders_len rfl
  | @next c c' k k' _ step ih =>
    have kept := serveStep_carries (s := s) (k := k) ih
    rwa [step] at kept
  | @waits c k o _ step rc ih =>
    have kept := serveStep_carries (s := s) (k := k) ih
    rw [step] at kept
    exact kept.2 rc
  | @reset c k o _ step ih =>
    have kept := serveStep_carries (s := s) (k := k) ih
    rw [step] at kept
    exact new kept.1 rfl

end Reached

end Kitserv
