import Kitserv.PathTraversal
import Kitserv.Serve

namespace Kitserv

open Memory

inductive Selection where
  | handler (h : Handler)
  | notAllowed (flags : Nat)
  | static
  | outside

def Route.selection : Route → Selection
  | done (some h) _ => .handler h
  | done none _ => .static
  | methodNotAllowed flags => .notAllowed flags
  | outside => .outside

def Client.routeStart (c : Client) : Nat := skipSlashes c.reqHeaders (c.ta.req.path.getD 0)

def selection (tree : ApiTree) (c : Client) : Selection :=
  (parseApiTree c.reqHeaders c.ta.req.method.bits 0 tree tree c.routeStart).selection

/-- The last offset that the loop over the entries reads. -/
def entriesRead (mem : Bytes) (method path q : Nat) : List ApiEntry → Nat
  | [] => q
  | e :: rest =>
    if matchesSegment mem path q e.prefixLength e.pathPrefix then
      let here := if e.finishesPath then skipSlashes mem q else q
      if e.finishesPath ∧ (mem[skipSlashes mem q]?).getD 0 ≠ 0 then
        max here (entriesRead mem method path q rest)
      else if method &&& e.method ≠ 0 then here
      else max here (entriesRead mem method path q rest)
    else entriesRead mem method path q rest

def apiTreeRead (mem : Bytes) (method allowFlags : Nat) (root tree : ApiTree) (path : Nat) : Nat :=
  let q := segmentEnd mem path
  let here := entriesRead mem method path q tree.entries
  let scan := scanEntries mem method path q allowFlags tree.entries
  if scan.hit.isSome then here
  else if scan.allowFlags ≠ 0 then here
  else match _found : scanSubtrees mem path q tree.subtrees root.subtrees with
    | .found subtree => max here (apiTreeRead mem method scan.allowFlags root subtree (q + 1))
    | _ => here
termination_by sizeOf tree
decreasing_by
  have member := scanSubtrees_mem _found
  cases tree with
  | node pathPrefix prefixLength subtrees entries =>
    have smaller := List.sizeOf_lt_of_mem member
    simp only [ApiTree.subtrees] at smaller
    simp only [ApiTree.node.sizeOf_spec]
    omega

def Client.pathEnd (c : Client) : Nat :=
  c.ta.req.path.getD 0 + (cString c.reqHeaders (c.ta.req.path.getD 0)).length

/-- The descent takes a subtree for the last segment of the path, without an entry for it. -/
def descendsPastEnd (mem : Bytes) (method allowFlags : Nat) (root tree : ApiTree) (path : Nat) : Bool :=
  let q := segmentEnd mem path
  let scan := scanEntries mem method path q allowFlags tree.entries
  if scan.hit.isSome then false
  else if scan.allowFlags ≠ 0 then false
  else match _found : scanSubtrees mem path q tree.subtrees root.subtrees with
    | .found subtree =>
      if (mem[q]?).getD 0 = 0 then true
      else descendsPastEnd mem method scan.allowFlags root subtree (q + 1)
    | _ => false
termination_by sizeOf tree
decreasing_by
  have member := scanSubtrees_mem _found
  cases tree with
  | node pathPrefix prefixLength subtrees entries =>
    have smaller := List.sizeOf_lt_of_mem member
    simp only [ApiTree.subtrees] at smaller
    simp only [ApiTree.node.sizeOf_spec]
    omega

theorem length_takeWhile_le (text : Bytes) (keep : UInt8 → Bool) :
    (text.takeWhile keep).length ≤ text.length := (List.takeWhile_sublist keep).length_le

def segmentName (text : Bytes) : Bytes := text.takeWhile fun b => b != 0 && b != 47

namespace TextAt

variable {mem : Bytes} {path : Nat} {text : Bytes}

theorem segmentEnd_eq (h : TextAt mem path text) :
    segmentEnd mem path = path + (segmentName text).length := by
  rw [segmentEnd, h.takeWhile _ rfl]
  rfl

theorem skipSlashes_eq (h : TextAt mem path text) :
    skipSlashes mem path = path + (text.takeWhile fun b => b == 47).length := by
  rw [skipSlashes, h.takeWhile _ rfl]

theorem skipSlashes_first (h : TextAt mem path text) :
    (mem[skipSlashes mem path]?).getD 0 =
      (text.drop (text.takeWhile fun b => b == 47).length).headD 0 := by
  rw [h.skipSlashes_eq, (h.drop (length_takeWhile_le ..)).first]

theorem slice_eq (h : TextAt mem path text) {n : Nat} (le : n ≤ text.length) :
    slice mem path (path + n) = text.take n := by
  obtain ⟨rest, stored⟩ := h.stored
  rw [slice, stored, Nat.add_sub_cancel_left, List.take_append_of_le_length le]

theorem matchesSegment_eq (h : TextAt mem path text) {n : Nat} (le : n ≤ text.length)
    (length : Int) (pathPrefix : Bytes) : matchesSegment mem path (path + n) length pathPrefix =
      (length == (n : Int) && text.take n == pathPrefix.take n) := by
  have count : ((path + n : Nat) : Int) - path = n := by omega
  rw [matchesSegment, h.slice_eq le, Nat.add_sub_cancel_left, count]

variable {mem' : Bytes} {path' : Nat}

theorem scanEntries_congr (h : TextAt mem path text) (h' : TextAt mem' path' text) {n : Nat}
    (le : n ≤ text.length) (method allowFlags : Nat) (entries : List ApiEntry) :
    scanEntries mem method path (path + n) allowFlags entries =
      scanEntries mem' method path' (path' + n) allowFlags entries := by
  have finish : (mem[skipSlashes mem (path + n)]?).getD 0 =
      (mem'[skipSlashes mem' (path' + n)]?).getD 0 := by
    rw [(h.drop le).skipSlashes_first, (h'.drop le).skipSlashes_first]
  induction entries generalizing allowFlags with
  | nil => rfl
  | cons e rest ih =>
    simp only [scanEntries, h.matchesSegment_eq le, h'.matchesSegment_eq le, finish, ih]

theorem scanSubtrees_congr (h : TextAt mem path text) (h' : TextAt mem' path' text) {n : Nat}
    (le : n ≤ text.length) (trees roots : List ApiTree) :
    scanSubtrees mem path (path + n) trees roots =
      scanSubtrees mem' path' (path' + n) trees roots := by
  have count : ((path + n : Nat) : Int) - path = ((path' + n : Nat) : Int) - path' := by omega
  induction trees generalizing roots with
  | nil => rfl
  | cons t rest ih =>
    simp only [scanSubtrees, count, h.matchesSegment_eq le, h'.matchesSegment_eq le, ih]

theorem entriesRead_bounds (h : TextAt mem path text) {n : Nat} (le : n ≤ text.length)
    (method : Nat) (entries : List ApiEntry) :
    path + n ≤ entriesRead mem method path (path + n) entries ∧
      entriesRead mem method path (path + n) entries ≤ path + text.length := by
  have slashes : path + n ≤ skipSlashes mem (path + n) ∧
      skipSlashes mem (path + n) ≤ path + text.length := by
    have bound := length_takeWhile_le (text.drop n) fun b => b == 47
    rw [(h.drop le).skipSlashes_eq]
    rw [List.length_drop] at bound
    omega
  induction entries with
  | nil => exact ⟨Nat.le_refl _, Nat.add_le_add_left le path⟩
  | cons e rest ih =>
    simp only [entriesRead]
    split
    · split
      · split <;> omega
      · split <;> split <;> omega
    · exact ih

end TextAt

theorem parseApiTree_eq (mem : Bytes) (method allowFlags : Nat) (root tree : ApiTree) (path : Nat) :
    parseApiTree mem method allowFlags root tree path =
      let q := segmentEnd mem path
      let scan := scanEntries mem method path q allowFlags tree.entries
      if scan.hit.isSome then .done scan.hit scan.allowFlags
      else if scan.allowFlags ≠ 0 then .methodNotAllowed scan.allowFlags
      else match scanSubtrees mem path q tree.subtrees root.subtrees with
        | .found subtree => parseApiTree mem method scan.allowFlags root subtree (q + 1)
        | .notFound => .done none scan.allowFlags
        | .outside => .outside := by
  rw [parseApiTree]
  simp only
  split
  · rfl
  · split
    · rfl
    · split <;> rename_i found <;> simp only [found]

theorem apiTreeRead_eq (mem : Bytes) (method allowFlags : Nat) (root tree : ApiTree) (path : Nat) :
    apiTreeRead mem method allowFlags root tree path =
      let q := segmentEnd mem path
      let here := entriesRead mem method path q tree.entries
      let scan := scanEntries mem method path q allowFlags tree.entries
      if scan.hit.isSome then here
      else if scan.allowFlags ≠ 0 then here
      else match scanSubtrees mem path q tree.subtrees root.subtrees with
        | .found subtree => max here (apiTreeRead mem method scan.allowFlags root subtree (q + 1))
        | _ => here := by
  rw [apiTreeRead]
  simp only
  split
  · rfl
  · split
    · rfl
    · split
      · rename_i found
        simp only [found]
      · rename_i other
        split
        · rename_i found
          exact absurd found (other _)
        · rfl

theorem descendsPastEnd_eq (mem : Bytes) (method allowFlags : Nat) (root tree : ApiTree)
    (path : Nat) : descendsPastEnd mem method allowFlags root tree path =
      let q := segmentEnd mem path
      let scan := scanEntries mem method path q allowFlags tree.entries
      if scan.hit.isSome then false
      else if scan.allowFlags ≠ 0 then false
      else match scanSubtrees mem path q tree.subtrees root.subtrees with
        | .found subtree =>
          if (mem[q]?).getD 0 = 0 then true
          else descendsPastEnd mem method scan.allowFlags root subtree (q + 1)
        | _ => false := by
  rw [descendsPastEnd]
  simp only
  split
  · rfl
  · split
    · rfl
    · split
      · rename_i found
        simp only [found]
      · rename_i other
        split
        · rename_i found
          exact absurd found (other _)
        · rfl

theorem le_entriesRead (mem : Bytes) (method path q : Nat) (entries : List ApiEntry) :
    q ≤ entriesRead mem method path q entries := by
  have slashes : q ≤ skipSlashes mem q := Nat.le_add_right ..
  induction entries with
  | nil => exact Nat.le_refl q
  | cons e rest ih =>
    simp only [entriesRead]
    split
    · split
      · omega
      · split <;> split <;> omega
    · exact ih

theorem le_apiTreeRead (mem : Bytes) (method allowFlags : Nat) (root tree : ApiTree) (path : Nat) :
    path ≤ apiTreeRead mem method allowFlags root tree path := by
  have low : path ≤ segmentEnd mem path := Nat.le_add_right ..
  have here := le_entriesRead mem method path (segmentEnd mem path) tree.entries
  rw [apiTreeRead_eq]
  simp only
  split
  · omega
  · split
    · omega
    · split <;> omega

section Text

variable {root : ApiTree} {mem mem' : Bytes} {method : Nat}

theorem subtree_lt {tree subtree : ApiTree} {path q : Nat}
    (found : scanSubtrees mem path q tree.subtrees root.subtrees = .found subtree) :
    sizeOf subtree < sizeOf tree := by
  cases tree with
  | node pathPrefix prefixLength subtrees entries =>
    have smaller := List.sizeOf_lt_of_mem (scanSubtrees_mem found)
    simp only [ApiTree.subtrees] at smaller
    simp only [ApiTree.node.sizeOf_spec]
    omega

theorem parse_of_text {tree : ApiTree} {text : Bytes} {path path' allowFlags : Nat}
    (h : TextAt mem path text) (h' : TextAt mem' path' text)
    (inside : descendsPastEnd mem method allowFlags root tree path = false) :
    parseApiTree mem method allowFlags root tree path =
        parseApiTree mem' method allowFlags root tree path' ∧
      apiTreeRead mem method allowFlags root tree path ≤ path + text.length := by
  induction size : sizeOf tree using Nat.strong_induction_on
    generalizing tree text path path' allowFlags with
  | _ size' ih =>
    subst size
    have le : (segmentName text).length ≤ text.length := length_takeWhile_le ..
    have scan := h.scanEntries_congr h' le method allowFlags tree.entries
    have subtrees := h.scanSubtrees_congr h' le tree.subtrees root.subtrees
    have read := (h.entriesRead_bounds le method tree.entries).2
    rw [parseApiTree_eq, parseApiTree_eq mem', apiTreeRead_eq]
    rw [descendsPastEnd_eq] at inside
    simp only [h.segmentEnd_eq, h'.segmentEnd_eq, ← scan, ← subtrees] at inside ⊢
    cases hit : (scanEntries mem method path (path + (segmentName text).length) allowFlags
        tree.entries).hit.isSome with
    | true =>
      simp only [if_true]
      exact ⟨trivial, read⟩
    | false =>
      simp only [hit, Bool.false_eq_true, if_false] at inside ⊢
      rcases Nat.eq_zero_or_pos (scanEntries mem method path (path + (segmentName text).length)
        allowFlags tree.entries).allowFlags with noFlags | flags
      · simp only [noFlags, ne_eq, not_true_eq_false, if_false] at inside ⊢
        cases found : scanSubtrees mem path (path + (segmentName text).length) tree.subtrees
            root.subtrees with
        | notFound => exact ⟨rfl, read⟩
        | outside => exact ⟨rfl, read⟩
        | found subtree =>
          rw [found] at inside
          simp only at inside ⊢
          split at inside
          · cases inside
          · rename_i more
            -- the segment ends at a slash, so the next one is in the text
            rw [(h.drop le).first] at more
            have next : (segmentName text).length + 1 ≤ text.length := by
              rcases Nat.lt_or_ge (segmentName text).length text.length with lt | ge
              · exact lt
              · rw [List.drop_eq_nil_of_le ge] at more
                exact absurd rfl more
            obtain ⟨same, below⟩ := ih _ (subtree_lt found) (h.next next) (h'.next next) inside rfl
            rw [List.length_drop] at below
            exact ⟨same, by rw [Nat.max_le]; omega⟩
      · have flags := Nat.ne_of_gt flags
        simp only [ne_eq, flags, not_false_eq_true, if_true]
        exact ⟨trivial, read⟩

theorem read_of_descent {tree : ApiTree} {text : Bytes} {path allowFlags : Nat}
    (h : TextAt mem path text)
    (past : descendsPastEnd mem method allowFlags root tree path = true) :
    path + text.length < apiTreeRead mem method allowFlags root tree path := by
  induction size : sizeOf tree using Nat.strong_induction_on
    generalizing tree text path allowFlags with
  | _ size' ih =>
    subst size
    have le : (segmentName text).length ≤ text.length := length_takeWhile_le ..
    rw [descendsPastEnd_eq] at past
    rw [apiTreeRead_eq]
    simp only [h.segmentEnd_eq] at past ⊢
    split at past
    · cases past
    · rename_i noHit
      rw [if_neg noHit]
      split at past
      · cases past
      · rename_i noFlags
        rw [if_neg noFlags]
        split at past
        · rename_i subtree found
          split at past
          · rename_i ended
            have all : text.length ≤ (segmentName text).length := by
              rw [(h.drop le).first] at ended
              cases rest : text.drop (segmentName text).length with
              | nil => exact List.drop_eq_nil_iff.mp rest
              | cons b rest' =>
                rw [rest] at ended
                have member : b ∈ text := List.mem_of_mem_drop (by rw [rest]; exact List.mem_cons_self ..)
                exact absurd (ended ▸ member) h.plain
            have further := le_apiTreeRead mem method
              (scanEntries mem method path (path + (segmentName text).length) allowFlags
                tree.entries).allowFlags root subtree (path + (segmentName text).length + 1)
            omega
          · rename_i more
            rw [(h.drop le).first] at more
            have next : (segmentName text).length + 1 ≤ text.length := by
              rcases Nat.lt_or_ge (segmentName text).length text.length with lt | ge
              · exact lt
              · rw [List.drop_eq_nil_of_le ge] at more
                exact absurd rfl more
            have later := ih _ (subtree_lt found) (h.next next) past rfl
            rw [List.length_drop] at later
            exact Nat.lt_of_lt_of_le (by omega) (Nat.le_max_right ..)
        · cases past

end Text

/-- A client whose request has been accepted. -/
def AcceptedRequest (c : Client) : Prop := ∃ stream, HoldsHead stream c

theorem HoldsHead.textAt {stream : Bytes} {c : Client} (h : HoldsHead stream c) :
    c.reqPath = some (cString c.reqHeaders (c.ta.req.path.getD 0)) ∧
      TextAt c.reqHeaders (c.ta.req.path.getD 0)
        (cString c.reqHeaders (c.ta.req.path.getD 0)) := by
  obtain ⟨head, rest, mem, req, p, -, done, hreq, buffer⟩ := h
  obtain ⟨ends, q, hq, -, -⟩ := headEnd_strings done
  have fits : p ≤ mem.length := by
    have settled := headEnd_resume head [] (Nat.le_refl head.length)
    unfold Resumes at settled
    simp only [headEnd] at done
    simp only [done] at settled
    omega
  have inside := (ends q (mem_strings_path hq)).mono fits
  have front : mem.take mem.length = c.reqHeaders.take mem.length := by
    rw [List.take_length, ← List.take_append_drop head.length c.reqHeaders, buffer, List.take_left]
  have path : c.ta.req.path = some q := by rw [hreq, hq]
  simp only [Client.reqPath, path, Option.map_some, Option.getD_some, true_and]
  exact .of_terminated (inside.congr front)

/-- For a request whose path does not end where a subtree begins, and only for those, the routing
is decided by the path and the method, and nothing behind the path is read. -/
theorem routing_iff (tree : ApiTree) (c : Client) (accepted : AcceptedRequest c) :
    (apiTreeRead c.reqHeaders c.ta.req.method.bits 0 tree tree c.routeStart ≤ c.pathEnd ∧
      ∀ c', AcceptedRequest c' → c'.reqPath = c.reqPath → c'.ta.req.method = c.ta.req.method →
        selection tree c' = selection tree c) ↔
      descendsPastEnd c.reqHeaders c.ta.req.method.bits 0 tree tree c.routeStart = false := by
  obtain ⟨stream, holds⟩ := accepted
  obtain ⟨shown, text⟩ := holds.textAt
  have ended : c.pathEnd = c.ta.req.path.getD 0 +
    (cString c.reqHeaders (c.ta.req.path.getD 0)).length := rfl
  generalize cString c.reqHeaders (c.ta.req.path.getD 0) = path at shown text ended
  have slashes := length_takeWhile_le path fun b => b == 47
  have start : c.routeStart =
      c.ta.req.path.getD 0 + (path.takeWhile fun b => b == 47).length := text.skipSlashes_eq
  have below := text.drop slashes
  rw [← start] at below
  constructor
  · rintro ⟨read, -⟩
    cases past : descendsPastEnd c.reqHeaders c.ta.req.method.bits 0 tree tree c.routeStart with
    | false => rfl
    | true =>
      have further := read_of_descent below past
      rw [List.length_drop] at further
      omega
  · intro inside
    refine ⟨?_, fun c' accepted' path' method' => ?_⟩
    · have read := (parse_of_text below below inside).2
      rw [List.length_drop] at read
      omega
    · obtain ⟨stream', holds'⟩ := accepted'
      obtain ⟨shown', text'⟩ := holds'.textAt
      rw [Option.some.inj (shown'.symm.trans (path'.trans shown))] at text'
      have start' : c'.routeStart =
          c'.ta.req.path.getD 0 + (path.takeWhile fun b => b == 47).length := text'.skipSlashes_eq
      have below' := text'.drop slashes
      rw [← start'] at below'
      rw [selection, selection, method', (parse_of_text below below' inside).1]

theorem serveRequest_selection {s : Server} {tree : ApiTree} {c : Client} (k : Kernel)
    (found : s.apiTree = some tree) (fresh : c.ta.api = {}) :
    match selection tree c with
    | .handler h => ∃ flags, serveRequest s c k = some (serveEndpoint s
        { c with ta := { c.ta with api := { endpointHit := some h, allowFlags := flags } } }
        (k.emit .routed))
    | .notAllowed flags => serveRequest s c k = some (serveCont
        (({ c with ta := { c.ta with api := { allowFlags := flags } } } : Client).setStatus
          .http405MethodNotAllowed) (k.emit .routed))
    | .static => ∃ flags, serveRequest s c k = some (serveStatic s
        { c with ta := { c.ta with api := { allowFlags := flags } } } (k.emit .routed))
    | .outside => serveRequest s c k = none := by
  simp only [selection, serveRequest, found, fresh, Client.routeStart, Option.isSome_none,
    Bool.false_eq_true, if_false, ne_eq, not_true_eq_false, or_self]
  cases parseApiTree c.reqHeaders c.ta.req.method.bits 0 tree tree
      (skipSlashes c.reqHeaders (c.ta.req.path.getD 0)) with
  | outside => rfl
  | methodNotAllowed flags => rfl
  | done hit flags =>
    cases hit with
    | none => exact ⟨flags, rfl⟩
    | some h => exact ⟨flags, rfl⟩

def Selection.isHandler : Selection → Bool
  | handler _ => true
  | _ => false

def queried (query : Byte) : Client :=
  { createClientStruct .zeroed with
    reqHeaders := ascii "GET /a" ++ [0, query, 0] ++ ascii "HTTP/1.1\r\n\r\n"
    ta := { req := { method := .get, path := some 4, query := some 7 } } }

theorem queried_accepted : AcceptedRequest (queried 98) ∧ AcceptedRequest (queried 99) := by
  have b : headEnd (ascii "GET /a?b HTTP/1.1\r\n\r\n") =
      .finish (queried 98).reqHeaders (queried 98).ta.req 21 := by decide +kernel
  have c : headEnd (ascii "GET /a?c HTTP/1.1\r\n\r\n") =
      .finish (queried 99).reqHeaders (queried 99).ta.req 21 := by decide +kernel
  exact ⟨⟨_, _, [], _, _, _, (List.append_nil _).symm, b, rfl, rfl⟩,
    ⟨_, _, [], _, _, _, (List.append_nil _).symm, c, rfl, rfl⟩⟩

def endpoint (name : Bytes) : ApiEntry where
  pathPrefix := name
  prefixLength := name.length
  method := HttpMethod.get.bits
  handler _ := .ret
  finishesPath := false

theorem routing_iff_flat : selection (.node [] 0 [] [endpoint (ascii "a")]) (queried 99) =
    selection (.node [] 0 [] [endpoint (ascii "a")]) (queried 98) :=
  ((routing_iff (.node [] 0 [] [endpoint (ascii "a")]) (queried 98) queried_accepted.1).mpr
    (by decide +kernel)).2 (queried 99) queried_accepted.2 (by decide +kernel) rfl

/-- A tree with an endpoint a/b: whether the request for "/a" gets to it is decided by its query. -/
theorem query_selects_handler :
    AcceptedRequest (queried 98) ∧ AcceptedRequest (queried 99) ∧
      (queried 98).reqPath = (queried 99).reqPath ∧
      (queried 98).ta.req.method = (queried 99).ta.req.method ∧
      (selection (.node [] 0 [.node (ascii "a") 1 [] [endpoint (ascii "b")]] [])
        (queried 98)).isHandler = true ∧
      (selection (.node [] 0 [.node (ascii "a") 1 [] [endpoint (ascii "b")]] [])
        (queried 99)).isHandler = false :=
  ⟨queried_accepted.1, queried_accepted.2, by decide +kernel, rfl, by decide +kernel,
    by decide +kernel⟩

end Kitserv
