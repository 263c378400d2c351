import Kitserv.Api

namespace Kitserv

open Memory

def segmentEnd (mem : Bytes) (path : Nat) : Nat :=
  path + ((mem.drop path).takeWhile fun b => b != 0 && b != 47).length

def skipSlashes (mem : Bytes) (q : Nat) : Nat :=
  q + ((mem.drop q).takeWhile fun b => b == 47).length

def matchesSegment (mem : Bytes) (path q : Nat) (length : Int) (text : Bytes) : Bool :=
  length == (q : Int) - path && slice mem path q == text.take (q - path)

structure EntryScan where
  allowFlags : Nat
  hit : Option Handler

def scanEntries (mem : Bytes) (method path q allowFlags : Nat) : List ApiEntry → EntryScan
  | [] => { allowFlags := allowFlags, hit := none }
  | e :: rest =>
    if matchesSegment mem path q e.prefixLength e.pathPrefix then
      if e.finishesPath ∧ (mem[skipSlashes mem q]?).getD 0 ≠ 0 then
        scanEntries mem method path q allowFlags rest
      else if method &&& e.method ≠ 0 then
        { allowFlags := allowFlags ||| e.method, hit := some e.handler }
      else scanEntries mem method path q (allowFlags ||| e.method) rest
    else scanEntries mem method path q allowFlags rest

/-- Where the loop over the subtrees ends; `outside` is a read behind the array of the root. -/
inductive SubtreeScan where
  | found (tree : ApiTree)
  | notFound
  | outside

/-- The loop over the subtrees of the current tree. The prefix texts are those of the root's
subtrees with the same index. -/
def scanSubtrees (mem : Bytes) (path q : Nat) : List ApiTree → List ApiTree → SubtreeScan
  | [], _ => .notFound
  | t :: rest, roots =>
    if t.prefixLength == (q : Int) - path then
      match roots with
      | [] => .outside
      | root :: roots =>
        if matchesSegment mem path q t.prefixLength root.pathPrefix then .found t
        else scanSubtrees mem path q rest roots
    else scanSubtrees mem path q rest roots.tail

theorem scanSubtrees_mem {mem : Bytes} {path q : Nat} {trees roots : List ApiTree} {tree : ApiTree}
    (h : scanSubtrees mem path q trees roots = .found tree) : tree ∈ trees := by
  induction trees generalizing roots with
  | nil => cases h
  | cons t rest ih =>
    simp only [scanSubtrees] at h
    split at h
    · cases roots with
      | nil => cases h
      | cons root roots =>
        simp only at h
        split at h
        · cases h
          exact List.mem_cons_self ..
        · exact List.mem_cons_of_mem _ (ih h)
    · exact List.mem_cons_of_mem _ (ih h)

/-- How `parse_api_tree` ends: with a route, with -1, or reading outside of an array. -/
inductive Route where
  | done (hit : Option Handler) (allowFlags : Nat)
  | methodNotAllowed (allowFlags : Nat)
  | outside

def parseApiTree (mem : Bytes) (method allowFlags : Nat) (root tree : ApiTree) (path : Nat) : Route :=
  let q := segmentEnd mem path
  let scan := scanEntries mem method path q allowFlags tree.entries
  if scan.hit.isSome then .done scan.hit scan.allowFlags
  else if scan.allowFlags ≠ 0 then .methodNotAllowed scan.allowFlags
  else match _found : scanSubtrees mem path q tree.subtrees root.subtrees with
    | .found subtree => parseApiTree mem method scan.allowFlags root subtree (q + 1)
    | .notFound => .done none scan.allowFlags
    | .outside => .outside
termination_by sizeOf tree
decreasing_by
  have member := scanSubtrees_mem _found
  cases tree with
  | node pathPrefix prefixLength subtrees entries =>
    have smaller := List.sizeOf_lt_of_mem member
    simp only [ApiTree.subtrees] at smaller
    simp only [ApiTree.node.sizeOf_spec]
    omega

def Client.setState (c : Client) (state : TransactionState) : Client :=
  { c with ta := { c.ta with state := state } }

/-- The label `cont`. -/
def serveCont (c : Client) (k : Kernel) : Outcome :=
  { rc := 0, client := c.setState .prepareResponse, kernel := k }

def serveStatic (s : Server) (c : Client) (k : Kernel) : Outcome :=
  let r := handleStaticPath s c k ((c.ta.req.path.map (cString c.reqHeaders)).getD []) none
  serveCont r.client r.kernel

def serveEndpoint (s : Server) (c : Client) (k : Kernel) : Outcome :=
  match c.ta.api.endpointHit with
  | none => serveStatic s c k
  | some handler =>
    let r := runProgram s (handler c.ta.api.internalData) c (k.emit (.called c.ta.api.internalData))
    let k := r.2.emit (.returned r.1.ta.resp.status)
    if r.1.ta.resp.status = .xRespStatusUnset then { rc := 0, client := r.1, kernel := k }
    else serveCont r.1 k

/-- `kitserv_http_serve_request`; `none` is a failed assertion or a read outside of an array. -/
def serveRequest (s : Server) (c : Client) (k : Kernel) : Option Outcome :=
  match s.apiTree with
  | none => some (serveStatic s c k)
  | some tree =>
    if c.ta.api.endpointHit.isSome then some (serveEndpoint s c k)
    else if c.ta.api.internalData ≠ 0 ∨ c.ta.api.allowFlags ≠ 0 then none
    else
      let k := k.emit .routed
      let p := skipSlashes c.reqHeaders (c.ta.req.path.getD 0)
      match parseApiTree c.reqHeaders c.ta.req.method.bits 0 tree tree p with
      | .outside => none
      | .methodNotAllowed flags =>
        let c := { c with ta := { c.ta with api := { c.ta.api with allowFlags := flags } } }
        some (serveCont (c.setStatus .http405MethodNotAllowed) k)
      | .done hit flags =>
        let api := { c.ta.api with endpointHit := hit, allowFlags := flags }
        some (serveEndpoint s { c with ta := { c.ta with api := api } } k)

end Kitserv
