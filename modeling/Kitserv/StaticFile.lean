import Kitserv.Headers

namespace Kitserv

/-- A return value 0 or -1 with what the function leaves; errno is passed along explicitly. -/
structure StaticResult where
  ok : Bool
  client : Client
  kernel : Kernel
  errno : Errno

structure Verified where
  stat : Option Stat
  client : Client
  kernel : Kernel
  errno : Errno

/-- `verify_static_path`. A path is stored whole when it is shorter than `PATH_MAX`. -/
def verifyStaticPath (c : Client) (k : Kernel) (errno : Errno) (path : Bytes) : Verified :=
  if path.length ≥ pathMax then
    { stat := none, client := c.setStatus .http414UriTooLong, kernel := k, errno := .enametoolong }
  else
    let fail (k : Kernel) (errno : Errno) : Verified :=
      { stat := none
        client := if errno = .eacces then c.setStatus .http403PermissionDenied else c
        kernel := k
        errno := errno }
    match k.stat path with
    | (.ok st, k) =>
      -- stat succeeded, so errno is what it was before
      if st.isReg then { stat := some st, client := c, kernel := k, errno := errno }
      else fail k errno
    | (.error e, k) => fail k e

inductive PathChoice where
  | pathSet (fname : Bytes) (st : Stat) (c : Client) (k : Kernel) (errno : Errno)
  | stop (c : Client) (k : Kernel) (errno : Errno)

/-- Try the candidates in turn. One that fails ends the search if a status is set by then. -/
def tryPaths (c : Client) (k : Kernel) (errno : Errno) : List Bytes → PathChoice
  | [] => .stop (c.setStatus .http404NotFound) k errno
  | fname :: rest =>
    let v := verifyStaticPath c k errno fname
    match v.stat with
    | some st => .pathSet fname st v.client v.kernel v.errno
    | none =>
      if v.client.ta.resp.status ≠ .xRespStatusUnset then .stop v.client v.kernel v.errno
      else tryPaths v.client v.kernel v.errno rest

/-- The file names that are tried, in order: direct or root fallback, with ".html", fallback. -/
def candidates (ctx : RequestContext) (reqPath path : Bytes) : List Bytes :=
  let under (name : Bytes) := ctx.root ++ ascii "/" ++ name
  let direct := match ctx.rootFallback with
    | some rootFallback => if reqPath = ascii "/" then under rootFallback else under path
    | none => under path
  let html := if ctx.useHttpAppendFallback then [under (path ++ ascii ".html")] else []
  let generic := match ctx.fallback with
    | some fallback => [under fallback]
    | none => []
  direct :: html ++ generic

def extension (fname : Bytes) : Option Bytes :=
  if 46 ∈ fname then some (46 :: (fname.reverse.takeWhile fun b => b != 46).reverse) else none

def errClosefd (c : Client) (k : Kernel) (errno : Errno) : StaticResult :=
  let r := k.closeFdToZero c.ta.resp.fd
  { ok := false
    client := { c with ta := { c.ta with resp := { c.ta.resp with fd := r.1 } } }
    kernel := r.2
    errno := errno }

def handleRange (c : Client) (st : Stat) : Result :=
  if ¬ c.ta.req.rangeRequested then { ok := true, client := c }
  else
    let r := parseRangeRequest c st.size
    if r.ok then
      let h := headerAddContentRange r.client r.client.ta.resp.bodyPos r.client.ta.resp.bodyEnd st.size
      if h.ok then h else { ok := false, client := h.client.setStatus .http500InternalError }
    else if r.client.ta.resp.status ≠ .http400BadRequest then
      if r.client.ta.resp.status = .http416RangeNotSatisfiable then
        let h := headerAdd r.client (ascii "content-range") (some (ascii "*/" ++ decimal st.size))
        { ok := false
          client := { h.client with ta := { h.client.ta with
            resp := { h.client.ta.resp with preserveHeadersOnError := true } } } }
      else { ok := false, client := r.client }
    else
      -- the status 400 stays until the end of the function sets another one
      { ok := true
        client := { r.client with ta := { r.client.ta with
          req := { r.client.ta.req with rangeRequested := false } } } }

def addFileHeaders (lib : TimeLib) (c : Client) (fname : Bytes) (st : Stat) : Result :=
  let r := headerAddContentTypeGuess c (extension fname)
  if ¬ r.ok then r
  else
    let r := headerAdd r.client (ascii "accept-ranges") (some (ascii "bytes"))
    if ¬ r.ok then r else headerAddLastModified lib r.client st.mtime

def serveFile (c : Client) (k : Kernel) (errno : Errno) : StaticResult :=
  { ok := true
    client := c.setStatus
      (if c.ta.req.rangeRequested then .http206PartialContent else .http200Ok)
    kernel := k
    errno := errno }

/-- The branch for a file that has not been modified; the descriptor is closed here. -/
def notModified (c : Client) (k : Kernel) (errno : Errno) : StaticResult :=
  let c := c.setStatus .http304NotModified
  let r := k.closeFdToZero c.ta.resp.fd
  { ok := true
    client := { c with ta := { c.ta with
      req := { c.ta.req with method := .head }
      resp := { c.ta.resp with fd := r.1 } } }
    kernel := r.2
    errno := errno }

def describeFile (lib : TimeLib) (c : Client) (k : Kernel) (errno : Errno) (fname : Bytes)
    (st : Stat) : StaticResult :=
  let c := { c with ta := { c.ta with resp := { c.ta.resp with bodyEnd := (st.size : Int) - 1 } } }
  let r := handleRange c st
  if ¬ r.ok then errClosefd r.client k errno
  else
    let r := addFileHeaders lib r.client fname st
    if ¬ r.ok then errClosefd (r.client.setStatus .http500InternalError) k errno
    else match r.client.ta.req.modifiedSince with
      | none => serveFile r.client k errno
      | some since =>
        match lib.strptime (cString r.client.reqHeaders since) with
        | none => errClosefd (r.client.setStatus .http400BadRequest) k errno
        | some time =>
          if st.mtime - time ≤ 0 then notModified r.client k errno else serveFile r.client k errno

def pathSet (lib : TimeLib) (c : Client) (k : Kernel) (errno : Errno) (fname : Bytes) (st : Stat) :
    StaticResult :=
  let withFd (fd : Int) : Client :=
    { c with ta := { c.ta with resp := { c.ta.resp with fd := fd } } }
  if c.ta.req.method = .get then
    match k.openRdonly fname with
    | (.error e, k) =>
      { ok := false, client := c.setStatus .http500InternalError, kernel := k, errno := e }
    | (.ok fd, k) => describeFile lib (withFd fd.val) k errno fname st
  else describeFile lib (withFd fdHead) k errno fname st

def handleStaticPath (s : Server) (c : Client) (k : Kernel) (path : Bytes)
    (ctx : Option RequestContext) : StaticResult :=
  let ctx := ctx.getD s.defaultContext
  if c.ta.req.method.bits &&& HttpMethod.get.bits = 0 then
    { ok := false, client := c.setStatus .http405MethodNotAllowed, kernel := k, errno := .enotsup }
  else
    let reqPath := (c.ta.req.path.map (cString c.reqHeaders)).getD []
    let r := k.staleErrno
    match tryPaths c r.2 r.1 (candidates ctx reqPath path) with
    | .stop c k errno => { ok := false, client := c, kernel := k, errno := errno }
    | .pathSet fname st c k errno => pathSet s.time c k errno fname st

end Kitserv
