import Kitserv.StaticFile

namespace Kitserv

open Memory

structure CookieScan where
  ok : Bool
  mem : Bytes
  cookies : List HttpCookie
  num : Nat
  deriving DecidableEq, Repr

def capValue (mem : Bytes) : Option Nat → Bytes
  | none => mem
  | some q => mem.set q 0

@[simp] theorem length_capValue (mem : Bytes) (q : Option Nat) :
    (capValue mem q).length = mem.length := by
  cases q with
  | none => rfl
  | some q => exact List.length_set

def parseCookiesLoop (mem : Bytes) (cookies : List HttpCookie) (index start : Nat) : CookieScan :=
  let p := start + ((mem.drop start).takeWhile fun b => b == 32).length
  match _h : strchr mem p 61 with
  | none => { ok := false, mem := mem, cookies := cookies, num := index }
  | some r =>
    let q := strchr mem r 59
    let mem' := (capValue mem q).set r 0
    let stored := cookies.take index ++ [{ key := p, value := r + 1, keylen := r - p }] ++
      cookies.drop (index + 1)
    -- a cookie without value is skipped, and one too many ends the loop
    if some (r + 1) ≠ q ∧ ¬ index < httpMaxCookies then
      { ok := true, mem := mem', cookies := cookies, num := index }
    else
      let next := if some (r + 1) ≠ q then index + 1 else index
      let cookies := if some (r + 1) ≠ q then stored else cookies
      match _h' : strchr mem r 59 with
      | none => { ok := true, mem := mem', cookies := cookies, num := next }
      | some q => parseCookiesLoop mem' cookies next (q + 1)
termination_by mem.length - start
decreasing_by
  have equals := strchr_some _h
  have semicolon := strchr_some _h'
  have inside := strchr_lt _h'
  have same : mem'.length = mem.length := by simp [mem']
  rw [same]
  omega

def parseCookies (c : Client) : Client :=
  match c.ta.req.freshCookies with
  | none => c
  | some p =>
    let r := parseCookiesLoop c.reqHeaders c.reqCookies 0 p
    { c with
      reqHeaders := r.mem
      reqCookies := r.cookies
      ta := { c.ta with
        reqNumCookies := if r.ok then r.num else c.ta.reqNumCookies
        req := { c.ta.req with freshCookies := none } } }

structure CallResult where
  reply : Reply
  client : Client
  kernel : Kernel

def getRequestCookieN (c : Client) (k : Kernel) (key : Bytes) (keylen : Int) : CallResult :=
  if keylen ≤ 0 then { reply := { errno := .einval }, client := c, kernel := k }
  else
    let c := parseCookies c
    let hit := (c.reqCookies.take c.ta.reqNumCookies).find? fun cookie =>
      keylen == cookie.keylen && key == cString c.reqHeaders cookie.key
    { reply := { data := hit.map fun cookie => cString c.reqHeaders cookie.value }
      client := c
      kernel := k }

/-- The loop of `kitserv_api_read_payload`: `written` has been stored, `nbytes` are missing. -/
def readPayloadLoop (c : Client) (k : Kernel) (written : Bytes) (nbytes : Nat) : CallResult :=
  let give (k : Kernel) : CallResult :=
    { reply := { rc := written.length, data := some written }, client := c, kernel := k }
  let deny (c : Client) (k : Kernel) (errno : Errno) : CallResult :=
    { reply := { rc := -1, errno := errno }, client := c, kernel := k }
  if _more : nbytes = 0 then give k
  else match k.read nbytes with
    | (.wouldBlock, k) => if written ≠ [] then give k else deny c k .eagain
    | (.failed code, k) => deny (c.setStatus .xHangup) k (.other code)
    | (.data [], k) => if written ≠ [] then give k else deny c k .zero
    | (.data (b :: bs), k) =>
      readPayloadLoop c k (written ++ b :: bs) (nbytes - (b :: bs).length)
termination_by nbytes
decreasing_by simp only [List.length_cons]; omega

/-- `kitserv_api_read_payload`. Bytes that were read together with the head come first. -/
def readPayload (c : Client) (k : Kernel) (nbytes : Nat) : CallResult :=
  let rc := c.ta.reqPayloadLen - c.ta.reqPayloadPos
  let r :=
    if rc > 0 then
      let written := min nbytes rc.toNat
      let start := c.ta.reqPayload.getD 0 + c.ta.reqPayloadPos.toNat
      readPayloadLoop
        { c with ta := { c.ta with reqPayloadPos := c.ta.reqPayloadPos + written } } k
        (slice c.reqHeaders start (start + written)) (nbytes - written)
    else readPayloadLoop c k [] nbytes
  match r.reply.data with
  | some bs => { r with kernel := r.kernel.emit (.payload bs) }
  | none => r

structure BodyResult where
  rc : Int
  client : Client

def writeBody (c : Client) (data : Bytes) (out : ReallocOutcome) : BodyResult :=
  let preSz := c.respBody.len
  let r := c.respBody.append data out
  if r.rc ≠ 0 then { rc := -1, client := { c with respBody := r.buffer } }
  else { rc := r.buffer.len - preSz, client := { c with respBody := r.buffer } }

def writeBodyFmt (c : Client) (first second : Rendering) (out : ReallocOutcome) : BodyResult :=
  let preSz := c.respBody.len
  let r := c.respBody.appendva first second out
  if r.rc ≠ 0 then { rc := -1, client := { c with respBody := r.buffer } }
  else { rc := r.buffer.len - preSz, client := { c with respBody := r.buffer } }

def resetBody (c : Client) (out : ReallocOutcome) : Client :=
  { c with respBody := c.respBody.reset httpBufsz out }

def resetHeaders (c : Client) : Client :=
  { c with ta := { c.ta with resp := { c.ta.resp with
    bufs := { c.ta.resp.bufs with headers := { c.ta.resp.bufs.headers with len := 0 } } } } }

def sendFile (c : Client) (k : Kernel) (fd filesize : Int) : CallResult :=
  let k := if c.ta.resp.fd > 0 then k.close c.ta.resp.fd else k
  let resp := { c.ta.resp with fd := fd, bodyPos := 0 }
  let resp := if fd ≠ fdDisable then { resp with bodyEnd := filesize - 1 } else resp
  { reply := {}
    client := { c with ta := { c.ta with resp := resp } }
    kernel := if fd > 0 then k.emit (.handed fd) else k }

def setSendRange (c : Client) (k : Kernel) (pos last : Int) : CallResult :=
  if pos < 0 ∨ last < 0 then { reply := { rc := -1, errno := .einval }, client := c, kernel := k }
  else
    { reply := {}
      client := { c with ta := { c.ta with resp := { c.ta.resp with
        bodyPos := pos
        bodyEnd := last } } }
      kernel := k }

/-- A function that returns 0 or -1, as a call of a handler; -1 comes with `errno`. -/
def Result.asCall (r : Result) (k : Kernel) (errno : Errno) : CallResult :=
  { reply := if r.ok then {} else { rc := -1, errno := errno }, client := r.client, kernel := k }

def BodyResult.asCall (r : BodyResult) (k : Kernel) : CallResult :=
  { reply := { rc := r.rc, errno := if r.rc < 0 then .enomem else .zero }
    client := r.client
    kernel := k }

def apiCall (s : Server) (c : Client) (k : Kernel) : Call → CallResult
  | .choose => { reply := { rc := k.choose.1 }, client := c, kernel := k.choose.2 }
  | .getRequestMethod => { reply := { rc := c.ta.req.method.bits }, client := c, kernel := k }
  | .getRequestPath => text c.ta.req.path
  | .getRequestQuery => text c.ta.req.query
  | .getRequestContentLength => { reply := { pos := c.ta.req.contentLen }, client := c, kernel := k }
  | .getRequestCookieN key keylen => getRequestCookieN c k key keylen
  | .getRequestMimeType => text c.ta.req.mimetype
  | .getRequestDisposition => text c.ta.req.disposition
  | .getRequestRange =>
    match parseRange c with
    | (none, c) => { reply := { rc := -1 }, client := c, kernel := k }
    | (some range, c) =>
      { reply := { pos := range.first, last := range.last }, client := c, kernel := k }
  | .getRequestModifiedSinceDifference time =>
    match c.ta.req.modifiedSince.bind fun p => s.time.strptime (cString c.reqHeaders p) with
    | none => { reply := { rc := -1 }, client := c, kernel := k }
    | some since => { reply := { pos := time - since }, client := c, kernel := k }
  | .readPayload nbytes => readPayload c k nbytes
  | .writeBody data => (writeBody c data k.realloc.1).asCall k.realloc.2
  | .writeBodyFmt first second => (writeBodyFmt c first second k.realloc.1).asCall k.realloc.2
  | .resetHeaders => { reply := {}, client := resetHeaders c, kernel := k }
  | .resetBody => { reply := {}, client := resetBody c k.realloc.1, kernel := k.realloc.2 }
  | .sendFile fd filesize => sendFile c k fd filesize
  | .setSendRange pos last => setSendRange c k pos last
  | .setPreserveHeadersOnError enabled =>
    { reply := {}
      client := { c with ta := { c.ta with resp := { c.ta.resp with
        preserveHeadersOnError := enabled } } }
      kernel := k }
  | .setPreserveBodyOnError enabled =>
    { reply := {}
      client := { c with ta := { c.ta with resp := { c.ta.resp with
        preserveBodyOnError := enabled } } }
      kernel := k }
  | .setResponseStatus code =>
    { reply := {}, client := c.setStatus (HttpStatus.ofCode code), kernel := k }
  | .saveState state =>
    { reply := {}
      client := { c with ta := { c.ta with api := { c.ta.api with internalData := state } } }
      kernel := k.emit (.saved state) }
  | .headerAdd key value => (headerAdd c key value).asCall k .enomem
  | .headerAddContentType mime => (headerAddContentType c mime).asCall k .enomem
  | .headerAddContentTypeGuess extension => (headerAddContentTypeGuess c extension).asCall k .enomem
  | .headerAddLastModified time => (headerAddLastModified s.time c time).asCall k .enomem
  | .handleStaticPath path ctx =>
    let r := handleStaticPath s c k path ctx
    { reply := if r.ok then {} else { rc := -1, errno := r.errno }
      client := r.client
      kernel := r.kernel }
where
  text (p : Option Nat) : CallResult :=
    { reply := { data := p.map (cString c.reqHeaders) }, client := c, kernel := k }

def runProgram (s : Server) : Program → Client → Kernel → Client × Kernel
  | .ret, c, k => (c, k)
  | .call f next, c, k =>
    let r := apiCall s c k f
    runProgram s (next r.reply) r.client r.kernel

end Kitserv
