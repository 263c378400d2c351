import Kitserv.Respond

namespace Kitserv

def Iovec.bytes (outside : Nat → Byte) (buf : Bytes) (v : Iovec) : Bytes :=
  (List.range v.len).map fun i => (buf[v.base + i]?).getD (outside (v.base + i))

def describedBytes (outside : Nat → Byte) (c : Client) : Bytes :=
  c.ta.resp.bufs.start.bytes outside c.respStart ++
    c.ta.resp.bufs.headers.bytes outside c.respHeaders ++
    c.ta.resp.bufs.body.bytes outside c.respBody.buf

/-- One round of the loop over `resp_bufs`. -/
def Iovec.advance (v : Iovec) (rc : Nat) : Iovec :=
  { base := v.base + rc, len := if v.len ≤ rc then 0 else v.len - rc }

/-- The loop over `resp_bufs` after a write of `rc` bytes, and whether it ran to its end. -/
def RespBufs.advance (bufs : RespBufs) (rc : Nat) : RespBufs × Bool :=
  if bufs.start.len ≤ rc then
    if bufs.headers.len ≤ rc then
      ({ start := bufs.start.advance rc
         headers := bufs.headers.advance rc
         body := bufs.body.advance rc }, bufs.body.len ≤ rc)
    else
      ({ bufs with start := bufs.start.advance rc, headers := bufs.headers.advance rc }, false)
  else ({ bufs with start := bufs.start.advance rc }, false)

def Client.setBufs (c : Client) (bufs : RespBufs) : Client :=
  { c with ta := { c.ta with resp := { c.ta.resp with bufs := bufs } } }

/-- The loop of `kitserv_http_send_response` on the outcomes of writev. The return expression
assigns errno instead of comparing it, so every error is reported as would-block. -/
def sendLoop (c : Client) (k : Kernel) : List Transfer → Outcome
  | [] => { rc := 0, client := c, kernel := { k with writes := [] }.emit (.socketWrite .wouldBlock) }
  | .wouldBlock :: rest =>
    { rc := 0, client := c, kernel := { k with writes := rest }.emit (.socketWrite .wouldBlock) }
  | .failed code :: rest =>
    { rc := 0, client := c, kernel := { k with writes := rest }.emit (.socketWrite (.failed code)) }
  | .bytes n :: rest =>
    let data := describedBytes k.outside c
    -- the kernel takes at most what it is offered
    let n := min n data.length
    let k := ({ k with writes := rest }.emit (.socketWrite (.bytes n))).emit (.sent (data.take n))
    let r := c.ta.resp.bufs.advance n
    let c := c.setBufs r.1
    if r.2 then { rc := 0, client := c.setState .sendFile, kernel := k } else sendLoop c k rest

def sendResponse (c : Client) (k : Kernel) : Outcome := sendLoop c k k.writes

def sendFileDone (c : Client) (k : Kernel) : Outcome :=
  let c := c.setState .done
  { rc := if c.ta.resp.status.isError ∨ c.ta.req.version = .http10 then -1 else 0
    client := c
    kernel := k }

/-- What follows the loop: close a file that has been sent whole. -/
def sendFileClose (c : Client) (k : Kernel) : Outcome :=
  let r := k.closeFdToZero c.ta.resp.fd
  sendFileDone { c with ta := { c.ta with resp := { c.ta.resp with fd := r.1 } } } r.2

def sendFileLoop (c : Client) (k : Kernel) : List Transfer → Outcome
  | [] => failed 0 ({ k with sendfiles := [] }.emit (.socketSendfile .wouldBlock))
  | .wouldBlock :: rest => failed 0 ({ k with sendfiles := rest }.emit (.socketSendfile .wouldBlock))
  | .failed code :: rest =>
    failed (-1) ({ k with sendfiles := rest }.emit (.socketSendfile (.failed code)))
  | .bytes n :: rest =>
    let n := min n (toSizeT (c.ta.resp.bodyEnd - c.ta.resp.bodyPos + 1))
    let k := ({ k with sendfiles := rest }.emit (.socketSendfile (.bytes n))).emit
      (.sentFile c.ta.resp.fd c.ta.resp.bodyPos n)
    let c := { c with ta := { c.ta with resp := { c.ta.resp with
      bodyPos := c.ta.resp.bodyPos + n } } }
    if c.ta.resp.bodyPos > c.ta.resp.bodyEnd then sendFileClose c k
    else if n = 0 then sendFileDone c k
    else sendFileLoop c k rest
where
  /-- sendfile returned -1. A position behind the end counts as sent all the same. -/
  failed (rc : Int) (k : Kernel) : Outcome :=
    if c.ta.resp.bodyPos > c.ta.resp.bodyEnd then sendFileClose c k
    else { rc := rc, client := c, kernel := k }

def sendResponseFile (c : Client) (k : Kernel) : Outcome :=
  if c.ta.resp.fd > 0 ∧ c.ta.req.method ≠ .head then sendFileLoop c k k.sendfiles
  else sendFileDone c k

end Kitserv
