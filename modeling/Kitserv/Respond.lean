import Kitserv.Serve

namespace Kitserv

def serverName : Bytes := ascii "kitserv"

def announcedLength (c : Client) : Int :=
  if c.ta.resp.fd ≠ 0 then c.ta.resp.bodyEnd - c.ta.resp.bodyPos + 1
  else c.respBody.len - c.ta.resp.bodyPos

def describeBuffers (c : Client) : Client :=
  let bufs := c.ta.resp.bufs
  let bufs := { bufs with
    start := { bufs.start with base := 0 }
    headers := { bufs.headers with base := 0 } }
  let bufs :=
    if c.ta.resp.fd = 0 ∧ c.ta.req.method ≠ .head then
      { bufs with body := {
          base := c.ta.resp.bodyPos.toNat
          len := toSizeT (c.respBody.len - c.ta.resp.bodyPos) } }
    else bufs
  { c with ta := { c.ta with state := .send, resp := { c.ta.resp with bufs := bufs } } }

/-- From the label `success` on; `ok` is false where the source goes to `error_response`. -/
def prepareSuccess (c : Client) : Result :=
  let r := headerAddContentLength (prepareRespStart c) (announcedLength c)
  if ¬ r.ok then r
  else
    let r := headerAdd r.client (ascii "server") (some serverName)
    if ¬ r.ok then r
    else
      let c := r.client
      let e := strAppend c.respHeaders c.ta.resp.bufs.headers.len httpBufsz (some (ascii "\r\n"))
      let c := c.setHeaders e.buf e.len
      if ¬ e.ok then
        -- the status code is stored into the wrong field
        { ok := false
          client := { c with ta := { c.ta with resp := { c.ta.resp with
            fd := HttpStatus.http507InsufficientStorage.code } } } }
      else { ok := true, client := describeBuffers c }

def prepareErrorResponseHeaders (c : Client) : Option Result :=
  let c := resetHeaders c
  if c.ta.resp.status = .http405MethodNotAllowed then headerAddAllow c
  else some { ok := true, client := c }

/-- The texts that `prepare_error_response_body` appends; `none` is strlen of a NULL path. -/
def errorBodyTexts (c : Client) : Option (List Bytes) :=
  match c.ta.resp.status with
  | .http400BadRequest => some [ascii "Bad request."]
  | .http403PermissionDenied => some [ascii "Permission denied."]
  | .http404NotFound =>
    c.ta.req.path.map fun p => [ascii "Not found: ", cString c.reqHeaders p]
  | .http405MethodNotAllowed => some [ascii "Method not allowed."]
  | .http408RequestTimeout => some [ascii "Request timeout."]
  | .http413ContentTooLarge => some [ascii "Content too large."]
  | .http414UriTooLong => some [ascii "URI too long."]
  | .http416RangeNotSatisfiable => some [ascii "Range not satisfiable."]
  | .http431RequestHeaderFieldsTooLarge => some [ascii "Request header fields too large."]
  | .http501NotImplemented => some [ascii "Not implemented."]
  | .http503ServiceUnavailable => some [ascii "Service unavailable."]
  | .http505VersionNotSupported => some [ascii "Version not supported."]
  | .http507InsufficientStorage => some [ascii "Insufficient storage."]
  | _ => some [ascii "Internal server error."]

def appendTexts (c : Client) (k : Kernel) : List Bytes → Outcome
  | [] => { rc := 0, client := c, kernel := k }
  | text :: rest =>
    let r := c.respBody.append text k.realloc.1
    let c := { c with respBody := r.buffer }
    if r.rc ≠ 0 then { rc := -1, client := c, kernel := k.realloc.2 }
    else appendTexts c k.realloc.2 rest

/-- The fields that `prepare_error_response_body` resets, with the descriptor closed. -/
def dropBody (c : Client) (k : Kernel) : Client × Kernel :=
  let r := k.closeFdToZero c.ta.resp.fd
  ({ c with
      respBody := { c.respBody with len := 0 }
      ta := { c.ta with resp := { c.ta.resp with fd := r.1, bodyPos := 0, bodyEnd := 0 } } }, r.2)

def prepareErrorResponseBody (c : Client) (k : Kernel) : Option Outcome :=
  let d := dropBody c k
  let r := headerAddContentType d.1 (ascii "text/plain")
  if ¬ r.ok then some { rc := -1, client := r.client, kernel := d.2 }
  else (errorBodyTexts r.client).map (appendTexts r.client d.2)

def prepareError (c : Client) (k : Kernel) : Option Outcome :=
  if c.ta.resp.preserveBodyOnError then some { rc := 0, client := c, kernel := k }
  else if c.ta.resp.preserveHeadersOnError then prepareErrorResponseBody c k
  else match prepareErrorResponseHeaders c with
    | none => none
    | some r =>
      if r.ok then prepareErrorResponseBody r.client k
      else some { rc := -1, client := r.client, kernel := k }

/-- The label `error_response`, reached for the first time. A second failure gives up. -/
def errorResponse (c : Client) (k : Kernel) : Option Outcome :=
  (prepareError c k).map fun e =>
    if e.rc ≠ 0 then e
    else
      let r := prepareSuccess e.client
      { rc := if r.ok then 0 else -1, client := r.client, kernel := e.kernel }

def prepareResponse (c : Client) (k : Kernel) : Option Outcome :=
  if c.ta.resp.status = .xHangup then some { rc := -1, client := c, kernel := k }
  else if c.ta.resp.status.isError then errorResponse c k
  else
    let r := prepareSuccess c
    if r.ok then some { rc := 0, client := r.client, kernel := k } else errorResponse r.client k

end Kitserv
