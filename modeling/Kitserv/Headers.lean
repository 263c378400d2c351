import Kitserv.Kernel
import Kitserv.Text

namespace Kitserv

open Memory

structure Appended where
  ok : Bool
  buf : Bytes
  len : Nat
  deriving DecidableEq, Repr

/-- `str_append`, `str_appendva`: vsnprintf into the room behind `offset`. -/
def strAppend (buf : Bytes) (offset max : Nat) : Rendering → Appended
  | none => { ok := false, buf := buf, len := offset }
  | some text =>
    let buf := overwrite buf offset (Buffer.rendered (toSizeT ((max : Int) - offset)) text)
    if text.length ≥ toSizeT ((max : Int) - offset) then { ok := false, buf := buf, len := offset }
    else { ok := true, buf := buf, len := offset + text.length }

/-- A client with the return value of the function that left it; `ok` is the return value 0. -/
structure Result where
  ok : Bool
  client : Client

def Client.setHeaders (c : Client) (buf : Bytes) (len : Nat) : Client :=
  { c with
    respHeaders := buf
    ta := { c.ta with resp := { c.ta.resp with
      bufs := { c.ta.resp.bufs with headers := { c.ta.resp.bufs.headers with len := len } } } } }

def headerTooLarge (c : Client) (buf : Bytes) (len : Nat) : Result :=
  { ok := false, client := (c.setHeaders buf len).setStatus .http507InsufficientStorage }

def headerAdd (c : Client) (key : Bytes) (value : Rendering) : Result :=
  let preSz := c.ta.resp.bufs.headers.len
  let r := strAppend c.respHeaders preSz httpBufsz (some (key ++ ascii ": "))
  if ¬ r.ok then headerTooLarge c r.buf preSz
  else
    let r := strAppend r.buf r.len httpBufsz value
    if ¬ r.ok then headerTooLarge c r.buf preSz
    else
      let r := strAppend r.buf r.len httpBufsz (some (ascii "\r\n"))
      if ¬ r.ok then headerTooLarge c r.buf preSz
      else { ok := true, client := c.setHeaders r.buf r.len }

def headerAddContentType (c : Client) (mime : Bytes) : Result :=
  headerAdd c (ascii "content-type") (some mime)

def guessMimeType : Option Bytes → Bytes
  | none => ascii "application/octet-stream"
  | some extension =>
    match mimeTypes.find? fun m => sameNoCase extension m.1 with
    | some m => m.2
    | none => ascii "application/octet-stream"
where
  mimeTypes : List (Bytes × Bytes) :=
    [(ascii ".js", ascii "text/javascript"),
     (ascii ".html", ascii "text/html"),
     (ascii ".htm", ascii "text/html"),
     (ascii ".css", ascii "text/css"),
     (ascii ".json", ascii "application/json"),
     (ascii ".svg", ascii "image/svg+xml"),
     (ascii ".png", ascii "image/png"),
     (ascii ".jpg", ascii "image/jpeg"),
     (ascii ".jpeg", ascii "image/jpeg"),
     (ascii ".txt", ascii "text/plain"),
     (ascii ".md", ascii "text/plain"),
     (ascii ".gif", ascii "image/gif"),
     (ascii ".mp4", ascii "video/mp4"),
     (ascii ".zip", ascii "applicaton/zip")]

def headerAddContentTypeGuess (c : Client) (extension : Option Bytes) : Result :=
  headerAdd c (ascii "content-type") (some (guessMimeType extension))

/-- `kitserv_http_header_add_last_modified`: the date has to fit into 31 bytes. -/
def headerAddLastModified (lib : TimeLib) (c : Client) (time : Int) : Result :=
  match lib.strftime time with
  | none => { ok := false, client := c }
  | some date =>
    if date = [] ∨ 32 ≤ date.length then { ok := false, client := c }
    else headerAdd c (ascii "last-modified") (some date)

def headerAddContentRange (c : Client) (start last total : Int) : Result :=
  headerAdd c (ascii "content-range")
    (some (ascii "bytes " ++ decimal start ++ ascii "-" ++ decimal last ++ ascii "/" ++ decimal total))

def headerAddContentLength (c : Client) (length : Int) : Result :=
  headerAdd c (ascii "content-length") (some (decimal length))

def allowBody (flags : Nat) : Bytes :=
  (if flags &&& HttpMethod.get.bits ≠ 0 then ascii "GET, HEAD, " else []) ++
  (if flags &&& HttpMethod.put.bits ≠ 0 then ascii "PUT, " else []) ++
  (if flags &&& HttpMethod.post.bits ≠ 0 then ascii "POST, " else []) ++
  (if flags &&& HttpMethod.delete.bits ≠ 0 then ascii "DELETE, " else [])

/-- `http_header_add_allow`. The assertion `len > 2` fails when no known method is allowed. -/
def headerAddAllow (c : Client) : Option Result :=
  if c.ta.api.allowFlags ≠ 0 then
    let body := allowBody c.ta.api.allowFlags
    if body.length > 2 then some (headerAdd c (ascii "allow") (some (body.take (body.length - 2))))
    else none
  else some (headerAdd c (ascii "allow") (some (ascii "GET, HEAD")))

def getVersionString : HttpVersion → Bytes
  | .http11 => ascii "HTTP/1.1 "
  | .http10 => ascii "HTTP/1.0 "

def getStatusString : HttpStatus → Bytes
  | .http200Ok => ascii "200 OK\r\n"
  | .http204NoContent => ascii "204 No Content\r\n"
  | .http206PartialContent => ascii "206 Partial Content\r\n"
  | .http304NotModified => ascii "304 Not Modified\r\n"
  | .http400BadRequest => ascii "400 Bad Request\r\n"
  | .http403PermissionDenied => ascii "403 Permission Denied\r\n"
  | .http404NotFound => ascii "404 Not Found\r\n"
  | .http405MethodNotAllowed => ascii "405 Method Not Allowed\r\n"
  | .http408RequestTimeout => ascii "408 Request Timeout\r\n"
  | .http413ContentTooLarge => ascii "413 Content Too Large\r\n"
  | .http414UriTooLong => ascii "414 URI Too Long\r\n"
  | .http416RangeNotSatisfiable => ascii "416 Range Not Satisfiable\r\n"
  | .http431RequestHeaderFieldsTooLarge => ascii "431 Request Header Fields Too Large\r\n"
  | .http501NotImplemented => ascii "501 Not Implemented\r\n"
  | .http503ServiceUnavailable => ascii "503 Service Unavailable\r\n"
  | .http505VersionNotSupported => ascii "505 Version Not Supported\r\n"
  | .http507InsufficientStorage => ascii "507 Insufficient Storage\r\n"
  | .xRespStatusUnset | .http500InternalError | .xHangup | .other _ =>
    ascii "500 Internal Server Error\r\n"

/-- `prepare_resp_start`; the results of the two appends are ignored. -/
def prepareRespStart (c : Client) : Client :=
  let r := strAppend c.respStart 0 httpBufszSmall (some (getVersionString c.ta.req.version))
  let r := strAppend r.buf r.len httpBufszSmall (some (getStatusString c.ta.resp.status))
  { c with
    respStart := r.buf
    ta := { c.ta with resp := { c.ta.resp with
      bufs := { c.ta.resp.bufs with start := { c.ta.resp.bufs.start with len := r.len } } } } }

structure ByteRange where
  first : Int
  last : Int
  deriving DecidableEq, Repr

/-- The loop of `kitserv_http_parse_range` over digits and a hyphen, from offset `r` on; `none`
is the return at a second hyphen or at any other byte. -/
def findHyphen : Bytes → Nat → Option Nat → Option (Option Nat)
  | [], _, hyphen => some hyphen
  | b :: rest, r, hyphen =>
    if isdigit b then findHyphen rest (r + 1) hyphen
    else if b = 45 then
      match hyphen with
      | some _ => none
      | none => findHyphen rest (r + 1) (some r)
    else none

def rangeNumbers (mem : Bytes) (p hyphen : Nat) : Option ByteRange :=
  let q := hyphen + 1
  let hasQ := mem[q]? ≠ some 0
  if p ≠ hyphen then
    let first := strtonum (cString (mem.set hyphen 0) p)
    if ¬ first.2 then none
    else if hasQ then
      let last := strtonum (cString (mem.set hyphen 0) q)
      if ¬ last.2 ∨ last.1 < first.1 then none else some { first := first.1, last := last.1 }
    else some { first := first.1, last := -1 }
  else if hasQ then
    let last := strtonum (cString mem q)
    if ¬ last.2 then none else some { first := -1, last := last.1 }
  else none

structure RangeResult where
  range : Option ByteRange
  mem : Bytes
  deriving DecidableEq, Repr

/-- `kitserv_http_parse_range` on the string at `p`: the result, and the buffer with the hyphen
put back. -/
def parseRangeAt (mem : Bytes) (p : Nat) : RangeResult :=
  if ¬ (ascii "bytes=").isPrefixOf (cString mem p) then { range := none, mem := mem }
  else
    let p := p + 6
    match findHyphen (cString mem p) p none with
    | none | some none => { range := none, mem := mem }
    | some (some hyphen) =>
      let capped := if p ≠ hyphen then mem.set hyphen 0 else mem
      { range := rangeNumbers mem p hyphen, mem := capped.set hyphen 45 }

def parseRange (c : Client) : Option ByteRange × Client :=
  if ¬ c.ta.req.rangeRequested then (none, c)
  else match c.ta.req.range with
    | none => (none, c)
    | some p =>
      let r := parseRangeAt c.reqHeaders p
      (r.range, { c with reqHeaders := r.mem })

/-- The fields that `parse_range_request` sets for a range of a file: a clamped end, and the
start of a suffix; `none` for a range that starts behind the end of the file. -/
def clampRange (range : ByteRange) (filesize : Int) : Option ByteRange :=
  let last := if range.last < 0 ∨ range.last > filesize - 1 then filesize - 1 else range.last
  if range.first < 0 then some { first := filesize - last, last := filesize - 1 }
  else if range.first > filesize then none
  else some { first := range.first, last := last }

def parseRangeRequest (c : Client) (filesize : Int) : Result :=
  match parseRange c with
  | (none, c) => { ok := false, client := c.setStatus .http400BadRequest }
  | (some range, c) =>
    match clampRange range filesize with
    | none => { ok := false, client := c.setStatus .http416RangeNotSatisfiable }
    | some range =>
      { ok := true
        client := { c with ta := { c.ta with resp := { c.ta.resp with
          bodyPos := range.first
          bodyEnd := range.last } } } }

end Kitserv
