import Mathlib

/-! The data of kitserv.h, http.h and buffer.h. Pointers into the request header
buffer are offsets (`none` is NULL), `off_t` and `int` are unbounded integers, and
`void*` is an address with 0 for NULL. Fields keep the words of the C structs:
`req_path` is `req.path`, `resp_fd` is `resp.fd`, `api_allow_flags` is `api.allowFlags`. -/
namespace Kitserv

abbrev Byte := UInt8
abbrev Bytes := List UInt8

def ascii (s : String) : Bytes := s.toList.map fun ch => UInt8.ofNat ch.toNat

def httpBufsz : Nat := 4096
def httpBufszSmall : Nat := 256
def httpMaxCookies : Nat := 50
def pathMax : Nat := 4096

/-- `enum kitserv_http_method`; `unset` is the zero left by memset. -/
inductive HttpMethod where
  | unset | get | put | head | post | delete
  deriving DecidableEq, Repr

/-- The bit flags of the C enumerators. HEAD overlaps GET on purpose. -/
def HttpMethod.bits : HttpMethod → Nat
  | .unset => 0
  | .get => 1
  | .put => 2
  | .head => 4 ||| 1
  | .post => 8
  | .delete => 16

inductive HttpVersion where
  | http11 | http10
  deriving DecidableEq, Repr

/-- `enum kitserv_http_response_status`; `other` is an integer without an enumerator. -/
inductive HttpStatus where
  | xRespStatusUnset | xHangup
  | http200Ok | http204NoContent | http206PartialContent | http304NotModified
  | http400BadRequest | http403PermissionDenied | http404NotFound | http405MethodNotAllowed
  | http408RequestTimeout | http413ContentTooLarge | http414UriTooLong
  | http416RangeNotSatisfiable | http431RequestHeaderFieldsTooLarge
  | http500InternalError | http501NotImplemented | http503ServiceUnavailable
  | http505VersionNotSupported | http507InsufficientStorage
  | other (code : Nat)
  deriving DecidableEq, Repr

namespace HttpStatus

def code : HttpStatus → Nat
  | xRespStatusUnset => 0
  | xHangup => 1
  | http200Ok => 200
  | http204NoContent => 204
  | http206PartialContent => 206
  | http304NotModified => 304
  | http400BadRequest => 400
  | http403PermissionDenied => 403
  | http404NotFound => 404
  | http405MethodNotAllowed => 405
  | http408RequestTimeout => 408
  | http413ContentTooLarge => 413
  | http414UriTooLong => 414
  | http416RangeNotSatisfiable => 416
  | http431RequestHeaderFieldsTooLarge => 431
  | http500InternalError => 500
  | http501NotImplemented => 501
  | http503ServiceUnavailable => 503
  | http505VersionNotSupported => 505
  | http507InsufficientStorage => 507
  | other n => n

def declared : List HttpStatus :=
  [xRespStatusUnset, xHangup, http200Ok, http204NoContent, http206PartialContent,
   http304NotModified, http400BadRequest, http403PermissionDenied, http404NotFound,
   http405MethodNotAllowed, http408RequestTimeout, http413ContentTooLarge, http414UriTooLong,
   http416RangeNotSatisfiable, http431RequestHeaderFieldsTooLarge, http500InternalError,
   http501NotImplemented, http503ServiceUnavailable, http505VersionNotSupported,
   http507InsufficientStorage]

/-- What an `int` passed by a handler stands for. -/
def ofCode (n : Nat) : HttpStatus := (declared.find? fun s => s.code == n).getD (.other n)

theorem code_ofCode (n : Nat) : (ofCode n).code = n := by
  unfold ofCode
  cases h : declared.find? (fun s => s.code == n) with
  | none => rfl
  | some s => simpa using List.find?_some h

def isError (s : HttpStatus) : Bool := 400 ≤ s.code

end HttpStatus

/-- `buffer_t`: `buf` is the allocation itself, so its length is the allocated size. -/
structure Buffer where
  buf : Bytes
  len : Int
  max : Int
  deriving DecidableEq, Repr

/-- One entry of `resp_bufs`. The base is an offset into the buffer the entry describes. -/
structure Iovec where
  base : Nat := 0
  len : Nat := 0
  deriving DecidableEq, Repr

structure RespBufs where
  start : Iovec := {}
  headers : Iovec := {}
  body : Iovec := {}
  deriving DecidableEq, Repr

structure HttpCookie where
  key : Nat
  value : Nat
  keylen : Int
  deriving DecidableEq, Repr

inductive TransactionState where
  | read | serve | prepareResponse | send | sendFile | done
  deriving DecidableEq, Repr

inductive ParseState where
  | new | reqMethod | reqPath | reqVersion | reqVersionLf | reqHead | reqHeadLf
  deriving DecidableEq, Repr

structure Request where
  method : HttpMethod := .unset
  version : HttpVersion := .http11
  contentLen : Int := 0
  path : Option Nat := none
  query : Option Nat := none
  mimetype : Option Nat := none
  range : Option Nat := none
  rangeRequested : Bool := false
  disposition : Option Nat := none
  modifiedSince : Option Nat := none
  freshCookies : Option Nat := none
  deriving DecidableEq, Repr

structure Response where
  status : HttpStatus := .xRespStatusUnset
  bufs : RespBufs := {}
  fd : Int := 0
  bodyPos : Int := 0
  bodyEnd : Int := 0
  preserveHeadersOnError : Bool := false
  preserveBodyOnError : Bool := false
  deriving DecidableEq, Repr

def fdHead : Int := -1
def fdDisable : Int := 0

structure RequestContext where
  root : Bytes
  rootFallback : Option Bytes
  fallback : Option Bytes
  useHttpAppendFallback : Bool
  deriving DecidableEq, Repr

inductive Errno where
  | zero | eagain | eacces | einval | enametoolong | enomem | enotsup | other (code : Nat)
  deriving DecidableEq, Repr

abbrev Ptr := Nat

/-- What one use of vsnprintf renders; `none` is its negative result. -/
abbrev Rendering := Option Bytes

/-- The calls a handler can make. `choose` asks the handler's own world (globals, clocks,
databases) for a number, so that a handler need not be a function of what the server tells it.
A format with arguments is given by what it renders; `writeBodyFmt` has two renderings,
because the source may use the same va_list twice. -/
inductive Call where
  | choose
  | getRequestMethod
  | getRequestPath
  | getRequestQuery
  | getRequestContentLength
  | getRequestCookieN (key : Bytes) (keylen : Int)
  | getRequestMimeType
  | getRequestDisposition
  | getRequestRange
  | getRequestModifiedSinceDifference (time : Int)
  | readPayload (nbytes : Nat)
  | writeBody (data : Bytes)
  | writeBodyFmt (first second : Rendering)
  | resetHeaders
  | resetBody
  | sendFile (fd filesize : Int)
  | setSendRange (pos last : Int)
  | setPreserveHeadersOnError (enabled : Bool)
  | setPreserveBodyOnError (enabled : Bool)
  | setResponseStatus (code : Nat)
  | saveState (state : Ptr)
  | headerAdd (key : Bytes) (value : Rendering)
  | headerAddContentType (mime : Bytes)
  | headerAddContentTypeGuess (extension : Option Bytes)
  | headerAddLastModified (time : Int)
  | handleStaticPath (path : Bytes) (ctx : Option RequestContext)

structure Reply where
  rc : Int := 0
  errno : Errno := .zero
  data : Option Bytes := none
  pos : Int := 0
  last : Int := 0
  deriving DecidableEq, Repr

/-- A handler's code from one point on: it returns, or makes a call and goes on with the reply. -/
inductive Program where
  | ret
  | call (c : Call) (next : Reply → Program)

abbrev Handler := Ptr → Program

structure ApiEntry where
  pathPrefix : Bytes
  prefixLength : Int
  method : Nat
  handler : Handler
  finishesPath : Bool

inductive ApiTree where
  | node (pathPrefix : Bytes) (prefixLength : Int) (subtrees : List ApiTree)
      (entries : List ApiEntry)

namespace ApiTree

def pathPrefix : ApiTree → Bytes | node s _ _ _ => s
def prefixLength : ApiTree → Int | node _ n _ _ => n
def subtrees : ApiTree → List ApiTree | node _ _ ts _ => ts
def entries : ApiTree → List ApiEntry | node _ _ _ es => es

end ApiTree

structure Api where
  endpointHit : Option Handler := none
  internalData : Ptr := 0
  allowFlags : Nat := 0

/-- `struct http_transaction`; the default value is what memset leaves. -/
structure Transaction where
  state : TransactionState := .read
  parseState : ParseState := .new
  req : Request := {}
  reqPayload : Option Nat := none
  reqPayloadPos : Int := 0
  reqPayloadLen : Int := 0
  reqParseBlk : Option Nat := none
  reqParseIter : Option Nat := none
  reqNumCookies : Nat := 0
  resp : Response := {}
  api : Api := {}

/-- `struct kitserv_client`. The three malloc'ed byte buffers are lists of their allocated
length; `reqHeaders` holds request bytes below `reqHeadersLen` and stale bytes above. -/
structure Client where
  reqHeaders : Bytes
  reqCookies : List HttpCookie := []
  respStart : Bytes
  respHeaders : Bytes
  respBody : Buffer
  ta : Transaction := {}
  reqHeadersLen : Nat := 0

def Client.setStatus (c : Client) (status : HttpStatus) : Client :=
  { c with ta := { c.ta with resp := { c.ta.resp with status := status } } }

end Kitserv
