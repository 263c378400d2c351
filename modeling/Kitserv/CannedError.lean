import Kitserv.Lifecycle
import Kitserv.ResponseHead
import Kitserv.Send

namespace Kitserv

open Memory

structure Buffer.Filled (b : Buffer) (text : Bytes) : Prop where
  len : b.len = text.length
  contents : b.buf.take text.length = text

namespace Buffer

variable {b : Buffer} {text data : Bytes} {out : ReallocOutcome}

theorem Filled.inside (h : b.Filled text) : text.length ≤ b.buf.length := by
  have lengths := congrArg List.length h.contents
  rw [List.length_take] at lengths
  omega

theorem append_fits (fits : b.len + data.length < b.max) :
    (b.append data out).rc = 0 ∧
      (b.append data out).buffer = { b.put data with len := b.len + data.length } := by
  simp only [append, ensureSpace_fits fits]
  exact ⟨trivial, trivial⟩

theorem Filled.append (h : b.Filled text) (fits : b.len + data.length < b.max)
    (room : (text ++ data).length ≤ b.buf.length) :
    (b.append data out).rc = 0 ∧ (b.append data out).buffer.Filled (text ++ data) ∧
      (b.append data out).buffer.max = b.max ∧
      (b.append data out).buffer.buf.length = b.buf.length := by
  obtain ⟨rc, same⟩ := @append_fits b data out fits
  have len := h.len
  have start : b.len.toNat = text.length := by omega
  rw [List.length_append] at room
  rw [same]
  refine ⟨rc, ⟨?_, ?_⟩, rfl, length_put b data⟩
  · simp only [List.length_append, len, Int.natCast_add]
  · simp only [put_buf (show 0 ≤ b.len by omega), start, List.length_append]
    rw [take_overwrite_end room, h.contents]

end Buffer

theorem appendTexts_filled {c : Client} {text : Bytes} (h : c.respBody.Filled text) (k : Kernel)
    (texts : List Bytes)
    (fits : ((text ++ texts.flatten).length : Int) < c.respBody.max)
    (room : (text ++ texts.flatten).length ≤ c.respBody.buf.length) :
    (appendTexts c k texts).rc = 0 ∧
      (appendTexts c k texts).client.respBody.Filled (text ++ texts.flatten) := by
  induction texts generalizing c k text with
  | nil => exact ⟨rfl, by rwa [List.flatten_nil, List.append_nil]⟩
  | cons data rest ih =>
    have len := h.len
    rw [List.flatten_cons, ← List.append_assoc] at fits room
    obtain ⟨rc, filled, max, size⟩ := @Buffer.Filled.append _ _ data k.realloc.1 h
      (by rw [List.length_append, List.length_append] at fits; omega)
      (by simp only [List.length_append] at room ⊢; omega)
    simp only [appendTexts, rc, ne_eq, not_true_eq_false, if_false]
    rw [List.flatten_cons, ← List.append_assoc]
    exact ih filled k.realloc.2 (by rwa [max]) (by rwa [size])

def Kernel.Allocates (k : Kernel) : Prop := ∀ out ∈ k.reallocs, out.isFailed = false

theorem Kernel.Allocates.realloc {k : Kernel} (h : k.Allocates) :
    k.realloc.1.isFailed = false ∧ k.realloc.2.Allocates := by
  obtain ⟨input, writes, sendfiles, reallocs, choices, errnos, fs, clock, outside, trace⟩ := k
  cases reallocs with
  | nil => exact ⟨rfl, h⟩
  | cons out rest =>
    exact ⟨h out (List.mem_cons_self ..), fun out' member => h out' (List.mem_cons_of_mem _ member)⟩

theorem appendTexts_stored {c : Client} {k : Kernel} {texts : List Bytes}
    (empty : c.respBody.len = 0) (least : 256 ≤ c.respBody.max) (alloc : k.Allocates)
    (shape : (∃ text, texts = [text] ∧ text.length ≤ 32) ∨
      ∃ path, texts = [ascii "Not found: ", path])
    (stored : (appendTexts c k texts).client.respBody.Filled texts.flatten) :
    (texts.flatten.length : Int) < c.respBody.max ∧
      texts.flatten.length ≤ c.respBody.buf.length := by
  rcases shape with ⟨text, rfl, short⟩ | ⟨path, rfl⟩
  · obtain ⟨rc, same⟩ := @Buffer.append_fits c.respBody text k.realloc.1 (by omega)
    have inside := stored.inside
    simp only [appendTexts, rc, ne_eq, not_true_eq_false, if_false, same, Buffer.length_put] at inside
    simp only [List.flatten_cons, List.flatten_nil, List.append_nil] at inside ⊢
    exact ⟨by omega, inside⟩
  · have name : (ascii "Not found: ").length = 11 := rfl
    obtain ⟨rc, same⟩ := @Buffer.append_fits c.respBody (ascii "Not found: ") k.realloc.1
      (by rw [name, empty]; omega)
    simp only [List.flatten_cons, List.flatten_nil, List.append_nil, List.length_append, name]
    simp only [appendTexts, rc, ne_eq, not_true_eq_false, if_false] at stored
    generalize grown : (c.respBody.append (ascii "Not found: ") k.realloc.1).buffer = b at stored same
    have max : b.max = c.respBody.max := by rw [same]; rfl
    have size : b.buf.length = c.respBody.buf.length := by rw [same]; exact Buffer.length_put ..
    have len : b.len = 11 := by rw [same, name, empty]; rfl
    have inside := stored.inside
    simp only [List.flatten_cons, List.flatten_nil, List.append_nil, List.length_append, name] at inside
    rcases Int.lt_or_le (b.len + path.length) b.max with fits | grows
    · obtain ⟨rc, same⟩ := @Buffer.append_fits b path k.realloc.2.realloc.1 fits
      simp only [rc, not_true_eq_false, if_false, same, Buffer.length_put] at inside
      omega
    · -- the block gets the bytes of the path alone, and not those in front of it
      obtain ⟨block, length, moved⟩ := Buffer.ensureSpace_moved grows (by omega)
        alloc.realloc.2.realloc.1
      simp only [Buffer.append, moved, not_true_eq_false, if_false, Buffer.length_put] at inside
      omega

structure Preparable (c : Client) : Prop where
  headers : HeadersOk c
  start : c.respStart.length = httpBufszSmall
  request : c.reqHeaders.length = httpBufsz
  body : 256 ≤ c.respBody.max

/-- The error path is entered, up front or behind a last line that does not fit. -/
def EntersErrorPath (c : Client) : Prop :=
  c.ta.resp.status.isError = true ∨
    (c.ta.resp.status ≠ .xHangup ∧ (prepareSuccess c).ok = false)

def answerStatus (c : Client) : HttpStatus :=
  if c.ta.resp.status.isError then c.ta.resp.status else .http507InsufficientStorage

/-- The answer to an error: a canned text under its own status, with nothing of the response that
was there before. -/
structure CannedAnswer (c : Client) (o : Outcome) : Prop where
  rc : o.rc = 0
  start : o.client.startLine =
    getVersionString c.ta.req.version ++ getStatusString (answerStatus c)
  content : ∃ texts, errorBodyTexts (c.setStatus (answerStatus c)) = some texts ∧
    o.client.headerBlock = allowBlock (c.setStatus (answerStatus c)) ++
      headerLine (ascii "content-type") (ascii "text/plain") ++ lastLines texts.flatten.length ++
      ascii "\r\n" ∧
    ∀ outside, o.client.ta.resp.bufs.body.bytes outside o.client.respBody.buf = texts.flatten
  file : o.client.ta.resp.fd = 0

/-- The transactions whose error path leaves the canned answer. -/
structure CannedWhen (c : Client) : Prop where
  crlf : c.ta.resp.status.isError = true ∨ ¬ NoRoomForEnd c
  fd : 0 ≤ c.ta.resp.fd
  allow : answerStatus c = .http405MethodNotAllowed →
    c.ta.api.allowFlags = 0 ∨ 2 < (allowBody c.ta.api.allowFlags).length
  texts : ∃ texts, errorBodyTexts (c.setStatus (answerStatus c)) = some texts ∧
    (texts.flatten.length : Int) < c.respBody.max ∧ texts.flatten.length ≤ c.respBody.buf.length

/-- The client with which the label `error_response` is reached. -/
structure ErrorEntry (c r : Client) (status : HttpStatus) (fd : Int) : Prop where
  same : r = { c with
    respStart := r.respStart
    respHeaders := r.respHeaders
    ta := { c.ta with resp := { c.ta.resp with
      status := status
      fd := fd
      bufs := { r.ta.resp.bufs with body := c.ta.resp.bufs.body } } } }
  headers : HeadersOk r
  start : r.respStart.length = httpBufszSmall

section Entry

variable {c : Client} {k : Kernel}

theorem WithHeaders.errorEntry {block : Bytes} {r : Client}
    (h : WithHeaders (prepareRespStart c) block r) (size : c.respStart.length = httpBufszSmall)
    (status : HttpStatus) (fd : Int) : ErrorEntry c ((r.setStatus status).setFd fd) status fd := by
  have ok := h.headersOk
  have start := (prepareRespStart_line size).1
  have same := h.same
  obtain ⟨line, n, written⟩ : ∃ line n, prepareRespStart c = { c with
      respStart := line
      ta := { c.ta with resp := { c.ta.resp with
        bufs := { c.ta.resp.bufs with start := { c.ta.resp.bufs.start with len := n } } } } } :=
    ⟨_, _, rfl⟩
  generalize r.respHeaders = buf at same
  rw [written] at same start
  subst same
  exact ⟨rfl, ⟨ok.size, ok.inside⟩, start⟩

theorem prepareResponse_enters (ready : Preparable c) (enters : EntersErrorPath c) :
    ∃ r, prepareResponse c k = errorResponse r k ∧
      ((ErrorEntry c r (answerStatus c) c.ta.resp.fd ∧
          (c.ta.resp.status.isError = true ∨ ¬ NoRoomForEnd c)) ∨
        (ErrorEntry c r c.ta.resp.status 507 ∧ c.ta.resp.status.isError = false ∧
          NoRoomForEnd c)) := by
  cases error : c.ta.resp.status.isError with
  | true =>
    have notHangup : c.ta.resp.status ≠ .xHangup := by
      intro hangup
      rw [hangup] at error
      cases error
    refine ⟨c, ?_, .inl ⟨⟨?_, ready.headers, ready.start⟩, .inl rfl⟩⟩
    · simp only [prepareResponse, if_neg notHangup, error, if_true]
    · simp only [answerStatus, error, if_true]
  | false =>
    obtain ⟨notHangup, failed⟩ := enters.resolve_left (by rw [error]; exact Bool.false_ne_true)
    refine ⟨(prepareSuccess c).client, ?_, ?_⟩
    · simp only [prepareResponse, if_neg notHangup, error, failed, Bool.false_eq_true, if_false]
    · have status : answerStatus c = .http507InsufficientStorage := by
        simp only [answerStatus, error, Bool.false_eq_true, if_false]
      rcases prepareSuccess_cases ready.headers with
        ⟨r, e, -⟩ | ⟨r, block, e, headers, full⟩ | ⟨r, e, headers, noRoom⟩
      · rw [e] at failed
        cases failed
      · have entry := headers.errorEntry ready.start .http507InsufficientStorage c.ta.resp.fd
        have fd : ((r.setStatus .http507InsufficientStorage).setFd c.ta.resp.fd) =
            r.setStatus .http507InsufficientStorage := by
          rw [headers.same]
          rfl
        rw [e, status]
        rw [fd] at entry
        exact .inl ⟨entry, .inr fun noRoom => absurd noRoom.1 (Nat.not_lt.mpr full)⟩
      · have entry := headers.errorEntry ready.start c.ta.resp.status 507
        have same : (r.setStatus c.ta.resp.status).setFd 507 = r.setFd 507 := by
          rw [headers.same]
          rfl
        rw [e]
        rw [same] at entry
        exact .inr ⟨entry, rfl, noRoom⟩

structure Answered (c : Client) (status : HttpStatus) (fd : Int) (block : Bytes) (e r : Client) :
    Prop where
  start : r.startLine = getVersionString c.ta.req.version ++ getStatusString status
  headers : r.headerBlock = block ++ lastLines (announcedLength e) ++ ascii "\r\n"
  closed : r.ta.resp.fd = if fd > 0 then 0 else fd
  buffer : r.respBody = e.respBody
  body : 0 ≤ fd → c.ta.req.method ≠ .head →
    r.ta.resp.bufs.body = { base := 0, len := toSizeT e.respBody.len }
  length : 0 ≤ fd → announcedLength e = e.respBody.len

theorem ErrorEntry.announced {c r e : Client} {status : HttpStatus} {fd : Int}
    (entry : ErrorEntry c r status fd) (canned : Canned r e) (nonneg : 0 ≤ fd) :
    e.ta.resp.fd = 0 ∧ announcedLength e = e.respBody.len := by
  have pos : e.ta.resp.bodyPos = 0 := by rw [canned.same]
  have closed : e.ta.resp.fd = 0 := by
    rw [canned.same, entry.same]
    simp only
    split <;> omega
  refine ⟨closed, ?_⟩
  simp only [announcedLength, closed, pos, ne_eq, not_true_eq_false, if_false, Int.sub_zero]

theorem ErrorEntry.answered {c r e r' : Client} {status : HttpStatus} {fd : Int} {block : Bytes}
    (entry : ErrorEntry c r status fd) (canned : Canned r e)
    (headers : WithHeaders (prepareRespStart e)
      (block ++ lastLines (announcedLength e) ++ ascii "\r\n") r') :
    Answered c status fd block e (describeBuffers r') := by
  have described := headers.described
  have closed : e.ta.resp.fd = if fd > 0 then 0 else fd := by
    rw [canned.same, entry.same]
  have pos : e.ta.resp.bodyPos = 0 := by rw [canned.same]
  have method : e.ta.req.method = c.ta.req.method := by
    rw [canned.same, entry.same]
  refine ⟨?_, described.headers, described.fd.trans closed, described.buffer,
    fun nonneg notHead => ?_, fun nonneg => (entry.announced canned nonneg).2⟩
  · rw [described.start, (prepareRespStart_line (by rw [canned.respStart]; exact entry.start)).2,
      canned.same, entry.same]
  · have fd : r'.ta.resp.fd = 0 := by
      rw [headers.same]
      exact (entry.announced canned nonneg).1
    have notHead : r'.ta.req.method ≠ .head := by
      rw [headers.same]
      exact method ▸ notHead
    have buffer : r'.respBody = e.respBody := by rw [headers.same]; rfl
    have pos : r'.ta.resp.bodyPos = 0 := by rw [headers.same]; exact pos
    rw [describeBuffers_bufs, if_pos ⟨fd, notHead⟩, buffer, pos]
    simp

theorem prepareErrorResponseBody_texts {c : Client} {k : Kernel} {e : Outcome}
    (h : prepareErrorResponseBody c k = some e) (rc : e.rc = 0) : ∃ d k' texts,
      errorBodyTexts c = some texts ∧ d.respBody = { c.respBody with len := 0 } ∧
      k'.reallocs = k.reallocs ∧ e = appendTexts d k' texts := by
  have reallocs : (dropBody c k).2.reallocs = k.reallocs := by
    simp only [dropBody, Kernel.closeFdToZero]
    split <;> rfl
  simp only [prepareErrorResponseBody, headerAddContentType] at h
  obtain ⟨buf, n, added | full⟩ := headerAdd_shape (dropBody c k).1 (ascii "content-type")
    (some (ascii "text/plain"))
  · simp only [added, not_true_eq_false, if_false, Option.map_eq_some_iff] at h
    obtain ⟨texts, known, rfl⟩ := h
    exact ⟨_, _, texts, known, rfl, reallocs, rfl⟩
  · simp only [full, Bool.false_eq_true, not_false_eq_true, if_true, Option.some.injEq] at h
    rw [← h] at rc
    cases rc

theorem prepareErrorResponseHeaders_texts {c : Client} {r : Result} (ok : HeadersOk c)
    (h : prepareErrorResponseHeaders c = some r) :
    errorBodyTexts r.client = errorBodyTexts c ∧ r.client.respBody = c.respBody := by
  obtain ⟨-, headers⟩ := prepareErrorResponseHeaders_spec ok h
  constructor
  · apply errorBodyTexts_congr <;> rw [headers.same] <;> rfl
  · rw [headers.same]
    rfl

theorem prepareError_eq {c : Client} {k : Kernel}
    (keepBody : c.ta.resp.preserveBodyOnError = false)
    (keepHeaders : c.ta.resp.preserveHeadersOnError = false) (ok : HeadersOk c) :
    prepareError c k =
      (prepareErrorResponseHeaders c).bind fun r => prepareErrorResponseBody r.client k := by
  simp only [prepareError, keepBody, keepHeaders, Bool.false_eq_true, if_false]
  cases e : prepareErrorResponseHeaders c with
  | none => rfl
  | some r => simp only [(prepareErrorResponseHeaders_spec ok e).1, if_true, Option.bind_some]

theorem prepareErrorResponseHeaders_iff {c : Client} :
    (∃ r, prepareErrorResponseHeaders c = some r) ↔
      (c.ta.resp.status = .http405MethodNotAllowed →
        c.ta.api.allowFlags = 0 ∨ 2 < (allowBody c.ta.api.allowFlags).length) := by
  have status : (resetHeaders c).ta.resp.status = c.ta.resp.status := rfl
  have flags : (resetHeaders c).ta.api.allowFlags = c.ta.api.allowFlags := rfl
  simp only [prepareErrorResponseHeaders, headerAddAllow, status, flags]
  split
  · rename_i notAllowed
    split
    · rename_i some
      split <;> simp_all
    · rename_i none
      simp_all
  · rename_i other
    simp [other]

theorem prepareErrorResponseBody_exists {c : Client} {k : Kernel} {texts : List Bytes}
    (ok : HeadersOk c) (space : c.headerBlock.length + 26 < httpBufsz)
    (known : errorBodyTexts c = some texts)
    (fits : (texts.flatten.length : Int) < c.respBody.max)
    (room : texts.flatten.length ≤ c.respBody.buf.length) :
    ∃ e, prepareErrorResponseBody c k = some e ∧ e.rc = 0 ∧
      e.client.respBody.Filled texts.flatten := by
  have drop : HeadersOk (dropBody c k).1 := ⟨ok.size, ok.inside⟩
  have block : (dropBody c k).1.headerBlock = c.headerBlock := rfl
  have type : (headerLine (ascii "content-type") (ascii "text/plain")).length = 26 := rfl
  obtain ⟨r, e, headers⟩ := @headerAdd_fits _ (ascii "content-type") (ascii "text/plain") drop
    (by rw [block, List.length_append, type]; exact space)
  have texts' : errorBodyTexts r = some texts := by
    rw [← known]
    apply errorBodyTexts_congr <;> rw [headers.same] <;> rfl
  have empty : r.respBody.Filled [] := by
    rw [headers.same]
    exact ⟨rfl, rfl⟩
  have max : r.respBody.max = c.respBody.max := by rw [headers.same]; rfl
  have buf : r.respBody.buf = c.respBody.buf := by rw [headers.same]; rfl
  refine ⟨appendTexts r (dropBody c k).2 texts, ?_, ?_⟩
  · simp only [prepareErrorResponseBody, headerAddContentType, e, not_true_eq_false, if_false,
      texts', Option.map_some]
  · exact appendTexts_filled empty _ texts (by rwa [List.nil_append, max])
      (by rwa [List.nil_append, buf])

theorem getStatusString_507 {status : HttpStatus}
    (h : getStatusString status = getStatusString .http507InsufficientStorage) :
    status = .http507InsufficientStorage := by
  cases status <;> first | rfl | exact absurd h (by simp only [getStatusString]; decide +kernel)

theorem iovecBytes_iff {buf text : Bytes} :
    (∀ outside, Iovec.bytes outside buf { base := 0, len := text.length } = text) ↔
      buf.take text.length = text := by
  have cell (outside : Nat → Byte) (i : Nat) (lt : i < text.length) :
      (Iovec.bytes outside buf { base := 0, len := text.length })[i]? =
        some ((buf[i]?).getD (outside i)) := by
    simp [Iovec.bytes, lt]
  constructor
  · intro all
    apply List.ext_getElem?
    intro i
    rw [List.getElem?_take]
    split
    · rename_i lt
      -- a byte that differs from the text stands behind the buffer
      have here := cell (fun i => text[i]?.getD 0 + 1) i lt
      rw [all, List.getElem?_eq_getElem lt] at here
      rw [List.getElem?_eq_getElem lt]
      cases inside : buf[i]? with
      | some b =>
        rw [inside] at here
        exact here.symm
      | none =>
        rw [inside] at here
        simp at here
    · rename_i ge
      exact (List.getElem?_eq_none (Nat.le_of_not_lt ge)).symm
  · intro stored outside
    apply List.ext_getElem?
    intro i
    rcases Nat.lt_or_ge i text.length with lt | ge
    · have same := congrArg (fun l => l[i]?) stored
      simp only [List.getElem?_take, if_pos lt] at same
      rw [cell outside i lt, same, List.getElem?_eq_getElem lt]
      rfl
    · rw [List.getElem?_eq_none ge, List.getElem?_eq_none]
      simpa [Iovec.bytes] using ge

theorem cannedAnswer_iff {r r' : Client} {e : Outcome} (ready : Preparable c)
    (notHead : c.ta.req.method ≠ .head) (fd : 0 ≤ c.ta.resp.fd)
    (entry : ErrorEntry c r (answerStatus c) c.ta.resp.fd)
    (keepHeaders : c.ta.resp.preserveHeadersOnError = false) (canned : Canned r e.client)
    (headers : WithHeaders (prepareRespStart e.client)
      (cannedBlock r ++ lastLines (announcedLength e.client) ++ ascii "\r\n") r') :
    CannedAnswer c { rc := 0, client := describeBuffers r', kernel := e.kernel } ↔
      ∃ texts, errorBodyTexts (c.setStatus (answerStatus c)) = some texts ∧
        e.client.respBody.Filled texts.flatten := by
  have answered := entry.answered canned headers
  have known : errorBodyTexts r = errorBodyTexts (c.setStatus (answerStatus c)) := by
    apply errorBodyTexts_congr <;> rw [entry.same] <;> rfl
  have block : cannedBlock r = allowBlock (c.setStatus (answerStatus c)) ++
      headerLine (ascii "content-type") (ascii "text/plain") := by
    have keep : r.ta.resp.preserveHeadersOnError = false := by rw [entry.same]; exact keepHeaders
    simp only [cannedBlock, keep, Bool.false_eq_true, if_false]
    rw [allowBlock, allowBlock, entry.same]
    rfl
  obtain ⟨texts, texts', len⟩ := canned.body
  rw [known] at texts'
  have small := length_errorBodyTexts (c := c.setStatus (answerStatus c)) (Nat.le_of_eq ready.request) texts'
  have size : toSizeT e.client.respBody.len = texts.flatten.length := by
    have same := toSizeT_of_nonneg (x := e.client.respBody.len) (by omega) (by omega)
    omega
  have body := answered.body fd notHead
  have closed : (describeBuffers r').ta.resp.fd = 0 := by
    rw [answered.closed]
    split <;> omega
  have bytes : (∀ outside, Iovec.bytes outside (describeBuffers r').respBody.buf
      (describeBuffers r').ta.resp.bufs.body = texts.flatten) ↔
      e.client.respBody.Filled texts.flatten := by
    rw [body, size, answered.buffer, iovecBytes_iff]
    exact ⟨fun stored => ⟨len, stored⟩, Buffer.Filled.contents⟩
  have head := answered.headers
  rw [answered.length fd, len, block] at head
  constructor
  · intro answer
    obtain ⟨texts₁, known₁, -, stored⟩ := answer.content
    cases known₁.symm.trans texts'
    exact ⟨texts, texts', bytes.mp stored⟩
  · rintro ⟨texts₁, known₁, filled⟩
    cases known₁.symm.trans texts'
    exact ⟨rfl, answered.start, ⟨texts, texts', head, bytes.mpr filled⟩, closed⟩

/-- The error path of a request that is not HEAD, with nothing to be preserved, leaves the canned
answer exactly when it is not the empty line alone that does not fit, no negative number stands
for a file, the allowed methods have names, and the body buffer still has its room. -/
theorem canned_error_iff (c : Client) (k : Kernel) (ready : Preparable c)
    (notHead : c.ta.req.method ≠ .head) (keepBody : c.ta.resp.preserveBodyOnError = false)
    (keepHeaders : c.ta.resp.preserveHeadersOnError = false) (enters : EntersErrorPath c)
    (alloc : k.Allocates) :
    (∃ o, prepareResponse c k = some o ∧ CannedAnswer c o) ↔ CannedWhen c := by
  obtain ⟨r, same, ⟨entry, crlf⟩ | ⟨entry, fine, noRoom⟩⟩ :=
    @prepareResponse_enters c k ready enters
  · have keepBody' : r.ta.resp.preserveBodyOnError = false := by rw [entry.same]; exact keepBody
    have keepHeaders' : r.ta.resp.preserveHeadersOnError = false := by
      rw [entry.same]
      exact keepHeaders
    have status : r.ta.resp.status = answerStatus c := by rw [entry.same]
    have flags : r.ta.api.allowFlags = c.ta.api.allowFlags := by rw [entry.same]
    have buffer : r.respBody = c.respBody := by rw [entry.same]
    have known : errorBodyTexts r = errorBodyTexts (c.setStatus (answerStatus c)) := by
      apply errorBodyTexts_congr <;> rw [entry.same] <;> rfl
    rw [same]
    constructor
    · rintro ⟨o, prepared, answer⟩
      obtain ⟨e, r', prepared', rc, canned, rfl, headers⟩ :=
        errorResponse_parts entry.headers keepBody' prepared answer.rc
      have fd : 0 ≤ c.ta.resp.fd := by
        have closed := (entry.answered canned headers).closed
        rw [answer.file] at closed
        split at closed <;> omega
      obtain ⟨texts, known', filled⟩ := (cannedAnswer_iff ready notHead fd entry keepHeaders canned
        headers).mp answer
      rw [prepareError_eq keepBody' keepHeaders' entry.headers, Option.bind_eq_some_iff] at prepared'
      obtain ⟨h, allowed, body⟩ := prepared'
      have allow := prepareErrorResponseHeaders_iff.mp ⟨h, allowed⟩
      rw [status, flags] at allow
      refine ⟨crlf, fd, allow, texts, known', ?_⟩
      obtain ⟨texts', body'⟩ := prepareErrorResponseHeaders_texts entry.headers allowed
      obtain ⟨d, k', texts₁, known₁, empty, reallocs, rfl⟩ := prepareErrorResponseBody_texts body rc
      rw [texts', known, known'] at known₁
      cases known₁
      rw [body', buffer] at empty
      have least : 256 ≤ d.respBody.max := by rw [empty]; exact ready.body
      have stored := appendTexts_stored (by rw [empty]) least
        (by rw [Kernel.Allocates, reallocs]; exact alloc)
        ((errorBodyTexts_shape known').imp_right fun ⟨path, shape, _⟩ => ⟨path, shape⟩) filled
      rwa [empty] at stored
    · rintro ⟨-, fd, allow, texts, known', fits, room⟩
      have allowed : ∃ h, prepareErrorResponseHeaders r = some h :=
        prepareErrorResponseHeaders_iff.mpr (by rwa [status, flags])
      obtain ⟨h, allowed⟩ := allowed
      obtain ⟨-, wiped⟩ := prepareErrorResponseHeaders_spec entry.headers allowed
      obtain ⟨texts', body'⟩ := prepareErrorResponseHeaders_texts entry.headers allowed
      have space : h.client.headerBlock.length + 26 < httpBufsz := by
        have large : httpBufsz = 4096 := rfl
        have allow := length_allowBlock r
        rw [wiped.headerBlock]
        omega
      obtain ⟨e, body, rc, filled⟩ := @prepareErrorResponseBody_exists h.client k texts wiped.headersOk
        space (by rw [texts', known, known']) (by rwa [body', buffer]) (by rwa [body', buffer])
      have prepared : prepareError r k = some e := by
        rw [prepareError_eq keepBody' keepHeaders' entry.headers, allowed, Option.bind_some, body]
      obtain ⟨canned, block⟩ := (prepareError_spec entry.headers keepBody' prepared).2 rc
      have small := length_errorBodyTexts (c := c.setStatus (answerStatus c))
        (Nat.le_of_eq ready.request) known'
      have len := filled.len
      have short : e.client.headerBlock.length ≤ 66 := by
        have type : (headerLine (ascii "content-type") (ascii "text/plain")).length = 26 := rfl
        have allow := length_allowBlock r
        rw [block, cannedBlock, keepHeaders']
        simp only [Bool.false_eq_true, if_false, List.length_append, type]
        omega
      have large : httpBufsz = 4096 := rfl
      obtain ⟨r', success, headers⟩ := prepareSuccess_room canned.headers (by omega)
        (by rw [(entry.announced canned fd).2]; omega)
      rw [block] at headers
      refine ⟨{ rc := 0, client := describeBuffers r', kernel := e.kernel }, ?_,
        (cannedAnswer_iff ready notHead fd entry keepHeaders canned headers).mpr
          ⟨texts, known', filled⟩⟩
      simp only [errorResponse, prepared, Option.map_some, rc, ne_eq, not_true_eq_false, if_false,
        success, if_true]
  · -- the status line is that of a success
    have keepBody' : r.ta.resp.preserveBodyOnError = false := by rw [entry.same]; exact keepBody
    refine iff_of_false ?_ fun when => ?_
    · rintro ⟨o, prepared, answer⟩
      rw [same] at prepared
      obtain ⟨e, r', -, -, canned, rfl, headers⟩ :=
        errorResponse_parts entry.headers keepBody' prepared answer.rc
      have start := (entry.answered canned headers).start
      have status : answerStatus c = .http507InsufficientStorage := by
        simp only [answerStatus, fine, Bool.false_eq_true, if_false]
      have lines := start.symm.trans answer.start
      rw [status] at lines
      rw [getStatusString_507 (List.append_cancel_left lines)] at fine
      cases fine
    · rcases when.crlf with error | room
      · rw [fine] at error
        cases error
      · exact room noRoom

end Entry

def givingUp : Program :=
  .call (.headerAdd (ascii "x-part") (some (ascii "1"))) fun _ =>
    .call (.writeBody (ascii "half of it")) fun _ =>
      .call (.sendFile 5 3) fun _ => .call (.setResponseStatus 403) fun _ => .ret

def givenUp : Client × Kernel :=
  runProgram rootServer givingUp (createClientStruct .zeroed) { fs := fun _ => .empty }

theorem givenUp_preparable : Preparable givenUp.1 :=
  ⟨⟨by decide +kernel, by decide +kernel⟩, by decide +kernel, by decide +kernel, by decide +kernel⟩

theorem canned_error_iff_givenUp :
    givenUp.1.headerBlock = headerLine (ascii "x-part") (ascii "1") ∧ givenUp.1.respBody.len = 10 ∧
      givenUp.1.ta.resp.fd = 5 ∧
      ∃ o, prepareResponse givenUp.1 givenUp.2 = some o ∧ CannedAnswer givenUp.1 o := by
  have left : givenUp.1.headerBlock = headerLine (ascii "x-part") (ascii "1") ∧
      givenUp.1.respBody.len = 10 ∧ givenUp.1.ta.resp.fd = 5 := by decide +kernel
  obtain ⟨headers, body, file⟩ := left
  have texts : errorBodyTexts (givenUp.1.setStatus (answerStatus givenUp.1)) =
      some [ascii "Permission denied."] := by decide +kernel
  have reallocs : givenUp.2.reallocs = [] := by decide +kernel
  have when : CannedWhen givenUp.1 :=
    { crlf := .inl (by decide +kernel)
      fd := by rw [file]; decide
      allow := fun notAllowed => absurd notAllowed (by decide +kernel)
      texts := ⟨_, texts, by decide +kernel, by decide +kernel⟩ }
  exact ⟨headers, body, file, (canned_error_iff givenUp.1 givenUp.2 givenUp_preparable
    (by decide +kernel) (by decide +kernel) (by decide +kernel) (.inl (by decide +kernel))
    (by rw [Kernel.Allocates, reallocs]; simp)).mpr when⟩

def crowded : Client :=
  (headerAdd (createClientStruct .zeroed) (ascii "x") (some (List.replicate 4053 97))).client.setStatus
    .http200Ok

/-- Where the empty line does not fit, a success is announced over the text of an error, and the
descriptor 507 is closed. -/
theorem final_crlf_breaks : EntersErrorPath crowded ∧
    ∃ o, prepareResponse crowded { fs := fun _ => .empty } = some o ∧ o.rc = 0 ∧
      o.client.startLine = ascii "HTTP/1.1 200 OK\r\n" ∧ o.kernel.trace = [.closed 507] ∧
      ¬ CannedAnswer crowded o := by
  have prepared : (prepareResponse crowded { fs := fun _ => .empty }).map
      (fun o => (o.rc, o.client.startLine, o.kernel.trace)) =
        some (0, ascii "HTTP/1.1 200 OK\r\n", [.closed 507]) := by decide +kernel
  have status : answerStatus crowded = .http507InsufficientStorage := by decide +kernel
  obtain ⟨o, same, results⟩ := Option.map_eq_some_iff.mp prepared
  simp only [Prod.mk.injEq] at results
  obtain ⟨rc, start, trace⟩ := results
  refine ⟨.inr ⟨by decide +kernel, by decide +kernel⟩, o, same, rc, start, trace, fun answer => ?_⟩
  have line := start.symm.trans answer.start
  rw [status] at line
  revert line
  decide +kernel

end Kitserv
