import Kitserv.CannedError
import Kitserv.ContentLength
import Kitserv.RangeServing

namespace Kitserv

/-- The client of the same request with another method, and another descriptor. -/
def Client.via (c : Client) (method : HttpMethod) (fd : Int) : Client :=
  { c with ta := { c.ta with
    req := { c.ta.req with method := method }
    resp := { c.ta.resp with fd := fd } } }

def Result.via (r : Result) (method : HttpMethod) (fd : Int) : Result :=
  { r with client := r.client.via method fd }

def Outcome.via (o : Outcome) (method : HttpMethod) (fd : Int) : Outcome :=
  { o with client := o.client.via method fd }

def FileEnd.via (method : HttpMethod) (fd : Int) : FileEnd → FileEnd
  | error r => error (r.via method fd)
  | unmodified r => unmodified (r.via method fd)
  | full r => full (r.via method fd)

def PathChoice.via (method : HttpMethod) (fd : Int) : PathChoice → PathChoice
  | pathSet fname st c k errno => pathSet fname st (c.via method fd) k errno
  | stop c k errno => stop (c.via method fd) k errno

section Serving

variable (c : Client) (m : HttpMethod) (fd : Int)

theorem headerAdd_via (key : Bytes) (value : Rendering) :
    headerAdd (c.via m fd) key value = (headerAdd c key value).via m fd := by
  rcases e₁ : strAppend c.respHeaders c.ta.resp.bufs.headers.len httpBufsz
    (some (key ++ ascii ": ")) with ⟨ok₁, b₁, n₁⟩
  have e₁' : strAppend (c.via m fd).respHeaders (c.via m fd).ta.resp.bufs.headers.len httpBufsz
    (some (key ++ ascii ": ")) = ⟨ok₁, b₁, n₁⟩ := e₁
  simp only [headerAdd, e₁, e₁']
  split
  · rfl
  · split
    · rfl
    · split <;> rfl

theorem parseRange_via : (parseRange (c.via m fd)).1 = (parseRange c).1 := by
  simp only [parseRange_range, Client.via]

theorem parseRangeRequest_via (size : Nat) :
    parseRangeRequest (c.via m fd) size = (parseRangeRequest c size).via m fd := by
  rw [parseRangeRequest_eq, parseRangeRequest_eq, parseRange_via]
  cases (parseRange c).1 with
  | none => rfl
  | some range =>
    simp only
    cases clampRange range size with
    | none => rfl
    | some r => rfl

theorem handleRange_via (st : Stat) :
    handleRange (c.via m fd) st = (handleRange c st).via m fd := by
  have request := parseRangeRequest_via c m fd st.size
  rcases e : parseRangeRequest c st.size with ⟨ok, r⟩
  rw [e] at request
  simp only [Result.via] at request
  have positions : (r.via m fd).ta.resp.bodyPos = r.ta.resp.bodyPos ∧
    (r.via m fd).ta.resp.bodyEnd = r.ta.resp.bodyEnd := ⟨rfl, rfl⟩
  have status : (r.via m fd).ta.resp.status = r.ta.resp.status := rfl
  have asked' : (c.via m fd).ta.req.rangeRequested = c.ta.req.rangeRequested := rfl
  cases asked : c.ta.req.rangeRequested with
  | false =>
    simp only [handleRange, asked, asked', Bool.false_eq_true, not_false_eq_true, if_true]
    rfl
  | true =>
    cases ok with
    | true =>
      have added := headerAdd_via r m fd (ascii "content-range") (some (ascii "bytes " ++
        decimal r.ta.resp.bodyPos ++ ascii "-" ++ decimal r.ta.resp.bodyEnd ++ ascii "/" ++
          decimal st.size))
      rcases h : headerAdd r (ascii "content-range") (some (ascii "bytes " ++
        decimal r.ta.resp.bodyPos ++ ascii "-" ++ decimal r.ta.resp.bodyEnd ++ ascii "/" ++
          decimal st.size)) with ⟨ok, h⟩
      rw [h] at added
      simp only [handleRange, asked, asked', not_true_eq_false, if_false, e, request, if_true,
        headerAddContentRange, positions.1, positions.2, h, added, Result.via]
      cases ok <;> rfl
    | false =>
      have added := headerAdd_via r m fd (ascii "content-range")
        (some (ascii "*/" ++ decimal st.size))
      rcases h : headerAdd r (ascii "content-range") (some (ascii "*/" ++ decimal st.size))
        with ⟨ok, h⟩
      rw [h] at added
      simp only [handleRange, asked, asked', not_true_eq_false, if_false, e, request,
        Bool.false_eq_true, status, h, added, Result.via]
      split
      · split <;> rfl
      · rfl

theorem addFileHeaders_via (lib : TimeLib) (fname : Bytes) (st : Stat) :
    addFileHeaders lib (c.via m fd) fname st = (addFileHeaders lib c fname st).via m fd := by
  have type := headerAdd_via c m fd (ascii "content-type") (some (guessMimeType (extension fname)))
  rcases e₁ : headerAdd c (ascii "content-type") (some (guessMimeType (extension fname)))
    with ⟨ok₁, r₁⟩
  have ranges := headerAdd_via r₁ m fd (ascii "accept-ranges") (some (ascii "bytes"))
  rcases e₂ : headerAdd r₁ (ascii "accept-ranges") (some (ascii "bytes")) with ⟨ok₂, r₂⟩
  rw [e₁] at type
  rw [e₂] at ranges
  simp only [Result.via] at type ranges
  simp only [addFileHeaders, headerAddContentTypeGuess, e₁, type, ranges, e₂]
  cases ok₁ with
  | false => rfl
  | true =>
    cases ok₂ with
    | false => rfl
    | true =>
      simp only [not_true_eq_false, if_false, headerAddLastModified]
      cases lib.strftime st.mtime with
      | none => rfl
      | some date =>
        simp only [headerAdd_via]
        split <;> rfl

theorem fileEnd_via (lib : TimeLib) (fname : Bytes) (st : Stat) :
    fileEnd lib (c.via m fd) fname st = (fileEnd lib c fname st).via m fd := by
  have ranged := handleRange_via c m fd st
  rcases e₁ : handleRange c st with ⟨ok₁, r₁⟩
  have added := addFileHeaders_via r₁ m fd lib fname st
  rcases e₂ : addFileHeaders lib r₁ fname st with ⟨ok₂, r₂⟩
  rw [e₁] at ranged
  rw [e₂] at added
  simp only [Result.via] at ranged added
  simp only [fileEnd, e₁, ranged, e₂, added]
  cases ok₁ with
  | false => rfl
  | true =>
    cases ok₂ with
    | false => rfl
    | true =>
      have buffer : (r₂.via m fd).reqHeaders = r₂.reqHeaders := rfl
      have asked : (r₂.via m fd).ta.req.modifiedSince = r₂.ta.req.modifiedSince := rfl
      simp only [not_true_eq_false, if_false, asked, buffer]
      cases r₂.ta.req.modifiedSince with
      | none => rfl
      | some since =>
        simp only
        cases lib.strptime (cString r₂.reqHeaders since) with
        | none => rfl
        | some time =>
          simp only
          split <;> rfl

/-- The search for a file does not look at the method. -/
theorem tryPaths_via (k : Kernel) (errno : Errno) (paths : List Bytes) :
    tryPaths (c.via m fd) k errno paths = (tryPaths c k errno paths).via m fd := by
  induction paths generalizing c k errno with
  | nil => rfl
  | cons path rest ih =>
    have verified : verifyStaticPath (c.via m fd) k errno path =
        { verifyStaticPath c k errno path with
          client := (verifyStaticPath c k errno path).client.via m fd } := by
      simp only [verifyStaticPath]
      split
      · rfl
      · rcases k.stat path with ⟨result, k'⟩
        cases result with
        | error e =>
          simp only
          split <;> rfl
        | ok st =>
          simp only
          split
          · rfl
          · split <;> rfl
    simp only [tryPaths, verified]
    rcases verifyStaticPath c k errno path with ⟨stat, c', k', errno'⟩
    cases stat with
    | some st => rfl
    | none =>
      have status : (c'.via m fd).ta.resp.status = c'.ta.resp.status := rfl
      simp only [status]
      split
      · rfl
      · apply ih

end Serving

section Preparing

variable {c : Client} {m : HttpMethod} {fd : Int}

theorem describeBuffers_head (c : Client) :
    (describeBuffers c).startLine = c.startLine ∧ (describeBuffers c).headerBlock = c.headerBlock := by
  constructor
  · rw [Client.startLine, describeBuffers_bufs]
    rfl
  · rw [Client.headerBlock, describeBuffers_bufs]
    rfl

/-- A pass over the success path differs only in the announced length, and behind the head. -/
theorem prepareSuccess_via (same : announcedLength (c.via m fd) = announcedLength c) :
    (prepareSuccess (c.via m fd)).ok = (prepareSuccess c).ok ∧
      (prepareSuccess (c.via m fd)).client.startLine = (prepareSuccess c).client.startLine ∧
      (prepareSuccess (c.via m fd)).client.headerBlock = (prepareSuccess c).client.headerBlock := by
  have started : prepareRespStart (c.via m fd) = (prepareRespStart c).via m fd := rfl
  have length := headerAdd_via (prepareRespStart c) m fd (ascii "content-length")
    (some (decimal (announcedLength c)))
  rcases e₁ : headerAdd (prepareRespStart c) (ascii "content-length")
    (some (decimal (announcedLength c))) with ⟨ok₁, r₁⟩
  rw [e₁] at length
  have server := headerAdd_via r₁ m fd (ascii "server") (some serverName)
  rcases e₂ : headerAdd r₁ (ascii "server") (some serverName) with ⟨ok₂, r₂⟩
  rw [e₂] at server
  simp only [Result.via] at length server
  simp only [prepareSuccess, headerAddContentLength, same, started, e₁, length, e₂, server]
  cases ok₁ with
  | false => exact ⟨rfl, rfl, rfl⟩
  | true =>
    cases ok₂ with
    | false => exact ⟨rfl, rfl, rfl⟩
    | true =>
      have buf : (r₂.via m fd).respHeaders = r₂.respHeaders := rfl
      have len : (r₂.via m fd).ta.resp.bufs.headers.len = r₂.ta.resp.bufs.headers.len := rfl
      simp only [not_true_eq_false, if_false, buf, len]
      split
      · exact ⟨rfl, rfl, rfl⟩
      · simp only [describeBuffers_head]
        exact ⟨trivial, rfl, rfl⟩

theorem appendTexts_via (c : Client) (k : Kernel) (texts : List Bytes) :
    appendTexts (c.via m fd) k texts = (appendTexts c k texts).via m fd := by
  induction texts generalizing c k with
  | nil => rfl
  | cons text rest ih =>
    have body : (c.via m fd).respBody = c.respBody := rfl
    simp only [appendTexts, body]
    split
    · rfl
    · apply ih { c with respBody := (c.respBody.append text k.realloc.1).buffer }

theorem prepareErrorResponseBody_via (c : Client) (k : Kernel) (none : c.ta.resp.fd = 0) :
    prepareErrorResponseBody (c.via m 0) k =
      (prepareErrorResponseBody c k).map (Outcome.via · m 0) := by
  have drop : dropBody (c.via m 0) k = ((dropBody c k).1.via m 0, (dropBody c k).2) := by
    simp only [dropBody, none, Kernel.closeFdToZero]
    rfl
  have texts (r : Client) : errorBodyTexts (r.via m 0) = errorBodyTexts r := rfl
  rcases e : headerAdd (dropBody c k).1 (ascii "content-type") (some (ascii "text/plain"))
    with ⟨ok, r⟩
  simp only [prepareErrorResponseBody, headerAddContentType, drop, headerAdd_via, Result.via, texts,
    e]
  cases ok with
  | false => rfl
  | true =>
    simp only [not_true_eq_false, if_false, Option.map_map]
    apply Option.map_congr
    intro ts _
    apply appendTexts_via

theorem prepareErrorResponseHeaders_via (c : Client) :
    prepareErrorResponseHeaders (c.via m fd) =
      (prepareErrorResponseHeaders c).map (Result.via · m fd) := by
  have wiped : resetHeaders (c.via m fd) = (resetHeaders c).via m fd := rfl
  have status (r : Client) : (r.via m fd).ta.resp.status = r.ta.resp.status := rfl
  have flags (r : Client) : (r.via m fd).ta.api.allowFlags = r.ta.api.allowFlags := rfl
  simp only [prepareErrorResponseHeaders, wiped, status, headerAddAllow, flags, headerAdd_via]
  split
  · split
    · split <;> rfl
    · rfl
  · rfl

/-- Without a descriptor the canned parts are the same for every method. -/
theorem prepareError_via {c : Client} {k : Kernel} (ok : HeadersOk c)
    (none : c.ta.resp.fd = 0) :
    prepareError (c.via m 0) k = (prepareError c k).map (Outcome.via · m 0) := by
  have body : (c.via m 0).ta.resp.preserveBodyOnError = c.ta.resp.preserveBodyOnError := rfl
  have headers : (c.via m 0).ta.resp.preserveHeadersOnError = c.ta.resp.preserveHeadersOnError := rfl
  simp only [prepareError, body, headers, prepareErrorResponseHeaders_via]
  split
  · rfl
  · split
    · apply prepareErrorResponseBody_via c k none
    · cases wiped : prepareErrorResponseHeaders c with
      | none => rfl
      | some r =>
        have fd : r.client.ta.resp.fd = 0 := by
          rw [(prepareErrorResponseHeaders_spec ok wiped).2.same]
          exact none
        simp only [Option.map_some, Result.via]
        split
        · apply prepareErrorResponseBody_via r.client k fd
        · rfl

def responseHead : Option Outcome → Option (Bytes × Bytes)
  | none => none
  | some o => if o.rc = 0 then some (o.client.startLine, o.client.headerBlock) else none

/-- An error that is met without a descriptor has the same head for every method. -/
theorem errorResponse_via_head {c : Client} {k : Kernel} (ok : HeadersOk c)
    (keep : c.ta.resp.preserveBodyOnError = false) (none : c.ta.resp.fd = 0) :
    responseHead (errorResponse (c.via m 0) k) = responseHead (errorResponse c k) := by
  cases prepared : prepareError c k with
  | none => simp only [errorResponse, prepareError_via ok none, prepared, Option.map_none]
  | some e =>
    simp only [errorResponse, prepareError_via ok none, prepared, Option.map_some, Outcome.via]
    have fd : e.client.ta.resp.fd = 0 := by
      rw [(prepareError_spec ok keep prepared).1.fd, none]
      rfl
    have same : announcedLength (e.client.via m 0) = announcedLength e.client := by
      simp only [announcedLength, fd]
      rfl
    obtain ⟨success, start, headers⟩ := prepareSuccess_via same
    split
    · rename_i failed
      simp [responseHead, failed]
    · simp [responseHead, success, start, headers]

end Preparing

section Heads

variable {m m' method method' : HttpMethod} {fd fd' size size' : Int} {k k' : Kernel}

theorem Presented.succeeds {c : Client} (p : Presented method size c)
    (good : c.ta.resp.status.isError = false) (alive : c.ta.resp.status ≠ .xHangup) :
    ∃ c', prepareResponse c k = some { rc := 0, client := c', kernel := k } := by
  obtain ⟨low, high, least, most, -⟩ := p.ranged good
  have short := p.short
  have len := p.len
  have large : httpBufsz = 4096 := rfl
  have small : (announcedLength c).natAbs < 2 ^ 64 := by
    unfold announcedLength
    split <;> omega
  obtain ⟨r, success, -⟩ := prepareSuccess_room p.headers (by omega) small
  refine ⟨describeBuffers r, ?_⟩
  simp only [prepareResponse, alive, good, Bool.false_eq_true, if_false, success, if_true]

/-- Two requests that differ in the method and the descriptor only have the same head where the
same length is announced. -/
theorem same_head_iff_announced {c : Client} (p : Presented method size (c.via m fd))
    (p' : Presented method' size' (c.via m' fd')) (good : c.ta.resp.status.isError = false)
    (alive : c.ta.resp.status ≠ .xHangup) :
    responseHead (prepareResponse (c.via m' fd') k') = responseHead (prepareResponse (c.via m fd) k) ↔
      announcedLength (c.via m' fd') = announcedLength (c.via m fd) := by
  obtain ⟨r, prepared⟩ := p.succeeds (k := k) good alive
  obtain ⟨r', prepared'⟩ := p'.succeeds (k := k') good alive
  have good' (m : HttpMethod) (fd : Int) : (c.via m fd).ta.resp.status.isError ≠ true := by
    intro error
    cases good.symm.trans error
  obtain ⟨-, d⟩ := (p.prepared prepared).resolve_right fun h => good' m fd h.1
  obtain ⟨-, d'⟩ := (p'.prepared prepared').resolve_right fun h => good' m' fd' h.1
  have block : (c.via m' fd').headerBlock = (c.via m fd).headerBlock := rfl
  have start : (prepareRespStart (c.via m' fd')).startLine =
    (prepareRespStart (c.via m fd)).startLine := rfl
  rw [prepared, prepared']
  simp only [responseHead, if_true, Option.some.injEq, Prod.mk.injEq]
  constructor
  · intro same
    have announced : Announced r' (announcedLength (c.via m fd)) := ⟨_, same.2.trans d.headers⟩
    have announced' : Announced r' (announcedLength (c.via m' fd')) := ⟨_, d'.headers⟩
    exact announced'.unique announced
  · intro same
    constructor
    · rw [d.start, d'.start, start]
    · rw [d.headers, d'.headers, block, same]

theorem errorBodyTexts_file {c : Client} (error : FileError c.ta.resp.status) :
    ∃ text, errorBodyTexts c = some [text] ∧ 2 ≤ text.length ∧ text.length ≤ 32 := by
  unfold errorBodyTexts
  rcases error with status | status | status <;> rw [status] <;>
    exact ⟨_, rfl, by decide, by decide⟩

/-- The length that a canned response announces: 1 for the marker of a HEAD request. -/
theorem Canned.announced {c e : Client} {text : Bytes} (canned : Canned c e)
    (known : errorBodyTexts c = some [text]) :
    announcedLength e = if c.ta.resp.fd < 0 then 1 else (text.length : Int) := by
  obtain ⟨texts, known', len⟩ := canned.body
  cases known.symm.trans known'
  have pos : e.ta.resp.bodyPos = 0 := by rw [canned.same]
  have last : e.ta.resp.bodyEnd = 0 := by rw [canned.same]
  have fd : e.ta.resp.fd = if c.ta.resp.fd > 0 then 0 else c.ta.resp.fd := by rw [canned.same]
  simp only [announcedLength, pos, last, len, fd, List.flatten_cons, List.flatten_nil,
    List.append_nil]
  rcases Int.lt_trichotomy c.ta.resp.fd 0 with marker | none | file
  · simp [marker, Int.not_lt.mpr (Int.le_of_lt marker), Int.ne_of_lt marker]
  · simp [none]
  · simp [file, Int.not_lt.mpr (Int.le_of_lt file)]

theorem appendTexts_one {c : Client} {text : Bytes} (k : Kernel)
    (fits : c.respBody.len + text.length < c.respBody.max) : (appendTexts c k [text]).rc = 0 := by
  have appended := (@Buffer.append_fits c.respBody text k.realloc.1 fits).1
  simp [appendTexts, appended]

theorem prepareErrorResponseBody_one {c : Client} {text : Bytes} (k : Kernel) (ok : HeadersOk c)
    (room : c.headerBlock.length + 26 < httpBufsz) (known : errorBodyTexts c = some [text])
    (fits : (text.length : Int) < c.respBody.max) :
    ∃ e, prepareErrorResponseBody c k = some e ∧ e.rc = 0 := by
  have drop : HeadersOk (dropBody c k).1 := ⟨ok.size, ok.inside⟩
  have block : (dropBody c k).1.headerBlock = c.headerBlock := rfl
  have type : (headerLine (ascii "content-type") (ascii "text/plain")).length = 26 := rfl
  obtain ⟨r, e, headers⟩ := @headerAdd_fits _ (ascii "content-type") (ascii "text/plain") drop
    (by rw [block, List.length_append, type]; exact room)
  have known' : errorBodyTexts r = some [text] := by
    rw [← known]
    apply errorBodyTexts_congr <;> rw [headers.same] <;> rfl
  have body : r.respBody = { c.respBody with len := 0 } := by
    rw [headers.same]
    rfl
  refine ⟨appendTexts r (dropBody c k).2 [text], ?_, ?_⟩
  · simp [prepareErrorResponseBody, headerAddContentType, e, known']
  · apply appendTexts_one
    rw [body]
    simpa using fits

theorem Presented.error_answered {c : Client} (p : Presented method size c)
    (error : FileError c.ta.resp.status) (body : 256 ≤ c.respBody.max) :
    ∃ c' k', prepareResponse c k = some { rc := 0, client := c', kernel := k' } := by
  obtain ⟨text, known, least, short⟩ := errorBodyTexts_file error
  have room := p.short
  have large : httpBufsz = 4096 := rfl
  have fits : (text.length : Int) < c.respBody.max := by omega
  obtain ⟨e, prepared, rc⟩ : ∃ e, prepareError c k = some e ∧ e.rc = 0 := by
    simp only [prepareError, p.keep, Bool.false_eq_true, if_false]
    split
    · exact prepareErrorResponseBody_one k p.headers (by omega) known fits
    · obtain ⟨r, wiped⟩ : ∃ r, prepareErrorResponseHeaders c = some r := by
        apply prepareErrorResponseHeaders_iff.mpr
        intro notAllowed
        rw [notAllowed] at error
        rcases error with h | h | h <;> cases h
      obtain ⟨done, headers⟩ := prepareErrorResponseHeaders_spec p.headers wiped
      obtain ⟨known', body'⟩ := prepareErrorResponseHeaders_texts p.headers wiped
      have allow := length_allowBlock c
      simp only [wiped, done, if_true]
      apply prepareErrorResponseBody_one k headers.headersOk
      · rw [headers.headerBlock]
        omega
      · rw [known', known]
      · rw [body']
        exact fits
  obtain ⟨canned, block⟩ := (prepareError_spec p.headers p.keep prepared).2 rc
  have type : (headerLine (ascii "content-type") (ascii "text/plain")).length = 26 := rfl
  have allow := length_allowBlock c
  have head : e.client.headerBlock.length ≤ 224 := by
    rw [block, cannedBlock, List.length_append, type]
    split <;> omega
  have small : (announcedLength e.client).natAbs < 2 ^ 64 := by
    rw [canned.announced known]
    split <;> omega
  obtain ⟨r, success, -⟩ := prepareSuccess_room canned.headers (by omega) small
  have alive : c.ta.resp.status ≠ .xHangup := by
    intro hangup
    rw [hangup] at error
    rcases error with h | h | h <;> cases h
  refine ⟨describeBuffers r, e.kernel, ?_⟩
  simp only [prepareResponse, alive, if_false, error.isError, if_true, errorResponse, prepared,
    Option.map_some, rc, ne_eq, not_true_eq_false, success]

theorem Presented.announces {c : Client} {text : Bytes} {o : Outcome} (p : Presented method size c)
    (error : c.ta.resp.status.isError = true) (known : errorBodyTexts c = some [text])
    (prepared : prepareResponse c k = some o) (rc : o.rc = 0) :
    Announced o.client (if c.ta.resp.fd < 0 then 1 else text.length) := by
  rcases o with ⟨rc', c', k'⟩
  cases rc
  rcases p.prepared prepared with ⟨good, -⟩ | ⟨-, e, canned, d⟩
  · cases error.symm.trans good
  · rw [← canned.announced known]
    exact ⟨_, d.headers⟩

/-- The marker of a HEAD request is announced as a body of one byte, and no canned text is so
short. -/
theorem error_heads_differ {c : Client} (p : Presented method size (c.via m 0))
    (p' : Presented method' size' (c.via m' fdHead)) (error : FileError c.ta.resp.status)
    (body : 256 ≤ c.respBody.max) :
    responseHead (prepareResponse (c.via m' fdHead) k') ≠
      responseHead (prepareResponse (c.via m 0) k) := by
  intro same
  obtain ⟨r, kr, prepared⟩ := p.error_answered (k := k) error body
  obtain ⟨r', kr', prepared'⟩ := p'.error_answered (k := k') error body
  obtain ⟨text, known, least, -⟩ := errorBodyTexts_file error
  have announced := p.announces error.isError known prepared rfl
  have announced' := p'.announces error.isError known prepared' rfl
  rw [prepared, prepared'] at same
  simp only [responseHead, if_true, Option.some.injEq, Prod.mk.injEq] at same
  have lengths : (text.length : Int) = 1 := by
    apply Announced.unique (c := r')
    · rw [Announced, same.2]
      exact announced
    · exact announced'
  omega

/-- Nothing of a body is left to send behind the head of a response to HEAD. -/
theorem Presented.no_body {c : Client} {o : Outcome} (p : Presented .head size c)
    (prepared : prepareResponse c k = some o) (rc : o.rc = 0) : bodyLeft o.client = 0 := by
  rcases o with ⟨rc', c', k'⟩
  cases rc
  have head : c.ta.req.method = .head := by
    rcases p.asked with asked | ⟨asked, -⟩ <;> exact asked
  have noBody := p.noBody
  rcases p.prepared prepared with ⟨-, d⟩ | ⟨-, e, canned, d⟩
  · simp [bodyLeft, d.method, d.body, head, noBody]
  · have method : e.ta.req.method = .head := by
      rw [canned.same]
      exact head
    have body : e.ta.resp.bufs.body.len = 0 := by
      rw [canned.same]
      exact noBody
    simp [bodyLeft, d.method, d.body, method, body]

end Heads

def staticAnswer (s : Server) (c : Client) (k : Kernel) (path : Bytes)
    (ctx : Option RequestContext) : Option Outcome :=
  let r := handleStaticPath s c k path ctx
  prepareResponse r.client r.kernel

def PathChoice.Opens : PathChoice → Prop
  | stop .. => True
  | pathSet fname _ _ k _ => ∃ fd k', k.openRdonly fname = (.ok fd, k')

/-- The answer to HEAD has the head of the answer to GET, and no body. -/
structure HeadAgrees (get head : Option Outcome) : Prop where
  same : responseHead head = responseHead get
  noBody : ∀ o, head = some o → o.rc = 0 → bodyLeft o.client = 0

/-- A file that was chosen is served, and one that has not been modified is empty. -/
def HeadFaithful (lib : TimeLib) (c : Client) : PathChoice → Prop
  | .stop .. => True
  | .pathSet _ st _ _ _ => Servable lib c st ∧ (Unmodified lib c st → st.size = 0)

theorem Accepted.via {c : Client} (a : Accepted c) (m : HttpMethod) : Accepted (c.via m 0) :=
  ⟨by simp only [Client.via, a.resp], a.headersSize, a.bodyEmpty, a.bufferSize⟩

theorem PathChoice.sized (choice : PathChoice) : ∃ size : Int, ∀ fname st c k errno,
    choice = .pathSet fname st c k errno → size = st.size := by
  refine ⟨choice.size?.getD 0, ?_⟩
  intro fname st c k errno same
  rw [same]
  rfl

section Described

variable {lib : TimeLib} {c : Client} {st : Stat} {fname : Bytes} (k k' : Kernel)
  (errno errno' : Errno)

theorem describeFile_via (m : HttpMethod) (fd : Int) :
    describeFile lib (c.via m fd) k errno fname st =
      match fileEnd lib (c.wholeFile st) fname st with
      | .error r => errClosefd (r.via m fd) k errno
      | .unmodified r => notModified (r.via m fd) k errno
      | .full r => serveFile (r.via m fd) k errno := by
  have whole : (c.via m fd).wholeFile st = (c.wholeFile st).via m fd := rfl
  rw [describeFile_eq, whole, fileEnd_via]
  cases fileEnd lib (c.wholeFile st) fname st <;> rfl

theorem describeFile_agrees_iff (a : Accepted c) (get : c.ta.req.method = .get)
    (body : 256 ≤ c.respBody.max) {fd : Int} (opened : 0 < fd) :
    (responseHead (prepareResponse (describeFile lib (c.via .head fdHead) k' errno' fname st).client
          (describeFile lib (c.via .head fdHead) k' errno' fname st).kernel) =
        responseHead (prepareResponse (describeFile lib (c.via .get fd) k errno fname st).client
          (describeFile lib (c.via .get fd) k errno fname st).kernel)) ↔
      Servable lib c st ∧ (Unmodified lib c st → st.size = 0) := by
  have head := a.via .head
  have same : c.via .get fd = c.setFd fd := by
    simp only [Client.via, Client.setFd, ← get]
  have p : Presented .get st.size (describeFile lib (c.via .get fd) k errno fname st).client := by
    rw [same, ← get]
    apply describeFile_presented a (.inl opened)
  have p' : Presented .head st.size
      (describeFile lib (c.via .head fdHead) k' errno' fname st).client :=
    describeFile_presented head (.inr ⟨rfl, rfl⟩)
  have spec := @fileEnd_spec lib c fname st a.headersOk (by rw [a.headerBlock]; decide)
    (by rw [a.resp])
  rw [describeFile_via] at p p' ⊢
  rw [describeFile_via]
  revert spec p p'
  cases fileEnd lib (c.wholeFile st) fname st with
  | error r =>
    rintro p p' ⟨known, error, unservable⟩
    have closed : (k.closeFdToZero fd).1 = 0 := by
      simp only [Kernel.closeFdToZero, if_pos opened]
    have get : (errClosefd (r.via .get fd) k errno).client = r.via .get 0 := by
      rw [← closed]
      rfl
    have body' : 256 ≤ r.respBody.max := by
      rw [known.frame.same]
      exact body
    simp only [get] at p ⊢
    constructor
    · intro same
      exact absurd same (error_heads_differ p p' error body')
    · intro served
      exact absurd served.1 unservable
  | unmodified r =>
    rintro p p' ⟨known, inside, servable, unmodified⟩
    have closed : (k.closeFdToZero fd).1 = 0 := by
      simp only [Kernel.closeFdToZero, if_pos opened]
    have get : (notModified (r.via .get fd) k errno).client =
        (r.setStatus .http304NotModified).via .head 0 := by
      rw [← closed]
      rfl
    have empty : r.respBody.len = 0 := by
      rw [known.frame.same]
      exact a.bodyEmpty
    have least := inside.least
    have high := inside.inside
    have some' := inside.nonempty
    have marker : (notModified (r.via .head fdHead) k' errno').client =
        (r.setStatus .http304NotModified).via .head fdHead := rfl
    simp only [get, marker] at p p' ⊢
    apply (same_head_iff_announced p p' rfl (by rintro ⟨⟩)).trans
    have head : announcedLength ((r.setStatus .http304NotModified).via .head fdHead) =
        r.ta.resp.bodyEnd - r.ta.resp.bodyPos + 1 := rfl
    have get : announcedLength ((r.setStatus .http304NotModified).via .head 0) =
        r.respBody.len - r.ta.resp.bodyPos := rfl
    rw [head, get, empty]
    constructor
    · intro same
      exact ⟨servable, fun _ => by omega⟩
    · intro served
      have size := served.2 unmodified
      omega
  | full r =>
    rintro p p' ⟨-, -, servable, modified⟩
    obtain ⟨status, chosen, good, alive⟩ : ∃ status : HttpStatus,
        (if r.ta.req.rangeRequested then .http206PartialContent else .http200Ok) = status ∧
          status.isError = false ∧ status ≠ .xHangup := by
      split
      · exact ⟨_, rfl, rfl, (by rintro ⟨⟩)⟩
      · exact ⟨_, rfl, rfl, (by rintro ⟨⟩)⟩
    have served (m : HttpMethod) (fd : Int) (k : Kernel) (errno : Errno) :
        serveFile (r.via m fd) k errno =
          { ok := true, client := (r.setStatus status).via m fd, kernel := k, errno := errno } := by
      rw [← chosen]
      rfl
    simp only [served] at p p' ⊢
    have file : ((r.setStatus status).via .get fd).ta.resp.fd ≠ 0 := Int.ne_of_gt opened
    have marker : ((r.setStatus status).via .head fdHead).ta.resp.fd ≠ 0 :=
      show fdHead ≠ 0 by decide
    apply iff_of_true
    · apply (same_head_iff_announced p p' good alive).mpr
      simp only [announcedLength, if_pos file, if_pos marker]
      rfl
    · exact ⟨servable, fun unmodified => absurd unmodified modified⟩

end Described

theorem pathChoice_via (s : Server) (c : Client) (k : Kernel) (path : Bytes)
    (ctx : Option RequestContext) (m : HttpMethod) (fd : Int) :
    pathChoice s (c.via m fd) k path ctx = (pathChoice s c k path ctx).via m fd := by
  apply tryPaths_via

/-- The answers to HEAD and GET agree exactly where no error is met behind the choice of a file,
and no file with a byte in it is found not to be modified. -/
theorem head_agrees_iff {s : Server} {c : Client} {k : Kernel} {path : Bytes}
    {ctx : Option RequestContext} (accepted : Accepted c) (get : c.ta.req.method = .get)
    (body : 256 ≤ c.respBody.max) (opens : (pathChoice s c k path ctx).Opens) :
    HeadAgrees (staticAnswer s c k path ctx) (staticAnswer s (c.via .head 0) k path ctx) ↔
      HeadFaithful s.time c (pathChoice s c k path ctx) := by
  have head := accepted.via .head
  obtain ⟨size, file⟩ := (pathChoice s (c.via .head 0) k path ctx).sized
  have p := handleStaticPath_presented head file
  have spec := pathChoice_spec s c k path ctx
  have chosen := handleStaticPath_chosen s k path ctx (.inl get)
  have chosen' := handleStaticPath_chosen s (c := c.via .head 0) k path ctx (.inr rfl)
  rw [pathChoice_via] at chosen'
  have unset : c.ta.resp.status = .xRespStatusUnset := by rw [accepted.resp]
  have none : c.ta.resp.fd = 0 := by rw [accepted.resp]
  have zero : c.via .get 0 = c := by
    simp only [Client.via, ← get, ← none]
  have noBody : ∀ o, staticAnswer s (c.via .head 0) k path ctx = some o → o.rc = 0 →
      bodyLeft o.client = 0 := by
    intro o prepared rc
    exact p.no_body prepared rc
  suffices same : responseHead (staticAnswer s (c.via .head 0) k path ctx) =
      responseHead (staticAnswer s c k path ctx) ↔
        HeadFaithful s.time c (pathChoice s c k path ctx) by
    rw [← same]
    exact ⟨HeadAgrees.same, fun same => ⟨same, noBody⟩⟩
  unfold staticAnswer
  simp only [chosen, chosen']
  revert spec opens
  cases pathChoice s c k path ctx with
  | stop c₁ k₁ errno =>
    rintro - ⟨-, status, rfl, error⟩
    have error : status.isError = true := by
      rcases error unset with rfl | rfl | rfl <;> rfl
    have alive : status ≠ .xHangup := by
      rintro rfl
      cases error
    have given (c : Client) (k : Kernel) (set : c.ta.resp.status = status) :
        prepareResponse c k = errorResponse c k := by
      simp only [prepareResponse, set, alive, error, if_false, if_true]
    simp only [PathChoice.via]
    rw [given _ _ rfl, given _ _ rfl]
    apply iff_of_true ?_ trivial
    exact errorResponse_via_head ⟨accepted.headersSize, accepted.headersOk.inside⟩
      (by simp only [Client.setStatus, accepted.resp]) none
  | pathSet fname st c₁ k₁ errno =>
    rintro ⟨fd, k₂, opened⟩ ⟨-, rfl⟩
    have file : pathSet s.time c₁ k₁ errno fname st =
        describeFile s.time (c₁.via .get fd.val) k₂ errno fname st := by
      simp only [pathSet_eq, if_pos get, opened]
      rw [← zero]
      rfl
    have marker : pathSet s.time (c₁.via .head 0) k₁ errno fname st =
        describeFile s.time (c₁.via .head fdHead) k₁ errno fname st := rfl
    simp only [PathChoice.via, file, marker]
    exact describeFile_agrees_iff k₂ k₁ errno errno accepted get body fd.pos

theorem staticAnswer_unsatisfiable {s : Server} {c : Client} {k : Kernel} {path : Bytes}
    {ctx : Option RequestContext} {o : Outcome} (accepted : Accepted c)
    (status : (handleStaticPath s c k path ctx).client.ta.resp.status = .http416RangeNotSatisfiable)
    (prepared : staticAnswer s c k path ctx = some o) (rc : o.rc = 0) :
    Announced o.client
      (if (handleStaticPath s c k path ctx).client.ta.resp.fd < 0 then 1 else 22) := by
  obtain ⟨size, file⟩ := (pathChoice s c k path ctx).sized
  have p := handleStaticPath_presented accepted file
  have known : errorBodyTexts (handleStaticPath s c k path ctx).client =
      some [ascii "Range not satisfiable."] := by
    simp only [errorBodyTexts, status]
  have error : (handleStaticPath s c k path ctx).client.ta.resp.status.isError = true := by
    rw [status]
    rfl
  have announced := p.announces error known prepared rc
  have length : (ascii "Range not satisfiable.").length = 22 := rfl
  rw [length] at announced
  exact announced

theorem five_small : 5 < 2 ^ 63 := by decide

def answerOf (method : HttpMethod) (range : Bytes) : Option Outcome :=
  staticAnswer rootServer ((fileRequest range).via method 0) (filesOf 5 five_small) (ascii "/f") none

theorem filesOf_opens (c : Client) (size : Nat) (h : size < 2 ^ 63) (path : Bytes) :
    (pathChoice rootServer c (filesOf size h) path none).Opens := by
  have spec := pathChoice_spec rootServer c (filesOf size h) path none
  revert spec
  cases pathChoice rootServer c (filesOf size h) path none with
  | stop _ _ _ =>
    intro _
    trivial
  | pathSet fname st c' k' errno =>
    rintro ⟨searched, -⟩
    rw [searched.same]
    exact ⟨_, _, rfl⟩

theorem head_agrees_iff_whole : HeadAgrees (answerOf .get []) (answerOf .head []) ↔
    HeadFaithful rootServer.time (fileRequest [])
      (pathChoice rootServer (fileRequest []) (filesOf 5 (by decide)) (ascii "/f") none) :=
  head_agrees_iff (fileRequest_accepted (by decide)) rfl (by decide +kernel) (filesOf_opens ..)

/-- A range behind the end of the file: 22 bytes are announced for GET, and one for HEAD. -/
theorem unsatisfiable_range_heads_differ : ∃ g h,
    answerOf .get (ascii "bytes=9-") = some g ∧ answerOf .head (ascii "bytes=9-") = some h ∧
    g.rc = 0 ∧ h.rc = 0 ∧ Announced g.client 22 ∧ Announced h.client 1 ∧
    ¬ HeadAgrees (answerOf .get (ascii "bytes=9-")) (answerOf .head (ascii "bytes=9-")) := by
  have run (m : HttpMethod) (either : m = .get ∨ m = .head) :
      (answerOf m (ascii "bytes=9-")).map Outcome.rc = some 0 := by
    rcases either with rfl | rfl <;> decide +kernel
  obtain ⟨g, get, rc⟩ := Option.map_eq_some_iff.mp (run .get (.inl rfl))
  obtain ⟨h, head, rc'⟩ := Option.map_eq_some_iff.mp (run .head (.inr rfl))
  have announced (m : HttpMethod) (fd : Int) (o : Outcome)
      (served : let r := (handleStaticPath rootServer ((fileRequest (ascii "bytes=9-")).via m 0)
        (filesOf 5 (by decide)) (ascii "/f") none).client.ta.resp
        (r.status, r.fd) = (.http416RangeNotSatisfiable, fd))
      (prepared : answerOf m (ascii "bytes=9-") = some o) (rc : o.rc = 0) :
      Announced o.client (if fd < 0 then 1 else 22) := by
    obtain ⟨status, rfl⟩ := Prod.mk.inj served
    exact staticAnswer_unsatisfiable ((fileRequest_accepted (by decide)).via m) status prepared rc
  have announcedGet : Announced g.client 22 := announced .get 0 g (by decide +kernel) get rc
  have announcedHead : Announced h.client 1 := announced .head fdHead h (by decide +kernel) head rc'
  refine ⟨g, h, get, head, rc, rc', announcedGet, announcedHead, ?_⟩
  intro agrees
  have same := agrees.same
  rw [get, head] at same
  simp only [responseHead, rc, rc', if_true, Option.some.injEq, Prod.mk.injEq] at same
  rw [Announced, same.2] at announcedHead
  exact absurd (announcedGet.unique announcedHead) (by decide)

end Kitserv
