import Kitserv.Decimal
import Kitserv.HeaderText
import Kitserv.Respond

namespace Kitserv

/-- One pass over the success path: a response, no room for a line, or no room for the empty
line at the end of the block. -/
theorem prepareSuccess_shape (c : Client) :
    ∃ buf n, prepareSuccess c =
        { ok := true, client := describeBuffers ((prepareRespStart c).setHeaders buf n) } ∨
      prepareSuccess c = { ok := false, client :=
        ((prepareRespStart c).setHeaders buf n).setStatus .http507InsufficientStorage } ∨
      prepareSuccess c = { ok := false, client := ((prepareRespStart c).setHeaders buf n).setFd 507 } := by
  obtain ⟨b₁, n₁, length | length⟩ := headerAdd_shape (prepareRespStart c) (ascii "content-length")
    (some (decimal (announcedLength c)))
  · obtain ⟨b₂, n₂, server | server⟩ := headerAdd_shape ((prepareRespStart c).setHeaders b₁ n₁)
      (ascii "server") (some serverName)
    · simp only [prepareSuccess, headerAddContentLength, length, server, not_true_eq_false, if_false]
      split
      · exact ⟨_, _, .inr (.inr rfl)⟩
      · exact ⟨_, _, .inl rfl⟩
    · simp only [prepareSuccess, headerAddContentLength, length, server, not_true_eq_false, if_false,
        Bool.false_eq_true, not_false_eq_true, if_true]
      exact ⟨_, _, .inr (.inl rfl)⟩
  · simp only [prepareSuccess, headerAddContentLength, length, Bool.false_eq_true,
      not_false_eq_true, if_true]
    exact ⟨_, _, .inr (.inl rfl)⟩

def lastLines (length : Int) : Bytes :=
  headerLine (ascii "content-length") (decimal length) ++ headerLine (ascii "server") serverName

def NoRoomForEnd (c : Client) : Prop :=
  (c.headerBlock ++ lastLines (announcedLength c)).length < httpBufsz ∧
    httpBufsz ≤ (c.headerBlock ++ lastLines (announcedLength c)).length + 2

/-- One pass over the success path, with the header block it leaves. -/
theorem prepareSuccess_cases {c : Client} (ok : HeadersOk c) :
    (∃ r, prepareSuccess c = { ok := true, client := describeBuffers r } ∧
      WithHeaders (prepareRespStart c)
        (c.headerBlock ++ lastLines (announcedLength c) ++ ascii "\r\n") r) ∨
    (∃ r block, prepareSuccess c =
        { ok := false, client := r.setStatus .http507InsufficientStorage } ∧
      WithHeaders (prepareRespStart c) block r ∧
      httpBufsz ≤ (c.headerBlock ++ lastLines (announcedLength c)).length) ∨
    (∃ r, prepareSuccess c = { ok := false, client := r.setFd 507 } ∧
      WithHeaders (prepareRespStart c) (c.headerBlock ++ lastLines (announcedLength c)) r ∧
      NoRoomForEnd c) := by
  have start : HeadersOk (prepareRespStart c) := ⟨ok.size, ok.inside⟩
  have same : (prepareRespStart c).headerBlock = c.headerBlock := rfl
  simp only [NoRoomForEnd, lastLines, ← List.append_assoc]
  rcases headerAdd_cases (ascii "content-length") (decimal (announcedLength c)) start with
    ⟨r₁, e₁, h₁⟩ | ⟨r₁, e₁, h₁, full⟩
  · rw [same] at h₁
    rcases headerAdd_cases (ascii "server") serverName h₁.headersOk with
      ⟨r₂, e₂, h₂⟩ | ⟨r₂, e₂, h₂, full⟩
    · rw [h₁.headerBlock] at h₂
      have used := h₂.headersOk.length_headerBlock
      rw [h₂.headerBlock] at used
      rcases strAppend_cases (ascii "\r\n") h₂.headersOk.size h₂.headersOk.inside with
        ⟨b, e₃, size, fits, text⟩ | ⟨b, e₃, size, full, text⟩
      · left
        refine ⟨r₂.setHeaders b (r₂.ta.resp.bufs.headers.len + (ascii "\r\n").length), ?_, ?_⟩
        · simp only [prepareSuccess, headerAddContentLength, e₁, e₂, e₃, not_true_eq_false, if_false]
        · refine ⟨size, ?_, ?_, ?_⟩
          · rw [List.length_append]
            omega
          · rw [List.length_append, ← used, h₂.same, h₁.same]
            rfl
          · rw [List.length_append, used]
            exact text.trans (congrArg (· ++ ascii "\r\n") h₂.headerBlock)
      · right; right
        have crlf : (ascii "\r\n").length = 2 := rfl
        have inside := h₂.inside
        refine ⟨r₂.setHeaders b r₂.ta.resp.bufs.headers.len, ?_, ⟨size, h₂.inside, ?_, ?_⟩,
          h₂.inside, by omega⟩
        · simp only [prepareSuccess, headerAddContentLength, e₁, e₂, e₃, not_true_eq_false, if_false,
            Bool.false_eq_true, not_false_eq_true, if_true]
          rfl
        · rw [← used, h₂.same, h₁.same]
          rfl
        · rw [used]
          exact text.trans h₂.headerBlock
    · right; left
      rw [h₁.headerBlock] at full
      refine ⟨r₂, _, ?_, h₁.trans h₂, full⟩
      simp only [prepareSuccess, headerAddContentLength, e₁, e₂, not_true_eq_false, if_false,
        Bool.false_eq_true, not_false_eq_true, if_true]
  · right; left
    rw [same] at full
    refine ⟨r₁, _, ?_, h₁, ?_⟩
    · simp only [prepareSuccess, headerAddContentLength, e₁, Bool.false_eq_true, not_false_eq_true,
        if_true]
    · rw [List.length_append]
      omega

theorem errorResponse_ready {c c' : Client} {k k' : Kernel}
    (h : errorResponse c k = some { rc := 0, client := c', kernel := k' }) :
    ∃ c₁ buf n, c' = describeBuffers ((prepareRespStart c₁).setHeaders buf n) := by
  simp only [errorResponse, Option.map_eq_some_iff] at h
  obtain ⟨e, -, h⟩ := h
  split at h
  · rename_i failed
    exact absurd (congrArg Outcome.rc h) failed
  · obtain ⟨buf, n, shape | shape | shape⟩ := prepareSuccess_shape e.client
    · rw [shape] at h
      cases h
      exact ⟨_, _, _, rfl⟩
    · rw [shape] at h
      cases congrArg Outcome.rc h
    · rw [shape] at h
      cases congrArg Outcome.rc h

theorem prepareResponse_ready {c c' : Client} {k k' : Kernel}
    (h : prepareResponse c k = some { rc := 0, client := c', kernel := k' }) :
    ∃ c₁ buf n, c' = describeBuffers ((prepareRespStart c₁).setHeaders buf n) := by
  simp only [prepareResponse] at h
  split at h
  · cases h
  · split at h
    · exact errorResponse_ready h
    · obtain ⟨buf, n, shape | shape | shape⟩ := prepareSuccess_shape c
      · rw [shape] at h
        cases h
        exact ⟨_, _, _, rfl⟩
      · rw [shape] at h
        exact errorResponse_ready h
      · rw [shape] at h
        exact errorResponse_ready h

theorem describeBuffers_bufs (c : Client) : (describeBuffers c).ta.resp.bufs = {
    start := { base := 0, len := c.ta.resp.bufs.start.len }
    headers := { base := 0, len := c.ta.resp.bufs.headers.len }
    body := if c.ta.resp.fd = 0 ∧ c.ta.req.method ≠ .head then {
        base := c.ta.resp.bodyPos.toNat
        len := toSizeT (c.respBody.len - c.ta.resp.bodyPos) }
      else c.ta.resp.bufs.body } := by
  cases isBody : decide (c.ta.resp.fd = 0 ∧ c.ta.req.method ≠ .head) with
  | true => simp only [describeBuffers, if_pos (of_decide_eq_true isBody)]
  | false => simp only [describeBuffers, if_neg (of_decide_eq_false isBody)]

theorem describeBuffers_start (c : Client) :
    (describeBuffers c).ta.resp.bufs.start = { base := 0, len := c.ta.resp.bufs.start.len } := by
  rw [describeBuffers_bufs]

theorem le_len_strAppend (buf : Bytes) (offset max : Nat) (value : Rendering) :
    offset ≤ (strAppend buf offset max value).len := by
  cases value with
  | none => exact Nat.le_refl offset
  | some text =>
    simp only [strAppend]
    split
    · exact Nat.le_refl offset
    · exact Nat.le_add_right offset _

theorem prepareRespStart_pos (c : Client) : 0 < (prepareRespStart c).ta.resp.bufs.start.len := by
  have version : (strAppend c.respStart 0 httpBufszSmall
      (some (getVersionString c.ta.req.version))).len = 9 := by
    cases c.ta.req.version <;> rfl
  apply Nat.lt_of_lt_of_le (show 0 < 9 by decide)
  rw [← version]
  exact le_len_strAppend _ _ _ _

theorem length_lastLines {length : Int} (small : length.natAbs < 2 ^ 64) :
    (lastLines length).length ≤ 56 := by
  have digits := length_decimal_le small
  have key : (ascii "content-length").length = 14 := rfl
  have server : (headerLine (ascii "server") serverName).length = 17 := rfl
  rw [lastLines, List.length_append, length_headerLine, server]
  omega

theorem prepareSuccess_room {c : Client} (ok : HeadersOk c)
    (room : c.headerBlock.length + 58 < httpBufsz)
    (small : (announcedLength c).natAbs < 2 ^ 64) :
    ∃ r, prepareSuccess c = { ok := true, client := describeBuffers r } ∧
      WithHeaders (prepareRespStart c)
        (c.headerBlock ++ lastLines (announcedLength c) ++ ascii "\r\n") r := by
  have lines := length_lastLines small
  rcases prepareSuccess_cases ok with success | ⟨r, block, -, -, full⟩ | ⟨r, -, -, -, full⟩
  · exact success
  · rw [List.length_append] at full
    omega
  · rw [List.length_append] at full
    omega

section Append

variable {b : Buffer} {elems : Bytes} {out : ReallocOutcome}

theorem ensureSpace_len (n : Nat) : (b.ensureSpace n out).2.len = b.len := by
  simp only [Buffer.ensureSpace]
  split
  · split <;> rfl
  · rfl

theorem append_rc : (b.append elems out).rc = 0 ∨ (b.append elems out).rc = -1 := by
  simp only [Buffer.append]
  split
  · exact .inr rfl
  · exact .inl rfl

theorem append_len (h : (b.append elems out).rc = 0) :
    (b.append elems out).buffer.len = b.len + elems.length := by
  have same := @ensureSpace_len b out elems.length
  simp only [Buffer.append] at h ⊢
  split
  · rename_i e
    rw [e] at h
    cases h
  · rename_i e
    rw [e] at same
    simp only at same
    simp only [same]

end Append

structure Texts (c : Client) (k : Kernel) (texts : List Bytes) (o : Outcome) : Prop where
  client : o.client = { c with respBody := o.client.respBody }
  kernel : o.kernel = { k with reallocs := o.kernel.reallocs }
  rc : o.rc = 0 ∨ o.rc = -1
  len : o.rc = 0 → o.client.respBody.len = c.respBody.len + texts.flatten.length

theorem appendTexts_spec (c : Client) (k : Kernel) (texts : List Bytes) :
    Texts c k texts (appendTexts c k texts) := by
  induction texts generalizing c k with
  | nil => exact ⟨rfl, rfl, .inl rfl, fun _ => by simp [appendTexts]⟩
  | cons text rest ih =>
    simp only [appendTexts]
    split
    · exact ⟨rfl, rfl, .inr rfl, by simp⟩
    · rename_i rc
      have appended := append_len (by simpa using rc)
      have later := ih { c with respBody := (c.respBody.append text k.realloc.1).buffer } k.realloc.2
      refine ⟨?_, ?_, later.rc, fun done => ?_⟩
      · rw [later.client]
      · rw [later.kernel]
        rfl
      · rw [later.len done]
        simp only [appended, List.flatten_cons, List.length_append]
        omega

theorem length_cString_le (mem : Bytes) (p : Nat) : (cString mem p).length ≤ mem.length :=
  Nat.le_trans (List.takeWhile_sublist _).length_le (by rw [List.length_drop]; omega)

theorem errorBodyTexts_shape {c : Client} {texts : List Bytes} (h : errorBodyTexts c = some texts) :
    (∃ text, texts = [text] ∧ text.length ≤ 32) ∨
      ∃ path, texts = [ascii "Not found: ", path] ∧ path.length ≤ c.reqHeaders.length := by
  unfold errorBodyTexts at h
  split at h
  case h_3 =>
    right
    obtain ⟨p, -, rfl⟩ := Option.map_eq_some_iff.mp h
    exact ⟨_, rfl, length_cString_le ..⟩
  all_goals
    cases h
    exact .inl ⟨_, rfl, by decide⟩

theorem length_errorBodyTexts {c : Client} {texts : List Bytes}
    (buffer : c.reqHeaders.length ≤ httpBufsz) (h : errorBodyTexts c = some texts) :
    texts.flatten.length < 2 ^ 31 := by
  have small : httpBufsz = 4096 := rfl
  have name : (ascii "Not found: ").length = 11 := rfl
  rcases errorBodyTexts_shape h with ⟨text, rfl, short⟩ | ⟨path, rfl, short⟩
  · simp only [List.flatten_cons, List.flatten_nil, List.append_nil]
    omega
  · simp only [List.flatten_cons, List.flatten_nil, List.append_nil, List.length_append, name]
    omega

structure Canned (c : Client) (r : Client) : Prop where
  same : r = { c with
    respHeaders := r.respHeaders
    respBody := r.respBody
    ta := { c.ta with resp := { c.ta.resp with
      bufs := { c.ta.resp.bufs with headers := r.ta.resp.bufs.headers }
      fd := if c.ta.resp.fd > 0 then 0 else c.ta.resp.fd
      bodyPos := 0
      bodyEnd := 0 } } }
  headers : HeadersOk r
  body : ∃ texts, errorBodyTexts c = some texts ∧ r.respBody.len = texts.flatten.length

structure Dropped (c : Client) (k : Kernel) (o : Outcome) : Prop where
  fd : o.client.ta.resp.fd = (k.closeFdToZero c.ta.resp.fd).1
  kernel : o.kernel = { (k.closeFdToZero c.ta.resp.fd).2 with reallocs := o.kernel.reallocs }
  rc : o.rc = 0 ∨ o.rc = -1

theorem errorBodyTexts_congr {c c' : Client} (status : c'.ta.resp.status = c.ta.resp.status)
    (path : c'.ta.req.path = c.ta.req.path) (buffer : c'.reqHeaders = c.reqHeaders) :
    errorBodyTexts c' = errorBodyTexts c := by
  simp only [errorBodyTexts, status, path, buffer]

theorem prepareErrorResponseBody_spec {c : Client} {k : Kernel} {o : Outcome} (ok : HeadersOk c)
    (h : prepareErrorResponseBody c k = some o) :
    Dropped c k o ∧ (o.rc = 0 → Canned c o.client ∧ o.client.headerBlock =
      c.headerBlock ++ headerLine (ascii "content-type") (ascii "text/plain")) := by
  have drop : HeadersOk (dropBody c k).1 := ⟨ok.size, ok.inside⟩
  have fd : (k.closeFdToZero c.ta.resp.fd).1 =
      if c.ta.resp.fd > 0 then 0 else c.ta.resp.fd := by
    simp only [Kernel.closeFdToZero]
    split <;> rfl
  simp only [prepareErrorResponseBody, headerAddContentType] at h
  rcases headerAdd_cases (ascii "content-type") (ascii "text/plain") drop with
    ⟨r, e, headers⟩ | ⟨r, e, headers, -⟩
  · simp only [e, not_true_eq_false, if_false, Option.map_eq_some_iff] at h
    obtain ⟨texts, known, rfl⟩ := h
    have appended := appendTexts_spec r (dropBody c k).2 texts
    have resp : (appendTexts r (dropBody c k).2 texts).client.ta = r.ta := by
      rw [appended.client]
    refine ⟨⟨?_, appended.kernel, appended.rc⟩, fun done => ⟨⟨?_, ?_, texts, ?_, ?_⟩, ?_⟩⟩
    · rw [resp, headers.same]
      rfl
    · rw [appended.client, headers.same, ← fd]
      rfl
    · rw [appended.client]
      exact ⟨headers.headersOk.size, headers.headersOk.inside⟩
    · rw [← known]
      apply (errorBodyTexts_congr _ _ _).symm <;> rw [headers.same] <;> rfl
    · rw [appended.len done, headers.same]
      exact Int.zero_add _
    · rw [appended.client]
      exact headers.headerBlock
  · simp only [e, Bool.false_eq_true, not_false_eq_true, if_true, Option.some.injEq] at h
    subst h
    refine ⟨⟨?_, rfl, .inr rfl⟩, by simp⟩
    rw [headers.same]
    rfl

def allowValue (flags : Nat) : Bytes :=
  if flags ≠ 0 then (allowBody flags).take ((allowBody flags).length - 2) else ascii "GET, HEAD"

def allowBlock (c : Client) : Bytes :=
  if c.ta.resp.status = .http405MethodNotAllowed then
    headerLine (ascii "allow") (allowValue c.ta.api.allowFlags)
  else []

theorem length_allowBody (flags : Nat) : (allowBody flags).length ≤ 30 := by
  simp only [allowBody, List.length_append]
  have cut (p : Prop) [Decidable p] (text : Bytes) :
      (if p then text else []).length ≤ text.length := by
    split
    · exact Nat.le_refl _
    · exact Nat.zero_le _
  have get := cut (flags &&& HttpMethod.get.bits ≠ 0) (ascii "GET, HEAD, ")
  have put := cut (flags &&& HttpMethod.put.bits ≠ 0) (ascii "PUT, ")
  have post := cut (flags &&& HttpMethod.post.bits ≠ 0) (ascii "POST, ")
  have delete := cut (flags &&& HttpMethod.delete.bits ≠ 0) (ascii "DELETE, ")
  have lengths : (ascii "GET, HEAD, ").length = 11 ∧ (ascii "PUT, ").length = 5 ∧
    (ascii "POST, ").length = 6 ∧ (ascii "DELETE, ").length = 8 := ⟨rfl, rfl, rfl, rfl⟩
  omega

theorem length_allowBlock (c : Client) : (allowBlock c).length ≤ 40 := by
  unfold allowBlock
  split
  · have body := length_allowBody c.ta.api.allowFlags
    have key : (ascii "allow").length = 5 := rfl
    have both : (ascii "GET, HEAD").length = 9 := rfl
    rw [length_headerLine, allowValue]
    split
    · rw [List.length_take]
      omega
    · omega
  · exact Nat.zero_le _

theorem prepareErrorResponseHeaders_spec {c : Client} {r : Result} (ok : HeadersOk c)
    (h : prepareErrorResponseHeaders c = some r) :
    r.ok = true ∧ WithHeaders c (allowBlock c) r.client := by
  have wiped : HeadersOk (resetHeaders c) := ⟨ok.size, Nat.zero_lt_succ _⟩
  have empty : (resetHeaders c).headerBlock = [] := List.take_zero
  have add (value : Bytes) (known : allowBlock c = headerLine (ascii "allow") value)
      (h : some (headerAdd (resetHeaders c) (ascii "allow") (some value)) = some r) :
      r.ok = true ∧ WithHeaders c (allowBlock c) r.client := by
    have short := length_allowBlock c
    have room : 40 < httpBufsz := by decide
    obtain ⟨r', e, headers⟩ := @headerAdd_fits _ (ascii "allow") value wiped
      (by rw [empty, List.nil_append, ← known]; omega)
    rw [e] at h
    cases h
    rw [empty, List.nil_append, ← known] at headers
    exact ⟨rfl, headers.size, headers.inside, headers.same, headers.block⟩
  simp only [prepareErrorResponseHeaders, headerAddAllow] at h
  have status : (resetHeaders c).ta.resp.status = c.ta.resp.status := rfl
  have flags : (resetHeaders c).ta.api.allowFlags = c.ta.api.allowFlags := rfl
  rw [status, flags] at h
  split at h
  · rename_i notAllowed
    split at h
    · rename_i some
      split at h
      · refine add _ ?_ h
        rw [allowBlock, if_pos notAllowed, allowValue, if_pos some]
      · cases h
    · rename_i none
      refine add _ ?_ h
      rw [allowBlock, if_pos notAllowed, allowValue, if_neg none]
  · rename_i other
    cases h
    have block : allowBlock c = [] := if_neg other
    rw [block]
    exact ⟨rfl, ok.size, by decide, rfl, rfl⟩

def cannedBlock (c : Client) : Bytes :=
  (if c.ta.resp.preserveHeadersOnError then c.headerBlock else allowBlock c) ++
    headerLine (ascii "content-type") (ascii "text/plain")

theorem prepareError_spec {c : Client} {k : Kernel} {o : Outcome} (ok : HeadersOk c)
    (keep : c.ta.resp.preserveBodyOnError = false) (h : prepareError c k = some o) :
    Dropped c k o ∧ (o.rc = 0 → Canned c o.client ∧ o.client.headerBlock = cannedBlock c) := by
  simp only [prepareError, keep, Bool.false_eq_true, if_false] at h
  unfold cannedBlock
  split at h
  · rename_i preserve
    rw [if_pos preserve]
    exact prepareErrorResponseBody_spec ok h
  · rename_i wipe
    rw [if_neg wipe]
    split at h
    · cases h
    · rename_i r e
      obtain ⟨fits, headers⟩ := prepareErrorResponseHeaders_spec ok e
      rw [if_pos fits] at h
      obtain ⟨dropped, good⟩ := prepareErrorResponseBody_spec headers.headersOk h
      have fd : r.client.ta.resp.fd = c.ta.resp.fd := by rw [headers.same]; rfl
      refine ⟨⟨by rw [dropped.fd, fd], by rw [dropped.kernel, fd], dropped.rc⟩, fun done => ?_⟩
      obtain ⟨canned, block⟩ := good done
      rw [headers.headerBlock] at block
      refine ⟨⟨?_, canned.headers, ?_⟩, block⟩
      · rw [canned.same, headers.same]
        rfl
      · obtain ⟨texts, known, len⟩ := canned.body
        refine ⟨texts, ?_, len⟩
        rw [← known]
        apply (errorBodyTexts_congr _ _ _).symm <;> rw [headers.same] <;> rfl

structure CannedResponse (c : Client) (k : Kernel) (o : Outcome) : Prop where
  client : ∃ e r, Canned c e ∧ o.client = describeBuffers r ∧ WithHeaders (prepareRespStart e)
    (cannedBlock c ++ lastLines (announcedLength e) ++ ascii "\r\n") r
  kernel : o.kernel = { (k.closeFdToZero c.ta.resp.fd).2 with reallocs := o.kernel.reallocs }

theorem errorResponse_parts {c : Client} {k : Kernel} {o : Outcome} (ok : HeadersOk c)
    (keep : c.ta.resp.preserveBodyOnError = false) (h : errorResponse c k = some o)
    (rc : o.rc = 0) : ∃ e r, prepareError c k = some e ∧ e.rc = 0 ∧ Canned c e.client ∧
      o = { rc := 0, client := describeBuffers r, kernel := e.kernel } ∧
      WithHeaders (prepareRespStart e.client)
        (cannedBlock c ++ lastLines (announcedLength e.client) ++ ascii "\r\n") r := by
  simp only [errorResponse, Option.map_eq_some_iff] at h
  obtain ⟨e, prepared, rfl⟩ := h
  obtain ⟨dropped, good⟩ := prepareError_spec ok keep prepared
  split at rc
  · rename_i failed
    exact absurd rc failed
  · rename_i done
    have done' : e.rc = 0 := by simpa using done
    obtain ⟨canned, block⟩ := good done'
    rw [if_neg done]
    rcases prepareSuccess_cases canned.headers with
      ⟨r, success, headers⟩ | ⟨r, _, failed, -⟩ | ⟨r, failed, -⟩
    · rw [block] at headers
      exact ⟨e, r, prepared, done', canned, by simp only [success, if_true], headers⟩
    · rw [failed] at rc
      cases rc
    · rw [failed] at rc
      cases rc

theorem errorResponse_spec {c : Client} {k : Kernel} {o : Outcome} (ok : HeadersOk c)
    (keep : c.ta.resp.preserveBodyOnError = false) (h : errorResponse c k = some o)
    (rc : o.rc = 0) : CannedResponse c k o := by
  obtain ⟨e, r, prepared, -, canned, rfl, headers⟩ := errorResponse_parts ok keep h rc
  exact ⟨⟨e.client, r, canned, rfl, headers⟩, (prepareError_spec ok keep prepared).1.kernel⟩

/-- A prepared client `c'`, with what it has from the client `c` that the pass began with. -/
structure Described (c : Client) (block : Bytes) (c' : Client) : Prop where
  headers : c'.headerBlock = block
  start : c'.startLine = (prepareRespStart c).startLine
  fd : c'.ta.resp.fd = c.ta.resp.fd
  pos : c'.ta.resp.bodyPos = c.ta.resp.bodyPos
  last : c'.ta.resp.bodyEnd = c.ta.resp.bodyEnd
  buffer : c'.respBody = c.respBody
  method : c'.ta.req.method = c.ta.req.method
  body : c'.ta.resp.bufs.body.len = if c.ta.resp.fd = 0 ∧ c.ta.req.method ≠ .head then
    toSizeT (c.respBody.len - c.ta.resp.bodyPos) else c.ta.resp.bufs.body.len

theorem WithHeaders.described {c r : Client} {block : Bytes}
    (h : WithHeaders (prepareRespStart c) block r) : Described c block (describeBuffers r) := by
  have headers := h.headerBlock
  have same := h.same
  generalize r.respHeaders = buf at same
  subst same
  refine ⟨?_, ?_, rfl, rfl, rfl, rfl, rfl, ?_⟩
  · refine Eq.trans ?_ headers
    rw [Client.headerBlock, describeBuffers_bufs]
    rfl
  · rw [Client.startLine, describeBuffers_bufs]
    rfl
  · rw [describeBuffers_bufs]
    split <;> rename_i isBody
    · have isBody : c.ta.resp.fd = 0 ∧ c.ta.req.method ≠ .head := isBody
      rw [if_pos isBody]
      rfl
    · have isBody : ¬ (c.ta.resp.fd = 0 ∧ c.ta.req.method ≠ .head) := isBody
      rw [if_neg isBody]
      rfl

theorem prepareResponse_spec {c c' : Client} {k k' : Kernel} (ok : HeadersOk c)
    (keep : c.ta.resp.preserveBodyOnError = false)
    (room : c.headerBlock.length + 58 < httpBufsz)
    (small : c.ta.resp.status.isError = false → (announcedLength c).natAbs < 2 ^ 64)
    (h : prepareResponse c k = some { rc := 0, client := c', kernel := k' }) :
    (c.ta.resp.status.isError = false ∧
      Described c (c.headerBlock ++ lastLines (announcedLength c) ++ ascii "\r\n") c') ∨
    (c.ta.resp.status.isError = true ∧ ∃ e, Canned c e ∧
      Described e (cannedBlock c ++ lastLines (announcedLength e) ++ ascii "\r\n") c') := by
  simp only [prepareResponse] at h
  split at h
  · cases h
  · split at h
    · rename_i error
      obtain ⟨⟨e, r, canned, client, headers⟩, -⟩ := errorResponse_spec ok keep h rfl
      simp only at client
      rw [client]
      exact .inr ⟨error, e, canned, headers.described⟩
    · rename_i good
      have good : c.ta.resp.status.isError = false := by simpa using good
      obtain ⟨r, success, headers⟩ := prepareSuccess_room ok room (small good)
      simp only [success, if_true, Option.some.injEq, Outcome.mk.injEq, true_and] at h
      rw [← h.1]
      exact .inl ⟨good, headers.described⟩

theorem headerAddAllow_some {c : Client} {r : Result} (h : headerAddAllow c = some r) :
    ∃ value, r = headerAdd c (ascii "allow") value := by
  unfold headerAddAllow at h
  split at h
  · simp only at h
    split at h
    · exact ⟨_, (Option.some.inj h).symm⟩
    · cases h
  · exact ⟨_, (Option.some.inj h).symm⟩

/-- A relation of clients and kernels that each step of `kitserv_http_prepare_response` establishes. -/
structure PrepareRule (R : Client → Kernel → Client → Kernel → Prop) : Prop where
  refl : ∀ c k, R c k c k
  trans : ∀ {c k c' k' c'' k''}, R c k c' k' → R c' k' c'' k'' → R c k c'' k''
  line : ∀ c k, R c k (prepareRespStart c) k
  header : ∀ c k key value, R c k (headerAdd c key value).client k
  emptyLine : ∀ c k, R c k (c.setHeaders
    (strAppend c.respHeaders c.ta.resp.bufs.headers.len httpBufsz (some (ascii "\r\n"))).buf
    (strAppend c.respHeaders c.ta.resp.bufs.headers.len httpBufsz (some (ascii "\r\n"))).len) k
  unended : ∀ c k, R c k (c.setFd HttpStatus.http507InsufficientStorage.code) k
  describe : ∀ c k, R c k (describeBuffers c) k
  wipe : ∀ c k, R c k (resetHeaders c) k
  drop : ∀ c k, R c k (dropBody c k).1 (dropBody c k).2
  texts : ∀ c k texts, R c k (appendTexts c k texts).client (appendTexts c k texts).kernel

namespace PrepareRule

variable {R : Client → Kernel → Client → Kernel → Prop} {c : Client} {k : Kernel} {o : Outcome}

theorem success (rule : PrepareRule R) (c : Client) (k : Kernel) :
    R c k (prepareSuccess c).client k := by
  have length := rule.trans (rule.line c k)
    (rule.header (prepareRespStart c) k (ascii "content-length") (some (decimal (announcedLength c))))
  unfold prepareSuccess headerAddContentLength
  simp only
  split
  · exact length
  · generalize (headerAdd (prepareRespStart c) (ascii "content-length")
      (some (decimal (announcedLength c)))).client = r at length
    have server := rule.trans length (rule.header r k (ascii "server") (some serverName))
    split
    · exact server
    · generalize (headerAdd r (ascii "server") (some serverName)).client = r' at server
      have ended := rule.trans server (rule.emptyLine r' k)
      split
      · exact rule.trans ended (rule.unended _ k)
      · exact rule.trans ended (rule.describe _ k)

theorem errorBody (rule : PrepareRule R) (h : prepareErrorResponseBody c k = some o) :
    R c k o.client o.kernel := by
  have typed : R c k (headerAddContentType (dropBody c k).1 (ascii "text/plain")).client
      (dropBody c k).2 := rule.trans (rule.drop c k) (rule.header ..)
  simp only [prepareErrorResponseBody] at h
  split at h
  · cases h
    exact typed
  · simp only [Option.map_eq_some_iff] at h
    obtain ⟨texts, -, rfl⟩ := h
    exact rule.trans typed (rule.texts ..)

theorem errorHeaders (rule : PrepareRule R) (k : Kernel) {r : Result}
    (h : prepareErrorResponseHeaders c = some r) : R c k r.client k := by
  simp only [prepareErrorResponseHeaders] at h
  split at h
  · obtain ⟨value, rfl⟩ := headerAddAllow_some h
    exact rule.trans (rule.wipe c k) (rule.header ..)
  · cases h
    exact rule.wipe c k

theorem error (rule : PrepareRule R) (h : prepareError c k = some o) :
    R c k o.client o.kernel := by
  unfold prepareError at h
  split at h
  · cases h
    exact rule.refl c k
  · split at h
    · exact rule.errorBody h
    · split at h
      · cases h
      · rename_i r headers
        have allowed := rule.errorHeaders k headers
        split at h
        · exact rule.trans allowed (rule.errorBody h)
        · cases h
          exact allowed

theorem errorResponse (rule : PrepareRule R) (h : errorResponse c k = some o) :
    R c k o.client o.kernel := by
  simp only [Kitserv.errorResponse, Option.map_eq_some_iff] at h
  obtain ⟨e, prepared, rfl⟩ := h
  split
  · exact rule.error prepared
  · exact rule.trans (rule.error prepared) (rule.success ..)

/-- What its steps establish, `kitserv_http_prepare_response` does. -/
theorem prepared (rule : PrepareRule R) (h : prepareResponse c k = some o) :
    R c k o.client o.kernel := by
  unfold prepareResponse at h
  split at h
  · cases h
    exact rule.refl c k
  · split at h
    · exact rule.errorResponse h
    · simp only at h
      split at h
      · cases h
        exact rule.success c k
      · exact rule.trans (rule.success c k) (rule.errorResponse h)

end PrepareRule

end Kitserv
