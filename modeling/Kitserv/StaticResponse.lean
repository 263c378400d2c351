import Kitserv.SlotReuse
import Kitserv.Twins

namespace Kitserv

open Memory

def fileBytes (content : Int → Bytes) (c : Client) : Bytes :=
  if 0 < c.ta.resp.fd ∧ c.ta.req.method ≠ .head then
    slice (content c.ta.resp.fd) c.ta.resp.bodyPos.toNat (c.ta.resp.bodyEnd + 1).toNat
  else []

/-- The bytes of a prepared response; `outside` is what stands behind the buffers. -/
def responseBytes (outside : Nat → Byte) (content : Int → Bytes) (c : Client) : Bytes :=
  describedBytes outside c ++ fileBytes content c

def cannedLength (c : Client) (texts : List Bytes) : Int :=
  if c.ta.resp.fd < 0 then 1 else texts.flatten.length

def cannedBody (c : Client) (texts : List Bytes) : Bytes :=
  if c.ta.resp.fd < 0 ∨ c.ta.req.method = .head then [] else texts.flatten

def staticResponse (content : Int → Bytes) (c : Client) : Bytes :=
  getVersionString c.ta.req.version ++ getStatusString c.ta.resp.status ++
    if c.ta.resp.status.isError then
      let texts := (errorBodyTexts c).getD []
      cannedBlock c ++ lastLines (cannedLength c texts) ++ ascii "\r\n" ++ cannedBody c texts
    else c.headerBlock ++ lastLines (announcedLength c) ++ ascii "\r\n" ++ fileBytes content c

section Described

variable {c e r : Client} {block : Bytes}

theorem iovecBytes_text (outside : Nat → Byte) {buf text : Bytes} {n : Nat}
    (stored : buf.take n = text) (inside : n ≤ buf.length) :
    Iovec.bytes outside buf { base := 0, len := n } = text := by
  have len : n = text.length := by rw [← stored, List.length_take, Nat.min_eq_left inside]
  subst len
  exact iovecBytes_iff.mpr stored outside

theorem iovecBytes_empty (outside : Nat → Byte) (buf : Bytes) {v : Iovec} (empty : v.len = 0) :
    v.bytes outside buf = [] := by
  rw [Iovec.bytes, empty]
  rfl

theorem len_strAppend_le (buf : Bytes) {offset max : Nat} (value : Rendering) (inside : offset ≤ max)
    (small : max < 2 ^ 64) : (strAppend buf offset max value).len ≤ max := by
  cases value with
  | none => exact inside
  | some text =>
    have room : toSizeT ((max : Int) - offset) = max - offset := by
      unfold toSizeT
      omega
    simp only [strAppend, room]
    split
    · exact inside
    · simp only
      omega

/-- The head that the success path describes, and the body behind it. -/
theorem describedBytes_head (outside : Nat → Byte) (size : e.respStart.length = httpBufszSmall)
    (h : WithHeaders (prepareRespStart e) block r) :
    describedBytes outside (describeBuffers r) =
      getVersionString e.ta.req.version ++ getStatusString e.ta.resp.status ++ block ++
        (describeBuffers r).ta.resp.bufs.body.bytes outside e.respBody.buf := by
  obtain ⟨length, text⟩ := prepareRespStart_line size
  have short : (prepareRespStart e).ta.resp.bufs.start.len ≤ (prepareRespStart e).respStart.length := by
    rw [length]
    exact len_strAppend_le _ _ (len_strAppend_le _ _ (Nat.zero_le _) (by decide)) (by decide)
  have start : Iovec.bytes outside (prepareRespStart e).respStart
      { base := 0, len := (prepareRespStart e).ta.resp.bufs.start.len } = _ :=
    iovecBytes_text outside text short
  have headers : Iovec.bytes outside r.respHeaders { base := 0, len := block.length } = block :=
    iovecBytes_text outside h.block (by rw [h.size]; exact Nat.le_of_lt h.inside)
  have same := h.same
  generalize r.respHeaders = buf at same headers
  subst same
  rw [describedBytes, describeBuffers_bufs]
  exact congrArg₂ (· ++ ·) (congrArg₂ (· ++ ·) start headers) rfl

end Described

section Prepared

variable {content : Int → Bytes} {method : HttpMethod} {size : Int} {c : Client} {k : Kernel}

theorem Presented.success_bytes (p : Presented method size c)
    (start : c.respStart.length = httpBufszSmall) (alive : c.ta.resp.status ≠ .xHangup)
    (good : c.ta.resp.status.isError = false)
    (bodyless : c.ta.resp.fd ≠ 0 ∨ c.ta.req.method = .head) :
    ∃ r, prepareResponse c k = some { rc := 0, client := r, kernel := k } ∧
      ∀ outside, responseBytes outside content r = staticResponse content c := by
  obtain ⟨low, high, least, most, -⟩ := p.ranged good
  have short := p.short
  have len := p.len
  have large : httpBufsz = 4096 := rfl
  have small : (announcedLength c).natAbs < 2 ^ 64 := by
    unfold announcedLength
    split <;> omega
  obtain ⟨r, success, headers⟩ := prepareSuccess_room p.headers (by omega) small
  refine ⟨describeBuffers r, ?_, fun outside => ?_⟩
  · simp only [prepareResponse, alive, good, Bool.false_eq_true, if_false, success, if_true]
  have described := headers.described
  have noBody : (describeBuffers r).ta.resp.bufs.body.len = 0 := by
    rw [described.body, if_neg, p.noBody]
    rintro ⟨none, other⟩
    exact bodyless.elim (absurd none) (fun head => absurd head other)
  rw [responseBytes, describedBytes_head outside start headers, iovecBytes_empty outside _ noBody,
    fileBytes, described.fd, described.method, described.pos, described.last]
  simp only [staticResponse, good, Bool.false_eq_true, if_false, fileBytes, List.append_nil,
    List.append_assoc]

theorem prepareError_filled {texts : List Bytes} (p : Presented method size c)
    (whole : c.respBody.Whole) (flags : c.ta.api.allowFlags = 0)
    (known : errorBodyTexts c = some texts) (short : texts.flatten.length < httpBufsz) :
    ∃ e, prepareError c k = some e ∧ e.rc = 0 ∧ e.client.respBody.Filled texts.flatten := by
  have room := p.short
  have large : httpBufsz = 4096 := rfl
  have max := whole.max
  have block := whole.size
  simp only [prepareError, p.keep, Bool.false_eq_true, if_false]
  split
  · exact prepareErrorResponseBody_exists p.headers (by omega) known (by omega) (by omega)
  · obtain ⟨r, wiped⟩ := (@prepareErrorResponseHeaders_iff c).mpr fun _ => .inl flags
    obtain ⟨done, headers⟩ := prepareErrorResponseHeaders_spec p.headers wiped
    obtain ⟨known', body'⟩ := prepareErrorResponseHeaders_texts p.headers wiped
    have allow := length_allowBlock c
    simp only [wiped, done, if_true]
    refine prepareErrorResponseBody_exists headers.headersOk ?_ (known'.trans known) ?_ ?_
    · rw [headers.headerBlock]
      omega
    · rw [body']
      omega
    · rw [body']
      omega

theorem canned_body {texts : List Bytes} {e r : Client} {block : Bytes} {outside : Nat → Byte}
    (p : Presented method size c) (canned : Canned c e) (headers : WithHeaders (prepareRespStart e) block r)
    (filled : e.respBody.Filled texts.flatten) (small : texts.flatten.length < httpBufsz) :
    (describeBuffers r).ta.resp.bufs.body.bytes outside e.respBody.buf = cannedBody c texts := by
  have large : httpBufsz = 4096 := rfl
  have fd : e.ta.resp.fd = if c.ta.resp.fd > 0 then 0 else c.ta.resp.fd := by rw [canned.same]
  have pos : e.ta.resp.bodyPos = 0 := by rw [canned.same]
  have method : e.ta.req.method = c.ta.req.method := by rw [canned.same]
  have noBody : e.ta.resp.bufs.body.len = 0 := by
    rw [canned.same]
    exact p.noBody
  by_cases none : c.ta.resp.fd < 0 ∨ c.ta.req.method = .head
  · rw [cannedBody, if_pos none]
    refine iovecBytes_empty outside _ ?_
    rw [headers.described.body, if_neg, noBody]
    rw [fd, method]
    rintro ⟨closed, other⟩
    rcases none with marker | head
    · rw [if_neg (by omega)] at closed
      omega
    · exact other head
  · obtain ⟨owned, other⟩ := not_or.mp none
    have closed : e.ta.resp.fd = 0 := by
      rw [fd]
      split <;> omega
    have len : toSizeT e.respBody.len = texts.flatten.length := by
      have len := filled.len
      have same := toSizeT_of_nonneg (x := e.respBody.len) (by omega) (by omega)
      omega
    have same := headers.same
    have described : (describeBuffers r).ta.resp.bufs.body =
        { base := 0, len := texts.flatten.length } := by
      have isBody : r.ta.resp.fd = 0 ∧ r.ta.req.method ≠ .head := by
        rw [same]
        exact ⟨closed, method ▸ other⟩
      have from0 : r.ta.resp.bodyPos = 0 := by
        rw [same]
        exact pos
      have buffer : r.respBody = e.respBody := by
        rw [same]
        rfl
      rw [describeBuffers_bufs, if_pos isBody, from0, buffer, Int.sub_zero, len]
      rfl
    rw [described, cannedBody, if_neg none]
    exact iovecBytes_iff.mpr filled.contents outside

theorem Presented.canned_bytes {texts : List Bytes} (p : Presented method size c)
    (start : c.respStart.length = httpBufszSmall) (alive : c.ta.resp.status ≠ .xHangup)
    (error : c.ta.resp.status.isError = true) (whole : c.respBody.Whole)
    (flags : c.ta.api.allowFlags = 0) (known : errorBodyTexts c = some texts)
    (short : texts.flatten.length < httpBufsz) :
    ∃ r l, prepareResponse c k = some { rc := 0, client := r, kernel := l } ∧
      ∀ outside, responseBytes outside content r = staticResponse content c := by
  have large : httpBufsz = 4096 := rfl
  obtain ⟨e, prepared, rc, filled⟩ := prepareError_filled (k := k) p whole flags known short
  obtain ⟨canned, block⟩ := (prepareError_spec p.headers p.keep prepared).2 rc
  have fd : e.client.ta.resp.fd = if c.ta.resp.fd > 0 then 0 else c.ta.resp.fd := by
    rw [canned.same]
  have pos : e.client.ta.resp.bodyPos = 0 := by rw [canned.same]
  have last : e.client.ta.resp.bodyEnd = 0 := by rw [canned.same]
  have len := filled.len
  have length : announcedLength e.client = cannedLength c texts := by
    rw [announcedLength, cannedLength, fd, pos, last, len]
    split <;> split <;> split <;> omega
  have small : (announcedLength e.client).natAbs < 2 ^ 64 := by
    rw [length, cannedLength]
    split <;> omega
  have head : e.client.headerBlock.length ≤ 224 := by
    have type : (headerLine (ascii "content-type") (ascii "text/plain")).length = 26 := rfl
    have allow := length_allowBlock c
    have room := p.short
    rw [block, cannedBlock, List.length_append, type]
    split <;> omega
  obtain ⟨r, success, headers⟩ := prepareSuccess_room canned.headers (by omega) small
  rw [block] at headers
  refine ⟨describeBuffers r, e.kernel, ?_, fun outside => ?_⟩
  · simp only [prepareResponse, alive, if_false, error, if_true, errorResponse, prepared,
      Option.map_some, rc, ne_eq, not_true_eq_false, success]
  have described := headers.described
  have noFile : ¬ 0 < (describeBuffers r).ta.resp.fd := by
    rw [described.fd, fd]
    split <;> omega
  have version : e.client.ta.req.version = c.ta.req.version := by rw [canned.same]
  have status : e.client.ta.resp.status = c.ta.resp.status := by rw [canned.same]
  rw [responseBytes, describedBytes_head outside (by rw [canned.respStart]; exact start) headers,
    canned_body p canned headers filled short, fileBytes, if_neg fun sent => noFile sent.1, length,
    version, status]
  simp only [staticResponse, error, if_true, known, Option.getD_some, List.append_nil,
    List.append_assoc]

end Prepared

section Ends

variable {s : Server} {lib : TimeLib} {c r : Client} {k : Kernel} {st : Stat}

structure StaticEnd (r : Client) : Prop where
  alive : r.ta.resp.status ≠ .xHangup
  bodyless : r.ta.resp.status.isError = false → r.ta.resp.fd ≠ 0 ∨ r.ta.req.method = .head

theorem StaticEnd.of_error (error : r.ta.resp.status.isError = true)
    (alive : r.ta.resp.status ≠ .xHangup) : StaticEnd r :=
  ⟨alive, fun good => absurd (error.symm.trans good) Bool.noConfusion⟩

theorem describeFile_end (a : Accepted c) {fd : Int} {errno : Errno} {fname : Bytes}
    (target : fd ≠ 0) : StaticEnd (describeFile lib (c.setFd fd) k errno fname st).client := by
  have block : (c.setFd fd).headerBlock = [] := a.headerBlock
  have pos : (c.setFd fd).ta.resp.bodyPos = 0 := by
    have resp := a.resp
    simp only [Client.setFd, resp]
  have spec := @fileEnd_spec lib (c.setFd fd) fname st ⟨a.headersSize, a.headersOk.inside⟩
    (by rw [block]; decide) pos
  rw [describeFile_eq]
  revert spec
  cases fileEnd lib ((c.setFd fd).wholeFile st) fname st with
  | error r =>
    rintro ⟨-, error, -⟩
    refine .of_error error.isError ?_
    rcases error with h | h | h <;> exact h ▸ HttpStatus.noConfusion
  | unmodified r => exact fun _ => ⟨HttpStatus.noConfusion, fun _ => .inr rfl⟩
  | full r =>
    rintro ⟨known, -⟩
    have fd : r.ta.resp.fd = fd := known.fd
    simp only [serveFile]
    split
    · exact ⟨HttpStatus.noConfusion, fun _ => .inl (fd ▸ target)⟩
    · exact ⟨HttpStatus.noConfusion, fun _ => .inl (fd ▸ target)⟩

theorem handleStaticPath_end (a : Accepted c) (path : Bytes) (ctx : Option RequestContext) :
    StaticEnd (handleStaticPath s c k path ctx).client := by
  have choice := pathChoice_spec s c k path ctx
  unfold handleStaticPath
  simp only
  split
  · exact .of_error rfl HttpStatus.noConfusion
  revert choice
  unfold pathChoice
  generalize tryPaths c _ _ _ = found
  cases found with
  | stop c' k' errno =>
    rintro ⟨-, status, rfl, error⟩
    rcases error (by rw [a.resp]) with rfl | rfl | rfl <;> exact .of_error rfl HttpStatus.noConfusion
  | pathSet fname st c' k' errno =>
    rintro ⟨-, rfl⟩
    simp only [pathSet_eq]
    split
    · rcases k'.openRdonly fname with ⟨e | fd, l⟩
      · exact .of_error rfl HttpStatus.noConfusion
      · exact describeFile_end a (Int.ne_of_gt fd.pos)
    · exact describeFile_end a (by decide)

theorem serveStatic_end (a : Accepted c) : StaticEnd (serveStatic s c k).client := by
  have ends := @handleStaticPath_end s c k a
    ((c.ta.req.path.map (cString c.reqHeaders)).getD []) none
  exact ⟨ends.alive, ends.bodyless⟩

/-- A client whose answer to a static request can be prepared: the first sizes of the buffers, and a path
that fits into a canned text. -/
structure Answerable (c : Client) : Prop extends Accepted c where
  start : c.respStart.length = httpBufszSmall
  whole : c.respBody.Whole
  flags : c.ta.api.allowFlags = 0
  path : ∃ q, c.ta.req.path = some q ∧ (cString c.reqHeaders q).length + 11 < httpBufsz

theorem errorBodyTexts_of_path {q : Nat} (path : c.ta.req.path = some q) :
    ∃ texts, errorBodyTexts c = some texts := by
  unfold errorBodyTexts
  split
  case h_3 => exact ⟨_, by rw [path]; rfl⟩
  all_goals exact ⟨_, rfl⟩

def PathChoice.size : PathChoice → Int
  | stop .. => 0
  | pathSet _ st .. => st.size

/-- A static request always gets a response, and the response is what static serving has left. -/
theorem Answerable.prepared (a : Answerable c) (content : Int → Bytes) :
    ∃ r l, prepareResponse (serveStatic s c k).client (serveStatic s c k).kernel =
        some { rc := 0, client := r, kernel := l } ∧
      ∀ outside, responseBytes outside content r =
        staticResponse content (serveStatic s c k).client := by
  have p := @serveStatic_presented s c k a.toAccepted (staticChoice s c k).size
    fun fname st c' k' errno found => by rw [found]; rfl
  have ends := @serveStatic_end s c k a.toAccepted
  obtain ⟨body, start, api, path, buffer⟩ := serveStatic_leaves s c k
  have line := a.start
  rw [← start] at line
  obtain ⟨q, asked, short⟩ := a.path
  generalize (serveStatic s c k).client = o at p ends line api path buffer body ⊢
  have fits : PathFits o := by
    intro _ q' asked'
    rw [path, asked] at asked'
    cases asked'
    rwa [buffer]
  have whole : o.respBody.Whole := body ▸ a.whole
  obtain ⟨texts, known⟩ := errorBodyTexts_of_path (path.trans asked)
  cases error : o.ta.resp.status.isError with
  | true =>
    exact p.canned_bytes line ends.alive error whole
      ((congrArg _ api).trans a.flags) known (fits.texts known)
  | false =>
    obtain ⟨r, prepared, bytes⟩ :=
      @Presented.success_bytes content _ _ o (serveStatic s c k).kernel p line ends.alive
        error (ends.bodyless error)
    exact ⟨r, _, prepared, bytes⟩

end Ends

section Pairs

variable {content content' : Int → Bytes} {s : Server} {c c' : Client} {k k' : Kernel}

theorem SameFile.sign {fd fd' : Int} (file : SameFile content content' fd fd') :
    (fd' < 0 ↔ fd < 0) ∧ (fd' = 0 ↔ fd = 0) ∧ (0 < fd' ↔ 0 < fd) := by
  rcases file with ⟨rfl, -⟩ | ⟨opened, opened', -⟩
  · exact ⟨Iff.rfl, Iff.rfl, Iff.rfl⟩
  · omega

theorem fileBytes_twins (twins : Twins content content' c c') :
    fileBytes content' c' = fileBytes content c := by
  have pos : c'.ta.resp.bodyPos = c.ta.resp.bodyPos := by rw [twins.resp]
  have last : c'.ta.resp.bodyEnd = c.ta.resp.bodyEnd := by rw [twins.resp]
  have method : c'.ta.req.method = c.ta.req.method := by rw [twins.req]
  rw [fileBytes, fileBytes, pos, last, method]
  rcases twins.file with ⟨same, none⟩ | ⟨opened, opened', same⟩
  · rw [if_neg (by omega), if_neg (by omega)]
  · rw [same]
    exact if_congr (and_congr_left fun _ => iff_of_true opened' opened) rfl rfl

theorem staticResponse_twins (twins : Twins content content' c c') :
    staticResponse content' c' = staticResponse content c := by
  obtain ⟨negative, zero, -⟩ := twins.file.sign
  have pos : c'.ta.resp.bodyPos = c.ta.resp.bodyPos := by rw [twins.resp]
  have last : c'.ta.resp.bodyEnd = c.ta.resp.bodyEnd := by rw [twins.resp]
  have preserve : c'.ta.resp.preserveHeadersOnError = c.ta.resp.preserveHeadersOnError := by
    rw [twins.resp]
  have announced : announcedLength c' = announcedLength c := by
    simp only [announcedLength, pos, last, twins.body, ne_eq, zero]
  have texts : errorBodyTexts c' = errorBodyTexts c := by
    have path := twins.path
    unfold errorBodyTexts
    rw [twins.status]
    split
    case h_3 =>
      have found := congrArg (Option.map fun text => [ascii "Not found: ", text]) path
      rw [Option.map_map, Option.map_map] at found
      exact found
    all_goals rfl
  simp only [staticResponse, cannedBlock, allowBlock, cannedLength, cannedBody, twins.status, twins.req,
    twins.flags, twins.block, preserve, announced, texts, negative, fileBytes_twins twins]

/-- Static serving of the same request on two clients prepares the same response. -/
theorem static_responses_agree (a : Answerable c) (a' : Answerable c')
    (twins : Twins content content' c c') (files : SameFiles content content' k k')
    (errno : k'.errnos.headD .zero = k.errnos.headD .zero) : ∃ r l r' l',
    prepareResponse (serveStatic s c k).client (serveStatic s c k).kernel =
        some { rc := 0, client := r, kernel := l } ∧
      prepareResponse (serveStatic s c' k').client (serveStatic s c' k').kernel =
        some { rc := 0, client := r', kernel := l' } ∧
      ∀ outside outside',
        responseBytes outside content r = responseBytes outside' content' r' := by
  obtain ⟨r, l, prepared, bytes⟩ := @Answerable.prepared s c k a content
  obtain ⟨r', l', prepared', bytes'⟩ := @Answerable.prepared s c' k' a' content'
  refine ⟨r, l, r', l', prepared, prepared', fun outside outside' => ?_⟩
  rw [bytes, bytes', staticResponse_twins (serveStatic_twins twins files errno s)]

end Pairs

end Kitserv
