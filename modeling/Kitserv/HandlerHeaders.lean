import Kitserv.ApiFrame

namespace Kitserv

abbrev Header := Bytes × Bytes

def Header.line (h : Header) : Bytes := headerLine h.1 h.2

/-- The header block is made of lines, each with a key and a value that are `proper`. -/
structure HeaderLines (proper : Header → Prop) (c : Client) : Prop where
  headers : HeadersOk c
  lines : ∃ hs : List Header, (∀ h ∈ hs, proper h) ∧ c.headerBlock = hs.flatMap Header.line

variable {proper : Header → Prop} {c r : Client}

theorem HeaderLines.frame (ok : HeaderLines proper c) (buf : r.respHeaders = c.respHeaders)
    (len : r.ta.resp.bufs.headers.len = c.ta.resp.bufs.headers.len) : HeaderLines proper r := by
  refine ⟨⟨?_, ?_⟩, ?_⟩
  · rw [buf]
    exact ok.headers.size
  · rw [len]
    exact ok.headers.inside
  · simp only [Client.headerBlock, buf, len]
    exact ok.lines

theorem HeaderLines.empty (size : c.respHeaders.length = httpBufsz)
    (empty : c.ta.resp.bufs.headers.len = 0) : HeaderLines proper c := by
  refine ⟨⟨size, ?_⟩, [], by simp, ?_⟩
  · rw [empty]
    decide
  · rw [Client.headerBlock, empty]
    rfl

theorem headerAdd_none (ok : HeadersOk c) (key : Bytes) :
    (headerAdd c key none).ok = false ∧ HeadersOk (headerAdd c key none).client ∧
      (headerAdd c key none).client.headerBlock = c.headerBlock := by
  have used := ok.length_headerBlock
  rcases strAppend_cases (key ++ ascii ": ") ok.size ok.inside with
    ⟨buf, e, size, -, text⟩ | ⟨buf, e, size, -, text⟩
  · have value : strAppend buf (c.ta.resp.bufs.headers.len + (key ++ ascii ": ").length) httpBufsz
        none = { ok := false, buf := buf,
                 len := c.ta.resp.bufs.headers.len + (key ++ ascii ": ").length } := rfl
    have kept : buf.take c.ta.resp.bufs.headers.len = c.headerBlock := by
      have shorter := congrArg (List.take c.ta.resp.bufs.headers.len) text
      rw [List.take_take, Nat.min_eq_left (by omega)] at shorter
      exact shorter.trans (List.take_left' used)
    simp only [headerAdd, e, value, not_true_eq_false, if_false, Bool.false_eq_true,
      not_false_eq_true, if_true, headerTooLarge]
    exact ⟨trivial, ⟨size, ok.inside⟩, kept⟩
  · simp only [headerAdd, e, Bool.false_eq_true, not_false_eq_true, if_true, headerTooLarge]
    exact ⟨trivial, ⟨size, ok.inside⟩, text⟩

theorem HeaderLines.headerAdd (ok : HeaderLines proper c) (key : Bytes) {value : Rendering}
    (good : ∀ text, value = some text → proper (key, text)) :
    HeaderLines proper (headerAdd c key value).client := by
  obtain ⟨hs, all, block⟩ := ok.lines
  cases value with
  | none =>
    obtain ⟨-, headers, same⟩ := headerAdd_none ok.headers key
    exact ⟨headers, hs, all, same.trans block⟩
  | some text =>
    rcases headerAdd_cases key text ok.headers with ⟨r, e, added⟩ | ⟨r, e, kept, -⟩
    · rw [e]
      refine ⟨added.headersOk, hs ++ [(key, text)], ?_, ?_⟩
      · intro h member
        rcases List.mem_append.mp member with earlier | last
        · exact all h earlier
        · rw [List.mem_singleton.mp last]
          exact good text rfl
      · rw [added.headerBlock, block]
        simp [Header.line]
    · rw [e]
      exact ⟨⟨kept.headersOk.size, kept.headersOk.inside⟩, hs, all, kept.headerBlock.trans block⟩

theorem proper_line {key value : Bytes} (good : proper (key, value)) :
    ∀ text, some value = some text → proper (key, text) := by
  rintro text ⟨⟩
  exact good

theorem HeaderLines.lastModified (ok : HeaderLines proper c) {lib : TimeLib} {time : Int}
    (good : ∀ date, lib.strftime time = some date → proper (ascii "last-modified", date)) :
    HeaderLines proper (headerAddLastModified lib c time).client := by
  unfold headerAddLastModified
  split
  · exact ok
  · rename_i date shown
    split
    · exact ok
    · exact ok.headerAdd _ (proper_line (good date shown))

structure StaticHeaders (lib : TimeLib) (proper : Header → Prop) : Prop where
  type : ∀ extension, proper (ascii "content-type", guessMimeType extension)
  ranges : proper (ascii "accept-ranges", ascii "bytes")
  modified : ∀ time date, lib.strftime time = some date → proper (ascii "last-modified", date)
  range : ∀ first last total, proper (ascii "content-range",
    ascii "bytes " ++ decimal first ++ ascii "-" ++ decimal last ++ ascii "/" ++ decimal total)
  unsatisfied : ∀ total, proper (ascii "content-range", ascii "*/" ++ decimal total)

section Static

variable {lib : TimeLib}

theorem HeaderLines.handleRange (ok : HeaderLines proper c) (static : StaticHeaders lib proper)
    (st : Stat) : HeaderLines proper (handleRange c st).client := by
  unfold Kitserv.handleRange
  split
  · exact ok
  · rcases parseRangeRequest_cases c st.size with
      ⟨-, request⟩ | ⟨range, -, -, request⟩ | ⟨range, r, -, -, request⟩
    · simp only [request, Client.setStatus, Bool.false_eq_true, if_false, ne_eq, not_true_eq_false]
      exact ok.frame rfl rfl
    · have status : (c.setStatus .http416RangeNotSatisfiable).ta.resp.status =
        .http416RangeNotSatisfiable := rfl
      simp only [request, status, Bool.false_eq_true, if_false, if_true, ne_eq, reduceCtorEq,
        not_false_eq_true]
      have start : HeaderLines proper (c.setStatus .http416RangeNotSatisfiable) := ok.frame rfl rfl
      exact (start.headerAdd _ (proper_line (static.unsatisfied st.size))).frame rfl rfl
    · simp only [request, if_true, headerAddContentRange]
      have start : HeaderLines proper (c.setRange r) := ok.frame rfl rfl
      have added := start.headerAdd (ascii "content-range") (proper_line (static.range r.first r.last st.size))
      split
      · exact added
      · exact added.frame rfl rfl

theorem HeaderLines.addFileHeaders (ok : HeaderLines proper c) (static : StaticHeaders lib proper)
    (fname : Bytes) (st : Stat) : HeaderLines proper (addFileHeaders lib c fname st).client := by
  have type := ok.headerAdd (ascii "content-type") (proper_line (static.type (extension fname)))
  unfold Kitserv.addFileHeaders headerAddContentTypeGuess
  simp only
  split
  · exact type
  · have ranges := type.headerAdd (ascii "accept-ranges") (proper_line static.ranges)
    split
    · exact ranges
    · exact ranges.lastModified (static.modified st.mtime)

theorem HeaderLines.fileEnd (ok : HeaderLines proper c) (static : StaticHeaders lib proper)
    (fname : Bytes) (st : Stat) : HeaderLines proper (fileEnd lib c fname st).client := by
  have range := ok.handleRange static st
  have headers := range.addFileHeaders static fname st
  unfold Kitserv.fileEnd
  simp only
  split
  · exact range
  · split
    · exact headers.frame rfl rfl
    · split
      · exact headers
      · split
        · exact headers.frame rfl rfl
        · split <;> exact headers

theorem HeaderLines.describeFile (ok : HeaderLines proper c) (static : StaticHeaders lib proper)
    (k : Kernel) (errno : Errno) (fname : Bytes) (st : Stat) :
    HeaderLines proper (describeFile lib c k errno fname st).client := by
  have whole : HeaderLines proper (c.wholeFile st) := ok.frame rfl rfl
  have described := whole.fileEnd static fname st
  rw [describeFile_eq]
  revert described
  cases Kitserv.fileEnd lib (c.wholeFile st) fname st <;> exact fun described => described.frame rfl rfl

theorem HeaderLines.handleStaticPath {s : Server} (ok : HeaderLines proper c)
    (static : StaticHeaders s.time proper) (k : Kernel) (path : Bytes)
    (ctx : Option RequestContext) : HeaderLines proper (handleStaticPath s c k path ctx).client := by
  unfold Kitserv.handleStaticPath
  simp only
  split
  · exact ok.frame rfl rfl
  · have choice := tryPaths_spec c k.staleErrno.2 k.staleErrno.1
      (candidates (ctx.getD s.defaultContext) ((c.ta.req.path.map (cString c.reqHeaders)).getD []) path)
    revert choice
    generalize tryPaths c k.staleErrno.2 k.staleErrno.1 _ = found
    cases found with
    | stop c' k' e =>
      rintro ⟨-, value, rfl, -⟩
      exact ok.frame rfl rfl
    | pathSet fname st c' k' e =>
      rintro ⟨-, rfl⟩
      have start (fd : Int) : HeaderLines proper (c'.setFd fd) := ok.frame rfl rfl
      simp only [pathSet_eq]
      split
      · cases k'.openRdonly fname with
        | mk result k'' =>
          cases result with
          | error e => exact ok.frame rfl rfl
          | ok fd => exact (start fd.val).describeFile static ..
      · exact (start fdHead).describeFile static ..

end Static

def Call.Adds (lib : TimeLib) (proper : Header → Prop) : Call → Prop
  | headerAdd key value => ∀ text, value = some text → proper (key, text)
  | headerAddContentType mime => proper (ascii "content-type", mime)
  | headerAddContentTypeGuess extension => proper (ascii "content-type", guessMimeType extension)
  | headerAddLastModified time =>
    ∀ date, lib.strftime time = some date → proper (ascii "last-modified", date)
  | handleStaticPath _ _ => StaticHeaders lib proper
  | _ => True

def Program.Calls (good : Call → Prop) : Program → Prop
  | ret => True
  | call f next => good f ∧ ∀ reply, (next reply).Calls good

theorem readPayload_client (c : Client) (k : Kernel) (nbytes : Nat) :
    (readPayload c k nbytes).client = { c with ta := { c.ta with
      reqPayloadPos := (readPayload c k nbytes).client.ta.reqPayloadPos
      resp := { c.ta.resp with status := (readPayload c k nbytes).client.ta.resp.status } } } := by
  obtain ⟨r, starts, ends⟩ := readPayload_loops c k nbytes
  have client : (readPayload c k nbytes).client = r.client := by
    rcases ends with same | ⟨bs, handed⟩
    · rw [same]
    · rw [handed]
  rw [client]
  rcases starts with ⟨n, written, rest, rfl⟩ | rfl
  · rw [readPayloadLoop_client]
    rfl
  · rw [readPayloadLoop_client]
    rfl

theorem HeaderLines.apiCall {s : Server} {f : Call} (ok : HeaderLines proper c)
    (adds : f.Adds s.time proper) (k : Kernel) : HeaderLines proper (apiCall s c k f).client := by
  cases f with
  | choose | getRequestMethod | getRequestPath | getRequestQuery | getRequestContentLength
  | getRequestMimeType | getRequestDisposition => exact ok
  | getRequestCookieN key keylen =>
    simp only [Kitserv.apiCall, getRequestCookieN]
    split
    · exact ok
    · simp only [parseCookies]
      split
      · exact ok
      · exact ok.frame rfl rfl
  | getRequestRange =>
    have same := parseRange_client c
    simp only [Kitserv.apiCall]
    generalize parseRange c = parsed at same
    obtain ⟨range, c'⟩ := parsed
    cases same
    cases range <;> exact ok
  | getRequestModifiedSinceDifference time =>
    simp only [Kitserv.apiCall]
    split <;> exact ok
  | readPayload nbytes =>
    refine ok.frame ?_ ?_
    · rw [Kitserv.apiCall, readPayload_client]
    · rw [Kitserv.apiCall, readPayload_client]
  | writeBody data =>
    refine ok.frame ?_ ?_
    · simp only [Kitserv.apiCall, BodyResult.asCall]
      rw [writeBody_body]
    · simp only [Kitserv.apiCall, BodyResult.asCall]
      rw [writeBody_body]
  | writeBodyFmt first second =>
    refine ok.frame ?_ ?_
    · simp only [Kitserv.apiCall, BodyResult.asCall]
      rw [writeBodyFmt_body]
    · simp only [Kitserv.apiCall, BodyResult.asCall]
      rw [writeBodyFmt_body]
  | resetHeaders => exact .empty ok.headers.size rfl
  | sendFile fd filesize =>
    refine ok.frame rfl ?_
    simp only [Kitserv.apiCall, sendFile]
    split <;> rfl
  | setSendRange pos last =>
    simp only [Kitserv.apiCall, setSendRange]
    split
    · exact ok
    · exact ok.frame rfl rfl
  | resetBody | setPreserveHeadersOnError _ | setPreserveBodyOnError _ | setResponseStatus _
  | saveState _ => exact ok.frame rfl rfl
  | headerAdd key value => exact ok.headerAdd key adds
  | headerAddContentType mime => exact ok.headerAdd _ (proper_line adds)
  | headerAddContentTypeGuess extension => exact ok.headerAdd _ (proper_line adds)
  | headerAddLastModified time => exact ok.lastModified adds
  | handleStaticPath path ctx => exact ok.handleStaticPath adds k path ctx

theorem HeaderLines.runProgram {s : Server} {program : Program} (ok : HeaderLines proper c)
    (adds : program.Calls (Call.Adds s.time proper)) (k : Kernel) :
    HeaderLines proper (runProgram s program c k).1 := by
  induction program generalizing c k with
  | ret => exact ok
  | call f next ih => exact ih _ (ok.apiCall adds.1 k) (adds.2 _) _

end Kitserv
