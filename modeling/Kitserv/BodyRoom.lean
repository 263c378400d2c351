import Kitserv.CannedError
import Kitserv.Descriptors
import Kitserv.LoggedPath

namespace Kitserv

open Memory

namespace Buffer

/-- The buffer has the room that it was created with, in its record and in its block. -/
structure Whole (b : Buffer) : Prop where
  max : (httpBufsz : Int) ≤ b.max
  size : httpBufsz ≤ b.buf.length

/-- `kitserv_buffer_ensure_space` leaves a buffer with that room: `n` bytes fit, or it is refused a
larger block, or it gets one that is large enough. -/
def keepsRoom (b : Buffer) (n : Nat) (out : ReallocOutcome) : Bool :=
  b.len + n < b.max || (n ≠ 0 && (out.isFailed || httpBufsz ≤ n))

variable {b : Buffer} {n : Nat} {out : ReallocOutcome}

theorem Whole.ensureSpace (whole : b.Whole) (keeps : b.keepsRoom n out = true) :
    (b.ensureSpace n out).2.Whole := by
  simp only [keepsRoom, Bool.or_eq_true, Bool.and_eq_true, decide_eq_true_eq] at keeps
  by_cases fits : b.len + n < b.max
  · rw [ensureSpace_fits fits]
    exact whole
  · have full : b.max ≤ b.len + n := by omega
    obtain ⟨asked, outcome⟩ := keeps.resolve_left fits
    cases refused : out.isFailed with
    | true =>
      rw [ensureSpace_failed full asked refused]
      exact whole
    | false =>
      have large : httpBufsz ≤ n := outcome.resolve_left (by rw [refused]; exact Bool.false_ne_true)
      obtain ⟨block, size, moved⟩ := ensureSpace_moved full asked refused
      rw [moved]
      refine ⟨?_, size ▸ large⟩
      simp only [bufferIncrement]
      omega

theorem Whole.vsnprintf (whole : b.Whole) (r : Rendering) : (b.vsnprintf r).buffer.Whole := by
  obtain ⟨-, max, size, -⟩ := vsnprintf_spec b r
  exact ⟨max ▸ whole.max, size ▸ whole.size⟩

theorem Whole.setLen (whole : b.Whole) (len : Int) : Whole { b with len := len } :=
  ⟨whole.max, whole.size⟩

theorem Whole.append (whole : b.Whole) {data : Bytes} (keeps : b.keepsRoom data.length out = true) :
    (b.append data out).buffer.Whole := by
  have grown := whole.ensureSpace keeps
  unfold Buffer.append
  split
  · rename_i refused
    rwa [refused] at grown
  · rename_i b' given
    rw [given] at grown
    refine Whole.setLen (b := b'.put data) ⟨grown.max, ?_⟩ _
    rw [length_put]
    exact grown.size

theorem Whole.appendva (whole : b.Whole) {first : Rendering} (second : Rendering)
    (keeps : printed first ≤ b.max - b.len ∨ b.keepsRoom (printed first).toNat out = true) :
    (b.appendva first second out).buffer.Whole := by
  obtain ⟨len, max, -, -⟩ := vsnprintf_spec b first
  by_cases fits : printed first ≤ b.max - b.len
  · rw [appendva_fits fits]
    exact (whole.vsnprintf first).setLen _
  · have keeps : (b.vsnprintf first).buffer.keepsRoom (printed first).toNat out = true := by
      rw [keepsRoom, len, max]
      exact keeps.resolve_left fits
    have grown : ((b.vsnprintf first).buffer.expand (printed first) out).Whole := by
      unfold Buffer.expand
      split
      · exact whole.vsnprintf first
      · exact (whole.vsnprintf first).ensureSpace keeps
    obtain ⟨max', size'⟩ := @appendva_retries_size b first second out (by omega) _ rfl
    exact ⟨max' ▸ grown.max, size' ▸ grown.size⟩

theorem Whole.reset (whole : b.Whole) (out : ReallocOutcome) : (b.reset httpBufsz out).Whole := by
  unfold Buffer.reset
  simp only
  split
  · cases out with
    | failed =>
      simp only [realloc, if_neg (show httpBufsz ≠ 0 by decide)]
      exact whole.setLen 0
    | moved junk =>
      have size := length_realloc_moved b.buf junk (show httpBufsz ≠ 0 by decide)
      simp only [realloc, if_neg (show httpBufsz ≠ 0 by decide)] at size ⊢
      exact ⟨Int.le_refl _, Nat.le_of_eq size.symm⟩
  · exact whole.setLen 0

theorem reset_len (b : Buffer) (size : Nat) (out : ReallocOutcome) : (b.reset size out).len = 0 := by
  unfold Buffer.reset
  simp only
  split
  · split <;> rfl
  · rfl

end Buffer

section Calls

def Call.keepsBody (c : Client) (k : Kernel) : Call → Bool
  | .writeBody data => c.respBody.keepsRoom data.length k.realloc.1
  | .writeBodyFmt first _ => Buffer.printed first ≤ c.respBody.max - c.respBody.len ||
      c.respBody.keepsRoom (Buffer.printed first).toNat k.realloc.1
  | _ => true

def Program.keepsBody (s : Server) : Program → Client → Kernel → Bool
  | .ret, _, _ => true
  | .call f next, c, k =>
    let r := apiCall s c k f
    f.keepsBody c k && (next r.reply).keepsBody s r.client r.kernel

/-- The stage SERVE, when the handler that it calls leaves the body buffer its room. -/
def serveKeepsBody (s : Server) (c : Client) (k : Kernel) : Bool :=
  match entered s c k with
  | none => true
  | some (c, k) =>
    match c.ta.api.endpointHit with
    | none => true
    | some handler =>
      (handler c.ta.api.internalData).keepsBody s c (k.emit (.called c.ta.api.internalData))

variable {s : Server} {c : Client} {k : Kernel}

theorem readPayload_body (c : Client) (k : Kernel) (nbytes : Nat) :
    (readPayload c k nbytes).client.respBody = c.respBody := by
  rw [readPayload_client]

theorem apiCall_whole {f : Call} (whole : c.respBody.Whole) (keeps : f.keepsBody c k = true) :
    (apiCall s c k f).client.respBody.Whole := by
  have same {c' : Client} (body : c'.respBody = c.respBody) : c'.respBody.Whole := body ▸ whole
  have block {r : Result} (frame : HeadFrame c r.client) : r.client.respBody.Whole := by
    refine same ?_
    rw [frame.same]
  cases f with
  | choose | getRequestMethod | getRequestPath | getRequestQuery | getRequestContentLength
  | getRequestMimeType | getRequestDisposition | resetHeaders | setPreserveHeadersOnError
  | setPreserveBodyOnError | setResponseStatus | saveState => exact whole
  | getRequestCookieN key keylen =>
    refine same ?_
    simp only [apiCall, getRequestCookieN, parseCookies]
    split
    · rfl
    · split <;> rfl
  | getRequestRange =>
    have client := parseRange_client c
    simp only [apiCall]
    generalize parseRange c = parsed at client
    obtain ⟨range, c'⟩ := parsed
    cases client
    cases range <;> exact whole
  | getRequestModifiedSinceDifference time =>
    simp only [apiCall]
    split <;> exact whole
  | readPayload nbytes => exact same (readPayload_body c k nbytes)
  | writeBody data =>
    have appended : (c.respBody.append data k.realloc.1).buffer.Whole := whole.append keeps
    simp only [apiCall, writeBody, BodyResult.asCall]
    split <;> exact appended
  | writeBodyFmt first second =>
    simp only [Call.keepsBody, Bool.or_eq_true, decide_eq_true_eq] at keeps
    have appended := whole.appendva second keeps
    simp only [apiCall, writeBodyFmt, BodyResult.asCall]
    split <;> exact appended
  | resetBody => exact whole.reset _
  | sendFile fd filesize =>
    simp only [apiCall, sendFile]
    exact whole
  | setSendRange pos last =>
    simp only [apiCall, setSendRange]
    split <;> exact whole
  | headerAdd key value => exact block (headerAdd_headFrame c key value)
  | headerAddContentType mime => exact block (headerAdd_headFrame c _ _)
  | headerAddContentTypeGuess extension => exact block (headerAdd_headFrame c _ _)
  | headerAddLastModified time => exact block (headerAddLastModified_headFrame s.time c time)
  | handleStaticPath path ctx =>
    refine same ?_
    simp only [apiCall]
    rw [(handleStaticPath_call s c k path ctx).client]

/-- A handler, from one point to its return. -/
theorem runProgram_whole {program : Program} (whole : c.respBody.Whole)
    (keeps : program.keepsBody s c k = true) : (runProgram s program c k).1.respBody.Whole := by
  induction program generalizing c k with
  | ret => exact whole
  | call f next ih =>
    obtain ⟨first, later⟩ := Bool.and_eq_true_iff.mp keeps
    exact ih _ (apiCall_whole whole first) later

structure StaticLeaves (c r : Client) : Prop where
  body : r.respBody = c.respBody
  start : r.respStart = c.respStart
  api : r.ta.api = c.ta.api
  path : r.ta.req.path = c.ta.req.path
  buffer : r.reqHeaders = c.reqHeaders

theorem serveStatic_leaves (s : Server) (c : Client) (k : Kernel) :
    StaticLeaves c (serveStatic s c k).client := by
  simp only [serveStatic, serveCont, Client.setState]
  rw [(handleStaticPath_call s c k _ none).client]
  exact ⟨rfl, rfl, rfl, rfl, rfl⟩

theorem serveRequest_whole {o : Outcome} (whole : c.respBody.Whole)
    (keeps : serveKeepsBody s c k = true) (h : serveRequest s c k = some o) :
    o.client.respBody.Whole := by
  rcases serveRequest_cases h with ⟨-, rfl⟩ | ⟨tree, flags, -, rfl⟩ | ⟨c', k', enters, rfl⟩
  · rw [(serveStatic_leaves s c k).body]
    exact whole
  · exact whole
  · have same : c'.respBody = c.respBody := by cases enters <;> rfl
    simp only [serveKeepsBody, enters.entered] at keeps
    unfold serveEndpoint
    split
    · rw [(serveStatic_leaves s c' k').body, same]
      exact whole
    · rename_i handler hit
      simp only [hit] at keeps
      have ran := runProgram_whole (s := s) (same ▸ whole) keeps
      simp only
      split <;> exact ran

end Calls

section Canned

variable {c d : Client} {k : Kernel} {o : Outcome}

def PathFits (c : Client) : Prop :=
  c.ta.resp.status = .http404NotFound → ∀ q, c.ta.req.path = some q →
    (cString c.reqHeaders q).length + 11 < httpBufsz

theorem PathFits.leaves (fits : PathFits c) (h : LeavesPath c d) : PathFits d := by
  intro status q path
  rw [h.buffer]
  exact fits (h.status status) q (h.path ▸ path)

theorem PathFits.texts (fits : PathFits c) {texts : List Bytes}
    (known : errorBodyTexts c = some texts) : texts.flatten.length < httpBufsz := by
  have large : httpBufsz = 4096 := rfl
  by_cases notFound : c.ta.resp.status = .http404NotFound
  · obtain ⟨q, path, rfl⟩ : ∃ q, c.ta.req.path = some q ∧
        [ascii "Not found: ", cString c.reqHeaders q] = texts := by
      simpa only [errorBodyTexts, notFound, Option.map_eq_some_iff] using known
    have name : (ascii "Not found: ").length = 11 := rfl
    have short := fits notFound q path
    simp only [List.flatten_cons, List.flatten_nil, List.append_nil, List.length_append, name]
    omega
  · rcases errorBodyTexts_shape known with ⟨text, rfl, short⟩ | ⟨path, rfl, -⟩
    · simp only [List.flatten_cons, List.flatten_nil, List.append_nil]
      omega
    · unfold errorBodyTexts at known
      split at known
      case h_3 status => exact absurd status notFound
      all_goals simp only [Option.some.injEq, List.cons.injEq, reduceCtorEq, and_false] at known

theorem appendTexts_whole (texts : List Bytes) (whole : c.respBody.Whole)
    (room : c.respBody.len + texts.flatten.length < httpBufsz) :
    (appendTexts c k texts).client.respBody.Whole := by
  induction texts generalizing c k with
  | nil => exact whole
  | cons text rest ih =>
    rw [List.flatten_cons, List.length_append] at room
    have max := whole.max
    obtain ⟨rc, same⟩ := @Buffer.append_fits c.respBody text k.realloc.1 (by omega)
    simp only [appendTexts, rc, ne_eq, not_true_eq_false, if_false]
    refine ih ?_ ?_
    · rw [same]
      refine ⟨max, ?_⟩
      rw [Buffer.length_put]
      exact whole.size
    · rw [same]
      simp only
      omega

theorem prepareErrorResponseBody_whole (whole : c.respBody.Whole) (fits : PathFits c)
    (h : prepareErrorResponseBody c k = some o) : o.client.respBody.Whole := by
  have dropped : LeavesPath c (dropBody c k).1 := path_rule.drop c k
  have block := headerAdd_headFrame (dropBody c k).1 (ascii "content-type") (some (ascii "text/plain"))
  have leaves := dropped.trans (headerAdd_leavesPath (dropBody c k).1 (ascii "content-type")
    (some (ascii "text/plain")))
  rcases added : headerAdd (dropBody c k).1 (ascii "content-type") (some (ascii "text/plain"))
    with ⟨ok, r⟩
  rw [added] at block leaves
  simp only [prepareErrorResponseBody, headerAddContentType, added] at h
  have body : r.respBody = { c.respBody with len := 0 } := congrArg Client.respBody block.same
  have wiped : r.respBody.Whole := body ▸ whole.setLen 0
  split at h
  · cases h
    exact wiped
  · obtain ⟨texts, known, rfl⟩ := Option.map_eq_some_iff.mp h
    have short := (fits.leaves leaves).texts known
    refine appendTexts_whole texts wiped ?_
    rw [body]
    simp only
    omega

theorem prepareErrorResponseHeaders_body {r : Result} (h : prepareErrorResponseHeaders c = some r) :
    r.client.respBody = c.respBody := by
  simp only [prepareErrorResponseHeaders] at h
  split at h
  · obtain ⟨value, rfl⟩ := headerAddAllow_some h
    rw [(headerAdd_headFrame (resetHeaders c) (ascii "allow") value).same]
    rfl
  · cases h
    rfl

theorem prepareError_whole (whole : c.respBody.Whole) (fits : PathFits c)
    (h : prepareError c k = some o) : o.client.respBody.Whole := by
  unfold prepareError at h
  split at h
  · cases h
    exact whole
  · split at h
    · exact prepareErrorResponseBody_whole whole fits h
    · split at h
      · cases h
      · rename_i r headers
        have body := prepareErrorResponseHeaders_body headers
        split at h
        · exact prepareErrorResponseBody_whole (body ▸ whole)
            (fits.leaves (path_rule.errorHeaders k headers)) h
        · cases h
          exact body ▸ whole

theorem prepareSuccess_body (c : Client) : (prepareSuccess c).client.respBody = c.respBody := by
  obtain ⟨buf, n, ready | refused | unended⟩ := prepareSuccess_shape c
  · rw [ready]
    rfl
  · rw [refused]
    rfl
  · rw [unended]
    rfl

theorem errorResponse_whole (whole : c.respBody.Whole) (fits : PathFits c)
    (h : errorResponse c k = some o) : o.client.respBody.Whole := by
  simp only [errorResponse, Option.map_eq_some_iff] at h
  obtain ⟨e, prepared, rfl⟩ := h
  have kept := prepareError_whole whole fits prepared
  split
  · exact kept
  · simp only [prepareSuccess_body]
    exact kept

/-- Preparing a response never needs a larger buffer. -/
theorem prepareResponse_whole (whole : c.respBody.Whole) (fits : PathFits c)
    (h : prepareResponse c k = some o) : o.client.respBody.Whole := by
  unfold prepareResponse at h
  split at h
  · cases h
    exact whole
  · split at h
    · exact errorResponse_whole whole fits h
    · have passed : (prepareSuccess c).client.respBody.Whole := prepareSuccess_body c ▸ whole
      simp only at h
      split at h
      · cases h
        exact passed
      · exact errorResponse_whole passed (fits.leaves (path_rule.success c k)) h

end Canned

end Kitserv
