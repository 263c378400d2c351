import Kitserv.HandlerHeaders
import Kitserv.Lifecycle

namespace Kitserv

open Memory

def PlainText (text : Bytes) : Prop := 13 ∉ text ∧ 10 ∉ text

instance (text : Bytes) : Decidable (PlainText text) := instDecidableAnd

theorem PlainText.append {s t : Bytes} (hs : PlainText s) (ht : PlainText t) : PlainText (s ++ t) :=
  ⟨by simp [hs.1, ht.1], by simp [hs.2, ht.2]⟩

theorem PlainText.sublist {s t : Bytes} (h : PlainText t) (sub : s.Sublist t) : PlainText s :=
  ⟨fun member => h.1 (sub.subset member), fun member => h.2 (sub.subset member)⟩

theorem decimal_plain (a : Int) : PlainText (decimal a) := by
  have other {b : Byte} (low : ¬ (b = 45 ∨ (48 ≤ b.toNat ∧ b.toNat ≤ 57))) : b ∉ decimal a :=
    fun member => low (mem_decimal member)
  exact ⟨other (by decide), other (by decide)⟩

def sameKey (noCase : Bool) (key key' : Bytes) : Bool :=
  if noCase then sameNoCase key key' else key == key'

structure HandlerHeader (noCase : Bool) (h : Header) : Prop where
  key : PlainText h.1
  value : PlainText h.2
  length : sameKey noCase h.1 (ascii "content-length") = false
  server : sameKey noCase h.1 (ascii "server") = false

/-- The code that a response with this status has to show. -/
def HttpStatus.sentCode (status : HttpStatus) : Nat :=
  if status ∈ declared ∧ 100 ≤ status.code then status.code else 500

def versionNumber : HttpVersion → Bytes
  | .http11 => ascii "1.1"
  | .http10 => ascii "1.0"

def statusLine (version : HttpVersion) (code : Nat) (reason : Bytes) : Bytes :=
  ascii "HTTP/" ++ versionNumber version ++ ascii " " ++ decimal code ++ ascii " " ++ reason ++
    ascii "\r\n"

/-- A response head as it should be. -/
structure ResponseHead (noCase : Bool) (c : Client) : Prop where
  start : (decimal c.ta.resp.status.sentCode).length = 3 ∧ ∃ reason, reason ≠ [] ∧ PlainText reason ∧
    c.startLine = statusLine c.ta.req.version c.ta.resp.status.sentCode reason
  headers : ∃ hs : List Header, c.headerBlock = hs.flatMap Header.line ++ ascii "\r\n" ∧
    (∀ h ∈ hs, PlainText h.1 ∧ PlainText h.2) ∧
    (hs.countP fun h => sameKey noCase h.1 (ascii "content-length")) = 1 ∧
    (hs.countP fun h => sameKey noCase h.1 (ascii "server")) = 1
  short : c.headerBlock.length < httpBufsz

theorem getVersionString_eq (version : HttpVersion) :
    getVersionString version = ascii "HTTP/" ++ versionNumber version ++ ascii " " := by
  cases version <;> rfl

theorem sentCode_other (n : Nat) : (HttpStatus.other n).sentCode = 500 := by
  simp [HttpStatus.sentCode, HttpStatus.declared]

theorem sentCode_digits (status : HttpStatus) : (decimal status.sentCode).length = 3 := by
  cases status with
  | other n =>
    rw [sentCode_other]
    decide
  | _ => decide

/-- The texts of the table are the code, a reason and the line break. -/
theorem getStatusString_eq (status : HttpStatus) : ∃ reason, reason ≠ [] ∧ PlainText reason ∧
    getStatusString status = decimal status.sentCode ++ ascii " " ++ reason ++ ascii "\r\n" := by
  refine ⟨((getStatusString status).drop 4).dropLast.dropLast, ?_⟩
  cases status with
  | other n =>
    rw [sentCode_other]
    simp only [getStatusString]
    decide +kernel
  | _ => decide +kernel

theorem length_getStatusString (status : HttpStatus) : (getStatusString status).length ≤ 37 := by
  cases status <;> simp only [getStatusString] <;> decide +kernel

theorem prepareRespStart_line {c : Client} (size : c.respStart.length = httpBufszSmall) :
    (prepareRespStart c).respStart.length = httpBufszSmall ∧ (prepareRespStart c).startLine =
      getVersionString c.ta.req.version ++ getStatusString c.ta.resp.status := by
  have version : (getVersionString c.ta.req.version).length = 9 := by
    cases c.ta.req.version <;> rfl
  have status := length_getStatusString c.ta.resp.status
  have room : httpBufszSmall = 256 := rfl
  obtain ⟨b₁, e₁, l₁, f₁, t₁⟩ | ⟨_, _, _, full, _⟩ := @strAppend_within _ 0 _
    (getVersionString c.ta.req.version) (by decide) size (by decide)
  · obtain ⟨b₂, e₂, l₂, f₂, t₂⟩ | ⟨_, _, _, full, _⟩ := strAppend_within
      (getStatusString c.ta.resp.status) (by decide) l₁ f₁
    · simp only [prepareRespStart, e₁, e₂, Client.startLine]
      rw [t₁] at t₂
      exact ⟨l₂, t₂⟩
    · omega
  · omega

section Lines

variable {noCase : Bool}

theorem textType_handlerHeader : HandlerHeader noCase (ascii "content-type", ascii "text/plain") := by
  cases noCase <;> exact ⟨by decide, by decide, by decide, by decide⟩

theorem allowBody_plain (flags : Nat) : PlainText (allowBody flags) := by
  have cut (p : Prop) [Decidable p] {text : Bytes} (plain : PlainText text) :
      PlainText (if p then text else []) := by
    split
    · exact plain
    · exact ⟨List.not_mem_nil, List.not_mem_nil⟩
  exact (((cut _ (by decide)).append (cut _ (by decide))).append (cut _ (by decide))).append
    (cut _ (by decide))

theorem allow_handlerHeader (flags : Nat) :
    HandlerHeader noCase (ascii "allow", allowValue flags) := by
  have value : PlainText (allowValue flags) := by
    unfold allowValue
    split
    · exact (allowBody_plain flags).sublist (List.take_sublist ..)
    · decide
  have key : PlainText (ascii "allow") := by decide
  cases noCase <;> exact ⟨key, value, rfl, rfl⟩

def lastHeaders (length : Int) : List Header :=
  [(ascii "content-length", decimal length), (ascii "server", serverName)]

theorem lastLines_eq (length : Int) : lastLines length = (lastHeaders length).flatMap Header.line := by
  simp [lastLines, lastHeaders, Header.line]

theorem responseHead_of_pass {c r : Client} (size : c.respStart.length = httpBufszSmall)
    (lines : HeaderLines (HandlerHeader noCase) c)
    (headers : WithHeaders (prepareRespStart c)
      (c.headerBlock ++ lastLines (announcedLength c) ++ ascii "\r\n") r) :
    ResponseHead noCase (describeBuffers r) := by
  obtain ⟨hs, all, block⟩ := lines.lines
  have described := headers.described
  have version : (describeBuffers r).ta.req.version = c.ta.req.version := by
    rw [headers.same]
    rfl
  have status : (describeBuffers r).ta.resp.status = c.ta.resp.status := by
    rw [headers.same]
    rfl
  have none (key : Bytes) (other : ∀ h : Header, HandlerHeader noCase h → sameKey noCase h.1 key = false) :
      (hs.countP fun h => sameKey noCase h.1 key) = 0 :=
    List.countP_eq_zero.mpr fun h member => by rw [other h (all h member)]; simp
  obtain ⟨reason, some_text, plain, text⟩ := getStatusString_eq c.ta.resp.status
  refine ⟨⟨sentCode_digits _, reason, some_text, plain, ?_⟩,
    ⟨hs ++ lastHeaders (announcedLength c), ?_, ?_, ?_, ?_⟩, ?_⟩
  · rw [described.start, (prepareRespStart_line size).2, version, status, getVersionString_eq, text,
      statusLine]
    simp only [List.append_assoc]
  · rw [described.headers, block, lastLines_eq, List.flatMap_append]
  · intro h member
    rcases List.mem_append.mp member with handler | last
    · exact ⟨(all h handler).key, (all h handler).value⟩
    · simp only [lastHeaders, List.mem_cons, List.not_mem_nil, or_false] at last
      rcases last with rfl | rfl
      · have key : PlainText (ascii "content-length") := by decide
        exact ⟨key, decimal_plain _⟩
      · decide
  · rw [List.countP_append, none _ fun h header => header.length]
    cases noCase <;> rfl
  · rw [List.countP_append, none _ fun h header => header.server]
    cases noCase <;> rfl
  · rw [described.headers]
    exact headers.inside

/-- A block behind a failed pass: as it was before, or without room for one more line. -/
def Retried (noCase : Bool) (c : Client) : Prop :=
  HeaderLines (HandlerHeader noCase) c ∨ (HeadersOk c ∧ httpBufsz ≤ c.headerBlock.length + 17)

theorem Retried.headersOk {c : Client} (h : Retried noCase c) : HeadersOk c :=
  h.elim HeaderLines.headers And.left

theorem prepareSuccess_retried {c : Client} (lines : HeaderLines (HandlerHeader noCase) c)
    (failed : (prepareSuccess c).ok = false) : Retried noCase (prepareSuccess c).client := by
  have start : HeaderLines (HandlerHeader noCase) (prepareRespStart c) := lines.frame rfl rfl
  have server : (headerLine (ascii "server") serverName).length = 17 := rfl
  rcases headerAdd_cases (ascii "content-length") (decimal (announcedLength c)) start.headers with
    ⟨r₁, e₁, h₁⟩ | ⟨r₁, e₁, h₁, -⟩
  · right
    rcases headerAdd_cases (ascii "server") serverName h₁.headersOk with
      ⟨r₂, e₂, h₂⟩ | ⟨r₂, e₂, h₂, full⟩
    · rcases strAppend_cases (ascii "\r\n") h₂.headersOk.size h₂.headersOk.inside with
        ⟨b, e₃, -⟩ | ⟨b, e₃, size, full, text⟩
      · simp [prepareSuccess, headerAddContentLength, e₁, e₂, e₃] at failed
      · have crlf : (ascii "\r\n").length = 2 := rfl
        have used := h₂.headersOk.length_headerBlock
        have kept : (prepareSuccess c).client.headerBlock = r₂.headerBlock := by
          simp only [prepareSuccess, headerAddContentLength, e₁, e₂, e₃, not_true_eq_false, if_false,
            Bool.false_eq_true, not_false_eq_true, if_true]
          exact text
        rw [kept]
        refine ⟨⟨?_, ?_⟩, by omega⟩
        · simp only [prepareSuccess, headerAddContentLength, e₁, e₂, e₃, not_true_eq_false, if_false,
            Bool.false_eq_true, not_false_eq_true, if_true]
          exact size
        · simp only [prepareSuccess, headerAddContentLength, e₁, e₂, e₃, not_true_eq_false, if_false,
            Bool.false_eq_true, not_false_eq_true, if_true]
          exact h₂.headersOk.inside
    · have same : (prepareSuccess c).client = r₂.setStatus .http507InsufficientStorage := by
        simp only [prepareSuccess, headerAddContentLength, e₁, e₂, not_true_eq_false, if_false,
          Bool.false_eq_true, not_false_eq_true, if_true]
      have kept : (r₂.setStatus .http507InsufficientStorage).headerBlock = r₂.headerBlock := rfl
      rw [same]
      refine ⟨⟨h₂.headersOk.size, h₂.headersOk.inside⟩, ?_⟩
      rw [List.length_append, server] at full
      rw [kept, h₂.headerBlock]
      exact full
  · left
    have same : (prepareSuccess c).client = r₁.setStatus .http507InsufficientStorage := by
      simp only [prepareSuccess, headerAddContentLength, e₁, Bool.false_eq_true,
        not_false_eq_true, if_true]
    rw [same]
    exact ⟨⟨h₁.headersOk.size, h₁.headersOk.inside⟩, by
      obtain ⟨hs, all, block⟩ := start.lines
      exact ⟨hs, all, h₁.headerBlock.trans block⟩⟩

theorem Canned.respStart {c r : Client} (h : Canned c r) : r.respStart = c.respStart := by
  rw [h.same]

theorem prepareError_lines {c : Client} {k : Kernel} {e : Outcome} (retried : Retried noCase c)
    (h : prepareError c k = some e) (rc : e.rc = 0) (passes : (prepareSuccess e.client).ok = true) :
    HeaderLines (HandlerHeader noCase) e.client ∧ e.client.respStart = c.respStart := by
  cases keep : c.ta.resp.preserveBodyOnError with
  | true =>
    simp only [prepareError, keep, if_true, Option.some.injEq] at h
    subst h
    refine ⟨retried.resolve_right ?_, rfl⟩
    rintro ⟨ok, full⟩
    rcases prepareSuccess_cases ok with ⟨r, -, headers⟩ | ⟨r, _, failed, -⟩ | ⟨r, failed, -⟩
    · have inside := headers.inside
      have server : (headerLine (ascii "server") serverName).length = 17 := rfl
      simp only [lastLines, List.length_append, server] at inside
      omega
    · rw [failed] at passes
      cases passes
    · rw [failed] at passes
      cases passes
  | false =>
    obtain ⟨canned, block⟩ := (prepareError_spec retried.headersOk keep h).2 rc
    have type : (headerLine (ascii "content-type") (ascii "text/plain")).length = 26 := rfl
    refine ⟨⟨canned.headers, ?_⟩, canned.respStart⟩
    rw [block, cannedBlock]
    split
    · rename_i preserve
      rcases retried with lines | ⟨-, full⟩
      · obtain ⟨hs, all, same⟩ := lines.lines
        refine ⟨hs ++ [(ascii "content-type", ascii "text/plain")], ?_, ?_⟩
        · intro h member
          rcases List.mem_append.mp member with handler | last
          · exact all h handler
          · rw [List.mem_singleton.mp last]
            exact textType_handlerHeader
        · simp [same, Header.line]
      · have used := canned.headers.length_headerBlock
        have inside := canned.headers.inside
        rw [block, cannedBlock, if_pos preserve, List.length_append, type] at used
        omega
    · unfold allowBlock
      split
      · refine ⟨[(ascii "allow", allowValue c.ta.api.allowFlags),
          (ascii "content-type", ascii "text/plain")], ?_, ?_⟩
        · intro h member
          simp only [List.mem_cons, List.not_mem_nil, or_false] at member
          rcases member with rfl | rfl
          · exact allow_handlerHeader _
          · exact textType_handlerHeader
        · simp [Header.line]
      · refine ⟨[(ascii "content-type", ascii "text/plain")], ?_, ?_⟩
        · intro h member
          rw [List.mem_singleton.mp member]
          exact textType_handlerHeader
        · simp [Header.line]

theorem responseHead_of_success {c : Client} (size : c.respStart.length = httpBufszSmall)
    (lines : HeaderLines (HandlerHeader noCase) c) (ok : (prepareSuccess c).ok = true) :
    ResponseHead noCase (prepareSuccess c).client := by
  rcases prepareSuccess_cases lines.headers with
    ⟨r, e, headers⟩ | ⟨r, _, failed, -⟩ | ⟨r, failed, -⟩
  · rw [e]
    exact responseHead_of_pass size lines headers
  · rw [failed] at ok
    cases ok
  · rw [failed] at ok
    cases ok

theorem errorResponse_head {c c' : Client} {k k' : Kernel} (retried : Retried noCase c)
    (size : c.respStart.length = httpBufszSmall)
    (h : errorResponse c k = some { rc := 0, client := c', kernel := k' }) :
    ResponseHead noCase c' := by
  simp only [errorResponse, Option.map_eq_some_iff] at h
  obtain ⟨e, prepared, h⟩ := h
  split at h
  · rename_i failed
    exact absurd (congrArg Outcome.rc h) failed
  · rename_i done
    have passes : (prepareSuccess e.client).ok = true := by
      have rc := congrArg Outcome.rc h
      revert rc
      cases (prepareSuccess e.client).ok <;> simp
    obtain ⟨lines, start⟩ := prepareError_lines retried prepared (by simpa using done) passes
    have head := responseHead_of_success (by rwa [start]) lines passes
    have same : (prepareSuccess e.client).client = c' := congrArg Outcome.client h
    rwa [← same]

theorem prepareSuccess_respStart {c : Client} (size : c.respStart.length = httpBufszSmall) :
    (prepareSuccess c).client.respStart.length = httpBufszSmall := by
  have start := (prepareRespStart_line size).1
  obtain ⟨buf, n, shape | shape | shape⟩ := prepareSuccess_shape c <;> rw [shape] <;> exact start

theorem prepareResponse_head {c c' : Client} {k k' : Kernel}
    (lines : HeaderLines (HandlerHeader noCase) c) (size : c.respStart.length = httpBufszSmall)
    (h : prepareResponse c k = some { rc := 0, client := c', kernel := k' }) :
    ResponseHead noCase c' := by
  simp only [prepareResponse] at h
  split at h
  · cases h
  · split at h
    · exact errorResponse_head (.inl lines) size h
    · split at h
      · rename_i ok
        have head := responseHead_of_success size lines ok
        cases h
        exact head
      · rename_i failed
        exact errorResponse_head (prepareSuccess_retried lines (by simpa using failed))
          (prepareSuccess_respStart size) h

/-- Whatever headers a handler adds and wipes, a response that can be prepared has a head with one
status line, one content-length, one server and one empty line. -/
theorem response_head_well_formed (noCase : Bool) (s : Server) (c : Client) (k : Kernel)
    (program : Program) (c' : Client) (k' : Kernel) (headersSize : c.respHeaders.length = httpBufsz)
    (startSize : c.respStart.length = httpBufszSmall) (fresh : c.ta.resp.bufs.headers.len = 0)
    (calls : program.Calls (Call.Adds s.time (HandlerHeader noCase)))
    (prepared : prepareResponse (runProgram s program c k).1 (runProgram s program c k).2 =
      some { rc := 0, client := c', kernel := k' }) : ResponseHead noCase c' := by
  have lines := (HeaderLines.empty headersSize fresh).runProgram calls k
  refine prepareResponse_head lines ?_ prepared
  rw [(runProgram_frame s program c k).client.same]
  exact startSize

end Lines

def wipingProgram : Program :=
  .call (.headerAdd (ascii "x") (some (ascii "1"))) fun _ =>
    .call .resetHeaders fun _ =>
      .call (.headerAdd (ascii "y") (some (ascii "2"))) fun _ =>
        .call (.setResponseStatus 200) fun _ => .ret

theorem response_head_well_formed_wiped : ∃ c' k',
    prepareResponse
      (runProgram rootServer wipingProgram (createClientStruct .zeroed) { fs := fun _ => .empty }).1
      (runProgram rootServer wipingProgram (createClientStruct .zeroed) { fs := fun _ => .empty }).2 =
        some { rc := 0, client := c', kernel := k' } ∧ ResponseHead true c' := by
  have prepared : (prepareResponse
      (runProgram rootServer wipingProgram (createClientStruct .zeroed) { fs := fun _ => .empty }).1
      (runProgram rootServer wipingProgram (createClientStruct .zeroed)
        { fs := fun _ => .empty }).2).map Outcome.rc = some 0 := by decide +kernel
  obtain ⟨⟨rc, c', k'⟩, same, rfl⟩ := Option.map_eq_some_iff.mp prepared
  refine ⟨c', k', same, response_head_well_formed true rootServer (createClientStruct .zeroed) _
    wipingProgram c' k' List.length_replicate List.length_replicate rfl ?_ same⟩
  have header (key value : Bytes) (good : PlainText key ∧ PlainText value ∧
      sameKey true key (ascii "content-length") = false ∧ sameKey true key (ascii "server") = false) :
      ∀ text, some value = some text → HandlerHeader true (key, text) :=
    proper_line ⟨good.1, good.2.1, good.2.2.1, good.2.2.2⟩
  exact ⟨header _ _ (by decide), fun _ => ⟨trivial, fun _ => ⟨header _ _ (by decide),
    fun _ => ⟨trivial, fun _ => trivial⟩⟩⟩⟩

end Kitserv
