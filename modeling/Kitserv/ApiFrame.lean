import Kitserv.Api
import Kitserv.PrepareLaw
import Kitserv.StaticLaw

namespace Kitserv

theorem writeBody_body (c : Client) (data : Bytes) (out : ReallocOutcome) :
    (writeBody c data out).client =
      { c with respBody := (writeBody c data out).client.respBody } := by
  unfold writeBody
  simp only
  split <;> rfl

theorem writeBodyFmt_body (c : Client) (first second : Rendering) (out : ReallocOutcome) :
    (writeBodyFmt c first second out).client =
      { c with respBody := (writeBodyFmt c first second out).client.respBody } := by
  unfold writeBodyFmt
  simp only
  split <;> rfl

theorem HeadFrame.headers (c : Client) (buf : Bytes) (n : Nat) : HeadFrame c (c.setHeaders buf n) :=
  ⟨rfl⟩

theorem headerAdd_headFrame (c : Client) (key : Bytes) (value : Rendering) :
    HeadFrame c (headerAdd c key value).client := by
  obtain ⟨buf, n, added | full⟩ := headerAdd_shape c key value
  · rw [added]
    exact HeadFrame.headers c buf n
  · rw [full]
    exact (HeadFrame.headers c buf n).setStatus _

theorem headerAddLastModified_headFrame (lib : TimeLib) (c : Client) (time : Int) :
    HeadFrame c (headerAddLastModified lib c time).client := by
  unfold headerAddLastModified
  split
  · exact HeadFrame.rfl' c
  · split
    · exact HeadFrame.rfl' c
    · exact headerAdd_headFrame c _ _

theorem handleRange_headFrame (c : Client) (st : Stat) : HeadFrame c (handleRange c st).client := by
  unfold handleRange
  split
  · exact HeadFrame.rfl' c
  · rcases parseRangeRequest_cases c st.size with
      ⟨-, request⟩ | ⟨range, -, -, request⟩ | ⟨range, r, -, -, request⟩
    · simp only [request, Client.setStatus, Bool.false_eq_true, if_false, ne_eq, not_true_eq_false]
      exact ⟨rfl⟩
    · have block := headerAdd_headFrame (c.setStatus .http416RangeNotSatisfiable)
        (ascii "content-range") (some (ascii "*/" ++ decimal st.size))
      have status : (c.setStatus .http416RangeNotSatisfiable).ta.resp.status =
        .http416RangeNotSatisfiable := rfl
      simp only [request, status, Bool.false_eq_true, if_false, if_true, ne_eq, reduceCtorEq,
        not_false_eq_true]
      constructor
      rw [block.same]
      rfl
    · have block := headerAdd_headFrame (c.setRange r) (ascii "content-range")
        (some (ascii "bytes " ++ decimal r.first ++ ascii "-" ++ decimal r.last ++ ascii "/" ++
          decimal st.size))
      have start : HeadFrame c (c.setRange r) := ⟨rfl⟩
      simp only [request, if_true, headerAddContentRange]
      split
      · exact start.trans block
      · exact (start.trans block).setStatus _

theorem addFileHeaders_headFrame (lib : TimeLib) (c : Client) (fname : Bytes) (st : Stat) :
    HeadFrame c (addFileHeaders lib c fname st).client := by
  have type := headerAdd_headFrame c (ascii "content-type") (some (guessMimeType (extension fname)))
  unfold addFileHeaders headerAddContentTypeGuess
  simp only
  split
  · exact type
  · have ranges := headerAdd_headFrame (headerAdd c (ascii "content-type")
      (some (guessMimeType (extension fname)))).client (ascii "accept-ranges") (some (ascii "bytes"))
    split
    · exact type.trans ranges
    · exact (type.trans ranges).trans (headerAddLastModified_headFrame lib _ _)

def FileEnd.client : FileEnd → Client
  | error c | unmodified c | full c => c

theorem fileEnd_headFrame (lib : TimeLib) (c : Client) (fname : Bytes) (st : Stat) :
    HeadFrame c (fileEnd lib c fname st).client := by
  have range := handleRange_headFrame c st
  unfold fileEnd
  simp only
  split
  · exact range
  · have headers := range.trans (addFileHeaders_headFrame lib (handleRange c st).client fname st)
    split
    · exact headers.setStatus _
    · split
      · exact headers
      · split
        · exact headers.setStatus _
        · split <;> exact headers

def Event.systemCall : Event → Bool
  | socketRead _ | payload _ | opened _ | handed _ | closed _ => true
  | _ => false

/-- `k'` is `k` after lookups of names, reads and allocations, with the events of them. -/
structure KernelFrame (k k' : Kernel) : Prop where
  same : k' = { k with
    input := k'.input
    reallocs := k'.reallocs
    choices := k'.choices
    errnos := k'.errnos
    clock := k'.clock
    trace := k'.trace }
  trace : ∃ events, k'.trace = k.trace ++ events ∧ ∀ e ∈ events, e.systemCall = true

theorem Kernel.silent {k k' : Kernel} (h : k'.trace = k.trace) :
    ∃ events, k'.trace = k.trace ++ events ∧ ∀ e ∈ events, e.systemCall = true :=
  ⟨[], by rw [h, List.append_nil], by simp⟩

namespace KernelFrame

variable {k k' k'' : Kernel}

theorem rfl' (k : Kernel) : KernelFrame k k := ⟨rfl, Kernel.silent rfl⟩

theorem trans (h : KernelFrame k k') (h' : KernelFrame k' k'') : KernelFrame k k'' := by
  obtain ⟨before, trace, calls⟩ := h.trace
  obtain ⟨after, trace', calls'⟩ := h'.trace
  refine ⟨?_, before ++ after, by rw [trace', trace, List.append_assoc], fun e member => ?_⟩
  · rw [h'.same, h.same]
  · exact (List.mem_append.mp member).elim (calls e) (calls' e)

theorem emit (k : Kernel) {e : Event} (call : e.systemCall = true) : KernelFrame k (k.emit e) :=
  ⟨rfl, [e], rfl, by simpa using call⟩

theorem realloc (k : Kernel) : KernelFrame k k.realloc.2 := ⟨rfl, Kernel.silent rfl⟩

theorem read (k : Kernel) (count : Nat) : KernelFrame k (k.read count).2 := by
  unfold Kernel.read
  split
  · exact emit k rfl
  · exact ⟨rfl, [_], rfl, by simp [Event.systemCall]⟩

theorem of_read {count : Nat} {r : ReadResult} (h : k.read count = (r, k')) : KernelFrame k k' := by
  have frame := read k count
  rwa [h] at frame

end KernelFrame

def lastSaved : Ptr → List Event → Ptr
  | state, [] => state
  | _, .saved state :: rest => lastSaved state rest
  | state, _ :: rest => lastSaved state rest

theorem lastSaved_append (state : Ptr) (before after : List Event) :
    lastSaved state (before ++ after) = lastSaved (lastSaved state before) after := by
  induction before generalizing state with
  | nil => rfl
  | cons e rest ih => cases e <;> exact ih _

theorem lastSaved_systemCalls {events : List Event} (h : ∀ e ∈ events, e.systemCall = true)
    (state : Ptr) : lastSaved state events = state := by
  induction events with
  | nil => rfl
  | cons e rest ih =>
    have call := h e (List.mem_cons_self ..)
    have later := ih fun e member => h e (List.mem_cons_of_mem _ member)
    cases e <;> first | exact later | cases call

def Event.ofCall : Event → Bool
  | saved _ => true
  | e => e.systemCall

/-- `c'` is what calls of a handler can make of `c`. -/
structure ClientFrame (c c' : Client) : Prop where
  same : c' = { c with
    reqHeaders := c'.reqHeaders
    reqCookies := c'.reqCookies
    respHeaders := c'.respHeaders
    respBody := c'.respBody
    ta := { c.ta with
      req := { c.ta.req with
        method := c'.ta.req.method
        rangeRequested := c'.ta.req.rangeRequested
        freshCookies := c'.ta.req.freshCookies }
      reqPayloadPos := c'.ta.reqPayloadPos
      reqNumCookies := c'.ta.reqNumCookies
      resp := { c'.ta.resp with
        bufs := { c.ta.resp.bufs with headers := c'.ta.resp.bufs.headers } }
      api := { c.ta.api with internalData := c'.ta.api.internalData } } }

theorem ClientFrame.trans {c c' c'' : Client} (h : ClientFrame c c') (h' : ClientFrame c' c'') :
    ClientFrame c c'' := by
  constructor
  rw [h'.same, h.same]

structure CallFrame (c : Client) (k : Kernel) (c' : Client) (k' : Kernel) : Prop where
  client : ClientFrame c c'
  kernel : k' = { k with
    input := k'.input
    reallocs := k'.reallocs
    choices := k'.choices
    errnos := k'.errnos
    clock := k'.clock
    trace := k'.trace }
  trace : ∃ events, k'.trace = k.trace ++ events ∧ (∀ e ∈ events, e.ofCall = true) ∧
    c'.ta.api.internalData = lastSaved c.ta.api.internalData events

namespace CallFrame

variable {c c' c'' : Client} {k k' k'' : Kernel}

/-- Calls that save no state. -/
theorem of_kernel (kernel : KernelFrame k k') (client : ClientFrame c c')
    (data : c'.ta.api.internalData = c.ta.api.internalData) : CallFrame c k c' k' := by
  obtain ⟨events, trace, calls⟩ := kernel.trace
  refine ⟨client, kernel.same, events, trace, fun e member => ?_, ?_⟩
  · have call := calls e member
    cases e <;> first | exact call | rfl
  · rw [lastSaved_systemCalls calls, data]

theorem rfl' (c : Client) (k : Kernel) : CallFrame c k c k := of_kernel (.rfl' k) ⟨rfl⟩ rfl

theorem trans (h : CallFrame c k c' k') (h' : CallFrame c' k' c'' k'') : CallFrame c k c'' k'' := by
  obtain ⟨before, trace, calls, saved⟩ := h.trace
  obtain ⟨after, trace', calls', saved'⟩ := h'.trace
  refine ⟨h.client.trans h'.client, ?_, before ++ after, ?_, fun e member => ?_, ?_⟩
  · rw [h'.kernel, h.kernel]
  · rw [trace', trace, List.append_assoc]
  · exact (List.mem_append.mp member).elim (calls e) (calls' e)
  · rw [saved', saved, lastSaved_append]

theorem state (h : CallFrame c k c' k') : c'.ta.state = c.ta.state := by rw [h.client.same]

theorem endpointHit (h : CallFrame c k c' k') :
    c'.ta.api.endpointHit = c.ta.api.endpointHit := by rw [h.client.same]

end CallFrame

structure StaticFrame (c r : Client) : Prop where
  client : ClientFrame c r
  data : r.ta.api.internalData = c.ta.api.internalData

namespace StaticFrame

variable {c r r' : Client}

theorem callFrame (h : StaticFrame c r) {k k' : Kernel} (kernel : KernelFrame k k') :
    CallFrame c k r k' := .of_kernel kernel h.client h.data

end StaticFrame

theorem HeadFrame.staticFrame {c r : Client} (h : HeadFrame c r) : StaticFrame c r := by
  refine ⟨⟨?_⟩, ?_⟩
  · rw [h.same]
  · rw [h.same]

theorem HeadFrame.callFrame {c r : Client} (h : HeadFrame c r) {k k' : Kernel}
    (kernel : KernelFrame k k') : CallFrame c k r k' := h.staticFrame.callFrame kernel

structure StaticCall (c : Client) (k : Kernel) (c' : Client) (k' : Kernel) : Prop where
  client : StaticFrame c c'
  kernel : KernelFrame k k'

namespace StaticCall

variable {c c' c'' : Client} {k k' k'' : Kernel}

theorem callFrame (h : StaticCall c k c' k') : CallFrame c k c' k' := h.client.callFrame h.kernel

end StaticCall

def Event.descriptor : Event → Bool
  | opened _ | closed _ => true
  | _ => false

/-- `c'` and `k'` are what static serving can make of `c` and `k`: it looks names up, opens and
closes descriptors, and keeps the request but for its method and its range. -/
structure FileCall (c : Client) (k : Kernel) (c' : Client) (k' : Kernel) : Prop where
  client : c' = { c with
    respHeaders := c'.respHeaders
    ta := { c.ta with
      req := { c.ta.req with
        method := c'.ta.req.method
        rangeRequested := c'.ta.req.rangeRequested }
      resp := { c'.ta.resp with
        bufs := { c.ta.resp.bufs with headers := c'.ta.resp.bufs.headers } } } }
  kernel : k' = { k with errnos := k'.errnos, clock := k'.clock, trace := k'.trace }
  trace : ∃ events, k'.trace = k.trace ++ events ∧ ∀ e ∈ events, e.descriptor = true

namespace FileCall

variable {c c' c'' : Client} {k k' k'' : Kernel}

theorem trans (h : FileCall c k c' k') (h' : FileCall c' k' c'' k'') : FileCall c k c'' k'' := by
  obtain ⟨before, trace, files⟩ := h.trace
  obtain ⟨after, trace', files'⟩ := h'.trace
  refine ⟨?_, ?_, before ++ after, ?_, fun e member => ?_⟩
  · rw [h'.client, h.client]
  · rw [h'.kernel, h.kernel]
  · rw [trace', trace, List.append_assoc]
  · exact (List.mem_append.mp member).elim (files e) (files' e)

theorem of_headFrame (h : HeadFrame c c') (k : Kernel) : FileCall c k c' k := by
  refine ⟨?_, rfl, [], (List.append_nil _).symm, by simp⟩
  rw [h.same]

theorem setFd (c : Client) (fd : Int) (k : Kernel) : FileCall c k (c.setFd fd) k :=
  ⟨rfl, rfl, [], (List.append_nil _).symm, by simp⟩

theorem setStatus (c : Client) (status : HttpStatus) (k : Kernel) :
    FileCall c k (c.setStatus status) k := of_headFrame ((HeadFrame.rfl' c).setStatus status) k

theorem searched (c : Client) (h : Searched k k') : FileCall c k c k' := by
  have same := h.same
  refine ⟨rfl, ?_, [], ?_, by simp⟩
  · rw [same]
  · rw [same, List.append_nil]

theorem closes (c : Client) (k : Kernel) (fd : Int) (value : Int) :
    FileCall c k (c.setFd value) (k.closeFdToZero fd).2 := by
  unfold Kernel.closeFdToZero
  split
  · exact ⟨rfl, rfl, [.closed fd], rfl, by simp [Event.descriptor]⟩
  · exact setFd c value k

theorem staticCall (h : FileCall c k c' k') : StaticCall c k c' k' := by
  obtain ⟨events, trace, files⟩ := h.trace
  refine ⟨⟨⟨?_⟩, ?_⟩, ?_, events, trace, fun e member => ?_⟩
  · rw [h.client]
  · rw [h.client]
  · rw [h.kernel]
  · have file := files e member
    cases e <;> first | rfl | cases file

end FileCall

theorem errClosefd_call (c : Client) (k : Kernel) (errno : Errno) :
    FileCall c k (errClosefd c k errno).client (errClosefd c k errno).kernel :=
  .closes c k c.ta.resp.fd _

theorem describeFile_call (lib : TimeLib) (c : Client) (k : Kernel) (errno : Errno) (fname : Bytes)
    (st : Stat) : FileCall c k (describeFile lib c k errno fname st).client
      (describeFile lib c k errno fname st).kernel := by
  have whole : FileCall c k (c.wholeFile st) k := ⟨rfl, rfl, [], (List.append_nil _).symm, by simp⟩
  have described : FileCall c k (fileEnd lib (c.wholeFile st) fname st).client k :=
    whole.trans (.of_headFrame (fileEnd_headFrame lib (c.wholeFile st) fname st) k)
  rw [describeFile_eq]
  revert described
  cases fileEnd lib (c.wholeFile st) fname st with
  | error r => exact fun described => described.trans (errClosefd_call r k errno)
  | full r => exact fun described => described.trans (.setStatus r _ k)
  | unmodified r =>
    intro described
    have head : FileCall r k { r with ta := { r.ta with req := { r.ta.req with method := .head } } } k :=
      ⟨rfl, rfl, [], (List.append_nil _).symm, by simp⟩
    exact ((described.trans head).trans (.setStatus _ .http304NotModified k)).trans
      (.closes _ k r.ta.resp.fd _)

theorem pathSet_call (lib : TimeLib) (c : Client) (k : Kernel) (errno : Errno) (fname : Bytes)
    (st : Stat) : FileCall c k (pathSet lib c k errno fname st).client
      (pathSet lib c k errno fname st).kernel := by
  rw [pathSet_eq]
  split
  · simp only [Kernel.openRdonly]
    cases (k.fs k.clock).openRdonly fname with
    | error e =>
      exact FileCall.trans (.searched c ⟨rfl⟩) (.setStatus c _ _)
    | ok opened =>
      have kernel : FileCall c k (c.setFd opened.val)
          ({ k with clock := k.clock + 1 }.emit (.opened opened.val)) :=
        ⟨rfl, rfl, [.opened opened.val], rfl, by simp [Event.descriptor]⟩
      exact kernel.trans (describeFile_call ..)
  · exact (FileCall.setFd c fdHead k).trans (describeFile_call ..)

theorem handleStaticPath_call (s : Server) (c : Client) (k : Kernel) (path : Bytes)
    (ctx : Option RequestContext) : FileCall c k (handleStaticPath s c k path ctx).client
      (handleStaticPath s c k path ctx).kernel := by
  have errno : FileCall c k c k.staleErrno.2 := ⟨rfl, rfl, [], (List.append_nil _).symm, by simp⟩
  unfold handleStaticPath
  simp only
  split
  · exact .setStatus c _ k
  · have choice := tryPaths_spec c k.staleErrno.2 k.staleErrno.1
      (candidates (ctx.getD s.defaultContext) ((c.ta.req.path.map (cString c.reqHeaders)).getD []) path)
    revert choice
    generalize tryPaths c k.staleErrno.2 k.staleErrno.1 _ = found
    cases found with
    | stop c' k' e =>
      rintro ⟨searched, value, rfl, -⟩
      exact errno.trans ((FileCall.searched c searched).trans (.setStatus c value k'))
    | pathSet fname st c' k' e =>
      rintro ⟨searched, rfl⟩
      exact (errno.trans (.searched c' searched)).trans (pathSet_call ..)

theorem handleStaticPath_frame (s : Server) (c : Client) (k : Kernel) (path : Bytes)
    (ctx : Option RequestContext) : StaticCall c k (handleStaticPath s c k path ctx).client
      (handleStaticPath s c k path ctx).kernel := (handleStaticPath_call s c k path ctx).staticCall

theorem parseCookies_frame (c : Client) (k : Kernel) : CallFrame c k (parseCookies c) k := by
  unfold parseCookies
  split
  · exact .rfl' c k
  · exact .of_kernel (.rfl' k) ⟨rfl⟩ rfl

theorem readPayloadLoop_client (c : Client) (k : Kernel) (written : Bytes) (nbytes : Nat) :
    (readPayloadLoop c k written nbytes).client =
      c.setStatus (readPayloadLoop c k written nbytes).client.ta.resp.status := by
  fun_induction readPayloadLoop c k written nbytes with
  | case1 | case2 | case3 | case5 | case6 => rfl
  | case4 => rfl
  | case7 k written nbytes more b bs k' got ih => exact ih

theorem readPayloadLoop_frame (c : Client) (k : Kernel) (written : Bytes) (nbytes : Nat) :
    CallFrame c k (readPayloadLoop c k written nbytes).client
      (readPayloadLoop c k written nbytes).kernel := by
  fun_induction readPayloadLoop c k written nbytes with
  | case1 => exact .rfl' _ _
  | case2 k written nbytes give more k' got => exact .of_kernel (.of_read got) ⟨rfl⟩ rfl
  | case3 k written nbytes deny more k' got => exact .of_kernel (.of_read got) ⟨rfl⟩ rfl
  | case4 k written nbytes deny more code k' got => exact .of_kernel (.of_read got) ⟨rfl⟩ rfl
  | case5 k written nbytes give more k' got => exact .of_kernel (.of_read got) ⟨rfl⟩ rfl
  | case6 k written nbytes deny more k' got => exact .of_kernel (.of_read got) ⟨rfl⟩ rfl
  | case7 k written nbytes more b bs k' got ih =>
    exact (CallFrame.of_kernel (.of_read got) ⟨rfl⟩ rfl).trans ih

/-- The loop of a read starts with what the header buffer holds, and its answer is handed over. -/
theorem readPayload_loops (c : Client) (k : Kernel) (nbytes : Nat) : ∃ r,
    ((∃ n written rest, r = readPayloadLoop
        { c with ta := { c.ta with reqPayloadPos := c.ta.reqPayloadPos + n } } k written rest) ∨
      r = readPayloadLoop c k [] nbytes) ∧
    (readPayload c k nbytes = r ∨
      ∃ bs, readPayload c k nbytes = { r with kernel := r.kernel.emit (.payload bs) }) := by
  unfold readPayload
  simp only
  split
  · refine ⟨_, ?_, .inr ⟨_, rfl⟩⟩
    split
    · exact .inl ⟨_, _, _, rfl⟩
    · exact .inr rfl
  · refine ⟨_, ?_, .inl rfl⟩
    split
    · exact .inl ⟨_, _, _, rfl⟩
    · exact .inr rfl

theorem readPayload_frame (c : Client) (k : Kernel) (nbytes : Nat) :
    CallFrame c k (readPayload c k nbytes).client (readPayload c k nbytes).kernel := by
  obtain ⟨r, starts, ends⟩ := readPayload_loops c k nbytes
  have looped : CallFrame c k r.client r.kernel := by
    rcases starts with ⟨n, written, rest, rfl⟩ | rfl
    · refine CallFrame.trans ?_ (readPayloadLoop_frame ..)
      exact .of_kernel (.rfl' k) ⟨rfl⟩ rfl
    · exact readPayloadLoop_frame ..
  rcases ends with same | ⟨bs, handed⟩
  · rw [same]
    exact looped
  · rw [handed]
    exact looped.trans (.of_kernel (.emit r.kernel rfl) ⟨rfl⟩ rfl)

theorem headFrame_asCall {c : Client} {r : Result} (h : HeadFrame c r.client) (k : Kernel)
    (errno : Errno) : CallFrame c k (r.asCall k errno).client (r.asCall k errno).kernel :=
  h.callFrame (.rfl' k)

theorem getRequestCookieN_frame (c : Client) (k : Kernel) (key : Bytes) (keylen : Int) :
    CallFrame c k (getRequestCookieN c k key keylen).client
      (getRequestCookieN c k key keylen).kernel := by
  unfold getRequestCookieN
  split
  · exact .rfl' c k
  · exact parseCookies_frame c k

theorem sendFile_frame (c : Client) (k : Kernel) (fd filesize : Int) :
    CallFrame c k (sendFile c k fd filesize).client (sendFile c k fd filesize).kernel := by
  have closed : KernelFrame k (if c.ta.resp.fd > 0 then k.close c.ta.resp.fd else k) := by
    split
    · exact .emit k rfl
    · exact .rfl' k
  refine .of_kernel ?_ ⟨?_⟩ ?_
  · simp only [sendFile]
    generalize (if c.ta.resp.fd > 0 then k.close c.ta.resp.fd else k) = k' at closed
    split
    · exact closed.trans (.emit k' rfl)
    · exact closed
  · simp only [sendFile]
    split <;> rfl
  · simp only [sendFile]

theorem apiCall_frame (s : Server) (c : Client) (k : Kernel) (f : Call) :
    CallFrame c k (apiCall s c k f).client (apiCall s c k f).kernel := by
  have kept (c' : Client) (client : ClientFrame c c')
      (data : c'.ta.api.internalData = c.ta.api.internalData) : CallFrame c k c' k :=
    .of_kernel (.rfl' k) client data
  have body (r : BodyResult) (h : r.client = { c with respBody := r.client.respBody }) :
      CallFrame c k (r.asCall k.realloc.2).client (r.asCall k.realloc.2).kernel := by
    have same : (r.asCall k.realloc.2).client = r.client := rfl
    refine .of_kernel (.realloc k) ⟨?_⟩ ?_
    · rw [same, h]
    · rw [same, h]
  cases f with
  | choose => exact .of_kernel ⟨rfl, Kernel.silent rfl⟩ ⟨rfl⟩ rfl
  | getRequestMethod | getRequestPath | getRequestQuery | getRequestContentLength
  | getRequestMimeType | getRequestDisposition => exact .rfl' c k
  | getRequestCookieN key keylen => exact getRequestCookieN_frame c k key keylen
  | getRequestRange =>
    have same := parseRange_client c
    simp only [apiCall]
    generalize parseRange c = parsed at same
    obtain ⟨range, c'⟩ := parsed
    cases same
    cases range <;> exact .rfl' _ k
  | getRequestModifiedSinceDifference time =>
    simp only [apiCall]
    split <;> exact .rfl' c k
  | readPayload nbytes => exact readPayload_frame c k nbytes
  | writeBody data => exact body _ (writeBody_body c data _)
  | writeBodyFmt first second => exact body _ (writeBodyFmt_body c first second _)
  | resetHeaders => exact kept _ ⟨rfl⟩ rfl
  | resetBody => exact .of_kernel (.realloc k) ⟨rfl⟩ rfl
  | sendFile fd filesize => exact sendFile_frame c k fd filesize
  | setSendRange pos last =>
    simp only [apiCall, setSendRange]
    split
    · exact .rfl' c k
    · exact kept _ ⟨rfl⟩ rfl
  | setPreserveHeadersOnError enabled => exact kept _ ⟨rfl⟩ rfl
  | setPreserveBodyOnError enabled => exact kept _ ⟨rfl⟩ rfl
  | setResponseStatus code => exact kept _ ⟨rfl⟩ rfl
  | saveState state => exact ⟨⟨rfl⟩, rfl, [.saved state], rfl, by simp [Event.ofCall], rfl⟩
  | headerAdd key value => exact headFrame_asCall (headerAdd_headFrame c key value) k _
  | headerAddContentType mime => exact headFrame_asCall (headerAdd_headFrame c _ _) k _
  | headerAddContentTypeGuess extension => exact headFrame_asCall (headerAdd_headFrame c _ _) k _
  | headerAddLastModified time =>
    exact headFrame_asCall (headerAddLastModified_headFrame s.time c time) k _
  | handleStaticPath path ctx => exact (handleStaticPath_frame s c k path ctx).callFrame

/-- A handler, from one point to its return. -/
theorem runProgram_frame (s : Server) (program : Program) (c : Client) (k : Kernel) :
    CallFrame c k (runProgram s program c k).1 (runProgram s program c k).2 := by
  induction program generalizing c k with
  | ret => exact .rfl' c k
  | call f next ih => exact (apiCall_frame s c k f).trans (ih ..)

end Kitserv
