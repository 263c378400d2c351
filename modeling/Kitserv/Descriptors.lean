import Kitserv.Basis.Ledger
import Kitserv.RouteFlags

namespace Kitserv

def Event.entry : Event → Ledger.Entry Int
  | opened fd | handed fd => .gain fd
  | closed fd => .drop fd
  | finalized | reset => .settle
  | _ => .idle

/-- The descriptor that is the transaction's to close. The values 0 and -1 stand for none. -/
def Client.held (c : Client) : List Int := if 0 < c.ta.resp.fd then [c.ta.resp.fd] else []

theorem Client.held_none {c : Client} (h : c.ta.resp.fd ≤ 0) : c.held = [] :=
  if_neg (Int.not_lt.mpr h)

theorem Client.held_some {c : Client} (h : 0 < c.ta.resp.fd) : c.held = [c.ta.resp.fd] := if_pos h

theorem Client.held_congr {c c' : Client} (h : c'.ta.resp.fd = c.ta.resp.fd) : c'.held = c.held := by
  rw [Client.held, h, Client.held]

/-- From `k` to `k'` the descriptors that are owned go from `owned` to `left`. -/
def Accounts (owned : List Int) (k : Kernel) (left : List Int) (k' : Kernel) : Prop :=
  ∃ events, k'.trace = k.trace ++ events ∧
    Monitor.run Ledger.post owned (events.map Event.entry) = some left

namespace Accounts

variable {owned left rest : List Int} {k k' k'' : Kernel}

theorem of_trace (owned : List Int) (same : k'.trace = k.trace) : Accounts owned k owned k' :=
  ⟨[], by rw [same, List.append_nil], rfl⟩

theorem trans (h : Accounts owned k left k') (h' : Accounts left k' rest k'') :
    Accounts owned k rest k'' := by
  obtain ⟨before, trace, run⟩ := h
  obtain ⟨after, trace', run'⟩ := h'
  refine ⟨before ++ after, by rw [trace', trace, List.append_assoc], ?_⟩
  rw [List.map_append, Monitor.run_append_of run, run']

theorem emit (k : Kernel) {e : Event} (posted : Ledger.post owned e.entry = some left) :
    Accounts owned k left (k.emit e) :=
  ⟨[e], rfl, by rw [List.map_singleton, Monitor.run_cons, posted]; rfl⟩

theorem silent (owned : List Int) {events : List Event} (trace : k'.trace = k.trace ++ events)
    (idle : ∀ e ∈ events, e.entry = .idle) : Accounts owned k owned k' := by
  refine ⟨events, trace, Monitor.run_silent fun entry member => ?_⟩
  obtain ⟨e, inside, rfl⟩ := List.mem_map.mp member
  rw [idle e inside]
  rfl

end Accounts

theorem closeFdToZero_accounts (c : Client) (k : Kernel) :
    Accounts c.held k [] (k.closeFdToZero c.ta.resp.fd).2 ∧
      (k.closeFdToZero c.ta.resp.fd).1 ≤ 0 := by
  unfold Kernel.closeFdToZero
  by_cases file : c.ta.resp.fd > 0
  · rw [if_pos file, Client.held_some file]
    have posted : Ledger.post [c.ta.resp.fd] (Event.closed c.ta.resp.fd).entry = some [] := by
      simp [Event.entry, Ledger.post]
    exact ⟨.emit k posted, Int.le_refl 0⟩
  · rw [if_neg file, Client.held_none (Int.not_lt.mp file)]
    exact ⟨.of_trace [] rfl, Int.not_lt.mp file⟩

section Serving

variable (s : Server) (c : Client) (k : Kernel)

/-- A call of `kitserv_http_handle_static_path` that stores into `resp_fd`: it finds a file, which it
can open unless the method is HEAD. -/
def storesFd (path : Bytes) (ctx : Option RequestContext) : Bool :=
  let reqPath := (c.ta.req.path.map (cString c.reqHeaders)).getD []
  if c.ta.req.method.bits &&& HttpMethod.get.bits = 0 then false
  else
    match tryPaths c k.staleErrno.2 k.staleErrno.1
      (candidates (ctx.getD s.defaultContext) reqPath path) with
    | .stop .. => false
    | .pathSet fname _ c k _ =>
      if c.ta.req.method = .get then (k.openRdonly fname).1.isOk else true

/-- A call of a handler that does not make the transaction forget a descriptor. -/
def Call.keepsFd : Call → Bool
  | .handleStaticPath path ctx => c.ta.resp.fd ≤ 0 || !storesFd s c k path ctx
  | _ => true

def Program.keepsFd (s : Server) : Program → Client → Kernel → Bool
  | .ret, _, _ => true
  | .call f next, c, k =>
    let r := apiCall s c k f
    f.keepsFd s c k && (next r.reply).keepsFd s r.client r.kernel

/-- The client and the kernel for which `kitserv_http_serve_request` comes to its endpoint. -/
def entered : Option (Client × Kernel) :=
  match s.apiTree with
  | none => none
  | some tree =>
    if c.ta.api.endpointHit.isSome then some (c, k)
    else match parseApiTree c.reqHeaders c.ta.req.method.bits 0 tree tree c.routeStart with
      | .done hit flags => some ({ c with ta := { c.ta with
          api := { c.ta.api with endpointHit := hit, allowFlags := flags } } }, k.emit .routed)
      | _ => none

def serveKeepsFd : Bool :=
  match entered s c k with
  | none => true
  | some (c, k) =>
    match c.ta.api.endpointHit with
    | none => true
    | some handler =>
      (handler c.ta.api.internalData).keepsFd s c (k.emit (.called c.ta.api.internalData))

end Serving

theorem Enters.entered {s : Server} {c c' : Client} {k k' : Kernel} (enters : Enters s c k c' k') :
    entered s c k = some (c', k') := by
  cases enters with
  | selected found hit => simp only [Kitserv.entered, found, hit, if_true]
  | routed found none route =>
    simp only [Kitserv.entered, found, none, route, Option.isSome_none, Bool.false_eq_true, if_false]

section Static

variable {s : Server} {c : Client} {k : Kernel}

theorem errClosefd_accounts (errno : Errno) :
    Accounts c.held k (errClosefd c k errno).client.held (errClosefd c k errno).kernel := by
  obtain ⟨closed, none⟩ := closeFdToZero_accounts c k
  have left : (errClosefd c k errno).client.held = [] := Client.held_none none
  rw [left]
  exact closed

theorem notModified_accounts (errno : Errno) :
    Accounts c.held k (notModified c k errno).client.held (notModified c k errno).kernel := by
  obtain ⟨closed, none⟩ := closeFdToZero_accounts c k
  have left : (notModified c k errno).client.held = [] := Client.held_none none
  rw [left]
  exact closed

theorem describeFile_accounts (lib : TimeLib) (errno : Errno) (fname : Bytes) (st : Stat) :
    Accounts c.held k (describeFile lib c k errno fname st).client.held
      (describeFile lib c k errno fname st).kernel := by
  have fd : (fileEnd lib (c.wholeFile st) fname st).client.ta.resp.fd = c.ta.resp.fd := by
    rw [(fileEnd_headFrame lib (c.wholeFile st) fname st).same]
    rfl
  have kept := Client.held_congr fd
  rw [describeFile_eq, ← kept]
  cases fileEnd lib (c.wholeFile st) fname st with
  | error r => exact errClosefd_accounts errno
  | unmodified r => exact notModified_accounts errno
  | full r => exact .of_trace r.held rfl

theorem pathSet_accounts (lib : TimeLib) (errno : Errno) (fname : Bytes) (st : Stat)
    (keeps : c.ta.resp.fd ≤ 0 ∨ c.ta.req.method = .get ∧ (k.openRdonly fname).1.isOk = false) :
    Accounts c.held k (pathSet lib c k errno fname st).client.held
      (pathSet lib c k errno fname st).kernel := by
  rw [pathSet_eq]
  split
  · rename_i get
    unfold Kernel.openRdonly at keeps ⊢
    cases opened : (k.fs k.clock).openRdonly fname with
    | error e => exact .of_trace c.held rfl
    | ok fd =>
      simp only [opened, Except.isOk, Except.toBool, Bool.true_eq_false, and_false, or_false] at keeps
      have gained : Accounts c.held k (c.setFd fd.val).held
          ({ k with clock := k.clock + 1 }.emit (.opened fd.val)) := by
        rw [Client.held_none keeps, Client.held_some (c := c.setFd fd.val) fd.pos]
        exact (Accounts.of_trace [] rfl).trans (.emit _ rfl)
      exact gained.trans (describeFile_accounts lib errno fname st)
  · rename_i other
    have none : c.ta.resp.fd ≤ 0 := keeps.resolve_right fun get => other get.1
    have marked : (c.setFd fdHead).held = c.held := by
      rw [Client.held_none none]
      rfl
    rw [← marked]
    exact describeFile_accounts lib errno fname st

theorem handleStaticPath_accounts (path : Bytes) (ctx : Option RequestContext)
    (keeps : c.ta.resp.fd ≤ 0 ∨ storesFd s c k path ctx = false) :
    Accounts c.held k (handleStaticPath s c k path ctx).client.held
      (handleStaticPath s c k path ctx).kernel := by
  unfold storesFd at keeps
  unfold handleStaticPath
  simp only at keeps ⊢
  split
  · exact .of_trace c.held rfl
  · rename_i served
    rw [if_neg served] at keeps
    have choice := tryPaths_spec c k.staleErrno.2 k.staleErrno.1
      (candidates (ctx.getD s.defaultContext) ((c.ta.req.path.map (cString c.reqHeaders)).getD []) path)
    revert choice keeps
    generalize tryPaths c k.staleErrno.2 k.staleErrno.1 _ = found
    cases found with
    | stop c' k' e =>
      rintro - ⟨searched, status, rfl, -⟩
      refine .of_trace c.held ?_
      rw [searched.same]
      rfl
    | pathSet fname st c' k' e =>
      rintro keeps ⟨searched, rfl⟩
      have looked : Accounts c'.held k c'.held k' := .of_trace c'.held (by rw [searched.same]; rfl)
      refine looked.trans (pathSet_accounts s.time e fname st (keeps.imp_right fun unopened => ?_))
      simp only at unopened
      split at unopened
      · rename_i get
        exact ⟨get, unopened⟩
      · cases unopened

end Static

section Calls

variable {c : Client} {k : Kernel}

theorem readPayloadLoop_accounts (owned : List Int) (written : Bytes) (nbytes : Nat) :
    Accounts owned k owned (readPayloadLoop c k written nbytes).kernel := by
  have one {k k' : Kernel} {count : Nat} {res : ReadResult} (got : k.read count = (res, k')) :
      Accounts owned k owned k' := .silent owned (read_trace got) fun e member => by
    rw [List.mem_singleton.mp member]
    rfl
  fun_induction readPayloadLoop c k written nbytes with
  | case1 => exact .of_trace owned rfl
  | case2 k written nbytes give more k' got => exact one got
  | case3 k written nbytes deny more k' got => exact one got
  | case4 k written nbytes deny more code k' got => exact one got
  | case5 k written nbytes give more k' got => exact one got
  | case6 k written nbytes deny more k' got => exact one got
  | case7 k written nbytes more b bs k' got ih => exact (one got).trans ih

theorem readPayload_accounts (nbytes : Nat) :
    Accounts c.held k (readPayload c k nbytes).client.held (readPayload c k nbytes).kernel := by
  have handed (r : CallResult) (owned : List Int) (h : Accounts owned k owned r.kernel) :
      Accounts owned k owned r.handOver.kernel := by
    unfold CallResult.handOver
    cases r.reply.data with
    | none => exact h
    | some bs => exact h.trans (.emit _ rfl)
  have kept : (readPayload c k nbytes).client.held = c.held := by
    refine Client.held_congr ?_
    rw [readPayload_client]
  rw [kept, readPayload_eq]
  split
  · exact handed _ _ (readPayloadLoop_accounts ..)
  · exact handed _ _ (readPayloadLoop_accounts ..)

theorem sendFile_accounts (fd filesize : Int) :
    Accounts c.held k (sendFile c k fd filesize).client.held (sendFile c k fd filesize).kernel := by
  have stored : (sendFile c k fd filesize).client.held = if 0 < fd then [fd] else [] := by
    simp only [Client.held, sendFile]
    split <;> rfl
  have dropped : Accounts c.held k [] (if c.ta.resp.fd > 0 then k.close c.ta.resp.fd else k) := by
    have closed := (closeFdToZero_accounts c k).1
    unfold Kernel.closeFdToZero at closed
    split at closed <;> rename_i file
    · rwa [if_pos file]
    · rwa [if_neg file]
  rw [stored]
  simp only [sendFile]
  by_cases file : fd > 0
  · rw [if_pos file, if_pos file]
    exact dropped.trans (.emit _ rfl)
  · rw [if_neg file, if_neg file]
    exact dropped

theorem apiCall_accounts {s : Server} {f : Call} (keeps : f.keepsFd s c k = true) :
    Accounts c.held k (apiCall s c k f).client.held (apiCall s c k f).kernel := by
  have same {c' : Client} {k' : Kernel} (fd : c'.ta.resp.fd = c.ta.resp.fd)
      (trace : k'.trace = k.trace) : Accounts c.held k c'.held k' := by
    rw [Client.held_congr fd]
    exact .of_trace c.held trace
  have block {r : Result} (frame : HeadFrame c r.client) : r.client.ta.resp.fd = c.ta.resp.fd := by
    rw [frame.same]
  cases f with
  | choose => exact same rfl rfl
  | getRequestMethod | getRequestPath | getRequestQuery | getRequestContentLength
  | getRequestMimeType | getRequestDisposition => exact same rfl rfl
  | getRequestCookieN key keylen =>
    refine same ?_ ?_ <;> simp only [apiCall, getRequestCookieN, parseCookies]
    · split
      · rfl
      · split <;> rfl
    · split <;> rfl
  | getRequestRange =>
    have client := parseRange_client c
    simp only [apiCall]
    generalize parseRange c = parsed at client
    obtain ⟨range, c'⟩ := parsed
    cases client
    cases range <;> exact same rfl rfl
  | getRequestModifiedSinceDifference time =>
    simp only [apiCall]
    split <;> exact same rfl rfl
  | readPayload nbytes => exact readPayload_accounts nbytes
  | writeBody data =>
    refine same ?_ rfl
    simp only [apiCall, BodyResult.asCall]
    rw [writeBody_body]
  | writeBodyFmt first second =>
    refine same ?_ rfl
    simp only [apiCall, BodyResult.asCall]
    rw [writeBodyFmt_body]
  | resetHeaders | resetBody => exact same rfl rfl
  | sendFile fd filesize => exact sendFile_accounts fd filesize
  | setSendRange pos last =>
    simp only [apiCall, setSendRange]
    split <;> exact same rfl rfl
  | setPreserveHeadersOnError enabled => exact same rfl rfl
  | setPreserveBodyOnError enabled => exact same rfl rfl
  | setResponseStatus code => exact same rfl rfl
  | saveState state =>
    exact .silent c.held rfl fun e member => by
      rw [List.mem_singleton.mp member]
      rfl
  | headerAdd key value => exact same (block (headerAdd_headFrame c key value)) rfl
  | headerAddContentType mime => exact same (block (headerAdd_headFrame c _ _)) rfl
  | headerAddContentTypeGuess extension => exact same (block (headerAdd_headFrame c _ _)) rfl
  | headerAddLastModified time =>
    exact same (block (headerAddLastModified_headFrame s.time c time)) rfl
  | handleStaticPath path ctx =>
    refine handleStaticPath_accounts path ctx ?_
    simpa [Call.keepsFd] using keeps

/-- A handler, from one point to its return. -/
theorem runProgram_accounts {s : Server} {program : Program}
    (keeps : program.keepsFd s c k = true) :
    Accounts c.held k (runProgram s program c k).1.held (runProgram s program c k).2 := by
  induction program generalizing c k with
  | ret => exact .of_trace c.held rfl
  | call f next ih =>
    obtain ⟨first, later⟩ := Bool.and_eq_true_iff.mp keeps
    exact (apiCall_accounts first).trans (ih _ later)

end Calls

end Kitserv
