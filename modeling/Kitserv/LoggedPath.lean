import Kitserv.HeadPath
import Kitserv.PathTraversal
import Kitserv.RouteFlags

/-! Where the stages of a response read `req_path`, over every run of `kitserv_http_serve_client`:
it is there exactly when the bytes that have come in for the head give a path. -/
namespace Kitserv

open Memory

section Front

structure KeepsFront (c c' : Client) : Prop where
  size : c'.reqHeaders.length = c.reqHeaders.length
  front : ∀ bound, (∀ k, c.ta.req.freshCookies = some k → bound ≤ k) →
    c'.reqHeaders.take bound = c.reqHeaders.take bound ∧
      ∀ k, c'.ta.req.freshCookies = some k → bound ≤ k

theorem KeepsFront.of_same {c c' : Client} (buffer : c'.reqHeaders = c.reqHeaders)
    (cookies : c'.ta.req.freshCookies = c.ta.req.freshCookies) : KeepsFront c c' := by
  refine ⟨by rw [buffer], fun bound behind => ⟨by rw [buffer], ?_⟩⟩
  rw [cookies]
  exact behind

theorem parseCookiesLoop_front {mem : Bytes} {start n : Nat} (cookies : List HttpCookie)
    (index : Nat) (low : n ≤ start) :
    (parseCookiesLoop mem cookies index start).mem.length = mem.length ∧
      (parseCookiesLoop mem cookies index start).mem.take n = mem.take n := by
  -- a cookie is cut at its '=' and at its ';', both behind its start
  have cut {mem : Bytes} {start r : Nat} (low : n ≤ start)
      (equals : strchr mem (start + ((mem.drop start).takeWhile fun b => b == 32).length) 61 =
        some r) :
      ((capValue mem (strchr mem r 59)).set r 0).take n = mem.take n := by
    have first := (strchr_some equals).1
    rw [take_set_of_le _ _ (by omega)]
    cases semicolon : strchr mem r 59 with
    | none => rfl
    | some q =>
      have second := (strchr_some semicolon).1
      exact take_set_of_le _ _ (by omega)
  fun_induction parseCookiesLoop mem cookies index start with
  | case1 => exact ⟨rfl, rfl⟩
  | case2 mem cookies index start p r equals =>
    exact ⟨List.length_set.trans (length_capValue mem _), cut low equals⟩
  | case3 mem cookies index start p r equals =>
    exact ⟨List.length_set.trans (length_capValue mem _), cut low equals⟩
  | case4 mem cookies index start p r equals q' mem' stored more next cookies' q semicolon ih =>
    have first := (strchr_some equals).1
    have second := (strchr_some semicolon).1
    obtain ⟨length, same⟩ := ih (by omega)
    exact ⟨length.trans (List.length_set.trans (length_capValue mem _)), same.trans (cut low equals)⟩

theorem front_rule (s : Server) : CallRule s fun c _ c' _ => KeepsFront c c' where
  silent h := .of_same h.buffer h.cookies
  trans first later := by
    refine ⟨later.size.trans first.size, fun bound behind => ?_⟩
    obtain ⟨same, behind'⟩ := first.front bound behind
    obtain ⟨same', behind''⟩ := later.front bound behind'
    exact ⟨same'.trans same, behind''⟩
  call c k f := by
    by_cases payload : ∃ nbytes, f = .readPayload nbytes
    · obtain ⟨nbytes, rfl⟩ := payload
      refine .of_same ?_ ?_ <;> simp only [apiCall] <;> rw [readPayload_client]
    by_cases cookies : ∃ key keylen, f = .getRequestCookieN key keylen
    · obtain ⟨key, keylen, rfl⟩ := cookies
      simp only [apiCall, getRequestCookieN, parseCookies]
      split
      · exact .of_same rfl rfl
      · cases fresh : c.ta.req.freshCookies with
        | none => exact .of_same rfl rfl
        | some p =>
          simp only
          refine ⟨(parseCookiesLoop_front (n := 0) c.reqCookies 0 (Nat.zero_le p)).1,
            fun bound behind => ⟨?_, by rintro p ⟨⟩⟩⟩
          exact (parseCookiesLoop_front c.reqCookies 0 (behind p fresh)).2
    · have other := apiCall_untouched s c k (not_exists.mp payload)
        fun key keylen same => cookies ⟨key, keylen, same⟩
      exact .of_same other.buffer other.cookies

theorem serveRequest_path {s : Server} {c : Client} {k : Kernel} {o : Outcome}
    (h : serveRequest s c k = some o) : o.client.ta.req.path = c.ta.req.path := by
  have file {c : Client} {k : Kernel} : (serveStatic s c k).client.ta.req.path = c.ta.req.path := by
    simp only [serveStatic, serveCont, Client.setState]
    rw [(handleStaticPath_call s c k _ none).client]
  rcases serveRequest_cases h with ⟨-, rfl⟩ | ⟨tree, flags, -, rfl⟩ | ⟨c', k', enters, rfl⟩
  · exact file
  · rfl
  · have same : c'.ta.req.path = c.ta.req.path := by cases enters <;> rfl
    rw [← same]
    unfold serveEndpoint
    split
    · exact file
    · rename_i handler hit
      have frame := runProgram_frame s (handler c'.ta.api.internalData) c'
        (k'.emit (.called c'.ta.api.internalData))
      simp only
      generalize runProgram s (handler c'.ta.api.internalData) c' _ = r at frame
      have path : r.1.ta.req.path = c'.ta.req.path := by rw [frame.client.same]
      split <;> exact path

theorem Client.Knows.served {s : Server} {c : Client} {k : Kernel} {o : Outcome} {v : Bytes}
    (knows : c.Knows v) (h : serveRequest s c k = some o) : o.client.Knows v where
  given gives := by
    obtain ⟨bound, held⟩ := knows.given gives
    obtain ⟨same, behind⟩ := ((front_rule s).served h).front bound held.cookies
    exact ⟨bound, held.frame same.symm (serveRequest_path h) behind⟩
  missing gives := (serveRequest_path h).trans (knows.missing gives)

end Front

section Reads

inductive ComesToError (c : Client) : Client → Prop where
  | upFront (answered : c.ta.resp.status ≠ .xHangup) (error : c.ta.resp.status.isError = true) :
      ComesToError c c
  | overfull (answered : c.ta.resp.status ≠ .xHangup) (good : c.ta.resp.status.isError = false)
      (full : (prepareSuccess c).ok = false) : ComesToError c (prepareSuccess c).client

inductive ComesToBody (c : Client) : Client → Prop where
  | preserving {e : Client} (error : ComesToError c e) (body : e.ta.resp.preserveBodyOnError = false)
      (headers : e.ta.resp.preserveHeadersOnError = true) : ComesToBody c e
  | canned {e : Client} {r : Result} (error : ComesToError c e)
      (body : e.ta.resp.preserveBodyOnError = false)
      (headers : e.ta.resp.preserveHeadersOnError = false)
      (added : prepareErrorResponseHeaders e = some r) (ok : r.ok = true) : ComesToBody c r.client

/-- The reads of `req_path` behind a request, each with the client it is read from. -/
inductive ReadsPath (s : Server) (c : Client) (k : Kernel) : Client → Prop where
  | notFound {e : Client} (body : ComesToBody c e)
      (typed : (headerAddContentType (dropBody e k).1 (ascii "text/plain")).ok = true)
      (status : (headerAddContentType (dropBody e k).1 (ascii "text/plain")).client.ta.resp.status =
        .http404NotFound) :
      ReadsPath s c k (headerAddContentType (dropBody e k).1 (ascii "text/plain")).client
  | logs {o : Outcome} {r : Client} {k' : Kernel} (prepared : prepareResponse c k = some o)
      (goes : afterOutput .prepareResponse o = .next r k') (loud : s.silentMode = false) :
      ReadsPath s c k r

structure LeavesPath (c r : Client) : Prop where
  buffer : r.reqHeaders = c.reqHeaders
  path : r.ta.req.path = c.ta.req.path
  status : r.ta.resp.status = .http404NotFound → c.ta.resp.status = .http404NotFound

theorem LeavesPath.trans {c c' c'' : Client} (h : LeavesPath c c') (h' : LeavesPath c' c'') :
    LeavesPath c c'' :=
  ⟨h'.buffer.trans h.buffer, h'.path.trans h.path, fun status => h.status (h'.status status)⟩

theorem headerAdd_leavesPath (c : Client) (key : Bytes) (value : Rendering) :
    LeavesPath c (headerAdd c key value).client := by
  obtain ⟨buf, n, added | full⟩ := headerAdd_shape c key value
  · rw [added]
    exact ⟨rfl, rfl, id⟩
  · rw [full]
    exact ⟨rfl, rfl, nofun⟩

theorem path_rule : PrepareRule fun c _ r _ => LeavesPath c r where
  refl _ _ := ⟨rfl, rfl, id⟩
  trans := .trans
  line _ _ := ⟨rfl, rfl, id⟩
  header c _ key value := headerAdd_leavesPath c key value
  emptyLine _ _ := ⟨rfl, rfl, id⟩
  unended _ _ := ⟨rfl, rfl, id⟩
  describe _ _ := ⟨rfl, rfl, id⟩
  wipe _ _ := ⟨rfl, rfl, id⟩
  drop _ _ := ⟨rfl, rfl, id⟩
  texts c k texts := by
    rw [(appendTexts_spec c k texts).client]
    exact ⟨rfl, rfl, id⟩

variable {s : Server} {c e r : Client} {k : Kernel}

theorem ComesToError.leavesPath (h : ComesToError c e) (k : Kernel) : LeavesPath c e := by
  cases h with
  | upFront => exact path_rule.refl c k
  | overfull => exact path_rule.success c k

theorem ComesToBody.leavesPath (h : ComesToBody c e) (k : Kernel) : LeavesPath c e := by
  cases h with
  | preserving error => exact error.leavesPath k
  | canned error _ _ added => exact (error.leavesPath k).trans (path_rule.errorHeaders k added)

theorem ReadsPath.leavesPath (h : ReadsPath s c k r) : LeavesPath c r := by
  cases h with
  | @notFound e body =>
    have dropped : LeavesPath e (dropBody e k).1 := path_rule.drop e k
    exact (body.leavesPath k).trans (dropped.trans (headerAdd_leavesPath ..))
  | logs prepared goes =>
    have prepares := path_rule.prepared prepared
    unfold afterOutput at goes
    split at goes
    · cases goes
    · split at goes
      · cases goes
      · cases goes
        exact prepares

end Reads

def HeadGoesOn (c : Client) (k k' : Kernel) (v v' : Bytes) : Prop :=
  match c.ta.state with
  | .read => ∃ taken, pendingBytes k.input = taken ++ pendingBytes k'.input ∧ v' = v ++ taken
  | .done => v' = c.leftover
  | _ => v' = v

/-- A client that a connection of the server can have, with the bytes it has received for the head of
its transaction. -/
inductive Heard (s : Server) : Client → Bytes → Prop where
  | created (blocks : Blocks) : Heard s (createClientStruct blocks) []
  | next {c c' : Client} {k k' : Kernel} {v v' : Bytes} (before : Heard s c v)
      (step : serveStep s c k = .next c' k') (head : HeadGoesOn c k k' v v') : Heard s c' v'
  | waits {c : Client} {k : Kernel} {o : Outcome} {v v' : Bytes} (before : Heard s c v)
      (step : serveStep s c k = .back o) (rc : o.rc = 0) (head : HeadGoesOn c k o.kernel v v') :
      Heard s o.client v'
  | reset {c : Client} {k : Kernel} {o : Outcome} {v : Bytes} (before : Heard s c v)
      (step : serveStep s c k = .back o) : Heard s (resetClient o.client o.kernel).1 []

section Runs

variable {s : Server} {c : Client} {k : Kernel} {v : Bytes}

structure Recalls (c : Client) (v : Bytes) : Prop where
  consistent : Consistent c
  size : c.reqHeaders.length = httpBufsz
  reading : c.ta.state = .read →
    Progress v c c.ta.reqParseBlk c.ta.reqParseIter ∧ Known v c c.ta.reqParseIter
  asked : c.ta.state = .serve → c.Knows v ∧ GivesPath v
  answers : c.ta.state = .prepareResponse →
    c.Knows v ∧ (c.ta.resp.status = .http404NotFound → GivesPath v)

theorem Idle.recalls (idle : Idle c) (front : c.reqHeaders.take c.reqHeadersLen = v) :
    Recalls c v := by
  have reads : c.ta.state = .read := by rw [idle.fresh]
  have progress := idle.progress
  rw [front] at progress
  refine ⟨.reading reads progress, idle.size, fun _ => ⟨progress, .inl ?_⟩, ?_, ?_⟩
  · rw [idle.fresh]
  · rw [reads]
    nofun
  · rw [reads]
    nofun

def Served.Recalls (c : Client) (k : Kernel) (v : Bytes) : Served → Prop
  | next c' k' => ∀ v', HeadGoesOn c k k' v v' → Kitserv.Recalls c' v'
  | back o => o.client.reqHeaders.length = httpBufsz ∧
    (o.rc = 0 → ∀ v', HeadGoesOn c k o.kernel v v' → Kitserv.Recalls o.client v')
  | abort => True

/-- Behind the preparation of the response nothing reads the path any more. -/
theorem Recalls.sends {c' : Client} {v' : Bytes} (consistent : Consistent c')
    (size : c'.reqHeaders.length = httpBufsz)
    (state : c'.ta.state = .send ∨ c'.ta.state = .sendFile ∨ c'.ta.state = .done) :
    Recalls c' v' := by
  refine ⟨consistent, size, fun other => ?_, fun other => ?_, fun other => ?_⟩
  all_goals
    rw [other] at state
    simp at state

theorem knows_accepted {mem : Bytes} {req : Request} {p : Nat} (knows : c.Knows v)
    (head : headEnd v = .finish mem req p) (same : c.ta.req = req) : GivesPath v := by
  by_contra missing
  obtain ⟨q, path, -⟩ := (headEnd_strings head).path
  have none := knows.missing missing
  rw [same, path] at none
  cases none

theorem read_recalls (recalls : Recalls c v) (state : c.ta.state = .read) :
    (serveStep s c k).Recalls c k v := by
  obtain ⟨progress, known⟩ := recalls.reading state
  have step : serveStep s c k = afterStage .read (recvRequest c k) := by rw [serveStep, state]
  have kept := serveStep_keeps (s := s) (k := k) recalls.consistent
  obtain ⟨taken, bytes, room, recvEnd⟩ := recvRequest_spec k progress
  obtain ⟨taken', bytes', here⟩ := recvLoop_knows (k := k) progress known
  have size := (recvLoop_received c k c.ta.reqParseBlk c.ta.reqParseIter).1
  rw [← recvRequest] at bytes' here size
  obtain rfl := List.append_cancel_right (bytes.symm.trans bytes')
  have grown {v' : Bytes} (goes : HeadGoesOn c k (recvRequest c k).kernel v v') : v' = v ++ taken := by
    simp only [HeadGoesOn, state] at goes
    obtain ⟨taken', bytes', rfl⟩ := goes
    rw [List.append_cancel_right (bytes.symm.trans bytes')]
  rw [step] at kept ⊢
  revert kept here size recvEnd grown
  generalize recvRequest c k = o
  intro kept recvEnd size here grown
  have size' := size.trans progress.size
  have refuses (rc : o.rc = -1) (other : o.client.ta.resp.status ≠ .http404NotFound) :
      (afterStage .read o).Recalls c k v := by
    rw [afterStage, if_pos (by simp [rc])] at kept ⊢
    split at kept
    · rename_i hangup
      rw [if_pos hangup]
      exact ⟨size', fun zero => absurd zero (by simp)⟩
    · rename_i answered
      rw [if_neg answered]
      intro v' goes
      obtain rfl := grown goes
      have knows := here.resolve_left answered
      exact ⟨kept, size', (by rintro ⟨⟩), (by rintro ⟨⟩), fun _ => ⟨knows, fun status => absurd status other⟩⟩
  cases recvEnd with
  | waits rc progress' =>
    have reads : o.client.ta.state = .read := by rw [progress'.fresh]
    have unset : o.client.ta.resp.status ≠ .xHangup := by
      rw [progress'.fresh]
      rintro ⟨⟩
    rw [afterStage, if_neg (by simp [rc]), if_pos reads] at kept ⊢
    refine ⟨size', fun _ v' goes => ?_⟩
    obtain rfl := grown goes
    refine ⟨kept rfl, size', fun _ => ⟨progress', .inr (here.resolve_left unset)⟩, ?_, ?_⟩
    · simp only [reads]
      rintro ⟨⟩
    · simp only [reads]
      rintro ⟨⟩
  | accepts rc head buffer fill ta =>
    have serves : o.client.ta.state = .serve := by rw [ta]
    have unset : o.client.ta.resp.status ≠ .xHangup := by
      rw [ta]
      rintro ⟨⟩
    have knows := here.resolve_left unset
    rw [afterStage, if_neg (by simp [rc]), if_neg (by simp [serves])] at kept ⊢
    intro v' goes
    obtain rfl := grown goes
    refine ⟨kept, size', ?_, fun _ => ⟨knows, knows_accepted knows head (by rw [ta])⟩, ?_⟩
    · simp only [serves]
      rintro ⟨⟩
    · simp only [serves]
      rintro ⟨⟩
  | rejects rc head ta =>
    refine refuses rc ?_
    rw [ta]
    rcases parse_status head with rfl | rfl | rfl <;> rintro ⟨⟩
  | full rc undecided whole ta => exact refuses rc (by rw [ta]; rintro ⟨⟩)
  | hangup rc closed ta => exact refuses rc (by rw [ta]; rintro ⟨⟩)

theorem serve_recalls (recalls : Recalls c v) (state : c.ta.state = .serve) :
    (serveStep s c k).Recalls c k v := by
  obtain ⟨knows, gives⟩ := recalls.asked state
  have kept := serveStep_keeps (s := s) (k := k) recalls.consistent
  cases served : serveRequest s c k with
  | none =>
    have step : serveStep s c k = .abort := by simp only [serveStep, state, served]
    rw [step]
    trivial
  | some o =>
    have size := ((front_rule s).served served).size.trans recalls.size
    have knows' := knows.served served
    have same {k' : Kernel} {v' : Bytes} (goes : HeadGoesOn c k k' v v') : v' = v := by
      simpa only [HeadGoesOn, state] using goes
    rcases serveStep_serve state served with ⟨waits, step⟩ | ⟨prepares, step⟩
    · rw [step] at kept ⊢
      refine ⟨size, fun _ v' goes => ?_⟩
      obtain rfl := same goes
      refine ⟨kept rfl, size, ?_, fun _ => ⟨knows', gives⟩, ?_⟩
      · simp only [waits]
        rintro ⟨⟩
      · simp only [waits]
        rintro ⟨⟩
    · rw [step] at kept ⊢
      intro v' goes
      obtain rfl := same goes
      refine ⟨kept, size, ?_, ?_, fun _ => ⟨knows', fun _ => gives⟩⟩
      · simp only [prepares]
        rintro ⟨⟩
      · simp only [prepares]
        rintro ⟨⟩

theorem serveStep_recalls (recalls : Recalls c v) : (serveStep s c k).Recalls c k v := by
  have kept := serveStep_keeps (s := s) (k := k) recalls.consistent
  cases state : c.ta.state with
  | read => exact read_recalls recalls state
  | serve => exact serve_recalls recalls state
  | prepareResponse =>
    cases prepared : prepareResponse c k with
    | none =>
      have step : serveStep s c k = .abort := by simp only [serveStep, state, prepared]
      rw [step]
      trivial
    | some o =>
      have size : o.client.reqHeaders.length = httpBufsz := by
        rw [(prepareResponse_untouched prepared).buffer]
        exact recalls.size
      rcases serveStep_prepareResponse (s := s) state prepared with ⟨-, step⟩ | ⟨rc, step⟩
      · rw [step]
        exact ⟨size, fun zero => absurd zero (by simp)⟩
      · obtain ⟨rc', c', k'⟩ := o
        cases rc
        obtain ⟨c₁, buf, n, ready⟩ := prepareResponse_ready prepared
        rw [step] at kept ⊢
        exact fun v' _ => .sends kept size (.inl (by rw [ready]; rfl))
  | send =>
    have size : (sendResponse c k).client.reqHeaders.length = httpBufsz := by
      rw [sendResponse, (sendLoop_untouched k.writes c k).buffer]
      exact recalls.size
    rcases serveStep_send s k state with ⟨waits, step⟩ | ⟨goes, step⟩
    · rw [step] at kept ⊢
      exact ⟨size, fun _ v' _ => .sends (kept rfl) size (.inl waits)⟩
    · rw [step] at kept ⊢
      exact fun v' _ => .sends kept size (.inr (.inl goes))
  | sendFile =>
    have size : (sendResponseFile c k).client.reqHeaders.length = httpBufsz := by
      rw [(sendResponseFile_untouched c k).buffer]
      exact recalls.size
    rcases serveStep_sendFile s k state with ⟨-, step⟩ | ⟨-, waits, step⟩ | ⟨-, done, step⟩
    · rw [step]
      exact ⟨size, fun zero => absurd zero (by simp)⟩
    · rw [step] at kept ⊢
      exact ⟨size, fun _ v' _ => .sends (kept rfl) size (.inr (.inl waits))⟩
    · rw [step] at kept ⊢
      exact fun v' _ => .sends kept size (.inr (.inr done))
  | done =>
    cases recalls.consistent with
    | reading reads =>
      rw [state] at reads
      cases reads
    | refused refused =>
      have early := refused.state
      rw [state] at early
      simp at early
    | serving _ parsed =>
      obtain ⟨c', k', finalized, idle, left, -⟩ := finalizeTransaction_idle parsed.window (k := k)
      rw [serveStep_done state, finalized]
      intro v' goes
      simp only [HeadGoesOn, state] at goes
      exact idle.recalls (left.trans goes.symm)

theorem Heard.recalls (heard : Heard s c v) : Recalls c v := by
  induction heard with
  | created blocks => exact (createClientStruct_idle blocks).recalls rfl
  | @next c c' k k' v v' _ step head ih =>
    have goes := serveStep_recalls (s := s) (k := k) ih
    rw [step] at goes
    exact goes v' head
  | @waits c k o v v' _ step rc head ih =>
    have goes := serveStep_recalls (s := s) (k := k) ih
    rw [step] at goes
    exact goes.2 rc v' head
  | @reset c k o v _ step ih =>
    have goes := serveStep_recalls (s := s) (k := k) ih
    rw [step] at goes
    exact Idle.recalls ⟨goes.1, Nat.zero_le _, rfl⟩ rfl

theorem Recalls.goesOn {k' : Kernel} (recalls : Recalls c v)
    (kernel : (serveStep s c k).kernel? = some k') : ∃ v', HeadGoesOn c k k' v v' := by
  unfold HeadGoesOn
  cases state : c.ta.state with
  | read =>
    have step : serveStep s c k = afterStage .read (recvRequest c k) := by rw [serveStep, state]
    obtain ⟨taken, bytes, -⟩ := recvRequest_spec k (recalls.reading state).1
    rw [step, afterStage_kernel] at kernel
    cases kernel
    exact ⟨_, taken, bytes, rfl⟩
  | serve | prepareResponse | send | sendFile | done => exact ⟨_, rfl⟩

/-- Every client that a connection can have has received something for its head, or nothing yet. -/
theorem Reachable.heard (reached : Reachable s c) : ∃ v, Heard s c v := by
  induction reached with
  | created blocks => exact ⟨[], .created blocks⟩
  | @next c c' k k' _ step ih =>
    obtain ⟨v, heard⟩ := ih
    have kernel : (serveStep s c k).kernel? = some k' := by rw [step]; rfl
    obtain ⟨v', head⟩ := heard.recalls.goesOn kernel
    exact ⟨v', heard.next step head⟩
  | @waits c k o _ step rc ih =>
    obtain ⟨v, heard⟩ := ih
    have kernel : (serveStep s c k).kernel? = some o.kernel := by rw [step]; rfl
    obtain ⟨v', head⟩ := heard.recalls.goesOn kernel
    exact ⟨v', heard.waits step rc head⟩
  | @reset c k o _ step ih =>
    obtain ⟨v, heard⟩ := ih
    exact ⟨[], heard.reset step⟩

/-- A loud server logs the transaction it has prepared, with its path. -/
theorem logged_reads {r : Client} {k' : Kernel} (state : c.ta.state = .prepareResponse)
    (loud : s.silentMode = false) (step : serveStep s c k = .next r k') :
    ReadsPath s c k r ∧
      ∃ before, k'.trace = before ++
        [.logged r.ta.resp.status (r.ta.req.path.map (cString r.reqHeaders))] := by
  cases prepared : prepareResponse c k with
  | none => simp only [serveStep, state, prepared, reduceCtorEq] at step
  | some o =>
    rw [serveStep_prepared state prepared] at step
    cases goes : afterOutput .prepareResponse o with
    | next c' k'' =>
      rw [goes] at step
      cases step
      refine ⟨.logs prepared goes loud, k''.trace, ?_⟩
      rw [logTransaction, loud]
      rfl
    | back o' => rw [goes] at step; cases step
    | abort => rw [goes] at step; cases step

def Client.HasPath (c : Client) (v : Bytes) : Prop :=
  ∃ q, c.ta.req.path = some q ∧ TerminatedBelow (0 : Byte) c.reqHeaders q c.reqHeaders.length ∧
    cString c.reqHeaders q = Kitserv.requestPath v

theorem Client.Knows.hasPath_iff (knows : c.Knows v) : c.HasPath v ↔ GivesPath v := by
  constructor
  · rintro ⟨q, path, -⟩
    by_contra missing
    rw [knows.missing missing] at path
    cases path
  · intro gives
    obtain ⟨bound, held⟩ := knows.given gives
    obtain ⟨q, path, ends, reads⟩ := held.path
    exact ⟨q, path, ends.inside, reads⟩

/-- Where a response stage reads `req_path`, in any run, it is the string of the head of this
transaction exactly when the bytes received give one; the text of a 404 always finds it. -/
theorem logged_path_iff {r : Client} (heard : Heard s c v) (state : c.ta.state = .prepareResponse)
    (reads : ReadsPath s c k r) :
    (r.HasPath v ↔ GivesPath v) ∧ (r.ta.resp.status = .http404NotFound → GivesPath v) := by
  obtain ⟨knows, answers⟩ := heard.recalls.answers state
  have kept := reads.leavesPath
  have same : r.HasPath v ↔ c.HasPath v := by
    unfold Client.HasPath
    rw [kept.path, kept.buffer]
  exact ⟨same.trans knows.hasPath_iff, fun status => answers (kept.status status)⟩

end Runs

section Logged

def loudServer : Server := { rootServer with silentMode := false }

def Conn.logs (shown : Client → Bool) : Conn → Bool
  | serving c k => decide (c.ta.state = .prepareResponse) &&
    match serveStep loudServer c k with
    | .next r _ => shown r
    | _ => false
  | _ => false

theorem Conn.logs_reads {conn : Conn} {shown : Client → Bool} (logs : conn.logs shown = true) :
    ∃ c k r, conn = .serving c k ∧ c.ta.state = .prepareResponse ∧ ReadsPath loudServer c k r ∧
      shown r = true := by
  cases conn with
  | serving c k =>
    obtain ⟨state, goes⟩ := (Bool.and_eq_true _ _).mp logs
    have state := of_decide_eq_true state
    cases step : serveStep loudServer c k with
    | next r k' =>
      simp only [step] at goes
      exact ⟨c, k, r, rfl, state, (logged_reads state rfl step).1, goes⟩
    | back o => simp only [step, reduceCtorEq] at goes
    | abort => simp only [step, reduceCtorEq] at goes
  | waiting c k | closed c k => cases logs
  | aborted => cases logs

theorem logged_path_iff_get : ∃ c v k r, Heard loudServer c v ∧ ReadsPath loudServer c k r ∧
    (r.HasPath v ↔ GivesPath v) ∧ r.HasPath v := by
  have logs : (Conn.run loudServer 2 (.serving (createClientStruct Blocks.zeroed)
      (getRequest "/"))).logs (fun r => decide (r.ta.resp.status = .http404NotFound)) = true := by
    decide +kernel
  obtain ⟨c, k, r, run, state, reads, status⟩ := Conn.logs_reads logs
  have reached := run_reachable (s := loudServer) 2 (getRequest "/") (.created Blocks.zeroed)
  rw [run] at reached
  obtain ⟨v, heard⟩ := reached.heard
  obtain ⟨present, found⟩ := logged_path_iff heard state reads
  exact ⟨c, v, k, r, heard, reads, present, present.mpr (found (of_decide_eq_true status))⟩

def brewing : Kernel where
  input := [.chunk 66 (ascii "REW / HTTP/1.1\r\n\r\n")]
  fs _ := .empty

/-- The log of a 501 reads `req_path`, which nothing has set. -/
theorem unknown_method_logs_null : ∃ c k r,
    Conn.run loudServer 1 (.serving (createClientStruct Blocks.zeroed) brewing) = .serving c k ∧
      c.ta.state = .prepareResponse ∧ ReadsPath loudServer c k r ∧ r.ta.req.path = none := by
  have logs : (Conn.run loudServer 1 (.serving (createClientStruct Blocks.zeroed) brewing)).logs
      (fun r => decide (r.ta.req.path = none)) = true := by
    decide +kernel
  obtain ⟨c, k, r, run, state, reads, none⟩ := Conn.logs_reads logs
  exact ⟨c, k, r, run, state, reads, of_decide_eq_true none⟩

end Logged

end Kitserv
