import Kitserv.Admission
import Kitserv.System

/-! A server without an API does not stop: no stage of a connection aborts, no assertion of the slots
fails, and every thread has a step to go on with. -/
namespace Kitserv

section Answers

variable {c : Client} {k : Kernel}

def Client.Named (c : Client) : Prop :=
  c.ta.resp.status = .http404NotFound → c.ta.req.path.isSome = true

theorem errorBodyTexts_known (named : c.Named) : ∃ texts, errorBodyTexts c = some texts := by
  by_cases missing : c.ta.resp.status = .http404NotFound
  · obtain ⟨q, path⟩ := Option.isSome_iff_exists.mp (named missing)
    refine ⟨[ascii "Not found: ", cString c.reqHeaders q], ?_⟩
    simp only [errorBodyTexts, missing, path, Option.map_some]
  · unfold errorBodyTexts
    split
    case h_3 same => exact absurd same missing
    all_goals exact ⟨_, rfl⟩

theorem prepareErrorResponseBody_answers (named : c.Named) :
    ∃ o, prepareErrorResponseBody c k = some o := by
  simp only [prepareErrorResponseBody, headerAddContentType]
  obtain ⟨buf, n, added | full⟩ := headerAdd_shape (dropBody c k).1 (ascii "content-type")
    (some (ascii "text/plain"))
  · have still : ((dropBody c k).1.setHeaders buf n).Named := named
    obtain ⟨texts, known⟩ := errorBodyTexts_known still
    simp only [added, not_true_eq_false, if_false, known, Option.map_some]
    exact ⟨_, rfl⟩
  · simp only [full, Bool.false_eq_true, not_false_eq_true, if_true]
    exact ⟨_, rfl⟩

theorem prepareErrorResponseHeaders_answers (flags : c.ta.api.allowFlags = 0) :
    ∃ r, prepareErrorResponseHeaders c = some r ∧ (r.ok = true → c.Named → r.client.Named) := by
  obtain ⟨r, found⟩ := prepareErrorResponseHeaders_iff.mpr fun _ => Or.inl flags
  refine ⟨r, found, fun ok named => ?_⟩
  simp only [prepareErrorResponseHeaders] at found
  split at found
  · have none : ¬ (resetHeaders c).ta.api.allowFlags ≠ 0 := not_not.mpr flags
    simp only [headerAddAllow, if_neg none, Option.some.injEq] at found
    obtain ⟨buf, n, added | full⟩ := headerAdd_shape (resetHeaders c) (ascii "allow")
      (some (ascii "GET, HEAD"))
    · rw [← found, added]
      exact named
    · rw [← found, full] at ok
      cases ok
  · cases found
    exact named

theorem errorResponse_answers (flags : c.ta.api.allowFlags = 0) (named : c.Named) :
    ∃ o, errorResponse c k = some o := by
  have error : ∃ e, prepareError c k = some e := by
    unfold prepareError
    split
    · exact ⟨_, rfl⟩
    · split
      · exact prepareErrorResponseBody_answers named
      · obtain ⟨r, found, still⟩ := prepareErrorResponseHeaders_answers flags
        simp only [found]
        split
        · rename_i ok
          exact prepareErrorResponseBody_answers (still ok named)
        · exact ⟨_, rfl⟩
  obtain ⟨e, found⟩ := error
  exact ⟨_, by rw [errorResponse, found]; rfl⟩

/-- A response, or the error that stands for it, can be prepared. -/
theorem prepareResponse_answers (flags : c.ta.api.allowFlags = 0) (named : c.Named) :
    ∃ o, prepareResponse c k = some o := by
  unfold prepareResponse
  split
  · exact ⟨_, rfl⟩
  · split
    · exact errorResponse_answers flags named
    · simp only
      split
      · exact ⟨_, rfl⟩
      · obtain ⟨buf, n, done | full | wrong⟩ := prepareSuccess_shape c
        · rename_i failed
          rw [done] at failed
          exact absurd rfl failed
        · rw [full]
          exact errorResponse_answers flags nofun
        · rw [wrong]
          exact errorResponse_answers flags named

end Answers

section Stages

variable {s : Server} {c : Client} {k : Kernel}

def Client.Unrouted (c : Client) : Prop :=
  c.ta.state = .prepareResponse → c.ta.api.allowFlags = 0

theorem Client.Unrouted.of_state {c' : Client} (other : c'.ta.state ≠ .prepareResponse) : c'.Unrouted :=
  fun state => absurd state other

theorem recvRequest_unrouted {v : Bytes} (progress : Progress v c c.ta.reqParseBlk c.ta.reqParseIter) :
    (recvRequest c k).client.ta.api.allowFlags = 0 := by
  obtain ⟨taken, -, -, ends⟩ := recvRequest_spec k progress
  cases ends with
  | waits rc progress' => rw [progress'.fresh]
  | accepts rc head buffer fill ta => rw [ta]
  | rejects rc head ta => rw [ta]
  | full rc undecided whole ta => rw [ta]
  | hangup rc closed ta => rw [ta]

theorem serveStep_unrouted (static : s.apiTree = none) (reached : Reachable s c) :
    (serveStep s c k).Keeps Client.Unrouted := by
  obtain ⟨v, heard⟩ := reached.heard
  cases state : c.ta.state with
  | read =>
    have flags := recvRequest_unrouted (k := k) (heard.recalls.reading state).1
    have step : serveStep s c k = afterStage .read (recvRequest c k) := by rw [serveStep, state]
    rw [step, afterStage]
    split
    · split
      · exact fun rc => absurd rc (by simp)
      · exact fun _ => flags
    · split
      · exact fun _ _ => flags
      · exact fun _ => flags
  | serve =>
    have served : serveRequest s c k = some (serveStatic s c k) := by simp only [serveRequest, static]
    have missed : c.ta.api.endpointHit = none := by
      cases hit : c.ta.api.endpointHit with
      | none => rfl
      | some e =>
        have tree := (reached.carries.routed state (by rw [hit]; rfl)).1
        rw [static] at tree
        cases tree
    have flags : (serveStatic s c k).client.ta.api.allowFlags = 0 := by
      rw [(serveStatic_leaves s c k).api, reached.carries.fresh (.inr ⟨state, missed⟩)]
    rcases serveStep_serve state served with ⟨-, step⟩ | ⟨-, step⟩
    · rw [step]
      exact fun _ _ => flags
    · rw [step]
      exact fun _ => flags
  | prepareResponse =>
    cases prepared : prepareResponse c k with
    | none =>
      have step : serveStep s c k = .abort := by simp only [serveStep, state, prepared]
      rw [step]
      trivial
    | some o =>
      rcases serveStep_prepareResponse (s := s) state prepared with ⟨-, step⟩ | ⟨rc, step⟩
      · rw [step]
        exact fun rc => absurd rc (by simp)
      · rw [step]
        obtain ⟨rc', c', k'⟩ := o
        cases rc
        obtain ⟨c₁, buf, n, ready⟩ := prepareResponse_ready prepared
        refine .of_state ?_
        rw [ready]
        rintro ⟨⟩
  | send =>
    rcases serveStep_send s k state with ⟨waits, step⟩ | ⟨sent, step⟩
    · rw [step]
      exact fun _ => .of_state (by simp [waits])
    · rw [step]
      exact .of_state (by simp [sent])
  | sendFile =>
    rcases serveStep_sendFile s k state with ⟨-, step⟩ | ⟨-, waits, step⟩ | ⟨-, done, step⟩
    · rw [step]
      exact fun rc => absurd rc (by simp)
    · rw [step]
      exact fun _ => .of_state (by simp [waits])
    · rw [step]
      exact .of_state (by simp [done])
  | done =>
    rw [serveStep_done state]
    cases finalized : finalizeTransaction c k with
    | none => trivial
    | some r =>
      obtain ⟨c', k'⟩ := r
      simp only [finalizeTransaction] at finalized
      split at finalized
      · cases finalized
        exact .of_state (by rintro ⟨⟩)
      · cases finalized

theorem Reachable.unrouted (static : s.apiTree = none) (reached : Reachable s c) : c.Unrouted := by
  cases reached with
  | created blocks => exact .of_state nofun
  | @next c₀ _ k k' before step =>
    have kept := serveStep_unrouted (k := k) static before
    rw [step] at kept
    exact kept
  | @waits c₀ k o before step rc =>
    have kept := serveStep_unrouted (k := k) static before
    rw [step] at kept
    exact kept rc
  | reset => exact .of_state nofun

theorem afterStage_returns (state : TransactionState) (o : Outcome) : afterStage state o ≠ .abort := by
  unfold afterStage
  split
  · split <;> nofun
  · split <;> nofun

theorem afterOutput_returns (state : TransactionState) (o : Outcome) : afterOutput state o ≠ .abort := by
  unfold afterOutput
  split
  · nofun
  · split <;> nofun

/-- No stage of a connection of a server without an API aborts. -/
theorem serveStep_returns (static : s.apiTree = none) (reached : Reachable s c) :
    serveStep s c k ≠ .abort := by
  obtain ⟨v, heard⟩ := reached.heard
  have recalls := heard.recalls
  cases state : c.ta.state with
  | read =>
    have step : serveStep s c k = afterStage .read (recvRequest c k) := by rw [serveStep, state]
    rw [step]
    exact afterStage_returns _ _
  | serve =>
    have step : serveStep s c k = afterStage .serve (serveStatic s c k) := by
      simp only [serveStep, state, serveRequest, static]
    rw [step]
    exact afterStage_returns _ _
  | prepareResponse =>
    have named : c.Named := by
      intro missing
      obtain ⟨knows, gives⟩ := recalls.answers state
      obtain ⟨bound, held⟩ := knows.given (gives missing)
      obtain ⟨q, path, -, -⟩ := held.path
      rw [path]
      rfl
    obtain ⟨o, prepared⟩ := @prepareResponse_answers c k (reached.unrouted static state) named
    rcases serveStep_prepareResponse (s := s) state prepared with ⟨-, step⟩ | ⟨-, step⟩
    · rw [step]
      rintro ⟨⟩
    · rw [step]
      rintro ⟨⟩
  | send =>
    have step : serveStep s c k = afterOutput .send (sendResponse c k) := by rw [serveStep, state]
    rw [step]
    exact afterOutput_returns _ _
  | sendFile =>
    have step : serveStep s c k = afterOutput .sendFile (sendResponseFile c k) := by
      rw [serveStep, state]
    rw [step]
    exact afterOutput_returns _ _
  | done =>
    have parsed : HeadParsed c := by
      cases recalls.consistent with
      | reading reads => cases state.symm.trans reads
      | serving _ parsed => exact parsed
      | refused refused => rcases refused.state with other | other | other <;> cases state.symm.trans other
    obtain ⟨c', k', finalized, -⟩ := finalizeTransaction_idle parsed.window (k := k)
    rw [serveStep_done state, finalized]
    rintro ⟨⟩

end Stages

def AccepterThread.Within (n : Nat) : AccepterThread → Prop
  | selecting _ i bestWorker bestScore => i ≤ n ∧ (∀ v, bestWorker = some v → v < n) ∧
      (bestWorker = none → i = 0 ∧ bestScore < 0)
  | adding _ victim _ => victim < n
  | accepting | refusing _ => True

section Threads

variable {s s' : Threads} {n a : Nat} {memory : List (List RawSlot)} {holders : Holders}

theorem within_update {thread : AccepterThread} (within : ∀ b, (s.accepters b).Within n)
    (accepters : s'.accepters = Function.update s.accepters a thread) (mine : thread.Within n) (b : Nat) :
    (s'.accepters b).Within n := by
  rw [accepters]
  by_cases same : b = a
  · subst same
    rwa [Function.update_self]
  · rw [Function.update_of_ne same]
    exact within b

theorem Tracks.count {w : Nat} {worker : Worker} (t : Tracks memory holders s)
    (found : s.workers[w]? = some worker) : 0 ≤ worker.container.freelistCount := by
  obtain ⟨slots, slotsAt⟩ := t.slots found
  obtain ⟨free, chain⟩ := (t.workers w slots worker slotsAt found).chain
  rw [chain.count]
  exact Int.natCast_nonneg _

theorem within_change (t : Tracks memory holders s) (change : Change s s')
    (within : ∀ b, (s.accepters b).Within s.workers.length) (b : Nat) :
    (s'.accepters b).Within s.workers.length := by
  cases change with
  | accepted accepters =>
    exact within_update within accepters ⟨Nat.zero_le _, nofun, fun _ => ⟨rfl, by decide⟩⟩ b
  | @scored a i fd score best worker before found accepters =>
    have here := within a
    rw [before] at here
    obtain ⟨-, known, unset⟩ := here
    obtain ⟨inside, -⟩ := List.getElem?_eq_some_iff.mp found
    have nonneg := t.count found
    refine within_update within accepters ⟨inside, fun v same => ?_, fun none => ?_⟩ b
    · split at same
      · cases same
        exact inside
      · exact known v same
    · split at none
      · cases none
      · rename_i worse
        obtain ⟨-, negative⟩ := unset none
        omega
  | took found accepters =>
    obtain ⟨inside, -⟩ := List.getElem?_eq_some_iff.mp found
    exact within_update within accepters inside b
  | refused accepters => exact within_update within accepters trivial b
  | worked accepters =>
    rcases accepters b with same | accepting
    · exact same ▸ within b
    · rw [accepting]
      trivial

end Threads

section Moves

variable {server : Server} {s s' : System} {memory : List (List RawSlot)} {holders : Holders}

/-- The accepters of the server go on as those of the threads alone. -/
theorem System.step_change {move : Move} (step : s.step server move = some s') :
    Change s.threads s'.threads := by
  have threads {action : Action} (moved : s.onThreads (s.threads.step action) = some s') :
      Change s.threads s'.threads := by
    obtain ⟨threads, found, rfl⟩ := System.onThreads_some moved
    exact change_of_step found
  cases move with
  | accept a fd k content =>
    exact @change_of_step s.threads s'.threads (.accept a fd) (System.accept_threads step)
  | score a => exact @threads (.score a) step
  | take a => exact @threads (.take a) step
  | add a ok => exact @threads (.add a ok) step
  | refuse a => exact @threads (.refuse a) step
  | wait w ready => exact @threads (.wait w ready) step
  | serve w =>
    obtain ⟨worker, i, events, conn, found, busy, slot, served⟩ := System.serve_some step
    rcases served with ⟨c, k, -, rfl⟩ | ⟨o, -, rfl⟩
    · exact .setWorker found (fun _ => .inl rfl) rfl rfl (Int.le_refl _)
    · exact .setWorker found (fun _ => .inl rfl) rfl rfl (Int.le_refl _)
  | remove w => exact @threads (.remove w) step
  | close w => exact @change_of_step s.threads s'.threads (.close w) (System.close_threads step)
  | release w => exact @threads (.release w (s.left w)) step

/-- What holds of every state of the server: the sockets have their holders, the connections are
isolated, and the accepters are about the workers that there are. -/
structure System.Sane (server : Server) (memory : List (List RawSlot)) (s : System) : Prop where
  kept : s.Kept server .none memory
  within : ∀ a, (s.threads.accepters a).Within memory.length

theorem System.Sane.step {move : Move} (h : s.Sane server memory) (step : s.step server move = some s') :
    s'.Sane server memory := by
  obtain ⟨⟨holders, tracks, isolated⟩, within⟩ := h
  obtain ⟨holders', tracks'⟩ := tracks_move tracks step
  have fine : move.Fine Terms.none.fine := by cases move <;> trivial
  refine ⟨⟨holders', tracks', isolated_move tracks isolated (fun _ _ _ _ => trivial) fine step⟩, ?_⟩
  rw [← tracks.size] at within ⊢
  exact within_change tracks (System.step_change step) within

/-- The free lists end in NULL, as those of `connection_init` do when malloc returns zeroed memory. -/
def Terminated (memory : List (List RawSlot)) : Prop :=
  memory ≠ [] ∧ ∀ slots ∈ memory, endLink slots = none

theorem Tracks.accepts {s : Threads} {w : Nat} {worker : Worker} (t : Tracks memory holders s)
    (terminated : Terminated memory) (found : s.workers[w]? = some worker) (fd : Int) :
    ∃ result, connectionAccept worker.container fd = some result := by
  obtain ⟨slots, slotsAt⟩ := t.slots found
  obtain ⟨free, chain⟩ := (t.workers w slots worker slotsAt found).chain
  cases free with
  | nil =>
    rw [chain.full, if_pos (terminated.2 slots (List.mem_of_getElem? slotsAt))]
    exact ⟨_, rfl⟩
  | cons i rest =>
    obtain ⟨conn, -, accepted, -⟩ := chain.take fd
    exact ⟨_, accepted⟩

inductive Mover where
  | accepter (a : Nat)
  | worker (w : Nat)

def Move.mover : Move → Mover
  | accept a _ _ _ | score a | take a | add a _ | refuse a => .accepter a
  | wait w _ | serve w | remove w | close w | release w => .worker w

def System.GoesOn (server : Server) (s : System) (mover : Mover) : Prop :=
  ∃ move : Move, move.mover = mover ∧ (s.step server move).isSome = true

/-- An accepter can go on, whatever it is doing. -/
theorem accepter_goesOn (h : s.Sane server memory) (terminated : Terminated memory) (a : Nat) :
    s.GoesOn server (.accepter a) := by
  obtain ⟨⟨holders, tracks, -⟩, within⟩ := h
  have here := within a
  cases thread : s.threads.accepters a with
  | accepting =>
    refine ⟨.accept a (-1) (s.left 0) fun _ _ => [], rfl, ?_⟩
    simp [System.step, System.accept, Threads.accept, thread]
  | refusing fd =>
    refine ⟨.refuse a, rfl, ?_⟩
    simp [System.step, System.onThreads, Threads.refuse, thread]
  | adding fd victim conn =>
    rw [thread, AccepterThread.Within, ← tracks.size] at here
    refine ⟨.add a true, rfl, ?_⟩
    simp [System.step, System.onThreads, Threads.add, thread, List.getElem?_eq_getElem here]
  | selecting fd i best score =>
    rw [thread, AccepterThread.Within, ← tracks.size] at here
    obtain ⟨le, known, unset⟩ := here
    rcases Nat.lt_or_eq_of_le le with inside | last
    · have found := List.getElem?_eq_getElem inside
      have nonneg := tracks.count found
      refine ⟨.score a, rfl, ?_⟩
      simp only [System.step, System.onThreads, Threads.score, thread, found, Option.isSome_map]
      rw [if_neg (Int.not_lt.mpr nonneg)]
      split <;> rfl
    · cases best with
      | none =>
        obtain ⟨zero, -⟩ := unset rfl
        rw [zero, tracks.size] at last
        exact absurd (List.length_eq_zero_iff.mp last.symm) terminated.1
      | some victim =>
        have found := List.getElem?_eq_getElem (known victim rfl)
        obtain ⟨⟨link, container⟩, accepted⟩ := tracks.accepts terminated found fd
        refine ⟨.take a, rfl, ?_⟩
        simp only [System.step, System.onThreads, Threads.take, thread, last, if_true, found, accepted,
          Option.isSome_map]
        cases link <;> rfl

/-- A worker can go on: no call aborts, and each of its slots has a record. -/
theorem worker_goesOn (static : server.apiTree = none) (h : s.Sane server memory) {w : Nat}
    (lt : w < memory.length) :
    s.GoesOn server (.worker w) := by
  obtain ⟨⟨holders, tracks, isolated⟩, -⟩ := h
  rw [← tracks.size] at lt
  have found := List.getElem?_eq_getElem lt
  generalize s.threads.workers[w] = worker at found
  obtain ⟨slots, slotsAt⟩ := tracks.slots found
  have mine := tracks.workers w slots worker slotsAt found
  have pending := mine.pending
  cases thread : worker.thread with
  | serving events =>
    cases events with
    | nil =>
      refine ⟨.wait w [], rfl, ?_⟩
      simp [System.step, System.onThreads, Threads.wait, found, thread]
    | cons i events =>
      obtain ⟨fd, held⟩ := pending i (by simp [thread, WorkerThread.pending])
      obtain ⟨conn, slot, -⟩ := mine.sock fd i ⟨_, held, rfl⟩
      have called : worker.thread.turn i = .called := by
        rw [thread]
        exact if_pos rfl
      have alone := isolated.workers w worker found i conn slot
      rw [called, if_neg (fun free => by cases called.symm.trans (tracks.free_rests found free))] at alone
      have returns := serveStep_returns (k := (s.sockets conn.sockfd).kernel) static alone.reached
      refine ⟨.serve w, rfl, ?_⟩
      simp only [System.step, System.serve, found, thread, slot]
      cases step : serveStep server conn.client (s.sockets conn.sockfd).kernel with
      | next c k => rfl
      | back o => simp only [Threads.serve, found, thread, slot, Option.map_some, Option.isSome_some]
      | abort => exact absurd step returns
  | removing i events =>
    obtain ⟨fd, held⟩ := pending i (by simp [thread, WorkerThread.pending])
    obtain ⟨conn, slot, -⟩ := mine.sock fd i ⟨_, held, rfl⟩
    refine ⟨.remove w, rfl, ?_⟩
    simp [System.step, System.onThreads, Threads.remove, found, thread, slot]
  | closing i events =>
    obtain ⟨fd, held⟩ := mine.closing i events thread
    obtain ⟨conn, slot, -⟩ := mine.sock fd i ⟨_, held, rfl⟩
    refine ⟨.close w, rfl, ?_⟩
    simp [System.step, System.close, Threads.close, found, thread, slot]
  | releasing i events =>
    obtain ⟨lt, -⟩ := mine.releasing i events thread
    obtain ⟨free, chain⟩ := mine.chain
    obtain ⟨conn, slot⟩ := chain.slot lt
    refine ⟨.release w, rfl, ?_⟩
    simp [System.step, System.onThreads, Threads.release, found, thread, connectionClose, slot]

end Moves

section Runs

variable {server : Server} {memory : List (List RawSlot)} {sockets : Int → Socket} {left : Nat → Kernel}
  {moves : List Move} {s : System}

theorem run_sane
    (run : Monitor.run (System.step server) (.start memory sockets left) moves = some s) :
    s.Sane server memory := by
  have keep (s : System) (move : Move) (s' : System) (h : s.Sane server memory) (_ : True)
      (step : s.step server move = some s') : s'.Sane server memory := h.step step
  have start : (System.start memory sockets left).Sane server memory :=
    ⟨⟨_, Tracks.start memory, isolated_start sockets left⟩, fun _ => trivial⟩
  exact Monitor.run_keeps keep start run fun _ _ => trivial

/-- Nothing stops the server: whatever its threads have done, each of them has a step to go on with, so
no stage aborts, no assertion of the slots fails, and no pointer is used that is to no slot. -/
theorem site_goes_on (static : server.apiTree = none) (terminated : Terminated memory)
    (run : Monitor.run (System.step server) (.start memory sockets left) moves = some s) :
    (∀ a, s.GoesOn server (.accepter a)) ∧ ∀ w < memory.length, s.GoesOn server (.worker w) := by
  have sane := run_sane run
  exact ⟨accepter_goesOn sane terminated, fun w lt => worker_goesOn static sane lt⟩

theorem site_goes_on_two : ∃ s,
    Monitor.run (System.step rootServer) emptySite servingTwo = some s ∧
    (∀ a, s.GoesOn rootServer (.accepter a)) ∧ ∀ w < 1, s.GoesOn rootServer (.worker w) := by
  obtain ⟨s, run⟩ := servingTwo_runs
  have terminated : Terminated [[rawSlot (some 1), rawSlot none]] :=
    ⟨List.cons_ne_nil _ _, by rintro slots (_ | ⟨_, ⟨⟩⟩); rfl⟩
  exact ⟨s, run, site_goes_on rfl terminated run⟩

end Runs

end Kitserv
