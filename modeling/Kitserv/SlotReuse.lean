import Kitserv.BodyRoom

namespace Kitserv

open Memory

section PathLength

variable {len p r q : Nat} {mem mem' : Bytes} {req req' : Request}

def ParseState.least : ParseState → Nat
  | .new | .reqMethod | .reqPath => 0
  | .reqVersion => 12
  | .reqVersionLf => 3
  | .reqHead => 2
  | .reqHeadLf => 1

def ParseStep.AtLeast (n : Nat) : ParseStep → Prop
  | goto state _ _ _ r => state.pathStored = true ∧ state ≠ .reqVersion ∧ n ≤ r + state.least
  | finish _ _ q => n ≤ q
  | readMore .. | fail .. => True

theorem parseStep_atLeast {state : ParseState} (stored : state.pathStored = true)
    (version : state = .reqVersion → p = r) :
    (parseStep len state mem req p r).AtLeast (r + state.least) := by
  cases state with
  | new | reqMethod | reqPath => cases stored
  | reqVersion =>
    have low : r ≤ scanTo (· == 13) mem len r := le_scanTo _
    obtain rfl := version rfl
    simp only [parseStep, reqVersion, ParseState.least]
    generalize scanTo (· == 13) mem len p = r' at low
    split
    · trivial
    split
    · trivial
    split
    · rename_i text
      refine ⟨rfl, (by rintro ⟨⟩), ?_⟩
      simp only [ParseState.least]
      omega
    split
    · rename_i text
      refine ⟨rfl, (by rintro ⟨⟩), ?_⟩
      simp only [ParseState.least]
      omega
    · trivial
  | reqVersionLf =>
    simp only [parseStep, reqVersionLf, ParseState.least]
    split
    · trivial
    split
    · trivial
    · exact ⟨rfl, (by rintro ⟨⟩), by simp only [ParseState.least]; omega⟩
  | reqHead =>
    have low : r ≤ scanTo (· == 13) mem len r := le_scanTo _
    simp only [parseStep, reqHead, ParseState.least]
    generalize scanTo (· == 13) mem len r = r' at low
    have next : r + 2 ≤ r' + 1 + 1 := by omega
    split
    · trivial
    split
    · split
      · trivial
      · split
        · trivial
        · exact ⟨rfl, (by rintro ⟨⟩), next⟩
    · exact ⟨rfl, (by rintro ⟨⟩), next⟩
  | reqHeadLf =>
    simp only [parseStep, reqHeadLf, ParseState.least]
    split
    · trivial
    split
    · trivial
    split
    · exact ⟨rfl, (by rintro ⟨⟩), by simp only [ParseState.least]; omega⟩
    · exact Nat.le_refl _

theorem parse_atLeast {state : ParseState} (stored : state.pathStored = true)
    (version : state = .reqVersion → p = r)
    (done : parse len state mem req p r = .finish mem' req' q) : r + state.least ≤ q := by
  fun_induction parse len state mem req p r with
  | case1 state mem req p r state' mem₁ req₁ p₁ r₁ step ih =>
    have least := @parseStep_atLeast len p r mem req state stored version
    rw [step] at least
    obtain ⟨stored', other, least⟩ := least
    exact Nat.le_trans least (ih stored' (fun same => absurd same other) done)
  | case2 => cases done
  | case3 state mem req p r mem₁ req₁ p₁ step =>
    have least := @parseStep_atLeast len p r mem req state stored version
    rw [step] at least
    cases done
    exact least
  | case4 => cases done

/-- The path of a whole head leaves room for the rest of the head. -/
theorem requestPath_short {v : Bytes} (head : headEnd v = .finish mem req q) :
    (requestPath v).length + 17 ≤ q := by
  have known := headEnd_path v
  rw [head] at known
  have gives : GivesPath v := by
    by_contra missing
    obtain ⟨p, path, -⟩ := (headEnd_strings head).path
    cases (known.missing missing).symm.trans path
  obtain ⟨m, target, rest, method, printable, rfl⟩ := gives
  have absent : (32 : Byte) ∉ target := fun member => (printable 32 member).2 rfl
  have absent' : (32 : Byte) ∉ methodText m := by cases m <;> decide
  have shown : ¬ target.any (fun b => !isprint b) = true := by
    simpa using fun b member => (printable b member).1
  have asked : requestTarget (methodText m ++ 32 :: (target ++ 32 :: rest)) = target := by
    rw [requestTarget, (cut_space absent' _).2]
    exact (cut_space absent rest).1
  have short : (requestPath (methodText m ++ 32 :: (target ++ 32 :: rest))).length ≤ target.length := by
    rw [requestPath, asked]
    exact Nat.le_trans (length_takeWhile_le ..)
      (Nat.le_trans (length_percentDecode_le _) (length_takeWhile_le ..))
  have three : 3 ≤ (methodText m).length := by
    cases m with
    | unset => exact absurd rfl method
    | get | put | head | post | delete => decide
  have front : methodText m ++ 32 :: (target ++ 32 :: rest) =
      (methodText m ++ [32]) ++ (target ++ 32 :: rest) := by simp
  have size : (methodText m).length + 1 = (methodText m ++ [32]).length := by simp
  rw [headEnd_target method, front, size, parse_eq, reqPath_target rest absent, if_neg shown] at head
  generalize storePath (methodText m ++ [32] ++ (target ++ 32 :: rest))
    { method := m } (methodText m ++ [32]).length
    ((methodText m ++ [32]).length + target.length) = out at head
  obtain ⟨mem', req'⟩ := out
  cases attempted : attemptedPathTraversal (cString mem' (methodText m ++ [32]).length) with
  | true =>
    simp only [attempted, if_true] at head
    cases head
  | false =>
    simp only [attempted, Bool.false_eq_true, if_false] at head
    have least := parse_atLeast rfl (fun _ => rfl) head
    simp only [ParseState.least, List.length_append, List.length_singleton] at least
    omega

end PathLength

/-- A client that a connection of the server can have, if no handler that it has had so far has left
the body buffer without its room. -/
inductive Recyclable (s : Server) : Client → Prop where
  | created (blocks : Blocks) : Recyclable s (createClientStruct blocks)
  | next {c c' : Client} {k k' : Kernel} (before : Recyclable s c)
      (keeps : c.ta.state = .serve → serveKeepsBody s c k = true)
      (step : serveStep s c k = .next c' k') : Recyclable s c'
  | waits {c : Client} {k : Kernel} {o : Outcome} (before : Recyclable s c)
      (keeps : c.ta.state = .serve → serveKeepsBody s c k = true)
      (step : serveStep s c k = .back o) (rc : o.rc = 0) : Recyclable s o.client
  | reset {c : Client} {k : Kernel} {o : Outcome} (before : Recyclable s c)
      (keeps : c.ta.state = .serve → serveKeepsBody s c k = true)
      (step : serveStep s c k = .back o) : Recyclable s (resetClient o.client o.kernel).1

structure FirstSizes (c : Client) : Prop where
  start : c.respStart.length = httpBufszSmall
  body : c.respBody.Whole

/-- What a transaction relies on of those before it; `v` is what has come in of its head. -/
structure Reuses (c : Client) (v : Bytes) : Prop extends FirstSizes c where
  empty : c.ta.state = .read → c.respBody.len = 0
  head : c.ta.state = .serve ∨ c.ta.state = .prepareResponse ∧ c.ta.resp.status = .http404NotFound →
    CompleteHead v ∧ v.length ≤ httpBufsz

def Served.Reuses (c : Client) (k : Kernel) (v : Bytes) : Served → Prop
  | next c' k' => ∀ v', HeadGoesOn c k k' v v' → Kitserv.Reuses c' v'
  | back o => FirstSizes o.client ∧
    (o.rc = 0 → ∀ v', HeadGoesOn c k o.kernel v v' → Kitserv.Reuses o.client v')
  | abort => True

section Steps

variable {s : Server} {c c' : Client} {k : Kernel} {v : Bytes}

theorem FirstSizes.of_same (sizes : FirstSizes c) (start : c'.respStart = c.respStart)
    (body : c'.respBody = c.respBody) : FirstSizes c' :=
  ⟨start ▸ sizes.start, body ▸ sizes.body⟩

theorem Reuses.late (sizes : FirstSizes c)
    (state : c.ta.state = .send ∨ c.ta.state = .sendFile ∨ c.ta.state = .done) : Reuses c v := by
  refine ⟨sizes, fun other => ?_, fun other => ?_⟩
  · rw [other] at state
    simp at state
  · rcases other with other | ⟨other, -⟩
    all_goals
      rw [other] at state
      simp at state

theorem read_reuses (reuses : Reuses c v) (recalls : Recalls c v) (state : c.ta.state = .read) :
    (serveStep s c k).Reuses c k v := by
  obtain ⟨progress, -⟩ := recalls.reading state
  have step : serveStep s c k = afterStage .read (recvRequest c k) := by rw [serveStep, state]
  obtain ⟨taken, bytes, room, recvEnd⟩ := recvRequest_spec k progress
  have grown {v' : Bytes} (goes : HeadGoesOn c k (recvRequest c k).kernel v v') : v' = v ++ taken := by
    simp only [HeadGoesOn, state] at goes
    obtain ⟨taken', bytes', rfl⟩ := goes
    rw [List.append_cancel_right (bytes.symm.trans bytes')]
  have empty := reuses.empty state
  rw [step]
  revert grown recvEnd
  generalize recvRequest c k = o
  intro recvEnd grown
  have same {tail : List Event} (frame : RecvFrame c k o tail) :
      FirstSizes o.client ∧ o.client.respBody.len = 0 := by
    constructor
    · refine reuses.toFirstSizes.of_same ?_ ?_ <;> rw [frame.client]
    · rw [frame.client]
      exact empty
  have refuses {tail : List Event} (frame : RecvFrame c k o tail) (rc : o.rc = -1)
      (other : o.client.ta.resp.status ≠ .http404NotFound) : (afterStage .read o).Reuses c k v := by
    obtain ⟨sizes, -⟩ := same frame
    rw [afterStage, if_pos (by simp [rc])]
    split
    · exact ⟨sizes, fun zero => absurd zero (by simp)⟩
    · refine fun v' _ => ⟨sizes.of_same rfl rfl, (by rintro ⟨⟩), ?_⟩
      rintro (serves | ⟨-, status⟩)
      · cases serves
      · exact absurd status other
  cases recvEnd with
  | waits rc progress' _ _ _ _ frame =>
    obtain ⟨sizes, len⟩ := same frame
    have reads : o.client.ta.state = .read := by rw [progress'.fresh]
    rw [afterStage, if_neg (by simp [rc]), if_pos reads]
    refine ⟨sizes, fun _ v' _ => ⟨sizes, fun _ => len, ?_⟩⟩
    simp only [reads, reduceCtorEq, false_and, or_self]
    exact False.elim
  | accepts rc head buffer fill ta frame =>
    obtain ⟨sizes, len⟩ := same frame
    have serves : o.client.ta.state = .serve := by rw [ta]
    rw [afterStage, if_neg (by simp [rc]), if_neg (by simp [serves])]
    intro v' goes
    obtain rfl := grown goes
    exact ⟨sizes, fun _ => len, fun _ => ⟨⟨_, _, _, head⟩, room⟩⟩
  | rejects rc head ta frame =>
    refine refuses frame rc ?_
    rw [ta]
    rcases parse_status head with rfl | rfl | rfl <;> rintro ⟨⟩
  | full rc _ _ ta frame => exact refuses frame rc (by rw [ta]; rintro ⟨⟩)
  | hangup rc _ ta frame => exact refuses frame rc (by rw [ta]; rintro ⟨⟩)

theorem serveRequest_start {o : Outcome} (h : serveRequest s c k = some o) :
    o.client.respStart = c.respStart := by
  rcases serveRequest_cases h with ⟨-, rfl⟩ | ⟨tree, flags, -, rfl⟩ | ⟨c', k', enters, rfl⟩
  · exact (serveStatic_leaves s c k).start
  · rfl
  · have same : c'.respStart = c.respStart := by cases enters <;> rfl
    rw [← same]
    unfold serveEndpoint
    split
    · exact (serveStatic_leaves s c' k').start
    · rename_i handler hit
      have frame := runProgram_frame s (handler c'.ta.api.internalData) c'
        (k'.emit (.called c'.ta.api.internalData))
      simp only
      generalize runProgram s (handler c'.ta.api.internalData) c' _ = r at frame
      have start : r.1.respStart = c'.respStart := by rw [frame.client.same]
      split <;> exact start

theorem serve_reuses (reuses : Reuses c v) (state : c.ta.state = .serve)
    (keeps : serveKeepsBody s c k = true) : (serveStep s c k).Reuses c k v := by
  have complete := reuses.head (.inl state)
  cases served : serveRequest s c k with
  | none =>
    have step : serveStep s c k = .abort := by simp only [serveStep, state, served]
    rw [step]
    trivial
  | some o =>
    have sizes : FirstSizes o.client :=
      ⟨serveRequest_start served ▸ reuses.start, serveRequest_whole reuses.body keeps served⟩
    have same {k' : Kernel} {v' : Bytes} (goes : HeadGoesOn c k k' v v') : v' = v := by
      simpa only [HeadGoesOn, state] using goes
    rcases serveStep_serve state served with ⟨waits, step⟩ | ⟨prepares, step⟩
    · rw [step]
      refine ⟨sizes, fun _ v' goes => ?_⟩
      obtain rfl := same goes
      refine ⟨sizes, ?_, fun _ => complete⟩
      simp only [waits]
      rintro ⟨⟩
    · rw [step]
      intro v' goes
      obtain rfl := same goes
      refine ⟨sizes, ?_, fun _ => complete⟩
      simp only [prepares]
      rintro ⟨⟩

theorem start_rule : PrepareRule fun c _ r _ =>
    c.respStart.length = httpBufszSmall → r.respStart.length = httpBufszSmall where
  refl _ _ := id
  trans first later size := later (first size)
  line c _ size := (prepareRespStart_line size).1
  header c _ key value := by
    obtain ⟨buf, n, shape | shape⟩ := headerAdd_shape c key value <;> rw [shape] <;> exact id
  emptyLine _ _ := id
  unended _ _ := id
  describe _ _ := id
  wipe _ _ := id
  drop _ _ := id
  texts c k texts := by
    rw [(appendTexts_spec c k texts).client]
    exact id

/-- The path that a 404 names is one of a whole head. -/
theorem Reuses.pathFits (reuses : Reuses c v) (recalls : Recalls c v)
    (state : c.ta.state = .prepareResponse) : PathFits c := by
  intro status q path
  obtain ⟨knows, gives⟩ := recalls.answers state
  obtain ⟨⟨mem, req, n, head⟩, room⟩ := reuses.head (.inr ⟨state, status⟩)
  obtain ⟨bound, held⟩ := knows.given (gives status)
  obtain ⟨q', path', -, text⟩ := held.path
  cases path.symm.trans path'
  have short := requestPath_short head
  have inside := (headEnd_tail head).inside
  rw [text]
  omega

theorem prepare_reuses (reuses : Reuses c v) (recalls : Recalls c v)
    (state : c.ta.state = .prepareResponse) : (serveStep s c k).Reuses c k v := by
  cases prepared : prepareResponse c k with
  | none =>
    have step : serveStep s c k = .abort := by simp only [serveStep, state, prepared]
    rw [step]
    trivial
  | some o =>
    have sizes : FirstSizes o.client := ⟨start_rule.prepared prepared reuses.start,
      prepareResponse_whole reuses.body (reuses.pathFits recalls state) prepared⟩
    rcases serveStep_prepareResponse (s := s) state prepared with ⟨-, step⟩ | ⟨rc, step⟩
    · rw [step]
      exact ⟨sizes, fun zero => absurd zero (by simp)⟩
    · obtain ⟨rc', c', k'⟩ := o
      cases rc
      obtain ⟨c₁, buf, n, ready⟩ := prepareResponse_ready prepared
      rw [step]
      exact fun v' _ => .late sizes (.inl (by rw [ready]; rfl))

theorem serveStep_reuses (reuses : Reuses c v) (recalls : Recalls c v)
    (keeps : c.ta.state = .serve → serveKeepsBody s c k = true) :
    (serveStep s c k).Reuses c k v := by
  cases state : c.ta.state with
  | read => exact read_reuses reuses recalls state
  | serve => exact serve_reuses reuses state (keeps state)
  | prepareResponse => exact prepare_reuses reuses recalls state
  | send =>
    have sizes : FirstSizes (sendResponse c k).client := by
      rw [sendResponse, sendLoop_ta]
      exact reuses.toFirstSizes.of_same rfl rfl
    rcases serveStep_send s k state with ⟨waits, step⟩ | ⟨goes, step⟩
    · rw [step]
      exact ⟨sizes, fun _ v' _ => .late sizes (.inl waits)⟩
    · rw [step]
      exact fun v' _ => .late sizes (.inr (.inl goes))
  | sendFile =>
    have sizes : FirstSizes (sendResponseFile c k).client := by
      rw [sendResponseFile_ta]
      exact reuses.toFirstSizes.of_same rfl rfl
    rcases serveStep_sendFile s k state with ⟨-, step⟩ | ⟨-, waits, step⟩ | ⟨-, done, step⟩
    · rw [step]
      exact ⟨sizes, fun zero => absurd zero (by simp)⟩
    · rw [step]
      exact ⟨sizes, fun _ v' _ => .late sizes (.inr (.inl waits))⟩
    · rw [step]
      exact fun v' _ => .late sizes (.inr (.inr done))
  | done =>
    rw [serveStep_done state]
    unfold finalizeTransaction
    simp only
    split
    · rename_i left
      split at left <;> cases left
      trivial
    · rename_i c' k' left
      split at left
      · cases left
        refine fun v' _ => ⟨⟨reuses.start, reuses.body.reset _⟩, fun _ => Buffer.reset_len .., ?_⟩
        rintro (serves | ⟨prepares, -⟩)
        · cases serves
        · cases prepares
      · cases left

/-- What a slot is like in every connection, at every point of every transaction. -/
theorem Recyclable.heard (used : Recyclable s c) : ∃ v, Heard s c v ∧ Reuses c v := by
  induction used with
  | created blocks =>
    have size : httpBufsz ≤ blocks.respBody.length := Nat.le_of_eq blocks.respBody_len.symm
    exact ⟨[], .created blocks, ⟨blocks.respStart_len, ⟨Int.ofNat_le.mpr size, size⟩⟩, fun _ => rfl,
      nofun⟩
  | @next c c' k k' _ keeps step ih =>
    obtain ⟨v, heard, reuses⟩ := ih
    have kernel : (serveStep s c k).kernel? = some k' := by rw [step]; rfl
    obtain ⟨v', head⟩ := heard.recalls.goesOn kernel
    have kept := serveStep_reuses reuses heard.recalls keeps
    rw [step] at kept
    exact ⟨v', heard.next step head, kept v' head⟩
  | @waits c k o _ keeps step rc ih =>
    obtain ⟨v, heard, reuses⟩ := ih
    have kernel : (serveStep s c k).kernel? = some o.kernel := by rw [step]; rfl
    obtain ⟨v', head⟩ := heard.recalls.goesOn kernel
    have kept := serveStep_reuses reuses heard.recalls keeps
    rw [step] at kept
    exact ⟨v', heard.waits step rc head, kept.2 rc v' head⟩
  | @reset c k o _ keeps step ih =>
    obtain ⟨v, heard, reuses⟩ := ih
    have kept := serveStep_reuses reuses heard.recalls keeps
    rw [step] at kept
    exact ⟨[], heard.reset step, ⟨kept.1.start, kept.1.body.reset _⟩, fun _ => Buffer.reset_len ..,
      nofun⟩

end Steps

end Kitserv
