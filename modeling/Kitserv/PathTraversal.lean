import Kitserv.RecvChunks

/-! The traversal check against what it is for: no segment of a path is "..". The check looks at
the first two dots in a row only, so it decides by the first segment that contains any. -/
namespace Kitserv

open Memory

def segments : Bytes → List Bytes
  | [] => [[]]
  | b :: rest =>
    if b = 47 then [] :: segments rest
    else match segments rest with
      | [] => [[b]]
      | part :: parts => (b :: part) :: parts

def dotDot : Bytes := ascii ".."

def hasDots (part : Bytes) : Bool := (strstr part dotDot).isSome

/-- A segment with two dots in a row that is not "..", in front of the first ".." segment. -/
def Masked (path : Bytes) : Prop :=
  ∃ before part after, segments path = before ++ part :: after ∧
    hasDots part = true ∧ dotDot ∉ before ∧ part ≠ dotDot ∧ dotDot ∈ after

theorem strstr_cons (b : Byte) (s needle : Bytes) :
    strstr (b :: s) needle =
      if needle.isPrefixOf (b :: s) then some 0 else (strstr s needle).map (· + 1) := by
  simp only [strstr, List.length_cons]
  rw [List.range_succ_eq_map, List.find?_cons]
  split
  · rename_i h
    simp only [List.drop_zero] at h
    rw [if_pos h]
  · rename_i h
    simp only [List.drop_zero] at h
    rw [if_neg (by simp [h]), List.find?_map]
    rfl

def endsSegment (s : Bytes) (i : Nat) : Bool := decide (s[i]? = none ∨ s[i]? = some 47)

def checkFrom (slash : Bool) (s : Bytes) : Bool :=
  match strstr s dotDot with
  | none => false
  | some 0 => endsSegment s 2 && slash
  | some (i + 1) => endsSegment s (i + 3) && decide (s[i]? = some 47)

theorem attemptedPathTraversal_of_plain {path : Bytes} (plain : 46 ∉ path) :
    attemptedPathTraversal path = false := by
  unfold attemptedPathTraversal
  cases found : strstr path (ascii "..") with
  | none => rfl
  | some i =>
    have here := List.find?_some found
    obtain ⟨rest, dots⟩ := List.isPrefixOf_iff_prefix.mp here
    have inside : 46 ∈ path.drop i := by
      rw [← dots]
      exact List.mem_append_left _ (by decide)
    exact absurd (List.mem_of_mem_drop inside) plain

theorem attemptedPathTraversal_eq (s : Bytes) : attemptedPathTraversal s = checkFrom true s := by
  unfold attemptedPathTraversal checkFrom dotDot
  cases strstr s (ascii "..") with
  | none => rfl
  | some found =>
    simp only
    cases found with
    | zero =>
      by_cases follows : s[0 + 2]? = none ∨ s[0 + 2]? = some 47
      · rw [if_pos follows]
        simp only [endsSegment, decide_eq_true follows]
        rfl
      · rw [if_neg follows]
        simp only [endsSegment, decide_eq_false follows]
        rfl
    | succ i =>
      by_cases follows : s[i + 1 + 2]? = none ∨ s[i + 1 + 2]? = some 47
      · rw [if_pos follows]
        simp only [endsSegment, decide_eq_true follows]
        simp
      · rw [if_neg follows]
        simp only [endsSegment, decide_eq_false follows]
        rfl

theorem checkFrom_cons (slash : Bool) (b : Byte) (s : Bytes) :
    checkFrom slash (b :: s) =
      if dotDot.isPrefixOf (b :: s) then endsSegment s 1 && slash else checkFrom (b == 47) s := by
  simp only [checkFrom, strstr_cons]
  by_cases here : dotDot.isPrefixOf (b :: s) = true
  · rw [if_pos here, if_pos here]
    simp [endsSegment]
  · rw [if_neg here, if_neg here]
    cases strstr s dotDot with
    | none => rfl
    | some found =>
      cases found with
      | zero => simp [endsSegment, beq_eq_decide]
      | succ i => simp [endsSegment]

theorem segments_ne_nil (s : Bytes) : segments s ≠ [] := by
  cases s with
  | nil => simp [segments]
  | cons b rest =>
    simp only [segments]
    split
    · simp
    · split <;> simp

theorem hasDots_nil : hasDots [] = false := rfl

theorem hasDots_cons (b : Byte) (part : Bytes) :
    hasDots (b :: part) = (dotDot.isPrefixOf (b :: part) || hasDots part) := by
  simp only [hasDots, strstr_cons]
  split
  · rename_i h
    simp [h]
  · rename_i h
    simp [h]

theorem isPrefixOf_dotDot (b : Byte) (s : Bytes) :
    dotDot.isPrefixOf (b :: s) = decide (b = 46 ∧ s.head? = some 46) := by
  have unfolded : dotDot = [46, 46] := rfl
  have flip (x : Byte) : (46 == x) = decide (x = 46) := by
    rw [beq_eq_decide]
    exact decide_eq_decide.mpr eq_comm
  cases s with
  | nil => simp only [unfolded, List.isPrefixOf, flip]; simp
  | cons x rest => simp only [unfolded, List.isPrefixOf, flip]; simp

theorem segments_cons {b : Byte} {s part : Bytes} {parts : List Bytes} (hb : b ≠ 47)
    (h : segments s = part :: parts) : segments (b :: s) = (b :: part) :: parts := by
  simp only [segments, if_neg hb, h]

theorem segments_slash (s : Bytes) : segments (47 :: s) = [] :: segments s := by
  simp [segments]

theorem segments_head {s part : Bytes} {parts : List Bytes} (h : segments s = part :: parts) :
    part.head? = if s.head? = some 47 then none else s.head? := by
  cases s with
  | nil => cases h; rfl
  | cons b rest =>
    by_cases hb : b = 47
    · subst hb
      rw [segments_slash] at h
      cases h
      rfl
    · obtain ⟨part', parts', h'⟩ := List.exists_cons_of_ne_nil (segments_ne_nil rest)
      rw [segments_cons hb h'] at h
      cases h
      simp [hb]

theorem prefix_segment {b : Byte} {s part : Bytes} {parts : List Bytes}
    (h : segments s = part :: parts) :
    dotDot.isPrefixOf (b :: s) = dotDot.isPrefixOf (b :: part) := by
  rw [isPrefixOf_dotDot, isPrefixOf_dotDot, segments_head h]
  congr 1
  by_cases slash : s.head? = some 47
  · simp [slash]
  · simp [slash]

theorem endsSegment_one {s part : Bytes} {parts : List Bytes} {b : Byte}
    (h : segments s = part :: parts) (dots : dotDot.isPrefixOf (b :: part) = true) :
    endsSegment s 1 = decide (b :: part = dotDot) := by
  have unfolded : dotDot = [46, 46] := rfl
  rw [isPrefixOf_dotDot] at dots
  obtain ⟨rfl, head⟩ := of_decide_eq_true dots
  cases s with
  | nil => cases h; cases head
  | cons x rest =>
    obtain ⟨part', parts', h'⟩ := List.exists_cons_of_ne_nil (segments_ne_nil rest)
    by_cases hx : x = 47
    · subst hx
      rw [segments_slash] at h
      cases h
      cases head
    · rw [segments_cons hx h'] at h
      cases h
      cases head
      have next := segments_head h'
      have same : endsSegment (46 :: rest) 1 = decide (part' = []) := by
        simp only [endsSegment, List.getElem?_cons_succ]
        congr 1
        rw [← List.head?_eq_getElem?, ← List.head?_eq_none_iff, next]
        by_cases slash : rest.head? = some 47
        · simp [slash]
        · simp [slash]
      rw [same, unfolded]
      simp

theorem checkFrom_segments {s part : Bytes} {parts : List Bytes} (h : segments s = part :: parts) :
    checkFrom true s = decide ((part :: parts).find? hasDots = some dotDot) ∧
    checkFrom false s = (!hasDots part && decide (parts.find? hasDots = some dotDot)) := by
  induction s generalizing part parts with
  | nil =>
    cases h
    exact ⟨rfl, rfl⟩
  | cons b rest ih =>
    obtain ⟨part', parts', h'⟩ := List.exists_cons_of_ne_nil (segments_ne_nil rest)
    obtain ⟨fresh, begun⟩ := ih h'
    by_cases hb : b = 47
    · subst hb
      rw [segments_slash, h'] at h
      cases h
      have none : dotDot.isPrefixOf (47 :: rest) = false := by simp [isPrefixOf_dotDot]
      simp only [checkFrom_cons, none, Bool.false_eq_true, if_false, beq_self_eq_true, fresh,
        hasDots_nil, List.find?_cons, Bool.not_false, Bool.true_and]
      exact ⟨rfl, trivial⟩
    · rw [segments_cons hb h'] at h
      cases h
      have other : (b == 47) = false := by simpa using hb
      simp only [checkFrom_cons, prefix_segment h', other, begun, hasDots_cons, List.find?_cons]
      cases dots : dotDot.isPrefixOf (b :: part') with
      | true =>
        simp [endsSegment_one h' dots]
      | false =>
        have ne : b :: part' ≠ dotDot := by
          rintro eq
          rw [eq] at dots
          cases dots
        cases hasDots part' with
        | true => simp [ne]
        | false => simp

theorem attemptedPathTraversal_segments (s : Bytes) :
    attemptedPathTraversal s = true ↔ (segments s).find? hasDots = some dotDot := by
  obtain ⟨part, parts, h⟩ := List.exists_cons_of_ne_nil (segments_ne_nil s)
  rw [attemptedPathTraversal_eq, (checkFrom_segments h).1, h, decide_eq_true_iff]

theorem hasDots_dotDot : hasDots dotDot = true := by decide

theorem find_or_masked {parts : List Bytes} (h : dotDot ∈ parts) :
    parts.find? hasDots = some dotDot ↔
      ¬ ∃ before part after, parts = before ++ part :: after ∧
        hasDots part = true ∧ dotDot ∉ before ∧ part ≠ dotDot ∧ dotDot ∈ after := by
  induction parts with
  | nil => cases h
  | cons first rest ih =>
    by_cases isDots : first = dotDot
    · subst isDots
      simp only [List.find?_cons, hasDots_dotDot, true_iff]
      rintro ⟨before, part, after, eq, -, outside, ne, -⟩
      cases before with
      | nil => cases eq; exact ne rfl
      | cons x before => cases eq; exact outside (List.mem_cons_self ..)
    · have later : dotDot ∈ rest := (List.mem_cons.mp h).resolve_left (Ne.symm isDots)
      cases dots : hasDots first with
      | true =>
        simp only [List.find?_cons, dots, Option.some.injEq]
        refine iff_of_false isDots (fun h => h ?_)
        exact ⟨[], first, rest, rfl, dots, by simp, isDots, later⟩
      | false =>
        simp only [List.find?_cons, dots]
        rw [ih later, not_iff_not]
        constructor
        · rintro ⟨before, part, after, rfl, hdots, outside, ne, inside⟩
          refine ⟨first :: before, part, after, rfl, hdots, ?_, ne, inside⟩
          exact fun h => (List.mem_cons.mp h).elim (Ne.symm isDots) outside
        · rintro ⟨before, part, after, eq, hdots, outside, ne, inside⟩
          cases before with
          | nil => cases eq; cases dots.symm.trans hdots
          | cons x before =>
            cases eq
            exact ⟨before, part, after, rfl, hdots, fun h => outside (List.mem_cons_of_mem _ h), ne,
              inside⟩

theorem attempted_iff_unmasked (s : Bytes) :
    (attemptedPathTraversal s = true ↔ dotDot ∈ segments s) ↔ ¬ Masked s := by
  rw [attemptedPathTraversal_segments]
  by_cases h : dotDot ∈ segments s
  · rw [iff_true_right h]
    exact find_or_masked h
  · refine iff_of_true (iff_of_false ?_ h) ?_
    · exact fun found => h (List.mem_of_find?_eq_some found)
    · rintro ⟨before, part, after, eq, -, -, -, inside⟩
      rw [eq] at h
      exact h (List.mem_append_right _ (List.mem_cons_of_mem _ inside))

theorem passed_iff_unmasked {s : Bytes} (passed : attemptedPathTraversal s = false) :
    dotDot ∉ segments s ↔ ¬ Masked s := by
  rw [← attempted_iff_unmasked, passed]
  simp

def HoldsHead (stream : Bytes) (c : Client) : Prop :=
  ∃ head rest mem req p, stream = head ++ rest ∧ headEnd head = .finish mem req p ∧
    c.ta.req = req ∧ c.reqHeaders.take head.length = mem

theorem recvCalls_accepts {n : Nat} {v : Bytes} {c : Client} {k : Kernel}
    (h : Progress v c c.ta.reqParseBlk c.ta.reqParseIter) (rc : (recvCalls n c k).rc = 0)
    (state : (recvCalls n c k).client.ta.state ≠ .read) :
    HoldsHead (v ++ pendingBytes k.input) (recvCalls n c k).client := by
  induction n generalizing v c k with
  | zero =>
    simp only [recvCalls] at state
    exact absurd (by rw [h.fresh]) state
  | succ n ih =>
    obtain ⟨taken, bytes, room, recvEnd⟩ := recvRequest_spec k h
    rw [bytes, ← List.append_assoc]
    simp only [recvCalls] at rc state ⊢
    split
    · rename_i again
      rw [if_pos again] at rc state
      cases recvEnd with
      | waits _ progress => exact ih progress rc state
      | accepts _ _ _ _ ta => rw [ta] at again; cases again.2
      | rejects rc' => cases rc'.symm.trans again.1
      | full rc' => cases rc'.symm.trans again.1
      | hangup rc' => cases rc'.symm.trans again.1
    · rename_i settled
      rw [if_neg settled] at rc state
      cases recvEnd with
      | waits rc' progress => exact absurd ⟨rc', by rw [progress.fresh]⟩ settled
      | accepts _ head buffer _ ta => exact ⟨_, _, _, _, _, rfl, head, by rw [ta], buffer⟩
      | rejects rc' => cases rc'.symm.trans rc
      | full rc' => cases rc'.symm.trans rc
      | hangup rc' => cases rc'.symm.trans rc

def Client.reqPath (c : Client) : Option Bytes := c.ta.req.path.map (cString c.reqHeaders)

theorem HoldsHead.path {stream : Bytes} {c : Client} (h : HoldsHead stream c) :
    c.reqPath = some (requestPath stream) ∧ attemptedPathTraversal (requestPath stream) = false := by
  obtain ⟨head, rest, mem, req, p, rfl, done, hreq, buffer⟩ := h
  have longer := headEnd_append head rest
  rw [done] at longer
  obtain ⟨ends, q, hq, text, passed⟩ := headEnd_strings longer
  have inside := (headEnd_strings done).ends q (mem_strings_path hq)
  have fits : p ≤ mem.length := by
    have settled := headEnd_resume head [] (Nat.le_refl head.length)
    unfold Resumes at settled
    simp only [headEnd] at done
    simp only [done] at settled
    omega
  have inside' := inside.mono fits
  have same : cString c.reqHeaders q = cString (mem ++ rest) q := by
    rw [← List.take_append_drop head.length c.reqHeaders, buffer, cString, cString,
      cstr_append_left _ inside', cstr_append_left _ inside']
  rw [← text]
  refine ⟨?_, passed⟩
  simp only [Client.reqPath, hreq, hq, Option.map_some, same]

theorem Outcome.verdict_accepted {o : Outcome} {info : HeadInfo} {payload : Option Nat}
    (h : o.verdict = .accepted info payload) :
    o.rc = 0 ∧ o.client.ta.state ≠ .read ∧ info.path = o.client.reqPath := by
  unfold Outcome.verdict at h
  split at h
  · rename_i rc
    split at h
    · cases h
    · rename_i state
      cases h
      exact ⟨rc, state, rfl⟩
  · cases h

/-- Some ".." of the path leads above the place that `depth` names go down from. -/
def climbs (depth : Nat) : List Bytes → Bool
  | [] => false
  | part :: rest =>
    if part = dotDot then depth == 0 || climbs (depth - 1) rest
    else if part = [] ∨ part = ascii "." then climbs depth rest
    else climbs (depth + 1) rest

theorem not_climbs {parts : List Bytes} (h : dotDot ∉ parts) (depth : Nat) :
    climbs depth parts = false := by
  induction parts generalizing depth with
  | nil => rfl
  | cons part rest ih =>
    obtain ⟨here, later⟩ := not_or.mp (fun m => h (List.mem_cons.mpr m))
    simp only [climbs, if_neg (Ne.symm here)]
    split
    · exact ih later depth
    · exact ih later (depth + 1)

/-- The traversal check on strings and on accepted requests: it is right about a path, and the
path of an accepted request is free of ".." and stays under the root, unless the path masks a
".." segment behind another segment with two dots in a row. -/
theorem traversal_check_exact (s : Bytes) {c : Client} {k : Kernel} {n : Nat} {info : HeadInfo}
    {payload : Option Nat} (idle : Idle c) (verdict : (recvCalls n c k).verdict = .accepted info payload) :
    ((attemptedPathTraversal s = true ↔ dotDot ∈ segments s) ↔ ¬ Masked s) ∧
      ∃ path, path = requestPath (c.reqHeaders.take c.reqHeadersLen ++ pendingBytes k.input) ∧
        info.path = some path ∧ (dotDot ∉ segments path ↔ ¬ Masked path) ∧
        (¬ Masked path → climbs 0 (segments path) = false) := by
  refine ⟨attempted_iff_unmasked s, ?_⟩
  obtain ⟨rc, state, shown⟩ := Outcome.verdict_accepted verdict
  obtain ⟨path, passed⟩ := (recvCalls_accepts idle.progress rc state).path
  refine ⟨_, rfl, shown.trans path, passed_iff_unmasked passed, fun unmasked => ?_⟩
  exact not_climbs ((passed_iff_unmasked passed).mpr unmasked) 0

def getRequest (path : String) : Kernel where
  input := [.chunk 71 (ascii "ET " ++ ascii path ++ ascii " HTTP/1.1\r\n\r\n")]
  fs _ := .empty

theorem getRequest_verdict (path : String) :
    (recvCalls 2 (createClientStruct Blocks.zeroed) (getRequest path)).verdict =
      streamVerdict (ascii "GET " ++ ascii path ++ ascii " HTTP/1.1\r\n\r\n") := by
  rw [recvCalls_verdict (createClientStruct_idle Blocks.zeroed).progress (by simp [OpenInput, getRequest])
    (by simp [getRequest])]
  congr 1
  simp [createClientStruct, pendingBytes, getRequest, Arrival.bytes, ascii]

def HeadInfo.ofGet (path : String) : HeadInfo where
  method := .get
  version := .http11
  path := some (ascii path)
  query := none
  cookies := none
  range := none
  modifiedSince := none
  contentLen := 0
  mimetype := none
  disposition := none

theorem traversal_check_exact_dots :
    ((attemptedPathTraversal (ascii "/x/../a..b") = true ↔ dotDot ∈ segments (ascii "/x/../a..b")) ↔
      ¬ Masked (ascii "/x/../a..b")) ∧
    ∃ path, some (ascii "/a..b/...") = some path ∧ (dotDot ∉ segments path ↔ ¬ Masked path) ∧
      (¬ Masked path → climbs 0 (segments path) = false) := by
  have verdict : (recvCalls 2 (createClientStruct Blocks.zeroed) (getRequest "/a..b/...")).verdict =
      .accepted (HeadInfo.ofGet "/a..b/...") (some 26) := by
    rw [getRequest_verdict]
    decide +kernel
  obtain ⟨check, path, -, shown, exact_, below⟩ :=
    traversal_check_exact (ascii "/x/../a..b") (createClientStruct_idle Blocks.zeroed) verdict
  exact ⟨check, path, shown, exact_, below⟩

/-- A request whose ".." segments hide behind the name "a..b". -/
theorem masked_dotDot_accepted :
    (recvCalls 2 (createClientStruct Blocks.zeroed) (getRequest "/a..b/../../x")).verdict =
      .accepted (HeadInfo.ofGet "/a..b/../../x") (some 30) ∧
    dotDot ∈ segments (ascii "/a..b/../../x") ∧
    attemptedPathTraversal (ascii "/a..b/../../x") = false ∧
    climbs 0 (segments (ascii "/a..b/../../x")) = true := by
  rw [getRequest_verdict]
  exact ⟨by decide +kernel, by decide, by decide, by decide⟩

end Kitserv
