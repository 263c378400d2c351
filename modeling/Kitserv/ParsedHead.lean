import Kitserv.ParseResume

namespace Kitserv

open Memory

def Request.strings (req : Request) : List Nat :=
  [req.path, req.query, req.mimetype, req.range, req.disposition, req.modifiedSince,
    req.freshCookies].filterMap id

/-- The strings found so far end below `p`, and the path satisfies `Q`. -/
structure HeadStrings (Q : Bytes → Prop) (mem : Bytes) (req : Request) (p : Nat) : Prop where
  ends : ∀ q ∈ req.strings, TerminatedBelow (0 : Byte) mem q p
  path : ∃ q, req.path = some q ∧ Q (cString mem q)

variable {Q : Bytes → Prop} {mem mem' : Bytes} {req req' : Request} {p r p' r' : Nat}

theorem mem_strings_path {q : Nat} (h : req.path = some q) : q ∈ req.strings := by
  simp [Request.strings, h]

theorem HeadStrings.frame (h : HeadStrings Q mem req p) (same : mem.take p = mem'.take p)
    (hp : p ≤ p') : HeadStrings Q mem' req p' where
  ends q hq := ((h.ends q hq).congr same).mono hp
  path := by
    obtain ⟨q, hq, text⟩ := h.path
    refine ⟨q, hq, ?_⟩
    rw [cString, ← cstr_congr same (h.ends q (mem_strings_path hq))]
    exact text

theorem HeadStrings.of_strings (h : HeadStrings Q mem req p) (strings : req'.strings ⊆ req.strings)
    (path : req'.path = req.path) : HeadStrings Q mem req' p where
  ends q hq := h.ends q (strings hq)
  path := path ▸ h.path

theorem take_set_of_le (mem : Bytes) {n i : Nat} (x : Byte) (h : n ≤ i) :
    (mem.set i x).take n = mem.take n := by
  rw [List.take_set, List.set_eq_of_length_le (by simp; omega)]

def pathPart (target : Bytes) : Bytes := target.takeWhile fun b => b != 63

theorem findIdx_slice_le (stop : Byte → Bool) (mem : Bytes) (p r : Nat) :
    (slice mem p r).findIdx stop ≤ r - p :=
  Nat.le_trans List.findIdx_le_length (by simp only [length_slice]; exact Nat.min_le_left _ _)

theorem slice_pathPart (mem : Bytes) (p r : Nat) :
    slice mem p (p + (slice mem p r).findIdx (· == 63)) = pathPart (slice mem p r) := by
  rw [pathPart, List.takeWhile_eq_take_findIdx_not]
  simp only [bne, Bool.not_not]
  rw [slice, Nat.add_sub_cancel_left]
  have bound := findIdx_slice_le (· == 63) mem p r
  unfold slice at bound ⊢
  rw [List.take_take, Nat.min_eq_left bound]

/-- What `storePath` leaves: nothing changes in front of the path, the path is the decoding of
its part of the target, and the query ends before the cursor. -/
structure StoredPath (mem : Bytes) (req : Request) (p r : Nat) (out : Bytes × Request) : Prop where
  frame : out.1.take p = mem.take p
  ends : TerminatedBelow (0 : Byte) out.1 p (r + 1)
  text : cString out.1 p =
    (percentDecode ((pathPart (slice mem p r)).takeWhile fun b => b ≠ 0)).takeWhile fun b => b ≠ 0
  fields : ∃ query, out.2 = { req with path := some p, query := query } ∧
    (query = req.query ∨ ∃ s, query = some s ∧ TerminatedBelow (0 : Byte) out.1 s (r + 1))

theorem storePath_spec (hp : p ≤ r) (inside : r < mem.length) :
    StoredPath mem req p r (storePath mem req p r) := by
  have closed : (mem.set r 0)[r]? = some 0 := by simp [inside]
  have len₁ : (mem.set r 0).length = mem.length := List.length_set
  have low : p ≤ p + (slice mem p r).findIdx (· == 63) := Nat.le_add_right _ _
  have cut := slice_pathPart mem p r
  have high : p + (slice mem p r).findIdx (· == 63) ≤ r :=
    Nat.le_trans (Nat.add_le_add_left (findIdx_slice_le _ mem p r) p) (by omega)
  simp only [storePath]
  generalize p + (slice mem p r).findIdx (· == 63) = s at low cut high
  by_cases hs : s < r
  · rw [if_pos hs]
    generalize marked : (mem.set r 0).set s 0 = m₁
    have len₂ : m₁.length = mem.length := by simp [← marked]
    have query : TerminatedBelow (0 : Byte) m₁ (s + 1) (r + 1) :=
      ⟨r, hs, Nat.lt_succ_self r, by rw [← marked, List.getElem?_set_ne (by omega), closed]⟩
    have query' := query.mono (show r + 1 ≤ m₁.length by omega)
    have mark : (urlDecode m₁ (s + 1))[s]? = some 0 := by
      rw [getElem?_urlDecode_of_lt query' (Nat.lt_succ_self s), ← marked,
        List.getElem?_set_self (by omega)]
    have path : TerminatedBelow (0 : Byte) (urlDecode m₁ (s + 1)) p (s + 1) :=
      ⟨s, low, Nat.lt_succ_self s, mark⟩
    have path' := path.mono (show s + 1 ≤ (urlDecode m₁ (s + 1)).length by simp; omega)
    have before : (urlDecode m₁ (s + 1)).take s = mem.take s := by
      rw [urlDecode_eq query', take_overwrite_of_le _ _ (Nat.le_succ s), ← marked,
        take_set_of_le _ _ (Nat.le_refl s), take_set_of_le _ _ (by omega)]
    refine ⟨?_, ?_, ?_, some (s + 1), rfl, .inr ⟨s + 1, rfl, ?_⟩⟩
    · rw [urlDecode_eq path', take_overwrite_of_le _ _ (Nat.le_refl p)]
      exact take_congr_le before low
    · exact (terminated_urlDecode path (by simp; omega)).mono (by omega)
    · rw [cString_urlDecode path', cString, cstr_eq_slice low mark, slice_congr before (Nat.le_refl s),
        cut]
    · obtain ⟨j, hj, hj', hz⟩ := terminated_urlDecode query (by omega)
      refine ⟨j, hj, hj', ?_⟩
      rw [getElem?_urlDecode_of_ge path (by simp; omega) (by omega), hz]
  · rw [if_neg hs]
    have whole : s = r := by omega
    have path : TerminatedBelow (0 : Byte) (mem.set r 0) p (r + 1) :=
      ⟨r, hp, Nat.lt_succ_self r, closed⟩
    have path' := path.mono (show r + 1 ≤ (mem.set r 0).length by omega)
    refine ⟨?_, ?_, ?_, req.query, rfl, .inl rfl⟩
    · rw [urlDecode_eq path', take_overwrite_of_le _ _ (Nat.le_refl p), take_set_of_le _ _ hp]
    · exact terminated_urlDecode path (by omega)
    · rw [cString_urlDecode path', cString, cstr_eq_slice hp closed,
        slice_congr (take_set_of_le mem 0 (Nat.le_refl r)) (Nat.le_refl r), ← cut, whole]

def ParseState.pathStored : ParseState → Bool
  | .new | .reqMethod | .reqPath => false
  | .reqVersion | .reqVersionLf | .reqHead | .reqHeadLf => true

def ParseStep.Keeps (Q : Bytes → Prop) : ParseStep → Prop
  | goto state mem req p _ => state.pathStored = true ∧ HeadStrings Q mem req p
  | finish mem req p => HeadStrings Q mem req p
  | readMore .. | fail .. => True

theorem reqVersion_keeps (len : Nat) (h : HeadStrings Q mem req p) (hp : p ≤ r) :
    (reqVersion mem len req p r).Keeps Q := by
  have low : r ≤ scanTo (· == 13) mem len r := le_scanTo _
  simp only [reqVersion]
  have next (v : HttpVersion) : HeadStrings Q mem { req with version := v }
      (scanTo (· == 13) mem len r + 1) :=
    (h.frame rfl (by omega)).of_strings (fun _ hq => hq) rfl
  split
  · trivial
  split
  · trivial
  split
  · exact ⟨rfl, next .http11⟩
  split
  · exact ⟨rfl, next .http10⟩
  · trivial

theorem reqVersionLf_keeps (len : Nat) (h : HeadStrings Q mem req p) (hp : p ≤ r) :
    (reqVersionLf mem len req p r).Keeps Q := by
  simp only [reqVersionLf]
  split
  · trivial
  split
  · trivial
  · exact ⟨rfl, h.frame rfl (by omega)⟩

theorem reqHeadLf_keeps (len : Nat) (h : HeadStrings Q mem req p) (hp : p ≤ r) :
    (reqHeadLf mem len req p r).Keeps Q := by
  simp only [reqHeadLf]
  split
  · trivial
  split
  · trivial
  split
  · exact ⟨rfl, h.frame rfl (by omega)⟩
  · exact h.frame rfl (by omega)

theorem processHeader_fields (mem : Bytes) (req : Request) (p s value : Nat) :
    (processHeader mem req p s value).1.path = req.path ∧
      (processHeader mem req p s value).1.strings ⊆ value :: req.strings := by
  unfold processHeader
  split
  · rename_i h entry
    have member := List.mem_of_find?_eq_some entry
    simp only [headers, List.mem_cons, List.not_mem_nil, or_false] at member
    rcases member with rfl | rfl | rfl | rfl | rfl | rfl
    case inr.inr.inr.inl =>
      simp only [parseHeaderContentLength]
      split
      · exact ⟨rfl, fun q hq => List.mem_cons_of_mem _ hq⟩
      · exact ⟨rfl, fun q hq => List.mem_cons_of_mem _ hq⟩
    all_goals
      refine ⟨rfl, fun q hq => ?_⟩
      simp only [parseHeaderCookie, parseHeaderRange, parseHeaderIfModifiedSince,
        parseHeaderContentType, parseHeaderContentDisposition, Request.strings, List.mem_filterMap,
        List.mem_cons, List.not_mem_nil, or_false, id_eq, exists_eq_right] at hq ⊢
      grind
  · exact ⟨rfl, fun q hq => List.mem_cons_of_mem _ hq⟩

theorem reqHead_keeps (h : HeadStrings Q mem req p) (hp : p ≤ r) :
    (reqHead mem mem.length req p r).Keeps Q := by
  have low : r ≤ scanTo (· == 13) mem mem.length r := le_scanTo _
  simp only [reqHead]
  generalize scanTo (· == 13) mem mem.length r = r' at low
  split
  · trivial
  rename_i inside
  split
  · have closed : (mem.set r' 0)[r']? = some 0 :=
      List.getElem?_set_self (by omega)
    cases colon : strchr (mem.set r' 0) p 58 with
    | none => trivial
    | some s =>
      obtain ⟨hps, hs⟩ := strchr_some colon
      have inLine : p + (cString (mem.set r' 0) p).length ≤ r' := by
        have below : TerminatedBelow (0 : Byte) (mem.set r' 0) p (r' + 1) :=
          ⟨r', by omega, Nat.lt_succ_self _, closed⟩
        exact Nat.le_of_lt_succ below.length_lt
      have capped : ((mem.set r' 0).set s 0)[r']? = some 0 :=
        (List.getElem?_set_ne (by omega)).trans closed
      have blanks := skipBlanks_le (q := s + 1) (by omega) capped (by decide)
      have frame : mem.take p = ((mem.set r' 0).set s 0).take p := by
        rw [take_set_of_le _ _ hps, take_set_of_le _ _ (by omega)]
      have before := h.frame frame (show p ≤ r' + 1 by omega)
      have fields := processHeader_fields ((mem.set r' 0).set s 0) req p s
        (skipBlanks ((mem.set r' 0).set s 0) (s + 1))
      simp only
      generalize processHeader ((mem.set r' 0).set s 0) req p s
        (skipBlanks ((mem.set r' 0).set s 0) (s + 1)) = result at fields
      obtain ⟨req', _ | status⟩ := result
      · refine ⟨rfl, ⟨?_, ?_⟩⟩
        · intro q hq
          rcases List.mem_cons.mp (fields.2 hq) with rfl | hq
          · exact ⟨r', blanks.2, Nat.lt_succ_self _, capped⟩
          · exact before.ends q hq
        · obtain ⟨q, hq, text⟩ := before.path
          exact ⟨q, fields.1.trans hq, text⟩
      · trivial
  · exact ⟨rfl, h⟩

theorem parseStep_keeps {state : ParseState} (stored : state.pathStored = true)
    (h : HeadStrings Q mem req p) (hp : p ≤ r) : (parseStep mem.length state mem req p r).Keeps Q := by
  cases state with
  | new | reqMethod | reqPath => cases stored
  | reqVersion => exact reqVersion_keeps _ h hp
  | reqVersionLf => exact reqVersionLf_keeps _ h hp
  | reqHead => exact reqHead_keeps h hp
  | reqHeadLf => exact reqHeadLf_keeps _ h hp

theorem parseStep_forward {v : Bytes} {state : ParseState} (started : state ≠ .new)
    (hp : p ≤ r) (hr : r ≤ v.length) :
    (∃ mem req' p' r', parseStep v.length state v req p r = .readMore state mem req' p' r') ∨
      (parseStep v.length state v req p r).Forward v.length r := by
  rcases parseStep_resume started req [] hp hr (Nat.le_refl _) with ⟨stops, -⟩ | ⟨forward, -⟩
  · exact .inl ⟨_, _, _, _, stops⟩
  · exact .inr forward

theorem parse_strings {v : Bytes} {state : ParseState} (stored : state.pathStored = true)
    (h : HeadStrings Q v req p) (hp : p ≤ r) (hr : r ≤ v.length)
    (done : parse v.length state v req p r = .finish mem' req' p') : HeadStrings Q mem' req' p' := by
  induction size : parseMeasure v.length state r using Nat.strong_induction_on
    generalizing state v req p r with
  | _ size' ih =>
    subst size
    rw [parse_eq] at done
    have started : state ≠ .new := by rintro rfl; cases stored
    have keeps := parseStep_keeps stored h hp
    have forward := @parseStep_forward req p r v state started hp hr
    cases step : parseStep v.length state v req p r with
    | goto state₁ mem₁ req₁ p₁ r₁ =>
      simp only [step, reduceCtorEq, exists_false, false_or] at keeps forward done
      obtain ⟨started₁, len, hp₁, -, hr₁⟩ := forward
      have less : parseMeasure mem₁.length state₁ r₁ < parseMeasure v.length state r := by
        rw [len]
        exact parseStep_decreases step
      exact ih _ less keeps.1 keeps.2 hp₁ (by omega) (len ▸ done) rfl
    | readMore => rw [step] at done; cases done
    | finish mem₁ req₁ p₁ =>
      rw [step] at done keeps
      cases done
      exact keeps
    | fail => rw [step] at done; cases done

abbrev headEnd (v : Bytes) : ParseEnd := parse v.length .new v {} 0 0

/-- The parser on a buffer that starts with `v`, from what it does on `v`. -/
theorem headEnd_resume (v t : Bytes) {n : Nat} (hn : v.length ≤ n) : Resumes .new v {} 0 0 t n :=
  parse_resume t (Nat.le_refl 0) (Nat.zero_le _) hn

def requestTarget (head : Bytes) : Bytes :=
  ((head.dropWhile fun b => b != 32).drop 1).takeWhile fun b => b != 32

/-- The path that a head asks for: the target up to its '?', percent-decoded, up to a NUL. -/
def requestPath (head : Bytes) : Bytes :=
  (percentDecode (pathPart (requestTarget head))).takeWhile fun b => b ≠ 0

theorem slice_scanTo (stop : Byte → Bool) (v : Bytes) (r : Nat) :
    slice v r (scanTo stop v v.length r) = (v.drop r).takeWhile fun b => !stop b := by
  have whole : slice v r v.length = v.drop r := by
    rw [slice, List.take_of_length_le (by simp)]
  rw [List.takeWhile_eq_take_findIdx_not, scanTo, whole, slice, Nat.add_sub_cancel_left]
  simp only [Bool.not_not]

theorem slice_target {v : Bytes} :
    slice v (scanTo (· == 32) v v.length 0 + 1)
      (scanTo (· == 32) v v.length (scanTo (· == 32) v v.length 0 + 1)) = requestTarget v := by
  have whole : slice v 0 v.length = v := by rw [slice_zero, List.take_length]
  rw [slice_scanTo, requestTarget, List.dropWhile_eq_drop_findIdx_not, List.drop_drop]
  simp only [scanTo, whole, Nat.zero_add, bne, Bool.not_not]

def AcceptedPath (head path : Bytes) : Prop :=
  path = requestPath head ∧ attemptedPathTraversal path = false

theorem reqPath_stores {v : Bytes} {m : HttpMethod} {mem' : Bytes} {req' : Request} {state : ParseState}
    (step : reqPath v v.length { method := m } p p = .goto state mem' req' p' r')
    (target : slice v p (scanTo (· == 32) v v.length p) = requestTarget v) :
    state = .reqVersion ∧ HeadStrings (AcceptedPath v) mem' req' p' := by
  have low : p ≤ scanTo (· == 32) v v.length p := le_scanTo _
  simp only [reqPath] at step
  generalize scanTo (· == 32) v v.length p = s at low target step
  split at step
  · cases step
  split at step
  · cases step
  rename_i inside printable
  split at step
  · cases step
  rename_i checked
  obtain ⟨-, ends, text, query, fields, hquery⟩ :=
    @storePath_spec v { method := m } p s low (by omega)
  cases step
  refine ⟨rfl, ?_, ⟨p, by rw [fields], ?_, by simpa using checked⟩⟩
  · intro q hq
    rw [fields] at hq
    simp only [Request.strings, List.mem_filterMap, List.mem_cons, List.not_mem_nil, or_false,
      id_eq, exists_eq_right, reduceCtorEq] at hq
    rcases hq with hq | hq
    · cases hq
      exact ends
    · rcases hquery with none | ⟨s, some, ends'⟩
      · cases hq.trans none
      · cases hq.trans some
        exact ends'
  · have nonzero : ∀ b ∈ pathPart (slice v p s), b ≠ 0 := by
      rintro b hb rfl
      refine printable (List.any_eq_true.mpr ⟨0, ?_, by decide⟩)
      exact (List.takeWhile_subset _) hb
    have whole : (pathPart (slice v p s)).takeWhile (fun b => b ≠ 0) = pathPart (slice v p s) :=
      List.takeWhile_eq_self_iff.mpr (by simpa using nonzero)
    rw [text, whole, target, requestPath]

theorem reqMethod_goto {v : Bytes} {state : ParseState}
    (step : reqMethod v v.length {} 0 0 = .goto state mem' req' p' r') :
    state = .reqPath ∧ mem' = v ∧ (∃ m, req' = { method := m }) ∧
      p' = scanTo (· == 32) v v.length 0 + 1 ∧ r' = p' ∧ p' ≤ v.length := by
  simp only [reqMethod] at step
  split at step
  · cases step
  rename_i inside
  split at step
  · cases step
    exact ⟨rfl, rfl, ⟨_, rfl⟩, rfl, rfl, by omega⟩
  · cases step

theorem parse_finish {len : Nat} {state : ParseState}
    (done : parse len state mem req p r = .finish mem' req' p') :
    parseStep len state mem req p r = .finish mem' req' p' ∨
      ∃ state₁ mem₁ req₁ p₁ r₁, parseStep len state mem req p r = .goto state₁ mem₁ req₁ p₁ r₁ ∧
        parse len state₁ mem₁ req₁ p₁ r₁ = .finish mem' req' p' := by
  rw [parse_eq] at done
  cases step : parseStep len state mem req p r with
  | goto => rw [step] at done; exact .inr ⟨_, _, _, _, _, rfl, done⟩
  | readMore => rw [step] at done; cases done
  | finish => rw [step] at done; cases done; exact .inl rfl
  | fail => rw [step] at done; cases done

theorem parseStep_finish {len : Nat} {state : ParseState}
    (step : parseStep len state mem req p r = .finish mem' req' p') : state = .reqHeadLf := by
  cases state with
  | new => cases step
  | reqMethod =>
    simp only [parseStep, reqMethod] at step
    split at step
    · cases step
    · split at step <;> cases step
  | reqPath =>
    simp only [parseStep, reqPath] at step
    split at step
    · cases step
    · split at step
      · cases step
      · split at step <;> cases step
  | reqVersion =>
    simp only [parseStep, reqVersion] at step
    split at step
    · cases step
    · split at step
      · cases step
      · split at step
        · cases step
        · split at step <;> cases step
  | reqVersionLf =>
    simp only [parseStep, reqVersionLf] at step
    split at step
    · cases step
    · split at step <;> cases step
  | reqHead =>
    simp only [parseStep, reqHead] at step
    split at step
    · cases step
    · split at step
      · split at step
        · cases step
        · split at step <;> cases step
      · cases step
  | reqHeadLf => rfl

/-- An accepted head: its strings end inside it, and its path is the decoded target. -/
theorem headEnd_strings {v : Bytes} (done : headEnd v = .finish mem' req' p') :
    HeadStrings (AcceptedPath v) mem' req' p' := by
  have start : parseStep v.length .new v {} 0 0 = .goto .reqMethod v {} 0 0 := rfl
  rw [headEnd, parse_eq, start] at done
  rcases parse_finish done with last | ⟨state₁, mem₁, req₁, p₁, r₁, step, done⟩
  · cases parseStep_finish last
  obtain ⟨rfl, rfl, ⟨m, rfl⟩, hp₁, rfl, inside⟩ := reqMethod_goto step
  rcases parse_finish done with last | ⟨state₂, mem₂, req₂, p₂, r₂, step, done⟩
  · cases parseStep_finish last
  have target := slice_target (v := mem₁)
  rw [← hp₁] at target
  obtain ⟨rfl, stored⟩ := reqPath_stores step target
  have forward := @parseStep_forward { method := m } r₁ r₁ mem₁ .reqPath (by simp)
    (Nat.le_refl r₁) inside
  rw [step] at forward
  simp only [reduceCtorEq, exists_false, false_or] at forward
  obtain ⟨-, len, hp₂, -, hr₂⟩ := forward
  exact parse_strings rfl stored hp₂ (by omega) (len ▸ done)

theorem storePath_tail (hp : p ≤ r) (inside : r < mem.length) :
    (storePath mem req p r).1.drop (r + 1) = mem.drop (r + 1) := by
  have closed : (mem.set r 0)[r]? = some 0 := by simp [inside]
  have low : p ≤ p + (slice mem p r).findIdx (· == 63) := Nat.le_add_right _ _
  apply drop_congr
  intro i hi
  have first : (mem.set r 0)[i]? = mem[i]? := List.getElem?_set_ne (by omega)
  simp only [storePath]
  generalize p + (slice mem p r).findIdx (· == 63) = s at low
  split
  · rename_i hs
    have marked : ((mem.set r 0).set s 0)[r]? = some 0 :=
      (List.getElem?_set_ne (by omega)).trans closed
    have query : TerminatedBelow (0 : Byte) ((mem.set r 0).set s 0) (s + 1) (r + 1) :=
      ⟨r, hs, Nat.lt_succ_self r, marked⟩
    have path : TerminatedBelow (0 : Byte) (urlDecode ((mem.set r 0).set s 0) (s + 1)) p (r + 1) := by
      refine ⟨s, low, by omega, ?_⟩
      rw [getElem?_urlDecode_of_lt (query.mono (by simp; omega)) (Nat.lt_succ_self s),
        List.getElem?_set_self (by simp; omega)]
    rw [getElem?_urlDecode_of_ge path (by simp; omega) hi,
      getElem?_urlDecode_of_ge query (by simp; omega) hi, List.getElem?_set_ne (by omega), first]
  · have path : TerminatedBelow (0 : Byte) (mem.set r 0) p (r + 1) :=
      ⟨r, hp, Nat.lt_succ_self r, closed⟩
    rw [getElem?_urlDecode_of_ge path (by simp; omega) hi, first]

def ParseStep.KeepsTail (mem : Bytes) : ParseStep → Prop
  | goto _ mem' _ _ r' => mem'.drop r' = mem.drop r'
  | finish mem' _ p' => mem'.drop p' = mem.drop p'
  | readMore .. | fail .. => True

theorem reqHead_tail (hp : p ≤ r) : (reqHead mem mem.length req p r).KeepsTail mem := by
  have low : r ≤ scanTo (· == 13) mem mem.length r := le_scanTo _
  simp only [reqHead]
  generalize scanTo (· == 13) mem mem.length r = r' at low
  split
  · trivial
  rename_i inside
  split
  · have closed : (mem.set r' 0)[r']? = some 0 := List.getElem?_set_self (by omega)
    cases colon : strchr (mem.set r' 0) p 58 with
    | none => trivial
    | some s =>
      have line : TerminatedBelow (0 : Byte) (mem.set r' 0) p (r' + 1) :=
        ⟨r', by omega, Nat.lt_succ_self _, closed⟩
      have ends : p + (cString (mem.set r' 0) p).length < r' + 1 := line.length_lt
      obtain ⟨-, hs⟩ := strchr_some colon
      simp only
      split
      · trivial
      · apply drop_congr
        intro i hi
        rw [List.getElem?_set_ne (by omega), List.getElem?_set_ne (by omega)]
  · rfl

theorem parseStep_tail (state : ParseState) (hp : p ≤ r) :
    (parseStep mem.length state mem req p r).KeepsTail mem := by
  cases state with
  | new => exact rfl
  | reqMethod =>
    simp only [parseStep, reqMethod]
    split
    · trivial
    · split
      · exact rfl
      · trivial
  | reqPath =>
    have low : r ≤ scanTo (· == 32) mem mem.length r := le_scanTo _
    simp only [parseStep, reqPath]
    split
    · trivial
    split
    · trivial
    rename_i inside _
    split
    · trivial
    · exact storePath_tail (by omega) (by omega)
  | reqVersion =>
    simp only [parseStep, reqVersion]
    split
    · trivial
    split
    · trivial
    split
    · exact rfl
    split
    · exact rfl
    · trivial
  | reqVersionLf =>
    simp only [parseStep, reqVersionLf]
    split
    · trivial
    split
    · trivial
    · exact rfl
  | reqHead => exact reqHead_tail hp
  | reqHeadLf =>
    simp only [parseStep, reqHeadLf]
    split
    · trivial
    split
    · trivial
    split
    · exact rfl
    · exact rfl

theorem parse_tail {v : Bytes} {state : ParseState} (hp : p ≤ r) (hr : r ≤ v.length)
    (done : parse v.length state v req p r = .finish mem' req' p') :
    (state = .new ∨ r < p') ∧ mem'.drop p' = v.drop p' := by
  induction size : parseMeasure v.length state r using Nat.strong_induction_on
    generalizing state v req p r with
  | _ size' ih =>
    subst size
    have keeps : (parseStep v.length state v req p r).KeepsTail v := parseStep_tail state hp
    by_cases started : state = .new
    · subst started
      have step : parseStep v.length .new v req p r = .goto .reqMethod v req 0 0 := rfl
      rw [parse_eq, step] at done
      exact ⟨.inl rfl, (ih _ (parseStep_decreases step) (Nat.le_refl 0) (Nat.zero_le _) done rfl).2⟩
    rw [parse_eq] at done
    have forward := @parseStep_forward req p r v state started hp hr
    cases step : parseStep v.length state v req p r with
    | goto state₁ mem₁ req₁ p₁ r₁ =>
      simp only [step, reduceCtorEq, exists_false, false_or] at keeps forward done
      obtain ⟨started₁, len, hp₁, hr, hr₁⟩ := forward
      have less : parseMeasure mem₁.length state₁ r₁ < parseMeasure v.length state r := by
        rw [len]
        exact parseStep_decreases step
      obtain ⟨further, tail⟩ := ih _ less hp₁ (by omega) (len ▸ done) rfl
      have behind : r₁ < p' := further.resolve_left started₁
      refine ⟨.inr (by omega), tail.trans ?_⟩
      have shifted := congrArg (fun l : Bytes => l.drop (p' - r₁)) keeps
      simpa only [List.drop_drop, Nat.add_sub_cancel' (Nat.le_of_lt behind)] using shifted
    | readMore => rw [step] at done; cases done
    | finish mem₁ req₁ p₁ =>
      rw [step] at done keeps
      simp only [step, reduceCtorEq, exists_false, false_or] at forward
      cases done
      exact ⟨.inr forward.2.1, keeps⟩
    | fail => rw [step] at done; cases done

structure HeadTail (v mem : Bytes) (p : Nat) : Prop where
  length : mem.length = v.length
  nonempty : 0 < p
  inside : p ≤ v.length
  same : mem.drop p = v.drop p

theorem headEnd_tail {v : Bytes} (done : headEnd v = .finish mem' req' p') : HeadTail v mem' p' := by
  have settled := headEnd_resume v [] (Nat.le_refl v.length)
  unfold Resumes at settled
  have start : parseStep v.length .new v {} 0 0 = .goto .reqMethod v {} 0 0 := rfl
  have whole := parse_tail (Nat.le_refl 0) (Nat.zero_le _) done
  simp only [headEnd] at done
  simp only [done] at settled
  rw [parse_eq, start] at done
  have first := (parse_tail (Nat.le_refl 0) (Nat.zero_le _) done).1
  exact ⟨settled.1, first.resolve_left ParseState.noConfusion, settled.2.1, whole.2⟩

end Kitserv
