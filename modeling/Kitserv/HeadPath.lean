import Kitserv.RequestText
import Kitserv.StageSteps

namespace Kitserv

open Memory

/-- The bytes start with a known method and a printable target, with a space behind each. -/
def GivesPath (v : Bytes) : Prop :=
  ∃ m target rest, m ≠ .unset ∧ (∀ b ∈ target, isprint b = true ∧ b ≠ 32) ∧
    v = methodText m ++ 32 :: (target ++ 32 :: rest)

structure HoldsPath (text mem : Bytes) (req : Request) (bound : Nat) : Prop where
  path : ∃ q, req.path = some q ∧ TerminatedBelow (0 : Byte) mem q bound ∧ cString mem q = text
  cookies : ∀ k, req.freshCookies = some k → bound ≤ k

def ParseEnd.req : ParseEnd → Request
  | readMore _ _ req _ _ | finish _ req _ | fail _ req _ => req

section Held

variable {text mem mem' : Bytes} {req req' : Request} {bound p r : Nat}

theorem HoldsPath.frame (h : HoldsPath text mem req bound) (same : mem.take bound = mem'.take bound)
    (path : req'.path = req.path) (cookies : ∀ k, req'.freshCookies = some k → bound ≤ k) :
    HoldsPath text mem' req' bound := by
  obtain ⟨q, hq, ends, reads⟩ := h.path
  refine ⟨⟨q, path.trans hq, ends.congr same, ?_⟩, cookies⟩
  rw [cString, ← cstr_congr same ends]
  exact reads

theorem HoldsPath.append (h : HoldsPath text mem req bound) (t : Bytes) :
    HoldsPath text (mem ++ t) req bound := by
  obtain ⟨q, hq, ends, reads⟩ := h.path
  refine ⟨⟨q, hq, ?_, ?_⟩, h.cookies⟩
  · obtain ⟨j, low, high, zero⟩ := ends
    exact ⟨j, low, high, by
      rw [List.getElem?_append_left (List.getElem?_eq_some_iff.mp zero).1]
      exact zero⟩
  · rw [cString, cstr_append_left t ends.inside]
    exact reads

def ParseStep.HoldsPath (text : Bytes) (bound : Nat) : ParseStep → Prop
  | goto state mem req p r =>
    state.pathStored = true ∧ Kitserv.HoldsPath text mem req bound ∧ bound ≤ p ∧ p ≤ r
  | readMore _ mem req _ _ | finish mem req _ | fail mem req _ =>
    Kitserv.HoldsPath text mem req bound

theorem processHeader_cookies (mem : Bytes) (req : Request) (p s value k : Nat)
    (h : (processHeader mem req p s value).1.freshCookies = some k) :
    k = value ∨ req.freshCookies = some k := by
  unfold processHeader at h
  split at h
  · rename_i entry found
    have member := List.mem_of_find?_eq_some found
    simp only [headers, List.mem_cons, List.not_mem_nil, or_false] at member
    rcases member with rfl | rfl | rfl | rfl | rfl | rfl
    · exact .inl (Option.some.inj h).symm
    case inr.inr.inr.inl =>
      simp only [parseHeaderContentLength] at h
      split at h <;> exact .inr h
    all_goals exact .inr h
  · exact .inr h

theorem reqHead_holdsPath (len : Nat) (h : HoldsPath text mem req bound) (low : bound ≤ p)
    (hp : p ≤ r) : (reqHead mem len req p r).HoldsPath text bound := by
  have scanned : r ≤ scanTo (· == 13) mem len r := le_scanTo _
  simp only [reqHead]
  generalize scanTo (· == 13) mem len r = r' at scanned
  have ended : mem.take bound = (mem.set r' 0).take bound := (take_set_of_le mem 0 (by omega)).symm
  split
  · exact h
  split
  · cases colon : strchr (mem.set r' 0) p 58 with
    | none => exact h.frame ended rfl h.cookies
    | some s =>
      have first := (strchr_some colon).1
      have cut : mem.take bound = ((mem.set r' 0).set s 0).take bound :=
        ended.trans (take_set_of_le _ 0 (by omega)).symm
      -- a cookie value stands behind the colon of its line
      have value : bound ≤ skipBlanks ((mem.set r' 0).set s 0) (s + 1) := by
        have := Nat.le_add_right (s + 1)
          ((((mem.set r' 0).set s 0).drop (s + 1)).takeWhile fun b => b == 32 || b == 9).length
        unfold skipBlanks
        omega
      simp only
      generalize skipBlanks ((mem.set r' 0).set s 0) (s + 1) = q at value
      have fields := processHeader_fields ((mem.set r' 0).set s 0) req p s q
      have cookies := processHeader_cookies ((mem.set r' 0).set s 0) req p s q
      generalize processHeader ((mem.set r' 0).set s 0) req p s q = result at fields cookies
      obtain ⟨req', status⟩ := result
      have held : HoldsPath text ((mem.set r' 0).set s 0) req' bound := by
        refine h.frame cut fields.1 fun k fresh => ?_
        rcases cookies k fresh with rfl | old
        · exact value
        · exact h.cookies k old
      cases status with
      | some status => exact held
      | none => exact ⟨rfl, held, by omega, Nat.le_refl _⟩
  · exact ⟨rfl, h, low, by omega⟩

theorem parseStep_holdsPath (len : Nat) {state : ParseState} (stored : state.pathStored = true)
    (h : HoldsPath text mem req bound) (low : bound ≤ p) (hp : p ≤ r) :
    (parseStep len state mem req p r).HoldsPath text bound := by
  cases state with
  | new | reqMethod | reqPath => cases stored
  | reqVersion =>
    have scanned : r ≤ scanTo (· == 13) mem len r := le_scanTo _
    have version (v : HttpVersion) : HoldsPath text mem { req with version := v } bound :=
      h.frame rfl rfl h.cookies
    simp only [parseStep, reqVersion]
    split
    · exact h
    split
    · exact h
    split
    · exact ⟨rfl, version _, by omega, Nat.le_refl _⟩
    split
    · exact ⟨rfl, version _, by omega, Nat.le_refl _⟩
    · exact h
  | reqVersionLf =>
    simp only [parseStep, reqVersionLf]
    split
    · exact h
    split
    · exact h
    · exact ⟨rfl, h, by omega, Nat.le_refl _⟩
  | reqHead => exact reqHead_holdsPath len h low hp
  | reqHeadLf =>
    simp only [parseStep, reqHeadLf]
    split
    · exact h
    split
    · exact h
    split
    · exact ⟨rfl, h, by omega, Nat.le_refl _⟩
    · exact h

theorem parse_holdsPath {len : Nat} {state : ParseState} (stored : state.pathStored = true)
    (h : HoldsPath text mem req bound) (low : bound ≤ p) (hp : p ≤ r) :
    HoldsPath text (parse len state mem req p r).mem (parse len state mem req p r).req bound := by
  fun_induction parse len state mem req p r with
  | case1 state mem req p r state' mem' req' p' r' step ih =>
    have held := parseStep_holdsPath len stored h low hp
    rw [step] at held
    obtain ⟨stored', h', low', hp'⟩ := held
    exact ih stored' h' low' hp'
  | case2 state mem req p r state' mem' req' p' r' step =>
    have held := parseStep_holdsPath len stored h low hp
    rwa [step] at held
  | case3 state mem req p r mem' req' p' step =>
    have held := parseStep_holdsPath len stored h low hp
    rwa [step] at held
  | case4 state mem req p r mem' req' status step =>
    have held := parseStep_holdsPath len stored h low hp
    rwa [step] at held

end Held

structure PathKnown (v mem : Bytes) (req : Request) : Prop where
  given : GivesPath v → ∃ bound, HoldsPath (requestPath v) mem req bound
  missing : ¬ GivesPath v → req.path = none

theorem PathKnown.append {v mem : Bytes} {req : Request} (h : PathKnown v mem req) (t : Bytes) :
    PathKnown v (mem ++ t) req where
  given gives := by
    obtain ⟨bound, held⟩ := h.given gives
    exact ⟨bound, held.append t⟩
  missing := h.missing

section Line

variable {v : Bytes}

theorem methodAt_some {m : HttpMethod} {r : Nat} (h : methodAt v 0 r = some m) :
    m ≠ .unset ∧ ∃ rest, v = methodText m ++ 32 :: rest := by
  have spell {name : String} {text : Bytes} (spelled : ascii name = text ++ [32])
      (found : bufscmp v 0 name = true) : ∃ rest, v = text ++ 32 :: rest := by
    simp only [bufscmp, Nat.zero_add, slice_zero, beq_iff_eq] at found
    have whole := (List.take_append_drop (ascii name).length v).symm
    rw [found] at whole
    generalize v.drop (ascii name).length = rest at whole
    exact ⟨rest, by rw [whole, spelled, List.append_assoc]; rfl⟩
  unfold methodAt at h
  split at h
  · split at h
    · rename_i found
      cases h
      exact ⟨by simp, spell rfl found⟩
    · split at h
      · rename_i found
        cases h
        exact ⟨by simp, spell rfl found⟩
      · cases h
  · split at h
    · rename_i found
      cases h
      exact ⟨by simp, spell rfl found⟩
    · split at h
      · rename_i found
        cases h
        exact ⟨by simp, spell rfl found⟩
      · cases h
  · split at h
    · rename_i found
      cases h
      exact ⟨by simp, spell rfl found⟩
    · cases h
  · cases h

theorem headEnd_line (v : Bytes) :
    headEnd v = parse v.length .reqMethod v {} 0 0 := parse_goto rfl

/-- A head up to its path: what the parser does once the method is known. -/
theorem headEnd_target {m : HttpMethod} (known : m ≠ .unset) (rest : Bytes) :
    headEnd (methodText m ++ 32 :: rest) =
      parse (methodText m ++ 32 :: rest).length .reqPath (methodText m ++ 32 :: rest)
        { method := m } ((methodText m).length + 1) ((methodText m).length + 1) := by
  rw [headEnd_line]
  exact parse_goto (reqMethod_text known {} rest)

theorem headEnd_method (v : Bytes) :
    (∃ m rest, m ≠ .unset ∧ v = methodText m ++ 32 :: rest) ∨
      (∀ m rest, m ≠ .unset → v ≠ methodText m ++ 32 :: rest) ∧ (headEnd v).req.path = none := by
  by_cases known : ∃ m rest, m ≠ .unset ∧ v = methodText m ++ 32 :: rest
  · exact .inl known
  · refine .inr ⟨fun m rest other same => known ⟨m, rest, other, same⟩, ?_⟩
    rw [headEnd_line, parse_eq]
    simp only [parseStep, reqMethod]
    by_cases past : v.length ≤ scanTo (· == 32) v v.length 0
    · simp only [if_pos past]
      rfl
    · simp only [if_neg past]
      cases method : methodAt v 0 (scanTo (· == 32) v v.length 0) with
      | none => rfl
      | some m =>
        obtain ⟨other, rest, same⟩ := methodAt_some method
        exact absurd ⟨m, rest, other, same⟩ known

theorem cut_space {x : Bytes} (absent : 32 ∉ x) (z : Bytes) :
    (x ++ 32 :: z).takeWhile (fun b => b != 32) = x ∧
      (x ++ 32 :: z).dropWhile (fun b => b != 32) = 32 :: z := by
  have other : ∀ b ∈ x, (b != 32) = true := fun b member =>
    bne_iff_ne.mpr fun eq : b = 32 => absent (eq ▸ member)
  rw [List.takeWhile_append_of_pos other, List.dropWhile_append_of_pos other]
  simp

theorem first_space {x y z u : Bytes} (absent : 32 ∉ x) (absent' : 32 ∉ y)
    (same : x ++ 32 :: z = y ++ 32 :: u) : x = y ∧ z = u := by
  have first : x = y := by rw [← (cut_space absent z).1, same, (cut_space absent' u).1]
  subst first
  exact ⟨rfl, (List.cons.inj (List.append_cancel_left same)).2⟩

theorem givesPath_iff {m : HttpMethod} (known : m ≠ .unset) (behind : Bytes) :
    GivesPath (methodText m ++ 32 :: behind) ↔
      ∃ target rest, (∀ b ∈ target, isprint b = true ∧ b ≠ 32) ∧ behind = target ++ 32 :: rest := by
  have absent (m : HttpMethod) : (32 : Byte) ∉ methodText m := by cases m <;> decide
  constructor
  · rintro ⟨m', target, rest, -, printable, same⟩
    exact ⟨target, rest, printable, (first_space (absent m) (absent m') same).2⟩
  · rintro ⟨target, rest, printable, rfl⟩
    exact ⟨m, target, rest, known, printable, rfl⟩

theorem scanTo_absent (pre : Bytes) {behind : Bytes} (absent : 32 ∉ behind) :
    (pre ++ behind).length ≤ scanTo (· == 32) (pre ++ behind) (pre ++ behind).length pre.length := by
  have whole : slice (pre ++ behind) pre.length (pre ++ behind).length = behind := by
    rw [slice, List.drop_left, List.take_of_length_le]
    simp
  have past : behind.findIdx (· == 32) = behind.length :=
    List.findIdx_eq_length.mpr fun b member => by
      simpa using fun same : b = 32 => absent (same ▸ member)
  rw [scanTo, whole, past, List.length_append]

section Target

variable {pre target : Bytes} {req : Request} (rest : Bytes)

/-- What HTTP_PS_REQ_PATH does once the space behind the target is there. -/
theorem reqPath_target (absent : 32 ∉ target) :
    parseStep (pre ++ (target ++ 32 :: rest)).length .reqPath (pre ++ (target ++ 32 :: rest)) req
        pre.length pre.length =
      if target.any (fun b => !isprint b) then
        .fail (pre ++ (target ++ 32 :: rest)) req .http400BadRequest
      else
        let (mem, req) := storePath (pre ++ (target ++ 32 :: rest)) req pre.length
          (pre.length + target.length)
        if attemptedPathTraversal (cString mem pre.length) then .fail mem req .http400BadRequest
        else .goto .reqVersion mem req (pre.length + target.length + 1)
          (pre.length + target.length + 1) := by
  have inside : ¬ (pre ++ (target ++ 32 :: rest)).length ≤ pre.length + target.length := by
    simp only [List.length_append, List.length_cons]
    omega
  simp only [parseStep, reqPath]
  rw [scanTo_text absent, if_neg inside, slice_text]

theorem parse_stops (past : (pre ++ target).length ≤
    scanTo (· == 32) (pre ++ target) (pre ++ target).length pre.length) :
    (parse (pre ++ target).length .reqPath (pre ++ target) req pre.length pre.length).req = req := by
  rw [parse_eq]
  simp only [parseStep, reqPath, if_pos past]
  rfl

theorem parse_unprintable (absent : 32 ∉ target) (wrong : target.any (fun b => !isprint b) = true) :
    (parse (pre ++ (target ++ 32 :: rest)).length .reqPath (pre ++ (target ++ 32 :: rest)) req
      pre.length pre.length).req = req := by
  rw [parse_eq, reqPath_target rest absent, if_pos wrong]
  rfl

theorem parse_printable (printable : ∀ b ∈ target, isprint b = true ∧ b ≠ 32)
    (fresh : req.freshCookies = none) {e : ParseEnd}
    (ends : parse (pre ++ (target ++ 32 :: rest)).length .reqPath (pre ++ (target ++ 32 :: rest)) req
      pre.length pre.length = e) :
    HoldsPath ((percentDecode (pathPart target)).takeWhile fun b => b ≠ 0) e.mem e.req
      (pre.length + target.length + 1) := by
  have absent : 32 ∉ target := fun member => (printable 32 member).2 rfl
  have shown : ¬ target.any (fun b => !isprint b) = true := by
    simpa using fun b member => (printable b member).1
  have plain : 0 ∉ pathPart target := fun member =>
    absurd (printable 0 (List.takeWhile_subset _ member)).1 (by decide)
  have inside : pre.length + target.length < (pre ++ (target ++ 32 :: rest)).length := by
    simp only [List.length_append, List.length_cons]
    omega
  obtain ⟨-, terminated, text, query, fields, -⟩ :=
    @storePath_spec _ req pre.length _ (Nat.le_add_right _ target.length) inside
  rw [parse_eq, reqPath_target rest absent, if_neg shown] at ends
  rw [slice_text, takeWhile_plain plain] at text
  generalize storePath (pre ++ (target ++ 32 :: rest)) req pre.length
    (pre.length + target.length) = out at terminated text fields ends
  obtain ⟨mem, req'⟩ := out
  simp only at terminated text fields ends
  have held : HoldsPath ((percentDecode (pathPart target)).takeWhile fun b => b ≠ 0) mem req'
      (pre.length + target.length + 1) := by
    refine ⟨⟨pre.length, by rw [fields], terminated, text⟩, fun k cookies => ?_⟩
    rw [fields, fresh] at cookies
    cases cookies
  cases attempted : attemptedPathTraversal (cString mem pre.length) with
  | true =>
    rw [attempted] at ends
    exact ends ▸ held
  | false =>
    rw [attempted] at ends
    exact ends ▸ parse_holdsPath rfl held (Nat.le_refl _) (Nat.le_refl _)

end Target

/-- The parser stores the path of a head as soon as the bytes give one, and never another one. -/
theorem headEnd_path (v : Bytes) : PathKnown v (headEnd v).mem (headEnd v).req := by
  rcases headEnd_method v with ⟨m, behind, known, rfl⟩ | ⟨unknown, none⟩
  · have absent : (32 : Byte) ∉ methodText m := by cases m <;> decide
    have front (behind : Bytes) :
        methodText m ++ 32 :: behind = (methodText m ++ [32]) ++ behind := by simp
    have size : (methodText m).length + 1 = (methodText m ++ [32]).length := by simp
    rw [headEnd_target known]
    by_cases spaced : 32 ∈ behind
    · obtain ⟨target, rest, rfl, absent'⟩ := List.eq_append_cons_of_mem spaced
      constructor
      · intro gives
        obtain ⟨target', rest', printable, same⟩ := (givesPath_iff known _).mp gives
        obtain ⟨rfl, -⟩ := first_space absent' (fun member => (printable 32 member).2 rfl) same
        have asked : requestTarget (methodText m ++ 32 :: (target ++ 32 :: rest)) = target := by
          rw [requestTarget, (cut_space absent _).2]
          exact (cut_space absent' rest).1
        refine ⟨(methodText m ++ [32]).length + target.length + 1, ?_⟩
        rw [requestPath, asked, front, size]
        exact @parse_printable _ _ { method := m } rest printable rfl _ rfl
      · intro missing
        have wrong : target.any (fun b => !isprint b) = true := by
          by_contra shown
          refine missing ((givesPath_iff known _).mpr ⟨target, rest, fun b member => ⟨?_, ?_⟩, rfl⟩)
          · simpa using fun hidden => shown (List.any_eq_true.mpr ⟨b, member, hidden⟩)
          · rintro rfl
            exact absent' member
        rw [front, size, parse_unprintable rest absent' wrong]
    · have past := scanTo_absent (methodText m ++ [32]) spaced
      have step := @parse_stops _ _ { method := m } past
      rw [front, size, step]
      refine ⟨fun gives => ?_, fun _ => rfl⟩
      rw [← front] at gives
      obtain ⟨target, rest, -, rfl⟩ := (givesPath_iff known _).mp gives
      exact absurd (by simp) spaced
  · refine ⟨?_, fun _ => none⟩
    rintro ⟨m, target, rest, known, -, same⟩
    exact absurd same (unknown m _ known)

end Line

section Received

variable {v : Bytes} {c : Client} {k : Kernel} {p r : Option Nat}

theorem headEnd_behind (v t : Bytes) :
    (parse v.length .new (v ++ t) {} 0 0).mem = (headEnd v).mem ++ t ∧
      (parse v.length .new (v ++ t) {} 0 0).req = (headEnd v).req := by
  have resumes := headEnd_resume v t (Nat.le_refl v.length)
  unfold Resumes at resumes
  cases head : parse v.length .new v {} 0 0 with
  | finish mem req q =>
    simp only [head] at resumes
    rw [resumes.2.2, headEnd, head]
    exact ⟨rfl, rfl⟩
  | fail mem req status =>
    simp only [head] at resumes
    rw [resumes.2, headEnd, head]
    exact ⟨rfl, rfl⟩
  | readMore state mem req q s =>
    simp only [head] at resumes
    obtain ⟨started, -, -, rfl, same⟩ := resumes
    rw [same, parse_stuck started _ _ (Nat.le_refl _), headEnd, head]
    exact ⟨rfl, rfl⟩

abbrev Client.Knows (c : Client) (v : Bytes) : Prop := PathKnown v c.reqHeaders c.ta.req

theorem recvParse_parsed (c : Client) (k : Kernel) (p r : Option Nat) :
    (recvParse c k p r).client.reqHeaders = (parse c.reqHeadersLen c.ta.parseState c.reqHeaders
        c.ta.req (p.getD 0) (r.getD 0)).mem ∧
      (recvParse c k p r).client.ta.req = (parse c.reqHeadersLen c.ta.parseState c.reqHeaders
        c.ta.req (p.getD 0) (r.getD 0)).req ∧
      (recvParse c k p r).kernel.input = k.input := by
  unfold recvParse
  split
  all_goals
    rename_i parsed
    rw [parsed]
    exact ⟨rfl, rfl, rfl⟩

theorem recvParse_knows (h : Entry v c p r) (k : Kernel) : (recvParse c k p r).client.Knows v := by
  obtain ⟨buffer, req, -⟩ := recvParse_parsed c k p r
  have start := h.same (c.reqHeaders.drop v.length) v.length (Nat.le_refl _)
  rw [List.take_append_drop] at start
  obtain ⟨mem', req'⟩ := headEnd_behind v (c.reqHeaders.drop v.length)
  rw [Client.Knows, buffer, req, h.fill, start, mem', req']
  exact (headEnd_path v).append _

def Known (v : Bytes) (c : Client) (r : Option Nat) : Prop := r = none ∨ c.Knows v

theorem recvRound_knows (h : Progress v c p r) (known : Known v c r) (k : Kernel) :
    ∃ taken, pendingBytes k.input = taken ++ pendingBytes (recvRound c k p r).kernel.input ∧
      ((recvRound c k p r).client.ta.resp.status = .xHangup ∨
        (recvRound c k p r).client.Knows (v ++ taken)) := by
  have keep : v ++ [] = v := List.append_nil v
  have past (stuck : parsePastEnd c r = true) : c.Knows v :=
    known.resolve_left fun null => by rw [null] at stuck; cases stuck
  unfold recvRound
  cases result : k.read (httpBufsz - c.reqHeadersLen) with
  | mk res k' =>
    have spec := read_spec result
    have cascade (none : res.bytes = []) :
        ∃ taken, pendingBytes k.input = taken ++ pendingBytes (recvParse c k' p r).kernel.input ∧
          ((recvParse c k' p r).client.ta.resp.status = .xHangup ∨
            (recvParse c k' p r).client.Knows (v ++ taken)) := by
      refine ⟨[], ?_, .inr ?_⟩
      · rw [(recvParse_parsed c k' p r).2.2, ← none]
        exact spec.bytes
      · rw [keep]
        exact recvParse_knows h.toEntry k'
    cases res with
    | wouldBlock =>
      simp only
      split
      · rename_i stuck
        exact ⟨[], spec.bytes, .inr (keep.symm ▸ past stuck)⟩
      · exact cascade rfl
    | failed code => exact ⟨[], spec.bytes, .inl rfl⟩
    | data bs =>
      cases bs with
      | nil =>
        simp only
        split
        · split
          · rename_i stuck
            exact ⟨[], spec.bytes, .inr (keep.symm ▸ past stuck)⟩
          · exact cascade rfl
        · exact ⟨[], spec.bytes, .inl rfl⟩
      | cons b bs =>
        have fits := spec.length
        rw [h.fill] at fits
        refine ⟨b :: bs, ?_, .inr (recvParse_knows (h.toEntry.extend fits) k')⟩
        rw [(recvParse_parsed _ k' p r).2.2]
        exact spec.bytes

theorem recvLoop_knows (h : Progress v c p r) (known : Known v c r) :
    ∃ taken, pendingBytes k.input = taken ++ pendingBytes (recvLoop c k p r).kernel.input ∧
      ((recvLoop c k p r).client.ta.resp.status = .xHangup ∨
        (recvLoop c k p r).client.Knows (v ++ taken)) := by
  fun_induction recvLoop c k p r generalizing v with
  | case1 c k p r o round =>
    have here := recvRound_knows h known k
    rwa [round] at here
  | case2 c k p r c' k' p' r' round ih =>
    obtain ⟨taken, bytes, here⟩ := recvRound_knows h known k
    have spec := recvRound_spec h k
    rw [round] at spec here bytes
    cases spec with
    | asks taken' bytes' progress =>
      obtain rfl := List.append_cancel_right (bytes.symm.trans bytes')
      have goesOn : c'.Knows (v ++ taken) := by
        refine here.resolve_left fun hangup => ?_
        simp only [Round.client] at hangup
        rw [progress.fresh] at hangup
        cases hangup
      obtain ⟨more, rest, there⟩ := ih progress (.inr goesOn)
      refine ⟨taken ++ more, ?_, ?_⟩
      · rw [bytes, Round.kernel, rest, List.append_assoc]
      · rw [← List.append_assoc]
        exact there

end Received

end Kitserv
