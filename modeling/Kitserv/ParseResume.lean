import Kitserv.Parse
import Mathlib

/-! The switch of the parser on a growing buffer. Run on the first bytes of a head it either
stops for good, and then it stops the same way on any longer buffer, or it asks for more, and
then going on from where it stopped is the same as starting over on the longer buffer. -/
namespace Kitserv

open Memory

def ParseStep.append (t : Bytes) : ParseStep → ParseStep
  | goto state mem req p r => goto state (mem ++ t) req p r
  | readMore state mem req p r => readMore state (mem ++ t) req p r
  | finish mem req p => finish (mem ++ t) req p
  | fail mem req status => fail (mem ++ t) req status

def ParseStep.Forward (len r : Nat) : ParseStep → Prop
  | goto state mem _ p' r' =>
    state ≠ .new ∧ mem.length = len ∧ p' ≤ r' ∧ r < r' ∧ r' ≤ len
  | readMore .. => False
  | finish mem _ p' => mem.length = len ∧ r < p' ∧ p' ≤ len
  | fail mem _ _ => mem.length = len

/-- A case that ran out of bytes can be left and entered again with more of them. -/
structure Suspends (f : Bytes → Nat → Request → Nat → Nat → ParseStep) (state : ParseState)
    (v : Bytes) (req : Request) (p r : Nat) (t : Bytes) (n : Nat) : Prop where
  stops : f v v.length req p r = .readMore state v req p v.length
  resumes : f (v ++ t) n req p r = f (v ++ t) n req p v.length

structure Settles (f : Bytes → Nat → Request → Nat → Nat → ParseStep)
    (v : Bytes) (req : Request) (p r : Nat) (t : Bytes) (n : Nat) : Prop where
  forward : (f v v.length req p r).Forward v.length r
  stable : f (v ++ t) n req p r = (f v v.length req p r).append t

section Cases

variable {v : Bytes} (req : Request) {p r : Nat} (t : Bytes) {n : Nat}

/-- A scan over the first bytes finds its stop there, or goes on behind them. -/
theorem scan_cases (stop : Byte → Bool) (hr : r ≤ v.length) (hn : v.length ≤ n) :
    (scanTo stop v v.length r = v.length ∧
      scanTo stop (v ++ t) n r = scanTo stop (v ++ t) n v.length) ∨
    (scanTo stop v v.length r < v.length ∧ r ≤ scanTo stop v v.length r ∧
      scanTo stop (v ++ t) n r = scanTo stop v v.length r) := by
  have low : r ≤ scanTo stop v v.length r := le_scanTo stop
  have high := scanTo_le stop (m := v) hr
  by_cases past : v.length ≤ scanTo stop v v.length r
  · exact .inl ⟨Nat.le_antisymm high past, scanTo_append_of_ge t stop hr hn past⟩
  · exact .inr ⟨by omega, low, scanTo_append_of_lt t stop hr hn (by omega)⟩

theorem bufscmp_append (target : String) (h : p + (ascii target).length ≤ v.length) :
    bufscmp (v ++ t) p target = bufscmp v p target := by
  simp only [bufscmp, slice_append_left t h]

theorem methodAt_append (h : r < v.length) : methodAt (v ++ t) p r = methodAt v p r := by
  unfold methodAt
  split
  · rw [bufscmp_append t "GET " (by simp [ascii]; omega),
      bufscmp_append t "PUT " (by simp [ascii]; omega)]
  · rw [bufscmp_append t "HEAD " (by simp [ascii]; omega),
      bufscmp_append t "POST " (by simp [ascii]; omega)]
  · rw [bufscmp_append t "DELETE " (by simp [ascii]; omega)]
  · rfl

theorem reqMethod_resume (hr : r ≤ v.length) (hn : v.length ≤ n) :
    Suspends reqMethod .reqMethod v req p r t n ∨ Settles reqMethod v req p r t n := by
  rcases scan_cases t (· == 32) hr hn with ⟨whole, again⟩ | ⟨inside, low, same⟩
  · left
    constructor
    · simp only [reqMethod, whole, Nat.le_refl, if_true]
    · simp only [reqMethod, again]
  · right
    generalize found : scanTo (· == 32) v v.length r = r' at inside low same
    constructor
    · simp only [reqMethod, found]
      rw [if_neg (by omega)]
      cases methodAt v p r' with
      | none => exact rfl
      | some m => exact ⟨by simp, rfl, Nat.le_refl _, by omega, by omega⟩
    · simp only [reqMethod, found, same]
      rw [if_neg (by omega), if_neg (by omega), methodAt_append t inside]
      cases methodAt v p r' with
      | none => rfl
      | some m => rfl

theorem urlDecode_append {s : Nat} (ends : TerminatedBelow (0 : Byte) v s v.length) :
    urlDecode (v ++ t) s = urlDecode v s ++ t := by
  have ends' : TerminatedBelow (0 : Byte) (v ++ t) s v.length :=
    ends.congr (n := v.length) (by simp)
  have short := length_percentDecode_le (cString v s)
  have inside := ends.length_lt
  rw [urlDecode_eq ends, urlDecode_eq (ends'.mono (by simp)), cString, cstr_append_left t ends,
    overwrite_append_left t]
  simp only [List.length_append, List.length_singleton]
  simp only [cString] at short
  omega

theorem storePath_append (hp : p ≤ r) (inside : r < v.length) :
    (storePath v req p r).1.length = v.length ∧
    TerminatedBelow (0 : Byte) (storePath v req p r).1 p v.length ∧
    storePath (v ++ t) req p r = ((storePath v req p r).1 ++ t, (storePath v req p r).2) := by
  have closed : (v.set r 0)[r]? = some 0 := by simp [inside]
  have len₁ : (v.set r 0).length = v.length := List.length_set
  have low : p ≤ p + (slice v p r).findIdx (· == 63) := Nat.le_add_right _ _
  simp only [storePath, slice_append_left t (Nat.le_of_lt inside), List.set_append_left r 0 inside]
  generalize p + (slice v p r).findIdx (· == 63) = s at low
  by_cases hs : s < r
  · have len₂ : ((v.set r 0).set s 0).length = v.length := by simp
    have query : TerminatedBelow (0 : Byte) ((v.set r 0).set s 0) (s + 1)
        ((v.set r 0).set s 0).length :=
      ⟨r, hs, by omega, (List.getElem?_set_ne (by omega)).trans closed⟩
    have mark : (urlDecode ((v.set r 0).set s 0) (s + 1))[s]? = some 0 := by
      rw [getElem?_urlDecode_of_lt query (Nat.lt_succ_self s), List.getElem?_set_self (by omega)]
    have path : TerminatedBelow (0 : Byte) (urlDecode ((v.set r 0).set s 0) (s + 1)) p
        (urlDecode ((v.set r 0).set s 0) (s + 1)).length :=
      ⟨s, low, by rw [length_urlDecode]; omega, mark⟩
    have decoded := terminated_urlDecode path (Nat.le_refl _)
    rw [length_urlDecode, len₂] at decoded
    simp only [if_pos hs, List.set_append_left s 0 (show s < (v.set r 0).length by omega),
      urlDecode_append t query, urlDecode_append t path, length_urlDecode, len₂]
    exact ⟨trivial, decoded, trivial⟩
  · have path : TerminatedBelow (0 : Byte) (v.set r 0) p (v.set r 0).length :=
      ⟨r, hp, by omega, closed⟩
    have decoded := terminated_urlDecode path (Nat.le_refl _)
    rw [len₁] at decoded
    simp only [if_neg hs, urlDecode_append t path, length_urlDecode, len₁]
    exact ⟨trivial, decoded, trivial⟩

theorem reqPath_resume (hp : p ≤ r) (hr : r ≤ v.length) (hn : v.length ≤ n) :
    Suspends reqPath .reqPath v req p r t n ∨ Settles reqPath v req p r t n := by
  rcases scan_cases t (· == 32) hr hn with ⟨whole, again⟩ | ⟨inside, low, same⟩
  · left
    constructor
    · simp only [reqPath, whole, Nat.le_refl, if_true]
    · simp only [reqPath, again]
  · right
    generalize found : scanTo (· == 32) v v.length r = r' at inside low same
    obtain ⟨len, ends, stored⟩ := storePath_append req t (show p ≤ r' by omega) inside
    have path : cString ((storePath v req p r').1 ++ t) p = cString (storePath v req p r').1 p :=
      cstr_append_left t (by rw [len]; exact ends)
    constructor
    · simp only [reqPath, found]
      rw [if_neg (by omega)]
      split
      · exact rfl
      · split
        · exact len
        · exact ⟨by simp, len, Nat.le_refl _, by omega, by omega⟩
    · simp only [reqPath, found, same, slice_append_left t (Nat.le_of_lt inside), stored, path]
      rw [if_neg (show ¬ n ≤ r' by omega), if_neg (show ¬ v.length ≤ r' by omega)]
      by_cases printable : (slice v p r').any (fun b => !isprint b) = true
      · rw [if_pos printable, if_pos printable]
        rfl
      · rw [if_neg printable, if_neg printable]
        split <;> rfl

theorem reqVersion_resume (hr : r ≤ v.length) (hn : v.length ≤ n) :
    Suspends reqVersion .reqVersion v req p r t n ∨ Settles reqVersion v req p r t n := by
  rcases scan_cases t (· == 13) hr hn with ⟨whole, again⟩ | ⟨inside, low, same⟩
  · left
    constructor
    · simp only [reqVersion, whole, Nat.le_refl, if_true]
    · simp only [reqVersion, again]
  · right
    generalize found : scanTo (· == 13) v v.length r = r' at inside low same
    constructor
    · simp only [reqVersion, found]
      rw [if_neg (by omega)]
      split
      · exact rfl
      · split
        · exact ⟨by simp, rfl, Nat.le_refl _, by omega, by omega⟩
        · split
          · exact ⟨by simp, rfl, Nat.le_refl _, by omega, by omega⟩
          · exact rfl
    · simp only [reqVersion, found, same]
      rw [if_neg (show ¬ n ≤ r' by omega), if_neg (show ¬ v.length ≤ r' by omega)]
      by_cases short : r' - p < 5
      · rw [if_pos (Or.inl short), if_pos (Or.inl short)]
        rfl
      have protocol := bufscmp_append t "HTTP/" (p := p) (v := v) (by simp [ascii]; omega)
      by_cases three : r' - (p + 5) = 3
      · have one := bufscmp_append t "1.1" (p := p + 5) (v := v) (by simp [ascii]; omega)
        have zero := bufscmp_append t "1.0" (p := p + 5) (v := v) (by simp [ascii]; omega)
        simp only [protocol, one, zero]
        split
        · rfl
        · split
          · rfl
          · split <;> rfl
      · simp only [protocol, three, false_and, if_false]
        split <;> rfl

theorem reqVersionLf_resume (hr : r ≤ v.length) (hn : v.length ≤ n) :
    Suspends reqVersionLf .reqVersionLf v req p r t n ∨ Settles reqVersionLf v req p r t n := by
  by_cases whole : r = v.length
  · left
    constructor
    · simp only [reqVersionLf, whole, Nat.le_refl, if_true]
    · rw [whole]
  · right
    have cell : (v ++ t)[r]? = v[r]? := List.getElem?_append_left (by omega)
    constructor
    · simp only [reqVersionLf]
      rw [if_neg (by omega)]
      split
      · exact rfl
      · exact ⟨by simp, rfl, Nat.le_refl _, by omega, by omega⟩
    · simp only [reqVersionLf, cell]
      rw [if_neg (show ¬ n ≤ r by omega), if_neg (show ¬ v.length ≤ r by omega)]
      split <;> rfl

theorem reqHeadLf_resume (hr : r ≤ v.length) (hn : v.length ≤ n) :
    Suspends reqHeadLf .reqHeadLf v req p r t n ∨ Settles reqHeadLf v req p r t n := by
  by_cases whole : r = v.length
  · left
    constructor
    · simp only [reqHeadLf, whole, Nat.le_refl, if_true]
    · rw [whole]
  · right
    have cell : (v ++ t)[r]? = v[r]? := List.getElem?_append_left (by omega)
    constructor
    · simp only [reqHeadLf]
      rw [if_neg (by omega)]
      split
      · exact rfl
      · split
        · exact ⟨by simp, rfl, Nat.le_refl _, by omega, by omega⟩
        · exact ⟨rfl, by omega, by omega⟩
    · simp only [reqHeadLf, cell]
      rw [if_neg (show ¬ n ≤ r by omega), if_neg (show ¬ v.length ≤ r by omega)]
      split
      · rfl
      · split <;> rfl

theorem skipBlanks_le {q j : Nat} {b : Byte} (hq : q ≤ j) (cell : v[j]? = some b)
    (dark : (b == 32 || b == 9) = false) : q ≤ skipBlanks v q ∧ skipBlanks v q ≤ j :=
  ⟨Nat.le_add_right _ _, run_le hq cell dark⟩

theorem skipBlanks_append {q j : Nat} {b : Byte} (hq : q ≤ j) (cell : v[j]? = some b)
    (dark : (b == 32 || b == 9) = false) : skipBlanks (v ++ t) q = skipBlanks v q := by
  obtain ⟨hj, -⟩ := List.getElem?_eq_some_iff.mp cell
  have stops := (skipBlanks_le hq cell dark).2
  have part : ¬ ((v.drop q).takeWhile fun b => b == 32 || b == 9).length = (v.drop q).length := by
    unfold skipBlanks at stops
    simp only [List.length_drop]
    omega
  simp only [skipBlanks, List.drop_append_of_le_length (show q ≤ v.length by omega),
    List.takeWhile_append, if_neg part]

theorem headerFunc_append {h : Bytes × Nat × HeaderFunc} (member : h ∈ headers) {value : Nat}
    (ends : TerminatedBelow (0 : Byte) v value v.length) :
    h.2.2 (v ++ t) req value = h.2.2 v req value := by
  have number : cString (v ++ t) value = cString v value := cstr_append_left t ends
  simp only [headers, List.mem_cons, List.not_mem_nil, or_false] at member
  rcases member with rfl | rfl | rfl | rfl | rfl | rfl
  case inr.inr.inr.inl => simp only [parseHeaderContentLength, number]
  all_goals rfl

theorem processHeader_append {s value : Nat}
    (name : TerminatedBelow (0 : Byte) v p v.length)
    (ends : TerminatedBelow (0 : Byte) v value v.length) :
    processHeader (v ++ t) req p s value = processHeader v req p s value := by
  have same : cString (v ++ t) p = cString v p := cstr_append_left t name
  simp only [processHeader, same]
  cases entry : headers.find? fun h => s - p == h.2.1 && sameNoCase (cString v p) h.1 with
  | none => rfl
  | some h => exact headerFunc_append req t (List.mem_of_find?_eq_some entry) ends

theorem strchr_append {ch : Byte} (ends : TerminatedBelow (0 : Byte) v p v.length) :
    strchr (v ++ t) p ch = strchr v p ch := by
  have same : cString (v ++ t) p = cString v p := cstr_append_left t ends
  simp only [strchr, same]

theorem reqHead_resume (hp : p ≤ r) (hr : r ≤ v.length) (hn : v.length ≤ n) :
    Suspends reqHead .reqHead v req p r t n ∨ Settles reqHead v req p r t n := by
  rcases scan_cases t (· == 13) hr hn with ⟨whole, again⟩ | ⟨inside, low, same⟩
  · left
    constructor
    · simp only [reqHead, whole, Nat.le_refl, if_true]
    · simp only [reqHead, again]
  right
  generalize found : scanTo (· == 13) v v.length r = r' at inside low same
  have long : ¬ n ≤ r' := by omega
  have short : ¬ v.length ≤ r' := by omega
  by_cases empty : r' = p
  · constructor
    · simp only [reqHead, found]
      rw [if_neg short, if_neg (not_not.mpr empty)]
      exact ⟨by simp, rfl, by omega, by omega, by omega⟩
    · simp only [reqHead, found, same]
      rw [if_neg long, if_neg short, if_neg (not_not.mpr empty), if_neg (not_not.mpr empty)]
      rfl
  -- a header: it is capped at r', and its name at the colon
  have closed : (v.set r' 0)[r']? = some 0 := by simp [inside]
  have len : (v.set r' 0).length = v.length := List.length_set
  have line : TerminatedBelow (0 : Byte) (v.set r' 0) p (v.set r' 0).length :=
    ⟨r', by omega, by omega, closed⟩
  cases colon : strchr (v.set r' 0) p 58 with
  | none =>
    constructor
    · simp only [reqHead, found, colon]
      rw [if_neg short, if_pos empty]
      exact len
    · simp only [reqHead, found, same, List.set_append_left r' 0 inside, strchr_append t line, colon]
      rw [if_neg long, if_neg short, if_pos empty, if_pos empty]
      rfl
  | some s =>
    obtain ⟨hps, hs⟩ := strchr_some colon
    have inLine : p + (cString (v.set r' 0) p).length ≤ r' := by
      have below : TerminatedBelow (0 : Byte) (v.set r' 0) p (r' + 1) :=
        ⟨r', by omega, Nat.lt_succ_self _, closed⟩
      exact Nat.le_of_lt_succ below.length_lt
    have len₂ : ((v.set r' 0).set s 0).length = v.length := by simp
    have capped : ((v.set r' 0).set s 0)[r']? = some 0 :=
      (List.getElem?_set_ne (by omega)).trans closed
    have name : TerminatedBelow (0 : Byte) ((v.set r' 0).set s 0) p ((v.set r' 0).set s 0).length :=
      ⟨s, hps, by omega, List.getElem?_set_self (by omega)⟩
    have blanks := skipBlanks_le (q := s + 1) (by omega) capped (by decide)
    have value : TerminatedBelow (0 : Byte) ((v.set r' 0).set s 0)
        (skipBlanks ((v.set r' 0).set s 0) (s + 1)) ((v.set r' 0).set s 0).length :=
      ⟨r', blanks.2, by omega, capped⟩
    have setAppend : (v.set r' 0 ++ t).set s 0 = (v.set r' 0).set s 0 ++ t :=
      List.set_append_left s 0 (by omega)
    constructor
    · simp only [reqHead, found, colon]
      rw [if_neg short, if_pos empty]
      rcases processHeader ((v.set r' 0).set s 0) req p s
        (skipBlanks ((v.set r' 0).set s 0) (s + 1)) with ⟨req', _ | status⟩
      · exact ⟨by simp, len₂, Nat.le_refl _, by omega, by omega⟩
      · exact len₂
    · simp only [reqHead, found, same, List.set_append_left r' 0 inside, strchr_append t line,
        colon, setAppend, skipBlanks_append t (show s + 1 ≤ r' by omega) capped (by decide),
        processHeader_append req t name value]
      rw [if_neg long, if_neg short, if_pos empty, if_pos empty]
      rcases processHeader ((v.set r' 0).set s 0) req p s
        (skipBlanks ((v.set r' 0).set s 0) (s + 1)) with ⟨req', _ | status⟩
      · rfl
      · rfl

end Cases

theorem parseStep_resume {state : ParseState} (started : state ≠ .new) {v : Bytes} (req : Request)
    {p r : Nat} (t : Bytes) {n : Nat} (hp : p ≤ r) (hr : r ≤ v.length) (hn : v.length ≤ n) :
    Suspends (fun mem len => parseStep len state mem) state v req p r t n ∨
      Settles (fun mem len => parseStep len state mem) v req p r t n := by
  cases state with
  | new => exact absurd rfl started
  | reqMethod => exact reqMethod_resume req t hr hn
  | reqPath => exact reqPath_resume req t hp hr hn
  | reqVersion => exact reqVersion_resume req t hr hn
  | reqVersionLf => exact reqVersionLf_resume req t hr hn
  | reqHead => exact reqHead_resume req t hp hr hn
  | reqHeadLf => exact reqHeadLf_resume req t hr hn

theorem parse_eq (len : Nat) (state : ParseState) (mem : Bytes) (req : Request) (p r : Nat) :
    parse len state mem req p r =
      match parseStep len state mem req p r with
      | .goto state mem req p r => parse len state mem req p r
      | .readMore state mem req p r => .readMore state mem req p r
      | .finish mem req p => .finish mem req p
      | .fail mem req status => .fail mem req status := by
  rw [parse]
  split <;> rename_i step <;> rw [step]

/-- What the switch does on `v`, and on `v` with `t` behind it in a buffer filled up to `n`. -/
def Resumes (state : ParseState) (v : Bytes) (req : Request) (p r : Nat) (t : Bytes) (n : Nat) :
    Prop :=
  match parse v.length state v req p r with
  | .finish mem req' p' =>
    mem.length = v.length ∧ p' ≤ v.length ∧
      parse n state (v ++ t) req p r = .finish (mem ++ t) req' p'
  | .fail mem req' status =>
    mem.length = v.length ∧ parse n state (v ++ t) req p r = .fail (mem ++ t) req' status
  | .readMore state' mem req' p' r' =>
    state' ≠ .new ∧ mem.length = v.length ∧ p' ≤ r' ∧ r' = v.length ∧
      parse n state (v ++ t) req p r = parse n state' (mem ++ t) req' p' r'

theorem parse_resume (t : Bytes) {n : Nat} {state : ParseState} {v : Bytes} {req : Request}
    {p r : Nat} (hp : p ≤ r) (hr : r ≤ v.length) (hn : v.length ≤ n) :
    Resumes state v req p r t n := by
  induction size : parseMeasure v.length state r using Nat.strong_induction_on
    generalizing state v req p r with
  | _ size' ih =>
    subst size
    by_cases started : state = .new
    · subst started
      have step : parseStep v.length .new v req p r = .goto .reqMethod v req 0 0 := rfl
      have rest : Resumes .reqMethod v req 0 0 t n :=
        ih _ (parseStep_decreases step) (Nat.le_refl 0) (Nat.zero_le v.length) hn rfl
      unfold Resumes at rest ⊢
      rw [parse_eq v.length .new, parse_eq n .new]
      exact rest
    rcases parseStep_resume started req t hp hr hn with ⟨stops, resumes⟩ | ⟨forward, stable⟩
    · change parseStep v.length state v req p r = _ at stops
      change parseStep n state (v ++ t) req p r = _ at resumes
      unfold Resumes
      rw [parse_eq v.length, stops]
      refine ⟨started, rfl, by omega, rfl, ?_⟩
      rw [parse_eq n state, resumes, ← parse_eq]
    · change (parseStep v.length state v req p r).Forward _ _ at forward
      change parseStep n state (v ++ t) req p r = _ at stable
      cases step : parseStep v.length state v req p r with
      | goto state' mem req' p' r' =>
        rw [step] at forward stable
        obtain ⟨-, len, hp', -, hr'⟩ := forward
        have less : parseMeasure mem.length state' r' < parseMeasure v.length state r := by
          rw [len]
          exact parseStep_decreases step
        have rest : Resumes state' mem req' p' r' t n :=
          ih _ less hp' (by omega) (by omega) rfl
        unfold Resumes at rest ⊢
        rw [parse_eq v.length, parse_eq n, step, stable]
        simp only [ParseStep.append]
        rw [len] at rest
        exact rest
      | readMore state' mem req' p' r' =>
        rw [step] at forward
        exact absurd forward (by simp [ParseStep.Forward])
      | finish mem req' p' =>
        rw [step] at forward stable
        unfold Resumes
        rw [parse_eq v.length, parse_eq n, step, stable]
        exact ⟨forward.1, forward.2.2, rfl⟩
      | fail mem req' status =>
        rw [step] at forward stable
        unfold Resumes
        rw [parse_eq v.length, parse_eq n, step, stable]
        exact ⟨forward, rfl⟩

end Kitserv
