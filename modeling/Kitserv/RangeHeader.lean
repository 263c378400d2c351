import Kitserv.ApiFrame
import Kitserv.Lifecycle

namespace Kitserv

open Memory

structure Numeral (text : Bytes) : Prop where
  digits : ∀ b ∈ text, isdigit b = true
  nonempty : text ≠ []
  fits : (digitsValue text : Int) ≤ llongMax

/-- The three forms of a Range header with one range, and the numbers of each. -/
inductive RangeText : Bytes → ByteRange → Prop where
  | between {a b : Bytes} (first : Numeral a) (last : Numeral b)
      (order : digitsValue a ≤ digitsValue b) :
      RangeText (ascii "bytes=" ++ (a ++ 45 :: b)) { first := digitsValue a, last := digitsValue b }
  | onward {a : Bytes} (first : Numeral a) :
      RangeText (ascii "bytes=" ++ (a ++ [45])) { first := digitsValue a, last := -1 }
  | suffix {b : Bytes} (last : Numeral b) :
      RangeText (ascii "bytes=" ++ 45 :: b) { first := -1, last := digitsValue b }

section Numbers

variable {ds : Bytes}

theorem isdigit_ne {b : Byte} (digit : isdigit b = true) : b ≠ 45 ∧ b ≠ 43 ∧ b ≠ 0 := by
  refine ⟨?_, ?_, ?_⟩
  · rintro rfl
    cases digit
  · rintro rfl
    cases digit
  · rintro rfl
    cases digit

theorem isspace_of_digit {b : Byte} (digit : isdigit b = true) : isspace b = false := by
  simp only [isdigit, Bool.and_eq_true, decide_eq_true_eq, UInt8.le_iff_toNat_le] at digit
  apply Bool.eq_false_iff.mpr
  intro space
  simp [isspace, UInt8.le_iff_toNat_le] at digit space
  rcases space with rfl | space
  · simp at digit
  · omega

theorem dropWhile_digits (digits : ∀ b ∈ ds, isdigit b = true) : ds.dropWhile isspace = ds := by
  cases ds with
  | nil => rfl
  | cons b rest =>
    have first := isspace_of_digit (digits b (List.mem_cons_self ..))
    exact List.dropWhile_cons_of_neg (by simp [first])

theorem strtoll_digits (digits : ∀ b ∈ ds, isdigit b = true) (nonempty : ds ≠ []) :
    strtoll ds = if (digitsValue ds : Int) > llongMax
      then { value := llongMax, rest := [], erange := true }
      else { value := digitsValue ds, rest := [], erange := false } := by
  have sign (x : Byte) (other : ∀ b, isdigit b = true → b ≠ x) : (ds.head? == some x) = false := by
    cases ds with
    | nil => exact absurd rfl nonempty
    | cons b rest =>
      have digit := digits b (List.mem_cons_self ..)
      simpa using other b digit
  have minus := sign 45 fun b digit => (isdigit_ne digit).1
  have plus := sign 43 fun b digit => (isdigit_ne digit).2.1
  have all : ds.takeWhile isdigit = ds := List.takeWhile_eq_self_iff.mpr digits
  have rest : ds.dropWhile isdigit = [] := List.dropWhile_eq_nil_iff.mpr digits
  have low : ¬ (digitsValue ds : Int) < llongMin := by
    rw [llongMin]
    omega
  simp only [strtoll, dropWhile_digits digits, minus, plus, Bool.or_self, Bool.false_eq_true,
    if_false, all, rest, nonempty, low]

theorem strtonum_digits (digits : ∀ b ∈ ds, isdigit b = true) (nonempty : ds ≠ []) :
    ((strtonum ds).2 = true ↔ Numeral ds) ∧ (Numeral ds → (strtonum ds).1 = digitsValue ds) := by
  have number : Numeral ds ↔ (digitsValue ds : Int) ≤ llongMax :=
    ⟨Numeral.fits, fun fits => ⟨digits, nonempty, fits⟩⟩
  simp only [strtonum, strtoll_digits digits nonempty, number]
  rcases Int.lt_or_le llongMax (digitsValue ds) with large | fits
  · rw [if_pos large]
    exact ⟨by simp [Int.not_le.mpr large], fun fits => absurd fits (Int.not_le.mpr large)⟩
  · rw [if_neg (Int.not_lt.mpr fits)]
    exact ⟨by simp [fits], fun _ => rfl⟩

end Numbers

section Hyphen

variable {r h h' : Nat}

theorem findHyphen_behind {s : Bytes} : findHyphen s r (some h) = some (some h') ↔
    (∀ b ∈ s, isdigit b = true) ∧ h' = h := by
  induction s generalizing r with
  | nil =>
    simp only [findHyphen, Option.some.injEq, List.not_mem_nil, false_implies, implies_true, true_and]
    exact eq_comm
  | cons b rest ih =>
    simp only [findHyphen, List.mem_cons, forall_eq_or_imp]
    cases digit : isdigit b with
    | true => simpa using ih
    | false =>
      simp only [Bool.false_eq_true, if_false, false_and, iff_false]
      split
      · exact fun h => by cases h
      · exact fun h => by cases h

/-- The loop accepts digits, one hyphen, and digits again. -/
theorem findHyphen_iff {s : Bytes} : findHyphen s r none = some (some h) ↔
    ∃ a b, s = a ++ 45 :: b ∧ (∀ x ∈ a, isdigit x = true) ∧ (∀ x ∈ b, isdigit x = true) ∧
      h = r + a.length := by
  induction s generalizing r with
  | nil => simp [findHyphen]
  | cons x rest ih =>
    simp only [findHyphen]
    cases digit : isdigit x with
    | true =>
      simp only [if_true, ih]
      constructor
      · rintro ⟨a, b, rfl, first, last, rfl⟩
        refine ⟨x :: a, b, rfl, ?_, last, ?_⟩
        · intro y member
          rcases List.mem_cons.mp member with rfl | member
          · exact digit
          · exact first y member
        · rw [List.length_cons]
          omega
      · rintro ⟨a, b, whole, first, last, rfl⟩
        cases a with
        | nil =>
          cases whole
          cases digit
        | cons y a =>
          cases whole
          refine ⟨a, b, rfl, fun z member => first z (List.mem_cons_of_mem _ member), last, ?_⟩
          rw [List.length_cons]
          omega
    | false =>
      have hyphen (a b : Bytes) (whole : x :: rest = a ++ 45 :: b)
          (first : ∀ y ∈ a, isdigit y = true) : a = [] ∧ x = 45 ∧ rest = b := by
        cases a with
        | nil =>
          cases whole
          exact ⟨rfl, rfl, rfl⟩
        | cons y a =>
          cases whole
          have isDigit := first x (List.mem_cons_self ..)
          rw [digit] at isDigit
          cases isDigit
      simp only [Bool.false_eq_true, if_false]
      split
      · rename_i isHyphen
        rw [findHyphen_behind]
        constructor
        · rintro ⟨last, rfl⟩
          exact ⟨[], rest, by rw [isHyphen]; rfl, by simp, last, rfl⟩
        · rintro ⟨a, b, whole, first, last, rfl⟩
          obtain ⟨rfl, -, rfl⟩ := hyphen a b whole first
          exact ⟨last, rfl⟩
      · rename_i other
        constructor
        · exact fun h => by cases h
        · rintro ⟨a, b, whole, first, -⟩
          exact absurd (hyphen a b whole first).2.1 other

end Hyphen

section Sides

/-- What is in front of the hyphen and behind it, and the numbers that they stand for. -/
inductive RangeSides : Bytes → Bytes → ByteRange → Prop where
  | between {a b : Bytes} (first : Numeral a) (last : Numeral b)
      (order : digitsValue a ≤ digitsValue b) :
      RangeSides a b { first := digitsValue a, last := digitsValue b }
  | onward {a : Bytes} (first : Numeral a) : RangeSides a [] { first := digitsValue a, last := -1 }
  | suffix {b : Bytes} (last : Numeral b) : RangeSides [] b { first := -1, last := digitsValue b }

variable {mem : Bytes} {p : Nat} {text a b : Bytes} {range : ByteRange}

theorem rangeText_iff : RangeText text range ↔
    ∃ a b, text = ascii "bytes=" ++ (a ++ 45 :: b) ∧ (∀ x ∈ a, isdigit x = true) ∧
      (∀ x ∈ b, isdigit x = true) ∧ RangeSides a b range := by
  constructor
  · intro h
    cases h with
    | between first last order => exact ⟨_, _, rfl, first.digits, last.digits, .between first last order⟩
    | onward first => exact ⟨_, [], rfl, first.digits, by simp, .onward first⟩
    | suffix last => exact ⟨[], _, rfl, by simp, last.digits, .suffix last⟩
  · rintro ⟨a, b, rfl, -, -, sides⟩
    cases sides with
    | between first last order => exact .between first last order
    | onward first => exact .onward first
    | suffix last => exact .suffix last

theorem rangeNumbers_iff (here : TextAt mem p (a ++ 45 :: b)) (first : ∀ x ∈ a, isdigit x = true)
    (last : ∀ x ∈ b, isdigit x = true) :
    rangeNumbers mem p (p + a.length) = some range ↔ RangeSides a b range := by
  have inside : a.length < (a ++ 45 :: b).length := by simp
  have cut : TextAt (mem.set (p + a.length) 0) p a := by
    have cut := here.cut inside
    rwa [List.take_left] at cut
  have behind : TextAt mem (p + a.length + 1) b := by
    have behind := here.next (n := a.length) (by simp)
    rwa [List.drop_append, Nat.add_sub_cancel_left, List.drop_eq_nil_of_le (Nat.le_succ _)] at behind
  have after : TextAt (mem.set (p + a.length) 0) (p + a.length + 1) b :=
    behind.set_before (Nat.lt_succ_self _) 0
  have more : mem[p + a.length + 1]? ≠ some 0 ↔ b ≠ [] := by
    obtain ⟨rest, stored⟩ := behind.stored
    have cell : mem[p + a.length + 1]? = (b ++ 0 :: rest)[0]? := by
      rw [← stored, List.getElem?_drop, Nat.add_zero]
    rw [cell]
    cases b with
    | nil => simp
    | cons x b =>
      have digit := (isdigit_ne (last x (List.mem_cons_self ..))).2.2
      simpa using digit
  simp only [rangeNumbers, cut.reads, behind.reads, after.reads, more]
  cases a with
  | nil =>
    simp only [List.length_nil, Nat.add_zero, ne_eq, not_true_eq_false, if_false]
    cases b with
    | nil =>
      simp only [not_true_eq_false, if_false]
      constructor
      · exact fun h => by cases h
      · intro h
        cases h with
        | between first => exact absurd rfl first.nonempty
        | onward first => exact absurd rfl first.nonempty
        | suffix last => exact absurd rfl last.nonempty
    | cons x b =>
      obtain ⟨number, value⟩ := strtonum_digits last (List.cons_ne_nil x b)
      rw [if_pos (List.cons_ne_nil x b)]
      cases stored : (strtonum (x :: b)).2 with
      | true =>
        have numeral := number.mp stored
        rw [value numeral, if_neg (by simp)]
        constructor
        · rintro ⟨⟩
          exact .suffix numeral
        · intro h
          cases h with
          | between first => exact absurd rfl first.nonempty
          | suffix last => rfl
      | false =>
        rw [if_pos (by simp)]
        constructor
        · exact fun h => by cases h
        · intro h
          have numeral : Numeral (x :: b) := by cases h <;> assumption
          rw [number.mpr numeral] at stored
          cases stored
  | cons x a =>
    obtain ⟨number, value⟩ := strtonum_digits first (List.cons_ne_nil x a)
    rw [if_pos (by simp)]
    cases stored : (strtonum (x :: a)).2 with
    | false =>
      rw [if_pos (by simp)]
      constructor
      · exact fun h => by cases h
      · intro h
        have numeral : Numeral (x :: a) := by cases h <;> assumption
        rw [number.mpr numeral] at stored
        cases stored
    | true =>
      have numeral := number.mp stored
      rw [value numeral, if_neg (by simp)]
      cases b with
      | nil =>
        rw [if_neg (by simp)]
        constructor
        · rintro ⟨⟩
          exact .onward numeral
        · intro h
          cases h with
          | between first last => exact absurd rfl last.nonempty
          | onward first => rfl
      | cons y b =>
        obtain ⟨number', value'⟩ := strtonum_digits last (List.cons_ne_nil y b)
        rw [if_pos (List.cons_ne_nil y b)]
        cases stored' : (strtonum (y :: b)).2 with
        | false =>
          rw [if_pos (by simp)]
          constructor
          · exact fun h => by cases h
          · intro h
            have numeral' : Numeral (y :: b) := by cases h; assumption
            rw [number'.mpr numeral'] at stored'
            cases stored'
        | true =>
          have numeral' := number'.mp stored'
          rw [value' numeral']
          rcases Nat.lt_or_ge (digitsValue (y :: b)) (digitsValue (x :: a)) with less | order
          · rw [if_pos (.inr (Int.ofNat_lt.mpr less))]
            constructor
            · exact fun h => by cases h
            · intro h
              cases h with
              | between first last order => exact absurd less (Nat.not_lt.mpr order)
          · have kept : ¬ (¬ true = true ∨ (digitsValue (y :: b) : Int) < digitsValue (x :: a)) := by
              simp [order]
            rw [if_neg kept]
            constructor
            · rintro ⟨⟩
              exact .between numeral numeral' order
            · intro h
              cases h with
              | between first last order => rfl

theorem parseRangeAt_iff (here : TextAt mem p text) :
    (parseRangeAt mem p).range = some range ↔ RangeText text range := by
  rw [rangeText_iff]
  simp only [parseRangeAt, here.reads]
  cases unit : (ascii "bytes=").isPrefixOf text with
  | false =>
    simp only [Bool.false_eq_true, not_false_eq_true, if_true]
    constructor
    · exact fun h => by cases h
    · rintro ⟨a, b, rfl, -⟩
      have front := List.isPrefixOf_iff_prefix.mpr (List.prefix_append (ascii "bytes=") (a ++ 45 :: b))
      rw [unit] at front
      cases front
  | true =>
    obtain ⟨sides, rfl⟩ := List.isPrefixOf_iff_prefix.mp unit
    have six : (ascii "bytes=").length = 6 := rfl
    have behind : TextAt mem (p + 6) sides := by
      have behind := here.drop (n := 6) (by simp [six])
      rwa [← six, List.drop_left] at behind
    simp only [not_true_eq_false, if_false, behind.reads]
    cases found : findHyphen sides (p + 6) none with
    | none =>
      constructor
      · exact fun h => by cases h
      · rintro ⟨a, b, whole, first, last, -⟩
        cases List.append_cancel_left whole
        have found' := (@findHyphen_iff (p + 6) _ _).mpr ⟨a, b, rfl, first, last, rfl⟩
        rw [found] at found'
        cases found'
    | some hyphen =>
      cases hyphen with
      | none =>
        constructor
        · exact fun h => by cases h
        · rintro ⟨a, b, whole, first, last, -⟩
          cases List.append_cancel_left whole
          have found' := (@findHyphen_iff (p + 6) _ _).mpr ⟨a, b, rfl, first, last, rfl⟩
          rw [found] at found'
          cases found'
      | some hyphen =>
        obtain ⟨a, b, rfl, first, last, rfl⟩ := findHyphen_iff.mp found
        simp only [rangeNumbers_iff behind first last]
        constructor
        · exact fun sides => ⟨a, b, rfl, first, last, sides⟩
        · rintro ⟨a', b', whole, first', last', sides⟩
          have whole := List.append_cancel_left whole
          have found' := (@findHyphen_iff (p + 6) _ _).mpr ⟨a', b', rfl, first', last', rfl⟩
          rw [← whole, found] at found'
          have size : a.length = a'.length := by simpa using found'
          obtain ⟨rfl, behind⟩ := List.append_inj whole size
          cases behind
          exact sides

end Sides

section Answer

variable {c c' c'' : Client}

structure SameRange (c c' : Client) : Prop where
  buffer : c'.reqHeaders = c.reqHeaders
  header : c'.ta.req.range = c.ta.req.range
  requested : c'.ta.req.rangeRequested = c.ta.req.rangeRequested ∨
    c'.ta.req.rangeRequested = false ∧ (parseRange c).1 = none

namespace SameRange

theorem answer (h : SameRange c c') : (parseRange c').1 = (parseRange c).1 := by
  have header := h.header
  have buffer := h.buffer
  rcases h.requested with same | ⟨dropped, malformed⟩
  · simp only [parseRange_range, same, header, buffer]
  · rw [malformed, parseRange_range, if_neg (by simp [dropped])]

theorem trans (h : SameRange c c') (h' : SameRange c' c'') : SameRange c c'' := by
  refine ⟨h'.buffer.trans h.buffer, h'.header.trans h.header, ?_⟩
  rcases h'.requested with same | ⟨dropped, malformed⟩
  · rw [same]
    exact h.requested
  · exact .inr ⟨dropped, h.answer ▸ malformed⟩

/-- The request stays as it is. -/
theorem of_request (buffer : c'.reqHeaders = c.reqHeaders) (same : c'.ta.req = c.ta.req) :
    SameRange c c' := ⟨buffer, by rw [same], .inl (by rw [same])⟩

end SameRange

theorem headerAdd_sameRange (c : Client) (key : Bytes) (value : Rendering) :
    SameRange c (headerAdd c key value).client := by
  obtain ⟨buf, n, added | failed⟩ := headerAdd_shape c key value
  · rw [added]
    exact .of_request rfl rfl
  · rw [failed]
    exact .of_request rfl rfl

theorem handleRange_sameRange (c : Client) (st : Stat) : SameRange c (handleRange c st).client := by
  simp only [handleRange]
  split
  · exact .of_request rfl rfl
  · rcases parseRangeRequest_cases c st.size with
      ⟨malformed, result⟩ | ⟨range, -, -, result⟩ | ⟨range, r, -, -, result⟩
    · rw [result]
      exact ⟨rfl, rfl, .inr ⟨rfl, malformed⟩⟩
    · rw [result]
      have start : SameRange c (c.setStatus .http416RangeNotSatisfiable) := .of_request rfl rfl
      have added := start.trans (headerAdd_sameRange (c.setStatus .http416RangeNotSatisfiable)
        (ascii "content-range") (some (ascii "*/" ++ decimal st.size)))
      have set : (c.setStatus .http416RangeNotSatisfiable).ta.resp.status =
          .http416RangeNotSatisfiable := rfl
      rw [if_neg Bool.false_ne_true, if_pos (by rw [set]; simp), if_pos set]
      exact ⟨added.buffer, added.header, added.requested⟩
    · rw [result]
      have start : SameRange c (c.setRange r) := .of_request rfl rfl
      have added := start.trans (headerAdd_sameRange (c.setRange r) (ascii "content-range")
        (some (ascii "bytes " ++ decimal r.first ++ ascii "-" ++ decimal r.last ++ ascii "/" ++
          decimal st.size)))
      rw [if_pos rfl]
      split
      · exact ⟨added.buffer, added.header, added.requested⟩
      · exact ⟨added.buffer, added.header, added.requested⟩

theorem addFileHeaders_sameRange (lib : TimeLib) (c : Client) (fname : Bytes) (st : Stat) :
    SameRange c (addFileHeaders lib c fname st).client := by
  have type := headerAdd_sameRange c (ascii "content-type") (some (guessMimeType (extension fname)))
  simp only [addFileHeaders]
  split
  · exact type
  · have ranges := type.trans (headerAdd_sameRange (headerAddContentTypeGuess c (extension fname)).client
      (ascii "accept-ranges") (some (ascii "bytes")))
    split
    · exact ranges
    · simp only [headerAddLastModified]
      split
      · exact ranges
      · split
        · exact ranges
        · exact ranges.trans (headerAdd_sameRange ..)

theorem fileEnd_sameRange (lib : TimeLib) (c : Client) (fname : Bytes) (st : Stat) :
    SameRange c (fileEnd lib c fname st).client := by
  have ranged := handleRange_sameRange c st
  simp only [fileEnd]
  split
  · exact ranged
  · have added := ranged.trans (addFileHeaders_sameRange lib (handleRange c st).client fname st)
    split
    · exact added.trans (.of_request rfl rfl)
    · split
      · exact added
      · split
        · exact added.trans (.of_request rfl rfl)
        · split
          · exact added
          · exact added

theorem describeFile_sameRange (lib : TimeLib) (c : Client) (k : Kernel) (errno : Errno)
    (fname : Bytes) (st : Stat) : SameRange c (describeFile lib c k errno fname st).client := by
  have described := fileEnd_sameRange lib (c.wholeFile st) fname st
  have start : SameRange c (c.wholeFile st) := .of_request rfl rfl
  rw [describeFile_eq]
  revert described
  cases fileEnd lib (c.wholeFile st) fname st with
  | error r => exact fun described => start.trans (described.trans (.of_request rfl rfl))
  | unmodified r => exact fun described => start.trans (described.trans ⟨rfl, rfl, .inl rfl⟩)
  | full r => exact fun described => start.trans (described.trans (.of_request rfl rfl))

theorem handleStaticPath_sameRange (s : Server) (c : Client) (k : Kernel) (path : Bytes)
    (ctx : Option RequestContext) : SameRange c (handleStaticPath s c k path ctx).client := by
  simp only [handleStaticPath]
  split
  · exact .of_request rfl rfl
  · have chosen := tryPaths_spec c k.staleErrno.2 k.staleErrno.1
      (candidates (ctx.getD s.defaultContext) ((c.ta.req.path.map (cString c.reqHeaders)).getD []) path)
    revert chosen
    cases tryPaths c k.staleErrno.2 k.staleErrno.1 (candidates (ctx.getD s.defaultContext)
      ((c.ta.req.path.map (cString c.reqHeaders)).getD []) path) with
    | stop c' k' errno =>
      rintro ⟨-, status, rfl, -⟩
      exact .of_request rfl rfl
    | pathSet fname st c' k' errno =>
      rintro ⟨-, rfl⟩
      simp only [pathSet_eq]
      split
      · split
        · exact .of_request rfl rfl
        · rename_i fd _ _
          have start : SameRange c' (c'.setFd fd.val) := .of_request rfl rfl
          exact start.trans (describeFile_sameRange ..)
      · have start : SameRange c' (c'.setFd fdHead) := .of_request rfl rfl
        exact start.trans (describeFile_sameRange ..)

end Answer

/-- What `kitserv_http_parse_range` accepts is the grammar. It leaves the header string as it was,
and neither a call of the handler for the range nor static serving changes what the next call says. -/
theorem parse_range_grammar {c : Client} {p : Nat} {text : Bytes}
    (requested : c.ta.req.rangeRequested = true) (header : c.ta.req.range = some p)
    (here : TextAt c.reqHeaders p text) :
    (∀ range, (parseRange c).1 = some range ↔ RangeText text range) ∧ (parseRange c).2 = c ∧
      (∀ s k, (apiCall s c k .getRequestRange).client = c) ∧
      ∀ s k path ctx,
        (parseRange (handleStaticPath s c k path ctx).client).1 = (parseRange c).1 ∧
          (handleStaticPath s c k path ctx).client.reqHeaders = c.reqHeaders := by
  have unchanged := parseRange_client c
  refine ⟨fun range => ?_, unchanged, fun s k => ?_, fun s k path ctx => ?_⟩
  · rw [parseRange_range, requested, header]
    exact parseRangeAt_iff here
  · simp only [apiCall]
    split
    · rename_i same
      rw [same] at unchanged
      exact unchanged
    · rename_i same
      rw [same] at unchanged
      exact unchanged
  · have same := handleStaticPath_sameRange s c k path ctx
    exact ⟨same.answer, same.buffer⟩

def askingFive : Client :=
  { createClientStruct Blocks.zeroed with
    reqHeaders := ascii "bytes=0-4" ++ [0]
    ta := { req := { rangeRequested := true, range := some 0 } } }

theorem parse_range_grammar_five : (parseRange askingFive).1 = some { first := 0, last := 4 } := by
  have numeral (b : Byte) (digit : isdigit b = true) (fits : (digitsValue [b] : Int) ≤ llongMax) :
      Numeral [b] := ⟨by simpa using digit, List.cons_ne_nil _ _, fits⟩
  have here : TextAt askingFive.reqHeaders 0 (ascii "bytes=0-4") := ⟨by decide, [], rfl⟩
  refine ((parse_range_grammar rfl rfl here).1 _).mpr ?_
  exact RangeText.between (numeral 48 rfl (by decide)) (numeral 52 rfl (by decide)) (by decide)

end Kitserv
