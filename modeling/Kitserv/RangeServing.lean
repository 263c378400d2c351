import Kitserv.RangeHeader

namespace Kitserv

open Memory

inductive RangeChoice where
  | whole
  | part (first last : Int)
  | unsatisfiable
  deriving DecidableEq, Repr

/-- What a range should select of a file of `size` bytes, and all of it where there is none. -/
def rangeChoice (size : Int) : Option ByteRange → RangeChoice
  | none => .whole
  | some range =>
    if range.first < 0 then
      if range.last = 0 ∨ size = 0 then .unsatisfiable
      else .part (size - min range.last size) (size - 1)
    else if size ≤ range.first then .unsatisfiable
    else .part range.first (if range.last < 0 then size - 1 else min range.last (size - 1))

def contentRange (first last size : Int) : Bytes :=
  ascii "bytes " ++ decimal first ++ ascii "-" ++ decimal last ++ ascii "/" ++ decimal size

def fileLines (fname date : Bytes) : Bytes :=
  headerLine (ascii "content-type") (guessMimeType (extension fname)) ++
    headerLine (ascii "accept-ranges") (ascii "bytes") ++ headerLine (ascii "last-modified") date

def rangeLines (size : Int) (fname date : Bytes) : Option ByteRange → Bytes
  | none => fileLines fname date
  | some range =>
    match clampRange range size with
    | none => headerLine (ascii "content-range") (ascii "*/" ++ decimal size)
    | some r => headerLine (ascii "content-range") (contentRange r.first r.last size) ++
        fileLines fname date

def RangeChoice.Answers (size fd : Int) (r : StaticResult) : RangeChoice → Prop
  | whole => r.ok = true ∧ r.client.ta.resp.status = .http200Ok ∧ r.client.ta.resp.fd = fd ∧
      r.client.ta.resp.bodyPos = 0 ∧ r.client.ta.resp.bodyEnd = size - 1
  | part first last => r.ok = true ∧ r.client.ta.resp.status = .http206PartialContent ∧
      r.client.ta.resp.fd = fd ∧ r.client.ta.resp.bodyPos = first ∧ r.client.ta.resp.bodyEnd = last ∧
      0 ≤ first ∧ first ≤ last ∧ last ≤ size - 1 ∧ ∃ before behind, r.client.headerBlock =
        before ++ headerLine (ascii "content-range") (contentRange first last size) ++ behind
  | unsatisfiable => r.ok = false ∧ r.client.ta.resp.status = .http416RangeNotSatisfiable

/-- What a request with this Range header should be answered with. -/
def RangeAnswered (text : Bytes) (size fd : Int) (r : StaticResult) : Prop :=
  (∀ range, RangeText text range → (rangeChoice size (some range)).Answers size fd r) ∧
    ((∀ range, ¬ RangeText text range) → (rangeChoice size none).Answers size fd r)

/-- The range of a request does not begin right behind the end of the file, and a suffix is not
empty and shorter than the file. -/
def RangeProper (size : Int) (range : ByteRange) : Prop :=
  (0 ≤ range.first → range.first ≠ size) ∧ (range.first < 0 → 0 < range.last ∧ range.last < size)

theorem RangeText.bounds {text : Bytes} {range : ByteRange} (h : RangeText text range) :
    (0 ≤ range.first ∧ range.first ≤ range.last) ∨ (0 ≤ range.first ∧ range.last = -1) ∨
      (range.first = -1 ∧ 0 ≤ range.last) := by
  cases h with
  | between first last order => exact .inl ⟨Int.natCast_nonneg _, Int.ofNat_le.mpr order⟩
  | onward first => exact .inr (.inl ⟨Int.natCast_nonneg _, rfl⟩)
  | suffix last => exact .inr (.inr ⟨rfl, Int.natCast_nonneg _⟩)

section Choice

variable {size : Nat} {range : ByteRange}

theorem clampRange_iff (valid : (0 ≤ range.first ∧ range.first ≤ range.last) ∨
      (0 ≤ range.first ∧ range.last = -1) ∨ (range.first = -1 ∧ 0 ≤ range.last)) :
    (match clampRange range size with
      | none => rangeChoice size (some range) = .unsatisfiable
      | some r => rangeChoice size (some range) = .part r.first r.last) ↔ RangeProper size range := by
  obtain ⟨first, last⟩ := range
  simp only [clampRange, rangeChoice, RangeProper] at valid ⊢
  rcases Int.lt_or_le first 0 with suffix | start
  · rw [if_pos suffix, if_pos suffix]
    dsimp only
    split
    · simp only [reduceCtorEq, false_iff]
      omega
    · rw [RangeChoice.part.injEq]
      split
      · omega
      · omega
  · rw [if_neg (Int.not_lt.mpr start), if_neg (Int.not_lt.mpr start)]
    rcases Int.lt_or_le size first with behind | inside
    · rw [if_pos behind, if_pos (Int.le_of_lt behind)]
      simp only [true_iff]
      omega
    · rw [if_neg (Int.not_lt.mpr inside)]
      rcases Int.lt_or_le first size with proper | edge
      · rw [if_neg (Int.not_le.mpr proper)]
        dsimp only
        rw [RangeChoice.part.injEq]
        split
        · rw [if_pos (by omega)]
          omega
        · split
          · omega
          · omega
      · rw [if_pos edge]
        simp only [reduceCtorEq, false_iff]
        omega

theorem choice_inside {first last : Int} (valid : (0 ≤ range.first ∧ range.first ≤ range.last) ∨
      (0 ≤ range.first ∧ range.last = -1) ∨ (range.first = -1 ∧ 0 ≤ range.last))
    (choice : rangeChoice size (some range) = .part first last) :
    0 ≤ first ∧ first ≤ last ∧ last ≤ (size : Int) - 1 := by
  simp only [rangeChoice] at choice
  split at choice
  · split at choice
    · cases choice
    · cases choice
      omega
  · split at choice
    · cases choice
    · cases choice
      split
      · omega
      · omega

end Choice

section Answer

variable {c : Client} {st : Stat} {range r : ByteRange} {lib : TimeLib} {fname : Bytes}

theorem handleRange_malformed (malformed : (parseRange c).1 = none) :
    ∃ status, handleRange c st = { ok := true, client := { c.setStatus status with ta :=
      { (c.setStatus status).ta with req := { c.ta.req with rangeRequested := false } } } } := by
  simp only [handleRange]
  split
  · rename_i unasked
    have unasked : c.ta.req.rangeRequested = false := by simpa using unasked
    refine ⟨c.ta.resp.status, ?_⟩
    rw [← unasked]
    rfl
  · rw [parseRangeRequest_eq, malformed]
    exact ⟨.http400BadRequest, rfl⟩

theorem handleRange_clamped (ok : HeadersOk c) (parsed : (parseRange c).1 = some range)
    (clamped : clampRange range st.size = some r)
    (fits : (c.headerBlock ++ headerLine (ascii "content-range")
      (contentRange r.first r.last st.size)).length < httpBufsz) :
    ∃ h, handleRange c st = { ok := true, client := h } ∧
      WithHeaders (c.setRange r) (c.headerBlock ++
        headerLine (ascii "content-range") (contentRange r.first r.last st.size)) h := by
  have requested : c.ta.req.rangeRequested = true := by
    cases asked : c.ta.req.rangeRequested with
    | true => rfl
    | false => simp [parseRange_range, asked] at parsed
  obtain ⟨h, added, headers⟩ := @headerAdd_fits (c.setRange r) (ascii "content-range")
    (contentRange r.first r.last st.size) ⟨ok.size, ok.inside⟩ fits
  refine ⟨h, ?_, headers⟩
  have announced : headerAddContentRange (c.setRange r) r.first r.last st.size =
      { ok := true, client := h } := added
  simp only [handleRange, requested, not_true_eq_false, if_false]
  rw [parseRangeRequest_eq, parsed]
  simp only [clamped]
  have positions : (c.setRange r).ta.resp.bodyPos = r.first ∧
    (c.setRange r).ta.resp.bodyEnd = r.last := ⟨rfl, rfl⟩
  simp only [if_true, positions.1, positions.2, announced]

theorem handleRange_unsatisfiable (ok : HeadersOk c) (parsed : (parseRange c).1 = some range)
    (clamped : clampRange range st.size = none)
    (fits : (c.headerBlock ++ headerLine (ascii "content-range")
      (ascii "*/" ++ decimal st.size)).length < httpBufsz) :
    (handleRange c st).ok = false ∧
      (handleRange c st).client.ta.resp.status = .http416RangeNotSatisfiable := by
  have requested : c.ta.req.rangeRequested = true := by
    cases asked : c.ta.req.rangeRequested with
    | true => rfl
    | false => simp [parseRange_range, asked] at parsed
  obtain ⟨h, added, headers⟩ := @headerAdd_fits (c.setStatus .http416RangeNotSatisfiable)
    (ascii "content-range") (ascii "*/" ++ decimal st.size) ⟨ok.size, ok.inside⟩ fits
  have set : (c.setStatus .http416RangeNotSatisfiable).ta.resp.status =
      .http416RangeNotSatisfiable := rfl
  simp only [handleRange, requested, not_true_eq_false, if_false]
  rw [parseRangeRequest_eq, parsed]
  simp only [clamped, Bool.false_eq_true, if_false, set, ne_eq, reduceCtorEq, not_false_eq_true,
    if_true, added]
  refine ⟨trivial, ?_⟩
  rw [headers.same]
  rfl

theorem addFileHeaders_fits {date : Bytes} (ok : HeadersOk c)
    (fits : (c.headerBlock ++ fileLines fname date).length < httpBufsz)
    (shown : lib.strftime st.mtime = some date) (dated : date ≠ [] ∧ date.length < 32) :
    ∃ r, addFileHeaders lib c fname st = { ok := true, client := r } ∧
      WithHeaders c (c.headerBlock ++ fileLines fname date) r := by
  simp only [fileLines, List.length_append] at fits
  obtain ⟨r₁, type, h₁⟩ := @headerAdd_fits c (ascii "content-type")
    (guessMimeType (extension fname)) ok (by rw [List.length_append]; omega)
  obtain ⟨r₂, ranges, h₂⟩ := @headerAdd_fits r₁ (ascii "accept-ranges") (ascii "bytes")
    h₁.headersOk (by simp only [h₁.headerBlock, List.length_append]; omega)
  have both := h₁.trans h₂
  rw [h₁.headerBlock] at both
  obtain ⟨r₃, modified, h₃⟩ := @headerAdd_fits r₂ (ascii "last-modified") date
    h₂.headersOk (by simp only [both.headerBlock, List.length_append]; omega)
  have all := both.trans h₃
  rw [both.headerBlock] at all
  have usable : ¬ (date = [] ∨ 32 ≤ date.length) := by
    rintro (empty | long)
    · exact dated.1 empty
    · omega
  refine ⟨r₃, ?_, ?_⟩
  · simp only [addFileHeaders, headerAddContentTypeGuess, type, ranges, not_true_eq_false, if_false,
      headerAddLastModified, shown, if_neg usable, modified]
  · simpa only [fileLines, List.append_assoc] using all

theorem describeFile_handled {h : Client} {date : Bytes} (k : Kernel) (errno : Errno)
    (handled : handleRange (c.wholeFile st) st = { ok := true, client := h }) (ok : HeadersOk h)
    (fits : (h.headerBlock ++ fileLines fname date).length < httpBufsz)
    (unconditional : h.ta.req.modifiedSince = none) (shown : lib.strftime st.mtime = some date)
    (dated : date ≠ [] ∧ date.length < 32) :
    ∃ r, WithHeaders h (h.headerBlock ++ fileLines fname date) r ∧
      describeFile lib c k errno fname st = serveFile r k errno := by
  obtain ⟨r, added, headers⟩ := addFileHeaders_fits ok fits shown dated
  refine ⟨r, headers, ?_⟩
  have unasked : r.ta.req.modifiedSince = none := by
    rw [headers.same]
    exact unconditional
  rw [describeFile_eq]
  simp only [fileEnd, handled, not_true_eq_false, if_false, added, unasked]

theorem handleStaticPath_opened {s : Server} {path fname : Bytes} {ctx : Option RequestContext}
    {k k₁ k₂ : Kernel} {errno : Errno} {fd : Descriptor} {c₁ : Client} (get : c.ta.req.method = .get)
    (found : tryPaths c k.staleErrno.2 k.staleErrno.1 (candidates (ctx.getD s.defaultContext)
      ((c.ta.req.path.map (cString c.reqHeaders)).getD []) path) = .pathSet fname st c₁ k₁ errno)
    (opened : k₁.openRdonly fname = (.ok fd, k₂)) :
    handleStaticPath s c k path ctx = describeFile s.time (c.setFd fd.val) k₂ errno fname st := by
  have same := tryPaths_spec c k.staleErrno.2 k.staleErrno.1 (candidates (ctx.getD s.defaultContext)
    ((c.ta.req.path.map (cString c.reqHeaders)).getD []) path)
  rw [found] at same
  have allowed : ¬ c.ta.req.method.bits &&& HttpMethod.get.bits = 0 := by
    rw [get]
    decide
  obtain ⟨-, rfl⟩ := same
  simp only [handleStaticPath, if_neg allowed, found, pathSet_eq, if_pos get, opened]

end Answer

section Describe

variable {c : Client} {st : Stat} {range r : ByteRange} {lib : TimeLib} {fname date : Bytes}
  (k : Kernel) (errno : Errno)

theorem describeFile_malformed (ok : HeadersOk c) (pos : c.ta.resp.bodyPos = 0)
    (unconditional : c.ta.req.modifiedSince = none)
    (fits : (c.headerBlock ++ fileLines fname date).length < httpBufsz)
    (shown : lib.strftime st.mtime = some date) (dated : date ≠ [] ∧ date.length < 32)
    (malformed : (parseRange c).1 = none) :
    RangeChoice.whole.Answers st.size c.ta.resp.fd (describeFile lib c k errno fname st) := by
  have same : (parseRange (c.wholeFile st)).1 = none := by
    rw [← malformed]
    simp only [parseRange_range, Client.wholeFile]
  obtain ⟨status, handled⟩ := @handleRange_malformed _ st same
  obtain ⟨o, headers, served⟩ := describeFile_handled k errno handled ⟨ok.size, ok.inside⟩ fits
    unconditional shown dated
  rw [served, serveFile, headers.same]
  exact ⟨rfl, rfl, rfl, pos, rfl⟩

theorem describeFile_unsatisfiable (ok : HeadersOk c)
    (fits : (c.headerBlock ++ headerLine (ascii "content-range")
      (ascii "*/" ++ decimal st.size)).length < httpBufsz)
    (parsed : (parseRange c).1 = some range) (clamped : clampRange range st.size = none) :
    RangeChoice.unsatisfiable.Answers st.size c.ta.resp.fd (describeFile lib c k errno fname st) := by
  have same : (parseRange (c.wholeFile st)).1 = some range := by
    rw [← parsed]
    simp only [parseRange_range, Client.wholeFile]
  obtain ⟨refused, status⟩ := @handleRange_unsatisfiable (c.wholeFile st) st range
    ⟨ok.size, ok.inside⟩ same clamped fits
  rw [describeFile_eq]
  simp only [fileEnd, refused, Bool.false_eq_true, not_false_eq_true, if_true]
  exact ⟨rfl, status⟩

theorem describeFile_clamped (ok : HeadersOk c) (unconditional : c.ta.req.modifiedSince = none)
    (fits : (c.headerBlock ++ (headerLine (ascii "content-range")
      (contentRange r.first r.last st.size) ++ fileLines fname date)).length < httpBufsz)
    (shown : lib.strftime st.mtime = some date) (dated : date ≠ [] ∧ date.length < 32)
    (parsed : (parseRange c).1 = some range) (clamped : clampRange range st.size = some r) :
    ∃ o : Client, describeFile lib c k errno fname st =
        { ok := true, client := o, kernel := k, errno := errno } ∧
      o.ta.resp.status = .http206PartialContent ∧ o.ta.resp.fd = c.ta.resp.fd ∧
      o.ta.resp.bodyPos = r.first ∧ o.ta.resp.bodyEnd = r.last ∧ ∃ before behind, o.headerBlock =
        before ++ headerLine (ascii "content-range") (contentRange r.first r.last st.size) ++
          behind := by
  have same : (parseRange (c.wholeFile st)).1 = some range := by
    rw [← parsed]
    simp only [parseRange_range, Client.wholeFile]
  have requested : c.ta.req.rangeRequested = true := by
    cases asked : c.ta.req.rangeRequested with
    | true => rfl
    | false => simp [parseRange_range, asked] at parsed
  have block : (c.wholeFile st).headerBlock = c.headerBlock := rfl
  obtain ⟨h, handled, ranged⟩ := @handleRange_clamped (c.wholeFile st) st range r
    ⟨ok.size, ok.inside⟩ same clamped (by
      rw [block]
      simp only [List.length_append] at fits ⊢
      omega)
  have unasked : h.ta.req.modifiedSince = none := by
    rw [ranged.same]
    exact unconditional
  obtain ⟨o, headers, served⟩ := describeFile_handled k errno handled ranged.headersOk (by
      rw [ranged.headerBlock, block, List.append_assoc]
      exact fits) unasked shown dated
  have head : o.headerBlock = (c.wholeFile st).headerBlock ++ headerLine (ascii "content-range")
      (contentRange r.first r.last st.size) ++ fileLines fname date := by
    rw [headers.headerBlock, ranged.headerBlock]
  have kept : o.ta.req.rangeRequested = true := by
    rw [headers.same, ranged.same]
    exact requested
  refine ⟨o.setStatus .http206PartialContent, ?_, rfl, ?_, ?_, ?_, _, _, head⟩
  · rw [served, serveFile, if_pos kept]
  · rw [headers.same, ranged.same]
    rfl
  · rw [headers.same, ranged.same]
    rfl
  · rw [headers.same, ranged.same]
    rfl

theorem describeFile_answers_iff {text : Bytes} (ok : HeadersOk c)
    (unconditional : c.ta.req.modifiedSince = none)
    (fits : (c.headerBlock ++ rangeLines st.size fname date (some range)).length < httpBufsz)
    (shown : lib.strftime st.mtime = some date) (dated : date ≠ [] ∧ date.length < 32)
    (valid : RangeText text range) (parsed : (parseRange c).1 = some range) :
    (rangeChoice st.size (some range)).Answers st.size c.ta.resp.fd
      (describeFile lib c k errno fname st) ↔ RangeProper st.size range := by
  rw [← clampRange_iff valid.bounds]
  cases clamped : clampRange range st.size with
  | none =>
    simp only [rangeLines, clamped] at fits
    have refused := @describeFile_unsatisfiable c st range lib fname k errno ok fits parsed clamped
    dsimp only
    constructor
    · intro answers
      cases choice : rangeChoice st.size (some range) with
      | unsatisfiable => rfl
      | whole =>
        rw [choice] at answers
        cases refused.1.symm.trans answers.1
      | part first last =>
        rw [choice] at answers
        cases refused.1.symm.trans answers.1
    · intro choice
      rw [choice]
      exact refused
  | some r =>
    simp only [rangeLines, clamped] at fits
    obtain ⟨o, served, status, file, first, last, head⟩ := describeFile_clamped k errno ok
      unconditional fits shown dated parsed clamped
    rw [served]
    dsimp only
    constructor
    · intro answers
      cases choice : rangeChoice st.size (some range) with
      | unsatisfiable =>
        rw [choice] at answers
        cases answers.1
      | whole =>
        rw [choice] at answers
        cases status.symm.trans answers.2.1
      | part first' last' =>
        rw [choice] at answers
        obtain ⟨-, -, -, first', last', -⟩ := answers
        rw [← first', ← last', ← first, ← last]
    · intro choice
      rw [choice]
      have inside := choice_inside valid.bounds choice
      exact ⟨rfl, status, file, first, last, inside.1, inside.2.1, inside.2.2, head⟩

end Describe

/-- Static serving answers an unconditional GET with the bytes that its Range header asks for,
exactly as long as the range is a proper one. -/
theorem range_selected_iff {s : Server} {c c₁ : Client} {k k₁ k₂ : Kernel}
    {path fname text date : Bytes} {ctx : Option RequestContext} {st : Stat} {errno : Errno}
    {fd : Descriptor} {p : Nat}
    (get : c.ta.req.method = .get) (unconditional : c.ta.req.modifiedSince = none)
    (requested : c.ta.req.rangeRequested = true) (header : c.ta.req.range = some p)
    (here : TextAt c.reqHeaders p text) (ok : HeadersOk c) (pos : c.ta.resp.bodyPos = 0)
    (found : tryPaths c k.staleErrno.2 k.staleErrno.1 (candidates (ctx.getD s.defaultContext)
      ((c.ta.req.path.map (cString c.reqHeaders)).getD []) path) = .pathSet fname st c₁ k₁ errno)
    (opened : k₁.openRdonly fname = (.ok fd, k₂)) (shown : s.time.strftime st.mtime = some date)
    (dated : date ≠ [] ∧ date.length < 32)
    (fits : (c.headerBlock ++ rangeLines st.size fname date (parseRange c).1).length < httpBufsz) :
    RangeAnswered text st.size fd.val (handleStaticPath s c k path ctx) ↔
      ∀ range, RangeText text range → RangeProper st.size range := by
  have grammar : ∀ range, (parseRange c).1 = some range ↔ RangeText text range := by
    intro range
    rw [parseRange_range, ← parseRangeAt_iff here]
    simp [requested, header]
  have opening : (parseRange (c.setFd fd.val)).1 = (parseRange c).1 := by
    simp only [parseRange_range, Client.setFd]
  have ok : HeadersOk (c.setFd fd.val) := ⟨ok.size, ok.inside⟩
  rw [handleStaticPath_opened get found opened]
  cases parsed : (parseRange c).1 with
  | none =>
    have none_valid : ∀ range, ¬ RangeText text range := by
      intro range valid
      have := (grammar range).mpr valid
      rw [parsed] at this
      cases this
    rw [parsed] at fits opening
    have whole := describeFile_malformed k₂ errno ok pos unconditional fits shown dated opening
    exact ⟨fun _ range valid => absurd valid (none_valid range),
      fun _ => ⟨fun range valid => absurd valid (none_valid range), fun _ => whole⟩⟩
  | some range =>
    have valid := (grammar range).mp parsed
    have only (range' : ByteRange) (valid' : RangeText text range') : range' = range := by
      have := (grammar range').mpr valid'
      rw [parsed] at this
      exact (Option.some.inj this).symm
    rw [parsed] at fits opening
    have answers := describeFile_answers_iff k₂ errno ok unconditional fits shown dated valid opening
    constructor
    · intro answered range' valid'
      rw [only range' valid']
      exact answers.mp (answered.1 range valid)
    · intro proper
      refine ⟨fun range' valid' => ?_, fun none_valid => absurd valid (none_valid range)⟩
      rw [only range' valid']
      exact answers.mpr (proper range valid)

def fiveBytes : Stat where
  isReg := true
  size := 5
  size_lt := by decide
  mtime := 0

theorem three_pos : (0 : Int) < 3 := by decide

def FileSystem.fiveBytes : FileSystem where
  stat _ := .ok Kitserv.fiveBytes
  openRdonly _ := .ok ⟨3, three_pos⟩

def Kernel.fiveBytes : Kernel := { fs := fun _ => .fiveBytes }

def askingRange (text : Bytes) : Client :=
  { createClientStruct Blocks.zeroed with
    reqHeaders := text ++ [0]
    respHeaders := List.replicate httpBufsz 0
    ta := { req := { method := .get, rangeRequested := true, range := some 0 } } }

def servedRange (text : Bytes) : StaticResult :=
  handleStaticPath rootServer (askingRange text) .fiveBytes (ascii "/a") none

theorem range_selected_iff_five :
    RangeAnswered (ascii "bytes=-2") 5 3 (servedRange (ascii "bytes=-2")) ↔
      ∀ range, RangeText (ascii "bytes=-2") range → RangeProper 5 range := by
  have here : TextAt (askingRange (ascii "bytes=-2")).reqHeaders 0 (ascii "bytes=-2") :=
    ⟨by decide, [], rfl⟩
  have ok : HeadersOk (askingRange (ascii "bytes=-2")) := ⟨List.length_replicate, by decide⟩
  have empty : (askingRange (ascii "bytes=-2")).headerBlock = [] := rfl
  have text : RangeText (ascii "bytes=-2") { first := -1, last := 2 } :=
    RangeText.suffix (b := ascii "2") ⟨by decide +kernel, by decide, by decide⟩
  have parsed : (parseRange (askingRange (ascii "bytes=-2"))).1 =
      some { first := -1, last := 2 } := (parseRangeAt_iff here).mpr text
  have date : ascii "Thu, 01 Jan 1970 00:00:00 GMT" ≠ [] ∧
    (ascii "Thu, 01 Jan 1970 00:00:00 GMT").length < 32 := by decide
  have found : tryPaths (askingRange (ascii "bytes=-2")) .fiveBytes .zero
      (candidates rootServer.defaultContext [] (ascii "/a")) =
        .pathSet (ascii "//a") fiveBytes (askingRange (ascii "bytes=-2"))
          { Kernel.fiveBytes with clock := 1 } .zero := rfl
  have opened : (Kernel.openRdonly { Kernel.fiveBytes with clock := 1 } (ascii "//a")).1 =
      .ok ⟨3, by decide⟩ := rfl
  exact @range_selected_iff rootServer (askingRange (ascii "bytes=-2")) _ .fiveBytes _ _
    (ascii "/a") _ _ _ none _ _ _ _ rfl rfl rfl rfl here ok rfl found (Prod.ext opened rfl) rfl date
    (by rw [empty, parsed]; decide +kernel)

/-- A range that begins right behind the end of the file is served, as no bytes of it. -/
theorem range_behind_end_served :
    ¬ RangeAnswered (ascii "bytes=5-") 5 3 (servedRange (ascii "bytes=5-")) := by
  have valid : RangeText (ascii "bytes=5-") { first := 5, last := -1 } :=
    RangeText.onward (a := ascii "5") ⟨by decide +kernel, by decide, by decide⟩
  have served : (servedRange (ascii "bytes=5-")).ok = true := by decide +kernel
  intro answered
  have refused := (answered.1 _ valid).1
  cases served.symm.trans refused

end Kitserv
