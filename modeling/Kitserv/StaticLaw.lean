import Kitserv.Decimal
import Kitserv.HeaderText
import Kitserv.StaticFile

namespace Kitserv

open Memory

theorem findHyphen_some {s : Bytes} {r h : Nat} {hyphen : Option Nat}
    (found : findHyphen s r hyphen = some (some h)) :
    hyphen = some h ∨ (r ≤ h ∧ s[h - r]? = some 45) := by
  induction s generalizing r hyphen with
  | nil =>
    cases found
    exact .inl rfl
  | cons b rest ih =>
    have later {hyphen' : Option Nat} (found : findHyphen rest (r + 1) hyphen' = some (some h)) :
        hyphen' = some h ∨ (r ≤ h ∧ (b :: rest)[h - r]? = some 45) := by
      rcases ih found with given | ⟨low, cell⟩
      · exact .inl given
      · have shift : h - r = h - (r + 1) + 1 := by omega
        exact .inr ⟨by omega, by rw [shift, List.getElem?_cons_succ]; exact cell⟩
    simp only [findHyphen] at found
    split at found
    · exact later found
    · split at found
      · rename_i isHyphen
        cases hyphen with
        | some h' => cases found
        | none =>
          rcases later found with given | last
          · cases given
            exact .inr ⟨Nat.le_refl _, by simp [isHyphen]⟩
          · exact .inr last
      · cases found

theorem cString_getElem? {mem : Bytes} {p i : Nat} {b : Byte} (h : (cString mem p)[i]? = some b) :
    mem[p + i]? = some b := by
  obtain ⟨t, whole⟩ : cString mem p <+: mem.drop p := List.takeWhile_prefix _
  rw [← List.getElem?_drop, ← whole, List.getElem?_append_left, h]
  exact (List.getElem?_eq_some_iff.mp h).1

theorem parseRangeAt_mem (mem : Bytes) (p : Nat) : (parseRangeAt mem p).mem = mem := by
  unfold parseRangeAt
  split
  · rfl
  · simp only
    split
    · rfl
    · rfl
    · rename_i hyphen found
      have cell : mem[hyphen]? = some 45 := by
        rcases findHyphen_some found with given | ⟨low, cell⟩
        · cases given
        · have cell := cString_getElem? cell
          rwa [Nat.add_sub_cancel' low] at cell
      have back : mem.set hyphen 45 = mem := by
        obtain ⟨inside, value⟩ := List.getElem?_eq_some_iff.mp cell
        rw [← value]
        exact List.set_getElem_self inside
      simp only
      split
      · rw [List.set_set, back]
      · exact back

theorem parseRange_client (c : Client) : (parseRange c).2 = c := by
  unfold parseRange
  split
  · rfl
  · split
    · rfl
    · rename_i p _
      simp only [parseRangeAt_mem]
/-- `r` is `c` but for the header block, the range and the status. -/
structure HeadFrame (c r : Client) : Prop where
  same : r = { c with
    respHeaders := r.respHeaders
    ta := { c.ta with
      req := { c.ta.req with rangeRequested := r.ta.req.rangeRequested }
      resp := { r.ta.resp with
        fd := c.ta.resp.fd
        bufs := { c.ta.resp.bufs with headers := r.ta.resp.bufs.headers }
        preserveBodyOnError := c.ta.resp.preserveBodyOnError } } }

namespace HeadFrame

variable {c r r' : Client}

theorem rfl' (c : Client) : HeadFrame c c := ⟨rfl⟩

theorem trans (h : HeadFrame c r) (h' : HeadFrame r r') : HeadFrame c r' := by
  constructor
  rw [h'.same, h.same]

theorem setStatus (h : HeadFrame c r) (status : HttpStatus) : HeadFrame c (r.setStatus status) := by
  constructor
  rw [h.same]
  rfl

end HeadFrame

theorem WithHeaders.headFrame {c r : Client} {b : Bytes} (h : WithHeaders c b r) : HeadFrame c r := by
  constructor
  rw [h.same]
  rfl

structure RangeInside (size : Nat) (c : Client) : Prop where
  low : 0 ≤ c.ta.resp.bodyPos
  high : c.ta.resp.bodyPos ≤ size + 1
  least : -1 ≤ c.ta.resp.bodyEnd
  inside : c.ta.resp.bodyEnd < size
  nonempty : 0 < size → 0 ≤ c.ta.resp.bodyEnd

theorem clampRange_inside {range r : ByteRange} {size : Nat} (h : clampRange range size = some r) :
    0 ≤ r.first ∧ r.first ≤ size + 1 ∧ -1 ≤ r.last ∧ r.last < size ∧ (0 < size → 0 ≤ r.last) := by
  simp only [clampRange] at h
  generalize clamped : (if range.last < 0 ∨ range.last > (size : Int) - 1 then (size : Int) - 1
    else range.last) = last at h
  have bounds : -1 ≤ last ∧ last < size ∧ (0 < size → 0 ≤ last) := by
    split at clamped <;> omega
  split at h
  · cases h
    simp only
    omega
  · split at h
    · cases h
    · cases h
      simp only
      omega

def RangeServable (c : Client) (size : Nat) : Prop :=
  ∀ range, (parseRange c).1 = some range → (clampRange range size).isSome

def Client.setRange (c : Client) (range : ByteRange) : Client :=
  { c with ta := { c.ta with resp := { c.ta.resp with
    bodyPos := range.first
    bodyEnd := range.last } } }

/-- The outcome of `parse_range_request` as a function of the two numbers. -/
theorem parseRangeRequest_eq (c : Client) (size : Int) :
    parseRangeRequest c size = match (parseRange c).1 with
      | none => { ok := false, client := c.setStatus .http400BadRequest }
      | some range =>
        match clampRange range size with
        | none => { ok := false, client := c.setStatus .http416RangeNotSatisfiable }
        | some r => { ok := true, client := c.setRange r } := by
  have keeps := parseRange_client c
  unfold parseRangeRequest
  generalize parseRange c = parsed at keeps
  obtain ⟨range, c'⟩ := parsed
  change c' = c at keeps
  subst keeps
  cases range with
  | none => rfl
  | some range =>
    simp only
    cases clampRange range size <;> rfl

theorem parseRangeRequest_cases (c : Client) (size : Nat) :
    ((parseRange c).1 = none ∧
      parseRangeRequest c size = { ok := false, client := c.setStatus .http400BadRequest }) ∨
    (∃ range, (parseRange c).1 = some range ∧ clampRange range size = none ∧
      parseRangeRequest c size =
        { ok := false, client := c.setStatus .http416RangeNotSatisfiable }) ∨
    (∃ range r, (parseRange c).1 = some range ∧ clampRange range size = some r ∧
      parseRangeRequest c size = { ok := true, client := c.setRange r }) := by
  rw [parseRangeRequest_eq]
  cases (parseRange c).1 with
  | none => exact .inl ⟨rfl, rfl⟩
  | some range =>
    simp only
    cases clamped : clampRange range size with
    | none => exact .inr (.inl ⟨range, rfl, clamped, rfl⟩)
    | some r => exact .inr (.inr ⟨range, r, rfl, clamped, rfl⟩)

structure RangeHandled (c : Client) (st : Stat) (r : Result) : Prop where
  frame : HeadFrame c r.client
  headers : HeadersOk r.client
  short : r.client.headerBlock.length ≤ c.headerBlock.length + 88
  servable : r.ok = true ↔ RangeServable c st.size
  failed : r.ok = false → r.client.ta.resp.status = .http416RangeNotSatisfiable
  range : r.ok = true → RangeInside st.size r.client

theorem headerAdd_room {c : Client} {key value : Bytes} {n : Nat} (ok : HeadersOk c)
    (line : (headerLine key value).length ≤ n) (room : c.headerBlock.length + n < httpBufsz) :
    ∃ r, headerAdd c key (some value) = { ok := true, client := r } ∧
      WithHeaders c (c.headerBlock ++ headerLine key value) r ∧
      r.headerBlock.length ≤ c.headerBlock.length + n := by
  obtain ⟨r, added, headers⟩ := @headerAdd_fits _ key value ok
    (by rw [List.length_append]; omega)
  refine ⟨r, added, headers, ?_⟩
  rw [headers.headerBlock, List.length_append]
  omega

theorem handleRange_spec {c : Client} {st : Stat} (ok : HeadersOk c)
    (room : c.headerBlock.length + 88 < httpBufsz) (pos : c.ta.resp.bodyPos = 0)
    (last : c.ta.resp.bodyEnd = (st.size : Int) - 1) :
    RangeHandled c st (handleRange c st) := by
  have whole : RangeInside st.size c := by
    constructor <;> omega
  have total := length_decimal_le (a := st.size) (by have := st.size_lt; omega)
  have key : (ascii "content-range").length = 13 := rfl
  simp only [handleRange]
  split
  · rename_i unasked
    have ignored : (parseRange c).1 = none := by
      rw [parseRange, if_pos unasked]
    refine ⟨.rfl' c, ok, Nat.le_add_right _ _, ?_, by simp, fun _ => whole⟩
    simp [RangeServable, ignored]
  · rcases parseRangeRequest_cases c st.size with
      ⟨range, e⟩ | ⟨range, parsed, clamped, e⟩ | ⟨range, r, parsed, clamped, e⟩
    · rw [e]
      simp only [Client.setStatus, Bool.false_eq_true, if_false, ne_eq, not_true_eq_false]
      refine ⟨⟨rfl⟩, ⟨ok.size, ok.inside⟩, Nat.le_add_right _ _, ?_, by simp,
        fun _ => ⟨whole.low, whole.high, whole.least, whole.inside, whole.nonempty⟩⟩
      simp [RangeServable, range]
    · obtain ⟨h, added, headers, short⟩ := @headerAdd_room
        (c.setStatus .http416RangeNotSatisfiable) (ascii "content-range")
        (ascii "*/" ++ decimal st.size) 88 ⟨ok.size, ok.inside⟩
        (by
          have star : (ascii "*/").length = 2 := rfl
          rw [length_headerLine, List.length_append]
          omega) room
      rw [e]
      have status : (c.setStatus .http416RangeNotSatisfiable).ta.resp.status =
        .http416RangeNotSatisfiable := rfl
      simp only [added, status, Bool.false_eq_true, if_false, if_true, ne_eq, reduceCtorEq,
        not_false_eq_true]
      have frame := ((HeadFrame.rfl' c).setStatus .http416RangeNotSatisfiable).trans headers.headFrame
      refine ⟨?_, ⟨headers.headersOk.size, headers.headersOk.inside⟩, short, ?_, ?_, by simp⟩
      · constructor
        rw [frame.same]
      · simp [RangeServable, parsed, clamped]
      · intro _
        rw [headers.same]
        rfl
    · have inside := clampRange_inside clamped
      have size := st.size_lt
      obtain ⟨h, added, headers, short⟩ := @headerAdd_room
        (c.setRange r) (ascii "content-range")
        (ascii "bytes " ++ decimal r.first ++ ascii "-" ++ decimal r.last ++ ascii "/" ++
          decimal st.size) 88 ⟨ok.size, ok.inside⟩
        (by
          have first := length_decimal_le (a := r.first) (by omega)
          have last := length_decimal_le (a := r.last) (by omega)
          have bytes : (ascii "bytes ").length = 6 := rfl
          have hyphen : (ascii "-").length = 1 := rfl
          have slash : (ascii "/").length = 1 := rfl
          simp only [length_headerLine, List.length_append]
          omega) room
      rw [e]
      have positions : (c.setRange r).ta.resp.bodyPos = r.first ∧
        (c.setRange r).ta.resp.bodyEnd = r.last := ⟨rfl, rfl⟩
      simp only [if_true, headerAddContentRange, positions.1, positions.2, added]
      have frame : HeadFrame (c.setRange r) h := headers.headFrame
      have resp : h.ta.resp.bodyPos = r.first ∧ h.ta.resp.bodyEnd = r.last := by
        rw [headers.same]
        exact ⟨rfl, rfl⟩
      refine ⟨?_, headers.headersOk, short, ?_, by simp, fun _ => ?_⟩
      · constructor
        rw [frame.same]
        rfl
      · simp [RangeServable, parsed, clamped]
      · constructor <;> simp only [resp.1, resp.2] <;> omega

theorem length_guessMimeType (extension : Option Bytes) : (guessMimeType extension).length ≤ 24 := by
  cases extension with
  | none => decide
  | some extension =>
    simp only [guessMimeType]
    split
    · rename_i m found
      have all : ∀ m ∈ guessMimeType.mimeTypes, m.2.length ≤ 24 := by decide
      exact all m (List.mem_of_find?_eq_some found)
    · decide

def DateShown (lib : TimeLib) (mtime : Int) : Prop :=
  ∃ date, lib.strftime mtime = some date ∧ date ≠ [] ∧ date.length < 32

theorem addFileHeaders_spec {lib : TimeLib} {c : Client} {fname : Bytes} {st : Stat}
    (ok : HeadersOk c) (room : c.headerBlock.length + 110 < httpBufsz) :
    ∃ more, WithHeaders c (c.headerBlock ++ more) (addFileHeaders lib c fname st).client ∧
      more.length ≤ 110 ∧
      ((addFileHeaders lib c fname st).ok = true ↔ DateShown lib st.mtime) := by
  obtain ⟨r₁, type, h₁, short₁⟩ := @headerAdd_room c (ascii "content-type")
    (guessMimeType (extension fname)) 40 ok
    (by
      have key : (ascii "content-type").length = 12 := rfl
      have value := length_guessMimeType (extension fname)
      rw [length_headerLine]
      omega) (by omega)
  obtain ⟨r₂, ranges, h₂, short₂⟩ := @headerAdd_room r₁ (ascii "accept-ranges") (ascii "bytes") 22
    h₁.headersOk (by decide) (by omega)
  have both := h₁.trans h₂
  rw [h₁.headerBlock, List.append_assoc] at both
  have total₂ := congrArg List.length both.headerBlock
  rw [List.length_append] at total₂
  simp only [addFileHeaders, headerAddContentTypeGuess, type, ranges, not_true_eq_false, if_false,
    headerAddLastModified]
  cases shown : lib.strftime st.mtime with
  | none => exact ⟨_, both, by omega, by simp [DateShown, shown]⟩
  | some date =>
    simp only
    split
    · rename_i unusable
      refine ⟨_, both, by omega, ?_⟩
      simp only [DateShown, shown, Option.some.injEq, exists_eq_left', Bool.false_eq_true, false_iff]
      rintro ⟨nonempty, fits⟩
      rcases unusable with empty | long
      · exact nonempty empty
      · omega
    · rename_i usable
      obtain ⟨r₃, modified, h₃, short₃⟩ := @headerAdd_room r₂ (ascii "last-modified") date 48
        h₂.headersOk
        (by
          have key : (ascii "last-modified").length = 13 := rfl
          rw [length_headerLine]
          omega) (by omega)
      have all := both.trans h₃
      rw [both.headerBlock, List.append_assoc] at all
      have total₃ := congrArg List.length all.headerBlock
      rw [List.length_append] at total₃
      rw [modified]
      refine ⟨_, all, by omega, ?_⟩
      simp only [DateShown, shown, Option.some.injEq, exists_eq_left', true_iff]
      exact ⟨fun empty => usable (.inl empty), by omega⟩

def Client.wholeFile (c : Client) (st : Stat) : Client :=
  { c with ta := { c.ta with resp := { c.ta.resp with bodyEnd := (st.size : Int) - 1 } } }

inductive FileEnd where
  | error (c : Client)
  | unmodified (c : Client)
  | full (c : Client)

def fileEnd (lib : TimeLib) (c : Client) (fname : Bytes) (st : Stat) : FileEnd :=
  let r := handleRange c st
  if ¬ r.ok then .error r.client
  else
    let r := addFileHeaders lib r.client fname st
    if ¬ r.ok then .error (r.client.setStatus .http500InternalError)
    else match r.client.ta.req.modifiedSince with
      | none => .full r.client
      | some since =>
        match lib.strptime (cString r.client.reqHeaders since) with
        | none => .error (r.client.setStatus .http400BadRequest)
        | some time => if st.mtime - time ≤ 0 then .unmodified r.client else .full r.client

theorem describeFile_eq (lib : TimeLib) (c : Client) (k : Kernel) (errno : Errno) (fname : Bytes)
    (st : Stat) : describeFile lib c k errno fname st =
      match fileEnd lib (c.wholeFile st) fname st with
      | .error r => errClosefd r k errno
      | .unmodified r => notModified r k errno
      | .full r => serveFile r k errno := by
  rcases e : handleRange (c.wholeFile st) st with ⟨ok, r⟩
  have e' : handleRange { c with ta := { c.ta with resp := { c.ta.resp with
    bodyEnd := (st.size : Int) - 1 } } } st = ⟨ok, r⟩ := e
  simp only [describeFile, fileEnd, e, e']
  split
  · rfl
  · split
    · rfl
    · generalize (addFileHeaders lib r fname st).client = r'
      generalize r'.ta.req.modifiedSince = asked
      cases asked with
      | none => rfl
      | some since =>
        dsimp only
        generalize lib.strptime (cString r'.reqHeaders since) = readable
        cases readable with
        | none => rfl
        | some time =>
          dsimp only
          have decided := Int.decLe (st.mtime - time) 0
          cases decided with
          | isTrue unmodified => rw [if_pos unmodified, if_pos unmodified]
          | isFalse modified => rw [if_neg modified, if_neg modified]

/-- What the request and the file have to be like for the file to be served at all. -/
structure Servable (lib : TimeLib) (c : Client) (st : Stat) : Prop where
  range : RangeServable c st.size
  date : DateShown lib st.mtime
  since : ∀ p, c.ta.req.modifiedSince = some p →
    (lib.strptime (cString c.reqHeaders p)).isSome

def Unmodified (lib : TimeLib) (c : Client) (st : Stat) : Prop :=
  ∃ p time, c.ta.req.modifiedSince = some p ∧
    lib.strptime (cString c.reqHeaders p) = some time ∧ st.mtime - time ≤ 0

structure FileKnown (c r : Client) : Prop where
  frame : HeadFrame c r
  headers : HeadersOk r
  short : r.headerBlock.length ≤ c.headerBlock.length + 198

theorem FileKnown.setFd {c r : Client} (h : FileKnown c r) (fd : Int) :
    FileKnown (c.setFd fd) (r.setFd fd) := by
  refine ⟨⟨?_⟩, ⟨h.headers.size, h.headers.inside⟩, h.short⟩
  rw [h.frame.same]
  rfl

theorem FileKnown.setStatus {c r : Client} (h : FileKnown c r) (status : HttpStatus) :
    FileKnown c (r.setStatus status) :=
  ⟨h.frame.setStatus status, ⟨h.headers.size, h.headers.inside⟩, h.short⟩

theorem FileKnown.fd {c r : Client} (h : FileKnown c r) : r.ta.resp.fd = c.ta.resp.fd := by
  rw [h.frame.same]

def FileError (status : HttpStatus) : Prop :=
  status = .http400BadRequest ∨ status = .http416RangeNotSatisfiable ∨
    status = .http500InternalError

def FileEnd.Spec (lib : TimeLib) (c : Client) (st : Stat) : FileEnd → Prop
  | error r => FileKnown c r ∧ FileError r.ta.resp.status ∧ ¬ Servable lib c st
  | unmodified r =>
    FileKnown c r ∧ RangeInside st.size r ∧ Servable lib c st ∧ Unmodified lib c st
  | full r => FileKnown c r ∧ RangeInside st.size r ∧ Servable lib c st ∧ ¬ Unmodified lib c st

theorem parseRange_range (c : Client) :
    (parseRange c).1 = if c.ta.req.rangeRequested then
      c.ta.req.range.bind fun p => (parseRangeAt c.reqHeaders p).range else none := by
  unfold parseRange
  cases c.ta.req.rangeRequested with
  | false => rfl
  | true =>
    cases c.ta.req.range with
    | none => rfl
    | some p => rfl

theorem fileEnd_spec {lib : TimeLib} {c : Client} {fname : Bytes} {st : Stat} (ok : HeadersOk c)
    (room : c.headerBlock.length + 198 < httpBufsz) (pos : c.ta.resp.bodyPos = 0) :
    (fileEnd lib (c.wholeFile st) fname st).Spec lib c st := by
  have start : HeadFrame c (c.wholeFile st) := ⟨rfl⟩
  have block : (c.wholeFile st).headerBlock = c.headerBlock := rfl
  have servable : RangeServable (c.wholeFile st) st.size ↔ RangeServable c st.size := by
    simp only [RangeServable, parseRange_range, Client.wholeFile]
  have ranged := @handleRange_spec (c.wholeFile st) st ⟨ok.size, ok.inside⟩
    (by rw [block]; omega) pos rfl
  simp only [fileEnd]
  generalize handleRange (c.wholeFile st) st = r₁ at ranged
  have frame₁ := start.trans ranged.frame
  have short₁ := ranged.short
  rw [block] at short₁
  split
  · rename_i rangeFails
    have rangeFails : r₁.ok = false := by simpa using rangeFails
    refine ⟨⟨frame₁, ranged.headers, by omega⟩, .inr (.inl (ranged.failed rangeFails)), ?_⟩
    intro all
    have := ranged.servable.mpr (servable.mpr all.range)
    rw [rangeFails] at this
    cases this
  · rename_i rangeOk
    have rangeOk : r₁.ok = true := by simpa using rangeOk
    have range := servable.mp (ranged.servable.mp rangeOk)
    obtain ⟨b, headers, short₂, date⟩ := @addFileHeaders_spec lib r₁.client fname st ranged.headers
      (by omega)
    generalize addFileHeaders lib r₁.client fname st = r₂ at headers date
    have known : FileKnown c r₂.client := by
      refine ⟨frame₁.trans headers.headFrame, headers.headersOk, ?_⟩
      rw [headers.headerBlock, List.length_append]
      omega
    split
    · rename_i headersFail
      refine ⟨⟨known.frame.setStatus _, ⟨known.headers.size, known.headers.inside⟩, known.short⟩,
        .inr (.inr rfl), ?_⟩
      intro all
      exact headersFail (date.mpr all.date)
    · rename_i headersOk
      have date := date.mp (by simpa using headersOk)
      have inside : RangeInside st.size r₂.client := by
        have inside := ranged.range rangeOk
        rw [headers.same]
        exact ⟨inside.low, inside.high, inside.least, inside.inside, inside.nonempty⟩
      have asked : r₂.client.ta.req.modifiedSince = c.ta.req.modifiedSince := by
        rw [known.frame.same]
      have buffer : r₂.client.reqHeaders = c.reqHeaders := by rw [known.frame.same]
      rw [asked, buffer]
      split
      · rename_i unasked
        refine ⟨known, inside, ⟨range, date, by simp [unasked]⟩, ?_⟩
        rintro ⟨p, -, since, -⟩
        rw [unasked] at since
        cases since
      · rename_i since asked
        split
        · rename_i unreadable
          refine ⟨⟨known.frame.setStatus _, ⟨known.headers.size, known.headers.inside⟩, known.short⟩,
            .inl rfl, ?_⟩
          intro all
          have := all.since since asked
          rw [unreadable] at this
          cases this
        · rename_i time readable
          have servable : Servable lib c st := by
            refine ⟨range, date, fun p hp => ?_⟩
            rw [asked] at hp
            cases hp
            rw [readable]
            rfl
          split
          · rename_i old
            exact ⟨known, inside, servable, since, time, asked, readable, old⟩
          · rename_i newer
            refine ⟨known, inside, servable, ?_⟩
            rintro ⟨p, t, hp, ht, old⟩
            rw [asked] at hp
            cases hp
            rw [readable] at ht
            cases ht
            exact newer old

structure Searched (k k' : Kernel) : Prop where
  same : k' = { k with clock := k'.clock }

theorem Searched.trans {k k' k'' : Kernel} (h : Searched k k') (h' : Searched k' k'') :
    Searched k k'' := by
  constructor
  rw [h'.same, h.same]

theorem stat_searched (k : Kernel) (path : Bytes) : Searched k (k.stat path).2 := ⟨rfl⟩

def PathError (status : HttpStatus) : Prop :=
  status = .http403PermissionDenied ∨ status = .http404NotFound ∨ status = .http414UriTooLong

theorem verifyStaticPath_spec (c : Client) (k : Kernel) (errno : Errno) (path : Bytes) :
    Searched k (verifyStaticPath c k errno path).kernel ∧
      ((verifyStaticPath c k errno path).client = c ∨
        (verifyStaticPath c k errno path).stat = none ∧ ∃ status, PathError status ∧
          (verifyStaticPath c k errno path).client = c.setStatus status) := by
  simp only [verifyStaticPath]
  split
  · exact ⟨⟨rfl⟩, .inr ⟨rfl, _, .inr (.inr rfl), rfl⟩⟩
  · have searched := stat_searched k path
    rcases e : k.stat path with ⟨result, k'⟩
    rw [e] at searched
    cases result with
    | ok st =>
      simp only
      split
      · exact ⟨searched, .inl rfl⟩
      · refine ⟨searched, ?_⟩
        simp only
        split
        · exact .inr ⟨trivial, _, .inl rfl, rfl⟩
        · exact .inl rfl
    | error e =>
      simp only
      refine ⟨searched, ?_⟩
      split
      · exact .inr ⟨trivial, _, .inl rfl, rfl⟩
      · exact .inl rfl

def PathChoice.Spec (c : Client) (k : Kernel) : PathChoice → Prop
  | stop c' k' _ => Searched k k' ∧ ∃ status, c' = c.setStatus status ∧
      (c.ta.resp.status = .xRespStatusUnset → PathError status)
  | pathSet _ _ c' k' _ => Searched k k' ∧ c' = c

theorem tryPaths_spec (c : Client) (k : Kernel) (errno : Errno) (paths : List Bytes) :
    (tryPaths c k errno paths).Spec c k := by
  induction paths generalizing k errno with
  | nil => exact ⟨⟨rfl⟩, _, rfl, fun _ => .inr (.inl rfl)⟩
  | cons path rest ih =>
    obtain ⟨searched, client⟩ := verifyStaticPath_spec c k errno path
    simp only [tryPaths]
    generalize verifyStaticPath c k errno path = v at searched client
    obtain ⟨stat, c', k', errno'⟩ := v
    simp only at searched client
    cases stat with
    | some st =>
      rcases client with same | ⟨none, -⟩
      · exact ⟨searched, same⟩
      · cases none
    | none =>
      simp only
      split
      · rename_i set
        refine ⟨searched, ?_⟩
        rcases client with rfl | ⟨-, status, error, rfl⟩
        · exact ⟨c'.ta.resp.status, rfl, fun unset => absurd unset set⟩
        · exact ⟨status, rfl, fun _ => error⟩
      · rename_i unset
        rcases client with rfl | ⟨-, status, error, rfl⟩
        · have later := ih k' errno'
          revert later
          cases tryPaths c' k' errno' rest with
          | stop c'' k'' _ => exact fun ⟨next, spec⟩ => ⟨searched.trans next, spec⟩
          | pathSet fname st c'' k'' _ => exact fun ⟨next, spec⟩ => ⟨searched.trans next, spec⟩
        · refine absurd ?_ unset
          rcases error with rfl | rfl | rfl <;> exact HttpStatus.noConfusion

def pathChoice (s : Server) (c : Client) (k : Kernel) (path : Bytes) (ctx : Option RequestContext) :
    PathChoice :=
  tryPaths c k.staleErrno.2 k.staleErrno.1 (candidates (ctx.getD s.defaultContext)
    ((c.ta.req.path.map (cString c.reqHeaders)).getD []) path)

theorem pathChoice_spec (s : Server) (c : Client) (k : Kernel) (path : Bytes)
    (ctx : Option RequestContext) : (pathChoice s c k path ctx).Spec c k.staleErrno.2 := by
  apply tryPaths_spec

theorem handleStaticPath_chosen (s : Server) {c : Client} (k : Kernel) (path : Bytes)
    (ctx : Option RequestContext) (allowed : c.ta.req.method = .get ∨ c.ta.req.method = .head) :
    handleStaticPath s c k path ctx = match pathChoice s c k path ctx with
      | .stop c k errno => { ok := false, client := c, kernel := k, errno := errno }
      | .pathSet fname st c k errno => pathSet s.time c k errno fname st := by
  have bits : ¬ c.ta.req.method.bits &&& HttpMethod.get.bits = 0 := by
    rcases allowed with get | head
    · rw [get]
      decide
    · rw [head]
      decide
  simp only [handleStaticPath, if_neg bits]
  rfl

def staticChoice (s : Server) (c : Client) (k : Kernel) : PathChoice :=
  let path := (c.ta.req.path.map (cString c.reqHeaders)).getD []
  tryPaths c k.staleErrno.2 k.staleErrno.1 (candidates s.defaultContext path path)

/-- A client whose head has been accepted, before anything is decided about the response. -/
structure Accepted (c : Client) : Prop where
  resp : c.ta.resp = {}
  headersSize : c.respHeaders.length = httpBufsz
  bodyEmpty : c.respBody.len = 0
  bufferSize : c.reqHeaders.length = httpBufsz

theorem Accepted.headersOk {c : Client} (a : Accepted c) : HeadersOk c :=
  ⟨a.headersSize, by rw [a.resp]; decide⟩

theorem Accepted.headerBlock {c : Client} (a : Accepted c) : c.headerBlock = [] := by
  rw [Client.headerBlock, a.resp]
  exact List.take_zero

/-- The file is described the way its end says. -/
theorem pathSet_eq (lib : TimeLib) (c : Client) (k : Kernel) (errno : Errno) (fname : Bytes)
    (st : Stat) : pathSet lib c k errno fname st =
      if c.ta.req.method = .get then
        match k.openRdonly fname with
        | (.error e, k) =>
          { ok := false
            client := c.setStatus .http500InternalError
            kernel := k
            errno := e }
        | (.ok fd, k) => describeFile lib (c.setFd fd.val) k errno fname st
      else describeFile lib (c.setFd fdHead) k errno fname st := rfl

end Kitserv
