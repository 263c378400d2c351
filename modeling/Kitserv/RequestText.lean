import Mathlib
import Kitserv.RecvChunks
import Kitserv.UrlEncoding

namespace Kitserv

open Memory

structure HeaderText where
  name : Bytes
  value : Bytes

/-- A request head with its path and query as they are sent. -/
structure RequestText where
  method : HttpMethod
  path : Bytes
  query : Option Bytes
  version : HttpVersion
  headers : List HeaderText

def methodText : HttpMethod → Bytes
  | .unset => []
  | .get => ascii "GET"
  | .put => ascii "PUT"
  | .head => ascii "HEAD"
  | .post => ascii "POST"
  | .delete => ascii "DELETE"

def versionText : HttpVersion → Bytes
  | .http11 => ascii "1.1"
  | .http10 => ascii "1.0"

def HeaderText.line (h : HeaderText) : Bytes := h.name ++ 58 :: h.value ++ [13, 10]

def HeaderText.lines (hs : List HeaderText) : Bytes := hs.flatMap HeaderText.line ++ [13, 10]

namespace RequestText

def target (t : RequestText) : Bytes := t.path ++ (t.query.elim [] fun query => 63 :: query)

def bytes (t : RequestText) : Bytes :=
  methodText t.method ++ 32 :: (t.target ++ 32 :: (ascii "HTTP/" ++ versionText t.version ++
    13 :: 10 :: HeaderText.lines t.headers))

end RequestText

section Cursor

variable {pre text rest : Bytes} {stop : Byte}

theorem scanTo_text (absent : stop ∉ text) :
    scanTo (· == stop) (pre ++ (text ++ stop :: rest)) (pre ++ (text ++ stop :: rest)).length
      pre.length = pre.length + text.length := by
  have behind : slice (pre ++ (text ++ stop :: rest)) pre.length
      (pre ++ (text ++ stop :: rest)).length = text ++ stop :: rest := by
    rw [slice, List.drop_left, List.take_of_length_le]
    simp only [List.length_append]
    omega
  have found : (text ++ stop :: rest).findIdx (· == stop) = text.length := by
    rw [List.findIdx_append, if_neg]
    · simp [List.findIdx_cons]
    · intro inside
      obtain ⟨b, member, same⟩ := List.findIdx_lt_length.mp inside
      exact absent ((beq_iff_eq.mp same) ▸ member)
  rw [scanTo, behind, found]

theorem parse_goto {len : Nat} {state state' : ParseState} {mem mem' : Bytes} {req req' : Request}
    {p r p' r' : Nat} (step : parseStep len state mem req p r = .goto state' mem' req' p' r') :
    parse len state mem req p r = parse len state' mem' req' p' r' := by
  rw [parse_eq, step]

end Cursor

theorem methodAt_text {m : HttpMethod} (known : m ≠ .unset) (rest : Bytes) :
    methodAt (methodText m ++ 32 :: rest) 0 (methodText m).length = some m := by
  cases m with
  | unset => exact absurd rfl known
  | get | put | head | post | delete => rfl

theorem reqMethod_text {m : HttpMethod} (known : m ≠ .unset) (req : Request) (rest : Bytes) :
    reqMethod (methodText m ++ 32 :: rest) (methodText m ++ 32 :: rest).length req 0 0 =
      .goto .reqPath (methodText m ++ 32 :: rest) { req with method := m }
        ((methodText m).length + 1) ((methodText m).length + 1) := by
  have absent : (32 : Byte) ∉ methodText m := by cases m <;> decide
  have stop := @scanTo_text [] _ rest _ absent
  simp only [List.nil_append, List.length_nil, Nat.zero_add] at stop
  simp only [reqMethod, stop, methodAt_text known]
  rw [if_neg]
  simp only [List.length_append, List.length_cons]
  omega

theorem reqVersion_text (v : HttpVersion) (req : Request) (pre rest : Bytes) :
    reqVersion (pre ++ (ascii "HTTP/" ++ versionText v ++ 13 :: rest))
        (pre ++ (ascii "HTTP/" ++ versionText v ++ 13 :: rest)).length req pre.length pre.length =
      .goto .reqVersionLf (pre ++ (ascii "HTTP/" ++ versionText v ++ 13 :: rest))
        { req with version := v } (pre.length + 9) (pre.length + 9) := by
  have absent : (13 : Byte) ∉ ascii "HTTP/" ++ versionText v := by cases v <;> decide
  have eight : (ascii "HTTP/" ++ versionText v).length = 8 := by cases v <;> rfl
  have stop := @scanTo_text pre _ rest _ absent
  have window (i j : Nat) : slice (pre ++ (ascii "HTTP/" ++ versionText v ++ 13 :: rest))
      (pre.length + i) (pre.length + i + j) =
      ((ascii "HTTP/" ++ versionText v ++ 13 :: rest).drop i).take j := by
    rw [slice, ← List.drop_drop, List.drop_left]
    congr 1
    omega
  have compare (i : Nat) (target : String) : bufscmp
      (pre ++ (ascii "HTTP/" ++ versionText v ++ 13 :: rest)) (pre.length + i) target =
      (((ascii "HTTP/" ++ versionText v ++ 13 :: rest).drop i).take (ascii target).length ==
        ascii target) := by
    rw [bufscmp, window]
  have inside : ¬ (pre ++ (ascii "HTTP/" ++ versionText v ++ 13 :: rest)).length ≤
      pre.length + 8 := by
    simp only [List.length_append, List.length_cons] at eight ⊢
    omega
  have http : bufscmp (pre ++ (ascii "HTTP/" ++ versionText v ++ 13 :: rest)) pre.length
      "HTTP/" = true := (compare 0 "HTTP/").trans rfl
  have number : pre.length + 8 - (pre.length + 5) = 3 := by omega
  rw [eight] at stop
  simp only [reqVersion, stop, http, if_neg inside, number, compare 5]
  rw [if_neg (by simp)]
  cases v <;> rfl

theorem lineFeed_text (req : Request) (pre rest : Bytes) :
    reqVersionLf (pre ++ 10 :: rest) (pre ++ 10 :: rest).length req pre.length pre.length =
      .goto .reqHead (pre ++ 10 :: rest) req (pre.length + 1) (pre.length + 1) := by
  have inside : ¬ (pre ++ 10 :: rest).length ≤ pre.length := by
    simp only [List.length_append, List.length_cons]
    omega
  have here : (pre ++ 10 :: rest)[pre.length]? = some 10 := by simp
  simp only [reqVersionLf, if_neg inside, here, ne_eq, not_true_eq_false, if_false]

theorem cString_text (pre text rest : Bytes) :
    cString (pre ++ (text ++ 0 :: rest)) pre.length = text.takeWhile fun b => b ≠ 0 := by
  rw [cString, cstr, List.drop_left, List.takeWhile_append]
  split
  · rename_i whole
    have all := (List.takeWhile_prefix fun b : Byte => decide (b ≠ 0)).eq_of_length whole
    rw [all]
    simp
  · rfl

def decodedText (e : Bytes) : Bytes := (percentDecode e).takeWhile fun b => b ≠ 0

theorem decodedText_of_plain {e : Bytes} (percent : 37 ∉ e) (plain : 0 ∉ e) : decodedText e = e := by
  rw [decodedText, percentDecode_of_plain percent, takeWhile_plain plain]

/-- The bytes `done` of the buffer are parsed: the strings lie in them, and they read as `info`. -/
structure Parsed (done : Bytes) (req : Request) (info : HeadInfo) : Prop where
  strings : HeadStrings (fun _ => True) done req done.length
  info : HeadInfo.ofRequest done req = info

theorem Parsed.extend {done : Bytes} {req : Request} {info : HeadInfo} (h : Parsed done req info)
    (more : Bytes) : Parsed (done ++ more) req info := by
  refine ⟨h.strings.frame (by simp) (by simp), ?_⟩
  rw [ofRequest_append more h.strings (Nat.le_refl _)]
  exact h.info

theorem Parsed.setVersion {done : Bytes} {req : Request} {info : HeadInfo} (h : Parsed done req info)
    (v : HttpVersion) : Parsed done { req with version := v } { info with version := v } := by
  refine ⟨h.strings.of_strings (fun _ member => member) rfl, ?_⟩
  rw [← h.info]
  rfl

section Path

variable {pre path query rest : Bytes}

theorem findIdx_mark (noMark : 63 ∉ path) : (path ++ 63 :: query).findIdx (· == 63) = path.length := by
  rw [List.findIdx_append, if_neg]
  · simp [List.findIdx_cons]
  · intro inside
    obtain ⟨b, member, same⟩ := List.findIdx_lt_length.mp inside
    exact noMark ((beq_iff_eq.mp same) ▸ member)

theorem set_text (pre text rest : Bytes) (a b : Byte) :
    (pre ++ (text ++ a :: rest)).set (pre.length + text.length) b = pre ++ (text ++ b :: rest) := by
  rw [List.set_append_right _ _ (Nat.le_add_right _ _), Nat.add_sub_cancel_left,
    List.set_append_right _ _ (Nat.le_refl _), Nat.sub_self]
  rfl

theorem slice_text (pre text rest : Bytes) :
    slice (pre ++ (text ++ rest)) pre.length (pre.length + text.length) = text := by
  rw [slice, List.drop_left, Nat.add_sub_cancel_left, List.take_left]

/-- What `storePath_spec` says of a target whose text in front of the '?' is `path`. -/
theorem storePath_path {target : Bytes} (part : pathPart target = path) (plain : 0 ∉ path)
    (req : Request) :
    (storePath (pre ++ (target ++ [32])) req pre.length (pre.length + target.length)).1.length =
        pre.length + target.length + 1 ∧
      (storePath (pre ++ (target ++ [32])) req pre.length (pre.length + target.length)).1.take
        pre.length = pre ∧
      TerminatedBelow (0 : Byte)
        (storePath (pre ++ (target ++ [32])) req pre.length (pre.length + target.length)).1
        pre.length (pre.length + target.length + 1) ∧
      cString (storePath (pre ++ (target ++ [32])) req pre.length (pre.length + target.length)).1
        pre.length = decodedText path := by
  have low : pre.length ≤ pre.length + target.length := Nat.le_add_right _ _
  have size : (pre ++ (target ++ [32])).length = pre.length + target.length + 1 := by
    simp only [List.length_append, List.length_singleton]
    omega
  obtain ⟨frame, ends, text, -⟩ := @storePath_spec _ req _ _ low
    (show pre.length + target.length < (pre ++ (target ++ [32])).length by omega)
  obtain ⟨length, -⟩ := storePath_append req [] low
    (show pre.length + target.length < (pre ++ (target ++ [32])).length by omega)
  rw [slice_text, part, takeWhile_plain plain] at text
  exact ⟨length.trans size, frame.trans List.take_left, ends, text⟩

theorem storePath_plain (noMark : 63 ∉ path) (req : Request) :
    (storePath (pre ++ (path ++ [32])) req pre.length (pre.length + path.length)).2 =
      { req with path := some pre.length } := by
  have whole : path.findIdx (· == 63) = path.length := by
    apply List.findIdx_eq_length.mpr
    intro b member
    exact beq_eq_false_iff_ne.mpr fun same => noMark (same ▸ member)
  simp only [storePath, slice_text, whole, Nat.lt_irrefl, if_false]

theorem storePath_query (noMark : 63 ∉ path) (plain : 0 ∉ query) (req : Request) :
    (storePath (pre ++ (path ++ 63 :: query ++ [32])) req pre.length
          (pre.length + (path ++ 63 :: query).length)).2 =
        { req with path := some pre.length, query := some (pre.length + path.length + 1) } ∧
      TerminatedBelow (0 : Byte) (storePath (pre ++ (path ++ 63 :: query ++ [32])) req pre.length
          (pre.length + (path ++ 63 :: query).length)).1 (pre.length + path.length + 1)
        (pre.length + (path ++ 63 :: query).length + 1) ∧
      cString (storePath (pre ++ (path ++ 63 :: query ++ [32])) req pre.length
          (pre.length + (path ++ 63 :: query).length)).1 (pre.length + path.length + 1) =
        decodedText query := by
  have size : (path ++ 63 :: query).length = path.length + (query.length + 1) := by simp
  have before : pre.length + path.length < pre.length + (path ++ 63 :: query).length := by omega
  have marked : ((pre ++ (path ++ 63 :: query ++ [32])).set
      (pre.length + (path ++ 63 :: query).length) 0).set (pre.length + path.length) 0 =
      (pre ++ (path ++ [0])) ++ (query ++ 0 :: []) := by
    rw [set_text, List.append_assoc, List.cons_append, set_text]
    simp only [List.append_assoc, List.singleton_append]
  have front : (pre ++ (path ++ [0])).length = pre.length + path.length + 1 := by
    simp only [List.length_append, List.length_singleton]
    omega
  have text := cString_text (pre ++ (path ++ [0])) query []
  have length : ((pre ++ (path ++ [0])) ++ (query ++ 0 :: [])).length =
      pre.length + (path ++ 63 :: query).length + 1 := by
    rw [List.length_append, front, size]
    simp only [List.length_append, List.length_singleton]
    omega
  have last : ((pre ++ (path ++ [0])) ++ (query ++ 0 :: []))[pre.length +
      (path ++ 63 :: query).length]? = some 0 := by
    rw [← marked, List.getElem?_set_ne (by omega), List.getElem?_set_self]
    simp only [List.length_append, List.length_singleton]
    omega
  have mark : ((pre ++ (path ++ [0])) ++ (query ++ 0 :: []))[pre.length + path.length]? =
      some 0 := by
    rw [← marked, List.getElem?_set_self]
    simp only [List.length_set, List.length_append, List.length_singleton]
    omega
  simp only [storePath, slice_text, findIdx_mark noMark, if_pos before, marked]
  rw [front, takeWhile_plain plain] at text
  generalize (pre ++ (path ++ [0])) ++ (query ++ 0 :: []) = m₁ at text length last mark
  have ends₁ : TerminatedBelow (0 : Byte) m₁ (pre.length + path.length + 1) m₁.length :=
    ⟨_, by omega, by omega, last⟩
  have ends₂ := terminated_urlDecode ends₁ (Nat.le_refl _)
  have path₂ : TerminatedBelow (0 : Byte) (urlDecode m₁ (pre.length + path.length + 1)) pre.length
      (pre.length + path.length + 1) := by
    refine ⟨pre.length + path.length, by omega, by omega, ?_⟩
    rw [getElem?_urlDecode_of_lt ends₁ (Nat.lt_succ_self _), mark]
  have room : pre.length + path.length + 1 ≤
      (urlDecode m₁ (pre.length + path.length + 1)).length := by
    rw [length_urlDecode]
    omega
  have behind : (urlDecode (urlDecode m₁ (pre.length + path.length + 1)) pre.length).drop
      (pre.length + path.length + 1) =
      (urlDecode m₁ (pre.length + path.length + 1)).drop (pre.length + path.length + 1) :=
    drop_congr fun i above => getElem?_urlDecode_of_ge path₂ room above
  refine ⟨trivial, ?_, ?_⟩
  · obtain ⟨j, above, inside, zero⟩ := ends₂
    refine ⟨j, above, by omega, ?_⟩
    rw [getElem?_urlDecode_of_ge path₂ room above, zero]
  · rw [cString, cstr, behind, ← cstr, ← cString, cString_urlDecode ends₁, text, decodedText]

def RequestText.lineInfo (t : RequestText) : HeadInfo where
  method := t.method
  version := .http11
  path := some (decodedText t.path)
  query := t.query.map decodedText
  cookies := none
  range := none
  modifiedSince := none
  contentLen := 0
  mimetype := none
  disposition := none

theorem pathPart_target {t : RequestText} (noMark : 63 ∉ t.path) : pathPart t.target = t.path := by
  have kept : ∀ b ∈ t.path, (b != 63) = true := by
    intro b member
    exact bne_iff_ne.mpr fun same => noMark (same ▸ member)
  simp only [RequestText.target, pathPart]
  cases t.query with
  | none => simpa using kept
  | some query =>
    rw [List.takeWhile_append_of_pos kept]
    simp

theorem storePath_parsed {t : RequestText} (plain : 0 ∉ t.target) (noMark : 63 ∉ t.path)
    (pre : Bytes) :
    Parsed (storePath (pre ++ (t.target ++ [32])) { method := t.method } pre.length
        (pre.length + t.target.length)).1
      (storePath (pre ++ (t.target ++ [32])) { method := t.method } pre.length
        (pre.length + t.target.length)).2 t.lineInfo := by
  obtain ⟨m, path, query, version, headers⟩ := t
  have plainPath : 0 ∉ path := fun member => plain (List.mem_append_left _ member)
  obtain ⟨length, -, ends, text⟩ :=
    @storePath_path pre _ _ (pathPart_target noMark) plainPath { method := m }
  cases query with
  | none =>
    have whole : RequestText.target ⟨m, path, none, version, headers⟩ = path := List.append_nil path
    simp only [whole] at length ends text ⊢
    have fields := @storePath_plain pre _ noMark { method := m }
    generalize storePath (pre ++ (path ++ [32])) { method := m } pre.length
      (pre.length + path.length) = out at length ends text fields
    obtain ⟨mem, req⟩ := out
    simp only at length ends text fields ⊢
    subst fields
    refine ⟨⟨?_, _, rfl, trivial⟩, ?_⟩
    · intro q member
      simp [Request.strings] at member
      rw [member, length]
      exact ends
    · simp [HeadInfo.ofRequest, RequestText.lineInfo, text]
  | some query =>
    have plainQuery : 0 ∉ query := fun member =>
      plain (List.mem_append_right _ (List.mem_cons_of_mem _ member))
    obtain ⟨fields, ends', text'⟩ := @storePath_query pre _ _ noMark plainQuery { method := m }
    have whole : RequestText.target ⟨m, path, some query, version, headers⟩ =
      path ++ 63 :: query := rfl
    simp only [whole] at length ends text ⊢
    generalize storePath (pre ++ (path ++ 63 :: query ++ [32])) { method := m } pre.length
      (pre.length + (path ++ 63 :: query).length) = out at length ends text fields ends' text'
    obtain ⟨mem, req⟩ := out
    simp only at length ends text fields ends' text' ⊢
    subst fields
    refine ⟨⟨?_, _, rfl, trivial⟩, ?_⟩
    · intro q member
      simp [Request.strings] at member
      rw [length]
      rcases member with rfl | rfl
      · exact ends
      · exact ends'
    · simp [HeadInfo.ofRequest, RequestText.lineInfo, text, text']

theorem reqPath_text {t : RequestText} (printable : ∀ b ∈ t.target, isprint b = true ∧ b ≠ 32)
    (noMark : 63 ∉ t.path) (clean : attemptedPathTraversal (decodedText t.path) = false)
    (pre rest : Bytes) :
    ∃ done req, done.length = pre.length + t.target.length + 1 ∧
      reqPath (pre ++ (t.target ++ 32 :: rest)) (pre ++ (t.target ++ 32 :: rest)).length
          { method := t.method } pre.length pre.length =
        .goto .reqVersion (done ++ rest) req done.length done.length ∧
      Parsed done req t.lineInfo := by
  have absent : 32 ∉ t.target := fun member => (printable 32 member).2 rfl
  have plain : 0 ∉ t.target := fun member => absurd (printable 0 member).1 (by decide)
  have plainPath : 0 ∉ t.path := fun member => plain (List.mem_append_left _ member)
  have stop := @scanTo_text pre _ rest _ absent
  have parsed := storePath_parsed plain noMark pre
  have size : (pre ++ (t.target ++ [32])).length = pre.length + t.target.length + 1 := by
    simp only [List.length_append, List.length_singleton]
    omega
  obtain ⟨length, ends, whole⟩ := storePath_append { method := t.method } rest
    (Nat.le_add_right pre.length t.target.length)
    (show pre.length + t.target.length < (pre ++ (t.target ++ [32])).length by omega)
  have split : pre ++ (t.target ++ [32]) ++ rest = pre ++ (t.target ++ 32 :: rest) := by simp
  have text : cString (storePath (pre ++ (t.target ++ [32])) { method := t.method } pre.length
      (pre.length + t.target.length)).1 pre.length = decodedText t.path :=
    (storePath_path (pathPart_target noMark) plainPath { method := t.method }).2.2.2
  rw [split] at whole
  generalize storePath (pre ++ (t.target ++ [32])) { method := t.method } pre.length
    (pre.length + t.target.length) = out at parsed length ends whole text
  refine ⟨out.1, out.2, length.trans size, ?_, parsed⟩
  have inside : ¬ (pre ++ (t.target ++ 32 :: rest)).length ≤ pre.length + t.target.length := by
    simp only [List.length_append, List.length_cons]
    omega
  have shown : (t.target.any fun b => !isprint b) = false := by
    simpa using fun b member => (printable b member).1
  rw [← length] at ends
  simp only [reqPath, stop, if_neg inside, slice_text, shown, whole, cString,
    cstr_append_left rest ends, Bool.false_eq_true, if_false]
  rw [cString] at text
  rw [text, clean, length, size]
  rfl

end Path

section Header

variable {done : Bytes} {req : Request} {info : HeadInfo}

namespace HeaderText

def named (h : HeaderText) (name : String) : Bool := sameNoCase h.name (ascii name)

def text (h : HeaderText) : Bytes :=
  (h.value.dropWhile fun b => b == 32 || b == 9).takeWhile fun b => b ≠ 0

def Refused (h : HeaderText) : Prop :=
  h.named "content-length" = true ∧ ((strtonum h.text).2 = false ∨ (strtonum h.text).1 < 0)

structure WellFormed (h : HeaderText) : Prop where
  colon : 58 ∉ h.name
  plain : 0 ∉ h.name
  name : 13 ∉ h.name
  value : 13 ∉ h.value

end HeaderText

def HeadInfo.withHeader (info : HeadInfo) (h : HeaderText) : HeadInfo :=
  { info with
    cookies := if h.named "cookie" then some h.text else info.cookies
    range := if h.named "range" then some h.text else info.range
    modifiedSince := if h.named "if-modified-since" then some h.text else info.modifiedSince
    contentLen := if h.named "content-length" then (strtonum h.text).1 else info.contentLen
    mimetype := if h.named "content-type" then some h.text else info.mimetype
    disposition := if h.named "content-disposition" then some h.text else info.disposition }

theorem named_length {h : HeaderText} {name : String} (same : h.named name = true) :
    h.name.length = (ascii name).length := by
  have texts := congrArg List.length (beq_iff_eq.mp same)
  simpa only [List.length_map] using texts

/-- A header that has one name has another one only if they differ in letter case alone. -/
theorem named_eq {h : HeaderText} {a : String} (same : h.named a = true) (b : String) :
    h.named b = sameNoCase (ascii a) (ascii b) := by
  simp only [HeaderText.named, sameNoCase, beq_iff_eq] at same ⊢
  rw [same]

def HeaderText.split (h : HeaderText) : Bytes := h.name ++ 0 :: h.value ++ [0]

theorem named_entry {h : HeaderText} {name : String} {len : Nat} (size : (ascii name).length = len)
    (p : Nat) : (p + h.name.length - p == len && sameNoCase h.name (ascii name)) = h.named name := by
  cases same : h.named name with
  | true =>
    rw [Bool.and_eq_true, Nat.add_sub_cancel_left, named_length same, size]
    exact ⟨beq_self_eq_true len, same⟩
  | false => rw [show sameNoCase h.name (ascii name) = false from same, Bool.and_false]

def HeaderText.func (h : HeaderText) : HeaderFunc :=
  if h.named "cookie" then parseHeaderCookie
  else if h.named "range" then parseHeaderRange
  else if h.named "if-modified-since" then parseHeaderIfModifiedSince
  else if h.named "content-length" then parseHeaderContentLength
  else if h.named "content-type" then parseHeaderContentType
  else if h.named "content-disposition" then parseHeaderContentDisposition
  else fun _ req _ => (req, none)

theorem processHeader_eq {h : HeaderText} {mem : Bytes} {p value : Nat}
    (name : cString mem p = h.name) :
    processHeader mem req p (p + h.name.length) value = h.func mem req value := by
  simp only [processHeader, headers, HeaderText.func, List.find?_cons, List.find?_nil, name,
    named_entry (show (ascii "cookie").length = 6 from rfl),
    named_entry (show (ascii "range").length = 5 from rfl),
    named_entry (show (ascii "if-modified-since").length = 17 from rfl),
    named_entry (show (ascii "content-length").length = 14 from rfl),
    named_entry (show (ascii "content-type").length = 12 from rfl),
    named_entry (show (ascii "content-disposition").length = 19 from rfl)]
  cases h.named "cookie" with
  | true => rfl
  | false =>
    cases h.named "range" with
    | true => rfl
    | false =>
      cases h.named "if-modified-since" with
      | true => rfl
      | false =>
        cases h.named "content-length" with
        | true => rfl
        | false =>
          cases h.named "content-type" with
          | true => rfl
          | false => cases h.named "content-disposition" <;> rfl

theorem takeWhile_stop {keep : Byte → Bool} (stop : keep 0 = false) (text rest : Bytes) :
    (text ++ 0 :: rest).takeWhile keep = text.takeWhile keep := by
  rw [List.takeWhile_append]
  split
  · rename_i whole
    rw [List.takeWhile_cons_of_neg (by simp [stop]), List.append_nil]
    exact ((List.takeWhile_prefix keep).eq_of_length whole).symm
  · rfl

/-- The name and the value of a split line, as strings. -/
theorem split_strings (h : HeaderText) (plain : 0 ∉ h.name) (rest : Bytes) :
    cString (done ++ h.split ++ rest) done.length = h.name ∧
      cString (done ++ h.split ++ rest)
        (skipBlanks (done ++ h.split ++ rest) (done.length + h.name.length + 1)) = h.text := by
  have whole : done ++ h.split ++ rest = done ++ (h.name ++ 0 :: (h.value ++ 0 :: rest)) := by
    simp [HeaderText.split]
  have front : (done ++ h.name ++ [0]).length = done.length + h.name.length + 1 := by
    simp only [List.length_append, List.length_singleton]
  refine ⟨?_, ?_⟩
  · rw [whole, cString_text, takeWhile_plain plain]
  · have value : done ++ h.split ++ rest = done ++ h.name ++ [0] ++ (h.value ++ 0 :: rest) := by
      simp [HeaderText.split]
    have blanks := List.takeWhile_append_dropWhile (p := fun b : Byte => b == 32 || b == 9)
      (l := h.value)
    rw [value, skipBlanks, ← front, List.drop_left, takeWhile_stop (by decide)]
    generalize (h.value.takeWhile fun b : Byte => b == 32 || b == 9) = before at blanks ⊢
    have behind : done ++ h.name ++ [0] ++ (h.value ++ 0 :: rest) =
        (done ++ h.name ++ [0] ++ before) ++
          ((h.value.dropWhile fun b : Byte => b == 32 || b == 9) ++ 0 :: rest) := by
      nth_rewrite 1 [← blanks]
      simp
    rw [behind, ← List.length_append, cString_text]
    rfl

structure Reads (h : HeaderText) (v : Bytes) (req : Request) (out : Request × Option HttpStatus) :
    Prop where
  info : HeadInfo.ofRequest v out.1 = (HeadInfo.ofRequest v req).withHeader h
  taken : ¬ h.Refused → out.2 = none
  refused : h.Refused → out.2 = some .http400BadRequest

theorem Reads.field {h : HeaderText} {v : Bytes} {out : Request}
    (other : h.named "content-length" = false)
    (info : HeadInfo.ofRequest v out = (HeadInfo.ofRequest v req).withHeader h) :
    Reads h v req (out, none) := by
  refine ⟨info, fun _ => rfl, ?_⟩
  rintro ⟨length, -⟩
  cases other.symm.trans length

theorem Reads.length {h : HeaderText} {mem v : Bytes} {value : Nat}
    (length : h.named "content-length" = true) (text : cString mem value = h.text) :
    Reads h v req (parseHeaderContentLength mem req value) := by
  have info : HeadInfo.ofRequest v { req with contentLen := (strtonum h.text).1 } =
      (HeadInfo.ofRequest v req).withHeader h := by
    simp +decide [HeadInfo.ofRequest, HeadInfo.withHeader, named_eq length]
  have refused : h.Refused ↔ ¬ (strtonum h.text).2 = true ∨ (strtonum h.text).1 < 0 := by
    simp [HeaderText.Refused, length]
  simp only [parseHeaderContentLength, text]
  split
  · rename_i bad
    exact ⟨info, fun taken => absurd (refused.mpr bad) taken, fun _ => rfl⟩
  · rename_i good
    exact ⟨info, fun _ => rfl, fun bad => absurd (refused.mp bad) good⟩

theorem func_reads {mem v : Bytes} {value : Nat} (h : HeaderText)
    (text : cString mem value = h.text) (text' : cString v value = h.text) (req : Request) :
    Reads h v req (h.func mem req value) := by
  unfold HeaderText.func
  split
  · rename_i cookie
    apply Reads.field ((named_eq cookie _).trans (by decide))
    simp +decide [HeadInfo.ofRequest, HeadInfo.withHeader, named_eq cookie, text']
  · split
    · rename_i range
      apply Reads.field ((named_eq range _).trans (by decide))
      simp +decide [HeadInfo.ofRequest, HeadInfo.withHeader, named_eq range, text']
    · split
      · rename_i modified
        apply Reads.field ((named_eq modified _).trans (by decide))
        simp +decide [HeadInfo.ofRequest, HeadInfo.withHeader, named_eq modified, text']
      · split
        · rename_i length
          exact Reads.length length text
        · rename_i length
          split
          · rename_i type
            apply Reads.field ((named_eq type _).trans (by decide))
            simp +decide [HeadInfo.ofRequest, HeadInfo.withHeader, named_eq type, text']
          · split
            · rename_i disposition
              apply Reads.field ((named_eq disposition _).trans (by decide))
              simp +decide [HeadInfo.ofRequest, HeadInfo.withHeader, named_eq disposition, text']
            · apply Reads.field (Bool.eq_false_iff.mpr length)
              simp [HeadInfo.withHeader, *]

theorem processHeader_text (parsed : Parsed done req info) (h : HeaderText) (plain : 0 ∉ h.name)
    (rest : Bytes) :
    ∃ req', Parsed (done ++ h.split) req' (info.withHeader h) ∧
      (¬ h.Refused → processHeader (done ++ h.split ++ rest) req done.length
        (done.length + h.name.length)
        (skipBlanks (done ++ h.split ++ rest) (done.length + h.name.length + 1)) = (req', none)) ∧
      (h.Refused → processHeader (done ++ h.split ++ rest) req done.length
        (done.length + h.name.length)
        (skipBlanks (done ++ h.split ++ rest) (done.length + h.name.length + 1)) =
          (req', some .http400BadRequest)) := by
  obtain ⟨name, text⟩ := @split_strings done h plain rest
  have whole : (done ++ h.split).length = done.length + h.name.length + h.value.length + 2 := by
    simp only [HeaderText.split, List.length_append, List.length_cons, List.length_nil]
    omega
  have last : (done ++ h.split)[done.length + h.name.length + 1 + h.value.length]? = some 0 := by
    have back : done ++ h.split = (done ++ h.name ++ 0 :: h.value) ++ [0] := by
      simp [HeaderText.split]
    rw [back, List.getElem?_append_right, List.length_append, List.length_append, List.length_cons]
    · rw [show done.length + h.name.length + 1 + h.value.length -
        (done.length + h.name.length + (h.value.length + 1)) = 0 by omega]
      rfl
    · simp only [List.length_append, List.length_cons]
      omega
  have last' : (done ++ h.split ++ rest)[done.length + h.name.length + 1 + h.value.length]? =
      some 0 := by
    rw [List.getElem?_append_left (by omega), last]
  obtain ⟨-, inside⟩ := skipBlanks_le (q := done.length + h.name.length + 1) (by omega) last'
    (by decide)
  have fields := processHeader_fields (done ++ h.split ++ rest) req done.length
    (done.length + h.name.length)
    (skipBlanks (done ++ h.split ++ rest) (done.length + h.name.length + 1))
  have func := @processHeader_eq req h _ _
    (skipBlanks (done ++ h.split ++ rest) (done.length + h.name.length + 1)) name
  generalize skipBlanks (done ++ h.split ++ rest) (done.length + h.name.length + 1) = value
    at text inside fields func ⊢
  have ends : TerminatedBelow (0 : Byte) (done ++ h.split) value (done ++ h.split).length :=
    ⟨_, inside, by omega, last⟩
  have text' : cString (done ++ h.split) value = h.text := by
    rw [← text]
    exact (cstr_append_left rest ends).symm
  have before := parsed.extend h.split
  have strings : HeadStrings (fun _ => True) (done ++ h.split)
      (processHeader (done ++ h.split ++ rest) req done.length (done.length + h.name.length)
        value).1 (done ++ h.split).length := by
    refine ⟨?_, ?_⟩
    · intro q member
      rcases List.mem_cons.mp (fields.2 member) with rfl | old
      · exact ends
      · exact before.strings.ends q old
    · obtain ⟨q, path, -⟩ := before.strings.path
      exact ⟨q, fields.1.trans path, trivial⟩
  have reads := func_reads h text text' req
  rw [← func] at reads
  generalize processHeader (done ++ h.split ++ rest) req done.length
    (done.length + h.name.length) value = out at reads strings
  obtain ⟨req', status⟩ := out
  have info := reads.info
  rw [before.info] at info
  refine ⟨req', ⟨strings, info⟩, ?_, ?_⟩
  · intro taken
    exact congrArg (Prod.mk req') (reads.taken taken)
  · intro refused
    exact congrArg (Prod.mk req') (reads.refused refused)

/-- The name of a header ends at its colon. -/
theorem strchr_colon {h : HeaderText} (wf : h.WellFormed) (rest : Bytes) :
    strchr (done ++ (h.name ++ 58 :: h.value ++ 0 :: rest)) done.length 58 =
      some (done.length + h.name.length) := by
  have named : ∀ b ∈ h.name, decide (b ≠ 0) = true := by
    intro b member
    exact decide_eq_true fun zero => wf.plain (zero ▸ member)
  have text : cString (done ++ (h.name ++ 58 :: h.value ++ 0 :: rest)) done.length =
      h.name ++ 58 :: h.value.takeWhile fun b => b ≠ 0 := by
    rw [cString_text, List.takeWhile_append_of_pos named]
    rfl
  have found : (h.name ++ 58 :: h.value.takeWhile fun b => b ≠ 0).idxOf 58 = h.name.length := by
    rw [List.idxOf_append, if_neg wf.colon, List.idxOf_cons_self, Nat.zero_add]
  simp only [strchr, text, found]
  rw [if_pos (by simp)]

/-- One header line: it is read, or the head is refused. -/
theorem parse_header (parsed : Parsed done req info) {h : HeaderText} (wf : h.WellFormed)
    (rest : Bytes) {len : Nat} (whole : (done ++ (h.line ++ rest)).length = len) :
    (¬ h.Refused → ∃ done' req', Parsed done' req' (info.withHeader h) ∧
        (done' ++ rest).length = len ∧
        parse len .reqHead (done ++ (h.line ++ rest)) req done.length done.length =
          parse len .reqHead (done' ++ rest) req' done'.length done'.length) ∧
      (h.Refused → ∃ mem req',
        parse len .reqHead (done ++ (h.line ++ rest)) req done.length done.length =
          .fail mem req' .http400BadRequest) := by
  have absent : 13 ∉ h.name ++ 58 :: h.value := by
    simp only [List.mem_append, List.mem_cons, not_or]
    exact ⟨wf.name, by decide, wf.value⟩
  have line : h.line ++ rest = h.name ++ 58 :: h.value ++ 13 :: (10 :: rest) := by
    simp [HeaderText.line]
  have size : (h.name ++ 58 :: h.value).length = h.name.length + h.value.length + 1 := by
    simp only [List.length_append, List.length_cons]
    omega
  have split : (done ++ h.split).length = done.length + (h.name ++ 58 :: h.value).length + 1 := by
    simp only [HeaderText.split, List.length_append, List.length_cons, List.length_nil]
    omega
  rw [line] at whole ⊢
  have total : len = done.length + (h.name ++ 58 :: h.value).length + rest.length + 2 := by
    rw [← whole]
    simp only [List.length_append, List.length_cons]
    omega
  have stop := @scanTo_text done _ (10 :: rest) _ absent
  rw [whole] at stop
  have marked : (done ++ (h.name ++ 58 :: h.value ++ 0 :: 10 :: rest)).set
      (done.length + h.name.length) 0 = done ++ h.split ++ 10 :: rest := by
    rw [List.append_assoc h.name, List.cons_append, set_text]
    simp [HeaderText.split]
  have moved : ¬ len ≤ done.length + (h.name ++ 58 :: h.value).length := by omega
  have filled : done.length + (h.name ++ 58 :: h.value).length ≠ done.length := by omega
  obtain ⟨req', read, taken, refused⟩ := processHeader_text parsed h wf.plain (10 :: rest)
  refine ⟨fun good => ?_, fun bad => ?_⟩
  · have step : parseStep len .reqHead (done ++ (h.name ++ 58 :: h.value ++ 13 :: 10 :: rest)) req
        done.length done.length =
        .goto .reqHeadLf (done ++ h.split ++ 10 :: rest) req' (done ++ h.split).length
          (done ++ h.split).length := by
      simp only [parseStep, reqHead, stop, if_neg moved, if_pos filled, set_text, strchr_colon wf,
        marked, taken good, split]
    have here : (done ++ h.split ++ 10 :: rest)[(done ++ h.split).length]? = some 10 := by simp
    have feed : parseStep len .reqHeadLf (done ++ h.split ++ 10 :: rest) req'
        (done ++ h.split).length (done ++ h.split).length =
        .goto .reqHead (done ++ h.split ++ 10 :: rest) req' ((done ++ h.split).length + 1)
          ((done ++ h.split).length + 1) := by
      simp only [parseStep, reqHeadLf, here, ne_eq, not_true_eq_false, if_false]
      rw [if_neg (by omega)]
      simp
    have longer : (done ++ h.split ++ [10]).length = (done ++ h.split).length + 1 :=
      List.length_append
    have again : done ++ h.split ++ 10 :: rest = done ++ h.split ++ [10] ++ rest := by simp
    refine ⟨done ++ h.split ++ [10], req', read.extend [10], ?_, ?_⟩
    · rw [total, List.length_append, longer, split]
      omega
    · rw [parse_goto step, parse_goto feed, longer, again]
  · refine ⟨done ++ h.split ++ 10 :: rest, req', ?_⟩
    rw [parse_eq]
    simp only [parseStep, reqHead, stop, if_neg moved, if_pos filled, set_text, strchr_colon wf,
      marked, refused bad]

/-- The blank line: the cursor `p` stays at its CR, so that the LF behind it ends the head. -/
theorem parse_blank (req : Request) {len : Nat} (whole : (done ++ [13, 10]).length = len) :
    parse len .reqHead (done ++ [13, 10]) req done.length done.length =
      .finish (done ++ [13, 10]) req len := by
  have size : len = done.length + 2 := by simpa using whole.symm
  have stop := @scanTo_text done [] [10] 13 List.not_mem_nil
  rw [List.nil_append, whole, List.length_nil, Nat.add_zero] at stop
  have step : parseStep len .reqHead (done ++ [13, 10]) req done.length done.length =
      .goto .reqHeadLf (done ++ [13, 10]) req done.length (done.length + 1) := by
    simp only [parseStep, reqHead, stop, ne_eq, not_true_eq_false, if_false]
    rw [if_neg (by omega)]
  have here : (done ++ [13, 10])[done.length + 1]? = some 10 := by
    rw [List.getElem?_append_right (by omega), Nat.add_sub_cancel_left]
    rfl
  have last : parseStep len .reqHeadLf (done ++ [13, 10]) req done.length (done.length + 1) =
      .finish (done ++ [13, 10]) req (done.length + 2) := by
    simp only [parseStep, reqHeadLf, here, ne_eq, not_true_eq_false, if_false]
    rw [if_neg (by omega), if_neg (by omega)]
  rw [parse_goto step, parse_eq, last, size]

/-- All header lines and the blank line behind them. -/
theorem parse_lines {hs : List HeaderText} (wf : ∀ h ∈ hs, h.WellFormed)
    (parsed : Parsed done req info) {len : Nat}
    (whole : (done ++ HeaderText.lines hs).length = len) :
    ((∀ h ∈ hs, ¬ h.Refused) → ∃ mem req',
        parse len .reqHead (done ++ HeaderText.lines hs) req done.length done.length =
          .finish mem req' len ∧ HeadInfo.ofRequest mem req' = hs.foldl HeadInfo.withHeader info) ∧
      ((∃ h ∈ hs, h.Refused) → ∃ mem req',
        parse len .reqHead (done ++ HeaderText.lines hs) req done.length done.length =
          .fail mem req' .http400BadRequest) := by
  induction hs generalizing done req info with
  | nil =>
    refine ⟨fun _ => ⟨_, _, parse_blank req whole, (parsed.extend _).info⟩, ?_⟩
    rintro ⟨h, member, -⟩
    cases member
  | cons h rest ih =>
    have line : HeaderText.lines (h :: rest) = h.line ++ HeaderText.lines rest := by
      simp [HeaderText.lines]
    rw [line] at whole ⊢
    obtain ⟨taken, refused⟩ := parse_header parsed (wf h (List.mem_cons_self ..)) _ whole
    by_cases bad : h.Refused
    · refine ⟨fun all => absurd bad (all h (List.mem_cons_self ..)), fun _ => refused bad⟩
    · obtain ⟨done', req', parsed', size, same⟩ := taken bad
      obtain ⟨all, some⟩ := ih (fun h member => wf h (List.mem_cons_of_mem _ member)) parsed' size
      rw [same]
      refine ⟨fun good => all fun h member => good h (List.mem_cons_of_mem _ member), ?_⟩
      rintro ⟨h', member, bad'⟩
      rcases List.mem_cons.mp member with rfl | later
      · exact absurd bad' bad
      · exact some ⟨h', later, bad'⟩

end Header

namespace RequestText

/-- A request head that has no defect but perhaps in its headers' values. -/
structure WellFormed (t : RequestText) : Prop where
  method : t.method ≠ .unset
  target : ∀ b ∈ t.target, isprint b = true ∧ b ≠ 32
  mark : 63 ∉ t.path
  path : attemptedPathTraversal (decodedText t.path) = false
  headers : ∀ h ∈ t.headers, h.WellFormed

def info (t : RequestText) : HeadInfo :=
  t.headers.foldl HeadInfo.withHeader { t.lineInfo with version := t.version }

theorem headEnd_text {t : RequestText} (wf : t.WellFormed) :
    ((∀ h ∈ t.headers, ¬ h.Refused) → ∃ mem req, headEnd t.bytes = .finish mem req t.bytes.length ∧
        HeadInfo.ofRequest mem req = t.info) ∧
      ((∃ h ∈ t.headers, h.Refused) → ∃ mem req,
        headEnd t.bytes = .fail mem req .http400BadRequest) := by
  have start : parseStep t.bytes.length .new t.bytes {} 0 0 = .goto .reqMethod t.bytes {} 0 0 := rfl
  have method : parseStep t.bytes.length .reqMethod t.bytes {} 0 0 = _ :=
    reqMethod_text wf.method {} _
  have front : (methodText t.method ++ [32]).length = (methodText t.method).length + 1 :=
    List.length_append
  have whole : t.bytes = (methodText t.method ++ [32]) ++ (t.target ++ 32 ::
      (ascii "HTTP/" ++ versionText t.version ++ 13 :: 10 :: HeaderText.lines t.headers)) := by
    simp [bytes]
  obtain ⟨done, req, length, path, parsed⟩ := reqPath_text wf.target wf.mark wf.path
    (methodText t.method ++ [32])
    (ascii "HTTP/" ++ versionText t.version ++ 13 :: 10 :: HeaderText.lines t.headers)
  rw [← whole, front] at path
  have version := reqVersion_text t.version req done (10 :: HeaderText.lines t.headers)
  have eight : (ascii "HTTP/" ++ versionText t.version).length = 8 := by
    cases t.version <;> rfl
  have size : (done ++ (ascii "HTTP/" ++ versionText t.version ++ 13 :: 10 ::
      HeaderText.lines t.headers)).length = t.bytes.length := by
    rw [whole]
    simp only [List.length_append, List.length_cons, length]
    omega
  rw [size] at version
  have cut : done ++ (ascii "HTTP/" ++ versionText t.version ++ 13 :: 10 ::
      HeaderText.lines t.headers) = done ++ (ascii "HTTP/" ++ versionText t.version ++ [13]) ++
        10 :: HeaderText.lines t.headers := by simp
  have nine : (done ++ (ascii "HTTP/" ++ versionText t.version ++ [13])).length =
      done.length + 9 := by
    rw [List.length_append, List.length_append, eight]
    rfl
  have feed := lineFeed_text { req with version := t.version }
    (done ++ (ascii "HTTP/" ++ versionText t.version ++ [13])) (HeaderText.lines t.headers)
  rw [← cut, size, nine] at feed
  have ten : (done ++ (ascii "HTTP/" ++ versionText t.version ++ [13, 10])).length =
      done.length + 9 + 1 := by
    rw [List.length_append, List.length_append, eight]
    rfl
  have cut' : done ++ (ascii "HTTP/" ++ versionText t.version ++ 13 :: 10 ::
      HeaderText.lines t.headers) = done ++ (ascii "HTTP/" ++ versionText t.version ++ [13, 10]) ++
        HeaderText.lines t.headers := by simp
  have lines := parse_lines wf.headers
    ((parsed.setVersion t.version).extend (ascii "HTTP/" ++ versionText t.version ++ [13, 10]))
    (cut' ▸ size)
  rw [← cut', ten] at lines
  have run : headEnd t.bytes = parse t.bytes.length .reqHead (done ++ (ascii "HTTP/" ++
      versionText t.version ++ 13 :: 10 :: HeaderText.lines t.headers))
      { req with version := t.version } (done.length + 9 + 1) (done.length + 9 + 1) := by
    change parseStep _ .reqPath _ _ _ _ = _ at path
    change parseStep _ .reqVersion _ _ _ _ = _ at version
    change parseStep _ .reqVersionLf _ _ _ _ = _ at feed
    rw [headEnd, parse_goto start, parse_goto method]
    exact (parse_goto path).trans ((parse_goto version).trans (parse_goto feed))
  rw [run]
  exact lines

structure Sent (t : RequestText) (n : Nat) (c : Client) (k : Kernel) : Prop where
  idle : Idle c
  isOpen : OpenInput k.input
  enough : k.input.length < n
  stream : ∃ rest, c.reqHeaders.take c.reqHeadersLen ++ pendingBytes k.input = t.bytes ++ rest
  room : t.bytes.length ≤ httpBufsz

variable {t : RequestText} {n : Nat} {c : Client} {k : Kernel}

theorem Sent.accepted (sent : t.Sent n c k) (wf : t.WellFormed)
    (taken : ∀ h ∈ t.headers, ¬ h.Refused) :
    (recvCalls n c k).verdict = .accepted t.info (some t.bytes.length) := by
  obtain ⟨idle, isOpen, enough, ⟨rest, stream⟩, room⟩ := sent
  obtain ⟨mem, req, head, info⟩ := (headEnd_text wf).1 taken
  rw [recvCalls_verdict idle.progress isOpen enough, stream, streamVerdict_accepted rest room head,
    info]

theorem Sent.rejected (sent : t.Sent n c k) (wf : t.WellFormed)
    (refused : ∃ h ∈ t.headers, h.Refused) :
    (recvCalls n c k).verdict = .rejected .http400BadRequest := by
  obtain ⟨idle, isOpen, enough, ⟨rest, stream⟩, room⟩ := sent
  obtain ⟨mem, req, head⟩ := (headEnd_text wf).2 refused
  have longer := headEnd_append t.bytes (rest.take (httpBufsz - t.bytes.length))
  rw [head] at longer
  rw [recvCalls_verdict idle.progress isOpen enough, stream, streamVerdict,
    take_append_room room, longer]

def arrivalOf : Bytes → List Arrival
  | [] => []
  | b :: bs => [.chunk b bs]

theorem Sent.fresh (room : t.bytes.length ≤ httpBufsz) (blocks : Blocks)
    (fs : Nat → FileSystem) :
    t.Sent 2 (createClientStruct blocks) { input := arrivalOf t.bytes, fs := fs } := by
  refine ⟨createClientStruct_idle blocks, ?_, ?_, ⟨[], ?_⟩, room⟩
  · cases t.bytes <;> simp [arrivalOf, OpenInput]
  · cases t.bytes <;> simp [arrivalOf]
  · cases t.bytes <;> simp [arrivalOf, pendingBytes, Arrival.bytes, createClientStruct]

end RequestText

def lastText (name : String) (hs : List HeaderText) : Option Bytes :=
  (hs.filter fun h => h.named name).getLast?.map HeaderText.text

theorem lastText_snoc (name : String) (hs : List HeaderText) (h : HeaderText) :
    lastText name (hs ++ [h]) = if h.named name then some h.text else lastText name hs := by
  cases same : h.named name with
  | true => simp [lastText, same]
  | false => simp [lastText, same]

/-- Every field is the one of the last header of its name. -/
theorem foldl_withHeader (hs : List HeaderText) (info : HeadInfo) :
    hs.foldl HeadInfo.withHeader info =
      { info with
        cookies := (lastText "cookie" hs).or info.cookies
        range := (lastText "range" hs).or info.range
        modifiedSince := (lastText "if-modified-since" hs).or info.modifiedSince
        contentLen := ((lastText "content-length" hs).map fun text => (strtonum text).1).getD
          info.contentLen
        mimetype := (lastText "content-type" hs).or info.mimetype
        disposition := (lastText "content-disposition" hs).or info.disposition } := by
  induction hs using List.reverseRecOn with
  | nil => rfl
  | append_singleton hs h ih =>
    rw [List.foldl_append, List.foldl_cons, List.foldl_nil, ih]
    simp only [HeadInfo.withHeader, lastText_snoc]
    congr 1
    all_goals split <;> simp

end Kitserv
