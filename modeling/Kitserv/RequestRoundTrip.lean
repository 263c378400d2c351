import Kitserv.LengthHeader
import Kitserv.PathTraversal

namespace Kitserv

/-- A request as its sender means it, before anything is encoded. -/
structure PlainRequest where
  method : HttpMethod
  path : Bytes
  query : Option Bytes
  version : HttpVersion
  headers : List HeaderText

def QueryByte (b : Byte) : Prop := isprint b = true ∧ b ≠ 32 ∧ b ≠ 37

def PathByte (b : Byte) : Prop := QueryByte b ∧ b ≠ 63

structure HeaderText.Sendable (h : HeaderText) : Prop where
  wf : h.WellFormed
  plain : 0 ∉ h.value
  start : h.value.head? ≠ some 32 ∧ h.value.head? ≠ some 9
  length : h.named "content-length" = true → Numeral h.value

def HeaderText.spaced (h : HeaderText) : HeaderText := { h with value := 32 :: h.value }

namespace PlainRequest

structure Sendable (r : PlainRequest) : Prop where
  method : r.method ≠ .unset
  path : 0 ∉ r.path
  dots : dotDot ∉ segments r.path
  query : ∀ query, r.query = some query → 0 ∉ query
  headers : ∀ h ∈ r.headers, h.Sendable

/-- `t` writes `r` out, with the path and the query percent-encoded in one of the possible ways. -/
structure Written (r : PlainRequest) (t : RequestText) : Prop where
  method : t.method = r.method
  version : t.version = r.version
  path : PercentEncoding PathByte t.path r.path
  query : Option.Rel (PercentEncoding QueryByte) t.query r.query
  headers : t.headers = r.headers.map HeaderText.spaced

def lastValue (r : PlainRequest) (name : String) : Option Bytes :=
  (r.headers.filter fun h => h.named name).getLast?.map HeaderText.value

def info (r : PlainRequest) : HeadInfo where
  method := r.method
  version := r.version
  path := some r.path
  query := r.query
  cookies := r.lastValue "cookie"
  range := r.lastValue "range"
  modifiedSince := r.lastValue "if-modified-since"
  contentLen := ((r.lastValue "content-length").map fun text => (digitsValue text : Int)).getD 0
  mimetype := r.lastValue "content-type"
  disposition := r.lastValue "content-disposition"

end PlainRequest

theorem hexValue_plain {b v : Byte} (digit : hexValue b = some v) : isprint b = true ∧ b ≠ 32 ∧ b ≠ 63 := by
  have other (x : Byte) (none : hexValue x = none) : b ≠ x := by
    rintro rfl
    cases none.symm.trans digit
  refine ⟨?_, other 32 (by decide), other 63 (by decide)⟩
  have range : 48 ≤ b.toNat ∧ b.toNat ≤ 102 := by
    have code : (48 : UInt8).toNat = 48 ∧ (57 : UInt8).toNat = 57 ∧ (65 : UInt8).toNat = 65 ∧
      (70 : UInt8).toNat = 70 ∧ (97 : UInt8).toNat = 97 ∧ (102 : UInt8).toNat = 102 := by decide
    simp only [hexValue, isdigit, Bool.and_eq_true, decide_eq_true_eq,
      UInt8.le_iff_toNat_le] at digit
    split at digit
    · omega
    · split at digit
      · omega
      · split at digit
        · omega
        · cases digit
  simp only [isprint, Bool.and_eq_true, decide_eq_true_eq, UInt8.le_iff_toNat_le]
  have code : (0x20 : UInt8).toNat = 32 ∧ (0x7e : UInt8).toNat = 126 := by decide
  omega

theorem PercentEncoding.all {literal P : Byte → Prop} {e s : Bytes}
    (encoding : PercentEncoding literal e s) (plain : ∀ b, literal b → P b) (percent : P 37)
    (digit : ∀ b v, hexValue b = some v → P b) : ∀ b ∈ e, P b := by
  induction encoding with
  | nil => exact List.forall_mem_nil _
  | plain as_is _ ih => exact List.forall_mem_cons.mpr ⟨plain _ as_is, ih⟩
  | escaped first second _ ih =>
    exact List.forall_mem_cons.mpr ⟨percent, List.forall_mem_cons.mpr ⟨digit _ _ first,
      List.forall_mem_cons.mpr ⟨digit _ _ second, ih⟩⟩⟩

theorem PathByte.sent {e s : Bytes} (encoding : PercentEncoding PathByte e s) :
    ∀ b ∈ e, (isprint b = true ∧ b ≠ 32) ∧ b ≠ 63 := by
  apply encoding.all (P := fun b => (isprint b = true ∧ b ≠ 32) ∧ b ≠ 63)
  · rintro b ⟨⟨shown, space, -⟩, mark⟩
    exact ⟨⟨shown, space⟩, mark⟩
  · decide
  · intro b v digit
    obtain ⟨shown, space, mark⟩ := hexValue_plain digit
    exact ⟨⟨shown, space⟩, mark⟩

theorem QueryByte.sent {e s : Bytes} (encoding : PercentEncoding QueryByte e s) :
    ∀ b ∈ e, isprint b = true ∧ b ≠ 32 := by
  apply encoding.all (P := fun b => isprint b = true ∧ b ≠ 32)
  · rintro b ⟨shown, space, -⟩
    exact ⟨shown, space⟩
  · decide
  · intro b v digit
    obtain ⟨shown, space, -⟩ := hexValue_plain digit
    exact ⟨shown, space⟩

theorem PercentEncoding.decodedText {literal : Byte → Prop} {e s : Bytes}
    (encoding : PercentEncoding literal e s) (escapes : ¬ literal 37) (plain : 0 ∉ s) :
    decodedText e = s := by
  rw [Kitserv.decodedText, encoding.decode escapes, takeWhile_plain plain]

section Spaced

variable {h : HeaderText}

theorem HeaderText.Sendable.text (ok : h.Sendable) : h.spaced.text = h.value := by
  have space : (32 :: h.value).dropWhile (fun b => b == 32 || b == 9) = h.value := by
    rw [List.dropWhile_cons_of_pos (by decide)]
    cases value : h.value with
    | nil => rfl
    | cons b rest =>
      have start := ok.start
      rw [value] at start
      apply List.dropWhile_cons_of_neg
      simpa using start
  rw [HeaderText.text, HeaderText.spaced, space, takeWhile_plain ok.plain]

theorem HeaderText.Sendable.wellFormed (ok : h.Sendable) : h.spaced.WellFormed := by
  obtain ⟨⟨colon, plain, name, value⟩, -⟩ := ok
  refine ⟨colon, plain, name, ?_⟩
  simp only [HeaderText.spaced, List.mem_cons, not_or]
  exact ⟨by decide, value⟩

theorem HeaderText.Sendable.number (ok : h.Sendable)
    (length : h.spaced.named "content-length" = true) :
    strtonum h.spaced.text = ((digitsValue h.value : Int), true) := by
  rw [ok.text]
  exact (StrtollNumber.unsigned (List.forall_mem_nil _) (ok.length length)).strtonum

theorem HeaderText.Sendable.taken (ok : h.Sendable) : ¬ h.spaced.Refused := by
  rintro ⟨length, bad⟩
  rw [ok.number length] at bad
  rcases bad with failed | negative
  · cases failed
  · exact absurd negative (Int.not_lt.mpr (Int.natCast_nonneg _))

end Spaced

namespace PlainRequest

variable {r : PlainRequest} {t : RequestText} {n : Nat} {c : Client} {k : Kernel}

theorem Written.wellFormed (written : r.Written t) (ok : r.Sendable) : t.WellFormed := by
  obtain ⟨method, -, path, query, headers⟩ := written
  have clean : attemptedPathTraversal r.path = false := by
    apply Bool.eq_false_iff.mpr
    intro found
    exact ok.dots (List.mem_of_find?_eq_some ((attemptedPathTraversal_segments r.path).mp found))
  refine ⟨method ▸ ok.method, ?_, ?_, ?_, ?_⟩
  · intro b member
    rcases List.mem_append.mp member with inPath | inQuery
    · exact (PathByte.sent path b inPath).1
    · cases asked : t.query with
      | none =>
        rw [asked] at inQuery
        cases inQuery
      | some e =>
        rw [asked] at inQuery query
        rcases List.mem_cons.mp inQuery with rfl | inside
        · decide
        · generalize r.query = meant at query
          cases query with
          | some encoding => exact QueryByte.sent encoding b inside
  · exact fun member => (PathByte.sent path 63 member).2 rfl
  · rw [path.decodedText (fun h => h.1.2.2 rfl) ok.path]
    exact clean
  · rw [headers]
    intro h member
    obtain ⟨h', inside, rfl⟩ := List.mem_map.mp member
    exact (ok.headers h' inside).wellFormed

theorem Written.taken (written : r.Written t) (ok : r.Sendable) : ∀ h ∈ t.headers, ¬ h.Refused := by
  rw [written.headers]
  intro h member
  obtain ⟨h', inside, rfl⟩ := List.mem_map.mp member
  exact (ok.headers h' inside).taken

theorem Written.lastText (written : r.Written t) (ok : r.Sendable) (name : String) :
    lastText name t.headers = r.lastValue name := by
  have named : (fun h => HeaderText.named h name) ∘ HeaderText.spaced = fun h => h.named name := rfl
  rw [Kitserv.lastText, lastValue, written.headers, List.filter_map, named, List.getLast?_map,
    Option.map_map]
  cases last : (r.headers.filter fun h => h.named name).getLast? with
  | none => rfl
  | some h =>
    have member := List.mem_of_mem_filter (List.mem_of_getLast? last)
    exact congrArg some (ok.headers h member).text

theorem Written.info (written : r.Written t) (ok : r.Sendable) : t.info = r.info := by
  have path : decodedText t.path = r.path :=
    written.path.decodedText (fun h => h.1.2.2 rfl) ok.path
  have query : t.query.map decodedText = r.query := by
    have meant := ok.query
    have encoding := written.query
    generalize t.query = sent at encoding ⊢
    generalize r.query = asked at encoding meant ⊢
    cases encoding with
    | none => rfl
    | some encoding =>
      exact congrArg some (encoding.decodedText (fun h => h.2.2 rfl) (meant _ rfl))
  have length : ((Kitserv.lastText "content-length" t.headers).map fun text => (strtonum text).1) =
      (r.lastValue "content-length").map fun text => (digitsValue text : Int) := by
    rw [written.lastText ok]
    cases last : r.lastValue "content-length" with
    | none => rfl
    | some text =>
      obtain ⟨h, found, rfl⟩ := Option.map_eq_some_iff.mp last
      obtain ⟨inside, length⟩ := List.mem_filter.mp (List.mem_of_getLast? found)
      have number := (ok.headers h inside).number length
      rw [(ok.headers h inside).text] at number
      exact congrArg some (congrArg Prod.fst number)
  rw [RequestText.info, foldl_withHeader, length]
  simp only [written.lastText ok, RequestText.lineInfo, Option.or_none, path, query, written.method,
    written.version]
  rfl

/-- What is sent is what is received, with the payload right behind the blank line. -/
theorem request_round_trip (ok : r.Sendable) (written : r.Written t) (sent : t.Sent n c k) :
    (recvCalls n c k).verdict = .accepted r.info (some t.bytes.length) := by
  rw [sent.accepted (written.wellFormed ok) (written.taken ok), written.info ok]

def spacedPut : PlainRequest where
  method := .put
  path := ascii "/ "
  query := some (ascii "?")
  version := .http10
  headers := [{ name := ascii "Cookie", value := ascii "a=b" }]

def spacedPutText : RequestText where
  method := .put
  path := ascii "/%20"
  query := some (ascii "%3f")
  version := .http10
  headers := [{ name := ascii "Cookie", value := ascii " a=b" }]

theorem spacedPut_sendable : spacedPut.Sendable where
  method := by decide
  path := by decide
  dots := by decide
  query := by
    rintro query ⟨⟩
    decide
  headers := by
    intro h member
    rw [List.mem_singleton.mp member]
    exact ⟨⟨by decide, by decide, by decide, by decide⟩, by decide, by decide,
      fun other => absurd other (by decide)⟩

theorem spacedPut_written : spacedPut.Written spacedPutText where
  method := rfl
  version := rfl
  path := @PercentEncoding.plain PathByte 47 [37, 50, 48] [32]
    ⟨⟨by decide, by decide, by decide⟩, by decide⟩
    (@PercentEncoding.escaped PathByte 50 48 2 0 [] [] rfl rfl .nil)
  query := .some (@PercentEncoding.escaped QueryByte 51 102 3 15 [] [] rfl rfl .nil)
  headers := rfl

theorem request_round_trip_put :
    (recvCalls 2 (createClientStruct Blocks.zeroed)
        { input := RequestText.arrivalOf spacedPutText.bytes, fs := fun _ => .empty }).verdict =
      .accepted spacedPut.info (some spacedPutText.bytes.length) :=
  request_round_trip spacedPut_sendable spacedPut_written
    (RequestText.Sent.fresh (by decide) _ _)

end PlainRequest

end Kitserv
