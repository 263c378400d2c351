import Kitserv.RangeHeader
import Kitserv.RequestText

namespace Kitserv

/-- The texts that strtoll reads to their end as a number which is not negative. -/
inductive StrtollNumber : Bytes → Nat → Prop
  | unsigned {spaces ds : Bytes} (space : ∀ b ∈ spaces, isspace b = true) (number : Numeral ds) :
      StrtollNumber (spaces ++ ds) (digitsValue ds)
  | plus {spaces ds : Bytes} (space : ∀ b ∈ spaces, isspace b = true) (number : Numeral ds) :
      StrtollNumber (spaces ++ 43 :: ds) (digitsValue ds)
  | minus {spaces ds : Bytes} (space : ∀ b ∈ spaces, isspace b = true) (number : Numeral ds)
      (zero : digitsValue ds = 0) : StrtollNumber (spaces ++ 45 :: ds) 0

section Strtoll

variable {spaces ds text s : Bytes} {n : Nat}

theorem dropWhile_spaces (space : ∀ b ∈ spaces, isspace b = true) {b : Byte}
    (dark : isspace b = false) (rest : Bytes) :
    (spaces ++ b :: rest).dropWhile isspace = b :: rest := by
  rw [List.dropWhile_append_of_pos space, List.dropWhile_cons_of_neg (by simp [dark])]

def strtollDigits (text : Bytes) (negative : Bool) (s : Bytes) : Strtoll :=
  let digits := s.takeWhile isdigit
  if digits = [] then { value := 0, rest := text, erange := false }
  else
    let value : Int := if negative then -digitsValue digits else digitsValue digits
    let rest := s.dropWhile isdigit
    if value > llongMax then { value := llongMax, rest := rest, erange := true }
    else if value < llongMin then { value := llongMin, rest := rest, erange := true }
    else { value := value, rest := rest, erange := false }

theorem strtoll_signed {b : Byte} (sign : b = 43 ∨ b = 45)
    (behind : text.dropWhile isspace = b :: s) :
    strtoll text = strtollDigits text (b == 45) s := by
  rcases sign with rfl | rfl
  · simp only [strtoll, behind]
    rfl
  · simp only [strtoll, behind]
    rfl

theorem strtoll_unsigned (plus : (text.dropWhile isspace).head? ≠ some 43)
    (minus : (text.dropWhile isspace).head? ≠ some 45) :
    strtoll text = strtollDigits text false (text.dropWhile isspace) := by
  simp only [strtoll, beq_eq_false_iff_ne.mpr plus, beq_eq_false_iff_ne.mpr minus, Bool.or_false,
    Bool.false_eq_true, if_false]
  rfl

theorem strtollDigits_number (number : Numeral ds) {negative : Bool}
    (zero : negative = true → digitsValue ds = 0) :
    strtollDigits text negative ds = { value := digitsValue ds, rest := [], erange := false } := by
  have all : ds.takeWhile isdigit = ds := List.takeWhile_eq_self_iff.mpr number.digits
  have rest : ds.dropWhile isdigit = [] := List.dropWhile_eq_nil_iff.mpr number.digits
  have fits := number.fits
  have low : ¬ (digitsValue ds : Int) < llongMin := by
    rw [llongMin]
    omega
  have value : (if negative = true then -(digitsValue ds : Int) else digitsValue ds) =
      digitsValue ds := by
    split
    · rename_i minus
      rw [zero minus]
      rfl
    · rfl
  simp only [strtollDigits, all, rest, number.nonempty, if_false, value, low]
  rw [if_neg (Int.not_lt.mpr fits)]

theorem StrtollNumber.strtonum (h : StrtollNumber text n) : strtonum text = ((n : Int), true) := by
  cases h with
  | @unsigned spaces ds space number =>
    cases ds with
    | nil => exact absurd rfl number.nonempty
    | cons b rest =>
      have digit := number.digits b (List.mem_cons_self ..)
      have behind := dropWhile_spaces space (isspace_of_digit digit) rest
      have plain := isdigit_ne digit
      have whole := @strtoll_unsigned (spaces ++ b :: rest)
        (by rw [behind]; simpa using plain.2.1) (by rw [behind]; simpa using plain.1)
      rw [Kitserv.strtonum, whole, behind, strtollDigits_number number (by simp)]
      rfl
  | @plus spaces ds space number =>
    have behind := dropWhile_spaces space (show isspace 43 = false by decide) ds
    rw [Kitserv.strtonum, strtoll_signed (.inl rfl) behind, strtollDigits_number number (by simp)]
    rfl
  | @minus spaces ds space number zero =>
    have behind := dropWhile_spaces space (show isspace 45 = false by decide) ds
    rw [Kitserv.strtonum, strtoll_signed (.inr rfl) behind,
      strtollDigits_number number (fun _ => zero), zero]
    rfl

/-- What is read to its end is digits. -/
theorem strtollDigits_ends {negative : Bool} (filled : text ≠ [])
    (ends : (strtollDigits text negative s).rest = [])
    (range : (strtollDigits text negative s).erange = false) :
    (∀ b ∈ s, isdigit b = true) ∧ s ≠ [] ∧ (strtollDigits text negative s).value =
        (if negative then -(digitsValue s : Int) else digitsValue s) ∧
      (strtollDigits text negative s).value ≤ llongMax := by
  simp only [strtollDigits] at ends range ⊢
  generalize shown : (if negative = true then -(digitsValue (s.takeWhile isdigit) : Int)
    else digitsValue (s.takeWhile isdigit)) = value at ends range ⊢
  split at ends
  · exact absurd ends filled
  · rename_i nonempty
    rw [if_neg nonempty] at range ⊢
    split at range
    · cases range
    · rename_i high
      split at range
      · cases range
      · rename_i low
        rw [if_neg high, if_neg low] at ends ⊢
        have digits := List.dropWhile_eq_nil_iff.mp ends
        have all : s.takeWhile isdigit = s := List.takeWhile_eq_self_iff.mpr digits
        rw [all] at nonempty shown
        exact ⟨digits, nonempty, shown.symm, Int.not_lt.mp high⟩

theorem number_of_strtonum (ok : (strtonum text).2 = true) (positive : 0 ≤ (strtonum text).1) :
    text = [] ∨ ∃ n, StrtollNumber text n := by
  by_cases filled : text = []
  · exact .inl filled
  right
  have whole := List.takeWhile_append_dropWhile (p := isspace) (l := text)
  have space : ∀ b ∈ text.takeWhile isspace, isspace b = true :=
    fun b member => List.mem_takeWhile_imp member
  simp only [strtonum, Bool.and_eq_true, Bool.not_eq_true', List.isEmpty_iff] at ok positive
  by_cases plus : (text.dropWhile isspace).head? = some 43
  · obtain ⟨s, behind⟩ := List.head?_eq_some_iff.mp plus
    rw [strtoll_signed (.inl rfl) behind] at ok positive
    obtain ⟨digits, nonempty, value, fits⟩ := strtollDigits_ends filled ok.2 ok.1
    rw [value] at fits
    rw [behind] at whole
    rw [← whole]
    exact ⟨_, .plus space ⟨digits, nonempty, fits⟩⟩
  · by_cases minus : (text.dropWhile isspace).head? = some 45
    · obtain ⟨s, behind⟩ := List.head?_eq_some_iff.mp minus
      rw [strtoll_signed (.inr rfl) behind] at ok positive
      obtain ⟨digits, nonempty, value, -⟩ := strtollDigits_ends filled ok.2 ok.1
      rw [value] at positive
      have zero : digitsValue s = 0 := by
        have negative : (0 : Int) ≤ -(digitsValue s : Int) := positive
        omega
      have fits : (digitsValue s : Int) ≤ llongMax := by
        rw [zero, llongMax]
        decide
      rw [behind] at whole
      rw [← whole]
      exact ⟨_, .minus space ⟨digits, nonempty, fits⟩ zero⟩
    · rw [strtoll_unsigned plus minus] at ok positive
      obtain ⟨digits, nonempty, value, fits⟩ := strtollDigits_ends filled ok.2 ok.1
      rw [value] at fits
      rw [← whole]
      exact ⟨_, .unsigned space ⟨digits, nonempty, fits⟩⟩

theorem strtonum_nonneg : ((strtonum text).2 = true ∧ 0 ≤ (strtonum text).1) ↔
    text = [] ∨ ∃ n, StrtollNumber text n := by
  constructor
  · rintro ⟨ok, positive⟩
    exact number_of_strtonum ok positive
  · rintro (rfl | ⟨n, number⟩)
    · decide
    · rw [number.strtonum]
      exact ⟨rfl, Int.natCast_nonneg n⟩

end Strtoll

namespace HeaderText

variable {h : HeaderText}

def trimmed (h : HeaderText) : Bytes := h.value.dropWhile fun b => b == 32 || b == 9

def plainLength (h : HeaderText) : Option Nat :=
  if h.trimmed ≠ [] ∧ h.trimmed.all isdigit ∧ (digitsValue h.trimmed : Int) ≤ llongMax then
    some (digitsValue h.trimmed)
  else none

/-- Something else that the server takes: there is no text at all (in front of a NUL), or there is a
number for strtoll, but with other white space, a sign, or a NUL and more. -/
def LooseLength (h : HeaderText) : Prop :=
  h.text = [] ∨ (∃ n, StrtollNumber h.text n) ∧ ¬ Numeral h.trimmed

end HeaderText

/-- What the answer to a head says about its content-length header: a plain length is accepted and
stored, and all others get 400. -/
def LengthAnswered (h : HeaderText) (verdict : Verdict) : Prop :=
  match h.plainLength with
  | some n => ∃ info payload, verdict = .accepted info payload ∧ info.contentLen = n
  | none => verdict = .rejected .http400BadRequest

theorem numeral_trimmed {h : HeaderText} (number : Numeral h.trimmed) : h.text = h.trimmed := by
  apply takeWhile_plain
  intro nul
  exact (isdigit_ne (number.digits 0 nul)).2.2 rfl

theorem plainLength_some {h : HeaderText} (number : Numeral h.trimmed) :
    h.plainLength = some (digitsValue h.trimmed) :=
  if_pos ⟨number.nonempty, List.all_eq_true.mpr number.digits, number.fits⟩

theorem plainLength_none {h : HeaderText} (other : ¬ Numeral h.trimmed) : h.plainLength = none := by
  apply if_neg
  rintro ⟨nonempty, digits, fits⟩
  exact other ⟨List.all_eq_true.mp digits, nonempty, fits⟩

theorem refused_iff {h : HeaderText} (length : h.named "content-length" = true) :
    h.Refused ↔ ¬ (h.text = [] ∨ ∃ n, StrtollNumber h.text n) := by
  rw [← strtonum_nonneg, not_and_or, Bool.not_eq_true, Int.not_le]
  exact and_iff_right length

section Answer

variable {t : RequestText} {h : HeaderText} {before after : List HeaderText}

structure OnlyLength (t : RequestText) (h : HeaderText) : Prop where
  length : h.named "content-length" = true
  place : ∃ before after, t.headers = before ++ h :: after ∧
    ∀ other ∈ before ++ after, other.named "content-length" = false

theorem OnlyLength.mem (only : OnlyLength t h) : h ∈ t.headers := by
  obtain ⟨before, after, headers, -⟩ := only.place
  rw [headers]
  exact List.mem_append_right _ (List.mem_cons_self ..)

theorem OnlyLength.refused (only : OnlyLength t h) : (∃ h' ∈ t.headers, h'.Refused) ↔ h.Refused := by
  constructor
  · rintro ⟨h', member, bad⟩
    obtain ⟨before, after, headers, others⟩ := only.place
    rw [headers] at member
    have unlike (inside : h' ∈ before ++ after) : h'.Refused → h.Refused := by
      rintro ⟨length, -⟩
      cases (others h' inside).symm.trans length
    rcases List.mem_append.mp member with first | last
    · exact unlike (List.mem_append_left _ first) bad
    · rcases List.mem_cons.mp last with rfl | last
      · exact bad
      · exact unlike (List.mem_append_right _ last) bad
  · exact fun bad => ⟨h, only.mem, bad⟩

theorem OnlyLength.contentLen (only : OnlyLength t h) :
    t.info.contentLen = (strtonum h.text).1 := by
  obtain ⟨before, after, headers, others⟩ := only.place
  have front : before.filter (fun h => h.named "content-length") = [] := by
    apply List.filter_eq_nil_iff.mpr
    intro other member
    simp [others other (List.mem_append_left _ member)]
  have back : after.filter (fun h => h.named "content-length") = [] := by
    apply List.filter_eq_nil_iff.mpr
    intro other member
    simp [others other (List.mem_append_right _ member)]
  have last : lastText "content-length" t.headers = some h.text := by
    simp [lastText, headers, front, back, only.length]
  rw [RequestText.info, foldl_withHeader, last]
  rfl

end Answer

/-- The server agrees with the grammar of a Content-Length on all but the loose values. -/
theorem length_answered_iff {t : RequestText} {h : HeaderText} {n : Nat} {c : Client} {k : Kernel}
    (sent : t.Sent n c k) (wf : t.WellFormed) (only : OnlyLength t h) :
    LengthAnswered h (recvCalls n c k).verdict ↔ ¬ h.LooseLength := by
  have accepted (taken : ¬ h.Refused) :
      (recvCalls n c k).verdict = .accepted t.info (some t.bytes.length) := by
    apply sent.accepted wf
    intro h' member bad
    exact taken (only.refused.mp ⟨h', member, bad⟩)
  by_cases number : Numeral h.trimmed
  · have text := numeral_trimmed number
    have read : StrtollNumber h.text (digitsValue h.trimmed) := by
      rw [text]
      exact .unsigned (List.forall_mem_nil _) number
    have taken : ¬ h.Refused := fun bad => (refused_iff only.length).mp bad (.inr ⟨_, read⟩)
    have strict : ¬ h.LooseLength := by
      rintro (none | ⟨-, other⟩)
      · exact number.nonempty (text.symm.trans none)
      · exact other number
    simp only [LengthAnswered, plainLength_some number, strict, not_false_eq_true, iff_true]
    refine ⟨_, _, accepted taken, ?_⟩
    rw [only.contentLen, read.strtonum]
  · simp only [LengthAnswered, plainLength_none number]
    constructor
    · rintro rejected loose
      have taken : ¬ h.Refused := by
        intro bad
        apply (refused_iff only.length).mp bad
        exact loose.imp_right And.left
      cases (accepted taken).symm.trans rejected
    · intro strict
      have bad : h.Refused := by
        apply (refused_iff only.length).mpr
        rintro (none | read)
        · exact strict (.inl none)
        · exact strict (.inr ⟨read, number⟩)
      exact sent.rejected wf (only.refused.mpr bad)

def lengthRequest (value : String) : RequestText where
  method := .get
  path := ascii "/"
  query := none
  version := .http11
  headers := [{ name := ascii "content-length", value := ascii value }]

theorem lengthRequest_wellFormed {value : String} (plain : 13 ∉ ascii value) :
    (lengthRequest value).WellFormed where
  method := show HttpMethod.get ≠ .unset by decide
  target := show ∀ b ∈ [47], isprint b = true ∧ b ≠ 32 from List.forall_mem_singleton.mpr (by decide)
  mark := show 63 ∉ ascii "/" by decide
  path := by
    change attemptedPathTraversal (decodedText (ascii "/")) = false
    rw [decodedText_of_plain (by decide) (by decide)]
    decide
  headers := by
    intro h member
    rw [List.mem_singleton.mp member]
    exact ⟨show 58 ∉ ascii "content-length" by decide, show 0 ∉ ascii "content-length" by decide,
      show 13 ∉ ascii "content-length" by decide, plain⟩

theorem lengthRequest_only (value : String) :
    OnlyLength (lengthRequest value) { name := ascii "content-length", value := ascii value } :=
  ⟨show sameNoCase (ascii "content-length") (ascii "content-length") = true by decide, [], [], rfl,
    by simp⟩

theorem length_answered_iff_five :
    LengthAnswered { name := ascii "content-length", value := ascii " 5" }
        (recvCalls 2 (createClientStruct Blocks.zeroed)
          { input := RequestText.arrivalOf (lengthRequest " 5").bytes, fs := fun _ => .empty }).verdict ↔
      ¬ HeaderText.LooseLength { name := ascii "content-length", value := ascii " 5" } :=
  length_answered_iff (RequestText.Sent.fresh (by decide) _ _)
    (lengthRequest_wellFormed (by decide)) (lengthRequest_only " 5")

/-- A sign is not a digit, but the head is accepted. -/
theorem signed_length_accepted :
    ¬ LengthAnswered { name := ascii "content-length", value := ascii " +5" }
      (recvCalls 2 (createClientStruct Blocks.zeroed)
        { input := RequestText.arrivalOf (lengthRequest " +5").bytes, fs := fun _ => .empty }).verdict := by
  have taken : ∀ h ∈ (lengthRequest " +5").headers, ¬ h.Refused := by
    simp only [lengthRequest, List.mem_singleton, forall_eq, HeaderText.Refused]
    decide
  have accepted := (RequestText.Sent.fresh (by decide) Blocks.zeroed fun _ => .empty).accepted
    (lengthRequest_wellFormed (by decide)) taken
  have signed : HeaderText.plainLength { name := ascii "content-length", value := ascii " +5" } =
    none := by decide
  simp only [LengthAnswered, signed, accepted]
  exact fun other => by cases other

end Kitserv
