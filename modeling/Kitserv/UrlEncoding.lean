import Kitserv.UrlDecode

namespace Kitserv

open Memory

/-- `PercentEncoding literal e s`: `e` writes each byte of `s` as it is, if it is `literal`, or
as a '%' and two hexadecimal digits of either case. -/
inductive PercentEncoding (literal : Byte → Prop) : Bytes → Bytes → Prop
  | nil : PercentEncoding literal [] []
  | plain {b : Byte} {e s : Bytes} (as_is : literal b) (rest : PercentEncoding literal e s) :
      PercentEncoding literal (b :: e) (b :: s)
  | escaped {h l high low : Byte} {e s : Bytes} (first : hexValue h = some high)
      (second : hexValue l = some low) (rest : PercentEncoding literal e s) :
      PercentEncoding literal (37 :: h :: l :: e) ((16 * high + low) :: s)

variable {literal : Byte → Prop}

theorem percentDecode_plain {b : Byte} (other : b ≠ 37) (rest : Bytes) :
    percentDecode (b :: rest) = b :: percentDecode rest := by
  have none : escape (b :: rest) = none := by
    unfold escape
    split
    · rename_i same
      cases same
      rw [if_neg other]
    · rfl
  rw [percentDecode, none]

theorem percentDecode_escaped {h l high low : Byte} (first : hexValue h = some high)
    (second : hexValue l = some low) (rest : Bytes) :
    percentDecode (37 :: h :: l :: rest) = (16 * high + low) :: percentDecode rest := by
  have found : escape (37 :: h :: l :: rest) = some (16 * high + low) := by
    simp [escape, first, second]
  rw [percentDecode, found]
  rfl

/-- Decoding undoes every encoding that escapes at least '%'. -/
theorem PercentEncoding.decode {e s : Bytes} (encoding : PercentEncoding literal e s)
    (escapes : ¬ literal 37) : percentDecode e = s := by
  induction encoding with
  | nil => simp [percentDecode]
  | plain as_is _ ih =>
    rw [percentDecode_plain ?_ _, ih]
    rintro rfl
    exact escapes as_is
  | escaped first second _ ih => rw [percentDecode_escaped first second, ih]

theorem percentDecode_of_plain {e : Bytes} (plain : 37 ∉ e) : percentDecode e = e := by
  induction e with
  | nil => simp [percentDecode]
  | cons b rest ih =>
    simp only [List.mem_cons, not_or] at plain
    rw [percentDecode_plain (fun same => plain.1 same.symm), ih plain.2]

theorem takeWhile_plain {s : Bytes} (plain : 0 ∉ s) : s.takeWhile (fun b => b ≠ 0) = s := by
  apply List.takeWhile_eq_self_iff.mpr
  intro b member
  simpa using fun zero : b = 0 => plain (zero ▸ member)

inductive Access where
  | read (offset : Nat)
  | write (offset : Nat)
  deriving DecidableEq, Repr

def Access.offset : Access → Nat
  | read offset | write offset => offset

def conditionReads (mem : Bytes) (s : Nat) : List Access :=
  if mem[s]? = some 37 then
    if (mem[s + 1]?.bind hexValue).isSome then [.read s, .read (s + 1), .read (s + 2)]
    else [.read s, .read (s + 1)]
  else [.read s]

def sscanfReads (mem : Bytes) (s : Nat) : List Access :=
  (List.range' s ((cString mem s).length + 1)).map .read

/-- The loop of `url_decode` once more, with the list of its accesses. -/
def urlDecodeLogged (mem : Bytes) (s r : Nat) (log : List Access) : Bytes × List Access :=
  if h : s < mem.length then
    let log := log ++ [.read s]
    if mem[s] = 0 then (mem.set r 0, log ++ [.write r])
    else
      let log := log ++ conditionReads mem s
      match escapeAt mem s with
      | some x => urlDecodeLogged (mem.set r x) (s + 3) (r + 1)
          (log ++ sscanfReads mem (s + 1) ++ [.write r])
      | none => urlDecodeLogged (mem.set r mem[s]) (s + 1) (r + 1) (log ++ [.read s, .write r])
  else (mem.set r 0, log ++ [.read s, .write r])
termination_by mem.length - s
decreasing_by all_goals simp only [List.length_set]; omega

theorem urlDecodeLogged_mem (mem : Bytes) (s r : Nat) (log : List Access) :
    (urlDecodeLogged mem s r log).1 = urlDecodeLoop mem s r := by
  fun_induction urlDecodeLogged mem s r log with
  | case1 mem s r log h log' zero => rw [urlDecodeLoop, dif_pos h, if_pos zero]
  | case2 mem s r log h log' nonzero log'' x found ih =>
    rw [urlDecodeLoop, dif_pos h, if_neg nonzero, found]
    exact ih
  | case3 mem s r log h log' nonzero log'' found ih =>
    rw [urlDecodeLoop, dif_pos h, if_neg nonzero, found]
    exact ih
  | case4 mem s r log h => rw [urlDecodeLoop, dif_neg h]

def Within (first last : Nat) (log : List Access) : Prop :=
  ∀ a ∈ log, first ≤ a.offset ∧ a.offset ≤ last

variable {mem : Bytes} {s r first last : Nat} {log log' : List Access}

theorem Within.append (h : Within first last log) (h' : Within first last log') :
    Within first last (log ++ log') := by
  intro a member
  rcases List.mem_append.mp member with old | new
  · exact h a old
  · exact h' a new

theorem Within.read (above : first ≤ s) (below : s ≤ last) : Within first last [.read s] := by
  simp only [Within, List.mem_singleton, forall_eq, Access.offset]
  exact ⟨above, below⟩

theorem Within.write (above : first ≤ r) (below : r ≤ last) : Within first last [.write r] := by
  simp only [Within, List.mem_singleton, forall_eq, Access.offset]
  exact ⟨above, below⟩

theorem ends_next {b : Byte} (found : mem[s]? = some b) (nonzero : b ≠ 0)
    (ends : s + (cString mem s).length = last) : s + 1 + (cString mem (s + 1)).length = last := by
  rw [cString_cons found nonzero, List.length_cons] at ends
  omega

theorem within_conditionReads (above : first ≤ s) (ends : s + (cString mem s).length = last) :
    Within first last (conditionReads mem s) := by
  have here := Within.read above (show s ≤ last by omega)
  unfold conditionReads
  split
  · rename_i percent
    have next := ends_next percent (by decide) ends
    have second := Within.read (show first ≤ s + 1 by omega) (show s + 1 ≤ last by omega)
    split
    · rename_i digit
      obtain ⟨v, hv⟩ := Option.isSome_iff_exists.mp digit
      obtain ⟨b, found, value⟩ := Option.bind_eq_some_iff.mp hv
      have after := ends_next found (ne_zero_of_hexValue value) next
      exact here.append (second.append (Within.read (by omega) (show s + 2 ≤ last by omega)))
    · exact here.append second
  · exact here

theorem within_sscanfReads (above : first ≤ s) (ends : s + (cString mem s).length = last) :
    Within first last (sscanfReads mem s) := by
  intro a member
  obtain ⟨i, inside, rfl⟩ := List.mem_map.mp member
  have bounds := List.mem_range'_1.mp inside
  simp only [Access.offset]
  omega

/-- The result cursor chases the source cursor, and that one stops at the terminator. -/
theorem within_urlDecodeLogged (mem : Bytes) (s r : Nat) (log : List Access) (chase : r ≤ s)
    (above : first ≤ r) (ends : s + (cString mem s).length = last)
    (stops : TerminatedBelow (0 : Byte) mem s mem.length) (before : Within first last log) :
    Within first last (urlDecodeLogged mem s r log).2 := by
  have write : Within first last [.write r] := Within.write above (by omega)
  have read : Within first last [.read s] := Within.read (by omega) (by omega)
  have condition := within_conditionReads (show first ≤ s by omega) ends
  fun_induction urlDecodeLogged mem s r log with
  | case1 => exact (before.append read).append write
  | case2 mem s r log h log₁ nonzero log₂ x found ih =>
    obtain ⟨high, low, percent, ⟨second, hhigh⟩, third, hlow⟩ := escapeAt_some found
    have ends₁ := ends_next percent (by decide) ends
    have ends₃ := ends_next third hlow (ends_next second hhigh ends₁)
    have stops₃ : TerminatedBelow (0 : Byte) mem (s + 3) mem.length :=
      ((stops.next percent (by decide)).next second hhigh).next third hlow
    have scanned := within_sscanfReads (show first ≤ s + 1 by omega) ends₁
    have kept : s + 3 + (cString (mem.set r x) (s + 3)).length = last := by
      rw [cString_set_of_lt x (by omega)]
      exact ends₃
    apply ih (by omega) (by omega) kept (by simpa using stops₃.set_of_lt x (by omega))
    · exact (((before.append read).append condition).append scanned).append write
    · exact Within.write (by omega) (by omega)
    · exact Within.read (by omega) (by omega)
    · exact within_conditionReads (by omega) kept
  | case3 mem s r log h log₁ nonzero log₂ found ih =>
    have here : mem[s]? = some mem[s] := List.getElem?_eq_getElem h
    have kept : s + 1 + (cString (mem.set r mem[s]) (s + 1)).length = last := by
      rw [cString_set_of_lt _ (by omega)]
      exact ends_next here nonzero ends
    apply ih (by omega) (by omega) kept
      (by simpa using (stops.next here nonzero).set_of_lt _ (by omega))
    · exact ((before.append read).append condition).append (read.append write)
    · exact Within.write (by omega) (by omega)
    · exact Within.read (by omega) (by omega)
    · exact within_conditionReads (by omega) kept
  | case4 mem s r log h =>
    obtain ⟨j, le, lt, -⟩ := stops
    omega

theorem terminator_cString (ends : TerminatedBelow (0 : Byte) mem s mem.length) :
    TerminatedBelow (0 : Byte) mem s (s + (cString mem s).length + 1) := by
  obtain ⟨rest, stored⟩ := (TextAt.of_terminated ends).stored
  refine ⟨s + (cString mem s).length, by omega, by omega, ?_⟩
  rw [← List.getElem?_drop, stored]
  simp

/-- `url_decode` on a string that a NUL ends: the single-pass decoder in place, between the start
of the string and its terminator. -/
theorem url_decode_exact {mem : Bytes} {str : Nat}
    (ends : TerminatedBelow (0 : Byte) mem str mem.length) :
    cString (urlDecode mem str) str =
        (percentDecode (cString mem str)).takeWhile (fun b => b ≠ 0) ∧
      (urlDecodeLogged mem str str []).1 = urlDecode mem str ∧
      Within str (str + (cString mem str).length) (urlDecodeLogged mem str str []).2 ∧
      (∀ i, i < str ∨ str + (cString mem str).length < i → (urlDecode mem str)[i]? = mem[i]?) ∧
      ∀ s, 0 ∉ s → PercentEncoding (fun b => b ≠ 37) (cString mem str) s →
        cString (urlDecode mem str) str = s := by
  have result := cString_urlDecode ends
  refine ⟨result, urlDecodeLogged_mem mem str str [], ?_, ?_, ?_⟩
  · apply within_urlDecodeLogged mem str str [] (Nat.le_refl _) (Nat.le_refl _) rfl ends
    intro a none
    cases none
  · rintro i (before | behind)
    · exact getElem?_urlDecode_of_lt ends before
    · have room := ends.length_lt
      exact getElem?_urlDecode_of_ge (terminator_cString ends) (by simp only [cString]; omega)
        (by omega)
  · intro s plain encoding
    rw [result, encoding.decode (by simp), takeWhile_plain plain]

theorem url_decode_exact_nested : cString (urlDecode (ascii "/%2525%" ++ [0]) 0) 0 =
    (percentDecode (cString (ascii "/%2525%" ++ [0]) 0)).takeWhile (fun b => b ≠ 0) :=
  (url_decode_exact ⟨7, by decide⟩).1

end Kitserv
