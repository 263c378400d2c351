import Kitserv.Text

namespace Kitserv

open Memory

def escapeAt (mem : Bytes) (s : Nat) : Option Byte :=
  if mem[s]? = some 37 then
    (mem[s + 1]?.bind hexValue).bind fun high =>
      (mem[s + 2]?.bind hexValue).map fun low => 16 * high + low
  else none

/-- The loop of `url_decode` with its source cursor `s` and result cursor `r`. -/
def urlDecodeLoop (mem : Bytes) (s r : Nat) : Bytes :=
  if h : s < mem.length then
    if mem[s] = 0 then mem.set r 0
    else match escapeAt mem s with
      | some x => urlDecodeLoop (mem.set r x) (s + 3) (r + 1)
      | none => urlDecodeLoop (mem.set r mem[s]) (s + 1) (r + 1)
  else mem.set r 0
termination_by mem.length - s
decreasing_by all_goals simp only [List.length_set]; omega

def urlDecode (mem : Bytes) (str : Nat) : Bytes := urlDecodeLoop mem str str

def escape : Bytes → Option Byte
  | b :: h :: l :: _ =>
    if b = 37 then (hexValue h).bind fun high => (hexValue l).map fun low => 16 * high + low
    else none
  | _ => none

/-- Percent decoding in one pass from left to right. -/
def percentDecode : Bytes → Bytes
  | [] => []
  | b :: rest =>
    match escape (b :: rest) with
    | some x => x :: percentDecode (rest.drop 2)
    | none => b :: percentDecode rest
termination_by str => str.length

theorem length_percentDecode_le (str : Bytes) : (percentDecode str).length ≤ str.length := by
  fun_induction percentDecode str with
  | case1 => exact Nat.le_refl _
  | case2 b rest x _ ih =>
    simp only [List.length_drop] at ih
    simp only [List.length_cons]
    omega
  | case3 b rest _ ih =>
    simp only [List.length_cons]
    omega

theorem hexValue_zero : hexValue 0 = none := by decide

theorem cString_nil {mem : Bytes} {s : Nat} (h : mem[s]? = some 0) : cString mem s = [] := by
  rw [cString, cstr_eq_slice (Nat.le_refl s) h, slice_self]
  rfl

theorem cString_cons {mem : Bytes} {s : Nat} {b : Byte} (h : mem[s]? = some b) (hb : b ≠ 0) :
    cString mem s = b :: cString mem (s + 1) := by
  obtain ⟨hs, hv⟩ := List.getElem?_eq_some_iff.mp h
  simp only [cString, cstr, List.drop_eq_getElem_cons hs, hv]
  exact List.takeWhile_cons_of_pos (by simpa using hb)

theorem cString_end {mem : Bytes} {s : Nat} (h : mem[s]? = none) : cString mem s = [] := by
  simp only [cString, cstr, List.drop_eq_nil_of_le (List.getElem?_eq_none_iff.mp h),
    List.takeWhile_nil]

theorem escapeAt_eq (mem : Bytes) (s : Nat) : escapeAt mem s = escape (cString mem s) := by
  cases first : mem[s]? with
  | none => simp [escapeAt, first, cString_end first, escape]
  | some b =>
    by_cases hb : b = 0
    · subst hb
      simp [escapeAt, first, cString_nil first, escape]
    rw [cString_cons first hb]
    cases second : mem[s + 1]? with
    | none => simp [escapeAt, second, cString_end second, escape]
    | some h =>
      by_cases hh : h = 0
      · subst hh
        simp [escapeAt, second, cString_nil second, escape, hexValue_zero]
      rw [cString_cons second hh]
      cases third : mem[s + 1 + 1]? with
      | none => simp [escapeAt, third, cString_end third, escape]
      | some l =>
        by_cases hl : l = 0
        · subst hl
          simp [escapeAt, third, cString_nil third, escape, hexValue_zero]
        rw [cString_cons third hl]
        simp [escapeAt, first, second, third, escape]

theorem ne_zero_of_hexValue {b v : Byte} (h : hexValue b = some v) : b ≠ 0 := by
  rintro rfl
  cases hexValue_zero.symm.trans h

theorem escapeAt_some {mem : Bytes} {s : Nat} {x : Byte} (h : escapeAt mem s = some x) :
    ∃ high low, mem[s]? = some 37 ∧ (mem[s + 1]? = some high ∧ high ≠ 0) ∧
      (mem[s + 2]? = some low ∧ low ≠ 0) := by
  unfold escapeAt at h
  split at h
  · rename_i first
    obtain ⟨high, hhigh, h⟩ := Option.bind_eq_some_iff.mp h
    obtain ⟨b₁, second, hb₁⟩ := Option.bind_eq_some_iff.mp hhigh
    obtain ⟨low, hlow, -⟩ := Option.map_eq_some_iff.mp h
    obtain ⟨b₂, third, hb₂⟩ := Option.bind_eq_some_iff.mp hlow
    exact ⟨b₁, b₂, first, ⟨second, ne_zero_of_hexValue hb₁⟩, third, ne_zero_of_hexValue hb₂⟩
  · cases h

theorem overwrite_cons {mem : Bytes} {r : Nat} (x : Byte) (bs : Bytes) (hr : r < mem.length) :
    overwrite (mem.set r x) (r + 1) bs = overwrite mem r (x :: bs) := by
  apply List.ext_getElem?
  intro i
  simp only [getElem?_overwrite, List.length_set, List.length_cons, List.getElem?_set]
  by_cases hi : r = i
  · subst hi
    have past : ¬ (r + 1 ≤ r ∧ r < r + 1 + bs.length ∧ r < mem.length) := by omega
    rw [if_neg past]
    simp [hr]
  · by_cases inside : r + 1 ≤ i ∧ i < r + 1 + bs.length ∧ i < mem.length
    · have tail : i - r = (i - (r + 1)) + 1 := by omega
      rw [if_pos inside, if_pos (by omega), tail, List.getElem?_cons_succ]
    · rw [if_neg inside, if_neg hi, if_neg (by omega)]

theorem cString_set_of_lt {mem : Bytes} {r s : Nat} (x : Byte) (h : r < s) :
    cString (mem.set r x) s = cString mem s := by
  simp only [cString, cstr, List.drop_set_of_lt h]

theorem urlDecodeLoop_eq (mem : Bytes) (s r : Nat) (chase : r ≤ s)
    (ends : TerminatedBelow (0 : Byte) mem s mem.length) :
    urlDecodeLoop mem s r = overwrite mem r (percentDecode (cString mem s) ++ [0]) := by
  fun_induction urlDecodeLoop mem s r with
  | case1 mem s r h zero =>
    rw [cString_nil (List.getElem?_eq_some_iff.mpr ⟨h, zero⟩), percentDecode, List.nil_append,
      ← overwrite_cons 0 [] (by omega), overwrite_nil]
  | case2 mem s r h nonzero x hx ih =>
    obtain ⟨high, low, first, ⟨second, hhigh⟩, third, hlow⟩ := escapeAt_some hx
    have ends₃ : TerminatedBelow (0 : Byte) mem (s + 3) mem.length :=
      ((ends.next first (by decide)).next second hhigh).next third hlow
    have str : cString mem s = 37 :: high :: low :: cString mem (s + 3) := by
      rw [cString_cons first (by decide), cString_cons second hhigh, cString_cons third hlow]
    have decoded : percentDecode (cString mem s) = x :: percentDecode (cString mem (s + 3)) := by
      rw [escapeAt_eq, str] at hx
      rw [str, percentDecode, hx]
      rfl
    rw [ih (by omega) (by simpa using ends₃.set_of_lt x (by omega)),
      cString_set_of_lt x (by omega), overwrite_cons _ _ (by omega), decoded, List.cons_append]
  | case3 mem s r h nonzero hx ih =>
    have first : mem[s]? = some mem[s] := List.getElem?_eq_getElem h
    have ends₁ := ends.next first nonzero
    have str := cString_cons first nonzero
    have decoded : percentDecode (cString mem s) = mem[s] :: percentDecode (cString mem (s + 1)) := by
      rw [escapeAt_eq, str] at hx
      rw [str, percentDecode, hx]
    rw [ih (by omega) (by simpa using ends₁.set_of_lt _ (by omega)),
      cString_set_of_lt _ (by omega), overwrite_cons _ _ (by omega), decoded, List.cons_append]
  | case4 mem s r h =>
    obtain ⟨j, hp, hj, -⟩ := ends
    omega

/-- In-place decoding overwrites the string with its percent decoding. -/
theorem urlDecode_eq {mem : Bytes} {str : Nat}
    (ends : TerminatedBelow (0 : Byte) mem str mem.length) :
    urlDecode mem str = overwrite mem str (percentDecode (cString mem str) ++ [0]) :=
  urlDecodeLoop_eq mem str str (Nat.le_refl str) ends

@[simp] theorem length_urlDecodeLoop (mem : Bytes) (s r : Nat) :
    (urlDecodeLoop mem s r).length = mem.length := by
  fun_induction urlDecodeLoop mem s r with
  | case1 => exact List.length_set
  | case2 mem s r h nonzero x hx ih => rw [ih, List.length_set]
  | case3 mem s r h nonzero hx ih => rw [ih, List.length_set]
  | case4 => exact List.length_set

@[simp] theorem length_urlDecode (mem : Bytes) (s : Nat) : (urlDecode mem s).length = mem.length :=
  length_urlDecodeLoop mem s s

section Decoded

variable {mem : Bytes} {s n i : Nat}

theorem decoded_fits (ends : TerminatedBelow (0 : Byte) mem s n) :
    s + (percentDecode (cString mem s)).length < n := by
  have short := length_percentDecode_le (cString mem s)
  have inside := ends.length_lt
  simp only [cString] at short ⊢
  omega

/-- Decoding leaves a terminated string. -/
theorem terminated_urlDecode (ends : TerminatedBelow (0 : Byte) mem s n) (hn : n ≤ mem.length) :
    TerminatedBelow (0 : Byte) (urlDecode mem s) s n := by
  have inside := decoded_fits ends
  refine ⟨s + (percentDecode (cString mem s)).length, Nat.le_add_right _ _, inside, ?_⟩
  rw [urlDecode_eq (ends.mono hn), getElem?_overwrite, if_pos]
  · simp
  · simp only [List.length_append, List.length_singleton]
    omega

theorem getElem?_urlDecode_of_lt (ends : TerminatedBelow (0 : Byte) mem s mem.length)
    (h : i < s) : (urlDecode mem s)[i]? = mem[i]? := by
  rw [urlDecode_eq ends, getElem?_overwrite_of_lt _ _ h]

/-- Decoding changes nothing behind the end of its string. -/
theorem getElem?_urlDecode_of_ge (ends : TerminatedBelow (0 : Byte) mem s n) (hn : n ≤ mem.length)
    (h : n ≤ i) : (urlDecode mem s)[i]? = mem[i]? := by
  have inside := decoded_fits ends
  rw [urlDecode_eq (ends.mono hn), getElem?_overwrite_of_ge _ _ (by
    simp only [List.length_append, List.length_singleton]
    omega)]

theorem cString_urlDecode (ends : TerminatedBelow (0 : Byte) mem s mem.length) :
    cString (urlDecode mem s) s = (percentDecode (cString mem s)).takeWhile fun b => b ≠ 0 := by
  have inside := decoded_fits ends
  have stop : (urlDecode mem s)[s + (percentDecode (cString mem s)).length]? = some 0 := by
    rw [urlDecode_eq ends, getElem?_overwrite, if_pos]
    · simp
    · simp only [List.length_append, List.length_singleton]
      omega
  have window : slice (urlDecode mem s) s (s + (percentDecode (cString mem s)).length) =
      percentDecode (cString mem s) := by
    apply List.ext_getElem?
    intro i
    rw [getElem?_slice]
    split
    · rename_i hi
      rw [urlDecode_eq ends, getElem?_overwrite, if_pos]
      · simp only [Nat.add_sub_cancel_left]
        exact List.getElem?_append_left (by omega)
      · simp only [List.length_append, List.length_singleton]
        omega
    · rename_i hi
      exact (List.getElem?_eq_none (by omega)).symm
  rw [cString, cstr_eq_slice (Nat.le_add_right _ _) stop, window]

end Decoded

end Kitserv
