import Kitserv.Types
import Kitserv.Basis.Memory

namespace Kitserv

open Memory

abbrev cString (mem : Bytes) (p : Nat) : Bytes := cstr (0 : Byte) mem p

def isprint (b : Byte) : Bool := 0x20 ≤ b && b ≤ 0x7e

def isdigit (b : Byte) : Bool := 48 ≤ b && b ≤ 57

def isspace (b : Byte) : Bool := b == 32 || (9 ≤ b && b ≤ 13)

def hexValue (b : Byte) : Option Byte :=
  if isdigit b then some (b - 48)
  else if 65 ≤ b && b ≤ 70 then some (b - 55)
  else if 97 ≤ b && b ≤ 102 then some (b - 87)
  else none

def tolower (b : Byte) : Byte := if 65 ≤ b && b ≤ 90 then b + 32 else b

def sameNoCase (s t : Bytes) : Bool := s.map tolower == t.map tolower

def bufscmp (mem : Bytes) (p : Nat) (target : String) : Bool :=
  slice mem p (p + (ascii target).length) == ascii target

/-- strchr for a byte other than NUL. -/
def strchr (mem : Bytes) (p : Nat) (ch : Byte) : Option Nat :=
  let s := cString mem p
  if ch ∈ s then some (p + s.idxOf ch) else none

theorem strchr_some {mem : Bytes} {p s : Nat} {ch : Byte} (h : strchr mem p ch = some s) :
    p ≤ s ∧ s < p + (cString mem p).length := by
  simp only [strchr] at h
  split at h
  · rename_i found
    cases h
    have := List.idxOf_lt_length_of_mem found
    omega
  · cases h

theorem strchr_lt {mem : Bytes} {p s : Nat} {ch : Byte} (h : strchr mem p ch = some s) :
    s < mem.length := by
  have bound : (cString mem p).length ≤ mem.length - p := by
    rw [← List.length_drop]
    exact List.Sublist.length_le (List.takeWhile_sublist _)
  have := strchr_some h
  omega

def strstr (hay needle : Bytes) : Option Nat :=
  (List.range (hay.length + 1)).find? fun i => needle.isPrefixOf (hay.drop i)

theorem strstr_some {hay needle : Bytes} {i : Nat} (h : strstr hay needle = some i) :
    i + needle.length ≤ hay.length := by
  have found := List.find?_some h
  have bound := List.mem_range.mp (List.mem_of_find?_eq_some h)
  have length := (List.isPrefixOf_iff_prefix.mp found).length_le
  rw [List.length_drop] at length
  omega

def digitsValue (ds : Bytes) : Nat := ds.foldl (fun n d => 10 * n + (d.toNat - 48)) 0

def llongMax : Int := 2 ^ 63 - 1
def llongMin : Int := -2 ^ 63

structure Strtoll where
  value : Int
  rest : Bytes
  erange : Bool
  deriving DecidableEq, Repr

/-- strtoll in base 10: white space, a sign, digits; without digits nothing is consumed. -/
def strtoll (str : Bytes) : Strtoll :=
  let s := str.dropWhile isspace
  let negative := s.head? == some 45
  let s := if negative || s.head? == some 43 then s.tail else s
  let digits := s.takeWhile isdigit
  if digits = [] then { value := 0, rest := str, erange := false }
  else
    let value : Int := if negative then -digitsValue digits else digitsValue digits
    let rest := s.dropWhile isdigit
    if value > llongMax then { value := llongMax, rest := rest, erange := true }
    else if value < llongMin then { value := llongMin, rest := rest, erange := true }
    else { value := value, rest := rest, erange := false }

/-- `strtonum`: the number it stores, and whether it reports success. -/
def strtonum (str : Bytes) : Int × Bool :=
  let r := strtoll str
  (r.value, !r.erange && r.rest.isEmpty)

def decimal (n : Int) : Bytes := ascii (toString n)

structure TextAt (mem : Bytes) (path : Nat) (text : Bytes) : Prop where
  plain : 0 ∉ text
  stored : ∃ rest, mem.drop path = text ++ 0 :: rest

namespace TextAt

variable {mem : Bytes} {path : Nat} {text : Bytes}

theorem of_terminated {n : Nat} (h : TerminatedBelow (0 : Byte) mem path n) :
    TextAt mem path (cString mem path) := by
  obtain ⟨j, le, -, nul⟩ := h
  obtain ⟨hj, zero⟩ := List.getElem?_eq_some_iff.mp nul
  have member : (0 : Byte) ∈ mem.drop path := by
    refine List.mem_iff_getElem?.mpr ⟨j - path, ?_⟩
    rw [List.getElem?_drop, Nat.add_sub_cancel' le, nul]
  refine ⟨fun inside => ?_, ?_⟩
  · have kept := List.mem_takeWhile_imp inside
    simp at kept
  · have split := List.takeWhile_append_dropWhile (p := fun b : Byte => decide (b ≠ 0))
      (l := mem.drop path)
    cases behind : (mem.drop path).dropWhile fun b => decide (b ≠ 0) with
    | nil =>
      have all := List.dropWhile_eq_nil_iff.mp behind 0 member
      simp at all
    | cons b rest =>
      have stop := List.head_dropWhile_not (fun b : Byte => decide (b ≠ 0))
        (by rw [behind]; exact List.cons_ne_nil _ _)
      simp only [behind, List.head_cons] at stop
      have zero : b = 0 := by simpa using stop
      rw [behind, zero] at split
      exact ⟨rest, split.symm⟩

theorem takeWhile (h : TextAt mem path text) (keep : Byte → Bool) (nul : keep 0 = false) :
    (mem.drop path).takeWhile keep = text.takeWhile keep := by
  obtain ⟨rest, stored⟩ := h.stored
  rw [stored, List.takeWhile_append]
  split
  · rename_i whole
    rw [List.takeWhile_cons_of_neg (by simp [nul]), List.append_nil]
    exact ((List.takeWhile_prefix keep).eq_of_length whole).symm
  · rfl

theorem drop (h : TextAt mem path text) {n : Nat} (le : n ≤ text.length) :
    TextAt mem (path + n) (text.drop n) := by
  obtain ⟨rest, stored⟩ := h.stored
  refine ⟨fun member => h.plain (List.mem_of_mem_drop member), rest, ?_⟩
  rw [← List.drop_drop, stored, List.drop_append_of_le_length le]

theorem next (h : TextAt mem path text) {n : Nat} (lt : n + 1 ≤ text.length) :
    TextAt mem (path + n + 1) (text.drop (n + 1)) := h.drop lt

theorem first (h : TextAt mem path text) : (mem[path]?).getD 0 = text.headD 0 := by
  obtain ⟨rest, stored⟩ := h.stored
  have cell : mem[path]? = (mem.drop path)[0]? := by simp
  rw [cell, stored]
  cases text <;> rfl

theorem reads (h : TextAt mem path text) : cString mem path = text := by
  have found := h.takeWhile (fun b => decide (b ≠ 0)) (by simp)
  rw [cString, cstr, found]
  refine List.takeWhile_eq_self_iff.mpr fun b member => ?_
  have other : b ≠ 0 := fun zero => h.plain (zero ▸ member)
  exact decide_eq_true other

theorem strchr (h : TextAt mem path text) (ch : Byte) :
    strchr mem path ch = if ch ∈ text then some (path + text.idxOf ch) else none := by
  rw [Kitserv.strchr, h.reads]

theorem cut (h : TextAt mem path text) {n : Nat} (lt : n < text.length) :
    TextAt (mem.set (path + n) 0) path (text.take n) := by
  obtain ⟨rest, stored⟩ := h.stored
  refine ⟨fun member => h.plain (List.mem_of_mem_take member), text.drop (n + 1) ++ 0 :: rest, ?_⟩
  rw [List.drop_set, if_neg (by omega), Nat.add_sub_cancel_left, stored, List.set_append_left _ _ lt,
    List.set_eq_take_append_cons_drop, if_pos lt, List.append_assoc]
  rfl

/-- A byte in front of a text. -/
theorem set_before (h : TextAt mem path text) {n : Nat} (lt : n < path) (b : Byte) :
    TextAt (mem.set n b) path text := by
  obtain ⟨rest, stored⟩ := h.stored
  exact ⟨h.plain, rest, by rw [List.drop_set_of_lt lt, stored]⟩

end TextAt

end Kitserv
