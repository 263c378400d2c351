import Mathlib

/-! Finite memories as lists: windows, overwriting, scanning and terminated strings.
A memory keeps its length; a store that sticks out over the end loses the part outside. -/
namespace Memory

variable {α : Type*}

def slice (m : List α) (i j : Nat) : List α := (m.drop i).take (j - i)

theorem drop_length_takeWhile (keep : α → Bool) (l : List α) :
    l.drop (l.takeWhile keep).length = l.dropWhile keep := by
  have whole := List.takeWhile_append_dropWhile (p := keep) (l := l)
  conv => lhs; rw [← whole, List.drop_left' (by rw [whole])]

def overwrite (m : List α) (off : Nat) (bs : List α) : List α :=
  (m.take off ++ bs ++ m.drop (off + bs.length)).take m.length

@[simp] theorem length_overwrite (m : List α) (off : Nat) (bs : List α) :
    (overwrite m off bs).length = m.length := by
  simp only [overwrite, List.length_take, List.length_append, List.length_drop]
  omega

theorem overwrite_eq {m bs : List α} {off : Nat} (room : off + bs.length ≤ m.length) :
    overwrite m off bs = m.take off ++ bs ++ m.drop (off + bs.length) := by
  apply List.take_of_length_le
  simp only [List.length_append, List.length_take, List.length_drop]
  omega

@[simp] theorem overwrite_nil (m : List α) (off : Nat) : overwrite m off [] = m := by
  simp [overwrite]

theorem getElem?_overwrite (m bs : List α) (off i : Nat) :
    (overwrite m off bs)[i]? =
      if off ≤ i ∧ i < off + bs.length ∧ i < m.length then bs[i - off]? else m[i]? := by
  by_cases hm : i < m.length
  · have inside : (overwrite m off bs)[i]? =
        (m.take off ++ bs ++ m.drop (off + bs.length))[i]? := by
      simp only [overwrite, List.getElem?_take, if_pos hm]
    rw [inside]
    by_cases low : i < off
    · have cut : i < (m.take off).length := by simp; omega
      rw [List.append_assoc, List.getElem?_append_left cut, List.getElem?_take, if_pos low,
        if_neg (by omega)]
    · have cut : (m.take off).length = off := by simp; omega
      rw [List.append_assoc, List.getElem?_append_right (by omega), cut]
      by_cases high : i < off + bs.length
      · rw [List.getElem?_append_left (by omega), if_pos ⟨by omega, high, hm⟩]
      · rw [List.getElem?_append_right (by omega), List.getElem?_drop, if_neg (by omega)]
        congr 1
        omega
  · rw [if_neg (by omega), List.getElem?_eq_none (by simp; omega),
      List.getElem?_eq_none (by omega)]

theorem getElem?_overwrite_of_lt (m bs : List α) {off i : Nat} (h : i < off) :
    (overwrite m off bs)[i]? = m[i]? := by
  rw [getElem?_overwrite, if_neg (by omega)]

theorem getElem?_overwrite_of_ge (m bs : List α) {off i : Nat} (h : off + bs.length ≤ i) :
    (overwrite m off bs)[i]? = m[i]? := by
  rw [getElem?_overwrite, if_neg (by omega)]

/-- A store changes nothing below its offset. -/
theorem take_overwrite_of_le (m bs : List α) {off n : Nat} (h : n ≤ off) :
    (overwrite m off bs).take n = m.take n := by
  apply List.ext_getElem?
  intro i
  simp only [List.getElem?_take]
  split
  · exact getElem?_overwrite_of_lt m bs (by omega)
  · rfl

/-- Appending at the end of the used part. -/
theorem take_overwrite_end {m bs : List α} {off : Nat} (room : off + bs.length ≤ m.length) :
    (overwrite m off bs).take (off + bs.length) = m.take off ++ bs := by
  rw [overwrite_eq room]
  apply List.take_left'
  simp only [List.length_append, List.length_take]
  omega

@[simp] theorem length_slice (m : List α) (i j : Nat) :
    (slice m i j).length = min (j - i) (m.length - i) := by
  simp [slice]

theorem getElem?_slice (m : List α) (i j k : Nat) :
    (slice m i j)[k]? = if k < j - i then m[i + k]? else none := by
  simp [slice, List.getElem?_take]

@[simp] theorem slice_self (m : List α) (i : Nat) : slice m i i = [] := by simp [slice]

theorem slice_zero (m : List α) (n : Nat) : slice m 0 n = m.take n := by simp [slice]

theorem slice_cons {m : List α} {i j : Nat} {x : α} (cell : m[i]? = some x) (more : i < j) :
    slice m i j = x :: slice m (i + 1) j := by
  obtain ⟨hi, rfl⟩ := List.getElem?_eq_some_iff.mp cell
  have count : j - i = j - (i + 1) + 1 := by omega
  rw [slice, List.drop_eq_getElem_cons hi, count, List.take_succ_cons, slice]

theorem slice_outside {m : List α} {i : Nat} (cell : m[i]? = none) (j : Nat) :
    slice m i j = [] := by
  rw [slice, List.drop_eq_nil_of_le (List.getElem?_eq_none_iff.mp cell), List.take_nil]

theorem slice_append_slice (m : List α) {i j k : Nat} (hij : i ≤ j) (hjk : j ≤ k) :
    slice m i j ++ slice m j k = slice m i k := by
  have shift : m.drop j = (m.drop i).drop (j - i) := by
    rw [List.drop_drop]; congr 1; omega
  have split : k - i = (j - i) + (k - j) := by omega
  simp only [slice, shift, split, List.take_add]

/-- A window below `n` depends only on the cells below `n`. -/
theorem slice_congr {m m' : List α} {n i j : Nat} (same : m.take n = m'.take n) (hj : j ≤ n) :
    slice m i j = slice m' i j := by
  apply List.ext_getElem?
  intro k
  rw [getElem?_slice, getElem?_slice]
  split
  · have cell := congrArg (fun l => l[i + k]?) same
    simpa only [List.getElem?_take, if_pos (show i + k < n by omega)] using cell
  · rfl

theorem take_congr_le {m m' : List α} {n k : Nat} (same : m.take n = m'.take n) (hk : k ≤ n) :
    m.take k = m'.take k := by
  simpa only [slice_zero] using slice_congr (i := 0) same hk

theorem getElem?_congr {m m' : List α} {n i : Nat} (same : m.take n = m'.take n) (hi : i < n) :
    m[i]? = m'[i]? := by
  have cell := congrArg (fun l => l[i]?) same
  simpa only [List.getElem?_take, if_pos hi] using cell

theorem drop_congr {m m' : List α} {n : Nat} (same : ∀ i, n ≤ i → m[i]? = m'[i]?) :
    m.drop n = m'.drop n := by
  apply List.ext_getElem?
  intro i
  rw [List.getElem?_drop, List.getElem?_drop, same (n + i) (Nat.le_add_right n i)]

theorem run_le {m : List α} {keep : α → Bool} {q j : Nat} {x : α} (hq : q ≤ j)
    (cell : m[j]? = some x) (stop : keep x = false) :
    q + ((m.drop q).takeWhile keep).length ≤ j := by
  obtain ⟨hj, hx⟩ := List.getElem?_eq_some_iff.mp cell
  have bound : ((m.drop q).takeWhile keep).length ≤ j - q := by
    refine Nat.le_of_not_lt fun long => ?_
    have kept := List.mem_takeWhile_imp (List.getElem_mem long)
    rw [(List.takeWhile_prefix (l := m.drop q) keep).getElem long, List.getElem_drop] at kept
    simp only [Nat.add_sub_cancel' hq, hx, stop] at kept
    cases kept
  omega

/-- The position of the first cell in [r, len) that satisfies `stop`, or `len`. -/
def scanTo (stop : α → Bool) (m : List α) (len r : Nat) : Nat :=
  r + (slice m r len).findIdx stop

section Scan

variable (stop : α → Bool) {m m' : List α} {len n r : Nat}

theorem le_scanTo : r ≤ scanTo stop m len r := Nat.le_add_right _ _

/-- The scan as a loop. -/
theorem scanTo_eq : scanTo stop m len r = if len ≤ r then r else match m[r]? with
    | none => r
    | some b => if stop b then r else scanTo stop m len (r + 1) := by
  by_cases past : len ≤ r
  · rw [if_pos past, scanTo, slice, Nat.sub_eq_zero_of_le past]
    rfl
  rw [if_neg past]
  cases cell : m[r]? with
  | none =>
    rw [scanTo, slice_outside cell]
    rfl
  | some b =>
    simp only [scanTo, slice_cons cell (Nat.lt_of_not_le past), List.findIdx_cons]
    cases stop b with
    | true => rfl
    | false =>
      simp only [cond_false, Bool.false_eq_true, if_false]
      omega

theorem scanTo_le (hr : r ≤ len) : scanTo stop m len r ≤ len := by
  have bound : (slice m r len).findIdx stop ≤ (slice m r len).length := List.findIdx_le_length
  simp only [length_slice] at bound
  unfold scanTo
  omega

theorem scanTo_congr (same : m.take len = m'.take len) :
    scanTo stop m len r = scanTo stop m' len r := by
  simp only [scanTo, slice_congr (i := r) same (Nat.le_refl len)]

theorem scanTo_extend (hr : r ≤ len) (hln : len ≤ n) (hlen : len ≤ m.length)
    (h : scanTo stop m len r < len) : scanTo stop m n r = scanTo stop m len r := by
  have inside : (slice m r len).findIdx stop < (slice m r len).length := by
    unfold scanTo at h
    simp only [length_slice]
    omega
  simp only [scanTo, ← slice_append_slice m hr hln, List.findIdx_append, if_pos inside]

theorem scanTo_resume (hr : r ≤ len) (hln : len ≤ n) (hlen : len ≤ m.length)
    (h : scanTo stop m len r = len) : scanTo stop m n r = scanTo stop m n len := by
  have outside : ¬ (slice m r len).findIdx stop < (slice m r len).length := by
    unfold scanTo at h
    simp only [length_slice]
    omega
  simp only [scanTo, ← slice_append_slice m hr hln, List.findIdx_append, if_neg outside]
  simp only [length_slice]
  omega

end Scan

section Terminated

variable (z : α) {m m' : List α} {p j n : Nat}

def TerminatedBelow (m : List α) (p n : Nat) : Prop := ∃ j, p ≤ j ∧ j < n ∧ m[j]? = some z

theorem TerminatedBelow.congr {z : α} (same : m.take n = m'.take n)
    (h : TerminatedBelow z m p n) : TerminatedBelow z m' p n := by
  obtain ⟨j, hp, hj, hz⟩ := h
  exact ⟨j, hp, hj, (getElem?_congr same hj).symm.trans hz⟩

theorem TerminatedBelow.mono {z : α} {k : Nat} (h : TerminatedBelow z m p n) (hk : n ≤ k) :
    TerminatedBelow z m p k := by
  obtain ⟨j, hp, hj, hz⟩ := h
  exact ⟨j, hp, by omega, hz⟩

theorem TerminatedBelow.inside {z : α} (h : TerminatedBelow z m p n) :
    TerminatedBelow z m p m.length := by
  obtain ⟨j, low, -, hz⟩ := h
  exact ⟨j, low, (List.getElem?_eq_some_iff.mp hz).1, hz⟩

theorem TerminatedBelow.next {z b : α} (h : TerminatedBelow z m p n) (cell : m[p]? = some b)
    (hb : b ≠ z) : TerminatedBelow z m (p + 1) n := by
  obtain ⟨j, hp, hj, hz⟩ := h
  have other : j ≠ p := by
    rintro rfl
    exact hb (Option.some.inj (cell.symm.trans hz))
  exact ⟨j, by omega, hj, hz⟩

theorem TerminatedBelow.set_of_lt {z : α} {r : Nat} (h : TerminatedBelow z m p n) (x : α)
    (hr : r < p) : TerminatedBelow z (m.set r x) p n := by
  obtain ⟨j, hp, hj, hz⟩ := h
  exact ⟨j, hp, hj, (List.getElem?_set_ne (by omega)).trans hz⟩

variable [DecidableEq α]

def cstr (m : List α) (p : Nat) : List α := (m.drop p).takeWhile fun b => b ≠ z

variable {z}

theorem cstr_eq_slice (hp : p ≤ j) (h : m[j]? = some z) :
    cstr z m p = (slice m p j).takeWhile fun b => b ≠ z := by
  have cut : m.drop p = slice m p j ++ m.drop j := by
    have shift : m.drop j = (m.drop p).drop (j - p) := by
      rw [List.drop_drop]; congr 1; omega
    rw [shift, slice, List.take_append_drop]
  obtain ⟨hj, hz⟩ := List.getElem?_eq_some_iff.mp h
  have stop : (m.drop j).takeWhile (fun b => decide (b ≠ z)) = [] := by
    rw [List.drop_eq_getElem_cons hj]
    simp [hz]
  rw [cstr, cut, List.takeWhile_append]
  split
  · rename_i whole
    rw [stop, List.append_nil]
    have initial : (slice m p j).takeWhile (fun b => decide (b ≠ z)) <+: slice m p j :=
      List.takeWhile_prefix _
    exact (initial.eq_of_length whole).symm
  · rfl

theorem cstr_congr (same : m.take n = m'.take n) (h : TerminatedBelow z m p n) :
    cstr z m p = cstr z m' p := by
  obtain ⟨j, hp, hj, hz⟩ := h
  rw [cstr_eq_slice hp hz, cstr_eq_slice hp ((getElem?_congr same hj).symm.trans hz),
    slice_congr same (Nat.le_of_lt hj)]

/-- The first terminator is where the string ends. -/
theorem TerminatedBelow.length_lt (h : TerminatedBelow z m p n) :
    p + (cstr z m p).length < n := by
  obtain ⟨j, hp, hj, hz⟩ := h
  have initial : (slice m p j).takeWhile (fun b => decide (b ≠ z)) <+: slice m p j :=
    List.takeWhile_prefix _
  have bound := initial.length_le
  rw [cstr_eq_slice hp hz]
  simp only [length_slice] at bound
  omega

end Terminated

section Append

/-! A memory with a tail: what happens inside the front part does not depend on the tail. -/

variable {v : List α} (t : List α) {i j r n : Nat}

theorem slice_append_left (hj : j ≤ v.length) : slice (v ++ t) i j = slice v i j :=
  slice_congr (n := v.length) (by simp) hj

theorem overwrite_append_left (bs : List α) (h : i + bs.length ≤ v.length) :
    overwrite (v ++ t) i bs = overwrite v i bs ++ t := by
  rw [overwrite_eq h, overwrite_eq (by simp only [List.length_append]; omega),
    List.take_append_of_le_length (by omega), List.drop_append_of_le_length h]
  simp only [List.append_assoc]

theorem scanTo_append_of_lt (stop : α → Bool) (hr : r ≤ v.length) (hn : v.length ≤ n)
    (h : scanTo stop v v.length r < v.length) :
    scanTo stop (v ++ t) n r = scanTo stop v v.length r := by
  have front : scanTo stop (v ++ t) v.length r = scanTo stop v v.length r :=
    scanTo_congr stop (by simp)
  rw [scanTo_extend stop hr hn (by simp) (front ▸ h), front]

theorem scanTo_append_of_ge (stop : α → Bool) (hr : r ≤ v.length) (hn : v.length ≤ n)
    (h : v.length ≤ scanTo stop v v.length r) :
    scanTo stop (v ++ t) n r = scanTo stop (v ++ t) n v.length := by
  have front : scanTo stop (v ++ t) v.length r = scanTo stop v v.length r :=
    scanTo_congr stop (by simp)
  have whole := scanTo_le stop (m := v) hr
  exact scanTo_resume stop hr hn (by simp) (by omega)

variable [DecidableEq α] {z : α}

theorem cstr_append_left (h : TerminatedBelow z v i v.length) :
    cstr z (v ++ t) i = cstr z v i :=
  (cstr_congr (n := v.length) (by simp) h).symm

end Append

end Memory
