import Kitserv.Text

namespace Kitserv

def digitCode (ch : Char) : Byte := UInt8.ofNat ch.toNat

theorem decimal_ofNat (n : Nat) : decimal n = (Nat.toDigits 10 n).map digitCode := by
  change (Nat.repr n).toList.map digitCode = _
  rw [Nat.toList_repr]

theorem decimal_negSucc (n : Nat) :
    decimal (Int.negSucc n) = 45 :: (Nat.toDigits 10 (n + 1)).map digitCode := by
  change (("-" ++ Nat.repr (n + 1)).toList).map digitCode = _
  rw [String.toList_append, Nat.toList_repr]
  rfl

theorem digitCode_range {ch : Char} (h : ch.isDigit) :
    48 ≤ ch.toNat ∧ ch.toNat ≤ 57 := by
  simp only [Char.isDigit, ge_iff_le, Bool.and_eq_true, decide_eq_true_eq] at h
  exact ⟨h.1, h.2⟩

theorem digitCode_injective {ch ch' : Char} (h : ch.isDigit) (h' : ch'.isDigit)
    (same : digitCode ch = digitCode ch') : ch = ch' := by
  have l := digitCode_range h
  have l' := digitCode_range h'
  have same := congrArg UInt8.toNat same
  simp only [digitCode, UInt8.toNat_ofNat'] at same
  rw [Nat.mod_eq_of_lt (by omega), Nat.mod_eq_of_lt (by omega)] at same
  exact Char.toNat_inj.mp same

theorem map_digitCode_injective {s t : List Char} (hs : ∀ ch ∈ s, ch.isDigit)
    (ht : ∀ ch ∈ t, ch.isDigit) (same : s.map digitCode = t.map digitCode) : s = t := by
  induction s generalizing t with
  | nil => exact (List.map_eq_nil_iff.mp same.symm).symm
  | cons ch s ih =>
    cases t with
    | nil => cases same
    | cons ch' t =>
      simp only [List.map_cons, List.cons.injEq] at same
      simp only [List.mem_cons, forall_eq_or_imp] at hs ht
      rw [digitCode_injective hs.1 ht.1 same.1, ih hs.2 ht.2 same.2]

theorem toDigits_digitCode_injective {m n : Nat}
    (same : (Nat.toDigits 10 m).map digitCode = (Nat.toDigits 10 n).map digitCode) : m = n := by
  have digits (n : Nat) : ∀ ch ∈ Nat.toDigits 10 n, ch.isDigit :=
    fun ch h => Nat.isDigit_of_mem_toDigits (by decide) (by decide) h
  have same := map_digitCode_injective (digits m) (digits n) same
  rw [← @Nat.ofDigitChars_ten_toDigits m, same, Nat.ofDigitChars_ten_toDigits]

theorem digits_ne_minus {n : Nat} {bs : Bytes} : (Nat.toDigits 10 n).map digitCode ≠ 45 :: bs := by
  intro same
  cases digits : Nat.toDigits 10 n with
  | nil => exact Nat.toDigits_ne_nil digits
  | cons ch rest =>
    have isDigit : ch.isDigit := Nat.isDigit_of_mem_toDigits (n := n) (b := 10) (by decide) (by decide)
      (by simp [digits])
    have l := digitCode_range isDigit
    rw [digits] at same
    simp only [List.map_cons, List.cons.injEq] at same
    have code := congrArg UInt8.toNat same.1
    simp only [digitCode, UInt8.toNat_ofNat'] at code
    rw [Nat.mod_eq_of_lt (by omega)] at code
    have : (45 : UInt8).toNat = 45 := rfl
    omega

theorem decimal_injective {a b : Int} (same : decimal a = decimal b) : a = b := by
  cases a with
  | ofNat m =>
    cases b with
    | ofNat n =>
      change decimal (m : Int) = decimal (n : Int) at same
      rw [decimal_ofNat, decimal_ofNat] at same
      exact congrArg Int.ofNat (toDigits_digitCode_injective same)
    | negSucc n =>
      change decimal (m : Int) = _ at same
      rw [decimal_ofNat, decimal_negSucc] at same
      exact absurd same digits_ne_minus
  | negSucc m =>
    cases b with
    | ofNat n =>
      change _ = decimal (n : Int) at same
      rw [decimal_ofNat, decimal_negSucc] at same
      exact absurd same.symm digits_ne_minus
    | negSucc n =>
      rw [decimal_negSucc, decimal_negSucc] at same
      have := toDigits_digitCode_injective (List.cons.inj same).2
      congr 1
      omega

theorem length_decimal_le {a : Int} (h : a.natAbs < 2 ^ 64) : (decimal a).length ≤ 21 := by
  have digits {n : Nat} (hn : n < 2 ^ 64) : (Nat.toDigits 10 n).length ≤ 20 :=
    (Nat.length_toDigits_le_iff (by decide) (by decide)).mpr (by omega)
  cases a with
  | ofNat n =>
    change (decimal (n : Int)).length ≤ 21
    rw [decimal_ofNat, List.length_map]
    exact Nat.le_succ_of_le (digits h)
  | negSucc n =>
    rw [decimal_negSucc, List.length_cons, List.length_map]
    exact Nat.succ_le_succ (digits h)

theorem mem_decimal {a : Int} {b : Byte} (h : b ∈ decimal a) :
    b = 45 ∨ (48 ≤ b.toNat ∧ b.toNat ≤ 57) := by
  have digits {n : Nat} (h : b ∈ (Nat.toDigits 10 n).map digitCode) :
      48 ≤ b.toNat ∧ b.toNat ≤ 57 := by
    obtain ⟨ch, inside, rfl⟩ := List.mem_map.mp h
    have range := digitCode_range
      (Nat.isDigit_of_mem_toDigits (by decide) (by decide) inside)
    simp only [digitCode, UInt8.toNat_ofNat']
    omega
  cases a with
  | ofNat n =>
    have h : b ∈ decimal (n : Int) := h
    rw [decimal_ofNat] at h
    exact .inr (digits h)
  | negSucc n =>
    rw [decimal_negSucc] at h
    rcases List.mem_cons.mp h with minus | digit
    · exact .inl minus
    · exact .inr (digits digit)

theorem space_notMem_decimal (a : Int) : (32 : Byte) ∉ decimal a := fun h => by
  have bytes := mem_decimal h
  revert bytes
  decide

end Kitserv
