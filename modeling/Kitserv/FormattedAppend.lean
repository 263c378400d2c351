import Kitserv.Buffer

namespace Kitserv

open Memory

namespace Buffer

variable {b : Buffer} {s : Bytes} {second : Rendering} {out : ReallocOutcome}

structure Appended (b : Buffer) (s : Bytes) (b' : Buffer) : Prop where
  len : b'.len = b.len + s.length
  kept : b'.buf.take b.len.toNat = b.buf.take b.len.toNat
  bytes : slice b'.buf b.len.toNat (b.len.toNat + s.length) = s

/-- A formatted append does what an append of its text would do, and refuses a failed rendering. -/
def AppendvaAgrees (b : Buffer) (first second : Rendering) (out : ReallocOutcome) : Prop :=
  match first with
  | none => (b.appendva none second out).rc = -1 ∧ (b.appendva none second out).buffer = b
  | some s =>
    ((b.appendva (some s) second out).rc = 0 ↔ (b.append s out).rc = 0) ∧
      ((b.appendva (some s) second out).rc = 0 →
        b.Appended s (b.appendva (some s) second out).buffer)

/-- What the two appends need to agree on `s`: it fits with its NUL into the room and the block; or
it does not, the growth is refused, and the second rendering does not fit either; or the buffer is
empty, it grows, and the second rendering is the first. No block is given for an empty text: it is too
long where a growth has left `len` above `max`. -/
inductive Agreeing (b : Buffer) (second : Rendering) (out : ReallocOutcome) (s : Bytes) : Prop
  | fits (room : (s.length : Int) < b.max - b.len)
    (inside : s = [] ∨ b.len.toNat + s.length ≤ b.buf.length)
  | refused (large : b.max - b.len < s.length) (refused : s = [] ∨ out.isFailed = true)
    (again : b.max - b.len < printed second)
  | grows (large : b.max - b.len < s.length) (granted : out.isFailed = false) (empty : b.len = 0)
    (again : second = some s)

theorem append_rc : (b.append s out).rc = 0 ↔
    b.len + s.length < b.max ∨ s ≠ [] ∧ out.isFailed = false := by
  by_cases fits : b.len + s.length < b.max
  · simp only [append, ensureSpace_fits fits, fits, true_or]
  · have large : b.max ≤ b.len + s.length := Int.not_lt.mp fits
    simp only [fits, false_or]
    by_cases empty : s = []
    · subst empty
      have released := @ensureSpace_zero b out (by simpa using large)
      simp [append, released]
    · have some : s.length ≠ 0 := fun zero => empty (List.eq_nil_of_length_eq_zero zero)
      cases failed : out.isFailed with
      | true => simp [append, ensureSpace_failed large some failed]
      | false =>
        obtain ⟨block, -, moved⟩ := ensureSpace_moved large some failed
        simp [append, moved, empty]

theorem slice_overwrite_iff {block s : Bytes} {off : Nat} :
    slice (overwrite block off (s ++ [0])) off (off + s.length) = s ↔
      s = [] ∨ off + s.length ≤ block.length := by
  constructor
  · intro same
    have length := congrArg List.length same
    rw [length_slice, length_overwrite, Nat.add_sub_cancel_left] at length
    by_cases empty : s = []
    · exact .inl empty
    · have := List.length_pos_iff.mpr empty
      omega
  · rintro (rfl | inside)
    · simp [slice]
    · apply List.ext_getElem?
      intro i
      rw [getElem?_slice, Nat.add_sub_cancel_left, getElem?_overwrite]
      by_cases early : i < s.length
      · rw [if_pos early, if_pos (by simp; omega), Nat.add_sub_cancel_left,
          List.getElem?_append_left early]
      · rw [if_neg early, List.getElem?_eq_none (Nat.le_of_not_lt early)]

section Agree

theorem appended_fits_iff (low : 0 ≤ b.len) (small : b.max < 2 ^ 63)
    (room : (s.length : Int) < b.max - b.len) :
    b.Appended s (b.appendva (some s) second out).buffer ↔
      s = [] ∨ b.len.toNat + s.length ≤ b.buf.length := by
  have size := toSizeT_of_nonneg (x := b.max - b.len) (by omega) (by omega)
  have stored : rendered (toSizeT (b.max - b.len)) s = s ++ [0] := by
    rw [rendered, if_neg (by omega), List.take_of_length_le (by omega)]
  have buf : (b.vsnprintf (some s)).buffer.buf = overwrite b.buf b.len.toNat (s ++ [0]) := by
    simp only [vsnprintf, stored, put_buf low]
  rw [appendva_fits (by simp only [printed]; omega), ← slice_overwrite_iff]
  refine ⟨fun appended => buf ▸ appended.bytes, fun bytes => ⟨rfl, ?_, ?_⟩⟩
  · simp only [buf]
    exact take_overwrite_of_le _ _ (Nat.le_refl _)
  · simp only [buf]
    exact bytes

theorem expand_printed : (b.vsnprintf (some s)).buffer.expand (printed (some s)) out =
    ((b.vsnprintf (some s)).buffer.ensureSpace s.length out).2 := by
  simp only [printed, expand_of_nonneg (Int.natCast_nonneg s.length), Int.toNat_natCast]

theorem not_appended_full (low : 0 ≤ b.len) (small : b.max < 2 ^ 63) (plain : 0 ∉ s)
    (nonempty : s ≠ []) (full : (s.length : Int) = b.max - b.len) :
    ¬ b.Appended s (b.appendva (some s) second out).buffer := by
  have size := toSizeT_of_nonneg (x := b.max - b.len) (by omega) (by omega)
  have pos := List.length_pos_iff.mpr nonempty
  have stored : rendered (toSizeT (b.max - b.len)) s = s.take (s.length - 1) ++ [0] := by
    have same : toSizeT (b.max - b.len) = s.length := by omega
    rw [rendered, if_neg (by omega), same]
  have buf : (b.vsnprintf (some s)).buffer.buf =
      overwrite b.buf b.len.toNat (s.take (s.length - 1) ++ [0]) := by
    simp only [vsnprintf, stored, put_buf low]
  rw [appendva_fits (by simp only [printed]; omega)]
  rintro ⟨-, -, bytes⟩
  simp only [buf] at bytes
  have last := congrArg (fun l : Bytes => l[s.length - 1]?) bytes
  have width : (s.take (s.length - 1)).length = s.length - 1 := by simp
  simp only [getElem?_slice, Nat.add_sub_cancel_left] at last
  rw [if_pos (by omega), List.getElem?_eq_getElem (show s.length - 1 < s.length by omega)] at last
  by_cases inside : b.len.toNat + (s.length - 1) < b.buf.length
  · rw [getElem?_overwrite, if_pos ⟨by omega, by simp, inside⟩, Nat.add_sub_cancel_left,
      List.getElem?_append_right (by omega), width, Nat.sub_self] at last
    have zero := Option.some.inj last
    exact plain (zero ▸ List.getElem_mem _)
  · have none : (overwrite b.buf b.len.toNat (s.take (s.length - 1) ++ [0]))[b.len.toNat +
        (s.length - 1)]? = none := List.getElem?_eq_none (by rw [length_overwrite]; omega)
    rw [none] at last
    cases last

theorem appended_grows_iff (low : 0 ≤ b.len) (nonempty : s ≠ [])
    (large : b.max - b.len < s.length) (granted : out.isFailed = false) (int : s.length < 2 ^ 31) :
    ((b.appendva (some s) second out).rc = 0 ∧
        b.Appended s (b.appendva (some s) second out).buffer) ↔ b.len = 0 ∧ second = some s := by
  have printing := vsnprintf_spec b (some s)
  have nonempty : s.length ≠ 0 := fun zero => nonempty (List.eq_nil_of_length_eq_zero zero)
  obtain ⟨block, length, moved⟩ := ensureSpace_moved (b := (b.vsnprintf (some s)).buffer)
    (n := s.length) (by rw [printing.1, printing.2.1]; omega) nonempty granted
  have grown : (b.vsnprintf (some s)).buffer.expand (printed (some s)) out =
      { b with buf := block, max := ((s.length / bufferIncrement + 1) * bufferIncrement : Nat) } := by
    rw [expand_printed, moved]
    simp only [printing.1]
  have newMax : s.length < (s.length / bufferIncrement + 1) * bufferIncrement ∧
      (s.length / bufferIncrement + 1) * bufferIncrement < 2 ^ 32 := by
    simp only [bufferIncrement]
    omega
  generalize (s.length / bufferIncrement + 1) * bufferIncrement = room at newMax grown
  -- what the second rendering leaves, if it is a text that fits
  have stores (t : Bytes) (empty : b.len = 0) (fits : t.length ≤ s.length) :
      (vsnprintf { b with buf := block, max := (room : Int) } (some t)).buffer.buf =
        overwrite block 0 (t ++ [0]) := by
    have size : toSizeT ((room : Int) - b.len) = room := by
      unfold toSizeT
      omega
    have stored : rendered room t = t ++ [0] := by
      rw [rendered, if_neg (by omega), List.take_of_length_le (by omega)]
    simp only [vsnprintf, size, stored]
    rw [put_buf (by simpa using low), empty]
    rfl
  rw [appendva_retries large grown]
  constructor
  · by_cases fits : printed second ≤ (room : Int) - b.len
    · rw [if_pos fits]
      rintro ⟨-, len, -, bytes⟩
      have len : b.len + printed second = b.len + s.length := len
      have width := congrArg List.length bytes
      simp only [length_slice, (vsnprintf_spec _ second).2.2.1, length] at width
      have empty : b.len = 0 := by omega
      cases second with
      | none =>
        simp only [printed] at len
        omega
      | some t =>
        simp only [printed] at len
        have same : t.length = s.length := by omega
        have whole : slice (overwrite block 0 (t ++ [0])) 0 (0 + t.length) = t :=
          slice_overwrite_iff.mpr (.inr (by omega))
        dsimp only at bytes
        rw [stores t empty (Nat.le_of_eq same), empty, Int.toNat_zero, ← same, whole] at bytes
        exact ⟨empty, congrArg some bytes⟩
    · rw [if_neg fits]
      rintro ⟨rc, -⟩
      cases rc
  · rintro ⟨empty, rfl⟩
    have fits : printed (some s) ≤ (room : Int) - b.len := by
      simp only [printed]
      omega
    rw [if_pos fits]
    refine ⟨rfl, rfl, ?_, ?_⟩
    · rw [empty]
      rfl
    · have whole : slice (overwrite block 0 (s ++ [0])) 0 (0 + s.length) = s :=
        slice_overwrite_iff.mpr (.inr (by omega))
      dsimp only
      rw [stores s empty (Nat.le_refl _), empty]
      exact whole

theorem refused_rc (large : b.max - b.len < s.length) (refused : s = [] ∨ out.isFailed = true) :
    (b.appendva (some s) second out).rc = 0 ↔ printed second ≤ b.max - b.len := by
  obtain ⟨len, max, -, -⟩ := vsnprintf_spec b (some s)
  obtain ⟨b₁, grown, max₁, len₁⟩ : ∃ b₁, (b.vsnprintf (some s)).buffer.expand
      (printed (some s)) out = b₁ ∧ b₁.max = b.max ∧ b₁.len = b.len := by
    rw [expand_printed]
    by_cases empty : s = []
    · subst empty
      have full : (b.vsnprintf (some [])).buffer.max ≤ (b.vsnprintf (some [])).buffer.len := by
        simp only [List.length_nil] at large
        omega
      rw [List.length_nil, ensureSpace_zero full]
      exact ⟨_, rfl, max, len⟩
    · have nonempty : s.length ≠ 0 := fun zero => empty (List.eq_nil_of_length_eq_zero zero)
      rw [ensureSpace_failed (by omega) nonempty (refused.resolve_left empty)]
      exact ⟨_, rfl, max, len⟩
  rw [appendva_retries large grown, max₁, len₁]
  split
  · rename_i fits
    exact iff_of_true rfl fits
  · rename_i large
    exact iff_of_false (by simp) large

/-- A failed rendering is reported where `len` is so far above `max` that -1 is too long. -/
theorem failed_agrees_iff : AppendvaAgrees b none second out ↔
    b.max - b.len < -1 ∧ (b.vsnprintf second).buffer = b := by
  by_cases fits : -1 ≤ b.max - b.len
  · have accepted := @appendva_fits b none second out fits
    simp only [AppendvaAgrees, accepted]
    refine iff_of_false ?_ fun far => by omega
    rintro ⟨rc, -⟩
    cases rc
  · have far : b.max - b.len < -1 := Int.not_le.mp fits
    have grown : (b.vsnprintf none).buffer.expand (printed none) out = b := rfl
    have again : ¬ printed second ≤ b.max - b.len := by
      cases second with
      | none => exact fits
      | some t =>
        simp only [printed]
        omega
    have refused := @appendva_retries b none second out far b grown
    simp only [AppendvaAgrees, refused, if_neg again, far, true_and]

theorem too_long_agrees_iff (low : 0 ≤ b.len) (large : b.max - b.len < s.length)
    (int : s.length < 2 ^ 31) : AppendvaAgrees b (some s) second out ↔ Agreeing b second out s := by
  have appends : (b.append s out).rc = 0 ↔ ¬ (s = [] ∨ out.isFailed = true) := by
    rw [append_rc, not_or, Bool.not_eq_true]
    exact or_iff_right (by omega)
  simp only [AppendvaAgrees, appends]
  by_cases failed : s = [] ∨ out.isFailed = true
  · have rc := @refused_rc b s second out large failed
    constructor
    · rintro ⟨agree, -⟩
      refine .refused large failed (Int.not_le.mp ?_)
      intro again
      exact agree.mp (rc.mpr again) failed
    · intro h
      have again : b.max - b.len < printed second := by
        cases h with
        | fits room => omega
        | refused _ _ again => exact again
        | grows _ _ _ again => rwa [again]
      have other : ¬ (b.appendva (some s) second out).rc = 0 := fun zero =>
        Int.not_le.mpr again (rc.mp zero)
      exact ⟨iff_of_false other (not_not.mpr failed), fun zero => absurd zero other⟩
  · obtain ⟨nonempty, granted⟩ := not_or.mp failed
    have granted : out.isFailed = false := Bool.eq_false_iff.mpr granted
    have grows := @appended_grows_iff b s second out low nonempty large granted int
    constructor
    · rintro ⟨agree, appended⟩
      have rc := agree.mpr failed
      obtain ⟨empty, again⟩ := grows.mp ⟨rc, appended rc⟩
      exact .grows large granted empty again
    · intro h
      cases h with
      | fits room => omega
      | refused _ refused => exact absurd refused failed
      | grows _ _ empty again =>
        obtain ⟨rc, appended⟩ := grows.mpr ⟨empty, again⟩
        exact ⟨iff_of_true rc failed, fun _ => appended⟩

theorem accepted_agrees_iff (low : 0 ≤ b.len) (small : b.max < 2 ^ 63) (plain : 0 ∉ s)
    (fits : (s.length : Int) ≤ b.max - b.len) :
    AppendvaAgrees b (some s) second out ↔ Agreeing b second out s := by
  have accepted : (b.appendva (some s) second out).rc = 0 := by
    rw [appendva_fits (by simpa only [printed] using fits)]
  have inside (h : Agreeing b second out s) : (s.length : Int) < b.max - b.len ∧
      (s = [] ∨ b.len.toNat + s.length ≤ b.buf.length) := by
    cases h with
    | fits room inside => exact ⟨room, inside⟩
    | refused large => omega
    | grows large => omega
  simp only [AppendvaAgrees]
  rcases Int.lt_or_eq_of_le fits with room | full
  · have appends : (b.append s out).rc = 0 := append_rc.mpr (.inl (by omega))
    have appended := @appended_fits_iff b s second out low small room
    constructor
    · intro agree
      exact .fits room (appended.mp (agree.2 accepted))
    · intro h
      exact ⟨iff_of_true accepted appends, fun _ => appended.mpr (inside h).2⟩
  · constructor
    · rintro ⟨agree, appended⟩
      rcases append_rc.mp (agree.mp accepted) with room | ⟨nonempty, -⟩
      · omega
      · exact absurd (appended accepted) (not_appended_full low small plain nonempty full)
    · intro h
      have room := (inside h).1
      omega

end Agree

/-- A formatted append agrees with an append of its text exactly in these cases. A negative `len` is
what a failed rendering leaves of an empty buffer. -/
theorem appendva_agrees_iff {first : Rendering} (low : 0 ≤ b.len) (small : b.max < 2 ^ 63)
    (plain : ∀ s, first = some s → 0 ∉ s ∧ s.length < 2 ^ 31) :
    AppendvaAgrees b first second out ↔ (∃ s, first = some s ∧ Agreeing b second out s) ∨
      (first = none ∧ b.max - b.len < -1 ∧ (b.vsnprintf second).buffer = b) := by
  cases first with
  | none =>
    rw [failed_agrees_iff]
    simp
  | some s =>
    obtain ⟨plain, int⟩ := plain s rfl
    have agrees : AppendvaAgrees b (some s) second out ↔ Agreeing b second out s := by
      rcases Int.lt_or_le (b.max - b.len) s.length with large | fits
      · exact too_long_agrees_iff low large int
      · exact accepted_agrees_iff low small plain fits
    rw [agrees]
    simp

def almostFull : Buffer where
  buf := List.replicate httpBufsz 65
  len := httpBufsz - 3
  max := httpBufsz

theorem appendva_agrees_iff_two :
    AppendvaAgrees almostFull (some (ascii "ab")) none .failed ↔
      ((∃ s, some (ascii "ab") = some s ∧ Agreeing almostFull none .failed s) ∨
        (some (ascii "ab") = none ∧ almostFull.max - almostFull.len < -1 ∧
          (almostFull.vsnprintf none).buffer = almostFull)) := by
  have plain : ∀ s, some (ascii "ab") = some s → 0 ∉ s ∧ s.length < 2 ^ 31 := by
    rintro _ ⟨⟩
    decide
  exact appendva_agrees_iff (by decide) (by decide) plain

/-- Three bytes are accepted, and the last of them is lost to the NUL. -/
theorem exact_fill_truncates :
    ¬ AppendvaAgrees almostFull (some (ascii "abc")) (some (ascii "abc")) (.moved fun _ => 0) := by
  have accepted := @appendva_fits almostFull (some (ascii "abc")) (some (ascii "abc"))
    (.moved fun _ => 0) (by decide)
  rintro ⟨-, appended⟩
  refine not_appended_full (by decide) (by decide) (by decide) (by decide) (by decide)
    (appended ?_)
  rw [accepted]

end Buffer

end Kitserv
