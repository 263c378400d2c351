import Kitserv.Buffer
import Kitserv.Basis.Script

namespace Kitserv

open Memory Script

/-- `max` is the size of the allocation, `len` lies inside, and the block has its minimum size. -/
structure Buffer.Valid (b : Buffer) : Prop where
  len_nonneg : 0 ≤ b.len
  len_le : b.len ≤ b.max
  max_eq : b.max = b.buf.length
  min_size : (httpBufsz : Int) ≤ b.max

inductive BufferOp where
  | append (elems : Bytes)
  | appendva (first second : Rendering)
  | reset

/-- A call together with the answer that its realloc gets, if it makes one. -/
abbrev BufferCall := BufferOp × ReallocOutcome

def BufferCall.run : BufferCall → Buffer → List Store × Buffer
  | (.append elems, out), b => let r := b.append elems out; (r.stores, r.buffer)
  | (.appendva first second, out), b => let r := b.appendva first second out; (r.stores, r.buffer)
  | (.reset, out), b => ([], b.reset httpBufsz out)

def CallSafe (r : List Store × Buffer) : Prop := r.2.Valid ∧ ∀ w ∈ r.1, w.Inside

/-- The call is not answered with a larger block, and no failed rendering takes `len` below
zero: an append fits, or asks for something and is refused; a text fits with or without its
NUL, or its growth is refused. -/
def NoGrowth : BufferCall → Buffer → Prop
  | (.append elems, out), b =>
    b.len + elems.length < b.max ∨ (out.isFailed = true ∧ elems.length ≠ 0)
  | (.appendva none _, _), b => 1 ≤ b.len
  | (.appendva (some text) second, out), b =>
    (text.length : Int) ≤ b.max - b.len ∨
      (out.isFailed = true ∧ (second = none → 1 ≤ b.len))
  | (.reset, _), _ => True

namespace Buffer

theorem init_valid {block : Bytes} (h : block.length = httpBufsz) : (init block).Valid :=
  ⟨Int.le_refl 0, by simp [init], rfl, by simp [init, h]⟩

variable {b : Buffer}

theorem Valid.room (v : b.Valid) : toSizeT (b.max - b.len) = (b.max - b.len).toNat ∨
    2 ^ 64 ≤ b.max - b.len := by
  have h₁ := v.len_le
  by_cases big : 2 ^ 64 ≤ b.max - b.len
  · exact .inr big
  · left
    unfold toSizeT
    rw [Int.emod_eq_of_lt (by omega) (by omega)]

theorem Valid.putStore_inside (v : b.Valid) (text : Bytes) :
    (b.putStore (rendered (toSizeT (b.max - b.len)) text)).Inside := by
  have bound := rendered_length_le (toSizeT (b.max - b.len)) text
  have h₀ := v.len_nonneg
  have h₁ := v.len_le
  have h₂ := v.max_eq
  have size : (toSizeT (b.max - b.len) : Int) ≤ b.max - b.len := by
    rcases v.room with h | h
    · omega
    · unfold toSizeT; omega
  right
  simp only [putStore]
  omega

theorem Valid.vsnprintf_inside (v : b.Valid) (r : Rendering) :
    ∀ w ∈ (b.vsnprintf r).stores, w.Inside := by
  cases r with
  | none => simp [vsnprintf]
  | some text =>
    intro w hw
    obtain rfl := List.mem_singleton.mp hw
    exact v.putStore_inside text

theorem Valid.of_same (v : b.Valid) {b' : Buffer} (hmax : b'.max = b.max)
    (hbuf : b'.buf.length = b.buf.length) (h₀ : 0 ≤ b'.len) (h₁ : b'.len ≤ b.max) : b'.Valid :=
  ⟨h₀, hmax ▸ h₁, by rw [hmax, hbuf]; exact v.max_eq, hmax ▸ v.min_size⟩

theorem grown_ne (n : Nat) : (((n / bufferIncrement + 1) * bufferIncrement : Nat) : Int) ≠ n := by
  unfold bufferIncrement
  omega

theorem append_safe_iff (v : b.Valid) (elems : Bytes) (out : ReallocOutcome) :
    CallSafe (BufferCall.run (.append elems, out) b) ↔ NoGrowth (.append elems, out) b := by
  have h₀ := v.len_nonneg
  have h₁ := v.len_le
  have h₂ := v.max_eq
  have h₃ := v.min_size
  simp only [BufferCall.run, NoGrowth, append]
  by_cases fits : b.len + elems.length < b.max
  · rw [ensureSpace_fits fits]
    refine iff_of_true ⟨v.of_same rfl (length_put b elems) ?_ ?_, ?_⟩ (.inl fits)
    · simp only; omega
    · simp only; omega
    · simp only [List.mem_singleton, forall_eq, Store.Inside, putStore]
      right; omega
  · have full : b.max ≤ b.len + elems.length := by omega
    by_cases empty : elems.length = 0
    · -- len = max, and the request for zero bytes releases the block
      have none : elems = [] := List.length_eq_zero_iff.mp empty
      subst none
      rw [List.length_nil, ensureSpace_zero (by simpa using full)]
      refine iff_of_false ?_ ?_
      · rintro ⟨bad, -⟩
        have := bad.max_eq
        simp only [List.length_nil, httpBufsz] at this h₃
        omega
      · simp only [List.length_nil] at fits ⊢
        omega
    · cases hout : out.isFailed with
      | true =>
        rw [ensureSpace_failed full empty hout]
        exact iff_of_true ⟨v, by simp⟩ (.inr ⟨rfl, empty⟩)
      | false =>
        obtain ⟨block, size, eq⟩ := ensureSpace_moved full empty hout
        rw [eq]
        refine iff_of_false ?_ ?_
        · rintro ⟨bad, -⟩
          have same := bad.max_eq
          simp only [put_max, length_put, size] at same
          exact grown_ne _ same
        · rintro (h | ⟨h, -⟩)
          · exact fits h
          · exact Bool.false_ne_true h

theorem Valid.after_rendering (v : b.Valid) (r : Rendering) (fits : printed r ≤ b.max - b.len) :
    Valid { (b.vsnprintf r).buffer with len := b.len + printed r } ↔ (r = none → 1 ≤ b.len) := by
  have h₀ := v.len_nonneg
  have h₁ := v.len_le
  obtain ⟨-, max_eq, size_eq, -⟩ := vsnprintf_spec b r
  cases r with
  | none =>
    simp only [printed] at fits ⊢
    constructor
    · intro ok _
      have := ok.len_nonneg
      simp only at this
      omega
    · intro pos
      have : 1 ≤ b.len := pos trivial
      exact v.of_same max_eq size_eq (by simp only; omega) (by simp only; omega)
  | some text =>
    simp only [printed] at fits ⊢
    refine iff_of_true (v.of_same max_eq size_eq ?_ ?_) (fun h => by cases h)
    · simp only; omega
    · simp only; omega

theorem Valid.after_refusal (v : b.Valid) {first : Rendering} (second : Rendering)
    {out : ReallocOutcome} (big : b.max - b.len < printed first) (refused : out.isFailed = true) :
    CallSafe (BufferCall.run (.appendva first second, out) b) ↔ (second = none → 1 ≤ b.len) := by
  have h₀ := v.len_nonneg
  have h₁ := v.len_le
  obtain ⟨len_eq, max_eq, size_eq, -⟩ := vsnprintf_spec b first
  have v₁ : (b.vsnprintf first).buffer.Valid :=
    v.of_same max_eq size_eq (by omega) (by omega)
  have kept := ensureSpace_failed (b := (b.vsnprintf first).buffer) (n := (printed first).toNat)
    (by omega) (by omega) refused
  have grown : (b.vsnprintf first).buffer.expand (printed first) out = (b.vsnprintf first).buffer :=
    (expand_of_nonneg (by omega)).trans (congrArg Prod.snd kept)
  have stores : ∀ w ∈ (b.vsnprintf first).stores ++
      ((b.vsnprintf first).buffer.vsnprintf second).stores, w.Inside := by
    intro w hw
    rcases List.mem_append.mp hw with hw | hw
    · exact v.vsnprintf_inside first w hw
    · exact v₁.vsnprintf_inside second w hw
  simp only [BufferCall.run, appendva_retries big grown]
  by_cases fits : printed second ≤
      (b.vsnprintf first).buffer.max - (b.vsnprintf first).buffer.len
  · rw [if_pos fits, CallSafe, and_iff_left stores, v₁.after_rendering second fits, len_eq]
  · rw [if_neg fits]
    obtain ⟨len₂, max₂, size₂, -⟩ := vsnprintf_spec (b.vsnprintf first).buffer second
    have v₂ : ((b.vsnprintf first).buffer.vsnprintf second).buffer.Valid :=
      v₁.of_same max₂ size₂ (by omega) (by omega)
    refine iff_of_true ⟨v₂, stores⟩ ?_
    intro none
    subst none
    simp only [printed] at fits
    omega

theorem Valid.after_growth (v : b.Valid) {first : Rendering} (second : Rendering)
    {out : ReallocOutcome} (big : b.max - b.len < printed first) (granted : out.isFailed = false) :
    ¬ CallSafe (BufferCall.run (.appendva first second, out) b) := by
  have h₀ := v.len_nonneg
  have h₁ := v.len_le
  obtain ⟨len_eq, max_eq, size_eq, -⟩ := vsnprintf_spec b first
  obtain ⟨block, size, eq⟩ := ensureSpace_moved (b := (b.vsnprintf first).buffer)
    (n := (printed first).toNat) (by omega) (by omega) granted
  obtain ⟨max₂, size₂⟩ := @appendva_retries_size b first second out big _
    ((expand_of_nonneg (by omega)).trans (congrArg Prod.snd eq))
  rintro ⟨bad, -⟩
  have same := bad.max_eq
  refine grown_ne (printed first).toNat ?_
  simp only [BufferCall.run] at same
  rw [max₂, size₂] at same
  simpa only [size] using same

theorem appendva_safe_iff (v : b.Valid) (first second : Rendering) (out : ReallocOutcome) :
    CallSafe (BufferCall.run (.appendva first second, out) b) ↔
      NoGrowth (.appendva first second, out) b := by
  have h₀ := v.len_nonneg
  have h₁ := v.len_le
  by_cases fits : printed first ≤ b.max - b.len
  · simp only [BufferCall.run, appendva_fits fits]
    rw [CallSafe, and_iff_left (v.vsnprintf_inside first), v.after_rendering first fits]
    cases first with
    | none => simp [NoGrowth]
    | some text => exact iff_of_true (fun h => by cases h) (.inl fits)
  · have big : b.max - b.len < printed first := by omega
    cases first with
    | none => simp only [printed] at big; omega
    | some text =>
      cases hout : out.isFailed with
      | true =>
        rw [v.after_refusal second big hout]
        simp only [NoGrowth, hout, true_and]
        exact ⟨.inr, fun h => h.resolve_left fits⟩
      | false =>
        refine iff_of_false (v.after_growth second big hout) ?_
        rintro (h | ⟨h, -⟩)
        · exact fits h
        · exact Bool.false_ne_true (hout.symm.trans h)

theorem reset_valid (v : b.Valid) (out : ReallocOutcome) : (b.reset httpBufsz out).Valid := by
  have h₂ := v.max_eq
  have h₃ := v.min_size
  unfold reset
  simp only
  split
  · cases out with
    | failed =>
      have small : httpBufsz ≠ 0 := by decide
      simp only [realloc, if_neg small]
      exact v.of_same rfl rfl (Int.le_refl 0) (by simp only; omega)
    | moved junk =>
      have size := length_realloc_moved b.buf junk (show httpBufsz ≠ 0 by decide)
      simp only [realloc, if_neg (show httpBufsz ≠ 0 by decide)] at size ⊢
      refine ⟨Int.le_refl 0, by simp only; omega, ?_, Int.le_refl _⟩
      exact congrArg Int.ofNat size.symm
  · exact v.of_same rfl rfl (Int.le_refl 0) (by simp only; omega)

theorem call_safe_iff (v : b.Valid) (call : BufferCall) :
    CallSafe (BufferCall.run call b) ↔ NoGrowth call b := by
  obtain ⟨op, out⟩ := call
  cases op with
  | append elems => exact append_safe_iff v elems out
  | appendva first second => exact appendva_safe_iff v first second out
  | reset => exact iff_of_true ⟨reset_valid v out, by simp [BufferCall.run]⟩ trivial

end Buffer

/-- Over whole histories from a fresh buffer: every call leaves a valid buffer and stores
inside its allocation if and only if no call of the history gets the buffer to grow. -/
theorem buffer_safe_iff_no_growth (block : Bytes) (size : block.length = httpBufsz)
    (calls : List BufferCall) :
    (∀ r ∈ runs BufferCall.run calls (Buffer.init block), CallSafe r) ↔
      Meets BufferCall.run NoGrowth calls (Buffer.init block) :=
  good_iff_meets (fun call _ v => Buffer.call_safe_iff v call) (fun _ _ _ safe => safe.1)
    (Buffer.init_valid size)

theorem fresh_fits {block elems : Bytes} (size : block.length = httpBufsz)
    (short : elems.length < httpBufsz) (out : ReallocOutcome) :
    NoGrowth (.append elems, out) (Buffer.init block) := by
  left
  simp only [Buffer.init, size]
  omega

theorem buffer_safe_iff_no_growth_short :
    CallSafe (BufferCall.run (.append (ascii "text"), .failed)
      (Buffer.init (List.replicate httpBufsz 0))) :=
  (buffer_safe_iff_no_growth _ List.length_replicate
    [(.append (ascii "text"), .failed), (.reset, .failed)]).mpr
    ⟨fresh_fits List.length_replicate (by decide) _, trivial, trivial⟩ _ (List.mem_cons_self ..)

/-- A fresh buffer that is asked for HTTP_BUFSZ bytes records 4352 and owns 4096. -/
theorem buffer_growth_breaks :
    ¬ ∀ r ∈ runs BufferCall.run
        [(.append (List.replicate httpBufsz 65), .moved fun _ => 0)]
        (Buffer.init (List.replicate httpBufsz 0)), CallSafe r := by
  intro all
  have here := all _ (by simp only [runs, List.mem_singleton]; rfl)
  rw [Buffer.call_safe_iff (Buffer.init_valid List.length_replicate)] at here
  simp [NoGrowth, Buffer.init, ReallocOutcome.isFailed] at here

end Kitserv
