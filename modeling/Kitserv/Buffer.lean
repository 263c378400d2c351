import Kitserv.Types
import Kitserv.Basis.Memory

/-! buffer.c. Every call also reports the stores it makes, each with the size of the
allocation it goes into, because the recorded `max` and that size are separate things. -/
namespace Kitserv

open Memory

def toSizeT (x : Int) : Nat := (x % 2 ^ 64).toNat

theorem toSizeT_of_nonneg {x : Int} (low : 0 ≤ x) (small : x < 2 ^ 64) : (toSizeT x : Int) = x := by
  unfold toSizeT
  omega

/-- What realloc does when it is asked for a block: it fails, or it gives a block whose
bytes above the old contents are `junk`. -/
inductive ReallocOutcome where
  | failed
  | moved (junk : Nat → Byte)

def ReallocOutcome.isFailed : ReallocOutcome → Bool
  | .failed => true
  | .moved _ => false

/-- realloc: whether it returned a block, and the block that exists afterwards. A request
for zero bytes releases the block and returns NULL. -/
def realloc (block : Bytes) (size : Nat) (out : ReallocOutcome) : Bool × Bytes :=
  if size = 0 then (false, [])
  else match out with
    | .failed => (false, block)
    | .moved junk => (true, block.take size ++ (List.range (size - block.length)).map junk)

theorem length_realloc_moved (block : Bytes) {size : Nat} (junk : Nat → Byte) (h : size ≠ 0) :
    (realloc block size (.moved junk)).2.length = size := by
  simp only [realloc, if_neg h, List.length_append, List.length_take, List.length_map,
    List.length_range]
  omega

/-- One store of a call: `count` bytes at `off` into an allocation of `room` bytes. -/
structure Store where
  off : Int
  count : Nat
  room : Nat
  deriving DecidableEq, Repr

def Store.Inside (w : Store) : Prop := w.count = 0 ∨ (0 ≤ w.off ∧ w.off + w.count ≤ w.room)

instance (w : Store) : Decidable w.Inside := inferInstanceAs (Decidable (_ ∨ _))

structure BufferResult where
  rc : Int
  buffer : Buffer
  stores : List Store
  deriving DecidableEq, Repr

def bufferIncrement : Nat := 256

namespace Buffer

def init (block : Bytes) : Buffer := { buf := block, len := 0, max := block.length }

def reset (b : Buffer) (size : Nat) (out : ReallocOutcome) : Buffer :=
  let b := { b with len := 0 }
  if b.max > (size : Int) then
    match realloc b.buf size out with
    | (true, block) => { b with buf := block, max := size }
    | (false, block) => { b with buf := block }
  else b

/-- `kitserv_buffer_ensure_space`: whether it returned a location, and the buffer after it. -/
def ensureSpace (b : Buffer) (n : Nat) (out : ReallocOutcome) : Bool × Buffer :=
  if b.len + n ≥ b.max then
    let newMax := (n / bufferIncrement + 1) * bufferIncrement
    match realloc b.buf n out with
    | (false, block) => (false, { b with buf := block })
    | (true, block) => (true, { b with buf := block, max := newMax })
  else (true, b)

/-- Store bytes at index `len` (which may be negative after a failed rendering). -/
def put (b : Buffer) (bs : Bytes) : Buffer :=
  { b with buf := overwrite b.buf b.len.toNat (bs.drop (-b.len).toNat) }

def putStore (b : Buffer) (bs : Bytes) : Store :=
  { off := b.len, count := bs.length, room := b.buf.length }

def append (b : Buffer) (elems : Bytes) (out : ReallocOutcome) : BufferResult :=
  match b.ensureSpace elems.length out with
  | (false, b) => { rc := -1, buffer := b, stores := [] }
  | (true, b) =>
    { rc := 0
      buffer := { b.put elems with len := b.len + elems.length }
      stores := [b.putStore elems] }

/-- The bytes vsnprintf stores for a text in `size` bytes of room: as much as fits before a NUL. -/
def rendered (size : Nat) (text : Bytes) : Bytes :=
  if size = 0 then [] else text.take (size - 1) ++ [0]

/-- `vsnprintf(&buf[len], max - len, ...)`: its result, the buffer, and the store it makes. -/
def vsnprintf (b : Buffer) : Rendering → BufferResult
  | none => { rc := -1, buffer := b, stores := [] }
  | some text =>
    let bs := rendered (toSizeT (b.max - b.len)) text
    { rc := text.length, buffer := b.put bs, stores := [b.putStore bs] }

/-- The buffer between the two renderings: nobody looks at the result of
`kitserv_buffer_ensure_space`. -/
def expand (b : Buffer) (rc : Int) (out : ReallocOutcome) : Buffer :=
  -- as a size_t, a negative count is more than realloc ever gives
  if rc < 0 then b else (b.ensureSpace rc.toNat out).2

/-- `kitserv_buffer_appendva`. The va_list is consumed by the first vsnprintf and handed to the
second one again, so the second rendering is a parameter of its own. -/
def appendva (b : Buffer) (first second : Rendering) (out : ReallocOutcome) : BufferResult :=
  let r := b.vsnprintf first
  if r.rc > r.buffer.max - r.buffer.len then
    let b := r.buffer.expand r.rc out
    let q := b.vsnprintf second
    if q.rc > q.buffer.max - q.buffer.len then
      { rc := -1, buffer := q.buffer, stores := r.stores ++ q.stores }
    else
      { rc := 0
        buffer := { q.buffer with len := q.buffer.len + q.rc }
        stores := r.stores ++ q.stores }
  else
    { rc := 0
      buffer := { r.buffer with len := r.buffer.len + r.rc }
      stores := r.stores }

theorem length_put (b : Buffer) (bs : Bytes) : (b.put bs).buf.length = b.buf.length :=
  length_overwrite ..

theorem put_buf {b : Buffer} (h : 0 ≤ b.len) (bs : Bytes) :
    (b.put bs).buf = overwrite b.buf b.len.toNat bs := by
  have start : (-b.len).toNat = 0 := by omega
  simp only [put, start, List.drop_zero]

@[simp] theorem put_max (b : Buffer) (bs : Bytes) : (b.put bs).max = b.max := rfl

section EnsureSpace

variable {b : Buffer} {n : Nat} {out : ReallocOutcome}

theorem ensureSpace_fits (h : b.len + n < b.max) : b.ensureSpace n out = (true, b) :=
  if_neg (by omega)

theorem ensureSpace_zero (h : b.max ≤ b.len) : b.ensureSpace 0 out = (false, { b with buf := [] }) :=
  if_pos (by simpa using h)

theorem ensureSpace_failed (h : b.max ≤ b.len + n) (hn : n ≠ 0) (hout : out.isFailed = true) :
    b.ensureSpace n out = (false, b) := by
  cases out with
  | failed => simp only [ensureSpace, realloc, if_neg hn, ge_iff_le, if_pos h]
  | moved junk => cases hout

/-- The slip of the growth path: the block gets `n` bytes, `max` the rounded size. -/
theorem ensureSpace_moved (h : b.max ≤ b.len + n) (hn : n ≠ 0) (hout : out.isFailed = false) :
    ∃ block : Bytes, block.length = n ∧
      b.ensureSpace n out =
        (true, { b with buf := block, max := ((n / bufferIncrement + 1) * bufferIncrement : Nat) }) := by
  cases out with
  | failed => cases hout
  | moved junk =>
    refine ⟨_, length_realloc_moved b.buf junk hn, ?_⟩
    simp only [ensureSpace, realloc, if_neg hn, ge_iff_le, if_pos h]

end EnsureSpace

/-- The result of vsnprintf: the length of the whole text, stored or not. -/
def printed : Rendering → Int
  | none => -1
  | some text => text.length

theorem expand_of_nonneg {b : Buffer} {rc : Int} {out : ReallocOutcome} (counts : 0 ≤ rc) :
    b.expand rc out = (b.ensureSpace rc.toNat out).2 := if_neg (Int.not_lt.mpr counts)

/-- vsnprintf changes no length. -/
theorem vsnprintf_spec (b : Buffer) (r : Rendering) :
    (b.vsnprintf r).buffer.len = b.len ∧ (b.vsnprintf r).buffer.max = b.max ∧
      (b.vsnprintf r).buffer.buf.length = b.buf.length ∧
      (b.vsnprintf r).rc = printed r := by
  cases r with
  | none => exact ⟨rfl, rfl, rfl, rfl⟩
  | some text => exact ⟨rfl, rfl, length_put b _, rfl⟩

section Appendva

variable {b : Buffer} {first second : Rendering} {out : ReallocOutcome}

/-- The text fits, at worst without its NUL. -/
theorem appendva_fits (h : printed first ≤ b.max - b.len) :
    b.appendva first second out =
      { rc := 0
        buffer := { (b.vsnprintf first).buffer with len := b.len + printed first }
        stores := (b.vsnprintf first).stores } := by
  have spec := vsnprintf_spec b first
  have cond : ¬ (b.vsnprintf first).rc >
      (b.vsnprintf first).buffer.max - (b.vsnprintf first).buffer.len := by omega
  simp only [appendva]
  rw [if_neg cond]
  simp only [spec.1, spec.2.2.2]

/-- The text does not fit: the second rendering decides, in a buffer that may have grown. -/
theorem appendva_retries (h : b.max - b.len < printed first) {b₁ : Buffer}
    (grown : (b.vsnprintf first).buffer.expand (printed first) out = b₁) :
    b.appendva first second out =
      if printed second ≤ b₁.max - b₁.len then
        { rc := 0
          buffer := { (b₁.vsnprintf second).buffer with len := b₁.len + printed second }
          stores := (b.vsnprintf first).stores ++ (b₁.vsnprintf second).stores }
      else
        { rc := -1
          buffer := (b₁.vsnprintf second).buffer
          stores := (b.vsnprintf first).stores ++ (b₁.vsnprintf second).stores } := by
  have spec := vsnprintf_spec b first
  have cond : (b.vsnprintf first).rc >
      (b.vsnprintf first).buffer.max - (b.vsnprintf first).buffer.len := by omega
  have spec₁ := vsnprintf_spec b₁ second
  simp only [appendva]
  rw [if_pos cond]
  simp only [spec.2.2.2, grown]
  by_cases fits : printed second ≤ b₁.max - b₁.len
  · rw [if_pos fits, if_neg (by omega), spec₁.1, spec₁.2.2.2]
  · rw [if_neg fits, if_pos (by omega)]

theorem appendva_retries_size (h : b.max - b.len < printed first) {b₁ : Buffer}
    (grown : (b.vsnprintf first).buffer.expand (printed first) out = b₁) :
    (b.appendva first second out).buffer.max = b₁.max ∧
      (b.appendva first second out).buffer.buf.length = b₁.buf.length := by
  have spec := vsnprintf_spec b₁ second
  rw [appendva_retries h grown]
  split
  · exact ⟨spec.2.1, spec.2.2.1⟩
  · exact ⟨spec.2.1, spec.2.2.1⟩

end Appendva

theorem rendered_length_le (size : Nat) (text : Bytes) : (rendered size text).length ≤ size := by
  unfold rendered
  split
  · exact Nat.zero_le _
  · simp only [List.length_append, List.length_take, List.length_singleton]
    omega

end Buffer

end Kitserv
