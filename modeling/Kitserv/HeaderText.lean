import Kitserv.Headers

namespace Kitserv

open Memory

def Client.setFd (c : Client) (fd : Int) : Client :=
  { c with ta := { c.ta with resp := { c.ta.resp with fd := fd } } }

def Client.headerBlock (c : Client) : Bytes := c.respHeaders.take c.ta.resp.bufs.headers.len

def Client.startLine (c : Client) : Bytes := c.respStart.take c.ta.resp.bufs.start.len

def headerLine (key value : Bytes) : Bytes := key ++ ascii ": " ++ value ++ ascii "\r\n"

theorem length_headerLine (key value : Bytes) :
    (headerLine key value).length = key.length + value.length + 4 := by
  have colon : (ascii ": ").length = 2 := rfl
  have crlf : (ascii "\r\n").length = 2 := rfl
  simp only [headerLine, List.length_append, colon, crlf]
  omega

structure HeadersOk (c : Client) : Prop where
  size : c.respHeaders.length = httpBufsz
  inside : c.ta.resp.bufs.headers.len < httpBufsz

section Append

variable {buf : Bytes} {len max : Nat}

theorem strAppend_within (text : Bytes) (small : max < 2 ^ 64) (size : buf.length = max)
    (inside : len < max) :
    (∃ buf', strAppend buf len max (some text) =
        { ok := true, buf := buf', len := len + text.length } ∧
      buf'.length = max ∧ len + text.length < max ∧
      buf'.take (len + text.length) = buf.take len ++ text) ∨
    (∃ buf', strAppend buf len max (some text) = { ok := false, buf := buf', len := len } ∧
      buf'.length = max ∧ max ≤ len + text.length ∧ buf'.take len = buf.take len) := by
  have room : toSizeT ((max : Int) - len) = max - len := by
    unfold toSizeT
    omega
  simp only [strAppend, room]
  rcases Nat.lt_or_ge (len + text.length) max with fits | full
  · left
    have stored : Buffer.rendered (max - len) text = text ++ [0] := by
      simp only [Buffer.rendered, if_neg (show max - len ≠ 0 by omega)]
      rw [List.take_of_length_le (by omega)]
    refine ⟨_, if_neg (by omega), (length_overwrite ..).trans size, fits, ?_⟩
    have whole := @take_overwrite_end _ buf (text ++ [0]) len (by simp; omega)
    have shorter := congrArg (List.take (len + text.length)) whole
    rw [List.take_take, List.length_append, Nat.min_eq_left (by omega)] at shorter
    rw [stored, shorter, ← List.append_assoc, List.take_left']
    simp only [List.length_append, List.length_take]
    omega
  · right
    refine ⟨_, if_pos (by omega), (length_overwrite ..).trans size, by omega, ?_⟩
    exact take_overwrite_of_le _ _ (Nat.le_refl len)

/-- One text appended to a buffer of the size of `resp_headers`. -/
theorem strAppend_cases (text : Bytes) (size : buf.length = httpBufsz) (inside : len < httpBufsz) :
    (∃ buf', strAppend buf len httpBufsz (some text) =
        { ok := true, buf := buf', len := len + text.length } ∧
      buf'.length = httpBufsz ∧ len + text.length < httpBufsz ∧
      buf'.take (len + text.length) = buf.take len ++ text) ∨
    (∃ buf', strAppend buf len httpBufsz (some text) = { ok := false, buf := buf', len := len } ∧
      buf'.length = httpBufsz ∧ httpBufsz ≤ len + text.length ∧ buf'.take len = buf.take len) :=
  strAppend_within text (by decide) size inside

end Append

/-- `r` is `c` with another header block. -/
structure WithHeaders (c : Client) (block : Bytes) (r : Client) : Prop where
  size : r.respHeaders.length = httpBufsz
  inside : block.length < httpBufsz
  same : r = c.setHeaders r.respHeaders block.length
  block : r.respHeaders.take block.length = block

namespace WithHeaders

variable {c r r' : Client} {b b' : Bytes}

theorem headersOk (h : WithHeaders c b r) : HeadersOk r := by
  refine ⟨h.size, ?_⟩
  rw [h.same]
  exact h.inside

theorem headerBlock (h : WithHeaders c b r) : r.headerBlock = b := by
  have len : r.ta.resp.bufs.headers.len = b.length := by rw [h.same]; rfl
  rw [Client.headerBlock, len, h.block]

theorem trans (h : WithHeaders c b r) (h' : WithHeaders r b' r') : WithHeaders c b' r' := by
  refine ⟨h'.size, h'.inside, ?_, h'.block⟩
  have same := h'.same
  rw [h.same] at same
  exact same

end WithHeaders

variable {c : Client}

theorem HeadersOk.length_headerBlock (ok : HeadersOk c) :
    c.headerBlock.length = c.ta.resp.bufs.headers.len := by
  have size := ok.size
  have inside := ok.inside
  rw [Client.headerBlock, List.length_take]
  omega

/-- A header function adds its line, or it leaves the block as it was for want of room. -/
theorem headerAdd_cases (key value : Bytes) (ok : HeadersOk c) :
    (∃ r, headerAdd c key (some value) = { ok := true, client := r } ∧
      WithHeaders c (c.headerBlock ++ headerLine key value) r) ∨
    (∃ r, headerAdd c key (some value) =
        { ok := false, client := r.setStatus .http507InsufficientStorage } ∧
      WithHeaders c c.headerBlock r ∧
      httpBufsz ≤ (c.headerBlock ++ headerLine key value).length) := by
  have used := ok.length_headerBlock
  have lengths : (c.headerBlock ++ headerLine key value).length =
      c.ta.resp.bufs.headers.len + (key ++ ascii ": ").length + value.length +
        (ascii "\r\n").length := by
    simp only [headerLine, List.length_append, used]
    omega
  have tooLarge {buf : Bytes} (size : buf.length = httpBufsz)
      (kept : buf.take c.ta.resp.bufs.headers.len = c.headerBlock) :
      WithHeaders c c.headerBlock (c.setHeaders buf c.ta.resp.bufs.headers.len) := by
    refine ⟨size, used ▸ ok.inside, ?_, ?_⟩
    · rw [used]; rfl
    · rw [used]; exact kept
  have cut {buf : Bytes} {n : Nat} {bs : Bytes}
      (h : buf.take (c.ta.resp.bufs.headers.len + n) = c.headerBlock ++ bs) :
      buf.take c.ta.resp.bufs.headers.len = c.headerBlock := by
    have shorter := congrArg (List.take c.ta.resp.bufs.headers.len) h
    rwa [List.take_take, Nat.min_eq_left (by omega), List.take_left' used] at shorter
  rcases strAppend_cases (key ++ ascii ": ") ok.size ok.inside with
    ⟨b₁, e₁, l₁, f₁, t₁⟩ | ⟨b₁, e₁, l₁, f₁, t₁⟩
  · rcases strAppend_cases value l₁ f₁ with ⟨b₂, e₂, l₂, f₂, t₂⟩ | ⟨b₂, e₂, l₂, f₂, t₂⟩
    · rcases strAppend_cases (ascii "\r\n") l₂ f₂ with
        ⟨b₃, e₃, l₃, f₃, t₃⟩ | ⟨b₃, e₃, l₃, f₃, t₃⟩
      · left
        refine ⟨c.setHeaders b₃ (c.headerBlock ++ headerLine key value).length, ?_, l₃, ?_, rfl, ?_⟩
        · simp only [headerAdd, e₁, e₂, e₃, not_true_eq_false, if_false, lengths]
        · rw [lengths]; exact f₃
        · rw [lengths]
          change b₃.take _ = _
          rw [t₃, t₂, t₁]
          simp only [headerLine, Client.headerBlock, List.append_assoc]
      · right
        refine ⟨c.setHeaders b₃ c.ta.resp.bufs.headers.len, ?_, tooLarge l₃ ?_, by omega⟩
        · simp only [headerAdd, e₁, e₂, e₃, not_true_eq_false, if_false, Bool.false_eq_true,
            not_false_eq_true, if_true]
          rfl
        · rw [t₂, t₁, List.append_assoc, ← Client.headerBlock, Nat.add_assoc] at t₃
          exact cut t₃
    · right
      refine ⟨c.setHeaders b₂ c.ta.resp.bufs.headers.len, ?_, tooLarge l₂ ?_, by omega⟩
      · simp only [headerAdd, e₁, e₂, not_true_eq_false, if_false, Bool.false_eq_true,
          not_false_eq_true, if_true]
        rfl
      · rw [t₁, ← Client.headerBlock] at t₂
        exact cut t₂
  · right
    refine ⟨c.setHeaders b₁ c.ta.resp.bufs.headers.len, ?_, tooLarge l₁ t₁, by omega⟩
    simp only [headerAdd, e₁, Bool.false_eq_true, not_false_eq_true, if_true]
    rfl

theorem headerAdd_fits {key value : Bytes} (ok : HeadersOk c)
    (fits : (c.headerBlock ++ headerLine key value).length < httpBufsz) :
    ∃ r, headerAdd c key (some value) = { ok := true, client := r } ∧
      WithHeaders c (c.headerBlock ++ headerLine key value) r := by
  rcases headerAdd_cases key value ok with added | ⟨_, _, _, full⟩
  · exact added
  · omega

/-- Whatever a header function does, it only touches the header block and the status. -/
theorem headerAdd_shape (c : Client) (key : Bytes) (value : Rendering) :
    ∃ buf n, headerAdd c key value = { ok := true, client := c.setHeaders buf n } ∨
      headerAdd c key value =
        { ok := false, client := (c.setHeaders buf n).setStatus .http507InsufficientStorage } := by
  simp only [headerAdd, headerTooLarge]
  split
  · exact ⟨_, _, .inr rfl⟩
  · split
    · exact ⟨_, _, .inr rfl⟩
    · split
      · exact ⟨_, _, .inr rfl⟩
      · exact ⟨_, _, .inl rfl⟩

end Kitserv
