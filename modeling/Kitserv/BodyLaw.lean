import Kitserv.Api
import Kitserv.BufferSafety
import Kitserv.Lifecycle

namespace Kitserv

open Memory Script

inductive BodyOp where
  | write (data : Bytes)
  | writeFmt (first second : Rendering)
  | reset

abbrev BodyCall := BodyOp × ReallocOutcome

def BodyOp.data : BodyOp → Bytes
  | write data => data
  | writeFmt first _ => first.getD []
  | reset => []

def BodyCall.result : BodyCall → Client → BodyResult
  | (.write data, out), c => writeBody c data out
  | (.writeFmt first second, out), c => writeBodyFmt c first second out
  | (.reset, out), c => { rc := 0, client := resetBody c out }

/-- The law's own account: what the successful calls since the last reset have written. -/
def BodyCall.account (call : BodyCall) (rc : Int) (written : Bytes) : Bytes :=
  match call.1 with
  | .reset => []
  | op => if rc = -1 then written else written ++ op.data

def BodyCall.run (call : BodyCall) (s : Client × Bytes) : (Int × Nat) × (Client × Bytes) :=
  let r := call.result s.1
  ((r.rc, call.1.data.length), (r.client, call.account r.rc s.2))

/-- The call reports what it has appended, and the body is what the account says. -/
def ContentsLaw (r : (Int × Nat) × (Client × Bytes)) : Prop :=
  (r.1.1 = -1 ∨ r.1.1 = r.1.2) ∧ r.2.1.respBody.len = r.2.2.length ∧
    r.2.1.respBody.buf.take r.2.1.respBody.len.toNat = r.2.2

/-- The call stays clear of the defects of buffer.c: it fits with a byte to spare, or its
growth is refused; a text that does not fit must not fit on the second try either. -/
def FitsOrRefused : BodyCall → Client × Bytes → Prop
  | (.write data, out), (c, _) =>
    c.respBody.len + data.length < c.respBody.max ∨ (out.isFailed = true ∧ data.length ≠ 0)
  | (.writeFmt none _, _), _ => False
  | (.writeFmt (some text) second, out), (c, _) =>
    (text.length : Int) < c.respBody.max - c.respBody.len ∨
      (out.isFailed = true ∧ c.respBody.max - c.respBody.len < text.length ∧
        c.respBody.max - c.respBody.len < Buffer.printed second)
  | (.reset, _), _ => True

structure Buffer.Holds (b : Buffer) (written : Bytes) : Prop where
  max_eq : b.max = httpBufsz
  size : b.buf.length = httpBufsz
  len_le : b.len ≤ b.max
  len_eq : b.len = written.length
  contents : b.buf.take b.len.toNat = written

namespace Buffer

variable {b : Buffer} {written : Bytes}

theorem Holds.law (h : b.Holds written) :
    b.len = written.length ∧ b.buf.take b.len.toNat = written := ⟨h.len_eq, h.contents⟩

theorem Holds.put (h : b.Holds written) (data spare : Bytes)
    (room : b.len + (data ++ spare).length ≤ b.max) :
    Holds { b.put (data ++ spare) with len := b.len + data.length } (written ++ data) := by
  obtain ⟨max_eq, size, len_le, len_eq, contents⟩ := h
  have len : b.len.toNat = written.length := by omega
  refine ⟨max_eq, by rw [← size]; exact length_put b _, ?_, ?_, ?_⟩
  · simp only [List.length_append] at room
    simp only [put_max]
    omega
  · simp only [List.length_append]
    omega
  · have stored : (overwrite b.buf b.len.toNat (data ++ spare)).take
        (b.len.toNat + (data ++ spare).length) = b.buf.take b.len.toNat ++ (data ++ spare) :=
      take_overwrite_end (by omega)
    have cut : (b.len + (data.length : Int)).toNat = b.len.toNat + data.length := by omega
    have front := congrArg (List.take (b.len.toNat + data.length)) stored
    rw [List.take_take, Nat.min_eq_left (by simp only [List.length_append]; omega), contents,
      ← List.append_assoc, List.take_left' (by simp only [List.length_append]; omega)] at front
    simp only [put_buf (show 0 ≤ b.len by omega), cut, front]

theorem Holds.keep (h : b.Holds written) {b' : Buffer} (len : b'.len = b.len) (max : b'.max = b.max)
    (size : b'.buf.length = b.buf.length)
    (front : b'.buf.take b.len.toNat = b.buf.take b.len.toNat) : b'.Holds written :=
  ⟨max.trans h.max_eq, size.trans h.size, by rw [len, max]; exact h.len_le, len.trans h.len_eq,
    by rw [len, front]; exact h.contents⟩

theorem Holds.vsnprintf (h : b.Holds written) (r : Rendering) :
    (b.vsnprintf r).buffer.Holds written := by
  obtain ⟨len, max, size, -⟩ := vsnprintf_spec b r
  refine h.keep len max size ?_
  cases r with
  | none => rfl
  | some text =>
    have nonneg : 0 ≤ b.len := by have := h.len_eq; omega
    simp only [Buffer.vsnprintf, put_buf nonneg]
    exact take_overwrite_of_le _ _ (Nat.le_refl _)

theorem append_law (h : b.Holds written) (data : Bytes) (out : ReallocOutcome)
    (fits : b.len + data.length < b.max ∨ (out.isFailed = true ∧ data.length ≠ 0)) :
    ((b.append data out).rc = 0 ∧ (b.append data out).buffer.Holds (written ++ data) ∧
      (b.append data out).buffer.len - b.len = data.length) ∨
    ((b.append data out).rc = -1 ∧ (b.append data out).buffer.Holds written) := by
  simp only [append]
  by_cases room : b.len + data.length < b.max
  · left
    rw [ensureSpace_fits room]
    have stored := h.put data [] (by rw [List.append_nil]; omega)
    rw [List.append_nil] at stored
    exact ⟨rfl, stored, by simp only; omega⟩
  · right
    obtain ⟨refused, some⟩ := fits.resolve_left room
    rw [ensureSpace_failed (by omega) some refused]
    exact ⟨rfl, h⟩

theorem vsnprintf_text (h : b.Holds written) (text : Bytes)
    (fits : (text.length : Int) < b.max - b.len) :
    (b.vsnprintf (some text)).buffer = b.put (text ++ [0]) := by
  obtain ⟨max_eq, -, -, len_eq, -⟩ := h
  have size : toSizeT (b.max - b.len) = (b.max - b.len).toNat := by
    unfold toSizeT
    simp only [max_eq, httpBufsz] at *
    omega
  have all : text.take ((b.max - b.len).toNat - 1) = text := List.take_of_length_le (by omega)
  simp only [vsnprintf, rendered, size, all]
  rw [if_neg (by omega)]

theorem appendva_law (h : b.Holds written) (text : Bytes) (second : Rendering)
    (out : ReallocOutcome)
    (fits : (text.length : Int) < b.max - b.len ∨
      (out.isFailed = true ∧ b.max - b.len < text.length ∧ b.max - b.len < printed second)) :
    ((b.appendva (some text) second out).rc = 0 ∧
      (b.appendva (some text) second out).buffer.Holds (written ++ text) ∧
      (b.appendva (some text) second out).buffer.len - b.len = text.length) ∨
    ((b.appendva (some text) second out).rc = -1 ∧
      (b.appendva (some text) second out).buffer.Holds written) := by
  rcases fits with room | ⟨refused, big, again⟩
  · left
    rw [appendva_fits (by simp only [printed]; omega)]
    simp only [vsnprintf_text h text room, printed]
    refine ⟨trivial, h.put text [0] ?_, by omega⟩
    simp only [List.length_append, List.length_singleton]
    omega
  · right
    obtain ⟨len, max, -, -⟩ := vsnprintf_spec b (some text)
    have nonneg := h.len_eq
    have inside := h.len_le
    have grown : (b.vsnprintf (some text)).buffer.expand (printed (some text)) out =
        (b.vsnprintf (some text)).buffer := by
      rw [expand_of_nonneg (by simp only [printed]; omega),
        ensureSpace_failed (by simp only [printed]; omega) (by simp only [printed]; omega) refused]
    rw [appendva_retries (by simpa only [printed] using big) grown, if_neg (by omega)]
    exact ⟨rfl, (h.vsnprintf (some text)).vsnprintf second⟩

end Buffer

theorem resetBody_holds {c : Client} {written : Bytes} (h : c.respBody.Holds written)
    (out : ReallocOutcome) : (resetBody c out).respBody.Holds [] := by
  have small : ¬ c.respBody.max > (httpBufsz : Int) := by rw [h.max_eq]; omega
  simp only [resetBody, Buffer.reset, if_neg small]
  exact ⟨h.max_eq, h.size, by rw [h.max_eq]; simp [httpBufsz], rfl, rfl⟩

theorem bodyCall_law {call : BodyCall} {s : Client × Bytes} (h : s.1.respBody.Holds s.2)
    (fits : FitsOrRefused call s) :
    ContentsLaw (call.run s) ∧ (call.run s).2.1.respBody.Holds (call.run s).2.2 := by
  obtain ⟨c, written⟩ := s
  obtain ⟨op, out⟩ := call
  cases op with
  | write data =>
    rcases Buffer.append_law h data out fits with ⟨rc, holds, grows⟩ | ⟨rc, holds⟩
    · have report : (writeBody c data out).rc = data.length := by
        simp only [writeBody, rc]
        simpa using grows
      have body : (writeBody c data out).client.respBody = (c.respBody.append data out).buffer := by
        simp only [writeBody]
        split <;> rfl
      have account : BodyCall.account (.write data, out) (data.length : Int) written =
          written ++ data := by
        simp only [BodyCall.account, BodyOp.data]
        rw [if_neg (by omega)]
      simp only [BodyCall.run, BodyCall.result, report, account, ContentsLaw, body]
      exact ⟨⟨.inr rfl, holds.law⟩, holds⟩
    · simp only [BodyCall.run, BodyCall.result, writeBody, rc, ContentsLaw, BodyCall.account]
      exact ⟨⟨.inl rfl, holds.law⟩, holds⟩
  | writeFmt first second =>
    cases first with
    | none => exact absurd fits (by simp [FitsOrRefused])
    | some text =>
      rcases Buffer.appendva_law h text second out fits with ⟨rc, holds, grows⟩ | ⟨rc, holds⟩
      · have report : (writeBodyFmt c (some text) second out).rc = text.length := by
          simp only [writeBodyFmt, rc]
          simpa using grows
        have body : (writeBodyFmt c (some text) second out).client.respBody =
            (c.respBody.appendva (some text) second out).buffer := by
          simp only [writeBodyFmt]
          split <;> rfl
        have account : BodyCall.account (.writeFmt (some text) second, out) (text.length : Int)
            written = written ++ text := by
          simp only [BodyCall.account, BodyOp.data, Option.getD_some]
          rw [if_neg (by omega)]
        simp only [BodyCall.run, BodyCall.result, report, account, ContentsLaw, body]
        exact ⟨⟨.inr rfl, holds.law⟩, holds⟩
      · simp only [BodyCall.run, BodyCall.result, writeBodyFmt, rc, ContentsLaw, BodyCall.account]
        exact ⟨⟨.inl rfl, holds.law⟩, holds⟩
  | reset =>
    have empty := resetBody_holds h out
    simp only [BodyCall.run, BodyCall.result, BodyCall.account, ContentsLaw, BodyOp.data]
    exact ⟨⟨.inr rfl, empty.law⟩, empty⟩

theorem createClientStruct_holds (blocks : Blocks) :
    (createClientStruct blocks).respBody.Holds [] :=
  ⟨congrArg Int.ofNat blocks.respBody_len, blocks.respBody_len,
    by simp [createClientStruct, Buffer.init], rfl, rfl⟩

/-- The contents law over whole histories of body calls on a fresh client. -/
theorem body_contents_law (blocks : Blocks) (calls : List BodyCall)
    (fits : Meets BodyCall.run FitsOrRefused calls (createClientStruct blocks, [])) :
    ∀ r ∈ runs BodyCall.run calls (createClientStruct blocks, []), ContentsLaw r :=
  have step : ∀ (call : BodyCall) (s : Client × Bytes), s.1.respBody.Holds s.2 →
      FitsOrRefused call s → ContentsLaw (call.run s) ∧ (call.run s).2.1.respBody.Holds (call.run s).2.2 :=
    fun _ _ holds fits => bodyCall_law holds fits
  good_of_meets step (createClientStruct_holds blocks) fits

theorem write_fits_empty {c : Client} {data : Bytes} (h : c.respBody.Holds [])
    (short : data.length < httpBufsz) (out : ReallocOutcome) :
    FitsOrRefused (.write data, out) (c, []) := by
  left
  rw [h.len_eq, h.max_eq]
  simp only [List.length_nil]
  omega

theorem writeFmt_fits_empty {c : Client} {text : Bytes} (h : c.respBody.Holds [])
    (short : text.length < httpBufsz) (second : Rendering) (out : ReallocOutcome) :
    FitsOrRefused (.writeFmt (some text) second, out) (c, []) := by
  left
  rw [h.len_eq, h.max_eq]
  simp only [List.length_nil]
  omega

theorem meets_after_reset {c : Client} (h : c.respBody.Holds []) {data text : Bytes}
    (short : data.length < httpBufsz) (short' : text.length < httpBufsz) (second : Rendering)
    (out : ReallocOutcome) :
    Meets BodyCall.run FitsOrRefused
      [(.write data, out), (.reset, out), (.writeFmt (some text) second, out)] (c, []) := by
  have first := write_fits_empty h short out
  have written := (bodyCall_law (s := (c, [])) h first).2
  exact ⟨first, trivial, writeFmt_fits_empty (resetBody_holds written out) short' second out, trivial⟩

theorem body_contents_law_short : ContentsLaw (BodyCall.run (.write (ascii "not kept"), .failed)
    (createClientStruct Blocks.zeroed, [])) :=
  body_contents_law _ [(.write (ascii "not kept"), .failed), (.reset, .failed),
      (.writeFmt (some (ascii "kept")) none, .failed)]
    (meets_after_reset (createClientStruct_holds _) (by decide) (by decide) none .failed) _
    (List.mem_cons_self ..)

theorem growth_breaks_law {s : Client × Bytes} (h : s.1.respBody.Holds s.2) (some : s.2 ≠ [])
    {data : Bytes} {out : ReallocOutcome} (full : s.1.respBody.max ≤ s.1.respBody.len + data.length)
    (asked : data.length ≠ 0) (granted : out.isFailed = false) :
    ¬ ContentsLaw (BodyCall.run (.write data, out) s) := by
  obtain ⟨c, written⟩ := s
  obtain ⟨block, size, eq⟩ := Buffer.ensureSpace_moved (b := c.respBody) full asked granted
  have filled : written.length ≠ 0 := fun none => some (List.length_eq_zero_iff.mp none)
  have len := h.len_eq
  simp only at len
  have report : (writeBody c data out).rc = data.length := by
    simp only [writeBody, Buffer.append, eq, ne_eq, not_true_eq_false, if_false]
    omega
  have account : BodyCall.account (.write data, out) (data.length : Int) written =
      written ++ data := by
    simp only [BodyCall.account, BodyOp.data]
    rw [if_neg (by omega)]
  rintro ⟨-, -, contents⟩
  simp only [BodyCall.run, BodyCall.result, report, account] at contents
  have short := congrArg List.length contents
  simp only [writeBody, Buffer.append, eq] at short
  simp [Buffer.length_put, size] at short
  omega

theorem account_of_fits {c : Client} {written data : Bytes} {out : ReallocOutcome}
    (room : c.respBody.len + data.length < c.respBody.max) :
    (BodyCall.run (.write data, out) (c, written)).2.2 = written ++ data := by
  have report : (writeBody c data out).rc = data.length := by
    simp only [writeBody, Buffer.append, Buffer.ensureSpace_fits room, ne_eq, not_true_eq_false,
      if_false]
    omega
  simp only [BodyCall.run, BodyCall.result, BodyCall.account, BodyOp.data, report]
  rw [if_neg (by omega)]

theorem second_write_breaks {c : Client} (h : c.respBody.Holds []) {data more : Bytes}
    {out : ReallocOutcome} (some : data ≠ []) (asked : more ≠ []) (short : data.length < httpBufsz)
    (full : httpBufsz ≤ data.length + more.length) (granted : out.isFailed = false) :
    ¬ ∀ r ∈ runs BodyCall.run [(.write data, .failed), (.write more, out)] (c, []), ContentsLaw r := by
  intro all
  have first := write_fits_empty h short .failed
  have written := (bodyCall_law (s := (c, [])) h first).2
  have account : (BodyCall.run (.write data, .failed) (c, [])).2.2 = data := by
    refine account_of_fits ?_
    rw [h.len_eq, h.max_eq]
    simp only [List.length_nil]
    omega
  have len := written.len_eq
  rw [account] at len
  refine growth_breaks_law written (by rw [account]; exact some) ?_ ?_ granted
    (all (BodyCall.run (.write more, out) (BodyCall.run (.write data, .failed) (c, [])).2)
      (by simp [runs]))
  · rw [written.max_eq, len]
    omega
  · simpa using asked

theorem replicate_ne_nil {n : Nat} (b : Byte) (h : n ≠ 0) : List.replicate n b ≠ [] := by
  simpa using h

/-- 4000 bytes, and then 200 bytes that get a new block: it is 200 bytes long. -/
theorem body_growth_breaks : ¬ ∀ r ∈ runs BodyCall.run
    [(.write (List.replicate 4000 65), .failed), (.write (List.replicate 200 66), .moved fun _ => 0)]
    (createClientStruct Blocks.zeroed, []), ContentsLaw r :=
  second_write_breaks (createClientStruct_holds _) (replicate_ne_nil 65 (by decide))
    (replicate_ne_nil 66 (by decide)) (by rw [List.length_replicate]; decide)
    (by rw [List.length_replicate, List.length_replicate]; decide) rfl

end Kitserv
