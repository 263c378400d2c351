import Kitserv.Basis.Script
import Kitserv.Api
import Kitserv.HeaderText
import Kitserv.Lifecycle

namespace Kitserv

open Script

inductive HeaderCall where
  | add (key value : Bytes)
  | reset

structure HeaderAnswer where
  call : HeaderCall
  before : Client
  ok : Bool

def HeaderCall.result : HeaderCall → Client → Result
  | .add key value, c => headerAdd c key (some value)
  | .reset, c => { ok := true, client := resetHeaders c }

/-- The law's own account: the lines of the successful calls since the last reset. -/
def HeaderCall.account (ok : Bool) (written : Bytes) : HeaderCall → Bytes
  | .add key value => if ok then written ++ headerLine key value else written
  | .reset => []

def HeaderCall.run (call : HeaderCall) (s : Client × Bytes) : HeaderAnswer × (Client × Bytes) :=
  let r := call.result s.1
  ({ call := call, before := s.1, ok := r.ok }, (r.client, call.account r.ok s.2))

structure Accounted (s : Client × Bytes) : Prop where
  headers : HeadersOk s.1
  len : s.1.ta.resp.bufs.headers.len = s.2.length
  block : s.1.respHeaders.take s.1.ta.resp.bufs.headers.len = s.2

/-- What an answer says: a line is refused for want of room alone, and then nothing has changed
but the status. -/
def HeaderAnswer.Lawful (answer : HeaderAnswer) (after : Client) : Prop :=
  match answer.call with
  | .reset => True
  | .add key value =>
    (answer.ok = false ↔
      httpBufsz ≤ answer.before.ta.resp.bufs.headers.len + (headerLine key value).length) ∧
    (answer.ok = false →
      after.ta.resp.bufs.headers.len = answer.before.ta.resp.bufs.headers.len ∧
      after.respHeaders.take answer.before.ta.resp.bufs.headers.len =
        answer.before.respHeaders.take answer.before.ta.resp.bufs.headers.len ∧
      after.ta.resp.status = .http507InsufficientStorage)

variable {c r : Client} {written block : Bytes}

theorem HeadersOk.accounted (ok : HeadersOk c) : Accounted (c, c.headerBlock) :=
  ⟨ok, ok.length_headerBlock.symm, rfl⟩

theorem WithHeaders.accounted (h : WithHeaders c block r) : Accounted (r, block) := by
  have accounted := h.headersOk.accounted
  rwa [h.headerBlock] at accounted

theorem Accounted.setStatus (h : Accounted (r, block)) (status : HttpStatus) :
    Accounted (r.setStatus status, block) :=
  ⟨⟨h.headers.size, h.headers.inside⟩, h.len, h.block⟩

/-- One line, at any place of the block where the limit may fall. -/
theorem headerAdd_accounted (h : Accounted (c, written)) (key value : Bytes) :
    Accounted ((HeaderCall.add key value).run (c, written)).2 ∧
      ((HeaderCall.add key value).run (c, written)).1.Lawful
        ((HeaderCall.add key value).run (c, written)).2.1 := by
  have headers : HeadersOk c := h.headers
  have block : c.headerBlock = written := h.block
  have used : (c.headerBlock ++ headerLine key value).length =
      c.ta.resp.bufs.headers.len + (headerLine key value).length := by
    rw [List.length_append, headers.length_headerBlock]
  rcases headerAdd_cases key value headers with ⟨r, added, grown⟩ | ⟨r, refused, same, full⟩
  · rw [block] at grown used
    have fits := grown.inside
    simp only [HeaderCall.run, HeaderCall.result, added, HeaderCall.account, if_true]
    refine ⟨grown.accounted, ?_, ?_⟩
    · simp only [Bool.true_eq_false, false_iff]
      omega
    · intro failed
      cases failed
  · rw [block] at same
    have kept := same.accounted
    simp only [HeaderCall.run, HeaderCall.result, refused, HeaderCall.account, Bool.false_eq_true,
      if_false]
    refine ⟨kept.setStatus _, ?_, ?_⟩
    · exact ⟨fun _ => used ▸ full, fun _ => rfl⟩
    · intro _
      have len : r.ta.resp.bufs.headers.len = c.ta.resp.bufs.headers.len :=
        kept.len.trans h.len.symm
      refine ⟨len, ?_, rfl⟩
      have text : r.respHeaders.take r.ta.resp.bufs.headers.len =
          c.respHeaders.take c.ta.resp.bufs.headers.len := kept.block.trans h.block.symm
      rwa [len] at text

theorem headerCall_accounted (call : HeaderCall) {s : Client × Bytes} (h : Accounted s) :
    Accounted (call.run s).2 ∧ (call.run s).1.Lawful (call.run s).2.1 := by
  obtain ⟨c, written⟩ := s
  cases call with
  | add key value => exact headerAdd_accounted h key value
  | reset => exact ⟨⟨⟨h.headers.size, Nat.zero_lt_succ _⟩, rfl, rfl⟩, trivial⟩

/-- The accumulation law over every history of header calls, from any state of the block. -/
theorem header_accumulation_law (ok : HeadersOk c) (calls : List HeaderCall) :
    ∀ r ∈ runs HeaderCall.run calls (c, c.headerBlock), Accounted r.2 ∧ r.1.Lawful r.2.1 := by
  have start := ok.accounted
  generalize (c, c.headerBlock) = s at start
  induction calls generalizing s with
  | nil => simp [runs]
  | cons call rest ih =>
    obtain ⟨accounted, lawful⟩ := headerCall_accounted call start
    intro r member
    rcases List.mem_cons.mp member with rfl | later
    · exact ⟨accounted, lawful⟩
    · exact ih _ accounted r later

theorem createClientStruct_headersOk (blocks : Blocks) : HeadersOk (createClientStruct blocks) :=
  ⟨blocks.respHeaders_len, Nat.zero_lt_succ _⟩

theorem header_accumulation_law_fresh : Accounted (HeaderCall.run (.add (ascii "a") (ascii "b"))
    (createClientStruct Blocks.zeroed, (createClientStruct Blocks.zeroed).headerBlock)).2 :=
  (header_accumulation_law (createClientStruct_headersOk Blocks.zeroed)
    [.add (ascii "a") (ascii "b"), .reset] _ (List.mem_cons_self ..)).1

end Kitserv
