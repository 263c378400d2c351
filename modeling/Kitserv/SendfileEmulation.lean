import Kitserv.Basis.Memory
import Kitserv.Kernel
import Mathlib

/-! `sendfile_emulation`, the loops of pread and write that stand in for sendfile where the system has
none. The answers of the system calls are a sequence without an end, one for each call. -/
namespace Kitserv

open Memory

def sfeBufsz : Nat := 4096

/-- What `sendfile_emulation` is called with, and how the system is going to answer it. -/
structure SendfileCall where
  file : Bytes
  offset : Int
  count : Nat
  answers : Nat → Transfer

/-- Where control is in `sendfile_emulation`: in front of pread, in front of the write of what the
buffer holds, or behind the return. -/
inductive EmulationPoint where
  | pread
  | write (buf : Bytes)
  | returned (rc : Int)
  deriving DecidableEq, Repr

structure Emulation where
  point : EmulationPoint
  remaining : Nat
  offset : Int
  written : Bytes
  calls : Nat
  deriving DecidableEq, Repr

def Transfer.moved (limit : Nat) : Transfer → Option Nat
  | bytes n => some (min (max n 1) limit)
  | wouldBlock | failed _ => none

def Transfer.Succeeds (t : Transfer) : Prop := ∃ n, t = .bytes n

namespace SendfileCall

def cap (x : SendfileCall) : Nat := if x.count > 0x7ffff000 then 0x7ffff000 else x.count

/-- What pread puts into the buffer. It refuses an offset below 0. -/
def pread (x : SendfileCall) (want : Nat) (offset : Int) (t : Transfer) : Option Bytes :=
  if offset < 0 then none
  else (t.moved (min want (x.file.length - offset.toNat))).map fun n =>
    slice x.file offset.toNat (offset.toNat + n)

def err (x : SendfileCall) (e : Emulation) : Emulation :=
  { e with point := .returned (if x.cap - e.remaining > 0 then (x.cap - e.remaining : Nat) else -1) }

def finish (x : SendfileCall) (e : Emulation) : Emulation :=
  { e with point := .returned (x.cap - e.remaining : Nat) }

def step (x : SendfileCall) (e : Emulation) : Emulation :=
  match e.point with
  | .pread =>
    let answer := x.pread (min sfeBufsz e.remaining) e.offset (x.answers e.calls)
    let e := { e with calls := e.calls + 1 }
    match answer with
    | none => x.err e
    | some buf => { e with point := .write buf }
  | .write buf =>
    let answer := (x.answers e.calls).moved buf.length
    let e := { e with calls := e.calls + 1 }
    match answer with
    | none => x.err e
    | some sent =>
      let e := { e with written := e.written ++ buf.take sent }
      -- the next write starts at the front of the buffer again
      if sent < buf.length then e
      else
        let e := { e with remaining := e.remaining - sent, offset := e.offset + sent }
        if e.remaining > 0 then { e with point := .pread } else x.finish e
  | .returned _ => e

def emulation (x : SendfileCall) (i : Nat) : Emulation :=
  x.step^[i] { point := .pread, remaining := x.cap, offset := x.offset, written := [], calls := 0 }

/-- What Linux promises of a sendfile that returns `rc`. -/
structure Law (x : SendfileCall) (rc : Int) (e : Emulation) : Prop where
  sent : 0 ≤ rc → e.written = slice x.file x.offset.toNat (x.offset.toNat + rc.toNat) ∧
    e.written.length = rc ∧ e.offset = x.offset + rc
  failed : rc = -1 → e.written = [] ∧ e.offset = x.offset

def Refines (x : SendfileCall) : Prop :=
  ∃ i rc, (x.emulation i).point = .returned rc ∧ x.Law rc (x.emulation i)

def chunkAt (x : SendfileCall) (j done : Nat) : Nat :=
  ((x.answers (2 * j)).moved
    (min (min sfeBufsz (x.cap - done)) (x.file.length - (x.offset.toNat + done)))).getD 0

def sentBefore (x : SendfileCall) : Nat → Nat
  | 0 => 0
  | j + 1 => x.sentBefore j + x.chunkAt j (x.sentBefore j)

def chunk (x : SendfileCall) (j : Nat) : Nat := x.chunkAt j (x.sentBefore j)

def WholeWrites (x : SendfileCall) : Prop :=
  ∀ j, (∀ i ≤ 2 * j + 1, (x.answers i).Succeeds) → x.sentBefore j < x.cap →
    (x.answers (2 * j + 1)).moved (x.chunk j) = some (x.chunk j)

end SendfileCall

namespace Transfer

variable {t : Transfer} {limit n : Nat}

theorem moved_le (h : t.moved limit = some n) : n ≤ limit := by
  cases t with
  | bytes m =>
    cases h
    exact Nat.min_le_right ..
  | wouldBlock | failed => cases h

theorem moved_pos (h : t.moved limit = some n) (room : 0 < limit) : 0 < n := by
  cases t with
  | bytes m =>
    cases h
    omega
  | wouldBlock | failed => cases h

theorem moved_none (fails : ¬ t.Succeeds) (limit : Nat) : t.moved limit = none := by
  cases t with
  | bytes m => exact absurd ⟨m, rfl⟩ fails
  | wouldBlock | failed => rfl

theorem Succeeds.moved (h : t.Succeeds) (limit : Nat) : ∃ n, t.moved limit = some n := by
  obtain ⟨n, rfl⟩ := h
  exact ⟨_, rfl⟩

end Transfer

namespace SendfileCall

variable {x : SendfileCall} {j : Nat}

theorem chunk_le (x : SendfileCall) (j : Nat) : x.chunk j ≤
    min (min sfeBufsz (x.cap - x.sentBefore j))
      (x.file.length - (x.offset.toNat + x.sentBefore j)) := by
  unfold chunk chunkAt
  cases moved : (x.answers (2 * j)).moved (min (min sfeBufsz (x.cap - x.sentBefore j))
      (x.file.length - (x.offset.toNat + x.sentBefore j))) with
  | none => exact Nat.zero_le _
  | some n => exact Transfer.moved_le moved

theorem sentBefore_succ (x : SendfileCall) (j : Nat) :
    x.sentBefore (j + 1) = x.sentBefore j + x.chunk j := rfl

theorem sentBefore_le (x : SendfileCall) (j : Nat) :
    x.sentBefore j ≤ x.cap ∧ x.sentBefore j ≤ x.file.length - x.offset.toNat := by
  induction j with
  | zero => exact ⟨Nat.zero_le _, Nat.zero_le _⟩
  | succ j ih =>
    have chunk := x.chunk_le j
    rw [sentBefore_succ]
    omega

theorem chunk_pos (read : (x.answers (2 * j)).Succeeds) (more : x.sentBefore j < x.cap)
    (inside : x.offset.toNat + x.sentBefore j < x.file.length) : 0 < x.chunk j := by
  have size : 0 < sfeBufsz := by decide
  obtain ⟨n, moved⟩ := read.moved (min (min sfeBufsz (x.cap - x.sentBefore j))
    (x.file.length - (x.offset.toNat + x.sentBefore j)))
  rw [chunk, chunkAt, moved]
  exact Transfer.moved_pos moved (by omega)

def atRound (x : SendfileCall) (j : Nat) : Emulation where
  point := .pread
  remaining := x.cap - x.sentBefore j
  offset := (x.offset.toNat + x.sentBefore j : Nat)
  written := slice x.file x.offset.toNat (x.offset.toNat + x.sentBefore j)
  calls := 2 * j

def inRound (x : SendfileCall) (j : Nat) : Emulation :=
  { x.atRound j with
    point := .write (slice x.file (x.offset.toNat + x.sentBefore j)
      (x.offset.toNat + x.sentBefore (j + 1)))
    calls := 2 * j + 1 }

/-- The bytes of the chunk of round `j`. -/
theorem length_chunk (x : SendfileCall) (j : Nat) :
    (slice x.file (x.offset.toNat + x.sentBefore j)
      (x.offset.toNat + x.sentBefore (j + 1))).length = x.chunk j := by
  have chunk := x.chunk_le j
  simp only [length_slice, sentBefore_succ]
  omega

theorem not_negative (n : Nat) : ¬ (n : Int) < 0 := by omega

theorem atRound_step (read : (x.answers (2 * j)).Succeeds) : x.step (x.atRound j) = x.inRound j := by
  obtain ⟨n, moved⟩ := read.moved (min (min sfeBufsz (x.cap - x.sentBefore j))
    (x.file.length - (x.offset.toNat + x.sentBefore j)))
  have size : x.chunk j = n := by
    rw [chunk, chunkAt, moved]
    rfl
  simp only [step, atRound, pread, if_neg (not_negative _), Int.toNat_natCast, moved,
    Option.map_some, inRound, sentBefore_succ, size, Nat.add_assoc]

theorem atRound_err (fails : ¬ (x.answers (2 * j)).Succeeds) :
    x.step (x.atRound j) = x.err { x.atRound j with calls := 2 * j + 1 } := by
  simp only [step, atRound, pread, if_neg (not_negative _), Int.toNat_natCast,
    Transfer.moved_none fails, Option.map_none]

theorem inRound_err (fails : ¬ (x.answers (2 * j + 1)).Succeeds) :
    x.step (x.inRound j) =
      x.err { x.inRound j with calls := 2 * j + 2 } := by
  simp only [step, inRound, Transfer.moved_none fails]

/-- A write that takes the whole chunk leads to the next round, or to the end. -/
theorem inRound_step (whole : (x.answers (2 * j + 1)).moved (x.chunk j) = some (x.chunk j)) :
    x.step (x.inRound j) = if x.sentBefore (j + 1) < x.cap then x.atRound (j + 1)
      else x.finish (x.atRound (j + 1)) := by
  have size := x.length_chunk j
  have next := x.sentBefore_succ j
  have text : slice x.file x.offset.toNat (x.offset.toNat + x.sentBefore j) ++
      (slice x.file (x.offset.toNat + x.sentBefore j) (x.offset.toNat + x.sentBefore (j + 1))).take
        (x.chunk j) =
      slice x.file x.offset.toNat (x.offset.toNat + x.sentBefore (j + 1)) := by
    rw [List.take_of_length_le (Nat.le_of_eq size), slice_append_slice _ (Nat.le_add_right ..)]
    omega
  have left : x.cap - x.sentBefore j - x.chunk j = x.cap - x.sentBefore (j + 1) := by omega
  have place : ((x.offset.toNat + x.sentBefore j : Nat) : Int) + (x.chunk j : Int) =
      (x.offset.toNat + x.sentBefore (j + 1) : Nat) := by omega
  simp only [step, inRound, size, whole, Nat.lt_irrefl, if_false, atRound, text, left, place]
  by_cases more : x.sentBefore (j + 1) < x.cap
  · rw [if_pos (by omega), if_pos more]
    rfl
  · rw [if_neg (by omega), if_neg more]
    rfl

theorem emulation_succ (x : SendfileCall) (i : Nat) : x.emulation (i + 1) = x.step (x.emulation i) :=
  Function.iterate_succ_apply' ..

theorem emulation_start (low : 0 ≤ x.offset) : x.emulation 0 = x.atRound 0 := by
  have offset : ((x.offset.toNat : Nat) : Int) = x.offset := Int.toNat_of_nonneg low
  simp [emulation, atRound, sentBefore, offset]

/-- As long as every call succeeds and every write is whole, the rounds follow each other. -/
theorem emulation_atRound (low : 0 ≤ x.offset) (j : Nat) (calls : ∀ i < 2 * j, (x.answers i).Succeeds)
    (more : j ≠ 0 → x.sentBefore j < x.cap)
    (whole : ∀ j' < j, (x.answers (2 * j' + 1)).moved (x.chunk j') = some (x.chunk j')) :
    x.emulation (2 * j) = x.atRound j := by
  induction j with
  | zero => exact emulation_start low
  | succ j ih =>
    have more := more (Nat.succ_ne_zero j)
    have grown : x.sentBefore j ≤ x.sentBefore (j + 1) := Nat.le_add_right ..
    have here := ih (fun i less => calls i (by omega)) (fun _ => by omega)
      (fun j' less => whole j' (by omega))
    have next : 2 * (j + 1) = 2 * j + 1 + 1 := by omega
    rw [next, emulation_succ, emulation_succ, here, atRound_step (calls (2 * j) (by omega)),
      inRound_step (whole j (Nat.lt_succ_self j)), if_pos more]

section Return

variable {i i' : Nat} {rc rc' : Int}

theorem emulation_stays (done : (x.emulation i).point = .returned rc) (n : Nat) :
    x.emulation (n + i) = x.emulation i := by
  have fixed : x.step (x.emulation i) = x.emulation i := by simp only [step, done]
  rw [emulation, Function.iterate_add_apply]
  exact Function.iterate_fixed fixed n

theorem returned_once (done : (x.emulation i).point = .returned rc)
    (done' : (x.emulation i').point = .returned rc') : x.emulation i = x.emulation i' := by
  rw [← emulation_stays done i', ← emulation_stays done' i, Nat.add_comm]

theorem Law.of_sent (low : 0 ≤ x.offset) {e : Emulation} {n : Nat}
    (inside : n ≤ x.file.length - x.offset.toNat) (offset : e.offset = (x.offset.toNat + n : Nat))
    (written : e.written = slice x.file x.offset.toNat (x.offset.toNat + n)) : x.Law n e := by
  refine ⟨fun _ => ⟨written, ?_, ?_⟩, fun failed => by omega⟩
  · rw [written, length_slice]
    omega
  · rw [offset]
    omega

theorem err_law (low : 0 ≤ x.offset) {e : Emulation} (remaining : e.remaining = x.cap - x.sentBefore j)
    (offset : e.offset = (x.offset.toNat + x.sentBefore j : Nat))
    (written : e.written = slice x.file x.offset.toNat (x.offset.toNat + x.sentBefore j)) :
    ∃ rc, (x.err e).point = .returned rc ∧ x.Law rc (x.err e) := by
  obtain ⟨fits, inside⟩ := x.sentBefore_le j
  have sent : x.cap - e.remaining = x.sentBefore j := by omega
  by_cases some : x.sentBefore j > 0
  · exact ⟨x.sentBefore j, by simp only [err, sent, if_pos some], .of_sent low inside offset written⟩
  · have none : x.sentBefore j = 0 := Nat.eq_zero_of_not_pos some
    refine ⟨-1, by simp only [err, sent, if_neg some], fun bad => absurd bad (by decide), fun _ => ?_⟩
    simp only [err, written, offset, none, Nat.add_zero, slice_self, true_and]
    omega

theorem finish_law (low : 0 ≤ x.offset) (j : Nat) :
    ∃ rc, (x.finish (x.atRound j)).point = .returned rc ∧ x.Law rc (x.finish (x.atRound j)) := by
  obtain ⟨fits, inside⟩ := x.sentBefore_le j
  have sent : x.cap - (x.cap - x.sentBefore j) = x.sentBefore j := by omega
  exact ⟨x.sentBefore j, by simp only [finish, atRound, sent], .of_sent low inside rfl rfl⟩

end Return

/-- A round ends the transfer as Linux would, or the next one follows. -/
theorem round_cases (low : 0 ≤ x.offset) (here : x.emulation (2 * j) = x.atRound j)
    (whole : (x.answers (2 * j)).Succeeds → (x.answers (2 * j + 1)).Succeeds →
      (x.answers (2 * j + 1)).moved (x.chunk j) = some (x.chunk j)) :
    x.Refines ∨ (x.answers (2 * j)).Succeeds ∧ (x.answers (2 * j + 1)).Succeeds ∧
      x.sentBefore (j + 1) < x.cap ∧ x.emulation (2 * (j + 1)) = x.atRound (j + 1) := by
  have first := x.emulation_succ (2 * j)
  have second := x.emulation_succ (2 * j + 1)
  rw [here] at first
  by_cases read : (x.answers (2 * j)).Succeeds
  · rw [atRound_step read] at first
    rw [first] at second
    by_cases written : (x.answers (2 * j + 1)).Succeeds
    · rw [inRound_step (whole read written)] at second
      by_cases more : x.sentBefore (j + 1) < x.cap
      · rw [if_pos more] at second
        exact .inr ⟨read, written, more, second⟩
      · rw [if_neg more] at second
        obtain ⟨rc, done, law⟩ := finish_law low (j + 1)
        exact .inl ⟨_, rc, by rw [second]; exact done, by rw [second]; exact law⟩
    · rw [inRound_err written] at second
      obtain ⟨rc, done, law⟩ := @err_law x j low { x.inRound j with calls := 2 * j + 2 } rfl rfl rfl
      exact .inl ⟨_, rc, by rw [second]; exact done, by rw [second]; exact law⟩
  · rw [atRound_err read] at first
    obtain ⟨rc, done, law⟩ := @err_law x j low { x.atRound j with calls := 2 * j + 1 } rfl rfl rfl
    exact .inl ⟨_, rc, by rw [first]; exact done, by rw [first]; exact law⟩

section Overrun

/-- More has been written than is accounted for. -/
structure Overrun (x : SendfileCall) (e : Emulation) : Prop where
  bound : e.remaining ≤ x.cap
  more : x.cap - e.remaining < e.written.length
  rc : ∀ rc, e.point = .returned rc → rc = -1 ∨ rc = (x.cap - e.remaining : Nat)

variable {e : Emulation}

theorem Overrun.err (overrun : x.Overrun e) : x.Overrun (x.err e) := by
  refine ⟨overrun.bound, overrun.more, ?_⟩
  rintro rc ⟨⟩
  by_cases some : x.cap - e.remaining > 0
  · exact .inr (if_pos some)
  · exact .inl (if_neg some)

theorem Overrun.step (overrun : x.Overrun e) : x.Overrun (x.step e) := by
  obtain ⟨bound, more, rc⟩ := overrun
  have moves {e' : Emulation} (remaining : e'.remaining = e.remaining)
      (written : e'.written = e.written) (here : ∀ rc, e'.point ≠ .returned rc) : x.Overrun e' :=
    ⟨by rw [remaining]; exact bound, by rw [remaining, written]; exact more,
      fun rc done => absurd done (here rc)⟩
  unfold SendfileCall.step
  cases point : e.point with
  | returned rc' =>
    simp only
    exact ⟨bound, more, rc⟩
  | pread =>
    simp only
    split
    · have failed : x.Overrun { e with calls := e.calls + 1 } := moves rfl rfl (by simp [point])
      exact failed.err
    · exact moves rfl rfl (by simp)
  | write buf =>
    simp only
    split
    · have failed : x.Overrun { e with calls := e.calls + 1 } := moves rfl rfl (by simp [point])
      exact failed.err
    · rename_i sent moved
      have taken : (buf.take sent).length = sent :=
        List.length_take_of_le (Transfer.moved_le moved)
      have later : x.cap - (e.remaining - sent) < (e.written ++ buf.take sent).length := by
        rw [List.length_append, taken]
        omega
      split
      · refine ⟨bound, ?_, by simp⟩
        simp only [List.length_append]
        omega
      · split
        · exact ⟨Nat.le_trans (Nat.sub_le ..) bound, later, by simp⟩
        · refine ⟨Nat.le_trans (Nat.sub_le ..) bound, later, ?_⟩
          rintro rc ⟨⟩
          exact .inr rfl

theorem Overrun.emulation {i : Nat} (overrun : x.Overrun (x.emulation i)) (n : Nat) :
    x.Overrun (x.emulation (n + i)) := by
  induction n with
  | zero => rwa [Nat.zero_add]
  | succ n ih =>
    rw [Nat.succ_add, emulation_succ]
    exact ih.step

theorem Overrun.breaks {i : Nat} (overrun : x.Overrun (x.emulation i)) : ¬ x.Refines := by
  rintro ⟨i', rc, done, law⟩
  have overrun' := overrun.emulation i'
  rw [Nat.add_comm, emulation_stays done] at overrun'
  rcases overrun'.rc rc done with rfl | rfl
  · have more := overrun'.more
    rw [(law.failed rfl).1] at more
    exact absurd more (by simp)
  · have length := (law.sent (by omega)).2.1
    have more := overrun'.more
    omega

/-- A write that leaves some of the chunk. -/
theorem overrun_of_short_write {n : Nat} (here : x.emulation (2 * j) = x.atRound j)
    (read : (x.answers (2 * j)).Succeeds) (moved : (x.answers (2 * j + 1)).moved (x.chunk j) = some n)
    (less : n ≠ x.chunk j) : x.Overrun (x.emulation (2 * j + 2)) := by
  have size := x.length_chunk j
  have bound := x.sentBefore_le j
  have chunk := x.chunk_le j
  have short : n < x.chunk j := Nat.lt_of_le_of_ne (Transfer.moved_le moved) less
  have some : 0 < n := Transfer.moved_pos moved (by omega)
  have next : x.emulation (2 * j + 2) = { x.inRound j with
      written := slice x.file x.offset.toNat (x.offset.toNat + x.sentBefore j) ++
        (slice x.file (x.offset.toNat + x.sentBefore j)
          (x.offset.toNat + x.sentBefore (j + 1))).take n
      calls := 2 * j + 2 } := by
    rw [emulation_succ, emulation_succ, here, atRound_step read]
    simp only [SendfileCall.step, inRound, size, moved, if_pos short, atRound]
  rw [next]
  refine ⟨Nat.sub_le .., ?_, by simp [inRound]⟩
  have before : (slice x.file x.offset.toNat (x.offset.toNat + x.sentBefore j)).length =
      x.sentBefore j := by
    rw [length_slice]
    omega
  simp only [inRound, atRound, List.length_append, before, List.length_take, size]
  omega

end Overrun

section Refinement

theorem moved_zero {t : Transfer} (h : t.Succeeds) : t.moved 0 = some 0 := by
  obtain ⟨n, rfl⟩ := h
  rw [Transfer.moved, Nat.min_zero]

theorem refines_negative (negative : x.offset < 0) : x.Refines := by
  refine ⟨1, -1, ?_, fun bad => absurd bad (by decide), fun _ => ?_⟩ <;>
    simp [emulation, step, pread, negative, err]

/-- The round that breaks the rule first is reached. -/
theorem wholeWrites_of_refines (low : 0 ≤ x.offset) (refines : x.Refines) : x.WholeWrites := by
  intro j
  induction j using Nat.strong_induction_on with
  | _ j ih =>
    intro calls more
    have here : x.emulation (2 * j) = x.atRound j := by
      refine emulation_atRound low j (fun i less => calls i (by omega)) (fun _ => more) fun j' less => ?_
      have grown : x.sentBefore j' ≤ x.sentBefore j :=
        monotone_nat_of_le_succ (fun n => Nat.le_add_right _ _) (Nat.le_of_lt less)
      exact ih j' less (fun i bound => calls i (by omega)) (by omega)
    obtain ⟨n, moved⟩ := (calls (2 * j + 1) (Nat.le_refl _)).moved (x.chunk j)
    rw [moved]
    by_contra partial_
    exact (overrun_of_short_write here (calls (2 * j) (by omega)) moved
      fun same => partial_ (by rw [same])).breaks refines

/-- Behind the end of the file only a call that fails ends the loop. -/
theorem ends_of_refines (low : 0 ≤ x.offset) (refines : x.Refines) :
    x.count = 0 ∨ x.offset + x.cap ≤ x.file.length ∨ ∃ i, ¬ (x.answers i).Succeeds := by
  by_contra never
  obtain ⟨some, short, calls⟩ : x.count ≠ 0 ∧ ¬ x.offset + x.cap ≤ x.file.length ∧
      ∀ i, (x.answers i).Succeeds := by
    simpa only [not_or, not_exists, not_not] using never
  have whole := wholeWrites_of_refines low refines
  have capped : 0 < x.cap := by
    unfold cap
    split <;> omega
  have more (j : Nat) : x.sentBefore j < x.cap := by
    have inside := (x.sentBefore_le j).2
    omega
  obtain ⟨i, rc, done, -⟩ := refines
  have here : x.emulation (2 * i) = x.atRound i :=
    emulation_atRound low i (fun i _ => calls i) (fun _ => more i)
      fun j _ => whole j (fun i _ => calls i) (more j)
  have later := emulation_stays done i
  rw [← Nat.two_mul, here] at later
  rw [← later] at done
  cases done

theorem refines_of_whole (low : 0 ≤ x.offset) (whole : x.WholeWrites)
    (ends : x.count = 0 ∨ x.offset + x.cap ≤ x.file.length ∨ ∃ i, ¬ (x.answers i).Succeeds) :
    x.Refines := by
  by_contra never
  have rounds (j : Nat) : x.emulation (2 * j) = x.atRound j ∧
      (∀ i < 2 * j, (x.answers i).Succeeds) ∧ (j ≠ 0 → x.sentBefore j < x.cap) := by
    induction j with
    | zero => exact ⟨emulation_start low, by simp, by simp⟩
    | succ j ih =>
      obtain ⟨here, calls, more⟩ := ih
      have taken (read : (x.answers (2 * j)).Succeeds) (written : (x.answers (2 * j + 1)).Succeeds) :
          (x.answers (2 * j + 1)).moved (x.chunk j) = some (x.chunk j) := by
        by_cases left : x.sentBefore j < x.cap
        · refine whole j (fun i bound => ?_) left
          rcases Nat.lt_or_ge i (2 * j) with before | behind
          · exact calls i before
          · obtain rfl | rfl : i = 2 * j ∨ i = 2 * j + 1 := by omega
            · exact read
            · exact written
        · have none : x.chunk j = 0 := by
            have chunk := x.chunk_le j
            omega
          rw [none]
          exact moved_zero written
      obtain ⟨read, written, more', next⟩ := (round_cases low here taken).resolve_left never
      refine ⟨next, fun i less => ?_, fun _ => more'⟩
      rcases Nat.lt_or_ge i (2 * j) with before | behind
      · exact calls i before
      · obtain rfl | rfl : i = 2 * j ∨ i = 2 * j + 1 := by omega
        · exact read
        · exact written
  rcases ends with none | fits | ⟨i, fails⟩
  · have more := (rounds 1).2.2 (by decide)
    simp [cap, none] at more
  · -- every round moves a byte
    have grows (j : Nat) : j ≤ x.sentBefore j := by
      induction j with
      | zero => exact Nat.zero_le _
      | succ j ih =>
        have bound := (x.sentBefore_le (j + 1)).1
        have less := (rounds (j + 1)).2.2 (Nat.succ_ne_zero j)
        have next := x.sentBefore_succ j
        have pos : 0 < x.chunk j :=
          chunk_pos ((rounds (j + 1)).2.1 (2 * j) (by omega)) (by omega) (by omega)
        omega
    have less := (rounds (x.cap + 1)).2.2 (Nat.succ_ne_zero _)
    have grown := grows (x.cap + 1)
    omega
  · exact fails ((rounds (i + 1)).2.1 i (by omega))

/-- The emulation is a sendfile exactly when every write takes its whole chunk, and the file has the
bytes that are asked for unless a call fails. -/
theorem sendfile_emulation_iff (x : SendfileCall) : x.Refines ↔ x.offset < 0 ∨ x.WholeWrites ∧
    (x.count = 0 ∨ x.offset + x.cap ≤ x.file.length ∨ ∃ i, ¬ (x.answers i).Succeeds) := by
  by_cases low : 0 ≤ x.offset
  · constructor
    · intro refines
      exact .inr ⟨wholeWrites_of_refines low refines, ends_of_refines low refines⟩
    · rintro (negative | ⟨whole, ends⟩)
      · exact absurd negative (by omega)
      · exact refines_of_whole low whole ends
  · have negative : x.offset < 0 := by omega
    exact ⟨fun _ => .inl negative, fun _ => refines_negative negative⟩

end Refinement

end SendfileCall

def halfWritten : SendfileCall where
  file := ascii "hi"
  offset := 0
  count := 2
  answers i := if i = 1 then .bytes 1 else .bytes 2

/-- The first byte is written twice. -/
theorem half_written_repeats : (halfWritten.emulation 3).written = ascii "hhi" ∧
    ¬ halfWritten.Refines := by
  have last : halfWritten.emulation 3 =
      { point := .returned 2, remaining := 0, offset := 2, written := ascii "hhi", calls := 3 } := by
    decide
  refine ⟨by rw [last], ?_⟩
  rintro ⟨i, rc, done, law⟩
  have same := SendfileCall.returned_once done (by rw [last])
  rw [same, last] at done law
  cases done
  exact absurd (law.sent (by decide)).2.1 (by decide)

end Kitserv
