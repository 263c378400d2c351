import Kitserv.Framing

namespace Kitserv

open Memory

/-- A request as a client sends it: a head that the parser accepts, and its payload. -/
structure WireRequest where
  head : Bytes
  payload : Bytes
  info : HeadInfo
  parses : ∃ mem req, headEnd head = .finish mem req head.length ∧ info = HeadInfo.ofRequest mem req
  fits : head.length ≤ httpBufsz
  length : info.contentLen = payload.length

def wire (requests : List WireRequest) : Bytes := requests.flatMap fun r => r.head ++ r.payload

structure Exchange where
  payload : Bytes := []
  later : List WireRequest

def Exchange.step (x : Exchange) : Event → Option Exchange
  | .request info =>
    match x.payload, x.later with
    | [], r :: later => if info = r.info then some { payload := r.payload, later := later } else none
    | _, _ => none
  | .payload bs =>
    if bs <+: x.payload then some { x with payload := x.payload.drop bs.length } else none
  | _ => some x

/-- The bytes of its payload that the handler of a request has to read before the request ends. -/
def readsStep (owed : Nat) : Event → Option Nat
  | .request info => if owed = 0 then some info.contentLen.toNat else none
  | .payload bs => if bs.length ≤ owed then some (owed - bs.length) else none
  | .finalized => if owed = 0 then some 0 else none
  | _ => some owed

/-- The calls of each transaction that has ended have read its payload exactly, and the calls of the
last one no more than that. -/
def ReadsExactly (trace : List Event) : Prop := (Monitor.run readsStep 0 trace).isSome = true

structure Holds (stream : Bytes) (q : Cursor) (x : Exchange) (owed : Nat) : Prop where
  rest : stream.drop q.pos = x.payload ++ wire x.later
  owes : owed = x.payload.length
  idle : q.busy = false → owed = 0

variable {stream : Bytes}

theorem wire_verdict (r : WireRequest) (later : List WireRequest) :
    streamVerdict (wire (r :: later)) = .accepted r.info (some r.head.length) := by
  obtain ⟨mem, req, head, info⟩ := r.parses
  have whole : wire (r :: later) = r.head ++ (r.payload ++ wire later) := by
    rw [wire, List.flatMap_cons, List.append_assoc, ← wire]
  rw [whole, info]
  exact streamVerdict_accepted _ r.fits head

theorem undecided_nil : Undecided [] := by
  refine ⟨.reqMethod, [], {}, 0, 0, ?_⟩
  rw [headEnd, parse_eq]
  exact parse_stuck ParseState.noConfusion [] {} (Nat.le_refl 0)

theorem Holds.step {q q' : Cursor} {x : Exchange} {owed owed' : Nat} {e : Event}
    (h : Holds stream q x owed) (taken : Cursor.step stream q e = some q')
    (read : readsStep owed e = some owed') :
    ∃ x', Exchange.step x e = some x' ∧ Holds stream q' x' owed' := by
  obtain ⟨rest, owes, idle⟩ := h
  obtain ⟨payload, later⟩ := x
  simp only at rest owes
  cases e
  case request info =>
    simp only [readsStep] at read
    split at read
    · rename_i none
      have empty : payload = [] := List.eq_nil_of_length_eq_zero (by omega)
      cases empty
      cases read
      simp only [List.nil_append] at rest
      simp only [Cursor.step, rest] at taken
      cases later with
      | nil =>
        have nothing : streamVerdict (wire []) = .pending :=
          streamVerdict_pending undecided_nil (Nat.zero_lt_succ 4095)
        simp only [nothing] at taken
        cases taken
      | cons r later =>
        simp only [wire_verdict] at taken
        split at taken
        · rename_i same
          cases taken
          refine ⟨{ payload := r.payload, later := later }, by simp [Exchange.step, same.2], ?_, ?_,
            by simp⟩
          · rw [← List.drop_drop, rest, wire, List.flatMap_cons, List.append_assoc, List.drop_left]
            rfl
          · rw [same.2, r.length]
            exact Int.toNat_natCast _
        · cases taken
    · cases read
  case payload bs =>
    simp only [readsStep] at read
    split at read
    · rename_i within
      cases read
      simp only [Cursor.step] at taken
      split at taken
      · rename_i front
        cases taken
        rw [rest] at front
        have inside : bs <+: payload := by
          refine List.prefix_of_prefix_length_le front (List.prefix_append ..) ?_
          omega
        obtain ⟨left, rfl⟩ := inside
        refine ⟨{ payload := left, later := later }, ?_, ?_, ?_, fun free => ?_⟩
        · simp [Exchange.step]
        · rw [← List.drop_drop, rest, List.append_assoc, List.drop_left]
        · simp only [List.length_append] at owes
          simp only
          omega
        · have none := idle free
          omega
      · cases taken
    · cases read
  case finalized =>
    simp only [readsStep] at read
    split at read
    · rename_i none
      cases read
      cases taken
      exact ⟨_, rfl, rest, none ▸ owes, fun _ => rfl⟩
    · cases read
  all_goals
    cases read
    cases taken
    exact ⟨_, rfl, rest, owes, idle⟩

theorem Holds.run {q q' : Cursor} {x : Exchange} {owed owed' : Nat} {events : List Event}
    (h : Holds stream q x owed) (taken : Monitor.run (Cursor.step stream) q events = some q')
    (read : Monitor.run readsStep owed events = some owed') :
    ∃ x', Monitor.run Exchange.step x events = some x' ∧ Holds stream q' x' owed' := by
  induction events generalizing q x owed with
  | nil =>
    cases taken
    cases read
    exact ⟨x, rfl, h⟩
  | cons e events ih =>
    obtain ⟨q₁, first, taken⟩ := Option.bind_eq_some_iff.mp taken
    obtain ⟨owed₁, first', read⟩ := Option.bind_eq_some_iff.mp read
    obtain ⟨x₁, one, h₁⟩ := h.step first first'
    obtain ⟨x', run, h'⟩ := ih h₁ taken read
    exact ⟨x', by rw [Monitor.run_cons, one]; exact run, h'⟩

section Heads

variable {v rest : Bytes} {later : List WireRequest}

theorem wire_front {r : WireRequest} (whole : v ++ rest = wire (r :: later)) :
    v <+: r.head ∨ r.head <+: v := by
  have front : r.head <+: wire (r :: later) := by
    rw [wire, List.flatMap_cons, List.append_assoc]
    exact List.prefix_append ..
  exact List.prefix_or_prefix_of_prefix ⟨rest, whole⟩ front

theorem WireRequest.complete (r : WireRequest) : CompleteHead r.head := by
  obtain ⟨mem, req, head, -⟩ := r.parses
  exact ⟨mem, req, _, head⟩

theorem wire_undecided (whole : v ++ rest = wire later) (undecided : Undecided v)
    (enough : httpBufsz ≤ v.length ∨ rest = []) : later = [] := by
  cases later with
  | nil => rfl
  | cons r later =>
    have fits := r.fits
    have inside : r.head <+: v := by
      rcases enough with full | rfl
      · rcases wire_front whole with short | long
        · exact List.IsPrefix.eq_of_length_le short (by omega) ▸ List.prefix_refl v
        · exact long
      · rw [List.append_nil] at whole
        rw [whole, wire, List.flatMap_cons, List.append_assoc]
        exact List.prefix_append ..
    obtain ⟨t, rfl⟩ := inside
    exact absurd (r.complete.append t) ((undecided_iff _).mp undecided).1

end Heads

def DoneKept (c : Client) : Prop :=
  c.ta.state = .done → c.ta.resp.status.isError = false ∧ c.ta.req.version = .http11

def Served.DoneKept : Served → Prop
  | next c _ => Kitserv.DoneKept c
  | back o => o.rc = 0 → Kitserv.DoneKept o.client
  | abort => True

theorem DoneKept.of_state {c : Client} (h : c.ta.state ≠ .done) : DoneKept c :=
  fun done => absurd done h

def Conn.DoneKept : Conn → Prop
  | serving c _ | waiting c _ => Kitserv.DoneKept c
  | _ => True

section Hangup

theorem read_nothing {k k' : Kernel} {count : Nat} (h : k.read count = (.data [], k'))
    (room : count ≠ 0) (soft : SoftInput k.input) :
    k.input.head? = some .eof ∧ k'.input = k.input := by
  obtain ⟨n, rfl⟩ := Nat.exists_eq_succ_of_ne_zero room
  rw [Kernel.read, if_neg room] at h
  cases arrivals : k.input with
  | nil =>
    rw [arrivals] at h
    cases h
  | cons a rest =>
    rw [arrivals] at h
    cases a with
    | wouldBlock => cases h
    | eof =>
      cases h
      exact ⟨rfl, rfl⟩
    | failed code => exact absurd rfl (soft (.failed code) (by simp [arrivals]) code)
    | chunk b bs =>
      simp only [Kernel.receive, List.drop_succ_cons] at h
      split at h <;> cases h

variable {c : Client} {k : Kernel} {p r : Option Nat}

theorem recvParse_stays {o : Outcome} (unset : c.ta.resp.status ≠ .xHangup)
    (h : recvParse c k p r = .stop o) : o.client.ta.resp.status ≠ .xHangup := by
  unfold recvParse at h
  split at h
  · cases h
  · cases h
    exact unset
  · rename_i failed
    cases h
    rcases parse_status failed with rfl | rfl | rfl <;> simp

theorem recvParse_cursor {c' : Client} {k' : Kernel} {p' r' : Option Nat}
    (h : recvParse c k p r = .again c' k' p' r') : r'.isSome = true := by
  unfold recvParse at h
  split at h
  · cases h
    rfl
  · cases h
  · cases h

theorem recvRound_cursor {c' : Client} {k' : Kernel} {p' r' : Option Nat}
    (h : recvRound c k p r = .again c' k' p' r') : r'.isSome = true := by
  unfold recvRound at h
  split at h
  · split at h
    · cases h
    · exact recvParse_cursor h
  · cases h
  · split at h
    · split at h
      · cases h
      · exact recvParse_cursor h
    · cases h
  · exact recvParse_cursor h

theorem recvRound_hangup {o : Outcome} (unset : c.ta.resp.status ≠ .xHangup)
    (soft : SoftInput k.input) (h : recvRound c k p r = .stop o)
    (hangup : o.client.ta.resp.status = .xHangup) :
    c.reqHeadersLen < httpBufsz ∧ k.input.head? = some .eof ∧ o.kernel.input = k.input := by
  unfold recvRound at h
  split at h
  · split at h
    · cases h
      exact absurd hangup unset
    · exact absurd hangup (recvParse_stays unset h)
  · rename_i code k' failed
    exact absurd rfl (read_soft failed soft code)
  · rename_i k' nothing
    split at h
    · split at h
      · cases h
        cases hangup
      · exact absurd hangup (recvParse_stays unset h)
    · rename_i space
      cases h
      obtain ⟨eof, same⟩ := read_nothing nothing (by omega) soft
      exact ⟨Nat.lt_of_not_le space, eof, same⟩
  · rename_i b bs k' got
    exact absurd hangup (recvParse_stays (by exact unset) h)

theorem recvLoop_hangup {v : Bytes} (h : Progress v c p r) (soft : SoftInput k.input)
    (hangup : (recvLoop c k p r).client.ta.resp.status = .xHangup) :
    (recvLoop c k p r).kernel.input.head? = some .eof ∧
      (Undecided v ∨ v.length = httpBufsz ∨ k.input.head? ≠ some .eof →
        ∃ taken, pendingBytes k.input =
          taken ++ pendingBytes (recvLoop c k p r).kernel.input ∧ Undecided (v ++ taken)) := by
  fun_induction recvLoop c k p r generalizing v with
  | case1 c k p r o round =>
    have unset : c.ta.resp.status ≠ .xHangup := by rw [h.fresh]; simp
    obtain ⟨space, eof, same⟩ := recvRound_hangup unset soft round hangup
    rw [h.fill] at space
    refine ⟨by rw [same]; exact eof, fun ready => ⟨[], by rw [same]; rfl, ?_⟩⟩
    rw [List.append_nil]
    rcases ready with undecided | full | other
    · exact undecided
    · omega
    · exact absurd eof other
  | case2 c k p r c' k' p' r' round ih =>
    have spec := recvRound_spec h k
    have received := (recvRound_received c k p r).2
    have cursor := recvRound_cursor round
    rw [round] at spec received
    cases spec with
    | asks taken bytes progress step =>
      obtain ⟨eof, later⟩ := ih progress (received.soft soft) hangup
      refine ⟨eof, fun _ => ?_⟩
      have asked : Undecided (v ++ taken) := by
        rcases progress.cursor with none | ⟨-, undecided⟩
        · rw [none] at cursor
          cases cursor
        · exact undecided
      obtain ⟨more, bytes', undecided⟩ := later (.inl asked)
      rw [List.append_assoc] at undecided
      exact ⟨taken ++ more, by rw [bytes, bytes', List.append_assoc], undecided⟩

end Hangup

section Law

variable {s : Server} {c : Client} {k : Kernel} {q : Cursor} {x : Exchange} {owed : Nat}

theorem sendFileDone_closes (h : (sendFileDone c k).rc ≠ 0) :
    c.ta.resp.status.isError = true ∨ c.ta.req.version = .http10 := by
  by_contra kept
  exact h (if_neg kept)

theorem sendFileClose_closes (h : (sendFileClose c k).rc ≠ 0) :
    c.ta.resp.status.isError = true ∨ c.ta.req.version = .http10 := by
  have done := sendFileDone_closes h
  exact done

end Law

end Kitserv
