import Kitserv.Delivery
import Kitserv.Lifecycle

namespace Kitserv

open Memory

/-- The loop has nothing yet, and the end of file is what its next read finds. -/
def FindsEnd (k : Kernel) (written : Bytes) (nbytes : Nat) : Prop :=
  written = [] ∧ 0 < nbytes ∧ k.input.head? = some .eof

inductive LoopEnd (c : Client) (k : Kernel) (written : Bytes) (nbytes : Nat) (r : CallResult) : Prop
  | gives (bs : Bytes) (more : ¬ FindsEnd k written nbytes) (client : r.client = c)
    (data : r.reply.data = some (written ++ bs)) (rc : r.reply.rc = (written ++ bs).length)
    (short : bs.length ≤ nbytes) (taken : pendingBytes k.input = bs ++ pendingBytes r.kernel.input)
  | fails (more : ¬ FindsEnd k written nbytes) (client : r.client = c.setStatus .xHangup)
    (data : r.reply.data = none) (rc : r.reply.rc = -1)
  | blocks (more : ¬ FindsEnd k written nbytes) (client : r.client = c)
    (data : r.reply.data = none) (rc : r.reply.rc = -1)
    (last : ∃ before, r.kernel.trace = before ++ [.socketRead .wouldBlock]) (none : written = [])
  | ends (found : FindsEnd k written nbytes) (client : r.client = c)
    (data : r.reply.data = none) (rc : r.reply.rc = -1)
    (last : ∃ before, r.kernel.trace = before ++ [.socketRead (.data [])])

theorem read_eof_iff {k k' : Kernel} {count : Nat} {res : ReadResult} (room : count ≠ 0)
    (h : k.read count = (res, k')) : res = .data [] ↔ k.input.head? = some .eof := by
  rw [Kernel.read, if_neg room] at h
  cases input : k.input with
  | nil =>
    rw [input] at h
    cases h
    simp
  | cons a rest =>
    rw [input] at h
    cases a with
    | wouldBlock =>
      cases h
      simp
    | eof =>
      cases h
      simp
    | failed code =>
      cases h
      simp
    | chunk b bs =>
      simp only [Kernel.receive] at h
      cases left : (b :: bs).drop count with
      | nil =>
        rw [left] at h
        cases h
        simp
      | cons b' bs' =>
        rw [left] at h
        cases h
        simp [room]

theorem readPayloadLoop_end (c : Client) (k : Kernel) (written : Bytes) (nbytes : Nat) :
    LoopEnd c k written nbytes (readPayloadLoop c k written nbytes) := by
  have other {k k' : Kernel} {written : Bytes} {nbytes : Nat} {res : ReadResult}
      (more : nbytes ≠ 0) (got : k.read nbytes = (res, k')) (other : res ≠ .data []) :
      ¬ FindsEnd k written nbytes :=
    fun found => other ((read_eof_iff more got).mpr found.2.2)
  fun_induction readPayloadLoop c k written nbytes with
  | case1 k written give =>
    refine .gives [] (fun found => Nat.lt_irrefl 0 found.2.1) rfl ?_ ?_ (Nat.le_refl 0) rfl
    · rw [List.append_nil]
    · rw [List.append_nil]
  | case2 k written nbytes give more k' got some =>
    refine .gives [] (fun found => some found.1) rfl ?_ ?_ (Nat.zero_le _) (read_spec got).bytes
    · rw [List.append_nil]
    · rw [List.append_nil]
  | case3 k written nbytes deny more k' got none =>
    have spec := read_spec got
    exact .blocks (other more got (by simp)) rfl rfl rfl ⟨k.trace, by rw [spec.kernel]⟩
      (of_not_not none)
  | case4 k written nbytes deny more code k' got =>
    exact .fails (other more got (by simp)) rfl rfl rfl
  | case5 k written nbytes give more k' got some =>
    refine .gives [] (fun found => some found.1) rfl ?_ ?_ (Nat.zero_le _) (read_spec got).bytes
    · rw [List.append_nil]
    · rw [List.append_nil]
  | case6 k written nbytes deny more k' got none =>
    have spec := read_spec got
    have found := (read_eof_iff more got).mp rfl
    exact .ends ⟨of_not_not none, Nat.pos_of_ne_zero more, found⟩ rfl rfl rfl
      ⟨k.trace, by rw [spec.kernel]⟩
  | case7 k written nbytes more b bs k' got ih =>
    have spec := read_spec got
    have some : written ++ b :: bs ≠ [] := by simp
    have before : ¬ FindsEnd k written nbytes := other more got (by simp)
    cases ih with
    | gives later _ client data rc short taken =>
      have length : (b :: bs).length ≤ nbytes := spec.length
      refine .gives (b :: bs ++ later) before client (by rw [data, List.append_assoc])
        (by rw [rc, List.append_assoc]) (by rw [List.length_append]; omega) ?_
      rw [spec.bytes, taken, List.append_assoc]
      rfl
    | fails _ client data rc => exact .fails before client data rc
    | blocks _ _ _ _ _ none => exact absurd none some
    | ends found => exact absurd found.1 some

theorem length_leftover {c : Client} (win : Window c) :
    c.leftover.length = (c.ta.reqPayloadLen - c.ta.reqPayloadPos).toNat := by
  obtain ⟨size, low, high, fits, -⟩ := win
  simp only [Client.leftover, length_slice, size]
  omega

/-- The end of file is all that the next read can find, nothing is left in the header buffer, and
bytes are asked for. -/
def AtEnd (c : Client) (k : Kernel) (nbytes : Nat) : Prop :=
  0 < nbytes ∧ c.ta.reqPayloadLen ≤ c.ta.reqPayloadPos ∧ k.input.head? = some .eof

/-- A result that tells waiting from failing, and gives the next bytes of the payload. -/
structure PayloadLaw (c : Client) (k : Kernel) (nbytes : Nat) (r : CallResult) : Prop where
  denied : r.reply.rc = -1 →
    (∃ before, r.kernel.trace = before ++ [.socketRead .wouldBlock]) ∨
      r.client.ta.resp.status = .xHangup
  given : 0 ≤ r.reply.rc → ∃ bs, r.reply.data = some bs ∧ r.reply.rc = bs.length ∧
    bs.length ≤ nbytes ∧ unread c k = bs ++ unread r.client r.kernel

theorem handOver_same (r : CallResult) : r.handOver.reply = r.reply ∧ r.handOver.client = r.client ∧
    r.handOver.kernel.input = r.kernel.input ∧
    (r.reply.data = none → r.handOver.kernel = r.kernel) := by
  unfold CallResult.handOver
  cases r.reply.data with
  | none => exact ⟨rfl, rfl, rfl, fun _ => rfl⟩
  | some bs =>
    refine ⟨rfl, rfl, rfl, ?_⟩
    rintro ⟨⟩

theorem LoopEnd.law_iff {c c' : Client} {k : Kernel} {written : Bytes} {nbytes rest : Nat}
    {r : CallResult} (h : LoopEnd c' k written rest r) (front : c.leftover = written ++ c'.leftover)
    (whole : rest = 0 ∨ c'.leftover = []) (count : written.length + rest ≤ nbytes) :
    PayloadLaw c k nbytes r.handOver ↔
      ¬ (FindsEnd k written rest ∧ c'.ta.resp.status ≠ .xHangup) := by
  obtain ⟨reply, client', input, kernel⟩ := handOver_same r
  cases h with
  | gives bs more client data rc short taken =>
    refine iff_of_true ⟨fun denied => ?_, fun _ => ⟨written ++ bs, ?_, ?_, ?_, ?_⟩⟩
      fun found => more found.1
    · rw [reply, rc] at denied
      omega
    · rw [reply, data]
    · rw [reply, rc]
    · rw [List.length_append]
      omega
    · simp only [unread, front, taken, client', client, input]
      rcases whole with done | empty
      · have none : bs = [] := List.eq_nil_of_length_eq_zero (by omega)
        simp [none]
      · simp [empty]
  | fails more client data rc =>
    refine iff_of_true ⟨fun _ => .inr ?_, fun given => ?_⟩ fun found => more found.1
    · rw [client', client]
      rfl
    · rw [reply, rc] at given
      omega
  | blocks more client data rc last =>
    refine iff_of_true ⟨fun _ => .inl ?_, fun given => ?_⟩ fun found => more found.1
    · rw [kernel data]
      exact last
    · rw [reply, rc] at given
      omega
  | ends found client data rc last =>
    constructor
    · rintro law ⟨-, status⟩
      rcases law.denied (by rw [reply, rc]) with ⟨before, waits⟩ | hangup
      · obtain ⟨before', closed⟩ := last
        rw [kernel data, closed] at waits
        have last := (List.append_inj' waits rfl).2
        cases last
      · rw [client', client] at hangup
        exact status hangup
    · intro hangup
      have status : c'.ta.resp.status = .xHangup :=
        Classical.byContradiction fun other => hangup ⟨found, other⟩
      refine ⟨fun _ => .inr ?_, fun given => ?_⟩
      · rw [client', client]
        exact status
      · rw [reply, rc] at given
        omega

/-- `kitserv_api_read_payload` keeps the law in every state of a transaction, except at an end of
file with nothing to give. -/
theorem read_payload_iff {c : Client} (win : Window c) (k : Kernel) (nbytes : Nat) :
    PayloadLaw c k nbytes (readPayload c k nbytes) ↔
      ¬ (AtEnd c k nbytes ∧ c.ta.resp.status ≠ .xHangup) := by
  have length := length_leftover win
  rw [readPayload_eq]
  split
  · rename_i some
    generalize left : (c.ta.reqPayloadLen - c.ta.reqPayloadPos).toNat = n at length ⊢
    have rest := leftover_advance win.low (min nbytes n)
    have taken : (c.leftover.take nbytes).length = min nbytes n := by
      rw [List.length_take, length]
    have never : ¬ AtEnd c k nbytes := fun ended => by
      have := ended.2.1
      omega
    rw [(readPayloadLoop_end _ k _ _).law_iff _ _ (by omega)]
    · refine iff_of_true (fun found => ?_) fun ended => never ended.1
      have none := congrArg List.length found.1.1
      have asked := found.1.2.1
      rw [taken, List.length_nil] at none
      omega
    · rw [rest]
      refine (List.take_append_drop nbytes c.leftover).symm.trans (congrArg _ ?_)
      rcases Nat.le_total nbytes n with less | more
      · rw [Nat.min_eq_left less]
      · rw [Nat.min_eq_right more, List.drop_eq_nil_of_le (Nat.le_of_eq length),
          List.drop_eq_nil_of_le (length ▸ more)]
    · rw [rest]
      refine (Nat.le_total nbytes n).imp (fun less => by omega) (fun more => ?_)
      rw [Nat.min_eq_right more, List.drop_eq_nil_of_le (Nat.le_of_eq length)]
  · rename_i none
    have empty : c.leftover = [] := List.eq_nil_of_length_eq_zero (by omega)
    rw [(readPayloadLoop_end c k [] nbytes).law_iff (List.nil_append _).symm (.inr empty)
      (Nat.le_of_eq (Nat.zero_add nbytes))]
    have used : c.ta.reqPayloadLen ≤ c.ta.reqPayloadPos := by omega
    simp only [FindsEnd, AtEnd, used, true_and]

def readingPayload : Client :=
  { createClientStruct Blocks.zeroed with
    reqHeaders := List.replicate httpBufsz 0
    ta := { reqPayload := some 0 } }

theorem readingPayload_window : Window readingPayload := by
  refine ⟨List.length_replicate, by decide, by decide, by decide, ?_⟩
  rintro _ ⟨⟩

theorem read_payload_iff_byte :
    PayloadLaw readingPayload { input := [.chunk 65 []], fs := fun _ => .empty } 3
        (readPayload readingPayload { input := [.chunk 65 []], fs := fun _ => .empty } 3) ↔
      ¬ (AtEnd readingPayload { input := [.chunk 65 []], fs := fun _ => .empty } 3 ∧
        readingPayload.ta.resp.status ≠ .xHangup) :=
  read_payload_iff readingPayload_window _ 3

/-- The peer has closed its side: -1, and the status stays unset, so the handler is called again. -/
theorem closed_peer_waits :
    ¬ PayloadLaw readingPayload { input := [.eof], fs := fun _ => .empty } 1
      (readPayload readingPayload { input := [.eof], fs := fun _ => .empty } 1) := by
  have used : ¬ readingPayload.ta.reqPayloadLen - readingPayload.ta.reqPayloadPos > 0 := by decide
  have denied : readPayload readingPayload { input := [.eof], fs := fun _ => .empty } 1 =
      { reply := { rc := -1, errno := .zero }
        client := readingPayload
        kernel := { input := [.eof], fs := fun _ => .empty, trace := [.socketRead (.data [])] } } := by
    rw [readPayload_eq, if_neg used, readPayloadLoop]
    rfl
  rw [denied]
  intro law
  rcases law.denied rfl with ⟨before, waits⟩ | hangup
  · have last := congrArg List.getLast? waits
    rw [List.getLast?_concat] at last
    cases last
  · cases hangup

end Kitserv
