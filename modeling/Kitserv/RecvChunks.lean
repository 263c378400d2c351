import Kitserv.Lifecycle
import Kitserv.RecvStream

/-! Receiving a head does not depend on how its bytes arrive: the outcome is a function of the
first `HTTP_BUFSZ` bytes of the stream. -/
namespace Kitserv

open Memory

inductive Verdict where
  | pending
  | rejected (status : HttpStatus)
  | accepted (info : HeadInfo) (payload : Option Nat)
  deriving DecidableEq, Repr

def Outcome.verdict (o : Outcome) : Verdict :=
  if o.rc = 0 then
    match o.client.ta.state with
    | .read => .pending
    | _ => .accepted (HeadInfo.ofRequest o.client.reqHeaders o.client.ta.req) o.client.ta.reqPayload
  else .rejected o.client.ta.resp.status

/-- Call recv as long as it returns 0 in state HTTP_STATE_READ, at most `n` times. -/
def recvCalls : Nat → Client → Kernel → Outcome
  | 0, c, k => { rc := 0, client := c, kernel := k }
  | n + 1, c, k =>
    let o := recvRequest c k
    if o.rc = 0 ∧ o.client.ta.state = .read then recvCalls n o.client o.kernel else o

/-- The outcome as a function of the bytes of the stream. -/
def streamVerdict (stream : Bytes) : Verdict :=
  match headEnd (stream.take httpBufsz) with
  | .finish mem req p => .accepted (HeadInfo.ofRequest mem req) (some p)
  | .fail _ _ status => .rejected status
  | .readMore .. =>
    if httpBufsz ≤ stream.length then .rejected .http431RequestHeaderFieldsTooLarge else .pending

def CompleteHead (v : Bytes) : Prop := ∃ mem req p, headEnd v = .finish mem req p

def HeadError (v : Bytes) : Prop := ∃ mem req status, headEnd v = .fail mem req status

theorem take_append_room {v rest : Bytes} (room : v.length ≤ httpBufsz) :
    (v ++ rest).take httpBufsz = v ++ rest.take (httpBufsz - v.length) := by
  rw [List.take_append, List.take_of_length_le room]

/-- A head that has been settled stays settled, whatever follows it. -/
theorem headEnd_append (v t : Bytes) : match headEnd v with
    | .finish mem req p => headEnd (v ++ t) = .finish (mem ++ t) req p
    | .fail mem req status => headEnd (v ++ t) = .fail (mem ++ t) req status
    | .readMore .. => True := by
  have resumes := headEnd_resume v t (n := (v ++ t).length) (by simp)
  unfold Resumes at resumes
  simp only [headEnd]
  cases head : parse v.length .new v {} 0 0 with
  | finish mem req p => simp only [head] at resumes; exact resumes.2.2
  | fail mem req status => simp only [head] at resumes; exact resumes.2
  | readMore => trivial

theorem CompleteHead.append {v : Bytes} (h : CompleteHead v) (t : Bytes) : CompleteHead (v ++ t) := by
  obtain ⟨mem, req, p, head⟩ := h
  have longer := headEnd_append v t
  rw [head] at longer
  exact ⟨_, _, _, longer⟩

theorem HeadError.append {v : Bytes} (h : HeadError v) (t : Bytes) : HeadError (v ++ t) := by
  obtain ⟨mem, req, status, head⟩ := h
  have longer := headEnd_append v t
  rw [head] at longer
  exact ⟨_, _, _, longer⟩

theorem streamVerdict_accepted {v mem : Bytes} {req : Request} {p : Nat} (rest : Bytes)
    (room : v.length ≤ httpBufsz) (head : headEnd v = .finish mem req p) :
    streamVerdict (v ++ rest) = .accepted (HeadInfo.ofRequest mem req) (some p) := by
  have longer := headEnd_append v (rest.take (httpBufsz - v.length))
  rw [head] at longer
  have inside := headEnd_tail head
  have fits : p ≤ mem.length := by
    rw [inside.length]
    exact inside.inside
  simp only [streamVerdict, take_append_room room, longer,
    ofRequest_append _ (headEnd_strings head) fits]

structure Settled (v : Bytes) (o : Outcome) : Prop where
  stops : ¬ (o.rc = 0 ∧ o.client.ta.state = .read)
  verdict : ∀ rest, o.verdict = streamVerdict (v ++ rest)

theorem settled_accepts {v mem : Bytes} {req : Request} {p : Nat} {o : Outcome}
    (room : v.length ≤ httpBufsz) (head : headEnd v = .finish mem req p) (rc : o.rc = 0)
    (state : o.client.ta.state = .serve) (hreq : o.client.ta.req = req)
    (payload : o.client.ta.reqPayload = some p)
    (buffer : o.client.reqHeaders.take v.length = mem) : Settled v o := by
  refine ⟨by simp [state], fun rest => ?_⟩
  have inside := headEnd_tail head
  have fits : p ≤ mem.length := by
    rw [inside.length]
    exact inside.inside
  have info : HeadInfo.ofRequest o.client.reqHeaders req = HeadInfo.ofRequest mem req := by
    rw [← List.take_append_drop v.length o.client.reqHeaders, buffer]
    exact ofRequest_append _ (headEnd_strings head) fits
  rw [streamVerdict_accepted rest room head]
  simp only [Outcome.verdict, rc, if_true, state, hreq, payload, info]

theorem settled_rejects {v mem : Bytes} {req : Request} {status : HttpStatus} {o : Outcome}
    (room : v.length ≤ httpBufsz) (head : headEnd v = .fail mem req status) (rc : o.rc = -1)
    (hstatus : o.client.ta.resp.status = status) : Settled v o := by
  refine ⟨by simp [rc], fun rest => ?_⟩
  have longer := headEnd_append v (rest.take (httpBufsz - v.length))
  rw [head] at longer
  simp only [Outcome.verdict, rc, hstatus, streamVerdict, take_append_room room, longer]
  rfl

theorem settled_full {v : Bytes} {o : Outcome} (undecided : Undecided v)
    (whole : v.length = httpBufsz) (rc : o.rc = -1)
    (hstatus : o.client.ta.resp.status = .http431RequestHeaderFieldsTooLarge) : Settled v o := by
  refine ⟨by simp [rc], fun rest => ?_⟩
  obtain ⟨_, _, _, _, _, head⟩ := undecided
  have first : (v ++ rest).take httpBufsz = v := by rw [← whole, List.take_left]
  simp only [Outcome.verdict, rc, hstatus, streamVerdict, first, head]
  rw [if_pos (show httpBufsz ≤ (v ++ rest).length by simp only [List.length_append]; omega)]
  rfl

theorem streamVerdict_pending {v : Bytes} (undecided : Undecided v) (short : v.length < httpBufsz) :
    streamVerdict v = .pending := by
  obtain ⟨_, _, _, _, _, head⟩ := undecided
  simp only [streamVerdict, List.take_of_length_le (Nat.le_of_lt short), head]
  rw [if_neg (by omega)]

structure Waiting (v : Bytes) (k : Kernel) (o : Outcome) : Prop where
  again : o.rc = 0 ∧ o.client.ta.state = .read
  progress : Progress v o.client o.client.ta.reqParseBlk o.client.ta.reqParseIter
  pending : streamVerdict v = .pending
  consumed : o.kernel.input = [] ∨ o.kernel.input.length < k.input.length
  stays : OpenInput o.kernel.input

theorem RecvEnd.settled_or_waiting {v : Bytes} {c : Client} {k : Kernel} {o : Outcome}
    (h : RecvEnd v c k o) (room : v.length ≤ httpBufsz) (isOpen : OpenInput k.input) :
    Settled v o ∨ Waiting v k o := by
  cases h with
  | waits rc progress undecided short _ consumed frame =>
    exact .inr ⟨⟨rc, by rw [progress.fresh]⟩, progress, streamVerdict_pending undecided short,
      consumed, frame.stays isOpen⟩
  | accepts rc head buffer fill ta =>
    exact .inl (settled_accepts room head rc (by rw [ta]) (by rw [ta]) (by rw [ta]) buffer)
  | rejects rc head ta => exact .inl (settled_rejects room head rc (by rw [ta]))
  | full rc undecided whole ta => exact .inl (settled_full undecided whole rc (by rw [ta]))
  | hangup rc closed => exact absurd isOpen closed

theorem recvCalls_verdict {n : Nat} {v : Bytes} {c : Client} {k : Kernel}
    (h : Progress v c c.ta.reqParseBlk c.ta.reqParseIter) (isOpen : OpenInput k.input)
    (enough : k.input.length < n) :
    (recvCalls n c k).verdict = streamVerdict (v ++ pendingBytes k.input) := by
  induction n generalizing v c k with
  | zero => omega
  | succ n ih =>
    obtain ⟨taken, bytes, room, recvEnd⟩ := recvRequest_spec k h
    rw [bytes, ← List.append_assoc]
    simp only [recvCalls]
    rcases recvEnd.settled_or_waiting room isOpen with settled | waiting
    · rw [if_neg settled.stops, settled.verdict]
    · rw [if_pos waiting.again]
      by_cases last : n = 0
      · have empty : (recvRequest c k).kernel.input = [] := by
          rcases waiting.consumed with empty | less
          · exact empty
          · omega
        rw [empty, pendingBytes, List.flatMap_nil, List.append_nil, waiting.pending, last]
        simp only [recvCalls, Outcome.verdict, if_true, waiting.again.2]
      · refine ih waiting.progress waiting.stays ?_
        rcases waiting.consumed with empty | less
        · rw [empty]
          exact Nat.pos_of_ne_zero last
        · omega

theorem recvRequest_verdict {v : Bytes} {c : Client} {k : Kernel}
    (h : Progress v c c.ta.reqParseBlk c.ta.reqParseIter) (isOpen : OpenInput k.input)
    (single : k.input.length ≤ 1) :
    (recvRequest c k).verdict = streamVerdict (v ++ pendingBytes k.input) := by
  obtain ⟨taken, bytes, room, recvEnd⟩ := recvRequest_spec k h
  rw [bytes, ← List.append_assoc]
  rcases recvEnd.settled_or_waiting room isOpen with settled | waiting
  · exact settled.verdict _
  · have empty : (recvRequest c k).kernel.input = [] := by
      rcases waiting.consumed with empty | less
      · exact empty
      · exact List.eq_nil_of_length_eq_zero (by omega)
    rw [empty, pendingBytes, List.flatMap_nil, List.append_nil, waiting.pending]
    simp only [Outcome.verdict, waiting.again.1, if_true, waiting.again.2]

def ParseStatus (status : HttpStatus) : Prop :=
  status = .http400BadRequest ∨ status = .http501NotImplemented ∨
    status = .http505VersionNotSupported

theorem processHeader_status {mem : Bytes} {req req' : Request} {p s value : Nat}
    {status : HttpStatus} (h : processHeader mem req p s value = (req', some status)) :
    ParseStatus status := by
  unfold processHeader at h
  split at h
  · rename_i entry found
    have member := List.mem_of_find?_eq_some found
    simp only [headers, List.mem_cons, List.not_mem_nil, or_false] at member
    rcases member with rfl | rfl | rfl | rfl | rfl | rfl
    case inr.inr.inr.inl =>
      simp only [parseHeaderContentLength] at h
      split at h
      · cases h; exact .inl rfl
      · cases h
    all_goals cases h
  · cases h

theorem parseStep_status {len : Nat} {state : ParseState} {mem mem' : Bytes} {req req' : Request}
    {p r : Nat} {status : HttpStatus} (h : parseStep len state mem req p r = .fail mem' req' status) :
    ParseStatus status := by
  cases state with
  | new => cases h
  | reqMethod =>
    simp only [parseStep, reqMethod] at h
    split at h
    · cases h
    · split at h
      · cases h
      · cases h; exact .inr (.inl rfl)
  | reqPath =>
    simp only [parseStep, reqPath] at h
    split at h
    · cases h
    · split at h
      · cases h; exact .inl rfl
      · split at h
        · cases h; exact .inl rfl
        · cases h
  | reqVersion =>
    simp only [parseStep, reqVersion] at h
    split at h
    · cases h
    · split at h
      · cases h; exact .inl rfl
      · split at h
        · cases h
        · split at h
          · cases h
          · cases h; exact .inr (.inr rfl)
  | reqVersionLf =>
    simp only [parseStep, reqVersionLf] at h
    split at h
    · cases h
    · split at h
      · cases h; exact .inl rfl
      · cases h
  | reqHead =>
    simp only [parseStep, reqHead] at h
    split at h
    · cases h
    · split at h
      · split at h
        · cases h; exact .inl rfl
        · split at h
          · rename_i processed
            cases h
            exact processHeader_status processed
          · cases h
      · cases h
  | reqHeadLf =>
    simp only [parseStep, reqHeadLf] at h
    split at h
    · cases h
    · split at h
      · cases h; exact .inl rfl
      · split at h <;> cases h

theorem parse_status {len : Nat} {state : ParseState} {mem mem' : Bytes} {req req' : Request}
    {p r : Nat} {status : HttpStatus} (h : parse len state mem req p r = .fail mem' req' status) :
    ParseStatus status := by
  fun_induction parse len state mem req p r with
  | case1 _ _ _ _ _ _ _ _ _ _ _ ih => exact ih h
  | case2 => cases h
  | case3 => cases h
  | case4 _ _ _ _ _ _ _ _ step => cases h; exact parseStep_status step

theorem undecided_iff (v : Bytes) : Undecided v ↔ ¬ CompleteHead v ∧ ¬ HeadError v := by
  unfold Undecided CompleteHead HeadError
  cases headEnd v with
  | finish mem req p => simp
  | fail mem req status => simp
  | readMore state mem req p r => simp

theorem streamVerdict_tooLarge (stream : Bytes) :
    streamVerdict stream = .rejected .http431RequestHeaderFieldsTooLarge ↔
      httpBufsz ≤ stream.length ∧
        ∀ n ≤ httpBufsz, ¬ CompleteHead (stream.take n) ∧ ¬ HeadError (stream.take n) := by
  have parts {n : Nat} (hn : n ≤ httpBufsz) :
      stream.take httpBufsz = stream.take n ++ (stream.take httpBufsz).drop n := by
    conv => lhs; rw [← List.take_append_drop n (stream.take httpBufsz), List.take_take,
      Nat.min_eq_left hn]
  constructor
  · intro tooLarge
    unfold streamVerdict at tooLarge
    cases head : headEnd (stream.take httpBufsz) with
    | finish mem req p => rw [head] at tooLarge; cases tooLarge
    | fail mem req status =>
      rw [head] at tooLarge
      cases tooLarge
      rcases parse_status head with h | h | h <;> cases h
    | readMore state mem req p r =>
      rw [head] at tooLarge
      simp only at tooLarge
      split at tooLarge
      · rename_i long
        have whole := (undecided_iff _).mp ⟨_, _, _, _, _, head⟩
        refine ⟨long, fun n hn => ⟨fun complete => whole.1 ?_, fun wrong => whole.2 ?_⟩⟩
        · rw [parts hn]
          exact complete.append _
        · rw [parts hn]
          exact wrong.append _
      · cases tooLarge
  · rintro ⟨long, nothing⟩
    obtain ⟨_, _, _, _, _, head⟩ := (undecided_iff _).mpr (nothing httpBufsz (Nat.le_refl _))
    simp only [streamVerdict, head]
    rw [if_pos long]

theorem streamVerdict_take (stream : Bytes) :
    streamVerdict (stream.take httpBufsz) = streamVerdict stream := by
  have long : httpBufsz ≤ (stream.take httpBufsz).length ↔ httpBufsz ≤ stream.length := by
    rw [List.length_take]
    omega
  simp only [streamVerdict, List.take_take, Nat.min_self, long]

def AtOnce (stream : Bytes) (input : List Arrival) : Prop :=
  pendingBytes input = stream ∧ input.length ≤ 1 ∧ OpenInput input

/-- Receiving is independent of the cutting of the stream and of the would-block results in it;
part of the stream may have been left over from the last transaction. -/
theorem recv_chunk_independent {c c₀ : Client} {k k₀ : Kernel} {n : Nat} {stream : Bytes}
    (idle : Idle c) (isOpen : OpenInput k.input) (enough : k.input.length < n)
    (cut : stream = c.reqHeaders.take c.reqHeadersLen ++ pendingBytes k.input)
    (idle₀ : Idle c₀) (empty₀ : c₀.reqHeadersLen = 0)
    (atOnce : AtOnce (stream.take httpBufsz) k₀.input) :
    (recvCalls n c k).verdict = (recvRequest c₀ k₀).verdict ∧
    ((recvCalls n c k).verdict = .rejected .http431RequestHeaderFieldsTooLarge ↔
      httpBufsz ≤ stream.length ∧
        ∀ m ≤ httpBufsz, ¬ CompleteHead (stream.take m) ∧ ¬ HeadError (stream.take m)) := by
  have cutVerdict := recvCalls_verdict idle.progress isOpen enough
  have onceVerdict := recvRequest_verdict idle₀.progress atOnce.2.2 atOnce.2.1
  rw [← cut] at cutVerdict
  rw [empty₀, atOnce.1, List.take_zero, List.nil_append, streamVerdict_take] at onceVerdict
  rw [cutVerdict, onceVerdict]
  exact ⟨rfl, streamVerdict_tooLarge stream⟩

theorem createClientStruct_idle (blocks : Blocks) : Idle (createClientStruct blocks) :=
  ⟨blocks.reqHeaders_len, Nat.zero_le _, rfl⟩

theorem recv_chunk_independent_two_reads :
    (recvCalls 5 (createClientStruct Blocks.zeroed)
      { input := [.wouldBlock, .chunk 71 (ascii "ET / HT"), .wouldBlock,
          .chunk 84 (ascii "P/1.1\r\n\r\n")]
        fs := fun _ => .empty }).verdict =
    (recvRequest (createClientStruct Blocks.zeroed)
      { input := [.chunk 71 (ascii "ET / HTTP/1.1\r\n\r\n")], fs := fun _ => .empty }).verdict :=
  (recv_chunk_independent (createClientStruct_idle _) (by simp [OpenInput]) (by decide) rfl
    (createClientStruct_idle _) rfl ⟨by decide, by decide, by simp [OpenInput]⟩).1

end Kitserv
