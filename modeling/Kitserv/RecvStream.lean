import Kitserv.ParsedHead
import Kitserv.Recv

namespace Kitserv

open Memory

def Arrival.bytes : Arrival → Bytes
  | chunk b bs => b :: bs
  | wouldBlock | eof | failed _ => []

def pendingBytes (input : List Arrival) : Bytes := input.flatMap Arrival.bytes

def OpenInput (input : List Arrival) : Prop :=
  ∀ a ∈ input, a ≠ .eof ∧ ∀ code, a ≠ .failed code

def ReadResult.bytes : ReadResult → Bytes
  | data bs => bs
  | wouldBlock | failed _ => []

structure ReadSpec (count : Nat) (k : Kernel) (res : ReadResult) (k' : Kernel) : Prop where
  kernel : k' = { k with input := k'.input, trace := k.trace ++ [.socketRead res] }
  bytes : pendingBytes k.input = res.bytes ++ pendingBytes k'.input
  length : res.bytes.length ≤ count
  size : k'.input.length ≤ k.input.length
  blocked : res = .wouldBlock →
    count ≠ 0 ∧ (k'.input = [] ∨ k'.input.length < k.input.length)
  stays : OpenInput k.input → OpenInput k'.input
  closed : (res = .data [] ∧ count ≠ 0 ∨ ∃ code, res = .failed code) → ¬ OpenInput k.input

theorem receive_spec {count : Nat} {input rest : List Arrival} {res : ReadResult}
    (h : Kernel.receive count input = (res, rest)) (room : count ≠ 0) :
    pendingBytes input = res.bytes ++ pendingBytes rest ∧ res.bytes.length ≤ count ∧
      rest.length ≤ input.length ∧
      (res = .wouldBlock → rest = [] ∨ rest.length < input.length) ∧
      (OpenInput input → OpenInput rest) ∧
      ((res = .data [] ∨ ∃ code, res = .failed code) → ¬ OpenInput input) := by
  cases input with
  | nil => cases h; simp [ReadResult.bytes]
  | cons a input =>
    have tail : OpenInput (a :: input) → OpenInput input :=
      fun h x hx => h x (List.mem_cons_of_mem _ hx)
    cases a with
    | wouldBlock =>
      cases h
      simp [ReadResult.bytes, pendingBytes, Arrival.bytes]
      exact tail
    | eof =>
      cases h
      refine ⟨by simp [ReadResult.bytes], by simp [ReadResult.bytes], by simp, by simp, id, ?_⟩
      exact fun _ isOpen => (isOpen .eof (by simp)).1 rfl
    | failed code =>
      cases h
      refine ⟨by simp [ReadResult.bytes, pendingBytes, Arrival.bytes], by simp [ReadResult.bytes],
        by simp, by simp, tail, ?_⟩
      exact fun _ isOpen => (isOpen (.failed code) (by simp)).2 code rfl
    | chunk b bs =>
      simp only [Kernel.receive] at h
      cases left : (b :: bs).drop count with
      | nil =>
        rw [left] at h
        cases h
        have whole := List.drop_eq_nil_iff.mp left
        refine ⟨rfl, whole, by simp, by simp, tail, by simp⟩
      | cons b' bs' =>
        rw [left] at h
        cases h
        refine ⟨?_, ?_, by simp, by simp, ?_, ?_⟩
        · simp only [pendingBytes, List.flatMap_cons, Arrival.bytes, ReadResult.bytes, ← left,
            ← List.append_assoc, List.take_append_drop]
        · simp only [ReadResult.bytes, List.length_take]
          omega
        · intro isOpen x hx
          rcases List.mem_cons.mp hx with rfl | hx
          · simp
          · exact isOpen x (List.mem_cons_of_mem _ hx)
        · rintro (empty | ⟨code, failed⟩)
          · cases count with
            | zero => exact absurd rfl room
            | succ n => simp at empty
          · cases failed

theorem read_spec {k k' : Kernel} {count : Nat} {res : ReadResult}
    (h : k.read count = (res, k')) : ReadSpec count k res k' := by
  unfold Kernel.read at h
  split at h
  · cases h
    constructor <;> simp_all [Kernel.emit, ReadResult.bytes]
  · rename_i room
    cases received : Kernel.receive count k.input with
    | mk r input =>
      rw [received] at h
      cases h
      obtain ⟨bytes, length, size, blocked, stays, closed⟩ := receive_spec received room
      exact ⟨rfl, bytes, length, size, fun h => ⟨room, blocked h⟩, stays,
        fun hc => closed (hc.imp_left And.left)⟩

theorem parse_stuck {len : Nat} {state : ParseState} (started : state ≠ .new) (mem : Bytes)
    (req : Request) {p r : Nat} (h : len ≤ r) :
    parse len state mem req p r = .readMore state mem req p r := by
  have scan (stop : Byte → Bool) : scanTo stop mem len r = r := by
    have empty : slice mem r len = [] := by simp [slice, h]
    simp [scanTo, empty]
  rw [parse_eq]
  cases state with
  | new => exact absurd rfl started
  | reqMethod => simp only [parseStep, reqMethod, scan, if_pos h]
  | reqPath => simp only [parseStep, reqPath, scan, if_pos h]
  | reqVersion => simp only [parseStep, reqVersion, scan, if_pos h]
  | reqVersionLf => simp only [parseStep, reqVersionLf, if_pos h]
  | reqHead => simp only [parseStep, reqHead, scan, if_pos h]
  | reqHeadLf => simp only [parseStep, reqHeadLf, if_pos h]

/-- The parser on the buffer of `c` goes the way it goes on the raw bytes `v` of the head, now
and with any bytes behind them. -/
structure Entry (v : Bytes) (c : Client) (p r : Option Nat) : Prop where
  size : c.reqHeaders.length = httpBufsz
  fill : c.reqHeadersLen = v.length
  room : v.length ≤ httpBufsz
  fresh : c.ta = {
    parseState := c.ta.parseState
    req := c.ta.req
    reqParseBlk := c.ta.reqParseBlk
    reqParseIter := c.ta.reqParseIter }
  same : ∀ (t : Bytes) (n : Nat), v.length ≤ n →
    parse n c.ta.parseState (c.reqHeaders.take v.length ++ t) c.ta.req (p.getD 0) (r.getD 0) =
      parse n .new (v ++ t) {} 0 0

def Undecided (v : Bytes) : Prop := ∃ state mem req p r, headEnd v = .readMore state mem req p r

/-- The cursor is where a new call of recv may find it: NULL at the start of a head, else
behind the last byte. -/
structure Progress (v : Bytes) (c : Client) (p r : Option Nat) : Prop extends Entry v c p r where
  cursor : r = none ∨ (r = some v.length ∧ Undecided v)

/-- A client at the start of a transaction, with the bytes left over from the last one. -/
structure Idle (c : Client) : Prop where
  size : c.reqHeaders.length = httpBufsz
  fill : c.reqHeadersLen ≤ httpBufsz
  fresh : c.ta = {}

theorem Idle.progress {c : Client} (h : Idle c) :
    Progress (c.reqHeaders.take c.reqHeadersLen) c c.ta.reqParseBlk c.ta.reqParseIter := by
  obtain ⟨size, fill, fresh⟩ := h
  have len : (c.reqHeaders.take c.reqHeadersLen).length = c.reqHeadersLen := by
    rw [List.length_take, size, Nat.min_eq_left fill]
  refine ⟨⟨size, len.symm, by rw [len]; exact fill, by rw [fresh], ?_⟩, .inl (by rw [fresh])⟩
  intro t n _
  rw [len, fresh]
  rfl

structure RecvFrame (c : Client) (k : Kernel) (o : Outcome) (tail : List Event) : Prop where
  client : o.client = { c with
    reqHeaders := o.client.reqHeaders
    ta := o.client.ta
    reqHeadersLen := o.client.reqHeadersLen }
  kernel : ∃ reads : List ReadResult, o.kernel = { k with
    input := o.kernel.input
    trace := k.trace ++ reads.map .socketRead ++ tail }
  stays : OpenInput k.input → OpenInput o.kernel.input

/-- How recv ends when it has taken the bytes `v` of the head. -/
inductive RecvEnd (v : Bytes) (c : Client) (k : Kernel) (o : Outcome) : Prop where
  | waits (rc : o.rc = 0)
      (progress : Progress v o.client o.client.ta.reqParseBlk o.client.ta.reqParseIter)
      (undecided : Undecided v) (short : v.length < httpBufsz)
      (iter : o.client.ta.reqParseIter = some v.length)
      (consumed : o.kernel.input = [] ∨ o.kernel.input.length < k.input.length)
      (frame : RecvFrame c k o [])
  | accepts {mem : Bytes} {req : Request} {p : Nat} (rc : o.rc = 0)
      (head : headEnd v = .finish mem req p)
      (buffer : o.client.reqHeaders.take v.length = mem)
      (fill : o.client.reqHeadersLen = v.length)
      (ta : o.client.ta = {
        state := .serve
        parseState := o.client.ta.parseState
        req := req
        reqPayload := some p
        reqPayloadLen := (v.length : Int) - p
        reqParseBlk := o.client.ta.reqParseBlk
        reqParseIter := o.client.ta.reqParseIter })
      (frame : RecvFrame c k o [.request (HeadInfo.ofRequest mem req)])
  | rejects {mem : Bytes} {req : Request} {status : HttpStatus} (rc : o.rc = -1)
      (head : headEnd v = .fail mem req status)
      (ta : o.client.ta = {
        parseState := o.client.ta.parseState
        req := req
        reqParseBlk := o.client.ta.reqParseBlk
        reqParseIter := o.client.ta.reqParseIter
        resp := { status := status } })
      (frame : RecvFrame c k o [])
  | full (rc : o.rc = -1) (undecided : Undecided v) (whole : v.length = httpBufsz)
      (ta : o.client.ta = {
        parseState := o.client.ta.parseState
        req := o.client.ta.req
        reqParseBlk := o.client.ta.reqParseBlk
        reqParseIter := o.client.ta.reqParseIter
        resp := { status := .http431RequestHeaderFieldsTooLarge } })
      (frame : RecvFrame c k o [])
  | hangup (rc : o.rc = -1) (closed : ¬ OpenInput k.input)
      (ta : o.client.ta = {
        parseState := o.client.ta.parseState
        req := o.client.ta.req
        reqParseBlk := o.client.ta.reqParseBlk
        reqParseIter := o.client.ta.reqParseIter
        resp := { status := .xHangup } })
      (frame : RecvFrame c k o [])

theorem ofRequest_append {Q : Bytes → Prop} {mem : Bytes} {req : Request} {p : Nat} (t : Bytes)
    (h : HeadStrings Q mem req p) (hp : p ≤ mem.length) :
    HeadInfo.ofRequest (mem ++ t) req = HeadInfo.ofRequest mem req := by
  have same (s : Option Nat) (hs : ∀ q, s = some q → q ∈ req.strings) :
      s.map (cString (mem ++ t)) = s.map (cString mem) := by
    cases s with
    | none => rfl
    | some q => exact congrArg some (cstr_append_left t ((h.ends q (hs q rfl)).mono hp))
  have field : ∀ s ∈ [req.path, req.query, req.mimetype, req.range, req.disposition,
      req.modifiedSince, req.freshCookies], ∀ q, s = some q → q ∈ req.strings := by
    rintro s hs q rfl
    exact List.mem_filterMap.mpr ⟨some q, hs, rfl⟩
  simp only [HeadInfo.ofRequest]
  rw [same req.path (field _ (by simp)), same req.query (field _ (by simp)),
    same req.mimetype (field _ (by simp)), same req.range (field _ (by simp)),
    same req.disposition (field _ (by simp)), same req.modifiedSince (field _ (by simp)),
    same req.freshCookies (field _ (by simp))]

structure RecvStep (c : Client) (k : Kernel) (c' : Client) (k' : Kernel) : Prop where
  client : c' = { c with
    reqHeaders := c'.reqHeaders
    ta := c'.ta
    reqHeadersLen := c'.reqHeadersLen }
  kernel : ∃ reads : List ReadResult, k' = { k with
    input := k'.input
    trace := k.trace ++ reads.map .socketRead }
  size : k'.input.length ≤ k.input.length
  stays : OpenInput k.input → OpenInput k'.input

theorem RecvStep.frame {c c' : Client} {k k' : Kernel} {o : Outcome} {tail : List Event}
    (s : RecvStep c k c' k') (h : RecvFrame c' k' o tail) : RecvFrame c k o tail := by
  obtain ⟨client, ⟨reads, kernel⟩, -, stays⟩ := s
  obtain ⟨client', ⟨reads', kernel'⟩, stays'⟩ := h
  refine ⟨?_, ⟨reads ++ reads', ?_⟩, fun isOpen => stays' (stays isOpen)⟩
  · rw [client', client]
  · rw [kernel', kernel]
    simp only [List.map_append, List.append_assoc]

theorem RecvStep.recvEnd {v : Bytes} {c c' : Client} {k k' : Kernel} {o : Outcome}
    (s : RecvStep c k c' k') (h : RecvEnd v c' k' o) : RecvEnd v c k o := by
  cases h with
  | waits rc progress undecided short iter consumed frame =>
    refine .waits rc progress undecided short iter (consumed.imp_right fun less => ?_) (s.frame frame)
    exact Nat.lt_of_lt_of_le less s.size
  | accepts rc head buffer fill ta frame => exact .accepts rc head buffer fill ta (s.frame frame)
  | rejects rc head ta frame => exact .rejects rc head ta (s.frame frame)
  | full rc undecided whole ta frame => exact .full rc undecided whole ta (s.frame frame)
  | hangup rc closed ta frame => exact .hangup rc (fun h => closed (s.stays h)) ta (s.frame frame)

inductive ParseOutcome (v : Bytes) (c : Client) (k : Kernel) : Round → Prop where
  | settles {o : Outcome} (recvEnd : RecvEnd v c k o) (input : o.kernel.input = k.input) :
      ParseOutcome v c k (.stop o)
  | asks {c' : Client} {p : Option Nat} (progress : Progress v c' p (some v.length))
      (step : RecvStep c k c' k) : ParseOutcome v c k (.again c' k p (some v.length))

theorem recvParse_spec {v : Bytes} {c : Client} {p r : Option Nat} (h : Entry v c p r) (k : Kernel) :
    ParseOutcome v c k (recvParse c k p r) := by
  have whole : c.reqHeaders = c.reqHeaders.take v.length ++ c.reqHeaders.drop v.length :=
    (List.take_append_drop ..).symm
  have start := h.same (c.reqHeaders.drop v.length) v.length (Nat.le_refl _)
  rw [← whole] at start
  unfold recvParse
  rw [h.fill, start]
  have resumes := fun t n hn => headEnd_resume v t (n := n) hn
  unfold Resumes at resumes
  cases head : headEnd v with
  | finish mem req q =>
    simp only [headEnd] at head
    simp only [head] at resumes
    obtain ⟨len, hq, same⟩ := resumes (c.reqHeaders.drop v.length) v.length (Nat.le_refl _)
    have strings := headEnd_strings head
    rw [same]
    refine .settles (.accepts rfl head (by simp [← len]) rfl ?_ ⟨?_, ⟨[], ?_⟩, id⟩) rfl
    · simp only
      rw [h.fresh]
    · rfl
    · simp only [Kernel.emit, List.map_nil, List.append_nil]
      rw [ofRequest_append _ strings (by omega)]
  | fail mem req status =>
    simp only [headEnd] at head
    simp only [head] at resumes
    obtain ⟨len, same⟩ := resumes (c.reqHeaders.drop v.length) v.length (Nat.le_refl _)
    rw [same]
    refine .settles (.rejects rfl head ?_ ⟨rfl, ⟨[], by simp⟩, id⟩) rfl
    simp only
    rw [h.fresh]
  | readMore state mem req q s =>
    have undecided : Undecided v := ⟨_, _, _, _, _, head⟩
    simp only [headEnd] at head
    simp only [head] at resumes
    obtain ⟨started, len, hq, rfl, same⟩ :=
      resumes (c.reqHeaders.drop v.length) v.length (Nat.le_refl _)
    rw [same, parse_stuck started _ _ (Nat.le_refl _)]
    have tail : (mem ++ c.reqHeaders.drop v.length).length = c.reqHeaders.length := by
      have := h.size
      have := h.room
      simp only [List.length_append, List.length_drop]
      omega
    refine .asks ⟨⟨tail.trans h.size, rfl, h.room, ?_, ?_⟩, .inr ⟨rfl, undecided⟩⟩
      ⟨rfl, ⟨[], by simp⟩, Nat.le_refl _, id⟩
    · simp only
      rw [h.fresh]
    · intro t n hn
      obtain ⟨-, -, -, -, again⟩ := resumes t n hn
      simp only [List.take_left' len, Option.getD_some]
      exact again.symm

inductive RoundOutcome (v : Bytes) (c : Client) (k : Kernel) : Round → Prop where
  | settles {o : Outcome} (taken : Bytes)
      (bytes : pendingBytes k.input = taken ++ pendingBytes o.kernel.input)
      (room : (v ++ taken).length ≤ httpBufsz) (recvEnd : RecvEnd (v ++ taken) c k o) :
      RoundOutcome v c k (.stop o)
  | asks {c' : Client} {k' : Kernel} {p r : Option Nat} (taken : Bytes)
      (bytes : pendingBytes k.input = taken ++ pendingBytes k'.input)
      (progress : Progress (v ++ taken) c' p r) (step : RecvStep c k c' k') :
      RoundOutcome v c k (.again c' k' p r)

theorem ParseOutcome.round {v taken : Bytes} {c c' : Client} {k k' : Kernel} {round : Round}
    (h : ParseOutcome (v ++ taken) c' k' round) (step : RecvStep c k c' k')
    (bytes : pendingBytes k.input = taken ++ pendingBytes k'.input)
    (room : (v ++ taken).length ≤ httpBufsz) : RoundOutcome v c k round := by
  cases h with
  | settles recvEnd input =>
    exact .settles taken (by rw [input]; exact bytes) room (step.recvEnd recvEnd)
  | asks progress next =>
    refine .asks taken bytes progress ⟨?_, ?_, step.size, step.stays⟩
    · rw [next.client, step.client]
    · exact step.kernel

theorem Entry.extend {v bs : Bytes} {c : Client} {p r : Option Nat} (h : Entry v c p r)
    (room : bs.length ≤ httpBufsz - v.length) :
    Entry (v ++ bs) { c with
      reqHeaders := overwrite c.reqHeaders c.reqHeadersLen bs
      reqHeadersLen := c.reqHeadersLen + bs.length } p r := by
  have inside := h.room
  have len : (v ++ bs).length = v.length + bs.length := List.length_append
  refine ⟨by simp [h.size], by simp [h.fill], by omega, h.fresh, ?_⟩
  intro t n hn
  have filled : (overwrite c.reqHeaders c.reqHeadersLen bs).take (v ++ bs).length =
      c.reqHeaders.take v.length ++ bs := by
    rw [len, h.fill, take_overwrite_end (by rw [h.size]; omega)]
  simp only [filled, List.append_assoc]
  exact h.same (bs ++ t) n (by omega)

theorem recvRound_spec {v : Bytes} {c : Client} {p r : Option Nat} (h : Progress v c p r)
    (k : Kernel) : RoundOutcome v c k (recvRound c k p r) := by
  have keep : v ++ [] = v := List.append_nil v
  have room := h.room
  unfold recvRound
  cases result : k.read (httpBufsz - c.reqHeadersLen) with
  | mk res k' =>
    have spec := read_spec result
    have step : RecvStep c k c k' :=
      ⟨rfl, ⟨[res], by rw [spec.kernel]; rfl⟩, spec.size, spec.stays⟩
    have cascade (none : res.bytes = []) : RoundOutcome v c k (recvParse c k' p r) := by
      have bytes := spec.bytes
      rw [none] at bytes
      have parsed := recvParse_spec h.toEntry k'
      rw [← keep] at parsed
      exact parsed.round step bytes (by rw [keep]; exact room)
    have past : parsePastEnd c r = true → r = some v.length ∧ Undecided v := by
      rcases h.cursor with rfl | atEnd
      · simp [parsePastEnd]
      · exact fun _ => atEnd
    have frame {c' : Client} (client : c' = { c with ta := c'.ta }) {rc : Int} :
        RecvFrame c k { rc := rc, client := c', kernel := k' } [] := by
      refine step.frame ⟨?_, ⟨[], by simp⟩, id⟩
      rw [client]
    cases res with
    | wouldBlock =>
      simp only
      split
      · rename_i stuck
        obtain ⟨rfl, undecided⟩ := past stuck
        refine .settles [] (by simpa [ReadResult.bytes] using spec.bytes) (by rw [keep]; exact room) ?_
        rw [keep]
        obtain ⟨space, consumed⟩ := spec.blocked rfl
        rw [h.fill] at space
        refine .waits rfl ⟨⟨h.size, h.fill, room, ?_, h.same⟩, .inr ⟨rfl, undecided⟩⟩ undecided
          (by omega) rfl consumed (frame rfl)
        simp only
        rw [h.fresh]
      · exact cascade rfl
    | failed code =>
      simp only
      refine .settles [] (by simpa [ReadResult.bytes] using spec.bytes) (by rw [keep]; exact room) ?_
      rw [keep]
      refine .hangup rfl (spec.closed (.inr ⟨code, rfl⟩)) ?_ (frame rfl)
      simp only [Client.setStatus]
      rw [h.fresh]
    | data bs =>
      cases bs with
      | nil =>
        simp only
        have none : pendingBytes k.input = [] ++ pendingBytes k'.input := spec.bytes
        split
        · rename_i full
          rw [h.fill] at full
          split
          · rename_i stuck
            obtain ⟨-, undecided⟩ := past stuck
            refine .settles [] none (by rw [keep]; exact room) ?_
            rw [keep]
            refine .full rfl undecided (Nat.le_antisymm room full) ?_ (frame rfl)
            simp only [Client.setStatus]
            rw [h.fresh]
          · exact cascade rfl
        · rename_i space
          refine .settles [] none (by rw [keep]; exact room) ?_
          rw [keep]
          refine .hangup rfl (spec.closed (.inl ⟨rfl, by omega⟩)) ?_ (frame rfl)
          simp only [Client.setStatus]
          rw [h.fresh]
      | cons b bs =>
        have fits := spec.length
        rw [h.fill] at fits
        have entry : Entry (v ++ b :: bs) { c with
            reqHeaders := overwrite c.reqHeaders c.reqHeadersLen (b :: bs)
            reqHeadersLen := c.reqHeadersLen + (b :: bs).length } p r := h.toEntry.extend fits
        refine (recvParse_spec entry k').round ⟨rfl, step.kernel, step.size, step.stays⟩ spec.bytes ?_
        simp only [ReadResult.bytes] at fits
        simp only [List.length_append]
        omega

theorem recvLoop_spec {v : Bytes} {c : Client} {k : Kernel} {p r : Option Nat}
    (h : Progress v c p r) :
    ∃ taken, pendingBytes k.input = taken ++ pendingBytes (recvLoop c k p r).kernel.input ∧
      (v ++ taken).length ≤ httpBufsz ∧ RecvEnd (v ++ taken) c k (recvLoop c k p r) := by
  fun_induction recvLoop c k p r generalizing v with
  | case1 c k p r o round =>
    have spec := recvRound_spec h k
    rw [round] at spec
    cases spec with
    | settles taken bytes room recvEnd => exact ⟨taken, bytes, room, recvEnd⟩
  | case2 c k p r c' k' p' r' round ih =>
    have spec := recvRound_spec h k
    rw [round] at spec
    cases spec with
    | asks taken bytes progress step =>
      obtain ⟨more, bytes', room, recvEnd⟩ := ih progress
      rw [List.append_assoc] at room recvEnd
      exact ⟨taken ++ more, by rw [bytes, bytes', List.append_assoc], room, step.recvEnd recvEnd⟩

theorem recvRequest_spec {v : Bytes} {c : Client} (k : Kernel)
    (h : Progress v c c.ta.reqParseBlk c.ta.reqParseIter) :
    ∃ taken, pendingBytes k.input = taken ++ pendingBytes (recvRequest c k).kernel.input ∧
      (v ++ taken).length ≤ httpBufsz ∧ RecvEnd (v ++ taken) c k (recvRequest c k) :=
  recvLoop_spec h

end Kitserv
