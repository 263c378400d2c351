import Kitserv.ApiFrame
import Kitserv.Connection
import Kitserv.RecvStream

/-! What becomes of the bytes behind a head. Until the transaction ends, they are in the header
buffer or in the socket, and `kitserv_api_read_payload` is the only one that takes some of them. -/
namespace Kitserv

open Memory

/-- The bytes that came with the head and that nobody has got. -/
def Client.leftover (c : Client) : Bytes :=
  let start := c.ta.reqPayload.getD 0 + c.ta.reqPayloadPos.toNat
  slice c.reqHeaders start (start + (c.ta.reqPayloadLen - c.ta.reqPayloadPos).toNat)

/-- The bytes of the stream behind the ones that have been taken. -/
def unread (c : Client) (k : Kernel) : Bytes := c.leftover ++ pendingBytes k.input

/-- What is left of the payload is inside of the header buffer, and the cookies end before it. -/
structure Window (c : Client) : Prop where
  size : c.reqHeaders.length = httpBufsz
  low : 0 ≤ c.ta.reqPayloadPos
  high : c.ta.reqPayloadPos ≤ c.ta.reqPayloadLen
  fits : (c.ta.reqPayload.getD 0 : Int) + c.ta.reqPayloadLen ≤ httpBufsz
  cookies : ∀ q, c.ta.req.freshCookies = some q →
    TerminatedBelow (0 : Byte) c.reqHeaders q (c.ta.reqPayload.getD 0)

def SoftInput (input : List Arrival) : Prop := ∀ a ∈ input, ∀ code, a ≠ .failed code

theorem OpenInput.soft {input : List Arrival} (h : OpenInput input) : SoftInput input :=
  fun a member => (h a member).2

inductive Received : List Arrival → List Arrival → Prop where
  | refl (input : List Arrival) : Received input input
  | read {count : Nat} {input input' rest : List Arrival} {res : ReadResult}
      (first : Kernel.receive count input = (res, input')) (later : Received input' rest) :
      Received input rest

namespace Received

variable {input input' rest : List Arrival}

theorem trans (h : Received input input') (h' : Received input' rest) : Received input rest := by
  induction h with
  | refl => exact h'
  | read first _ ih => exact .read first (ih h')

theorem keeps {P : List Arrival → Prop} (one : ∀ {count input rest res},
    Kernel.receive count input = (res, rest) → P input → P rest) (h : Received input rest)
    (start : P input) : P rest := by
  induction h with
  | refl => exact start
  | read first _ ih => exact ih (one first start)

theorem of_read {k k' : Kernel} {count : Nat} {res : ReadResult} (h : k.read count = (res, k')) :
    Received k.input k'.input := by
  unfold Kernel.read at h
  split at h
  · cases h
    exact .refl k.input
  · cases received : Kernel.receive count k.input with
    | mk r input =>
      rw [received] at h
      cases h
      exact .read received (.refl input)

end Received

theorem receive_soft {count : Nat} {input rest : List Arrival} {res : ReadResult}
    (h : Kernel.receive count input = (res, rest)) (soft : SoftInput input) :
    SoftInput rest ∧ ∀ code, res ≠ .failed code := by
  cases input with
  | nil => cases h; exact ⟨soft, by simp⟩
  | cons a input =>
    have tail : SoftInput input := fun x hx => soft x (List.mem_cons_of_mem _ hx)
    cases a with
    | wouldBlock => cases h; exact ⟨tail, by simp⟩
    | eof => cases h; exact ⟨soft, by simp⟩
    | failed code => exact absurd rfl (soft (.failed code) (List.mem_cons_self ..) code)
    | chunk b bs =>
      simp only [Kernel.receive] at h
      split at h
      · cases h
        exact ⟨tail, by simp⟩
      · cases h
        refine ⟨fun x hx => ?_, by simp⟩
        rcases List.mem_cons.mp hx with rfl | hx
        · simp
        · exact tail x hx

theorem Received.soft {input rest : List Arrival} (h : Received input rest)
    (start : SoftInput input) : SoftInput rest :=
  h.keeps (fun first start => (receive_soft first start).1) start

theorem read_soft {k k' : Kernel} {count : Nat} {res : ReadResult} (h : k.read count = (res, k'))
    (soft : SoftInput k.input) (code : Nat) : res ≠ .failed code := by
  unfold Kernel.read at h
  split at h
  · cases h
    simp
  · cases received : Kernel.receive count k.input with
    | mk r input =>
      rw [received] at h
      cases h
      exact (receive_soft received soft).2 code

def Event.payloadBytes : Event → Bytes
  | payload bs => bs
  | _ => []

def deliveredBytes (events : List Event) : Bytes := events.flatMap Event.payloadBytes

def Event.inside : Event → Bool
  | request _ | finalized | reset => false
  | _ => true

def Event.quiet : Event → Bool
  | request _ | payload _ | finalized | reset => false
  | _ => true

theorem Event.inside_of_quiet {e : Event} (quiet : e.quiet = true) : e.inside = true := by
  cases e <;> first | rfl | cases quiet

/-- From `c` and `k` to `c'` and `k'` the bytes that have been taken are the ones handed over. -/
structure Delivers (c : Client) (k : Kernel) (c' : Client) (k' : Kernel) : Prop where
  window : Window c'
  received : Received k.input k'.input
  events : ∃ events, k'.trace = k.trace ++ events ∧ (∀ e ∈ events, e.inside = true) ∧
    unread c k = deliveredBytes events ++ unread c' k'

theorem Delivers.soft {c c' : Client} {k k' : Kernel} (h : Delivers c k c' k')
    (start : SoftInput k.input) : SoftInput k'.input := h.received.soft start

theorem Delivers.trans {c c' c'' : Client} {k k' k'' : Kernel} (h : Delivers c k c' k')
    (h' : Delivers c' k' c'' k'') : Delivers c k c'' k'' := by
  obtain ⟨before, trace, inside, bytes⟩ := h.events
  obtain ⟨after, trace', inside', bytes'⟩ := h'.events
  refine ⟨h'.window, h.received.trans h'.received, before ++ after, ?_, fun e member => ?_, ?_⟩
  · rw [trace', trace, List.append_assoc]
  · exact (List.mem_append.mp member).elim (inside e) (inside' e)
  · rw [bytes, bytes', deliveredBytes, deliveredBytes, deliveredBytes, List.flatMap_append,
      List.append_assoc]

theorem deliveredBytes_quiet {events : List Event} (quiet : ∀ e ∈ events, e.quiet = true) :
    deliveredBytes events = [] := by
  refine List.flatMap_eq_nil_iff.mpr fun e member => ?_
  have silent := quiet e member
  cases e <;> first | rfl | cases silent

structure Untouched (c : Client) (k : Kernel) (c' : Client) (k' : Kernel) : Prop where
  buffer : c'.reqHeaders = c.reqHeaders
  payload : c'.ta.reqPayload = c.ta.reqPayload
  pos : c'.ta.reqPayloadPos = c.ta.reqPayloadPos
  len : c'.ta.reqPayloadLen = c.ta.reqPayloadLen
  cookies : c'.ta.req.freshCookies = c.ta.req.freshCookies
  input : k'.input = k.input
  events : ∃ events, k'.trace = k.trace ++ events ∧ ∀ e ∈ events, e.quiet = true

namespace Untouched

variable {c c' c'' : Client} {k k' k'' : Kernel}

theorem trans (h : Untouched c k c' k') (h' : Untouched c' k' c'' k'') : Untouched c k c'' k'' := by
  obtain ⟨before, trace, quiet⟩ := h.events
  obtain ⟨after, trace', quiet'⟩ := h'.events
  refine ⟨h'.buffer.trans h.buffer, h'.payload.trans h.payload, h'.pos.trans h.pos,
    h'.len.trans h.len, h'.cookies.trans h.cookies, h'.input.trans h.input, before ++ after, ?_,
    fun e member => ?_⟩
  · rw [trace', trace, List.append_assoc]
  · exact (List.mem_append.mp member).elim (quiet e) (quiet' e)

theorem silent (buffer : c'.reqHeaders = c.reqHeaders)
    (payload : c'.ta.reqPayload = c.ta.reqPayload) (pos : c'.ta.reqPayloadPos = c.ta.reqPayloadPos)
    (len : c'.ta.reqPayloadLen = c.ta.reqPayloadLen)
    (cookies : c'.ta.req.freshCookies = c.ta.req.freshCookies) (input : k'.input = k.input)
    (trace : k'.trace = k.trace) : Untouched c k c' k' :=
  ⟨buffer, payload, pos, len, cookies, input, [], by rw [trace, List.append_nil], by simp⟩

theorem rfl' (c : Client) (k : Kernel) : Untouched c k c k := silent rfl rfl rfl rfl rfl rfl rfl

theorem event (c : Client) {e : Event} (quiet : e.quiet = true) (input : k'.input = k.input)
    (trace : k'.trace = k.trace ++ [e]) : Untouched c k c k' :=
  ⟨rfl, rfl, rfl, rfl, rfl, input, [e], trace, by simpa using quiet⟩

theorem emit (c : Client) (k : Kernel) {e : Event} (quiet : e.quiet = true) :
    Untouched c k c (k.emit e) := event c quiet rfl rfl

theorem headFrame (h : HeadFrame c c') (k : Kernel) : Untouched c k c' k := by
  refine silent ?_ ?_ ?_ ?_ ?_ rfl rfl <;> rw [h.same]

theorem fileCall (h : FileCall c k c' k') : Untouched c k c' k' := by
  obtain ⟨events, trace, files⟩ := h.trace
  refine ⟨?_, ?_, ?_, ?_, ?_, ?_, events, trace, fun e member => ?_⟩
  · rw [h.client]
  · rw [h.client]
  · rw [h.client]
  · rw [h.client]
  · rw [h.client]
  · rw [h.kernel]
  · have file := files e member
    cases e <;> first | rfl | cases file

theorem leftover (h : Untouched c k c' k') : c'.leftover = c.leftover := by
  simp only [Client.leftover, h.buffer, h.payload, h.pos, h.len]

theorem window (h : Untouched c k c' k') (win : Window c) : Window c' := by
  refine ⟨?_, ?_, ?_, ?_, ?_⟩
  · rw [h.buffer]
    exact win.size
  · rw [h.pos]
    exact win.low
  · rw [h.pos, h.len]
    exact win.high
  · rw [h.payload, h.len]
    exact win.fits
  · rw [h.cookies, h.buffer, h.payload]
    exact win.cookies

theorem delivers (h : Untouched c k c' k') (win : Window c) : Delivers c k c' k' := by
  obtain ⟨events, trace, quiet⟩ := h.events
  refine ⟨h.window win, by rw [h.input]; exact .refl k.input, events, trace, fun e member => ?_, ?_⟩
  · exact Event.inside_of_quiet (quiet e member)
  · rw [deliveredBytes_quiet quiet, List.nil_append, unread, unread, h.leftover, h.input]

end Untouched

section Cookies

theorem strchr_below {mem : Bytes} {p s n : Nat} {ch : Byte} (h : strchr mem p ch = some s)
    (ends : TerminatedBelow (0 : Byte) mem p (n + 1)) : p ≤ s ∧ s < n := by
  have inside : p + (cString mem p).length < n + 1 := ends.length_lt
  have found := strchr_some h
  omega

theorem cookie_tail {mem : Bytes} {start n r : Nat} (ends : TerminatedBelow (0 : Byte) mem start n)
    (equals : strchr mem (start + ((mem.drop start).takeWhile fun b => b == 32).length) 61 = some r) :
    ((capValue mem (strchr mem r 59)).set r 0).drop n = mem.drop n ∧
      ∀ q, strchr mem r 59 = some q →
        TerminatedBelow (0 : Byte) ((capValue mem (strchr mem r 59)).set r 0) (q + 1) n := by
  obtain ⟨j, hj, hn, hz⟩ := ends
  have first := @run_le _ mem (fun b => b == 32) _ _ _ hj hz (by decide)
  obtain ⟨-, hr⟩ := strchr_below equals ⟨j, first, Nat.lt_succ_self j, hz⟩
  cases semicolon : strchr mem r 59 with
  | none =>
    refine ⟨?_, by simp⟩
    apply drop_congr
    intro i hi
    exact List.getElem?_set_ne (by omega)
  | some q =>
    obtain ⟨hq, hqj⟩ := strchr_below semicolon ⟨j, Nat.le_of_lt hr, Nat.lt_succ_self j, hz⟩
    refine ⟨?_, ?_⟩
    · apply drop_congr
      intro i hi
      rw [capValue, List.getElem?_set_ne (by omega), List.getElem?_set_ne (by omega)]
    · rintro _ ⟨⟩
      refine ⟨j, hqj, hn, ?_⟩
      rw [capValue, List.getElem?_set_ne (by omega), List.getElem?_set_ne (by omega)]
      exact hz

theorem parseCookiesLoop_tail {mem : Bytes} {start n : Nat} (cookies : List HttpCookie) (index : Nat)
    (ends : TerminatedBelow (0 : Byte) mem start n) :
    (parseCookiesLoop mem cookies index start).mem.length = mem.length ∧
      (parseCookiesLoop mem cookies index start).mem.drop n = mem.drop n := by
  fun_induction parseCookiesLoop mem cookies index start with
  | case1 => exact ⟨rfl, rfl⟩
  | case2 mem cookies index start p r equals =>
    exact ⟨List.length_set.trans (length_capValue mem _), (cookie_tail ends equals).1⟩
  | case3 mem cookies index start p r equals =>
    exact ⟨List.length_set.trans (length_capValue mem _), (cookie_tail ends equals).1⟩
  | case4 mem cookies index start p r equals q' mem' stored more next cookies' q semicolon ih =>
    obtain ⟨tail, later⟩ := cookie_tail ends equals
    obtain ⟨length, same⟩ := ih (later q semicolon)
    exact ⟨length.trans (List.length_set.trans (length_capValue mem _)), same.trans tail⟩

theorem slice_of_drop {m m' : Bytes} {n i j : Nat} (same : m.drop n = m'.drop n) (hi : n ≤ i) :
    slice m i j = slice m' i j := by
  have shifted := congrArg (fun l : Bytes => l.drop (i - n)) same
  simp only [List.drop_drop, Nat.add_sub_cancel' hi] at shifted
  simp only [slice, shifted]

theorem parseCookies_delivers {c : Client} (k : Kernel) (win : Window c) :
    Delivers c k (parseCookies c) k := by
  unfold parseCookies
  split
  · exact (Untouched.rfl' c k).delivers win
  · rename_i p fresh
    obtain ⟨length, tail⟩ := parseCookiesLoop_tail c.reqCookies 0 (win.cookies p fresh)
    refine ⟨⟨length.trans win.size, win.low, win.high, win.fits, by simp⟩, .refl k.input, [],
      (List.append_nil _).symm, by simp, ?_⟩
    simp only [deliveredBytes, List.flatMap_nil, List.nil_append, unread, Client.leftover,
      slice_of_drop tail (Nat.le_add_right _ _)]

end Cookies

section Payload

structure Gathers (c : Client) (k : Kernel) (written : Bytes) (nbytes : Nat) (r : CallResult) :
    Prop where
  client : r.client = c
  received : Received k.input r.kernel.input
  reads : ∃ reads : List ReadResult, r.kernel.trace = k.trace ++ reads.map .socketRead
  bytes : ∃ bs, pendingBytes k.input = bs ++ pendingBytes r.kernel.input ∧ (nbytes = 0 → bs = []) ∧
    (r.reply.data = some (written ++ bs) ∨ r.reply.data = none ∧ written ++ bs = [])

theorem readPayloadLoop_gathers {c : Client} {k : Kernel} (written : Bytes) (nbytes : Nat)
    (soft : SoftInput k.input) :
    Gathers c k written nbytes (readPayloadLoop c k written nbytes) := by
  -- a read that brings nothing ends the loop
  have stops {k k' : Kernel} {written : Bytes} {nbytes : Nat} {res : ReadResult}
      {r : CallResult} (got : k.read nbytes = (res, k'))
      (nothing : res.bytes = []) (client : r.client = c) (kernel : r.kernel = k')
      (data : r.reply.data = some written ∨ r.reply.data = none ∧ written = []) :
      Gathers c k written nbytes r := by
    have spec := read_spec got
    refine ⟨client, kernel ▸ .of_read got, ⟨[res], ?_⟩, [], ?_, fun _ => rfl, ?_⟩
    · rw [kernel, spec.kernel]
      rfl
    · rw [kernel, spec.bytes, nothing]
    · rw [List.append_nil]
      exact data
  fun_induction readPayloadLoop c k written nbytes with
  | case1 k written => exact ⟨rfl, .refl _, ⟨[], (List.append_nil _).symm⟩, [], rfl, fun _ => rfl,
      .inl (by rw [List.append_nil])⟩
  | case2 k written nbytes give more k' got some => exact stops got rfl rfl rfl (.inl rfl)
  | case3 k written nbytes deny more k' got none =>
    exact stops got rfl rfl rfl (.inr ⟨rfl, of_not_not none⟩)
  | case4 k written nbytes deny more code k' got =>
    exact absurd rfl (read_soft got soft code)
  | case5 k written nbytes give more k' got some => exact stops got rfl rfl rfl (.inl rfl)
  | case6 k written nbytes deny more k' got none =>
    exact stops got rfl rfl rfl (.inr ⟨rfl, of_not_not none⟩)
  | case7 k written nbytes more b bs k' got ih =>
    have spec := read_spec got
    have first := Received.of_read got
    obtain ⟨client, received, ⟨reads, trace⟩, later, bytes, -, data⟩ := ih (first.soft soft)
    refine ⟨client, first.trans received, ⟨.data (b :: bs) :: reads, ?_⟩, b :: bs ++ later, ?_,
      fun none => absurd none more, ?_⟩
    · rw [trace, spec.kernel]
      simp
    · rw [spec.bytes, bytes, List.append_assoc]
      rfl
    · rw [← List.append_assoc]
      exact data

theorem inside_reads (reads : List ReadResult) :
    (∀ e ∈ reads.map Event.socketRead, e.inside = true) ∧
      deliveredBytes (reads.map Event.socketRead) = [] := by
  refine ⟨fun e member => ?_, List.flatMap_eq_nil_iff.mpr fun e member => ?_⟩
  · obtain ⟨r, -, rfl⟩ := List.mem_map.mp member
    rfl
  · obtain ⟨r, -, rfl⟩ := List.mem_map.mp member
    rfl

def CallResult.handOver (r : CallResult) : CallResult :=
  match r.reply.data with
  | some bs => { r with kernel := r.kernel.emit (.payload bs) }
  | none => r

theorem Gathers.delivers {c c' : Client} {k : Kernel} {written : Bytes} {nbytes : Nat} {r : CallResult}
    (h : Gathers c' k written nbytes r) (win : Window c')
    (front : c.leftover = written ++ c'.leftover) (whole : nbytes = 0 ∨ c'.leftover = []) :
    Delivers c k r.handOver.client r.handOver.kernel := by
  obtain ⟨client, received, ⟨reads, trace⟩, bs, bytes, none, data⟩ := h
  obtain ⟨inside, silent⟩ := inside_reads reads
  have taken : unread c k = written ++ bs ++ (c'.leftover ++ pendingBytes r.kernel.input) := by
    rw [unread, front, bytes]
    rcases whole with last | empty
    · simp [none last]
    · simp [empty]
  unfold CallResult.handOver
  rcases data with data | ⟨data, empty⟩
  · simp only [data]
    refine ⟨by rw [client]; exact win, received, reads.map .socketRead ++ [.payload (written ++ bs)], ?_,
      ?_, ?_⟩
    · rw [Kernel.emit, trace, List.append_assoc]
    · intro e member
      rcases List.mem_append.mp member with early | last
      · exact inside e early
      · rw [List.mem_singleton.mp last]
        rfl
    · rw [taken, client, deliveredBytes, List.flatMap_append, ← deliveredBytes, silent]
      simp [Event.payloadBytes, unread, Kernel.emit]
  · simp only [data]
    refine ⟨by rw [client]; exact win, received, reads.map .socketRead, trace, inside, ?_⟩
    rw [taken, empty, silent, client, unread]

/-- The bytes in the header buffer come first, and only when they are used up the socket is read. -/
theorem readPayload_eq (c : Client) (k : Kernel) (nbytes : Nat) :
    readPayload c k nbytes = if c.ta.reqPayloadLen - c.ta.reqPayloadPos > 0 then
        (readPayloadLoop { c with ta := { c.ta with reqPayloadPos := c.ta.reqPayloadPos +
          (min nbytes (c.ta.reqPayloadLen - c.ta.reqPayloadPos).toNat : Nat) } } k
          (c.leftover.take nbytes)
          (nbytes - min nbytes (c.ta.reqPayloadLen - c.ta.reqPayloadPos).toNat)).handOver
      else (readPayloadLoop c k [] nbytes).handOver := by
  have front : c.leftover.take nbytes = slice c.reqHeaders
      (c.ta.reqPayload.getD 0 + c.ta.reqPayloadPos.toNat)
      (c.ta.reqPayload.getD 0 + c.ta.reqPayloadPos.toNat +
        min nbytes (c.ta.reqPayloadLen - c.ta.reqPayloadPos).toNat) := by
    simp only [Client.leftover, slice, List.take_take, Nat.add_sub_cancel_left]
  rw [front, ← apply_ite CallResult.handOver]
  rfl

theorem length_leftover_le (c : Client) :
    c.leftover.length ≤ (c.ta.reqPayloadLen - c.ta.reqPayloadPos).toNat := by
  simp only [Client.leftover, length_slice]
  omega

theorem leftover_advance {c : Client} (low : 0 ≤ c.ta.reqPayloadPos) (n : Nat) :
    { c with ta := { c.ta with reqPayloadPos := c.ta.reqPayloadPos + n } }.leftover =
      c.leftover.drop n := by
  have start : (c.ta.reqPayloadPos + n).toNat = c.ta.reqPayloadPos.toNat + n := by omega
  have count : (c.ta.reqPayloadLen - (c.ta.reqPayloadPos + n)).toNat =
      (c.ta.reqPayloadLen - c.ta.reqPayloadPos).toNat - n := by omega
  simp only [Client.leftover, slice, start, count, List.drop_take, List.drop_drop,
    Nat.add_sub_cancel_left]
  rw [Nat.add_assoc]

theorem readPayload_delivers {c : Client} {k : Kernel} (nbytes : Nat) (win : Window c)
    (soft : SoftInput k.input) :
    Delivers c k (readPayload c k nbytes).client (readPayload c k nbytes).kernel := by
  have bound := length_leftover_le c
  have low := win.low
  rw [readPayload_eq]
  split
  · rename_i some
    generalize hleft : (c.ta.reqPayloadLen - c.ta.reqPayloadPos).toNat = left at bound ⊢
    have rest := leftover_advance low (min nbytes left)
    refine (readPayloadLoop_gathers _ _ soft).delivers ⟨win.size, ?_, ?_, win.fits, win.cookies⟩ ?_ ?_
    · simp only
      omega
    · simp only
      omega
    · rw [rest]
      refine (List.take_append_drop nbytes c.leftover).symm.trans (congrArg _ ?_)
      rcases Nat.le_total nbytes left with less | more
      · rw [Nat.min_eq_left less]
      · rw [Nat.min_eq_right more, List.drop_eq_nil_of_le bound,
          List.drop_eq_nil_of_le (Nat.le_trans bound more)]
    · rw [rest]
      refine (Nat.le_total nbytes left).imp (fun less => by omega) (fun more => ?_)
      rw [Nat.min_eq_right more, List.drop_eq_nil_of_le bound]
  · rename_i none
    have empty : c.leftover = [] := List.eq_nil_of_length_eq_zero (by omega)
    exact (readPayloadLoop_gathers [] nbytes soft).delivers win (List.nil_append _).symm (.inr empty)

end Payload

section Calls

theorem writeBody_untouched {c : Client} {r : BodyResult} (k : Kernel)
    (h : r.client = { c with respBody := r.client.respBody }) :
    Untouched c k (r.asCall k.realloc.2).client (r.asCall k.realloc.2).kernel := by
  have same : (r.asCall k.realloc.2).client = { c with respBody := r.client.respBody } := h
  rw [same]
  exact .silent rfl rfl rfl rfl rfl rfl rfl

theorem sendFile_untouched (c : Client) (k : Kernel) (fd filesize : Int) :
    Untouched c k (sendFile c k fd filesize).client (sendFile c k fd filesize).kernel := by
  unfold sendFile
  have client (resp : Response) : Untouched c k { c with ta := { c.ta with resp := resp } } k :=
    .silent rfl rfl rfl rfl rfl rfl rfl
  have closed (c' : Client) :
      Untouched c' k c' (if c.ta.resp.fd > 0 then k.close c.ta.resp.fd else k) := by
    split
    · exact .emit c' k rfl
    · exact .rfl' c' k
  have handed (c' : Client) (k : Kernel) :
      Untouched c' k c' (if fd > 0 then k.emit (.handed fd) else k) := by
    split
    · exact .emit c' k rfl
    · exact .rfl' c' k
  exact ((client _).trans (closed _)).trans (handed _ _)

/-- All calls but those that read payload or cookies leave the bytes of the request alone. -/
theorem apiCall_untouched (s : Server) (c : Client) (k : Kernel) {f : Call}
    (payload : ∀ nbytes, f ≠ .readPayload nbytes)
    (cookies : ∀ key keylen, f ≠ .getRequestCookieN key keylen) :
    Untouched c k (apiCall s c k f).client (apiCall s c k f).kernel := by
  have kept := Untouched.rfl' c k
  have block {r : Result} (h : HeadFrame c r.client) (errno : Errno) :
      Untouched c k (r.asCall k errno).client (r.asCall k errno).kernel := .headFrame h k
  cases f with
  | choose => exact .silent rfl rfl rfl rfl rfl rfl rfl
  | getRequestMethod | getRequestPath | getRequestQuery | getRequestContentLength
  | getRequestMimeType | getRequestDisposition => exact kept
  | getRequestCookieN key keylen => exact absurd rfl (cookies key keylen)
  | getRequestRange =>
    have same := parseRange_client c
    simp only [apiCall]
    generalize parseRange c = parsed at same
    obtain ⟨range, c'⟩ := parsed
    cases same
    cases range <;> exact kept
  | getRequestModifiedSinceDifference time =>
    simp only [apiCall]
    split <;> exact kept
  | readPayload nbytes => exact absurd rfl (payload nbytes)
  | writeBody data => exact writeBody_untouched k (writeBody_body c data _)
  | writeBodyFmt first second => exact writeBody_untouched k (writeBodyFmt_body c first second _)
  | resetHeaders | resetBody | setPreserveHeadersOnError _ | setPreserveBodyOnError _
  | setResponseStatus _ => exact .silent rfl rfl rfl rfl rfl rfl rfl
  | sendFile fd filesize => exact sendFile_untouched c k fd filesize
  | setSendRange pos last =>
    simp only [apiCall, setSendRange]
    split
    · exact kept
    · exact .silent rfl rfl rfl rfl rfl rfl rfl
  | saveState state =>
    exact ⟨rfl, rfl, rfl, rfl, rfl, rfl, [.saved state], rfl, by simp [Event.quiet]⟩
  | headerAdd key value => exact block (headerAdd_headFrame c key value) _
  | headerAddContentType mime => exact block (headerAdd_headFrame c _ _) _
  | headerAddContentTypeGuess extension => exact block (headerAdd_headFrame c _ _) _
  | headerAddLastModified time => exact block (headerAddLastModified_headFrame s.time c time) _
  | handleStaticPath path ctx => exact .fileCall (handleStaticPath_call s c k path ctx)

theorem apiCall_other (s : Server) {c : Client} {k : Kernel} {f : Call}
    (other : ∀ nbytes, f ≠ .readPayload nbytes) (win : Window c) :
    Delivers c k (apiCall s c k f).client (apiCall s c k f).kernel := by
  by_cases cookies : ∃ key keylen, f = .getRequestCookieN key keylen
  · obtain ⟨key, keylen, rfl⟩ := cookies
    simp only [apiCall, getRequestCookieN]
    split
    · exact (Untouched.rfl' c k).delivers win
    · exact parseCookies_delivers k win
  · simp only [not_exists] at cookies
    exact (apiCall_untouched s c k other cookies).delivers win

theorem apiCall_delivers (s : Server) {c : Client} {k : Kernel} (f : Call) (win : Window c)
    (soft : SoftInput k.input) :
    Delivers c k (apiCall s c k f).client (apiCall s c k f).kernel := by
  by_cases payload : ∃ nbytes, f = .readPayload nbytes
  · obtain ⟨nbytes, rfl⟩ := payload
    exact readPayload_delivers nbytes win soft
  · exact apiCall_other s (not_exists.mp payload) win

end Calls

section Stages

theorem serveCont_untouched (c : Client) (k : Kernel) :
    Untouched c k (serveCont c k).client (serveCont c k).kernel :=
  .silent rfl rfl rfl rfl rfl rfl rfl

/-- A relation of clients and kernels that a chain of API calls establishes. -/
structure CallRule (s : Server) (R : Client → Kernel → Client → Kernel → Prop) : Prop where
  silent : ∀ {c k c' k'}, Untouched c k c' k' → R c k c' k'
  trans : ∀ {c k c' k' c'' k''}, R c k c' k' → R c' k' c'' k'' → R c k c'' k''
  call : ∀ c k f, R c k (apiCall s c k f).client (apiCall s c k f).kernel

namespace CallRule

variable {s : Server} {R : Client → Kernel → Client → Kernel → Prop}

theorem program (rule : CallRule s R) (program : Program) (c : Client) (k : Kernel) :
    R c k (runProgram s program c k).1 (runProgram s program c k).2 := by
  induction program generalizing c k with
  | ret => exact rule.silent (.rfl' c k)
  | call f next ih => exact rule.trans (rule.call c k f) (ih _ _ _)

theorem endpoint (rule : CallRule s R) (c : Client) (k : Kernel) :
    R c k (serveEndpoint s c k).client (serveEndpoint s c k).kernel := by
  unfold serveEndpoint
  split
  · exact rule.silent ((Untouched.fileCall (handleStaticPath_call s c k _ none)).trans
      (serveCont_untouched _ _))
  · rename_i handler hit
    have called := Untouched.emit c k (e := .called c.ta.api.internalData) rfl
    have ran := rule.trans (rule.silent called) (rule.program (handler c.ta.api.internalData) c _)
    simp only
    generalize runProgram s (handler c.ta.api.internalData) c _ = r at ran
    have returned := Untouched.emit r.1 r.2 (e := .returned r.1.ta.resp.status) rfl
    split
    · exact rule.trans ran (rule.silent returned)
    · exact rule.trans ran (rule.silent (returned.trans (serveCont_untouched _ _)))

/-- What the calls of a handler establish, `kitserv_http_serve_request` does. -/
theorem served (rule : CallRule s R) {c : Client} {k : Kernel} {o : Outcome}
    (h : serveRequest s c k = some o) : R c k o.client o.kernel := by
  have routed := Untouched.emit c k (e := .routed) rfl
  unfold serveRequest at h
  split at h
  · cases h
    exact rule.silent ((Untouched.fileCall (handleStaticPath_call s c k _ none)).trans
      (serveCont_untouched _ _))
  · split at h
    · cases h
      exact rule.endpoint c k
    · split at h
      · cases h
      · simp only at h
        split at h
        · cases h
        · cases h
          refine rule.silent (routed.trans ?_)
          exact .silent rfl rfl rfl rfl rfl rfl rfl
        · rename_i hit flags _
          cases h
          have chosen : Untouched c (k.emit .routed) { c with ta := { c.ta with
              api := { c.ta.api with endpointHit := hit, allowFlags := flags } } }
              (k.emit .routed) := .silent rfl rfl rfl rfl rfl rfl rfl
          exact rule.trans (rule.silent (routed.trans chosen)) (rule.endpoint _ _)

end CallRule

theorem delivers_rule (s : Server) : CallRule s fun c k c' k' =>
    Window c → SoftInput k.input → Delivers c k c' k' where
  silent := fun h win _ => h.delivers win
  trans := fun first later win soft =>
    have start := first win soft
    start.trans (later start.window (start.soft soft))
  call := fun _ _ f win soft => apiCall_delivers s f win soft

theorem serveRequest_delivers {s : Server} {c : Client} {k : Kernel} {o : Outcome}
    (h : serveRequest s c k = some o) (win : Window c) (soft : SoftInput k.input) :
    Delivers c k o.client o.kernel := (delivers_rule s).served h win soft

theorem dropBody_untouched (c : Client) (k : Kernel) :
    Untouched c k (dropBody c k).1 (dropBody c k).2 := by
  simp only [dropBody, Kernel.closeFdToZero]
  split
  · exact ⟨rfl, rfl, rfl, rfl, rfl, rfl, [.closed c.ta.resp.fd], rfl, by
      simp [Event.quiet]⟩
  · exact .silent rfl rfl rfl rfl rfl rfl rfl

theorem appendTexts_untouched (c : Client) (k : Kernel) (texts : List Bytes) :
    Untouched c k (appendTexts c k texts).client (appendTexts c k texts).kernel := by
  have appended := appendTexts_spec c k texts
  apply Untouched.silent <;> first | rw [appended.client] | rw [appended.kernel]

theorem untouched_rule : PrepareRule Untouched where
  refl := .rfl'
  trans := .trans
  line _ _ := .silent rfl rfl rfl rfl rfl rfl rfl
  header c k key value := .headFrame (headerAdd_headFrame c key value) k
  emptyLine _ _ := .silent rfl rfl rfl rfl rfl rfl rfl
  unended _ _ := .silent rfl rfl rfl rfl rfl rfl rfl
  describe _ _ := .silent rfl rfl rfl rfl rfl rfl rfl
  wipe _ _ := .silent rfl rfl rfl rfl rfl rfl rfl
  drop := dropBody_untouched
  texts := appendTexts_untouched

theorem prepareResponse_untouched {c : Client} {k : Kernel} {o : Outcome}
    (h : prepareResponse c k = some o) : Untouched c k o.client o.kernel := untouched_rule.prepared h

theorem logTransaction_untouched (s : Server) (c : Client) (k : Kernel) :
    Untouched c k c (logTransaction s c k) := by
  unfold logTransaction
  split
  · exact .rfl' c k
  · exact .emit c k rfl

theorem socketWrite_untouched (c : Client) (k : Kernel) (rest : List Transfer) (t : Transfer) :
    Untouched c k c ({ k with writes := rest }.emit (.socketWrite t)) :=
  .event (e := .socketWrite t) c rfl rfl rfl

theorem socketSendfile_untouched (c : Client) (k : Kernel) (rest : List Transfer) (t : Transfer) :
    Untouched c k c ({ k with sendfiles := rest }.emit (.socketSendfile t)) :=
  .event (e := .socketSendfile t) c rfl rfl rfl

theorem sendLoop_untouched (writes : List Transfer) (c : Client) (k : Kernel) :
    Untouched c k (sendLoop c k writes).client (sendLoop c k writes).kernel := by
  induction writes generalizing c k with
  | nil => exact socketWrite_untouched c k [] .wouldBlock
  | cons t rest ih =>
    cases t with
    | wouldBlock => exact socketWrite_untouched c k rest .wouldBlock
    | failed code => exact socketWrite_untouched c k rest (.failed code)
    | bytes n =>
      simp only [sendLoop]
      generalize min n (describedBytes k.outside c).length = taken
      have advanced : Untouched c k (c.setBufs (c.ta.resp.bufs.advance taken).1)
          (({ k with writes := rest }.emit (.socketWrite (.bytes taken))).emit
            (.sent ((describedBytes k.outside c).take taken))) :=
        ((socketWrite_untouched c k rest (.bytes taken)).trans (.emit c _ rfl)).trans
          (.silent rfl rfl rfl rfl rfl rfl rfl)
      split
      · exact advanced.trans (.silent rfl rfl rfl rfl rfl rfl rfl)
      · exact advanced.trans (ih ..)

theorem sendFileClose_untouched (c : Client) (k : Kernel) :
    Untouched c k (sendFileClose c k).client (sendFileClose c k).kernel := by
  simp only [sendFileClose, sendFileDone, Kernel.closeFdToZero]
  split
  · exact ⟨rfl, rfl, rfl, rfl, rfl, rfl, [.closed c.ta.resp.fd], rfl, by
      simp [Event.quiet]⟩
  · exact .silent rfl rfl rfl rfl rfl rfl rfl

theorem sendFileFailed_untouched (c : Client) (k : Kernel) (rest : List Transfer) (t : Transfer)
    (rc : Int) : Untouched c k
      (sendFileLoop.failed c rc ({ k with sendfiles := rest }.emit (.socketSendfile t))).client
      (sendFileLoop.failed c rc ({ k with sendfiles := rest }.emit (.socketSendfile t))).kernel := by
  have refused := socketSendfile_untouched c k rest t
  unfold sendFileLoop.failed
  split
  · exact refused.trans (sendFileClose_untouched ..)
  · exact refused

theorem sendFileLoop_untouched (sendfiles : List Transfer) (c : Client) (k : Kernel) :
    Untouched c k (sendFileLoop c k sendfiles).client (sendFileLoop c k sendfiles).kernel := by
  induction sendfiles generalizing c k with
  | nil => exact sendFileFailed_untouched c k [] .wouldBlock 0
  | cons t rest ih =>
    cases t with
    | wouldBlock => exact sendFileFailed_untouched c k rest .wouldBlock 0
    | failed code => exact sendFileFailed_untouched c k rest (.failed code) (-1)
    | bytes n =>
      simp only [sendFileLoop]
      generalize min n (toSizeT (c.ta.resp.bodyEnd - c.ta.resp.bodyPos + 1)) = taken
      have advanced : Untouched c k { c with ta := { c.ta with resp := { c.ta.resp with
          bodyPos := c.ta.resp.bodyPos + taken } } }
          (({ k with sendfiles := rest }.emit (.socketSendfile (.bytes taken))).emit
            (.sentFile c.ta.resp.fd c.ta.resp.bodyPos taken)) :=
        ((socketSendfile_untouched c k rest (.bytes taken)).trans (.emit c _ rfl)).trans
          (.silent rfl rfl rfl rfl rfl rfl rfl)
      split
      · exact advanced.trans (sendFileClose_untouched ..)
      · split
        · exact advanced.trans (.silent rfl rfl rfl rfl rfl rfl rfl)
        · exact advanced.trans (ih ..)

theorem sendResponseFile_untouched (c : Client) (k : Kernel) :
    Untouched c k (sendResponseFile c k).client (sendResponseFile c k).kernel := by
  unfold sendResponseFile
  split
  · exact sendFileLoop_untouched k.sendfiles c k
  · exact .silent rfl rfl rfl rfl rfl rfl rfl

/-- What nobody has got of the payload is what the next head starts with. -/
theorem finalizeTransaction_idle {c : Client} {k : Kernel} (win : Window c) :
    ∃ c' k', finalizeTransaction c k = some (c', k') ∧ Idle c' ∧
      c'.reqHeaders.take c'.reqHeadersLen = c.leftover ∧ k'.input = k.input ∧
      k'.trace = k.trace ++ [.finalized] := by
  obtain ⟨size, low, high, fits, cookies⟩ := win
  have range : 0 ≤ c.ta.reqPayloadLen - c.ta.reqPayloadPos ∧
      c.ta.reqPayloadLen - c.ta.reqPayloadPos ≤ httpBufsz := by omega
  have length : c.leftover.length = (c.ta.reqPayloadLen - c.ta.reqPayloadPos).toNat := by
    simp only [Client.leftover, length_slice, size]
    omega
  unfold finalizeTransaction
  simp only [if_pos range]
  refine ⟨_, _, rfl, ⟨?_, ?_, rfl⟩, ?_, rfl, rfl⟩
  · exact (length_overwrite ..).trans size
  · simp only [cleanupClient]
    omega
  · have room : 0 + c.leftover.length ≤ c.reqHeaders.length := by omega
    have front := take_overwrite_end room
    rw [Nat.zero_add, List.take_zero, List.nil_append, length] at front
    exact front

end Stages

end Kitserv
