import Kitserv.DescriptorStages
import Kitserv.StaticResponse

/-! The bytes that a connection puts on the wire, against the responses that it has prepared: over any run
nothing of a response is lost, repeated, or mixed with another one. -/
namespace Kitserv

open Memory

def Event.wire (content : Int → Bytes) : Event → Bytes
  | sent bs => bs
  | sentFile fd pos count => slice (content fd) pos.toNat (pos.toNat + count)
  | _ => []

def wireBytes (content : Int → Bytes) (events : List Event) : Bytes :=
  events.flatMap (Event.wire content)

def Puts (content : Int → Bytes) (k k' : Kernel) (bs : Bytes) : Prop :=
  ∃ events, k'.trace = k.trace ++ events ∧ wireBytes content events = bs

def Event.offWire : Event → Bool
  | sent _ | sentFile .. => false
  | _ => true

namespace Puts

variable {content : Int → Bytes} {k k' k'' : Kernel} {bs bs' : Bytes}

theorem of_offWire {events : List Event} (trace : k'.trace = k.trace ++ events)
    (off : ∀ e ∈ events, e.offWire = true) : Puts content k k' [] := by
  refine ⟨events, trace, List.flatMap_eq_nil_iff.mpr fun e member => ?_⟩
  have silent := off e member
  cases e <;> first | rfl | cases silent

theorem of_trace (same : k'.trace = k.trace) : Puts content k k' [] :=
  ⟨[], by rw [same, List.append_nil], rfl⟩

theorem trans (h : Puts content k k' bs) (h' : Puts content k' k'' bs') :
    Puts content k k'' (bs ++ bs') := by
  obtain ⟨before, trace, bytes⟩ := h
  obtain ⟨after, trace', bytes'⟩ := h'
  refine ⟨before ++ after, by rw [trace', trace, List.append_assoc], ?_⟩
  rw [wireBytes, List.flatMap_append, ← wireBytes, ← wireBytes, bytes, bytes']

theorem emit (h : Puts content k k' bs) (e : Event) : Puts content k (k'.emit e) (bs ++ e.wire content) :=
  h.trans ⟨[e], rfl, List.append_nil _⟩

theorem closeFdToZero (h : Puts content k k' bs) (fd : Int) :
    Puts content k (k'.closeFdToZero fd).2 bs := by
  unfold Kernel.closeFdToZero
  split
  · have closed : Puts content k (k'.close fd) (bs ++ []) := h.emit (.closed fd)
    rwa [List.append_nil] at closed
  · exact h

end Puts

section Send

variable {c : Client} {n : Nat}

theorem describedBytes_advance (outside : Nat → Byte) (within : n < c.ta.resp.bufs.start.len) :
    describedBytes outside (c.setBufs (c.ta.resp.bufs.advance n).1) =
      (describedBytes outside c).drop n := by
  simp only [describedBytes, Client.setBufs, advance_within within, iovecBytes_advance _ _ within]
  rw [List.append_assoc, List.append_assoc, List.drop_append_of_le_length]
  rw [length_iovecBytes]
  exact Nat.le_of_lt within

/-- How a call of `kitserv_http_send_response` ends that has sent `bs`: nothing is left, or the rest is
described as before. -/
structure SendEnd (c : Client) (k : Kernel) (o : Outcome) (bs : Bytes) : Prop where
  client : o.client = { c with ta := { c.ta with
    state := o.client.ta.state
    resp := { c.ta.resp with bufs := o.client.ta.resp.bufs } } }
  puts : ∀ content, Puts content k o.kernel bs
  left : (o.client.ta.state = .sendFile ∧ bs = describedBytes k.outside c) ∨
    (o.client.ta.state = c.ta.state ∧ 0 < o.client.ta.resp.bufs.start.len ∧
      bs ++ describedBytes k.outside o.client = describedBytes k.outside c)

theorem SendEnd.blocked {k k' : Kernel} {e : Event} (start : 0 < c.ta.resp.bufs.start.len)
    (trace : k'.trace = k.trace ++ [e]) (silent : e.offWire = true) :
    SendEnd c k { rc := 0, client := c, kernel := k' } [] :=
  ⟨rfl, fun _ => .of_offWire trace (by simpa using silent), .inr ⟨rfl, start, rfl⟩⟩

theorem sendLoop_sends {writes : List Transfer} (c : Client) (k : Kernel)
    (start : 0 < c.ta.resp.bufs.start.len) (within : WithinStart c.ta.resp.bufs writes) :
    ∃ bs, SendEnd c k (sendLoop c k writes) bs := by
  induction writes generalizing c k with
  | nil => exact ⟨[], .blocked start rfl rfl⟩
  | cons t rest ih =>
    cases t with
    | wouldBlock => exact ⟨[], .blocked start rfl rfl⟩
    | failed code => exact ⟨[], .blocked start rfl rfl⟩
    | bytes n =>
      have part : c.ta.resp.bufs.start.len ≤ c.ta.resp.bufs.total := by
        unfold RespBufs.total
        omega
      simp only [sendLoop, length_describedBytes]
      rcases within with whole | ⟨inside, later⟩
      · rw [whole, if_pos advance_all, ← @length_describedBytes k.outside, List.take_length]
        refine ⟨describedBytes k.outside c, rfl, fun content => ?_, .inl ⟨rfl, rfl⟩⟩
        exact ⟨[_, _], by simp only [Kernel.emit, List.append_assoc]; rfl, List.append_nil _⟩
      · rw [Nat.min_eq_left (by omega), advance_within inside, if_neg (by simp)]
        have bufs : (c.setBufs { c.ta.resp.bufs with start := c.ta.resp.bufs.start.advance n }).ta.resp.bufs
            = (c.ta.resp.bufs.advance n).1 := by
          rw [advance_within inside]
          rfl
        have start' : 0 < ((c.ta.resp.bufs.advance n).1).start.len := by
          simp only [advance_within inside, Iovec.advance, if_neg (Nat.not_le.mpr inside)]
          omega
        have rest' := describedBytes_advance k.outside inside
        rw [advance_within inside] at rest'
        obtain ⟨bs, sends⟩ := ih
          (c.setBufs { c.ta.resp.bufs with start := c.ta.resp.bufs.start.advance n })
          (({ k with writes := rest }.emit (.socketWrite (.bytes n))).emit
            (.sent ((describedBytes k.outside c).take n))) (by rw [bufs]; exact start')
          (by rw [bufs]; exact later)
        refine ⟨(describedBytes k.outside c).take n ++ bs, ?_, fun content => ?_, ?_⟩
        · rw [sends.client]
          rfl
        · refine Puts.trans ?_ (sends.puts content)
          exact ⟨[_, _], by simp only [Kernel.emit, List.append_assoc]; rfl, List.append_nil _⟩
        · rcases sends.left with ⟨goes, all⟩ | ⟨waits, start'', both⟩
          · left
            refine ⟨goes, ?_⟩
            rw [all]
            exact (congrArg _ rest').trans (List.take_append_drop ..)
          · right
            refine ⟨waits, start'', ?_⟩
            rw [List.append_assoc]
            exact (congrArg _ (both.trans rest')).trans (List.take_append_drop ..)

end Send

section SendFile

variable {content : Int → Bytes} {c : Client} {k : Kernel}

def Client.fileUpTo (content : Int → Bytes) (c : Client) (pos : Int) : Bytes :=
  slice (content c.ta.resp.fd) c.ta.resp.bodyPos.toNat pos.toNat

def Kernel.SendfileFailed (k : Kernel) : Prop := ∃ code, [.socketSendfile (.failed code)] <:+ k.trace

/-- How a call of `kitserv_http_send_response_file` ends: the range has been sent whole, or up to a
position from which the next call goes on, or sendfile has failed. -/
inductive FileSent (content : Int → Bytes) (c : Client) (k : Kernel) (o : Outcome) : Prop where
  | whole (state : o.client.ta.state = .done)
      (puts : Puts content k o.kernel (c.fileUpTo content (c.ta.resp.bodyEnd + 1)))
  | waits (pos : Int) (rc : o.rc = 0) (client : o.client = c.setPos pos)
      (order : c.ta.resp.bodyPos ≤ pos) (left : pos ≤ c.ta.resp.bodyEnd)
      (puts : Puts content k o.kernel (c.fileUpTo content pos))
  | fails (pos : Int) (rc : o.rc = -1) (failed : o.kernel.SendfileFailed)
      (order : c.ta.resp.bodyPos ≤ pos) (left : pos ≤ c.ta.resp.bodyEnd)
      (puts : Puts content k o.kernel (c.fileUpTo content pos))

theorem fileUpTo_append {pos last : Int} (order : c.ta.resp.bodyPos ≤ pos) (more : pos ≤ last) :
    c.fileUpTo content pos ++ (c.setPos pos).fileUpTo content last = c.fileUpTo content last :=
  slice_append_slice _ (by omega) (by omega)

theorem fileUpTo_self (c : Client) : c.fileUpTo content c.ta.resp.bodyPos = [] := slice_self ..

theorem sendFileFailed_sends {rc : Int} {e : Event} {k' : Kernel}
    (range : 0 ≤ c.ta.resp.bodyPos ∧ c.ta.resp.bodyPos ≤ c.ta.resp.bodyEnd + 1)
    (answer : rc = 0 ∨ rc = -1 ∧ ∃ code, e = .socketSendfile (.failed code))
    (trace : k'.trace = k.trace ++ [e]) (off : e.offWire = true) :
    FileSent content c k (sendFileLoop.failed c rc k') := by
  have nothing : Puts content k k' [] := .of_offWire trace (by simpa using off)
  unfold sendFileLoop.failed
  split
  · rename_i past
    have ends : c.ta.resp.bodyEnd + 1 = c.ta.resp.bodyPos := by omega
    refine .whole rfl ?_
    rw [ends, fileUpTo_self]
    exact nothing.closeFdToZero c.ta.resp.fd
  · rename_i left
    have puts : Puts content k k' (c.fileUpTo content c.ta.resp.bodyPos) := by
      rw [fileUpTo_self]
      exact nothing
    rcases answer with rfl | ⟨rfl, code, rfl⟩
    · exact .waits c.ta.resp.bodyPos rfl rfl (Int.le_refl _) (by omega) puts
    · exact .fails c.ta.resp.bodyPos rfl ⟨code, k.trace, trace.symm⟩ (Int.le_refl _) (by omega) puts

theorem FileSent.after {k' : Kernel} {o : Outcome} {n : Nat}
    (left : ¬ c.ta.resp.bodyPos + n > c.ta.resp.bodyEnd)
    (first : Puts content k k' (c.fileUpTo content (c.ta.resp.bodyPos + n)))
    (h : FileSent content (c.setPos (c.ta.resp.bodyPos + n)) k' o) : FileSent content c k o := by
  have order : c.ta.resp.bodyPos ≤ c.ta.resp.bodyPos + n := by omega
  cases h with
  | whole state puts =>
    have both : Puts content k o.kernel (c.fileUpTo content (c.ta.resp.bodyPos + n) ++
        (c.setPos (c.ta.resp.bodyPos + n)).fileUpTo content (c.ta.resp.bodyEnd + 1)) := first.trans puts
    rw [fileUpTo_append order (by omega)] at both
    exact .whole state both
  | waits pos rc client order' left' puts =>
    have order' : c.ta.resp.bodyPos + n ≤ pos := order'
    have both := first.trans puts
    rw [fileUpTo_append order order'] at both
    exact .waits pos rc client (by omega) left' both
  | fails pos rc failed order' left' puts =>
    have order' : c.ta.resp.bodyPos + n ≤ pos := order'
    have both := first.trans puts
    rw [fileUpTo_append order order'] at both
    exact .fails pos rc failed (by omega) left' both

theorem toSizeT_le {x : Int} (positive : 0 ≤ x) : (toSizeT x : Int) ≤ x := by
  unfold toSizeT
  omega

theorem sendFileLoop_sends {sendfiles : List Transfer} (c : Client) (k : Kernel)
    (low : 0 ≤ c.ta.resp.bodyPos) (range : c.ta.resp.bodyPos ≤ c.ta.resp.bodyEnd + 1)
    (never : NeverShort c.ta.resp.bodyEnd c.ta.resp.bodyPos sendfiles) :
    FileSent content c k (sendFileLoop c k sendfiles) := by
  induction sendfiles generalizing c k with
  | nil => exact sendFileFailed_sends ⟨low, range⟩ (.inl rfl) rfl rfl
  | cons t rest ih =>
    cases t with
    | wouldBlock => exact sendFileFailed_sends ⟨low, range⟩ (.inl rfl) rfl rfl
    | failed code => exact sendFileFailed_sends ⟨low, range⟩ (.inr ⟨rfl, code, rfl⟩) rfl rfl
    | bytes n =>
      have fits := toSizeT_le (x := c.ta.resp.bodyEnd - c.ta.resp.bodyPos + 1) (by omega)
      simp only [sendFileLoop, NeverShort] at never ⊢
      obtain ⟨taken, count⟩ :
          ∃ taken, taken = min n (toSizeT (c.ta.resp.bodyEnd - c.ta.resp.bodyPos + 1)) := ⟨_, rfl⟩
      rw [← count] at never ⊢
      have sent : Puts content k (({ k with sendfiles := rest }.emit (.socketSendfile (.bytes taken))).emit
          (.sentFile c.ta.resp.fd c.ta.resp.bodyPos taken))
          (c.fileUpTo content (c.ta.resp.bodyPos + taken)) := by
        have last : (c.ta.resp.bodyPos + taken).toNat = c.ta.resp.bodyPos.toNat + taken := by omega
        rw [Client.fileUpTo, last]
        exact ⟨[_, _], by simp only [Kernel.emit, List.append_assoc]; rfl, List.append_nil _⟩
      split
      · rename_i past
        have ends : c.ta.resp.bodyPos + taken = c.ta.resp.bodyEnd + 1 := by omega
        rw [ends] at sent
        exact .whole rfl (sent.closeFdToZero c.ta.resp.fd)
      · rename_i left
        obtain ⟨some, never⟩ := never.resolve_left left
        rw [if_neg some]
        exact FileSent.after left sent (ih (c.setPos (c.ta.resp.bodyPos + taken)) _
          (by simp only [Client.setPos]; omega) (by simp only [Client.setPos]; omega) never)

end SendFile

section Silent

variable {content : Int → Bytes} {s : Server} {c : Client} {k : Kernel} {o : Outcome}

theorem recvRequest_offWire : Puts content k (recvRequest c k).kernel [] := by
  obtain ⟨events, trace, reads⟩ := (recvLoop_keeps c k c.ta.reqParseBlk c.ta.reqParseIter).trace
  refine .of_offWire trace fun e member => ?_
  rcases reads e member with ⟨r, rfl⟩ | ⟨info, rfl⟩ <;> rfl

theorem serveStatic_offWire : Puts content k (serveStatic s c k).kernel [] := by
  obtain ⟨events, trace, files⟩ := (handleStaticPath_call s c k
    ((c.ta.req.path.map (cString c.reqHeaders)).getD []) none).trace
  refine .of_offWire trace fun e member => ?_
  have file := files e member
  cases e <;> first | rfl | cases file

theorem serveEndpoint_offWire : Puts content k (serveEndpoint s c k).kernel [] := by
  unfold serveEndpoint
  split
  · exact serveStatic_offWire
  · rename_i handler hit
    obtain ⟨events, trace, calls, -⟩ := (runProgram_frame s (handler c.ta.api.internalData) c
      (k.emit (.called c.ta.api.internalData))).trace
    have called : Puts content k (k.emit (.called c.ta.api.internalData)) [] :=
      .of_offWire rfl (by simp [Event.offWire])
    have ran : Puts content (k.emit (.called c.ta.api.internalData)) (runProgram s
        (handler c.ta.api.internalData) c (k.emit (.called c.ta.api.internalData))).2 [] := by
      refine .of_offWire trace fun e member => ?_
      have call := calls e member
      cases e <;> first | rfl | cases call
    simp only
    generalize runProgram s (handler c.ta.api.internalData) c _ = r at ran
    have returned := (called.trans ran).emit (.returned r.1.ta.resp.status)
    split <;> exact returned

theorem serveRequest_offWire (h : serveRequest s c k = some o) : Puts content k o.kernel [] := by
  have routed : Puts content k (k.emit .routed) [] := .of_offWire rfl (by simp [Event.offWire])
  rcases serveRequest_cases h with ⟨-, rfl⟩ | ⟨tree, flags, -, rfl⟩ | ⟨c', k', enters, rfl⟩
  · exact serveStatic_offWire
  · exact routed
  · cases enters with
    | selected => exact serveEndpoint_offWire
    | routed => exact routed.trans serveEndpoint_offWire

theorem prepareResponse_offWire (h : prepareResponse c k = some o) : Puts content k o.kernel [] := by
  obtain ⟨events, trace, closes⟩ := prepareResponse_closes h
  refine .of_offWire trace fun e member => ?_
  obtain ⟨fd, rfl⟩ := closes e member
  rfl

theorem logTransaction_offWire (h : Puts content k o.kernel []) :
    Puts content k (logTransaction s c o.kernel) [] := by
  unfold logTransaction
  split
  · exact h
  · exact h.emit _

end Silent

def Kernel.OnlySent (k k' : Kernel) : Prop :=
  k' = { k with writes := k'.writes, sendfiles := k'.sendfiles, trace := k'.trace }

namespace Kernel.OnlySent

variable {k k' k'' : Kernel}

theorem written (k : Kernel) (writes : List Transfer) (trace : List Event) :
    k.OnlySent { k with writes := writes, trace := trace } := rfl

theorem sentFile (k : Kernel) (sendfiles : List Transfer) (trace : List Event) :
    k.OnlySent { k with sendfiles := sendfiles, trace := trace } := rfl

theorem trans (h : k.OnlySent k') (h' : k'.OnlySent k'') : k.OnlySent k'' := by
  rw [OnlySent, h', h]

theorem closeFdToZero (h : k.OnlySent k') (fd : Int) : k.OnlySent (k'.closeFdToZero fd).2 := by
  unfold Kernel.closeFdToZero
  split
  · exact h.trans (written k' _ _)
  · exact h

end Kernel.OnlySent

theorem sendLoop_onlySent (writes : List Transfer) (c : Client) (k : Kernel) :
    k.OnlySent (sendLoop c k writes).kernel := by
  induction writes generalizing c k with
  | nil => exact rfl
  | cons t rest ih =>
    cases t with
    | wouldBlock => exact rfl
    | failed code => exact rfl
    | bytes n =>
      simp only [sendLoop]
      split
      · exact rfl
      · exact (Kernel.OnlySent.written k _ _).trans (ih ..)

theorem sendFileFailed_onlySent {k k' : Kernel} (h : k.OnlySent k') (c : Client) (rc : Int) :
    k.OnlySent (sendFileLoop.failed c rc k').kernel := by
  unfold sendFileLoop.failed
  split
  · exact h.closeFdToZero c.ta.resp.fd
  · exact h

theorem sendFileLoop_onlySent (sendfiles : List Transfer) (c : Client) (k : Kernel) :
    k.OnlySent (sendFileLoop c k sendfiles).kernel := by
  induction sendfiles generalizing c k with
  | nil => exact sendFileFailed_onlySent (.sentFile k _ _) ..
  | cons t rest ih =>
    cases t with
    | wouldBlock => exact sendFileFailed_onlySent (.sentFile k _ _) ..
    | failed code => exact sendFileFailed_onlySent (.sentFile k _ _) ..
    | bytes n =>
      simp only [sendFileLoop]
      split
      · exact (Kernel.OnlySent.sentFile k _ _).closeFdToZero c.ta.resp.fd
      · split
        · exact rfl
        · exact (Kernel.OnlySent.sentFile k _ _).trans (ih ..)

theorem sendResponseFile_onlySent (c : Client) (k : Kernel) :
    k.OnlySent (sendResponseFile c k).kernel := by
  unfold sendResponseFile
  split
  · exact sendFileLoop_onlySent k.sendfiles c k
  · exact rfl

/-- The bytes of its response that a client still has to put on the wire. -/
def Client.unsent (outside : Nat → Byte) (content : Int → Bytes) (c : Client) : Bytes :=
  match c.ta.state with
  | .send => responseBytes outside content c
  | .sendFile => fileBytes content c
  | _ => []

instance decidableWithinStart (bufs : RespBufs) (writes : List Transfer) :
    Decidable (WithinStart bufs writes) :=
  match writes with
  | [] => isTrue trivial
  | .bytes n :: rest =>
    have := decidableWithinStart (bufs.advance n).1 rest
    inferInstanceAs (Decidable (min n bufs.total = bufs.total ∨ (n < bufs.start.len ∧ _)))
  | .wouldBlock :: rest | .failed _ :: rest => decidableWithinStart bufs rest

instance decidableNeverShort (last pos : Int) (sendfiles : List Transfer) :
    Decidable (NeverShort last pos sendfiles) :=
  match sendfiles with
  | [] | .failed _ :: _ => isTrue trivial
  | .wouldBlock :: rest =>
    have := decidableNeverShort last pos rest
    inferInstanceAs (Decidable (last < pos ∨ _))
  | .bytes n :: rest =>
    have := decidableNeverShort last (pos + (min n (toSizeT (last - pos + 1)) : Nat)) rest
    inferInstanceAs (Decidable (last < pos + (min n (toSizeT (last - pos + 1)) : Nat) ∨
      (min n (toSizeT (last - pos + 1)) ≠ 0 ∧ _)))

/-- The stages that send can do it: writev leaves some of the start line or takes all that is left, and
sendfile finds the range that it is asked for. -/
def OutputSound (c : Client) (k : Kernel) : Prop :=
  (c.ta.state = .send → WithinStart c.ta.resp.bufs k.writes) ∧
  (c.ta.state = .sendFile → 0 < c.ta.resp.fd → c.ta.req.method ≠ .head →
    0 ≤ c.ta.resp.bodyPos ∧ c.ta.resp.bodyPos ≤ c.ta.resp.bodyEnd + 1 ∧
      NeverShort c.ta.resp.bodyEnd c.ta.resp.bodyPos k.sendfiles)

instance (c : Client) (k : Kernel) : Decidable (OutputSound c k) :=
  inferInstanceAs (Decidable (_ ∧ _))

def Kernel.BrokeOff (k : Kernel) : Prop :=
  ∃ code, [.socketSendfile (.failed code), .reset] <:+ k.trace

theorem Kernel.SendfileFailed.reset {k : Kernel} (failed : k.SendfileFailed) (c : Client) :
    (resetClient c k).2.BrokeOff := by
  obtain ⟨code, before, trace⟩ := failed
  refine ⟨code, before, ?_⟩
  rw [resetClient, Kernel.emit, Kernel.realloc, ← trace, List.append_assoc]
  rfl

namespace Conn

/-- The bytes that the next step puts on the wire. What a descriptor gives to read depends on the time of
its transaction, `Kernel.clock`. -/
def puts (content : Nat → Int → Bytes) (s : Server) : Conn → Bytes
  | serving c k =>
    match (serveStep s c k).kernel? with
    | some k' => wireBytes (content k.clock) (k'.trace.drop k.trace.length)
    | none => []
  | _ => []

def due (content : Nat → Int → Bytes) (s : Server) : Conn → Bytes
  | serving c k =>
    match c.ta.state, serveStep s c k with
    | .prepareResponse, .next r l => responseBytes l.outside (content l.clock) r
    | _, _ => []
  | _ => []

/-- What has to be put on the wire. A connection is closed with all of it sent, or for a sendfile that
failed. -/
def Unsent (content : Nat → Int → Bytes) : Conn → Bytes → Prop
  | serving c k, debt | waiting c k, debt => debt = c.unsent k.outside (content k.clock)
  | closed _ k, debt => debt = [] ∨ k.BrokeOff
  | aborted, debt => debt = []

def Starting : Conn → Prop
  | serving c _ | waiting c _ => c.ta.state = .send → 0 < c.ta.resp.bufs.start.len
  | _ => True

def OutputSound : Conn → Prop
  | serving c k => Kitserv.OutputSound c k
  | _ => True

instance (conn : Conn) : Decidable conn.OutputSound :=
  match conn with
  | serving c k => inferInstanceAs (Decidable (Kitserv.OutputSound c k))
  | waiting .. | closed .. | aborted => isTrue trivial

end Conn

section Steps

variable {content : Nat → Int → Bytes} {s : Server} {c : Client} {k : Kernel}

theorem puts_of {k' : Kernel} {bs : Bytes} (left : (serveStep s c k).kernel? = some k')
    (puts : Puts (content k.clock) k k' bs) : (Conn.serving c k).puts content s = bs := by
  obtain ⟨events, trace, bytes⟩ := puts
  simp only [Conn.puts, left, trace, List.drop_left, bytes]

theorem due_of_state (other : c.ta.state ≠ .prepareResponse) : (Conn.serving c k).due content s = [] := by
  cases state : c.ta.state with
  | prepareResponse => exact absurd state other
  | read | serve | send | sendFile | done => simp only [Conn.due, state]

theorem due_of_step (ends : ∀ r l, serveStep s c k ≠ .next r l) :
    (Conn.serving c k).due content s = [] := by
  unfold Conn.due
  simp only
  split
  · rename_i r l state step
    exact absurd step (ends r l)
  · rfl

theorem unsent_of_state {outside : Nat → Byte} {files : Int → Bytes} (send : c.ta.state ≠ .send)
    (file : c.ta.state ≠ .sendFile) : c.unsent outside files = [] := by
  cases state : c.ta.state with
  | send => exact absurd state send
  | sendFile => exact absurd state file
  | read | serve | prepareResponse | done => simp only [Client.unsent, state]

/-- What a step pays of the debt, and what it leaves of it. -/
def Pays (content : Nat → Int → Bytes) (s : Server) (c : Client) (k : Kernel) : Prop :=
  ∃ debt, (Conn.serving c k).puts content s ++ debt =
      c.unsent k.outside (content k.clock) ++ (Conn.serving c k).due content s ∧
    ((Conn.serving c k).step s).Unsent content debt ∧ ((Conn.serving c k).step s).Starting

theorem calm_serving {k' : Kernel} {c' : Client} (send : c'.ta.state ≠ .send)
    (file : c'.ta.state ≠ .sendFile) :
    (Conn.serving c' k').Unsent content [] ∧ (Conn.serving c' k').Starting :=
  ⟨(unsent_of_state send file).symm, fun state => absurd state send⟩

theorem pays_aborted (step : serveStep s c k = .abort) (send : c.ta.state ≠ .send)
    (file : c.ta.state ≠ .sendFile) : Pays content s c k := by
  refine ⟨[], ?_, ?_⟩
  · rw [unsent_of_state send file, due_of_step (by simp [step])]
    simp only [Conn.puts, step, Served.kernel?]
  · simp only [Conn.step, step]
    exact ⟨rfl, trivial⟩

theorem pays_off {k' : Kernel} (early : c.ta.state ≠ .prepareResponse) (send : c.ta.state ≠ .send)
    (file : c.ta.state ≠ .sendFile) (left : (serveStep s c k).kernel? = some k')
    (off : Puts (content k.clock) k k' [])
    (next : ((Conn.serving c k).step s).Unsent content [] ∧ ((Conn.serving c k).step s).Starting) :
    Pays content s c k := by
  refine ⟨[], ?_, next⟩
  rw [puts_of left off, due_of_state early, unsent_of_state send file]

theorem pays_read (state : c.ta.state = .read) : Pays content s c k := by
  have step : serveStep s c k = afterStage .read (recvRequest c k) := by rw [serveStep, state]
  have keeps := (recvLoop_keeps c k c.ta.reqParseBlk c.ta.reqParseIter).state
  rw [← recvRequest, state] at keeps
  have off := @recvRequest_offWire (content k.clock) c k
  generalize recvRequest c k = o at step keeps off
  refine pays_off (by simp [state]) (by simp [state]) (by simp [state])
    (by rw [step, afterStage_kernel]) off ?_
  simp only [Conn.step, step, afterStage]
  by_cases rc : o.rc = 0
  · rw [if_neg (not_not.mpr rc)]
    rcases keeps with waits | serves
    · simp only [waits, if_true]
      exact calm_serving (by simp [waits]) (by simp [waits])
    · simp only [serves, reduceCtorEq, if_false]
      exact calm_serving (by simp [serves]) (by simp [serves])
  · rw [if_pos rc]
    by_cases hangup : o.client.ta.resp.status = .xHangup
    · simp only [hangup, if_true]
      exact ⟨Or.inl rfl, trivial⟩
    · simp only [hangup, if_false]
      exact calm_serving (by simp [Client.setState]) (by simp [Client.setState])

theorem pays_serve (state : c.ta.state = .serve) : Pays content s c k := by
  cases served : serveRequest s c k with
  | none =>
    have step : serveStep s c k = .abort := by simp only [serveStep, state, served]
    exact pays_aborted step (by simp [state]) (by simp [state])
  | some o =>
    have off := @serveRequest_offWire (content k.clock) s c k o served
    have early : c.ta.state ≠ .prepareResponse := by simp [state]
    rcases serveStep_serve state served with ⟨waits, step⟩ | ⟨prepares, step⟩
    · refine pays_off early (by simp [state]) (by simp [state]) (by rw [step]; rfl) off ?_
      simp only [Conn.step, step, if_true]
      exact calm_serving (by simp [waits]) (by simp [waits])
    · refine pays_off early (by simp [state]) (by simp [state]) (by rw [step]; rfl) off ?_
      simp only [Conn.step, step]
      exact calm_serving (by simp [prepares]) (by simp [prepares])

theorem pays_prepareResponse (state : c.ta.state = .prepareResponse) : Pays content s c k := by
  have send : c.ta.state ≠ .send := by simp [state]
  have file : c.ta.state ≠ .sendFile := by simp [state]
  cases prepared : prepareResponse c k with
  | none =>
    have step : serveStep s c k = .abort := by simp only [serveStep, state, prepared]
    exact pays_aborted step send file
  | some o =>
    have off := @prepareResponse_offWire (content k.clock) c k o prepared
    rcases serveStep_prepareResponse (s := s) state prepared with ⟨-, step⟩ | ⟨rc, step⟩
    · refine ⟨[], ?_, ?_⟩
      · rw [puts_of (by rw [step]; rfl) off, unsent_of_state send file, due_of_step (by simp [step])]
      · simp only [Conn.step, step]
        exact ⟨Or.inl rfl, trivial⟩
    · obtain ⟨rc', r, l⟩ := o
      cases rc
      obtain ⟨c₁, buf, n, ready⟩ := prepareResponse_ready prepared
      have sends : r.ta.state = .send := by rw [ready]; rfl
      have start : 0 < r.ta.resp.bufs.start.len := by
        rw [ready, describeBuffers_start]
        exact prepareRespStart_pos c₁
      refine ⟨responseBytes (logTransaction s r l).outside (content (logTransaction s r l).clock) r, ?_, ?_⟩
      · rw [puts_of (by rw [step]; rfl) (logTransaction_offWire off), unsent_of_state send file]
        simp only [Conn.due, state, step]
      · simp only [Conn.step, step]
        exact ⟨by simp only [Conn.Unsent, Client.unsent, sends], fun _ => start⟩

theorem pays_send (state : c.ta.state = .send) (start : 0 < c.ta.resp.bufs.start.len)
    (within : WithinStart c.ta.resp.bufs k.writes) : Pays content s c k := by
  have nothing : (Conn.serving c k).due content s = [] := due_of_state (by simp [state])
  have debt : c.unsent k.outside (content k.clock) =
      describedBytes k.outside c ++ fileBytes (content k.clock) c := by
    simp only [Client.unsent, state, responseBytes]
  obtain ⟨bs, client, puts, left⟩ := sendLoop_sends c k start within
  have kernel := sendLoop_onlySent k.writes c k
  rw [← sendResponse] at client kernel puts left
  have step := serveStep_send s k state
  generalize sendResponse c k = o at client kernel puts left step
  have file : fileBytes (content k.clock) o.client = fileBytes (content k.clock) c := by
    rw [client]
    rfl
  have clock : o.kernel.clock = k.clock := by rw [kernel]
  have outside : o.kernel.outside = k.outside := by rw [kernel]
  rcases step with ⟨waits, step⟩ | ⟨goes, step⟩
  · obtain ⟨other, -⟩ | ⟨-, start', both⟩ := left
    · cases waits.symm.trans other
    refine ⟨o.client.unsent o.kernel.outside (content o.kernel.clock), ?_, ?_⟩
    · rw [puts_of (by rw [step]; rfl) (puts _), nothing, debt, List.append_nil, ← both, clock, outside]
      simp only [Client.unsent, waits, responseBytes, file, List.append_assoc]
    · simp only [Conn.step, step, if_true]
      exact ⟨rfl, fun _ => start'⟩
  · obtain ⟨-, all⟩ | ⟨other, -⟩ := left
    · refine ⟨o.client.unsent o.kernel.outside (content o.kernel.clock), ?_, ?_⟩
      · rw [puts_of (by rw [step]; rfl) (puts _), nothing, debt, List.append_nil, all, clock]
        simp only [Client.unsent, goes, file]
      · simp only [Conn.step, step]
        exact ⟨rfl, fun again => absurd (goes.symm.trans again) (by rintro ⟨⟩)⟩
    · cases goes.symm.trans (other.trans state)

theorem fileBytes_eq {files : Int → Bytes} (owns : 0 < c.ta.resp.fd ∧ c.ta.req.method ≠ .head) :
    fileBytes files c = c.fileUpTo files (c.ta.resp.bodyEnd + 1) := if_pos owns

theorem pays_sendFile (state : c.ta.state = .sendFile)
    (sound : 0 < c.ta.resp.fd → c.ta.req.method ≠ .head →
      0 ≤ c.ta.resp.bodyPos ∧ c.ta.resp.bodyPos ≤ c.ta.resp.bodyEnd + 1 ∧
        NeverShort c.ta.resp.bodyEnd c.ta.resp.bodyPos k.sendfiles) : Pays content s c k := by
  have nothing : (Conn.serving c k).due content s = [] := due_of_state (by simp [state])
  have debt : c.unsent k.outside (content k.clock) = fileBytes (content k.clock) c := by
    simp only [Client.unsent, state]
  have step := serveStep_sendFile s k state
  by_cases owns : 0 < c.ta.resp.fd ∧ c.ta.req.method ≠ .head
  · obtain ⟨low, range, never⟩ := sound owns.1 owns.2
    have call : sendResponseFile c k = sendFileLoop c k k.sendfiles := if_pos owns
    have sent : FileSent (content k.clock) c k (sendFileLoop c k k.sendfiles) :=
      sendFileLoop_sends c k low range never
    have kernel := sendResponseFile_onlySent c k
    have clock : (sendResponseFile c k).kernel.clock = k.clock := by rw [kernel]
    rw [← call] at sent
    rw [fileBytes_eq owns] at debt
    generalize sendResponseFile c k = o at sent clock step
    cases sent with
    | whole done puts =>
      refine ⟨[], ?_, ?_⟩
      · rcases step with ⟨-, step⟩ | ⟨-, -, step⟩ | ⟨-, -, step⟩ <;>
          rw [puts_of (by rw [step]; rfl) puts, nothing, debt]
      · rcases step with ⟨-, step⟩ | ⟨-, waits, -⟩ | ⟨-, -, step⟩
        · simp only [Conn.step, step]
          exact ⟨Or.inl rfl, trivial⟩
        · cases done.symm.trans waits
        · simp only [Conn.step, step]
          exact calm_serving (by simp [done]) (by simp [done])
    | waits pos rc client order left puts =>
      have again : o.client.ta.state = .sendFile := by
        rw [client]
        exact state
      obtain ⟨failed, -⟩ | ⟨-, -, step⟩ | ⟨-, done, -⟩ := step
      · exact absurd rc failed
      · have rest : o.client.unsent o.kernel.outside (content o.kernel.clock) =
            (c.setPos pos).fileUpTo (content k.clock) (c.ta.resp.bodyEnd + 1) := by
          rw [clock, Client.unsent, again, client]
          exact fileBytes_eq (c := c.setPos pos) owns
        refine ⟨o.client.unsent o.kernel.outside (content o.kernel.clock), ?_, ?_⟩
        · rw [puts_of (by rw [step]; rfl) puts, nothing, debt, List.append_nil, rest]
          exact fileUpTo_append order (by omega)
        · simp only [Conn.step, step, if_true]
          exact ⟨rfl, fun starts => absurd (again.symm.trans starts) (by rintro ⟨⟩)⟩
      · cases again.symm.trans done
    | fails pos rc broken order left puts =>
      have failed : o.rc ≠ 0 := by simp [rc]
      obtain ⟨-, step⟩ | ⟨zero, -⟩ | ⟨zero, -⟩ := step
      · refine ⟨(c.setPos pos).fileUpTo (content k.clock) (c.ta.resp.bodyEnd + 1), ?_, ?_⟩
        · rw [puts_of (by rw [step]; rfl) puts, nothing, debt, List.append_nil]
          exact fileUpTo_append order (by omega)
        · simp only [Conn.step, step]
          exact ⟨Or.inr (broken.reset o.client), trivial⟩
      · exact absurd zero failed
      · exact absurd zero failed
  · have call : sendResponseFile c k = sendFileDone c k := if_neg owns
    have off : Puts (content k.clock) k (sendFileDone c k).kernel [] := .of_trace rfl
    have done : (sendFileDone c k).client.ta.state = .done := rfl
    have none : fileBytes (content k.clock) c = [] := if_neg owns
    rw [call] at step
    refine ⟨[], ?_, ?_⟩
    · rcases step with ⟨-, step⟩ | ⟨-, -, step⟩ | ⟨-, -, step⟩ <;>
        rw [puts_of (by rw [step]; rfl) off, nothing, debt, none]
    · rcases step with ⟨-, step⟩ | ⟨-, waits, -⟩ | ⟨-, -, step⟩
      · simp only [Conn.step, step]
        exact ⟨Or.inl rfl, trivial⟩
      · cases done.symm.trans waits
      · simp only [Conn.step, step]
        exact calm_serving (by simp [done]) (by simp [done])

theorem pays_done (state : c.ta.state = .done) : Pays content s c k := by
  have send : c.ta.state ≠ .send := by simp [state]
  have file : c.ta.state ≠ .sendFile := by simp [state]
  have step := serveStep_done (s := s) (k := k) state
  cases finalized : finalizeTransaction c k with
  | none =>
    rw [finalized] at step
    exact pays_aborted step send file
  | some r =>
    obtain ⟨c', k'⟩ := r
    simp only [finalized] at step
    simp only [finalizeTransaction] at finalized
    split at finalized
    · cases finalized
      refine pays_off (by simp [state]) send file (by rw [step]; rfl)
        (@Puts.of_offWire _ k _ [.finalized] rfl (by simp [Event.offWire])) ?_
      simp only [Conn.step, step]
      exact calm_serving (by rintro ⟨⟩) (by rintro ⟨⟩)
    · cases finalized

theorem serveStep_pays (starting : c.ta.state = .send → 0 < c.ta.resp.bufs.start.len)
    (sound : OutputSound c k) : Pays content s c k := by
  cases state : c.ta.state with
  | read => exact pays_read state
  | serve => exact pays_serve state
  | prepareResponse => exact pays_prepareResponse state
  | send => exact pays_send state (starting state) (sound.1 state)
  | sendFile => exact pays_sendFile state (sound.2 state)
  | done => exact pays_done state

theorem conn_pays {conn : Conn} (starting : conn.Starting) (sound : conn.OutputSound) {debt : Bytes}
    (owed : conn.Unsent content debt) :
    ∃ debt', conn.puts content s ++ debt' = debt ++ conn.due content s ∧
      (conn.step s).Unsent content debt' ∧ (conn.step s).Starting := by
  cases conn with
  | serving c k =>
    cases owed
    exact serveStep_pays starting sound
  | waiting c k => exact ⟨debt, (List.append_nil debt).symm, owed, starting⟩
  | closed c k => exact ⟨debt, (List.append_nil debt).symm, owed, trivial⟩
  | aborted => exact ⟨debt, (List.append_nil debt).symm, owed, trivial⟩

theorem starting_step {conn : Conn} (starting : conn.Starting) (sound : conn.OutputSound) :
    (conn.step s).Starting := by
  cases conn with
  | serving c k =>
    have pays : Pays (fun _ _ => []) s c k := serveStep_pays starting sound
    exact pays.elim fun _ h => h.2.2
  | waiting c k => exact starting
  | closed | aborted => trivial

end Steps

namespace Conn

def wire (content : Nat → Int → Bytes) (s : Server) (n : Nat) (conn : Conn) : Bytes :=
  Steps.collect (Conn.step s) (Conn.puts content s) n conn

def responses (content : Nat → Int → Bytes) (s : Server) (n : Nat) (conn : Conn) : Bytes :=
  Steps.collect (Conn.step s) (Conn.due content s) n conn

end Conn

/-- Whatever its requests and handlers are, a connection puts the bytes of its responses on the wire, in
their order, each once, as long as each writev stops inside the start line or takes everything, and each
range of a file starts inside of it and is there. At any time it owes what is left of the last one, and at
its end nothing, unless a sendfile has failed. -/
theorem output_conserved {content : Nat → Int → Bytes} {s : Server} {n : Nat} {c : Client} {k : Kernel}
    (fresh : c.ta = {}) (sound : Steps.Meets (Conn.step s) Conn.OutputSound n (.serving c k)) :
    ∃ debt, (Conn.serving c k).wire content s n ++ debt = (Conn.serving c k).responses content s n ∧
      (Conn.run s n (.serving c k)).Unsent content debt := by
  have state : c.ta.state = .read := by rw [fresh]
  have start : (Conn.serving c k).Starting := fun sends => by cases state.symm.trans sends
  have none : (Conn.serving c k).Unsent content [] :=
    (unsent_of_state (by simp [state]) (by simp [state])).symm
  have keep : ∀ conn : Conn, conn.Starting → conn.OutputSound → (conn.step s).Starting :=
    fun _ => starting_step
  refine Steps.collect_conserves keep (fun conn starting sound debt owed => ?_) start sound none
  obtain ⟨debt', paid, owed', -⟩ := conn_pays starting sound owed
  exact ⟨debt', paid, owed'⟩

def threeBytes : FileSystem where
  stat _ := .ok { isReg := true, size := 3, size_lt := by decide, mtime := 0 }
  openRdonly _ := .ok { val := 5, pos := by decide }

def askingTwice : Kernel where
  input := [.chunk 71 (ascii "ET /x HTTP/1.1\r\n\r\nGET /y HTTP/1.1\r\n\r\n")]
  writes := [.bytes 7, .wouldBlock, .bytes 10000, .bytes 10000]
  sendfiles := [.bytes 2, .wouldBlock, .bytes 1, .bytes 3]
  fs _ := threeBytes

theorem output_conserved_twice : ∃ debt,
    (Conn.serving (createClientStruct .zeroed) askingTwice).wire (fun _ _ => ascii "abc") rootServer 20 ++
        debt =
      (Conn.serving (createClientStruct .zeroed) askingTwice).responses (fun _ _ => ascii "abc")
        rootServer 20 ∧
    (Conn.run rootServer 20 (.serving (createClientStruct .zeroed) askingTwice)).Unsent
      (fun _ _ => ascii "abc") debt := by
  have sound : Steps.Meets (Conn.step rootServer) Conn.OutputSound 20
      (.serving (createClientStruct .zeroed) askingTwice) := by decide +kernel
  exact output_conserved rfl sound

end Kitserv
