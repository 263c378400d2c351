import Kitserv.Basis.Script
import Kitserv.ApiFrame
import Kitserv.Lifecycle

/-! The announced content-length: what it has to be, and from which states of a transaction it
is that. -/
namespace Kitserv

open Script

def Announced (c : Client) (length : Int) : Prop :=
  ∃ block, c.headerBlock = block ++ lastLines length ++ ascii "\r\n"

/-- The body bytes that the stages SEND and SEND_FILE are left to transmit. -/
def bodyLeft (c : Client) : Nat :=
  c.ta.resp.bufs.body.len +
    if c.ta.resp.fd > 0 ∧ c.ta.req.method ≠ .head then
      toSizeT (c.ta.resp.bodyEnd - c.ta.resp.bodyPos + 1)
    else 0

/-- What is asked of a content-length: the bytes exist, and they are what is transmitted. -/
structure LengthSound (method : HttpMethod) (size length : Int) (c : Client) : Prop where
  nonneg : 0 ≤ length
  exist : c.ta.resp.bodyPos + length ≤ if c.ta.resp.fd = 0 then c.respBody.len else size
  sent : method ≠ .head → length = bodyLeft c

/-- The states before `kitserv_http_prepare_response` from which the length is sound: the range
does not begin behind the end of what is sent, and the marker of a HEAD request is only there
for a HEAD request, without an error unless the file has a byte. -/
def LengthKnown (size : Int) (c : Client) : Prop :=
  if c.ta.resp.status.isError then
    0 ≤ c.ta.resp.fd ∨ (c.ta.req.method = .head ∧ 1 ≤ size)
  else if c.ta.resp.fd = 0 then c.ta.resp.bodyPos ≤ c.respBody.len
  else c.ta.resp.bodyPos ≤ c.ta.resp.bodyEnd + 1 ∧
    (0 < c.ta.resp.fd ∨ c.ta.req.method = .head ∨ c.ta.resp.bodyPos = c.ta.resp.bodyEnd + 1)

structure Ranged (size : Int) (c : Client) : Prop where
  low : 0 ≤ c.ta.resp.bodyPos
  high : c.ta.resp.bodyPos ≤ 2 ^ 63
  least : -1 ≤ c.ta.resp.bodyEnd
  most : c.ta.resp.bodyEnd < 2 ^ 63
  inside : c.ta.resp.fd ≠ 0 → c.ta.resp.bodyEnd < size

/-- What the code before `kitserv_http_prepare_response` guarantees; `method` is that of the
request, which a file that has not been modified turns into HEAD. -/
structure Presented (method : HttpMethod) (size : Int) (c : Client) : Prop where
  headers : HeadersOk c
  short : c.headerBlock.length ≤ 198
  noBody : c.ta.resp.bufs.body.len = 0
  keep : c.ta.resp.preserveBodyOnError = false
  buffer : c.reqHeaders.length ≤ httpBufsz
  len : 0 ≤ c.respBody.len ∧ c.respBody.len < 2 ^ 31
  ranged : c.ta.resp.status.isError = false → Ranged size c
  asked : c.ta.req.method = method ∨ c.ta.req.method = .head ∧ c.ta.resp.fd = 0 ∧
    c.respBody.len = 0 ∧ c.ta.resp.status.isError = false

theorem lengthSound_iff_of_described {method : HttpMethod} {size : Int} {c c' : Client}
    {block : Bytes} (p : Presented method size c) (good : c.ta.resp.status.isError = false)
    (d : Described c block c') :
    LengthSound method size (announcedLength c) c' ↔ LengthKnown size c := by
  obtain ⟨low, high, least, most, inside⟩ := p.ranged good
  have len := p.len
  have left : bodyLeft c' = (if c.ta.resp.fd = 0 ∧ c.ta.req.method ≠ .head then
      toSizeT (c.respBody.len - c.ta.resp.bodyPos) else 0) +
      if c.ta.resp.fd > 0 ∧ c.ta.req.method ≠ .head then
        toSizeT (c.ta.resp.bodyEnd - c.ta.resp.bodyPos + 1) else 0 := by
    rw [bodyLeft, d.body, d.fd, d.method, d.last, d.pos, p.noBody]
  unfold LengthKnown announcedLength
  rw [good]
  simp only [Bool.false_eq_true, if_false]
  by_cases none : c.ta.resp.fd = 0
  · have notFile : ¬ (c.ta.resp.fd > 0 ∧ c.ta.req.method ≠ .head) := by omega
    simp only [none, if_true, ne_eq, not_true_eq_false, if_false]
    constructor
    · intro sound
      have := sound.nonneg
      omega
    · intro known
      refine ⟨by omega, ?_, fun asked => ?_⟩
      · rw [d.pos, d.fd, d.buffer, if_pos none]
        omega
      · rw [left, if_neg notFile]
        rcases p.asked with same | ⟨head, -, empty, -⟩
        · rw [if_pos ⟨none, by rw [same]; exact asked⟩]
          have := toSizeT_of_nonneg (x := c.respBody.len - c.ta.resp.bodyPos) (by omega) (by omega)
          omega
        · rw [if_neg (by rw [head]; simp)]
          omega
  · have notBody : ¬ (c.ta.resp.fd = 0 ∧ c.ta.req.method ≠ .head) := fun h => none h.1
    have same : c.ta.req.method = method := by
      rcases p.asked with same | ⟨-, zero, -⟩
      · exact same
      · exact absurd zero none
    have inside := inside none
    simp only [ne_eq, none, not_false_eq_true, if_true]
    rw [same] at left notBody ⊢
    rw [if_neg notBody] at left
    have exists' : c'.ta.resp.bodyPos + (c.ta.resp.bodyEnd - c.ta.resp.bodyPos + 1) ≤
        if c'.ta.resp.fd = 0 then c'.respBody.len else size := by
      rw [d.pos, d.fd, if_neg none]
      omega
    constructor
    · intro sound
      have nonneg := sound.nonneg
      refine ⟨by omega, ?_⟩
      by_cases file : 0 < c.ta.resp.fd
      · exact .inl file
      · by_cases head : method = .head
        · exact .inr (.inl head)
        · have sent := sound.sent head
          rw [left, if_neg (by omega)] at sent
          right; right
          omega
    · rintro ⟨order, marker⟩
      refine ⟨by omega, exists', fun asked => ?_⟩
      rw [left]
      rcases marker with file | head | whole
      · rw [if_pos ⟨file, asked⟩]
        have := toSizeT_of_nonneg (x := c.ta.resp.bodyEnd - c.ta.resp.bodyPos + 1) (by omega)
          (by omega)
        omega
      · exact absurd head asked
      · have zero : c.ta.resp.bodyEnd - c.ta.resp.bodyPos + 1 = 0 := by omega
        rw [zero]
        split <;> rfl

theorem lengthSound_iff_of_canned {method : HttpMethod} {size : Int} {c e c' : Client}
    {block : Bytes} (p : Presented method size c) (error : c.ta.resp.status.isError = true)
    (canned : Canned c e) (d : Described e block c') :
    LengthSound method size (announcedLength e) c' ↔ LengthKnown size c := by
  obtain ⟨texts, known, len⟩ := canned.body
  have small := length_errorBodyTexts p.buffer known
  have fd : e.ta.resp.fd = if c.ta.resp.fd > 0 then 0 else c.ta.resp.fd := by rw [canned.same]
  have pos : e.ta.resp.bodyPos = 0 := by rw [canned.same]
  have last : e.ta.resp.bodyEnd = 0 := by rw [canned.same]
  have noBody : e.ta.resp.bufs.body.len = 0 := by rw [canned.same]; exact p.noBody
  have same : e.ta.req.method = method := by
    rw [canned.same]
    rcases p.asked with same | ⟨-, -, -, good⟩
    · exact same
    · rw [error] at good
      cases good
  have left : bodyLeft c' = if e.ta.resp.fd = 0 ∧ method ≠ .head then texts.flatten.length
      else 0 := by
    have noFile : ¬ (e.ta.resp.fd > 0 ∧ method ≠ .head) := by
      rw [fd]
      split <;> omega
    rw [bodyLeft, d.body, d.fd, d.method, same, if_neg noFile, noBody, pos, len]
    split
    · unfold toSizeT
      omega
    · rfl
  have exist : c'.ta.resp.bodyPos = 0 := d.pos.trans pos
  have lengths : c'.respBody.len = texts.flatten.length := by rw [d.buffer, len]
  unfold LengthKnown announcedLength
  rw [error, if_pos rfl, pos, last, len]
  by_cases owned : 0 ≤ c.ta.resp.fd
  · have none : e.ta.resp.fd = 0 := by
      rw [fd]
      split <;> omega
    rw [if_neg (by simp [none])]
    refine iff_of_true ⟨by omega, ?_, fun asked => ?_⟩ (.inl owned)
    · rw [exist, d.fd, if_pos none, lengths]
      omega
    · rw [left, if_pos ⟨none, asked⟩]
      omega
  · have marker : e.ta.resp.fd ≠ 0 := by
      rw [fd]
      split <;> omega
    rw [if_pos marker]
    have method' : c.ta.req.method = method := by rw [← same, canned.same]
    constructor
    · intro sound
      right
      have exists' := sound.exist
      rw [exist, d.fd, if_neg marker] at exists'
      refine ⟨?_, by omega⟩
      by_cases head : method = .head
      · rw [method', head]
      · have sent := sound.sent head
        rw [left, if_neg (by simp [marker])] at sent
        omega
    · rintro (h | ⟨head, some⟩)
      · exact absurd h owned
      · refine ⟨by omega, ?_, fun asked => absurd (method'.symm.trans head) asked⟩
        rw [exist, d.fd, if_neg marker]
        omega

theorem Presented.prepared {method : HttpMethod} {size : Int} {c c' : Client} {k k' : Kernel}
    (p : Presented method size c)
    (prepared : prepareResponse c k = some { rc := 0, client := c', kernel := k' }) :
    (c.ta.resp.status.isError = false ∧
      Described c (c.headerBlock ++ lastLines (announcedLength c) ++ ascii "\r\n") c') ∨
    (c.ta.resp.status.isError = true ∧ ∃ e, Canned c e ∧
      Described e (cannedBlock c ++ lastLines (announcedLength e) ++ ascii "\r\n") c') := by
  have short := p.short
  have room : c.headerBlock.length + 58 < httpBufsz := by
    have small : httpBufsz = 4096 := rfl
    omega
  refine prepareResponse_spec p.headers p.keep room (fun good => ?_) prepared
  obtain ⟨low, high, least, most, -⟩ := p.ranged good
  have len := p.len
  unfold announcedLength
  split <;> omega

theorem prepared_lengthSound_iff {method : HttpMethod} {size : Int} {c c' : Client} {k k' : Kernel}
    (p : Presented method size c)
    (prepared : prepareResponse c k = some { rc := 0, client := c', kernel := k' }) :
    ∃ length, Announced c' length ∧ (LengthSound method size length c' ↔ LengthKnown size c) := by
  rcases p.prepared prepared with ⟨good, d⟩ | ⟨error, e, canned, d⟩
  · exact ⟨_, ⟨_, d.headers⟩, lengthSound_iff_of_described p good d⟩
  · exact ⟨_, ⟨_, d.headers⟩, lengthSound_iff_of_canned p error canned d⟩

theorem append_last_cancel {z : Byte} {x y s t : Bytes} (hs : z ∉ s) (ht : z ∉ t)
    (same : x ++ z :: s = y ++ z :: t) : s = t := by
  have cut {u w : Bytes} (hu : z ∉ u) : (w ++ z :: u).reverse.takeWhile (· != z) = u.reverse := by
    rw [List.reverse_append, List.reverse_cons, List.append_assoc,
      List.takeWhile_append_of_pos (by simpa using fun b hb => ne_of_mem_of_not_mem hb hu)]
    simp
  have front := congrArg (fun l => l.reverse.takeWhile (· != z)) same
  simp only [cut hs, cut ht] at front
  exact List.reverse_injective front

theorem Announced.unique {c : Client} {a b : Int} (ha : Announced c a) (hb : Announced c b) :
    a = b := by
  obtain ⟨before, same⟩ := ha
  obtain ⟨before', same'⟩ := hb
  rw [same] at same'
  have text (L : Int) (block : Bytes) : block ++ lastLines L ++ ascii "\r\n" =
      (block ++ ascii "content-length:" ++ 32 :: decimal L) ++
        (ascii "\r\n" ++ headerLine (ascii "server") serverName ++ ascii "\r\n") := by
    have key : ascii "content-length" ++ ascii ": " = ascii "content-length:" ++ [32] := rfl
    simp only [lastLines, headerLine, key, List.append_assoc, List.cons_append, List.nil_append]
  rw [text, text] at same'
  exact decimal_injective (append_last_cancel (space_notMem_decimal a) (space_notMem_decimal b)
    (List.append_cancel_right same'))

section Static

variable {s : Server} {lib : TimeLib} {c r : Client} {k : Kernel} {st : Stat}

theorem Accepted.presented_error (a : Accepted c) {status : HttpStatus}
    (error : status.isError = true) (size : Int) :
    Presented c.ta.req.method size (c.setStatus status) := by
  have block : (c.setStatus status).headerBlock = [] := a.headerBlock
  have body : (c.setStatus status).respBody.len = 0 := a.bodyEmpty
  have none : c.ta.resp.bufs.body.len = 0 ∧ c.ta.resp.preserveBodyOnError = false := by
    rw [a.resp]
    exact ⟨rfl, rfl⟩
  refine ⟨⟨a.headersSize, a.headersOk.inside⟩, by rw [block]; exact Nat.zero_le _, none.1, none.2,
    Nat.le_of_eq a.bufferSize, by rw [body]; decide, fun good => ?_, .inl rfl⟩
  exact absurd (error.symm.trans good) Bool.noConfusion

theorem Accepted.presented_file (a : Accepted c) {method : HttpMethod} {fd size : Int}
    (known : FileKnown (c.setFd fd) r)
    (ranged : r.ta.resp.status.isError = false → Ranged size r)
    (asked : c.ta.req.method = method) : Presented method size r := by
  have short := known.short
  have block : (c.setFd fd).headerBlock = [] := a.headerBlock
  rw [block, List.length_nil, Nat.zero_add] at short
  have buffer : r.reqHeaders.length = httpBufsz := by
    rw [known.frame.same]
    exact a.bufferSize
  have body : r.respBody.len = 0 := by
    rw [known.frame.same]
    exact a.bodyEmpty
  have none : r.ta.resp.bufs.body.len = 0 ∧ r.ta.resp.preserveBodyOnError = false := by
    rw [known.frame.same]
    have resp := a.resp
    exact ⟨by simp only [Client.setFd, resp], by simp only [Client.setFd, resp]⟩
  refine ⟨known.headers, short, none.1, none.2, Nat.le_of_eq buffer, by rw [body]; decide, ranged,
    .inl ?_⟩
  rw [known.frame.same]
  exact asked

theorem FileError.isError {status : HttpStatus} (h : FileError status) : status.isError = true := by
  rcases h with rfl | rfl | rfl <;> rfl

theorem RangeInside.ranged (inside : RangeInside st.size r) : Ranged st.size r := by
  have size := st.size_lt
  have high := inside.high
  have last := inside.inside
  exact ⟨inside.low, by omega, inside.least, by omega, fun _ => last⟩

theorem describeFile_presented (a : Accepted c) {fd : Int} {errno : Errno} {fname : Bytes}
    (target : 0 < fd ∨ fd = fdHead ∧ c.ta.req.method = .head) :
    Presented c.ta.req.method st.size
      (describeFile lib (c.setFd fd) k errno fname st).client := by
  have block : (c.setFd fd).headerBlock = [] := a.headerBlock
  have pos : (c.setFd fd).ta.resp.bodyPos = 0 := by
    have resp := a.resp
    simp only [Client.setFd, resp]
  have spec := @fileEnd_spec lib (c.setFd fd) fname st ⟨a.headersSize, a.headersOk.inside⟩
    (by rw [block]; decide) pos
  rw [describeFile_eq]
  revert spec
  cases fileEnd lib ((c.setFd fd).wholeFile st) fname st with
  | error r =>
    rintro ⟨known, error, -⟩
    refine a.presented_file (known.setFd (k.closeFdToZero r.ta.resp.fd).1) (fun good => ?_) rfl
    exact absurd (error.isError.symm.trans good) Bool.noConfusion
  | unmodified r =>
    rintro ⟨known, inside, -⟩
    have ranged := inside.ranged
    have same : r.ta.resp.fd = fd := known.fd
    have file : Presented c.ta.req.method st.size
        ((r.setStatus .http304NotModified).setFd (k.closeFdToZero fd).1) := by
      refine a.presented_file ((known.setStatus _).setFd _) (fun _ => ?_) rfl
      refine ⟨ranged.low, ranged.high, ranged.least, ranged.most, fun _ => inside.inside⟩
    simp only [notModified]
    have client : (r.setStatus .http304NotModified).ta.resp.fd = fd := same
    rw [client]
    refine ⟨⟨file.headers.size, file.headers.inside⟩, file.short, file.noBody, file.keep,
      file.buffer, file.len, fun good => ?_, ?_⟩
    · have ranged := file.ranged good
      exact ⟨ranged.low, ranged.high, ranged.least, ranged.most, ranged.inside⟩
    · rcases target with opened | ⟨-, head⟩
      · right
        have closed : (k.closeFdToZero fd).1 = 0 := by
          simp only [Kernel.closeFdToZero, if_pos opened]
        refine ⟨rfl, closed, ?_, rfl⟩
        have body := a.bodyEmpty
        simp only [Client.setStatus]
        rw [known.frame.same]
        exact body
      · exact .inl head.symm
  | full r =>
    rintro ⟨known, inside, -⟩
    have ranged := inside.ranged
    refine a.presented_file (known.setStatus _) (fun _ => ?_) rfl
    exact ⟨ranged.low, ranged.high, ranged.least, ranged.most, ranged.inside⟩

theorem handleStaticPath_presented (a : Accepted c) {path : Bytes} {ctx : Option RequestContext}
    {size : Int}
    (file : ∀ fname st c' k' errno, pathChoice s c k path ctx = .pathSet fname st c' k' errno →
      size = st.size) :
    Presented c.ta.req.method size (handleStaticPath s c k path ctx).client := by
  have choice := pathChoice_spec s c k path ctx
  unfold handleStaticPath
  simp only
  split
  · exact a.presented_error rfl size
  · rename_i getOrHead
    revert choice file
    unfold pathChoice
    generalize tryPaths c _ _ _ = found
    cases found with
    | stop c' k' errno =>
      rintro - ⟨-, status, rfl, error⟩
      refine a.presented_error ?_ size
      rcases error (by rw [a.resp]) with rfl | rfl | rfl <;> rfl
    | pathSet fname st c' k' errno =>
      rintro file ⟨-, rfl⟩
      rw [file fname st c' k' errno rfl]
      simp only [pathSet_eq]
      split
      · cases k'.openRdonly fname with
        | mk result k'' =>
          cases result with
          | error e => exact a.presented_error rfl _
          | ok fd => exact describeFile_presented a (.inl fd.pos)
      · rename_i notGet
        refine describeFile_presented a (.inr ⟨rfl, ?_⟩)
        revert getOrHead notGet
        cases c'.ta.req.method <;> decide

theorem serveStatic_presented (a : Accepted c) {size : Int}
    (file : ∀ fname st c' k' errno, staticChoice s c k = .pathSet fname st c' k' errno →
      size = st.size) :
    Presented c.ta.req.method size (serveStatic s c k).client := by
  have p : Presented c.ta.req.method size (handleStaticPath s c k
      ((c.ta.req.path.map (cString c.reqHeaders)).getD []) none).client := by
    apply handleStaticPath_presented a
    exact file
  exact ⟨⟨p.headers.size, p.headers.inside⟩, p.short, p.noBody, p.keep, p.buffer, p.len,
    fun good => ⟨(p.ranged good).low, (p.ranged good).high, (p.ranged good).least,
      (p.ranged good).most, (p.ranged good).inside⟩, p.asked⟩

end Static

section Handler

structure Sending where
  client : Client
  kernel : Kernel
  size : Int

def Sending.call (s : Server) (f : Call) (t : Sending) : Reply × Sending :=
  let r := apiCall s t.client t.kernel f
  (r.reply, {
    client := r.client
    kernel := r.kernel
    size := match f with
      | .sendFile fd filesize => if fd ≠ fdDisable then filesize else t.size
      | _ => t.size })

def SendingCall (s : Server) (f : Call) (t : Sending) : Prop :=
  match f with
  | .writeBody _ | .writeBodyFmt .. =>
    0 ≤ (t.call s f).1.rc ∧ (t.call s f).2.client.respBody.len < 2 ^ 31
  | .sendFile _ filesize => 0 ≤ filesize ∧ filesize < 2 ^ 63
  | .setSendRange pos last => (t.call s f).1.rc = 0 ∧ pos < 2 ^ 63 ∧ last < 2 ^ 63 ∧
    (t.client.ta.resp.fd ≠ fdDisable → last < t.size)
  | .setResponseStatus _ => True
  | _ => False

structure Handled (method : HttpMethod) (t : Sending) : Prop where
  presented : Presented method t.size t.client
  ranged : Ranged t.size t.client
  asked : t.client.ta.req.method = method

theorem Handled.mk' {method : HttpMethod} {t : Sending} (headers : HeadersOk t.client)
    (short : t.client.headerBlock.length ≤ 198) (noBody : t.client.ta.resp.bufs.body.len = 0)
    (keep : t.client.ta.resp.preserveBodyOnError = false)
    (buffer : t.client.reqHeaders.length ≤ httpBufsz)
    (len : 0 ≤ t.client.respBody.len ∧ t.client.respBody.len < 2 ^ 31)
    (ranged : Ranged t.size t.client) (asked : t.client.ta.req.method = method) :
    Handled method t :=
  ⟨⟨headers, short, noBody, keep, buffer, len, fun _ => ranged, .inl asked⟩, ranged, asked⟩

theorem Handled.body {method : HttpMethod} {t t' : Sending}
    (h : Handled method t) (client : t'.client = { t.client with respBody := t'.client.respBody })
    (size : t'.size = t.size)
    (len : 0 ≤ t'.client.respBody.len ∧ t'.client.respBody.len < 2 ^ 31) : Handled method t' := by
  have p := h.presented
  refine .mk' ?_ ?_ ?_ ?_ ?_ len ?_ ?_
  · rw [client]
    exact ⟨p.headers.size, p.headers.inside⟩
  · rw [client]
    exact p.short
  · rw [client]
    exact p.noBody
  · rw [client]
    exact p.keep
  · rw [client]
    exact p.buffer
  · rw [client, size]
    exact ⟨h.ranged.low, h.ranged.high, h.ranged.least, h.ranged.most, h.ranged.inside⟩
  · rw [client]
    exact h.asked

theorem writeBody_grows (c : Client) (data : Bytes) (out : ReallocOutcome)
    (success : 0 ≤ (writeBody c data out).rc) :
    c.respBody.len ≤ (writeBody c data out).client.respBody.len := by
  simp only [writeBody] at success ⊢
  split at success
  · simp at success
  · rename_i appended
    simp only [if_neg appended] at success ⊢
    omega

theorem writeBodyFmt_grows (c : Client) (first second : Rendering) (out : ReallocOutcome)
    (success : 0 ≤ (writeBodyFmt c first second out).rc) :
    c.respBody.len ≤ (writeBodyFmt c first second out).client.respBody.len := by
  simp only [writeBodyFmt] at success ⊢
  split at success
  · simp at success
  · rename_i appended
    simp only [if_neg appended] at success ⊢
    omega

theorem sendingCall_handled {s : Server} {f : Call} {method : HttpMethod} {t : Sending}
    (h : Handled method t) (ok : SendingCall s f t) : Handled method (t.call s f).2 := by
  have p := h.presented
  have positions := h.ranged
  cases f
  case writeBody data =>
    obtain ⟨rc, small⟩ := ok
    exact h.body (writeBody_body ..) rfl ⟨Int.le_trans p.len.1 (writeBody_grows _ _ _ rc), small⟩
  case writeBodyFmt first second =>
    obtain ⟨rc, small⟩ := ok
    exact h.body (writeBodyFmt_body ..) rfl
      ⟨Int.le_trans p.len.1 (writeBodyFmt_grows _ _ _ _ rc), small⟩
  case sendFile fd filesize =>
    obtain ⟨low, high⟩ := ok
    simp only [Sending.call, apiCall, sendFile]
    by_cases file : fd ≠ fdDisable
    · simp only [if_pos file]
      refine .mk' ⟨p.headers.size, p.headers.inside⟩ p.short p.noBody p.keep p.buffer p.len ?_ h.asked
      constructor <;> simp only <;> omega
    · simp only [if_neg file]
      refine .mk' ⟨p.headers.size, p.headers.inside⟩ p.short p.noBody p.keep p.buffer p.len ?_ h.asked
      exact ⟨by simp, by simp, positions.least, positions.most, fun some => absurd some file⟩
  case setSendRange pos last =>
    obtain ⟨rc, highPos, highLast, inside⟩ := ok
    simp only [Sending.call, apiCall, setSendRange] at rc ⊢
    split at rc
    · cases rc
    · rename_i nonneg
      rw [if_neg nonneg]
      refine .mk' ⟨p.headers.size, p.headers.inside⟩ p.short p.noBody p.keep p.buffer p.len ?_ h.asked
      refine ⟨?_, ?_, ?_, ?_, inside⟩ <;> simp only <;> omega
  case setResponseStatus code =>
    exact .mk' ⟨p.headers.size, p.headers.inside⟩ p.short p.noBody p.keep p.buffer p.len
      ⟨positions.low, positions.high, positions.least, positions.most, positions.inside⟩ h.asked
  all_goals exact absurd ok id

theorem sending_handled {s : Server} {method : HttpMethod} {calls : List Call} {t : Sending}
    (h : Handled method t) (ok : Script.Meets (Sending.call s) (SendingCall s) calls t) :
    Handled method (Script.final (Sending.call s) calls t) := by
  induction calls generalizing t with
  | nil => exact h
  | cons f rest ih => exact ih (sendingCall_handled h ok.1) ok.2

theorem Accepted.handled {c : Client} (a : Accepted c) (k : Kernel) (size : Int) :
    Handled c.ta.req.method { client := c, kernel := k, size := size } := by
  have resp := a.resp
  refine .mk' a.headersOk ?_ ?_ ?_ (Nat.le_of_eq a.bufferSize) ?_ ?_ rfl
  · rw [a.headerBlock]
    exact Nat.zero_le _
  · simp only [resp]
  · simp only [resp]
  · simp only [a.bodyEmpty]
    omega
  · constructor <;> simp [resp]

end Handler

/-- The transactions that reach `kitserv_http_prepare_response` by static serving or by a handler
that only sends, with the method of the request and the size of the file. -/
inductive Reached (s : Server) : HttpMethod → Int → Client → Prop
  | static {c : Client} {k : Kernel} {size : Int} (accepted : Accepted c)
      (file : ∀ fname st c' k' errno, staticChoice s c k = .pathSet fname st c' k' errno →
        size = st.size) :
      Reached s c.ta.req.method size (serveStatic s c k).client
  | handler {c : Client} {k : Kernel} {size : Int} {calls : List Call} (accepted : Accepted c)
      (sends : Script.Meets (Sending.call s) (SendingCall s) calls ⟨c, k, size⟩) :
      Reached s c.ta.req.method (Script.final (Sending.call s) calls ⟨c, k, size⟩).size
        ((Script.final (Sending.call s) calls ⟨c, k, size⟩).client.setState .prepareResponse)

theorem Reached.presented {s : Server} {method : HttpMethod} {size : Int} {c : Client}
    (h : Reached s method size c) : Presented method size c := by
  cases h with
  | static accepted file => exact serveStatic_presented accepted file
  | @handler c k size calls accepted sends =>
    have p := (sending_handled (accepted.handled k size) sends).presented
    refine ⟨⟨p.headers.size, p.headers.inside⟩, p.short, p.noBody, p.keep, p.buffer, p.len,
      fun good => ?_, p.asked⟩
    have ranged := p.ranged good
    exact ⟨ranged.low, ranged.high, ranged.least, ranged.most, ranged.inside⟩

/-- For every prepared response there is one announced length, and it is sound exactly from the
states that `LengthKnown` describes. -/
theorem announced_length_sound_iff {s : Server} {method : HttpMethod} {size : Int}
    {c c' : Client} {k k' : Kernel} (reached : Reached s method size c)
    (prepared : prepareResponse c k = some { rc := 0, client := c', kernel := k' }) :
    ∃ length, (∀ n, Announced c' n ↔ n = length) ∧
      (LengthSound method size length c' ↔ LengthKnown size c) := by
  obtain ⟨length, announced, sound⟩ := prepared_lengthSound_iff reached.presented prepared
  refine ⟨length, fun n => ⟨fun h => h.unique announced, ?_⟩, sound⟩
  rintro rfl
  exact announced

def filesOf (size : Nat) (h : size < 2 ^ 63) : Kernel where
  fs _ :=
    { stat := fun _ => .ok { isReg := true, size := size, size_lt := h, mtime := 0 }
      openRdonly := fun _ => .ok { val := 3, pos := by decide } }

def fileRequest (range : Bytes) : Client where
  reqHeaders :=
    let text := ascii "/f" ++ [0] ++ range
    text ++ List.replicate (httpBufsz - text.length) 0
  respStart := List.replicate httpBufszSmall 0
  respHeaders := List.replicate httpBufsz 0
  respBody := Buffer.init (List.replicate httpBufsz 0)
  ta :=
    { state := .serve
      req :=
        { method := .get
          path := some 0
          range := if range = [] then none else some 3
          rangeRequested := range ≠ [] } }

theorem fileRequest_accepted {range : Bytes} (short : range.length ≤ 4000) :
    Accepted (fileRequest range) := by
  refine ⟨rfl, List.length_replicate, rfl, ?_⟩
  have small : httpBufsz = 4096 := rfl
  have text : (ascii "/f").length = 2 := rfl
  simp only [fileRequest, List.length_append, List.length_replicate, List.length_singleton, text]
  omega

def PathChoice.size? : PathChoice → Option Nat
  | pathSet _ st _ _ _ => some st.size
  | stop .. => none

def servedFile (range : Bytes) (size : Nat) (h : size < 2 ^ 63) : Client :=
  (serveStatic rootServer (fileRequest range) (filesOf size h)).client

theorem servedFile_reached {range : Bytes} {size : Nat} {h : size < 2 ^ 63}
    (short : range.length ≤ 4000)
    (chosen : (staticChoice rootServer (fileRequest range) (filesOf size h)).size? = some size) :
    Reached rootServer .get size (servedFile range size h) := by
  refine .static (fileRequest_accepted short) ?_
  intro fname st c' k' errno choice
  rw [choice] at chosen
  exact congrArg Int.ofNat (Option.some.inj chosen).symm

theorem announced_length_sound_iff_file : ∃ c' k',
    prepareResponse (servedFile [] 5 (by decide)) (filesOf 5 (by decide)) =
      some { rc := 0, client := c', kernel := k' } ∧
    ∃ length, (∀ n, Announced c' n ↔ n = length) ∧
      (LengthSound .get 5 length c' ↔ LengthKnown 5 (servedFile [] 5 (by decide))) := by
  have run : (prepareResponse (servedFile [] 5 (by decide)) (filesOf 5 (by decide))).map
      Outcome.rc = some 0 := by decide +kernel
  obtain ⟨⟨rc, c', k'⟩, prepared, rfl⟩ := Option.map_eq_some_iff.mp run
  exact ⟨c', k', prepared,
    announced_length_sound_iff (servedFile_reached (by decide) (by decide +kernel)) prepared⟩

/-- A suffix range of an empty file: the announced length is -1. -/
theorem suffix_of_empty_file_negative : ∃ c' k',
    prepareResponse (servedFile (ascii "bytes=-5") 0 (by decide)) (filesOf 0 (by decide)) =
      some { rc := 0, client := c', kernel := k' } ∧
    Reached rootServer .get 0 (servedFile (ascii "bytes=-5") 0 (by decide)) ∧
    Announced c' (-1) ∧ ∀ length, Announced c' length → ¬ LengthSound .get 0 length c' := by
  have run : (prepareResponse (servedFile (ascii "bytes=-5") 0 (by decide))
      (filesOf 0 (by decide))).map Outcome.rc = some 0 := by decide +kernel
  obtain ⟨⟨rc, c', k'⟩, prepared, rfl⟩ := Option.map_eq_some_iff.mp run
  have reached : Reached rootServer .get 0 (servedFile (ascii "bytes=-5") 0 (by decide)) :=
    servedFile_reached (by decide) (by decide +kernel)
  have partial206 : (servedFile (ascii "bytes=-5") 0 (by decide)).ta.resp.status.isError = false := by
    decide +kernel
  have negative : announcedLength (servedFile (ascii "bytes=-5") 0 (by decide)) = -1 := by
    decide +kernel
  have announced : Announced c' (-1) := by
    rcases reached.presented.prepared prepared with ⟨-, d⟩ | ⟨error, -⟩
    · rw [negative] at d
      exact ⟨_, d.headers⟩
    · rw [partial206] at error
      cases error
  refine ⟨c', k', prepared, reached, announced, ?_⟩
  intro length other sound
  rw [other.unique announced] at sound
  exact absurd sound.nonneg (by decide)

end Kitserv
