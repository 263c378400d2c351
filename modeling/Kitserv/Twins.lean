import Kitserv.HeadAgreement
import Kitserv.ParsedHead

/-! Two clients with the same request and the same response so far, whatever else their buffers hold:
static serving keeps them alike, step by step, where the file system gives both the same files. -/
namespace Kitserv

open Memory

def SameFile (content content' : Int → Bytes) (fd fd' : Int) : Prop :=
  (fd' = fd ∧ fd ≤ 0) ∨ (0 < fd ∧ 0 < fd' ∧ content' fd' = content fd)

def SameOpen (content content' : Int → Bytes) :
    Except Errno Descriptor → Except Errno Descriptor → Prop
  | .ok fd, .ok fd' => content' fd'.val = content fd.val
  | .error e, .error e' => e' = e
  | _, _ => False

/-- The file systems behind two kernels do not change, and they are the same but for the numbers of
the descriptors. -/
structure SameFiles (content content' : Int → Bytes) (k k' : Kernel) : Prop where
  stat : ∀ t t' path, (k'.fs t').stat path = (k.fs t).stat path
  opens : ∀ t t' path,
    SameOpen content content' ((k.fs t).openRdonly path) ((k'.fs t').openRdonly path)

/-- The clients have the same strings, the same fields of request and response, and the same header
block. -/
structure Twins (content content' : Int → Bytes) (c c' : Client) : Prop where
  req : c'.ta.req = c.ta.req
  resp : c'.ta.resp = { c.ta.resp with fd := c'.ta.resp.fd }
  file : SameFile content content' c.ta.resp.fd c'.ta.resp.fd
  flags : c'.ta.api.allowFlags = c.ta.api.allowFlags
  body : c'.respBody.len = c.respBody.len
  headers : HeadersOk c
  headers' : HeadersOk c'
  block : c'.headerBlock = c.headerBlock
  texts : ∀ p ∈ c.ta.req.strings, ∃ text, TextAt c.reqHeaders p text ∧ TextAt c'.reqHeaders p text

structure Result.Twins (content content' : Int → Bytes) (r r' : Result) : Prop where
  ok : r'.ok = r.ok
  client : Kitserv.Twins content content' r.client r'.client

section Serving

variable {content content' : Int → Bytes} {c c' r r' : Client}

namespace Twins

/-- The fields of the transaction that a step writes on both sides. -/
theorem setTa (twins : Twins content content' c c') {ta ta' : Transaction} (req : ta'.req = ta.req)
    (strings : ta.req.strings = c.ta.req.strings) (resp : ta'.resp = { ta.resp with fd := ta'.resp.fd })
    (file : SameFile content content' ta.resp.fd ta'.resp.fd)
    (flags : ta'.api.allowFlags = ta.api.allowFlags)
    (len : ta.resp.bufs.headers.len = c.ta.resp.bufs.headers.len) :
    Twins content content' { c with ta := ta } { c' with ta := ta' } := by
  have written : ta'.resp.bufs.headers.len = c'.ta.resp.bufs.headers.len := by
    rw [resp, twins.resp]
    exact len
  refine ⟨req, resp, file, flags, twins.body, ⟨twins.headers.size, len ▸ twins.headers.inside⟩,
    ⟨twins.headers'.size, written ▸ twins.headers'.inside⟩, ?_, strings ▸ twins.texts⟩
  simp only [Client.headerBlock, written, len]
  exact twins.block

theorem setStatus (twins : Twins content content' c c') (status : HttpStatus) :
    Twins content content' (c.setStatus status) (c'.setStatus status) := by
  refine twins.setTa twins.req rfl ?_ twins.file twins.flags rfl
  rw [twins.resp]

theorem setRange (twins : Twins content content' c c') (range : ByteRange) :
    Twins content content' (c.setRange range) (c'.setRange range) := by
  refine twins.setTa twins.req rfl ?_ twins.file twins.flags rfl
  rw [twins.resp]

theorem setFd (twins : Twins content content' c c') {fd fd' : Int}
    (file : SameFile content content' fd fd') :
    Twins content content' (c.setFd fd) (c'.setFd fd') := by
  refine twins.setTa twins.req rfl ?_ file twins.flags rfl
  rw [twins.resp]

theorem wholeFile (twins : Twins content content' c c') (st : Stat) :
    Twins content content' (c.wholeFile st) (c'.wholeFile st) := by
  refine twins.setTa twins.req rfl ?_ twins.file twins.flags rfl
  rw [twins.resp]

theorem setState (twins : Twins content content' c c') (state : TransactionState) :
    Twins content content' (c.setState state) (c'.setState state) :=
  twins.setTa twins.req rfl twins.resp twins.file twins.flags rfl

theorem withHeaders (twins : Twins content content' c c') {block : Bytes}
    (h : WithHeaders c block r) (h' : WithHeaders c' block r') : Twins content content' r r' := by
  have same := h.same
  have same' := h'.same
  refine ⟨?_, ?_, ?_, ?_, ?_, h.headersOk, h'.headersOk, h'.headerBlock.trans h.headerBlock.symm, ?_⟩
  · rw [same, same']
    exact twins.req
  · rw [same, same']
    simp only [Client.setHeaders]
    rw [twins.resp]
  · rw [same, same']
    exact twins.file
  · rw [same, same']
    exact twins.flags
  · rw [same, same']
    exact twins.body
  · rw [same, same']
    exact twins.texts

theorem text (twins : Twins content content' c c') {p : Nat} (member : p ∈ c.ta.req.strings) :
    cString c'.reqHeaders p = cString c.reqHeaders p := by
  obtain ⟨text, here, here'⟩ := twins.texts p member
  rw [here.reads, here'.reads]

theorem path (twins : Twins content content' c c') :
    c'.ta.req.path.map (cString c'.reqHeaders) = c.ta.req.path.map (cString c.reqHeaders) := by
  rw [twins.req]
  cases path : c.ta.req.path with
  | none => rfl
  | some p => exact congrArg some (twins.text (mem_strings_path path))

end Twins

theorem headerAdd_twins (twins : Twins content content' c c') (key value : Bytes) :
    (headerAdd c key (some value)).Twins content content' (headerAdd c' key (some value)) := by
  have block := twins.block
  rcases headerAdd_cases key value twins.headers with ⟨r, added, grown⟩ | ⟨r, refused, kept, full⟩
  · rcases headerAdd_cases key value twins.headers' with
      ⟨r', added', grown'⟩ | ⟨r', refused', kept', full'⟩
    · rw [added, added']
      rw [block] at grown'
      exact ⟨rfl, twins.withHeaders grown grown'⟩
    · rw [block] at full'
      exact absurd grown.inside (Nat.not_lt.mpr full')
  · rcases headerAdd_cases key value twins.headers' with
      ⟨r', added', grown'⟩ | ⟨r', refused', kept', full'⟩
    · rw [block] at grown'
      exact absurd grown'.inside (Nat.not_lt.mpr full)
    · rw [refused, refused']
      rw [block] at kept'
      exact ⟨rfl, (twins.withHeaders kept kept').setStatus _⟩

theorem parseRange_twins (twins : Twins content content' c c') :
    (parseRange c').1 = (parseRange c).1 := by
  rw [parseRange_range, parseRange_range, twins.req]
  cases asked : c.ta.req.range with
  | none => rfl
  | some p =>
    obtain ⟨text, here, here'⟩ := twins.texts p (by simp [Request.strings, asked])
    have same : (parseRangeAt c'.reqHeaders p).range = (parseRangeAt c.reqHeaders p).range :=
      Option.ext fun range => (parseRangeAt_iff here').trans (parseRangeAt_iff here).symm
    simp only [Option.bind_some, same]

theorem Twins.status (twins : Twins content content' c c') :
    c'.ta.resp.status = c.ta.resp.status := by rw [twins.resp]

theorem parseRangeRequest_twins (twins : Twins content content' c c') (size : Int) :
    (parseRangeRequest c size).Twins content content' (parseRangeRequest c' size) := by
  rw [parseRangeRequest_eq, parseRangeRequest_eq, parseRange_twins twins]
  cases (parseRange c).1 with
  | none => exact ⟨rfl, twins.setStatus _⟩
  | some range =>
    simp only
    cases clampRange range size with
    | none => exact ⟨rfl, twins.setStatus _⟩
    | some range => exact ⟨rfl, twins.setRange range⟩

theorem handleRange_twins (twins : Twins content content' c c') (st : Stat) :
    (handleRange c st).Twins content content' (handleRange c' st) := by
  have request := parseRangeRequest_twins twins st.size
  rcases e : parseRangeRequest c st.size with ⟨ok, r⟩
  rcases e' : parseRangeRequest c' st.size with ⟨ok', r'⟩
  rw [e, e'] at request
  obtain ⟨same, alike⟩ := request
  simp only at same alike
  subst same
  have pos : r'.ta.resp.bodyPos = r.ta.resp.bodyPos ∧ r'.ta.resp.bodyEnd = r.ta.resp.bodyEnd := by
    rw [alike.resp]
    exact ⟨rfl, rfl⟩
  have line := headerAdd_twins alike (ascii "content-range") (ascii "bytes " ++
    decimal r.ta.resp.bodyPos ++ ascii "-" ++ decimal r.ta.resp.bodyEnd ++ ascii "/" ++
    decimal st.size)
  have star := headerAdd_twins alike (ascii "content-range") (ascii "*/" ++ decimal st.size)
  simp only [handleRange, twins.req, e, e', headerAddContentRange, pos.1, pos.2, alike.status]
  split
  · exact ⟨rfl, twins⟩
  split
  · rw [line.ok]
    split
    · exact line
    · exact ⟨rfl, line.client.setStatus _⟩
  split
  · split
    · refine ⟨rfl, star.client.setTa star.client.req rfl ?_ star.client.file star.client.flags rfl⟩
      rw [star.client.resp]
    · exact ⟨rfl, alike⟩
  · refine ⟨rfl, alike.setTa ?_ rfl alike.resp alike.file alike.flags rfl⟩
    rw [alike.req]

/-- What comes behind a return that is passed on unless it is 0. -/
theorem Result.Twins.orElse {r r' e e' : Result} (twins : r.Twins content content' r')
    (later : e.Twins content content' e') :
    (if ¬ r.ok then r else e).Twins content content' (if ¬ r'.ok then r' else e') := by
  simp only [twins.ok]
  split
  · exact twins
  · exact later

theorem headerAddLastModified_twins (twins : Twins content content' c c') (lib : TimeLib)
    (time : Int) : (headerAddLastModified lib c time).Twins content content'
      (headerAddLastModified lib c' time) := by
  unfold headerAddLastModified
  split
  · exact ⟨rfl, twins⟩
  · split
    · exact ⟨rfl, twins⟩
    · exact headerAdd_twins twins _ _

theorem addFileHeaders_twins (twins : Twins content content' c c') (lib : TimeLib) (fname : Bytes)
    (st : Stat) : (addFileHeaders lib c fname st).Twins content content'
      (addFileHeaders lib c' fname st) := by
  have type := headerAdd_twins twins (ascii "content-type") (guessMimeType (extension fname))
  simp only [addFileHeaders, headerAddContentTypeGuess]
  refine type.orElse ?_
  have ranges := headerAdd_twins type.client (ascii "accept-ranges") (ascii "bytes")
  exact ranges.orElse (headerAddLastModified_twins ranges.client lib st.mtime)

def FileEnd.Twins (content content' : Int → Bytes) : FileEnd → FileEnd → Prop
  | error r, error r' => Kitserv.Twins content content' r r'
  | unmodified r, unmodified r' => Kitserv.Twins content content' r r'
  | full r, full r' => Kitserv.Twins content content' r r'
  | _, _ => False

theorem fileEnd_twins (twins : Twins content content' c c') (lib : TimeLib) (fname : Bytes)
    (st : Stat) : (fileEnd lib c fname st).Twins content content' (fileEnd lib c' fname st) := by
  have ranged := handleRange_twins twins st
  have described := addFileHeaders_twins ranged.client lib fname st
  simp only [fileEnd]
  simp only [ranged.ok, described.ok, described.client.req]
  split
  · exact ranged.client
  split
  · exact described.client.setStatus _
  have alike := described.client
  generalize (addFileHeaders lib (handleRange c st).client fname st).client = r at alike ⊢
  generalize (addFileHeaders lib (handleRange c' st).client fname st).client = r' at alike ⊢
  cases asked : r.ta.req.modifiedSince with
  | none => exact alike
  | some since =>
    have text := alike.text (p := since) (by simp [Request.strings, asked])
    simp only [text]
    cases lib.strptime (cString r.reqHeaders since) with
    | none => exact alike.setStatus _
    | some time =>
      simp only
      split
      · exact alike
      · exact alike

variable {k k' : Kernel}

theorem closeFdToZero_sameFile (k k' : Kernel) {fd fd' : Int}
    (file : SameFile content content' fd fd') :
    SameFile content content' (k.closeFdToZero fd).1 (k'.closeFdToZero fd').1 := by
  rcases file with ⟨rfl, none⟩ | ⟨opened, opened', -⟩
  · simp only [Kernel.closeFdToZero, if_neg (Int.not_lt.mpr none)]
    exact .inl ⟨rfl, none⟩
  · simp only [Kernel.closeFdToZero, if_pos opened, if_pos opened']
    exact .inl ⟨rfl, Int.le_refl 0⟩

theorem describeFile_twins (twins : Twins content content' c c') (lib : TimeLib) (k k' : Kernel)
    (errno errno' : Errno) (fname : Bytes) (st : Stat) :
    Twins content content' (describeFile lib c k errno fname st).client
      (describeFile lib c' k' errno' fname st).client := by
  have ends := fileEnd_twins (twins.wholeFile st) lib fname st
  rw [describeFile_eq, describeFile_eq]
  revert ends
  cases fileEnd lib (c.wholeFile st) fname st with
  | error r =>
    cases fileEnd lib (c'.wholeFile st) fname st with
    | error r' =>
      intro alike
      exact alike.setFd (closeFdToZero_sameFile k k' alike.file)
    | unmodified => nofun
    | full => nofun
  | unmodified r =>
    cases fileEnd lib (c'.wholeFile st) fname st with
    | error => nofun
    | unmodified r' =>
      intro alike
      have closed := alike.setStatus .http304NotModified
      have file := closeFdToZero_sameFile k k' closed.file
      refine (closed.setFd file).setTa ?_ rfl ?_ file closed.flags rfl
      · rw [closed.req]
      · rw [closed.resp]
    | full => nofun
  | full r =>
    cases fileEnd lib (c'.wholeFile st) fname st with
    | error => nofun
    | unmodified => nofun
    | full r' =>
      intro alike
      simp only [serveFile, alike.req]
      exact alike.setStatus _

theorem openRdonly_twins (files : SameFiles content content' k k') (fname : Bytes) :
    SameOpen content content' (k.openRdonly fname).1 (k'.openRdonly fname).1 := by
  have opens := files.opens k.clock k'.clock fname
  simp only [Kernel.openRdonly]
  split <;> split <;> simp_all

theorem pathSet_twins (twins : Twins content content' c c') (files : SameFiles content content' k k')
    (lib : TimeLib) (errno errno' : Errno) (fname : Bytes) (st : Stat) :
    Twins content content' (pathSet lib c k errno fname st).client
      (pathSet lib c' k' errno' fname st).client := by
  have opens := openRdonly_twins files fname
  rw [pathSet_eq, pathSet_eq, twins.req]
  split
  · revert opens
    rcases k.openRdonly fname with ⟨e | fd, l⟩
    · rcases k'.openRdonly fname with ⟨e' | fd', l'⟩
      · exact fun _ => twins.setStatus _
      · nofun
    · rcases k'.openRdonly fname with ⟨e' | fd', l'⟩
      · nofun
      · intro same
        exact describeFile_twins (twins.setFd (.inr ⟨fd.pos, fd'.pos, same⟩)) lib l l' errno errno'
          fname st
  · exact describeFile_twins (twins.setFd (.inl ⟨rfl, by decide⟩)) lib k k' errno errno' fname st

def PathChoice.Twins (content content' : Int → Bytes) : PathChoice → PathChoice → Prop
  | pathSet fname st c k _, pathSet fname' st' c' k' _ => fname' = fname ∧ st' = st ∧
    Kitserv.Twins content content' c c' ∧ SameFiles content content' k k'
  | stop c _ _, stop c' _ _ => Kitserv.Twins content content' c c'
  | _, _ => False

/-- One candidate, with errno as it was. -/
theorem verifyStaticPath_twins (twins : Twins content content' c c')
    (files : SameFiles content content' k k') (errno : Errno) (path : Bytes) :
    (verifyStaticPath c' k' errno path).stat = (verifyStaticPath c k errno path).stat ∧
    (verifyStaticPath c' k' errno path).errno = (verifyStaticPath c k errno path).errno ∧
    Twins content content' (verifyStaticPath c k errno path).client
      (verifyStaticPath c' k' errno path).client := by
  have stat := files.stat k.clock k'.clock path
  simp only [verifyStaticPath, Kernel.stat, stat]
  split
  · exact ⟨rfl, rfl, twins.setStatus _⟩
  cases (k.fs k.clock).stat path with
  | ok st =>
    simp only
    split
    · exact ⟨rfl, rfl, twins⟩
    · refine ⟨rfl, rfl, ?_⟩
      simp only
      split
      · exact twins.setStatus _
      · exact twins
  | error e =>
    refine ⟨rfl, rfl, ?_⟩
    simp only
    split
    · exact twins.setStatus _
    · exact twins

theorem SameFiles.congr {l l' : Kernel} (files : SameFiles content content' k k')
    (fs : l.fs = k.fs) (fs' : l'.fs = k'.fs) : SameFiles content content' l l' := by
  constructor
  · rw [fs, fs']
    exact files.stat
  · rw [fs, fs']
    exact files.opens

theorem tryPaths_twins (twins : Twins content content' c c')
    (files : SameFiles content content' k k') (errno : Errno) (paths : List Bytes) :
    (tryPaths c k errno paths).Twins content content' (tryPaths c' k' errno paths) := by
  induction paths generalizing c c' k k' errno with
  | nil => exact twins.setStatus _
  | cons path rest ih =>
    obtain ⟨stat, same, alike⟩ := verifyStaticPath_twins twins files errno path
    have looked : SameFiles content content' (verifyStaticPath c k errno path).kernel
        (verifyStaticPath c' k' errno path).kernel :=
      files.congr (by rw [(verifyStaticPath_spec c k errno path).1.same])
        (by rw [(verifyStaticPath_spec c' k' errno path).1.same])
    simp only [tryPaths, stat, same, alike.status]
    split
    · exact ⟨rfl, rfl, alike, looked⟩
    split
    · exact alike
    · exact ih alike looked _

theorem handleStaticPath_twins (twins : Twins content content' c c')
    (files : SameFiles content content' k k') (errno : k'.errnos.headD .zero = k.errnos.headD .zero)
    (s : Server) (path : Bytes) (ctx : Option RequestContext) :
    Twins content content' (handleStaticPath s c k path ctx).client
      (handleStaticPath s c' k' path ctx).client := by
  have looked : SameFiles content content' k.staleErrno.2 k'.staleErrno.2 := ⟨files.stat, files.opens⟩
  have stale : k'.staleErrno.1 = k.staleErrno.1 := errno
  simp only [handleStaticPath, twins.path]
  rw [twins.req, stale]
  split
  · exact twins.setStatus _
  have choice := tryPaths_twins twins looked k.staleErrno.1 (candidates (ctx.getD s.defaultContext)
    ((c.ta.req.path.map (cString c.reqHeaders)).getD []) path)
  revert choice
  cases tryPaths c k.staleErrno.2 k.staleErrno.1 (candidates (ctx.getD s.defaultContext)
    ((c.ta.req.path.map (cString c.reqHeaders)).getD []) path) with
  | stop r l e =>
    cases tryPaths c' k'.staleErrno.2 k.staleErrno.1 (candidates (ctx.getD s.defaultContext)
      ((c.ta.req.path.map (cString c.reqHeaders)).getD []) path) with
    | stop r' l' e' => exact fun alike => alike
    | pathSet => rintro ⟨⟩
  | pathSet fname st r l e =>
    cases tryPaths c' k'.staleErrno.2 k.staleErrno.1 (candidates (ctx.getD s.defaultContext)
      ((c.ta.req.path.map (cString c.reqHeaders)).getD []) path) with
    | stop => rintro ⟨⟩
    | pathSet fname' st' r' l' e' =>
      rintro ⟨rfl, rfl, alike, files⟩
      exact pathSet_twins alike files s.time e e' _ _

/-- Static serving answers a request the same way on both sides. -/
theorem serveStatic_twins (twins : Twins content content' c c')
    (files : SameFiles content content' k k') (errno : k'.errnos.headD .zero = k.errnos.headD .zero)
    (s : Server) : Twins content content' (serveStatic s c k).client (serveStatic s c' k').client := by
  simp only [serveStatic, serveCont, twins.path]
  exact (handleStaticPath_twins twins files errno s _ none).setState _

end Serving

end Kitserv
