import Kitserv.Lifecycle
import Kitserv.StaticLaw

/-! Which file a static request gets: the first regular file among the candidates, and what the
request path, a status set before, and a stale errno do to that. -/
namespace Kitserv

inductive FileSelection where
  | file (fname : Bytes) (st : Stat)
  | tooLong
  | notFound

/-- The first regular file among these names, when none of those in front of it is too long. -/
def firstFile (fs : Nat → FileSystem) (clock : Nat) : List Bytes → FileSelection
  | [] => .notFound
  | fname :: rest =>
    if pathMax ≤ fname.length then .tooLong
    else match (fs clock).stat fname with
      | .ok st => if st.isReg then .file fname st else firstFile fs (clock + 1) rest
      | .error _ => firstFile fs (clock + 1) rest

/-- No stat of these names fails with EACCES, and errno is not EACCES on entry. -/
def Accessible (k : Kernel) (paths : List Bytes) : Prop :=
  k.staleErrno.1 ≠ .eacces ∧ ∀ clock, ∀ path ∈ paths, (k.fs clock).stat path ≠ .error .eacces

def FileSelection.Chosen (c : Client) (k : Kernel) (choice : PathChoice) : FileSelection → Prop
  | file fname st => ∃ k' errno, choice = .pathSet fname st c k' errno ∧ Searched k k'
  | tooLong => ∃ k' errno, choice = .stop (c.setStatus .http414UriTooLong) k' errno ∧ Searched k k'
  | notFound => ∃ k' errno, choice = .stop (c.setStatus .http404NotFound) k' errno ∧ Searched k k'

theorem FileSelection.Chosen.after {c : Client} {k k' : Kernel} {choice : PathChoice} {found : FileSelection}
    (searched : Searched k k') (h : found.Chosen c k' choice) : found.Chosen c k choice := by
  cases found with
  | file fname st =>
    obtain ⟨k'', errno, same, later⟩ := h
    exact ⟨k'', errno, same, searched.trans later⟩
  | tooLong =>
    obtain ⟨k'', errno, same, later⟩ := h
    exact ⟨k'', errno, same, searched.trans later⟩
  | notFound =>
    obtain ⟨k'', errno, same, later⟩ := h
    exact ⟨k'', errno, same, searched.trans later⟩

section Search

variable {c : Client} {k : Kernel} {errno : Errno} {fname : Bytes} {rest : List Bytes}

theorem tryPaths_long (long : pathMax ≤ fname.length) :
    tryPaths c k errno (fname :: rest) = .stop (c.setStatus .http414UriTooLong) k .enametoolong := by
  simp [tryPaths, verifyStaticPath, long, Client.setStatus]

theorem tryPaths_regular {st : Stat} (short : fname.length < pathMax)
    (found : (k.fs k.clock).stat fname = .ok st) (regular : st.isReg = true) :
    tryPaths c k errno (fname :: rest) =
      .pathSet fname st c { k with clock := k.clock + 1 } errno := by
  have stat : k.stat fname = (.ok st, { k with clock := k.clock + 1 }) := by
    rw [Kernel.stat, found]
  simp [tryPaths, verifyStaticPath, Nat.not_le.mpr short, stat, regular]

def missed (k : Kernel) (errno : Errno) (fname : Bytes) : Option Errno :=
  match (k.fs k.clock).stat fname with
  | .ok st => if st.isReg then none else some errno
  | .error e => some e

theorem tryPaths_missed {e : Errno} (short : fname.length < pathMax)
    (missing : missed k errno fname = some e) :
    tryPaths c k errno (fname :: rest) =
      if e = .eacces then
        .stop (c.setStatus .http403PermissionDenied) { k with clock := k.clock + 1 } e
      else if c.ta.resp.status ≠ .xRespStatusUnset then .stop c { k with clock := k.clock + 1 } e
      else tryPaths c { k with clock := k.clock + 1 } e rest := by
  have verified : verifyStaticPath c k errno fname =
      { stat := none
        client := if e = .eacces then c.setStatus .http403PermissionDenied else c
        kernel := { k with clock := k.clock + 1 }
        errno := e } := by
    simp only [verifyStaticPath, ge_iff_le, Nat.not_le.mpr short, if_false, Kernel.stat]
    simp only [missed] at missing
    cases looked : (k.fs k.clock).stat fname with
    | error e' =>
      simp only [looked, Option.some.injEq] at missing
      subst missing
      rfl
    | ok st =>
      cases regular : st.isReg with
      | true => simp [looked, regular] at missing
      | false =>
        simp only [looked, regular, Bool.false_eq_true, if_false, Option.some.injEq] at missing
        subst missing
        simp [regular]
  simp only [tryPaths, verified]
  by_cases denied : e = .eacces
  · simp [denied, Client.setStatus]
  · simp only [denied, if_false]

/-- Without EACCES and with no status set before, the first regular file is chosen. -/
theorem tryPaths_first {c : Client} (unset : c.ta.resp.status = .xRespStatusUnset)
    (paths : List Bytes) (k : Kernel) (errno : Errno) (clean : errno ≠ .eacces)
    (open' : ∀ clock, ∀ path ∈ paths, (k.fs clock).stat path ≠ .error .eacces) :
    (firstFile k.fs k.clock paths).Chosen c k (tryPaths c k errno paths) := by
  induction paths generalizing k errno with
  | nil => exact ⟨k, errno, rfl, ⟨rfl⟩⟩
  | cons fname rest ih =>
    rcases Nat.lt_or_ge fname.length pathMax with short | long
    · have later (e : Errno) (clean : e ≠ .eacces) (missing : missed k errno fname = some e) :
          (firstFile k.fs (k.clock + 1) rest).Chosen c k (tryPaths c k errno (fname :: rest)) := by
        rw [tryPaths_missed short missing, if_neg clean, if_neg (not_not.mpr unset)]
        have searched : Searched k { k with clock := k.clock + 1 } := ⟨rfl⟩
        apply FileSelection.Chosen.after searched
        apply ih { k with clock := k.clock + 1 } e clean
        intro clock path member
        exact open' clock path (List.mem_cons_of_mem _ member)
      simp only [firstFile, if_neg (Nat.not_le.mpr short)]
      cases looked : (k.fs k.clock).stat fname with
      | error e =>
        apply later e
        · rintro rfl
          exact open' k.clock fname (List.mem_cons_self ..) looked
        · simp only [missed, looked]
      | ok st =>
        simp only
        split
        · rename_i regular
          exact ⟨_, _, tryPaths_regular short looked regular, ⟨rfl⟩⟩
        · rename_i irregular
          apply later errno clean
          simp only [missed, looked, if_neg irregular]
    · simp only [firstFile, if_pos long]
      exact ⟨_, _, tryPaths_long long, ⟨rfl⟩⟩

end Search

def ServedStatus (status : HttpStatus) : Prop :=
  status ≠ .http404NotFound ∧ status ≠ .http414UriTooLong

section Served

variable {lib : TimeLib} {c : Client} {k : Kernel} {errno : Errno} {fname : Bytes} {st : Stat}

theorem handleRange_status (refused : (handleRange c st).ok = false) :
    ServedStatus (handleRange c st).client.ta.resp.status := by
  simp only [handleRange] at refused ⊢
  split at refused
  · cases refused
  · rename_i asked
    rw [if_neg asked]
    rcases parseRangeRequest_cases c st.size with
      ⟨-, e⟩ | ⟨range, -, -, e⟩ | ⟨range, r, -, -, e⟩
    · rw [e] at refused
      simp [Client.setStatus] at refused
    · rw [e]
      have status : (c.setStatus .http416RangeNotSatisfiable).ta.resp.status =
        .http416RangeNotSatisfiable := rfl
      simp only [Bool.false_eq_true, if_false, status, ne_eq, reduceCtorEq, not_false_eq_true, if_true]
      obtain ⟨buf, n, added | full⟩ := headerAdd_shape (c.setStatus .http416RangeNotSatisfiable)
        (ascii "content-range") (some (ascii "*/" ++ decimal st.size))
      · rw [added]
        exact ⟨(by rintro ⟨⟩), (by rintro ⟨⟩)⟩
      · rw [full]
        exact ⟨(by rintro ⟨⟩), (by rintro ⟨⟩)⟩
    · rw [e] at refused ⊢
      simp only [if_true] at refused ⊢
      split at refused
      · rename_i fits
        rw [fits] at refused
        cases refused
      · rename_i full
        rw [if_neg full]
        exact ⟨(by rintro ⟨⟩), (by rintro ⟨⟩)⟩

theorem describeFile_status :
    ServedStatus (describeFile lib c k errno fname st).client.ta.resp.status := by
  rw [describeFile_eq]
  simp only [fileEnd]
  split
  · rename_i r e
    split at e
    · rename_i refused
      cases e
      exact handleRange_status (by simpa using refused)
    · split at e
      · cases e
        exact ⟨(by rintro ⟨⟩), (by rintro ⟨⟩)⟩
      · split at e
        · cases e
        · split at e
          · cases e
            exact ⟨(by rintro ⟨⟩), (by rintro ⟨⟩)⟩
          · split at e <;> cases e
  · exact ⟨(by rintro ⟨⟩), (by rintro ⟨⟩)⟩
  · simp only [serveFile, Client.setStatus]
    split
    · exact ⟨(by rintro ⟨⟩), (by rintro ⟨⟩)⟩
    · exact ⟨(by rintro ⟨⟩), (by rintro ⟨⟩)⟩

theorem pathSet_status : ServedStatus (pathSet lib c k errno fname st).client.ta.resp.status := by
  rw [pathSet_eq]
  split
  · split
    · exact ⟨nofun, nofun⟩
    · exact describeFile_status
  · exact describeFile_status

end Served

def FileSelection.Served (s : Server) (c : Client) (k : Kernel) (r : StaticResult) : FileSelection → Prop
  | file fname st => ∃ k' errno, Searched k k' ∧ r = pathSet s.time c k' errno fname st
  | tooLong => r.ok = false ∧ r.client = c.setStatus .http414UriTooLong ∧ Searched k r.kernel
  | notFound => r.ok = false ∧ r.client = c.setStatus .http404NotFound ∧ Searched k r.kernel

/-- The file that a path should get under a context, and the two statuses without one. -/
structure SelectionLaw (s : Server) (c : Client) (k : Kernel) (path : Bytes)
    (ctx : Option RequestContext) : Prop where
  served : (firstFile k.fs k.clock (candidates (ctx.getD s.defaultContext) path path)).Served s c
    k.staleErrno.2 (handleStaticPath s c k path ctx)
  missing : (handleStaticPath s c k path ctx).client.ta.resp.status = .http404NotFound ↔
    firstFile k.fs k.clock (candidates (ctx.getD s.defaultContext) path path) = .notFound
  long : (handleStaticPath s c k path ctx).client.ta.resp.status = .http414UriTooLong ↔
    firstFile k.fs k.clock (candidates (ctx.getD s.defaultContext) path path) = .tooLong

def Client.requestPath (c : Client) : Bytes := (c.ta.req.path.map (cString c.reqHeaders)).getD []

section Law

variable {s : Server} {c : Client} {k : Kernel} {path : Bytes} {ctx : Option RequestContext}

theorem candidates_congr {ctx : RequestContext} {reqPath : Bytes}
    (same : reqPath = ascii "/" ↔ path = ascii "/") :
    candidates ctx reqPath path = candidates ctx path path := by
  simp only [candidates, same]

theorem SelectionLaw.of_chosen {found : FileSelection}
    (allowed : c.ta.req.method = .get ∨ c.ta.req.method = .head)
    (wanted : firstFile k.fs k.clock (candidates (ctx.getD s.defaultContext) path path) = found)
    (chosen : found.Chosen c k.staleErrno.2 (pathChoice s c k path ctx)) :
    SelectionLaw s c k path ctx := by
  have ends := handleStaticPath_chosen s k path ctx allowed
  cases found with
  | file fname st =>
    obtain ⟨k', errno, same, searched⟩ := chosen
    simp only [same] at ends
    have status := @pathSet_status s.time c k' errno fname st
    rw [← ends] at status
    refine ⟨?_, ?_, ?_⟩
    · rw [wanted]
      exact ⟨k', errno, searched, ends⟩
    · rw [wanted]
      simp [status.1]
    · rw [wanted]
      simp [status.2]
  | tooLong =>
    obtain ⟨k', errno, same, searched⟩ := chosen
    simp only [same] at ends
    refine ⟨?_, ?_, ?_⟩
    · rw [wanted, ends]
      exact ⟨rfl, rfl, searched⟩
    · rw [wanted, ends]
      simp [Client.setStatus]
    · rw [wanted, ends]
      simp [Client.setStatus]
  | notFound =>
    obtain ⟨k', errno, same, searched⟩ := chosen
    simp only [same] at ends
    refine ⟨?_, ?_, ?_⟩
    · rw [wanted, ends]
      exact ⟨rfl, rfl, searched⟩
    · rw [wanted, ends]
      simp [Client.setStatus]
    · rw [wanted, ends]
      simp [Client.setStatus]

def TooLongAnywhere (path : Bytes) : Prop := pathMax ≤ path.length + 1

theorem firstFile_tooLong {ctx : RequestContext} {fs : Nat → FileSystem} {clock : Nat}
    (long : TooLongAnywhere path) :
    ∃ fname rest, candidates ctx path path = fname :: rest ∧ pathMax ≤ fname.length ∧
      firstFile fs clock (candidates ctx path path) = .tooLong := by
  have other : path ≠ ascii "/" := by
    rintro rfl
    exact absurd long (by unfold TooLongAnywhere; decide)
  have slash : (ascii "/").length = 1 := rfl
  unfold TooLongAnywhere at long
  have first : pathMax ≤ (ctx.root ++ ascii "/" ++ path).length := by
    simp only [List.length_append, slash]
    omega
  have direct : candidates ctx path path =
      (ctx.root ++ ascii "/" ++ path) :: (candidates ctx path path).tail := by
    simp only [candidates, if_neg other]
    cases ctx.rootFallback <;> rfl
  refine ⟨_, _, direct, first, ?_⟩
  rw [direct, firstFile, if_pos first]

theorem selection_holds (allowed : c.ta.req.method = .get ∨ c.ta.req.method = .head)
    (unset : c.ta.resp.status = .xRespStatusUnset ∨ TooLongAnywhere path)
    (same : c.requestPath = ascii "/" ↔ path = ascii "/")
    (accessible : Accessible k (candidates (ctx.getD s.defaultContext) path path)) :
    SelectionLaw s c k path ctx := by
  have search : pathChoice s c k path ctx = tryPaths c k.staleErrno.2 k.staleErrno.1
      (candidates (ctx.getD s.defaultContext) path path) := by
    rw [← candidates_congr same]
    rfl
  rcases unset with unset | long
  · apply SelectionLaw.of_chosen allowed rfl
    rw [search]
    exact tryPaths_first unset _ k.staleErrno.2 _ accessible.1 accessible.2
  · obtain ⟨fname, rest, first, far, tooLong⟩ :=
      @firstFile_tooLong path (ctx.getD s.defaultContext) k.fs k.clock long
    apply SelectionLaw.of_chosen allowed tooLong
    rw [search, first, tryPaths_long far]
    exact ⟨_, _, rfl, ⟨rfl⟩⟩

def Kernel.having (paths : List Bytes) : Kernel where
  fs _ :=
    { stat := fun path => if path ∈ paths then
        .ok { isReg := true, size := 0, size_lt := by decide, mtime := 0 } else .error (.other 2)
      openRdonly := fun _ => .error (.other 2) }

theorem having_accessible (paths names : List Bytes) : Accessible (.having paths) names := by
  constructor
  · exact nofun
  · intro clock path _
    simp only [Kernel.having]
    split <;> exact nofun

theorem firstFile_having {paths names : List Bytes} {clock : Nat} {fname : Bytes}
    (found : fname ∈ paths) (short : fname.length < pathMax) :
    ∃ st, firstFile (Kernel.having paths).fs clock (fname :: names) = .file fname st := by
  simp only [firstFile, if_neg (Nat.not_le.mpr short), Kernel.having, if_pos found]
  exact ⟨_, rfl⟩

theorem firstFile_lacking {paths names : List Bytes} {clock : Nat} {fname : Bytes}
    (missing : fname ∉ paths) (short : fname.length < pathMax) :
    firstFile (Kernel.having paths).fs clock (fname :: names) =
      firstFile (Kernel.having paths).fs (clock + 1) names := by
  simp only [firstFile, if_neg (Nat.not_le.mpr short), Kernel.having, if_neg missing]

def rootContext (rootFallback : Bytes) : RequestContext :=
  { root := [], rootFallback := some rootFallback, fallback := none, useHttpAppendFallback := false }

theorem same_root_of_law (allowed : c.ta.req.method = .get ∨ c.ta.req.method = .head)
    (law : ∀ k ctx, Accessible k (candidates (ctx.getD s.defaultContext) path path) →
      SelectionLaw s c k path ctx) : c.requestPath = ascii "/" ↔ path = ascii "/" := by
  -- a name for the root that no path of the request can stand for
  obtain ⟨index, other, short⟩ : ∃ index : Bytes, index ≠ path ∧ index.length = 1 := by
    by_cases taken : path = ascii "a"
    · exact ⟨ascii "b", by rw [taken]; decide, rfl⟩
    · exact ⟨ascii "a", Ne.symm taken, rfl⟩
  have tried (reqPath : Bytes) : candidates (rootContext index) reqPath path =
      [ascii "/" ++ if reqPath = ascii "/" then index else path] := by
    simp only [candidates, rootContext]
    split <;> rfl
  have slash : (ascii "/").length = 1 := rfl
  have large : pathMax = 4096 := rfl
  have wrong {name wanted : Bytes} (differ : name ≠ wanted)
      (code : candidates (rootContext index) c.requestPath path = [ascii "/" ++ name])
      (claim : candidates (rootContext index) path path = [ascii "/" ++ wanted])
      (fits : name.length < 4000) : False := by
    have law := law (.having [ascii "/" ++ name]) (some (rootContext index)) (having_accessible _ _)
    have ends := handleStaticPath_chosen s (.having [ascii "/" ++ name]) path
      (some (rootContext index)) allowed
    have regular := @tryPaths_regular c (Kernel.having [ascii "/" ++ name]).staleErrno.2
      (Kernel.having [ascii "/" ++ name]).staleErrno.1 (ascii "/" ++ name) []
      { isReg := true, size := 0, size_lt := by decide, mtime := 0 }
      (by simp only [List.length_append, slash]; omega)
      (by simp [Kernel.staleErrno, Kernel.having]) rfl
    have chosen : pathChoice s c (.having [ascii "/" ++ name]) path (some (rootContext index)) = _ :=
      (congrArg (tryPaths c _ _) code).trans regular
    simp only [chosen] at ends
    have status : ServedStatus (handleStaticPath s c (.having [ascii "/" ++ name]) path
        (some (rootContext index))).client.ta.resp.status := by
      rw [ends]
      exact pathSet_status
    have missing := law.missing
    have long := law.long
    simp only [Option.getD_some, claim] at missing long
    rcases Nat.lt_or_ge (ascii "/" ++ wanted).length pathMax with short | tooLong
    · apply status.1
      apply missing.mpr
      rw [firstFile_lacking (by simp [Ne.symm differ]) short]
      rfl
    · apply status.2
      apply long.mpr
      rw [firstFile, if_pos tooLong]
  by_contra differ
  by_cases root : path = ascii "/"
  · have asked : c.requestPath ≠ ascii "/" := by
      intro asked
      exact differ (iff_of_true asked root)
    apply wrong (Ne.symm other)
    · rw [tried, if_neg asked]
    · rw [tried, if_pos root]
    · rw [root, slash]
      decide
  · have asked : c.requestPath = ascii "/" := by
      by_contra asked
      exact differ (iff_of_false asked root)
    apply wrong other
    · rw [tried, if_pos asked]
    · rw [tried, if_neg root]
    · rw [short]
      decide

def fallbackContext (fallback : Bytes) : RequestContext :=
  { root := [], rootFallback := none, fallback := some fallback, useHttpAppendFallback := false }

theorem unset_of_law (allowed : c.ta.req.method = .get ∨ c.ta.req.method = .head)
    (law : ∀ k ctx, Accessible k (candidates (ctx.getD s.defaultContext) path path) →
      SelectionLaw s c k path ctx) :
    c.ta.resp.status = .xRespStatusUnset ∨ TooLongAnywhere path := by
  by_contra neither
  rw [not_or] at neither
  obtain ⟨set, short⟩ := neither
  obtain ⟨generic, other, length⟩ : ∃ generic : Bytes, generic ≠ path ∧ generic.length = 1 := by
    by_cases taken : path = ascii "a"
    · exact ⟨ascii "b", by rw [taken]; decide, rfl⟩
    · exact ⟨ascii "a", Ne.symm taken, rfl⟩
  have slash : (ascii "/").length = 1 := rfl
  have large : pathMax = 4096 := rfl
  have tried (reqPath : Bytes) : candidates (fallbackContext generic) reqPath path =
      [ascii "/" ++ path, ascii "/" ++ generic] := rfl
  have near : (ascii "/" ++ path).length < pathMax := by
    unfold TooLongAnywhere at short
    simp only [List.length_append, slash]
    omega
  have behind : (ascii "/" ++ generic).length < pathMax := by
    simp only [List.length_append, slash]
    omega
  -- whatever other files there are, the search ends at the first name
  have stops (paths : List Bytes) (missing : ascii "/" ++ path ∉ paths) :
      (handleStaticPath s c (.having paths) path (some (fallbackContext generic))).client.ta.resp.status =
        c.ta.resp.status := by
    have ends := handleStaticPath_chosen s (.having paths) path (some (fallbackContext generic)) allowed
    have first := @tryPaths_missed c (Kernel.having paths).staleErrno.2
      (Kernel.having paths).staleErrno.1 (ascii "/" ++ path) [ascii "/" ++ generic] (.other 2) near
      (by simp [missed, Kernel.staleErrno, Kernel.having, missing])
    rw [if_neg nofun, if_pos set, ← tried c.requestPath] at first
    change pathChoice s c (.having paths) path (some (fallbackContext generic)) = _ at first
    simp only [first] at ends
    rw [ends]
  have given := (law (.having [ascii "/" ++ generic]) (some (fallbackContext generic))
    (having_accessible _ _)).missing
  have none := (law (.having []) (some (fallbackContext generic)) (having_accessible _ _)).missing
  simp only [Option.getD_some, tried] at given none
  rw [stops _ (by simp [Ne.symm other]), firstFile_lacking (by simp [Ne.symm other]) near] at given
  rw [stops _ (by simp), firstFile_lacking (by simp) near, firstFile_lacking (by simp) behind] at none
  obtain ⟨st, found⟩ := @firstFile_having [ascii "/" ++ generic] [] 1 (ascii "/" ++ generic)
    (List.mem_singleton_self _) behind
  cases found.symm.trans (given.mp (none.mpr rfl))

/-- A request for a file gets the one that the path and the context tell, under every context and in
every state of the files, exactly if no status has been set before (or the path is too long to matter) and
the request is for "/" exactly if the path is. The condition is exact over all of them together: under one
context, such as one without a fallback for the root, the file can be the right one without it. -/
theorem static_selection_iff (allowed : c.ta.req.method = .get ∨ c.ta.req.method = .head) :
    (∀ k ctx, Accessible k (candidates (ctx.getD s.defaultContext) path path) →
      SelectionLaw s c k path ctx) ↔
    (c.ta.resp.status = .xRespStatusUnset ∨ TooLongAnywhere path) ∧
      (c.requestPath = ascii "/" ↔ path = ascii "/") := by
  constructor
  · intro law
    exact ⟨unset_of_law allowed law, same_root_of_law allowed law⟩
  · rintro ⟨unset, same⟩ k ctx accessible
    exact selection_holds allowed unset same accessible

end Law

def rootRequest : Client :=
  { createClientStruct Blocks.zeroed with
    reqHeaders := ascii "/" ++ List.replicate (httpBufsz - 1) 0
    ta := { state := .serve, req := { method := .get, path := some 0 } } }

theorem static_selection_iff_root :
    (∀ k ctx, Accessible k (candidates (ctx.getD rootServer.defaultContext) (ascii "/") (ascii "/")) →
      SelectionLaw rootServer rootRequest k (ascii "/") ctx) ↔
    (rootRequest.ta.resp.status = .xRespStatusUnset ∨ TooLongAnywhere (ascii "/")) ∧
      (rootRequest.requestPath = ascii "/" ↔ ascii "/" = ascii "/") :=
  static_selection_iff (.inl rfl)

/-- A handler for "/" that asks for the file "b" under a context with a fallback for the root:
the fallback is tried in place of the file, which is there. -/
theorem root_fallback_hides_file :
    (handleStaticPath rootServer rootRequest (.having [ascii "/b"]) (ascii "b")
      (some (rootContext (ascii "i")))).client.ta.resp.status = .http404NotFound ∧
    Accessible (.having [ascii "/b"])
      (candidates (rootContext (ascii "i")) (ascii "b") (ascii "b")) ∧
    ¬ SelectionLaw rootServer rootRequest (.having [ascii "/b"]) (ascii "b")
      (some (rootContext (ascii "i"))) := by
  have status : (handleStaticPath rootServer rootRequest (.having [ascii "/b"]) (ascii "b")
      (some (rootContext (ascii "i")))).client.ta.resp.status = .http404NotFound := by
    decide +kernel
  refine ⟨status, having_accessible _ _, ?_⟩
  intro law
  obtain ⟨st, found⟩ := @firstFile_having [ascii "/b"] [] 0 (ascii "/b")
    (List.mem_singleton_self _) (by decide)
  cases found.symm.trans (law.missing.mp status)

section Errno

def Kernel.withErrno (k : Kernel) (errno : Errno) : Kernel := { k with errnos := errno :: k.errnos }

def PathChoice.file? : PathChoice → Option Bytes
  | pathSet fname _ _ _ _ => some fname
  | stop .. => none

def chosenFile (s : Server) (c : Client) (k : Kernel) (path : Bytes) (ctx : Option RequestContext) :
    Option Bytes :=
  if c.ta.req.method.bits &&& HttpMethod.get.bits = 0 then none
  else (pathChoice s c k path ctx).file?

/-- Static serving ends with the same status and the same file for any two values of errno. -/
def ErrnoIrrelevant (s : Server) (c : Client) (k : Kernel) (path : Bytes)
    (ctx : Option RequestContext) : Prop :=
  ∀ e e', (handleStaticPath s c (k.withErrno e) path ctx).client.ta.resp.status =
      (handleStaticPath s c (k.withErrno e') path ctx).client.ta.resp.status ∧
    chosenFile s c (k.withErrno e) path ctx = chosenFile s c (k.withErrno e') path ctx

/-- Of these names, one that stat fails for with EACCES comes in front of every regular file and
of every name that is too long. -/
def Denied (fs : Nat → FileSystem) (clock : Nat) : List Bytes → Prop
  | [] => False
  | fname :: rest => fname.length < pathMax ∧
    match (fs clock).stat fname with
    | .ok st => st.isReg = false ∧ Denied fs (clock + 1) rest
    | .error e => e = .eacces ∨ Denied fs (clock + 1) rest

/-- The first candidate is not something else than a regular file, such as a directory, unless
the request ends with 403 in any case. -/
def NoDirectory (c : Client) (k : Kernel) : List Bytes → Prop
  | [] => True
  | fname :: rest => ∀ st, fname.length < pathMax → (k.fs k.clock).stat fname = .ok st →
    st.isReg = false →
      if c.ta.resp.status = .xRespStatusUnset then Denied k.fs (k.clock + 1) rest
      else c.ta.resp.status = .http403PermissionDenied

variable {s : Server} {c : Client} {k : Kernel} {path : Bytes} {ctx : Option RequestContext}

theorem tryPaths_denied (unset : c.ta.resp.status = .xRespStatusUnset) (paths : List Bytes)
    (k : Kernel) (errno : Errno) (clean : errno ≠ .eacces) :
    (∃ k' e, tryPaths c k errno paths = .stop (c.setStatus .http403PermissionDenied) k' e) ↔
      Denied k.fs k.clock paths := by
  induction paths generalizing k errno with
  | nil => simp [tryPaths, Denied, Client.setStatus]
  | cons fname rest ih =>
    rcases Nat.lt_or_ge fname.length pathMax with short | long
    · simp only [Denied, short, true_and]
      have later (e : Errno) (clean : e ≠ .eacces) (missing : missed k errno fname = some e) :
          (∃ k' e, tryPaths c k errno (fname :: rest) =
              .stop (c.setStatus .http403PermissionDenied) k' e) ↔
            Denied k.fs (k.clock + 1) rest := by
        rw [tryPaths_missed short missing, if_neg clean, if_neg (not_not.mpr unset)]
        exact ih { k with clock := k.clock + 1 } e clean
      cases looked : (k.fs k.clock).stat fname with
      | error e =>
        simp only
        have missing : missed k errno fname = some e := by simp only [missed, looked]
        by_cases denied : e = .eacces
        · rw [tryPaths_missed short missing, if_pos denied]
          exact iff_of_true ⟨_, _, rfl⟩ (.inl denied)
        · rw [later e denied missing]
          simp [denied]
      | ok st =>
        simp only
        cases regular : st.isReg with
        | true =>
          rw [tryPaths_regular short looked regular]
          simp
        | false =>
          rw [later errno clean (by simp [missed, looked, regular])]
          simp
    · rw [tryPaths_long long]
      simp [Denied, Nat.not_lt.mpr long, Client.setStatus]

theorem describeFile_errno (lib : TimeLib) (c : Client) (k : Kernel) (e e' : Errno) (fname : Bytes)
    (st : Stat) : (describeFile lib c k e fname st).client = (describeFile lib c k e' fname st).client := by
  rw [describeFile_eq, describeFile_eq]
  cases fileEnd lib (c.wholeFile st) fname st <;> rfl

theorem pathSet_errno (lib : TimeLib) (c : Client) (k : Kernel) (e e' : Errno) (fname : Bytes)
    (st : Stat) : (pathSet lib c k e fname st).client = (pathSet lib c k e' fname st).client := by
  rw [pathSet_eq, pathSet_eq]
  split
  · split
    · rfl
    · apply describeFile_errno
  · apply describeFile_errno

theorem tryPaths_irregular {fname : Bytes} {rest : List Bytes} {st : Stat}
    (short : fname.length < pathMax) (looked : (k.fs k.clock).stat fname = .ok st)
    (irregular : st.isReg = false) (e : Errno) :
    tryPaths c k e (fname :: rest) =
      if e = .eacces then
        .stop (c.setStatus .http403PermissionDenied) { k with clock := k.clock + 1 } e
      else if c.ta.resp.status ≠ .xRespStatusUnset then .stop c { k with clock := k.clock + 1 } e
      else tryPaths c { k with clock := k.clock + 1 } e rest := by
  apply tryPaths_missed short
  simp [missed, looked, irregular]

/-- A directory in the first place, and a 403 in any case. -/
theorem tryPaths_forbidden {fname : Bytes} {rest : List Bytes} {st : Stat}
    (short : fname.length < pathMax) (looked : (k.fs k.clock).stat fname = .ok st)
    (irregular : st.isReg = false) (safe : NoDirectory c k (fname :: rest)) (e : Errno) :
    ∃ c' k' e', tryPaths c k e (fname :: rest) = .stop c' k' e' ∧
      c'.ta.resp.status = .http403PermissionDenied := by
  have safe := safe st short looked irregular
  rw [tryPaths_irregular short looked irregular]
  by_cases denied : e = .eacces
  · rw [if_pos denied]
    exact ⟨_, _, _, rfl, rfl⟩
  · rw [if_neg denied]
    by_cases unset : c.ta.resp.status = .xRespStatusUnset
    · rw [if_neg (not_not.mpr unset)]
      rw [if_pos unset] at safe
      obtain ⟨k', e', ends⟩ := (tryPaths_denied unset rest { k with clock := k.clock + 1 } e
        denied).mpr safe
      exact ⟨_, _, _, ends, rfl⟩
    · rw [if_pos unset]
      rw [if_neg unset] at safe
      exact ⟨_, _, _, rfl, safe⟩

theorem denied_of_forbidden {fname : Bytes} {rest : List Bytes} {st : Stat}
    (short : fname.length < pathMax) (looked : (k.fs k.clock).stat fname = .ok st)
    (irregular : st.isReg = false)
    (ends : ∀ c' k' e', tryPaths c k .zero (fname :: rest) = .stop c' k' e' →
      c'.ta.resp.status = .http403PermissionDenied)
    (stops : (tryPaths c k .zero (fname :: rest)).file? = none) :
    if c.ta.resp.status = .xRespStatusUnset then Denied k.fs (k.clock + 1) rest
    else c.ta.resp.status = .http403PermissionDenied := by
  have search := @tryPaths_irregular c k fname rest st short looked irregular .zero
  rw [if_neg nofun] at search
  rw [search] at ends stops
  split
  · rename_i unset
    rw [if_neg (not_not.mpr unset)] at ends stops
    have spec := tryPaths_spec c { k with clock := k.clock + 1 } .zero rest
    apply (tryPaths_denied unset rest { k with clock := k.clock + 1 } .zero nofun).mp
    revert ends stops spec
    cases tryPaths c { k with clock := k.clock + 1 } .zero rest with
    | pathSet fname st c' k' e => exact fun _ stops => nomatch stops
    | stop c' k' e =>
      rintro ends - ⟨-, status, rfl, -⟩
      have forbidden : status = .http403PermissionDenied := ends _ _ _ rfl
      exact ⟨k', e, by rw [forbidden]⟩
  · rename_i set
    rw [if_pos set] at ends
    exact ends _ _ _ rfl

/-- What errno was on entry makes no difference exactly if the method is refused anyway, or the
first candidate is no directory, unless the answer is 403 anyway. -/
theorem errno_irrelevant_iff : ErrnoIrrelevant s c k path ctx ↔
    c.ta.req.method.bits &&& HttpMethod.get.bits = 0 ∨
      NoDirectory c k (candidates (ctx.getD s.defaultContext) c.requestPath path) := by
  by_cases refused : c.ta.req.method.bits &&& HttpMethod.get.bits = 0
  · apply iff_of_true ?_ (.inl refused)
    intro e e'
    simp [handleStaticPath, chosenFile, refused, Client.setStatus]
  · have allowed : c.ta.req.method = .get ∨ c.ta.req.method = .head := by
      revert refused
      cases c.ta.req.method <;> decide
    simp only [refused, false_or]
    obtain ⟨fname, rest, names⟩ : ∃ fname rest,
        candidates (ctx.getD s.defaultContext) c.requestPath path = fname :: rest := ⟨_, _, rfl⟩
    have choice (e : Errno) : pathChoice s c (k.withErrno e) path ctx =
        tryPaths c k e (fname :: rest) := congrArg (tryPaths c k e) names
    have ends (e : Errno) := handleStaticPath_chosen s (k.withErrno e) path ctx allowed
    simp only [choice] at ends
    simp only [ErrnoIrrelevant, chosenFile, refused, if_false, names, choice, ends]
    constructor
    · intro same st short looked irregular
      obtain ⟨status, file⟩ := same .eacces .zero
      rw [tryPaths_irregular short looked irregular .eacces, if_pos rfl] at status file
      apply denied_of_forbidden short looked irregular
      · intro c' k' e' stop
        rw [stop] at status
        exact status.symm
      · exact file.symm
    · intro safe e e'
      rcases Nat.lt_or_ge fname.length pathMax with short | long
      · cases looked : (k.fs k.clock).stat fname with
        | error e₀ =>
          have missing (e : Errno) : missed k e fname = some e₀ := by simp only [missed, looked]
          rw [tryPaths_missed short (missing e), tryPaths_missed short (missing e')]
          exact ⟨rfl, rfl⟩
        | ok st =>
          cases regular : st.isReg with
          | true =>
            rw [tryPaths_regular short looked regular, tryPaths_regular short looked regular]
            exact ⟨by simp only; rw [pathSet_errno], rfl⟩
          | false =>
            obtain ⟨c₁, k₁, e₁, search, status⟩ := tryPaths_forbidden short looked regular safe e
            obtain ⟨c₂, k₂, e₂, search', status'⟩ := tryPaths_forbidden short looked regular safe e'
            rw [search, search']
            exact ⟨status.trans status'.symm, rfl⟩
      · rw [tryPaths_long long, tryPaths_long long]
        exact ⟨rfl, rfl⟩

end Errno

def onlyDirectories : Kernel where
  fs _ :=
    { stat := fun _ => .ok { isReg := false, size := 0, size_lt := by decide, mtime := 0 }
      openRdonly := fun _ => .error (.other 21) }

/-- A request for a directory: 404, and 403 where an earlier request has left EACCES. -/
theorem stale_errno_shows :
    (handleStaticPath rootServer rootRequest (onlyDirectories.withErrno .zero) (ascii "/")
      none).client.ta.resp.status = .http404NotFound ∧
    (handleStaticPath rootServer rootRequest (onlyDirectories.withErrno .eacces) (ascii "/")
      none).client.ta.resp.status = .http403PermissionDenied ∧
    ¬ ErrnoIrrelevant rootServer rootRequest onlyDirectories (ascii "/") none := by
  have clean : (handleStaticPath rootServer rootRequest (onlyDirectories.withErrno .zero) (ascii "/")
      none).client.ta.resp.status = .http404NotFound := by decide +kernel
  have stale : (handleStaticPath rootServer rootRequest (onlyDirectories.withErrno .eacces) (ascii "/")
      none).client.ta.resp.status = .http403PermissionDenied := by decide +kernel
  refine ⟨clean, stale, ?_⟩
  intro same
  have status := (same .zero .eacces).1
  rw [clean, stale] at status
  cases status

end Kitserv
