import Kitserv.StaticResponse

namespace Kitserv

section Kernels

variable {k k' k'' : Kernel} {e e' : Errno}

structure Kernel.Calm (k k' : Kernel) : Prop where
  fs : k'.fs = k.fs
  errnos : k'.errnos = k.errnos
  clock : k'.clock = k.clock

theorem Kernel.Calm.trans (h : k.Calm k') (h' : k'.Calm k'') : k.Calm k'' :=
  ⟨h'.fs.trans h.fs, h'.errnos.trans h.errnos, h'.clock.trans h.clock⟩

theorem closeFdToZero_calm (k : Kernel) (fd : Int) : k.Calm (k.closeFdToZero fd).2 := by
  unfold Kernel.closeFdToZero
  split <;> exact ⟨rfl, rfl, rfl⟩

structure SameStats (k k' : Kernel) : Prop where
  clock : k'.clock = k.clock
  stat : ∀ t path, (k'.fs t).stat path = (k.fs t).stat path

theorem SameStats.congr {l l' : Kernel} (stats : SameStats k k') (clock : l'.clock = l.clock)
    (fs : l.fs = k.fs) (fs' : l'.fs = k'.fs) : SameStats l l' := by
  refine ⟨clock, ?_⟩
  rw [fs, fs']
  exact stats.stat

def Errno.Alike (e e' : Errno) : Prop := e' = .eacces ↔ e = .eacces

def PathChoice.Alike (k k' : Kernel) (choice choice' : PathChoice) : Prop :=
  match choice, choice' with
  | .pathSet fname st c l _, .pathSet fname' st' c' l' _ =>
    fname' = fname ∧ st' = st ∧ c' = c ∧ l'.clock = l.clock ∧ l.fs = k.fs ∧ l'.fs = k'.fs
  | .stop c _ _, .stop c' _ _ => c' = c
  | _, _ => False

theorem PathChoice.Alike.congr {l l' : Kernel} {choice choice' : PathChoice}
    (alike : PathChoice.Alike l l' choice choice') (fs : l.fs = k.fs) (fs' : l'.fs = k'.fs) :
    PathChoice.Alike k k' choice choice' := by
  cases choice with
  | stop =>
    cases choice' with
    | stop => exact alike
    | pathSet => exact alike
  | pathSet =>
    cases choice' with
    | stop => exact alike
    | pathSet =>
      obtain ⟨name, st, client, clock, same, same'⟩ := alike
      exact ⟨name, st, client, clock, same.trans fs, same'.trans fs'⟩

end Kernels

section Search

variable {c : Client} {k k' : Kernel} {e e' : Errno}

theorem verifyStaticPath_alike (stats : SameStats k k') (alike : Errno.Alike e e') (path : Bytes) :
    (verifyStaticPath c k' e' path).stat = (verifyStaticPath c k e path).stat ∧
    (verifyStaticPath c k' e' path).client = (verifyStaticPath c k e path).client ∧
    (verifyStaticPath c k' e' path).kernel.clock = (verifyStaticPath c k e path).kernel.clock ∧
    Errno.Alike (verifyStaticPath c k e path).errno (verifyStaticPath c k' e' path).errno := by
  have stat := stats.stat k.clock path
  simp only [verifyStaticPath, Kernel.stat, stats.clock, stat]
  split
  · exact ⟨rfl, rfl, stats.clock, Iff.rfl⟩
  cases (k.fs k.clock).stat path with
  | error err => exact ⟨rfl, rfl, rfl, Iff.rfl⟩
  | ok st =>
    simp only
    split
    · exact ⟨rfl, rfl, rfl, alike⟩
    · refine ⟨rfl, ?_, rfl, alike⟩
      simp only
      by_cases denied : e = .eacces
      · rw [if_pos denied, if_pos (alike.mpr denied)]
      · rw [if_neg denied, if_neg fun denied' => denied (alike.mp denied')]

theorem tryPaths_alike (stats : SameStats k k') (alike : Errno.Alike e e') (paths : List Bytes) :
    PathChoice.Alike k k' (tryPaths c k e paths) (tryPaths c k' e' paths) := by
  induction paths generalizing c k k' e e' with
  | nil => exact rfl
  | cons path rest ih =>
    obtain ⟨stat, client, clock, alike'⟩ := verifyStaticPath_alike (c := c) stats alike path
    have fs : (verifyStaticPath c k e path).kernel.fs = k.fs := by
      rw [(verifyStaticPath_spec c k e path).1.same]
    have fs' : (verifyStaticPath c k' e' path).kernel.fs = k'.fs := by
      rw [(verifyStaticPath_spec c k' e' path).1.same]
    simp only [tryPaths, stat, client]
    split
    · exact ⟨rfl, rfl, rfl, clock, fs, fs'⟩
    split
    · exact rfl
    · exact (ih (stats.congr clock fs fs') alike').congr fs fs'

end Search

section Serving

variable {lib : TimeLib} {s : Server} {c : Client} {k k' : Kernel} {e e' : Errno} {fname : Bytes}
  {st : Stat}

theorem describeFile_calm : k.Calm (describeFile lib c k e fname st).kernel := by
  rw [describeFile_eq]
  cases fileEnd lib (c.wholeFile st) fname st with
  | error r => exact closeFdToZero_calm ..
  | unmodified r => exact closeFdToZero_calm ..
  | full r => exact ⟨rfl, rfl, rfl⟩

theorem closeFdToZero_fd (k k' : Kernel) (fd : Int) :
    (k'.closeFdToZero fd).1 = (k.closeFdToZero fd).1 := by
  unfold Kernel.closeFdToZero
  split <;> rfl

theorem describeFile_client : (describeFile lib c k' e' fname st).client =
    (describeFile lib c k e fname st).client := by
  rw [describeFile_eq, describeFile_eq]
  cases fileEnd lib (c.wholeFile st) fname st with
  | error r => simp only [errClosefd, closeFdToZero_fd k k']
  | unmodified r => simp only [notModified, closeFdToZero_fd k k']
  | full r => rfl

/-- The clock goes on with the open of a GET. -/
theorem pathSet_clock (get : c.ta.req.method = .get) :
    (pathSet lib c k e fname st).kernel.clock = k.clock + 1 := by
  rw [pathSet_eq, if_pos get]
  simp only [Kernel.openRdonly]
  cases (k.fs k.clock).openRdonly fname with
  | error err => rfl
  | ok fd => exact describeFile_calm.clock

theorem pathSet_alike (clock : k'.clock = k.clock) (opens : c.ta.req.method = .get →
      (k'.fs k.clock).openRdonly fname = (k.fs k.clock).openRdonly fname) :
    (pathSet lib c k' e' fname st).client = (pathSet lib c k e fname st).client := by
  rw [pathSet_eq, pathSet_eq]
  split
  · rename_i get
    simp only [Kernel.openRdonly, clock, opens get]
    cases (k.fs k.clock).openRdonly fname with
    | error err => rfl
    | ok fd => exact describeFile_client
  · exact describeFile_client

theorem pathSet_errnos : (pathSet lib c k e fname st).kernel.errnos = k.errnos := by
  rw [pathSet_eq]
  split
  · simp only [Kernel.openRdonly]
    cases (k.fs k.clock).openRdonly fname with
    | error err => rfl
    | ok fd => exact describeFile_calm.errnos
  · exact describeFile_calm.errnos

theorem handleStaticPath_errnos {path : Bytes} {ctx : Option RequestContext} :
    (handleStaticPath s c k path ctx).kernel.errnos ⊆ k.errnos := by
  simp only [handleStaticPath]
  split
  · exact List.Subset.refl _
  have choice := tryPaths_spec c k.staleErrno.2 k.staleErrno.1 (candidates (ctx.getD s.defaultContext)
    ((c.ta.req.path.map (cString c.reqHeaders)).getD []) path)
  revert choice
  cases tryPaths c k.staleErrno.2 k.staleErrno.1 (candidates (ctx.getD s.defaultContext)
    ((c.ta.req.path.map (cString c.reqHeaders)).getD []) path) with
  | stop r l err =>
    rintro ⟨searched, -⟩
    have errnos : l.errnos = k.errnos.tail := by rw [searched.same]; rfl
    exact errnos ▸ (List.tail_sublist k.errnos).subset
  | pathSet fname st r l err =>
    rintro ⟨searched, -⟩
    have errnos : l.errnos = k.errnos.tail := by rw [searched.same]; rfl
    simp only [pathSet_errnos, errnos]
    exact (List.tail_sublist k.errnos).subset

/-- Static serving leaves the same client, where it finds the same file and opens the same one. -/
theorem handleStaticPath_alike {path : Bytes} {ctx : Option RequestContext} (stats : SameStats k k')
    (alike : Errno.Alike (k.errnos.headD .zero) (k'.errnos.headD .zero))
    (opens : ∀ fname, (k'.fs ((handleStaticPath s c k path ctx).kernel.clock - 1)).openRdonly fname =
      (k.fs ((handleStaticPath s c k path ctx).kernel.clock - 1)).openRdonly fname) :
    (handleStaticPath s c k' path ctx).client = (handleStaticPath s c k path ctx).client := by
  have looked : SameStats k.staleErrno.2 k'.staleErrno.2 := ⟨stats.clock, stats.stat⟩
  have stale : Errno.Alike k.staleErrno.1 k'.staleErrno.1 := alike
  have choice := tryPaths_alike (c := c) looked stale (candidates (ctx.getD s.defaultContext)
    ((c.ta.req.path.map (cString c.reqHeaders)).getD []) path)
  simp only [handleStaticPath] at opens ⊢
  split
  · rfl
  rename_i allowed
  rw [if_neg allowed] at opens
  revert choice opens
  generalize tryPaths c k.staleErrno.2 k.staleErrno.1 (candidates (ctx.getD s.defaultContext)
    ((c.ta.req.path.map (cString c.reqHeaders)).getD []) path) = found
  generalize tryPaths c k'.staleErrno.2 k'.staleErrno.1 (candidates (ctx.getD s.defaultContext)
    ((c.ta.req.path.map (cString c.reqHeaders)).getD []) path) = found'
  cases found with
  | stop r l err =>
    cases found' with
    | stop r' l' err' => exact fun same _ => same
    | pathSet => exact fun other => other.elim
  | pathSet fname st r l err =>
    cases found' with
    | stop => exact fun other => other.elim
    | pathSet fname' st' r' l' err' =>
      rintro ⟨rfl, rfl, rfl, clock, fs, fs'⟩ opens
      refine pathSet_alike clock fun get => ?_
      have same := opens fname'
      rw [pathSet_clock get, Nat.add_sub_cancel] at same
      rw [fs, fs']
      exact same

end Serving

/-- The kernel shows the files of `files` at any time, and a descriptor that open has given out has at
the next time the content that `held` gives to the file. -/
structure Mounted (files : FileSystem) (held : Int → Bytes) (content : Nat → Int → Bytes)
    (fs : Nat → FileSystem) : Prop where
  stat : ∀ t path, (fs t).stat path = files.stat path
  opens : ∀ t path, SameOpen held (content t) (files.openRdonly path) ((fs (t - 1)).openRdonly path)

section Mounted

variable {files : FileSystem} {held : Int → Bytes} {content : Nat → Int → Bytes} {s : Server}
  {c c' : Client} {k : Kernel}

/-- A request that is served under a file system that stays the same is served as on that file system. -/
theorem serveStatic_mounted (mounted : Mounted files held content k.fs)
    (calm : k.errnos.headD .zero ≠ .eacces)
    (twins : Twins held (content (serveStatic s c' k).kernel.clock) c c') :
    Twins held (content (serveStatic s c' k).kernel.clock)
      (serveStatic s c { fs := fun _ => files }).client (serveStatic s c' k).client := by
  -- the kernel at the time of the open
  let still : Kernel := { k with
    fs := fun _ => { files with
      openRdonly := (k.fs ((serveStatic s c' k).kernel.clock - 1)).openRdonly }
    errnos := [] }
  have alike : (serveStatic s c' still).client = (serveStatic s c' k).client := by
    have same := @handleStaticPath_alike s c' k still
      ((c'.ta.req.path.map (cString c'.reqHeaders)).getD []) none
      ⟨rfl, fun t path => (mounted.stat t path).symm⟩ (iff_of_false nofun calm) fun _ => rfl
    simp only [serveStatic, serveCont, same]
  have same : SameFiles held (content (serveStatic s c' k).kernel.clock) { fs := fun _ => files } still :=
    ⟨fun _ _ _ => rfl, fun _ _ path => mounted.opens _ path⟩
  rw [← alike]
  exact serveStatic_twins twins same rfl s

end Mounted

end Kitserv
