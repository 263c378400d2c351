import Kitserv.Holders

namespace Kitserv

section Steps

variable {memory : List (List RawSlot)} {holders : Holders} {s s' : Threads} {a w : Nat}
  {worker worker' : Worker} {fd : Int} {x : Option Holder}

/-- What holds of a worker that has changed and of all of the others. -/
theorem workers_set {P : Nat → List RawSlot → Worker → Prop} (here : s.workers[w]? = some worker)
    (mine : ∀ slots, memory[w]? = some slots → P w slots worker')
    (others : ∀ v slots worker, v ≠ w → memory[v]? = some slots → s.workers[v]? = some worker →
      P v slots worker) (v : Nat) (slots : List RawSlot) (found : Worker)
    (slotsAt : memory[v]? = some slots) (foundAt : (s.workers.set w worker')[v]? = some found) :
    P v slots found := by
  by_cases same : v = w
  · subst same
    obtain ⟨inside, -⟩ := List.getElem?_eq_some_iff.mp here
    rw [List.getElem?_set_self inside] at foundAt
    cases foundAt
    exact mine slots slotsAt
  · rw [List.getElem?_set_ne (Ne.symm same)] at foundAt
    exact others v slots found same slotsAt foundAt

theorem Tracks.hands {thread : AccepterThread} (t : Tracks memory holders s)
    (accepters : s'.accepters = Function.update s.accepters a thread)
    (isOpen : s'.isOpen = Function.update s.isOpen fd x.isSome)
    (mine : ∀ h, holders fd = some h → h = .accepter a ∨ ∃ w i, h = .assigned a w i)
    (old : ∀ fd' w i, s.accepters a = .adding fd' w i → fd' = fd)
    (hand : Hand (Function.update holders fd x) a thread)
    (assigned : ∀ b w i, x = some (.assigned b w i) → b = a ∧ thread = .adding fd w i)
    (size : s'.workers.length = s.workers.length)
    (workers : ∀ w slots worker, memory[w]? = some slots → s'.workers[w]? = some worker →
      WorkerTracks slots.length (endLink slots) (Function.update holders fd x) w worker) :
    Tracks memory (Function.update holders fd x) s' := by
  refine ⟨size.trans t.size, fun fd' => ?_, fun b => ?_, fun fd' b w i here => ?_, workers⟩
  · rw [isOpen]
    by_cases same : fd' = fd
    · subst same
      simp
    · simp [Function.update_of_ne same, t.isOpen]
  · rw [accepters]
    by_cases same : b = a
    · subst same
      rwa [Function.update_self]
    · rw [Function.update_of_ne same]
      refine (t.hand b).frame (fun here => ?_) fun w i here => ?_
      · simpa [same] using mine _ here
      · simpa [same] using mine _ here
  · rw [accepters]
    rcases update_some.mp here with ⟨rfl, new⟩ | ⟨other, before⟩
    · obtain ⟨rfl, thread⟩ := assigned b w i new
      rw [Function.update_self, thread]
    · have adds := t.assigned fd' b w i before
      have same : b ≠ a := by
        rintro rfl
        exact other (old fd' w i adds)
      rw [Function.update_of_ne same, adds]

/-- A step of the worker `w` that moves no socket. -/
theorem Tracks.setWorker (t : Tracks memory holders s) (here : s.workers[w]? = some worker)
    (tracks : ∀ slots, memory[w]? = some slots →
      WorkerTracks slots.length (endLink slots) holders w worker') :
    Tracks memory holders (s.setWorker w worker') := by
  refine ⟨?_, t.isOpen, t.hand, t.assigned, ?_⟩
  · rw [← t.size]
    exact List.length_set
  · exact workers_set (P := fun v slots worker => WorkerTracks slots.length (endLink slots) holders v
      worker) here tracks fun v slots worker _ => t.workers v slots worker

theorem Tracks.moves {i : Nat} (t : Tracks memory holders s) (here : s.workers[w]? = some worker)
    (workers : s'.workers = s.workers.set w worker') (accepters : s'.accepters = s.accepters)
    (isOpen : s'.isOpen = Function.update s.isOpen fd x.isSome)
    (old : holders fd = some (.registered w i) ∨ holders fd = some (.dropped w i))
    (new : x = none ∨ x = some (.dropped w i))
    (tracks : ∀ slots, memory[w]? = some slots →
      WorkerTracks slots.length (endLink slots) (Function.update holders fd x) w worker') :
    Tracks memory (Function.update holders fd x) s' := by
  refine ⟨?_, fun fd' => ?_, fun b => ?_, fun fd' b v j moved => ?_, ?_⟩
  · rw [workers, ← t.size]
    exact List.length_set
  · rw [isOpen]
    by_cases same : fd' = fd
    · subst same
      simp
    · simp [Function.update_of_ne same, t.isOpen]
  · rw [accepters]
    refine (t.hand b).frame ?_ fun v j => ?_
    · rcases old with old | old <;> simp [old]
    · rcases old with old | old <;> simp [old]
  · rw [accepters]
    rcases update_some.mp moved with ⟨-, assigned⟩ | ⟨-, before⟩
    · rcases new with new | new <;> cases new.symm.trans assigned
    · exact t.assigned fd' b v j before
  · rw [workers]
    refine workers_set (P := fun v slots worker => WorkerTracks slots.length (endLink slots)
      (Function.update holders fd x) v worker) here tracks fun v slots found other slotsAt foundAt => ?_
    refine (t.workers v slots found slotsAt foundAt).frame ?_ ?_
    · rintro j ⟨h, held, slot⟩
      rcases old with old | old
      all_goals
        cases old.symm.trans held
        cases slot
        exact other rfl
    · rintro h j rfl slot
      rcases new with new | new
      · cases new
      · cases new
        cases slot
        exact other rfl

def Holders.Whole (holders : Holders) : Prop := ∀ fd w i, holders fd ≠ some (.lost w i)

theorem Holders.Whole.update (h : holders.Whole) (new : ∀ w i, x ≠ some (.lost w i)) :
    Holders.Whole (Function.update holders fd x) := by
  intro fd' w i held
  rcases update_some.mp held with ⟨-, held⟩ | ⟨-, held⟩
  · exact new w i held
  · exact h fd' w i held

/-- The holders after a step, and whether a socket has been lost by it. -/
def Tracked (memory : List (List RawSlot)) (holders : Holders) (s' : Threads) : Prop :=
  ∃ holders', Tracks memory holders' s' ∧ (holders.Whole → holders'.Whole)

theorem Tracks.accept (t : Tracks memory holders s) (h : s.accept a fd = some s') :
    Tracked memory holders s' := by
  unfold Threads.accept at h
  split at h
  · rename_i accepting
    split at h
    · cases h
      exact ⟨holders, t, id⟩
    · split at h
      · cases h
      · rename_i shut
        cases h
        have new : holders fd = none := by
          rw [← Option.not_isSome_iff_eq_none, ← t.isOpen]
          exact shut
        refine ⟨Function.update holders fd (some (.accepter a)), ?_, fun whole => whole.update (by simp)⟩
        refine t.hands rfl rfl (by simp [new]) (by simp [accepting])
          (Function.update_self ..) (by simp) rfl fun w slots worker slotsAt workerAt => ?_
        refine (t.workers w slots worker slotsAt workerAt).frame ?_ ?_
        · rintro i ⟨h, held, -⟩
          cases new.symm.trans held
        · rintro _ i ⟨⟩ ⟨⟩
  · cases h

theorem Tracks.still {h : Holder} (t : Tracks memory holders s) (held : holders fd = some h) :
    s.isOpen = Function.update s.isOpen fd true := by
  have isOpen : s.isOpen fd = true := by rw [t.isOpen, held, Option.isSome_some]
  rw [← isOpen, Function.update_eq_self]

theorem Tracks.keeps {thread : AccepterThread} (t : Tracks memory holders s)
    (held : holders fd = some (.accepter a))
    (accepters : s'.accepters = Function.update s.accepters a thread)
    (isOpen : s'.isOpen = s.isOpen) (workers : s'.workers = s.workers)
    (old : ∀ fd' w i, s.accepters a ≠ .adding fd' w i)
    (hand : Hand holders a thread) : Tracks memory holders s' := by
  have same : Function.update holders fd (some (.accepter a)) = holders := by
    rw [← held]
    exact Function.update_eq_self fd holders
  rw [← same]
  refine t.hands accepters (isOpen.trans (t.still held)) (by simp [held]) (fun fd' w i adds => absurd adds (old fd' w i))
    (by rwa [same]) (by simp) (by rw [workers]) ?_
  rw [same, workers]
  exact t.workers

theorem Tracks.score (t : Tracks memory holders s) (h : s.score a = some s') :
    Tracked memory holders s' := by
  unfold Threads.score at h
  split at h
  · rename_i fd i best bestScore selecting
    have held : holders fd = some (.accepter a) := by
      have hand := t.hand a
      rwa [selecting] at hand
    split at h
    · cases h
    · rename_i worker workerAt
      simp only at h
      split at h
      · cases h
      · split at h
        all_goals
          cases h
          refine ⟨holders, t.keeps held rfl rfl rfl (by simp [selecting]) held, id⟩
  · cases h

theorem Tracks.take (t : Tracks memory holders s) (h : s.take a = some s') :
    Tracked memory holders s' := by
  unfold Threads.take at h
  split at h
  · rename_i fd i victim score selecting
    have held : holders fd = some (.accepter a) := by
      have hand := t.hand a
      rwa [selecting] at hand
    split at h
    · split at h
      · cases h
      · rename_i worker workerAt
        split at h
        · cases h
        · cases h
          exact ⟨holders, t.keeps held rfl rfl rfl (by simp [selecting]) held, id⟩
        · rename_i conn container accepted
          cases h
          refine ⟨Function.update holders fd (some (.assigned a victim conn)), ?_,
            fun whole => whole.update (by simp)⟩
          refine t.hands rfl ?_ (by simp [held]) (by simp [selecting]) (Function.update_self ..)
            (by simp +contextual) List.length_set ?_
          · exact t.still held
          · refine workers_set (P := fun v slots worker => WorkerTracks slots.length (endLink slots)
              (Function.update holders fd (some (.assigned a victim conn))) v worker) workerAt
              (fun slots slotsAt => ?_) fun v slots found other slotsAt foundAt => ?_
            · have tracks := t.workers victim slots worker slotsAt workerAt
              obtain ⟨free, chain⟩ := tracks.chain
              cases free with
              | nil =>
                rw [chain.full] at accepted
                split at accepted <;> cases accepted
              | cons i rest =>
                obtain ⟨container', found, taken⟩ := tracks.take held chain
                cases accepted.symm.trans found
                exact taken
            · refine (t.workers v slots found slotsAt foundAt).frame ?_ ?_
              · rintro j ⟨h, here, slot⟩
                cases held.symm.trans here
                cases slot
              · rintro _ j ⟨⟩ ⟨⟩
                exact other rfl
    · cases h
  · cases h

theorem Tracks.add {ok : Bool} (t : Tracks memory holders s) (h : s.add a ok = some s') :
    ∃ holders', Tracks memory holders' s' ∧ (ok = true → holders.Whole → holders'.Whole) ∧
      (ok = false → ∃ fd w i worker, s'.workers[w]? = some worker ∧ holders' fd = some (.lost w i)) := by
  unfold Threads.add at h
  split at h
  · rename_i fd victim i adding
    have held : holders fd = some (.assigned a victim i) := by
      have hand := t.hand a
      rwa [adding] at hand
    split at h
    · cases h
    · rename_i worker workerAt
      have others {new : Holder} (slot : new.slot = some (victim, i)) (v : Nat) (slots : List RawSlot)
          (found : Worker) (other : v ≠ victim) (slotsAt : memory[v]? = some slots)
          (foundAt : s.workers[v]? = some found) : WorkerTracks slots.length (endLink slots)
            (Function.update holders fd (some new)) v found := by
        refine (t.workers v slots found slotsAt foundAt).frame ?_ ?_
        · rintro j ⟨h, here, slot⟩
          cases held.symm.trans here
          cases slot
          exact other rfl
        · rintro _ j ⟨⟩ here
          cases slot.symm.trans here
          exact other rfl
      cases ok with
      | true =>
        cases h
        refine ⟨Function.update holders fd (some (.registered victim i)), ?_,
          fun _ whole => whole.update (by simp), nofun⟩
        refine t.hands rfl (t.still held) (by simp [held]) (by simp [adding]) trivial (by simp)
          List.length_set ?_
        refine workers_set (P := fun v slots worker => WorkerTracks slots.length (endLink slots)
          (Function.update holders fd (some (.registered victim i))) v worker) workerAt
          (fun slots slotsAt => ?_) (others rfl)
        exact (t.workers victim slots worker slotsAt workerAt).add held (.inl ⟨rfl, rfl⟩)
      | false =>
        cases h
        refine ⟨Function.update holders fd (some (.lost victim i)), ?_, nofun,
          fun _ => ⟨fd, victim, i, worker, workerAt, Function.update_self ..⟩⟩
        refine t.hands rfl (t.still held) (by simp [held]) (by simp [adding]) trivial (by simp) rfl ?_
        intro v slots found slotsAt foundAt
        by_cases same : v = victim
        · subst same
          cases workerAt.symm.trans foundAt
          exact (t.workers v slots worker slotsAt workerAt).add held (.inr ⟨rfl, rfl⟩)
        · exact others rfl v slots found same slotsAt foundAt
  · cases h

theorem Tracks.refuse (t : Tracks memory holders s) (h : s.refuse a = some s') :
    Tracked memory holders s' := by
  unfold Threads.refuse at h
  split at h
  · rename_i fd refusing
    have held : holders fd = some (.accepter a) := by
      have hand := t.hand a
      rwa [refusing] at hand
    cases h
    refine ⟨Function.update holders fd none, ?_, fun whole => whole.update (by simp)⟩
    refine t.hands rfl rfl (by simp [held]) (by simp [refusing]) trivial (by simp) rfl
      fun v slots found slotsAt foundAt => ?_
    refine (t.workers v slots found slotsAt foundAt).frame ?_ ?_
    · rintro j ⟨h, here, slot⟩
      cases held.symm.trans here
      cases slot
    · rintro _ j ⟨⟩
  · cases h

theorem Tracks.slots (t : Tracks memory holders s) (here : s.workers[w]? = some worker) :
    ∃ slots, memory[w]? = some slots := by
  obtain ⟨inside, -⟩ := List.getElem?_eq_some_iff.mp here
  rw [t.size] at inside
  exact ⟨_, List.getElem?_eq_getElem inside⟩

theorem Tracks.wait {ready : List Int} (t : Tracks memory holders s)
    (h : s.wait w ready = some s') : Tracked memory holders s' := by
  unfold Threads.wait at h
  split at h
  · cases h
  · rename_i worker workerAt
    split at h
    · rename_i idle
      split at h
      · rename_i registered
        obtain ⟨-, distinct, -⟩ := registered
        cases h
        refine ⟨holders, t.setWorker workerAt fun slots slotsAt => ?_, id⟩
        have tracks := t.workers w slots worker slotsAt workerAt
        refine tracks.serving (by simp [idle]) (by simp) ?_ fun i member => ?_
        · refine List.Nodup.filterMap (fun fd fd' i first second => ?_) distinct
          exact tracks.same_socket ⟨_, (tracks.queue fd i).mp first, rfl⟩
            ⟨_, (tracks.queue fd' i).mp second, rfl⟩
        · obtain ⟨fd, -, here⟩ := List.mem_filterMap.mp member
          exact ⟨fd, (tracks.queue fd i).mp here⟩
      · cases h
    · cases h

theorem Tracks.serve {client : Client} {rc : Int} (t : Tracks memory holders s)
    (h : s.serve w client rc = some s') : Tracked memory holders s' := by
  unfold Threads.serve at h
  split at h
  · cases h
  · rename_i worker workerAt
    split at h
    · rename_i i events busy
      split at h
      · cases h
      · rename_i conn slot
        cases h
        refine ⟨holders, t.setWorker workerAt fun slots slotsAt => ?_, id⟩
        have tracks := t.workers w slots worker slotsAt workerAt
        have once := tracks.once
        have pending := tracks.pending
        rw [busy] at once pending
        obtain ⟨fd, held⟩ := pending i (List.mem_cons_self ..)
        refine (tracks.serve client ⟨_, held, rfl⟩ slot).serving (by simp [busy]) ?_ ?_ ?_
        · split <;> simp
        · split
          · exact once
          · exact once.of_cons
        · split
          · exact pending
          · exact fun j member => pending j (List.mem_cons_of_mem _ member)
    · cases h

theorem Tracks.remove (t : Tracks memory holders s) (h : s.remove w = some s') :
    Tracked memory holders s' := by
  unfold Threads.remove at h
  split at h
  · cases h
  · rename_i worker workerAt
    split at h
    · rename_i i events busy
      split at h
      · cases h
      · rename_i conn slot
        cases h
        obtain ⟨slots, slotsAt⟩ := t.slots workerAt
        have tracks := t.workers w slots worker slotsAt workerAt
        obtain ⟨fd, held⟩ := tracks.pending i (by simp [busy, WorkerThread.pending])
        obtain ⟨conn', slot', same⟩ := tracks.sock fd i ⟨_, held, rfl⟩
        cases slot.symm.trans slot'
        rw [same]
        refine ⟨Function.update holders fd (some (.dropped w i)), ?_, fun whole => whole.update (by simp)⟩
        refine t.moves workerAt rfl rfl (t.still held) (.inl held) (.inr rfl) fun slots' slotsAt' => ?_
        cases slotsAt.symm.trans slotsAt'
        exact tracks.remove busy held
    · cases h

theorem Tracks.close (t : Tracks memory holders s) (h : s.close w = some s') :
    Tracked memory holders s' := by
  unfold Threads.close at h
  split at h
  · cases h
  · rename_i worker workerAt
    split at h
    · rename_i i events busy
      split at h
      · cases h
      · rename_i conn slot
        cases h
        obtain ⟨slots, slotsAt⟩ := t.slots workerAt
        have tracks := t.workers w slots worker slotsAt workerAt
        obtain ⟨fd, held⟩ := tracks.closing i events busy
        obtain ⟨conn', slot', same⟩ := tracks.sock fd i ⟨_, held, rfl⟩
        cases slot.symm.trans slot'
        rw [same]
        refine ⟨Function.update holders fd none, ?_, fun whole => whole.update (by simp)⟩
        refine t.moves workerAt rfl rfl rfl (.inr held) (.inl rfl) fun slots' slotsAt' => ?_
        cases slotsAt.symm.trans slotsAt'
        exact tracks.close busy held
    · cases h

theorem Tracks.release {k : Kernel} (t : Tracks memory holders s) (h : s.release w k = some s') :
    Tracked memory holders s' := by
  unfold Threads.release at h
  split at h
  · cases h
  · rename_i worker workerAt
    split at h
    · rename_i i events busy
      split at h
      · cases h
      · rename_i container k' closed
        cases h
        exact ⟨holders, t.setWorker workerAt fun slots slotsAt =>
          (t.workers w slots worker slotsAt workerAt).release busy closed, id⟩
    · cases h

theorem Tracks.step {action : Action} (t : Tracks memory holders s) (h : s.step action = some s') :
    ∃ holders', Tracks memory holders' s' ∧
      ((∀ a, action ≠ .add a false) → holders.Whole → holders'.Whole) := by
  have any (tracked : Tracked memory holders s') : ∃ holders', Tracks memory holders' s' ∧
      ((∀ a, action ≠ .add a false) → holders.Whole → holders'.Whole) := by
    obtain ⟨holders', tracks, whole⟩ := tracked
    exact ⟨holders', tracks, fun _ => whole⟩
  cases action with
  | accept a fd => exact any (t.accept h)
  | score a => exact any (t.score h)
  | take a => exact any (t.take h)
  | add a ok =>
    obtain ⟨holders', tracks, whole, -⟩ := t.add h
    refine ⟨holders', tracks, fun registers => whole ?_⟩
    cases ok with
    | true => rfl
    | false => exact absurd rfl (registers a)
  | refuse a => exact any (t.refuse h)
  | wait w ready => exact any (t.wait h)
  | serve w client rc => exact any (t.serve h)
  | remove w => exact any (t.remove h)
  | close w => exact any (t.close h)
  | release w k => exact any (t.release h)

theorem Tracks.start (memory : List (List RawSlot)) :
    Tracks memory (fun _ => none) (Threads.start memory) := by
  refine ⟨List.length_map .., fun fd => rfl, fun a => trivial, by simp, fun w slots worker slotsAt found => ?_⟩
  simp only [Threads.start, List.getElem?_map, slotsAt, Option.map_some, Option.some.injEq] at found
  subst found
  have nobody (fd : Int) (i : Nat) : ¬ Holders.At (fun _ => none) fd w i := by
    rintro ⟨h, ⟨⟩, -⟩
  refine ⟨by simp, List.nodup_nil, by simp [WorkerThread.pending], by simp, by simp, by simp,
    fun fd i here => absurd here (nobody fd i), _, (connectionInit_chain slots).congr fun i => ?_⟩
  simp [UsedSlot, nobody]

end Steps

theorem run_tracked {memory : List (List RawSlot)} {actions : List Action} {s : Threads}
    (run : Monitor.run Threads.step (.start memory) actions = some s) :
    ∃ holders, Tracks memory holders s := by
  have keep (s : Threads) (action : Action) (s' : Threads) (tracked : ∃ holders, Tracks memory holders s)
      (_ : True) (step : s.step action = some s') : ∃ holders, Tracks memory holders s' := by
    obtain ⟨holders, tracks⟩ := tracked
    obtain ⟨holders', tracks', -⟩ := tracks.step step
    exact ⟨holders', tracks'⟩
  have start : ∃ holders, Tracks memory holders (.start memory) := ⟨_, Tracks.start memory⟩
  obtain ⟨holders, tracks⟩ := Monitor.run_keeps keep start run fun _ _ => trivial
  exact ⟨holders, tracks⟩

end Kitserv
