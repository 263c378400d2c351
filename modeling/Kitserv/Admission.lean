import Kitserv.HolderSteps
import Mathlib

namespace Kitserv

open LinkedList

def notesSince (p : Note → Bool) (log : List Note) : List Note := log.rtakeWhile fun n => !p n

def Note.acceptedBy (a : Nat) : Note → Bool
  | accepted b _ => b == a
  | _ => false

def Note.scoredBy (a w : Nat) : Note → Bool
  | scored b v _ => b == a && v == w
  | _ => false

def Note.tookFrom (w : Nat) : Note → Bool
  | took _ v (some _) => v == w
  | _ => false

def scoresOf (a : Nat) (log : List Note) : List Note := notesSince (Note.acceptedBy a) log

def takenSince (a w : Nat) (log : List Note) : Nat :=
  (notesSince (Note.scoredBy a w) log).countP (Note.tookFrom w)

theorem notesSince_concat (p : Note → Bool) (log : List Note) (n : Note) :
    notesSince p (log ++ [n]) = if p n then [] else notesSince p log ++ [n] := by
  rw [notesSince, List.rtakeWhile_concat]
  cases p n <;> rfl

theorem takenSince_concat {a w : Nat} (log : List Note) {n : Note}
    (other : n.scoredBy a w = false) :
    takenSince a w (log ++ [n]) = takenSince a w log + if n.tookFrom w then 1 else 0 := by
  rw [takenSince, notesSince_concat, if_neg (by simp [other]), List.countP_append, List.countP_singleton]
  rfl

inductive Change (s s' : Threads) : Prop where
  | accepted {a : Nat} {fd : Int}
      (accepters : s'.accepters = Function.update s.accepters a (.selecting fd 0 none (-1)))
      (log : s'.log = s.log ++ [.accepted a fd]) (workers : s'.workers = s.workers)
  | scored {a i : Nat} {fd score : Int} {best : Option Nat} {worker : Worker}
      (before : s.accepters a = .selecting fd i best score) (found : s.workers[i]? = some worker)
      (accepters : s'.accepters = Function.update s.accepters a (.selecting fd (i + 1)
        (if worker.container.freelistCount > score then some i else best)
        (max score worker.container.freelistCount)))
      (log : s'.log = s.log ++ [.scored a i worker.container.freelistCount])
      (workers : s'.workers = s.workers)
  | took {a victim conn : Nat} {fd : Int} {worker worker' : Worker}
      (found : s.workers[victim]? = some worker)
      (accepters : s'.accepters = Function.update s.accepters a (.adding fd victim conn))
      (log : s'.log = s.log ++ [.took a victim (some conn)])
      (workers : s'.workers = s.workers.set victim worker')
      (count : worker'.container.freelistCount = worker.container.freelistCount - 1)
  | refused {a victim : Nat} {fd : Int}
      (accepters : s'.accepters = Function.update s.accepters a (.refusing fd))
      (log : s'.log = s.log ++ [.took a victim none]) (workers : s'.workers = s.workers)
  | worked (accepters : ∀ a, s'.accepters a = s.accepters a ∨ s'.accepters a = .accepting)
      (log : s'.log = s.log)
      (counts : ∀ (w : Nat) worker, s.workers[w]? = some worker → ∃ worker',
        s'.workers[w]? = some worker' ∧
        worker.container.freelistCount ≤ worker'.container.freelistCount)

section Changes

variable {s s' : Threads} {a w : Nat}

theorem connectionAccept_count {container container' : ConnectionContainer} {socket : Int} {i : Nat}
    (h : connectionAccept container socket = some (some i, container')) :
    container'.freelistCount = container.freelistCount - 1 := by
  unfold connectionAccept at h
  split at h
  · cases h
  · split at h
    · split at h
      · cases h
      · split at h
        · cases h
          rfl
        · cases h
    · cases h

/-- A worker changes, and it has at least as many free slots as before. -/
theorem Change.setWorker {worker worker' : Worker} (found : s.workers[w]? = some worker)
    (accepters : ∀ a, s'.accepters a = s.accepters a ∨ s'.accepters a = .accepting)
    (log : s'.log = s.log) (workers : s'.workers = s.workers.set w worker')
    (count : worker.container.freelistCount ≤ worker'.container.freelistCount) : Change s s' := by
  refine .worked accepters log fun v other at_ => ?_
  rw [workers]
  by_cases same : w = v
  · subst same
    cases found.symm.trans at_
    obtain ⟨inside, -⟩ := List.getElem?_eq_some_iff.mp found
    exact ⟨worker', List.getElem?_set_self inside, count⟩
  · exact ⟨other, by rw [List.getElem?_set_ne same, at_], Int.le_refl _⟩

theorem Change.accepter (accepters : ∀ b, s'.accepters b = s.accepters b ∨ s'.accepters b = .accepting)
    (log : s'.log = s.log) (workers : s'.workers = s.workers) : Change s s' :=
  .worked accepters log fun _ worker found => ⟨worker, workers ▸ found, Int.le_refl _⟩

theorem accepting_or (s : Threads) (a b : Nat) :
    Function.update s.accepters a .accepting b = s.accepters b ∨
      Function.update s.accepters a .accepting b = .accepting := by
  by_cases same : b = a
  · subst same
    exact .inr (Function.update_self ..)
  · exact .inl (Function.update_of_ne same ..)

theorem change_score (h : s.score a = some s') : Change s s' := by
  unfold Threads.score at h
  split at h
  · rename_i fd i best score before
    split at h
    · cases h
    · rename_i worker found
      simp only at h
      split at h
      · cases h
      · split at h
        · rename_i better
          cases h
          refine .scored before found ?_ rfl rfl
          rw [if_pos better, Int.max_eq_right (Int.le_of_lt better)]
          rfl
        · rename_i worse
          cases h
          refine .scored before found ?_ rfl rfl
          rw [if_neg worse, Int.max_eq_left (Int.not_lt.mp worse)]
          rfl
  · cases h

theorem change_take (h : s.take a = some s') : Change s s' := by
  unfold Threads.take at h
  split at h
  · rename_i fd i victim score before
    split at h
    · split at h
      · cases h
      · rename_i worker found
        split at h
        · cases h
        · cases h
          exact .refused rfl rfl rfl
        · rename_i conn container accepted
          cases h
          exact .took found rfl rfl rfl (connectionAccept_count accepted)
    · cases h
  · cases h

theorem change_of_step {action : Action} (h : s.step action = some s') : Change s s' := by
  cases action with
  | accept a fd =>
    simp only [Threads.step, Threads.accept] at h
    split at h
    · split at h
      · cases h
        exact .accepter (fun _ => .inl rfl) rfl rfl
      · split at h
        · cases h
        · cases h
          exact .accepted rfl rfl rfl
    · cases h
  | score a => exact change_score h
  | take a => exact change_take h
  | add a ok =>
    simp only [Threads.step, Threads.add] at h
    split at h
    · split at h
      · cases h
      · rename_i worker found
        split at h
        · cases h
          exact .setWorker found (accepting_or s a) rfl rfl (Int.le_refl _)
        · cases h
          exact .accepter (accepting_or s a) rfl rfl
    · cases h
  | refuse a =>
    simp only [Threads.step, Threads.refuse] at h
    split at h
    · cases h
      exact .accepter (accepting_or s a) rfl rfl
    · cases h
  | wait w ready =>
    simp only [Threads.step, Threads.wait] at h
    split at h
    · cases h
    · rename_i worker found
      split at h
      · split at h
        · cases h
          exact .setWorker found (fun _ => .inl rfl) rfl rfl (Int.le_refl _)
        · cases h
      · cases h
  | serve w client rc =>
    simp only [Threads.step, Threads.serve] at h
    split at h
    · cases h
    · rename_i worker found
      split at h
      · split at h
        · cases h
        · cases h
          exact .setWorker found (fun _ => .inl rfl) rfl rfl (Int.le_refl _)
      · cases h
  | remove w =>
    simp only [Threads.step, Threads.remove] at h
    split at h
    · cases h
    · rename_i worker found
      split at h
      · split at h
        · cases h
        · cases h
          exact .setWorker found (fun _ => .inl rfl) rfl rfl (Int.le_refl _)
      · cases h
  | close w =>
    simp only [Threads.step, Threads.close] at h
    split at h
    · cases h
    · rename_i worker found
      split at h
      · split at h
        · cases h
        · cases h
          exact .setWorker found (fun _ => .inl rfl) rfl rfl (Int.le_refl _)
      · cases h
  | release w k =>
    simp only [Threads.step, Threads.release] at h
    split at h
    · cases h
    · rename_i worker found
      split at h
      · split at h
        · cases h
        · rename_i container k' closed
          cases h
          refine .setWorker found (fun _ => .inl rfl) rfl rfl ?_
          simp only [connectionClose, Option.map_eq_some_iff, Prod.mk.injEq] at closed
          obtain ⟨conn, -, rfl, -⟩ := closed
          exact Int.le_of_lt (Int.lt_succ _)
      · cases h

end Changes

section Selection

variable {s s' : Threads} {a i : Nat} {fd score : Int} {best : Option Nat}

/-- What an accepter knows in its loop over the workers: the scores of the first ones, and that the
best one is not better than what that worker has now and what has been taken from it since. -/
structure Selecting (workers : List Worker) (log : List Note) (a i : Nat) (best : Option Nat)
    (score : Int) : Prop where
  read : ∀ v < i, ∃ n, .scored a v n ∈ scoresOf a log
  highest : ∀ v n, .scored a v n ∈ scoresOf a log → n ≤ score
  bound : ∀ w, best = some w → w < i ∧ ∃ worker, workers[w]? = some worker ∧
    score ≤ worker.container.freelistCount + takenSince a w log

theorem Selecting.start (workers : List Worker) (log : List Note) (a : Nat) (fd score : Int) :
    Selecting workers (log ++ [.accepted a fd]) a 0 none score := by
  have none : scoresOf a (log ++ [.accepted a fd]) = [] := by
    rw [scoresOf, notesSince_concat, if_pos (by simp [Note.acceptedBy])]
  exact ⟨fun v lt => absurd lt (Nat.not_lt_zero v), by simp [none], by simp⟩

def Note.foreign (a : Nat) (n : Note) : Prop := n.acceptedBy a = false ∧ ∀ w, n.scoredBy a w = false

theorem Selecting.note {workers workers' : List Worker} {log : List Note} {n : Note}
    (h : Selecting workers log a i best score) (foreign : n.foreign a)
    (counts : ∀ (w : Nat) worker, workers[w]? = some worker → ∃ worker', workers'[w]? = some worker' ∧
      worker.container.freelistCount ≤
        worker'.container.freelistCount + if n.tookFrom w then 1 else 0) :
    Selecting workers' (log ++ [n]) a i best score := by
  have scores : scoresOf a (log ++ [n]) = scoresOf a log ++ [n] := by
    rw [scoresOf, notesSince_concat, if_neg (by simp [foreign.1])]
    rfl
  refine ⟨fun v lt => ?_, fun v m member => ?_, fun w same => ?_⟩
  · obtain ⟨m, member⟩ := h.read v lt
    exact ⟨m, scores ▸ List.mem_append_left _ member⟩
  · rw [scores] at member
    rcases List.mem_append.mp member with member | last
    · exact h.highest v m member
    · have mine := foreign.2 v
      rw [← List.mem_singleton.mp last] at mine
      simp [Note.scoredBy] at mine
  · obtain ⟨lt, worker, found, bound⟩ := h.bound w same
    obtain ⟨worker', found', count⟩ := counts w worker found
    refine ⟨lt, worker', found', ?_⟩
    have sum : ((takenSince a w log + if n.tookFrom w then 1 else 0 : Nat) : Int) =
        takenSince a w log + if n.tookFrom w then 1 else 0 := by
      split <;> rfl
    rw [takenSince_concat log (foreign.2 w)]
    omega

theorem Selecting.another {workers : List Worker} {log : List Note} {worker : Worker}
    (h : Selecting workers log a i best score) (found : workers[i]? = some worker) :
    Selecting workers (log ++ [.scored a i worker.container.freelistCount]) a (i + 1)
      (if worker.container.freelistCount > score then some i else best)
      (max score worker.container.freelistCount) := by
  have scores : scoresOf a (log ++ [.scored a i worker.container.freelistCount]) =
      scoresOf a log ++ [.scored a i worker.container.freelistCount] := by
    rw [scoresOf, notesSince_concat]
    rfl
  refine ⟨fun v lt => ?_, fun v n member => ?_, fun w same => ?_⟩
  · rw [scores]
    rcases Nat.lt_succ_iff_lt_or_eq.mp lt with earlier | rfl
    · obtain ⟨n, member⟩ := h.read v earlier
      exact ⟨n, List.mem_append_left _ member⟩
    · exact ⟨_, List.mem_append_right _ (List.mem_singleton_self _)⟩
  · rw [scores] at member
    rcases List.mem_append.mp member with member | last
    · exact Int.le_trans (h.highest v n member) (Int.le_max_left ..)
    · cases List.mem_singleton.mp last
      exact Int.le_max_right ..
  · have fresh : takenSince a i (log ++ [.scored a i worker.container.freelistCount]) = 0 := by
      rw [takenSince, notesSince_concat, if_pos (by simp [Note.scoredBy])]
      rfl
    -- the worker that has just been scored is the best one, or the old one still is
    split at same
    · rename_i better
      cases same
      refine ⟨Nat.lt_succ_self i, worker, found, ?_⟩
      rw [fresh, Int.max_eq_right (Int.le_of_lt better)]
      omega
    · rename_i worse
      rw [Int.max_eq_left (Int.not_lt.mp worse)]
      obtain ⟨lt, other, found', bound⟩ := h.bound w same
      refine ⟨Nat.lt_succ_of_lt lt, other, found', ?_⟩
      rw [takenSince_concat _ (by simp [Note.scoredBy, Nat.ne_of_gt lt])]
      simp only [Note.tookFrom, Bool.false_eq_true, if_false]
      omega

def Admits (s : Threads) : Prop := ∀ a fd i best score,
  s.accepters a = .selecting fd i best score → Selecting s.workers s.log a i best score

theorem Admits.step {b : Nat} {thread : AccepterThread} {n : Note} (h : Admits s)
    (accepters : s'.accepters = Function.update s.accepters b thread) (log : s'.log = s.log ++ [n])
    (author : ∀ a, a ≠ b → n.foreign a)
    (counts : ∀ (w : Nat) worker, s.workers[w]? = some worker → ∃ worker', s'.workers[w]? = some worker' ∧
      worker.container.freelistCount ≤
        worker'.container.freelistCount + if n.tookFrom w then 1 else 0)
    (mine : ∀ fd i best score, thread = .selecting fd i best score →
      Selecting s'.workers (s.log ++ [n]) b i best score) : Admits s' := by
  intro a fd i best score selecting
  rw [accepters] at selecting
  rw [log]
  by_cases same : a = b
  · subst same
    rw [Function.update_self] at selecting
    exact mine fd i best score selecting
  · rw [Function.update_of_ne same] at selecting
    exact (h a fd i best score selecting).note (author a same) counts

theorem Change.admits (change : Change s s') (h : Admits s) : Admits s' := by
  have same {n : Note} (workers : s'.workers = s.workers) (w : Nat) (worker : Worker)
      (found : s.workers[w]? = some worker) : ∃ worker', s'.workers[w]? = some worker' ∧
        worker.container.freelistCount ≤
          worker'.container.freelistCount + if n.tookFrom w then 1 else 0 := by
    refine ⟨worker, workers ▸ found, ?_⟩
    split <;> omega
  cases change with
  | @accepted b fd accepters log workers =>
    refine h.step accepters log (fun a other => ?_) (same workers) ?_
    · exact ⟨by simp [Note.acceptedBy, Ne.symm other], fun w => rfl⟩
    · rintro fd i best score ⟨⟩
      exact Selecting.start ..
  | @scored b i fd score best worker before found accepters log workers =>
    refine h.step accepters log (fun a other => ?_) (same workers) ?_
    · exact ⟨rfl, fun w => by simp [Note.scoredBy, Ne.symm other]⟩
    · rintro fd' i' best' score' ⟨⟩
      rw [workers]
      exact (h b fd i best score before).another found
  | @took b victim conn fd worker worker' found accepters log workers count =>
    refine h.step accepters log (fun a other => ⟨rfl, fun w => rfl⟩) (fun w other found' => ?_) (by simp)
    rw [workers]
    by_cases taken : victim = w
    · subst taken
      cases found.symm.trans found'
      obtain ⟨inside, -⟩ := List.getElem?_eq_some_iff.mp found
      refine ⟨worker', List.getElem?_set_self inside, ?_⟩
      rw [if_pos (by simp [Note.tookFrom]), count]
      omega
    · refine ⟨other, by rw [List.getElem?_set_ne taken, found'], ?_⟩
      split <;> omega
  | refused accepters log workers =>
    exact h.step accepters log (fun a other => ⟨rfl, fun w => rfl⟩) (same workers) (by simp)
  | worked accepters log counts =>
    intro a fd i best score selecting
    rw [log]
    rcases accepters a with unchanged | accepting
    · obtain ⟨read, highest, bound⟩ := h a fd i best score (unchanged ▸ selecting)
      refine ⟨read, highest, fun w same => ?_⟩
      obtain ⟨lt, worker, found, bound⟩ := bound w same
      obtain ⟨worker', found', count⟩ := counts w worker found
      exact ⟨lt, worker', found', by omega⟩
    · rw [accepting] at selecting
      cases selecting

theorem run_admits {memory : List (List RawSlot)} {actions : List Action}
    (run : Monitor.run Threads.step (.start memory) actions = some s) : Admits s := by
  have keep (s : Threads) (action : Action) (s' : Threads) (h : Admits s) (_ : True)
      (step : s.step action = some s') : Admits s' := (change_of_step step).admits h
  have start : Admits (.start memory) := fun a fd i best score selecting => by cases selecting
  exact Monitor.run_keeps keep start run fun _ _ => trivial

end Selection

/-- The accepter `a` gets NULL from the worker `w`. -/
def Refuses (s s' : Threads) (a w : Nat) : Prop :=
  s.step (.take a) = some s' ∧ s'.log = s.log ++ [.took a w none]

def RefusedWhenFull (memory : List (List RawSlot)) : Prop :=
  ∀ actions s s' a w, Monitor.run Threads.step (.start memory) actions = some s → Refuses s s' a w →
    ∀ v n, .scored a v n ∈ scoresOf a s.log → n = 0

/-- What a refused accepter knows: the worker has no free slot, all of the workers have been scored,
and no score is above the number of slots that have been taken from that worker since. -/
structure Refusal (s : Threads) (a w : Nat) : Prop where
  full : ∃ worker, s.workers[w]? = some worker ∧ worker.container.freelistCount = 0
  scored : ∀ v < s.workers.length, ∃ n, .scored a v n ∈ scoresOf a s.log
  bound : ∀ v n, .scored a v n ∈ scoresOf a s.log → n ≤ takenSince a w s.log

theorem refusal_law {memory : List (List RawSlot)} {actions : List Action} {s s' : Threads} {a w : Nat}
    (run : Monitor.run Threads.step (.start memory) actions = some s) (refuses : Refuses s s' a w) :
    Refusal s a w := by
  obtain ⟨step, log⟩ := refuses
  simp only [Threads.step, Threads.take] at step
  split at step
  · rename_i fd i victim score selecting
    split at step
    · rename_i all
      split at step
      · cases step
      · rename_i worker found
        split at step
        · cases step
        · rename_i container accepted
          cases step
          cases List.append_cancel_left log
          obtain ⟨read, highest, bound⟩ := run_admits run a fd i (some w) score selecting
          have empty : worker.container.freelistCount = 0 := by
            obtain ⟨holders, tracks⟩ := run_tracked run
            obtain ⟨slots, slotsAt⟩ := tracks.slots found
            obtain ⟨free, chain⟩ := (tracks.workers w slots worker slotsAt found).chain
            cases free with
            | nil => exact chain.count
            | cons i rest =>
              obtain ⟨conn, -, given, -⟩ := chain.take fd
              cases accepted.symm.trans given
          refine ⟨⟨worker, found, empty⟩, fun v lt => read v (all ▸ lt), fun v n member => ?_⟩
          obtain ⟨-, worker', found', bound⟩ := bound w rfl
          cases found.symm.trans found'
          have top := highest v n member
          omega
        · rename_i conn container accepted
          cases step
          cases List.append_cancel_left log
    · cases step
  · cases step

def scoredTwice : List Action := [.accept 0 5, .accept 1 6, .score 0, .score 1, .take 0]

theorem refusal_law_scored_twice : ∃ s s', Monitor.run Threads.step (.start [[rawSlot none]]) scoredTwice =
    some s ∧ Refuses s s' 1 0 ∧ Refusal s 1 0 := by
  have run : ∃ s, Monitor.run Threads.step (.start [[rawSlot none]]) scoredTwice = some s ∧
      ∃ s', Refuses s s' 1 0 := ⟨_, rfl, _, rfl, rfl⟩
  obtain ⟨s, run, s', refuses⟩ := run
  exact ⟨s, s', run, refuses, refusal_law run refuses⟩

/-- The second one is refused, although the worker had a free slot when it was scored. -/
theorem scored_twice_refuses : ¬ RefusedWhenFull [[rawSlot none]] := by
  intro law
  have zero := law scoredTwice _ _ 1 0 rfl ⟨rfl, rfl⟩ 0 1 (by decide)
  cases zero

end Kitserv
