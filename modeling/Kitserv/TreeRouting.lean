import Mathlib
import Kitserv.Routing

namespace Kitserv

open Memory

def isSegment (segment : Bytes) (length : Int) (pathPrefix : Bytes) : Bool :=
  length == (segment.length : Int) && segment == pathPrefix.take segment.length

def behindSegment (text : Bytes) : Bytes := text.drop (segmentName text).length

def entryIsFor (text : Bytes) (e : ApiEntry) : Bool :=
  isSegment (segmentName text) e.prefixLength e.pathPrefix &&
    (!e.finishesPath || (behindSegment text).all (· == 47))

def treeIsFor (text : Bytes) (t : ApiTree) : Bool :=
  isSegment (segmentName text) t.prefixLength t.pathPrefix

def entriesFor (tree : ApiTree) (text : Bytes) : List ApiEntry := tree.entries.filter (entryIsFor text)

def methodsOf (entries : List ApiEntry) : Nat := entries.foldl (fun flags e => flags ||| e.method) 0

def accepts (method : Nat) (e : ApiEntry) : Bool := method &&& e.method != 0

def entryMatches (mem : Bytes) (path q : Nat) (e : ApiEntry) : Bool :=
  matchesSegment mem path q e.prefixLength e.pathPrefix &&
    !(e.finishesPath && (mem[skipSlashes mem q]?).getD 0 != 0)

def subtreeFor (tree : ApiTree) (text : Bytes) : Option Nat :=
  tree.subtrees.findIdx? (treeIsFor text)

abbrev Level := ApiTree × Bytes

def Descends (level next : Level) : Prop :=
  entriesFor level.1 level.2 = [] ∧ next.2 = (behindSegment level.2).drop 1 ∧
    ∃ i, subtreeFor level.1 level.2 = some i ∧ level.1.subtrees[i]? = some next.1

/-- What a request for a path selects: the indices of the subtrees on the way, and the end of it. -/
inductive Routes (method : Nat) : Level → List Nat → Selection → Prop
  | hit {level : Level} {e : ApiEntry}
      (found : (entriesFor level.1 level.2).find? (accepts method) = some e) :
      Routes method level [] (.handler e.handler)
  | refused {level : Level} (some : entriesFor level.1 level.2 ≠ [])
      (none : (entriesFor level.1 level.2).find? (accepts method) = none) :
      Routes method level [] (.notAllowed (methodsOf (entriesFor level.1 level.2)))
  | descends {level : Level} {i : Nat} {subtree : ApiTree} {indices : List Nat} {sel : Selection}
      (none : entriesFor level.1 level.2 = []) (found : subtreeFor level.1 level.2 = some i)
      (member : level.1.subtrees[i]? = some subtree)
      (later : Routes method (subtree, (behindSegment level.2).drop 1) indices sel) :
      Routes method level (i :: indices) sel
  | nothing {level : Level} (none : entriesFor level.1 level.2 = [])
      (missing : subtreeFor level.1 level.2 = Option.none) : Routes method level [] .static

def subtreesPassed (mem : Bytes) (path q : Nat) : List ApiTree → List ApiTree → Nat
  | [], _ => 0
  | t :: rest, roots =>
    if t.prefixLength == (q : Int) - path then
      match roots with
      | [] => 0
      | root :: roots =>
        if matchesSegment mem path q t.prefixLength root.pathPrefix then 0
        else subtreesPassed mem path q rest roots + 1
    else subtreesPassed mem path q rest roots.tail + 1

def subtreesTaken (mem : Bytes) (method allowFlags : Nat) (root tree : ApiTree) (path : Nat) :
    List Nat :=
  let q := segmentEnd mem path
  let scan := scanEntries mem method path q allowFlags tree.entries
  if scan.hit.isSome then []
  else if scan.allowFlags ≠ 0 then []
  else match _found : scanSubtrees mem path q tree.subtrees root.subtrees with
    | .found subtree => subtreesPassed mem path q tree.subtrees root.subtrees ::
        subtreesTaken mem method scan.allowFlags root subtree (q + 1)
    | _ => []
termination_by sizeOf tree
decreasing_by exact subtree_lt _found

theorem subtreesTaken_eq (mem : Bytes) (method allowFlags : Nat) (root tree : ApiTree) (path : Nat) :
    subtreesTaken mem method allowFlags root tree path =
      let q := segmentEnd mem path
      let scan := scanEntries mem method path q allowFlags tree.entries
      if scan.hit.isSome then []
      else if scan.allowFlags ≠ 0 then []
      else match scanSubtrees mem path q tree.subtrees root.subtrees with
        | .found subtree => subtreesPassed mem path q tree.subtrees root.subtrees ::
            subtreesTaken mem method scan.allowFlags root subtree (q + 1)
        | _ => [] := by
  rw [subtreesTaken]
  simp only
  split
  · rfl
  · split
    · rfl
    · split
      · rename_i found
        simp only [found]
      · rename_i other
        split
        · rename_i found
          exact absurd found (other _)
        · rfl

section Entries

variable {mem : Bytes} {path : Nat} {text : Bytes}

theorem segmentName_le (text : Bytes) : (segmentName text).length ≤ text.length :=
  length_takeWhile_le ..

theorem take_segmentName (text : Bytes) : text.take (segmentName text).length = segmentName text := by
  have whole := List.takeWhile_prefix (l := text) fun b : Byte => b != 0 && b != 47
  exact (List.prefix_iff_eq_take.mp whole).symm

theorem matchesSegment_iff (h : TextAt mem path text) (length : Int) (pathPrefix : Bytes) :
    matchesSegment mem path (path + (segmentName text).length) length pathPrefix =
      isSegment (segmentName text) length pathPrefix := by
  rw [h.matchesSegment_eq (segmentName_le text), take_segmentName]
  rfl

theorem finished_iff (h : TextAt mem path text) :
    (mem[skipSlashes mem (path + (segmentName text).length)]?).getD 0 ≠ 0 ↔
      (behindSegment text).all (· == 47) = false := by
  have rest : TextAt mem (path + (segmentName text).length) (behindSegment text) :=
    h.drop (segmentName_le text)
  rw [rest.skipSlashes_first, drop_length_takeWhile]
  have plain := rest.plain
  generalize behindSegment text = behind at plain
  cases left : behind.dropWhile fun b => b == 47 with
  | nil =>
    have all := List.dropWhile_eq_nil_iff.mp left
    simp only [List.headD_nil, ne_eq, not_true_eq_false, false_iff, Bool.not_eq_false]
    exact List.all_eq_true.mpr all
  | cons b more =>
    have member : b ∈ behind := (List.dropWhile_sublist _).subset (left ▸ List.mem_cons_self)
    have nonzero : b ≠ 0 := fun zero => plain (zero ▸ member)
    have stop : ¬ behind.all (· == 47) = true := fun all => by
      have none := List.dropWhile_eq_nil_iff.mpr (List.all_eq_true.mp all)
      rw [left] at none
      cases none
    simp only [List.headD_cons, ne_eq, nonzero, not_false_eq_true, true_iff]
    simpa using stop

theorem scanEntries_matching (mem : Bytes) (method path q allowFlags : Nat)
    (entries : List ApiEntry) :
    let scan := scanEntries mem method path q allowFlags entries
    match (entries.filter (entryMatches mem path q)).find? (accepts method) with
    | some e => scan.hit = some e.handler ∧ method &&& scan.allowFlags ≠ 0
    | none => scan.hit = none ∧ scan.allowFlags =
        (entries.filter (entryMatches mem path q)).foldl (fun flags e => flags ||| e.method)
          allowFlags := by
  induction entries generalizing allowFlags with
  | nil => exact ⟨rfl, rfl⟩
  | cons e rest ih =>
    simp only [scanEntries]
    cases here : matchesSegment mem path q e.prefixLength e.pathPrefix with
    | false =>
      rw [List.filter_cons_of_neg (by simp [entryMatches, here])]
      simpa using ih allowFlags
    | true =>
      simp only [if_true]
      by_cases stop : e.finishesPath = true ∧ (mem[skipSlashes mem q]?).getD 0 ≠ 0
      · rw [if_pos stop, List.filter_cons_of_neg (by simp [entryMatches, stop.1, stop.2])]
        exact ih allowFlags
      · have counted : entryMatches mem path q e = true := by
          rw [entryMatches, here, Bool.true_and]
          cases finishes : e.finishesPath with
          | false => rfl
          | true => simpa [finishes] using stop
        rw [if_neg stop, List.filter_cons_of_pos counted]
        by_cases accepted : method &&& e.method ≠ 0
        · rw [if_pos accepted, List.find?_cons_of_pos (by simpa [accepts] using accepted)]
          refine ⟨rfl, ?_⟩
          rw [Nat.and_or_distrib_left]
          exact fun none => accepted (Nat.or_eq_zero_iff.mp none).2
        · rw [if_neg accepted, List.find?_cons_of_neg (by simpa [accepts] using accepted)]
          exact ih (allowFlags ||| e.method)

theorem entryMatches_text (h : TextAt mem path text) :
    entryMatches mem path (path + (segmentName text).length) = entryIsFor text := by
  funext e
  have finished := finished_iff h
  rw [entryMatches, entryIsFor, matchesSegment_iff h]
  cases ended : (behindSegment text).all (· == 47) with
  | true =>
    simp only [ended, ne_eq, Bool.true_eq_false, iff_false, Decidable.not_not] at finished
    rw [finished]
    simp
  | false =>
    have more := bne_iff_ne.mpr (finished.mpr ended)
    rw [more]
    simp

theorem scanEntries_spec (h : TextAt mem path text) (method allowFlags : Nat)
    (entries : List ApiEntry) :
    let scan := scanEntries mem method path (path + (segmentName text).length) allowFlags entries
    match (entries.filter (entryIsFor text)).find? (accepts method) with
    | some e => scan.hit = some e.handler
    | none => scan.hit = none ∧ scan.allowFlags =
        (entries.filter (entryIsFor text)).foldl (fun flags e => flags ||| e.method) allowFlags := by
  have scan := scanEntries_matching mem method path (path + (segmentName text).length) allowFlags
    entries
  rw [entryMatches_text h] at scan
  cases found : (entries.filter (entryIsFor text)).find? (accepts method) with
  | some e =>
    rw [found] at scan
    exact scan.1
  | none =>
    rw [found] at scan
    exact scan

end Entries

section Subtrees

variable {mem : Bytes} {path : Nat} {text : Bytes}

def FindsSubtree (text : Bytes) (trees : List ApiTree) (scan : SubtreeScan) (passed : Nat) : Prop :=
  match trees.findIdx? (treeIsFor text) with
  | some i => passed = i ∧ ∃ t, trees[i]? = some t ∧ scan = .found t
  | none => scan = .notFound

/-- Up to the subtree for the path, each one whose prefix is as long as the segment has its
counterpart of the same index in the root, and the two prefixes agree on the segment. -/
def Counterparts (text : Bytes) (trees roots : List ApiTree) : Prop :=
  ∀ (i : Nat) (t : ApiTree), trees[i]? = some t → t.prefixLength = (segmentName text).length →
    (∀ j t', j < i → trees[j]? = some t' → treeIsFor text t' = false) →
    ∃ r, roots[i]? = some r ∧ (segmentName text = r.pathPrefix.take (segmentName text).length ↔
      segmentName text = t.pathPrefix.take (segmentName text).length)

theorem counterparts_skip {t : ApiTree} {rest roots : List ApiTree}
    (other : treeIsFor text t = false)
    (first : t.prefixLength = (segmentName text).length → ∃ r, roots[0]? = some r ∧
      (segmentName text = r.pathPrefix.take (segmentName text).length ↔
        segmentName text = t.pathPrefix.take (segmentName text).length)) :
    Counterparts text (t :: rest) roots ↔ Counterparts text rest roots.tail := by
  have shift (i : Nat) : roots[i + 1]? = roots.tail[i]? := by
    cases roots with
    | nil => rfl
    | cons r roots => rfl
  constructor
  · intro all i t' member length before
    rw [← shift]
    refine all (i + 1) t' member length fun j t'' earlier member' => ?_
    cases j with
    | zero =>
      cases Option.some.inj member'
      exact other
    | succ j => exact before j t'' (Nat.lt_of_succ_lt_succ earlier) member'
  · intro all i t' member length before
    cases i with
    | zero =>
      cases Option.some.inj member
      exact first length
    | succ i =>
      rw [shift]
      exact all i t' member length fun j t'' earlier member' =>
        before (j + 1) t'' (Nat.succ_lt_succ earlier) member'

theorem findsSubtree_skip {t : ApiTree} {rest : List ApiTree} {scan : SubtreeScan} {passed : Nat}
    (other : treeIsFor text t = false) :
    FindsSubtree text (t :: rest) scan (passed + 1) ↔ FindsSubtree text rest scan passed := by
  simp only [FindsSubtree, List.findIdx?_cons, other, Bool.false_eq_true, if_false]
  cases rest.findIdx? (treeIsFor text) with
  | none => rfl
  | some i => simp

theorem findsSubtree_iff (h : TextAt mem path text) (trees roots : List ApiTree) :
    FindsSubtree text trees
        (scanSubtrees mem path (path + (segmentName text).length) trees roots)
        (subtreesPassed mem path (path + (segmentName text).length) trees roots) ↔
      Counterparts text trees roots := by
  have count : ((path + (segmentName text).length : Nat) : Int) - path =
    (segmentName text).length := by omega
  induction trees generalizing roots with
  | nil =>
    refine iff_of_true rfl ?_
    rintro i t ⟨⟩
  | cons t rest ih =>
    simp only [scanSubtrees, subtreesPassed, count, matchesSegment_iff h]
    by_cases length : t.prefixLength = (segmentName text).length
    · have same : (t.prefixLength == ((segmentName text).length : Int)) = true := by
        simpa using length
      have own : treeIsFor text t = true ↔
          segmentName text = t.pathPrefix.take (segmentName text).length := by
        simp [treeIsFor, isSegment, length]
      simp only [same, if_true]
      cases roots with
      | nil =>
        refine iff_of_false ?_ fun all => ?_
        · simp only [FindsSubtree]
          cases (t :: rest).findIdx? (treeIsFor text) with
          | none => simp
          | some i => simp
        · obtain ⟨r, member, -⟩ := all 0 t rfl length (by omega)
          cases member
      | cons r roots =>
        have across : isSegment (segmentName text) t.prefixLength r.pathPrefix = true ↔
            segmentName text = r.pathPrefix.take (segmentName text).length := by
          simp [isSegment, length]
        dsimp only
        by_cases agree : isSegment (segmentName text) t.prefixLength r.pathPrefix = true ↔
            treeIsFor text t = true
        · have first : ∃ r', (r :: roots)[0]? = some r' ∧
              (segmentName text = r'.pathPrefix.take (segmentName text).length ↔
                segmentName text = t.pathPrefix.take (segmentName text).length) :=
            ⟨r, rfl, by rw [← across, ← own]; exact agree⟩
          cases here : treeIsFor text t with
          | true =>
            rw [if_pos (agree.mpr here)]
            refine iff_of_true ?_ fun i t' member _ before => ?_
            · simp only [FindsSubtree, List.findIdx?_cons, here, if_true]
              simp [agree.mpr here]
            · cases i with
              | zero =>
                cases Option.some.inj member
                exact first
              | succ i =>
                cases (before 0 t (Nat.succ_pos i) rfl).symm.trans here
          | false =>
            have passed := mt agree.mp (by simp [here])
            rw [if_neg passed, if_neg passed, findsSubtree_skip here, counterparts_skip here fun _ => first]
            exact ih roots
        · have first : ¬ Counterparts text (t :: rest) (r :: roots) := fun all => by
            obtain ⟨r', member, same⟩ := all 0 t rfl length (by omega)
            cases Option.some.inj member
            rw [← across, ← own] at same
            exact agree same
          refine iff_of_false ?_ first
          simp only [FindsSubtree, List.findIdx?_cons]
          cases here : treeIsFor text t with
          | true =>
            have passed : ¬ isSegment (segmentName text) t.prefixLength r.pathPrefix = true :=
              fun taken => agree (iff_of_true taken here)
            simp [passed]
          | false =>
            have taken : isSegment (segmentName text) t.prefixLength r.pathPrefix = true :=
              Classical.byContradiction fun passed => agree (iff_of_false passed (by simp [here]))
            cases rest.findIdx? (treeIsFor text) with
            | none => simp [taken]
            | some i => simp [taken]
    · have other : treeIsFor text t = false := by
        simp [treeIsFor, isSegment, length]
      have different : (t.prefixLength == ((segmentName text).length : Int)) = false := by
        simpa using length
      simp only [different, Bool.false_eq_true, if_false]
      rw [findsSubtree_skip other, counterparts_skip other (fun same => absurd same length)]
      exact ih roots.tail

end Subtrees

theorem scanSubtrees_passed {mem : Bytes} {path q : Nat} {trees roots : List ApiTree} {t : ApiTree}
    (found : scanSubtrees mem path q trees roots = .found t) :
    trees[subtreesPassed mem path q trees roots]? = some t := by
  induction trees generalizing roots with
  | nil => cases found
  | cons first rest ih =>
    simp only [scanSubtrees] at found
    simp only [subtreesPassed]
    split at found
    · rename_i length
      rw [if_pos length]
      cases roots with
      | nil => cases found
      | cons root roots =>
        dsimp only at found ⊢
        split at found
        · rename_i taken
          cases found
          rw [if_pos taken]
          rfl
        · rename_i passed
          rw [if_neg passed, List.getElem?_cons_succ]
          exact ih found
    · rename_i length
      rw [if_neg length, List.getElem?_cons_succ]
      exact ih found

/-- The code treats one level of the tree as it should: the endpoints for the path have a method,
and the subtrees in question have their counterparts in the root. -/
structure LevelProper (root : ApiTree) (method : Nat) (level : Level) : Prop where
  methods : entriesFor level.1 level.2 ≠ [] →
    (entriesFor level.1 level.2).find? (accepts method) = none →
    methodsOf (entriesFor level.1 level.2) ≠ 0
  counterparts : entriesFor level.1 level.2 = [] →
    Counterparts level.2 level.1.subtrees root.subtrees

abbrev LeadsTo : Level → Level → Prop := Relation.ReflTransGen Descends

section Levels

variable {method : Nat} {level next : Level} {indices : List Nat} {sel : Selection}

theorem Routes.refused_iff (some : entriesFor level.1 level.2 ≠ [])
    (none : (entriesFor level.1 level.2).find? (accepts method) = none) :
    Routes method level indices sel ↔
      indices = [] ∧ sel = .notAllowed (methodsOf (entriesFor level.1 level.2)) := by
  constructor
  · intro routes
    cases routes with
    | hit found => cases none.symm.trans found
    | refused => exact ⟨rfl, rfl⟩
    | descends empty => exact absurd empty some
    | nothing empty => exact absurd empty some
  · rintro ⟨rfl, rfl⟩
    exact .refused some none

theorem Routes.empty_iff (none : entriesFor level.1 level.2 = []) :
    Routes method level indices sel ↔
      (subtreeFor level.1 level.2 = Option.none ∧ indices = [] ∧ sel = .static) ∨
      ∃ i subtree later, subtreeFor level.1 level.2 = some i ∧ level.1.subtrees[i]? = some subtree ∧
        indices = i :: later ∧ Routes method (subtree, (behindSegment level.2).drop 1) later sel := by
  constructor
  · intro routes
    cases routes with
    | hit found =>
      rw [none] at found
      cases found
    | refused some => exact absurd none some
    | descends _ found member later => exact .inr ⟨_, _, _, found, member, rfl, later⟩
    | nothing _ missing => exact .inl ⟨missing, rfl, rfl⟩
  · rintro (⟨missing, rfl, rfl⟩ | ⟨i, subtree, later, found, member, rfl, routes⟩)
    · exact .nothing none missing
    · exact .descends none found member routes

theorem Descends.unique {other : Level} (one : Descends level next) (two : Descends level other) :
    other = next := by
  obtain ⟨-, rest, i, found, member⟩ := one
  obtain ⟨-, rest', j, found', member'⟩ := two
  cases found.symm.trans found'
  exact Prod.ext (Option.some.inj (member'.symm.trans member)) (rest'.trans rest.symm)

/-- All levels, where the path ends. -/
theorem levels_stop {P : Level → Prop} (stop : ∀ next, ¬ Descends level next) :
    (∀ l, LeadsTo level l → P l) ↔ P level := by
  constructor
  · exact fun all => all level .refl
  · intro here l leads
    rcases leads.cases_head with rfl | ⟨next, step, -⟩
    · exact here
    · exact absurd step (stop next)

/-- All levels, where it goes on. -/
theorem levels_step {P : Level → Prop} (step : Descends level next) :
    (∀ l, LeadsTo level l → P l) ↔ P level ∧ ∀ l, LeadsTo next l → P l := by
  constructor
  · exact fun all => ⟨all level .refl, fun l leads => all l (.head step leads)⟩
  · rintro ⟨here, later⟩ l leads
    rcases leads.cases_head with rfl | ⟨other, first, rest⟩
    · exact here
    · rw [step.unique first] at rest
      exact later l rest

end Levels

section Route

variable {mem : Bytes} {method : Nat} {root : ApiTree}

theorem routes_iff {tree : ApiTree} {path : Nat} {text : Bytes} (h : TextAt mem path text)
    (followed : ∀ level, LeadsTo (tree, text) level → ∀ next, Descends level next →
      behindSegment level.2 ≠ []) :
    Routes method (tree, text) (subtreesTaken mem method 0 root tree path)
        (parseApiTree mem method 0 root tree path).selection ↔
      ∀ level, LeadsTo (tree, text) level → LevelProper root method level := by
  induction size : sizeOf tree using Nat.strong_induction_on generalizing tree text path with
  | _ size' ih =>
    subst size
    have scan := scanEntries_spec h method 0 tree.entries
    have subtrees := findsSubtree_iff h tree.subtrees root.subtrees
    have passed := @scanSubtrees_passed mem path (path + (segmentName text).length) tree.subtrees
      root.subtrees
    rw [parseApiTree_eq, subtreesTaken_eq]
    simp only [h.segmentEnd_eq] at scan ⊢
    generalize scanEntries mem method path (path + (segmentName text).length) 0 tree.entries = scanned
      at scan ⊢
    obtain ⟨flags, hit⟩ := scanned
    rw [← entriesFor] at scan
    cases found : (entriesFor tree text).find? (accepts method) with
    | some e =>
      rw [found] at scan
      dsimp only at scan
      subst scan
      have some : entriesFor tree text ≠ [] := by
        intro none
        rw [none] at found
        cases found
      rw [levels_stop fun next descends => some descends.1]
      refine iff_of_true (.hit found) ⟨fun _ none => ?_, fun none => absurd none some⟩
      cases found.symm.trans none
    | none =>
      rw [found] at scan
      dsimp only at scan
      obtain ⟨rfl, rfl⟩ := scan
      rw [← methodsOf]
      simp only [Option.isSome_none, Bool.false_eq_true, if_false]
      by_cases empty : entriesFor tree text = []
      · have noFlags : methodsOf (entriesFor tree text) = 0 := by
          rw [empty]
          rfl
        simp only [noFlags, ne_eq, not_true_eq_false, if_false]
        rw [Routes.empty_iff empty]
        have here : LevelProper root method (tree, text) ↔
            Counterparts text tree.subtrees root.subtrees :=
          ⟨fun proper => proper.counterparts empty,
            fun counterparts => ⟨fun some => absurd empty some, fun _ => counterparts⟩⟩
        generalize subtreesPassed mem path (path + (segmentName text).length) tree.subtrees
          root.subtrees = index at passed subtrees ⊢
        have stuck (other : ¬ Counterparts text tree.subtrees root.subtrees) :
            ¬ ∀ level, LeadsTo (tree, text) level → LevelProper root method level :=
          fun all => other (here.mp (all _ .refl))
        cases scan : scanSubtrees mem path (path + (segmentName text).length) tree.subtrees
            root.subtrees with
        | outside =>
          rw [scan] at subtrees
          refine iff_of_false (by simp [Route.selection]) (stuck fun counterparts => ?_)
          have finds := subtrees.mpr counterparts
          simp only [FindsSubtree] at finds
          cases goal : tree.subtrees.findIdx? (treeIsFor text) <;> simp [goal] at finds
        | notFound =>
          rw [scan] at subtrees
          cases goal : subtreeFor tree text with
          | none =>
            have finds : FindsSubtree text tree.subtrees .notFound index := by
              rw [FindsSubtree, ← subtreeFor, goal]
            rw [levels_stop]
            · exact iff_of_true (.inl ⟨rfl, rfl, rfl⟩) (here.mpr (subtrees.mp finds))
            · rintro next ⟨-, -, i, some, -⟩
              cases goal.symm.trans some
          | some i =>
            refine iff_of_false (by simp) (stuck fun counterparts => ?_)
            have finds := subtrees.mpr counterparts
            rw [FindsSubtree, ← subtreeFor, goal] at finds
            obtain ⟨-, t, -, other⟩ := finds
            cases other
        | found subtree =>
          rw [scan] at subtrees
          have member := passed scan
          cases goal : subtreeFor tree text with
          | none =>
            refine iff_of_false (by simp) (stuck fun counterparts => ?_)
            have finds := subtrees.mpr counterparts
            rw [FindsSubtree, ← subtreeFor, goal] at finds
            cases finds
          | some i =>
            by_cases same : index = i
            · subst same
              have finds : FindsSubtree text tree.subtrees (.found subtree) index := by
                rw [FindsSubtree, ← subtreeFor, goal]
                exact ⟨rfl, subtree, member, rfl⟩
              have step : Descends (tree, text) (subtree, (behindSegment text).drop 1) :=
                ⟨empty, rfl, index, goal, member⟩
              have inside : behindSegment text ≠ [] := followed _ .refl _ step
              have next : (segmentName text).length + 1 ≤ text.length := by
                have := List.length_pos_iff.mpr inside
                rw [behindSegment, List.length_drop] at this
                omega
              have below := h.next next
              rw [← List.drop_drop, ← behindSegment] at below
              have later := @ih _ (subtree_lt scan) subtree _ _ below
                (fun level leads => followed level (.head step leads)) rfl
              rw [levels_step step, here, ← later]
              constructor
              · rintro (⟨none, -⟩ | ⟨j, subtree', _, some, member', indices, routes⟩)
                · cases none
                · cases indices
                  cases member.symm.trans member'
                  exact ⟨subtrees.mp finds, routes⟩
              · exact fun proper => .inr ⟨index, subtree, _, rfl, member, rfl, proper.2⟩
            · refine iff_of_false ?_ (stuck fun counterparts => ?_)
              · rintro (⟨none, -⟩ | ⟨j, _, _, some, -, indices, -⟩)
                · cases none
                · cases some
                  exact same (List.cons.inj indices).1
              · have finds := subtrees.mpr counterparts
                rw [FindsSubtree, ← subtreeFor, goal] at finds
                exact same finds.1
      · rw [levels_stop fun next descends => empty descends.1, Routes.refused_iff empty found]
        by_cases flags : methodsOf (entriesFor tree text) = 0
        · have improper : ¬ LevelProper root method (tree, text) := fun proper =>
            proper.methods empty found flags
          refine iff_of_false ?_ improper
          simp only [flags, ne_eq, not_true_eq_false, if_false]
          cases scanSubtrees mem path (path + (segmentName text).length) tree.subtrees
              root.subtrees with
          | found subtree => simp
          | notFound => simp [Route.selection]
          | outside => simp [Route.selection]
        · have proper : LevelProper root method (tree, text) :=
            ⟨fun _ _ => flags, fun none => absurd none empty⟩
          refine iff_of_true ?_ proper
          simp only [flags, ne_eq, not_false_eq_true, if_true]
          exact ⟨trivial, rfl⟩

end Route

theorem counterparts_root (text : Bytes) (trees : List ApiTree) : Counterparts text trees trees :=
  fun _ t member _ _ => ⟨t, member, .rfl⟩

/-- A path whose descents are all followed by a slash is routed as the tree says, level by level,
exactly if every level that it leads to is a proper one. -/
theorem tree_routing_iff {mem : Bytes} {path : Nat} {text : Bytes} (method : Nat) (root : ApiTree)
    (here : TextAt mem path text) (followed : ∀ level, LeadsTo (root, text) level →
      ∀ next, Descends level next → behindSegment level.2 ≠ []) :
    Routes method (root, text) (subtreesTaken mem method 0 root root path)
        (parseApiTree mem method 0 root root path).selection ↔
      ∀ level, LeadsTo (root, text) level → LevelProper root method level :=
  routes_iff here followed

section TwoLevels

def subtreeA : ApiTree := .node (ascii "a") 1 [] [endpoint (ascii "b")]

def treeA : ApiTree := .node [] 0 [subtreeA] []

theorem treeA_step : Descends (treeA, ascii "a/b") (subtreeA, ascii "b") :=
  ⟨rfl, by decide, 0, by decide, rfl⟩

theorem subtreeA_entries : entriesFor subtreeA (ascii "b") = [endpoint (ascii "b")] := rfl

theorem subtreeA_stop (next : Level) : ¬ Descends (subtreeA, ascii "b") next := by
  rintro ⟨none, -⟩
  cases subtreeA_entries.symm.trans none

theorem tree_routing_iff_a : Routes HttpMethod.get.bits (treeA, ascii "a/b")
    (subtreesTaken (ascii "a/b" ++ [0]) HttpMethod.get.bits 0 treeA treeA 0)
    (parseApiTree (ascii "a/b" ++ [0]) HttpMethod.get.bits 0 treeA treeA 0).selection := by
  have here : TextAt (ascii "a/b" ++ [0]) 0 (ascii "a/b") := ⟨by decide, [], rfl⟩
  refine (tree_routing_iff HttpMethod.get.bits treeA here ?_).mpr ?_
  · rw [levels_step treeA_step, levels_stop subtreeA_stop]
    exact ⟨fun _ _ => by decide, fun next descends => absurd descends (subtreeA_stop next)⟩
  · rw [levels_step treeA_step, levels_stop subtreeA_stop]
    refine ⟨⟨fun some => absurd rfl some, fun _ => counterparts_root _ _⟩, fun _ none => ?_,
      fun none => ?_⟩
    · rw [subtreeA_entries] at none
      cases none
    · cases subtreeA_entries.symm.trans none

end TwoLevels

section ThreeLevels

def subtreeB : ApiTree := .node (ascii "b") 1 [] [endpoint (ascii "x")]

def treeAB : ApiTree := .node [] 0 [.node (ascii "a") 1 [subtreeB] []] []

theorem treeAB_step : Descends (treeAB, ascii "a/b/x")
    (.node (ascii "a") 1 [subtreeB] [], ascii "b/x") :=
  ⟨rfl, by decide, 0, by decide, rfl⟩

theorem treeAB_next : Descends (.node (ascii "a") 1 [subtreeB] [], ascii "b/x")
    (subtreeB, ascii "x") :=
  ⟨rfl, by decide, 0, by decide, rfl⟩

theorem subtreeB_stop (next : Level) : ¬ Descends (subtreeB, ascii "x") next := by
  have entries : entriesFor subtreeB (ascii "x") = [endpoint (ascii "x")] := rfl
  rintro ⟨none, -⟩
  cases entries.symm.trans none

/-- The subtree b of the subtree a is compared with the first subtree of the root, which is a. -/
theorem nested_subtree_missed : ¬ Routes HttpMethod.get.bits (treeAB, ascii "a/b/x")
    (subtreesTaken (ascii "a/b/x" ++ [0]) HttpMethod.get.bits 0 treeAB treeAB 0)
    (parseApiTree (ascii "a/b/x" ++ [0]) HttpMethod.get.bits 0 treeAB treeAB 0).selection := by
  have here : TextAt (ascii "a/b/x" ++ [0]) 0 (ascii "a/b/x") := ⟨by decide, [], rfl⟩
  rw [routes_iff here]
  · intro all
    have proper := all _ (.head treeAB_step .refl)
    obtain ⟨r, member, same⟩ := proper.counterparts rfl 0 subtreeB rfl rfl (by omega)
    cases member
    have own : segmentName (ascii "b/x") =
        subtreeB.pathPrefix.take (segmentName (ascii "b/x")).length := by decide
    exact absurd (same.mpr own) (by decide)
  · rw [levels_step treeAB_step, levels_step treeAB_next, levels_stop subtreeB_stop]
    exact ⟨fun _ _ => by decide, fun _ _ => by decide,
      fun next descends => absurd descends (subtreeB_stop next)⟩

end ThreeLevels

end Kitserv
