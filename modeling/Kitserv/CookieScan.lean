import Mathlib
import Kitserv.ApiFrame

namespace Kitserv

open Memory

def cutAt (ch : Byte) (text : Bytes) : Option (Bytes × Bytes) :=
  if ch ∈ text then some (text.takeWhile (· != ch), (text.dropWhile (· != ch)).tail) else none

section CutAt

variable {ch : Byte} {text front behind : Bytes}

theorem cutAt_none : cutAt ch text = none ↔ ch ∉ text := by
  simp [cutAt]

theorem cutAt_append (absent : ch ∉ front) :
    cutAt ch (front ++ ch :: behind) = some (front, behind) := by
  have other : ∀ b ∈ front, (b != ch) = true := fun b member =>
    bne_iff_ne.mpr fun same => absent (same ▸ member)
  rw [cutAt, if_pos (List.mem_append_right _ List.mem_cons_self), List.takeWhile_append_of_pos other,
    List.dropWhile_append_of_pos other]
  simp

theorem cutAt_some :
    cutAt ch text = some (front, behind) ↔ text = front ++ ch :: behind ∧ ch ∉ front := by
  constructor
  · intro cut
    by_cases member : ch ∈ text
    · obtain ⟨front', behind', rfl, absent⟩ := List.eq_append_cons_of_mem member
      rw [cutAt_append absent] at cut
      cases cut
      exact ⟨rfl, absent⟩
    · rw [cutAt_none.mpr member] at cut
      cases cut
  · rintro ⟨rfl, absent⟩
    exact cutAt_append absent

theorem cutAt_cons {b : Byte} (other : b ≠ ch) :
    cutAt ch (b :: text) = (cutAt ch text).map fun cut => (b :: cut.1, cut.2) := by
  by_cases member : ch ∈ text
  · obtain ⟨front, behind, rfl, absent⟩ := List.eq_append_cons_of_mem member
    rw [cutAt_append absent, ← List.cons_append, cutAt_append]
    · rfl
    · exact fun member => (List.mem_cons.mp member).elim other.symm absent
  · rw [cutAt_none.mpr member, cutAt_none.mpr fun inside =>
      (List.mem_cons.mp inside).elim other.symm member]
    rfl

end CutAt

/-- The segment without its leading spaces, as a name and a value. -/
def cookieOf (segment : Bytes) : Option (Bytes × Bytes) :=
  cutAt 61 (segment.dropWhile fun b => b == 32)

/-- What the loop of `kitserv_http_parse_cookies` makes of a text with `room` cookies left. The
name reaches to the first '=' of the whole text, and the value from there to the next ';'. -/
def scanCookies (text : Bytes) (room : Nat) : Option (List (Bytes × Bytes)) :=
  match _h : cookieOf text with
  | none => none
  | some (name, behind) =>
    match _h' : cutAt 59 behind with
    | none => if room = 0 then some [] else some [(name, behind)]
    | some (value, rest) =>
      if value = [] then scanCookies rest room
      else if room = 0 then some []
      else (scanCookies rest (room - 1)).map ((name, value) :: ·)
termination_by text.length
decreasing_by
  all_goals
    have name := (cutAt_some.mp _h).1
    have value := (cutAt_some.mp _h').1
    have suffix := List.length_dropWhile_le (fun b : Byte => b == 32) text
    rw [name, value] at suffix
    simp only [List.length_append, List.length_cons] at suffix
    omega

section Passes

variable {text name behind value rest : Bytes} {room : Nat}

theorem scanCookies_malformed (missing : cookieOf text = none) : scanCookies text room = none := by
  rw [scanCookies, missing]

theorem scanCookies_last (cookie : cookieOf text = some (name, behind))
    (last : cutAt 59 behind = none) :
    scanCookies text room = if room = 0 then some [] else some [(name, behind)] := by
  rw [scanCookies, cookie]
  dsimp only
  rw [last]

theorem scanCookies_skip (cookie : cookieOf text = some (name, behind))
    (empty : cutAt 59 behind = some ([], rest)) :
    scanCookies text room = scanCookies rest room := by
  rw [scanCookies, cookie]
  dsimp only
  rw [empty]
  exact if_pos rfl

theorem scanCookies_next (cookie : cookieOf text = some (name, behind))
    (cut : cutAt 59 behind = some (value, rest)) (valued : value ≠ []) :
    scanCookies text room = if room = 0 then some []
      else (scanCookies rest (room - 1)).map ((name, value) :: ·) := by
  rw [scanCookies, cookie]
  dsimp only
  rw [cut]
  exact if_neg valued

end Passes

structure Stored (mem : Bytes) (cookie : HttpCookie) (pair : Bytes × Bytes) : Prop where
  key : TextAt mem cookie.key pair.1
  value : TextAt mem cookie.value pair.2
  keylen : cookie.keylen = pair.1.length

section Scan

variable {mem mem' : Bytes} {path n : Nat} {text : Bytes}

theorem TextAt.strchr_cut (here : TextAt mem path text) (ch : Byte) :
    Kitserv.strchr mem path ch = (cutAt ch text).map fun cut => path + cut.1.length := by
  rw [here.strchr]
  by_cases member : ch ∈ text
  · obtain ⟨front, behind, rfl, absent⟩ := List.eq_append_cons_of_mem member
    rw [if_pos member, cutAt_append absent, List.idxOf_append_of_notMem absent]
    simp
  · rw [if_neg member, cutAt_none.mpr member]
    rfl

theorem TextAt.of_take (here : TextAt mem path text) (same : mem'.take n = mem.take n)
    (inside : path + text.length < n) : TextAt mem' path text := by
  obtain ⟨rest, stored⟩ := here.stored
  refine ⟨here.plain, rest.take (n - path - text.length - 1) ++ mem'.drop n, ?_⟩
  have front : (mem'.take n).drop path = text ++ 0 :: rest.take (n - path - text.length - 1) := by
    rw [same, List.drop_take, stored, List.take_append, List.take_of_length_le (by omega)]
    have more : n - path - text.length = n - path - text.length - 1 + 1 := by omega
    rw [more, List.take_succ_cons]
    rfl
  have whole : mem'.drop path = (mem'.take n).drop path ++ mem'.drop n := by
    have length : path ≤ (mem'.take n).length := by
      have := congrArg List.length front
      rw [List.length_drop, List.length_append, List.length_cons] at this
      omega
    conv => lhs; rw [← List.take_append_drop n mem', List.drop_append_of_le_length length]
  rw [whole, front, List.append_assoc]
  rfl

theorem Stored.of_take {cookie : HttpCookie} {pair : Bytes × Bytes} (stored : Stored mem cookie pair)
    (same : mem'.take n = mem.take n) (key : cookie.key + pair.1.length < n)
    (value : cookie.value + pair.2.length < n) : Stored mem' cookie pair :=
  ⟨stored.key.of_take same key, stored.value.of_take same value, stored.keylen⟩

theorem TextAt.skip (here : TextAt mem path text) :
    TextAt mem (path + ((mem.drop path).takeWhile fun b => b == 32).length)
      (text.dropWhile fun b => b == 32) := by
  rw [here.takeWhile (fun b => b == 32) rfl]
  have behind := here.drop (List.takeWhile_prefix (l := text) fun b => b == 32).length_le
  rwa [drop_length_takeWhile] at behind

end Scan

/-- One pass of the loop over a text with a cookie: the two strings that it ends with a NUL, and
what is left of the text. -/
structure CookieCut (mem : Bytes) (start p : Nat) (name behind : Bytes)
    (cut : Option (Bytes × Bytes)) (mem' : Bytes) : Prop where
  front : mem'.take start = mem.take start
  key : TextAt mem' p name
  value : TextAt mem' (p + name.length + 1) ((cut.map Prod.fst).getD behind)
  rest : ∀ value rest, cut = some (value, rest) →
    TextAt mem' (p + name.length + 1 + value.length + 1) rest

section Pass

variable {mem text name behind : Bytes} {start p r : Nat}

theorem TextAt.cookie (here : TextAt mem start text)
    (skipped : p = start + ((mem.drop start).takeWhile fun b => b == 32).length)
    (equals : Kitserv.strchr mem p 61 = some r) :
    ∃ name behind, cookieOf text = some (name, behind) ∧ r = p + name.length ∧
      TextAt mem p (name ++ 61 :: behind) := by
  have cookie := here.skip
  rw [← skipped] at cookie
  rw [cookie.strchr_cut] at equals
  obtain ⟨⟨name, behind⟩, cut, rfl⟩ := Option.map_eq_some_iff.mp equals
  rw [(cutAt_some.mp cut).1] at cookie
  exact ⟨name, behind, cut, rfl, cookie⟩

/-- The ';' that it then looks for ends the value. -/
theorem strchr_semicolon (here : TextAt mem p (name ++ 61 :: behind)) :
    strchr mem (p + name.length) 59 =
      (cutAt 59 behind).map fun cut => p + name.length + 1 + cut.1.length := by
  have equals : TextAt mem (p + name.length) (61 :: behind) := by
    have := here.drop (n := name.length) (by simp)
    rwa [List.drop_left] at this
  rw [equals.strchr_cut, cutAt_cons (by decide), Option.map_map]
  congr 1
  funext cut
  simp only [Function.comp, List.length_cons]
  omega

theorem cookie_cut (low : start ≤ p) (here : TextAt mem p (name ++ 61 :: behind)) :
    CookieCut mem start p name behind (cutAt 59 behind)
      ((capValue mem (strchr mem (p + name.length) 59)).set (p + name.length) 0) := by
  have equals : TextAt mem (p + name.length) (61 :: behind) := by
    have := here.drop (n := name.length) (by simp)
    rwa [List.drop_left] at this
  have after : TextAt mem (p + name.length + 1) behind := equals.next (n := 0) (by simp)
  rw [strchr_semicolon here]
  cases cut : cutAt 59 behind with
  | none =>
    have key := here.cut (n := name.length) (by simp)
    rw [List.take_left] at key
    refine ⟨List.take_set_of_le (by omega), key, after.set_before (Nat.lt_succ_self _) 0, ?_⟩
    rintro _ _ ⟨⟩
  | some parts =>
    obtain ⟨value, rest⟩ := parts
    obtain ⟨rfl, -⟩ := cutAt_some.mp cut
    have capped := here.cut (n := name.length + 1 + value.length) (by simp; omega)
    have both : (name ++ 61 :: (value ++ 59 :: rest)).take (name.length + 1 + value.length) =
        name ++ 61 :: value := by
      have regroup : name ++ 61 :: (value ++ 59 :: rest) = (name ++ 61 :: value) ++ 59 :: rest := by
        simp
      rw [regroup, List.take_left' (by simp; omega)]
    have key := capped.cut (n := name.length) (by rw [both]; simp)
    rw [both, List.take_left] at key
    have place : p + (name.length + 1 + value.length) = p + name.length + 1 + value.length := by omega
    rw [place] at key
    have first := after.cut (n := value.length) (by simp)
    rw [List.take_left] at first
    have later := after.next (n := value.length) (by simp)
    have tail : (value ++ 59 :: rest).drop (value.length + 1) = rest := by
      simp [List.drop_append]
    rw [tail] at later
    simp only [Option.map_some, capValue]
    refine ⟨?_, key, first.set_before (Nat.lt_succ_self _) 0, ?_⟩
    · rw [List.take_set_of_le (by omega), List.take_set_of_le (by omega)]
    · rintro _ _ ⟨⟩
      exact (later.set_before (by omega) 0).set_before (by omega) 0

end Pass

structure Scanned (cookies : List HttpCookie) (index : Nat) (pairs : List (Bytes × Bytes))
    (r : CookieScan) : Prop where
  ok : r.ok = true
  num : r.num = index + pairs.length
  kept : r.cookies.take index = cookies.take index
  stored : List.Forall₂ (Stored r.mem) ((r.cookies.take r.num).drop index) pairs

structure LoopScans (mem : Bytes) (cookies : List HttpCookie) (index start : Nat) (text : Bytes)
    (r : CookieScan) : Prop where
  front : r.mem.take start = mem.take start
  outcome : match scanCookies text (httpMaxCookies - index) with
    | none => r.ok = false
    | some pairs => Scanned cookies index pairs r

theorem Scanned.cons {cookies : List HttpCookie} {index : Nat} {pair : Bytes × Bytes}
    {pairs : List (Bytes × Bytes)} {r : CookieScan} {cookie : HttpCookie}
    (inside : index ≤ cookies.length) (first : Stored r.mem cookie pair)
    (later : Scanned (cookies.take index ++ [cookie] ++ cookies.drop (index + 1)) (index + 1) pairs r) :
    Scanned cookies index (pair :: pairs) r := by
  have length : (cookies.take index).length = index := List.length_take_of_le inside
  have kept : r.cookies.take (index + 1) = cookies.take index ++ [cookie] := by
    rw [later.kept, List.take_left' (by simp [length])]
  have num := later.num
  have behind := later.stored
  refine ⟨later.ok, by rw [num, List.length_cons]; omega, ?_, ?_⟩
  · have shorter := congrArg (List.take index) kept
    rwa [List.take_take, Nat.min_eq_left (Nat.le_succ index), List.take_left' length] at shorter
  · have split : (r.cookies.take r.num).drop index =
        cookie :: (r.cookies.take r.num).drop (index + 1) := by
      have whole := List.take_append_drop (index + 1) (r.cookies.take r.num)
      rw [List.take_take, Nat.min_eq_left (by omega), kept, List.append_assoc] at whole
      conv => lhs; rw [← whole, List.drop_left' length]
      rfl
    rw [split]
    exact .cons first behind

theorem name_length (p : Nat) (name : Bytes) : ((p + name.length : Nat) : Int) - p = name.length := by
  omega

theorem parseCookiesLoop_scans (mem : Bytes) (cookies : List HttpCookie) (index start : Nat) :
    ∀ text, TextAt mem start text → index ≤ cookies.length → index ≤ httpMaxCookies →
      LoopScans mem cookies index start text (parseCookiesLoop mem cookies index start) := by
  fun_induction parseCookiesLoop mem cookies index start with
  | case1 mem cookies index start p missing =>
    intro text here inside room
    have absent := here.skip.strchr_cut 61
    rw [missing] at absent
    refine ⟨rfl, ?_⟩
    rw [scanCookies_malformed (Option.map_eq_none_iff.mp absent.symm)]
  | case2 mem cookies index start p r equals q mem' full =>
    intro text here inside room
    obtain ⟨name, behind, cookie, rfl, cell⟩ := here.cookie rfl equals
    have pass := cookie_cut (Nat.le_add_right start _) cell
    have stuffed : httpMaxCookies - index = 0 := Nat.sub_eq_zero_of_le (Nat.le_of_not_lt full.2)
    have nothing : scanCookies text (httpMaxCookies - index) = some [] := by
      cases cut : cutAt 59 behind with
      | none => rw [scanCookies_last cookie cut, if_pos stuffed]
      | some parts =>
        obtain ⟨value, rest⟩ := parts
        have valued : value ≠ [] := by
          rintro rfl
          refine full.1 ?_
          simp only [q, strchr_semicolon cell, cut]
          rfl
        rw [scanCookies_next cookie cut valued, if_pos stuffed]
    refine ⟨pass.front, ?_⟩
    rw [nothing]
    refine ⟨rfl, rfl, rfl, ?_⟩
    rw [List.drop_take_self]
    exact .nil
  | case3 mem cookies index start p r equals q mem' stored more next cookies' semicolon =>
    intro text here inside room
    obtain ⟨name, behind, cookie, rfl, cell⟩ := here.cookie rfl equals
    have pass := cookie_cut (Nat.le_add_right start _) cell
    have last : cutAt 59 behind = none := by
      rw [strchr_semicolon cell] at semicolon
      exact Option.map_eq_none_iff.mp semicolon
    have valued : some (p + name.length + 1) ≠ q := by simp [q, semicolon]
    have free : index < httpMaxCookies := Nat.lt_of_not_le fun full => more ⟨valued, by omega⟩
    have next_one : next = index + 1 := dif_pos valued
    have cookies_one : cookies' = stored := dif_pos valued
    refine ⟨pass.front, ?_⟩
    rw [scanCookies_last cookie last, if_neg (by omega), next_one, cookies_one]
    refine Scanned.cons inside ⟨pass.key, ?_, name_length p name⟩ ⟨rfl, rfl, rfl, ?_⟩
    · have value := pass.value
      rwa [last] at value
    · rw [List.drop_take_self]
      exact .nil
  | case4 mem cookies index start p r equals q' mem' stored more next cookies' q semicolon ih =>
    intro text here inside room
    obtain ⟨name, behind, cookie, rfl, cell⟩ := here.cookie rfl equals
    have pass := cookie_cut (Nat.le_add_right start _) cell
    obtain ⟨⟨value, rest⟩, cut, place⟩ : ∃ parts, cutAt 59 behind = some parts ∧
        p + name.length + 1 + parts.1.length = q := by
      rw [strchr_semicolon cell] at semicolon
      exact Option.map_eq_some_iff.mp semicolon
    have place : p + name.length + 1 + value.length = q := place
    have behind_it : TextAt mem' (q + 1) rest := by
      have later := pass.rest value rest cut
      rwa [place] at later
    have front (m : Bytes) (same : m.take (q + 1) = mem'.take (q + 1)) :
        m.take start = mem.take start := by
      have shorter := congrArg (List.take start) same
      rw [List.take_take, List.take_take, Nat.min_eq_left (by omega)] at shorter
      exact shorter.trans pass.front
    by_cases valued : value = []
    · subst valued
      have empty : ¬ some (p + name.length + 1) ≠ q' := by simp [q', semicolon, ← place]
      have next_same : next = index := dif_neg empty
      have cookies_same : cookies' = cookies := dif_neg empty
      rw [next_same, cookies_same] at ih ⊢
      have later := ih rest behind_it inside room
      refine ⟨front _ later.front, ?_⟩
      rw [scanCookies_skip cookie cut]
      exact later.outcome
    · have full : some (p + name.length + 1) ≠ q' := by
        have := List.length_pos_iff.mpr valued
        simp only [q', semicolon, ne_eq, Option.some.injEq]
        omega
      have free : index < httpMaxCookies := Nat.lt_of_not_le fun stuffed => more ⟨full, by omega⟩
      have next_one : next = index + 1 := dif_pos full
      have cookies_one : cookies' = stored := dif_pos full
      rw [next_one, cookies_one] at ih ⊢
      have length : index + 1 ≤ stored.length := by
        simp only [stored, List.length_append, List.length_take, List.length_singleton]
        omega
      have later := ih rest behind_it length free
      refine ⟨front _ later.front, ?_⟩
      have outcome := later.outcome
      rw [scanCookies_next cookie cut valued, if_neg (by omega), Nat.sub_sub]
      revert outcome
      cases scanCookies rest (httpMaxCookies - (index + 1)) with
      | none => exact id
      | some pairs =>
        intro scanned
        have first : Stored mem' { key := p, value := p + name.length + 1, keylen :=
            ((p + name.length : Nat) : Int) - p } (name, value) := by
          refine ⟨pass.key, ?_, name_length p name⟩
          have value := pass.value
          rwa [cut] at value
        exact Scanned.cons inside (first.of_take later.front (by simp only; omega)
          (by simp only; omega)) scanned

end Kitserv
