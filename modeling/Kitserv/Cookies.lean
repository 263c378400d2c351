import Kitserv.CookieScan
import Kitserv.Lifecycle

namespace Kitserv

open Memory

/-- The return value of `kitserv_http_parse_cookies`, which is called with a fresh header only. -/
def parseCookiesRc (c : Client) : Int :=
  match c.ta.req.freshCookies with
  | none => 0
  | some p => if (parseCookiesLoop c.reqHeaders c.reqCookies 0 p).ok then 0 else -1

structure HasCookies (c : Client) (pairs : List (Bytes × Bytes)) : Prop where
  num : c.ta.reqNumCookies = pairs.length
  stored : List.Forall₂ (Stored c.reqHeaders) (c.reqCookies.take c.ta.reqNumCookies) pairs

section Parse

variable {c : Client} {p : Nat} {text : Bytes} {pairs pairs' : List (Bytes × Bytes)}

theorem HasCookies.nil (none : c.ta.reqNumCookies = 0) : HasCookies c [] := by
  refine ⟨none, ?_⟩
  rw [none]
  exact .nil

theorem HasCookies.unique (h : HasCookies c pairs) (h' : HasCookies c pairs') : pairs = pairs' := by
  have one := h.stored
  have other := h'.stored
  generalize c.reqCookies.take c.ta.reqNumCookies = cookies at one other
  clear h h'
  induction one generalizing pairs' with
  | nil =>
    cases other
    rfl
  | cons stored _ ih =>
    cases other with
    | cons stored' rest =>
      rw [ih rest]
      congr 1
      exact Prod.ext (stored.key.reads.symm.trans stored'.key.reads)
        (stored.value.reads.symm.trans stored'.value.reads)

theorem parseCookies_scans (fresh : c.ta.req.freshCookies = some p) (here : TextAt c.reqHeaders p text)
    (none_yet : c.ta.reqNumCookies = 0) :
    match scanCookies text httpMaxCookies with
    | none => parseCookiesRc c = -1 ∧ HasCookies (parseCookies c) []
    | some pairs => parseCookiesRc c = 0 ∧ HasCookies (parseCookies c) pairs := by
  have scans := (parseCookiesLoop_scans c.reqHeaders c.reqCookies 0 p text here (Nat.zero_le _)
    (Nat.zero_le _)).outcome
  rw [Nat.sub_zero] at scans
  revert scans
  cases scanCookies text httpMaxCookies with
  | none =>
    intro failed
    dsimp only at failed ⊢
    refine ⟨by simp [parseCookiesRc, fresh, failed], .nil ?_⟩
    simp [parseCookies, fresh, failed, none_yet]
  | some pairs =>
    intro scanned
    dsimp only at scanned ⊢
    have num := scanned.num
    rw [Nat.zero_add] at num
    refine ⟨by simp [parseCookiesRc, fresh, scanned.ok], ?_, ?_⟩
    · simp [parseCookies, fresh, scanned.ok, num]
    · simpa [parseCookies, fresh, scanned.ok] using scanned.stored

end Parse

section Lookup

variable {c : Client} {pairs : List (Bytes × Bytes)}

def getRequestCookie (c : Client) (k : Kernel) (key : Bytes) : CallResult :=
  getRequestCookieN c k key key.length

def cookieCalls (c : Client) (k : Kernel) : List Bytes → List Reply
  | [] => []
  | key :: keys =>
    let r := getRequestCookie c k key
    r.reply :: cookieCalls r.client r.kernel keys

def findCookie (pairs : List (Bytes × Bytes)) (key : Bytes) : Option Bytes :=
  (pairs.find? fun cookie => cookie.1 == key).map Prod.snd

theorem HasCookies.find (has : HasCookies c pairs) (key : Bytes) :
    ((c.reqCookies.take c.ta.reqNumCookies).find? fun cookie =>
      ((key.length : Int) == cookie.keylen && key == cString c.reqHeaders cookie.key)).map
        (fun cookie => cString c.reqHeaders cookie.value) = findCookie pairs key := by
  have stored := has.stored
  generalize c.reqCookies.take c.ta.reqNumCookies = cookies at stored
  clear has
  induction stored with
  | nil => rfl
  | @cons cookie pair _ _ first _ ih =>
    have same : ((key.length : Int) == cookie.keylen && key == cString c.reqHeaders cookie.key) =
        (pair.1 == key) := by
      rw [first.key.reads, first.keylen]
      by_cases found : key = pair.1
      · simp [found]
      · have other : ¬ pair.1 = key := fun same => found same.symm
        rw [beq_eq_false_iff_ne.mpr found, beq_eq_false_iff_ne.mpr other, Bool.and_false]
    simp only [findCookie, List.find?_cons, same]
    cases pair.1 == key with
    | true => exact congrArg some first.value.reads
    | false => exact ih

theorem parseCookies_again (c : Client) : parseCookies (parseCookies c) = parseCookies c := by
  cases fresh : c.ta.req.freshCookies with
  | none => simp only [parseCookies, fresh]
  | some p => simp only [parseCookies, fresh]

theorem getRequestCookie_finds (has : HasCookies (parseCookies c) pairs)
    (named : ∀ pair ∈ pairs, pair.1 ≠ []) (k : Kernel) (key : Bytes) :
    (getRequestCookie c k key).reply.data = findCookie pairs key ∧
      HasCookies (parseCookies (getRequestCookie c k key).client) pairs := by
  simp only [getRequestCookie, getRequestCookieN]
  split
  · rename_i empty
    have nil : key = [] := List.length_eq_zero_iff.mp (by omega)
    refine ⟨?_, has⟩
    have missing : pairs.find? (fun cookie => cookie.1 == key) = none := by
      rw [List.find?_eq_none, nil]
      intro pair member
      simpa using named pair member
    rw [findCookie, missing]
    rfl
  · refine ⟨has.find key, ?_⟩
    rw [parseCookies_again]
    exact has

theorem cookieCalls_find (has : HasCookies (parseCookies c) pairs)
    (named : ∀ pair ∈ pairs, pair.1 ≠ []) (k : Kernel) (keys : List Bytes) :
    (cookieCalls c k keys).map Reply.data = keys.map (findCookie pairs) := by
  induction keys generalizing c k with
  | nil => rfl
  | cons key keys ih =>
    obtain ⟨found, later⟩ := getRequestCookie_finds has named k key
    simp only [cookieCalls, List.map_cons, found]
    rw [ih later]

end Lookup

section RoundTrip

def sentCookie (spaces : Nat) (cookie : Bytes × Bytes) : Bytes :=
  List.replicate spaces 32 ++ (cookie.1 ++ 61 :: cookie.2)

def sentCookies : List (Nat × Bytes × Bytes) → Bytes
  | [] => []
  | [cookie] => sentCookie cookie.1 cookie.2
  | cookie :: next :: rest => sentCookie cookie.1 cookie.2 ++ 59 :: sentCookies (next :: rest)

structure CookieProper (cookie : Bytes × Bytes) : Prop where
  name : cookie.1 ≠ []
  equals : 61 ∉ cookie.1
  semicolon : 59 ∉ cookie.1
  space : cookie.1.head? ≠ some 32
  value : cookie.2 ≠ []
  capped : 59 ∉ cookie.2

variable {cookie : Bytes × Bytes}

theorem cookieOf_sent (proper : CookieProper cookie) (spaces : Nat) (more : Bytes) :
    cookieOf (sentCookie spaces cookie ++ more) = some (cookie.1, cookie.2 ++ more) := by
  obtain ⟨name, value⟩ := cookie
  have all : ∀ b ∈ List.replicate spaces (32 : Byte), (b == 32) = true := by
    intro b member
    rw [(List.mem_replicate.mp member).2]
    rfl
  have skipped : (name ++ 61 :: (value ++ more)).dropWhile (fun b => b == 32) =
      name ++ 61 :: (value ++ more) := by
    cases name with
    | nil => exact absurd rfl proper.name
    | cons b rest =>
      have other : b ≠ 32 := fun space => proper.space (by rw [space]; rfl)
      rw [List.cons_append, List.dropWhile_cons_of_neg (by simpa using other)]
  rw [cookieOf, sentCookie, List.append_assoc, List.append_assoc, List.cons_append,
    List.dropWhile_append_of_pos all, skipped]
  exact cutAt_append proper.equals

theorem scanCookies_sent {cookies : List (Nat × Bytes × Bytes)} (nonempty : cookies ≠ [])
    (proper : ∀ cookie ∈ cookies, CookieProper cookie.2) (room : Nat) :
    scanCookies (sentCookies cookies) room = some ((cookies.map Prod.snd).take room) := by
  induction cookies generalizing room with
  | nil => exact absurd rfl nonempty
  | cons cookie rest ih =>
    have first := proper cookie List.mem_cons_self
    cases rest with
    | nil =>
      have found := cookieOf_sent first cookie.1 []
      rw [List.append_nil, List.append_nil] at found
      rw [sentCookies, scanCookies_last found (cutAt_none.mpr first.capped)]
      cases room with
      | zero => rfl
      | succ room => simp
    | cons next rest =>
      have found := cookieOf_sent first cookie.1 (59 :: sentCookies (next :: rest))
      rw [sentCookies, scanCookies_next found (cutAt_append first.capped) first.value]
      cases room with
      | zero => rfl
      | succ room =>
        have later := ih (List.cons_ne_nil _ _)
          (fun cookie member => proper cookie (List.mem_cons_of_mem _ member)) room
        rw [if_neg (Nat.succ_ne_zero room), Nat.add_sub_cancel, later]
        rfl

end RoundTrip

def receivedCookies (text : Bytes) : Client :=
  { createClientStruct Blocks.zeroed with
    reqHeaders := text ++ [0]
    ta := { req := { freshCookies := some 0 } } }

/-- Whatever is looked up and in whichever order, the cookies that were sent come back, as many of
them as there is room for. -/
theorem cookie_round_trip {c : Client} {p : Nat} {cookies : List (Nat × Bytes × Bytes)}
    (fresh : c.ta.req.freshCookies = some p) (here : TextAt c.reqHeaders p (sentCookies cookies))
    (none_yet : c.ta.reqNumCookies = 0) (proper : ∀ cookie ∈ cookies, CookieProper cookie.2)
    (k : Kernel) (keys : List Bytes) :
    (cookieCalls c k keys).map Reply.data =
      keys.map (findCookie ((cookies.map Prod.snd).take httpMaxCookies)) := by
  have scanned := parseCookies_scans fresh here none_yet
  have named : ∀ pair ∈ (cookies.map Prod.snd).take httpMaxCookies, pair.1 ≠ [] := by
    intro pair member
    obtain ⟨cookie, sent, rfl⟩ := List.mem_map.mp (List.mem_of_mem_take member)
    exact (proper cookie sent).name
  refine cookieCalls_find ?_ named k keys
  by_cases empty : cookies = []
  · subst empty
    have malformed : cookieOf [] = none := rfl
    rw [sentCookies, scanCookies_malformed malformed] at scanned
    exact scanned.2
  · rw [scanCookies_sent empty proper] at scanned
    exact scanned.2

theorem cookie_round_trip_two :
    (cookieCalls (receivedCookies (ascii "a=b;  a=c=")) { fs := fun _ => .empty }
      [ascii "a", ascii "b", ascii "a"]).map Reply.data = [some (ascii "b"), none, some (ascii "b")] := by
  have here : TextAt (receivedCookies (ascii "a=b;  a=c=")).reqHeaders 0
      (sentCookies [(0, ascii "a", ascii "b"), (2, ascii "a", ascii "c=")]) := ⟨by decide, [], rfl⟩
  have proper : ∀ cookie ∈ [(0, ascii "a", ascii "b"), (2, ascii "a", ascii "c=")],
      CookieProper cookie.2 := by
    intro cookie member
    rcases List.mem_pair.mp member with rfl | rfl
    · constructor <;> decide
    · constructor <;> decide
  exact cookie_round_trip rfl here rfl proper _ _

section Segments

variable {text front rest : Bytes} {room : Nat}

def cookieSegments (text : Bytes) : List Bytes := text.splitOn 59

theorem cookieSegments_ne_nil (text : Bytes) : cookieSegments text ≠ [] := List.splitOn_ne_nil 59 text

def lastSegment (text : Bytes) : Bytes := (cookieSegments text).getLast (cookieSegments_ne_nil text)

theorem cookieSegments_append (front rest : Bytes) :
    cookieSegments (front ++ 59 :: rest) = cookieSegments front ++ cookieSegments rest :=
  List.splitOn_append_cons_self front rest

theorem cookieSegments_one (one : 59 ∉ text) : cookieSegments text = [text] := List.splitOn_eq_singleton one

theorem lastSegment_one (one : 59 ∉ text) : lastSegment text = text := by
  simp only [lastSegment, cookieSegments_one one, List.getLast_singleton]

theorem lastSegment_append (front rest : Bytes) :
    lastSegment (front ++ 59 :: rest) = lastSegment rest := by
  simp only [lastSegment, cookieSegments_append]
  exact List.getLast_append_of_ne_nil _ (cookieSegments_ne_nil rest)

theorem cookieSegments_pos (text : Bytes) : 0 < (cookieSegments text).length :=
  List.length_pos_iff.mpr (cookieSegments_ne_nil text)

theorem lastSegment_mem (text : Bytes) : lastSegment text ∈ cookieSegments text :=
  List.getLast_mem (cookieSegments_ne_nil text)

theorem lastSegment_behind (front : Bytes) (one : 59 ∉ rest) :
    ∃ before, lastSegment (front ++ rest) = before ++ rest := by
  induction length : front.length using Nat.strongRecOn generalizing front with
  | ind n ih =>
    by_cases member : 59 ∈ front
    · obtain ⟨first, behind, rfl, -⟩ := List.eq_append_cons_of_mem member
      have shorter : behind.length < n := by
        rw [← length, List.length_append, List.length_cons]
        omega
      obtain ⟨before, last⟩ := ih _ shorter behind rfl
      refine ⟨before, ?_⟩
      rw [List.append_assoc, List.cons_append, lastSegment_append, last]
    · refine ⟨front, lastSegment_one fun inside => ?_⟩
      rcases List.mem_append.mp inside with early | late
      · exact member early
      · exact one late

theorem lastSegment_subset (text : Bytes) : ∀ b ∈ lastSegment text, b ∈ text := by
  induction length : text.length using Nat.strongRecOn generalizing text with
  | ind n ih =>
    intro b inside
    by_cases member : 59 ∈ text
    · obtain ⟨front, rest, rfl, -⟩ := List.eq_append_cons_of_mem member
      have shorter : rest.length < n := by
        rw [← length, List.length_append, List.length_cons]
        omega
      rw [lastSegment_append] at inside
      exact List.mem_append_right _ (List.mem_cons_of_mem _ (ih _ shorter rest rfl b inside))
    · rwa [lastSegment_one member] at inside

theorem cookieOf_none : cookieOf text = none ↔ 61 ∉ text := by
  have whole := List.takeWhile_append_dropWhile (p := fun b : Byte => b == 32) (l := text)
  rw [cookieOf, cutAt_none, not_iff_not]
  constructor
  · intro inside
    rw [← whole]
    exact List.mem_append_right _ inside
  · intro inside
    rw [← whole] at inside
    rcases List.mem_append.mp inside with space | behind
    · have space := List.mem_takeWhile_imp space
      cases space
    · exact behind

theorem cookieOf_some {name behind : Bytes} (cookie : cookieOf text = some (name, behind)) :
    ∃ before, text = before ++ 61 :: behind := by
  have whole := List.takeWhile_append_dropWhile (p := fun b : Byte => b == 32) (l := text)
  rw [(cutAt_some.mp cookie).1] at whole
  exact ⟨_, by rw [← whole, List.append_assoc]⟩

theorem cookieSegments_behind {name behind value : Bytes} (cookie : cookieOf text = some (name, behind))
    (cut : cutAt 59 behind = some (value, rest)) :
    (cookieSegments rest).length < (cookieSegments text).length ∧ lastSegment text = lastSegment rest := by
  obtain ⟨before, rfl⟩ := cookieOf_some cookie
  obtain ⟨rfl, -⟩ := cutAt_some.mp cut
  have regroup : before ++ 61 :: (value ++ 59 :: rest) = (before ++ 61 :: value) ++ 59 :: rest := by
    simp
  rw [regroup, lastSegment_append, cookieSegments_append, List.length_append]
  have := cookieSegments_pos (before ++ 61 :: value)
  exact ⟨by omega, rfl⟩

theorem scanCookies_isSome (few : (cookieSegments text).length ≤ room) :
    (scanCookies text room).isSome ↔ 61 ∈ lastSegment text := by
  have last_one {text name behind : Bytes} (cookie : cookieOf text = some (name, behind))
      (last : cutAt 59 behind = none) : 61 ∈ lastSegment text := by
    obtain ⟨before, rfl⟩ := cookieOf_some cookie
    have one : 59 ∉ 61 :: behind := fun member =>
      (List.mem_cons.mp member).elim (by decide) (cutAt_none.mp last)
    obtain ⟨front, behind_it⟩ := lastSegment_behind before one
    rw [behind_it]
    exact List.mem_append_right _ List.mem_cons_self
  fun_induction scanCookies text room with
  | case1 text room missing =>
    have absent := cookieOf_none.mp missing
    simp only [Option.isSome_none, Bool.false_eq_true, false_iff]
    exact fun inside => absent (lastSegment_subset text 61 inside)
  | case2 text name behind cookie last => simpa using last_one cookie last
  | case3 text room name behind cookie last => simpa using last_one cookie last
  | case4 text room name behind cookie rest cut ih =>
    have behind := cookieSegments_behind cookie cut
    rw [behind.2]
    exact ih (by omega)
  | case5 text name behind cookie value rest cut =>
    have := cookieSegments_pos text
    omega
  | case6 text room name behind cookie value rest cut valued free ih =>
    have behind := cookieSegments_behind cookie cut
    rw [Option.isSome_map, behind.2]
    exact ih (by omega)

theorem cookieOf_append {name value : Bytes} (cookie : cookieOf front = some (name, value))
    (more : Bytes) : cookieOf (front ++ more) = some (name, value ++ more) := by
  obtain ⟨whole, absent⟩ := cutAt_some.mp cookie
  rw [cookieOf, List.dropWhile_append, whole, if_neg (by simp), List.append_assoc, List.cons_append]
  exact cutAt_append absent

def valued (cookie : Bytes × Bytes) : Bool := cookie.2 ≠ []

/-- The cookies of the segments that have a value, the last one aside. -/
def earlierCookies (text : Bytes) : List (Bytes × Bytes) :=
  ((cookieSegments text).dropLast.filterMap cookieOf).filter valued

theorem scanCookies_segments (few : (cookieSegments text).length ≤ room)
    (all : ∀ segment ∈ cookieSegments text, 61 ∈ segment) :
    scanCookies text room = some (earlierCookies text ++ (cookieOf (lastSegment text)).toList) := by
  induction length : text.length using Nat.strongRecOn generalizing text room with
  | ind n ih =>
    by_cases member : 59 ∈ text
    · obtain ⟨front, rest, rfl, absent⟩ := List.eq_append_cons_of_mem member
      have shorter : rest.length < n := by
        rw [← length, List.length_append, List.length_cons]
        omega
      rw [cookieSegments_append, cookieSegments_one absent] at few all
      have equals := all front (List.mem_append_left _ (List.mem_singleton.mpr rfl))
      obtain ⟨⟨name, value⟩, cookie⟩ := Option.ne_none_iff_exists'.mp
        fun missing => cookieOf_none.mp missing equals
      have found := cookieOf_append cookie (59 :: rest)
      have uncut : 59 ∉ value := by
        obtain ⟨before, rfl⟩ := cookieOf_some cookie
        exact fun inside => absent (List.mem_append_right _ (List.mem_cons_of_mem _ inside))
      have later := @ih _ shorter rest
      have earlier : earlierCookies (front ++ 59 :: rest) =
          [(name, value)].filter valued ++ earlierCookies rest := by
        rw [earlierCookies, cookieSegments_append, cookieSegments_one absent, List.singleton_append,
          List.dropLast_cons_of_ne_nil (cookieSegments_ne_nil rest), List.filterMap_cons, cookie]
        exact List.filter_append [(name, value)] _
      simp only [List.length_append, List.length_singleton] at few
      have rest_all (segment : Bytes) (inside : segment ∈ cookieSegments rest) : 61 ∈ segment :=
        all segment (List.mem_append_right _ inside)
      rw [earlier, lastSegment_append]
      by_cases empty : value = []
      · subst empty
        rw [scanCookies_skip found (cutAt_append uncut), later (by omega) rest_all rfl]
        rfl
      · have kept : valued (name, value) = true := decide_eq_true empty
        rw [scanCookies_next found (cutAt_append uncut) empty, if_neg (by omega),
          later (by omega) rest_all rfl, List.filter_cons_of_pos kept]
        rfl
    · have equals := all text (by rw [cookieSegments_one member]; exact List.mem_singleton.mpr rfl)
      obtain ⟨⟨name, value⟩, cookie⟩ := Option.ne_none_iff_exists'.mp
        fun missing => cookieOf_none.mp missing equals
      have uncut : cutAt 59 value = none := by
        obtain ⟨before, rfl⟩ := cookieOf_some cookie
        exact cutAt_none.mpr
          fun inside => member (List.mem_append_right _ (List.mem_cons_of_mem _ inside))
      have := cookieSegments_pos text
      rw [scanCookies_last cookie uncut, if_neg (by omega), lastSegment_one member, cookie,
        earlierCookies, cookieSegments_one member]
      rfl

/-- The header was parsed segment by segment. -/
def BySegments (text : Bytes) (rc : Int) (c : Client) : Prop :=
  if ∀ segment ∈ cookieSegments text, 61 ∈ segment then
    rc = 0 ∧ HasCookies c (((cookieSegments text).filterMap cookieOf).filter valued)
  else rc = -1 ∧ HasCookies c []

end Segments

/-- A header is parsed segment by segment exactly if its last segment is malformed, or none of them
is and the last one has a value. -/
theorem cookie_segments_iff {c : Client} {p : Nat} {text : Bytes}
    (fresh : c.ta.req.freshCookies = some p) (here : TextAt c.reqHeaders p text)
    (none_yet : c.ta.reqNumCookies = 0) (few : (cookieSegments text).length ≤ httpMaxCookies) :
    BySegments text (parseCookiesRc c) (parseCookies c) ↔
      61 ∉ lastSegment text ∨ ((∀ segment ∈ cookieSegments text, 61 ∈ segment) ∧
        ∀ name, cookieOf (lastSegment text) ≠ some (name, [])) := by
  have scanned := parseCookies_scans fresh here none_yet
  by_cases all : ∀ segment ∈ cookieSegments text, 61 ∈ segment
  · have last := all _ (lastSegment_mem text)
    obtain ⟨⟨name, value⟩, cookie⟩ := Option.ne_none_iff_exists'.mp
      fun missing => cookieOf_none.mp missing last
    rw [scanCookies_segments few all, cookie] at scanned
    have split : ((cookieSegments text).filterMap cookieOf).filter valued =
        earlierCookies text ++ [(name, value)].filter valued := by
      have whole := List.dropLast_append_getLast (cookieSegments_ne_nil text)
      have cookie : cookieOf ((cookieSegments text).getLast (cookieSegments_ne_nil text)) =
        some (name, value) := cookie
      conv => lhs; rw [← whole, List.filterMap_append, List.filter_append]
      rw [earlierCookies, List.filterMap_cons, cookie]
      rfl
    rw [BySegments, if_pos all, split, cookie]
    by_cases empty : value = []
    · subst empty
      constructor
      · rintro ⟨-, has⟩
        have same := congrArg List.length (has.unique scanned.2)
        have dropped : [(name, ([] : Bytes))].filter valued = [] := rfl
        simp [dropped] at same
      · rintro (malformed | ⟨-, proper⟩)
        · exact absurd last malformed
        · exact absurd rfl (proper name)
    · have kept : [(name, value)].filter valued = [(name, value)] :=
        List.filter_cons_of_pos (decide_eq_true empty)
      rw [kept]
      refine ⟨fun _ => .inr ⟨all, fun name' same => ?_⟩, fun _ => scanned⟩
      cases same
      exact empty rfl
  · rw [BySegments, if_neg all]
    have gives_up := scanCookies_isSome few
    cases found : scanCookies text httpMaxCookies with
    | none =>
      rw [found] at scanned gives_up
      have malformed : 61 ∉ lastSegment text := by simpa using gives_up
      exact ⟨fun _ => .inl malformed, fun _ => scanned⟩
    | some pairs =>
      rw [found] at scanned gives_up
      have last : 61 ∈ lastSegment text := gives_up.mp rfl
      constructor
      · rintro ⟨failed, -⟩
        cases scanned.1.symm.trans failed
      · rintro (malformed | ⟨whole, -⟩)
        · exact absurd last malformed
        · exact absurd whole all

theorem cookie_segments_iff_two :
    BySegments (ascii "a=b; c") (parseCookiesRc (receivedCookies (ascii "a=b; c")))
      (parseCookies (receivedCookies (ascii "a=b; c"))) ↔
        61 ∉ lastSegment (ascii "a=b; c") ∨ ((∀ segment ∈ cookieSegments (ascii "a=b; c"), 61 ∈ segment) ∧
          ∀ name, cookieOf (lastSegment (ascii "a=b; c")) ≠ some (name, [])) :=
  have here : TextAt (receivedCookies (ascii "a=b; c")).reqHeaders 0 (ascii "a=b; c") :=
    ⟨by decide, [], rfl⟩
  cookie_segments_iff rfl here rfl (by decide)

/-- Of two segments the first has no '=': it becomes a part of the name of the second. -/
theorem cookie_segments_glued :
    ¬ BySegments (ascii "a; b=c") (parseCookiesRc (receivedCookies (ascii "a; b=c")))
      (parseCookies (receivedCookies (ascii "a; b=c"))) := by
  have here : TextAt (receivedCookies (ascii "a; b=c")).reqHeaders 0 (ascii "a; b=c") :=
    ⟨by decide, [], rfl⟩
  have first : ¬ ∀ segment ∈ cookieSegments (ascii "a; b=c"), 61 ∈ segment := by decide
  have few : (cookieSegments (ascii "a; b=c")).length ≤ httpMaxCookies := by decide
  have last : 61 ∈ lastSegment (ascii "a; b=c") := by decide
  have scanned := parseCookies_scans rfl here rfl
  obtain ⟨pairs, found⟩ := Option.isSome_iff_exists.mp ((scanCookies_isSome few).mpr last)
  rw [found] at scanned
  rw [BySegments, if_neg first]
  rintro ⟨failed, -⟩
  cases scanned.1.symm.trans failed

end Kitserv
