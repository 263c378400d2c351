import Kitserv.Api
import Kitserv.RequestRoundTrip

/-! Query parameters on their way to a handler. The query is decoded as a whole before a handler
can split it, so what matters are the delimiters inside keys and values. -/
namespace Kitserv

/-- The bytes that may stand for themselves in a key or a value: not the delimiters. -/
def FieldByte (b : Byte) : Prop := QueryByte b ∧ b ≠ 38 ∧ b ≠ 61

def joinPairs (ps : List (Bytes × Bytes)) : Bytes :=
  [38].intercalate (ps.map fun p => p.1 ++ 61 :: p.2)

def splitPair (piece : Bytes) : Bytes × Bytes :=
  (piece.takeWhile fun b => b != 61, (piece.dropWhile fun b => b != 61).drop 1)

def splitPairs (query : Bytes) : List (Bytes × Bytes) := (query.splitOn 38).map splitPair

def EncodedPair (e p : Bytes × Bytes) : Prop :=
  PercentEncoding FieldByte e.1 p.1 ∧ PercentEncoding FieldByte e.2 p.2

/-- The head asks with the pairs as its query, each key and value percent-encoded. -/
structure AskedWith (pairs : List (Bytes × Bytes)) (t : RequestText) : Prop where
  wf : t.WellFormed
  taken : ∀ h ∈ t.headers, ¬ h.Refused
  plain : ∀ p ∈ pairs, 0 ∉ p.1 ∧ 0 ∉ p.2
  query : ∃ encoded, t.query = some (joinPairs encoded) ∧ List.Forall₂ EncodedPair encoded pairs

/-- No key and no value holds a delimiter that would end it. -/
def Unambiguous (pairs : List (Bytes × Bytes)) : Prop :=
  pairs ≠ [] ∧ ∀ p ∈ pairs, 38 ∉ p.1 ∧ 61 ∉ p.1 ∧ 38 ∉ p.2

theorem joinPairs_one (p : Bytes × Bytes) : joinPairs [p] = p.1 ++ 61 :: p.2 :=
  List.intercalate_singleton

theorem joinPairs_cons (p q : Bytes × Bytes) (rest : List (Bytes × Bytes)) :
    joinPairs (p :: q :: rest) = (p.1 ++ 61 :: p.2) ++ 38 :: joinPairs (q :: rest) := by
  simp only [joinPairs, List.map_cons, List.intercalate_cons_cons, List.append_assoc,
    List.singleton_append]

section Encoding

variable {literal literal' : Byte → Prop} {e e' s s' : Bytes}

theorem PercentEncoding.mono (encoding : PercentEncoding literal e s)
    (weaker : ∀ b, literal b → literal' b) : PercentEncoding literal' e s := by
  induction encoding with
  | nil => exact .nil
  | plain as_is _ ih => exact .plain (weaker _ as_is) ih
  | escaped first second _ ih => exact .escaped first second ih

theorem PercentEncoding.append (first : PercentEncoding literal e s)
    (second : PercentEncoding literal e' s') : PercentEncoding literal (e ++ e') (s ++ s') := by
  induction first with
  | nil => exact second
  | plain as_is _ ih => exact .plain as_is ih
  | escaped high low _ ih => exact .escaped high low ih

theorem queryByte_and : QueryByte 38 := ⟨by decide, by decide, by decide⟩

theorem queryByte_equals : QueryByte 61 := ⟨by decide, by decide, by decide⟩

theorem EncodedPair.joined {e p : Bytes × Bytes} (pair : EncodedPair e p) :
    PercentEncoding QueryByte (e.1 ++ 61 :: e.2) (p.1 ++ 61 :: p.2) := by
  have key := pair.1.mono fun b field => field.1
  have value := pair.2.mono fun b field => field.1
  exact key.append (.plain queryByte_equals value)

theorem encode_joinPairs {es ps : List (Bytes × Bytes)} (pairs : List.Forall₂ EncodedPair es ps) :
    PercentEncoding QueryByte (joinPairs es) (joinPairs ps) := by
  induction pairs with
  | nil => exact .nil
  | @cons e p es ps pair rest ih =>
    cases rest with
    | nil =>
      rw [joinPairs_one, joinPairs_one]
      exact pair.joined
    | cons pair' rest' =>
      rw [joinPairs_cons, joinPairs_cons]
      exact pair.joined.append (.plain queryByte_and ih)

theorem joinPairs_plain {ps : List (Bytes × Bytes)} (plain : ∀ p ∈ ps, 0 ∉ p.1 ∧ 0 ∉ p.2) :
    0 ∉ joinPairs ps := by
  have piece (p : Bytes × Bytes) (member : p ∈ ps) : 0 ∉ p.1 ++ 61 :: p.2 := by
    simp only [List.mem_append, List.mem_cons, not_or]
    exact ⟨(plain p member).1, by decide, (plain p member).2⟩
  induction ps with
  | nil => exact List.not_mem_nil
  | cons p rest ih =>
    have first := piece p (List.mem_cons_self ..)
    have later := ih (fun q member => plain q (List.mem_cons_of_mem _ member))
      (fun q member => piece q (List.mem_cons_of_mem _ member))
    cases rest with
    | nil =>
      rw [joinPairs_one]
      exact first
    | cons q rest =>
      rw [joinPairs_cons]
      intro member
      rcases List.mem_append.mp member with inside | behind
      · exact first inside
      · rcases List.mem_cons.mp behind with delimiter | behind
        · exact absurd delimiter (by decide)
        · exact later behind

end Encoding

section Split

variable {b : Byte} {s piece : Bytes} {pairs : List (Bytes × Bytes)}

theorem not_mem_splitOn (member : piece ∈ s.splitOn b) : b ∉ piece := by
  induction s generalizing piece with
  | nil =>
    rw [List.splitOn_nil, List.mem_singleton] at member
    rw [member]
    exact List.not_mem_nil
  | cons x rest ih =>
    rw [List.splitOn_cons_eq_if_modifyHead] at member
    split at member
    · rcases List.mem_cons.mp member with rfl | later
      · exact List.not_mem_nil
      · exact ih later
    · rename_i other
      obtain ⟨first, pieces, split⟩ := List.exists_cons_of_ne_nil (List.splitOn_ne_nil b rest)
      rw [split, List.modifyHead_cons] at member
      rw [split] at ih
      rcases List.mem_cons.mp member with rfl | later
      · intro inside
        rcases List.mem_cons.mp inside with rfl | inside
        · exact other (beq_self_eq_true b)
        · exact ih (List.mem_cons_self ..) inside
      · exact ih (List.mem_cons_of_mem _ later)

theorem splitPair_join {p : Bytes × Bytes} (plain : 61 ∉ p.1) :
    splitPair (p.1 ++ 61 :: p.2) = p := by
  have other : ∀ b ∈ p.1, (b != 61) = true := by
    intro b member
    exact bne_iff_ne.mpr fun same => plain (same ▸ member)
  have key : (p.1 ++ 61 :: p.2).takeWhile (fun b => b != 61) = p.1 := by
    rw [List.takeWhile_append_of_pos other]
    simp
  have value : (p.1 ++ 61 :: p.2).dropWhile (fun b => b != 61) = 61 :: p.2 := by
    rw [List.dropWhile_append_of_pos other]
    simp
  rw [splitPair, key, value]
  rfl

theorem splitPair_plain (piece : Bytes) : 61 ∉ (splitPair piece).1 := by
  intro member
  have kept := List.mem_takeWhile_imp member
  simp at kept

theorem splitPair_subset {x : Byte} (outside : x ∉ piece) :
    x ∉ (splitPair piece).1 ∧ x ∉ (splitPair piece).2 := by
  refine ⟨fun member => outside (List.takeWhile_subset _ member), fun member => outside ?_⟩
  exact List.dropWhile_subset _ (List.mem_of_mem_drop member)

/-- Splitting undoes the joining on exactly the lists without a delimiter in the wrong place. -/
theorem splitPairs_join_iff : splitPairs (joinPairs pairs) = pairs ↔ Unambiguous pairs := by
  constructor
  · intro same
    refine ⟨?_, ?_⟩
    · rintro rfl
      cases same
    · intro p member
      rw [← same] at member
      obtain ⟨piece, inside, rfl⟩ := List.mem_map.mp member
      have outside := splitPair_subset (not_mem_splitOn inside)
      exact ⟨outside.1, splitPair_plain piece, outside.2⟩
  · rintro ⟨nonempty, clean⟩
    have pieces : ∀ piece ∈ pairs.map (fun p => p.1 ++ 61 :: p.2), 38 ∉ piece := by
      intro piece member
      obtain ⟨p, inside, rfl⟩ := List.mem_map.mp member
      simp only [List.mem_append, List.mem_cons, not_or]
      exact ⟨(clean p inside).1, by decide, (clean p inside).2.2⟩
    rw [splitPairs, joinPairs, List.splitOn_intercalate 38 pieces (by simpa using nonempty),
      List.map_map]
    calc pairs.map (splitPair ∘ fun p => p.1 ++ 61 :: p.2)
        = pairs.map id :=
          List.map_congr_left fun p member => splitPair_join (clean p member).2.1
      _ = pairs := List.map_id pairs

end Split

theorem accepted_info {o : Outcome} {info : HeadInfo} {payload : Option Nat}
    (accepted : o.verdict = .accepted info payload) :
    HeadInfo.ofRequest o.client.reqHeaders o.client.ta.req = info := by
  unfold Outcome.verdict at accepted
  split at accepted
  · split at accepted
    · cases accepted
    · cases accepted
      rfl
  · cases accepted

section Reply

variable {pairs : List (Bytes × Bytes)} {t : RequestText} {n : Nat} {c : Client} {k : Kernel}

/-- What a handler gets is the joined text of the decoded keys and values. -/
theorem AskedWith.reply (asked : AskedWith pairs t) (sent : t.Sent n c k) (s : Server) :
    (apiCall s (recvCalls n c k).client (recvCalls n c k).kernel .getRequestQuery).reply.data =
      some (joinPairs pairs) := by
  obtain ⟨encoded, query, each⟩ := asked.query
  have text : decodedText (joinPairs encoded) = joinPairs pairs :=
    (encode_joinPairs each).decodedText (fun h => h.2.2 rfl) (joinPairs_plain asked.plain)
  have info : t.info.query = some (joinPairs pairs) := by
    rw [RequestText.info, foldl_withHeader, RequestText.lineInfo, query, Option.map_some, text]
  rw [← info, ← accepted_info (sent.accepted asked.wf asked.taken)]
  rfl

/-- The query that a handler gets, split into pairs, is the pairs that were sent. -/
theorem query_survives_iff (asked : AskedWith pairs t) (sent : t.Sent n c k) (s : Server) :
    (apiCall s (recvCalls n c k).client (recvCalls n c k).kernel .getRequestQuery).reply.data.map
      splitPairs = some pairs ↔ Unambiguous pairs := by
  rw [asked.reply sent s, Option.map_some, Option.some.injEq]
  exact splitPairs_join_iff

end Reply

def queryRequest (query : String) : RequestText where
  method := .get
  path := ascii "/"
  query := some (ascii query)
  version := .http11
  headers := []

theorem queryRequest_wellFormed {query : String}
    (shown : (ascii query).all (fun b => isprint b && b != 32) = true) :
    (queryRequest query).WellFormed where
  method := show HttpMethod.get ≠ .unset by decide
  target := by
    intro b member
    rcases List.mem_append.mp member with path | inside
    · rw [List.mem_singleton.mp (show b ∈ [47] from path)]
      decide
    · rcases List.mem_cons.mp inside with rfl | inside
      · decide
      · simpa using List.all_eq_true.mp shown b inside
  mark := show 63 ∉ ascii "/" by decide
  path := by
    change attemptedPathTraversal (decodedText (ascii "/")) = false
    rw [decodedText_of_plain (by decide) (by decide)]
    decide
  headers := List.forall_mem_nil _

theorem letter_encoding {b : Byte} (as_is : FieldByte b) : PercentEncoding FieldByte [b] [b] :=
  .plain as_is .nil

theorem fieldByte_a : FieldByte 97 := ⟨⟨by decide, by decide, by decide⟩, by decide, by decide⟩

theorem asked_plain : AskedWith [([97], [97])] (queryRequest "a=a") where
  wf := queryRequest_wellFormed (by decide)
  taken := List.forall_mem_nil _
  plain := by decide
  query := ⟨[([97], [97])], rfl,
    .cons ⟨letter_encoding fieldByte_a, letter_encoding fieldByte_a⟩ .nil⟩

/-- The value is "&", sent as "%26". -/
theorem asked_delimiter : AskedWith [([97], [38])] (queryRequest "a=%26") where
  wf := queryRequest_wellFormed (by decide)
  taken := List.forall_mem_nil _
  plain := by decide
  query := ⟨[([97], [37, 50, 54])], rfl, .cons ⟨letter_encoding fieldByte_a,
    @PercentEncoding.escaped FieldByte 50 54 2 6 [] [] rfl rfl .nil⟩ .nil⟩

theorem query_survives_iff_plain : (apiCall rootServer
      (recvCalls 2 (createClientStruct Blocks.zeroed)
        { input := RequestText.arrivalOf (queryRequest "a=a").bytes, fs := fun _ => .empty }).client
      (recvCalls 2 (createClientStruct Blocks.zeroed)
        { input := RequestText.arrivalOf (queryRequest "a=a").bytes, fs := fun _ => .empty }).kernel
      .getRequestQuery).reply.data.map splitPairs = some [([97], [97])] ↔
    Unambiguous [([97], [97])] :=
  query_survives_iff asked_plain (RequestText.Sent.fresh (by decide) _ _) rootServer

/-- The handler sees one parameter more than was sent. -/
theorem encoded_delimiter_splits : ¬ (apiCall rootServer
      (recvCalls 2 (createClientStruct Blocks.zeroed)
        { input := RequestText.arrivalOf (queryRequest "a=%26").bytes
          fs := fun _ => .empty }).client
      (recvCalls 2 (createClientStruct Blocks.zeroed)
        { input := RequestText.arrivalOf (queryRequest "a=%26").bytes
          fs := fun _ => .empty }).kernel
      .getRequestQuery).reply.data.map splitPairs = some [([97], [38])] := by
  rw [asked_delimiter.reply (RequestText.Sent.fresh (by decide) _ _) rootServer]
  decide

end Kitserv
