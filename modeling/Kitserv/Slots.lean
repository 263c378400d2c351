import Kitserv.Basis.LinkedList
import Kitserv.Lifecycle

/-! The connection slots of kitserv.c. A pointer to a connection is the index of its slot;
`none` is NULL, and an index behind the last slot is an address outside of the block. -/
namespace Kitserv

open LinkedList

abbrev Link := Option Nat

structure Connection where
  nextConn : Link
  sockfd : Int
  client : Client

structure ConnectionContainer where
  freelistCount : Int
  firstFreeConn : Link
  connections : List Connection

/-- One slot of the block that malloc returned, with the words it happens to hold, and the blocks
that its client gets. -/
structure RawSlot where
  nextConn : Link
  sockfd : Int
  blocks : Blocks

/-- `connection_init`, when no allocation fails. The loop over `next_conn` ends before the last
slot. -/
def connectionInit (memory : List RawSlot) : ConnectionContainer where
  freelistCount := memory.length
  firstFreeConn := some 0
  connections := memory.mapIdx fun i raw =>
    { nextConn := if i < memory.length - 1 then some (i + 1) else raw.nextConn
      sockfd := raw.sockfd
      client := createClientStruct raw.blocks }

/-- The assertions of `connection_accept` about the client. -/
def Client.isFresh (c : Client) : Bool :=
  c.reqHeadersLen == 0 && c.respBody.len == 0 && c.ta.resp.fd == 0 &&
    c.ta.resp.fd == fdDisable && c.ta.state == .read && c.ta.parseState == .new &&
    c.ta.resp.status == .xRespStatusUnset

/-- `connection_accept`; `none` is a failed assertion or the use of a pointer to no slot. -/
def connectionAccept (container : ConnectionContainer) (socket : Int) :
    Option (Link × ConnectionContainer) :=
  match container.firstFreeConn with
  | none => some (none, container)
  | some i =>
    if container.freelistCount > 0 then
      match container.connections[i]? with
      | none => none
      | some conn =>
        if conn.client.isFresh then
          some (some i,
            { freelistCount := container.freelistCount - 1
              firstFreeConn := conn.nextConn
              connections := container.connections.set i { conn with sockfd := socket } })
        else none
    else none

def connectionClose (container : ConnectionContainer) (k : Kernel) (i : Nat) :
    Option (ConnectionContainer × Kernel) :=
  container.connections[i]?.map fun conn =>
    let r := resetClient conn.client k
    ({ freelistCount := container.freelistCount + 1
       firstFreeConn := some i
       connections := container.connections.set i
        { conn with nextConn := container.firstFreeConn, client := r.1 } }, r.2)

structure Slots where
  container : ConnectionContainer
  inUse : List Nat

/-- The states that calls of `connection_accept` and `connection_close` lead to. Between the two a
worker leaves any client in the slot, and only connections in use are closed. -/
inductive History (memory : List RawSlot) : Slots → Prop where
  | init : History memory { container := connectionInit memory, inUse := [] }
  | accept {s : Slots} {container : ConnectionContainer} {link : Link} (socket : Int)
      (earlier : History memory s)
      (accepted : connectionAccept s.container socket = some (link, container)) :
      History memory { container := container, inUse := link.toList ++ s.inUse }
  | serve {s : Slots} {i : Nat} {conn : Connection} (client : Client) (earlier : History memory s)
      (used : i ∈ s.inUse) (slot : s.container.connections[i]? = some conn) :
      History memory
        { s with container := { s.container with
          connections := s.container.connections.set i { conn with client := client } } }
  | close {s : Slots} {i : Nat} {container : ConnectionContainer} {k k' : Kernel}
      (earlier : History memory s) (used : i ∈ s.inUse)
      (closed : connectionClose s.container k i = some (container, k')) :
      History memory { container := container, inUse := s.inUse.erase i }

def ConnectionContainer.next (container : ConnectionContainer) (i : Nat) : Option Link :=
  container.connections[i]?.map Connection.nextConn

structure FreeList (n : Nat) (s : Slots) (free : List Nat) : Prop where
  linked : Linked s.container.next s.container.firstFreeConn free
  nodup : free.Nodup
  count : s.container.freelistCount = free.length
  member : ∀ i, i ∈ free ↔ i < n ∧ i ∉ s.inUse

/-- What the slots promise in every state: the free list, and an accept that passes its
assertions, gives out a slot that is not in use, and NULL exactly when there is none. -/
structure SlotsOk (n : Nat) (s : Slots) : Prop where
  list : ∃ free, FreeList n s free
  accepts : ∀ socket, ∃ link container, connectionAccept s.container socket = some (link, container) ∧
    (link = none ↔ ∀ i < n, i ∈ s.inUse) ∧ ∀ i, link = some i → i < n ∧ i ∉ s.inUse

/-- The free list of `n` slots, of which the `used` ones have been given out, up to a link `last`
that no call has written. -/
structure FreeChain (n : Nat) (used : Nat → Prop) (container : ConnectionContainer)
    (free : List Nat) (last : Link) : Prop where
  segment : Segment container.next container.firstFreeConn free last
  nodup : free.Nodup
  count : container.freelistCount = free.length
  member : ∀ i, i ∈ free ↔ i < n ∧ ¬ used i
  size : container.connections.length = n
  fresh : ∀ i ∈ free, ∀ conn, container.connections[i]? = some conn → conn.client.isFresh = true

theorem createClientStruct_isFresh (blocks : Blocks) : (createClientStruct blocks).isFresh = true :=
  rfl

theorem reset_len (b : Buffer) (size : Nat) (out : ReallocOutcome) : (b.reset size out).len = 0 := by
  simp only [Buffer.reset]
  split
  · split <;> rfl
  · rfl

theorem resetClient_isFresh (c : Client) (k : Kernel) : (resetClient c k).1.isFresh = true := by
  simp only [resetClient, cleanupClient, Client.isFresh, reset_len]
  rfl

theorem next_set {container : ConnectionContainer} {i j : Nat} {conn : Connection} (other : i ≠ j) :
    (container.connections.set i conn)[j]? = container.connections[j]? :=
  List.getElem?_set_ne other

namespace FreeChain

variable {n : Nat} {used used' : Nat → Prop} {container : ConnectionContainer} {free : List Nat}
  {last : Link}

theorem congr (h : FreeChain n used container free last) (same : ∀ i, used' i ↔ used i) :
    FreeChain n used' container free last :=
  ⟨h.segment, h.nodup, h.count, fun i => by rw [h.member, same], h.size, h.fresh⟩

theorem slot (h : FreeChain n used container free last) {i : Nat} (lt : i < n) :
    ∃ conn, container.connections[i]? = some conn := by
  rw [← h.size] at lt
  exact ⟨_, List.getElem?_eq_getElem lt⟩

theorem other (h : FreeChain n used container free last) {i j : Nat} (member : j ∈ free)
    (taken : used i) : i ≠ j := by
  rintro rfl
  exact ((h.member i).mp member).2 taken

theorem take {i : Nat} (h : FreeChain n used container (i :: free) last) (socket : Int) :
    ∃ conn, container.connections[i]? = some conn ∧
      connectionAccept container socket = some (some i,
        { freelistCount := container.freelistCount - 1
          firstFreeConn := conn.nextConn
          connections := container.connections.set i { conn with sockfd := socket } }) ∧
      FreeChain n (fun j => j = i ∨ used j)
        { freelistCount := container.freelistCount - 1
          firstFreeConn := conn.nextConn
          connections := container.connections.set i { conn with sockfd := socket } } free last := by
  have head : i ∈ i :: free := List.mem_cons_self ..
  obtain ⟨distinct, nodup⟩ := List.nodup_cons.mp h.nodup
  have other {j : Nat} (member : j ∈ free) : i ≠ j := fun same => distinct (same ▸ member)
  obtain ⟨link, first, node, tail⟩ := Segment.cons_iff.mp h.segment
  obtain ⟨conn, slot⟩ := h.slot ((h.member i).mp head).1
  have next : conn.nextConn = link := by
    simpa only [ConnectionContainer.next, slot, Option.map_some, Option.some.injEq] using node
  have positive : container.freelistCount > 0 := by
    rw [h.count, List.length_cons]
    omega
  refine ⟨conn, slot, ?_, ?_, nodup, ?_, ?_, ?_, ?_⟩
  · simp only [connectionAccept, first, positive, slot, h.fresh i head conn slot, if_true]
  · rw [next]
    refine tail.frame fun j member => ?_
    simp only [ConnectionContainer.next, next_set (other member)]
  · simp only [h.count, List.length_cons]
    omega
  · intro j
    have before := h.member j
    simp only [List.mem_cons, not_or] at before ⊢
    constructor
    · intro member
      obtain ⟨lt, unused⟩ := before.mp (.inr member)
      exact ⟨lt, fun same => other member same.symm, unused⟩
    · rintro ⟨lt, other, unused⟩
      exact (before.mpr ⟨lt, unused⟩).resolve_left other
  · simpa only [List.length_set] using h.size
  · intro j member conn' slot'
    rw [next_set (other member)] at slot'
    exact h.fresh j (List.mem_cons_of_mem _ member) conn' slot'

theorem full (h : FreeChain n used container [] last) (socket : Int) :
    connectionAccept container socket = if last = none then some (none, container) else none := by
  have first := Segment.nil_iff.mp h.segment
  have count := h.count
  simp only [List.length_nil] at count
  simp only [connectionAccept, first]
  cases last with
  | none => rfl
  | some j => simp [count]

theorem serve (h : FreeChain n used container free last) {i : Nat} (conn : Connection)
    (client : Client) (taken : used i) :
    FreeChain n used
      { container with connections := container.connections.set i { conn with client := client } }
      free last := by
  refine ⟨?_, h.nodup, h.count, h.member, ?_, ?_⟩
  · refine h.segment.frame fun j member => ?_
    simp only [ConnectionContainer.next, next_set (h.other member taken)]
  · simpa only [List.length_set] using h.size
  · intro j member conn' slot'
    rw [next_set (h.other member taken)] at slot'
    exact h.fresh j member conn' slot'

theorem close (h : FreeChain n used container free last) {i : Nat}
    {container' : ConnectionContainer} {k k' : Kernel} (lt : i < n) (taken : used i)
    (closed : connectionClose container k i = some (container', k')) :
    FreeChain n (fun j => used j ∧ j ≠ i) container' (i :: free) last := by
  simp only [connectionClose, Option.map_eq_some_iff, Prod.mk.injEq] at closed
  obtain ⟨conn, slot, rfl, -⟩ := closed
  have inside : i < container.connections.length := by rwa [h.size]
  refine ⟨?_, ?_, ?_, ?_, ?_, ?_⟩
  · refine @Segment.cons _ _ container.firstFreeConn _ _ ?_ ?_
    · simp only [ConnectionContainer.next, List.getElem?_set_self inside, Option.map_some]
    · refine h.segment.frame fun j member => ?_
      simp only [ConnectionContainer.next, next_set (h.other member taken)]
  · exact List.nodup_cons.mpr ⟨fun member => h.other member taken rfl, h.nodup⟩
  · simp only [h.count, List.length_cons]
    omega
  · intro j
    simp only [List.mem_cons, h.member j]
    constructor
    · rintro (rfl | ⟨lt, unused⟩)
      · exact ⟨lt, fun still => still.2 rfl⟩
      · exact ⟨lt, fun still => unused still.1⟩
    · rintro ⟨lt, unused⟩
      rcases Nat.decEq j i with different | same
      · exact .inr ⟨lt, fun still => unused ⟨still, different⟩⟩
      · exact .inl same
  · simpa only [List.length_set] using h.size
  · intro j member conn' slot'
    rcases List.mem_cons.mp member with rfl | member
    · rw [List.getElem?_set_self inside] at slot'
      cases slot'
      exact resetClient_isFresh conn.client k
    · rw [next_set (h.other member taken)] at slot'
      exact h.fresh j member conn' slot'

end FreeChain

structure SlotsInv (n : Nat) (s : Slots) (free : List Nat) : Prop where
  list : FreeList n s free
  size : s.container.connections.length = n
  used : ∀ i ∈ s.inUse, i < n
  once : s.inUse.Nodup
  fresh : ∀ i ∈ free, ∀ conn, s.container.connections[i]? = some conn → conn.client.isFresh = true

variable {n : Nat} {s : Slots} {free : List Nat} {memory : List RawSlot}

theorem SlotsInv.chain (inv : SlotsInv n s free) :
    FreeChain n (fun i => i ∈ s.inUse) s.container free none :=
  ⟨Segment.none_iff.mpr inv.list.linked, inv.list.nodup, inv.list.count, inv.list.member, inv.size,
    inv.fresh⟩

theorem FreeChain.slotsInv {container : ConnectionContainer} {inUse : List Nat}
    (h : FreeChain n (fun i => i ∈ inUse) container free none) (used : ∀ i ∈ inUse, i < n)
    (once : inUse.Nodup) : SlotsInv n { container := container, inUse := inUse } free :=
  ⟨⟨Segment.none_iff.mp h.segment, h.nodup, h.count, h.member⟩, h.size, used, once, h.fresh⟩

theorem connectionAccept_spec (inv : SlotsInv n s free) (socket : Int) :
    (free = [] ∧ connectionAccept s.container socket = some (none, s.container)) ∨
    ∃ i rest container, free = i :: rest ∧
      connectionAccept s.container socket = some (some i, container) ∧
      SlotsInv n { container := container, inUse := i :: s.inUse } rest := by
  have chain := inv.chain
  cases free with
  | nil => exact .inl ⟨rfl, chain.full socket⟩
  | cons i rest =>
    obtain ⟨conn, -, accepted, taken⟩ := chain.take socket
    obtain ⟨lt, unused⟩ := (chain.member i).mp (List.mem_cons_self ..)
    refine .inr ⟨i, rest, _, rfl, accepted, (taken.congr fun j => List.mem_cons).slotsInv ?_ ?_⟩
    · intro j member
      rcases List.mem_cons.mp member with rfl | member
      · exact lt
      · exact inv.used j member
    · exact List.nodup_cons.mpr ⟨unused, inv.once⟩

theorem SlotsInv.serve (inv : SlotsInv n s free) {i : Nat} (conn : Connection) (client : Client)
    (used : i ∈ s.inUse) :
    SlotsInv n { s with container := { s.container with
      connections := s.container.connections.set i { conn with client := client } } } free :=
  (inv.chain.serve conn client used).slotsInv inv.used inv.once

theorem SlotsInv.close (inv : SlotsInv n s free) {i : Nat} {container : ConnectionContainer}
    {k k' : Kernel} (used : i ∈ s.inUse)
    (closed : connectionClose s.container k i = some (container, k')) :
    SlotsInv n { container := container, inUse := s.inUse.erase i } (i :: free) := by
  have chain := inv.chain.close (inv.used i used) used closed
  refine (chain.congr fun j => ?_).slotsInv (fun j member => ?_) (inv.once.erase i)
  · rw [inv.once.mem_erase_iff, and_comm]
  · exact inv.used j (List.mem_of_mem_erase member)

def lastNextConn (memory : List RawSlot) : Link := memory.getLast?.bind RawSlot.nextConn

theorem connectionInit_next (memory : List RawSlot) (i : Nat) :
    (connectionInit memory).next i =
      if i + 1 < memory.length then some (some (i + 1))
      else memory[i]?.map RawSlot.nextConn := by
  simp only [ConnectionContainer.next, connectionInit, List.getElem?_mapIdx, Option.map_map]
  rcases Nat.lt_or_ge (i + 1) memory.length with inner | outer
  · rw [if_pos inner, List.getElem?_eq_getElem (by omega), Option.map_some, Function.comp_apply,
      if_pos (by omega)]
  · have last : ¬ i < memory.length - 1 := by omega
    simp only [last, if_neg (Nat.not_lt.mpr outer), if_false]
    rfl

theorem connectionInit_last {memory : List RawSlot} (slots : memory ≠ []) :
    (connectionInit memory).next (memory.length - 1) = some (lastNextConn memory) := by
  have positive := List.length_pos_iff.mpr slots
  rw [connectionInit_next, if_neg (by omega), lastNextConn, List.getLast?_eq_getElem?,
    List.getElem?_eq_getElem (by omega)]
  rfl

theorem range_split {n : Nat} (positive : 0 < n) :
    List.range n = List.range' 0 (n - 1) ++ [n - 1] := by
  conv_lhs => rw [← Nat.sub_add_cancel positive, List.range_eq_range', List.range'_concat]
  simp

theorem connectionInit_linked {memory : List RawSlot} (slots : memory ≠ []) {free : List Nat} :
    Linked (connectionInit memory).next (some 0) free ↔ ∃ rest,
      free = List.range memory.length ++ rest ∧
        Linked (connectionInit memory).next (lastNextConn memory) rest := by
  have positive := List.length_pos_iff.mpr slots
  have inner := @Linked.range_iff (connectionInit memory).next free 0 (memory.length - 1)
    fun j lt => by
      rw [connectionInit_next, if_pos (by omega)]
  have whole := range_split positive
  rw [inner, Nat.zero_add]
  constructor
  · rintro ⟨rest, rfl, linked⟩
    obtain ⟨link, rest, rfl, node, tail⟩ := Linked.some_iff.mp linked
    cases (connectionInit_last slots).symm.trans node
    exact ⟨rest, by rw [whole, List.append_assoc]; rfl, tail⟩
  · rintro ⟨rest, rfl, linked⟩
    exact ⟨(memory.length - 1) :: rest, by rw [whole, List.append_assoc]; rfl,
      .cons (connectionInit_last slots) linked⟩

def endLink (memory : List RawSlot) : Link := if memory = [] then some 0 else lastNextConn memory

theorem connectionInit_chain (memory : List RawSlot) :
    FreeChain memory.length (fun _ => False) (connectionInit memory) (List.range memory.length)
      (endLink memory) := by
  refine ⟨?_, List.nodup_range, ?_, by simp, List.length_mapIdx, ?_⟩
  · by_cases slots : memory = []
    · subst slots
      exact .nil
    · have positive := List.length_pos_iff.mpr slots
      have last : Segment (connectionInit memory).next (some (0 + (memory.length - 1)))
          [memory.length - 1] (lastNextConn memory) := by
        rw [Nat.zero_add]
        exact .cons (connectionInit_last slots) .nil
      rw [endLink, if_neg slots, range_split positive]
      exact Segment.range (fun j lt => by rw [connectionInit_next, if_pos (by omega)]) last
  · simp only [connectionInit, List.length_range]
  · intro i _ conn slot
    simp only [connectionInit, List.getElem?_mapIdx, Option.map_eq_some_iff] at slot
    obtain ⟨raw, -, rfl⟩ := slot
    exact createClientStruct_isFresh raw.blocks

theorem slotsInv_init {memory : List RawSlot} (slots : memory ≠ []) (null : lastNextConn memory = none) :
    SlotsInv memory.length { container := connectionInit memory, inUse := [] }
      (List.range memory.length) := by
  have chain := connectionInit_chain memory
  rw [endLink, if_neg slots, null] at chain
  exact (chain.congr fun i => by simp).slotsInv (by simp) List.nodup_nil

theorem History.inv (slots : memory ≠ []) (null : lastNextConn memory = none)
    (h : History memory s) : ∃ free, SlotsInv memory.length s free := by
  induction h with
  | init => exact ⟨_, slotsInv_init slots null⟩
  | accept socket earlier accepted ih =>
    obtain ⟨free, inv⟩ := ih
    rcases connectionAccept_spec inv socket with ⟨-, found⟩ | ⟨i, rest, container', -, found, inv'⟩
    · rw [found] at accepted
      cases accepted
      exact ⟨free, inv⟩
    · rw [found] at accepted
      cases accepted
      exact ⟨rest, inv'⟩
  | serve client earlier used slot ih =>
    obtain ⟨free, inv⟩ := ih
    exact ⟨free, inv.serve _ client used⟩
  | close earlier used closed ih =>
    obtain ⟨free, inv⟩ := ih
    exact ⟨_, inv.close used closed⟩

theorem SlotsInv.slotsOk (inv : SlotsInv n s free) : SlotsOk n s := by
  refine ⟨⟨free, inv.list⟩, fun socket => ?_⟩
  rcases connectionAccept_spec inv socket with ⟨rfl, found⟩ | ⟨i, rest, container, rfl, found, -⟩
  · refine ⟨_, _, found, iff_of_true rfl fun i lt => ?_, by simp⟩
    have unlisted := mt (inv.list.member i).mpr List.not_mem_nil
    exact Classical.byContradiction fun unused => unlisted ⟨lt, unused⟩
  · obtain ⟨lt, unused⟩ := (inv.list.member i).mp (List.mem_cons_self ..)
    refine ⟨_, _, found, iff_of_false (by simp) fun all => unused (all i lt), ?_⟩
    rintro j ⟨⟩
    exact ⟨lt, unused⟩

/-- The slots keep their promises through every history exactly when the word that nobody writes,
the link of the last slot, happens to be NULL. -/
theorem slots_ok_iff (memory : List RawSlot) (slots : memory ≠ []) :
    (∀ s, History memory s → SlotsOk memory.length s) ↔ lastNextConn memory = none := by
  constructor
  · intro all
    obtain ⟨free, list⟩ := (all _ .init).list
    have count : free.length = memory.length := by
      have count := list.count
      simp only [connectionInit] at count
      omega
    obtain ⟨rest, rfl, linked⟩ := (connectionInit_linked slots).mp list.linked
    have nothing : rest = [] := by
      rw [List.length_append, List.length_range] at count
      exact List.length_eq_zero_iff.mp (by omega)
    rw [nothing] at linked
    revert linked
    cases lastNextConn memory with
    | none => exact fun _ => rfl
    | some i => rintro ⟨⟩
  · intro null s history
    obtain ⟨free, inv⟩ := history.inv slots null
    exact inv.slotsOk

def rawSlot (word : Link) : RawSlot := { nextConn := word, sockfd := 0, blocks := .zeroed }

theorem slots_ok_iff_null :
    SlotsOk 1 { container := connectionInit [rawSlot none], inUse := [] } :=
  (slots_ok_iff [rawSlot none] (List.cons_ne_nil _ _)).mpr rfl _ .init

/-- With another word in the only slot, an accept under full load fails its assertion. -/
theorem full_load_fails : ∃ s, History [rawSlot (some 0)] s ∧ (∀ i < 1, i ∈ s.inUse) ∧
    connectionAccept s.container 5 = none ∧ ¬ SlotsOk 1 s := by
  have denied : ∃ container, connectionAccept (connectionInit [rawSlot (some 0)]) 4 =
      some (some 0, container) ∧ connectionAccept container 5 = none := ⟨_, rfl, rfl⟩
  obtain ⟨container, accepted, failed⟩ := denied
  refine ⟨_, .accept 4 .init accepted, ?_, failed, fun ok => ?_⟩
  · intro i lt
    cases Nat.lt_one_iff.mp lt
    exact List.mem_cons_self ..
  · obtain ⟨link, container', found, -⟩ := ok.accepts 5
    rw [failed] at found
    cases found

end Kitserv
