import Kitserv.System

namespace Kitserv

section Sessions

variable {server : Server} {files : FileSystem} {held : Int → Bytes} {memory : List (List RawSlot)}
  {sockets : Int → Socket} {left : Nat → Kernel} {moves : List Move} {s : System} {socket : Socket}

/-- The sockets of a run over files that stay the same, and its stages where they can send. -/
def Terms.site (files : FileSystem) (held : Int → Bytes) : Terms where
  fine k content := Mounted files held content k.fs ∧ ∀ e ∈ k.errnos, e ≠ .eacces
  good := Conn.OutputSound
  waits _ _ := trivial

theorem session_nil : session server files held [] = [] := by
  have undecided : headEnd [] = .readMore .reqMethod [] {} 0 0 := by
    rw [headEnd_line, parse_eq]
    rfl
  have nothing := @session_undecided server files held _ _ _ _ _ _ [] undecided
    (.inr ⟨by decide, rfl⟩)
  rwa [List.append_nil, if_neg (by decide)] at nothing

/-- What is still to come on a socket with a connection in the state `conn`. -/
theorem Socket.Alone.session {conn : Conn} (static : server.apiTree = none)
    (alone : socket.Alone server (.site files held) conn) : ∃ rest,
      socket.wire ++ rest = session server files held (pendingBytes socket.opened.input) ∧
        conn.Left socket.opened.input rest := by
  obtain ⟨⟨mounted, errnos⟩, c, n, unused, sound, rfl, wire⟩ := alone
  obtain ⟨rest, whole, owes⟩ := owes_run static unused.reached unused.fresh mounted errnos sound
  rw [wire, unused.empty, List.take_zero, List.nil_append] at whole
  exact ⟨rest, whole, owes.left⟩

theorem BrokeOff.failed {c : Client} {k : Kernel} (broken : (resetClient c k).2.BrokeOff) :
    k.SendfileFailed := by
  obtain ⟨code, before, trace⟩ := broken
  refine ⟨code, before, ?_⟩
  have whole : k.trace ++ [.reset] = before ++ [.socketSendfile (.failed code)] ++ [.reset] := by
    rw [List.append_assoc]
    exact trace.symm
  exact (List.append_cancel_right whole).symm

/-- What the sockets of a site have got: as long as a slot has a socket, the front of the responses to what
the peer sends, and all of them when its worker does not look at it and there is no more to read; and all
of them when it has been closed, unless a sendfile has failed or the peer has ended its input. -/
structure System.Answers (server : Server) (files : FileSystem) (held : Int → Bytes) (s : System) :
    Prop where
  front : ∀ (w : Nat) worker i conn, s.threads.workers[w]? = some worker →
    worker.container.connections[i]? = some conn → i ∉ worker.container.freeSlots →
    worker.thread.turn i ≠ .released → ∃ rest, (s.sockets conn.sockfd).wire ++ rest =
        session server files held (pendingBytes (s.sockets conn.sockfd).opened.input) ∧
      (worker.thread.turn i = .rests → conn.client.ta.state = .read →
        pendingBytes (s.sockets conn.sockfd).kernel.input = [] → rest = [])
  whole : ∀ socket ∈ s.ended, ∃ rest,
    socket.wire ++ rest = session server files held (pendingBytes socket.opened.input) ∧
      (rest = [] ∨ socket.kernel.SendfileFailed ∨ ¬ OpenInput socket.opened.input)

theorem Isolated.answers (static : server.apiTree = none)
    (h : Isolated server (.site files held) s) : s.Answers server files held := by
  refine ⟨fun w worker i conn found slot used turn => ?_, fun socket member => ?_⟩
  · have ok := h.workers w worker found i conn slot
    rw [if_neg used] at ok
    cases here : worker.thread.turn i with
    | rests =>
      rw [here] at ok
      rcases ok with waits | ⟨fine, untouched, unused⟩
      · obtain ⟨rest, front, last⟩ := waits.session static
        exact ⟨rest, front, fun _ => last⟩
      · obtain ⟨rest, front, -⟩ := (Socket.Alone.begin fine untouched unused).session static
        refine ⟨rest, front, fun _ _ nothing => ?_⟩
        rw [untouched.1] at nothing
        rw [nothing, session_nil] at front
        exact (List.append_eq_nil_iff.mp front).2
    | called =>
      rw [here] at ok
      obtain ⟨rest, front, -⟩ := Socket.Alone.session static ok
      exact ⟨rest, front, nofun⟩
    | leaving =>
      rw [here] at ok
      obtain ⟨-, -, alone⟩ := ok
      obtain ⟨rest, front, -⟩ := alone.session static
      exact ⟨rest, front, nofun⟩
    | released => exact absurd here turn
  · obtain ⟨c, alone⟩ := h.ended socket member
    obtain ⟨rest, front, last⟩ := alone.session static
    exact ⟨rest, front, last.imp_right (Or.imp_left BrokeOff.failed)⟩

/-- In every state of every run each client of a site gets the responses to its own requests, in their
order, and nothing else, whatever the other clients ask and in whatever order the threads go on. The files
stay the same, no errno on entry to static serving is EACCES, and every send meets `Conn.OutputSound`. -/
theorem site_answers (static : server.apiTree = none)
    (run : Monitor.run (System.step server) (.start memory sockets left) moves = some s)
    (mounted : ∀ move ∈ moves, move.Fine fun k content =>
      Mounted files held content k.fs ∧ ∀ e ∈ k.errnos, e ≠ .eacces)
    (sound : Monitor.Always (System.step server) (System.Meets Conn.OutputSound) moves
      (.start memory sockets left)) : s.Answers server files held := by
  obtain ⟨holders, -, isolated⟩ := @run_isolated server memory sockets left moves s
    (.site files held) run mounted sound
  exact isolated.answers static

theorem site_answers_two : ∃ s,
    Monitor.run (System.step rootServer) emptySite servingTwo = some s ∧
      s.Answers rootServer threeBytes fun _ => ascii "abc" := by
  obtain ⟨s, run⟩ := servingTwo_runs
  have sound : Monitor.Always (System.step rootServer) (System.Meets Conn.OutputSound) servingTwo
      emptySite := by
    decide +kernel
  have mounted : Mounted threeBytes (fun _ => ascii "abc") (fun _ _ => ascii "abc") askingTwice.fs :=
    ⟨fun _ _ => rfl, fun _ _ => rfl⟩
  have fine : ∀ e ∈ askingTwice.errnos, e ≠ .eacces := nofun
  refine ⟨s, run, site_answers rfl run ?_ sound⟩
  simp only [servingTwo, List.forall_mem_cons, Move.Fine, true_and]
  exact ⟨⟨mounted, fine⟩, ⟨mounted, fine⟩, nofun⟩

end Sessions

end Kitserv
