import Nperf.Proofs.SocketCustody

namespace Nperf
open Rust Runs Handles

namespace Server

variable {server : Server}

theorem threads_lt (server : Server) : server.parameter.amountThreads < 2 ^ 16 := by
  rw [(NPerf.parseParameter_kept server.accepted).threads]
  exact server.args.parallel.toNat_lt

theorem reuseport_iff (server : Server) : server.parameter.socketOptions.reuseport = true ↔
    server.parameter.multiplexPortReceiver = .sharding := by
  obtain ⟨ipv4, options, uring, hoptions, _, _, hp⟩ :=
    NPerf.parseParameter_options server.accepted
  obtain ⟨rate, _, hoptions⟩ := bind_ok.mp hoptions
  have hmode := server.mode
  rw [hp] at hmode ⊢
  cases hoptions
  have hmode : server.args.mode = .receiver := hmode
  simp [NPerf.adjust, NPerf.parameter, hmode]

/-- Threads with ports of their own do not have the same one. -/
theorem port_injective (hmode : server.parameter.multiplexPortReceiver = .individual) {i j : Nat}
    (hi : i < server.parameter.amountThreads) (hj : j < server.parameter.amountThreads)
    (h : server.port i = server.port j) : i = j := by
  have hlt := server.threads_lt
  simp only [port, hmode, ne_eq, not_true, if_false] at h
  omega

end Server

namespace Exec

variable {server : Server} {s s' : Exec} {left : List LeftSocket} {fd : Nat} {socket : OpenSocket}

/-- Every open socket has its owner. -/
theorem Kept.owner (h : s.Kept server left) (hlookup : s.sockets.lookup fd = some socket) :
    s.main.own = some fd ∨
      (∃ i : Nat, ∃ thread, s.threads[i]? = some thread ∧ thread.own = some fd) ∨
      ∃ l ∈ left, l.fd = fd ∧ l.socket = socket := by
  have hmem := h.held.mem_iff.mpr (SocketTable.mem_of_lookup hlookup)
  simp only [hands, List.mem_append, List.mem_flatMap, List.mem_map, Option.mem_toList] at hmem
  rcases hmem with (hmain | ⟨thread, hthread, hown⟩) | ⟨l, hl, rfl⟩
  · exact .inl hmain
  · obtain ⟨i, hi⟩ := List.getElem?_of_mem hthread
    exact .inr (.inl ⟨i, thread, hi, hown⟩)
  · refine .inr (.inr ⟨l, hl, rfl, ?_⟩)
    exact Option.some.inj ((h.left l hl).lookup.symm.trans hlookup)

theorem Kept.left_ne (h : s.Kept server left) {l : LeftSocket} (hl : l ∈ left) {i : Nat}
    {thread : ReceiverThread} (hthread : s.threads[i]? = some thread)
    (hown : thread.own = some fd) : l.fd ≠ fd := by
  intro he
  have hlive : fd ∈ s.main.own.toList ++ s.threads.flatMap (fun thread => thread.own.toList) := by
    have hmem : fd ∈ s.threads.flatMap fun thread => thread.own.toList :=
      List.mem_flatMap.mpr ⟨thread, List.mem_of_getElem? hthread, by simp [hown]⟩
    exact List.mem_append_right _ hmem
  have hleft : fd ∈ left.map LeftSocket.fd := he ▸ List.mem_map_of_mem hl
  exact (List.nodup_append.mp h.held.nodup).2.2 fd hlive fd hleft rfl

/-- A thread with a socket of its own has no shared one beside it. -/
theorem Kept.unshared (h : s.Kept server left) {i : Nat} {thread : ReceiverThread}
    (hthread : s.threads[i]? = some thread) (hown : thread.own = some fd) :
    s.main.own = none ∧ server.parameter.multiplexPortReceiver ≠ .sharing := by
  obtain ⟨socket, hmain⟩ := h.serving (List.ne_nil_of_mem (List.mem_of_getElem? hthread))
  have hshows := h.main
  have hnone := ((h.threads i thread hthread).lookup hown).1
  rw [hmain] at hshows hnone ⊢
  exact ⟨hnone, hshows.shared.mp hnone⟩

theorem Kept.bound_port (h : s.Kept server left) (hports : ∀ i < server.parameter.amountThreads,
    server.port i ≠ 0) {i port : Nat} {thread : ReceiverThread}
    (hthread : s.threads[i]? = some thread) (hown : thread.own = some fd)
    (hlookup : s.sockets.lookup fd = some socket) (hport : socket.port = some port) :
    socket.reuseport = server.parameter.socketOptions.reuseport ∧ port = server.port i := by
  obtain ⟨_, entry, hentry, hof⟩ := (h.threads i thread hthread).lookup hown
  cases hlookup.symm.trans hentry
  have hi := (List.getElem?_eq_some_iff.mp hthread).1
  have hwithin := h.within
  obtain ⟨hreuseport, hzero | hport⟩ := hof port hport
  · exact absurd hzero (hports i (by omega))
  · exact ⟨hreuseport, hport⟩

/-- The port of a thread is taken exactly if that thread has left a socket
there. -/
theorem Kept.inUse_iff (h : s.Kept server left)
    (hports : ∀ i < server.parameter.amountThreads, server.port i ≠ 0) {i port : Nat}
    (hthread : s.threads[i]? = some (.opening port (.configured fd)))
    (hlookup : s.sockets.lookup fd = some socket) :
    s.sockets.InUse fd socket port ↔ server.parameter.multiplexPortReceiver = .individual ∧
      ∃ l ∈ left, l.thread = i ∧ l.socket.port = some port := by
  have hown : (ReceiverThread.opening port (.configured fd)).own = some fd := rfl
  obtain ⟨_, hport, hshows⟩ := h.threads i _ hthread
  have hsocket : socket = { reuseport := server.parameter.socketOptions.reuseport, port := none } :=
    Option.some.inj (hlookup.symm.trans hshows)
  obtain ⟨hmain, hopen⟩ := h.unshared hthread hown
  have hi := (List.getElem?_eq_some_iff.mp hthread).1
  have hwithin := h.within
  rw [SocketTable.inUse_iff]
  constructor
  · rintro ⟨fd', socket', hlookup', hne, hport', hshare⟩
    -- with `SO_REUSEPORT` the sockets of all threads go together
    have hsharing : socket'.reuseport = server.parameter.socketOptions.reuseport →
        server.parameter.multiplexPortReceiver = .individual := by
      intro hsame
      rw [hsocket, hsame, and_self, server.reuseport_iff] at hshare
      cases hmode : server.parameter.multiplexPortReceiver with
      | individual => rfl
      | sharding => exact absurd hmode hshare
      | sharing => exact absurd hmode hopen
    rcases h.owner hlookup' with hmain' | ⟨j, thread, hj, hown'⟩ | ⟨l, hl, _, rfl⟩
    · rw [hmain] at hmain'
      cases hmain'
    · obtain ⟨hsame, hj'⟩ := h.bound_port hports hj hown' hlookup' hport'
      have hlt := (List.getElem?_eq_some_iff.mp hj).1
      have hij := Server.port_injective (hsharing hsame) (by omega) (by omega)
        (hport.symm.trans hj')
      subst j
      cases hthread.symm.trans hj
      cases hown.symm.trans hown'
      exact absurd rfl hne
    · have hl' := h.left l hl
      obtain ⟨hsame, hzero | hport''⟩ := hl'.of port hport'
      · exact absurd hzero (hports l.thread hl'.thread)
      · have hindividual := hsharing hsame
        refine ⟨hindividual, l, hl, ?_, hport'⟩
        exact Server.port_injective hindividual hl'.thread (by omega)
          (hport''.symm.trans hport)
  · rintro ⟨hmode, l, hl, -, hport'⟩
    refine ⟨l.fd, l.socket, (h.left l hl).lookup, h.left_ne hl hthread hown, hport', ?_⟩
    rintro ⟨-, hreuseport⟩
    rw [hsocket, server.reuseport_iff, hmode] at hreuseport
    cases hreuseport

/-- The shared socket is alone. -/
theorem Kept.main_free (h : s.Kept server left) (hmain : s.main = .opening (.configured fd))
    {port : Nat} : ¬s.sockets.InUse fd socket port := by
  have hshows := h.main
  rw [hmain] at hshows
  rw [SocketTable.inUse_iff]
  rintro ⟨fd', socket', hlookup, hne, _⟩
  rcases h.owner hlookup with hown | ⟨i, thread, hthread, _⟩ | ⟨l, hl, _⟩
  · rw [hmain] at hown
    cases hown
    exact hne rfl
  · rw [h.idle (by simp [hmain])] at hthread
    cases hthread
  · exact (h.left l hl).mode hshows.1

end Exec

/-- Over all iterations, when a socket is about to be bound, the program itself
has its port in use exactly if the threads have ports of their own and the same
thread has left a bound socket behind. A shared socket and sharded ones always
find their port free. -/
theorem exec_bind (server : Server)
    (hports : ∀ i < server.parameter.amountThreads, server.port i ≠ 0) {events : List ExecEvent}
    {s : Exec} (h : run server.step server.start events = .ok s) {fd : Nat} {socket : OpenSocket}
    (hlookup : s.sockets.lookup fd = some socket) :
    (∀ i port, s.threads[i]? = some (.opening port (.configured fd)) →
      (s.sockets.InUse fd socket port ↔ server.parameter.multiplexPortReceiver = .individual ∧
        ∃ l ∈ collect server.step Exec.left server.start events,
          l.thread = i ∧ l.socket.port = some port)) ∧
    (s.main = .opening (.configured fd) → ∀ port, ¬s.sockets.InUse fd socket port) := by
  have hkept := Exec.run_kept h
  refine ⟨?_, ?_⟩
  · exact fun i port hthread => hkept.inUse_iff hports hthread hlookup
  · exact fun hmain port => hkept.main_free hmain

/-- The port and the descriptor of the call that is next, if that is `bind`. -/
def ReceiverThread.binds : ReceiverThread → Option (Nat × Nat)
  | .opening port (.configured fd) => some (port, fd)
  | _ => none

theorem ReceiverThread.binds_eq {thread : ReceiverThread} {port fd : Nat}
    (h : thread.binds = some (port, fd)) : thread = .opening port (.configured fd) := by
  unfold binds at h
  split at h
  · cases h
    rfl
  · cases h

/-- The thread has timed out, and when it is started again its port is taken. -/
theorem exec_bind_again :
    let events := .pin (fun _ => true) :: timedOut 3 ++ (timedOut 4).take 4
    ∃ s socket, run Server.infinite.step Server.infinite.start events = .ok s ∧
      s.sockets.lookup 4 = some socket ∧ s.sockets.InUse 4 socket 45001 := by
  intro events
  obtain ⟨s, hrun, hthread, hlookup, hleft⟩ := checked
    (x := run Server.infinite.step Server.infinite.start events)
    (p := fun s => s.threads[0]?.bind ReceiverThread.binds = some (45001, 4) ∧
      s.sockets.lookup 4 = some ⟨false, none⟩ ∧
        ((collect Server.infinite.step Exec.left Server.infinite.start events).any fun l =>
          l.thread = 0 ∧ l.socket.port = some 45001) = true)
    (by decide +kernel)
  obtain ⟨thread, hget, hthread⟩ := Option.bind_eq_some_iff.mp hthread
  rw [ReceiverThread.binds_eq hthread] at hget
  obtain ⟨l, hl, hport⟩ := List.any_eq_true.mp hleft
  have hports : ∀ i < Server.infinite.parameter.amountThreads, Server.infinite.port i ≠ 0 := by
    decide
  have hiff := (exec_bind Server.infinite hports hrun hlookup).1 0 45001 hget
  exact ⟨s, _, hrun, hlookup, hiff.mpr ⟨rfl, l, hl, of_decide_eq_true hport⟩⟩

namespace ReceiverThread

variable {server : Server} {i : Nat} {t t' : SocketTable} {lock lock' : AffinityLock}
  {thread thread' : ReceiverThread} {e : ThreadEvent}

/-- A thread that is not past `bind`. -/
def Unbound : ReceiverThread → Prop
  | .opening _ (.bound _) => False
  | .lent _ => False
  | .running _ _ _ => False
  | _ => True

theorem Unbound.step (h : thread.Unbound)
    (hstep : thread.step server.build server.parameter none t lock e = .ok (thread', t', lock'))
    (hbound : ∀ port fd, thread' ≠ .opening port (.bound fd)) : thread'.Unbound := by
  cases thread with
  | spawned port =>
    cases e with
    | pin bindCpu =>
      simp only [ReceiverThread.step] at hstep
      split at hstep
      · cases hstep
        split <;> trivial
      · cases hstep
        trivial
    | _ => cases hstep
  | opening port o =>
    cases e with
    | call c =>
      obtain ⟨⟨o', t₁⟩, _, hstep⟩ := bind_ok.mp hstep
      cases o' with
      | none =>
        cases hstep
        trivial
      | some o' =>
        cases hstep
        cases o' with
        | bound fd => exact absurd rfl (hbound port fd)
        | _ => trivial
    | new clock =>
      cases o with
      | bound fd => exact h.elim
      | _ => cases hstep
    | _ => cases o <;> cases hstep
  | lent fd => exact h.elim
  | running fd own r => exact h.elim
  | panicked => cases e <;> cases hstep

theorem Unbound.panicked {result : ThreadResult} (h : thread.Unbound)
    (hover : thread.joined = some result) : result = .panicked := by
  cases thread with
  | running fd own r => exact h.elim
  | panicked =>
    cases hover
    rfl
  | _ => cases hover

end ReceiverThread

namespace Exec

variable {server : Server} {s s' : Exec} {left : List LeftSocket} {l : LeftSocket}

/-- The thread that left socket `l` has come no further than `bind` since. -/
structure Blocked (server : Server) (l : LeftSocket) (left : List LeftSocket) (s : Exec) :
    Prop where
  kept : s.Kept server left
  left : l ∈ left
  unbound : ∀ thread : ReceiverThread, s.threads[l.thread]? = some thread → thread.Unbound

/-- No other socket gets the port of one that is left. -/
theorem Kept.not_bound (h : s.Kept server left) (hl : l ∈ left)
    (hmode : server.parameter.multiplexPortReceiver = .individual) (hbound : l.socket.port ≠ none)
    (hport : server.port l.thread ≠ 0) {port fd : Nat} :
    s.threads[l.thread]? ≠ some (.opening port (.bound fd)) := by
  intro hthread
  obtain ⟨p, hp⟩ := Option.ne_none_iff_exists'.mp hbound
  obtain ⟨_, rfl, q, hlookup, hq⟩ := h.threads l.thread _ hthread
  have hl' := h.left l hl
  obtain ⟨hreuseport, hpport⟩ := hl'.of p hp
  cases hpport.resolve_left hport
  cases hq.resolve_left hport
  have hshare := (h.exclusive l.fd fd l.socket _ _ hl'.lookup hlookup
    (h.left_ne hl hthread rfl) hp rfl).2
  rw [server.reuseport_iff, hmode] at hshare
  cases hshare

theorem Blocked.step (h : s.Blocked server l left)
    (hmode : server.parameter.multiplexPortReceiver = .individual) (hbound : l.socket.port ≠ none)
    (hport : server.port l.thread ≠ 0) {e : ExecEvent} (hstep : server.step s e = .ok s') :
    s'.Blocked server l (left ++ s.left e s') := by
  have hkept := h.kept.step hstep
  have hleft : l ∈ left ++ s.left e s' := List.mem_append_left _ h.left
  refine ⟨hkept, hleft, ?_⟩
  intro thread hthread
  cases e with
  | pin bindCpu =>
    obtain ⟨_, rfl⟩ := Server.step_pin hstep
    exact h.unbound thread hthread
  | call c =>
    obtain ⟨_, _, _, _, _, rfl⟩ := Server.step_call hstep
    exact h.unbound thread hthread
  | spawn started =>
    obtain ⟨_, plan, _, _, _, rfl⟩ := Server.step_spawn hstep
    rw [List.getElem?_append] at hthread
    split at hthread
    · exact h.unbound thread hthread
    · cases List.mem_singleton.mp (List.mem_of_getElem? hthread)
      trivial
  | thread i e =>
    have hnot : ∀ port fd, s'.threads[l.thread]? ≠ some (.opening port (.bound fd)) :=
      fun _ _ => hkept.not_bound hleft hmode hbound hport
    obtain ⟨socket, old, new, sockets, lock, hmain, hold, hmove, rfl⟩ := Server.step_thread hstep
    by_cases hi : i = l.thread
    · subst i
      have hlt := (List.getElem?_eq_some_iff.mp hold).1
      rw [List.getElem?_set_self hlt] at hthread
      cases hthread
      have hshows := h.kept.main
      rw [hmain] at hshows
      cases hshows.shared.mpr (by simp [hmode])
      apply (h.unbound old hold).step hmove
      intro port fd he
      exact hnot port fd (by simp [hlt, he])
    · rw [List.getElem?_set_ne hi] at hthread
      exact h.unbound thread hthread
  | join clock clock' printed closed =>
    obtain ⟨_, _, _, _, _, _, _, _, _, _, rfl⟩ := Server.step_join hstep
    cases hthread

end Exec

/-- A thread with a port of its own that ends without closing its socket, as one
does that no sender has turned up for, never receives again: in every later
iteration it can only panic. -/
theorem exec_blocked (server : Server)
    (hmode : server.parameter.multiplexPortReceiver = .individual)
    {events later : List ExecEvent} {s t : Exec} {l : LeftSocket}
    (h : run server.step server.start events = .ok s) (hbetween : s.threads = [])
    (hleft : l ∈ collect server.step Exec.left server.start events)
    (hbound : l.socket.port ≠ none) (hport : server.port l.thread ≠ 0)
    (hlater : run server.step s later = .ok t) {thread : ReceiverThread} {result : ThreadResult}
    (hthread : t.threads[l.thread]? = some thread) (hover : thread.joined = some result) :
    result = .panicked := by
  have hstart : s.Blocked server l (collect server.step Exec.left server.start events) := by
    refine ⟨Exec.run_kept h, hleft, ?_⟩
    intro thread hthread
    rw [hbetween] at hthread
    cases hthread
  have hstep : ∀ left s e s', Exec.Blocked server l left s → server.step s e = .ok s' →
      Exec.Blocked server l (left ++ s.left e s') s' :=
    fun _ _ _ _ hs hstep => hs.step hmode hbound hport hstep
  have hblocked := collect_invariant hstep hstart hlater
  exact (hblocked.unbound thread hthread).panicked hover

/-- It is started again and panics at `bind`. -/
theorem exec_blocked_again :
    let events := .pin (fun _ => true) :: timedOut 3
    let later := (timedOut 4).take 4 ++ [.thread 0 (.call (.bind none))]
    ∃ s t thread, run Server.infinite.step Server.infinite.start events = .ok s ∧
      run Server.infinite.step s later = .ok t ∧ t.threads[0]? = some thread ∧
      thread.joined = some .panicked := by
  intro events later
  obtain ⟨t, hrun, hover⟩ := checked
    (x := run Server.infinite.step Server.infinite.start (events ++ later))
    (p := fun t => (t.threads[0]?.bind ReceiverThread.joined).isSome) (by decide +kernel)
  obtain ⟨s, hfirst, hlater⟩ := run_append_ok.mp hrun
  obtain ⟨s', hfirst', hbetween, hleft⟩ := checked
    (x := run Server.infinite.step Server.infinite.start events)
    (p := fun s => s.threads.length = 0 ∧
      ((collect Server.infinite.step Exec.left Server.infinite.start events).any fun l =>
        l.thread = 0 ∧ l.socket.port = some 45001) = true)
    (by decide +kernel)
  cases hfirst.symm.trans hfirst'
  obtain ⟨l, hl, hport⟩ := List.any_eq_true.mp hleft
  obtain ⟨hthread, hport⟩ := of_decide_eq_true hport
  obtain ⟨result, hover⟩ := Option.isSome_iff_exists.mp hover
  obtain ⟨thread, hget, hjoined⟩ := Option.bind_eq_some_iff.mp hover
  have hzero : Server.infinite.port l.thread ≠ 0 := by
    rw [hthread]
    decide
  have hpanicked := exec_blocked Server.infinite rfl hfirst (List.eq_nil_of_length_eq_zero hbetween)
    hl (by simp [hport]) hzero hlater (hthread ▸ hget) hjoined
  exact ⟨s, t, thread, hfirst, hlater, hget, hpanicked ▸ hjoined⟩

end Nperf
