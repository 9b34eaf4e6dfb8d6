import Nperf.Proofs.Exchange
import Nperf.Proofs.ThreadPlan
import Nperf.Proofs.Threads

namespace Nperf
open Rust Runs Handles

namespace Server
open Session (enabled_ok)

variable {server : Server} {s s' : Exec}

theorem lift_ok {x : Except Fault α} {a : α} : lift x = .ok a ↔ x = .ok a := by
  cases x <;> simp [lift]

theorem step_pin {bindCpu : Nat → Bool} (h : server.step s (.pin bindCpu) = .ok s') :
    s.main = .pinning ∧ s' = { s with main := server.createSocket } := by
  cases hmain : s.main with
  | pinning =>
    simp only [step, hmain] at h
    split at h
    · cases h
    · cases h
      exact ⟨rfl, rfl⟩
  | _ =>
    simp only [step, hmain] at h
    cases h

theorem step_call {c : SocketCall} (h : server.step s (.call c) = .ok s') :
    ∃ o o' sockets, s.main = .opening o ∧
      o.step server.parameter.socketOptions server.args.port.toNat s.sockets c =
        .ok (some o', sockets) ∧
      s' = { s with sockets := sockets, main := .opened o' } := by
  cases hmain : s.main with
  | opening o =>
    simp only [step, hmain] at h
    obtain ⟨⟨o', sockets⟩, ho, h⟩ := bind_ok.mp h
    cases o' with
    | none => cases h
    | some o' =>
      cases h
      exact ⟨o, o', sockets, rfl, ho, rfl⟩
  | _ =>
    simp only [step, hmain] at h
    cases h

theorem step_spawn {started : Bool} (h : server.step s (.spawn started) = .ok s') :
    ∃ socket plan, s.main = .serving socket ∧
      s.threads.length < server.parameter.amountThreads ∧
      server.args.threadPlan server.build server.parameter s.threads.length = .ok plan ∧
      s' = { s with threads := s.threads ++ [.spawned plan.receiverPort] } := by
  cases hmain : s.main with
  | serving socket =>
    simp only [step, hmain] at h
    split at h
    · rename_i hroom
      obtain ⟨plan, hplan, h⟩ := bind_ok.mp h
      split at h
      · cases h
        exact ⟨socket, plan, rfl, hroom, lift_ok.mp hplan, rfl⟩
      · cases h
    · cases h
  | _ =>
    simp only [step, hmain] at h
    cases h

theorem step_thread {i : Nat} {e : ThreadEvent} (h : server.step s (.thread i e) = .ok s') :
    ∃ socket thread thread' sockets lock, s.main = .serving socket ∧
      s.threads[i]? = some thread ∧
      thread.step server.build server.parameter socket s.sockets s.lock e =
        .ok (thread', sockets, lock) ∧
      s' = { s with sockets := sockets, lock := lock, threads := s.threads.set i thread' } := by
  cases hmain : s.main with
  | serving socket =>
    simp only [step, hmain] at h
    obtain ⟨thread, hthread, h⟩ := bind_ok.mp h
    obtain ⟨⟨thread', sockets, lock⟩, hstep, h⟩ := bind_ok.mp h
    cases h
    exact ⟨socket, thread, thread', sockets, lock, rfl, enabled_ok.mp hthread, hstep, rfl⟩
  | _ =>
    simp only [step, hmain] at h
    cases h

theorem step_join {clock clock' : Clock} {printed closed : Bool}
    (h : server.step s (.join clock clock' printed closed) = .ok s') :
    ∃ socket results summary rows sockets, s.main = .serving socket ∧
      s.threads.length = server.parameter.amountThreads ∧
      List.Forall₂ (fun thread result => ReceiverThread.joined thread = some result)
        s.threads results ∧
      mergeThreads server.build clock clock' server.parameter results = .ok (summary, rows) ∧
      closeSocket closed s.sockets socket = .ok sockets ∧
      s' = { s with
        sockets := sockets
        main := if server.args.runInfinite ∧ server.parameter.mode = .receiver then
            server.createSocket
          else .returned summary rows
        threads := [] } := by
  cases hmain : s.main with
  | serving socket =>
    simp only [step, hmain] at h
    split at h
    · rename_i hall
      obtain ⟨results, hresults, h⟩ := bind_ok.mp h
      obtain ⟨⟨summary, rows⟩, hmerge, h⟩ := bind_ok.mp h
      obtain ⟨_, _, h⟩ := bind_ok.mp h
      obtain ⟨sockets, hclose, h⟩ := bind_ok.mp h
      cases h
      exact ⟨socket, results, summary, rows, sockets, rfl, hall,
        Lists.mapM_some (enabled_ok.mp hresults), lift_ok.mp hmerge, lift_ok.mp hclose, rfl⟩
    · cases h
  | _ =>
    simp only [step, hmain] at h
    cases h

theorem port_of {i : Nat} {plan : ThreadPlan}
    (h : server.args.threadPlan server.build server.parameter i = .ok plan) :
    plan.receiverPort = server.port i := by
  unfold port
  unfold NPerf.threadPlan at h
  by_cases hmode : server.parameter.multiplexPortReceiver ≠ .individual
  · rw [if_pos hmode] at h
    cases h
    rw [if_pos hmode]
  · rw [if_neg hmode] at h
    obtain ⟨port, hport, h⟩ := bind_ok.mp h
    cases h
    rw [if_neg hmode]
    exact unsigned_mod hport

end Server

/-- What the main thread may rely on. -/
def MainThread.Shows (server : Server) (t : SocketTable) : MainThread → Prop
  | .opening o => server.parameter.multiplexPortReceiver = .sharing ∧
      o.Shows server.parameter.socketOptions server.args.port.toNat t
  | .serving none => server.parameter.multiplexPortReceiver ≠ .sharing
  | .serving (some fd) => server.parameter.multiplexPortReceiver = .sharing ∧
      (Opening.bound fd).Shows server.parameter.socketOptions server.args.port.toNat t
  | _ => True

namespace MainThread

variable {server : Server} {t t' : SocketTable} {main : MainThread}

theorem Shows.same (h : main.Shows server t)
    (hsame : ∀ fd, main.own = some fd → t'.lookup fd = t.lookup fd) : main.Shows server t' := by
  cases main with
  | opening o => exact ⟨h.1, h.2.same hsame⟩
  | serving socket =>
    cases socket with
    | none => exact h
    | some fd => exact ⟨h.1, h.2.same hsame⟩
  | _ => trivial

theorem Shows.shared {socket : Option Nat} (h : (serving socket).Shows server t) :
    socket = none ↔ server.parameter.multiplexPortReceiver ≠ .sharing := by
  cases socket with
  | none => exact ⟨fun _ => h, fun _ => rfl⟩
  | some fd => exact ⟨by rintro ⟨⟩, fun hopen => absurd h.1 hopen⟩

theorem createSocket_shows (server : Server) (t : SocketTable) :
    server.createSocket.Shows server t := by
  unfold Server.createSocket
  split
  · rename_i hmode
    exact ⟨hmode, trivial⟩
  · rename_i hmode
    exact hmode

theorem createSocket_own (server : Server) : server.createSocket.own = none := by
  unfold Server.createSocket
  split <;> rfl

theorem opened_own (o : Opening) : (opened o).own = o.fd := by
  cases o <;> rfl

theorem opened_shows {o : Opening} (hmode : server.parameter.multiplexPortReceiver = .sharing)
    (h : o.Shows server.parameter.socketOptions server.args.port.toNat t) :
    (opened o).Shows server t := by
  cases o <;> exact ⟨hmode, h⟩

end MainThread

/-- A socket that stays open for good, of a thread that had nothing to report. -/
structure LeftSocket.Shows (server : Server) (t : SocketTable) (l : LeftSocket) : Prop where
  thread : l.thread < server.parameter.amountThreads
  mode : server.parameter.multiplexPortReceiver ≠ .sharing
  result : l.result.Idle
  lookup : t.lookup l.fd = some l.socket
  of : l.socket.Of server.parameter.socketOptions (server.port l.thread)

theorem LeftSocket.Shows.same {server : Server} {t t' : SocketTable} {l : LeftSocket}
    (h : l.Shows server t) (hsame : t'.lookup l.fd = t.lookup l.fd) : l.Shows server t' :=
  ⟨h.thread, h.mode, h.result, hsame.trans h.lookup, h.of⟩

namespace Exec

variable {server : Server} {s s' : Exec} {left : List LeftSocket}

/-- The descriptors of the main thread, of the others and of nobody. -/
def hands (s : Exec) (left : List LeftSocket) : List Nat :=
  s.main.own.toList ++ s.threads.flatMap (fun thread => thread.own.toList) ++
    left.map LeftSocket.fd

/-- What holds between any two moves, with the sockets left behind so far. -/
structure Kept (server : Server) (left : List LeftSocket) (s : Exec) : Prop where
  held : Held (s.hands left) s.sockets
  main : s.main.Shows server s.sockets
  threads : ∀ i (thread : ReceiverThread), s.threads[i]? = some thread →
    thread.Shows server i s.main.socket s.sockets
  serving : s.threads ≠ [] → ∃ socket, s.main = .serving socket
  within : s.threads.length ≤ server.parameter.amountThreads
  left : ∀ l ∈ left, l.Shows server s.sockets
  exclusive : s.sockets.Exclusive

theorem Kept.start (server : Server) : Kept server [] server.start where
  held := .empty
  main := trivial
  threads := by
    intro i thread h
    cases h
  serving h := absurd rfl h
  within := Nat.zero_le _
  left := by
    rintro l ⟨⟩
  exclusive := .empty

theorem Kept.idle (h : s.Kept server left) (hmain : ∀ socket, s.main ≠ .serving socket) :
    s.threads = [] := by
  by_contra hne
  obtain ⟨socket, hserving⟩ := h.serving hne
  exact hmain socket hserving

theorem Kept.pin (h : s.Kept server left) {bindCpu : Nat → Bool}
    (hstep : server.step s (.pin bindCpu) = .ok s') : s'.Kept server left := by
  obtain ⟨hmain, rfl⟩ := Server.step_pin hstep
  have hidle := h.idle (by simp [hmain])
  refine ⟨?_, MainThread.createSocket_shows server s.sockets, ?_, ?_, h.within, h.left,
    h.exclusive⟩
  · have hheld := h.held
    rw [hands, hmain] at hheld
    rw [hands, MainThread.createSocket_own]
    exact hheld
  · intro i thread hthread
    rw [hidle] at hthread
    cases hthread
  · exact fun hne => absurd hidle hne

theorem Kept.call (h : s.Kept server left) {c : SocketCall}
    (hstep : server.step s (.call c) = .ok s') : s'.Kept server left := by
  obtain ⟨o, o', sockets, hmain, ho, rfl⟩ := Server.step_call hstep
  have hidle := h.idle (by simp [hmain])
  obtain ⟨hmode, hshows⟩ : (MainThread.opening o).Shows server s.sockets := hmain ▸ h.main
  have hkept := hshows.step ho
  have hheld : Held (o.fd.toList ++ left.map LeftSocket.fd) s.sockets := by
    have hheld := h.held
    rw [hands, hmain, hidle] at hheld
    simpa [MainThread.own] using hheld
  refine ⟨?_, MainThread.opened_shows hmode (hkept.shows o' rfl), ?_, ?_, h.within, ?_,
    hkept.exclusive h.exclusive⟩
  · have hafter := hkept.transfer.hands _ hheld
    rw [hands, MainThread.opened_own, hidle]
    simpa using hafter
  · intro i thread hthread
    rw [hidle] at hthread
    cases hthread
  · exact fun hne => absurd hidle hne
  · intro l hl
    apply (h.left l hl).same
    exact hkept.transfer.lookup_rest hheld (List.mem_map_of_mem hl)

theorem Kept.spawn (h : s.Kept server left) {started : Bool}
    (hstep : server.step s (.spawn started) = .ok s') : s'.Kept server left := by
  obtain ⟨socket, plan, hmain, hroom, hplan, rfl⟩ := Server.step_spawn hstep
  refine ⟨?_, h.main, ?_, fun _ => ⟨socket, hmain⟩, ?_, h.left, h.exclusive⟩
  · have hheld := h.held
    rw [hands] at hheld ⊢
    simpa [ReceiverThread.own] using hheld
  · intro i thread hthread
    rw [List.getElem?_append] at hthread
    split at hthread
    · exact h.threads i thread hthread
    · rename_i hlast
      obtain ⟨hi, hthread⟩ := List.getElem?_eq_some_iff.mp hthread
      have hi : i = s.threads.length := by
        rw [List.length_singleton] at hi
        omega
      subst i
      cases hthread
      simp [ReceiverThread.Shows, Server.port_of hplan]
  · rw [List.length_append]
    exact hroom

/-- A thread keeps its socket or leaves it behind. -/
theorem hand_eq {i : Nat} {e : ThreadEvent} {thread thread' : ReceiverThread}
    (hthread : s.threads[i]? = some thread) (hthread' : s'.threads[i]? = some thread') :
    thread'.own.toList ++ (s.left (.thread i e) s').map LeftSocket.fd =
      (thread.hand thread' s'.sockets).toList := by
  simp only [Exec.left, hthread, hthread', Option.bind_some]
  cases hjoined : thread'.joined with
  | none => simp [ReceiverThread.hand, hjoined]
  | some result =>
    rw [ReceiverThread.own_of_joined (by simp [hjoined])]
    cases hown : thread.own with
    | none => simp [ReceiverThread.hand, hown, hjoined]
    | some fd =>
      cases hlookup : s'.sockets.lookup fd with
      | none =>
        have hhand : thread.hand thread' s'.sockets = none := by
          simp [ReceiverThread.hand, hown, hjoined, AList.lookup_eq_none.mp hlookup]
        simp [hhand, hlookup]
      | some entry =>
        have hhand : thread.hand thread' s'.sockets = some fd := by
          simp [ReceiverThread.hand, hown, hjoined, SocketTable.mem_of_lookup hlookup]
        simp [hhand, hlookup]

theorem left_mem {i : Nat} {e : ThreadEvent} {l : LeftSocket} (h : l ∈ s.left (.thread i e) s') :
    ∃ thread thread', s.threads[i]? = some thread ∧ s'.threads[i]? = some thread' ∧
      l.thread = i ∧ thread.own = some l.fd ∧ thread'.joined = some l.result ∧
      s'.sockets.lookup l.fd = some l.socket := by
  have h := Option.mem_toList.mp h
  simp only [Option.bind_eq_bind, Option.bind_eq_some_iff, Option.pure_def] at h
  obtain ⟨fd, ⟨thread, hthread, hown⟩, result, ⟨thread', hthread', hjoined⟩, socket, hlookup, h⟩ :=
    h
  cases h
  exact ⟨thread, thread', hthread, hthread', rfl, hown, hjoined, hlookup⟩

/-- The socket that a move of thread `i` leaves. -/
theorem left_shows {i : Nat} {e : ThreadEvent} {socket : Option Nat}
    {thread thread' : ReceiverThread} {l : LeftSocket}
    (hkept : ReceiverThread.Kept server i socket s.sockets s'.sockets thread thread')
    (hmode : socket = none ↔ server.parameter.multiplexPortReceiver ≠ .sharing)
    (hi : i < server.parameter.amountThreads) (hthread : s.threads[i]? = some thread)
    (hthread' : s'.threads[i]? = some thread') (hl : l ∈ s.left (.thread i e) s') :
    l.Shows server s'.sockets := by
  obtain ⟨_, _, h₁, h₂, rfl, hown, hjoined, hlookup⟩ := left_mem hl
  cases hthread.symm.trans h₁
  cases hthread'.symm.trans h₂
  obtain ⟨hsocket, hidle, entry, hentry, hof⟩ :=
    hkept.left l.fd l.result hown hjoined (SocketTable.mem_of_lookup hlookup)
  cases hlookup.symm.trans hentry
  exact ⟨hi, hmode.mp hsocket, hidle, hlookup, hof⟩

theorem Kept.thread (h : s.Kept server left) {i : Nat} {e : ThreadEvent}
    (hstep : server.step s (.thread i e) = .ok s') :
    s'.Kept server (left ++ s.left (.thread i e) s') := by
  obtain ⟨socket, thread, thread', sockets, lock, hmain, hthread, hmove, hs'⟩ :=
    Server.step_thread hstep
  have hlt : i < s.threads.length := (List.getElem?_eq_some_iff.mp hthread).1
  have hsockets : s'.sockets = sockets := by rw [hs']
  have hmain' : s'.main = s.main := by rw [hs']
  have hthreads : s'.threads = s.threads.set i thread' := by rw [hs']
  have hthread' : s'.threads[i]? = some thread' := by
    rw [hthreads, List.getElem?_set_self hlt]
  have hshared : s.main.socket = socket := by rw [hmain]; rfl
  have hshows := h.main
  rw [hmain] at hshows
  have hkept := ReceiverThread.Shows.step hshows.shared (hshared ▸ h.threads i thread hthread) hmove
  obtain ⟨rest, hold, hnew, hothers⟩ :=
    Lists.flatMap_set hthread (fun thread => thread.own.toList)
  have hheld : Held (thread.own.toList ++ (rest ++ s.main.own.toList ++ left.map LeftSocket.fd))
      s.sockets := by
    refine h.held.of_perm (List.perm_iff_count.mpr fun fd => ?_)
    have hcount := hold.count_eq fd
    simp only [hands, List.count_append] at hcount ⊢
    omega
  have hsame : ∀ fd ∈ rest ++ s.main.own.toList ++ left.map LeftSocket.fd,
      sockets.lookup fd = s.sockets.lookup fd :=
    fun fd hfd => hkept.transfer.lookup_rest hheld hfd
  refine ⟨?_, ?_, ?_, ?_, ?_, ?_, ?_⟩
  · have hhand := hand_eq (e := e) hthread hthread'
    rw [hsockets] at hhand ⊢
    refine (hkept.transfer.hands _ hheld).of_perm (List.perm_iff_count.mpr fun fd => ?_)
    have hcount := (hnew thread').count_eq fd
    rw [← hhand, hands, hthreads, hmain']
    simp only [List.map_append, List.count_append] at hcount ⊢
    omega
  · rw [hmain', hsockets]
    apply h.main.same
    intro fd hfd
    exact hsame fd (by simp [hfd])
  · intro j other hother
    rw [hmain', hsockets]
    rw [hthreads] at hother
    by_cases hj : j = i
    · subst j
      rw [List.getElem?_set_self hlt] at hother
      cases hother
      rw [hshared]
      exact hkept.shows
    · rw [List.getElem?_set_ne (Ne.symm hj)] at hother
      apply (h.threads j other hother).same
      intro fd hfd
      have hmem := hothers j other hj hother (a := fd) (by simp [hfd])
      exact hsame fd (by simp [hmem])
  · exact fun _ => ⟨socket, hmain'.trans hmain⟩
  · rw [hthreads, List.length_set]
    exact h.within
  · intro l hl
    rw [hsockets]
    rcases List.mem_append.mp hl with hl | hl
    · apply (h.left l hl).same
      exact hsame l.fd (by simp [List.mem_map_of_mem hl])
    · rw [← hsockets] at hkept ⊢
      have hi : i < server.parameter.amountThreads := Nat.lt_of_lt_of_le hlt h.within
      exact left_shows hkept hshows.shared hi hthread hthread' hl
  · rw [hsockets]
    exact hkept.exclusive h.exclusive

/-- The shared socket is closed, if there is one. -/
theorem closeSocket_transfer {closed : Bool} {sockets sockets' : SocketTable} {socket : Option Nat}
    (h : Server.closeSocket closed sockets socket = .ok sockets') :
    Transfer socket none sockets sockets' ∧ (sockets.Exclusive → sockets'.Exclusive) := by
  cases socket with
  | none =>
    cases h
    exact ⟨.refl none sockets, fun h => h⟩
  | some fd =>
    simp only [Server.closeSocket] at h
    split at h
    · cases h
      exact ⟨.release fd sockets, fun h => h.erase fd⟩
    · cases h

theorem Kept.join (h : s.Kept server left) {clock clock' : Clock} {printed closed : Bool}
    (hstep : server.step s (.join clock clock' printed closed) = .ok s') :
    s'.Kept server left := by
  obtain ⟨socket, results, summary, rows, sockets, hmain, _, hresults, _, hclose, rfl⟩ :=
    Server.step_join hstep
  obtain ⟨htransfer, hexclusive⟩ := closeSocket_transfer hclose
  have hnone : s.threads.flatMap (fun thread => thread.own.toList) = [] := by
    apply List.flatMap_eq_nil_iff.mpr
    intro thread hthread
    obtain ⟨result, _, hjoined⟩ := Lists.forall₂_mem hresults hthread
    rw [ReceiverThread.own_of_joined (by simp [hjoined]), Option.toList_none]
  have hheld : Held (socket.toList ++ left.map LeftSocket.fd) s.sockets := by
    have hheld := h.held
    rw [hands, hmain, hnone] at hheld
    simpa [MainThread.own] using hheld
  refine ⟨?_, ?_, ?_, fun hne => absurd rfl hne, Nat.zero_le _, ?_, hexclusive h.exclusive⟩
  · have hafter := htransfer.hands _ hheld
    rw [hands]
    split
    · rw [MainThread.createSocket_own]
      exact hafter
    · exact hafter
  · dsimp only
    split
    · exact MainThread.createSocket_shows server sockets
    · trivial
  · intro i thread hthread
    cases hthread
  · intro l hl
    apply (h.left l hl).same
    exact htransfer.lookup_rest hheld (List.mem_map_of_mem hl)

theorem Kept.step (h : s.Kept server left) {e : ExecEvent} (hstep : server.step s e = .ok s') :
    s'.Kept server (left ++ s.left e s') := by
  cases e with
  | thread i e => exact h.thread hstep
  | pin bindCpu => exact (List.append_nil left).symm ▸ h.pin hstep
  | call c => exact (List.append_nil left).symm ▸ h.call hstep
  | spawn started => exact (List.append_nil left).symm ▸ h.spawn hstep
  | join clock clock' printed closed => exact (List.append_nil left).symm ▸ h.join hstep

theorem run_kept {events : List ExecEvent} (h : run server.step server.start events = .ok s) :
    s.Kept server (collect server.step Exec.left server.start events) := by
  have hstep : ∀ left s e s', Kept server left s → server.step s e = .ok s' →
      Kept server (left ++ s.left e s') s' := fun _ _ _ _ hs hstep => hs.step hstep
  have hkept := collect_invariant hstep (.start server) h
  simpa using hkept

end Exec

/-- The socket that a thread works on, its own or the shared one. -/
def ReceiverThread.uses : ReceiverThread → Option Nat
  | .opening _ o => o.fd
  | .lent fd => some fd
  | .running fd _ r => if r.joined.isNone then some fd else none
  | _ => none

theorem ReceiverThread.Shows.uses {server : Server} {i fd : Nat} {socket : Option Nat}
    {t : SocketTable} {thread : ReceiverThread} (h : thread.Shows server i socket t)
    (huses : thread.uses = some fd) : thread.own = some fd ∨ socket = some fd := by
  cases thread with
  | spawned port => cases huses
  | opening port o => exact .inl huses
  | lent fd' =>
    cases huses
    exact .inr h
  | running fd' own r =>
    simp only [ReceiverThread.uses] at huses
    split at huses
    · rename_i hnone
      cases huses
      cases own with
      | true => exact .inl (by simp [ReceiverThread.own, hnone])
      | false => exact .inr h.1
    · cases huses
  | panicked => cases huses

/-- Over all iterations of `exec` and in any order of its threads, an open
socket is the shared one, or belongs to one thread that is not over, or is left
for good by one that is. No thread works on a socket that is closed, shared
sockets are never left, and a thread that leaves one has nothing to report. -/
theorem exec_custody (server : Server) {events : List ExecEvent} {s : Exec}
    (h : run server.step server.start events = .ok s) :
    let left := collect server.step Exec.left server.start events
    (s.main.own.toList ++ s.threads.flatMap (fun thread => thread.own.toList) ++
        left.map LeftSocket.fd).Perm s.sockets.keys ∧
      (∀ thread ∈ s.threads, ∀ fd ∈ thread.uses, fd ∈ s.sockets) ∧
      ∀ l ∈ left, server.parameter.multiplexPortReceiver ≠ .sharing ∧ l.result.Idle := by
  intro left
  have hkept := Exec.run_kept h
  refine ⟨hkept.held, ?_, fun l hl => ⟨(hkept.left l hl).mode, (hkept.left l hl).result⟩⟩
  intro thread hthread fd hfd
  obtain ⟨i, hi⟩ := List.getElem?_of_mem hthread
  rcases (hkept.threads i thread hi).uses hfd with hown | hsocket
  · apply hkept.held.mem_iff.mp
    have hmem : fd ∈ s.threads.flatMap fun thread => thread.own.toList :=
      List.mem_flatMap.mpr ⟨thread, hthread, by simp [hown]⟩
    simp [Exec.hands, hmem]
  · apply hkept.held.mem_iff.mp
    obtain ⟨socket, hmain⟩ := hkept.serving (List.ne_nil_of_mem hthread)
    rw [hmain] at hsocket
    cases hsocket
    simp [Exec.hands, hmain, MainThread.own]

/-- A receiver that starts over and over. -/
def Server.infinite : Server where
  args := { NPerf.headersOnly with runInfinite := true }
  build := .debug
  cores := 8
  parameter := .headersOnly
  accepted := by decide +kernel
  mode := rfl
  topology := .twoNodes
  manager := ⟨.twoNodes, .receiver, false, 4, 0, 3⟩
  managed := rfl

/-- Its only thread opens a socket, and no sender turns up. -/
def timedOut (fd : Nat) : List ExecEvent :=
  [.spawn true, .thread 0 (.pin fun _ => true), .thread 0 (.call (.socket (some fd))),
    .thread 0 (.call (.setSocketOptions true true)), .thread 0 (.call (.bind (some 45001))),
    .thread 0 (.new ⟨0, 0⟩), .thread 0 (.run (.poll ⟨0, 0⟩ ⟨0, 0⟩ .timeout (.ok ()))),
    .join ⟨0, 0⟩ ⟨0, 0⟩ true true]

/-- The thread is over, and its socket is left. -/
theorem exec_custody_timeout :
    let events := .pin (fun _ => true) :: timedOut 3
    ∃ s, run Server.infinite.step Server.infinite.start events = .ok s ∧ s.threads.length = 0 ∧
      (collect Server.infinite.step Exec.left Server.infinite.start events).map LeftSocket.fd =
        [3] := by
  intro events
  obtain ⟨s, hrun, hnone, hmain, hkeys⟩ := checked
    (x := run Server.infinite.step Server.infinite.start events)
    (p := fun s => s.threads.length = 0 ∧ s.main.own = none ∧ s.sockets.keys = [3])
    (by decide +kernel)
  refine ⟨s, hrun, hnone, ?_⟩
  have hcustody := (exec_custody Server.infinite hrun).1
  rw [hmain, List.eq_nil_of_length_eq_zero hnone, hkeys] at hcustody
  exact List.perm_singleton.mp hcustody

end Nperf
