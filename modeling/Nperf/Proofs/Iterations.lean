import Nperf.Proofs.SocketCustody

namespace Nperf
open Rust Runs

theorem Opening.step_stops {options : SocketOptions} {port : Nat} {t : SocketTable} {o : Opening}
    {c : SocketCall} {stop : Stop} (h : o.step options port t c = .error stop) :
    stop = .disabled := by
  unfold Opening.step at h
  split at h
  · cases h
  · split at h
    · cases h
      rfl
    · cases h
  · cases h
  · cases h
  · split at h
    · cases h
      rfl
    · split at h
      · cases h
      · cases h
        rfl
  · cases h
    rfl

/-- A panic of a thread is not one of the program. -/
theorem ReceiverThread.step_stops {server : Server} {socket : Option Nat} {t : SocketTable}
    {lock : AffinityLock} {thread : ReceiverThread} {e : ThreadEvent} {stop : Stop}
    (h : thread.step server.build server.parameter socket t lock e = .error stop) :
    stop = .disabled := by
  unfold ReceiverThread.step at h
  split at h
  · split at h
    · cases h
    · cases h
  · rcases bind_error h with h | ⟨⟨o', t'⟩, _, h⟩
    · exact Opening.step_stops h
    · cases o' <;> cases h
  · cases h
  · cases h
  · rename_i fd own r e
    cases hr : r.step server.build e with
    | ok r' =>
      rw [hr] at h
      cases h
    | error stop' =>
      rw [hr] at h
      cases stop' with
      | disabled =>
        cases h
        rfl
      | fault f => cases h
  · cases h
    rfl

namespace Server

variable {server : Server} {s s' : Exec} {f : Fault}

theorem lift_error {x : Except Fault α} : lift x = .error (.fault f) ↔ x = .error f := by
  cases x <;> simp [lift]

theorem threadPlan_error {i : Nat} :
    server.args.threadPlan server.build server.parameter i = .error f ↔
      f = .overflow ∧ server.build = .debug ∧
        server.parameter.multiplexPortReceiver = .individual ∧
        2 ^ 16 ≤ server.args.port.toNat + i := by
  unfold NPerf.threadPlan
  by_cases hmode : server.parameter.multiplexPortReceiver ≠ .individual
  · rw [if_pos hmode]
    constructor
    · rintro ⟨⟩
    · rintro ⟨-, -, hindividual, -⟩
      exact absurd hindividual hmode
  · rw [if_neg hmode]
    have hindividual : server.parameter.multiplexPortReceiver = .individual := by
      simpa using hmode
    constructor
    · intro h
      rcases bind_error h with h | ⟨port, _, h⟩
      · obtain ⟨hf, hbuild, hle⟩ := unsigned_error.mp h
        exact ⟨hf, hbuild, hindividual, hle⟩
      · cases h
    · rintro ⟨hf, hbuild, -, hle⟩
      have h : server.build.u16 (server.args.port.toNat + i : Nat) = .error f :=
        unsigned_error.mpr ⟨hf, hbuild, hle⟩
      rw [h]
      rfl

/-- All threads of an iteration are over, with these results. -/
structure Joins (server : Server) (s : Exec) (socket : Option Nat)
    (results : List ThreadResult) : Prop where
  main : s.main = .serving socket
  all : s.threads.length = server.parameter.amountThreads
  ended : s.threads.mapM ReceiverThread.joined = some results

/-- The ways in which the main thread panics. -/
inductive Panics (server : Server) (s : Exec) : ExecEvent → Fault → Prop
  | pin {bindCpu : Nat → Bool} (hmain : s.main = .pinning)
      (hpin : server.parameter.coreAffinity = true) (hrefused : bindCpu 0 = false) :
      Panics server s (.pin bindCpu) .unwrap
  | call {o : Opening} {c : SocketCall} {sockets : SocketTable} (hmain : s.main = .opening o)
      (hrefused : o.step server.parameter.socketOptions server.args.port.toNat s.sockets c =
        .ok (none, sockets)) : Panics server s (.call c) .unwrap
  | port {socket : Option Nat} {started : Bool} (hmain : s.main = .serving socket)
      (hroom : s.threads.length < server.parameter.amountThreads) (hbuild : server.build = .debug)
      (hmode : server.parameter.multiplexPortReceiver = .individual)
      (hport : 2 ^ 16 ≤ server.args.port.toNat + s.threads.length) :
      Panics server s (.spawn started) .overflow
  | spawn {socket : Option Nat} {plan : ThreadPlan} (hmain : s.main = .serving socket)
      (hroom : s.threads.length < server.parameter.amountThreads)
      (hplan : server.args.threadPlan server.build server.parameter s.threads.length = .ok plan) :
      Panics server s (.spawn false) .unwrap
  | merge {socket : Option Nat} {results : List ThreadResult} {clock clock' : Clock}
      {printed closed : Bool} (hjoins : server.Joins s socket results)
      (hbuild : server.build = .debug)
      (hmerge : mergeThreads .debug clock clock' server.parameter results = .error .overflow) :
      Panics server s (.join clock clock' printed closed) .overflow
  | print {socket : Option Nat} {results : List ThreadResult} {clock clock' : Clock}
      {closed : Bool} {summary : Statistic} {rows : List Statistic}
      (hjoins : server.Joins s socket results)
      (hmerge : mergeThreads server.build clock clock' server.parameter results =
        .ok (summary, rows))
      (hprints : prints summary rows = true) :
      Panics server s (.join clock clock' false closed) .unwrap
  | close {fd : Nat} {results : List ThreadResult} {clock clock' : Clock} {printed : Bool}
      {summary : Statistic} {rows : List Statistic} (hjoins : server.Joins s (some fd) results)
      (hmerge : mergeThreads server.build clock clock' server.parameter results =
        .ok (summary, rows))
      (hprinted : prints summary rows = true → printed = true) :
      Panics server s (.join clock clock' printed false) .unwrap

theorem print_ok {printed : Bool} {summary : Statistic} {rows : List Statistic} :
    print printed summary rows = .ok () ↔ (prints summary rows = true → printed = true) := by
  unfold print
  split
  · rename_i h
    simp [h.1, h.2]
  · rename_i h
    simpa [imp_iff_not_or, or_comm] using h

theorem print_error {printed : Bool} {summary : Statistic} {rows : List Statistic} :
    print printed summary rows = .error f ↔
      f = .unwrap ∧ printed = false ∧ prints summary rows = true := by
  unfold print
  split
  · rename_i h
    simp [h.1, h.2, eq_comm]
  · rename_i h
    constructor
    · rintro ⟨⟩
    · rintro ⟨-, rfl, hprints⟩
      exact absurd ⟨hprints, by simp⟩ h

theorem closeSocket_error {closed : Bool} {sockets : SocketTable} {socket : Option Nat} :
    closeSocket closed sockets socket = .error f ↔
      f = .unwrap ∧ closed = false ∧ socket.isSome := by
  cases socket with
  | none => simp [closeSocket]
  | some fd => cases closed <;> simp [closeSocket, eq_comm]

/-- What the main thread does with the results of its threads. -/
theorem Joins.step {socket : Option Nat} {results : List ThreadResult}
    (h : server.Joins s socket results) (clock clock' : Clock) (printed closed : Bool) :
    server.step s (.join clock clock' printed closed) = (do
      let (summary, rows) ←
        lift (mergeThreads server.build clock clock' server.parameter results)
      lift (print printed summary rows)
      let sockets ← lift (closeSocket closed s.sockets socket)
      .ok { s with
        sockets := sockets
        main := if server.args.runInfinite ∧ server.parameter.mode = .receiver then
            server.createSocket
          else .returned summary rows
        threads := [] }) := by
  simp only [Server.step, h.main, if_pos h.all, h.ended, Session.enabled, ok_bind]

end Server

namespace Exec

variable {server : Server} {s s' : Exec} {left : List LeftSocket} {results : List ThreadResult}

theorem Kept.sound (h : s.Kept server left) {thread : ReceiverThread} (hthread : thread ∈ s.threads)
    {result : ThreadResult} (hjoined : thread.joined = some result) :
    result.Sound server.parameter := by
  obtain ⟨i, hi⟩ := List.getElem?_of_mem hthread
  have hshows := h.threads i thread hi
  cases thread with
  | running fd own r =>
    have hregisters : r.Registers server.parameter := by
      cases own with
      | true => exact hshows.2.1
      | false => exact hshows.2
    exact hregisters.joined result hjoined
  | panicked =>
    cases hjoined
    exact ⟨trivial, trivial⟩
  | _ => cases hjoined

theorem Kept.sounds (h : s.Kept server left)
    (hresults : s.threads.mapM ReceiverThread.joined = some results) :
    ∀ result ∈ results, result.Sound server.parameter := by
  intro result hresult
  obtain ⟨thread, hthread, hjoined⟩ :=
    Lists.forall₂_mem (Lists.mapM_some hresults).flip hresult
  exact h.sound hthread hjoined

theorem enabled_error {α : Type} {x : Option α} {stop : Stop}
    (h : Session.enabled x = .error stop) : stop = .disabled := by
  cases x with
  | none =>
    cases h
    rfl
  | some a => cases h

/-- Once its threads are over, the main thread only adds up, prints and closes. -/
theorem Kept.join_panics (h : s.Kept server left) {socket : Option Nat} {clock clock' : Clock}
    {printed closed : Bool} {f : Fault} (hmain : s.main = .serving socket)
    (hstep : server.step s (.join clock clock' printed closed) = .error (.fault f)) :
    server.Panics s (.join clock clock' printed closed) f := by
  obtain ⟨results, hjoins⟩ : ∃ results, server.Joins s socket results := by
    simp only [Server.step, hmain] at hstep
    split at hstep
    · rename_i hall
      rcases bind_error hstep with hstep | ⟨results, hresults, _⟩
      · cases enabled_error hstep
      · exact ⟨results, hmain, hall, Session.enabled_ok.mp hresults⟩
    · cases hstep
  rw [hjoins.step] at hstep
  rcases bind_error hstep with hmerge | ⟨⟨summary, rows⟩, hmerge, hstep⟩
  · have hmerge := Server.lift_error.mp hmerge
    obtain ⟨rfl, hbuild⟩ := mergeThreads_overflows server.build clock clock'
      (fun result hresult => (h.sounds hjoins.ended result hresult).of) f hmerge
    exact .merge hjoins hbuild (hbuild ▸ hmerge)
  have hmerge := Server.lift_ok.mp hmerge
  rcases bind_error hstep with hprint | ⟨⟨⟩, hprint, hstep⟩
  · obtain ⟨rfl, rfl, hprints⟩ := Server.print_error.mp (Server.lift_error.mp hprint)
    exact .print hjoins hmerge hprints
  have hprint := Server.print_ok.mp (Server.lift_ok.mp hprint)
  rcases bind_error hstep with hclose | ⟨sockets, _, hstep⟩
  · obtain ⟨rfl, rfl, hsocket⟩ := Server.closeSocket_error.mp (Server.lift_error.mp hclose)
    obtain ⟨fd, rfl⟩ := Option.isSome_iff_exists.mp hsocket
    exact .close hjoins hmerge hprint
  · cases hstep

/-- Only its own calls make the main thread panic. -/
theorem Kept.panics (h : s.Kept server left) {e : ExecEvent} {f : Fault}
    (hstep : server.step s e = .error (.fault f)) : server.Panics s e f := by
  cases hmain : s.main with
  | pinning =>
    cases e with
    | pin bindCpu =>
      simp only [Server.step, hmain] at hstep
      split at hstep
      · rename_i hpin
        cases hstep
        exact .pin hmain hpin.1 (by simpa using hpin.2)
      · cases hstep
    | _ =>
      simp only [Server.step, hmain] at hstep
      cases hstep
  | opening o =>
    cases e with
    | call c =>
      simp only [Server.step, hmain] at hstep
      rcases bind_error hstep with hstep | ⟨⟨o', sockets⟩, ho, hstep⟩
      · cases Opening.step_stops hstep
      · cases o' with
        | none =>
          cases hstep
          exact .call hmain ho
        | some o' => cases hstep
    | _ =>
      simp only [Server.step, hmain] at hstep
      cases hstep
  | serving socket =>
    cases e with
    | spawn started =>
      simp only [Server.step, hmain] at hstep
      split at hstep
      · rename_i hroom
        rcases bind_error hstep with hstep | ⟨plan, hplan, hstep⟩
        · obtain ⟨rfl, hbuild, hmode, hport⟩ :=
            Server.threadPlan_error.mp (Server.lift_error.mp hstep)
          exact .port hmain hroom hbuild hmode hport
        · cases started with
          | true => cases hstep
          | false =>
            cases hstep
            exact .spawn hmain hroom (Server.lift_ok.mp hplan)
      · cases hstep
    | thread i e =>
      simp only [Server.step, hmain] at hstep
      rcases bind_error hstep with hstep | ⟨thread, _, hstep⟩
      · cases enabled_error hstep
      · rcases bind_error hstep with hstep | ⟨moved, _, hstep⟩
        · cases ReceiverThread.step_stops hstep
        · cases hstep
    | join clock clock' printed closed => exact h.join_panics hmain hstep
    | _ =>
      simp only [Server.step, hmain] at hstep
      cases hstep
  | returned summary rows =>
    simp only [Server.step, hmain] at hstep
    cases hstep

end Exec

theorem Server.Panics.step {e : ExecEvent} {f : Fault} {server : Server} {s : Exec}
    (h : server.Panics s e f) : server.step s e = .error (.fault f) := by
  cases h with
  | pin hmain hpin hrefused => simp [Server.step, hmain, hpin, hrefused]
  | call hmain hrefused =>
    simp only [Server.step, hmain, hrefused]
    rfl
  | port hmain hroom hbuild hmode hport =>
    have hplan := Server.threadPlan_error.mpr ⟨rfl, hbuild, hmode, hport⟩
    simp only [Server.step, hmain, if_pos hroom, hplan]
    rfl
  | spawn hmain hroom hplan =>
    simp only [Server.step, hmain, if_pos hroom, hplan]
    rfl
  | merge hjoins hbuild hmerge =>
    rw [hjoins.step, hbuild, hmerge]
    rfl
  | @print socket results clock clock' closed summary rows hjoins hmerge hprints =>
    have hprint := Server.print_error.mpr ⟨rfl, rfl, hprints⟩
    rw [hjoins.step, hmerge]
    simp only [Server.lift, ok_bind, hprint]
    rfl
  | close hjoins hmerge hprinted =>
    have hprint := Server.print_ok.mpr hprinted
    rw [hjoins.step, hmerge]
    simp only [Server.lift, ok_bind, hprint, Server.closeSocket]
    rfl

/-- However the threads end, in panics of their own or otherwise, and in any
iteration: the program panics only where its main thread cannot be pinned or
cannot start another one, where the shared socket cannot be made or closed or
what is to be printed cannot be, and, if overflow is checked, where a port does
not fit in 16 bits or a counter leaves its type while the results are added up. -/
theorem exec_panics_iff (server : Server) {events : List ExecEvent} {s : Exec}
    (h : run server.step server.start events = .ok s) (e : ExecEvent) (f : Fault) :
    server.step s e = .error (.fault f) ↔ server.Panics s e f :=
  ⟨(Exec.run_kept h).panics, Server.Panics.step⟩

/-- Two threads, and no port for the second one. -/
def Server.lastPort : Server where
  args := { NPerf.headersOnly with port := 65535, parallel := 2 }
  build := .debug
  cores := 8
  parameter := { Parameter.headersOnly with amountThreads := 2 }
  accepted := by decide +kernel
  mode := rfl
  topology := .twoNodes
  manager := ⟨.twoNodes, .receiver, false, 4, 0, 3⟩
  managed := rfl

theorem exec_panics_iff_port :
    ∃ s, run Server.lastPort.step Server.lastPort.start [.pin fun _ => true, .spawn true] = .ok s ∧
      Server.lastPort.step s (.spawn true) = .error (.fault .overflow) := by
  have hrun : run Server.lastPort.step Server.lastPort.start [.pin fun _ => true, .spawn true] =
      .ok ⟨∅, some Server.lastPort.manager, .serving none, [.spawned 65535]⟩ := rfl
  exact ⟨_, hrun, (exec_panics_iff Server.lastPort hrun (.spawn true) .overflow).mpr
    (.port rfl (by decide) rfl rfl (by decide))⟩

/-- When all threads of an iteration are over, their results are added up, unless
a counter leaves its type and overflow is checked. The sums are exact if none
does. When what is to be printed can be, and the shared socket closed, a
receiver that runs infinitely begins the next iteration. -/
theorem exec_iterates (server : Server) {events : List ExecEvent} {s : Exec}
    (h : run server.step server.start events = .ok s) {socket : Option Nat}
    {results : List ThreadResult} (hjoins : server.Joins s socket results)
    (hfits : server.build = .release ∨ Addable results) (clock clock' : Clock) :
    ∃ summary rows, mergeThreads server.build clock clock' server.parameter results =
        .ok (summary, rows) ∧
      (Addable results → ∀ m,
        summary.metric m = ((summaries results).map (Statistic.metric m)).sum ∧
        summary.metric m = (rows.map (Statistic.metric m)).sum +
          ((summaries (results.filter ThreadResult.unrecorded)).map (Statistic.metric m)).sum) ∧
      ∀ printed closed, (Server.prints summary rows = true → printed = true) →
        (socket.isSome → closed = true) →
        ∃ s', server.step s (.join clock clock' printed closed) = .ok s' ∧ s'.threads = [] ∧
          s'.main = if server.args.runInfinite = true then server.createSocket
            else .returned summary rows := by
  have hsound := (Exec.run_kept h).sounds hjoins.ended
  obtain ⟨⟨summary, rows⟩, hmerge⟩ : ∃ merged,
      mergeThreads server.build clock clock' server.parameter results = .ok merged := by
    cases hmerge : mergeThreads server.build clock clock' server.parameter results with
    | ok merged => exact ⟨merged, rfl⟩
    | error f =>
      obtain ⟨_, hdebug⟩ := mergeThreads_overflows server.build clock clock'
        (fun result hresult => (hsound result hresult).of) f hmerge
      rcases hfits with hrelease | haddable
      · cases hrelease.symm.trans hdebug
      · obtain ⟨_, _, hmerge', _⟩ := mergeThreads_sound server.build clock clock' hsound haddable
        cases hmerge.symm.trans hmerge'
  refine ⟨summary, rows, hmerge, ?_, ?_⟩
  · intro haddable
    obtain ⟨_, _, hmerge', hsums⟩ := mergeThreads_sound server.build clock clock' hsound haddable
    cases hmerge.symm.trans hmerge'
    exact hsums
  · intro printed closed hprinted hclosed
    have hprint := Server.print_ok.mpr hprinted
    obtain ⟨sockets, hclose⟩ : ∃ sockets,
        Server.closeSocket closed s.sockets socket = .ok sockets := by
      cases socket with
      | none => exact ⟨_, rfl⟩
      | some fd =>
        cases hclosed rfl
        exact ⟨_, rfl⟩
    have hstep : server.step s (.join clock clock' printed closed) = .ok { s with
        sockets := sockets
        main := if server.args.runInfinite ∧ server.parameter.mode = .receiver then
            server.createSocket
          else .returned summary rows
        threads := [] } := by
      rw [hjoins.step, hmerge]
      simp only [Server.lift, ok_bind, hprint, hclose]
    exact ⟨_, hstep, rfl, by simp [server.mode]⟩

/-- The only thread has timed out, and the next iteration begins. -/
theorem exec_iterates_timeout :
    let events := .pin (fun _ => true) :: (timedOut 3).take 7
    ∃ s s', run Server.infinite.step Server.infinite.start events = .ok s ∧
      s.threads.length = 1 ∧ Server.infinite.step s (.join ⟨0, 0⟩ ⟨0, 0⟩ true true) = .ok s' ∧
      s'.main = Server.infinite.createSocket := by
  intro events
  obtain ⟨s, hrun, hlength, hover⟩ := checked
    (x := run Server.infinite.step Server.infinite.start events)
    (p := fun s => s.threads.length = 1 ∧ ∃ results ∈ s.threads.mapM ReceiverThread.joined,
      AddableCounted results)
    (by decide +kernel)
  obtain ⟨results, hover, haddable⟩ := hover
  have hthreads : s.threads ≠ [] := List.ne_nil_of_length_eq_add_one hlength
  obtain ⟨socket, hmain⟩ := (Exec.run_kept hrun).serving hthreads
  obtain ⟨summary, rows, _, _, hnext⟩ := exec_iterates Server.infinite hrun
    ⟨hmain, hlength, hover⟩ (.inr (.of_counted haddable)) ⟨0, 0⟩ ⟨0, 0⟩
  obtain ⟨s', hstep, _, hmain'⟩ := hnext true true (fun _ => rfl) fun _ => rfl
  exact ⟨s, s', hrun, hlength, hstep, hmain'⟩

end Nperf
