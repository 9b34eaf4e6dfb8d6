import Nperf.Proofs.Placement
import Nperf.Proofs.SocketCustody

namespace Nperf
open Rust Runs

/-- The thread that a move has pinned to a core; one that cannot be pinned is
over. -/
def Exec.pinned (_ : Exec) (e : ExecEvent) (s' : Exec) : List Nat :=
  match e with
  | .thread i (.pin _) => if (s'.threads[i]?.bind ReceiverThread.joined).isNone then [i] else []
  | _ => []

namespace AffinityLock
open CoreAffinityManager

variable {lock lock' : AffinityLock} {build : Build} {bindCpu : Nat → Bool}

/-- A thread that is pinned has bound itself to the next core. -/
theorem setAffinity_ok (h : lock.setAffinity build bindCpu = (true, lock')) :
    ∃ m m', lock = some m ∧ lock' = some m' ∧ (m.numaAffinity = false →
      bindCpu m.nextCoreId = true ∧ m' = { m with nextCoreId := m'.nextCoreId } ∧
      stepCore build m.nextCoreId (if m.mode = .receiver then -1 else 1) m.amountCpus =
        .ok m'.nextCoreId) := by
  cases lock with
  | none => cases h
  | some m =>
    cases hset : m.setAffinity build bindCpu with
    | error f =>
      simp only [AffinityLock.setAffinity, hset] at h
      cases h
    | ok placed =>
      obtain ⟨placement, m'⟩ := placed
      simp only [AffinityLock.setAffinity, hset] at h
      cases hresult : placement.result with
      | error e =>
        rw [hresult] at h
        cases h
      | ok u =>
        rw [hresult] at h
        cases h
        refine ⟨m, m', rfl, rfl, ?_⟩
        intro hnuma
        obtain ⟨⟨coreId, m₁⟩, hget, hset⟩ := bind_ok.mp hset
        simp only [getCoreId, hnuma, Bool.false_eq_true, if_false] at hget
        obtain ⟨next, hnext, hget⟩ := bind_ok.mp hget
        cases hget
        cases hset
        refine ⟨?_, by simp [hnuma], hnext⟩
        simp only [absoluteCore, Bool.false_eq_true, if_false] at hresult
        by_contra hnot
        simp only [Except.bind, if_neg hnot] at hresult
        cases hresult

theorem setAffinity_failed (h : lock.setAffinity build bindCpu = (false, lock')) :
    lock' = none := by
  unfold AffinityLock.setAffinity at h
  split at h
  · cases h
    rfl
  · split at h
    · cases h
      rfl
    · split at h
      · cases h
        rfl
      · cases h

end AffinityLock

namespace ReceiverThread

variable {server : Server} {socket : Option Nat} {t t' : SocketTable} {lock lock' : AffinityLock}
  {thread thread' : ReceiverThread} {e : ThreadEvent}

/-- What becomes of a thread that takes the lock. -/
theorem step_pin (hpin : server.parameter.coreAffinity = true) {bindCpu : Nat → Bool}
    (h : thread.step server.build server.parameter socket t lock (.pin bindCpu) =
      .ok (thread', t', lock')) :
    (∃ port, lock.setAffinity server.build bindCpu = (true, lock') ∧
      thread' = pinned port socket) ∨
      lock.setAffinity server.build bindCpu = (false, lock') ∧ thread' = .panicked := by
  cases thread with
  | spawned port =>
    simp only [step, if_pos hpin] at h
    cases hset : lock.setAffinity server.build bindCpu with
    | mk ok lock₁ =>
      rw [hset] at h
      cases h
      cases ok with
      | true => exact .inl ⟨port, rfl, rfl⟩
      | false => exact .inr ⟨rfl, rfl⟩
  | opening port o => cases o <;> cases h
  | _ => cases h

theorem step_lock (he : ∀ bindCpu, e ≠ .pin bindCpu)
    (h : thread.step server.build server.parameter socket t lock e =
      .ok (thread', t', lock')) : lock' = lock := by
  unfold ReceiverThread.step at h
  split at h
  · exact absurd rfl (he _)
  · obtain ⟨⟨o', t₁⟩, _, h⟩ := bind_ok.mp h
    cases o' with
    | none =>
      cases h
      rfl
    | some o' =>
      cases h
      rfl
  · cases h
    rfl
  · cases h
    rfl
  · rename_i fd own r e
    cases hr : r.step server.build e with
    | ok r' =>
      rw [hr] at h
      cases h
      rfl
    | error stop =>
      rw [hr] at h
      cases stop with
      | disabled => cases h
      | fault f =>
        cases h
        rfl
  · cases h

theorem pinned_joined (port : Nat) (socket : Option Nat) : (pinned port socket).joined = none := by
  cases socket <;> rfl

end ReceiverThread

namespace Exec

variable {server : Server} {s s' : Exec} {n : Nat}

/-- Where the lock is when `n` threads have been pinned, one core each from the
last one down. Behind core 0 the count goes wrong. -/
def Counts (server : Server) (n : Nat) : AffinityLock → Prop
  | none => n ≤ server.topology.pus
  | some m => m.mode = .receiver ∧ m.numaAffinity = false ∧ m.amountCpus = server.topology.pus ∧
      (n + m.nextCoreId + 1 = server.topology.pus ∨
        n = server.topology.pus ∧ m.nextCoreId = 2 ^ 64 - 1)

theorem Counts.le {lock : AffinityLock} (h : Counts server n lock) : n ≤ server.topology.pus := by
  cases lock with
  | none => exact h
  | some m =>
    obtain ⟨_, _, _, hnext | hnext⟩ := h
    · omega
    · omega

theorem Counts.start (hnuma : server.manager.numaAffinity = false)
    (hpus : 2 ≤ server.topology.pus) : Counts server 0 server.start.lock := by
  obtain ⟨hmode, hamount, hnext⟩ := CoreAffinityManager.new_plain server.managed hnuma
  rw [if_pos server.mode] at hnext
  refine ⟨hmode.trans server.mode, hnuma, hamount, .inl ?_⟩
  omega

/-- One more thread is pinned. -/
theorem Counts.pinned {lock lock' : AffinityLock} {bindCpu : Nat → Bool}
    (hpus : 2 ≤ server.topology.pus) (h : Counts server n lock)
    (hkernel : ∀ core, bindCpu core = true → core < server.topology.pus)
    (hset : lock.setAffinity server.build bindCpu = (true, lock')) :
    Counts server (n + 1) lock' := by
  obtain ⟨m, m', rfl, rfl, hplain⟩ := AffinityLock.setAffinity_ok hset
  obtain ⟨hmode, hnuma, hamount, hnext⟩ := h
  obtain ⟨hbound, hm', hstep⟩ := hplain hnuma
  have hcore := hkernel m.nextCoreId hbound
  have hsmall := server.topology.pus_lt
  rw [hmode, if_pos rfl, hamount] at hstep
  have hdown : n + m.nextCoreId + 1 = server.topology.pus := by omega
  refine ⟨by rw [hm', hmode], by rw [hm', hnuma], by rw [hm', hamount], ?_⟩
  cases hid : m.nextCoreId with
  | zero =>
    rw [hid, CoreAffinityManager.stepCore_wraps server.build hpus hsmall] at hstep
    refine .inr ⟨by omega, ?_⟩
    exact (Except.ok.inj hstep).symm
  | succ core =>
    rw [hid, CoreAffinityManager.stepCore_backward server.build (by omega) hsmall] at hstep
    have hcore := Except.ok.inj hstep
    left
    omega

/-- The events in which the kernel binds threads to cores that there are. -/
def Binds (server : Server) : ExecEvent → Prop
  | .thread _ (.pin bindCpu) => ∀ core, bindCpu core = true → core < server.topology.pus
  | _ => True

theorem pin_step (hpin : server.parameter.coreAffinity = true) {i : Nat} {bindCpu : Nat → Bool}
    (h : server.step s (.thread i (.pin bindCpu)) = .ok s') :
    s.lock.setAffinity server.build bindCpu = (true, s'.lock) ∧
        s.pinned (.thread i (.pin bindCpu)) s' = [i] ∨
      s'.lock = none ∧ s.pinned (.thread i (.pin bindCpu)) s' = [] := by
  obtain ⟨socket, thread, thread', sockets, lock, _, hthread, hmove, rfl⟩ := Server.step_thread h
  have hlt := (List.getElem?_eq_some_iff.mp hthread).1
  rcases ReceiverThread.step_pin hpin hmove with ⟨port, hset, rfl⟩ | ⟨hset, rfl⟩
  · exact .inl ⟨hset, by simp [Exec.pinned, hlt, ReceiverThread.pinned_joined]⟩
  · exact .inr ⟨AffinityLock.setAffinity_failed hset,
      by simp [Exec.pinned, hlt, ReceiverThread.joined]⟩

theorem other_step {e : ExecEvent} (he : ∀ i bindCpu, e ≠ .thread i (.pin bindCpu))
    (h : server.step s e = .ok s') : s'.lock = s.lock ∧ s.pinned e s' = [] := by
  cases e with
  | pin bindCpu =>
    obtain ⟨_, rfl⟩ := Server.step_pin h
    exact ⟨rfl, rfl⟩
  | call c =>
    obtain ⟨_, _, _, _, _, rfl⟩ := Server.step_call h
    exact ⟨rfl, rfl⟩
  | spawn started =>
    obtain ⟨_, _, _, _, _, rfl⟩ := Server.step_spawn h
    exact ⟨rfl, rfl⟩
  | thread i e =>
    obtain ⟨_, _, _, _, lock, _, _, hmove, rfl⟩ := Server.step_thread h
    have hnot : ∀ bindCpu, e ≠ .pin bindCpu := fun bindCpu hpin => he i bindCpu (by rw [hpin])
    refine ⟨ReceiverThread.step_lock hnot hmove, ?_⟩
    cases e with
    | pin bindCpu => exact absurd rfl (hnot bindCpu)
    | _ => rfl
  | join clock clock' printed closed =>
    obtain ⟨_, _, _, _, _, _, _, _, _, _, rfl⟩ := Server.step_join h
    exact ⟨rfl, rfl⟩

theorem Counts.step (hpin : server.parameter.coreAffinity = true)
    (hpus : 2 ≤ server.topology.pus) (h : Counts server n s.lock) {e : ExecEvent}
    (hkernel : Binds server e) (hstep : server.step s e = .ok s') :
    Counts server (n + (s.pinned e s').length) s'.lock := by
  by_cases he : ∀ i bindCpu, e ≠ .thread i (.pin bindCpu)
  · obtain ⟨hlock, hzero⟩ := other_step he hstep
    rw [hlock, hzero]
    exact h
  · simp only [not_forall, not_not] at he
    obtain ⟨i, bindCpu, rfl⟩ := he
    rcases pin_step hpin hstep with ⟨hset, hone⟩ | ⟨hnone, hzero⟩
    · rw [hone]
      exact h.pinned hpus hkernel hset
    · rw [hzero, hnone]
      exact h.le

/-- With the lock poisoned no thread is pinned. -/
theorem poisoned_step (hpin : server.parameter.coreAffinity = true) (h : s.lock = none)
    {e : ExecEvent} (hstep : server.step s e = .ok s') : s'.lock = none ∧ s.pinned e s' = [] := by
  by_cases he : ∀ i bindCpu, e ≠ .thread i (.pin bindCpu)
  · obtain ⟨hlock, hzero⟩ := other_step he hstep
    exact ⟨hlock.trans h, hzero⟩
  · simp only [not_forall, not_not] at he
    obtain ⟨i, bindCpu, rfl⟩ := he
    rcases pin_step hpin hstep with ⟨hset, _⟩ | hnone
    · rw [h] at hset
      cases hset
    · exact hnone

end Exec

/-- A receiver that pins its threads to cores, without NUMA affinity, has as many
threads in all its iterations as there are cores: the count goes down and is
not started anew, and the first thread that cannot be pinned poisons the lock.
No thread that comes after that is pinned either. -/
theorem exec_pins (server : Server) (hpin : server.parameter.coreAffinity = true)
    (hnuma : server.manager.numaAffinity = false) (hpus : 2 ≤ server.topology.pus)
    {events later : List ExecEvent} (hkernel : ∀ e ∈ events, Exec.Binds server e) {s t : Exec}
    (h : run server.step server.start events = .ok s) :
    (collect server.step Exec.pinned server.start events).length ≤ server.topology.pus ∧
      (s.lock = none → run server.step s later = .ok t →
        collect server.step Exec.pinned s later = []) := by
  refine ⟨?_, ?_⟩
  · have hstep : ∀ pinned s e s', Exec.Binds server e →
        Exec.Counts server (List.length pinned) s.lock → server.step s e = .ok s' →
        Exec.Counts server (pinned ++ s.pinned e s').length s'.lock := by
      intro pinned s e s' he hs hmove
      rw [List.length_append]
      exact hs.step hpin hpus he hmove
    have hstart : Exec.Counts server ([] : List Nat).length server.start.lock := .start hnuma hpus
    have hcounts := collect_invariant_of (Exec.Binds server) hstep hkernel hstart h
    simpa using hcounts.le
  · intro hnone hlater
    have hstep : ∀ pinned s e s', pinned = [] ∧ s.lock = none → server.step s e = .ok s' →
        pinned ++ s.pinned e s' = [] ∧ s'.lock = none := by
      rintro pinned s e s' ⟨rfl, hlock⟩ hmove
      obtain ⟨hlock', hzero⟩ := Exec.poisoned_step hpin hlock hmove
      exact ⟨hzero, hlock'⟩
    exact (collect_invariant hstep ⟨rfl, hnone⟩ hlater).1

/-- A machine with two cores. -/
def Topology.twoCores : Topology :=
  { puCount := true
    cpuBinding := some (true, true)
    pus := 2
    numaNodes := []
    pus_lt := by decide
    nodes_lt := by decide
    cpus_lt := by decide }

/-- A receiver that starts over and over, with its thread on a core. -/
def Server.pinning : Server where
  args := { NPerf.headersOnly with runInfinite := true, withCoreAffinity := true }
  build := .debug
  cores := 8
  parameter := { Parameter.headersOnly with coreAffinity := true }
  accepted := by decide +kernel
  mode := rfl
  topology := .twoCores
  manager := ⟨.twoCores, .receiver, false, 2, 0, 1⟩
  managed := rfl

/-- The thread of an iteration, which then cannot open a socket. -/
def pinnedOnce : List ExecEvent :=
  [.spawn true, .thread 0 (.pin fun core => core < 2), .thread 0 (.call (.socket none)),
    .join ⟨0, 0⟩ ⟨0, 0⟩ true true]

/-- The third iteration finds no core and poisons the lock, and in the fourth
one nothing is pinned. -/
theorem exec_pins_twice :
    let third := .pin (fun _ => true) :: pinnedOnce ++ pinnedOnce ++ pinnedOnce.take 2 ++
      [.join ⟨0, 0⟩ ⟨0, 0⟩ true true]
    ∃ s t, run Server.pinning.step Server.pinning.start third = .ok s ∧
      (collect Server.pinning.step Exec.pinned Server.pinning.start third).length ≤ 2 ∧
      run Server.pinning.step s (pinnedOnce.take 2) = .ok t ∧
      collect Server.pinning.step Exec.pinned s (pinnedOnce.take 2) = [] := by
  intro third
  obtain ⟨t, hrun, -⟩ := checked
    (x := run Server.pinning.step Server.pinning.start (third ++ pinnedOnce.take 2))
    (p := fun _ => True) (by decide +kernel)
  obtain ⟨s, hfirst, hlater⟩ := run_append_ok.mp hrun
  obtain ⟨s', hfirst', hnone⟩ := checked
    (x := run Server.pinning.step Server.pinning.start third)
    (p := fun s => s.lock.isNone) (by decide +kernel)
  cases hfirst.symm.trans hfirst'
  have hkernel : ∀ e ∈ third, Exec.Binds Server.pinning e := by
    simp [third, pinnedOnce, Exec.Binds, Server.pinning, Topology.twoCores]
  obtain ⟨hle, hpoisoned⟩ := exec_pins Server.pinning rfl rfl (by decide) hkernel hfirst
  exact ⟨s, t, hfirst, hle, hlater, hpoisoned (Option.isNone_iff_eq_none.mp hnone) hlater⟩

end Nperf
