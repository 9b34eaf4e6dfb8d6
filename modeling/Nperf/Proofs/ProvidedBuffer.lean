import Nperf.Proofs.Loop

namespace Nperf
open Rust Bytes Runs

theorem Receiver.completeProvidedBuffer_ok {build : Build} {clock : Clock} {c : Cqe}
    {r r' : Receiver} {completed completed' : Nat} {statistic statistic' : Statistic}
    {result : Except Error Unit}
    (h : completeProvidedBuffer (handleRecvmsgReturn build clock) c (r, completed, statistic) =
      .ok (result, r', completed', statistic')) :
    r.Kept r' ∧ (result = .ok () → completed' = completed + 1) := by
  cases completeProvidedBuffer_cases h with
  | failed => exact ⟨.refl r, by simp⟩
  | empty => exact ⟨.refl r, fun _ => rfl⟩
  | handled _ goes => exact ⟨(handleRecvmsgReturn_ok goes).1, fun _ => rfl⟩

/-- Where the handler stands after the completions `done`: each one counts. -/
structure Receiver.Completed (r : Receiver) (done : List Cqe) (s : Receiver × Nat × Statistic) :
    Prop where
  kept : r.Kept s.1
  count : s.2.1 = done.length

theorem Receiver.Completed.round {build : Build} {clock : Clock} {r : Receiver} {done : List Cqe}
    {c : Cqe} {s s' : Receiver × Nat × Statistic} (hs : r.Completed done s)
    (h : completeProvidedBuffer (handleRecvmsgReturn build clock) c s = .ok (.ok (), s')) :
    r.Completed (done ++ [c]) s' := by
  obtain ⟨hkept, hcount⟩ := completeProvidedBuffer_ok h
  exact ⟨hs.kept.trans hkept, by simp [hcount rfl, hs.count]⟩

theorem Receiver.ioUringCompleteProvidedBuffers_ok {build : Build} {clock : Nat → Clock}
    {r r' : Receiver} {statistic statistic' : Statistic} {cq rest : List Cqe}
    {result : Except Error Nat}
    (h : r.ioUringCompleteProvidedBuffers build clock statistic cq =
      .ok (result, r', statistic', rest)) :
    r.Kept r' ∧ (result = .ok cq.length ∧ rest = [] ∨
      ∃ e front, result = .error e ∧ cq = front ++ rest) := by
  simp only [ioUringCompleteProvidedBuffers, bind_ok] at h
  obtain ⟨⟨drained, ⟨r'', completed, statistic''⟩, rest'⟩, hdrain, h⟩ := h
  cases h
  have hstart : r.Completed [] (r, 0, statistic) := ⟨.refl r, rfl⟩
  rcases Queue.drain_cases [] (R := r.Completed) (fun _ _ _ _ _ hs => hs.round) hstart hdrain with
    ⟨rfl, hrest, hall⟩ | ⟨e, front, c, j, t, rfl, hcq, hfront, hbody⟩
  · have hcount := hall.count
    simp only [List.nil_append] at hcount
    exact ⟨hall.kept, .inl ⟨by rw [map_ok, hcount], hrest⟩⟩
  · obtain ⟨hkept, _⟩ := completeProvidedBuffer_ok hbody
    exact ⟨hfront.kept.trans hkept, .inr ⟨e, front ++ [c], rfl, by simp [hcq]⟩⟩

theorem IoUringProvidedBuffer.submit_length (requests room : Nat) :
    (submit requests room).length = min requests room := by
  induction requests generalizing room with
  | zero => simp [submit]
  | succ requests ih =>
    cases room with
    | zero => rfl
    | succ room =>
      simp only [submit, List.length_cons, ih]
      omega

/-- The new requests that `amount_inflight` does not count yet. -/
def UringLoop.pending (s : UringLoop) : Nat :=
  match s.phase with
  | .enter amountNewRequests => amountNewRequests
  | _ => 0

/-- The accounts of the loop with provided buffers. -/
structure UringLoop.Counted (p : Parameter) (s : UringLoop) : Prop where
  parameter : s.receiver.parameter = p
  capacity : s.ring.cqCapacity = p.uringParameter.bufferSize
  room : s.ring.sq.length ≤ s.ring.sqCapacity
  bounded : s.amountInflight + s.pending ≤ p.uringParameter.bufferSize
  counted : s.Going → s.ring.outstanding.length ≤ s.amountInflight + s.pending

namespace UringLoop
variable {build : Build} {p : Parameter} {s s' : UringLoop}

theorem completeProvidedBuffer_ok {clock : Nat → Clock}
    (hmode : s.uring.uringMode = .providedBuffer) (h : s.complete build clock = .ok s') :
    s'.receiver.parameter = s.receiver.parameter ∧
      ∃ front rest, s.ring.cq = front ++ rest ∧ s'.ring = { s.ring with cq := rest } ∧
        (s'.phase = .fill ∧ front.length ≤ s.amountInflight ∧
            s'.amountInflight = s.amountInflight - front.length ∨
          s'.phase = .fill ∧ s'.amountInflight = s.amountInflight ∨
          ∃ result, s'.phase = .returned result ∧ s'.amountInflight = s.amountInflight) := by
  simp only [complete, hmode, bind_ok] at h
  obtain ⟨⟨result, r, statistic, rest⟩, hdrain, h⟩ := h
  obtain ⟨hkept, ⟨rfl, rfl⟩ | ⟨e, front, rfl, hcq⟩⟩ :=
    Receiver.ioUringCompleteProvidedBuffers_ok hdrain
  · obtain ⟨hle, rfl⟩ := reaped_ok h
    exact ⟨hkept.parameter, s.ring.cq, [], (List.append_nil _).symm, rfl, .inl ⟨rfl, hle, rfl⟩⟩
  · obtain ⟨hk, hphase⟩ := interrupted_ok h
    refine ⟨hk.receiver.parameter.trans hkept.parameter, front, rest, hcq, hk.ring, .inr ?_⟩
    rcases hphase with ⟨hfill, _⟩ | ⟨result, hreturned, _⟩
    · exact .inl ⟨hfill, hk.amountInflight⟩
    · exact .inr ⟨result, hreturned, hk.amountInflight⟩

theorem Counted.start (clock : Clock) {r : Receiver} (hr : r.parameter = p) :
    (start clock r).Counted p := by
  refine ⟨hr, by rw [← hr]; rfl, Nat.zero_le _, ?_, fun _ => Nat.le_refl 0⟩
  simp [UringLoop.start, pending]

/-- What is pushed is pending until the counter has it. -/
theorem fillProvidedBuffer_ok {clock : Clock} {room : Nat}
    (hmode : s.uring.uringMode = .providedBuffer) (h : s.fill build clock room = .ok s') :
    s'.amountInflight = s.amountInflight ∧
      s'.ring.outstanding.length = s.ring.outstanding.length + s'.pending ∧ s'.phase ≠ .fill := by
  simp only [UringLoop.fill, hmode] at h
  obtain ⟨t, toSubmit, minComplete, hk, hcalc, rfl | hs'⟩ := fillCounted_ok h
  · exact ⟨hk.amountInflight, by simp [hk.ring, pending], by simp⟩
  · obtain ⟨_, hring, hinflight, _, hphase⟩ := pushed_ok hs'
    refine ⟨hinflight.trans hk.amountInflight, ?_, by simp [hphase]⟩
    rw [hring, (t.ring.push_outstanding _).length_eq, List.length_append, hk.ring]
    simp [pending, hphase]

theorem Counted.fill {clock : Clock} {room : Nat} (hu : p.uringParameter.Accepted)
    (hmode : p.uringParameter.uringMode = .providedBuffer) (hs : s.Counted p)
    (h : s.step build (.fill clock room) = .ok s') : s'.Counted p := by
  obtain ⟨hphase, hroom, h⟩ := step_fill h
  have hpending : s.pending = 0 := by simp [pending, hphase]
  have hbounded := hs.bounded
  have hcounted := hs.counted (.of_phase hphase (by simp))
  have huring : s.uring = p.uringParameter := by simp only [uring, hs.parameter]
  simp only [UringLoop.fill, huring, hmode] at h
  obtain ⟨t, toSubmit, minComplete, hk, hcalc, hs'⟩ := fillCounted_ok h
  rw [hk.uring, hk.ring, hk.amountInflight, huring] at hcalc
  obtain ⟨_, _, hcalc', hle⟩ := calcSqFillMode_ok hu hs.room
    (show s.amountInflight ≤ p.uringParameter.bufferSize by omega)
  cases hcalc.symm.trans hcalc'
  have hparameter := hk.receiver.parameter.trans hs.parameter
  rcases hs' with rfl | hs'
  · refine ⟨hparameter, ?_, ?_, ?_, ?_⟩
    all_goals simp only [hk.ring, hk.amountInflight, pending]
    · exact hs.capacity
    · exact hs.room
    · omega
    · exact fun _ => by omega
  · obtain ⟨hreceiver, hring, hinflight, _, hphase'⟩ := pushed_ok hs'
    have hpending' : s'.pending = min toSubmit room := by
      simp [pending, hphase', IoUringProvidedBuffer.submit_length]
    have hout := (Ring.push_outstanding t.ring
      (IoUringProvidedBuffer.submit toSubmit room)).length_eq
    rw [← hring, List.length_append, hk.ring, IoUringProvidedBuffer.submit_length] at hout
    rw [hk.ring] at hring
    rw [hk.amountInflight] at hinflight
    refine ⟨hreceiver ▸ hparameter, by rw [hring]; exact hs.capacity, ?_, by omega,
      fun _ => by omega⟩
    simp only [hring, Ring.push, List.length_append, IoUringProvidedBuffer.submit_length]
    omega

theorem Counted.take {n : Nat} (hs : s.Counted p) (h : s.step build (.take n) = .ok s') :
    s'.Counted p := by
  obtain ⟨_, rfl⟩ := step_take h
  refine ⟨hs.parameter, hs.capacity, ?_, hs.bounded, ?_⟩
  · have := hs.room
    simp only [Ring.take, List.length_drop]
    omega
  · intro hgoing
    have hout := (s.ring.take_outstanding n).length_eq
    have := hs.counted hgoing
    simp only [hout]
    exact this

theorem Counted.post {c : Cqe} (hmode : p.uringParameter.uringMode = .providedBuffer)
    (hs : s.Counted p) (h : s.step build (.post c) = .ok s') : s'.Counted p := by
  obtain ⟨hc, _, rfl⟩ := step_post h
  have hmode' : s.uring.uringMode ≠ .multishot := by
    simp [uring, hs.parameter, hmode]
  have hring := post_ring hmode' c
  refine ⟨hs.parameter, by rw [hring]; exact hs.capacity, by rw [hring]; exact hs.room,
    hs.bounded, ?_⟩
  intro hgoing
  rw [hring, (s.ring.post_outstanding hc).length_eq]
  exact hs.counted hgoing

theorem Counted.enter {result : EnterResult} {clock : Clock}
    (hmode : p.uringParameter.uringMode = .providedBuffer) (hs : s.Counted p)
    (h : s.step build (.enter result clock) = .ok s') : s'.Counted p := by
  obtain ⟨n, hphase, h⟩ := step_enter h
  have hmode' : ¬s.uring.uringMode = .multishot := by
    simp [uring, hs.parameter, hmode]
  have hpending : s.pending = n := by simp [pending, hphase]
  have hbounded := hs.bounded
  have hcounted := hs.counted (.of_phase hphase (by simp))
  obtain ⟨hkept, hring, _, ⟨hphase', hinflight⟩ | ⟨hphase', hinflight⟩⟩ := enter_ok h
  · have hpending' : s'.pending = 0 := by simp [pending, hphase']
    exact ⟨hkept.parameter.trans hs.parameter, hring ▸ hs.capacity, hring ▸ hs.room, by omega,
      fun hgoing => absurd hphase' (hgoing _)⟩
  · have hpending' : s'.pending = 0 := by simp [pending, hphase']
    rw [if_neg hmode'] at hinflight
    refine ⟨hkept.parameter.trans hs.parameter, hring ▸ hs.capacity, hring ▸ hs.room, by omega,
      fun _ => ?_⟩
    rw [hring]
    omega

theorem Counted.complete {clock : Nat → Clock}
    (hmode : p.uringParameter.uringMode = .providedBuffer) (hs : s.Counted p)
    (h : s.step build (.complete clock) = .ok s') : s'.Counted p := by
  obtain ⟨hphase, h⟩ := step_complete h
  have hmode' : s.uring.uringMode = .providedBuffer := by
    simp only [uring, hs.parameter, hmode]
  have hpending : s.pending = 0 := by simp [pending, hphase]
  have hbounded := hs.bounded
  have hcounted := hs.counted (.of_phase hphase (by simp))
  obtain ⟨hparameter, front, rest, hcq, hring, houtcome⟩ := completeProvidedBuffer_ok hmode' h
  have hout := (s.ring.reap_outstanding hcq).length_eq
  rw [← hring, List.length_append, List.length_map] at hout
  have hpending' : s'.pending = 0 := by
    rcases houtcome with ⟨hfill, _⟩ | ⟨hfill, _⟩ | ⟨_, hreturned, _⟩
    · simp [pending, hfill]
    · simp [pending, hfill]
    · simp [pending, hreturned]
  have hsum : s'.amountInflight ≤ s.amountInflight ∧
      s.amountInflight ≤ s'.amountInflight + front.length := by
    rcases houtcome with ⟨_, hle, heq⟩ | ⟨_, heq⟩ | ⟨_, _, heq⟩ <;> omega
  refine ⟨hparameter.trans hs.parameter, by rw [hring]; exact hs.capacity,
    by rw [hring]; exact hs.room, by omega, fun _ => ?_⟩
  omega

theorem Counted.step {e : UringEvent} (hu : p.uringParameter.Accepted)
    (hmode : p.uringParameter.uringMode = .providedBuffer) (hs : s.Counted p)
    (h : s.step build e = .ok s') : s'.Counted p := by
  cases e with
  | fill clock room => exact hs.fill hu hmode h
  | take n => exact hs.take h
  | post c => exact hs.post hmode h
  | enter result clock => exact hs.enter hmode h
  | complete clock => exact hs.complete hmode h

/-- What holds of `amount_inflight` in every state of the loop. -/
structure InflightSound (build : Build) (p : Parameter) (s : UringLoop) : Prop where
  counted : s.phase = .fill ∨ s.phase = .complete → s.ring.outstanding.length ≤ s.amountInflight
  submitting : ∀ n, s.phase = .enter n → s.ring.outstanding.length ≤ s.amountInflight + n
  bounded : s.amountInflight ≤ p.uringParameter.bufferSize
  capacity : s.ring.cqCapacity = p.uringParameter.bufferSize
  fillMode : ∃ v, calcSqFillMode s.amountInflight s.uring s.ring = .ok v
  completed : s.phase = .complete → ∀ clock completed r statistic cq,
    s.receiver.ioUringCompleteProvidedBuffers build clock s.statistic s.ring.cq =
      .ok (.ok completed, r, statistic, cq) → completed ≤ s.amountInflight

theorem Counted.sound (hu : p.uringParameter.Accepted) (hs : s.Counted p) :
    s.InflightSound build p := by
  have hbounded := hs.bounded
  have hcounted : s.phase = .fill ∨ s.phase = .complete →
      s.ring.outstanding.length ≤ s.amountInflight := by
    intro hphase
    rcases hphase with hphase | hphase
    all_goals
      have := hs.counted (.of_phase hphase (by simp))
      simp only [pending, hphase] at this
      exact this
  refine ⟨hcounted, ?_, by omega, hs.capacity, ?_, ?_⟩
  · intro n hphase
    have := hs.counted (.of_phase hphase (by simp))
    simp only [pending, hphase] at this
    exact this
  · obtain ⟨toSubmit, minComplete, hcalc, _⟩ := calcSqFillMode_ok hu hs.room
      (show s.amountInflight ≤ p.uringParameter.bufferSize by omega)
    have huring : s.uring = p.uringParameter := by simp only [uring, hs.parameter]
    exact ⟨_, huring ▸ hcalc⟩
  · intro hphase clock completed r statistic cq h
    have hcq : s.ring.cq.length ≤ s.ring.outstanding.length := by
      simp only [Ring.outstanding, List.length_append, List.length_map]
      omega
    rcases (Receiver.ioUringCompleteProvidedBuffers_ok h).2 with ⟨hok, _⟩ | ⟨e, _, he, _⟩
    · cases hok
      exact Nat.le_trans hcq (hcounted (.inr hphase))
    · cases he

end UringLoop

/-- The counter of the loop with provided buffers is never below the requests
it stands for, and never above the number of buffers. -/
theorem inflight_bounded (args : NPerf) (build : Build) (cores : Nat) (p : Parameter)
    (hparse : args.parseParameter build cores = .ok (some p))
    (hmode : args.uringMode = .providedBuffer) (clock : Clock) (r : Receiver)
    (hr : r.parameter = p) (events : List UringEvent) (s : UringLoop)
    (hrun : run (UringLoop.step build) (.start clock r) events = .ok s) :
    s.InflightSound build p := by
  obtain ⟨hu, hmode', _⟩ := NPerf.parseParameter_uring hparse
  have hs : s.Counted p := run_invariant
    (fun _ _ _ hs h => hs.step hu (hmode'.trans hmode) h) (.start clock hr) hrun
  exact hs.sound hu

/-- The message that begins a test leaves the counter one too high. -/
theorem inflight_bounded_init :
    let r := (Receiver.new ⟨0, 0⟩ (.oneEntry .providedBuffer)).toOption.get (by decide)
    let events : List UringEvent :=
      [.fill ⟨0, 0⟩ 1, .take 1, .post ⟨24, 0, 0, .packet .init 0 0⟩, .enter .submitted ⟨0, 0⟩,
        .complete (fun _ => ⟨0, 0⟩), .fill ⟨0, 0⟩ 1, .take 1,
        .post ⟨-105, 0, 0, .packet .measurement 0 0⟩, .enter .timeout ⟨0, 0⟩]
    ∃ s, run (UringLoop.step .debug) (.start ⟨0, 0⟩ r) events = .ok s ∧
      s.amountInflight = 2 ∧ s.ring.outstanding = [0] ∧
      s.InflightSound .debug (.oneEntry .providedBuffer) := by
  intro r events
  obtain ⟨s, hrun, hinflight, hout⟩ := checked
    (x := run (UringLoop.step .debug) (.start ⟨0, 0⟩ r) events)
    (p := fun s => s.amountInflight = 2 ∧ s.ring.outstanding = [0]) (by decide +kernel)
  exact ⟨s, hrun, hinflight, hout, inflight_bounded (.oneEntry .providedBuffer) .debug 8 _
    (by decide +kernel) rfl ⟨0, 0⟩ r rfl events s hrun⟩

end Nperf
