import Nperf.Proofs.ProvidedBuffer

namespace Nperf
open Rust Bytes Runs

/-- The msghdr that is built around the provided buffer of a completion. -/
def Cqe.bufferMsghdr (c : Cqe) : Msghdr := providedMsghdr c.delivery.payload c.result.toNat [] 0

/-- The completion makes the handler return an error that the loop survives.
The count of the completions consumed so far goes with it. -/
def Cqe.Discards (c : Cqe) : Prop :=
  parseReceivedBytes c.result = .error .eagain ∨
    parseReceivedBytes c.result = .ok 1 ∧
      (c.bufferMsghdr.messageType = .ok .init ∨ c.bufferMsghdr.messageType = .ok .last)

instance (c : Cqe) : Decidable c.Discards :=
  inferInstanceAs (Decidable (_ ∨ _ ∧ (_ ∨ _)))

theorem Receiver.completeProvidedBuffer_quiet {build : Build} {clock : Clock} {c : Cqe}
    {s s' : Receiver × Nat × Statistic} {result : Except Error Unit}
    (h : completeProvidedBuffer (handleRecvmsgReturn build clock) c s = .ok (result, s')) :
    (result = .ok () → ¬c.Discards) ∧ ∀ e, result = .error e → e.Resumes → c.Discards := by
  obtain ⟨r, completed, statistic⟩ := s
  cases completeProvidedBuffer_cases h with
  | @failed e bytes =>
    refine ⟨by simp, fun e' he' hresumes => ?_⟩
    cases he'
    rcases parseReceivedBytes_error bytes with rfl | rfl
    · exact .inl bytes
    · exact absurd hresumes (by simp [Error.Resumes])
  | empty bytes => exact ⟨fun _ => by simp [Cqe.Discards, bytes], by simp⟩
  | handled bytes goes =>
    obtain ⟨hok, herror⟩ := handleRecvmsgReturn_given goes
    refine ⟨fun hresult => ?_, fun e he hresumes => .inr ⟨bytes, herror e he hresumes⟩⟩
    have hdata : c.bufferMsghdr.messageType = .ok .measurement := hok hresult
    simp [Cqe.Discards, bytes, hdata]

/-- The handler counts the whole queue, or loses the count at a completion
that it has consumed. -/
theorem Receiver.ioUringCompleteProvidedBuffers_cases {build : Build} {clock : Nat → Clock}
    {r r' : Receiver} {statistic statistic' : Statistic} {cq rest : List Cqe}
    {result : Except Error Nat}
    (h : r.ioUringCompleteProvidedBuffers build clock statistic cq =
      .ok (result, r', statistic', rest)) :
    (result = .ok cq.length ∧ rest = [] ∧ ∀ c ∈ cq, ¬c.Discards) ∨
      ∃ e front c, result = .error e ∧ cq = front ++ c :: rest ∧ (e.Resumes → c.Discards) := by
  have hcount := (ioUringCompleteProvidedBuffers_ok h).2
  simp only [ioUringCompleteProvidedBuffers, bind_ok] at h
  obtain ⟨⟨drained, ⟨r'', completed, statistic''⟩, rest'⟩, hdrain, h⟩ := h
  cases h
  rcases Queue.drain_cases []
    (R := fun (done : List Cqe) (_ : Receiver × Nat × Statistic) => ∀ c ∈ done, ¬c.Discards)
    (fun done i c s s' hs hb => List.forall_mem_append.mpr
      ⟨hs, by simpa using (completeProvidedBuffer_quiet hb).1 rfl⟩) (by simp) hdrain with
    ⟨rfl, hrest, hall⟩ | ⟨e, front, c, j, t, rfl, hcq, _, hbody⟩
  · rcases hcount with ⟨hok, _⟩ | ⟨_, _, herror, _⟩
    · exact .inl ⟨hok, hrest, hall⟩
    · cases herror
  · exact .inr ⟨e, front, c, rfl, hcq, (completeProvidedBuffer_quiet hbody).2 e rfl⟩

namespace UringLoop
variable {build : Build} {p : Parameter} {s s' : UringLoop}

/-- After an iteration the counter has no more than the requests whose
completion is not consumed. Without such a request it is zero, and the Syscall
mode submits a burst. -/
structure Credited (s : UringLoop) : Prop where
  credit : s.phase = .fill → s.amountInflight ≤ s.ring.outstanding.length
  submits : s.phase = .fill → s.ring.outstanding = [] → s.uring.sqFillingMode = .syscall →
    ∃ minComplete, calcSqFillMode s.amountInflight s.uring s.ring =
      .ok (s.uring.burstSize, minComplete)

/-- No completion of the batch makes the handler lose its count. -/
def KeepsCount (s : UringLoop) : UringEvent → Prop
  | .complete _ => ∀ c ∈ s.ring.cq, ¬c.Discards
  | _ => True

instance (s : UringLoop) : ∀ e, Decidable (s.KeepsCount e)
  | .fill _ _ | .take _ | .post _ | .enter _ _ => inferInstanceAs (Decidable True)
  | .complete _ => inferInstanceAs (Decidable (∀ c ∈ s.ring.cq, ¬c.Discards))

/-- Inside of an iteration that began with the right counter it is exact. -/
structure Settled (p : Parameter) (s : UringLoop) : Prop where
  counted : s.Counted p
  exact : s.phase ≠ .fill → s.Going → s.amountInflight + s.pending ≤ s.ring.outstanding.length

theorem credited_of_credit (hu : s.uring.Accepted)
    (h : s.phase = .fill → s.amountInflight ≤ s.ring.outstanding.length) : s.Credited := by
  refine ⟨h, ?_⟩
  intro hphase hempty hmode
  have hzero : s.amountInflight = 0 := by
    have := h hphase
    simp only [hempty, List.length_nil] at this
    omega
  have hburst : s.uring.burstSize ≤ s.uring.bufferSize := by
    have := hu.burst
    rw [hu.buffer, uringBufferSizeMultiplicator]
    omega
  simp only [calcSqFillMode, checkedSub_ok hburst, ok_bind, hzero, hmode]
  exact ⟨_, rfl⟩

theorem Counted.uring (hs : s.Counted p) : s.uring = p.uringParameter := by
  simp only [UringLoop.uring, hs.parameter]

theorem Credited.fill {clock : Clock} {room : Nat} (hu : p.uringParameter.Accepted)
    (hmode : p.uringParameter.uringMode = .providedBuffer) (hs : s.Settled p) (hp : s.Credited)
    (h : s.step build (.fill clock room) = .ok s') : s'.Settled p ∧ s'.Credited := by
  have hs' := hs.counted.fill hu hmode h
  obtain ⟨hphase, _, hfill⟩ := step_fill h
  have hcredit := hp.credit hphase
  obtain ⟨hinflight, hout, hphase'⟩ := fillProvidedBuffer_ok (hs.counted.uring ▸ hmode) hfill
  refine ⟨⟨hs', fun _ _ => by omega⟩, credited_of_credit (hs'.uring ▸ hu) ?_⟩
  exact fun hfill => absurd hfill hphase'

theorem Credited.take {n : Nat} (hu : p.uringParameter.Accepted) (hs : s.Settled p)
    (hp : s.Credited) (h : s.step build (.take n) = .ok s') : s'.Settled p ∧ s'.Credited := by
  have hs' := hs.counted.take h
  obtain ⟨_, rfl⟩ := step_take h
  have hout := (s.ring.take_outstanding n).length_eq
  refine ⟨⟨hs', ?_⟩, credited_of_credit (hs'.uring ▸ hu) ?_⟩
  · intro hphase hgoing
    rw [hout]
    exact hs.exact hphase hgoing
  · intro hphase
    rw [hout]
    exact hp.credit hphase

theorem Credited.post {c : Cqe} (hu : p.uringParameter.Accepted)
    (hmode : p.uringParameter.uringMode = .providedBuffer) (hs : s.Settled p) (hp : s.Credited)
    (h : s.step build (.post c) = .ok s') : s'.Settled p ∧ s'.Credited := by
  have hs' := hs.counted.post hmode h
  obtain ⟨hc, _, rfl⟩ := step_post h
  have hring := post_ring (s := s) (by simp [hs.counted.uring, hmode]) c
  have hout := (s.ring.post_outstanding hc).length_eq
  rw [← hring] at hout
  refine ⟨⟨hs', ?_⟩, credited_of_credit (hs'.uring ▸ hu) ?_⟩
  · intro hphase hgoing
    rw [hout]
    exact hs.exact hphase hgoing
  · intro hphase
    rw [hout]
    exact hp.credit hphase

theorem Credited.enter {result : EnterResult} {clock : Clock} (hu : p.uringParameter.Accepted)
    (hmode : p.uringParameter.uringMode = .providedBuffer) (hs : s.Settled p)
    (h : s.step build (.enter result clock) = .ok s') : s'.Settled p ∧ s'.Credited := by
  have hs' := hs.counted.enter hmode h
  obtain ⟨n, hphase, h⟩ := step_enter h
  have hmode' : ¬s.uring.uringMode = .multishot := by simp [hs.counted.uring, hmode]
  have hexact := hs.exact (by simp [hphase]) (.of_phase hphase (by simp))
  have hpending : s.pending = n := by simp [pending, hphase]
  obtain ⟨_, hring, _, ⟨hphase', _⟩ | ⟨hphase', hinflight⟩⟩ := enter_ok h
  · refine ⟨⟨hs', fun _ hgoing => absurd hphase' (hgoing _)⟩,
      credited_of_credit (hs'.uring ▸ hu) fun hfill => Phase.noConfusion (hphase'.symm.trans hfill)⟩
  · have hpending' : s'.pending = 0 := by simp [pending, hphase']
    rw [if_neg hmode'] at hinflight
    refine ⟨⟨hs', fun _ _ => ?_⟩,
      credited_of_credit (hs'.uring ▸ hu) fun hfill => Phase.noConfusion (hphase'.symm.trans hfill)⟩
    rw [hring]
    omega

theorem completeProvidedBuffer_cases {clock : Nat → Clock}
    (hmode : s.uring.uringMode = .providedBuffer) (h : s.complete build clock = .ok s') :
    s'.phase = .fill ∧ s.ring.cq.length ≤ s.amountInflight ∧
        s'.amountInflight = s.amountInflight - s.ring.cq.length ∧
        s'.ring = { s.ring with cq := [] } ∧ (∀ c ∈ s.ring.cq, ¬c.Discards) ∨
      (∃ front c rest, s.ring.cq = front ++ c :: rest ∧ s'.ring = { s.ring with cq := rest } ∧
        s'.phase = .fill ∧ s'.amountInflight = s.amountInflight ∧ c.Discards) ∨
      ∃ result, s'.phase = .returned result := by
  simp only [complete, hmode, bind_ok] at h
  obtain ⟨⟨result, r, statistic, rest⟩, hdrain, h⟩ := h
  rcases Receiver.ioUringCompleteProvidedBuffers_cases hdrain with
    ⟨rfl, rfl, hquiet⟩ | ⟨e, front, c, rfl, hcq, hdiscards⟩
  · obtain ⟨hle, rfl⟩ := reaped_ok h
    exact .inl ⟨rfl, hle, rfl, rfl, hquiet⟩
  · obtain ⟨hk, ⟨hfill, hresumes⟩ | ⟨result, hreturned, _⟩⟩ := interrupted_ok h
    · exact .inr (.inl ⟨front, c, rest, hcq, hk.ring, hfill, hk.amountInflight,
        hdiscards hresumes⟩)
    · exact .inr (.inr ⟨result, hreturned⟩)

/-- A batch that is counted is taken off the counter; one that is not has been
consumed all the same. -/
theorem Credited.complete {clock : Nat → Clock} (hu : p.uringParameter.Accepted)
    (hmode : p.uringParameter.uringMode = .providedBuffer) (hs : s.Settled p)
    (h : s.step build (.complete clock) = .ok s') :
    s'.Settled p ∧ (s.KeepsCount (.complete clock) → s'.Credited) ∧
      (s'.Going → s'.Credited → s.KeepsCount (.complete clock)) := by
  have hs' := hs.counted.complete hmode h
  obtain ⟨hphase, h⟩ := step_complete h
  have hpending : s.pending = 0 := by simp [pending, hphase]
  have hexact := hs.exact (by simp [hphase]) (.of_phase hphase (by simp))
  have hcounted := hs.counted.counted (.of_phase hphase (by simp))
  have hcredited := credited_of_credit (hs'.uring ▸ hu)
  rcases completeProvidedBuffer_cases (hs.counted.uring ▸ hmode) h with
    ⟨hfill, hle, hinflight, hring, hquiet⟩ | ⟨front, c, rest, hcq, hring, hfill, hinflight, hc⟩ |
    ⟨result, hreturned⟩
  · have hout := (s.ring.reap_outstanding (List.append_nil s.ring.cq).symm).length_eq
    rw [← hring, List.length_append, List.length_map] at hout
    exact ⟨⟨hs', fun hne => absurd hfill hne⟩, fun _ => hcredited fun _ => by omega,
      fun _ _ => hquiet⟩
  · have hout := (s.ring.reap_outstanding (show s.ring.cq = (front ++ [c]) ++ rest by
      simp [hcq])).length_eq
    rw [← hring, List.length_append, List.length_map, List.length_append,
      List.length_singleton] at hout
    have hmem : c ∈ s.ring.cq := by simp [hcq]
    refine ⟨⟨hs', fun hne => absurd hfill hne⟩, fun hkeeps => absurd hc (hkeeps c hmem), ?_⟩
    intro _ hp
    have := hp.credit hfill
    omega
  · exact ⟨⟨hs', fun _ hgoing => absurd hreturned (hgoing result)⟩,
      fun _ => hcredited (fun hfill => Phase.noConfusion (hreturned.symm.trans hfill)),
      fun hgoing => absurd hreturned (hgoing result)⟩

theorem Credited.step {e : UringEvent} (hu : p.uringParameter.Accepted)
    (hmode : p.uringParameter.uringMode = .providedBuffer) (hs : s.Settled p) (hp : s.Credited)
    (h : s.step build e = .ok s') :
    s'.Settled p ∧ (s.KeepsCount e → s'.Credited) ∧
      (s'.Going → s'.Credited → s.KeepsCount e) := by
  cases e with
  | fill clock room =>
    obtain ⟨hs', hp'⟩ := hp.fill hu hmode hs h
    exact ⟨hs', fun _ => hp', fun _ _ => trivial⟩
  | take n =>
    obtain ⟨hs', hp'⟩ := hp.take hu hs h
    exact ⟨hs', fun _ => hp', fun _ _ => trivial⟩
  | post c =>
    obtain ⟨hs', hp'⟩ := hp.post hu hmode hs h
    exact ⟨hs', fun _ => hp', fun _ _ => trivial⟩
  | enter result clock =>
    obtain ⟨hs', hp'⟩ := Credited.enter hu hmode hs h
    exact ⟨hs', fun _ => hp', fun _ _ => trivial⟩
  | complete clock => exact Credited.complete hu hmode hs h

end UringLoop

/-- The counter of the loop with provided buffers has no requests too many in
runs in which no batch is cut short, and as long as the loop goes on in no
others. -/
theorem credit_kept_iff (args : NPerf) (build : Build) (cores : Nat) (p : Parameter)
    (hparse : args.parseParameter build cores = .ok (some p))
    (hmode : args.uringMode = .providedBuffer) (clock : Clock) (r : Receiver)
    (hr : r.parameter = p) (events : List UringEvent) (s : UringLoop)
    (hrun : run (UringLoop.step build) (.start clock r) events = .ok s) :
    (Guarded (UringLoop.step build) UringLoop.KeepsCount (.start clock r) events →
      Always (UringLoop.step build) UringLoop.Credited (.start clock r) events) ∧
    (s.Going → Always (UringLoop.step build) UringLoop.Credited (.start clock r) events →
      Guarded (UringLoop.step build) UringLoop.KeepsCount (.start clock r) events) := by
  obtain ⟨hu, hmode', _⟩ := NPerf.parseParameter_uring hparse
  have hmode'' := hmode'.trans hmode
  have hs : (UringLoop.start clock r).Settled p :=
    ⟨.start clock hr, fun hne => absurd rfl hne⟩
  have hp : (UringLoop.start clock r).Credited :=
    UringLoop.credited_of_credit (hs.counted.uring ▸ hu) fun _ => Nat.le_refl 0
  constructor
  · exact always_of_guarded (fun _ => True) (fun _ _ _ _ _ => trivial)
      (fun _ _ _ hs hp h => (hp.step hu hmode'' hs h).1)
      (fun _ _ _ hs hp _ h => (hp.step hu hmode'' hs h).2.1) hs hp hrun trivial
  · exact fun hgoing => guarded_of_always UringLoop.Going (fun _ _ _ h hg => hg.back h)
      (fun _ _ _ hs hp h => (hp.step hu hmode'' hs h).1)
      (fun _ _ _ hs hp hg h => (hp.step hu hmode'' hs h).2.2 hg) hs hrun hgoing

/-- A receiver that waits for every burst before the next one. -/
def Parameter.syscallBuffers : Parameter :=
  { Parameter.oneEntry .providedBuffer with
    uringParameter := { (Parameter.oneEntry .providedBuffer).uringParameter with
      sqFillingMode := .syscall } }

/-- One message through the loop that waits. -/
def UringLoop.serve (mtype : MessageType) (testId packetId : Nat) : List UringEvent :=
  [.fill ⟨0, 0⟩ 1, .take 1, .post ⟨24, 0, 0, .packet mtype testId packetId⟩,
    .enter .submitted ⟨0, 0⟩, .complete (fun _ => ⟨0, 0⟩)]

theorem credit_kept_measurements :
    let r := (Receiver.new ⟨0, 0⟩ .syscallBuffers).toOption.get (by decide)
    let events := UringLoop.serve .measurement 0 0 ++ UringLoop.serve .measurement 0 1
    Always (UringLoop.step .debug) UringLoop.Credited (.start ⟨0, 0⟩ r) events := by
  intro r events
  obtain ⟨s, hrun, _⟩ := checked (p := fun _ => True)
    (x := run (UringLoop.step .debug) (.start ⟨0, 0⟩ r) events) (by decide +kernel)
  exact (credit_kept_iff { NPerf.oneEntry .providedBuffer with uringSqMode := .syscall } .debug 8
    .syscallBuffers (by decide +kernel) rfl ⟨0, 0⟩ r rfl events s hrun).1 (by decide +kernel)

/-- The INIT message of the first test is consumed and stays on the counter,
so that the loop never submits again. -/
theorem credit_lost_init :
    let r := (Receiver.new ⟨0, 0⟩ .syscallBuffers).toOption.get (by decide)
    ∃ s, run (UringLoop.step .debug) (.start ⟨0, 0⟩ r) (UringLoop.serve .init 0 0) = .ok s ∧
      s.phase = .fill ∧ s.ring.outstanding = [] ∧ s.amountInflight = 1 ∧
      calcSqFillMode s.amountInflight s.uring s.ring = .ok (0, 1) :=
  checked (by decide +kernel)

end Nperf
