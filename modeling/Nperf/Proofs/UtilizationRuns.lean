import Nperf.Proofs.UtilizationReceiving
import Nperf.Proofs.UtilizationSending

namespace Nperf
open Rust Runs

namespace UringLoop
variable {build : Build} {p : Parameter} {s : UringLoop} {c : Cqe}

/-- A request that stays live can fill the completion queue on its own. -/
theorem run_posts {n : Nat} (hmode : s.uring.uringMode = .multishot) (hmore : c.more = true)
    (hlive : c.userData ∈ s.ring.live) (hroom : s.ring.cq.length + n ≤ s.ring.cqCapacity) :
    run (UringLoop.step build) s (List.replicate n (.post c)) =
      .ok { s with ring := { s.ring with cq := s.ring.cq ++ List.replicate n c } } := by
  induction n generalizing s with
  | zero => simp
  | succ n ih =>
    have hpost : s.post c = { s with ring := { s.ring with cq := s.ring.cq ++ [c] } } := by
      simp [post, hmode, hmore]
    have hstep : s.step build (.post c) = .ok (s.post c) := by
      simp only [step]
      rw [if_pos ⟨hlive, by omega⟩]
    have hrest := ih (s := { s with ring := { s.ring with cq := s.ring.cq ++ [c] } }) hmode hlive
      (by simp only [List.length_append, List.length_singleton]; omega)
    rw [List.replicate_succ, run, hstep, ok_bind, hpost, hrest]
    simp only [List.append_assoc, List.singleton_append, ← List.replicate_succ]

theorem run_registers {t : UringLoop} {events : List UringEvent} (hs : s.Registers p)
    (h : run (UringLoop.step build) s events = .ok t) : t.Registers p :=
  run_invariant (fun _ _ _ hs h => hs.step h) hs h

theorem Registers.start {r : Receiver} (hr : r.Registers p) (clock : Clock) :
    (start clock r).Registers p := (Tallied.start clock hr).registers

/-- The run ends where the queue has more completions than the array has cells. -/
theorem run_enter_cell {t : UringLoop} {events : List UringEvent} {n : Nat} (clock : Clock)
    (h : run (UringLoop.step build) s events = .ok t) (hs : s.Registers p)
    (hrecord : p.uringParameter.recordUtilization = true) (hphase : t.phase = .enter n)
    (hout : ¬Metric.InRange (.cq t.ring.cq.length)) :
    run (UringLoop.step build) s (events ++ [.enter .submitted clock]) =
      .error (.fault .cell) := by
  have hcell : t.enter build .submitted clock n = .error .cell :=
    ((run_registers hs h).enter_cell_iff hrecord .submitted clock n).mpr ⟨by decide, hout⟩
  have hstep : t.step build (.enter .submitted clock) = .error (.fault .cell) := by
    simp only [step, hphase, hcell, lift]
  rw [run_append h, run, hstep, error_bind]

/-- The run ends where the counter has more requests than the array has cells. -/
theorem run_fill_cell {t : UringLoop} {events : List UringEvent} (clock : Clock)
    (h : run (UringLoop.step build) s events = .ok t) (hs : s.Registers p)
    (hrecord : p.uringParameter.recordUtilization = true) (hphase : t.phase = .fill)
    (hroom : t.ring.sq.length ≤ t.ring.sqCapacity) (hmax : t.ring.sqCapacity ≤ uringMaxRingSize)
    (hmode : t.uring.uringMode = .normal) (hout : ¬Metric.InRange (.inflight t.amountInflight)) :
    run (UringLoop.step build) s (events ++ [.fill clock 0]) = .error (.fault .cell) := by
  have hready : t.Ready p 0 := ⟨run_registers hs h, Nat.le_trans hroom hmax⟩
  have hcell : t.fill build clock 0 = .error .cell :=
    (hready.fill_cell_iff hrecord clock).mpr ⟨.inl hmode, hout⟩
  have hstep : t.step build (.fill clock 0) = .error (.fault .cell) := by
    simp only [step, hphase, Nat.add_zero, if_pos hroom, hcell, lift]
  rw [run_append h, run, hstep, error_bind]

/-- The loop arms its request and gets `n` completions for it before
`io_uring_enter` returns. -/
def flooded (clock : Clock) (c : Cqe) (n : Nat) : List UringEvent :=
  [.fill clock 1, .take 1] ++ List.replicate n (.post c) ++ [.enter .submitted clock]

/-- A new loop whose multishot request the kernel has taken and completed as
often as in `cq`, before `io_uring_enter` returns. -/
def armedOnce (clock : Clock) (r : Receiver) (ringStatistic : Statistic) (cq : List Cqe) :
    UringLoop :=
  { start clock r with
    statistic := (Statistic.new clock r.parameter).countIoModelCall
    ringStatistic := ringStatistic
    ring := { Ring.create r.parameter.uringParameter with live := [0], cq := cq }
    phase := .enter 1 }

theorem multishot_arms {r : Receiver} (hu : r.parameter.uringParameter.Accepted)
    (hmode : r.parameter.uringParameter.uringMode = .multishot) (clock : Clock)
    {ringStatistic : Statistic}
    (hpushed : (Statistic.new clock r.parameter).recordSq 1 = .ok ringStatistic) :
    run (UringLoop.step build) (start clock r) [.fill clock 1, .take 1] =
      .ok (armedOnce clock r ringStatistic []) := by
  have hpush : (start clock r).fillMultishot 1 =
      ((Statistic.new clock r.parameter).recordSq 1 >>= fun ringStatistic =>
        .ok { armedOnce clock r ringStatistic [] with
          ring := { (armedOnce clock r ringStatistic []).ring with sq := [0], live := [] } }) := rfl
  have hfill : (start clock r).fill build clock 1 =
      .ok { armedOnce clock r ringStatistic [] with
        ring := { (armedOnce clock r ringStatistic []).ring with sq := [0], live := [] } } := by
    unfold fill
    rw [show (start clock r).uring.uringMode = .multishot from hmode]
    simp only [hpush, hpushed, ok_bind]
  have hstep : (start clock r).step build (.fill clock 1) =
      .ok { armedOnce clock r ringStatistic [] with
        ring := { (armedOnce clock r ringStatistic []).ring with sq := [0], live := [] } } := by
    have hroom : (start clock r).ring.sq.length + 1 ≤ (start clock r).ring.sqCapacity := hu.ring
    simp only [step, if_pos hroom, hfill]
    rfl
  rw [run, hstep, ok_bind]
  rfl

/-- With the largest ring, a multishot request outgrows the array of the
completion queue. -/
theorem multishot_outOfRange (hu : p.uringParameter.Accepted)
    (hmode : p.uringParameter.uringMode = .multishot)
    (hrecord : p.uringParameter.recordUtilization = true)
    (hlarge : uringMaxRingSize < p.uringParameter.ringSize * 2) (clock : Clock) {r : Receiver}
    (hr : r.Registers p) (hmore : c.more = true) (hdata : c.userData = 0) :
    run (UringLoop.step build) (.start clock r) (flooded clock c (uringMaxRingSize * 2 + 1)) =
      .error (.fault .cell) := by
  obtain rfl := hr.parameter
  have hnew : (Statistic.new clock r.parameter).Recording := .new clock hrecord
  have hsq : Metric.InRange (.sq 1) := show 1 < 2049 by decide
  obtain ⟨ringStatistic, hpushed, _⟩ := Statistic.recordSq_ok hnew hsq
  have harmed : run (UringLoop.step build) (start clock r) [.fill clock 1, .take 1] =
      .ok (armedOnce clock r ringStatistic []) := multishot_arms hu hmode clock hpushed
  have hposts : run (UringLoop.step build) (armedOnce clock r ringStatistic [])
      (List.replicate (uringMaxRingSize * 2 + 1) (.post c)) =
      .ok (armedOnce clock r ringStatistic (List.replicate (uringMaxRingSize * 2 + 1) c)) := by
    apply run_posts (s := armedOnce clock r ringStatistic []) hmode hmore
    · rw [hdata]
      exact List.mem_singleton_self 0
    · simp only [armedOnce, Ring.create, List.length_nil, hu.buffer, uringBufferSizeMultiplicator]
      omega
  refine run_enter_cell clock ((run_append harmed _).trans hposts) (.start hr clock) hrecord rfl ?_
  simp only [Metric.InRange, armedOnce, List.length_replicate]
  omega

end UringLoop

/-- The smallest ring, with its utilization recorded. -/
def NPerf.recording (mode : UringMode) : NPerf :=
  { NPerf.oneEntry mode with uringRecordUtilization := true }

def Parameter.recording (mode : UringMode) : Parameter :=
  { Parameter.oneEntry mode with
    uringParameter := { (Parameter.oneEntry mode).uringParameter with recordUtilization := true } }

def Receiver.recording : Receiver :=
  ((Receiver.new ⟨0, 0⟩ (.recording .normal)).toOption.get (by decide)).startInterval ⟨0, 0⟩

theorem Receiver.recording_registers : Receiver.recording.Registers (.recording .normal) := by
  have hnew : Receiver.new ⟨0, 0⟩ (.recording .normal) =
      .ok ((Receiver.new ⟨0, 0⟩ (.recording .normal)).toOption.get (by decide)) := ok_get _
  exact (Registers.new hnew).started ⟨0, 0⟩

namespace UringLoop

/-- The normal loop between two iterations, with `n` on its counter. -/
def drifting (ms : List Measurement) (statistic ringStatistic : Statistic) (n : Nat) : UringLoop :=
  { start ⟨0, 0⟩ .recording with
    receiver := { Receiver.recording with measurements := ms }
    statistic := statistic
    ringStatistic := ringStatistic
    amountInflight := n }

/-- One iteration, whose only request comes back with ENOBUFS. -/
def refusal : List UringEvent :=
  .fill ⟨0, 0⟩ 1 :: ([.take 1, .post ⟨-105, 3, 0, ⟨[], [], 0, 0⟩⟩] ++
    [.enter .submitted ⟨0, 0⟩, .complete fun _ => ⟨0, 0⟩])

/-- The buffer goes back to the pool, but the request stays on the counter. -/
theorem refusal_ok (ms : List Measurement) {statistic ringStatistic : Statistic} {n : Nat}
    (hstatistic : statistic.Recording) (hring : ringStatistic.Recording)
    (hn : Metric.InRange (.inflight n)) : ∃ ms' statistic' ringStatistic',
      statistic'.Recording ∧ ringStatistic'.Recording ∧
      run (UringLoop.step .debug) (drifting ms statistic ringStatistic n) refusal =
        .ok (drifting ms' statistic' ringStatistic' (n + 1)) := by
  obtain ⟨recorded, hrecorded, hkept⟩ := Statistic.recordInflight_ok hstatistic hn
  have hsq : Metric.InRange (.sq 1) := show 1 < 2049 by decide
  have hcq : Metric.InRange (.cq 1) := show 1 < 4097 by decide
  obtain ⟨filled, hfilled, hring⟩ := Statistic.recordSq_ok hring hsq
  obtain ⟨returned, hreturned, hring⟩ := Statistic.recordCq_ok hring hcq 0
  let ms' := growMeasurements ⟨0, 0⟩ ms 0 (.recording .normal)
  refine ⟨ms', recorded.countIoModelCall, returned, ⟨hkept.sq, hkept.cq, hkept.inflight⟩, hring, ?_⟩
  let pushed : UringLoop := { drifting ms recorded.countIoModelCall filled n with
    receiver := { Receiver.recording with
      measurements := ms
      packetBuffer := { Receiver.recording.packetBuffer with indexPool := [0, 1, 2] } }
    ring := { (start ⟨0, 0⟩ .recording).ring with sq := [3] }
    phase := .enter 1 }
  let posted : UringLoop := { pushed with
    ring := { pushed.ring with sq := [], live := [], cq := [⟨-105, 3, 0, ⟨[], [], 0, 0⟩⟩] } }
  let entered : UringLoop := { posted with
    ringStatistic := returned, amountInflight := n + 1, phase := .complete }
  have hfill : (drifting ms statistic ringStatistic n).step .debug (.fill ⟨0, 0⟩ 1) =
      .ok pushed := by
    have hbody : (drifting ms statistic ringStatistic n).fill .debug ⟨0, 0⟩ 1 = (do
        let statistic ← statistic.recordInflight n
        let ringStatistic ← ringStatistic.recordSq 1
        .ok { pushed with
          statistic := statistic.countIoModelCall, ringStatistic := ringStatistic }) := rfl
    rw [hrecorded, ok_bind, hfilled, ok_bind] at hbody
    exact congrArg lift hbody
  have henter : posted.step .debug (.enter .submitted ⟨0, 0⟩) = .ok entered := by
    have hbody : posted.enter .debug .submitted ⟨0, 0⟩ 1 = (do
        let ringStatistic ← { filled with
          uringCqOverflows := filled.uringCqOverflows + 0 }.recordCq 1
        .ok { entered with ringStatistic := ringStatistic }) := rfl
    rw [hreturned, ok_bind] at hbody
    exact congrArg lift hbody
  apply run_cons_ok.mpr ⟨pushed, hfill, ?_⟩
  apply run_append_ok.mpr ⟨posted, rfl, ?_⟩
  exact run_cons_ok.mpr ⟨entered, henter, rfl⟩

/-- Any number of requests can stay on the counter, as far as it is recorded. -/
theorem refusals_ok {n : Nat} (hn : n ≤ uringMaxRingSize * uringBufferSizeMultiplicator + 1) :
    ∃ ms statistic ringStatistic, statistic.Recording ∧ ringStatistic.Recording ∧
      run (UringLoop.step .debug) (start ⟨0, 0⟩ .recording) (List.replicate n refusal).flatten =
        .ok (drifting ms statistic ringStatistic n) := by
  induction n with
  | zero => exact ⟨[], _, _, .new ⟨0, 0⟩ rfl, .new ⟨0, 0⟩ rfl, rfl⟩
  | succ n ih =>
    obtain ⟨ms, statistic, ringStatistic, hstatistic, hring, hrun⟩ := ih (Nat.le_of_succ_le hn)
    obtain ⟨ms', statistic', ringStatistic', hstatistic', hring', hrun'⟩ :=
      refusal_ok ms hstatistic hring hn
    refine ⟨ms', statistic', ringStatistic', hstatistic', hring', ?_⟩
    rw [List.replicate_succ', List.flatten_append, run_append hrun, List.flatten_singleton, hrun']

theorem normal_outOfRange : run (UringLoop.step .debug) (start ⟨0, 0⟩ .recording)
    ((List.replicate (uringMaxRingSize * uringBufferSizeMultiplicator + 1) refusal).flatten ++
      [.fill ⟨0, 0⟩ 0]) = .error (.fault .cell) := by
  obtain ⟨ms, statistic, ringStatistic, _, _, hrun⟩ := refusals_ok (Nat.le_refl _)
  exact run_fill_cell ⟨0, 0⟩ hrun (.start Receiver.recording_registers _) rfl rfl (Nat.zero_le _)
    (show 1 ≤ 2048 by decide) rfl (Nat.lt_irrefl _)

end UringLoop

/-- The largest ring of a multishot receiver. -/
def NPerf.largestRing : NPerf := { recording .multishot with uringRingSize := 2048 }

def Parameter.largestRing : Parameter :=
  { Parameter.recording .multishot with
    uringParameter := { (Parameter.recording .multishot).uringParameter with
      ringSize := 2048, burstSize := 512, bufferSize := 8192 } }

def Receiver.largestRing : Receiver :=
  ((Receiver.new ⟨0, 0⟩ .largestRing).toOption.get (by decide)).startInterval ⟨0, 0⟩

/-- In both loops, no run ends by counting a length that has no cell exactly as
long as there is one for the requests on their way and those that ended
uncounted, and for the completions that the kernel is ahead of the batches.
Provided buffers keep the counter in range, all rings but the largest the
completion queue. -/
theorem utilization_in_range_iff (args : NPerf) (build : Build) (cores : Nat) (p : Parameter)
    (hparse : args.parseParameter build cores = .ok (some p))
    (hrecord : p.uringParameter.recordUtilization = true) (clock clock' clock'' : Clock) :
    (∀ r : Receiver, Receiver.new clock p = .ok r → ∀ events : List UringEvent,
      run (UringLoop.step build) (.start clock'' (r.startInterval clock')) events ≠
          .error (.fault .cell) ↔
        GuardedSince (UringLoop.step build) UringLoop.settled
          (Fits p.uringParameter UringLoop.demand) [] (.start clock'' (r.startInterval clock'))
          events) ∧
    ∀ (testId : Nat) (startTime : Timestamp) (s : Sender), Sender.new clock testId p = .ok s →
      ∀ events : List SenderEvent,
        let started := { s with statisticInterval := s.statisticInterval.start clock' none }
        run SenderLoop.step (.start clock'' startTime started) events ≠ .error (.fault .cell) ↔
          GuardedSince SenderLoop.step SenderLoop.settled (Fits p.uringParameter SenderLoop.demand)
            [] (.start clock'' startTime started) events := by
  obtain ⟨hu, _⟩ := NPerf.parseParameter_uring hparse
  constructor
  · intro r hr events
    have hstarted : (r.startInterval clock').Registers p := (Receiver.Registers.new hr).started _
    exact run_avoids_iff_since (fun log s e s' hs h => hs.step hu h)
      (fun log s e hs => hs.step_iff hu hrecord) (UringLoop.Tallied.start clock'' hstarted)
  · intro testId startTime s hs events started
    have hstarted : started.Registers p := (Sender.Registers.new hs).started clock'
    exact run_avoids_iff_since (fun log s e s' hs h => hs.step h)
      (fun log s e hs => hs.step_iff hu hrecord)
      (SenderLoop.Tallied.start clock'' startTime hstarted)

theorem utilization_in_range_refusal :
    let s := (Sender.new ⟨0, 0⟩ 7 (.recording .normal)).toOption.get (by decide)
    run (UringLoop.step .debug) (.start ⟨0, 0⟩ .recording)
        (UringLoop.refusal ++ UringLoop.refusal) ≠ .error (.fault .cell) ∧
      run SenderLoop.step
        (.start ⟨0, 0⟩ 0 { s with statisticInterval := s.statisticInterval.start ⟨0, 0⟩ none })
        [.fill ⟨0, 0⟩ ⟨0, 0⟩ 1, .take 1, .enter .timeout, .complete] ≠ .error (.fault .cell) := by
  intro s
  obtain ⟨hreceiver, hsender⟩ := utilization_in_range_iff (.recording .normal) .debug 8
    (.recording .normal) (by decide +kernel) rfl ⟨0, 0⟩ ⟨0, 0⟩ ⟨0, 0⟩
  constructor
  · apply (hreceiver _ (ok_get (by decide)) _).mpr
    decide +kernel
  · apply (hsender 7 0 s (ok_get (by decide)) _).mpr
    decide +kernel

/-- Both arrays are outgrown: the one of the completion queue in a single batch,
the one of the counter request by request. -/
theorem utilization_outOfRange :
    (NPerf.largestRing.parseParameter .debug 8 = .ok (some .largestRing) ∧
      run (UringLoop.step .debug) (.start ⟨0, 0⟩ .largestRing)
        (UringLoop.flooded ⟨0, 0⟩ ⟨64, 0, 2, ⟨[], [], 0, 0⟩⟩ (uringMaxRingSize * 2 + 1)) =
          .error (.fault .cell)) ∧
      (NPerf.recording .normal).parseParameter .debug 8 = .ok (some (.recording .normal)) ∧
      run (UringLoop.step .debug) (.start ⟨0, 0⟩ .recording)
        ((List.replicate (uringMaxRingSize * uringBufferSizeMultiplicator + 1)
          UringLoop.refusal).flatten ++ [.fill ⟨0, 0⟩ 0]) = .error (.fault .cell) := by
  have hparse : NPerf.largestRing.parseParameter .debug 8 = .ok (some .largestRing) := by
    decide +kernel
  have hnew : Receiver.new ⟨0, 0⟩ .largestRing =
      .ok ((Receiver.new ⟨0, 0⟩ .largestRing).toOption.get (by decide)) := ok_get _
  refine ⟨⟨hparse, ?_⟩, by decide +kernel, UringLoop.normal_outOfRange⟩
  exact UringLoop.multishot_outOfRange (NPerf.parseParameter_uring hparse).1 rfl rfl (by decide)
    ⟨0, 0⟩ ((Receiver.Registers.new hnew).started ⟨0, 0⟩) rfl rfl

end Nperf
