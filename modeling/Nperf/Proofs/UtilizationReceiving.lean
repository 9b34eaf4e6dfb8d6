import Nperf.Proofs.Completions
import Nperf.Proofs.ControlRing
import Nperf.Proofs.Pool
import Nperf.Proofs.ProvidedBuffer
import Nperf.Proofs.RecordsReceiving
import Nperf.Proofs.Utilization

namespace Nperf
open Rust Runs Bytes

theorem IoUringNormal.submit_room {requests room : Nat} {b b' : PacketBuffer} {pushed : List Nat}
    (h : submit requests room b = .ok (pushed, b')) : pushed.length ≤ room := by
  induction requests generalizing room b pushed b' with
  | zero =>
    cases h
    exact Nat.zero_le room
  | succ requests ih =>
    simp only [submit, bind_ok] at h
    obtain ⟨⟨index, b₁⟩, _, _, _, h⟩ := h
    cases room with
    | zero =>
      cases h
      exact Nat.le_refl 0
    | succ room =>
      obtain ⟨⟨rest, b₂⟩, hrest, h⟩ := bind_ok.mp h
      cases h
      exact Nat.succ_le_succ (ih hrest)

theorem IoUringMultishot.submit_room {room : Nat} {requests : List Nat}
    (h : submit room = .ok requests) : requests.length ≤ room := by
  unfold submit at h
  split at h
  · cases h
  · rename_i hroom
    cases h
    exact Nat.pos_of_ne_zero hroom

theorem processPackets_avoids (build : Build) (packets : List Slice)
    (acc : Nat × Nat × Statistic) : Avoids .cell (processPackets build packets acc) := by
  induction packets generalizing acc with
  | nil => exact .ok _
  | cons packet packets ih =>
    obtain ⟨nextPacketId, received, statistic⟩ := acc
    refine .bind (.bind (word_avoids packet 2) fun packetId _ => ?_) fun _ _ =>
      .bind (.of_overflows (.u64 _) (by decide)) fun _ _ => ih _
    unfold processPacketNumber
    split
    · exact .ok _
    split
    · exact .bind (.of_overflows (.i64 _) (by decide)) fun _ _ =>
        .bind (.of_overflows (.u64 _) (by decide)) fun _ _ => .ok _
    split
    · exact .ok _
    · exact .ok _

theorem processPacketMsghdr_avoids (build : Build) (h : Msghdr) (amount next : Nat)
    (statistic : Statistic) :
    Avoids .cell (processPacketMsghdr build h amount next statistic) := by
  unfold processPacketMsghdr
  split
  · exact .error (by decide)
  · refine .bind (rawSlice_avoids _ _) fun slice _ => .bind ?_ fun packets _ =>
      processPackets_avoids build packets _
    unfold Slice.chunks
    split
    · exact .error (by decide)
    · exact .ok _

namespace Receiver
variable {build : Build} {clock : Nat → Clock} {r r' : Receiver} {cq rest : List Cqe}

theorem parseMessageType_avoids (clock : Clock) (mtype : MessageType) (testId : Nat)
    (ms : List Measurement) (p : Parameter) :
    Avoids .cell (parseMessageType clock mtype testId ms p) := by
  unfold parseMessageType
  split
  · exact .ok _
  cases mtype with
  | init => exact .ok _
  | measurement =>
    simp only
    split
    · exact .error (by decide)
    · split
      · exact .ok _
      · exact .ok _
  | last =>
    simp only
    split
    · exact .error (by decide)
    · exact .ok _

theorem msghdr_avoids (r : Receiver) (index : Nat) : Avoids .cell (r.msghdr index) := by
  unfold msghdr
  split
  · exact .ok _
  · exact .error (by decide)

theorem measurement_avoids (ms : List Measurement) (testId : Nat) :
    Avoids .cell (measurement ms testId) := by
  unfold measurement
  split
  · exact .ok _
  · exact .error (by decide)

theorem handleRecvmsgReturn_avoids (build : Build) (clock : Clock) (r : Receiver) (amount : Int)
    (given : Option Msghdr) (index : Nat) :
    Avoids .cell (r.handleRecvmsgReturn build clock amount given index) := by
  have hcompleted : Avoids .cell (r.completedMsghdr given index) := by
    cases given with
    | none => exact msghdr_avoids r index
    | some h => exact .ok h
  refine .bind hcompleted fun h _ => .bind (rawSlice_avoids _ _) fun buffer _ =>
    .bind (word_avoids buffer 1) fun testId _ =>
    .bind (.bind (word_avoids buffer 0) fun code _ => ?_) fun mtype _ =>
    .bind (parseMessageType_avoids clock mtype testId _ _) ?_
  · unfold MessageType.ofCode
    split
    · exact .ok _
    · exact .ok _
    · exact .ok _
    · exact .error (by decide)
  · rintro ⟨result, ms⟩ _
    cases result with
    | error e => exact .ok _
    | ok u =>
      refine .bind ?_ fun h _ => .bind (measurement_avoids _ _) fun m _ =>
        .bind (processPacketMsghdr_avoids build h _ _ _) fun _ _ => .ok _
      unfold processedMsghdr
      split
      · exact msghdr_avoids _ index
      · exact .ok h

/-- No handler of completions counts a length. -/
theorem ioUringComplete_avoids (build : Build) (clock : Nat → Clock) (r : Receiver)
    (statistic : Statistic) (cq : List Cqe) :
    Avoids .cell (r.ioUringCompleteNormal build clock cq) ∧
      Avoids .cell (r.ioUringCompleteProvidedBuffers build clock statistic cq) ∧
      Avoids .cell (r.ioUringCompleteMultishot build clock cq) := by
  refine ⟨.bind (Queue.drain_avoids ?_ 0 cq _) ?_, .bind (Queue.drain_avoids ?_ 0 cq _) ?_,
    .bind (Queue.drain_avoids ?_ 0 cq _) ?_⟩
  · rintro i c ⟨r, count, pool⟩
    simp only [completeNormal]
    split
    · exact .ok _
    · refine .bind (handleRecvmsgReturn_avoids build (clock i) r _ _ _) ?_
      rintro ⟨result, r'⟩ _
      split
      all_goals exact .ok _
  · rintro ⟨result, ⟨r', count, pool⟩, rest⟩ _
    cases result with
    | ok u => exact .ok _
    | error e => exact .ok _
  · rintro i c ⟨r, count, statistic⟩
    simp only [completeProvidedBuffer]
    split
    · exact .ok _
    · exact .ok _
    · exact .bind (handleRecvmsgReturn_avoids build (clock i) r _ _ _) fun _ _ => .ok _
  · exact fun _ _ => .ok _
  · rintro i c ⟨r, armed⟩
    simp only [completeMultishot]
    split
    · exact .ok _
    · split
      · exact .ok _
      split
      · exact .error (by decide)
      · exact .bind (handleRecvmsgReturn_avoids build (clock i) r _ _ _) fun _ _ => .ok _
  · exact fun _ _ => .ok _

/-- A round of the normal handler counts every completion but those with a
tolerated code. -/
theorem completeNormal_count {clock : Clock} {c : Cqe} {count count' : Nat} {pool pool' : List Nat}
    (h : completeNormal (handleRecvmsgReturn build clock) c (r, count, pool) =
      .ok (.ok (), r', count', pool')) :
    count' = count + if c.result ∈ toleratedCodes then 0 else 1 := by
  cases completeNormal_cases h with
  | collected bytes =>
    rcases parseReceivedBytes_cases c.result with ⟨hcode, hok⟩ | ⟨_, _, e, herror⟩ | ⟨hcode, _, hok⟩
    · cases bytes.symm.trans hok
      rw [if_pos hcode]
    · cases bytes.symm.trans herror
    · cases bytes.symm.trans hok
      rw [if_neg hcode]

/-- Where the handler stands after the completions `done`. -/
def CountsDone (done : List Cqe) (t : Receiver × Nat × List Nat) : Prop :=
  t.2.1 + (done.filter (·.result ∈ toleratedCodes)).length = done.length

theorem CountsDone.round {clock : Clock} {done : List Cqe} {c : Cqe}
    {t t' : Receiver × Nat × List Nat} (ht : CountsDone done t)
    (h : completeNormal (handleRecvmsgReturn build clock) c t = .ok (.ok (), t')) :
    CountsDone (done ++ [c]) t' := by
  obtain ⟨r, count, pool⟩ := t
  obtain ⟨r', count', pool'⟩ := t'
  simp only [CountsDone] at ht ⊢
  rw [completeNormal_count h, List.filter_append, List.length_append, List.length_append]
  by_cases hcode : c.result ∈ toleratedCodes
  · simp [hcode]
    omega
  · simp [hcode]
    omega

theorem ioUringCompleteNormal_count {completed : Nat}
    (h : r.ioUringCompleteNormal build clock cq = .ok (.ok completed, r', rest)) :
    completed + (cq.filter (·.result ∈ toleratedCodes)).length = cq.length := by
  simp only [ioUringCompleteNormal, bind_ok] at h
  obtain ⟨⟨drained, ⟨t, completed', pool⟩, rest'⟩, hdrain, h⟩ := h
  have hstart : CountsDone [] (r, 0, []) := rfl
  rcases Queue.drain_cases [] (R := CountsDone) (fun _ _ _ _ _ ht => ht.round) hstart hdrain with
    ⟨rfl, _, hall⟩ | ⟨e, front, c, j, u, rfl, _⟩
  · cases h
    exact hall
  · cases h

end Receiver

namespace UringLoop
variable {build : Build} {p : Parameter} {s s' : UringLoop}

/-- The ring as it was created, with no more completions than it has room for. -/
structure Sized (p : Parameter) (s : UringLoop) : Prop where
  parameter : s.receiver.parameter = p
  sqCapacity : s.ring.sqCapacity = p.uringParameter.ringSize
  cqCapacity : s.ring.cqCapacity = p.uringParameter.bufferSize
  waiting : s.ring.cq.length ≤ s.ring.cqCapacity

theorem Sized.start (clock : Clock) {r : Receiver} (hr : r.parameter = p) :
    (start clock r).Sized p :=
  ⟨hr, by rw [← hr]; rfl, by rw [← hr]; rfl, Nat.zero_le _⟩

/-- What is pushed is pending. -/
structure Pushes (s s' : UringLoop) : Prop where
  inflight : s'.amountInflight = s.amountInflight
  pushed : ∃ requests, s'.ring = s.ring.push requests ∧ s'.pending = requests.length

theorem Pushes.nothing (hinflight : s'.amountInflight = s.amountInflight)
    (hring : s'.ring = s.ring) (hpending : s'.pending = 0) : s.Pushes s' :=
  ⟨hinflight, [], by simp [Ring.push, hring], hpending⟩

theorem Pushes.of_pushed {t : UringLoop} {requests : List Nat} (hring : t.ring = s.ring)
    (hinflight : t.amountInflight = s.amountInflight) (h : t.pushed requests = .ok s') :
    s.Pushes s' := by
  obtain ⟨_, hring', hinflight', _, hphase⟩ := pushed_ok h
  refine ⟨hinflight'.trans hinflight, requests, by rw [hring', hring], ?_⟩
  simp only [pending, hphase]

theorem fill_pushes {clock : Clock} {room : Nat} (h : s.fill build clock room = .ok s') :
    s.Pushes s' := by
  unfold fill at h
  split at h
  · simp only [fillMultishot] at h
    split at h
    · cases h
      exact .nothing rfl rfl rfl
    · split at h
      · cases h
        exact .nothing rfl rfl rfl
      · exact .of_pushed (t := { s with statistic := s.statistic.countIoModelCall }) rfl rfl h
  · obtain ⟨t, toSubmit, _, hk, _, rfl | h⟩ := fillCounted_ok h
    · exact .nothing hk.amountInflight hk.ring rfl
    · exact .of_pushed hk.ring hk.amountInflight h
  · obtain ⟨t, toSubmit, _, hk, _, rfl | h⟩ := fillCounted_ok h
    · exact .nothing hk.amountInflight hk.ring rfl
    · unfold fillNormal at h
      split at h
      · cases h
        exact .nothing hk.amountInflight hk.ring rfl
      · rename_i b _
        exact .of_pushed (t := { t with receiver := { t.receiver with packetBuffer := b } })
          hk.ring hk.amountInflight h
  · cases h
    exact .nothing rfl rfl rfl

/-- A handler takes completions from the front of the queue. -/
theorem complete_front {clock : Nat → Clock} (h : s.complete build clock = .ok s') :
    ∃ front rest, s.ring.cq = front ++ rest ∧ s'.ring = { s.ring with cq := rest } := by
  cases hmode : s.uring.uringMode with
  | normal =>
    rcases completeNormal_ok hmode h with
      ⟨_, _, _, _, hring, _⟩ | ⟨front, c, rest, hcq, _, hring, _⟩
    · exact ⟨s.ring.cq, [], (List.append_nil _).symm, hring⟩
    · exact ⟨front ++ [c], rest, by rw [hcq, List.append_assoc]; rfl, hring⟩
  | providedBuffer =>
    obtain ⟨_, front, rest, hcq, hring, _⟩ := completeProvidedBuffer_ok hmode h
    exact ⟨front, rest, hcq, hring⟩
  | multishot =>
    simp only [complete, hmode] at h
    obtain ⟨⟨result, r, rest⟩, hdrain, h⟩ := bind_ok.mp h
    simp only [Receiver.ioUringCompleteMultishot, bind_ok] at hdrain
    obtain ⟨⟨_, _, rest'⟩, hdrain, heq⟩ := hdrain
    cases heq
    obtain ⟨front, hcq⟩ := Queue.drain_front hdrain
    refine ⟨front, rest', hcq, ?_⟩
    simp only at h
    split at h
    · cases h
      rfl
    · exact (interrupted_ok h).1.ring
  | zerocopy =>
    simp only [complete, hmode] at h
    cases h
    exact ⟨[], s.ring.cq, rfl, rfl⟩

theorem Sized.step {e : UringEvent} (hs : s.Sized p) (h : s.step build e = .ok s') :
    s'.Sized p := by
  have hparameter := (step_parameter h).trans hs.parameter
  have hwaiting := hs.waiting
  cases e with
  | fill clock room =>
    obtain ⟨requests, hring, _⟩ := (fill_pushes (step_fill h).2.2).pushed
    refine ⟨hparameter, ?_, ?_, ?_⟩
    all_goals rw [hring]
    · exact hs.sqCapacity
    · exact hs.cqCapacity
    · exact hwaiting
  | take n =>
    obtain ⟨_, rfl⟩ := step_take h
    exact ⟨hparameter, hs.sqCapacity, hs.cqCapacity, hwaiting⟩
  | post c =>
    obtain ⟨_, hroom, rfl⟩ := step_post h
    refine ⟨hparameter, hs.sqCapacity, hs.cqCapacity, ?_⟩
    simp only [post, List.length_append, List.length_singleton]
    exact hroom
  | enter result clock =>
    obtain ⟨n, _, h⟩ := step_enter h
    obtain ⟨_, hring, _⟩ := enter_ok h
    exact ⟨hparameter, hring ▸ hs.sqCapacity, hring ▸ hs.cqCapacity, hring ▸ hwaiting⟩
  | complete clock =>
    obtain ⟨front, rest, hcq, hring⟩ := complete_front (step_complete h).2
    rw [hcq, List.length_append] at hwaiting
    refine ⟨hparameter, hring ▸ hs.sqCapacity, hring ▸ hs.cqCapacity, ?_⟩
    rw [hring]
    exact Nat.le_trans (Nat.le_add_left _ _) hwaiting

/-- What the loop has to have cells for in its next move, if the event is that
move. Provided buffers bound the requests on their way, and a multishot loop
does not count them. -/
def demand (s : UringLoop) : UringEvent → Option Demand
  | .fill _ room =>
    if s.phase = .fill ∧ s.ring.sq.length + room ≤ s.ring.sqCapacity ∧
      s.uring.uringMode = .normal then some (.requests s.ring.outstanding.length)
    else none
  | .enter result _ =>
    if s.phase.submitting ∧ result ≠ .failed then some .completions else none
  | .take _ | .post _ | .complete _ => none

/-- What the events settle. A batch counts a request as ended if the handler
does not return early and the code is no tolerated one. -/
def settled (s : UringLoop) (e : UringEvent) (s' : UringLoop) : List Settlement :=
  match e with
  | .post _ => [.posted]
  | .complete clock =>
    settle (fun c => !(s.ReturnsAll (.complete clock) && decide (c.result ∉ toleratedCodes)))
      (s.ring.cq.take (s.ring.cq.length - s'.ring.cq.length))
  | .fill _ _ | .take _ | .enter _ _ => []

/-- The loop has its statistics, and a cell for every push that succeeds. -/
structure Ready (p : Parameter) (room : Nat) (s : UringLoop) : Prop where
  registers : s.Registers p
  room : s.ring.sq.length + room ≤ uringMaxRingSize

section
variable {room : Nat}

theorem closeInterval_avoids (hs : s.Registers p) (clock : Clock) :
    Avoids .cell (s.closeInterval build clock) := by
  have hms : ∀ t ∈ s.receiver.measurements.map Measurement.statistic, t.Of p := by
    rw [List.forall_mem_map]
    exact hs.receiver.measurements
  unfold closeInterval
  split
  · refine .bind (.of_overflows (hs.statistic.total_overflows build hms) (by decide))
      fun sum hsum => .bind ?_ fun _ _ => .ok _
    have hsum := hs.statistic.total hsum
    exact .of_overflows (hsum.accumulate_overflows build hs.ring) (by decide)
  · exact .ok _

theorem Ready.pushed (hs : s.Ready p room) (hrecord : p.uringParameter.recordUtilization = true)
    {requests : List Nat} (h : requests.length ≤ room) : Avoids .cell (s.pushed requests) := by
  refine .bind (Statistic.recordSq_avoids (hs.registers.ring.recording hrecord) ?_) fun _ _ => .ok _
  have hroom := hs.room
  simp only [Metric.InRange, Ring.push, List.length_append]
  omega

theorem Ready.fillNormal (hs : s.Ready p room)
    (hrecord : p.uringParameter.recordUtilization = true) (n : Nat) :
    Avoids .cell (s.fillNormal room n) := by
  unfold UringLoop.fillNormal
  split
  · exact .ok _
  · rename_i requests b hsubmit
    refine Ready.pushed (s := { s with receiver := { s.receiver with packetBuffer := b } })
      ⟨?_, hs.room⟩ hrecord (IoUringNormal.submit_room hsubmit)
    exact ⟨hs.registers.receiver.of_eq rfl rfl rfl, hs.registers.statistic, hs.registers.ring⟩

/-- An iteration of the modes that count requests only fails on the count. -/
theorem Ready.fillCounted_cell_iff (hs : s.Ready p room)
    (hrecord : p.uringParameter.recordUtilization = true) {clock : Clock}
    {submit : Nat → UringLoop → Except Fault UringLoop} {inflight : UringLoop → Nat}
    (hsubmit : ∀ n t, t.Ready p room → Avoids .cell (submit n t)) :
    s.fillCounted build clock submit inflight = .error .cell ↔
      ¬Metric.InRange (.inflight s.amountInflight) := by
  apply Statistic.recordInflight_cell_iff (hs.registers.statistic.recording hrecord)
  intro statistic hstatistic
  have hsame := (Statistic.sameRing_recordInflight hstatistic).trans
    (u := statistic.countIoModelCall) ⟨rfl, rfl, rfl, rfl, rfl⟩
  have hcounted : Registers p { s with statistic := statistic.countIoModelCall } :=
    ⟨hs.registers.receiver, hs.registers.statistic.same hsame, hs.registers.ring⟩
  refine .bind (closeInterval_avoids hcounted clock) fun t ht =>
    .bind (calcSqFillMode_avoids _ _ _) ?_
  rintro ⟨toSubmit, minComplete⟩ _
  simp only
  split
  · exact .ok _
  · refine hsubmit toSubmit t ⟨hcounted.closeInterval ht, ?_⟩
    rw [(closeInterval_ok ht).1.ring]
    exact hs.room

theorem Ready.fill_cell_iff (hs : s.Ready p room)
    (hrecord : p.uringParameter.recordUtilization = true) (clock : Clock) :
    s.fill build clock room = .error .cell ↔
      (s.uring.uringMode = .normal ∨ s.uring.uringMode = .providedBuffer) ∧
        ¬Metric.InRange (.inflight s.amountInflight) := by
  unfold fill
  cases hmode : s.uring.uringMode with
  | multishot =>
    refine iff_of_false ?_ (by simp)
    unfold fillMultishot
    dsimp only
    split
    · exact Avoids.ok _
    split
    · exact Avoids.ok _
    · rename_i requests hsubmit
      refine Ready.pushed (p := p) (s := { s with statistic := s.statistic.countIoModelCall })
        ⟨⟨hs.registers.receiver, ?_, hs.registers.ring⟩, hs.room⟩ hrecord
        (IoUringMultishot.submit_room hsubmit)
      exact hs.registers.statistic.same ⟨rfl, rfl, rfl, rfl, rfl⟩
  | providedBuffer =>
    simp only [or_true, true_and]
    refine hs.fillCounted_cell_iff hrecord fun n t ht => ht.pushed hrecord ?_
    rw [IoUringProvidedBuffer.submit_length]
    exact Nat.min_le_right _ _
  | normal =>
    simp only [true_or, true_and]
    exact hs.fillCounted_cell_iff hrecord fun n t ht => ht.fillNormal hrecord n
  | zerocopy => exact iff_of_false (Avoids.ok _) (by simp)

end

theorem Registers.enter_cell_iff (hs : s.Registers p)
    (hrecord : p.uringParameter.recordUtilization = true) (result : EnterResult) (clock : Clock)
    (n : Nat) :
    s.enter build result clock n = .error .cell ↔
      result ≠ .failed ∧ ¬Metric.InRange (.cq s.ring.cq.length) := by
  apply Statistic.recordCq_cell_iff result (hs.ring.recording hrecord)
  intro overflows ringStatistic hrecorded
  have hring : ringStatistic.Of p := by
    refine Statistic.Of.recordCq ?_ hrecorded
    have hof := hs.ring
    exact ⟨hof.parameter, hof.sq, hof.cq, hof.inflight⟩
  simp only
  split
  · exact closeInterval_avoids (s := { s with
      ringStatistic := ringStatistic, phase := .complete }) ⟨hs.receiver, hs.statistic, hring⟩ clock
  · exact .ok _

theorem handled_avoids (hstatistic : s.statistic.Of p) (hring : s.ringStatistic.Of p)
    (result : Except Error Nat) :
    Avoids .cell (match result with
      | .ok completed => s.reaped completed
      | .error e => s.interrupted build e) := by
  cases result with
  | ok completed => exact .bind (.checkedSub (by decide) _ _) fun _ _ => .ok _
  | error e =>
    cases e with
    | lastMessageReceived =>
      simp only [interrupted]
      split
      · exact .bind (.of_overflows (hstatistic.accumulate_overflows build hring) (by decide))
          fun _ _ => .ok _
      · exact .ok _
    | _ => exact .ok _

/-- A batch counts no length. -/
theorem Registers.complete_avoids (hs : s.Registers p) (clock : Nat → Clock) :
    Avoids .cell (s.complete build clock) := by
  obtain ⟨hnormal, hprovided, hmultishot⟩ :=
    Receiver.ioUringComplete_avoids build clock s.receiver s.statistic s.ring.cq
  unfold UringLoop.complete
  cases s.uring.uringMode with
  | multishot =>
    refine .bind hmultishot ?_
    rintro ⟨result, r, cq⟩ _
    cases result with
    | ok armed => exact .ok _
    | error e => exact handled_avoids (s := { s with
        receiver := r, ring := { s.ring with cq := cq } }) hs.statistic hs.ring (.error e)
  | providedBuffer =>
    refine .bind hprovided ?_
    rintro ⟨result, r, statistic, cq⟩ hr
    exact handled_avoids (s := { s with
      receiver := r, statistic := statistic, ring := { s.ring with cq := cq } })
      (hs.receiver.completeProvidedBuffers hs.statistic hr).2 hs.ring result
  | normal =>
    refine .bind hnormal ?_
    rintro ⟨result, r, cq⟩ _
    exact handled_avoids (s := { s with receiver := r, ring := { s.ring with cq := cq } })
      hs.statistic hs.ring result
  | zerocopy => exact .ok _

/-- Both accounts of a loop. Its counter has the requests on their way and those
that ended uncounted, in the normal loop exactly; its queue has what was posted
and not taken. -/
structure Tallied (p : Parameter) (log : List Settlement) (s : UringLoop) : Prop where
  registers : s.Registers p
  sized : s.Sized p
  posted : log.count .posted = log.count .taken + s.ring.cq.length
  normal : p.uringParameter.uringMode = .normal → s.Going →
    s.amountInflight + s.pending = s.ring.outstanding.length + log.count .uncounted
  provided : p.uringParameter.uringMode = .providedBuffer → s.Counted p

theorem Tallied.start (clock : Clock) {r : Receiver} (hr : r.Registers p) :
    (start clock r).Tallied p [] := by
  have hnew : (Statistic.new clock r.parameter).Of p := hr.parameter ▸ .new clock _
  exact ⟨⟨hr, hnew, hnew⟩, .start clock hr.parameter, rfl, fun _ _ => rfl,
    fun _ => .start clock hr.parameter⟩

theorem settled_posted {e : UringEvent} {log : List Settlement}
    (hs : log.count .posted = log.count .taken + s.ring.cq.length)
    (h : s.step build e = .ok s') :
    (log ++ s.settled e s').count .posted =
      (log ++ s.settled e s').count .taken + s'.ring.cq.length := by
  cases e with
  | fill clock room =>
    obtain ⟨requests, hring, _⟩ := (fill_pushes (step_fill h).2.2).pushed
    rw [settled, List.append_nil, hring]
    exact hs
  | take n =>
    obtain ⟨_, rfl⟩ := step_take h
    rw [settled, List.append_nil]
    exact hs
  | post c =>
    obtain ⟨_, _, rfl⟩ := step_post h
    simp only [settled, post, List.count_append, List.length_append, List.length_singleton, hs]
    exact Nat.add_assoc _ _ _
  | enter result clock =>
    obtain ⟨n, _, h⟩ := step_enter h
    obtain ⟨_, hring, _⟩ := enter_ok h
    rw [settled, List.append_nil, hring]
    exact hs
  | complete clock =>
    obtain ⟨front, rest, hcq, hring⟩ := complete_front (step_complete h).2
    simp only [settled, List.count_append, settle_posted, settle_taken, List.length_take, hring, hs,
      hcq, List.length_append]
    omega

/-- What a batch does to the counter and to the requests on their way. -/
theorem complete_tally {clock : Nat → Clock} (hmode : s.uring.uringMode = .normal)
    (h : s.complete build clock = .ok s') (hgoing : s'.Going) :
    ∃ consumed : Nat, s.ring.outstanding.length = s'.ring.outstanding.length + consumed ∧
      s'.pending = 0 ∧
      s.amountInflight + (s.settled (.complete clock) s').count .uncounted =
        s'.amountInflight + consumed := by
  simp only [UringLoop.complete, hmode, bind_ok] at h
  obtain ⟨⟨result, r, rest⟩, hdrain, h⟩ := h
  simp only [settled, settle_uncounted]
  rcases Receiver.ioUringCompleteNormal_ok hdrain with
    ⟨t, completed, rfl, rfl, _, hgiven, _⟩ | ⟨e, front, c, rfl, hcq, _, _, hresumes⟩
  · obtain ⟨hle, rfl⟩ := reaped_ok h
    have hcount := Receiver.ioUringCompleteNormal_count hdrain
    have hreap := (s.ring.reap_outstanding (List.append_nil s.ring.cq).symm).length_eq
    rw [List.length_append, List.length_map] at hreap
    refine ⟨s.ring.cq.length, hreap, rfl, ?_⟩
    have hreturns : s.ReturnsAll (.complete clock) := hgiven
    simp only [List.length_nil, Nat.sub_zero, List.take_length, hreturns, decide_true,
      Bool.true_and, decide_not, Bool.not_not]
    simp only at hle
    omega
  · obtain ⟨hk, ⟨hfill, he⟩ | ⟨result, hreturned, _⟩⟩ := interrupted_ok h
    · have hreap := (s.ring.reap_outstanding
        (show s.ring.cq = front ++ [c] ++ rest by simp [hcq])).length_eq
      have hreturns : ¬s.ReturnsAll (.complete clock) := fun hall =>
        hall c (by simp [hcq]) (hresumes he)
      have hring : s'.ring = { s.ring with cq := rest } := hk.ring
      refine ⟨front.length + 1, ?_, by simp only [pending, hfill], ?_⟩
      · rw [hreap, hring]
        simp
      · simp only [hreturns, decide_false, Bool.false_and, Bool.not_false, List.filter_true, hring,
          hk.amountInflight, hcq, List.length_append, List.length_cons, List.length_take]
        omega
    · exact absurd hreturned (hgoing result)

theorem settled_normal {e : UringEvent} {log : List Settlement}
    (hmode : s.uring.uringMode = .normal) (hgoing : s'.Going)
    (hs : s.amountInflight + s.pending = s.ring.outstanding.length + log.count .uncounted)
    (h : s.step build e = .ok s') :
    s'.amountInflight + s'.pending =
      s'.ring.outstanding.length + (log ++ s.settled e s').count .uncounted := by
  cases e with
  | fill clock room =>
    obtain ⟨hphase, _, hfill⟩ := step_fill h
    obtain ⟨hinflight, requests, hring, hpending⟩ := fill_pushes hfill
    have hout := (s.ring.push_outstanding requests).length_eq
    rw [← hring, List.length_append] at hout
    simp only [pending, hphase] at hs
    simp only [settled, List.append_nil]
    omega
  | take n =>
    obtain ⟨_, rfl⟩ := step_take h
    have hout := (s.ring.take_outstanding n).length_eq
    simp only [settled, List.append_nil, hout]
    exact hs
  | post c =>
    obtain ⟨hc, _, rfl⟩ := step_post h
    have hring := post_ring (s := s) (by simp [hmode]) c
    have huncounted : ([.posted] : List Settlement).count .uncounted = 0 := rfl
    have hout := (s.ring.post_outstanding hc).length_eq
    simp only [settled, List.count_append, huncounted, hring, hout]
    exact hs
  | enter result clock =>
    obtain ⟨n, hphase, henter⟩ := step_enter h
    obtain ⟨_, hring, _, ⟨hreturned, _⟩ | ⟨hcomplete, hinflight⟩⟩ := enter_ok henter
    · exact absurd hreturned (hgoing _)
    · rw [if_neg (by simp [hmode])] at hinflight
      simp only [pending, hphase] at hs
      simp only [settled, List.append_nil, pending, hcomplete, hring]
      omega
  | complete clock =>
    obtain ⟨hphase, hcomplete⟩ := step_complete h
    obtain ⟨consumed, hout, hpending, hinflight⟩ := complete_tally hmode hcomplete hgoing
    simp only [pending, hphase] at hs
    rw [List.count_append]
    omega

theorem Tallied.step {log : List Settlement} {e : UringEvent} (hu : p.uringParameter.Accepted)
    (hs : s.Tallied p log) (h : s.step build e = .ok s') :
    s'.Tallied p (log ++ s.settled e s') := by
  refine ⟨hs.registers.step h, hs.sized.step h, settled_posted hs.posted h, fun hmode hgoing => ?_,
    fun hmode => (hs.provided hmode).step hu hmode h⟩
  have hmode' : s.uring.uringMode = .normal := by simp only [uring, hs.sized.parameter, hmode]
  exact settled_normal hmode' hgoing (hs.normal hmode (hgoing.back h)) h

theorem Tallied.fill_iff {log : List Settlement} {clock : Clock} {room : Nat}
    (hu : p.uringParameter.Accepted) (hrecord : p.uringParameter.recordUtilization = true)
    (hs : s.Tallied p log) (hphase : s.phase = .fill)
    (hroom : s.ring.sq.length + room ≤ s.ring.sqCapacity) :
    s.fill build clock room ≠ .error .cell ↔
      Fits p.uringParameter demand log s (.fill clock room) := by
  have huring : s.uring = p.uringParameter := by simp only [uring, hs.sized.parameter]
  have hready : s.Ready p room :=
    ⟨hs.registers, Nat.le_trans hroom (hs.sized.sqCapacity ▸ hu.ringMax)⟩
  rw [ne_eq, hready.fill_cell_iff hrecord clock, not_and_not_right, huring]
  by_cases hmode : p.uringParameter.uringMode = .normal
  · have hcounted := hs.normal hmode (.of_phase hphase (by simp))
    simp only [pending, hphase, Nat.add_zero] at hcounted
    have hdemand : s.demand (.fill clock room) = some (.requests s.ring.outstanding.length) := by
      simp only [demand, huring, hphase, hroom, hmode, and_self, if_true]
    rw [fits_iff hdemand, ← Demand.requests_met_iff hcounted]
    simp [hmode]
  · have hdemand : s.demand (.fill clock room) = none := by
      simp only [demand, huring, hmode, and_false, if_false]
    refine iff_of_true ?_ (.none hdemand)
    intro hprovided
    have hbounded := (hs.provided (hprovided.resolve_left hmode)).bounded
    have hmax := Nat.mul_le_mul_right uringBufferSizeMultiplicator hu.ringMax
    rw [hu.buffer] at hbounded
    simp only [Metric.InRange]
    omega

theorem Tallied.enter_iff {log : List Settlement} {clock : Clock} {result : EnterResult} {n : Nat}
    (hu : p.uringParameter.Accepted) (hrecord : p.uringParameter.recordUtilization = true)
    (hs : s.Tallied p log) (hphase : s.phase = .enter n) :
    s.enter build result clock n ≠ .error .cell ↔
      Fits p.uringParameter demand log s (.enter result clock) := by
  have hmet := Demand.completions_met_iff hu hs.posted (hs.sized.cqCapacity ▸ hs.sized.waiting)
  rw [ne_eq, hs.registers.enter_cell_iff hrecord result clock n, not_and_not_right]
  by_cases hresult : result = .failed
  · refine iff_of_true (fun h => absurd hresult h) (.none ?_)
    simp [demand, hresult]
  · have hdemand : s.demand (.enter result clock) = some .completions := by
      simp [demand, hphase, Phase.submitting, hresult]
    rw [fits_iff hdemand, ← hmet]
    simp [hresult]

/-- A move ends in a panic of counting exactly if it does not find its cells. -/
theorem Tallied.step_iff {log : List Settlement} {e : UringEvent}
    (hu : p.uringParameter.Accepted) (hrecord : p.uringParameter.recordUtilization = true)
    (hs : s.Tallied p log) :
    s.step build e ≠ .error (.fault .cell) ↔ Fits p.uringParameter demand log s e := by
  have hlift : ∀ x : Except Fault UringLoop,
      lift x ≠ .error (.fault .cell) ↔ x ≠ .error .cell := by
    intro x
    cases x <;> simp [lift]
  cases e with
  | fill clock room =>
    by_cases hawaits : s.phase = .fill ∧ s.ring.sq.length + room ≤ s.ring.sqCapacity
    · simp only [UringLoop.step, hawaits.1, if_pos hawaits.2, hlift]
      exact hs.fill_iff hu hrecord hawaits.1 hawaits.2
    · refine iff_of_true ?_ (.none ?_)
      · simp only [UringLoop.step]
        split
        · rename_i hphase
          rw [if_neg fun hroom => hawaits ⟨hphase, hroom⟩]
          simp
        · simp
      · simp only [demand]
        rw [if_neg fun h => hawaits ⟨h.1, h.2.1⟩]
  | take n =>
    refine iff_of_true ?_ (.none rfl)
    simp only [UringLoop.step]
    split
    · simp
    · simp
  | post c =>
    refine iff_of_true ?_ (.none rfl)
    simp only [UringLoop.step]
    split
    · simp
    · simp
  | enter result clock =>
    cases hphase : s.phase with
    | enter n =>
      simp only [UringLoop.step, hphase, hlift]
      exact hs.enter_iff hu hrecord hphase
    | fill | complete | returned =>
      refine iff_of_true ?_ (.none ?_)
      · simp [UringLoop.step, hphase]
      · simp [demand, hphase, Phase.submitting]
  | complete clock =>
    refine iff_of_true ?_ (.none rfl)
    simp only [UringLoop.step]
    split
    · exact (hlift _).mpr (hs.registers.complete_avoids clock)
    · simp

end UringLoop
end Nperf
