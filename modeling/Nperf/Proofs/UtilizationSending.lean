import Nperf.Proofs.RecordsSending
import Nperf.Proofs.SendAccounting
import Nperf.Proofs.Utilization

namespace Nperf
open Rust Runs Bytes

namespace SendCqe

/-- The completion handler takes the request off `amount_inflight`. -/
def counted (zerocopy : Bool) (c : SendCqe) : Bool :=
  if zerocopy then (c.result = ioringNotifUsageZcCopied ∨ c.result = 0) ∧ c.released
  else 0 ≤ c.result

/-- Only the last completion of a request is counted. -/
theorem counted_last {zerocopy : Bool} {c : SendCqe} (hmore : c.cqe.more = true → zerocopy = true)
    (h : c.counted zerocopy = true) : c.cqe.more = false := by
  cases zerocopy with
  | false => exact Bool.eq_false_iff.mpr fun hm => Bool.false_ne_true (hmore hm)
  | true =>
    simp only [counted, if_true, decide_eq_true_eq, released, checkMultishotStatus,
      Bool.and_eq_true, Bool.not_eq_true'] at h
    exact h.2.1

end SendCqe

/-- A batch takes its last completions from the requests on their way. -/
theorem SendRing.reap_held (r : SendRing) : r.held.length =
    { r with cq := [] }.held.length + (r.cq.filter fun c => !c.cqe.more).length := by
  simp only [held, List.length_append, List.length_map, List.filter_nil, List.length_nil]
  omega

namespace IoUringSend

theorem pushBuffers_room {b : PacketBuffer} {nextPacketId requests room i : Nat}
    {result : Except Error Unit} {pushed : List SendRequest}
    (h : pushBuffers b nextPacketId requests room i = .ok (result, pushed)) :
    pushed.length ≤ room := by
  induction requests generalizing room i result pushed with
  | zero =>
    cases h
    exact Nat.zero_le room
  | succ requests ih =>
    simp only [pushBuffers, bind_ok] at h
    obtain ⟨packetId, _, h⟩ := h
    split at h
    · cases h
      exact Nat.zero_le _
    · cases h
      exact Nat.le_refl 0
    · obtain ⟨⟨result', rest⟩, hrest, h⟩ := bind_ok.mp h
      cases h
      exact Nat.succ_le_succ (ih hrest)

theorem submitZc_room {requests room packetId : Nat} {b b' : PacketBuffer}
    {result : Except Error Unit} {pushed : List SendRequest}
    (h : submitZc requests room packetId b = .ok (result, pushed, b')) :
    pushed.length ≤ room := by
  induction requests generalizing room packetId b result pushed with
  | zero =>
    cases h
    exact Nat.zero_le room
  | succ requests ih =>
    simp only [submitZc] at h
    split at h
    · cases h
      exact Nat.zero_le room
    · obtain ⟨id, _, h⟩ := bind_ok.mp h
      obtain ⟨⟨stamped, b₁⟩, _, h⟩ := bind_ok.mp h
      simp only at h
      split at h
      · cases h
        exact Nat.zero_le _
      · cases h
        exact Nat.zero_le _
      · cases h
        exact Nat.le_refl 0
      · obtain ⟨⟨result', rest, b₂⟩, hrest, h⟩ := bind_ok.mp h
        cases h
        exact Nat.succ_le_succ (ih hrest)

end IoUringSend

namespace PacketBuffer

theorem stampMsghdr_avoids (size amount packetId : Nat) (h : Msghdr) :
    Avoids .cell (stampMsghdr size amount packetId h) := by
  refine .foldlM (fun h i => .bind (rawSlice_avoids _ _) fun buffer _ => .bind ?_ fun slot _ =>
    .bind (.of_overflows (.u64 _) (by decide)) fun id _ => .bind ?_ fun _ _ => .ok _) h _
  · unfold Slice.from
    split
    · exact .ok _
    · exact .error (by decide)
  · unfold MessageHeader.setPacketIdRaw Slice.setWord
    split
    · exact .error (by decide)
    split
    · exact .error (by decide)
    · exact .ok _

theorem addPacketIds_avoids (b : PacketBuffer) (packetId : Nat) (amount : Option Nat) :
    Avoids .cell (b.addPacketIds packetId amount) := by
  have hall : ∀ ms packetId,
      Avoids .cell (stampAll b.datagramSize b.packetsAmountPerMsghdr packetId ms) := by
    intro ms
    induction ms with
    | nil => exact fun _ => .ok _
    | cons m ms ih =>
      exact fun packetId => .bind (stampMsghdr_avoids _ _ _ _) fun _ _ =>
        .bind (ih _) fun _ _ => .ok _
  exact .bind (hall _ _) fun _ _ => .ok _

theorem addPacketIdsToMsghdr_avoids (b : PacketBuffer) (packetId index : Nat) :
    Avoids .cell (b.addPacketIdsToMsghdr packetId index) := by
  unfold addPacketIdsToMsghdr
  split
  · exact .ok _
  · exact .bind (stampMsghdr_avoids _ _ _ _) fun _ _ => .ok _

end PacketBuffer

namespace IoUringSend

theorem submit_avoids (requests room packetId : Nat) (b : PacketBuffer) :
    Avoids .cell (submit requests room packetId b) := by
  have hpush : ∀ b requests room i, Avoids .cell (pushBuffers b packetId requests room i) := by
    intro b requests
    induction requests with
    | zero => exact fun _ _ => .ok _
    | succ requests ih =>
      intro room i
      refine .bind (.of_overflows (.u64 _) (by decide)) fun id _ => ?_
      split
      · exact .ok _
      · exact .ok _
      · exact .bind (ih _ _) fun _ _ => .ok _
  exact .bind (PacketBuffer.addPacketIds_avoids _ _ _) fun _ _ => .bind (hpush _ _ _ _) fun _ _ =>
    .ok _

theorem submitZc_avoids (requests room packetId : Nat) (b : PacketBuffer) :
    Avoids .cell (submitZc requests room packetId b) := by
  induction requests generalizing room packetId b with
  | zero => exact .ok _
  | succ requests ih =>
    simp only [submitZc]
    split
    · exact .ok _
    · refine .bind (.of_overflows (.u64 _) (by decide)) fun id _ =>
        .bind (PacketBuffer.addPacketIdsToMsghdr_avoids _ _ _) ?_
      rintro ⟨stamped, b⟩ _
      simp only
      split
      · exact .ok _
      · exact .ok _
      · exact .ok _
      · exact .bind (ih _ _ _) fun _ _ => .ok _

end IoUringSend

namespace Sender
variable {s s' : Sender} {cq rest : List SendCqe} {k n n' completed : Nat} {c : SendCqe}
  {st st' : Statistic} {pool pool' : List Nat}

theorem completeSend_count (h : completeSend k c (st, n) = (.ok (), st', n')) :
    n' = n + if c.counted false then 1 else 0 := by
  simp only [completeSend] at h
  simp only [SendCqe.counted, Bool.false_eq_true, if_false, decide_eq_true_eq]
  split at h
  · cases h
    rw [if_neg (by omega)]
    rfl
  · split at h
    · cases h
    · split at h
      · cases h
      · rename_i hbytes
        cases h
        rw [if_pos (Int.not_lt.mp hbytes)]

theorem completeSendZc_count (h : completeSendZc k c (st, n, pool) = (.ok (), st', n', pool')) :
    n' = n + if c.counted true then 1 else 0 := by
  have hcopied : ioringNotifUsageZcCopied = -2147483648 := rfl
  simp only [completeSendZc] at h
  simp only [SendCqe.counted, if_true, decide_eq_true_eq]
  split at h
  · cases h
    rw [if_neg (by omega)]
    rfl
  split at h
  · cases h
  split at h
  · rename_i hnotif
    split at h
    · rename_i hreleased
      cases h
      rw [if_pos ⟨.inl hnotif, hreleased⟩]
    · rename_i hreleased
      cases h
      rw [if_neg fun hcounted => hreleased hcounted.2]
      rfl
  split at h
  · cases h
  split at h
  · rename_i hzero
    split at h
    · rename_i hreleased
      cases h
      rw [if_pos ⟨.inr hzero, hreleased⟩]
    · rename_i hreleased
      cases h
      rw [if_neg fun hcounted => hreleased hcounted.2]
      rfl
  · cases h
    rw [if_neg (by omega)]
    rfl

theorem ioUringCompleteSend_count (h : s.ioUringCompleteSend cq = .ok (.ok completed, s', rest)) :
    completed = (cq.filter (·.counted false)).length := by
  simp only [ioUringCompleteSend, bind_ok] at h
  obtain ⟨⟨drained, ⟨st, count⟩, rest'⟩, hdrain, h⟩ := h
  rcases Queue.drain_cases []
    (R := fun done (t : Statistic × Nat) => t.2 = (done.filter (·.counted false)).length)
    (fun done i c t t' hs hbody => by
      rw [completeSend_count (Except.ok.inj hbody), List.filter_append, List.length_append, hs]
      cases hc : c.counted false <;> simp [hc])
    rfl hdrain with ⟨rfl, _, hall⟩ | ⟨e, _, _, _, _, rfl, _⟩
  · cases h
    exact hall
  · cases h

theorem ioUringCompleteSendZc_count
    (h : s.ioUringCompleteSendZc cq = .ok (.ok completed, s', rest)) :
    completed = (cq.filter (·.counted true)).length := by
  simp only [ioUringCompleteSendZc, bind_ok] at h
  obtain ⟨⟨drained, ⟨st, count, pool⟩, rest'⟩, hdrain, h⟩ := h
  rcases Queue.drain_cases []
    (R := fun done (t : Statistic × Nat × List Nat) =>
      t.2.1 = (done.filter (·.counted true)).length)
    (fun done i c t t' hs hbody => by
      rw [completeSendZc_count (Except.ok.inj hbody), List.filter_append, List.length_append, hs]
      cases hc : c.counted true <;> simp [hc])
    rfl hdrain with ⟨rfl, _, hall⟩ | ⟨e, _, _, _, _, rfl, _⟩
  · cases h
    exact hall
  · cases h

end Sender

namespace SenderLoop
variable {p : Parameter} {s s' : SenderLoop}

/-- The ring as it was created, with no more completions than it has room for;
only a zero-copy request posts more than one. -/
structure Sized (p : Parameter) (s : SenderLoop) : Prop where
  parameter : s.sender.parameter = p
  sqCapacity : s.ring.sqCapacity = p.uringParameter.ringSize
  cqCapacity : s.ring.cqCapacity = p.uringParameter.bufferSize
  waiting : s.ring.cq.length ≤ s.ring.cqCapacity
  single : ∀ c ∈ s.ring.cq, c.cqe.more = true → s.zerocopy = true

theorem Sized.start (clock : Clock) (startTime : Timestamp) {r : Sender} (hr : r.parameter = p) :
    (start clock startTime r).Sized p :=
  ⟨hr, by rw [← hr]; rfl, by rw [← hr]; rfl, Nat.zero_le _, List.forall_mem_nil _⟩

/-- A move that changes neither the parameter set nor what is in the queue. -/
theorem Sized.of_eq (hs : s.Sized p) (hparameter : s'.sender.parameter = s.sender.parameter)
    (hsq : s'.ring.sqCapacity = s.ring.sqCapacity) (hcq : s'.ring.cqCapacity = s.ring.cqCapacity)
    (hqueue : s'.ring.cq = s.ring.cq) : s'.Sized p := by
  refine ⟨hparameter.trans hs.parameter, hsq.trans hs.sqCapacity, hcq.trans hs.cqCapacity, ?_, ?_⟩
  · rw [hqueue, hcq]
    exact hs.waiting
  · rw [hqueue, zerocopy_eq hparameter]
    exact hs.single

/-- What is pushed is pending. -/
theorem fill_pushes {time clock : Clock} {room : Nat} (h : s.fill time clock room = .ok s') :
    s'.sender.parameter = s.sender.parameter ∧ s'.amountInflight = s.amountInflight ∧
      ∃ requests, s'.ring = s.ring.push requests ∧
        (s'.Going → s'.pending = requests.length) := by
  have hnothing : ∀ r : SendRing, r = r.push [] := fun r => by simp [SendRing.push]
  rcases fill_ok h with ⟨result, rfl⟩ | ⟨_, t, hk, hsubmit⟩
  · exact ⟨rfl, rfl, [], hnothing _, fun hgoing => absurd rfl (hgoing _)⟩
  · obtain ⟨_, _, _, ⟨_, rfl⟩ |
      ⟨result, requests, b, _, hsender, hring, hinflight, _, _, hphase⟩⟩ := submit_ok hsubmit
    · refine ⟨hk.parameter, hk.amountInflight, [], ?_, fun _ => rfl⟩
      rw [← hnothing]
      exact hk.ring
    · refine ⟨by rw [hsender]; exact hk.parameter, hinflight.trans hk.amountInflight, requests,
        by rw [hring, hk.ring], fun hgoing => ?_⟩
      rcases hphase with ⟨_, henter⟩ | ⟨e, hreturned⟩
      · simp only [pending, henter]
      · exact absurd hreturned (hgoing _)

theorem enter_inflight {result : EnterResult} {n : Nat} (h : s.enter result n = .ok s')
    (hgoing : s'.Going) : s'.amountInflight = s.amountInflight + n := by
  unfold enter at h
  split at h
  · cases h
    exact absurd rfl (hgoing _)
  · obtain ⟨_, _, h⟩ := bind_ok.mp h
    obtain ⟨_, _, h⟩ := bind_ok.mp h
    cases h
    rfl

theorem handleCompletions_count {completed : Nat} {sender : Sender} {rest : List SendCqe}
    (h : s.handleCompletions = .ok (.ok completed, sender, rest)) :
    completed = (s.ring.cq.filter (·.counted s.zerocopy)).length := by
  unfold handleCompletions at h
  split at h
  · rename_i hmode
    rw [hmode]
    exact Sender.ioUringCompleteSendZc_count h
  · rename_i hmode
    rw [Bool.eq_false_iff.mpr hmode]
    exact Sender.ioUringCompleteSend_count h

/-- No handler has the loop go on with an error. -/
theorem handleCompletions_fatal {e : Error} {sender : Sender} {rest : List SendCqe}
    (h : s.handleCompletions = .ok (.error e, sender, rest)) : e ≠ .eagain := by
  unfold handleCompletions at h
  split at h
  · rcases (Sender.ioUringCompleteSendZc_ok h).2.1 with ⟨_, _, hok, _⟩ | ⟨_, _, herror, hfatal, _⟩
    · cases hok
    · cases herror
      exact hfatal
  · rcases (Sender.ioUringCompleteSend_ok h).2.2.1 with ⟨_, hok, _⟩ | ⟨_, herror, hfatal⟩
    · cases hok
    · cases herror
      exact hfatal

/-- The loop that goes on has taken off the counter what its handler counts. -/
theorem complete_inflight (h : s.complete = .ok s') (hgoing : s'.Going) :
    s'.amountInflight + (s.ring.cq.filter (·.counted s.zerocopy)).length = s.amountInflight := by
  simp only [complete, bind_ok] at h
  obtain ⟨⟨result, sender, rest⟩, hdrain, h⟩ := h
  cases result with
  | ok completed =>
    obtain ⟨left, hleft, h⟩ := bind_ok.mp h
    cases h
    unfold checkedSub at hleft
    split at hleft
    · rename_i hle
      cases hleft
      rw [← handleCompletions_count hdrain]
      exact Nat.sub_add_cancel hle
    · cases hleft
  | error e =>
    have hfatal := handleCompletions_fatal hdrain
    cases e with
    | eagain => exact absurd rfl hfatal
    | _ =>
      cases h
      exact absurd rfl (hgoing _)

theorem Sized.step {e : SenderEvent} (hs : s.Sized p) (h : s.step e = .ok s') : s'.Sized p := by
  cases e with
  | fill time clock room =>
    obtain ⟨hparameter, _, requests, hring, _⟩ := fill_pushes (step_fill h).2.2
    apply hs.of_eq hparameter
    all_goals
      rw [hring]
      rfl
  | take n =>
    obtain ⟨_, rfl⟩ := step_take h
    exact hs.of_eq rfl rfl rfl rfl
  | post c =>
    obtain ⟨hposts, hroom, rfl⟩ := step_post h
    have hmore : c.cqe.more = true → s.zerocopy = true := by
      intro hmore
      unfold SendRing.Posts at hposts
      split at hposts
      · cases hmore.symm.trans hposts.2.1
      · exact hposts.2 hmore
    have hcapacity : (s.ring.post c).sqCapacity = s.ring.sqCapacity ∧
        (s.ring.post c).cqCapacity = s.ring.cqCapacity := by
      unfold SendRing.post
      split <;> exact ⟨rfl, rfl⟩
    refine ⟨hs.parameter, hcapacity.1.trans hs.sqCapacity, hcapacity.2.trans hs.cqCapacity, ?_, ?_⟩
    · simp only [SendRing.post_cq, hcapacity.2, List.length_append, List.length_singleton]
      exact hroom
    · simp only [SendRing.post_cq]
      refine List.forall_mem_append.mpr ⟨hs.single, fun d hd => ?_⟩
      rw [List.mem_singleton.mp hd]
      exact hmore
  | enter result =>
    obtain ⟨n, _, henter⟩ := step_enter h
    obtain ⟨hring, _, _, hcases⟩ := enter_ok henter
    have hparameter : s'.sender.parameter = s.sender.parameter := by
      rcases hcases with ⟨_, hsender⟩ | ⟨_, _, hsender, _⟩ <;> rw [hsender]
    exact hs.of_eq hparameter (by rw [hring]) (by rw [hring]) (by rw [hring])
  | complete =>
    obtain ⟨hk, _, _, front, rest, hcq, hring, _⟩ := complete_ok (step_complete h).2
    have hwaiting := hs.waiting
    rw [hcq, List.length_append] at hwaiting
    refine ⟨hk.parameter.trans hs.parameter, by rw [hring]; exact hs.sqCapacity,
      by rw [hring]; exact hs.cqCapacity, ?_, ?_⟩
    · rw [hring]
      exact Nat.le_trans (Nat.le_add_left _ _) hwaiting
    · rw [hring, zerocopy_eq hk.parameter]
      exact fun c hc => hs.single c (by rw [hcq]; exact List.mem_append_right _ hc)

/-- The loop has its statistics, and a cell for every push that succeeds. -/
structure Ready (p : Parameter) (room : Nat) (s : SenderLoop) : Prop where
  sender : s.sender.Registers p
  ring : s.ringStatistic.Of p
  room : s.ring.sq.length + room ≤ uringMaxRingSize

/-- The mode is one of the sender, and the running time is not over. -/
def Iterates (s : SenderLoop) (time : Clock) : Prop :=
  (s.uring.uringMode = .normal ∨ s.uring.uringMode = .zerocopy) ∧
    s.sender.running s.startTime time = true

instance (s : SenderLoop) (time : Clock) : Decidable (s.Iterates time) :=
  inferInstanceAs (Decidable (_ ∧ _))

/-- What the loop has to have cells for in its next move, if the event is that
move. -/
def demand (s : SenderLoop) : SenderEvent → Option Demand
  | .fill time _ room =>
    if s.phase = .fill ∧ s.ring.sq.length + room ≤ s.ring.sqCapacity ∧ s.Iterates time then
      some (.requests s.ring.held.length)
    else none
  | .enter result => if s.phase.submitting ∧ result ≠ .failed then some .completions else none
  | .take _ | .post _ | .complete => none

/-- What the events settle. A request ends with its last completion. -/
def settled (s : SenderLoop) (e : SenderEvent) (s' : SenderLoop) : List Settlement :=
  match e with
  | .post _ => [.posted]
  | .complete =>
    settle (fun c => !c.cqe.more && !c.counted s.zerocopy)
      (s.ring.cq.take (s.ring.cq.length - s'.ring.cq.length))
  | .fill _ _ _ | .take _ | .enter _ => []

/-- No more is pushed than pushes succeed. -/
theorem submitRequests_room {n room : Nat} {result : Except Error Unit}
    {requests : List SendRequest} {b : PacketBuffer}
    (h : s.submitRequests n room = .ok (result, requests, b)) : requests.length ≤ room := by
  unfold submitRequests at h
  split at h
  · exact IoUringSend.submitZc_room h
  · simp only [IoUringSend.submit, bind_ok] at h
    obtain ⟨⟨_, b'⟩, _, ⟨result, pushed⟩, hpushed, h⟩ := h
    cases h
    exact IoUringSend.pushBuffers_room hpushed

theorem Ready.submit_avoids {room : Nat} (hs : s.Ready p room)
    (hrecord : p.uringParameter.recordUtilization = true) : Avoids .cell (s.submit room) := by
  refine .bind (calcSqFillMode_avoids _ _ _) ?_
  rintro ⟨toSubmit, minComplete⟩ _
  simp only
  split
  · exact .ok _
  refine .bind ?_ ?_
  · unfold submitRequests
    split
    · exact IoUringSend.submitZc_avoids _ _ _ _
    · exact IoUringSend.submit_avoids _ _ _ _
  · rintro ⟨result, requests, b⟩ hsubmit
    have hlength := submitRequests_room hsubmit
    cases result with
    | error e => exact .ok _
    | ok u =>
      refine .bind (Statistic.recordSq_avoids (hs.ring.recording hrecord) ?_) fun _ _ => .ok _
      have hroom := hs.room
      simp only [Metric.InRange, SendRing.push, List.length_append]
      omega

theorem Ready.fill_cell_iff {room : Nat} (hs : s.Ready p room)
    (hrecord : p.uringParameter.recordUtilization = true) (time clock : Clock) :
    s.fill time clock room = .error .cell ↔
      s.Iterates time ∧ ¬Metric.InRange (.inflight s.amountInflight) := by
  have hcounted : ∀ statistic, s.sender.statistic.recordInflight s.amountInflight = .ok statistic →
      Avoids .cell ((closeInterval clock { s with
        sender := { s.sender with statistic := statistic.countIoModelCall } }).submit room) := by
    intro statistic hstatistic
    have hsame := (Statistic.sameRing_recordInflight hstatistic).trans
      (u := statistic.countIoModelCall) ⟨rfl, rfl, rfl, rfl, rfl⟩
    have hsender : Sender.Registers p
        { s.sender with statistic := statistic.countIoModelCall } :=
      hs.sender.of_eq rfl hsame rfl
    refine Ready.submit_avoids (p := p) ?_ hrecord
    exact ⟨hsender.closeInterval clock, hs.ring, hs.room⟩
  have hbody := Statistic.recordInflight_cell_iff (hs.sender.statistic.recording hrecord) hcounted
  unfold fill Iterates
  cases hmode : s.uring.uringMode with
  | normal | zerocopy =>
    cases hrunning : s.sender.running s.startTime time with
    | true => simpa using hbody
    | false => simp
  | providedBuffer | multishot => simp

theorem enter_cell_iff (hring : s.ringStatistic.Of p)
    (hrecord : p.uringParameter.recordUtilization = true) (result : EnterResult) (n : Nat) :
    s.enter result n = .error .cell ↔
      result ≠ .failed ∧ ¬Metric.InRange (.cq s.ring.cq.length) := by
  apply Statistic.recordCq_cell_iff result (hring.recording hrecord)
  exact fun _ _ _ => .bind (.of_overflows (.u64 _) (by decide)) fun _ _ => .ok _

/-- A batch counts no length. -/
theorem complete_avoids (s : SenderLoop) : Avoids .cell s.complete := by
  have hdrain : Avoids .cell s.handleCompletions := by
    unfold handleCompletions
    split
    · refine .bind (Queue.drain_avoids (fun _ _ _ => .ok _) 0 _ _) ?_
      rintro ⟨result, ⟨statistic, count, pool⟩, rest⟩ _
      cases result with
      | ok u => exact .ok _
      | error e => exact .ok _
    · exact .bind (Queue.drain_avoids (fun _ _ _ => .ok _) 0 _ _) fun _ _ => .ok _
  refine .bind hdrain ?_
  rintro ⟨result, sender, cq⟩ _
  simp only
  split
  · exact .bind (.checkedSub (by decide) _ _) fun _ _ => .ok _
  · exact .ok _
  · exact .ok _

/-- The statistic of the ring is of the parameter set all along. -/
theorem step_ring {e : SenderEvent} (hring : s.ringStatistic.Of p) (h : s.step e = .ok s') :
    s'.ringStatistic.Of p := by
  cases e with
  | fill time clock room =>
    rcases fill_branches (step_fill h).2.2 with ⟨_, rfl⟩ | ⟨_, ⟨_, rfl⟩ | ⟨_, _, _, h⟩⟩
    · exact hring
    · exact hring
    · obtain ⟨⟨toSubmit, minComplete⟩, _, h⟩ := bind_ok.mp h
      simp only at h
      split at h
      · cases h
        exact hring
      · obtain ⟨⟨result, requests, b⟩, _, h⟩ := bind_ok.mp h
        cases result with
        | error e =>
          cases h
          exact hring
        | ok u =>
          obtain ⟨ringStatistic, hrecord, h⟩ := bind_ok.mp h
          cases h
          exact hring.recordSq hrecord
  | take n =>
    obtain ⟨_, rfl⟩ := step_take h
    exact hring
  | post c =>
    obtain ⟨_, _, rfl⟩ := step_post h
    exact hring
  | enter result =>
    obtain ⟨n, _, h⟩ := step_enter h
    unfold enter at h
    split at h
    · cases h
      exact hring
    · obtain ⟨ringStatistic, hrecord, h⟩ := bind_ok.mp h
      obtain ⟨_, _, h⟩ := bind_ok.mp h
      cases h
      refine Statistic.Of.recordCq ?_ hrecord
      exact ⟨hring.parameter, hring.sq, hring.cq, hring.inflight⟩
  | complete =>
    obtain ⟨⟨result, sender, cq⟩, _, h⟩ := bind_ok.mp (step_complete h).2
    simp only at h
    split at h
    · obtain ⟨_, _, h⟩ := bind_ok.mp h
      cases h
      exact hring
    · cases h
      exact hring
    · cases h
      exact hring

/-- Both accounts of a loop. Its counter has the requests on their way and those
that ended uncounted; its queue has what was posted and not taken. -/
structure Tallied (p : Parameter) (log : List Settlement) (s : SenderLoop) : Prop where
  sender : s.sender.Registers p
  ring : s.ringStatistic.Of p
  sized : s.Sized p
  posted : log.count .posted = log.count .taken + s.ring.cq.length
  counted : s.Going →
    s.amountInflight + s.pending = s.ring.held.length + log.count .uncounted

theorem Tallied.start (clock : Clock) (startTime : Timestamp) {r : Sender} (hr : r.Registers p) :
    (start clock startTime r).Tallied p [] :=
  ⟨hr, hr.parameter ▸ .new clock _, .start clock startTime hr.parameter, rfl, fun _ => rfl⟩

theorem settled_posted {e : SenderEvent} {log : List Settlement}
    (hs : log.count .posted = log.count .taken + s.ring.cq.length) (h : s.step e = .ok s') :
    (log ++ s.settled e s').count .posted =
      (log ++ s.settled e s').count .taken + s'.ring.cq.length := by
  cases e with
  | fill time clock room =>
    obtain ⟨_, _, requests, hring, _⟩ := fill_pushes (step_fill h).2.2
    rw [settled, List.append_nil, hring]
    exact hs
  | take n =>
    obtain ⟨_, rfl⟩ := step_take h
    rw [settled, List.append_nil]
    exact hs
  | post c =>
    obtain ⟨_, _, rfl⟩ := step_post h
    simp only [settled, SendRing.post_cq, List.count_append, List.length_append,
      List.length_singleton, hs]
    exact Nat.add_assoc _ _ _
  | enter result =>
    obtain ⟨n, _, h⟩ := step_enter h
    obtain ⟨hring, _⟩ := enter_ok h
    rw [settled, List.append_nil, hring]
    exact hs
  | complete =>
    obtain ⟨_, _, _, front, rest, hcq, hring, _⟩ := complete_ok (step_complete h).2
    simp only [settled, List.count_append, settle_posted, settle_taken, List.length_take, hring, hs,
      hcq, List.length_append]
    omega

theorem settled_counted {e : SenderEvent} {log : List Settlement} (hsized : s.Sized p)
    (hgoing : s'.Going)
    (hs : s.amountInflight + s.pending = s.ring.held.length + log.count .uncounted)
    (h : s.step e = .ok s') :
    s'.amountInflight + s'.pending =
      s'.ring.held.length + (log ++ s.settled e s').count .uncounted := by
  cases e with
  | fill time clock room =>
    obtain ⟨hphase, _, hfill⟩ := step_fill h
    obtain ⟨_, hinflight, requests, hring, hpushed⟩ := fill_pushes hfill
    have hpending := hpushed hgoing
    have hheld := (s.ring.push_held requests).length_eq
    rw [← hring, List.length_append] at hheld
    simp only [pending, hphase] at hs
    simp only [settled, List.append_nil]
    omega
  | take n =>
    obtain ⟨_, rfl⟩ := step_take h
    simp only [settled, List.append_nil, (s.ring.take_held n).length_eq]
    exact hs
  | post c =>
    obtain ⟨hposts, _, rfl⟩ := step_post h
    have huncounted : ([.posted] : List Settlement).count .uncounted = 0 := rfl
    simp only [settled, List.count_append, huncounted, (SendRing.post_held hposts).length_eq]
    exact hs
  | enter result =>
    obtain ⟨n, hphase, henter⟩ := step_enter h
    have hinflight := enter_inflight henter hgoing
    obtain ⟨hring, _, _, ⟨hreturned, _⟩ | ⟨hcomplete, _⟩⟩ := enter_ok henter
    · exact absurd hreturned (hgoing _)
    · simp only [pending, hphase] at hs
      simp only [settled, List.append_nil, pending, hcomplete, hring]
      omega
  | complete =>
    obtain ⟨hphase, hcomplete⟩ := step_complete h
    have hinflight := complete_inflight hcomplete hgoing
    obtain ⟨_, _, _, front, rest, _, hring, ⟨hfill, hrest⟩ | ⟨e, hreturned⟩⟩ :=
      complete_ok hcomplete
    · have hheld := s.ring.reap_held
      have hlast : ∀ c ∈ s.ring.cq, c.counted s.zerocopy = true → (!c.cqe.more) = true := by
        intro c hc hcounted
        rw [SendCqe.counted_last (hsized.single c hc) hcounted]
        rfl
      have hsplit := Lists.length_filter_within (q := fun c => SendCqe.counted s.zerocopy c) hlast
      rw [hrest] at hring
      simp only [pending, hphase] at hs
      simp only [pending, hfill, settled, List.count_append, settle_uncounted, hring,
        List.length_nil, Nat.sub_zero, List.take_length]
      omega
    · exact absurd hreturned (hgoing _)

theorem Tallied.step {log : List Settlement} {e : SenderEvent} (hs : s.Tallied p log)
    (h : s.step e = .ok s') : s'.Tallied p (log ++ s.settled e s') :=
  ⟨step_registers hs.sender h, step_ring hs.ring h, hs.sized.step h, settled_posted hs.posted h,
    fun hgoing => settled_counted hs.sized hgoing (hs.counted (hgoing.back h)) h⟩

theorem Tallied.fill_iff {log : List Settlement} {time clock : Clock} {room : Nat}
    (hu : p.uringParameter.Accepted) (hrecord : p.uringParameter.recordUtilization = true)
    (hs : s.Tallied p log) (hphase : s.phase = .fill)
    (hroom : s.ring.sq.length + room ≤ s.ring.sqCapacity) :
    s.fill time clock room ≠ .error .cell ↔
      Fits p.uringParameter demand log s (.fill time clock room) := by
  have hready : s.Ready p room :=
    ⟨hs.sender, hs.ring, Nat.le_trans hroom (hs.sized.sqCapacity ▸ hu.ringMax)⟩
  have hcounted := hs.counted (.of_phase hphase (by simp))
  simp only [pending, hphase, Nat.add_zero] at hcounted
  rw [ne_eq, hready.fill_cell_iff hrecord time clock, not_and_not_right]
  by_cases hiterates : s.Iterates time
  · have hdemand : s.demand (.fill time clock room) = some (.requests s.ring.held.length) := by
      simp only [demand, hphase, hroom, hiterates, and_self, if_true]
    rw [fits_iff hdemand, ← Demand.requests_met_iff hcounted]
    simp [hiterates]
  · refine iff_of_true (fun h => absurd h hiterates) (.none ?_)
    simp only [demand, hiterates, and_false, if_false]

theorem Tallied.enter_iff {log : List Settlement} {result : EnterResult} {n : Nat}
    (hu : p.uringParameter.Accepted) (hrecord : p.uringParameter.recordUtilization = true)
    (hs : s.Tallied p log) (hphase : s.phase = .enter n) :
    s.enter result n ≠ .error .cell ↔ Fits p.uringParameter demand log s (.enter result) := by
  have hmet := Demand.completions_met_iff hu hs.posted (hs.sized.cqCapacity ▸ hs.sized.waiting)
  rw [ne_eq, enter_cell_iff hs.ring hrecord result n, not_and_not_right]
  by_cases hresult : result = .failed
  · refine iff_of_true (fun h => absurd hresult h) (.none ?_)
    simp [demand, hresult]
  · have hdemand : s.demand (.enter result) = some .completions := by
      simp [demand, hphase, Phase.submitting, hresult]
    rw [fits_iff hdemand, ← hmet]
    simp [hresult]

/-- A move ends in a panic of counting exactly if it does not find its cells. -/
theorem Tallied.step_iff {log : List Settlement} {e : SenderEvent}
    (hu : p.uringParameter.Accepted) (hrecord : p.uringParameter.recordUtilization = true)
    (hs : s.Tallied p log) :
    s.step e ≠ .error (.fault .cell) ↔ Fits p.uringParameter demand log s e := by
  have hlift : ∀ x : Except Fault SenderLoop,
      lift x ≠ .error (.fault .cell) ↔ x ≠ .error .cell := by
    intro x
    cases x <;> simp [lift]
  cases e with
  | fill time clock room =>
    by_cases hawaits : s.phase = .fill ∧ s.ring.sq.length + room ≤ s.ring.sqCapacity
    · simp only [SenderLoop.step, hawaits.1, if_pos hawaits.2, hlift]
      exact hs.fill_iff hu hrecord hawaits.1 hawaits.2
    · refine iff_of_true ?_ (.none ?_)
      · simp only [SenderLoop.step]
        split
        · rename_i hphase
          rw [if_neg fun hroom => hawaits ⟨hphase, hroom⟩]
          simp
        · simp
      · simp only [demand]
        rw [if_neg fun h => hawaits ⟨h.1, h.2.1⟩]
  | take n =>
    refine iff_of_true ?_ (.none rfl)
    simp only [SenderLoop.step]
    split
    · simp
    · simp
  | post c =>
    refine iff_of_true ?_ (.none rfl)
    simp only [SenderLoop.step]
    split
    · simp
    · simp
  | enter result =>
    cases hphase : s.phase with
    | enter n =>
      simp only [SenderLoop.step, hphase, hlift]
      exact hs.enter_iff hu hrecord hphase
    | fill | complete | returned =>
      refine iff_of_true ?_ (.none ?_)
      · simp [SenderLoop.step, hphase]
      · simp [demand, hphase, Phase.submitting]
  | complete =>
    refine iff_of_true ?_ (.none rfl)
    simp only [SenderLoop.step]
    split
    · exact (hlift _).mpr s.complete_avoids
    · simp

end SenderLoop
end Nperf
