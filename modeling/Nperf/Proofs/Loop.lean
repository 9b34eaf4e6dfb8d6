import Nperf.Model.ReceiverLoop
import Nperf.Proofs.History
import Nperf.Proofs.Parameters

namespace Nperf
open Rust Bytes

/-- The type that a receive function reads from a msghdr. -/
def Msghdr.messageType (h : Msghdr) : Except Fault MessageType :=
  PacketBuffer.getBufferPointer h >>= MessageHeader.getMessageType

theorem Msghdr.header_messageType {h : Msghdr} {testId : Nat} {mtype : MessageType}
    (hheader : h.header = .ok (testId, mtype)) : h.messageType = .ok mtype := by
  simp only [header, bind_ok] at hheader
  obtain ⟨buffer, hbuffer, testId, _, mtype, hmtype, hheader⟩ := hheader
  cases hheader
  exact bind_ok.mpr ⟨buffer, hbuffer, hmtype⟩

def Receiver.messageTypeAt (r : Receiver) (index : Nat) : Except Fault MessageType :=
  r.msghdr index >>= Msghdr.messageType

/-- What a completed message changes neither in the buffers nor around them. -/
structure Receiver.Kept (r r' : Receiver) : Prop where
  parameter : r'.parameter = r.parameter
  size : r'.packetBuffer.mmsghdrVec.length = r.packetBuffer.mmsghdrVec.length
  indexPool : r'.packetBuffer.indexPool = r.packetBuffer.indexPool
  capacity : r'.packetBuffer.indexPoolCapacity = r.packetBuffer.indexPoolCapacity
  messageType : ∀ i, r'.messageTypeAt i = r.messageTypeAt i

theorem Receiver.Kept.of_eq {r r' : Receiver} (hp : r'.parameter = r.parameter)
    (hb : r'.packetBuffer = r.packetBuffer) : r.Kept r' := by
  refine ⟨hp, by rw [hb], by rw [hb], by rw [hb], ?_⟩
  intro i
  simp only [messageTypeAt, msghdr, hb]

theorem Receiver.Kept.refl (r : Receiver) : r.Kept r := .of_eq rfl rfl

theorem Receiver.Kept.trans {r s t : Receiver} (h : r.Kept s) (h' : s.Kept t) : r.Kept t :=
  ⟨h'.parameter.trans h.parameter, h'.size.trans h.size, h'.indexPool.trans h.indexPool,
    h'.capacity.trans h.capacity, fun i => (h'.messageType i).trans (h.messageType i)⟩

theorem Receiver.msghdr_setMsghdr (r : Receiver) (index i : Nat) (h : Msghdr) :
    ({ r with packetBuffer := r.packetBuffer.setMsghdr index h } : Receiver).msghdr i =
      if index = i then (r.msghdr i).map (fun _ => h) else r.msghdr i := by
  simp only [msghdr, PacketBuffer.getMsghdrFromIndex, PacketBuffer.setMsghdr,
    List.getElem?_modify]
  by_cases hi : index = i
  · subst i
    cases r.packetBuffer.mmsghdrVec[index]? with
    | none => simp
    | some m => simp
  · simp [hi]

/-- Writing the processed msghdr back leaves its header as it is. -/
theorem Receiver.restoreProcessed_kept {r : Receiver} {h : Msghdr} {index : Nat}
    (hh : r.parameter.uringParameter.uringMode = .normal → r.msghdr index = .ok h) :
    r.Kept (r.restoreProcessed h index) := by
  unfold restoreProcessed
  split
  · rename_i hmode
    refine ⟨rfl, by simp [PacketBuffer.setMsghdr], rfl, rfl, ?_⟩
    intro i
    have hsame : (r.restoreControllen h).messageType = h.messageType := by
      unfold restoreControllen
      split <;> rfl
    simp only [messageTypeAt, msghdr_setMsghdr]
    split
    · rename_i hi
      subst i
      rw [hh hmode, map_ok, ok_bind, ok_bind, hsame]
    · rfl
  · exact .refl r

/-- The result of a receive function is what the header says, unless the test is
refused. -/
theorem Receiver.Handled.signal {r r' : Receiver} {clock : Clock} {h : Msghdr}
    {Packets : Statistic → Statistic → PacketBuffer → Prop} {result : Except Error Unit}
    (hr : r.Handled clock h Packets result r') : ∃ mtype, h.messageType = .ok mtype ∧
      (result = mtype.signal ∨ result = .error .testIdTooGreat) := by
  obtain ⟨testId, mtype, ms, hheader, hparsed⟩ := hr.parsed
  refine ⟨mtype, Msghdr.header_messageType hheader, ?_⟩
  rcases parseMessageType_hear hparsed with ⟨_, hrefused, _⟩ | ⟨_, hsignal, _⟩
  · exact .inr hrefused
  · exact .inl hsignal

theorem Receiver.Handled.kept {r r' : Receiver} {clock : Clock} {h : Msghdr}
    {Packets : Statistic → Statistic → PacketBuffer → Prop} {result : Except Error Unit}
    (hr : r.Handled clock h Packets result r')
    (hpackets : ∀ s s' b, Packets s s' b → r.Kept { r with packetBuffer := b }) : r.Kept r' := by
  cases hr with
  | stopped => exact .of_eq rfl rfl
  | counted _ _ _ packets =>
    apply Kept.trans (hpackets _ _ _ packets)
    exact .of_eq rfl rfl

/-- A completion reports what its header says, unless it refuses the test. -/
theorem Receiver.handleRecvmsgReturn_ok {r r' : Receiver} {build : Build} {clock : Clock}
    {amount : Int} {given : Option Msghdr} {index : Nat} {result : Except Error Unit}
    (h : r.handleRecvmsgReturn build clock amount given index = .ok (result, r')) :
    r.Kept r' ∧ ∃ h mtype, r.completedMsghdr given index = .ok h ∧ h.messageType = .ok mtype ∧
      (result = mtype.signal ∨ result = .error .testIdTooGreat) := by
  obtain ⟨h0, hh0, goes⟩ := handleRecvmsgReturn_cases h
  obtain ⟨mtype, hmtype, hsignal⟩ := goes.signal
  refine ⟨goes.kept ?_, h0, mtype, hh0, hmtype, hsignal⟩
  intro s s' b hp
  obtain ⟨h1, _, _, _, hh1, _, rfl⟩ := hp
  rw [← restoreProcessed_eq rfl rfl]
  apply restoreProcessed_kept
  intro hnormal
  unfold processedMsghdr at hh1
  rwa [if_pos hnormal] at hh1

/-- The errors after which the loop goes on. -/
def Error.Resumes (e : Error) : Prop :=
  e = .initMessageReceived ∨ e = .lastMessageReceived ∨ e = .eagain

/-- What the header of a msghdr built by the caller says about the result. -/
theorem Receiver.handleRecvmsgReturn_given {r r' : Receiver} {build : Build} {clock : Clock}
    {amount : Int} {hdr : Msghdr} {index : Nat} {result : Except Error Unit}
    (h : r.handleRecvmsgReturn build clock amount (some hdr) index = .ok (result, r')) :
    (result = .ok () → hdr.messageType = .ok .measurement) ∧
      ∀ e, result = .error e → e.Resumes →
        hdr.messageType = .ok .init ∨ hdr.messageType = .ok .last := by
  obtain ⟨_, _, mtype, hhdr, hmtype, hsignal⟩ := handleRecvmsgReturn_ok h
  cases hhdr
  rcases hsignal with rfl | rfl
  · cases mtype with
    | init =>
      refine ⟨fun hok => ?_, fun _ _ _ => .inl hmtype⟩
      cases hok
    | measurement =>
      refine ⟨fun _ => hmtype, fun e herror => ?_⟩
      cases herror
    | last =>
      refine ⟨fun hok => ?_, fun _ _ _ => .inr hmtype⟩
      cases hok
  · refine ⟨by simp, ?_⟩
    intro e he hresumes
    cases he
    exact absurd hresumes (by simp [Error.Resumes])

namespace Ring

theorem push_outstanding (r : Ring) (requests : List Nat) :
    (r.push requests).outstanding.Perm (r.outstanding ++ requests) := by
  simp only [outstanding, push, List.append_assoc]
  apply List.Perm.append_left
  exact List.perm_append_comm.trans (.of_eq (List.append_assoc ..))

theorem take_requests (r : Ring) (n : Nat) :
    ((r.take n).sq ++ (r.take n).live).Perm (r.sq ++ r.live) := by
  have hsplit : r.sq ++ r.live = r.sq.take n ++ (r.sq.drop n ++ r.live) := by
    rw [← List.append_assoc, List.take_append_drop]
  rw [hsplit, take, ← List.append_assoc]
  exact List.perm_append_comm

theorem take_outstanding (r : Ring) (n : Nat) :
    (r.take n).outstanding.Perm r.outstanding :=
  (r.take_requests n).append_right _

/-- A request that completes for good goes from the kernel into the queue. -/
theorem post_outstanding (r : Ring) {c : Cqe} (hc : c.userData ∈ r.live) :
    ({ r with live := r.live.erase c.userData, cq := r.cq ++ [c] } : Ring).outstanding.Perm
      r.outstanding := by
  have hlive : (r.live.erase c.userData ++ [c.userData]).Perm r.live :=
    List.perm_append_comm.trans (List.perm_cons_erase hc).symm
  simp only [outstanding, List.map_append, List.map_cons, List.map_nil, List.append_assoc]
  apply List.Perm.append_left
  apply List.Perm.trans (List.Perm.append_left _ List.perm_append_comm)
  rw [← List.append_assoc]
  exact hlive.append_right _

/-- What the program consumes is not outstanding any more. -/
theorem reap_outstanding (r : Ring) {front rest : List Cqe} (hcq : r.cq = front ++ rest) :
    r.outstanding.Perm ({ r with cq := rest }.outstanding ++ front.map Cqe.userData) := by
  simp only [outstanding, hcq, List.map_append, List.append_assoc]
  exact List.Perm.append_left _ (List.Perm.append_left _ List.perm_append_comm)

end Ring

/-- With an accepted parameter set the calculation never underflows, and what it
lets the loop submit stays below the number of buffers. -/
theorem calcSqFillMode_ok {u : UringParameter} (hu : u.Accepted) {ring : Ring}
    (hsq : ring.sq.length ≤ ring.sqCapacity) {inflight : Nat} (hi : inflight ≤ u.bufferSize) :
    ∃ toSubmit minComplete, calcSqFillMode inflight u ring = .ok (toSubmit, minComplete) ∧
      inflight + toSubmit ≤ u.bufferSize := by
  have hburst : u.burstSize ≤ u.bufferSize := by
    have hring := hu.burst
    rw [hu.buffer, uringBufferSizeMultiplicator]
    omega
  simp only [calcSqFillMode, checkedSub_ok hburst, checkedSub_ok hsq, checkedSub_ok hi, ok_bind]
  split
  · split
    · exact ⟨_, _, rfl, by omega⟩
    · exact ⟨_, _, rfl, by omega⟩
  · cases u.sqFillingMode with
    | syscall => exact ⟨_, _, rfl, by split <;> omega⟩
    | topup => exact ⟨_, _, rfl, by split <;> omega⟩
    | topupNoWait => exact ⟨_, _, rfl, by split <;> omega⟩

theorem MessageType.signal_error {mtype : MessageType} {e : Error}
    (h : mtype.signal = .error e) :
    mtype = .init ∧ e = .initMessageReceived ∨ mtype = .last ∧ e = .lastMessageReceived := by
  cases mtype <;> cases h <;> simp

namespace UringLoop

/-- The loop has not returned. -/
def Going (s : UringLoop) : Prop := ∀ result, s.phase ≠ .returned result

theorem Going.of_phase {s : UringLoop} {phase : Phase} (h : s.phase = phase)
    (hne : ∀ result, phase ≠ .returned result) : s.Going := by
  subst h
  exact hne

/-- What the statistics have no part in. -/
structure Kept (s s' : UringLoop) : Prop where
  receiver : s.receiver.Kept s'.receiver
  ring : s'.ring = s.ring
  amountInflight : s'.amountInflight = s.amountInflight
  armed : s'.armed = s.armed

theorem Kept.uring {s s' : UringLoop} (h : s.Kept s') : s'.uring = s.uring := by
  simp only [UringLoop.uring, h.receiver.parameter]

theorem lift_ok {x : Except Fault UringLoop} {s : UringLoop} : lift x = .ok s ↔ x = .ok s := by
  cases x <;> simp [lift]

theorem closeInterval_ok {clock : Clock} {s s' : UringLoop}
    (h : s.closeInterval build clock = .ok s') : s.Kept s' ∧ s'.phase = s.phase := by
  unfold closeInterval at h
  split at h
  · simp only [bind_ok] at h
    obtain ⟨_, _, _, _, h⟩ := h
    cases h
    exact ⟨⟨.of_eq rfl rfl, rfl, rfl, rfl⟩, rfl⟩
  · cases h
    exact ⟨⟨.refl _, rfl, rfl, rfl⟩, rfl⟩

theorem pushed_ok {s s' : UringLoop} {requests : List Nat} (h : s.pushed requests = .ok s') :
    s'.receiver = s.receiver ∧ s'.ring = s.ring.push requests ∧
      s'.amountInflight = s.amountInflight ∧ s'.armed = s.armed ∧
      s'.phase = .enter requests.length := by
  simp only [pushed, bind_ok] at h
  obtain ⟨_, _, h⟩ := h
  cases h
  exact ⟨rfl, rfl, rfl, rfl, rfl⟩

/-- The calculation finds the loop as it was; its result is nothing to do, or
what is to be submitted. -/
theorem fillCounted_ok {clock : Clock} {submit : Nat → UringLoop → Except Fault UringLoop}
    {inflight : UringLoop → Nat} {s s' : UringLoop}
    (h : s.fillCounted build clock submit inflight = .ok s') :
    ∃ t toSubmit minComplete, s.Kept t ∧
      calcSqFillMode (inflight t) t.uring t.ring = .ok (toSubmit, minComplete) ∧
      (s' = { t with phase := .complete } ∨ submit toSubmit t = .ok s') := by
  simp only [fillCounted, bind_ok] at h
  obtain ⟨_, _, t, ht, ⟨toSubmit, minComplete⟩, hcalc, h⟩ := h
  obtain ⟨hk, _⟩ := closeInterval_ok ht
  refine ⟨t, toSubmit, minComplete, ⟨hk.receiver, hk.ring, hk.amountInflight, hk.armed⟩, hcalc, ?_⟩
  simp only at h
  split at h
  · cases h
    exact .inl rfl
  · exact .inr h

theorem enter_ok {result : EnterResult} {clock : Clock} {n : Nat} {s s' : UringLoop}
    (h : s.enter build result clock n = .ok s') :
    s.receiver.Kept s'.receiver ∧ s'.ring = s.ring ∧ s'.armed = s.armed ∧
      (s'.phase = .returned (.error .uringEnter) ∧ s'.amountInflight = s.amountInflight ∨
        s'.phase = .complete ∧ s'.amountInflight =
          if s.uring.uringMode = .multishot then s.amountInflight else s.amountInflight + n) := by
  have hresult : ∀ e, ioUringEnter result = .error e → e = .uringEnter := by
    cases result <;> rintro e ⟨⟩
    rfl
  unfold enter at h
  split at h
  · rename_i e he
    cases h
    exact ⟨.refl _, rfl, rfl, .inl ⟨by rw [hresult e he], rfl⟩⟩
  · simp only [bind_ok] at h
    obtain ⟨statistic, _, h⟩ := h
    split at h
    · rename_i hmode
      obtain ⟨hk, hphase⟩ := closeInterval_ok h
      have hmode' : s.uring.uringMode = .multishot := hmode
      refine ⟨hk.receiver, hk.ring, hk.armed, .inr ⟨hphase, ?_⟩⟩
      rw [if_pos hmode', hk.amountInflight]
    · rename_i hmode
      have hmode' : ¬s.uring.uringMode = .multishot := hmode
      cases h
      exact ⟨.refl _, rfl, rfl, .inr ⟨rfl, by rw [if_neg hmode']⟩⟩

theorem interrupted_ok {e : Error} {s s' : UringLoop} (h : s.interrupted build e = .ok s') :
    s.Kept s' ∧ (s'.phase = .fill ∧ e.Resumes ∨ ∃ result, s'.phase = .returned result ∧
      ∀ e', result = .error e' → e' = e) := by
  have hsame : ∀ statistic phase,
      s.Kept { s with statistic := statistic, phase := phase } :=
    fun _ _ => ⟨.refl _, rfl, rfl, rfl⟩
  cases e with
  | initMessageReceived =>
    cases h
    exact ⟨hsame _ _, .inl ⟨rfl, .inl rfl⟩⟩
  | lastMessageReceived =>
    simp only [interrupted] at h
    split at h
    · obtain ⟨statistic, _, h⟩ := bind_ok.mp h
      cases h
      exact ⟨hsame _ _, .inr ⟨_, rfl, by simp⟩⟩
    · cases h
      exact ⟨hsame _ _, .inl ⟨rfl, .inr (.inl rfl)⟩⟩
  | eagain =>
    cases h
    exact ⟨hsame _ _, .inl ⟨rfl, .inr (.inr rfl)⟩⟩
  | _ =>
    cases h
    exact ⟨hsame _ _, .inr ⟨_, rfl, fun e' h => (Except.error.inj h).symm⟩⟩

theorem reaped_ok {completed : Nat} {s s' : UringLoop} (h : s.reaped completed = .ok s') :
    completed ≤ s.amountInflight ∧
      s' = { s with amountInflight := s.amountInflight - completed, phase := .fill } := by
  obtain ⟨n, hn, h⟩ := bind_ok.mp h
  cases h
  unfold checkedSub at hn
  split at hn
  · rename_i hle
    cases hn
    exact ⟨hle, rfl⟩
  · cases hn

theorem post_ring {s : UringLoop} (hmode : s.uring.uringMode ≠ .multishot) (c : Cqe) :
    (s.post c).ring =
      { s.ring with live := s.ring.live.erase c.userData, cq := s.ring.cq ++ [c] } := by
  simp [post, hmode]

section
variable {build : Build} {s s' : UringLoop}

theorem step_fill {clock : Clock} {room : Nat} (h : s.step build (.fill clock room) = .ok s') :
    s.phase = .fill ∧ s.ring.sq.length + room ≤ s.ring.sqCapacity ∧
      s.fill build clock room = .ok s' := by
  simp only [step] at h
  split at h
  · rename_i hphase
    split at h
    · rename_i hroom
      exact ⟨hphase, hroom, lift_ok.mp h⟩
    · cases h
  · cases h

theorem step_take {n : Nat} (h : s.step build (.take n) = .ok s') :
    n ≤ s.ring.sq.length ∧ s' = { s with ring := s.ring.take n } := by
  simp only [step] at h
  split at h
  · rename_i hn
    cases h
    exact ⟨hn, rfl⟩
  · cases h

theorem step_post {c : Cqe} (h : s.step build (.post c) = .ok s') :
    c.userData ∈ s.ring.live ∧ s.ring.cq.length < s.ring.cqCapacity ∧ s' = s.post c := by
  simp only [step] at h
  split at h
  · rename_i hc
    cases h
    exact ⟨hc.1, hc.2, rfl⟩
  · cases h

theorem step_enter {result : EnterResult} {clock : Clock}
    (h : s.step build (.enter result clock) = .ok s') :
    ∃ n, s.phase = .enter n ∧ s.enter build result clock n = .ok s' := by
  simp only [step] at h
  split at h
  · rename_i n hphase
    exact ⟨n, hphase, lift_ok.mp h⟩
  · cases h

theorem step_complete {clock : Nat → Clock} (h : s.step build (.complete clock) = .ok s') :
    s.phase = .complete ∧ s.complete build clock = .ok s' := by
  simp only [step] at h
  split at h
  · rename_i hphase
    exact ⟨hphase, lift_ok.mp h⟩
  · cases h

/-- A loop that has returned does not start again. -/
theorem Going.back {e : UringEvent} (h : s.step build e = .ok s') (hg : s'.Going) : s.Going := by
  intro result hresult
  cases e with
  | fill clock room =>
    obtain ⟨hphase, _⟩ := step_fill h
    cases hphase.symm.trans hresult
  | take n =>
    obtain ⟨_, rfl⟩ := step_take h
    exact hg result hresult
  | post c =>
    obtain ⟨_, _, rfl⟩ := step_post h
    exact hg result hresult
  | enter r clock =>
    obtain ⟨n, hphase, _⟩ := step_enter h
    cases hphase.symm.trans hresult
  | complete clock =>
    obtain ⟨hphase, _⟩ := step_complete h
    cases hphase.symm.trans hresult

end

end UringLoop
end Nperf
