import Nperf.Proofs.SendLoop

namespace Nperf
open Rust Runs

/-- A data completion reports bytes that were sent, or EAGAIN. -/
def SenderEvent.Sends : SenderEvent → Prop
  | .post c => c.notif = false → 0 < c.result ∨ c.result = -11
  | _ => True

instance : ∀ e : SenderEvent, Decidable e.Sends
  | .post c => inferInstanceAs (Decidable (c.notif = false → 0 < c.result ∨ c.result = -11))
  | .fill .. | .take _ | .enter _ | .complete => inferInstanceAs (Decidable True)

namespace SenderLoop
variable {p : Parameter} {testId : Nat} {s s' : SenderLoop}

/-- Requests that are pushed while the packet counter has not moved on. -/
def pending (s : SenderLoop) : Nat :=
  match s.phase with
  | .enter n => n
  | _ => 0

/-- The loop has not returned an error. -/
def Unfailed (s : SenderLoop) : Prop := ∀ e, s.phase ≠ .returned (.error e)

theorem Unfailed.of_phase {phase : Phase} (h : s.phase = phase)
    (hne : ∀ e, phase ≠ .returned (.error e)) : s.Unfailed := by
  subst h
  exact hne

/-- Every id is in one pushed message, and accounted for once. -/
structure Booked (p : Parameter) (s : SenderLoop) : Prop where
  ids : s.pushed.flatMap (fun q => q.pushed.slotIds p) =
    List.range (s.sender.nextPacketId + s.pending * p.slots)
  accounted : (s.sender.nextPacketId : Int) + s.pending * p.slots =
    s.accounted + p.slots * s.ring.awaiting.length

/-- `Booked` with what it rests on. -/
structure Stamped (p : Parameter) (testId : Nat) (s : SenderLoop) : Prop where
  slotted : s.sender.packetBuffer.Slotted p testId
  parameter : s.sender.parameter = p
  nextPacketId : s.sender.nextPacketId ≤ 2 ^ 64
  plain : s.zerocopy = false → s.ring.notifying = [] ∧ ∀ c ∈ s.ring.cq, c.notif = false
  counts : ∀ c ∈ s.ring.cq, c.Counts
  booked : s.Unfailed → s.Booked p

theorem zerocopy_eq (h : s.sender.parameter = s'.sender.parameter) :
    s.zerocopy = s'.zerocopy := by
  unfold zerocopy uring
  rw [h]

/-- Both ways to submit leave consecutive ids in the messages they push. -/
theorem submitRequests_ids {toSubmit room : Nat} {result : Except Error Unit}
    {requests : List SendRequest} {b : PacketBuffer} (hf : p.HeadersFit) (hd : 0 < p.datagramSize)
    (hs : s.sender.packetBuffer.Slotted p testId) (hid : s.sender.nextPacketId ≤ 2 ^ 64)
    (h : s.submitRequests toSubmit room = .ok (result, requests, b)) :
    b.Slotted p testId ∧ requests.flatMap (fun q => q.pushed.slotIds p) =
      List.range' s.sender.nextPacketId (requests.length * p.slots) := by
  unfold submitRequests at h
  split at h
  · exact IoUringSend.submitZc_ids hf hd hs hid h
  · obtain ⟨⟨used, hstamp⟩, hlen, _, _, hpushed⟩ := IoUringSend.submit_ok h
    obtain ⟨hs', hids⟩ := addPacketIds_some hf hd hs hid hstamp
    have hfits : requests.length ≤ p.packetBufferSize := by
      have := congrArg List.length hpushed
      simp only [List.length_map, List.length_take, hs'.size] at this
      omega
    refine ⟨hs', ?_⟩
    rw [← hids _ hlen hfits, ← List.flatMap_map (f := SendRequest.pushed), hpushed,
      List.flatMap_map]

theorem Booked.kept {t : SenderLoop} (hk : s.Kept t) (hs : s.Booked p)
    (hpending : t.pending = s.pending) : t.Booked p := by
  refine ⟨?_, ?_⟩
  · rw [hk.pushed, hk.nextPacketId, hpending]
    exact hs.ids
  · rw [hk.ring, hk.nextPacketId, hk.accounted, hpending]
    exact hs.accounted

/-- What is pushed is pending until `io_uring_enter` returns. -/
theorem Booked.push {t : SenderLoop} {requests : List SendRequest} (hs : s.Booked p)
    (hzero : s.pending = 0)
    (hids : requests.flatMap (fun q => q.pushed.slotIds p) =
      List.range' s.sender.nextPacketId (requests.length * p.slots))
    (hnext : t.sender.nextPacketId = s.sender.nextPacketId) (hring : t.ring = s.ring.push requests)
    (hpushed : t.pushed = s.pushed ++ requests) (haccounted : t.accounted = s.accounted)
    (hpending : t.pending = requests.length) : t.Booked p := by
  have hold := hs.ids
  have hcount := hs.accounted
  rw [hzero] at hold hcount
  refine ⟨?_, ?_⟩
  · rw [hpushed, List.flatMap_append, hold, hids, hnext, hpending, List.range_eq_range',
      List.range_eq_range', Nat.zero_mul, Nat.add_zero]
    have happend := List.range'_append_1 (s := 0) (m := s.sender.nextPacketId)
      (n := requests.length * p.slots)
    rw [Nat.zero_add] at happend
    exact happend
  · rw [hnext, hpending, haccounted, hring, (s.ring.push_awaiting requests).length_eq,
      List.length_append, Int.natCast_add, Int.mul_add, Int.mul_comm (requests.length : Int)]
    omega

theorem Stamped.fill {time clock : Clock} {room : Nat} (hf : p.HeadersFit)
    (hd : 0 < p.datagramSize) (hs : s.Stamped p testId)
    (h : s.step (.fill time clock room) = .ok s') : s'.Stamped p testId := by
  obtain ⟨hphase, _, hfill⟩ := step_fill h
  have hzero : s.pending = 0 := by simp [pending, hphase]
  have hbooked := hs.booked (.of_phase hphase (by simp))
  rcases fill_ok hfill with ⟨result, rfl⟩ | ⟨_, t, hk, hsubmit⟩
  · refine ⟨hs.slotted, hs.parameter, hs.nextPacketId, hs.plain, hs.counts, fun _ => ?_⟩
    exact hbooked.kept (s.rephase_kept _) hzero.symm
  have ht : t.sender.parameter = p := hk.parameter.trans hs.parameter
  have hzc : t.zerocopy = s.zerocopy := zerocopy_eq hk.parameter
  have hslotted : t.sender.packetBuffer.Slotted p testId := hk.packetBuffer ▸ hs.slotted
  have hnext : t.sender.nextPacketId ≤ 2 ^ 64 := hk.nextPacketId ▸ hs.nextPacketId
  obtain ⟨n, m, _, ⟨_, rfl⟩ | ⟨result, requests, b, hrequests, hsender, hring, _, hpushed, hclosed,
    hphase'⟩⟩ := submit_ok hsubmit
  · refine ⟨hslotted, ht, hnext, ?_, ?_, fun _ => ?_⟩
    · exact fun hmode => hk.ring ▸ hs.plain (hzc.symm.trans hmode)
    · exact hk.ring ▸ hs.counts
    · exact hbooked.kept (hk.trans (t.rephase_kept _)) hzero.symm
  · obtain ⟨hb, hids⟩ := submitRequests_ids hf hd hslotted hnext hrequests
    refine ⟨by rw [hsender]; exact hb, by rw [hsender]; exact ht, by rw [hsender]; exact hnext,
      ?_, ?_, fun hgood => ?_⟩
    · intro hmode
      rw [hring]
      apply hk.ring ▸ hs.plain (hzc.symm.trans ?_)
      rw [← zerocopy_eq (s := s') (by rw [hsender])]
      exact hmode
    · rw [hring]
      exact hk.ring ▸ hs.counts
    · rcases hphase' with ⟨_, henter⟩ | ⟨e, hfailed⟩
      · refine hbooked.push hzero (hk.nextPacketId ▸ hids) ?_ ?_ ?_ ?_ ?_
        · rw [hsender]
          exact hk.nextPacketId
        · rw [hring, hk.ring]
        · rw [hpushed, hk.pushed]
        · rw [← hk.accounted]
          simp only [accounted, hclosed, hsender]
        · simp only [pending, henter]
      · exact absurd hfailed (hgood e)

theorem Stamped.take {n : Nat} (hs : s.Stamped p testId) (h : s.step (.take n) = .ok s') :
    s'.Stamped p testId := by
  obtain ⟨_, rfl⟩ := step_take h
  refine ⟨hs.slotted, hs.parameter, hs.nextPacketId, hs.plain, hs.counts, fun hgood => ?_⟩
  have hbooked := hs.booked hgood
  refine ⟨hbooked.ids, ?_⟩
  rw [(s.ring.take_awaiting n).length_eq]
  exact hbooked.accounted

theorem Stamped.post {c : SendCqe} (hsends : SenderEvent.Sends (.post c))
    (hs : s.Stamped p testId) (h : s.step (.post c) = .ok s') : s'.Stamped p testId := by
  obtain ⟨hposts, _, rfl⟩ := step_post h
  have hcq := SendRing.post_cq s.ring c
  have hawaiting := (SendRing.post_awaiting hposts).length_eq
  unfold SendRing.Posts at hposts
  refine ⟨hs.slotted, hs.parameter, hs.nextPacketId, ?_, ?_, fun hgood => ?_⟩
  · intro hmode
    have hmode' : s.zerocopy = false := hmode
    obtain ⟨hnone, hold⟩ := hs.plain hmode'
    have hdata : c.notif = false := by
      cases hn : c.notif with
      | false => rfl
      | true => simp [hn, hnone] at hposts
    rw [hcq]
    simp only [hdata, Bool.false_eq_true, ↓reduceIte, hmode', imp_false] at hposts
    refine ⟨?_, ?_⟩
    · simp [SendRing.post_data hdata, hposts.2, hnone]
    · exact List.forall_mem_append.mpr ⟨hold, by simpa using hdata⟩
  · rw [hcq]
    refine List.forall_mem_append.mpr ⟨hs.counts, ?_⟩
    rintro _ (_ | ⟨_, ⟨⟩⟩)
    unfold SendCqe.Counts
    split
    · rename_i hn
      simp only [hn, ↓reduceIte] at hposts
      exact hposts.2.2
    · rename_i hn
      exact hsends (Bool.eq_false_iff.mpr hn)
  · have hbooked := hs.booked hgood
    refine ⟨hbooked.ids, ?_⟩
    rw [hawaiting]
    exact hbooked.accounted

theorem Stamped.enter {result : EnterResult} (hs : s.Stamped p testId)
    (h : s.step (.enter result) = .ok s') : s'.Stamped p testId := by
  obtain ⟨n, hphase, h⟩ := step_enter h
  have hbooked := hs.booked (.of_phase hphase (by simp))
  have hpending : s.pending = n := by simp only [pending, hphase]
  have hzerocopy : s'.sender.parameter = s.sender.parameter → s'.zerocopy = s.zerocopy :=
    zerocopy_eq
  obtain ⟨hring, hpushed, hclosed, ⟨hfailed, hsender⟩ |
    ⟨hphase', next, hsender, hnext, hbound⟩⟩ := enter_ok h
  · refine ⟨hsender ▸ hs.slotted, hsender ▸ hs.parameter, hsender ▸ hs.nextPacketId, ?_,
      hring ▸ hs.counts, fun hgood => absurd hfailed (hgood _)⟩
    rw [hzerocopy (by rw [hsender]), hring]
    exact hs.plain
  · have hzero : s'.pending = 0 := by simp only [pending, hphase']
    rw [hs.slotted.packets] at hnext
    refine ⟨by rw [hsender]; exact hs.slotted, by rw [hsender]; exact hs.parameter,
      by rw [hsender]; exact hbound, ?_, hring ▸ hs.counts, fun _ => ⟨?_, ?_⟩⟩
    · rw [hzerocopy (by rw [hsender]), hring]
      exact hs.plain
    · rw [hpushed, hbooked.ids, hzero, hpending, hsender, Nat.zero_mul, Nat.add_zero, hnext]
    · have haccounted : s'.accounted = s.accounted := by
        simp only [accounted, hclosed, hsender]
      have hcount := hbooked.accounted
      rw [hpending] at hcount
      rw [hring, haccounted, ← hcount, hsender, hzero, hnext]
      simp

theorem Stamped.complete (hs : s.Stamped p testId) (h : s.step .complete = .ok s') :
    s'.Stamped p testId := by
  obtain ⟨hphase, h⟩ := step_complete h
  have hbooked := hs.booked (.of_phase hphase (by simp))
  have hpending : s.pending = 0 := by simp only [pending, hphase]
  obtain ⟨hk, hpushed, hclosed, front, rest, hcq, hring, hcases⟩ := complete_ok h
  obtain ⟨hfill, haccounted⟩ := complete_counts h hs.counts (fun hmode => (hs.plain hmode).2)
  have hpending' : s'.pending = 0 := by simp only [pending, hfill]
  rcases hcases with ⟨_, rfl⟩ | ⟨e, hfailed⟩
  · refine ⟨hk.slotted hs.slotted, hk.parameter.trans hs.parameter,
      by rw [hk.nextPacketId]; exact hs.nextPacketId, ?_, by rw [hring]; simp, fun _ => ⟨?_, ?_⟩⟩
    · rw [zerocopy_eq hk.parameter, hring]
      exact fun hmode => ⟨(hs.plain hmode).1, by simp⟩
    · rw [hpushed, hk.nextPacketId, hpending', ← hpending]
      exact hbooked.ids
    · have hcount := hbooked.accounted
      simp only [hpending, SendRing.awaiting, List.length_append, List.length_map] at hcount
      rw [hk.nextPacketId, hpending', haccounted, hring, hs.slotted.packets]
      simp only [SendRing.awaiting, List.filter_nil, List.map_nil, List.append_nil,
        List.length_append]
      rw [hcount, Int.natCast_add, Int.natCast_add, Int.mul_add]
      omega
  · cases hfill.symm.trans hfailed

theorem Stamped.step {e : SenderEvent} (hf : p.HeadersFit) (hd : 0 < p.datagramSize)
    (hsends : e.Sends) (hs : s.Stamped p testId) (h : s.step e = .ok s') :
    s'.Stamped p testId := by
  cases e with
  | fill time clock room => exact hs.fill hf hd h
  | take n => exact hs.take h
  | post c => exact hs.post hsends h
  | enter result => exact hs.enter h
  | complete => exact hs.complete h

theorem Stamped.start {clock : Clock} {sd : Sender} (clock' : Clock) (startTime : Timestamp)
    (ht : testId < 2 ^ 64) (hnew : Sender.new clock testId p = .ok sd) :
    (start clock' startTime sd).Stamped p testId ∧ p.HeadersFit ∧ 0 < p.datagramSize := by
  obtain ⟨hslotted, hf, hd, _, hnext, _⟩ := Sender.new_ok ht hnew
  simp only [Sender.new, bind_ok] at hnew
  obtain ⟨b, _, hnew⟩ := hnew
  cases hnew
  refine ⟨⟨hslotted, rfl, Nat.zero_le _, fun _ => ⟨rfl, ?_⟩, ?_, fun _ => ⟨?_, ?_⟩⟩, hf, hd⟩
  · simp [SenderLoop.start, SendRing.create]
  · simp [SenderLoop.start, SendRing.create]
  · simp [SenderLoop.start, pending]
  · simp [SenderLoop.start, pending, accounted, Statistic.accounted, Statistic.new,
      SendRing.create, SendRing.awaiting]

end SenderLoop

/-- The messages that the `io_uring` loop pushes have the packet ids below its
counter, and each id is sent, omitted or still awaited. -/
theorem uring_sends_accounted (clock clock' : Clock) (testId : Nat) (ht : testId < 2 ^ 64)
    (p : Parameter) (sd : Sender) (hnew : Sender.new clock testId p = .ok sd)
    (startTime : Timestamp) (events : List SenderEvent) (hsends : ∀ e ∈ events, e.Sends)
    (s : SenderLoop) (hrun : run SenderLoop.step (.start clock' startTime sd) events = .ok s)
    (hgood : ∀ e, s.phase ≠ .returned (.error e)) : s.Booked p := by
  obtain ⟨hs, hf, hd⟩ := SenderLoop.Stamped.start clock' startTime ht hnew
  have := run_invariant_of SenderEvent.Sends
    (fun _ _ _ hsends hs h => hs.step hf hd hsends h) hsends hs hrun
  exact this.booked hgood

/-- A sender with the smallest ring. -/
def NPerf.oneSend (mode : UringMode) : NPerf := { NPerf.oneEntry mode with mode := .sender }

def Parameter.oneSend (mode : UringMode) : Parameter :=
  { Parameter.oneEntry mode with mode := .sender, packetBufferSize := 4 }

/-- A request of this sender for test 7: one packet in a buffer. -/
def SendRequest.packet (buffer userData packetId : Nat) : SendRequest :=
  { buffer := buffer
    userData := userData
    pushed := WrapperMsghdr.createMsghdr (MessageHeader.serialize ⟨.measurement, 7, packetId⟩) }

/-- The first message is sent without a copy. While its notification is
outstanding the socket refuses the second one. -/
theorem uring_sends_accounted_refused :
    let sd := (Sender.new ⟨0, 0⟩ 7 (.oneSend .zerocopy)).toOption.get (by decide)
    let first : SendRequest := .packet 3 3 0
    let second : SendRequest := .packet 2 2 1
    let events : List SenderEvent :=
      [.fill ⟨0, 0⟩ ⟨0, 0⟩ 1, .take 1, .enter .submitted, .post ⟨first, 24, 2⟩, .complete,
        .fill ⟨0, 0⟩ ⟨0, 0⟩ 1, .take 1, .enter .submitted, .post ⟨second, -11, 0⟩,
        .post ⟨first, 0, 8⟩, .complete]
    ∃ s, run SenderLoop.step (.start ⟨0, 0⟩ 0 sd) events = .ok s ∧
      s.sender.nextPacketId = 2 ∧ s.ring.awaiting = [] ∧ s.Booked (.oneSend .zerocopy) := by
  intro sd first second events
  obtain ⟨s, hrun, hphase, hnext, hawaiting⟩ := checked
    (x := run SenderLoop.step (.start ⟨0, 0⟩ 0 sd) events)
    (p := fun s => s.phase = .fill ∧ s.sender.nextPacketId = 2 ∧ s.ring.awaiting = [])
    (by decide +kernel)
  refine ⟨s, hrun, hnext, hawaiting, ?_⟩
  exact uring_sends_accounted ⟨0, 0⟩ ⟨0, 0⟩ 7 (by decide) (.oneSend .zerocopy) sd rfl 0 events
    (by decide +kernel) s hrun (fun e he => by cases hphase.symm.trans he)

end Nperf
