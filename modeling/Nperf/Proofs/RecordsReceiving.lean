import Nperf.Model.Fleet
import Nperf.Proofs.Records
import Nperf.Proofs.Totals

namespace Nperf
open Rust Bytes Runs

section
variable {p : Parameter} {build : Build} {clock : Clock} {result : Except Error Unit}

/-- A header leaves the statistics of the measurements what they are. -/
theorem parseMessageType_of {mtype : MessageType} {testId : Nat} {ms ms' : List Measurement}
    (hms : ∀ m ∈ ms, m.statistic.Of p)
    (h : Receiver.parseMessageType clock mtype testId ms p = .ok (result, ms')) :
    ∀ m ∈ ms', m.statistic.Of p := by
  rcases parseMessageType_hear h with ⟨_, _, rfl⟩ | ⟨_, _, rfl⟩
  · exact hms
  · have hgrown : ∀ m ∈ growMeasurements clock ms testId p, m.statistic.Of p := by
      intro m hm
      unfold growMeasurements at hm
      split at hm
      · rcases List.mem_append.mp hm with hm | hm
        · exact hms m hm
        · rw [(List.mem_replicate.mp hm).2]
          exact .new clock p
      · exact hms m hm
    obtain ⟨m₀, hm₀⟩ := growMeasurements_getElem clock ms testId p
    rw [Lists.modify_eq_set hm₀]
    intro m hm
    rcases List.mem_or_eq_of_mem_set hm with hm | rfl
    · exact hgrown m hm
    · exact (hgrown m₀ (List.mem_of_getElem? hm₀)).same (m₀.hear_sameRing clock mtype)

end

theorem processMmsghdrs_sameRing {build : Build} {r : Receiver} {xs ys : List Mmsghdr}
    {next received : Nat} {s : Statistic} {acc : Nat × Nat × Statistic}
    (h : Receiver.processMmsghdrs build r xs (next, received, s) = .ok (ys, acc)) :
    s.SameRing acc.2.2 := by
  induction xs generalizing next received s ys acc with
  | nil =>
    cases h
    exact .refl s
  | cons x xs ih =>
    simp only [Receiver.processMmsghdrs, bind_ok] at h
    obtain ⟨v, hv, ⟨rest, acc'⟩, hrest, h⟩ := h
    cases h
    exact (processPacketMsghdr_sameRing hv).trans (ih hrest)

theorem processPacketBuffer_sameRing {build : Build} {buffer : Slice} {size next : Nat}
    {s : Statistic} {acc : Nat × Statistic}
    (h : processPacketBuffer build buffer size next s = .ok acc) : s.SameRing acc.2 := by
  simp only [processPacketBuffer, bind_ok] at h
  obtain ⟨packets, _, h⟩ := h
  refine Lists.foldlM_ok (fun acc : Nat × Statistic => s.SameRing acc.2) (.refl s) ?_ h
  intro acc packet acc' hacc hround
  simp only [processPacket, bind_ok] at hround
  obtain ⟨⟨n, t⟩, ⟨id, _, hn⟩, amount, _, hround⟩ := hround
  cases hround
  exact hacc.trans (processPacketNumber_sameRing hn)

namespace Receiver
variable {p : Parameter} {build : Build} {clock : Clock} {r r' : Receiver}
  {result : Except Error Unit}

/-- The statistics of a receiver are of its parameter set. -/
structure Registers (p : Parameter) (r : Receiver) : Prop where
  parameter : r.parameter = p
  measurements : ∀ m ∈ r.measurements, m.statistic.Of p
  interval : r.statisticInterval.Recorded p

theorem Registers.of_eq (h : r.Registers p) (hparameter : r'.parameter = r.parameter)
    (hms : r'.measurements = r.measurements)
    (hinterval : r'.statisticInterval = r.statisticInterval) : r'.Registers p :=
  ⟨hparameter.trans h.parameter, hms ▸ h.measurements, hinterval ▸ h.interval⟩

theorem Registers.new (h : Receiver.new clock p = .ok r) : r.Registers p := by
  obtain ⟨_, _, h⟩ := bind_ok.mp h
  cases h
  exact ⟨rfl, fun _ hm => absurd hm List.not_mem_nil, .new clock p⟩

theorem Registers.started (hr : r.Registers p) (clock : Clock) :
    (r.startInterval clock).Registers p :=
  ⟨hr.parameter, hr.measurements, hr.interval.quota, hr.interval.amount, hr.interval.next,
    hr.interval.within, hr.interval.of, hr.interval.ids⟩

theorem Registers.handled {h : Msghdr} {Packets : Statistic → Statistic → PacketBuffer → Prop}
    (hr : r.Registers p) (hhandled : r.Handled clock h Packets result r')
    (hpackets : ∀ s s' b, Packets s s' b → s.SameRing s') : r'.Registers p := by
  have hms := hr.measurements
  cases hhandled with
  | stopped _ parsed =>
    rw [hr.parameter] at parsed
    exact ⟨hr.parameter, parseMessageType_of hms parsed, hr.interval⟩
  | @counted testId _ ms m statistic _ _ datagrams bytes _ parsed entry packets =>
    rw [hr.parameter] at parsed
    have hparsed := parseMessageType_of hms parsed
    refine ⟨hr.parameter, fun m' hm' => ?_, hr.interval⟩
    rcases List.mem_or_eq_of_mem_set hm' with hm' | rfl
    · exact hparsed m' hm'
    · have hm := hparsed m (List.mem_of_getElem? (measurement_eq entry))
      exact hm.same ((hpackets _ _ _ packets).trans ⟨rfl, rfl, rfl, rfl, rfl⟩)

theorem Registers.received (hr : r.Registers p) {fill : Msghdr → Delivery → Msghdr}
    {socket : Except Error Delivery}
    {Packets : Msghdr → Delivery → Statistic → Statistic → PacketBuffer → Prop}
    (hreceived : r.Received clock fill Packets socket result r')
    (hpackets : ∀ h d s s' b, Packets h d s s' b → s.SameRing s') : r'.Registers p := by
  cases hreceived with
  | failed e => exact hr
  | @handled h d _ _ _ goes =>
    refine Registers.handled ?_ goes (hpackets h d)
    exact hr.of_eq rfl rfl rfl

theorem Registers.recvmmsg (hr : r.Registers p) {socket : Except Error (List Delivery)}
    (h : r.recvmmsg build clock socket = .ok (result, r')) : r'.Registers p := by
  cases recvmmsg_cases h with
  | failed e => exact hr
  | nothing => exact hr.of_eq rfl rfl rfl
  | handled _ _ goes =>
    refine Registers.handled ?_ goes ?_
    · exact hr.of_eq rfl rfl rfl
    · intro s s' b hp
      obtain ⟨t, processed, next, datagrams, _, hp, _⟩ := hp
      exact processMmsghdrs_sameRing hp

theorem Registers.recvMessages (hr : r.Registers p) {socket : Socket}
    (h : r.recvMessages build clock socket = .ok (result, r')) : r'.Registers p := by
  have hprepared : r.prepareMsghdrs.Registers p := by
    unfold prepareMsghdrs
    split
    · exact hr.of_eq rfl rfl rfl
    · exact hr
  unfold Receiver.recvMessages at h
  split at h
  · apply hprepared.received (recv_cases h)
    intro h d s s' b hp
    obtain ⟨_, buffer, datagrams, hp⟩ := hp
    exact processPacketBuffer_sameRing hp
  · apply hprepared.received (recvmsg_cases h)
    intro h d s s' b hp
    obtain ⟨_, next, datagrams, hp⟩ := hp
    exact processPacketMsghdr_sameRing hp
  · exact hprepared.recvmmsg h

theorem Registers.handleRecvmsgReturn (hr : r.Registers p) {amount : Int} {given : Option Msghdr}
    {index : Nat} (h : r.handleRecvmsgReturn build clock amount given index = .ok (result, r')) :
    r'.Registers p := by
  obtain ⟨hdr, _, goes⟩ := handleRecvmsgReturn_cases h
  apply hr.handled goes
  intro s s' b hp
  obtain ⟨processed, amount, next, datagrams, _, hp, _⟩ := hp
  exact processPacketMsghdr_sameRing hp

theorem Registers.completeProvidedBuffers (hr : r.Registers p) {clock : Nat → Clock}
    {statistic statistic' : Statistic} {cq rest : List Cqe} {result : Except Error Nat}
    (hs : statistic.Of p) (h : r.ioUringCompleteProvidedBuffers build clock statistic cq =
      .ok (result, r', statistic', rest)) : r'.Registers p ∧ statistic'.Of p :=
  ioUringCompleteProvidedBuffers_keeps (P := Receiver.Registers p) (Q := Statistic.Of p)
    (fun _ _ _ _ _ _ _ hr h => hr.handleRecvmsgReturn h)
    (fun _ hs => ⟨hs.parameter, hs.sq, hs.cq, hs.inflight⟩) hr hs h

theorem Registers.resetStatistics (hr : r.Registers p) (clock : Clock) :
    (r.resetStatistics clock).Registers p := by
  refine ⟨hr.parameter, ?_, hr.interval⟩
  intro m hm
  obtain ⟨m', _, rfl⟩ := List.mem_map.mp hm
  exact hr.parameter ▸ .new clock _

/-- An interval that is closed is recorded. -/
theorem Registers.record (hr : r.Registers p) (clock : Clock) {sum : Statistic}
    (hsum : sum.Of p) : Registers p { r.resetStatistics clock with
      statisticInterval := r.statisticInterval.calculateInterval clock sum } := by
  have hreset := hr.resetStatistics clock
  exact ⟨hreset.parameter, hreset.measurements, hr.interval.calculateInterval clock hsum⟩

theorem Registers.closeInterval (hr : r.Registers p) {s s' : Statistic} (hs : s.Of p)
    (h : r.closeInterval build clock s = .ok (r', s')) : r'.Registers p ∧ s'.Of p := by
  unfold Receiver.closeInterval at h
  split at h
  · obtain ⟨sum, hsum, h⟩ := bind_ok.mp h
    cases h
    exact ⟨hr.record clock (hs.total hsum), hr.parameter ▸ .new clock _⟩
  · cases h
    exact ⟨hr, hs⟩

theorem Registers.sumStatistics (hr : r.Registers p) {s final : Statistic} (hs : s.Of p)
    (h : r.sumStatistics build clock s = .ok final) :
    (ThreadResult.finished (final.setTestDuration none none) r.statisticInterval.statistics).Sound
      p := by
  unfold Receiver.sumStatistics at h
  split at h
  · rename_i hempty
    obtain ⟨sum, hsum, h⟩ := bind_ok.mp h
    cases h
    have hof := hs.total hsum
    refine .single ?_ (List.isEmpty_iff.mp hempty)
    exact ⟨hof.parameter, hof.sq, hof.cq, hof.inflight⟩
  · rw [hr.parameter] at h
    exact hr.interval.total h

end Receiver

namespace UringLoop
variable {p : Parameter} {build : Build} {s s' : UringLoop}

structure Registers (p : Parameter) (s : UringLoop) : Prop where
  receiver : s.receiver.Registers p
  statistic : s.statistic.Of p
  ring : s.ringStatistic.Of p

theorem Registers.closeInterval (hs : s.Registers p) {clock : Clock}
    (h : s.closeInterval build clock = .ok s') : s'.Registers p := by
  unfold UringLoop.closeInterval at h
  split at h
  · simp only [bind_ok] at h
    obtain ⟨sum, hsum, sum', hsum', h⟩ := h
    cases h
    have hparameter : (s.receiver.resetStatistics clock).parameter = p := hs.receiver.parameter
    refine ⟨hs.receiver.record clock ((hs.statistic.total hsum).accumulate hsum'), ?_, ?_⟩
    · exact hparameter ▸ .new clock _
    · exact hparameter ▸ .new clock _
  · cases h
    exact hs

theorem Registers.pushed (hs : s.Registers p) {requests : List Nat}
    (h : s.pushed requests = .ok s') : s'.Registers p := by
  obtain ⟨ringStatistic, hrecord, h⟩ := bind_ok.mp h
  cases h
  exact ⟨hs.receiver, hs.statistic, hs.ring.recordSq hrecord⟩

theorem Registers.fillNormal (hs : s.Registers p) {room n : Nat}
    (h : s.fillNormal room n = .ok s') : s'.Registers p := by
  unfold UringLoop.fillNormal at h
  split at h
  · cases h
    exact ⟨hs.receiver, hs.statistic, hs.ring⟩
  · rename_i requests b _
    refine Registers.pushed (s := { s with
      receiver := { s.receiver with packetBuffer := b } }) ?_ h
    exact ⟨hs.receiver.of_eq rfl rfl rfl, hs.statistic, hs.ring⟩

theorem Registers.fillCounted (hs : s.Registers p) {clock : Clock}
    {submit : Nat → UringLoop → Except Fault UringLoop} {inflight : UringLoop → Nat}
    (hsubmit : ∀ n t t', t.Registers p → submit n t = .ok t' → t'.Registers p)
    (h : s.fillCounted build clock submit inflight = .ok s') : s'.Registers p := by
  simp only [UringLoop.fillCounted, bind_ok] at h
  obtain ⟨statistic, hrecord, t, ht, ⟨toSubmit, minComplete⟩, _, h⟩ := h
  have hsame := (Statistic.sameRing_recordInflight hrecord).trans
    (u := statistic.countIoModelCall) ⟨rfl, rfl, rfl, rfl, rfl⟩
  have hclosed : t.Registers p := by
    refine Registers.closeInterval ?_ ht
    exact ⟨hs.receiver, hs.statistic.same hsame, hs.ring⟩
  simp only at h
  split at h
  · cases h
    exact ⟨hclosed.receiver, hclosed.statistic, hclosed.ring⟩
  · exact hsubmit toSubmit t s' hclosed h

theorem Registers.fill (hs : s.Registers p) {clock : Clock} {room : Nat}
    (h : s.fill build clock room = .ok s') : s'.Registers p := by
  unfold UringLoop.fill at h
  split at h
  · have hcall : Registers p { s with statistic := s.statistic.countIoModelCall } :=
      ⟨hs.receiver, hs.statistic.same ⟨rfl, rfl, rfl, rfl, rfl⟩, hs.ring⟩
    simp only [fillMultishot] at h
    split at h
    · cases h
      exact ⟨hcall.receiver, hcall.statistic, hcall.ring⟩
    · split at h
      · cases h
        exact ⟨hcall.receiver, hcall.statistic, hcall.ring⟩
      · exact hcall.pushed h
  · exact hs.fillCounted (fun _ _ _ ht h => ht.pushed h) h
  · exact hs.fillCounted (fun _ _ _ ht h => ht.fillNormal h) h
  · cases h
    exact ⟨hs.receiver, hs.statistic, hs.ring⟩

theorem Registers.enter (hs : s.Registers p) {result : EnterResult} {clock : Clock} {n : Nat}
    (h : s.enter build result clock n = .ok s') : s'.Registers p := by
  unfold UringLoop.enter at h
  split at h
  · cases h
    exact ⟨hs.receiver, hs.statistic, hs.ring⟩
  · obtain ⟨ringStatistic, hrecord, h⟩ := bind_ok.mp h
    have hring : ringStatistic.Of p := by
      refine Statistic.Of.recordCq ?_ hrecord
      have hof := hs.ring
      exact ⟨hof.parameter, hof.sq, hof.cq, hof.inflight⟩
    simp only at h
    split at h
    · exact Registers.closeInterval (s := { s with
        ringStatistic := ringStatistic, phase := .complete }) ⟨hs.receiver, hs.statistic, hring⟩ h
    · cases h
      exact ⟨hs.receiver, hs.statistic, hring⟩

theorem Registers.interrupted (hs : s.Registers p) {e : Error}
    (h : s.interrupted build e = .ok s') : s'.Registers p := by
  cases e with
  | lastMessageReceived =>
    simp only [UringLoop.interrupted] at h
    split at h
    · obtain ⟨statistic, hadd, h⟩ := bind_ok.mp h
      cases h
      exact ⟨hs.receiver, hs.statistic.accumulate hadd, hs.ring⟩
    · cases h
      exact ⟨hs.receiver, hs.statistic, hs.ring⟩
  | eagain =>
    cases h
    exact ⟨hs.receiver, hs.statistic.same ⟨rfl, rfl, rfl, rfl, rfl⟩, hs.ring⟩
  | _ =>
    cases h
    exact ⟨hs.receiver, hs.statistic, hs.ring⟩

theorem Registers.handled (hs : s.Registers p) {result : Except Error Nat}
    (h : (match result with
      | .ok completed => s.reaped completed
      | .error e => s.interrupted build e) = .ok s') : s'.Registers p := by
  cases result with
  | ok completed =>
    obtain ⟨_, rfl⟩ := reaped_ok h
    exact ⟨hs.receiver, hs.statistic, hs.ring⟩
  | error e => exact hs.interrupted h

theorem Registers.complete (hs : s.Registers p) {clock : Nat → Clock}
    (h : s.complete build clock = .ok s') : s'.Registers p := by
  unfold UringLoop.complete at h
  split at h
  · obtain ⟨⟨result, r, cq⟩, hr, h⟩ := bind_ok.mp h
    have hreceiver : r.Registers p :=
      Receiver.ioUringCompleteMultishot_keeps (P := Receiver.Registers p)
        (fun _ _ _ _ _ _ _ hr h => hr.handleRecvmsgReturn h) hs.receiver hr
    cases result with
    | ok armed =>
      cases h
      refine ⟨hreceiver, ?_, hs.ring⟩
      cases armed with
      | true => exact hs.statistic
      | false => exact hs.statistic.same ⟨rfl, rfl, rfl, rfl, rfl⟩
    | error e =>
      exact Registers.interrupted (s := { s with
        receiver := r, ring := { s.ring with cq := cq } }) ⟨hreceiver, hs.statistic, hs.ring⟩ h
  · obtain ⟨⟨result, r, statistic, cq⟩, hr, h⟩ := bind_ok.mp h
    obtain ⟨hreceiver, hstatistic⟩ := hs.receiver.completeProvidedBuffers hs.statistic hr
    exact Registers.handled (s := { s with
      receiver := r, statistic := statistic, ring := { s.ring with cq := cq } })
      ⟨hreceiver, hstatistic, hs.ring⟩ h
  · obtain ⟨⟨result, r, cq⟩, hr, h⟩ := bind_ok.mp h
    have hreceiver : r.Registers p :=
      Receiver.ioUringCompleteNormal_keeps (P := Receiver.Registers p)
        (fun _ _ _ _ _ _ _ hr h => hr.handleRecvmsgReturn h)
        (fun _ _ hr => hr.of_eq rfl rfl rfl) hs.receiver hr
    exact Registers.handled (s := { s with receiver := r, ring := { s.ring with cq := cq } })
      ⟨hreceiver, hs.statistic, hs.ring⟩ h
  · cases h
    exact ⟨hs.receiver, hs.statistic, hs.ring⟩

theorem Registers.step (hs : s.Registers p) {e : UringEvent} (h : s.step build e = .ok s') :
    s'.Registers p := by
  cases e with
  | fill clock room => exact hs.fill (step_fill h).2.2
  | take n =>
    obtain ⟨_, rfl⟩ := step_take h
    exact ⟨hs.receiver, hs.statistic, hs.ring⟩
  | post c =>
    obtain ⟨_, _, rfl⟩ := step_post h
    exact ⟨hs.receiver.of_eq rfl rfl rfl, hs.statistic, hs.ring⟩
  | enter result clock =>
    obtain ⟨n, _, h⟩ := step_enter h
    exact hs.enter h
  | complete clock => exact hs.complete (step_complete h).2

end UringLoop

namespace ReceiverRun
variable {p : Parameter} {build : Build} {s s' : ReceiverRun}

/-- The statistics that the loops themselves keep. -/
def Holds (p : Parameter) : ReceiverRun → Prop
  | .looping _ s | .receiving _ s | .waiting _ s | .closing _ s => s.Of p
  | .uring s => s.Registers p
  | .polling _ | .returned _ _ => True

structure Registers (p : Parameter) (s : ReceiverRun) : Prop where
  receiver : s.receiver.Registers p
  holds : s.Holds p
  joined : ∀ result ∈ s.joined, result.Sound p

theorem Registers.of_running (hs : s.receiver.Registers p) (hholds : s.Holds p)
    (hnone : s.joined = none) : s.Registers p :=
  ⟨hs, hholds, by simp [hnone]⟩

theorem Registers.of_failed {r : Receiver} (hr : r.Registers p) (e : Error) :
    (returned r (.error e)).Registers p := by
  refine ⟨hr, trivial, ?_⟩
  rintro result ⟨⟩
  exact .failed p

theorem Registers.start {r : Receiver} (hr : r.Registers p) (clock clock' : Clock)
    (result : WaitResult) (setup : Except Error Unit) :
    (start clock clock' result setup r).Registers p := by
  have hnew : (Statistic.new clock r.parameter).Of p := hr.parameter ▸ .new clock _
  have hstarted := hr.started clock'
  cases result with
  | failed => exact .of_failed hr _
  | timeout =>
    refine ⟨hr, trivial, ?_⟩
    rintro result ⟨⟩
    exact .single hnew rfl
  | ready =>
    simp only [ReceiverRun.start, socketPoll]
    split
    · exact .of_running hstarted ⟨hnew.parameter, hnew.sq, hnew.cq, hnew.inflight⟩ rfl
    · split
      · exact .of_failed hstarted _
      · cases setup with
        | error e => exact .of_failed hstarted e
        | ok u =>
          have hparameter : (r.startInterval clock').parameter = p := hr.parameter
          refine .of_running hstarted ⟨hstarted, ?_, ?_⟩ rfl
          · exact hparameter ▸ .new clock' _
          · exact hparameter ▸ .new clock' _

theorem Registers.received {r : Receiver} (hr : r.Registers p) {statistic : Statistic}
    (hs : statistic.Of p) (result : Except Error Unit) :
    (received r statistic result).Registers p := by
  cases result with
  | ok u => exact .of_running hr hs rfl
  | error e =>
    cases e with
    | eagain => exact .of_running hr ⟨hs.parameter, hs.sq, hs.cq, hs.inflight⟩ rfl
    | initMessageReceived => exact .of_running hr hs rfl
    | lastMessageReceived =>
      simp only [ReceiverRun.received]
      split
      · exact .of_running hr hs rfl
      · exact .of_running hr hs rfl
    | _ => exact .of_failed hr _

theorem Registers.waited {r : Receiver} (hr : r.Registers p) {statistic : Statistic}
    (hs : statistic.Of p) (result : Except Error Unit) :
    (waited r statistic result).Registers p := by
  cases result with
  | ok u => exact .of_running hr hs rfl
  | error e =>
    cases e with
    | timeout => exact .of_running hr hs rfl
    | _ => exact .of_failed hr _

theorem Registers.looped {l : UringLoop} (hl : l.Registers p) : (looped l).Registers p := by
  unfold ReceiverRun.looped
  split
  · exact .of_running hl.receiver hl.statistic rfl
  · exact .of_failed hl.receiver _
  · exact .of_running hl.receiver hl rfl

theorem Registers.finish {r : Receiver} (hr : r.Registers p) {statistic : Statistic}
    (hs : statistic.Of p) {clock : Clock} {closed : Bool}
    (h : finish build clock closed r statistic = .ok s') : s'.Registers p := by
  unfold ReceiverRun.finish at h
  split at h
  · cases h
    exact .of_failed hr _
  · obtain ⟨final, hfinal, h⟩ := bind_ok.mp h
    cases h
    refine ⟨hr, trivial, ?_⟩
    rintro result ⟨⟩
    exact hr.sumStatistics hs hfinal

theorem Registers.step (hs : s.Registers p) {e : ReceiverEvent} (h : s.step build e = .ok s') :
    s'.Registers p := by
  have hreceiver := hs.receiver
  have hholds := hs.holds
  unfold ReceiverRun.step at h
  split at h
  · rename_i r clock clock' result setup
    cases h
    exact Registers.start hreceiver clock clock' result setup
  · rename_i r statistic clock
    obtain ⟨⟨r', statistic'⟩, hclose, h⟩ := bind_ok.mp (lift_ok.mp h)
    cases h
    have hs : Statistic.Of p { statistic with amountSyscalls := statistic.amountSyscalls + 1 } :=
      ⟨hholds.parameter, hholds.sq, hholds.cq, hholds.inflight⟩
    obtain ⟨hr', hs'⟩ := hreceiver.closeInterval hs hclose
    exact .of_running hr' hs' rfl
  · rename_i r statistic clock socket
    obtain ⟨⟨result, r'⟩, hrecv, h⟩ := bind_ok.mp (lift_ok.mp h)
    cases h
    exact Registers.received (hreceiver.recvMessages hrecv) hholds result
  · rename_i r statistic result
    cases h
    exact Registers.waited hreceiver hholds _
  · rename_i t e
    obtain ⟨t', ht, h⟩ := map_eq_ok.mp h
    cases h
    exact Registers.looped (UringLoop.Registers.step hholds ht)
  · rename_i r statistic clock closed
    exact Registers.finish hreceiver hholds (lift_ok.mp h)
  · cases h

theorem run_registers {clock : Clock} {r : Receiver} {events : List ReceiverEvent}
    (hnew : Receiver.new clock p = .ok r) (h : run (step build) (polling r) events = .ok s) :
    s.Registers p :=
  run_invariant (I := ReceiverRun.Registers p) (fun _ _ _ hs h => hs.step h)
    (.of_running (.new hnew) (show (polling r).Holds p from trivial) rfl) h

end ReceiverRun
end Nperf
