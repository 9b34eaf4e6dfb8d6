import Nperf.Proofs.SendTotals
import Nperf.Proofs.Wire

namespace Nperf
open Rust Bytes Runs Segments

/-- INIT and LAST on the wire. -/
def controlDatagram (mtype : MessageType) (testId : Nat) : Memory :=
  (MessageHeader.mk mtype testId 0).serialize

@[simp] theorem length_controlDatagram (mtype : MessageType) (testId : Nat) :
    (controlDatagram mtype testId).length = 24 :=
  MessageHeader.length_serialize _

theorem store_all (m bytes : Memory) (h : bytes.length = m.length) : store m 0 bytes = bytes := by
  apply List.ext_getElem?
  intro i
  by_cases hi : i < bytes.length
  · have hinside := store_inside m 0 bytes i hi (by omega)
    rwa [Nat.zero_add] at hinside
  · rw [List.getElem?_eq_none (by rw [length_store]; omega), List.getElem?_eq_none (by omega)]

namespace Sender
variable {p : Parameter} {testId : Nat} {s s' : Sender}

/-- A coordination message is its header and nothing else. -/
theorem controlMessage_ok (s : Sender) (mtype : MessageType) :
    ∃ h, s.controlMessage mtype = .ok h ∧
      h.iovBase.take h.iovLen = controlDatagram mtype s.testId := by
  have hnew : WrapperMsghdr.new MessageHeader.lenHeader MessageHeader.lenHeader =
      .ok ⟨WrapperMsghdr.createMsghdr (List.replicate 24 0), 24, false, 24, 1⟩ := rfl
  have hlen : (MessageHeader.mk mtype s.testId 0).serialize.length ≤ 24 :=
    Nat.le_of_eq (MessageHeader.length_serialize _)
  simp only [controlMessage, hnew, ok_bind]
  refine ⟨_, rfl, ?_⟩
  simp only [WrapperMsghdr.copyBuffer, if_pos hlen, WrapperMsghdr.getMsghdr,
    WrapperMsghdr.moveMsghdr, WrapperMsghdr.createMsghdr, List.length_replicate]
  rw [store_all _ _ (by rw [MessageHeader.length_serialize, List.length_replicate]),
    List.take_of_length_le hlen]
  rfl

/-- It leaves as one datagram, also with segmentation offload. -/
theorem Streams.coordinated (hs : s.Streams p testId) (hp : p.Sends) (mtype : MessageType)
    (kernel : Except Error Unit) : s.coordinated mtype kernel =
      match kernel with
      | .ok () => [controlDatagram mtype testId]
      | .error _ => [] := by
  obtain ⟨h, hmessage, hbytes⟩ := s.controlMessage_ok mtype
  unfold Sender.coordinated
  cases kernel with
  | error e => rfl
  | ok u =>
    simp only [hmessage, hs.parameter, hbytes, hs.test, SocketOptions.segments]
    cases hgso : p.socketOptions.gso with
    | none => rfl
    | some size =>
      have hsize := hp.headers.datagramSize hp.datagramSize hp.slots.1
      simp only
      rw [if_pos]
      rw [length_controlDatagram, hp.gso size hgso]
      exact hsize

theorem sendControlMessage_ok {kernel : Except Error Unit}
    (h : sendControlMessage kernel = .ok ()) : kernel = .ok () := by
  unfold sendControlMessage at h
  split at h
  · rfl
  · cases h
  · cases h

end Sender

namespace SenderRun

/-- What a sender has put on the wire, from where it is in its run: INIT, then
data with the ids it has used, and LAST if the run ends well. -/
def Trace (p : Parameter) (testId : Nat) (log : List Memory) : SenderRun → Prop
  | .starting s => s.Streams p testId ∧ s.nextPacketId = 0 ∧ log = []
  | .looping s _ | .sending s _ | .waiting s _ | .closing s =>
    s.Streams p testId ∧ ∃ data, log = controlDatagram .init testId :: data ∧
      p.Stream testId 0 s.nextPacketId data
  | .uring _ => False
  | .returned s (.ok _) => ∃ data,
      log = controlDatagram .init testId :: data ++ [controlDatagram .last testId] ∧
        p.Stream testId 0 s.nextPacketId data
  | .returned s (.error _) => log = [] ∨ ∃ data next,
      log = controlDatagram .init testId :: data ∧ p.Stream testId 0 next data ∧
        next ≤ s.nextPacketId

section
variable {p : Parameter} {testId : Nat} {s s' : SenderRun} {log : List Memory}

theorem start_trace {r : Sender} (hp : p.Sends) (hio : p.ioModel ≠ .ioUring)
    (clock clock' : Clock) (init setup : Except Error Unit)
    (h : Trace p testId log (.starting r)) :
    Trace p testId (log ++ r.coordinated .init init) (start clock clock' init setup r) := by
  obtain ⟨hs, hnext, rfl⟩ := h
  rw [hs.coordinated hp, List.nil_append]
  cases init with
  | error e =>
    have hrefused : ∃ e', Sender.sendControlMessage (.error e) = .error e' := by
      cases e <;> exact ⟨_, rfl⟩
    obtain ⟨e', hcontrol⟩ := hrefused
    simp only [start, hcontrol]
    exact .inl rfl
  | ok u =>
    simp only [start, Sender.sendControlMessage]
    rw [if_pos (hs.parameter ▸ hio)]
    exact ⟨hs.of_eq rfl rfl rfl rfl rfl, [], rfl, by
      simpa only [hnext] using .nil p testId (Nat.two_pow_pos 64)⟩

theorem send_trace {r r' : Sender} {startTime : Timestamp} {socket : Sender.Socket}
    {result : Except Error Unit} (hp : p.Sends) (h : Trace p testId log (.sending r startTime))
    (hsend : r.sendMessages socket = .ok (result, r')) :
    Trace p testId (log ++ (r'.accepted socket).flatMap p.socketOptions.segments)
      (sent r' startTime result) := by
  obtain ⟨hs, data, rfl, hstream⟩ := h
  cases result with
  | ok u =>
    obtain ⟨hs', hnew⟩ := hs.accepted hp hsend
    exact ⟨hs'.of_eq rfl rfl rfl rfl rfl, _, rfl, hstream.append hnew⟩
  | error e =>
    obtain ⟨hs', hnone, hle, heagain⟩ := hs.refused hp hsend
    rw [hnone, List.flatMap_nil, List.append_nil]
    cases e with
    | eagain =>
      exact ⟨hs'.of_eq rfl rfl rfl rfl rfl, data, rfl, by
        simpa only [Sender.countWait, heagain rfl] using hstream⟩
    | _ => exact .inr ⟨data, _, rfl, hstream, hle⟩

theorem waited_trace {r : Sender} {startTime : Timestamp}
    (h : Trace p testId log (.waiting r startTime)) (result : Except Error Unit) :
    Trace p testId log (waited r startTime result) := by
  obtain ⟨hs, data, hlog, hstream⟩ := h
  cases result with
  | ok u => exact ⟨hs.of_eq rfl rfl rfl rfl rfl, data, hlog, hstream⟩
  | error e => exact .inr ⟨data, _, hlog, hstream, Nat.le_refl _⟩

theorem lastInterval_nextPacketId (clock : Clock) (r : Sender) :
    (r.lastInterval clock).nextPacketId = r.nextPacketId := by
  unfold Sender.lastInterval
  split <;> rfl

theorem finish_trace {r : Sender} {clock : Clock} {last : Except Error Unit} (hp : p.Sends)
    (h : Trace p testId log (.closing r)) (hfinish : finish clock last r = .ok s') :
    Trace p testId (log ++ r.coordinated .last last) s' := by
  obtain ⟨hs, data, rfl, hstream⟩ := h
  obtain ⟨final, _, hfinish⟩ := bind_ok.mp (show _ >>= _ = _ from hfinish)
  rw [hs.coordinated hp]
  split at hfinish
  · rename_i e hcontrol
    cases hfinish
    cases last with
    | error e =>
      exact .inr ⟨data, _, by simp, hstream,
        Nat.le_of_eq (lastInterval_nextPacketId clock r).symm⟩
    | ok u => cases hcontrol
  · rename_i hcontrol
    cases hfinish
    obtain rfl := Sender.sendControlMessage_ok hcontrol
    exact ⟨data, rfl, (lastInterval_nextPacketId clock r).symm ▸ hstream⟩

theorem transmitted_send {r r' : Sender} {startTime : Timestamp} {socket : Sender.Socket}
    {result : Except Error Unit} (hparameter : r'.parameter = p) :
    (sending r startTime).transmitted (.send socket) (sent r' startTime result) =
      (r'.accepted socket).flatMap p.socketOptions.segments := by
  subst hparameter
  cases result with
  | ok u => rfl
  | error e => cases e <;> rfl

theorem sendMessages_parameter {r r' : Sender} {startTime : Timestamp} {socket : Sender.Socket}
    {result : Except Error Unit} (hp : p.Sends) (h : Trace p testId log (.sending r startTime))
    (hsend : r.sendMessages socket = .ok (result, r')) : r'.parameter = p := by
  cases result with
  | ok u => exact (h.1.accepted hp hsend).1.parameter
  | error e => exact (h.1.refused hp hsend).1.parameter

/-- What a step transmits continues the trace. -/
theorem step_trace (hp : p.Sends) (hio : p.ioModel ≠ .ioUring) {e : SenderRunEvent}
    (ht : Trace p testId log s) (h : s.step e = .ok s') :
    Trace p testId (log ++ s.transmitted e s') s' := by
  unfold step at h
  split at h
  · rename_i r clock clock' init setup
    cases h
    exact start_trace hp hio clock clock' init setup ht
  · rename_i r startTime time clock
    have hnone : (looping r startTime).transmitted (.check time clock) s' = [] := rfl
    obtain ⟨hs, data, hlog, hstream⟩ := ht
    rw [hnone, List.append_nil]
    split at h
    · cases h
      obtain ⟨hclosed, hnext⟩ := hs.closeInterval clock
      exact ⟨hclosed, data, hlog, hnext ▸ hstream⟩
    · cases h
      exact ⟨hs, data, hlog, hstream⟩
  · rename_i r startTime socket
    obtain ⟨⟨result, r'⟩, hsend, h⟩ := bind_ok.mp (lift_ok.mp h)
    cases h
    rw [transmitted_send (sendMessages_parameter hp ht hsend)]
    exact send_trace hp ht hsend
  · rename_i r startTime result
    have hnone : (waiting r startTime).transmitted (.wait result) s' = [] := rfl
    cases h
    rw [hnone, List.append_nil]
    exact waited_trace ht _
  · cases ht
  · rename_i r clock last
    exact finish_trace hp ht (lift_ok.mp h)
  · cases h

/-- What a run transmits, from its start on. -/
theorem run_trace (hp : p.Sends) (hio : p.ioModel ≠ .ioUring) {events : List SenderRunEvent}
    (ht : Trace p testId log s) (h : run step s events = .ok s') :
    Trace p testId (log ++ collect step transmitted s events) s' := by
  refine collect_invariant (I := Trace p testId) ?_ ht h
  intro log s e s' ht h
  exact step_trace hp hio ht h

end
end SenderRun

/-- The segment size of an accepted parameter set is that of its datagrams. -/
theorem NPerf.parseParameter_gso {args : NPerf} {build : Build} {cores : Nat} {p : Parameter}
    (h : args.parseParameter build cores = .ok (some p)) :
    ∀ size ∈ p.socketOptions.gso, size = p.datagramSize := by
  obtain ⟨ipv4, socketOptions, uring, hoptions, _, _, rfl⟩ := parseParameter_options h
  simp only [parseSocketOptions, bind_ok] at hoptions
  obtain ⟨pacing, _, hoptions⟩ := hoptions
  cases hoptions
  intro size hsize
  simp only [adjust, parameter] at hsize ⊢
  split at hsize
  · cases hsize
    rfl
  · cases hsize

theorem Parameter.Sends.new {args : NPerf} {build : Build} {cores : Nat} {p : Parameter}
    (hp : args.parseParameter build cores = .ok (some p)) (hmss : 0 < p.mss)
    (hinside : p.exchangeFunction = .normal → p.datagramSize ≤ p.mss) {clock : Clock}
    {testId : Nat} (ht : testId < 2 ^ 64) {s : Sender} (h : Sender.new clock testId p = .ok s) :
    p.Sends := by
  obtain ⟨_, hheaders, hsize, _⟩ := Sender.new_ok ht h
  exact ⟨hheaders, hsize, hmss, hinside, NPerf.parseParameter_gso hp⟩

/-- On the wire a run of the sender is INIT, datagrams with increasing ids that
it has used, all of them if its messages leave whole, and LAST exactly if it
ends well. -/
theorem sender_trace (args : NPerf) (build : Build) (cores : Nat) (p : Parameter)
    (hp : args.parseParameter build cores = .ok (some p)) (hmss : 0 < p.mss)
    (hinside : p.exchangeFunction = .normal → p.datagramSize ≤ p.mss)
    (hio : p.ioModel ≠ .ioUring) (clock : Clock) (testId : Nat) (ht : testId < maxTestId)
    (s : Sender) (hnew : Sender.new clock testId p = .ok s) (events : List SenderRunEvent)
    (t : SenderRun) (hrun : run SenderRun.step (.starting s) events = .ok t) :
    t.Trace p testId (collect SenderRun.step SenderRun.transmitted (.starting s) events) := by
  have htest : testId < 2 ^ 64 := Nat.lt_trans ht (by decide)
  have hstart : (SenderRun.starting s).Trace p testId [] := by
    obtain ⟨hs, hnext⟩ := Sender.Streams.new htest hnew
    exact ⟨hs, hnext, rfl⟩
  exact SenderRun.run_trace (.new hp hmss hinside htest hnew) hio hstart hrun

/-- A message goes out, the next one blocks, and the loop ends. -/
theorem sender_trace_once :
    let s := (Sender.new ⟨0, 0⟩ 7 { Parameter.headersOnly with mode := .sender }).toOption.get
      (by decide)
    let events : List SenderRunEvent := .start ⟨0, 0⟩ ⟨0, 0⟩ (.ok ()) (.ok ()) ::
      (sendAt 1 1 (.ok 24) ++ sendAt 2 2 (.error .eagain) ++ .wait .ready :: endOfTest)
    ∃ t, run SenderRun.step (.starting s) events = .ok t ∧
      t.Trace { Parameter.headersOnly with mode := .sender } 7
        (collect SenderRun.step SenderRun.transmitted (.starting s) events) := by
  intro s events
  obtain ⟨t, hrun, _⟩ := checked (x := run SenderRun.step (.starting s) events)
    (p := fun _ => True) (by decide +kernel)
  exact ⟨t, hrun, sender_trace { NPerf.headersOnly with mode := .sender } .debug 8
    { Parameter.headersOnly with mode := .sender } (by decide +kernel) (by decide) (by decide)
    (by decide) ⟨0, 0⟩ 7 (by decide) s rfl events t hrun⟩

end Nperf
