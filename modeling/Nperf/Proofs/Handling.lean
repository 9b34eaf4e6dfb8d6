import Nperf.Model.Uring

namespace Nperf
open Rust Bytes

/-- What the receive functions read of a message before anything else. -/
def Msghdr.header (h : Msghdr) : Except Fault (Nat × MessageType) := do
  let buffer ← PacketBuffer.getBufferPointer h
  let testId ← MessageHeader.getTestId buffer
  let mtype ← MessageHeader.getMessageType buffer
  .ok (testId, mtype)

theorem Msghdr.header_ok {h : Msghdr} {buffer : Slice} {testId : Nat} {mtype : MessageType}
    (hbuffer : PacketBuffer.getBufferPointer h = .ok buffer)
    (htest : MessageHeader.getTestId buffer = .ok testId)
    (hmtype : MessageHeader.getMessageType buffer = .ok mtype) :
    h.header = .ok (testId, mtype) := by
  simp only [header, hbuffer, htest, hmtype, ok_bind]

theorem parseReceivedBytes_ok {amount : Int} {n : Nat} (h : parseReceivedBytes amount = .ok n) :
    n ≤ 1 := by
  simp only [parseReceivedBytes] at h
  repeat' split at h
  all_goals (cases h <;> simp)

theorem parseReceivedBytes_error {amount : Int} {e : Error}
    (h : parseReceivedBytes amount = .error e) : e = .eagain ∨ e = .failedToReceive := by
  simp only [parseReceivedBytes] at h
  repeat' split at h
  all_goals (cases h <;> simp)

namespace Receiver

/-- How every receive function goes on once its message is in the msghdr `h`.
`Packets` says what it makes of the statistic of the test, and of the msghdrs,
as it goes through the packets. -/
inductive Handled (clock : Clock) (h : Msghdr) (r : Receiver)
    (Packets : Statistic → Statistic → PacketBuffer → Prop) : Except Error Unit → Receiver → Prop
  | stopped {testId : Nat} {mtype : MessageType} {e : Error} {ms : List Measurement}
      (header : h.header = .ok (testId, mtype))
      (parsed : parseMessageType clock mtype testId r.measurements r.parameter =
        .ok (.error e, ms)) :
      Handled clock h r Packets (.error e) { r with measurements := ms }
  | counted {testId : Nat} {mtype : MessageType} {ms : List Measurement} {m : Measurement}
      {statistic : Statistic} {b : PacketBuffer} {next datagrams bytes : Nat}
      (header : h.header = .ok (testId, mtype))
      (parsed : parseMessageType clock mtype testId r.measurements r.parameter = .ok (.ok (), ms))
      (entry : measurement ms testId = .ok m) (packets : Packets m.statistic statistic b) :
      Handled clock h r Packets (.ok ())
        ({ r with
          measurements := ms
          nextPacketId := next
          packetBuffer := b }.setStatistic testId m (statistic.countReceived datagrams bytes))

section
variable {clock : Clock} {h : Msghdr} {r r' : Receiver} {result : Except Error Unit}
  {Packets : Statistic → Statistic → PacketBuffer → Prop}

theorem Handled.parsed (hr : r.Handled clock h Packets result r') :
    ∃ testId mtype ms, h.header = .ok (testId, mtype) ∧
      parseMessageType clock mtype testId r.measurements r.parameter = .ok (result, ms) := by
  cases hr with
  | stopped header parsed => exact ⟨_, _, _, header, parsed⟩
  | counted header parsed => exact ⟨_, _, _, header, parsed⟩

theorem Handled.parameter (hr : r.Handled clock h Packets result r') :
    r'.parameter = r.parameter := by
  cases hr <;> rfl

theorem Handled.packetBuffer (hr : r.Handled clock h Packets result r') :
    r'.packetBuffer = r.packetBuffer ∨ ∃ s s', Packets s s' r'.packetBuffer := by
  cases hr with
  | stopped => exact .inl rfl
  | counted _ _ _ packets => exact .inr ⟨_, _, packets⟩

end

/-- A receive call on the first msghdr fails, or its message is handled there. -/
inductive Received (clock : Clock) (fill : Msghdr → Delivery → Msghdr) (r : Receiver)
    (Packets : Msghdr → Delivery → Statistic → Statistic → PacketBuffer → Prop) :
    Except Error Delivery → Except Error Unit → Receiver → Prop
  | failed (e : Error) : Received clock fill r Packets (.error e) (.error e) r
  | handled {h : Msghdr} {d : Delivery} {result : Except Error Unit} {r' : Receiver}
      (first : r.msghdr 0 = .ok h)
      (goes : Handled clock (fill h d)
        { r with packetBuffer := r.packetBuffer.setMsghdr 0 (fill h d) } (Packets h d) result r') :
      Received clock fill r Packets (.ok d) result r'

/-- `recv` knows the buffer only. -/
def recvFill (h : Msghdr) (d : Delivery) : Msghdr := { h with iovBase := (h.deliver d).iovBase }

def RecvPackets (build : Build) (r : Receiver) (h : Msghdr) (d : Delivery) (s s' : Statistic)
    (b : PacketBuffer) : Prop :=
  b = r.packetBuffer.setMsghdr 0 (recvFill h d) ∧ ∃ buffer datagrams,
    processPacketBuffer build buffer r.packetBuffer.datagramSize r.nextPacketId s =
      .ok (datagrams, s')

def RecvmsgPackets (build : Build) (r : Receiver) (h : Msghdr) (d : Delivery) (s s' : Statistic)
    (b : PacketBuffer) : Prop :=
  b = (r.packetBuffer.setMsghdr 0 (h.deliver d)).setMsghdr 0 (r.restoreControllen (h.deliver d)) ∧
    ∃ next datagrams, processPacketMsghdr build (h.deliver d) (h.receivedBytes d) r.nextPacketId s =
      .ok (next, datagrams, s')

/-- The batch that is in the msghdrs. -/
def RecvmmsgPackets (build : Build) (r : Receiver) (ds : List Delivery) (s s' : Statistic)
    (b : PacketBuffer) : Prop :=
  let filled := deliverAll r.packetBuffer.mmsghdrVec ds
  let n := min ds.length r.packetBuffer.mmsghdrVec.length
  ∃ t processed next datagrams, t.parameter = r.parameter ∧
    processMmsghdrs build t (filled.take n) (r.nextPacketId, 0, s) =
      .ok (processed, next, datagrams, s') ∧
    b = { r.packetBuffer with mmsghdrVec := processed ++ filled.drop n }

/-- A call for a batch fails, brings nothing, or the first message of the batch
is handled. -/
inductive ReceivedBatch (build : Build) (clock : Clock) (r : Receiver) :
    Except Error (List Delivery) → Except Error Unit → Receiver → Prop
  | failed (e : Error) : ReceivedBatch build clock r (.error e) (.error e) r
  | nothing {ds : List Delivery} (none : min ds.length r.packetBuffer.mmsghdrVec.length = 0) :
      ReceivedBatch build clock r (.ok ds) (.ok ()) { r with packetBuffer :=
        { r.packetBuffer with mmsghdrVec := deliverAll r.packetBuffer.mmsghdrVec ds } }
  | handled {ds : List Delivery} {h : Msghdr} {result : Except Error Unit} {r' : Receiver}
      (some : min ds.length r.packetBuffer.mmsghdrVec.length ≠ 0)
      (first : msghdr { r with packetBuffer :=
        { r.packetBuffer with mmsghdrVec := deliverAll r.packetBuffer.mmsghdrVec ds } } 0 = .ok h)
      (goes : Handled clock h { r with packetBuffer :=
        { r.packetBuffer with mmsghdrVec := deliverAll r.packetBuffer.mmsghdrVec ds } }
        (r.RecvmmsgPackets build ds) result r') :
      ReceivedBatch build clock r (.ok ds) result r'

def ReturnPackets (build : Build) (r : Receiver) (h : Msghdr) (index : Nat) (s s' : Statistic)
    (b : PacketBuffer) : Prop :=
  ∃ processed amount next datagrams, r.processedMsghdr h index = .ok processed ∧
    processPacketMsghdr build processed amount r.nextPacketId s = .ok (next, datagrams, s') ∧
    b = (r.restoreProcessed processed index).packetBuffer

section
variable {build : Build} {clock : Clock} {r r' : Receiver} {result : Except Error Unit}

theorem recv_cases {socket : Except Error Delivery}
    (h : r.recv build clock socket = .ok (result, r')) :
    r.Received clock recvFill (r.RecvPackets build) socket result r' := by
  simp only [recv, bind_ok] at h
  obtain ⟨h0, hh0, h⟩ := h
  cases socket with
  | error e =>
    cases h
    exact .failed e
  | ok d =>
    simp only [bind_ok] at h
    obtain ⟨buffer, hbuffer, testId, htest, mtype, hmtype, ⟨parsed, ms⟩, hparsed, h⟩ := h
    have hheader := Msghdr.header_ok hbuffer htest hmtype
    apply Received.handled hh0
    cases parsed with
    | error e =>
      cases h
      exact .stopped hheader hparsed
    | ok u =>
      simp only [bind_ok] at h
      obtain ⟨m, hm, ⟨datagrams, statistic⟩, hp, next, _, h⟩ := h
      cases h
      exact .counted hheader hparsed hm ⟨rfl, buffer, datagrams, hp⟩

theorem recvmsg_cases {socket : Except Error Delivery}
    (h : r.recvmsg build clock socket = .ok (result, r')) :
    r.Received clock Msghdr.deliver (r.RecvmsgPackets build) socket result r' := by
  simp only [recvmsg, bind_ok] at h
  obtain ⟨h0, hh0, h⟩ := h
  cases socket with
  | error e =>
    cases h
    exact .failed e
  | ok d =>
    simp only [bind_ok] at h
    obtain ⟨buffer, hbuffer, testId, htest, mtype, hmtype, ⟨parsed, ms⟩, hparsed, h⟩ := h
    have hheader := Msghdr.header_ok hbuffer htest hmtype
    apply Received.handled hh0
    cases parsed with
    | error e =>
      cases h
      exact .stopped hheader hparsed
    | ok u =>
      simp only [bind_ok] at h
      obtain ⟨m, hm, ⟨next, datagrams, statistic⟩, hp, h⟩ := h
      cases h
      exact .counted hheader hparsed hm ⟨rfl, next, datagrams, hp⟩

theorem recvmmsg_cases {socket : Except Error (List Delivery)}
    (h : r.recvmmsg build clock socket = .ok (result, r')) :
    r.ReceivedBatch build clock socket result r' := by
  cases socket with
  | error e =>
    cases h
    exact .failed e
  | ok ds =>
    simp only [recvmmsg] at h
    split at h
    · rename_i hnone
      cases h
      exact .nothing hnone
    · rename_i hsome
      simp only [bind_ok] at h
      obtain ⟨h0, hh0, buffer, hbuffer, testId, htest, mtype, hmtype, ⟨parsed, ms⟩, hparsed, h⟩ := h
      have hheader := Msghdr.header_ok hbuffer htest hmtype
      apply ReceivedBatch.handled hsome hh0
      cases parsed with
      | error e =>
        cases h
        exact .stopped hheader hparsed
      | ok u =>
        simp only [bind_ok] at h
        obtain ⟨m, hm, ⟨processed, next, datagrams, statistic⟩, hp, h⟩ := h
        cases h
        refine .counted hheader hparsed hm ⟨_, processed, next, datagrams, ?_, hp, rfl⟩
        exact rfl

theorem restoreProcessed_eq {t : Receiver} (hparameter : t.parameter = r.parameter)
    (hbuffers : t.packetBuffer = r.packetBuffer) (h : Msghdr) (index : Nat) :
    t.restoreProcessed h index =
      { t with packetBuffer := (r.restoreProcessed h index).packetBuffer } := by
  cases t
  cases hparameter
  cases hbuffers
  simp only [restoreProcessed, restoreControllen]
  split <;> rfl

/-- The msghdr of a completion is the caller's, or the one its index names. -/
theorem handleRecvmsgReturn_cases {amount : Int} {given : Option Msghdr} {index : Nat}
    (h : r.handleRecvmsgReturn build clock amount given index = .ok (result, r')) :
    ∃ hdr, r.completedMsghdr given index = .ok hdr ∧
      r.Handled clock hdr (r.ReturnPackets build hdr index) result r' := by
  simp only [handleRecvmsgReturn, bind_ok] at h
  obtain ⟨h0, hh0, buffer, hbuffer, testId, htest, mtype, hmtype, ⟨parsed, ms⟩, hparsed, h⟩ := h
  have hheader := Msghdr.header_ok hbuffer htest hmtype
  refine ⟨h0, hh0, ?_⟩
  cases parsed with
  | error e =>
    cases h
    exact .stopped hheader hparsed
  | ok u =>
    simp only [bind_ok] at h
    obtain ⟨h1, hh1, m, hm, ⟨next, datagrams, statistic⟩, hp, h⟩ := h
    cases h
    rw [restoreProcessed_eq (r := r)]
    · exact .counted hheader hparsed hm ⟨h1, _, next, datagrams, hh1, hp, rfl⟩
    · exact rfl
    · exact rfl

/-- A round of the normal handler: the completion is an error, its buffer is
collected, or its message ends the handler. -/
inductive RoundNormal (build : Build) (clock : Clock) (c : Cqe) (r : Receiver) (count : Nat)
    (pool : List Nat) : Except Error Unit → Receiver × Nat × List Nat → Prop
  | failed {e : Error} (bytes : parseReceivedBytes c.result = .error e) :
      RoundNormal build clock c r count pool (.error e) (r, count, pool)
  | collected {n : Nat} {handled : Except Error Unit} {r' : Receiver}
      (bytes : parseReceivedBytes c.result = .ok n)
      (goes : r.handleRecvmsgReturn build clock c.result none c.userData = .ok (handled, r'))
      (continues : handled = .ok () ∨ handled = .error .initMessageReceived) :
      RoundNormal build clock c r count pool (.ok ()) (r', count + n, pool ++ [c.userData])
  | ended {n : Nat} {e : Error} {r' : Receiver} (bytes : parseReceivedBytes c.result = .ok n)
      (goes : r.handleRecvmsgReturn build clock c.result none c.userData = .ok (.error e, r'))
      (ends : e ≠ .initMessageReceived) :
      RoundNormal build clock c r count pool (.error e) (r', count + n, pool)

theorem completeNormal_cases {c : Cqe} {count : Nat} {pool : List Nat}
    {s' : Receiver × Nat × List Nat}
    (h : completeNormal (handleRecvmsgReturn build clock) c (r, count, pool) = .ok (result, s')) :
    r.RoundNormal build clock c count pool result s' := by
  simp only [completeNormal] at h
  split at h
  · rename_i e hbytes
    cases h
    exact .failed hbytes
  · rename_i n hbytes
    obtain ⟨⟨handled, r'⟩, hgoes, h⟩ := bind_ok.mp h
    simp only at h
    split at h
    · cases h
      exact .collected hbytes hgoes (.inl rfl)
    · cases h
      exact .collected hbytes hgoes (.inr rfl)
    · rename_i e hends
      cases h
      exact .ended hbytes hgoes hends

/-- A round of the handler of the provided buffers. -/
inductive RoundProvided (build : Build) (clock : Clock) (c : Cqe) (r : Receiver) (count : Nat)
    (statistic : Statistic) : Except Error Unit → Receiver × Nat × Statistic → Prop
  | failed {e : Error} (bytes : parseReceivedBytes c.result = .error e) :
      RoundProvided build clock c r count statistic (.error e) (r, count, statistic)
  | empty (bytes : parseReceivedBytes c.result = .ok 0) :
      RoundProvided build clock c r count statistic (.ok ()) (r, count + 1,
        { statistic with uringOutOfBuffers := statistic.uringOutOfBuffers + 1 })
  | handled {result : Except Error Unit} {r' : Receiver}
      (bytes : parseReceivedBytes c.result = .ok 1)
      (goes : r.handleRecvmsgReturn build clock c.result
        (some (providedMsghdr c.delivery.payload c.result.toNat [] 0)) c.userData =
          .ok (result, r')) :
      RoundProvided build clock c r count statistic result (r', count + 1, statistic)

theorem completeProvidedBuffer_cases {c : Cqe} {count : Nat} {statistic : Statistic}
    {s' : Receiver × Nat × Statistic}
    (h : completeProvidedBuffer (handleRecvmsgReturn build clock) c (r, count, statistic) =
      .ok (result, s')) :
    r.RoundProvided build clock c count statistic result s' := by
  simp only [completeProvidedBuffer] at h
  split at h
  · rename_i e hbytes
    cases h
    exact .failed hbytes
  · rename_i hbytes
    cases h
    exact .empty hbytes
  · rename_i n hzero hbytes
    have hle := parseReceivedBytes_ok hbytes
    have hpos : n ≠ 0 := hzero
    obtain rfl : n = 1 := by omega
    obtain ⟨⟨handled, r'⟩, hgoes, h⟩ := bind_ok.mp h
    cases h
    exact .handled hbytes hgoes

/-- A round of the multishot handler. -/
inductive RoundMultishot (build : Build) (clock : Clock) (c : Cqe) (r : Receiver) (armed : Bool) :
    Except Error Unit → Receiver × Bool → Prop
  | failed {e : Error} (bytes : parseReceivedBytes c.result = .error e) :
      RoundMultishot build clock c r armed (.error e) (r, armed)
  | empty (bytes : parseReceivedBytes c.result = .ok 0) :
      RoundMultishot build clock c r armed (.ok ()) (r, armed && checkMultishotStatus c)
  | handled {result : Except Error Unit} {r' : Receiver}
      (bytes : parseReceivedBytes c.result = .ok 1)
      (goes : r.handleRecvmsgReturn build clock (c.result - uringAdditionalBufferLength)
        (some (providedMsghdr c.delivery.payload (c.result - uringAdditionalBufferLength).toNat
          c.delivery.control c.delivery.controllen)) 0 = .ok (result, r')) :
      RoundMultishot build clock c r armed result (r', armed && checkMultishotStatus c)

theorem completeMultishot_cases {c : Cqe} {armed : Bool} {s' : Receiver × Bool}
    (h : completeMultishot (handleRecvmsgReturn build clock) c (r, armed) = .ok (result, s')) :
    r.RoundMultishot build clock c armed result s' := by
  simp only [completeMultishot] at h
  split at h
  · rename_i e hbytes
    cases h
    exact .failed hbytes
  · rename_i n hbytes
    have hle := parseReceivedBytes_ok hbytes
    split at h
    · rename_i hzero
      subst hzero
      cases h
      exact .empty hbytes
    · rename_i hpos
      obtain rfl : n = 1 := by omega
      split at h
      · cases h
      · obtain ⟨⟨handled, r'⟩, hgoes, h⟩ := bind_ok.mp h
        cases h
        exact .handled hbytes hgoes

end

section
variable {P : Receiver → Prop} {build : Build} {clock : Nat → Clock} {r r' : Receiver}
  {cq rest : List Cqe}
  (hkeeps : ∀ (i : Nat) (amount : Int) (given : Option Msghdr) (index : Nat) (r r' : Receiver)
    (result : Except Error Unit), P r →
    r.handleRecvmsgReturn build (clock i) amount given index = .ok (result, r') → P r')
include hkeeps

/-- What the handling of a message keeps, whatever is in the pool, a batch keeps. -/
theorem ioUringCompleteNormal_keeps {result : Except Error Nat}
    (hpool : ∀ r b, P r → P { r with packetBuffer := b }) (hr : P r)
    (h : r.ioUringCompleteNormal build clock cq = .ok (result, r', rest)) : P r' := by
  simp only [ioUringCompleteNormal, bind_ok] at h
  obtain ⟨⟨drained, ⟨s, completed, indexPool⟩, rest'⟩, hdrain, h⟩ := h
  have hs : P s := by
    apply Queue.drain_keeps (P := fun t : Receiver × Nat × List Nat => P t.1) ?_ hr hdrain
    intro i c t result t' ht hbody
    cases completeNormal_cases hbody with
    | failed => exact ht
    | collected _ goes => exact hkeeps _ _ _ _ _ _ _ ht goes
    | ended _ goes => exact hkeeps _ _ _ _ _ _ _ ht goes
  cases drained with
  | error e =>
    cases h
    exact hs
  | ok u =>
    cases h
    exact hpool _ _ hs

theorem ioUringCompleteProvidedBuffers_keeps {Q : Statistic → Prop}
    {statistic statistic' : Statistic} {result : Except Error Nat}
    (hempty : ∀ s, Q s → Q { s with uringOutOfBuffers := s.uringOutOfBuffers + 1 })
    (hr : P r) (hstatistic : Q statistic)
    (h : r.ioUringCompleteProvidedBuffers build clock statistic cq =
      .ok (result, r', statistic', rest)) : P r' ∧ Q statistic' := by
  simp only [ioUringCompleteProvidedBuffers, bind_ok] at h
  obtain ⟨⟨drained, ⟨s, completed, st⟩, rest'⟩, hdrain, h⟩ := h
  cases h
  apply Queue.drain_keeps (P := fun t : Receiver × Nat × Statistic => P t.1 ∧ Q t.2.2) ?_
    ⟨hr, hstatistic⟩ hdrain
  intro i c t result t' ht hbody
  obtain ⟨hreceiver, hcounted⟩ := ht
  cases completeProvidedBuffer_cases hbody with
  | failed => exact ⟨hreceiver, hcounted⟩
  | empty => exact ⟨hreceiver, hempty _ hcounted⟩
  | handled _ goes => exact ⟨hkeeps _ _ _ _ _ _ _ hreceiver goes, hcounted⟩

theorem ioUringCompleteMultishot_keeps {result : Except Error Bool} (hr : P r)
    (h : r.ioUringCompleteMultishot build clock cq = .ok (result, r', rest)) : P r' := by
  simp only [ioUringCompleteMultishot, bind_ok] at h
  obtain ⟨⟨drained, ⟨s, armed⟩, rest'⟩, hdrain, h⟩ := h
  cases h
  apply Queue.drain_keeps (P := fun t : Receiver × Bool => P t.1) ?_ hr hdrain
  intro i c t result t' ht hbody
  cases completeMultishot_cases hbody with
  | failed => exact ht
  | empty => exact ht
  | handled _ goes => exact hkeeps _ _ _ _ _ _ _ ht goes

end
end Receiver
end Nperf
