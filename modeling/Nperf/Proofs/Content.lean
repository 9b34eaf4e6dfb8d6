import Nperf.Ledger.Overflow
import Nperf.Proofs.Isolation
import Nperf.Proofs.MessageOrder
import Nperf.Proofs.Parameters

namespace Nperf
open Rust Bytes

/-- A word of a message that fits is in its buffer. -/
theorem Msghdr.Sound.word {h : Msghdr} (hs : h.Sound mss) {d : Delivery}
    (hfit : d.payload.length ≤ mss) {i : Nat} (hi : 8 * i + 8 ≤ d.payload.length) :
    Slice.word ⟨(h.deliver d).iovBase, 0, mss⟩ i = .ok (load d.payload (8 * i) 8) := by
  have hmem := (hs.deliver d).memory
  rw [word_ok _ i (show i < mss by omega)
    (show 0 + 8 * i + 8 ≤ (h.deliver d).iovBase.length by omega), Nat.zero_add,
    hs.load_deliver hfit hi]

/-- The statistic that a data message finds holds what its test has counted. -/
theorem Receiver.measurement_counters {r : Receiver} {clock : Clock} {mtype : MessageType}
    {testId : Nat} {ms : List Measurement} {m : Measurement}
    (h : parseMessageType clock mtype testId r.measurements r.parameter = .ok (.ok (), ms))
    (hm : measurement ms testId = .ok m) :
    m.statistic.counters = r.books.countersOf testId := by
  obtain ⟨rfl, hlt⟩ := parseMessageType_proceeds h
  have hbooks := parseMessageType_books clock .measurement testId r.measurements r.parameter
  rw [h, Books.parse, if_neg (Nat.not_le.mpr hlt), map_ok] at hbooks
  simp only [Except.ok.injEq, Prod.mk.injEq, true_and] at hbooks
  have hstart : ms.map Measurement.book = Books.start r.books.tests testId := hbooks
  have hentry : ms[testId]? = some m := by
    unfold measurement at hm
    split at hm
    · cases hm
      assumption
    · cases hm
  rw [← Books.countersOf_start r.books testId testId, ← hstart]
  simp [Books.countersOf, hentry]

/-- The parser does with a datagram what it should: it returns, the message
type is a known one, and the words it decodes, of the message and of each of
its packets, are in the bytes that have been received. -/
structure Receiver.Parses (build : Build) (clock : Clock) (r : Receiver) (d : Delivery) : Prop where
  ends : ∃ result r', r.recvmsg build clock (.ok d) = .ok (result, r')
  header : ∃ h buffer word, r.msghdr 0 = .ok h ∧
    PacketBuffer.getBufferPointer (h.deliver d) = .ok buffer ∧ buffer.word 0 = .ok word ∧
    word ≤ 2 ∧ buffer.Within 0 (h.receivedBytes d) ∧ buffer.Within 1 (h.receivedBytes d)
  packets : ∀ r' h datagrams packets, r.recvmsg build clock (.ok d) = .ok (.ok (), r') →
    r.msghdr 0 = .ok h → rawSlice (h.deliver d).iovBase (h.receivedBytes d) = .ok datagrams →
    datagrams.chunks (singlePacketSize (h.deliver d) (h.receivedBytes d)) = .ok packets →
    ∀ packet ∈ packets, packet.Within 2 (h.receivedBytes d)

/-- A datagram with the first two words of a header and a known message type.
The end of a test has an entry, and the packets of a data message are whole
and, where a panic would follow, in range. -/
structure Delivery.Parsable (build : Build) (r : Receiver) (d : Delivery) : Prop where
  header : 16 ≤ d.payload.length
  mtype : load d.payload 0 8 ≤ 2
  last : load d.payload 0 8 = 2 → d.testId < maxTestId → d.testId < r.measurements.length
  packets : load d.payload 0 8 = 1 → d.testId < maxTestId → 24 ≤ d.segment ∧
    (d.payload.length % d.segment = 0 ∨ 24 ≤ d.payload.length % d.segment)
  ids : load d.payload 0 8 = 1 → d.testId < maxTestId → build = .debug →
    Counters.InRange d.ids r.nextPacketId (r.books.countersOf d.testId).omitted

section
variable {build : Build} {clock : Clock} {r : Receiver} {h : Msghdr} {d : Delivery}

/-- How the call ends is decided by the header, and by the packets behind a
header that is let through. -/
theorem Receiver.recvmsg_ends_iff (hfirst : r.msghdr 0 = .ok h) (hs : h.Sound mss)
    (hfit : d.payload.length ≤ mss) (hheader : 16 ≤ d.payload.length) {mtype : MessageType}
    (hmtype : load d.payload 0 8 = mtype.code) {result : Except Error Unit} :
    (∃ r', r.recvmsg build clock (.ok d) = .ok (result, r')) ↔
      ∃ ms, parseMessageType clock mtype d.testId r.measurements r.parameter = .ok (result, ms) ∧
        (result = .ok () → ∃ m v, measurement ms d.testId = .ok m ∧
          processPacketMsghdr build (h.deliver d) d.payload.length r.nextPacketId m.statistic =
            .ok v) := by
  have hbuffer := (hs.deliver d).buffer
  have htest := hs.word hfit (show 8 * 1 + 8 ≤ _ by omega)
  have htype := hs.word hfit (show 8 * 0 + 8 ≤ _ by omega)
  rw [show load d.payload (8 * 1) 8 = d.testId from rfl] at htest
  rw [show load d.payload (8 * 0) 8 = mtype.code from hmtype] at htype
  simp only [recvmsg, hfirst, ok_bind, hbuffer, MessageHeader.getTestId, htest,
    MessageHeader.getMessageType, htype, MessageType.ofCode_code, (hs.deliver_fits hfit).2]
  cases parseMessageType clock mtype d.testId r.measurements r.parameter with
  | error f => simp
  | ok v =>
    obtain ⟨parsed, ms⟩ := v
    cases parsed with
    | error e =>
      constructor
      · rintro ⟨r', hr'⟩
        cases hr'
        exact ⟨ms, rfl, by simp⟩
      · rintro ⟨ms', hms', _⟩
        cases hms'
        exact ⟨_, rfl⟩
    | ok u =>
      simp only [ok_bind, bind_ok]
      constructor
      · rintro ⟨r', m, hm, v, hp, hr'⟩
        cases hr'
        exact ⟨ms, rfl, fun _ => ⟨m, v, hm, hp⟩⟩
      · rintro ⟨ms', hms', hgo⟩
        cases hms'
        obtain ⟨m, v, hm, hp⟩ := hgo rfl
        exact ⟨_, m, hm, v, hp, rfl⟩

/-- The packet id of every packet is among the received bytes exactly if the
packets are whole. -/
theorem Msghdr.within_iff (hshort : d.payload.length < 2 ^ 32) (hne : 0 < d.payload.length)
    {packets : List Slice} (hpackets : Slice.chunks ⟨(h.deliver d).iovBase, 0, d.payload.length⟩
      (singlePacketSize (h.deliver d) d.payload.length) = .ok packets) :
    (∀ packet ∈ packets, packet.Within 2 d.payload.length) ↔ 24 ≤ d.segment ∧
      (d.payload.length % d.segment = 0 ∨ 24 ≤ d.payload.length % d.segment) := by
  rw [h.deliver_segment hshort] at hpackets
  exact Slice.chunks_within_iff hne hpackets

/-- Packets that are counted, each from received bytes, are whole. -/
theorem Msghdr.Sound.whole (hs : h.Sound mss) (hshort : d.payload.length < 2 ^ 32)
    (hne : 0 < d.payload.length) {next : Nat} {s : Statistic} {v : Nat × Nat × Statistic}
    (hv : processPacketMsghdr build (h.deliver d) d.payload.length next s = .ok v)
    (hwithin : ∀ datagrams packets,
      rawSlice (h.deliver d).iovBase d.payload.length = .ok datagrams →
      datagrams.chunks (singlePacketSize (h.deliver d) d.payload.length) = .ok packets →
      ∀ packet ∈ packets, packet.Within 2 d.payload.length) :
    24 ≤ d.segment ∧
      (d.payload.length % d.segment = 0 ∨ 24 ≤ d.payload.length % d.segment) := by
  unfold processPacketMsghdr at hv
  rw [if_neg (by simp [(hs.deliver d).iovlen])] at hv
  simp only [bind_ok] at hv
  obtain ⟨datagrams, hraw, packets, hchunks, _⟩ := hv
  obtain ⟨_, rfl⟩ := rawSlice_ok hraw
  exact (within_iff hshort hne hchunks).mp (hwithin _ packets hraw hchunks)

/-- Whole packets are counted in a release build, and in a debug build if they
are in range. -/
theorem Msghdr.Sound.process_ok_iff (hs : h.Sound mss) (hfit : d.payload.length ≤ mss)
    (hshort : d.payload.length < 2 ^ 32) (hseg : 24 ≤ d.segment)
    (htail : d.payload.length % d.segment = 0 ∨ 24 ≤ d.payload.length % d.segment) {next : Nat}
    (hnext : next < 2 ^ 64) {s : Statistic} :
    (∃ v, processPacketMsghdr build (h.deliver d) d.payload.length next s = .ok v) ↔
      (build = .debug → Counters.InRange d.ids next s.counters.omitted) := by
  rw [(hs.packets hfit hshort hseg htail).process_ok, map_returns,
    Counters.arriveAll_ok_iff build hnext]

end

section
variable {build : Build} {clock : Clock} {p : Parameter} {r : Receiver} {h : Msghdr} {d : Delivery}

theorem Receiver.Parses.parsable (hr : Reachable build p r) (hfirst : r.msghdr 0 = .ok h)
    (hs : h.Sound mss) (hfit : d.payload.length ≤ mss) (hshort : d.payload.length < 2 ^ 32)
    (hp : r.Parses build clock d) : d.Parsable build r := by
  have hbytes := (hs.deliver_fits hfit).2
  obtain ⟨⟨result, r', hrecv⟩, ⟨h', buffer, word, hh', hbuffer, hword, hle, _, hin⟩, hwithin⟩ := hp
  cases hfirst.symm.trans hh'
  cases (hs.deliver d).buffer.symm.trans hbuffer
  have hheader : 16 ≤ d.payload.length := by
    rw [hbytes] at hin
    simpa [Slice.Within] using hin
  obtain rfl : load d.payload 0 8 = word :=
    Except.ok.inj ((hs.word hfit (show 8 * 0 + 8 ≤ _ by omega)).symm.trans hword)
  obtain ⟨mtype, hmtype⟩ := MessageType.exists_code hle
  obtain ⟨ms, hparsed, hgo⟩ := (recvmsg_ends_iff hfirst hs hfit hheader hmtype).mp ⟨r', hrecv⟩
  have hdata (hcode : load d.payload 0 8 = 1) (ht : d.testId < maxTestId) :
      (24 ≤ d.segment ∧
        (d.payload.length % d.segment = 0 ∨ 24 ≤ d.payload.length % d.segment)) ∧
      (build = .debug →
        Counters.InRange d.ids r.nextPacketId (r.books.countersOf d.testId).omitted) := by
    obtain rfl : mtype = .measurement := MessageType.code_inj (hmtype.symm.trans hcode)
    rcases parseMessageType_hear hparsed with ⟨hmax, _⟩ | ⟨_, rfl, _⟩
    · omega
    obtain ⟨m, v, hm, hv⟩ := hgo rfl
    have hpackets := hs.whole hshort (by omega) hv
      (hbytes ▸ fun datagrams packets => hwithin r' h datagrams packets hrecv hfirst)
    refine ⟨hpackets, ?_⟩
    rw [← measurement_counters hparsed hm]
    exact (hs.process_ok_iff hfit hshort hpackets.1 hpackets.2 hr.next).mp ⟨v, hv⟩
  refine ⟨hheader, hle, ?_, fun hcode ht => (hdata hcode ht).1, fun hcode ht => (hdata hcode ht).2⟩
  intro hcode
  exact parseMessageType_ok_iff.mp ⟨_, hparsed⟩ (MessageType.code_inj (hmtype.symm.trans hcode))

theorem Delivery.Parsable.parses (hr : Receiver.Reachable build p r) (hfirst : r.msghdr 0 = .ok h)
    (hs : h.Sound mss) (hfit : d.payload.length ≤ mss) (hshort : d.payload.length < 2 ^ 32)
    (hd : d.Parsable build r) : r.Parses build clock d := by
  have hbytes := (hs.deliver_fits hfit).2
  have hheader := hd.header
  obtain ⟨mtype, hmtype⟩ := MessageType.exists_code hd.mtype
  have hends {result : Except Error Unit} :
      (∃ r', r.recvmsg build clock (.ok d) = .ok (result, r')) ↔ _ :=
    Receiver.recvmsg_ends_iff hfirst hs hfit hheader hmtype
  refine ⟨?_, ⟨h, _, _, hfirst, (hs.deliver d).buffer,
    hs.word hfit (show 8 * 0 + 8 ≤ _ by omega), hd.mtype, ?_, ?_⟩, ?_⟩
  · obtain ⟨⟨result, ms⟩, hparsed⟩ : ∃ v, Receiver.parseMessageType clock mtype d.testId
        r.measurements r.parameter = .ok v := by
      apply parseMessageType_ok_iff.mpr
      rintro rfl ht
      exact hd.last hmtype ht
    refine ⟨result, hends.mpr ⟨ms, hparsed, ?_⟩⟩
    rintro rfl
    obtain ⟨rfl, ht⟩ := parseMessageType_proceeds hparsed
    obtain ⟨m, hm⟩ := parseMessageType_found hparsed
    obtain ⟨hseg, htail⟩ := hd.packets hmtype ht
    obtain ⟨v, hv⟩ := (hs.process_ok_iff hfit hshort hseg htail hr.next).mpr (by
      rw [Receiver.measurement_counters hparsed hm]
      exact hd.ids hmtype ht)
    exact ⟨m, v, hm, hv⟩
  · rw [hbytes]
    show 0 + 8 * 0 + 8 ≤ d.payload.length
    omega
  · rw [hbytes]
    show 0 + 8 * 1 + 8 ≤ d.payload.length
    omega
  · intro r' h' datagrams packets hrecv hh' hraw hchunks
    cases hfirst.symm.trans hh'
    rw [hbytes] at hraw hchunks ⊢
    obtain ⟨ms, hparsed, _⟩ := hends.mp ⟨r', hrecv⟩
    obtain ⟨rfl, ht⟩ := parseMessageType_proceeds hparsed
    obtain ⟨_, rfl⟩ := rawSlice_ok hraw
    exact (Msghdr.within_iff hshort (by omega) hchunks).mpr (hd.packets hmtype ht)

end

/-- No content of a datagram makes trouble exactly if the datagram is parsable. -/
theorem content_parsed_iff (args : NPerf) (build : Build) (cores : Nat) (p : Parameter)
    (hparse : args.parseParameter build cores = .ok (some p)) (r : Receiver)
    (hr : Receiver.Reachable build p r) (clock : Clock) (d : Delivery)
    (hfit : d.payload.length ≤ p.mss) :
    r.Parses build clock d ↔ d.Parsable build r := by
  obtain ⟨hs, hn⟩ := hr.sound
  have hmss := NPerf.parseParameter_mss hparse
  obtain ⟨h, hh, hsound⟩ := hs.msghdr_ok hn
  have hfirst : r.msghdr 0 = .ok h := by rw [Receiver.msghdr, hh]
  exact ⟨fun hp => hp.parsable hr hfirst hsound hfit (by omega),
    fun hd => hd.parses hr hfirst hsound hfit (by omega)⟩

/-- The first packet of a test. -/
theorem content_parsed_packet :
    let r := (Receiver.new ⟨0, 0⟩ .headersOnly).toOption.get (by decide)
    r.Parses .debug ⟨1, 1⟩ (.packet .measurement 7 0) := by
  intro r
  refine (content_parsed_iff .headersOnly .debug 8 .headersOnly (by decide +kernel) r
    (.new (show Receiver.new ⟨0, 0⟩ .headersOnly = .ok r from rfl)) ⟨1, 1⟩ _ (by decide)).mpr ?_
  refine ⟨by decide, by decide, ?_, ?_, ?_⟩
  · exact fun hlast => absurd hlast (by decide)
  · exact fun _ _ => by decide
  · exact fun _ _ _ => ⟨by decide, by decide, trivial⟩

/-- An unknown message type, a byte behind the last whole packet, and nothing
at all behind the header that an earlier message has left in the buffer. -/
theorem content_unparsed :
    let r := (Receiver.new ⟨0, 0⟩ (.twoSlots .receiver)).toOption.get (by decide)
    let outcome (r : Receiver) (d : Delivery) := (r.recvmsg .release ⟨1, 1⟩ (.ok d)).map Prod.fst
    let packet := Delivery.packet .measurement 0 0
    outcome r { packet with payload := encode 8 3 ++ encode 8 0 ++ encode 8 0 } =
        .error .invalidEnum ∧
      outcome r { packet with
        payload := packet.payload ++ [0]
        control := [⟨solUdp, udpGro, 24⟩]
        controllen := 24 } = .error .index ∧
      (do
        let (_, r) ← r.recvmsg .release ⟨1, 1⟩ (.ok packet)
        outcome r { packet with payload := [] }) = .error .chunkSize := by
  decide +kernel

end Nperf
