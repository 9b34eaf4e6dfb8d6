import Nperf.Lib.Segments
import Nperf.Proofs.Batching
import Nperf.Proofs.Parameters
import Nperf.Proofs.Sending

namespace Nperf
open Rust Bytes Runs Segments

/-- One datagram of a test on the wire: it starts with a data header. -/
structure Datagram (testId : Nat) (x : Memory) : Prop where
  header : 24 ≤ x.length
  mtype : load x 0 8 = MessageType.measurement.code
  testId : load x 8 8 = testId

/-- The packet id of a datagram. -/
def packetId (x : Memory) : Nat := load x 16 8

/-- What the kernel reads from a msghdr. -/
def Msghdr.payload (h : Msghdr) : Memory := h.iovBase.take h.iovLen

theorem Msghdr.Sound.payload_eq {h : Msghdr} (hs : h.Sound mss) : h.payload = h.iovBase := by
  rw [payload, hs.length, ← hs.memory, List.take_length]

/-- A msghdr is sent as datagrams, one for each slot. -/
theorem Msghdr.Slotted.datagrams {p : Parameter} {testId : Nat} {h : Msghdr}
    (hs : h.Slotted p testId) (hf : p.HeadersFit) (hd : 0 < p.datagramSize) :
    (∀ x ∈ cut p.datagramSize h.payload, Datagram testId x) ∧
      (cut p.datagramSize h.payload).map packetId = h.slotIds p := by
  have hlen : h.iovBase.length = p.mss := hs.sound.memory
  have hslots : (h.iovBase.length + p.datagramSize - 1) / p.datagramSize = p.slots := by
    rw [hlen, Parameter.slots]
  have hload : ∀ i < p.slots, ∀ off, off + 8 ≤ 24 →
      load ((h.iovBase.drop (i * p.datagramSize)).take p.datagramSize) off 8 =
        load h.iovBase (i * p.datagramSize + off) 8 := by
    intro i hi off hoff
    have hsize := hf.datagramSize hd (Nat.zero_lt_of_lt hi)
    rw [load_take _ (by omega), load_drop]
  simp only [hs.sound.payload_eq, cut, hslots]
  constructor
  · intro x hx
    obtain ⟨i, hi, rfl⟩ := List.mem_map.mp hx
    have hi := List.mem_range.mp hi
    have hroom := hf i hi
    have hsize := hf.datagramSize hd (Nat.zero_lt_of_lt hi)
    obtain ⟨hmtype, htest⟩ := hs.headers i hi
    refine ⟨?_, (hload i hi 0 (by omega)).trans hmtype, (hload i hi 8 (by omega)).trans htest⟩
    rw [List.length_take, List.length_drop, hlen]
    omega
  · rw [List.map_map, Msghdr.slotIds]
    apply List.map_congr_left
    intro i hi
    exact hload i (List.mem_range.mp hi) 16 (by omega)

/-- Datagrams in one buffer are whole packets with their ids. -/
theorem Delivery.pieces_ok {d : Delivery} (pieces : List Memory)
    (hpayload : d.payload = pieces.flatten) (hne : pieces ≠ []) (heven : Even d.segment pieces)
    (hd : ∀ x ∈ pieces, 24 ≤ x.length) :
    24 ≤ d.segment ∧ (d.payload.length % d.segment = 0 ∨ 24 ≤ d.payload.length % d.segment) ∧
      d.ids = pieces.map packetId := by
  obtain ⟨x, xs, rfl⟩ := List.exists_cons_of_ne_nil hne
  have hx := hd x List.mem_cons_self
  have hseg : 24 ≤ d.segment := by
    cases xs with
    | nil => exact Nat.le_trans hx heven.2
    | cons y ys => exact heven.1 ▸ hx
  have hcut : cut d.segment d.payload = x :: xs := hpayload ▸ cut_flatten (by omega) heven
  refine ⟨hseg, cut_tail (by omega) (fun y hy => hd y (hcut ▸ hy)), ?_⟩
  rw [← hcut, cut, List.map_map]
  apply List.map_congr_left
  intro i _
  simp only [Function.comp, packetId]
  rw [load_take _ (by omega), load_drop]

/-- Datagrams in one buffer read as a message with all their packet ids. -/
theorem Delivery.read_pieces {d : Delivery} {testId : Nat} (pieces : List Memory)
    (hpayload : d.payload = pieces.flatten) (hne : pieces ≠ []) (heven : Even d.segment pieces)
    (hd : ∀ x ∈ pieces, Datagram testId x) (hshort : d.payload.length < 2 ^ 32) :
    d.read = some ⟨.measurement, testId, pieces.map packetId, d.payload.length⟩ := by
  obtain ⟨hseg, htail, hids⟩ := Delivery.pieces_ok pieces hpayload hne heven
    (fun x hx => (hd x hx).header)
  obtain ⟨x, xs, rfl⟩ := List.exists_cons_of_ne_nil hne
  have hx := hd x List.mem_cons_self
  have hlen : 24 ≤ d.payload.length := by
    have := hx.header
    rw [hpayload, List.flatten_cons, List.length_append]
    omega
  have hload : ∀ off, off + 8 ≤ 24 → load d.payload off 8 = load x off 8 := by
    intro off hoff
    have := hx.header
    rw [hpayload, List.flatten_cons, load_append_left _ _ (by omega)]
  rw [Delivery.read, if_pos ⟨hlen, hshort, hseg, htail⟩, hload 0 (by omega), hload 8 (by omega),
    hx.mtype, hx.testId, MessageType.ofCode_code, hids]

/-- Packets that come in order are neither missing nor late. -/
theorem arriveAll_in_order (build : Build) {next n : Nat} (h : next + n < 2 ^ 64) (c : Counters) :
    Counters.arriveAll build (List.range' next n) next c = .ok (next + n, c) := by
  induction n generalizing next with
  | zero => rfl
  | succ n ih =>
    have hone : build.u64 ((next : Int) + (1 : Nat)) = .ok (next + 1) :=
      Counters.u64_add build (by omega)
    simp only [List.range'_succ, Counters.arriveAll, Counters.arrive, Counters.verdict, ↓reduceIte,
      ok_bind, hone, ih (show next + 1 + n < 2 ^ 64 by omega)]
    rw [Nat.add_assoc, Nat.add_comm 1 n]

/-- A receive buffer: the msghdr as it was before the call, the datagrams the
kernel has put together, and what it has left in the msghdr. -/
structure GroBuffer where
  msghdr : Msghdr
  datagrams : List Memory
  delivery : Delivery

/-- The kernel coalesces datagrams of one size and reports it; the last one may
be shorter. A single datagram may come as it is. -/
structure GroBuffer.Coalesced (size : Nat) (b : GroBuffer) : Prop where
  sound : b.msghdr.Sound size
  fits : b.delivery.payload.length ≤ size
  payload : b.delivery.payload = b.datagrams.flatten
  segment : (b.delivery.control = [] ∧ ∃ x, b.datagrams = [x]) ∨
    b.datagrams ≠ [] ∧ ∃ segmentSize, b.delivery.control = [⟨solUdp, udpGro, segmentSize⟩] ∧
      16 ≤ b.delivery.controllen ∧ Even segmentSize b.datagrams

/-- Feed buffers to `process_packet_msghdr`: the next packet id, the datagrams
received so far and the counters. -/
def processBuffers (build : Build) :
    List GroBuffer → Nat × Nat × Statistic → Except Fault (Nat × Nat × Statistic)
  | [], acc => .ok acc
  | b :: bs, (nextPacketId, received, statistic) => do
    let (nextPacketId, datagrams, statistic) ← processPacketMsghdr build
      (b.msghdr.deliver b.delivery) (b.msghdr.receivedBytes b.delivery) nextPacketId statistic
    processBuffers build bs (nextPacketId, received + datagrams, statistic)

theorem GroBuffer.Coalesced.packets {size : Nat} {b : GroBuffer} (hb : b.Coalesced size)
    (hsize : size < 2 ^ 32) (hd : ∀ x ∈ b.datagrams, 24 ≤ x.length) :
    (b.msghdr.deliver b.delivery).Packets (b.msghdr.receivedBytes b.delivery)
      (b.datagrams.map packetId) := by
  have hshort := Nat.lt_of_le_of_lt hb.fits hsize
  have hpieces : b.datagrams ≠ [] ∧ Even b.delivery.segment b.datagrams := by
    rcases hb.segment with ⟨hcontrol, x, hx⟩ | ⟨hne, segmentSize, hcontrol, hlen, heven⟩
    · have hone : b.delivery.payload = x := by rw [hb.payload, hx]; simp
      have hseg : b.delivery.segment = x.length := by
        simp only [Delivery.segment, getGsoSizeFromCmsg, hcontrol, List.find?_nil, Option.map_none,
          ite_self, Option.getD_none, hone]
      rw [hx, hseg]
      have := hd x (by rw [hx]; simp)
      exact ⟨by simp, by omega, Nat.le_refl _⟩
    · have hseg : b.delivery.segment = segmentSize := by
        simp only [Delivery.segment, getGsoSizeFromCmsg, hcontrol]
        rw [if_neg (by omega)]
        rfl
      exact ⟨hne, hseg ▸ heven⟩
  obtain ⟨hseg, htail, hids⟩ :=
    Delivery.pieces_ok b.datagrams hb.payload hpieces.1 hpieces.2 hd
  rw [(hb.sound.deliver_fits hb.fits).2, ← hids]
  exact hb.sound.packets hb.fits hshort hseg htail

/-- Buffers are counted by the packet ids of their datagrams. -/
theorem processBuffers_arriveAll (build : Build) {size : Nat} (hsize : size < 2 ^ 32)
    {bs : List GroBuffer} (hb : ∀ b ∈ bs, b.Coalesced size)
    (hd : ∀ b ∈ bs, ∀ x ∈ b.datagrams, 24 ≤ x.length) (next received : Nat) (s : Statistic) :
    processBuffers build bs (next, received, s) =
      (Counters.arriveAll build ((bs.flatMap GroBuffer.datagrams).map packetId) next
        s.counters).map (fun (next, c) => (next,
          received + ((bs.flatMap GroBuffer.datagrams).map packetId).length,
          s.withCounters c)) := by
  induction bs generalizing next received s with
  | nil => rfl
  | cons b bs ih =>
    obtain ⟨hfirst, hrest⟩ := List.forall_mem_cons.mp hb
    obtain ⟨hdfirst, hdrest⟩ := List.forall_mem_cons.mp hd
    simp only [processBuffers, (hfirst.packets hsize hdfirst).process_ok, map_then,
      List.flatMap_cons, List.map_append, Counters.arriveAll_append, List.length_append]
    cases Counters.arriveAll build (b.datagrams.map packetId) next s.counters with
    | error f => rfl
    | ok v =>
      simp only [ok_bind, ih hrest hdrest, Statistic.counters_withCounters,
        Statistic.withCounters_withCounters, Nat.add_assoc]

/-- Whatever a sender sends and however the kernel cuts and coalesces it, the
receiver counts the same packets and finds none missing, late or twice. -/
theorem gso_gro_agree (build : Build) (clock : Clock) (testId : Nat) (ht : testId < 2 ^ 64)
    (p : Parameter) (s₀ : Sender) (hnew : Sender.new clock testId p = .ok s₀)
    (calls : List SendCall) (hc : ∀ c ∈ calls, c.Ordinary p) (s : Sender) (sent : List Msghdr)
    (hrun : run SendCall.step (s₀, []) calls = .ok (s, sent)) (size : Nat) (hsize : size < 2 ^ 32)
    (bs : List GroBuffer) (hb : ∀ b ∈ bs, b.Coalesced size)
    (hwire : bs.flatMap GroBuffer.datagrams =
      sent.flatMap (fun h => cut p.datagramSize h.payload))
    (clock' : Clock) (p' : Parameter) :
    ∃ statistic, processBuffers build bs (0, 0, Statistic.new clock' p') =
        .ok (s.nextPacketId, s.statistic.amountDatagrams, statistic) ∧
      statistic.amountOmittedDatagrams = 0 ∧ statistic.amountReorderedDatagrams = 0 ∧
      statistic.amountDuplicatedDatagrams = 0 := by
  obtain ⟨_, hf, hd, _⟩ := Sender.new_ok ht hnew
  have hs := (Sending.new ht hnew).run hf hd hc hrun
  have hids : (bs.flatMap GroBuffer.datagrams).map packetId = List.range s.nextPacketId := by
    rw [hwire, List.map_flatMap, ← hs.ids, List.flatMap_def, List.flatMap_def,
      List.map_congr_left (fun h hh => ((hs.slotted h hh).datagrams hf hd).2)]
  have hdatagrams : ∀ b ∈ bs, ∀ x ∈ b.datagrams, Datagram testId x := by
    intro b hb x hx
    have hmem := List.mem_flatMap.mpr ⟨b, hb, hx⟩
    rw [hwire] at hmem
    obtain ⟨h, hh, hx⟩ := List.mem_flatMap.mp hmem
    exact ((hs.slotted h hh).datagrams hf hd).1 x hx
  have hrange := hs.range
  refine ⟨(Statistic.new clock' p').withCounters Counters.zero, ?_, rfl, rfl, rfl⟩
  rw [processBuffers_arriveAll build hsize hb (fun b hb x hx => (hdatagrams b hb x hx).header),
    hids, List.range_eq_range',
    arriveAll_in_order build (by simpa using hrange), map_ok, List.length_range', Nat.zero_add,
    hs.counted]
  rfl

/-- Entering packets in order moves the cursor and counts them, no more. -/
theorem Books.receive_in_order {b : Books} {build : Build} {m : Message} {k : Nat}
    (hm : m.mtype = .measurement) (ht : m.testId < maxTestId)
    (hids : m.ids = List.range' b.next k) (hfit : b.next + k < 2 ^ 64) :
    ∃ b', b.receive build [m] = .ok (.ok (), b') ∧ b'.next = b.next + k ∧
      b'.countersOf m.testId = (b.countersOf m.testId).count k m.bytes := by
  have hflat : [m].flatMap Message.ids = List.range' b.next k := by simp [hids]
  have hbytes : ([m].map Message.bytes).sum = m.bytes := by simp
  obtain ⟨book, hbook⟩ : ∃ book, (start b.tests m.testId)[m.testId]? = some book := by
    have hlt : m.testId < (start b.tests m.testId).length := by
      rw [start, List.length_modify, length_grow]
      omega
    exact ⟨_, List.getElem?_eq_getElem hlt⟩
  obtain ⟨hlt, _⟩ := List.getElem?_eq_some_iff.mp hbook
  have hcounters : book.counters = b.countersOf m.testId := by
    rw [← b.countersOf_start m.testId m.testId]
    simp [countersOf, hbook]
  refine ⟨{ next := b.next + k
            tests := (start b.tests m.testId).set m.testId { book with
              counters := book.counters.count k m.bytes } }, ?_, rfl, ?_⟩
  · rw [receive_measurement hm ht, hflat, hbytes, enter]
    simp only [hbook, arriveAll_in_order build hfit, ok_bind, map_ok, List.length_range']
  · rw [← hcounters]
    simp [countersOf, hlt]

theorem Books.receiveEach_in_order {build : Build} {testId : Nat} (ht : testId < maxTestId)
    {ms : List Message} (hms : ∀ m ∈ ms, m.mtype = .measurement ∧ m.testId = testId) {b : Books}
    {n : Nat} (hids : ms.flatMap Message.ids = List.range' b.next n)
    (hfit : b.next + n < 2 ^ 64) :
    ∃ results b', b.receiveEach build ms = .ok (results, b') ∧
      (b'.countersOf testId).omitted = (b.countersOf testId).omitted := by
  induction ms generalizing b n with
  | nil => exact ⟨[], b, rfl, rfl⟩
  | cons m ms ih =>
    obtain ⟨⟨hm, rfl⟩, hrest⟩ := List.forall_mem_cons.mp hms
    have hlen := congrArg List.length hids
    rw [List.flatMap_cons, List.length_append, List.length_range'] at hlen
    obtain ⟨j, rfl⟩ : ∃ j, n = m.ids.length + j := ⟨_, hlen.symm⟩
    rw [List.flatMap_cons, ← List.range'_append_1] at hids
    obtain ⟨hfirst, hothers⟩ := List.append_inj hids (by simp)
    obtain ⟨b₁, hr, hnext, hcounters⟩ := receive_in_order hm ht hfirst (by omega)
    obtain ⟨results, b', heach, homitted⟩ := ih hrest (hnext ▸ hothers) (by omega)
    refine ⟨_, b', receiveEach_cons.mpr ⟨_, b₁, results, hr, heach, rfl⟩, ?_⟩
    rw [homitted, hcounters]
    rfl

/-- A message as it arrives without segmentation offload. -/
def Msghdr.datagram (h : Msghdr) : Delivery :=
  { payload := h.payload
    control := []
    controllen := 0
    flags := 0 }

theorem Parameter.HeadersFit.header {p : Parameter} (hf : p.HeadersFit) (hmss : 0 < p.mss)
    (hd : 0 < p.datagramSize) : 0 < p.slots ∧ 24 ≤ p.mss := by
  obtain ⟨hcover, _⟩ := p.slots_cover hd
  have hslots : 0 < p.slots := by
    apply Nat.pos_of_ne_zero
    intro hzero
    rw [hzero] at hcover
    omega
  have := hf 0 hslots
  exact ⟨hslots, by omega⟩

/-- It is one packet, the first of its slots. -/
theorem Msghdr.Slotted.read_datagram {p : Parameter} {testId : Nat} {h : Msghdr}
    (hs : h.Slotted p testId) (hf : p.HeadersFit) (hmss : 0 < p.mss) (hd : 0 < p.datagramSize)
    (hshort : p.mss < 2 ^ 32) :
    h.datagram.read = some ⟨.measurement, testId, [packetId h.payload], p.mss⟩ := by
  obtain ⟨hslots, h24⟩ := hf.header hmss hd
  obtain ⟨hmtype, htest⟩ := hs.headers 0 hslots
  have hlen : h.payload.length = p.mss := hs.sound.payload_eq ▸ hs.sound.memory
  have hx : Datagram testId h.payload := by
    refine ⟨by omega, ?_, ?_⟩
    · rw [hs.sound.payload_eq, ← hmtype, Nat.zero_mul]
    · rw [hs.sound.payload_eq, ← htest, Nat.zero_mul]
  have hseg : h.datagram.segment = p.mss := hlen
  have hread := Delivery.read_pieces (d := h.datagram) [h.payload]
    (by simp [Msghdr.datagram]) (by simp) ⟨by omega, Nat.le_of_eq (hlen.trans hseg.symm)⟩
    (fun x hm => List.mem_singleton.mp hm ▸ hx) (by rw [Msghdr.datagram, hlen]; exact hshort)
  rw [hread, Msghdr.datagram, hlen]
  rfl

/-- A message of two datagrams, received as it was sent. -/
theorem gso_gro_agree_two :
    ∃ s sent statistic, run SendCall.step
        ((Sender.new ⟨0, 0⟩ 7 (Parameter.twoSlots .sender)).toOption.get (by decide), [])
        [.sendmsg (.error .eagain), .sendmsg (.ok 48)] = .ok (s, sent) ∧
      processBuffers .debug (sent.map (fun h =>
          { msghdr := WrapperMsghdr.createMsghdr (List.replicate 48 0)
            datagrams := cut 24 h.payload
            delivery := ⟨h.payload, [⟨solUdp, udpGro, 24⟩], 24, 0⟩ }))
        (0, 0, Statistic.new ⟨1, 1⟩ Parameter.headersOnly) =
          .ok (s.nextPacketId, s.statistic.amountDatagrams, statistic) := by
  obtain ⟨⟨s, sent⟩, hrun, hlen⟩ := checked
    (x := run SendCall.step
      ((Sender.new ⟨0, 0⟩ 7 (Parameter.twoSlots .sender)).toOption.get (by decide), [])
      [.sendmsg (.error .eagain), .sendmsg (.ok 48)])
    (p := fun v => ∀ h ∈ v.2, h.payload.length = 48) (by decide +kernel)
  obtain ⟨statistic, hprocess, _⟩ := gso_gro_agree .debug ⟨0, 0⟩ 7 (by decide)
    (Parameter.twoSlots .sender) _ rfl [.sendmsg (.error .eagain), .sendmsg (.ok 48)] (by
      simp only [List.forall_mem_cons, List.not_mem_nil, false_implies, implies_true, and_true]
      exact ⟨⟨rfl, Or.inl rfl⟩, rfl, Or.inr ⟨48, rfl⟩⟩)
    s sent hrun 48 (by decide) (sent.map (fun h =>
      { msghdr := WrapperMsghdr.createMsghdr (List.replicate 48 0)
        datagrams := cut 24 h.payload
        delivery := ⟨h.payload, [⟨solUdp, udpGro, 24⟩], 24, 0⟩ })) (by
      intro b hb
      obtain ⟨h, hh, rfl⟩ := List.mem_map.mp hb
      have hpayload : h.payload.length = 48 := hlen h hh
      have hcut : cut 24 h.payload = [h.payload.take 24, h.payload.drop 24] := by
        have htwo : (h.payload.drop 24).take 24 = h.payload.drop 24 :=
          List.take_of_length_le (by rw [List.length_drop]; omega)
        simp [cut, hpayload, List.range_succ, htwo]
      refine ⟨⟨rfl, rfl, rfl⟩, Nat.le_of_eq hpayload, by simp [hcut], Or.inr ⟨by simp [hcut], 24,
        rfl, (by decide : 16 ≤ 24), ?_⟩⟩
      simp [hcut, Segments.Even, hpayload])
    (by simp [List.flatMap_map]; rfl) ⟨1, 1⟩ Parameter.headersOnly
  exact ⟨s, sent, statistic, hrun, hprocess⟩

/-- What a message of the sender says to a receiver without segmentation offload. -/
def Msghdr.plain (p : Parameter) (testId : Nat) (h : Msghdr) : Message :=
  ⟨.measurement, testId, [packetId h.payload], p.mss⟩

theorem filterMap_read {p : Parameter} {testId : Nat} {sent : List Msghdr}
    (h : ∀ h ∈ sent, h.datagram.read = some (h.plain p testId)) :
    (sent.map Msghdr.datagram).filterMap Delivery.read = sent.map (Msghdr.plain p testId) := by
  induction sent with
  | nil => rfl
  | cons x sent ih =>
    obtain ⟨hx, hrest⟩ := List.forall_mem_cons.mp h
    rw [List.map_cons, List.filterMap_cons, hx, ih hrest]
    rfl

theorem Receiver.recvEach_plain {p p' : Parameter} {testId : Nat} {sent : List Msghdr}
    (hs : ∀ h ∈ sent, h.Slotted p testId) (hf : p.HeadersFit) (hmss : 0 < p.mss)
    (hd : 0 < p.datagramSize) (hshort : p.mss < 2 ^ 32) (hsame : p.mss = p'.mss) {clock : Clock}
    {r : Receiver} (hr : Receiver.new clock p' = .ok r) {arrivals : List (Clock × Delivery)}
    (hwire : arrivals.map Prod.snd = sent.map Msghdr.datagram) (build : Build) :
    (r.recvEach build arrivals).map (fun (results, r) => (results, r.books)) =
      Books.receiveEach build ⟨0, []⟩ (sent.map (Msghdr.plain p testId)) := by
  obtain ⟨hsound, hn, _, hnext, hms⟩ := Receiver.new_ok hr
  have hread : ∀ h ∈ sent, h.datagram.read = some (h.plain p testId) :=
    fun h hh => (hs h hh).read_datagram hf hmss hd hshort
  have harrive : ∀ e ∈ arrivals, ∃ h ∈ sent, e.2 = h.datagram := by
    intro e he
    obtain ⟨h, hh, hd⟩ := List.mem_map.mp (hwire ▸ List.mem_map_of_mem (f := Prod.snd) he)
    exact ⟨h, hh, hd.symm⟩
  have hmessages : arrivals.filterMap (fun e => e.2.read) = sent.map (Msghdr.plain p testId) := by
    have hmap : arrivals.filterMap (fun e => e.2.read) =
        (arrivals.map Prod.snd).filterMap Delivery.read := by
      rw [List.filterMap_map]
      rfl
    rw [hmap, hwire]
    exact filterMap_read hread
  rw [recvEach_books hsound hn, hmessages]
  · simp only [Receiver.books, hnext, hms, List.map_nil]
  · intro e he
    obtain ⟨h, hh, heq⟩ := harrive e he
    have hlen : h.payload.length = p.mss := (hs h hh).sound.payload_eq ▸ (hs h hh).sound.memory
    rw [heq]
    exact ⟨Nat.le_of_eq (hlen.trans hsame), _, hread h hh⟩

theorem packetsOf_plain (p : Parameter) (testId : Nat) (sent : List Msghdr) :
    Books.packetsOf testId (sent.map (Msghdr.plain p testId)) = sent.length := by
  induction sent with
  | nil => rfl
  | cons h sent ih =>
    simp only [Books.packetsOf, List.map_cons, List.sum_cons] at ih ⊢
    simp only [ih, Msghdr.plain, true_and, ↓reduceIte, List.length_cons, List.length_nil]
    omega

theorem length_plain_ids (p : Parameter) (testId : Nat) (sent : List Msghdr) :
    ((sent.map (Msghdr.plain p testId)).flatMap Message.ids).length = sent.length := by
  induction sent with
  | nil => rfl
  | cons h sent ih =>
    rw [List.map_cons, List.flatMap_cons, List.length_append, ih, List.length_cons, Nat.add_comm]
    rfl

/-- Messages of one packet carry all ids, longer ones do not. -/
theorem plain_ids {p : Parameter} {testId : Nat} {sent : List Msghdr} {ids : List Nat}
    (hd : 0 < p.datagramSize) (hslots : 0 < p.slots) (hs : ∀ h ∈ sent, h.Slotted p testId)
    (hids : sent.flatMap (Msghdr.slotIds p) = ids)
    (hsingle : p.mss ≤ p.datagramSize ∨ sent = []) :
    (sent.map (Msghdr.plain p testId)).flatMap Message.ids = ids := by
  rw [← hids]
  rcases hsingle with hsmall | rfl
  · have hone := (p.slots_eq_one_iff hd hslots).mpr hsmall
    rw [List.flatMap_map, List.flatMap_def, List.flatMap_def]
    congr 1
    apply List.map_congr_left
    intro h hh
    simp [Msghdr.plain, Msghdr.slotIds, hone, packetId, (hs h hh).sound.payload_eq]
  · rfl

theorem single_of_length {p : Parameter} {sent : List Msghdr} (hd : 0 < p.datagramSize)
    (hslots : 0 < p.slots) (hlen : sent.length * p.slots = sent.length) :
    p.mss ≤ p.datagramSize ∨ sent = [] := by
  by_cases hsmall : p.mss ≤ p.datagramSize
  · exact .inl hsmall
  · right
    have hmany : 2 ≤ p.slots := by
      apply Nat.lt_of_le_of_ne hslots
      intro hone
      exact hsmall ((p.slots_eq_one_iff hd hslots).mp hone.symm)
    have hdouble := Nat.mul_le_mul_left sent.length hmany
    exact List.eq_nil_of_length_eq_zero (by omega)

/-- Without segmentation offload both ends count the same packets exactly if
the sender puts one packet into a message, or sends none. -/
theorem plain_agree_iff (build : Build) (args args' : NPerf) (cores cores' : Nat)
    (p p' : Parameter) (hp : args.parseParameter build cores = .ok (some p))
    (_hp' : args'.parseParameter build cores' = .ok (some p'))
    (hgsro : args.withGsro = false ∧ args'.withGsro = false)
    (hfunction : args.exchangeFunction = .msg ∧ args'.exchangeFunction = .msg)
    (hio : args.ioModel ≠ .ioUring ∧ args'.ioModel ≠ .ioUring)
    (hmode : args.uringMode = .normal ∧ args'.uringMode = .normal)
    (hsame : p.mss = p'.mss ∧ p.datagramSize = p'.datagramSize) (hmss : 0 < p.mss)
    (clock clock' : Clock) (testId : Nat) (ht : testId < maxTestId) (s₀ : Sender) (r₀ : Receiver)
    (hs₀ : Sender.new clock testId p = .ok s₀) (hr₀ : Receiver.new clock' p' = .ok r₀)
    (kernel : List (Except Error Nat))
    (hk : ∀ k ∈ kernel, k = .error .eagain ∨ ∃ bytes, k = .ok bytes) (s : Sender)
    (sent : List Msghdr)
    (hrun : run SendCall.step (s₀, []) (kernel.map .sendmsg) = .ok (s, sent))
    (arrivals : List (Clock × Delivery))
    (hwire : arrivals.map Prod.snd = sent.map Msghdr.datagram) :
    (∃ results r, r₀.recvEach build arrivals = .ok (results, r) ∧
        (r.tallyOf testId).1 = s.statistic.amountDatagrams ∧ (r.tallyOf testId).2.1 = 0) ↔
      p.mss ≤ p.datagramSize ∨ sent = [] := by
  obtain ⟨hshort, hone⟩ := NPerf.parseParameter_msg hp hgsro.1 hfunction.1 hio.1 hmode.1
  have htest : testId < 2 ^ 64 := Nat.lt_trans ht (by decide)
  obtain ⟨_, hf, hd, _⟩ := Sender.new_ok htest hs₀
  obtain ⟨hslots, h24⟩ := hf.header hmss hd
  have hcalls : ∀ c ∈ kernel.map SendCall.sendmsg, c.Ordinary p := by
    intro c hc
    obtain ⟨k, hmem, rfl⟩ := List.mem_map.mp hc
    exact ⟨hone, hk k hmem⟩
  have hs := (Sending.new htest hs₀).run hf hd hcalls hrun
  have hids := hs.ids
  have hcounted := hs.counted
  have hrange := hs.range
  simp only at hids hcounted hrange
  have heach := Receiver.recvEach_plain hs.slotted hf hmss hd hshort hsame.1 hr₀ hwire build
  have hall : ∀ m ∈ sent.map (Msghdr.plain p testId), m.mtype = .measurement ∧
      m.testId = testId := by
    intro m hm
    obtain ⟨h, _, rfl⟩ := List.mem_map.mp hm
    exact ⟨rfl, rfl⟩
  have hlen : sent.length * p.slots = s.nextPacketId := by
    have := congrArg List.length hids
    simpa [List.length_flatMap, List.map_const', List.sum_replicate_nat] using this
  have htests : ∀ m ∈ sent.map (Msghdr.plain p testId), m.testId < maxTestId :=
    fun m hm => (hall m hm).2 ▸ ht
  constructor
  · rintro ⟨results, r, hr, hdatagrams, _⟩
    rw [hr, map_ok] at heach
    have hreceived := (Books.receiveEach_counted htests heach.symm).2 testId
    rw [packetsOf_plain] at hreceived
    have hsent : sent.length = s.nextPacketId := by
      rw [r.tallyOf_books, hcounted] at hdatagrams
      rw [← hdatagrams]
      simpa [Books.countersOf, Counters.tally, Counters.zero] using hreceived.symm
    rw [← hsent] at hlen
    exact single_of_length hd hslots hlen
  · intro hcond
    have hplain := plain_ids hd hslots hs.slotted hids hcond
    rw [List.range_eq_range'] at hplain
    obtain ⟨results, b', hb, homitted⟩ := Books.receiveEach_in_order ht hall
      (b := ⟨0, []⟩) hplain (by simpa using hrange)
    rw [hb] at heach
    obtain ⟨⟨results, r⟩, hr, hv⟩ := map_eq_ok.mp heach
    cases hv
    refine ⟨_, r, hr, ?_⟩
    have hreceived := (Books.receiveEach_counted htests hb).2 testId
    rw [packetsOf_plain] at hreceived
    have hsent : sent.length = s.nextPacketId := by
      have := congrArg List.length hplain
      rwa [length_plain_ids, List.length_range'] at this
    rw [r.tallyOf_books, hcounted, ← hsent]
    refine ⟨?_, homitted⟩
    simpa [Books.countersOf, Counters.tally, Counters.zero] using hreceived

/-- Three messages of one packet each, with a send in between that the kernel
refuses. -/
theorem plain_agree_three :
    ∃ s sent, run SendCall.step
        ((Sender.new ⟨0, 0⟩ 7 { Parameter.headersOnly with mode := .sender }).toOption.get
          (by decide), []) ([.ok 24, .ok 24, .error .eagain, .ok 24].map .sendmsg) =
        .ok (s, sent) ∧ sent.length = 3 ∧
      ∃ results r, ((Receiver.new ⟨0, 0⟩ Parameter.headersOnly).toOption.get (by decide)).recvEach
          .debug (sent.map (fun h => (⟨1, 1⟩, h.datagram))) = .ok (results, r) ∧
        (r.tallyOf 7).1 = s.statistic.amountDatagrams ∧ (r.tallyOf 7).2.1 = 0 := by
  obtain ⟨⟨s, sent⟩, hrun, hthree⟩ := checked
    (x := run SendCall.step
      ((Sender.new ⟨0, 0⟩ 7 { Parameter.headersOnly with mode := .sender }).toOption.get
        (by decide), []) ([.ok 24, .ok 24, .error .eagain, .ok 24].map .sendmsg))
    (p := fun v => v.2.length = 3) (by decide +kernel)
  refine ⟨s, sent, hrun, hthree, (plain_agree_iff .debug { NPerf.headersOnly with mode := .sender }
    NPerf.headersOnly 8 8 { Parameter.headersOnly with mode := .sender } Parameter.headersOnly
    (by decide +kernel) (by decide +kernel) ⟨rfl, rfl⟩ ⟨rfl, rfl⟩ ⟨by decide, by decide⟩ ⟨rfl, rfl⟩
    ⟨rfl, rfl⟩ (by decide) ⟨0, 0⟩ ⟨0, 0⟩ 7 (by decide) _ _ rfl rfl
    [.ok 24, .ok 24, .error .eagain, .ok 24] ?_ s sent hrun _ ?_).mpr (Or.inl (by decide))⟩
  · simp
  · rw [List.map_map]
    rfl

/-- A message of two packets counts for two at the sender and for one at the
receiver. -/
theorem plain_disagree :
    (NPerf.twoSlots .sender).parseParameter .debug 8 = .ok (some (Parameter.twoSlots .sender)) ∧
    (NPerf.twoSlots .receiver).parseParameter .debug 8 =
      .ok (some (Parameter.twoSlots .receiver)) ∧
    (do
      let s ← Sender.new ⟨0, 0⟩ 7 (Parameter.twoSlots .sender)
      let (s, sent) ← run SendCall.step (s, []) [.sendmsg (.ok 48)]
      let r ← Receiver.new ⟨0, 0⟩ (Parameter.twoSlots .receiver)
      let (_, r) ← r.recvEach .debug (sent.map (fun h => (⟨1, 1⟩, h.datagram)))
      .ok (s.statistic.amountDatagrams, r.tallyOf 7) : Except Fault _) =
        .ok (2, (1, 0, 0, 0)) := by
  refine ⟨?_, ?_, ?_⟩ <;> decide +kernel

end Nperf
