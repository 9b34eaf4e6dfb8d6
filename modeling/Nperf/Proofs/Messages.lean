import Nperf.Ledger.Books

namespace Nperf
open Rust Bytes

/-- A msghdr as the program sets it up: one iovec over a buffer of `mss` bytes. -/
structure Msghdr.Sound (mss : Nat) (h : Msghdr) : Prop where
  iovlen : h.msgIovlen = 1
  length : h.iovLen = mss
  memory : h.iovBase.length = mss

theorem Msghdr.Sound.buffer {h : Msghdr} (hs : h.Sound mss) :
    PacketBuffer.getBufferPointer h = .ok ⟨h.iovBase, 0, mss⟩ := by
  have hlen := hs.length
  have hmem := hs.memory
  rw [PacketBuffer.getBufferPointer, rawSlice, if_pos (by omega), hlen]

structure PacketBuffer.Sound (mss n : Nat) (b : PacketBuffer) : Prop where
  size : b.mmsghdrVec.length = n
  msghdrs : ∀ m ∈ b.mmsghdrVec, m.msgHdr.Sound mss

theorem Msghdr.Sound.deliver {h : Msghdr} (hs : h.Sound mss) (d : Delivery) :
    (h.deliver d).Sound mss := by
  refine ⟨hs.iovlen, hs.length, ?_⟩
  have hl := hs.length
  have hm := hs.memory
  simp only [Msghdr.deliver, List.length_append, List.length_take, List.length_drop]
  omega

theorem Msghdr.Sound.reset {h : Msghdr} (hs : h.Sound mss) :
    (PacketBuffer.resetMsghdr h).Sound mss :=
  ⟨hs.iovlen, hs.length, hs.memory⟩

theorem PacketBuffer.Sound.setMsghdr {b : PacketBuffer} (hs : b.Sound mss n) {h : Msghdr}
    (hh : h.Sound mss) (index : Nat) : (b.setMsghdr index h).Sound mss n := by
  refine ⟨by simp [PacketBuffer.setMsghdr, hs.size], ?_⟩
  intro m hm
  simp only [PacketBuffer.setMsghdr] at hm
  obtain ⟨i, hi, rfl⟩ := List.mem_iff_getElem.mp hm
  simp only [List.getElem_modify]
  split
  · exact hh
  · exact hs.msghdrs _ (List.getElem_mem _)

theorem PacketBuffer.Sound.getMsghdrFromIndex {b : PacketBuffer} (hs : b.Sound mss n)
    {index : Nat} {h : Msghdr} (hg : b.getMsghdrFromIndex index = .ok h) : h.Sound mss := by
  unfold PacketBuffer.getMsghdrFromIndex at hg
  split at hg
  · rename_i m hm
    cases hg
    exact hs.msghdrs m (List.mem_of_getElem? hm)
  · cases hg

theorem PacketBuffer.Sound.msghdr_ok {b : PacketBuffer} (hs : b.Sound mss n) {index : Nat}
    (hi : index < n) : ∃ h, b.getMsghdrFromIndex index = .ok h ∧ h.Sound mss := by
  have hlt : index < b.mmsghdrVec.length := hs.size ▸ hi
  have hg : b.getMsghdrFromIndex index = .ok b.mmsghdrVec[index].msgHdr := by
    simp [PacketBuffer.getMsghdrFromIndex, hlt]
  exact ⟨_, hg, hs.getMsghdrFromIndex hg⟩

theorem PacketBuffer.getBufferIndex_ok {b b' : PacketBuffer} {index : Nat}
    (h : b.getBufferIndex = .ok (index, b')) :
    b' = { b with indexPool := b'.indexPool } ∧ b.indexPool = b'.indexPool ++ [index] := by
  unfold getBufferIndex at h
  split at h
  · rename_i hlast
    cases h
    obtain ⟨front, hfront⟩ := List.getLast?_eq_some_iff.mp hlast
    exact ⟨rfl, by simp [hfront]⟩
  · cases h

theorem mapM_replicate_ok {f : α → Except ε β} {a : α} {b : β} (h : f a = .ok b) (n : Nat) :
    (List.replicate n a).mapM f = .ok (List.replicate n b) := by
  induction n with
  | zero => rfl
  | succ n ih => simp [List.replicate_succ, List.mapM_cons, h, ih, pure, Except.pure]

theorem mapM_replicate_inv {f : α → Except ε β} {a : α} {bs : List β} {n : Nat} (hn : 0 < n)
    (h : (List.replicate n a).mapM f = .ok bs) : ∃ b, f a = .ok b ∧ bs = List.replicate n b := by
  cases hf : f a with
  | error e =>
    obtain ⟨k, rfl⟩ := Nat.exists_eq_add_of_lt hn
    simp [List.replicate_succ, List.mapM_cons, hf] at h
  | ok b =>
    rw [mapM_replicate_ok hf] at h
    cases h
    exact ⟨b, rfl, rfl⟩

/-- The wrapped msghdr that `WrapperMsghdr::new` builds. -/
def WrapperMsghdr.blank (mss datagramSize : Nat) : WrapperMsghdr :=
  { msghdr := createMsghdr (List.replicate mss 0)
    bufferLength := mss
    withCmsg := false
    datagramSize := datagramSize
    packetsAmount := (mss + datagramSize - 1) / datagramSize }

theorem MsghdrVec.new_ok {size mss datagramSize : Nat} {v : MsghdrVec}
    (h : MsghdrVec.new size mss datagramSize = .ok v) :
    0 < datagramSize ∧ 0 < size ∧
      v = ⟨List.replicate size (WrapperMsghdr.blank mss datagramSize), datagramSize,
        (mss + datagramSize - 1) / datagramSize⟩ := by
  simp only [MsghdrVec.new, bind_ok] at h
  obtain ⟨ws, hws, h⟩ := h
  rcases Nat.eq_zero_or_pos size with rfl | hsize
  · cases hws
    cases h
  obtain ⟨w, hw, rfl⟩ := mapM_replicate_inv hsize hws
  unfold WrapperMsghdr.new at hw
  split at hw
  · cases hw
  · cases hw
    obtain ⟨k, rfl⟩ := Nat.exists_eq_add_of_lt hsize
    rw [Nat.zero_add, List.replicate_succ] at h ⊢
    cases h
    exact ⟨by omega, by omega, rfl⟩

/-- A new receiver starts with sound buffers and nothing counted. -/
theorem Receiver.new_ok {clock : Clock} {p : Parameter} {r : Receiver}
    (h : Receiver.new clock p = .ok r) :
    r.packetBuffer.Sound p.mss p.packetBufferSize ∧ 0 < p.packetBufferSize ∧ r.parameter = p ∧
      r.nextPacketId = 0 ∧ r.measurements = [] := by
  simp only [Receiver.new, bind_ok] at h
  obtain ⟨v, hv, h⟩ := h
  cases h
  obtain ⟨_, hsize, rfl⟩ := MsghdrVec.new_ok hv
  refine ⟨⟨by simp [PacketBuffer.new, MsghdrVec.withCmsgBuffer], ?_⟩, hsize, rfl, rfl, rfl⟩
  intro m hm
  simp only [PacketBuffer.new, MsghdrVec.withCmsgBuffer, List.map_replicate,
    List.mem_replicate] at hm
  obtain ⟨_, rfl⟩ := hm
  exact ⟨rfl, List.length_replicate, List.length_replicate⟩

/-- A msghdr whose first `bytes` bytes are packets with these ids. -/
structure Msghdr.Packets (h : Msghdr) (bytes : Nat) (ids : List Nat) : Prop where
  iovlen : h.msgIovlen = 1
  fits : bytes ≤ h.iovBase.length
  segment : 24 ≤ singlePacketSize h bytes
  tail : bytes % singlePacketSize h bytes = 0 ∨ 24 ≤ bytes % singlePacketSize h bytes
  ids : ids = (List.range ((bytes + singlePacketSize h bytes - 1) / singlePacketSize h bytes)).map
    (fun i => load h.iovBase (i * singlePacketSize h bytes + 16) 8)

/-- A msghdr in which a receive call has left a message. -/
structure Msghdr.Holds (h : Msghdr) (m : Message) : Prop where
  iovlen : h.msgIovlen = 1
  header : 24 ≤ h.iovLen
  memory : h.iovLen ≤ h.iovBase.length
  bytes : m.bytes ≤ h.iovBase.length
  short : m.bytes < 2 ^ 32
  mtype : load h.iovBase 0 8 = m.mtype.code
  testId : load h.iovBase 8 8 = m.testId
  segment : 24 ≤ singlePacketSize h m.bytes
  tail : m.bytes % singlePacketSize h m.bytes = 0 ∨ 24 ≤ m.bytes % singlePacketSize h m.bytes
  ids : m.ids =
    (List.range ((m.bytes + singlePacketSize h m.bytes - 1) / singlePacketSize h m.bytes)).map
      (fun i => load h.iovBase (i * singlePacketSize h m.bytes + 16) 8)

theorem Delivery.read_ok {d : Delivery} {m : Message} (h : d.read = some m) :
    24 ≤ d.payload.length ∧ d.payload.length < 2 ^ 32 ∧ 24 ≤ d.segment ∧
      (d.payload.length % d.segment = 0 ∨ 24 ≤ d.payload.length % d.segment) ∧
      load d.payload 0 8 = m.mtype.code ∧ load d.payload 8 8 = m.testId ∧ m.ids = d.ids ∧
      m.bytes = d.payload.length := by
  unfold Delivery.read at h
  split at h
  · rename_i hc
    obtain ⟨h24, h32, hseg, htail⟩ := hc
    split at h
    · rename_i t ht
      cases h
      refine ⟨h24, h32, hseg, htail, ?_, rfl, rfl, rfl⟩
      generalize load d.payload 0 8 = code at ht ⊢
      unfold MessageType.ofCode at ht
      split at ht
      all_goals
        cases ht
        try rfl
    · cases h
  · cases h

theorem Delivery.read_ids_ne_nil {d : Delivery} {m : Message} (h : d.read = some m) :
    m.ids ≠ [] := by
  obtain ⟨h24, _, hseg, _, _, _, hids, _⟩ := Delivery.read_ok h
  have hpos : 0 < (d.payload.length + d.segment - 1) / d.segment :=
    Nat.div_pos (by omega) (by omega)
  simp only [hids, Delivery.ids, ne_eq, List.map_eq_nil_iff, List.range_eq_nil]
  omega

/-- A datagram of one packet, as the sender builds it. -/
def Delivery.packet (mtype : MessageType) (testId packetId : Nat) : Delivery :=
  { payload := (MessageHeader.mk mtype testId packetId).serialize
    control := []
    controllen := 0
    flags := 0 }

theorem Delivery.read_packet (mtype : MessageType) {testId packetId : Nat} (ht : testId < 2 ^ 64)
    (hp : packetId < 2 ^ 64) :
    (packet mtype testId packetId).read = some ⟨mtype, testId, [packetId], 24⟩ := by
  have hmtype := MessageHeader.load_mtype ⟨mtype, testId, packetId⟩
  have htest := MessageHeader.load_testId ⟨mtype, testId, packetId⟩ ht
  have hid := MessageHeader.load_packetId ⟨mtype, testId, packetId⟩ hp
  have hlen : (packet mtype testId packetId).payload.length = 24 := MessageHeader.length_serialize _
  have hseg : (packet mtype testId packetId).segment = 24 := hlen
  have hids : (packet mtype testId packetId).ids = [packetId] := by
    simp only [ids, hlen, hseg]
    simpa [packet] using hid
  simp only [read, hlen, hseg, hids]
  simp only [packet, hmtype, htest, MessageType.ofCode_code]
  rfl

/-- Receiving a message that fits overwrites the front of the buffer. -/
theorem Msghdr.Sound.deliver_fits {h : Msghdr} (hs : h.Sound mss) {d : Delivery}
    (hfit : d.payload.length ≤ mss) :
    (h.deliver d).iovBase = d.payload ++ h.iovBase.drop d.payload.length ∧
      h.receivedBytes d = d.payload.length := by
  have htake : d.payload.take h.iovLen = d.payload := by
    rw [hs.length]
    exact List.take_of_length_le hfit
  constructor
  · simp only [Msghdr.deliver, htake]
  · simp only [Msghdr.receivedBytes, htake]

theorem Msghdr.Sound.load_deliver {h : Msghdr} (hs : h.Sound mss) {d : Delivery}
    (hfit : d.payload.length ≤ mss) {off : Nat} (ho : off + 8 ≤ d.payload.length) :
    load (h.deliver d).iovBase off 8 = load d.payload off 8 := by
  rw [(hs.deliver_fits hfit).1]
  exact load_append_left _ _ ho

theorem Msghdr.deliver_segment (h : Msghdr) {d : Delivery} (hshort : d.payload.length < 2 ^ 32) :
    singlePacketSize (h.deliver d) d.payload.length = d.segment := by
  simp only [singlePacketSize, Delivery.segment, asU32_fits hshort]
  rfl

/-- A message of whole packets that fits is in the buffer with all its ids. -/
theorem Msghdr.Sound.packets {h : Msghdr} (hs : h.Sound mss) {d : Delivery}
    (hfit : d.payload.length ≤ mss) (hshort : d.payload.length < 2 ^ 32) (hseg : 24 ≤ d.segment)
    (htail : d.payload.length % d.segment = 0 ∨ 24 ≤ d.payload.length % d.segment) :
    (h.deliver d).Packets d.payload.length d.ids := by
  have hsize := h.deliver_segment hshort
  refine ⟨hs.iovlen, ?_, ?_, ?_, ?_⟩
  · rw [(hs.deliver d).memory]
    exact hfit
  · rw [hsize]
    exact hseg
  · rw [hsize]
    exact htail
  · rw [hsize]
    apply List.map_congr_left
    intro i hi
    have hroom := chunk_room (by omega) hseg htail (List.mem_range.mp hi)
    exact (hs.load_deliver hfit (by omega)).symm

/-- Receiving a readable message that fits leaves the buffer holding it. -/
theorem Msghdr.Sound.holds {h : Msghdr} (hs : h.Sound mss) {d : Delivery} {m : Message}
    (hd : d.read = some m) (hfit : d.payload.length ≤ mss) :
    (h.deliver d).Holds m ∧ h.receivedBytes d = m.bytes := by
  obtain ⟨h24, h32, hseg, htail, hmtype, htest, hids, hbytes⟩ := Delivery.read_ok hd
  have hpackets := hs.packets hfit h32 hseg htail
  have hmem : (h.deliver d).iovBase.length = mss := (hs.deliver d).memory
  have hlen : (h.deliver d).iovLen = mss := (hs.deliver d).length
  rw [← hids, ← hbytes] at hpackets
  refine ⟨⟨hs.iovlen, by omega, by omega, hpackets.fits, by omega, ?_, ?_, hpackets.segment,
    hpackets.tail, hpackets.ids⟩, (hs.deliver_fits hfit).2.trans hbytes.symm⟩
  · rw [hs.load_deliver hfit (by omega), hmtype]
  · rw [hs.load_deliver hfit (by omega), htest]

theorem Msghdr.Holds.header_ok {h : Msghdr} {m : Message} (hm : h.Holds m) :
    ∃ buffer, PacketBuffer.getBufferPointer h = .ok buffer ∧
      MessageHeader.getTestId buffer = .ok m.testId ∧
      MessageHeader.getMessageType buffer = .ok m.mtype := by
  have h24 := hm.header
  have hmem := hm.memory
  refine ⟨⟨h.iovBase, 0, h.iovLen⟩, ?_, ?_, ?_⟩
  · simp only [PacketBuffer.getBufferPointer, rawSlice]
    rw [if_pos hmem]
  · rw [MessageHeader.getTestId_ok _ h24 (by simpa using hmem)]
    simp only [Nat.zero_add, hm.testId]
  · exact MessageHeader.getMessageType_ok _ m.mtype h24 (by simpa using hmem) hm.mtype

/-- The chunks of a msghdr are its packets: each holds the id of its segment. -/
theorem Msghdr.Packets.chunks_ok {h : Msghdr} {bytes : Nat} {ids : List Nat}
    (hm : h.Packets bytes ids) :
    ∃ datagrams packets, rawSlice h.iovBase bytes = .ok datagrams ∧
      datagrams.chunks (singlePacketSize h bytes) = .ok packets ∧
      packets.map MessageHeader.getPacketId = ids.map .ok := by
  have hseg := hm.segment
  have htail := hm.tail
  have hfits := hm.fits
  refine ⟨_, _, by rw [rawSlice, if_pos hfits], by rw [Slice.chunks, if_neg (by omega)], ?_⟩
  rw [hm.ids, List.map_map, List.map_map]
  apply List.map_congr_left
  intro i hi
  have hroom := chunk_room (by omega) hseg htail (List.mem_range.mp hi)
  simp only [Function.comp]
  rw [MessageHeader.getPacketId_ok]
  · simp only [Nat.zero_add]
  · simp only
    omega
  · simp only
    omega

/-- The packets of a msghdr are counted by their ids. -/
theorem Msghdr.Packets.process_ok {h : Msghdr} {bytes : Nat} {ids : List Nat}
    (hm : h.Packets bytes ids) (build : Build) (next : Nat) (s : Statistic) :
    processPacketMsghdr build h bytes next s =
      (Counters.arriveAll build ids next s.counters).map
        (fun (next, c) => (next, ids.length, s.withCounters c)) := by
  obtain ⟨datagrams, packets, hraw, hchunks, hids⟩ := hm.chunks_ok
  simp only [processPacketMsghdr, hm.iovlen, ne_eq, not_true_eq_false, ↓reduceIte, hraw, ok_bind,
    hchunks, processPackets_arriveAll build hids, Nat.zero_add]

theorem Msghdr.Holds.packets {h : Msghdr} {m : Message} (hm : h.Holds m) :
    h.Packets m.bytes m.ids :=
  ⟨hm.iovlen, hm.bytes, hm.segment, hm.tail, hm.ids⟩

theorem Msghdr.Holds.process_ok {h : Msghdr} {m : Message} (hm : h.Holds m) (build : Build)
    (next : Nat) (s : Statistic) :
    processPacketMsghdr build h m.bytes next s =
      (Counters.arriveAll build m.ids next s.counters).map
        (fun (next, c) => (next, m.ids.length, s.withCounters c)) :=
  hm.packets.process_ok build next s

end Nperf
