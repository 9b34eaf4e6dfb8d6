import Nperf.Lib.Lists
import Nperf.Model.Sender
import Nperf.Proofs.Messages

namespace Nperf
open Rust Bytes

/-- The packets of one message: the last one may be shorter. -/
def Parameter.slots (p : Parameter) : Nat := (p.mss + p.datagramSize - 1) / p.datagramSize

/-- Every slot of a message has room for a header. -/
def Parameter.HeadersFit (p : Parameter) : Prop := ∀ i < p.slots, i * p.datagramSize + 24 ≤ p.mss

/-- A msghdr of the sender: each slot has the header of a data message. -/
structure Msghdr.Slotted (p : Parameter) (testId : Nat) (h : Msghdr) : Prop where
  sound : h.Sound p.mss
  headers : ∀ i < p.slots, load h.iovBase (i * p.datagramSize) 8 = MessageType.measurement.code ∧
    load h.iovBase (i * p.datagramSize + 8) 8 = testId

structure PacketBuffer.Slotted (p : Parameter) (testId : Nat) (b : PacketBuffer) : Prop where
  size : b.mmsghdrVec.length = p.packetBufferSize
  datagramSize : b.datagramSize = p.datagramSize
  packets : b.packetsAmountPerMsghdr = p.slots
  msghdrs : ∀ m ∈ b.mmsghdrVec, m.msgHdr.Slotted p testId

/-- The packet ids in the slots of a msghdr. -/
def Msghdr.slotIds (p : Parameter) (h : Msghdr) : List Nat :=
  (List.range p.slots).map (fun i => load h.iovBase (i * p.datagramSize + 16) 8)

@[simp] theorem Msghdr.length_slotIds (p : Parameter) (h : Msghdr) :
    (h.slotIds p).length = p.slots := by
  simp [slotIds]

theorem Parameter.slots_cover {p : Parameter} (hd : 0 < p.datagramSize) :
    p.mss ≤ p.slots * p.datagramSize ∧ p.slots * p.datagramSize < p.mss + p.datagramSize := by
  have hle := Nat.div_mul_le_self (p.mss + p.datagramSize - 1) p.datagramSize
  have hlt := Nat.lt_div_mul_add hd (a := p.mss + p.datagramSize - 1)
  simp only [slots]
  omega

theorem Parameter.slots_eq_one_iff {p : Parameter} (hd : 0 < p.datagramSize) (hs : 0 < p.slots) :
    p.slots = 1 ↔ p.mss ≤ p.datagramSize := by
  obtain ⟨hcover, hlt⟩ := slots_cover hd
  constructor
  · intro hone
    rw [hone, Nat.one_mul] at hcover
    exact hcover
  · intro hsmall
    have htwo : p.slots * p.datagramSize < 2 * p.datagramSize := by omega
    have := Nat.lt_of_mul_lt_mul_right htwo
    omega

/-- No packet is empty. -/
theorem Parameter.slots_le {p : Parameter} (hd : 0 < p.datagramSize) : p.slots ≤ p.mss := by
  obtain ⟨_, hlt⟩ := slots_cover hd
  apply Nat.le_of_not_lt
  intro hmore
  have hmany : (p.mss + 1) * p.datagramSize ≤ p.slots * p.datagramSize :=
    Nat.mul_le_mul_right _ hmore
  have hfew : p.mss * 1 ≤ p.mss * p.datagramSize := Nat.mul_le_mul_left _ hd
  rw [Nat.succ_mul] at hmany
  omega

theorem Parameter.slots_eq_zero_iff {p : Parameter} (hd : 0 < p.datagramSize) :
    p.slots = 0 ↔ p.mss = 0 := by
  obtain ⟨hcover, hlt⟩ := slots_cover hd
  constructor
  · intro hnone
    rw [hnone, Nat.zero_mul] at hcover
    exact Nat.le_zero.mp hcover
  · intro hempty
    have hlt : p.slots * p.datagramSize < 1 * p.datagramSize := by omega
    exact Nat.lt_one_iff.mp (Nat.lt_of_mul_lt_mul_right hlt)

/-- Headers that fit do not reach into the next slot. -/
theorem Parameter.HeadersFit.apart {p : Parameter} (hf : p.HeadersFit) (hd : 0 < p.datagramSize)
    {i j : Nat} (hij : i < j) (hj : j < p.slots) :
    i * p.datagramSize + 24 ≤ j * p.datagramSize := by
  obtain ⟨hcover, _⟩ := slots_cover hd
  have hlast := hf (p.slots - 1) (by omega)
  have hslots : p.slots * p.datagramSize = (p.slots - 1) * p.datagramSize + p.datagramSize := by
    rw [← Nat.succ_mul]
    congr 1
    omega
  have hnext : (i + 1) * p.datagramSize ≤ j * p.datagramSize := Nat.mul_le_mul_right _ hij
  rw [Nat.succ_mul] at hnext
  omega

/-- A slot has a whole header, and so does every datagram. -/
theorem Parameter.HeadersFit.datagramSize {p : Parameter} (hf : p.HeadersFit)
    (hd : 0 < p.datagramSize) (hslots : 0 < p.slots) : 24 ≤ p.datagramSize := by
  obtain ⟨hcover, _⟩ := slots_cover hd
  rcases Nat.lt_or_ge 1 p.slots with hmany | hone
  · have := hf.apart hd Nat.zero_lt_one hmany
    omega
  · have hfirst := hf 0 hslots
    obtain hone : p.slots = 1 := by omega
    rw [hone] at hcover
    omega

/-- One slot gets its packet id. -/
theorem stampSlot_ok {p : Parameter} {h : Msghdr} (hs : h.Sound p.mss) {i packetId : Nat}
    (hfit : i * p.datagramSize + 24 ≤ p.mss) (hid : packetId + i < 2 ^ 64) :
    PacketBuffer.stampSlot p.datagramSize packetId h i = .ok { h with
      iovBase := store h.iovBase (i * p.datagramSize + 16) (encode 8 (packetId + i)) } := by
  have hmem := hs.memory
  have hnum : Build.debug.u64 ((packetId : Int) + i) = .ok (packetId + i) := by
    rw [← Int.natCast_add]
    exact u64_fits _ hid
  rw [PacketBuffer.stampSlot, hs.buffer, ok_bind, Slice.from, if_pos (by simp only; omega),
    ok_bind, hnum, ok_bind, MessageHeader.setPacketIdRaw,
    setWord_ok _ _ _ (by simp only; omega) (by simp only; omega), ok_bind, Nat.zero_add]

/-- A stamped msghdr has consecutive ids and its headers. -/
theorem stampMsghdr_ok {p : Parameter} {testId : Nat} {h : Msghdr} (hs : h.Slotted p testId)
    (hf : p.HeadersFit) (hd : 0 < p.datagramSize) {packetId : Nat}
    (hid : packetId + p.slots ≤ 2 ^ 64) :
    ∃ h', PacketBuffer.stampMsghdr p.datagramSize p.slots packetId h = .ok h' ∧
      h'.Slotted p testId ∧ h'.slotIds p = List.range' packetId p.slots := by
  let P (i : Nat) (h' : Msghdr) : Prop := h'.Slotted p testId ∧
    ∀ j < i, load h'.iovBase (j * p.datagramSize + 16) 8 = packetId + j
  have hstep : ∀ i h', i < p.slots → P i h' → ∃ h'',
      PacketBuffer.stampSlot p.datagramSize packetId h' i = .ok h'' ∧ P (i + 1) h'' := by
    intro i h' hi hP
    obtain ⟨hs', hids⟩ := hP
    have hroom := hf i hi
    have hlen : h'.iovBase.length = p.mss := hs'.sound.memory
    refine ⟨_, stampSlot_ok hs'.sound hroom (by omega), ?_, ?_⟩
    · refine ⟨⟨hs'.sound.iovlen, hs'.sound.length, by simpa using hlen⟩, ?_⟩
      intro j hj
      have hkeep : ∀ off, off + 8 ≤ j * p.datagramSize + 16 → j * p.datagramSize ≤ off →
          load (store h'.iovBase (i * p.datagramSize + 16) (encode 8 (packetId + i))) off 8 =
            load h'.iovBase off 8 := by
        intro off hoff hoff'
        apply load_store_other
        rw [length_encode]
        rcases Nat.lt_trichotomy j i with hlt | rfl | hgt
        · have := hf.apart hd hlt hi
          omega
        · omega
        · have := hf.apart hd hgt hj
          omega
      obtain ⟨hmtype, htest⟩ := hs'.headers j hj
      exact ⟨(hkeep _ (by omega) (by omega)).trans hmtype,
        (hkeep _ (by omega) (by omega)).trans htest⟩
    · intro j hj
      rcases Nat.lt_or_eq_of_le (Nat.le_of_lt_succ hj) with hlt | rfl
      · have := hf.apart hd hlt hi
        rw [load_store_other _ _ _ _ _ (by rw [length_encode]; omega)]
        exact hids j hlt
      · exact load_store_same _ _ _ _ (by omega) (by omega)
  obtain ⟨h', hh, hs', hids⟩ := Lists.foldlM_range P ⟨hs, fun j hj => absurd hj (by omega)⟩ hstep
  refine ⟨h', hh, hs', ?_⟩
  rw [Msghdr.slotIds, List.range'_eq_map_range]
  exact List.map_congr_left (fun j hj => hids j (List.mem_range.mp hj))

/-- The ids of the first `s` msghdrs of a stamped list are consecutive. -/
theorem stampAll_ok {p : Parameter} {testId : Nat} (hf : p.HeadersFit) (hd : 0 < p.datagramSize)
    {ms : List Mmsghdr} (hs : ∀ m ∈ ms, m.msgHdr.Slotted p testId) {packetId : Nat}
    (hid : packetId + ms.length * p.slots ≤ 2 ^ 64) :
    ∃ ms', PacketBuffer.stampAll p.datagramSize p.slots packetId ms = .ok ms' ∧
      ms'.length = ms.length ∧ (∀ m ∈ ms', m.msgHdr.Slotted p testId) ∧
      ∀ s ≤ ms.length, (ms'.take s).flatMap (fun m => m.msgHdr.slotIds p) =
        List.range' packetId (s * p.slots) := by
  induction ms generalizing packetId with
  | nil =>
    refine ⟨[], rfl, rfl, hs, ?_⟩
    intro s hs
    obtain rfl : s = 0 := Nat.le_zero.mp hs
    simp
  | cons m ms ih =>
    obtain ⟨hm, hms⟩ := List.forall_mem_cons.mp hs
    rw [List.length_cons, Nat.succ_mul] at hid
    obtain ⟨h', hh, hslotted, hids⟩ := stampMsghdr_ok hm hf hd
      (show packetId + p.slots ≤ 2 ^ 64 by omega)
    obtain ⟨ms', hms', hlen, hall, htake⟩ := ih hms
      (show packetId + p.slots + ms.length * p.slots ≤ 2 ^ 64 by omega)
    refine ⟨{ m with msgHdr := h' } :: ms', ?_, by simp [hlen],
      List.forall_mem_cons.mpr ⟨hslotted, hall⟩, ?_⟩
    · simp only [PacketBuffer.stampAll, hh, hms', ok_bind]
    · intro s hs
      cases s with
      | zero => simp
      | succ s =>
        simp only [List.take_succ_cons, List.flatMap_cons, hids,
          htake s (Nat.le_of_succ_le_succ hs)]
        rw [List.range'_append_1, Nat.succ_mul, Nat.add_comm p.slots]

theorem addPacketIds_ok {p : Parameter} {testId : Nat} (hf : p.HeadersFit)
    (hd : 0 < p.datagramSize) {b : PacketBuffer} (hs : b.Slotted p testId) {packetId : Nat}
    (hid : packetId + p.packetBufferSize * p.slots ≤ 2 ^ 64) :
    ∃ b', b.addPacketIds packetId none = .ok (p.packetBufferSize * p.slots, b') ∧
      b'.Slotted p testId ∧ ∀ s ≤ p.packetBufferSize,
        (b'.mmsghdrVec.take s).flatMap (fun m => m.msgHdr.slotIds p) =
          List.range' packetId (s * p.slots) := by
  have hsize := hs.size
  obtain ⟨ms', hms', hlen, hall, htake⟩ := stampAll_ok hf hd hs.msghdrs (hsize ▸ hid)
  refine ⟨{ b with mmsghdrVec := ms' }, ?_, ⟨hlen.trans hsize, hs.datagramSize, hs.packets, hall⟩,
    fun s hs => htake s (hsize ▸ hs)⟩
  simp only [PacketBuffer.addPacketIds, Option.getD_none, List.take_length, hs.datagramSize,
    hs.packets, hms', ok_bind, List.drop_length, List.append_nil, hlen]
  rw [hsize]

/-- Stamping succeeds only while the ids fit into their field. -/
theorem stampMsghdr_bound {datagramSize packetsAmount packetId : Nat} {h h' : Msghdr}
    (hid : packetId ≤ 2 ^ 64)
    (hstamp : PacketBuffer.stampMsghdr datagramSize packetsAmount packetId h = .ok h') :
    packetId + packetsAmount ≤ 2 ^ 64 := by
  refine Lists.foldlM_range_ok (fun i _ => packetId + i ≤ 2 ^ 64) hid ?_ hstamp
  intro i h h' _ _ hslot
  simp only [PacketBuffer.stampSlot, bind_ok] at hslot
  obtain ⟨_, _, _, _, id, hnum, _⟩ := hslot
  obtain ⟨heq, hlt⟩ := debug_u64_ok hnum
  omega

theorem stampAll_length {datagramSize packetsAmount packetId : Nat} {ms ms' : List Mmsghdr}
    (h : PacketBuffer.stampAll datagramSize packetsAmount packetId ms = .ok ms') :
    ms'.length = ms.length := by
  induction ms generalizing packetId ms' with
  | nil =>
    cases h
    rfl
  | cons m ms ih =>
    simp only [PacketBuffer.stampAll, bind_ok] at h
    obtain ⟨_, _, rest, hrest, h⟩ := h
    cases h
    simp [ih hrest]

theorem stampAll_bound {datagramSize packetsAmount packetId : Nat} {ms ms' : List Mmsghdr}
    (hid : packetId ≤ 2 ^ 64)
    (h : PacketBuffer.stampAll datagramSize packetsAmount packetId ms = .ok ms') :
    packetId + ms.length * packetsAmount ≤ 2 ^ 64 := by
  induction ms generalizing packetId ms' with
  | nil => simpa using hid
  | cons m ms ih =>
    simp only [PacketBuffer.stampAll, bind_ok] at h
    obtain ⟨h', hstamp, rest, hrest, _⟩ := h
    have hbound := ih (stampMsghdr_bound hid hstamp) hrest
    rw [List.length_cons, Nat.succ_mul]
    omega

/-- What stamping the first msghdrs leaves alone. -/
theorem addPacketIds_frame {b b' : PacketBuffer} {packetId n used : Nat}
    (h : b.addPacketIds packetId (some n) = .ok (used, b')) :
    b'.mmsghdrVec.length = b.mmsghdrVec.length ∧ b'.indexPool = b.indexPool ∧
      b'.indexPoolCapacity = b.indexPoolCapacity ∧
      b'.packetsAmountPerMsghdr = b.packetsAmountPerMsghdr ∧
      ∀ i, n ≤ i → b'.mmsghdrVec[i]? = b.mmsghdrVec[i]? := by
  simp only [PacketBuffer.addPacketIds, Option.getD_some, bind_ok] at h
  obtain ⟨stamped, hstamp, h⟩ := h
  cases h
  have hlen := stampAll_length hstamp
  rw [List.length_take] at hlen
  refine ⟨?_, rfl, rfl, rfl, ?_⟩
  · simp only [List.length_append, List.length_drop, hlen]
    omega
  · intro i hi
    simp only [List.getElem?_append, List.getElem?_drop, hlen]
    split
    · omega
    · by_cases hn : n ≤ b.mmsghdrVec.length
      · rw [Nat.min_eq_left hn]
        congr 1
        omega
      · rw [List.getElem?_eq_none (by omega), List.getElem?_eq_none (by omega)]

/-- The stamped msghdrs have consecutive ids. -/
theorem addPacketIds_some {p : Parameter} {testId : Nat} (hf : p.HeadersFit)
    (hd : 0 < p.datagramSize) {b b' : PacketBuffer} (hs : b.Slotted p testId)
    {packetId n used : Nat} (hid : packetId ≤ 2 ^ 64)
    (h : b.addPacketIds packetId (some n) = .ok (used, b')) :
    b'.Slotted p testId ∧ ∀ s, s ≤ n → s ≤ p.packetBufferSize →
      (b'.mmsghdrVec.take s).flatMap (fun m => m.msgHdr.slotIds p) =
        List.range' packetId (s * p.slots) := by
  have hsize := (addPacketIds_frame h).1.trans hs.size
  simp only [PacketBuffer.addPacketIds, Option.getD_some, bind_ok] at h
  obtain ⟨stamped, hstamp, h⟩ := h
  cases h
  rw [hs.datagramSize, hs.packets] at hstamp
  have hlen := stampAll_length hstamp
  obtain ⟨ms, hms, _, hall, htake⟩ := stampAll_ok hf hd
    (fun m hm => hs.msghdrs m (List.mem_of_mem_take hm)) (stampAll_bound hid hstamp)
  cases hms.symm.trans hstamp
  refine ⟨⟨hsize, hs.datagramSize, hs.packets, ?_⟩, ?_⟩
  · exact List.forall_mem_append.mpr
      ⟨hall, fun m hm => hs.msghdrs m (List.mem_of_mem_drop hm)⟩
  · intro s hn hle
    have hfits : s ≤ (b.mmsghdrVec.take n).length := by
      rw [List.length_take, hs.size]
      omega
    rw [List.take_append_of_le_length (hlen ▸ hfits)]
    exact htake s hfits

/-- The index is out of bounds, or the msghdr it names is stamped. -/
theorem addPacketIdsToMsghdr_cases {b b' : PacketBuffer} {packetId index : Nat}
    {result : Except Error Nat} (h : b.addPacketIdsToMsghdr packetId index = .ok (result, b')) :
    result = .error .bufferOutOfBounds ∧ b' = b ∨
      ∃ m hdr, b.mmsghdrVec[index]? = some m ∧
        PacketBuffer.stampMsghdr b.datagramSize b.packetsAmountPerMsghdr packetId m.msgHdr =
          .ok hdr ∧
        result = .ok b.packetsAmountPerMsghdr ∧ b' = b.setMsghdr index hdr := by
  simp only [PacketBuffer.addPacketIdsToMsghdr] at h
  split at h
  · cases h
    exact .inl ⟨rfl, rfl⟩
  · rename_i m hm
    obtain ⟨hdr, hstamp, h⟩ := bind_ok.mp h
    cases h
    exact .inr ⟨m, hdr, hm, hstamp, rfl, rfl⟩

theorem addPacketIdsToMsghdr_ok {p : Parameter} {testId : Nat} (hf : p.HeadersFit)
    (hd : 0 < p.datagramSize) {b b' : PacketBuffer} (hs : b.Slotted p testId)
    {packetId index used : Nat} (hid : packetId ≤ 2 ^ 64)
    (h : b.addPacketIdsToMsghdr packetId index = .ok (.ok used, b')) :
    used = p.slots ∧ packetId + p.slots ≤ 2 ^ 64 ∧ b'.Slotted p testId ∧
      ∀ h', b'.getMsghdrFromIndex index = .ok h' →
        h'.slotIds p = List.range' packetId p.slots := by
  rcases addPacketIdsToMsghdr_cases h with ⟨hout, _⟩ | ⟨m, hdr, hm, hstamp, hused, rfl⟩
  · cases hout
  cases hused
  rw [hs.datagramSize, hs.packets] at hstamp
  have hbound := stampMsghdr_bound hid hstamp
  obtain ⟨_, hstamp', hslotted, hids⟩ := stampMsghdr_ok
    (hs.msghdrs m (List.mem_of_getElem? hm)) hf hd hbound
  cases hstamp.symm.trans hstamp'
  refine ⟨hs.packets, hbound, ⟨?_, hs.datagramSize, hs.packets, ?_⟩, ?_⟩
  · simpa [PacketBuffer.setMsghdr] using hs.size
  · intro m' hm'
    simp only [PacketBuffer.setMsghdr, Lists.modify_eq_set hm] at hm'
    rcases List.mem_or_eq_of_mem_set hm' with hm' | rfl
    · exact hs.msghdrs m' hm'
    · exact hslotted
  · intro h' hget
    simp only [PacketBuffer.getMsghdrFromIndex, PacketBuffer.setMsghdr, List.getElem?_modify_eq,
      hm] at hget
    cases hget
    exact hids

theorem writeHeader_ok {datagramSize i packetId : Nat} {header : MessageHeader}
    {buffer buffer' : Memory}
    (h : WrapperMsghdr.writeHeader datagramSize header packetId buffer i = .ok buffer') :
    i * datagramSize + 24 ≤ buffer.length ∧
      buffer' = store buffer (i * datagramSize)
        (header.setPacketId (packetId + i)).serialize := by
  simp only [WrapperMsghdr.writeHeader, MessageHeader.length_serialize] at h
  split at h
  · rename_i hle
    cases h
    exact ⟨hle, rfl⟩
  · cases h

theorem addMessageHeader_ok {p : Parameter} {testId : Nat} (ht : testId < 2 ^ 64)
    (hd : 0 < p.datagramSize) {w w' : WrapperMsghdr} (hs : w.msghdr.Sound p.mss)
    (hsize : w.datagramSize = p.datagramSize) (hpackets : w.packetsAmount = p.slots)
    (h : w.addMessageHeader testId 0 = .ok w') :
    p.HeadersFit ∧ w'.msghdr.Slotted p testId := by
  simp only [WrapperMsghdr.addMessageHeader, bind_ok, hsize, hpackets] at h
  obtain ⟨buffer, hfold, h⟩ := h
  cases h
  have hf : buffer.length = p.mss ∧ p.HeadersFit := by
    refine Lists.foldlM_range_ok (fun i (b : Memory) => b.length = p.mss ∧
      ∀ j < i, j * p.datagramSize + 24 ≤ p.mss) ⟨hs.memory, fun j hj => absurd hj (by omega)⟩
      ?_ hfold
    rintro i b b' _ ⟨hlen, hrooms⟩ hw
    obtain ⟨hroom, rfl⟩ := writeHeader_ok hw
    refine ⟨by simpa using hlen, ?_⟩
    intro j hj
    rcases Nat.lt_or_eq_of_le (Nat.le_of_lt_succ hj) with hlt | rfl
    · exact hrooms j hlt
    · omega
  obtain ⟨hlen, hf⟩ := hf
  refine ⟨hf, ⟨hs.iovlen, hs.length, hlen⟩, ?_⟩
  refine Lists.foldlM_range_ok (fun i (b : Memory) => ∀ j < i,
    load b (j * p.datagramSize) 8 = MessageType.measurement.code ∧
      load b (j * p.datagramSize + 8) 8 = testId) (fun j hj => absurd hj (by omega)) ?_ hfold
  intro i b b' hi hheaders hw j hj
  obtain ⟨hroom, rfl⟩ := writeHeader_ok hw
  rcases Nat.lt_or_eq_of_le (Nat.le_of_lt_succ hj) with hlt | rfl
  · have := hf.apart hd hlt hi
    rw [load_store_other _ _ _ _ _ (Or.inl (by omega)),
      load_store_other _ _ _ _ _ (Or.inl (by omega))]
    exact hheaders j hlt
  · have hinside : ∀ off, off + 8 ≤ 24 → load (store b (j * p.datagramSize)
        (MessageHeader.setPacketId ⟨.measurement, testId, 0⟩ (0 + j)).serialize)
          (j * p.datagramSize + off) 8 =
        load (MessageHeader.setPacketId ⟨.measurement, testId, 0⟩ (0 + j)).serialize off 8 :=
      fun off hoff => load_store_inside b _ off 8 _ (by simpa using hroom) (by simpa using hoff)
    have hmtype := hinside 0 (by decide)
    have htest := hinside 8 (by decide)
    exact ⟨hmtype.trans (MessageHeader.load_mtype _), htest.trans (MessageHeader.load_testId _ ht)⟩

theorem WrapperMsghdr.repeatingPattern_length (m : Memory) (counter : Nat) :
    (repeatingPattern m counter).length = m.length := by
  induction m generalizing counter with
  | nil => rfl
  | cons b m ih => simp [repeatingPattern, ih]

/-- A new sender has stamped nothing yet, and room for all headers. -/
theorem Sender.new_ok {clock : Clock} {testId : Nat} (ht : testId < 2 ^ 64) {p : Parameter}
    {s : Sender} (h : Sender.new clock testId p = .ok s) :
    s.packetBuffer.Slotted p testId ∧ p.HeadersFit ∧ 0 < p.datagramSize ∧ 0 < p.packetBufferSize ∧
      s.nextPacketId = 0 ∧ s.statistic.amountDatagrams = 0 := by
  simp only [Sender.new, createPacketBuffer, bind_ok] at h
  obtain ⟨b, ⟨v, hv, v', hv', hb⟩, h⟩ := h
  cases hb
  cases h
  obtain ⟨hd, hsize, rfl⟩ := MsghdrVec.new_ok hv
  simp only [MsghdrVec.withMessageHeader, MsghdrVec.withRandomPayload, List.map_replicate,
    bind_ok] at hv'
  obtain ⟨ws, hws, h⟩ := hv'
  cases h
  obtain ⟨w, hw, rfl⟩ := mapM_replicate_inv hsize hws
  have hblank : ((WrapperMsghdr.blank p.mss p.datagramSize).fillWithRepeatingPattern).msghdr.Sound
      p.mss := by
    refine ⟨rfl, List.length_replicate, ?_⟩
    simp [WrapperMsghdr.fillWithRepeatingPattern, WrapperMsghdr.repeatingPattern_length,
      WrapperMsghdr.blank, WrapperMsghdr.createMsghdr]
  obtain ⟨hf, hs⟩ := addMessageHeader_ok ht hd hblank rfl rfl hw
  refine ⟨⟨?_, rfl, rfl, ?_⟩, hf, hd, hsize, rfl, rfl⟩
  · simp [PacketBuffer.new]
  · intro m hm
    simp only [PacketBuffer.new, List.map_replicate, List.mem_replicate] at hm
    obtain ⟨_, rfl⟩ := hm
    exact ⟨⟨hs.sound.iovlen, hs.sound.length, hs.sound.memory⟩, hs.headers⟩

end Nperf
