import Nperf.Proofs.Bounds

namespace Nperf
open Rust Bytes

/-- The bytes in front of the first header, behind the last one and between
them. -/
def Parameter.Outside (p : Parameter) (i : Nat) : Prop :=
  ∀ slot < p.slots, i < slot * p.datagramSize ∨ slot * p.datagramSize + 24 ≤ i

/-- The slots of a msghdr with these ids, and the payload around their headers. -/
structure Msghdr.Carries (p : Parameter) (testId : Nat) (ids : Nat → Nat) (h : Msghdr) : Prop where
  slotted : h.Slotted p testId
  ids : ∀ i < p.slots, load h.iovBase (i * p.datagramSize + 16) 8 = ids i
  payload : ∀ i, p.Outside i →
    h.iovBase[i]? = (WrapperMsghdr.repeatingPattern (List.replicate p.mss 0) 0)[i]?

/-- The packets of a msghdr, as a receiver cuts them. -/
def Msghdr.packets (p : Parameter) (h : Msghdr) : Except Fault (List Slice) := do
  let buffer ← PacketBuffer.getBufferPointer h
  buffer.chunks p.datagramSize

/-- The header functions on every packet. -/
theorem Msghdr.Carries.packets {p : Parameter} {testId : Nat} {ids : Nat → Nat} {h : Msghdr}
    (hc : h.Carries p testId ids) (hf : p.HeadersFit) (hd : 0 < p.datagramSize) :
    ∃ packets, h.packets p = .ok packets ∧ packets.length = p.slots ∧
      ∀ (i : Nat) (packet : Slice), packets[i]? = some packet →
        MessageHeader.getMessageType packet = .ok .measurement ∧
        MessageHeader.getTestId packet = .ok testId ∧
        MessageHeader.getPacketId packet = .ok (ids i) := by
  have hsound := hc.slotted.sound
  have hpackets : h.packets p = .ok ((List.range p.slots).map fun i =>
      ⟨h.iovBase, 0 + i * p.datagramSize, min p.datagramSize (p.mss - i * p.datagramSize)⟩) := by
    rw [Msghdr.packets, hsound.buffer, ok_bind, Slice.chunks, if_neg (by omega)]
    rfl
  refine ⟨_, hpackets, ?_, fun i packet hi => ?_⟩
  · simp only [List.length_map, List.length_range]
  · obtain ⟨hlt, rfl⟩ := List.getElem?_eq_some_iff.mp hi
    simp only [List.length_map, List.length_range] at hlt
    simp only [List.getElem_map, List.getElem_range, Nat.zero_add]
    have hroom := hf i hlt
    have hsize := hf.datagramSize hd (Nat.lt_of_le_of_lt (Nat.zero_le i) hlt)
    have hmem := hsound.memory
    have hlong : 24 ≤ min p.datagramSize (p.mss - i * p.datagramSize) :=
      Nat.le_min.mpr ⟨hsize, by omega⟩
    have hin : i * p.datagramSize + min p.datagramSize (p.mss - i * p.datagramSize) ≤
        h.iovBase.length := by
      have := Nat.min_le_right p.datagramSize (p.mss - i * p.datagramSize)
      omega
    obtain ⟨hmtype, htest⟩ := hc.slotted.headers i hlt
    refine ⟨MessageHeader.getMessageType_ok _ _ hlong hin hmtype, ?_, ?_⟩
    · rw [MessageHeader.getTestId_ok _ hlong hin, htest]
    · rw [MessageHeader.getPacketId_ok _ hlong hin, hc.ids i hlt]

theorem WrapperMsghdr.repeatingPattern_get (m : Memory) {counter : Nat} (hcounter : counter ≤ 10)
    {i : Nat} (hi : i < m.length) :
    (repeatingPattern m counter)[i]? = some (UInt8.ofNat (48 + (counter + i) % 11)) := by
  induction m generalizing counter i with
  | nil => cases hi
  | cons byte m ih =>
    cases i with
    | zero => simp [repeatingPattern, Nat.mod_eq_of_lt (Nat.lt_succ_of_le hcounter)]
    | succ i =>
      have hi : i < m.length := Nat.lt_of_succ_lt_succ hi
      simp only [repeatingPattern, List.getElem?_cons_succ]
      split
      · rw [ih (Nat.zero_le _) hi]
        congr 3
        omega
      · rw [ih (by omega) hi]
        congr 4
        omega

/-- Every msghdr of the buffer with the ids it has been given. -/
structure PacketBuffer.Carries (p : Parameter) (testId : Nat) (ids : Nat → Nat → Nat)
    (b : PacketBuffer) : Prop where
  size : b.mmsghdrVec.length = p.packetBufferSize
  datagramSize : b.datagramSize = p.datagramSize
  packets : b.packetsAmountPerMsghdr = p.slots
  msghdrs : ∀ (j : Nat) (m : Mmsghdr), b.mmsghdrVec[j]? = some m → m.msgHdr.Carries p testId (ids j)

theorem PacketBuffer.Carries.slotted {p : Parameter} {testId : Nat} {ids : Nat → Nat → Nat}
    {b : PacketBuffer} (hb : b.Carries p testId ids) : b.Slotted p testId := by
  refine ⟨hb.size, hb.datagramSize, hb.packets, fun m hm => ?_⟩
  obtain ⟨j, hj⟩ := List.getElem?_of_mem hm
  exact (hb.msghdrs j m hj).slotted

section
variable {p : Parameter} {testId packetId : Nat} {h h' : Msghdr}

/-- A new msghdr numbers its slots and keeps the payload between the headers. -/
theorem addMessageHeader_carries (ht : testId < 2 ^ 64) (hmss : p.mss < 2 ^ 32)
    (hd : 0 < p.datagramSize) {w w' : WrapperMsghdr} (hs : w.msghdr.Sound p.mss)
    (hbase : w.msghdr.iovBase = WrapperMsghdr.repeatingPattern (List.replicate p.mss 0) 0)
    (hsize : w.datagramSize = p.datagramSize) (hpackets : w.packetsAmount = p.slots)
    (h : w.addMessageHeader testId 0 = .ok w') : w'.msghdr.Carries p testId id := by
  obtain ⟨hf, hslotted⟩ := addMessageHeader_ok ht hd hs hsize hpackets h
  have hmany := Parameter.slots_le hd
  simp only [WrapperMsghdr.addMessageHeader, bind_ok, hsize, hpackets] at h
  obtain ⟨buffer, hfold, h⟩ := h
  cases h
  have hkept : (∀ j < p.slots, load buffer (j * p.datagramSize + 16) 8 = j) ∧
      ∀ i, p.Outside i → buffer[i]? = w.msghdr.iovBase[i]? := by
    refine Lists.foldlM_range_ok (fun slot (b : Memory) =>
      (∀ j < slot, load b (j * p.datagramSize + 16) 8 = j) ∧
        ∀ i, p.Outside i → b[i]? = w.msghdr.iovBase[i]?)
      ⟨fun j hj => absurd hj (by omega), fun i _ => rfl⟩ ?_ hfold
    intro slot b b' hslot hP hw
    obtain ⟨hids, hbytes⟩ := hP
    obtain ⟨hroom, rfl⟩ := writeHeader_ok hw
    constructor
    · intro j hj
      rcases Nat.lt_or_eq_of_le (Nat.le_of_lt_succ hj) with hlt | rfl
      · have := hf.apart hd hlt hslot
        rw [load_store_other _ _ _ _ _ (Or.inl (by omega))]
        exact hids j hlt
      · rw [load_store_inside b _ 16 8 _ (by simpa using hroom) (by simp),
          MessageHeader.load_packetId _ (by simp only [MessageHeader.setPacketId]; omega)]
        exact Nat.zero_add j
    · intro i hi
      have hfar := hi slot hslot
      rw [← hbytes i hi]
      apply store_outside
      rw [MessageHeader.length_serialize]
      omega
  obtain ⟨hids, hbytes⟩ := hkept
  exact ⟨hslotted, hids, fun i hi => (hbytes i hi).trans (by rw [hbase])⟩

/-- Stamping writes packet ids and nothing else. -/
theorem stampMsghdr_outside (hs : h.Slotted p testId) (hf : p.HeadersFit)
    (hstamp : PacketBuffer.stampMsghdr p.datagramSize p.slots packetId h = .ok h') {i : Nat}
    (hi : p.Outside i) : h'.iovBase[i]? = h.iovBase[i]? := by
  have hkept : h'.Sound p.mss ∧ h'.iovBase[i]? = h.iovBase[i]? := by
    refine Lists.foldlM_range_ok (fun _ t => t.Sound p.mss ∧ t.iovBase[i]? = h.iovBase[i]?)
      ⟨hs.sound, rfl⟩ ?_ hstamp
    intro slot t t' hslot hP hstep
    obtain ⟨hsound, hbyte⟩ := hP
    have hroom := hf slot hslot
    have hnum : packetId + slot < 2 ^ 64 := by
      simp only [PacketBuffer.stampSlot, bind_ok] at hstep
      obtain ⟨_, _, _, _, _, hnum, _⟩ := hstep
      obtain ⟨heq, hlt⟩ := debug_u64_ok hnum
      omega
    cases (stampSlot_ok hsound hroom hnum).symm.trans hstep
    refine ⟨⟨hsound.iovlen, hsound.length, by simpa using hsound.memory⟩, ?_⟩
    have hfar := hi slot hslot
    rw [← hbyte]
    apply store_outside
    rw [length_encode]
    omega
  exact hkept.2

theorem Msghdr.Carries.stamp {ids : Nat → Nat} (hc : h.Carries p testId ids) (hf : p.HeadersFit)
    (hd : 0 < p.datagramSize) (hid : packetId + p.slots ≤ 2 ^ 64) :
    ∃ h', PacketBuffer.stampMsghdr p.datagramSize p.slots packetId h = .ok h' ∧
      h'.Carries p testId fun i => packetId + i := by
  obtain ⟨h', hstamp, hslotted, hids⟩ := stampMsghdr_ok hc.slotted hf hd hid
  refine ⟨h', hstamp, hslotted, fun i hi => ?_, fun i hi => ?_⟩
  · have hget := congrArg (fun ids => ids[i]?) hids
    simpa [Msghdr.slotIds, hi] using hget
  · rw [stampMsghdr_outside hc.slotted hf hstamp hi]
    exact hc.payload i hi

/-- The packet buffer of a sender, before its first call. -/
theorem createPacketBuffer_carries (hsize : 0 < p.packetBufferSize) (hd : 0 < p.datagramSize)
    (hf : p.HeadersFit) (hmss : p.mss < 2 ^ 32) (ht : testId < 2 ^ 64) :
    ∃ b, Sender.createPacketBuffer p testId = .ok b ∧ b.Carries p testId (fun _ i => i) := by
  obtain ⟨s, hs⟩ := Sender.new_total hsize hd hf ⟨0, 0⟩ testId
  obtain ⟨b, hb, _⟩ := bind_ok.mp hs
  refine ⟨b, hb, ?_⟩
  simp only [Sender.createPacketBuffer, bind_ok] at hb
  obtain ⟨v, hv, v', hv', hb⟩ := hb
  cases hb
  obtain ⟨_, _, rfl⟩ := MsghdrVec.new_ok hv
  simp only [MsghdrVec.withMessageHeader, MsghdrVec.withRandomPayload, List.map_replicate,
    bind_ok] at hv'
  obtain ⟨ws, hws, h⟩ := hv'
  cases h
  obtain ⟨w, hw, rfl⟩ := mapM_replicate_inv hsize hws
  have hblank : ((WrapperMsghdr.blank p.mss p.datagramSize).fillWithRepeatingPattern).msghdr.Sound
      p.mss := by
    refine ⟨rfl, List.length_replicate, ?_⟩
    simp [WrapperMsghdr.fillWithRepeatingPattern, WrapperMsghdr.repeatingPattern_length,
      WrapperMsghdr.blank, WrapperMsghdr.createMsghdr]
  have hc := addMessageHeader_carries ht hmss hd hblank rfl rfl rfl hw
  refine ⟨by simp [PacketBuffer.new], rfl, rfl, fun j m hm => ?_⟩
  have hmem := List.mem_of_getElem? hm
  simp only [PacketBuffer.new, List.map_replicate, List.mem_replicate] at hmem
  obtain ⟨_, rfl⟩ := hmem
  have hs := hc.slotted
  exact ⟨⟨⟨hs.sound.iovlen, hs.sound.length, hs.sound.memory⟩, hs.headers⟩, hc.ids, hc.payload⟩

end

/-- Each msghdr of a stamped list goes on where the one before it stopped. -/
theorem stampAll_get {datagramSize packetsAmount packetId : Nat} {ms ms' : List Mmsghdr}
    (h : PacketBuffer.stampAll datagramSize packetsAmount packetId ms = .ok ms') {j : Nat}
    {m' : Mmsghdr} (hj : ms'[j]? = some m') :
    ∃ m, ms[j]? = some m ∧ PacketBuffer.stampMsghdr datagramSize packetsAmount
      (packetId + j * packetsAmount) m.msgHdr = .ok m'.msgHdr := by
  induction ms generalizing packetId ms' j with
  | nil =>
    cases h
    cases hj
  | cons m ms ih =>
    simp only [PacketBuffer.stampAll, bind_ok] at h
    obtain ⟨hdr, hstamp, rest, hrest, h⟩ := h
    cases h
    cases j with
    | zero =>
      cases hj
      exact ⟨m, rfl, by simpa using hstamp⟩
    | succ j =>
      obtain ⟨m₀, hm₀, hstamp⟩ := ih hrest hj
      refine ⟨m₀, hm₀, ?_⟩
      rw [Nat.succ_mul, Nat.add_comm (j * packetsAmount), ← Nat.add_assoc]
      exact hstamp

/-- A call that writes packet ids: to the first msghdrs, or to one of them. -/
inductive StampCall
  | addPacketIds (packetId : Nat) (amountPackets : Option Nat)
  | addPacketIdsToMsghdr (packetId index : Nat)

namespace StampCall

def step (b : PacketBuffer) : StampCall → Except Fault (Except Error Nat × PacketBuffer)
  | .addPacketIds packetId amountPackets =>
    (b.addPacketIds packetId amountPackets).map fun (used, b) => (.ok used, b)
  | .addPacketIdsToMsghdr packetId index => b.addPacketIdsToMsghdr packetId index

/-- The results of a list of calls, and the buffer after them. -/
def steps (b : PacketBuffer) :
    List StampCall → Except Fault (List (Except Error Nat) × PacketBuffer)
  | [] => .ok ([], b)
  | call :: calls => do
    let (result, b) ← call.step b
    let (results, b) ← steps b calls
    .ok (result :: results, b)

/-- The msghdrs that a call reaches. -/
def amount (p : Parameter) (amountPackets : Option Nat) : Nat :=
  min (amountPackets.getD p.packetBufferSize) p.packetBufferSize

/-- The ids of the call fit into 64 bits. -/
def Fits (p : Parameter) : StampCall → Prop
  | .addPacketIds packetId amountPackets =>
    packetId + amount p amountPackets * p.slots ≤ 2 ^ 64
  | .addPacketIdsToMsghdr packetId index =>
    index < p.packetBufferSize → packetId + p.slots ≤ 2 ^ 64

instance (p : Parameter) : (call : StampCall) → Decidable (call.Fits p)
  | .addPacketIds _ _ => inferInstanceAs (Decidable (_ ≤ _))
  | .addPacketIdsToMsghdr _ _ => inferInstanceAs (Decidable (_ → _))

/-- The id of a slot that the call covers: its base and the slot's position. -/
def assigns (p : Parameter) (msghdr slot : Nat) : StampCall → Option Nat
  | .addPacketIds packetId amountPackets =>
    if msghdr < amount p amountPackets then some (packetId + (msghdr * p.slots + slot)) else none
  | .addPacketIdsToMsghdr packetId index =>
    if msghdr = index then some (packetId + slot) else none

/-- The number of slots that the call covers. -/
def covered (p : Parameter) (call : StampCall) : Nat :=
  ((List.range p.packetBufferSize).map fun msghdr =>
    (List.range p.slots).countP fun slot => (call.assigns p msghdr slot).isSome).sum

/-- The slots it stamps; a msghdr that is not there is an error. -/
def returns (p : Parameter) : StampCall → Except Error Nat
  | .addPacketIds packetId amountPackets =>
    .ok (covered p (.addPacketIds packetId amountPackets))
  | .addPacketIdsToMsghdr packetId index =>
    if index < p.packetBufferSize then .ok (covered p (.addPacketIdsToMsghdr packetId index))
    else .error .bufferOutOfBounds

/-- What the last call that covered a slot assigned to it. -/
def lastId (p : Parameter) (calls : List StampCall) (msghdr slot : Nat) : Nat :=
  (calls.reverse.findSome? (assigns p msghdr slot)).getD slot

theorem covered_addPacketIds (p : Parameter) (packetId : Nat) (amountPackets : Option Nat) :
    covered p (.addPacketIds packetId amountPackets) = amount p amountPackets * p.slots := by
  have hrow : ∀ j, ((List.range p.slots).countP fun i =>
      ((addPacketIds packetId amountPackets).assigns p j i).isSome) =
        if j < amount p amountPackets then p.slots else 0 := by
    intro j
    simp only [assigns]
    split <;> simp
  have hle : amount p amountPackets ≤ p.packetBufferSize := Nat.min_le_right _ _
  rw [covered, List.map_congr_left (fun j _ => hrow j), Lists.sum_range_below,
    Nat.min_eq_left hle]

theorem covered_addPacketIdsToMsghdr {p : Parameter} {index : Nat}
    (hindex : index < p.packetBufferSize) (packetId : Nat) :
    covered p (.addPacketIdsToMsghdr packetId index) = p.slots := by
  have hrow : ∀ j, ((List.range p.slots).countP fun i =>
      ((addPacketIdsToMsghdr packetId index).assigns p j i).isSome) =
        if j = index then p.slots else 0 := by
    intro j
    simp only [assigns]
    split <;> simp
  rw [covered, List.map_congr_left (fun j _ => hrow j), Lists.sum_range_at, if_pos hindex]

section
variable {p : Parameter} {testId : Nat} {ids : Nat → Nat → Nat} {b : PacketBuffer}

/-- The first msghdrs get consecutive ids, the others stay as they are. -/
theorem addPacketIds_carries (hf : p.HeadersFit) (hd : 0 < p.datagramSize)
    (hb : b.Carries p testId ids) {packetId : Nat} {amountPackets : Option Nat}
    (hfits : packetId + amount p amountPackets * p.slots ≤ 2 ^ 64) :
    ∃ b', b.addPacketIds packetId amountPackets = .ok (amount p amountPackets * p.slots, b') ∧
      b'.Carries p testId (fun j i =>
        ((StampCall.addPacketIds packetId amountPackets).assigns p j i).getD (ids j i)) ∧
      ∀ j, amount p amountPackets ≤ j → b'.mmsghdrVec[j]? = b.mmsghdrVec[j]? := by
  let n := amountPackets.getD p.packetBufferSize
  have hn : amountPackets.getD b.mmsghdrVec.length = n := by rw [hb.size]
  have hlen : (b.mmsghdrVec.take n).length = amount p amountPackets := by
    rw [List.length_take, hb.size]
    rfl
  obtain ⟨ms, hms, hmslen, _⟩ := stampAll_ok hf hd
    (fun m hm => hb.slotted.msghdrs m (List.mem_of_mem_take hm)) (hlen ▸ hfits)
  have hresult : b.addPacketIds packetId amountPackets = .ok (amount p amountPackets * p.slots,
      { b with mmsghdrVec := ms ++ b.mmsghdrVec.drop n }) := by
    simp only [PacketBuffer.addPacketIds, hn, hb.datagramSize, hb.packets, hms, ok_bind, hmslen,
      hlen]
  have hsome : b.addPacketIds packetId (some n) = b.addPacketIds packetId amountPackets := by
    rw [← hn]
    rfl
  obtain ⟨hsize, _, _, _, hrest⟩ := addPacketIds_frame (hsome.trans hresult)
  have hkeep : ∀ j, amount p amountPackets ≤ j →
      (ms ++ b.mmsghdrVec.drop n)[j]? = b.mmsghdrVec[j]? := by
    intro j hj
    rcases Nat.lt_or_ge j n with hlt | hge
    · have hout : p.packetBufferSize ≤ j := by
        have : min n p.packetBufferSize ≤ j := hj
        omega
      rw [List.getElem?_eq_none (by rw [hsize, hb.size]; exact hout),
        List.getElem?_eq_none (by rw [hb.size]; exact hout)]
    · exact hrest j hge
  refine ⟨_, hresult, ⟨hsize.trans hb.size, hb.datagramSize, hb.packets, fun j m hm => ?_⟩, hkeep⟩
  simp only [assigns]
  by_cases hj : j < amount p amountPackets
  · simp only [if_pos hj, Option.getD_some]
    have hfront : ms[j]? = some m := by
      rw [← hm, List.getElem?_append_left (by omega)]
    obtain ⟨m₀, hm₀, hstamp⟩ := stampAll_get hms hfront
    rw [List.getElem?_take_of_lt (Nat.lt_of_lt_of_le hj (Nat.min_le_left _ _))] at hm₀
    have hc := hb.msghdrs j m₀ hm₀
    have hnext : (j + 1) * p.slots ≤ amount p amountPackets * p.slots := Nat.mul_le_mul_right _ hj
    rw [Nat.succ_mul] at hnext
    obtain ⟨h', hh', hcarries⟩ := hc.stamp hf hd
      (show packetId + j * p.slots + p.slots ≤ 2 ^ 64 by omega)
    cases hh'.symm.trans hstamp
    simpa only [Nat.add_assoc] using hcarries
  · simp only [if_neg hj, Option.getD_none]
    exact hb.msghdrs j m (hkeep j (Nat.le_of_not_lt hj) ▸ hm)

/-- One msghdr gets consecutive ids, the others stay as they are. -/
theorem addPacketIdsToMsghdr_carries (hf : p.HeadersFit) (hd : 0 < p.datagramSize)
    (hb : b.Carries p testId ids) {packetId index : Nat}
    (hfits : (StampCall.addPacketIdsToMsghdr packetId index).Fits p) :
    ∃ b', b.addPacketIdsToMsghdr packetId index =
        .ok ((StampCall.addPacketIdsToMsghdr packetId index).returns p, b') ∧
      b'.Carries p testId (fun j i =>
        ((StampCall.addPacketIdsToMsghdr packetId index).assigns p j i).getD (ids j i)) ∧
      ∀ j, j ≠ index → b'.mmsghdrVec[j]? = b.mmsghdrVec[j]? := by
  simp only [assigns, returns]
  by_cases hindex : index < p.packetBufferSize
  · obtain ⟨m, hm⟩ : ∃ m, b.mmsghdrVec[index]? = some m :=
      ⟨_, List.getElem?_eq_getElem (by rw [hb.size]; exact hindex)⟩
    obtain ⟨h', hstamp, hcarries⟩ := (hb.msghdrs index m hm).stamp hf hd (hfits hindex)
    refine ⟨b.setMsghdr index h', ?_, ⟨?_, hb.datagramSize, hb.packets, fun j m' hm' => ?_⟩,
      fun j hj => ?_⟩
    · simp only [PacketBuffer.addPacketIdsToMsghdr, hm, hb.datagramSize, hb.packets, hstamp,
        ok_bind, if_pos hindex, covered_addPacketIdsToMsghdr hindex]
    · simpa [PacketBuffer.setMsghdr] using hb.size
    · by_cases hj : j = index
      · subst j
        simp only [PacketBuffer.setMsghdr, List.getElem?_modify_eq, hm] at hm'
        cases hm'
        simpa only [if_pos trivial, Option.getD_some] using hcarries
      · simp only [PacketBuffer.setMsghdr, List.getElem?_modify_ne _ _ (Ne.symm hj)] at hm'
        simpa only [if_neg hj, Option.getD_none] using hb.msghdrs j m' hm'
    · exact List.getElem?_modify_ne _ _ (Ne.symm hj)
  · have hnone : b.mmsghdrVec[index]? = none :=
      List.getElem?_eq_none (by rw [hb.size]; exact Nat.le_of_not_lt hindex)
    refine ⟨b, ?_, ⟨hb.size, hb.datagramSize, hb.packets, fun j m hm => ?_⟩, fun _ _ => rfl⟩
    · simp only [PacketBuffer.addPacketIdsToMsghdr, hnone, if_neg hindex]
    · by_cases hj : j = index
      · rw [hj, hnone] at hm
        cases hm
      · simpa only [if_neg hj, Option.getD_none] using hb.msghdrs j m hm

/-- A call stamps the slots that it covers and leaves the others alone. -/
theorem step_carries (hf : p.HeadersFit) (hd : 0 < p.datagramSize) (hb : b.Carries p testId ids)
    {call : StampCall} (hfits : call.Fits p) :
    ∃ b', call.step b = .ok (call.returns p, b') ∧
      b'.Carries p testId (fun j i => (call.assigns p j i).getD (ids j i)) ∧
      ∀ j i, call.assigns p j i = none → b'.mmsghdrVec[j]? = b.mmsghdrVec[j]? := by
  cases call with
  | addPacketIds packetId amountPackets =>
    obtain ⟨b', hstep, hcarries, hkeep⟩ := addPacketIds_carries hf hd hb hfits
    refine ⟨b', ?_, hcarries, fun j i hnone => hkeep j ?_⟩
    · simp only [step, hstep, returns, covered_addPacketIds]
      rfl
    · simp only [assigns] at hnone
      split at hnone
      · cases hnone
      · omega
  | addPacketIdsToMsghdr packetId index =>
    obtain ⟨b', hstep, hcarries, hkeep⟩ := addPacketIdsToMsghdr_carries hf hd hb hfits
    refine ⟨b', hstep, hcarries, fun j i hnone => hkeep j ?_⟩
    intro hj
    simp only [assigns, if_pos hj] at hnone
    cases hnone

/-- After any calls a slot has the id of the last one that covered it. -/
theorem steps_carries (hf : p.HeadersFit) (hd : 0 < p.datagramSize) (hb : b.Carries p testId ids)
    {calls : List StampCall} (hfits : ∀ call ∈ calls, call.Fits p) :
    ∃ b', steps b calls = .ok (calls.map (returns p), b') ∧
      b'.Carries p testId (fun j i =>
        (calls.reverse.findSome? (assigns p j i)).getD (ids j i)) := by
  induction calls generalizing b ids with
  | nil => exact ⟨b, rfl, hb⟩
  | cons call calls ih =>
    obtain ⟨hcall, hcalls⟩ := List.forall_mem_cons.mp hfits
    obtain ⟨b₁, hstep, hb₁, _⟩ := step_carries hf hd hb hcall
    obtain ⟨b₂, hsteps, hb₂⟩ := ih hb₁ hcalls
    refine ⟨b₂, ?_, ?_⟩
    · simp only [steps, hstep, ok_bind, hsteps, List.map_cons]
    · have hids : (fun j i => ((call :: calls).reverse.findSome? (assigns p j i)).getD (ids j i)) =
          fun j i => (calls.reverse.findSome? (assigns p j i)).getD
            ((call.assigns p j i).getD (ids j i)) := by
        funext j i
        rw [List.reverse_cons, List.findSome?_append, Option.getD_or, List.findSome?_singleton]
      rw [hids]
      exact hb₂

/-- In a new buffer and after any calls, every packet is decoded to what was
written last, and the payload around the headers is there. A call reports the
slots it stamped and changes no other. -/
theorem stamping_exact {calls : List StampCall} (hsize : 0 < p.packetBufferSize)
    (hd : 0 < p.datagramSize) (hf : p.HeadersFit) (hmss : p.mss < 2 ^ 32) (ht : testId < 2 ^ 64)
    (hfits : ∀ call ∈ calls, call.Fits p) :
    ∃ b₀ b, Sender.createPacketBuffer p testId = .ok b₀ ∧
      steps b₀ calls = .ok (calls.map (returns p), b) ∧
      b.mmsghdrVec.length = p.packetBufferSize ∧
      (∀ (j : Nat) (m : Mmsghdr), b.mmsghdrVec[j]? = some m →
        (∃ packets, m.msgHdr.packets p = .ok packets ∧ packets.length = p.slots ∧
          ∀ (i : Nat) (packet : Slice), packets[i]? = some packet →
            MessageHeader.getMessageType packet = .ok .measurement ∧
            MessageHeader.getTestId packet = .ok testId ∧
            MessageHeader.getPacketId packet = .ok (lastId p calls j i)) ∧
        ∀ i < p.mss, p.Outside i →
          m.msgHdr.iovBase[i]? = some (UInt8.ofNat (48 + i % 11))) ∧
      ∀ before call after, calls = before ++ call :: after → ∃ b₁ b₂,
        steps b₀ before = .ok (before.map (returns p), b₁) ∧
        call.step b₁ = .ok (call.returns p, b₂) ∧
        ∀ j i, call.assigns p j i = none → b₂.mmsghdrVec[j]? = b₁.mmsghdrVec[j]? := by
  obtain ⟨b₀, hnew, hb₀⟩ := createPacketBuffer_carries hsize hd hf hmss ht
  obtain ⟨b, hsteps, hb⟩ := steps_carries hf hd hb₀ hfits
  refine ⟨b₀, b, hnew, hsteps, hb.size, fun j m hm => ⟨?_, ?_⟩, ?_⟩
  · exact (hb.msghdrs j m hm).packets hf hd
  · intro i hi hout
    rw [(hb.msghdrs j m hm).payload i hout,
      WrapperMsghdr.repeatingPattern_get _ (Nat.zero_le _) (by simpa using hi), Nat.zero_add]
  · intro before call after hsplit
    subst hsplit
    obtain ⟨hbefore, hcall⟩ := List.forall_mem_append.mp hfits
    obtain ⟨b₁, hsteps₁, hb₁⟩ := steps_carries hf hd hb₀ hbefore
    obtain ⟨b₂, hstep, _, hkeep⟩ :=
      step_carries hf hd hb₁ (List.forall_mem_cons.mp hcall).1
    exact ⟨b₁, b₂, hsteps₁, hstep, hkeep⟩

/-- Two slots: both are stamped, and then again with other ids. -/
theorem stamping_exact_twoSlots :
    ∃ b₀ b, Sender.createPacketBuffer (.twoSlots .sender) 7 = .ok b₀ ∧
      steps b₀ [addPacketIds 5 none, addPacketIdsToMsghdr 9 0] = .ok ([.ok 2, .ok 2], b) ∧
      lastId (.twoSlots .sender) [addPacketIds 5 none, addPacketIdsToMsghdr 9 0] 0 1 = 10 := by
  have hf : (Parameter.twoSlots .sender).HeadersFit :=
    (Parameter.headersFit_iff (by decide) (by decide)).mpr (by decide)
  obtain ⟨b₀, b, hnew, hsteps, _⟩ := stamping_exact (by decide) (by decide) hf (by decide)
    (show 7 < 2 ^ 64 by decide)
    (show ∀ call ∈ [addPacketIds 5 none, addPacketIdsToMsghdr 9 0], call.Fits _ by decide)
  exact ⟨b₀, b, hnew, hsteps, by decide⟩

end

end StampCall
end Nperf
