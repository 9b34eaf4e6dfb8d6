import Nperf.Lib.Runs
import Nperf.Proofs.Parameters
import Nperf.Proofs.Slots

namespace Nperf
open Rust Bytes Runs

/-- `_last_packet_size` of a msghdr. -/
def Parameter.lastPacketSize (p : Parameter) : Nat :=
  if p.mss % p.datagramSize = 0 then p.datagramSize else p.mss % p.datagramSize

/-- The last packet is what the packets before it leave of the buffer. -/
theorem Parameter.lastPacketSize_eq {p : Parameter} (hd : 0 < p.datagramSize) (hmss : 0 < p.mss) :
    0 < p.slots ∧ (p.slots - 1) * p.datagramSize + p.lastPacketSize = p.mss := by
  obtain ⟨hcover, hlt⟩ := slots_cover hd
  have hslots : 0 < p.slots := by
    rcases Nat.eq_zero_or_pos p.slots with hzero | hpos
    · rw [hzero, Nat.zero_mul] at hcover
      omega
    · exact hpos
  have hsplit : p.slots * p.datagramSize = (p.slots - 1) * p.datagramSize + p.datagramSize := by
    rw [← Nat.succ_mul]
    congr 1
    omega
  obtain ⟨last, hlast⟩ := Nat.exists_eq_add_of_lt
    (show (p.slots - 1) * p.datagramSize < p.mss by omega)
  have hmod : p.mss % p.datagramSize = (last + 1) % p.datagramSize := by
    rw [hlast, Nat.add_assoc, Nat.mul_add_mod_self_right]
  refine ⟨hslots, ?_⟩
  unfold lastPacketSize
  rcases Nat.lt_or_ge (last + 1) p.datagramSize with hshort | hfull
  · rw [Nat.mod_eq_of_lt hshort] at hmod
    rw [if_neg (by omega), hmod]
    omega
  · have hwhole : last + 1 = p.datagramSize := by omega
    rw [hwhole, Nat.mod_self] at hmod
    rw [if_pos hmod]
    omega

theorem Parameter.headersFit_iff {p : Parameter} (hd : 0 < p.datagramSize) (hmss : 0 < p.mss) :
    p.HeadersFit ↔ 24 ≤ p.lastPacketSize := by
  obtain ⟨hslots, hlast⟩ := lastPacketSize_eq hd hmss
  constructor
  · intro hf
    have := hf (p.slots - 1) (by omega)
    omega
  · intro hroom i hi
    have hle : i * p.datagramSize ≤ (p.slots - 1) * p.datagramSize :=
      Nat.mul_le_mul_right _ (by omega)
    omega

/-- A sender whose headers fit can be built. -/
theorem Sender.new_total {p : Parameter} (hsize : 0 < p.packetBufferSize)
    (hd : 0 < p.datagramSize) (hf : p.HeadersFit) (clock : Clock) (testId : Nat) :
    ∃ s, Sender.new clock testId p = .ok s := by
  have hblank : WrapperMsghdr.new p.mss p.datagramSize =
      .ok (WrapperMsghdr.blank p.mss p.datagramSize) := by
    unfold WrapperMsghdr.new
    rw [if_neg (by omega)]
    rfl
  obtain ⟨n, hn⟩ := Nat.exists_eq_add_of_lt hsize
  have hws : (List.replicate p.packetBufferSize ()).mapM
      (fun _ => WrapperMsghdr.new p.mss p.datagramSize) =
        .ok (List.replicate p.packetBufferSize (WrapperMsghdr.blank p.mss p.datagramSize)) :=
    mapM_replicate_ok (f := fun _ : Unit => WrapperMsghdr.new p.mss p.datagramSize) hblank _
  have hvec : MsghdrVec.new p.packetBufferSize p.mss p.datagramSize =
      .ok ⟨List.replicate p.packetBufferSize (WrapperMsghdr.blank p.mss p.datagramSize),
        p.datagramSize, p.slots⟩ := by
    simp only [MsghdrVec.new, hws, ok_bind]
    rw [hn, Nat.zero_add, List.replicate_succ]
    rfl
  have hheaders : ∃ w, ((WrapperMsghdr.blank p.mss p.datagramSize).fillWithRepeatingPattern
      ).addMessageHeader testId 0 = .ok w := by
    obtain ⟨buffer, hbuffer, _⟩ := Lists.foldlM_range
      (f := WrapperMsghdr.writeHeader p.datagramSize ⟨.measurement, testId, 0⟩ 0)
      (k := p.slots) (s := WrapperMsghdr.repeatingPattern (List.replicate p.mss 0) 0)
      (fun _ (b : Memory) => b.length = p.mss)
      (by simp [WrapperMsghdr.repeatingPattern_length])
      (by
        intro i b hi hlen
        have hroom := hf i hi
        rw [← hlen] at hroom
        simp only [WrapperMsghdr.writeHeader, MessageHeader.length_serialize, if_pos hroom]
        exact ⟨_, rfl, by simpa using hlen⟩)
    have hbuffer' : (List.range ((p.mss + p.datagramSize - 1) / p.datagramSize)).foldlM
        (WrapperMsghdr.writeHeader p.datagramSize ⟨.measurement, testId, 0⟩ 0)
        (WrapperMsghdr.repeatingPattern (List.replicate p.mss 0) 0) = .ok buffer := hbuffer
    simp only [WrapperMsghdr.addMessageHeader, WrapperMsghdr.fillWithRepeatingPattern,
      WrapperMsghdr.blank, WrapperMsghdr.createMsghdr, hbuffer', ok_bind]
    exact ⟨_, rfl⟩
  obtain ⟨w, hw⟩ := hheaders
  have hall := mapM_replicate_ok (f := fun w : WrapperMsghdr => w.addMessageHeader testId 0) hw
    p.packetBufferSize
  simp only [Sender.new, createPacketBuffer, hvec, ok_bind, MsghdrVec.withMessageHeader,
    MsghdrVec.withRandomPayload, List.map_replicate, hall]
  exact ⟨_, rfl⟩

/-- A call that writes packet ids or sends a datagram. -/
inductive BufferCall
  | addPacketIds (packetId : UInt64) (amountPackets : Option Nat)
  | addPacketIdsToMsghdr (packetId : UInt64) (index : Nat)
  | send (kernel : Except Error Nat)

/-- The byte range that has been passed to `send` lies in the first buffer. -/
def Sender.rangeSent (s : Sender) : Except Fault Unit :=
  match s.packetBuffer.mmsghdrVec[0]? with
  | none => .error .unwrap
  | some m =>
    if s.packetBuffer.datagramSize ≤ m.msgHdr.iovLen then .ok () else .error .outOfBounds

def BufferCall.step (s : Sender) : BufferCall → Except Fault Sender
  | .addPacketIds packetId amountPackets => do
    let (_, b) ← s.packetBuffer.addPacketIds packetId.toNat amountPackets
    .ok { s with packetBuffer := b }
  | .addPacketIdsToMsghdr packetId index => do
    let (_, b) ← s.packetBuffer.addPacketIdsToMsghdr packetId.toNat index
    .ok { s with packetBuffer := b }
  | .send kernel => do
    let (_, s) ← s.send kernel
    s.rangeSent
    .ok s

/-- A sender can be built, and no sequence of calls panics or leaves a buffer,
apart from packet ids that do not fit into 64 bits. -/
def Parameter.Inbounds (p : Parameter) : Prop :=
  ∀ (clock : Clock) (testId : Nat), testId < 2 ^ 64 → ∃ s, Sender.new clock testId p = .ok s ∧
    ∀ calls f, run BufferCall.step s calls = .error f → f = .overflow

section
variable {p : Parameter} {testId : Nat}

theorem stampSlot_error {h : Msghdr} {packetId i : Nat} {f : Fault} (hs : h.Sound p.mss)
    (hfit : i * p.datagramSize + 24 ≤ p.mss)
    (he : PacketBuffer.stampSlot p.datagramSize packetId h i = .error f) : f = .overflow := by
  by_cases hid : packetId + i < 2 ^ 64
  · rw [stampSlot_ok hs hfit hid] at he
    cases he
  · rw [PacketBuffer.stampSlot, hs.buffer, ok_bind, Slice.from, if_pos (by simp only; omega),
      ok_bind] at he
    rcases bind_error he with hnum | ⟨id, hnum, _⟩
    · exact debug_u64_error hnum
    · obtain ⟨heq, hlt⟩ := debug_u64_ok hnum
      omega

theorem stampMsghdr_error {h : Msghdr} {packetId : Nat} {f : Fault} (hs : h.Sound p.mss)
    (hf : p.HeadersFit)
    (he : PacketBuffer.stampMsghdr p.datagramSize p.slots packetId h = .error f) :
    f = .overflow := by
  refine Lists.foldlM_range_error (fun _ (h : Msghdr) => h.Sound p.mss) (· = .overflow) hs ?_
    (fun i h f hi hs hslot => stampSlot_error hs (hf i hi) hslot) he
  intro i h h' hi hs hslot
  by_cases hid : packetId + i < 2 ^ 64
  · rw [stampSlot_ok hs (hf i hi) hid] at hslot
    cases hslot
    exact ⟨hs.iovlen, hs.length, by simpa using hs.memory⟩
  · simp only [PacketBuffer.stampSlot, bind_ok] at hslot
    obtain ⟨_, _, _, _, id, hnum, _⟩ := hslot
    obtain ⟨heq, hlt⟩ := debug_u64_ok hnum
    omega

theorem stampAll_error {ms : List Mmsghdr} {packetId : Nat} {f : Fault} (hf : p.HeadersFit)
    (hs : ∀ m ∈ ms, m.msgHdr.Sound p.mss)
    (he : PacketBuffer.stampAll p.datagramSize p.slots packetId ms = .error f) :
    f = .overflow := by
  induction ms generalizing packetId with
  | nil => cases he
  | cons m ms ih =>
    obtain ⟨hm, hms⟩ := List.forall_mem_cons.mp hs
    rcases bind_error he with hstamp | ⟨h', _, he⟩
    · exact stampMsghdr_error hm hf hstamp
    · rcases bind_error he with hrest | ⟨_, _, he⟩
      · exact ih hms hrest
      · cases he

theorem addPacketIds_error {b : PacketBuffer} {packetId : Nat} {amount : Option Nat} {f : Fault}
    (hf : p.HeadersFit) (hs : b.Slotted p testId)
    (he : b.addPacketIds packetId amount = .error f) : f = .overflow := by
  simp only [PacketBuffer.addPacketIds, hs.datagramSize, hs.packets] at he
  rcases bind_error he with hstamp | ⟨_, _, he⟩
  · exact stampAll_error hf (fun m hm => (hs.msghdrs m (List.mem_of_mem_take hm)).sound) hstamp
  · cases he

theorem addPacketIds_slotted {b b' : PacketBuffer} {packetId used : Nat} {amount : Option Nat}
    (hf : p.HeadersFit) (hd : 0 < p.datagramSize) (hs : b.Slotted p testId)
    (hid : packetId ≤ 2 ^ 64) (h : b.addPacketIds packetId amount = .ok (used, b')) :
    b'.Slotted p testId := by
  cases amount with
  | some n => exact (addPacketIds_some hf hd hs hid h).1
  | none =>
    have hall : b.addPacketIds packetId (some b.mmsghdrVec.length) = .ok (used, b') := h
    exact (addPacketIds_some hf hd hs hid hall).1

/-- The buffers of a sender between two calls. -/
structure Sender.Ready (p : Parameter) (testId : Nat) (s : Sender) : Prop where
  slotted : s.packetBuffer.Slotted p testId
  nextPacketId : s.nextPacketId ≤ 2 ^ 64

theorem Sender.stamp_ready {s s' : Sender} {amount : Nat} (hf : p.HeadersFit)
    (hd : 0 < p.datagramSize) (hs : s.Ready p testId) (h : s.stamp = .ok (amount, s')) :
    s'.Ready p testId ∧ amount ≤ s'.nextPacketId := by
  simp only [stamp, bind_ok] at h
  obtain ⟨⟨used, b⟩, hstamp, next, hnum, h⟩ := h
  cases h
  obtain ⟨heq, hlt⟩ := debug_u64_ok hnum
  refine ⟨⟨addPacketIds_slotted hf hd hs.slotted hs.nextPacketId hstamp, Nat.le_of_lt hlt⟩, ?_⟩
  simp only at heq ⊢
  omega

theorem Sender.stamp_error {s : Sender} {f : Fault} (hf : p.HeadersFit) (hs : s.Ready p testId)
    (he : s.stamp = .error f) : f = .overflow := by
  rcases bind_error he with hstamp | ⟨_, _, he⟩
  · exact addPacketIds_error hf hs.slotted hstamp
  · rcases bind_error he with hnum | ⟨_, _, he⟩
    · exact debug_u64_error hnum
    · cases he

theorem Sender.failed_ready {s s' : Sender} {amount : Nat} {e : Error} {result : Except Error Unit}
    (hs : s.Ready p testId) (h : s.failed amount e = .ok (result, s')) : s'.Ready p testId := by
  have hnext := hs.nextPacketId
  cases e with
  | eagain =>
    obtain ⟨next, hsub, h⟩ := bind_ok.mp h
    cases h
    refine ⟨hs.slotted, ?_⟩
    unfold checkedSub at hsub
    split at hsub
    · cases hsub
      simp only
      omega
    · cases hsub
  | _ =>
    cases h
    exact hs

theorem Sender.failed_error {s : Sender} {amount : Nat} {e : Error} {f : Fault}
    (he : s.failed amount e = .error f) : f = .overflow := by
  cases e with
  | eagain =>
    rcases bind_error he with hsub | ⟨_, _, he⟩
    · exact checkedSub_error hsub
    · cases he
  | _ => cases he

theorem Sender.send_split {s : Sender} {kernel : Except Error Nat}
    (hsize : 0 < p.packetBufferSize) (hd : 0 < p.datagramSize)
    (hf : p.HeadersFit) (hs : s.Ready p testId) :
    s.send kernel = s.stamp >>= fun (amount, s) =>
      match kernel with
      | .ok bytes => .ok (.ok (), s.count amount bytes)
      | .error e => s.failed amount e := by
  unfold send
  cases hstamp : s.stamp with
  | error f => rfl
  | ok v =>
    obtain ⟨amount, s'⟩ := v
    have hs' := (stamp_ready hf hd hs hstamp).1.slotted
    have hlt : 0 < s'.packetBuffer.mmsghdrVec.length := hs'.size ▸ hsize
    have hfirst := List.getElem?_eq_getElem hlt
    have hsound := (hs'.msghdrs _ (List.mem_of_getElem? hfirst)).sound
    have hkernel : socketSend s'.packetBuffer.datagramSize kernel = kernel :=
      if_neg (by rw [hs'.datagramSize]; omega)
    cases kernel with
    | ok bytes => simp only [ok_bind, hfirst, hsound.buffer, hkernel]
    | error e => simp only [ok_bind, hfirst, hsound.buffer, hkernel]

theorem Sender.send_ready {s s' : Sender} {kernel : Except Error Nat} {result : Except Error Unit}
    (hsize : 0 < p.packetBufferSize) (hd : 0 < p.datagramSize) (hf : p.HeadersFit)
    (hs : s.Ready p testId) (h : s.send kernel = .ok (result, s')) : s'.Ready p testId := by
  rw [send_split hsize hd hf hs] at h
  obtain ⟨⟨amount, t⟩, hstamp, h⟩ := bind_ok.mp h
  obtain ⟨ht, _⟩ := stamp_ready hf hd hs hstamp
  cases kernel with
  | ok bytes =>
    cases h
    exact ⟨ht.slotted, ht.nextPacketId⟩
  | error e => exact failed_ready ht h

/-- A datagram is read from a buffer as long as the others. -/
theorem Sender.rangeSent_eq {s : Sender} (hsize : 0 < p.packetBufferSize)
    (hs : s.Ready p testId) :
    s.rangeSent = if p.datagramSize ≤ p.mss then .ok () else .error .outOfBounds := by
  have hlt : 0 < s.packetBuffer.mmsghdrVec.length := hs.slotted.size ▸ hsize
  have hfirst := List.getElem?_eq_getElem hlt
  have hsound := (hs.slotted.msghdrs _ (List.mem_of_getElem? hfirst)).sound
  simp only [rangeSent, hfirst, hs.slotted.datagramSize, hsound.length]

theorem BufferCall.step_ready {s s' : Sender} {c : BufferCall} (hsize : 0 < p.packetBufferSize)
    (hd : 0 < p.datagramSize) (hf : p.HeadersFit) (hs : s.Ready p testId)
    (h : BufferCall.step s c = .ok s') : s'.Ready p testId := by
  cases c with
  | addPacketIds packetId amount =>
    obtain ⟨⟨used, b⟩, hstamp, h⟩ := bind_ok.mp h
    cases h
    have hid := packetId.toNat_lt
    exact ⟨addPacketIds_slotted hf hd hs.slotted (Nat.le_of_lt hid) hstamp, hs.nextPacketId⟩
  | addPacketIdsToMsghdr packetId index =>
    obtain ⟨⟨result, b⟩, hstamp, h⟩ := bind_ok.mp h
    cases h
    cases result with
    | error e =>
      rcases addPacketIdsToMsghdr_cases hstamp with ⟨_, rfl⟩ | ⟨_, _, _, _, hused, _⟩
      · exact hs
      · cases hused
    | ok used =>
      have hid := packetId.toNat_lt
      obtain ⟨_, _, hb, _⟩ :=
        addPacketIdsToMsghdr_ok hf hd hs.slotted (Nat.le_of_lt hid) hstamp
      exact ⟨hb, hs.nextPacketId⟩
  | send kernel =>
    obtain ⟨⟨result, t⟩, hsend, h⟩ := bind_ok.mp h
    obtain ⟨_, _, h⟩ := bind_ok.mp h
    cases h
    exact Sender.send_ready hsize hd hf hs hsend

theorem BufferCall.step_error {s : Sender} {c : BufferCall} {f : Fault}
    (hsize : 0 < p.packetBufferSize) (hd : 0 < p.datagramSize) (hmss : p.datagramSize ≤ p.mss)
    (hf : p.HeadersFit) (hs : s.Ready p testId) (he : BufferCall.step s c = .error f) :
    f = .overflow := by
  cases c with
  | addPacketIds packetId amount =>
    rcases bind_error he with hstamp | ⟨_, _, he⟩
    · exact addPacketIds_error hf hs.slotted hstamp
    · cases he
  | addPacketIdsToMsghdr packetId index =>
    rcases bind_error he with hstamp | ⟨_, _, he⟩
    · simp only [PacketBuffer.addPacketIdsToMsghdr] at hstamp
      split at hstamp
      · cases hstamp
      · rename_i m hm
        rw [hs.slotted.datagramSize, hs.slotted.packets] at hstamp
        rcases bind_error hstamp with hone | ⟨_, _, hstamp⟩
        · exact stampMsghdr_error (hs.slotted.msghdrs m (List.mem_of_getElem? hm)).sound hf hone
        · cases hstamp
    · cases he
  | send kernel =>
    rcases bind_error he with hsend | ⟨⟨result, t⟩, hsend, he⟩
    · rw [Sender.send_split hsize hd hf hs] at hsend
      rcases bind_error hsend with hstamp | ⟨⟨amount, u⟩, _, hsend⟩
      · exact Sender.stamp_error hf hs hstamp
      · cases kernel with
        | ok bytes => cases hsend
        | error e => exact Sender.failed_error hsend
    · simp only [Sender.rangeSent_eq hsize (Sender.send_ready hsize hd hf hs hsend),
        if_pos hmss] at he
      cases he

/-- A datagram longer than the buffer makes the first send read behind it. -/
theorem Sender.send_outside {s : Sender} (hsize : 0 < p.packetBufferSize)
    (hmax : p.packetBufferSize < 2 ^ 64) (hd : 0 < p.datagramSize) (hlong : p.mss < p.datagramSize)
    (hf : p.HeadersFit) (hs : s.packetBuffer.Slotted p testId) (hzero : s.nextPacketId = 0)
    (bytes : Nat) : BufferCall.step s (.send (.ok bytes)) = .error .outOfBounds := by
  have hslots : p.slots ≤ 1 := by
    have := (Parameter.slots_cover hd).2
    by_cases hmany : 2 ≤ p.slots
    · have := Nat.mul_le_mul_right p.datagramSize hmany
      omega
    · omega
  have hids : p.packetBufferSize * p.slots < 2 ^ 64 := by
    have := Nat.mul_le_mul_left p.packetBufferSize hslots
    omega
  obtain ⟨b, hb, hslotted, _⟩ := addPacketIds_ok hf hd hs
    (by omega : 0 + p.packetBufferSize * p.slots ≤ 2 ^ 64)
  have hready : s.Ready p testId := ⟨hs, by omega⟩
  have hnum := u64_fits .debug hids
  obtain ⟨t, hsend⟩ : ∃ t, s.send (.ok bytes) = .ok (.ok (), t) := by
    rw [send_split hsize hd hf hready]
    simp only [stamp, hzero, hb, ok_bind, Int.natCast_zero, Int.zero_add, hnum]
    exact ⟨_, rfl⟩
  simp only [BufferCall.step, hsend, ok_bind,
    rangeSent_eq hsize (send_ready hsize hd hf hready hsend), if_neg (Nat.not_le.mpr hlong)]
  rfl

end

/-- A sender stays inside of its buffers exactly if it has one, a datagram is
not longer than a buffer, and the last packet of a buffer has room for a
header. -/
theorem buffers_inbounds_iff (args : NPerf) (build : Build) (cores : Nat) (p : Parameter)
    (hparse : args.parseParameter build cores = .ok (some p)) :
    p.Inbounds ↔ 0 < p.packetBufferSize ∧ 0 < p.datagramSize ∧ p.datagramSize ≤ p.mss ∧
      24 ≤ p.lastPacketSize := by
  constructor
  · intro hin
    obtain ⟨s, hnew, hcalls⟩ := hin ⟨0, 0⟩ 0 (by decide)
    obtain ⟨hs, hf, hd, hsize, hzero, _⟩ := Sender.new_ok (by decide) hnew
    have hmss : p.datagramSize ≤ p.mss := by
      by_cases hlong : p.mss < p.datagramSize
      · have hsend := Sender.send_outside hsize (NPerf.parseParameter_size hparse) hd hlong hf hs
          hzero 0
        have := hcalls [.send (.ok 0)] .outOfBounds (by
          simp only [run, hsend]
          rfl)
        cases this
      · omega
    exact ⟨hsize, hd, hmss, (Parameter.headersFit_iff hd (by omega)).mp hf⟩
  · rintro ⟨hsize, hd, hmss, hroom⟩ clock testId ht
    have hf := (Parameter.headersFit_iff hd (by omega)).mpr hroom
    obtain ⟨s, hnew⟩ := Sender.new_total hsize hd hf clock testId
    obtain ⟨hs, _, _, _, hzero, _⟩ := Sender.new_ok ht hnew
    refine ⟨s, hnew, fun calls f he => ?_⟩
    exact run_error (I := Sender.Ready p testId) (E := (· = .overflow))
      (fun _ _ _ hs h => BufferCall.step_ready hsize hd hf hs h)
      (fun _ _ _ hs he => BufferCall.step_error hsize hd hmss hf hs he)
      ⟨hs, by rw [hzero]; exact Nat.zero_le _⟩ he

theorem buffers_inbounds_headers : (Parameter.twoSlots .sender).Inbounds :=
  (buffers_inbounds_iff (.twoSlots .sender) .debug 8 (.twoSlots .sender) (by decide +kernel)).mpr
    (by decide)

/-- Accepted: packets of no bytes, no message at all for `sendmmsg`, a last
packet shorter than its header, and datagrams longer than the buffer. -/
theorem buffers_outside :
    let accepts (args : NPerf) (p : Parameter) := args.parseParameter .debug 8 = .ok (some p)
    let p := { Parameter.headersOnly with mode := .sender }
    let args := { NPerf.headersOnly with mode := .sender }
    (accepts { args with datagramSize := 0 } { p with datagramSize := 0 } ∧
        (Sender.new ⟨0, 0⟩ 7 { p with datagramSize := 0 }).map (fun _ => ()) =
          .error .divideByZero) ∧
      (accepts { args with exchangeFunction := .mmsg, withMmsgAmount := 0 }
          { p with exchangeFunction := .mmsg, packetBufferSize := 0 } ∧
        (Sender.new ⟨0, 0⟩ 7 { p with exchangeFunction := .mmsg, packetBufferSize := 0 }).map
          (fun _ => ()) = .error .unwrap) ∧
      (accepts { args with withMss := 30 } { p with mss := 30 } ∧
        (Sender.new ⟨0, 0⟩ 7 { p with mss := 30 }).map (fun _ => ()) = .error .index) ∧
      accepts { args with datagramSize := 48 } { p with datagramSize := 48 } ∧
        (Sender.new ⟨0, 0⟩ 7 { p with datagramSize := 48 } >>= fun s =>
          BufferCall.step s (.send (.ok 48))).map (fun _ => ()) = .error .outOfBounds := by
  decide +kernel

end Nperf
