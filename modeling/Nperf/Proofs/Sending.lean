import Nperf.Lib.Runs
import Nperf.Model.CommandParser
import Nperf.Proofs.Slots

namespace Nperf
open Rust Bytes Runs

/-- A send call with the answer of the kernel. -/
inductive SendCall
  | sendmsg (kernel : Except Error Nat)
  | sendmmsg (kernel : Except Error (List Nat))

namespace SendCall

/-- The number of msghdrs the kernel accepts. -/
def accepted : SendCall → Nat
  | sendmsg (.ok _) => 1
  | sendmmsg (.ok lengths) => lengths.length
  | _ => 0

/-- The kernel accepts some msghdrs of a call or would block; a buffer for
`sendmsg` has one msghdr. -/
def Ordinary (p : Parameter) : SendCall → Prop
  | sendmsg kernel =>
    p.packetBufferSize = 1 ∧ (kernel = .error .eagain ∨ ∃ bytes, kernel = .ok bytes)
  | sendmmsg kernel => kernel = .error .eagain ∨ ∃ lengths, kernel = .ok lengths ∧
      1 ≤ lengths.length ∧ lengths.length ≤ p.packetBufferSize

def perform (s : Sender) : SendCall → Except Fault (Except Error Unit × Sender)
  | sendmsg kernel => s.sendmsg kernel
  | sendmmsg kernel => s.sendmmsg kernel

/-- The sender, and the msghdrs that the kernel has accepted so far. A call
does not touch the memory of a msghdr after the kernel has read it. -/
def step : Sender × List Msghdr → SendCall → Except Fault (Sender × List Msghdr)
  | (s, sent), c => do
    let (_, s) ← c.perform s
    .ok (s, sent ++ (s.packetBuffer.mmsghdrVec.take c.accepted).map Mmsghdr.msgHdr)

end SendCall

/-- What has been sent, and what the sender believes. -/
structure Sending (p : Parameter) (testId : Nat) (s : Sender × List Msghdr) : Prop where
  buffer : s.1.packetBuffer.Slotted p testId
  slotted : ∀ h ∈ s.2, h.Slotted p testId
  ids : s.2.flatMap (Msghdr.slotIds p) = List.range s.1.nextPacketId
  counted : s.1.statistic.amountDatagrams = s.1.nextPacketId
  range : s.1.nextPacketId < 2 ^ 64

theorem Sender.stamp_ok {p : Parameter} {testId : Nat} (hf : p.HeadersFit)
    (hd : 0 < p.datagramSize) {s : Sender} (hs : s.packetBuffer.Slotted p testId)
    (hfit : s.nextPacketId + p.packetBufferSize * p.slots < 2 ^ 64) :
    ∃ b, s.stamp = .ok (p.packetBufferSize * p.slots, { s with
        packetBuffer := b
        nextPacketId := s.nextPacketId + p.packetBufferSize * p.slots }) ∧
      b.Slotted p testId ∧ ∀ n ≤ p.packetBufferSize,
        (b.mmsghdrVec.take n).flatMap (fun m => m.msgHdr.slotIds p) =
          List.range' s.nextPacketId (n * p.slots) := by
  obtain ⟨b, hb, hslotted, htake⟩ := addPacketIds_ok hf hd hs (Nat.le_of_lt hfit)
  refine ⟨b, ?_, hslotted, htake⟩
  have hnum : Build.debug.u64 ((s.nextPacketId : Int) + (p.packetBufferSize * p.slots : Nat)) =
      .ok (s.nextPacketId + p.packetBufferSize * p.slots) := by
    rw [← Int.natCast_add]
    exact u64_fits _ hfit
  simp only [stamp, hb, ok_bind, hnum]

theorem Sender.sentAll_msghdrs (ms : List Mmsghdr) (ns : List Nat) :
    (sentAll ms ns).map Mmsghdr.msgHdr = ms.map Mmsghdr.msgHdr := by
  induction ns generalizing ms with
  | nil => cases ms <;> rfl
  | cons n ns ih =>
    cases ms with
    | nil => rfl
    | cons m ms => simp only [sentAll, List.map_cons, ih]

/-- The first `n` msghdrs of a stamped buffer are the next ones to be sent. -/
theorem Sending.accept {p : Parameter} {testId : Nat} {s s' : Sender} {sent : List Msghdr}
    (hs : Sending p testId (s, sent)) {b : PacketBuffer} (hb : b.Slotted p testId) {n : Nat}
    (htake : (b.mmsghdrVec.take n).flatMap (fun m => m.msgHdr.slotIds p) =
      List.range' s.nextPacketId (n * p.slots))
    (hmsghdrs : s'.packetBuffer.mmsghdrVec.map Mmsghdr.msgHdr = b.mmsghdrVec.map Mmsghdr.msgHdr)
    (hsize : s'.packetBuffer.datagramSize = b.datagramSize)
    (hpackets : s'.packetBuffer.packetsAmountPerMsghdr = b.packetsAmountPerMsghdr)
    (hnext : s'.nextPacketId = s.nextPacketId + n * p.slots) (hrange : s'.nextPacketId < 2 ^ 64)
    (hcount : s'.statistic.amountDatagrams = s.statistic.amountDatagrams + n * p.slots) :
    Sending p testId
      (s', sent ++ (s'.packetBuffer.mmsghdrVec.take n).map Mmsghdr.msgHdr) := by
  have hslotted : ∀ h ∈ s'.packetBuffer.mmsghdrVec.map Mmsghdr.msgHdr, h.Slotted p testId := by
    intro h hh
    obtain ⟨m, hm, rfl⟩ := List.mem_map.mp (hmsghdrs ▸ hh)
    exact hb.msghdrs m hm
  have hlen := congrArg List.length hmsghdrs
  simp only [List.length_map] at hlen
  refine ⟨⟨hlen.trans hb.size, hsize.trans hb.datagramSize, hpackets.trans hb.packets,
    fun m hm => hslotted _ (List.mem_map_of_mem hm)⟩, ?_, ?_, ?_, hrange⟩
  · intro h hh
    rcases List.mem_append.mp hh with hh | hh
    · exact hs.slotted h hh
    · rw [List.map_take] at hh
      exact hslotted h (List.mem_of_mem_take hh)
  · have hids := hs.ids
    have hnew : ((s'.packetBuffer.mmsghdrVec.take n).map Mmsghdr.msgHdr).flatMap
        (Msghdr.slotIds p) = List.range' s.nextPacketId (n * p.slots) := by
      rw [List.map_take, hmsghdrs, ← List.map_take, List.flatMap_map]
      exact htake
    simp only at hids ⊢
    rw [List.flatMap_append, hids, hnew, hnext, List.range_eq_range', List.range_eq_range']
    have := List.range'_append_1 (s := 0) (m := s.nextPacketId) (n := n * p.slots)
    rw [Nat.zero_add] at this
    exact this
  · have hcounted := hs.counted
    simp only at hcounted ⊢
    omega

theorem Sending.eagain {p : Parameter} {testId : Nat} {s : Sender} {sent : List Msghdr}
    (hs : Sending p testId (s, sent)) {b : PacketBuffer} (hb : b.Slotted p testId)
    (amountDatagrams : Nat) :
    ∃ s', Sender.failed { s with
          packetBuffer := b
          nextPacketId := s.nextPacketId + amountDatagrams } amountDatagrams .eagain =
        .ok (.error .eagain, s') ∧
      Sending p testId (s', sent ++ (s'.packetBuffer.mmsghdrVec.take 0).map Mmsghdr.msgHdr) ∧
      s'.nextPacketId = s.nextPacketId := by
  refine ⟨{ s with packetBuffer := b }, ?_, ?_, rfl⟩
  · simp only [Sender.failed, checkedSub_ok (Nat.le_add_left _ _), ok_bind,
      Nat.add_sub_cancel]
  · exact hs.accept hb (n := 0) (by simp) rfl rfl rfl (by simp) hs.range (by simp)

theorem Sending.sendmsg {p : Parameter} {testId : Nat} {s : Sender} {sent : List Msghdr}
    (hs : Sending p testId (s, sent)) (hf : p.HeadersFit) (hd : 0 < p.datagramSize)
    (hone : p.packetBufferSize = 1)
    (hfit : s.nextPacketId + p.packetBufferSize * p.slots < 2 ^ 64) (bytes : Nat) :
    ∃ s', s.sendmsg (.ok bytes) = .ok (.ok (), s') ∧
      Sending p testId (s', sent ++ (s'.packetBuffer.mmsghdrVec.take 1).map Mmsghdr.msgHdr) ∧
      s'.nextPacketId = s.nextPacketId + 1 * p.slots := by
  obtain ⟨b, hstamp, hb, htake⟩ := s.stamp_ok hf hd hs.buffer hfit
  have hsize : 0 < b.mmsghdrVec.length := by
    have := hb.size
    omega
  rw [hone] at hstamp
  refine ⟨Sender.count { s with
      packetBuffer := b
      nextPacketId := s.nextPacketId + 1 * p.slots } (1 * p.slots) bytes, ?_,
    hs.accept hb (htake 1 (by omega)) rfl rfl rfl rfl (hone ▸ hfit) rfl, rfl⟩
  simp only [Sender.sendmsg, hstamp, ok_bind, PacketBuffer.getMsghdrFromIndex,
    List.getElem?_eq_getElem hsize]

theorem Sending.sendmmsg {p : Parameter} {testId : Nat} {s : Sender} {sent : List Msghdr}
    (hs : Sending p testId (s, sent)) (hf : p.HeadersFit) (hd : 0 < p.datagramSize)
    (hfit : s.nextPacketId + p.packetBufferSize * p.slots < 2 ^ 64) {lengths : List Nat}
    (hle : lengths.length ≤ p.packetBufferSize) :
    ∃ s', s.sendmmsg (.ok lengths) = .ok (.ok (), s') ∧
      Sending p testId
        (s', sent ++ (s'.packetBuffer.mmsghdrVec.take lengths.length).map Mmsghdr.msgHdr) ∧
      s'.nextPacketId = s.nextPacketId + lengths.length * p.slots := by
  obtain ⟨b, hstamp, hb, htake⟩ := s.stamp_ok hf hd hs.buffer hfit
  have hmsghdrs := Sender.sentAll_msghdrs b.mmsghdrVec lengths
  have hlen := congrArg List.length hmsghdrs
  simp only [List.length_map, hb.size] at hlen
  -- both branches of the rollback leave what the accepted msghdrs have used
  have hback : s.nextPacketId + p.packetBufferSize * p.slots -
      (p.packetBufferSize - lengths.length) * p.slots =
        s.nextPacketId + lengths.length * p.slots := by
    have := Nat.mul_le_mul_right p.slots hle
    rw [Nat.sub_mul]
    omega
  have hsub : (p.packetBufferSize - lengths.length) * p.slots ≤
      s.nextPacketId + p.packetBufferSize * p.slots :=
    Nat.le_trans (Nat.mul_le_mul_right _ (Nat.sub_le _ _)) (Nat.le_add_left _ _)
  refine ⟨Sender.count { s with
      packetBuffer := { b with mmsghdrVec := Sender.sentAll b.mmsghdrVec lengths }
      nextPacketId := s.nextPacketId + lengths.length * p.slots } (lengths.length * p.slots)
        (getTotalBytes (Sender.sentAll b.mmsghdrVec lengths) lengths.length), ?_,
    hs.accept hb (htake lengths.length hle) hmsghdrs rfl rfl rfl
      (Nat.lt_of_le_of_lt (Nat.add_le_add_left (Nat.mul_le_mul_right _ hle) _) hfit) rfl, rfl⟩
  simp only [Sender.sendmmsg, hstamp, ok_bind, hlen, hb.packets]
  split
  · rename_i hall
    rw [← hall]
  · rw [checkedSub_ok hle, ok_bind, checkedSub_ok hsub, ok_bind, hback]

/-- A call whose ids are in range succeeds, also if the kernel does not accept
all of it. -/
theorem Sending.step {p : Parameter} {testId : Nat} {s : Sender} {sent : List Msghdr}
    (hs : Sending p testId (s, sent)) (hf : p.HeadersFit) (hd : 0 < p.datagramSize)
    (hfit : s.nextPacketId + p.packetBufferSize * p.slots < 2 ^ 64) {c : SendCall}
    (hc : c.Ordinary p) :
    ∃ s', SendCall.step (s, sent) c = .ok s' ∧ Sending p testId s' ∧
      s'.1.nextPacketId = s.nextPacketId + c.accepted * p.slots := by
  obtain ⟨b, hstamp, hb, _⟩ := s.stamp_ok hf hd hs.buffer hfit
  obtain ⟨back, hback, hsending, hnext⟩ := hs.eagain hb (p.packetBufferSize * p.slots)
  cases c with
  | sendmsg kernel =>
    obtain ⟨hone, rfl | ⟨bytes, rfl⟩⟩ := hc
    · have hsize : 0 < b.mmsghdrVec.length := by
        have := hb.size
        omega
      refine ⟨_, ?_, hsending, by simpa [SendCall.accepted] using hnext⟩
      simp only [SendCall.step, SendCall.perform, Sender.sendmsg, hstamp, ok_bind,
        PacketBuffer.getMsghdrFromIndex, List.getElem?_eq_getElem hsize, hback]
      rfl
    · obtain ⟨s', h, hsending, hnext⟩ := hs.sendmsg hf hd hone hfit bytes
      exact ⟨_, by simp only [SendCall.step, SendCall.perform, h, ok_bind]; rfl, hsending, hnext⟩
  | sendmmsg kernel =>
    obtain rfl | ⟨lengths, rfl, _, hle⟩ := hc
    · refine ⟨_, ?_, hsending, by simpa [SendCall.accepted] using hnext⟩
      simp only [SendCall.step, SendCall.perform, Sender.sendmmsg, hstamp, ok_bind, hback]
      rfl
    · obtain ⟨s', h, hsending, hnext⟩ := hs.sendmmsg hf hd hfit hle
      exact ⟨_, by simp only [SendCall.step, SendCall.perform, h, ok_bind]; rfl, hsending, hnext⟩

/-- Every call needs ids for a whole buffer, however little is sent of it. -/
theorem Sender.stamp_fits {p : Parameter} {testId : Nat} {s : Sender}
    (hs : s.packetBuffer.Slotted p testId) {v : Nat × Sender} (h : s.stamp = .ok v) :
    s.nextPacketId + p.packetBufferSize * p.slots < 2 ^ 64 := by
  simp only [stamp, PacketBuffer.addPacketIds, bind_ok] at h
  obtain ⟨⟨n, b⟩, ⟨ms, hms, hb⟩, next, hnext, _⟩ := h
  cases hb
  have hlen := stampAll_length hms
  rw [Option.getD_none, List.take_length, hs.size] at hlen
  rw [hlen, hs.packets] at hnext
  have := (debug_u64_ok hnext)
  omega

theorem Sending.step_fits {p : Parameter} {testId : Nat} {s s' : Sender × List Msghdr}
    (hs : Sending p testId s) {c : SendCall} (h : SendCall.step s c = .ok s') :
    s.1.nextPacketId + p.packetBufferSize * p.slots < 2 ^ 64 := by
  simp only [SendCall.step] at h
  obtain ⟨v, hv, _⟩ := bind_ok.mp h
  cases c with
  | sendmsg kernel =>
    obtain ⟨w, hw, _⟩ := bind_ok.mp (show Sender.sendmsg s.1 kernel = _ from hv)
    exact Sender.stamp_fits hs.buffer hw
  | sendmmsg kernel =>
    obtain ⟨w, hw, _⟩ := bind_ok.mp (show Sender.sendmmsg s.1 kernel = _ from hv)
    exact Sender.stamp_fits hs.buffer hw

theorem Sending.run {p : Parameter} {testId : Nat} (hf : p.HeadersFit) (hd : 0 < p.datagramSize)
    {s s' : Sender × List Msghdr} (hs : Sending p testId s) {calls : List SendCall}
    (hc : ∀ c ∈ calls, c.Ordinary p) (h : Runs.run SendCall.step s calls = .ok s') :
    Sending p testId s' := by
  induction calls generalizing s with
  | nil =>
    cases h
    exact hs
  | cons c calls ih =>
    obtain ⟨hfirst, hrest⟩ := List.forall_mem_cons.mp hc
    obtain ⟨t, ht, hr⟩ := run_cons_ok.mp h
    obtain ⟨t', ht', hst, _⟩ := Sending.step (s := s.1) hs hf hd (hs.step_fits ht) hfirst
    cases ht.symm.trans ht'
    exact ih hst hrest hr

/-- A run goes on until the packet ids are used up. -/
theorem Sending.goes_on {p : Parameter} {testId : Nat} (hf : p.HeadersFit)
    (hd : 0 < p.datagramSize) {s : Sender × List Msghdr} (hs : Sending p testId s)
    {calls : List SendCall} (hc : ∀ c ∈ calls, c.Ordinary p) :
    ∃ pre post s', calls = pre ++ post ∧ Runs.run SendCall.step s pre = .ok s' ∧
      (post = [] ∨ 2 ^ 64 ≤ s'.1.nextPacketId + p.packetBufferSize * p.slots) := by
  induction calls generalizing s with
  | nil => exact ⟨[], [], s, rfl, rfl, Or.inl rfl⟩
  | cons c calls ih =>
    obtain ⟨hfirst, hrest⟩ := List.forall_mem_cons.mp hc
    rcases Nat.lt_or_ge (s.1.nextPacketId + p.packetBufferSize * p.slots) (2 ^ 64) with hfit | hfull
    · obtain ⟨t, ht, hst, _⟩ := Sending.step (s := s.1) hs hf hd hfit hfirst
      obtain ⟨pre, post, s', rfl, hr, hend⟩ := ih hst hrest
      exact ⟨c :: pre, post, s', rfl, run_cons_ok.mpr ⟨t, ht, hr⟩, hend⟩
    · exact ⟨[], c :: calls, s, rfl, rfl, Or.inr hfull⟩

theorem Sending.new {clock : Clock} {testId : Nat} (ht : testId < 2 ^ 64) {p : Parameter}
    {s : Sender} (h : Sender.new clock testId p = .ok s) : Sending p testId (s, []) := by
  obtain ⟨hb, _, _, _, hnext, hcount⟩ := Sender.new_ok ht h
  refine ⟨hb, ?_, by simp [hnext], hcount.trans hnext.symm, by simp [hnext]⟩
  intro m hm
  cases hm

/-- The packet ids that reach the kernel are 0, 1, 2, ... and they are counted,
whichever calls block or are cut short. Nothing ends a run but the last id of
64 bits. -/
theorem sent_ids_consecutive (clock : Clock) (testId : Nat) (ht : testId < 2 ^ 64) (p : Parameter)
    (s₀ : Sender) (hnew : Sender.new clock testId p = .ok s₀) (calls : List SendCall)
    (hc : ∀ c ∈ calls, c.Ordinary p) :
    ∃ pre post s sent, calls = pre ++ post ∧ run SendCall.step (s₀, []) pre = .ok (s, sent) ∧
      (post = [] ∨ 2 ^ 64 ≤ s.nextPacketId + p.packetBufferSize * p.slots) ∧
      sent.flatMap (Msghdr.slotIds p) = List.range s.nextPacketId ∧
      s.statistic.amountDatagrams = s.nextPacketId := by
  obtain ⟨_, hf, hd, _⟩ := Sender.new_ok ht hnew
  obtain ⟨pre, post, s, rfl, hr, hend⟩ := (Sending.new ht hnew).goes_on hf hd hc
  have hs := (Sending.new ht hnew).run hf hd (fun c h => hc c (List.mem_append_left post h)) hr
  exact ⟨pre, post, s.1, s.2, rfl, hr, hend, hs.ids, hs.counted⟩

/-- A call cut short, one that blocks, and a whole one. -/
theorem sent_ids_consecutive_partial :
    let p := { Parameter.twoSlots .sender with packetBufferSize := 2 }
    ∃ pre post s sent, [SendCall.sendmmsg (.ok [48]), .sendmmsg (.error .eagain),
        .sendmmsg (.ok [48, 48])] = pre ++ post ∧
      run SendCall.step ((Sender.new ⟨0, 0⟩ 7 p).toOption.get (by decide), []) pre =
        .ok (s, sent) ∧
      sent.flatMap (Msghdr.slotIds p) = List.range s.nextPacketId := by
  obtain ⟨pre, post, s, sent, hsplit, hrun, _, hids, _⟩ := sent_ids_consecutive ⟨0, 0⟩ 7
    (by decide) { Parameter.twoSlots .sender with packetBufferSize := 2 } _ rfl
    [.sendmmsg (.ok [48]), .sendmmsg (.error .eagain), .sendmmsg (.ok [48, 48])] (by
      simp only [List.forall_mem_cons, List.not_mem_nil, false_implies, implies_true, and_true]
      exact ⟨Or.inr ⟨[48], rfl, by decide, by decide⟩, Or.inl rfl,
        Or.inr ⟨[48, 48], rfl, by decide, by decide⟩⟩)
  exact ⟨pre, post, s, sent, hsplit, hrun, hids⟩

end Nperf
