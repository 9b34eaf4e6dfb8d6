import Nperf.Model.SenderRun
import Nperf.Proofs.Agreement
import Nperf.Proofs.Bounds

namespace Nperf
open Rust Bytes Runs Segments

namespace Sender

/-- One turn of the socket loop. -/
def turn (s : Sender) : Clock × Socket → Except Fault Sender
  | (clock, socket) => do
    let (_, s) ← (s.closeInterval clock).sendMessages socket
    .ok s

/-- What `send` or `sendmsg` lets the kernel read. A datagram that is longer
than its buffer goes on in the memory behind it. -/
def handed (behind : Memory) (s : Sender) : Memory :=
  match s.packetBuffer.mmsghdrVec[0]? with
  | none => []
  | some m =>
    if s.exchangeFunction = .normal then
      (m.msgHdr.iovBase ++ behind).take s.packetBuffer.datagramSize
    else m.msgHdr.payload

/-- The packets counted are the datagrams that the kernel has been handed, and
they carry the next ids. -/
structure Hands (p : Parameter) (behind : Memory) (s s' : Sender) : Prop where
  counted : s'.statistic.amountDatagrams =
    s.statistic.amountDatagrams + (cut p.datagramSize (s'.handed behind)).length
  next : s'.nextPacketId = s.nextPacketId + (cut p.datagramSize (s'.handed behind)).length
  ids : (cut p.datagramSize (s'.handed behind)).map packetId =
    List.range' s.nextPacketId (cut p.datagramSize (s'.handed behind)).length

/-- The buffers between two turns, and the function that is called. -/
structure Offers (p : Parameter) (testId : Nat) (s : Sender) : Prop where
  ready : s.Ready p testId
  exchangeFunction : s.exchangeFunction = p.exchangeFunction

variable {p : Parameter} {testId : Nat} {s s' : Sender}

theorem Offers.closeInterval (hs : s.Offers p testId) (clock : Clock) :
    (s.closeInterval clock).Offers p testId := by
  unfold Sender.closeInterval
  split
  · exact ⟨⟨hs.ready.slotted, hs.ready.nextPacketId⟩, hs.exchangeFunction⟩
  · exact hs

theorem stamp_exchangeFunction {amount : Nat} (h : s.stamp = .ok (amount, s')) :
    s'.exchangeFunction = s.exchangeFunction := by
  simp only [stamp, bind_ok] at h
  obtain ⟨_, _, _, _, h⟩ := h
  cases h
  rfl

/-- An error arm never ends in success, and leaves the function alone. -/
theorem failed_ok {amount : Nat} {e : Error} {result : Except Error Unit}
    (h : s.failed amount e = .ok (result, s')) :
    s'.exchangeFunction = s.exchangeFunction ∧ result ≠ .ok () := by
  cases e with
  | eagain =>
    obtain ⟨_, _, h⟩ := bind_ok.mp h
    cases h
    exact ⟨rfl, by simp⟩
  | _ =>
    cases h
    exact ⟨rfl, by simp⟩

theorem send_cases {kernel : Except Error Nat} {result : Except Error Unit}
    (h : s.send kernel = .ok (result, s')) :
    ∃ amount t, s.stamp = .ok (amount, t) ∧
      ((∃ m bytes, t.packetBuffer.mmsghdrVec[0]? = some m ∧ result = .ok () ∧
          s' = t.count amount bytes) ∨
        ∃ e, t.failed amount e = .ok (result, s')) := by
  obtain ⟨⟨amount, t⟩, hstamp, h⟩ := bind_ok.mp h
  refine ⟨amount, t, hstamp, ?_⟩
  simp only at h
  split at h
  · cases h
  · rename_i m hm
    obtain ⟨_, _, h⟩ := bind_ok.mp h
    cases hanswer : socketSend t.packetBuffer.datagramSize kernel with
    | error e =>
      rw [hanswer] at h
      exact .inr ⟨e, h⟩
    | ok bytes =>
      rw [hanswer] at h
      cases h
      exact .inl ⟨m, bytes, hm, rfl, rfl⟩

theorem sendmsg_cases {kernel : Except Error Nat} {result : Except Error Unit}
    (h : s.sendmsg kernel = .ok (result, s')) :
    ∃ amount t, s.stamp = .ok (amount, t) ∧
      ((∃ m bytes, t.packetBuffer.mmsghdrVec[0]? = some m ∧ result = .ok () ∧
          s' = t.count amount bytes) ∨
        ∃ e, t.failed amount e = .ok (result, s')) := by
  obtain ⟨⟨amount, t⟩, hstamp, h⟩ := bind_ok.mp h
  refine ⟨amount, t, hstamp, ?_⟩
  simp only [PacketBuffer.getMsghdrFromIndex] at h
  cases hm : t.packetBuffer.mmsghdrVec[0]? with
  | none =>
    rw [hm] at h
    cases h
  | some m =>
    rw [hm] at h
    cases kernel with
    | error e => exact .inr ⟨e, h⟩
    | ok bytes =>
      cases h
      exact .inl ⟨m, bytes, rfl, rfl, rfl⟩

/-- A call stamps the buffers. Then it counts what the kernel has been handed,
or it fails. -/
theorem sendMessages_cases {socket : Socket} {result : Except Error Unit}
    (hone : s.exchangeFunction ≠ .mmsg) (h : s.sendMessages socket = .ok (result, s')) :
    ∃ amount t, s.stamp = .ok (amount, t) ∧
      ((∃ m bytes, t.packetBuffer.mmsghdrVec[0]? = some m ∧ result = .ok () ∧
          s' = t.count amount bytes) ∨
        ∃ e, t.failed amount e = .ok (result, s')) := by
  unfold sendMessages at h
  cases hfunction : s.exchangeFunction with
  | normal =>
    rw [hfunction] at h
    exact send_cases h
  | msg =>
    rw [hfunction] at h
    exact sendmsg_cases h
  | mmsg => exact absurd hfunction hone

theorem Offers.sendMessages (hf : p.HeadersFit) (hd : 0 < p.datagramSize)
    (hone : p.exchangeFunction ≠ .mmsg) {socket : Socket} {result : Except Error Unit}
    (hs : s.Offers p testId) (h : s.sendMessages socket = .ok (result, s')) :
    s'.Offers p testId := by
  obtain ⟨amount, t, hstamp, hcases⟩ := sendMessages_cases (hs.exchangeFunction ▸ hone) h
  obtain ⟨hready, _⟩ := stamp_ready hf hd hs.ready hstamp
  have hfunction := (stamp_exchangeFunction hstamp).trans hs.exchangeFunction
  rcases hcases with ⟨_, _, _, _, rfl⟩ | ⟨e, hfailed⟩
  · exact ⟨⟨hready.slotted, hready.nextPacketId⟩, hfunction⟩
  · exact ⟨failed_ready hready hfailed, (failed_ok hfailed).1.trans hfunction⟩

theorem Offers.run (hf : p.HeadersFit) (hd : 0 < p.datagramSize)
    (hone : p.exchangeFunction ≠ .mmsg) {turns : List (Clock × Socket)} (hs : s.Offers p testId)
    (h : Runs.run turn s turns = .ok s') : s'.Offers p testId := by
  refine run_invariant (I := Offers p testId) ?_ hs h
  rintro s ⟨clock, socket⟩ s' hs h
  obtain ⟨_, hsend, h⟩ := bind_ok.mp h
  cases h
  exact (hs.closeInterval clock).sendMessages hf hd hone hsend

theorem Offers.new {clock : Clock} (ht : testId < 2 ^ 64) (h : Sender.new clock testId p = .ok s) :
    s.Offers p testId := by
  obtain ⟨hslotted, _, _, _, hnext, _⟩ := new_ok ht h
  refine ⟨⟨hslotted, by omega⟩, ?_⟩
  obtain ⟨_, _, h⟩ := bind_ok.mp h
  cases h
  rfl

/-- What a successful call has counted, and the message it has sent. -/
theorem Offers.sent (hf : p.HeadersFit) (hd : 0 < p.datagramSize)
    (hone : p.exchangeFunction ≠ .mmsg) {socket : Socket} (hs : s.Offers p testId)
    (h : s.sendMessages socket = .ok (.ok (), s')) (behind : Memory) :
    s'.statistic.amountDatagrams =
        s.statistic.amountDatagrams + p.packetBufferSize * p.slots ∧
      s'.nextPacketId = s.nextPacketId + p.packetBufferSize * p.slots ∧
      ∃ hdr : Msghdr, hdr.Slotted p testId ∧
        hdr.slotIds p = List.range' s.nextPacketId p.slots ∧
        s'.handed behind = if p.exchangeFunction = .normal then
          (hdr.iovBase ++ behind).take p.datagramSize else hdr.payload := by
  obtain ⟨amount, t, hstamp, hcases⟩ := sendMessages_cases (hs.exchangeFunction ▸ hone) h
  obtain ⟨b, hok, hslotted, htake⟩ := stamp_ok hf hd hs.ready.slotted
    (stamp_fits hs.ready.slotted hstamp)
  cases hstamp.symm.trans hok
  rcases hcases with ⟨m, bytes, hm, _, rfl⟩ | ⟨e, hfailed⟩
  · have hmem := hslotted.msghdrs m (List.mem_of_getElem? hm)
    have hsize := (List.getElem?_eq_some_iff.mp hm).1
    have hfirst := htake 1 (by rw [hslotted.size] at hsize; exact hsize)
    have hfront : b.mmsghdrVec.take 1 = [m] := by
      rw [List.take_one, List.head?_eq_getElem?, hm]
      rfl
    refine ⟨rfl, rfl, m.msgHdr, hmem, ?_, ?_⟩
    · simpa [hfront] using hfirst
    · simp only [handed, count, hm, hs.exchangeFunction, hslotted.datagramSize]
  · exact absurd rfl (failed_ok hfailed).2

end Sender

/-- A datagram whose front is in the buffer has the id that was stamped there. -/
theorem Msghdr.Slotted.reads {p : Parameter} {testId : Nat} {h : Msghdr} (hs : h.Slotted p testId)
    (hf : p.HeadersFit) (hd : 0 < p.datagramSize) (hslots : 0 < p.slots) {next : Nat}
    (hids : h.slotIds p = List.range' next p.slots) (behind : Memory) :
    packetId ((h.iovBase ++ behind).take p.datagramSize) = next := by
  have h24 := hf.datagramSize hd hslots
  have hmss := hf 0 hslots
  have hmem := hs.sound.memory
  have hhead := congrArg List.head? hids
  have hfirst : load h.iovBase 16 8 = next := by
    simpa [Msghdr.slotIds, List.head?_range, List.head?_range', Nat.ne_of_gt hslots] using hhead
  rw [packetId, load_take _ (by omega), load_append_left _ _ (by omega), hfirst]

/-- The packets of one call: `send` passes on one datagram, `sendmsg` a whole
message. -/
def Parameter.slotsHanded (p : Parameter) : Nat :=
  if p.exchangeFunction = .normal then 1 else p.slots

namespace Sender
variable {p : Parameter} {testId : Nat} {s s' : Sender}

/-- The ids that are sent are always the next ones; it is the number of packets
that may not be right. -/
theorem Offers.hands_iff (hf : p.HeadersFit) (hd : 0 < p.datagramSize)
    (hone : p.exchangeFunction ≠ .mmsg) {socket : Socket} (hs : s.Offers p testId)
    (h : s.sendMessages socket = .ok (.ok (), s')) {behind : Memory}
    (hbehind : p.datagramSize ≤ p.mss + behind.length) :
    s.Hands p behind s' ↔ p.packetBufferSize * p.slots = p.slotsHanded := by
  obtain ⟨hcounted, hnext, hdr, hhdr, hids, hhanded⟩ := hs.sent hf hd hone h behind
  have hpackets : (cut p.datagramSize (s'.handed behind)).length = p.slotsHanded ∧
      (0 < p.slots → (cut p.datagramSize (s'.handed behind)).map packetId =
        List.range' s.nextPacketId p.slotsHanded) := by
    rw [hhanded, Parameter.slotsHanded]
    by_cases hnormal : p.exchangeFunction = .normal
    · have hmem := hhdr.sound.memory
      have hlength : ((hdr.iovBase ++ behind).take p.datagramSize).length = p.datagramSize := by
        rw [List.length_take, List.length_append, hmem, Nat.min_eq_left hbehind]
      rw [if_pos hnormal, if_pos hnormal, cut_short (by omega) (by omega)]
      refine ⟨rfl, fun hslots => ?_⟩
      rw [List.map_singleton, hhdr.reads hf hd hslots hids]
      rfl
    · have hdatagrams := (hhdr.datagrams hf hd).2.trans hids
      rw [if_neg hnormal, if_neg hnormal]
      exact ⟨by simpa using congrArg List.length hdatagrams, fun _ => hdatagrams⟩
  obtain ⟨hlength, hcarried⟩ := hpackets
  constructor
  · intro hhands
    have := hhands.counted
    omega
  · intro heq
    refine ⟨by omega, by omega, ?_⟩
    rw [hlength]
    by_cases hslots : 0 < p.slots
    · exact hcarried hslots
    · have hnone : p.slotsHanded = 0 := by
        rw [← heq, Nat.eq_zero_of_not_pos hslots, Nat.mul_zero]
      rw [hnone] at hlength ⊢
      rw [List.eq_nil_of_length_eq_zero hlength]
      rfl

/-- A call succeeds if the ids last and the kernel takes the message. -/
theorem Offers.succeeds (hf : p.HeadersFit) (hd : 0 < p.datagramSize)
    (hsize : 0 < p.packetBufferSize) (hone : p.exchangeFunction ≠ .mmsg)
    (hs : s.Offers p testId) (hfit : s.nextPacketId + p.packetBufferSize * p.slots < 2 ^ 64)
    (bytes : Nat) :
    ∃ s', s.sendMessages ⟨.ok bytes, .ok []⟩ = .ok (.ok (), s') := by
  obtain ⟨b, hstamp, hslotted, _⟩ := stamp_ok hf hd hs.ready.slotted hfit
  simp only [Sender.sendMessages, hs.exchangeFunction]
  cases hfunction : p.exchangeFunction with
  | normal =>
    simp only
    rw [send_split hsize hd hf hs.ready, hstamp]
    exact ⟨_, rfl⟩
  | msg =>
    have hlt : 0 < b.mmsghdrVec.length := hslotted.size ▸ hsize
    simp only [sendmsg, hstamp, ok_bind, PacketBuffer.getMsghdrFromIndex,
      List.getElem?_eq_getElem hlt]
    exact ⟨_, rfl⟩
  | mmsg => exact absurd hfunction hone

end Sender

/-- One message for each call, and for `send` one packet in the message. Without
packets `sendmsg` does no harm. -/
def Parameter.CountsHanded (p : Parameter) : Prop :=
  (p.exchangeFunction = .normal → 0 < p.mss ∧ p.mss ≤ p.datagramSize ∧
    p.uringParameter.uringMode ≠ .zerocopy) ∧
  (p.exchangeFunction = .msg → p.mss = 0 ∨ p.uringParameter.uringMode ≠ .zerocopy)

theorem NPerf.packetBufferSize_eq_one_iff {args : NPerf} {build : Build} {cores : Nat}
    {p : Parameter} (hparse : args.parseParameter build cores = .ok (some p))
    (hio : p.ioModel ≠ .ioUring) (hone : p.exchangeFunction ≠ .mmsg) :
    p.packetBufferSize = 1 ↔ p.uringParameter.uringMode ≠ .zerocopy := by
  obtain ⟨hu, _⟩ := parseParameter_uring hparse
  have hring := hu.ring
  have hbuffer := hu.buffer
  rw [uringBufferSizeMultiplicator] at hbuffer
  rw [parseParameter_single hparse hio hone]
  split
  · rename_i hzerocopy
    simp only [hzerocopy, ne_eq, not_true, iff_false]
    omega
  · rename_i hmode
    simp only [hmode, ne_eq, not_false_iff]

/-- One call never uses up the packet ids. -/
theorem NPerf.parseParameter_ids {args : NPerf} {build : Build} {cores : Nat} {p : Parameter}
    (hparse : args.parseParameter build cores = .ok (some p)) (hio : p.ioModel ≠ .ioUring)
    (hone : p.exchangeFunction ≠ .mmsg) (hd : 0 < p.datagramSize) :
    p.packetBufferSize * p.slots < 2 ^ 64 := by
  obtain ⟨hu, _⟩ := parseParameter_uring hparse
  have hmax := hu.ringMax
  have hbuffer := hu.buffer
  rw [uringMaxRingSize] at hmax
  rw [uringBufferSizeMultiplicator] at hbuffer
  have hsize : p.packetBufferSize ≤ 8192 := by
    rw [parseParameter_single hparse hio hone]
    split <;> omega
  have hmss := parseParameter_mss hparse
  have := Nat.mul_le_mul hsize (Parameter.slots_le hd)
  omega

/-- In these cases as many packets are stamped as are sent. -/
theorem NPerf.countsHanded_iff {args : NPerf} {build : Build} {cores : Nat} {p : Parameter}
    (hparse : args.parseParameter build cores = .ok (some p)) (hio : p.ioModel ≠ .ioUring)
    (hone : p.exchangeFunction ≠ .mmsg) (hd : 0 < p.datagramSize) :
    p.CountsHanded ↔ p.packetBufferSize * p.slots = p.slotsHanded := by
  have hsize := packetBufferSize_eq_one_iff hparse hio hone
  have hempty := Parameter.slots_eq_zero_iff hd
  simp only [Parameter.CountsHanded, Parameter.slotsHanded, ← hsize, ← hempty]
  cases hfunction : p.exchangeFunction with
  | normal =>
    simp only [true_implies, reduceCtorEq, false_implies, and_true, if_true]
    constructor
    · rintro ⟨hfilled, hshort, hmsg⟩
      have hslots : 0 < p.slots := Nat.pos_of_ne_zero fun h => Nat.ne_of_gt hfilled (hempty.mp h)
      rw [hmsg, (Parameter.slots_eq_one_iff hd hslots).mpr hshort]
    · intro h
      have hmsg := Nat.eq_one_of_mul_eq_one_right h
      have hslots := Nat.eq_one_of_mul_eq_one_left h
      have hfilled : 0 < p.mss := by
        apply Nat.pos_of_ne_zero
        intro hnone
        have := hempty.mpr hnone
        omega
      have hshort := (Parameter.slots_eq_one_iff hd (by omega)).mp hslots
      exact ⟨hfilled, hshort, hmsg⟩
  | msg =>
    simp only [reduceCtorEq, false_implies, true_implies, true_and, if_false]
    constructor
    · rintro (hnone | hmsg)
      · rw [hnone, Nat.mul_zero]
      · rw [hmsg, Nat.one_mul]
    · intro h
      by_cases hnone : p.slots = 0
      · exact .inl hnone
      · exact .inr ((Nat.mul_eq_right hnone).mp h)
  | mmsg => exact absurd hfunction hone

/-- Every successful call of `send` or `sendmsg` counts the packets it hands to
the kernel exactly if it sends all that it stamps. -/
theorem handed_counted_iff (args : NPerf) (build : Build) (cores : Nat) (p : Parameter)
    (hparse : args.parseParameter build cores = .ok (some p)) (hio : p.ioModel ≠ .ioUring)
    (hone : p.exchangeFunction ≠ .mmsg) (clock : Clock) (testId : Nat) (ht : testId < 2 ^ 64)
    (s₀ : Sender) (hnew : Sender.new clock testId p = .ok s₀) (behind : Memory)
    (hbehind : p.datagramSize ≤ p.mss + behind.length) :
    (∀ turns s, run Sender.turn s₀ turns = .ok s → ∀ clock socket s',
        (s.closeInterval clock).sendMessages socket = .ok (.ok (), s') →
        (s.closeInterval clock).Hands p behind s') ↔
      p.CountsHanded := by
  obtain ⟨_, hf, hd, hsize, hzero, _⟩ := Sender.new_ok ht hnew
  have hs₀ := Sender.Offers.new ht hnew
  rw [NPerf.countsHanded_iff hparse hio hone hd]
  constructor
  · intro h
    have hs := hs₀.closeInterval clock
    have hnext : (s₀.closeInterval clock).nextPacketId = 0 := by
      unfold Sender.closeInterval
      split <;> exact hzero
    have hfit := NPerf.parseParameter_ids hparse hio hone hd
    obtain ⟨s', hsend⟩ := hs.succeeds hf hd hsize hone (by omega) 0
    exact (hs.hands_iff hf hd hone hsend hbehind).mp (h [] s₀ rfl clock _ s' hsend)
  · intro h turns s hrun clock socket s' hsend
    have hs := (hs₀.run hf hd hone hrun).closeInterval clock
    exact (hs.hands_iff hf hd hone hsend hbehind).mpr h

/-- Packets that are nothing but a header, one in each message. -/
theorem handed_counted_headers :
    let p := { Parameter.headersOnly with mode := .sender }
    let s₀ := (Sender.new ⟨0, 0⟩ 7 p).toOption.get (by decide)
    ∀ turns s, run Sender.turn s₀ turns = .ok s → ∀ clock socket s',
      (s.closeInterval clock).sendMessages socket = .ok (.ok (), s') →
      (s.closeInterval clock).Hands p [] s' :=
  (handed_counted_iff { NPerf.headersOnly with mode := .sender } .debug 8
    { Parameter.headersOnly with mode := .sender } (by decide +kernel) (by decide)
    (by decide) ⟨0, 0⟩ 7 (by decide) _ rfl [] (by decide)).mpr
    ⟨by decide, fun _ => .inr (by decide)⟩

/-- `send` with two packets in the buffer sends one of them, and the buffers of
a ring are stamped where there is none. -/
theorem handed_miscounted :
    let send := { NPerf.twoSlots .sender with exchangeFunction := .normal }
    let p := { Parameter.twoSlots .sender with exchangeFunction := .normal }
    let zerocopy := { NPerf.headersOnly with
      mode := .sender, uringMode := .zerocopy, uringRingSize := 1 }
    let p' := { Parameter.oneEntry .zerocopy with
      mode := .sender, ioModel := .select, packetBufferSize := 4 }
    let long (n : Nat) := { p' with exchangeFunction := .normal, datagramSize := n }
    let outcome (p : Parameter) : Except Fault (Nat × Nat × Nat) := do
      let s ← Sender.new ⟨0, 0⟩ 7 p
      let (_, s) ← s.sendMessages ⟨.ok 24, .ok []⟩
      .ok (s.statistic.amountDatagrams, s.nextPacketId,
        (cut p.datagramSize (s.handed (List.replicate 24 0))).length)
    send.parseParameter .debug 8 = .ok (some p) ∧ outcome p = .ok (2, 2, 1) ∧
      zerocopy.parseParameter .debug 8 = .ok (some p') ∧ outcome p' = .ok (4, 4, 1) ∧
      { zerocopy with exchangeFunction := .normal, datagramSize := 48 }.parseParameter .debug 8 =
        .ok (some (long 48)) ∧ outcome (long 48) = .ok (4, 4, 1) := by
  decide +kernel

end Nperf
