import Nperf.Ledger.Batch
import Nperf.Proofs.Accounting

namespace Nperf
open Rust Bytes

/-- A message reaches the receiver by a completion of its mode: in the msghdr
of `index`, or in a provided buffer. -/
def Receiver.complete (build : Build) (clock : Clock) (r : Receiver) (statistic : Statistic)
    (index flags : Nat) (d : Delivery) : Except Fault (Except Error Unit × Receiver) :=
  match r.parameter.uringParameter.uringMode with
  | .normal => do
    let h ← r.msghdr index
    let r := { r with packetBuffer := r.packetBuffer.setMsghdr index (h.deliver d) }
    let (result, r, _) ← r.ioUringCompleteNormal build (fun _ => clock)
      [⟨d.payload.length, index, flags, d⟩]
    .ok (result.map (fun _ => ()), r)
  | .providedBuffer => do
    let (result, r, _, _) ← r.ioUringCompleteProvidedBuffers build (fun _ => clock) statistic
      [⟨d.payload.length, 0, flags, d⟩]
    .ok (result.map (fun _ => ()), r)
  | .multishot => do
    let (result, r, _) ← r.ioUringCompleteMultishot build (fun _ => clock)
      [⟨d.payload.length + uringAdditionalBufferLength, 0, flags, d⟩]
    .ok (result.map (fun _ => ()), r)
  | .zerocopy => .ok (.error .invalidReceiverMode, r)

/-- The message without its control data: one packet, whatever its segments. -/
def Message.whole (m : Message) : Message := { m with ids := m.ids.take 1 }

theorem Delivery.read_whole {d : Delivery} {m : Message} (hd : d.read = some m) :
    { d with control := [], controllen := 0 }.read = some m.whole ∧
      (m.ids.length = 1 ↔ d.payload.length ≤ d.segment) := by
  have hids := (read_ok hd).2.2.2.2.2.2.1
  obtain ⟨h24, h32, hseg, _, _, _, _, _⟩ := read_ok hd
  have hcount : m.ids.length = 1 ↔ d.payload.length ≤ d.segment := by
    rw [hids, ids, List.length_map, List.length_range, Nat.div_eq_iff (by omega)]
    omega
  have hone : (d.payload.length + d.payload.length - 1) / d.payload.length = 1 :=
    Nat.div_eq_of_lt_le (by omega) (by omega)
  have hpos : 0 < (d.payload.length + d.segment - 1) / d.segment :=
    Nat.div_pos (by omega) (by omega)
  have hfirst : m.ids.take 1 = [load d.payload 16 8] := by
    obtain ⟨n, hn⟩ := Nat.exists_eq_add_of_lt hpos
    rw [hids, ids, hn, Nat.zero_add, List.range_succ_eq_map, List.map_cons]
    simp
  refine ⟨?_, hcount⟩
  have hsegment : { d with control := [], controllen := 0 }.segment = d.payload.length := rfl
  have hwhole : { d with control := [], controllen := 0 }.ids = [load d.payload 16 8] := by
    simp only [ids, hsegment, hone]
    simp
  unfold read at hd ⊢
  split at hd
  · rw [if_pos ⟨h24, h32, h24, .inl (Nat.mod_self _)⟩]
    split at hd
    · rename_i mtype hmtype
      cases hd
      simp only [hmtype, hwhole, Message.whole, ← hfirst]
    · cases hd
  · cases hd

namespace Books
variable {build : Build} {b b' : Books} {m : Message} {result : Except Error Unit}

theorem receive_refused (ht : maxTestId ≤ m.testId) :
    b.receive build [m] = .ok (.error .testIdTooGreat, b) := by
  simp only [receive, parse]
  rw [if_pos ht]
  rfl

theorem receive_whole_iff (hm : m.mtype = .measurement) (hids : m.ids ≠ [])
    (h : b.receive build [m] = .ok (result, b')) :
    b.receive build [m.whole] = .ok (result, b') ↔ m.ids.length = 1 ∨ maxTestId ≤ m.testId := by
  have hpos := List.length_pos_iff.mpr hids
  constructor
  · intro hwhole
    rcases Nat.lt_or_ge m.testId maxTestId with ht | ht
    · left
      have hall := receive_counted ht h m.testId
      have hone := receive_counted (m := m.whole) ht hwhole m.testId
      simp only [Message.whole, hm, and_self, ↓reduceIte, List.flatMap_cons, List.flatMap_nil,
        List.append_nil, List.length_take] at hall hone
      omega
    · exact .inr ht
  · intro h
    rcases h with hone | ht
    · have hsame : m.whole = m := by
        simp only [Message.whole, List.take_of_length_le (Nat.le_of_eq hone)]
      rw [hsame, h]
    · rw [receive_refused ht] at h
      cases h
      exact receive_refused ht

end Books

theorem parseReceivedBytes_received {amount : Int} (h : 0 ≤ amount) :
    parseReceivedBytes amount = .ok 1 := by
  unfold parseReceivedBytes
  rw [if_neg (by omega), if_neg (by omega), if_neg (by omega), if_neg (by omega)]

namespace Receiver
variable {build : Build} {r : Receiver} {m : Message}

/-- A data message ends in a panic, in the books, or with a test id that is
refused. -/
theorem received_cases {x : Except Fault (Except Error Unit × Receiver)}
    (hm : m.mtype = .measurement) (hx : x.map entered = r.books.receive build [m]) :
    (∃ f, x = .error f) ∨ ∃ s, x = .ok (.ok (), s) ∨ x = .ok (.error .testIdTooGreat, s) := by
  cases x with
  | error f => exact .inl ⟨f, rfl⟩
  | ok v =>
    obtain ⟨result, s⟩ := v
    refine .inr ⟨s, ?_⟩
    replace hx : r.books.receive build [m] = .ok (result, s.books) := hx.symm
    rcases Nat.lt_or_ge m.testId maxTestId with ht | ht
    · left
      rw [Books.receive_signal ht hx, hm]
      rfl
    · right
      rw [Books.receive_refused ht] at hx
      rw [(Prod.mk.inj (Except.ok.inj hx)).1]

theorem complete_provided (hmode : r.parameter.uringParameter.uringMode = .providedBuffer)
    {d : Delivery} (hd : d.read = some m) (hm : m.mtype = .measurement) (clock : Clock)
    (statistic : Statistic) (index flags : Nat) :
    (r.complete build clock statistic index flags d).map entered =
      r.books.receive build [m.whole] := by
  obtain ⟨hwhole, _⟩ := Delivery.read_whole hd
  have hbytes : m.whole.bytes = d.payload.length := (Delivery.read_ok hd).2.2.2.2.2.2.2
  have hbooks := handleRecvmsgReturn_books (r := r) (Feed.provided_holds hwhole) (some _) 0 rfl
    (fun _ => if_neg (by simp [hmode])) build clock
  rw [hbytes] at hbooks
  simp only [complete, hmode, ioUringCompleteProvidedBuffers, Queue.drain, completeProvidedBuffer,
    parseReceivedBytes_received (Int.natCast_nonneg _), Int.toNat_natCast]
  rw [← hbooks]
  rcases received_cases (m := m.whole) hm hbooks with ⟨f, hx⟩ | ⟨s, hx | hx⟩
  all_goals
    simp only [hx]
    rfl

theorem complete_multishot (hmode : r.parameter.uringParameter.uringMode = .multishot)
    {d : Delivery} (hd : d.read = some m) (hm : m.mtype = .measurement) (clock : Clock)
    (statistic : Statistic) (index flags : Nat) :
    (r.complete build clock statistic index flags d).map entered = r.books.receive build [m] := by
  have hbytes : m.bytes = d.payload.length := (Delivery.read_ok hd).2.2.2.2.2.2.2
  have hbooks := handleRecvmsgReturn_books (r := r) (Feed.provided_holds hd) (some _) 0 rfl
    (fun _ => if_neg (by simp [hmode])) build clock
  rw [hbytes] at hbooks
  have hlong : ¬(d.payload.length + uringAdditionalBufferLength : Int) <
      uringAdditionalBufferLength := by
    omega
  have hlength : (d.payload.length + uringAdditionalBufferLength : Int) -
      uringAdditionalBufferLength = d.payload.length := by
    omega
  have hpos : (0 : Int) ≤ d.payload.length + uringAdditionalBufferLength := by
    rw [uringAdditionalBufferLength]
    omega
  simp only [complete, hmode, ioUringCompleteMultishot, Queue.drain, completeMultishot,
    parseReceivedBytes_received hpos, if_neg hlong, hlength, Int.toNat_natCast]
  rw [← hbooks]
  rcases received_cases hm hbooks with ⟨f, hx⟩ | ⟨s, hx | hx⟩ <;> simp only [hx] <;> rfl

theorem complete_normal (hmode : r.parameter.uringParameter.uringMode = .normal)
    (hs : r.packetBuffer.Sound mss n) {index : Nat} (hindex : index < n) {d : Delivery}
    (hd : d.read = some m) (hfit : d.payload.length ≤ mss) (hm : m.mtype = .measurement)
    (clock : Clock) (statistic : Statistic) (flags : Nat) :
    (r.complete build clock statistic index flags d).map entered = r.books.receive build [m] := by
  have hbytes : m.bytes = d.payload.length := (Delivery.read_ok hd).2.2.2.2.2.2.2
  obtain ⟨h, hh, hsound⟩ := hs.msghdr_ok hindex
  have hfetch : (r.packetBuffer.setMsghdr index (h.deliver d)).getMsghdrFromIndex index =
      .ok (h.deliver d) := by
    have hlt : index < r.packetBuffer.mmsghdrVec.length := hs.size ▸ hindex
    simp [PacketBuffer.getMsghdrFromIndex, PacketBuffer.setMsghdr, hlt]
  have hbooks := handleRecvmsgReturn_books
    (r := { r with packetBuffer := r.packetBuffer.setMsghdr index (h.deliver d) })
    (hsound.holds hd hfit).1 none index
    (by simp only [completedMsghdr, msghdr, hfetch])
    (fun ms => by simp only [processedMsghdr, msghdr, hfetch]; split <;> rfl) build clock
  rw [hbytes] at hbooks
  simp only [complete, hmode, msghdr, hh, ok_bind, ioUringCompleteNormal, Queue.drain,
    completeNormal, parseReceivedBytes_received (Int.natCast_nonneg _)]
  apply Eq.trans ?_ hbooks
  rcases received_cases hm hbooks with ⟨f, hx⟩ | ⟨s, hx | hx⟩ <;> simp only [hx] <;> rfl

end Receiver

/-- One message is accounted for as `recvmsg` does it in every mode but one: a
provided buffer comes without its control data, so that coalesced packets count
as a single one. -/
theorem uring_modes_agree_iff (build : Build) (p : Parameter) (r : Receiver)
    (hr : r.Reachable build p) (hmode : r.parameter.uringParameter.uringMode ≠ .zerocopy)
    (clock clock' : Clock) (d : Delivery) (m : Message) (hd : d.read = some m)
    (hm : m.mtype = .measurement) (hfit : d.payload.length ≤ p.mss) (result : Except Error Unit)
    (r' : Receiver) (hrecv : r.recvmsg build clock (.ok d) = .ok (result, r'))
    (statistic : Statistic) (index flags : Nat) (hindex : index < p.packetBufferSize) :
    (∃ s, r.complete build clock' statistic index flags d = .ok (result, s) ∧
        s.books = r'.books) ↔
      (r.parameter.uringParameter.uringMode = .providedBuffer → d.payload.length ≤ d.segment ∨
        maxTestId ≤ m.testId) := by
  obtain ⟨hs, hn⟩ := hr.sound
  have hbooks := Receiver.recvmsg_books hs hn hd hfit build clock
  rw [hrecv, map_ok, entered] at hbooks
  have hsame : (∃ s, r.complete build clock' statistic index flags d = .ok (result, s) ∧
      s.books = r'.books) ↔ (r.complete build clock' statistic index flags d).map entered =
        .ok (result, r'.books) := by
    constructor
    · rintro ⟨s, hs, hsbooks⟩
      rw [hs, map_ok, entered, hsbooks]
    · exact entered_ok
  rw [hsame]
  cases hcase : r.parameter.uringParameter.uringMode with
  | zerocopy => exact absurd hcase hmode
  | normal => simp [Receiver.complete_normal hcase hs hindex hd hfit hm, ← hbooks]
  | multishot => simp [Receiver.complete_multishot hcase hd hm, ← hbooks]
  | providedBuffer =>
    obtain ⟨_, hcount⟩ := Delivery.read_whole hd
    rw [Receiver.complete_provided hcase hd hm, ← hcount,
      Books.receive_whole_iff hm (Delivery.read_ids_ne_nil hd) hbooks.symm]
    simp

/-- A ring receiver under GRO, with room for two header-sized packets. -/
def Parameter.coalescing (mode : UringMode) : Parameter :=
  { Parameter.oneEntry mode with
    mss := 48
    socketOptions := { Parameter.headersOnly.socketOptions with gro := true } }

example : ∀ mode ∈ [UringMode.normal, .providedBuffer, .multishot],
    { NPerf.oneEntry mode with withGsro := true, withGsoBuffer := 48 }.parseParameter .debug 8 =
      .ok (some (Parameter.coalescing mode)) := by
  decide +kernel

/-- Two packets of test 0 in one message, as the kernel coalesces them. -/
def Delivery.coalesced (packetId : Nat) : Delivery :=
  { payload := (MessageHeader.mk .measurement 0 packetId).serialize ++
      (MessageHeader.mk .measurement 0 (packetId + 1)).serialize
    control := [⟨solUdp, udpGro, 24⟩]
    controllen := 24
    flags := 0 }

theorem uring_modes_agree_coalesced :
    let r := (Receiver.new ⟨0, 0⟩ (.coalescing .multishot)).toOption.get (by decide)
    ∃ s, r.complete .debug ⟨2, 2⟩ (Statistic.new ⟨0, 0⟩ (.coalescing .multishot)) 0 2
        (.coalesced 0) = .ok (.ok (), s) ∧
      s.books = ⟨2, [⟨true, false, ⟨2, 48, 0, 0, 0⟩⟩]⟩ := by
  intro r
  obtain ⟨⟨result, r'⟩, hrecv, hresult, hbooks⟩ := checked
    (x := r.recvmsg .debug ⟨1, 1⟩ (.ok (.coalesced 0)))
    (p := fun v => v.1 = .ok () ∧ v.2.books = ⟨2, [⟨true, false, ⟨2, 48, 0, 0, 0⟩⟩]⟩)
    (by decide +kernel)
  simp only at hresult
  subst hresult
  obtain ⟨s, hs, hsame⟩ := (uring_modes_agree_iff .debug (.coalescing .multishot) r
    (.new (rfl : Receiver.new ⟨0, 0⟩ (.coalescing .multishot) = .ok _)) (by decide) ⟨1, 1⟩ ⟨2, 2⟩
    (.coalesced 0) ⟨.measurement, 0, [0, 1], 48⟩ (by decide +kernel) rfl (by decide) (.ok ()) r'
    hrecv (Statistic.new ⟨0, 0⟩ (.coalescing .multishot)) 0 2 (by decide)).mpr (by decide)
  exact ⟨s, hs, hsame.trans hbooks⟩

/-- The same message on a ring with provided buffers. -/
theorem uring_modes_disagree :
    let r := (Receiver.new ⟨0, 0⟩ (.coalescing .providedBuffer)).toOption.get (by decide)
    (r.recvmsg .debug ⟨1, 1⟩ (.ok (.coalesced 0))).map entered =
        .ok (.ok (), ⟨2, [⟨true, false, ⟨2, 48, 0, 0, 0⟩⟩]⟩) ∧
      (r.complete .debug ⟨1, 1⟩ (Statistic.new ⟨0, 0⟩ (.coalescing .providedBuffer)) 0 0
        (.coalesced 0)).map entered = .ok (.ok (), ⟨1, [⟨true, false, ⟨1, 48, 0, 0, 0⟩⟩]⟩) := by
  decide +kernel

end Nperf
