import Nperf.Lib.Gains
import Nperf.Model.Session
import Nperf.Proofs.Handed

namespace Nperf
open Rust Bytes Runs Segments

/-- A sender that can send at all: what `Sender::new` has checked, and the
segment size that `parse_parameter` sets. `send` reads no further than its
buffer. -/
structure Parameter.Sends (p : Parameter) : Prop where
  headers : p.HeadersFit
  datagramSize : 0 < p.datagramSize
  mss : 0 < p.mss
  inside : p.exchangeFunction = .normal → p.datagramSize ≤ p.mss
  gso : ∀ size ∈ p.socketOptions.gso, size = p.datagramSize

/-- Every slot that a call stamps leaves as a datagram of its own. -/
def Parameter.Whole (p : Parameter) : Prop :=
  (p.socketOptions.gso ≠ none ∨ p.slots = 1) ∧
    (p.exchangeFunction = .mmsg ∨ p.packetBufferSize = 1) ∧
    (p.exchangeFunction = .normal → p.slots = 1)

instance (p : Parameter) : Decidable p.Whole := inferInstanceAs (Decidable (_ ∧ _ ∧ _))

/-- Datagrams of one test that were stamped with ids from `first` up to `next`:
some of these ids in order, or all of them. -/
structure Parameter.Stream (p : Parameter) (testId first next : Nat) (data : List Memory) :
    Prop where
  le : first ≤ next
  range : next < 2 ^ 64
  datagrams : ∀ x ∈ data, Datagram testId x
  ids : (data.map packetId).Sublist (List.range' first (next - first))
  whole : p.Whole → data.map packetId = List.range' first (next - first)

namespace Parameter.Stream
variable {p : Parameter} {testId first next last : Nat} {data rest : List Memory}

theorem nil (p : Parameter) (testId : Nat) (hrange : first < 2 ^ 64) :
    p.Stream testId first first [] :=
  ⟨Nat.le_refl _, hrange, fun x hx => absurd hx List.not_mem_nil, by simp, fun _ => by simp⟩

theorem append (h : p.Stream testId first next data) (h' : p.Stream testId next last rest) :
    p.Stream testId first last (data ++ rest) := by
  have hle := h.le
  have hle' := h'.le
  have hrange : List.range' first (last - first) =
      List.range' first (next - first) ++ List.range' next (last - next) := by
    have happend := List.range'_append_1 (s := first) (m := next - first) (n := last - next)
    rw [show first + (next - first) = next by omega,
      show next - first + (last - next) = last - first by omega] at happend
    exact happend.symm
  refine ⟨Nat.le_trans hle hle', h'.range,
    List.forall_mem_append.mpr ⟨h.datagrams, h'.datagrams⟩, ?_, ?_⟩
  · rw [List.map_append, hrange]
    exact h.ids.append h'.ids
  · intro hwhole
    rw [List.map_append, hrange, h.whole hwhole, h'.whole hwhole]

/-- An id on the wire has been stamped. -/
theorem mem (h : p.Stream testId first next data) {x : Memory} (hx : x ∈ data) :
    Datagram testId x ∧ first ≤ packetId x ∧ packetId x < next := by
  refine ⟨h.datagrams x hx, ?_⟩
  have hid := h.ids.subset (List.mem_map_of_mem (f := packetId) hx)
  have hle := h.le
  obtain ⟨hfirst, hnext⟩ := List.mem_range'_1.mp hid
  omega

theorem nodup (h : p.Stream testId first next data) : (data.map packetId).Nodup :=
  h.ids.nodup List.nodup_range'

end Parameter.Stream

/-- What the kernel makes of a message: its first packet, or all of them. -/
def Parameter.segmented (p : Parameter) : Nat :=
  if p.socketOptions.gso = none then 1 else p.slots

theorem Parameter.segmented_whole {p : Parameter} (h : p.socketOptions.gso ≠ none ∨ p.slots = 1) :
    p.segmented = p.slots := by
  unfold segmented
  split
  · rename_i hnone
    exact (h.resolve_left (fun h => h hnone)).symm
  · rfl

theorem Parameter.Sends.slots {p : Parameter} (hp : p.Sends) : 0 < p.slots ∧ 24 ≤ p.mss :=
  hp.headers.header hp.mss hp.datagramSize

section
variable {p : Parameter} {testId : Nat}

/-- The first packet of a message, as long as it is not cut below its header. -/
theorem Msghdr.Slotted.first {h : Msghdr} (hs : h.Slotted p testId) (hp : p.Sends) {n : Nat}
    (hn : 24 ≤ n) :
    Datagram testId (h.payload.take n) ∧ [packetId (h.payload.take n)] = (h.slotIds p).take 1 := by
  obtain ⟨hslots, h24⟩ := hp.slots
  obtain ⟨hmtype, htest⟩ := hs.headers 0 hslots
  have hlen : h.iovBase.length = p.mss := hs.sound.memory
  have hload : ∀ off, off + 8 ≤ 24 → load (h.payload.take n) off 8 = load h.iovBase off 8 := by
    intro off hoff
    rw [hs.sound.payload_eq, load_take _ (by omega)]
  refine ⟨⟨?_, ?_, ?_⟩, ?_⟩
  · rw [hs.sound.payload_eq, List.length_take, hlen]
    omega
  · rw [hload 0 (by omega), ← hmtype, Nat.zero_mul]
  · rw [hload 8 (by omega), ← htest, Nat.zero_mul]
  · obtain ⟨k, hk⟩ := Nat.exists_eq_succ_of_ne_zero (Nat.ne_of_gt hslots)
    simp only [packetId, hload 16 (by omega), slotIds, hk, List.range_succ_eq_map, List.map_cons,
      List.take_succ_cons, List.take_zero, Nat.zero_mul, Nat.zero_add]

/-- A message on the wire. -/
theorem Msghdr.Slotted.segments {h : Msghdr} (hs : h.Slotted p testId) (hp : p.Sends) :
    (∀ x ∈ p.socketOptions.segments h.payload, Datagram testId x) ∧
      (p.socketOptions.segments h.payload).map packetId = (h.slotIds p).take p.segmented := by
  obtain ⟨hslots, h24⟩ := hp.slots
  have hlen : h.payload.length = p.mss := hs.sound.payload_eq ▸ hs.sound.memory
  obtain ⟨hdatagram, hfirst⟩ := hs.first hp h24
  rw [← hlen, List.take_length] at hdatagram hfirst
  unfold SocketOptions.segments Parameter.segmented
  cases hgso : p.socketOptions.gso with
  | none =>
    simp only [List.mem_singleton, forall_eq, ↓reduceIte, List.map_cons, List.map_nil]
    exact ⟨hdatagram, hfirst⟩
  | some size =>
    have hsize : size = p.datagramSize := hp.gso size hgso
    obtain ⟨hall, hids⟩ := hs.datagrams hp.headers hp.datagramSize
    have htake : (h.slotIds p).take p.slots = h.slotIds p :=
      List.take_of_length_le (Nat.le_of_eq (h.length_slotIds p))
    simp only [reduceCtorEq, ↓reduceIte, htake, hsize]
    split
    · rename_i hshort
      rw [cut_short (by omega) hshort] at hall hids
      exact ⟨hall, hids⟩
    · exact ⟨hall, hids⟩

/-- Messages with consecutive ids on the wire. -/
theorem stream_segments (hp : p.Sends) {hs : List Msghdr} (hslotted : ∀ h ∈ hs, h.Slotted p testId)
    {first : Nat} (hids : hs.flatMap (Msghdr.slotIds p) =
      List.range' first (hs.length * p.slots)) :
    (∀ x ∈ (hs.map Msghdr.payload).flatMap p.socketOptions.segments, Datagram testId x) ∧
      (((hs.map Msghdr.payload).flatMap p.socketOptions.segments).map packetId).Sublist
        (List.range' first (hs.length * p.slots)) ∧
      (p.segmented = p.slots →
        ((hs.map Msghdr.payload).flatMap p.socketOptions.segments).map packetId =
          List.range' first (hs.length * p.slots)) := by
  rw [← hids]
  clear hids
  induction hs with
  | nil => simp
  | cons h hs ih =>
    obtain ⟨hfirst, hrest⟩ := List.forall_mem_cons.mp hslotted
    obtain ⟨hall, hsub, hwhole⟩ := ih hrest
    obtain ⟨hdatagrams, hids⟩ := hfirst.segments hp
    simp only [List.map_cons, List.flatMap_cons, List.map_append, hids]
    refine ⟨List.forall_mem_append.mpr ⟨hdatagrams, hall⟩, (List.take_sublist _ _).append hsub, ?_⟩
    intro hsegmented
    rw [hwhole hsegmented, hsegmented,
      List.take_of_length_le (Nat.le_of_eq (h.length_slotIds p))]

/-- Messages that took their ids from a larger range. -/
theorem Parameter.Stream.of_messages (hp : p.Sends) {hs : List Msghdr} {n : Nat}
    (hslotted : ∀ h ∈ hs, h.Slotted p testId) {first : Nat}
    (hids : hs.flatMap (Msghdr.slotIds p) = List.range' first (hs.length * p.slots))
    (hrange : first + n * p.slots < 2 ^ 64) (hn : hs.length ≤ n)
    (hwhole : p.Whole → hs.length = n) : p.Stream testId first (first + n * p.slots)
      ((hs.map Msghdr.payload).flatMap p.socketOptions.segments) := by
  obtain ⟨hdatagrams, hsub, hall⟩ := stream_segments hp hslotted hids
  refine ⟨Nat.le_add_right _ _, hrange, hdatagrams, ?_, ?_⟩
  · rw [Nat.add_sub_cancel_left]
    exact hsub.trans (List.range'_sublist_right.mpr (Nat.mul_le_mul_right _ hn))
  · intro h
    rw [Nat.add_sub_cancel_left, ← hwhole h]
    exact hall (Parameter.segmented_whole h.1)

/-- `send` passes on the first packet of its buffer. -/
theorem Parameter.Stream.of_packet (hp : p.Sends) {h : Msghdr} (hs : h.Slotted p testId)
    {first n : Nat} (hids : h.slotIds p = List.range' first p.slots)
    (hrange : first + n * p.slots < 2 ^ 64) (hn : 1 ≤ n) (hwhole : p.Whole → n * p.slots = 1) :
    p.Stream testId first (first + n * p.slots)
      (p.socketOptions.segments (h.payload.take p.datagramSize)) := by
  obtain ⟨hslots, _⟩ := hp.slots
  obtain ⟨hdatagram, hid⟩ := hs.first hp (hp.headers.datagramSize hp.datagramSize hslots)
  have halone : p.socketOptions.segments (h.payload.take p.datagramSize) =
      [h.payload.take p.datagramSize] := by
    unfold SocketOptions.segments
    cases hgso : p.socketOptions.gso with
    | none => rfl
    | some size =>
      simp only
      rw [if_pos]
      rw [hp.gso size hgso, List.length_take]
      exact Nat.min_le_left _ _
  rw [hids, List.take_range'_of_length_ge hslots] at hid
  have hmany : 1 ≤ n * p.slots := Nat.le_trans hslots (Nat.le_mul_of_pos_left _ hn)
  rw [halone]
  refine ⟨Nat.le_add_right _ _, hrange, by simpa using hdatagram, ?_, ?_⟩
  · rw [Nat.add_sub_cancel_left, List.map_singleton, hid]
    exact List.range'_sublist_right.mpr hmany
  · intro h
    rw [Nat.add_sub_cancel_left, List.map_singleton, hid, hwhole h]

end

namespace Sender
variable {p : Parameter} {testId : Nat} {s s' t : Sender}

/-- A sender between two turns of its loop. -/
structure Streams (p : Parameter) (testId : Nat) (s : Sender) : Prop where
  offers : s.Offers p testId
  parameter : s.parameter = p
  test : s.testId = testId

theorem Streams.of_eq (h : s.Streams p testId) (hbuffer : s'.packetBuffer = s.packetBuffer)
    (hnext : s'.nextPacketId = s.nextPacketId)
    (hfunction : s'.exchangeFunction = s.exchangeFunction)
    (hparameter : s'.parameter = s.parameter) (htest : s'.testId = s.testId) :
    s'.Streams p testId := by
  obtain ⟨⟨⟨hslotted, hrange⟩, hoffer⟩, hp, ht⟩ := h
  exact ⟨⟨⟨hbuffer ▸ hslotted, hnext ▸ hrange⟩, hfunction.trans hoffer⟩, hparameter.trans hp,
    htest.trans ht⟩

theorem Streams.closeInterval (h : s.Streams p testId) (clock : Clock) :
    (s.closeInterval clock).Streams p testId ∧
      (s.closeInterval clock).nextPacketId = s.nextPacketId := by
  unfold Sender.closeInterval
  split
  · exact ⟨h.of_eq rfl rfl rfl rfl rfl, rfl⟩
  · exact ⟨h, rfl⟩

theorem Streams.new {clock : Clock} (ht : testId < 2 ^ 64) (h : Sender.new clock testId p = .ok s) :
    s.Streams p testId ∧ s.nextPacketId = 0 := by
  refine ⟨⟨.new ht h, ?_, ?_⟩, (new_ok ht h).2.2.2.2.1⟩
  · obtain ⟨_, _, h⟩ := bind_ok.mp h
    cases h
    rfl
  · obtain ⟨_, _, h⟩ := bind_ok.mp h
    cases h
    rfl

/-- The messages that the kernel has accepted, by its answer alone. -/
def answer (s : Sender) (socket : Socket) : Except Error Nat :=
  match s.exchangeFunction with
  | .normal | .msg => socket.message.map fun _ => 1
  | .mmsg => socket.batch.map List.length

/-- What a send call leaves for the next one. The ids of an error that is not
EAGAIN are used up, but then the run is over. -/
structure Attempts (p : Parameter) (s t s' : Sender) (answer : Except Error Nat)
    (result : Except Error Unit) : Prop where
  kept : s'.packetBuffer.mmsghdrVec.map Mmsghdr.msgHdr =
      t.packetBuffer.mmsghdrVec.map Mmsghdr.msgHdr ∧
    s'.packetBuffer.datagramSize = t.packetBuffer.datagramSize ∧
    s'.packetBuffer.packetsAmountPerMsghdr = t.packetBuffer.packetsAmountPerMsghdr ∧
    s'.exchangeFunction = t.exchangeFunction ∧ s'.parameter = t.parameter ∧
    s'.testId = t.testId
  next : s.nextPacketId ≤ s'.nextPacketId ∧ s'.nextPacketId ≤ t.nextPacketId
  counted : s'.statistic.amountDatagrams = t.statistic.amountDatagrams +
    if result = .ok () then s'.nextPacketId - s.nextPacketId else 0
  result : match answer with
    | .error _ => ∃ e, result = .error e ∧ (e = .eagain → s'.nextPacketId = s.nextPacketId)
    | .ok n => result = .ok () ∧ n ≤ p.packetBufferSize ∧ s'.nextPacketId =
        s.nextPacketId + (if s.exchangeFunction = .mmsg then n else p.packetBufferSize) * p.slots

theorem failed_attempts {amount : Nat} {e e' : Error} {result : Except Error Unit}
    (hnext : t.nextPacketId = s.nextPacketId + amount)
    (h : t.failed amount e = .ok (result, s')) : Attempts p s t s' (.error e') result := by
  cases e with
  | eagain =>
    obtain ⟨n, hsub, h⟩ := bind_ok.mp h
    cases h
    rw [hnext, checkedSub_ok (Nat.le_add_left _ _), Nat.add_sub_cancel] at hsub
    cases hsub
    exact ⟨⟨rfl, rfl, rfl, rfl, rfl, rfl⟩, ⟨Nat.le_refl _, by simp only; omega⟩, rfl, _, rfl,
      fun _ => rfl⟩
  | _ =>
    cases h
    exact ⟨⟨rfl, rfl, rfl, rfl, rfl, rfl⟩, ⟨by omega, Nat.le_refl _⟩, rfl, _, rfl, by simp⟩

theorem count_attempts {amount bytes : Nat} {m : Mmsghdr}
    (hamount : amount = p.packetBufferSize * p.slots)
    (hb : t.packetBuffer.Slotted p testId) (hm : t.packetBuffer.mmsghdrVec[0]? = some m)
    (hnext : t.nextPacketId = s.nextPacketId + p.packetBufferSize * p.slots)
    (hfunction : s.exchangeFunction ≠ .mmsg) :
    Attempts p s t (t.count amount bytes) (.ok 1) (.ok ()) := by
  refine ⟨⟨rfl, rfl, rfl, rfl, rfl, rfl⟩, ⟨?_, Nat.le_refl _⟩, ?_, rfl, ?_, ?_⟩
  · simp only [count, hnext, Nat.le_add_right]
  · simp only [count, hnext, Nat.add_sub_cancel_left, ↓reduceIte, hamount]
  · exact hb.size ▸ (List.getElem?_eq_some_iff.mp hm).1
  · rw [if_neg hfunction]
    exact hnext

theorem send_attempts {kernel : Except Error Nat} {amount : Nat} {result : Except Error Unit}
    (hd : 0 < p.datagramSize) (hb : t.packetBuffer.Slotted p testId)
    (hamount : amount = p.packetBufferSize * p.slots) (hstamp : s.stamp = .ok (amount, t))
    (hnext : t.nextPacketId = s.nextPacketId + p.packetBufferSize * p.slots)
    (hfunction : s.exchangeFunction ≠ .mmsg) (h : s.send kernel = .ok (result, s')) :
    Attempts p s t s' (kernel.map fun _ => 1) result := by
  simp only [send, hstamp, ok_bind] at h
  split at h
  · cases h
  · rename_i m hm
    obtain ⟨buffer, _, h⟩ := bind_ok.mp h
    simp only [socketSend, hb.datagramSize] at h
    rw [if_neg (Nat.ne_of_gt hd)] at h
    cases kernel with
    | ok bytes =>
      cases h
      exact count_attempts hamount hb hm hnext hfunction
    | error e => exact failed_attempts (hamount ▸ hnext) h

theorem sendmsg_attempts {kernel : Except Error Nat} {amount : Nat} {result : Except Error Unit}
    (hb : t.packetBuffer.Slotted p testId)
    (hamount : amount = p.packetBufferSize * p.slots) (hstamp : s.stamp = .ok (amount, t))
    (hnext : t.nextPacketId = s.nextPacketId + p.packetBufferSize * p.slots)
    (hfunction : s.exchangeFunction ≠ .mmsg) (h : s.sendmsg kernel = .ok (result, s')) :
    Attempts p s t s' (kernel.map fun _ => 1) result := by
  simp only [sendmsg, hstamp, ok_bind, PacketBuffer.getMsghdrFromIndex] at h
  cases hm : t.packetBuffer.mmsghdrVec[0]? with
  | none =>
    rw [hm] at h
    cases h
  | some m =>
    rw [hm] at h
    cases kernel with
    | ok bytes =>
      cases h
      exact count_attempts hamount hb hm hnext hfunction
    | error e => exact failed_attempts (hamount ▸ hnext) h

theorem sendmmsg_attempts {kernel : Except Error (List Nat)} {amount : Nat}
    {result : Except Error Unit} (hb : t.packetBuffer.Slotted p testId)
    (hamount : amount = p.packetBufferSize * p.slots) (hstamp : s.stamp = .ok (amount, t))
    (hnext : t.nextPacketId = s.nextPacketId + p.packetBufferSize * p.slots)
    (hfunction : s.exchangeFunction = .mmsg) (h : s.sendmmsg kernel = .ok (result, s')) :
    Attempts p s t s' (kernel.map List.length) result := by
  simp only [sendmmsg, hstamp, ok_bind] at h
  cases kernel with
  | error e => exact failed_attempts (hamount ▸ hnext) h
  | ok lengths =>
    have hmsghdrs := sentAll_msghdrs t.packetBuffer.mmsghdrVec lengths
    have hlen := congrArg List.length hmsghdrs
    simp only [List.length_map, hb.size] at hlen
    simp only [hlen] at h
    split at h
    · rename_i hall
      cases h
      refine ⟨⟨hmsghdrs, rfl, rfl, rfl, rfl, rfl⟩, ⟨?_, Nat.le_refl _⟩, ?_, rfl,
        Nat.le_of_eq hall, ?_⟩
      · simp only [count, hnext, Nat.le_add_right]
      · simp only [count, hnext, hall, hb.packets, Nat.add_sub_cancel_left, ↓reduceIte]
      · simp only [count, hnext, hfunction, hall, ↓reduceIte]
    · simp only [bind_ok] at h
      obtain ⟨notSent, hsub, back, hback, h⟩ := h
      cases h
      obtain ⟨hle, rfl⟩ := checkedSub_eq_ok hsub
      obtain ⟨_, rfl⟩ := checkedSub_eq_ok hback
      -- what was not sent is taken back, and no more
      have hrest : t.nextPacketId -
          (p.packetBufferSize - lengths.length) * t.packetBuffer.packetsAmountPerMsghdr =
            s.nextPacketId + lengths.length * p.slots := by
        have := Nat.mul_le_mul_right p.slots hle
        rw [hnext, hb.packets, Nat.sub_mul]
        omega
      refine ⟨⟨hmsghdrs, rfl, rfl, rfl, rfl, rfl⟩, ⟨?_, Nat.sub_le _ _⟩, ?_, rfl, hle, ?_⟩
      · simp only [count, hrest, Nat.le_add_right]
      · simp only [count, hrest, Nat.add_sub_cancel_left, ↓reduceIte]
        rw [hb.packets]
      · simp only [count, hrest, hfunction, ↓reduceIte]

theorem Streams.stamp {v : Nat × Sender} (hs : s.Streams p testId) (hp : p.Sends)
    (h : s.stamp = .ok v) : ∃ t, s.stamp = .ok (p.packetBufferSize * p.slots, t) ∧
      t.Streams p testId ∧ t.statistic = s.statistic ∧
      t.nextPacketId = s.nextPacketId + p.packetBufferSize * p.slots ∧ t.nextPacketId < 2 ^ 64 ∧
      ∀ n ≤ p.packetBufferSize,
        (t.packetBuffer.mmsghdrVec.take n).flatMap (fun m => m.msgHdr.slotIds p) =
          List.range' s.nextPacketId (n * p.slots) := by
  have hslotted := hs.offers.ready.slotted
  have hfit := stamp_fits hslotted h
  obtain ⟨b, hb, hbuffer, htake⟩ := stamp_ok hp.headers hp.datagramSize hslotted hfit
  exact ⟨_, hb, ⟨⟨⟨hbuffer, Nat.le_of_lt hfit⟩, hs.offers.exchangeFunction⟩, hs.parameter, hs.test⟩,
    rfl, rfl, hfit, htake⟩

theorem stamp_of_sendMessages {socket : Socket} {result : Except Error Unit}
    (h : s.sendMessages socket = .ok (result, s')) : ∃ v, s.stamp = .ok v := by
  unfold sendMessages at h
  split at h
  · obtain ⟨v, hv, _⟩ := bind_ok.mp h
    exact ⟨v, hv⟩
  · obtain ⟨v, hv, _⟩ := bind_ok.mp h
    exact ⟨v, hv⟩
  · obtain ⟨v, hv, _⟩ := bind_ok.mp h
    exact ⟨v, hv⟩

/-- Every send function stamps the buffers and leaves the rest to the kernel. -/
theorem Streams.attempts (hs : s.Streams p testId) (hp : p.Sends) {socket : Socket}
    {result : Except Error Unit} (h : s.sendMessages socket = .ok (result, s')) :
    ∃ t, t.Streams p testId ∧ t.statistic = s.statistic ∧ t.nextPacketId < 2 ^ 64 ∧
      (∀ n ≤ p.packetBufferSize,
        (t.packetBuffer.mmsghdrVec.take n).flatMap (fun m => m.msgHdr.slotIds p) =
          List.range' s.nextPacketId (n * p.slots)) ∧
      Attempts p s t s' (s.answer socket) result := by
  obtain ⟨v, hv⟩ := stamp_of_sendMessages h
  obtain ⟨t, hstamp, ht, hstatistic, hnext, hrange, htake⟩ := hs.stamp hp hv
  have hb := ht.offers.ready.slotted
  refine ⟨t, ht, hstatistic, hrange, htake, ?_⟩
  simp only [sendMessages, answer] at h ⊢
  cases hfunction : s.exchangeFunction with
  | normal =>
    rw [hfunction] at h
    exact send_attempts hp.datagramSize hb rfl hstamp hnext (by simp [hfunction]) h
  | msg =>
    rw [hfunction] at h
    exact sendmsg_attempts hb rfl hstamp hnext (by simp [hfunction]) h
  | mmsg =>
    rw [hfunction] at h
    exact sendmmsg_attempts hb rfl hstamp hnext hfunction h

/-- The buffers that a call leaves are as good as those it has stamped. -/
theorem Attempts.streams {answer : Except Error Nat} {result : Except Error Unit}
    (h : Attempts p s t s' answer result) (ht : t.Streams p testId) : s'.Streams p testId := by
  obtain ⟨hmsghdrs, hsize, hpackets, hfunction, hparameter, htest⟩ := h.kept
  have hb := ht.offers.ready.slotted
  have hlen := congrArg List.length hmsghdrs
  simp only [List.length_map] at hlen
  refine ⟨⟨⟨⟨hlen.trans hb.size, hsize.trans hb.datagramSize, hpackets.trans hb.packets, ?_⟩, ?_⟩,
    hfunction.trans ht.offers.exchangeFunction⟩, hparameter.trans ht.parameter,
    htest.trans ht.test⟩
  · intro m hm
    obtain ⟨m', hm', heq⟩ := List.mem_map.mp (hmsghdrs ▸ List.mem_map_of_mem hm)
    exact heq ▸ hb.msghdrs m' hm'
  · exact Nat.le_trans h.next.2 ht.offers.ready.nextPacketId

/-- What is accepted, read off the answer. -/
theorem accepted_eq (s : Sender) (socket : Socket) : s.accepted socket =
    match s.answer socket with
    | .error _ => []
    | .ok n =>
      let messages := (s.packetBuffer.mmsghdrVec.take n).map fun m => m.msgHdr.payload
      if s.exchangeFunction = .normal then messages.map (List.take s.packetBuffer.datagramSize)
      else messages := by
  unfold accepted answer
  cases hfunction : s.exchangeFunction with
  | normal => cases socket.message <;> simp [Msghdr.payload, List.map_take]
  | msg => cases socket.message <;> simp [Msghdr.payload, List.map_take]
  | mmsg => cases socket.batch <;> simp [Msghdr.payload, List.map_take]

theorem answer_one {socket : Socket} {n : Nat} (hfunction : s.exchangeFunction ≠ .mmsg)
    (h : s.answer socket = .ok n) : n = 1 := by
  unfold answer at h
  split at h
  · exact ((map_eq_ok.mp h).choose_spec.2).symm
  · exact ((map_eq_ok.mp h).choose_spec.2).symm
  · rename_i hmode
    exact absurd hmode hfunction

theorem Attempts.answer {answer : Except Error Nat} {result : Except Error Unit} {socket : Socket}
    (h : Attempts p s t s' answer result) (hs : s.Streams p testId) (ht : t.Streams p testId) :
    s'.answer socket = s.answer socket := by
  obtain ⟨_, _, _, hfunction, _⟩ := h.kept
  unfold Sender.answer
  rw [hfunction, ht.offers.exchangeFunction, hs.offers.exchangeFunction]

/-- The messages accepted are the first ones that the call has stamped. -/
theorem Attempts.messages {answer : Except Error Nat} {result : Except Error Unit} {n : Nat}
    (h : Attempts p s t s' answer result) (ht : t.Streams p testId) (hn : n ≤ p.packetBufferSize)
    (htake : (t.packetBuffer.mmsghdrVec.take n).flatMap (fun m => m.msgHdr.slotIds p) =
      List.range' s.nextPacketId (n * p.slots)) :
    ∃ hs : List Msghdr, hs.length = n ∧ (∀ h ∈ hs, h.Slotted p testId) ∧
      hs.flatMap (Msghdr.slotIds p) = List.range' s.nextPacketId (n * p.slots) ∧
      (s'.packetBuffer.mmsghdrVec.take n).map (fun m => m.msgHdr.payload) =
        hs.map Msghdr.payload := by
  have hb := ht.offers.ready.slotted
  refine ⟨(t.packetBuffer.mmsghdrVec.take n).map Mmsghdr.msgHdr, ?_, ?_, ?_, ?_⟩
  · rw [List.length_map, List.length_take, hb.size, Nat.min_eq_left hn]
  · intro hdr hh
    obtain ⟨m, hm, rfl⟩ := List.mem_map.mp hh
    exact hb.msghdrs m (List.mem_of_mem_take hm)
  · rw [List.flatMap_map]
    exact htake
  · have hkept := congrArg (fun hs => (hs.take n).map Msghdr.payload) h.kept.1
    simpa only [← List.map_take, List.map_map, Function.comp_def] using hkept

/-- The datagrams of a call that succeeds carry the ids it has used. -/
theorem Streams.accepted (hs : s.Streams p testId) (hp : p.Sends) {socket : Socket}
    (h : s.sendMessages socket = .ok (.ok (), s')) :
    s'.Streams p testId ∧ p.Stream testId s.nextPacketId s'.nextPacketId
      ((s'.accepted socket).flatMap p.socketOptions.segments) := by
  obtain ⟨t, ht, _, hrange, htake, hattempt⟩ := hs.attempts hp h
  have hstreams := hattempt.streams ht
  refine ⟨hstreams, ?_⟩
  have hfunction := hs.offers.exchangeFunction
  have hresult := hattempt.result
  have hanswer := accepted_eq s' socket
  rw [hattempt.answer hs ht, hstreams.offers.exchangeFunction] at hanswer
  cases hreply : s.answer socket with
  | error e =>
    rw [hreply] at hresult
    obtain ⟨_, h, _⟩ := hresult
    cases h
  | ok n =>
    rw [hreply] at hresult hanswer
    obtain ⟨_, hn, hnext⟩ := hresult
    rw [hfunction] at hnext
    obtain ⟨hdrs, hlen, hslotted, hids, hmessages⟩ := hattempt.messages ht hn (htake n hn)
    simp only [hmessages, hstreams.offers.ready.slotted.datagramSize] at hanswer
    have hfit := Nat.lt_of_le_of_lt hattempt.next.2 hrange
    rw [hnext] at hfit
    rw [hanswer, hnext]
    cases hmode : p.exchangeFunction with
    | normal =>
      obtain rfl := answer_one (by simp [hfunction, hmode]) hreply
      obtain ⟨hdr, rfl⟩ := List.length_eq_one_iff.mp hlen
      rw [List.flatMap_singleton, Nat.one_mul] at hids
      simp only [List.map_cons, List.map_nil, ↓reduceIte, List.flatMap_singleton, reduceCtorEq,
        hmode] at hfit ⊢
      refine .of_packet hp (hslotted hdr List.mem_cons_self) hids hfit hn ?_
      intro hwhole
      rw [hwhole.2.1.resolve_left (by simp [hmode]), hwhole.2.2 hmode]
    | msg =>
      simp only [reduceCtorEq, ↓reduceIte, hmode] at hfit ⊢
      refine .of_messages hp hslotted (hlen ▸ hids) hfit (hlen ▸ hn) ?_
      intro hwhole
      rw [hlen, answer_one (by simp [hfunction, hmode]) hreply,
        hwhole.2.1.resolve_left (by simp [hmode])]
    | mmsg =>
      simp only [reduceCtorEq, ↓reduceIte, hmode] at hfit ⊢
      exact .of_messages hp hslotted (hlen ▸ hids) hfit (Nat.le_of_eq hlen) fun _ => hlen

/-- A call that fails puts nothing on the wire. -/
theorem Streams.refused (hs : s.Streams p testId) (hp : p.Sends) {socket : Socket} {e : Error}
    (h : s.sendMessages socket = .ok (.error e, s')) :
    s'.Streams p testId ∧ s'.accepted socket = [] ∧ s.nextPacketId ≤ s'.nextPacketId ∧
      (e = .eagain → s'.nextPacketId = s.nextPacketId) := by
  obtain ⟨t, ht, _, _, _, hattempt⟩ := hs.attempts hp h
  have hresult := hattempt.result
  have hanswer := accepted_eq s' socket
  rw [hattempt.answer hs ht] at hanswer
  cases hreply : s.answer socket with
  | error e =>
    rw [hreply] at hresult hanswer
    obtain ⟨e, he, heagain⟩ := hresult
    cases he
    exact ⟨hattempt.streams ht, hanswer, hattempt.next.1, heagain⟩
  | ok n =>
    rw [hreply] at hresult
    cases hresult.1

/-- A call counts the ids that it has used, and nothing if it fails. -/
theorem Streams.counted (hs : s.Streams p testId) (hp : p.Sends) {socket : Socket}
    {result : Except Error Unit} (h : s.sendMessages socket = .ok (result, s')) :
    s'.statistic.amountDatagrams = s.statistic.amountDatagrams +
      if result = .ok () then s'.nextPacketId - s.nextPacketId else 0 := by
  obtain ⟨t, _, hstatistic, _, _, hattempt⟩ := hs.attempts hp h
  rw [← hstatistic]
  exact hattempt.counted

end Sender
end Nperf
