import Nperf.Ledger.Overflow
import Nperf.Proofs.Agreement

namespace Nperf
open Rust Bytes

/-- Receive buffers with these datagrams in this order; `mss` is a `u32`. -/
structure Groups (size : UInt32) (datagrams : List Memory) (bs : List GroBuffer) : Prop where
  coalesced : ∀ b ∈ bs, b.Coalesced size.toNat
  flat : bs.flatMap GroBuffer.datagrams = datagrams

theorem Groups.processBuffers_eq {size : UInt32} {datagrams : List Memory} {bs : List GroBuffer}
    (hg : Groups size datagrams bs) (hwhole : ∀ x ∈ datagrams, 24 ≤ x.length) (build : Build)
    (next received : Nat) (s : Statistic) :
    processBuffers build bs (next, received, s) =
      (Counters.arriveAll build (datagrams.map packetId) next s.counters).map
        (fun (next, c) => (next, received + datagrams.length, s.withCounters c)) := by
  have hpackets : ∀ b ∈ bs, ∀ x ∈ b.datagrams, 24 ≤ x.length := by
    intro b hb x hx
    exact hwhole x (hg.flat ▸ List.mem_flatMap.mpr ⟨b, hb, hx⟩)
  rw [processBuffers_arriveAll build size.toNat_lt hg.coalesced hpackets, hg.flat, List.length_map]

/-- How the kernel groups datagrams into receive buffers does not show in the
next packet id, in the number of packets, or in the counters. -/
theorem grouping_transparent (build : Build) (size size' : UInt32) (datagrams : List Memory)
    (hwhole : ∀ x ∈ datagrams, 24 ≤ x.length) (bs bs' : List GroBuffer)
    (hg : Groups size datagrams bs) (hg' : Groups size' datagrams bs')
    (next received : Nat) (statistic : Statistic) :
    processBuffers build bs (next, received, statistic) =
      processBuffers build bs' (next, received, statistic) := by
  rw [hg.processBuffers_eq hwhole, hg'.processBuffers_eq hwhole]

/-- A receive buffer of `size` bytes with datagrams in it, and with their size
as the kernel reports it. -/
def GroBuffer.hold (size : Nat) (segmentSize : Option Nat) (datagrams : List Memory) : GroBuffer :=
  { msghdr := WrapperMsghdr.createMsghdr (List.replicate size 0)
    datagrams := datagrams
    delivery :=
      { payload := datagrams.flatten
        control := segmentSize.toList.map (fun n => ⟨solUdp, udpGro, n⟩)
        controllen := lengthMsghdrControlMessageBuffer
        flags := 0 } }

theorem GroBuffer.hold_one {size : Nat} {x : Memory} (hx : x.length ≤ size) :
    (hold size none [x]).Coalesced size := by
  refine ⟨⟨rfl, List.length_replicate, List.length_replicate⟩, ?_, rfl, .inl ⟨rfl, x, rfl⟩⟩
  simpa [hold] using hx

theorem GroBuffer.hold_even {size segmentSize : Nat} {datagrams : List Memory}
    (hne : datagrams ≠ []) (heven : Segments.Even segmentSize datagrams)
    (hfit : datagrams.flatten.length ≤ size) :
    (hold size (some segmentSize) datagrams).Coalesced size := by
  refine ⟨⟨rfl, List.length_replicate, List.length_replicate⟩, hfit, rfl, .inr ⟨hne, ?_⟩⟩
  exact ⟨segmentSize, rfl, (by decide : 16 ≤ lengthMsghdrControlMessageBuffer), heven⟩

/-- A datagram that is nothing but a header. -/
def datagramOf (packetId : Nat) : Memory := (MessageHeader.mk .measurement 0 packetId).serialize

theorem packetId_datagramOf {id : Nat} (hid : id < 2 ^ 64) : packetId (datagramOf id) = id :=
  MessageHeader.load_packetId ⟨.measurement, 0, id⟩ hid

/-- Three datagrams in two buffers, cut behind the first and behind the second. -/
theorem grouping_transparent_three :
    processBuffers .debug [.hold 72 none [datagramOf 4],
        .hold 72 (some 24) [datagramOf 2, datagramOf 7]]
        (3, 0, Statistic.new ⟨0, 0⟩ .headersOnly) =
      processBuffers .debug [.hold 48 (some 24) [datagramOf 4, datagramOf 2],
        .hold 48 (some 24) [datagramOf 7]] (3, 0, Statistic.new ⟨0, 0⟩ .headersOnly) := by
  apply grouping_transparent .debug 72 48 [datagramOf 4, datagramOf 2, datagramOf 7] (by decide)
  · refine ⟨?_, rfl⟩
    simp only [List.forall_mem_cons, List.not_mem_nil, false_implies, implies_true, and_true]
    exact ⟨GroBuffer.hold_one (by decide),
      GroBuffer.hold_even (by simp) (by simp [Segments.Even, datagramOf]) (by decide)⟩
  · refine ⟨?_, rfl⟩
    simp only [List.forall_mem_cons, List.not_mem_nil, false_implies, implies_true, and_true]
    exact ⟨GroBuffer.hold_even (by simp) (by simp [Segments.Even, datagramOf]) (by decide),
      GroBuffer.hold_even (by simp) (by simp [Segments.Even, datagramOf]) (by decide)⟩

/-- Whatever buffers bring the packets, each of them leaves the next packet id
no smaller and the number of omitted datagrams not negative. Neither wraps
around or overflows: they are as in unbounded arithmetic. -/
def PacketIdsSafe (build : Build) (clock : Clock) (p : Parameter) (ids : List Nat) : Prop :=
  ∀ size datagrams last bs bs', (∀ x ∈ datagrams ++ [last], 24 ≤ x.length) →
    Groups size datagrams bs → Groups size (datagrams ++ [last]) bs' →
    (datagrams ++ [last]).map packetId <+: ids →
    ∃ next n s next' n' s',
      processBuffers build bs (0, 0, Statistic.new clock p) = .ok (next, n, s) ∧
      processBuffers build bs' (0, 0, Statistic.new clock p) = .ok (next', n', s') ∧
      next ≤ next' ∧ next' = Sequence.next 0 ((datagrams ++ [last]).map packetId) ∧
      0 ≤ s'.amountOmittedDatagrams ∧ s'.amountOmittedDatagrams =
        (Counters.noteAll ((datagrams ++ [last]).map packetId) 0 Counters.zero).omitted

theorem groups_single (ids : List Nat) :
    Groups 24 (ids.map datagramOf) (ids.map (fun id => .hold 24 none [datagramOf id])) := by
  refine ⟨?_, ?_⟩
  · intro b hb
    obtain ⟨id, _, rfl⟩ := List.mem_map.mp hb
    exact GroBuffer.hold_one (Nat.le_of_eq (MessageHeader.length_serialize _))
  · induction ids with
    | nil => rfl
    | cons id ids ih => exact congrArg (datagramOf id :: ·) ih

theorem map_packetId {ids : List Nat} (h : ∀ id ∈ ids, id < 2 ^ 64) :
    (ids.map datagramOf).map packetId = ids := by
  induction ids with
  | nil => rfl
  | cons id ids ih =>
    obtain ⟨hid, hrest⟩ := List.forall_mem_cons.mp h
    rw [List.map_cons, List.map_cons, packetId_datagramOf hid, ih hrest]

theorem PacketIdsSafe.sound {build : Build} {clock : Clock} {p : Parameter} {ids : List Nat}
    (h : PacketIdsSafe build clock p ids) (hids : ∀ id ∈ ids, id < 2 ^ 64) :
    Counters.Sound build ids := by
  intro front id hfront
  have hmem : ∀ i ∈ front ++ [id], i < 2 ^ 64 := fun i hi => hids i (hfront.subset hi)
  have hsplit : (front ++ [id]).map datagramOf = front.map datagramOf ++ [datagramOf id] := by
    rw [List.map_append, List.map_singleton]
  have hall : ∀ x ∈ (front ++ [id]).map datagramOf, 24 ≤ x.length := by
    intro x hx
    obtain ⟨i, _, rfl⟩ := List.mem_map.mp hx
    exact Nat.le_of_eq (MessageHeader.length_serialize _).symm
  have hg := groups_single front
  have hg' := groups_single (front ++ [id])
  have hpacket := map_packetId hmem
  rw [hsplit] at hall hg' hpacket
  obtain ⟨next, n, s, next', n', s', hrun, hrun', hmono, _, hpos, _⟩ :=
    h 24 _ _ _ _ hall hg hg' (hpacket ▸ hfront)
  rw [hg.processBuffers_eq (fun x hx => hall x (List.mem_append_left _ hx)),
    map_packetId (fun i hi => hmem i (List.mem_append_left _ hi))] at hrun
  rw [hg'.processBuffers_eq hall, hpacket] at hrun'
  obtain ⟨⟨_, c⟩, ha, hc⟩ := map_eq_ok.mp hrun
  obtain ⟨⟨_, c'⟩, ha', hc'⟩ := map_eq_ok.mp hrun'
  cases hc
  cases hc'
  exact ⟨next, c, next', c', ha, ha', hmono, hpos⟩

theorem PacketIdsSafe.exactly {build : Build} {clock : Clock} {p : Parameter} {ids : List Nat}
    (h : PacketIdsSafe build clock p ids) (hids : ∀ id ∈ ids, id < 2 ^ 64) (front : List Nat)
    (hfront : front <+: ids) : Counters.Exactly build front := by
  have hsub : ∀ id ∈ front, id < 2 ^ 64 := fun id hid => hids id (hfront.subset hid)
  have hsound : Counters.Sound build ([] ++ front) :=
    fun f id hf => h.sound hids f id (hf.trans hfront)
  exact hsound.exactly hsub (Counters.Exactly.nil build)

/-- Packet ids of 64 bits are safe exactly if none is the last of them and no
stretch of packets moves the next packet id on by 2^63 more than its length. -/
theorem packet_ids_safe_iff (build : Build) (clock : Clock) (p : Parameter) (ids : List Nat)
    (hids : ∀ id ∈ ids, id < 2 ^ 64) :
    PacketIdsSafe build clock p ids ↔ 2 ^ 64 - 1 ∉ ids ∧ Sequence.Steady (2 ^ 63) ids := by
  rw [← Counters.exactly_iff build hids]
  constructor
  · exact fun h => h.exactly hids
  · intro h size datagrams last bs bs' hwhole hg hg' hprefix
    have hfront : datagrams.map packetId <+: (datagrams ++ [last]).map packetId := by
      rw [List.map_append]
      exact List.prefix_append _ _
    have hold := h _ (hfront.trans hprefix)
    have hnew := h _ hprefix
    have hrun := hg.processBuffers_eq (fun x hx => hwhole x (List.mem_append_left _ hx)) build 0 0
      (Statistic.new clock p)
    have hrun' := hg'.processBuffers_eq hwhole build 0 0 (Statistic.new clock p)
    rw [Statistic.counters_new, hold.run, map_ok] at hrun
    rw [Statistic.counters_new, hnew.run, map_ok] at hrun'
    refine ⟨_, _, _, _, _, _, hrun, hrun', ?_, rfl, Counters.noteAll_nonneg _ 0 (Int.le_refl 0), ?_⟩
    · rw [List.map_append, Counters.cursorAll_append]
      exact Counters.le_cursorAll _ _
    · exact rfl

/-- Packets far ahead, late and twice are safe as long as no gap reaches 2^63. -/
theorem packet_ids_safe_reordered :
    PacketIdsSafe .release ⟨0, 0⟩ .headersOnly [2 ^ 62, 5, 2 ^ 63 - 1, 5, 2 ^ 62 + 1] := by
  apply (packet_ids_safe_iff .release ⟨0, 0⟩ .headersOnly _ (by decide)).mpr
  refine ⟨by decide, ?_⟩
  intro a b d hsplit
  have hall : ∀ id ∈ [2 ^ 62, 5, 2 ^ 63 - 1, 5, 2 ^ 62 + 1], id < 2 ^ 63 := by decide
  have hnext : ∀ l, l <+: [2 ^ 62, 5, 2 ^ 63 - 1, 5, 2 ^ 62 + 1] →
      Sequence.next 0 l ≤ 2 ^ 63 := by
    intro l hl
    rcases Sequence.next_eq 0 l with hzero | ⟨id, hid, heq⟩
    · omega
    · have := hall id (hl.subset hid)
      omega
  have hle := hnext (a ++ b) (hsplit ▸ List.prefix_append _ _)
  cases b with
  | nil =>
    rw [List.append_nil]
    omega
  | cons x b =>
    rw [List.length_cons]
    omega

/-- One packet with id 2^63, then the last id: what is missing is counted with
the wrong sign, and the next packet id starts again. With overflow checks the
program stops. -/
theorem packet_ids_unsafe :
    ¬PacketIdsSafe .release ⟨0, 0⟩ .headersOnly [2 ^ 63, 2 ^ 64 - 1] ∧
      (processBuffers .release [.hold 24 none [datagramOf (2 ^ 63)]]
          (0, 0, Statistic.new ⟨0, 0⟩ .headersOnly)).map
        (fun (next, _, s) => (next, s.amountOmittedDatagrams)) = .ok (2 ^ 63 + 1, -2 ^ 63) ∧
      (processBuffers .release [.hold 24 none [datagramOf (2 ^ 63)],
          .hold 24 none [datagramOf (2 ^ 64 - 1)]]
          (0, 0, Statistic.new ⟨0, 0⟩ .headersOnly)).map (fun (next, _) => next) = .ok 0 ∧
      (processBuffers .debug [.hold 24 none [datagramOf (2 ^ 63)],
          .hold 24 none [datagramOf (2 ^ 64 - 1)]]
          (0, 0, Statistic.new ⟨0, 0⟩ .headersOnly)).map (fun (next, _) => next) =
        .error .overflow := by
  refine ⟨?_, by decide +kernel, by decide +kernel, by decide +kernel⟩
  intro h
  have hall := (h.exactly (by decide) _ (List.prefix_refl _)).cursor
  exact absurd hall (by decide)

end Nperf
