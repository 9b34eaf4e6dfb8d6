import Nperf.Ledger.Gaps
import Nperf.Model.CommandParser

namespace Nperf
open Rust Bytes

/-- Loss and reordering are exact if no packet comes twice, in whatever order
they come. -/
theorem distinct_ids_exact (build : Build) (ids : List Nat) (hdistinct : ids.Nodup)
    (hids : ∀ id ∈ ids, id < 2 ^ 63) (packets : List Slice)
    (hpackets : packets.map MessageHeader.getPacketId = ids.map .ok) (statistic : Statistic)
    (hzero : statistic.counters = Counters.zero) :
    ∃ next s, processPackets build packets (0, 0, statistic) = .ok (next, ids.length, s) ∧
      (ids = [] ∧ next = 0 ∨ ∃ id ∈ ids, next = id + 1 ∧ ∀ id' ∈ ids, id' ≤ id) ∧
      s.amountOmittedDatagrams =
        ((List.range next).filter (fun id => decide (id ∉ ids))).length ∧
      s.amountReorderedDatagrams = (Sequence.overtaken ids).length ∧
      s.amountDuplicatedDatagrams = 0 := by
  have hexact : Counters.Exact 0 statistic.counters :=
    hzero ▸ ⟨Int.le_refl 0, Int.le_refl 0, Nat.zero_le _⟩
  have hstart : Counters.Distinct [] statistic.counters := hzero ▸ ⟨rfl, rfl, rfl⟩
  have hdone : Counters.Distinct ([] ++ ids) (Counters.noteAll ids 0 statistic.counters) :=
    hstart.noteAll hdistinct
  refine ⟨Counters.cursorAll ids 0,
    statistic.withCounters (Counters.noteAll ids 0 statistic.counters), ?_, ?_, hdone.omitted,
    hdone.reordered, hdone.duplicated⟩
  · rw [processPackets_arriveAll build hpackets, Counters.arriveAll_exact build hexact hids, map_ok,
      Nat.zero_add]
  · rcases Counters.cursorAll_eq ids 0 with hnone | ⟨id, hid, hnext⟩
    · refine .inl ⟨List.eq_nil_iff_forall_not_mem.mpr ?_, hnone⟩
      intro id hid
      have := Counters.lt_cursorAll hid 0
      omega
    · refine .inr ⟨id, hid, hnext, ?_⟩
      intro id' hid'
      have := Counters.lt_cursorAll hid' 0
      omega

/-- A packet with this id, on its own. -/
def packetSlice (packetId : Nat) : Slice :=
  ⟨(MessageHeader.mk .measurement 0 packetId).serialize, 0, 24⟩

/-- Packet 2 is lost, packets 0 and 1 are overtaken by packet 3. -/
theorem distinct_ids_exact_overtaken :
    ∃ next s, processPackets .debug ([3, 0, 1].map packetSlice)
        (0, 0, Statistic.new ⟨0, 0⟩ .headersOnly) = .ok (next, 3, s) ∧
      s.amountOmittedDatagrams =
        ((List.range next).filter (fun id => decide (id ∉ [3, 0, 1]))).length ∧
      s.amountReorderedDatagrams = 2 := by
  obtain ⟨next, s, hrun, _, homitted, hreordered, _⟩ := distinct_ids_exact .debug [3, 0, 1]
    (by decide) (by decide) ([3, 0, 1].map packetSlice) (by decide +kernel)
    (Statistic.new ⟨0, 0⟩ .headersOnly) rfl
  exact ⟨next, s, hrun, homitted, hreordered⟩

/-- Feed packet ids to `process_packet_number`, as its callers do: the next
packet id and the counters. -/
def processPacketNumbers (build : Build) :
    List Nat → Nat × Statistic → Except Fault (Nat × Statistic)
  | [], acc => .ok acc
  | packetId :: packetIds, (nextPacketId, statistic) => do
    let (increment, statistic) ← processPacketNumber build packetId nextPacketId statistic
    let nextPacketId ← build.u64 (nextPacketId + increment)
    processPacketNumbers build packetIds (nextPacketId, statistic)

theorem processPacketNumbers_arriveAll (build : Build) (ids : List Nat) (next : Nat)
    (s : Statistic) :
    processPacketNumbers build ids (next, s) =
      (Counters.arriveAll build ids next s.counters).map
        (fun (next, c) => (next, s.withCounters c)) := by
  induction ids generalizing next s with
  | nil => rfl
  | cons id ids ih =>
    simp only [processPacketNumbers, processPacketNumber_verdict, Counters.arriveAll,
      Counters.arrive]
    cases s.counters.verdict build id next with
    | error f => rfl
    | ok v =>
      simp only [map_ok, ok_bind]
      cases build.u64 ((next : Int) + v.1) with
      | error f => rfl
      | ok next' =>
        simp only [ok_bind, ih, Statistic.counters_withCounters,
          Statistic.withCounters_withCounters]

/-- A packet behind the cursor closes a gap if there is one. -/
theorem processPacketNumber_late (build : Build) {id next : Nat} {s : Statistic}
    (h0 : 0 ≤ s.amountOmittedDatagrams) (hlt : id < next) :
    processPacketNumber build id next s = .ok (0,
      if s.amountOmittedDatagrams = 0 then
        { s with amountDuplicatedDatagrams := s.amountDuplicatedDatagrams + 1 }
      else
        { s with
          amountOmittedDatagrams := s.amountOmittedDatagrams - 1
          amountReorderedDatagrams := s.amountReorderedDatagrams + 1 }) := by
  unfold processPacketNumber
  rw [if_neg (by omega), if_neg (by omega)]
  by_cases hzero : s.amountOmittedDatagrams = 0
  · rw [if_neg (by omega), if_pos hzero]
  · rw [if_pos (by omega), if_neg hzero]

/-- A packet that comes again is a duplicate if nothing is missing, and else
passes for one of those that are missing. The ids tell which. -/
theorem duplicate_counted (build : Build) (clock : Clock) (p : Parameter) (ids : List Nat)
    (hids : ∀ id ∈ ids, id < 2 ^ 63) :
    ∃ next s, processPacketNumbers build ids (0, Statistic.new clock p) = .ok (next, s) ∧
      0 ≤ s.amountOmittedDatagrams ∧
      (s.amountOmittedDatagrams = 0 ↔ Sequence.CaughtUp ids) ∧
      ∀ id ∈ ids, processPacketNumber build id next s = .ok (0,
        if s.amountOmittedDatagrams = 0 then
          { s with amountDuplicatedDatagrams := s.amountDuplicatedDatagrams + 1 }
        else
          { s with
            amountOmittedDatagrams := s.amountOmittedDatagrams - 1
            amountReorderedDatagrams := s.amountReorderedDatagrams + 1 }) := by
  have hexact : Counters.Exact 0 Counters.zero := ⟨Int.le_refl 0, Int.le_refl 0, Nat.zero_le _⟩
  have h0 : 0 ≤ (Counters.noteAll ids 0 Counters.zero).omitted :=
    Counters.noteAll_nonneg ids 0 (Int.le_refl 0)
  refine ⟨Counters.cursorAll ids 0,
    (Statistic.new clock p).withCounters (Counters.noteAll ids 0 Counters.zero), ?_, h0,
    Counters.omitted_eq_zero_iff ids rfl, ?_⟩
  · rw [processPacketNumbers_arriveAll, Statistic.counters_new,
      Counters.arriveAll_exact build hexact hids, map_ok]
  · intro id hid
    exact processPacketNumber_late build h0 (Counters.lt_cursorAll hid 0)

/-- Packet 0 again, with packet 1 missing and with nothing missing. -/
theorem duplicate_counted_again :
    (∃ next s s', processPacketNumbers .release [0, 2] (0, Statistic.new ⟨0, 0⟩ .headersOnly) =
        .ok (next, s) ∧ processPacketNumber .release 0 next s = .ok (0, s')) ∧
      ∃ next s s', processPacketNumbers .release [0, 1] (0, Statistic.new ⟨0, 0⟩ .headersOnly) =
        .ok (next, s) ∧ processPacketNumber .release 0 next s = .ok (0, s') := by
  obtain ⟨next, s, hrun, _, _, hagain⟩ := duplicate_counted .release ⟨0, 0⟩ .headersOnly [0, 2]
    (by decide)
  obtain ⟨next', s', hrun', _, _, hagain'⟩ := duplicate_counted .release ⟨0, 0⟩ .headersOnly [0, 1]
    (by decide)
  exact ⟨⟨next, s, _, hrun, hagain 0 (by decide)⟩, next', s', _, hrun', hagain' 0 (by decide)⟩

/-- The second packet 0 takes the place of packet 1, which is lost. -/
theorem duplicate_hides_loss :
    (do
      let (next, s) ← processPacketNumbers .release [0, 2] (0, Statistic.new ⟨0, 0⟩ .headersOnly)
      let (increment, s') ← processPacketNumber .release 0 next s
      .ok (increment, s.counters, s'.counters) : Except Fault _) =
        .ok (0, ⟨0, 0, 0, 0, 1⟩, ⟨0, 0, 1, 0, 0⟩) := by
  decide +kernel

end Nperf
