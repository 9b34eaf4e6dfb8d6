import Nperf.Ledger.Counters

namespace Nperf
open Rust Bytes

theorem asI64_wraps (n : Nat) : ∃ z : Int, asI64 n = n + z * 2 ^ 64 := by
  unfold asI64
  split
  · exact ⟨0, by omega⟩
  · exact ⟨-1, by omega⟩

namespace Counters

/-- A verdict moves the cursor by one more than the balance of missing and
duplicated packets, modulo 2^64. -/
theorem verdict_wraps {build : Build} {id next increment : Nat} {c c' : Counters}
    (h : c.verdict build id next = .ok (increment, c')) :
    ∃ z : Int, (increment : Int) =
      c'.omitted - c'.duplicated - (c.omitted - c.duplicated) + 1 + z * 2 ^ 64 := by
  unfold verdict at h
  split at h
  · cases h
    exact ⟨0, by omega⟩
  split at h
  · simp only [bind_ok] at h
    obtain ⟨omitted, homitted, inc, hinc, h⟩ := h
    cases h
    obtain ⟨z, hz⟩ := i64_wraps homitted
    obtain ⟨z', hz'⟩ := u64_wraps hinc
    obtain ⟨z'', hz''⟩ := asI64_wraps (id - next)
    exact ⟨z' - z - z'', by simp only; omega⟩
  split at h
  · cases h
    exact ⟨0, by simp only; omega⟩
  · cases h
    exact ⟨0, by simp only; omega⟩

/-- The packets of a whole buffer: each is compared with the same cursor, and
the increments add up. -/
def sweep (build : Build) (next : Nat) (packets : List Slice) (amount : Nat) (c : Counters) :
    Except Fault (Nat × Counters) :=
  packets.foldlM (fun (amount, c) packet => do
    let id ← MessageHeader.getPacketId packet
    let (increment, c) ← c.verdict build id next
    let amount ← build.u64 ((amount : Int) + increment)
    .ok (amount, c)) (amount, c)

/-- What a sweep adds up is the number of packets and the balance of missing and
duplicated ones, modulo 2^64. -/
theorem sweep_wraps {build : Build} {next : Nat} {packets : List Slice} {amount amount' : Nat}
    {c c' : Counters} (h : sweep build next packets amount c = .ok (amount', c')) :
    (∃ z : Int, (amount' : Int) = amount + packets.length +
      (c'.omitted - c'.duplicated - (c.omitted - c.duplicated)) + z * 2 ^ 64) ∧
      c'.datagrams = c.datagrams := by
  induction packets generalizing amount c with
  | nil =>
    cases h
    exact ⟨⟨0, by simp⟩, rfl⟩
  | cons packet packets ih =>
    simp only [sweep, List.foldlM_cons, bind_ok] at h
    obtain ⟨⟨a, d⟩, ⟨id, _, ⟨increment, d'⟩, hverdict, a', ha, hd⟩, h⟩ := h
    cases hd
    obtain ⟨z, hz⟩ := verdict_wraps hverdict
    obtain ⟨z', hz'⟩ := u64_wraps ha
    obtain ⟨⟨z'', hz''⟩, hrest⟩ := ih h
    refine ⟨⟨z + z' + z'', ?_⟩, hrest.trans (verdict_counted hverdict)⟩
    simp only [List.length_cons] at hz hz'' ⊢
    omega

/-- Only a packet with the expected id moves the cursor by one. -/
theorem verdict_expected {build : Build} {id next increment : Nat} {c c' : Counters}
    (hid : id < 2 ^ 63) (h : c.verdict build id next = .ok (increment, c'))
    (hone : ∃ z : Int, (increment : Int) = 1 + z * 2 ^ 64) : id = next := by
  obtain ⟨z, hz⟩ := hone
  unfold verdict at h
  split at h
  · assumption
  split at h
  · simp only [bind_ok] at h
    obtain ⟨_, _, inc, hinc, h⟩ := h
    cases h
    obtain ⟨z', hz'⟩ := u64_wraps hinc
    omega
  split at h
  · cases h
    omega
  · cases h
    omega

end Counters

theorem processPacket_verdict (build : Build) (packet : Slice) (next : Nat) (s : Statistic) :
    processPacket build packet next s =
      (MessageHeader.getPacketId packet >>= fun id => s.counters.verdict build id next).map
        (fun (increment, c) => (increment, s.withCounters c)) := by
  unfold processPacket
  cases MessageHeader.getPacketId packet with
  | error f => rfl
  | ok id => exact processPacketNumber_verdict build id next s

/-- `process_packet_buffer` sweeps the buffer. -/
theorem processPacketBuffer_sweep (build : Build) (buffer : Slice) (size next : Nat)
    (s : Statistic) :
    processPacketBuffer build buffer size next s =
      (buffer.chunks size >>= fun packets => Counters.sweep build next packets 0 s.counters).map
        (fun (amount, c) => (amount, s.withCounters c)) := by
  unfold processPacketBuffer
  cases buffer.chunks size with
  | error f => rfl
  | ok packets =>
    simp only [ok_bind]
    generalize 0 = amount
    induction packets generalizing amount s with
    | nil => rfl
    | cons packet packets ih =>
      simp only [Counters.sweep, List.foldlM_cons]
      rw [processPacket_verdict build packet next s]
      cases MessageHeader.getPacketId packet with
      | error f => rfl
      | ok id =>
        simp only [ok_bind]
        cases s.counters.verdict build id next with
        | error f => rfl
        | ok v =>
          simp only [map_ok, ok_bind]
          cases build.u64 ((amount : Int) + v.1) with
          | error f => rfl
          | ok amount' => exact ih (s.withCounters v.2) amount'

end Nperf
