import Nperf.Lib.Sequence
import Nperf.Model.Util

namespace Nperf
open Rust Bytes

/-- The part of a statistic that receiving a packet can change. -/
structure Counters where
  datagrams : Nat
  bytes : Nat
  reordered : Nat
  duplicated : Nat
  omitted : Int
  deriving DecidableEq, Repr

def Counters.zero : Counters := ⟨0, 0, 0, 0, 0⟩

namespace Statistic

def counters (s : Statistic) : Counters :=
  { datagrams := s.amountDatagrams
    bytes := s.amountDataBytes
    reordered := s.amountReorderedDatagrams
    duplicated := s.amountDuplicatedDatagrams
    omitted := s.amountOmittedDatagrams }

def withCounters (s : Statistic) (c : Counters) : Statistic :=
  { s with
    amountDatagrams := c.datagrams
    amountDataBytes := c.bytes
    amountReorderedDatagrams := c.reordered
    amountDuplicatedDatagrams := c.duplicated
    amountOmittedDatagrams := c.omitted }

@[simp] theorem counters_withCounters (s : Statistic) (c : Counters) :
    (s.withCounters c).counters = c := rfl

@[simp] theorem withCounters_withCounters (s : Statistic) (c d : Counters) :
    (s.withCounters c).withCounters d = s.withCounters d := rfl

theorem counters_omitted (s : Statistic) : s.counters.omitted = s.amountOmittedDatagrams := rfl

@[simp] theorem counters_new (clock : Clock) (p : Parameter) :
    (Statistic.new clock p).counters = Counters.zero := rfl

end Statistic

namespace Counters

/-- The verdict on one packet id, with the program's arithmetic: it is at the
cursor, ahead of it, or behind it. Returns how far the cursor moves. -/
def verdict (build : Build) (id next : Nat) (c : Counters) : Except Fault (Nat × Counters) :=
  if id = next then .ok (1, c)
  else if next < id then do
    let omitted ← build.i64 (c.omitted + asI64 (id - next))
    let increment ← build.u64 (((id - next : Nat) : Int) + 1)
    .ok (increment, { c with omitted := omitted })
  else if 0 < c.omitted then
    .ok (0, { c with omitted := c.omitted - 1, reordered := c.reordered + 1 })
  else .ok (0, { c with duplicated := c.duplicated + 1 })

/-- One packet, with the cursor it leaves. -/
def arrive (build : Build) (id next : Nat) (c : Counters) : Except Fault (Nat × Counters) := do
  let (increment, c) ← c.verdict build id next
  let next ← build.u64 ((next : Int) + increment)
  .ok (next, c)

def arriveAll (build : Build) : List Nat → Nat → Counters → Except Fault (Nat × Counters)
  | [], next, c => .ok (next, c)
  | id :: ids, next, c => do
    let (next, c) ← c.arrive build id next
    arriveAll build ids next c

theorem arriveAll_append (build : Build) (ids ids' : List Nat) (next : Nat) (c : Counters) :
    arriveAll build (ids ++ ids') next c =
      arriveAll build ids next c >>= fun (next, c) => arriveAll build ids' next c := by
  induction ids generalizing next c with
  | nil => rfl
  | cons id ids ih =>
    simp only [List.cons_append, arriveAll]
    cases c.arrive build id next with
    | error f => rfl
    | ok p => exact ih p.1 p.2

/-- The verdict in exact arithmetic. -/
def note (id next : Nat) (c : Counters) : Counters :=
  if id = next then c
  else if next < id then { c with omitted := c.omitted + (id - next : Nat) }
  else if 0 < c.omitted then { c with omitted := c.omitted - 1, reordered := c.reordered + 1 }
  else { c with duplicated := c.duplicated + 1 }

/-- The cursor after an id: one more than the largest seen. -/
def cursor (id next : Nat) : Nat := max next (id + 1)

def cursorAll (ids : List Nat) (next : Nat) : Nat := ids.foldl (fun next id => cursor id next) next

def noteAll : List Nat → Nat → Counters → Counters
  | [], _, c => c
  | id :: ids, next, c => noteAll ids (cursor id next) (c.note id next)

/-- What keeps the arithmetic exact: missing packets are below the cursor, and
the cursor is in the range of `i64`. -/
structure Exact (next : Nat) (c : Counters) : Prop where
  nonneg : 0 ≤ c.omitted
  below : c.omitted ≤ next
  range : next ≤ 2 ^ 63

theorem Exact.note {c : Counters} {id next : Nat} (h : Exact next c) (hid : id < 2 ^ 63) :
    Exact (cursor id next) (c.note id next) := by
  obtain ⟨h0, hb, hr⟩ := h
  simp only [Counters.note, cursor]
  split
  · exact ⟨h0, by omega, by omega⟩
  · split
    · exact ⟨by simp only; omega, by simp only; omega, by omega⟩
    · split
      · exact ⟨by simp only; omega, by simp only; omega, by omega⟩
      · exact ⟨h0, by simp only; omega, by omega⟩

theorem u64_add (build : Build) {m n : Nat} (h : m + n < 2 ^ 64) :
    build.u64 ((m : Int) + n) = .ok (m + n) := by
  rw [show (m : Int) + n = ((m + n : Nat) : Int) by omega]
  exact u64_fits build h

/-- What the arithmetic of one verdict needs to be exact: the cursor fits in
64 bits, and the number of missing packets in 63. -/
structure Fits (id next : Nat) (c : Counters) : Prop where
  nonneg : 0 ≤ c.omitted
  cursor : cursor id next < 2 ^ 64
  omitted : (c.note id next).omitted < 2 ^ 63

theorem Exact.fits {c : Counters} {id next : Nat} (h : Exact next c) (hid : id < 2 ^ 63) :
    Fits id next c := by
  have hr := h.range
  have h0 := h.nonneg
  have hb := h.below
  refine ⟨h0, ?_, ?_⟩
  · simp only [Counters.cursor]
    omega
  · simp only [Counters.note]
    split
    · omega
    · split
      · simp only
        omega
      · split
        · simp only
          omega
        · simp only
          omega

theorem verdict_fits (build : Build) {c : Counters} {id next : Nat} (h : Fits id next c) :
    c.verdict build id next = .ok (cursor id next - next, c.note id next) := by
  obtain ⟨h0, hc, ho⟩ := h
  unfold verdict
  unfold note cursor at *
  by_cases hid : id = next
  · subst id
    rw [if_pos rfl, if_pos rfl, Nat.max_eq_right (by omega), Nat.add_sub_cancel_left]
  · rw [if_neg hid] at ho
    rw [if_neg hid, if_neg hid]
    by_cases hgt : next < id
    · rw [if_pos hgt] at ho
      simp only at ho
      have hinc : build.u64 (((id - next : Nat) : Int) + (1 : Nat)) = .ok (id - next + 1) :=
        u64_add build (by omega)
      rw [Int.natCast_one] at hinc
      rw [if_pos hgt, if_pos hgt, asI64_fits (by omega), i64_fits build (by omega) ho, ok_bind,
        hinc, ok_bind, Nat.max_eq_right (by omega), Nat.sub_add_comm (by omega)]
    · rw [if_neg hgt, if_neg hgt, Nat.max_eq_left (by omega), Nat.sub_self]
      split <;> rfl

theorem arrive_fits (build : Build) {c : Counters} {id next : Nat} (h : Fits id next c) :
    c.arrive build id next = .ok (cursor id next, c.note id next) := by
  have hle : next ≤ cursor id next := Nat.le_max_left _ _
  have hlt : next + (cursor id next - next) < 2 ^ 64 := by
    rw [Nat.add_sub_cancel' hle]
    exact h.cursor
  unfold arrive
  rw [verdict_fits build h, ok_bind]
  dsimp only
  rw [u64_add build hlt, ok_bind, Nat.add_sub_cancel' hle]

theorem arrive_exact (build : Build) {c : Counters} {id next : Nat} (h : Exact next c)
    (hid : id < 2 ^ 63) : c.arrive build id next = .ok (cursor id next, c.note id next) :=
  arrive_fits build (h.fits hid)

theorem arriveAll_exact (build : Build) {ids : List Nat} {next : Nat} {c : Counters}
    (h : Exact next c) (hids : ∀ id ∈ ids, id < 2 ^ 63) :
    arriveAll build ids next c = .ok (cursorAll ids next, noteAll ids next c) := by
  induction ids generalizing next c with
  | nil => rfl
  | cons id ids ih =>
    have hid := hids id List.mem_cons_self
    simp only [arriveAll, arrive_exact build h hid, ok_bind]
    exact ih (h.note hid) (fun i hi => hids i (List.mem_cons_of_mem id hi))

theorem Exact.noteAll {ids : List Nat} {next : Nat} {c : Counters} (h : Exact next c)
    (hids : ∀ id ∈ ids, id < 2 ^ 63) : Exact (cursorAll ids next) (noteAll ids next c) := by
  induction ids generalizing next c with
  | nil => exact h
  | cons id ids ih =>
    exact ih (h.note (hids id List.mem_cons_self))
      (fun i hi => hids i (List.mem_cons_of_mem id hi))

theorem noteAll_append (ids ids' : List Nat) (next : Nat) (c : Counters) :
    noteAll (ids ++ ids') next c = noteAll ids' (cursorAll ids next) (noteAll ids next c) := by
  induction ids generalizing next c with
  | nil => rfl
  | cons id ids ih => exact ih (cursor id next) (c.note id next)

/-- Every packet is counted, moves the cursor, or closes a gap; only a moved
cursor opens one, and not over the packet that moved it. -/
theorem note_moves (id next : Nat) (c : Counters) :
    (c.note id next).omitted - (c.note id next).duplicated + 1 =
        c.omitted - c.duplicated + (cursor id next - next : Nat) ∧
      (c.note id next).omitted ≤ c.omitted + (cursor id next - next - 1 : Nat) := by
  simp only [note, cursor]
  split
  · omega
  · split
    · simp only
      omega
    · split
      · simp only
        omega
      · simp only
        omega

theorem note_counted (id next : Nat) (c : Counters) :
    (c.note id next).datagrams = c.datagrams ∧ (c.note id next).bytes = c.bytes := by
  unfold note
  split
  · exact ⟨rfl, rfl⟩
  · split
    · exact ⟨rfl, rfl⟩
    · split <;> exact ⟨rfl, rfl⟩

theorem le_cursorAll (ids : List Nat) (next : Nat) : next ≤ cursorAll ids next :=
  Sequence.le_next next ids

theorem cursorAll_append (ids ids' : List Nat) (next : Nat) :
    cursorAll (ids ++ ids') next = cursorAll ids' (cursorAll ids next) :=
  Sequence.next_append next ids ids'

theorem noteAll_moves (ids : List Nat) (next : Nat) (c : Counters) :
    (noteAll ids next c).omitted - (noteAll ids next c).duplicated + ids.length =
        c.omitted - c.duplicated + (cursorAll ids next - next : Nat) ∧
      (noteAll ids next c).omitted ≤ c.omitted + (cursorAll ids next - next - 1 : Nat) := by
  induction ids generalizing next c with
  | nil => simp [noteAll, cursorAll]
  | cons id ids ih =>
    obtain ⟨hbalance, homitted⟩ := note_moves id next c
    obtain ⟨hbalance', homitted'⟩ := ih (cursor id next) (c.note id next)
    have hle := le_cursorAll ids (cursor id next)
    have hfirst : next ≤ cursor id next := Nat.le_max_left _ _
    have hcursor : cursorAll (id :: ids) next = cursorAll ids (cursor id next) := rfl
    simp only [noteAll, List.length_cons, hcursor]
    omega

theorem noteAll_counted (ids : List Nat) (next : Nat) (c : Counters) :
    (noteAll ids next c).datagrams = c.datagrams ∧ (noteAll ids next c).bytes = c.bytes := by
  induction ids generalizing next c with
  | nil => exact ⟨rfl, rfl⟩
  | cons id ids ih =>
    obtain ⟨hd, hb⟩ := note_counted id next c
    obtain ⟨hd', hb'⟩ := ih (cursor id next) (c.note id next)
    exact ⟨hd'.trans hd, hb'.trans hb⟩

theorem lt_cursorAll {ids : List Nat} {id : Nat} (h : id ∈ ids) (next : Nat) :
    id < cursorAll ids next :=
  Sequence.lt_next h next

theorem cursorAll_max (ids : List Nat) {own next : Nat} (h : own ≤ next) :
    cursorAll ids next = max next (cursorAll ids own) :=
  Sequence.next_max ids h

/-- The cursor moves only to the place behind an id. -/
theorem cursorAll_eq (ids : List Nat) (next : Nat) :
    cursorAll ids next = next ∨ ∃ id ∈ ids, cursorAll ids next = id + 1 :=
  Sequence.next_eq next ids

/-- Add what a whole message is counted for. -/
def count (c : Counters) (datagrams bytes : Nat) : Counters :=
  { c with datagrams := c.datagrams + datagrams, bytes := c.bytes + bytes }

theorem verdict_count (build : Build) (id next k bytes : Nat) (c : Counters) :
    (c.count k bytes).verdict build id next =
      (c.verdict build id next).map (fun (i, c) => (i, c.count k bytes)) := by
  have homitted : (c.count k bytes).omitted = c.omitted := rfl
  simp only [verdict, homitted]
  by_cases hid : id = next
  · rw [if_pos hid, if_pos hid, map_ok]
  · by_cases hgt : next < id
    · rw [if_neg hid, if_neg hid, if_pos hgt, if_pos hgt]
      cases build.i64 (c.omitted + asI64 (id - next)) with
      | error f => rfl
      | ok omitted =>
        cases build.u64 (((id - next : Nat) : Int) + 1) with
        | error f => rfl
        | ok increment => rfl
    · by_cases hom : 0 < c.omitted
      · rw [if_neg hid, if_neg hid, if_neg hgt, if_neg hgt, if_pos hom, if_pos hom]
        rfl
      · rw [if_neg hid, if_neg hid, if_neg hgt, if_neg hgt, if_neg hom, if_neg hom]
        rfl

/-- Counting packets and classifying them do not touch each other. -/
theorem arriveAll_count (build : Build) (ids : List Nat) (next k bytes : Nat) (c : Counters) :
    arriveAll build ids next (c.count k bytes) =
      (arriveAll build ids next c).map (fun (next, c) => (next, c.count k bytes)) := by
  induction ids generalizing next c with
  | nil => rfl
  | cons id ids ih =>
    simp only [arriveAll, arrive, verdict_count]
    cases c.verdict build id next with
    | error f => rfl
    | ok v =>
      simp only [map_ok, ok_bind]
      cases build.u64 ((next : Int) + v.1) with
      | error f => rfl
      | ok next' => exact ih next' v.2

theorem verdict_counted {build : Build} {id next increment : Nat} {c c' : Counters}
    (h : c.verdict build id next = .ok (increment, c')) : c'.datagrams = c.datagrams := by
  unfold verdict at h
  split at h
  · cases h
    rfl
  · split at h
    · simp only [bind_ok] at h
      obtain ⟨omitted, _, i, _, h⟩ := h
      cases h
      rfl
    · split at h <;> cases h <;> rfl

theorem arriveAll_counted {build : Build} {ids : List Nat} {next next' : Nat} {c c' : Counters}
    (h : arriveAll build ids next c = .ok (next', c')) : c'.datagrams = c.datagrams := by
  induction ids generalizing next c with
  | nil =>
    cases h
    rfl
  | cons id ids ih =>
    simp only [arriveAll, arrive, bind_ok] at h
    obtain ⟨v, ⟨w, hw, n, _, hv⟩, h⟩ := h
    cases hv
    exact (ih h).trans (verdict_counted hw)

end Counters

theorem processPacketNumber_verdict (build : Build) (id next : Nat) (s : Statistic) :
    processPacketNumber build id next s =
      (s.counters.verdict build id next).map (fun (i, c) => (i, s.withCounters c)) := by
  unfold processPacketNumber Counters.verdict
  split
  · rfl
  · by_cases hgt : next < id
    · rw [if_pos hgt, if_pos hgt, Statistic.counters_omitted]
      dsimp only
      cases build.i64 (s.amountOmittedDatagrams + asI64 (id - next)) with
      | error f => rfl
      | ok omitted =>
        cases build.u64 (((id - next : Nat) : Int) + 1) with
        | error f => rfl
        | ok increment => rfl
    · rw [if_neg hgt, if_neg hgt]
      by_cases hom : 0 < s.amountOmittedDatagrams
      · rw [if_pos hom, if_pos (s.counters_omitted ▸ hom)]
        rfl
      · rw [if_neg hom, if_neg (s.counters_omitted ▸ hom)]
        rfl

theorem processPackets_cons (build : Build) (packet : Slice) (packets : List Slice) {id : Nat}
    (h : MessageHeader.getPacketId packet = .ok id) (next received : Nat) (s : Statistic) :
    processPackets build (packet :: packets) (next, received, s) =
      (s.counters.arrive build id next >>= fun (next, c) =>
        processPackets build packets (next, received + 1, s.withCounters c)) := by
  simp only [processPackets, processPacket, h, ok_bind, Counters.arrive,
    processPacketNumber_verdict]
  cases s.counters.verdict build id next with
  | error f => rfl
  | ok v =>
    simp only [map_ok, ok_bind]
    cases build.u64 ((next : Int) + v.1) with
    | error f => rfl
    | ok next' => rfl

/-- Packets are counted by their ids alone. -/
theorem processPackets_arriveAll (build : Build) {packets : List Slice} {ids : List Nat}
    (h : packets.map MessageHeader.getPacketId = ids.map .ok) (next received : Nat)
    (s : Statistic) :
    processPackets build packets (next, received, s) =
      (Counters.arriveAll build ids next s.counters).map
        (fun (next, c) => (next, received + ids.length, s.withCounters c)) := by
  induction packets generalizing ids next received s with
  | nil =>
    cases ids with
    | nil => rfl
    | cons id ids => cases h
  | cons packet packets ih =>
    cases ids with
    | nil => cases h
    | cons id ids =>
      obtain ⟨hid, hrest⟩ := List.cons.inj h
      rw [processPackets_cons build packet packets hid, Counters.arriveAll]
      cases s.counters.arrive build id next with
      | error f => rfl
      | ok v =>
        simp only [ok_bind]
        rw [ih hrest]
        simp only [Statistic.counters_withCounters, Statistic.withCounters_withCounters,
          List.length_cons, Nat.add_assoc, Nat.add_comm 1]

end Nperf
