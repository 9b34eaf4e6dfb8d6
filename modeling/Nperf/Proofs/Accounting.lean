import Nperf.Ledger.Balance
import Nperf.Lib.Runs
import Nperf.Model.CommandParser
import Nperf.Model.Uring
import Nperf.Proofs.Receiving

namespace Nperf
open Rust Bytes Runs

/-- One thing that happens to a receiver while it measures. A completion in
normal mode is about the msghdr of its index, the others are about a msghdr
built around the message. -/
inductive Feed
  | recvmsg (d : Delivery)
  | recvmmsg (ds : List Delivery)
  | completed (index : Nat) (d : Delivery)
  | provided (d : Delivery)
  | reset

namespace Feed

def deliveries : Feed → List Delivery
  | recvmsg d => [d]
  | recvmmsg ds => ds
  | completed _ d => [d]
  | provided d => [d]
  | reset => []

/-- The packet ids of a feed, in the order in which they are processed. -/
def ids (f : Feed) : List Nat := f.deliveries.flatMap Delivery.ids

/-- A data message with a known kind of test id and with packet ids that are
not absurd. -/
def Measures (d : Delivery) : Prop :=
  ∃ m, d.read = some m ∧ m.mtype = .measurement ∧ m.testId < maxTestId ∧
    ∀ id ∈ m.ids, id < 2 ^ 63

/-- The kernel fits messages into buffers, fills no more buffers than it is
given, and completes requests of the program. -/
def Admissible (p : Parameter) (f : Feed) : Prop :=
  (∀ d ∈ f.deliveries, Measures d) ∧
  match f with
  | recvmsg d => d.payload.length ≤ p.mss
  | recvmmsg ds => ds.length ≤ p.packetBufferSize ∧ ∀ d ∈ ds, d.payload.length ≤ p.mss
  | completed index d => index < p.packetBufferSize ∧ d.payload.length ≤ p.mss
  | provided _ => p.uringParameter.uringMode ≠ .normal
  | reset => True

/-- The state of a run: the receiver and the statistics of closed intervals. -/
abbrev State := Receiver × List Statistic

def step (build : Build) : State → Clock × Feed → Except Fault State
  | (r, closed), (clock, recvmsg d) => do
    let (_, r) ← r.recvmsg build clock (.ok d)
    .ok (r, closed)
  | (r, closed), (clock, recvmmsg ds) => do
    let (_, r) ← r.recvmmsg build clock (.ok ds)
    .ok (r, closed)
  | (r, closed), (clock, completed index d) => do
    let h ← r.msghdr index
    let r := { r with packetBuffer := r.packetBuffer.setMsghdr index (h.deliver d) }
    let (_, r) ← r.handleRecvmsgReturn build clock (h.receivedBytes d) none index
    .ok (r, closed)
  | (r, closed), (clock, provided d) => do
    let h := providedMsghdr d.payload d.payload.length d.control d.controllen
    let (_, r) ← r.handleRecvmsgReturn build clock d.payload.length (some h) 0
    .ok (r, closed)
  | (r, closed), (clock, reset) =>
    .ok (r.resetStatistics clock, closed ++ r.measurements.map Measurement.statistic)

/-- What holds of a receiver between two feeds. -/
structure Good (p : Parameter) (s : State) : Prop where
  sound : s.1.packetBuffer.Sound p.mss p.packetBufferSize
  nonempty : 0 < p.packetBufferSize
  parameter : s.1.parameter = p
  balanced : Balanced s.1.books (s.2.map Statistic.counters)

theorem Good.new {clock : Clock} {p : Parameter} {r : Receiver}
    (h : Receiver.new clock p = .ok r) : Good p (r, []) := by
  obtain ⟨hsound, hsize, hparam, hnext, hms⟩ := Receiver.new_ok h
  refine ⟨hsound, hsize, hparam, ?_⟩
  have hbooks : r.books = ⟨0, []⟩ := by simp only [Receiver.books, hnext, hms, List.map_nil]
  simp only [hbooks]
  exact ⟨rfl, by simp [Books.all], Int.le_refl 0, Nat.zero_le _⟩

theorem provided_holds {d : Delivery} {m : Message} (hd : d.read = some m) :
    (providedMsghdr d.payload d.payload.length d.control d.controllen).Holds m := by
  obtain ⟨h24, h32, hseg, htail, hmtype, htest, hids, hbytes⟩ := Delivery.read_ok hd
  have hsize : singlePacketSize
      (providedMsghdr d.payload d.payload.length d.control d.controllen) m.bytes = d.segment := by
    simp only [singlePacketSize, Delivery.segment, hbytes, asU32_fits h32]
    rfl
  refine ⟨rfl, h24, Nat.le_refl _, Nat.le_of_eq hbytes, by omega, hmtype, htest, ?_, ?_, ?_⟩
  · rw [hsize]
    exact hseg
  · rw [hsize, hbytes]
    exact htail
  · rw [hsize, hids, hbytes]
    rfl

theorem measures_all {ds : List Delivery} (h : ∀ d ∈ ds, Measures d) :
    ∃ ms, ds.mapM Delivery.read = some ms ∧ ds.flatMap Delivery.ids = ms.flatMap Message.ids ∧
      (∀ m ∈ ms, m.mtype = .measurement ∧ m.testId < maxTestId) ∧
      ∀ id ∈ ms.flatMap Message.ids, id < 2 ^ 63 := by
  induction ds with
  | nil => exact ⟨[], rfl, rfl, by simp, by simp⟩
  | cons d ds ih =>
    obtain ⟨hd, hds⟩ := List.forall_mem_cons.mp h
    obtain ⟨m, hread, hmtype, htest, hids⟩ := hd
    obtain ⟨ms, hreads, hflat, hall, hrest⟩ := ih hds
    refine ⟨m :: ms, mapM_read_cons.mpr ⟨m, ms, hread, hreads, rfl⟩, ?_, ?_, ?_⟩
    · have hm : d.ids = m.ids := by
        obtain ⟨_, _, _, _, _, _, hm, _⟩ := Delivery.read_ok hread
        exact hm.symm
      simp only [List.flatMap_cons, hflat, hm]
    · exact List.forall_mem_cons.mpr ⟨⟨hmtype, htest⟩, hall⟩
    · intro id hid
      rcases List.mem_append.mp (List.flatMap_cons ▸ hid) with hid | hid
      · exact hids id hid
      · exact hrest id hid

theorem measures_one {d : Delivery} (h : Measures d) :
    ∃ m, d.read = some m ∧ [d].flatMap Delivery.ids = [m].flatMap Message.ids ∧
      m.mtype = .measurement ∧ m.testId < maxTestId ∧
      ∀ id ∈ [m].flatMap Message.ids, id < 2 ^ 63 := by
  have hone : ∀ d' ∈ [d], Measures d' := fun d' hd => List.mem_singleton.mp hd ▸ h
  obtain ⟨ms, hreads, hflat, hall, hids⟩ := measures_all hone
  obtain ⟨m, rest, hread, hrest, rfl⟩ := mapM_read_cons.mp hreads
  obtain rfl : [] = rest := by simpa using hrest
  obtain ⟨hmtype, htest⟩ := hall m List.mem_cons_self
  exact ⟨m, hread, hflat, hmtype, htest, hids⟩

/-- Data messages that a receive function enters into the books keep it good. -/
theorem Good.entered {p : Parameter} {r : Receiver} {closed : List Statistic}
    (hg : Good p (r, closed)) {build : Build} {x : Except Fault (Except Error Unit × Receiver)}
    {m : Message} {ms : List Message} (hx : x.map Nperf.entered = r.books.receive build (m :: ms))
    (hframe : ∀ result r', x = .ok (result, r') → r.Frame p.mss p.packetBufferSize r')
    (hm : m.mtype = .measurement) (htest : m.testId < maxTestId)
    (hids : ∀ id ∈ (m :: ms).flatMap Message.ids, id < 2 ^ 63) :
    ∃ r', x = .ok (.ok (), r') ∧ Good p (r', closed) ∧ r'.books = r.books.note (m :: ms) := by
  obtain ⟨hb, hbal⟩ := hg.balanced.receive build hm htest hids
  obtain ⟨r', hr, hbooks⟩ := entered_ok (hx.trans hb)
  obtain ⟨hsound, hparam⟩ := hframe _ _ hr
  refine ⟨r', hr, ⟨hsound, hg.nonempty, hparam.trans hg.parameter, ?_⟩, hbooks⟩
  simp only [hbooks]
  exact hbal

theorem next_note {r r' : Receiver} {f : Feed} {m : Message} {ms : List Message}
    (hbooks : r'.books = r.books.note (m :: ms)) (hflat : f.ids = (m :: ms).flatMap Message.ids) :
    r'.nextPacketId = Counters.cursorAll f.ids r.nextPacketId := by
  rw [hflat]
  exact congrArg Books.next hbooks

section
variable {p : Parameter} {r : Receiver} {closed : List Statistic} (hg : Good p (r, closed))
  (build : Build) (clock : Clock)
include hg

theorem Good.recvmsg {d : Delivery} (hd : Measures d) (hfit : d.payload.length ≤ p.mss) :
    ∃ s', step build (r, closed) (clock, .recvmsg d) = .ok s' ∧ Good p s' ∧
      s'.1.nextPacketId = Counters.cursorAll (recvmsg d).ids r.nextPacketId := by
  obtain ⟨m, hread, hflat, hmtype, htest, hids⟩ := measures_one hd
  obtain ⟨r', hr, hgood, hbooks⟩ := hg.entered
    (Receiver.recvmsg_books hg.sound hg.nonempty hread hfit build clock)
    (fun _ _ h => Receiver.recvmsg_frame hg.sound h) hmtype htest hids
  exact ⟨(r', closed), by simp only [step, hr, ok_bind], hgood, next_note hbooks hflat⟩

theorem Good.recvmmsg {ds : List Delivery} (hd : ∀ d ∈ ds, Measures d)
    (hlen : ds.length ≤ p.packetBufferSize) (hfit : ∀ d ∈ ds, d.payload.length ≤ p.mss) :
    ∃ s', step build (r, closed) (clock, .recvmmsg ds) = .ok s' ∧ Good p s' ∧
      s'.1.nextPacketId = Counters.cursorAll (recvmmsg ds).ids r.nextPacketId := by
  obtain ⟨ms, hreads, hflat, hmeasure, hids⟩ := measures_all hd
  have hx := Receiver.recvmmsg_books hg.sound hreads hlen hfit build clock
  cases ms with
  | nil =>
    obtain ⟨r', hr, hbooks⟩ := entered_ok hx
    obtain ⟨hsound, hparam⟩ := Receiver.recvmmsg_frame hg.sound hr
    refine ⟨(r', closed), by simp only [step, hr, ok_bind],
      ⟨hsound, hg.nonempty, hparam.trans hg.parameter, ?_⟩, ?_⟩
    · simp only [hbooks]
      exact hg.balanced
    · rw [ids, deliveries, hflat]
      exact congrArg Books.next hbooks
  | cons m ms =>
    obtain ⟨hmtype, htest⟩ := hmeasure m List.mem_cons_self
    obtain ⟨r', hr, hgood, hbooks⟩ := hg.entered hx
      (fun _ _ h => Receiver.recvmmsg_frame hg.sound h) hmtype htest hids
    exact ⟨(r', closed), by simp only [step, hr, ok_bind], hgood, next_note hbooks hflat⟩

/-- The kernel fills the msghdr first, which the books do not see. -/
theorem Good.completed {index : Nat} {d : Delivery} (hd : Measures d)
    (hindex : index < p.packetBufferSize) (hfit : d.payload.length ≤ p.mss) :
    ∃ s', step build (r, closed) (clock, .completed index d) = .ok s' ∧ Good p s' ∧
      s'.1.nextPacketId = Counters.cursorAll (completed index d).ids r.nextPacketId := by
  have hsound : r.packetBuffer.Sound p.mss p.packetBufferSize := hg.sound
  obtain ⟨m, hread, hflat, hmtype, htest, hids⟩ := measures_one hd
  obtain ⟨h, hh, hhsound⟩ := hsound.msghdr_ok hindex
  obtain ⟨hholds, hbytes⟩ := hhsound.holds hread hfit
  have hset := hsound.setMsghdr (hhsound.deliver d) index
  have hfetch : (r.packetBuffer.setMsghdr index (h.deliver d)).getMsghdrFromIndex index =
      .ok (h.deliver d) := by
    have hlt : index < r.packetBuffer.mmsghdrVec.length := hsound.size ▸ hindex
    simp [PacketBuffer.getMsghdrFromIndex, PacketBuffer.setMsghdr, hlt]
  have hgood : Good p
      ({ r with packetBuffer := r.packetBuffer.setMsghdr index (h.deliver d) }, closed) :=
    ⟨hset, hg.nonempty, hg.parameter, hg.balanced⟩
  have hagain : ∀ ms, Receiver.processedMsghdr { r with
      packetBuffer := r.packetBuffer.setMsghdr index (h.deliver d), measurements := ms }
      (h.deliver d) index = .ok (h.deliver d) := by
    intro ms
    simp only [Receiver.processedMsghdr, Receiver.msghdr, hfetch]
    split <;> rfl
  obtain ⟨r', hr, hgood, hbooks⟩ := hgood.entered
    (Receiver.handleRecvmsgReturn_books hholds none index
      (by simp only [Receiver.completedMsghdr, Receiver.msghdr, hfetch]) hagain build clock)
    (fun _ _ h => Receiver.handleRecvmsgReturn_frame hset h) hmtype htest hids
  refine ⟨(r', closed), ?_, hgood, next_note hbooks hflat⟩
  simp only [step, Receiver.msghdr, hh, ok_bind, hbytes, hr]

theorem Good.provided {d : Delivery} (hd : Measures d)
    (hmode : p.uringParameter.uringMode ≠ .normal) :
    ∃ s', step build (r, closed) (clock, .provided d) = .ok s' ∧ Good p s' ∧
      s'.1.nextPacketId = Counters.cursorAll (provided d).ids r.nextPacketId := by
  obtain ⟨m, hread, hflat, hmtype, htest, hids⟩ := measures_one hd
  obtain ⟨_, _, _, _, _, _, _, hbytes⟩ := Delivery.read_ok hread
  have hparam : r.parameter = p := hg.parameter
  rw [← hparam] at hmode
  obtain ⟨r', hr, hgood, hbooks⟩ := hg.entered
    (Receiver.handleRecvmsgReturn_books (provided_holds hread) (some _) 0 rfl
      (fun _ => if_neg hmode) build clock)
    (fun _ _ h => Receiver.handleRecvmsgReturn_frame hg.sound h) hmtype htest hids
  rw [hbytes] at hr
  exact ⟨(r', closed), by simp only [step, hr, ok_bind], hgood, next_note hbooks hflat⟩

theorem Good.reset :
    ∃ s', step build (r, closed) (clock, .reset) = .ok s' ∧ Good p s' ∧
      s'.1.nextPacketId = r.nextPacketId := by
  refine ⟨_, rfl, ⟨hg.sound, hg.nonempty, hg.parameter, ?_⟩, rfl⟩
  have hbooks : (r.resetStatistics clock).books = r.books.reset := by
    simp only [Receiver.resetStatistics, Receiver.books, Books.reset, List.map_map]
    rfl
  have hclosed : (closed ++ r.measurements.map Measurement.statistic).map Statistic.counters =
      r.books.all (closed.map Statistic.counters) := by
    simp only [Books.all, Receiver.books, List.map_append, List.map_map]
    rfl
  simp only [hbooks, hclosed]
  exact hg.balanced.reset

end

theorem step_good {p : Parameter} {s : State} (hg : Good p s) (build : Build) (clock : Clock)
    {f : Feed} (hf : f.Admissible p) :
    ∃ s', step build s (clock, f) = .ok s' ∧ Good p s' ∧
      s'.1.nextPacketId = Counters.cursorAll f.ids s.1.nextPacketId := by
  obtain ⟨hall, hfit⟩ := hf
  cases f with
  | recvmsg d => exact hg.recvmsg build clock (hall d List.mem_cons_self) hfit
  | recvmmsg ds => exact hg.recvmmsg build clock hall hfit.1 hfit.2
  | completed index d =>
    exact hg.completed build clock (hall d List.mem_cons_self) hfit.1 hfit.2
  | provided d => exact hg.provided build clock (hall d List.mem_cons_self) hfit
  | reset => exact hg.reset build clock

/-- A receiver is never stopped by admissible feeds, and stays good. -/
theorem run_good {p : Parameter} {s : State} (hg : Good p s) (build : Build)
    {feeds : List (Clock × Feed)} (hf : ∀ e ∈ feeds, e.2.Admissible p) :
    ∃ s', run (step build) s feeds = .ok s' ∧ Good p s' ∧
      s'.1.nextPacketId =
        Counters.cursorAll (feeds.flatMap (fun e => e.2.ids)) s.1.nextPacketId := by
  induction feeds generalizing s with
  | nil => exact ⟨s, rfl, hg, rfl⟩
  | cons e feeds ih =>
    obtain ⟨clock, f⟩ := e
    obtain ⟨hfirst, hrest⟩ := List.forall_mem_cons.mp hf
    obtain ⟨t, ht, hgt, hnt⟩ := step_good hg build clock hfirst
    obtain ⟨s', hs, hgs, hns⟩ := ih hgt hrest
    refine ⟨s', run_cons_ok.mpr ⟨t, ht, hs⟩, hgs, ?_⟩
    rw [hns, hnt, List.flatMap_cons, Counters.cursorAll_append]

end Feed

/-- Every packet is accounted for, over all tests and all intervals: received
or missing, and once too often for every duplicate. -/
theorem packet_balance (build : Build) (clock : Clock) (p : Parameter) (r₀ : Receiver)
    (hnew : Receiver.new clock p = .ok r₀) (feeds : List (Clock × Feed))
    (hfeeds : ∀ e ∈ feeds, e.2.Admissible p) :
    ∃ r closed, run (Feed.step build) (r₀, []) feeds = .ok (r, closed) ∧
      let all := closed ++ r.measurements.map Measurement.statistic
      let ids := feeds.flatMap (fun e => e.2.ids)
      (all.map (fun s => (s.amountDatagrams : Int))).sum +
          (all.map Statistic.amountOmittedDatagrams).sum =
        r.nextPacketId + (all.map (fun s => (s.amountDuplicatedDatagrams : Int))).sum ∧
      (∀ id ∈ ids, id < r.nextPacketId) ∧
      (ids = [] ∧ r.nextPacketId = 0 ∨ ∃ id ∈ ids, r.nextPacketId = id + 1) ∧
      ∀ s ∈ all, 0 ≤ s.amountOmittedDatagrams := by
  obtain ⟨_, _, _, hnext, _⟩ := Receiver.new_ok hnew
  obtain ⟨⟨r, closed⟩, hrun, hg, hcursor⟩ := Feed.run_good (Feed.Good.new hnew) build hfeeds
  simp only [hnext] at hcursor
  have hall : r.books.all (closed.map Statistic.counters) =
      (closed ++ r.measurements.map Measurement.statistic).map Statistic.counters := by
    simp only [Books.all, Receiver.books, List.map_append, List.map_map]
    rfl
  refine ⟨r, closed, hrun, ?_, ?_, ?_, ?_⟩
  · have hw := hg.balanced.weight
    rw [hall, List.map_map] at hw
    have hsplit : ∀ l : List Statistic, (l.map (Counters.weight ∘ Statistic.counters)).sum +
        (l.map (fun s => (s.amountDuplicatedDatagrams : Int))).sum =
        (l.map (fun s => (s.amountDatagrams : Int))).sum +
          (l.map Statistic.amountOmittedDatagrams).sum := by
      intro l
      rw [← Lists.sum_map_add, ← Lists.sum_map_add]
      congr 1
      apply List.map_congr_left
      intro s _
      simp only [Function.comp, Counters.weight, Statistic.counters]
      omega
    have hs := hsplit (closed ++ r.measurements.map Measurement.statistic)
    rw [hw] at hs
    exact hs.symm
  · intro id hid
    rw [hcursor]
    exact Counters.lt_cursorAll hid 0
  · rcases Counters.cursorAll_eq (feeds.flatMap (fun e => e.2.ids)) 0 with h | ⟨id, hid, h⟩
    · refine Or.inl ⟨List.eq_nil_iff_forall_not_mem.mpr ?_, hcursor.trans h⟩
      intro id hid
      have := Counters.lt_cursorAll hid 0
      omega
    · exact Or.inr ⟨id, hid, hcursor.trans h⟩
  · intro s hs
    have := hg.balanced.nonneg s.counters (hall ▸ List.mem_map_of_mem hs)
    exact this

theorem Feed.measures_packet {testId packetId : Nat} (ht : testId < maxTestId)
    (hp : packetId < 2 ^ 63) : Measures (.packet .measurement testId packetId) := by
  simp only [maxTestId] at ht
  exact ⟨_, Delivery.read_packet .measurement (by omega) (by omega), rfl, ht, by simpa using hp⟩

/-- A packet ahead of the cursor, an interval, and the packet it had overtaken. -/
theorem packet_balance_reordered :
    ∃ r closed, run (Feed.step .debug)
        ((Receiver.new ⟨0, 0⟩ Parameter.headersOnly).toOption.get (by decide), [])
        [(⟨0, 0⟩, .recvmsg (.packet .measurement 1 1)), (⟨1, 1⟩, .reset),
          (⟨2, 2⟩, .recvmsg (.packet .measurement 1 0))] = .ok (r, closed) ∧
      ∀ s ∈ closed ++ r.measurements.map Measurement.statistic, 0 ≤ s.amountOmittedDatagrams := by
  obtain ⟨r, closed, hrun, _, _, _, hnonneg⟩ := packet_balance .debug ⟨0, 0⟩ Parameter.headersOnly
    ((Receiver.new ⟨0, 0⟩ Parameter.headersOnly).toOption.get (by decide)) rfl
    [(⟨0, 0⟩, .recvmsg (.packet .measurement 1 1)), (⟨1, 1⟩, .reset),
      (⟨2, 2⟩, .recvmsg (.packet .measurement 1 0))] (by
    simp only [List.forall_mem_cons, Feed.Admissible, Feed.deliveries, List.not_mem_nil,
      false_implies, implies_true, and_true]
    exact ⟨⟨Feed.measures_packet (by decide) (by decide), by decide⟩, trivial,
      Feed.measures_packet (by decide) (by decide), by decide⟩)
  exact ⟨r, closed, hrun, hnonneg⟩

end Nperf
