import Nperf.Proofs.Accounting

namespace Nperf
open Rust Bytes Runs

/-- The test a message belongs to, by its header. -/
def Delivery.testId (d : Delivery) : Nat := load d.payload 8 8

/-- A data message, as its header and its segments say. -/
def Delivery.message (d : Delivery) : Message := ⟨.measurement, d.testId, d.ids, d.payload.length⟩

def Receiver.recvStep (build : Build) (r : Receiver) (e : Clock × Delivery) :
    Except Fault Receiver := do
  let (_, r) ← r.recvmsg build e.1 (.ok e.2)
  .ok r

namespace Isolation

/-- The counters of a test after a list of messages. -/
def observe (testId : Nat) : List Message → Nat → Counters → Counters
  | [], _, c => c
  | m :: ms, next, c =>
    observe testId ms (Counters.cursorAll m.ids next)
      (if m.testId = testId then
        (Counters.noteAll m.ids next c).count m.ids.length m.bytes
      else c)

def ownMessages (testId : Nat) (ms : List Message) : List Message :=
  ms.filter (fun m => m.testId == testId)

theorem ownMessages_own {m : Message} {testId : Nat} (h : m.testId = testId) (ms : List Message) :
    ownMessages testId (m :: ms) = m :: ownMessages testId ms := by
  simp [ownMessages, h]

theorem ownMessages_other {m : Message} {testId : Nat} (h : m.testId ≠ testId)
    (ms : List Message) : ownMessages testId (m :: ms) = ownMessages testId ms := by
  simp [ownMessages, h]

/-- What the gaps of a test come to. -/
def deficit (c : Counters) : Int := c.omitted - c.duplicated

theorem deficit_noteAll (ids : List Nat) (next k bytes : Nat) (c : Counters) :
    deficit ((Counters.noteAll ids next c).count k bytes) + ids.length =
      deficit c + (Counters.cursorAll ids next - next : Nat) :=
  (Counters.noteAll_moves ids next c).1

/-- Under a cursor that is ahead of its own a test ends with a smaller
deficit than alone, and no later message makes up for it. -/
theorem deficit_grows (testId : Nat) (ms : List Message) {own next : Nat} (h : own ≤ next)
    (alone shared : Counters) :
    let gain := deficit (observe testId (ownMessages testId ms) own alone) - deficit alone -
      (deficit (observe testId ms next shared) - deficit shared)
    0 ≤ gain ∧
      (own = 0 → 0 < next → (∃ m ∈ ms, m.testId = testId ∧ m.ids ≠ []) → 0 < gain) := by
  induction ms generalizing own next alone shared with
  | nil => simp [ownMessages, observe]
  | cons m ms ih =>
    have hcursor := Counters.cursorAll_max m.ids h
    have hown := Counters.le_cursorAll m.ids own
    by_cases hm : m.testId = testId
    · have hle : Counters.cursorAll m.ids own ≤ Counters.cursorAll m.ids next := by omega
      have hrest := ih hle
        ((Counters.noteAll m.ids own alone).count m.ids.length m.bytes)
        ((Counters.noteAll m.ids next shared).count m.ids.length m.bytes)
      have halone := deficit_noteAll m.ids own m.ids.length m.bytes alone
      have hshared := deficit_noteAll m.ids next m.ids.length m.bytes shared
      simp only [ownMessages_own hm, observe, hm, ↓reduceIte] at hrest ⊢
      refine ⟨by omega, ?_⟩
      rintro rfl hnext ⟨m', hm', htest, hids⟩
      -- the first message of the test with a packet in it makes the difference
      by_cases hnil : m.ids = []
      · have hlater : ∃ m' ∈ ms, m'.testId = testId ∧ m'.ids ≠ [] := by
          rcases List.mem_cons.mp hm' with rfl | hm'
          · exact absurd hnil hids
          · exact ⟨m', hm', htest, hids⟩
        have hgain := hrest.2 (by rw [hnil]; rfl) (by omega) hlater
        omega
      · obtain ⟨id, hid⟩ := List.exists_mem_of_ne_nil _ hnil
        have hpos := Counters.lt_cursorAll hid 0
        omega
    · have hle : own ≤ Counters.cursorAll m.ids next := by omega
      have hrest := ih hle alone shared
      simp only [ownMessages_other hm, observe, hm, ↓reduceIte] at hrest ⊢
      refine ⟨hrest.1, ?_⟩
      rintro hzero hnext ⟨m', hm', htest, hids⟩
      rcases List.mem_cons.mp hm' with rfl | hm'
      · exact absurd htest hm
      · exact hrest.2 hzero (by omega) ⟨m', hm', htest, hids⟩

theorem observe_other {testId : Nat} {ms : List Message} (h : ∀ m ∈ ms, m.testId ≠ testId)
    (next : Nat) (c : Counters) : observe testId ms next c = c := by
  induction ms generalizing next c with
  | nil => rfl
  | cons m ms ih =>
    obtain ⟨hm, hms⟩ := List.forall_mem_cons.mp h
    simp only [observe, hm, ↓reduceIte]
    exact ih hms _ c

/-- Messages that have packets are counted for each test as if it ran alone
exactly if all of them are of the same test. -/
theorem tally_iff {ms : List Message} (hids : ∀ m ∈ ms, m.ids ≠ []) :
    (∀ testId, (observe testId ms 0 Counters.zero).tally =
        (observe testId (ownMessages testId ms) 0 Counters.zero).tally) ↔
      ∀ m ∈ ms, ∀ m' ∈ ms, m.testId = m'.testId := by
  cases ms with
  | nil => simp [ownMessages]
  | cons m ms =>
    obtain ⟨hfirst, hrest⟩ := List.forall_mem_cons.mp hids
    constructor
    · intro h
      have hother : ∀ m' ∈ ms, m'.testId = m.testId := by
        intro m' hm'
        apply Classical.byContradiction
        intro hne
        obtain ⟨id, hid⟩ := List.exists_mem_of_ne_nil _ hfirst
        have hpos := Counters.lt_cursorAll hid 0
        have hgain := (deficit_grows m'.testId ms (Nat.zero_le (Counters.cursorAll m.ids 0))
          Counters.zero Counters.zero).2 rfl (by omega) ⟨m', hm', rfl, hrest m' hm'⟩
        have htally := h m'.testId
        rw [ownMessages_other (Ne.symm hne)] at htally
        simp only [observe, Ne.symm hne, ↓reduceIte] at htally
        obtain ⟨_, homitted, _, hduplicated⟩ := Counters.tally_inj.mp htally
        simp only [deficit] at hgain
        omega
      have hall : ∀ m' ∈ m :: ms, m'.testId = m.testId := List.forall_mem_cons.mpr ⟨rfl, hother⟩
      exact fun a ha b hb => (hall a ha).trans (hall b hb).symm
    · intro h testId
      by_cases hm : m.testId = testId
      · have hall : ownMessages testId (m :: ms) = m :: ms :=
          List.filter_eq_self.mpr
            (fun m' hm' => by simpa [hm] using h m' hm' m List.mem_cons_self)
        rw [hall]
      · have hne : ∀ m' ∈ m :: ms, m'.testId ≠ testId :=
          fun m' hm' => h m' hm' m List.mem_cons_self ▸ hm
        have hnone : ownMessages testId (m :: ms) = [] :=
          List.filter_eq_nil_iff.mpr (fun m' hm' => by simpa using hne m' hm')
        rw [observe_other hne, hnone]
        rfl

end Isolation

theorem Books.countersOf_note (b : Books) (m : Message) (testId : Nat) :
    (b.note [m]).countersOf testId =
      if m.testId = testId then
        (Counters.noteAll m.ids b.next (b.countersOf testId)).count m.ids.length m.bytes
      else b.countersOf testId := by
  have hlt : m.testId < (Books.start b.tests m.testId).length := by
    simp only [Books.start, Books.grow, List.length_modify, List.length_append,
      List.length_replicate]
    omega
  have hids : [m].flatMap Message.ids = m.ids := by simp
  have hsum : ([m].map Message.bytes).sum = m.bytes := by simp
  rw [← b.countersOf_start m.testId testId]
  simp only [Books.note, hids, hsum, Books.noted, Books.countersOf, List.getElem?_modify]
  by_cases hm : m.testId = testId
  · subst testId
    simp [hlt]
  · simp [hm]

theorem Feed.Measures.read {d : Delivery} (h : Feed.Measures d) : d.read = some d.message := by
  obtain ⟨m, hm, hmtype, _, _⟩ := h
  obtain ⟨_, _, _, _, _, htest, hids, hbytes⟩ := Delivery.read_ok hm
  rw [hm, Delivery.message, Delivery.testId, htest, ← hids, ← hbytes, ← hmtype]

theorem Feed.Good.recvStep {p : Parameter} {r : Receiver} (hg : Feed.Good p (r, []))
    (build : Build) {e : Clock × Delivery} (hd : Feed.Measures e.2)
    (hfit : e.2.payload.length ≤ p.mss) :
    ∃ r', r.recvStep build e = .ok r' ∧ Feed.Good p (r', []) ∧
      r'.books = r.books.note [e.2.message] := by
  obtain ⟨m, hm, hmtype, htest, hids⟩ := id hd
  obtain rfl : e.2.message = m := Option.some.inj (hd.read.symm.trans hm)
  obtain ⟨r', hr, hgood, hbooks⟩ := hg.entered
    (Receiver.recvmsg_books hg.sound hg.nonempty hm hfit build e.1)
    (fun _ _ h => Receiver.recvmsg_frame hg.sound h) hmtype htest (by simpa using hids)
  exact ⟨r', by simp only [Receiver.recvStep, hr, ok_bind], hgood, hbooks⟩

theorem Feed.Good.recvRun {p : Parameter} {r : Receiver} (hg : Feed.Good p (r, []))
    (build : Build) (arrivals : List (Clock × Delivery))
    (ha : ∀ e ∈ arrivals, Feed.Measures e.2 ∧ e.2.payload.length ≤ p.mss) :
    ∃ r', run (Receiver.recvStep build) r arrivals = .ok r' ∧ ∀ testId,
      r'.books.countersOf testId =
        Isolation.observe testId (arrivals.map (fun e => e.2.message)) r.nextPacketId
          (r.books.countersOf testId) := by
  induction arrivals generalizing r with
  | nil => exact ⟨r, rfl, fun _ => rfl⟩
  | cons e arrivals ih =>
    obtain ⟨⟨hd, hfit⟩, hrest⟩ := List.forall_mem_cons.mp ha
    obtain ⟨t, ht, hgt, hbooks⟩ := hg.recvStep build hd hfit
    obtain ⟨r', hr, hcounters⟩ := ih hgt hrest
    refine ⟨r', run_cons_ok.mpr ⟨t, ht, hr⟩, ?_⟩
    intro testId
    have hnext : t.nextPacketId = Counters.cursorAll e.2.message.ids r.nextPacketId := by
      have := congrArg Books.next hbooks
      simpa [Books.note, Books.noted, Receiver.books] using this
    rw [hcounters, hbooks, Books.countersOf_note, hnext]
    rfl

/-- Tests at one receiver are counted as if each ran alone exactly if there is
only one. -/
theorem tests_isolated_iff (build : Build) (clock : Clock) (p : Parameter) (r₀ : Receiver)
    (hnew : Receiver.new clock p = .ok r₀) (arrivals : List (Clock × Delivery))
    (ha : ∀ e ∈ arrivals, Feed.Measures e.2 ∧ e.2.payload.length ≤ p.mss) :
    ∃ r, run (Receiver.recvStep build) r₀ arrivals = .ok r ∧
      ((∀ testId, ∃ alone,
          run (Receiver.recvStep build) r₀ (arrivals.filter (fun e => e.2.testId == testId)) =
            .ok alone ∧ r.tallyOf testId = alone.tallyOf testId) ↔
        ∀ e ∈ arrivals, ∀ e' ∈ arrivals, e.2.testId = e'.2.testId) := by
  obtain ⟨_, _, _, hnext, hms⟩ := Receiver.new_ok hnew
  have hgood := Feed.Good.new hnew
  have hzero : ∀ testId, r₀.books.countersOf testId = Counters.zero := by
    intro testId
    simp [Books.countersOf, Receiver.books, hms]
  have halone : ∀ testId, ∃ alone,
      run (Receiver.recvStep build) r₀ (arrivals.filter (fun e => e.2.testId == testId)) =
        .ok alone ∧ alone.books.countersOf testId = Isolation.observe testId
          (Isolation.ownMessages testId (arrivals.map (fun e => e.2.message))) 0 Counters.zero := by
    intro testId
    obtain ⟨alone, hrun, hcounters⟩ := hgood.recvRun build
      (arrivals.filter (fun e => e.2.testId == testId))
      (fun e he => ha e (List.mem_filter.mp he).1)
    refine ⟨alone, hrun, ?_⟩
    rw [hcounters, hnext, hzero, Isolation.ownMessages, List.filter_map]
    rfl
  obtain ⟨r, hrun, hcounters⟩ := hgood.recvRun build arrivals ha
  refine ⟨r, hrun, ?_⟩
  have hids : ∀ m ∈ arrivals.map (fun e => e.2.message), m.ids ≠ [] := by
    intro m hm
    obtain ⟨e, he, rfl⟩ := List.mem_map.mp hm
    exact Delivery.read_ids_ne_nil (ha e he).1.read
  have htests : (∀ e ∈ arrivals, ∀ e' ∈ arrivals, e.2.testId = e'.2.testId) ↔
      ∀ m ∈ arrivals.map (fun e => e.2.message), ∀ m' ∈ arrivals.map (fun e => e.2.message),
        m.testId = m'.testId := by
    simp only [List.forall_mem_map]
    rfl
  rw [htests, ← Isolation.tally_iff hids]
  apply forall_congr'
  intro testId
  obtain ⟨alone, hrun', hcounters'⟩ := halone testId
  rw [← hcounters', ← hzero testId, ← hnext, ← hcounters, ← Receiver.tallyOf_books,
    ← Receiver.tallyOf_books]
  constructor
  · rintro ⟨other, hother, h⟩
    cases hrun'.symm.trans hother
    exact h
  · intro h
    exact ⟨alone, hrun', h⟩

/-- Two packets of one test, the second one first. -/
theorem tests_isolated_reordered :
    let r₀ := (Receiver.new ⟨0, 0⟩ Parameter.headersOnly).toOption.get (by decide)
    let arrivals : List (Clock × Delivery) :=
      [(⟨0, 0⟩, .packet .measurement 3 1), (⟨1, 1⟩, .packet .measurement 3 0)]
    ∃ r alone, run (Receiver.recvStep .debug) r₀ arrivals = .ok r ∧
      run (Receiver.recvStep .debug) r₀ (arrivals.filter (fun e => e.2.testId == 3)) =
        .ok alone ∧ r.tallyOf 3 = alone.tallyOf 3 := by
  intro r₀ arrivals
  obtain ⟨r, hrun, hiff⟩ := tests_isolated_iff .debug ⟨0, 0⟩ Parameter.headersOnly r₀ rfl
    arrivals (by
    simp only [arrivals, List.forall_mem_cons, List.not_mem_nil, false_implies, implies_true,
      and_true]
    exact ⟨⟨Feed.measures_packet (by decide) (by decide), by decide⟩,
      Feed.measures_packet (by decide) (by decide), by decide⟩)
  obtain ⟨alone, halone, htally⟩ := hiff.mpr (by decide) 3
  exact ⟨r, alone, hrun, halone, htally⟩

/-- Two senders with test ids 0 and 1, one packet each: the second one is
taken for a duplicate. -/
theorem tests_not_isolated :
    let r₀ := (Receiver.new ⟨0, 0⟩ Parameter.headersOnly).toOption.get (by decide)
    ∃ r alone, run (Receiver.recvStep .debug) r₀
          [(⟨0, 0⟩, .packet .measurement 0 0), (⟨0, 0⟩, .packet .measurement 1 0)] = .ok r ∧
        run (Receiver.recvStep .debug) r₀ [(⟨0, 0⟩, .packet .measurement 1 0)] = .ok alone ∧
        r.tallyOf 1 = (1, 0, 0, 1) ∧ alone.tallyOf 1 = (1, 0, 0, 0) :=
  ⟨_, _, rfl, rfl, rfl, rfl⟩

end Nperf
