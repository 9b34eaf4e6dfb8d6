import Nperf.Proofs.Losses

namespace Nperf
open Rust Bytes Runs

/-- The ids of the data datagrams, in order. -/
def dataIds (xs : List Memory) : List Nat := (xs.filter isData).map packetId

theorem dataIds_append (xs ys : List Memory) : dataIds (xs ++ ys) = dataIds xs ++ dataIds ys := by
  simp only [dataIds, List.filter_append, List.map_append]

namespace Books

theorem countersOf_noted {b : Books} {testId : Nat} (htest : testId < b.tests.length)
    (ids : List Nat) (bytes u : Nat) : (b.noted testId ids bytes).countersOf u =
      if testId = u then (Counters.noteAll ids b.next (b.countersOf u)).count ids.length bytes
      else b.countersOf u := by
  simp only [noted, countersOf, List.getElem?_modify]
  by_cases hu : testId = u
  · subst hu
    simp [htest]
  · simp [hu]

/-- The books of a receiver that hears of one test only, by the ids that have
come. -/
structure Single (testId : Nat) (ids : List Nat) (b : Books) : Prop where
  next : b.next = Sequence.next 0 ids
  own : ids.Nodup → Counters.Distinct ids (b.countersOf testId)
  others : ∀ u, u ≠ testId → b.countersOf u = Counters.zero

namespace Single
variable {build : Build} {b b' : Books} {testId : Nat} {ids : List Nat} {m : Message}
  {ms : List Message} {result : Except Error Unit}

theorem none (testId : Nat) : Single testId [] ⟨0, []⟩ :=
  ⟨rfl, fun _ => ⟨rfl, rfl, rfl⟩, fun _ _ => rfl⟩

theorem of_eq (h : Single testId ids b) (hnext : b'.next = b.next)
    (hcounters : ∀ u, b'.countersOf u = b.countersOf u) : Single testId ids b' :=
  ⟨hnext.trans h.next, fun hids => hcounters testId ▸ h.own hids,
    fun u hu => (hcounters u).trans (h.others u hu)⟩

theorem control (h : Single testId ids b) (hm : m.mtype ≠ .measurement)
    (ht : m.testId < maxTestId) (hreceive : b.receive build (m :: ms) = .ok (result, b')) :
    Single testId ids b' := by
  cases hmtype : m.mtype with
  | measurement => exact absurd hmtype hm
  | init =>
    rw [receive_init hmtype ht] at hreceive
    cases hreceive
    exact h.of_eq rfl (countersOf_append (counters_grow b.tests m.testId))
  | last =>
    rw [receive_last hmtype ht (receive_last_known hmtype ht hreceive)] at hreceive
    cases hreceive
    exact h.of_eq rfl (countersOf_finish b m.testId)

/-- New packets of the test go on where the others have ended. -/
theorem data (h : Single testId ids b) (hm : m.testId = testId) :
    Single testId (ids ++ (m :: ms).flatMap Message.ids) (b.note (m :: ms)) := by
  have hlt : m.testId < (start b.tests m.testId).length := by
    simp only [start, grow, List.length_modify, List.length_append, List.length_replicate]
    omega
  have hnoted : ∀ u, (b.note (m :: ms)).countersOf u = if m.testId = u then
      (Counters.noteAll ((m :: ms).flatMap Message.ids) b.next (b.countersOf u)).count
        ((m :: ms).flatMap Message.ids).length ((m :: ms).map Message.bytes).sum
      else b.countersOf u := by
    intro u
    rw [← b.countersOf_start m.testId u]
    exact countersOf_noted hlt _ _ u
  refine ⟨?_, ?_, ?_⟩
  · rw [Sequence.next_append, ← h.next]
    rfl
  · intro hids
    have hown := (h.own (List.nodup_append.mp hids).1).noteAll hids
    rw [hnoted, if_pos hm, h.next]
    exact ⟨hown.omitted, hown.reordered, hown.duplicated⟩
  · intro u hu
    rw [hnoted, if_neg (fun h => hu (h.symm.trans hm))]
    exact h.others u hu

/-- Packets that come once are not counted twice. -/
theorem total_duplicated (h : Single testId ids b) (hids : ids.Nodup) :
    b.total.duplicated = 0 := by
  unfold total
  rw [Counters.sum_column Counters.duplicated rfl (fun _ _ => rfl), List.map_map]
  apply List.sum_eq_zero
  intro n hn
  obtain ⟨book, hbook, rfl⟩ := List.mem_map.mp hn
  obtain ⟨u, hu⟩ := List.mem_iff_getElem?.mp hbook
  have hcounters : b.countersOf u = book.counters := by
    simp only [countersOf, hu, Option.map_some, Option.getD_some]
  by_cases htest : u = testId
  · subst htest
    rw [Function.comp_apply, ← hcounters]
    exact (h.own hids).duplicated
  · rw [Function.comp_apply, ← hcounters, h.others u htest]
    rfl

end Single
end Books

namespace Session
variable {build : Build} {plan : Plan} {post : Post} {events : List SessionEvent}
  {wire : List (Nat × Memory)} {s s' : Session}

/-- In a batch of data the ids that are counted are those of the datagrams. -/
theorem told_dataIds {ms : List Message} {datagrams : List (List Memory)}
    (h : List.Forall₂ Message.Tells ms datagrams) :
    ((∀ m ∈ ms, m.mtype = .measurement) → ms.flatMap Message.ids = dataIds datagrams.flatten) ∧
      ((∀ m ∈ ms, m.mtype ≠ .measurement) → dataIds datagrams.flatten = []) := by
  induction h with
  | nil => exact ⟨fun _ => rfl, fun _ => rfl⟩
  | @cons m part ms datagrams htold _ ih =>
    rw [List.flatMap_cons, List.flatten_cons, dataIds_append]
    have hids := htold.ids
    obtain ⟨hspoken, _⟩ := htold
    cases hspoken with
    | control mtype testId hm ht =>
      refine ⟨fun hall => absurd (hall _ List.mem_cons_self) hm, fun hall => ?_⟩
      rw [ih.2 fun m hm => hall m (List.mem_cons_of_mem _ hm)]
      simp [dataIds, isData_controlDatagram hm]
    | data testId bytes x xs ids ht hx hall _ =>
      refine ⟨fun hdata => ?_, fun hnone => absurd rfl (hnone _ List.mem_cons_self)⟩
      have hdataIds : dataIds (x :: xs) = (x :: xs).map packetId := by
        rw [dataIds, List.filter_eq_self.mpr fun y hy => (hall y hy).1]
      rw [ih.1 fun m hm => hdata m (List.mem_cons_of_mem _ hm), hids rfl, hdataIds]

/-- What the only sender sends is for its test. -/
theorem Follows.only_test (h : Follows [plan] post events wire s) {part : List Memory}
    (hpart : part ∈ parts events) {m : Message} (hspoken : m.Says part)
    (hdata : m.mtype = .measurement) : m.testId = plan.testId := by
  obtain ⟨plan', sender, hparty, htest, _⟩ := h.heard_test hpart hspoken hdata
  rw [← htest, List.mem_singleton.mp (List.of_mem_zip hparty).1]

/-- The books of a receiver that is told of one test. -/
structure Replayed (plan : Plan) (post : Post) (events : List SessionEvent)
    (wire : List (Nat × Memory)) (s : Session) : Prop where
  measured : Measured [plan] post events wire s
  single : post.parameter.socketOptions.gro = false → Small (parts events) →
    (∀ e ∈ events, e.unmixed = true) → post.parameter.outputInterval = 0 →
    Books.Single plan.testId (dataIds (parts events).flatten) s.receiver.receiver.books

theorem Replayed.start (plan : Plan) (post : Post) :
    Replayed plan post [] [] (start [plan] post) := by
  obtain ⟨_, hbooks⟩ := Receiver.Listens.new post.created
  have hstart : (Session.start [plan] post).receiver.receiver.books = ⟨0, []⟩ := hbooks
  refine ⟨.start [plan] post, fun _ _ _ _ => ?_⟩
  rw [hstart]
  exact .none plan.testId

/-- What a batch does to the books of the only test. -/
theorem single_moves {testId : Nat} {b b' : Books} {ids : List Nat} {e : ReceiverEvent}
    {ms : List Message} {datagrams : List (List Memory)} (h : Books.Single testId ids b)
    (hbalanced : Balanced b []) (htold : List.Forall₂ Message.Tells ms datagrams)
    (hsmall : Small datagrams) (hunmixed : (SessionEvent.receive e datagrams).unmixed = true)
    (htest : ∀ m ∈ ms, m.mtype = .measurement → m.testId = testId)
    (hmoves : Books.Moves build False b b' ms) :
    Books.Single testId (ids ++ dataIds datagrams.flatten) b' := by
  have hspoken : List.Forall₂ Message.Says ms datagrams := htold.imp fun _ _ htold => htold.1
  have hsane := said_sane hspoken
  obtain ⟨hdata, hcontrol⟩ := told_dataIds htold
  cases hmoves with
  | kept hb =>
    rw [hcontrol (by simp), List.append_nil]
    exact hb ▸ h
  | reset hresets => cases hresets
  | heard ms result hb =>
    cases ms with
    | nil =>
      cases hb
      rw [hcontrol (by simp), List.append_nil]
      exact h
    | cons m ms =>
      have huniform := said_uniform hspoken hunmixed
      have ht := (hsane m List.mem_cons_self).test
      by_cases hm : m.mtype = .measurement
      · rw [← hdata (List.forall_mem_cons.mpr ⟨hm, fun x hx => (huniform x hx).mpr hm⟩)]
        obtain ⟨hnote, _⟩ := hbalanced.receive build hm ht (said_ids hspoken hsmall)
        cases hnote.symm.trans hb
        exact h.data (htest m List.mem_cons_self hm)
      · rw [hcontrol (List.forall_mem_cons.mpr ⟨hm, fun x hx hx' =>
          hm ((huniform x hx).mp hx')⟩), List.append_nil]
        exact h.control hm ht hb

theorem Replayed.receive (h : Replayed plan post events wire s) {e : ReceiverEvent}
    {datagrams : List (List Memory)} (hstep : s.step build (.receive e datagrams) = .ok s') :
    Replayed plan post (events ++ [.receive e datagrams]) wire s' := by
  have hmeasured := h.measured.receive hstep
  obtain ⟨_, ms, hspoken, htold, hmoves⟩ := h.measured.follows.moves hstep
  have hparts : parts (events ++ [.receive e datagrams]) = parts events ++ datagrams := by
    simp [parts]
  have htest : ∀ m ∈ ms, m.mtype = .measurement → m.testId = plan.testId := by
    intro m hm hdata
    obtain ⟨part, hpart, hsay⟩ := Lists.forall₂_mem hspoken hm
    exact hmeasured.follows.only_test (hparts ▸ List.mem_append_right _ hpart) hsay hdata
  refine ⟨hmeasured, ?_⟩
  rw [hparts, List.flatten_append, dataIds_append]
  intro hgro hsmall hunmixed hinterval
  have hsmalls := small_append.mp hsmall
  have hevents : ∀ x ∈ events, x.unmixed = true :=
    fun x hx => hunmixed x (List.mem_append_left _ hx)
  obtain ⟨closed, hbalanced, hclosed⟩ := h.measured.balanced hsmalls.1
  obtain rfl := hclosed hinterval
  rw [show (post.parameter.outputInterval ≠ 0) = False from
    eq_false fun hnot => hnot hinterval] at hmoves
  exact single_moves (h.single hgro hsmalls.1 hevents hinterval) hbalanced (htold hgro) hsmalls.2
    (hunmixed _ (List.mem_append_right _ List.mem_cons_self)) htest hmoves

theorem Replayed.step (h : Replayed plan post events wire s) {e : SessionEvent}
    (hstep : s.step build e = .ok s') :
    Replayed plan post (events ++ [e]) (wire ++ s.transmissions e s') s' := by
  have hold : (∀ x ∈ events ++ [e], x.unmixed = true) → ∀ x ∈ events, x.unmixed = true :=
    fun hall x hx => hall x (List.mem_append_left _ hx)
  have hmeasured := h.measured.step hstep
  cases e with
  | send i e =>
    obtain ⟨_, _, _, _, rfl, _⟩ := step_send hstep
    refine ⟨hmeasured, ?_⟩
    rw [show parts (events ++ [.send i e]) = parts events by simp [parts]]
    exact fun hgro hsmall hall => h.single hgro hsmall (hold hall)
  | network m =>
    obtain ⟨_, _, rfl⟩ := step_network hstep
    refine ⟨hmeasured, ?_⟩
    rw [show parts (events ++ [.network m]) = parts events by simp [parts]]
    exact fun hgro hsmall hall => h.single hgro hsmall (hold hall)
  | receive e datagrams =>
    rw [show s.transmissions (.receive e datagrams) s' = [] from rfl, List.append_nil]
    exact h.receive hstep

theorem run_replayed (h : run (Session.step build) (Session.start [plan] post) events = .ok s) :
    Replayed plan post events (Session.wire build (Session.start [plan] post) events) s := by
  have hreplayed := collect_history (G := fun _ _ => True) (I := Replayed plan post)
    (fun _ _ _ _ _ hs _ hstep => hs.step hstep) (.start plan post)
    (.of_forall (fun _ _ => trivial) _ _) h
  rwa [List.nil_append, List.nil_append] at hreplayed

/-- Without copies on the network no packet of the only sender comes twice. -/
theorem Follows.taken_nodup (h : Follows [plan] post events wire s)
    (honce : duplicated events = []) : (dataIds (parts events).flatten).Nodup := by
  obtain ⟨sender, hsender⟩ := List.length_eq_one_iff.mp h.parties
  have htrace := h.traces 0 plan sender rfl (by simp [hsender])
  have hsent : (dataIds (sentBy 0 wire)).Nodup := by
    rcases htrace.shape with hnil | ⟨data, next, last, hlog, hstream, hlast⟩
    · rw [hnil]
      exact List.nodup_nil
    · have hall : data.filter isData = data :=
        List.filter_eq_self.mpr fun x hx => decide_eq_true (hstream.datagrams x hx).mtype
      have hnone : last.filter isData = [] :=
        List.filter_eq_nil_iff.mpr fun x hx => by simp [hlast x hx]
      rw [hlog, dataIds, List.filter_append, List.filter_cons, hall, hnone,
        isData_controlDatagram (by simp)]
      simpa using hstream.nodup
  have hle : ((parts events).flatten : Multiset Memory) ≤ (sentBy 0 wire : Multiset Memory) := by
    have hbalance := h.accounted.balance
    rw [sentBy_only h.origin]
    simp only [traffic, honce, Multiset.coe_nil, add_zero] at hbalance
    rw [hbalance, add_assoc]
    exact Multiset.le_add_right _ _
  have hids : ((dataIds (parts events).flatten : List Nat) : Multiset Nat) ≤
      (dataIds (sentBy 0 wire) : Multiset Nat) := by
    have hmap := Multiset.map_le_map (f := packetId)
      (Multiset.filter_le_filter (isData · = true) hle)
    simpa [dataIds] using hmap
  exact Multiset.coe_nodup.mp (Multiset.nodup_of_le hids (Multiset.coe_nodup.mpr hsent))

/-- A report on one sender, if the network makes no copies. -/
theorem run_faithful (hwhole : plan.parameter.Whole) (hinterval : post.parameter.outputInterval = 0)
    (hgro : post.parameter.socketOptions.gro = false)
    (hunmixed : ∀ e ∈ events, e.unmixed = true) (honce : duplicated events = [])
    (hrun : run (Session.step build) (Session.start [plan] post) events = .ok s)
    (hnext : ∀ sender ∈ s.senders, sender.sender.nextPacketId ≤ 2 ^ 63) {n : Nat}
    (hn : s.receiver.receiver.nextPacketId = n) :
    s.receiver.report.duplicated = 0 ∧
      s.receiver.report.omitted = dataBelow n (lost events) + dataBelow n s.network ∧
      s.receiver.report.datagrams + s.receiver.report.omitted = n := by
  have hreplayed := run_replayed hrun
  have hfollows := hreplayed.measured.follows
  have hsingle := hreplayed.single hgro (hfollows.small hnext) hunmixed hinterval
  have hduplicated := hsingle.total_duplicated (hfollows.taken_nodup honce)
  obtain ⟨hloss, hcount⟩ := hreplayed.measured.loss hwhole hinterval hgro hunmixed hnext hn
  have hnone : dataBelow n (duplicated events) = 0 := by
    rw [honce]
    rfl
  rw [run_report hinterval hrun hnext]
  simp only [Counters.loss, hduplicated, hnone] at hloss hcount
  refine ⟨hduplicated, ?_, ?_⟩ <;> omega

end Session

/-- If the network makes no copies, the receiver of one sender misses exactly
the packets below its cursor that were lost or are still under way, whatever
the order in which the others came, and reports none of them twice. -/
theorem report_faithful (build : Build) (plan : Plan) (post : Post)
    (hwhole : plan.parameter.Whole) (hinterval : post.parameter.outputInterval = 0)
    (hgro : post.parameter.socketOptions.gro = false) (events : List SessionEvent)
    (hunmixed : ∀ e ∈ events, e.unmixed = true)
    (honce : Session.duplicated events = []) (s : Session)
    (hrun : run (Session.step build) (Session.start [plan] post) events = .ok s)
    (hnext : ∀ sender ∈ s.senders, sender.sender.nextPacketId ≤ 2 ^ 63) :
    let n := s.receiver.receiver.nextPacketId
    s.receiver.report.duplicated = 0 ∧
      s.receiver.report.omitted = dataBelow n (Session.lost events) + dataBelow n s.network ∧
      s.receiver.report.datagrams + s.receiver.report.omitted = n :=
  Session.run_faithful hwhole hinterval hgro hunmixed honce hrun hnext rfl

theorem report_faithful_once :
    let start := Session.start [.headersOnly] .headersOnly
    ∃ s, run (Session.step .debug) start Session.oneLost = .ok s ∧ s.receiver.report.omitted = 1 ∧
      let n := s.receiver.receiver.nextPacketId
      s.receiver.report.duplicated = 0 ∧
        s.receiver.report.omitted =
          dataBelow n (Session.lost Session.oneLost) + dataBelow n s.network ∧
        s.receiver.report.datagrams + s.receiver.report.omitted = n := by
  intro start
  obtain ⟨s, hrun, hloss, hnext⟩ := checked
    (x := run (Session.step .debug) start Session.oneLost)
    (p := fun s => s.receiver.report.omitted = 1 ∧
      ∀ sender ∈ s.senders, sender.sender.nextPacketId ≤ 2 ^ 63) (by decide +kernel)
  exact ⟨s, hrun, hloss, report_faithful .debug .headersOnly .headersOnly (by decide) rfl
    rfl _ (by decide) (by decide) s hrun hnext⟩

end Nperf
