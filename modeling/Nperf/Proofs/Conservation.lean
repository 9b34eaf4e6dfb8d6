import Mathlib.Algebra.BigOperators.Group.List.Basic
import Nperf.Proofs.Exchange

namespace Nperf
open Rust Bytes Runs

/-- The data datagrams among others. -/
def dataAmong (xs : Multiset Memory) : Nat := xs.countP (isData · = true)

theorem dataAmong_append (xs ys : List Memory) :
    dataAmong (xs ++ ys : List Memory) = dataAmong xs + dataAmong ys := by
  rw [← Multiset.coe_add]
  exact Multiset.countP_add _ _ _

theorem dataAmong_all {xs : List Memory} (h : ∀ x ∈ xs, isData x = true) :
    dataAmong xs = xs.length :=
  Multiset.countP_eq_card.mpr fun x hx => h x (Multiset.mem_coe.mp hx)

theorem dataAmong_control {mtype : MessageType} (hm : mtype ≠ .measurement) (testId : Nat) :
    dataAmong [controlDatagram mtype testId] = 0 := by
  simp [dataAmong, Multiset.countP_eq_zero, isData_controlDatagram hm]

theorem Parameter.Stream.dataAmong {p : Parameter} {testId first next : Nat} {data : List Memory}
    (h : p.Stream testId first next data) : dataAmong data = data.length :=
  dataAmong_all fun x hx => decide_eq_true (h.datagrams x hx).mtype

namespace SenderRun
variable {p : Parameter} {testId : Nat} {s s' : SenderRun} {log : List Memory}

theorem coordinated_noData {r : Sender} (hs : r.Streams p testId) (hp : p.Sends)
    {mtype : MessageType} (hm : mtype ≠ .measurement) (kernel : Except Error Unit) :
    dataAmong (r.coordinated mtype kernel) = 0 := by
  rw [hs.coordinated hp]
  cases kernel with
  | ok u => exact dataAmong_control hm testId
  | error e => rfl

/-- What a send call counts is what it puts on the wire, if messages leave
whole. -/
theorem send_counted {r r' : Sender} {socket : Sender.Socket} {result : Except Error Unit}
    (hp : p.Sends) (hwhole : p.Whole) (hs : r.Streams p testId)
    (h : r.sendMessages socket = .ok (result, r')) : r'.statistic.amountDatagrams =
      r.statistic.amountDatagrams +
        dataAmong ((r'.accepted socket).flatMap p.socketOptions.segments) := by
  have hcounted := hs.counted hp h
  cases result with
  | ok u =>
    obtain ⟨_, hstream⟩ := hs.accepted hp h
    have hlen := congrArg List.length (hstream.whole hwhole)
    rw [List.length_map, List.length_range'] at hlen
    rw [hcounted, if_pos rfl, hstream.dataAmong, hlen]
  | error e =>
    obtain ⟨_, hnone, _⟩ := hs.refused hp h
    rw [hcounted, if_neg (by simp), hnone]
    rfl

theorem sent_counted (r : Sender) (startTime : Timestamp) (result : Except Error Unit) :
    (sent r startTime result).counted .datagrams = r.statistic.amountDatagrams := by
  cases result with
  | ok u => rfl
  | error e => cases e <;> rfl

/-- A sender counts what it transmits, in every step. -/
theorem step_counted (hp : p.Sends) (hwhole : p.Whole) (ht : Trace p testId log s)
    {e : SenderRunEvent} (h : s.step e = .ok s') (hgood : s'.Good) :
    s'.counted .datagrams - s.counted .datagrams = dataAmong (s.transmitted e s') := by
  unfold step at h
  split at h
  · rename_i r clock clock' init setup
    cases h
    have hcounted := (start_carries clock clock' init setup r .datagrams).1
    have hnone := coordinated_noData ht.1 hp (show MessageType.init ≠ .measurement by simp) init
    change _ = dataAmong (r.coordinated .init init)
    rw [hcounted, hnone]
    exact Nat.sub_self _
  · rename_i r startTime time clock
    change _ = 0
    split at h
    · cases h
      have hchecks := Sender.closeInterval_checks clock r .datagrams
      simp only [Checked] at hchecks
      change (r.closeInterval clock).counted .datagrams - r.counted .datagrams = 0
      split at hchecks
      · rw [hchecks.1, Nat.zero_sub]
      · rw [hchecks.1, Nat.sub_self]
    · cases h
      exact Nat.sub_self _
  · rename_i r startTime socket
    obtain ⟨⟨result, r'⟩, hsend, h⟩ := bind_ok.mp (lift_ok.mp h)
    cases h
    have hcounted := send_counted hp hwhole ht.1 hsend
    rw [transmitted_send (sendMessages_parameter hp ht hsend), sent_counted, hcounted]
    exact Nat.add_sub_cancel_left _ _
  · rename_i r startTime result
    cases h
    change _ = 0
    cases ioWait r.parameter.ioModel result <;> exact Nat.sub_self _
  · cases ht
  · rename_i r clock last
    obtain ⟨hcounted, _⟩ := finish_account (lift_ok.mp h) hgood .datagrams
    have hnone := coordinated_noData ht.1 hp (show MessageType.last ≠ .measurement by simp) last
    change _ = dataAmong (r.coordinated .last last)
    rw [hcounted, hnone]
    exact Nat.sub_self _
  · cases h

end SenderRun

namespace Books

/-- What all tests together have counted. -/
def held (b : Books) : Nat := (b.tests.map (fun book => book.counters.datagrams)).sum

theorem held_of_counters {tests tests' : List Book} {k : Nat} {next next' : Nat}
    (h : tests'.map Book.counters = tests.map Book.counters ++ List.replicate k Counters.zero) :
    held ⟨next', tests'⟩ = held ⟨next, tests⟩ := by
  have hsum := congrArg (fun cs : List Counters => (cs.map Counters.datagrams).sum) h
  simp only [List.map_append, List.map_map, List.map_replicate, List.sum_append] at hsum
  simpa [held, Function.comp_def, Counters.zero] using hsum

theorem held_enter {build : Build} {b b' : Books} {testId bytes : Nat} {ids : List Nat}
    (h : b.enter build testId ids bytes = .ok b') : b'.held = b.held + ids.length := by
  unfold enter at h
  split at h
  · cases h
  · rename_i book hbook
    obtain ⟨⟨next, c⟩, hc, h⟩ := bind_ok.mp h
    cases h
    have hset := Lists.sum_set_nat hbook (fun book => book.counters.datagrams)
      { book with counters := c.count ids.length bytes }
    have hcounted := Counters.arriveAll_counted hc
    simp only [held, Counters.count] at hset ⊢
    omega

/-- What a batch is counted for. -/
def counted : List Message → Nat
  | [] => 0
  | m :: ms => if m.mtype = .measurement then ((m :: ms).flatMap Message.ids).length else 0

theorem counted_cons (m : Message) (ms : List Message) : counted (m :: ms) =
    if m.mtype = .measurement then ((m :: ms).flatMap Message.ids).length else 0 := rfl

theorem held_receive {build : Build} {b b' : Books} {ms : List Message}
    {result : Except Error Unit} (hsane : ∀ m ∈ ms, Sane m)
    (h : b.receive build ms = .ok (result, b')) : b'.held = b.held + counted ms := by
  cases ms with
  | nil =>
    cases h
    rfl
  | cons m ms =>
    have htest := (hsane m List.mem_cons_self).test
    rw [counted_cons]
    cases hm : m.mtype with
    | init =>
      rw [receive_init hm htest] at h
      cases h
      exact held_of_counters (counters_grow b.tests m.testId)
    | measurement =>
      rw [receive_measurement hm htest] at h
      obtain ⟨b₁, henter, h⟩ := map_eq_ok.mp h
      cases h
      have hstart : held { b with tests := start b.tests m.testId } = b.held :=
        held_of_counters (counters_start b.tests m.testId)
      rw [held_enter henter, hstart]
      rfl
    | last =>
      rw [receive_last hm htest (receive_last_known hm htest h)] at h
      cases h
      refine held_of_counters (k := 0) ?_
      rw [finish, counters_modify (f := fun b : Book => { b with finished := true })
        (fun _ => rfl), List.replicate_zero, List.append_nil]

theorem held_reset (b : Books) : b.reset.held = 0 := by
  simp [held, reset, Function.comp_def, Counters.zero]

theorem Moves.held {build : Build} {resets : Prop} {b b' : Books} {ms : List Message}
    (h : Moves build resets b b' ms) (hsane : ∀ m ∈ ms, Sane m) :
    b'.held - b.held = counted ms := by
  cases h with
  | kept hb =>
    subst hb
    exact Nat.sub_self _
  | reset hresets hb =>
    rw [hb, held_reset, Nat.zero_sub]
    rfl
  | heard ms result hb =>
    rw [held_receive hsane hb]
    exact Nat.add_sub_cancel_left _ _

end Books

theorem Receiver.counted_held (r : Receiver) : r.counted .datagrams = r.books.held := by
  simp only [counted, amounts, Books.held, books, List.map_map]
  rfl

/-- Of the datagrams of a message all are data or none. -/
theorem Message.Tells.dataAmong {m : Message} {part : List Memory} (h : m.Tells part) :
    dataAmong part = if m.mtype = .measurement then m.ids.length else 0 := by
  obtain ⟨hspoken, hlength⟩ := h
  cases hspoken with
  | control mtype testId hm ht =>
    rw [dataAmong_control hm]
    exact (if_neg hm).symm
  | data testId bytes x xs ids ht hx hall hids =>
    rw [dataAmong_all fun y hy => (hall y hy).1]
    exact hlength.symm

/-- What a message is counts for its datagrams. -/
theorem Message.Says.isData {m : Message} {part : List Memory} (h : m.Says part) :
    ∃ x ∈ part, Nperf.isData x = decide (m.mtype = .measurement) := by
  cases h with
  | control mtype testId hm ht =>
    refine ⟨_, List.mem_cons_self, ?_⟩
    rw [isData_controlDatagram hm]
    exact (decide_eq_false hm).symm
  | data testId bytes x xs ids ht hx hall hids =>
    exact ⟨x, List.mem_cons_self, (hall x List.mem_cons_self).1⟩

/-- In an unmixed batch the first message says what the others are. -/
theorem said_uniform {e : ReceiverEvent} {m : Message} {ms : List Message}
    {datagrams : List (List Memory)} (h : List.Forall₂ Message.Says (m :: ms) datagrams)
    (hunmixed : (SessionEvent.receive e datagrams).unmixed = true) :
    ∀ x ∈ ms, (x.mtype = .measurement ↔ m.mtype = .measurement) := by
  intro x hx
  have hkinds : ∀ y ∈ m :: ms, ∃ d ∈ datagrams.flatten,
      isData d = decide (y.mtype = .measurement) := by
    intro y hy
    obtain ⟨part, hpart, hspoken⟩ := Lists.forall₂_mem h hy
    obtain ⟨d, hd, hkind⟩ := hspoken.isData
    exact ⟨d, List.mem_flatten.mpr ⟨part, hpart, hd⟩, hkind⟩
  obtain ⟨d, hd, hkind⟩ := hkinds m List.mem_cons_self
  obtain ⟨d', hd', hkind'⟩ := hkinds x (List.mem_cons_of_mem _ hx)
  simp only [SessionEvent.unmixed, Bool.or_eq_true, decide_eq_true_eq, List.all_eq_true] at hunmixed
  rcases hunmixed with (hone | hdata) | hcontrol
  · have hlen := h.length_eq
    have hms : 0 < ms.length := List.length_pos_of_mem hx
    simp only [List.length_cons] at hlen
    omega
  · rw [hdata d hd] at hkind
    rw [hdata d' hd'] at hkind'
    exact ⟨fun _ => of_decide_eq_true hkind.symm, fun _ => of_decide_eq_true hkind'.symm⟩
  · have hnot : isData d = false := by simpa using hcontrol d hd
    have hnot' : isData d' = false := by simpa using hcontrol d' hd'
    rw [hnot] at hkind
    rw [hnot'] at hkind'
    exact ⟨fun hx => absurd hx (of_decide_eq_false hkind'.symm),
      fun hm => absurd hm (of_decide_eq_false hkind.symm)⟩

/-- What is counted for an unmixed batch are its data datagrams. -/
theorem told_counted {e : ReceiverEvent} {ms : List Message} {datagrams : List (List Memory)}
    (h : List.Forall₂ Message.Tells ms datagrams)
    (hunmixed : (SessionEvent.receive e datagrams).unmixed = true) :
    Books.counted ms = dataAmong datagrams.flatten := by
  have hall : ∀ {ms : List Message} {datagrams : List (List Memory)},
      List.Forall₂ Message.Tells ms datagrams → dataAmong datagrams.flatten =
        (ms.map fun m => if m.mtype = .measurement then m.ids.length else 0).sum := by
    intro ms datagrams h
    induction h with
    | nil => rfl
    | cons htold _ ih =>
      rw [List.flatten_cons, dataAmong_append, ih, htold.dataAmong, List.map_cons, List.sum_cons]
  rw [hall h]
  cases ms with
  | nil => rfl
  | cons m ms =>
    have huniform := said_uniform (h.imp fun _ _ htold => htold.1) hunmixed
    rw [Books.counted_cons]
    split
    · rename_i hm
      rw [List.length_flatMap]
      refine congrArg List.sum (List.map_congr_left ?_)
      intro x hx
      rcases List.mem_cons.mp hx with rfl | hx
      · rw [if_pos hm]
      · rw [if_pos ((huniform x hx).mpr hm)]
    · rename_i hm
      symm
      apply List.sum_eq_zero
      simp only [List.mem_map, forall_exists_index, and_imp, forall_apply_eq_imp_iff₂]
      intro x hx
      rcases List.mem_cons.mp hx with rfl | hx
      · rw [if_neg hm]
      · rw [if_neg (fun hdata => hm ((huniform x hx).mp hdata))]

namespace Session
variable {build : Build} {plans : List Plan} {post : Post} {events : List SessionEvent}
  {wire : List (Nat × Memory)} {s s' : Session}

/-- No interval that a step closes is dropped with packets in it, and no batch
is mixed. -/
def Keeps (s : Session) (e : SessionEvent) : Prop :=
  e.unmixed = true ∧
    match e with
    | .send i e => ∀ sender ∈ s.senders[i]?, sender.Keeps .datagrams e
    | .receive e _ => s.receiver.Keeps .datagrams e
    | .network _ => True

instance decidableKeeps (s : Session) : (e : SessionEvent) → Decidable (s.Keeps e)
  | .send _ _ => inferInstanceAs (Decidable (_ ∧ _))
  | .receive _ _ => inferInstanceAs (Decidable (_ ∧ _))
  | .network _ => inferInstanceAs (Decidable (_ ∧ True))

/-- No party has given up. -/
def Good (s : Session) : Prop := (∀ sender ∈ s.senders, sender.Good) ∧ s.receiver.Good

/-- A party that has a result has not given up. -/
theorem Good.of_final (hsenders : ∀ sender ∈ s.senders, sender.final ≠ none)
    (hreceiver : s.receiver.final ≠ none) : s.Good := by
  refine ⟨?_, ?_⟩
  · rintro sender hsender r e rfl
    exact hsenders _ hsender rfl
  · intro r e hr
    rw [hr] at hreceiver
    exact hreceiver rfl

/-- A sender adds to the accounts what it puts on the wire. -/
theorem Traced.account {senders : List SenderRun} (h : Traced plans senders wire)
    (hwhole : ∀ plan ∈ plans, plan.parameter.Whole) {i : Nat} {e : SenderRunEvent}
    {sender sender' : SenderRun} (hsender : senders[i]? = some sender)
    (hmove : sender.step e = .ok sender') (hkeeps : sender.Keeps .datagrams e)
    (hgood : ∀ x ∈ senders.set i sender', x.Good) :
    (∀ x ∈ senders, x.Good) ∧ ((senders.set i sender').map (SenderRun.account .datagrams)).sum =
      (senders.map (SenderRun.account .datagrams)).sum +
        dataAmong (sender.transmitted e sender') := by
  obtain ⟨plan, hplan⟩ := h.plan hsender
  have hi := (List.getElem?_eq_some_iff.mp hsender).1
  have hgood' := hgood sender' (List.mem_set hi sender')
  refine ⟨?_, ?_⟩
  · intro x hx
    obtain ⟨j, hj⟩ := List.mem_iff_getElem?.mp hx
    by_cases hij : i = j
    · subst hij
      cases hsender.symm.trans hj
      exact SenderRun.Good.back hmove
    · exact hgood x (List.mem_of_getElem? ((List.getElem?_set_ne hij).trans hj))
  · have htrace := h.traces i plan sender hplan hsender
    have hcounted := SenderRun.step_counted plan.sends (hwhole plan (List.mem_of_getElem? hplan))
      htrace hmove hgood'
    have haccount := (SenderRun.step_account hmove hgood' .datagrams).2.mpr hkeeps
    have hset := Lists.sum_set_nat hsender (SenderRun.account .datagrams) sender'
    omega

/-- Senders before their runs have nothing in their accounts. -/
theorem starting_account (plans : List Plan) :
    ((plans.map fun plan => SenderRun.starting plan.sender).map
      (SenderRun.account .datagrams)).sum = 0 := by
  rw [List.map_map]
  apply List.sum_eq_zero
  simp only [List.mem_map, forall_exists_index, and_imp, forall_apply_eq_imp_iff₂]
  intro plan _
  obtain ⟨b, _, hnew⟩ := bind_ok.mp plan.created
  have hsender := Except.ok.inj hnew
  simp only [Function.comp_apply, SenderRun.account, SenderRun.sender, ← hsender]
  rfl

/-- The parties' accounts are what is transmitted and what is taken. -/
structure Conserved (plans : List Plan) (post : Post) (events : List SessionEvent)
    (wire : List (Nat × Memory)) (s : Session) : Prop where
  follows : Follows plans post events wire s
  sent : (∀ sender ∈ s.senders, sender.Good) →
    (s.senders.map (SenderRun.account .datagrams)).sum = dataAmong (traffic events wire).sent
  received : s.receiver.Good →
    s.receiver.Blank ∧ s.receiver.account .datagrams = dataAmong (traffic events wire).taken

theorem Conserved.start (plans : List Plan) (post : Post) :
    Conserved plans post [] [] (start plans post) := by
  obtain ⟨_, hbooks⟩ := Receiver.Listens.new post.created
  have hms : post.receiver.measurements = [] :=
    List.map_eq_nil_iff.mp (congrArg Books.tests hbooks)
  have hstatistics : post.receiver.statisticInterval.statistics = [] := by
    obtain ⟨b, _, hnew⟩ := bind_ok.mp post.created
    rw [← Except.ok.inj hnew]
    rfl
  refine ⟨.start plans post, fun _ => starting_account plans, fun _ => ⟨⟨hms, hstatistics⟩, ?_⟩⟩
  change post.receiver.recorded .datagrams + post.receiver.counted .datagrams = 0
  simp [Receiver.recorded, Receiver.counted, amounts, hms, hstatistics]

theorem Conserved.send (h : Conserved plans post events wire s)
    (hwhole : ∀ plan ∈ plans, plan.parameter.Whole) {i : Nat} {e : SenderRunEvent}
    (hkeeps : s.Keeps (.send i e)) (hstep : s.step build (.send i e) = .ok s') :
    Conserved plans post (events ++ [.send i e]) (wire ++ s.transmissions (.send i e) s') s' := by
  have hfollows := h.follows.send hstep
  obtain ⟨sender, sender', hsender, hmove, rfl, hwire⟩ := step_send hstep
  rw [hwire] at hfollows ⊢
  refine ⟨hfollows, ?_, ?_⟩
  · intro hgood
    obtain ⟨hold, haccount⟩ :=
      h.follows.traced.account hwhole hsender hmove (hkeeps.2 sender hsender) hgood
    have hsent : dataAmong (traffic (events ++ [.send i e])
        (wire ++ (sender.transmitted e sender').map (i, ·))).sent =
        dataAmong (traffic events wire).sent + dataAmong (sender.transmitted e sender') := by
      rw [traffic_send]
      exact Multiset.countP_add _ _ _
    rw [haccount, h.sent hold, hsent]
  · intro hgood
    rw [traffic_send]
    exact h.received hgood

theorem Conserved.network (h : Conserved plans post events wire s) {m : Channel.Move Memory}
    (hstep : s.step build (.network m) = .ok s') :
    Conserved plans post (events ++ [.network m]) wire s' := by
  have hfollows := h.follows.network hstep
  obtain ⟨network, _, rfl⟩ := step_network hstep
  refine ⟨hfollows, ?_, ?_⟩
  · rw [traffic_network]
    cases m <;> exact h.sent
  · rw [traffic_network]
    cases m <;> exact h.received

theorem Conserved.receive (h : Conserved plans post events wire s)
    (hgro : post.parameter.socketOptions.gro = false) {e : ReceiverEvent}
    {datagrams : List (List Memory)} (hkeeps : s.Keeps (.receive e datagrams))
    (hstep : s.step build (.receive e datagrams) = .ok s') :
    Conserved plans post (events ++ [.receive e datagrams]) wire s' := by
  obtain ⟨_, ms, hspoken, htold, hmoves⟩ := h.follows.moves hstep
  have hfollows := h.follows.receive hstep
  obtain ⟨_, network, receiver, _, hmove, rfl⟩ := step_receive hstep
  refine ⟨hfollows, ?_, ?_⟩
  · rw [traffic_receive]
    exact h.sent
  · intro hgood
    obtain ⟨hblank, hold⟩ := h.received (ReceiverRun.Good.back hmove)
    obtain ⟨hblank', haccount⟩ := ReceiverRun.step_account hblank hmove hgood
    have haccount := (haccount .datagrams).2.mpr hkeeps.2
    have hheld := hmoves.held (said_sane hspoken)
    have hcounted := told_counted (htold hgro) hkeeps.1
    have htaken : dataAmong (traffic (events ++ [.receive e datagrams]) wire).taken =
        dataAmong (traffic events wire).taken + dataAmong datagrams.flatten := by
      rw [traffic_receive]
      exact Multiset.countP_add _ _ _
    refine ⟨hblank', ?_⟩
    simp only [ReceiverRun.counted, Receiver.counted_held] at haccount hheld ⊢
    omega

/-- One step, whoever makes it. -/
theorem Conserved.step (h : Conserved plans post events wire s)
    (hwhole : ∀ plan ∈ plans, plan.parameter.Whole)
    (hgro : post.parameter.socketOptions.gro = false) {e : SessionEvent} (hkeeps : s.Keeps e)
    (hstep : s.step build e = .ok s') :
    Conserved plans post (events ++ [e]) (wire ++ s.transmissions e s') s' := by
  cases e with
  | send i e => exact h.send hwhole hkeeps hstep
  | network m =>
    rw [show s.transmissions (.network m) s' = [] from rfl, List.append_nil]
    exact h.network hstep
  | receive e datagrams =>
    rw [show s.transmissions (.receive e datagrams) s' = [] from rfl, List.append_nil]
    exact h.receive hgro hkeeps hstep

theorem run_conserved (hwhole : ∀ plan ∈ plans, plan.parameter.Whole)
    (hgro : post.parameter.socketOptions.gro = false)
    (h : run (Session.step build) (Session.start plans post) events = .ok s)
    (hkeeps : Guarded (Session.step build) Keeps (Session.start plans post) events) :
    Conserved plans post events (Session.wire build (Session.start plans post) events) s := by
  have hconserved := collect_history (G := Keeps) (I := Conserved plans post)
    (fun _ _ _ _ _ hs hkeeps hstep => hs.step hwhole hgro hkeeps hstep) (.start plans post) hkeeps h
  rwa [List.nil_append, List.nil_append] at hconserved

end Session

/-- End to end nothing is counted that was not sent and nothing that was sent
is unaccounted for: what the senders report, and what the network has made of
it by itself, the receiver reports unless it was lost or is still under way.
With GRO a message can come without the size of its datagrams. -/
theorem session_conserves (build : Build) (plans : List Plan) (post : Post)
    (hwhole : ∀ plan ∈ plans, plan.parameter.Whole)
    (hgro : post.parameter.socketOptions.gro = false) (events : List SessionEvent) (s : Session)
    (hrun : run (Session.step build) (Session.start plans post) events = .ok s)
    (hkeeps : Guarded (Session.step build) Session.Keeps (Session.start plans post) events)
    (hgood : s.Good) :
    (s.senders.map (SenderRun.account .datagrams)).sum + dataAmong (Session.duplicated events) =
      s.receiver.account .datagrams + dataAmong (Session.lost events) + dataAmong s.network := by
  have hconserved := Session.run_conserved hwhole hgro hrun hkeeps
  have hbalance := hconserved.follows.accounted.count (isData · = true)
  rw [hconserved.sent hgood.1, (hconserved.received hgood.2).2]
  exact hbalance

theorem session_conserves_loss :
    let start := Session.start [.headersOnly] .headersOnly
    ∃ s, run (Session.step .debug) start Session.oneLost = .ok s ∧
      s.receiver.account .datagrams = 1 ∧
      (s.senders.map (SenderRun.account .datagrams)).sum +
          dataAmong (Session.duplicated Session.oneLost) =
        s.receiver.account .datagrams + dataAmong (Session.lost Session.oneLost) +
          dataAmong s.network := by
  intro start
  obtain ⟨s, hrun, hsenders, hreceiver, hone⟩ := checked
    (x := run (Session.step .debug) start Session.oneLost)
    (p := fun s => (∀ sender ∈ s.senders, sender.final.isSome) ∧ s.receiver.final.isSome ∧
      s.receiver.account .datagrams = 1) (by decide +kernel)
  refine ⟨s, hrun, hone, ?_⟩
  exact session_conserves .debug [.headersOnly] .headersOnly (by decide) rfl _ s hrun
    (by decide +kernel) (.of_final (fun x hx => Option.isSome_iff_ne_none.mp (hsenders x hx))
      (Option.isSome_iff_ne_none.mp hreceiver))

end Nperf
