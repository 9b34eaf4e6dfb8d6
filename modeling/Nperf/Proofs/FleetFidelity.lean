import Nperf.Proofs.Fidelity
import Nperf.Proofs.FleetConservation
import Nperf.Proofs.ThreadPlan

namespace Nperf
open Rust Bytes Runs

/-- The ports of the threads, if each has one of its own. -/
theorem NPerf.threadPlans_ports {args : NPerf} {build : Build} {p : Parameter}
    {threads : List ThreadPlan} (hindividual : p.multiplexPortReceiver = .individual)
    (h : args.threadPlans build p = .ok threads) : threads.map ThreadPlan.receiverPort =
      (List.range p.amountThreads).map fun i => (args.port.toNat + i) % 2 ^ 16 := by
  refine Lists.mapM_ok_map ?_ h
  intro i plan hplan
  simp only [threadPlan, hindividual, ne_eq, not_true, if_false] at hplan
  obtain ⟨port, hport, hplan⟩ := bind_ok.mp hplan
  cases hplan
  exact unsigned_mod hport

theorem NPerf.threadPlans_length {args : NPerf} {build : Build} {p : Parameter}
    {threads : List ThreadPlan} (h : args.threadPlans build p = .ok threads) :
    threads.length = p.amountThreads := by
  have hunits := Lists.mapM_ok_map (g := fun _ => ()) (k := fun _ => ()) (fun _ _ _ => rfl) h
  simpa using congrArg List.length hunits

/-- Ports that are counted up do not meet again. -/
theorem ports_nodup (port : Nat) {n : Nat} (hn : n ≤ 2 ^ 16) :
    ((List.range n).map fun i => (port + i) % 2 ^ 16).Nodup := by
  refine (List.nodup_map_iff_inj_on List.nodup_range).mpr ?_
  intro i hi j hj h
  rw [List.mem_range] at hi hj
  omega

theorem Party.threads_lt (party : Party) : party.parameter.amountThreads < 2 ^ 16 := by
  rw [(NPerf.parseParameter_kept party.accepted).threads]
  exact party.args.parallel.toNat_lt

namespace Fleet
variable {build : Build} {w : Wiring} {s : Fleet} {plans : List Plan} {posts : List Post}
  {events : List FleetEvent} {port j : Nat}

/-- No batch of `recvmmsg` has data and coordination messages in it. -/
def unmixed : FleetEvent → Bool
  | .receive _ e datagrams => (SessionEvent.receive e datagrams).unmixed
  | _ => true

/-- Where an event of a view comes from. -/
theorem mem_viewed {e : SessionEvent} {x : FleetEvent} (h : e ∈ viewed w port j x) :
    (∃ i e', x = .send i e' ∧ e = .send (Lists.rank port w.destinations i) e') ∨
      (∃ m, x = .network m ∧ e = .network m.content) ∨
      (∃ e' datagrams, x = .receive j e' datagrams ∧ e = .receive e' datagrams) ∨
      ∃ y, e = .network (.lose y) := by
  cases x with
  | send i e' =>
    simp only [viewed] at h
    split at h
    · exact .inl ⟨i, e', rfl, List.mem_singleton.mp h⟩
    · cases h
  | network m =>
    simp only [viewed] at h
    split at h
    · exact .inr (.inl ⟨m, rfl, List.mem_singleton.mp h⟩)
    · cases h
  | receive k e' datagrams =>
    simp only [viewed] at h
    split at h
    · rename_i hk
      exact .inr (.inr (.inl ⟨e', datagrams, hk ▸ rfl, List.mem_singleton.mp h⟩))
    · split at h
      · obtain ⟨y, _, rfl⟩ := List.mem_map.mp h
        exact .inr (.inr (.inr ⟨y, rfl⟩))
      · cases h

theorem unmixed_viewed (h : ∀ e ∈ events, unmixed e = true) :
    ∀ e ∈ events.flatMap (viewed w port j), e.unmixed = true := by
  intro e he
  obtain ⟨x, hx, he⟩ := List.mem_flatMap.mp he
  rcases mem_viewed he with ⟨_, _, _, rfl⟩ | ⟨_, _, rfl⟩ | ⟨_, _, rfl, rfl⟩ | ⟨_, rfl⟩
  · rfl
  · rfl
  · exact h _ hx
  · rfl

theorem duplicated_viewed (honce : duplicated events = []) :
    Session.duplicated (events.flatMap (viewed w port j)) = [] := by
  refine List.filterMap_eq_nil_iff.mpr ?_
  intro e he
  obtain ⟨x, hx, he⟩ := List.mem_flatMap.mp he
  rcases mem_viewed he with ⟨_, _, _, rfl⟩ | ⟨m, rfl, rfl⟩ | ⟨_, _, _, rfl⟩ | ⟨_, rfl⟩
  · rfl
  · cases m with
    | lose y => rfl
    | duplicate y => cases List.filterMap_eq_nil_iff.mp honce _ hx
  · rfl
  · rfl

/-- A receiver that has its port to itself loses what the network loses there. -/
theorem lost_viewed (hnodup : w.sources.Nodup) (hport : w.sources[j]? = some port)
    (events : List FleetEvent) : Session.lost (events.flatMap (viewed w port j)) =
      ((lost events).filter (·.1 = port)).map Prod.snd := by
  induction events with
  | nil => rfl
  | cons e events ih =>
    have hsplit : Session.lost (viewed w port j e) =
        ((lost [e]).filter (·.1 = port)).map Prod.snd := by
      cases e with
      | send i e =>
        simp only [viewed]
        split <;> rfl
      | network m =>
        cases m with
        | lose x =>
          by_cases hx : x.1 = port
          · simp [viewed, Channel.Move.key, Channel.Move.content, Session.lost, lost, hx]
          · simp [viewed, Channel.Move.key, Session.lost, lost, hx]
        | duplicate x =>
          simp only [viewed]
          split <;> rfl
      | receive k e datagrams =>
        by_cases hk : k = j
        · simp only [viewed, if_pos hk]
          rfl
        · have hother : ¬w.sources[k]? = some port := by
            intro hsame
            have hlt := (List.getElem?_eq_some_iff.mp hport).1
            exact hk ((List.getElem?_inj hlt hnodup).mp (hport.trans hsame.symm)).symm
          simp only [viewed, if_neg hk, if_neg hother]
          rfl
    have happend : ∀ es es' : List SessionEvent,
        Session.lost (es ++ es') = Session.lost es ++ Session.lost es' := by
      intro es es'
      exact List.filterMap_append
    have hcons : lost (e :: events) = lost [e] ++ lost events :=
      List.filterMap_append (l := [e])
    rw [List.flatMap_cons, happend, ih, hsplit, hcons, List.filter_append, List.map_append]

/-- What a receiver with a port of its own, and with one sender, reports. -/
theorem run_faithful (hnodup : w.destinations.Nodup) (hnodup' : w.sources.Nodup)
    (hport : w.sources[j]? = some port) (hdest : w.destinations[j]? = some port) {plan : Plan}
    {post : Post} (hplan : plans[j]? = some plan) (hpost : posts[j]? = some post)
    (hwhole : plan.parameter.Whole) (hinterval : post.parameter.outputInterval = 0)
    (hgro : post.parameter.socketOptions.gro = false)
    (hunmixed : ∀ e ∈ events, unmixed e = true) (honce : duplicated events = [])
    (h : run (step build w) (start plans posts) events = .ok s)
    (hnext : ∀ sender ∈ s.senders, sender.sender.nextPacketId ≤ 2 ^ 63) {receiver : ReceiverRun}
    (hreceiver : s.receivers[j]? = some receiver) {n : Nat}
    (hn : receiver.receiver.nextPacketId = n) :
    receiver.report.duplicated = 0 ∧
      receiver.report.omitted = dataBelow n (Channel.part port (lost events)) +
        dataBelow n (Channel.part port s.network) ∧
      receiver.report.datagrams + receiver.report.omitted = n := by
  obtain ⟨t, hrun, hview⟩ := run_viewed hpost hport h
  cases hreceiver.symm.trans hview.receiver
  rw [Lists.select_single hnodup hdest, hplan] at hrun
  have hsmall : ∀ sender ∈ t.senders, sender.sender.nextPacketId ≤ 2 ^ 63 := by
    intro sender hsender
    rw [hview.senders] at hsender
    exact hnext sender (Lists.mem_select hsender)
  have hlost : (Session.lost (events.flatMap (viewed w port j)) : Multiset Memory) =
      Channel.part port (lost events) := by
    rw [lost_viewed hnodup' hport]
    simp [Channel.part]
  have hfaithful := Session.run_faithful hwhole hinterval hgro (unmixed_viewed hunmixed)
    (duplicated_viewed honce) hrun hsmall hn
  rwa [hlost, hview.network] at hfaithful

theorem run_lengths (h : run (step build w) (start plans posts) events = .ok s) :
    s.senders.length = plans.length ∧ s.receivers.length = posts.length := by
  refine run_invariant
    (I := fun s : Fleet => s.senders.length = plans.length ∧ s.receivers.length = posts.length)
    ?_ ⟨List.length_map _, List.length_map _⟩ h
  rintro s e s' ⟨hsenders, hreceivers⟩ hstep
  cases e with
  | send i e =>
    obtain ⟨_, _, _, _, _, _, _, rfl⟩ := step_send hstep
    exact ⟨(List.length_set ..).trans hsenders, hreceivers⟩
  | network m =>
    obtain ⟨_, _, rfl⟩ := step_network hstep
    exact ⟨hsenders, hreceivers⟩
  | receive j e datagrams =>
    obtain ⟨_, _, _, _, _, _, _, _, _, _, rfl⟩ := step_receive hstep
    exact ⟨hsenders, (List.length_set ..).trans hreceivers⟩

end Fleet

theorem SendingHost.amount (host : SendingHost) :
    host.plans.length = host.parameter.amountThreads :=
  host.launched.length_eq.symm.trans (NPerf.threadPlans_length host.planned)

theorem ReceivingHost.amount (host : ReceivingHost) :
    host.posts.length = host.parameter.amountThreads :=
  host.launched.length_eq.symm.trans (NPerf.threadPlans_length host.planned)

/-- Two hosts that count up their ports from the same one, thread by thread. -/
structure Paired (sending : SendingHost) (receiving : ReceivingHost) : Prop where
  sender : sending.parameter.multiplexPortReceiver = .individual
  receiver : receiving.parameter.multiplexPortReceiver = .individual
  port : sending.args.port = receiving.args.port
  threads : receiving.parameter.amountThreads ≤ sending.parameter.amountThreads

section
variable {sending : SendingHost} {receiving : ReceivingHost} {s : Fleet} {events : List FleetEvent}

theorem Paired.nodup (h : Paired sending receiving) :
    (wiring sending receiving).destinations.Nodup ∧ (wiring sending receiving).sources.Nodup := by
  have hdestinations : (wiring sending receiving).destinations = _ :=
    NPerf.threadPlans_ports h.sender sending.planned
  have hsources : (wiring sending receiving).sources = _ :=
    NPerf.threadPlans_ports h.receiver receiving.planned
  rw [hdestinations, hsources]
  exact ⟨ports_nodup _ (Nat.le_of_lt sending.threads_lt),
    ports_nodup _ (Nat.le_of_lt receiving.threads_lt)⟩

/-- The threads of one number have one port. -/
theorem Paired.ports (h : Paired sending receiving) {j : Nat}
    (hj : j < receiving.parameter.amountThreads) :
    ∃ port, (wiring sending receiving).destinations[j]? = some port ∧
      (wiring sending receiving).sources[j]? = some port := by
  have hdestinations : (wiring sending receiving).destinations = _ :=
    NPerf.threadPlans_ports h.sender sending.planned
  have hsources : (wiring sending receiving).sources = _ :=
    NPerf.threadPlans_ports h.receiver receiving.planned
  have hj' := Nat.lt_of_lt_of_le hj h.threads
  refine ⟨(receiving.args.port.toNat + j) % 2 ^ 16, ?_, ?_⟩
  · rw [hdestinations, List.getElem?_map, List.getElem?_range hj', h.port]
    rfl
  · rw [hsources, List.getElem?_map, List.getElem?_range hj]
    rfl

/-- What the thread of a receiver misses, by its port. -/
def Fleet.absent (events : List FleetEvent) (s : Fleet) (port : Nat) (receiver : ReceiverRun) :
    Nat :=
  let n := receiver.receiver.nextPacketId
  dataBelow n (Channel.part port (lost events)) + dataBelow n (Channel.part port s.network)

/-- What the receiving host sums up is what its threads report. -/
theorem ReceivingHost.summary (receiving : ReceivingHost) {plans : List Plan} {w : Wiring}
    (hrun : run (Fleet.step receiving.build w) (Fleet.start plans receiving.posts) events = .ok s)
    (hdone : ∀ receiver ∈ s.receivers, receiver.final.isSome)
    (haddable : Addable (s.receivers.filterMap ReceiverRun.joined)) (clock clock' : Clock) :
    ∃ heard rows, mergeThreads receiving.build clock clock' receiving.parameter
        (s.receivers.filterMap ReceiverRun.joined) = .ok (heard, rows) ∧
      (heard.amountDuplicatedDatagrams : Int) =
        (s.receivers.map fun receiver => (receiver.report.duplicated : Int)).sum ∧
      heard.amountOmittedDatagrams =
        (s.receivers.map fun receiver => receiver.report.omitted).sum ∧
      (heard.amountDatagrams : Int) =
        (s.receivers.map fun receiver => (receiver.report.datagrams : Int)).sum := by
  obtain ⟨heard, rows, hmerge, hsums⟩ := mergeThreads_sound receiving.build clock clock'
    (receiving.sound hrun (Fleet.run_lengths hrun).2) haddable
  have hmetric : ∀ (m : Metric) (account : Counters → Int),
      (∀ final : Statistic, final.metric m = account final.counters) →
      heard.metric m = (s.receivers.map fun receiver => account receiver.report).sum := by
    intro m account haccount
    refine (hsums m).1.trans (summaries_account ?_)
    intro receiver hreceiver
    have hfinal := hdone receiver hreceiver
    unfold ReceiverRun.final at hfinal
    split at hfinal
    · rename_i r final intervals
      exact ⟨final, intervals, rfl, haccount final⟩
    · cases hfinal
  exact ⟨heard, rows, hmerge, hmetric .duplicated (fun c => c.duplicated) fun _ => rfl,
    hmetric .omitted Counters.omitted fun _ => rfl,
    hmetric .datagrams (fun c => c.datagrams) fun _ => rfl⟩

end

/-- The packets below the cursors of the receivers that are lost or still under
way, each at its own port. -/
def Fleet.missing (w : Wiring) (events : List FleetEvent) (s : Fleet) : Nat :=
  (List.zipWith (absent events s) w.sources s.receivers).sum

end Nperf
