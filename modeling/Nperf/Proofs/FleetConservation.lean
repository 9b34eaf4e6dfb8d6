import Mathlib.Algebra.BigOperators.Ring.Finset
import Nperf.Proofs.Joining
import Nperf.Proofs.Views

namespace Nperf
open Rust Bytes Runs

namespace Fleet
variable {build : Build} {w : Wiring} {s s' : Fleet} {plans : List Plan} {posts : List Post}
  {events : List FleetEvent} {wire : List (Nat × Memory)}

/-- The moves of one sender. -/
def turns (i : Nat) : FleetEvent → List SenderRunEvent
  | .send k e => if k = i then [e] else []
  | _ => []

/-- The moves of one receiver. -/
def hearings (j : Nat) : FleetEvent → List ReceiverEvent
  | .receive k e _ => if k = j then [e] else []
  | _ => []

/-- Of a run of the fleet a sender makes a run of its own. -/
theorem run_sender {i : Nat} {plan : Plan} (hplan : plans[i]? = some plan)
    (h : run (step build w) (start plans posts) events = .ok s) :
    ∃ sender, run SenderRun.step (.starting plan.sender) (events.flatMap (turns i)) = .ok sender ∧
      s.senders[i]? = some sender := by
  have hmatch : ∀ (s : Fleet) (e : FleetEvent) (s' : Fleet) (t : SenderRun),
      s.senders[i]? = some t → True → step build w s e = .ok s' →
      ∃ t', run SenderRun.step t (turns i e) = .ok t' ∧
        Guarded SenderRun.step (fun _ _ => True) t (turns i e) ∧ s'.senders[i]? = some t' := by
    intro s e s' t ht _ hstep
    cases e with
    | send k e =>
      obtain ⟨_, sender, port, sender', hsender, _, hmove, rfl⟩ := step_send hstep
      by_cases hk : k = i
      · subst hk
        cases ht.symm.trans hsender
        have hlt := (List.getElem?_eq_some_iff.mp hsender).1
        simp only [turns, if_true]
        exact ⟨sender', run_cons_ok.mpr ⟨_, hmove, rfl⟩, .of_forall (fun _ _ => trivial) _ _,
          List.getElem?_set_self hlt⟩
      · simp only [turns, if_neg hk]
        exact ⟨t, rfl, trivial, (List.getElem?_set_ne hk).trans ht⟩
    | network m =>
      obtain ⟨_, _, rfl⟩ := step_network hstep
      exact ⟨t, rfl, trivial, ht⟩
    | receive k e datagrams =>
      obtain ⟨_, _, _, _, _, _, _, _, _, _, rfl⟩ := step_receive hstep
      exact ⟨t, rfl, trivial, ht⟩
  have hstart : (start plans posts).senders[i]? = some (.starting plan.sender) := by
    simp only [start, List.getElem?_map, hplan, Option.map_some]
  obtain ⟨sender, hrun, _, hsender⟩ := run_matched hmatch hstart
    (.of_forall (fun _ _ => trivial) _ _) h
  exact ⟨sender, hrun, hsender⟩

theorem run_receiver {j : Nat} {post : Post} (hpost : posts[j]? = some post)
    (h : run (step build w) (start plans posts) events = .ok s) :
    ∃ receiver, run (ReceiverRun.step build) (.polling post.receiver)
        (events.flatMap (hearings j)) = .ok receiver ∧ s.receivers[j]? = some receiver := by
  have hmatch : ∀ (s : Fleet) (e : FleetEvent) (s' : Fleet) (t : ReceiverRun),
      s.receivers[j]? = some t → True → step build w s e = .ok s' →
      ∃ t', run (ReceiverRun.step build) t (hearings j e) = .ok t' ∧
        Guarded (ReceiverRun.step build) (fun _ _ => True) t (hearings j e) ∧
        s'.receivers[j]? = some t' := by
    intro s e s' t ht _ hstep
    cases e with
    | send k e =>
      obtain ⟨_, _, _, _, _, _, _, rfl⟩ := step_send hstep
      exact ⟨t, rfl, trivial, ht⟩
    | network m =>
      obtain ⟨_, _, rfl⟩ := step_network hstep
      exact ⟨t, rfl, trivial, ht⟩
    | receive k e datagrams =>
      obtain ⟨_, receiver, _, _, receiver', hreceiver, _, _, _, hmove, rfl⟩ := step_receive hstep
      by_cases hk : k = j
      · subst hk
        cases ht.symm.trans hreceiver
        have hlt := (List.getElem?_eq_some_iff.mp hreceiver).1
        simp only [hearings, if_true]
        exact ⟨receiver', run_cons_ok.mpr ⟨_, hmove, rfl⟩, .of_forall (fun _ _ => trivial) _ _,
          List.getElem?_set_self hlt⟩
      · simp only [hearings, if_neg hk]
        exact ⟨t, rfl, trivial, (List.getElem?_set_ne hk).trans ht⟩
  have hstart : (start plans posts).receivers[j]? = some (.polling post.receiver) := by
    simp only [start, List.getElem?_map, hpost, Option.map_some]
  obtain ⟨receiver, hrun, _, hreceiver⟩ := run_matched hmatch hstart
    (.of_forall (fun _ _ => trivial) _ _) h
  exact ⟨receiver, hrun, hreceiver⟩

section
variable (events wire) (xs : List Memory)

theorem traffic_send {i port : Nat} (hport : w.destinations[i]? = some port) (e : SenderRunEvent) :
    traffic w (events ++ [.send i e]) (wire ++ xs.map (i, ·)) =
      (traffic w events wire).send (addressed port xs) := by
  have hsent : (xs.map (i, ·)).flatMap (fun x => w.destinations[x.1]?.toList.map (·, x.2)) =
      xs.map (port, ·) := by
    rw [List.flatMap_map, List.map_eq_flatMap]
    simp only [hport, Option.toList_some, List.map_cons, List.map_nil]
  simp [traffic, Channel.Traffic.send, taken, lost, duplicated, addressed, hsent,
    ← Multiset.coe_add]

theorem traffic_network (m : Channel.Move (Nat × Memory)) :
    traffic w (events ++ [.network m]) wire = (traffic w events wire).move m := by
  cases m <;>
    simp [traffic, Channel.Traffic.move, taken, lost, duplicated, ← Multiset.coe_add]

theorem traffic_receive {j port : Nat} (hport : w.sources[j]? = some port) (e : ReceiverEvent)
    (datagrams : List (List Memory)) :
    traffic w (events ++ [.receive j e datagrams]) wire =
      (traffic w events wire).take (addressed port datagrams.flatten) := by
  simp [traffic, Channel.Traffic.take, taken, lost, duplicated, addressed, hport,
    ← Multiset.coe_add]

theorem parts_receive (j k : Nat) (e : ReceiverEvent) (datagrams : List (List Memory)) :
    parts j (events ++ [.receive k e datagrams]) =
      parts j events ++ if k = j then datagrams else [] := by
  simp [parts]

end

/-- The data datagrams of a port are those of its content. -/
theorem dataAmong_addressed (port : Nat) (xs : List Memory) :
    dataAmong ((addressed port xs).map Prod.snd) = dataAmong xs := by
  simp [addressed, Function.comp_def]

/-- The senders' accounts are what is transmitted, the network accounts for it,
and what is taken from it is what the receivers have been given. -/
structure Conserved (w : Wiring) (plans : List Plan) (posts : List Post)
    (events : List FleetEvent) (wire : List (Nat × Memory)) (s : Fleet) : Prop where
  traced : Session.Traced plans s.senders wire
  hosts : s.receivers.length = posts.length
  accounted : Channel.Accounted (traffic w events wire) s.network
  sent : (∀ sender ∈ s.senders, sender.Good) →
    (s.senders.map (SenderRun.account .datagrams)).sum =
      dataAmong ((traffic w events wire).sent.map Prod.snd)
  heard : ((List.range posts.length).map fun j => dataAmong (parts j events).flatten).sum =
    dataAmong ((traffic w events wire).taken.map Prod.snd)

theorem Conserved.start (w : Wiring) (plans : List Plan) (posts : List Post) :
    Conserved w plans posts [] [] (start plans posts) := by
  refine ⟨.start plans, List.length_map _, .none, fun _ => Session.starting_account plans, ?_⟩
  apply List.sum_eq_zero
  simp [parts, dataAmong]

theorem Conserved.send (h : Conserved w plans posts events wire s)
    (hwhole : ∀ plan ∈ plans, plan.parameter.Whole) {i : Nat} {e : SenderRunEvent}
    (hkeeps : s.Keeps (.send i e)) (hstep : s.step build w (.send i e) = .ok s') :
    Conserved w plans posts (events ++ [.send i e])
      (wire ++ s.transmissions (.send i e) s') s' := by
  obtain ⟨_, sender, port, sender', hsender, hport, hmove, rfl⟩ := step_send hstep
  have hlt := (List.getElem?_eq_some_iff.mp hsender).1
  simp only [transmissions, hsender, List.getElem?_set_self hlt]
  refine ⟨h.traced.send hsender hmove, h.hosts, ?_, ?_, ?_⟩
  · rw [traffic_send _ _ _ hport]
    exact h.accounted.send _
  · intro hgood
    obtain ⟨hold, haccount⟩ :=
      h.traced.account hwhole hsender hmove (hkeeps sender hsender) hgood
    rw [traffic_send _ _ _ hport, haccount, h.sent hold, Channel.Traffic.send, Multiset.map_add,
      ← dataAmong_addressed port]
    exact (Multiset.countP_add _ _ _).symm
  · rw [traffic_send _ _ _ hport]
    change _ = dataAmong ((traffic w events wire).taken.map Prod.snd)
    simpa [parts] using h.heard

theorem Conserved.network (h : Conserved w plans posts events wire s)
    {m : Channel.Move (Nat × Memory)} (hstep : s.step build w (.network m) = .ok s') :
    Conserved w plans posts (events ++ [.network m]) wire s' := by
  obtain ⟨network, hmove, rfl⟩ := step_network hstep
  refine ⟨h.traced, h.hosts, ?_, ?_, ?_⟩
  · rw [traffic_network]
    exact h.accounted.move hmove
  · rw [traffic_network]
    cases m <;> exact h.sent
  · rw [traffic_network, show ((traffic w events wire).move m).taken = (traffic w events wire).taken
      by cases m <;> rfl]
    simpa [parts] using h.heard

theorem Conserved.receive (h : Conserved w plans posts events wire s) {j : Nat} {e : ReceiverEvent}
    {datagrams : List (List Memory)} (hstep : s.step build w (.receive j e datagrams) = .ok s') :
    Conserved w plans posts (events ++ [.receive j e datagrams]) wire s' := by
  obtain ⟨_, receiver, port, network, receiver', hreceiver, hport, _, htake, _, rfl⟩ :=
    step_receive hstep
  have hlt : j < posts.length := h.hosts ▸ (List.getElem?_eq_some_iff.mp hreceiver).1
  refine ⟨h.traced, (List.length_set ..).trans h.hosts, ?_, ?_, ?_⟩
  · rw [traffic_receive _ _ hport]
    exact h.accounted.take htake
  · rw [traffic_receive _ _ hport]
    exact h.sent
  · have hrows : ∀ k, dataAmong (parts k (events ++ [.receive j e datagrams])).flatten =
        dataAmong (parts k events).flatten +
          if k = j then dataAmong datagrams.flatten else 0 := by
      intro k
      rw [parts_receive, List.flatten_append, dataAmong_append]
      by_cases hk : j = k
      · rw [if_pos hk, if_pos hk.symm]
      · rw [if_neg hk, if_neg (Ne.symm hk)]
        rfl
    simp only [hrows]
    rw [List.sum_map_add, h.heard, Lists.sum_range_at, if_pos hlt, traffic_receive _ _ hport,
      Channel.Traffic.take, Multiset.map_add, ← dataAmong_addressed port]
    exact (Multiset.countP_add _ _ _).symm

theorem Conserved.step (h : Conserved w plans posts events wire s)
    (hwhole : ∀ plan ∈ plans, plan.parameter.Whole) {e : FleetEvent} (hkeeps : s.Keeps e)
    (hstep : s.step build w e = .ok s') :
    Conserved w plans posts (events ++ [e]) (wire ++ s.transmissions e s') s' := by
  cases e with
  | send i e => exact h.send hwhole hkeeps hstep
  | network m =>
    rw [show s.transmissions (.network m) s' = [] from rfl, List.append_nil]
    exact h.network hstep
  | receive j e datagrams =>
    rw [show s.transmissions (.receive j e datagrams) s' = [] from rfl, List.append_nil]
    exact h.receive hstep

theorem run_conserved (hwhole : ∀ plan ∈ plans, plan.parameter.Whole)
    (h : run (Fleet.step build w) (Fleet.start plans posts) events = .ok s)
    (hkeeps : Guarded (Fleet.step build w) Keeps (Fleet.start plans posts) events) :
    ∃ wire, Conserved w plans posts events wire s := by
  have hstep : ∀ events wire s e s', Conserved w plans posts events wire s → s.Keeps e →
      Fleet.step build w s e = .ok s' →
      Conserved w plans posts (events ++ [e]) (wire ++ s.transmissions e s') s' :=
    fun _ _ _ _ _ hs hkeeps hstep => hs.step hwhole hkeeps hstep
  have hconserved := collect_history hstep (.start w plans posts) hkeeps h
  rw [List.nil_append, List.nil_append] at hconserved
  exact ⟨_, hconserved⟩

end Fleet

/-- The threads that have come to a good end report what they account for. -/
theorem summaries_account {σ : Type} {runs : List σ} {joined : σ → Option ThreadResult} {m : Metric}
    {account : σ → Int} (h : ∀ run ∈ runs, ∃ final intervals,
      joined run = some (.finished final intervals) ∧ final.metric m = account run) :
    ((summaries (runs.filterMap joined)).map (Statistic.metric m)).sum =
      (runs.map account).sum := by
  induction runs with
  | nil => rfl
  | cons run runs ih =>
    obtain ⟨⟨final, intervals, hjoined, haccount⟩, hrest⟩ := List.forall_mem_cons.mp h
    rw [List.filterMap_cons_some hjoined, summaries_cons, List.map_append, List.sum_append,
      ih hrest, List.map_cons, List.sum_cons, ← haccount]
    simp [summaries]

namespace Fleet
variable {build : Build} {w : Wiring} {s : Fleet} {plans : List Plan} {posts : List Post}
  {events : List FleetEvent}

theorem Done.of_final (hsenders : ∀ sender ∈ s.senders, sender.final.isSome)
    (hreceivers : ∀ receiver ∈ s.receivers, receiver.final.isSome) : s.Done := by
  refine ⟨?_, ?_⟩
  · intro sender hsender
    have hfinal := hsenders sender hsender
    unfold SenderRun.final at hfinal
    split at hfinal
    · exact ⟨_, _, rfl⟩
    · cases hfinal
  · intro receiver hreceiver
    have hfinal := hreceivers receiver hreceiver
    unfold ReceiverRun.final at hfinal
    split at hfinal
    · exact ⟨_, _, rfl⟩
    · cases hfinal

end Fleet

namespace SendingHost

theorem parameter_of (host : SendingHost) {i : Nat} {plan : Plan}
    (hplan : host.plans[i]? = some plan) : plan.parameter = host.parameter := by
  obtain ⟨thread, _, hsame, _⟩ := Lists.forall₂_mem host.launched.flip (List.mem_of_getElem? hplan)
  exact congrArg Party.parameter hsame

/-- What its threads come to is sound. -/
theorem sound (sending : SendingHost) {posts : List Post} {build : Build} {w : Wiring} {s : Fleet}
    {events : List FleetEvent}
    (h : run (Fleet.step build w) (Fleet.start sending.plans posts) events = .ok s)
    (hparties : s.senders.length = sending.plans.length) :
    ∀ result ∈ s.senders.filterMap SenderRun.joined, result.Sound sending.parameter := by
  intro result hresult
  obtain ⟨sender, hsender, hjoined⟩ := List.mem_filterMap.mp hresult
  obtain ⟨i, hget⟩ := List.mem_iff_getElem?.mp hsender
  have hi := (List.getElem?_eq_some_iff.mp hget).1
  obtain ⟨plan, hplan⟩ : ∃ plan, sending.plans[i]? = some plan :=
    ⟨_, List.getElem?_eq_getElem (hparties ▸ hi)⟩
  obtain ⟨sender', hrun, hget'⟩ := Fleet.run_sender hplan h
  cases hget.symm.trans hget'
  rw [← sending.parameter_of hplan]
  exact (SenderRun.run_registers plan.created hrun).joined _ hjoined

end SendingHost

namespace ReceivingHost

theorem parameter_of (host : ReceivingHost) {j : Nat} {post : Post}
    (hpost : host.posts[j]? = some post) : post.parameter = host.parameter := by
  obtain ⟨thread, _, hsame⟩ := Lists.forall₂_mem host.launched.flip (List.mem_of_getElem? hpost)
  exact congrArg Party.parameter hsame

theorem sound (receiving : ReceivingHost) {plans : List Plan} {build : Build} {w : Wiring}
    {s : Fleet} {events : List FleetEvent}
    (h : run (Fleet.step build w) (Fleet.start plans receiving.posts) events = .ok s)
    (hhosts : s.receivers.length = receiving.posts.length) :
    ∀ result ∈ s.receivers.filterMap ReceiverRun.joined, result.Sound receiving.parameter := by
  intro result hresult
  obtain ⟨receiver, hreceiver, hjoined⟩ := List.mem_filterMap.mp hresult
  obtain ⟨j, hget⟩ := List.mem_iff_getElem?.mp hreceiver
  have hj := (List.getElem?_eq_some_iff.mp hget).1
  obtain ⟨post, hpost⟩ : ∃ post, receiving.posts[j]? = some post :=
    ⟨_, List.getElem?_eq_getElem (hhosts ▸ hj)⟩
  obtain ⟨receiver', hrun, hget'⟩ := Fleet.run_receiver hpost h
  cases hget.symm.trans hget'
  rw [← receiving.parameter_of hpost]
  exact (ReceiverRun.run_registers post.created hrun).joined _ hjoined

end ReceivingHost

/-- Two threads a host. -/
def NPerf.twoThreads (mode : NPerfMode) (port : MultiplexPort) : NPerf :=
  { headersOnly with mode := mode, parallel := 2, multiplexPortReceiver := port }

def Parameter.twoThreads (mode : NPerfMode) (port : MultiplexPort) : Parameter :=
  { Parameter.headersOnly with
    mode := mode
    amountThreads := 2
    multiplexPortReceiver := port
    simulateConnection := if port = .sharing then .single else .multiple
    socketOptions := { Parameter.headersOnly.socketOptions with
      reuseport := mode = .receiver ∧ port = .sharding } }

def Party.twoThreads (mode : NPerfMode) (port : MultiplexPort) : Party where
  args := .twoThreads mode port
  build := .debug
  cores := 8
  parameter := .twoThreads mode port
  accepted := by cases mode <;> cases port <;> decide +kernel
  socket := by simp [Parameter.twoThreads, Parameter.headersOnly]
  filled := by simp [Parameter.twoThreads, Parameter.headersOnly]

def Plan.twoThreads (port : MultiplexPort) (testId : Nat) (known : testId < maxTestId)
    (h : (Sender.new ⟨0, 0⟩ testId (.twoThreads .sender port)).toOption.isSome) : Plan where
  toParty := .twoThreads .sender port
  inside := by simp [Party.twoThreads, Parameter.twoThreads, Parameter.headersOnly]
  testId := testId
  known := known
  clock := ⟨0, 0⟩
  sender := (Sender.new ⟨0, 0⟩ testId (.twoThreads .sender port)).toOption.get h
  created := ok_get h

def Post.twoThreads (port : MultiplexPort)
    (h : (Receiver.new ⟨0, 0⟩ (.twoThreads .receiver port)).toOption.isSome) : Post where
  toParty := .twoThreads .receiver port
  sized := by simp [Party.twoThreads, Parameter.twoThreads, Parameter.headersOnly]
  clock := ⟨0, 0⟩
  receiver := (Receiver.new ⟨0, 0⟩ (.twoThreads .receiver port)).toOption.get h
  created := ok_get h

namespace Fleet

/-- A sender sends some packets, one a call. -/
def sends (i amount : Nat) : List FleetEvent :=
  (.start ⟨0, 0⟩ ⟨0, 0⟩ (.ok ()) (.ok ()) ::
    ((List.range amount).flatMap (fun t => sendAt t t (.ok 24)) ++ endOfTest)).map (.send i)

/-- A receiver takes one message from its port. -/
def takes (j : Nat) (mtype : MessageType) (testId packetId : Nat) : List FleetEvent :=
  [.receive j (.check ⟨0, 0⟩) [],
    .receive j (.receive ⟨0, 0⟩ ⟨.ok (.packet mtype testId packetId), .ok []⟩)
      [[(MessageHeader.mk mtype testId packetId).serialize]]]

def closes (j : Nat) : FleetEvent := .receive j (.finish ⟨0, 0⟩ true) []

end Fleet

end Nperf
