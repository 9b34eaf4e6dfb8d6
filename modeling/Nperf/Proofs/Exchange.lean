import Nperf.Proofs.Arrivals

namespace Nperf
open Rust Bytes Runs

namespace Plan

theorem testId_lt (plan : Plan) : plan.testId < 2 ^ 64 := Nat.lt_trans plan.known (by decide)

theorem sends (plan : Plan) : plan.parameter.Sends :=
  .new plan.accepted plan.filled plan.inside plan.testId_lt plan.created

theorem start_trace (plan : Plan) :
    (SenderRun.starting plan.sender).Trace plan.parameter plan.testId [] := by
  obtain ⟨hs, hnext⟩ := Sender.Streams.new plan.testId_lt plan.created
  exact ⟨hs, hnext, rfl⟩

end Plan

namespace Post

theorem mss_lt (post : Post) : post.parameter.mss < 2 ^ 32 :=
  NPerf.parseParameter_mss post.accepted

end Post

theorem controlDatagram_inj {mtype mtype' : MessageType} {testId testId' : Nat}
    (ht : testId < 2 ^ 64) (ht' : testId' < 2 ^ 64)
    (h : controlDatagram mtype testId = controlDatagram mtype' testId') :
    mtype = mtype' ∧ testId = testId' := by
  have hmtype := MessageHeader.load_mtype ⟨mtype, testId, 0⟩
  have htest := MessageHeader.load_testId ⟨mtype, testId, 0⟩ ht
  have hmtype' := MessageHeader.load_mtype ⟨mtype', testId', 0⟩
  have htest' := MessageHeader.load_testId ⟨mtype', testId', 0⟩ ht'
  unfold controlDatagram at h
  rw [h] at hmtype htest
  exact ⟨MessageType.code_inj (hmtype.symm.trans hmtype'), htest.symm.trans htest'⟩

namespace SenderRun.Trace
variable {p : Parameter} {testId : Nat} {log : List Memory} {s : SenderRun}

/-- What a datagram of a trace can be. -/
theorem mem (h : s.Trace p testId log) {x : Memory} (hx : x ∈ log) :
    x = controlDatagram .init testId ∨
      (Datagram testId x ∧ packetId x < s.sender.nextPacketId ∧ packetId x + 1 < 2 ^ 64) ∨
      (x = controlDatagram .last testId ∧ ∃ r final, s = .returned r (.ok final)) := by
  have hdata : ∀ (data : List Memory) (next : Nat), p.Stream testId 0 next data →
      next ≤ s.sender.nextPacketId → x ∈ controlDatagram .init testId :: data →
      x = controlDatagram .init testId ∨
        (Datagram testId x ∧ packetId x < s.sender.nextPacketId ∧ packetId x + 1 < 2 ^ 64) ∨
        (x = controlDatagram .last testId ∧ ∃ r final, s = .returned r (.ok final)) := by
    intro data next hstream hle hx
    rcases List.mem_cons.mp hx with hinit | hx
    · exact .inl hinit
    · obtain ⟨hdatagram, _, hid⟩ := hstream.mem hx
      exact .inr (.inl ⟨hdatagram, Nat.lt_of_lt_of_le hid hle,
        Nat.lt_of_le_of_lt hid hstream.range⟩)
  cases s with
  | starting s =>
    rw [h.2.2] at hx
    cases hx
  | uring l => cases h
  | returned s result =>
    cases result with
    | ok final =>
      obtain ⟨data, rfl, hstream⟩ := h
      rcases List.mem_append.mp hx with hx | hx
      · exact hdata data _ hstream (Nat.le_refl _) hx
      · exact .inr (.inr ⟨List.mem_singleton.mp hx, s, final, rfl⟩)
    | error e =>
      rcases h with rfl | ⟨data, next, rfl, hstream, hle⟩
      · cases hx
      · exact hdata data next hstream hle hx
  | _ =>
    obtain ⟨_, data, rfl, hstream⟩ := h
    exact hdata data _ hstream (Nat.le_refl _) hx

theorem genuine (h : s.Trace p testId log) (ht : testId < maxTestId) : ∀ x ∈ log, Genuine x := by
  intro x hx
  rcases h.mem hx with rfl | ⟨hdatagram, _, hid⟩ | ⟨rfl, _⟩
  · exact .control .init testId (by simp) ht rfl
  · exact .data testId ht hid hdatagram
  · exact .control .last testId (by simp) ht rfl

/-- A data datagram has an id that the sender has used. -/
theorem data (h : s.Trace p testId log) {x : Memory} (hx : x ∈ log) (hd : isData x) :
    Datagram testId x ∧ packetId x < s.sender.nextPacketId := by
  rcases h.mem hx with rfl | ⟨hdatagram, hid, _⟩ | ⟨rfl, _⟩
  · cases (isData_controlDatagram (by simp) testId).symm.trans hd
  · exact ⟨hdatagram, hid⟩
  · cases (isData_controlDatagram (by simp) testId).symm.trans hd

/-- A run that transmits LAST has ended well. -/
theorem last (h : s.Trace p testId log) (ht : testId < 2 ^ 64) {u : Nat} (hu : u < 2 ^ 64)
    (hx : controlDatagram .last u ∈ log) :
    u = testId ∧ ∃ r final, s = .returned r (.ok final) := by
  rcases h.mem hx with hinit | ⟨hdatagram, _⟩ | ⟨hlast, hreturned⟩
  · cases (controlDatagram_inj hu ht hinit).1
  · have hcode := MessageHeader.load_mtype ⟨.last, u, 0⟩
    cases MessageType.code_inj (hcode.symm.trans hdatagram.mtype)
  · exact ⟨(controlDatagram_inj hu ht hlast).2, hreturned⟩

end SenderRun.Trace

namespace Session
variable {build : Build} {s s' : Session}

theorem enabled_ok {α : Type} {x : Option α} {a : α} : enabled x = .ok a ↔ x = some a := by
  cases x <;> simp [enabled]

/-- What a step of a sender does to a session. -/
theorem step_send {i : Nat} {e : SenderRunEvent} (h : s.step build (.send i e) = .ok s') :
    ∃ sender sender', s.senders[i]? = some sender ∧ sender.step e = .ok sender' ∧
      s' = { s with
        senders := s.senders.set i sender'
        network := s.network + (sender.transmitted e sender' : Multiset Memory) } ∧
      s.transmissions (.send i e) s' = (sender.transmitted e sender').map (i, ·) := by
  have hstep : s.step build (.send i e) = .error .disabled ∨ s.step build (.send i e) = (do
      let sender ← enabled s.senders[i]?
      let sender' ← sender.step e
      .ok { s with
        senders := s.senders.set i sender'
        network := s.network + (sender.transmitted e sender' : Multiset Memory) }) := by
    cases e with
    | ring e => exact .inl rfl
    | _ => exact .inr rfl
  rcases hstep with hstep | hstep
  · cases hstep.symm.trans h
  · rw [hstep] at h
    simp only [bind_ok] at h
    obtain ⟨sender, hsender, sender', hsender', h⟩ := h
    cases h
    have hget := enabled_ok.mp hsender
    refine ⟨sender, sender', hget, hsender', rfl, ?_⟩
    have hlt := (List.getElem?_eq_some_iff.mp hget).1
    simp only [transmissions, hget, List.getElem?_set_self hlt]

theorem step_network {m : Channel.Move Memory} (h : s.step build (.network m) = .ok s') :
    ∃ network, Channel.move s.network m = some network ∧ s' = { s with network := network } := by
  obtain ⟨network, hmove, h⟩ := bind_ok.mp (show _ >>= _ = _ from h)
  cases h
  exact ⟨network, enabled_ok.mp hmove, rfl⟩

/-- What a step of the receiver does to a session. -/
theorem step_receive {e : ReceiverEvent} {datagrams : List (List Memory)}
    (h : s.step build (.receive e datagrams) = .ok s') :
    s.receiver.Arrives e datagrams ∧ ∃ network receiver,
      Channel.take s.network (datagrams.flatten : Multiset Memory) = some network ∧
      s.receiver.step build e = .ok receiver ∧
      s' = { s with network := network, receiver := receiver } := by
  have hstep : s.step build (.receive e datagrams) = .error .disabled ∨
      s.step build (.receive e datagrams) = if s.receiver.Arrives e datagrams then (do
        let network ← enabled (Channel.take s.network (datagrams.flatten : Multiset Memory))
        let receiver ← s.receiver.step build e
        .ok { s with network := network, receiver := receiver }) else .error .disabled := by
    cases e with
    | ring e => exact .inl rfl
    | _ => exact .inr rfl
  rcases hstep with hstep | hstep
  · cases hstep.symm.trans h
  · rw [hstep] at h
    split at h
    · rename_i harrives
      simp only [bind_ok] at h
      obtain ⟨network, hnetwork, receiver, hreceiver, h⟩ := h
      cases h
      exact ⟨harrives, network, receiver, enabled_ok.mp hnetwork, hreceiver, rfl⟩
    · cases h

section
variable (events : List SessionEvent) (wire : List (Nat × Memory)) (i j : Nat) (xs : List Memory)

theorem sentBy_append (wire' : List (Nat × Memory)) :
    sentBy i (wire ++ wire') = sentBy i wire ++ sentBy i wire' := by
  simp only [sentBy, List.filterMap_append]

theorem sentBy_same : sentBy i (xs.map (i, ·)) = xs := by
  simp [sentBy, List.filterMap_map]

theorem sentBy_other (h : j ≠ i) : sentBy i (xs.map (j, ·)) = [] := by
  simp [sentBy, List.filterMap_map, h]

theorem mem_sentBy {wire : List (Nat × Memory)} {i : Nat} {x : Memory} :
    x ∈ sentBy i wire ↔ (i, x) ∈ wire := by
  simp only [sentBy, List.mem_filterMap]
  constructor
  · rintro ⟨⟨j, y⟩, hy, h⟩
    split at h
    · rename_i hj
      cases h
      exact hj ▸ hy
    · cases h
  · intro h
    exact ⟨(i, x), h, if_pos rfl⟩

theorem traffic_send (e : SenderRunEvent) :
    traffic (events ++ [.send j e]) (wire ++ xs.map (i, ·)) =
      (traffic events wire).send (xs : Multiset Memory) := by
  simp only [traffic, Channel.Traffic.send, parts, lost, duplicated, List.flatMap_append,
    List.filterMap_append, List.map_append, List.flatMap_singleton, List.append_nil, List.map_map,
    List.filterMap_cons_none, List.filterMap_nil, Function.comp_def, List.map_id',
    ← Multiset.coe_add]

theorem traffic_network (m : Channel.Move Memory) :
    traffic (events ++ [.network m]) wire = (traffic events wire).move m := by
  cases m <;>
    simp [traffic, Channel.Traffic.move, parts, lost, duplicated, ← Multiset.coe_add]

theorem traffic_receive (e : ReceiverEvent) (datagrams : List (List Memory)) :
    traffic (events ++ [.receive e datagrams]) wire =
      (traffic events wire).take (datagrams.flatten : Multiset Memory) := by
  simp [traffic, Channel.Traffic.take, parts, lost, duplicated, ← Multiset.coe_add]

end

/-- Every sender has left its trace on the wire, and nobody else has. -/
structure Traced (plans : List Plan) (senders : List SenderRun) (wire : List (Nat × Memory)) :
    Prop where
  parties : senders.length = plans.length
  traces : ∀ (i : Nat) (plan : Plan) (sender : SenderRun), plans[i]? = some plan →
    senders[i]? = some sender → sender.Trace plan.parameter plan.testId (sentBy i wire)
  origin : ∀ x ∈ wire, x.1 < plans.length

section
variable {plans : List Plan} {senders : List SenderRun} {wire : List (Nat × Memory)}

theorem Traced.start (plans : List Plan) :
    Traced plans (plans.map fun plan => .starting plan.sender) [] := by
  refine ⟨List.length_map _, ?_, by simp⟩
  intro i plan sender hplan hsender
  rw [List.getElem?_map, hplan] at hsender
  cases hsender
  exact plan.start_trace

theorem Traced.plan (h : Traced plans senders wire) {i : Nat} {sender : SenderRun}
    (hsender : senders[i]? = some sender) : ∃ plan, plans[i]? = some plan :=
  ⟨_, List.getElem?_eq_getElem (h.parties ▸ (List.getElem?_eq_some_iff.mp hsender).1)⟩

/-- A move of a sender continues its own trace. -/
theorem Traced.send (h : Traced plans senders wire) {i : Nat} {e : SenderRunEvent}
    {sender sender' : SenderRun} (hsender : senders[i]? = some sender)
    (hmove : sender.step e = .ok sender') : Traced plans (senders.set i sender')
      (wire ++ (sender.transmitted e sender').map (i, ·)) := by
  have hi := (List.getElem?_eq_some_iff.mp hsender).1
  refine ⟨(List.length_set ..).trans h.parties, ?_, ?_⟩
  · intro j plan next hplan hnext
    rw [sentBy_append]
    by_cases hj : i = j
    · subst hj
      rw [List.getElem?_set_self hi] at hnext
      cases hnext
      rw [sentBy_same]
      exact SenderRun.step_trace plan.sends plan.socket (h.traces i plan sender hplan hsender) hmove
    · rw [List.getElem?_set_ne hj] at hnext
      rw [sentBy_other _ _ _ hj, List.append_nil]
      exact h.traces j plan next hplan hnext
  · refine List.forall_mem_append.mpr ⟨h.origin, ?_⟩
    simp only [List.forall_mem_map]
    exact fun _ _ => h.parties ▸ hi

end

/-- What has become of a session: every sender has left its trace on the
wire, the network accounts for it, and the receiver's books tell no more than
what has been taken from it. -/
structure Follows (plans : List Plan) (post : Post) (events : List SessionEvent)
    (wire : List (Nat × Memory)) (s : Session) : Prop where
  parties : s.senders.length = plans.length
  traces : ∀ (i : Nat) (plan : Plan) (sender : SenderRun), plans[i]? = some plan →
    s.senders[i]? = some sender → sender.Trace plan.parameter plan.testId (sentBy i wire)
  origin : ∀ x ∈ wire, x.1 < plans.length
  accounted : Channel.Accounted (traffic events wire) s.network
  listens : s.receiver.Listens post.parameter
  heard : ∃ heard, List.Forall₂ Message.Says heard (parts events) ∧
    Books.Heard heard s.receiver.receiver.books

section
variable {plans : List Plan} {post : Post} {events : List SessionEvent}
  {wire : List (Nat × Memory)}

theorem Follows.start (plans : List Plan) (post : Post) :
    Follows plans post [] [] (start plans post) := by
  obtain ⟨hlistens, hbooks⟩ := Receiver.Listens.new post.created
  obtain ⟨hparties, htraces, horigin⟩ := Traced.start plans
  refine ⟨hparties, htraces, horigin, .none, hlistens, [], .nil, ?_⟩
  change Books.Heard [] post.receiver.books
  rw [hbooks]
  exact .none

theorem Follows.traced (h : Follows plans post events wire s) : Traced plans s.senders wire :=
  ⟨h.parties, h.traces, h.origin⟩

/-- What was transmitted comes from the sender of a plan. -/
theorem Follows.sender (h : Follows plans post events wire s) {x : Memory}
    (hx : x ∈ (traffic events wire).sent) : ∃ i plan sender, plans[i]? = some plan ∧
      s.senders[i]? = some sender ∧ x ∈ sentBy i wire ∧
      sender.Trace plan.parameter plan.testId (sentBy i wire) := by
  obtain ⟨⟨i, y⟩, hy, rfl⟩ := List.mem_map.mp (Multiset.mem_coe.mp hx)
  have hi := h.origin (i, y) hy
  have hplan : plans[i]? = some plans[i] := List.getElem?_eq_getElem hi
  have hlt : i < s.senders.length := h.parties ▸ hi
  have hsender : s.senders[i]? = some s.senders[i] := List.getElem?_eq_getElem hlt
  exact ⟨i, _, _, hplan, hsender, mem_sentBy.mpr hy, h.traces i _ _ hplan hsender⟩

theorem Follows.genuine (h : Follows plans post events wire s) {x : Memory}
    (hx : x ∈ (traffic events wire).sent) : Genuine x := by
  obtain ⟨i, plan, sender, _, _, hmem, htrace⟩ := h.sender hx
  exact htrace.genuine plan.known x hmem

/-- A step of a sender continues its own trace. -/
theorem Follows.send (h : Follows plans post events wire s) {i : Nat} {e : SenderRunEvent}
    (hstep : s.step build (.send i e) = .ok s') :
    Follows plans post (events ++ [.send i e]) (wire ++ s.transmissions (.send i e) s') s' := by
  obtain ⟨sender, sender', hsender, hmove, rfl, hwire⟩ := step_send hstep
  rw [hwire]
  obtain ⟨hparties, htraces, horigin⟩ := h.traced.send hsender hmove
  refine ⟨hparties, htraces, horigin, ?_, h.listens, ?_⟩
  · rw [traffic_send]
    exact h.accounted.send _
  · obtain ⟨heard, hsaid, hbooks⟩ := h.heard
    exact ⟨heard, by simpa [parts] using hsaid, hbooks⟩

theorem Follows.network (h : Follows plans post events wire s) {m : Channel.Move Memory}
    (hstep : s.step build (.network m) = .ok s') :
    Follows plans post (events ++ [.network m]) wire s' := by
  obtain ⟨network, hmove, rfl⟩ := step_network hstep
  refine ⟨h.parties, h.traces, h.origin, ?_, h.listens, ?_⟩
  · rw [traffic_network]
    exact h.accounted.move hmove
  · obtain ⟨heard, hsaid, hbooks⟩ := h.heard
    exact ⟨heard, by simpa [parts] using hsaid, hbooks⟩

/-- Messages made of genuine datagrams can all be read. -/
theorem says_all {gro : Bool} {mss : Nat} (hmss : mss < 2 ^ 32) {ds : List Delivery}
    {offers : List Nat} {datagrams : List (List Memory)} (hlen : ds.length = datagrams.length)
    (hoffers : ds.length ≤ offers.length)
    (hcarries : ∀ x ∈ ds.zip (offers.zip datagrams),
      x.1.payload.length ≤ mss ∧ x.1.Carries gro x.2.1 x.2.2)
    (hgenuine : ∀ x ∈ datagrams.flatten, Genuine x) :
    ∃ ms, ds.mapM Delivery.read = some ms ∧ List.Forall₂ Message.Says ms datagrams ∧
      (gro = false → List.Forall₂ Message.Tells ms datagrams) ∧
      ∀ d ∈ ds, d.payload.length ≤ mss := by
  induction ds generalizing offers datagrams with
  | nil =>
    obtain rfl := List.length_eq_zero_iff.mp hlen.symm
    exact ⟨[], rfl, .nil, fun _ => .nil, by simp⟩
  | cons d ds ih =>
    cases datagrams with
    | nil => cases hlen
    | cons part datagrams =>
      cases offers with
      | nil => cases hoffers
      | cons offered offers =>
        rw [List.zip_cons_cons, List.zip_cons_cons] at hcarries
        obtain ⟨⟨hfit, hfirst⟩, hrest⟩ := List.forall_mem_cons.mp hcarries
        rw [List.flatten_cons] at hgenuine
        obtain ⟨hpart, hparts⟩ := List.forall_mem_append.mp hgenuine
        obtain ⟨m, hread, hspoken⟩ := hfirst.spoken hpart (Nat.lt_of_le_of_lt hfit hmss)
        obtain ⟨ms, hreads, hall, htold, hfits⟩ :=
          ih (by simpa using hlen) (Nat.le_of_succ_le_succ hoffers) hrest hparts
        refine ⟨m :: ms, mapM_read_cons.mpr ⟨m, ms, hread, hreads, rfl⟩, .cons hspoken hall, ?_,
          List.forall_mem_cons.mpr ⟨hfit, hfits⟩⟩
        rintro rfl
        exact .cons (hspoken.tells hfirst.single) (htold rfl)

/-- The receiver can read what it takes from the network. -/
theorem Follows.arrives (h : Follows plans post events wire s) {e : ReceiverEvent}
    {datagrams : List (List Memory)} (harrives : s.receiver.Arrives e datagrams)
    {network : Multiset Memory}
    (htake : Channel.take s.network (datagrams.flatten : Multiset Memory) = some network) :
    ∃ ms, (s.receiver.arrivals e).mapM Delivery.read = some ms ∧
      List.Forall₂ Message.Says ms datagrams ∧
      (post.parameter.socketOptions.gro = false → List.Forall₂ Message.Tells ms datagrams) ∧
      (s.receiver.arrivals e).length ≤ post.parameter.packetBufferSize ∧
      ∀ d ∈ s.receiver.arrivals e, d.payload.length ≤ post.parameter.mss := by
  obtain ⟨hlen, hoffers, hcarries⟩ := harrives
  have hreceiver := h.listens.receiver
  have hgenuine : ∀ x ∈ datagrams.flatten, Genuine x := by
    intro x hx
    refine h.genuine (h.accounted.inFlight_origin ?_)
    unfold Channel.take at htake
    split at htake
    · rename_i hle
      exact Multiset.mem_of_le hle (Multiset.mem_coe.mpr hx)
    · cases htake
  rw [hreceiver.parameter] at hcarries
  obtain ⟨ms, hreads, hspoken, htold, hfit⟩ :=
    says_all post.mss_lt hlen hoffers hcarries hgenuine
  exact ⟨ms, hreads, hspoken, htold, Nat.le_trans hoffers h.listens.offers, hfit⟩

/-- A step of the receiver, told as the books see it. -/
theorem Follows.moves (h : Follows plans post events wire s) {e : ReceiverEvent}
    {datagrams : List (List Memory)} (hstep : s.step build (.receive e datagrams) = .ok s') :
    s'.receiver.Listens post.parameter ∧ ∃ ms, List.Forall₂ Message.Says ms datagrams ∧
      (post.parameter.socketOptions.gro = false → List.Forall₂ Message.Tells ms datagrams) ∧
      Books.Moves build (post.parameter.outputInterval ≠ 0) s.receiver.receiver.books
        s'.receiver.receiver.books ms := by
  obtain ⟨harrives, network, receiver, htake, hmove, rfl⟩ := step_receive hstep
  obtain ⟨ms, hreads, hspoken, htold, hlen, hfit⟩ := h.arrives harrives htake
  obtain ⟨hlistens, hmoves⟩ := h.listens.step post.socket post.sized hreads hlen hfit hmove
  exact ⟨hlistens, ms, hspoken, htold, hmoves⟩

theorem said_sane {ms : List Message} {datagrams : List (List Memory)}
    (h : List.Forall₂ Message.Says ms datagrams) : ∀ m ∈ ms, Books.Sane m := by
  induction h with
  | nil => simp
  | cons hspoken _ ih => exact List.forall_mem_cons.mpr ⟨hspoken.sane, ih⟩

theorem Follows.receive (h : Follows plans post events wire s) {e : ReceiverEvent}
    {datagrams : List (List Memory)} (hstep : s.step build (.receive e datagrams) = .ok s') :
    Follows plans post (events ++ [.receive e datagrams]) wire s' := by
  obtain ⟨hlistens, ms, hspoken, _, hmoves⟩ := h.moves hstep
  obtain ⟨_, network, receiver, htake, _, rfl⟩ := step_receive hstep
  obtain ⟨heard, hsaid, hbooks⟩ := h.heard
  refine ⟨h.parties, h.traces, h.origin, ?_, hlistens, heard ++ ms, ?_, ?_⟩
  · rw [traffic_receive]
    exact h.accounted.take htake
  · simpa [parts] using List.rel_append hsaid hspoken
  · exact hbooks.moves (said_sane hsaid) (said_sane hspoken) hmoves

theorem Follows.step (h : Follows plans post events wire s) {e : SessionEvent}
    (hstep : s.step build e = .ok s') :
    Follows plans post (events ++ [e]) (wire ++ s.transmissions e s') s' := by
  cases e with
  | send i e => exact h.send hstep
  | network m =>
    rw [show s.transmissions (.network m) s' = [] from rfl, List.append_nil]
    exact h.network hstep
  | receive e datagrams =>
    rw [show s.transmissions (.receive e datagrams) s' = [] from rfl, List.append_nil]
    exact h.receive hstep

theorem run_follows (h : run (Session.step build) (Session.start plans post) events = .ok s) :
    Follows plans post events (Session.wire build (Session.start plans post) events) s := by
  have hfollows := collect_history (G := fun _ _ => True) (I := Follows plans post)
    (fun _ _ _ _ _ hs _ hstep => hs.step hstep) (.start plans post)
    (.of_forall (fun _ _ => trivial) _ _) h
  rwa [List.nil_append, List.nil_append] at hfollows

theorem Follows.taken (h : Follows plans post events wire s) {part : List Memory}
    (hpart : part ∈ parts events) {x : Memory} (hx : x ∈ part) :
    ∃ plan sender log, (plan, sender) ∈ plans.zip s.senders ∧ x ∈ log ∧
      sender.Trace plan.parameter plan.testId log := by
  obtain ⟨i, plan, sender, hplan, hsender, hmem, htrace⟩ := h.sender
    (h.accounted.taken_origin (Multiset.mem_coe.mpr (List.mem_flatten.mpr ⟨part, hpart, hx⟩)))
  exact ⟨plan, sender, _, List.mem_of_getElem? (List.getElem?_zip_eq_some.mpr ⟨hplan, hsender⟩),
    hmem, htrace⟩

/-- The sender of the first packet of a data message is that of its test. -/
theorem Follows.heard_test (h : Follows plans post events wire s) {part : List Memory}
    (hpart : part ∈ parts events) {m : Message} (hspoken : m.Says part)
    (hdata : m.mtype = .measurement) : ∃ plan sender, (plan, sender) ∈ plans.zip s.senders ∧
      plan.testId = m.testId ∧ 0 < sender.sender.nextPacketId := by
  cases hspoken with
  | control mtype testId hcontrol => exact absurd hdata hcontrol
  | data testId bytes x xs ids ht hx hall hids =>
    obtain ⟨plan, sender, log, hparty, hmem, htrace⟩ := h.taken hpart List.mem_cons_self
    obtain ⟨hdatagram, hid⟩ := htrace.data hmem (hall x List.mem_cons_self).1
    exact ⟨plan, sender, hparty, hdatagram.testId.symm.trans hx.testId,
      Nat.lt_of_le_of_lt (Nat.zero_le _) hid⟩

/-- A packet that was heard of has been transmitted. -/
theorem Follows.heard_packet (h : Follows plans post events wire s) {part : List Memory}
    (hpart : part ∈ parts events) {m : Message} (hspoken : m.Says part)
    (hdata : m.mtype = .measurement) {id : Nat} (hid : id ∈ m.ids) :
    ∃ x ∈ (traffic events wire).sent, isData x = true ∧ packetId x = id := by
  obtain ⟨y, hy, hd, _, rfl⟩ := hspoken.mem_ids hdata hid
  have htaken : y ∈ (parts events).flatten := List.mem_flatten.mpr ⟨_, hpart, hy⟩
  exact ⟨y, h.accounted.taken_origin (Multiset.mem_coe.mpr htaken), hd, rfl⟩

theorem Follows.heard_id (h : Follows plans post events wire s) {part : List Memory}
    (hpart : part ∈ parts events) {m : Message} (hspoken : m.Says part)
    (hdata : m.mtype = .measurement) {id : Nat} (hid : id ∈ m.ids) :
    ∃ sender ∈ s.senders, id < sender.sender.nextPacketId := by
  obtain ⟨x, hx, hd, rfl⟩ := h.heard_packet hpart hspoken hdata hid
  obtain ⟨i, plan, sender, _, hsender, hmem, htrace⟩ := h.sender hx
  exact ⟨sender, List.mem_of_getElem? hsender, (htrace.data hmem hd).2⟩

theorem Follows.heard_last (h : Follows plans post events wire s) {part : List Memory}
    (hpart : part ∈ parts events) {m : Message} (hspoken : m.Says part)
    (hlast : m.mtype = .last) : ∃ plan sender, (plan, sender) ∈ plans.zip s.senders ∧
      plan.testId = m.testId ∧ ∃ r final, sender = .returned r (.ok final) := by
  cases hspoken with
  | control mtype testId hcontrol ht =>
    obtain rfl : mtype = .last := hlast
    obtain ⟨plan, sender, log, hparty, hmem, htrace⟩ := h.taken hpart List.mem_cons_self
    obtain ⟨htest, hreturned⟩ := htrace.last plan.testId_lt (Nat.lt_trans ht (by decide)) hmem
    exact ⟨plan, sender, hparty, htest.symm, hreturned⟩
  | data testId bytes x xs ids ht hx hall hids => cases hlast

/-- What the receiver has noted of a test, in the terms of its books. -/
theorem books_measurement (r : Receiver) {testId : Nat} {m : Measurement}
    (hm : r.measurements[testId]? = some m) : r.books.tests[testId]? = some m.book := by
  simp only [Receiver.books, List.getElem?_map, hm, Option.map_some]

end
end Session

/-- The receiver believes nothing that the senders have not said: its cursor
is not ahead of all of them, a test has begun only if its sender has sent data,
and is finished only if its sender has come to a good end. -/
structure Session.Sincere (plans : List Plan) (s : Session) : Prop where
  next : s.receiver.receiver.nextPacketId = 0 ∨
    ∃ sender ∈ s.senders, s.receiver.receiver.nextPacketId ≤ sender.sender.nextPacketId
  started : ∀ (testId : Nat) (m : Measurement),
    s.receiver.receiver.measurements[testId]? = some m → m.firstPacketReceived = true →
    ∃ plan sender, (plan, sender) ∈ plans.zip s.senders ∧ plan.testId = testId ∧
      0 < sender.sender.nextPacketId
  finished : ∀ (testId : Nat) (m : Measurement),
    s.receiver.receiver.measurements[testId]? = some m → m.lastPacketReceived = true →
    ∃ plan sender, (plan, sender) ∈ plans.zip s.senders ∧ plan.testId = testId ∧
      ∃ r final, sender = .returned r (.ok final)

theorem Session.Follows.sincere {plans : List Plan} {post : Post} {events : List SessionEvent}
    {wire : List (Nat × Memory)} {s : Session} (h : s.Follows plans post events wire) :
    s.Sincere plans := by
  obtain ⟨heard, hsaid, hbooks⟩ := h.heard
  refine ⟨?_, ?_, ?_⟩
  · rcases hbooks.next with hzero | ⟨m, hm, hdata, id, hid, hle⟩
    · exact .inl hzero
    · obtain ⟨part, hpart, hspoken⟩ := Lists.forall₂_mem hsaid hm
      obtain ⟨sender, hsender, hlt⟩ := h.heard_id hpart hspoken hdata hid
      exact .inr ⟨sender, hsender, Nat.le_trans hle hlt⟩
  · intro testId m hm hfirst
    obtain ⟨x, hx, hdata, rfl⟩ :=
      hbooks.started testId m.book (Session.books_measurement _ hm) hfirst
    obtain ⟨part, hpart, hspoken⟩ := Lists.forall₂_mem hsaid hx
    exact h.heard_test hpart hspoken hdata
  · intro testId m hm hlast
    obtain ⟨x, hx, hend, rfl⟩ :=
      hbooks.finished testId m.book (Session.books_measurement _ hm) hlast
    obtain ⟨part, hpart, hspoken⟩ := Lists.forall₂_mem hsaid hx
    exact h.heard_last hpart hspoken hend

/-- Whatever the network does, in every run. -/
theorem nothing_invented (build : Build) (plans : List Plan) (post : Post)
    (events : List SessionEvent) (s : Session)
    (hrun : run (Session.step build) (Session.start plans post) events = .ok s) :
    s.Sincere plans :=
  (Session.run_follows hrun).sincere

def Plan.headersOnly : Plan where
  args := { NPerf.headersOnly with mode := .sender }
  build := .debug
  cores := 8
  parameter := { Parameter.headersOnly with mode := .sender }
  accepted := by decide +kernel
  socket := by decide
  filled := by decide
  inside := by decide
  testId := 0
  known := by decide
  clock := ⟨0, 0⟩
  sender := (Sender.new ⟨0, 0⟩ 0 { Parameter.headersOnly with mode := .sender }).toOption.get
    (by decide)
  created := rfl

def Post.headersOnly : Post where
  args := NPerf.headersOnly
  build := .debug
  cores := 8
  parameter := .headersOnly
  accepted := by decide +kernel
  socket := by decide
  filled := by decide
  sized := by decide
  clock := ⟨0, 0⟩
  receiver := (Receiver.new ⟨0, 0⟩ .headersOnly).toOption.get (by decide)
  created := rfl

namespace Session

/-- A packet of test 0 is taken from the network. -/
def takes (mtype : MessageType) (packetId : Nat) : List SessionEvent :=
  [.receive (.check ⟨0, 0⟩) [],
    .receive (.receive ⟨0, 0⟩ ⟨.ok (.packet mtype 0 packetId), .ok []⟩)
      [[(MessageHeader.mk mtype 0 packetId).serialize]]]

/-- Of two packets the first one is lost. -/
def oneLost : List SessionEvent :=
  (.start ⟨0, 0⟩ ⟨0, 0⟩ (.ok ()) (.ok ()) ::
      (sendAt 1 1 (.ok 24) ++ sendAt 2 2 (.ok 24) ++ endOfTest)).map (.send 0) ++
    [.network (.lose (MessageHeader.mk .measurement 0 0).serialize),
      .receive (.poll ⟨0, 0⟩ ⟨0, 0⟩ .ready (.ok ())) []] ++
    takes .init 0 ++ takes .measurement 1 ++ takes .last 0 ++ [.receive (.finish ⟨0, 0⟩ true) []]

end Session

theorem nothing_invented_once :
    let start := Session.start [.headersOnly] .headersOnly
    ∃ s, run (Session.step .debug) start Session.oneLost = .ok s ∧
      s.receiver.receiver.nextPacketId = 2 ∧ s.Sincere [.headersOnly] := by
  intro start
  obtain ⟨s, hrun, hnext⟩ := checked (x := run (Session.step .debug) start Session.oneLost)
    (p := fun s => s.receiver.receiver.nextPacketId = 2) (by decide +kernel)
  exact ⟨s, hrun, hnext, nothing_invented .debug [.headersOnly] .headersOnly _ s hrun⟩

namespace ReceiverRun

/-- The loop is over, and no call has failed. -/
def stopped : ReceiverRun → Bool
  | .closing _ _ => true
  | .returned _ (.ok _) => true
  | _ => false

/-- A receiver that is through with its loop has no test open. -/
def Settled (s : ReceiverRun) : Prop :=
  s.stopped = true → s.receiver.allMeasurementsFinished = true

theorem Settled.of_running {s : ReceiverRun} (h : s.stopped = false) : s.Settled := by
  intro hstopped
  cases h.symm.trans hstopped

theorem Settled.step {build : Build} {p : Parameter} {s s' : ReceiverRun}
    {e : ReceiverEvent} {datagrams : List (List Memory)} (hs : s.Settled) (hlistens : s.Listens p)
    (hio : p.ioModel ≠ .ioUring) (he : (SessionEvent.receive e datagrams).timesOut = false)
    (h : s.step build e = .ok s') : s'.Settled := by
  unfold ReceiverRun.step at h
  split at h
  · rename_i r clock clock' result setup
    cases h
    have hparameter : (r.startInterval clock').parameter = p := hlistens.parameter
    cases result with
    | ready =>
      apply Settled.of_running
      simp only [start, socketPoll]
      rw [if_pos (hparameter ▸ hio)]
      rfl
    | timeout => cases he
    | failed => exact .of_running rfl
  · obtain ⟨v, _, h⟩ := bind_ok.mp (lift_ok.mp h)
    cases h
    exact .of_running rfl
  · rename_i r statistic clock socket
    obtain ⟨⟨result, r'⟩, _, h⟩ := bind_ok.mp (lift_ok.mp h)
    cases h
    cases result with
    | ok u => exact .of_running rfl
    | error e =>
      cases e with
      | lastMessageReceived =>
        simp only [received]
        split
        · rename_i hfinished
          exact fun _ => hfinished
        · exact .of_running rfl
      | _ => exact .of_running rfl
  · rename_i r statistic result
    cases h
    cases result with
    | timeout => cases he
    | _ => cases r.parameter.ioModel <;> exact .of_running rfl
  · cases hlistens
  · rename_i r statistic clock closed
    have hreceiver := (Listens.finish (show r.Listens p from hlistens) (lift_ok.mp h)).2
    intro _
    rw [hreceiver]
    exact hs rfl
  · cases h

end ReceiverRun

end Nperf
