import Nperf.Model.Fleet
import Nperf.Proofs.Conservation

namespace Nperf
open Rust Bytes Runs

namespace Session
variable {build : Build} {s : Session}

theorem send_ok {i : Nat} {e : SenderRunEvent} {sender sender' : SenderRun}
    (hsender : s.senders[i]? = some sender) (hring : ∀ e', e ≠ .ring e')
    (hmove : sender.step e = .ok sender') : s.step build (.send i e) = .ok { s with
      senders := s.senders.set i sender'
      network := s.network + (sender.transmitted e sender' : Multiset Memory) } := by
  have hstep : s.step build (.send i e) = (do
      let sender ← enabled s.senders[i]?
      let sender' ← sender.step e
      .ok { s with
        senders := s.senders.set i sender'
        network := s.network + (sender.transmitted e sender' : Multiset Memory) }) := by
    cases e with
    | ring e => exact absurd rfl (hring e)
    | _ => rfl
  rw [hstep, enabled_ok.mpr hsender, ok_bind, hmove, ok_bind]

theorem network_ok {m : Channel.Move Memory} {network : Multiset Memory}
    (h : Channel.move s.network m = some network) :
    s.step build (.network m) = .ok { s with network := network } := by
  change (enabled (Channel.move s.network m) >>= fun network => _) = _
  rw [enabled_ok.mpr h, ok_bind]

theorem receive_ok {e : ReceiverEvent} {datagrams : List (List Memory)} {network : Multiset Memory}
    {receiver : ReceiverRun} (hring : ∀ e', e ≠ .ring e')
    (harrives : s.receiver.Arrives e datagrams)
    (htake : Channel.take s.network (datagrams.flatten : Multiset Memory) = some network)
    (hmove : s.receiver.step build e = .ok receiver) :
    s.step build (.receive e datagrams) =
      .ok { s with network := network, receiver := receiver } := by
  have hstep : s.step build (.receive e datagrams) =
      if s.receiver.Arrives e datagrams then (do
        let network ← enabled (Channel.take s.network (datagrams.flatten : Multiset Memory))
        let receiver ← s.receiver.step build e
        .ok { s with network := network, receiver := receiver }) else .error .disabled := by
    cases e with
    | ring e => exact absurd rfl (hring e)
    | _ => rfl
  rw [hstep, if_pos harrives, enabled_ok.mpr htake, ok_bind, hmove, ok_bind]

theorem lose_each {xs : List Memory} (h : (xs : Multiset Memory) ≤ s.network) :
    run (step build) s (xs.map fun x => .network (.lose x)) =
        .ok { s with network := s.network - (xs : Multiset Memory) } ∧
      Guarded (step build) Keeps s (xs.map fun x => .network (.lose x)) := by
  induction xs generalizing s with
  | nil =>
    rw [Multiset.coe_nil, tsub_zero]
    exact ⟨rfl, trivial⟩
  | cons x xs ih =>
    have hx : x ∈ s.network := Multiset.mem_of_le h (Multiset.mem_coe.mpr List.mem_cons_self)
    have hstep : s.step build (.network (.lose x)) =
        .ok { s with network := s.network.erase x } := network_ok (if_pos hx)
    have hrest : (xs : Multiset Memory) ≤ s.network.erase x := by
      have herase := Multiset.erase_le_erase x h
      rwa [← Multiset.cons_coe, Multiset.erase_cons_head] at herase
    obtain ⟨hrun, hguard⟩ := ih (s := { s with network := s.network.erase x }) hrest
    rw [← Multiset.cons_coe, Multiset.sub_cons]
    refine ⟨run_cons_ok.mpr ⟨_, hstep, hrun⟩, ⟨rfl, trivial⟩, ?_⟩
    intro t ht
    cases hstep.symm.trans ht
    exact hguard

/-- Datagrams that are taken may as well be lost. -/
theorem lose_all {xs : List Memory} {network : Multiset Memory}
    (h : Channel.take s.network (xs : Multiset Memory) = some network) :
    run (step build) s (xs.map fun x => .network (.lose x)) =
        .ok { s with network := network } ∧
      Guarded (step build) Keeps s (xs.map fun x => .network (.lose x)) := by
  unfold Channel.take at h
  split at h
  · rename_i hle
    cases h
    exact lose_each hle
  · cases h

end Session

namespace Fleet
open Session (enabled enabled_ok)
variable {build : Build} {w : Wiring} {s s' : Fleet}

/-- What a step of a sender does to a fleet. -/
theorem step_send {i : Nat} {e : SenderRunEvent} (h : s.step build w (.send i e) = .ok s') :
    (∀ e', e ≠ .ring e') ∧ ∃ sender port sender', s.senders[i]? = some sender ∧
      w.destinations[i]? = some port ∧ sender.step e = .ok sender' ∧
      s' = { s with
        senders := s.senders.set i sender'
        network := s.network + addressed port (sender.transmitted e sender') } := by
  cases e with
  | ring e => cases h
  | _ =>
    refine ⟨by simp, ?_⟩
    simp only [step, bind_ok, enabled_ok] at h
    obtain ⟨sender, hsender, port, hport, sender', hmove, h⟩ := h
    cases h
    exact ⟨sender, port, sender', hsender, hport, hmove, rfl⟩

theorem step_network {m : Channel.Move (Nat × Memory)} (h : s.step build w (.network m) = .ok s') :
    ∃ network, Channel.move s.network m = some network ∧ s' = { s with network := network } := by
  simp only [step, bind_ok, enabled_ok] at h
  obtain ⟨network, hmove, h⟩ := h
  cases h
  exact ⟨network, hmove, rfl⟩

/-- What a step of a receiver does to a fleet. -/
theorem step_receive {j : Nat} {e : ReceiverEvent} {datagrams : List (List Memory)}
    (h : s.step build w (.receive j e datagrams) = .ok s') :
    (∀ e', e ≠ .ring e') ∧ ∃ receiver port network receiver', s.receivers[j]? = some receiver ∧
      w.sources[j]? = some port ∧ receiver.Arrives e datagrams ∧
      Channel.take s.network (addressed port datagrams.flatten) = some network ∧
      receiver.step build e = .ok receiver' ∧
      s' = { s with network := network, receivers := s.receivers.set j receiver' } := by
  cases e with
  | ring e => cases h
  | _ =>
    refine ⟨by simp, ?_⟩
    simp only [step, bind_ok, enabled_ok] at h
    obtain ⟨receiver, hreceiver, port, hport, h⟩ := h
    split at h
    · rename_i harrives
      simp only [bind_ok, enabled_ok] at h
      obtain ⟨network, htake, receiver', hmove, h⟩ := h
      cases h
      exact ⟨receiver, port, network, receiver', hreceiver, hport, harrives, htake, hmove, rfl⟩
    · cases h

/-- No interval that a step closes is dropped with packets in it, and no batch
is mixed. -/
def Keeps (s : Fleet) : FleetEvent → Prop
  | .send i e => ∀ sender ∈ s.senders[i]?, sender.Keeps .datagrams e
  | .network _ => True
  | .receive j e datagrams => (SessionEvent.receive e datagrams).unmixed = true ∧
    ∀ receiver ∈ s.receivers[j]?, receiver.Keeps .datagrams e

instance decidableKeeps (s : Fleet) : (e : FleetEvent) → Decidable (s.Keeps e)
  | .send i e => inferInstanceAs (Decidable (∀ sender ∈ s.senders[i]?, sender.Keeps .datagrams e))
  | .network _ => .isTrue trivial
  | .receive _ _ _ => inferInstanceAs (Decidable (_ ∧ _))

/-- A fleet as one receiver sees it: with the senders that send to its port. -/
structure View (w : Wiring) (port j : Nat) (s : Fleet) (t : Session) : Prop where
  senders : t.senders = Lists.select port w.destinations s.senders
  network : t.network = Channel.part port s.network
  receiver : s.receivers[j]? = some t.receiver

/-- What it sees of an event. Datagrams that another receiver of the port has
taken are lost to it. -/
def viewed (w : Wiring) (port j : Nat) : FleetEvent → List SessionEvent
  | .send i e =>
    if w.destinations[i]? = some port then [.send (Lists.rank port w.destinations i) e] else []
  | .network m => if m.key = port then [.network m.content] else []
  | .receive k e datagrams =>
    if k = j then [.receive e datagrams]
    else if w.sources[k]? = some port then datagrams.flatten.map fun x => .network (.lose x)
    else []

section
variable {port j : Nat} {t : Session}

theorem View.send (h : View w port j s t) {i : Nat} {e : SenderRunEvent}
    (hstep : s.step build w (.send i e) = .ok s') :
    ∃ t', run (Session.step build) t (viewed w port j (.send i e)) = .ok t' ∧
      (s.Keeps (.send i e) →
        Guarded (Session.step build) Session.Keeps t (viewed w port j (.send i e))) ∧
      View w port j s' t' := by
  obtain ⟨hring, sender, dest, sender', hsender, hdest, hmove, rfl⟩ := step_send hstep
  simp only [viewed, hdest, Option.some.injEq]
  by_cases hport : dest = port
  · subst hport
    rw [if_pos rfl]
    have hget : t.senders[Lists.rank dest w.destinations i]? = some sender := by
      rw [h.senders, Lists.select_get hdest, hsender]
    have hsend : t.step build _ = _ := Session.send_ok hget hring hmove
    refine ⟨_, run_cons_ok.mpr ⟨_, hsend, rfl⟩, ?_, ?_, ?_, h.receiver⟩
    · intro hkeeps
      refine ⟨⟨rfl, ?_⟩, fun _ _ => trivial⟩
      intro x hx
      cases hget.symm.trans hx
      exact hkeeps sender hsender
    · rw [Lists.select_set hdest, h.senders]
    · rw [Channel.part_add, h.network]
      exact congrArg (_ + ·) (Channel.part_map_self _).symm
  · rw [if_neg hport]
    refine ⟨t, rfl, fun _ => trivial, ?_, ?_, h.receiver⟩
    · rw [Lists.select_set_other hdest hport, h.senders]
    · rw [Channel.part_add, h.network, addressed, ← Multiset.map_coe,
        Channel.part_map_other hport, add_zero]

theorem View.move (h : View w port j s t) {m : Channel.Move (Nat × Memory)}
    (hstep : s.step build w (.network m) = .ok s') :
    ∃ t', run (Session.step build) t (viewed w port j (.network m)) = .ok t' ∧
      (s.Keeps (.network m) →
        Guarded (Session.step build) Session.Keeps t (viewed w port j (.network m))) ∧
      View w port j s' t' := by
  obtain ⟨network, hmove, rfl⟩ := step_network hstep
  simp only [viewed]
  by_cases hport : m.key = port
  · rw [if_pos hport]
    have hpart := Channel.move_part hmove hport
    rw [← h.network] at hpart
    exact ⟨_, run_cons_ok.mpr ⟨_, Session.network_ok hpart, rfl⟩,
      fun _ => ⟨⟨rfl, trivial⟩, fun _ _ => trivial⟩, h.senders, rfl, h.receiver⟩
  · rw [if_neg hport]
    exact ⟨t, rfl, fun _ => trivial, h.senders,
      h.network.trans (Channel.move_part_other hmove hport).symm, h.receiver⟩

theorem View.receive (h : View w port j s t) (hport : w.sources[j]? = some port) {k : Nat}
    {e : ReceiverEvent} {datagrams : List (List Memory)}
    (hstep : s.step build w (.receive k e datagrams) = .ok s') :
    ∃ t', run (Session.step build) t (viewed w port j (.receive k e datagrams)) = .ok t' ∧
      (s.Keeps (.receive k e datagrams) →
        Guarded (Session.step build) Session.Keeps t (viewed w port j (.receive k e datagrams))) ∧
      View w port j s' t' := by
  obtain ⟨hring, receiver, source, network, receiver', hreceiver, hsource, harrives, htake, hmove,
    rfl⟩ := step_receive hstep
  rw [addressed, ← Multiset.map_coe] at htake
  simp only [viewed, hsource, Option.some.injEq]
  by_cases hk : k = j
  · subst hk
    rw [if_pos rfl]
    cases hport.symm.trans hsource
    cases h.receiver.symm.trans hreceiver
    have hpart := Channel.take_part htake
    rw [← h.network] at hpart
    have hlt := (List.getElem?_eq_some_iff.mp hreceiver).1
    refine ⟨_, run_cons_ok.mpr ⟨_, Session.receive_ok hring harrives hpart hmove, rfl⟩,
      fun hkeeps => ⟨⟨hkeeps.1, hkeeps.2 _ hreceiver⟩, fun _ _ => trivial⟩, h.senders, rfl, ?_⟩
    exact List.getElem?_set_self hlt
  · have hothers : (s.receivers.set k receiver')[j]? = some t.receiver :=
      (List.getElem?_set_ne hk).trans h.receiver
    rw [if_neg hk]
    by_cases hsame : source = port
    · subst hsame
      rw [if_pos rfl]
      have hpart := Channel.take_part htake
      rw [← h.network] at hpart
      obtain ⟨hrun, hguard⟩ : run (Session.step build) t _ = _ ∧ _ := Session.lose_all hpart
      exact ⟨_, hrun, fun _ => hguard, h.senders, rfl, hothers⟩
    · rw [if_neg hsame]
      exact ⟨t, rfl, fun _ => trivial, h.senders,
        h.network.trans (Channel.take_part_other htake hsame).symm, hothers⟩

theorem View.step (h : View w port j s t) (hport : w.sources[j]? = some port) {e : FleetEvent}
    (hstep : s.step build w e = .ok s') :
    ∃ t', run (Session.step build) t (viewed w port j e) = .ok t' ∧
      (s.Keeps e → Guarded (Session.step build) Session.Keeps t (viewed w port j e)) ∧
      View w port j s' t' := by
  cases e with
  | send i e => exact h.send hstep
  | network m => exact h.move hstep
  | receive k e datagrams => exact h.receive hport hstep

variable {plans : List Plan} {posts : List Post} {post : Post} {events : List FleetEvent}

theorem View.start (w : Wiring) (port : Nat) (plans : List Plan) (hpost : posts[j]? = some post) :
    View w port j (start plans posts)
      (Session.start (Lists.select port w.destinations plans) post) := by
  refine ⟨(Lists.select_map _ _).symm, rfl, ?_⟩
  simp only [Fleet.start, List.getElem?_map, hpost, Option.map_some]
  rfl

/-- Whatever a fleet does, to one of its receivers it looks like a session with
the senders of its port. -/
theorem run_viewed (hpost : posts[j]? = some post) (hport : w.sources[j]? = some port)
    (h : run (step build w) (start plans posts) events = .ok s) :
    ∃ t, run (Session.step build) (Session.start (Lists.select port w.destinations plans) post)
      (events.flatMap (viewed w port j)) = .ok t ∧ View w port j s t := by
  have hstep : ∀ s e s' t, View w port j s t → True → step build w s e = .ok s' →
      ∃ t', run (Session.step build) t (viewed w port j e) = .ok t' ∧
        Guarded (Session.step build) (fun _ _ => True) t (viewed w port j e) ∧
        View w port j s' t' := by
    intro s e s' t hview _ hstep
    obtain ⟨t', hrun, _, hview'⟩ := hview.step hport hstep
    exact ⟨t', hrun, .of_forall (fun _ _ => trivial) _ _, hview'⟩
  obtain ⟨t, hrun, _, hview⟩ := run_matched hstep (View.start w port plans hpost)
    (.of_forall (fun _ _ => trivial) _ _) h
  exact ⟨t, hrun, hview⟩

end
end Fleet
end Nperf
