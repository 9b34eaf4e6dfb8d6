import Nperf.Model.CommandParser
import Nperf.Proofs.Loop

namespace Nperf
open Rust Bytes Runs

/-- The requests pushed that have not posted their last completion. -/
def Ring.requests (r : Ring) : Nat := r.sq.length + r.live.length

/-- The multishot request of the loop, as its flag has it. -/
structure UringLoop.Truthful (s : UringLoop) : Prop where
  single : s.ring.requests ≤ 1
  flag : s.phase = .fill → (s.armed = false ↔ s.ring.requests = 0)

/-- The msghdr that is built from the payload of a multishot completion. -/
def Cqe.payloadMsghdr (c : Cqe) : Msghdr :=
  providedMsghdr c.delivery.payload (c.result - uringAdditionalBufferLength).toNat
    c.delivery.control c.delivery.controllen

/-- The completion makes the handler return an error that the loop survives. -/
def Cqe.Interrupts (c : Cqe) : Prop :=
  parseReceivedBytes c.result = .error .eagain ∨
    parseReceivedBytes c.result = .ok 1 ∧
      (c.payloadMsghdr.messageType = .ok .init ∨ c.payloadMsghdr.messageType = .ok .last)

instance (c : Cqe) : Decidable c.Interrupts :=
  inferInstanceAs (Decidable (_ ∨ _ ∧ (_ ∨ _)))

theorem Receiver.completeMultishot_ok {build : Build} {clock : Clock} {c : Cqe} {r r' : Receiver}
    {armed armed' : Bool} {result : Except Error Unit}
    (h : completeMultishot (handleRecvmsgReturn build clock) c (r, armed) =
      .ok (result, r', armed')) :
    r.Kept r' ∧ (result = .ok () → armed' = (armed && c.more) ∧ ¬c.Interrupts) ∧
      ∀ e, result = .error e → e.Resumes → c.Interrupts := by
  cases completeMultishot_cases h with
  | @failed e bytes =>
    refine ⟨.refl r, by simp, fun e' he' hresumes => ?_⟩
    cases he'
    rcases parseReceivedBytes_error bytes with rfl | rfl
    · exact .inl bytes
    · exact absurd hresumes (by simp [Error.Resumes])
  | empty bytes => exact ⟨.refl r, fun _ => ⟨rfl, by simp [Cqe.Interrupts, bytes]⟩, by simp⟩
  | handled bytes goes =>
    obtain ⟨hok, herror⟩ := handleRecvmsgReturn_given goes
    refine ⟨(handleRecvmsgReturn_ok goes).1, fun hresult => ⟨rfl, ?_⟩,
      fun e he hresumes => .inr ⟨bytes, herror e he hresumes⟩⟩
    have hdata : c.payloadMsghdr.messageType = .ok .measurement := hok hresult
    simp [Cqe.Interrupts, bytes, hdata]

/-- Where the handler stands after the completions `done`. -/
structure Receiver.Reaped (r : Receiver) (done : List Cqe) (s : Receiver × Bool) : Prop where
  kept : r.Kept s.1
  armed : s.2 = done.all Cqe.more
  quiet : ∀ c ∈ done, ¬c.Interrupts

theorem Receiver.Reaped.round {build : Build} {clock : Clock} {r : Receiver} {done : List Cqe}
    {c : Cqe} {s s' : Receiver × Bool} (hs : r.Reaped done s)
    (h : completeMultishot (handleRecvmsgReturn build clock) c s = .ok (.ok (), s')) :
    r.Reaped (done ++ [c]) s' := by
  obtain ⟨hkept, hok, _⟩ := completeMultishot_ok h
  obtain ⟨harmed, hc⟩ := hok rfl
  refine ⟨hs.kept.trans hkept, by simp [harmed, hs.armed], ?_⟩
  exact List.forall_mem_append.mpr ⟨hs.quiet, by simpa using hc⟩

/-- The handler either drains the queue, and then the flag is up to date, or
stops at a completion that interrupts it. -/
theorem Receiver.ioUringCompleteMultishot_ok {build : Build} {clock : Nat → Clock}
    {r r' : Receiver} {cq rest : List Cqe} {result : Except Error Bool}
    (h : r.ioUringCompleteMultishot build clock cq = .ok (result, r', rest)) :
    r.Kept r' ∧
      ((result = .ok (cq.all Cqe.more) ∧ rest = [] ∧ ∀ c ∈ cq, ¬c.Interrupts) ∨
        ∃ e, result = .error e ∧ (e.Resumes → ∃ c ∈ cq, c.Interrupts)) := by
  simp only [ioUringCompleteMultishot, bind_ok] at h
  obtain ⟨⟨drained, ⟨r'', armed⟩, rest'⟩, hdrain, h⟩ := h
  cases h
  have hstart : r.Reaped [] (r, true) := ⟨.refl r, rfl, by simp⟩
  rcases Queue.drain_cases [] (R := r.Reaped) (fun _ _ _ _ _ hs => hs.round) hstart hdrain with
    ⟨rfl, hrest, hall⟩ | ⟨e, front, c, j, t, rfl, hcq, hfront, hbody⟩
  · have harmed := hall.armed
    simp only [List.nil_append] at harmed
    exact ⟨hall.kept, .inl ⟨by rw [map_ok, harmed], hrest, hall.quiet⟩⟩
  · obtain ⟨hkept, _, herror⟩ := completeMultishot_ok hbody
    refine ⟨hfront.kept.trans hkept, .inr ⟨e, rfl, ?_⟩⟩
    intro hresumes
    exact ⟨c, by simp [hcq], herror e rfl hresumes⟩

/-- What the flag needs of a step. The kernel does not end the request between
the handler and `fill_sq_and_submit`. A batch that interrupts the handler comes
while the flag still is right; any other batch has the last completion of a
request only if no request is there. -/
def UringLoop.FlagSafe (s : UringLoop) : UringEvent → Prop
  | .post c => s.phase = .fill → c.more = true
  | .complete _ =>
    ((∃ c ∈ s.ring.cq, c.Interrupts) → (s.armed = false ↔ s.ring.requests = 0)) ∧
      ((∀ c ∈ s.ring.cq, ¬c.Interrupts) → s.ring.requests = 0 ∨ ∀ c ∈ s.ring.cq, c.more = true)
  | _ => True

instance (s : UringLoop) : ∀ e, Decidable (s.FlagSafe e)
  | .fill _ _ | .take _ | .enter _ _ => inferInstanceAs (Decidable True)
  | .post _ => inferInstanceAs (Decidable (_ → _))
  | .complete _ => inferInstanceAs (Decidable ((_ → _) ∧ (_ → _ ∨ _)))

/-- A request that is gone has left its last completion in the queue. -/
structure UringLoop.Shot (s : UringLoop) : Prop where
  mode : s.uring.uringMode = .multishot
  ended : s.phase = .complete ∨ (∃ n, s.phase = .enter n) → s.ring.requests = 0 →
    ∃ c ∈ s.ring.cq, c.more = false

namespace UringLoop
variable {build : Build} {s s' : UringLoop}

theorem fillMultishot_ok {room : Nat} (h : s.fillMultishot room = .ok s') :
    s'.receiver = s.receiver ∧ s'.armed = s.armed ∧
      (s.armed = true ∧ s'.ring = s.ring ∧ s'.phase = .enter 0 ∨
        s.armed = false ∧ s'.ring = s.ring.push [0] ∧ s'.phase = .enter 1 ∨
        s'.ring = s.ring ∧ ∃ e, s'.phase = .returned (.error e)) := by
  simp only [fillMultishot] at h
  split at h
  · rename_i harmed
    cases h
    exact ⟨rfl, rfl, .inl ⟨harmed, rfl, rfl⟩⟩
  · rename_i harmed
    unfold IoUringMultishot.submit at h
    split at h
    · rename_i e he
      cases h
      exact ⟨rfl, rfl, .inr (.inr ⟨rfl, e, rfl⟩)⟩
    · rename_i requests hrequests
      split at hrequests
      · cases hrequests
      · cases hrequests
        obtain ⟨hreceiver, hring, _, harmed', hphase⟩ := pushed_ok h
        exact ⟨hreceiver, harmed', .inr (.inl ⟨by simpa using harmed, hring, hphase⟩)⟩

theorem completeMultishot_ok {clock : Nat → Clock} (hmode : s.uring.uringMode = .multishot)
    (h : s.complete build clock = .ok s') :
    s'.uring = s.uring ∧ s'.ring.sq = s.ring.sq ∧ s'.ring.live = s.ring.live ∧
      (s'.phase = .fill ∧ s'.armed = s.ring.cq.all Cqe.more ∧ (∀ c ∈ s.ring.cq, ¬c.Interrupts) ∨
        s'.phase = .fill ∧ s'.armed = s.armed ∧ (∃ c ∈ s.ring.cq, c.Interrupts) ∨
        ∃ result, s'.phase = .returned result) := by
  simp only [complete, hmode, bind_ok] at h
  obtain ⟨⟨result, r, rest⟩, hdrain, h⟩ := h
  obtain ⟨hkept, ⟨rfl, rfl, hquiet⟩ | ⟨e, rfl, hinterrupts⟩⟩ :=
    Receiver.ioUringCompleteMultishot_ok hdrain
  · cases h
    refine ⟨?_, rfl, rfl, .inl ⟨rfl, rfl, hquiet⟩⟩
    simp only [rearmed, uring, hkept.parameter]
  · obtain ⟨hk, hphase⟩ := interrupted_ok h
    refine ⟨?_, by rw [hk.ring], by rw [hk.ring], .inr ?_⟩
    · rw [hk.uring]
      simp only [uring, hkept.parameter]
    · rcases hphase with ⟨hfill, hresumes⟩ | ⟨result, hreturned, _⟩
      · exact .inl ⟨hfill, hk.armed, hinterrupts hresumes⟩
      · exact .inr ⟨result, hreturned⟩

theorem Truthful.fill {clock : Clock} {room : Nat} (hs : s.Shot) (hp : s.Truthful)
    (h : s.step build (.fill clock room) = .ok s') : s'.Shot ∧ s'.Truthful := by
  obtain ⟨hphase, _, h⟩ := step_fill h
  have hmode := hs.mode
  have hflag := hp.flag hphase
  have hsingle := hp.single
  simp only [UringLoop.fill, hmode] at h
  obtain ⟨hreceiver, _, ⟨harmed, hring, hphase'⟩ | ⟨harmed, hring, hphase'⟩ |
    ⟨hring, e, hphase'⟩⟩ := fillMultishot_ok h
  all_goals
    have hmode' : s'.uring.uringMode = .multishot := by simpa only [uring, hreceiver] using hmode
  · have hlive : s'.ring.requests ≠ 0 := by
      rw [hring]
      intro hzero
      exact Bool.noConfusion (harmed.symm.trans (hflag.mpr hzero))
    exact ⟨⟨hmode', fun _ hzero => absurd hzero hlive⟩, by rw [hring]; exact hsingle,
      fun hfill => Phase.noConfusion (hphase'.symm.trans hfill)⟩
  · have hone : s'.ring.requests = 1 := by
      have hzero := hflag.mp harmed
      simp only [hring, Ring.requests, Ring.push, List.length_append, List.length_singleton] at *
      omega
    exact ⟨⟨hmode', fun _ hzero => by omega⟩, by omega,
      fun hfill => Phase.noConfusion (hphase'.symm.trans hfill)⟩
  · refine ⟨⟨hmode', ?_⟩, by rw [hring]; exact hsingle,
      fun hfill => Phase.noConfusion (hphase'.symm.trans hfill)⟩
    intro hphase
    rcases hphase with hcomplete | ⟨n, henter⟩
    · exact Phase.noConfusion (hphase'.symm.trans hcomplete)
    · exact Phase.noConfusion (hphase'.symm.trans henter)

theorem Truthful.take {n : Nat} (hs : s.Shot) (hp : s.Truthful)
    (h : s.step build (.take n) = .ok s') : s'.Shot ∧ s'.Truthful := by
  obtain ⟨hn, rfl⟩ := step_take h
  have hsame : (s.ring.take n).requests = s.ring.requests := by
    simp only [Ring.requests, Ring.take, List.length_append, List.length_take, List.length_drop]
    omega
  refine ⟨⟨hs.mode, ?_⟩, ?_, ?_⟩
  · intro hphase hzero
    exact hs.ended hphase (hsame ▸ hzero)
  · exact hsame ▸ hp.single
  · intro hphase
    exact hsame ▸ hp.flag hphase

/-- A completion with `IORING_CQE_F_MORE` changes no request, one without it
ends the only one there is. -/
theorem Truthful.post {c : Cqe} (hs : s.Shot) (hp : s.Truthful)
    (h : s.step build (.post c) = .ok s') :
    s'.Shot ∧ (s'.Truthful ↔ s.FlagSafe (.post c)) := by
  obtain ⟨hlive, _, rfl⟩ := step_post h
  have hmode : s.uring.uringMode = .multishot := hs.mode
  have hpos := List.length_pos_of_mem hlive
  have hsingle := hp.single
  have hrequests : (s.post c).ring.requests = if c.more then s.ring.requests else 0 := by
    simp only [UringLoop.post, hmode, true_and, Ring.requests]
    split
    · rfl
    · simp only [List.length_erase_of_mem hlive, Ring.requests] at *
      omega
  have hone : s.ring.requests = 1 := by
    simp only [Ring.requests] at *
    omega
  refine ⟨⟨hs.mode, ?_⟩, ?_⟩
  · intro _ hzero
    refine ⟨c, by simp [UringLoop.post], ?_⟩
    cases hmore : c.more with
    | false => rfl
    | true =>
      rw [hrequests, hmore] at hzero
      simp [hone] at hzero
  · cases hmore : c.more with
    | true =>
      simp only [hmore, ↓reduceIte] at hrequests
      refine ⟨fun _ _ => hmore, fun _ => ⟨hrequests ▸ hsingle, ?_⟩⟩
      intro hphase
      exact hrequests ▸ hp.flag hphase
    | false =>
      simp only [hmore, Bool.false_eq_true, ↓reduceIte] at hrequests
      constructor
      · intro ht hphase
        have hunarmed : s.armed = false := (ht.flag hphase).mpr hrequests
        have := (hp.flag hphase).mp hunarmed
        omega
      · intro hsafe
        refine ⟨by omega, ?_⟩
        intro hphase
        exact Bool.noConfusion (hmore.symm.trans (hsafe hphase))

theorem Truthful.enter {result : EnterResult} {clock : Clock} (hs : s.Shot) (hp : s.Truthful)
    (h : s.step build (.enter result clock) = .ok s') : s'.Shot ∧ s'.Truthful := by
  obtain ⟨n, hphase, h⟩ := step_enter h
  obtain ⟨hkept, hring, _, hphase'⟩ := enter_ok h
  have hnot : s'.phase ≠ .fill := by
    rcases hphase' with ⟨hreturned, _⟩ | ⟨hcomplete, _⟩
    · exact fun hfill => by cases hreturned.symm.trans hfill
    · exact fun hfill => by cases hcomplete.symm.trans hfill
  refine ⟨⟨?_, ?_⟩, by rw [hring]; exact hp.single, fun hfill => absurd hfill hnot⟩
  · simpa only [uring, hkept.parameter] using hs.mode
  · intro _ hzero
    rw [hring] at hzero ⊢
    exact hs.ended (.inr ⟨n, hphase⟩) hzero

theorem Truthful.complete {clock : Nat → Clock} (hs : s.Shot) (hp : s.Truthful)
    (h : s.step build (.complete clock) = .ok s') :
    s'.Shot ∧ (s.FlagSafe (.complete clock) → s'.Truthful) ∧
      (s'.Going → s'.Truthful → s.FlagSafe (.complete clock)) := by
  obtain ⟨hphase, h⟩ := step_complete h
  obtain ⟨huring, hsq, hlive, houtcome⟩ := completeMultishot_ok hs.mode h
  have hrequests : s'.ring.requests = s.ring.requests := by
    simp only [Ring.requests, hsq, hlive]
  have hended := hs.ended (.inl hphase)
  have hmode' : s'.uring.uringMode = .multishot := huring ▸ hs.mode
  have hshot : ∀ p, s'.phase = p → p ≠ .complete → (∀ n, p ≠ .enter n) → s'.Shot := by
    rintro _ rfl hcomplete henter
    refine ⟨hmode', ?_⟩
    intro hphase
    rcases hphase with hc | ⟨n, hn⟩
    · exact absurd hc hcomplete
    · exact absurd hn (henter n)
  have hsingle : s'.ring.requests ≤ 1 := hrequests ▸ hp.single
  rcases houtcome with ⟨hfill, harmed, hquiet⟩ | ⟨hfill, harmed, hinterrupts⟩ |
    ⟨result, hreturned⟩
  · have hiff : s'.armed = false ↔ ∃ c ∈ s.ring.cq, c.more = false := by
      simp [harmed]
    refine ⟨hshot _ hfill (by simp) (by simp), ?_, ?_⟩
    · intro hsteps
      obtain ⟨_, hsafe⟩ := hsteps
      refine ⟨hsingle, fun _ => ?_⟩
      rw [hiff, hrequests]
      refine ⟨?_, hended⟩
      intro hlast
      obtain ⟨c, hc, hmore⟩ := hlast
      rcases hsafe hquiet with hzero | hall
      · exact hzero
      · cases hmore.symm.trans (hall c hc)
    · intro _ ht
      refine ⟨fun hinterrupted => ?_, fun _ => ?_⟩
      · obtain ⟨c, hc, hinterrupts⟩ := hinterrupted
        exact absurd hinterrupts (hquiet c hc)
      have hflag := ht.flag hfill
      rw [hiff, hrequests] at hflag
      by_cases hzero : s.ring.requests = 0
      · exact .inl hzero
      · right
        intro c hc
        cases hmore : c.more with
        | true => rfl
        | false => exact absurd (hflag.mp ⟨c, hc, hmore⟩) hzero
  · refine ⟨hshot _ hfill (by simp) (by simp), ?_, ?_⟩
    · intro hsteps
      obtain ⟨hsafe, _⟩ := hsteps
      exact ⟨hsingle, fun _ => by rw [harmed, hrequests]; exact hsafe hinterrupts⟩
    · intro _ ht
      obtain ⟨c, hc, hinterrupt⟩ := hinterrupts
      have hflag := ht.flag hfill
      rw [harmed, hrequests] at hflag
      exact ⟨fun _ => hflag, fun hquiet => absurd hinterrupt (hquiet c hc)⟩
  · refine ⟨hshot _ hreturned (by simp) (by simp), ?_, ?_⟩
    · exact fun _ => ⟨hsingle, fun hfill => by cases hreturned.symm.trans hfill⟩
    · exact fun hgoing => absurd hreturned (hgoing result)

theorem Truthful.step {e : UringEvent} (hs : s.Shot) (hp : s.Truthful)
    (h : s.step build e = .ok s') :
    s'.Shot ∧ (s.FlagSafe e → s'.Truthful) ∧ (s'.Going → s'.Truthful → s.FlagSafe e) := by
  cases e with
  | fill clock room =>
    obtain ⟨hs', hp'⟩ := hp.fill hs h
    exact ⟨hs', fun _ => hp', fun _ _ => trivial⟩
  | take n =>
    obtain ⟨hs', hp'⟩ := hp.take hs h
    exact ⟨hs', fun _ => hp', fun _ _ => trivial⟩
  | post c =>
    obtain ⟨hs', hp'⟩ := hp.post hs h
    exact ⟨hs', hp'.mpr, fun _ => hp'.mp⟩
  | enter result clock =>
    obtain ⟨hs', hp'⟩ := hp.enter hs h
    exact ⟨hs', fun _ => hp', fun _ _ => trivial⟩
  | complete clock => exact hp.complete hs h

theorem Truthful.start (clock : Clock) {r : Receiver}
    (hmode : r.parameter.uringParameter.uringMode = .multishot) :
    (start clock r).Shot ∧ (start clock r).Truthful := by
  refine ⟨⟨hmode, ?_⟩, ⟨Nat.zero_le 1, fun _ => ⟨fun _ => rfl, fun _ => rfl⟩⟩⟩
  intro hphase
  rcases hphase with hcomplete | ⟨n, henter⟩
  · cases hcomplete
  · cases henter

end UringLoop

/-- The armed flag tells the truth in runs whose steps are all safe for it, and
as long as the loop goes on in no others. -/
theorem multishot_flag_iff (build : Build) (clock : Clock) (r : Receiver)
    (hmode : r.parameter.uringParameter.uringMode = .multishot) (events : List UringEvent)
    (s : UringLoop) (hrun : run (UringLoop.step build) (.start clock r) events = .ok s) :
    (Guarded (UringLoop.step build) UringLoop.FlagSafe (.start clock r) events →
      Always (UringLoop.step build) UringLoop.Truthful (.start clock r) events) ∧
    (s.Going → Always (UringLoop.step build) UringLoop.Truthful (.start clock r) events →
      Guarded (UringLoop.step build) UringLoop.FlagSafe (.start clock r) events) := by
  obtain ⟨hs, hp⟩ := UringLoop.Truthful.start clock hmode
  constructor
  · exact always_of_guarded (fun _ => True) (fun _ _ _ _ _ => trivial)
      (fun _ _ _ hs hp h => (hp.step hs h).1)
      (fun _ _ _ hs hp _ h => (hp.step hs h).2.1) hs hp hrun trivial
  · exact fun hgoing => guarded_of_always UringLoop.Going (fun _ _ _ h hg => hg.back h)
      (fun _ _ _ hs hp h => (hp.step hs h).1)
      (fun _ _ _ hs hp hg h => (hp.step hs h).2.2 hg) hs hrun hgoing

/-- A multishot completion with a packet of test 0 and the flag
`IORING_CQE_F_MORE`. -/
def Cqe.shot (mtype : MessageType) (packetId : Nat) : Cqe :=
  { result := 64, userData := 0, flags := 2, delivery := .packet mtype 0 packetId }

/-- The data of a test arrives in two batches. -/
theorem multishot_flag_measurements :
    let r := (Receiver.new ⟨0, 0⟩ (.oneEntry .multishot)).toOption.get (by decide)
    let events : List UringEvent :=
      [.fill ⟨0, 0⟩ 1, .take 1, .post (.shot .measurement 0), .enter .submitted ⟨0, 0⟩,
        .complete (fun _ => ⟨0, 0⟩), .post (.shot .measurement 1), .fill ⟨0, 0⟩ 0,
        .post (.shot .measurement 2), .enter .submitted ⟨0, 0⟩, .complete (fun _ => ⟨0, 0⟩)]
    Always (UringLoop.step .debug) UringLoop.Truthful (.start ⟨0, 0⟩ r) events := by
  intro r events
  obtain ⟨s, hrun, _⟩ := checked (p := fun _ => True)
    (x := run (UringLoop.step .debug) (.start ⟨0, 0⟩ r) events) (by decide +kernel)
  exact (multishot_flag_iff .debug ⟨0, 0⟩ r rfl events s hrun).1 (by decide +kernel)

/-- The INIT message of the first test leaves the flag unset though the request
that brought it is live: the loop pushes another one. -/
theorem multishot_armed_twice :
    let r := (Receiver.new ⟨0, 0⟩ (.oneEntry .multishot)).toOption.get (by decide)
    ∃ s t, run (UringLoop.step .debug) (.start ⟨0, 0⟩ r)
          [.fill ⟨0, 0⟩ 1, .take 1, .post (.shot .init 0), .enter .submitted ⟨0, 0⟩,
            .complete (fun _ => ⟨0, 0⟩)] = .ok s ∧
        s.phase = .fill ∧ s.armed = false ∧ s.ring.live = [0] ∧
        s.step .debug (.fill ⟨0, 0⟩ 1) = .ok t ∧ t.ring.requests = 2 :=
  ⟨_, _, rfl, rfl, rfl, rfl, rfl, rfl⟩

end Nperf
