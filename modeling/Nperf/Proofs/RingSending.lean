import Nperf.Proofs.RingReceiving
import Nperf.Proofs.SendTotals
import Nperf.Proofs.Totals

namespace Nperf
open Rust Runs

theorem Sender.Settles.sameRing {zerocopy : Bool} {k : Nat} {c : SendCqe} {st st' : Statistic}
    {result : Except Error Unit} (h : Settles zerocopy k c st result st') : st.SameRing st' := by
  cases h with
  | refused => exact ⟨rfl, rfl, rfl, rfl, rfl⟩
  | sent => exact ⟨rfl, rfl, rfl, rfl, rfl⟩
  | notified => exact .refl st
  | copied => exact ⟨rfl, rfl, rfl, rfl, rfl⟩
  | failed => exact .refl st

/-- A sender without intervals, whose statistic knows nothing of a ring. -/
structure Sender.Plain (p : Parameter) (s : Sender) : Prop where
  parameter : s.parameter = p
  disabled : s.statisticInterval.outputInterval = 0
  unrecorded : s.statisticInterval.statistics = []
  statistic : s.statistic.Counted p []

namespace Sender
variable {p : Parameter} {s s' : Sender} {cq rest : List SendCqe} {result : Except Error Nat}

/-- The statistic and the buffers may change. -/
theorem Plain.of_eq (hs : s.Plain p) (hparameter : s'.parameter = s.parameter)
    (hinterval : s'.statisticInterval = s.statisticInterval)
    (hstatistic : s.statistic.SameRing s'.statistic) : s'.Plain p :=
  ⟨hparameter.trans hs.parameter, by rw [hinterval]; exact hs.disabled,
    by rw [hinterval]; exact hs.unrecorded, hs.statistic.same hstatistic⟩

theorem ioUringCompleteSend_plain (hs : s.Plain p)
    (h : s.ioUringCompleteSend cq = .ok (result, s', rest)) : s'.Plain p := by
  obtain ⟨hparameter, hinterval, hsame⟩ := ioUringCompleteSend_rel .refl
    (fun _ _ _ h h' => h.trans h') (fun _ _ _ _ _ h => h.sameRing) h
  exact hs.of_eq hparameter hinterval hsame

theorem ioUringCompleteSendZc_plain (hs : s.Plain p)
    (h : s.ioUringCompleteSendZc cq = .ok (result, s', rest)) : s'.Plain p := by
  obtain ⟨hparameter, hinterval, hsame⟩ := ioUringCompleteSendZc_rel .refl
    (fun _ _ _ h h' => h.trans h') (fun _ _ _ _ _ h => h.sameRing) h
  exact hs.of_eq hparameter hinterval hsame

theorem Plain.closeInterval (hs : s.Plain p) (clock : Clock) : s.closeInterval clock = s := by
  rw [Sender.closeInterval, StatisticInterval.disabled_expired hs.disabled,
    if_neg Bool.false_ne_true]

end Sender

namespace SenderLoop
variable {p : Parameter} {s s' : SenderLoop}

/-- What the ring instance notes down in a step. -/
def observed (s : SenderLoop) (e : SenderEvent) (s' : SenderLoop) : List Metric :=
  match e with
  | .fill _ _ _ =>
    match s'.phase with
    | .enter _ => Statistic.sample s.sender.parameter (.sq s'.ring.sq.length)
    | _ => []
  | .enter result => Statistic.enterSamples s.sender.parameter s.ring.cq.length result
  | .take _ | .post _ | .complete => []

/-- The event makes the ring instance count: an overflow is reported, or a node
that records submits something. -/
def Shows (s : SenderLoop) : SenderEvent → Prop
  | .fill time _ _ =>
    s.uring.recordUtilization ∧ s.sender.running s.startTime time ∧
      calcSqFillMode (asU32 s.sender.packetBuffer.getPoolInflight) s.uring s.ring.ring ≠ .ok (0, 0)
  | .enter result => result = .busy ∨ s.uring.recordUtilization
  | .take _ | .post _ | .complete => False

theorem closeInterval_sender (hs : s.sender.Plain p) (clock : Clock) :
    (s.closeInterval clock).sender = s.sender :=
  hs.closeInterval clock

instance (s : SenderLoop) : (e : SenderEvent) → Decidable (s.Shows e)
  | .fill _ _ _ => inferInstanceAs (Decidable (_ ∧ _ ∧ _ ≠ _))
  | .enter _ => inferInstanceAs (Decidable (_ ∨ _))
  | .take _ | .post _ | .complete => inferInstanceAs (Decidable False)

theorem submit_plain {room : Nat} (hs : s.sender.Plain p) (h : s.submit room = .ok s') :
    s'.sender.Plain p := by
  obtain ⟨_, _, _, ⟨_, rfl⟩ | ⟨_, _, b, _, hsender, _⟩⟩ := submit_ok h
  · exact hs
  · rw [hsender]
    exact hs.of_eq rfl rfl (.refl _)

/-- The loop returns, or goes on with the submission. -/
theorem fill_cases {time clock : Clock} {room : Nat} (hs : s.sender.Plain p)
    (h : s.fill time clock room = .ok s') :
    (∃ e, s' = { s with phase := .returned (.error e) }) ∨
      s.sender.running s.startTime time = false ∧ s' = { s with phase := .returned (.ok ()) } ∨
      s.sender.running s.startTime time = true ∧ ∃ t : SenderLoop, t.submit room = .ok s' ∧
        t.sender.Plain p ∧ t.sender.packetBuffer = s.sender.packetBuffer ∧ t.ring = s.ring := by
  rcases fill_branches h with ⟨_, rfl⟩ | ⟨_, ⟨hstopped, rfl⟩ | ⟨hrunning, statistic, hrecord, h⟩⟩
  · exact .inl ⟨_, rfl⟩
  · exact .inr (.inl ⟨hstopped, rfl⟩)
  · have hplain : Sender.Plain p { s.sender with statistic := statistic.countIoModelCall } :=
      hs.of_eq rfl rfl ((Statistic.sameRing_recordInflight hrecord).trans
        ⟨rfl, rfl, rfl, rfl, rfl⟩)
    have hclose := closeInterval_sender (s := { s with
      sender := { s.sender with statistic := statistic.countIoModelCall } }) hplain clock
    exact .inr (.inr ⟨hrunning, _, h, by rw [hclose]; exact hplain, by rw [hclose], rfl⟩)

/-- A submission does nothing, fails, or notes down the length of the queue. -/
theorem submit_cases {room : Nat} (h : s.submit room = .ok s') :
    (calcSqFillMode (asU32 s.sender.packetBuffer.getPoolInflight) s.uring s.ring.ring =
      .ok (0, 0) ∧ s'.phase = .complete) ∨ (∃ e, s'.phase = .returned (.error e)) ∨
    calcSqFillMode (asU32 s.sender.packetBuffer.getPoolInflight) s.uring s.ring.ring ≠
      .ok (0, 0) ∧ ∃ n, s'.phase = .enter n := by
  simp only [submit, bind_ok] at h
  obtain ⟨⟨toSubmit, minComplete⟩, hcalc, h⟩ := h
  simp only at h
  split at h
  · rename_i hnothing
    cases h
    refine .inl ⟨?_, rfl⟩
    rw [hcalc, hnothing.1, hnothing.2]
  · rename_i hsomething
    obtain ⟨⟨result, requests, b⟩, _, h⟩ := bind_ok.mp h
    simp only at h
    split at h
    · cases h
      exact .inr (.inl ⟨_, rfl⟩)
    · obtain ⟨_, _, h⟩ := bind_ok.mp h
      cases h
      refine .inr (.inr ⟨fun hzero => ?_, _, rfl⟩)
      cases hcalc.symm.trans hzero
      exact hsomething ⟨rfl, rfl⟩

theorem step_plain {e : SenderEvent} (hs : s.sender.Plain p) (h : s.step e = .ok s') :
    s'.sender.Plain p := by
  cases e with
  | fill time clock room =>
    rcases fill_cases hs (step_fill h).2.2 with ⟨_, rfl⟩ | ⟨_, rfl⟩ | ⟨_, t, hsubmit, ht, _⟩
    · exact hs
    · exact hs
    · exact submit_plain ht hsubmit
  | take n =>
    obtain ⟨_, rfl⟩ := step_take h
    exact hs
  | post c =>
    obtain ⟨_, _, rfl⟩ := step_post h
    exact hs
  | enter result =>
    obtain ⟨n, _, h⟩ := step_enter h
    obtain ⟨_, _, _, ⟨_, hsender⟩ | ⟨_, _, hsender, _⟩⟩ := enter_ok h
    · exact hsender ▸ hs
    · rw [hsender]
      exact hs.of_eq rfl rfl (.refl _)
  | complete =>
    obtain ⟨⟨result, sender, cq⟩, hdrain, h⟩ := bind_ok.mp (step_complete h).2
    have hplain : sender.Plain p := by
      unfold handleCompletions at hdrain
      split at hdrain
      · exact Sender.ioUringCompleteSendZc_plain hs hdrain
      · exact Sender.ioUringCompleteSend_plain hs hdrain
    simp only at h
    split at h
    · obtain ⟨_, _, h⟩ := bind_ok.mp h
      cases h
      exact hplain
    · cases h
      exact hplain.of_eq rfl rfl ⟨rfl, rfl, rfl, rfl, rfl⟩
    · cases h
      exact hplain

theorem sample_eq_nil_iff (p : Parameter) (m : Metric) :
    Statistic.sample p m = [] ↔ ¬p.uringParameter.recordUtilization := by
  unfold Statistic.sample
  split <;> simp [*]

/-- In a step that does not fail, something is noted down exactly if the event
makes the ring instance count. -/
theorem observed_iff {e : SenderEvent} (hs : s.sender.Plain p) (h : s.step e = .ok s')
    (hgoes : ∀ e, s'.phase ≠ .returned (.error e)) : s.observed e s' = [] ↔ ¬s.Shows e := by
  cases e with
  | fill time clock room =>
    have hparameter := hs.parameter
    simp only [observed, Shows]
    rcases fill_cases hs (step_fill h).2.2 with ⟨_, rfl⟩ | ⟨hstopped, rfl⟩ |
      ⟨hrunning, t, hsubmit, ht, hbuffer, hring⟩
    · exact absurd rfl (hgoes _)
    · simp [hstopped]
    · have huring : t.uring = s.uring := by
        simp only [uring, ht.parameter, hs.parameter]
      have hcases := submit_cases hsubmit
      rw [hbuffer, hring, huring] at hcases
      rcases hcases with ⟨hcalc, hphase⟩ | ⟨e, hphase⟩ | ⟨hcalc, n, hphase⟩
      · simp [hphase, hcalc]
      · exact absurd hphase (hgoes e)
      · simp only [hphase, sample_eq_nil_iff, hrunning, hcalc, ne_eq, not_false_eq_true,
          and_true]
        rfl
  | take n => simp [observed, Shows]
  | post c => simp [observed, Shows]
  | enter result =>
    obtain ⟨n, _, h⟩ := step_enter h
    simp only [observed, Shows]
    cases result with
    | submitted => simp [Statistic.enterSamples, sample_eq_nil_iff, uring]
    | busy => simp [Statistic.enterSamples]
    | timeout => simp [Statistic.enterSamples, sample_eq_nil_iff, uring]
    | failed =>
      cases h
      exact absurd rfl (hgoes _)
  | complete => simp [observed, Shows]

/-- Who returns has noted nothing down in that step. -/
theorem observed_returned {e : SenderEvent} (h : s.step e = .ok s')
    (hphase : s'.phase = .returned (.ok ())) : s.observed e s' = [] := by
  cases e with
  | fill time clock room => simp only [observed, hphase]
  | take n => rfl
  | post c => rfl
  | enter result =>
    obtain ⟨n, _, h⟩ := step_enter h
    obtain ⟨_, _, _, ⟨hfailed, _⟩ | ⟨hcomplete, _⟩⟩ := enter_ok h
    · cases hfailed.symm.trans hphase
    · cases hcomplete.symm.trans hphase
  | complete => rfl

end SenderLoop

namespace SenderRun
variable {p : Parameter} {s s' : SenderRun}

/-- What the ring instance of the run notes down in a step. -/
def observed : SenderRun → SenderRunEvent → SenderRun → List Metric
  | .uring l, .ring e, .uring l' => l.observed e l'
  | _, _, _ => []

/-- The event makes the ring instance of the run count. -/
def Shows : SenderRun → SenderRunEvent → Prop
  | .uring l, .ring e => l.Shows e
  | _, _ => False

instance : (s : SenderRun) → (e : SenderRunEvent) → Decidable (s.Shows e)
  | .uring l, .ring e => inferInstanceAs (Decidable (l.Shows e))
  | .starting _, _ | .looping _ _, _ | .sending _ _, _ | .waiting _ _, _ | .closing _, _
  | .returned _ _, _ => inferInstanceAs (Decidable False)
  | .uring _, .start _ _ _ _ | .uring _, .check _ _ | .uring _, .send _ | .uring _, .wait _
  | .uring _, .finish _ _ => inferInstanceAs (Decidable False)

/-- Wherever the run is, nothing that a ring counts is in its statistic. -/
def Plain (p : Parameter) : SenderRun → Prop
  | .starting s | .closing s => s.Plain p
  | .looping _ _ | .sending _ _ | .waiting _ _ => False
  | .uring l => l.sender.Plain p
  | .returned _ (.ok (final, _)) => final.Counted p []
  | .returned _ (.error _) => True

theorem start_plain {r : Sender} (hio : p.ioModel = .ioUring) (hr : r.Plain p)
    (clock clock' : Clock) (init setup : Except Error Unit) :
    (start clock clock' init setup r).Plain p := by
  have hstarted : Sender.Plain p { r with
      statisticInterval := r.statisticInterval.start clock' none } :=
    ⟨hr.parameter, hr.disabled, hr.unrecorded, hr.statistic⟩
  unfold start
  split
  · exact trivial
  · rw [if_neg (by rw [hr.parameter, hio]; exact fun h => h rfl)]
    split
    · exact hstarted
    · exact hstarted
    · exact trivial
    · exact trivial
    · exact trivial

theorem finish_plain {clock : Clock} {last : Except Error Unit} {r : Sender} (hr : r.Plain p)
    (h : finish clock last r = .ok s') : s'.Plain p := by
  obtain ⟨final, hfinal, h⟩ := bind_ok.mp h
  rw [Sender.lastInterval_closed (.inl hr.disabled), Sender.finalStatistic,
    if_pos (by rw [hr.unrecorded]; rfl)] at hfinal
  cases hfinal
  split at h
  · cases h
    exact trivial
  · cases h
    exact hr.statistic.same ⟨rfl, rfl, rfl, rfl, rfl⟩

theorem looped_plain {l : SenderLoop} (hl : l.sender.Plain p) : (looped l).Plain p := by
  unfold looped
  split
  · exact hl
  · exact trivial
  · exact hl

theorem step_plain {e : SenderRunEvent} (hio : p.ioModel = .ioUring) (hs : s.Plain p)
    (h : s.step e = .ok s') : s'.Plain p := by
  unfold step at h
  split at h
  · rename_i r clock clock' init setup
    cases h
    exact start_plain hio hs clock clock' init setup
  · exact hs.elim
  · exact hs.elim
  · exact hs.elim
  · rename_i l e
    obtain ⟨l', hl, h⟩ := map_eq_ok.mp h
    cases h
    exact looped_plain (SenderLoop.step_plain hs hl)
  · exact finish_plain hs (lift_ok.mp h)
  · cases h

theorem looped_observed {l l' : SenderLoop} {e : SenderEvent} (hl : l.step e = .ok l')
    (hgood : (looped l').Good) : (uring l).observed (.ring e) (looped l') = l.observed e l' := by
  unfold looped at hgood ⊢
  split
  · rename_i hphase
    exact (SenderLoop.observed_returned hl hphase).symm
  · rename_i error hphase
    rw [hphase] at hgood
    exact absurd rfl (hgood _ _)
  · rfl

theorem observed_iff {e : SenderRunEvent} (hs : s.Plain p) (h : s.step e = .ok s')
    (hgood : s'.Good) : s.observed e s' = [] ↔ ¬s.Shows e := by
  unfold step at h
  split at h
  · simp [observed, Shows]
  · exact hs.elim
  · exact hs.elim
  · exact hs.elim
  · rename_i l e
    obtain ⟨l', hl, h⟩ := map_eq_ok.mp h
    cases h
    rw [looped_observed hl hgood]
    refine SenderLoop.observed_iff hs hl ?_
    intro error hphase
    refine hgood l'.sender error ?_
    simp only [looped, hphase]
  · simp [observed, Shows]
  · cases h

/-- What is noted down is of the ring. -/
theorem observed_ofRing (s : SenderRun) (e : SenderRunEvent) (s' : SenderRun) :
    ∀ m ∈ s.observed e s', m.OfRing := by
  have hsample : ∀ p m' m, m'.OfRing → m ∈ Statistic.sample p m' → m.OfRing := by
    intro p m' m hm' hmem
    unfold Statistic.sample at hmem
    split at hmem
    · rw [List.mem_singleton.mp hmem]
      exact hm'
    · cases hmem
  intro m hm
  unfold observed at hm
  split at hm
  · rename_i l e l'
    cases e with
    | fill time clock room =>
      simp only [SenderLoop.observed] at hm
      split at hm
      · apply hsample _ _ m ?_ hm
        exact trivial
      · cases hm
    | enter result =>
      cases result with
      | busy =>
        rcases List.mem_cons.mp hm with rfl | hm
        · exact trivial
        · apply hsample _ _ m ?_ hm
          exact trivial
      | failed => cases hm
      | _ =>
        apply hsample _ _ m ?_ hm
        exact trivial
    | _ => cases hm
  · cases hm

end SenderRun

section
variable {build : Build} {clock : Clock} {p : Parameter}

theorem Receiver.new_plain {r : Receiver} (h : Receiver.new clock p = .ok r)
    (hinterval : p.outputInterval = 0) : r.Plain p := by
  obtain ⟨v, _, h⟩ := bind_ok.mp h
  cases h
  exact ⟨rfl, hinterval, rfl, by simp⟩

theorem Sender.new_plain {testId : Nat} {s : Sender} (h : Sender.new clock testId p = .ok s)
    (hinterval : p.outputInterval = 0) : s.Plain p := by
  obtain ⟨b, _, h⟩ := bind_ok.mp h
  cases h
  exact ⟨rfl, hinterval, rfl, .new clock p⟩

/-- The result of a receiver has what its ring instance has noted down. -/
theorem ReceiverRun.final_counted {r : Receiver} (hio : p.ioModel = .ioUring) (hr : r.Plain p)
    {events : List ReceiverEvent} {s : ReceiverRun}
    (hrun : run (step build) (.polling r) events = .ok s) {final : Statistic}
    (hfinal : s.final = some final) :
    final.Counted p (collect (step build) observed (.polling r) events) := by
  have hgathers : s.Gathers p ([] ++ collect (step build) observed (.polling r) events) :=
    collect_invariant (I := fun log s => s.Gathers p log)
      (fun _ _ _ _ hs h => step_gathers hio hs h) ⟨hr, rfl⟩ hrun
  rw [List.nil_append] at hgathers
  unfold ReceiverRun.final at hfinal
  split at hfinal
  · cases hfinal
    exact hgathers
  · cases hfinal

/-- The result of a sender has nothing of it. -/
theorem SenderRun.final_plain {s : Sender} (hio : p.ioModel = .ioUring) (hs : s.Plain p)
    {events : List SenderRunEvent} {t : SenderRun}
    (hrun : run step (.starting s) events = .ok t) {final : Statistic}
    (hfinal : t.final = some final) : final.Counted p [] ∧ t.Good := by
  have hplain : t.Plain p :=
    run_invariant (I := fun s => s.Plain p) (fun _ _ _ hs h => step_plain hio hs h)
      (show (starting s).Plain p from hs) hrun
  unfold SenderRun.final at hfinal
  split at hfinal
  · cases hfinal
    exact ⟨hplain, fun _ _ => by simp⟩
  · cases hfinal

/-- A statistic without a count has all of a log exactly if the log is empty. -/
theorem Statistic.Counted.eq_nil_iff {final : Statistic} {log : List Metric}
    (hfinal : final.Counted p []) (hlog : ∀ m ∈ log, m.OfRing) :
    (∀ m, m.OfRing → final.metric m = log.count m) ↔ log = [] := by
  constructor
  · intro hall
    cases log with
    | nil => rfl
    | cons m log =>
      have hm := hlog m List.mem_cons_self
      have hsame := (hfinal.metric m hm).symm.trans (hall m hm)
      rw [List.count_cons_self] at hsame
      cases hsame
  · intro hnone m hm
    rw [hnone]
    exact hfinal.metric m hm

/-- Without intervals the receiver hands on all that its ring instance has
counted, and the sender nothing. -/
theorem ring_statistics_iff (build : Build) (clock : Clock) (p : Parameter)
    (hio : p.ioModel = .ioUring) (hinterval : p.outputInterval = 0) :
    (∀ r, Receiver.new clock p = .ok r → ∀ events s,
      run (ReceiverRun.step build) (.polling r) events = .ok s → ∀ final, s.final = some final →
      ∀ m, m.OfRing → final.metric m =
        (collect (ReceiverRun.step build) ReceiverRun.observed (.polling r) events).count m) ∧
    ∀ testId s, Sender.new clock testId p = .ok s → ∀ events t,
      run SenderRun.step (.starting s) events = .ok t → ∀ final, t.final = some final →
      ((∀ m, m.OfRing → final.metric m =
          (collect SenderRun.step SenderRun.observed (.starting s) events).count m) ↔
        Guarded SenderRun.step (fun s e => ¬s.Shows e) (.starting s) events) := by
  constructor
  · intro r hnew events s hrun final hfinal
    exact (ReceiverRun.final_counted hio (Receiver.new_plain hnew hinterval) hrun hfinal).metric
  · intro testId s hnew events t hrun final hfinal
    have hs := Sender.new_plain hnew hinterval
    obtain ⟨hplain, hgood⟩ := SenderRun.final_plain hio hs hrun hfinal
    have hlog : ∀ m ∈ [] ++ collect SenderRun.step SenderRun.observed (.starting s) events,
        m.OfRing :=
      collect_invariant (I := fun (log : List Metric) _ => ∀ m ∈ log, m.OfRing)
        (fun _ s e s' hlog _ => List.forall_mem_append.mpr ⟨hlog, s.observed_ofRing e s'⟩)
        (by simp) hrun
    have hshows : ∀ s e t, SenderRun.Plain p s → t.Good → s.step e = .ok t →
        (s.observed e t = [] ↔ ¬s.Shows e) :=
      fun s e t hs hgood h => SenderRun.observed_iff hs h hgood
    refine (hplain.eq_nil_iff hlog).trans ?_
    exact collect_eq_nil_iff (I := fun s => s.Plain p) SenderRun.Good
      (fun _ _ _ h _ => SenderRun.Good.back h) (fun _ _ _ hs h => SenderRun.step_plain hio hs h)
      hshows (show (SenderRun.starting s).Plain p from hs) hrun hgood

end

/-- One burst of a sender whose completion queue overflows, and the end of its
test. -/
def SenderRun.burst (result : EnterResult) : List SenderRunEvent :=
  let clock := ⟨10 * nanosPerSecond, 10 * nanosPerSecond⟩
  [.start ⟨0, 0⟩ ⟨0, 0⟩ (.ok ()) (.ok ()), .ring (.fill ⟨0, 0⟩ ⟨0, 0⟩ 1), .ring (.enter result),
    .ring .complete, .ring (.fill clock clock 0), .finish clock (.ok ())]

/-- The two messages of a test without data. -/
def ReceiverRun.silent (result : EnterResult) : List ReceiverEvent :=
  let serve (mtype : MessageType) : List ReceiverEvent :=
    [.ring (.fill ⟨0, 0⟩ 1), .ring (.take 1), .ring (.post ⟨24, 0, 0, .packet mtype 0 0⟩),
      .ring (.enter result ⟨0, 0⟩), .ring (.complete fun _ => ⟨0, 0⟩)]
  .poll ⟨0, 0⟩ ⟨0, 0⟩ .ready (.ok ()) :: (serve .init ++ serve .last ++ [.finish ⟨0, 0⟩ true])

theorem ring_statistics_received :
    let r := (Receiver.new ⟨0, 0⟩ (.oneEntry .providedBuffer)).toOption.get (by decide)
    let s := (Sender.new ⟨0, 0⟩ 7 (.oneEntry .normal)).toOption.get (by decide)
    (∃ t final, run (ReceiverRun.step .debug) (.polling r) (ReceiverRun.silent .busy) = .ok t ∧
      t.final = some final ∧ final.metric .cqOverflows = 2) ∧
    ∃ t final, run SenderRun.step (.starting s) (SenderRun.burst .submitted) = .ok t ∧
      t.final = some final ∧ ∀ m, m.OfRing → final.metric m = (collect SenderRun.step
        SenderRun.observed (.starting s) (SenderRun.burst .submitted)).count m := by
  intro r s
  constructor
  · obtain ⟨t, hrun, hfinal⟩ := checked (p := fun t => t.final.isSome = true)
      (x := run (ReceiverRun.step .debug) (.polling r) (ReceiverRun.silent .busy))
      (by decide +kernel)
    obtain ⟨final, hfinal⟩ := Option.isSome_iff_exists.mp hfinal
    refine ⟨t, final, hrun, hfinal, ?_⟩
    rw [(ring_statistics_iff .debug ⟨0, 0⟩ (.oneEntry .providedBuffer) rfl rfl).1 r rfl _ t hrun
      final hfinal .cqOverflows trivial]
    decide +kernel
  · obtain ⟨t, hrun, hfinal⟩ := checked (p := fun t => t.final.isSome = true)
      (x := run SenderRun.step (.starting s) (SenderRun.burst .submitted)) (by decide +kernel)
    obtain ⟨final, hfinal⟩ := Option.isSome_iff_exists.mp hfinal
    exact ⟨t, final, hrun, hfinal, ((ring_statistics_iff .debug ⟨0, 0⟩ (.oneEntry .normal) rfl
      rfl).2 7 s rfl _ t hrun final hfinal).mpr (by decide +kernel)⟩

/-- The overflow that the sender is told of is not in its result. -/
theorem ring_statistics_lost :
    let args := { NPerf.oneEntry .normal with mode := .sender }
    let p := { Parameter.oneEntry .normal with mode := .sender }
    args.parseParameter .debug 8 = .ok (some p) ∧ p.outputInterval = 0 ∧
      let s := (Sender.new ⟨0, 0⟩ 7 p).toOption.get (by decide)
      (run SenderRun.step (.starting s) (SenderRun.burst .busy)).toOption.map
          (fun t => t.final.map Statistic.uringCqOverflows) = some (some 0) ∧
        (collect SenderRun.step SenderRun.observed (.starting s)
          (SenderRun.burst .busy)).count .cqOverflows = 1 := by
  decide +kernel

end Nperf
