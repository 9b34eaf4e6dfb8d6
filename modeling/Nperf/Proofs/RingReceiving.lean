import Nperf.Lib.Gains
import Nperf.Model.ReceiverRun
import Nperf.Proofs.Samples

namespace Nperf
open Rust Runs

namespace Receiver
variable {p : Parameter} {build : Build} {clock : Nat → Clock} {r r' : Receiver}
  {cq rest : List Cqe}

theorem ioUringCompleteNormal_plain {result : Except Error Nat} (hr : r.Plain p)
    (h : r.ioUringCompleteNormal build clock cq = .ok (result, r', rest)) : r'.Plain p :=
  ioUringCompleteNormal_keeps
    (fun _ _ _ _ _ _ _ hplain goes => handleRecvmsgReturn_plain hplain goes)
    (fun _ _ hplain =>
      ⟨hplain.parameter, hplain.disabled, hplain.unrecorded, hplain.measurements⟩) hr h

theorem ioUringCompleteProvidedBuffers_plain {statistic statistic' : Statistic}
    {result : Except Error Nat} (hr : r.Plain p)
    (h : r.ioUringCompleteProvidedBuffers build clock statistic cq =
      .ok (result, r', statistic', rest)) : r'.Plain p ∧ statistic.SameRing statistic' :=
  ioUringCompleteProvidedBuffers_keeps
    (fun _ _ _ _ _ _ _ hplain goes => handleRecvmsgReturn_plain hplain goes)
    (fun _ hsame => hsame.trans ⟨rfl, rfl, rfl, rfl, rfl⟩) hr (.refl statistic) h

theorem ioUringCompleteMultishot_plain {result : Except Error Bool} (hr : r.Plain p)
    (h : r.ioUringCompleteMultishot build clock cq = .ok (result, r', rest)) : r'.Plain p :=
  ioUringCompleteMultishot_keeps
    (fun _ _ _ _ _ _ _ hplain goes => handleRecvmsgReturn_plain hplain goes) hr h

end Receiver

namespace UringLoop
variable {p : Parameter} {build : Build} {log : List Metric} {s s' : UringLoop}

/-- What the ring instance notes down in a step. -/
def observed (s : UringLoop) (e : UringEvent) (s' : UringLoop) : List Metric :=
  match e with
  | .fill _ _ =>
    match s'.phase with
    | .enter _ =>
      if s.uring.uringMode = .multishot ∧ s.armed then []
      else Statistic.sample s.receiver.parameter (.sq s'.ring.sq.length)
    | _ => []
  | .enter result _ => Statistic.enterSamples s.receiver.parameter s.ring.cq.length result
  | .take _ | .post _ | .complete _ => []

/-- The ring instance has what the log says, and nobody else has any of it. -/
structure Gathers (p : Parameter) (log : List Metric) (s : UringLoop) : Prop where
  receiver : s.receiver.Plain p
  statistic : s.statistic.Counted p []
  ring : s.ringStatistic.Counted p log

/-- The loop goes on, or hands the log over. -/
structure Reports (p : Parameter) (log : List Metric) (s : UringLoop) : Prop where
  going : s.Going → s.Gathers p log
  ended : s.phase = .returned (.ok ()) → s.receiver.Plain p ∧ s.statistic.Counted p log

theorem Gathers.reports (hs : s.Gathers p log) (hphase : s.phase ≠ .returned (.ok ())) :
    s.Reports p log :=
  ⟨fun _ => hs, fun h => absurd h hphase⟩

theorem Reports.of_error {e : Error} (hphase : s.phase = .returned (.error e)) :
    s.Reports p log := by
  refine ⟨fun hgoing => absurd hphase (hgoing _), fun hok => ?_⟩
  cases hphase.symm.trans hok

theorem closeInterval_plain {clock : Clock} (h : s.closeInterval build clock = .ok s')
    (hr : s.receiver.Plain p) : s' = s := by
  rw [closeInterval, StatisticInterval.disabled_expired hr.disabled,
    if_neg Bool.false_ne_true] at h
  cases h
  rfl

/-- A submission fails, or the length of the submission queue is noted down. -/
def Submits (p : Parameter) (log : List Metric) (s : UringLoop) : Prop :=
  (∃ e, s.phase = .returned (.error e)) ∨
    (∃ n, s.phase = .enter n) ∧
      s.Gathers p (log ++ Statistic.sample p (.sq s.ring.sq.length))

theorem pushed_submits {requests : List Nat} (hs : s.Gathers p log)
    (h : s.pushed requests = .ok s') : s'.Submits p log := by
  obtain ⟨ringStatistic, hrecord, h⟩ := bind_ok.mp h
  cases h
  exact .inr ⟨⟨_, rfl⟩, hs.receiver, hs.statistic, hs.ring.recordSq hrecord⟩

theorem fillNormal_submits {room n : Nat} (hs : s.Gathers p log)
    (h : s.fillNormal room n = .ok s') : s'.Submits p log := by
  unfold fillNormal at h
  split at h
  · cases h
    exact .inl ⟨_, rfl⟩
  · rename_i requests b _
    have hr := hs.receiver
    exact pushed_submits (s := { s with receiver := { s.receiver with packetBuffer := b } })
      ⟨⟨hr.parameter, hr.disabled, hr.unrecorded, hr.measurements⟩, hs.statistic, hs.ring⟩ h

/-- The calculation of an iteration, and its `submit`. -/
theorem fillCounted_submits {clock : Clock} {submit : Nat → UringLoop → Except Fault UringLoop}
    {inflight : UringLoop → Nat} (hs : s.Gathers p log)
    (hsubmit : ∀ n t t', t.Gathers p log → submit n t = .ok t' → t'.Submits p log)
    (h : s.fillCounted build clock submit inflight = .ok s') :
    s'.phase = .complete ∧ s'.Gathers p log ∨ s'.Submits p log := by
  simp only [fillCounted, bind_ok] at h
  obtain ⟨statistic, hrecord, t, ht, ⟨toSubmit, minComplete⟩, _, h⟩ := h
  obtain rfl := closeInterval_plain ht hs.receiver
  have hsame := (Statistic.sameRing_recordInflight hrecord).trans
    (u := statistic.countIoModelCall) ⟨rfl, rfl, rfl, rfl, rfl⟩
  simp only at h
  split at h
  · cases h
    exact .inl ⟨rfl, hs.receiver, hs.statistic.same hsame, hs.ring⟩
  · refine .inr (hsubmit toSubmit _ s' ?_ h)
    exact ⟨hs.receiver, hs.statistic.same hsame, hs.ring⟩

theorem Submits.reports {clock : Clock} {room : Nat} (hs : s'.Submits p log)
    (hparameter : s.receiver.parameter = p)
    (hrecords : ¬(s.uring.uringMode = .multishot ∧ s.armed)) :
    s'.Reports p (log ++ s.observed (.fill clock room) s') := by
  rcases hs with ⟨e, hphase⟩ | ⟨⟨n, hphase⟩, hgathers⟩
  · exact .of_error hphase
  · apply Gathers.reports
    · simp only [observed, hphase, if_neg hrecords, hparameter]
      exact hgathers
    · rw [hphase]
      simp

theorem fill_reports {clock : Clock} {room : Nat} (hs : s.Gathers p log)
    (h : s.fill build clock room = .ok s') :
    s'.Reports p (log ++ s.observed (.fill clock room) s') := by
  have hparameter := hs.receiver.parameter
  have hcounted : s.uring.uringMode ≠ .multishot →
      s'.phase = .complete ∧ s'.Gathers p log ∨ s'.Submits p log →
        s'.Reports p (log ++ s.observed (.fill clock room) s') := by
    intro hmode hcases
    rcases hcases with ⟨hphase, hgathers⟩ | hsubmits
    · apply Gathers.reports
      · simp only [observed, hphase, List.append_nil]
        exact hgathers
      · rw [hphase]
        simp
    · exact hsubmits.reports hparameter fun h => hmode h.1
  unfold fill at h
  split at h
  · rename_i hmode
    have hcall : Gathers p log { s with statistic := s.statistic.countIoModelCall } :=
      ⟨hs.receiver, hs.statistic.same ⟨rfl, rfl, rfl, rfl, rfl⟩, hs.ring⟩
    simp only [fillMultishot] at h
    split at h
    · rename_i harmed
      cases h
      apply Gathers.reports
      · simp only [observed, hmode, harmed, and_self, if_true, List.append_nil]
        exact ⟨hcall.receiver, hcall.statistic, hcall.ring⟩
      · simp
    · rename_i harmed
      split at h
      · cases h
        exact .of_error rfl
      · exact (pushed_submits hcall h).reports hparameter fun h => harmed h.2
  · rename_i hmode
    exact hcounted (by rw [hmode]; simp)
      (fillCounted_submits hs (fun n t t' ht h => pushed_submits ht h) h)
  · rename_i hmode
    exact hcounted (by rw [hmode]; simp)
      (fillCounted_submits hs (fun n t t' ht h => fillNormal_submits ht h) h)
  · cases h
    exact .of_error rfl

theorem enter_reports {result : EnterResult} {clock : Clock} {n : Nat} (hs : s.Gathers p log)
    (h : s.enter build result clock n = .ok s') :
    s'.Reports p (log ++ s.observed (.enter result clock) s') := by
  unfold enter at h
  split at h
  · cases h
    exact .of_error rfl
  · rename_i overflows hresult
    obtain ⟨ringStatistic, hrecord, h⟩ := bind_ok.mp h
    have hring := hs.ring.enter hresult hrecord
    rw [← hs.receiver.parameter] at hring
    simp only at h
    split at h
    · obtain rfl := closeInterval_plain h hs.receiver
      exact Gathers.reports ⟨hs.receiver, hs.statistic, hs.receiver.parameter ▸ hring⟩ (by simp)
    · cases h
      exact Gathers.reports ⟨hs.receiver, hs.statistic, hs.receiver.parameter ▸ hring⟩ (by simp)

/-- When the last test has ended, the statistic takes over what the ring
instance has. -/
theorem interrupted_reports {e : Error} (hs : s.Gathers p log)
    (h : s.interrupted build e = .ok s') : s'.Reports p log := by
  cases e with
  | initMessageReceived =>
    cases h
    exact Gathers.reports ⟨hs.receiver, hs.statistic, hs.ring⟩ (by simp)
  | lastMessageReceived =>
    simp only [interrupted] at h
    split at h
    · obtain ⟨statistic, hadd, h⟩ := bind_ok.mp h
      cases h
      exact ⟨fun hgoing => absurd rfl (hgoing _),
        fun _ => ⟨hs.receiver, hs.statistic.accumulate hs.ring hadd⟩⟩
    · cases h
      exact Gathers.reports ⟨hs.receiver, hs.statistic, hs.ring⟩ (by simp)
  | eagain =>
    cases h
    exact Gathers.reports
      ⟨hs.receiver, hs.statistic.same ⟨rfl, rfl, rfl, rfl, rfl⟩, hs.ring⟩ (by simp)
  | _ =>
    cases h
    exact .of_error rfl

theorem handled_reports {result : Except Error Nat} (hs : s.Gathers p log)
    (h : (match result with
      | .ok completed => s.reaped completed
      | .error e => s.interrupted build e) = .ok s') : s'.Reports p log := by
  cases result with
  | ok completed =>
    obtain ⟨_, rfl⟩ := reaped_ok h
    exact Gathers.reports ⟨hs.receiver, hs.statistic, hs.ring⟩ (by simp)
  | error e => exact interrupted_reports hs h

theorem complete_reports {clock : Nat → Clock} (hs : s.Gathers p log)
    (h : s.complete build clock = .ok s') : s'.Reports p log := by
  unfold complete at h
  split at h
  · obtain ⟨⟨result, r, cq⟩, hr, h⟩ := bind_ok.mp h
    have hplain := Receiver.ioUringCompleteMultishot_plain hs.receiver hr
    cases result with
    | ok armed =>
      cases h
      refine Gathers.reports ⟨hplain, ?_, hs.ring⟩ ?_
      · cases armed with
        | true => exact hs.statistic
        | false => exact hs.statistic.same ⟨rfl, rfl, rfl, rfl, rfl⟩
      · simp [rearmed]
    | error e => exact interrupted_reports (s := { s with
        receiver := r, ring := { s.ring with cq := cq } }) ⟨hplain, hs.statistic, hs.ring⟩ h
  · obtain ⟨⟨result, r, statistic, cq⟩, hr, h⟩ := bind_ok.mp h
    obtain ⟨hplain, hsame⟩ := Receiver.ioUringCompleteProvidedBuffers_plain hs.receiver hr
    exact handled_reports (s := { s with
      receiver := r, statistic := statistic, ring := { s.ring with cq := cq } })
      ⟨hplain, hs.statistic.same hsame, hs.ring⟩ h
  · obtain ⟨⟨result, r, cq⟩, hr, h⟩ := bind_ok.mp h
    have hplain := Receiver.ioUringCompleteNormal_plain hs.receiver hr
    exact handled_reports (s := { s with receiver := r, ring := { s.ring with cq := cq } })
      ⟨hplain, hs.statistic, hs.ring⟩ h
  · cases h
    exact .of_error rfl

theorem step_reports {e : UringEvent} (hs : s.Gathers p log) (hgoing : s.Going)
    (h : s.step build e = .ok s') : s'.Reports p (log ++ s.observed e s') := by
  cases e with
  | fill clock room => exact fill_reports hs (step_fill h).2.2
  | take n =>
    obtain ⟨_, rfl⟩ := step_take h
    rw [observed, List.append_nil]
    exact Gathers.reports ⟨hs.receiver, hs.statistic, hs.ring⟩ (hgoing _)
  | post c =>
    obtain ⟨_, _, rfl⟩ := step_post h
    have hr := hs.receiver
    rw [observed, List.append_nil]
    exact Gathers.reports ⟨⟨hr.parameter, hr.disabled, hr.unrecorded, hr.measurements⟩,
      hs.statistic, hs.ring⟩ (hgoing _)
  | enter result clock =>
    obtain ⟨n, _, h⟩ := step_enter h
    exact enter_reports hs h
  | complete clock =>
    rw [observed, List.append_nil]
    exact complete_reports hs (step_complete h).2

/-- Who returns has noted nothing down in that step. -/
theorem observed_returned {e : UringEvent} {result : Except Error Unit}
    (h : s.step build e = .ok s') (hphase : s'.phase = .returned result) :
    s.observed e s' = [] := by
  cases e with
  | fill clock room => simp only [observed, hphase]
  | take n => rfl
  | post c => rfl
  | enter answer clock =>
    obtain ⟨n, _, h⟩ := step_enter h
    unfold enter at h
    split at h
    · rename_i error herror
      cases answer with
      | failed => rfl
      | _ => cases herror
    · obtain ⟨_, _, h⟩ := bind_ok.mp h
      simp only at h
      split at h
      · obtain ⟨_, hcomplete⟩ := closeInterval_ok h
        cases hcomplete.symm.trans hphase
      · cases h
        cases hphase
  | complete clock => rfl

end UringLoop

namespace ReceiverRun
variable {p : Parameter} {build : Build} {log : List Metric} {s s' : ReceiverRun}

/-- What the ring instance of the run notes down in a step. -/
def observed : ReceiverRun → ReceiverEvent → ReceiverRun → List Metric
  | .uring s, .ring e, .uring s' => s.observed e s'
  | _, _, _ => []

/-- Wherever the run is, what has been noted down is there once. -/
def Gathers (p : Parameter) (log : List Metric) : ReceiverRun → Prop
  | .polling r => r.Plain p ∧ log = []
  | .looping _ _ | .receiving _ _ | .waiting _ _ => False
  | .uring s => s.Gathers p log ∧ s.Going
  | .closing r statistic => r.Plain p ∧ statistic.Counted p log
  | .returned _ (.ok (final, _)) => final.Counted p log
  | .returned _ (.error _) => True

theorem start_gathers {r : Receiver} (hio : p.ioModel = .ioUring) (hr : r.Plain p)
    (clock clock' : Clock) (result : WaitResult) (setup : Except Error Unit) :
    (start clock clock' result setup r).Gathers p [] := by
  have hparameter := hr.parameter
  cases result with
  | timeout => exact hparameter ▸ .new clock r.parameter
  | failed => exact trivial
  | ready =>
    simp only [start, socketPoll]
    have hstarted : (r.startInterval clock').Plain p :=
      ⟨hparameter, hr.disabled, hr.unrecorded, hr.measurements⟩
    rw [if_neg (by rw [hstarted.parameter, hio]; exact fun h => h rfl)]
    split
    · exact trivial
    · cases setup with
      | error e => exact trivial
      | ok u =>
        have hnew : (Statistic.new clock' (r.startInterval clock').parameter).Counted p [] := by
          rw [hstarted.parameter]
          exact .new clock' p
        exact ⟨⟨hstarted, hnew, hnew⟩, .of_phase (show _ = Phase.fill from rfl) (by simp)⟩

theorem finish_gathers {clock : Clock} {closed : Bool} {r : Receiver} {statistic : Statistic}
    (hr : r.Plain p) (hs : statistic.Counted p log)
    (h : finish build clock closed r statistic = .ok s') : s'.Gathers p log := by
  unfold finish at h
  split at h
  · cases h
    exact trivial
  · obtain ⟨final, hfinal, h⟩ := bind_ok.mp h
    cases h
    rw [Receiver.sumStatistics, if_pos (by rw [hr.unrecorded]; rfl)] at hfinal
    obtain ⟨sum, hsum, hfinal⟩ := bind_ok.mp hfinal
    cases hfinal
    have hcounted := hs.total (fun t ht => by
      obtain ⟨m, hm, rfl⟩ := List.mem_map.mp ht
      exact hr.measurements m hm) hsum
    exact hcounted.same ⟨rfl, rfl, rfl, rfl, rfl⟩

theorem looped_gathers {t t' : UringLoop} {e : UringEvent} (ht : t.step build e = .ok t')
    (hreports : t'.Reports p (log ++ t.observed e t')) :
    (looped t').Gathers p (log ++ (uring t).observed (.ring e) (looped t')) := by
  unfold looped
  split
  · rename_i hphase
    rw [UringLoop.observed_returned ht hphase] at hreports
    exact hreports.ended hphase
  · exact trivial
  · rename_i hok herror
    have hgoing : t'.Going := by
      intro result hphase
      cases result with
      | ok u => exact hok hphase
      | error e => exact herror e hphase
    exact ⟨hreports.going hgoing, hgoing⟩

theorem step_gathers {e : ReceiverEvent} (hio : p.ioModel = .ioUring) (hs : s.Gathers p log)
    (h : s.step build e = .ok s') : s'.Gathers p (log ++ s.observed e s') := by
  unfold step at h
  split at h
  · rename_i r clock clock' result setup
    cases h
    obtain ⟨hr, rfl⟩ := hs
    exact start_gathers hio hr clock clock' result setup
  · exact hs.elim
  · exact hs.elim
  · exact hs.elim
  · rename_i t e
    obtain ⟨t', ht, h⟩ := map_eq_ok.mp h
    cases h
    obtain ⟨hgathers, hgoing⟩ := hs
    exact looped_gathers ht (UringLoop.step_reports hgathers hgoing ht)
  · rename_i r statistic clock closed
    cases hfinish : finish build clock closed r statistic with
    | error f =>
      rw [hfinish] at h
      cases h
    | ok t =>
      rw [hfinish] at h
      cases h
      have hnone : (closing r statistic).observed (.finish clock closed) s' = [] := rfl
      rw [hnone, List.append_nil]
      exact finish_gathers hs.1 hs.2 hfinish
  · cases h

end ReceiverRun
end Nperf
