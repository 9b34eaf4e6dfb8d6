import Nperf.Model.Fleet
import Nperf.Proofs.Records
import Nperf.Proofs.RingSending
import Nperf.Proofs.SendTotals

namespace Nperf
open Rust Runs

namespace Sender
variable {p : Parameter} {s s' : Sender} {n : Nat} {result : Except Error Unit}

/-- The statistics of a sender are of its parameter set. -/
structure Registers (p : Parameter) (s : Sender) : Prop where
  parameter : s.parameter = p
  statistic : s.statistic.Of p
  interval : s.statisticInterval.Recorded p

theorem Registers.of_eq (h : s.Registers p) (hparameter : s'.parameter = s.parameter)
    (hstatistic : s.statistic.SameRing s'.statistic)
    (hinterval : s'.statisticInterval = s.statisticInterval) : s'.Registers p :=
  ⟨hparameter.trans h.parameter, h.statistic.same hstatistic, hinterval ▸ h.interval⟩

theorem Registers.new {clock : Clock} {testId : Nat} (h : Sender.new clock testId p = .ok s) :
    s.Registers p := by
  obtain ⟨_, _, h⟩ := bind_ok.mp h
  cases h
  exact ⟨rfl, .new clock p, .new clock p⟩

theorem Registers.started (h : s.Registers p) (clock : Clock) :
    Registers p { s with statisticInterval := s.statisticInterval.start clock none } :=
  ⟨h.parameter, h.statistic, h.interval.start clock none⟩

theorem Registers.closeInterval (h : s.Registers p) (clock : Clock) :
    (s.closeInterval clock).Registers p := by
  unfold Sender.closeInterval
  split
  · exact ⟨h.parameter, h.parameter ▸ .new clock _, h.interval.calculateInterval clock h.statistic⟩
  · exact h

theorem Registers.lastInterval (h : s.Registers p) (clock : Clock) :
    (s.lastInterval clock).Registers p := by
  unfold Sender.lastInterval
  split
  · exact ⟨h.parameter, h.statistic, h.interval.calculateInterval clock h.statistic⟩
  · exact h

theorem Registers.stamp (h : s.Registers p) (hstamp : s.stamp = .ok (n, s')) :
    s'.Registers p := by
  simp only [Sender.stamp, bind_ok] at hstamp
  obtain ⟨_, _, _, _, hstamp⟩ := hstamp
  cases hstamp
  exact ⟨h.parameter, h.statistic, h.interval⟩

theorem Registers.count (h : s.Registers p) (datagrams bytes : Nat) :
    (s.count datagrams bytes).Registers p :=
  h.of_eq rfl ⟨rfl, rfl, rfl, rfl, rfl⟩ rfl

theorem Registers.failed (h : s.Registers p) {e : Error}
    (hfailed : s.failed n e = .ok (result, s')) : s'.Registers p := by
  unfold Sender.failed at hfailed
  split at hfailed
  · cases hfailed
    exact h
  · obtain ⟨_, _, hfailed⟩ := bind_ok.mp hfailed
    cases hfailed
    exact ⟨h.parameter, h.statistic, h.interval⟩
  · cases hfailed
    exact h

theorem Registers.send (h : s.Registers p) {kernel : Except Error Nat}
    (hsend : s.send kernel = .ok (result, s')) : s'.Registers p := by
  obtain ⟨⟨amount, t⟩, hstamp, hsend⟩ := bind_ok.mp hsend
  have ht := h.stamp hstamp
  simp only at hsend
  split at hsend
  · cases hsend
  · obtain ⟨_, _, hsend⟩ := bind_ok.mp hsend
    split at hsend
    · cases hsend
      exact ht.count _ _
    · exact ht.failed hsend

theorem Registers.sendmsg (h : s.Registers p) {kernel : Except Error Nat}
    (hsend : s.sendmsg kernel = .ok (result, s')) : s'.Registers p := by
  obtain ⟨⟨amount, t⟩, hstamp, hsend⟩ := bind_ok.mp hsend
  have ht := h.stamp hstamp
  simp only at hsend
  split at hsend
  · cases hsend
  · cases kernel with
    | ok bytes =>
      cases hsend
      exact ht.count _ _
    | error e => exact ht.failed hsend

theorem Registers.sendmmsg (h : s.Registers p) {kernel : Except Error (List Nat)}
    (hsend : s.sendmmsg kernel = .ok (result, s')) : s'.Registers p := by
  obtain ⟨⟨amount, t⟩, hstamp, hsend⟩ := bind_ok.mp hsend
  have ht := h.stamp hstamp
  cases kernel with
  | error e => exact ht.failed hsend
  | ok lengths =>
    simp only at hsend
    split at hsend
    · cases hsend
      exact ht.of_eq rfl ⟨rfl, rfl, rfl, rfl, rfl⟩ rfl
    · simp only [bind_ok] at hsend
      obtain ⟨_, _, _, _, u, hu, hsend⟩ := hsend
      cases hu
      cases hsend
      exact ht.of_eq rfl ⟨rfl, rfl, rfl, rfl, rfl⟩ rfl

theorem Registers.sendMessages (h : s.Registers p) {socket : Socket}
    (hsend : s.sendMessages socket = .ok (result, s')) : s'.Registers p := by
  unfold Sender.sendMessages at hsend
  split at hsend
  · exact h.send hsend
  · exact h.sendmsg hsend
  · exact h.sendmmsg hsend

/-- The result is the sum of the records, or the statistic alone. -/
theorem Registers.finalStatistic (h : s.Registers p) {clock : Clock} {final : Statistic}
    (hfinal : s.finalStatistic clock = .ok final) :
    (ThreadResult.finished (final.setTestDuration none none) s.statisticInterval.statistics).Sound
      p := by
  unfold Sender.finalStatistic at hfinal
  split at hfinal
  · rename_i hempty
    cases hfinal
    have hof := h.statistic
    refine .single ?_ (List.isEmpty_iff.mp hempty)
    exact ⟨hof.parameter, hof.sq, hof.cq, hof.inflight⟩
  · rw [h.parameter] at hfinal
    exact h.interval.sum hfinal

end Sender

namespace SenderLoop
variable {p : Parameter} {s s' : SenderLoop}

theorem submit_registers {room : Nat} (hs : s.sender.Registers p) (h : s.submit room = .ok s') :
    s'.sender.Registers p := by
  obtain ⟨_, _, _, ⟨_, rfl⟩ | ⟨_, _, b, _, hsender, _⟩⟩ := submit_ok h
  · exact hs
  · rw [hsender]
    exact ⟨hs.parameter, hs.statistic, hs.interval⟩

theorem fill_registers {time clock : Clock} {room : Nat} (hs : s.sender.Registers p)
    (h : s.fill time clock room = .ok s') : s'.sender.Registers p := by
  rcases fill_branches h with ⟨_, rfl⟩ | ⟨_, ⟨_, rfl⟩ | ⟨_, statistic, hrecord, h⟩⟩
  · exact hs
  · exact hs
  · apply submit_registers ?_ h
    apply Sender.Registers.closeInterval
    have hsame := (Statistic.sameRing_recordInflight hrecord).trans
      (u := statistic.countIoModelCall) ⟨rfl, rfl, rfl, rfl, rfl⟩
    exact hs.of_eq rfl hsame rfl

theorem complete_registers (hs : s.sender.Registers p) (h : s.complete = .ok s') :
    s'.sender.Registers p := by
  simp only [complete, bind_ok] at h
  obtain ⟨⟨result, sender, cq⟩, hdrain, h⟩ := h
  have hsender : sender.Registers p := by
    unfold handleCompletions at hdrain
    split at hdrain
    · obtain ⟨hparameter, hinterval, hsame⟩ := Sender.ioUringCompleteSendZc_rel
        Statistic.SameRing.refl (fun _ _ _ h h' => h.trans h')
        (fun _ _ _ _ _ h => Sender.Settles.sameRing h) hdrain
      exact hs.of_eq hparameter hsame hinterval
    · obtain ⟨hparameter, hinterval, hsame⟩ := Sender.ioUringCompleteSend_rel
        Statistic.SameRing.refl (fun _ _ _ h h' => h.trans h')
        (fun _ _ _ _ _ h => Sender.Settles.sameRing h) hdrain
      exact hs.of_eq hparameter hsame hinterval
  simp only at h
  split at h
  · obtain ⟨_, _, h⟩ := bind_ok.mp h
    cases h
    exact hsender
  · cases h
    exact hsender.of_eq rfl ⟨rfl, rfl, rfl, rfl, rfl⟩ rfl
  · cases h
    exact hsender

theorem step_registers {e : SenderEvent} (hs : s.sender.Registers p) (h : s.step e = .ok s') :
    s'.sender.Registers p := by
  cases e with
  | fill time clock room => exact fill_registers hs (step_fill h).2.2
  | take n =>
    obtain ⟨_, rfl⟩ := step_take h
    exact hs
  | post c =>
    obtain ⟨_, _, rfl⟩ := step_post h
    exact hs
  | enter result =>
    obtain ⟨n, _, h⟩ := step_enter h
    obtain ⟨_, _, _, ⟨_, hsender⟩ | ⟨_, _, hsender, _⟩⟩ := enter_ok h
    · exact hsender ▸ hs
    · rw [hsender]
      exact ⟨hs.parameter, hs.statistic, hs.interval⟩
  | complete => exact complete_registers hs (step_complete h).2

end SenderLoop

namespace SenderRun
variable {p : Parameter} {s s' : SenderRun}

/-- The statistics of a run are of its parameter set, also those it returns. -/
structure Registers (p : Parameter) (s : SenderRun) : Prop where
  sender : s.sender.Registers p
  joined : ∀ result ∈ s.joined, result.Sound p

theorem Registers.of_running (hs : s.sender.Registers p) (hnone : s.joined = none) :
    s.Registers p :=
  ⟨hs, by simp [hnone]⟩

theorem Registers.of_failed {r : Sender} (hr : r.Registers p) (e : Error) :
    (returned r (.error e)).Registers p := by
  refine ⟨hr, ?_⟩
  rintro result ⟨⟩
  exact .failed p

theorem Registers.start {r : Sender} (hr : r.Registers p) (clock clock' : Clock)
    (init setup : Except Error Unit) : (start clock clock' init setup r).Registers p := by
  unfold SenderRun.start
  split
  · exact .of_failed hr _
  · have hstarted := hr.started clock'
    simp only
    split
    · exact .of_running hstarted rfl
    · split
      · exact .of_running hstarted rfl
      · exact .of_running hstarted rfl
      · exact .of_failed hstarted _
      · exact .of_failed hstarted _
      · exact .of_failed hstarted _

theorem Registers.sent {r : Sender} (hr : r.Registers p) (startTime : Timestamp)
    (result : Except Error Unit) : (sent r startTime result).Registers p := by
  cases result with
  | ok u => exact .of_running (hr.of_eq rfl ⟨rfl, rfl, rfl, rfl, rfl⟩ rfl) rfl
  | error e =>
    cases e with
    | eagain => exact .of_running (hr.of_eq rfl ⟨rfl, rfl, rfl, rfl, rfl⟩ rfl) rfl
    | _ => exact .of_failed hr _

theorem Registers.waited {r : Sender} (hr : r.Registers p) (startTime : Timestamp)
    (result : Except Error Unit) : (waited r startTime result).Registers p := by
  cases result with
  | ok u => exact .of_running (hr.of_eq rfl ⟨rfl, rfl, rfl, rfl, rfl⟩ rfl) rfl
  | error e => exact .of_failed hr e

theorem Registers.looped {l : SenderLoop} (hl : l.sender.Registers p) :
    (looped l).Registers p := by
  unfold SenderRun.looped
  split
  · exact .of_running hl rfl
  · exact .of_failed hl _
  · exact .of_running hl rfl

theorem Registers.finish {r : Sender} (hr : r.Registers p) {clock : Clock}
    {last : Except Error Unit} (h : finish clock last r = .ok s') : s'.Registers p := by
  obtain ⟨final, hfinal, h⟩ := bind_ok.mp (show _ >>= _ = _ from h)
  have hlast := hr.lastInterval clock
  split at h
  · cases h
    exact .of_failed hlast _
  · cases h
    refine ⟨hlast, ?_⟩
    rintro result ⟨⟩
    exact hlast.finalStatistic hfinal

theorem Registers.step (hs : s.Registers p) {e : SenderRunEvent} (h : s.step e = .ok s') :
    s'.Registers p := by
  have hsender := hs.sender
  unfold SenderRun.step at h
  split at h
  · rename_i r clock clock' init setup
    cases h
    exact Registers.start hsender clock clock' init setup
  · rename_i r startTime time clock
    split at h
    · cases h
      exact .of_running (hsender.closeInterval clock) rfl
    · cases h
      exact .of_running hsender rfl
  · rename_i r startTime socket
    obtain ⟨⟨result, r'⟩, hsend, h⟩ := bind_ok.mp (lift_ok.mp h)
    cases h
    exact Registers.sent (hsender.sendMessages hsend) startTime result
  · rename_i r startTime result
    cases h
    exact Registers.waited hsender startTime _
  · rename_i l e
    obtain ⟨l', hl, h⟩ := map_eq_ok.mp h
    cases h
    exact Registers.looped (SenderLoop.step_registers hsender hl)
  · rename_i r clock last
    exact Registers.finish hsender (lift_ok.mp h)
  · cases h

theorem run_registers {clock : Clock} {testId : Nat} {r : Sender} {events : List SenderRunEvent}
    (hnew : Sender.new clock testId p = .ok r) (h : run step (starting r) events = .ok s) :
    s.Registers p :=
  run_invariant (I := SenderRun.Registers p) (fun _ _ _ hs h => hs.step h)
    (.of_running (.new hnew) rfl) h

end SenderRun

end Nperf
