import Nperf.Lib.Gains
import Nperf.Model.CommandParser
import Nperf.Model.SenderRun
import Nperf.Proofs.Amounts
import Nperf.Proofs.SendLoop

namespace Nperf
open Rust Runs

theorem Sender.Settles.amount {zerocopy : Bool} {k : Nat} {c : SendCqe} {st st' : Statistic}
    {result : Except Error Unit} (h : Settles zerocopy k c st result st') (a : Amount) :
    st.amount a ≤ st'.amount a := by
  cases h with
  | refused => cases a <;> exact Nat.le_refl _
  | sent => cases a <;> exact Nat.le_add_right _ _
  | notified => exact Nat.le_refl _
  | copied => cases a <;> exact Nat.le_refl _
  | failed => exact Nat.le_refl _

namespace Sender
variable {s s' : Sender}

/-- What the statistic holds since its last start. -/
def counted (a : Amount) (s : Sender) : Nat := s.statistic.amount a

/-- What the recorded intervals hold. -/
def recorded (a : Amount) (s : Sender) : Nat := s.statisticInterval.recorded a

/-- A send function adds to the statistic and leaves the intervals. -/
structure Counts (s s' : Sender) : Prop where
  interval : s'.statisticInterval = s.statisticInterval
  counted : ∀ a, s.counted a ≤ s'.counted a

theorem Counts.of_eq (hinterval : s'.statisticInterval = s.statisticInterval)
    (hstatistic : ∀ a, s'.statistic.amount a = s.statistic.amount a) : s.Counts s' :=
  ⟨hinterval, fun a => Nat.le_of_eq (hstatistic a).symm⟩

theorem Counts.refl (s : Sender) : s.Counts s := .of_eq rfl fun _ => rfl

theorem Counts.trans {s'' : Sender} (h : s.Counts s') (h' : s'.Counts s'') : s.Counts s'' :=
  ⟨h'.interval.trans h.interval, fun a => Nat.le_trans (h.counted a) (h'.counted a)⟩

theorem Counts.account (h : s.Counts s') (a : Amount) :
    s'.recorded a + s'.counted a = s.recorded a + s.counted a + (s'.counted a - s.counted a) := by
  have hcounted := h.counted a
  have hrecorded : s'.recorded a = s.recorded a := by simp only [recorded, h.interval]
  omega

def Checks (clock : Clock) (s s' : Sender) : Prop :=
  ∀ a, Checked (s.statisticInterval.expired clock) s.statisticInterval.finished
    (s.recorded a) (s.counted a) (s'.recorded a) (s'.counted a)

theorem closeInterval_checks (clock : Clock) (s : Sender) :
    s.Checks clock (s.closeInterval clock) := by
  intro a
  unfold closeInterval Checked
  split
  · exact ⟨Statistic.amount_new clock _,
      StatisticInterval.recorded_calculateInterval a clock _ _⟩
  · exact ⟨rfl, rfl⟩

/-- The check does not see the counting of calls before it and the pushing of
requests after it. -/
theorem Checks.of_eq {clock : Clock} {t t' : Sender} (h : t.Checks clock t')
    (ht : s.Counts t) (hstatistic : ∀ a, t.counted a = s.counted a)
    (hinterval : s'.statisticInterval = t'.statisticInterval)
    (hstatistic' : s'.statistic = t'.statistic) : s.Checks clock s' := by
  intro a
  have hcheck := h a
  simp only [recorded, hstatistic, ht.interval] at hcheck
  simpa only [recorded, counted, hinterval, hstatistic'] using hcheck

/-- The last interval is not recorded. -/
def Closed (s : Sender) : Prop :=
  s.statisticInterval.outputInterval = 0 ∨ s.statisticInterval.finished

instance (s : Sender) : Decidable s.Closed := inferInstanceAs (Decidable (_ ∨ _))

theorem lastInterval_closed {clock : Clock} (h : s.Closed) : s.lastInterval clock = s := by
  unfold lastInterval
  rw [if_neg]
  intro hflush
  obtain ⟨hzero, hfinished⟩ := hflush
  exact h.elim hzero hfinished

theorem lastInterval_open (clock : Clock) (h : ¬s.Closed) (a : Amount) :
    (s.lastInterval clock).statisticInterval.statistics ≠ [] ∧
      (s.lastInterval clock).recorded a = s.recorded a + s.counted a ∧
      (s.lastInterval clock).counted a = s.counted a := by
  obtain ⟨hzero, hfinished⟩ := not_or.mp h
  unfold lastInterval
  rw [if_pos ⟨hzero, hfinished⟩]
  refine ⟨?_, ?_, rfl⟩
  · simp only [StatisticInterval.finished, decide_eq_true_eq] at hfinished
    simp [StatisticInterval.calculateInterval, hfinished]
  · rw [recorded, StatisticInterval.recorded_calculateInterval, if_neg hfinished]
    rfl

theorem finalStatistic_amount {a : Amount} {clock : Clock} {final : Statistic}
    (h : s.finalStatistic clock = .ok final) : final.amount a =
      if s.statisticInterval.statistics = [] then s.counted a else s.recorded a := by
  unfold finalStatistic at h
  split at h
  · rename_i hempty
    cases h
    rw [if_pos (List.isEmpty_iff.mp hempty), Statistic.amount_setTestDuration]
    rfl
  · rename_i hempty
    rw [if_neg (fun h => hempty (List.isEmpty_iff.mpr h)), Statistic.amount_sum h,
      Statistic.amount_new, Nat.zero_add]
    rfl

theorem countSyscall_counts (s : Sender) : s.Counts s.countSyscall :=
  .of_eq rfl fun a => by cases a <;> rfl

theorem countWait_counts (s : Sender) : s.Counts s.countWait :=
  .of_eq rfl fun a => by cases a <;> rfl

section
variable {n datagrams bytes : Nat} {e : Error} {result : Except Error Unit}

theorem stamp_counts (h : s.stamp = .ok (n, s')) : s.Counts s' := by
  simp only [stamp, bind_ok] at h
  obtain ⟨_, _, _, _, h⟩ := h
  cases h
  exact .of_eq rfl fun _ => rfl

theorem count_counts (s : Sender) (datagrams bytes : Nat) :
    s.Counts (s.count datagrams bytes) :=
  ⟨rfl, fun a => by cases a <;> exact Nat.le_add_right _ _⟩

theorem failed_counts (h : s.failed n e = .ok (result, s')) : s.Counts s' := by
  unfold failed at h
  split at h
  · cases h
    exact .refl s
  · obtain ⟨_, _, h⟩ := bind_ok.mp h
    cases h
    exact .of_eq rfl fun _ => rfl
  · cases h
    exact .refl s

theorem send_counts {kernel : Except Error Nat} (h : s.send kernel = .ok (result, s')) :
    s.Counts s' := by
  obtain ⟨⟨amount, t⟩, hstamp, h⟩ := bind_ok.mp h
  apply (stamp_counts hstamp).trans
  simp only at h
  split at h
  · cases h
  · obtain ⟨_, _, h⟩ := bind_ok.mp h
    split at h
    · cases h
      exact count_counts t _ _
    · exact failed_counts h

theorem sendmsg_counts {kernel : Except Error Nat} (h : s.sendmsg kernel = .ok (result, s')) :
    s.Counts s' := by
  obtain ⟨⟨amount, t⟩, hstamp, h⟩ := bind_ok.mp h
  apply (stamp_counts hstamp).trans
  simp only at h
  split at h
  · cases h
  · cases kernel with
    | ok bytes =>
      cases h
      exact count_counts t _ _
    | error e => exact failed_counts h

theorem sendmmsg_counts {kernel : Except Error (List Nat)}
    (h : s.sendmmsg kernel = .ok (result, s')) : s.Counts s' := by
  obtain ⟨⟨amount, t⟩, hstamp, h⟩ := bind_ok.mp h
  apply (stamp_counts hstamp).trans
  cases kernel with
  | error e => exact failed_counts h
  | ok lengths =>
    simp only at h
    split at h
    · cases h
      exact ⟨rfl, (count_counts t _ _).counted⟩
    · simp only [bind_ok] at h
      obtain ⟨_, _, _, _, u, hu, h⟩ := h
      cases hu
      cases h
      exact ⟨rfl, (count_counts t _ _).counted⟩

theorem sendMessages_counts {socket : Socket} (h : s.sendMessages socket = .ok (result, s')) :
    s.Counts s' := by
  unfold sendMessages at h
  split at h
  · exact send_counts h
  · exact sendmsg_counts h
  · exact sendmmsg_counts h

end

section
variable {R : Statistic → Statistic → Prop} {cq rest : List SendCqe} {result : Except Error Nat}

/-- What each completion leaves of a statistic, a batch leaves. -/
theorem ioUringCompleteSend_rel (hrefl : ∀ st, R st st)
    (htrans : ∀ st t u, R st t → R t u → R st u)
    (hsettles : ∀ k c st result st', Settles false k c st result st' → R st st')
    (h : s.ioUringCompleteSend cq = .ok (result, s', rest)) :
    s'.parameter = s.parameter ∧ s'.statisticInterval = s.statisticInterval ∧
      R s.statistic s'.statistic := by
  simp only [ioUringCompleteSend, bind_ok] at h
  obtain ⟨⟨drained, ⟨statistic, completed⟩, rest'⟩, hdrain, h⟩ := h
  cases h
  refine ⟨rfl, rfl, Queue.drain_keeps (P := fun t : Statistic × Nat => R s.statistic t.1) ?_
    (hrefl _) hdrain⟩
  intro i c t result t' ht hbody
  exact htrans _ _ _ ht (hsettles _ _ _ _ _ (completeSend_cases (Except.ok.inj hbody)))

theorem ioUringCompleteSendZc_rel (hrefl : ∀ st, R st st)
    (htrans : ∀ st t u, R st t → R t u → R st u)
    (hsettles : ∀ k c st result st', Settles true k c st result st' → R st st')
    (h : s.ioUringCompleteSendZc cq = .ok (result, s', rest)) :
    s'.parameter = s.parameter ∧ s'.statisticInterval = s.statisticInterval ∧
      R s.statistic s'.statistic := by
  simp only [ioUringCompleteSendZc, bind_ok] at h
  obtain ⟨⟨drained, ⟨statistic, completed, indexPool⟩, rest'⟩, hdrain, h⟩ := h
  have hkeeps : R s.statistic statistic := by
    apply Queue.drain_keeps (P := fun t : Statistic × Nat × List Nat => R s.statistic t.1) ?_
      (hrefl _) hdrain
    intro i c t result t' ht hbody
    exact htrans _ _ _ ht (hsettles _ _ _ _ _ (completeSendZc_cases (Except.ok.inj hbody)))
  cases drained with
  | error e =>
    cases h
    exact ⟨rfl, rfl, hkeeps⟩
  | ok u =>
    cases h
    exact ⟨rfl, rfl, hkeeps⟩

theorem ioUringCompleteSend_counts (h : s.ioUringCompleteSend cq = .ok (result, s', rest)) :
    s.Counts s' := by
  obtain ⟨_, hinterval, hamount⟩ := ioUringCompleteSend_rel
    (R := fun st st' => ∀ a, st.amount a ≤ st'.amount a) (fun _ _ => Nat.le_refl _)
    (fun _ _ _ h h' a => Nat.le_trans (h a) (h' a)) (fun _ _ _ _ _ h => h.amount) h
  exact ⟨hinterval, hamount⟩

theorem ioUringCompleteSendZc_counts (h : s.ioUringCompleteSendZc cq = .ok (result, s', rest)) :
    s.Counts s' := by
  obtain ⟨_, hinterval, hamount⟩ := ioUringCompleteSendZc_rel
    (R := fun st st' => ∀ a, st.amount a ≤ st'.amount a) (fun _ _ => Nat.le_refl _)
    (fun _ _ _ h h' a => Nat.le_trans (h a) (h' a)) (fun _ _ _ _ _ h => h.amount) h
  exact ⟨hinterval, hamount⟩

end

end Sender

namespace SenderLoop
variable {s s' : SenderLoop}

/-- Where an event makes an interval check, and at what time. -/
def checkedAt (s : SenderLoop) : SenderEvent → Option Clock
  | .fill time clock _ =>
    match s.uring.uringMode with
    | .normal | .zerocopy => if s.sender.running s.startTime time then some clock else none
    | .multishot | .providedBuffer => none
  | _ => none

theorem submit_sender {room : Nat} (h : s.submit room = .ok s') :
    s'.sender.statisticInterval = s.sender.statisticInterval ∧
      s'.sender.statistic = s.sender.statistic := by
  obtain ⟨_, _, _, ⟨_, rfl⟩ | ⟨_, _, _, _, hsender, _⟩⟩ := submit_ok h
  · exact ⟨rfl, rfl⟩
  · rw [hsender]
    exact ⟨rfl, rfl⟩

theorem fill_amounts {time clock : Clock} {room : Nat} (h : s.fill time clock room = .ok s') :
    match s.checkedAt (.fill time clock room) with
    | some clock => s.sender.Checks clock s'.sender
    | none => s.sender.Counts s'.sender := by
  rcases fill_branches h with ⟨⟨hnormal, hzerocopy⟩, rfl⟩ | ⟨hmode, hcases⟩
  · have hat : s.checkedAt (.fill time clock room) = none := by
      cases hmode : s.uring.uringMode with
      | normal => exact absurd hmode hnormal
      | zerocopy => exact absurd hmode hzerocopy
      | providedBuffer | multishot => simp only [checkedAt, hmode]
    rw [hat]
    exact .refl _
  · have hat : s.checkedAt (.fill time clock room) =
        if s.sender.running s.startTime time then some clock else none := by
      rcases hmode with hmode | hmode
      · simp only [checkedAt, hmode]
      · simp only [checkedAt, hmode]
    rcases hcases with ⟨hstopped, rfl⟩ | ⟨hrunning, statistic, hrecord, h⟩
    · rw [hat, if_neg (by simp [hstopped])]
      exact .refl _
    · have hsame : ∀ a, statistic.countIoModelCall.amount a = s.sender.statistic.amount a :=
        fun a => by rw [Statistic.amount_countIoModelCall, Statistic.amount_recordInflight hrecord]
      obtain ⟨hinterval, hstatistic⟩ := submit_sender h
      rw [hat, if_pos hrunning]
      exact (Sender.closeInterval_checks clock
        { s.sender with statistic := statistic.countIoModelCall }).of_eq
        (.of_eq rfl hsame) hsame hinterval hstatistic

theorem enter_amounts {result : EnterResult} {n : Nat} (h : s.enter result n = .ok s') :
    s.sender.Counts s'.sender := by
  obtain ⟨_, _, _, ⟨_, hsender⟩ | ⟨_, _, hsender, _⟩⟩ := enter_ok h
  · exact hsender ▸ .refl _
  · rw [hsender]
    exact .of_eq rfl fun _ => rfl

theorem complete_amounts (h : s.complete = .ok s') : s.sender.Counts s'.sender := by
  simp only [complete, bind_ok] at h
  obtain ⟨⟨result, sender, cq⟩, hdrain, h⟩ := h
  have hcounts : s.sender.Counts sender := by
    unfold handleCompletions at hdrain
    split at hdrain
    · exact Sender.ioUringCompleteSendZc_counts hdrain
    · exact Sender.ioUringCompleteSend_counts hdrain
  apply hcounts.trans
  simp only at h
  split at h
  · obtain ⟨_, _, h⟩ := bind_ok.mp h
    cases h
    exact .refl _
  · cases h
    exact .of_eq rfl fun a => by cases a <;> rfl
  · cases h
    exact .refl _

theorem step_amounts {e : SenderEvent} (h : s.step e = .ok s') :
    match s.checkedAt e with
    | some clock => s.sender.Checks clock s'.sender
    | none => s.sender.Counts s'.sender := by
  cases e with
  | fill time clock room => exact fill_amounts (step_fill h).2.2
  | take n =>
    obtain ⟨_, rfl⟩ := step_take h
    exact .refl _
  | post c =>
    obtain ⟨_, _, rfl⟩ := step_post h
    exact .refl _
  | enter result =>
    obtain ⟨n, _, h⟩ := step_enter h
    exact enter_amounts h
  | complete => exact complete_amounts (step_complete h).2

end SenderLoop

namespace SenderRun
variable {s s' : SenderRun}

/-- What the statistic of the sender holds. -/
def counted (a : Amount) (s : SenderRun) : Nat := s.sender.counted a

/-- What the result will report if nothing more happens, and in the end what it
reports. -/
def account (a : Amount) : SenderRun → Nat
  | .returned _ (.ok (final, _)) => final.amount a
  | s => s.sender.recorded a + s.sender.counted a

/-- Where an event makes an interval check, and at what time. -/
def checkedAt : SenderRun → SenderRunEvent → Option Clock
  | .looping s startTime, .check time clock =>
    if s.running startTime time then some clock else none
  | .uring l, .ring e => l.checkedAt e
  | _, _ => none

/-- Where an event adds up the result. -/
def finishes : SenderRun → SenderRunEvent → Bool
  | .closing _, .finish _ _ => true
  | _, _ => false

/-- An interval that expires can still be recorded or has nothing to record,
and so at the end the last one unless no interval was recorded before. -/
def Keeps (a : Amount) (s : SenderRun) (e : SenderRunEvent) : Prop :=
  (∀ clock ∈ s.checkedAt e, s.sender.statisticInterval.expired clock →
      s.sender.statisticInterval.finished → s.sender.counted a = 0) ∧
    (s.finishes e → s.sender.Closed → s.sender.statisticInterval.statistics ≠ [] →
      s.sender.counted a = 0)

instance (a : Amount) (s : SenderRun) (e : SenderRunEvent) : Decidable (s.Keeps a e) :=
  inferInstanceAs (Decidable (_ ∧ _))

/-- The final statistic of a run that is done. -/
def final : SenderRun → Option Statistic
  | .returned _ (.ok (final, _)) => some final
  | _ => none

/-- Not given up. -/
def Good (s : SenderRun) : Prop := ∀ r e, s ≠ .returned r (.error e)

/-- A state that a sender has come to without an interval check, and whose
account is still its own. -/
structure Carries (s : Sender) (t : SenderRun) : Prop where
  counts : s.Counts t.sender
  account : ∀ a, t.account a = t.sender.recorded a + t.sender.counted a

theorem Carries.after {r : Sender} {s : Sender} {t : SenderRun} (h : Carries s t)
    (hcounts : r.Counts s) : Carries r t :=
  ⟨hcounts.trans h.counts, h.account⟩

/-- Without an interval check and before the end there is nothing to lose. -/
theorem Keeps.of_unchecked {e : SenderRunEvent} {a : Amount} (hat : s.checkedAt e = none)
    (hfinishes : s.finishes e = false) : s.Keeps a e := by
  refine ⟨fun clock hclock => ?_, fun hdone => ?_⟩
  · rw [hat] at hclock
    cases hclock
  · rw [hfinishes] at hdone
    cases hdone

/-- Without an interval check nothing is lost. -/
theorem Carries.keeps {r : Sender} {e : SenderRunEvent} (h : Carries r s') (hs : s.sender = r)
    (haccount : ∀ a, s.account a = r.recorded a + r.counted a) {a : Amount} (hkeeps : s.Keeps a e) :
    s'.account a ≤ s.account a + (s'.counted a - s.counted a) ∧
      (s'.account a = s.account a + (s'.counted a - s.counted a) ↔ s.Keeps a e) := by
  have heq : s'.account a = s.account a + (s'.counted a - s.counted a) := by
    simp only [counted, hs, haccount, h.account]
    exact h.counts.account a
  exact ⟨Nat.le_of_eq heq, fun _ => hkeeps, fun _ => heq⟩

/-- With one the recorded intervals may be full. -/
theorem checks_keeps {r : Sender} {e : SenderRunEvent} {clock : Clock}
    (h : r.Checks clock s'.sender) (hs : s.sender = r)
    (haccount : ∀ a, s.account a = r.recorded a + r.counted a)
    (haccount' : ∀ a, s'.account a = s'.sender.recorded a + s'.sender.counted a)
    (hat : s.checkedAt e = some clock) (hfinishes : s.finishes e = false) (a : Amount) :
    s'.account a ≤ s.account a + (s'.counted a - s.counted a) ∧
      (s'.account a = s.account a + (s'.counted a - s.counted a) ↔ s.Keeps a e) := by
  obtain ⟨hle, hiff⟩ := (h a).account
  have hkeeps : s.Keeps a e ↔ (r.statisticInterval.expired clock →
      r.statisticInterval.finished → r.counted a = 0) := by
    unfold Keeps
    rw [hat, hfinishes, hs]
    constructor
    · exact fun h => h.1 clock rfl
    · refine fun h => ⟨?_, by simp⟩
      intro e he
      cases he
      exact h
  simp only [counted, hs, haccount, haccount']
  exact ⟨hle, hiff.trans hkeeps.symm⟩

theorem start_carries (clock clock' : Clock) (init setup : Except Error Unit) (s : Sender) :
    ∀ a, (start clock clock' init setup s).counted a = s.counted a ∧
      (start clock clock' init setup s).account a = s.recorded a + s.counted a := by
  intro a
  unfold start
  split
  · exact ⟨rfl, rfl⟩
  · simp only
    split
    · exact ⟨rfl, rfl⟩
    · split <;> exact ⟨rfl, rfl⟩

theorem sent_carries (s : Sender) (startTime : Timestamp) (result : Except Error Unit) :
    Carries s (sent s startTime result) := by
  cases result with
  | ok u => exact ⟨s.countSyscall_counts, fun _ => rfl⟩
  | error e =>
    cases e with
    | eagain => exact ⟨s.countWait_counts, fun _ => rfl⟩
    | _ => exact ⟨.refl s, fun _ => rfl⟩

theorem waited_carries (s : Sender) (startTime : Timestamp) (result : Except Error Unit) :
    Carries s (waited s startTime result) := by
  cases result with
  | ok u => exact ⟨s.countSyscall_counts, fun _ => rfl⟩
  | error e => exact ⟨.refl s, fun _ => rfl⟩

theorem looped_carries (l : SenderLoop) : Carries l.sender (looped l) := by
  unfold looped
  split <;> exact ⟨.refl _, fun _ => rfl⟩

/-- The result leaves out what is behind a full list of intervals. -/
theorem finish_account {clock : Clock} {last : Except Error Unit} {s : Sender}
    (h : finish clock last s = .ok s') (hgood : s'.Good) (a : Amount) :
    s'.counted a = s.counted a ∧ s'.account a = s.recorded a +
      if s.Closed ∧ s.statisticInterval.statistics ≠ [] then 0 else s.counted a := by
  obtain ⟨final, hfinal, h⟩ := bind_ok.mp (show _ >>= _ = _ from h)
  have hamount := Sender.finalStatistic_amount (a := a) hfinal
  split at h
  · cases h
    exact absurd rfl (hgood _ _)
  · cases h
    have haccount : account a (.returned (s.lastInterval clock)
        (.ok (final.setTestDuration none none,
          (s.lastInterval clock).statisticInterval.statistics))) = final.amount a :=
      Statistic.amount_setTestDuration none none
    rw [haccount, hamount]
    by_cases hclosed : s.Closed
    · rw [Sender.lastInterval_closed hclosed]
      refine ⟨rfl, ?_⟩
      by_cases hempty : s.statisticInterval.statistics = []
      · have hrecorded : s.recorded a = 0 := by
          simp [Sender.recorded, StatisticInterval.recorded, hempty]
        rw [if_pos hempty, if_neg (fun h => h.2 hempty), hrecorded, Nat.zero_add]
      · rw [if_neg hempty, if_pos ⟨hclosed, hempty⟩, Nat.add_zero]
    · obtain ⟨hstatistics, hrecorded, hcounted⟩ := Sender.lastInterval_open clock hclosed a
      rw [if_neg hstatistics, if_neg (fun h => hclosed h.1), hrecorded]
      exact ⟨hcounted, rfl⟩

theorem lift_ok {x : Except Fault SenderRun} : lift x = .ok s ↔ x = .ok s := by
  cases x <;> simp [lift]

theorem start_keeps (clock clock' : Clock) (init setup : Except Error Unit) (r : Sender)
    (a : Amount) :
    let s' := start clock clock' init setup r
    s'.account a ≤ (starting r).account a + (s'.counted a - (starting r).counted a) ∧
      (s'.account a = (starting r).account a + (s'.counted a - (starting r).counted a) ↔
        (starting r).Keeps a (.start clock clock' init setup)) := by
  obtain ⟨hcounted, haccount⟩ := start_carries clock clock' init setup r a
  have hold : (starting r).account a = r.recorded a + r.counted a := rfl
  have hkeeps : (starting r).Keeps a (.start clock clock' init setup) := .of_unchecked rfl rfl
  have hsame : (starting r).counted a = r.counted a := rfl
  simp only [haccount, hcounted, hold, hsame]
  exact ⟨by omega, ⟨fun _ => hkeeps, fun _ => by omega⟩⟩

theorem finish_keeps {clock : Clock} {last : Except Error Unit} {r : Sender} {a : Amount}
    (hcounted : s'.counted a = r.counted a) (haccount : s'.account a = r.recorded a +
      if r.Closed ∧ r.statisticInterval.statistics ≠ [] then 0 else r.counted a) :
    s'.account a ≤ (closing r).account a + (s'.counted a - (closing r).counted a) ∧
      (s'.account a = (closing r).account a + (s'.counted a - (closing r).counted a) ↔
        (closing r).Keeps a (.finish clock last)) := by
  have hold : (closing r).account a = r.recorded a + r.counted a := rfl
  have hsame : (closing r).counted a = r.counted a := rfl
  have hkeeps : (closing r).Keeps a (.finish clock last) ↔
      (r.Closed → r.statisticInterval.statistics ≠ [] → r.counted a = 0) := by
    constructor
    · exact fun h => h.2 rfl
    · intro hzero
      refine ⟨fun clock hclock => ?_, fun _ => hzero⟩
      cases hclock
  rw [hcounted, haccount, hold, hsame, hkeeps, Nat.sub_self, Nat.add_zero]
  by_cases hlost : r.Closed ∧ r.statisticInterval.statistics ≠ []
  · rw [if_pos hlost]
    exact ⟨by omega, fun heq _ _ => by omega, fun hzero => by rw [hzero hlost.1 hlost.2]⟩
  · rw [if_neg hlost]
    exact ⟨Nat.le_refl _, fun _ hclosed hne => absurd ⟨hclosed, hne⟩ hlost, fun _ => rfl⟩

/-- What a step adds to the account is what it counts, unless it loses some. -/
theorem step_account {e : SenderRunEvent} (h : s.step e = .ok s') (hgood : s'.Good) (a : Amount) :
    s'.account a ≤ s.account a + (s'.counted a - s.counted a) ∧
      (s'.account a = s.account a + (s'.counted a - s.counted a) ↔ s.Keeps a e) := by
  unfold step at h
  split at h
  · rename_i r clock clock' init setup
    cases h
    exact start_keeps clock clock' init setup r a
  · rename_i r startTime time clock
    split at h
    · rename_i hrunning
      cases h
      have hat : (looping r startTime).checkedAt (.check time clock) = some clock :=
        if_pos hrunning
      exact checks_keeps (Sender.closeInterval_checks clock r) rfl (fun _ => rfl) (fun _ => rfl)
        hat rfl a
    · rename_i hrunning
      cases h
      have hat : (looping r startTime).checkedAt (.check time clock) = none := if_neg hrunning
      have hcarries : Carries r (closing r) := ⟨.refl r, fun _ => rfl⟩
      exact hcarries.keeps (s := looping r startTime) rfl (fun _ => rfl) (.of_unchecked hat rfl)
  · rename_i r startTime socket
    obtain ⟨⟨result, r'⟩, hsend, h⟩ := bind_ok.mp (lift_ok.mp h)
    cases h
    exact ((sent_carries r' startTime result).after (Sender.sendMessages_counts hsend)).keeps
      (s := sending r startTime) rfl (fun _ => rfl) (.of_unchecked rfl rfl)
  · rename_i r startTime result
    cases h
    exact (waited_carries r startTime _).keeps (s := waiting r startTime) rfl (fun _ => rfl)
      (.of_unchecked rfl rfl)
  · rename_i l e
    obtain ⟨l', hl, h⟩ := map_eq_ok.mp h
    cases h
    have hmatch := SenderLoop.step_amounts hl
    have hcarries := looped_carries l'
    cases hat : l.checkedAt e with
    | none =>
      rw [hat] at hmatch
      exact (hcarries.after hmatch).keeps (s := uring l) rfl (fun _ => rfl)
        (.of_unchecked hat rfl)
    | some clock =>
      rw [hat] at hmatch
      have hsender : (looped l').sender = l'.sender := by
        unfold looped
        split <;> rfl
      have hsome : (uring l).checkedAt (.ring e) = some clock := hat
      exact checks_keeps (hsender ▸ hmatch) rfl (fun _ => rfl) hcarries.account hsome rfl a
  · rename_i r clock last
    obtain ⟨hcounted, haccount⟩ := finish_account (lift_ok.mp h) hgood a
    exact finish_keeps hcounted haccount
  · cases h

theorem Good.back {e : SenderRunEvent} (h : s.step e = .ok s') : s.Good := by
  intro r error hreturned
  subst hreturned
  cases e <;> cases h

end SenderRun

/-- The final statistic has everything the run has counted exactly if no
interval expires in vain and nothing is counted behind a full list of them. -/
theorem sent_total_iff (clock : Clock) (testId : Nat) (p : Parameter) (s : Sender)
    (hnew : Sender.new clock testId p = .ok s) (events : List SenderRunEvent) (t : SenderRun)
    (hrun : run SenderRun.step (.starting s) events = .ok t) (final : Statistic)
    (hfinal : t.final = some final) :
    (∀ a, final.amount a =
        gains SenderRun.step (SenderRun.counted a) (.starting s) events) ↔
      Guarded SenderRun.step (fun s e => ∀ a, s.Keeps a e) (.starting s) events := by
  have hzero : ∀ a, (SenderRun.starting s).account a = 0 := by
    intro a
    obtain ⟨b, _, hnew⟩ := bind_ok.mp hnew
    cases hnew
    cases a <;> rfl
  obtain ⟨hgood, haccount⟩ : t.Good ∧ ∀ a, t.account a = final.amount a := by
    unfold SenderRun.final at hfinal
    split at hfinal
    · cases hfinal
      exact ⟨fun _ _ => by simp, fun _ => rfl⟩
    · cases hfinal
  have hiff : ∀ a, (final.amount a =
      gains SenderRun.step (SenderRun.counted a) (.starting s) events ↔
        Guarded SenderRun.step (SenderRun.Keeps a) (.starting s) events) := by
    intro a
    have hgains := gains_iff (I := fun _ => True) SenderRun.Good (SenderRun.counted a)
      (SenderRun.account a) (SenderRun.Keeps a)
      (fun _ _ _ h _ => SenderRun.Good.back h) (fun _ _ _ _ _ _ => trivial)
      (fun _ _ _ _ hgood h => (SenderRun.step_account h hgood a).1)
      (fun _ _ _ _ hgood h => (SenderRun.step_account h hgood a).2)
      (s := .starting s) trivial hrun hgood
    rwa [hzero, Nat.zero_add, haccount] at hgains
  rw [← guarded_forall]
  exact forall_congr' hiff

/-- One round of the socket loop. -/
def sendAt (time clock : Timestamp) (answer : Except Error Nat) : List SenderRunEvent :=
  [.check ⟨time, time⟩ ⟨clock, clock⟩, .send ⟨answer, .ok []⟩]

/-- After ten seconds the loop ends. -/
def endOfTest : List SenderRunEvent :=
  let clock := ⟨10 * nanosPerSecond, 10 * nanosPerSecond⟩
  [.check clock clock, .finish clock (.ok ())]

theorem sent_total_recorded :
    let s := (Sender.new ⟨0, 0⟩ 7 { Parameter.tenSeconds with mode := .sender }).toOption.get
      (by decide)
    let events : List SenderRunEvent := .start ⟨0, 0⟩ ⟨0, 0⟩ (.ok ()) (.ok ()) ::
      (sendAt 1 1 (.ok 24) ++ sendAt (10 * nanosPerSecond - 1) (10 * nanosPerSecond)
        (.error .eagain) ++ .wait .ready :: endOfTest)
    ∃ t final, run SenderRun.step (.starting s) events = .ok t ∧ t.final = some final ∧
      final.amountDatagrams = 1 ∧ ∀ a, final.amount a =
        gains SenderRun.step (SenderRun.counted a) (.starting s) events := by
  intro s events
  obtain ⟨t, hrun, hcount⟩ := checked (x := run SenderRun.step (.starting s) events)
    (p := fun t => t.final.map Statistic.amountDatagrams = some 1) (by decide +kernel)
  obtain ⟨final, hfinal, hcount⟩ := Option.map_eq_some_iff.mp hcount
  refine ⟨t, final, hrun, hfinal, hcount, ?_⟩
  exact (sent_total_iff ⟨0, 0⟩ 7 { Parameter.tenSeconds with mode := .sender } s rfl events t hrun
    final hfinal).mpr (by decide +kernel)

/-- The interval expires between the test of the loop and the check, and is
recorded before the last packet is sent. -/
theorem sent_total_lost :
    let s := (Sender.new ⟨0, 0⟩ 7 { Parameter.tenSeconds with mode := .sender }).toOption.get
      (by decide)
    let events : List SenderRunEvent := .start ⟨0, 0⟩ ⟨0, 0⟩ (.ok ()) (.ok ()) ::
      (sendAt 1 1 (.ok 24) ++ sendAt (10 * nanosPerSecond - 1) (10 * nanosPerSecond) (.ok 24) ++
        endOfTest)
    (run SenderRun.step (.starting s) events).toOption.map
        (fun t => t.final.map Statistic.amountDatagrams) = some (some 1) ∧
      gains SenderRun.step (SenderRun.counted .datagrams) (.starting s) events = 2 := by
  decide +kernel

end Nperf
