import Nperf.Lib.Gains
import Nperf.Model.CommandParser
import Nperf.Proofs.Amounts
import Nperf.Proofs.Loop

namespace Nperf
open Rust Runs

namespace UringLoop
variable {build : Build} {s s' : UringLoop}

/-- The loop counts packets in the measurements only. -/
def Blank (s : UringLoop) : Prop :=
  ∀ a, s.statistic.amount a = 0 ∧ s.ringStatistic.amount a = 0

/-- Where an event makes an interval check, and at what time. -/
def checkedAt (s : UringLoop) : UringEvent → Option Clock
  | .fill clock _ =>
    match s.uring.uringMode with
    | .normal | .providedBuffer => some clock
    | .multishot | .zerocopy => none
  | .enter _ clock => if s.uring.uringMode = .multishot then some clock else none
  | _ => none

theorem closeInterval_checks {clock : Clock} (hb : s.Blank)
    (h : s.closeInterval build clock = .ok s') :
    s.receiver.Checks clock s'.receiver ∧ s'.Blank := by
  unfold closeInterval at h
  split at h
  · rename_i hexpired
    simp only [bind_ok] at h
    obtain ⟨sum, hsum, sum', hsum', h⟩ := h
    cases h
    refine ⟨Receiver.checks_recorded hexpired fun a => ?_, fun a => ?_⟩
    · obtain ⟨hs, hring⟩ := hb a
      rw [Statistic.amount_accumulate hsum', Statistic.amount_total hsum, hs, hring, Nat.zero_add,
        Nat.add_zero, List.map_map]
      rfl
    · exact ⟨Statistic.amount_new clock _, Statistic.amount_new clock _⟩
  · rename_i hexpired
    cases h
    refine ⟨fun a => ?_, hb⟩
    rw [if_neg hexpired]
    exact ⟨rfl, rfl⟩

theorem pushed_blank {requests : List Nat} (hb : s.Blank) (h : s.pushed requests = .ok s') :
    s'.receiver = s.receiver ∧ s'.Blank := by
  obtain ⟨t, ht, h⟩ := bind_ok.mp h
  cases h
  exact ⟨rfl, fun a => ⟨(hb a).1, (Statistic.amount_recordSq ht).trans (hb a).2⟩⟩

/-- The calculation of an iteration and its `submit`, which leaves the
measurements alone. -/
theorem fillCounted_checks {clock : Clock} {submit : Nat → UringLoop → Except Fault UringLoop}
    {inflight : UringLoop → Nat} (hb : s.Blank)
    (hsubmit : ∀ n t t', t.Blank → submit n t = .ok t' →
      t'.receiver.statisticInterval = t.receiver.statisticInterval ∧
        t'.receiver.measurements = t.receiver.measurements ∧ t'.Blank)
    (h : s.fillCounted build clock submit inflight = .ok s') :
    s.receiver.Checks clock s'.receiver ∧ s'.Blank := by
  simp only [fillCounted, bind_ok] at h
  obtain ⟨statistic, hstatistic, t, ht, ⟨toSubmit, minComplete⟩, _, h⟩ := h
  obtain ⟨hcheck, htb⟩ := closeInterval_checks (s := { s with
    statistic := statistic.countIoModelCall })
    (fun a => ⟨by
      simp only [Statistic.amount_countIoModelCall, Statistic.amount_recordInflight hstatistic,
        (hb a).1], (hb a).2⟩) ht
  simp only at h
  split at h
  · cases h
    exact ⟨hcheck, htb⟩
  · obtain ⟨hinterval, hms, htb'⟩ := hsubmit toSubmit t s' htb h
    exact ⟨hcheck.of_eq hinterval hms, htb'⟩

theorem fillNormal_blank {room n : Nat} (hb : s.Blank) (h : s.fillNormal room n = .ok s') :
    s'.receiver.statisticInterval = s.receiver.statisticInterval ∧
      s'.receiver.measurements = s.receiver.measurements ∧ s'.Blank := by
  unfold fillNormal at h
  split at h
  · cases h
    exact ⟨rfl, rfl, hb⟩
  · rename_i requests b _
    obtain ⟨hr, hb'⟩ := pushed_blank (s := { s with
      receiver := { s.receiver with packetBuffer := b } }) hb h
    rw [hr]
    exact ⟨rfl, rfl, hb'⟩

theorem fill_amounts {clock : Clock} {room : Nat} (hb : s.Blank)
    (h : s.fill build clock room = .ok s') : s'.Blank ∧
      match s.checkedAt (.fill clock room) with
      | some clock => s.receiver.Checks clock s'.receiver
      | none => s.receiver.Counts s'.receiver := by
  unfold fill at h
  unfold checkedAt
  split at h
  · rename_i hmode
    simp only [hmode]
    unfold fillMultishot at h
    simp only at h
    split at h
    · cases h
      exact ⟨fun a => ⟨by simp [(hb a).1], (hb a).2⟩, .refl _⟩
    · split at h
      · cases h
        exact ⟨fun a => ⟨by simp [(hb a).1], (hb a).2⟩, .refl _⟩
      · obtain ⟨hr, hb'⟩ := pushed_blank (s := { s with
          statistic := s.statistic.countIoModelCall })
          (fun a => ⟨by simp [(hb a).1], (hb a).2⟩) h
        exact ⟨hb', hr ▸ .refl _⟩
  · rename_i hmode
    simp only [hmode]
    obtain ⟨hcheck, hb'⟩ := fillCounted_checks hb (fun n t t' htb ht => by
      obtain ⟨hr, htb'⟩ := pushed_blank htb ht
      exact ⟨by rw [hr], by rw [hr], htb'⟩) h
    exact ⟨hb', hcheck⟩
  · rename_i hmode
    simp only [hmode]
    obtain ⟨hcheck, hb'⟩ := fillCounted_checks hb (fun n t t' htb => fillNormal_blank htb) h
    exact ⟨hb', hcheck⟩
  · rename_i hmode
    simp only [hmode]
    cases h
    exact ⟨hb, .refl _⟩

theorem enter_amounts {result : EnterResult} {clock : Clock} {n : Nat} (hb : s.Blank)
    (h : s.enter build result clock n = .ok s')
    (hgoes : ∀ e, s'.phase ≠ .returned (.error e)) : s'.Blank ∧
      match s.checkedAt (.enter result clock) with
      | some clock => s.receiver.Checks clock s'.receiver
      | none => s.receiver.Counts s'.receiver := by
  unfold enter at h
  split at h
  · cases h
    exact absurd rfl (hgoes _)
  · simp only [bind_ok] at h
    obtain ⟨ringStatistic, hring, h⟩ := h
    have hzero : ∀ a, ringStatistic.amount a = 0 := fun a => by
      rw [Statistic.amount_recordCq hring, ← (hb a).2]
      cases a <;> rfl
    simp only [checkedAt]
    split at h
    · rename_i hmode
      have hmode : s.uring.uringMode = .multishot := hmode
      rw [if_pos hmode]
      obtain ⟨hcheck, hb'⟩ := closeInterval_checks (s := { s with
        ringStatistic := ringStatistic, phase := .complete })
        (fun a => ⟨(hb a).1, hzero a⟩) h
      exact ⟨hb', hcheck⟩
    · rename_i hmode
      have hmode : ¬s.uring.uringMode = .multishot := hmode
      rw [if_neg hmode]
      cases h
      exact ⟨fun a => ⟨(hb a).1, hzero a⟩, .refl _⟩

theorem interrupted_amounts {e : Error} (hb : s.Blank) (h : s.interrupted build e = .ok s') :
    s'.receiver = s.receiver ∧ s'.Blank := by
  cases e with
  | lastMessageReceived =>
    simp only [interrupted] at h
    split at h
    · obtain ⟨statistic, hstatistic, h⟩ := bind_ok.mp h
      cases h
      refine ⟨rfl, fun a => ⟨?_, (hb a).2⟩⟩
      rw [Statistic.amount_accumulate hstatistic, (hb a).1, (hb a).2]
    · cases h
      exact ⟨rfl, hb⟩
  | eagain =>
    cases h
    refine ⟨rfl, fun a => ⟨?_, (hb a).2⟩⟩
    rw [← (hb a).1]
    cases a <;> rfl
  | _ =>
    cases h
    exact ⟨rfl, hb⟩

theorem reaped_amounts {completed : Nat} (hb : s.Blank) (h : s.reaped completed = .ok s') :
    s'.receiver = s.receiver ∧ s'.Blank := by
  obtain ⟨_, h⟩ := reaped_ok h
  rw [h]
  exact ⟨rfl, hb⟩

/-- The match on the result of a handler that counts completions. -/
theorem handled_amounts {result : Except Error Nat} (hb : s.Blank)
    (h : (match result with
      | .ok completed => s.reaped completed
      | .error e => s.interrupted build e) = .ok s') : s'.receiver = s.receiver ∧ s'.Blank := by
  cases result with
  | ok completed => exact reaped_amounts hb h
  | error e => exact interrupted_amounts hb h

theorem complete_amounts {clock : Nat → Clock} (hb : s.Blank)
    (h : s.complete build clock = .ok s') : s'.Blank ∧ s.receiver.Counts s'.receiver := by
  unfold complete at h
  split at h
  · simp only [bind_ok] at h
    obtain ⟨⟨result, r, cq⟩, hr, h⟩ := h
    have hcounts := Receiver.ioUringCompleteMultishot_counts hr
    have hb' : Blank { s with receiver := r, ring := { s.ring with cq := cq } } := hb
    cases result with
    | ok armed =>
      cases h
      refine ⟨fun a => ⟨?_, (hb a).2⟩, hcounts⟩
      rw [← (hb a).1]
      cases armed <;> cases a <;> rfl
    | error e =>
      obtain ⟨hr, hb⟩ := interrupted_amounts hb' h
      exact ⟨hb, hr ▸ hcounts⟩
  · simp only [bind_ok] at h
    obtain ⟨⟨result, r, statistic, cq⟩, hr, h⟩ := h
    obtain ⟨hcounts, hstatistic⟩ := Receiver.ioUringCompleteProvidedBuffers_counts hr
    have hb' : Blank { s with
        receiver := r, statistic := statistic, ring := { s.ring with cq := cq } } :=
      fun a => ⟨(hstatistic a).trans (hb a).1, (hb a).2⟩
    obtain ⟨hreceiver, hblank⟩ := handled_amounts hb' h
    exact ⟨hblank, hreceiver ▸ hcounts⟩
  · simp only [bind_ok] at h
    obtain ⟨⟨result, r, cq⟩, hr, h⟩ := h
    have hcounts := Receiver.ioUringCompleteNormal_counts hr
    have hb' : Blank { s with receiver := r, ring := { s.ring with cq := cq } } := hb
    obtain ⟨hreceiver, hblank⟩ := handled_amounts hb' h
    exact ⟨hblank, hreceiver ▸ hcounts⟩
  · cases h
    exact ⟨hb, .refl _⟩

theorem step_amounts {e : UringEvent} (hb : s.Blank) (h : s.step build e = .ok s')
    (hgoes : ∀ e, s'.phase ≠ .returned (.error e)) : s'.Blank ∧
      match s.checkedAt e with
      | some clock => s.receiver.Checks clock s'.receiver
      | none => s.receiver.Counts s'.receiver := by
  cases e with
  | fill clock room => exact fill_amounts hb (step_fill h).2.2
  | take n =>
    obtain ⟨_, rfl⟩ := step_take h
    exact ⟨hb, .refl _⟩
  | post c =>
    obtain ⟨_, _, rfl⟩ := step_post h
    exact ⟨hb, .of_eq rfl rfl⟩
  | enter result clock =>
    obtain ⟨n, _, h⟩ := step_enter h
    exact enter_amounts hb h hgoes
  | complete clock => exact complete_amounts hb (step_complete h).2

end UringLoop

namespace ReceiverRun
variable {build : Build} {s s' : ReceiverRun}

/-- What the measurements hold. -/
def counted (a : Amount) (s : ReceiverRun) : Nat := s.receiver.counted a

/-- What the result will report if nothing more happens, and in the end what it
reports. -/
def account (a : Amount) : ReceiverRun → Nat
  | .returned _ (.ok (final, _)) => final.amount a
  | s => s.receiver.recorded a + s.receiver.counted a

/-- Where an event makes an interval check, and at what time. -/
def checkedAt : ReceiverRun → ReceiverEvent → Option Clock
  | .looping _ _, .check clock => some clock
  | .uring s, .ring e => s.checkedAt e
  | _, _ => none

/-- Where an event adds up the result. -/
def finishes : ReceiverRun → ReceiverEvent → Bool
  | .closing _ _, .finish _ _ => true
  | _, _ => false

/-- An interval that expires can still be recorded or has nothing to record.
At the end nothing was counted behind the last recorded interval. -/
def Keeps (a : Amount) (s : ReceiverRun) (e : ReceiverEvent) : Prop :=
  (∀ clock ∈ s.checkedAt e, s.receiver.statisticInterval.expired clock →
      s.receiver.statisticInterval.finished → s.receiver.counted a = 0) ∧
    (s.finishes e → s.receiver.statisticInterval.statistics ≠ [] → s.receiver.counted a = 0)

instance (a : Amount) (s : ReceiverRun) (e : ReceiverEvent) : Decidable (s.Keeps a e) :=
  inferInstanceAs (Decidable (_ ∧ _))

/-- The final statistic of a run that is done. -/
def final : ReceiverRun → Option Statistic
  | .returned _ (.ok (final, _)) => some final
  | _ => none

/-- The statistics of the loops themselves hold no packets. -/
def Blank : ReceiverRun → Prop
  | .polling r => r.measurements = [] ∧ r.statisticInterval.statistics = []
  | .looping _ s | .receiving _ s | .waiting _ s | .closing _ s => ∀ a, s.amount a = 0
  | .uring s => s.Blank
  | .returned _ _ => True

/-- Not given up. -/
def Good (s : ReceiverRun) : Prop := ∀ r e, s ≠ .returned r (.error e)

/-- A state that still has the receiver's own account. -/
structure Carries (r : Receiver) (s : ReceiverRun) : Prop where
  receiver : s.receiver = r
  account : ∀ a, s.account a = r.recorded a + r.counted a
  blank : s.Blank

theorem received_carries {r : Receiver} {statistic : Statistic}
    (hs : ∀ a, statistic.amount a = 0) (result : Except Error Unit) :
    Carries r (received r statistic result) := by
  cases result with
  | ok u => exact ⟨rfl, fun _ => rfl, hs⟩
  | error e =>
    cases e with
    | eagain =>
      refine ⟨rfl, fun _ => rfl, fun a => ?_⟩
      rw [← hs a]
      cases a <;> rfl
    | initMessageReceived => exact ⟨rfl, fun _ => rfl, hs⟩
    | lastMessageReceived =>
      simp only [received]
      split <;> exact ⟨rfl, fun _ => rfl, hs⟩
    | _ => exact ⟨rfl, fun _ => rfl, trivial⟩

theorem waited_carries {r : Receiver} {statistic : Statistic}
    (hs : ∀ a, statistic.amount a = 0) (result : Except Error Unit) :
    Carries r (waited r statistic result) := by
  cases result with
  | ok u => exact ⟨rfl, fun _ => rfl, hs⟩
  | error e => cases e <;> exact ⟨rfl, fun _ => rfl, by first | exact hs | trivial⟩

theorem looped_carries {s : UringLoop} (hb : s.Blank) : Carries s.receiver (looped s) := by
  unfold looped
  split
  · exact ⟨rfl, fun _ => rfl, fun a => (hb a).1⟩
  · exact ⟨rfl, fun _ => rfl, trivial⟩
  · exact ⟨rfl, fun _ => rfl, hb⟩

/-- The run begins with nothing counted. -/
theorem start_empty {r : Receiver} (hms : r.measurements = [])
    (hstatistics : r.statisticInterval.statistics = []) (clock clock' : Clock)
    (result : WaitResult) (setup : Except Error Unit) :
    (start clock clock' result setup r).Blank ∧
      ∀ a, (start clock clock' result setup r).account a = 0 ∧
        (start clock clock' result setup r).counted a = 0 := by
  have hnew : ∀ a, (Statistic.new clock r.parameter).amount a = 0 :=
    fun a => Statistic.amount_new clock _
  have hcounted : ∀ a, r.counted a = 0 := fun a => by simp [Receiver.counted, amounts, hms]
  have hrecorded : ∀ a, r.recorded a + r.counted a = 0 := fun a => by
    simp [Receiver.recorded, hstatistics, hcounted]
  cases result with
  | timeout => exact ⟨trivial, fun a => ⟨hnew a, hcounted a⟩⟩
  | failed => exact ⟨trivial, fun a => ⟨hrecorded a, hcounted a⟩⟩
  | ready =>
    simp only [start, socketPoll]
    split
    · refine ⟨fun a => ?_, fun a => ⟨hrecorded a, hcounted a⟩⟩
      rw [← hnew a]
      cases a <;> rfl
    · split
      · exact ⟨trivial, fun a => ⟨hrecorded a, hcounted a⟩⟩
      · cases setup with
        | error e => exact ⟨trivial, fun a => ⟨hrecorded a, hcounted a⟩⟩
        | ok u =>
          exact ⟨fun a => ⟨Statistic.amount_new clock' _, Statistic.amount_new clock' _⟩,
            fun a => ⟨hrecorded a, hcounted a⟩⟩

/-- The result leaves out what was counted behind the last recorded interval. -/
theorem finish_account {clock : Clock} {closed : Bool} {r : Receiver} {statistic : Statistic}
    (hs : ∀ a, statistic.amount a = 0) (h : finish build clock closed r statistic = .ok s')
    (hgood : s'.Good) : s'.receiver = r ∧ s'.Blank ∧ ∀ a, s'.account a =
      r.recorded a + if r.statisticInterval.statistics = [] then r.counted a else 0 := by
  unfold finish at h
  split at h
  · cases h
    exact absurd rfl (hgood _ _)
  · obtain ⟨final, hfinal, h⟩ := bind_ok.mp h
    cases h
    refine ⟨rfl, trivial, fun a => ?_⟩
    simp only [account, Statistic.amount_setTestDuration]
    unfold Receiver.sumStatistics at hfinal
    split at hfinal
    · rename_i hempty
      have hempty := List.isEmpty_iff.mp hempty
      obtain ⟨sum, hsum, hfinal⟩ := bind_ok.mp hfinal
      cases hfinal
      rw [Statistic.amount_setTestDuration, Statistic.amount_total hsum, hs a, if_pos hempty,
        List.map_map]
      simp only [Receiver.recorded, hempty, List.map_nil, List.sum_nil, Receiver.counted, amounts]
      rfl
    · rename_i hempty
      rw [if_neg (fun h => hempty (List.isEmpty_iff.mpr h)),
        Statistic.amount_total hfinal, Statistic.amount_new, Nat.zero_add, Nat.add_zero]
      rfl

theorem lift_ok {x : Except Fault ReceiverRun} : lift x = .ok s ↔ x = .ok s := by
  cases x <;> simp [lift]

/-- Without an interval check and before the end there is nothing to lose. -/
theorem Keeps.of_unchecked {e : ReceiverEvent} {a : Amount} (hat : s.checkedAt e = none)
    (hfinishes : s.finishes e = false) : s.Keeps a e := by
  refine ⟨fun clock hclock => ?_, fun hdone => ?_⟩
  · rw [hat] at hclock
    cases hclock
  · rw [hfinishes] at hdone
    cases hdone

/-- Without an interval check nothing is lost. -/
theorem Carries.keeps {r r' : Receiver} {e : ReceiverEvent} {a : Amount} (hs : Carries r s)
    (hs' : Carries r' s') (h : r.Counts r') (hkeeps : s.Keeps a e) :
    s'.account a ≤ s.account a + (s'.counted a - s.counted a) ∧
      (s'.account a = s.account a + (s'.counted a - s.counted a) ↔ s.Keeps a e) := by
  have heq : s'.account a = s.account a + (s'.counted a - s.counted a) := by
    simp only [counted, hs.receiver, hs'.receiver, hs.account, hs'.account]
    exact h.account a
  exact ⟨Nat.le_of_eq heq, fun _ => hkeeps, fun _ => heq⟩

/-- With one the recorded intervals may be full. -/
theorem Carries.checks {clock : Clock} {r r' : Receiver} {e : ReceiverEvent} (hs : Carries r s)
    (hs' : Carries r' s') (h : r.Checks clock r') (hat : s.checkedAt e = some clock)
    (hfinishes : s.finishes e = false) (a : Amount) :
    s'.account a ≤ s.account a + (s'.counted a - s.counted a) ∧
      (s'.account a = s.account a + (s'.counted a - s.counted a) ↔ s.Keeps a e) := by
  obtain ⟨hle, hiff⟩ := h.account a
  have hkeeps : s.Keeps a e ↔ (r.statisticInterval.expired clock →
      r.statisticInterval.finished → r.counted a = 0) := by
    unfold Keeps
    rw [hat, hfinishes, hs.receiver]
    constructor
    · exact fun h => h.1 clock rfl
    · refine fun h => ⟨?_, by simp⟩
      intro e he
      cases he
      exact h
  simp only [counted, hs.receiver, hs'.receiver, hs.account, hs'.account]
  exact ⟨hle, hiff.trans hkeeps.symm⟩

theorem start_keeps {r : Receiver} (hms : r.measurements = [])
    (hstatistics : r.statisticInterval.statistics = []) (clock clock' : Clock)
    (result : WaitResult) (setup : Except Error Unit) (a : Amount) :
    let s' := start clock clock' result setup r
    s'.account a ≤ (polling r).account a + (s'.counted a - (polling r).counted a) ∧
      (s'.account a = (polling r).account a + (s'.counted a - (polling r).counted a) ↔
        (polling r).Keeps a (.poll clock clock' result setup)) := by
  obtain ⟨haccount, hcounted⟩ := (start_empty hms hstatistics clock clock' result setup).2 a
  have hkeeps : (polling r).Keeps a (.poll clock clock' result setup) := .of_unchecked rfl rfl
  have hold : (polling r).account a = 0 := by
    simp [account, receiver, Receiver.recorded, Receiver.counted, amounts, hms, hstatistics]
  simp only [haccount, hcounted, hold]
  exact ⟨Nat.zero_le _, ⟨fun _ => hkeeps, fun _ => by omega⟩⟩

theorem finish_keeps {clock : Clock} {closed : Bool} {r : Receiver} {statistic : Statistic}
    {a : Amount} (hreceiver : s'.receiver = r) (haccount : s'.account a =
      r.recorded a + if r.statisticInterval.statistics = [] then r.counted a else 0) :
    let s := closing r statistic
    s'.account a ≤ s.account a + (s'.counted a - s.counted a) ∧
      (s'.account a = s.account a + (s'.counted a - s.counted a) ↔
        s.Keeps a (.finish clock closed)) := by
  have hold : (closing r statistic).account a = r.recorded a + r.counted a := rfl
  have hcounted : s'.counted a - (closing r statistic).counted a = 0 := by
    rw [counted, hreceiver]
    exact Nat.sub_self _
  have hkeeps : (closing r statistic).Keeps a (.finish clock closed) ↔
      (r.statisticInterval.statistics ≠ [] → r.counted a = 0) := by
    constructor
    · exact fun hkeeps => hkeeps.2 rfl
    · intro hzero
      refine ⟨fun clock hclock => ?_, fun _ => hzero⟩
      cases hclock
  simp only [hold, hcounted, hkeeps, haccount]
  by_cases hempty : r.statisticInterval.statistics = []
  · rw [if_pos hempty]
    exact ⟨Nat.le_refl _, fun _ hne => absurd hempty hne, fun _ => rfl⟩
  · rw [if_neg hempty]
    exact ⟨by omega, fun heq _ => by omega, fun hzero => by rw [hzero hempty]⟩

/-- What a step adds to the account is what it counts, unless it loses some. -/
theorem step_account {e : ReceiverEvent} (hb : s.Blank) (h : s.step build e = .ok s')
    (hgood : s'.Good) : s'.Blank ∧ ∀ a,
      s'.account a ≤ s.account a + (s'.counted a - s.counted a) ∧
        (s'.account a = s.account a + (s'.counted a - s.counted a) ↔ s.Keeps a e) := by
  unfold step at h
  split at h
  · rename_i r clock clock' result setup
    cases h
    exact ⟨(start_empty hb.1 hb.2 clock clock' result setup).1,
      start_keeps hb.1 hb.2 clock clock' result setup⟩
  · rename_i r statistic clock
    obtain ⟨⟨r', statistic'⟩, hcheck, h⟩ := bind_ok.mp (lift_ok.mp h)
    cases h
    obtain ⟨hchecks, hzero⟩ := Receiver.closeInterval_checks (fun a => by
      rw [← hb a]
      cases a <;> rfl) hcheck
    have hold : Carries r (looping r statistic) := ⟨rfl, fun _ => rfl, hb⟩
    exact ⟨hzero, hold.checks ⟨rfl, fun _ => rfl, hzero⟩ hchecks rfl rfl⟩
  · rename_i r statistic clock socket
    obtain ⟨⟨result, r'⟩, hrecv, h⟩ := bind_ok.mp (lift_ok.mp h)
    cases h
    have hold : Carries r (receiving r statistic) := ⟨rfl, fun _ => rfl, hb⟩
    have hcarries := received_carries (r := r') hb result
    exact ⟨hcarries.blank,
      fun a => hold.keeps hcarries (Receiver.recvMessages_counts hrecv) (.of_unchecked rfl rfl)⟩
  · rename_i r statistic result
    cases h
    have hold : Carries r (waiting r statistic) := ⟨rfl, fun _ => rfl, hb⟩
    have hcarries := waited_carries (r := r) hb (ioWait r.parameter.ioModel result)
    exact ⟨hcarries.blank, fun a => hold.keeps hcarries (.refl r) (.of_unchecked rfl rfl)⟩
  · rename_i t e
    obtain ⟨t', ht, h⟩ := map_eq_ok.mp h
    cases h
    have hgoes : ∀ e, t'.phase ≠ .returned (.error e) := by
      intro e hphase
      exact hgood t'.receiver e (by simp only [looped, hphase])
    obtain ⟨hb', hmatch⟩ := UringLoop.step_amounts hb ht hgoes
    have hcarries := looped_carries hb'
    have hold : Carries t.receiver (uring t) := ⟨rfl, fun _ => rfl, hb⟩
    refine ⟨hcarries.blank, fun a => ?_⟩
    cases hat : t.checkedAt e with
    | none =>
      rw [hat] at hmatch
      exact hold.keeps hcarries hmatch (.of_unchecked hat rfl)
    | some clock =>
      rw [hat] at hmatch
      have hsome : (uring t).checkedAt (.ring e) = some clock := hat
      exact hold.checks hcarries hmatch hsome rfl a
  · rename_i r statistic clock closed
    obtain ⟨hreceiver, hb', haccount⟩ := finish_account hb (lift_ok.mp h) hgood
    exact ⟨hb', fun a => finish_keeps hreceiver (haccount a)⟩
  · cases h

theorem Good.back {e : ReceiverEvent} (h : s.step build e = .ok s') : s.Good := by
  intro r error hreturned
  subst hreturned
  cases e <;> cases h

end ReceiverRun

/-- The final statistic has everything the run has counted exactly if no
interval expires in vain and nothing is counted behind the last recorded one. -/
theorem received_total_iff (build : Build) (clock : Clock) (p : Parameter) (r : Receiver)
    (hnew : Receiver.new clock p = .ok r) (events : List ReceiverEvent) (s : ReceiverRun)
    (hrun : run (ReceiverRun.step build) (.polling r) events = .ok s) (final : Statistic)
    (hfinal : s.final = some final) :
    (∀ a, final.amount a =
        gains (ReceiverRun.step build) (ReceiverRun.counted a) (.polling r) events) ↔
      Guarded (ReceiverRun.step build) (fun s e => ∀ a, s.Keeps a e) (.polling r) events := by
  obtain ⟨hms, hstatistics⟩ : r.measurements = [] ∧ r.statisticInterval.statistics = [] := by
    obtain ⟨v, _, hnew⟩ := bind_ok.mp hnew
    cases hnew
    exact ⟨rfl, rfl⟩
  have hzero : ∀ a, (ReceiverRun.polling r).account a = 0 := fun a => by
    simp [ReceiverRun.account, ReceiverRun.receiver, Receiver.recorded, Receiver.counted, amounts,
      hms, hstatistics]
  obtain ⟨hgood, haccount⟩ : s.Good ∧ ∀ a, s.account a = final.amount a := by
    unfold ReceiverRun.final at hfinal
    split at hfinal
    · cases hfinal
      exact ⟨fun _ _ => by simp, fun _ => rfl⟩
    · cases hfinal
  have hiff : ∀ a, (final.amount a =
      gains (ReceiverRun.step build) (ReceiverRun.counted a) (.polling r) events ↔
        Guarded (ReceiverRun.step build) (ReceiverRun.Keeps a) (.polling r) events) := by
    intro a
    have hgains := gains_iff (I := ReceiverRun.Blank) ReceiverRun.Good (ReceiverRun.counted a)
      (ReceiverRun.account a) (ReceiverRun.Keeps a)
      (fun _ _ _ h _ => ReceiverRun.Good.back h)
      (fun _ _ _ hb hgood h => (ReceiverRun.step_account hb h hgood).1)
      (fun _ _ _ hb hgood h => ((ReceiverRun.step_account hb h hgood).2 a).1)
      (fun _ _ _ hb hgood h => ((ReceiverRun.step_account hb h hgood).2 a).2)
      (s := .polling r) (And.intro hms hstatistics) hrun hgood
    rwa [hzero, Nat.zero_add, haccount] at hgains
  rw [← guarded_forall]
  exact forall_congr' hiff

/-- A message of test 0 at a time in seconds, with the interval check before it. -/
def receiveAt (seconds : Int) (mtype : MessageType) (packetId : Nat) :
    List ReceiverEvent :=
  let clock := ⟨seconds * nanosPerSecond, seconds * nanosPerSecond⟩
  [.check clock, .receive clock ⟨.ok (.packet mtype 0 packetId), .ok []⟩]

theorem received_total_recorded :
    let r := (Receiver.new ⟨0, 0⟩ .tenSeconds).toOption.get (by decide)
    let events : List ReceiverEvent := .poll ⟨0, 0⟩ ⟨0, 0⟩ .ready (.ok ()) ::
      (receiveAt 1 .measurement 0 ++ receiveAt 11 .last 0 ++ [.finish ⟨0, 0⟩ true])
    ∃ s final, run (ReceiverRun.step .debug) (.polling r) events = .ok s ∧ s.final = some final ∧
      final.amountDatagrams = 1 ∧ ∀ a, final.amount a =
        gains (ReceiverRun.step .debug) (ReceiverRun.counted a) (.polling r) events := by
  intro r events
  obtain ⟨s, hrun, hcount⟩ := checked (x := run (ReceiverRun.step .debug) (.polling r) events)
    (p := fun s => s.final.map Statistic.amountDatagrams = some 1) (by decide +kernel)
  obtain ⟨final, hfinal, hcount⟩ := Option.map_eq_some_iff.mp hcount
  refine ⟨s, final, hrun, hfinal, hcount, ?_⟩
  exact (received_total_iff .debug ⟨0, 0⟩ .tenSeconds r rfl events s hrun final hfinal).mpr
    (by decide +kernel)

/-- Of three packets the first is in the recorded interval. The second is lost
when another interval expires, the third when the test ends. -/
theorem received_total_lost :
    let r := (Receiver.new ⟨0, 0⟩ .tenSeconds).toOption.get (by decide)
    let events : List ReceiverEvent := .poll ⟨0, 0⟩ ⟨0, 0⟩ .ready (.ok ()) ::
      (receiveAt 1 .measurement 0 ++ receiveAt 11 .measurement 1 ++ receiveAt 22 .measurement 2 ++
        receiveAt 23 .last 0 ++ [.finish ⟨0, 0⟩ true])
    (run (ReceiverRun.step .debug) (.polling r) events).toOption.map
        (fun s => s.final.map Statistic.amountDatagrams) = some (some 1) ∧
      gains (ReceiverRun.step .debug) (ReceiverRun.counted .datagrams) (.polling r) events = 3 := by
  decide +kernel

end Nperf
