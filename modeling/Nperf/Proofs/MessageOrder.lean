import Nperf.Proofs.History

namespace Nperf
open Rust Runs

/-- A message that leaves an entry for its test, and for every test below it. -/
def Heard.Opens (e : Heard) : Prop := e.mtype ≠ .last ∧ e.testId < maxTestId

/-- The end of a test comes after a message that has opened its entry. -/
def Heard.Expected (before : List Heard) (e : Heard) : Prop :=
  e.mtype = .last → e.testId < maxTestId → ∃ d ∈ before, d.Opens ∧ e.testId ≤ d.testId

/-- Every message of the history gets an answer, and after an `Ok` the
statistic of its test is found. -/
structure Unharmed (p : Parameter) (history : List Heard) : Prop where
  answered : ∃ ms, run (Heard.step p) [] history = .ok ms
  found : ∀ before e after ms ms', history = before ++ e :: after →
    run (Heard.step p) [] before = .ok ms →
    Receiver.parseMessageType e.clock e.mtype e.testId ms p = .ok (.ok (), ms') →
    ∃ m, Receiver.measurement ms' e.testId = .ok m

/-- Only the end of a test without an entry panics. -/
theorem parseMessageType_ok_iff {clock : Clock} {mtype : MessageType} {testId : Nat}
    {ms : List Measurement} {p : Parameter} :
    (∃ v, Receiver.parseMessageType clock mtype testId ms p = .ok v) ↔
      (mtype = .last → testId < maxTestId → testId < ms.length) := by
  unfold Receiver.parseMessageType
  by_cases hmax : testId ≥ maxTestId
  · rw [if_pos hmax]
    exact ⟨fun _ _ hlt => absurd hlt (Nat.not_lt.mpr hmax), fun _ => ⟨_, rfl⟩⟩
  rw [if_neg hmax]
  cases mtype with
  | init => simp
  | measurement =>
    obtain ⟨m, hm⟩ := growMeasurements_getElem clock ms testId p
    simp only [hm, reduceCtorEq, false_implies, iff_true]
    split
    · exact ⟨_, rfl⟩
    · exact ⟨_, rfl⟩
  | last =>
    by_cases hlt : testId < ms.length
    · simp [hlt]
    · simp only [List.getElem?_eq_none (Nat.le_of_not_lt hlt)]
      simp [hlt, Nat.lt_of_not_le hmax]

/-- A data message that is let through has an entry. -/
theorem parseMessageType_found {clock : Clock} {mtype : MessageType} {testId : Nat}
    {ms ms' : List Measurement} {p : Parameter}
    (h : Receiver.parseMessageType clock mtype testId ms p = .ok (.ok (), ms')) :
    ∃ m, Receiver.measurement ms' testId = .ok m := by
  rcases parseMessageType_hear h with ⟨_, hresult, _⟩ | ⟨_, _, rfl⟩
  · cases hresult
  · obtain ⟨m, hm⟩ := growMeasurements_getElem clock ms testId p
    refine ⟨m.hear clock mtype, ?_⟩
    simp [Receiver.measurement, hm]

/-- Only a data message below the limit goes on to its packets. -/
theorem parseMessageType_proceeds {clock : Clock} {mtype : MessageType} {testId : Nat}
    {ms ms' : List Measurement} {p : Parameter}
    (h : Receiver.parseMessageType clock mtype testId ms p = .ok (.ok (), ms')) :
    mtype = .measurement ∧ testId < maxTestId := by
  rcases parseMessageType_hear h with ⟨_, hresult, _⟩ | ⟨hlt, hresult, _⟩
  · cases hresult
  · cases mtype with
    | measurement => exact ⟨rfl, hlt⟩
    | init => cases hresult
    | last => cases hresult

/-- The vector has grown exactly as far as the opening messages reach. -/
def Opened (history : List Heard) (ms : List Measurement) : Prop :=
  ∀ t, t < ms.length ↔ ∃ d ∈ history, d.Opens ∧ t ≤ d.testId

theorem Opened.step {history : List Heard} {ms ms' : List Measurement} {p : Parameter} {e : Heard}
    (hs : Opened history ms) (h : e.step p ms = .ok ms') : Opened (history ++ [e]) ms' := by
  obtain ⟨⟨result, ms''⟩, hparse, hms⟩ := map_eq_ok.mp h
  obtain rfl : ms'' = ms' := hms
  have hlast := parseMessageType_ok_iff.mp ⟨_, hparse⟩
  intro t
  have hold := hs t
  rw [show (∃ d ∈ history ++ [e], d.Opens ∧ t ≤ d.testId) ↔
      (∃ d ∈ history, d.Opens ∧ t ≤ d.testId) ∨ e.Opens ∧ t ≤ e.testId by simp [or_and_right,
        exists_or], ← hold]
  rcases parseMessageType_hear hparse with ⟨hmax, _, rfl⟩ | ⟨hlt, _, rfl⟩
  · simp [Heard.Opens, Nat.not_lt.mpr hmax]
  · rw [List.length_modify, growMeasurements_length]
    by_cases htype : e.mtype = .last
    · have := hlast htype hlt
      simp only [Heard.Opens, htype, ne_eq, not_true_eq_false, false_and, or_false]
      omega
    · simp only [Heard.Opens, htype, ne_eq, not_false_eq_true, hlt, and_self, true_and]
      omega

theorem Opened.run {p : Parameter} {history : List Heard} {ms : List Measurement}
    (h : run (Heard.step p) [] history = .ok ms) : Opened history ms := by
  have hstart : Opened [] [] := by simp [Opened]
  have hs : Opened ([] ++ history) ms := run_history (fun _ _ _ _ hs h => hs.step h) hstart h
  rwa [List.nil_append] at hs

/-- In a history that has opened the entries of `ms`, expected messages are
all answered. -/
theorem Opened.answered {p : Parameter} {done history : List Heard} {ms : List Measurement}
    (hs : Opened done ms)
    (h : ∀ before e after, history = before ++ e :: after → e.Expected (done ++ before)) :
    ∃ ms', Runs.run (Heard.step p) ms history = .ok ms' := by
  induction history generalizing done ms with
  | nil => exact ⟨ms, rfl⟩
  | cons e history ih =>
    have hexpected := h [] e history rfl
    rw [List.append_nil] at hexpected
    have hanswer : ∃ v, Receiver.parseMessageType e.clock e.mtype e.testId ms p = .ok v :=
      parseMessageType_ok_iff.mpr fun htype hlt => (hs e.testId).mpr (hexpected htype hlt)
    obtain ⟨v, hv⟩ := hanswer
    have hstep : e.step p ms = .ok v.2 := by rw [Heard.step, hv, map_ok]
    obtain ⟨ms', hms'⟩ := ih (hs.step hstep) (by
      rintro before d after rfl
      rw [List.append_assoc]
      exact h (e :: before) d after rfl)
    exact ⟨ms', run_cons_ok.mpr ⟨v.2, hstep, hms'⟩⟩

/-- Messages in any order, some of them lost, do the receiver no harm exactly
if none ends a test below the limit that no earlier message has opened. -/
theorem order_unharmed_iff (p : Parameter) (history : List Heard) :
    Unharmed p history ↔
      ∀ before e after, history = before ++ e :: after → e.Expected before := by
  constructor
  · rintro ⟨⟨ms, hrun⟩, _⟩ before e after rfl
    obtain ⟨t, ht, hrest⟩ := run_append_ok.mp hrun
    obtain ⟨u, hu, _⟩ := run_cons_ok.mp hrest
    obtain ⟨v, hv, _⟩ := map_eq_ok.mp hu
    intro htype hlt
    exact (Opened.run ht e.testId).mp (parseMessageType_ok_iff.mp ⟨v, hv⟩ htype hlt)
  · intro h
    have hstart : Opened [] [] := by simp [Opened]
    refine ⟨hstart.answered h, ?_⟩
    intro before e after ms ms' _ _ hparse
    exact parseMessageType_found hparse

/-- All that arrives of a test is its end. -/
theorem order_harmed :
    ¬Unharmed .headersOnly [⟨⟨0, 0⟩, .last, 0⟩] ∧
      Receiver.parseMessageType ⟨0, 0⟩ .last 0 [] .headersOnly = .error .unwrap := by
  refine ⟨?_, rfl⟩
  rintro ⟨⟨ms, hrun⟩, _⟩
  cases hrun

end Nperf
