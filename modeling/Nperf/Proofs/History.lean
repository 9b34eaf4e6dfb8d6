import Nperf.Ledger.Batch
import Nperf.Lib.Runs
import Nperf.Model.CommandParser
import Nperf.Proofs.Receiving

namespace Nperf
open Rust Runs

/-- A message as `parse_message_type` sees it, with the clock it reads. -/
structure Heard where
  clock : Clock
  mtype : MessageType
  testId : Nat

/-- The measurements after a call, whatever the call returns. -/
def Heard.step (p : Parameter) (ms : List Measurement) (e : Heard) :
    Except Fault (List Measurement) :=
  (Receiver.parseMessageType e.clock e.mtype e.testId ms p).map Prod.snd

/-- There was a message of this type for the test. -/
def Happened (history : List Heard) (mtype : MessageType) (testId : Nat) : Prop :=
  ∃ e ∈ history, e.mtype = mtype ∧ e.testId = testId

theorem happened_snoc {history : List Heard} {e : Heard} {mtype : MessageType} {t : Nat} :
    Happened (history ++ [e]) mtype t ↔
      Happened history mtype t ∨ e.mtype = mtype ∧ e.testId = t := by
  simp only [Happened, List.mem_append, List.mem_singleton]
  constructor
  · rintro ⟨d, hd | rfl, hsame⟩
    · exact .inl ⟨d, hd, hsame⟩
    · exact .inr hsame
  · rintro (⟨d, hd, hsame⟩ | hsame)
    · exact ⟨d, .inl hd, hsame⟩
    · exact ⟨e, .inr rfl, hsame⟩

/-- What a message does to the measurement of its test. -/
def Measurement.hear (clock : Clock) (mtype : MessageType) (m : Measurement) : Measurement :=
  match mtype with
  | .init => m
  | .measurement =>
    if m.firstPacketReceived then m
    else { m with
      startTime := clock.unix
      statistic := m.statistic.setStartTimestamp clock (some clock.unix)
      firstPacketReceived := true }
  | .last =>
    { m with
      lastPacketReceived := true
      statistic := (m.statistic.setTestDuration (some m.startTime)
        (some (clock.unix - waitControlMessageTime))).setEndTimestamp clock }

namespace Measurement
variable (clock : Clock) (mtype : MessageType) (m : Measurement)

theorem hear_first : (m.hear clock mtype).firstPacketReceived = true ↔
    m.firstPacketReceived = true ∨ mtype = .measurement := by
  cases mtype with
  | init => simp [hear]
  | measurement =>
    cases hfirst : m.firstPacketReceived <;> simp [hear, hfirst]
  | last => simp [hear]

theorem hear_last : (m.hear clock mtype).lastPacketReceived = true ↔
    m.lastPacketReceived = true ∨ mtype = .last := by
  cases mtype with
  | init => simp [hear]
  | measurement =>
    cases hfirst : m.firstPacketReceived <;> simp [hear, hfirst]
  | last => simp [hear]

theorem hear_startTime (h : (m.hear clock mtype).startTime ≠ m.startTime) :
    mtype = .measurement ∧ m.firstPacketReceived = false := by
  cases mtype with
  | init => exact absurd rfl h
  | measurement =>
    cases hfirst : m.firstPacketReceived with
    | true => simp [hear, hfirst] at h
    | false => exact ⟨rfl, rfl⟩
  | last => exact absurd rfl h

end Measurement

theorem growMeasurements_length (clock : Clock) (ms : List Measurement) (testId : Nat)
    (p : Parameter) :
    (growMeasurements clock ms testId p).length = max ms.length (testId + 1) := by
  unfold growMeasurements
  split
  · simp only [List.length_append, List.length_replicate]
    omega
  · omega

/-- An entry of the grown vector was there before or is new. -/
theorem growMeasurements_entry {clock : Clock} {ms : List Measurement} {testId : Nat}
    {p : Parameter} {t : Nat} {m : Measurement}
    (h : (growMeasurements clock ms testId p)[t]? = some m) :
    ms[t]? = some m ∨ ms.length ≤ t ∧ m = Measurement.new clock p := by
  unfold growMeasurements at h
  split at h
  · rw [List.getElem?_append] at h
    split at h
    · exact .inl h
    · rename_i hlt
      exact .inr ⟨Nat.le_of_not_lt hlt, List.eq_of_mem_replicate (List.mem_of_getElem? h)⟩
  · exact .inl h

theorem growMeasurements_keeps {clock : Clock} {ms : List Measurement} {testId : Nat}
    {p : Parameter} {t : Nat} {m : Measurement} (h : ms[t]? = some m) :
    (growMeasurements clock ms testId p)[t]? = some m := by
  obtain ⟨hlt, _⟩ := List.getElem?_eq_some_iff.mp h
  unfold growMeasurements
  split
  · rw [List.getElem?_append_left hlt]
    exact h
  · exact h

/-- A message is refused, or the measurement of its test hears it. -/
theorem parseMessageType_hear {clock : Clock} {mtype : MessageType} {testId : Nat}
    {ms ms' : List Measurement} {p : Parameter} {result : Except Error Unit}
    (h : Receiver.parseMessageType clock mtype testId ms p = .ok (result, ms')) :
    maxTestId ≤ testId ∧ result = .error .testIdTooGreat ∧ ms' = ms ∨
      testId < maxTestId ∧ result = mtype.signal ∧ ms' =
        (growMeasurements clock ms testId p).modify testId (Measurement.hear clock mtype) := by
  unfold Receiver.parseMessageType at h
  split at h
  · rename_i hmax
    cases h
    exact .inl ⟨hmax, rfl, rfl⟩
  rename_i hmax
  refine .inr ⟨Nat.lt_of_not_le hmax, ?_⟩
  cases mtype with
  | init =>
    cases h
    refine ⟨rfl, ?_⟩
    have hid : Measurement.hear clock .init = id := rfl
    rw [hid, List.modify_id]
  | measurement =>
    simp only at h
    split at h
    · cases h
    · rename_i m hm
      rw [Lists.modify_eq_set hm]
      split at h
      · rename_i hfirst
        cases h
        obtain ⟨hlt, hget⟩ := List.getElem?_eq_some_iff.mp hm
        refine ⟨rfl, ?_⟩
        rw [show m.hear clock .measurement = m by simp [Measurement.hear, hfirst], ← hget,
          List.set_getElem_self]
      · rename_i hfirst
        cases h
        refine ⟨rfl, ?_⟩
        simp [Measurement.hear, hfirst]
  | last =>
    simp only at h
    split at h
    · cases h
    · rename_i m hm
      cases h
      refine ⟨rfl, ?_⟩
      rw [Lists.modify_eq_set (growMeasurements_keeps hm)]
      obtain ⟨hlt, _⟩ := List.getElem?_eq_some_iff.mp hm
      rw [growMeasurements, if_neg (by omega)]
      rfl

/-- What the measurements know of the messages so far. -/
structure Remembers (history : List Heard) (ms : List Measurement) : Prop where
  bounded : ms.length ≤ maxTestId
  first : ∀ t m, ms[t]? = some m →
    (m.firstPacketReceived = true ↔ Happened history .measurement t)
  last : ∀ t m, ms[t]? = some m → (m.lastPacketReceived = true ↔ Happened history .last t)
  known : ∀ e ∈ history, e.testId < maxTestId → e.testId < ms.length

/-- The placeholders know as much as there is to know of their tests. -/
theorem Remembers.grow {history : List Heard} {ms : List Measurement} (hs : Remembers history ms)
    {clock : Clock} {testId : Nat} {p : Parameter} {t : Nat} {m : Measurement}
    (ht : t < maxTestId) (h : (growMeasurements clock ms testId p)[t]? = some m) :
    (m.firstPacketReceived = true ↔ Happened history .measurement t) ∧
      (m.lastPacketReceived = true ↔ Happened history .last t) := by
  rcases growMeasurements_entry h with hold | ⟨hlen, rfl⟩
  · exact ⟨hs.first t m hold, hs.last t m hold⟩
  · have hnever : ∀ mtype, ¬Happened history mtype t := by
      rintro mtype ⟨e, he, _, rfl⟩
      have := hs.known e he ht
      omega
    exact ⟨iff_of_false Bool.false_ne_true (hnever _), iff_of_false Bool.false_ne_true (hnever _)⟩

theorem Remembers.step {history : List Heard} {ms ms' : List Measurement} {p : Parameter}
    {e : Heard} (hs : Remembers history ms) (h : e.step p ms = .ok ms') :
    Remembers (history ++ [e]) ms' := by
  obtain ⟨⟨result, ms''⟩, hparse, hms⟩ := map_eq_ok.mp h
  obtain rfl : ms'' = ms' := hms
  have hbounded := hs.bounded
  rcases parseMessageType_hear hparse with ⟨hmax, _, rfl⟩ | ⟨hlt, _, rfl⟩
  · have hother : ∀ {t : Nat} {m : Measurement}, ms''[t]? = some m → e.testId ≠ t := by
      intro t m hm
      obtain ⟨hlt, _⟩ := List.getElem?_eq_some_iff.mp hm
      omega
    refine ⟨hbounded, fun t m hm => ?_, fun t m hm => ?_, fun d hd hd' => ?_⟩
    · simp [happened_snoc, hs.first t m hm, hother hm]
    · simp [happened_snoc, hs.last t m hm, hother hm]
    · rcases List.mem_append.mp hd with hold | hnew
      · exact hs.known d hold hd'
      · obtain rfl := List.mem_singleton.mp hnew
        omega
  · have hlen : ((growMeasurements e.clock ms e.testId p).modify e.testId
        (Measurement.hear e.clock e.mtype)).length = max ms.length (e.testId + 1) := by
      rw [List.length_modify, growMeasurements_length]
    have hentry : ∀ {t : Nat} {m' : Measurement}, ((growMeasurements e.clock ms e.testId p).modify
        e.testId (Measurement.hear e.clock e.mtype))[t]? = some m' → ∃ m, t < maxTestId ∧
          (growMeasurements e.clock ms e.testId p)[t]? = some m ∧
          m' = if e.testId = t then m.hear e.clock e.mtype else m := by
      intro t m' hm'
      obtain ⟨hin, _⟩ := List.getElem?_eq_some_iff.mp hm'
      rw [List.getElem?_modify, Option.map_eq_map, Option.map_eq_some_iff] at hm'
      obtain ⟨m, hm, rfl⟩ := hm'
      refine ⟨m, by omega, hm, ?_⟩
      split <;> rfl
    refine ⟨by omega, fun t m' hm' => ?_, fun t m' hm' => ?_, fun d hd hd' => ?_⟩
    · obtain ⟨m, ht, hm, rfl⟩ := hentry hm'
      have hold := (hs.grow ht hm).1
      rw [happened_snoc, ← hold]
      split
      · rename_i heq
        simp [Measurement.hear_first, heq]
      · rename_i hne
        simp [hne]
    · obtain ⟨m, ht, hm, rfl⟩ := hentry hm'
      have hold := (hs.grow ht hm).2
      rw [happened_snoc, ← hold]
      split
      · rename_i heq
        simp [Measurement.hear_last, heq]
      · rename_i hne
        simp [hne]
    · rw [hlen]
      rcases List.mem_append.mp hd with hold | hnew
      · have := hs.known d hold hd'
        omega
      · obtain rfl := List.mem_singleton.mp hnew
        omega

/-- What one more message does to the measurements. -/
structure Recorded (history : List Heard) (ms : List Measurement) (e : Heard)
    (result : Except Error Unit) (ms' : List Measurement) : Prop where
  grows : ms.length ≤ ms'.length
  refused : maxTestId ≤ e.testId → result = .error .testIdTooGreat ∧ ms' = ms
  others : ∀ t m, t ≠ e.testId → ms[t]? = some m → ms'[t]? = some m
  started : ∀ t m m', ms[t]? = some m → ms'[t]? = some m' → m'.startTime ≠ m.startTime →
    e.mtype = .measurement ∧ e.testId = t ∧ ¬Happened history .measurement t

theorem Remembers.recorded {history : List Heard} {ms ms' : List Measurement} {p : Parameter}
    {e : Heard} {result : Except Error Unit} (hs : Remembers history ms)
    (h : Receiver.parseMessageType e.clock e.mtype e.testId ms p = .ok (result, ms')) :
    Recorded history ms e result ms' := by
  rcases parseMessageType_hear h with ⟨_, hresult, rfl⟩ | ⟨hlt, _, rfl⟩
  · refine ⟨Nat.le_refl _, fun _ => ⟨hresult, rfl⟩, fun _ _ _ hm => hm, ?_⟩
    intro t m m' hm hm' hne
    cases hm.symm.trans hm'
    exact absurd rfl hne
  · refine ⟨?_, fun hmax => absurd hlt (Nat.not_lt.mpr hmax), ?_, ?_⟩
    · rw [List.length_modify, growMeasurements_length]
      omega
    · intro t m hne hm
      rw [List.getElem?_modify, growMeasurements_keeps hm]
      simp [Ne.symm hne]
    · intro t m m' hm hm' hne
      rw [List.getElem?_modify, growMeasurements_keeps hm] at hm'
      cases hm'
      by_cases heq : e.testId = t
      · simp only [heq, ↓reduceIte] at hne
        obtain ⟨htype, hfirst⟩ := Measurement.hear_startTime e.clock e.mtype m hne
        exact ⟨htype, heq, fun hh => by simp [(hs.first t m hm).mpr hh] at hfirst⟩
      · simp [heq] at hne

/-- A test that nobody has heard of does not keep the receiver waiting. -/
theorem Remembers.finished_iff {history : List Heard} {r : Receiver}
    (hs : Remembers history r.measurements) : r.allMeasurementsFinished = true ↔
      ∀ t < maxTestId, Happened history .measurement t → Happened history .last t := by
  have hall : r.allMeasurementsFinished = true ↔
      ∀ m ∈ r.measurements, m.firstPacketReceived = true → m.lastPacketReceived = true := by
    simp only [Receiver.allMeasurementsFinished, List.all_eq_true]
    apply forall₂_congr
    intro m _
    cases m.firstPacketReceived <;> cases m.lastPacketReceived <;> simp
  rw [hall]
  constructor
  · intro hfinished t ht hmeasured
    obtain ⟨e, he, _, rfl⟩ := hmeasured
    have hget := List.getElem?_eq_getElem (hs.known e he ht)
    apply (hs.last _ _ hget).mp (hfinished _ (List.mem_of_getElem? hget) ?_)
    exact (hs.first _ _ hget).mpr ⟨e, he, by assumption, rfl⟩
  · intro hended m hm hfirst
    obtain ⟨t, hlt, rfl⟩ := List.mem_iff_getElem.mp hm
    have hget := List.getElem?_eq_getElem hlt
    have hbounded := hs.bounded
    exact (hs.last _ _ hget).mpr (hended t (by omega) ((hs.first _ _ hget).mp hfirst))

/-- What the measurements say after a history of messages, and what the next
message does to them. -/
structure Reflects (p : Parameter) (history : List Heard) (ms : List Measurement) : Prop where
  bounded : ms.length ≤ maxTestId
  first : ∀ t m, ms[t]? = some m →
    (m.firstPacketReceived = true ↔ Happened history .measurement t)
  last : ∀ t m, ms[t]? = some m → (m.lastPacketReceived = true ↔ Happened history .last t)
  next : ∀ e result ms', Receiver.parseMessageType e.clock e.mtype e.testId ms p =
    .ok (result, ms') → Recorded history ms e result ms'
  finished : ∀ r : Receiver, r.measurements = ms → (r.allMeasurementsFinished = true ↔
    ∀ t < maxTestId, Happened history .measurement t → Happened history .last t)

/-- The measurements reflect every history of messages that does not panic. -/
theorem history_reflected (p : Parameter) (history : List Heard) (ms : List Measurement)
    (hrun : run (Heard.step p) [] history = .ok ms) : Reflects p history ms := by
  have hs : Remembers ([] ++ history) ms :=
    run_history (fun _ _ _ _ hs h => hs.step h)
      ⟨Nat.zero_le _, by simp, by simp, by simp⟩ hrun
  rw [List.nil_append] at hs
  refine ⟨hs.bounded, hs.first, hs.last, fun _ _ _ h => hs.recorded h, ?_⟩
  rintro r rfl
  exact hs.finished_iff

/-- Test 2 is heard of before the tests below it. -/
theorem history_reflected_jump :
    let history : List Heard :=
      [⟨⟨0, 5⟩, .init, 2⟩, ⟨⟨0, 6⟩, .measurement, 2⟩, ⟨⟨0, 7⟩, .measurement, 0⟩, ⟨⟨0, 8⟩, .last, 2⟩]
    ∃ ms, run (Heard.step .headersOnly) [] history = .ok ms ∧
      ms.map (fun m => (m.firstPacketReceived, m.lastPacketReceived)) =
        [(true, false), (false, false), (true, true)] ∧
      Reflects .headersOnly history ms := by
  intro history
  obtain ⟨ms, hrun, hflags⟩ := checked (x := run (Heard.step .headersOnly) [] history)
    (p := fun ms => ms.map (fun m => (m.firstPacketReceived, m.lastPacketReceived)) =
      [(true, false), (false, false), (true, true)]) (by decide +kernel)
  exact ⟨ms, hrun, hflags, history_reflected .headersOnly history ms hrun⟩

/-- A test that is refused is not waited for, though it never ends. -/
theorem history_refused :
    let history : List Heard := [⟨⟨0, 0⟩, .measurement, maxTestId⟩]
    let r := (Receiver.new ⟨0, 0⟩ .headersOnly).toOption.get (by decide)
    run (Heard.step .headersOnly) r.measurements history = .ok r.measurements ∧
      r.measurements = [] ∧ r.allMeasurementsFinished = true ∧
      Happened history .measurement maxTestId ∧ ¬Happened history .last maxTestId := by
  refine ⟨rfl, rfl, rfl, ⟨_, List.mem_singleton_self _, rfl, rfl⟩, ?_⟩
  rintro ⟨e, he, hlast, _⟩
  obtain rfl := List.mem_singleton.mp he
  cases hlast

end Nperf
