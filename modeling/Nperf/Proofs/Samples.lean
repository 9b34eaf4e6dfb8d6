import Nperf.Proofs.Amounts
import Nperf.Proofs.Loop
import Nperf.Proofs.Merging

namespace Nperf
open Rust Bytes

section
variable {size : Nat} {u u' : Utilization size} {length : Nat}

/-- Recording a length counts it once, if there is an array. -/
theorem Utilization.record_cell (h : u.record length = .ok u') :
    u'.isSome = u.isSome ∧
      ∀ i, u'.cell i = u.cell i + if u.isSome ∧ i = length then 1 else 0 := by
  cases u with
  | none =>
    cases h
    exact ⟨rfl, fun _ => rfl⟩
  | some array =>
    simp only [record] at h
    split at h
    · rename_i hlt
      cases h
      refine ⟨rfl, fun i => ?_⟩
      simp only [cell, Vector.toArray_set, Option.isSome_some, true_and]
      by_cases hi : i = length
      · subst i
        simp [hlt]
      · simp [hi, Ne.symm hi]
    · cases h

end

/-- The metrics that a ring counts itself. -/
def Metric.OfRing : Metric → Prop
  | .cqOverflows | .sq _ | .cq _ => True
  | _ => False

namespace Statistic

/-- What the rings count is the same in both. -/
structure SameRing (s s' : Statistic) : Prop where
  parameter : s'.parameter = s.parameter
  overflows : s'.uringCqOverflows = s.uringCqOverflows
  sq : s'.uringSqUtilization = s.uringSqUtilization
  cq : s'.uringCqUtilization = s.uringCqUtilization
  inflight : s'.uringInflightUtilization.isSome = s.uringInflightUtilization.isSome

/-- The statistic has counted what the log says and nothing else of a ring. -/
structure Counted (p : Parameter) (log : List Metric) (s : Statistic) : Prop where
  of : s.Of p
  metric : ∀ m, m.OfRing → s.metric m = log.count m

section
variable {p : Parameter} {s s' t u : Statistic} {log log' : List Metric}

theorem SameRing.refl (s : Statistic) : s.SameRing s := ⟨rfl, rfl, rfl, rfl, rfl⟩

theorem SameRing.trans (h : s.SameRing t) (h' : t.SameRing u) : s.SameRing u :=
  ⟨h'.parameter.trans h.parameter, h'.overflows.trans h.overflows, h'.sq.trans h.sq,
    h'.cq.trans h.cq, h'.inflight.trans h.inflight⟩

theorem Counted.same (hs : s.Counted p log) (h : s.SameRing s') : s'.Counted p log := by
  refine ⟨⟨h.parameter.trans hs.of.parameter, ?_, ?_, h.inflight.trans hs.of.inflight⟩, ?_⟩
  · rw [h.sq, hs.of.sq]
  · rw [h.cq, hs.of.cq]
  · intro m hm
    rw [← hs.metric m hm]
    cases m with
    | cqOverflows => simp only [Statistic.metric, h.overflows]
    | sq length => simp only [Statistic.metric, h.sq]
    | cq length => simp only [Statistic.metric, h.cq]
    | _ => cases hm

theorem Counted.new (clock : Clock) (p : Parameter) : (new clock p).Counted p [] :=
  ⟨.new clock p, fun m _ => metric_new m clock p⟩

theorem Counted.plus (hs : s.Counted p log) (ht : t.Counted p log') (h : s.plus t = .ok u) :
    u.Counted p (log ++ log') := by
  refine ⟨hs.of.plus h, fun m hm => ?_⟩
  rw [hs.of.metric_plus ht.of h, hs.metric m hm, ht.metric m hm, List.count_append]
  exact (Int.natCast_add _ _).symm

theorem Counted.omitting (hs : s.Counted p log) (n : Int) : (s.omitting n).Counted p log := by
  refine ⟨hs.of.omitting n, fun m hm => ?_⟩
  have hcounts : m ≠ .omitted := by
    rintro rfl
    exact hm
  rw [metric_omitting hcounts, hs.metric m hm]

theorem Counted.accumulate {build : Build} (hs : s.Counted p log) (ht : t.Counted p log')
    (h : s.accumulate build t = .ok u) : u.Counted p (log ++ log') := by
  obtain ⟨w, n, hw, _, rfl⟩ := accumulate_ok h
  exact (hs.plus ht hw).omitting n

/-- Statistics that have counted nothing do not change a sum. -/
theorem Counted.sum {ts : List Statistic} (hs : s.Counted p log)
    (hts : ∀ t ∈ ts, t.Counted p []) (h : sum s ts = .ok u) : u.Counted p log := by
  induction ts generalizing s with
  | nil =>
    cases h
    exact hs
  | cons t ts ih =>
    obtain ⟨ht, hts⟩ := List.forall_mem_cons.mp hts
    rw [sum_cons] at h
    obtain ⟨v, hv, h⟩ := bind_ok.mp h
    have hadd := hs.plus ht hv
    rw [List.append_nil] at hadd
    exact ih hadd hts h

theorem Counted.total {build : Build} {ts : List Statistic} (hs : s.Counted p log)
    (hts : ∀ t ∈ ts, t.Counted p []) (h : total build s ts = .ok u) : u.Counted p log := by
  obtain ⟨w, n, hw, rfl, _⟩ := total_ok h
  exact (hs.sum hts hw).omitting n

/-- What a recording node notes down. -/
def sample (p : Parameter) (m : Metric) : List Metric :=
  if p.uringParameter.recordUtilization then [m] else []

theorem count_sample (p : Parameter) (m m' : Metric) : (sample p m').count m =
    if p.uringParameter.recordUtilization ∧ m = m' then 1 else 0 := by
  unfold sample
  by_cases hm : m = m'
  · subst m'
    split <;> simp [*]
  · split <;> simp [*, Ne.symm hm]

/-- A statistic that goes on by what is noted down. -/
theorem Counted.grow {more : List Metric} (hs : s.Counted p log) (hof : s'.Of p)
    (hmore : ∀ m, m.OfRing → s'.metric m = s.metric m + more.count m) :
    s'.Counted p (log ++ more) := by
  refine ⟨hof, fun m hm => ?_⟩
  rw [hmore m hm, hs.metric m hm, List.count_append, Int.natCast_add]

theorem Counted.recordSq {length : Nat} (hs : s.Counted p log)
    (h : s.recordSq length = .ok s') : s'.Counted p (log ++ sample p (.sq length)) := by
  obtain ⟨array, harray, h⟩ := bind_ok.mp h
  cases h
  obtain ⟨hsome, hcell⟩ := Utilization.record_cell harray
  have hof := hs.of
  refine hs.grow ⟨hof.parameter, hsome.trans hof.sq, hof.cq, hof.inflight⟩ fun m hm => ?_
  rw [count_sample]
  cases m with
  | sq i =>
    simp only [Statistic.metric, hcell, hof.sq, Metric.sq.injEq]
    exact Int.natCast_add _ _
  | cqOverflows => simp [Statistic.metric]
  | cq i => simp [Statistic.metric]
  | _ => cases hm

theorem Counted.recordCq {length : Nat} (hs : s.Counted p log)
    (h : s.recordCq length = .ok s') : s'.Counted p (log ++ sample p (.cq length)) := by
  obtain ⟨array, harray, h⟩ := bind_ok.mp h
  cases h
  obtain ⟨hsome, hcell⟩ := Utilization.record_cell harray
  have hof := hs.of
  refine hs.grow ⟨hof.parameter, hof.sq, hsome.trans hof.cq, hof.inflight⟩ fun m hm => ?_
  rw [count_sample]
  cases m with
  | cq i =>
    simp only [Statistic.metric, hcell, hof.cq, Metric.cq.injEq]
    exact Int.natCast_add _ _
  | cqOverflows => simp [Statistic.metric]
  | sq i => simp [Statistic.metric]
  | _ => cases hm

theorem Counted.overflow (hs : s.Counted p log) (n : Nat) :
    Statistic.Counted p (log ++ List.replicate n .cqOverflows)
      { s with uringCqOverflows := s.uringCqOverflows + n } := by
  have hof := hs.of
  refine hs.grow ⟨hof.parameter, hof.sq, hof.cq, hof.inflight⟩ fun m hm => ?_
  rw [List.count_replicate]
  cases m with
  | cqOverflows => simp [Statistic.metric]
  | sq i => simp [Statistic.metric]
  | cq i => simp [Statistic.metric]
  | _ => cases hm

/-- What the end of `fill_sq_and_submit` notes down. -/
def enterSamples (p : Parameter) (length : Nat) : EnterResult → List Metric
  | .busy => .cqOverflows :: sample p (.cq length)
  | .submitted | .timeout => sample p (.cq length)
  | .failed => []

theorem Counted.enter {result : EnterResult} {overflows length : Nat} (hs : s.Counted p log)
    (hresult : ioUringEnter result = .ok overflows)
    (h : { s with uringCqOverflows := s.uringCqOverflows + overflows }.recordCq length = .ok s') :
    s'.Counted p (log ++ enterSamples p length result) := by
  have hcounted := (hs.overflow overflows).recordCq h
  rw [List.append_assoc] at hcounted
  cases result with
  | busy =>
    cases hresult
    exact hcounted
  | submitted =>
    cases hresult
    exact hcounted
  | timeout =>
    cases hresult
    exact hcounted
  | failed => cases hresult

theorem sameRing_recordInflight {length : Nat} (h : s.recordInflight length = .ok s') :
    s.SameRing s' := by
  obtain ⟨array, harray, h⟩ := bind_ok.mp h
  cases h
  exact ⟨rfl, rfl, rfl, rfl, (Utilization.record_cell harray).1⟩

end

end Statistic

section
variable {build : Build} {s s' : Statistic}

theorem processPacketNumber_sameRing {packetId nextPacketId n : Nat}
    (h : processPacketNumber build packetId nextPacketId s = .ok (n, s')) : s.SameRing s' := by
  unfold processPacketNumber at h
  split at h
  · cases h
    exact .refl s
  split at h
  · simp only [bind_ok] at h
    obtain ⟨_, _, _, _, h⟩ := h
    cases h
    exact ⟨rfl, rfl, rfl, rfl, rfl⟩
  split at h
  · cases h
    exact ⟨rfl, rfl, rfl, rfl, rfl⟩
  · cases h
    exact ⟨rfl, rfl, rfl, rfl, rfl⟩

theorem processPacketMsghdr_sameRing {h : Msghdr} {n next : Nat} {acc : Nat × Nat × Statistic}
    (hp : processPacketMsghdr build h n next s = .ok acc) : s.SameRing acc.2.2 :=
  processPacketMsghdr_rel .refl (fun _ _ _ h h' => h.trans h')
    (fun _ _ _ _ _ hn => processPacketNumber_sameRing hn) hp

end

/-- A receiver without intervals, whose measurements know nothing of a ring. -/
structure Receiver.Plain (p : Parameter) (r : Receiver) : Prop where
  parameter : r.parameter = p
  disabled : r.statisticInterval.outputInterval = 0
  unrecorded : r.statisticInterval.statistics = []
  measurements : ∀ m ∈ r.measurements, m.statistic.Counted p []

theorem StatisticInterval.disabled_expired {i : StatisticInterval} (h : i.outputInterval = 0)
    (clock : Clock) : i.expired clock = false := by
  simp [expired, h]

theorem Measurement.hear_sameRing (clock : Clock) (mtype : MessageType) (m : Measurement) :
    m.statistic.SameRing (m.hear clock mtype).statistic := by
  cases mtype with
  | init => exact .refl _
  | measurement =>
    simp only [hear]
    split
    · exact .refl _
    · exact ⟨rfl, rfl, rfl, rfl, rfl⟩
  | last => exact ⟨rfl, rfl, rfl, rfl, rfl⟩

namespace Receiver
variable {p : Parameter} {build : Build} {clock : Clock} {r r' : Receiver}
  {result : Except Error Unit}

theorem parseMessageType_plain {mtype : MessageType} {testId : Nat} {ms ms' : List Measurement}
    (hms : ∀ m ∈ ms, m.statistic.Counted p [])
    (h : parseMessageType clock mtype testId ms p = .ok (result, ms')) :
    ∀ m ∈ ms', m.statistic.Counted p [] := by
  rcases parseMessageType_hear h with ⟨_, _, rfl⟩ | ⟨_, _, rfl⟩
  · exact hms
  · have hgrown : ∀ m ∈ growMeasurements clock ms testId p, m.statistic.Counted p [] := by
      intro m hm
      unfold growMeasurements at hm
      split at hm
      · rcases List.mem_append.mp hm with hm | hm
        · exact hms m hm
        · rw [(List.mem_replicate.mp hm).2]
          exact .new clock p
      · exact hms m hm
    obtain ⟨m₀, hm₀⟩ := growMeasurements_getElem clock ms testId p
    rw [Lists.modify_eq_set hm₀]
    intro m hm
    rcases List.mem_or_eq_of_mem_set hm with hm | rfl
    · exact hgrown m hm
    · exact (hgrown m₀ (List.mem_of_getElem? hm₀)).same (m₀.hear_sameRing clock mtype)

theorem Handled.plain {h : Msghdr} {Packets : Statistic → Statistic → PacketBuffer → Prop}
    (hr : r.Handled clock h Packets result r') (hplain : r.Plain p)
    (hpackets : ∀ s s' b, Packets s s' b → s.SameRing s') : r'.Plain p := by
  have hms := hplain.measurements
  cases hr with
  | stopped _ parsed =>
    rw [hplain.parameter] at parsed
    exact ⟨hplain.parameter, hplain.disabled, hplain.unrecorded, parseMessageType_plain hms parsed⟩
  | @counted testId _ ms m statistic _ _ datagrams bytes _ parsed entry packets =>
    rw [hplain.parameter] at parsed
    have hparsed := parseMessageType_plain hms parsed
    refine ⟨hplain.parameter, hplain.disabled, hplain.unrecorded, fun m' hm' => ?_⟩
    rcases List.mem_or_eq_of_mem_set hm' with hm' | rfl
    · exact hparsed m' hm'
    · have hm := hparsed m (List.mem_of_getElem? (measurement_eq entry))
      exact hm.same ((hpackets _ _ _ packets).trans
        ⟨rfl, rfl, rfl, rfl, rfl⟩)

theorem handleRecvmsgReturn_plain {amount : Int} {given : Option Msghdr} {index : Nat}
    (hplain : r.Plain p)
    (h : r.handleRecvmsgReturn build clock amount given index = .ok (result, r')) :
    r'.Plain p := by
  obtain ⟨hdr, _, goes⟩ := handleRecvmsgReturn_cases h
  apply goes.plain hplain
  intro s s' b hp
  obtain ⟨processed, amount, next, datagrams, _, hp, _⟩ := hp
  exact processPacketMsghdr_sameRing hp

end Receiver
end Nperf
