import Nperf.Proofs.Samples

namespace Nperf
open Rust

namespace Statistic
variable {p : Parameter} {s s' : Statistic}

theorem Of.same (hs : s.Of p) (h : s.SameRing s') : s'.Of p := by
  refine ⟨h.parameter.trans hs.parameter, ?_, ?_, h.inflight.trans hs.inflight⟩
  · rw [h.sq, hs.sq]
  · rw [h.cq, hs.cq]

theorem Of.recordSq {length : Nat} (hs : s.Of p) (h : s.recordSq length = .ok s') : s'.Of p := by
  obtain ⟨array, harray, h⟩ := bind_ok.mp h
  cases h
  exact ⟨hs.parameter, (Utilization.record_cell harray).1.trans hs.sq, hs.cq, hs.inflight⟩

theorem Of.recordCq {length : Nat} (hs : s.Of p) (h : s.recordCq length = .ok s') : s'.Of p := by
  obtain ⟨array, harray, h⟩ := bind_ok.mp h
  cases h
  exact ⟨hs.parameter, hs.sq, (Utilization.record_cell harray).1.trans hs.cq, hs.inflight⟩

theorem metric_setTestDuration (m : Metric) (startTime endTime : Option Timestamp) :
    (s.setTestDuration startTime endTime).metric m = s.metric m := by
  cases m <;> rfl

end Statistic

namespace StatisticInterval
variable {p : Parameter} {i : StatisticInterval}

/-- The records of a node: of its parameter set, numbered from one on, and not
more of them than `exec` has rows. -/
structure Recorded (p : Parameter) (i : StatisticInterval) : Prop where
  quota : i.totalIntervalOutputs = Nperf.amountIntervalOutputs p
  amount : i.amountIntervalOutputs = i.statistics.length
  next : i.intervalId = i.statistics.length + 1
  within : i.statistics.length ≤ Nperf.amountIntervalOutputs p
  of : ∀ record ∈ i.statistics, record.Of p
  ids : i.statistics.map Statistic.intervalId = (List.range i.statistics.length).map (· + 1)

theorem Recorded.new (clock : Clock) (p : Parameter) :
    (new clock p.outputInterval p.testRuntimeLength).Recorded p :=
  ⟨rfl, rfl, rfl, Nat.zero_le _, fun _ hrecord => absurd hrecord List.not_mem_nil, rfl⟩

theorem Recorded.start (h : i.Recorded p) (clock : Clock) (offset : Option Nat) :
    (i.start clock offset).Recorded p :=
  ⟨h.quota, h.amount, h.next, h.within, h.of, h.ids⟩

/-- A call adds a record with the next number, or none at all. -/
theorem Recorded.calculateInterval (h : i.Recorded p) (clock : Clock) {s : Statistic}
    (hs : s.Of p) : (i.calculateInterval clock s).Recorded p := by
  unfold StatisticInterval.calculateInterval
  split
  · exact ⟨h.quota, h.amount, h.next, h.within, h.of, h.ids⟩
  · rename_i hroom
    have hquota := h.quota
    have hamount := h.amount
    refine ⟨hquota, ?_, ?_, ?_, ?_, ?_⟩
    · simp [hamount]
    · simp [h.next]
    · simp only [List.length_append, List.length_singleton]
      omega
    · refine List.forall_mem_append.mpr ⟨h.of, ?_⟩
      simp only [List.forall_mem_singleton]
      exact ⟨hs.parameter, hs.sq, hs.cq, hs.inflight⟩
    · rw [List.map_append, h.ids, List.length_append, List.length_singleton, List.range_succ,
        List.map_append, List.map_singleton, List.map_singleton]
      simp only [Statistic.setTestDuration, h.next]

end StatisticInterval

/-- A result of a node that has made records adds them up, if no counter leaves
its type. -/
def ThreadResult.AddsUp : ThreadResult → Prop
  | .finished statistic intervals => intervals ≠ [] → Statistic.Within intervals → ∀ m,
      statistic.metric m = (intervals.map (Statistic.metric m)).sum
  | _ => True

/-- What `exec` relies on in a result. -/
structure ThreadResult.Sound (p : Parameter) (result : ThreadResult) : Prop where
  of : result.Of p
  addsUp : result.AddsUp

theorem ThreadResult.Sound.failed (p : Parameter) : ThreadResult.failed.Sound p :=
  ⟨trivial, trivial⟩

namespace StatisticInterval.Recorded
variable {p : Parameter} {i : StatisticInterval} {clock : Clock} {final : Statistic}

theorem metric_sum (h : i.Recorded p)
    (hsum : Statistic.sum (Statistic.new clock p) i.statistics = .ok final) (m : Metric) :
    final.metric m = (i.statistics.map (Statistic.metric m)).sum := by
  rw [(Statistic.Of.new clock p).metric_sum h.of hsum, Statistic.metric_new, Int.zero_add]

/-- The sum of the records is a sound result. -/
theorem sum (h : i.Recorded p)
    (hsum : Statistic.sum (Statistic.new clock p) i.statistics = .ok final) :
    (ThreadResult.finished (final.setTestDuration none none) i.statistics).Sound p := by
  have hof := (Statistic.Of.new clock p).sum_of hsum
  refine ⟨⟨⟨hof.parameter, hof.sq, hof.cq, hof.inflight⟩, h.of, h.within, h.ids⟩, fun _ _ m => ?_⟩
  rw [Statistic.metric_setTestDuration, h.metric_sum hsum]

/-- So is the sum as a receiver makes it. -/
theorem total {build : Build} (h : i.Recorded p)
    (htotal : Statistic.total build (Statistic.new clock p) i.statistics = .ok final) :
    (ThreadResult.finished (final.setTestDuration none none) i.statistics).Sound p := by
  have hof := (Statistic.Of.new clock p).total htotal
  refine ⟨⟨⟨hof.parameter, hof.sq, hof.cq, hof.inflight⟩, h.of, h.within, h.ids⟩,
    fun _ hwithin m => ?_⟩
  obtain ⟨w, n, hw, rfl, hn⟩ := Statistic.total_ok htotal
  have hmetric := h.metric_sum hw
  have homitted : n = w.amountOmittedDatagrams := by
    have hrange := (hwithin .omitted).sum
    rw [← hmetric .omitted] at hrange
    obtain ⟨hlow, hhigh⟩ := hrange
    simp only [Metric.lowest, Metric.highest, Statistic.metric] at hlow hhigh
    have hfits := hn (show build.i64 0 = .ok 0 from i64_fits build (by decide) (by decide))
    rw [i64_fits build hlow (by omega)] at hfits
    exact (Except.ok.inj hfits).symm
  rw [Statistic.metric_setTestDuration, homitted, ← hmetric m]
  rfl

end StatisticInterval.Recorded

/-- Without records there is nothing to add up. -/
theorem ThreadResult.Sound.single {p : Parameter} {final : Statistic} (hfinal : final.Of p)
    {intervals : List Statistic} (hempty : intervals = []) :
    (ThreadResult.finished final intervals).Sound p := by
  subst hempty
  exact ⟨⟨hfinal, fun _ hrecord => absurd hrecord List.not_mem_nil, Nat.zero_le _, rfl⟩,
    fun hsome => absurd rfl hsome⟩

end Nperf
