import Nperf.Model.CommandParser
import Nperf.Proofs.Adding

namespace Nperf
open Rust

namespace Statistic

variable {build : Build} {s u : Statistic} {ts : List Statistic}

/-- A field whose bound is kept by every addition, once it is reached, ends at the
bound if it is reached by one of the parts. -/
theorem fold_reaches {f : Statistic → Timestamp} {P : Timestamp → Prop} {bound : Timestamp}
    (hadd : ∀ s t u, s.add build t = .ok u → P (f s) → P (f t) →
      P (f u) ∧ (f s = bound ∨ f t = bound → f u = bound))
    (hs : P (f s)) (hts : ∀ t ∈ ts, P (f t))
    (hreached : f s = bound ∨ ∃ t ∈ ts, f t = bound) (h : fold build s ts = .ok u) :
    f u = bound := by
  induction ts generalizing s with
  | nil =>
    cases h
    exact hreached.resolve_right (by simp)
  | cons t ts ih =>
    obtain ⟨ht, hts⟩ := List.forall_mem_cons.mp hts
    rw [fold_cons] at h
    obtain ⟨v, hv, h⟩ := bind_ok.mp h
    obtain ⟨hwithin, hkeeps⟩ := hadd s t v hv hs ht
    refine ih hwithin hts ?_ h
    rcases hreached with he | ⟨t', hmem, he⟩
    · exact .inl (hkeeps (.inl he))
    · rcases List.mem_cons.mp hmem with rfl | hmem
      · exact .inl (hkeeps (.inr he))
      · exact .inr ⟨t', hmem, he⟩

/-- A fold starts with the first of its parts. -/
theorem fold_start {first : Timestamp} (hs : first ≤ s.startTimestamp)
    (hts : ∀ t ∈ ts, first ≤ t.startTimestamp)
    (hfirst : s.startTimestamp = first ∨ ∃ t ∈ ts, t.startTimestamp = first)
    (h : fold build s ts = .ok u) : u.startTimestamp = first := by
  refine fold_reaches (f := startTimestamp) (P := (first ≤ ·)) ?_ hs hts hfirst h
  intro s t u hadd hs ht
  obtain ⟨_, hstart, _⟩ := add_times hadd
  rw [hstart]
  refine ⟨Int.le_min.mpr ⟨hs, ht⟩, fun he => ?_⟩
  rcases he with he | he
  · exact he ▸ Int.min_eq_left (he ▸ ht)
  · exact he ▸ Int.min_eq_right (he ▸ hs)

/-- It ends with the last of them. -/
theorem fold_end {last : Timestamp} (hs : s.endTimestamp ≤ last)
    (hts : ∀ t ∈ ts, t.endTimestamp ≤ last)
    (hlast : s.endTimestamp = last ∨ ∃ t ∈ ts, t.endTimestamp = last)
    (h : fold build s ts = .ok u) : u.endTimestamp = last := by
  refine fold_reaches (f := endTimestamp) (P := (· ≤ last)) ?_ hs hts hlast h
  intro s t u hadd hs ht
  obtain ⟨_, _, hend⟩ := add_times hadd
  rw [hend]
  refine ⟨Int.max_le.mpr ⟨hs, ht⟩, fun he => ?_⟩
  rcases he with he | he
  · exact he ▸ Int.max_eq_left (he ▸ ht)
  · exact he ▸ Int.max_eq_right (he ▸ hs)

end Statistic

namespace StatisticInterval

/-- A fresh list of intervals, and where the node says so started again. -/
def opened (clock : Clock) (outputInterval : Rat) (runtimeLength : Nat)
    (started : Option (Clock × Option Nat)) : StatisticInterval :=
  match started with
  | none => .new clock outputInterval runtimeLength
  | some (clock', offset) => (new clock outputInterval runtimeLength).start clock' offset

def calculateIntervals (s : StatisticInterval) (calls : List (Clock × Statistic)) :
    StatisticInterval :=
  calls.foldl (fun s call => s.calculateInterval call.1 call.2) s

/-- The records of calls that are all taken, the first one from `start` on. -/
def records (start : Timestamp) (intervalId : Nat) : List (Clock × Statistic) → List Statistic
  | [] => []
  | (clock, statistic) :: calls =>
    { statistic with intervalId := intervalId }.setTestDuration (some start) (some clock.unix) ::
      records clock.unix (intervalId + 1) calls

/-- As many calls are taken as the quota still has room for. -/
theorem calculateIntervals_statistics (s : StatisticInterval)
    (calls : List (Clock × Statistic)) :
    (s.calculateIntervals calls).statistics = s.statistics ++
      records s.lastSendTimestamp s.intervalId
        (calls.take (s.totalIntervalOutputs - s.amountIntervalOutputs)) := by
  induction calls generalizing s with
  | nil => simp [calculateIntervals, records]
  | cons call calls ih =>
    obtain ⟨clock, statistic⟩ := call
    have hfold : s.calculateIntervals ((clock, statistic) :: calls) =
        (s.calculateInterval clock statistic).calculateIntervals calls := rfl
    rw [hfold, ih]
    by_cases hfull : s.totalIntervalOutputs ≤ s.amountIntervalOutputs
    · have hnone : s.totalIntervalOutputs - s.amountIntervalOutputs = 0 := by omega
      simp only [calculateInterval, hfull, if_true, hnone, List.take_zero]
    · have hroom : s.totalIntervalOutputs - s.amountIntervalOutputs =
          s.totalIntervalOutputs - (s.amountIntervalOutputs + 1) + 1 := by omega
      simp only [calculateInterval, hfull, if_false]
      rw [hroom, List.take_succ_cons, records, List.append_assoc, List.singleton_append]

theorem opened_statistics (clock : Clock) (outputInterval : Rat) (runtimeLength : Nat)
    (started : Option (Clock × Option Nat)) (calls : List (Clock × Statistic)) :
    ((opened clock outputInterval runtimeLength started).calculateIntervals calls).statistics =
      records (opened clock outputInterval runtimeLength started).lastSendTimestamp 1
        (calls.take (opened clock outputInterval runtimeLength started).totalIntervalOutputs) := by
  rw [calculateIntervals_statistics]
  cases started with
  | none => rfl
  | some started => rfl

section
variable {start : Timestamp} {intervalId : Nat} {calls : List (Clock × Statistic)}

theorem records_length : (records start intervalId calls).length = calls.length := by
  induction calls generalizing start intervalId with
  | nil => rfl
  | cons call calls ih => simp only [records, List.length_cons, ih]

/-- A record is what its call handed over, numbered, from the end of the record
before it to the time of the call. -/
theorem records_get {i : Nat} {record : Statistic}
    (h : (records start intervalId calls)[i]? = some record) :
    ∃ call, calls[i]? = some call ∧ record.intervalId = intervalId + i ∧
      (∀ m, record.metric m = call.2.metric m) ∧ record.endTimestamp = call.1.unix ∧
      record.startTimestamp =
        ((start :: (records start intervalId calls).map Statistic.endTimestamp)[i]?).getD 0 := by
  induction calls generalizing start intervalId i with
  | nil => cases h
  | cons call calls ih =>
    obtain ⟨clock, statistic⟩ := call
    cases i with
    | zero =>
      cases h
      refine ⟨_, rfl, rfl, fun m => ?_, rfl, rfl⟩
      cases m <;> rfl
    | succ i =>
      obtain ⟨call, hcall, hid, hmetric, hend, hstart⟩ := ih h
      exact ⟨call, hcall, by omega, hmetric, hend, hstart⟩

theorem records_start {i : Nat} {before record : Statistic}
    (hbefore : (records start intervalId calls)[i]? = some before)
    (h : (records start intervalId calls)[i + 1]? = some record) :
    record.startTimestamp = before.endTimestamp := by
  obtain ⟨_, _, _, _, _, hstart⟩ := records_get h
  rw [hstart, List.getElem?_cons_succ, List.getElem?_map, hbefore]
  rfl

theorem records_first {record : Statistic}
    (h : (records start intervalId calls)[0]? = some record) : record.startTimestamp = start := by
  obtain ⟨_, _, _, _, _, hstart⟩ := records_get h
  exact hstart

theorem records_recording (h : ∀ call ∈ calls, call.2.Recording) :
    ∀ record ∈ records start intervalId calls, record.Recording := by
  induction calls generalizing start intervalId with
  | nil => exact fun _ hmem => absurd hmem List.not_mem_nil
  | cons call calls ih =>
    obtain ⟨hcall, hcalls⟩ := List.forall_mem_cons.mp h
    intro record hmem
    rcases List.mem_cons.mp hmem with rfl | hmem
    · exact ⟨hcall.sq, hcall.cq, hcall.inflight⟩
    · exact ih hcalls record hmem

/-- Times that never go back: the records lie between the start and the last of
them. -/
theorem records_span (hstart : ∀ call ∈ calls, start ≤ call.1.unix)
    (htimes : calls.Pairwise fun a b => a.1.unix ≤ b.1.unix) {last : Statistic}
    (hlast : (records start intervalId calls).getLast? = some last) :
    ∀ record ∈ records start intervalId calls,
      start ≤ record.startTimestamp ∧ record.endTimestamp ≤ last.endTimestamp := by
  intro record hmem
  obtain ⟨i, hget⟩ := List.getElem?_of_mem hmem
  obtain ⟨call, hcall, _, _, hend, _⟩ := records_get hget
  obtain ⟨hi, hi'⟩ := List.getElem?_eq_some_iff.mp hcall
  constructor
  · cases i with
    | zero => exact Int.le_of_eq (records_first hget).symm
    | succ i =>
      have hbefore : i < (records start intervalId calls).length := by
        rw [records_length]
        omega
      have hget' := List.getElem?_eq_getElem hbefore
      obtain ⟨call', hcall', _, _, hend', _⟩ := records_get hget'
      rw [records_start hget' hget, hend']
      exact hstart call' (List.mem_of_getElem? hcall')
  · rw [List.getLast?_eq_getElem?] at hlast
    obtain ⟨call', hcall', _, _, hend', _⟩ := records_get hlast
    rw [records_length] at hcall'
    obtain ⟨hj, hj'⟩ := List.getElem?_eq_some_iff.mp hcall'
    rw [hend, hend', ← hi', ← hj']
    by_cases he : i = calls.length - 1
    · subst i
      exact Int.le_refl _
    · exact List.pairwise_iff_getElem.mp htimes i (calls.length - 1) hi hj (by omega)

end

/-- The intervals follow each other without a gap, and together they last as
long as they should. Their sum is there unless a counter leaves its type in a
build with overflow checks. -/
theorem intervals_chain (clock : Clock) (outputInterval : Rat) (runtimeLength : Nat)
    (started : Option (Clock × Option Nat)) (calls : List (Clock × Statistic))
    (hpositive : ∀ call ∈ calls, 0 < call.1.unix)
    (hstart : ∀ call ∈ calls,
      (opened clock outputInterval runtimeLength started).lastSendTimestamp ≤ call.1.unix)
    (htimes : calls.Pairwise fun a b => a.1.unix ≤ b.1.unix) :
    let s := opened clock outputInterval runtimeLength started
    let statistics := (s.calculateIntervals calls).statistics
    statistics.length = min calls.length s.totalIntervalOutputs ∧
      (∀ i record, statistics[i]? = some record → record.intervalId = i + 1 ∧
        ∃ call, calls[i]? = some call ∧ ∀ m, record.metric m = call.2.metric m) ∧
      (∀ record, statistics[0]? = some record → record.startTimestamp = s.lastSendTimestamp) ∧
      (∀ i before record, statistics[i]? = some before → statistics[i + 1]? = some record →
        record.startTimestamp = before.endTimestamp) ∧
      ∀ build p clock' first last, (p.uringParameter.recordUtilization = true →
          ∀ call ∈ calls, call.2.Recording) →
        statistics.head? = some first → statistics.getLast? = some last →
        last.endTimestamp ≤ clock'.unix →
        (build = .release ∨ Statistic.Within statistics →
          ∃ final, Statistic.fold build (Statistic.new clock' p) statistics = .ok final) ∧
        ∀ final, Statistic.fold build (Statistic.new clock' p) statistics = .ok final →
          (final.setTestDuration none none).testDuration =
            last.endTimestamp - first.startTimestamp := by
  intro s statistics
  have hstatistics : statistics = records s.lastSendTimestamp 1
      (calls.take s.totalIntervalOutputs) := opened_statistics ..
  have hmem : ∀ call ∈ calls.take s.totalIntervalOutputs, call ∈ calls :=
    fun call => List.mem_of_mem_take
  rw [hstatistics]
  refine ⟨?_, fun i record hget => ?_, fun record => records_first, fun i before record =>
    records_start, fun build p clock' first last hrecording hfirst hlast hclock =>
      ⟨fun hfits => ?_, fun final hfinal => ?_⟩⟩
  · rw [records_length, List.length_take, Nat.min_comm]
  · obtain ⟨call, hcall, hid, hmetric, _⟩ := records_get hget
    refine ⟨by omega, call, ?_, hmetric⟩
    rw [List.getElem?_take] at hcall
    split at hcall
    · exact hcall
    · cases hcall
  · have hnew : p.uringParameter.recordUtilization = true →
        (Statistic.new clock' p).Recording := fun h => .new clock' h
    have hrecords : p.uringParameter.recordUtilization = true →
        ∀ record ∈ records s.lastSendTimestamp 1 (calls.take s.totalIntervalOutputs),
          record.Recording :=
      fun h => records_recording fun call hcall => hrecording h call (hmem call hcall)
    rcases hfits with rfl | hwithin
    · exact (Statistic.fold_overflows .release hnew hrecords).release
    · rw [Statistic.fold_within (hwithin.first fun m => Statistic.metric_new m clock' p)]
      exact Statistic.sum_returns hnew hrecords
  · have hspan := records_span (fun call hcall => hstart call (hmem call hcall))
      (htimes.sublist (List.take_sublist _ _)) hlast
    have hfirstMem := List.mem_of_head? hfirst
    have hlastMem := List.mem_of_getLast? hlast
    rw [List.head?_eq_getElem?] at hfirst
    have hfirstStart := records_first hfirst
    obtain ⟨call, hcall, _, _, hend, _⟩ := records_get (List.getLast?_eq_getElem? ▸ hlast)
    have hcallMem := hmem call (List.mem_of_getElem? hcall)
    have hlate : s.lastSendTimestamp ≤ last.endTimestamp := by
      rw [hend]
      exact hstart call hcallMem
    have hlatePositive : 0 ≤ last.endTimestamp := by
      rw [hend]
      exact Int.le_of_lt (hpositive call hcallMem)
    have hfinalStart := Statistic.fold_start (Int.le_trans hlate hclock)
      (fun record hrecord => (hspan record hrecord).1) (.inr ⟨first, hfirstMem, hfirstStart⟩) hfinal
    have hfinalEnd := Statistic.fold_end hlatePositive
      (fun record hrecord => (hspan record hrecord).2) (.inr ⟨last, hlastMem, rfl⟩) hfinal
    simp only [Statistic.setTestDuration, Option.getD_none, hfinalStart, hfinalEnd, hfirstStart]

/-- Three calls for two intervals, with what the receiver missed in them. -/
def missed (omitted : Int) : Statistic :=
  { Statistic.new ⟨0, 0⟩ .headersOnly with amountOmittedDatagrams := omitted }

theorem intervals_chain_three :
    let s := (opened ⟨0, 5⟩ 5 10 none).calculateIntervals
      [(⟨1, 6⟩, missed 2), (⟨2, 8⟩, missed (-1)), (⟨3, 9⟩, missed 4)]
    ∃ first last final, s.statistics = [first, last] ∧ first.startTimestamp = 5 ∧
      last.startTimestamp = first.endTimestamp ∧ last.metric .omitted = -1 ∧
      Statistic.fold .debug (Statistic.new ⟨9, 9⟩ .headersOnly) s.statistics = .ok final ∧
      (final.setTestDuration none none).testDuration = 3 := by
  intro s
  obtain ⟨_, hrecords, hfirst, hchain, hfold⟩ := intervals_chain ⟨0, 5⟩ 5 10 none
    [(⟨1, 6⟩, missed 2), (⟨2, 8⟩, missed (-1)), (⟨3, 9⟩, missed 4)] (by simp)
    (by simp; decide) (by simp)
  obtain ⟨first, last, hlist⟩ := List.length_eq_two.mp
    (show s.statistics.length = 2 by decide +kernel)
  have hends : s.statistics.map Statistic.endTimestamp = [6, 8] := by decide +kernel
  rw [hlist] at hends
  obtain ⟨_, hend⟩ := List.cons.inj hends
  have hend : last.endTimestamp = 8 := List.head_eq_of_cons_eq hend
  have hone : s.statistics[0]? = some first := by rw [hlist]; rfl
  have htwo : s.statistics[1]? = some last := by rw [hlist]; rfl
  obtain ⟨hreturns, hduration⟩ := hfold .debug .headersOnly ⟨9, 9⟩ first last
    (fun hrecord => absurd hrecord (by decide)) (by rw [List.head?_eq_getElem?]; exact hone)
    (by show s.statistics.getLast? = _; rw [hlist]; rfl) (by rw [hend]; decide)
  obtain ⟨final, hfinal⟩ := hreturns (.inr (.of_counted (by decide +kernel)))
  obtain ⟨call, hcall, hmetric⟩ := (hrecords 1 last htwo).2
  cases hcall
  have hstart : first.startTimestamp = 5 := hfirst first hone
  exact ⟨first, last, final, hlist, hstart, hchain 0 first last hone htwo, hmetric .omitted,
    hfinal, by rw [hduration final hfinal, hend, hstart]; rfl⟩

/-- Two intervals with too many omitted packets for `i64`: with overflow checks
they cannot be added up. -/
theorem intervals_overflow :
    let s := (opened ⟨0, 5⟩ 5 10 none).calculateIntervals
      [(⟨1, 6⟩, missed (2 ^ 63 - 1)), (⟨2, 8⟩, missed (2 ^ 63 - 2))]
    s.statistics.length = 2 ∧
      (Statistic.fold .debug (Statistic.new ⟨9, 9⟩ .headersOnly) s.statistics).map
        (fun final => (final.setTestDuration none none).testDuration) = .error .overflow := by
  decide +kernel

end StatisticInterval
end Nperf
