import Nperf.Proofs.RecordsReceiving
import Nperf.Proofs.RecordsSending
import Nperf.Proofs.SendTotals

namespace Nperf
open Rust Runs

/-- What a thread of `exec` can come to: a panic, or a run that is over. -/
inductive Outcome (build : Build) (p : Parameter) : ThreadResult → Prop
  | panicked : Outcome build p .panicked
  | sent {clock : Clock} {testId : Nat} {s : Sender} {events : List SenderRunEvent}
      {t : SenderRun} {result : ThreadResult} (created : Sender.new clock testId p = .ok s)
      (ran : run SenderRun.step (.starting s) events = .ok t) (joined : t.joined = some result) :
      Outcome build p result
  | received {clock : Clock} {r : Receiver} {events : List ReceiverEvent}
      {t : ReceiverRun} {result : ThreadResult} (created : Receiver.new clock p = .ok r)
      (ran : run (ReceiverRun.step build) (.polling r) events = .ok t)
      (joined : t.joined = some result) : Outcome build p result

theorem Outcome.sound {build : Build} {p : Parameter} {result : ThreadResult}
    (h : Outcome build p result) : result.Sound p := by
  cases h with
  | panicked => exact ⟨trivial, trivial⟩
  | sent created ran joined => exact (SenderRun.run_registers created ran).joined _ joined
  | received created ran joined => exact (ReceiverRun.run_registers created ran).joined _ joined

namespace ThreadResult

/-- The thread has recorded no interval. -/
def unrecorded (result : ThreadResult) : Bool := result.intervals.isEmpty

end ThreadResult

section
variable {p : Parameter} {results : List ThreadResult} (f : Statistic → Int)

/-- Row by row or thread by thread, the records have the same sum. -/
theorem recordsAt_sum {n : Nat} (h : ∀ result ∈ results, result.intervals.length ≤ n) :
    ((List.range n).map fun i => ((recordsAt i results).map f).sum).sum =
      (results.map fun result => (result.intervals.map f).sum).sum := by
  induction results with
  | nil => simp [recordsAt]
  | cons result results ih =>
    obtain ⟨hfirst, hrest⟩ := List.forall_mem_cons.mp h
    have hrows : ∀ i, ((recordsAt i (result :: results)).map f).sum =
        (result.intervals[i]?.toList.map f).sum + ((recordsAt i results).map f).sum := by
      intro i
      rw [recordsAt_cons, recordsAt_single, List.map_append, List.sum_append]
    simp only [hrows]
    rw [Lists.sum_map_add, ih hrest, Lists.sum_getElem? f hfirst, List.map_cons, List.sum_cons]

theorem summaries_single (m : Metric) {result : ThreadResult} (h : result.Sound p)
    (hwithin : Statistic.Within result.intervals) :
    ((summaries [result]).map (Statistic.metric m)).sum =
      (result.intervals.map (Statistic.metric m)).sum +
        ((summaries ([result].filter ThreadResult.unrecorded)).map (Statistic.metric m)).sum := by
  cases result with
  | panicked => rfl
  | failed => rfl
  | finished statistic intervals =>
    cases intervals with
    | nil => exact (Int.zero_add _).symm
    | cons first rest =>
      have hadds := h.addsUp (List.cons_ne_nil first rest) hwithin m
      have hnone : [ThreadResult.finished statistic (first :: rest)].filter
          ThreadResult.unrecorded = [] := rfl
      rw [hnone]
      simpa [summaries, ThreadResult.intervals] using hadds

/-- A thread that has recorded intervals reports their sum. -/
theorem summaries_sum (m : Metric) (h : ∀ result ∈ results, result.Sound p)
    (hwithin : Statistic.Within (results.flatMap ThreadResult.intervals)) :
    ((summaries results).map (Statistic.metric m)).sum =
      (results.map fun result => (result.intervals.map (Statistic.metric m)).sum).sum +
        ((summaries (results.filter ThreadResult.unrecorded)).map (Statistic.metric m)).sum := by
  induction results with
  | nil => rfl
  | cons result results ih =>
    obtain ⟨hfirst, hrest⟩ := List.forall_mem_cons.mp h
    rw [List.flatMap_cons] at hwithin
    have hwithin₁ := hwithin.sublist (List.sublist_append_left _ _)
    have hwithin₂ := hwithin.sublist (List.sublist_append_right _ _)
    have hfilter : (result :: results).filter ThreadResult.unrecorded =
        [result].filter ThreadResult.unrecorded ++ results.filter ThreadResult.unrecorded :=
      List.filter_append [result] results
    have hsplit : ∀ front : List ThreadResult, summaries (front ++ results.filter
        ThreadResult.unrecorded) = summaries front ++ summaries (results.filter
        ThreadResult.unrecorded) := fun front => List.filterMap_append
    rw [hfilter, hsplit, summaries_cons, List.map_append, List.sum_append, List.map_append,
      List.sum_append, List.map_cons, List.sum_cons, summaries_single m hfirst hwithin₁,
      ih hrest hwithin₂]
    omega

end

/-- Neither in what the threads report nor in what they have recorded does a
counter leave its type. -/
structure Addable (results : List ThreadResult) : Prop where
  reports : Statistic.Within (summaries results)
  records : Statistic.Within (results.flatMap ThreadResult.intervals)

/-- The same for results without arrays, as a test. -/
def AddableCounted (results : List ThreadResult) : Prop :=
  Statistic.WithinCounted (summaries results) ∧
    Statistic.WithinCounted (results.flatMap ThreadResult.intervals)

instance (results : List ThreadResult) : Decidable (AddableCounted results) :=
  inferInstanceAs (Decidable (_ ∧ _))

theorem Addable.of_counted (h : AddableCounted results) : Addable results :=
  ⟨.of_counted h.1, .of_counted h.2⟩

theorem recordsAt_sublist (i : Nat) (results : List ThreadResult) :
    (recordsAt i results).Sublist (results.flatMap ThreadResult.intervals) := by
  induction results with
  | nil => exact .refl _
  | cons result results ih =>
    rw [recordsAt_cons, recordsAt_single, List.flatMap_cons]
    refine .append ?_ ih
    cases hget : result.intervals[i]? with
    | none => exact List.nil_sublist _
    | some record => exact List.singleton_sublist.mpr (List.mem_of_getElem? hget)

/-- Sound results are merged without a panic as long as no counter leaves its
type, and nothing of them is lost. -/
theorem mergeThreads_sound (build : Build) (clock clock' : Clock) {p : Parameter}
    {results : List ThreadResult} (hsound : ∀ result ∈ results, result.Sound p)
    (haddable : Addable results) :
    ∃ summary rows, mergeThreads build clock clock' p results = .ok (summary, rows) ∧
      ∀ m, summary.metric m = ((summaries results).map (Statistic.metric m)).sum ∧
        summary.metric m = (rows.map (Statistic.metric m)).sum +
          ((summaries (results.filter ThreadResult.unrecorded)).map (Statistic.metric m)).sum := by
  have hof : ∀ result ∈ results, result.Of p := fun result hresult => (hsound result hresult).of
  obtain ⟨summary, rows, hmerge, hlength, hsummary, hrows⟩ :=
    mergeThreads_sum build clock clock' hof haddable.reports
      fun i => haddable.records.sublist (recordsAt_sublist i results)
  refine ⟨summary, rows, hmerge, fun m => ?_⟩
  have htotal : summary.metric m = ((summaries results).map (Statistic.metric m)).sum := by
    rw [(Statistic.Of.new clock p).metric_sum (summaries_of hof) hsummary m, Statistic.metric_new,
      Int.zero_add]
  have hcells : rows.map (Statistic.metric m) = (List.range (amountIntervalOutputs p)).map
      fun i => ((recordsAt i results).map (Statistic.metric m)).sum := by
    apply List.ext_getElem?
    intro i
    rw [List.getElem?_map, List.getElem?_map]
    by_cases hi : i < amountIntervalOutputs p
    · obtain ⟨row, hget, hsum⟩ := hrows i hi
      rw [hget, List.getElem?_range hi, Option.map_some, Option.map_some,
        (emptyRow_of clock' p (i + 1)).metric_sum (fun t ht => (recordsAt_of hof i t ht).1) hsum m,
        metric_emptyRow, Int.zero_add]
    · rw [List.getElem?_eq_none (by omega), List.getElem?_eq_none (by simpa using hi)]
      rfl
  have hwithin : ∀ result ∈ results,
      result.intervals.length ≤ amountIntervalOutputs p := by
    intro result hresult
    have hresult := hof result hresult
    cases result with
    | panicked => exact Nat.zero_le _
    | failed => exact Nat.zero_le _
    | finished statistic intervals => exact hresult.2.2.1
  refine ⟨htotal, ?_⟩
  rw [htotal, hcells, recordsAt_sum _ hwithin]
  exact summaries_sum m hsound haddable.records

/-- However the threads of `exec` end: joining them panics only where a counter
leaves its type and overflow is checked. If none does, the summary has what the
threads that succeeded report, and that is what the rows have together with what
those threads report that recorded no interval. -/
theorem exec_joins (build : Build) (clock clock' : Clock) (p : Parameter)
    (results : List ThreadResult) (h : ∀ result ∈ results, Outcome build p result) :
    (∀ f, mergeThreads build clock clock' p results = .error f →
      f = .overflow ∧ build = .debug) ∧
    (Addable results →
      ∃ summary rows, mergeThreads build clock clock' p results = .ok (summary, rows) ∧
        ∀ m, summary.metric m = ((summaries results).map (Statistic.metric m)).sum ∧
          summary.metric m = (rows.map (Statistic.metric m)).sum +
            ((summaries (results.filter ThreadResult.unrecorded)).map
              (Statistic.metric m)).sum) := by
  have hsound : ∀ result ∈ results, result.Sound p := fun result hresult => (h result hresult).sound
  exact ⟨mergeThreads_overflows build clock clock' fun result hresult => (hsound result hresult).of,
    mergeThreads_sound build clock clock' hsound⟩

/-- A thread that panicked, and one that recorded one of its two packets. -/
theorem exec_joins_two :
    let p := { Parameter.tenSeconds with mode := .sender }
    let s := (Sender.new ⟨0, 0⟩ 7 p).toOption.get (by decide)
    let events : List SenderRunEvent := .start ⟨0, 0⟩ ⟨0, 0⟩ (.ok ()) (.ok ()) ::
      (sendAt 1 1 (.ok 24) ++ sendAt (10 * nanosPerSecond - 1) (10 * nanosPerSecond) (.ok 24) ++
        endOfTest)
    ∃ t result, run SenderRun.step (.starting s) events = .ok t ∧ t.joined = some result ∧
      ∃ summary rows, mergeThreads .debug ⟨0, 0⟩ ⟨0, 0⟩ p [.panicked, result] =
          .ok (summary, rows) ∧
        summary.metric .datagrams = 1 ∧ (rows.map (Statistic.metric .datagrams)).sum = 1 := by
  intro p s events
  have hcreated : Sender.new ⟨0, 0⟩ 7 p = .ok s := ok_get _
  obtain ⟨t, hrun, hcount⟩ := checked (x := run SenderRun.step (.starting s) events)
    (p := fun t => t.joined.map (fun result =>
      let results := [.panicked, result]
      (((summaries results).map (Statistic.metric .datagrams)).sum,
        ((summaries (results.filter ThreadResult.unrecorded)).map
          (Statistic.metric .datagrams)).sum,
        decide (AddableCounted results))) = some (1, 0, true))
    (by decide +kernel)
  obtain ⟨result, hjoined, hcount⟩ := Option.map_eq_some_iff.mp hcount
  simp only [Prod.mk.injEq, decide_eq_true_eq] at hcount
  obtain ⟨hone, hnone, haddable⟩ := hcount
  obtain ⟨summary, rows, hmerge, hsums⟩ := (exec_joins .debug ⟨0, 0⟩ ⟨0, 0⟩ p
    [.panicked, result] (by
      intro r hr
      simp only [List.mem_cons, List.not_mem_nil, or_false] at hr
      rcases hr with rfl | rfl
      · exact .panicked
      · exact .sent hcreated hrun hjoined)).2 (.of_counted haddable)
  refine ⟨t, result, hrun, hjoined, summary, rows, hmerge, (hsums .datagrams).1.trans hone, ?_⟩
  have hrows := (hsums .datagrams).2
  rw [(hsums .datagrams).1.trans hone, hnone] at hrows
  simpa using hrows.symm

end Nperf
