import Nperf.Lib.Scatter
import Nperf.Model.Executor
import Nperf.Proofs.Adding

namespace Nperf
open Rust

/-- A result that `exec` may merge: the statistic and the intervals are those of
the parameter set, and the intervals are numbered from one on. -/
def ThreadResult.Of (p : Parameter) : ThreadResult → Prop
  | .panicked => True
  | .failed => True
  | .finished statistic intervals =>
    statistic.Of p ∧ (∀ record ∈ intervals, record.Of p) ∧
      intervals.length ≤ amountIntervalOutputs p ∧
      intervals.map Statistic.intervalId = (List.range intervals.length).map (· + 1)

/-- The statistics of the threads that succeeded. -/
def summaries (results : List ThreadResult) : List Statistic :=
  results.filterMap fun
    | .finished statistic _ => some statistic
    | _ => none

/-- What the threads that succeeded recorded as their interval `i`, counted from
zero. -/
def recordsAt (i : Nat) (results : List ThreadResult) : List Statistic :=
  results.filterMap fun
    | .finished _ intervals => intervals[i]?
    | _ => none

theorem numbered {records : List Statistic}
    (hids : records.map Statistic.intervalId = (List.range records.length).map (· + 1)) {i : Nat}
    {record : Statistic} (hget : records[i]? = some record) : record.intervalId = i + 1 := by
  obtain ⟨hi, _⟩ := List.getElem?_eq_some_iff.mp hget
  have hnumber := congrArg (fun ids => ids[i]?) hids
  simpa only [List.getElem?_map, hget, List.getElem?_range hi, Option.map_some,
    Option.some.injEq] using hnumber

theorem summaries_cons (result : ThreadResult) (results : List ThreadResult) :
    summaries (result :: results) = summaries [result] ++ summaries results :=
  List.filterMap_append (l := [result])

theorem recordsAt_cons (i : Nat) (result : ThreadResult) (results : List ThreadResult) :
    recordsAt i (result :: results) = recordsAt i [result] ++ recordsAt i results :=
  List.filterMap_append (l := [result])

namespace ThreadResult

/-- What a thread has recorded. -/
def intervals : ThreadResult → List Statistic
  | .finished _ intervals => intervals
  | _ => []

end ThreadResult

theorem recordsAt_single (i : Nat) (result : ThreadResult) :
    recordsAt i [result] = result.intervals[i]?.toList := by
  cases result with
  | panicked => rfl
  | failed => rfl
  | finished statistic intervals =>
    simp only [recordsAt, List.filterMap_cons, List.filterMap_nil, ThreadResult.intervals]
    cases intervals[i]? <;> rfl

/-- What a thread adds to the cells of `exec`. Cell zero is the summary, the row
of an interval is the cell with its number. -/
def ThreadResult.items : ThreadResult → List (Nat × Statistic)
  | .finished statistic intervals =>
    (0, statistic) :: intervals.map fun record => (record.intervalId, record)
  | _ => []

section
variable {build : Build} {p : Parameter} {rows : List Statistic}

theorem mergeInterval_eq {i : Nat} {record : Statistic} (hid : record.intervalId = i + 1)
    (summary : Statistic) : (mergeInterval build rows record).map (summary :: ·) =
      Scatter.update (Statistic.add build) .index (summary :: rows)
        (record.intervalId, record) := by
  simp only [mergeInterval, Scatter.update, hid, checkedSub_ok (show 1 ≤ i + 1 by omega), ok_bind,
    Nat.add_sub_cancel, List.getElem?_cons_succ]
  cases rows[i]? with
  | none => rfl
  | some row =>
    simp only
    cases row.add build record with
    | error f => rfl
    | ok u => rfl

theorem mergeIntervals_eq {records : List Statistic} (hids : ∀ record ∈ records,
      1 ≤ record.intervalId) (summary : Statistic) :
    (records.foldlM (mergeInterval build) rows).map (summary :: ·) =
      (records.map fun record => (record.intervalId, record)).foldlM
        (Scatter.update (Statistic.add build) .index) (summary :: rows) := by
  induction records generalizing rows with
  | nil => rfl
  | cons record records ih =>
    obtain ⟨hid, hids⟩ := List.forall_mem_cons.mp hids
    have hid := (Nat.sub_add_cancel hid).symm
    rw [List.foldlM_cons, List.map_cons, List.foldlM_cons, ← mergeInterval_eq hid summary]
    cases mergeInterval build rows record with
    | error f => rw [error_bind, map_error, error_bind]
    | ok rows' => rw [ok_bind, map_ok, ok_bind, ih hids]

/-- A thread sends its statistic to the summary and its records to their rows. -/
theorem mergeThread_eq {result : ThreadResult} (h : result.Of p) (summary : Statistic) :
    (mergeThread build p (summary, rows) result).map (fun v => v.1 :: v.2) =
      result.items.foldlM (Scatter.update (Statistic.add build) .index) (summary :: rows) := by
  cases result with
  | panicked => rfl
  | failed => rfl
  | finished statistic intervals =>
    obtain ⟨_, _, hquota, hids⟩ := h
    have hpositive : ∀ record ∈ intervals, 1 ≤ record.intervalId := by
      intro record hmem
      obtain ⟨i, hget⟩ := List.getElem?_of_mem hmem
      rw [numbered hids hget]
      omega
    rw [ThreadResult.items, List.foldlM_cons, Scatter.update_ok rfl]
    simp only [mergeThread]
    cases summary.add build statistic with
    | error f => rfl
    | ok final =>
      rw [ok_bind, map_ok, ok_bind, List.set_cons_zero, ← mergeIntervals_eq hpositive]
      by_cases hnone : amountIntervalOutputs p = 0
      · have hempty : intervals = [] := List.length_eq_zero_iff.mp (by omega)
        subst hempty
        simp only [hnone, ne_eq, not_true, if_false]
        rfl
      · simp only [hnone, ne_eq, not_false_eq_true, if_true]
        cases intervals.foldlM (mergeInterval build) rows with
        | error f => rfl
        | ok rows' => rfl

theorem mergeThreads_eq {results : List ThreadResult} (h : ∀ result ∈ results, result.Of p)
    (summary : Statistic) :
    (results.foldlM (mergeThread build p) (summary, rows)).map (fun v => v.1 :: v.2) =
      (results.flatMap ThreadResult.items).foldlM (Scatter.update (Statistic.add build) .index)
        (summary :: rows) := by
  induction results generalizing summary rows with
  | nil => rfl
  | cons result results ih =>
    obtain ⟨hresult, hresults⟩ := List.forall_mem_cons.mp h
    rw [List.foldlM_cons, List.flatMap_cons, List.foldlM_append, ← mergeThread_eq hresult]
    cases mergeThread build p (summary, rows) result with
    | error f => rw [error_bind, map_error, error_bind]
    | ok v => rw [ok_bind, map_ok, ok_bind, ih hresults]

theorem sentTo_records {k i : Nat} {records : List Statistic}
    (hids : ∀ j record, records[j]? = some record → record.intervalId = k + j + 1) :
    Scatter.sentTo (i + 1) (records.map fun record => (record.intervalId, record)) =
      if k ≤ i then records[i - k]?.toList else [] := by
  induction records generalizing k with
  | nil => simp [Scatter.sentTo]
  | cons record records ih =>
    have hid := hids 0 record rfl
    have hrest := ih (k := k + 1) fun j r hget => by
      have := hids (j + 1) r hget
      omega
    rw [List.map_cons]
    by_cases hi : i = k
    · subst i
      rw [show record.intervalId = k + 1 by omega, Scatter.sentTo_self, hrest,
        if_neg (by omega), if_pos (Nat.le_refl k), Nat.sub_self]
      rfl
    · rw [Scatter.sentTo_other (by omega), hrest]
      by_cases hlt : k + 1 ≤ i
      · rw [if_pos hlt, if_pos (by omega), show i - k = i - (k + 1) + 1 by omega,
          List.getElem?_cons_succ]
      · rw [if_neg hlt, if_neg (by omega)]

/-- The rows get the records with their numbers. -/
theorem sentTo_row {results : List ThreadResult} (h : ∀ result ∈ results, result.Of p) (i : Nat) :
    Scatter.sentTo (i + 1) (results.flatMap ThreadResult.items) = recordsAt i results := by
  induction results with
  | nil => rfl
  | cons result results ih =>
    obtain ⟨hresult, hresults⟩ := List.forall_mem_cons.mp h
    rw [List.flatMap_cons, Scatter.sentTo_append, ih hresults, recordsAt_cons]
    congr 1
    cases result with
    | panicked => rfl
    | failed => rfl
    | finished statistic intervals =>
      rw [ThreadResult.items, Scatter.sentTo_other (by omega), sentTo_records (k := 0)
        fun j record hget => by rw [numbered hresult.2.2.2 hget]; omega, if_pos (Nat.zero_le i),
        recordsAt_single, Nat.sub_zero]
      rfl

theorem sentTo_summary {results : List ThreadResult} (h : ∀ result ∈ results, result.Of p) :
    Scatter.sentTo 0 (results.flatMap ThreadResult.items) = summaries results := by
  induction results with
  | nil => rfl
  | cons result results ih =>
    obtain ⟨hresult, hresults⟩ := List.forall_mem_cons.mp h
    rw [List.flatMap_cons, Scatter.sentTo_append, ih hresults, summaries_cons]
    congr 1
    cases result with
    | panicked => rfl
    | failed => rfl
    | finished statistic intervals =>
      rw [ThreadResult.items, Scatter.sentTo_self]
      congr 1
      refine List.filterMap_eq_nil_iff.mpr fun item hitem => ?_
      obtain ⟨record, hmem, rfl⟩ := List.mem_map.mp hitem
      obtain ⟨j, hget⟩ := List.getElem?_of_mem hmem
      rw [if_neg (by rw [numbered hresult.2.2.2 hget]; omega)]

end

/-- A row before anything is added to it. -/
def emptyRow (clock : Clock) (p : Parameter) (intervalId : Nat) : Statistic :=
  { Statistic.new clock p with intervalId := intervalId }

theorem emptyRows_length (clock : Clock) (p : Parameter) :
    (emptyRows clock p).length = amountIntervalOutputs p := by
  rw [emptyRows, List.length_mapIdx, List.length_replicate]

theorem emptyRows_get {clock : Clock} {p : Parameter} {i : Nat}
    (hi : i < amountIntervalOutputs p) :
    (emptyRows clock p)[i]? = some (emptyRow clock p (i + 1)) := by
  simp only [emptyRows, List.getElem?_mapIdx, List.getElem?_replicate, hi, if_true, Option.map_some]
  rfl

theorem emptyRow_of (clock : Clock) (p : Parameter) (intervalId : Nat) :
    (emptyRow clock p intervalId).Of p :=
  let h := Statistic.Of.new clock p
  ⟨h.parameter, h.sq, h.cq, h.inflight⟩

theorem metric_emptyRow (clock : Clock) (p : Parameter) (intervalId : Nat) (m : Metric) :
    (emptyRow clock p intervalId).metric m = 0 := by
  rw [← Statistic.metric_new m clock p]
  cases m <;> rfl

theorem mem_summaries {t : Statistic} {results : List ThreadResult} (h : t ∈ summaries results) :
    ∃ records, ThreadResult.finished t records ∈ results := by
  obtain ⟨result, hmem, hsome⟩ := List.mem_filterMap.mp h
  cases result with
  | panicked => cases hsome
  | failed => cases hsome
  | finished statistic records =>
    cases hsome
    exact ⟨records, hmem⟩

theorem mem_recordsAt {i : Nat} {t : Statistic} {results : List ThreadResult}
    (h : t ∈ recordsAt i results) :
    ∃ statistic records, ThreadResult.finished statistic records ∈ results ∧
      records[i]? = some t := by
  obtain ⟨result, hmem, hsome⟩ := List.mem_filterMap.mp h
  cases result with
  | panicked => cases hsome
  | failed => cases hsome
  | finished statistic records => exact ⟨statistic, records, hmem, hsome⟩

section
variable {p : Parameter} {results : List ThreadResult}

theorem summaries_perm {results' : List ThreadResult} (h : results.Perm results') :
    (summaries results).Perm (summaries results') :=
  h.filterMap _

theorem recordsAt_perm {results' : List ThreadResult} (h : results.Perm results') (i : Nat) :
    (recordsAt i results).Perm (recordsAt i results') :=
  h.filterMap _

theorem summaries_of (h : ∀ result ∈ results, result.Of p) : ∀ t ∈ summaries results, t.Of p := by
  intro t ht
  obtain ⟨records, hmem⟩ := mem_summaries ht
  exact (h _ hmem).1

/-- A record of a row is of the parameter set and carries the number of the row. -/
theorem recordsAt_of (h : ∀ result ∈ results, result.Of p) (i : Nat) :
    ∀ t ∈ recordsAt i results, t.Of p ∧ t.intervalId = i + 1 := by
  intro t ht
  obtain ⟨statistic, records, hmem, hget⟩ := mem_recordsAt ht
  obtain ⟨_, hrecords, _, hids⟩ := h _ hmem
  exact ⟨hrecords t (List.mem_of_getElem? hget), numbered hids hget⟩

theorem cells_of (clock clock' : Clock) (p : Parameter) :
    ∀ cell ∈ Statistic.new clock p :: emptyRows clock' p, cell.Of p := by
  intro cell hcell
  rcases List.mem_cons.mp hcell with rfl | hcell
  · exact .new clock p
  · obtain ⟨i, hget⟩ := List.getElem?_of_mem hcell
    obtain ⟨hi, _⟩ := List.getElem?_eq_some_iff.mp hget
    rw [emptyRows_length] at hi
    cases (emptyRows_get hi).symm.trans hget
    exact emptyRow_of clock' p (i + 1)

/-- There is a cell for whatever a thread sends, and all is of the parameter
set. -/
theorem items_of (h : ∀ result ∈ results, result.Of p) :
    ∀ item ∈ results.flatMap ThreadResult.items,
      item.1 ≤ amountIntervalOutputs p ∧ item.2.Of p := by
  intro item hitem
  obtain ⟨result, hresult, hitem⟩ := List.mem_flatMap.mp hitem
  have hof := h result hresult
  cases result with
  | panicked => cases hitem
  | failed => cases hitem
  | finished statistic intervals =>
    obtain ⟨hstatistic, hintervals, hquota, hids⟩ := hof
    rcases List.mem_cons.mp hitem with rfl | hitem
    · exact ⟨Nat.zero_le _, hstatistic⟩
    · obtain ⟨record, hmem, rfl⟩ := List.mem_map.mp hitem
      obtain ⟨i, hget⟩ := List.getElem?_of_mem hmem
      obtain ⟨hi, _⟩ := List.getElem?_eq_some_iff.mp hget
      have hid := numbered hids hget
      exact ⟨by omega, hintervals record hmem⟩

theorem items_lt (clock clock' : Clock) (h : ∀ result ∈ results, result.Of p) :
    ∀ item ∈ results.flatMap ThreadResult.items,
      item.1 < (Statistic.new clock p :: emptyRows clock' p).length := by
  intro item hitem
  rw [List.length_cons, emptyRows_length]
  exact Nat.lt_succ_of_le (items_of h item hitem).1

/-- The summary and the rows are folds over the threads, and where these return,
so does the merge. -/
theorem mergeThreads_iff (build : Build) (clock clock' : Clock)
    (h : ∀ result ∈ results, result.Of p) {summary : Statistic} {rows : List Statistic} :
    mergeThreads build clock clock' p results = .ok (summary, rows) ↔
      Statistic.fold build (Statistic.new clock p) (summaries results) = .ok summary ∧
        rows.length = amountIntervalOutputs p ∧
        ∀ i, i < amountIntervalOutputs p → ∃ row, rows[i]? = some row ∧
          Statistic.fold build (emptyRow clock' p (i + 1)) (recordsAt i results) = .ok row := by
  have hcells : mergeThreads build clock clock' p results = .ok (summary, rows) ↔
      (results.flatMap ThreadResult.items).foldlM (Scatter.update (Statistic.add build) .index)
        (Statistic.new clock p :: emptyRows clock' p) = .ok (summary :: rows) := by
    rw [← mergeThreads_eq h, map_eq_ok]
    constructor
    · exact fun hmerge => ⟨_, hmerge, rfl⟩
    · rintro ⟨⟨summary', rows'⟩, hmerge, hsame⟩
      cases hsame
      exact hmerge
  rw [hcells, Scatter.foldlM_iff (items_lt clock clock' h)]
  simp only [List.length_cons, Nat.add_right_cancel_iff, emptyRows_length]
  constructor
  · rintro ⟨hlength, hall⟩
    refine ⟨?_, hlength, fun i hi => ?_⟩
    · obtain ⟨_, hget, hfold⟩ := hall 0 _ rfl
      cases hget
      rw [sentTo_summary h] at hfold
      exact hfold
    · obtain ⟨row, hget, hfold⟩ := hall (i + 1) _ (emptyRows_get hi)
      rw [sentTo_row h] at hfold
      exact ⟨row, hget, hfold⟩
  · rintro ⟨hsummary, hlength, hrows⟩
    refine ⟨hlength, fun i cell hcell => ?_⟩
    cases i with
    | zero =>
      cases hcell
      exact ⟨summary, rfl, by rw [sentTo_summary h]; exact hsummary⟩
    | succ i =>
      rw [List.getElem?_cons_succ] at hcell
      obtain ⟨hi, _⟩ := List.getElem?_eq_some_iff.mp hcell
      rw [emptyRows_length] at hi
      cases (emptyRows_get hi).symm.trans hcell
      obtain ⟨row, hget, hfold⟩ := hrows i hi
      exact ⟨row, hget, by rw [sentTo_row h]; exact hfold⟩

/-- No record lacks a row: only a counter that leaves its type ends the merge. -/
theorem mergeThreads_overflows (build : Build) (clock clock' : Clock)
    (h : ∀ result ∈ results, result.Of p) :
    build.Overflows (mergeThreads build clock clock' p results) := by
  intro f hmerge
  have hcells : (results.flatMap ThreadResult.items).foldlM
      (Scatter.update (Statistic.add build) .index)
      (Statistic.new clock p :: emptyRows clock' p) = .error f := by
    rw [← mergeThreads_eq h]
    exact congrArg (Except.map _) hmerge
  obtain ⟨cell, item, hcell, hitem, hadd⟩ := Scatter.foldlM_error
    (P := Statistic.Of p) (Q := Statistic.Of p)
    (fun item hmem => ⟨items_lt clock clock' h item hmem, (items_of h item hmem).2⟩)
    (cells_of clock clock' p) (fun _ _ _ hs _ hu => hs.add hu) hcells
  exact hcell.add_overflows build hitem f hadd

/-- Counters that stay in their types are merged in any build, and exactly. -/
theorem mergeThreads_sum (build : Build) (clock clock' : Clock)
    (h : ∀ result ∈ results, result.Of p) (hsummaries : Statistic.Within (summaries results))
    (hrecords : ∀ i, Statistic.Within (recordsAt i results)) :
    ∃ summary rows, mergeThreads build clock clock' p results = .ok (summary, rows) ∧
      rows.length = amountIntervalOutputs p ∧
      Statistic.sum (Statistic.new clock p) (summaries results) = .ok summary ∧
      ∀ i, i < amountIntervalOutputs p → ∃ row, rows[i]? = some row ∧
        Statistic.sum (emptyRow clock' p (i + 1)) (recordsAt i results) = .ok row := by
  have hsummary : Statistic.fold build (Statistic.new clock p) (summaries results) =
      Statistic.sum (Statistic.new clock p) (summaries results) :=
    Statistic.fold_within (hsummaries.first fun m => Statistic.metric_new m clock p)
  have hrow : ∀ i, Statistic.fold build (emptyRow clock' p (i + 1)) (recordsAt i results) =
      Statistic.sum (emptyRow clock' p (i + 1)) (recordsAt i results) := fun i =>
    Statistic.fold_within ((hrecords i).first (metric_emptyRow clock' p (i + 1)))
  have hfolds : ∃ cells', (results.flatMap ThreadResult.items).foldlM
      (Scatter.update (Statistic.add build) .index)
      (Statistic.new clock p :: emptyRows clock' p) = .ok cells' := by
    refine Scatter.foldlM_returns (items_lt clock clock' h) fun i cell hcell => ?_
    cases i with
    | zero =>
      cases hcell
      rw [sentTo_summary h]
      obtain ⟨u, hu⟩ := (Statistic.Of.new clock p).sum_returns (summaries_of h)
      exact ⟨u, hsummary.trans hu⟩
    | succ i =>
      rw [List.getElem?_cons_succ] at hcell
      obtain ⟨hi, _⟩ := List.getElem?_eq_some_iff.mp hcell
      rw [emptyRows_length] at hi
      cases (emptyRows_get hi).symm.trans hcell
      rw [sentTo_row h]
      obtain ⟨u, hu⟩ := (emptyRow_of clock' p (i + 1)).sum_returns
        fun t ht => (recordsAt_of h i t ht).1
      exact ⟨u, (hrow i).trans hu⟩
  rw [← mergeThreads_eq h] at hfolds
  obtain ⟨⟨summary, rows⟩, hmerge⟩ := map_returns.mp hfolds
  obtain ⟨hfold, hlength, hrows⟩ := (mergeThreads_iff build clock clock' h).mp hmerge
  refine ⟨summary, rows, hmerge, hlength, hsummary ▸ hfold, fun i hi => ?_⟩
  obtain ⟨row, hget, hrowFold⟩ := hrows i hi
  exact ⟨row, hget, hrow i ▸ hrowFold⟩

/-- Whatever order the threads are joined in: what comes out is the same. -/
theorem mergeThreads_perm {build : Build} {clock clock' : Clock}
    (h : ∀ result ∈ results, result.Of p) {results' : List ThreadResult}
    (hperm : results.Perm results') {merged merged' : Statistic × List Statistic}
    (hmerge : mergeThreads build clock clock' p results = .ok merged)
    (hmerge' : mergeThreads build clock clock' p results' = .ok merged') : merged' = merged := by
  have h' : ∀ result ∈ results', result.Of p := fun result hmem => h _ (hperm.mem_iff.mpr hmem)
  obtain ⟨summary, rows⟩ := merged
  obtain ⟨summary', rows'⟩ := merged'
  obtain ⟨hsummary, hlength, hrows⟩ := (mergeThreads_iff build clock clock' h).mp hmerge
  obtain ⟨hsummary', hlength', hrows'⟩ := (mergeThreads_iff build clock clock' h').mp hmerge'
  congr 1
  · exact (Statistic.Of.new clock p).fold_perm (fun m => Statistic.metric_new m clock p)
      (summaries_of h) (summaries_perm hperm) hsummary hsummary'
  · apply List.ext_getElem?
    intro i
    by_cases hi : i < amountIntervalOutputs p
    · obtain ⟨row, hget, hfold⟩ := hrows i hi
      obtain ⟨row', hget', hfold'⟩ := hrows' i hi
      rw [hget, hget', (emptyRow_of clock' p (i + 1)).fold_perm (metric_emptyRow clock' p (i + 1))
        (fun t ht => (recordsAt_of h i t ht).1) (recordsAt_perm hperm i) hfold hfold']
    · rw [List.getElem?_eq_none (by omega), List.getElem?_eq_none (by omega)]

/-- Nothing that a thread counted is lost or counted twice, and the order in
which the threads are joined makes no difference, as far as the types of the
counters go: where a counter leaves its type, a build with overflow checks may
stop in one order and not in another, and another build wraps. -/
theorem merge_complete (build : Build) (clock clock' : Clock)
    (h : ∀ result ∈ results, result.Of p) :
    (∀ f, mergeThreads build clock clock' p results = .error f →
      f = .overflow ∧ build = .debug) ∧
    (∀ summary rows, mergeThreads build clock clock' p results = .ok (summary, rows) →
      rows.length = amountIntervalOutputs p ∧
      (∀ m : Metric, m.reduce build ((summaries results).map (Statistic.metric m)).sum =
        .ok (summary.metric m)) ∧
      (∀ i row, rows[i]? = some row → row.intervalId = i + 1 ∧
        ∀ m : Metric, m.reduce build ((recordsAt i results).map (Statistic.metric m)).sum =
          .ok (row.metric m)) ∧
      ∀ results' merged, results.Perm results' →
        mergeThreads build clock clock' p results' = .ok merged → merged = (summary, rows)) ∧
    (Statistic.Within (summaries results) → (∀ i, Statistic.Within (recordsAt i results)) →
      ∃ summary rows, rows.length = amountIntervalOutputs p ∧
        (∀ m, summary.metric m = ((summaries results).map (Statistic.metric m)).sum) ∧
        (∀ i row, rows[i]? = some row → row.intervalId = i + 1 ∧
          ∀ m, row.metric m = ((recordsAt i results).map (Statistic.metric m)).sum) ∧
        ∀ results', results.Perm results' →
          mergeThreads build clock clock' p results' = .ok (summary, rows)) := by
  have hfolded : ∀ summary rows, mergeThreads build clock clock' p results = .ok (summary, rows) →
      rows.length = amountIntervalOutputs p ∧
      (∀ m : Metric, m.reduce build ((summaries results).map (Statistic.metric m)).sum =
        .ok (summary.metric m)) ∧
      ∀ i row, rows[i]? = some row → row.intervalId = i + 1 ∧
        ∀ m : Metric, m.reduce build ((recordsAt i results).map (Statistic.metric m)).sum =
          .ok (row.metric m) := by
    intro summary rows hmerge
    obtain ⟨hsummary, hlength, hrows⟩ := (mergeThreads_iff build clock clock' h).mp hmerge
    refine ⟨hlength, (Statistic.Of.new clock p).fold_metric
      (fun m => Statistic.metric_new m clock p) (summaries_of h) hsummary, fun i row hget => ?_⟩
    obtain ⟨hi, _⟩ := List.getElem?_eq_some_iff.mp hget
    obtain ⟨row', hget', hfold⟩ := hrows i (by omega)
    cases hget'.symm.trans hget
    have hrecords := recordsAt_of h i
    have hempty := emptyRow_of clock' p (i + 1)
    have hzero := metric_emptyRow clock' p (i + 1)
    have hof : ∀ t ∈ recordsAt i results, t.Of p := fun t ht => (hrecords t ht).1
    exact ⟨hempty.fold_intervalId hzero hof rfl (fun t ht => Nat.le_of_eq (hrecords t ht).2) hfold,
      hempty.fold_metric hzero hof hfold⟩
  refine ⟨mergeThreads_overflows build clock clock' h, fun summary rows hmerge => ?_,
    fun hsummaries hrecords => ?_⟩
  · obtain ⟨hlength, hsummary, hrows⟩ := hfolded summary rows hmerge
    exact ⟨hlength, hsummary, hrows, fun results' merged hperm => mergeThreads_perm h hperm hmerge⟩
  · obtain ⟨summary, rows, hmerge, _⟩ :=
      mergeThreads_sum build clock clock' h hsummaries hrecords
    obtain ⟨hlength, hsummary, hrows⟩ := hfolded summary rows hmerge
    have hexact : ∀ (m : Metric) (ts : List Statistic) (n : Int), Statistic.Within ts →
        m.reduce build (ts.map (Statistic.metric m)).sum = .ok n →
        n = (ts.map (Statistic.metric m)).sum := by
      intro m ts n hwithin hn
      exact Except.ok.inj (hn.symm.trans (Metric.reduce_fits (hwithin m).sum))
    refine ⟨summary, rows, hlength, fun m => hexact m _ _ hsummaries (hsummary m),
      fun i row hget => ⟨(hrows i row hget).1, fun m => hexact m _ _ (hrecords i)
        ((hrows i row hget).2 m)⟩, fun results' hperm => ?_⟩
    obtain ⟨summary', rows', hmerge', _⟩ := mergeThreads_sum build clock clock'
      (fun result hmem => h _ (hperm.mem_iff.mpr hmem))
      (hsummaries.perm (summaries_perm hperm)) fun i => (hrecords i).perm (recordsAt_perm hperm i)
    rw [hmerge', mergeThreads_perm h hperm hmerge hmerge']

end

/-- Two threads with three records, in two orders, and one that failed. -/
theorem merge_complete_three :
    let p := { Parameter.tenSeconds with outputInterval := 5 }
    let record := fun (i n : Nat) => { emptyRow ⟨0, 0⟩ p i with amountDatagrams := n }
    let long := ThreadResult.finished (record 0 7) [record 1 3, record 2 4]
    let short := ThreadResult.finished (record 0 5) [record 1 5]
    ∃ summary rows, mergeThreads .debug ⟨0, 0⟩ ⟨0, 0⟩ p [long, .failed, short] =
        .ok (summary, rows) ∧
      mergeThreads .debug ⟨0, 0⟩ ⟨0, 0⟩ p [short, .failed, long] = .ok (summary, rows) ∧
      rows.length = 2 ∧ summary.metric .datagrams = 12 ∧
      (∀ row, rows[0]? = some row → row.intervalId = 1 ∧ row.metric .datagrams = 8) ∧
      ∀ row, rows[1]? = some row → row.intervalId = 2 ∧ row.metric .datagrams = 4 := by
  intro p record long short
  have hrecord : ∀ i n, (record i n).Of p := fun i n => ⟨rfl, rfl, rfl, rfl⟩
  have hof : ∀ result ∈ [long, .failed, short], result.Of p := by
    intro result hmem
    simp only [List.mem_cons, List.not_mem_nil, or_false] at hmem
    rcases hmem with rfl | rfl | rfl
    · exact ⟨hrecord 0 7, by simp [hrecord], by decide +kernel, rfl⟩
    · exact trivial
    · exact ⟨hrecord 0 5, by simp [hrecord], by decide +kernel, rfl⟩
  obtain ⟨summary, rows, hlength, hsummary, hrows, hmerge⟩ :=
    (merge_complete .debug ⟨0, 0⟩ ⟨0, 0⟩ hof).2.2
      (.of_counted (by decide +kernel)) (by
        intro i
        cases i with
        | zero => exact .of_counted (by decide +kernel)
        | succ i =>
          cases i with
          | zero => exact .of_counted (by decide +kernel)
          | succ i => exact .of_counted (by decide : Statistic.WithinCounted []))
  refine ⟨summary, rows, hmerge _ (.refl _), hmerge _ ?_, hlength.trans (by decide +kernel),
    hsummary .datagrams, fun row hrow => ?_, fun row hrow => ?_⟩
  · exact (List.reverse_perm [long, .failed, short]).symm
  · exact ⟨(hrows 0 row hrow).1, (hrows 0 row hrow).2 .datagrams⟩
  · exact ⟨(hrows 1 row hrow).1, (hrows 1 row hrow).2 .datagrams⟩

/-- A count of omitted packets that leaves `i64` on the way: with overflow
checks the order of the threads decides whether the program stops. Without them
the count wraps. -/
theorem merge_incomplete :
    let p := Parameter.headersOnly
    let thread := fun n : Int => ThreadResult.finished
      { Statistic.new ⟨0, 0⟩ p with amountDatagrams := 1, amountOmittedDatagrams := n } []
    let omitted := fun (build : Build) (results : List ThreadResult) =>
      (mergeThreads build ⟨0, 0⟩ ⟨0, 0⟩ p results).map fun v => v.1.amountOmittedDatagrams
    (∀ n, (thread n).Of p) ∧
      omitted .debug [thread (2 ^ 63 - 1), thread (-2 ^ 63), thread 5] = .ok 4 ∧
      omitted .debug [thread (2 ^ 63 - 1), thread 5, thread (-2 ^ 63)] = .error .overflow ∧
      omitted .release [thread (2 ^ 63 - 1), thread (2 ^ 63 - 1)] = .ok (-2) := by
  refine ⟨fun n => ⟨⟨rfl, rfl, rfl, rfl⟩, ?_, ?_, rfl⟩, ?_, ?_, ?_⟩
  · exact fun _ hmem => absurd hmem List.not_mem_nil
  · decide +kernel
  · decide +kernel
  · decide +kernel
  · decide +kernel

end Nperf
