import Nperf.Lib.Gains
import Nperf.Model.ReceiverLoop
import Nperf.Proofs.Adding
import Nperf.Proofs.Parameters

namespace Nperf
open Rust Runs Bytes

/-- The index that a metric stands for is in range of its array. -/
def Metric.InRange : Metric → Prop
  | .sq length => length < uringMaxRingSize + 1
  | .cq length => length < uringMaxRingSize * 2 + 1
  | .inflight length => length < uringMaxRingSize * uringBufferSizeMultiplicator + 1
  | _ => True

section
variable {size index : Nat} {u : Utilization size}

theorem Utilization.record_ok (h : index < size + 1) :
    ∃ u', u.record index = .ok u' ∧ u'.isSome = u.isSome := by
  cases u with
  | none => exact ⟨none, rfl, rfl⟩
  | some array =>
    refine ⟨some (array.set index (array[index] + 1)), ?_, rfl⟩
    simp only [record, dif_pos h]

/-- Counting a length ends in a panic exactly if there is an array and no cell
in it. -/
theorem Utilization.record_cell_iff (hu : u.isSome) :
    u.record index = .error .cell ↔ ¬index < size + 1 := by
  obtain ⟨array, rfl⟩ := Option.isSome_iff_exists.mp hu
  by_cases h : index < size + 1
  · simp [record, h]
  · simp [record, h]

end

namespace Statistic
variable {s : Statistic} {n : Nat}

theorem recordSq_ok (hs : s.Recording) (h : Metric.InRange (.sq n)) :
    ∃ s', s.recordSq n = .ok s' ∧ s'.Recording := by
  obtain ⟨u, hu, hsome⟩ := Utilization.record_ok (u := s.uringSqUtilization) h
  refine ⟨{ s with uringSqUtilization := u }, by rw [recordSq, hu, ok_bind], ?_⟩
  exact ⟨hsome.trans hs.sq, hs.cq, hs.inflight⟩

theorem recordCq_ok (hs : s.Recording) (h : Metric.InRange (.cq n)) (overflows : Nat) :
    ∃ s', ({ s with uringCqOverflows := s.uringCqOverflows + overflows } : Statistic).recordCq
      n = .ok s' ∧ s'.Recording := by
  obtain ⟨u, hu, hsome⟩ := Utilization.record_ok (u := s.uringCqUtilization) h
  refine ⟨_, by rw [recordCq, hu, ok_bind], ?_⟩
  exact ⟨hs.sq, hsome.trans hs.cq, hs.inflight⟩

theorem recordInflight_ok (hs : s.Recording) (h : Metric.InRange (.inflight n)) :
    ∃ s', s.recordInflight n = .ok s' ∧ s'.Recording := by
  obtain ⟨u, hu, hsome⟩ := Utilization.record_ok (u := s.uringInflightUtilization) h
  refine ⟨{ s with uringInflightUtilization := u }, by rw [recordInflight, hu, ok_bind], ?_⟩
  exact ⟨hs.sq, hs.cq, hsome.trans hs.inflight⟩

theorem recordSq_avoids (hs : s.Recording) (h : Metric.InRange (.sq n)) :
    Avoids .cell (s.recordSq n) := by
  obtain ⟨s', hs', _⟩ := recordSq_ok hs h
  exact hs' ▸ .ok s'

/-- An iteration that counts its requests first, and no other length later. -/
theorem recordInflight_cell_iff {rest : Statistic → Except Fault α} (hs : s.Recording)
    (hrest : ∀ s', s.recordInflight n = .ok s' → Avoids .cell (rest s')) :
    (s.recordInflight n >>= rest) = .error .cell ↔ ¬Metric.InRange (.inflight n) := by
  constructor
  · intro h hrange
    obtain ⟨s', hs', _⟩ := recordInflight_ok hs hrange
    rw [hs', ok_bind] at h
    exact hrest s' hs' h
  · intro h
    rw [recordInflight, (Utilization.record_cell_iff hs.inflight).mpr h, error_bind, error_bind]

/-- The end of `fill_sq_and_submit`, which counts the completions that wait. -/
theorem recordCq_cell_iff {failed : Error → α} {rest : Statistic → Except Fault α}
    (result : EnterResult) (hs : s.Recording) (hrest : ∀ overflows s',
      ({ s with uringCqOverflows := s.uringCqOverflows + overflows } : Statistic).recordCq n =
        .ok s' → Avoids .cell (rest s')) :
    (match ioUringEnter result with
      | .error e => Except.ok (failed e)
      | .ok overflows => { s with
          uringCqOverflows := s.uringCqOverflows + overflows }.recordCq n >>= rest) =
        .error .cell ↔ result ≠ .failed ∧ ¬Metric.InRange (.cq n) := by
  have hentered : ∀ overflows : Nat, ({ s with
      uringCqOverflows := s.uringCqOverflows + overflows }.recordCq n >>= rest) =
        .error .cell ↔ ¬Metric.InRange (.cq n) := by
    intro overflows
    constructor
    · intro h hrange
      obtain ⟨s', hs', _⟩ := recordCq_ok hs hrange overflows
      rw [hs', ok_bind] at h
      exact hrest overflows s' hs' h
    · intro h
      rw [recordCq, (Utilization.record_cell_iff hs.cq).mpr h, error_bind, error_bind]
  cases result with
  | failed => simp [ioUringEnter]
  | submitted => simpa [ioUringEnter] using hentered 0
  | busy => simpa [ioUringEnter] using hentered 1
  | timeout => simpa [ioUringEnter] using hentered 0

theorem Of.accumulate_overflows {p : Parameter} {t : Statistic} (hs : s.Of p) (build : Build)
    (ht : t.Of p) : build.Overflows (s.accumulate build t) := by
  cases build with
  | debug => exact hs.add_overflows .debug ht
  | release =>
    obtain ⟨u, hu⟩ := hs.plus_returns ht
    rw [Statistic.accumulate, hu, ok_bind]
    exact .bind (.i64 _) fun _ _ => .ok _

theorem Of.total_overflows {p : Parameter} {ts : List Statistic} (hs : s.Of p) (build : Build)
    (hts : ∀ t ∈ ts, t.Of p) : build.Overflows (Statistic.total build s ts) :=
  .foldlM hs (fun _ hu t ht => hu.accumulate_overflows build (hts t ht))
    fun _ _ _ hu _ h => hu.accumulate h

end Statistic

/-- The requests are pushed and `io_uring_enter` is next. -/
def Phase.submitting : Phase → Bool
  | .enter _ => true
  | .fill | .complete | .returned _ => false

/-- What happens around a loop: the kernel posts a completion, a batch takes one
out of the queue, and a request ends that `amount_inflight` goes on to count. -/
inductive Settlement
  | posted
  | taken
  | uncounted
  deriving DecidableEq

/-- What a batch settles that has taken these completions. -/
def settle (uncounted : α → Bool) (batch : List α) : List Settlement :=
  batch.flatMap fun c => if uncounted c then [.taken, .uncounted] else [.taken]

section
variable (uncounted : α → Bool) (batch : List α)

@[simp] theorem settle_posted : (settle uncounted batch).count .posted = 0 := by
  induction batch with
  | nil => rfl
  | cons c cs ih =>
    simp only [settle, List.flatMap_cons, List.count_append] at ih ⊢
    rw [ih]
    cases uncounted c <;> rfl

@[simp] theorem settle_taken : (settle uncounted batch).count .taken = batch.length := by
  induction batch with
  | nil => rfl
  | cons c cs ih =>
    simp only [settle, List.flatMap_cons, List.count_append, List.length_cons] at ih ⊢
    rw [ih, Nat.add_comm]
    cases uncounted c <;> rfl

@[simp] theorem settle_uncounted :
    (settle uncounted batch).count .uncounted = (batch.filter uncounted).length := by
  induction batch with
  | nil => rfl
  | cons c cs ih =>
    simp only [settle, List.flatMap_cons, List.count_append] at ih ⊢
    rw [ih]
    cases hc : uncounted c with
    | true => simp [hc, Nat.add_comm]
    | false => simp [hc]

end

/-- What the arrays have to have a cell for in the next move of a loop, besides
the length of the submission queue: the requests on their way when an iteration
begins, the completions that wait when `io_uring_enter` returns. -/
inductive Demand
  | requests (onTheirWay : Nat)
  | completions

/-- The requests that ended uncounted take up cells like those on their way. The
kernel is only ahead of the batches by what the array of the completion queue
has cells for; no ring but the largest lets it be more. -/
def Demand.Met (p : UringParameter) (log : List Settlement) : Demand → Prop
  | .requests onTheirWay =>
    onTheirWay + log.count .uncounted ≤ uringMaxRingSize * uringBufferSizeMultiplicator
  | .completions => uringMaxRingSize < p.ringSize * 2 →
    log.count .posted ≤ log.count .taken + uringMaxRingSize * 2

instance (p : UringParameter) (log : List Settlement) : (d : Demand) → Decidable (d.Met p log)
  | .requests _ => inferInstanceAs (Decidable (_ ≤ _))
  | .completions => inferInstanceAs (Decidable (_ → _))

/-- The next move of a loop finds the cells it demands. -/
def Fits (p : UringParameter) (demand : σ → ε → Option Demand) (log : List Settlement) (s : σ)
    (e : ε) : Prop :=
  ∀ d ∈ demand s e, d.Met p log

instance (p : UringParameter) (demand : σ → ε → Option Demand) (log : List Settlement) (s : σ)
    (e : ε) : Decidable (Fits p demand log s e) :=
  inferInstanceAs (Decidable (∀ d ∈ demand s e, d.Met p log))

section
variable {p : UringParameter} {log : List Settlement} {demand : σ → ε → Option Demand} {s : σ}
  {e : ε}

theorem Fits.none (h : demand s e = .none) : Fits p demand log s e := by
  intro d hd
  rw [h] at hd
  cases hd

theorem fits_iff {d : Demand} (h : demand s e = some d) :
    Fits p demand log s e ↔ d.Met p log := by
  simp [Fits, h]

/-- A counter that has every request until a batch counts it. -/
theorem Demand.requests_met_iff {amountInflight onTheirWay : Nat}
    (h : amountInflight = onTheirWay + log.count .uncounted) :
    Metric.InRange (.inflight amountInflight) ↔ (Demand.requests onTheirWay).Met p log := by
  rw [h, Metric.InRange, Met, Nat.lt_succ_iff]

/-- A queue that has every completion until a batch takes it, and no more of
them than it has entries. -/
theorem Demand.completions_met_iff {length : Nat} (hp : p.Accepted)
    (h : log.count .posted = log.count .taken + length) (hlength : length ≤ p.bufferSize) :
    Metric.InRange (.cq length) ↔ Demand.completions.Met p log := by
  rw [hp.buffer, uringBufferSizeMultiplicator] at hlength
  simp only [Metric.InRange, Met]
  constructor
  · intro hrange _
    omega
  · intro hmet
    by_cases hlarge : uringMaxRingSize < p.ringSize * 2
    · have := hmet hlarge
      omega
    · omega

end

theorem calcSqFillMode_avoids (amountInflight : Nat) (p : UringParameter) (ring : Ring) :
    Avoids .cell (calcSqFillMode amountInflight p ring) := by
  refine .bind (.checkedSub (by decide) _ _) fun limit _ => ?_
  split
  · split
    · exact .ok _
    · exact .ok _
  · dsimp only
    split
    · exact .ok _
    · exact .bind (.checkedSub (by decide) _ _) fun _ _ =>
        .bind (.checkedSub (by decide) _ _) fun _ _ => .ok _
    · exact .bind (.checkedSub (by decide) _ _) fun _ _ =>
        .bind (.checkedSub (by decide) _ _) fun _ _ => .ok _

/-- No slice of a buffer is an array of counters. -/
theorem rawSlice_avoids (m : Memory) (len : Nat) : Avoids .cell (rawSlice m len) := by
  unfold rawSlice
  split
  · exact .ok _
  · exact .error (by decide)

theorem word_avoids (s : Slice) (i : Nat) : Avoids .cell (s.word i) := by
  unfold Slice.word
  split
  · exact .error (by decide)
  · split
    · exact .error (by decide)
    · exact .ok _

end Nperf
