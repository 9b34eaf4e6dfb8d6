import Nperf.Lib.Lists
import Nperf.Lib.Ranges
import Nperf.Model.Statistic

namespace Nperf
open Rust

/-- How often a length was seen. -/
def Utilization.cell {size : Nat} (u : Utilization size) (length : Nat) : Nat :=
  match u with
  | none => 0
  | some array => (array.toArray[length]?).getD 0

/-- The integers that are added up, the cells of the three arrays included. -/
inductive Metric
  | datagrams
  | dataBytes
  | reordered
  | duplicated
  | omitted
  | syscalls
  | ioModelCalls
  | eagain
  | cqOverflows
  | outOfBuffers
  | copiedZc
  | canceledMultishot
  | sq (length : Nat)
  | cq (length : Nat)
  | inflight (length : Nat)
  deriving DecidableEq

namespace Metric

/-- The range of the type a metric is counted in. -/
def lowest : Metric → Int
  | .omitted => -2 ^ 63
  | _ => 0

def highest : Metric → Int
  | .omitted => 2 ^ 63 - 1
  | _ => 2 ^ 64 - 1

/-- What a build makes of an exact result. With overflow checks that is the
result itself, or nothing. -/
def reduce (build : Build) (m : Metric) (n : Int) : Except Fault Int :=
  match m with
  | .omitted => build.i64 n
  | _ => (build.u64 n).map Int.ofNat

section
variable {build : Build} {m : Metric} {n k : Int}

theorem reduce_u64 (hm : m ≠ .omitted) : reduce build m n = (build.u64 n).map Int.ofNat := by
  cases m with
  | omitted => exact absurd rfl hm
  | _ => rfl

theorem reduce_nat (hm : m ≠ .omitted) {a b : Nat} (h : build.u64 a = .ok b) :
    reduce build m a = .ok b := by
  rw [reduce_u64 hm, h]
  rfl

theorem reduce_fits (h : m.lowest ≤ n ∧ n ≤ m.highest) : reduce build m n = .ok n := by
  by_cases hm : m = .omitted
  · subst hm
    obtain ⟨hlow, hhigh⟩ := h
    simp only [lowest, highest] at hlow hhigh
    exact i64_fits build hlow (by omega)
  · have hrange : 0 ≤ n ∧ n ≤ 2 ^ 64 - 1 := by
      cases m with
      | omitted => exact absurd rfl hm
      | _ => exact h
    obtain ⟨i, rfl⟩ := Int.eq_ofNat_of_zero_le hrange.1
    rw [reduce_u64 hm, u64_fits build (by omega)]
    rfl

theorem zero_fits (m : Metric) : m.lowest ≤ 0 ∧ 0 ≤ m.highest := by
  cases m with
  | omitted => decide
  | _ => exact ⟨Int.le_refl 0, by simp [highest]⟩

/-- With overflow checks nothing but the exact result comes out. -/
theorem reduce_debug (h : reduce .debug m n = .ok k) : k = n := by
  by_cases hm : m = .omitted
  · subst hm
    exact (debug_i64_ok h).1.symm
  · rw [reduce_u64 hm] at h
    obtain ⟨i, hi, rfl⟩ := map_eq_ok.mp h
    exact (debug_u64_ok hi).1.symm

theorem reduce_again (h : reduce build m n = .ok k) (c : Int) :
    reduce build m (k + c) = reduce build m (n + c) := by
  by_cases hm : m = .omitted
  · subst hm
    exact i64_again h c
  · rw [reduce_u64 hm] at h ⊢
    obtain ⟨i, hi, rfl⟩ := map_eq_ok.mp h
    rw [reduce_u64 hm, ← u64_again hi c]
    rfl

end

end Metric

namespace Statistic

def metric (m : Metric) (s : Statistic) : Int :=
  match m with
  | .datagrams => s.amountDatagrams
  | .dataBytes => s.amountDataBytes
  | .reordered => s.amountReorderedDatagrams
  | .duplicated => s.amountDuplicatedDatagrams
  | .omitted => s.amountOmittedDatagrams
  | .syscalls => s.amountSyscalls
  | .ioModelCalls => s.amountIoModelCalls
  | .eagain => s.amountEagain
  | .cqOverflows => s.uringCqOverflows
  | .outOfBuffers => s.uringOutOfBuffers
  | .copiedZc => s.uringCopiedZc
  | .canceledMultishot => s.uringCanceledMultishot
  | .sq length => s.uringSqUtilization.cell length
  | .cq length => s.uringCqUtilization.cell length
  | .inflight length => s.uringInflightUtilization.cell length

/-- All three arrays are there. -/
structure Recording (s : Statistic) : Prop where
  sq : s.uringSqUtilization.isSome
  cq : s.uringCqUtilization.isSome
  inflight : s.uringInflightUtilization.isSome

/-- The statistic was made for this parameter set. -/
structure Of (p : Parameter) (s : Statistic) : Prop where
  parameter : s.parameter = p
  sq : s.uringSqUtilization.isSome = p.uringParameter.recordUtilization
  cq : s.uringCqUtilization.isSome = p.uringParameter.recordUtilization
  inflight : s.uringInflightUtilization.isSome = p.uringParameter.recordUtilization

end Statistic

section
variable {size : Nat} {u v : Utilization size}

theorem Utilization.cell_new (recording : Bool) (length : Nat) :
    (Utilization.new recording size).cell length = 0 := by
  cases recording with
  | true =>
    simp only [new, if_true, cell, Vector.toArray_replicate, Array.getElem?_replicate]
    split
    · rfl
    · rfl
  | false => rfl

theorem Utilization.new_isSome (recording : Bool) (size : Nat) :
    (Utilization.new recording size).isSome = recording := by
  cases recording with
  | true => rfl
  | false => rfl

theorem Utilization.plus_returns {recording : Bool} (hu : recording = true → u.isSome)
    (hv : recording = true → v.isSome) : ∃ w, Utilization.plus recording u v = .ok w := by
  cases recording with
  | false => exact ⟨none, rfl⟩
  | true =>
    obtain ⟨a, rfl⟩ := Option.isSome_iff_exists.mp (hu rfl)
    obtain ⟨b, rfl⟩ := Option.isSome_iff_exists.mp (hv rfl)
    exact ⟨_, rfl⟩

/-- Two arrays of a node that records add up cell by cell. -/
theorem Utilization.plus_ok {recording : Bool} {w : Utilization size}
    (h : Utilization.plus recording u v = .ok w) :
    w.isSome = recording ∧
      (recording = true → ∀ length, w.cell length = u.cell length + v.cell length) := by
  cases recording with
  | false =>
    cases h
    exact ⟨rfl, by simp⟩
  | true =>
    cases u with
    | none => cases h
    | some a =>
      cases v with
      | none => cases h
      | some b =>
        cases h
        refine ⟨rfl, fun _ length => ?_⟩
        simp only [cell, Vector.toArray_zipWith, Array.getElem?_zipWith]
        by_cases hlength : length < size + 1
        · simp [hlength]
        · simp [hlength]

/-- Without recording there is nothing to add. -/
theorem Utilization.plus_cell {recording : Bool} {w : Utilization size}
    (h : Utilization.plus recording u v = .ok w) (hu : u.isSome = recording)
    (hv : v.isSome = recording) (length : Nat) :
    w.cell length = u.cell length + v.cell length := by
  obtain ⟨hw, hcells⟩ := plus_ok h
  cases recording with
  | true => exact hcells rfl length
  | false =>
    rw [Option.isSome_eq_false_iff, Option.isNone_iff_eq_none] at hu hv hw
    rw [hu, hv, hw]
    rfl

/-- An array is its cells. -/
theorem Utilization.eq_of_cells (hsome : u.isSome = v.isSome)
    (hcells : ∀ length, u.cell length = v.cell length) : u = v := by
  cases u with
  | none =>
    cases v with
    | none => rfl
    | some b => cases hsome
  | some a =>
    cases v with
    | none => cases hsome
    | some b =>
      congr 1
      apply Vector.ext
      intro i hi
      have := hcells i
      simpa [cell, hi] using this

theorem Utilization.cell_get (array : Vector Nat (size + 1)) (length : Nat) :
    cell (some array) length = (array.toList[length]?).getD 0 := by
  rw [cell, ← Vector.toList_toArray, Array.getElem?_toList]

/-- What an addition leaves of the exact sum. -/
theorem Utilization.add_ok {build : Build} {recording : Bool} {w : Utilization size}
    (h : Utilization.add build recording u v = .ok w) :
    ∃ exact, Utilization.plus recording u v = .ok exact ∧ w.isSome = exact.isSome ∧
      ∀ length, build.u64 (exact.cell length) = .ok (w.cell length) := by
  cases recording with
  | false =>
    cases h
    exact ⟨none, rfl, rfl, fun _ => u64_fits build (n := 0) (by decide)⟩
  | true =>
    cases u with
    | none => cases h
    | some a =>
      cases v with
      | none => cases h
      | some b =>
        obtain ⟨array, harray, rfl⟩ := map_eq_ok.mp h
        refine ⟨_, rfl, rfl, fun length => ?_⟩
        have hlist :=
          (Lists.mapM_toList _ _).symm.trans (congrArg (Except.map Vector.toList) harray)
        rw [cell_get, cell_get]
        cases hget : (Vector.zipWith (· + ·) a b).toList[length]? with
        | some cell =>
          obtain ⟨k, hk, hget'⟩ := Lists.mapM_get hlist hget
          rw [hget']
          exact hk
        | none =>
          have hnone : array.toList[length]? = none := by
            rw [List.getElem?_eq_none_iff] at hget ⊢
            rw [Lists.mapM_length hlist]
            exact hget
          rw [hnone]
          exact u64_fits build (by decide)

theorem Utilization.add_overflows (build : Build) {recording : Bool}
    (hu : recording = true → u.isSome) (hv : recording = true → v.isSome) :
    build.Overflows (Utilization.add build recording u v) := by
  cases recording with
  | false => exact .ok none
  | true =>
    obtain ⟨a, rfl⟩ := Option.isSome_iff_exists.mp (hu rfl)
    obtain ⟨b, rfl⟩ := Option.isSome_iff_exists.mp (hv rfl)
    intro f h
    have hlist := Lists.mapM_toList (fun cell : Nat => build.u64 cell)
      (Vector.zipWith (· + ·) a b)
    simp only [Utilization.add, if_true] at h
    cases hcells : (Vector.zipWith (· + ·) a b).mapM fun cell : Nat => build.u64 cell with
    | ok array =>
      rw [hcells] at h
      cases h
    | error e =>
      rw [hcells] at h hlist
      cases h
      obtain ⟨cell, hcell⟩ := Lists.mapM_error hlist.symm
      exact u64_error hcell

/-- Cells that stay in 64 bits add up as they are. -/
theorem Utilization.add_within {build : Build} {recording : Bool}
    (h : ∀ length, u.cell length + v.cell length < 2 ^ 64) :
    Utilization.add build recording u v = Utilization.plus recording u v := by
  cases recording with
  | false => rfl
  | true =>
    cases u with
    | none => rfl
    | some a =>
      cases v with
      | none => rfl
      | some b =>
        have hplus : Utilization.plus true (some a) (some b) =
            .ok (some (Vector.zipWith (· + ·) a b)) := rfl
        obtain ⟨_, hcells⟩ := plus_ok hplus
        have hfits : ∀ cell ∈ (Vector.zipWith (· + ·) a b).toList,
            build.u64 (cell : Nat) = .ok (id cell) := by
          intro cell hmem
          obtain ⟨length, hget⟩ := List.getElem?_of_mem hmem
          have hcell := hcells rfl length
          rw [cell_get, hget, Option.getD_some] at hcell
          exact u64_fits build (hcell ▸ h length)
        have hlist := Lists.mapM_eq_map hfits
        rw [← Lists.mapM_toList, List.map_id] at hlist
        obtain ⟨array, harray, hsame⟩ := map_eq_ok.mp hlist
        simp only [Utilization.add, Utilization.plus, if_true, harray, map_ok]
        rw [Vector.toList_inj.mp hsame]

end

namespace Statistic

variable {p : Parameter} {s t u : Statistic} {m : Metric}

theorem Of.new (clock : Clock) (p : Parameter) : Of p (Statistic.new clock p) :=
  ⟨rfl, Utilization.new_isSome _ _, Utilization.new_isSome _ _, Utilization.new_isSome _ _⟩

theorem metric_new (m : Metric) (clock : Clock) (p : Parameter) : (new clock p).metric m = 0 := by
  cases m with
  | sq length => exact congrArg Int.ofNat (Utilization.cell_new _ length)
  | cq length => exact congrArg Int.ofNat (Utilization.cell_new _ length)
  | inflight length => exact congrArg Int.ofNat (Utilization.cell_new _ length)
  | _ => rfl

/-- What a sum takes over from its parts. -/
theorem plus_ok (h : s.plus t = .ok u) :
    u.parameter = s.parameter ∧ u.startTimestamp = min s.startTimestamp t.startTimestamp ∧
      u.endTimestamp = max s.endTimestamp t.endTimestamp ∧
      u.testDuration = max s.testDuration t.testDuration ∧
      u.intervalId = max s.intervalId t.intervalId := by
  obtain ⟨_, _, h⟩ := bind_ok.mp h
  obtain ⟨_, _, h⟩ := bind_ok.mp h
  obtain ⟨_, _, h⟩ := bind_ok.mp h
  cases h
  exact ⟨rfl, rfl, rfl, rfl, rfl⟩

theorem plus_recording (h : s.plus t = .ok u)
    (hrecord : s.parameter.uringParameter.recordUtilization = true) : u.Recording := by
  obtain ⟨_, hsq, h⟩ := bind_ok.mp h
  obtain ⟨_, hcq, h⟩ := bind_ok.mp h
  obtain ⟨_, hinflight, h⟩ := bind_ok.mp h
  cases h
  exact ⟨(Utilization.plus_ok hsq).1.trans hrecord, (Utilization.plus_ok hcq).1.trans hrecord,
    (Utilization.plus_ok hinflight).1.trans hrecord⟩

theorem plus_returns
    (hs : s.parameter.uringParameter.recordUtilization = true → s.Recording)
    (ht : s.parameter.uringParameter.recordUtilization = true → t.Recording) :
    ∃ u, s.plus t = .ok u := by
  obtain ⟨sq, hsq⟩ := Utilization.plus_returns (fun h => (hs h).sq) (fun h => (ht h).sq)
  obtain ⟨cq, hcq⟩ := Utilization.plus_returns (fun h => (hs h).cq) (fun h => (ht h).cq)
  obtain ⟨inflight, hinflight⟩ :=
    Utilization.plus_returns (fun h => (hs h).inflight) (fun h => (ht h).inflight)
  exact ⟨_, bind_ok.mpr ⟨sq, hsq, bind_ok.mpr ⟨cq, hcq, bind_ok.mpr ⟨inflight, hinflight, rfl⟩⟩⟩⟩

theorem Of.recording (h : Of p s) (hrecord : p.uringParameter.recordUtilization = true) :
    s.Recording :=
  ⟨h.sq.trans hrecord, h.cq.trans hrecord, h.inflight.trans hrecord⟩

theorem Recording.new (clock : Clock) {p : Parameter}
    (h : p.uringParameter.recordUtilization = true) : (Statistic.new clock p).Recording :=
  (Of.new clock p).recording h

theorem Of.plus (hs : Of p s) (h : s.plus t = .ok u) : Of p u := by
  obtain ⟨_, hsq, h⟩ := bind_ok.mp h
  obtain ⟨_, hcq, h⟩ := bind_ok.mp h
  obtain ⟨_, hinflight, h⟩ := bind_ok.mp h
  cases h
  rw [hs.parameter] at hsq hcq hinflight
  exact ⟨hs.parameter, (Utilization.plus_ok hsq).1, (Utilization.plus_ok hcq).1,
    (Utilization.plus_ok hinflight).1⟩

/-- Statistics of one parameter set add up in every metric. -/
theorem Of.metric_plus (hs : Of p s) (ht : Of p t) (h : s.plus t = .ok u) (m : Metric) :
    u.metric m = s.metric m + t.metric m := by
  obtain ⟨_, hsq, h⟩ := bind_ok.mp h
  obtain ⟨_, hcq, h⟩ := bind_ok.mp h
  obtain ⟨_, hinflight, h⟩ := bind_ok.mp h
  cases h
  rw [hs.parameter] at hsq hcq hinflight
  cases m with
  | sq length => exact congrArg Int.ofNat (Utilization.plus_cell hsq hs.sq ht.sq length)
  | cq length => exact congrArg Int.ofNat (Utilization.plus_cell hcq hs.cq ht.cq length)
  | inflight length =>
    exact congrArg Int.ofNat (Utilization.plus_cell hinflight hs.inflight ht.inflight length)
  | _ => rfl

theorem Of.plus_returns (hs : Of p s) (ht : Of p t) : ∃ u, s.plus t = .ok u := by
  refine Statistic.plus_returns (fun h => ?_) (fun h => ?_)
  · exact hs.recording (hs.parameter ▸ h)
  · exact ht.recording (hs.parameter ▸ h)

/-- A statistic is its parameter set, its metrics, its times and its place in the
list. -/
theorem eq_of_metrics (hparameter : s.parameter = t.parameter)
    (hsq : s.uringSqUtilization.isSome = t.uringSqUtilization.isSome)
    (hcq : s.uringCqUtilization.isSome = t.uringCqUtilization.isSome)
    (hinflight : s.uringInflightUtilization.isSome = t.uringInflightUtilization.isSome)
    (hmetric : ∀ m, s.metric m = t.metric m) (hstart : s.startTimestamp = t.startTimestamp)
    (hend : s.endTimestamp = t.endTimestamp) (hduration : s.testDuration = t.testDuration)
    (hid : s.intervalId = t.intervalId) : s = t := by
  have hsq := Utilization.eq_of_cells hsq fun length => Int.ofNat.inj (hmetric (.sq length))
  have hcq := Utilization.eq_of_cells hcq fun length => Int.ofNat.inj (hmetric (.cq length))
  have hinflight := Utilization.eq_of_cells hinflight
    fun length => Int.ofNat.inj (hmetric (.inflight length))
  obtain ⟨⟩ := s
  obtain ⟨⟩ := t
  congr 1
  · exact Int.ofNat.inj (hmetric .datagrams)
  · exact Int.ofNat.inj (hmetric .dataBytes)
  · exact Int.ofNat.inj (hmetric .reordered)
  · exact Int.ofNat.inj (hmetric .duplicated)
  · exact hmetric .omitted
  · exact Int.ofNat.inj (hmetric .syscalls)
  · exact Int.ofNat.inj (hmetric .ioModelCalls)
  · exact Int.ofNat.inj (hmetric .eagain)
  · exact Int.ofNat.inj (hmetric .cqOverflows)
  · exact Int.ofNat.inj (hmetric .outOfBuffers)
  · exact Int.ofNat.inj (hmetric .copiedZc)
  · exact Int.ofNat.inj (hmetric .canceledMultishot)

theorem Of.eq (hs : Of p s) (ht : Of p t) (hmetric : ∀ m, s.metric m = t.metric m)
    (hstart : s.startTimestamp = t.startTimestamp) (hend : s.endTimestamp = t.endTimestamp)
    (hduration : s.testDuration = t.testDuration) (hid : s.intervalId = t.intervalId) : s = t :=
  eq_of_metrics (hs.parameter.trans ht.parameter.symm) (hs.sq.trans ht.sq.symm)
    (hs.cq.trans ht.cq.symm) (hs.inflight.trans ht.inflight.symm) hmetric hstart hend hduration hid

theorem min_swap (a b c : Int) : min (min a b) c = min (min a c) b := by
  omega

theorem max_swap (a b c : Int) : max (max a b) c = max (max a c) b := by
  omega

/-- Two summands may change places. -/
theorem Of.plus_swap {v w x : Statistic} (hs : Of p s) (ht : Of p t) (hu : Of p u)
    (hst : s.plus t = .ok v) (hsu : s.plus u = .ok w) (h : v.plus u = .ok x) :
    w.plus t = .ok x := by
  have hv := hs.plus hst
  have hw := hs.plus hsu
  obtain ⟨y, hy⟩ := hw.plus_returns ht
  obtain ⟨_, hvstart, hvend, hvduration, hvid⟩ := plus_ok hst
  obtain ⟨_, hwstart, hwend, hwduration, hwid⟩ := plus_ok hsu
  obtain ⟨_, hxstart, hxend, hxduration, hxid⟩ := plus_ok h
  obtain ⟨_, hystart, hyend, hyduration, hyid⟩ := plus_ok hy
  have hmetric : ∀ m, y.metric m = x.metric m := by
    intro m
    rw [hw.metric_plus ht hy, hs.metric_plus hu hsu, hv.metric_plus hu h, hs.metric_plus ht hst]
    omega
  have he : y = x := by
    refine (hw.plus hy).eq (hv.plus h) hmetric ?_ ?_ ?_ (by omega)
    · rw [hystart, hwstart, hxstart, hvstart, min_swap]
    · rw [hyend, hwend, hxend, hvend, max_swap]
    · rw [hyduration, hwduration, hxduration, hvduration, max_swap]
  exact he ▸ hy

theorem sum_nil : sum s [] = .ok s := (rfl)

theorem sum_cons {rest : List Statistic} : sum s (t :: rest) = s.plus t >>= fun u => sum u rest :=
  List.foldlM_cons

/-- A fold with an accumulator that has its arrays never lacks one. -/
theorem sum_returns {ts : List Statistic}
    (hs : s.parameter.uringParameter.recordUtilization = true → s.Recording)
    (hts : s.parameter.uringParameter.recordUtilization = true → ∀ t ∈ ts, t.Recording) :
    ∃ u, sum s ts = .ok u := by
  induction ts generalizing s with
  | nil => exact ⟨s, rfl⟩
  | cons t ts ih =>
    obtain ⟨u, hu⟩ := plus_returns hs fun h => hts h t List.mem_cons_self
    have hparameter := (plus_ok hu).1
    obtain ⟨v, hv⟩ := ih (s := u) (fun h => plus_recording hu (hparameter ▸ h))
      fun h t ht => hts (hparameter ▸ h) t (List.mem_cons_of_mem _ ht)
    exact ⟨v, by rw [sum_cons, hu, ok_bind, hv]⟩

theorem Of.sum_returns {ts : List Statistic} (hs : Of p s) (hts : ∀ t ∈ ts, Of p t) :
    ∃ u, sum s ts = .ok u := by
  refine Statistic.sum_returns (fun h => ?_) fun h t ht => ?_
  · exact hs.recording (hs.parameter ▸ h)
  · exact (hts t ht).recording (hs.parameter ▸ h)

theorem Of.sum_of {ts : List Statistic} (hs : s.Of p) (h : sum s ts = .ok u) : Of p u := by
  induction ts generalizing s with
  | nil =>
    cases h
    exact hs
  | cons t ts ih =>
    obtain ⟨v, hv, hrest⟩ := bind_ok.mp (show _ >>= _ = _ from h)
    exact ih (hs.plus hv) hrest

theorem Of.metric_sum {ts : List Statistic} (hs : Of p s) (hts : ∀ t ∈ ts, Of p t)
    (h : sum s ts = .ok u) (m : Metric) :
    u.metric m = s.metric m + (ts.map (metric m)).sum := by
  induction ts generalizing s with
  | nil =>
    cases h
    exact (Int.add_zero _).symm
  | cons t ts ih =>
    obtain ⟨ht, hts⟩ := List.forall_mem_cons.mp hts
    rw [sum_cons] at h
    obtain ⟨v, hv, h⟩ := bind_ok.mp h
    rw [ih (hs.plus hv) hts h, hs.metric_plus ht hv, List.map_cons, List.sum_cons]
    omega

/-- The largest number wins. -/
theorem sum_intervalId {ts : List Statistic} {n : Nat} (hs : s.intervalId = n)
    (hts : ∀ t ∈ ts, t.intervalId ≤ n) (h : sum s ts = .ok u) : u.intervalId = n := by
  induction ts generalizing s with
  | nil =>
    cases h
    exact hs
  | cons t ts ih =>
    obtain ⟨ht, hts⟩ := List.forall_mem_cons.mp hts
    rw [sum_cons] at h
    obtain ⟨v, hv, h⟩ := bind_ok.mp h
    obtain ⟨_, _, _, _, hid⟩ := plus_ok hv
    exact ih (by omega) hts h

/-- In whatever order the summands come, the sum is the same. -/
theorem Of.sum_perm {ts ts' : List Statistic} (hs : Of p s) (hts : ∀ t ∈ ts, Of p t)
    (hperm : ts.Perm ts') : sum s ts = sum s ts' := by
  induction hperm generalizing s with
  | nil => rfl
  | cons t _ ih =>
    obtain ⟨ht, hts⟩ := List.forall_mem_cons.mp hts
    obtain ⟨u, hu⟩ := hs.plus_returns ht
    rw [sum_cons, sum_cons, hu, ok_bind, ok_bind, ih (hs.plus hu) hts]
  | swap t t' ts =>
    obtain ⟨ht', hts⟩ := List.forall_mem_cons.mp hts
    obtain ⟨ht, hts⟩ := List.forall_mem_cons.mp hts
    obtain ⟨v, hv⟩ := hs.plus_returns ht'
    obtain ⟨w, hw⟩ := hs.plus_returns ht
    obtain ⟨x, hx⟩ := (hs.plus hv).plus_returns ht
    have hx' := hs.plus_swap ht' ht hv hw hx
    rw [sum_cons, sum_cons, hv, hw, ok_bind, ok_bind, sum_cons, sum_cons, hx, hx']
  | trans hperm _ ih ih' =>
    rw [ih hs hts, ih' hs fun t ht => hts t (hperm.mem_iff.mpr ht)]

/-- An exact sum as far as the types of the counters show it. -/
structure Narrowed (build : Build) (exact s : Statistic) : Prop where
  parameter : s.parameter = exact.parameter
  start : s.startTimestamp = exact.startTimestamp
  stop : s.endTimestamp = exact.endTimestamp
  duration : s.testDuration = exact.testDuration
  intervalId : s.intervalId = exact.intervalId
  sq : s.uringSqUtilization.isSome = exact.uringSqUtilization.isSome
  cq : s.uringCqUtilization.isSome = exact.uringCqUtilization.isSome
  inflight : s.uringInflightUtilization.isSome = exact.uringInflightUtilization.isSome
  metric : ∀ m : Metric, m.reduce build (exact.metric m) = .ok (s.metric m)

section
variable {build : Build} {v w : Statistic}

theorem add_ok (h : s.add build t = .ok u) : ∃ w, s.plus t = .ok w ∧ w.Narrowed build u := by
  simp only [add, bind_ok] at h
  obtain ⟨sq, hsq, cq, hcq, inflight, hinflight, datagrams, hdatagrams, bytes, hbytes, reordered,
    hreordered, duplicated, hduplicated, omitted, homitted, syscalls, hsyscalls, calls, hcalls,
    eagain, heagain, overflows, hoverflows, buffers, hbuffers, copied, hcopied, canceled,
    hcanceled, h⟩ := h
  cases h
  obtain ⟨sq', hsq, hsqSome, hsqCells⟩ := Utilization.add_ok hsq
  obtain ⟨cq', hcq, hcqSome, hcqCells⟩ := Utilization.add_ok hcq
  obtain ⟨inflight', hinflight, hinflightSome, hinflightCells⟩ := Utilization.add_ok hinflight
  refine ⟨_, bind_ok.mpr ⟨sq', hsq, bind_ok.mpr ⟨cq', hcq, bind_ok.mpr ⟨inflight', hinflight,
    rfl⟩⟩⟩, rfl, rfl, rfl, rfl, rfl, hsqSome, hcqSome, hinflightSome, fun m => ?_⟩
  cases m with
  | datagrams => exact Metric.reduce_nat (by simp) hdatagrams
  | dataBytes => exact Metric.reduce_nat (by simp) hbytes
  | reordered => exact Metric.reduce_nat (by simp) hreordered
  | duplicated => exact Metric.reduce_nat (by simp) hduplicated
  | omitted => exact homitted
  | syscalls => exact Metric.reduce_nat (by simp) hsyscalls
  | ioModelCalls => exact Metric.reduce_nat (by simp) hcalls
  | eagain => exact Metric.reduce_nat (by simp) heagain
  | cqOverflows => exact Metric.reduce_nat (by simp) hoverflows
  | outOfBuffers => exact Metric.reduce_nat (by simp) hbuffers
  | copiedZc => exact Metric.reduce_nat (by simp) hcopied
  | canceledMultishot => exact Metric.reduce_nat (by simp) hcanceled
  | sq length => exact Metric.reduce_nat (by simp) (hsqCells length)
  | cq length => exact Metric.reduce_nat (by simp) (hcqCells length)
  | inflight length => exact Metric.reduce_nat (by simp) (hinflightCells length)

theorem Narrowed.of (h : v.Narrowed build s) (hv : Of p v) : Of p s :=
  ⟨h.parameter.trans hv.parameter, h.sq.trans hv.sq, h.cq.trans hv.cq,
    h.inflight.trans hv.inflight⟩

theorem Of.add (hs : Of p s) (h : s.add build t = .ok u) : Of p u := by
  obtain ⟨w, hw, hu⟩ := add_ok h
  exact hu.of (hs.plus hw)

theorem add_overflows (build : Build)
    (hs : s.parameter.uringParameter.recordUtilization = true → s.Recording)
    (ht : s.parameter.uringParameter.recordUtilization = true → t.Recording) :
    build.Overflows (s.add build t) := by
  refine .bind (Utilization.add_overflows build (fun h => (hs h).sq) fun h => (ht h).sq)
    fun _ _ => .bind (Utilization.add_overflows build (fun h => (hs h).cq) fun h => (ht h).cq)
    fun _ _ => .bind (Utilization.add_overflows build (fun h => (hs h).inflight)
      fun h => (ht h).inflight) fun _ _ => ?_
  exact .bind (.u64 _) fun _ _ => .bind (.u64 _) fun _ _ => .bind (.u64 _) fun _ _ =>
    .bind (.u64 _) fun _ _ => .bind (.i64 _) fun _ _ => .bind (.u64 _) fun _ _ =>
    .bind (.u64 _) fun _ _ => .bind (.u64 _) fun _ _ => .bind (.u64 _) fun _ _ =>
    .bind (.u64 _) fun _ _ => .bind (.u64 _) fun _ _ => .bind (.u64 _) fun _ _ => .ok _

theorem Of.add_overflows (hs : Of p s) (build : Build) (ht : Of p t) :
    build.Overflows (s.add build t) := by
  refine Statistic.add_overflows build (fun h => ?_) fun h => ?_
  · exact hs.recording (hs.parameter ▸ h)
  · exact ht.recording (hs.parameter ▸ h)

/-- Counters that stay in their types add up exactly. -/
theorem add_within (build : Build) (h : ∀ m : Metric, m.lowest ≤ s.metric m + t.metric m ∧
    s.metric m + t.metric m ≤ m.highest) : s.add build t = s.plus t := by
  have hfits : ∀ (m : Metric) (a b : Nat), s.metric m = a → t.metric m = b →
      m.highest = 2 ^ 64 - 1 → build.u64 (a + b : Nat) = .ok (a + b) := by
    intro m a b ha hb hm
    have := (h m).2
    exact u64_fits build (by omega)
  have homitted : build.i64 (s.amountOmittedDatagrams + t.amountOmittedDatagrams) =
      .ok (s.amountOmittedDatagrams + t.amountOmittedDatagrams) :=
    Metric.reduce_fits (m := .omitted) (h .omitted)
  have hcell : ∀ (m : Metric) (a b : Nat), s.metric m = a → t.metric m = b →
      m.highest = 2 ^ 64 - 1 → a + b < 2 ^ 64 := by
    intro m a b ha hb hm
    have := (h m).2
    omega
  simp only [add, plus, homitted, ok_bind,
    Utilization.add_within fun length => hcell (.sq length) _ _ rfl rfl rfl,
    Utilization.add_within fun length => hcell (.cq length) _ _ rfl rfl rfl,
    Utilization.add_within fun length => hcell (.inflight length) _ _ rfl rfl rfl,
    hfits .datagrams _ _ rfl rfl rfl, hfits .dataBytes _ _ rfl rfl rfl,
    hfits .reordered _ _ rfl rfl rfl, hfits .duplicated _ _ rfl rfl rfl,
    hfits .syscalls _ _ rfl rfl rfl, hfits .ioModelCalls _ _ rfl rfl rfl,
    hfits .eagain _ _ rfl rfl rfl, hfits .cqOverflows _ _ rfl rfl rfl,
    hfits .outOfBuffers _ _ rfl rfl rfl, hfits .copiedZc _ _ rfl rfl rfl,
    hfits .canceledMultishot _ _ rfl rfl rfl]

/-- With overflow checks nothing but the exact sum comes out. -/
theorem Narrowed.exact (h : v.Narrowed .debug s) : s = v :=
  eq_of_metrics h.parameter h.sq h.cq h.inflight (fun m => Metric.reduce_debug (h.metric m)) h.start
    h.stop h.duration h.intervalId

/-- The same counters with another number of omitted packets. -/
def omitting (s : Statistic) (n : Int) : Statistic := { s with amountOmittedDatagrams := n }

theorem Of.omitting (h : s.Of p) (n : Int) : (s.omitting n).Of p :=
  ⟨h.parameter, h.sq, h.cq, h.inflight⟩

theorem metric_omitting {m : Metric} (hm : m ≠ .omitted) (s : Statistic) (n : Int) :
    (s.omitting n).metric m = s.metric m := by
  cases m with
  | omitted => exact absurd rfl hm
  | _ => rfl

theorem plus_omitting (h : s.plus t = .ok u) (n : Int) :
    (s.omitting n).plus t = .ok (u.omitting (n + t.amountOmittedDatagrams)) ∧
      u.amountOmittedDatagrams = s.amountOmittedDatagrams + t.amountOmittedDatagrams := by
  obtain ⟨sq, hsq, h⟩ := bind_ok.mp h
  obtain ⟨cq, hcq, h⟩ := bind_ok.mp h
  obtain ⟨inflight, hinflight, h⟩ := bind_ok.mp h
  cases h
  exact ⟨bind_ok.mpr ⟨sq, hsq, bind_ok.mpr ⟨cq, hcq, bind_ok.mpr ⟨inflight, hinflight, rfl⟩⟩⟩, rfl⟩

/-- What a sum has of omitted packets its first summand may have more or less of. -/
theorem sum_omitting {ts : List Statistic} (h : sum s ts = .ok u) (n : Int) :
    sum (s.omitting n) ts = .ok (u.omitting
      (n + (u.amountOmittedDatagrams - s.amountOmittedDatagrams))) := by
  induction ts generalizing s n with
  | nil =>
    cases h
    rw [Int.sub_self, Int.add_zero]
    rfl
  | cons t ts ih =>
    rw [sum_cons] at h
    obtain ⟨v, hv, h⟩ := bind_ok.mp h
    obtain ⟨hplus, homitted⟩ := plus_omitting hv n
    rw [sum_cons, hplus, ok_bind, ih h, homitted]
    congr 2
    omega

theorem accumulate_ok (h : s.accumulate build t = .ok u) :
    ∃ w n, s.plus t = .ok w ∧ build.i64 w.amountOmittedDatagrams = .ok n ∧ u = w.omitting n := by
  cases build with
  | release =>
    obtain ⟨w, hw, h⟩ := bind_ok.mp h
    obtain ⟨n, hn, h⟩ := bind_ok.mp h
    cases h
    exact ⟨w, n, hw, hn, rfl⟩
  | debug =>
    obtain ⟨w, hw, hu⟩ := add_ok h
    have homitted := hu.metric .omitted
    rw [hu.exact] at homitted ⊢
    exact ⟨w, _, hw, homitted, rfl⟩

/-- The omitted packets of the sum are what their type shows of them. -/
theorem total_ok {ts : List Statistic} (h : total build s ts = .ok u) :
    ∃ w n, sum s ts = .ok w ∧ u = w.omitting n ∧
      (build.i64 s.amountOmittedDatagrams = .ok s.amountOmittedDatagrams →
        build.i64 w.amountOmittedDatagrams = .ok n) := by
  induction ts generalizing s with
  | nil =>
    cases h
    exact ⟨u, u.amountOmittedDatagrams, rfl, rfl, id⟩
  | cons t ts ih =>
    obtain ⟨v, hv, h⟩ := bind_ok.mp (show s.accumulate build t >>= _ = _ from h)
    obtain ⟨w, n, hw, hn, rfl⟩ := accumulate_ok hv
    obtain ⟨x, k, hx, rfl, hk⟩ := ih h
    have hexact := sum_omitting hx w.amountOmittedDatagrams
    have hfits : build.i64 n = .ok n := by
      have hagain := i64_again hn 0
      rwa [Int.add_zero, Int.add_zero, hn] at hagain
    refine ⟨x.omitting (w.amountOmittedDatagrams + (x.amountOmittedDatagrams - n)), k, ?_, rfl,
      fun _ => ?_⟩
    · rw [sum_cons, hw, ok_bind]
      exact hexact
    · have hagain := i64_again hn (x.amountOmittedDatagrams - n)
      rw [show n + (x.amountOmittedDatagrams - n) = x.amountOmittedDatagrams by omega,
        hk hfits] at hagain
      exact hagain.symm

theorem Of.accumulate (hs : s.Of p) (h : s.accumulate build t = .ok u) : u.Of p := by
  obtain ⟨w, n, hw, _, rfl⟩ := accumulate_ok h
  exact (hs.plus hw).omitting n

theorem Of.total {ts : List Statistic} (hs : s.Of p) (h : total build s ts = .ok u) : u.Of p := by
  obtain ⟨w, n, hw, rfl, _⟩ := total_ok h
  exact (hs.sum_of hw).omitting n

theorem add_times {build : Build} (h : s.add build t = .ok u) :
    u.parameter = s.parameter ∧ u.startTimestamp = min s.startTimestamp t.startTimestamp ∧
      u.endTimestamp = max s.endTimestamp t.endTimestamp := by
  obtain ⟨w, hw, hu⟩ := add_ok h
  obtain ⟨hparameter, hstart, hend, _⟩ := plus_ok hw
  exact ⟨hu.parameter.trans hparameter, hu.start.trans hstart, hu.stop.trans hend⟩

theorem add_recording {build : Build} (h : s.add build t = .ok u)
    (hrecord : s.parameter.uringParameter.recordUtilization = true) : u.Recording := by
  obtain ⟨w, hw, hu⟩ := add_ok h
  have hw := plus_recording hw hrecord
  exact ⟨hu.sq.trans hw.sq, hu.cq.trans hw.cq, hu.inflight.trans hw.inflight⟩

/-- Without recording the arrays of a sum are empty. -/
theorem plus_metric (h : s.plus t = .ok u) (m : Metric) :
    u.metric m = s.metric m + t.metric m ∨ u.metric m = 0 := by
  obtain ⟨sq, hsq, h⟩ := bind_ok.mp h
  obtain ⟨cq, hcq, h⟩ := bind_ok.mp h
  obtain ⟨inflight, hinflight, h⟩ := bind_ok.mp h
  cases h
  have harray : ∀ {size : Nat} {a b c : Utilization size} (length : Nat),
      Utilization.plus s.parameter.uringParameter.recordUtilization a b = .ok c →
      (c.cell length : Int) = a.cell length + b.cell length ∨ (c.cell length : Int) = 0 := by
    intro size a b c length hplus
    obtain ⟨hsome, hcells⟩ := Utilization.plus_ok hplus
    cases hrecord : s.parameter.uringParameter.recordUtilization with
    | true =>
      rw [hcells hrecord length]
      exact .inl (Int.natCast_add _ _)
    | false =>
      rw [hrecord, Option.isSome_eq_false_iff, Option.isNone_iff_eq_none] at hsome
      rw [hsome]
      exact .inr rfl
  cases m with
  | sq length => exact harray length hsq
  | cq length => exact harray length hcq
  | inflight length => exact harray length hinflight
  | _ => exact .inl rfl

end

/-- In whatever order they are added up, no counter leaves its type. -/
def Within (ts : List Statistic) : Prop :=
  ∀ m : Metric, Ranges.Within m.lowest m.highest (ts.map (metric m))

section
variable {build : Build} {v : Statistic} {ts ts' : List Statistic}

theorem Within.sublist (h : Within ts') (hsub : ts.Sublist ts') : Within ts :=
  fun m => (h m).sublist (hsub.map _)

theorem Within.perm (h : Within ts) (hperm : ts.Perm ts') : Within ts' :=
  fun m => (h m).perm (hperm.map _)

/-- A statistic that has counted nothing may come first. -/
theorem Within.first (h : Within ts) (hs : ∀ m, s.metric m = 0) : Within (s :: ts) := by
  intro m
  rw [List.map_cons, hs m]
  exact (h m).zero

/-- The metrics that are no cells of an array. -/
def counted : List Metric :=
  [.datagrams, .dataBytes, .reordered, .duplicated, .omitted, .syscalls, .ioModelCalls, .eagain,
    .cqOverflows, .outOfBuffers, .copiedZc, .canceledMultishot]

/-- Without arrays there are only these to look at. -/
def WithinCounted (ts : List Statistic) : Prop :=
  (∀ t ∈ ts, t.uringSqUtilization.isNone ∧ t.uringCqUtilization.isNone ∧
    t.uringInflightUtilization.isNone) ∧
  ∀ m ∈ counted, Ranges.Within m.lowest m.highest (ts.map (metric m))

instance (ts : List Statistic) : Decidable (WithinCounted ts) :=
  inferInstanceAs (Decidable (_ ∧ _))

theorem Within.of_counted (h : WithinCounted ts) : Within ts := by
  obtain ⟨hnone, h⟩ := h
  have hcells : ∀ m : Metric, (∀ t ∈ ts, t.metric m = 0) →
      Ranges.Within m.lowest m.highest (ts.map (metric m)) := by
    intro m hm
    rw [List.map_congr_left hm]
    exact .zeros (Metric.zero_fits m) ts
  have hcell : ∀ {size : Nat} {u : Utilization size} (length : Nat), u.isNone →
      (u.cell length : Int) = 0 := by
    intro size u length hu
    rw [Option.isNone_iff_eq_none.mp hu]
    rfl
  intro m
  cases m with
  | sq length => exact hcells _ fun t ht => hcell length (hnone t ht).1
  | cq length => exact hcells _ fun t ht => hcell length (hnone t ht).2.1
  | inflight length => exact hcells _ fun t ht => hcell length (hnone t ht).2.2
  | _ => exact h _ (by decide)

theorem fold_nil : fold build s [] = .ok s := (rfl)

theorem fold_cons : fold build s (t :: ts) = s.add build t >>= fun u => fold build u ts :=
  List.foldlM_cons

/-- The first two may be added up. -/
theorem Within.plus (h : Within (s :: t :: ts)) (hplus : s.plus t = .ok u) : Within (u :: ts) := by
  have hall : ∀ m : Metric, Ranges.Within m.lowest m.highest
      (s.metric m :: t.metric m :: ts.map (metric m)) := h
  intro m
  rw [List.map_cons]
  rcases plus_metric hplus m with hsum | hnone
  · rw [hsum]
    exact (hall m).merge
  · rw [hnone]
    exact (hall m).tail.tail.zero

/-- Counters that stay in their types have their exact sum. -/
theorem fold_within (h : Within (s :: ts)) : fold build s ts = sum s ts := by
  induction ts generalizing s with
  | nil => rw [fold_nil, sum_nil]
  | cons t ts ih =>
    have hall : ∀ m : Metric, Ranges.Within m.lowest m.highest
        (s.metric m :: t.metric m :: ts.map (metric m)) := h
    rw [fold_cons, sum_cons, add_within build fun m => (hall m).merge.head]
    cases hplus : s.plus t with
    | error f => rw [error_bind, error_bind]
    | ok u =>
      rw [ok_bind, ok_bind]
      exact ih (h.plus hplus)

theorem fold_overflows (build : Build)
    (hs : s.parameter.uringParameter.recordUtilization = true → s.Recording)
    (hts : s.parameter.uringParameter.recordUtilization = true → ∀ t ∈ ts, t.Recording) :
    build.Overflows (fold build s ts) := by
  refine .foldlM (P := fun u => u.parameter = s.parameter ∧
    (s.parameter.uringParameter.recordUtilization = true → u.Recording)) ⟨rfl, hs⟩ ?_ ?_
  · intro u hu t ht
    exact add_overflows build (fun h => hu.2 (hu.1 ▸ h)) fun h => hts (hu.1 ▸ h) t ht
  · intro u t u' hu _ h
    exact ⟨(add_times h).1.trans hu.1, fun hrecord => add_recording h (hu.1 ▸ hrecord)⟩

/-- What the types show of a statistic is unique. -/
theorem Narrowed.unique (h : v.Narrowed build s) (h' : v.Narrowed build t) (hv : Of p v) :
    s = t := by
  refine (h.of hv).eq (h'.of hv) (fun m => ?_) (h.start.trans h'.start.symm)
    (h.stop.trans h'.stop.symm) (h.duration.trans h'.duration.symm)
    (h.intervalId.trans h'.intervalId.symm)
  exact Except.ok.inj ((h.metric m).symm.trans (h'.metric m))

theorem Narrowed.new {s : Statistic} (h : ∀ m, s.metric m = 0) : s.Narrowed build s := by
  refine ⟨rfl, rfl, rfl, rfl, rfl, rfl, rfl, rfl, fun m => ?_⟩
  rw [h m]
  exact Metric.reduce_fits (Metric.zero_fits m)

theorem Narrowed.add (hn : v.Narrowed build s) (hv : Of p v) (ht : Of p t)
    (h : s.add build t = .ok u) : ∃ w, v.plus t = .ok w ∧ w.Narrowed build u := by
  have hs := hn.of hv
  obtain ⟨x, hx, hu⟩ := add_ok h
  obtain ⟨w, hw⟩ := hv.plus_returns ht
  obtain ⟨hxparameter, hxstart, hxend, hxduration, hxid⟩ := plus_ok hx
  obtain ⟨hwparameter, hwstart, hwend, hwduration, hwid⟩ := plus_ok hw
  have hxof := hs.plus hx
  have hwof := hv.plus hw
  refine ⟨w, hw, ?_, ?_, ?_, ?_, ?_, ?_, ?_, ?_, fun m => ?_⟩
  · rw [hu.parameter, hxparameter, hwparameter, hn.parameter]
  · rw [hu.start, hxstart, hwstart, hn.start]
  · rw [hu.stop, hxend, hwend, hn.stop]
  · rw [hu.duration, hxduration, hwduration, hn.duration]
  · rw [hu.intervalId, hxid, hwid, hn.intervalId]
  · rw [hu.sq, hxof.sq, hwof.sq]
  · rw [hu.cq, hxof.cq, hwof.cq]
  · rw [hu.inflight, hxof.inflight, hwof.inflight]
  · rw [hv.metric_plus ht hw, ← Metric.reduce_again (hn.metric m), ← hs.metric_plus ht hx]
    exact hu.metric m

/-- A fold gives what the types show of the exact sum. -/
theorem Narrowed.fold (hn : v.Narrowed build s) (hv : Of p v) (hts : ∀ t ∈ ts, Of p t)
    (h : fold build s ts = .ok u) : ∃ w, sum v ts = .ok w ∧ w.Narrowed build u := by
  induction ts generalizing s v with
  | nil =>
    cases h
    exact ⟨v, rfl, hn⟩
  | cons t ts ih =>
    obtain ⟨ht, hts⟩ := List.forall_mem_cons.mp hts
    rw [fold_cons] at h
    obtain ⟨s', hs', h⟩ := bind_ok.mp h
    obtain ⟨v', hv', hn'⟩ := hn.add hv ht hs'
    obtain ⟨w, hw, hu⟩ := ih hn' (hv.plus hv') hts h
    exact ⟨w, by rw [sum_cons, hv', ok_bind, hw], hu⟩

/-- From nothing on, each metric of a fold is what its type shows of the sum. -/
theorem Of.fold_metric (hs : Of p s) (hzero : ∀ m, s.metric m = 0) (hts : ∀ t ∈ ts, Of p t)
    (h : fold build s ts = .ok u) (m : Metric) :
    m.reduce build (ts.map (metric m)).sum = .ok (u.metric m) := by
  obtain ⟨w, hw, hu⟩ := (Narrowed.new hzero).fold hs hts h
  rw [← hu.metric m, hs.metric_sum hts hw, hzero, Int.zero_add]

theorem Of.fold_intervalId {n : Nat} (hs : Of p s) (hzero : ∀ m, s.metric m = 0)
    (hts : ∀ t ∈ ts, Of p t) (hid : s.intervalId = n) (hids : ∀ t ∈ ts, t.intervalId ≤ n)
    (h : fold build s ts = .ok u) : u.intervalId = n := by
  obtain ⟨w, hw, hu⟩ := (Narrowed.new hzero).fold hs hts h
  exact hu.intervalId.trans (sum_intervalId hid hids hw)

/-- Two orders in which a fold returns give the same. -/
theorem Of.fold_perm {u' : Statistic} (hs : Of p s) (hzero : ∀ m, s.metric m = 0)
    (hts : ∀ t ∈ ts, Of p t) (hperm : ts.Perm ts') (h : fold build s ts = .ok u)
    (h' : fold build s ts' = .ok u') : u' = u := by
  have hts' : ∀ t ∈ ts', Of p t := fun t ht => hts t (hperm.mem_iff.mpr ht)
  obtain ⟨w, hw, hu⟩ := (Narrowed.new hzero).fold hs hts h
  obtain ⟨w', hw', hu'⟩ := (Narrowed.new hzero).fold hs hts' h'
  rw [← hs.sum_perm hts hperm] at hw'
  cases hw.symm.trans hw'
  exact hu'.unique hu (hs.sum_of hw)

end

end Statistic

end Nperf
