import Nperf.Model.Config

namespace Nperf
open Rust

/-- Seconds in the source, exact nanoseconds here: the system clock counts
nothing finer. -/
abbrev Timestamp := Int

/-- One reading of both clocks, `Instant::now` and the unix timestamp. -/
structure Clock where
  instant : Timestamp
  unix : Timestamp
  deriving DecidableEq, Repr

def nanosPerSecond : Int := 1000000000

/-- `WAIT_CONTROL_MESSAGE as f64 / 1000.0` -/
def waitControlMessageTime : Timestamp := waitControlMessage * 1000000

/-- A utilization array counts how often each length was seen. Its size is
fixed by the ring it belongs to. -/
abbrev Utilization (size : Nat) := Option (Vector Nat (size + 1))

def Utilization.new (recording : Bool) (size : Nat) : Utilization size :=
  if recording then some (Vector.replicate (size + 1) 0) else none

/-- `if let Some(ref mut array) = ... { array[index] += 1 }` -/
def Utilization.record {size : Nat} (u : Utilization size) (index : Nat) :
    Except Fault (Utilization size) :=
  match u with
  | none => .ok none
  | some array =>
    if h : index < size + 1 then .ok (some (array.set index (array[index] + 1)))
    else .error .cell

/-- The sum of two arrays, however large the cells get. -/
def Utilization.plus {size : Nat} (recording : Bool) (u v : Utilization size) :
    Except Fault (Utilization size) :=
  if recording then
    match u, v with
    | some a, some b => .ok (some (Vector.zipWith (· + ·) a b))
    | _, _ => .error .unwrap
  else .ok none

/-- The sum of two arrays is built only while recording, and unwraps both. The
cells are `usize`. -/
def Utilization.add {size : Nat} (build : Build) (recording : Bool) (u v : Utilization size) :
    Except Fault (Utilization size) :=
  if recording then
    match u, v with
    | some a, some b =>
      ((Vector.zipWith (· + ·) a b).mapM fun cell : Nat => build.u64 cell).map some
    | _, _ => .error .unwrap
  else .ok none

/-- The counters of one test or thread. The rates that `calculate_statistics`
derives and the CPU times are printed only and left out. -/
structure Statistic where
  parameter : Parameter
  startTimestamp : Timestamp
  endTimestamp : Timestamp
  testDuration : Timestamp
  intervalId : Nat
  amountDatagrams : Nat
  amountDataBytes : Nat
  amountReorderedDatagrams : Nat
  amountDuplicatedDatagrams : Nat
  amountOmittedDatagrams : Int
  amountSyscalls : Nat
  amountIoModelCalls : Nat
  amountEagain : Nat
  uringCqOverflows : Nat
  uringOutOfBuffers : Nat
  uringCopiedZc : Nat
  uringCanceledMultishot : Nat
  uringSqUtilization : Utilization uringMaxRingSize
  uringCqUtilization : Utilization (uringMaxRingSize * 2)
  uringInflightUtilization : Utilization (uringMaxRingSize * uringBufferSizeMultiplicator)

namespace Statistic

def new (clock : Clock) (parameter : Parameter) : Statistic :=
  let recording := parameter.uringParameter.recordUtilization
  { parameter := parameter
    startTimestamp := clock.unix
    endTimestamp := 0
    testDuration := 0
    intervalId := 0
    amountDatagrams := 0
    amountDataBytes := 0
    amountReorderedDatagrams := 0
    amountDuplicatedDatagrams := 0
    amountOmittedDatagrams := 0
    amountSyscalls := 0
    amountIoModelCalls := 0
    amountEagain := 0
    uringCqOverflows := 0
    uringOutOfBuffers := 0
    uringCopiedZc := 0
    uringCanceledMultishot := 0
    uringSqUtilization := .new recording _
    uringCqUtilization := .new recording _
    uringInflightUtilization := .new recording _ }

def setStartTimestamp (s : Statistic) (clock : Clock) (startTime : Option Timestamp) : Statistic :=
  { s with startTimestamp := startTime.getD clock.unix }

def setEndTimestamp (s : Statistic) (clock : Clock) : Statistic :=
  { s with endTimestamp := clock.unix }

def setTestDuration (s : Statistic) (startTime endTime : Option Timestamp) : Statistic :=
  let start := startTime.getD s.startTimestamp
  let stop := endTime.getD s.endTimestamp
  { s with startTimestamp := start, endTimestamp := stop, testDuration := stop - start }

/-- `impl Add for Statistic`: counters add up, the time span is the hull. -/
def add (build : Build) (self other : Statistic) : Except Fault Statistic := do
  let recording := self.parameter.uringParameter.recordUtilization
  let sq ← Utilization.add build recording self.uringSqUtilization other.uringSqUtilization
  let cq ← Utilization.add build recording self.uringCqUtilization other.uringCqUtilization
  let inflight ← Utilization.add build recording self.uringInflightUtilization
    other.uringInflightUtilization
  let amountDatagrams ← build.u64 (self.amountDatagrams + other.amountDatagrams : Nat)
  let amountDataBytes ← build.u64 (self.amountDataBytes + other.amountDataBytes : Nat)
  let amountReorderedDatagrams ←
    build.u64 (self.amountReorderedDatagrams + other.amountReorderedDatagrams : Nat)
  let amountDuplicatedDatagrams ←
    build.u64 (self.amountDuplicatedDatagrams + other.amountDuplicatedDatagrams : Nat)
  let amountOmittedDatagrams ←
    build.i64 (self.amountOmittedDatagrams + other.amountOmittedDatagrams)
  let amountSyscalls ← build.u64 (self.amountSyscalls + other.amountSyscalls : Nat)
  let amountIoModelCalls ← build.u64 (self.amountIoModelCalls + other.amountIoModelCalls : Nat)
  let amountEagain ← build.u64 (self.amountEagain + other.amountEagain : Nat)
  let uringCqOverflows ← build.u64 (self.uringCqOverflows + other.uringCqOverflows : Nat)
  let uringOutOfBuffers ← build.u64 (self.uringOutOfBuffers + other.uringOutOfBuffers : Nat)
  let uringCopiedZc ← build.u64 (self.uringCopiedZc + other.uringCopiedZc : Nat)
  let uringCanceledMultishot ←
    build.u64 (self.uringCanceledMultishot + other.uringCanceledMultishot : Nat)
  .ok { parameter := self.parameter
        startTimestamp := min self.startTimestamp other.startTimestamp
        endTimestamp := max self.endTimestamp other.endTimestamp
        testDuration := max self.testDuration other.testDuration
        intervalId := max self.intervalId other.intervalId
        amountDatagrams := amountDatagrams
        amountDataBytes := amountDataBytes
        amountReorderedDatagrams := amountReorderedDatagrams
        amountDuplicatedDatagrams := amountDuplicatedDatagrams
        amountOmittedDatagrams := amountOmittedDatagrams
        amountSyscalls := amountSyscalls
        amountIoModelCalls := amountIoModelCalls
        amountEagain := amountEagain
        uringCqOverflows := uringCqOverflows
        uringOutOfBuffers := uringOutOfBuffers
        uringCopiedZc := uringCopiedZc
        uringCanceledMultishot := uringCanceledMultishot
        uringSqUtilization := sq
        uringCqUtilization := cq
        uringInflightUtilization := inflight }

/-- `iter().fold(first, |acc, s| acc + s)` -/
def fold (build : Build) (first : Statistic) (rest : List Statistic) : Except Fault Statistic :=
  rest.foldlM (add build) first

/-- `add` with counters that have no bound. -/
def plus (self other : Statistic) : Except Fault Statistic := do
  let recording := self.parameter.uringParameter.recordUtilization
  let sq ← Utilization.plus recording self.uringSqUtilization other.uringSqUtilization
  let cq ← Utilization.plus recording self.uringCqUtilization other.uringCqUtilization
  let inflight ← Utilization.plus recording self.uringInflightUtilization
    other.uringInflightUtilization
  .ok { parameter := self.parameter
        startTimestamp := min self.startTimestamp other.startTimestamp
        endTimestamp := max self.endTimestamp other.endTimestamp
        testDuration := max self.testDuration other.testDuration
        intervalId := max self.intervalId other.intervalId
        amountDatagrams := self.amountDatagrams + other.amountDatagrams
        amountDataBytes := self.amountDataBytes + other.amountDataBytes
        amountReorderedDatagrams := self.amountReorderedDatagrams + other.amountReorderedDatagrams
        amountDuplicatedDatagrams :=
          self.amountDuplicatedDatagrams + other.amountDuplicatedDatagrams
        amountOmittedDatagrams := self.amountOmittedDatagrams + other.amountOmittedDatagrams
        amountSyscalls := self.amountSyscalls + other.amountSyscalls
        amountIoModelCalls := self.amountIoModelCalls + other.amountIoModelCalls
        amountEagain := self.amountEagain + other.amountEagain
        uringCqOverflows := self.uringCqOverflows + other.uringCqOverflows
        uringOutOfBuffers := self.uringOutOfBuffers + other.uringOutOfBuffers
        uringCopiedZc := self.uringCopiedZc + other.uringCopiedZc
        uringCanceledMultishot := self.uringCanceledMultishot + other.uringCanceledMultishot
        uringSqUtilization := sq
        uringCqUtilization := cq
        uringInflightUtilization := inflight }

def sum (first : Statistic) (rest : List Statistic) : Except Fault Statistic :=
  rest.foldlM plus first

/-- How a receiver adds up its own statistics. With overflow checks a counter
that leaves its type ends the thread. Without them the omitted packets wrap, the
other counters are followed exactly, as where they are counted. -/
def accumulate (build : Build) (self other : Statistic) : Except Fault Statistic :=
  match build with
  | .debug => self.add build other
  | .release => do
    let sum ← self.plus other
    let omitted ← build.i64 sum.amountOmittedDatagrams
    .ok { sum with amountOmittedDatagrams := omitted }

def total (build : Build) (first : Statistic) (rest : List Statistic) : Except Fault Statistic :=
  rest.foldlM (accumulate build) first

end Statistic

structure Measurement where
  startTime : Timestamp
  endTime : Timestamp
  statistic : Statistic
  firstPacketReceived : Bool
  lastPacketReceived : Bool

def Measurement.new (clock : Clock) (parameter : Parameter) : Measurement :=
  { startTime := clock.unix
    endTime := clock.unix
    statistic := Statistic.new clock parameter
    firstPacketReceived := false
    lastPacketReceived := false }

structure StatisticInterval where
  intervalId : Nat
  outputInterval : Rat
  lastSendInstant : Timestamp
  lastSendTimestamp : Timestamp
  totalIntervalOutputs : Nat
  amountIntervalOutputs : Nat
  statistics : List Statistic

/-- The number of intervals that fit into the running time, as both the nodes
and the main thread calculate it. -/
def intervalOutputs (outputInterval : Rat) (runtimeLength : Nat) : Nat :=
  if outputInterval = 0 then 0
  else F64.asU64 (F64.div (F64.ofRat runtimeLength) outputInterval).floor

/-- Intervals of whole seconds that divide the running time fill it. -/
theorem intervalOutputs_of_dvd {interval time : Nat} (hpos : 0 < interval) (hdvd : interval ∣ time)
    (htime : time < 2 ^ 53) : intervalOutputs interval time = time / interval := by
  obtain ⟨k, rfl⟩ := hdvd
  have hk : k < 2 ^ 53 := Nat.lt_of_le_of_lt (Nat.le_mul_of_pos_left k hpos) htime
  have hinterval : (interval : Rat) ≠ 0 := Nat.cast_ne_zero.mpr (Nat.ne_of_gt hpos)
  have hquotient : ((interval * k : Nat) : Rat) / interval = k := by
    rw [Nat.cast_mul, mul_div_cancel_left₀ _ hinterval]
  have hfloor : (k : Rat).floor = k := by exact_mod_cast Rat.floor_intCast k
  rw [intervalOutputs, if_neg hinterval, F64.ofRat_natCast htime, F64.div, hquotient,
    F64.ofRat_natCast hk, hfloor, F64.asU64_natCast (by omega), Nat.mul_div_cancel_left k hpos]

/-- Others need not: 33 / 1.1 is less than 30 in an `f64`. -/
example : intervalOutputs (F64.ofRat (11 / 10)) 33 = 29 := by decide +kernel

/-- `Duration::as_secs_f64` of so many nanoseconds. -/
def asSecsF64 (nanos : Nat) : Rat :=
  F64.add (F64.ofRat (nanos / 1000000000 : Nat)) (F64.div (nanos % 1000000000 : Nat) 1000000000)

namespace StatisticInterval

def new (clock : Clock) (outputInterval : Rat) (runtimeLength : Nat) : StatisticInterval :=
  { intervalId := 1
    outputInterval := outputInterval
    lastSendInstant := clock.instant
    lastSendTimestamp := clock.unix
    totalIntervalOutputs := intervalOutputs outputInterval runtimeLength
    amountIntervalOutputs := 0
    statistics := [] }

/-- The offset is in milliseconds, but added to the timestamp as seconds. -/
def start (s : StatisticInterval) (clock : Clock) (offsetInMilliseconds : Option Nat) :
    StatisticInterval :=
  let offset : Int := offsetInMilliseconds.getD 0
  { s with
    lastSendInstant := clock.instant + offset * 1000000
    lastSendTimestamp := clock.unix + offset * nanosPerSecond }

/-- The test the loops make before they close an interval. `elapsed` of an
instant in the future is zero. -/
def expired (s : StatisticInterval) (clock : Clock) : Bool :=
  s.outputInterval ≠ 0 ∧
    s.outputInterval ≤ asSecsF64 (clock.instant - s.lastSendInstant).toNat

def finished (s : StatisticInterval) : Bool :=
  s.totalIntervalOutputs ≤ s.amountIntervalOutputs

def calculateInterval (s : StatisticInterval) (clock : Clock) (statisticNew : Statistic) :
    StatisticInterval :=
  if s.totalIntervalOutputs ≤ s.amountIntervalOutputs then
    { s with lastSendInstant := clock.instant }
  else
    let closed := { statisticNew with intervalId := s.intervalId }.setTestDuration
      (some s.lastSendTimestamp) (some clock.unix)
    { s with
      lastSendInstant := clock.instant
      lastSendTimestamp := clock.unix
      amountIntervalOutputs := s.amountIntervalOutputs + 1
      intervalId := s.intervalId + 1
      statistics := s.statistics ++ [closed] }

end StatisticInterval
end Nperf
