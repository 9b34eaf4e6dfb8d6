import Nperf.Model.CommandParser
import Nperf.Model.Statistic

namespace Nperf
open Rust

/-- What `exec` hands to a thread, apart from what all of them share. -/
structure ThreadPlan where
  receiverPort : Nat
  senderPort : Option Nat
  testId : Nat
  deriving DecidableEq, Repr

namespace NPerf

def threadPlan (args : NPerf) (build : Build) (parameter : Parameter) (i : Nat) :
    Except Fault ThreadPlan := do
  let receiverPort ← if parameter.multiplexPortReceiver ≠ .individual then .ok args.port.toNat
    else build.u16 (args.port.toNat + i : Nat)
  .ok { receiverPort := receiverPort
        senderPort := if parameter.multiplexPort = .sharding then some args.senderPort.toNat
          else none
        testId := if parameter.simulateConnection = .single then 0 else i }

/-- One plan a thread, in the order the threads are started. -/
def threadPlans (args : NPerf) (build : Build) (parameter : Parameter) :
    Except Fault (List ThreadPlan) :=
  (List.range parameter.amountThreads).mapM (args.threadPlan build parameter)

end NPerf

/-- What joining a thread gives. -/
inductive ThreadResult
  | panicked
  | failed
  | finished (statistic : Statistic) (intervals : List Statistic)

def amountIntervalOutputs (parameter : Parameter) : Nat :=
  intervalOutputs parameter.outputInterval parameter.testRuntimeLength

/-- The rows that the intervals of the threads are added to. -/
def emptyRows (clock : Clock) (parameter : Parameter) : List Statistic :=
  (List.replicate (amountIntervalOutputs parameter) (Statistic.new clock parameter)).mapIdx
    fun intervalId row => { row with intervalId := intervalId + 1 }

def mergeInterval (build : Build) (rows : List Statistic) (statistic : Statistic) :
    Except Fault (List Statistic) := do
  let intervalId ← checkedSub statistic.intervalId 1
  match rows[intervalId]? with
  | none => .error .index
  | some row => do
    let sum ← row.add build statistic
    .ok (rows.set intervalId sum)

def mergeThread (build : Build) (parameter : Parameter) (acc : Statistic × List Statistic) :
    ThreadResult → Except Fault (Statistic × List Statistic)
  | .panicked => .ok acc
  | .failed => .ok acc
  | .finished statistic intervals => do
    let final ← acc.1.add build statistic
    if amountIntervalOutputs parameter ≠ 0 then do
      let rows ← intervals.foldlM (mergeInterval build) acc.2
      .ok (final, rows)
    else .ok (final, acc.2)

/-- The summary and the rows of `exec`, from the threads in the order they are
joined. -/
def mergeThreads (build : Build) (clock clock' : Clock) (parameter : Parameter)
    (results : List ThreadResult) : Except Fault (Statistic × List Statistic) :=
  results.foldlM (mergeThread build parameter)
    (Statistic.new clock parameter, emptyRows clock' parameter)

end Nperf
