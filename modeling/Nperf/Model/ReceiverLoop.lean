import Nperf.Lib.Runs
import Nperf.Model.Uring

namespace Nperf
open Rust Bytes

namespace Statistic

def recordSq (s : Statistic) (length : Nat) : Except Fault Statistic := do
  let array ← s.uringSqUtilization.record length
  .ok { s with uringSqUtilization := array }

def recordCq (s : Statistic) (length : Nat) : Except Fault Statistic := do
  let array ← s.uringCqUtilization.record length
  .ok { s with uringCqUtilization := array }

def recordInflight (s : Statistic) (amountInflight : Nat) : Except Fault Statistic := do
  let array ← s.uringInflightUtilization.record amountInflight
  .ok { s with uringInflightUtilization := array }

def countIoModelCall (s : Statistic) : Statistic :=
  { s with amountIoModelCalls := s.amountIoModelCalls + 1 }

end Statistic

/-- Where the loop is: before `fill_sq_and_submit`, inside of it with the
requests pushed, before the completion handler, or done. -/
inductive Phase
  | fill
  | enter (amountNewRequests : Nat)
  | complete
  | returned (result : Except Error Unit)
  deriving DecidableEq

/-- The state of `Receiver::io_uring_loop` and its ring; `ringStatistic` is the
statistic of the `io_uring_instance`. Multishot mode keeps `armed`, the other
modes keep `amountInflight`. -/
structure UringLoop where
  receiver : Receiver
  statistic : Statistic
  ringStatistic : Statistic
  ring : Ring
  amountInflight : Nat
  armed : Bool
  phase : Phase

/-- What drives the loop: its own next move with what the kernel and the clock
answer, or the kernel. `room` is the number of pushes that succeed. -/
inductive UringEvent
  | fill (clock : Clock) (room : Nat)
  | take (n : Nat)
  | post (c : Cqe)
  | enter (result : EnterResult) (clock : Clock)
  | complete (clock : Nat → Clock)

/-- Why an event did not lead to a next state. -/
inductive Stop
  | disabled
  | fault (f : Fault)
  deriving DecidableEq, Repr

namespace UringLoop

def uring (s : UringLoop) : UringParameter := s.receiver.parameter.uringParameter

def start (clock : Clock) (r : Receiver) : UringLoop :=
  { receiver := r
    statistic := Statistic.new clock r.parameter
    ringStatistic := Statistic.new clock r.parameter
    ring := Ring.create r.parameter.uringParameter
    amountInflight := 0
    armed := false
    phase := .fill }

/-- The interval check of the loop. -/
def closeInterval (build : Build) (clock : Clock) (s : UringLoop) : Except Fault UringLoop :=
  if s.receiver.statisticInterval.expired clock then do
    let sum ← Statistic.total build s.statistic (s.receiver.measurements.map Measurement.statistic)
    let sum ← sum.accumulate build s.ringStatistic
    let r := s.receiver.resetStatistics clock
    .ok { s with
      receiver := { r with statisticInterval := r.statisticInterval.calculateInterval clock sum }
      statistic := Statistic.new clock r.parameter
      ringStatistic := Statistic.new clock r.parameter }
  else .ok s

/-- The SQ length is recorded after pushing and before `io_uring_enter`. -/
def pushed (s : UringLoop) (requests : List Nat) : Except Fault UringLoop := do
  let ring := s.ring.push requests
  let ringStatistic ← s.ringStatistic.recordSq ring.sq.length
  .ok { s with
    ring := ring, ringStatistic := ringStatistic, phase := .enter requests.length }

def fillNormal (room toSubmit : Nat) (s : UringLoop) : Except Fault UringLoop :=
  match IoUringNormal.submit toSubmit room s.receiver.packetBuffer with
  | .error e => .ok { s with phase := .returned (.error e) }
  | .ok (requests, packetBuffer) =>
    { s with receiver := { s.receiver with packetBuffer := packetBuffer } }.pushed requests

/-- The loop body up to and with the calculation of `fill_sq_and_submit`, in
the modes that count requests; `submit` is that of the mode. -/
def fillCounted (build : Build) (clock : Clock) (submit : Nat → UringLoop → Except Fault UringLoop)
    (inflight : UringLoop → Nat) (s : UringLoop) : Except Fault UringLoop := do
  let statistic ← s.statistic.recordInflight s.amountInflight
  let s ← { s with statistic := statistic.countIoModelCall }.closeInterval build clock
  let (toSubmit, minComplete) ← calcSqFillMode (inflight s) s.uring s.ring
  if toSubmit = 0 ∧ minComplete = 0 then .ok { s with phase := .complete }
  else submit toSubmit s

/-- An armed loop pushes nothing and records nothing. -/
def fillMultishot (room : Nat) (s : UringLoop) : Except Fault UringLoop :=
  let s := { s with statistic := s.statistic.countIoModelCall }
  if s.armed then .ok { s with phase := .enter 0 }
  else match IoUringMultishot.submit room with
    | .error e => .ok { s with phase := .returned (.error e) }
    | .ok requests => s.pushed requests

def fill (build : Build) (clock : Clock) (room : Nat) (s : UringLoop) : Except Fault UringLoop :=
  match s.uring.uringMode with
  | .multishot => s.fillMultishot room
  | .providedBuffer =>
    s.fillCounted build clock
      (fun toSubmit s => s.pushed (IoUringProvidedBuffer.submit toSubmit room))
      UringLoop.amountInflight
  | .normal =>
    s.fillCounted build clock (fun toSubmit s => s.fillNormal room toSubmit)
      (fun s => s.receiver.packetBuffer.getPoolInflight)
  | .zerocopy => .ok { s with phase := .returned (.error .invalidReceiverMode) }

/-- The end of `fill_sq_and_submit`. In multishot mode the interval check
comes after it. -/
def enter (build : Build) (result : EnterResult) (clock : Clock) (amountNewRequests : Nat)
    (s : UringLoop) : Except Fault UringLoop :=
  match ioUringEnter result with
  | .error e => .ok { s with phase := .returned (.error e) }
  | .ok overflows => do
    let ringStatistic ← { s.ringStatistic with
      uringCqOverflows := s.ringStatistic.uringCqOverflows + overflows }.recordCq s.ring.cq.length
    let s := { s with ringStatistic := ringStatistic, phase := .complete }
    if s.uring.uringMode = .multishot then s.closeInterval build clock
    else .ok { s with amountInflight := s.amountInflight + amountNewRequests }

/-- The error arms of the match on the completion handler, the same in all
three loops. -/
def interrupted (build : Build) (e : Error) (s : UringLoop) : Except Fault UringLoop :=
  match e with
  | .initMessageReceived => .ok { s with phase := .fill }
  | .lastMessageReceived =>
    if s.receiver.allMeasurementsFinished then do
      let statistic ← s.statistic.accumulate build s.ringStatistic
      .ok { s with statistic := statistic, phase := .returned (.ok ()) }
    else .ok { s with phase := .fill }
  | .eagain =>
    .ok { s with
      statistic := { s.statistic with amountEagain := s.statistic.amountEagain + 1 }
      phase := .fill }
  | e => .ok { s with phase := .returned (.error e) }

/-- The `Ok` arm of the loops that count requests. -/
def reaped (completed : Nat) (s : UringLoop) : Except Fault UringLoop := do
  let amountInflight ← checkedSub s.amountInflight completed
  .ok { s with amountInflight := amountInflight, phase := .fill }

/-- The `Ok` arm of the multishot loop. -/
def rearmed (multishotArmed : Bool) (s : UringLoop) : UringLoop :=
  { s with
    statistic := if multishotArmed then s.statistic
      else { s.statistic with uringCanceledMultishot := s.statistic.uringCanceledMultishot + 1 }
    armed := multishotArmed
    phase := .fill }

def complete (build : Build) (clock : Nat → Clock) (s : UringLoop) : Except Fault UringLoop :=
  match s.uring.uringMode with
  | .multishot => do
    let (result, r, cq) ← s.receiver.ioUringCompleteMultishot build clock s.ring.cq
    let s := { s with receiver := r, ring := { s.ring with cq := cq } }
    match result with
    | .ok multishotArmed => .ok (s.rearmed multishotArmed)
    | .error e => s.interrupted build e
  | .providedBuffer => do
    let (result, r, statistic, cq) ←
      s.receiver.ioUringCompleteProvidedBuffers build clock s.statistic s.ring.cq
    let s := { s with receiver := r, statistic := statistic, ring := { s.ring with cq := cq } }
    match result with
    | .ok completed => s.reaped completed
    | .error e => s.interrupted build e
  | .normal => do
    let (result, r, cq) ← s.receiver.ioUringCompleteNormal build clock s.ring.cq
    let s := { s with receiver := r, ring := { s.ring with cq := cq } }
    match result with
    | .ok completed => s.reaped completed
    | .error e => s.interrupted build e
  | .zerocopy => .ok { s with phase := .returned (.error .invalidReceiverMode) }

/-- The kernel completes a request. In normal mode the message goes into the
msghdr of the request; only a multishot request stays live, as long as its
completions say so. -/
def post (c : Cqe) (s : UringLoop) : UringLoop :=
  let packetBuffer := s.receiver.packetBuffer
  let packetBuffer := if s.uring.uringMode = .normal ∧ 0 ≤ c.result then
      match packetBuffer.getMsghdrFromIndex c.userData with
      | .ok h => packetBuffer.setMsghdr c.userData (h.deliver c.delivery)
      | .error _ => packetBuffer
    else packetBuffer
  { s with
    receiver := { s.receiver with packetBuffer := packetBuffer }
    ring := { s.ring with
      live := if s.uring.uringMode = .multishot ∧ c.more then s.ring.live
        else s.ring.live.erase c.userData
      cq := s.ring.cq ++ [c] } }

def lift : Except Fault UringLoop → Except Stop UringLoop
  | .ok s => .ok s
  | .error f => .error (.fault f)

/-- One event. The kernel takes and completes requests at any time; the loop
makes its moves in turn. -/
def step (build : Build) (s : UringLoop) : UringEvent → Except Stop UringLoop
  | .fill clock room =>
    match s.phase with
    | .fill =>
      if s.ring.sq.length + room ≤ s.ring.sqCapacity then lift (s.fill build clock room)
      else .error .disabled
    | _ => .error .disabled
  | .take n =>
    if n ≤ s.ring.sq.length then .ok { s with ring := s.ring.take n } else .error .disabled
  | .post c =>
    if c.userData ∈ s.ring.live ∧ s.ring.cq.length < s.ring.cqCapacity then .ok (s.post c)
    else .error .disabled
  | .enter result clock =>
    match s.phase with
    | .enter amountNewRequests => lift (s.enter build result clock amountNewRequests)
    | _ => .error .disabled
  | .complete clock =>
    match s.phase with
    | .complete => lift (s.complete build clock)
    | _ => .error .disabled

end UringLoop
end Nperf
