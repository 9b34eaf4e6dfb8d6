import Nperf.Model.ReceiverLoop
import Nperf.Model.UringSend

namespace Nperf
open Rust

/-- `start.elapsed().as_secs()` -/
def elapsedSecs (start : Timestamp) (clock : Clock) : Nat :=
  ((clock.instant - start) / nanosPerSecond).toNat

namespace Sender

/-- The interval check that both loops of the sender make. The statistic starts
anew, also when the interval is refused. -/
def closeInterval (clock : Clock) (s : Sender) : Sender :=
  if s.statisticInterval.expired clock then
    { s with
      statisticInterval := s.statisticInterval.calculateInterval clock s.statistic
      statistic := Statistic.new clock s.parameter }
  else s

/-- The test of both loops on the running time. -/
def running (startTime : Timestamp) (clock : Clock) (s : Sender) : Bool :=
  elapsedSecs startTime clock < s.runTimeLength

end Sender

/-- The state of `Sender::io_uring_loop` and its ring. `pushed` has all
requests pushed so far and `closed` all statistics that were replaced; the loop
only adds to them. -/
structure SenderLoop where
  sender : Sender
  ringStatistic : Statistic
  ring : SendRing
  amountInflight : Nat
  startTime : Timestamp
  phase : Phase
  pushed : List SendRequest
  closed : List Statistic

/-- What drives the loop. `time` is read by the loop condition and `clock` by
the interval check; `room` is the number of pushes that succeed. -/
inductive SenderEvent
  | fill (time clock : Clock) (room : Nat)
  | take (n : Nat)
  | post (c : SendCqe)
  | enter (result : EnterResult)
  | complete

namespace SenderLoop

def uring (s : SenderLoop) : UringParameter := s.sender.parameter.uringParameter

def zerocopy (s : SenderLoop) : Bool := s.uring.uringMode = .zerocopy

def start (clock : Clock) (startTime : Timestamp) (s : Sender) : SenderLoop :=
  { sender := s
    ringStatistic := Statistic.new clock s.parameter
    ring := SendRing.create s.parameter.uringParameter
    amountInflight := 0
    startTime := startTime
    phase := .fill
    pushed := []
    closed := [] }

def closeInterval (clock : Clock) (s : SenderLoop) : SenderLoop :=
  { s with
    sender := s.sender.closeInterval clock
    closed := if s.sender.statisticInterval.expired clock then s.closed ++ [s.sender.statistic]
      else s.closed }

/-- The `submit` of the mode. -/
def submitRequests (toSubmit room : Nat) (s : SenderLoop) :
    Except Fault (Except Error Unit × List SendRequest × PacketBuffer) :=
  if s.zerocopy then
    IoUringSend.submitZc toSubmit room s.sender.nextPacketId s.sender.packetBuffer
  else IoUringSend.submit toSubmit room s.sender.nextPacketId s.sender.packetBuffer

/-- `fill_sq_and_submit` up to `io_uring_enter`. It is given the number of
buffers that are not in the pool. -/
def submit (room : Nat) (s : SenderLoop) : Except Fault SenderLoop := do
  let inflight := asU32 s.sender.packetBuffer.getPoolInflight
  let (toSubmit, minComplete) ← calcSqFillMode inflight s.uring s.ring.ring
  if toSubmit = 0 ∧ minComplete = 0 then .ok { s with phase := .complete }
  else
    let (result, requests, b) ← s.submitRequests toSubmit room
    let s := { s with
      sender := { s.sender with packetBuffer := b }
      ring := s.ring.push requests
      pushed := s.pushed ++ requests }
    match result with
    | .error e => .ok { s with phase := .returned (.error e) }
    | .ok () =>
      let ringStatistic ← s.ringStatistic.recordSq s.ring.sq.length
      .ok { s with ringStatistic := ringStatistic, phase := .enter requests.length }

/-- The loop body up to `io_uring_enter`. -/
def fill (time clock : Clock) (room : Nat) (s : SenderLoop) : Except Fault SenderLoop :=
  match s.uring.uringMode with
  | .normal | .zerocopy =>
    if s.sender.running s.startTime time then do
      let statistic ← s.sender.statistic.recordInflight s.amountInflight
      let s := { s with sender := { s.sender with statistic := statistic.countIoModelCall } }
      (s.closeInterval clock).submit room
    else .ok { s with phase := .returned (.ok ()) }
  | _ => .ok { s with phase := .returned (.error .invalidSenderMode) }

/-- The end of `fill_sq_and_submit`, and the counting of what it has pushed. -/
def enter (result : EnterResult) (submitted : Nat) (s : SenderLoop) :
    Except Fault SenderLoop :=
  match ioUringEnter result with
  | .error e => .ok { s with phase := .returned (.error e) }
  | .ok overflows => do
    let ringStatistic ← { s.ringStatistic with
      uringCqOverflows := s.ringStatistic.uringCqOverflows + overflows }.recordCq s.ring.cq.length
    let nextPacketId ← Build.debug.u64
      (s.sender.nextPacketId + submitted * s.sender.packetBuffer.packetsAmountPerMsghdr)
    .ok { s with
      sender := { s.sender with nextPacketId := nextPacketId }
      ringStatistic := ringStatistic
      amountInflight := s.amountInflight + submitted
      phase := .complete }

/-- The completion handler of the mode. -/
def handleCompletions (s : SenderLoop) :
    Except Fault (Except Error Nat × Sender × List SendCqe) :=
  if s.zerocopy then s.sender.ioUringCompleteSendZc s.ring.cq
  else s.sender.ioUringCompleteSend s.ring.cq

def complete (s : SenderLoop) : Except Fault SenderLoop := do
  let (result, sender, cq) ← s.handleCompletions
  let s := { s with sender := sender, ring := { s.ring with cq := cq } }
  match result with
  | .ok completed => do
    let amountInflight ← checkedSub s.amountInflight completed
    .ok { s with amountInflight := amountInflight, phase := .fill }
  | .error .eagain =>
    .ok { s with
      sender := { s.sender with statistic := { s.sender.statistic with
        amountEagain := s.sender.statistic.amountEagain + 1 } }
      phase := .fill }
  | .error e => .ok { s with phase := .returned (.error e) }

def lift : Except Fault SenderLoop → Except Stop SenderLoop
  | .ok s => .ok s
  | .error f => .error (.fault f)

/-- One event. The kernel takes and completes requests at any time; the loop
makes its moves in turn. -/
def step (s : SenderLoop) : SenderEvent → Except Stop SenderLoop
  | .fill time clock room =>
    match s.phase with
    | .fill =>
      if s.ring.sq.length + room ≤ s.ring.sqCapacity then lift (s.fill time clock room)
      else .error .disabled
    | _ => .error .disabled
  | .take n =>
    if n ≤ s.ring.sq.length then .ok { s with ring := s.ring.take n } else .error .disabled
  | .post c =>
    if s.ring.Posts s.zerocopy c ∧ s.ring.cq.length < s.ring.cqCapacity then
      .ok { s with ring := s.ring.post c }
    else .error .disabled
  | .enter result =>
    match s.phase with
    | .enter submitted => lift (s.enter result submitted)
    | _ => .error .disabled
  | .complete =>
    match s.phase with
    | .complete => lift s.complete
    | _ => .error .disabled

end SenderLoop
end Nperf
