import Nperf.Model.ReceiverRun
import Nperf.Model.SenderLoop

namespace Nperf
open Rust

namespace Sender

/-- INIT and LAST are sent in a buffer of their own. -/
def sendControlMessage : Except Error Unit → Except Error Unit
  | .ok () => .ok ()
  | .error .econnrefused => .error .startReceiverFirst
  | .error e => .error e

/-- What the kernel answers to a send call: the bytes of one message, or the
length of each message it has accepted. -/
structure Socket where
  message : Except Error Nat
  batch : Except Error (List Nat)

def sendMessages (s : Sender) (socket : Socket) : Except Fault (Except Error Unit × Sender) :=
  match s.exchangeFunction with
  | .normal => s.send socket.message
  | .msg => s.sendmsg socket.message
  | .mmsg => s.sendmmsg socket.batch

/-- `self.statistic.amount_syscalls += 1` -/
def countSyscall (s : Sender) : Sender :=
  { s with statistic := { s.statistic with amountSyscalls := s.statistic.amountSyscalls + 1 } }

/-- The EAGAIN arm of the socket loop before it waits. -/
def countWait (s : Sender) : Sender :=
  { s with statistic := { s.statistic with
      amountIoModelCalls := s.statistic.amountIoModelCalls + 1
      amountEagain := s.statistic.amountEagain + 1 } }

/-- The last interval is recorded as long as the list is not full. -/
def lastInterval (clock : Clock) (s : Sender) : Sender :=
  if s.statisticInterval.outputInterval ≠ 0 ∧ ¬s.statisticInterval.finished then
    { s with statisticInterval := s.statisticInterval.calculateInterval clock s.statistic }
  else s

/-- Either the statistic itself or the sum of the recorded intervals. A sender
only counts events: its counters are followed exactly. -/
def finalStatistic (clock : Clock) (s : Sender) : Except Fault Statistic :=
  if s.statisticInterval.statistics.isEmpty then
    .ok (s.statistic.setTestDuration (some s.statisticInterval.lastSendTimestamp)
      (some clock.unix))
  else Statistic.sum (Statistic.new clock s.parameter) s.statisticInterval.statistics

end Sender

/-- Where `Sender::run` is: before its INIT message, at the head of its socket
loop, at the send call or in `io_wait`, in `io_uring_loop`, behind either loop,
or done. The socket loop has its start time along. -/
inductive SenderRun
  | starting (s : Sender)
  | looping (s : Sender) (startTime : Timestamp)
  | sending (s : Sender) (startTime : Timestamp)
  | waiting (s : Sender) (startTime : Timestamp)
  | uring (l : SenderLoop)
  | closing (s : Sender)
  | returned (s : Sender) (result : Except Error (Statistic × List Statistic))

/-- The moves of the program with what the kernel and the clock answer. `time`
is read by the loop condition; `setup` is how the creation of the ring ends. -/
inductive SenderRunEvent
  | start (clock clock' : Clock) (init : Except Error Unit) (setup : Except Error Unit)
  | check (time clock : Clock)
  | send (socket : Sender.Socket)
  | wait (result : WaitResult)
  | ring (e : SenderEvent)
  | finish (clock : Clock) (last : Except Error Unit)

namespace SenderRun

/-- `run` up to its loop. `clock` is the start time of the measurement. -/
def start (clock clock' : Clock) (init : Except Error Unit) (setup : Except Error Unit)
    (s : Sender) : SenderRun :=
  match Sender.sendControlMessage init with
  | .error e => .returned s (.error e)
  | .ok () =>
    let s := { s with statisticInterval := s.statisticInterval.start clock' none }
    if s.parameter.ioModel ≠ .ioUring then .looping s clock.instant
    else match s.parameter.uringParameter.uringMode, setup with
      | .normal, .ok () | .zerocopy, .ok () => .uring (SenderLoop.start clock' clock.instant s)
      | .normal, .error e | .zerocopy, .error e => .returned s (.error e)
      | _, _ => .returned s (.error .invalidSenderMode)

/-- The match on the result of `send_messages`. -/
def sent (s : Sender) (startTime : Timestamp) : Except Error Unit → SenderRun
  | .ok () => .looping s.countSyscall startTime
  | .error .eagain => .waiting s.countWait startTime
  | .error e => .returned s (.error e)

def waited (s : Sender) (startTime : Timestamp) : Except Error Unit → SenderRun
  | .ok () => .looping s.countSyscall startTime
  | .error e => .returned s (.error e)

/-- `self.io_uring_loop(start_time)?` -/
def looped (l : SenderLoop) : SenderRun :=
  match l.phase with
  | .returned (.ok ()) => .closing l.sender
  | .returned (.error e) => .returned l.sender (.error e)
  | _ => .uring l

/-- `run` after its loop. The result is there before the LAST message is sent. -/
def finish (clock : Clock) (last : Except Error Unit) (s : Sender) : Except Fault SenderRun := do
  let s := s.lastInterval clock
  let final ← s.finalStatistic clock
  match Sender.sendControlMessage last with
  | .error e => .ok (.returned s (.error e))
  | .ok () =>
    .ok (.returned s (.ok (final.setTestDuration none none, s.statisticInterval.statistics)))

def lift : Except Fault SenderRun → Except Stop SenderRun
  | .ok s => .ok s
  | .error f => .error (.fault f)

def step : SenderRun → SenderRunEvent → Except Stop SenderRun
  | .starting s, .start clock clock' init setup => .ok (start clock clock' init setup s)
  | .looping s startTime, .check time clock =>
    if s.running startTime time then .ok (.sending (s.closeInterval clock) startTime)
    else .ok (.closing s)
  | .sending s startTime, .send socket => lift do
    let (result, s) ← s.sendMessages socket
    .ok (sent s startTime result)
  | .waiting s startTime, .wait result =>
    .ok (waited s startTime (ioWait s.parameter.ioModel result))
  | .uring l, .ring e => (l.step e).map looped
  | .closing s, .finish clock last => lift (finish clock last s)
  | _, _ => .error .disabled

/-- The sender of a run, wherever it is. -/
def sender : SenderRun → Sender
  | .starting s => s
  | .looping s _ => s
  | .sending s _ => s
  | .waiting s _ => s
  | .uring l => l.sender
  | .closing s => s
  | .returned s _ => s

end SenderRun
end Nperf
