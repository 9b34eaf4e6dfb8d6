import Nperf.Model.ReceiverLoop

namespace Nperf
open Rust

/-- How `poll` and `select` return. -/
inductive WaitResult | ready | timeout | failed
  deriving DecidableEq, Repr

def socketPoll : WaitResult → Except Error Unit
  | .ready => .ok ()
  | .timeout => .error .timeout
  | .failed => .error .pollFailed

def socketSelect : WaitResult → Except Error Unit
  | .ready => .ok ()
  | .timeout => .error .timeout
  | .failed => .error .selectFailed

/-- Only two of the io models wait for the socket. -/
def ioWait (ioModel : IOModel) (result : WaitResult) : Except Error Unit :=
  match ioModel with
  | .select => socketSelect result
  | .poll => socketPoll result
  | .busyWaiting | .ioUring => .ok ()

namespace Receiver

/-- The first interval begins when the sender has finished waiting. -/
def startInterval (clock : Clock) (r : Receiver) : Receiver :=
  { r with statisticInterval := { r.statisticInterval with
      lastSendInstant := clock.instant + waitControlMessageTime
      lastSendTimestamp := clock.unix + waitControlMessageTime } }

/-- The interval check of the socket loop. The statistics start anew, also
when the interval is refused. -/
def closeInterval (build : Build) (clock : Clock) (r : Receiver) (statistic : Statistic) :
    Except Fault (Receiver × Statistic) :=
  if r.statisticInterval.expired clock then do
    let sum ← Statistic.total build statistic (r.measurements.map Measurement.statistic)
    let r := r.resetStatistics clock
    .ok ({ r with statisticInterval := r.statisticInterval.calculateInterval clock sum },
      Statistic.new clock r.parameter)
  else .ok (r, statistic)

/-- Either the measurements or the recorded intervals are added up. -/
def sumStatistics (build : Build) (clock : Clock) (r : Receiver) (statistic : Statistic) :
    Except Fault Statistic :=
  if r.statisticInterval.statistics.isEmpty then do
    let sum ← Statistic.total build statistic (r.measurements.map Measurement.statistic)
    .ok (sum.setTestDuration (some r.statisticInterval.lastSendTimestamp)
      (some (clock.unix - waitControlMessageTime)))
  else Statistic.total build (Statistic.new clock r.parameter) r.statisticInterval.statistics

end Receiver

/-- Where `Receiver::run` is: before its first `poll`, at the interval check,
at the receive call or in `io_wait` of its socket loop, in `io_uring_loop`,
behind either loop, or done. -/
inductive ReceiverRun
  | polling (r : Receiver)
  | looping (r : Receiver) (statistic : Statistic)
  | receiving (r : Receiver) (statistic : Statistic)
  | waiting (r : Receiver) (statistic : Statistic)
  | uring (s : UringLoop)
  | closing (r : Receiver) (statistic : Statistic)
  | returned (r : Receiver) (result : Except Error (Statistic × List Statistic))

/-- The moves of the program with what the kernel and the clock answer.
`setup` is how the creation of the ring ends, `closed` whether the socket can
be closed. -/
inductive ReceiverEvent
  | poll (clock clock' : Clock) (result : WaitResult) (setup : Except Error Unit)
  | check (clock : Clock)
  | receive (clock : Clock) (socket : Receiver.Socket)
  | wait (result : WaitResult)
  | ring (e : UringEvent)
  | finish (clock : Clock) (closed : Bool)

namespace ReceiverRun

/-- `run` up to its loop. -/
def start (clock clock' : Clock) (result : WaitResult) (setup : Except Error Unit)
    (r : Receiver) : ReceiverRun :=
  let statistic := Statistic.new clock r.parameter
  match socketPoll result with
  | .error .timeout => .returned r (.ok (statistic, []))
  | .error e => .returned r (.error e)
  | .ok () =>
    let statistic := { statistic with startTimestamp := r.statisticInterval.lastSendTimestamp }
    let r := r.startInterval clock'
    if r.parameter.ioModel ≠ .ioUring then .looping r statistic
    else if r.parameter.uringParameter.uringMode = .zerocopy then
      .returned r (.error .invalidReceiverMode)
    else match setup with
      | .error e => .returned r (.error e)
      | .ok () => .uring (UringLoop.start clock' r)

/-- The match on the result of `recv_messages`. -/
def received (r : Receiver) (statistic : Statistic) : Except Error Unit → ReceiverRun
  | .ok () => .looping r statistic
  | .error .eagain =>
    .waiting r { statistic with
      amountIoModelCalls := statistic.amountIoModelCalls + 1
      amountEagain := statistic.amountEagain + 1 }
  | .error .initMessageReceived => .looping r statistic
  | .error .lastMessageReceived =>
    if r.allMeasurementsFinished then .closing r statistic else .looping r statistic
  | .error e => .returned r (.error e)

def waited (r : Receiver) (statistic : Statistic) : Except Error Unit → ReceiverRun
  | .ok () => .looping r statistic
  | .error .timeout => .closing r statistic
  | .error e => .returned r (.error e)

/-- `statistic = self.io_uring_loop()?` -/
def looped (s : UringLoop) : ReceiverRun :=
  match s.phase with
  | .returned (.ok ()) => .closing s.receiver s.statistic
  | .returned (.error e) => .returned s.receiver (.error e)
  | _ => .uring s

/-- `run` after its loop. A shared socket stays open. -/
def finish (build : Build) (clock : Clock) (closed : Bool) (r : Receiver) (statistic : Statistic) :
    Except Fault ReceiverRun :=
  if r.parameter.multiplexPortReceiver ≠ .sharing ∧ ¬closed then
    .ok (.returned r (.error .failedToClose))
  else do
    let final ← r.sumStatistics build clock statistic
    .ok (.returned r (.ok (final.setTestDuration none none, r.statisticInterval.statistics)))

def lift : Except Fault ReceiverRun → Except Stop ReceiverRun
  | .ok s => .ok s
  | .error f => .error (.fault f)

def step (build : Build) : ReceiverRun → ReceiverEvent → Except Stop ReceiverRun
  | .polling r, .poll clock clock' result setup => .ok (start clock clock' result setup r)
  | .looping r statistic, .check clock => lift do
    let (r, statistic) ← r.closeInterval build clock
      { statistic with amountSyscalls := statistic.amountSyscalls + 1 }
    .ok (.receiving r statistic)
  | .receiving r statistic, .receive clock socket => lift do
    let (result, r) ← r.recvMessages build clock socket
    .ok (received r statistic result)
  | .waiting r statistic, .wait result =>
    .ok (waited r statistic (ioWait r.parameter.ioModel result))
  | .uring s, .ring e => (s.step build e).map looped
  | .closing r statistic, .finish clock closed => lift (finish build clock closed r statistic)
  | _, _ => .error .disabled

/-- The receiver of a run, wherever it is. -/
def receiver : ReceiverRun → Receiver
  | .polling r => r
  | .looping r _ => r
  | .receiving r _ => r
  | .waiting r _ => r
  | .uring s => s.receiver
  | .closing r _ => r
  | .returned r _ => r

end ReceiverRun
end Nperf
