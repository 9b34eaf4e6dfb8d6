import Nperf.Model.Util

namespace Nperf
open Rust Bytes

structure Sender where
  testId : Nat
  packetBuffer : PacketBuffer
  parameter : Parameter
  statistic : Statistic
  statisticInterval : StatisticInterval
  runTimeLength : Nat
  nextPacketId : Nat
  exchangeFunction : ExchangeFunction

namespace Sender

def createPacketBuffer (parameter : Parameter) (testId : Nat) : Except Fault PacketBuffer := do
  let msghdrVec ← MsghdrVec.new parameter.packetBufferSize parameter.mss parameter.datagramSize
  let msghdrVec ← msghdrVec.withRandomPayload.withMessageHeader testId
  .ok (PacketBuffer.new msghdrVec)

def new (clock : Clock) (testId : Nat) (parameter : Parameter) : Except Fault Sender := do
  let packetBuffer ← createPacketBuffer parameter testId
  .ok { testId := testId
        packetBuffer := packetBuffer
        parameter := parameter
        statistic := Statistic.new clock parameter
        statisticInterval :=
          StatisticInterval.new clock parameter.outputInterval parameter.testRuntimeLength
        runTimeLength := parameter.testRuntimeLength
        nextPacketId := 0
        exchangeFunction := parameter.exchangeFunction }

def count (s : Sender) (datagrams bytes : Nat) : Sender :=
  { s with statistic := { s.statistic with
      amountDatagrams := s.statistic.amountDatagrams + datagrams
      amountDataBytes := s.statistic.amountDataBytes + bytes } }

/-- All msghdrs get fresh ids and the counter moves on, whatever the socket
says afterwards. -/
def stamp (s : Sender) : Except Fault (Nat × Sender) := do
  let (amountDatagrams, packetBuffer) ← s.packetBuffer.addPacketIds s.nextPacketId none
  let nextPacketId ← Build.debug.u64 (s.nextPacketId + amountDatagrams)
  .ok (amountDatagrams, { s with packetBuffer := packetBuffer, nextPacketId := nextPacketId })

/-- The error arms of the three send functions. Only EAGAIN takes the ids of
the call back. -/
def failed (s : Sender) (amountDatagrams : Nat) : Error → Except Fault (Except Error Unit × Sender)
  | .econnrefused => .ok (.error .startReceiverFirst, s)
  | .eagain => do
    let nextPacketId ← checkedSub s.nextPacketId amountDatagrams
    .ok (.error .eagain, { s with nextPacketId := nextPacketId })
  | e => .ok (.error e, s)

/-- `Socket::send` refuses an empty message. The kernel reads as many bytes
as it is told to, whatever the length of the buffer. -/
def socketSend (bufferLength : Nat) (kernel : Except Error Nat) : Except Error Nat :=
  if bufferLength = 0 then .error .bufferIsEmpty else kernel

/-- One datagram is sent, however many packets the buffer holds. -/
def send (s : Sender) (kernel : Except Error Nat) : Except Fault (Except Error Unit × Sender) := do
  let (amountDatagrams, s) ← s.stamp
  match s.packetBuffer.mmsghdrVec[0]? with
  | none => .error .unwrap
  | some m =>
    let _ ← PacketBuffer.getBufferPointer m.msgHdr
    match socketSend s.packetBuffer.datagramSize kernel with
    | .ok amountSendBytes => .ok (.ok (), s.count amountDatagrams amountSendBytes)
    | .error e => s.failed amountDatagrams e

def sendmsg (s : Sender) (kernel : Except Error Nat) :
    Except Fault (Except Error Unit × Sender) := do
  let (amountDatagrams, s) ← s.stamp
  match s.packetBuffer.getMsghdrFromIndex 0 with
  | .error _ => .error .unwrap
  | .ok _ =>
    match kernel with
    | .ok amountSentBytes => .ok (.ok (), s.count amountDatagrams amountSentBytes)
    | .error e => s.failed amountDatagrams e

/-- The kernel notes in every msghdr it accepts how many bytes it took. -/
def sentAll : List Mmsghdr → List Nat → List Mmsghdr
  | m :: ms, n :: ns => { m with msgLen := n } :: sentAll ms ns
  | ms, _ => ms

/-- The kernel accepts msghdrs from the first one on; `kernel` is the length
of each accepted one. -/
def sendmmsg (s : Sender) (kernel : Except Error (List Nat)) :
    Except Fault (Except Error Unit × Sender) := do
  let (amountDatagrams, s) ← s.stamp
  match kernel with
  | .error e => s.failed amountDatagrams e
  | .ok lengths =>
    let mmsghdrVec := sentAll s.packetBuffer.mmsghdrVec lengths
    let s := { s with packetBuffer := { s.packetBuffer with mmsghdrVec := mmsghdrVec } }
    let amountPacketsPerMsghdr := s.packetBuffer.packetsAmountPerMsghdr
    let amountSentMmsghdr := lengths.length
    let s ← if amountSentMmsghdr = mmsghdrVec.length then .ok s
      else do
        let notSent ← checkedSub mmsghdrVec.length amountSentMmsghdr
        let nextPacketId ← checkedSub s.nextPacketId (notSent * amountPacketsPerMsghdr)
        .ok { s with nextPacketId := nextPacketId }
    .ok (.ok (), s.count (amountSentMmsghdr * amountPacketsPerMsghdr)
      (getTotalBytes mmsghdrVec amountSentMmsghdr))

end Sender
end Nperf
