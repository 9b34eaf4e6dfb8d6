import Nperf.Lib.Queue
import Nperf.Model.Receiver

namespace Nperf
open Rust Bytes

/-- A completion. `delivery` is the message it reports: in normal mode the
kernel has put it into the msghdr of the request, otherwise it is in the
provided buffer that the flags name. For a multishot request it is what
`RecvMsgOut` finds behind the header of that buffer. -/
structure Cqe where
  result : Int
  userData : Nat
  flags : Nat
  delivery : Delivery

/-- `IORING_CQE_F_MORE` is bit 1 of the flags. -/
def Cqe.more (c : Cqe) : Bool := c.flags / 2 % 2 = 1

def checkMultishotStatus (c : Cqe) : Bool := c.more

/-- Requests by their user data: pushed but not taken by the kernel, and taken
with a completion outstanding. A completion that finds no room in the CQ stays
in the kernel, so its request counts as not completed. -/
structure Ring where
  sqCapacity : Nat
  cqCapacity : Nat
  sq : List Nat
  live : List Nat
  cq : List Cqe

namespace Ring

def create (p : UringParameter) : Ring :=
  { sqCapacity := p.ringSize, cqCapacity := p.bufferSize, sq := [], live := [], cq := [] }

def push (r : Ring) (requests : List Nat) : Ring := { r with sq := r.sq ++ requests }

def take (r : Ring) (n : Nat) : Ring :=
  { r with sq := r.sq.drop n, live := r.live ++ r.sq.take n }

/-- The requests whose completion the program has not consumed. -/
def outstanding (r : Ring) : List Nat := r.sq ++ r.live ++ r.cq.map Cqe.userData

end Ring

def calcSqFillMode (amountInflight : Nat) (p : UringParameter) (ring : Ring) :
    Except Fault (Nat × Nat) := do
  let limit ← checkedSub p.bufferSize p.burstSize
  if limit < amountInflight then
    if ring.cq.isEmpty then
      .ok (0, if p.burstSize = 0 then p.ringSize / uringBurstSizeDividend else p.burstSize)
    else .ok (0, 0)
  else
    let toSubmit ← match p.sqFillingMode with
      | .syscall => .ok (if amountInflight = 0 then p.burstSize else 0)
      | .topup | .topupNoWait => do
        let sqEntriesLeft ← checkedSub ring.sqCapacity ring.sq.length
        let buffersLeft ← checkedSub p.bufferSize amountInflight
        .ok (if buffersLeft < sqEntriesLeft then buffersLeft else sqEntriesLeft)
    .ok (toSubmit, if p.sqpoll ∨ p.sqFillingMode = .topupNoWait then 0 else p.burstSize)

def parseReceivedBytes (amountReceivedBytes : Int) : Except Error Nat :=
  if amountReceivedBytes = -105 then .ok 0
  else if amountReceivedBytes = -11 then .error .eagain
  else if amountReceivedBytes = -90 then .ok 0
  else if amountReceivedBytes < 0 then .error .failedToReceive
  else .ok 1

/-- How `submit_and_wait` or `submit_with_args` returns. -/
inductive EnterResult | submitted | busy | timeout | failed
  deriving DecidableEq, Repr

/-- The number of CQ overflows seen, 0 or 1. -/
def ioUringEnter : EnterResult → Except Error Nat
  | .submitted => .ok 0
  | .busy => .ok 1
  | .timeout => .ok 0
  | .failed => .error .uringEnter

/-- `IoUringNormal::submit`: `room` pushes succeed, the next one fails and its
buffer goes back. -/
def IoUringNormal.submit : Nat → Nat → PacketBuffer → Except Error (List Nat × PacketBuffer)
  | 0, _, b => .ok ([], b)
  | requests + 1, room, b => do
    let (index, b) ← b.getBufferIndex
    let _ ← b.getMsghdrFromIndex index
    match room with
    | 0 => .ok ([], b.returnBufferIndex [index])
    | room + 1 =>
      let (rest, b) ← IoUringNormal.submit requests room b
      .ok (index :: rest, b)

/-- `IoUringProvidedBuffer::submit`: a request names no buffer, its user data
stays zero. -/
def IoUringProvidedBuffer.submit : Nat → Nat → List Nat
  | 0, _ => []
  | _ + 1, 0 => []
  | requests + 1, room + 1 => 0 :: IoUringProvidedBuffer.submit requests room

/-- `IoUringMultishot::submit` -/
def IoUringMultishot.submit (room : Nat) : Except Error (List Nat) :=
  if room = 0 then .error .uringPush else .ok [0]

/-- The msghdr built around a provided buffer: no control data unless the
mode delivers it. -/
def providedMsghdr (buffer : Memory) (length : Nat) (control : List Cmsg) (controllen : Nat) :
    Msghdr :=
  { iovBase := buffer
    iovLen := length
    msgIovlen := 1
    msgControl := control
    msgControllen := controllen
    msgFlags := 0 }

namespace Receiver

/-- `handle_recvmsg_return`, as the handlers call it for a completion. -/
abbrev HandleReturn :=
  Receiver → Int → Option Msghdr → Nat → Except Fault (Except Error Unit × Receiver)

/-- One round of `io_uring_complete_normal`; `index_pool` is the local list of
the buffers to give back. -/
def completeNormal (handle : HandleReturn) (c : Cqe) :
    Receiver × Nat × List Nat → Except Fault (Except Error Unit × Receiver × Nat × List Nat)
  | (r, completionCount, indexPool) =>
    match parseReceivedBytes c.result with
    | .error e => .ok (.error e, r, completionCount, indexPool)
    | .ok n => do
      let (result, r) ← handle r c.result none c.userData
      match result with
      | .ok () | .error .initMessageReceived =>
        .ok (.ok (), r, completionCount + n, indexPool ++ [c.userData])
      | .error e => .ok (.error e, r, completionCount + n, indexPool)

/-- Returns what is left of the completion queue along with the result. -/
def ioUringCompleteNormal (build : Build) (clock : Nat → Clock) (r : Receiver) (cq : List Cqe) :
    Except Fault (Except Error Nat × Receiver × List Cqe) := do
  let (result, (r, completionCount, indexPool), rest) ←
    Queue.drain (fun i c => completeNormal (handleRecvmsgReturn build (clock i)) c) 0 cq (r, 0, [])
  match result with
  | .error e => .ok (.error e, r, rest)
  | .ok () =>
    .ok (.ok completionCount,
      { r with packetBuffer := r.packetBuffer.returnBufferIndex indexPool }, rest)

def completeProvidedBuffer (handle : HandleReturn) (c : Cqe) :
    Receiver × Nat × Statistic → Except Fault (Except Error Unit × Receiver × Nat × Statistic)
  | (r, completionCount, statistic) =>
    match parseReceivedBytes c.result with
    | .error e => .ok (.error e, r, completionCount, statistic)
    | .ok 0 =>
      .ok (.ok (), r, completionCount + 1,
        { statistic with uringOutOfBuffers := statistic.uringOutOfBuffers + 1 })
    | .ok n => do
      let h := providedMsghdr c.delivery.payload c.result.toNat [] 0
      let (result, r) ← handle r c.result (some h) c.userData
      .ok (result, r, completionCount + n, statistic)

def ioUringCompleteProvidedBuffers (build : Build) (clock : Nat → Clock) (r : Receiver)
    (statistic : Statistic) (cq : List Cqe) :
    Except Fault (Except Error Nat × Receiver × Statistic × List Cqe) := do
  let (result, (r, completionCount, statistic), rest) ←
    Queue.drain (fun i c => completeProvidedBuffer (handleRecvmsgReturn build (clock i)) c) 0 cq
      (r, 0, statistic)
  .ok (result.map (fun _ => completionCount), r, statistic, rest)

/-- A buffer too short for the header and the control data of a message makes
`RecvMsgOut::parse` fail, and the program with it. -/
def completeMultishot (handle : HandleReturn) (c : Cqe) :
    Receiver × Bool → Except Fault (Except Error Unit × Receiver × Bool)
  | (r, multishotArmed) =>
    match parseReceivedBytes c.result with
    | .error e => .ok (.error e, r, multishotArmed)
    | .ok n =>
      let multishotArmed := multishotArmed && checkMultishotStatus c
      if n = 0 then .ok (.ok (), r, multishotArmed)
      else if c.result < uringAdditionalBufferLength then .error .unwrap
      else do
        let length := c.result - uringAdditionalBufferLength
        let h := providedMsghdr c.delivery.payload length.toNat c.delivery.control
          c.delivery.controllen
        let (result, r) ← handle r length (some h) 0
        .ok (result, r, multishotArmed)

def ioUringCompleteMultishot (build : Build) (clock : Nat → Clock) (r : Receiver) (cq : List Cqe) :
    Except Fault (Except Error Bool × Receiver × List Cqe) := do
  let (result, (r, multishotArmed), rest) ←
    Queue.drain (fun i c => completeMultishot (handleRecvmsgReturn build (clock i)) c) 0 cq
      (r, true)
  .ok (result.map (fun _ => multishotArmed), r, rest)

end Receiver
end Nperf
