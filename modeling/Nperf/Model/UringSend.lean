import Nperf.Lib.Queue
import Nperf.Model.Sender
import Nperf.Model.Uring

namespace Nperf
open Rust

def ioringCqeFNotif : Nat := 8
def ioringNotifUsageZcCopied : Int := -2147483648

/-- A pushed SQE. It points at the msghdr of its buffer; `pushed` records what
that msghdr held when the SQE was pushed, and nothing reads it. -/
structure SendRequest where
  buffer : Nat
  userData : Nat
  pushed : Msghdr
  deriving DecidableEq

/-- A completion of a send. The program sees the user data of the request. -/
structure SendCqe where
  request : SendRequest
  result : Int
  flags : Nat

namespace SendCqe

def userData (c : SendCqe) : Nat := c.request.userData

/-- What a completion shows of itself in every ring. -/
def cqe (c : SendCqe) : Cqe :=
  { result := c.result, userData := c.userData, flags := c.flags, delivery := ⟨[], [], 0, 0⟩ }

/-- `flags & IORING_CQE_F_NOTIF != 0` -/
def notif (c : SendCqe) : Bool := c.flags / ioringCqeFNotif % 2 = 1

/-- The completion says that the kernel is done with the buffer. -/
def released (c : SendCqe) : Bool := !checkMultishotStatus c.cqe && c.notif

end SendCqe

/-- The requests by where they are: pushed, taken by the kernel, or sent
without a copy and with the notification outstanding. -/
structure SendRing where
  sqCapacity : Nat
  cqCapacity : Nat
  sq : List SendRequest
  live : List SendRequest
  notifying : List SendRequest
  cq : List SendCqe

namespace SendRing

def create (p : UringParameter) : SendRing :=
  { sqCapacity := p.ringSize
    cqCapacity := p.bufferSize
    sq := []
    live := []
    notifying := []
    cq := [] }

/-- The ring as `calc_sq_fill_mode` sees it. -/
def ring (r : SendRing) : Ring :=
  { sqCapacity := r.sqCapacity
    cqCapacity := r.cqCapacity
    sq := r.sq.map SendRequest.userData
    live := (r.live ++ r.notifying).map SendRequest.userData
    cq := r.cq.map SendCqe.cqe }

def push (r : SendRing) (requests : List SendRequest) : SendRing :=
  { r with sq := r.sq ++ requests }

def take (r : SendRing) (n : Nat) : SendRing :=
  { r with sq := r.sq.drop n, live := r.live ++ r.sq.take n }

/-- A request posts one completion with its result. A zero-copy request may
announce a second one there, the notification. -/
def Posts (zerocopy : Bool) (r : SendRing) (c : SendCqe) : Prop :=
  if c.notif then
    c.request ∈ r.notifying ∧ c.cqe.more = false ∧
      (c.result = 0 ∨ c.result = ioringNotifUsageZcCopied)
  else c.request ∈ r.live ∧ (c.cqe.more → zerocopy)

instance (zerocopy : Bool) (r : SendRing) (c : SendCqe) : Decidable (r.Posts zerocopy c) :=
  inferInstanceAs (Decidable (ite _ _ _))

def post (r : SendRing) (c : SendCqe) : SendRing :=
  if c.notif then { r with notifying := r.notifying.erase c.request, cq := r.cq ++ [c] }
  else
    { r with
      live := r.live.erase c.request
      notifying := if c.cqe.more then r.notifying ++ [c.request] else r.notifying
      cq := r.cq ++ [c] }

end SendRing

namespace IoUringSend

/-- The loop in `submit` from buffer `i` on; `room` pushes succeed. What was
pushed before an error stays in the queue. -/
def pushBuffers (b : PacketBuffer) (nextPacketId : Nat) :
    Nat → Nat → Nat → Except Fault (Except Error Unit × List SendRequest)
  | 0, _, _ => .ok (.ok (), [])
  | requests + 1, room, i => do
    let packetId ← Build.debug.u64 (nextPacketId + i * b.packetsAmountPerMsghdr)
    match b.getMsghdrFromIndex i, room with
    | .error e, _ => .ok (.error e, [])
    | .ok _, 0 => .ok (.ok (), [])
    | .ok h, room + 1 =>
      let (result, rest) ← pushBuffers b nextPacketId requests room (i + 1)
      .ok (result, ⟨i, packetId, h⟩ :: rest)

/-- All buffers that may be pushed are stamped first. -/
def submit (amountRequests room nextPacketId : Nat) (b : PacketBuffer) :
    Except Fault (Except Error Unit × List SendRequest × PacketBuffer) := do
  let (_, b) ← b.addPacketIds nextPacketId (some amountRequests)
  let (result, requests) ← pushBuffers b nextPacketId amountRequests room 0
  .ok (result, requests, b)

/-- `packetId` is the next packet id plus the ids that this call has used. -/
def submitZc : Nat → Nat → Nat → PacketBuffer →
    Except Fault (Except Error Unit × List SendRequest × PacketBuffer)
  | 0, _, _, b => .ok (.ok (), [], b)
  | requests + 1, room, packetId, b =>
    match b.getBufferIndex with
    | .error e => .ok (.error e, [], b)
    | .ok (index, b) => do
      let id ← Build.debug.u64 packetId
      let (stamped, b) ← b.addPacketIdsToMsghdr id index
      match stamped, b.getMsghdrFromIndex index, room with
      | .error e, _, _ => .ok (.error e, [], b)
      | .ok _, .error e, _ => .ok (.error e, [], b)
      -- The push fails: the index has left the pool, and the loop breaks.
      | .ok _, .ok _, 0 => .ok (.ok (), [], b)
      | .ok amountDatagrams, .ok h, room + 1 =>
        let (result, rest, b) ← submitZc requests room (packetId + amountDatagrams) b
        .ok (result, ⟨index, index, h⟩ :: rest, b)

end IoUringSend

namespace Statistic

def countSent (s : Statistic) (datagrams bytes : Nat) : Statistic :=
  { s with
    amountDatagrams := s.amountDatagrams + datagrams
    amountDataBytes := s.amountDataBytes + bytes }

def countOmitted (s : Statistic) (datagrams : Nat) : Statistic :=
  { s with amountOmittedDatagrams := s.amountOmittedDatagrams + datagrams }

def countCopied (s : Statistic) : Statistic := { s with uringCopiedZc := s.uringCopiedZc + 1 }

end Statistic

namespace Sender

/-- One round of `io_uring_complete_send`. -/
def completeSend (amountDatagrams : Nat) (c : SendCqe) :
    Statistic × Nat → Except Error Unit × Statistic × Nat
  | (statistic, completionCount) =>
    if c.result = -11 then (.ok (), statistic.countOmitted amountDatagrams, completionCount)
    else if c.result = -111 then (.error .startReceiverFirst, statistic, completionCount)
    else if c.result < 0 then (.error .failedToReceive, statistic, completionCount)
    else
      (.ok (), statistic.countSent amountDatagrams c.result.toNat, completionCount + 1)

/-- Returns what is left of the completion queue along with the result. -/
def ioUringCompleteSend (s : Sender) (cq : List SendCqe) :
    Except Fault (Except Error Nat × Sender × List SendCqe) := do
  let amountDatagrams := s.packetBuffer.packetsAmountPerMsghdr
  let (result, (statistic, completionCount), rest) ←
    Queue.drain (fun _ c t => .ok (completeSend amountDatagrams c t)) 0 cq (s.statistic, 0)
  .ok (result.map (fun _ => completionCount), { s with statistic := statistic }, rest)

/-- One round of `io_uring_complete_send_zc`; `index_pool` is the local list of
the buffers to give back. -/
def completeSendZc (amountDatagrams : Nat) (c : SendCqe) :
    Statistic × Nat × List Nat → Except Error Unit × Statistic × Nat × List Nat
  | (statistic, completionCount, indexPool) =>
    if c.result = -11 then
      (.ok (), statistic.countOmitted amountDatagrams, completionCount,
        indexPool ++ [c.userData])
    else if c.result = -111 then
      (.error .startReceiverFirst, statistic, completionCount, indexPool)
    else if c.result = ioringNotifUsageZcCopied then
      if c.released then
        (.ok (), statistic.countCopied, completionCount + 1, indexPool ++ [c.userData])
      else (.ok (), statistic, completionCount, indexPool)
    else if c.result < 0 then (.error .failedToReceive, statistic, completionCount, indexPool)
    else if c.result = 0 then
      if c.released then (.ok (), statistic, completionCount + 1, indexPool ++ [c.userData])
      else (.ok (), statistic, completionCount, indexPool)
    else
      (.ok (), statistic.countSent amountDatagrams c.result.toNat, completionCount, indexPool)

def ioUringCompleteSendZc (s : Sender) (cq : List SendCqe) :
    Except Fault (Except Error Nat × Sender × List SendCqe) := do
  let amountDatagrams := s.packetBuffer.packetsAmountPerMsghdr
  let (result, (statistic, completionCount, indexPool), rest) ←
    Queue.drain (fun _ c t => .ok (completeSendZc amountDatagrams c t)) 0 cq (s.statistic, 0, [])
  let s := { s with statistic := statistic }
  match result with
  | .error e => .ok (.error e, s, rest)
  | .ok () =>
    .ok (.ok completionCount,
      { s with packetBuffer := s.packetBuffer.returnBufferIndex indexPool }, rest)

end Sender
end Nperf
