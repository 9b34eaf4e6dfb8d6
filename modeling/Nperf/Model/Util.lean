import Nperf.Model.PacketBuffer
import Nperf.Model.Statistic

namespace Nperf
open Rust Bytes

/-- Returns by how much the next expected packet id moves on. Packet ids come
off the wire, so the arithmetic is the build's. -/
def processPacketNumber (build : Build) (packetId nextPacketId : Nat) (statistic : Statistic) :
    Except Fault (Nat × Statistic) :=
  if packetId = nextPacketId then .ok (1, statistic)
  else if packetId > nextPacketId then do
    let lostPacketCount := packetId - nextPacketId
    let omitted ← build.i64 (statistic.amountOmittedDatagrams + asI64 lostPacketCount)
    let increment ← build.u64 (lostPacketCount + 1)
    .ok (increment, { statistic with amountOmittedDatagrams := omitted })
  else if statistic.amountOmittedDatagrams > 0 then
    .ok (0, { statistic with
      amountOmittedDatagrams := statistic.amountOmittedDatagrams - 1
      amountReorderedDatagrams := statistic.amountReorderedDatagrams + 1 })
  else
    .ok (0, { statistic with
      amountDuplicatedDatagrams := statistic.amountDuplicatedDatagrams + 1 })

def processPacket (build : Build) (buffer : Slice) (nextPacketId : Nat) (statistic : Statistic) :
    Except Fault (Nat × Statistic) := do
  let packetId ← MessageHeader.getPacketId buffer
  processPacketNumber build packetId nextPacketId statistic

/-- Every chunk is compared with the same `next_packet_id`; the sum of the
increments is returned. -/
def processPacketBuffer (build : Build) (buffer : Slice) (datagramSize nextPacketId : Nat)
    (statistic : Statistic) : Except Fault (Nat × Statistic) := do
  let packets ← buffer.chunks datagramSize
  packets.foldlM (fun (amount, statistic) packet => do
    let (increment, statistic) ← processPacket build packet nextPacketId statistic
    let amount ← build.u64 (amount + increment)
    .ok (amount, statistic)) (0, statistic)

/-- `CMSG_FIRSTHDR` finds nothing in control data shorter than a header. -/
def getGsoSizeFromCmsg (msghdr : Msghdr) : Option Nat :=
  if msghdr.msgControllen < 16 then none
  else (msghdr.msgControl.find? (fun c => c.level == solUdp && c.type == udpGro)).map Cmsg.data

/-- The loop of `process_packet_msghdr`: the next packet id, the number of
packets received so far and the counters. -/
def processPackets (build : Build) :
    List Slice → Nat × Nat × Statistic → Except Fault (Nat × Nat × Statistic)
  | [], acc => .ok acc
  | packet :: packets, (nextPacketId, received, statistic) => do
    let (increment, statistic) ← processPacket build packet nextPacketId statistic
    let nextPacketId ← build.u64 (nextPacketId + increment)
    processPackets build packets (nextPacketId, received + 1, statistic)

/-- Without a segment size from the kernel the whole message is one packet. -/
def singlePacketSize (msghdr : Msghdr) (amountReceivedBytes : Nat) : Nat :=
  (getGsoSizeFromCmsg msghdr).getD (asU32 amountReceivedBytes)

def processPacketMsghdr (build : Build) (msghdr : Msghdr) (amountReceivedBytes nextPacketId : Nat)
    (statistic : Statistic) : Except Fault (Nat × Nat × Statistic) :=
  if msghdr.msgIovlen ≠ 1 then .error .explicit
  else do
    let datagrams ← rawSlice msghdr.iovBase amountReceivedBytes
    let packets ← datagrams.chunks (singlePacketSize msghdr amountReceivedBytes)
    processPackets build packets (nextPacketId, 0, statistic)

/-- The sum is a `u32` in the source; the kernel hands out at most 1024
messages of less than 64 KiB in one call. -/
def getTotalBytes (mmsghdrVec : List Mmsghdr) (amountMsghdr : Nat) : Nat :=
  ((mmsghdrVec.take amountMsghdr).map Mmsghdr.msgLen).sum

end Nperf
