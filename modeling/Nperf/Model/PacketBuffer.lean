import Nperf.Model.Net

namespace Nperf
open Rust Bytes

/-- One control message of a received msghdr. -/
structure Cmsg where
  level : Nat
  type : Nat
  data : Nat
  deriving DecidableEq, Repr

def solUdp : Nat := 17
def udpGro : Nat := 104

/-- A `libc::msghdr` and what its pointers reach: the memory from `iov_base`
to the end of that allocation, and the control messages in `msg_control`. -/
structure Msghdr where
  iovBase : Memory
  iovLen : Nat
  msgIovlen : Nat
  msgControl : List Cmsg
  msgControllen : Nat
  msgFlags : Nat
  deriving DecidableEq, Repr

structure Mmsghdr where
  msgHdr : Msghdr
  msgLen : Nat
  deriving DecidableEq, Repr

structure WrapperMsghdr where
  msghdr : Msghdr
  bufferLength : Nat
  withCmsg : Bool
  datagramSize : Nat
  packetsAmount : Nat

namespace WrapperMsghdr

def createMsghdr (buffer : Memory) : Msghdr :=
  { iovBase := buffer
    iovLen := buffer.length
    msgIovlen := 1
    msgControl := []
    msgControllen := 0
    msgFlags := 0 }

/-- The source returns an `Option` and never `None`. Its ceiling of an `f64`
quotient is the exact one: two `u32` are too small for the rounding of their
quotient to reach a whole number. -/
def new (mss datagramSize : Nat) : Except Fault WrapperMsghdr :=
  if datagramSize = 0 then .error .divideByZero
  else .ok
    { msghdr := createMsghdr (List.replicate mss 0)
      bufferLength := mss
      withCmsg := false
      datagramSize := datagramSize
      packetsAmount := (mss + datagramSize - 1) / datagramSize }

/-- The digits and what follows them in ASCII, with a counter from 0 to 10. -/
def repeatingPattern : Memory → Nat → Memory
  | [], _ => []
  | _ :: bytes, counter =>
    UInt8.ofNat (48 + counter) :: repeatingPattern bytes (if counter > 9 then 0 else counter + 1)

def fillWithRepeatingPattern (w : WrapperMsghdr) : WrapperMsghdr :=
  { w with msghdr := { w.msghdr with iovBase := repeatingPattern w.msghdr.iovBase 0 } }

/-- One round of the loop in `add_message_header`; the copy is into a checked
range of the buffer. -/
def writeHeader (datagramSize : Nat) (header : MessageHeader) (packetId : Nat)
    (buffer : Memory) (i : Nat) : Except Fault Memory :=
  let start := i * datagramSize
  let serialized := (header.setPacketId (packetId + i)).serialize
  if start + serialized.length ≤ buffer.length then .ok (store buffer start serialized)
  else .error .index

def addMessageHeader (w : WrapperMsghdr) (testId packetId : Nat) : Except Fault WrapperMsghdr := do
  let header : MessageHeader := ⟨.measurement, testId, packetId⟩
  let buffer ← (List.range w.packetsAmount).foldlM
    (writeHeader w.datagramSize header packetId) w.msghdr.iovBase
  .ok { w with msghdr := { w.msghdr with iovBase := buffer } }

def addCmsgBuffer (w : WrapperMsghdr) : WrapperMsghdr :=
  { w with
    withCmsg := true
    msghdr := { w.msghdr with msgControllen := lengthMsghdrControlMessageBuffer } }

def moveMsghdr (w : WrapperMsghdr) : Msghdr :=
  { w.msghdr with
    msgControllen := if w.withCmsg then lengthMsghdrControlMessageBuffer
      else w.msghdr.msgControllen
    msgFlags := 0 }

/-- The same for a wrapper that is kept. -/
def getMsghdr (w : WrapperMsghdr) : Msghdr := w.moveMsghdr

/-- Bytes that do not fit are not copied. -/
def copyBuffer (w : WrapperMsghdr) (buffer : Memory) : WrapperMsghdr :=
  if buffer.length ≤ w.bufferLength then
    { w with
      bufferLength := buffer.length
      msghdr := { w.msghdr with iovBase := store w.msghdr.iovBase 0 buffer } }
  else w

end WrapperMsghdr

structure MsghdrVec where
  msghdrVec : List WrapperMsghdr
  datagramSize : Nat
  packetsAmountPerMsghdr : Nat

namespace MsghdrVec

def new (size mss datagramSize : Nat) : Except Fault MsghdrVec := do
  let msghdrVec ← (List.replicate size ()).mapM (fun _ => WrapperMsghdr.new mss datagramSize)
  match msghdrVec.head? with
  | none => .error .unwrap
  | some first =>
    .ok { msghdrVec := msghdrVec
          datagramSize := datagramSize
          packetsAmountPerMsghdr := first.packetsAmount }

def withCmsgBuffer (v : MsghdrVec) : MsghdrVec :=
  { v with msghdrVec := v.msghdrVec.map WrapperMsghdr.addCmsgBuffer }

def withMessageHeader (v : MsghdrVec) (testId : Nat) : Except Fault MsghdrVec := do
  let msghdrVec ← v.msghdrVec.mapM (fun w => w.addMessageHeader testId 0)
  .ok { v with msghdrVec := msghdrVec }

def withRandomPayload (v : MsghdrVec) : MsghdrVec :=
  { v with msghdrVec := v.msghdrVec.map WrapperMsghdr.fillWithRepeatingPattern }

end MsghdrVec

/-- `indexPool` holds the free buffers in the order of the source's vector,
the next one to hand out last; `indexPoolCapacity` is that vector's capacity. -/
structure PacketBuffer where
  mmsghdrVec : List Mmsghdr
  datagramSize : Nat
  packetsAmountPerMsghdr : Nat
  indexPool : List Nat
  indexPoolCapacity : Nat

namespace PacketBuffer

def new (v : MsghdrVec) : PacketBuffer :=
  let mmsghdrVec := v.msghdrVec.map (fun w => ⟨w.moveMsghdr, 0⟩)
  { mmsghdrVec := mmsghdrVec
    datagramSize := v.datagramSize
    packetsAmountPerMsghdr := v.packetsAmountPerMsghdr
    indexPool := List.range mmsghdrVec.length
    indexPoolCapacity := mmsghdrVec.length }

/-- The whole iovec of a msghdr as a slice. -/
def getBufferPointer (h : Msghdr) : Except Fault Slice := rawSlice h.iovBase h.iovLen

def getMsghdrFromIndex (b : PacketBuffer) (index : Nat) : Except Error Msghdr :=
  match b.mmsghdrVec[index]? with
  | some m => .ok m.msgHdr
  | none => .error .msghdrOutOfBounds

/-- What a write through the reference of `get_msghdr_from_index` leaves. -/
def setMsghdr (b : PacketBuffer) (index : Nat) (h : Msghdr) : PacketBuffer :=
  { b with mmsghdrVec := b.mmsghdrVec.modify index (fun m => { m with msgHdr := h }) }

def resetMsghdr (h : Msghdr) : Msghdr :=
  { h with msgFlags := 0, msgControllen := lengthMsghdrControlMessageBuffer }

def resetMsghdrFields (b : PacketBuffer) : PacketBuffer :=
  { b with mmsghdrVec := b.mmsghdrVec.map (fun m => { m with msgHdr := resetMsghdr m.msgHdr }) }

/-- One round of the inner loop of `add_packet_ids`. -/
def stampSlot (datagramSize packetId : Nat) (h : Msghdr) (i : Nat) : Except Fault Msghdr := do
  let buffer ← getBufferPointer h
  let slot ← buffer.from (i * datagramSize)
  let id ← Build.debug.u64 (packetId + i)
  let memory ← MessageHeader.setPacketIdRaw slot id
  .ok { h with iovBase := memory }

/-- The slots of one msghdr get consecutive ids. -/
def stampMsghdr (datagramSize packetsAmount packetId : Nat) (h : Msghdr) : Except Fault Msghdr :=
  (List.range packetsAmount).foldlM (stampSlot datagramSize packetId) h

/-- The outer loop of `add_packet_ids`: every msghdr goes on where the one
before it stopped. -/
def stampAll (datagramSize packetsAmount : Nat) : Nat → List Mmsghdr → Except Fault (List Mmsghdr)
  | _, [] => .ok []
  | packetId, m :: ms => do
    let h ← stampMsghdr datagramSize packetsAmount packetId m.msgHdr
    let rest ← stampAll datagramSize packetsAmount (packetId + packetsAmount) ms
    .ok ({ m with msgHdr := h } :: rest)

/-- Returns the number of ids used; `amount_packets` limits the msghdrs. -/
def addPacketIds (b : PacketBuffer) (packetId : Nat) (amountPackets : Option Nat) :
    Except Fault (Nat × PacketBuffer) := do
  let amount := amountPackets.getD b.mmsghdrVec.length
  let stamped ← stampAll b.datagramSize b.packetsAmountPerMsghdr packetId
    (b.mmsghdrVec.take amount)
  .ok (stamped.length * b.packetsAmountPerMsghdr,
    { b with mmsghdrVec := stamped ++ b.mmsghdrVec.drop amount })

def addPacketIdsToMsghdr (b : PacketBuffer) (packetId index : Nat) :
    Except Fault (Except Error Nat × PacketBuffer) :=
  match b.mmsghdrVec[index]? with
  | none => .ok (.error .bufferOutOfBounds, b)
  | some m => do
    let h ← stampMsghdr b.datagramSize b.packetsAmountPerMsghdr packetId m.msgHdr
    .ok (.ok b.packetsAmountPerMsghdr, b.setMsghdr index h)

def getBufferIndex (b : PacketBuffer) : Except Error (Nat × PacketBuffer) :=
  match b.indexPool.getLast? with
  | some index => .ok (index, { b with indexPool := b.indexPool.dropLast })
  | none => .error .noBuffersLeft

/-- A `usize` subtraction: a vector is never longer than its capacity. -/
def getPoolInflight (b : PacketBuffer) : Nat := b.indexPoolCapacity - b.indexPool.length

/-- `Vec::append` keeps the capacity while the elements fit. When they do not
it at least doubles it, and makes room for four. -/
def returnBufferIndex (b : PacketBuffer) (bufIndexVec : List Nat) : PacketBuffer :=
  let needed := b.indexPool.length + bufIndexVec.length
  { b with
    indexPool := b.indexPool ++ bufIndexVec
    indexPoolCapacity :=
      if needed ≤ b.indexPoolCapacity then b.indexPoolCapacity
      else max 4 (max (2 * b.indexPoolCapacity) needed) }

end PacketBuffer
end Nperf
