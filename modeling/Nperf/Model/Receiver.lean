import Nperf.Model.Util

namespace Nperf
open Rust Bytes

structure Receiver where
  packetBuffer : PacketBuffer
  nextPacketId : Nat
  parameter : Parameter
  measurements : List Measurement
  statisticInterval : StatisticInterval
  exchangeFunction : ExchangeFunction

/-- What a receive call of the kernel leaves in a msghdr. -/
structure Delivery where
  payload : Memory
  control : List Cmsg
  controllen : Nat
  flags : Nat
  deriving DecidableEq, Repr

/-- The kernel overwrites the front of the buffer and keeps what is behind it;
a message that does not fit is cut. -/
def Msghdr.deliver (h : Msghdr) (d : Delivery) : Msghdr :=
  { h with
    iovBase := d.payload.take h.iovLen ++ h.iovBase.drop (d.payload.take h.iovLen).length
    msgControl := d.control
    msgControllen := d.controllen
    msgFlags := d.flags }

/-- The number of bytes the call returns. -/
def Msghdr.receivedBytes (h : Msghdr) (d : Delivery) : Nat := (d.payload.take h.iovLen).length

/-- `resize(test_id + 1, Measurement::new(..))`, where the vector is shorter. -/
def growMeasurements (clock : Clock) (measurements : List Measurement) (testId : Nat)
    (parameter : Parameter) : List Measurement :=
  if measurements.length ≤ testId then
    measurements ++
      List.replicate (testId + 1 - measurements.length) (Measurement.new clock parameter)
  else measurements

def Statistic.countReceived (s : Statistic) (datagrams bytes : Nat) : Statistic :=
  { s with
    amountDatagrams := s.amountDatagrams + datagrams
    amountDataBytes := s.amountDataBytes + bytes }

namespace Receiver

def new (clock : Clock) (parameter : Parameter) : Except Fault Receiver := do
  let msghdrVec ← MsghdrVec.new parameter.packetBufferSize parameter.mss parameter.datagramSize
  .ok { packetBuffer := PacketBuffer.new msghdrVec.withCmsgBuffer
        nextPacketId := 0
        parameter := parameter
        measurements := []
        statisticInterval :=
          StatisticInterval.new clock parameter.outputInterval parameter.testRuntimeLength
        exchangeFunction := parameter.exchangeFunction }

/-- Control messages are reported as an `Err`; the measurements change first. -/
def parseMessageType (clock : Clock) (mtype : MessageType) (testId : Nat)
    (measurements : List Measurement) (parameter : Parameter) :
    Except Fault (Except Error Unit × List Measurement) :=
  if testId ≥ maxTestId then .ok (.error .testIdTooGreat, measurements)
  else match mtype with
    | .init =>
      .ok (.error .initMessageReceived, growMeasurements clock measurements testId parameter)
    | .measurement =>
      let measurements := growMeasurements clock measurements testId parameter
      match measurements[testId]? with
      | none => .error .unwrap
      | some measurement =>
        if measurement.firstPacketReceived then .ok (.ok (), measurements)
        else .ok (.ok (), measurements.set testId { measurement with
          startTime := clock.unix
          statistic := measurement.statistic.setStartTimestamp clock (some clock.unix)
          firstPacketReceived := true })
    | .last =>
      match measurements[testId]? with
      | none => .error .unwrap
      | some measurement =>
        let endTime := clock.unix - waitControlMessageTime
        .ok (.error .lastMessageReceived, measurements.set testId { measurement with
          lastPacketReceived := true
          statistic := (measurement.statistic.setTestDuration (some measurement.startTime)
            (some endTime)).setEndTimestamp clock })

/-- `measurements.get_mut(test_id).expect(..)` -/
def measurement (measurements : List Measurement) (testId : Nat) : Except Fault Measurement :=
  match measurements[testId]? with
  | some m => .ok m
  | none => .error .unwrap

def setStatistic (r : Receiver) (testId : Nat) (m : Measurement) (s : Statistic) : Receiver :=
  { r with measurements := r.measurements.set testId { m with statistic := s } }

def msghdr (r : Receiver) (index : Nat) : Except Fault Msghdr :=
  match r.packetBuffer.getMsghdrFromIndex index with
  | .ok h => .ok h
  | .error _ => .error .unwrap

/-- The reset after a data message, made under GRO only. -/
def restoreControllen (r : Receiver) (h : Msghdr) : Msghdr :=
  if r.parameter.socketOptions.gro then PacketBuffer.resetMsghdr h else h

/-- `recv` fills the buffer and knows nothing of control messages. -/
def recv (build : Build) (clock : Clock) (r : Receiver) (socket : Except Error Delivery) :
    Except Fault (Except Error Unit × Receiver) := do
  let h ← r.msghdr 0
  match socket with
  | .error e => .ok (.error e, r)
  | .ok d =>
    let h := { h with iovBase := (h.deliver d).iovBase }
    let amountReceivedBytes := h.receivedBytes d
    let r := { r with packetBuffer := r.packetBuffer.setMsghdr 0 h }
    let buffer ← PacketBuffer.getBufferPointer h
    let testId ← MessageHeader.getTestId buffer
    let mtype ← MessageHeader.getMessageType buffer
    let (result, measurements) ←
      parseMessageType clock mtype testId r.measurements r.parameter
    let r := { r with measurements := measurements }
    match result with
    | .error e => .ok (.error e, r)
    | .ok () =>
      let m ← measurement r.measurements testId
      let (received, statistic) ← processPacketBuffer build buffer r.packetBuffer.datagramSize
        r.nextPacketId m.statistic
      let nextPacketId ← build.u64 (r.nextPacketId + received)
      .ok (.ok (), { r with nextPacketId := nextPacketId }.setStatistic testId m
        (statistic.countReceived received amountReceivedBytes))

def recvmsg (build : Build) (clock : Clock) (r : Receiver) (socket : Except Error Delivery) :
    Except Fault (Except Error Unit × Receiver) := do
  let h ← r.msghdr 0
  match socket with
  | .error e => .ok (.error e, r)
  | .ok d =>
    let amountReceivedBytes := h.receivedBytes d
    let h := h.deliver d
    let r := { r with packetBuffer := r.packetBuffer.setMsghdr 0 h }
    let buffer ← PacketBuffer.getBufferPointer h
    let testId ← MessageHeader.getTestId buffer
    let mtype ← MessageHeader.getMessageType buffer
    let (result, measurements) ←
      parseMessageType clock mtype testId r.measurements r.parameter
    let r := { r with measurements := measurements }
    match result with
    | .error e => .ok (.error e, r)
    | .ok () =>
      let m ← measurement r.measurements testId
      let (nextPacketId, received, statistic) ←
        processPacketMsghdr build h amountReceivedBytes r.nextPacketId m.statistic
      let r := { r with nextPacketId := nextPacketId }.setStatistic testId m
        (statistic.countReceived received amountReceivedBytes)
      .ok (.ok (), { r with packetBuffer := r.packetBuffer.setMsghdr 0 (r.restoreControllen h) })

/-- The kernel fills the msghdrs from the first one on, a message each. -/
def deliverAll : List Mmsghdr → List Delivery → List Mmsghdr
  | m :: ms, d :: ds =>
    { msgHdr := m.msgHdr.deliver d, msgLen := m.msgHdr.receivedBytes d } :: deliverAll ms ds
  | ms, _ => ms

/-- The loop of `recvmmsg` over the filled msghdrs. -/
def processMmsghdrs (build : Build) (r : Receiver) :
    List Mmsghdr → Nat × Nat × Statistic → Except Fault (List Mmsghdr × Nat × Nat × Statistic)
  | [], acc => .ok ([], acc)
  | m :: ms, (nextPacketId, received, statistic) => do
    let (nextPacketId, datagrams, statistic) ←
      processPacketMsghdr build m.msgHdr m.msgLen nextPacketId statistic
    let (rest, acc) ← processMmsghdrs build r ms (nextPacketId, received + datagrams, statistic)
    .ok ({ m with msgHdr := r.restoreControllen m.msgHdr } :: rest, acc)

/-- The first msghdr alone says which message and which test it is about. -/
def recvmmsg (build : Build) (clock : Clock) (r : Receiver)
    (socket : Except Error (List Delivery)) : Except Fault (Except Error Unit × Receiver) :=
  match socket with
  | .error e => .ok (.error e, r)
  | .ok ds => do
    let filled := deliverAll r.packetBuffer.mmsghdrVec ds
    let amountReceivedMmsghdr := min ds.length r.packetBuffer.mmsghdrVec.length
    let r := { r with packetBuffer := { r.packetBuffer with mmsghdrVec := filled } }
    if amountReceivedMmsghdr = 0 then .ok (.ok (), r)
    else
      let h ← r.msghdr 0
      let buffer ← PacketBuffer.getBufferPointer h
      let testId ← MessageHeader.getTestId buffer
      let mtype ← MessageHeader.getMessageType buffer
      let amountReceivedBytes := getTotalBytes filled amountReceivedMmsghdr
      let (result, measurements) ←
        parseMessageType clock mtype testId r.measurements r.parameter
      let r := { r with measurements := measurements }
      match result with
      | .error e => .ok (.error e, r)
      | .ok () =>
        let m ← measurement r.measurements testId
        let (processed, nextPacketId, received, statistic) ←
          processMmsghdrs build r (filled.take amountReceivedMmsghdr)
            (r.nextPacketId, 0, m.statistic)
        let r := { r with nextPacketId := nextPacketId }.setStatistic testId m
          (statistic.countReceived received amountReceivedBytes)
        .ok (.ok (), { r with packetBuffer := { r.packetBuffer with
          mmsghdrVec := processed ++ filled.drop amountReceivedMmsghdr } })

/-- `recv_messages` restores every msghdr as long as no packet was counted. -/
def prepareMsghdrs (r : Receiver) : Receiver :=
  if r.parameter.socketOptions.gro ∧ r.nextPacketId = 0 then
    { r with packetBuffer := r.packetBuffer.resetMsghdrFields }
  else r

/-- What the socket answers to a receive call for one message, and to one for
a batch. -/
structure Socket where
  message : Except Error Delivery
  batch : Except Error (List Delivery)

def recvMessages (build : Build) (clock : Clock) (r : Receiver) (socket : Socket) :
    Except Fault (Except Error Unit × Receiver) :=
  match r.exchangeFunction with
  | .normal => r.prepareMsghdrs.recv build clock socket.message
  | .msg => r.prepareMsghdrs.recvmsg build clock socket.message
  | .mmsg => r.prepareMsghdrs.recvmmsg build clock socket.batch

/-- The msghdr a completion is about: the caller's, or the buffer its index
names. -/
def completedMsghdr (r : Receiver) (given : Option Msghdr) (msghdrIndex : Nat) :
    Except Fault Msghdr :=
  match given with
  | some h => .ok h
  | none => r.msghdr msghdrIndex

/-- In normal mode the buffer is fetched again to be processed. -/
def processedMsghdr (r : Receiver) (h : Msghdr) (msghdrIndex : Nat) : Except Fault Msghdr :=
  if r.parameter.uringParameter.uringMode = .normal then r.msghdr msghdrIndex else .ok h

/-- A write through the msghdr reaches the packet buffer in normal mode only. -/
def restoreProcessed (r : Receiver) (h : Msghdr) (msghdrIndex : Nat) : Receiver :=
  if r.parameter.uringParameter.uringMode = .normal then
    { r with packetBuffer := r.packetBuffer.setMsghdr msghdrIndex (r.restoreControllen h) }
  else r

def handleRecvmsgReturn (build : Build) (clock : Clock) (r : Receiver) (amountReceivedBytes : Int)
    (given : Option Msghdr) (msghdrIndex : Nat) : Except Fault (Except Error Unit × Receiver) := do
  let h ← r.completedMsghdr given msghdrIndex
  let buffer ← PacketBuffer.getBufferPointer h
  let testId ← MessageHeader.getTestId buffer
  let mtype ← MessageHeader.getMessageType buffer
  let (result, measurements) ←
    parseMessageType clock mtype testId r.measurements r.parameter
  let r := { r with measurements := measurements }
  match result with
  | .error e => .ok (.error e, r)
  | .ok () =>
    let h ← r.processedMsghdr h msghdrIndex
    let m ← measurement r.measurements testId
    -- a negative number of bytes becomes a huge `usize`
    let amount := (amountReceivedBytes % 2 ^ 64).toNat
    let (nextPacketId, received, statistic) ←
      processPacketMsghdr build h amount r.nextPacketId m.statistic
    let r := { r with nextPacketId := nextPacketId }.setStatistic testId m
      (statistic.countReceived received amount)
    .ok (.ok (), r.restoreProcessed h msghdrIndex)

def allMeasurementsFinished (r : Receiver) : Bool :=
  r.measurements.all (fun m => !(!m.lastPacketReceived && m.firstPacketReceived))

/-- The start of a new interval: every test gets a fresh statistic. -/
def resetStatistics (clock : Clock) (r : Receiver) : Receiver :=
  { r with measurements := r.measurements.map (fun m =>
      { m with statistic := Statistic.new clock r.parameter }) }

end Receiver
end Nperf
