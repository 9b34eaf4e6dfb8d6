import Nperf.Lib.Channel
import Nperf.Lib.Gains
import Nperf.Lib.Segments
import Nperf.Model.CommandParser
import Nperf.Model.SenderRun

namespace Nperf
open Rust Bytes Segments

/-- With a segment size the kernel sends a longer message as several datagrams. -/
def SocketOptions.segments (o : SocketOptions) (message : Memory) : List Memory :=
  match o.gso with
  | none => [message]
  | some size => if message.length ≤ size then [message] else cut size message

namespace Sender

/-- The msghdr of a coordination message: a header in a buffer of its size. -/
def controlMessage (s : Sender) (mtype : MessageType) : Except Fault Msghdr := do
  let header : MessageHeader := ⟨mtype, s.testId, 0⟩
  let packetBuffer ← WrapperMsghdr.new MessageHeader.lenHeader MessageHeader.lenHeader
  .ok (packetBuffer.copyBuffer header.serialize).getMsghdr

/-- The coordination message on the wire, if the kernel accepts it. -/
def coordinated (s : Sender) (mtype : MessageType) (kernel : Except Error Unit) : List Memory :=
  match s.controlMessage mtype, kernel with
  | .ok h, .ok () => s.parameter.socketOptions.segments (h.iovBase.take h.iovLen)
  | _, _ => []

/-- The messages the kernel has accepted in a send call, from the msghdrs as the
call has left them. `send` gives it one datagram. -/
def accepted (s : Sender) (socket : Socket) : List Memory :=
  let messages := s.packetBuffer.mmsghdrVec.map (fun m => m.msgHdr.iovBase.take m.msgHdr.iovLen)
  match s.exchangeFunction, socket.message, socket.batch with
  | .normal, .ok _, _ => (messages.take 1).map (List.take s.packetBuffer.datagramSize)
  | .msg, .ok _, _ => messages.take 1
  | .mmsg, _, .ok lengths => messages.take lengths.length
  | _, _, _ => []

end Sender

/-- The datagrams that a move of the sender, from `s` to `s'`, gives to the
network. -/
def SenderRun.transmitted (s : SenderRun) (e : SenderRunEvent) (s' : SenderRun) : List Memory :=
  match s, e with
  | .starting sender, .start _ _ init _ => sender.coordinated .init init
  | .sending _ _, .send socket =>
    (s'.sender.accepted socket).flatMap s'.sender.parameter.socketOptions.segments
  | .closing sender, .finish _ last => sender.coordinated .last last
  | _, _ => []

/-- The type field of a datagram is that of a data message. -/
def isData (x : Memory) : Bool := load x 0 8 = MessageType.measurement.code

/-- Data datagrams of one size, the last one possibly shorter. A coordination
message is never among them, since the sender waits before and after it. -/
def Coalesced (size : Nat) (datagrams : List Memory) : Prop :=
  datagrams ≠ [] ∧ Even size datagrams ∧ ∀ x ∈ datagrams, isData x

instance decidableCoalesced (size : Nat) (datagrams : List Memory) :
    Decidable (Coalesced size datagrams) :=
  inferInstanceAs (Decidable (_ ∧ _ ∧ _))

/-- The room that the report of a segment size takes, `CMSG_LEN` of an `int`. -/
def reportLen : Nat := 20

/-- How the kernel makes a message out of datagrams: one of them as it is, or
under GRO several of one size, which it reports if the msghdr offers room. -/
def Delivery.Carries (gro : Bool) (offered : Nat) (d : Delivery) (datagrams : List Memory) : Prop :=
  d.payload = datagrams.flatten ∧
    match d.control with
    | [] => datagrams.length = 1 ∨
      gro ∧ offered < reportLen ∧ ∃ x ∈ datagrams.head?, Coalesced x.length datagrams
    | [c] => gro ∧ reportLen ≤ offered ∧ c.level = solUdp ∧ c.type = udpGro ∧
      16 ≤ d.controllen ∧ Coalesced c.data datagrams
    | _ => False

instance decidableCarries (gro : Bool) (offered : Nat) (d : Delivery) (datagrams : List Memory) :
    Decidable (d.Carries gro offered datagrams) := by
  unfold Delivery.Carries
  cases d.control with
  | nil => infer_instance
  | cons c control => cases control <;> infer_instance

namespace ReceiverRun

/-- The messages that a receive call is answered with. -/
def arrivals : ReceiverRun → ReceiverEvent → List Delivery
  | .receiving r _, .receive _ socket =>
    match r.exchangeFunction with
    | .normal | .msg => socket.message.toOption.toList
    | .mmsg => socket.batch.toOption.getD []
  | _, _ => []

/-- The lengths of the control buffers that a receive call gives to the kernel. -/
def offers : ReceiverRun → List Nat
  | .receiving r _ => r.prepareMsghdrs.packetBuffer.mmsghdrVec.map fun m => m.msgHdr.msgControllen
  | _ => []

/-- The kernel fills buffers that it is given, and makes each message out of
datagrams. -/
def Arrives (s : ReceiverRun) (e : ReceiverEvent) (datagrams : List (List Memory)) : Prop :=
  let messages := s.arrivals e
  messages.length = datagrams.length ∧ messages.length ≤ s.offers.length ∧
    ∀ x ∈ messages.zip (s.offers.zip datagrams),
      x.1.payload.length ≤ s.receiver.parameter.mss ∧
        x.1.Carries s.receiver.parameter.socketOptions.gro x.2.1 x.2.2

instance decidableArrives (s : ReceiverRun) (e : ReceiverEvent) (datagrams : List (List Memory)) :
    Decidable (s.Arrives e datagrams) :=
  inferInstanceAs (Decidable (_ ∧ _ ∧ _))

end ReceiverRun

/-- Senders that measure against one receiver, and the datagrams under way. -/
structure Session where
  senders : List SenderRun
  network : Multiset Memory
  receiver : ReceiverRun

/-- A parameter set that the program accepts and with which it does not measure
over a ring. Its buffers are not empty. -/
structure Party where
  args : NPerf
  build : Build
  cores : Nat
  parameter : Parameter
  accepted : args.parseParameter build cores = .ok (some parameter)
  socket : parameter.ioModel ≠ .ioUring
  filled : 0 < parameter.mss

/-- A sender before its run. `send` reads no further than its buffer. -/
structure Plan extends Party where
  inside : parameter.exchangeFunction = .normal → parameter.datagramSize ≤ parameter.mss
  testId : Nat
  known : testId < maxTestId
  clock : Clock
  sender : Sender
  created : Sender.new clock testId parameter = .ok sender

/-- A receiver before its run. `recv` does not see how long a message is. -/
structure Post extends Party where
  sized : parameter.exchangeFunction ≠ .normal
  clock : Clock
  receiver : Receiver
  created : Receiver.new clock parameter = .ok receiver

def Session.start (plans : List Plan) (post : Post) : Session where
  senders := plans.map fun plan => .starting plan.sender
  network := 0
  receiver := .polling post.receiver

/-- A move of one party, or of the network between them. -/
inductive SessionEvent
  | send (i : Nat) (e : SenderRunEvent)
  | network (m : Channel.Move Memory)
  | receive (e : ReceiverEvent) (datagrams : List (List Memory))

/-- No batch of `recvmmsg` has data and coordination messages in it. -/
def SessionEvent.unmixed : SessionEvent → Bool
  | .receive _ datagrams =>
    datagrams.length ≤ 1 || datagrams.flatten.all isData || datagrams.flatten.all (!isData ·)
  | _ => true

/-- The receiver gives up waiting. -/
def SessionEvent.timesOut : SessionEvent → Bool
  | .receive (.poll _ _ .timeout _) _ => true
  | .receive (.wait .timeout) _ => true
  | _ => false

namespace Session

def enabled {α : Type} : Option α → Except Stop α
  | some a => .ok a
  | none => .error .disabled

/-- The parties move in any order, and only datagrams tie them together. The
loops over a ring are not followed into the network. -/
def step (build : Build) (s : Session) : SessionEvent → Except Stop Session
  | .send _ (.ring _) => .error .disabled
  | .send i e => do
    let sender ← enabled s.senders[i]?
    let sender' ← sender.step e
    .ok { s with
      senders := s.senders.set i sender'
      network := s.network + (sender.transmitted e sender' : Multiset Memory) }
  | .network m => do
    let network ← enabled (Channel.move s.network m)
    .ok { s with network := network }
  | .receive (.ring _) _ => .error .disabled
  | .receive e datagrams =>
    if s.receiver.Arrives e datagrams then do
      let network ← enabled (Channel.take s.network (datagrams.flatten : Multiset Memory))
      let receiver ← s.receiver.step build e
      .ok { s with network := network, receiver := receiver }
    else .error .disabled

/-- What a move puts on the wire, with the sender it comes from. -/
def transmissions (s : Session) (e : SessionEvent) (s' : Session) : List (Nat × Memory) :=
  match e with
  | .send i e =>
    match s.senders[i]?, s'.senders[i]? with
    | some sender, some sender' => (sender.transmitted e sender').map (i, ·)
    | _, _ => []
  | _ => []

/-- All that a run puts on the wire. -/
def wire (build : Build) (s : Session) (events : List SessionEvent) : List (Nat × Memory) :=
  Runs.collect (step build) transmissions s events

/-- What of it comes from one sender. -/
def sentBy (i : Nat) (wire : List (Nat × Memory)) : List Memory :=
  wire.filterMap fun x => if x.1 = i then some x.2 else none

/-- The datagrams of every message that the receiver has been given. -/
def parts (events : List SessionEvent) : List (List Memory) :=
  events.flatMap fun
    | .receive _ datagrams => datagrams
    | _ => []

/-- What the network has lost, or delivered an extra copy of. -/
def lost (events : List SessionEvent) : List Memory :=
  events.filterMap fun
    | .network (.lose x) => some x
    | _ => none

def duplicated (events : List SessionEvent) : List Memory :=
  events.filterMap fun
    | .network (.duplicate x) => some x
    | _ => none

def traffic (events : List SessionEvent) (wire : List (Nat × Memory)) : Channel.Traffic Memory where
  sent := wire.map Prod.snd
  taken := (parts events).flatten
  lost := lost events
  duplicated := duplicated events

end Session
end Nperf
