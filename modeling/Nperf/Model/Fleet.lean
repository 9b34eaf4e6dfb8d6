import Nperf.Model.Executor
import Nperf.Model.Session

namespace Nperf
open Rust Bytes

/-- What joining the thread of a sender gives, once its run is over. -/
def SenderRun.joined : SenderRun → Option ThreadResult
  | .returned _ (.ok (final, intervals)) => some (.finished final intervals)
  | .returned _ (.error _) => some .failed
  | _ => none

def ReceiverRun.joined : ReceiverRun → Option ThreadResult
  | .returned _ (.ok (final, intervals)) => some (.finished final intervals)
  | .returned _ (.error _) => some .failed
  | _ => none

/-- A host that runs the program as a sender. `exec` has a plan for every
thread, and `exec_thread` makes a sender of it. -/
structure SendingHost extends Party where
  mode : parameter.mode = .sender
  threads : List ThreadPlan
  planned : args.threadPlans build parameter = .ok threads
  plans : List Plan
  launched : List.Forall₂
    (fun thread plan => plan.toParty = toParty ∧ plan.testId = thread.testId) threads plans

/-- A host that runs the program as a receiver. -/
structure ReceivingHost extends Party where
  mode : parameter.mode = .receiver
  threads : List ThreadPlan
  planned : args.threadPlans build parameter = .ok threads
  posts : List Post
  launched : List.Forall₂ (fun _ post => post.toParty = toParty) threads posts

/-- Both programs, with what is under way between them. A datagram has the port
with it that it is sent to. -/
structure Fleet where
  senders : List SenderRun
  network : Multiset (Nat × Memory)
  receivers : List ReceiverRun

/-- A move of one thread, or of the network. -/
inductive FleetEvent
  | send (i : Nat) (e : SenderRunEvent)
  | network (m : Channel.Move (Nat × Memory))
  | receive (j : Nat) (e : ReceiverEvent) (datagrams : List (List Memory))

/-- The ports that the sockets of the threads are connected to, or bound to. -/
structure Wiring where
  destinations : List Nat
  sources : List Nat

/-- The address of the socket is that of all datagrams a thread sends. -/
def addressed (port : Nat) (xs : List Memory) : Multiset (Nat × Memory) :=
  (xs.map (port, ·) : List (Nat × Memory))

namespace Fleet
open Session (enabled)

def start (plans : List Plan) (posts : List Post) : Fleet where
  senders := plans.map fun plan => .starting plan.sender
  network := 0
  receivers := posts.map fun post => .polling post.receiver

/-- The threads move in any order. A socket is given datagrams to its own port
only; which socket of a port the kernel chooses for a datagram is left open. -/
def step (build : Build) (w : Wiring) (s : Fleet) : FleetEvent → Except Stop Fleet
  | .send _ (.ring _) => .error .disabled
  | .send i e => do
    let sender ← enabled s.senders[i]?
    let port ← enabled w.destinations[i]?
    let sender' ← sender.step e
    .ok { s with
      senders := s.senders.set i sender'
      network := s.network + addressed port (sender.transmitted e sender') }
  | .network m => do
    let network ← enabled (Channel.move s.network m)
    .ok { s with network := network }
  | .receive _ (.ring _) _ => .error .disabled
  | .receive j e datagrams => do
    let receiver ← enabled s.receivers[j]?
    let port ← enabled w.sources[j]?
    if receiver.Arrives e datagrams then do
      let network ← enabled (Channel.take s.network (addressed port datagrams.flatten))
      let receiver' ← receiver.step build e
      .ok { s with network := network, receivers := s.receivers.set j receiver' }
    else .error .disabled

/-- What a move puts on the wire, with the sender it comes from. -/
def transmissions (s : Fleet) (e : FleetEvent) (s' : Fleet) : List (Nat × Memory) :=
  match e with
  | .send i e =>
    match s.senders[i]?, s'.senders[i]? with
    | some sender, some sender' => (sender.transmitted e sender').map (i, ·)
    | _, _ => []
  | _ => []

/-- The datagrams of every message that receiver `j` has been given. -/
def parts (j : Nat) (events : List FleetEvent) : List (List Memory) :=
  events.flatMap fun
    | .receive k _ datagrams => if k = j then datagrams else []
    | _ => []

/-- What the receivers have taken, from their ports. -/
def taken (w : Wiring) (events : List FleetEvent) : List (Nat × Memory) :=
  events.flatMap fun
    | .receive j _ datagrams =>
      w.sources[j]?.toList.flatMap fun port => datagrams.flatten.map (port, ·)
    | _ => []

/-- What the network has lost, or delivered an extra copy of. -/
def lost (events : List FleetEvent) : List (Nat × Memory) :=
  events.filterMap fun
    | .network (.lose x) => some x
    | _ => none

def duplicated (events : List FleetEvent) : List (Nat × Memory) :=
  events.filterMap fun
    | .network (.duplicate x) => some x
    | _ => none

def traffic (w : Wiring) (events : List FleetEvent) (wire : List (Nat × Memory)) :
    Channel.Traffic (Nat × Memory) where
  sent := wire.flatMap fun x => w.destinations[x.1]?.toList.map (·, x.2)
  taken := taken w events
  lost := lost events
  duplicated := duplicated events

/-- Every thread of both hosts has come to a good end. -/
def Done (s : Fleet) : Prop :=
  (∀ sender ∈ s.senders, ∃ final intervals,
      sender.joined = some (.finished final intervals)) ∧
    ∀ receiver ∈ s.receivers, ∃ final intervals,
      receiver.joined = some (.finished final intervals)

end Fleet

/-- The wiring that the plans of both hosts make. -/
def wiring (sending : SendingHost) (receiving : ReceivingHost) : Wiring where
  destinations := sending.threads.map ThreadPlan.receiverPort
  sources := receiving.threads.map ThreadPlan.receiverPort

end Nperf
