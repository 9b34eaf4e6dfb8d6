import Nperf.Model.CoreAffinity
import Nperf.Model.Fleet
import Nperf.Model.Socket

namespace Nperf
open Rust Session

/-- Whether the step closes the socket. The kernel gives the descriptor back
even if `close` reports an error. -/
def ReceiverRun.closes : ReceiverRun → ReceiverEvent → Bool
  | .closing r _, .finish _ _ => r.parameter.multiplexPortReceiver ≠ .sharing
  | _, _ => false

/-- A thread of a receiving program: before `set_affinity`, in `Receiver::new`
with a socket of its own or with the shared one, in `Receiver::run`, or dead. -/
inductive ReceiverThread
  | spawned (port : Nat)
  | opening (port : Nat) (o : Opening)
  | lent (fd : Nat)
  | running (fd : Nat) (own : Bool) (r : ReceiverRun)
  | panicked

inductive ThreadEvent
  | pin (bindCpu : Nat → Bool)
  | call (c : SocketCall)
  | new (clock : Clock)
  | run (e : ReceiverEvent)

/-- The manager behind its lock; there is none once the lock is poisoned. -/
abbrev AffinityLock := Option CoreAffinityManager

/-- `core_affinity_manager.lock().unwrap().set_affinity().unwrap()`: a thread
that panics here holds the lock and poisons it. -/
def AffinityLock.setAffinity (lock : AffinityLock) (build : Build) (bindCpu : Nat → Bool) :
    Bool × AffinityLock :=
  match lock with
  | none => (false, none)
  | some m =>
    match m.setAffinity build bindCpu with
    | .error _ => (false, none)
    | .ok (placement, m) =>
      match placement.result with
      | .error _ => (false, none)
      | .ok () => (true, some m)

namespace ReceiverThread

/-- `socket` is the shared socket. -/
def pinned (port : Nat) (socket : Option Nat) : ReceiverThread :=
  match socket with
  | none => .opening port .new
  | some fd => .lent fd

def created (fd : Nat) (own : Bool) : Except Fault Receiver → ReceiverThread
  | .ok r => .running fd own (.polling r)
  | .error _ => .panicked

def step (build : Build) (parameter : Parameter) (socket : Option Nat) (sockets : SocketTable)
    (lock : AffinityLock) :
    ReceiverThread → ThreadEvent → Except Stop (ReceiverThread × SocketTable × AffinityLock)
  | .spawned port, .pin bindCpu =>
    if parameter.coreAffinity then
      let (ok, lock) := lock.setAffinity build bindCpu
      .ok (if ok then pinned port socket else .panicked, sockets, lock)
    else .ok (pinned port socket, sockets, lock)
  | .opening port o, .call c => do
    let (o, sockets) ← o.step parameter.socketOptions port sockets c
    match o with
    | none => .ok (.panicked, sockets, lock)
    | some o => .ok (.opening port o, sockets, lock)
  | .opening _ (.bound fd), .new clock =>
    .ok (created fd true (Receiver.new clock parameter), sockets, lock)
  | .lent fd, .new clock => .ok (created fd false (Receiver.new clock parameter), sockets, lock)
  | .running fd own r, .run e =>
    let sockets := if r.closes e then sockets.erase fd else sockets
    match r.step build e with
    | .ok r => .ok (.running fd own r, sockets, lock)
    | .error .disabled => .error .disabled
    | .error (.fault _) => .ok (.panicked, sockets, lock)
  | _, _ => .error .disabled

/-- What joining the thread gives, once it is over. -/
def joined : ReceiverThread → Option ThreadResult
  | .running _ _ r => r.joined
  | .panicked => some .panicked
  | _ => none

/-- The descriptor of a socket that the thread has made for itself. -/
def own : ReceiverThread → Option Nat
  | .opening _ o => o.fd
  | .running fd true r => if r.joined.isNone then some fd else none
  | _ => none

end ReceiverThread

/-- The main thread: before the loop of `exec`, in `create_socket`, behind it
with the shared socket if there is one, or back from `exec`. -/
inductive MainThread
  | pinning
  | opening (o : Opening)
  | serving (socket : Option Nat)
  | returned (summary : Statistic) (rows : List Statistic)

namespace MainThread

def opened : Opening → MainThread
  | .bound fd => .serving (some fd)
  | o => .opening o

/-- The shared socket. -/
def socket : MainThread → Option Nat
  | .serving socket => socket
  | _ => none

def own : MainThread → Option Nat
  | .opening o => o.fd
  | .serving socket => socket
  | _ => none

end MainThread

/-- The program in `exec`; `threads` are those of the current iteration. -/
structure Exec where
  sockets : SocketTable
  lock : AffinityLock
  main : MainThread
  threads : List ReceiverThread

/-- A move of the main thread or of another one. `started` is whether a thread
can be started, `printed` whether what is to be printed can be, `closed` whether
the shared socket can be closed. -/
inductive ExecEvent
  | pin (bindCpu : Nat → Bool)
  | call (c : SocketCall)
  | spawn (started : Bool)
  | thread (i : Nat) (e : ThreadEvent)
  | join (clock clock' : Clock) (printed closed : Bool)

/-- A program that runs as a receiver, with any parameter set it accepts. -/
structure Server where
  args : NPerf
  build : Build
  cores : Nat
  parameter : Parameter
  accepted : args.parseParameter build cores = .ok (some parameter)
  mode : parameter.mode = .receiver
  topology : Topology
  manager : CoreAffinityManager
  managed : CoreAffinityManager.new topology parameter.mode none parameter.numaAffinity =
    .ok manager

namespace Server

def start (server : Server) : Exec where
  sockets := ∅
  lock := some server.manager
  main := .pinning
  threads := []

/-- `create_socket`, which starts an iteration. Only a shared socket is made here. -/
def createSocket (server : Server) : MainThread :=
  if server.parameter.multiplexPortReceiver = .sharing then .opening .new else .serving none

def closeSocket (closed : Bool) (sockets : SocketTable) :
    Option Nat → Except Fault SocketTable
  | none => .ok sockets
  | some fd => if closed then .ok (sockets.erase fd) else .error .unwrap

/-- Rows and summaries without datagrams are not printed. -/
def prints (summary : Statistic) (rows : List Statistic) : Bool :=
  (summary :: rows).any (·.amountDatagrams ≠ 0)

def print (printed : Bool) (summary : Statistic) (rows : List Statistic) : Except Fault Unit :=
  if prints summary rows ∧ ¬printed then .error .unwrap else .ok ()

def lift : Except Fault α → Except Stop α
  | .ok a => .ok a
  | .error f => .error (.fault f)

/-- A panic of the main thread ends the program, that of another thread does
not. The threads of an iteration run while others are still being started, and
it ends when all of them are over. -/
def step (server : Server) (s : Exec) (e : ExecEvent) : Except Stop Exec :=
  match s.main, e with
  | .pinning, .pin bindCpu =>
    if server.parameter.coreAffinity ∧ ¬bindCpu 0 then .error (.fault .unwrap)
    else .ok { s with main := server.createSocket }
  | .opening o, .call c => do
    let (o, sockets) ← o.step server.parameter.socketOptions server.args.port.toNat s.sockets c
    match o with
    | none => .error (.fault .unwrap)
    | some o => .ok { s with sockets := sockets, main := .opened o }
  | .serving _, .spawn started =>
    if s.threads.length < server.parameter.amountThreads then do
      let plan ← lift (server.args.threadPlan server.build server.parameter s.threads.length)
      if started then .ok { s with threads := s.threads ++ [.spawned plan.receiverPort] }
      else .error (.fault .unwrap)
    else .error .disabled
  | .serving socket, .thread i e => do
    let thread ← enabled s.threads[i]?
    let (thread, sockets, lock) ←
      thread.step server.build server.parameter socket s.sockets s.lock e
    .ok { s with sockets := sockets, lock := lock, threads := s.threads.set i thread }
  | .serving socket, .join clock clock' printed closed =>
    if s.threads.length = server.parameter.amountThreads then do
      let results ← enabled (s.threads.mapM ReceiverThread.joined)
      let (summary, rows) ←
        lift (mergeThreads server.build clock clock' server.parameter results)
      lift (print printed summary rows)
      let sockets ← lift (closeSocket closed s.sockets socket)
      .ok { s with
        sockets := sockets
        main := if server.args.runInfinite ∧ server.parameter.mode = .receiver then
            server.createSocket
          else .returned summary rows
        threads := [] }
    else .error .disabled
  | _, _ => .error .disabled

end Server

/-- A socket that its thread has left open. -/
structure LeftSocket where
  thread : Nat
  fd : Nat
  socket : OpenSocket
  result : ThreadResult

namespace Exec

/-- The socket that a move leaves to nobody: it ends the thread that made it
and does not close it. -/
def left (s : Exec) (e : ExecEvent) (s' : Exec) : List LeftSocket :=
  match e with
  | .thread i _ => Option.toList do
    let fd ← s.threads[i]?.bind ReceiverThread.own
    let result ← s'.threads[i]?.bind ReceiverThread.joined
    let socket ← s'.sockets.lookup fd
    return { thread := i, fd := fd, socket := socket, result := result }
  | _ => []

end Exec
end Nperf
