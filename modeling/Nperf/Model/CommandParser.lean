import Nperf.Model.Config

namespace Nperf
open Rust

/-- The command line, as the argument parser hands it over. `interval` is the
decimal number its `f64` prints as. Labels, output format and path, and the
socket buffer factor change nothing that the model reads. -/
structure NPerf where
  mode : NPerfMode
  ip : String
  port : UInt16
  senderPort : UInt16
  parallel : UInt16
  runInfinite : Bool
  interval : Rat
  datagramSize : UInt32
  time : UInt64
  withCoreAffinity : Bool
  withNumaAffinity : Bool
  withGsro : Bool
  bandwidth : UInt64
  withGsoBuffer : UInt32
  withMss : UInt32
  withIpFrag : Bool
  withoutNonBlocking : Bool
  exchangeFunction : ExchangeFunction
  withMmsgAmount : UInt64
  ioModel : IOModel
  multiplexPort : MultiplexPort
  multiplexPortReceiver : MultiplexPort
  simulateConnection : SimulateConnection
  uringMode : UringMode
  uringSqpoll : Bool
  uringSqpollShared : Bool
  uringBurstSize : UInt32
  uringRingSize : UInt32
  uringSqMode : UringSqFillingMode
  uringTaskWork : UringTaskWork
  uringRecordUtilization : Bool
  markdownHelp : Bool

namespace NPerf

/-- What a bare `nPerf` gets. -/
def default : NPerf :=
  { mode := .receiver
    ip := "0.0.0.0"
    port := 45001
    senderPort := 46001
    parallel := 1
    runInfinite := false
    interval := 0
    datagramSize := 1472
    time := 10
    withCoreAffinity := false
    withNumaAffinity := false
    withGsro := false
    bandwidth := 0
    withGsoBuffer := 64768
    withMss := 1472
    withIpFrag := false
    withoutNonBlocking := false
    exchangeFunction := .msg
    withMmsgAmount := 1
    ioModel := .select
    multiplexPort := .individual
    multiplexPortReceiver := .individual
    simulateConnection := .multiple
    uringMode := .normal
    uringSqpoll := false
    uringSqpollShared := false
    uringBurstSize := 4
    uringRingSize := 16
    uringSqMode := .topup
    uringTaskWork := .default
    uringRecordUtilization := false
    markdownHelp := false }

def splitDots : List Char → List (List Char)
  | [] => [[]]
  | c :: cs =>
    match splitDots cs with
    | [] => [[c]]
    | part :: parts => if c = '.' then [] :: part :: parts else (c :: part) :: parts

def digit (c : Char) : Option Nat :=
  if '0' ≤ c ∧ c ≤ '9' then some (c.toNat - 48) else none

/-- At most three digits, no leading zero, at most 255. -/
def parseOctet (part : List Char) : Option Nat := do
  let digits ← part.mapM digit
  let n := digits.foldl (fun n d => 10 * n + d) 0
  if digits = [] ∨ 3 < digits.length ∨ 255 < n then none
  else if digits.head? = some 0 ∧ digits.length ≠ 1 then none
  else some n

/-- `Ipv4Addr::from_str` -/
def parseIpv4 (address : String) : Option Ipv4Addr :=
  match (splitDots address.toList).mapM parseOctet with
  | some [a, b, c, d] => some (a, b, c, d)
  | _ => none

/-- The number printed has more than one digit behind the point. -/
def hasMoreThanOneDecimal (n : Rat) : Bool := (10 * n).den ≠ 1

/-- By how much the intervals miss the running time. -/
def intervalError (args : NPerf) : Rat :=
  let interval := F64.ofRat args.interval
  let time := F64.ofRat args.time.toNat
  |F64.sub (F64.mul interval (F64.round (F64.div time interval))) time|

/-- Mbit/s in total become byte/s for each socket; a shared socket gets all. -/
def bandwidthPerThread (build : Build) (args : NPerf) : Except Fault Nat := do
  let share ← if args.multiplexPort ≠ .sharing then
      if args.parallel.toNat = 0 then .error .divideByZero
      else .ok (args.bandwidth.toNat / args.parallel.toNat)
    else .ok args.bandwidth.toNat
  let kilo ← build.u64 (share / 8 * 1000 : Nat)
  build.u64 (kilo * 1000 : Nat)

def parseSocketOptions (build : Build) (args : NPerf) (mode : NPerfMode) :
    Except Fault SocketOptions := do
  let pacing ← args.bandwidthPerThread build
  .ok { nonblocking := !args.withoutNonBlocking
        ipFragmentation := args.withIpFrag
        reuseport := match mode with
          | .sender => args.multiplexPort = .sharding
          | .receiver => args.multiplexPortReceiver = .sharding
        gso := if args.withGsro ∧ mode = .sender then some args.datagramSize.toNat else none
        gro := mode = .receiver ∧ args.withGsro
        socketPacingRate := pacing }

/-- The number the check of the threads against the cores compares with. -/
def threadsTwice (build : Build) (coresAmount : Nat) (parameter : Parameter) : Except Fault Nat :=
  if parameter.amountThreads ≤ asU16 coresAmount then build.u16 (parameter.amountThreads * 2 : Nat)
  else .ok 0

/-- The checks that end in `None`, in the source's order; the ones that only
warn are left out, except for the arithmetic they do. -/
def rejected (build : Build) (args : NPerf) (coresAmount : Nat) (parameter : Parameter) :
    Except Fault Bool := do
  if maxUdpDatagramSize < parameter.datagramSize then .ok true
  else
    let _ ← threadsTwice build coresAmount parameter
    if args.uringRingSize.toNat ∉ (List.range 32).map (2 ^ ·) then .ok true
    else if args.uringRingSize.toNat < parameter.uringParameter.burstSize then .ok true
    else if uringMaxRingSize < args.uringRingSize.toNat then .ok true
    else if args.ioModel = .ioUring ∧ args.uringMode = .zerocopy ∧ parameter.mode ≠ .sender then
      .ok true
    else if 0 < args.interval ∧ F64.ofRat (1 / 1000000000) < args.intervalError then .ok true
    else if 0 < args.interval ∧ args.time.toNat = 0 ∧ args.mode = .receiver then .ok true
    else if hasMoreThanOneDecimal args.interval then .ok true
    else if 0 < args.bandwidth.toNat ∧ args.mode ≠ .receiver ∧
        2 ^ 64 - 1 ≤ args.bandwidth.toNat / 8 / 1000 / 1000 then
      .ok true
    else .ok false

/-- What `parameter_check` changes in a parameter set it accepts. -/
def adjust (args : NPerf) (parameter : Parameter) : Parameter :=
  let uring := parameter.uringParameter
  let sqpoll := uring.sqpoll || (args.uringSqpollShared && !args.uringSqpoll)
  { parameter with
    socketOptions := { parameter.socketOptions with
      socketPacingRate := if 0 < args.bandwidth.toNat ∧ args.mode = .receiver then 0
        else parameter.socketOptions.socketPacingRate }
    packetBufferSize :=
      if (args.ioModel = .ioUring ∧ args.uringMode = .normal) ∨ args.uringMode = .zerocopy then
        uring.bufferSize
      else parameter.packetBufferSize
    uringParameter := { uring with
      sqpoll := sqpoll
      taskWork := if sqpoll ∧ uring.taskWork ≠ .default then .default else uring.taskWork } }

def parameterCheck (build : Build) (args : NPerf) (coresAmount : Nat) (parameter : Parameter) :
    Except Fault (Option Parameter) := do
  if ← args.rejected build coresAmount parameter then .ok none
  else .ok (some (args.adjust parameter))

/-- A burst size that was not given, or given as the default, follows the ring. -/
def burstSize (args : NPerf) : Nat :=
  if args.uringBurstSize.toNat = defaultUringRingSize / uringBurstSizeDividend then
    (args.uringRingSize.toNat + uringBurstSizeDividend - 1) / uringBurstSizeDividend
  else args.uringBurstSize.toNat

def uringParameters (build : Build) (args : NPerf) : Except Fault UringParameter := do
  let bufferSize ← build.u32 (args.uringRingSize.toNat * uringBufferSizeMultiplicator : Nat)
  .ok { uringMode := args.uringMode
        ringSize := args.uringRingSize.toNat
        burstSize := args.burstSize
        bufferSize := bufferSize
        sqpoll := args.uringSqpoll
        sqpollShared := args.uringSqpollShared
        sqFillingMode := args.uringSqMode
        taskWork := args.uringTaskWork
        recordUtilization := args.uringRecordUtilization }

/-- The arguments of `Parameter::new`. -/
def parameter (args : NPerf) (ipv4 : Ipv4Addr) (socketOptions : SocketOptions)
    (uringParameter : UringParameter) : Parameter :=
  { mode := args.mode
    ip := ipv4
    amountThreads := args.parallel.toNat
    outputInterval := F64.ofRat args.interval
    ioModel := args.ioModel
    testRuntimeLength := args.time.toNat
    mss := if args.withGsro then args.withGsoBuffer.toNat else args.withMss.toNat
    datagramSize := args.datagramSize.toNat
    packetBufferSize := match args.exchangeFunction with
      | .mmsg => args.withMmsgAmount.toNat
      | _ => 1
    socketOptions := socketOptions
    exchangeFunction := args.exchangeFunction
    multiplexPort := args.multiplexPort
    multiplexPortReceiver := args.multiplexPortReceiver
    simulateConnection := match args.multiplexPortReceiver with
      | .sharing => .single
      | _ => .multiple
    coreAffinity := args.withCoreAffinity
    numaAffinity := args.withNumaAffinity
    uringParameter := uringParameter }

/-- The ceiling of the burst size is exact: a ring too long for an `f32` is
rejected anyway. -/
def parseParameter (args : NPerf) (build : Build) (coresAmount : Nat) :
    Except Fault (Option Parameter) :=
  if args.markdownHelp then .ok none
  else match parseIpv4 args.ip with
  | none => .ok none
  | some ipv4 => do
    let socketOptions ← args.parseSocketOptions build args.mode
    let uringParameter ← args.uringParameters build
    args.parameterCheck build coresAmount (args.parameter ipv4 socketOptions uringParameter)

/-- Packets that are nothing but a header. -/
def headersOnly : NPerf := { NPerf.default with withMss := 24, datagramSize := 24 }

/-- Messages with room for two such packets. -/
def twoSlots (mode : NPerfMode) : NPerf :=
  { headersOnly with mode := mode, withMss := 48 }

/-- A receiver with the smallest ring. -/
def oneEntry (mode : UringMode) : NPerf :=
  { headersOnly with ioModel := .ioUring, uringMode := mode, uringRingSize := 1 }

end NPerf

/-- The parameter set of `NPerf.headersOnly`. -/
def Parameter.headersOnly : Parameter :=
  { mode := .receiver
    ip := (0, 0, 0, 0)
    amountThreads := 1
    outputInterval := 0
    ioModel := .select
    testRuntimeLength := 10
    mss := 24
    datagramSize := 24
    packetBufferSize := 1
    socketOptions :=
      { nonblocking := true
        ipFragmentation := false
        reuseport := false
        gso := none
        gro := false
        socketPacingRate := 0 }
    exchangeFunction := .msg
    multiplexPort := .individual
    multiplexPortReceiver := .individual
    simulateConnection := .multiple
    coreAffinity := false
    numaAffinity := false
    uringParameter :=
      { uringMode := .normal
        ringSize := 16
        burstSize := 4
        bufferSize := 64
        sqpoll := false
        sqpollShared := false
        sqFillingMode := .topup
        taskWork := .default
        recordUtilization := false } }

def Parameter.twoSlots (mode : NPerfMode) : Parameter :=
  { Parameter.headersOnly with mode := mode, mss := 48 }

def Parameter.oneEntry (mode : UringMode) : Parameter :=
  { Parameter.headersOnly with
    ioModel := .ioUring
    packetBufferSize := if mode = .normal then 4 else 1
    uringParameter := { Parameter.headersOnly.uringParameter with
      uringMode := mode
      ringSize := 1
      burstSize := 1
      bufferSize := 4 } }

example : NPerf.headersOnly.parseParameter .debug 8 = .ok (some Parameter.headersOnly) := by
  decide +kernel

/-- One interval of ten seconds. -/
def Parameter.tenSeconds : Parameter := { Parameter.headersOnly with outputInterval := 10 }

example : { NPerf.headersOnly with interval := 10 }.parseParameter .debug 8 =
    .ok (some Parameter.tenSeconds) := by
  decide +kernel

/-- The product is an `f64` as well, and misses the running time. -/
example : { NPerf.headersOnly with interval := 11 / 10, time := 100000010 }.parseParameter
    .debug 8 = .ok none := by
  decide +kernel

end Nperf
