import Nperf.Lib.F64
import Nperf.Lib.Rust

namespace Nperf

-- lib.rs
def waitControlMessage : Nat := 400
def maxTestId : Nat := 1024
def maxUdpDatagramSize : Nat := 65535 - 8 - 20
def lengthMsghdrControlMessageBuffer : Nat := 24
def defaultUringRingSize : Nat := 16
def uringBufferSizeMultiplicator : Nat := 4
def uringBurstSizeDividend : Nat := 4
def uringMaxRingSize : Nat := 2048
def uringAdditionalBufferLength : Int := 40

inductive NPerfMode | receiver | sender
  deriving DecidableEq, Repr

inductive ExchangeFunction | normal | msg | mmsg
  deriving DecidableEq, Repr

inductive IOModel | select | poll | busyWaiting | ioUring
  deriving DecidableEq, Repr

inductive MultiplexPort | individual | sharing | sharding
  deriving DecidableEq, Repr

inductive SimulateConnection | single | multiple
  deriving DecidableEq, Repr

inductive UringSqFillingMode | topup | topupNoWait | syscall
  deriving DecidableEq, Repr

inductive UringTaskWork | default | coop | defer | coopDefer
  deriving DecidableEq, Repr

inductive UringMode | normal | zerocopy | providedBuffer | multishot
  deriving DecidableEq, Repr

structure UringParameter where
  uringMode : UringMode
  ringSize : Nat
  burstSize : Nat
  bufferSize : Nat
  sqpoll : Bool
  sqpollShared : Bool
  sqFillingMode : UringSqFillingMode
  taskWork : UringTaskWork
  recordUtilization : Bool
  deriving DecidableEq, Repr

structure SocketOptions where
  nonblocking : Bool
  ipFragmentation : Bool
  reuseport : Bool
  gso : Option Nat
  gro : Bool
  socketPacingRate : Nat
  deriving DecidableEq, Repr

/-- An IPv4 address by its four octets. -/
abbrev Ipv4Addr := Nat × Nat × Nat × Nat

/-- What `parse_parameter` hands to the nodes. `outputInterval` is in seconds,
the number that its `f64` holds. Labels and output format, which only printing reads, and
the socket buffer sizes, which only the kernel reads, are left out. -/
structure Parameter where
  mode : NPerfMode
  ip : Ipv4Addr
  amountThreads : Nat
  outputInterval : Rat
  ioModel : IOModel
  testRuntimeLength : Nat
  mss : Nat
  datagramSize : Nat
  packetBufferSize : Nat
  socketOptions : SocketOptions
  exchangeFunction : ExchangeFunction
  multiplexPort : MultiplexPort
  multiplexPortReceiver : MultiplexPort
  simulateConnection : SimulateConnection
  coreAffinity : Bool
  numaAffinity : Bool
  uringParameter : UringParameter
  deriving DecidableEq, Repr

/-- The errors a function returns, one constructor for each text. -/
inductive Error
  | eagain
  | econnrefused
  | emsgsize
  | failedToSend
  | failedToReceive
  | bufferIsEmpty
  | startReceiverFirst
  | initMessageReceived
  | lastMessageReceived
  | testIdTooGreat
  | bufferOutOfBounds
  | msghdrOutOfBounds
  | noBuffersLeft
  | uringPush
  | uringEnter
  | invalidReceiverMode
  | invalidSenderMode
  | timeout
  | pollFailed
  | selectFailed
  | failedToClose
  | uringCreate
  | recvmsgMultiUnsupported
  | provideBuffersUnsupported
  | sendmsgZcUnsupported
  deriving DecidableEq, Repr

def Error.text : Error → String
  | .eagain => "EAGAIN"
  | .econnrefused => "ECONNREFUSED"
  | .emsgsize => "EMSGSIZE"
  | .failedToSend => "Failed to send data"
  | .failedToReceive => "Failed to receive data!"
  | .bufferIsEmpty => "Buffer is empty"
  | .startReceiverFirst => "Start the receiver first! Abort measurement..."
  | .initMessageReceived => "INIT_MESSAGE_RECEIVED"
  | .lastMessageReceived => "LAST_MESSAGE_RECEIVED"
  | .testIdTooGreat => "Received test id is greater than the maximum test id"
  | .bufferOutOfBounds => "Getting buffer pointer of msghdr is out of bounds!"
  | .msghdrOutOfBounds => "Getting msghdr is out of bounds!"
  | .noBuffersLeft => "No buffers left in packet_buffer"
  | .uringPush => "IO_URING ERROR"
  | .uringEnter => "IO_URING_ERROR"
  | .invalidReceiverMode => "Invalid io_uring mode selected for receiver!"
  | .invalidSenderMode => "Invalid io_uring mode for sender"
  | .timeout => "TIMEOUT"
  | .pollFailed => "Error occured executing poll()"
  | .selectFailed => "Error calling select"
  | .failedToClose => "Failed to close socket"
  | .uringCreate => "Failed to create io_uring"
  | .recvmsgMultiUnsupported => "IORING_OP_RECVMSG_MULTI is not supported in the kernel!"
  | .provideBuffersUnsupported => "IORING_OP_PROVIDE_BUFFERS is not supported in the kernel!"
  | .sendmsgZcUnsupported => "IORING_OP_SENDMSG_ZC is not supported in the kernel!"

def Error.all : List Error :=
  [.eagain, .econnrefused, .emsgsize, .failedToSend, .failedToReceive, .bufferIsEmpty,
    .startReceiverFirst, .initMessageReceived, .lastMessageReceived, .testIdTooGreat,
    .bufferOutOfBounds, .msghdrOutOfBounds, .noBuffersLeft, .uringPush, .uringEnter,
    .invalidReceiverMode, .invalidSenderMode, .timeout, .pollFailed, .selectFailed, .failedToClose,
    .uringCreate, .recvmsgMultiUnsupported, .provideBuffersUnsupported, .sendmsgZcUnsupported]

theorem Error.mem_all (e : Error) : e ∈ Error.all := by
  cases e <;> decide

/-- The program tells its errors apart by text alone. -/
theorem text_injective {e e' : Error} (h : e.text = e'.text) : e = e' := by
  have hall : ∀ e ∈ Error.all, ∀ e' ∈ Error.all, e.text = e'.text → e = e' := by
    decide +kernel
  exact hall e e.mem_all e' e'.mem_all h

end Nperf
