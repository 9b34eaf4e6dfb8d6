import Mathlib.Data.List.AList
import Nperf.Model.ReceiverRun

namespace Nperf
open Rust

/-- What the kernel keeps of an open socket. -/
structure OpenSocket where
  reuseport : Bool
  port : Option Nat
  deriving DecidableEq, Repr

/-- The open sockets of the process, by their descriptors. -/
abbrev SocketTable := AList fun _ : Nat => OpenSocket

namespace SocketTable

/-- Another socket has the port, and not both of them share it. The sockets of
a receiver are all bound to one address. -/
def InUse (t : SocketTable) (fd : Nat) (socket : OpenSocket) (port : Nat) : Prop :=
  ∃ other ∈ t.entries,
    other.1 ≠ fd ∧ other.2.port = some port ∧ ¬(other.2.reuseport ∧ socket.reuseport)

instance decidableInUse (t : SocketTable) (fd : Nat) (socket : OpenSocket) (port : Nat) :
    Decidable (t.InUse fd socket port) :=
  inferInstanceAs (Decidable (∃ other ∈ t.entries, _))

/-- A call on a descriptor that is not open changes nothing. -/
def update (t : SocketTable) (fd : Nat) (f : OpenSocket → OpenSocket) : SocketTable :=
  match t.lookup fd with
  | some socket => t.insert fd (f socket)
  | none => t

end SocketTable

/-- How far `Socket::new` and `bind` have come with a new socket. -/
inductive Opening
  | new
  | created (fd : Nat)
  | configured (fd : Nat)
  | bound (fd : Nat)
  deriving DecidableEq, Repr

/-- The calls with the answers of the kernel. `set_socket_options` begins with
`SO_REUSEPORT`; `rest` is whether all that follows succeeds. -/
inductive SocketCall
  | socket (fd : Option Nat)
  | setSocketOptions (reuseport rest : Bool)
  | bind (port : Option Nat)
  deriving DecidableEq, Repr

namespace Opening

/-- The next call of a thread that opens a socket for a port. After a call that
fails it panics in `expect`, and the socket stays as it is. The kernel may
refuse any call; port 0 leaves the choice of the port to it. -/
def step (options : SocketOptions) (port : Nat) (t : SocketTable) :
    Opening → SocketCall → Except Stop (Option Opening × SocketTable)
  | .new, .socket none => .ok (none, t)
  | .new, .socket (some fd) =>
    if fd ∈ t then .error .disabled
    else .ok (some (.created fd), t.insert fd { reuseport := false, port := none })
  | .created fd, .setSocketOptions reuseport rest =>
    let t := if reuseport then t.update fd ({ · with reuseport := options.reuseport }) else t
    .ok (if reuseport ∧ rest then some (.configured fd) else none, t)
  | .configured _, .bind none => .ok (none, t)
  | .configured fd, .bind (some p) =>
    match t.lookup fd with
    | none => .error .disabled
    | some socket =>
      if (port = 0 ∨ p = port) ∧ ¬t.InUse fd socket p then
        .ok (some (.bound fd), t.update fd ({ · with port := some p }))
      else .error .disabled
  | _, _ => .error .disabled

/-- The descriptor the thread has by now. -/
def fd : Opening → Option Nat
  | .new => none
  | .created fd => some fd
  | .configured fd => some fd
  | .bound fd => some fd

end Opening
end Nperf
