import Nperf.Model.Config

namespace Nperf
open Rust

/-- The texts `set_affinity` returns. -/
inductive AffinityError
  | nodeOutOfBounds
  | noCpuSet
  | notInCpuSet
  | bindFailed
  deriving DecidableEq, Repr

def AffinityError.text : AffinityError → String
  | .nodeOutOfBounds => "NUMA node index out of bounds"
  | .noCpuSet => "Failed to get CPU set for NUMA node"
  | .notInCpuSet => "Failed to get core ID from CPU set"
  | .bindFailed => "Error binding thread to core"

/-- A NUMA node object: the indices in its CPU set, in ascending order. -/
structure NumaNode where
  cpuset : Option (List Nat)
  deriving DecidableEq, Repr

/-- What `hwlocality` finds on the machine. All of it lies in memory, so no
count reaches the sign bit. -/
structure Topology where
  puCount : Bool
  /-- `get_thread` and `set_thread` -/
  cpuBinding : Option (Bool × Bool)
  pus : Nat
  numaNodes : List NumaNode
  pus_lt : pus < 2 ^ 63
  nodes_lt : numaNodes.length < 2 ^ 63
  cpus_lt : ∀ node ∈ numaNodes, ∀ cpus ∈ node.cpuset, cpus.length < 2 ^ 63

structure CoreAffinityManager where
  topology : Topology
  mode : NPerfMode
  numaAffinity : Bool
  amountCpus : Nat
  nextNumaNode : Nat
  nextCoreId : Nat

/-- What a call of `set_affinity` chose: the core within the node, the node,
the core of the machine, and how binding to it went. -/
structure Placement where
  coreId : Nat
  numaNode : Nat
  core : Except AffinityError Nat
  result : Except AffinityError Unit

namespace CoreAffinityManager

/-- The CPUs the threads go round, and whether NUMA affinity stays on. -/
def available (topology : Topology) (numaAffinity : Bool) : Except Fault (Nat × Bool) :=
  if numaAffinity then
    match topology.numaNodes with
    | [] => .ok (topology.pus, false)
    | node :: _ =>
      match node.cpuset with
      | none => .error .unwrap
      | some cpus => .ok (cpus.length, true)
  else .ok (topology.pus, false)

def firstCore (mode : NPerfMode) (firstCoreId : Option Nat) (amountCpus : Nat) :
    Except Fault Nat :=
  match firstCoreId, mode with
  | some coreId, _ => .ok coreId
  | none, .receiver => checkedSub amountCpus 1
  | none, .sender => .ok 0

def new (topology : Topology) (mode : NPerfMode) (firstCoreId : Option Nat)
    (numaAffinity : Bool) : Except Fault CoreAffinityManager := do
  if ¬topology.puCount ∨ topology.cpuBinding ≠ some (true, true) then .error .explicit
  else
    let (amountCpus, numaAffinity) ← available topology numaAffinity
    let nextCoreId ← firstCore mode firstCoreId amountCpus
    .ok { topology := topology
          mode := mode
          numaAffinity := numaAffinity
          amountCpus := amountCpus
          nextNumaNode := 0
          nextCoreId := nextCoreId }

/-- `((core_id as isize + delta) % amount_cpus as isize) as usize`: the
remainder has the sign of the dividend. -/
def stepCore (build : Build) (coreId : Nat) (delta : Int) (amountCpus : Nat) :
    Except Fault Nat := do
  let next ← build.i64 (asI64 coreId + delta)
  if amountCpus = 0 then .error .divideByZero
  else .ok (next.tmod (asI64 amountCpus) % 2 ^ 64).toNat

def forwardNumaNode (m : CoreAffinityManager) (build : Build) :
    Except Fault (Nat × CoreAffinityManager) := do
  let next ← build.u64 (m.nextNumaNode + 1 : Nat)
  if m.topology.numaNodes.length = 0 then .error .divideByZero
  else
    let node := next % m.topology.numaNodes.length
    .ok (node, { m with nextNumaNode := node })

def getCoreId (m : CoreAffinityManager) (build : Build) :
    Except Fault (Nat × CoreAffinityManager) := do
  let returnCoreId := m.nextCoreId
  let delta : Int := if m.mode = .receiver then -1 else 1
  if m.numaAffinity then
    let (node, m) ← m.forwardNumaNode build
    if node = 0 then
      let next ← stepCore build returnCoreId delta m.amountCpus
      .ok (returnCoreId, { m with nextCoreId := next })
    else .ok (returnCoreId, m)
  else
    let next ← stepCore build returnCoreId delta m.amountCpus
    .ok (returnCoreId, { m with nextCoreId := next })

/-- With NUMA affinity a core id is relative to the node. -/
def absoluteCore (m : CoreAffinityManager) (coreId : Nat) : Except AffinityError Nat :=
  if m.numaAffinity then
    match m.topology.numaNodes[m.nextNumaNode]? with
    | none => .error .nodeOutOfBounds
    | some node =>
      match node.cpuset with
      | none => .error .noCpuSet
      | some cpus =>
        match cpus[coreId]? with
        | none => .error .notInCpuSet
        | some core => .ok core
  else .ok coreId

/-- `bindCpu` is the kernel's part: whether it binds the thread to a core. -/
def setAffinity (m : CoreAffinityManager) (build : Build) (bindCpu : Nat → Bool) :
    Except Fault (Placement × CoreAffinityManager) := do
  let (coreId, m) ← m.getCoreId build
  let core := m.absoluteCore coreId
  .ok ({ coreId := coreId
         numaNode := m.nextNumaNode
         core := core
         result := core.bind fun core => if bindCpu core then .ok () else .error .bindFailed }, m)

/-- The threads take turns: one call each, in the order they get the lock. -/
def setAffinities (m : CoreAffinityManager) (build : Build) :
    List (Nat → Bool) → Except Fault (List Placement)
  | [] => .ok []
  | bindCpu :: calls => do
    let (placement, m) ← m.setAffinity build bindCpu
    let placements ← m.setAffinities build calls
    .ok (placement :: placements)

end CoreAffinityManager

/-- Four cores on two NUMA nodes. -/
def Topology.twoNodes : Topology :=
  { puCount := true
    cpuBinding := some (true, true)
    pus := 4
    numaNodes := [⟨some [0, 1]⟩, ⟨some [2, 3]⟩]
    pus_lt := by decide
    nodes_lt := by decide
    cpus_lt := by decide }

end Nperf
