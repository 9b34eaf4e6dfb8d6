import Nperf.Model.CoreAffinity

namespace Nperf.CoreAffinityManager
open Rust

theorem stepCore_forward (build : Build) {coreId amountCpus : Nat} (hcore : coreId < amountCpus)
    (hsmall : amountCpus < 2 ^ 63) :
    stepCore build coreId 1 amountCpus = .ok ((coreId + 1) % amountCpus) := by
  have hmod := Nat.mod_lt (coreId + 1) (show 0 < amountCpus by omega)
  have hnext : ((coreId : Int) + 1).tmod amountCpus = ((coreId + 1) % amountCpus : Nat) := by
    rw [Int.natCast_emod, Int.tmod_eq_emod_of_nonneg (by omega), Int.natCast_add]
    rfl
  simp only [stepCore]
  rw [asI64_fits (by omega), asI64_fits hsmall, i64_fits build (by omega) (by omega), ok_bind,
    if_neg (by omega), hnext]
  congr 1
  omega

theorem stepCore_backward (build : Build) {coreId amountCpus : Nat}
    (hcore : coreId + 1 < amountCpus) (hsmall : amountCpus < 2 ^ 63) :
    stepCore build (coreId + 1) (-1) amountCpus = .ok coreId := by
  have hnext : ((coreId + 1 : Nat) : Int) + -1 = coreId := by omega
  simp only [stepCore]
  rw [asI64_fits (by omega), asI64_fits hsmall, hnext, i64_fits build (by omega) (by omega),
    ok_bind, if_neg (by omega), Int.tmod_eq_of_lt (by omega) (by omega)]
  congr 1
  omega

/-- The sign survives the remainder, and the cast takes it for a large core. -/
theorem stepCore_wraps (build : Build) {amountCpus : Nat} (htwo : 2 ≤ amountCpus)
    (hsmall : amountCpus < 2 ^ 63) :
    stepCore build 0 (-1) amountCpus = .ok (2 ^ 64 - 1) := by
  have hnext : (-1 : Int).tmod amountCpus = -1 := by
    rw [Int.neg_tmod, Int.tmod_eq_of_lt (by omega) (by omega)]
  simp only [stepCore]
  rw [asI64_fits (by omega), asI64_fits hsmall, i64_fits build (by omega) (by omega), ok_bind,
    if_neg (by omega)]
  have hzero : ((0 : Nat) : Int) + -1 = -1 := by omega
  rw [hzero, hnext]
  rfl

theorem stepCore_single (build : Build) : stepCore build 0 (-1) 1 = .ok 0 := by
  cases build with
  | debug => rfl
  | release => rfl

/-- The cores that `get_core_id` returned, call by call. -/
def coreIds (m : CoreAffinityManager) (build : Build) (calls : List (Nat → Bool)) :
    Except Fault (List Nat) :=
  (m.setAffinities build calls).map (·.map Placement.coreId)

section
variable {m : CoreAffinityManager} {build : Build} {next : Nat}

theorem coreIds_call {coreId : Nat} {m' : CoreAffinityManager}
    (h : m.getCoreId build = .ok (coreId, m')) (bindCpu : Nat → Bool) (calls : List (Nat → Bool)) :
    m.coreIds build (bindCpu :: calls) = (m'.coreIds build calls).map (coreId :: ·) := by
  simp only [coreIds, setAffinities, setAffinity, h, ok_bind]
  cases m'.setAffinities build calls with
  | error f => rfl
  | ok placements => rfl

theorem getCoreId_ok {coreId : Nat} {m' : CoreAffinityManager}
    (h : m.getCoreId build = .ok (coreId, m')) : coreId = m.nextCoreId := by
  simp only [getCoreId] at h
  split at h
  · obtain ⟨forwarded, _, h⟩ := bind_ok.mp h
    split at h
    · obtain ⟨next, _, h⟩ := bind_ok.mp h
      cases h
      rfl
    · cases h
      rfl
  · obtain ⟨next, _, h⟩ := bind_ok.mp h
    cases h
    rfl

theorem coreIds_head {bindCpu : Nat → Bool} {calls : List (Nat → Bool)} {ids : List Nat}
    (h : m.coreIds build (bindCpu :: calls) = .ok ids) : m.nextCoreId ∈ ids := by
  cases hcall : m.getCoreId build with
  | error f =>
    simp only [coreIds, setAffinities, setAffinity, hcall, error_bind, map_error] at h
    cases h
  | ok called =>
    obtain ⟨coreId, m'⟩ := called
    rw [coreIds_call hcall] at h
    obtain ⟨rest, _, rfl⟩ := map_eq_ok.mp h
    rw [getCoreId_ok hcall]
    exact List.mem_cons_self

theorem coreIds_cons (hnuma : m.numaAffinity = false)
    (hstep : stepCore build m.nextCoreId (if m.mode = .receiver then -1 else 1) m.amountCpus =
      .ok next) (bindCpu : Nat → Bool) (calls : List (Nat → Bool)) :
    m.coreIds build (bindCpu :: calls) =
      ({ m with nextCoreId := next }.coreIds build calls).map (m.nextCoreId :: ·) := by
  apply coreIds_call
  simp only [getCoreId, hnuma, Bool.false_eq_true, if_false, hstep, ok_bind]

/-- Where the step goes round, the cores come round again. -/
theorem coreIds_forward (hnuma : m.numaAffinity = false)
    (hround : ∀ coreId, coreId < m.amountCpus →
      stepCore build coreId (if m.mode = .receiver then -1 else 1) m.amountCpus =
        .ok ((coreId + 1) % m.amountCpus))
    (hcore : m.nextCoreId < m.amountCpus) (calls : List (Nat → Bool)) :
    m.coreIds build calls =
      .ok ((List.range calls.length).map (fun i => (m.nextCoreId + i) % m.amountCpus)) := by
  induction calls generalizing m with
  | nil => rfl
  | cons bindCpu calls ih =>
    have hrest := ih (m := { m with nextCoreId := (m.nextCoreId + 1) % m.amountCpus }) hnuma hround
      (Nat.mod_lt _ (by omega))
    rw [coreIds_cons hnuma (hround _ hcore), hrest, map_ok, List.length_cons,
      List.range_succ_eq_map, List.map_cons, List.map_map]
    simp only [Nat.add_zero, Nat.mod_eq_of_lt hcore, Nat.mod_add_mod]
    congr 2
    apply List.map_congr_left
    intro i _
    simp only [Function.comp_apply]
    congr 1
    omega

/-- Downwards as far as there are cores. -/
theorem coreIds_backward (hnuma : m.numaAffinity = false) (hmode : m.mode = .receiver)
    (hcore : m.nextCoreId < m.amountCpus) (hsmall : m.amountCpus < 2 ^ 63)
    (calls : List (Nat → Bool)) (hcalls : calls.length ≤ m.nextCoreId + 1) :
    m.coreIds build calls = .ok ((List.range calls.length).map (m.nextCoreId - ·)) := by
  induction calls generalizing m with
  | nil => rfl
  | cons bindCpu calls ih =>
    rw [List.length_cons] at hcalls
    cases hid : m.nextCoreId with
    | zero =>
      have hnone : calls = [] := List.length_eq_zero_iff.mp (by omega)
      have hwrap : ∃ next, stepCore build 0 (-1) m.amountCpus = .ok next := by
        by_cases hone : m.amountCpus = 1
        · exact ⟨0, hone ▸ stepCore_single build⟩
        · exact ⟨_, stepCore_wraps build (by omega) hsmall⟩
      obtain ⟨next, hnext⟩ := hwrap
      have hstep : stepCore build m.nextCoreId (if m.mode = .receiver then -1 else 1)
          m.amountCpus = .ok next := by
        rw [hmode, hid]
        exact hnext
      rw [coreIds_cons hnuma hstep, hnone, hid]
      rfl
    | succ coreId =>
      have hstep : stepCore build m.nextCoreId (if m.mode = .receiver then -1 else 1)
          m.amountCpus = .ok coreId := by
        rw [hmode, hid]
        exact stepCore_backward build (by omega) hsmall
      rw [coreIds_cons hnuma hstep, ih (m := { m with nextCoreId := coreId }) hnuma hmode
        (show coreId < m.amountCpus by omega) hsmall (show calls.length ≤ coreId + 1 by omega),
        map_ok, List.length_cons, List.range_succ_eq_map, List.map_cons, List.map_map, hid,
        Nat.sub_zero]
      congr 2
      apply List.map_congr_left
      intro i _
      simp only [Function.comp_apply]
      omega

/-- One call more than there are cores left below, and the count goes wrong. -/
theorem coreIds_wraps (hnuma : m.numaAffinity = false) (hmode : m.mode = .receiver)
    (htwo : 2 ≤ m.amountCpus) (hcore : m.nextCoreId < m.amountCpus)
    (hsmall : m.amountCpus < 2 ^ 63) {calls : List (Nat → Bool)}
    (hcalls : m.nextCoreId + 1 < calls.length) {ids : List Nat}
    (h : m.coreIds build calls = .ok ids) : 2 ^ 64 - 1 ∈ ids := by
  induction calls generalizing m ids with
  | nil => cases hcalls
  | cons bindCpu calls ih =>
    rw [List.length_cons] at hcalls
    cases hid : m.nextCoreId with
    | zero =>
      have hstep : stepCore build m.nextCoreId (if m.mode = .receiver then -1 else 1)
          m.amountCpus = .ok (2 ^ 64 - 1) := by
        rw [hmode, hid]
        exact stepCore_wraps build htwo hsmall
      rw [coreIds_cons hnuma hstep] at h
      obtain ⟨rest, hrest, rfl⟩ := map_eq_ok.mp h
      cases calls with
      | nil =>
        simp only [List.length_nil] at hcalls
        omega
      | cons bindCpu' calls => exact List.mem_cons_of_mem _ (coreIds_head hrest)
    | succ coreId =>
      have hstep : stepCore build m.nextCoreId (if m.mode = .receiver then -1 else 1)
          m.amountCpus = .ok coreId := by
        rw [hmode, hid]
        exact stepCore_backward build (by omega) hsmall
      rw [coreIds_cons hnuma hstep] at h
      obtain ⟨rest, hrest, rfl⟩ := map_eq_ok.mp h
      exact List.mem_cons_of_mem _ (ih (m := { m with nextCoreId := coreId }) hnuma hmode htwo
        (show coreId < m.amountCpus by omega) hsmall (show coreId + 1 < calls.length by omega)
        hrest)

end

/-- What is asked of the cores handed out for `amountCpus` CPUs: they exist,
and as many calls as there are CPUs get different ones. -/
structure Fair (amountCpus : Nat) (ids : List Nat) : Prop where
  inRange : ∀ coreId ∈ ids, coreId < amountCpus
  distinct : ∀ i, i + amountCpus ≤ ids.length → ((ids.drop i).take amountCpus).Nodup

theorem Fair.of_map {amountCpus calls : Nat} {f : Nat → Nat}
    (hrange : ∀ i, i < calls → f i < amountCpus)
    (hne : ∀ i j, i < j → j < i + amountCpus → j < calls → f i ≠ f j) :
    Fair amountCpus ((List.range calls).map f) := by
  refine ⟨?_, ?_⟩
  · intro coreId hid
    obtain ⟨i, hi, rfl⟩ := List.mem_map.mp hid
    exact hrange i (List.mem_range.mp hi)
  · intro i hi
    apply List.pairwise_iff_getElem.mpr
    intro a b ha hb hab
    simp only [List.length_take, List.length_drop, List.length_map, List.length_range] at hi ha hb
    simp only [List.getElem_take, List.getElem_drop, List.getElem_map, List.getElem_range]
    exact hne (i + a) (i + b) (by omega) (by omega) (by omega)

theorem add_mod_ne {start i j amountCpus : Nat} (hij : i < j) (hj : j < i + amountCpus) :
    (start + i) % amountCpus ≠ (start + j) % amountCpus := by
  intro h
  have hzero := Nat.sub_mod_eq_zero_of_mod_eq h.symm
  rw [Nat.mod_eq_of_lt (by omega)] at hzero
  omega

/-- What `new` builds for one thread a core. -/
theorem new_plain {topology : Topology} {mode : NPerfMode} {numaAffinity : Bool}
    {m : CoreAffinityManager} (h : new topology mode none numaAffinity = .ok m)
    (hnuma : m.numaAffinity = false) :
    m.mode = mode ∧ m.amountCpus = topology.pus ∧
      m.nextCoreId = if mode = .receiver then topology.pus - 1 else 0 := by
  simp only [new] at h
  split at h
  · cases h
  obtain ⟨⟨amountCpus, stays⟩, havailable, h⟩ := bind_ok.mp h
  obtain ⟨nextCoreId, hnext, h⟩ := bind_ok.mp h
  cases h
  have hamount : amountCpus = topology.pus := by
    simp only [available] at havailable
    split at havailable
    · split at havailable
      · cases havailable
        rfl
      · split at havailable
        · cases havailable
        · cases havailable
          cases hnuma
    · cases havailable
      rfl
  refine ⟨rfl, hamount, ?_⟩
  cases mode with
  | receiver =>
    simp only [firstCore, checkedSub] at hnext
    split at hnext
    · cases hnext
      rw [hamount, if_pos rfl]
    · cases hnext
  | sender =>
    cases hnext
    rfl

/-- The cores are handed out fairly upwards, and downwards only until each
has been used once. -/
theorem core_selection_iff {topology : Topology} {mode : NPerfMode} {numaAffinity : Bool}
    {m : CoreAffinityManager} (h : new topology mode none numaAffinity = .ok m)
    (hnuma : m.numaAffinity = false) (hcpus : 1 ≤ topology.pus) (build : Build)
    (calls : List (Nat → Bool)) :
    (∃ ids, m.coreIds build calls = .ok ids ∧ Fair topology.pus ids) ↔
      mode = .sender ∨ topology.pus = 1 ∨ calls.length ≤ topology.pus := by
  have hsmall := topology.pus_lt
  obtain ⟨hmode, hamount, hid⟩ := new_plain h hnuma
  cases mode with
  | sender =>
    refine ⟨fun _ => .inl rfl, fun _ => ⟨_, coreIds_forward hnuma ?_ ?_ calls, ?_⟩⟩
    · intro coreId hcore
      rw [hmode]
      exact stepCore_forward build hcore (hamount ▸ hsmall)
    · rw [hid, hamount]
      exact hcpus
    · rw [hamount]
      exact .of_map (fun i _ => Nat.mod_lt _ hcpus) (fun i j hij hj _ => add_mod_ne hij hj)
  | receiver =>
    rw [if_pos rfl] at hid
    constructor
    · rintro ⟨ids, hids, hfair⟩
      by_cases hone : topology.pus = 1
      · exact .inr (.inl hone)
      · refine .inr (.inr (Nat.le_of_not_lt fun hlt => ?_))
        have hmem := coreIds_wraps hnuma hmode (by omega) (by omega) (by omega) (by omega) hids
        have := hfair.inRange _ hmem
        omega
    · rintro (hsender | hone | hle)
      · cases hsender
      · refine ⟨_, coreIds_forward hnuma ?_ (by omega) calls, ?_⟩
        · intro coreId hcore
          have hzero : coreId = 0 := by omega
          rw [hmode, hamount, hone, hzero]
          exact stepCore_single build
        · rw [hamount]
          exact .of_map (fun i _ => Nat.mod_lt _ hcpus) (fun i j hij hj _ => add_mod_ne hij hj)
      · refine ⟨_, coreIds_backward hnuma hmode (by omega) (by omega) calls (by omega), ?_⟩
        rw [hid]
        exact .of_map (fun i _ => by omega) (fun i j hij _ hj => by omega)

theorem core_selection_iff_both :
    (∃ ids, coreIds ⟨.twoNodes, .sender, false, 4, 0, 0⟩ .debug (List.replicate 5 fun _ => true) =
        .ok ids ∧ Fair 4 ids) ∧
      ∃ ids, coreIds ⟨.twoNodes, .receiver, false, 4, 0, 3⟩ .debug
        (List.replicate 4 fun _ => true) = .ok ids ∧ Fair 4 ids := by
  have hsender : new .twoNodes .sender none false = .ok ⟨.twoNodes, .sender, false, 4, 0, 0⟩ := rfl
  have hreceiver : new .twoNodes .receiver none false =
    .ok ⟨.twoNodes, .receiver, false, 4, 0, 3⟩ := rfl
  exact ⟨(core_selection_iff hsender rfl (by decide) .debug _).mpr (.inl rfl),
    (core_selection_iff hreceiver rfl (by decide) .debug _).mpr (.inr (.inr (by decide)))⟩

/-- The fifth of five receiver threads on four cores. -/
theorem core_selection_underflow :
    ∃ m ids, new .twoNodes .receiver none false = .ok m ∧ m.numaAffinity = false ∧
      m.coreIds .release (List.replicate 5 fun _ => true) = .ok ids ∧
      ids = [3, 2, 1, 0, 2 ^ 64 - 1] ∧ ¬Fair 4 ids := by
  refine ⟨_, _, rfl, rfl, rfl, rfl, ?_⟩
  intro hfair
  have := hfair.inRange (2 ^ 64 - 1) (by decide)
  omega

/-- The cores of a node in the order the threads take them. -/
def relativeCore (mode : NPerfMode) (amountCpus round : Nat) : Nat :=
  if mode = .receiver then amountCpus - 1 - round else round

theorem relativeCore_lt {mode : NPerfMode} {amountCpus round : Nat} (h : round < amountCpus) :
    relativeCore mode amountCpus round < amountCpus := by
  simp only [relativeCore]
  split
  · omega
  · exact h

theorem relativeCore_injective {mode : NPerfMode} {amountCpus a b : Nat} (ha : a < amountCpus)
    (hb : b < amountCpus) (h : relativeCore mode amountCpus a = relativeCore mode amountCpus b) :
    a = b := by
  simp only [relativeCore] at h
  split at h
  · omega
  · exact h

/-- After a round the next core is due, if there is one. -/
theorem stepCore_relative (build : Build) (mode : NPerfMode) {amountCpus round : Nat}
    (hround : round < amountCpus) (hsmall : amountCpus < 2 ^ 63) :
    ∃ next, stepCore build (relativeCore mode amountCpus round) (if mode = .receiver then -1 else 1)
        amountCpus = .ok next ∧
      (round + 1 < amountCpus → next = relativeCore mode amountCpus (round + 1)) := by
  cases mode with
  | sender =>
    refine ⟨_, stepCore_forward build hround hsmall, fun hlt => ?_⟩
    exact Nat.mod_eq_of_lt hlt
  | receiver =>
    by_cases hlast : round + 1 < amountCpus
    · have hpred : relativeCore .receiver amountCpus round =
          relativeCore .receiver amountCpus (round + 1) + 1 := by
        simp only [relativeCore, if_pos]
        omega
      refine ⟨relativeCore .receiver amountCpus (round + 1), ?_, fun _ => rfl⟩
      rw [hpred]
      exact stepCore_backward build (hpred ▸ relativeCore_lt hround) hsmall
    · have hzero : relativeCore .receiver amountCpus round = 0 := by
        simp only [relativeCore, if_pos]
        omega
      rw [hzero]
      by_cases hone : amountCpus = 1
      · exact ⟨0, hone ▸ stepCore_single build, fun hlt => absurd hlt hlast⟩
      · exact ⟨_, stepCore_wraps build (by omega) hsmall, fun hlt => absurd hlt hlast⟩

theorem round_of {nodes i q r : Nat} (h : i = nodes * q + r) (hr : r < nodes) :
    i % nodes = r ∧ i / nodes = q := by
  subst i
  constructor
  · rw [Nat.mul_add_mod, Nat.mod_eq_of_lt hr]
  · rw [Nat.mul_add_div (by omega), Nat.div_eq_of_lt hr, Nat.add_zero]

/-- Counting on by one, either the position moves on or the next round starts. -/
theorem next_round {nodes : Nat} (hnodes : 0 < nodes) (i : Nat) :
    (i + 1) % nodes = i % nodes + 1 ∧ (i + 1) / nodes = i / nodes ∨
      (i + 1) % nodes = 0 ∧ i % nodes + 1 = nodes ∧ (i + 1) / nodes = i / nodes + 1 := by
  have hlt := Nat.mod_lt i hnodes
  have hi := Nat.div_add_mod i nodes
  by_cases hlast : i % nodes + 1 = nodes
  · have hnext : i + 1 = nodes * (i / nodes + 1) + 0 := by
      rw [Nat.mul_add, Nat.mul_one]
      omega
    obtain ⟨hmod, hdiv⟩ := round_of hnext hnodes
    exact .inr ⟨hmod, hlast, hdiv⟩
  · have hnext : i + 1 = nodes * (i / nodes) + (i % nodes + 1) := by omega
    exact .inl (round_of hnext (by omega))

/-- The manager before call `i`, counted from zero. -/
def beforeCall (m : CoreAffinityManager) (i : Nat) : CoreAffinityManager :=
  { m with
    nextNumaNode := i % m.topology.numaNodes.length
    nextCoreId := relativeCore m.mode m.amountCpus (i / m.topology.numaNodes.length) }

/-- NUMA nodes with CPUs that the manager may count on. -/
structure Symmetric (m : CoreAffinityManager) : Prop where
  numa : m.numaAffinity = true
  nodes : 0 < m.topology.numaNodes.length
  cpus : ∀ node ∈ m.topology.numaNodes, ∃ cpus, node.cpuset = some cpus ∧ cpus.length = m.amountCpus

/-- What call `i` chooses. -/
structure PlacedAt (m : CoreAffinityManager) (i : Nat) (p : Placement) : Prop where
  coreId : p.coreId = relativeCore m.mode m.amountCpus (i / m.topology.numaNodes.length)
  numaNode : p.numaNode = (i + 1) % m.topology.numaNodes.length
  core : ∃ node cpus core, m.topology.numaNodes[p.numaNode]? = some node ∧
    node.cpuset = some cpus ∧ cpus[p.coreId]? = some core ∧ p.core = .ok core

section
variable {m : CoreAffinityManager} {i : Nat}

theorem Symmetric.small (h : m.Symmetric) : m.amountCpus < 2 ^ 63 := by
  have hnodes := h.nodes
  have hmem := List.getElem_mem hnodes
  obtain ⟨cpus, hcpus, hlen⟩ := h.cpus _ hmem
  have := m.topology.cpus_lt _ hmem cpus hcpus
  omega

theorem Symmetric.round (h : m.Symmetric) (hi : i < m.topology.numaNodes.length * m.amountCpus) :
    i / m.topology.numaNodes.length < m.amountCpus :=
  (Nat.div_lt_iff_lt_mul h.nodes).mpr (by rw [Nat.mul_comm]; exact hi)

theorem forwardNumaNode_ok (hnodes : 0 < m.topology.numaNodes.length)
    (hi : m.nextNumaNode = i % m.topology.numaNodes.length) (build : Build) :
    m.forwardNumaNode build = .ok ((i + 1) % m.topology.numaNodes.length,
      { m with nextNumaNode := (i + 1) % m.topology.numaNodes.length }) := by
  have hlt := Nat.mod_lt i hnodes
  have hsmall := m.topology.nodes_lt
  simp only [forwardNumaNode, hi]
  rw [u64_fits build (by omega), ok_bind, if_neg (by omega), Nat.mod_add_mod]

/-- Only the last call of a round changes the core. -/
theorem getCoreId_beforeCall (h : m.Symmetric) (build : Build)
    (hi : i < m.topology.numaNodes.length * m.amountCpus) :
    ∃ m', (m.beforeCall i).getCoreId build =
        .ok (relativeCore m.mode m.amountCpus (i / m.topology.numaNodes.length), m') ∧
      m'.topology = m.topology ∧ m'.numaAffinity = true ∧
      m'.nextNumaNode = (i + 1) % m.topology.numaNodes.length ∧
      (i + 1 < m.topology.numaNodes.length * m.amountCpus → m' = m.beforeCall (i + 1)) := by
  have hnuma : (m.beforeCall i).numaAffinity = true := h.numa
  have hround := h.round hi
  have hforward := (m.beforeCall i).forwardNumaNode_ok h.nodes (i := i) rfl build
  simp only [getCoreId, hnuma, if_true, hforward, ok_bind]
  rcases next_round h.nodes i with ⟨hmod, hdiv⟩ | ⟨hmod, _, hdiv⟩
  · refine ⟨_, if_neg ?_, rfl, rfl, rfl, fun _ => ?_⟩
    · change (i + 1) % m.topology.numaNodes.length ≠ 0
      omega
    · simp only [beforeCall, hdiv, h.numa]
  · have hzero : (i + 1) % (m.beforeCall i).topology.numaNodes.length = 0 := hmod
    obtain ⟨next, hnext, hlast⟩ := stepCore_relative build m.mode hround h.small
    have hstep : stepCore build (m.beforeCall i).nextCoreId
        (if (m.beforeCall i).mode = .receiver then -1 else 1) (m.beforeCall i).amountCpus =
          .ok next := hnext
    rw [if_pos hzero, hstep]
    refine ⟨_, rfl, rfl, rfl, rfl, fun hmore => ?_⟩
    have hmore' := h.round hmore
    rw [hdiv] at hmore'
    simp only [beforeCall, hdiv, hlast hmore', h.numa]

theorem setAffinity_beforeCall (h : m.Symmetric) (build : Build) (bindCpu : Nat → Bool)
    (hi : i < m.topology.numaNodes.length * m.amountCpus) :
    ∃ p m', (m.beforeCall i).setAffinity build bindCpu = .ok (p, m') ∧ m.PlacedAt i p ∧
      (i + 1 < m.topology.numaNodes.length * m.amountCpus → m' = m.beforeCall (i + 1)) := by
  obtain ⟨m', hget, htopology, hnuma, hnode, hnext⟩ := getCoreId_beforeCall h build hi
  have hlt : m'.nextNumaNode < m.topology.numaNodes.length := hnode ▸ Nat.mod_lt _ h.nodes
  obtain ⟨cpus, hcpus, hlen⟩ := h.cpus _ (List.getElem_mem hlt)
  have hcore : relativeCore m.mode m.amountCpus (i / m.topology.numaNodes.length) <
      cpus.length := by
    rw [hlen]
    exact relativeCore_lt (h.round hi)
  have habsolute : m'.absoluteCore (relativeCore m.mode m.amountCpus
      (i / m.topology.numaNodes.length)) = .ok cpus[relativeCore m.mode m.amountCpus
        (i / m.topology.numaNodes.length)] := by
    simp only [absoluteCore, hnuma, if_true, htopology, List.getElem?_eq_getElem hlt, hcpus,
      List.getElem?_eq_getElem hcore]
  have hcall : ∃ p, (m.beforeCall i).setAffinity build bindCpu = .ok (p, m') ∧
      p.coreId = relativeCore m.mode m.amountCpus (i / m.topology.numaNodes.length) ∧
      p.numaNode = m'.nextNumaNode ∧ p.core = m'.absoluteCore p.coreId := by
    simp only [setAffinity, hget, ok_bind]
    exact ⟨_, rfl, rfl, rfl, rfl⟩
  obtain ⟨p, hcall, hcoreId, hnumaNode, hchosen⟩ := hcall
  have hget' : m.topology.numaNodes[p.numaNode]? = some m.topology.numaNodes[m'.nextNumaNode] := by
    rw [hnumaNode]
    exact List.getElem?_eq_getElem hlt
  have hcpu : cpus[p.coreId]? = some cpus[relativeCore m.mode m.amountCpus
      (i / m.topology.numaNodes.length)] := by
    rw [hcoreId]
    exact List.getElem?_eq_getElem hcore
  rw [hcoreId] at hchosen
  exact ⟨p, m', hcall, ⟨hcoreId, hnumaNode.trans hnode, _, cpus, _, hget', hcpus, hcpu,
    hchosen.trans habsolute⟩, hnext⟩

theorem setAffinities_beforeCall (h : m.Symmetric) (build : Build) (calls : List (Nat → Bool))
    (hcalls : i + calls.length ≤ m.topology.numaNodes.length * m.amountCpus) :
    ∃ ps, (m.beforeCall i).setAffinities build calls = .ok ps ∧ ps.length = calls.length ∧
      ∀ k p, ps[k]? = some p → m.PlacedAt (i + k) p := by
  induction calls generalizing i with
  | nil => exact ⟨[], rfl, rfl, by simp⟩
  | cons bindCpu calls ih =>
    rw [List.length_cons] at hcalls
    obtain ⟨p, m', hcall, hplaced, hnext⟩ :=
      setAffinity_beforeCall h build bindCpu (i := i) (by omega)
    have hrest : ∃ ps, m'.setAffinities build calls = .ok ps ∧ ps.length = calls.length ∧
        ∀ k p, ps[k]? = some p → m.PlacedAt (i + 1 + k) p := by
      cases calls with
      | nil => exact ⟨[], rfl, rfl, by simp⟩
      | cons bindCpu' calls =>
        rw [List.length_cons] at hcalls
        rw [hnext (by omega)]
        exact ih (by rw [List.length_cons]; omega)
    obtain ⟨ps, hps, hlen, hall⟩ := hrest
    refine ⟨p :: ps, ?_, by simp [hlen], ?_⟩
    · simp only [setAffinities, hcall, ok_bind, hps]
    · intro k q hq
      cases k with
      | zero =>
        cases hq
        exact hplaced
      | succ k =>
        have := hall k q hq
        rwa [show i + 1 + k = i + (k + 1) by omega] at this

end

theorem new_numa {topology : Topology} {mode : NPerfMode} {m : CoreAffinityManager}
    (h : new topology mode none true = .ok m) (hnodes : topology.numaNodes ≠ [])
    {amountCpus : Nat} (hcpus : ∀ node ∈ topology.numaNodes,
      ∃ cpus, node.cpuset = some cpus ∧ cpus.length = amountCpus) :
    m.Symmetric ∧ m.beforeCall 0 = m ∧ m.topology = topology ∧ m.amountCpus = amountCpus := by
  simp only [new] at h
  split at h
  · cases h
  obtain ⟨⟨amount, stays⟩, havailable, h⟩ := bind_ok.mp h
  obtain ⟨nextCoreId, hfirst, h⟩ := bind_ok.mp h
  cases h
  cases hlist : topology.numaNodes with
  | nil => exact absurd hlist hnodes
  | cons node nodes =>
    obtain ⟨cpus, hcpuset, hlen⟩ := hcpus node (hlist ▸ List.mem_cons_self)
    simp only [available, hlist, hcpuset, if_true] at havailable
    cases havailable
    refine ⟨⟨rfl, List.length_pos_iff.mpr hnodes, fun node hmem => ?_⟩, ?_, rfl, hlen⟩
    · obtain ⟨cpus', hcpuset', hlen'⟩ := hcpus node hmem
      exact ⟨cpus', hcpuset', hlen'.trans hlen.symm⟩
    · have hnext : nextCoreId = relativeCore mode cpus.length 0 := by
        cases mode with
        | receiver =>
          simp only [firstCore, checkedSub] at hfirst
          split at hfirst
          · cases hfirst
            rfl
          · cases hfirst
        | sender =>
          cases hfirst
          rfl
      simp only [beforeCall, Nat.zero_mod, Nat.zero_div, hnext]

section
variable {m : CoreAffinityManager} {i j : Nat} {p q : Placement}

/-- A pair of node and core tells which call chose it. -/
theorem PlacedAt.injective (hm : m.Symmetric) (hp : m.PlacedAt i p) (hq : m.PlacedAt j q)
    (hij : i < j) (hj : j < m.topology.numaNodes.length * m.amountCpus)
    (hnode : p.numaNode = q.numaNode) : p.coreId ≠ q.coreId := by
  intro hcore
  rw [hp.coreId, hq.coreId] at hcore
  rw [hp.numaNode, hq.numaNode] at hnode
  have hround := relativeCore_injective (hm.round (by omega)) (hm.round hj) hcore
  have hi := Nat.div_add_mod i m.topology.numaNodes.length
  have hj := Nat.div_add_mod j m.topology.numaNodes.length
  have hilt := Nat.mod_lt i hm.nodes
  have hjlt := Nat.mod_lt j hm.nodes
  rw [hround] at hi
  have hzero := Nat.sub_mod_eq_zero_of_mod_eq hnode.symm
  rw [Nat.mod_eq_of_lt (by omega)] at hzero
  omega

theorem PlacedAt.next_node (hp : m.PlacedAt i p) (hq : m.PlacedAt (i + 1) q) :
    q.numaNode = (p.numaNode + 1) % m.topology.numaNodes.length := by
  rw [hp.numaNode, hq.numaNode, Nat.mod_add_mod]

/-- In the round that a change of cores ends, every node had its turn. -/
theorem PlacedAt.round_done (hm : m.Symmetric) (hp : m.PlacedAt i p) (hq : m.PlacedAt (i + 1) q)
    (hne : q.coreId ≠ p.coreId) {node : Nat} (hnode : node < m.topology.numaNodes.length) :
    ∃ j, j ≤ i ∧ (j + 1) % m.topology.numaNodes.length = node ∧
      j / m.topology.numaNodes.length = i / m.topology.numaNodes.length := by
  have hi := Nat.div_add_mod i m.topology.numaNodes.length
  rcases next_round hm.nodes i with ⟨_, hdiv⟩ | ⟨hmod, hlast, _⟩
  · rw [hp.coreId, hq.coreId, hdiv] at hne
    exact absurd rfl hne
  · cases node with
    | zero => exact ⟨i, Nat.le_refl i, hmod, rfl⟩
    | succ node =>
      obtain ⟨hj, hround⟩ := round_of
        (rfl : m.topology.numaNodes.length * (i / m.topology.numaNodes.length) + node = _)
        (Nat.lt_of_succ_lt hnode)
      refine ⟨_, by omega, ?_, hround⟩
      rw [← Nat.mod_add_mod, hj, Nat.mod_eq_of_lt hnode]

end

/-- Every node takes part before the next core is used, so that the pairs of
node and core come once each. -/
theorem numa_placement {topology : Topology} {mode : NPerfMode} {m : CoreAffinityManager}
    (h : new topology mode none true = .ok m) (hnodes : topology.numaNodes ≠ []) {amountCpus : Nat}
    (hcpus : ∀ node ∈ topology.numaNodes,
      ∃ cpus, node.cpuset = some cpus ∧ cpus.length = amountCpus)
    (build : Build) (calls : List (Nat → Bool))
    (hcalls : calls.length = topology.numaNodes.length * amountCpus) :
    ∃ ps, m.setAffinities build calls = .ok ps ∧ ps.length = calls.length ∧
      (ps.map fun p => (p.numaNode, p.coreId)).Nodup ∧
      (∀ p ∈ ps, p.coreId < amountCpus ∧ ∃ node cpus core,
        topology.numaNodes[p.numaNode]? = some node ∧ node.cpuset = some cpus ∧
        cpus[p.coreId]? = some core ∧ p.core = .ok core) ∧
      ∀ i p q, ps[i]? = some p → ps[i + 1]? = some q →
        q.numaNode = (p.numaNode + 1) % topology.numaNodes.length ∧
        (q.coreId ≠ p.coreId → ∀ node, node < topology.numaNodes.length →
          ∃ j o, j ≤ i ∧ ps[j]? = some o ∧ o.numaNode = node ∧ o.coreId = p.coreId) := by
  obtain ⟨hm, hstart, rfl, rfl⟩ := new_numa h hnodes hcpus
  obtain ⟨ps, hps, hlen, hall⟩ := setAffinities_beforeCall (i := 0) hm build calls (by omega)
  simp only [Nat.zero_add] at hall
  have hlt : ∀ i p, ps[i]? = some p → i < m.topology.numaNodes.length * m.amountCpus := by
    intro i p hp
    obtain ⟨hlt, _⟩ := List.getElem?_eq_some_iff.mp hp
    omega
  refine ⟨ps, hstart ▸ hps, hlen, ?_, ?_, ?_⟩
  · apply List.pairwise_iff_getElem.mpr
    intro i j hi hj hij he
    rw [List.length_map] at hi hj
    simp only [List.getElem_map, Prod.mk.injEq] at he
    exact (hall i _ (List.getElem?_eq_getElem hi)).injective hm
      (hall j _ (List.getElem?_eq_getElem hj)) hij (by omega) he.1 he.2
  · intro p hmem
    obtain ⟨i, hp⟩ := List.getElem?_of_mem hmem
    have hplaced := hall i p hp
    refine ⟨?_, hplaced.core⟩
    rw [hplaced.coreId]
    exact relativeCore_lt (hm.round (hlt i p hp))
  · intro i p q hp hq
    have hplaced := hall i p hp
    have hplaced' := hall (i + 1) q hq
    refine ⟨hplaced.next_node hplaced', fun hne node hnode => ?_⟩
    obtain ⟨j, hj, hmod, hround⟩ := hplaced.round_done hm hplaced' hne hnode
    have hjlt : j < ps.length := by
      have := hlt i p hp
      omega
    have ho := hall j _ (List.getElem?_eq_getElem hjlt)
    refine ⟨j, _, hj, List.getElem?_eq_getElem hjlt, ho.numaNode.trans hmod, ?_⟩
    rw [ho.coreId, hplaced.coreId, hround]

theorem numa_placement_twoNodes :
    ∃ ps, setAffinities ⟨.twoNodes, .receiver, true, 2, 0, 1⟩ .debug
        (List.replicate 4 fun _ => true) = .ok ps ∧
      (ps.map fun p => (p.numaNode, p.coreId)).Nodup := by
  have hnew : new .twoNodes .receiver none true = .ok ⟨.twoNodes, .receiver, true, 2, 0, 1⟩ := rfl
  have hcpus : ∀ node ∈ Topology.twoNodes.numaNodes,
      ∃ cpus, node.cpuset = some cpus ∧ cpus.length = 2 := by
    intro node hnode
    simp only [Topology.twoNodes, List.mem_cons, List.not_mem_nil, or_false] at hnode
    rcases hnode with rfl | rfl
    · exact ⟨_, rfl, rfl⟩
    · exact ⟨_, rfl, rfl⟩
  obtain ⟨ps, hps, _, hnodup, _⟩ := numa_placement hnew (by decide) hcpus .debug
    (List.replicate 4 fun _ => true) rfl
  exact ⟨ps, hps, hnodup⟩

end Nperf.CoreAffinityManager
