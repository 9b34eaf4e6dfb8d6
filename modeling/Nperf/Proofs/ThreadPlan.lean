import Nperf.Lib.Lists
import Nperf.Model.Executor
import Nperf.Model.Receiver
import Nperf.Proofs.Pacing

namespace Nperf
open Rust

namespace NPerf

/-- The checks that end in `None`, as conditions on the arguments. -/
structure Passes (args : NPerf) : Prop where
  size : ¬maxUdpDatagramSize < args.datagramSize.toNat
  power : ¬args.uringRingSize.toNat ∉ (List.range 32).map (2 ^ ·)
  burst : ¬args.uringRingSize.toNat < args.burstSize
  ringMax : ¬uringMaxRingSize < args.uringRingSize.toNat
  zerocopy : ¬(args.ioModel = .ioUring ∧ args.uringMode = .zerocopy ∧ args.mode ≠ .sender)
  interval : ¬(0 < args.interval ∧ F64.ofRat (1 / 1000000000) < args.intervalError)
  time : ¬(0 < args.interval ∧ args.time.toNat = 0 ∧ args.mode = .receiver)
  decimals : ¬hasMoreThanOneDecimal args.interval = true
  bandwidth : ¬(0 < args.bandwidth.toNat ∧ args.mode ≠ .receiver ∧
    2 ^ 64 - 1 ≤ args.bandwidth.toNat / 8 / 1000 / 1000)

/-- What the checks read of a parameter set is what the arguments say. -/
structure Reads (args : NPerf) (p : Parameter) : Prop where
  mode : p.mode = args.mode
  size : p.datagramSize = args.datagramSize.toNat
  burst : p.uringParameter.burstSize = args.burstSize
  threads : p.amountThreads = args.parallel.toNat

section
variable {args : NPerf} {p : Parameter} {cores : Nat}

/-- The checks end, and let the arguments pass exactly if each does. -/
theorem rejected_eq {build : Build} (hp : args.Reads p)
    (hsize : ¬maxUdpDatagramSize < args.datagramSize.toNat) {n : Nat}
    (hn : threadsTwice build cores p = .ok n) :
    ∃ refused, args.rejected build cores p = .ok refused ∧ (refused = false ↔ args.Passes) := by
  have hsize' : ¬maxUdpDatagramSize < p.datagramSize := by
    rw [hp.size]
    exact hsize
  unfold rejected
  rw [if_neg hsize', hn, ok_bind]
  split
  · rename_i hpower
    exact ⟨true, rfl, by simp, fun h => absurd hpower h.power⟩
  split
  · rename_i hburst
    exact ⟨true, rfl, by simp, fun h => absurd (hp.burst ▸ hburst) h.burst⟩
  split
  · rename_i hmax
    exact ⟨true, rfl, by simp, fun h => absurd hmax h.ringMax⟩
  split
  · rename_i hzerocopy
    exact ⟨true, rfl, by simp, fun h => absurd (hp.mode ▸ hzerocopy) h.zerocopy⟩
  split
  · rename_i hinterval
    exact ⟨true, rfl, by simp, fun h => absurd hinterval h.interval⟩
  split
  · rename_i htime
    exact ⟨true, rfl, by simp, fun h => absurd htime h.time⟩
  split
  · rename_i hdecimals
    exact ⟨true, rfl, by simp, fun h => absurd hdecimals h.decimals⟩
  split
  · rename_i hbandwidth
    exact ⟨true, rfl, by simp, fun h => absurd hbandwidth h.bandwidth⟩
  · rename_i hpower hburst hmax hzerocopy hinterval htime hdecimals hbandwidth
    exact ⟨false, rfl, fun _ => ⟨hsize, hpower, hp.burst ▸ hburst, hmax, hp.mode ▸ hzerocopy,
      hinterval, htime, hdecimals, hbandwidth⟩, fun _ => rfl⟩

theorem threadsTwice_returns (hp : args.Reads p) :
    (∃ n, threadsTwice .debug cores p = .ok n) ↔
      (args.parallel.toNat ≤ asU16 cores → args.parallel.toNat * 2 < 2 ^ 16) := by
  simp only [threadsTwice, hp.threads]
  by_cases hfew : args.parallel.toNat ≤ asU16 cores
  · simp only [hfew, if_true, debug_u16_returns, forall_const]
  · simp only [hfew, if_false, false_implies, iff_true]
    exact ⟨0, rfl⟩

/-- The check of the size comes first and spares the later arithmetic. -/
theorem rejected_returns (hp : args.Reads p) :
    (∃ refused, args.rejected .debug cores p = .ok refused) ↔
      (args.datagramSize.toNat ≤ maxUdpDatagramSize → args.parallel.toNat ≤ asU16 cores →
        args.parallel.toNat * 2 < 2 ^ 16) := by
  by_cases hsize : maxUdpDatagramSize < args.datagramSize.toNat
  · refine ⟨fun _ hle => absurd hsize (Nat.not_lt_of_le hle), fun _ => ⟨true, ?_⟩⟩
    rw [← hp.size] at hsize
    rw [rejected, if_pos hsize]
  · refine Iff.trans ?_ (imp_iff_right (Nat.le_of_not_lt hsize)).symm
    rw [← threadsTwice_returns hp]
    constructor
    · rintro ⟨refused, h⟩
      rw [← hp.size] at hsize
      rw [rejected, if_neg hsize] at h
      obtain ⟨n, hn, _⟩ := bind_ok.mp h
      exact ⟨n, hn⟩
    · rintro ⟨n, hn⟩
      obtain ⟨refused, hrefused, _⟩ := rejected_eq hp hsize hn
      exact ⟨refused, hrefused⟩

/-- Arguments that pass are accepted, and no others are. -/
theorem rejected_passes {build : Build} (hp : args.Reads p) {refused : Bool}
    (h : args.rejected build cores p = .ok refused) : refused = false ↔ args.Passes := by
  by_cases hsize : maxUdpDatagramSize < args.datagramSize.toNat
  · have hsize' : maxUdpDatagramSize < p.datagramSize := by
      rw [hp.size]
      exact hsize
    rw [rejected, if_pos hsize'] at h
    cases h
    exact ⟨by simp, fun hpasses => absurd hsize hpasses.size⟩
  · have hsize' : ¬maxUdpDatagramSize < p.datagramSize := by
      rw [hp.size]
      exact hsize
    have hall := h
    rw [rejected, if_neg hsize'] at h
    obtain ⟨n, hn, _⟩ := bind_ok.mp h
    obtain ⟨_, hrefused, hiff⟩ := rejected_eq hp hsize hn
    cases hall.symm.trans hrefused
    exact hiff

end

section
variable {args : NPerf} {build : Build} {cores : Nat} {ipv4 : Ipv4Addr}

theorem parseSocketOptions_returns :
    (∃ socketOptions, args.parseSocketOptions .debug args.mode = .ok socketOptions) ↔
      args.sockets ≠ 0 ∧ args.share / 8 * 1000000 < 2 ^ 64 := by
  have hrate : (∃ rate, args.bandwidthPerThread .debug = .ok rate) ↔
      args.sockets ≠ 0 ∧ args.share / 8 * 1000000 < 2 ^ 64 := by
    rw [bandwidthPerThread_eq]
    split
    · rename_i hzero
      refine ⟨?_, fun h => absurd hzero h.1⟩
      rintro ⟨_, h⟩
      cases h
    · rename_i hsome
      rw [rateOf_returns]
      exact ⟨fun h => ⟨hsome, h⟩, fun h => h.2⟩
  rw [← hrate]
  constructor
  · rintro ⟨socketOptions, h⟩
    obtain ⟨rate, hrate, _⟩ := bind_ok.mp h
    exact ⟨rate, hrate⟩
  · rintro ⟨rate, hrate⟩
    exact ⟨_, bind_ok.mpr ⟨rate, hrate, rfl⟩⟩

theorem uringParameters_returns :
    (∃ uring, args.uringParameters .debug = .ok uring) ↔
      args.uringRingSize.toNat * uringBufferSizeMultiplicator < 2 ^ 32 := by
  rw [← debug_u32_returns]
  constructor
  · rintro ⟨uring, h⟩
    obtain ⟨bufferSize, hbuffer, _⟩ := bind_ok.mp h
    exact ⟨bufferSize, hbuffer⟩
  · rintro ⟨bufferSize, hbuffer⟩
    exact ⟨_, bind_ok.mpr ⟨bufferSize, hbuffer, rfl⟩⟩

theorem uringParameters_burst {uring : UringParameter}
    (h : args.uringParameters build = .ok uring) : uring.burstSize = args.burstSize := by
  obtain ⟨bufferSize, _, h⟩ := bind_ok.mp h
  cases h
  rfl

theorem parameterCheck_ok {p : Parameter} {o : Option Parameter} :
    args.parameterCheck build cores p = .ok o ↔
      ∃ refused, args.rejected build cores p = .ok refused ∧
        o = if refused = true then none else some (args.adjust p) := by
  simp only [parameterCheck, bind_ok]
  generalize args.adjust p = accepted
  constructor
  · rintro ⟨refused, hrefused, h⟩
    refine ⟨refused, hrefused, ?_⟩
    cases refused with
    | true => exact (Except.ok.inj h).symm
    | false => exact (Except.ok.inj h).symm
  · rintro ⟨refused, hrefused, rfl⟩
    refine ⟨refused, hrefused, ?_⟩
    cases refused with
    | true => rfl
    | false => rfl

theorem parameterCheck_returns {p : Parameter} :
    (∃ o, args.parameterCheck build cores p = .ok o) ↔
      ∃ refused, args.rejected build cores p = .ok refused := by
  simp only [parameterCheck_ok]
  constructor
  · rintro ⟨_, refused, h, _⟩
    exact ⟨refused, h⟩
  · rintro ⟨refused, h⟩
    exact ⟨_, refused, h, rfl⟩

theorem parseParameter_eq (hhelp : args.markdownHelp = false)
    (hip : parseIpv4 args.ip = some ipv4) :
    args.parseParameter build cores =
      (args.parseSocketOptions build args.mode >>= fun socketOptions =>
        args.uringParameters build >>= fun uring =>
          args.parameterCheck build cores (args.parameter ipv4 socketOptions uring)) := by
  simp only [parseParameter, hhelp, Bool.false_eq_true, if_false, hip]

/-- Where there is something to parse, it ends if each of its parts does. -/
theorem parseParameter_returns (cores : Nat) (hhelp : args.markdownHelp = false)
    (hip : parseIpv4 args.ip = some ipv4) :
    (∃ o, args.parseParameter .debug cores = .ok o) ↔
      (args.sockets ≠ 0 ∧ args.share / 8 * 1000000 < 2 ^ 64) ∧
        args.uringRingSize.toNat * uringBufferSizeMultiplicator < 2 ^ 32 ∧
        (args.datagramSize.toNat ≤ maxUdpDatagramSize → args.parallel.toNat ≤ asU16 cores →
          args.parallel.toNat * 2 < 2 ^ 16) := by
  have hchecks : ∀ socketOptions uring, args.uringParameters .debug = .ok uring →
      ((∃ o, args.parameterCheck .debug cores (args.parameter ipv4 socketOptions uring) = .ok o) ↔
        (args.datagramSize.toNat ≤ maxUdpDatagramSize → args.parallel.toNat ≤ asU16 cores →
          args.parallel.toNat * 2 < 2 ^ 16)) := by
    intro socketOptions uring huring
    rw [parameterCheck_returns]
    exact rejected_returns ⟨rfl, rfl, uringParameters_burst huring, rfl⟩
  rw [parseParameter_eq hhelp hip, ← parseSocketOptions_returns, ← uringParameters_returns]
  constructor
  · rintro ⟨o, h⟩
    obtain ⟨socketOptions, hoptions, h⟩ := bind_ok.mp h
    obtain ⟨uring, huring, h⟩ := bind_ok.mp h
    exact ⟨⟨socketOptions, hoptions⟩, ⟨uring, huring⟩, (hchecks _ uring huring).mp ⟨o, h⟩⟩
  · rintro ⟨⟨socketOptions, hoptions⟩, ⟨uring, huring⟩, h⟩
    obtain ⟨o, ho⟩ := (hchecks socketOptions uring huring).mpr h
    exact ⟨o, bind_ok.mpr ⟨_, hoptions, bind_ok.mpr ⟨_, huring, ho⟩⟩⟩

/-- The parameter sets that come out are those of arguments that pass. -/
theorem parseParameter_passes (hhelp : args.markdownHelp = false)
    (hip : parseIpv4 args.ip = some ipv4) {o : Option Parameter}
    (h : args.parseParameter build cores = .ok o) : (∃ p, o = some p) ↔ args.Passes := by
  rw [parseParameter_eq hhelp hip] at h
  obtain ⟨socketOptions, _, h⟩ := bind_ok.mp h
  obtain ⟨uring, huring, h⟩ := bind_ok.mp h
  obtain ⟨refused, hrefused, rfl⟩ := parameterCheck_ok.mp h
  have hreads : args.Reads (args.parameter ipv4 socketOptions uring) :=
    ⟨rfl, rfl, uringParameters_burst huring, rfl⟩
  rw [← rejected_passes hreads hrefused]
  generalize args.adjust _ = accepted
  cases refused with
  | true => simp
  | false => simp

end

/-- What `exec` may count on: a port for each thread, and a test id that the
receiver takes. -/
structure Planned (args : NPerf) (p : Parameter) (plans : List ThreadPlan) : Prop where
  made : args.threadPlans .debug p = .ok plans
  ports : p.multiplexPortReceiver = .individual → (plans.map ThreadPlan.receiverPort).Nodup
  testIds : ∀ plan ∈ plans, plan.testId < maxTestId
  accepted : ∀ plan ∈ plans, ∀ clock mtype measurements q measurements',
    Receiver.parseMessageType clock mtype plan.testId measurements q ≠
      .ok (.error .testIdTooGreat, measurements')

theorem parseMessageType_accepts {testId : Nat} (h : testId < maxTestId) (clock : Clock)
    (mtype : MessageType) (measurements : List Measurement) (q : Parameter)
    (measurements' : List Measurement) :
    Receiver.parseMessageType clock mtype testId measurements q ≠
      .ok (.error .testIdTooGreat, measurements') := by
  intro hrefused
  unfold Receiver.parseMessageType at hrefused
  rw [if_neg (by omega)] at hrefused
  cases mtype with
  | init => cases hrefused
  | measurement =>
    simp only at hrefused
    split at hrefused
    · cases hrefused
    · split at hrefused
      · cases hrefused
      · cases hrefused
  | last =>
    simp only at hrefused
    split at hrefused
    · cases hrefused
    · cases hrefused

section
variable {args : NPerf} {p : Parameter}

/-- What `exec` reads of a parameter set that was accepted. -/
structure Kept (args : NPerf) (p : Parameter) : Prop where
  threads : p.amountThreads = args.parallel.toNat
  receiver : p.multiplexPortReceiver = args.multiplexPortReceiver
  simulate : p.simulateConnection =
    if args.multiplexPortReceiver = .sharing then .single else .multiple

theorem parseParameter_kept {build : Build} {cores : Nat}
    (h : args.parseParameter build cores = .ok (some p)) : args.Kept p := by
  obtain ⟨ipv4, socketOptions, uring, _, _, rfl⟩ := parseParameter_some h
  refine ⟨rfl, rfl, ?_⟩
  simp only [adjust, parameter]
  cases args.multiplexPortReceiver with
  | individual => rfl
  | sharing => rfl
  | sharding => rfl

/-- The plan of a thread, as far as the first port reaches. -/
def planOf (args : NPerf) (p : Parameter) (i : Nat) : ThreadPlan :=
  { receiverPort := if p.multiplexPortReceiver ≠ .individual then args.port.toNat
      else args.port.toNat + i
    senderPort := if p.multiplexPort = .sharding then some args.senderPort.toNat else none
    testId := if p.simulateConnection = .single then 0 else i }

theorem threadPlan_ok {i : Nat}
    (hport : p.multiplexPortReceiver = .individual → args.port.toNat + i < 2 ^ 16) :
    args.threadPlan .debug p i = .ok (args.planOf p i) := by
  by_cases hmode : p.multiplexPortReceiver = .individual
  · have hfits : Build.debug.u16 (args.port.toNat + i : Nat) = .ok (args.port.toNat + i) :=
      unsigned_fits _ (hport hmode)
    simp only [threadPlan, planOf, hmode, ne_eq, not_true, if_false, hfits, ok_bind]
  · simp only [threadPlan, planOf, hmode, ne_eq, not_false_eq_true, if_true, ok_bind]

/-- A thread that has a port has not run past the last one. -/
theorem threadPlan_fits {i : Nat} {plan : ThreadPlan} (h : args.threadPlan .debug p i = .ok plan) :
    plan.testId = (args.planOf p i).testId ∧
      (p.multiplexPortReceiver = .individual → args.port.toNat + i < 2 ^ 16) := by
  by_cases hmode : p.multiplexPortReceiver = .individual
  · simp only [threadPlan, hmode, ne_eq, not_true, if_false] at h
    obtain ⟨port, hport, h⟩ := bind_ok.mp h
    cases h
    exact ⟨rfl, fun _ => debug_u16_returns.mp ⟨port, hport⟩⟩
  · simp only [threadPlan, hmode, ne_eq, not_false_eq_true, if_true, ok_bind] at h
    cases h
    exact ⟨rfl, fun hindividual => absurd hindividual hmode⟩

/-- The last of the threads has the highest port and test id. -/
theorem Planned.fits {plans : List ThreadPlan} (hp : args.Kept p) (h : args.Planned p plans) :
    (args.multiplexPortReceiver = .individual →
      args.parallel.toNat = 0 ∨ args.port.toNat + args.parallel.toNat ≤ 2 ^ 16) ∧
    (args.multiplexPortReceiver ≠ .sharing → args.parallel.toNat ≤ maxTestId) := by
  by_cases hnone : args.parallel.toNat = 0
  · exact ⟨fun _ => .inl hnone, fun _ => by omega⟩
  · obtain ⟨plan, hplan, hmem⟩ := Lists.mem_of_mapM_ok h.made
      (List.mem_range.mpr (show args.parallel.toNat - 1 < p.amountThreads by
        rw [hp.threads]
        omega))
    obtain ⟨htestId, hport⟩ := threadPlan_fits hplan
    refine ⟨fun hmode => .inr ?_, fun hmode => ?_⟩
    · have := hport (hp.receiver.trans hmode)
      omega
    · have hlt := h.testIds plan hmem
      have hmultiple : ¬p.simulateConnection = .single := by
        rw [hp.simulate, if_neg hmode]
        decide
      simp only [htestId, planOf, hmultiple, if_false] at hlt
      omega

theorem planned_of_fits (hp : args.Kept p)
    (hports : args.multiplexPortReceiver = .individual →
      args.parallel.toNat = 0 ∨ args.port.toNat + args.parallel.toNat ≤ 2 ^ 16)
    (hids : args.multiplexPortReceiver ≠ .sharing → args.parallel.toNat ≤ maxTestId) :
    args.Planned p ((List.range p.amountThreads).map (args.planOf p)) := by
  have hplan : ∀ i ∈ List.range p.amountThreads,
      args.threadPlan .debug p i = .ok (args.planOf p i) := by
    intro i hi
    have hlt := List.mem_range.mp hi
    rw [hp.threads] at hlt
    refine threadPlan_ok fun hmode => ?_
    rcases hports (hp.receiver.symm.trans hmode) with hzero | hle
    · omega
    · omega
  have htestIds : ∀ plan ∈ (List.range p.amountThreads).map (args.planOf p),
      plan.testId < maxTestId := by
    intro plan hmem
    obtain ⟨i, hi, rfl⟩ := List.mem_map.mp hmem
    have hlt := List.mem_range.mp hi
    rw [hp.threads] at hlt
    simp only [planOf, hp.simulate]
    by_cases hmode : args.multiplexPortReceiver = .sharing
    · simp only [hmode, if_true]
      decide
    · have := hids hmode
      simp only [hmode, if_false, reduceCtorEq]
      omega
  refine ⟨Lists.mapM_eq_map hplan, fun hmode => ?_, htestIds,
    fun plan hmem => parseMessageType_accepts (htestIds plan hmem)⟩
  rw [List.map_map]
  apply List.pairwise_map.mpr
  refine List.pairwise_iff_getElem.mpr fun i j hi hj hij => ?_
  simp only [Function.comp_apply, planOf, hmode, ne_eq, not_true, if_false, List.getElem_range]
  omega

/-- The ports run up from the first, the test ids from zero; a shared socket has
one of each. -/
theorem planned_iff (hp : args.Kept p) :
    (∃ plans, args.Planned p plans) ↔
      (args.multiplexPortReceiver = .individual →
        args.parallel.toNat = 0 ∨ args.port.toNat + args.parallel.toNat ≤ 2 ^ 16) ∧
      (args.multiplexPortReceiver ≠ .sharing → args.parallel.toNat ≤ maxTestId) := by
  constructor
  · intro h
    obtain ⟨plans, hplans⟩ := h
    exact hplans.fits hp
  · intro h
    exact ⟨_, planned_of_fits hp h.1 h.2⟩

end

/-- The arguments that parsing and planning get through. -/
structure Handled (args : NPerf) (cores : Nat) : Prop where
  threads : args.multiplexPort ≠ .sharing → args.parallel.toNat ≠ 0
  bandwidth : args.share / 8 * 1000000 < 2 ^ 64
  ring : args.uringRingSize.toNat * uringBufferSizeMultiplicator < 2 ^ 32
  twice : args.datagramSize.toNat ≤ maxUdpDatagramSize → args.parallel.toNat ≤ asU16 cores →
    args.parallel.toNat * 2 < 2 ^ 16
  ports : args.Passes → args.multiplexPortReceiver = .individual →
    args.parallel.toNat = 0 ∨ args.port.toNat + args.parallel.toNat ≤ 2 ^ 16
  testIds : args.Passes → args.multiplexPortReceiver ≠ .sharing → args.parallel.toNat ≤ maxTestId

theorem sockets_ne_zero {args : NPerf} :
    args.sockets ≠ 0 ↔ (args.multiplexPort ≠ .sharing → args.parallel.toNat ≠ 0) := by
  simp only [sockets]
  split
  · rename_i hmode
    exact ⟨fun _ h => absurd hmode h, fun _ => Nat.one_ne_zero⟩
  · rename_i hmode
    exact ⟨fun h _ => h, fun h => h hmode⟩

/-- Parsing ends and every accepted set can be planned exactly for these
arguments, and where there is nothing to parse. -/
theorem arguments_handled_iff (args : NPerf) (cores : Nat) :
    ((∃ o, args.parseParameter .debug cores = .ok o) ∧
      ∀ p, args.parseParameter .debug cores = .ok (some p) → ∃ plans, args.Planned p plans) ↔
      args.markdownHelp = true ∨ parseIpv4 args.ip = none ∨ args.Handled cores := by
  have hnothing : args.markdownHelp = true ∨ parseIpv4 args.ip = none →
      args.parseParameter .debug cores = .ok none := by
    intro h
    simp only [parseParameter]
    split
    · rfl
    · rename_i hhelp
      rw [h.resolve_left hhelp]
  by_cases hhelp : args.markdownHelp = true
  · have hnone := hnothing (.inl hhelp)
    exact ⟨fun _ => .inl hhelp, fun _ => ⟨⟨none, hnone⟩, fun p hp => by cases hnone.symm.trans hp⟩⟩
  cases hip : parseIpv4 args.ip with
  | none =>
    have hnone := hnothing (.inr hip)
    exact ⟨fun _ => .inr (.inl rfl),
      fun _ => ⟨⟨none, hnone⟩, fun p hp => by cases hnone.symm.trans hp⟩⟩
  | some ipv4 =>
    have hreturns := parseParameter_returns cores (eq_false_of_ne_true hhelp) hip
    constructor
    · rintro ⟨⟨o, ho⟩, hplanned⟩
      obtain ⟨⟨hsockets, hbandwidth⟩, hring, htwice⟩ := hreturns.mp ⟨o, ho⟩
      have hpasses := parseParameter_passes (eq_false_of_ne_true hhelp) hip ho
      have hplan : args.Passes →
          (args.multiplexPortReceiver = .individual →
            args.parallel.toNat = 0 ∨ args.port.toNat + args.parallel.toNat ≤ 2 ^ 16) ∧
          (args.multiplexPortReceiver ≠ .sharing → args.parallel.toNat ≤ maxTestId) := by
        intro h
        obtain ⟨p, rfl⟩ := hpasses.mpr h
        exact (planned_iff (parseParameter_kept ho)).mp (hplanned p ho)
      exact .inr (.inr ⟨sockets_ne_zero.mp hsockets, hbandwidth, hring, htwice,
        fun h => (hplan h).1, fun h => (hplan h).2⟩)
    · rintro (htrue | hnone | h)
      · exact absurd htrue hhelp
      · cases hnone
      · refine ⟨hreturns.mpr ⟨⟨sockets_ne_zero.mpr h.threads, h.bandwidth⟩, h.ring, h.twice⟩, ?_⟩
        intro p hp
        have hpasses := (parseParameter_passes (eq_false_of_ne_true hhelp) hip hp).mp ⟨p, rfl⟩
        exact (planned_iff (parseParameter_kept hp)).mpr ⟨h.ports hpasses, h.testIds hpasses⟩

/-- A receiver with this many threads from this port on. -/
def threaded (port parallel : UInt16) : NPerf :=
  { headersOnly with port := port, parallel := parallel }

theorem threaded_unplanned {port parallel : UInt16}
    (haccepted : ((threaded port parallel).parseParameter .debug 8).toOption.any
      (fun o => decide (o.isSome = true)) = true)
    (h : 2 ^ 16 < port.toNat + parallel.toNat ∧ parallel.toNat ≠ 0 ∨ maxTestId < parallel.toNat) :
    ∃ p, (threaded port parallel).parseParameter .debug 8 = .ok (some p) ∧
      ¬∃ plans, (threaded port parallel).Planned p plans := by
  obtain ⟨o, ho, hsome⟩ := checked haccepted
  obtain ⟨p, rfl⟩ := Option.isSome_iff_exists.mp hsome
  refine ⟨p, ho, fun hplanned => ?_⟩
  obtain ⟨hports, hids⟩ := (planned_iff (parseParameter_kept ho)).mp hplanned
  have hports : parallel.toNat = 0 ∨ port.toNat + parallel.toNat ≤ 2 ^ 16 := hports rfl
  have hids : parallel.toNat ≤ maxTestId :=
    hids (show MultiplexPort.individual ≠ .sharing by decide)
  omega

/-- No threads, a ring of 2^30 entries, two threads from the last port on, and
one thread more than there are test ids. -/
theorem arguments_unhandled :
    (threaded 45001 0).parseParameter .debug 8 = .error .divideByZero ∧
      { headersOnly with uringRingSize := 1073741824 }.parseParameter .debug 8 =
        .error .overflow ∧
      (∃ p, (threaded 65535 2).parseParameter .debug 8 = .ok (some p) ∧
        ¬∃ plans, (threaded 65535 2).Planned p plans) ∧
      ∃ p, (threaded 45001 1025).parseParameter .debug 8 = .ok (some p) ∧
        ¬∃ plans, (threaded 45001 1025).Planned p plans :=
  ⟨by decide +kernel, by decide +kernel,
    threaded_unplanned (by decide +kernel) (.inl (by decide)),
    threaded_unplanned (by decide +kernel) (.inr (by decide))⟩

end NPerf
end Nperf
