import Nperf.Proofs.Pool
import Nperf.Proofs.ProvidedBuffer

namespace Nperf
open Rust

/-- A pool with all the buffers in it. -/
structure PacketBuffer.Whole (amount : Nat) (b : PacketBuffer) : Prop where
  size : b.mmsghdrVec.length = amount
  capacity : b.indexPoolCapacity = amount
  pool : b.indexPool.Perm (List.range amount)

/-- `fill_sq_and_submit` with an empty completion queue: it goes on to
`io_uring_enter` while requests wait to be taken or none is in flight, and with
neither it submits one. -/
structure Proceeds (u : UringParameter) (ring : Ring) (inflight : Nat) : Prop where
  enters : ring.sq ≠ [] ∨ inflight = 0 → ∃ toSubmit minComplete,
    calcSqFillMode inflight u ring = .ok (toSubmit, minComplete) ∧ (toSubmit, minComplete) ≠ (0, 0)
  submits : inflight = 0 → ring.sq = [] → ∃ toSubmit minComplete,
    calcSqFillMode inflight u ring = .ok (toSubmit, minComplete) ∧
      IoUringProvidedBuffer.submit toSubmit ring.sqCapacity ≠ [] ∧
      ∀ b : PacketBuffer, b.Whole u.bufferSize → ∃ pushed b',
        IoUringNormal.submit toSubmit ring.sqCapacity b = .ok (pushed, b') ∧ pushed ≠ []

/-- Nothing can be pushed and no completion is to be waited for. -/
def Stalls (u : UringParameter) (ring : Ring) (inflight : Nat) : Prop :=
  match u.sqFillingMode with
  | .syscall => u.burstSize = 0 ∧ (ring.sq ≠ [] ∨ inflight = 0)
  | .topup =>
    u.burstSize = 0 ∧ (ring.sq.length = ring.sqCapacity ∨ ring.sq ≠ [] ∧ inflight = u.bufferSize)
  | .topupNoWait =>
    inflight + u.burstSize ≤ u.bufferSize ∧ ring.sq.length = ring.sqCapacity ∨
      u.burstSize = 0 ∧ ring.sq ≠ [] ∧ inflight = u.bufferSize

/-- With too few free buffers for a burst, there is always something to wait for. -/
theorem calcSqFillMode_waits {u : UringParameter} (hu : u.Accepted) {ring : Ring}
    (hcq : ring.cq = []) {inflight : Nat} (hi : inflight ≤ u.bufferSize)
    (hfew : u.bufferSize < inflight + u.burstSize) :
    calcSqFillMode inflight u ring = .ok (0, u.burstSize) ∧ 0 < u.burstSize := by
  have hburst : u.burstSize ≤ u.bufferSize := by
    have hring := hu.burst
    rw [hu.buffer, uringBufferSizeMultiplicator]
    omega
  have hlimit : u.bufferSize - u.burstSize < inflight := by omega
  have hpos : 0 < u.burstSize := by omega
  refine ⟨?_, hpos⟩
  simp only [calcSqFillMode, checkedSub_ok hburst, ok_bind, if_pos hlimit, hcq, List.isEmpty_nil,
    if_true, if_neg (Nat.ne_of_gt hpos)]

/-- With enough of them, the submission queue is filled as the mode says. -/
theorem calcSqFillMode_fills {u : UringParameter} (hsqpoll : u.sqpoll = false) {ring : Ring}
    (hsq : ring.sq.length ≤ ring.sqCapacity) {inflight : Nat}
    (henough : inflight + u.burstSize ≤ u.bufferSize) :
    calcSqFillMode inflight u ring = .ok
      (match u.sqFillingMode with
        | .syscall => if inflight = 0 then u.burstSize else 0
        | .topup | .topupNoWait =>
          min (u.bufferSize - inflight) (ring.sqCapacity - ring.sq.length),
      if u.sqFillingMode = .topupNoWait then 0 else u.burstSize) := by
  have hburst : u.burstSize ≤ u.bufferSize := by omega
  have hi : inflight ≤ u.bufferSize := by omega
  have hlimit : ¬u.bufferSize - u.burstSize < inflight := by omega
  have hmin (a b : Nat) : (if a < b then a else b) = min a b := by
    split <;> omega
  simp only [calcSqFillMode, checkedSub_ok hburst, checkedSub_ok hsq, checkedSub_ok hi, ok_bind,
    if_neg hlimit, hsqpoll, Bool.false_eq_true, false_or, hmin]
  cases u.sqFillingMode with
  | syscall => rfl
  | topup => rfl
  | topupNoWait => rfl

/-- Once the calculation is known, so is what the step does. -/
theorem proceeds_iff {u : UringParameter} (hu : u.Accepted) {ring : Ring}
    (hring : ring.sqCapacity = u.ringSize) (hsq : ring.sq.length ≤ ring.sqCapacity)
    {inflight toSubmit minComplete : Nat} (hi : inflight ≤ u.bufferSize)
    (hcalc : calcSqFillMode inflight u ring = .ok (toSubmit, minComplete)) :
    Proceeds u ring inflight ↔
      (ring.sq ≠ [] ∨ inflight = 0 → 0 < toSubmit + minComplete) ∧
        (inflight = 0 → ring.sq = [] → 0 < toSubmit) := by
  have hcapacity : 0 < ring.sqCapacity := hring ▸ hu.ring
  constructor
  · rintro ⟨henters, hsubmits⟩
    constructor
    · intro hwork
      obtain ⟨n, m, hcalc', hne⟩ := henters hwork
      cases hcalc.symm.trans hcalc'
      simp only [ne_eq, Prod.mk.injEq] at hne
      omega
    · intro hzero hempty
      obtain ⟨n, m, hcalc', hpushed, _⟩ := hsubmits hzero hempty
      cases hcalc.symm.trans hcalc'
      apply Nat.pos_of_ne_zero
      rintro rfl
      exact hpushed rfl
  · rintro ⟨henters, hsubmits⟩
    constructor
    · intro hwork
      have := henters hwork
      refine ⟨toSubmit, minComplete, hcalc, ?_⟩
      simp only [ne_eq, Prod.mk.injEq]
      omega
    · intro hzero hempty
      have hpos := hsubmits hzero hempty
      refine ⟨toSubmit, minComplete, hcalc, ?_, ?_⟩
      · apply List.ne_nil_of_length_pos
        rw [IoUringProvidedBuffer.submit_length]
        omega
      · intro b hb
        obtain ⟨n, m, hcalc', hle⟩ := calcSqFillMode_ok hu hsq hi
        cases hcalc.symm.trans hcalc'
        have hlength : b.indexPool.length = u.bufferSize := by
          simpa using hb.pool.length_eq
        obtain ⟨pushed, free, hok, _, hpushed⟩ := IoUringNormal.submit_ok toSubmit
          ring.sqCapacity (by omega : toSubmit ≤ b.indexPool.length)
          (Nat.le_of_eq (hlength.trans hb.capacity.symm)) hb.size
          (fun i hindex => List.mem_range.mp (hb.pool.mem_iff.mp hindex))
        refine ⟨pushed, _, hok, List.ne_nil_of_length_pos ?_⟩
        omega

/-- For an accepted parameter set without `sqpoll`, the submission step proceeds
exactly if it does not stall. -/
theorem submission_proceeds_iff (args : NPerf) (build : Build) (cores : Nat) (p : Parameter)
    (hparse : args.parseParameter build cores = .ok (some p))
    (hsqpoll : p.uringParameter.sqpoll = false) (ring : Ring)
    (hring : ring.sqCapacity = p.uringParameter.ringSize)
    (hsq : ring.sq.length ≤ p.uringParameter.ringSize) (hcq : ring.cq = []) (inflight : Nat)
    (hinflight : inflight ≤ p.uringParameter.bufferSize) :
    Proceeds p.uringParameter ring inflight ↔ ¬Stalls p.uringParameter ring inflight := by
  obtain ⟨hu, _, _⟩ := NPerf.parseParameter_uring hparse
  generalize p.uringParameter = u at *
  rw [← hring] at hsq
  have hnonempty : ring.sq ≠ [] ↔ 0 < ring.sq.length := List.length_pos_iff.symm
  have hempty : ring.sq = [] ↔ ring.sq.length = 0 := List.length_eq_zero_iff.symm
  have hpos := hu.ring
  have hbuffer := hu.buffer
  rw [uringBufferSizeMultiplicator] at hbuffer
  by_cases hfew : u.bufferSize < inflight + u.burstSize
  · obtain ⟨hcalc, hburst⟩ := calcSqFillMode_waits hu hcq hinflight hfew
    rw [proceeds_iff hu hring hsq hinflight hcalc, Stalls]
    have hle := hu.burst
    cases u.sqFillingMode with
    | syscall => simp only; omega
    | topup => simp only; omega
    | topupNoWait => simp only; omega
  · have hcalc := calcSqFillMode_fills hsqpoll hsq (Nat.le_of_not_lt hfew)
    rw [proceeds_iff hu hring hsq hinflight hcalc, Stalls, hnonempty, hempty]
    cases u.sqFillingMode with
    | syscall =>
      simp only [reduceCtorEq, if_false]
      split <;> omega
    | topup =>
      simp only [reduceCtorEq, if_false]
      omega
    | topupNoWait =>
      simp only [if_true]
      omega

/-- A ring with one entry, at first free and then waiting to be taken. -/
theorem submission_proceeds_one :
    Proceeds (Parameter.oneEntry .normal).uringParameter ⟨1, 4, [], [], []⟩ 0 ∧
      Proceeds (Parameter.oneEntry .normal).uringParameter ⟨1, 4, [0], [], []⟩ 1 := by
  have hparse : (NPerf.oneEntry .normal).parseParameter .debug 8 =
      .ok (some (Parameter.oneEntry .normal)) := by decide +kernel
  constructor
  · exact (submission_proceeds_iff _ .debug 8 _ hparse rfl _ rfl (by decide) rfl 0 (by decide)).mpr
      (by simp [Stalls, Parameter.oneEntry, Parameter.headersOnly])
  · exact (submission_proceeds_iff _ .debug 8 _ hparse rfl _ rfl (by decide) rfl 1 (by decide)).mpr
      (by simp [Stalls, Parameter.oneEntry, Parameter.headersOnly])

/-- A full queue that the kernel has refused to take is left as it is, when the
loop does not wait. A burst of no request is accepted, and nothing is ever
submitted. -/
theorem submission_stalls :
    let noWait := { NPerf.oneEntry .normal with uringSqMode := .topupNoWait }
    let noBurst := { NPerf.oneEntry .normal with uringSqMode := .syscall, uringBurstSize := 0 }
    let u := (Parameter.oneEntry .normal).uringParameter
    let p := { Parameter.oneEntry .normal with
      uringParameter := { u with sqFillingMode := .topupNoWait } }
    let p' := { Parameter.oneEntry .normal with
      uringParameter := { u with sqFillingMode := .syscall, burstSize := 0 } }
    noWait.parseParameter .debug 8 = .ok (some p) ∧
      calcSqFillMode 1 p.uringParameter ⟨1, 4, [0], [], []⟩ = .ok (0, 0) ∧
      ¬Proceeds p.uringParameter ⟨1, 4, [0], [], []⟩ 1 ∧
      noBurst.parseParameter .debug 8 = .ok (some p') ∧
      calcSqFillMode 0 p'.uringParameter ⟨1, 4, [], [], []⟩ = .ok (0, 0) ∧
      ¬Proceeds p'.uringParameter ⟨1, 4, [], [], []⟩ 0 := by
  refine ⟨by decide +kernel, rfl, ?_, by decide +kernel, rfl, ?_⟩
  · rintro ⟨henters, _⟩
    obtain ⟨n, m, hcalc, hne⟩ := henters (.inl (by decide))
    cases hcalc
    exact hne rfl
  · rintro ⟨henters, _⟩
    obtain ⟨n, m, hcalc, hne⟩ := henters (.inr rfl)
    cases hcalc
    exact hne rfl

end Nperf
