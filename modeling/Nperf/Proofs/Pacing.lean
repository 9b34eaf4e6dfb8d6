import Nperf.Proofs.Parameters

namespace Nperf
open Rust

namespace NPerf

/-- The sockets that the bandwidth is divided among. -/
def sockets (args : NPerf) : Nat :=
  if args.multiplexPort = .sharing then 1 else args.parallel.toNat

/-- The Mbit/s of a socket, before it is counted in bytes. -/
def share (args : NPerf) : Nat := args.bandwidth.toNat / args.sockets

theorem sockets_mul_share (args : NPerf) : args.sockets * args.share ≤ args.bandwidth.toNat :=
  Nat.mul_div_le _ _

theorem lt_sockets_mul_share (args : NPerf) (h : 0 < args.sockets) :
    args.bandwidth.toNat < args.sockets * args.share + args.sockets := by
  have hlt := Nat.mod_lt args.bandwidth.toNat h
  have hdiv := Nat.div_add_mod args.bandwidth.toNat args.sockets
  simp only [share]
  omega

/-- Bytes per second for a socket that gets this share. -/
def rateOf (build : Build) (share : Nat) : Except Fault Nat := do
  let kilo ← build.u64 (share / 8 * 1000 : Nat)
  build.u64 (kilo * 1000 : Nat)

/-- The two multiplications together reduce as one would. -/
theorem rateOf_ok {build : Build} {share rate : Nat} (h : rateOf build share = .ok rate) :
    rate = share / 8 * 1000000 % 2 ^ 64 := by
  obtain ⟨kilo, hkilo, hrate⟩ := bind_ok.mp h
  rw [unsigned_mod hrate, unsigned_mod hkilo, Nat.mod_mul_mod, Nat.mul_assoc]

/-- With overflow checks the bytes have to fit. -/
theorem rateOf_returns {share : Nat} :
    (∃ rate, rateOf .debug share = .ok rate) ↔ share / 8 * 1000000 < 2 ^ 64 := by
  generalize hunits : share / 8 = units
  have htwice : units * 1000 * 1000 = units * 1000000 := Nat.mul_assoc ..
  simp only [rateOf, hunits]
  constructor
  · rintro ⟨rate, h⟩
    obtain ⟨kilo, hkilo, hrate⟩ := bind_ok.mp h
    have hsmall : units * 1000 < 2 ^ 64 := debug_u64_returns.mp ⟨_, hkilo⟩
    have hrange : kilo * 1000 < 2 ^ 64 := debug_u64_returns.mp ⟨_, hrate⟩
    have hmod : kilo = units * 1000 % 2 ^ 64 := unsigned_mod hkilo
    rw [hmod, Nat.mod_eq_of_lt hsmall, htwice] at hrange
    exact hrange
  · intro h
    have hrange : units * 1000 * 1000 < 2 ^ 64 := by
      rw [htwice]
      exact h
    have hsmall := Nat.lt_of_le_of_lt (Nat.le_mul_of_pos_right (units * 1000) (by decide)) hrange
    exact ⟨_, bind_ok.mpr ⟨_, u64_fits _ hsmall, u64_fits _ hrange⟩⟩

theorem bandwidthPerThread_eq (args : NPerf) (build : Build) :
    args.bandwidthPerThread build =
      if args.sockets = 0 then .error .divideByZero else rateOf build args.share := by
  by_cases hmode : args.multiplexPort = .sharing
  · have hone : args.sockets = 1 := if_pos hmode
    have hshare : args.share = args.bandwidth.toNat := by
      rw [share, hone, Nat.div_one]
    rw [if_neg (by omega), hshare]
    simp only [bandwidthPerThread, hmode, ne_eq, not_true, if_false, ok_bind, rateOf]
  · have hall : args.sockets = args.parallel.toNat := if_neg hmode
    simp only [bandwidthPerThread, share, hall, rateOf, hmode, ne_eq, not_false_eq_true, if_true]
    split
    · rw [error_bind]
    · rw [ok_bind]

/-- What comes out of the rate in total is what was asked for, less than
1 Mbit/s for each thread. -/
structure Paced (args : NPerf) (rate : Nat) : Prop where
  positive : 0 < rate
  atMost : 8 * (rate * args.sockets) ≤ args.bandwidth.toNat * 1000000
  shortfall : args.bandwidth.toNat * 1000000 ≤
    8 * (rate * args.sockets + args.parallel.toNat * 1000000)

/-- The bytes of all sockets come to less than 1 Mbyte for each of them below
the bandwidth. -/
theorem sockets_mul_units (args : NPerf) (h : 0 < args.sockets) :
    8 * (args.sockets * (args.share / 8)) ≤ args.bandwidth.toNat ∧
      args.bandwidth.toNat ≤ 8 * (args.sockets * (args.share / 8)) + 8 * args.sockets := by
  have hshare := Nat.div_add_mod args.share 8
  have hrest := Nat.mod_lt args.share (show 0 < 8 by omega)
  constructor
  · have hmul := Nat.mul_le_mul_left args.sockets (show 8 * (args.share / 8) ≤ args.share by omega)
    rw [Nat.mul_left_comm] at hmul
    exact Nat.le_trans hmul args.sockets_mul_share
  · have hmul := Nat.mul_le_mul_left args.sockets
      (show args.share + 1 ≤ 8 * (args.share / 8) + 8 by omega)
    rw [Nat.mul_add, Nat.mul_add, Nat.mul_left_comm] at hmul
    have := lt_sockets_mul_share args h
    omega

theorem sockets_le_parallel {args : NPerf} (hparallel : 1 ≤ args.parallel.toNat) :
    1 ≤ args.sockets ∧ args.sockets ≤ args.parallel.toNat := by
  simp only [sockets]
  split
  · omega
  · omega

theorem paced_of_rate {args : NPerf} (hparallel : 1 ≤ args.parallel.toNat) :
    args.Paced (args.share / 8 * 1000000 % 2 ^ 64) ↔
      8 ≤ args.share ∧ args.share / 8 * 1000000 < 2 ^ 64 := by
  have hthreads := args.parallel.toNat_lt
  have hsockets := sockets_le_parallel hparallel
  -- the products by the number of sockets, which no linear arithmetic sees
  obtain ⟨hlow, hhigh⟩ := sockets_mul_units args hsockets.1
  constructor
  · rintro ⟨hpositive, hatMost, hshortfall⟩
    have hunits : args.share / 8 ≠ 0 := by
      intro hzero
      rw [hzero, Nat.zero_mul, Nat.zero_mod] at hpositive
      omega
    refine ⟨by omega, Nat.lt_of_not_le fun hwraps => ?_⟩
    -- every socket loses at least 2^64, more than all threads may lose together
    have hmod := Nat.div_add_mod (args.share / 8 * 1000000) (2 ^ 64)
    have hquot : 1 ≤ args.share / 8 * 1000000 / 2 ^ 64 := Nat.div_pos hwraps (by decide)
    generalize args.share / 8 * 1000000 % 2 ^ 64 = rate at *
    generalize args.share / 8 * 1000000 / 2 ^ 64 = quotient at *
    have hlost : args.sockets ≤ quotient * args.sockets := Nat.le_mul_of_pos_left _ hquot
    have htotal : 2 ^ 64 * (quotient * args.sockets) + rate * args.sockets =
        args.sockets * (args.share / 8) * 1000000 := by
      rw [← Nat.mul_assoc, ← Nat.add_mul, hmod, Nat.mul_comm, Nat.mul_assoc]
    generalize args.sockets * (args.share / 8) = units at *
    generalize quotient * args.sockets = lost at *
    generalize rate * args.sockets = sent at *
    omega
  · rintro ⟨height, hfits⟩
    have htotal : args.share / 8 * 1000000 * args.sockets =
        args.sockets * (args.share / 8) * 1000000 := by
      rw [Nat.mul_comm, Nat.mul_assoc]
    rw [Nat.mod_eq_of_lt hfits]
    refine ⟨by omega, ?_, ?_⟩
    · rw [htotal]
      omega
    · rw [htotal]
      omega

/-- A share counts in steps of 8 Mbit/s, and its bytes have to fit in 64 bits. -/
theorem paced_iff {args : NPerf} {build : Build} {cores : Nat} {p : Parameter}
    (hmode : args.mode = .sender) (hparallel : 1 ≤ args.parallel.toNat)
    (h : args.parseParameter build cores = .ok (some p)) :
    args.Paced p.socketOptions.socketPacingRate ↔
      8 ≤ args.share ∧ args.share / 8 * 1000000 < 2 ^ 64 := by
  obtain ⟨ipv4, socketOptions, uring, hoptions, _, _, rfl⟩ := parseParameter_options h
  have hrate : (args.adjust
      (args.parameter ipv4 socketOptions uring)).socketOptions.socketPacingRate =
        args.share / 8 * 1000000 % 2 ^ 64 := by
    simp only [parseSocketOptions, bind_ok] at hoptions
    obtain ⟨rate, hrate, hoptions⟩ := hoptions
    cases hoptions
    simp only [adjust, parameter, hmode, reduceCtorEq, and_false, if_false]
    rw [bandwidthPerThread_eq] at hrate
    split at hrate
    · cases hrate
    · exact rateOf_ok hrate
  rw [hrate]
  exact paced_of_rate hparallel

/-- A sender asked for this many Mbit/s. -/
def limited (bandwidth : UInt64) : NPerf :=
  { headersOnly with mode := .sender, bandwidth := bandwidth }

theorem paced_iff_hundred :
    ∃ p, (limited 100).parseParameter .debug 8 = .ok (some p) ∧
      (limited 100).Paced p.socketOptions.socketPacingRate := by
  obtain ⟨o, ho, hsome⟩ := checked (x := (limited 100).parseParameter .debug 8)
    (p := fun o => o.isSome = true) (by decide +kernel)
  obtain ⟨p, rfl⟩ := Option.isSome_iff_exists.mp hsome
  exact ⟨p, ho, (paced_iff rfl (by decide) ho).mpr (by decide)⟩

/-- 7 Mbit/s switch pacing off, and 147573952589680 Mbit/s become 448384 bytes
per second. -/
theorem paced_rounds_and_wraps :
    (∃ p, (limited 7).parseParameter .debug 8 = .ok (some p) ∧
        p.socketOptions.socketPacingRate = 0 ∧
        ¬(limited 7).Paced p.socketOptions.socketPacingRate) ∧
      ∃ p, (limited 147573952589680).parseParameter .release 8 = .ok (some p) ∧
        p.socketOptions.socketPacingRate = 448384 ∧
        ¬(limited 147573952589680).Paced p.socketOptions.socketPacingRate := by
  constructor
  · obtain ⟨o, ho, hrate⟩ := checked (x := (limited 7).parseParameter .debug 8)
      (p := fun o => o.map (·.socketOptions.socketPacingRate) = some 0) (by decide +kernel)
    obtain ⟨p, rfl, hp⟩ := Option.map_eq_some_iff.mp hrate
    refine ⟨p, ho, hp, fun hpaced => ?_⟩
    have := hpaced.positive
    omega
  · obtain ⟨o, ho, hrate⟩ := checked (x := (limited 147573952589680).parseParameter .release 8)
      (p := fun o => o.map (·.socketOptions.socketPacingRate) = some 448384) (by decide +kernel)
    obtain ⟨p, rfl, hp⟩ := Option.map_eq_some_iff.mp hrate
    refine ⟨p, ho, hp, fun hpaced => ?_⟩
    have hshortfall := hpaced.shortfall
    rw [hp] at hshortfall
    exact absurd hshortfall (by decide)

end NPerf
end Nperf
