import Nperf.Model.CommandParser

namespace Nperf
open Rust

/-- An accepted parameter set is what the arguments say, checked and adjusted. -/
theorem NPerf.parseParameter_options {args : NPerf} {build : Build} {cores : Nat} {p : Parameter}
    (h : args.parseParameter build cores = .ok (some p)) :
    ∃ ipv4 socketOptions uring, args.parseSocketOptions build args.mode = .ok socketOptions ∧
      args.uringParameters build = .ok uring ∧
      args.rejected build cores (args.parameter ipv4 socketOptions uring) = .ok false ∧
      p = args.adjust (args.parameter ipv4 socketOptions uring) := by
  unfold parseParameter at h
  split at h
  · cases h
  split at h
  · cases h
  · rename_i ipv4 _
    simp only [bind_ok] at h
    obtain ⟨socketOptions, hoptions, uring, huring, h⟩ := h
    simp only [parameterCheck, bind_ok] at h
    obtain ⟨rejected, hrejected, h⟩ := h
    cases rejected with
    | true => cases h
    | false =>
      cases h
      exact ⟨ipv4, socketOptions, uring, hoptions, huring, hrejected, rfl⟩

theorem NPerf.parseParameter_some {args : NPerf} {build : Build} {cores : Nat} {p : Parameter}
    (h : args.parseParameter build cores = .ok (some p)) :
    ∃ ipv4 socketOptions uring, args.uringParameters build = .ok uring ∧
      args.rejected build cores (args.parameter ipv4 socketOptions uring) = .ok false ∧
      p = args.adjust (args.parameter ipv4 socketOptions uring) := by
  obtain ⟨ipv4, socketOptions, uring, _, h⟩ := parseParameter_options h
  exact ⟨ipv4, socketOptions, uring, h⟩

/-- The checks on the ring and the burst, the only ones about `io_uring`. -/
theorem NPerf.rejected_uring {args : NPerf} {build : Build} {cores : Nat} {p : Parameter}
    (h : args.rejected build cores p = .ok false) :
    0 < args.uringRingSize.toNat ∧ p.uringParameter.burstSize ≤ args.uringRingSize.toNat ∧
      args.uringRingSize.toNat ≤ uringMaxRingSize := by
  unfold rejected at h
  split at h
  · cases h
  simp only [bind_ok] at h
  obtain ⟨_, _, h⟩ := h
  split at h
  · cases h
  rename_i hpower
  split at h
  · cases h
  rename_i hburst
  split at h
  · cases h
  rename_i hmax
  obtain ⟨i, _, hi⟩ := List.mem_map.mp (Classical.not_not.mp hpower)
  refine ⟨?_, by omega, by omega⟩
  rw [← hi]
  exact Nat.two_pow_pos i

/-- What an accepted parameter set says about the ring and its buffers. -/
structure UringParameter.Accepted (u : UringParameter) : Prop where
  ring : 0 < u.ringSize
  ringMax : u.ringSize ≤ uringMaxRingSize
  burst : u.burstSize ≤ u.ringSize
  buffer : u.bufferSize = u.ringSize * uringBufferSizeMultiplicator

theorem NPerf.parseParameter_uring {args : NPerf} {build : Build} {cores : Nat} {p : Parameter}
    (h : args.parseParameter build cores = .ok (some p)) :
    p.uringParameter.Accepted ∧ p.uringParameter.uringMode = args.uringMode ∧
      (args.ioModel = .ioUring → args.uringMode = .normal →
        p.packetBufferSize = p.uringParameter.bufferSize) := by
  obtain ⟨ipv4, socketOptions, uring, huring, hrejected, rfl⟩ := parseParameter_some h
  obtain ⟨hring, hburst, hmax⟩ := rejected_uring hrejected
  simp only [uringParameters, bind_ok] at huring
  obtain ⟨bufferSize, hbuffer, huring⟩ := huring
  cases huring
  have hexact : build.u32 (args.uringRingSize.toNat * uringBufferSizeMultiplicator : Nat) =
      .ok (args.uringRingSize.toNat * uringBufferSizeMultiplicator) := by
    apply unsigned_fits
    simp only [uringMaxRingSize, uringBufferSizeMultiplicator] at hmax ⊢
    omega
  rw [hexact] at hbuffer
  cases hbuffer
  refine ⟨⟨hring, hmax, hburst, rfl⟩, rfl, ?_⟩
  intro hio hmode
  simp [adjust, parameter, hio, hmode]

theorem NPerf.parseParameter_size {args : NPerf} {build : Build} {cores : Nat} {p : Parameter}
    (h : args.parseParameter build cores = .ok (some p)) : p.packetBufferSize < 2 ^ 64 := by
  have hu := (parseParameter_uring h).1
  have hbuffer := hu.buffer
  have hmax := hu.ringMax
  obtain ⟨ipv4, socketOptions, uring, _, _, rfl⟩ := parseParameter_some h
  simp only [adjust, parameter, uringMaxRingSize, uringBufferSizeMultiplicator] at hbuffer hmax ⊢
  split
  · omega
  · split
    · exact args.withMmsgAmount.toNat_lt
    · decide

theorem NPerf.parseParameter_mss {args : NPerf} {build : Build} {cores : Nat} {p : Parameter}
    (h : args.parseParameter build cores = .ok (some p)) : p.mss < 2 ^ 32 := by
  obtain ⟨ipv4, socketOptions, uring, _, _, rfl⟩ := parseParameter_some h
  simp only [adjust, parameter]
  split
  · exact args.withGsoBuffer.toNat_lt
  · exact args.withMss.toNat_lt

/-- Without `io_uring` and `sendmmsg`, one message at a time; only the mode for
zero copy gets all the buffers of a ring. -/
theorem NPerf.parseParameter_single {args : NPerf} {build : Build} {cores : Nat} {p : Parameter}
    (h : args.parseParameter build cores = .ok (some p)) (hio : p.ioModel ≠ .ioUring)
    (hfunction : p.exchangeFunction ≠ .mmsg) :
    p.packetBufferSize =
      if p.uringParameter.uringMode = .zerocopy then p.uringParameter.bufferSize else 1 := by
  have hmode := (parseParameter_uring h).2.1
  obtain ⟨ipv4, socketOptions, uring, _, _, rfl⟩ := parseParameter_some h
  rw [hmode]
  simp only [adjust, parameter] at hio hfunction ⊢
  simp only [hio, false_and, false_or]

/-- Without segmentation offload and `io_uring`, one message at a time. -/
theorem NPerf.parseParameter_msg {args : NPerf} {build : Build} {cores : Nat} {p : Parameter}
    (h : args.parseParameter build cores = .ok (some p)) (hgsro : args.withGsro = false)
    (hfunction : args.exchangeFunction = .msg) (hio : args.ioModel ≠ .ioUring)
    (hmode : args.uringMode = .normal) : p.mss < 2 ^ 32 ∧ p.packetBufferSize = 1 := by
  obtain ⟨ipv4, socketOptions, uring, _, _, rfl⟩ := parseParameter_some h
  constructor
  · simp only [adjust, parameter, hgsro]
    exact args.withMss.toNat_lt
  · simp [adjust, parameter, hio, hmode, hfunction]

end Nperf
