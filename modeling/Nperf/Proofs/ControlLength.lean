import Nperf.Proofs.ControlRing
import Nperf.Proofs.Modes
import Nperf.Proofs.Totals

namespace Nperf
open Rust Runs

namespace ReceiverRun
variable {build : Build} {s s' : ReceiverRun}

/-- The msghdrs that a receive call or an uncompleted request hands to the
kernel. `recv` hands over none. -/
def offered : ReceiverRun → List Msghdr
  | .receiving r _ =>
    match r.exchangeFunction with
    | .normal => []
    | .msg => (r.prepareMsghdrs.packetBuffer.mmsghdrVec.take 1).map Mmsghdr.msgHdr
    | .mmsg => r.prepareMsghdrs.packetBuffer.mmsghdrVec.map Mmsghdr.msgHdr
  | .uring s =>
    if s.uring.uringMode = .normal then
      (s.ring.sq ++ s.ring.live).filterMap (fun i => (s.receiver.msghdr i).toOption)
    else []
  | _ => []

/-- No message is skipped whose msghdr the kernel is given again as it is. -/
def Restores : ReceiverRun → ReceiverEvent → Prop
  | .receiving r _, .receive _ socket => r.Restores socket
  | .uring s, .ring (.complete _) => s.Restores
  | _, _ => True

instance (s : ReceiverRun) (e : ReceiverEvent) : Decidable (s.Restores e) := by
  unfold Restores
  split <;> infer_instance

def Primed : ReceiverRun → Prop
  | .polling r => r.parameter.socketOptions.gro = true ∧ r.packetBuffer.Ready ∧
      r.packetBuffer.indexPool.Nodup
  | .looping r _ | .receiving r _ | .waiting r _ =>
    r.parameter.socketOptions.gro = true ∧ r.Primed
  | .uring s => s.uring.uringMode = .normal → s.Primed
  | .closing _ _ | .returned _ _ => True

theorem Primed.offered_ready (hs : s.Primed) : ∀ h ∈ s.offered, h.Ready := by
  intro h hh
  cases s with
  | receiving r statistic =>
    have hready := hs.2.prepared hs.1
    simp only [offered] at hh
    split at hh
    · cases hh
    · obtain ⟨m, hm, rfl⟩ := List.mem_map.mp hh
      exact hready m (List.mem_of_mem_take hm)
    · obtain ⟨m, hm, rfl⟩ := List.mem_map.mp hh
      exact hready m hm
  | uring s =>
    simp only [offered] at hh
    split at hh
    · rename_i hmode
      obtain ⟨i, hi, hat⟩ := List.mem_filterMap.mp hh
      have hready := (hs hmode).ready i (List.mem_append_right _ hi)
      cases hmsghdr : s.receiver.msghdr i with
      | error f => simp [hmsghdr, Except.toOption] at hat
      | ok h' =>
        simp only [hmsghdr, Except.toOption, Option.some.injEq] at hat
        exact hat ▸ hready h' hmsghdr
    · cases hh
  | _ => cases hh

theorem start_primed {r : Receiver} (hgro : r.parameter.socketOptions.gro = true)
    (hready : r.packetBuffer.Ready) (hpool : r.packetBuffer.indexPool.Nodup)
    (clock clock' : Clock) (result : WaitResult) (setup : Except Error Unit) :
    (start clock clock' result setup r).Primed := by
  cases result with
  | timeout => trivial
  | failed => trivial
  | ready =>
    simp only [start, socketPoll]
    split
    · exact ⟨hgro, .inr hready⟩
    · split
      · trivial
      · cases setup with
        | error e => trivial
        | ok u =>
          refine fun _ => ⟨hgro, ?_, fun i hi h hh => ?_⟩
          · simpa [UringLoop.usable, UringLoop.pool, UringLoop.start, Ring.create,
              Receiver.startInterval] using hpool
          · exact Receiver.msghdr_ready (r := r) hready hh

theorem received_primed {r : Receiver} (hgro : r.parameter.socketOptions.gro = true)
    {result : Except Error Unit} (hr : r.Continues result → r.Primed) (statistic : Statistic) :
    (received r statistic result).Primed := by
  cases result with
  | ok u => exact ⟨hgro, hr trivial⟩
  | error e =>
    cases e with
    | eagain => exact ⟨hgro, hr (.inl rfl)⟩
    | initMessageReceived => exact ⟨hgro, hr (.inr (.inl rfl))⟩
    | lastMessageReceived =>
      simp only [received]
      split
      · trivial
      · rename_i hfinished
        exact ⟨hgro, hr (.inr (.inr ⟨rfl, Bool.eq_false_iff.mpr hfinished⟩))⟩
    | _ => trivial

theorem waited_primed {r : Receiver} (hgro : r.parameter.socketOptions.gro = true)
    (hr : r.Primed) (statistic : Statistic) (result : Except Error Unit) :
    (waited r statistic result).Primed := by
  cases result with
  | ok u => exact ⟨hgro, hr⟩
  | error e => cases e <;> trivial

/-- The interval check has no part in it. -/
theorem closeInterval_primed {clock : Clock} {r r' : Receiver} {statistic statistic' : Statistic}
    (hr : r.Primed) (h : r.closeInterval build clock statistic = .ok (r', statistic')) :
    r'.parameter = r.parameter ∧ r'.Primed := by
  unfold Receiver.closeInterval at h
  split at h
  · obtain ⟨_, _, h⟩ := bind_ok.mp h
    cases h
    exact ⟨rfl, hr⟩
  · cases h
    exact ⟨rfl, hr⟩

theorem Primed.step {e : ReceiverEvent} (hs : s.Primed) (hguard : s.Restores e)
    (h : s.step build e = .ok s') : s'.Primed := by
  unfold ReceiverRun.step at h
  split at h
  · rename_i r clock clock' result setup
    cases h
    exact start_primed hs.1 hs.2.1 hs.2.2 clock clock' result setup
  · obtain ⟨⟨r', statistic'⟩, hcheck, h⟩ := bind_ok.mp (lift_ok.mp h)
    cases h
    obtain ⟨hparameter, hr⟩ := closeInterval_primed hs.2 hcheck
    exact ⟨hparameter ▸ hs.1, hr⟩
  · rename_i r statistic clock socket
    obtain ⟨⟨result, r'⟩, hrecv, h⟩ := bind_ok.mp (lift_ok.mp h)
    cases h
    obtain ⟨hparameter, hr⟩ := Receiver.recvMessages_primed hs.1 hs.2 hguard hrecv
    exact received_primed (hparameter ▸ hs.1) hr statistic
  · cases h
    exact waited_primed hs.1 hs.2 _ _
  · rename_i l e
    obtain ⟨l', hl, h⟩ := map_eq_ok.mp h
    cases h
    have hprimed : l'.uring.uringMode = .normal → l'.Primed := by
      intro hmode
      have hsame : l'.uring = l.uring := by
        simp only [UringLoop.uring, UringLoop.step_parameter hl]
      have hmode' : l.uring.uringMode = .normal := hsame ▸ hmode
      apply (hs hmode').step hmode' ?_ hl
      intro clock he
      subst he
      exact hguard
    unfold looped
    split
    · trivial
    · trivial
    · exact hprimed
  · rename_i r statistic clock closed
    have h := lift_ok.mp h
    unfold finish at h
    split at h
    · cases h
      trivial
    · obtain ⟨_, _, h⟩ := bind_ok.mp h
      cases h
      trivial
  · cases h

end ReceiverRun

/-- As long as no message is skipped whose msghdr the kernel is given again as
it is, all that the kernel is given have room for control messages. -/
theorem control_length_restored (build : Build) (clock : Clock) (p : Parameter) (r : Receiver)
    (hnew : Receiver.new clock p = .ok r) (hgro : p.socketOptions.gro = true)
    (events : List ReceiverEvent)
    (hguard : Guarded (ReceiverRun.step build) ReceiverRun.Restores (.polling r) events) :
    Always (ReceiverRun.step build)
      (fun s => ∀ h ∈ s.offered, h.msgControllen = lengthMsghdrControlMessageBuffer)
      (.polling r) events := by
  have hprimed : (ReceiverRun.polling r).Primed := by
    obtain ⟨v, _, hnew⟩ := bind_ok.mp hnew
    cases hnew
    refine ⟨hgro, ?_, List.nodup_range⟩
    intro m hm
    simp only [PacketBuffer.new, MsghdrVec.withCmsgBuffer, List.map_map] at hm
    obtain ⟨w, _, rfl⟩ := List.mem_map.mp hm
    exact rfl
  exact (always_of_step (fun _ _ _ hs hguard h => hs.step hguard h) hprimed hguard).imp
    (fun _ hs => hs.offered_ready)

/-- A receiver under GRO that waits for its socket. -/
def Parameter.gro : Parameter :=
  { Parameter.headersOnly with
    mss := 48
    socketOptions := { Parameter.headersOnly.socketOptions with gro := true } }

example : { NPerf.headersOnly with withGsro := true, withGsoBuffer := 48 }.parseParameter .debug 8 =
    .ok (some Parameter.gro) := by
  decide +kernel

/-- A message as it arrives at the socket, with the interval check before it. -/
def receives (d : Delivery) : List ReceiverEvent :=
  [.check ⟨1, 1⟩, .receive ⟨1, 1⟩ ⟨.ok d, .ok []⟩]

/-- A single test: its INIT comes before any packet and its LAST ends the loop. -/
theorem control_length_single :
    let r := (Receiver.new ⟨0, 0⟩ .gro).toOption.get (by decide)
    let events : List ReceiverEvent := .poll ⟨0, 0⟩ ⟨0, 0⟩ .ready (.ok ()) ::
      (receives (.packet .init 0 0) ++ receives (.coalesced 0) ++ receives (.coalesced 2) ++
        receives (.packet .last 0 0) ++ [.finish ⟨1, 1⟩ true])
    (run (ReceiverRun.step .debug) (.polling r) events).toOption.map
        (fun s => s.final.map Statistic.amountDatagrams) = some (some 4) ∧
      Always (ReceiverRun.step .debug)
        (fun s => ∀ h ∈ s.offered, h.msgControllen = lengthMsghdrControlMessageBuffer)
        (.polling r) events := by
  intro r events
  exact ⟨by decide +kernel, control_length_restored .debug ⟨0, 0⟩ .gro r rfl rfl events
    (by decide +kernel)⟩

/-- At the socket the INIT of a second test leaves no room for the next message,
on the ring the very first INIT does when its buffer is pushed again. -/
theorem control_length_lost :
    let lengths (p : Parameter) (hp : (Receiver.new ⟨0, 0⟩ p).toOption.isSome)
        (events : List ReceiverEvent) : Option (List Nat) :=
      (run (ReceiverRun.step .debug) (.polling ((Receiver.new ⟨0, 0⟩ p).toOption.get hp))
        (.poll ⟨0, 0⟩ ⟨0, 0⟩ .ready (.ok ()) :: events)).toOption.map
          (fun s => s.offered.map Msghdr.msgControllen)
    lengths .gro (by decide) (receives (.packet .init 0 0) ++ receives (.coalesced 0) ++
        receives (.packet .init 1 0) ++ [.check ⟨1, 1⟩]) = some [0] ∧
      lengths (.coalescing .normal) (by decide) ([.fill ⟨0, 0⟩ 1, .take 1,
        .enter .submitted ⟨0, 0⟩, .post ⟨24, 3, 0, .packet .init 0 0⟩,
        .complete fun _ => ⟨0, 0⟩, .fill ⟨0, 0⟩ 1].map ReceiverEvent.ring) = some [0] := by
  decide +kernel

end Nperf
