import Nperf.Proofs.SendAccounting

namespace Nperf
open Rust Runs

namespace SenderLoop
variable {p : Parameter} {s s' : SenderLoop}

/-- A request in flight finds in its buffer what was there when it was pushed,
and has the buffer to itself. -/
structure Undisturbed (p : Parameter) (s : SenderLoop) : Prop where
  kept : ∀ q ∈ s.ring.awaiting, s.sender.packetBuffer.getMsghdrFromIndex q.buffer = .ok q.pushed
  distinct : (s.ring.awaiting.map SendRequest.buffer).Nodup
  bounded : s.ring.awaiting.length ≤ p.uringParameter.bufferSize

/-- The number of buffers, from the first one on, that the next iteration
stamps. -/
def stamps (s : SenderLoop) : Nat :=
  match s.uring.sqFillingMode with
  | .syscall => s.uring.burstSize
  | .topup | .topupNoWait => s.ring.sqCapacity - s.ring.sq.length

/-- No buffer that is about to be stamped is in flight. -/
def SparesBuffers (s : SenderLoop) : SenderEvent → Prop
  | .fill time _ _ =>
    s.sender.running s.startTime time → ∀ q ∈ s.ring.awaiting, s.stamps ≤ q.buffer
  | _ => True

instance (s : SenderLoop) : ∀ e, Decidable (s.SparesBuffers e)
  | .fill time _ _ => inferInstanceAs (Decidable
      (s.sender.running s.startTime time → ∀ q ∈ s.ring.awaiting, s.stamps ≤ q.buffer))
  | .take _ | .post _ | .enter _ | .complete => inferInstanceAs (Decidable True)

/-- The pool has no say in how many buffers the filling modes may use. -/
theorem calcSqFillMode_le {inflight toSubmit minComplete : Nat}
    (h : calcSqFillMode inflight s.uring s.ring.ring = .ok (toSubmit, minComplete)) :
    toSubmit ≤ s.stamps := by
  simp only [calcSqFillMode, bind_ok] at h
  obtain ⟨limit, _, h⟩ := h
  split at h
  · split at h <;> cases h <;> exact Nat.zero_le _
  · have hfree : ∀ {left : Nat}, checkedSub s.ring.ring.sqCapacity s.ring.ring.sq.length =
        .ok left → left = s.ring.sqCapacity - s.ring.sq.length := by
      intro left hleft
      unfold checkedSub at hleft
      split at hleft
      · cases hleft
        simp [SendRing.ring]
      · cases hleft
    cases hmode : s.uring.sqFillingMode with
    | syscall =>
      simp only [stamps, hmode, Except.ok.injEq, bind_ok] at h ⊢
      obtain ⟨_, rfl, h⟩ := h
      cases h
      split <;> omega
    | topup | topupNoWait =>
      simp only [stamps, hmode, bind_ok] at h ⊢
      obtain ⟨left, hleft, buffers, _, n, hn, h⟩ := h
      cases hn
      cases h
      rw [← hfree hleft]
      split <;> omega

/-- The buffers of the loop and what names them. -/
structure Named (p : Parameter) (s : SenderLoop) : Prop where
  parameter : s.sender.parameter = p
  size : s.sender.packetBuffer.mmsghdrVec.length = p.packetBufferSize
  kept : ∀ q ∈ s.ring.awaiting, s.sender.packetBuffer.getMsghdrFromIndex q.buffer = .ok q.pushed
  distinct : (s.ring.awaiting.map SendRequest.buffer).Nodup

theorem Named.undisturbed (hsize : p.packetBufferSize = p.uringParameter.bufferSize)
    (hs : s.Named p) : s.Undisturbed p := by
  refine ⟨hs.kept, hs.distinct, ?_⟩
  have hsub : s.ring.awaiting.map SendRequest.buffer ⊆ List.range p.packetBufferSize := by
    intro i hi
    obtain ⟨q, hq, rfl⟩ := List.mem_map.mp hi
    have hkept := hs.kept q hq
    simp only [PacketBuffer.getMsghdrFromIndex] at hkept
    split at hkept
    · rename_i m hm
      obtain ⟨hlt, _⟩ := List.getElem?_eq_some_iff.mp hm
      exact List.mem_range.mpr (hs.size ▸ hlt)
    · cases hkept
  have hlen := hs.distinct.length_le_of_subset hsub
  rw [List.length_map, List.length_range] at hlen
  omega

theorem Named.of_awaiting {t : SenderLoop} (hs : s.Named p)
    (hparameter : t.sender.parameter = s.sender.parameter)
    (hvec : t.sender.packetBuffer.mmsghdrVec = s.sender.packetBuffer.mmsghdrVec)
    (hperm : t.ring.awaiting.Sublist s.ring.awaiting ∨ t.ring.awaiting.Perm s.ring.awaiting) :
    t.Named p := by
  have hmem : ∀ q ∈ t.ring.awaiting, q ∈ s.ring.awaiting := by
    intro q hq
    rcases hperm with hsub | hperm
    · exact hsub.subset hq
    · exact hperm.mem_iff.mp hq
  refine ⟨hparameter.trans hs.parameter, by rw [hvec]; exact hs.size, fun q hq => ?_, ?_⟩
  · have := hs.kept q (hmem q hq)
    simpa only [PacketBuffer.getMsghdrFromIndex, hvec] using this
  · rcases hperm with hsub | hperm
    · exact (hsub.map SendRequest.buffer).nodup hs.distinct
    · exact (hperm.map SendRequest.buffer).nodup_iff.mpr hs.distinct

/-- Requests that spare the buffers in flight join them. -/
theorem Named.submit {room : Nat} (hmode : p.uringParameter.uringMode = .normal)
    (hs : s.Named p) (hspared : ∀ q ∈ s.ring.awaiting, s.stamps ≤ q.buffer)
    (h : s.submit room = .ok s') : s'.Named p := by
  obtain ⟨n, m, hcalc, ⟨_, rfl⟩ | ⟨result, requests, b, hrequests, hsender, hring, _⟩⟩ :=
    submit_ok h
  · exact hs.of_awaiting rfl rfl (.inr (.refl _))
  have hzc : s.zerocopy = false := by simp [zerocopy, uring, hs.parameter, hmode]
  simp only [submitRequests, hzc, Bool.false_eq_true, ↓reduceIte] at hrequests
  obtain ⟨⟨used, hstamp⟩, hlen, hbuffers, hnew, _⟩ := IoUringSend.submit_ok hrequests
  obtain ⟨hsize, _, _, _, hframe⟩ := addPacketIds_frame hstamp
  have hn := calcSqFillMode_le hcalc
  have hjoin := s.ring.push_awaiting requests
  have hbelow : ∀ i ∈ requests.map SendRequest.buffer, i < n := by
    rw [hbuffers]
    intro i hi
    have := List.mem_range.mp hi
    omega
  refine ⟨by rw [hsender]; exact hs.parameter, by rw [hsender]; exact hsize.trans hs.size, ?_, ?_⟩
  · intro q hq
    rw [hring] at hq
    rw [hsender]
    rcases List.mem_append.mp (hjoin.mem_iff.mp hq) with hold | hfresh
    · have hkept := hs.kept q hold
      have hspare := hspared q hold
      simp only [PacketBuffer.getMsghdrFromIndex] at hkept ⊢
      rw [hframe q.buffer (by omega)]
      exact hkept
    · exact hnew q hfresh
  · rw [hring, (hjoin.map SendRequest.buffer).nodup_iff, List.map_append, List.nodup_append]
    refine ⟨hs.distinct, by rw [hbuffers]; exact List.nodup_range, ?_⟩
    rintro i hi j hj rfl
    obtain ⟨q, hq, rfl⟩ := List.mem_map.mp hi
    have := hspared q hq
    have := hbelow _ hj
    omega

theorem Named.step {e : SenderEvent} (hmode : p.uringParameter.uringMode = .normal)
    (hs : s.Named p) (h : s.step e = .ok s') (hspares : s.SparesBuffers e) : s'.Named p := by
  cases e with
  | fill time clock room =>
    obtain ⟨_, _, hfill⟩ := step_fill h
    rcases fill_ok hfill with ⟨result, rfl⟩ | ⟨hrunning, t, hk, hsubmit⟩
    · exact hs.of_awaiting rfl rfl (.inr (.refl _))
    · have ht : t.Named p := hs.of_awaiting hk.parameter (by rw [hk.packetBuffer])
        (.inr (.of_eq (by rw [hk.ring])))
      have hstamps : t.stamps = s.stamps := by simp only [stamps, hk.uring, hk.ring]
      refine ht.submit hmode (fun q hq => ?_) hsubmit
      rw [hstamps]
      exact hspares hrunning q (hk.ring ▸ hq)
  | take n =>
    obtain ⟨_, rfl⟩ := step_take h
    exact hs.of_awaiting rfl rfl (.inr (s.ring.take_awaiting n))
  | post c =>
    obtain ⟨hposts, _, rfl⟩ := step_post h
    exact hs.of_awaiting rfl rfl (.inr (SendRing.post_awaiting hposts))
  | enter result =>
    obtain ⟨n, _, h⟩ := step_enter h
    obtain ⟨hring, _, _, ⟨_, hsender⟩ | ⟨_, next, hsender, _⟩⟩ := enter_ok h
    · exact hs.of_awaiting (by rw [hsender]) (by rw [hsender]) (.inr (.of_eq (by rw [hring])))
    · exact hs.of_awaiting (by rw [hsender]) (by rw [hsender]) (.inr (.of_eq (by rw [hring])))
  | complete =>
    obtain ⟨_, h⟩ := step_complete h
    obtain ⟨hk, _, _, front, rest, hcq, hring, _⟩ := complete_ok h
    apply hs.of_awaiting hk.parameter hk.mmsghdrVec (.inl ?_)
    rw [hring]
    simp only [SendRing.awaiting, hcq, List.filter_append, List.map_append]
    exact List.Sublist.append_left (List.sublist_append_right _ _) _

end SenderLoop

/-- The buffers of a loop without zero copy stay as they were pushed in runs in
which the next iteration never stamps a buffer in flight. -/
theorem inflight_undisturbed (args : NPerf) (build : Build) (cores : Nat) (p : Parameter)
    (hparse : args.parseParameter build cores = .ok (some p)) (hio : args.ioModel = .ioUring)
    (hmode : args.uringMode = .normal) (clock clock' : Clock) (testId : Nat) (sd : Sender)
    (hnew : Sender.new clock testId p = .ok sd) (startTime : Timestamp)
    (events : List SenderEvent) (s : SenderLoop)
    (hrun : run SenderLoop.step (.start clock' startTime sd) events = .ok s)
    (hspares : Guarded SenderLoop.step SenderLoop.SparesBuffers (.start clock' startTime sd)
      events) :
    Always SenderLoop.step (SenderLoop.Undisturbed p) (.start clock' startTime sd) events := by
  obtain ⟨_, hmode', hsize⟩ := NPerf.parseParameter_uring hparse
  obtain ⟨hparameter, hlength, _⟩ := Sender.new_pool hnew
  have hs : (SenderLoop.start clock' startTime sd).Named p :=
    ⟨hparameter, hlength, by simp [SenderLoop.start, SendRing.create, SendRing.awaiting], .nil⟩
  refine (always_of_guarded (I := fun _ => True) (fun _ => True) (fun _ _ _ _ _ => trivial)
    (fun _ _ _ _ _ _ => trivial)
    (fun _ _ _ _ hs _ h hspares => hs.step (hmode'.trans hmode) h hspares) trivial hs hrun trivial
    hspares).imp (fun s hs => hs.undisturbed (hsize hio hmode))

/-- The completions come before the next iteration. -/
theorem inflight_undisturbed_prompt :
    let sd := (Sender.new ⟨0, 0⟩ 7 (.oneSend .normal)).toOption.get (by decide)
    let events : List SenderEvent :=
      [.fill ⟨0, 0⟩ ⟨0, 0⟩ 1, .take 1, .enter .submitted, .post ⟨.packet 0 0 0, 24, 0⟩, .complete,
        .fill ⟨0, 0⟩ ⟨0, 0⟩ 1, .take 1, .enter .submitted, .post ⟨.packet 0 1 1, 24, 0⟩, .complete]
    Always SenderLoop.step (SenderLoop.Undisturbed (.oneSend .normal)) (.start ⟨0, 0⟩ 0 sd)
      events := by
  intro sd events
  obtain ⟨s, hrun, _⟩ := checked (p := fun _ => True)
    (x := run SenderLoop.step (.start ⟨0, 0⟩ 0 sd) events) (by decide +kernel)
  exact inflight_undisturbed (.oneSend .normal) .debug 8 (.oneSend .normal) (by decide +kernel)
    rfl rfl ⟨0, 0⟩ ⟨0, 0⟩ 7 sd rfl 0 events s hrun (by decide +kernel)

/-- The first completion is late: its buffer is stamped anew and pushed again.
As long as nothing completes, the loop goes on like that. -/
theorem inflight_disturbed :
    let sd := (Sender.new ⟨0, 0⟩ 7 (.oneSend .normal)).toOption.get (by decide)
    let iteration : List SenderEvent :=
      [.fill ⟨0, 0⟩ ⟨0, 0⟩ 1, .take 1, .enter .submitted, .complete]
    (∃ s, run SenderLoop.step (.start ⟨0, 0⟩ 0 sd) (iteration ++ iteration) = .ok s ∧
        s.ring.awaiting = [.packet 0 0 0, .packet 0 1 1] ∧
        s.sender.packetBuffer.getMsghdrFromIndex 0 = .ok (SendRequest.packet 0 1 1).pushed) ∧
      ∃ s, run SenderLoop.step (.start ⟨0, 0⟩ 0 sd)
          (iteration ++ iteration ++ iteration ++ iteration ++ iteration) = .ok s ∧
        s.ring.awaiting.length = 5 ∧ s.uring.bufferSize = 4 :=
  ⟨checked (by decide +kernel), checked (by decide +kernel)⟩

end Nperf
