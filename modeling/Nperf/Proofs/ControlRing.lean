import Nperf.Proofs.ControlSocket
import Nperf.Proofs.Multishot
import Nperf.Proofs.Pool
import Nperf.Proofs.ProvidedBuffer

namespace Nperf
open Rust Runs

namespace Receiver
variable {build : Build} {r r' r'' : Receiver}

/-- The msghdr of a buffer has room for control messages. -/
def ReadyAt (r : Receiver) (index : Nat) : Prop := ∀ h, r.msghdr index = .ok h → h.Ready

/-- Completions leave a msghdr alone or reset it. -/
structure Resets (r r' : Receiver) : Prop where
  parameter : r'.parameter = r.parameter
  msghdr : ∀ i, r'.msghdr i = r.msghdr i ∨ r'.ReadyAt i

theorem ReadyAt.of_eq {i : Nat} (h : r.ReadyAt i) (heq : r'.msghdr i = r.msghdr i) :
    r'.ReadyAt i := by
  intro hdr hhdr
  exact h hdr (heq ▸ hhdr)

theorem Resets.of_eq (hparameter : r'.parameter = r.parameter)
    (hvec : r'.packetBuffer.mmsghdrVec = r.packetBuffer.mmsghdrVec) : r.Resets r' := by
  refine ⟨hparameter, fun i => .inl ?_⟩
  simp only [Receiver.msghdr, PacketBuffer.getMsghdrFromIndex, hvec]

theorem Resets.refl (r : Receiver) : r.Resets r := .of_eq rfl rfl

theorem Resets.trans (h : r.Resets r') (h' : r'.Resets r'') : r.Resets r'' := by
  refine ⟨h'.parameter.trans h.parameter, fun i => ?_⟩
  rcases h'.msghdr i with heq | hready
  · rw [heq]
    exact (h.msghdr i).imp_right (fun hready => hready.of_eq heq)
  · exact .inr hready

theorem Resets.ready {i : Nat} (h : r.Resets r') (hr : r.ReadyAt i) : r'.ReadyAt i :=
  (h.msghdr i).elim (fun heq => hr.of_eq heq) id

theorem restoreProcessed_resets (hgro : r.parameter.socketOptions.gro = true)
    (hmode : r.parameter.uringParameter.uringMode = .normal) (h : Msghdr) (index : Nat) :
    r.Resets (r.restoreProcessed h index) ∧ (r.restoreProcessed h index).ReadyAt index := by
  unfold restoreProcessed
  rw [if_pos hmode]
  have hat : ReadyAt { r with
      packetBuffer := r.packetBuffer.setMsghdr index (r.restoreControllen h) } index := by
    intro hdr hhdr
    rw [msghdr_setMsghdr, if_pos rfl] at hhdr
    obtain ⟨_, _, rfl⟩ := map_eq_ok.mp hhdr
    exact restoreControllen_ready hgro h
  refine ⟨⟨rfl, fun i => ?_⟩, hat⟩
  by_cases hi : index = i
  · exact .inr (hi ▸ hat)
  · left
    rw [msghdr_setMsghdr, if_neg hi]

theorem handleRecvmsgReturn_resets {clock : Clock} {amount : Int} {index : Nat}
    {result : Except Error Unit} (hgro : r.parameter.socketOptions.gro = true)
    (hmode : r.parameter.uringParameter.uringMode = .normal)
    (h : r.handleRecvmsgReturn build clock amount none index = .ok (result, r')) :
    r.Resets r' ∧ (result = .ok () → r'.ReadyAt index) ∧
      (result = .error .initMessageReceived →
        ∃ h0, r.msghdr index = .ok h0 ∧ ∀ t : Receiver, t.skips h0 = true) := by
  obtain ⟨h0, hh0, goes⟩ := handleRecvmsgReturn_cases h
  cases goes with
  | @stopped testId mtype e ms header parsed =>
    refine ⟨.of_eq rfl rfl, by simp, ?_⟩
    intro hinit
    cases hinit
    refine ⟨h0, hh0, fun t => ?_⟩
    rcases parseMessageType_hear parsed with ⟨_, hrefused, _⟩ | ⟨hlt, hsignal, _⟩
    · cases hrefused
    · cases mtype with
      | init => simp [skips, header, hlt]
      | measurement => cases hsignal
      | last => cases hsignal
  | counted _ _ _ packets =>
    obtain ⟨h1, _, _, _, _, _, rfl⟩ := packets
    have hresets := restoreProcessed_resets hgro hmode h1 index
    refine ⟨hresets.1.trans (.of_eq ?_ rfl), fun _ => hresets.2.of_eq rfl, by simp⟩
    unfold restoreProcessed
    split <;> rfl

theorem completeNormal_resets {clock : Clock} {c : Cqe} {n n' : Nat} {pool pool' : List Nat}
    {result : Except Error Unit} (hgro : r.parameter.socketOptions.gro = true)
    (hmode : r.parameter.uringParameter.uringMode = .normal)
    (h : completeNormal (handleRecvmsgReturn build clock) c (r, n, pool) =
      .ok (result, r', n', pool')) :
    r.Resets r' ∧ (result = .ok () → r'.ReadyAt c.userData ∨
      ∃ h0, r.msghdr c.userData = .ok h0 ∧ ∀ t : Receiver, t.skips h0 = true) := by
  cases completeNormal_cases h with
  | failed => exact ⟨.refl r, by simp⟩
  | collected _ goes continues =>
    obtain ⟨hresets, hcounted, hskipped⟩ := handleRecvmsgReturn_resets hgro hmode goes
    exact ⟨hresets, fun _ => continues.imp hcounted hskipped⟩
  | ended _ goes => exact ⟨(handleRecvmsgReturn_resets hgro hmode goes).1, by simp⟩

/-- A buffer has been reset, or the message in it was skipped. -/
def Restored (r t : Receiver) (index : Nat) : Prop :=
  t.ReadyAt index ∨ ∃ h, r.msghdr index = .ok h ∧ r.skips h = true

/-- Where the handler stands after the completions `done`. -/
structure Resetting (r : Receiver) (done : List Cqe) (s : Receiver × Nat × List Nat) : Prop where
  resets : r.Resets s.1
  restored : ∀ c ∈ done, r.Restored s.1 c.userData

theorem Resetting.round {clock : Clock} {done : List Cqe} {c : Cqe}
    {s s' : Receiver × Nat × List Nat} {result : Except Error Unit}
    (hgro : r.parameter.socketOptions.gro = true)
    (hmode : r.parameter.uringParameter.uringMode = .normal) (hs : r.Resetting done s)
    (h : completeNormal (handleRecvmsgReturn build clock) c s = .ok (result, s')) :
    r.Resets s'.1 ∧ (result = .ok () → r.Resetting (done ++ [c]) s') := by
  obtain ⟨hresets, hready⟩ := completeNormal_resets (hs.resets.parameter ▸ hgro)
    (hs.resets.parameter ▸ hmode) h
  refine ⟨hs.resets.trans hresets, fun hok => ⟨hs.resets.trans hresets, ?_⟩⟩
  refine List.forall_mem_append.mpr ⟨fun d hd => ?_, List.forall_mem_singleton.mpr ?_⟩
  · exact (hs.restored d hd).imp_left hresets.ready
  · rcases hready hok with hready | ⟨h0, hh0, hskips⟩
    · exact .inl hready
    · rcases hs.resets.msghdr c.userData with heq | hready
      · exact .inr ⟨h0, heq ▸ hh0, hskips r⟩
      · exact .inl (hresets.ready hready)

theorem ioUringCompleteNormal_resets {clock : Nat → Clock} {cq rest : List Cqe}
    {result : Except Error Nat} (hgro : r.parameter.socketOptions.gro = true)
    (hmode : r.parameter.uringParameter.uringMode = .normal)
    (h : r.ioUringCompleteNormal build clock cq = .ok (result, r', rest)) :
    r.Resets r' ∧ ∀ n, result = .ok n → ∀ c ∈ cq, r.Restored r' c.userData := by
  simp only [ioUringCompleteNormal, bind_ok] at h
  obtain ⟨⟨drained, ⟨t, completed, pool⟩, rest'⟩, hdrain, h⟩ := h
  rcases Queue.drain_cases [] (R := r.Resetting)
    (fun _ _ _ _ _ hs hbody => (hs.round hgro hmode hbody).2 rfl) ⟨.refl r, by simp⟩ hdrain with
    ⟨rfl, _, hall⟩ | ⟨e, front, c, j, u, rfl, _, hfront, hbody⟩
  · cases h
    exact ⟨hall.resets.trans (.of_eq rfl rfl), fun _ _ c hc => hall.restored c hc⟩
  · cases h
    exact ⟨(hfront.round hgro hmode hbody).1, by simp⟩

end Receiver

/-- Pushed buffers come off the end of the pool, whatever its size. -/
theorem IoUringNormal.submit_moves {requests room : Nat} {b b' : PacketBuffer}
    {pushed : List Nat} (h : submit requests room b = .ok (pushed, b')) :
    b'.mmsghdrVec = b.mmsghdrVec ∧ b.indexPool = b'.indexPool ++ pushed.reverse := by
  induction requests generalizing room b pushed with
  | zero =>
    cases h
    simp
  | succ requests ih =>
    simp only [submit, bind_ok] at h
    obtain ⟨⟨index, b1⟩, hindex, _, _, h⟩ := h
    obtain ⟨hvec, hpool⟩ := PacketBuffer.getBufferIndex_ok hindex
    have hvec1 : b1.mmsghdrVec = b.mmsghdrVec := by rw [hvec]
    cases room with
    | zero =>
      cases h
      exact ⟨hvec1, by simpa [PacketBuffer.returnBufferIndex] using hpool⟩
    | succ room =>
      obtain ⟨⟨rest, b2⟩, hrest, h⟩ := bind_ok.mp h
      cases h
      obtain ⟨hvec2, hpool2⟩ := ih hrest
      refine ⟨hvec2.trans hvec1, ?_⟩
      rw [hpool, hpool2, List.reverse_cons, List.append_assoc]

namespace UringLoop
variable {build : Build} {s s' : UringLoop}

/-- The buffers whose msghdrs the kernel is or will be given. -/
def usable (s : UringLoop) : List Nat := s.pool ++ (s.ring.sq ++ s.ring.live)

/-- Buffers change hands, but not what is in them. -/
structure Moved (s s' : UringLoop) : Prop where
  parameter : s'.receiver.parameter = s.receiver.parameter
  mmsghdrVec : s'.receiver.packetBuffer.mmsghdrVec = s.receiver.packetBuffer.mmsghdrVec
  usable : s.usable.Perm s'.usable
  cq : s'.ring.cq = s.ring.cq

theorem Moved.of_eq (hparameter : s'.receiver.parameter = s.receiver.parameter)
    (hbuffer : s'.receiver.packetBuffer = s.receiver.packetBuffer) (hring : s'.ring = s.ring) :
    s.Moved s' := by
  refine ⟨hparameter, by rw [hbuffer], ?_, by rw [hring]⟩
  simp only [UringLoop.usable, pool, hbuffer, hring]
  exact .refl _

theorem Moved.trans {t : UringLoop} (h : s.Moved t) (h' : t.Moved s') : s.Moved s' :=
  ⟨h'.parameter.trans h.parameter, h'.mmsghdrVec.trans h.mmsghdrVec, h.usable.trans h'.usable,
    h'.cq.trans h.cq⟩

theorem closeInterval_moved {clock : Clock} (h : s.closeInterval build clock = .ok s') :
    s.Moved s' := by
  unfold closeInterval at h
  split at h
  · simp only [bind_ok] at h
    obtain ⟨_, _, _, _, h⟩ := h
    cases h
    exact .of_eq rfl rfl rfl
  · cases h
    exact .of_eq rfl rfl rfl

theorem fillNormal_moved {room n : Nat} (h : s.fillNormal room n = .ok s') : s.Moved s' := by
  unfold fillNormal at h
  split at h
  · cases h
    exact .of_eq rfl rfl rfl
  · rename_i requests b hsubmit
    obtain ⟨hvec, hpool⟩ := IoUringNormal.submit_moves hsubmit
    obtain ⟨hreceiver, hring, _⟩ := pushed_ok h
    refine ⟨by rw [hreceiver], by rw [hreceiver, hvec], ?_, by rw [hring, Ring.push]⟩
    simp only [usable, pool, hreceiver, hring, hpool, Ring.push, List.append_assoc]
    apply List.Perm.append_left
    rw [← List.append_assoc, ← List.append_assoc]
    apply List.Perm.append_right
    exact (List.Perm.append_right _ (List.reverse_perm requests)).trans List.perm_append_comm

theorem fill_moved {clock : Clock} {room : Nat} (hmode : s.uring.uringMode = .normal)
    (h : s.fill build clock room = .ok s') : s.Moved s' := by
  unfold fill at h
  simp only [hmode] at h
  simp only [fillCounted, bind_ok] at h
  obtain ⟨statistic, _, t, ht, ⟨toSubmit, minComplete⟩, _, h⟩ := h
  have hmoved : s.Moved t := by
    apply Moved.trans ?_ (closeInterval_moved ht)
    exact .of_eq rfl rfl rfl
  simp only at h
  split at h
  · cases h
    apply hmoved.trans
    exact .of_eq rfl rfl rfl
  · exact hmoved.trans (fillNormal_moved h)

theorem take_moved (n : Nat) (s : UringLoop) : s.Moved { s with ring := s.ring.take n } :=
  ⟨rfl, rfl, (s.ring.take_requests n).symm.append_left _, rfl⟩

theorem enter_moved {result : EnterResult} {clock : Clock} {n : Nat}
    (hmode : s.uring.uringMode = .normal) (h : s.enter build result clock n = .ok s') :
    s.Moved s' := by
  unfold enter at h
  split at h
  · cases h
    exact .of_eq rfl rfl rfl
  · simp only [bind_ok] at h
    obtain ⟨_, _, h⟩ := h
    have hnot : ¬s.uring.uringMode = .multishot := by simp [hmode]
    split at h
    · rename_i hmultishot
      exact absurd hmultishot hnot
    · cases h
      exact .of_eq rfl rfl rfl

theorem interrupted_moved {e : Error} (h : s.interrupted build e = .ok s') :
    s'.receiver = s.receiver ∧ s'.ring = s.ring := by
  cases e with
  | lastMessageReceived =>
    simp only [interrupted] at h
    split at h
    · obtain ⟨_, _, h⟩ := bind_ok.mp h
      cases h
      exact ⟨rfl, rfl⟩
    · cases h
      exact ⟨rfl, rfl⟩
  | _ =>
    cases h
    exact ⟨rfl, rfl⟩

/-- A completion writes into the msghdr it is about. -/
theorem post_msghdr {c : Cqe} {i : Nat} (hi : c.userData ≠ i) :
    (s.post c).receiver.msghdr i = s.receiver.msghdr i := by
  simp only [UringLoop.post]
  split
  · split
    · rw [Receiver.msghdr_setMsghdr, if_neg hi]
    · rfl
  · rfl

/-- What the normal loop keeps: the buffers it uses are apart from those with a
completion to come, and ready. -/
structure Primed (s : UringLoop) : Prop where
  gro : s.receiver.parameter.socketOptions.gro = true
  distinct : (s.usable ++ s.ring.cq.map Cqe.userData).Nodup
  ready : ∀ i ∈ s.usable, s.receiver.ReadyAt i

theorem Primed.moved (hs : s.Primed) (h : s.Moved s') : s'.Primed := by
  refine ⟨h.parameter ▸ hs.gro, ?_, fun i hi => ?_⟩
  · rw [h.cq]
    exact (h.usable.append_right _).nodup_iff.mp hs.distinct
  · have hresets := Receiver.Resets.of_eq h.parameter h.mmsghdrVec
    exact hresets.ready (hs.ready i (h.usable.mem_iff.mpr hi))

theorem Primed.post {c : Cqe} (hmode : s.uring.uringMode = .normal) (hs : s.Primed)
    (hc : c.userData ∈ s.ring.live) : (s.post c).Primed := by
  have hring := post_ring (s := s) (by simp [hmode]) c
  obtain ⟨hparameter, _, _, hpool⟩ := post_buffers (s := s) c
  have husable : s.usable.Perm ((s.post c).usable ++ [c.userData]) := by
    simp only [usable, hpool, hring, List.append_assoc]
    apply List.Perm.append_left _ (List.Perm.append_left _ ?_)
    exact (List.perm_cons_erase hc).trans (List.perm_append_singleton _ _).symm
  have hdistinct : ((s.post c).usable ++ [c.userData] ++ s.ring.cq.map Cqe.userData).Nodup :=
    (husable.append_right _).nodup_iff.mp hs.distinct
  refine ⟨hparameter ▸ hs.gro, ?_, fun i hi => ?_⟩
  · rw [hring]
    simp only [List.map_append, List.map_cons, List.map_nil]
    rw [List.append_assoc] at hdistinct
    exact (List.perm_append_comm.append_left _).nodup_iff.mp hdistinct
  · have hne : c.userData ≠ i := by
      intro hsame
      subst hsame
      have happart := (List.nodup_append.mp (List.nodup_append.mp hdistinct).1).2.2
      exact happart _ hi _ (List.mem_singleton_self _) rfl
    have hold := hs.ready i (husable.mem_iff.mpr (List.mem_append_left _ hi))
    exact hold.of_eq (post_msghdr hne)

/-- A batch whose buffers go back to the pool has no skipped message in it, or
none that the kernel left without room for control messages. -/
def Restores (s : UringLoop) : Prop :=
  s.uring.uringMode = .normal → (∃ c ∈ s.ring.cq, s.receiver.Withholds c) ∨
    ∀ c ∈ s.ring.cq, ∀ h ∈ (s.receiver.msghdr c.userData).toOption, s.receiver.skips h → h.Ready

instance (s : UringLoop) : Decidable s.Restores := inferInstanceAs (Decidable (_ → _ ∨ _))

theorem Primed.complete {clock : Nat → Clock} (hmode : s.uring.uringMode = .normal)
    (hs : s.Primed) (hguard : s.Restores) (h : s.complete build clock = .ok s') : s'.Primed := by
  simp only [UringLoop.complete, hmode, bind_ok] at h
  obtain ⟨⟨result, r, rest⟩, hdrain, h⟩ := h
  obtain ⟨hresets, hrestored⟩ := Receiver.ioUringCompleteNormal_resets hs.gro hmode hdrain
  have hgro : r.parameter.socketOptions.gro = true := hresets.parameter ▸ hs.gro
  rcases Receiver.ioUringCompleteNormal_ok hdrain with
    ⟨t, completed, rfl, rfl, hkept, hgiven, rfl⟩ | ⟨e, front, c, rfl, hcq, hkept, _, _⟩
  · obtain ⟨_, rfl⟩ := reaped_ok h
    have husable : (s.usable ++ s.ring.cq.map Cqe.userData).Perm
        (s.pool ++ s.ring.cq.map Cqe.userData ++ (s.ring.sq ++ s.ring.live)) := by
      simp only [usable, List.append_assoc]
      apply List.Perm.append_left
      rw [← List.append_assoc]
      exact List.perm_append_comm
    have hpool : (t.packetBuffer.returnBufferIndex (s.ring.cq.map Cqe.userData)).indexPool =
        s.pool ++ s.ring.cq.map Cqe.userData := by
      simp only [PacketBuffer.returnBufferIndex, hkept.indexPool, pool]
    refine ⟨hgro, ?_, fun i hi => ?_⟩
    · simp only [usable, pool, hpool, List.map_nil, List.append_nil]
      exact husable.nodup_iff.mp hs.distinct
    · simp only [usable, pool, hpool] at hi
      rcases List.mem_append.mp (husable.mem_iff.mpr hi) with hold | hnew
      · exact hresets.ready (hs.ready i hold)
      · obtain ⟨c, hc, rfl⟩ := List.mem_map.mp hnew
        rcases hrestored completed rfl c hc with hready | ⟨hdr, hhdr, hskips⟩
        · exact hready
        · rcases hguard hmode with ⟨d, hd, hwithholds⟩ | hall
          · exact absurd hwithholds (hgiven d hd)
          · apply hresets.ready
            intro hdr' hhdr'
            exact hall c hc hdr' (by rw [hhdr']; rfl) (by cases hhdr.symm.trans hhdr'; exact hskips)
  · obtain ⟨hreceiver, hring⟩ := interrupted_moved h
    have husable : s'.usable = s.usable := by
      simp only [usable, pool, hreceiver, hring, hkept.indexPool]
    refine ⟨hreceiver ▸ hgro, ?_, fun i hi => ?_⟩
    · rw [husable, hring]
      apply hs.distinct.sublist ((List.Sublist.refl _).append ?_)
      rw [hcq]
      exact (List.sublist_append_right (front ++ [c]) rest |>.trans (by simp)).map _
    · rw [hreceiver]
      exact hresets.ready (hs.ready i (husable ▸ hi))

theorem Primed.step {e : UringEvent} (hmode : s.uring.uringMode = .normal) (hs : s.Primed)
    (hguard : ∀ clock, e = .complete clock → s.Restores) (h : s.step build e = .ok s') :
    s'.Primed := by
  cases e with
  | fill clock room => exact hs.moved (fill_moved hmode (step_fill h).2.2)
  | take n =>
    obtain ⟨_, rfl⟩ := step_take h
    exact hs.moved (take_moved n s)
  | post c =>
    obtain ⟨hc, _, rfl⟩ := step_post h
    exact hs.post hmode hc
  | enter result clock =>
    obtain ⟨n, _, h⟩ := step_enter h
    exact hs.moved (enter_moved hmode h)
  | complete clock => exact hs.complete hmode (hguard clock rfl) (step_complete h).2

/-- No move changes the parameter set. -/
theorem step_parameter {e : UringEvent} (h : s.step build e = .ok s') :
    s'.receiver.parameter = s.receiver.parameter := by
  cases e with
  | fill clock room =>
    obtain ⟨_, _, h⟩ := step_fill h
    cases hmode : s.uring.uringMode with
    | normal => exact (fill_moved hmode h).parameter
    | multishot =>
      simp only [fill, hmode] at h
      rw [(fillMultishot_ok h).1]
    | providedBuffer =>
      simp only [fill, hmode] at h
      obtain ⟨t, toSubmit, _, hk, _, hs'⟩ := fillCounted_ok h
      rcases hs' with rfl | hs'
      · exact hk.receiver.parameter
      · rw [(pushed_ok hs').1]
        exact hk.receiver.parameter
    | zerocopy =>
      simp only [fill, hmode] at h
      cases h
      rfl
  | take n =>
    obtain ⟨_, rfl⟩ := step_take h
    rfl
  | post c =>
    obtain ⟨_, _, rfl⟩ := step_post h
    exact (post_buffers c).1
  | enter result clock =>
    obtain ⟨n, _, h⟩ := step_enter h
    exact (enter_ok h).1.parameter
  | complete clock =>
    obtain ⟨_, h⟩ := step_complete h
    cases hmode : s.uring.uringMode with
    | normal =>
      rcases completeNormal_ok hmode h with ⟨t, hk, _, hreceiver, _⟩ | ⟨_, _, _, _, hk, _⟩
      · rw [hreceiver]
        exact hk.parameter
      · exact hk.parameter
    | multishot =>
      simp only [complete, hmode, bind_ok] at h
      obtain ⟨⟨result, r, cq⟩, hr, h⟩ := h
      have hparameter := (Receiver.ioUringCompleteMultishot_ok hr).1.parameter
      cases result with
      | ok armed =>
        cases h
        exact hparameter
      | error e => rw [(interrupted_moved h).1, hparameter]
    | providedBuffer => exact (completeProvidedBuffer_ok hmode h).1
    | zerocopy =>
      simp only [complete, hmode] at h
      cases h
      rfl

end UringLoop

end Nperf
