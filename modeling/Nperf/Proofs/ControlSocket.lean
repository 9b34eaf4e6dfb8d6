import Nperf.Model.ReceiverRun
import Nperf.Proofs.History
import Nperf.Proofs.Messages

namespace Nperf
open Rust Bytes Runs

/-- The kernel finds room for control messages. -/
def Msghdr.Ready (h : Msghdr) : Prop := h.msgControllen = lengthMsghdrControlMessageBuffer

instance (h : Msghdr) : Decidable h.Ready := inferInstanceAs (Decidable (_ = _))

namespace PacketBuffer

/-- All msghdrs of a receiver are. -/
def Ready (b : PacketBuffer) : Prop := ∀ m ∈ b.mmsghdrVec, m.msgHdr.Ready

theorem resetMsghdrFields_ready (b : PacketBuffer) : b.resetMsghdrFields.Ready := by
  intro m hm
  obtain ⟨m, _, rfl⟩ := List.mem_map.mp hm
  exact rfl

theorem setMsghdr_setMsghdr (b : PacketBuffer) (index : Nat) (h h' : Msghdr) :
    (b.setMsghdr index h).setMsghdr index h' = b.setMsghdr index h' := by
  simp only [PacketBuffer.setMsghdr, List.modify_modify_eq]
  rfl

theorem Ready.setMsghdr {b : PacketBuffer} {h : Msghdr} (hb : b.Ready) (hh : h.Ready)
    (index : Nat) : (b.setMsghdr index h).Ready := by
  intro m hm
  obtain ⟨i, hi⟩ := List.mem_iff_getElem?.mp hm
  simp only [PacketBuffer.setMsghdr, List.getElem?_modify] at hi
  obtain ⟨m', hm', h'⟩ := Option.map_eq_some_iff.mp hi
  split at h'
  · subst h'
    exact hh
  · subst h'
    exact hb m' (List.mem_of_getElem? hm')

end PacketBuffer

namespace Receiver

/-- Another test has begun and not ended. -/
def othersRunning (testId : Nat) (r : Receiver) : Bool :=
  (r.measurements.eraseIdx testId).any (fun m => m.firstPacketReceived && !m.lastPacketReceived)

/-- The loop goes on after the message, but no packets of it are counted: an
INIT, or a LAST while another test is running. -/
def skips (r : Receiver) (h : Msghdr) : Bool :=
  match h.header with
  | .ok (testId, .init) => testId < maxTestId
  | .ok (testId, .last) => testId < maxTestId && r.othersRunning testId
  | _ => false

/-- The messages that a receive call brings into msghdrs. -/
def deliveries (r : Receiver) (socket : Socket) : List Delivery :=
  match r.exchangeFunction with
  | .normal => []
  | .msg => socket.message.toOption.toList
  | .mmsg => socket.batch.toOption.getD []

/-- The msghdrs that it fills. -/
def filled (r : Receiver) (socket : Socket) : List Msghdr :=
  List.zipWith (fun m d => m.msgHdr.deliver d) r.packetBuffer.mmsghdrVec (r.deliveries socket)

/-- The next `recv_messages` hands over msghdrs with room for control messages. -/
def Primed (r : Receiver) : Prop := r.nextPacketId = 0 ∨ r.packetBuffer.Ready

/-- A message that is skipped leaves them as they were, or they are reset
because nothing was counted so far. -/
def Restores (r : Receiver) (socket : Socket) : Prop :=
  r.nextPacketId = 0 ∨ (∀ h ∈ (r.filled socket).head?, r.skips h = false) ∨
    ∀ h ∈ r.filled socket, h.Ready

instance (r : Receiver) (socket : Socket) : Decidable (r.Restores socket) :=
  inferInstanceAs (Decidable (_ ∨ _ ∨ _))

section
variable {build : Build} {clock : Clock} {r r' : Receiver} {mtype : MessageType} {testId : Nat}
  {result : Except Error Unit} {ms : List Measurement}

theorem msghdr_eq {index : Nat} {h : Msghdr} (hh : r.msghdr index = .ok h) :
    ∃ m, r.packetBuffer.mmsghdrVec[index]? = some m ∧ m.msgHdr = h := by
  unfold msghdr PacketBuffer.getMsghdrFromIndex at hh
  split at hh
  · rename_i hget
    cases hh
    split at hget
    · rename_i m hm
      exact ⟨m, hm, Except.ok.inj hget⟩
    · cases hget
  · cases hh

theorem msghdr_ready {index : Nat} {h : Msghdr} (hr : r.packetBuffer.Ready)
    (hh : r.msghdr index = .ok h) : h.Ready := by
  obtain ⟨m, hm, rfl⟩ := msghdr_eq hh
  exact hr m (List.mem_of_getElem? hm)

theorem restoreControllen_ready (hgro : r.parameter.socketOptions.gro = true) (h : Msghdr) :
    (r.restoreControllen h).Ready := by
  unfold restoreControllen
  rw [if_pos hgro]
  exact rfl

theorem Primed.prepared (hgro : r.parameter.socketOptions.gro = true) (hr : r.Primed) :
    r.prepareMsghdrs.packetBuffer.Ready := by
  unfold prepareMsghdrs
  split
  · exact PacketBuffer.resetMsghdrFields_ready _
  · rename_i hnot
    exact hr.resolve_left (fun h => hnot ⟨hgro, h⟩)

theorem prepareMsghdrs_eq (h : r.nextPacketId ≠ 0) : r.prepareMsghdrs = r := by
  unfold prepareMsghdrs
  rw [if_neg (fun h' => h h'.2)]

/-- After the last message of the only test that is running all are finished. -/
theorem allMeasurementsFinished_last
    (hparse : parseMessageType clock .last testId r.measurements r.parameter =
      .ok (.error .lastMessageReceived, ms))
    (hothers : r.othersRunning testId = false) (hms : r'.measurements = ms) :
    r'.allMeasurementsFinished = true := by
  rcases parseMessageType_hear hparse with ⟨_, hrefused, _⟩ | ⟨_, _, rfl⟩
  · cases hrefused
  simp only [allMeasurementsFinished, hms, List.all_eq_true]
  intro m hm
  obtain ⟨i, hi⟩ := List.mem_iff_getElem?.mp hm
  simp only [List.getElem?_modify] at hi
  obtain ⟨m', hm', h⟩ := Option.map_eq_some_iff.mp hi
  split at h
  · subst h
    simp [(Measurement.hear_last clock .last m').mpr (.inr rfl)]
  · rename_i hne
    subst h
    rcases growMeasurements_entry hm' with hold | ⟨_, rfl⟩
    · have hmem : m' ∈ r.measurements.eraseIdx testId :=
        List.mem_eraseIdx_iff_getElem?.mpr ⟨i, Ne.symm hne, hold⟩
      have hnot := List.any_eq_false.mp hothers m' hmem
      simp only [Bool.and_eq_true, Bool.not_eq_true', not_and, Bool.not_eq_false] at hnot
      cases hfirst : m'.firstPacketReceived with
      | false => simp
      | true => simp [hnot hfirst]
    · rfl

/-- The loop receives again after this result. -/
def Continues (r : Receiver) : Except Error Unit → Prop
  | .ok () => True
  | .error e => e = .eagain ∨ e = .initMessageReceived ∨
      e = .lastMessageReceived ∧ r.allMeasurementsFinished = false

theorem skips_of_parsed {h : Msghdr} {e : Error} (hheader : h.header = .ok (testId, mtype))
    (hparse : parseMessageType clock mtype testId r.measurements r.parameter = .ok (.error e, ms))
    (hms : r'.measurements = ms) (hgoes : r'.Continues (.error e)) : r.skips h = true := by
  simp only [skips, hheader]
  rcases parseMessageType_hear hparse with ⟨_, hrefused, _⟩ | ⟨hlt, hsignal, _⟩
  · cases hrefused
    simp [Continues] at hgoes
  · cases mtype with
    | init => simp [hlt]
    | measurement => cases hsignal
    | last =>
      cases hsignal
      cases hothers : r.othersRunning testId with
      | true => simp [hlt, hothers]
      | false =>
        have hfinished := allMeasurementsFinished_last hparse hothers hms
        simp [Continues, hfinished] at hgoes

theorem Restores.prepared {socket : Socket} (h : r.Restores socket) :
    r.prepareMsghdrs.Restores socket := by
  by_cases hzero : r.nextPacketId = 0
  · left
    unfold prepareMsghdrs
    split <;> exact hzero
  · rw [prepareMsghdrs_eq hzero]
    exact h

/-- `recv` does not touch the field. -/
theorem recv_primed {socket : Except Error Delivery} (hr : r.packetBuffer.Ready)
    (h : r.recv build clock socket = .ok (result, r')) :
    r'.parameter = r.parameter ∧ r'.packetBuffer.Ready := by
  cases recv_cases h with
  | failed e => exact ⟨rfl, hr⟩
  | @handled h0 d _ _ first goes =>
    have hsame : (recvFill h0 d).Ready ↔ h0.Ready := .rfl
    have hready := hr.setMsghdr (hsame.mpr (msghdr_ready hr first)) 0
    refine ⟨goes.parameter, ?_⟩
    rcases goes.packetBuffer with hbuffers | ⟨_, _, hbuffers, _⟩
    · exact hbuffers ▸ hready
    · exact hbuffers ▸ hready

theorem filled_message {socket : Socket} {h0 : Msghdr} {d : Delivery}
    (hexchange : r.exchangeFunction = .msg) (hsocket : socket.message = .ok d)
    (hh0 : r.msghdr 0 = .ok h0) : r.filled socket = [h0.deliver d] := by
  obtain ⟨m, hm, rfl⟩ := msghdr_eq hh0
  cases hvec : r.packetBuffer.mmsghdrVec with
  | nil => simp [hvec] at hm
  | cons m' ms' =>
    simp only [hvec, List.getElem?_cons_zero, Option.some.injEq] at hm
    simp [filled, deliveries, hexchange, hsocket, hvec, hm, Except.toOption]

/-- A skipped message leaves its msghdr behind, a counted one gets it reset. -/
theorem recvmsg_primed {socket : Socket} (hgro : r.parameter.socketOptions.gro = true)
    (hr : r.packetBuffer.Ready) (hexchange : r.exchangeFunction = .msg)
    (hguard : r.Restores socket) (h : r.recvmsg build clock socket.message = .ok (result, r')) :
    r'.parameter = r.parameter ∧ (r'.Continues result → r'.Primed) := by
  have hcases := recvmsg_cases h
  generalize hsocket : socket.message = message at hcases
  cases hcases with
  | failed e => exact ⟨rfl, fun _ => .inr hr⟩
  | @handled h0 d _ _ first goes =>
    refine ⟨goes.parameter, fun hgoes => ?_⟩
    have hfilled := filled_message hexchange hsocket first
    cases goes with
    | stopped header parsed =>
      have hskips := skips_of_parsed header parsed rfl hgoes
      rcases hguard with hzero | hnot | hready
      · exact .inl hzero
      · rw [hfilled] at hnot
        cases hskips.symm.trans (hnot _ rfl)
      · rw [hfilled] at hready
        exact .inr (hr.setMsghdr (hready _ (List.mem_singleton_self _)) 0)
    | counted _ _ _ packets =>
      obtain ⟨rfl, _⟩ := packets
      right
      simp only [setStatistic, PacketBuffer.setMsghdr_setMsghdr]
      exact hr.setMsghdr (restoreControllen_ready hgro _) 0

theorem deliverAll_mem {ms : List Mmsghdr} {ds : List Delivery} {m : Mmsghdr}
    (hm : m ∈ deliverAll ms ds) :
    m.msgHdr ∈ List.zipWith (fun m d => m.msgHdr.deliver d) ms ds ∨ m ∈ ms := by
  induction ms generalizing ds with
  | nil => cases hm
  | cons x xs ih =>
    cases ds with
    | nil => exact .inr hm
    | cons d ds =>
      rcases List.mem_cons.mp hm with rfl | hrest
      · exact .inl (List.mem_cons_self ..)
      · exact (ih hrest).imp (List.mem_cons_of_mem _) (List.mem_cons_of_mem _)

theorem deliverAll_drop {ms : List Mmsghdr} {ds : List Delivery} {m : Mmsghdr}
    (hm : m ∈ (deliverAll ms ds).drop (min ds.length ms.length)) : m ∈ ms := by
  induction ms generalizing ds with
  | nil => simp [deliverAll] at hm
  | cons x xs ih =>
    cases ds with
    | nil => simpa [deliverAll] using hm
    | cons d ds =>
      rw [List.length_cons, List.length_cons, Nat.add_min_add_right, deliverAll,
        List.drop_succ_cons] at hm
      exact List.mem_cons_of_mem x (ih hm)

theorem processMmsghdrs_ready {xs ys : List Mmsghdr} {acc acc' : Nat × Nat × Statistic}
    (h : processMmsghdrs build r xs acc = .ok (ys, acc'))
    (hgro : r.parameter.socketOptions.gro = true) : ∀ y ∈ ys, y.msgHdr.Ready := by
  induction xs generalizing ys acc acc' with
  | nil =>
    cases h
    simp
  | cons x xs ih =>
    simp only [processMmsghdrs, bind_ok] at h
    obtain ⟨_, _, ⟨rest, acc''⟩, hrest, h⟩ := h
    cases h
    exact List.forall_mem_cons.mpr ⟨restoreControllen_ready hgro _, ih hrest⟩

theorem filled_batch {socket : Socket} {ds : List Delivery}
    (hexchange : r.exchangeFunction = .mmsg) (hsocket : socket.batch = .ok ds) :
    r.filled socket =
      List.zipWith (fun m d => m.msgHdr.deliver d) r.packetBuffer.mmsghdrVec ds := by
  simp [filled, deliveries, hexchange, hsocket, Except.toOption]

/-- The first message of a batch is in the first msghdr. -/
theorem filled_head {ds : List Delivery} {h0 : Msghdr} {ms : List Mmsghdr}
    (hsome : min ds.length ms.length ≠ 0)
    (hh0 : msghdr { r with packetBuffer :=
      { r.packetBuffer with mmsghdrVec := deliverAll ms ds } } 0 = .ok h0) :
    h0 ∈ (List.zipWith (fun m d => m.msgHdr.deliver d) ms ds).head? := by
  obtain ⟨m, hm, rfl⟩ := msghdr_eq hh0
  cases ms with
  | nil => simp at hsome
  | cons x xs =>
    cases ds with
    | nil => simp at hsome
    | cons d ds =>
      simp only [deliverAll, List.getElem?_cons_zero, Option.some.injEq] at hm
      subst hm
      rfl

/-- The first message decides for the whole batch. -/
theorem recvmmsg_primed {socket : Socket} (hgro : r.parameter.socketOptions.gro = true)
    (hr : r.packetBuffer.Ready) (hexchange : r.exchangeFunction = .mmsg)
    (hguard : r.Restores socket) (h : r.recvmmsg build clock socket.batch = .ok (result, r')) :
    r'.parameter = r.parameter ∧ (r'.Continues result → r'.Primed) := by
  have hcases := recvmmsg_cases h
  generalize hsocket : socket.batch = batch at hcases
  cases hcases with
  | failed e => exact ⟨rfl, fun _ => .inr hr⟩
  | @nothing ds none =>
    refine ⟨rfl, fun _ => .inr fun m hm => hr m ?_⟩
    have hdrop : m ∈ (deliverAll r.packetBuffer.mmsghdrVec ds).drop
        (min ds.length r.packetBuffer.mmsghdrVec.length) := by
      rw [none]
      exact hm
    exact deliverAll_drop hdrop
  | @handled ds h0 _ _ some first goes =>
    refine ⟨goes.parameter, fun hgoes => ?_⟩
    have hfilled := filled_batch hexchange hsocket
    cases goes with
    | stopped header parsed =>
      have hskips := skips_of_parsed (r := r) header parsed rfl hgoes
      rcases hguard with hzero | hnot | hready
      · exact .inl hzero
      · rw [hfilled] at hnot
        cases hskips.symm.trans (hnot _ (filled_head some first))
      · right
        intro m hm
        rcases deliverAll_mem hm with hnew | hold
        · exact hready _ (hfilled ▸ hnew)
        · exact hr m hold
    | counted _ _ _ packets =>
      obtain ⟨t, processed, next, datagrams, hparameter, hp, rfl⟩ := packets
      right
      intro m hm
      rcases List.mem_append.mp hm with hfront | hback
      · exact processMmsghdrs_ready hp (hparameter ▸ hgro) m hfront
      · exact hr m (deliverAll_drop hback)

theorem recvMessages_primed {socket : Socket} (hgro : r.parameter.socketOptions.gro = true)
    (hr : r.Primed) (hguard : r.Restores socket)
    (h : r.recvMessages build clock socket = .ok (result, r')) :
    r'.parameter = r.parameter ∧ (r'.Continues result → r'.Primed) := by
  have hsame : r.prepareMsghdrs.parameter = r.parameter ∧
      r.prepareMsghdrs.exchangeFunction = r.exchangeFunction := by
    unfold prepareMsghdrs
    split <;> exact ⟨rfl, rfl⟩
  obtain ⟨hparameter, hexchange⟩ := hsame
  have hready := hr.prepared hgro
  have hgro' : r.prepareMsghdrs.parameter.socketOptions.gro = true := hparameter ▸ hgro
  rw [← hparameter]
  unfold recvMessages at h
  split at h
  · obtain ⟨hp, hready'⟩ := recv_primed hready h
    exact ⟨hp, fun _ => .inr hready'⟩
  · rename_i hmode
    exact recvmsg_primed hgro' hready (hexchange.trans hmode) hguard.prepared h
  · rename_i hmode
    exact recvmmsg_primed hgro' hready (hexchange.trans hmode) hguard.prepared h

end
end Receiver

end Nperf
