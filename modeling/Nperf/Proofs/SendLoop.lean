import Nperf.Model.SenderLoop
import Nperf.Proofs.Loop
import Nperf.Proofs.Slots

namespace Nperf
open Rust Runs

/-- What a statistic knows about packet ids that are used up. -/
def Statistic.accounted (s : Statistic) : Int := s.amountDatagrams + s.amountOmittedDatagrams

namespace SendRing

/-- The requests whose result the program has not consumed. -/
def awaiting (r : SendRing) : List SendRequest :=
  r.sq ++ r.live ++ (r.cq.filter (fun c => !c.notif)).map SendCqe.request

/-- The requests whose last completion the program has not consumed. -/
def held (r : SendRing) : List SendRequest :=
  r.sq ++ r.live ++ (r.notifying ++ (r.cq.filter (fun c => !c.cqe.more)).map SendCqe.request)

theorem take_taken (r : SendRing) (n : Nat) :
    ((r.take n).sq ++ (r.take n).live).Perm (r.sq ++ r.live) := by
  have hsplit : r.sq ++ r.live = r.sq.take n ++ (r.sq.drop n ++ r.live) := by
    rw [← List.append_assoc, List.take_append_drop]
  rw [hsplit, take, ← List.append_assoc]
  exact List.perm_append_comm

theorem take_awaiting (r : SendRing) (n : Nat) : (r.take n).awaiting.Perm r.awaiting :=
  (r.take_taken n).append_right _

theorem take_held (r : SendRing) (n : Nat) : (r.take n).held.Perm r.held :=
  (r.take_taken n).append_right _

theorem push_awaiting (r : SendRing) (requests : List SendRequest) :
    (r.push requests).awaiting.Perm (r.awaiting ++ requests) := by
  simp only [awaiting, push, List.append_assoc]
  apply List.Perm.append_left
  exact List.perm_append_comm.trans (.of_eq (List.append_assoc ..))

theorem push_held (r : SendRing) (requests : List SendRequest) :
    (r.push requests).held.Perm (r.held ++ requests) := by
  simp only [held, push, List.append_assoc]
  apply List.Perm.append_left
  apply List.perm_append_comm.trans (.of_eq ?_)
  simp only [List.append_assoc]

theorem erase_append {l : List SendRequest} {q : SendRequest} (hq : q ∈ l)
    (rest : List SendRequest) : (l.erase q ++ (rest ++ [q])).Perm (l ++ rest) := by
  rw [← List.append_assoc]
  apply List.perm_append_comm.trans
  exact ((List.perm_cons_erase hq).symm.append_right rest)

theorem post_notif {r : SendRing} {c : SendCqe} (hn : c.notif = true) :
    r.post c = { r with notifying := r.notifying.erase c.request, cq := r.cq ++ [c] } := by
  simp only [post, hn, ↓reduceIte]

theorem post_data {r : SendRing} {c : SendCqe} (hn : c.notif = false) :
    r.post c = { r with
      live := r.live.erase c.request
      notifying := if c.cqe.more then r.notifying ++ [c.request] else r.notifying
      cq := r.cq ++ [c] } := by
  simp only [post, hn, Bool.false_eq_true, ↓reduceIte]

@[simp] theorem post_cq (r : SendRing) (c : SendCqe) : (r.post c).cq = r.cq ++ [c] := by
  unfold post
  split <;> rfl

/-- A result is awaited until the program has it; a notification changes
nothing about that. -/
theorem post_awaiting {r : SendRing} {c : SendCqe} {zerocopy : Bool} (h : r.Posts zerocopy c) :
    (r.post c).awaiting.Perm r.awaiting := by
  unfold Posts at h
  cases hnotif : c.notif with
  | true => simp [awaiting, post_notif hnotif, hnotif]
  | false =>
    rw [hnotif] at h
    simp only [awaiting, post_data hnotif, hnotif, List.filter_append, List.filter_cons,
      Bool.not_false, ↓reduceIte, List.filter_nil, List.map_append, List.map_cons, List.map_nil,
      List.append_assoc]
    exact (erase_append h.1 _).append_left _

/-- A buffer is held until its last completion, whichever that is. -/
theorem post_held {r : SendRing} {c : SendCqe} {zerocopy : Bool} (h : r.Posts zerocopy c) :
    (r.post c).held.Perm r.held := by
  unfold Posts at h
  cases hnotif : c.notif with
  | true =>
    simp only [hnotif, ↓reduceIte] at h
    obtain ⟨hmem, hmore, _⟩ := h
    simp only [held, post_notif hnotif, hmore, List.filter_append, List.filter_cons,
      Bool.not_false, ↓reduceIte, List.filter_nil, List.map_append, List.map_cons, List.map_nil]
    exact (erase_append hmem _).append_left _
  | false =>
    rw [hnotif] at h
    have hmem : c.request ∈ r.live := h.1
    cases hmore : c.cqe.more with
    | true =>
      simp only [held, post_data hnotif, hmore, ↓reduceIte, List.filter_append, List.filter_cons,
        Bool.not_true, Bool.false_eq_true, List.filter_nil, List.append_nil, List.append_assoc]
      apply List.Perm.append_left
      have hback := (erase_append hmem r.notifying).append_right
        ((r.cq.filter (fun c => !c.cqe.more)).map SendCqe.request)
      simpa only [List.append_assoc] using hback
    | false =>
      simp only [held, post_data hnotif, hmore, Bool.false_eq_true, ↓reduceIte,
        List.filter_append, List.filter_cons, Bool.not_false, List.filter_nil, List.map_append,
        List.map_cons, List.map_nil, List.append_assoc]
      have hback := erase_append hmem
        (r.notifying ++ (r.cq.filter (fun c => !c.cqe.more)).map SendCqe.request)
      simpa only [List.append_assoc] using hback.append_left r.sq

end SendRing

namespace IoUringSend

/-- The requests that were pushed name the buffers in turn. -/
theorem pushBuffers_ok {b : PacketBuffer} {nextPacketId requests room i : Nat}
    {result : Except Error Unit} {pushed : List SendRequest}
    (h : pushBuffers b nextPacketId requests room i = .ok (result, pushed)) :
    pushed.length ≤ requests ∧ pushed.map SendRequest.buffer = List.range' i pushed.length ∧
      (∀ q ∈ pushed, b.getMsghdrFromIndex q.buffer = .ok q.pushed) ∧
      pushed.map SendRequest.pushed =
        ((b.mmsghdrVec.drop i).take pushed.length).map Mmsghdr.msgHdr := by
  induction requests generalizing room i result pushed with
  | zero =>
    cases h
    simp
  | succ requests ih =>
    simp only [pushBuffers, bind_ok] at h
    obtain ⟨packetId, _, h⟩ := h
    split at h
    · cases h
      simp
    · cases h
      simp
    · rename_i room h0 hget
      simp only [bind_ok] at h
      obtain ⟨⟨result', rest⟩, hrest, h⟩ := h
      cases h
      obtain ⟨hlen, hbuffers, hkept, hpushed⟩ := ih hrest
      refine ⟨Nat.succ_le_succ hlen, ?_, List.forall_mem_cons.mpr ⟨hget, hkept⟩, ?_⟩
      · simp only [List.map_cons, hbuffers, List.length_cons, List.range'_succ]
      · simp only [PacketBuffer.getMsghdrFromIndex] at hget
        split at hget
        · rename_i m hm
          cases hget
          obtain ⟨hlt, hm⟩ := List.getElem?_eq_some_iff.mp hm
          rw [List.drop_eq_getElem_cons hlt, hm]
          simp only [List.map_cons, hpushed, List.length_cons, List.take_succ_cons]
        · cases hget

theorem submit_ok {amountRequests room nextPacketId : Nat} {b b' : PacketBuffer}
    {result : Except Error Unit} {pushed : List SendRequest}
    (h : submit amountRequests room nextPacketId b = .ok (result, pushed, b')) :
    (∃ used, b.addPacketIds nextPacketId (some amountRequests) = .ok (used, b')) ∧
      pushed.length ≤ amountRequests ∧
      pushed.map SendRequest.buffer = List.range pushed.length ∧
      (∀ q ∈ pushed, b'.getMsghdrFromIndex q.buffer = .ok q.pushed) ∧
      pushed.map SendRequest.pushed = (b'.mmsghdrVec.take pushed.length).map Mmsghdr.msgHdr := by
  simp only [submit, bind_ok] at h
  obtain ⟨⟨used, b''⟩, hstamp, ⟨_, _⟩, hpush, h⟩ := h
  cases h
  obtain ⟨hlen, hbuffers, hkept, hpushed⟩ := pushBuffers_ok hpush
  exact ⟨⟨used, hstamp⟩, hlen, by rw [hbuffers, List.range_eq_range'], hkept,
    by simpa using hpushed⟩

/-- Every index that leaves the pool is with a request, except for that of a
push that fails. -/
theorem submitZc_ok {requests room packetId : Nat} {b b' : PacketBuffer}
    {result : Except Error Unit} {pushed : List SendRequest}
    (h : submitZc requests room packetId b = .ok (result, pushed, b')) :
    b'.mmsghdrVec.length = b.mmsghdrVec.length ∧
      b'.packetsAmountPerMsghdr = b.packetsAmountPerMsghdr ∧
      b'.indexPoolCapacity = b.indexPoolCapacity ∧
      (∀ q ∈ pushed, q.userData = q.buffer) ∧
      ∃ lost, b.indexPool.Perm (b'.indexPool ++ pushed.map SendRequest.buffer ++ lost) ∧
        (result = .ok () → (lost = [] ↔ requests ≤ room)) := by
  induction requests generalizing room packetId b result pushed with
  | zero =>
    cases h
    exact ⟨rfl, rfl, rfl, by simp, [], by simp, by simp⟩
  | succ requests ih =>
    simp only [submitZc] at h
    split at h
    · cases h
      exact ⟨rfl, rfl, rfl, by simp, [], by simp, by simp⟩
    rename_i index b0 hindex
    obtain ⟨hb0, hpool⟩ := PacketBuffer.getBufferIndex_ok hindex
    simp only [bind_ok] at h
    obtain ⟨id, _, ⟨stamped, b1⟩, hstamp, h⟩ := h
    have hframe : b1.mmsghdrVec.length = b.mmsghdrVec.length ∧
        b1.packetsAmountPerMsghdr = b.packetsAmountPerMsghdr ∧
        b1.indexPoolCapacity = b.indexPoolCapacity ∧ b1.indexPool = b0.indexPool := by
      rcases addPacketIdsToMsghdr_cases hstamp with ⟨_, rfl⟩ | ⟨m, hdr, _, _, _, rfl⟩
      · rw [hb0]
        exact ⟨rfl, rfl, rfl, rfl⟩
      · rw [hb0]
        exact ⟨by simp [PacketBuffer.setMsghdr], rfl, rfl, rfl⟩
    obtain ⟨hsize, hpackets, hcapacity, hpool'⟩ := hframe
    have hgone : b.indexPool.Perm (b1.indexPool ++ [] ++ [index]) := by
      rw [hpool', List.append_nil, hpool]
    simp only at h
    split at h
    · cases h
      exact ⟨hsize, hpackets, hcapacity, by simp, [index], hgone, by simp⟩
    · cases h
      exact ⟨hsize, hpackets, hcapacity, by simp, [index], hgone, by simp⟩
    · cases h
      exact ⟨hsize, hpackets, hcapacity, by simp, [index], hgone, fun _ => by simp⟩
    · rename_i room hdr _ _
      obtain ⟨⟨result', rest, b2⟩, hrest, h⟩ := bind_ok.mp h
      cases h
      obtain ⟨hsize', hpackets', hcapacity', hdata, lost, hperm, hlost⟩ := ih hrest
      refine ⟨hsize'.trans hsize, hpackets'.trans hpackets, hcapacity'.trans hcapacity,
        List.forall_mem_cons.mpr ⟨rfl, hdata⟩, lost, ?_, fun hok => ?_⟩
      · rw [hpool, ← hpool', List.map_cons]
        apply (hperm.append_right [index]).trans
        simp only [List.append_assoc, List.cons_append]
        apply List.Perm.append_left
        rw [← List.append_assoc]
        exact List.perm_append_comm
      · rw [hlost hok]
        omega

/-- The ids in the pushed msghdrs are consecutive. -/
theorem submitZc_ids {p : Parameter} {testId requests room packetId : Nat} {b b' : PacketBuffer}
    {result : Except Error Unit} {pushed : List SendRequest} (hf : p.HeadersFit)
    (hd : 0 < p.datagramSize) (hs : b.Slotted p testId) (hid : packetId ≤ 2 ^ 64)
    (h : submitZc requests room packetId b = .ok (result, pushed, b')) :
    b'.Slotted p testId ∧ pushed.flatMap (fun q => q.pushed.slotIds p) =
      List.range' packetId (pushed.length * p.slots) := by
  induction requests generalizing room packetId b result pushed with
  | zero =>
    cases h
    simpa using hs
  | succ requests ih =>
    simp only [submitZc] at h
    split at h
    · cases h
      simpa using hs
    · rename_i index b0 hindex
      have hs0 : b0.Slotted p testId := by
        rw [(PacketBuffer.getBufferIndex_ok hindex).1]
        exact ⟨hs.size, hs.datagramSize, hs.packets, hs.msghdrs⟩
      simp only [bind_ok] at h
      obtain ⟨id, hnum, ⟨stamped, b1⟩, hstamp, h⟩ := h
      obtain ⟨hideq, _⟩ := debug_u64_ok hnum
      obtain rfl : id = packetId := by omega
      cases stamped with
      | error e =>
        rcases addPacketIdsToMsghdr_cases hstamp with ⟨_, rfl⟩ | ⟨_, _, _, _, hused, _⟩
        · cases h
          simpa using hs0
        · cases hused
      | ok used =>
        obtain ⟨rfl, hbound, hs1, hids⟩ := addPacketIdsToMsghdr_ok hf hd hs0 hid hstamp
        simp only at h
        split at h
        · rename_i heq
          cases heq
        · cases h
          simpa using hs1
        · cases h
          simpa using hs1
        · rename_i heq hget
          cases heq
          obtain ⟨⟨result', rest, b2⟩, hrest, h⟩ := bind_ok.mp h
          cases h
          obtain ⟨hs2, hrestIds⟩ := ih hs1 hbound hrest
          refine ⟨hs2, ?_⟩
          rw [List.flatMap_cons, hids _ hget, hrestIds, List.length_cons, Nat.succ_mul,
            Nat.add_comm (_ * _), List.range'_append_1]

end IoUringSend

/-- The results of a sender without errors: data that was sent or refused, and
notifications. -/
def SendCqe.Counts (c : SendCqe) : Prop :=
  if c.notif then c.result = 0 ∨ c.result = ioringNotifUsageZcCopied
  else 0 < c.result ∨ c.result = -11

/-- The completion makes the zero-copy handler return the buffer it names. -/
def SendCqe.returned (c : SendCqe) : Bool :=
  c.result = -11 ∨ (c.result = ioringNotifUsageZcCopied ∨ c.result = 0) ∧ c.released

namespace Sender

/-- A new sender has all its buffers in the pool. -/
theorem new_pool {clock : Clock} {testId : Nat} {p : Parameter} {s : Sender}
    (h : Sender.new clock testId p = .ok s) :
    s.parameter = p ∧ s.packetBuffer.mmsghdrVec.length = p.packetBufferSize ∧
      s.packetBuffer.indexPool = List.range p.packetBufferSize ∧
      s.packetBuffer.indexPoolCapacity = p.packetBufferSize := by
  simp only [Sender.new, createPacketBuffer, bind_ok] at h
  obtain ⟨b, ⟨v, hv, v', hv', hb⟩, h⟩ := h
  cases hb
  cases h
  obtain ⟨_, hsize, rfl⟩ := MsghdrVec.new_ok hv
  simp only [MsghdrVec.withMessageHeader, MsghdrVec.withRandomPayload, List.map_replicate,
    bind_ok] at hv'
  obtain ⟨ws, hws, h⟩ := hv'
  cases h
  obtain ⟨w, _, rfl⟩ := mapM_replicate_inv hsize hws
  simp [PacketBuffer.new]

/-- What a completion makes of the statistic. In zero-copy mode a result of zero
is no data. -/
inductive Settles (zerocopy : Bool) (k : Nat) (c : SendCqe) (st : Statistic) :
    Except Error Unit → Statistic → Prop
  | refused (again : c.result = -11) : Settles zerocopy k c st (.ok ()) (st.countOmitted k)
  | sent (bytes : 0 ≤ c.result) (data : zerocopy = true → c.result ≠ 0) :
      Settles zerocopy k c st (.ok ()) (st.countSent k c.result.toNat)
  | notified (mode : zerocopy = true)
      (notif : c.result = 0 ∨ c.result = ioringNotifUsageZcCopied) :
      Settles zerocopy k c st (.ok ()) st
  | copied (mode : zerocopy = true) (notif : c.result = ioringNotifUsageZcCopied) :
      Settles zerocopy k c st (.ok ()) st.countCopied
  | failed {e : Error} (negative : c.result < 0) (again : c.result ≠ -11)
      (notif : zerocopy = true → c.result ≠ ioringNotifUsageZcCopied) (fatal : e ≠ .eagain) :
      Settles zerocopy k c st (.error e) st

section
variable {zerocopy : Bool} {k n n' : Nat} {c : SendCqe} {st st' : Statistic}
  {pool pool' : List Nat} {result : Except Error Unit}

theorem completeSend_cases (h : completeSend k c (st, n) = (result, st', n')) :
    Settles false k c st result st' := by
  simp only [completeSend] at h
  split at h
  · rename_i hagain
    cases h
    exact .refused hagain
  · rename_i hagain
    split at h
    · cases h
      exact .failed (by omega) hagain (by simp) (by simp)
    · split at h
      · rename_i hnegative
        cases h
        exact .failed hnegative hagain (by simp) (by simp)
      · rename_i hbytes
        cases h
        exact .sent (Int.not_lt.mp hbytes) (by simp)

theorem completeSendZc_cases (h : completeSendZc k c (st, n, pool) = (result, st', n', pool')) :
    Settles true k c st result st' := by
  simp only [completeSendZc] at h
  split at h
  · rename_i hagain
    cases h
    exact .refused hagain
  · rename_i hagain
    split at h
    · rename_i hrefused
      cases h
      exact .failed (by omega) hagain (fun _ => by rw [hrefused]; decide) (by simp)
    · split at h
      · rename_i hcopied
        split at h
        · cases h
          exact .copied rfl hcopied
        · cases h
          exact .notified rfl (.inr hcopied)
      · rename_i hcopied
        split at h
        · rename_i hnegative
          cases h
          exact .failed hnegative hagain (fun _ => hcopied) (by simp)
        · rename_i hbytes
          split at h
          · rename_i hzero
            split at h
            · cases h
              exact .notified rfl (.inl hzero)
            · cases h
              exact .notified rfl (.inl hzero)
          · rename_i hdata
            cases h
            exact .sent (Int.not_lt.mp hbytes) (fun _ => hdata)

theorem Settles.fatal {e : Error} (h : Settles zerocopy k c st (.error e) st') :
    e ≠ .eagain := by
  cases h with
  | failed _ _ _ fatal => exact fatal

/-- Of the two completions of a zero-copy request only the one with the result
counts. -/
theorem Settles.accounted (h : Settles zerocopy k c st result st') (hc : c.Counts)
    (hmode : zerocopy = false → c.notif = false) :
    result = .ok () ∧ st'.accounted = st.accounted + if c.notif then 0 else k := by
  have hcopied : ioringNotifUsageZcCopied = -2147483648 := rfl
  simp only [SendCqe.Counts, hcopied] at hc
  cases hn : c.notif with
  | false =>
    simp only [hn, Bool.false_eq_true, ↓reduceIte] at hc ⊢
    cases h with
    | refused => exact ⟨rfl, by simp only [Statistic.accounted, Statistic.countOmitted]; omega⟩
    | sent => exact ⟨rfl, by simp only [Statistic.accounted, Statistic.countSent]; omega⟩
    | notified _ notif => omega
    | copied _ notif => omega
    | failed negative again => omega
  | true =>
    have hzerocopy : zerocopy = true := by
      cases zerocopy with
      | true => rfl
      | false => cases hn.symm.trans (hmode rfl)
    simp only [hn, ↓reduceIte] at hc ⊢
    cases h with
    | refused => omega
    | sent bytes data =>
      have hdata := data hzerocopy
      omega
    | notified => exact ⟨rfl, by omega⟩
    | copied => exact ⟨rfl, by simp only [Statistic.accounted, Statistic.countCopied]; omega⟩
    | failed negative _ notif =>
      have hnotif := notif hzerocopy
      omega

/-- What the statistic has booked after the completions `done`, if all of them
count. -/
def Booked (zerocopy : Bool) (k : Nat) (start : Statistic) (done : List SendCqe)
    (st : Statistic) : Prop :=
  (∀ c ∈ done, c.Counts ∧ (zerocopy = false → c.notif = false)) →
    st.accounted = start.accounted + k * (done.filter (fun c => !c.notif)).length

theorem Booked.start (zerocopy : Bool) (k : Nat) (st : Statistic) :
    Booked zerocopy k st [] st := by
  intro _
  simp

theorem Booked.round {start : Statistic} {done : List SendCqe}
    (hs : Booked zerocopy k start done st) (h : Settles zerocopy k c st (.ok ()) st') :
    Booked zerocopy k start (done ++ [c]) st' := by
  intro hall
  obtain ⟨hdone, hc⟩ := List.forall_mem_append.mp hall
  obtain ⟨hcounts, hmode⟩ := hc c (List.mem_singleton_self c)
  rw [(h.accounted hcounts hmode).2, hs hdone, List.filter_append, List.length_append,
    Int.natCast_add, Int.mul_add]
  cases hn : c.notif with
  | false =>
    simp [hn]
    omega
  | true => simp [hn]

end

theorem completeSendZc_pool {k n n' : Nat} {c : SendCqe} {st st' : Statistic}
    {pool pool' : List Nat}
    (h : completeSendZc k c (st, n, pool) = (.ok (), st', n', pool')) :
    pool' = pool ++ if c.returned then [c.userData] else [] := by
  simp only [completeSendZc] at h
  simp only [SendCqe.returned]
  repeat' split at h
  all_goals
    cases h
    try simp_all

/-- What sending leaves alone in the buffers and around them. -/
structure Kept (s s' : Sender) : Prop where
  parameter : s'.parameter = s.parameter
  nextPacketId : s'.nextPacketId = s.nextPacketId
  mmsghdrVec : s'.packetBuffer.mmsghdrVec = s.packetBuffer.mmsghdrVec
  datagramSize : s'.packetBuffer.datagramSize = s.packetBuffer.datagramSize
  packets : s'.packetBuffer.packetsAmountPerMsghdr = s.packetBuffer.packetsAmountPerMsghdr

theorem Kept.slotted {s s' : Sender} {p : Parameter} {testId : Nat} (hk : s.Kept s')
    (hs : s.packetBuffer.Slotted p testId) : s'.packetBuffer.Slotted p testId := by
  refine ⟨?_, hk.datagramSize.trans hs.datagramSize, hk.packets.trans hs.packets, ?_⟩
  · rw [hk.mmsghdrVec]
    exact hs.size
  · rw [hk.mmsghdrVec]
    exact hs.msghdrs

/-- The handler counts the whole queue or ends the loop. -/
theorem ioUringCompleteSend_ok {s s' : Sender} {cq rest : List SendCqe}
    {result : Except Error Nat} (h : s.ioUringCompleteSend cq = .ok (result, s', rest)) :
    (∃ statistic, s' = { s with statistic := statistic }) ∧ (∃ front, cq = front ++ rest) ∧
      ((∃ completed, result = .ok completed ∧ rest = []) ∨
        ∃ e, result = .error e ∧ e ≠ .eagain) ∧
      ((∀ c ∈ cq, c.notif = false ∧ c.Counts) →
        (∃ completed, result = .ok completed) ∧ s'.statistic.accounted =
          s.statistic.accounted + s.packetBuffer.packetsAmountPerMsghdr * cq.length) := by
  simp only [ioUringCompleteSend, bind_ok] at h
  obtain ⟨⟨drained, ⟨statistic, completed⟩, rest'⟩, hdrain, h⟩ := h
  cases h
  refine ⟨⟨_, rfl⟩, ?_⟩
  rcases Queue.drain_cases []
    (R := fun done (t : Statistic × Nat) =>
      Booked false s.packetBuffer.packetsAmountPerMsghdr s.statistic done t.1)
    (fun done i c t t' hs hbody => hs.round (completeSend_cases (Except.ok.inj hbody)))
    (Booked.start _ _ _) hdrain with
    ⟨rfl, hrest, hall⟩ | ⟨e, front, c, j, t, rfl, hcq, _, hbody⟩
  · refine ⟨⟨cq, by simp [hrest]⟩, .inl ⟨_, rfl, hrest⟩, fun hc => ⟨⟨_, rfl⟩, ?_⟩⟩
    have hbooked := hall fun c hmem => ⟨(hc c hmem).2, fun _ => (hc c hmem).1⟩
    have hdata : cq.filter (fun c => !c.notif) = cq :=
      List.filter_eq_self.mpr fun c hmem => by simp [(hc c hmem).1]
    rwa [List.nil_append, hdata] at hbooked
  · have hcases := completeSend_cases (Except.ok.inj hbody)
    refine ⟨⟨front ++ [c], by simp [hcq]⟩, .inr ⟨e, rfl, hcases.fatal⟩, fun hc => ?_⟩
    obtain ⟨hnotif, hcounts⟩ := hc c (by simp [hcq])
    cases (hcases.accounted hcounts fun _ => hnotif).1

theorem ioUringCompleteSendZc_ok {s s' : Sender} {cq rest : List SendCqe}
    {result : Except Error Nat} (h : s.ioUringCompleteSendZc cq = .ok (result, s', rest)) :
    (∃ front, cq = front ++ rest) ∧
      ((∃ completed statistic, result = .ok completed ∧ rest = [] ∧
          s' = { s with
            statistic := statistic
            packetBuffer := s.packetBuffer.returnBufferIndex
              ((cq.filter SendCqe.returned).map SendCqe.userData) }) ∨
        ∃ e statistic, result = .error e ∧ e ≠ .eagain ∧ s' = { s with statistic := statistic }) ∧
      ((∀ c ∈ cq, c.Counts) →
        (∃ completed, result = .ok completed) ∧ s'.statistic.accounted =
          s.statistic.accounted + s.packetBuffer.packetsAmountPerMsghdr *
            (cq.filter (fun c => !c.notif)).length) := by
  simp only [ioUringCompleteSendZc, bind_ok] at h
  obtain ⟨⟨drained, ⟨statistic, completed, indexPool⟩, rest'⟩, hdrain, h⟩ := h
  rcases Queue.drain_cases []
    (R := fun done (t : Statistic × Nat × List Nat) =>
      t.2.2 = (done.filter SendCqe.returned).map SendCqe.userData ∧
        Booked true s.packetBuffer.packetsAmountPerMsghdr s.statistic done t.1)
    (fun done i c t t' hs hbody => by
      have hbody := Except.ok.inj hbody
      refine ⟨?_, hs.2.round (completeSendZc_cases hbody)⟩
      rw [completeSendZc_pool hbody, hs.1, List.filter_append, List.map_append]
      cases hc : c.returned <;> simp [hc])
    ⟨rfl, Booked.start _ _ _⟩ hdrain with
    ⟨rfl, hrest, hpool, hall⟩ | ⟨e, front, c, j, t, rfl, hcq, _, hbody⟩
  · cases h
    rw [List.nil_append] at hpool hall
    simp only at hpool
    exact ⟨⟨cq, by simp [hrest]⟩, .inl ⟨_, statistic, rfl, hrest, by rw [hpool]⟩,
      fun hc => ⟨⟨_, rfl⟩, hall fun c hmem => ⟨hc c hmem, by simp⟩⟩⟩
  · cases h
    have hcases := completeSendZc_cases (Except.ok.inj hbody)
    refine ⟨⟨front ++ [c], by simp [hcq]⟩, .inr ⟨e, statistic, rfl, hcases.fatal, rfl⟩,
      fun hc => ?_⟩
    cases (hcases.accounted (hc c (by simp [hcq])) (by simp)).1

end Sender

namespace SenderLoop
variable {s s' : SenderLoop}

/-- The loop has not returned. -/
def Going (s : SenderLoop) : Prop := ∀ result, s.phase ≠ .returned result

theorem Going.of_phase {phase : Phase} (h : s.phase = phase)
    (hne : ∀ result, phase ≠ .returned result) : s.Going := by
  subst h
  exact hne

/-- The packet ids that the statistics of the run account for, also those that
were replaced. -/
def accounted (s : SenderLoop) : Int :=
  ((s.closed ++ [s.sender.statistic]).map Statistic.accounted).sum

/-- What the counters and the interval check have no part in. -/
structure Kept (s t : SenderLoop) : Prop where
  parameter : t.sender.parameter = s.sender.parameter
  packetBuffer : t.sender.packetBuffer = s.sender.packetBuffer
  nextPacketId : t.sender.nextPacketId = s.sender.nextPacketId
  ring : t.ring = s.ring
  amountInflight : t.amountInflight = s.amountInflight
  pushed : t.pushed = s.pushed
  accounted : t.accounted = s.accounted

theorem Kept.uring {t : SenderLoop} (h : s.Kept t) : t.uring = s.uring := by
  simp only [SenderLoop.uring, h.parameter]

theorem Kept.trans {t u : SenderLoop} (h : s.Kept t) (h' : t.Kept u) : s.Kept u :=
  ⟨h'.parameter.trans h.parameter, h'.packetBuffer.trans h.packetBuffer,
    h'.nextPacketId.trans h.nextPacketId, h'.ring.trans h.ring,
    h'.amountInflight.trans h.amountInflight, h'.pushed.trans h.pushed,
    h'.accounted.trans h.accounted⟩

theorem rephase_kept (s : SenderLoop) (phase : Phase) : s.Kept { s with phase := phase } :=
  ⟨rfl, rfl, rfl, rfl, rfl, rfl, rfl⟩

theorem lift_ok {x : Except Fault SenderLoop} : lift x = .ok s ↔ x = .ok s := by
  cases x <;> simp [lift]

theorem closeInterval_kept (clock : Clock) (s : SenderLoop) : s.Kept (s.closeInterval clock) := by
  unfold closeInterval Sender.closeInterval
  split
  · refine ⟨rfl, rfl, rfl, rfl, rfl, rfl, ?_⟩
    simp [accounted, Statistic.accounted, Statistic.new]
  · exact ⟨rfl, rfl, rfl, rfl, rfl, rfl, rfl⟩

theorem submit_ok {room : Nat} (h : s.submit room = .ok s') :
    ∃ toSubmit minComplete,
      calcSqFillMode (asU32 s.sender.packetBuffer.getPoolInflight) s.uring s.ring.ring =
        .ok (toSubmit, minComplete) ∧
      (toSubmit = 0 ∧ s' = { s with phase := .complete } ∨ ∃ result requests b,
        s.submitRequests toSubmit room = .ok (result, requests, b) ∧
        s'.sender = { s.sender with packetBuffer := b } ∧ s'.ring = s.ring.push requests ∧
        s'.amountInflight = s.amountInflight ∧ s'.pushed = s.pushed ++ requests ∧
        s'.closed = s.closed ∧
        (result = .ok () ∧ s'.phase = .enter requests.length ∨
          ∃ e, s'.phase = .returned (.error e))) := by
  simp only [submit, bind_ok] at h
  obtain ⟨⟨toSubmit, minComplete⟩, hcalc, h⟩ := h
  refine ⟨toSubmit, minComplete, hcalc, ?_⟩
  simp only at h
  split at h
  · rename_i hnothing
    cases h
    exact .inl ⟨hnothing.1, rfl⟩
  · obtain ⟨⟨result, requests, b⟩, hsubmit, h⟩ := bind_ok.mp h
    refine .inr ⟨result, requests, b, hsubmit, ?_⟩
    simp only at h
    split at h
    · cases h
      exact ⟨rfl, rfl, rfl, rfl, rfl, .inr ⟨_, rfl⟩⟩
    · obtain ⟨_, _, h⟩ := bind_ok.mp h
      cases h
      exact ⟨rfl, rfl, rfl, rfl, rfl, .inl ⟨rfl, rfl⟩⟩

/-- The loop returns, or records its requests and goes on with the submission. -/
theorem fill_branches {time clock : Clock} {room : Nat} (h : s.fill time clock room = .ok s') :
    (s.uring.uringMode ≠ .normal ∧ s.uring.uringMode ≠ .zerocopy) ∧
        s' = { s with phase := .returned (.error .invalidSenderMode) } ∨
      (s.uring.uringMode = .normal ∨ s.uring.uringMode = .zerocopy) ∧
        (s.sender.running s.startTime time = false ∧ s' = { s with phase := .returned (.ok ()) } ∨
          s.sender.running s.startTime time = true ∧ ∃ statistic,
            s.sender.statistic.recordInflight s.amountInflight = .ok statistic ∧
            (closeInterval clock { s with
              sender := { s.sender with statistic := statistic.countIoModelCall } }).submit room =
              .ok s') := by
  unfold fill at h
  split at h
  case h_3 hnormal hzerocopy =>
    cases h
    exact .inl ⟨⟨hnormal, hzerocopy⟩, rfl⟩
  all_goals
    rename_i hmode
    refine .inr ⟨by simp [hmode], ?_⟩
    split at h
    · rename_i hrunning
      obtain ⟨statistic, hrecord, h⟩ := bind_ok.mp h
      exact .inr ⟨hrunning, statistic, hrecord, h⟩
    · rename_i hstopped
      cases h
      exact .inl ⟨eq_false_of_ne_true hstopped, rfl⟩

theorem fill_ok {time clock : Clock} {room : Nat} (h : s.fill time clock room = .ok s') :
    (∃ result, s' = { s with phase := .returned result }) ∨
      s.sender.running s.startTime time = true ∧ ∃ t, s.Kept t ∧ t.submit room = .ok s' := by
  rcases fill_branches h with ⟨_, rfl⟩ | ⟨_, ⟨_, rfl⟩ | ⟨hrunning, statistic, hrecord, h⟩⟩
  · exact .inl ⟨_, rfl⟩
  · exact .inl ⟨_, rfl⟩
  · refine .inr ⟨hrunning, _, ?_, h⟩
    have hk := closeInterval_kept clock
      { s with sender := { s.sender with statistic := statistic.countIoModelCall } }
    refine ⟨hk.parameter, hk.packetBuffer, hk.nextPacketId, hk.ring, hk.amountInflight,
      hk.pushed, hk.accounted.trans ?_⟩
    simp only [Statistic.recordInflight, bind_ok] at hrecord
    obtain ⟨array, _, hrecord⟩ := hrecord
    cases hrecord
    simp [accounted, Statistic.accounted, Statistic.countIoModelCall]

theorem enter_ok {result : EnterResult} {n : Nat} (h : s.enter result n = .ok s') :
    s'.ring = s.ring ∧ s'.pushed = s.pushed ∧ s'.closed = s.closed ∧
      (s'.phase = .returned (.error .uringEnter) ∧ s'.sender = s.sender ∨
        s'.phase = .complete ∧ ∃ nextPacketId,
          s'.sender = { s.sender with nextPacketId := nextPacketId } ∧
          nextPacketId = s.sender.nextPacketId +
            n * s.sender.packetBuffer.packetsAmountPerMsghdr ∧ nextPacketId ≤ 2 ^ 64) := by
  have hresult : ∀ e, ioUringEnter result = .error e → e = .uringEnter := by
    cases result <;> rintro e ⟨⟩
    rfl
  unfold enter at h
  split at h
  · rename_i e he
    cases h
    exact ⟨rfl, rfl, rfl, .inl ⟨by rw [hresult e he], rfl⟩⟩
  · simp only [bind_ok] at h
    obtain ⟨_, _, nextPacketId, hnum, h⟩ := h
    cases h
    obtain ⟨heq, hlt⟩ := debug_u64_ok hnum
    refine ⟨rfl, rfl, rfl, .inr ⟨rfl, nextPacketId, rfl, ?_, Nat.le_of_lt hlt⟩⟩
    exact_mod_cast heq.symm

/-- What the handlers do, apart from counting. -/
theorem complete_ok (h : s.complete = .ok s') :
    s.sender.Kept s'.sender ∧ s'.pushed = s.pushed ∧ s'.closed = s.closed ∧
      ∃ front rest, s.ring.cq = front ++ rest ∧ s'.ring = { s.ring with cq := rest } ∧
        (s'.phase = .fill ∧ rest = [] ∨ ∃ e, s'.phase = .returned (.error e)) := by
  simp only [complete, bind_ok] at h
  obtain ⟨⟨result, sender, rest⟩, hdrain, h⟩ := h
  have hhandler : s.sender.Kept sender ∧ (∃ front, s.ring.cq = front ++ rest) ∧
      ((∃ completed, result = .ok completed ∧ rest = []) ∨
        ∃ e, result = .error e ∧ e ≠ .eagain) := by
    unfold handleCompletions at hdrain
    split at hdrain
    · obtain ⟨hfront, hcases, _⟩ := Sender.ioUringCompleteSendZc_ok hdrain
      rcases hcases with ⟨completed, _, hok, hrest, rfl⟩ | ⟨e, _, herror, hagain, rfl⟩
      · exact ⟨⟨rfl, rfl, rfl, rfl, rfl⟩, hfront, .inl ⟨completed, hok, hrest⟩⟩
      · exact ⟨⟨rfl, rfl, rfl, rfl, rfl⟩, hfront, .inr ⟨e, herror, hagain⟩⟩
    · obtain ⟨⟨_, rfl⟩, hfront, hcases, _⟩ := Sender.ioUringCompleteSend_ok hdrain
      exact ⟨⟨rfl, rfl, rfl, rfl, rfl⟩, hfront, hcases⟩
  obtain ⟨hk, ⟨front, hfront⟩, hcases⟩ := hhandler
  rcases hcases with ⟨completed, rfl, hrest⟩ | ⟨e, rfl, hagain⟩
  · obtain ⟨_, _, h⟩ := bind_ok.mp h
    cases h
    exact ⟨hk, rfl, rfl, front, rest, hfront, rfl, .inl ⟨rfl, hrest⟩⟩
  · cases e with
    | eagain => exact absurd rfl hagain
    | _ =>
      cases h
      exact ⟨hk, rfl, rfl, front, rest, hfront, rfl, .inr ⟨_, rfl⟩⟩

/-- Without errors every result is counted. -/
theorem complete_counts (h : s.complete = .ok s') (hcounts : ∀ c ∈ s.ring.cq, c.Counts)
    (hplain : s.zerocopy = false → ∀ c ∈ s.ring.cq, c.notif = false) :
    s'.phase = .fill ∧ s'.accounted = s.accounted +
      s.sender.packetBuffer.packetsAmountPerMsghdr *
        (s.ring.cq.filter (fun c => !c.notif)).length := by
  simp only [complete, bind_ok] at h
  obtain ⟨⟨result, sender, rest⟩, hdrain, h⟩ := h
  have hhandler : (∃ completed, result = .ok completed) ∧ sender.statistic.accounted =
      s.sender.statistic.accounted + s.sender.packetBuffer.packetsAmountPerMsghdr *
        (s.ring.cq.filter (fun c => !c.notif)).length := by
    unfold handleCompletions at hdrain
    split at hdrain
    · exact (Sender.ioUringCompleteSendZc_ok hdrain).2.2 hcounts
    · rename_i hmode
      have hnone := hplain (Bool.eq_false_iff.mpr hmode)
      have hall : s.ring.cq.filter (fun c => !c.notif) = s.ring.cq :=
        List.filter_eq_self.mpr (fun c hc => by simp [hnone c hc])
      rw [hall]
      exact (Sender.ioUringCompleteSend_ok hdrain).2.2.2 (fun c hc => ⟨hnone c hc, hcounts c hc⟩)
  obtain ⟨⟨completed, rfl⟩, haccounted⟩ := hhandler
  obtain ⟨_, _, h⟩ := bind_ok.mp h
  cases h
  refine ⟨rfl, ?_⟩
  simp only [accounted, List.map_append, List.map_cons, List.map_nil, List.sum_append,
    List.sum_cons, List.sum_nil, haccounted]
  omega

/-- A zero-copy loop that goes on has returned what its handler collected. -/
theorem complete_pool (hmode : s.zerocopy = true) (h : s.complete = .ok s')
    (hphase : s'.phase = .fill) :
    s'.sender.packetBuffer = s.sender.packetBuffer.returnBufferIndex
      ((s.ring.cq.filter SendCqe.returned).map SendCqe.userData) := by
  simp only [complete, handleCompletions, hmode, ↓reduceIte, bind_ok] at h
  obtain ⟨⟨result, sender, rest⟩, hdrain, h⟩ := h
  rcases (Sender.ioUringCompleteSendZc_ok hdrain).2.1 with
    ⟨completed, _, rfl, _, rfl⟩ | ⟨e, _, rfl, hagain, rfl⟩
  · obtain ⟨_, _, h⟩ := bind_ok.mp h
    cases h
    rfl
  · cases e with
    | eagain => exact absurd rfl hagain
    | _ =>
      cases h
      cases hphase

theorem step_fill {time clock : Clock} {room : Nat} (h : s.step (.fill time clock room) = .ok s') :
    s.phase = .fill ∧ s.ring.sq.length + room ≤ s.ring.sqCapacity ∧
      s.fill time clock room = .ok s' := by
  simp only [step] at h
  split at h
  · rename_i hphase
    split at h
    · rename_i hroom
      exact ⟨hphase, hroom, lift_ok.mp h⟩
    · cases h
  · cases h

theorem step_take {n : Nat} (h : s.step (.take n) = .ok s') :
    n ≤ s.ring.sq.length ∧ s' = { s with ring := s.ring.take n } := by
  simp only [step] at h
  split at h
  · rename_i hn
    cases h
    exact ⟨hn, rfl⟩
  · cases h

theorem step_post {c : SendCqe} (h : s.step (.post c) = .ok s') :
    s.ring.Posts s.zerocopy c ∧ s.ring.cq.length < s.ring.cqCapacity ∧
      s' = { s with ring := s.ring.post c } := by
  simp only [step] at h
  split at h
  · rename_i hc
    cases h
    exact ⟨hc.1, hc.2, rfl⟩
  · cases h

theorem step_enter {result : EnterResult} (h : s.step (.enter result) = .ok s') :
    ∃ n, s.phase = .enter n ∧ s.enter result n = .ok s' := by
  simp only [step] at h
  split at h
  · rename_i n hphase
    exact ⟨n, hphase, lift_ok.mp h⟩
  · cases h

theorem step_complete (h : s.step .complete = .ok s') :
    s.phase = .complete ∧ s.complete = .ok s' := by
  simp only [step] at h
  split at h
  · rename_i hphase
    exact ⟨hphase, lift_ok.mp h⟩
  · cases h

/-- A loop that has returned does not come back. -/
theorem Going.back {e : SenderEvent} (h : s.step e = .ok s') (hg : s'.Going) : s.Going := by
  intro result hphase
  cases e with
  | fill time clock room => cases hphase.symm.trans (step_fill h).1
  | take n =>
    obtain ⟨_, rfl⟩ := step_take h
    exact hg result hphase
  | post c =>
    obtain ⟨_, _, rfl⟩ := step_post h
    exact hg result hphase
  | enter r =>
    obtain ⟨n, henter, _⟩ := step_enter h
    cases hphase.symm.trans henter
  | complete => cases hphase.symm.trans (step_complete h).1

end SenderLoop
end Nperf
