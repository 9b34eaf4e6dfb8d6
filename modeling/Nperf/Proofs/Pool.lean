import Nperf.Lib.Custody
import Nperf.Proofs.Loop

namespace Nperf
open Rust Bytes Runs

theorem PacketBuffer.returnBufferIndex_fits {b : PacketBuffer} {indices : List Nat}
    (h : b.indexPool.length + indices.length ≤ b.indexPoolCapacity) :
    b.returnBufferIndex indices = { b with indexPool := b.indexPool ++ indices } := by
  simp only [returnBufferIndex, if_pos h]

/-- The buffers of the pushed requests come off the end of the pool; nothing
fails as long as the pool has enough of them. -/
theorem IoUringNormal.submit_ok (requests room : Nat) {n : Nat} {b : PacketBuffer}
    (hrequests : requests ≤ b.indexPool.length)
    (hcapacity : b.indexPool.length ≤ b.indexPoolCapacity) (hsize : b.mmsghdrVec.length = n)
    (hinside : ∀ i ∈ b.indexPool, i < n) :
    ∃ pushed free, submit requests room b = .ok (pushed, { b with indexPool := free }) ∧
      b.indexPool = free ++ pushed.reverse ∧ pushed.length = min requests room := by
  induction requests generalizing room b with
  | zero => exact ⟨[], b.indexPool, rfl, by simp, by simp⟩
  | succ requests ih =>
    obtain ⟨free, index, hpool⟩ : ∃ free index, b.indexPool = free ++ [index] := by
      rcases List.eq_nil_or_concat b.indexPool with hnil | ⟨free, index, hpool⟩
      · simp [hnil] at hrequests
      · exact ⟨free, index, hpool.trans List.concat_eq_append⟩
    have hindex : index < b.mmsghdrVec.length := by
      rw [hsize]
      exact hinside index (by simp [hpool])
    have htake : b.getBufferIndex = .ok (index, { b with indexPool := free }) := by
      simp [PacketBuffer.getBufferIndex, hpool]
    have hmsghdr : ({ b with indexPool := free } : PacketBuffer).getMsghdrFromIndex index =
        .ok b.mmsghdrVec[index].msgHdr := by
      simp [PacketBuffer.getMsghdrFromIndex, hindex]
    simp only [hpool, List.length_append, List.length_singleton] at hrequests hcapacity
    simp only [submit, htake, ok_bind, hmsghdr]
    cases room with
    | zero =>
      refine ⟨[], b.indexPool, ?_, by simp, by simp⟩
      rw [PacketBuffer.returnBufferIndex_fits (by simpa using hcapacity), hpool]
    | succ room =>
      obtain ⟨pushed, free', hsubmit, hfree, hlen⟩ := ih room
        (b := { b with indexPool := free }) (by simp only; omega) (by simp only; omega) hsize
        (fun i hi => hinside i (by simp [hpool, hi]))
      simp only at hsubmit hfree
      refine ⟨index :: pushed, free', by simp only [hsubmit, ok_bind], by simp [hpool, hfree], ?_⟩
      rw [List.length_cons, hlen]
      omega

/-- The completion ends the handler before it has given back the buffers of
the batch, yet the loop goes on. -/
def Receiver.Withholds (r : Receiver) (c : Cqe) : Prop :=
  parseReceivedBytes c.result = .error .eagain ∨
    (parseReceivedBytes c.result).isOk ∧ r.messageTypeAt c.userData = .ok .last

instance (r : Receiver) (c : Cqe) : Decidable (r.Withholds c) :=
  inferInstanceAs (Decidable (_ ∨ _ ∧ _))

theorem Receiver.Kept.withholds {r r' : Receiver} (h : r.Kept r') (c : Cqe) :
    r'.Withholds c ↔ r.Withholds c := by
  simp only [Withholds, h.messageType]

theorem Receiver.completeNormal_ok {build : Build} {clock : Clock} {c : Cqe} {r r' : Receiver}
    {completed completed' : Nat} {pool pool' : List Nat} {result : Except Error Unit}
    (h : completeNormal (handleRecvmsgReturn build clock) c (r, completed, pool) =
      .ok (result, r', completed', pool')) :
    r.Kept r' ∧ (result = .ok () → pool' = pool ++ [c.userData] ∧ ¬r.Withholds c) ∧
      ∀ e, result = .error e → e ≠ .noBuffersLeft ∧ (e.Resumes → r.Withholds c) := by
  cases completeNormal_cases h with
  | @failed e bytes =>
    refine ⟨.refl r, by simp, ?_⟩
    intro e' he'
    cases he'
    rcases parseReceivedBytes_error bytes with rfl | rfl
    · exact ⟨by simp, fun _ => .inl bytes⟩
    · exact ⟨by simp, fun hresumes => absurd hresumes (by simp [Error.Resumes])⟩
  | @collected n handled _ bytes goes continues =>
    obtain ⟨hkept, hdr, mtype, hhdr, hmtype, hsignal⟩ := handleRecvmsgReturn_ok goes
    have hheader : r.messageTypeAt c.userData = .ok mtype := bind_ok.mpr ⟨hdr, hhdr, hmtype⟩
    have hlast : mtype ≠ .last := by
      intro hlast
      subst hlast
      rcases continues with rfl | rfl
      · rcases hsignal with hsignal | hsignal <;> cases hsignal
      · rcases hsignal with hsignal | hsignal <;> cases hsignal
    refine ⟨hkept, fun _ => ⟨rfl, ?_⟩, by simp⟩
    simpa [Withholds, bytes, hheader] using fun _ => hlast
  | @ended n e _ bytes goes ends =>
    obtain ⟨hkept, hdr, mtype, hhdr, hmtype, hsignal⟩ := handleRecvmsgReturn_ok goes
    have hheader : r.messageTypeAt c.userData = .ok mtype := bind_ok.mpr ⟨hdr, hhdr, hmtype⟩
    refine ⟨hkept, by simp, ?_⟩
    intro e' he'
    cases he'
    rcases hsignal with hsignal | hsignal
    · rcases MessageType.signal_error hsignal.symm with ⟨rfl, rfl⟩ | ⟨rfl, rfl⟩
      · exact absurd rfl ends
      · exact ⟨by simp, fun _ => .inr ⟨by simp [bytes, Except.isOk, Except.toBool], hheader⟩⟩
    · cases hsignal
      exact ⟨by simp, fun hresumes => absurd hresumes (by simp [Error.Resumes])⟩

/-- Where the handler stands after the completions `done`: their buffers wait
in the local list. -/
structure Receiver.Collected (r : Receiver) (done : List Cqe) (s : Receiver × Nat × List Nat) :
    Prop where
  kept : r.Kept s.1
  pool : s.2.2 = done.map Cqe.userData
  given : ∀ c ∈ done, ¬r.Withholds c

theorem Receiver.Collected.round {build : Build} {clock : Clock} {r : Receiver} {done : List Cqe}
    {c : Cqe} {s s' : Receiver × Nat × List Nat} (hs : r.Collected done s)
    (h : completeNormal (handleRecvmsgReturn build clock) c s = .ok (.ok (), s')) :
    r.Collected (done ++ [c]) s' := by
  obtain ⟨hkept, hok, _⟩ := completeNormal_ok h
  obtain ⟨hpool, hc⟩ := hok rfl
  rw [hs.kept.withholds] at hc
  refine ⟨hs.kept.trans hkept, by simp [hpool, hs.pool], ?_⟩
  exact List.forall_mem_append.mpr ⟨hs.given, by simpa using hc⟩

/-- The handler gives back all the buffers of the queue, or keeps those of the
completions it has seen. -/
theorem Receiver.ioUringCompleteNormal_ok {build : Build} {clock : Nat → Clock} {r r' : Receiver}
    {cq rest : List Cqe} {result : Except Error Nat}
    (h : r.ioUringCompleteNormal build clock cq = .ok (result, r', rest)) :
    (∃ t completed, result = .ok completed ∧ rest = [] ∧ r.Kept t ∧ (∀ c ∈ cq, ¬r.Withholds c) ∧
        r' = { t with packetBuffer := t.packetBuffer.returnBufferIndex (cq.map Cqe.userData) }) ∨
      ∃ e front c, result = .error e ∧ cq = front ++ c :: rest ∧ r.Kept r' ∧
        e ≠ .noBuffersLeft ∧ (e.Resumes → r.Withholds c) := by
  simp only [ioUringCompleteNormal, bind_ok] at h
  obtain ⟨⟨drained, ⟨t, completed, pool⟩, rest'⟩, hdrain, h⟩ := h
  have hstart : r.Collected [] (r, 0, []) := ⟨.refl r, rfl, by simp⟩
  rcases Queue.drain_cases [] (R := r.Collected) (fun _ _ _ _ _ hs => hs.round) hstart hdrain with
    ⟨rfl, hrest, hall⟩ | ⟨e, front, c, j, u, rfl, hcq, hfront, hbody⟩
  · cases h
    have hpool := hall.pool
    simp only [List.nil_append] at hpool
    exact .inl ⟨t, completed, rfl, hrest, hall.kept, hall.given, by rw [hpool]⟩
  · cases h
    obtain ⟨hkept, _, herror⟩ := completeNormal_ok hbody
    obtain ⟨hsupplied, hresumes⟩ := herror e rfl
    rw [hfront.kept.withholds] at hresumes
    exact .inr ⟨e, front, c, rfl, hcq, hfront.kept.trans hkept, hsupplied, hresumes⟩

namespace UringLoop
variable {build : Build} {p : Parameter} {s s' : UringLoop}

def pool (s : UringLoop) : List Nat := s.receiver.packetBuffer.indexPool

/-- The buffers of the normal loop: those that are neither in the pool nor
with a request are lost. -/
structure Pooled (p : Parameter) (s : UringLoop) : Prop where
  parameter : s.receiver.parameter = p
  size : s.receiver.packetBuffer.mmsghdrVec.length = p.packetBufferSize
  capacity : s.receiver.packetBuffer.indexPoolCapacity = p.packetBufferSize
  room : s.ring.sq.length ≤ s.ring.sqCapacity
  custody : Custody (List.range p.packetBufferSize) s.pool s.ring.outstanding
  supplied : s.phase ≠ .returned (.error .noBuffersLeft)

theorem Pooled.pool_le (hs : s.Pooled p) : s.pool.length + s.ring.outstanding.length ≤
    p.packetBufferSize := by
  simpa using hs.custody.length_le

theorem Pooled.fill {clock : Clock} {room : Nat} (hu : p.uringParameter.Accepted)
    (hmode : p.uringParameter.uringMode = .normal)
    (hsize : p.packetBufferSize = p.uringParameter.bufferSize) (hs : s.Pooled p)
    (h : s.step build (.fill clock room) = .ok s') :
    s'.Pooled p ∧ (s.pool ++ s.ring.outstanding).Perm (s'.pool ++ s'.ring.outstanding) := by
  obtain ⟨hphase, hroom, h⟩ := step_fill h
  have hle := hs.pool_le
  have huring : s.uring = p.uringParameter := by simp only [uring, hs.parameter]
  simp only [UringLoop.fill, huring, hmode] at h
  obtain ⟨t, toSubmit, minComplete, hk, hcalc, hs'⟩ := fillCounted_ok h
  have hpool : t.pool = s.pool := hk.receiver.indexPool
  have hcapacity := hk.receiver.capacity.trans hs.capacity
  have hinflight : t.receiver.packetBuffer.getPoolInflight =
      p.uringParameter.bufferSize - s.pool.length := by
    rw [PacketBuffer.getPoolInflight, hcapacity, hsize, ← hpool]
    rfl
  rw [hk.uring, hk.ring, hinflight, huring] at hcalc
  obtain ⟨_, _, hcalc', hsubmit⟩ := calcSqFillMode_ok hu hs.room (Nat.sub_le _ _)
  cases hcalc.symm.trans hcalc'
  have hparameter := hk.receiver.parameter.trans hs.parameter
  have hbuffers := hk.receiver.size.trans hs.size
  rcases hs' with rfl | hs'
  · refine ⟨⟨hparameter, hbuffers, hcapacity, ?_, ?_, by simp⟩, ?_⟩
    · simp only [hk.ring]
      exact hs.room
    · simp only [hk.ring]
      exact hpool ▸ hs.custody
    · simp only [hk.ring]
      exact .of_eq (congrArg (· ++ _) hpool.symm)
  · obtain ⟨pushed, free, hok, hfree, hlen⟩ := IoUringNormal.submit_ok toSubmit room
      (b := t.receiver.packetBuffer)
      (show toSubmit ≤ t.pool.length by rw [hpool]; omega)
      (show t.pool.length ≤ _ by rw [hpool, hcapacity]; omega) hbuffers
      (fun i hi => List.mem_range.mp (hs.custody.free_mem (hpool ▸ hi)))
    simp only [fillNormal, hok] at hs'
    obtain ⟨hreceiver, hring, _, _, hphase'⟩ := pushed_ok hs'
    have hpool' : s'.pool = free := by simp only [pool, hreceiver]
    rw [show t.receiver.packetBuffer.indexPool = s.pool from hpool] at hfree
    have hperm : (s.pool ++ s.ring.outstanding).Perm (s'.pool ++ s'.ring.outstanding) := by
      simp only [hpool', hring, hfree, hk.ring, List.append_assoc]
      apply List.Perm.append_left
      apply (List.Perm.append_right _ (List.reverse_perm pushed)).trans
      exact List.perm_append_comm.trans (s.ring.push_outstanding pushed).symm
    refine ⟨⟨?_, ?_, ?_, ?_, hs.custody.move hperm, ?_⟩, hperm⟩
    · simp only [hreceiver, hparameter]
    · simp only [hreceiver, hbuffers]
    · simp only [hreceiver, hcapacity]
    · simp only [hring, hk.ring, Ring.push, List.length_append]
      omega
    · rw [hphase']
      simp

theorem Pooled.take {n : Nat} (hs : s.Pooled p) (h : s.step build (.take n) = .ok s') :
    s'.Pooled p ∧ (s.pool ++ s.ring.outstanding).Perm (s'.pool ++ s'.ring.outstanding) := by
  obtain ⟨_, rfl⟩ := step_take h
  have hperm := (s.ring.take_outstanding n).symm.append_left s.pool
  refine ⟨⟨hs.parameter, hs.size, hs.capacity, ?_, hs.custody.move hperm, hs.supplied⟩, hperm⟩
  have := hs.room
  simp only [Ring.take, List.length_drop]
  omega

/-- The message a completion brings touches nothing but its own msghdr. -/
theorem post_buffers (c : Cqe) : (s.post c).receiver.parameter = s.receiver.parameter ∧
    (s.post c).receiver.packetBuffer.mmsghdrVec.length =
      s.receiver.packetBuffer.mmsghdrVec.length ∧
    (s.post c).receiver.packetBuffer.indexPoolCapacity =
      s.receiver.packetBuffer.indexPoolCapacity ∧ (s.post c).pool = s.pool := by
  simp only [UringLoop.post, pool]
  split
  · split <;> simp [PacketBuffer.setMsghdr]
  · simp

theorem Pooled.post {c : Cqe} (hmode : p.uringParameter.uringMode = .normal) (hs : s.Pooled p)
    (h : s.step build (.post c) = .ok s') :
    s'.Pooled p ∧ (s.pool ++ s.ring.outstanding).Perm (s'.pool ++ s'.ring.outstanding) := by
  obtain ⟨hc, _, rfl⟩ := step_post h
  have hring := post_ring (s := s) (by simp [uring, hs.parameter, hmode]) c
  obtain ⟨hparameter, hsize, hcapacity, hpool⟩ := post_buffers (s := s) c
  have hperm : (s.pool ++ s.ring.outstanding).Perm
      ((s.post c).pool ++ (s.post c).ring.outstanding) := by
    rw [hpool, hring]
    exact (s.ring.post_outstanding hc).symm.append_left _
  exact ⟨⟨hparameter.trans hs.parameter, hsize.trans hs.size, hcapacity.trans hs.capacity,
    by rw [hring]; exact hs.room, hs.custody.move hperm, hs.supplied⟩, hperm⟩

theorem Pooled.enter {result : EnterResult} {clock : Clock} (hs : s.Pooled p)
    (h : s.step build (.enter result clock) = .ok s') :
    s'.Pooled p ∧ (s.pool ++ s.ring.outstanding).Perm (s'.pool ++ s'.ring.outstanding) := by
  obtain ⟨n, _, h⟩ := step_enter h
  obtain ⟨hkept, hring, _, hphase⟩ := enter_ok h
  have hperm : (s.pool ++ s.ring.outstanding).Perm (s'.pool ++ s'.ring.outstanding) := by
    simp only [pool, hkept.indexPool, hring]
    exact .refl _
  refine ⟨⟨hkept.parameter.trans hs.parameter, hkept.size.trans hs.size,
    hkept.capacity.trans hs.capacity, by rw [hring]; exact hs.room, hs.custody.move hperm, ?_⟩,
    hperm⟩
  rcases hphase with ⟨hreturned, _⟩ | ⟨hcomplete, _⟩
  · rw [hreturned]
    simp
  · rw [hcomplete]
    simp

theorem completeNormal_ok {clock : Nat → Clock} (hmode : s.uring.uringMode = .normal)
    (h : s.complete build clock = .ok s') :
    (∃ t, s.receiver.Kept t ∧ (∀ c ∈ s.ring.cq, ¬s.receiver.Withholds c) ∧
        s'.receiver = { t with
          packetBuffer := t.packetBuffer.returnBufferIndex (s.ring.cq.map Cqe.userData) } ∧
        s'.ring = { s.ring with cq := [] } ∧ s'.phase = .fill) ∨
      ∃ front c rest, s.ring.cq = front ++ c :: rest ∧ s.receiver.Kept s'.receiver ∧
        s'.ring = { s.ring with cq := rest } ∧
        (s'.phase = .fill ∧ s.receiver.Withholds c ∨
          ∃ result, s'.phase = .returned result ∧ result ≠ .error .noBuffersLeft) := by
  simp only [UringLoop.complete, hmode, bind_ok] at h
  obtain ⟨⟨result, r, rest⟩, hdrain, h⟩ := h
  rcases Receiver.ioUringCompleteNormal_ok hdrain with
    ⟨t, completed, rfl, rfl, hkept, hgiven, rfl⟩ |
    ⟨e, front, c, rfl, hcq, hkept, hsupplied, hresumes⟩
  · obtain ⟨_, rfl⟩ := reaped_ok h
    exact .inl ⟨t, hkept, hgiven, rfl, rfl, rfl⟩
  · obtain ⟨hk, houtcome⟩ := interrupted_ok h
    refine .inr ⟨front, c, rest, hcq, hkept.trans hk.receiver, hk.ring, ?_⟩
    rcases houtcome with ⟨hfill, he⟩ | ⟨result, hreturned, herror⟩
    · exact .inl ⟨hfill, hresumes he⟩
    · refine .inr ⟨result, hreturned, ?_⟩
      intro hresult
      subst hresult
      exact hsupplied (herror _ rfl).symm

/-- Either the handler has given back every buffer it has seen, or it has lost
some and been made to by a completion, unless the loop is over. -/
theorem Pooled.complete {clock : Nat → Clock} (hmode : p.uringParameter.uringMode = .normal)
    (hs : s.Pooled p) (h : s.step build (.complete clock) = .ok s') :
    s'.Pooled p ∧
      ((s.pool ++ s.ring.outstanding).Perm (s'.pool ++ s'.ring.outstanding) ∧
          (∀ c ∈ s.ring.cq, ¬s.receiver.Withholds c) ∨
        ∃ gone, gone ≠ [] ∧
          (s.pool ++ s.ring.outstanding).Perm (s'.pool ++ s'.ring.outstanding ++ gone) ∧
          (s'.Going → ∃ c ∈ s.ring.cq, s.receiver.Withholds c)) := by
  obtain ⟨_, h⟩ := step_complete h
  rcases completeNormal_ok (by simp only [uring, hs.parameter, hmode]) h with
    ⟨t, hkept, hgiven, hreceiver, hring, hfill⟩ | ⟨front, c, rest, hcq, hkept, hring, houtcome⟩
  · have hreap := s.ring.reap_outstanding (List.append_nil s.ring.cq).symm
    rw [← hring] at hreap
    have hfits : t.packetBuffer.indexPool.length + (s.ring.cq.map Cqe.userData).length ≤
        t.packetBuffer.indexPoolCapacity := by
      have hlen := hreap.length_eq
      have hle := hs.pool_le
      rw [List.length_append] at hlen
      rw [hkept.indexPool, hkept.capacity, hs.capacity]
      simp only [pool] at hle
      omega
    rw [PacketBuffer.returnBufferIndex_fits hfits] at hreceiver
    have hperm : (s.pool ++ s.ring.outstanding).Perm (s'.pool ++ s'.ring.outstanding) := by
      simp only [pool, hreceiver, hkept.indexPool, List.append_assoc]
      exact (hreap.trans List.perm_append_comm).append_left _
    refine ⟨⟨?_, ?_, ?_, by rw [hring]; exact hs.room, hs.custody.move hperm, by rw [hfill]; simp⟩,
      .inl ⟨hperm, hgiven⟩⟩
    · rw [hreceiver]
      exact hkept.parameter.trans hs.parameter
    · rw [hreceiver]
      exact hkept.size.trans hs.size
    · rw [hreceiver]
      exact hkept.capacity.trans hs.capacity
  · have hreap := s.ring.reap_outstanding
      (show s.ring.cq = front ++ [c] ++ rest by simp [hcq])
    have hperm : (s.pool ++ s.ring.outstanding).Perm
        (s'.pool ++ s'.ring.outstanding ++ (front ++ [c]).map Cqe.userData) := by
      simp only [pool, hkept.indexPool, hring, List.append_assoc]
      exact hreap.append_left _
    refine ⟨⟨hkept.parameter.trans hs.parameter, hkept.size.trans hs.size,
      hkept.capacity.trans hs.capacity, by rw [hring]; exact hs.room, hs.custody.lose hperm, ?_⟩,
      .inr ⟨_, by simp, hperm, ?_⟩⟩
    · rcases houtcome with ⟨hfill, _⟩ | ⟨result, hreturned, hsupplied⟩
      · rw [hfill]
        simp
      · rw [hreturned]
        exact fun h => hsupplied (Phase.returned.inj h)
    · intro hgoing
      rcases houtcome with ⟨_, hc⟩ | ⟨result, hreturned, _⟩
      · exact ⟨c, by simp [hcq], hc⟩
      · exact absurd hreturned (hgoing result)

theorem Pooled.start {clock : Clock} (clock' : Clock) {r : Receiver}
    (hnew : Receiver.new clock p = .ok r) :
    (start clock' r).Pooled p ∧ (start clock' r).pool = List.range p.packetBufferSize := by
  obtain ⟨hsound, _, hparameter, _⟩ := Receiver.new_ok hnew
  obtain ⟨v, _, hr⟩ := bind_ok.mp hnew
  cases hr
  have hsize := hsound.size
  have hpool := congrArg List.range hsize
  refine ⟨⟨hparameter, hsize, hsize, Nat.zero_le _, ?_, ?_⟩, hpool⟩
  · rw [← hsize]
    exact Custody.start _
  · intro hphase
    cases hphase

/-- No completion of the batch keeps the handler from giving buffers back. -/
def ReturnsAll (s : UringLoop) : UringEvent → Prop
  | .complete _ => ∀ c ∈ s.ring.cq, ¬s.receiver.Withholds c
  | _ => True

instance (s : UringLoop) : ∀ e, Decidable (s.ReturnsAll e)
  | .fill _ _ | .take _ | .post _ | .enter _ _ => inferInstanceAs (Decidable True)
  | .complete _ => inferInstanceAs (Decidable (∀ c ∈ s.ring.cq, ¬s.receiver.Withholds c))

/-- Every buffer is in the pool or with a request. -/
def NoneLost (p : Parameter) (s : UringLoop) : Prop :=
  (s.pool ++ s.ring.outstanding).Perm (List.range p.packetBufferSize)

instance (s : UringLoop) : Decidable (s.NoneLost p) := inferInstanceAs (Decidable (List.Perm _ _))

theorem NoneLost.not_of_gone {gone : List Nat} (hs : s.NoneLost p) (hgone : gone ≠ [])
    (hperm : (s.pool ++ s.ring.outstanding).Perm (s'.pool ++ s'.ring.outstanding ++ gone)) :
    ¬s'.NoneLost p := by
  intro hs'
  have hlen := (hs.symm.trans hperm).length_eq
  have hlen' := hs'.length_eq
  have hpos := List.length_pos_iff.mpr hgone
  rw [List.length_append] at hlen
  omega

theorem Pooled.step {e : UringEvent} (hu : p.uringParameter.Accepted)
    (hmode : p.uringParameter.uringMode = .normal)
    (hsize : p.packetBufferSize = p.uringParameter.bufferSize) (hs : s.Pooled p)
    (h : s.step build e = .ok s') :
    s'.Pooled p ∧ (s'.Going → s.NoneLost p → (s'.NoneLost p ↔ s.ReturnsAll e)) := by
  have hmoved : (s.pool ++ s.ring.outstanding).Perm (s'.pool ++ s'.ring.outstanding) →
      s.NoneLost p → s'.NoneLost p := fun hperm hnone => hperm.symm.trans hnone
  cases e with
  | fill clock room =>
    obtain ⟨hs', hperm⟩ := hs.fill hu hmode hsize h
    exact ⟨hs', fun _ hnone => ⟨fun _ => trivial, fun _ => hmoved hperm hnone⟩⟩
  | take n =>
    obtain ⟨hs', hperm⟩ := hs.take h
    exact ⟨hs', fun _ hnone => ⟨fun _ => trivial, fun _ => hmoved hperm hnone⟩⟩
  | post c =>
    obtain ⟨hs', hperm⟩ := hs.post hmode h
    exact ⟨hs', fun _ hnone => ⟨fun _ => trivial, fun _ => hmoved hperm hnone⟩⟩
  | enter result clock =>
    obtain ⟨hs', hperm⟩ := hs.enter h
    exact ⟨hs', fun _ hnone => ⟨fun _ => trivial, fun _ => hmoved hperm hnone⟩⟩
  | complete clock =>
    obtain ⟨hs', ⟨hperm, hgiven⟩ | ⟨gone, hgone, hperm, hwithheld⟩⟩ := hs.complete hmode h
    · exact ⟨hs', fun _ hnone => ⟨fun _ => hgiven, fun _ => hmoved hperm hnone⟩⟩
    · refine ⟨hs', fun hgoing hnone => ⟨?_, ?_⟩⟩
      · exact fun hnone' => absurd hnone' (hnone.not_of_gone hgone hperm)
      · intro hreturns
        obtain ⟨c, hc, hw⟩ := hwithheld hgoing
        exact absurd hw (hreturns c hc)

/-- What holds of the index pool in every state of the loop. -/
structure Exclusive (p : Parameter) (s : UringLoop) : Prop where
  distinct : s.receiver.packetBuffer.indexPool.Nodup
  disjoint : ∀ i ∈ s.ring.outstanding, i ∉ s.receiver.packetBuffer.indexPool
  inside : ∀ i ∈ s.receiver.packetBuffer.indexPool, i < p.packetBufferSize
  inflight : p.packetBufferSize - s.receiver.packetBuffer.indexPool.length ≤
    s.receiver.packetBuffer.getPoolInflight
  supplied : s.phase ≠ .returned (.error .noBuffersLeft)

theorem Pooled.exclusive (hs : s.Pooled p) : s.Exclusive p := by
  refine ⟨hs.custody.free_nodup List.nodup_range, ?_, ?_, ?_, hs.supplied⟩
  · exact fun i hi => hs.custody.held_not_free List.nodup_range hi
  · exact fun i hi => List.mem_range.mp (hs.custody.free_mem hi)
  · exact Nat.le_of_eq (congrArg (· - _) hs.capacity.symm)

end UringLoop

/-- A buffer of the normal loop is in the pool at most once, and not while a
request has it; the pool is never found empty. -/
theorem buffers_exclusive (args : NPerf) (build : Build) (cores : Nat) (p : Parameter)
    (hparse : args.parseParameter build cores = .ok (some p)) (hio : args.ioModel = .ioUring)
    (hmode : args.uringMode = .normal) (clock clock' : Clock) (r : Receiver)
    (hnew : Receiver.new clock p = .ok r) (events : List UringEvent) (s : UringLoop)
    (hrun : run (UringLoop.step build) (.start clock' r) events = .ok s) : s.Exclusive p := by
  obtain ⟨hu, hmode', hsize⟩ := NPerf.parseParameter_uring hparse
  have hs : s.Pooled p := run_invariant
    (fun _ _ _ hs h => (hs.step hu (hmode'.trans hmode) (hsize hio hmode) h).1)
    (UringLoop.Pooled.start clock' hnew).1 hrun
  exact hs.exclusive

/-- A loop that goes on has all its buffers exactly as long as no batch has
made the handler return early. -/
theorem buffers_returned_iff (args : NPerf) (build : Build) (cores : Nat) (p : Parameter)
    (hparse : args.parseParameter build cores = .ok (some p)) (hio : args.ioModel = .ioUring)
    (hmode : args.uringMode = .normal) (clock clock' : Clock) (r : Receiver)
    (hnew : Receiver.new clock p = .ok r) (events : List UringEvent) (s : UringLoop)
    (hrun : run (UringLoop.step build) (.start clock' r) events = .ok s) (hgoing : s.Going) :
    Always (UringLoop.step build) (UringLoop.NoneLost p) (.start clock' r) events ↔
      Guarded (UringLoop.step build) UringLoop.ReturnsAll (.start clock' r) events := by
  obtain ⟨hu, hmode', hsize⟩ := NPerf.parseParameter_uring hparse
  obtain ⟨hstart, hpool⟩ := UringLoop.Pooled.start clock' hnew
  have hnone : (UringLoop.start clock' r).NoneLost p := by
    rw [UringLoop.NoneLost, hpool]
    exact .of_eq (List.append_nil _)
  have hstep := fun s e s' (hs : s.Pooled p) (h : UringLoop.step build s e = .ok s') =>
    hs.step hu (hmode'.trans hmode) (hsize hio hmode) h
  constructor
  · exact guarded_of_always UringLoop.Going (fun _ _ _ h hg => hg.back h)
      (fun s e s' hs _ h => (hstep s e s' hs h).1)
      (fun s e s' hs hp hg h => ((hstep s e s' hs h).2 hg hp).mp) hstart hrun hgoing
  · exact always_of_guarded UringLoop.Going (fun _ _ _ h hg => hg.back h)
      (fun s e s' hs _ h => (hstep s e s' hs h).1)
      (fun s e s' hs hp hg h => ((hstep s e s' hs h).2 hg hp).mpr) hstart hnone hrun hgoing

/-- One message through the normal loop: its buffer is the last of the pool. -/
def UringLoop.receive (index : Nat) (mtype : MessageType) (testId packetId : Nat) :
    List UringEvent :=
  [.fill ⟨0, 0⟩ 1, .take 1, .post ⟨24, index, 0, .packet mtype testId packetId⟩,
    .enter .submitted ⟨0, 0⟩, .complete (fun _ => ⟨0, 0⟩)]

theorem buffers_exclusive_last :
    let r := (Receiver.new ⟨0, 0⟩ (.oneEntry .normal)).toOption.get (by decide)
    let events := UringLoop.receive 3 .measurement 0 0 ++ UringLoop.receive 3 .last 0 1
    ∃ s, run (UringLoop.step .debug) (.start ⟨0, 0⟩ r) events = .ok s ∧
      s.Exclusive (.oneEntry .normal) := by
  intro r events
  obtain ⟨s, hrun, _⟩ := checked (p := fun _ => True)
    (x := run (UringLoop.step .debug) (.start ⟨0, 0⟩ r) events) (by decide +kernel)
  exact ⟨s, hrun, buffers_exclusive (.oneEntry .normal) .debug 8 _ (by decide +kernel) rfl rfl
    ⟨0, 0⟩ ⟨0, 0⟩ r rfl events s hrun⟩

theorem buffers_returned_init :
    let r := (Receiver.new ⟨0, 0⟩ (.oneEntry .normal)).toOption.get (by decide)
    let events := UringLoop.receive 3 .init 0 0 ++ UringLoop.receive 3 .measurement 0 0
    Always (UringLoop.step .debug) (UringLoop.NoneLost (.oneEntry .normal)) (.start ⟨0, 0⟩ r)
      events := by
  intro r events
  obtain ⟨s, hrun, hphase⟩ := checked (p := fun s => s.phase = .fill)
    (x := run (UringLoop.step .debug) (.start ⟨0, 0⟩ r) events) (by decide +kernel)
  exact (buffers_returned_iff (.oneEntry .normal) .debug 8 _ (by decide +kernel) rfl rfl
    ⟨0, 0⟩ ⟨0, 0⟩ r rfl events s hrun (.of_phase hphase (by simp))).mpr
      (by decide +kernel)

/-- Test 0 ends while test 1 is not finished: the buffer of its LAST message
does not come back. -/
theorem buffers_lost_last :
    let r := (Receiver.new ⟨0, 0⟩ (.oneEntry .normal)).toOption.get (by decide)
    ∃ s, run (UringLoop.step .debug) (.start ⟨0, 0⟩ r)
          (UringLoop.receive 3 .measurement 0 0 ++ UringLoop.receive 3 .measurement 1 0 ++
            UringLoop.receive 3 .last 0 1) = .ok s ∧
        s.phase = .fill ∧ s.ring.outstanding = [] ∧ s.pool = [0, 1, 2] ∧
        ¬s.NoneLost (.oneEntry .normal) :=
  checked (by decide +kernel)

end Nperf
