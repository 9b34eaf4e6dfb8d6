import Mathlib.Data.List.Nodup
import Nperf.Proofs.SendAccounting

namespace Nperf
open Rust Runs

namespace SendRing

/-- Every request that the ring still knows. -/
def requests (r : SendRing) : List SendRequest :=
  r.sq ++ r.live ++ r.notifying ++ r.cq.map SendCqe.request

theorem mem_requests_post {r : SendRing} {c : SendCqe} {zerocopy : Bool}
    (h : r.Posts zerocopy c) {q : SendRequest} (hq : q ∈ (r.post c).requests) :
    q ∈ r.requests := by
  unfold Posts at h
  have hrequest : c.request ∈ r.requests := by
    split at h <;> simp [requests, h.1]
  unfold requests post at hq
  split at hq
  · simp only [List.map_append, List.map_cons, List.map_nil, List.mem_append,
      List.mem_singleton] at hq
    rcases hq with ((hsq | hlive) | hnotifying) | hcq | rfl
    · simp [requests, hsq]
    · simp [requests, hlive]
    · simp [requests, List.mem_of_mem_erase hnotifying]
    · exact List.mem_append_right _ hcq
    · exact hrequest
  · simp only [List.map_append, List.map_cons, List.map_nil, List.mem_append,
      List.mem_singleton] at hq
    rcases hq with ((hsq | hlive) | hnotifying) | hcq | rfl
    · simp [requests, hsq]
    · simp [requests, List.mem_of_mem_erase hlive]
    · split at hnotifying
      · rcases List.mem_append.mp hnotifying with hold | hnew
        · simp [requests, hold]
        · rw [List.mem_singleton.mp hnew]
          exact hrequest
      · simp [requests, hnotifying]
    · exact List.mem_append_right _ hcq
    · exact hrequest

end SendRing

namespace SenderLoop
variable {p : Parameter} {s s' : SenderLoop}

def pool (s : SenderLoop) : List Nat := s.sender.packetBuffer.indexPool

/-- The buffers of the requests whose last completion is not consumed. -/
def heldBuffers (s : SenderLoop) : List Nat := s.ring.held.map SendRequest.buffer

/-- Every buffer is once in the pool or with a request. -/
def Partitioned (p : Parameter) (s : SenderLoop) : Prop :=
  (s.pool ++ s.heldBuffers).Perm (List.range p.packetBufferSize)

instance (s : SenderLoop) : Decidable (s.Partitioned p) :=
  inferInstanceAs (Decidable (List.Perm _ _))

/-- The number of requests that `fill_sq_and_submit` is about to make. -/
def wanted (s : SenderLoop) : Nat :=
  match calcSqFillMode (asU32 s.sender.packetBuffer.getPoolInflight) s.uring s.ring.ring with
  | .ok (toSubmit, _) => toSubmit
  | .error _ => 0

/-- The submission queue takes all requests, and of the data completions in a
batch exactly those with EAGAIN announce no notification. -/
def KeepsPool (s : SenderLoop) : SenderEvent → Prop
  | .fill time _ room => s.sender.running s.startTime time → s.wanted ≤ room
  | .complete => ∀ c ∈ s.ring.cq, c.notif = false → (c.cqe.more = true ↔ c.result ≠ -11)
  | _ => True

instance (s : SenderLoop) : ∀ e, Decidable (s.KeepsPool e)
  | .fill time _ room =>
    inferInstanceAs (Decidable (s.sender.running s.startTime time → s.wanted ≤ room))
  | .complete => inferInstanceAs (Decidable
      (∀ c ∈ s.ring.cq, c.notif = false → (c.cqe.more = true ↔ c.result ≠ -11)))
  | .take _ | .post _ | .enter _ => inferInstanceAs (Decidable True)

/-- What the two completions of a request have to do with each other. -/
structure Paired (p : Parameter) (s : SenderLoop) : Prop where
  parameter : s.sender.parameter = p
  userData : ∀ q ∈ s.ring.requests, q.userData = q.buffer
  last : ∀ c ∈ s.ring.cq, c.notif = true →
    c.cqe.more = false ∧ (c.result = 0 ∨ c.result = ioringNotifUsageZcCopied)
  announced : s.Going → ∀ c ∈ s.ring.cq, c.notif = false → c.cqe.more = true →
    c.request ∈ s.ring.notifying ∨ ∃ d ∈ s.ring.cq, d.notif = true ∧ d.request = c.request

theorem Paired.zerocopy (hmode : p.uringParameter.uringMode = .zerocopy) (hs : s.Paired p) :
    s.zerocopy = true := by
  simp [SenderLoop.zerocopy, uring, hs.parameter, hmode]

theorem Partitioned.of_perm (hs : s.Partitioned p)
    (h : (s'.pool ++ s'.heldBuffers).Perm (s.pool ++ s.heldBuffers)) : s'.Partitioned p :=
  h.trans hs

theorem Partitioned.iff_nil {lost : List Nat} (hs : s.Partitioned p)
    (h : (s.pool ++ s.heldBuffers).Perm (s'.pool ++ s'.heldBuffers ++ lost)) :
    s'.Partitioned p ↔ lost = [] := by
  constructor
  · intro hs'
    have hlen := (hs.symm.trans h).length_eq
    rw [List.length_append, hs'.length_eq] at hlen
    exact List.eq_nil_of_length_eq_zero (by omega)
  · intro hsame
    subst hsame
    rw [List.append_nil] at h
    exact hs.of_perm h.symm

theorem push_perm {b : PacketBuffer} {requests : List SendRequest} {lost : List Nat}
    (hpool : s.pool.Perm (b.indexPool ++ requests.map SendRequest.buffer ++ lost))
    (hb : s'.sender.packetBuffer = b) (hring : s'.ring = s.ring.push requests) :
    (s.pool ++ s.heldBuffers).Perm (s'.pool ++ s'.heldBuffers ++ lost) := by
  have hheld := (s.ring.push_held requests).map SendRequest.buffer
  rw [List.map_append] at hheld
  apply (hpool.append_right s.heldBuffers).trans
  simp only [pool, heldBuffers, hb, hring]
  apply List.Perm.trans ?_ ((hheld.symm.append_left b.indexPool).append_right lost)
  rw [List.perm_iff_count]
  intro i
  simp only [List.count_append]
  omega

/-- A push that fails loses its buffer, and nothing else does. -/
theorem Paired.fill {time clock : Clock} {room : Nat}
    (hmode : p.uringParameter.uringMode = .zerocopy) (hs : s.Paired p)
    (h : s.step (.fill time clock room) = .ok s') :
    s'.Paired p ∧ (s'.Going → s.Partitioned p →
      (s'.Partitioned p ↔ s.KeepsPool (.fill time clock room))) := by
  obtain ⟨hphase, _, hfill⟩ := step_fill h
  have hgoing : s.Going := .of_phase hphase (by simp)
  rcases fill_ok hfill with ⟨result, rfl⟩ | ⟨hrunning, t, hk, hsubmit⟩
  · refine ⟨⟨hs.parameter, hs.userData, hs.last, fun hg => absurd rfl (hg result)⟩, ?_⟩
    exact fun hg => absurd rfl (hg result)
  obtain ⟨n, m, hcalc, hcases⟩ := submit_ok hsubmit
  have hwanted : s.wanted = n := by
    rw [hk.packetBuffer, hk.uring, hk.ring] at hcalc
    simp only [wanted, hcalc]
  have hguard : s.KeepsPool (.fill time clock room) ↔ n ≤ room := by
    simp [KeepsPool, hrunning, hwanted]
  rcases hcases with ⟨rfl, rfl⟩ |
    ⟨result, requests, b, hrequests, hsender, hring, _, _, _, hphase'⟩
  · refine ⟨⟨hk.parameter.trans hs.parameter, hk.ring ▸ hs.userData, hk.ring ▸ hs.last,
      fun _ => hk.ring ▸ hs.announced hgoing⟩, fun _ hpart => ?_⟩
    refine ⟨fun _ => hguard.mpr (Nat.zero_le _), fun _ => hpart.of_perm (.of_eq ?_)⟩
    simp only [pool, heldBuffers, hk.packetBuffer, hk.ring]
  · have hzc : t.zerocopy = true := (zerocopy_eq hk.parameter).trans (hs.zerocopy hmode)
    simp only [submitRequests, hzc, ↓reduceIte, hk.packetBuffer] at hrequests
    obtain ⟨_, _, _, hdata, lost, hpool, hlost⟩ := IoUringSend.submitZc_ok hrequests
    rw [hk.ring] at hring
    refine ⟨⟨?_, ?_, ?_, fun _ => ?_⟩, fun hg hpart => ?_⟩
    · rw [hsender]
      exact hk.parameter.trans hs.parameter
    · intro q hq
      rw [hring] at hq
      simp only [SendRing.requests, SendRing.push, List.mem_append] at hq
      rcases hq with (((hsq | hnew) | hlive) | hnotifying) | hcq
      · exact hs.userData q (by simp [SendRing.requests, hsq])
      · exact hdata q hnew
      · exact hs.userData q (by simp [SendRing.requests, hlive])
      · exact hs.userData q (by simp [SendRing.requests, hnotifying])
      · exact hs.userData q (List.mem_append_right _ hcq)
    · rw [hring]
      exact hs.last
    · rw [hring]
      exact hs.announced hgoing
    · have hperm := push_perm hpool (by rw [hsender]) hring
      have hok : result = .ok () := by
        rcases hphase' with ⟨hok, _⟩ | ⟨e, hfailed⟩
        · exact hok
        · exact absurd hfailed (hg _)
      rw [hpart.iff_nil hperm, hguard, hlost hok]

theorem Paired.take {n : Nat} (hs : s.Paired p) (h : s.step (.take n) = .ok s') :
    s'.Paired p ∧ (s.Partitioned p → s'.Partitioned p) := by
  obtain ⟨_, rfl⟩ := step_take h
  refine ⟨⟨hs.parameter, ?_, hs.last, hs.announced⟩, fun hpart => ?_⟩
  · intro q hq
    apply hs.userData q
    simp only [SendRing.requests, SendRing.take, List.mem_append] at hq ⊢
    rcases hq with ((hsq | hlive | htaken) | hnotifying) | hcq
    · exact .inl (.inl (.inl (List.mem_of_mem_drop hsq)))
    · exact .inl (.inl (.inr hlive))
    · exact .inl (.inl (.inl (List.mem_of_mem_take htaken)))
    · exact .inl (.inr hnotifying)
    · exact .inr hcq
  · exact hpart.of_perm (((s.ring.take_held n).map SendRequest.buffer).append_left s.pool)

theorem Paired.post {c : SendCqe} (hs : s.Paired p) (h : s.step (.post c) = .ok s') :
    s'.Paired p ∧ (s.Partitioned p → s'.Partitioned p) := by
  obtain ⟨hposts, _, rfl⟩ := step_post h
  refine ⟨⟨hs.parameter, fun q hq => hs.userData q (SendRing.mem_requests_post hposts hq), ?_, ?_⟩,
    fun hpart => hpart.of_perm
      (((SendRing.post_held hposts).map SendRequest.buffer).append_left s.pool)⟩
  · intro d hd hnotif
    rw [SendRing.post_cq] at hd
    rcases List.mem_append.mp hd with hold | hnew
    · exact hs.last d hold hnotif
    · obtain rfl := List.mem_singleton.mp hnew
      simp only [SendRing.Posts, hnotif, ↓reduceIte] at hposts
      exact hposts.2
  · intro hgoing d hd hnotif hmore
    rw [SendRing.post_cq] at hd ⊢
    cases hn : c.notif with
    | true =>
      rcases List.mem_append.mp hd with hmem | hnew
      · rw [SendRing.post_notif hn]
        -- The notification may be the one that `d` has announced.
        rcases hs.announced hgoing d hmem hnotif hmore with hwaiting | ⟨e, he, hlast⟩
        · by_cases heq : d.request = c.request
          · exact .inr ⟨c, by simp, hn, heq.symm⟩
          · exact .inl ((List.mem_erase_of_ne heq).mpr hwaiting)
        · exact .inr ⟨e, by simp [he], hlast⟩
      · obtain rfl := List.mem_singleton.mp hnew
        cases hn.symm.trans hnotif
    | false =>
      rw [SendRing.post_data hn]
      rcases List.mem_append.mp hd with hmem | hnew
      · rcases hs.announced hgoing d hmem hnotif hmore with hwaiting | ⟨e, he, hlast⟩
        · exact .inl (by split <;> simp [hwaiting])
        · exact .inr ⟨e, by simp [he], hlast⟩
      · obtain rfl := List.mem_singleton.mp hnew
        exact .inl (by simp [hmore])

theorem Paired.enter {result : EnterResult} (hs : s.Paired p)
    (h : s.step (.enter result) = .ok s') :
    s'.Paired p ∧ (s.Partitioned p → s'.Partitioned p) := by
  obtain ⟨n, hphase, h⟩ := step_enter h
  have hgoing : s.Going := .of_phase hphase (by simp)
  obtain ⟨hring, _, _, hcases⟩ := enter_ok h
  have hsender : s'.sender.parameter = s.sender.parameter ∧
      s'.sender.packetBuffer = s.sender.packetBuffer := by
    rcases hcases with ⟨_, hsender⟩ | ⟨_, _, hsender, _⟩
    · exact ⟨by rw [hsender], by rw [hsender]⟩
    · exact ⟨by rw [hsender], by rw [hsender]⟩
  refine ⟨⟨hsender.1.trans hs.parameter, hring ▸ hs.userData, hring ▸ hs.last,
    fun _ => hring ▸ hs.announced hgoing⟩, fun hpart => hpart.of_perm (.of_eq ?_)⟩
  simp only [pool, heldBuffers, hsender.2, hring]

/-- The handler returns the buffer of every last completion, and of an EAGAIN
that is not the last one. -/
theorem Paired.returned_iff {c : SendCqe} (hs : s.Paired p) (hc : c ∈ s.ring.cq) :
    c.returned = true ↔ c.notif = true ∨ c.result = -11 := by
  cases hn : c.notif with
  | true =>
    obtain ⟨hmore, hresult⟩ := hs.last c hc hn
    have hreleased : c.released = true := by
      simp [SendCqe.released, checkMultishotStatus, hmore, hn]
    simp [SendCqe.returned, hreleased, hresult.symm]
  | false => simp [SendCqe.returned, SendCqe.released, hn]

/-- The buffers of a part of the queue. -/
def reportedBuffers (cq : List SendCqe) : List Nat := cq.map (fun c => c.request.buffer)

/-- A batch whose EAGAINs are not the last completions of their requests would
return a buffer twice. -/
theorem Paired.not_again {kept : List Nat} (hs : s.Paired p) (hgoing : s.Going)
    (hkept : ∀ q ∈ s.ring.notifying, q.buffer ∈ kept)
    (hnodup : (s.pool ++ reportedBuffers (s.ring.cq.filter SendCqe.returned) ++ kept).Nodup)
    {c : SendCqe} (hc : c ∈ s.ring.cq) (hn : c.notif = false) (hmore : c.cqe.more = true) :
    c.result ≠ -11 := by
  intro hresult
  obtain ⟨hreturned, _, hdisjoint⟩ := List.nodup_append.mp hnodup
  obtain ⟨_, hreturned, _⟩ := List.nodup_append.mp hreturned
  have hret : c ∈ s.ring.cq.filter SendCqe.returned :=
    List.mem_filter.mpr ⟨hc, (hs.returned_iff hc).mpr (.inr hresult)⟩
  rcases hs.announced hgoing c hc hn hmore with hwaiting | ⟨d, hd, hdn, hsame⟩
  · exact hdisjoint _ (List.mem_append_right _ (List.mem_map_of_mem hret)) _
      (hkept _ hwaiting) rfl
  · have hret' : d ∈ s.ring.cq.filter SendCqe.returned :=
      List.mem_filter.mpr ⟨hd, (hs.returned_iff hd).mpr (.inl hdn)⟩
    obtain rfl := List.inj_on_of_nodup_map hreturned hret' hret (by rw [hsame])
    cases hdn.symm.trans hn

/-- Then only last completions return a buffer. -/
theorem Paired.returned_last (hs : s.Paired p)
    (hagain : ∀ c ∈ s.ring.cq, c.notif = false → c.cqe.more = true → c.result ≠ -11)
    {c : SendCqe} (hc : c ∈ s.ring.cq) (hret : c.returned = true) : c.cqe.more = false := by
  cases hmore : c.cqe.more with
  | false => rfl
  | true =>
    cases hn : c.notif with
    | true => cases (hs.last c hc hn).1.symm.trans hmore
    | false =>
      rcases (hs.returned_iff hc).mp hret with hnotif | hresult
      · cases hnotif.symm.trans hn
      · exact absurd hresult (hagain c hc hn hmore)

/-- What the handler returns for a batch is what the batch releases exactly if
every EAGAIN, and no other data completion, is the last one of its request. -/
theorem Paired.released_iff (hs : s.Paired p) (hgoing : s.Going) (kept : List Nat)
    (hkept : ∀ q ∈ s.ring.notifying, q.buffer ∈ kept)
    (hpart : (s.pool ++ (kept ++ reportedBuffers (s.ring.cq.filter (fun c => !c.cqe.more)))).Perm
      (List.range p.packetBufferSize)) :
    (s.pool ++ reportedBuffers (s.ring.cq.filter SendCqe.returned) ++ kept).Perm
        (List.range p.packetBufferSize) ↔
      ∀ c ∈ s.ring.cq, c.notif = false → (c.cqe.more = true ↔ c.result ≠ -11) := by
  constructor
  · intro hpart'
    obtain ⟨_, hlast, hpool⟩ := List.nodup_append.mp (hpart.nodup_iff.mpr List.nodup_range)
    obtain ⟨_, hlast, hdisjoint⟩ := List.nodup_append.mp hlast
    have hagain : ∀ c ∈ s.ring.cq, c.notif = false → c.cqe.more = true → c.result ≠ -11 :=
      fun c => hs.not_again hgoing hkept (hpart'.nodup_iff.mpr List.nodup_range)
    intro c hc hn
    refine ⟨hagain c hc hn, fun hresult => ?_⟩
    cases hmore : c.cqe.more with
    | true => rfl
    | false =>
      -- Its buffer is released, so the handler must have returned it.
      have hfinal : c ∈ s.ring.cq.filter (fun c => !c.cqe.more) :=
        List.mem_filter.mpr ⟨hc, by simp [hmore]⟩
      have hmem : c.request.buffer ∈ reportedBuffers (s.ring.cq.filter (fun c => !c.cqe.more)) :=
        List.mem_map_of_mem hfinal
      have hplace := hpart'.mem_iff.mpr
        (hpart.mem_iff.mp (List.mem_append_right _ (List.mem_append_right _ hmem)))
      rcases List.mem_append.mp hplace with hplace | hplace
      · rcases List.mem_append.mp hplace with hplace | hplace
        · exact absurd rfl (hpool _ hplace _ (List.mem_append_right _ hmem))
        · obtain ⟨d, hd, hsame⟩ := List.mem_map.mp hplace
          obtain ⟨hd, hdret⟩ := List.mem_filter.mp hd
          have hdmore := hs.returned_last hagain hd hdret
          have hdfinal : d ∈ s.ring.cq.filter (fun c => !c.cqe.more) :=
            List.mem_filter.mpr ⟨hd, by simp [hdmore]⟩
          obtain rfl := List.inj_on_of_nodup_map hlast hdfinal hfinal hsame
          rcases (hs.returned_iff hd).mp hdret with hdn | hdresult
          · cases hdn.symm.trans hn
          · exact absurd hdresult hresult
      · exact absurd rfl (hdisjoint _ hplace _ hmem)
  · intro hguard
    have hsame : s.ring.cq.filter SendCqe.returned =
        s.ring.cq.filter (fun c => !c.cqe.more) := by
      apply List.filter_congr
      intro c hc
      rw [Bool.eq_iff_iff, hs.returned_iff hc]
      cases hn : c.notif with
      | true => simp [(hs.last c hc hn).1]
      | false =>
        have := hguard c hc hn
        cases hmore : c.cqe.more <;> simp_all
    rw [hsame]
    apply List.Perm.trans ?_ hpart
    rw [List.append_assoc]
    exact List.perm_append_comm.append_left _

theorem Paired.complete (hmode : p.uringParameter.uringMode = .zerocopy) (hs : s.Paired p)
    (h : s.step .complete = .ok s') :
    s'.Paired p ∧ (s'.Going → s.Partitioned p → (s'.Partitioned p ↔ s.KeepsPool .complete)) := by
  obtain ⟨hphase, h⟩ := step_complete h
  have hgoing : s.Going := .of_phase hphase (by simp)
  obtain ⟨hk, _, _, front, rest, hcq, hring, hcases⟩ := complete_ok h
  have hrest : ∀ c ∈ rest, c ∈ s.ring.cq := by
    intro c hc
    simp [hcq, hc]
  refine ⟨⟨hk.parameter.trans hs.parameter, ?_, ?_, fun hg => ?_⟩, fun hg hpart => ?_⟩
  · intro q hq
    apply hs.userData q
    rw [hring] at hq
    simp only [SendRing.requests, List.mem_append, List.mem_map] at hq ⊢
    rcases hq with hq | ⟨c, hc, rfl⟩
    · exact .inl hq
    · exact .inr ⟨c, hrest c hc, rfl⟩
  · rw [hring]
    exact fun c hc => hs.last c (hrest c hc)
  · rcases hcases with ⟨_, rfl⟩ | ⟨e, hfailed⟩
    · rw [hring]
      simp
    · exact absurd hfailed (hg _)
  · rcases hcases with ⟨hfill, rfl⟩ | ⟨e, hfailed⟩
    · have hbuffer := complete_pool (hs.zerocopy hmode) h hfill
      have huser : (s.ring.cq.filter SendCqe.returned).map SendCqe.userData =
          reportedBuffers (s.ring.cq.filter SendCqe.returned) := by
        apply List.map_congr_left
        intro c hc
        apply hs.userData c.request (List.mem_append_right _ (List.mem_map_of_mem ?_))
        exact (List.mem_filter.mp hc).1
      have hiff := hs.released_iff hgoing
        ((s.ring.sq ++ s.ring.live ++ s.ring.notifying).map SendRequest.buffer)
        (fun q hq => List.mem_map_of_mem (by simp [hq])) ?_
      · rw [← huser] at hiff
        rw [KeepsPool, ← hiff, Partitioned, pool, hbuffer, heldBuffers, hring]
        simp [SendRing.held, PacketBuffer.returnBufferIndex, pool]
      · simpa [Partitioned, heldBuffers, SendRing.held, reportedBuffers, Function.comp_def] using
          hpart
    · exact absurd hfailed (hg _)

theorem Paired.step {e : SenderEvent} (hmode : p.uringParameter.uringMode = .zerocopy)
    (hs : s.Paired p) (h : s.step e = .ok s') :
    s'.Paired p ∧ (s'.Going → s.Partitioned p → (s'.Partitioned p ↔ s.KeepsPool e)) := by
  cases e with
  | fill time clock room => exact hs.fill hmode h
  | take n =>
    obtain ⟨hs', hkeeps⟩ := hs.take h
    exact ⟨hs', fun _ hpart => ⟨fun _ => trivial, fun _ => hkeeps hpart⟩⟩
  | post c =>
    obtain ⟨hs', hkeeps⟩ := hs.post h
    exact ⟨hs', fun _ hpart => ⟨fun _ => trivial, fun _ => hkeeps hpart⟩⟩
  | enter result =>
    obtain ⟨hs', hkeeps⟩ := hs.enter h
    exact ⟨hs', fun _ hpart => ⟨fun _ => trivial, fun _ => hkeeps hpart⟩⟩
  | complete => exact hs.complete hmode h

theorem Paired.start {clock : Clock} {testId : Nat} {sd : Sender} (clock' : Clock)
    (startTime : Timestamp) (hnew : Sender.new clock testId p = .ok sd) :
    (start clock' startTime sd).Paired p ∧ (start clock' startTime sd).Partitioned p := by
  obtain ⟨hparameter, _, hpool, _⟩ := Sender.new_pool hnew
  refine ⟨⟨hparameter, ?_, ?_, ?_⟩, .of_eq ?_⟩
  · simp [SenderLoop.start, SendRing.create, SendRing.requests]
  · simp [SenderLoop.start, SendRing.create]
  · simp [SenderLoop.start, SendRing.create]
  · simp [pool, heldBuffers, SendRing.held, SenderLoop.start, SendRing.create, hpool]

end SenderLoop

/-- The zero-copy loop has every buffer once, in its pool or with a request,
exactly as long as no push fails and the data completions that announce no
notification are those with EAGAIN. -/
theorem zerocopy_partition_iff (clock clock' : Clock) (testId : Nat) (p : Parameter) (sd : Sender)
    (hnew : Sender.new clock testId p = .ok sd) (hmode : p.uringParameter.uringMode = .zerocopy)
    (startTime : Timestamp) (events : List SenderEvent) (s : SenderLoop)
    (hrun : run SenderLoop.step (.start clock' startTime sd) events = .ok s) (hgoing : s.Going) :
    Always SenderLoop.step (SenderLoop.Partitioned p) (.start clock' startTime sd) events ↔
      Guarded SenderLoop.step SenderLoop.KeepsPool (.start clock' startTime sd) events := by
  obtain ⟨hs, hpart⟩ := SenderLoop.Paired.start clock' startTime hnew
  constructor
  · exact guarded_of_always SenderLoop.Going (fun _ _ _ h hg => hg.back h)
      (fun _ _ _ hs _ h => (hs.step hmode h).1)
      (fun _ _ _ hs hp hg h => ((hs.step hmode h).2 hg hp).mp) hs hrun hgoing
  · exact always_of_guarded SenderLoop.Going (fun _ _ _ h hg => hg.back h)
      (fun _ _ _ hs _ h => (hs.step hmode h).1)
      (fun _ _ _ hs hp hg h => ((hs.step hmode h).2 hg hp).mpr) hs hpart hrun hgoing

theorem zerocopy_partition_refused :
    let sd := (Sender.new ⟨0, 0⟩ 7 (.oneSend .zerocopy)).toOption.get (by decide)
    let first : SendRequest := .packet 3 3 0
    let second : SendRequest := .packet 2 2 1
    let events : List SenderEvent :=
      [.fill ⟨0, 0⟩ ⟨0, 0⟩ 1, .take 1, .enter .submitted, .post ⟨first, 24, 2⟩, .complete,
        .fill ⟨0, 0⟩ ⟨0, 0⟩ 1, .take 1, .enter .submitted, .post ⟨second, -11, 0⟩,
        .post ⟨first, 0, 8⟩, .complete]
    Always SenderLoop.step (SenderLoop.Partitioned (.oneSend .zerocopy)) (.start ⟨0, 0⟩ 0 sd)
      events := by
  intro sd first second events
  obtain ⟨s, hrun, hphase⟩ := checked (p := fun s => s.phase = .fill)
    (x := run SenderLoop.step (.start ⟨0, 0⟩ 0 sd) events) (by decide +kernel)
  exact (zerocopy_partition_iff ⟨0, 0⟩ ⟨0, 0⟩ 7 (.oneSend .zerocopy) sd rfl rfl 0 events s hrun
    (.of_phase hphase (by simp))).mpr (by decide +kernel)

/-- Three ways to break it: a push that fails, a message that is sent without a
notification, and a refused one that has announced a notification. -/
theorem zerocopy_partition_broken :
    let sd := (Sender.new ⟨0, 0⟩ 7 (.oneSend .zerocopy)).toOption.get (by decide)
    let request : SendRequest := .packet 3 3 0
    (∃ s, run SenderLoop.step (.start ⟨0, 0⟩ 0 sd)
          [.fill ⟨0, 0⟩ ⟨0, 0⟩ 0, .enter .submitted, .complete] = .ok s ∧
        s.phase = .fill ∧ s.pool = [0, 1, 2] ∧ s.heldBuffers = [] ∧
        ¬s.Partitioned (.oneSend .zerocopy)) ∧
      (∃ s, run SenderLoop.step (.start ⟨0, 0⟩ 0 sd)
          [.fill ⟨0, 0⟩ ⟨0, 0⟩ 1, .take 1, .enter .submitted, .post ⟨request, 24, 0⟩, .complete] =
            .ok s ∧
        s.phase = .fill ∧ s.pool = [0, 1, 2] ∧ s.heldBuffers = [] ∧
        ¬s.Partitioned (.oneSend .zerocopy)) ∧
      ∃ s, run SenderLoop.step (.start ⟨0, 0⟩ 0 sd)
          [.fill ⟨0, 0⟩ ⟨0, 0⟩ 1, .take 1, .enter .submitted, .post ⟨request, -11, 2⟩, .complete] =
            .ok s ∧
        s.phase = .fill ∧ s.pool = [0, 1, 2, 3] ∧ s.heldBuffers = [3] ∧
        ¬s.Partitioned (.oneSend .zerocopy) :=
  ⟨checked (by decide +kernel), checked (by decide +kernel), checked (by decide +kernel)⟩

end Nperf
