import Nperf.Proofs.Losses

namespace Nperf
open Rust Bytes Runs

namespace Books
variable {build : Build} {b : Books} {closed : List Counters} {ms : List Message} {f : Fault}

/-- Balanced books fail on one kind of batch only: LAST of a test they have
never heard of. -/
theorem receive_fault_iff (hb : Balanced b closed) (hsane : ∀ m ∈ ms, Sane m)
    (hids : ∀ id ∈ ms.flatMap Message.ids, id < 2 ^ 63) :
    b.receive build ms = .error f ↔ f = .unwrap ∧
      ∃ m rest, ms = m :: rest ∧ m.mtype = .last ∧ b.tests.length ≤ m.testId := by
  cases ms with
  | nil => simp [receive]
  | cons m rest =>
    have ht := (hsane m List.mem_cons_self).test
    have hother : m.mtype ≠ .last → ¬(f = .unwrap ∧ ∃ m' rest', m :: rest = m' :: rest' ∧
        m'.mtype = .last ∧ b.tests.length ≤ m'.testId) := by
      rintro hm ⟨_, m', rest', heq, hlast, _⟩
      cases heq
      exact hm hlast
    cases hm : m.mtype with
    | init =>
      rw [receive_init hm ht]
      exact iff_of_false (by simp) (hother (by simp [hm]))
    | measurement =>
      rw [(hb.receive build hm ht hids).1]
      exact iff_of_false (by simp) (hother (by simp [hm]))
    | last =>
      by_cases hknown : m.testId < b.tests.length
      · rw [receive_last hm ht hknown]
        refine iff_of_false (by simp) ?_
        rintro ⟨_, m', rest', heq, _, hle⟩
        cases heq
        omega
      · have hle := Nat.not_lt.mp hknown
        simp only [receive, parse, hm]
        rw [if_neg (Nat.not_le.mpr ht), if_pos hle]
        constructor
        · intro h
          cases h
          exact ⟨rfl, m, rest, rfl, hm, hle⟩
        · rintro ⟨rfl, _⟩
          rfl

end Books

namespace Receiver
variable {build : Build} {clock : Clock} {p : Parameter} {r : Receiver} {f : Fault}

theorem entered_error {x : Except Fault (Except Error Unit × Receiver)}
    {y : Except Fault (Except Error Unit × Books)} (h : x.map entered = y) :
    x = .error f ↔ y = .error f := by
  subst h
  cases x with
  | ok v => exact iff_of_false (by simp) (by simp [Except.map])
  | error e => simp [Except.map]

/-- A receive call fails as its books do. -/
theorem Listens.recvMessages_fault (hr : r.Listens p) (hmode : p.exchangeFunction ≠ .normal)
    {socket : Socket} {ms : List Message} {statistic : Statistic}
    (hread : ((ReceiverRun.receiving r statistic).arrivals (.receive clock socket)).mapM
      Delivery.read = some ms)
    (hlen : ((ReceiverRun.receiving r statistic).arrivals (.receive clock socket)).length ≤
      p.packetBufferSize)
    (hfit : ∀ d ∈ (ReceiverRun.receiving r statistic).arrivals (.receive clock socket),
      d.payload.length ≤ p.mss) :
    r.recvMessages build clock socket = .error f ↔ r.books.receive build ms = .error f := by
  obtain ⟨hprepared, hbooks, _⟩ := hr.prepared
  have hnone : r.books.receive build [] ≠ .error f := by simp [Books.receive]
  unfold Receiver.recvMessages
  simp only [ReceiverRun.arrivals] at hread hlen hfit
  cases hfunction : r.exchangeFunction with
  | normal => exact absurd (hr.function ▸ hfunction) hmode
  | msg =>
    rw [hfunction] at hread hlen hfit
    cases hmessage : socket.message with
    | error e =>
      rw [hmessage] at hread
      cases hread
      obtain ⟨h, hh, _⟩ := hprepared.sound.msghdr_ok hr.nonempty
      refine iff_of_false ?_ hnone
      simp [recvmsg, msghdr, hh, ok_bind]
    | ok d =>
      rw [hmessage] at hread hlen hfit
      obtain ⟨m, rest, hm, hrest, rfl⟩ := mapM_read_cons.mp hread
      cases hrest
      exact hbooks ▸ entered_error (recvmsg_books hprepared.sound hr.nonempty hm
        (hfit d List.mem_cons_self) build clock)
  | mmsg =>
    rw [hfunction] at hread hlen hfit
    cases hbatch : socket.batch with
    | error e =>
      rw [hbatch] at hread
      cases hread
      exact iff_of_false (by simp [recvmmsg]) hnone
    | ok ds =>
      rw [hbatch] at hread hlen hfit
      exact hbooks ▸ entered_error (recvmmsg_books hprepared.sound hread hlen hfit build clock)

end Receiver

/-- A message that is LAST of some test. -/
theorem Message.Says.last_iff {m : Message} {part : List Memory} (h : m.Says part) {testId : Nat}
    (ht : testId < maxTestId) :
    m.mtype = .last ∧ m.testId = testId ↔ part = [controlDatagram .last testId] := by
  cases h with
  | control mtype u hm hu =>
    have hbound : ∀ {t}, t < maxTestId → t < 2 ^ 64 := fun ht => Nat.lt_trans ht (by decide)
    constructor
    · rintro ⟨rfl, rfl⟩
      rfl
    · intro h
      exact controlDatagram_inj (hbound hu) (hbound ht) (List.singleton_inj.mp h)
  | data u bytes x xs ids hu hx hall hids =>
    refine iff_of_false (fun h => by cases h.1) ?_
    intro h
    have hd := (hall x List.mem_cons_self).1
    rw [(List.cons.inj h).1, isData_controlDatagram (by simp)] at hd
    cases hd

namespace Session
variable {build : Build} {plans : List Plan} {post : Post} {events : List SessionEvent}
  {wire : List (Nat × Memory)} {s : Session}

theorem Follows.arrives_small (h : Follows plans post events wire s)
    (hnext : ∀ sender ∈ s.senders, sender.sender.nextPacketId ≤ 2 ^ 63)
    {datagrams : List (List Memory)} (hle : (datagrams.flatten : Multiset Memory) ≤ s.network) :
    Small datagrams := by
  intro x hx hd
  obtain ⟨i, plan, sender, _, hsender, hmem, htrace⟩ := h.sender
    (h.accounted.inFlight_origin (Multiset.mem_of_le hle (Multiset.mem_coe.mpr hx)))
  exact Nat.lt_of_lt_of_le (htrace.data hmem hd).2 (hnext sender (List.mem_of_getElem? hsender))

theorem take_eq {network xs : Multiset Memory} (h : xs ≤ network) :
    Channel.take network xs = some (network - xs) := if_pos h

/-- What the receive call fails on, in terms of what arrives. -/
theorem Measured.fault_iff (h : Measured plans post events wire s)
    (hnext : ∀ sender ∈ s.senders, sender.sender.nextPacketId ≤ 2 ^ 63) {r : Receiver}
    {statistic : Statistic} (hr : s.receiver = .receiving r statistic) {clock : Clock}
    {socket : Receiver.Socket} {datagrams : List (List Memory)}
    (harrives : s.receiver.Arrives (.receive clock socket) datagrams)
    (hle : (datagrams.flatten : Multiset Memory) ≤ s.network) {f : Fault} :
    r.recvMessages build clock socket = .error f ↔ f = .unwrap ∧
      ∃ testId < maxTestId, datagrams.head? = some [controlDatagram .last testId] ∧
        r.measurements.length ≤ testId := by
  obtain ⟨ms, hreads, hspoken, _, hlen, hfit⟩ := h.follows.arrives harrives (take_eq hle)
  obtain ⟨closed, hbalanced, _⟩ := h.balanced (h.follows.small hnext)
  have hlistens : r.Listens post.parameter := by
    have hall := h.follows.listens
    rw [hr] at hall
    exact hall
  rw [hr] at hreads hlen hfit
  replace hbalanced : Balanced r.books closed := by
    rw [hr] at hbalanced
    exact hbalanced
  rw [hlistens.recvMessages_fault post.sized hreads hlen hfit,
    Books.receive_fault_iff hbalanced (said_sane hspoken)
      (said_ids hspoken (h.follows.arrives_small hnext hle))]
  have hlength : r.books.tests.length = r.measurements.length := List.length_map _
  simp only [hlength]
  apply and_congr_right
  intro _
  cases hspoken with
  | nil => simp
  | @cons m part ms datagrams hsay _ =>
    constructor
    · rintro ⟨m', rest, heq, hlast, hunknown⟩
      cases heq
      have ht := hsay.sane.test
      exact ⟨m.testId, ht, congrArg some ((hsay.last_iff ht).mp ⟨hlast, rfl⟩), hunknown⟩
    · rintro ⟨testId, ht, hhead, hunknown⟩
      obtain ⟨hlast, rfl⟩ := (hsay.last_iff ht).mpr (Option.some.inj hhead)
      exact ⟨m, ms, rfl, hlast, hunknown⟩

end Session

/-- A receive call of a session panics in one case only: the first message it
is given is LAST of a test of which nothing has come before. -/
theorem session_fault_iff (build : Build) (plans : List Plan) (post : Post)
    (events : List SessionEvent) (s : Session)
    (hrun : run (Session.step build) (Session.start plans post) events = .ok s)
    (hnext : ∀ sender ∈ s.senders, sender.sender.nextPacketId ≤ 2 ^ 63) (clock : Clock)
    (socket : Receiver.Socket) (datagrams : List (List Memory)) (r : Receiver)
    (statistic : Statistic) (hr : s.receiver = .receiving r statistic)
    (harrives : s.receiver.Arrives (.receive clock socket) datagrams)
    (hle : (datagrams.flatten : Multiset Memory) ≤ s.network) (f : Fault) :
    s.step build (.receive (.receive clock socket) datagrams) = .error (.fault f) ↔
      f = .unwrap ∧ ∃ testId < maxTestId,
        datagrams.head? = some [controlDatagram .last testId] ∧ r.measurements.length ≤ testId := by
  rw [← (Session.run_measured hrun).fault_iff hnext hr harrives hle]
  have hstep : s.receiver.step build (.receive clock socket) =
      ReceiverRun.lift (r.recvMessages build clock socket >>= fun v =>
        .ok (ReceiverRun.received v.2 statistic v.1)) := by
    rw [hr]
    rfl
  simp only [Session.step]
  rw [if_pos harrives, Session.take_eq hle, hstep]
  cases r.recvMessages build clock socket with
  | error e => simp [Session.enabled, ReceiverRun.lift, ok_bind, error_bind]
  | ok v => simp [Session.enabled, ReceiverRun.lift, ok_bind]

/-- A sender without a packet to send, whose INIT is lost. -/
def Session.initLost : List SessionEvent :=
  (.start ⟨0, 0⟩ ⟨0, 0⟩ (.ok ()) (.ok ()) :: endOfTest).map (.send 0) ++
    [.network (.lose (controlDatagram .init 0)),
      .receive (.poll ⟨0, 0⟩ ⟨0, 0⟩ .ready (.ok ())) [], .receive (.check ⟨0, 0⟩) []]

theorem session_fault_unknown :
    let start := Session.start [.headersOnly] .headersOnly
    ∃ s, run (Session.step .release) start Session.initLost = .ok s ∧
      s.step .release (.receive (.receive ⟨0, 0⟩ ⟨.ok (.packet .last 0 0), .ok []⟩)
        [[controlDatagram .last 0]]) = .error (.fault .unwrap) := by
  intro start
  obtain ⟨s, hrun, hnext, harrives, hle, hunknown⟩ := checked
    (x := run (Session.step .release) start Session.initLost)
    (p := fun s => (∀ sender ∈ s.senders, sender.sender.nextPacketId ≤ 2 ^ 63) ∧
      s.receiver.Arrives (.receive ⟨0, 0⟩ ⟨.ok (.packet .last 0 0), .ok []⟩)
        [[controlDatagram .last 0]] ∧
      ([[controlDatagram .last 0]].flatten : Multiset Memory) ≤ s.network ∧
      s.receiver.receiver.measurements.length ≤ 0) (by decide +kernel)
  refine ⟨s, hrun, ?_⟩
  cases hr : s.receiver with
  | receiving r statistic =>
    rw [hr] at hunknown
    exact (session_fault_iff .release [.headersOnly] .headersOnly _ s hrun hnext ⟨0, 0⟩ _ _ r
      statistic hr harrives hle .unwrap).mpr ⟨rfl, 0, by decide, rfl, hunknown⟩
  | _ =>
    rw [hr] at harrives
    cases harrives.1

end Nperf
