import Nperf.Ledger.Sweep
import Nperf.Proofs.Agreement

namespace Nperf
open Rust Bytes

/-- A data message of a test, in a datagram without control data. -/
structure Delivery.Single (p : Parameter) (testId : Nat) (d : Delivery) : Prop where
  datagram : Datagram testId d.payload
  fits : d.payload.length ≤ p.mss
  control : d.control = []
  id : packetId d.payload < 2 ^ 63

/-- Two receivers get the same messages, one by `recv` and one by `recvmsg`.
After each of them they expect the same packet, and have counted the same for
the test. -/
def Receiver.CountAlike (build : Build) (testId : Nat) :
    Receiver → Receiver → List (Clock × Delivery) → Prop
  | _, _, [] => True
  | r, r', (clock, d) :: ds =>
    ∃ result s result' s', r.recv build clock (.ok d) = .ok (result, s) ∧
      r'.recvmsg build clock (.ok d) = .ok (result', s') ∧
      s.nextPacketId = s'.nextPacketId ∧
      s.books.countersOf testId = s'.books.countersOf testId ∧ CountAlike build testId s s' ds

namespace Counters

/-- What `recv` counts for a message of `bytes` bytes: all that is in its
buffer. -/
def whole (build : Build) (buffer : Slice) (size bytes next : Nat) (c : Counters) :
    Except Fault (Nat × Counters) := do
  let packets ← buffer.chunks size
  let (amount, c) ← sweep build next packets 0 c
  let next ← build.u64 ((next : Int) + amount)
  .ok (next, c.count amount bytes)

/-- What `recvmsg` counts for a message of one packet. -/
def single (build : Build) (id bytes next : Nat) (c : Counters) :
    Except Fault (Nat × Counters) := do
  let (next, c) ← c.arrive build id next
  .ok (next, c.count 1 bytes)

/-- Both count the same exactly if the buffer is one packet and it is the
expected one. -/
theorem whole_single_iff {p : Parameter} (hd : 0 < p.datagramSize) (hmss : p.mss < 2 ^ 32)
    (hheader : 24 ≤ p.mss) {mem : Memory} (hmem : mem.length = p.mss) {id : Nat}
    (hid : load mem 16 8 = id) (hrange : id < 2 ^ 63) (build : Build) (bytes next : Nat)
    (c : Counters) :
    (∃ next' c', whole build ⟨mem, 0, p.mss⟩ p.datagramSize bytes next c = .ok (next', c') ∧
        single build id bytes next c = .ok (next', c')) ↔
      p.mss ≤ p.datagramSize ∧ id = next := by
  have hslots : 0 < p.slots := by
    apply Nat.pos_of_ne_zero
    intro hnone
    have := (Parameter.slots_eq_zero_iff hd).mp hnone
    omega
  have hle := Parameter.slots_le hd
  rw [← Parameter.slots_eq_one_iff hd hslots]
  constructor
  · rintro ⟨next', c', hwhole, hsingle⟩
    simp only [whole, bind_ok] at hwhole
    obtain ⟨packets, hpackets, ⟨amount, c₁⟩, hsweep, n₁, hn₁, hwhole⟩ := hwhole
    cases hwhole
    simp only [single, arrive, bind_ok] at hsingle
    obtain ⟨⟨n₂, c₂⟩, ⟨⟨increment, c₃⟩, hverdict, n₃, hn₃, harrive⟩, hsingle⟩ := hsingle
    cases harrive
    simp only [Except.ok.injEq, Prod.mk.injEq, count, Counters.mk.injEq] at hsingle
    obtain ⟨rfl, hdatagrams, _, _, hduplicated, homitted⟩ := hsingle
    have hlength : packets.length = p.slots := by
      rw [Slice.chunks, if_neg (Nat.ne_of_gt hd)] at hpackets
      cases hpackets
      simp only [List.length_map, List.length_range]
      rfl
    obtain ⟨⟨z₁, hz₁⟩, hc₁⟩ := sweep_wraps hsweep
    obtain ⟨z₂, hz₂⟩ := verdict_wraps hverdict
    have hc₃ := verdict_counted hverdict
    obtain ⟨z₃, hz₃⟩ := u64_wraps hn₁
    obtain ⟨z₄, hz₄⟩ := u64_wraps hn₃
    -- the sum of the increments is the one datagram that the other side counts
    have hamount : amount = 1 := by omega
    refine ⟨by omega, verdict_expected hrange hverdict ⟨z₃ - z₄, by omega⟩⟩
  · rintro ⟨hone, rfl⟩
    have hcount : (p.mss + p.datagramSize - 1) / p.datagramSize = 1 := hone
    have hbuffer := (Parameter.slots_eq_one_iff hd hslots).mp hone
    have hpacket : MessageHeader.getPacketId ⟨mem, 0, p.mss⟩ = .ok id := by
      rw [MessageHeader.getPacketId_ok _ hheader (by simp only; omega)]
      simp only [Nat.zero_add, hid]
    have hverdict : c.verdict build id id = .ok (1, c) := if_pos rfl
    have hamount := u64_add build (by decide : 0 + 1 < 2 ^ 64)
    have hnext := u64_add build (by omega : id + 1 < 2 ^ 64)
    refine ⟨id + 1, c.count 1 bytes, ?_, ?_⟩
    · simp only [whole, Slice.chunks, if_neg (Nat.ne_of_gt hd), hcount, ok_bind, List.range_one,
        List.map_cons, List.map_nil, Nat.zero_mul, Nat.add_zero, Nat.sub_zero,
        Nat.min_eq_right hbuffer, sweep, List.foldlM_cons, List.foldlM_nil, hpacket, hverdict,
        hamount, pure, Except.pure, hnext]
    · simp only [single, arrive, hverdict, ok_bind, hnext]

end Counters

namespace Books

/-- A test at the limit is refused, whatever is in the message. -/
theorem post_refused {testId : Nat} (ht : maxTestId ≤ testId)
    (count : Nat → Counters → Except Fault (Nat × Counters)) (b : Books) :
    b.post .measurement testId count = .ok (.error .testIdTooGreat, b) := by
  simp only [post, parse]
  rw [if_pos ht]
  rfl

/-- Below it the message is counted. -/
theorem post_counted {testId : Nat} (ht : testId < maxTestId) (b : Books) :
    ∃ entered : Nat → Counters → Books,
      (∀ next c, (entered next c).next = next ∧ (entered next c).countersOf testId = c) ∧
      ∀ count, b.post .measurement testId count =
        (count b.next (b.countersOf testId)).map (fun (next, c) => (.ok (), entered next c)) := by
  have hlt : testId < (start b.tests testId).length := by
    rw [start, List.length_modify, length_grow]
    omega
  obtain ⟨book, hbook⟩ : ∃ book, (start b.tests testId)[testId]? = some book :=
    ⟨_, List.getElem?_eq_getElem hlt⟩
  have hcounters : book.counters = b.countersOf testId := by
    rw [← countersOf_start b testId testId, countersOf, hbook]
    rfl
  refine ⟨fun next c => ⟨next, (start b.tests testId).set testId { book with counters := c }⟩,
    ?_, ?_⟩
  · intro next c
    refine ⟨rfl, ?_⟩
    simp [countersOf, hlt]
  · intro count
    simp only [post, parse]
    rw [if_neg (Nat.not_le.mpr ht)]
    simp only [ok_bind, hbook, hcounters]
    cases count b.next (b.countersOf testId) with
    | error f => rfl
    | ok v => rfl

end Books

namespace Receiver
variable {p : Parameter} {testId : Nat} {d : Delivery} {r : Receiver}

/-- `recv` goes through the whole buffer behind the header of the message. -/
theorem recv_single (hs : r.packetBuffer.Sound p.mss n) (hn : 0 < n) (hd : d.Single p testId)
    (build : Build) (clock : Clock) :
    ∃ mem : Memory, mem.length = p.mss ∧ load mem 16 8 = packetId d.payload ∧
      (r.recv build clock (.ok d)).map entered = r.books.post .measurement testId
        (Counters.whole build ⟨mem, 0, p.mss⟩ r.packetBuffer.datagramSize d.payload.length) := by
  obtain ⟨h, hh, hsound⟩ := hs.msghdr_ok hn
  obtain ⟨_, hbytes⟩ := hsound.deliver_fits hd.fits
  have hfits := hd.fits
  have hheader := hd.datagram.header
  have hmem := (hsound.deliver d).memory
  have hload (off : Nat) (hoff : off + 8 ≤ 24) :
      load (h.deliver d).iovBase off 8 = load d.payload off 8 :=
    hsound.load_deliver hd.fits (by omega)
  refine ⟨(h.deliver d).iovBase, hmem, hload 16 (by omega), ?_⟩
  have hbuffer : PacketBuffer.getBufferPointer { h with iovBase := (h.deliver d).iovBase } =
      .ok ⟨(h.deliver d).iovBase, 0, p.mss⟩ :=
    (hsound.recvFill d).buffer
  have htest : MessageHeader.getTestId ⟨(h.deliver d).iovBase, 0, p.mss⟩ = .ok testId := by
    rw [MessageHeader.getTestId_ok _ (by simp only; omega) (by simp only; omega), Nat.zero_add,
      hload 8 (by omega), hd.datagram.testId]
  have hmtype : MessageHeader.getMessageType ⟨(h.deliver d).iovBase, 0, p.mss⟩ =
      .ok .measurement := by
    apply MessageHeader.getMessageType_ok _ _ (by simp only; omega) (by simp only; omega)
    rw [hload 0 (by omega), hd.datagram.mtype]
  simp only [recv, msghdr, hh, ok_bind, hbuffer, htest, hmtype, Msghdr.receivedBytes] at hbytes ⊢
  refine Eq.trans ?_ (@handle_books clock
    { r with packetBuffer := r.packetBuffer.setMsghdr 0 (recvFill h d) } .measurement testId
    (fun next s => do
      let v ← processPacketBuffer build ⟨(h.deliver d).iovBase, 0, p.mss⟩
        r.packetBuffer.datagramSize next s
      let next ← build.u64 ((next : Int) + v.1)
      .ok (next, v.2.countReceived v.1 d.payload.length)) _ ?_ id (fun _ => rfl))
  · simp only [bind_assoc, ok_bind, hbytes]
    rfl
  · intro next s
    simp only [processPacketBuffer_sweep, Counters.whole]
    cases Slice.chunks ⟨(h.deliver d).iovBase, 0, p.mss⟩ r.packetBuffer.datagramSize with
    | error f => rfl
    | ok packets =>
      simp only [ok_bind]
      cases Counters.sweep build next packets 0 s.counters with
      | error f => rfl
      | ok v =>
        simp only [map_ok, ok_bind]
        cases build.u64 ((next : Int) + v.1) with
        | error f => rfl
        | ok next' => rfl

theorem recvmsg_single (hs : r.packetBuffer.Sound p.mss n) (hn : 0 < n) (hmss : p.mss < 2 ^ 32)
    (hd : d.Single p testId) (build : Build) (clock : Clock) :
    (r.recvmsg build clock (.ok d)).map entered = r.books.post .measurement testId
      (Counters.single build (packetId d.payload) d.payload.length) := by
  have hfits := hd.fits
  have hheader := hd.datagram.header
  have hsegment : d.segment = d.payload.length := by
    simp [Delivery.segment, getGsoSizeFromCmsg, hd.control]
  have hread := Delivery.read_pieces [d.payload] (by simp) (by simp)
    (show Segments.Even d.segment [d.payload] from ⟨by omega, by omega⟩)
    (by simpa using hd.datagram) (by omega)
  rw [recvmsg_books hs hn hread hd.fits build clock, Books.receive_post]
  refine congrArg (fun count => r.books.post .measurement testId count) ?_
  funext next c
  simp only [List.flatMap_cons, List.flatMap_nil, List.append_nil, List.map_cons, List.map_nil,
    List.length_singleton, List.sum_singleton, Counters.arriveAll, Counters.single]
  cases Counters.arrive build (packetId d.payload) next c with
  | error f => rfl
  | ok v => rfl

/-- What `recv` and `recvmsg` make of a message on receivers with the same
books: it is counted in the same entry, or the test is refused. -/
theorem single_books {build : Build} {r' : Receiver} (hr : Reachable build p r)
    (hr' : Reachable build p r') (hbooks : r.books = r'.books) (hmss : p.mss < 2 ^ 32)
    (hd : d.Single p testId) (clock : Clock) :
    ∃ mem : Memory, mem.length = p.mss ∧ load mem 16 8 = packetId d.payload ∧
      (r.recv build clock (.ok d)).map entered = r.books.post .measurement testId
        (Counters.whole build ⟨mem, 0, p.mss⟩ p.datagramSize d.payload.length) ∧
      (r'.recvmsg build clock (.ok d)).map entered = r.books.post .measurement testId
        (Counters.single build (packetId d.payload) d.payload.length) := by
  obtain ⟨hs, hn⟩ := hr.sound
  obtain ⟨hs', _⟩ := hr'.sound
  obtain ⟨mem, hmem, hid, hrecv⟩ := recv_single hs hn hd build clock
  rw [hr.datagramSize.1] at hrecv
  exact ⟨mem, hmem, hid, hrecv, hbooks ▸ recvmsg_single hs' hn hmss hd build clock⟩

/-- Calls that agree on a message have found the expected packet, and the books
are the same again. -/
theorem single_agrees {build : Build} {r' s s' : Receiver} (hr : Reachable build p r)
    (hr' : Reachable build p r') (hbooks : r.books = r'.books) (hmss : p.mss < 2 ^ 32)
    (hd : d.Single p testId) (ht : testId < maxTestId) {clock : Clock}
    {result result' : Except Error Unit} (h : r.recv build clock (.ok d) = .ok (result, s))
    (h' : r'.recvmsg build clock (.ok d) = .ok (result', s'))
    (hnext : s.nextPacketId = s'.nextPacketId)
    (hcounters : s.books.countersOf testId = s'.books.countersOf testId) :
    p.mss ≤ p.datagramSize ∧ packetId d.payload = r.nextPacketId ∧ s.books = s'.books ∧
      s.nextPacketId = r.nextPacketId + 1 := by
  obtain ⟨mem, hmem, hid, hrecv, hrecvmsg⟩ := single_books hr hr' hbooks hmss hd clock
  obtain ⟨enter, henter, hpost⟩ := Books.post_counted ht r.books
  rw [h, hpost, map_ok, eq_comm, map_eq_ok] at hrecv
  rw [h', hpost, map_ok, eq_comm, map_eq_ok] at hrecvmsg
  obtain ⟨⟨next, c⟩, hwhole, hs⟩ := hrecv
  obtain ⟨⟨next', c'⟩, hsingle, hs'⟩ := hrecvmsg
  simp only [entered, Prod.mk.injEq] at hs hs'
  have hnext : next = next' := by
    rw [← (henter next c).1, ← (henter next' c').1, hs.2, hs'.2]
    exact hnext
  have hcounters : c = c' := by
    rw [← (henter next c).2, ← (henter next' c').2, hs.2, hs'.2]
    exact hcounters
  subst hnext hcounters
  have hheader := hd.datagram.header
  have hfits := hd.fits
  have hrange := hd.id
  obtain ⟨hone, hexpected⟩ := (Counters.whole_single_iff hr.datagramSize.2 hmss (by omega) hmem hid
    hrange build _ _ _).mp ⟨next, c, hwhole, hsingle⟩
  refine ⟨hone, hexpected, hs.2.symm.trans hs'.2, ?_⟩
  have hverdict : ∀ c : Counters,
      c.verdict build (packetId d.payload) r.books.next = .ok (1, c) :=
    fun c => if_pos hexpected
  have hmove : build.u64 ((r.books.next : Int) + (1 : Nat)) = .ok (r.books.next + 1) :=
    Counters.u64_add build (by omega)
  simp only [Counters.single, Counters.arrive, hverdict, ok_bind, hmove] at hsingle
  cases hsingle
  exact (congrArg Books.next hs.2).symm.trans (henter _ _).1

/-- On the expected packet they do agree. -/
theorem single_proceeds {build : Build} {r' : Receiver} (hr : Reachable build p r)
    (hr' : Reachable build p r') (hbooks : r.books = r'.books) (hmss : p.mss < 2 ^ 32)
    (hd : d.Single p testId) (ht : testId < maxTestId) (hone : p.mss ≤ p.datagramSize)
    (hexpected : packetId d.payload = r.nextPacketId) (clock : Clock) :
    ∃ result s result' s', r.recv build clock (.ok d) = .ok (result, s) ∧
      r'.recvmsg build clock (.ok d) = .ok (result', s') ∧
      s.nextPacketId = s'.nextPacketId ∧
      s.books.countersOf testId = s'.books.countersOf testId := by
  obtain ⟨mem, hmem, hid, hrecv, hrecvmsg⟩ := single_books hr hr' hbooks hmss hd clock
  obtain ⟨enter, _, hpost⟩ := Books.post_counted ht r.books
  have hheader := hd.datagram.header
  have hfits := hd.fits
  obtain ⟨next, c, hwhole, hsingle⟩ := (Counters.whole_single_iff hr.datagramSize.2 hmss (by omega)
    hmem hid hd.id build d.payload.length r.books.next (r.books.countersOf testId)).mpr
      ⟨hone, hexpected⟩
  rw [hpost, hwhole, map_ok] at hrecv
  rw [hpost, hsingle, map_ok] at hrecvmsg
  obtain ⟨s, hs, hsb⟩ := entered_ok hrecv
  obtain ⟨s', hs', hsb'⟩ := entered_ok hrecvmsg
  have hsame : s.books = s'.books := hsb.trans hsb'.symm
  exact ⟨_, s, _, s', hs, hs', congrArg Books.next hsame, by rw [hsame]⟩

/-- Messages of a test that is refused change nothing. -/
theorem single_refused {build : Build} {r' : Receiver} (hr : Reachable build p r)
    (hr' : Reachable build p r') (hbooks : r.books = r'.books) (hmss : p.mss < 2 ^ 32)
    (hd : d.Single p testId) (ht : maxTestId ≤ testId) (clock : Clock) :
    ∃ result s result' s', r.recv build clock (.ok d) = .ok (result, s) ∧
      r'.recvmsg build clock (.ok d) = .ok (result', s') ∧ s.books = s'.books := by
  obtain ⟨mem, _, _, hrecv, hrecvmsg⟩ := single_books hr hr' hbooks hmss hd clock
  rw [Books.post_refused ht] at hrecv hrecvmsg
  obtain ⟨s, hs, hsb⟩ := entered_ok hrecv
  obtain ⟨s', hs', hsb'⟩ := entered_ok hrecvmsg
  exact ⟨_, s, _, s', hs, hs', hsb.trans hsb'.symm⟩

/-- Message by message: the books stay the same as long as the calls agree. -/
theorem countAlike_iff {build : Build} (hmss : p.mss < 2 ^ 32) {ds : List (Clock × Delivery)}
    (hds : ∀ e ∈ ds, e.2.Single p testId) {r' : Receiver} (hr : Reachable build p r)
    (hr' : Reachable build p r') (hbooks : r.books = r'.books) :
    CountAlike build testId r r' ds ↔
      ds = [] ∨ maxTestId ≤ testId ∨ p.mss ≤ p.datagramSize ∧
        ds.map (fun e => packetId e.2.payload) = List.range' r.nextPacketId ds.length := by
  induction ds generalizing r r' with
  | nil => exact iff_of_true trivial (.inl rfl)
  | cons e ds ih =>
    obtain ⟨clock, d⟩ := e
    obtain ⟨hd, hrest⟩ := List.forall_mem_cons.mp hds
    simp only [CountAlike, reduceCtorEq, false_or, List.map_cons, List.length_cons,
      List.range'_succ, List.cons.injEq]
    by_cases ht : maxTestId ≤ testId
    · obtain ⟨_, s, _, s', hs, hs', hsame⟩ := single_refused hr hr' hbooks hmss hd ht clock
      refine iff_of_true ⟨_, s, _, s', hs, hs', congrArg Books.next hsame, by rw [hsame], ?_⟩
        (.inl ht)
      exact (ih hrest (hr.recv hs) (hr'.recvmsg hs') hsame).mpr (.inr (.inl ht))
    · have hlt := Nat.lt_of_not_le ht
      constructor
      · rintro ⟨_, s, _, s', hs, hs', hnext, hcounters, halike⟩
        obtain ⟨hone, hexpected, hsame, hmove⟩ :=
          single_agrees hr hr' hbooks hmss hd hlt hs hs' hnext hcounters
        refine .inr ⟨hone, hexpected, ?_⟩
        rcases (ih hrest (hr.recv hs) (hr'.recvmsg hs') hsame).mp halike with rfl | hge | hids
        · rfl
        · exact absurd hge ht
        · rw [hids.2, hmove]
      · rintro (hge | ⟨hone, hexpected, hids⟩)
        · exact absurd hge ht
        · obtain ⟨result, s, result', s', hs, hs', hnext, hcounters⟩ :=
            single_proceeds hr hr' hbooks hmss hd hlt hone hexpected clock
          obtain ⟨_, _, hsame, hmove⟩ :=
            single_agrees hr hr' hbooks hmss hd hlt hs hs' hnext hcounters
          refine ⟨result, s, result', s', hs, hs', hnext, hcounters, ?_⟩
          refine (ih hrest (hr.recv hs) (hr'.recvmsg hs') hsame).mpr (.inr (.inr ⟨hone, ?_⟩))
          rw [hids, hmove]

end Receiver

/-- Without coalescing, `recv` and `recvmsg` count the data messages of a test
alike exactly if nothing is lost, reordered or duplicated and the buffer holds
no more than a datagram. -/
theorem receive_paths_alike_iff (args : NPerf) (build : Build) (cores : Nat) (p : Parameter)
    (hparse : args.parseParameter build cores = .ok (some p)) (r : Receiver)
    (hr : Receiver.Reachable build p r) (testId : Nat) (ds : List (Clock × Delivery))
    (hds : ∀ e ∈ ds, e.2.Single p testId) :
    r.CountAlike build testId r ds ↔
      ds = [] ∨ maxTestId ≤ testId ∨ p.mss ≤ p.datagramSize ∧
        ds.map (fun e => packetId e.2.payload) = List.range' r.nextPacketId ds.length :=
  Receiver.countAlike_iff (NPerf.parseParameter_mss hparse) hds hr hr rfl

/-- Two packets in order, one in each datagram. -/
theorem receive_paths_alike_in_order :
    let r := (Receiver.new ⟨0, 0⟩ .headersOnly).toOption.get (by decide)
    r.CountAlike .debug 7 r
      [(⟨1, 1⟩, .packet .measurement 7 0), (⟨2, 2⟩, .packet .measurement 7 1)] :=
  (receive_paths_alike_iff .headersOnly .debug 8 .headersOnly (by decide +kernel) _
    (.new (show Receiver.new ⟨0, 0⟩ .headersOnly = .ok _ from rfl)) 7 _ (by
      simp only [List.forall_mem_cons, List.not_mem_nil, false_implies, implies_true, and_true]
      exact ⟨⟨⟨by decide, by decide, by decide⟩, by decide, rfl, by decide⟩,
        ⟨⟨by decide, by decide, by decide⟩, by decide, rfl, by decide⟩⟩)).mpr
      (.inr (.inr (by decide)))

/-- Packet 1 comes first: `recv` counts the lost packet 0 as received. In a
buffer for two packets it counts what is behind the first one, too. -/
theorem receive_paths_differ :
    let outcome (p : Parameter) (id : Nat) : Except Fault ((Nat × Nat) × Nat × Nat) := do
      let r ← Receiver.new ⟨0, 0⟩ p
      let (_, s) ← r.recv .release ⟨1, 1⟩ (.ok (.packet .measurement 0 id))
      let (_, s') ← r.recvmsg .release ⟨1, 1⟩ (.ok (.packet .measurement 0 id))
      .ok ((s.nextPacketId, (s.books.countersOf 0).datagrams),
        (s'.nextPacketId, (s'.books.countersOf 0).datagrams))
    outcome .headersOnly 1 = .ok ((2, 2), (2, 1)) ∧
      outcome (.twoSlots .receiver) 0 = .ok ((2, 2), (1, 1)) := by
  decide +kernel

end Nperf
