import Nperf.Lib.Lists
import Nperf.Model.ReceiverRun
import Nperf.Proofs.Handling
import Nperf.Proofs.Messages

namespace Nperf
open Rust Bytes

/-- The result of a receive function, with the books instead of the receiver. -/
def entered : Except Error Unit × Receiver → Except Error Unit × Books
  | (result, r) => (result, r.books)

theorem entered_ok {x : Except Fault (Except Error Unit × Receiver)} {result : Except Error Unit}
    {b : Books} (h : x.map entered = .ok (result, b)) :
    ∃ r, x = .ok (result, r) ∧ r.books = b := by
  cases x with
  | error f => cases h
  | ok v =>
    cases h
    exact ⟨v.2, rfl, rfl⟩

@[simp] theorem Measurement.counters_book (m : Measurement) :
    m.book.counters = m.statistic.counters := rfl

theorem growMeasurements_books (clock : Clock) (ms : List Measurement) (testId : Nat)
    (p : Parameter) :
    (growMeasurements clock ms testId p).map Measurement.book =
      Books.grow (ms.map Measurement.book) testId := by
  have hnew : (Measurement.new clock p).book = Book.fresh := rfl
  simp only [growMeasurements, Books.grow, List.length_map]
  split
  · rw [List.map_append, List.map_replicate, hnew]
  · rw [show testId + 1 - ms.length = 0 by omega, List.replicate_zero, List.append_nil]

theorem growMeasurements_getElem (clock : Clock) (ms : List Measurement) (testId : Nat)
    (p : Parameter) : ∃ m, (growMeasurements clock ms testId p)[testId]? = some m := by
  have hlt : testId < (growMeasurements clock ms testId p).length := by
    unfold growMeasurements
    split
    · simp only [List.length_append, List.length_replicate]
      omega
    · omega
  exact ⟨_, List.getElem?_eq_getElem hlt⟩

theorem set_modify {ms : List Measurement} {testId : Nat} {m m' : Measurement} {f : Book → Book}
    (hm : ms[testId]? = some m) (hf : m'.book = f m.book) :
    (ms.set testId m').map Measurement.book = (ms.map Measurement.book).modify testId f := by
  apply List.ext_getElem?
  intro i
  simp only [List.getElem?_map, List.getElem?_set, List.getElem?_modify]
  by_cases hi : testId = i
  · subst i
    obtain ⟨hlt, hget⟩ := List.getElem?_eq_some_iff.mp hm
    simp [hlt, hget, hf]
  · simp [hi]

/-- The header of a message does to the measurements what it does to the books. -/
theorem parseMessageType_books (clock : Clock) (mtype : MessageType) (testId : Nat)
    (ms : List Measurement) (p : Parameter) :
    (Receiver.parseMessageType clock mtype testId ms p).map
        (fun (result, ms) => (result, ms.map Measurement.book)) =
      Books.parse mtype testId (ms.map Measurement.book) := by
  unfold Receiver.parseMessageType Books.parse
  split
  · rfl
  cases mtype with
  | init => simp only [map_ok, growMeasurements_books]
  | measurement =>
    obtain ⟨m, hm⟩ := growMeasurements_getElem clock ms testId p
    simp only [hm, Books.start, ← growMeasurements_books clock ms testId p]
    split
    · rename_i hfirst
      have hb : ((growMeasurements clock ms testId p).map Measurement.book)[testId]? =
          some m.book := by simp [hm]
      rw [Lists.modify_eq_self hb (by simp [Measurement.book, hfirst])]
      rfl
    · simp only [map_ok]
      rw [set_modify (f := fun b => { b with started := true }) hm rfl]
  | last =>
    cases hm : ms[testId]? with
    | none => simp [List.getElem?_eq_none_iff.mp hm]
    | some m =>
      obtain ⟨hlt, _⟩ := List.getElem?_eq_some_iff.mp hm
      rw [List.length_map, if_neg (by omega)]
      simp only [map_ok]
      rw [set_modify (f := fun b => { b with finished := true }) hm rfl]

theorem Receiver.setStatistic_books (r : Receiver) (testId : Nat) (m : Measurement)
    (s : Statistic) :
    (r.setStatistic testId m s).books =
      { next := r.nextPacketId
        tests := r.books.tests.set testId { m.book with counters := s.counters } } := by
  simp only [Receiver.setStatistic, Receiver.books, List.map_set]
  rfl

/-- What the receive functions have in common: parse the header, find the
statistic, count the packets, write the statistic back. -/
theorem handle_books (clock : Clock) (r : Receiver) (mtype : MessageType) (testId : Nat)
    {process : Nat → Statistic → Except Fault (Nat × Statistic)}
    {count : Nat → Counters → Except Fault (Nat × Counters)}
    (hprocess : ∀ next s,
      (process next s).map (fun (next, s) => (next, s.counters)) = count next s.counters)
    {g : Receiver → Receiver} (hg : ∀ r, (g r).books = r.books) :
    (do
      let (result, measurements) ←
        Receiver.parseMessageType clock mtype testId r.measurements r.parameter
      let r := { r with measurements := measurements }
      match result with
      | .error e => .ok (.error e, r)
      | .ok () =>
        let m ← Receiver.measurement r.measurements testId
        let (next, s) ← process r.nextPacketId m.statistic
        .ok (.ok (), g ({ r with nextPacketId := next }.setStatistic testId m s))
      : Except Fault (Except Error Unit × Receiver)).map entered =
      r.books.post mtype testId count := by
  have hparse := parseMessageType_books clock mtype testId r.measurements r.parameter
  simp only [Books.post, Receiver.books, ← hparse]
  cases Receiver.parseMessageType clock mtype testId r.measurements r.parameter with
  | error f => rfl
  | ok v =>
    obtain ⟨result, ms⟩ := v
    simp only [ok_bind, map_ok]
    cases result with
    | error e => rfl
    | ok u =>
      simp only [Receiver.measurement, List.getElem?_map]
      cases ms[testId]? with
      | none => rfl
      | some m =>
        simp only [ok_bind, Option.map_some, Measurement.counters_book, ← hprocess]
        cases process r.nextPacketId m.statistic with
        | error f => rfl
        | ok v =>
          simp only [map_ok, ok_bind, entered, hg, Receiver.setStatistic_books]
          rfl

theorem Books.receive_post (build : Build) (b : Books) (m : Message) (batch : List Message) :
    b.receive build (m :: batch) = b.post m.mtype m.testId (fun next c =>
      (Counters.arriveAll build ((m :: batch).flatMap Message.ids) next c).map (fun (next, c) =>
        (next, c.count ((m :: batch).flatMap Message.ids).length
          ((m :: batch).map Message.bytes).sum))) := by
  simp only [receive, post, enter]
  cases parse m.mtype m.testId b.tests with
  | error f => rfl
  | ok v =>
    obtain ⟨result, tests⟩ := v
    cases result with
    | error e => rfl
    | ok u =>
      simp only [ok_bind]
      cases tests[m.testId]? with
      | none => rfl
      | some book =>
        simp only
        cases Counters.arriveAll build ((m :: batch).flatMap Message.ids) b.next book.counters with
        | error f => rfl
        | ok v => rfl

/-- Packets that are counted by their ids. -/
theorem receive_books (build : Build) (clock : Clock) (r : Receiver) (m : Message)
    (batch : List Message) {g : Receiver → Receiver} (hg : ∀ r, (g r).books = r.books) :
    (do
      let (result, measurements) ←
        Receiver.parseMessageType clock m.mtype m.testId r.measurements r.parameter
      let r := { r with measurements := measurements }
      match result with
      | .error e => .ok (.error e, r)
      | .ok () =>
        let measurement ← Receiver.measurement r.measurements m.testId
        let (next, c) ← Counters.arriveAll build ((m :: batch).flatMap Message.ids) r.nextPacketId
          measurement.statistic.counters
        .ok (.ok (), g ({ r with nextPacketId := next }.setStatistic m.testId measurement
          ((measurement.statistic.withCounters c).countReceived
            ((m :: batch).flatMap Message.ids).length ((m :: batch).map Message.bytes).sum)))
      : Except Fault (Except Error Unit × Receiver)).map entered =
      r.books.receive build (m :: batch) := by
  rw [Books.receive_post]
  refine Eq.trans ?_ (@handle_books clock r m.mtype m.testId (fun next s =>
    (Counters.arriveAll build ((m :: batch).flatMap Message.ids) next s.counters).map
      (fun (next, c) => (next, (s.withCounters c).countReceived
        ((m :: batch).flatMap Message.ids).length ((m :: batch).map Message.bytes).sum)))
    _ ?_ g hg)
  · simp only [map_then]
  · intro next s
    cases Counters.arriveAll build ((m :: batch).flatMap Message.ids) next s.counters with
    | error f => rfl
    | ok v => rfl

/-- `recvmsg` enters the message it finds in the first buffer. -/
theorem Receiver.recvmsg_books {r : Receiver} (hs : r.packetBuffer.Sound mss n) (hn : 0 < n)
    {d : Delivery} {m : Message} (hd : d.read = some m) (hfit : d.payload.length ≤ mss)
    (build : Build) (clock : Clock) :
    (r.recvmsg build clock (.ok d)).map entered = r.books.receive build [m] := by
  obtain ⟨h, hh, hsound⟩ := hs.msghdr_ok hn
  obtain ⟨hholds, hbytes⟩ := hsound.holds hd hfit
  obtain ⟨buffer, hbuffer, htest, hmtype⟩ := hholds.header_ok
  simp only [Receiver.recvmsg, Receiver.msghdr, hh, ok_bind, hbuffer, htest, hmtype, hbytes,
    hholds.process_ok, map_then]
  have hids : [m].flatMap Message.ids = m.ids := by simp
  have hsum : ([m].map Message.bytes).sum = m.bytes := by simp
  have hr := receive_books build clock
    { r with packetBuffer := r.packetBuffer.setMsghdr 0 (h.deliver d) } m []
    (g := fun r =>
      { r with packetBuffer := r.packetBuffer.setMsghdr 0 (r.restoreControllen (h.deliver d)) })
    (fun _ => rfl)
  rw [hids, hsum] at hr
  exact hr

/-- The filled msghdrs of a batch call, each with its own message. -/
def HoldsAll : List Mmsghdr → List Message → Prop
  | [], [] => True
  | x :: xs, m :: ms => x.msgHdr.Holds m ∧ x.msgLen = m.bytes ∧ HoldsAll xs ms
  | _, _ => False

theorem mapM_read_cons {d : Delivery} {ds : List Delivery} {batch : List Message} :
    (d :: ds).mapM Delivery.read = some batch ↔
      ∃ m ms, d.read = some m ∧ ds.mapM Delivery.read = some ms ∧ batch = m :: ms := by
  simp only [List.mapM_cons, bind, Option.bind_eq_some_iff, pure, Option.some.injEq]
  constructor
  · rintro ⟨m, hm, ms, hms, rfl⟩
    exact ⟨m, ms, hm, hms, rfl⟩
  · rintro ⟨m, ms, hm, hms, rfl⟩
    exact ⟨m, hm, ms, hms, rfl⟩

theorem deliverAll_holds {xs : List Mmsghdr} {ds : List Delivery} {batch : List Message}
    (hs : ∀ x ∈ xs, x.msgHdr.Sound mss) (hlen : ds.length ≤ xs.length)
    (hd : ds.mapM Delivery.read = some batch) (hfit : ∀ d ∈ ds, d.payload.length ≤ mss) :
    HoldsAll ((Receiver.deliverAll xs ds).take ds.length) batch := by
  induction ds generalizing xs batch with
  | nil =>
    cases hd
    simp [HoldsAll]
  | cons d ds ih =>
    obtain ⟨m, ms, hm, hms, rfl⟩ := mapM_read_cons.mp hd
    cases xs with
    | nil => simp at hlen
    | cons x xs =>
      obtain ⟨hx, hxs⟩ := List.forall_mem_cons.mp hs
      obtain ⟨hf, hfs⟩ := List.forall_mem_cons.mp hfit
      obtain ⟨hholds, hbytes⟩ := hx.holds hm hf
      exact ⟨hholds, hbytes, ih hxs (by simpa using hlen) hms hfs⟩

theorem deliverAll_length (xs : List Mmsghdr) (ds : List Delivery) :
    (Receiver.deliverAll xs ds).length = xs.length := by
  induction ds generalizing xs with
  | nil => cases xs <;> rfl
  | cons d ds ih =>
    cases xs with
    | nil => rfl
    | cons x xs => simp [Receiver.deliverAll, ih]

theorem deliverAll_sound {xs : List Mmsghdr} (hs : ∀ x ∈ xs, x.msgHdr.Sound mss)
    (ds : List Delivery) : ∀ x ∈ Receiver.deliverAll xs ds, x.msgHdr.Sound mss := by
  induction ds generalizing xs with
  | nil => cases xs <;> exact hs
  | cons d ds ih =>
    cases xs with
    | nil => exact hs
    | cons x xs =>
      obtain ⟨hx, hxs⟩ := List.forall_mem_cons.mp hs
      exact List.forall_mem_cons.mpr ⟨hx.deliver d, ih hxs⟩

theorem processMmsghdrs_ok (build : Build) (r : Receiver) {xs : List Mmsghdr}
    {batch : List Message} (h : HoldsAll xs batch) (next received : Nat) (s : Statistic) :
    Receiver.processMmsghdrs build r xs (next, received, s) =
      (Counters.arriveAll build (batch.flatMap Message.ids) next s.counters).map (fun (next, c) =>
        (xs.map (fun x => { x with msgHdr := r.restoreControllen x.msgHdr }), next,
          received + (batch.flatMap Message.ids).length, s.withCounters c)) := by
  induction xs generalizing batch next received s with
  | nil =>
    cases batch with
    | nil => rfl
    | cons m ms => exact False.elim h
  | cons x xs ih =>
    cases batch with
    | nil => exact False.elim h
    | cons m ms =>
      obtain ⟨hholds, hbytes, hrest⟩ := h
      simp only [Receiver.processMmsghdrs, hbytes, hholds.process_ok, map_then, List.flatMap_cons,
        Counters.arriveAll_append]
      cases Counters.arriveAll build m.ids next s.counters with
      | error f => rfl
      | ok v =>
        simp only [ok_bind, ih hrest, map_then, Statistic.counters_withCounters,
          Statistic.withCounters_withCounters]
        cases Counters.arriveAll build (ms.flatMap Message.ids) v.1 v.2 with
        | error f => rfl
        | ok w =>
          simp only [ok_bind, map_ok, List.map_cons, List.length_append, Nat.add_assoc, hbytes]

theorem HoldsAll.total {xs : List Mmsghdr} {batch : List Message} (h : HoldsAll xs batch) :
    (xs.map Mmsghdr.msgLen).sum = (batch.map Message.bytes).sum := by
  induction xs generalizing batch with
  | nil =>
    cases batch with
    | nil => rfl
    | cons m ms => exact False.elim h
  | cons x xs ih =>
    cases batch with
    | nil => exact False.elim h
    | cons m ms =>
      obtain ⟨_, hbytes, hrest⟩ := h
      simp only [List.map_cons, List.sum_cons, hbytes, ih hrest]

/-- `recvmmsg` enters the whole batch under the header of its first message. -/
theorem Receiver.recvmmsg_books {r : Receiver} (hs : r.packetBuffer.Sound mss n)
    {ds : List Delivery} {batch : List Message} (hd : ds.mapM Delivery.read = some batch)
    (hlen : ds.length ≤ n) (hfit : ∀ d ∈ ds, d.payload.length ≤ mss) (build : Build)
    (clock : Clock) :
    (r.recvmmsg build clock (.ok ds)).map entered = r.books.receive build batch := by
  have hsize := hs.size
  have hall := deliverAll_holds hs.msghdrs (hsize ▸ hlen) hd hfit
  cases ds with
  | nil =>
    cases hd
    simp only [Receiver.recvmmsg, List.length_nil, Nat.zero_min, ↓reduceIte]
    rfl
  | cons d ds =>
    obtain ⟨m, ms, hm, hms, rfl⟩ := mapM_read_cons.mp hd
    have hmin : min (d :: ds).length r.packetBuffer.mmsghdrVec.length = (d :: ds).length :=
      Nat.min_eq_left (hsize ▸ hlen)
    have hne : ¬(d :: ds).length = 0 := by simp
    have htotal : getTotalBytes (deliverAll r.packetBuffer.mmsghdrVec (d :: ds)) (d :: ds).length =
        ((m :: ms).map Message.bytes).sum := hall.total
    simp only [Receiver.recvmmsg, hmin, if_neg hne, htotal]
    generalize deliverAll r.packetBuffer.mmsghdrVec (d :: ds) = filled at hall
    cases filled with
    | nil => exact False.elim hall
    | cons x xs =>
      obtain ⟨buffer, hbuffer, htest, hmtype⟩ := hall.1.header_ok
      simp only [Receiver.msghdr, PacketBuffer.getMsghdrFromIndex, List.getElem?_cons_zero, ok_bind,
        hbuffer, htest, hmtype, processMmsghdrs_ok build _ hall, map_then, Nat.zero_add]
      exact receive_books build clock
        { r with packetBuffer := { r.packetBuffer with mmsghdrVec := x :: xs } } m ms
        (g := fun r => { r with packetBuffer := { r.packetBuffer with
          mmsghdrVec := ((x :: xs).take (d :: ds).length).map
            (fun x => { x with msgHdr := r.restoreControllen x.msgHdr }) ++
              (x :: xs).drop (d :: ds).length } })
        (fun _ => rfl)

theorem Receiver.restoreProcessed_books (r : Receiver) (h : Msghdr) (index : Nat) :
    (r.restoreProcessed h index).books = r.books := by
  unfold restoreProcessed
  split <;> rfl

/-- A completion enters the message of its msghdr, whether the caller has built
it around a provided buffer or it is the one its index names. -/
theorem Receiver.handleRecvmsgReturn_books {r : Receiver} {h : Msghdr} {m : Message}
    (hm : h.Holds m) (given : Option Msghdr) (index : Nat)
    (hfirst : r.completedMsghdr given index = .ok h)
    (hagain : ∀ ms, ({ r with measurements := ms } : Receiver).processedMsghdr h index = .ok h)
    (build : Build) (clock : Clock) :
    (r.handleRecvmsgReturn build clock m.bytes given index).map entered =
      r.books.receive build [m] := by
  obtain ⟨buffer, hbuffer, htest, hmtype⟩ := hm.header_ok
  have hamount : ((m.bytes : Int) % 2 ^ 64).toNat = m.bytes := by
    have := hm.short
    omega
  have hids : [m].flatMap Message.ids = m.ids := by simp
  have hsum : ([m].map Message.bytes).sum = m.bytes := by simp
  have hr := receive_books build clock r m [] (fun r => r.restoreProcessed_books h index)
  rw [hids, hsum] at hr
  simp only [handleRecvmsgReturn, hfirst, ok_bind, hbuffer, htest, hmtype, hagain, hamount,
    hm.process_ok, map_then]
  exact hr

/-- What no receive function changes. -/
structure Receiver.Frame (mss n : Nat) (r r' : Receiver) : Prop where
  sound : r'.packetBuffer.Sound mss n
  parameter : r'.parameter = r.parameter

theorem Receiver.msghdr_sound {r : Receiver} (hs : r.packetBuffer.Sound mss n) {index : Nat}
    {h : Msghdr} (hh : r.msghdr index = .ok h) : h.Sound mss := by
  unfold Receiver.msghdr at hh
  split at hh
  · rename_i hg
    cases hh
    exact hs.getMsghdrFromIndex hg
  · cases hh

theorem Receiver.restoreControllen_sound (r : Receiver) {h : Msghdr} (hh : h.Sound mss) :
    (r.restoreControllen h).Sound mss := by
  unfold restoreControllen
  split
  · exact hh.reset
  · exact hh

theorem Receiver.Handled.sound {r r' : Receiver} {clock : Clock} {h : Msghdr}
    {Packets : Statistic → Statistic → PacketBuffer → Prop} {result : Except Error Unit}
    (hr : r.Handled clock h Packets result r') (hs : r.packetBuffer.Sound mss n)
    (hpackets : ∀ s s' b, Packets s s' b → b.Sound mss n) : r'.packetBuffer.Sound mss n := by
  rcases hr.packetBuffer with hsame | ⟨s, s', hb⟩
  · exact hsame ▸ hs
  · exact hpackets s s' _ hb

theorem Receiver.recvmsg_frame {r r' : Receiver} (hs : r.packetBuffer.Sound mss n)
    {build : Build} {clock : Clock} {socket : Except Error Delivery} {result : Except Error Unit}
    (h : r.recvmsg build clock socket = .ok (result, r')) : r.Frame mss n r' := by
  cases recvmsg_cases h with
  | failed e => exact ⟨hs, rfl⟩
  | @handled h0 d _ _ first goes =>
    have hfilled := (msghdr_sound hs first).deliver d
    have hset := hs.setMsghdr hfilled 0
    refine ⟨goes.sound hset ?_, goes.parameter⟩
    intro s s' b hb
    obtain ⟨rfl, _⟩ := hb
    exact hset.setMsghdr (restoreControllen_sound r hfilled) 0

theorem processMmsghdrs_sound {build : Build} {r : Receiver} {xs ys : List Mmsghdr}
    {acc acc' : Nat × Nat × Statistic} (hs : ∀ x ∈ xs, x.msgHdr.Sound mss)
    (h : Receiver.processMmsghdrs build r xs acc = .ok (ys, acc')) :
    ys.length = xs.length ∧ ∀ y ∈ ys, y.msgHdr.Sound mss := by
  induction xs generalizing acc acc' ys with
  | nil =>
    cases h
    exact ⟨rfl, hs⟩
  | cons x xs ih =>
    obtain ⟨hx, hxs⟩ := List.forall_mem_cons.mp hs
    obtain ⟨next, received, s⟩ := acc
    simp only [Receiver.processMmsghdrs, bind_ok] at h
    obtain ⟨v, _, ⟨rest, acc''⟩, hrest, h⟩ := h
    cases h
    obtain ⟨hlen, hall⟩ := ih hxs hrest
    exact ⟨by simp [hlen],
      List.forall_mem_cons.mpr ⟨r.restoreControllen_sound hx, hall⟩⟩

theorem Receiver.recvmmsg_frame {r r' : Receiver} (hs : r.packetBuffer.Sound mss n)
    {build : Build} {clock : Clock} {socket : Except Error (List Delivery)}
    {result : Except Error Unit} (h : r.recvmmsg build clock socket = .ok (result, r')) :
    r.Frame mss n r' := by
  have hfilled : ∀ ds, PacketBuffer.Sound mss n
      { r.packetBuffer with mmsghdrVec := deliverAll r.packetBuffer.mmsghdrVec ds } :=
    fun ds => ⟨(deliverAll_length _ ds).trans hs.size, deliverAll_sound hs.msghdrs ds⟩
  cases recvmmsg_cases h with
  | failed e => exact ⟨hs, rfl⟩
  | @nothing ds none => exact ⟨hfilled ds, rfl⟩
  | @handled ds h0 _ _ some first goes =>
    refine ⟨goes.sound (hfilled ds) ?_, goes.parameter⟩
    intro s s' b hb
    obtain ⟨t, processed, next, datagrams, _, hp, rfl⟩ := hb
    obtain ⟨hlen, hsound⟩ := processMmsghdrs_sound
      (fun x hx => (hfilled ds).msghdrs x (List.mem_of_mem_take hx)) hp
    have hsize := (hfilled ds).size
    simp only at hsize
    refine ⟨?_, fun y hy => ?_⟩
    · simp only [List.length_append, hlen, List.length_take, List.length_drop]
      omega
    · rcases List.mem_append.mp hy with hy | hy
      · exact hsound y hy
      · exact (hfilled ds).msghdrs y (List.mem_of_mem_drop hy)

theorem Receiver.handleRecvmsgReturn_frame {r r' : Receiver} (hs : r.packetBuffer.Sound mss n)
    {build : Build} {clock : Clock} {amount : Int} {given : Option Msghdr} {index : Nat}
    {result : Except Error Unit}
    (h : r.handleRecvmsgReturn build clock amount given index = .ok (result, r')) :
    r.Frame mss n r' := by
  obtain ⟨h0, _, goes⟩ := handleRecvmsgReturn_cases h
  refine ⟨goes.sound hs ?_, goes.parameter⟩
  intro s s' b hb
  obtain ⟨h1, _, _, _, hh1, _, rfl⟩ := hb
  unfold restoreProcessed
  split
  · rename_i hnormal
    unfold processedMsghdr at hh1
    rw [if_pos hnormal] at hh1
    exact hs.setMsghdr (restoreControllen_sound r (msghdr_sound hs hh1)) index
  · exact hs

theorem Msghdr.Sound.recvFill {h : Msghdr} (hs : h.Sound mss) (d : Delivery) :
    (Receiver.recvFill h d).Sound mss :=
  ⟨hs.iovlen, hs.length, (hs.deliver d).memory⟩

theorem Receiver.recv_frame {r r' : Receiver} (hs : r.packetBuffer.Sound mss n)
    {build : Build} {clock : Clock} {socket : Except Error Delivery} {result : Except Error Unit}
    (h : r.recv build clock socket = .ok (result, r')) : r.Frame mss n r' := by
  cases recv_cases h with
  | failed e => exact ⟨hs, rfl⟩
  | @handled h0 d _ _ first goes =>
    have hset := hs.setMsghdr ((msghdr_sound hs first).recvFill d) 0
    refine ⟨goes.sound hset ?_, goes.parameter⟩
    intro s s' b hb
    obtain ⟨rfl, _⟩ := hb
    exact hset

/-- The receivers of a program with parameter set `p`, between two calls. -/
inductive Receiver.Reachable (build : Build) (p : Parameter) : Receiver → Prop
  | new (h : Receiver.new clock p = .ok r) : Reachable build p r
  | recv (hr : Reachable build p r) (h : r.recv build clock socket = .ok (result, r')) :
      Reachable build p r'
  | recvmsg (hr : Reachable build p r) (h : r.recvmsg build clock socket = .ok (result, r')) :
      Reachable build p r'
  | recvmmsg (hr : Reachable build p r) (h : r.recvmmsg build clock sockets = .ok (result, r')) :
      Reachable build p r'
  | delivered (hr : Reachable build p r) (hh : r.msghdr index = .ok h) (d : Delivery) :
      Reachable build p { r with packetBuffer := r.packetBuffer.setMsghdr index (h.deliver d) }
  | completed (hr : Reachable build p r)
      (h : r.handleRecvmsgReturn build clock amount given index = .ok (result, r')) :
      Reachable build p r'
  | taken (hr : Reachable build p r) (h : r.packetBuffer.getBufferIndex = .ok (index, b)) :
      Reachable build p { r with packetBuffer := b }
  | returned (hr : Reachable build p r) (indices : List Nat) :
      Reachable build p { r with packetBuffer := r.packetBuffer.returnBufferIndex indices }
  | prepared (hr : Reachable build p r) : Reachable build p r.prepareMsghdrs
  | reset (hr : Reachable build p r) (clock : Clock) :
      Reachable build p (r.resetStatistics clock)
  | started (hr : Reachable build p r) (clock : Clock) :
      Reachable build p (r.startInterval clock)
  | recorded (hr : Reachable build p r) (clock : Clock) (statistic : Statistic) :
      Reachable build p { r with
        statisticInterval := r.statisticInterval.calculateInterval clock statistic }

theorem PacketBuffer.getBufferIndex_frame {b b' : PacketBuffer} {index : Nat}
    (h : b.getBufferIndex = .ok (index, b')) : b' = { b with indexPool := b'.indexPool } := by
  unfold getBufferIndex at h
  split at h
  · cases h
    rfl
  · cases h

theorem PacketBuffer.Sound.resetMsghdrFields {b : PacketBuffer} (hs : b.Sound mss n) :
    b.resetMsghdrFields.Sound mss n := by
  refine ⟨by simp [PacketBuffer.resetMsghdrFields, hs.size], ?_⟩
  intro m' hm'
  obtain ⟨m, hm, rfl⟩ := List.mem_map.mp hm'
  exact (hs.msghdrs m hm).reset

theorem Receiver.Reachable.sound {build : Build} {p : Parameter} {r : Receiver}
    (hr : Reachable build p r) :
    r.packetBuffer.Sound p.mss p.packetBufferSize ∧ 0 < p.packetBufferSize := by
  induction hr with
  | new h =>
    obtain ⟨hs, hn, _⟩ := Receiver.new_ok h
    exact ⟨hs, hn⟩
  | recv _ h ih => exact ⟨(recv_frame ih.1 h).sound, ih.2⟩
  | recvmsg _ h ih => exact ⟨(recvmsg_frame ih.1 h).sound, ih.2⟩
  | recvmmsg _ h ih => exact ⟨(recvmmsg_frame ih.1 h).sound, ih.2⟩
  | delivered _ h d ih => exact ⟨ih.1.setMsghdr ((msghdr_sound ih.1 h).deliver d) _, ih.2⟩
  | completed _ h ih => exact ⟨(handleRecvmsgReturn_frame ih.1 h).sound, ih.2⟩
  | taken _ h ih =>
    rw [PacketBuffer.getBufferIndex_frame h]
    exact ⟨⟨ih.1.size, ih.1.msghdrs⟩, ih.2⟩
  | returned _ indices ih => exact ⟨⟨ih.1.size, ih.1.msghdrs⟩, ih.2⟩
  | prepared _ ih =>
    unfold prepareMsghdrs
    split
    · exact ⟨ih.1.resetMsghdrFields, ih.2⟩
    · exact ih
  | reset _ clock ih => exact ih
  | started _ clock ih => exact ih
  | recorded _ clock statistic ih => exact ih

theorem Receiver.Handled.datagramSize {r r' : Receiver} {clock : Clock} {h : Msghdr}
    {Packets : Statistic → Statistic → PacketBuffer → Prop} {result : Except Error Unit}
    {size : Nat}
    (hr : r.Handled clock h Packets result r') (hsize : r.packetBuffer.datagramSize = size)
    (hpackets : ∀ s s' b, Packets s s' b → b.datagramSize = size) :
    r'.packetBuffer.datagramSize = size := by
  rcases hr.packetBuffer with hsame | ⟨s, s', hb⟩
  · rw [hsame, hsize]
  · exact hpackets s s' _ hb

/-- No receive function changes how a buffer is cut into packets. -/
theorem Receiver.Reachable.datagramSize {build : Build} {p : Parameter} {r : Receiver}
    (hr : Reachable build p r) :
    r.packetBuffer.datagramSize = p.datagramSize ∧ 0 < p.datagramSize := by
  induction hr with
  | new h =>
    obtain ⟨v, hv, h⟩ := bind_ok.mp h
    cases h
    obtain ⟨hd, _, rfl⟩ := MsghdrVec.new_ok hv
    exact ⟨rfl, hd⟩
  | recv _ h ih =>
    refine ⟨?_, ih.2⟩
    cases recv_cases h with
    | failed e => exact ih.1
    | handled first goes =>
      apply goes.datagramSize ih.1
      rintro s s' b ⟨rfl, _⟩
      exact ih.1
  | recvmsg _ h ih =>
    refine ⟨?_, ih.2⟩
    cases recvmsg_cases h with
    | failed e => exact ih.1
    | handled first goes =>
      apply goes.datagramSize ih.1
      rintro s s' b ⟨rfl, _⟩
      exact ih.1
  | recvmmsg _ h ih =>
    refine ⟨?_, ih.2⟩
    cases recvmmsg_cases h with
    | failed e => exact ih.1
    | nothing none => exact ih.1
    | handled some first goes =>
      apply goes.datagramSize ih.1
      rintro s s' b ⟨t, _, _, _, _, _, rfl⟩
      exact ih.1
  | delivered _ _ _ ih => exact ih
  | completed _ h ih =>
    refine ⟨?_, ih.2⟩
    obtain ⟨hdr, _, goes⟩ := handleRecvmsgReturn_cases h
    apply goes.datagramSize ih.1
    rintro s s' b ⟨_, _, _, _, _, _, rfl⟩
    unfold restoreProcessed
    split
    · exact ih.1
    · exact ih.1
  | taken _ h ih =>
    rw [PacketBuffer.getBufferIndex_frame h]
    exact ih
  | returned _ _ ih => exact ih
  | prepared _ ih =>
    unfold prepareMsghdrs
    split
    · exact ih
    · exact ih
  | reset _ _ ih => exact ih
  | started _ _ ih => exact ih
  | recorded _ _ _ ih => exact ih

theorem processPackets_next {build : Build} {packets : List Slice}
    {acc acc' : Nat × Nat × Statistic} (hnext : acc.1 < 2 ^ 64)
    (h : processPackets build packets acc = .ok acc') : acc'.1 < 2 ^ 64 := by
  induction packets generalizing acc with
  | nil =>
    cases h
    exact hnext
  | cons packet packets ih =>
    obtain ⟨next, received, s⟩ := acc
    simp only [processPackets, bind_ok] at h
    obtain ⟨_, _, next', hu, h⟩ := h
    exact ih (u64_lt hu) h

theorem processPacketMsghdr_next {build : Build} {h : Msghdr} {bytes next : Nat} {s : Statistic}
    {v : Nat × Nat × Statistic} (hnext : next < 2 ^ 64)
    (hp : processPacketMsghdr build h bytes next s = .ok v) : v.1 < 2 ^ 64 := by
  unfold processPacketMsghdr at hp
  split at hp
  · cases hp
  · simp only [bind_ok] at hp
    obtain ⟨_, _, _, _, hp⟩ := hp
    exact processPackets_next hnext hp

theorem processMmsghdrs_next {build : Build} {r : Receiver} {xs ys : List Mmsghdr}
    {acc acc' : Nat × Nat × Statistic} (hnext : acc.1 < 2 ^ 64)
    (h : Receiver.processMmsghdrs build r xs acc = .ok (ys, acc')) : acc'.1 < 2 ^ 64 := by
  induction xs generalizing acc acc' ys with
  | nil =>
    cases h
    exact hnext
  | cons x xs ih =>
    obtain ⟨next, received, s⟩ := acc
    simp only [Receiver.processMmsghdrs, bind_ok] at h
    obtain ⟨v, hv, ⟨rest, acc''⟩, hrest, h⟩ := h
    cases h
    have hnext' := processPacketMsghdr_next hnext hv
    exact ih (by exact hnext') hrest

namespace Receiver
variable {build : Build} {clock : Clock} {r r' : Receiver} {result : Except Error Unit}

theorem recv_next {socket : Except Error Delivery} (hnext : r.nextPacketId < 2 ^ 64)
    (h : r.recv build clock socket = .ok (result, r')) : r'.nextPacketId < 2 ^ 64 := by
  simp only [recv, bind_ok] at h
  obtain ⟨_, _, h⟩ := h
  cases socket with
  | error e =>
    cases h
    exact hnext
  | ok d =>
    simp only [bind_ok] at h
    obtain ⟨_, _, _, _, _, _, ⟨parsed, ms⟩, _, h⟩ := h
    cases parsed with
    | error e =>
      cases h
      exact hnext
    | ok u =>
      simp only [bind_ok] at h
      obtain ⟨_, _, _, _, next, hu, h⟩ := h
      cases h
      exact u64_lt hu

theorem recvmsg_next {socket : Except Error Delivery} (hnext : r.nextPacketId < 2 ^ 64)
    (h : r.recvmsg build clock socket = .ok (result, r')) : r'.nextPacketId < 2 ^ 64 := by
  simp only [recvmsg, bind_ok] at h
  obtain ⟨_, _, h⟩ := h
  cases socket with
  | error e =>
    cases h
    exact hnext
  | ok d =>
    simp only [bind_ok] at h
    obtain ⟨_, _, _, _, _, _, ⟨parsed, ms⟩, _, h⟩ := h
    cases parsed with
    | error e =>
      cases h
      exact hnext
    | ok u =>
      simp only [bind_ok] at h
      obtain ⟨_, _, ⟨next, datagrams, s⟩, hp, h⟩ := h
      cases h
      have hnext' := processPacketMsghdr_next hnext hp
      exact hnext'

theorem recvmmsg_next {socket : Except Error (List Delivery)} (hnext : r.nextPacketId < 2 ^ 64)
    (h : r.recvmmsg build clock socket = .ok (result, r')) : r'.nextPacketId < 2 ^ 64 := by
  cases socket with
  | error e =>
    cases h
    exact hnext
  | ok ds =>
    simp only [recvmmsg] at h
    split at h
    · cases h
      exact hnext
    · simp only [bind_ok] at h
      obtain ⟨_, _, _, _, _, _, _, _, ⟨parsed, ms⟩, _, h⟩ := h
      cases parsed with
      | error e =>
        cases h
        exact hnext
      | ok u =>
        simp only [bind_ok] at h
        obtain ⟨_, _, ⟨processed, next, datagrams, s⟩, hp, h⟩ := h
        cases h
        have hnext' := processMmsghdrs_next hnext hp
        exact hnext'

theorem handleRecvmsgReturn_next {amount : Int} {given : Option Msghdr} {index : Nat}
    (hnext : r.nextPacketId < 2 ^ 64)
    (h : r.handleRecvmsgReturn build clock amount given index = .ok (result, r')) :
    r'.nextPacketId < 2 ^ 64 := by
  simp only [handleRecvmsgReturn, bind_ok] at h
  obtain ⟨_, _, _, _, _, _, _, _, ⟨parsed, ms⟩, _, h⟩ := h
  cases parsed with
  | error e =>
    cases h
    exact hnext
  | ok u =>
    simp only [bind_ok] at h
    obtain ⟨_, _, _, _, ⟨next, datagrams, s⟩, hp, h⟩ := h
    cases h
    have hnext' := processPacketMsghdr_next hnext hp
    unfold restoreProcessed
    split
    · exact hnext'
    · exact hnext'

/-- The next packet id of a receiver is a `u64`. -/
theorem Reachable.next {p : Parameter} (hr : Reachable build p r) : r.nextPacketId < 2 ^ 64 := by
  induction hr with
  | new h =>
    obtain ⟨_, _, _, hnext, _⟩ := Receiver.new_ok h
    rw [hnext]
    decide
  | recv _ h ih => exact recv_next ih h
  | recvmsg _ h ih => exact recvmsg_next ih h
  | recvmmsg _ h ih => exact recvmmsg_next ih h
  | delivered _ _ _ ih => exact ih
  | completed _ h ih => exact handleRecvmsgReturn_next ih h
  | taken _ _ ih => exact ih
  | returned _ _ ih => exact ih
  | prepared _ ih =>
    unfold prepareMsghdrs
    split
    · exact ih
    · exact ih
  | reset _ _ ih => exact ih
  | started _ _ ih => exact ih
  | recorded _ _ _ ih => exact ih

end Receiver

end Nperf
