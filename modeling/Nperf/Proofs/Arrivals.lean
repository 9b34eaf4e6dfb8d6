import Nperf.Ledger.Heard
import Nperf.Proofs.ControlSocket
import Nperf.Proofs.Receiving
import Nperf.Proofs.Totals
import Nperf.Proofs.Trace

namespace Nperf
open Rust Bytes Runs Segments

/-- A datagram that a sender makes. -/
inductive Genuine (x : Memory) : Prop
  | control (mtype : MessageType) (testId : Nat) (hm : mtype ≠ .measurement)
      (ht : testId < maxTestId) (hx : x = controlDatagram mtype testId)
  | data (testId : Nat) (ht : testId < maxTestId) (hid : packetId x + 1 < 2 ^ 64)
      (hx : Datagram testId x)

/-- What a receiver reads in datagrams that come as one message. Of several the
first one says which test they are counted for, and without a report of their
size it is the only one that is seen. -/
inductive Message.Says : Message → List Memory → Prop
  | control (mtype : MessageType) (testId : Nat) (hm : mtype ≠ .measurement)
      (ht : testId < maxTestId) :
      Says ⟨mtype, testId, [0], 24⟩ [controlDatagram mtype testId]
  | data (testId bytes : Nat) (x : Memory) (xs : List Memory) (ids : List Nat)
      (ht : testId < maxTestId) (hx : Datagram testId x)
      (hall : ∀ y ∈ x :: xs, isData y ∧ packetId y + 1 < 2 ^ 64)
      (hids : ids = [packetId x] ∨ ids = (x :: xs).map packetId) :
      Says ⟨.measurement, testId, ids, bytes⟩ (x :: xs)

/-- The receiver sees all datagrams of the message. -/
def Message.Tells (m : Message) (datagrams : List Memory) : Prop :=
  m.Says datagrams ∧ m.ids.length = datagrams.length

namespace Delivery
variable {d : Delivery}

/-- Without a segment size from the kernel a message is one packet. -/
theorem read_alone {x : Memory} {xs : List Memory} (hc : d.control = [])
    (hpayload : d.payload = (x :: xs).flatten) (h24 : 24 ≤ x.length)
    (hshort : d.payload.length < 2 ^ 32) {mtype : MessageType} (hm : load x 0 8 = mtype.code) :
    d.read = some ⟨mtype, load x 8 8, [packetId x], d.payload.length⟩ := by
  have hload : ∀ off, off + 8 ≤ 24 → load d.payload off 8 = load x off 8 := by
    intro off hoff
    rw [hpayload, List.flatten_cons, load_append_left _ _ (by omega)]
  have hlen : 24 ≤ d.payload.length := by
    rw [hpayload, List.flatten_cons, List.length_append]
    omega
  have hseg : d.segment = d.payload.length := by
    simp only [segment, getGsoSizeFromCmsg, hc, List.find?_nil, Option.map_none, ite_self,
      Option.getD_none]
  have hone : (d.payload.length + d.payload.length - 1) / d.payload.length = 1 :=
    Nat.div_eq_of_lt_le (by omega) (by omega)
  have hids : d.ids = [packetId x] := by
    simp only [ids, hseg, hone, List.range_one, List.map_cons, List.map_nil, Nat.zero_mul,
      Nat.zero_add, hload 16 (by omega), packetId]
  rw [read, if_pos ⟨hlen, hshort, hseg ▸ hlen, Or.inl (hseg ▸ Nat.mod_self _)⟩,
    hload 0 (by omega), hload 8 (by omega), hm, MessageType.ofCode_code, hids]

/-- Datagrams of one size read as one message, under the header of the first. -/
theorem read_group {x : Memory} {xs : List Memory} (hpayload : d.payload = (x :: xs).flatten)
    (heven : Even d.segment (x :: xs)) (hd : ∀ y ∈ x :: xs, 24 ≤ y.length)
    (hshort : d.payload.length < 2 ^ 32) (hm : isData x) : d.read =
      some ⟨.measurement, load x 8 8, (x :: xs).map packetId, d.payload.length⟩ := by
  obtain ⟨hseg, htail, hids⟩ := pieces_ok (x :: xs) hpayload (by simp) heven hd
  have hx := hd x List.mem_cons_self
  have hload : ∀ off, off + 8 ≤ 24 → load d.payload off 8 = load x off 8 := by
    intro off hoff
    rw [hpayload, List.flatten_cons, load_append_left _ _ (by omega)]
  have hlen : 24 ≤ d.payload.length := by
    rw [hpayload, List.flatten_cons, List.length_append]
    omega
  have hmtype : load x 0 8 = MessageType.measurement.code := of_decide_eq_true hm
  rw [read, if_pos ⟨hlen, hshort, hseg, htail⟩, hload 0 (by omega), hload 8 (by omega), hmtype,
    MessageType.ofCode_code, hids]

end Delivery

theorem isData_controlDatagram {mtype : MessageType} (hm : mtype ≠ .measurement) (testId : Nat) :
    isData (controlDatagram mtype testId) = false := by
  have hload := MessageHeader.load_mtype ⟨mtype, testId, 0⟩
  unfold isData controlDatagram
  rw [hload]
  exact decide_eq_false fun h => hm (MessageType.code_inj h)

theorem Genuine.of_isData {x : Memory} (h : Genuine x) (hd : isData x) :
    ∃ testId < maxTestId, packetId x + 1 < 2 ^ 64 ∧ Datagram testId x := by
  cases h with
  | control mtype testId hm ht hx =>
    rw [hx, isData_controlDatagram hm] at hd
    cases hd
  | data testId ht hid hx => exact ⟨testId, ht, hid, hx⟩

/-- A data message of several datagrams has their first one in it. -/
theorem Coalesced.first {size : Nat} {datagrams : List Memory} (h : Coalesced size datagrams)
    (hg : ∀ x ∈ datagrams, Genuine x) : ∃ x xs testId, datagrams = x :: xs ∧
      testId < maxTestId ∧ Datagram testId x ∧
      ∀ y ∈ x :: xs, isData y ∧ packetId y + 1 < 2 ^ 64 ∧ 24 ≤ y.length := by
  obtain ⟨hne, _, hall⟩ := h
  obtain ⟨x, xs, rfl⟩ := List.exists_cons_of_ne_nil hne
  have hdata : ∀ y ∈ x :: xs, isData y ∧ packetId y + 1 < 2 ^ 64 ∧ 24 ≤ y.length := by
    intro y hy
    obtain ⟨_, _, hid, hdatagram⟩ := (hg y hy).of_isData (hall y hy)
    exact ⟨hall y hy, hid, hdatagram.header⟩
  obtain ⟨testId, ht, _, hx⟩ := (hg x List.mem_cons_self).of_isData (hall x List.mem_cons_self)
  exact ⟨x, xs, testId, rfl, ht, hx, hdata⟩

section
variable {gro : Bool} {offered : Nat} {d : Delivery} {datagrams : List Memory}

/-- A datagram that comes alone. -/
theorem Genuine.spoken {x : Memory} (hg : Genuine x) (hpayload : d.payload = x)
    (hc : d.control = []) (hshort : d.payload.length < 2 ^ 32) :
    ∃ m, d.read = some m ∧ m.Says [x] := by
  have hflat : d.payload = [x].flatten := by simpa using hpayload
  cases hg with
  | control mtype testId hm ht hcontent =>
    have htest : testId < 2 ^ 64 := Nat.lt_trans ht (by decide)
    have hlen : x.length = 24 := hcontent ▸ length_controlDatagram mtype testId
    have hmtype : load x 0 8 = mtype.code := hcontent ▸ MessageHeader.load_mtype _
    have hread := Delivery.read_alone hc hflat (Nat.le_of_eq hlen.symm) hshort hmtype
    have hid : packetId x = 0 :=
      hcontent ▸ MessageHeader.load_packetId ⟨mtype, testId, 0⟩ (Nat.two_pow_pos 64)
    have htestId : load x 8 8 = testId :=
      hcontent ▸ MessageHeader.load_testId ⟨mtype, testId, 0⟩ htest
    rw [hid, htestId, hpayload, hlen] at hread
    subst hcontent
    exact ⟨_, hread, .control mtype testId hm ht⟩
  | data testId ht hid hdata =>
    have hread := Delivery.read_alone hc hflat hdata.header hshort hdata.mtype
    rw [hdata.testId] at hread
    refine ⟨_, hread, .data testId _ x [] _ ht hdata ?_ (.inl rfl)⟩
    intro y hy
    rw [List.mem_singleton.mp hy]
    exact ⟨decide_eq_true hdata.mtype, hid⟩

/-- What the kernel makes out of genuine datagrams can be read. -/
theorem Delivery.Carries.spoken (h : d.Carries gro offered datagrams)
    (hg : ∀ x ∈ datagrams, Genuine x) (hshort : d.payload.length < 2 ^ 32) :
    ∃ m, d.read = some m ∧ m.Says datagrams := by
  obtain ⟨hpayload, hcontrol⟩ := h
  split at hcontrol
  · rename_i hc
    rcases hcontrol with hone | ⟨_, _, first, _, hcoalesced⟩
    · obtain ⟨x, rfl⟩ := List.length_eq_one_iff.mp hone
      exact (hg x List.mem_cons_self).spoken (by simpa using hpayload) hc hshort
    · obtain ⟨x, xs, testId, rfl, ht, hx, hdata⟩ := hcoalesced.first hg
      have hread := read_alone hc hpayload hx.header hshort hx.mtype
      rw [hx.testId] at hread
      exact ⟨_, hread, .data testId _ x xs _ ht hx
        (fun y hy => ⟨(hdata y hy).1, (hdata y hy).2.1⟩) (.inl rfl)⟩
  · rename_i c hc
    obtain ⟨_, _, hlevel, htype, hlen, hcoalesced⟩ := hcontrol
    obtain ⟨x, xs, testId, rfl, ht, hx, hdata⟩ := hcoalesced.first hg
    have hseg : d.segment = c.data := by
      simp only [segment, getGsoSizeFromCmsg, hc]
      rw [if_neg (by omega)]
      simp [hlevel, htype]
    have hread := read_group hpayload (hseg ▸ hcoalesced.2.1) (fun y hy => (hdata y hy).2.2)
      hshort (hdata x List.mem_cons_self).1
    rw [hx.testId] at hread
    exact ⟨_, hread, .data testId _ x xs _ ht hx
      (fun y hy => ⟨(hdata y hy).1, (hdata y hy).2.1⟩) (.inr rfl)⟩
  · cases hcontrol

/-- Without GRO every message is one datagram. -/
theorem Delivery.Carries.single (h : d.Carries false offered datagrams) :
    datagrams.length = 1 := by
  obtain ⟨_, hcontrol⟩ := h
  split at hcontrol
  · rcases hcontrol with hone | ⟨hgro, _⟩
    · exact hone
    · cases hgro
  · cases hcontrol.1
  · cases hcontrol

end

/-- A message that is one datagram is seen as a whole. -/
theorem Message.Says.tells {m : Message} {datagrams : List Memory} (h : m.Says datagrams)
    (hone : datagrams.length = 1) : m.Tells datagrams := by
  refine ⟨h, ?_⟩
  cases h with
  | control mtype testId hm ht => rfl
  | data testId bytes x xs ids ht hx hall hids =>
    rcases hids with rfl | rfl
    · exact hone.symm
    · exact List.length_map _

/-- What is read are ids of the datagrams. -/
theorem Message.Says.mem_ids {m : Message} {datagrams : List Memory} (h : m.Says datagrams)
    (hm : m.mtype = .measurement) {id : Nat} (hid : id ∈ m.ids) :
    ∃ x ∈ datagrams, isData x ∧ packetId x + 1 < 2 ^ 64 ∧ packetId x = id := by
  cases h with
  | control mtype testId hcontrol => exact absurd hm hcontrol
  | data testId bytes x xs ids ht hx hall hids =>
    have hmem : id ∈ (x :: xs).map packetId := by
      rcases hids with rfl | rfl
      · rw [List.mem_singleton.mp hid]
        exact List.mem_cons_self
      · exact hid
    obtain ⟨y, hy, rfl⟩ := List.mem_map.mp hmem
    exact ⟨y, hy, (hall y hy).1, (hall y hy).2, rfl⟩

/-- A message that is seen as a whole has the ids of all its datagrams. -/
theorem Message.Tells.ids {m : Message} {datagrams : List Memory} (h : m.Tells datagrams)
    (hm : m.mtype = .measurement) : m.ids = datagrams.map packetId := by
  obtain ⟨hspoken, hlength⟩ := h
  cases hspoken with
  | control mtype testId hcontrol => exact absurd hm hcontrol
  | data testId bytes x xs ids ht hx hall hids =>
    rcases hids with rfl | rfl
    · obtain rfl : xs = [] := by simpa using hlength
      rfl
    · rfl

/-- What a receiver reads is as the senders make it. -/
theorem Message.Says.sane {m : Message} {datagrams : List Memory} (h : m.Says datagrams) :
    Books.Sane m := by
  have hread := h.mem_ids
  cases h with
  | control mtype testId hm ht =>
    exact ⟨ht, by simp, fun _ id hid => List.mem_singleton.mp hid, by simp⟩
  | data testId bytes x xs ids ht hx hall hids =>
    refine ⟨ht, ?_, fun hm => absurd rfl hm, ?_⟩
    · rcases hids with rfl | rfl <;> simp
    · intro id hid
      obtain ⟨_, _, _, hrange, rfl⟩ := hread rfl hid
      exact hrange

namespace Receiver

/-- A receiver in its socket loop. -/
structure Listens (p : Parameter) (r : Receiver) : Prop where
  sound : r.packetBuffer.Sound p.mss p.packetBufferSize
  nonempty : 0 < p.packetBufferSize
  parameter : r.parameter = p
  function : r.exchangeFunction = p.exchangeFunction
  interval : r.statisticInterval.outputInterval = p.outputInterval

theorem Listens.new {clock : Clock} {p : Parameter} {r : Receiver}
    (h : Receiver.new clock p = .ok r) : r.Listens p ∧ r.books = ⟨0, []⟩ := by
  obtain ⟨hsound, hsize, hparameter, hnext, hms⟩ := Receiver.new_ok h
  refine ⟨⟨hsound, hsize, hparameter, ?_, ?_⟩, by simp only [books, hnext, hms, List.map_nil]⟩
  · obtain ⟨b, _, h⟩ := bind_ok.mp h
    cases h
    rfl
  · obtain ⟨b, _, h⟩ := bind_ok.mp h
    cases h
    rfl

/-- What receiving a message does not touch. -/
structure Same (r r' : Receiver) : Prop where
  function : r'.exchangeFunction = r.exchangeFunction
  interval : r'.statisticInterval = r.statisticInterval

section
variable {build : Build} {clock : Clock} {p : Parameter} {r r' : Receiver}
  {result : Except Error Unit}

theorem Handled.same {h : Msghdr} {Packets : Statistic → Statistic → PacketBuffer → Prop}
    (hr : r.Handled clock h Packets result r') : r.Same r' := by
  cases hr <;> exact ⟨rfl, rfl⟩

theorem recvmsg_same {socket : Except Error Delivery}
    (h : r.recvmsg build clock socket = .ok (result, r')) : r.Same r' := by
  cases recvmsg_cases h with
  | failed e => exact ⟨rfl, rfl⟩
  | handled first goes => exact ⟨goes.same.function, goes.same.interval⟩

theorem recvmmsg_same {socket : Except Error (List Delivery)}
    (h : r.recvmmsg build clock socket = .ok (result, r')) : r.Same r' := by
  cases recvmmsg_cases h with
  | failed e => exact ⟨rfl, rfl⟩
  | nothing none => exact ⟨rfl, rfl⟩
  | handled some first goes => exact ⟨goes.same.function, goes.same.interval⟩

theorem Listens.prepared (h : r.Listens p) : r.prepareMsghdrs.Listens p ∧
    r.prepareMsghdrs.books = r.books ∧ r.Same r.prepareMsghdrs := by
  unfold prepareMsghdrs
  split
  · exact ⟨⟨h.sound.resetMsghdrFields, h.nonempty, h.parameter, h.function, h.interval⟩, rfl,
      rfl, rfl⟩
  · exact ⟨h, rfl, rfl, rfl⟩

theorem Listens.framed (h : r.Listens p) (hframe : r.Frame p.mss p.packetBufferSize r')
    (hsame : r.Same r') : r'.Listens p :=
  ⟨hframe.sound, h.nonempty, hframe.parameter.trans h.parameter, hsame.function.trans h.function,
    hsame.interval ▸ h.interval⟩

/-- What a receive call does with the messages it is answered with. A call
that fails hears nothing. -/
inductive Hears (build : Build) (r : Receiver) (result : Except Error Unit) (r' : Receiver) :
    List Message → Prop
  | failed (e : Error) (hresult : result = .error e) (hbooks : r'.books = r.books) :
      Hears build r result r' []
  | heard (ms : List Message) (hbooks : r.books.receive build ms = .ok (result, r'.books)) :
      Hears build r result r' ms

theorem entered_inv {x : Except Fault (Except Error Unit × Receiver)}
    {y : Except Fault (Except Error Unit × Books)} (hx : x.map entered = y)
    (h : x = .ok (result, r')) : y = .ok (result, r'.books) := by
  rw [← hx, h]
  rfl

theorem Listens.recvMessages (hr : r.Listens p) (hmode : p.exchangeFunction ≠ .normal)
    {socket : Socket} {ms : List Message} {statistic : Statistic}
    (hread : ((ReceiverRun.receiving r statistic).arrivals (.receive clock socket)).mapM
      Delivery.read = some ms)
    (hlen : ((ReceiverRun.receiving r statistic).arrivals (.receive clock socket)).length ≤
      p.packetBufferSize)
    (hfit : ∀ d ∈ (ReceiverRun.receiving r statistic).arrivals (.receive clock socket),
      d.payload.length ≤ p.mss)
    (h : r.recvMessages build clock socket = .ok (result, r')) :
    r'.Listens p ∧ r.Same r' ∧ Hears build r result r' ms := by
  obtain ⟨hprepared, hbooks, hsame⟩ := hr.prepared
  unfold Receiver.recvMessages at h
  simp only [ReceiverRun.arrivals] at hread hlen hfit
  cases hfunction : r.exchangeFunction with
  | normal => exact absurd (hr.function ▸ hfunction) hmode
  | msg =>
    rw [hfunction] at h hread hlen hfit
    have hlistens := hprepared.framed (recvmsg_frame hprepared.sound h) (recvmsg_same h)
    have hmoved := recvmsg_same h
    refine ⟨hlistens, ⟨hmoved.function.trans hsame.function,
      hmoved.interval.trans hsame.interval⟩, ?_⟩
    cases hmessage : socket.message with
    | error e =>
      rw [hmessage] at h hread
      obtain ⟨_, _, h⟩ := bind_ok.mp (show _ >>= _ = _ from h)
      cases h
      cases hread
      exact .failed e rfl hbooks
    | ok d =>
      rw [hmessage] at h hread hlen hfit
      obtain ⟨m, rest, hm, hrest, rfl⟩ := mapM_read_cons.mp hread
      cases hrest
      have hentered := recvmsg_books hprepared.sound hr.nonempty hm
        (hfit d List.mem_cons_self) build clock
      exact .heard [m] (hbooks ▸ entered_inv hentered h)
  | mmsg =>
    rw [hfunction] at h hread hlen hfit
    have hlistens := hprepared.framed (recvmmsg_frame hprepared.sound h) (recvmmsg_same h)
    have hmoved := recvmmsg_same h
    refine ⟨hlistens, ⟨hmoved.function.trans hsame.function,
      hmoved.interval.trans hsame.interval⟩, ?_⟩
    cases hbatch : socket.batch with
    | error e =>
      rw [hbatch] at h hread
      cases h
      cases hread
      exact .failed e rfl hbooks
    | ok ds =>
      rw [hbatch] at h hread hlen hfit
      have hentered := recvmmsg_books hprepared.sound hread hlen hfit build clock
      exact .heard ms (hbooks ▸ entered_inv hentered h)

theorem Hears.moves {resets : Prop} {ms : List Message} (h : Hears build r result r' ms) :
    Books.Moves build resets r.books r'.books ms := by
  cases h with
  | failed e hresult hbooks => exact .kept hbooks
  | heard ms hbooks => exact .heard ms result hbooks

theorem resetStatistics_books (clock : Clock) (r : Receiver) :
    (r.resetStatistics clock).books = r.books.reset := by
  simp only [books, resetStatistics, Books.reset, List.map_map]
  rfl

theorem calculateInterval_output (s : StatisticInterval) (clock : Clock) (statistic : Statistic) :
    (s.calculateInterval clock statistic).outputInterval = s.outputInterval := by
  unfold StatisticInterval.calculateInterval
  split <;> rfl

theorem Listens.closeInterval (hr : r.Listens p) {statistic : Statistic}
    {v : Receiver × Statistic} (h : r.closeInterval build clock statistic = .ok v) :
    v.1.Listens p ∧ Books.Moves build (p.outputInterval ≠ 0) r.books v.1.books [] := by
  unfold Receiver.closeInterval at h
  split at h
  · rename_i hexpired
    obtain ⟨sum, _, h⟩ := bind_ok.mp h
    cases h
    have hinterval : p.outputInterval ≠ 0 := by
      have hboth := of_decide_eq_true hexpired
      exact hr.interval ▸ hboth.1
    refine ⟨⟨hr.sound, hr.nonempty, hr.parameter, hr.function, ?_⟩,
      .reset hinterval (resetStatistics_books clock r)⟩
    exact (calculateInterval_output _ _ _).trans hr.interval
  · cases h
    exact ⟨hr, .kept rfl⟩

end
end Receiver

namespace ReceiverRun

/-- A receiver that runs its socket loop. -/
def Listens (p : Parameter) : ReceiverRun → Prop
  | .uring _ => False
  | s => s.receiver.Listens p

section
variable {build : Build} {p : Parameter} {r : Receiver} {statistic : Statistic}
  {s s' : ReceiverRun} {ms : List Message}

theorem Listens.receiver (h : s.Listens p) : s.receiver.Listens p := by
  cases s with
  | uring l => cases h
  | _ => exact h

/-- No more messages are asked for than there are buffers. -/
theorem Listens.offers (h : s.Listens p) : s.offers.length ≤ p.packetBufferSize := by
  cases s with
  | receiving r statistic =>
    have hprepared := (Receiver.Listens.prepared (show r.Listens p from h)).1
    rw [ReceiverRun.offers, List.length_map]
    exact Nat.le_of_eq hprepared.sound.size
  | _ => exact Nat.zero_le _

theorem Listens.received (h : r.Listens p) (result : Except Error Unit) :
    (received r statistic result).Listens p ∧ (received r statistic result).receiver = r := by
  cases result with
  | ok u => exact ⟨h, rfl⟩
  | error e =>
    cases e with
    | lastMessageReceived =>
      simp only [ReceiverRun.received]
      split
      · exact ⟨h, rfl⟩
      · exact ⟨h, rfl⟩
    | _ => exact ⟨h, rfl⟩

theorem Listens.waited (h : r.Listens p) (result : Except Error Unit) :
    (waited r statistic result).Listens p ∧ (waited r statistic result).receiver = r := by
  cases result with
  | ok u => exact ⟨h, rfl⟩
  | error e => cases e <;> exact ⟨h, rfl⟩

theorem Listens.start (h : r.Listens p) (hio : p.ioModel ≠ .ioUring) (clock clock' : Clock)
    (result : WaitResult) (setup : Except Error Unit) :
    (start clock clock' result setup r).Listens p ∧
      (start clock clock' result setup r).receiver.books = r.books := by
  unfold ReceiverRun.start
  split
  · exact ⟨h, rfl⟩
  · exact ⟨h, rfl⟩
  · simp only
    rw [if_pos (show (r.startInterval clock').parameter.ioModel ≠ .ioUring from h.parameter ▸ hio)]
    exact ⟨⟨h.sound, h.nonempty, h.parameter, h.function, h.interval⟩, rfl⟩

theorem Listens.finish (h : r.Listens p) {clock : Clock} {closed : Bool}
    (hfinish : finish build clock closed r statistic = .ok s') :
    s'.Listens p ∧ s'.receiver = r := by
  unfold ReceiverRun.finish at hfinish
  split at hfinish
  · cases hfinish
    exact ⟨h, rfl⟩
  · obtain ⟨final, _, hfinish⟩ := bind_ok.mp hfinish
    cases hfinish
    exact ⟨h, rfl⟩

/-- What a receiver does in one step, if it can read all it is told. -/
theorem Listens.step (hs : s.Listens p) (hio : p.ioModel ≠ .ioUring)
    (hmode : p.exchangeFunction ≠ .normal) {e : ReceiverEvent}
    (hread : (s.arrivals e).mapM Delivery.read = some ms)
    (hlen : (s.arrivals e).length ≤ p.packetBufferSize)
    (hfit : ∀ d ∈ s.arrivals e, d.payload.length ≤ p.mss) (h : s.step build e = .ok s') :
    s'.Listens p ∧
      Books.Moves build (p.outputInterval ≠ 0) s.receiver.books s'.receiver.books ms := by
  unfold ReceiverRun.step at h
  split at h
  · rename_i r clock clock' result setup
    cases h
    cases hread
    obtain ⟨hlistens, hbooks⟩ := Listens.start (show r.Listens p from hs) hio clock clock' result
      setup
    exact ⟨hlistens, .kept hbooks⟩
  · rename_i r statistic clock
    cases hread
    obtain ⟨v, hclose, h⟩ := bind_ok.mp (lift_ok.mp h)
    cases h
    exact Receiver.Listens.closeInterval (show r.Listens p from hs) hclose
  · rename_i r statistic clock socket
    obtain ⟨⟨result, r'⟩, hreceive, h⟩ := bind_ok.mp (lift_ok.mp h)
    cases h
    obtain ⟨hlistens, _, hhears⟩ := Receiver.Listens.recvMessages (show r.Listens p from hs) hmode
      hread hlen hfit hreceive
    obtain ⟨hnext, hsame⟩ : (ReceiverRun.received r' statistic result).Listens p ∧ _ :=
      Listens.received hlistens result
    refine ⟨hnext, ?_⟩
    rw [hsame]
    exact hhears.moves
  · rename_i r statistic result
    cases h
    cases hread
    obtain ⟨hnext, hsame⟩ :
        (ReceiverRun.waited r statistic (ioWait r.parameter.ioModel result)).Listens p ∧ _ :=
      Listens.waited (show r.Listens p from hs) (ioWait r.parameter.ioModel result)
    exact ⟨hnext, .kept (congrArg Receiver.books hsame)⟩
  · cases hs
  · rename_i r statistic clock closed
    cases hread
    obtain ⟨hnext, hsame⟩ := Listens.finish (show r.Listens p from hs) (lift_ok.mp h)
    exact ⟨hnext, .kept (congrArg Receiver.books hsame)⟩
  · cases h

end
end ReceiverRun
end Nperf
