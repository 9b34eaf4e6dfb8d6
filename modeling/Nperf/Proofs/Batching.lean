import Nperf.Ledger.Batch
import Nperf.Lib.Runs
import Nperf.Model.CommandParser
import Nperf.Proofs.Receiving

namespace Nperf
open Rust Bytes Runs

/-- What one `recvmmsg` call finds, with the clock of the call and those of the
`recvmsg` calls in its place. -/
abbrev Batch := Clock × List (Clock × Delivery)

namespace Receiver

/-- A batch received with one `recvmsg` call for each message. -/
def recvEach (build : Build) :
    Receiver → List (Clock × Delivery) → Except Fault (List (Except Error Unit) × Receiver)
  | r, [] => .ok ([], r)
  | r, (clock, d) :: ds => do
    let (result, r) ← r.recvmsg build clock (.ok d)
    let (results, r) ← recvEach build r ds
    .ok (result :: results, r)

def recvEachStep (build : Build) (r : Receiver) (batch : Batch) : Except Fault Receiver := do
  let (_, r) ← r.recvEach build batch.2
  .ok r

/-- Two receivers, one for batches and one for single messages, have the same
books after every batch, and no signal of a message is lost. -/
def Agree (build : Build) : Receiver → Receiver → List Batch → Prop
  | _, _, [] => True
  | r, r', (clock, ds) :: batches =>
    ∃ result s results s',
      r.recvmmsg build clock (.ok (ds.map Prod.snd)) = .ok (result, s) ∧
      r'.recvEach build ds = .ok (results, s') ∧ s.books = s'.books ∧
      (∀ e, .error e ∈ results → result = .error e) ∧ Agree build s s' batches

end Receiver

/-- Datagrams with a header each, no more than there are buffers for. -/
def Batch.WellFormed (p : Parameter) (batch : Batch) : Prop :=
  batch.2.length ≤ p.packetBufferSize ∧ ∀ e ∈ batch.2, e.2.payload.length ≤ p.mss ∧
    ∃ m, e.2.read = some m ∧ m.testId < maxTestId

def Batch.messages (batch : Batch) : List Message := batch.2.filterMap (fun e => e.2.read)

theorem mapM_read_filterMap {ds : List (Clock × Delivery)} (h : ∀ e ∈ ds, ∃ m, e.2.read = some m) :
    (ds.map Prod.snd).mapM Delivery.read = some (ds.filterMap (fun e => e.2.read)) := by
  induction ds with
  | nil => rfl
  | cons e ds ih =>
    obtain ⟨⟨m, hm⟩, hds⟩ := List.forall_mem_cons.mp h
    rw [List.map_cons, mapM_read_cons]
    exact ⟨m, _, hm, ih hds, by rw [List.filterMap_cons, hm]⟩

theorem Receiver.recvEach_books {r : Receiver} (hs : r.packetBuffer.Sound mss n) (hn : 0 < n)
    {ds : List (Clock × Delivery)}
    (hd : ∀ e ∈ ds, e.2.payload.length ≤ mss ∧ ∃ m, e.2.read = some m) (build : Build) :
    (r.recvEach build ds).map (fun (results, r) => (results, r.books)) =
      r.books.receiveEach build (ds.filterMap (fun e => e.2.read)) := by
  induction ds generalizing r with
  | nil => rfl
  | cons e ds ih =>
    obtain ⟨⟨hfit, m, hm⟩, hds⟩ := List.forall_mem_cons.mp hd
    have hx := recvmsg_books hs hn hm hfit build e.1
    rw [List.filterMap_cons, hm, Books.receiveEach, ← hx, recvEach]
    cases hr : r.recvmsg build e.1 (.ok e.2) with
    | error f => rfl
    | ok v =>
      have hrest := ih (recvmsg_frame hs hr).sound hds
      simp only [map_ok, ok_bind, entered]
      rw [← hrest]
      cases v.2.recvEach build ds <;> rfl

theorem Receiver.recvEach_frame {r r' : Receiver} (hs : r.packetBuffer.Sound mss n)
    {build : Build} {ds : List (Clock × Delivery)} {results : List (Except Error Unit)}
    (h : r.recvEach build ds = .ok (results, r')) : r.Frame mss n r' := by
  induction ds generalizing r results with
  | nil =>
    cases h
    exact ⟨hs, rfl⟩
  | cons e ds ih =>
    simp only [recvEach, bind_ok] at h
    obtain ⟨⟨result, s⟩, hfirst, ⟨rest, s'⟩, hrest, h⟩ := h
    cases h
    have hframe := recvmsg_frame hs hfirst
    have hframe' := ih hframe.sound hrest
    exact ⟨hframe'.sound, hframe'.parameter.trans hframe.parameter⟩

theorem Batch.WellFormed.messages {p : Parameter} {batch : Batch} (h : batch.WellFormed p) :
    (batch.2.map Prod.snd).mapM Delivery.read = some batch.messages ∧
      ∀ m ∈ batch.messages, m.testId < maxTestId ∧ m.ids ≠ [] := by
  have hread : ∀ e ∈ batch.2, ∃ m, e.2.read = some m := by
    intro e he
    obtain ⟨_, m, hm, _⟩ := h.2 e he
    exact ⟨m, hm⟩
  refine ⟨mapM_read_filterMap hread, ?_⟩
  intro m hm
  obtain ⟨e, he, hm⟩ := List.mem_filterMap.mp hm
  obtain ⟨_, m', hm', htest⟩ := h.2 e he
  cases hm.symm.trans hm'
  exact ⟨htest, Delivery.read_ids_ne_nil hm⟩

/-- On receivers with the same books: one batch. -/
theorem Receiver.batch_agrees_iff {p : Parameter} {r r' s' : Receiver}
    (hs : r.packetBuffer.Sound p.mss p.packetBufferSize)
    (hs' : r'.packetBuffer.Sound p.mss p.packetBufferSize) (hn : 0 < p.packetBufferSize)
    (hbooks : r.books = r'.books) {build : Build} {batch : Batch} (hb : batch.WellFormed p)
    {results : List (Except Error Unit)} (h : r'.recvEach build batch.2 = .ok (results, s')) :
    (∃ result s, r.recvmmsg build batch.1 (.ok (batch.2.map Prod.snd)) = .ok (result, s) ∧
        s.books = s'.books ∧ ∀ e, .error e ∈ results → result = .error e) ↔
      r'.books.Uniform batch.messages := by
  obtain ⟨hreads, hmessages⟩ := hb.messages
  have heach := recvEach_books hs' hn
    (fun e he => ⟨(hb.2 e he).1, (hb.2 e he).2.imp fun _ hm => hm.1⟩) build
  rw [h, map_ok] at heach
  have hbatch := recvmmsg_books hs hreads (by simpa using hb.1)
    (fun d hd => by
      obtain ⟨e, he, rfl⟩ := List.mem_map.mp hd
      exact (hb.2 e he).1) build batch.1
  rw [← Books.receive_agrees_iff (fun m hm => (hmessages m hm).1) (fun m hm => (hmessages m hm).2)
    heach.symm, ← hbooks, ← hbatch]
  constructor
  · rintro ⟨result, s, hr, hsame, hsignal⟩
    refine ⟨result, ?_, hsignal⟩
    rw [hr, map_ok, entered, hsame]
  · rintro ⟨result, hr, hsignal⟩
    obtain ⟨s, hr, hsame⟩ := entered_ok hr
    exact ⟨result, s, hr, hsame, hsignal⟩

theorem Receiver.agree_iff {p : Parameter} {build : Build} {batches : List Batch}
    (hn : 0 < p.packetBufferSize) (hb : ∀ batch ∈ batches, batch.WellFormed p) {r r' s' : Receiver}
    (hs : r.packetBuffer.Sound p.mss p.packetBufferSize)
    (hs' : r'.packetBuffer.Sound p.mss p.packetBufferSize) (hbooks : r.books = r'.books)
    (h : run (recvEachStep build) r' batches = .ok s') :
    Agree build r r' batches ↔
      Guarded (recvEachStep build) (fun r batch => r.books.Uniform batch.messages) r' batches := by
  induction batches generalizing r r' with
  | nil => exact Iff.rfl
  | cons batch batches ih =>
    obtain ⟨hfirst, hrest⟩ := List.forall_mem_cons.mp hb
    obtain ⟨t, ht, hrun⟩ := run_cons_ok.mp h
    obtain ⟨⟨results, t'⟩, heach, hv⟩ := bind_ok.mp (show _ >>= _ = _ from ht)
    cases hv
    have hiff := batch_agrees_iff hs hs' hn hbooks hfirst heach
    have hframe' := recvEach_frame hs' heach
    constructor
    · rintro ⟨result, s, results', t', hr, heach', hsame, hsignal, hagree⟩
      cases heach.symm.trans heach'
      have hframe := recvmmsg_frame hs hr
      refine ⟨hiff.mp ⟨result, s, hr, hsame, hsignal⟩, ?_⟩
      intro u hu
      cases ht.symm.trans hu
      exact (ih hrest hframe.sound hframe'.sound hsame hrun).mp hagree
    · rintro ⟨huniform, hguard⟩
      obtain ⟨result, s, hr, hsame, hsignal⟩ := hiff.mpr huniform
      have hframe := recvmmsg_frame hs hr
      exact ⟨result, s, results, t, hr, heach, hsame, hsignal,
        (ih hrest hframe.sound hframe'.sound hsame hrun).mpr (hguard t ht)⟩

/-- Batched and single receive agree exactly as long as all batches are
uniform. -/
theorem recvmmsg_agrees_iff (build : Build) (p : Parameter) (r s : Receiver)
    (hr : r.Reachable build p) (batches : List Batch)
    (hb : ∀ batch ∈ batches, batch.WellFormed p)
    (hs : run (Receiver.recvEachStep build) r batches = .ok s) :
    Receiver.Agree build r r batches ↔
      Guarded (Receiver.recvEachStep build) (fun r batch => r.books.Uniform batch.messages)
        r batches := by
  obtain ⟨hsound, hn⟩ := hr.sound
  exact Receiver.agree_iff hn hb hsound hsound rfl hs

/-- Two buffers for header-sized messages. -/
def Parameter.twoBuffers : Parameter :=
  { Parameter.headersOnly with exchangeFunction := .mmsg, packetBufferSize := 2 }

example : { NPerf.headersOnly with exchangeFunction := .mmsg, withMmsgAmount := 2 }.parseParameter
    .debug 8 = .ok (some Parameter.twoBuffers) := by
  decide +kernel

theorem Delivery.packet_fits (mtype : MessageType) {testId packetId : Nat}
    (ht : testId < maxTestId) (hp : packetId < 2 ^ 64) :
    (packet mtype testId packetId).payload.length ≤ 24 ∧
      ∃ m, (packet mtype testId packetId).read = some m ∧ m.testId < maxTestId := by
  simp only [maxTestId] at ht
  exact ⟨Nat.le_of_eq (MessageHeader.length_serialize _),
    ⟨_, Delivery.read_packet mtype (by omega) hp, ht⟩⟩

/-- Two packets of a test and, in a batch of its own, its last message. -/
theorem recvmmsg_agrees_separate :
    let r := (Receiver.new ⟨0, 0⟩ Parameter.twoBuffers).toOption.get (by decide)
    Receiver.Agree .debug r r
      [(⟨1, 1⟩, [(⟨1, 1⟩, .packet .measurement 0 0), (⟨1, 1⟩, .packet .measurement 0 1)]),
        (⟨2, 2⟩, [(⟨2, 2⟩, .packet .last 0 2)])] := by
  let batches : List Batch :=
    [(⟨1, 1⟩, [(⟨1, 1⟩, .packet .measurement 0 0), (⟨1, 1⟩, .packet .measurement 0 1)]),
      (⟨2, 2⟩, [(⟨2, 2⟩, .packet .last 0 2)])]
  have hfits : ∀ batch ∈ batches, batch.WellFormed Parameter.twoBuffers := by
    simp only [batches, List.forall_mem_cons, List.not_mem_nil, false_implies, implies_true,
      and_true, Batch.WellFormed]
    exact ⟨⟨by decide, Delivery.packet_fits _ (by decide) (by decide),
      Delivery.packet_fits _ (by decide) (by decide)⟩,
      by decide, Delivery.packet_fits _ (by decide) (by decide)⟩
  have hmixed : ∀ r : Receiver, Guarded (Receiver.recvEachStep .debug)
      (fun r batch => r.books.Uniform batch.messages) r batches := by
    intro r
    refine ⟨?_, fun t _ => ⟨?_, fun _ _ => trivial⟩⟩
    · intro x hx
      obtain rfl := List.mem_singleton.mp hx
      exact ⟨rfl, rfl⟩
    · intro x hx
      cases hx
  have hrun : ∃ s, run (Receiver.recvEachStep .debug)
      ((Receiver.new ⟨0, 0⟩ Parameter.twoBuffers).toOption.get (by decide)) batches = .ok s :=
    ⟨_, rfl⟩
  obtain ⟨s, hs⟩ := hrun
  exact (recvmmsg_agrees_iff .debug Parameter.twoBuffers _ s
    (.new (rfl : Receiver.new ⟨0, 0⟩ Parameter.twoBuffers = .ok _)) batches hfits hs).mpr
    (hmixed _)

/-- An INIT message hides the data message behind it. -/
theorem recvmmsg_disagrees :
    let r := (Receiver.new ⟨0, 0⟩ Parameter.twoBuffers).toOption.get (by decide)
    ∃ s s', r.recvmmsg .debug ⟨1, 1⟩
          (.ok [.packet .init 0 0, .packet .measurement 0 0]) =
            .ok (.error .initMessageReceived, s) ∧
        r.recvEach .debug [(⟨1, 1⟩, .packet .init 0 0), (⟨1, 1⟩, .packet .measurement 0 0)] =
          .ok ([.error .initMessageReceived, .ok ()], s') ∧
        s.books = ⟨0, [⟨false, false, ⟨0, 0, 0, 0, 0⟩⟩]⟩ ∧
        s'.books = ⟨1, [⟨true, false, ⟨1, 24, 0, 0, 0⟩⟩]⟩ :=
  ⟨_, _, rfl, rfl, rfl, rfl⟩

end Nperf
