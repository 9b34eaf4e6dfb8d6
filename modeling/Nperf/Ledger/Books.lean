import Nperf.Ledger.Counters
import Nperf.Model.Receiver

namespace Nperf
open Rust Bytes

/-- What a received UDP message says: the header of its first packet, the
packet ids of all of them, and its length. -/
structure Message where
  mtype : MessageType
  testId : Nat
  ids : List Nat
  bytes : Nat
  deriving DecidableEq, Repr

/-- What the receiver knows of one test. -/
structure Book where
  started : Bool
  finished : Bool
  counters : Counters
  deriving DecidableEq, Repr

def Book.fresh : Book := ⟨false, false, Counters.zero⟩

/-- The receiver's purpose: one cursor, and one book for each test. -/
structure Books where
  next : Nat
  tests : List Book
  deriving DecidableEq, Repr

namespace Books

def grow (tests : List Book) (testId : Nat) : List Book :=
  tests ++ List.replicate (testId + 1 - tests.length) Book.fresh

/-- The first data message of a test opens its book. -/
def start (tests : List Book) (testId : Nat) : List Book :=
  (grow tests testId).modify testId (fun b => { b with started := true })

/-- What a header does to the flags, and the signal it raises. -/
def parse (mtype : MessageType) (testId : Nat) (tests : List Book) :
    Except Fault (Except Error Unit × List Book) :=
  if testId ≥ maxTestId then .ok (.error .testIdTooGreat, tests)
  else match mtype with
    | .init => .ok (.error .initMessageReceived, grow tests testId)
    | .measurement => .ok (.ok (), start tests testId)
    | .last =>
      if tests.length ≤ testId then .error .unwrap
      else .ok (.error .lastMessageReceived,
        tests.modify testId (fun b => { b with finished := true }))

/-- Enter packets into the book of a test. -/
def enter (build : Build) (testId : Nat) (ids : List Nat) (bytes : Nat) (b : Books) :
    Except Fault Books :=
  match b.tests[testId]? with
  | none => .error .unwrap
  | some book => do
    let (next, c) ← Counters.arriveAll build ids b.next book.counters
    .ok { next := next
          tests := b.tests.set testId { book with counters := c.count ids.length bytes } }

/-- A batch goes by the header of its first message. -/
def receive (build : Build) (b : Books) (batch : List Message) :
    Except Fault (Except Error Unit × Books) :=
  match batch with
  | [] => .ok (.ok (), b)
  | m :: _ => do
    let (result, tests) ← parse m.mtype m.testId b.tests
    match result with
    | .error e => .ok (.error e, { b with tests := tests })
    | .ok () => do
      let b ← { b with tests := tests }.enter build m.testId (batch.flatMap Message.ids)
        (batch.map Message.bytes).sum
      .ok (.ok (), b)

/-- A message of one test, its packets counted by `count`. -/
def post (mtype : MessageType) (testId : Nat)
    (count : Nat → Counters → Except Fault (Nat × Counters)) (b : Books) :
    Except Fault (Except Error Unit × Books) := do
  let (result, tests) ← parse mtype testId b.tests
  match result with
  | .error e => .ok (.error e, { b with tests := tests })
  | .ok () =>
    match tests[testId]? with
    | none => .error .unwrap
    | some book => do
      let (next, c) ← count b.next book.counters
      .ok (.ok (), { next := next, tests := tests.set testId { book with counters := c } })

/-- `enter` in exact arithmetic. -/
def noted (b : Books) (testId : Nat) (ids : List Nat) (bytes : Nat) : Books :=
  { next := Counters.cursorAll ids b.next
    tests := b.tests.modify testId (fun book => { book with
      counters := (Counters.noteAll ids b.next book.counters).count ids.length bytes }) }

/-- What a batch of data messages does to the books. -/
def note (b : Books) : List Message → Books
  | [] => b
  | m :: ms =>
    { b with tests := start b.tests m.testId }.noted m.testId ((m :: ms).flatMap Message.ids)
      ((m :: ms).map Message.bytes).sum

/-- A new interval forgets the counters, not the flags and not the cursor. -/
def reset (b : Books) : Books :=
  { b with tests := b.tests.map (fun book => { book with counters := Counters.zero }) }

/-- A test without a book has counted nothing. -/
def countersOf (b : Books) (testId : Nat) : Counters :=
  ((b.tests[testId]?).map Book.counters).getD Counters.zero

end Books

def Measurement.book (m : Measurement) : Book :=
  { started := m.firstPacketReceived
    finished := m.lastPacketReceived
    counters := m.statistic.counters }

def Receiver.books (r : Receiver) : Books :=
  { next := r.nextPacketId, tests := r.measurements.map Measurement.book }

/-- The packet counters of a test; a test the receiver does not know has
counted nothing. -/
def Receiver.tallyOf (r : Receiver) (testId : Nat) : Nat × Int × Nat × Nat :=
  match r.measurements[testId]? with
  | some m =>
    (m.statistic.amountDatagrams, m.statistic.amountOmittedDatagrams,
      m.statistic.amountReorderedDatagrams, m.statistic.amountDuplicatedDatagrams)
  | none => (0, 0, 0, 0)

def Counters.tally (c : Counters) : Nat × Int × Nat × Nat :=
  (c.datagrams, c.omitted, c.reordered, c.duplicated)

theorem Counters.tally_inj {c c' : Counters} :
    c.tally = c'.tally ↔ c.datagrams = c'.datagrams ∧ c.omitted = c'.omitted ∧
      c.reordered = c'.reordered ∧ c.duplicated = c'.duplicated := by
  simp only [Counters.tally, Prod.mk.injEq]

theorem Receiver.tallyOf_books (r : Receiver) (testId : Nat) :
    r.tallyOf testId = (r.books.countersOf testId).tally := by
  simp only [Receiver.tallyOf, Books.countersOf, Receiver.books, List.getElem?_map]
  cases r.measurements[testId]? with
  | none => rfl
  | some m => rfl

namespace Delivery

/-- The segment size: from the kernel, or the message is one packet. -/
def segment (d : Delivery) : Nat :=
  (getGsoSizeFromCmsg
    { iovBase := []
      iovLen := 0
      msgIovlen := 1
      msgControl := d.control
      msgControllen := d.controllen
      msgFlags := d.flags }).getD d.payload.length

def ids (d : Delivery) : List Nat :=
  (List.range ((d.payload.length + d.segment - 1) / d.segment)).map
    (fun i => load d.payload (i * d.segment + 16) 8)

/-- A message is readable if its header has a message type and every one of
its segments, the last one included, holds a whole header. -/
def read (d : Delivery) : Option Message :=
  if 24 ≤ d.payload.length ∧ d.payload.length < 2 ^ 32 ∧ 24 ≤ d.segment ∧
      (d.payload.length % d.segment = 0 ∨ 24 ≤ d.payload.length % d.segment) then
    match MessageType.ofCode (load d.payload 0 8) with
    | .ok mtype => some ⟨mtype, load d.payload 8 8, d.ids, d.payload.length⟩
    | .error _ => none
  else none

end Delivery
end Nperf
