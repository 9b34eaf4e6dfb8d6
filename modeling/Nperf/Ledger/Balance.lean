import Nperf.Ledger.Books
import Nperf.Lib.Lists

namespace Nperf
open Rust

/-- What one test contributes to the cursor. -/
def Counters.weight (c : Counters) : Int := c.datagrams + c.omitted - c.duplicated

/-- All counters of a run: those of the intervals closed so far, and the
tests' own. -/
def Books.all (b : Books) (closed : List Counters) : List Counters :=
  closed ++ b.tests.map Book.counters

/-- The receiver's balance sheet. Omitted packets lie below the last one even if
they are summed up over all tests and intervals. -/
structure Balanced (b : Books) (closed : List Counters) : Prop where
  weight : ((b.all closed).map Counters.weight).sum = b.next
  nonneg : ∀ c ∈ b.all closed, 0 ≤ c.omitted
  below : ((b.all closed).map Counters.omitted).sum ≤ (b.next - 1 : Nat)
  range : b.next ≤ 2 ^ 63

theorem Balanced.below_each {b : Books} {closed : List Counters} (h : Balanced b closed)
    {c : Counters} (hc : c ∈ b.all closed) : c.omitted ≤ b.next := by
  have hsum := Lists.le_sum_map h.nonneg hc
  have hbelow := h.below
  omega

theorem counters_modify {tests : List Book} {f : Book → Book}
    (hf : ∀ book, (f book).counters = book.counters) (testId : Nat) :
    (tests.modify testId f).map Book.counters = tests.map Book.counters := by
  apply List.ext_getElem?
  intro i
  simp only [List.getElem?_map, List.getElem?_modify]
  cases tests[i]? with
  | none => rfl
  | some book => by_cases hi : testId = i <;> simp [hi, hf]

theorem counters_grow (tests : List Book) (testId : Nat) :
    (Books.grow tests testId).map Book.counters =
      tests.map Book.counters ++ List.replicate (testId + 1 - tests.length) Counters.zero := by
  rw [Books.grow, List.map_append, List.map_replicate]
  rfl

theorem counters_start (tests : List Book) (testId : Nat) :
    (Books.start tests testId).map Book.counters =
      tests.map Book.counters ++ List.replicate (testId + 1 - tests.length) Counters.zero := by
  rw [Books.start, counters_modify (f := fun b : Book => { b with started := true })
    (fun _ => rfl), counters_grow]

/-- New tests change the counters of none. -/
theorem Books.countersOf_append {b b' : Books} {k : Nat}
    (h : b'.tests.map Book.counters = b.tests.map Book.counters ++ List.replicate k Counters.zero)
    (testId : Nat) : b'.countersOf testId = b.countersOf testId := by
  simp only [Books.countersOf, ← List.getElem?_map, h, List.getElem?_append,
    List.getElem?_replicate, List.length_map]
  split
  · rfl
  · rename_i hlt
    rw [List.getElem?_eq_none (by simpa using hlt)]
    split <;> rfl

theorem Books.countersOf_start (b : Books) (u testId : Nat) :
    Books.countersOf { b with tests := Books.start b.tests u } testId = b.countersOf testId :=
  countersOf_append (counters_start b.tests u) testId

/-- Fresh counters weigh nothing. -/
theorem Balanced.fresh {b b' : Books} {closed closed' : List Counters} (h : Balanced b closed)
    {k : Nat} (hnext : b'.next = b.next)
    (hall : b'.all closed' = b.all closed ++ List.replicate k Counters.zero) :
    Balanced b' closed' := by
  have hzero : ∀ f : Counters → Int, f Counters.zero = 0 →
      ((List.replicate k Counters.zero).map f).sum = 0 := by
    intro f hf
    rw [List.map_replicate, hf]
    induction k with
    | zero => rfl
    | succ k ih => simp [List.replicate_succ]
  refine ⟨?_, ?_, ?_, hnext ▸ h.range⟩
  · rw [hall, hnext, List.map_append, List.sum_append, hzero _ rfl, Int.add_zero]
    exact h.weight
  · intro c hc
    rw [hall] at hc
    rcases List.mem_append.mp hc with hc | hc
    · exact h.nonneg c hc
    · rw [(List.mem_replicate.mp hc).2]
      exact Int.le_refl 0
  · rw [hall, hnext, List.map_append, List.sum_append, hzero _ rfl, Int.add_zero]
    exact h.below

theorem Balanced.start {b : Books} {closed : List Counters} (h : Balanced b closed)
    (testId : Nat) : Balanced { b with tests := Books.start b.tests testId } closed :=
  h.fresh rfl (by rw [Books.all, counters_start, ← List.append_assoc]; rfl)

/-- Entering packets, in exact arithmetic. -/
theorem Balanced.enter {b : Books} {closed : List Counters} (h : Balanced b closed)
    {testId : Nat} (htest : testId < b.tests.length) (build : Build) {ids : List Nat}
    (hids : ∀ id ∈ ids, id < 2 ^ 63) (bytes : Nat) :
    b.enter build testId ids bytes = .ok (b.noted testId ids bytes) ∧
      Balanced (b.noted testId ids bytes) closed := by
  have hbook : b.tests[testId]? = some b.tests[testId] := List.getElem?_eq_getElem htest
  generalize b.tests[testId] = book at hbook
  have hmem : book.counters ∈ b.all closed :=
    List.mem_append_right _ (List.mem_map_of_mem (List.mem_of_getElem? hbook))
  have hexact : Counters.Exact b.next book.counters :=
    ⟨h.nonneg _ hmem, h.below_each hmem, h.range⟩
  have hexact' := hexact.noteAll hids
  let c := (Counters.noteAll ids b.next book.counters).count ids.length bytes
  have hset : (b.noted testId ids bytes).tests =
      b.tests.set testId { book with counters := c } := Lists.modify_eq_set hbook _
  have hall : (b.noted testId ids bytes).all closed =
      (b.all closed).set (closed.length + testId) c := by
    simp only [Books.all, hset, List.map_set]
    rw [List.set_append_right _ _ (Nat.le_add_right _ _), Nat.add_sub_cancel_left]
  have hat : (b.all closed)[closed.length + testId]? = some book.counters := by
    unfold Books.all
    rw [List.getElem?_append_right (Nat.le_add_right _ _), Nat.add_sub_cancel_left,
      List.getElem?_map, hbook]
    rfl
  have hle := Counters.le_cursorAll ids b.next
  refine ⟨?_, ⟨?_, ?_, ?_, hexact'.range⟩⟩
  · simp only [Books.enter, hbook, Counters.arriveAll_exact build hexact hids, ok_bind]
    rw [← hset]
    rfl
  · have hsum := Lists.sum_set hat Counters.weight c
    have hbalance := (Counters.noteAll_moves ids b.next book.counters).1
    have hcounted := (Counters.noteAll_counted ids b.next book.counters).1
    have hw := h.weight
    have hgain : c.weight = book.counters.weight +
        (Counters.cursorAll ids b.next - b.next : Nat) := by
      simp only [Counters.weight, c, Counters.count]
      omega
    rw [hall]
    change _ = ((Counters.cursorAll ids b.next : Nat) : Int)
    omega
  · intro x hx
    rw [hall] at hx
    rcases List.mem_or_eq_of_mem_set hx with hx | rfl
    · exact h.nonneg x hx
    · exact hexact'.nonneg
  · have hsum := Lists.sum_set hat Counters.omitted c
    have homitted := (Counters.noteAll_moves ids b.next book.counters).2
    have hb := h.below
    have hgain : c.omitted ≤ book.counters.omitted +
        (Counters.cursorAll ids b.next - b.next - 1 : Nat) := homitted
    rw [hall]
    change _ ≤ ((Counters.cursorAll ids b.next - 1 : Nat) : Int)
    omega

/-- A batch of data messages is received without a fault and keeps the balance. -/
theorem Balanced.receive {b : Books} {closed : List Counters} (h : Balanced b closed)
    (build : Build) {m : Message} {ms : List Message} (hm : m.mtype = .measurement)
    (htest : m.testId < maxTestId) (hids : ∀ id ∈ (m :: ms).flatMap Message.ids, id < 2 ^ 63) :
    b.receive build (m :: ms) = .ok (.ok (), b.note (m :: ms)) ∧
      Balanced (b.note (m :: ms)) closed := by
  have hlt : m.testId < (Books.start b.tests m.testId).length := by
    simp only [Books.start, Books.grow, List.length_modify, List.length_append,
      List.length_replicate]
    omega
  obtain ⟨henter, hbal⟩ := (h.start m.testId).enter hlt build hids
    ((m :: ms).map Message.bytes).sum
  refine ⟨?_, hbal⟩
  simp only [Books.receive, Books.parse, hm]
  rw [if_neg (by omega)]
  simp only [ok_bind, henter]
  rfl

/-- Closing an interval moves the counters of every test to the closed ones. -/
theorem Balanced.reset {b : Books} {closed : List Counters} (h : Balanced b closed) :
    Balanced b.reset (b.all closed) := by
  have htests : b.reset.tests.map Book.counters =
      List.replicate b.tests.length Counters.zero := by
    simp only [Books.reset, List.map_map]
    induction b.tests with
    | nil => rfl
    | cons book tests ih =>
      simp only [List.map_cons, List.length_cons, List.replicate_succ, ih]
      rfl
  exact h.fresh rfl (by rw [Books.all, htests])

end Nperf
