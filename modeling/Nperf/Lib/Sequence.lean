import Mathlib.Algebra.GroupWithZero.Nat
import Mathlib.Algebra.Ring.Rat

namespace Sequence

/-- The number that follows all numbers seen, if `n` was expected before. -/
def next (n : Nat) (ids : List Nat) : Nat := ids.foldl (fun n id => max n (id + 1)) n

theorem next_append (n : Nat) (ids ids' : List Nat) :
    next n (ids ++ ids') = next (next n ids) ids' :=
  List.foldl_append

theorem next_snoc (n : Nat) (ids : List Nat) (id : Nat) :
    next n (ids ++ [id]) = max (next n ids) (id + 1) :=
  next_append n ids [id]

theorem le_next (n : Nat) (ids : List Nat) : n ≤ next n ids := by
  induction ids generalizing n with
  | nil => exact Nat.le_refl n
  | cons id ids ih => exact Nat.le_trans (Nat.le_max_left _ _) (ih (max n (id + 1)))

theorem lt_next {ids : List Nat} {id : Nat} (h : id ∈ ids) (n : Nat) : id < next n ids := by
  induction ids generalizing n with
  | nil => cases h
  | cons i ids ih =>
    rcases List.mem_cons.mp h with rfl | h
    · exact Nat.lt_of_lt_of_le (Nat.lt_of_lt_of_le (Nat.lt_succ_self id) (Nat.le_max_right _ _))
        (le_next _ ids)
    · exact ih h (max n (i + 1))

/-- It is only ever the place behind a number seen. -/
theorem next_eq (n : Nat) (ids : List Nat) :
    next n ids = n ∨ ∃ id ∈ ids, next n ids = id + 1 := by
  induction ids generalizing n with
  | nil => exact .inl rfl
  | cons i ids ih =>
    rcases ih (max n (i + 1)) with h | ⟨id, hid, h⟩
    · rcases Nat.le_total n (i + 1) with hle | hle
      · exact .inr ⟨i, List.mem_cons_self, h.trans (Nat.max_eq_right hle)⟩
      · exact .inl (h.trans (Nat.max_eq_left hle))
    · exact .inr ⟨id, List.mem_cons_of_mem i hid, h⟩

theorem next_max (ids : List Nat) {m n : Nat} (h : m ≤ n) :
    next n ids = max n (next m ids) := by
  induction ids generalizing m n with
  | nil => exact (Nat.max_eq_left h).symm
  | cons id ids ih =>
    have hrest : next (max n (id + 1)) ids = _ := ih (m := max m (id + 1)) (by omega)
    have hbound := le_next (max m (id + 1)) ids
    change next (max n (id + 1)) ids = max n (next (max m (id + 1)) ids)
    omega

/-- The numbers below the next one that have not been seen. -/
def missing (ids : List Nat) : List Nat :=
  (List.range (next 0 ids)).filter (fun n => decide (n ∉ ids))

theorem mem_missing {ids : List Nat} {n : Nat} :
    n ∈ missing ids ↔ n < next 0 ids ∧ n ∉ ids := by
  simp [missing]

/-- Every number below the next one is seen or missing. -/
theorem length_missing {ids : List Nat} (h : ids.Nodup) :
    (missing ids).length + ids.length = next 0 ids := by
  have hseen : ((List.range (next 0 ids)).filter (fun n => decide (n ∈ ids))).Perm ids := by
    apply (List.perm_ext_iff_of_nodup (List.filter_sublist.nodup List.nodup_range) h).mpr
    intro n
    simp only [List.mem_filter, List.mem_range, decide_eq_true_eq, and_iff_right_iff_imp]
    exact fun hn => lt_next hn 0
  have hsplit := List.length_eq_countP_add_countP (fun n => decide (n ∈ ids))
    (l := List.range (next 0 ids))
  rw [List.length_range, List.countP_eq_length_filter, List.countP_eq_length_filter,
    hseen.length_eq] at hsplit
  simp only [missing, decide_not]
  simp only [decide_eq_true_eq, decide_not] at hsplit
  omega

/-- The positions of numbers that are smaller than an earlier one. -/
def overtaken (ids : List Nat) : List Nat :=
  (List.range ids.length).filter (fun i => (ids.take i).any (fun early => ids.getD i 0 < early))

theorem overtaken_snoc (ids : List Nat) (id : Nat) :
    overtaken (ids ++ [id]) =
      overtaken ids ++ if ids.any (fun early => id < early) then [ids.length] else [] := by
  have hfront : ∀ i ∈ List.range ids.length,
      ((ids ++ [id]).take i).any (fun early => decide ((ids ++ [id]).getD i 0 < early)) =
        (ids.take i).any (fun early => decide (ids.getD i 0 < early)) := by
    intro i hi
    have hlt := List.mem_range.mp hi
    rw [List.take_append_of_le_length (Nat.le_of_lt hlt)]
    simp [List.getD_eq_getElem?_getD, List.getElem?_append_left hlt]
  rw [overtaken, List.length_append, List.length_singleton, List.range_succ, List.filter_append,
    List.filter_congr hfront]
  congr 1
  simp [List.filter_cons]

/-- A new number is overtaken exactly if it is below the next one. -/
theorem any_lt_iff {ids : List Nat} {id : Nat} (h : id ∉ ids) :
    ids.any (fun early => id < early) = true ↔ id < next 0 ids := by
  simp only [List.any_eq_true, decide_eq_true_eq]
  constructor
  · rintro ⟨early, hearly, hlt⟩
    exact Nat.lt_trans hlt (lt_next hearly 0)
  · intro hlt
    rcases next_eq 0 ids with hzero | ⟨early, hearly, heq⟩
    · omega
    · have hne : early ≠ id := fun heq => h (heq ▸ hearly)
      exact ⟨early, hearly, by omega⟩

/-- No stretch of the sequence moves the next number on by `bound` or more
beyond one for each of its elements. -/
def Steady (bound : Nat) (ids : List Nat) : Prop :=
  ∀ a b d, ids = a ++ b ++ d → next 0 (a ++ b) < next 0 a + bound + b.length

/-- Every final stretch has at least as many elements as it moves the next
number on. -/
def CaughtUp (ids : List Nat) : Prop :=
  ∀ a b, ids = a ++ b → next 0 ids ≤ next 0 a + b.length

end Sequence
