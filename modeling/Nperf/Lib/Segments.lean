import Mathlib.Algebra.GroupWithZero.Nat
import Mathlib.Algebra.Ring.Rat

namespace Segments

variable {α : Type}

/-- Cut a list into pieces of `size` elements; the last one may be shorter. -/
def cut (size : Nat) (l : List α) : List (List α) :=
  (List.range ((l.length + size - 1) / size)).map (fun i => (l.drop (i * size)).take size)

/-- Pieces of one size, the last one possibly shorter, none of them empty. -/
def Even (size : Nat) : List (List α) → Prop
  | [] => True
  | [x] => 0 < x.length ∧ x.length ≤ size
  | x :: y :: xs => x.length = size ∧ Even size (y :: xs)

instance decidableEven (size : Nat) : ∀ pieces : List (List α), Decidable (Even size pieces)
  | [] => inferInstanceAs (Decidable True)
  | [x] => inferInstanceAs (Decidable (0 < x.length ∧ x.length ≤ size))
  | x :: y :: xs =>
    have : Decidable (Even size (y :: xs)) := decidableEven size (y :: xs)
    inferInstanceAs (Decidable (x.length = size ∧ Even size (y :: xs)))

theorem cut_nil {size : Nat} (hs : 0 < size) : cut size ([] : List α) = [] := by
  simp only [cut, List.length_nil, Nat.zero_add]
  rw [Nat.div_eq_of_lt (by omega)]
  rfl

theorem cut_short {size : Nat} {x : List α} (h0 : 0 < x.length) (hx : x.length ≤ size) :
    cut size x = [x] := by
  have hone : (x.length + size - 1) / size = 1 :=
    Nat.div_eq_of_lt_le (by omega) (by omega)
  simp only [cut, hone, List.range_one, List.map_cons, List.map_nil, Nat.zero_mul, List.drop_zero]
  rw [List.take_of_length_le hx]

theorem cut_cons {size : Nat} (hs : 0 < size) {x : List α} (hx : x.length = size) (l : List α) :
    cut size (x ++ l) = x :: cut size l := by
  have hcount : ((x ++ l).length + size - 1) / size = (l.length + size - 1) / size + 1 := by
    rw [List.length_append, hx, show size + l.length + size - 1 = l.length + size - 1 + size by
      omega, Nat.add_div_right _ hs]
  simp only [cut, hcount, List.range_succ_eq_map, List.map_cons, List.map_map, Nat.zero_mul,
    List.drop_zero]
  congr 1
  · rw [← hx, List.take_left]
  · apply List.map_congr_left
    intro i _
    have hdrop : (x ++ l).drop ((i + 1) * size) = l.drop (i * size) := by
      rw [List.drop_append, hx, Nat.succ_mul, List.drop_eq_nil_of_le (by omega), List.nil_append,
        Nat.add_sub_cancel]
    simp only [Function.comp, Nat.succ_eq_add_one, hdrop]

/-- Even pieces can be put together and cut again. -/
theorem cut_flatten {size : Nat} (hs : 0 < size) {pieces : List (List α)} (h : Even size pieces) :
    cut size pieces.flatten = pieces := by
  induction pieces with
  | nil => exact cut_nil hs
  | cons x xs ih =>
    cases xs with
    | nil =>
      rw [List.flatten_cons, List.flatten_nil, List.append_nil]
      exact cut_short h.1 h.2
    | cons y ys => rw [List.flatten_cons, cut_cons hs h.1, ih h.2]

/-- If no piece is shorter than `k`, then neither is what is left at the end. -/
theorem cut_tail {size k : Nat} (hs : 0 < size) {l : List α} (h : ∀ x ∈ cut size l, k ≤ x.length) :
    l.length % size = 0 ∨ k ≤ l.length % size := by
  rcases Nat.eq_zero_or_pos (l.length % size) with hzero | hpos
  · exact Or.inl hzero
  have hsplit := Nat.div_add_mod l.length size
  have hlt : l.length / size < (l.length + size - 1) / size := by
    apply (Nat.le_div_iff_mul_le hs).mpr
    rw [Nat.succ_mul, Nat.mul_comm]
    omega
  have hlast := h _ (List.mem_map_of_mem (List.mem_range.mpr hlt))
  have hmod := Nat.mod_lt l.length hs
  rw [List.length_take, List.length_drop, Nat.mul_comm] at hlast
  omega

end Segments
