import Mathlib.Algebra.BigOperators.Group.List.Basic
import Nperf.Lib.Rust

namespace Ranges

/-- What is below zero and what is above it stays in the range by itself, and so
does every sum of some of the numbers. -/
def Within (lowest highest : Int) (xs : List Int) : Prop :=
  lowest ≤ (xs.map (min 0)).sum ∧ (xs.map (max 0)).sum ≤ highest

instance (lowest highest : Int) (xs : List Int) : Decidable (Within lowest highest xs) :=
  inferInstanceAs (Decidable (_ ∧ _))

variable {lowest highest x y : Int} {xs ys : List Int}

theorem sum_min_nonpos (xs : List Int) : (xs.map (min 0)).sum ≤ 0 := by
  induction xs with
  | nil => exact Int.le_refl 0
  | cons x xs ih =>
    rw [List.map_cons, List.sum_cons]
    omega

theorem sum_max_nonneg (xs : List Int) : 0 ≤ (xs.map (max 0)).sum := by
  induction xs with
  | nil => exact Int.le_refl 0
  | cons x xs ih =>
    rw [List.map_cons, List.sum_cons]
    omega

theorem Within.perm (h : Within lowest highest xs) (hperm : xs.Perm ys) :
    Within lowest highest ys := by
  rw [Within, ← (hperm.map (min 0)).sum_eq, ← (hperm.map (max 0)).sum_eq]
  exact h

theorem Within.tail (h : Within lowest highest (x :: xs)) : Within lowest highest xs := by
  simp only [Within, List.map_cons, List.sum_cons] at h ⊢
  omega

theorem Within.sublist (h : Within lowest highest ys) (hsub : xs.Sublist ys) :
    Within lowest highest xs := by
  obtain ⟨rest, hperm⟩ := hsub.exists_perm_append
  have hall := h.perm (hperm.trans List.perm_append_comm)
  clear h hperm hsub
  induction rest with
  | nil => exact hall
  | cons x rest ih => exact ih hall.tail

theorem Within.zero (h : Within lowest highest xs) : Within lowest highest (0 :: xs) := by
  simp only [Within, List.map_cons, List.sum_cons] at h ⊢
  omega

/-- The first two may be added up. -/
theorem Within.merge (h : Within lowest highest (x :: y :: xs)) :
    Within lowest highest ((x + y) :: xs) := by
  simp only [Within, List.map_cons, List.sum_cons] at h ⊢
  omega

theorem Within.head (h : Within lowest highest (x :: xs)) : lowest ≤ x ∧ x ≤ highest := by
  simp only [Within, List.map_cons, List.sum_cons] at h
  have := sum_min_nonpos xs
  have := sum_max_nonneg xs
  omega

theorem Within.sum (h : Within lowest highest xs) : lowest ≤ xs.sum ∧ xs.sum ≤ highest := by
  have hmax := sum_max_nonneg xs
  have hmin := sum_min_nonpos xs
  have hlow : (xs.map (min 0)).sum ≤ xs.sum ∧ xs.sum ≤ (xs.map (max 0)).sum := by
    clear h hmax hmin
    induction xs with
    | nil => exact ⟨Int.le_refl 0, Int.le_refl 0⟩
    | cons x xs ih =>
      simp only [List.map_cons, List.sum_cons]
      omega
  obtain ⟨hlowest, hhighest⟩ := h
  omega

theorem Within.zeros (h : lowest ≤ 0 ∧ 0 ≤ highest) (as : List α) :
    Within lowest highest (as.map fun _ => 0) := by
  induction as with
  | nil => exact h
  | cons _ as ih => exact ih.zero

end Ranges
