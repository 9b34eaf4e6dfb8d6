import Mathlib.Algebra.GroupWithZero.Nat
import Mathlib.Algebra.Ring.Rat

/-- Every item of `all` is in one place: free, held, or lost for good. -/
def Custody (all free held : List α) : Prop := ∃ lost, (free ++ held ++ lost).Perm all

namespace Custody

variable {all free held free' held' gone : List α}

theorem start (all : List α) : Custody all all [] := ⟨[], by simp⟩

/-- Items may change hands, or get lost on the way. -/
theorem lose (h : Custody all free held) (hp : (free ++ held).Perm (free' ++ held' ++ gone)) :
    Custody all free' held' := by
  obtain ⟨lost, hlost⟩ := h
  refine ⟨gone ++ lost, ?_⟩
  rw [← List.append_assoc]
  exact (hp.symm.append_right lost).trans hlost

theorem move (h : Custody all free held) (hp : (free ++ held).Perm (free' ++ held')) :
    Custody all free' held' := by
  have hp' : (free ++ held).Perm (free' ++ held' ++ []) := by simpa using hp
  exact h.lose hp'

theorem nodup (h : Custody all free held) (hall : all.Nodup) : (free ++ held).Nodup := by
  obtain ⟨lost, hlost⟩ := h
  exact (List.nodup_append.mp (hlost.nodup_iff.mpr hall)).1

theorem free_nodup (h : Custody all free held) (hall : all.Nodup) : free.Nodup :=
  (List.nodup_append.mp (h.nodup hall)).1

/-- Nobody holds what is free. -/
theorem held_not_free (h : Custody all free held) (hall : all.Nodup) {x : α} (hx : x ∈ held) :
    x ∉ free :=
  fun hfree => (List.nodup_append.mp (h.nodup hall)).2.2 x hfree x hx rfl

theorem free_mem (h : Custody all free held) {x : α} (hx : x ∈ free) : x ∈ all := by
  obtain ⟨lost, hlost⟩ := h
  exact hlost.mem_iff.mp (by simp [hx])

theorem length_le (h : Custody all free held) : free.length + held.length ≤ all.length := by
  obtain ⟨lost, hlost⟩ := h
  have hlen := hlost.length_eq
  simp only [List.length_append] at hlen
  omega

end Custody
