import Nperf.Ledger.Counters

namespace Nperf.Counters
open Sequence (missing overtaken Steady CaughtUp)

theorem note_duplicated (id next : Nat) (c : Counters) :
    c.duplicated ≤ (c.note id next).duplicated := by
  unfold note
  split
  · exact Nat.le_refl _
  · split
    · exact Nat.le_refl _
    · split
      · exact Nat.le_refl _
      · exact Nat.le_succ _

theorem noteAll_duplicated (ids : List Nat) (next : Nat) (c : Counters) :
    c.duplicated ≤ (noteAll ids next c).duplicated := by
  induction ids generalizing next c with
  | nil => exact Nat.le_refl _
  | cons id ids ih => exact Nat.le_trans (note_duplicated id next c) (ih _ _)

/-- Each packet closes at most one gap. -/
theorem le_noteAll_omitted (ids : List Nat) (next : Nat) (c : Counters) :
    c.omitted + (cursorAll ids next - next : Nat) ≤ (noteAll ids next c).omitted + ids.length := by
  have hbalance := (noteAll_moves ids next c).1
  have hdup := noteAll_duplicated ids next c
  omega

theorem noteAll_nonneg (ids : List Nat) (next : Nat) {c : Counters} (h : 0 ≤ c.omitted) :
    0 ≤ (noteAll ids next c).omitted := by
  induction ids generalizing next c with
  | nil => exact h
  | cons id ids ih =>
    apply ih
    unfold note
    split
    · exact h
    · split
      · simp only
        omega
      · split
        · simp only
          omega
        · exact h

/-- The packets since the gaps were last closed have moved the cursor on by
their own number and that of the missing ones. -/
def Since (done : List Nat) (c : Counters) : Prop :=
  ∃ a b, done = a ++ b ∧ c.omitted + b.length + Sequence.next 0 a = Sequence.next 0 done

theorem Since.note {done : List Nat} {c : Counters} (h : Since done c) (h0 : 0 ≤ c.omitted)
    (id : Nat) : Since (done ++ [id]) (c.note id (Sequence.next 0 done)) := by
  obtain ⟨a, b, rfl, hsum⟩ := h
  have hnext := Sequence.next_snoc 0 (a ++ b) id
  unfold Counters.note
  by_cases hid : id = Sequence.next 0 (a ++ b)
  · rw [if_pos hid]
    refine ⟨a, b ++ [id], by rw [List.append_assoc], ?_⟩
    rw [hnext, List.length_append, List.length_singleton]
    omega
  rw [if_neg hid]
  by_cases hgt : Sequence.next 0 (a ++ b) < id
  · rw [if_pos hgt]
    refine ⟨a, b ++ [id], by rw [List.append_assoc], ?_⟩
    rw [hnext, List.length_append, List.length_singleton]
    simp only
    omega
  rw [if_neg hgt]
  by_cases hom : 0 < c.omitted
  · rw [if_pos hom]
    refine ⟨a, b ++ [id], by rw [List.append_assoc], ?_⟩
    rw [hnext, List.length_append, List.length_singleton]
    simp only
    omega
  · -- a duplicate: nothing is missing, the count starts anew
    rw [if_neg hom]
    refine ⟨a ++ b ++ [id], [], by rw [List.append_nil], ?_⟩
    simp only [List.length_nil]
    omega

theorem Since.noteAll {done : List Nat} {c : Counters} (h : Since done c) (h0 : 0 ≤ c.omitted)
    (ids : List Nat) : Since (done ++ ids) (Counters.noteAll ids (Sequence.next 0 done) c) := by
  induction ids generalizing done c with
  | nil =>
    rw [List.append_nil]
    exact h
  | cons id ids ih =>
    have hrest := ih (h.note h0 id) (noteAll_nonneg [id] (Sequence.next 0 done) h0)
    rw [List.append_assoc, Sequence.next_snoc] at hrest
    exact hrest

theorem Since.all (ids : List Nat) {c : Counters} (hc : c.omitted = 0) :
    Since ids (Counters.noteAll ids 0 c) := by
  have hstart : Since [] c := by
    refine ⟨[], [], rfl, ?_⟩
    rw [hc]
    rfl
  exact hstart.noteAll (Int.le_of_eq hc.symm) ids

/-- A stretch of packets leaves at least the gaps it has made. -/
theorem stretch_omitted (a b : List Nat) {c : Counters} (hc : c.omitted = 0) :
    (Sequence.next 0 (a ++ b) : Int) ≤
      Sequence.next 0 a + b.length + (noteAll (a ++ b) 0 c).omitted := by
  have hfront := noteAll_nonneg a 0 (Int.le_of_eq hc.symm)
  have hstretch := le_noteAll_omitted b (cursorAll a 0) (noteAll a 0 c)
  have hle := le_cursorAll b (cursorAll a 0)
  rw [noteAll_append, Sequence.next_append]
  change ((cursorAll b (cursorAll a 0) : Nat) : Int) ≤ ((cursorAll a 0 : Nat) : Int) + _ + _
  omega

/-- Whether packets are counted as missing shows in the ids alone. -/
theorem omitted_eq_zero_iff (ids : List Nat) {c : Counters} (hc : c.omitted = 0) :
    (noteAll ids 0 c).omitted = 0 ↔ CaughtUp ids := by
  constructor
  · rintro hzero a b rfl
    have := stretch_omitted a b hc
    omega
  · intro h
    obtain ⟨a, b, hsplit, hsum⟩ := Since.all ids hc
    have hle := h a b hsplit
    have h0 := noteAll_nonneg ids 0 (Int.le_of_eq hc.symm)
    omega

/-- The number of missing packets stays below a bound exactly if no stretch of
packets is ahead by that much. -/
theorem omitted_lt_iff (bound : Nat) (ids : List Nat) {c : Counters} (hc : c.omitted = 0) :
    (∀ front, front <+: ids → (noteAll front 0 c).omitted < bound) ↔ Steady bound ids := by
  constructor
  · rintro h a b d rfl
    have hlt := h (a ++ b) (List.prefix_append _ d)
    have := stretch_omitted a b hc
    omega
  · rintro h front ⟨d, rfl⟩
    obtain ⟨a, b, rfl, hsum⟩ := Since.all front hc
    have := h a b d rfl
    omega

/-- What the counters say of packets that came once each. -/
structure Distinct (done : List Nat) (c : Counters) : Prop where
  omitted : c.omitted = (missing done).length
  reordered : c.reordered = (overtaken done).length
  duplicated : c.duplicated = 0

/-- A late packet is one of the missing ones, so the gap it closes is there. -/
theorem Distinct.note {done : List Nat} {c : Counters} (h : Distinct done c) {id : Nat}
    (hnd : (done ++ [id]).Nodup) : Distinct (done ++ [id]) (c.note id (Sequence.next 0 done)) := by
  have hnew : id ∉ done := by
    intro hid
    exact (List.nodup_append.mp hnd).2.2 id hid id (List.mem_singleton_self id) rfl
  have hbefore := Sequence.length_missing (List.nodup_append.mp hnd).1
  have hafter := Sequence.length_missing hnd
  rw [Sequence.next_snoc, List.length_append, List.length_singleton] at hafter
  have homitted := h.omitted
  have hreordered := h.reordered
  have hovertaken := Sequence.overtaken_snoc done id
  have hany := Sequence.any_lt_iff hnew
  unfold Counters.note
  by_cases hlt : id < Sequence.next 0 done
  · have hgap : 0 < (missing done).length :=
      List.length_pos_of_mem (Sequence.mem_missing.mpr ⟨hlt, hnew⟩)
    rw [if_pos (hany.mpr hlt)] at hovertaken
    rw [if_neg (by omega), if_neg (by omega), if_pos (by omega)]
    refine ⟨?_, ?_, h.duplicated⟩
    · simp only
      omega
    · rw [hovertaken, List.length_append, List.length_singleton, hreordered]
  · rw [if_neg (fun hh => hlt (hany.mp hh)), List.append_nil] at hovertaken
    by_cases hid : id = Sequence.next 0 done
    · rw [if_pos hid]
      exact ⟨by omega, by rw [hovertaken, hreordered], h.duplicated⟩
    · rw [if_neg hid, if_pos (by omega)]
      refine ⟨?_, by rw [hovertaken, hreordered], h.duplicated⟩
      simp only
      omega

theorem Distinct.noteAll {done ids : List Nat} {c : Counters} (h : Distinct done c)
    (hnd : (done ++ ids).Nodup) :
    Distinct (done ++ ids) (Counters.noteAll ids (Sequence.next 0 done) c) := by
  induction ids generalizing done c with
  | nil =>
    rw [List.append_nil]
    exact h
  | cons id ids ih =>
    rw [show done ++ id :: ids = done ++ [id] ++ ids by simp] at hnd ⊢
    have hrest := ih (h.note (List.nodup_append.mp hnd).1) hnd
    rw [Sequence.next_snoc] at hrest
    exact hrest

end Nperf.Counters
