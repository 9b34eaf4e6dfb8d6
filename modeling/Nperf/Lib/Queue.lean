import Nperf.Lib.Rust

namespace Queue
open Rust

variable {α σ ε φ : Type}

/-- `for x in queue { body(x)?; }` over a queue that is popped as the loop
goes on: an early return leaves the rest in the queue. The body is told how
many elements were popped before. -/
def drain (body : Nat → α → σ → Except φ (Except ε Unit × σ)) :
    Nat → List α → σ → Except φ (Except ε Unit × σ × List α)
  | _, [], s => .ok (.ok (), s, [])
  | i, x :: xs, s => do
    let (result, s) ← body i x s
    match result with
    | .error e => .ok (.error e, s, xs)
    | .ok () => drain body (i + 1) xs s

/-- How a loop over the queue ends: after the last element with its invariant,
or in the body of the first element that returns early. -/
theorem drain_cases {body : Nat → α → σ → Except φ (Except ε Unit × σ)} {R : List α → σ → Prop}
    {i : Nat} {queue rest : List α} {s s' : σ} {result : Except ε Unit} (done : List α)
    (hstep : ∀ done i x s s', R done s → body i x s = .ok (.ok (), s') → R (done ++ [x]) s')
    (hs : R done s) (h : drain body i queue s = .ok (result, s', rest)) :
    (result = .ok () ∧ rest = [] ∧ R (done ++ queue) s') ∨
    ∃ e front x j t, result = .error e ∧ queue = front ++ x :: rest ∧
      R (done ++ front) t ∧ body j x t = .ok (.error e, s') := by
  induction queue generalizing i s done with
  | nil =>
    cases h
    left
    simpa using hs
  | cons x xs ih =>
    simp only [drain, bind_ok] at h
    obtain ⟨⟨r, t⟩, hb, h⟩ := h
    cases r with
    | error e =>
      cases h
      right
      exact ⟨e, [], x, i, s, rfl, rfl, by simpa using hs, hb⟩
    | ok u =>
      rcases ih (done ++ [x]) (hstep done i x s t hs hb) h with
        ⟨hr, hrest, hR⟩ | ⟨e, front, y, j, u, hr, hq, hR, hy⟩
      · left
        exact ⟨hr, hrest, by simpa using hR⟩
      · right
        exact ⟨e, x :: front, y, j, u, hr, by rw [hq]; rfl, by simpa using hR, hy⟩

/-- No loop ends in an error that none of its rounds ends in. -/
theorem drain_avoids {body : Nat → α → σ → Except φ (Except ε Unit × σ)} {e : φ}
    (hbody : ∀ i x s, Avoids e (body i x s)) (i : Nat) (queue : List α) (s : σ) :
    Avoids e (drain body i queue s) := by
  induction queue generalizing i s with
  | nil => exact .ok _
  | cons x xs ih =>
    refine .bind (hbody i x s) ?_
    rintro ⟨result, s'⟩ _
    cases result with
    | error e => exact .ok _
    | ok u => exact ih (i + 1) s'

/-- What every round keeps, the one that returns early included, holds after
the loop. -/
theorem drain_keeps {body : Nat → α → σ → Except φ (Except ε Unit × σ)} {P : σ → Prop}
    {i : Nat} {queue rest : List α} {s s' : σ} {result : Except ε Unit}
    (hstep : ∀ i x s result s', P s → body i x s = .ok (result, s') → P s') (hs : P s)
    (h : drain body i queue s = .ok (result, s', rest)) : P s' := by
  rcases drain_cases [] (R := fun _ s => P s)
    (fun _ i x s s' hs hb => hstep i x s (.ok ()) s' hs hb) hs h with
    ⟨_, _, hP⟩ | ⟨e, _, x, j, t, _, _, hP, hb⟩
  · exact hP
  · exact hstep j x t (.error e) s' hP hb

/-- The loop takes its elements from the front. -/
theorem drain_front {body : Nat → α → σ → Except φ (Except ε Unit × σ)} {i : Nat}
    {queue rest : List α} {s s' : σ} {result : Except ε Unit}
    (h : drain body i queue s = .ok (result, s', rest)) : ∃ front, queue = front ++ rest := by
  rcases drain_cases [] (R := fun _ _ => True) (fun _ _ _ _ _ _ _ => trivial) trivial h with
    ⟨_, rfl, _⟩ | ⟨_, front, x, _, _, _, hqueue, _⟩
  · exact ⟨queue, (List.append_nil queue).symm⟩
  · exact ⟨front ++ [x], by rw [hqueue, List.append_assoc]; rfl⟩

end Queue
