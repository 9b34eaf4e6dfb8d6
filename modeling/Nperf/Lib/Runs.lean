import Nperf.Lib.Rust

namespace Runs
open Rust

variable {σ ε φ : Type}

/-- Feed a machine a list of events. An event that cannot happen, or that
ends the program, ends the run with an error. -/
def run (step : σ → ε → Except φ σ) : σ → List ε → Except φ σ
  | s, [] => .ok s
  | s, e :: es => step s e >>= fun s' => run step s' es

@[simp] theorem run_nil (step : σ → ε → Except φ σ) (s : σ) : run step s [] = .ok s := rfl

theorem run_cons_ok {step : σ → ε → Except φ σ} {s s' : σ} {e : ε} {es : List ε} :
    run step s (e :: es) = .ok s' ↔ ∃ t, step s e = .ok t ∧ run step t es = .ok s' := by
  simp only [run, bind_ok]

theorem run_append_ok {step : σ → ε → Except φ σ} {s s' : σ} {es es' : List ε} :
    run step s (es ++ es') = .ok s' ↔ ∃ t, run step s es = .ok t ∧ run step t es' = .ok s' := by
  induction es generalizing s with
  | nil => simp
  | cons e es ih =>
    simp only [List.cons_append, run_cons_ok, ih]
    constructor
    · rintro ⟨t, ht, u, hu, hs⟩
      exact ⟨u, ⟨t, ht, hu⟩, hs⟩
    · rintro ⟨u, ⟨t, ht, hu⟩, hs⟩
      exact ⟨t, ht, u, hu, hs⟩

theorem run_append {step : σ → ε → Except φ σ} {s t : σ} {es : List ε}
    (h : run step s es = .ok t) (es' : List ε) : run step s (es ++ es') = run step t es' := by
  induction es generalizing s with
  | nil =>
    cases h
    rfl
  | cons e es ih =>
    obtain ⟨u, hu, hr⟩ := run_cons_ok.mp h
    rw [List.cons_append, run, hu, ok_bind, ih hr]

/-- What the steps with certain events preserve holds at the end of a run with
no others. -/
theorem run_invariant_of {step : σ → ε → Except φ σ} {I : σ → Prop} (E : ε → Prop)
    (hstep : ∀ s e s', E e → I s → step s e = .ok s' → I s') {s s' : σ} {es : List ε}
    (he : ∀ e ∈ es, E e) (hs : I s) (h : run step s es = .ok s') : I s' := by
  induction es generalizing s with
  | nil =>
    cases h
    exact hs
  | cons e es ih =>
    obtain ⟨hhead, htail⟩ := List.forall_mem_cons.mp he
    obtain ⟨t, ht, hr⟩ := run_cons_ok.mp h
    exact ih htail (hstep s e t hhead hs ht) hr

/-- What every step preserves holds at the end of every run. -/
theorem run_invariant {step : σ → ε → Except φ σ} {I : σ → Prop}
    (hstep : ∀ s e s', I s → step s e = .ok s' → I s') {s s' : σ} {es : List ε}
    (hs : I s) (h : run step s es = .ok s') : I s' :=
  run_invariant_of (fun _ => True) (fun s e s' _ => hstep s e s') (fun _ _ => trivial) hs h

/-- A run fails as one of its steps does. -/
theorem run_error {step : σ → ε → Except φ σ} {I : σ → Prop} {E : φ → Prop}
    (hstep : ∀ s e s', I s → step s e = .ok s' → I s')
    (herror : ∀ s e f, I s → step s e = .error f → E f) {s : σ} {es : List ε} {f : φ}
    (hs : I s) (h : run step s es = .error f) : E f := by
  induction es generalizing s with
  | nil => cases h
  | cons e es ih =>
    simp only [run] at h
    cases ht : step s e with
    | error f' =>
      rw [ht] at h
      cases h
      exact herror s e f hs ht
    | ok t =>
      rw [ht] at h
      exact ih (hstep s e t hs ht) h

/-- What every step preserves may speak about the events so far. -/
theorem run_history {step : σ → ε → Except φ σ} {I : List ε → σ → Prop}
    (hstep : ∀ done s e s', I done s → step s e = .ok s' → I (done ++ [e]) s') {s s' : σ}
    {done es : List ε} (hs : I done s) (h : run step s es = .ok s') : I (done ++ es) s' := by
  induction es generalizing s done with
  | nil =>
    cases h
    simpa using hs
  | cons e es ih =>
    obtain ⟨t, ht, hr⟩ := run_cons_ok.mp h
    have := ih (hstep done s e t hs ht) hr
    simpa using this

/-- `P` holds in every state of the run, the first and the last one included. -/
def Always (step : σ → ε → Except φ σ) (P : σ → Prop) : σ → List ε → Prop
  | s, [] => P s
  | s, e :: es => P s ∧ ∀ t, step s e = .ok t → Always step P t es

/-- Every event of the run meets the guard in the state it finds. -/
def Guarded (step : σ → ε → Except φ σ) (guard : σ → ε → Prop) : σ → List ε → Prop
  | _, [] => True
  | s, e :: es => guard s e ∧ ∀ t, step s e = .ok t → Guarded step guard t es

instance decidableGuarded {step : σ → ε → Except φ σ} {guard : σ → ε → Prop}
    [∀ s e, Decidable (guard s e)] : ∀ s es, Decidable (Guarded step guard s es)
  | _, [] => .isTrue trivial
  | s, e :: es =>
    match h : step s e with
    | .error _ => decidable_of_iff (guard s e)
        ⟨fun hg => ⟨hg, fun _ ht => nomatch h.symm.trans ht⟩, fun hg => hg.1⟩
    | .ok t =>
      have : Decidable (Guarded step guard t es) := decidableGuarded t es
      decidable_of_iff (guard s e ∧ Guarded step guard t es)
        ⟨fun hg => ⟨hg.1, fun _ hu => Except.ok.inj (h.symm.trans hu) ▸ hg.2⟩,
          fun hg => ⟨hg.1, hg.2 t h⟩⟩

theorem Guarded.of_forall {step : σ → ε → Except φ σ} {guard : σ → ε → Prop}
    (h : ∀ s e, guard s e) (s : σ) (es : List ε) : Guarded step guard s es := by
  induction es generalizing s with
  | nil => trivial
  | cons e es ih => exact ⟨h s e, fun t _ => ih t⟩

/-- A run avoids an error if all its steps do. -/
theorem run_avoids_iff {step : σ → ε → Except φ σ} {err : φ} {s : σ} {es : List ε} :
    run step s es ≠ .error err ↔ Guarded step (fun s e => step s e ≠ .error err) s es := by
  induction es generalizing s with
  | nil => exact iff_of_true (by simp) trivial
  | cons e es ih =>
    simp only [run, Guarded]
    cases hstep : step s e with
    | error err' => simp
    | ok t => simp [ih]

theorem Guarded.append {step : σ → ε → Except φ σ} {G : σ → ε → Prop} {s t : σ} {es es' : List ε}
    (hg : Guarded step G s es) (h : run step s es = .ok t) (hg' : Guarded step G t es') :
    Guarded step G s (es ++ es') := by
  induction es generalizing s with
  | nil =>
    cases h
    exact hg'
  | cons e es ih =>
    obtain ⟨u, hu, hr⟩ := run_cons_ok.mp h
    refine ⟨hg.1, ?_⟩
    intro v hv
    cases hu.symm.trans hv
    exact ih (hg.2 u hu) hr

/-- Forward simulation: if another system matches every step by a run of its
own, it matches every run. The guards of the one give those of the other. -/
theorem run_matched {step : σ → ε → Except φ σ} {step' : σ' → ε' → Except φ' σ'}
    {R : σ → σ' → Prop} {G : σ → ε → Prop} {G' : σ' → ε' → Prop} {f : ε → List ε'}
    (hstep : ∀ s e s' t, R s t → G s e → step s e = .ok s' →
      ∃ t', run step' t (f e) = .ok t' ∧ Guarded step' G' t (f e) ∧ R s' t')
    {s s' : σ} {t : σ'} {es : List ε} (hr : R s t) (hg : Guarded step G s es)
    (h : run step s es = .ok s') :
    ∃ t', run step' t (es.flatMap f) = .ok t' ∧ Guarded step' G' t (es.flatMap f) ∧ R s' t' := by
  induction es generalizing s t with
  | nil =>
    cases h
    exact ⟨t, rfl, trivial, hr⟩
  | cons e es ih =>
    obtain ⟨u, hu, hrest⟩ := run_cons_ok.mp h
    obtain ⟨v, hv, hguard, hrel⟩ := hstep s e u t hr hg.1 hu
    obtain ⟨t', ht', hguards, hrel'⟩ := ih hrel (hg.2 u hu) hrest
    rw [List.flatMap_cons]
    exact ⟨t', run_append_ok.mpr ⟨v, hv, ht'⟩, hguard.append hv hguards, hrel'⟩

theorem Always.head {step : σ → ε → Except φ σ} {P : σ → Prop} {s : σ} {es : List ε}
    (h : Always step P s es) : P s := by
  cases es with
  | nil => exact h
  | cons e es => exact h.1

theorem Always.imp {step : σ → ε → Except φ σ} {P Q : σ → Prop} (h : ∀ s, P s → Q s) {s : σ}
    {es : List ε} (ha : Always step P s es) : Always step Q s es := by
  induction es generalizing s with
  | nil => exact h s ha
  | cons e es ih => exact ⟨h s ha.1, fun t ht => ih (ha.2 t ht)⟩

/-- What no step can bring about held before a run if it holds after it. -/
theorem run_back {step : σ → ε → Except φ σ} {Q : σ → Prop}
    (hback : ∀ s e s', step s e = .ok s' → Q s' → Q s) {s s' : σ} {es : List ε}
    (h : run step s es = .ok s') (hq : Q s') : Q s := by
  induction es generalizing s with
  | nil =>
    cases h
    exact hq
  | cons e es ih =>
    obtain ⟨t, ht, hr⟩ := run_cons_ok.mp h
    exact hback s e t ht (ih hr)

/-- What every guarded step keeps holds all along, however the run ends. -/
theorem always_of_step {step : σ → ε → Except φ σ} {P : σ → Prop} {guard : σ → ε → Prop}
    (hstep : ∀ s e s', P s → guard s e → step s e = .ok s' → P s') {s : σ} {es : List ε}
    (hp : P s) (hg : Guarded step guard s es) : Always step P s es := by
  induction es generalizing s with
  | nil => exact hp
  | cons e es ih => exact ⟨hp, fun t ht => ih (hstep s e t hp hg.1 ht) (hg.2 t ht)⟩

/-- The two directions of a guard that says exactly which steps keep `P`. The
invariant `I` may rest on `P`; `Q` picks the runs by their last state. -/
theorem always_of_guarded {step : σ → ε → Except φ σ} {I P : σ → Prop} {guard : σ → ε → Prop}
    (Q : σ → Prop) (hback : ∀ s e s', step s e = .ok s' → Q s' → Q s)
    (hinv : ∀ s e s', I s → P s → step s e = .ok s' → I s')
    (hstep : ∀ s e s', I s → P s → Q s' → step s e = .ok s' → guard s e → P s')
    {s s' : σ} {es : List ε} (hi : I s) (hp : P s) (h : run step s es = .ok s') (hq : Q s')
    (hg : Guarded step guard s es) : Always step P s es := by
  induction es generalizing s with
  | nil => exact hp
  | cons e es ih =>
    obtain ⟨t, ht, hr⟩ := run_cons_ok.mp h
    have hpt := hstep s e t hi hp (run_back hback hr hq) ht hg.1
    refine ⟨hp, ?_⟩
    intro u hu
    cases ht.symm.trans hu
    exact ih (hinv s e t hi hp ht) hpt hr (hg.2 t ht)

theorem guarded_of_always {step : σ → ε → Except φ σ} {I P : σ → Prop} {guard : σ → ε → Prop}
    (Q : σ → Prop) (hback : ∀ s e s', step s e = .ok s' → Q s' → Q s)
    (hinv : ∀ s e s', I s → P s → step s e = .ok s' → I s')
    (hstep : ∀ s e s', I s → P s → Q s' → step s e = .ok s' → P s' → guard s e)
    {s s' : σ} {es : List ε} (hi : I s) (h : run step s es = .ok s') (hq : Q s')
    (ha : Always step P s es) : Guarded step guard s es := by
  induction es generalizing s with
  | nil => trivial
  | cons e es ih =>
    obtain ⟨t, ht, hr⟩ := run_cons_ok.mp h
    have hat := ha.2 t ht
    refine ⟨hstep s e t hi ha.1 (run_back hback hr hq) ht hat.head, ?_⟩
    intro u hu
    cases ht.symm.trans hu
    exact ih (hinv s e t hi ha.1 ht) hr hat

end Runs
