import Nperf.Lib.Runs

namespace Runs
open Rust

variable {σ ε φ : Type}

/-- By how much a measure grows in the steps of a run. A step that lowers it
adds nothing. -/
def gains (step : σ → ε → Except φ σ) (m : σ → Nat) : σ → List ε → Nat
  | _, [] => 0
  | s, e :: es =>
    match step s e with
    | .ok t => m t - m s + gains step m t es
    | .error _ => 0

theorem gains_cons {step : σ → ε → Except φ σ} {m : σ → Nat} {s t : σ} {e : ε} {es : List ε}
    (h : step s e = .ok t) : gains step m s (e :: es) = m t - m s + gains step m t es := by
  simp only [gains, h]

/-- What is observed in the steps of a run, in order. -/
def collect (step : σ → ε → Except φ σ) (observe : σ → ε → σ → List α) : σ → List ε → List α
  | _, [] => []
  | s, e :: es =>
    match step s e with
    | .ok t => observe s e t ++ collect step observe t es
    | .error _ => []

theorem collect_cons {step : σ → ε → Except φ σ} {observe : σ → ε → σ → List α} {s t : σ} {e : ε}
    {es : List ε} (h : step s e = .ok t) :
    collect step observe s (e :: es) = observe s e t ++ collect step observe t es := by
  simp only [collect, h]

/-- What the steps with certain events preserve may speak about the
observations so far. -/
theorem collect_invariant_of {step : σ → ε → Except φ σ} {observe : σ → ε → σ → List α}
    {I : List α → σ → Prop} (E : ε → Prop) (hstep : ∀ log s e s', E e → I log s →
      step s e = .ok s' → I (log ++ observe s e s') s') {s s' : σ} {log : List α} {es : List ε}
    (he : ∀ e ∈ es, E e) (hs : I log s) (h : run step s es = .ok s') :
    I (log ++ collect step observe s es) s' := by
  induction es generalizing s log with
  | nil =>
    cases h
    simpa [collect] using hs
  | cons e es ih =>
    obtain ⟨hhead, htail⟩ := List.forall_mem_cons.mp he
    obtain ⟨t, ht, hr⟩ := run_cons_ok.mp h
    rw [collect_cons ht, ← List.append_assoc]
    exact ih htail (hstep log s e t hhead hs ht) hr

theorem collect_invariant {step : σ → ε → Except φ σ} {observe : σ → ε → σ → List α}
    {I : List α → σ → Prop} (hstep : ∀ log s e s', I log s → step s e = .ok s' →
      I (log ++ observe s e s') s') {s s' : σ} {log : List α} {es : List ε} (hs : I log s)
    (h : run step s es = .ok s') : I (log ++ collect step observe s es) s' :=
  collect_invariant_of (fun _ => True) (fun log s e s' _ => hstep log s e s')
    (fun _ _ => trivial) hs h

/-- What the guarded steps preserve may speak about the events and the
observations so far. -/
theorem collect_history {step : σ → ε → Except φ σ} {observe : σ → ε → σ → List α}
    {G : σ → ε → Prop} {I : List ε → List α → σ → Prop}
    (hstep : ∀ done log s e s', I done log s → G s e → step s e = .ok s' →
      I (done ++ [e]) (log ++ observe s e s') s') {s s' : σ} {done es : List ε} {log : List α}
    (hs : I done log s) (hg : Guarded step G s es) (h : run step s es = .ok s') :
    I (done ++ es) (log ++ collect step observe s es) s' := by
  induction es generalizing s done log with
  | nil =>
    cases h
    simpa [collect] using hs
  | cons e es ih =>
    obtain ⟨t, ht, hr⟩ := run_cons_ok.mp h
    rw [collect_cons ht, ← List.append_assoc, show done ++ e :: es = done ++ [e] ++ es by simp]
    exact ih (hstep done log s e t hs hg.1 ht) (hg.2 t ht) hr

/-- In a run that ends well, nothing is observed exactly if no step meets the
condition under which it shows something. -/
theorem collect_eq_nil_iff {step : σ → ε → Except φ σ} {observe : σ → ε → σ → List α}
    {shows : σ → ε → Prop} {I : σ → Prop} (Q : σ → Prop)
    (hback : ∀ s e t, step s e = .ok t → Q t → Q s)
    (hinv : ∀ s e t, I s → step s e = .ok t → I t)
    (hshows : ∀ s e t, I s → Q t → step s e = .ok t → (observe s e t = [] ↔ ¬shows s e))
    {s s' : σ} {es : List ε} (hs : I s) (h : run step s es = .ok s') (hq : Q s') :
    collect step observe s es = [] ↔ Guarded step (fun s e => ¬shows s e) s es := by
  induction es generalizing s with
  | nil => exact ⟨fun _ => trivial, fun _ => rfl⟩
  | cons e es ih =>
    obtain ⟨t, ht, hr⟩ := run_cons_ok.mp h
    have hfirst := hshows s e t hs (run_back hback hr hq) ht
    have hrest := ih (hinv s e t hs ht) hr
    rw [collect_cons ht, List.append_eq_nil_iff, hfirst, hrest]
    constructor
    · intro hboth
      refine ⟨hboth.1, ?_⟩
      intro u hu
      cases ht.symm.trans hu
      exact hboth.2
    · exact fun hguarded => ⟨hguarded.1, hguarded.2 t ht⟩

/-- Every event of the run meets a guard that may speak about what was
observed before. -/
def GuardedSince (step : σ → ε → Except φ σ) (observe : σ → ε → σ → List α)
    (guard : List α → σ → ε → Prop) : List α → σ → List ε → Prop
  | _, _, [] => True
  | log, s, e :: es =>
    guard log s e ∧
      ∀ t, step s e = .ok t → GuardedSince step observe guard (log ++ observe s e t) t es

instance decidableGuardedSince {step : σ → ε → Except φ σ} {observe : σ → ε → σ → List α}
    {guard : List α → σ → ε → Prop} [∀ log s e, Decidable (guard log s e)] :
    ∀ log s es, Decidable (GuardedSince step observe guard log s es)
  | _, _, [] => .isTrue trivial
  | log, s, e :: es =>
    match h : step s e with
    | .error _ => decidable_of_iff (guard log s e)
        ⟨fun hg => ⟨hg, fun _ ht => nomatch h.symm.trans ht⟩, fun hg => hg.1⟩
    | .ok t =>
      have : Decidable (GuardedSince step observe guard (log ++ observe s e t) t es) :=
        decidableGuardedSince (log ++ observe s e t) t es
      decidable_of_iff
        (guard log s e ∧ GuardedSince step observe guard (log ++ observe s e t) t es)
        ⟨fun hg => ⟨hg.1, fun _ hu => Except.ok.inj (h.symm.trans hu) ▸ hg.2⟩,
          fun hg => ⟨hg.1, hg.2 t h⟩⟩

/-- Two guards that agree wherever an invariant holds, of which one speaks
about the observations. -/
theorem guarded_iff_since {step : σ → ε → Except φ σ} {observe : σ → ε → σ → List α}
    {I : List α → σ → Prop} {G : σ → ε → Prop} {H : List α → σ → ε → Prop}
    (hstep : ∀ log s e s', I log s → step s e = .ok s' → I (log ++ observe s e s') s')
    (hiff : ∀ log s e, I log s → (G s e ↔ H log s e)) {s : σ} {log : List α} {es : List ε}
    (hs : I log s) : Guarded step G s es ↔ GuardedSince step observe H log s es := by
  induction es generalizing s log with
  | nil => exact ⟨fun _ => trivial, fun _ => trivial⟩
  | cons e es ih =>
    apply and_congr (hiff log s e hs)
    apply forall_congr'
    intro t
    apply imp_congr_right
    intro ht
    exact ih (hstep log s e t hs ht)

/-- A run ends in an error exactly if it comes to a step that does, where an
invariant tells these steps by the observations. -/
theorem run_avoids_iff_since {step : σ → ε → Except φ σ} {observe : σ → ε → σ → List α}
    {I : List α → σ → Prop} {err : φ} {H : List α → σ → ε → Prop}
    (hstep : ∀ log s e s', I log s → step s e = .ok s' → I (log ++ observe s e s') s')
    (hiff : ∀ log s e, I log s → (step s e ≠ .error err ↔ H log s e)) {s : σ} {log : List α}
    {es : List ε} (hs : I log s) :
    run step s es ≠ .error err ↔ GuardedSince step observe H log s es := by
  rw [run_avoids_iff]
  exact guarded_iff_since hstep hiff hs

section
variable {step : σ → ε → Except φ σ} {I : σ → Prop} {s s' : σ} {es : List ε} (Q : σ → Prop)
  (m account : σ → Nat)

/-- An account that grows by no more than the gains of each step grows by no
more than those of the run. -/
theorem account_le (hback : ∀ s e t, step s e = .ok t → Q t → Q s)
    (hinv : ∀ s e t, I s → Q t → step s e = .ok t → I t)
    (hle : ∀ s e t, I s → Q t → step s e = .ok t → account t ≤ account s + (m t - m s))
    (hs : I s) (h : run step s es = .ok s') (hq : Q s') :
    account s' ≤ account s + gains step m s es := by
  induction es generalizing s with
  | nil =>
    cases h
    exact Nat.le_add_right _ _
  | cons e es ih =>
    obtain ⟨t, ht, hr⟩ := run_cons_ok.mp h
    have hqt := run_back hback hr hq
    have hfirst := hle s e t hs hqt ht
    have hrest := ih (hinv s e t hs hqt ht) hr
    rw [gains_cons ht]
    omega

/-- It has all gains of the run at the end exactly if no step falls short of
its own. -/
theorem gains_iff (guard : σ → ε → Prop) (hback : ∀ s e t, step s e = .ok t → Q t → Q s)
    (hinv : ∀ s e t, I s → Q t → step s e = .ok t → I t)
    (hle : ∀ s e t, I s → Q t → step s e = .ok t → account t ≤ account s + (m t - m s))
    (heq : ∀ s e t, I s → Q t → step s e = .ok t →
      (account t = account s + (m t - m s) ↔ guard s e))
    (hs : I s) (h : run step s es = .ok s') (hq : Q s') :
    account s' = account s + gains step m s es ↔ Guarded step guard s es := by
  induction es generalizing s with
  | nil =>
    cases h
    exact ⟨fun _ => trivial, fun _ => rfl⟩
  | cons e es ih =>
    obtain ⟨t, ht, hr⟩ := run_cons_ok.mp h
    have hqt := run_back hback hr hq
    have hit := hinv s e t hs hqt ht
    have hfirst := hle s e t hs hqt ht
    have hrest := account_le Q m account hback hinv hle hit hr hq
    have hiff := ih hit hr
    rw [gains_cons ht]
    constructor
    · intro hall
      refine ⟨(heq s e t hs hqt ht).mp (by omega), ?_⟩
      intro u hu
      cases ht.symm.trans hu
      exact hiff.mp (by omega)
    · rintro ⟨hguard, hguarded⟩
      have hhead := (heq s e t hs hqt ht).mpr hguard
      have htail := hiff.mpr (hguarded t ht)
      omega

end

theorem guarded_forall {step : σ → ε → Except φ σ} {guard : α → σ → ε → Prop} {s : σ}
    {es : List ε} :
    (∀ a, Guarded step (guard a) s es) ↔ Guarded step (fun s e => ∀ a, guard a s e) s es := by
  induction es generalizing s with
  | nil => exact ⟨fun _ => trivial, fun _ _ => trivial⟩
  | cons e es ih =>
    constructor
    · exact fun h => ⟨fun a => (h a).1, fun t ht => ih.mp fun a => (h a).2 t ht⟩
    · exact fun h a => ⟨h.1 a, fun t ht => ih.mpr (h.2 t ht) a⟩

end Runs
