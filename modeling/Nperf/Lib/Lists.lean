import Mathlib.Data.List.Forall2
import Nperf.Lib.Rust

namespace Lists
open Rust

/-- A sum in which one summand changed. -/
theorem sum_set {l : List α} {i : Nat} {x : α} (hx : l[i]? = some x) (f : α → Int) (y : α) :
    ((l.set i y).map f).sum + f x = (l.map f).sum + f y := by
  induction l generalizing i with
  | nil => cases hx
  | cons z l ih =>
    cases i with
    | zero =>
      cases hx
      simp only [List.set_cons_zero, List.map_cons, List.sum_cons]
      omega
    | succ i =>
      have := ih (i := i) hx
      simp only [List.set_cons_succ, List.map_cons, List.sum_cons]
      omega

theorem sum_set_nat {l : List α} {i : Nat} {x : α} (hx : l[i]? = some x) (f : α → Nat) (y : α) :
    ((l.set i y).map f).sum + f x = (l.map f).sum + f y := by
  induction l generalizing i with
  | nil => cases hx
  | cons z l ih =>
    cases i with
    | zero =>
      cases hx
      simp only [List.set_cons_zero, List.map_cons, List.sum_cons]
      omega
    | succ i =>
      have := ih (i := i) hx
      simp only [List.set_cons_succ, List.map_cons, List.sum_cons]
      omega

theorem sum_map_add (l : List α) (f g : α → Int) :
    (l.map (fun x => f x + g x)).sum = (l.map f).sum + (l.map g).sum := by
  induction l with
  | nil => rfl
  | cons x l ih =>
    simp only [List.map_cons, List.sum_cons, ih]
    omega

theorem sum_map_nonneg {l : List α} {f : α → Int} (h : ∀ x ∈ l, 0 ≤ f x) : 0 ≤ (l.map f).sum := by
  induction l with
  | nil => exact Int.le_refl 0
  | cons x l ih =>
    obtain ⟨hx, hl⟩ := List.forall_mem_cons.mp h
    have := ih hl
    simp only [List.map_cons, List.sum_cons]
    omega

/-- A summand of a sum of nonnegative numbers is not above the sum. -/
theorem le_sum_map {l : List α} {f : α → Int} (h : ∀ x ∈ l, 0 ≤ f x) {x : α} (hx : x ∈ l) :
    f x ≤ (l.map f).sum := by
  induction l with
  | nil => cases hx
  | cons y l ih =>
    obtain ⟨hy, hl⟩ := List.forall_mem_cons.mp h
    have hrest := sum_map_nonneg hl
    simp only [List.map_cons, List.sum_cons]
    rcases List.mem_cons.mp hx with rfl | hx
    · omega
    · have := ih hl hx
      omega

/-- A list is summed up by its indices. -/
theorem sum_getElem? (f : α → Int) {l : List α} {n : Nat} (h : l.length ≤ n) :
    ((List.range n).map fun i => (l[i]?.toList.map f).sum).sum = (l.map f).sum := by
  induction l generalizing n with
  | nil => simp
  | cons x l ih =>
    cases n with
    | zero => cases h
    | succ n =>
      rw [List.range_succ_eq_map, List.map_cons, List.map_map, List.sum_cons, List.map_cons,
        List.sum_cons, ← ih (Nat.le_of_succ_le_succ h)]
      simp [Function.comp_def]

/-- The first summands of a sum over a range. -/
theorem sum_range_below (k a n : Nat) :
    ((List.range n).map fun j => if j < a then k else 0).sum = min a n * k := by
  induction n with
  | zero => simp
  | succ n ih =>
    rw [List.range_succ, List.map_append, List.sum_append, ih]
    simp only [List.map_cons, List.map_nil, List.sum_cons, List.sum_nil, Nat.add_zero]
    split
    · rw [Nat.min_eq_right (by omega), Nat.min_eq_right (by omega), Nat.succ_mul]
    · rw [Nat.min_eq_left (by omega), Nat.min_eq_left (by omega), Nat.add_zero]

theorem sum_range_at (k a n : Nat) :
    ((List.range n).map fun j => if j = a then k else 0).sum = if a < n then k else 0 := by
  induction n with
  | zero => rfl
  | succ n ih =>
    rw [List.range_succ, List.map_append, List.sum_append, ih]
    simp only [List.map_cons, List.map_nil, List.sum_cons, List.sum_nil, Nat.add_zero]
    split <;> split <;> split <;> omega

/-- A selection within another one, and the rest of it. -/
theorem length_filter_within {p q : α → Bool} {l : List α} (h : ∀ x ∈ l, q x = true → p x = true) :
    (l.filter p).length = (l.filter q).length + (l.filter fun x => p x && !q x).length := by
  induction l with
  | nil => rfl
  | cons x l ih =>
    obtain ⟨hx, hl⟩ := List.forall_mem_cons.mp h
    have hrest := ih hl
    cases hq : q x with
    | true =>
      simp only [List.filter_cons, hq, hx hq, if_true, Bool.not_true, Bool.and_false,
        Bool.false_eq_true, if_false, List.length_cons]
      omega
    | false =>
      cases hp : p x with
      | true =>
        simp only [List.filter_cons, hq, hp, if_true, Bool.not_false, Bool.and_true,
          Bool.false_eq_true, if_false, List.length_cons]
        omega
      | false =>
        simp only [List.filter_cons, hq, hp, Bool.false_and, Bool.false_eq_true, if_false]
        exact hrest

section
variable {κ : Type} [DecidableEq κ] {k : κ} {keys : List κ} {i : Nat}

/-- The entries of a list that have some key. -/
def select (k : κ) (keys : List κ) (l : List α) : List α :=
  ((keys.zip l).filter (·.1 = k)).map Prod.snd

/-- Where among them an entry is. -/
def rank (k : κ) (keys : List κ) (i : Nat) : Nat := (keys.take i).countP (· = k)

theorem select_cons (k k' : κ) (keys : List κ) (x : α) (l : List α) :
    select k (k' :: keys) (x :: l) = (if k' = k then [x] else []) ++ select k keys l := by
  by_cases hk : k' = k
  · simp [select, hk]
  · simp [select, hk]

theorem rank_succ (k k' : κ) (keys : List κ) (i : Nat) :
    rank k (k' :: keys) (i + 1) = rank k keys i + if k' = k then 1 else 0 := by
  simp [rank, List.countP_cons]

theorem select_map (f : α → β) (l : List α) :
    select k keys (l.map f) = (select k keys l).map f := by
  simp only [select, List.zip_map_right, List.filter_map, List.map_map]
  rfl

theorem mem_select {l : List α} {x : α} (h : x ∈ select k keys l) : x ∈ l := by
  obtain ⟨y, hy, rfl⟩ := List.mem_map.mp h
  exact (List.of_mem_zip (List.mem_of_mem_filter hy)).2

theorem select_get (hk : keys[i]? = some k) (l : List α) :
    (select k keys l)[rank k keys i]? = l[i]? := by
  induction keys generalizing l i with
  | nil => cases hk
  | cons k' keys ih =>
    cases l with
    | nil => simp [select]
    | cons x l =>
      rw [select_cons]
      cases i with
      | zero =>
        cases hk
        simp [rank]
      | succ i =>
        rw [rank_succ, List.getElem?_cons_succ, ← ih (List.getElem?_cons_succ.symm.trans hk) l]
        split
        · exact List.getElem?_cons_succ
        · rfl

theorem select_set (hk : keys[i]? = some k) (l : List α) (y : α) :
    select k keys (l.set i y) = (select k keys l).set (rank k keys i) y := by
  induction keys generalizing l i with
  | nil => cases hk
  | cons k' keys ih =>
    cases l with
    | nil => simp [select]
    | cons x l =>
      cases i with
      | zero =>
        cases hk
        simp [select_cons, rank]
      | succ i =>
        rw [List.set_cons_succ, select_cons, select_cons, rank_succ,
          ih (List.getElem?_cons_succ.symm.trans hk) l]
        split
        · exact List.set_cons_succ.symm
        · rfl

theorem select_set_other {k' : κ} (hk : keys[i]? = some k') (hne : k' ≠ k) (l : List α) (y : α) :
    select k keys (l.set i y) = select k keys l := by
  induction keys generalizing l i with
  | nil => cases hk
  | cons k'' keys ih =>
    cases l with
    | nil => rfl
    | cons x l =>
      cases i with
      | zero =>
        cases hk
        rw [List.set_cons_zero, select_cons, select_cons, if_neg hne, if_neg hne]
      | succ i =>
        rw [List.set_cons_succ, select_cons, select_cons,
          ih (List.getElem?_cons_succ.symm.trans hk) l]

/-- A key that occurs once selects one entry. -/
theorem select_single (hnodup : keys.Nodup) (hk : keys[i]? = some k) (l : List α) :
    select k keys l = l[i]?.toList := by
  induction keys generalizing l i with
  | nil => cases hk
  | cons k' keys ih =>
    obtain ⟨hnot, hrest⟩ := List.nodup_cons.mp hnodup
    cases l with
    | nil => simp [select]
    | cons x l =>
      rw [select_cons]
      cases i with
      | zero =>
        cases hk
        have hnone : select k keys l = [] := by
          simp only [select, List.map_eq_nil_iff, List.filter_eq_nil_iff, decide_eq_true_eq]
          rintro ⟨key, y⟩ hy rfl
          exact hnot (List.of_mem_zip hy).1
        simp [hnone]
      | succ i =>
        have hk := List.getElem?_cons_succ.symm.trans hk
        have hne : k' ≠ k := by
          rintro rfl
          exact hnot (List.mem_of_getElem? hk)
        rw [if_neg hne, ih hrest hk]
        rfl

end

/-- What the other entries contribute to a concatenation stays when one entry
changes. -/
theorem flatMap_set {l : List α} {i : Nat} {x : α} (hx : l[i]? = some x) (f : α → List β) :
    ∃ rest, (l.flatMap f).Perm (f x ++ rest) ∧
      (∀ y, ((l.set i y).flatMap f).Perm (f y ++ rest)) ∧
      ∀ j y, j ≠ i → l[j]? = some y → f y ⊆ rest := by
  induction l generalizing i with
  | nil => cases hx
  | cons a l ih =>
    cases i with
    | zero =>
      cases hx
      refine ⟨l.flatMap f, .refl _, fun y => .refl _, ?_⟩
      intro j y hj hy
      cases j with
      | zero => cases hj rfl
      | succ j => exact fun z hz => List.mem_flatMap.mpr ⟨y, List.mem_of_getElem? hy, hz⟩
    | succ i =>
      obtain ⟨rest, hold, hnew, hothers⟩ := ih hx
      refine ⟨f a ++ rest, ?_, ?_, ?_⟩
      · exact (hold.append_left (f a)).trans (List.perm_append_comm_assoc _ _ _)
      · exact fun y => ((hnew y).append_left (f a)).trans (List.perm_append_comm_assoc _ _ _)
      · intro j y hj hy
        cases j with
        | zero =>
          cases hy
          exact List.subset_append_left _ _
        | succ j =>
          have hrest := hothers j y (by omega) hy
          exact fun z hz => List.mem_append_right _ (hrest hz)

theorem modify_eq_set {l : List α} {i : Nat} {x : α} (hx : l[i]? = some x) (f : α → α) :
    l.modify i f = l.set i (f x) := by
  obtain ⟨hlt, hget⟩ := List.getElem?_eq_some_iff.mp hx
  apply List.ext_getElem?
  intro j
  simp only [List.getElem?_modify, List.getElem?_set]
  by_cases hj : i = j
  · subst j
    simp [hlt, hget]
  · simp [hj]

theorem modify_eq_self {l : List α} {i : Nat} {x : α} {f : α → α} (hx : l[i]? = some x)
    (hf : f x = x) : l.modify i f = l := by
  obtain ⟨hlt, hget⟩ := List.getElem?_eq_some_iff.mp hx
  rw [modify_eq_set hx, hf, ← hget, List.set_getElem_self]

/-- If an operation settles its argument for good and leaves a state alone in
which the argument is settled, then a list of them changes nothing exactly if
all its arguments are settled already. -/
theorem foldl_eq_self {op : σ → α → σ} (settled : σ → α → Prop)
    (hop : ∀ s x, settled (op s x) x) (hkeep : ∀ s x y, settled s x → settled (op s y) x)
    (hid : ∀ s x, settled s x → op s x = s) (s : σ) (xs : List α) :
    xs.foldl op s = s ↔ ∀ x ∈ xs, settled s x := by
  have hall : ∀ (xs : List α) (s : σ) (x : α), settled s x → settled (xs.foldl op s) x := by
    intro xs
    induction xs with
    | nil => exact fun _ _ h => h
    | cons y ys ih => exact fun s x h => ih _ x (hkeep s x y h)
  constructor
  · intro h
    have hself : ∀ (xs : List α) (s : σ), ∀ x ∈ xs, settled (xs.foldl op s) x := by
      intro xs
      induction xs with
      | nil => exact fun _ x hx => by cases hx
      | cons y ys ih =>
        intro s x hx
        rcases List.mem_cons.mp hx with rfl | hx
        · exact hall ys _ x (hop s x)
        · exact ih _ x hx
    intro x hx
    exact h ▸ hself xs s x hx
  · induction xs generalizing s with
    | nil => exact fun _ => rfl
    | cons y ys ih =>
      intro h
      obtain ⟨hy, hys⟩ := List.forall_mem_cons.mp h
      rw [List.foldl_cons, hid s y hy]
      exact ih s hys

theorem mapM_eq_map {f : α → Except ε β} {g : α → β} {l : List α}
    (h : ∀ x ∈ l, f x = .ok (g x)) : l.mapM f = .ok (l.map g) := by
  induction l with
  | nil => rfl
  | cons x l ih =>
    obtain ⟨hx, hl⟩ := List.forall_mem_cons.mp h
    rw [List.mapM_cons, hx, ok_bind, ih hl, ok_bind]
    rfl

/-- Every element of a list that was mapped has its image in the result. -/
theorem mapM_ok_map {f : α → Except ε β} {g : β → γ} {k : α → γ} {l : List α} {ys : List β}
    (hk : ∀ x y, f x = .ok y → g y = k x) (h : l.mapM f = .ok ys) : ys.map g = l.map k := by
  induction l generalizing ys with
  | nil =>
    cases h
    rfl
  | cons x l ih =>
    rw [List.mapM_cons] at h
    obtain ⟨y, hy, h⟩ := bind_ok.mp h
    obtain ⟨rest, hrest, h⟩ := bind_ok.mp h
    cases h
    rw [List.map_cons, List.map_cons, hk x y hy, ih hrest]

theorem mapM_get {f : α → Except ε β} {l : List α} {ys : List β} (h : l.mapM f = .ok ys) {i : Nat}
    {x : α} (hx : l[i]? = some x) : ∃ y, f x = .ok y ∧ ys[i]? = some y := by
  induction l generalizing ys i with
  | nil => cases hx
  | cons z l ih =>
    rw [List.mapM_cons] at h
    obtain ⟨y, hy, h⟩ := bind_ok.mp h
    obtain ⟨rest, hrest, h⟩ := bind_ok.mp h
    cases h
    cases i with
    | zero =>
      cases hx
      exact ⟨y, hy, rfl⟩
    | succ i => exact ih hrest hx

theorem mapM_length {f : α → Except ε β} {l : List α} {ys : List β} (h : l.mapM f = .ok ys) :
    ys.length = l.length := by
  have := mapM_ok_map (g := fun _ => ()) (k := fun _ => ()) (fun _ _ _ => rfl) h
  simpa using congrArg List.length this

theorem mapM_error {f : α → Except ε β} {l : List α} {e : ε} (h : l.mapM f = .error e) :
    ∃ x, f x = .error e := by
  induction l with
  | nil => cases h
  | cons x l ih =>
    rw [List.mapM_cons] at h
    rcases bind_error h with h | ⟨y, _, h⟩
    · exact ⟨x, h⟩
    · rcases bind_error h with h | ⟨ys, _, h⟩
      · exact ih h
      · cases h

/-- A vector is mapped like the list of its entries. -/
theorem mapM_toList {n : Nat} (f : α → Except ε β) (xs : Vector α n) :
    (xs.mapM f).map Vector.toList = xs.toList.mapM f := by
  rw [← Vector.toList_toArray, ← Array.toList_mapM, ← Vector.toArray_mapM]
  cases xs.mapM f <;> rfl

theorem mapM_some {f : α → Option β} {l : List α} {ys : List β} (h : l.mapM f = some ys) :
    List.Forall₂ (fun x y => f x = some y) l ys := by
  induction l generalizing ys with
  | nil =>
    cases h
    exact .nil
  | cons x l ih =>
    simp only [List.mapM_cons, Option.pure_def, Option.bind_eq_bind, Option.bind_eq_some_iff] at h
    obtain ⟨y, hy, rest, hrest, h⟩ := h
    cases h
    exact .cons hy (ih hrest)

theorem mem_of_mapM_ok {f : α → Except ε β} {l : List α} {ys : List β} (h : l.mapM f = .ok ys)
    {x : α} (hx : x ∈ l) : ∃ y, f x = .ok y ∧ y ∈ ys := by
  induction l generalizing ys with
  | nil => cases hx
  | cons x' l ih =>
    rw [List.mapM_cons] at h
    obtain ⟨y, hy, h⟩ := bind_ok.mp h
    obtain ⟨rest, hrest, h⟩ := bind_ok.mp h
    cases h
    rcases List.mem_cons.mp hx with rfl | hx
    · exact ⟨y, hy, List.mem_cons_self⟩
    · obtain ⟨y', hy', hmem⟩ := ih hrest hx
      exact ⟨y', hy', List.mem_cons_of_mem _ hmem⟩

/-- What every round of a loop keeps holds after the loop. -/
theorem foldlM_ok {f : σ → α → Except ε σ} (P : σ → Prop) {l : List α} {s s' : σ} (h0 : P s)
    (hstep : ∀ s x s', P s → f s x = .ok s' → P s') (h : l.foldlM f s = .ok s') : P s' := by
  induction l generalizing s with
  | nil =>
    cases h
    exact h0
  | cons x l ih =>
    rw [List.foldlM_cons] at h
    obtain ⟨t, ht, h⟩ := bind_ok.mp h
    exact ih (hstep s x t h0 ht) h

/-- A loop over `0..k` succeeds if each round keeps what the next one needs. -/
theorem foldlM_range {f : σ → Nat → Except ε σ} (P : Nat → σ → Prop) {k : Nat} {s : σ} (h0 : P 0 s)
    (hstep : ∀ i s, i < k → P i s → ∃ s', f s i = .ok s' ∧ P (i + 1) s') :
    ∃ s', (List.range k).foldlM f s = .ok s' ∧ P k s' := by
  induction k with
  | zero => exact ⟨s, rfl, h0⟩
  | succ k ih =>
    obtain ⟨t, ht, hp⟩ := ih (fun i s hi => hstep i s (by omega))
    obtain ⟨s', hs, hp'⟩ := hstep k t (by omega) hp
    refine ⟨s', ?_, hp'⟩
    rw [List.range_succ, List.foldlM_append, ht, ok_bind, List.foldlM_cons, hs, ok_bind]
    rfl

/-- What holds after a loop over `0..k` that did succeed. -/
theorem foldlM_range_ok {f : σ → Nat → Except ε σ} (P : Nat → σ → Prop) {k : Nat} {s s' : σ}
    (h0 : P 0 s) (hstep : ∀ i s s', i < k → P i s → f s i = .ok s' → P (i + 1) s')
    (h : (List.range k).foldlM f s = .ok s') : P k s' := by
  induction k generalizing s' with
  | zero =>
    cases h
    exact h0
  | succ k ih =>
    rw [List.range_succ, List.foldlM_append] at h
    obtain ⟨t, ht, h⟩ := bind_ok.mp h
    rw [List.foldlM_cons] at h
    obtain ⟨u, hu, h⟩ := bind_ok.mp h
    cases h
    exact hstep k t s' (by omega) (ih (fun i s s' hi => hstep i s s' (by omega)) ht) hu

/-- What a loop over `0..k` fails with is what one of its rounds fails with. -/
theorem foldlM_range_error {f : σ → Nat → Except ε σ} (P : Nat → σ → Prop) (E : ε → Prop) {k : Nat}
    {s : σ} {e : ε} (h0 : P 0 s)
    (hstep : ∀ i s s', i < k → P i s → f s i = .ok s' → P (i + 1) s')
    (herror : ∀ i s e, i < k → P i s → f s i = .error e → E e)
    (h : (List.range k).foldlM f s = .error e) : E e := by
  induction k generalizing e with
  | zero => cases h
  | succ k ih =>
    rw [List.range_succ, List.foldlM_append] at h
    cases hfront : (List.range k).foldlM f s with
    | error e' =>
      rw [hfront] at h
      cases h
      exact ih (fun i s s' hi => hstep i s s' (by omega))
        (fun i s e hi => herror i s e (by omega)) hfront
    | ok t =>
      have hP := foldlM_range_ok P h0 (fun i s s' hi => hstep i s s' (by omega)) hfront
      rw [hfront, ok_bind, List.foldlM_cons] at h
      cases hlast : f t k with
      | error e' =>
        rw [hlast] at h
        cases h
        exact herror k t e (by omega) hP hlast
      | ok u =>
        rw [hlast] at h
        cases h

theorem forall₂_mem {R : α → β → Prop} {as : List α} {bs : List β} (h : List.Forall₂ R as bs)
    {a : α} (ha : a ∈ as) : ∃ b ∈ bs, R a b := by
  induction h with
  | nil => cases ha
  | cons hab _ ih =>
    rcases List.mem_cons.mp ha with rfl | ha
    · exact ⟨_, List.mem_cons_self, hab⟩
    · obtain ⟨b, hb, hab⟩ := ih ha
      exact ⟨b, List.mem_cons_of_mem _ hb, hab⟩

end Lists
