import Nperf.Lib.Rust

namespace Scatter
open Rust

variable {α β ε : Type} {step : β → α → Except ε β} {missing : ε}

/-- An item is folded into the cell whose number it carries. -/
def update (step : β → α → Except ε β) (missing : ε) (cells : List β) (item : Nat × α) :
    Except ε (List β) :=
  match cells[item.1]? with
  | none => .error missing
  | some b => (step b item.2).map (cells.set item.1)

/-- What goes to cell `i`, in order. -/
def sentTo (i : Nat) (items : List (Nat × α)) : List α :=
  items.filterMap fun item => if item.1 = i then some item.2 else none

theorem sentTo_append (i : Nat) (items items' : List (Nat × α)) :
    sentTo i (items ++ items') = sentTo i items ++ sentTo i items' :=
  List.filterMap_append

theorem sentTo_self (i : Nat) (a : α) (items : List (Nat × α)) :
    sentTo i ((i, a) :: items) = a :: sentTo i items := by
  rw [sentTo, List.filterMap_cons, if_pos rfl]
  rfl

theorem sentTo_other {i k : Nat} (h : k ≠ i) (a : α) (items : List (Nat × α)) :
    sentTo i ((k, a) :: items) = sentTo i items := by
  rw [sentTo, List.filterMap_cons, if_neg h]
  rfl

theorem update_ok {cells : List β} {k : Nat} {b : β} (hb : cells[k]? = some b) (a : α) :
    update step missing cells (k, a) = (step b a).map (cells.set k) := by
  simp only [update, hb]

/-- Every cell ends with its own items folded into it, if there is a cell for
each item. -/
theorem foldlM_iff {cells cells' : List β} {items : List (Nat × α)}
    (h : ∀ item ∈ items, item.1 < cells.length) :
    items.foldlM (update step missing) cells = .ok cells' ↔ cells'.length = cells.length ∧
      ∀ i b, cells[i]? = some b →
        ∃ b', cells'[i]? = some b' ∧ (sentTo i items).foldlM step b = .ok b' := by
  induction items generalizing cells with
  | nil =>
    constructor
    · intro he
      cases he
      exact ⟨rfl, fun i b hb => ⟨b, hb, rfl⟩⟩
    · rintro ⟨hlength, hcells⟩
      have he : cells' = cells := by
        apply List.ext_getElem?
        intro i
        cases hb : cells[i]? with
        | none => rw [List.getElem?_eq_none_iff] at hb ⊢; omega
        | some b =>
          obtain ⟨b', hb', hsame⟩ := hcells i b hb
          cases hsame
          exact hb'
      rw [he]
      rfl
  | cons item items ih =>
    obtain ⟨k, a⟩ := item
    obtain ⟨hk, hitems⟩ := List.forall_mem_cons.mp h
    have hk : k < cells.length := hk
    have hb := List.getElem?_eq_getElem hk
    rw [List.foldlM_cons, update_ok hb]
    constructor
    · intro he
      obtain ⟨_, hupdate, he⟩ := bind_ok.mp he
      obtain ⟨b, hstep, rfl⟩ := map_eq_ok.mp hupdate
      obtain ⟨hlength, hcells⟩ := (ih (by simpa using hitems)).mp he
      rw [List.length_set] at hlength
      refine ⟨hlength, fun i c hc => ?_⟩
      by_cases hi : k = i
      · subst i
        cases hb.symm.trans hc
        rw [sentTo_self, List.foldlM_cons, hstep, ok_bind]
        exact hcells k b (List.getElem?_set_self hk)
      · rw [sentTo_other hi]
        exact hcells i c (by rw [List.getElem?_set_ne hi, hc])
    · rintro ⟨hlength, hcells⟩
      obtain ⟨_, _, hown⟩ := hcells k _ hb
      rw [sentTo_self, List.foldlM_cons] at hown
      obtain ⟨b, hstep, _⟩ := bind_ok.mp hown
      rw [hstep, map_ok, ok_bind]
      refine (ih (by simpa using hitems)).mpr ⟨by rw [List.length_set, hlength], fun i c hc => ?_⟩
      by_cases hi : k = i
      · subst i
        rw [List.getElem?_set_self hk] at hc
        cases hc
        have hown := hcells k _ hb
        rw [sentTo_self, List.foldlM_cons, hstep, ok_bind] at hown
        exact hown
      · rw [List.getElem?_set_ne hi] at hc
        have hother := hcells i c hc
        rw [sentTo_other hi] at hother
        exact hother

/-- Where the items of every cell can be folded into it, all items can. -/
theorem foldlM_returns {cells : List β} {items : List (Nat × α)}
    (h : ∀ item ∈ items, item.1 < cells.length)
    (hcells : ∀ i b, cells[i]? = some b → ∃ b', (sentTo i items).foldlM step b = .ok b') :
    ∃ cells', items.foldlM (update step missing) cells = .ok cells' := by
  have hfold : ∀ i (hi : i < cells.length),
      ((sentTo i items).foldlM step cells[i]).toOption.isSome := by
    intro i hi
    obtain ⟨b', hb'⟩ := hcells i _ (List.getElem?_eq_getElem hi)
    rw [hb']
    rfl
  refine ⟨List.ofFn fun i : Fin cells.length => Option.get _ (hfold i i.isLt),
    (foldlM_iff h).mpr ⟨List.length_ofFn, fun i b hb => ?_⟩⟩
  obtain ⟨hi, rfl⟩ := List.getElem?_eq_some_iff.mp hb
  exact ⟨_, by rw [List.getElem?_ofFn, dif_pos hi], ok_get (hfold i hi)⟩

/-- Nothing but a single step can go wrong, at a cell and an item as they are
kept. -/
theorem foldlM_error {P : β → Prop} {Q : α → Prop} {cells : List β} {items : List (Nat × α)}
    {e : ε} (h : ∀ item ∈ items, item.1 < cells.length ∧ Q item.2) (hcells : ∀ b ∈ cells, P b)
    (hstep : ∀ b a b', P b → Q a → step b a = .ok b' → P b')
    (he : items.foldlM (update step missing) cells = .error e) :
    ∃ b a, P b ∧ Q a ∧ step b a = .error e := by
  induction items generalizing cells with
  | nil => cases he
  | cons item items ih =>
    obtain ⟨k, a⟩ := item
    obtain ⟨⟨hk, ha⟩, hitems⟩ := List.forall_mem_cons.mp h
    have hk : k < cells.length := hk
    have hP := hcells _ (List.getElem_mem hk)
    rw [List.foldlM_cons, update_ok (List.getElem?_eq_getElem hk)] at he
    cases hresult : step cells[k] a with
    | error f =>
      rw [hresult] at he
      cases he
      exact ⟨_, a, hP, ha, hresult⟩
    | ok b =>
      rw [hresult, map_ok, ok_bind] at he
      refine ih (by simpa using hitems) (fun c hc => ?_) he
      rcases List.mem_or_eq_of_mem_set hc with hc | rfl
      · exact hcells c hc
      · exact hstep _ a _ hP ha hresult

end Scatter
