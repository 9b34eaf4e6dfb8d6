import Mathlib.Data.List.AList
import Nperf.Lib.Lists

namespace Handles

variable {κ : Type} {β : κ → Type} {hands hands' : List κ} {t t' : AList β} {k : κ}

/-- The keys of a table are handles in the hands of several parties: each is in
exactly one hand, and nobody holds anything else. -/
def Held (hands : List κ) (t : AList β) : Prop := hands.Perm t.keys

theorem Held.empty : Held [] (∅ : AList β) := List.Perm.nil

theorem Held.of_perm (h : Held hands t) (hp : hands'.Perm hands) : Held hands' t := hp.trans h

theorem Held.nodup (h : Held hands t) : hands.Nodup := h.nodup_iff.mpr t.keys_nodup

theorem Held.mem_iff (h : Held hands t) : k ∈ hands ↔ k ∈ t := List.Perm.mem_iff h

variable [DecidableEq κ]

/-- A move of one party, which may take a fresh key, change the entry of its
own, or give it up. The entries of the others stay. -/
structure Transfer (held held' : Option κ) (t t' : AList β) : Prop where
  hands : ∀ rest, Held (held.toList ++ rest) t → Held (held'.toList ++ rest) t'
  others : ∀ k ∈ t, held ≠ some k → t'.lookup k = t.lookup k

namespace Transfer

/-- Nothing changes for the others. -/
theorem lookup_rest {held held' : Option κ} {rest : List κ} (h : Transfer held held' t t')
    (hheld : Held (held.toList ++ rest) t) (hk : k ∈ rest) : t'.lookup k = t.lookup k := by
  apply h.others k (hheld.mem_iff.mp (List.mem_append_right _ hk))
  intro he
  have hmem : k ∈ held.toList := by simp [he]
  exact (List.nodup_append.mp hheld.nodup).2.2 k hmem k hk rfl

theorem refl (held : Option κ) (t : AList β) : Transfer held held t t :=
  ⟨fun _ h => h, fun _ _ _ => rfl⟩

theorem acquire (hk : k ∉ t) (b : β k) : Transfer none (some k) t (t.insert k b) := by
  refine ⟨?_, ?_⟩
  · intro rest h
    have hkeys : (t.insert k b).keys = k :: t.keys := by
      rw [AList.keys_insert, List.erase_of_not_mem (mt AList.mem_keys.mpr hk)]
    rw [Held, hkeys]
    exact List.Perm.cons k h
  · intro k' hk' _
    have hne : k' ≠ k := fun he => hk (he ▸ hk')
    exact AList.lookup_insert_ne hne

theorem assign (hk : k ∈ t) (b : β k) : Transfer (some k) (some k) t (t.insert k b) := by
  refine ⟨?_, ?_⟩
  · intro rest h
    rw [Held, AList.keys_insert]
    exact List.Perm.trans h (List.perm_cons_erase (AList.mem_keys.mp hk))
  · intro k' _ hne
    have hne : k' ≠ k := fun he => hne (congrArg some he.symm)
    exact AList.lookup_insert_ne hne

theorem release (k : κ) (t : AList β) : Transfer (some k) none t (t.erase k) := by
  refine ⟨?_, ?_⟩
  · intro rest h
    rw [Held, AList.keys_erase]
    have herase := List.Perm.erase k h
    simpa using herase
  · intro k' _ hne
    have hne : k' ≠ k := fun he => hne (congrArg some he.symm)
    exact AList.lookup_erase_ne hne

end Transfer
end Handles
