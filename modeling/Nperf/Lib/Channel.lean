import Mathlib.Algebra.Order.Sub.Unbundled.Basic
import Mathlib.Data.Multiset.Count
import Mathlib.Data.Multiset.OrderedMonoid
import Nperf.Lib.Rust

namespace Channel

variable {α : Type}

/-- What an unreliable network does by itself. What is in flight has no order
that it could keep. -/
inductive Move (α : Type)
  | lose (x : α)
  | duplicate (x : α)
  deriving DecidableEq, Repr

/-- Only what is in flight is lost or duplicated. -/
def move [DecidableEq α] (inFlight : Multiset α) : Move α → Option (Multiset α)
  | .lose x => if x ∈ inFlight then some (inFlight.erase x) else none
  | .duplicate x => if x ∈ inFlight then some (x ::ₘ inFlight) else none

def take [DecidableEq α] (inFlight xs : Multiset α) : Option (Multiset α) :=
  if xs ≤ inFlight then some (inFlight - xs) else none

section
variable {κ : Type} [DecidableEq κ] {k k' : κ}

/-- What is in flight under one key. -/
def part (k : κ) (inFlight : Multiset (κ × α)) : Multiset α :=
  (inFlight.filter (·.1 = k)).map Prod.snd

def Move.key : Move (κ × α) → κ
  | .lose x | .duplicate x => x.1

def Move.content : Move (κ × α) → Move α
  | .lose x => .lose x.2
  | .duplicate x => .duplicate x.2

theorem part_add (xs ys : Multiset (κ × α)) : part k (xs + ys) = part k xs + part k ys := by
  simp only [part, Multiset.filter_add, Multiset.map_add]

theorem part_cons (x : κ × α) (xs : Multiset (κ × α)) :
    part k (x ::ₘ xs) = (if x.1 = k then {x.2} else 0) + part k xs := by
  by_cases hk : x.1 = k
  · simp [part, hk]
  · simp [part, hk]

theorem part_map_self (xs : Multiset α) : part k (xs.map (k, ·)) = xs := by
  simp [part, Multiset.filter_map]

theorem part_map_other (hk : k' ≠ k) (xs : Multiset α) : part k (xs.map (k', ·)) = 0 := by
  simp [part, Multiset.filter_map, hk]

variable [DecidableEq α]

/-- The parts are channels of their own. -/
theorem move_part {inFlight rest : Multiset (κ × α)} {m : Move (κ × α)}
    (h : move inFlight m = some rest) (hk : m.key = k) :
    move (part k inFlight) m.content = some (part k rest) := by
  cases m with
  | lose x =>
    change x.1 = k at hk
    simp only [move] at h
    split at h
    · rename_i hx
      cases h
      obtain ⟨xs, rfl⟩ := Multiset.exists_cons_of_mem hx
      rw [Multiset.erase_cons_head, part_cons, if_pos hk, Multiset.singleton_add]
      simp [move, Move.content]
    · cases h
  | duplicate x =>
    change x.1 = k at hk
    simp only [move] at h
    split at h
    · rename_i hx
      cases h
      obtain ⟨xs, rfl⟩ := Multiset.exists_cons_of_mem hx
      rw [part_cons x (x ::ₘ xs), part_cons, if_pos hk, Multiset.singleton_add,
        Multiset.singleton_add]
      simp [move, Move.content]
    · cases h

theorem move_part_other {inFlight rest : Multiset (κ × α)} {m : Move (κ × α)}
    (h : move inFlight m = some rest) (hk : m.key ≠ k) : part k rest = part k inFlight := by
  cases m with
  | lose x =>
    change x.1 ≠ k at hk
    simp only [move] at h
    split at h
    · rename_i hx
      cases h
      obtain ⟨xs, rfl⟩ := Multiset.exists_cons_of_mem hx
      rw [Multiset.erase_cons_head, part_cons, if_neg hk, zero_add]
    · cases h
  | duplicate x =>
    change x.1 ≠ k at hk
    simp only [move] at h
    split at h
    · cases h
      rw [part_cons, if_neg hk, zero_add]
    · cases h

theorem take_part {inFlight rest : Multiset (κ × α)} {xs : Multiset α}
    (h : take inFlight (xs.map (k, ·)) = some rest) :
    take (part k inFlight) xs = some (part k rest) := by
  unfold take at h
  split at h
  · rename_i hle
    cases h
    obtain ⟨ys, rfl⟩ := Multiset.le_iff_exists_add.mp hle
    rw [add_tsub_cancel_left, part_add, part_map_self]
    simp [take]
  · cases h

theorem take_part_other {inFlight rest : Multiset (κ × α)} {xs : Multiset α}
    (h : take inFlight (xs.map (k', ·)) = some rest) (hk : k' ≠ k) :
    part k rest = part k inFlight := by
  unfold take at h
  split at h
  · rename_i hle
    cases h
    obtain ⟨ys, rfl⟩ := Multiset.le_iff_exists_add.mp hle
    rw [add_tsub_cancel_left, part_add, part_map_other hk, zero_add]
  · cases h

end

/-- What has happened on a channel so far. -/
structure Traffic (α : Type) where
  sent : Multiset α
  taken : Multiset α
  lost : Multiset α
  duplicated : Multiset α

namespace Traffic

def none : Traffic α := ⟨0, 0, 0, 0⟩

def send (t : Traffic α) (xs : Multiset α) : Traffic α := { t with sent := t.sent + xs }

def take (t : Traffic α) (xs : Multiset α) : Traffic α := { t with taken := t.taken + xs }

def move (t : Traffic α) : Move α → Traffic α
  | .lose x => { t with lost := t.lost + {x} }
  | .duplicate x => { t with duplicated := t.duplicated + {x} }

end Traffic

/-- Nothing vanishes but what was lost, and nothing is in flight, taken or lost
that was not sent. -/
structure Accounted (t : Traffic α) (inFlight : Multiset α) : Prop where
  balance : t.sent + t.duplicated = t.taken + t.lost + inFlight
  genuine : ∀ x ∈ t.duplicated, x ∈ t.sent

namespace Accounted

variable {t : Traffic α} {inFlight rest xs : Multiset α}

theorem none : Accounted (Traffic.none (α := α)) 0 :=
  ⟨rfl, fun x hx => absurd hx (Multiset.notMem_zero x)⟩

theorem send (h : Accounted t inFlight) (xs : Multiset α) :
    Accounted (t.send xs) (inFlight + xs) := by
  refine ⟨?_, fun x hx => Multiset.mem_add.mpr (.inl (h.genuine x hx))⟩
  have hb := h.balance
  simp only [Traffic.send]
  rw [add_right_comm, hb, add_assoc]

/-- Whatever is in the network or has come out of it has gone into it. -/
theorem origin (h : Accounted t inFlight) {x : α} (hx : x ∈ t.taken + t.lost + inFlight) :
    x ∈ t.sent := by
  rcases Multiset.mem_add.mp (h.balance ▸ hx) with hx | hx
  · exact hx
  · exact h.genuine x hx

theorem inFlight_origin (h : Accounted t inFlight) {x : α} (hx : x ∈ inFlight) : x ∈ t.sent :=
  h.origin (Multiset.mem_add.mpr (.inr hx))

theorem taken_origin (h : Accounted t inFlight) {x : α} (hx : x ∈ t.taken) : x ∈ t.sent :=
  h.origin (Multiset.mem_add.mpr (.inl (Multiset.mem_add.mpr (.inl hx))))

section
variable [DecidableEq α]

theorem take (h : Accounted t inFlight) (htake : Channel.take inFlight xs = some rest) :
    Accounted (t.take xs) rest := by
  unfold Channel.take at htake
  split at htake
  · rename_i hle
    cases htake
    refine ⟨?_, h.genuine⟩
    have hb := h.balance
    simp only [Traffic.take]
    rw [hb, add_right_comm t.taken xs, add_assoc (t.taken + t.lost) xs,
      add_tsub_cancel_of_le hle]
  · cases htake

theorem move (h : Accounted t inFlight) {m : Move α} (hmove : Channel.move inFlight m = some rest) :
    Accounted (t.move m) rest := by
  have hb := h.balance
  cases m with
  | lose x =>
    simp only [Channel.move] at hmove
    split at hmove
    · rename_i hx
      cases hmove
      refine ⟨?_, h.genuine⟩
      simp only [Traffic.move]
      rw [hb, ← add_assoc, add_assoc (t.taken + t.lost) {x}, Multiset.singleton_add,
        Multiset.cons_erase hx]
    · cases hmove
  | duplicate x =>
    simp only [Channel.move] at hmove
    split at hmove
    · rename_i hx
      cases hmove
      refine ⟨?_, fun y hy => ?_⟩
      · simp only [Traffic.move]
        rw [← add_assoc, hb, add_assoc, add_comm inFlight, Multiset.singleton_add]
      · rcases Multiset.mem_add.mp hy with hy | hy
        · exact h.genuine y hy
        · rw [Multiset.mem_singleton.mp hy]
          exact h.inFlight_origin hx
    · cases hmove

end

/-- The balance holds of what has some property. -/
theorem count (h : Accounted t inFlight) (p : α → Prop) [DecidablePred p] :
    t.sent.countP p + t.duplicated.countP p =
      t.taken.countP p + t.lost.countP p + inFlight.countP p := by
  have hb := congrArg (Multiset.countP p) h.balance
  simpa only [Multiset.countP_add] using hb

end Accounted
end Channel
