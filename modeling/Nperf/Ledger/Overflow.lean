import Nperf.Ledger.Gaps

namespace Nperf
open Rust

/-- A sum of two 64-bit numbers that is not below the first has not wrapped. -/
theorem u64_unwrapped {build : Build} {m n k : Nat} (hm : m < 2 ^ 64) (hn : n < 2 ^ 64)
    (h : build.u64 ((m : Int) + n) = .ok k) (hle : m ≤ k) : m + n < 2 ^ 64 := by
  by_cases hfits : m + n < 2 ^ 64
  · exact hfits
  simp only [Build.u64, Build.unsigned] at h
  rw [if_neg (by omega)] at h
  cases build with
  | debug => cases h
  | release =>
    cases h
    omega

/-- A sum that is too great for `i64` does not come out positive. -/
theorem i64_unwrapped {build : Build} {n m : Int} (hn : n < 2 ^ 64) (hmin : -2 ^ 63 ≤ n)
    (h : build.i64 n = .ok m) (hm : 0 ≤ m) : n < 2 ^ 63 ∧ m = n := by
  simp only [Build.i64] at h
  by_cases hfits : n < 2 ^ 63
  · rw [if_pos ⟨hmin, hfits⟩] at h
    cases h
    exact ⟨hfits, rfl⟩
  · rw [if_neg (fun hh => hfits hh.2)] at h
    cases build with
    | debug => cases h
    | release =>
      cases h
      simp only [Int.bmod] at hm
      omega

namespace Counters

/-- The numbers of packets with these ids are all in range: no packet moves the
cursor beyond 64 bits, or the number of missing packets out of `i64`. -/
def InRange : List Nat → Nat → Int → Prop
  | [], _, _ => True
  | id :: ids, next, omitted =>
    if id < next then InRange ids next (if 0 < omitted then omitted - 1 else omitted)
    else
      let missing := omitted + asI64 (id - next)
      id + 1 < 2 ^ 64 ∧ (next < id → -2 ^ 63 ≤ missing ∧ missing < 2 ^ 63) ∧
        InRange ids (id + 1) missing

theorem arrive_behind (build : Build) {c : Counters} {id next : Nat} (h : id < next)
    (hnext : next < 2 ^ 64) :
    ∃ c', c.arrive build id next = .ok (next, c') ∧
      c'.omitted = if 0 < c.omitted then c.omitted - 1 else c.omitted := by
  have hmove : build.u64 ((next : Int) + (0 : Nat)) = .ok next := u64_add build hnext
  have hne : ¬id = next := by omega
  have hngt : ¬next < id := by omega
  refine ⟨c.note id next, ?_, ?_⟩
  · simp only [arrive, verdict, note, if_neg hne, if_neg hngt]
    split
    · simp only [ok_bind, hmove]
    · simp only [ok_bind, hmove]
  · simp only [note, if_neg hne, if_neg hngt]
    split <;> rfl

theorem arrive_ahead {c : Counters} {id next : Nat} (h : next ≤ id) (hlast : id + 1 < 2 ^ 64)
    (hrange : next < id → -2 ^ 63 ≤ c.omitted + asI64 (id - next) ∧
      c.omitted + asI64 (id - next) < 2 ^ 63) (build : Build) :
    ∃ c', c.arrive build id next = .ok (id + 1, c') ∧
      c'.omitted = c.omitted + asI64 (id - next) := by
  simp only [arrive, verdict]
  rcases Nat.eq_or_lt_of_le h with rfl | hlt
  · have hmove : build.u64 ((next : Int) + (1 : Nat)) = .ok (next + 1) := u64_add build hlast
    refine ⟨c, ?_, ?_⟩
    · rw [if_pos rfl, ok_bind]
      simp only [hmove, ok_bind]
    · rw [Nat.sub_self, asI64_fits (by decide)]
      omega
  · obtain ⟨hmin, hmax⟩ := hrange hlt
    have hinc : build.u64 (((id - next : Nat) : Int) + (1 : Nat)) = .ok (id - next + 1) :=
      u64_add build (by omega)
    rw [Int.natCast_one] at hinc
    have hmove := u64_add build (show next + (id - next + 1) < 2 ^ 64 by omega)
    refine ⟨{ c with omitted := c.omitted + asI64 (id - next) }, ?_, rfl⟩
    rw [if_neg (by omega), if_pos hlt]
    simp only [i64_fits build hmin hmax, hinc, ok_bind, hmove]
    rw [show next + (id - next + 1) = id + 1 by omega]

/-- In a build that checks, nothing else arrives. -/
theorem arrive_debug {c : Counters} {id next : Nat} {v : Nat × Counters} (h : next ≤ id)
    (harrive : c.arrive .debug id next = .ok v) :
    id + 1 < 2 ^ 64 ∧ (next < id → -2 ^ 63 ≤ c.omitted + asI64 (id - next) ∧
      c.omitted + asI64 (id - next) < 2 ^ 63) := by
  simp only [arrive, verdict, bind_ok] at harrive
  obtain ⟨⟨increment, c'⟩, hverdict, next', hnext, _⟩ := harrive
  have hmove := debug_u64_ok hnext
  rcases Nat.eq_or_lt_of_le h with rfl | hlt
  · rw [if_pos rfl] at hverdict
    cases hverdict
    exact ⟨by omega, fun hlt => absurd hlt (Nat.lt_irrefl _)⟩
  · rw [if_neg (by omega), if_pos hlt] at hverdict
    simp only [bind_ok] at hverdict
    obtain ⟨omitted, homitted, inc, hinc, hverdict⟩ := hverdict
    cases hverdict
    have hone := debug_u64_ok hinc
    exact ⟨by omega, fun _ => (debug_i64_ok homitted).2⟩

theorem arrive_release (id next : Nat) (c : Counters) : ∃ v, c.arrive .release id next = .ok v := by
  obtain ⟨⟨increment, c'⟩, hverdict⟩ : ∃ v, c.verdict .release id next = .ok v := by
    unfold verdict
    split
    · exact ⟨_, rfl⟩
    split
    · obtain ⟨omitted, homitted⟩ := release_i64 (c.omitted + asI64 (id - next))
      obtain ⟨increment, hincrement⟩ := release_u64 (((id - next : Nat) : Int) + 1)
      exact ⟨_, by rw [homitted, ok_bind, hincrement, ok_bind]⟩
    split
    · exact ⟨_, rfl⟩
    · exact ⟨_, rfl⟩
  obtain ⟨next', hnext⟩ := release_u64 ((next : Int) + increment)
  exact ⟨(next', c'), by simp only [arrive, hverdict, ok_bind, hnext]⟩

/-- A release build counts whatever arrives, a debug build what is in range. -/
theorem arriveAll_ok_iff (build : Build) {ids : List Nat} {next : Nat} {c : Counters}
    (hnext : next < 2 ^ 64) :
    (∃ v, arriveAll build ids next c = .ok v) ↔
      (build = .debug → InRange ids next c.omitted) := by
  induction ids generalizing next c with
  | nil => exact iff_of_true ⟨_, rfl⟩ (fun _ => trivial)
  | cons id ids ih =>
    simp only [arriveAll]
    by_cases hbehind : id < next
    · obtain ⟨c', harrive, homitted⟩ := arrive_behind build (c := c) hbehind hnext
      simp only [harrive, ok_bind, ih hnext, InRange, if_pos hbehind, homitted]
    · have hle := Nat.le_of_not_lt hbehind
      simp only [InRange, if_neg hbehind]
      cases build with
      | release =>
        obtain ⟨⟨next', c'⟩, harrive⟩ := arrive_release id next c
        have hlt : next' < 2 ^ 64 := by
          simp only [arrive, bind_ok] at harrive
          obtain ⟨v, _, n, hn, harrive⟩ := harrive
          cases harrive
          exact u64_lt hn
        simp only [harrive, ok_bind, ih hlt, reduceCtorEq, false_implies]
      | debug =>
        simp only [forall_const]
        constructor
        · rintro ⟨v, hv⟩
          obtain ⟨_, harrive, _⟩ := bind_ok.mp hv
          obtain ⟨hlast, hrange⟩ := arrive_debug hle harrive
          obtain ⟨c', hahead, homitted⟩ := arrive_ahead hle hlast hrange .debug
          rw [hahead, ok_bind] at hv
          exact ⟨hlast, hrange, homitted ▸ (ih hlast).mp ⟨v, hv⟩ rfl⟩
        · rintro ⟨hlast, hrange, hrest⟩
          obtain ⟨c', hahead, homitted⟩ := arrive_ahead hle hlast hrange .debug
          simp only [hahead, ok_bind]
          exact (ih hlast).mpr (fun _ => homitted ▸ hrest)

/-- A packet that leaves the cursor and the counter of missing packets sound
has not been too far ahead. -/
theorem Fits.of_arrive {build : Build} {c c' : Counters} {id next next' : Nat}
    (h0 : 0 ≤ c.omitted) (hlt : c.omitted < 2 ^ 63) (hle : c.omitted ≤ next)
    (hnext : next < 2 ^ 64) (hid : id < 2 ^ 64) (h : c.arrive build id next = .ok (next', c'))
    (hmono : next ≤ next') (hpos : 0 ≤ c'.omitted) : Fits id next c := by
  simp only [arrive, bind_ok] at h
  obtain ⟨⟨increment, d⟩, hverdict, n, hn, h⟩ := h
  cases h
  unfold verdict at hverdict
  by_cases heq : id = next
  · rw [if_pos heq] at hverdict
    cases hverdict
    have := u64_unwrapped hnext (show 1 < 2 ^ 64 by decide) hn hmono
    refine ⟨h0, ?_, ?_⟩
    · unfold Counters.cursor
      omega
    · rw [Counters.note, if_pos heq]
      exact hlt
  rw [if_neg heq] at hverdict
  by_cases hgt : next < id
  · rw [if_pos hgt] at hverdict
    simp only [bind_ok] at hverdict
    obtain ⟨omitted, homitted, inc, hinc, hverdict⟩ := hverdict
    cases hverdict
    -- a gap of 2^63 or more is read as a negative number
    have hgap : id - next < 2 ^ 63 := by
      by_cases hsmall : id - next < 2 ^ 63
      · exact hsmall
      · rw [asI64, if_neg hsmall] at homitted
        have := (i64_unwrapped (by omega) (by omega) homitted hpos).2
        simp only at hpos
        omega
    rw [asI64_fits hgap] at homitted
    have hsum := (i64_unwrapped (by omega) (by omega) homitted hpos).1
    have hone : build.u64 (((id - next : Nat) : Int) + (1 : Nat)) = .ok (id - next + 1) :=
      u64_add build (by omega)
    rw [Int.natCast_one] at hone
    cases hone.symm.trans hinc
    have := u64_unwrapped hnext (by omega) hn hmono
    refine ⟨h0, ?_, ?_⟩
    · unfold Counters.cursor
      omega
    · rw [Counters.note, if_neg heq, if_pos hgt]
      exact hsum
  · refine ⟨h0, ?_, ?_⟩
    · unfold Counters.cursor
      omega
    · rw [Counters.note, if_neg heq, if_neg hgt]
      split
      · simp only
        omega
      · exact hlt

/-- The program has counted packets as in unbounded arithmetic. -/
structure Exactly (build : Build) (done : List Nat) : Prop where
  run : arriveAll build done 0 zero = .ok (cursorAll done 0, noteAll done 0 zero)
  cursor : cursorAll done 0 < 2 ^ 64
  omitted : (noteAll done 0 zero).omitted < 2 ^ 63

theorem Exactly.nil (build : Build) : Exactly build [] :=
  ⟨rfl, by decide, by decide⟩

theorem arriveAll_snoc (build : Build) (done : List Nat) (id : Nat) {next : Nat} {c : Counters}
    (h : arriveAll build done 0 zero = .ok (next, c)) :
    arriveAll build (done ++ [id]) 0 zero = c.arrive build id next := by
  rw [arriveAll_append, h, ok_bind]
  simp only [arriveAll]
  cases c.arrive build id next with
  | error f => rfl
  | ok v => rfl

theorem Exactly.snoc {build : Build} {done : List Nat} (h : Exactly build done) {id : Nat}
    (hfits : Fits id (cursorAll done 0) (noteAll done 0 zero)) : Exactly build (done ++ [id]) := by
  refine ⟨?_, ?_, ?_⟩
  · rw [arriveAll_snoc build done id h.run, arrive_fits build hfits, cursorAll_append,
      noteAll_append]
    rfl
  · rw [cursorAll_append]
    exact hfits.cursor
  · rw [noteAll_append]
    exact hfits.omitted

/-- Every packet of the sequence leaves the cursor no smaller and the number
of missing packets not negative. -/
def Sound (build : Build) (ids : List Nat) : Prop :=
  ∀ front id, front ++ [id] <+: ids → ∃ next c next' c',
    arriveAll build front 0 zero = .ok (next, c) ∧
    arriveAll build (front ++ [id]) 0 zero = .ok (next', c') ∧ next ≤ next' ∧ 0 ≤ c'.omitted

theorem Sound.exactly {build : Build} {done ids : List Nat} (h : Sound build (done ++ ids))
    (hids : ∀ id ∈ ids, id < 2 ^ 64) (hs : Exactly build done) : Exactly build (done ++ ids) := by
  induction ids generalizing done with
  | nil =>
    rw [List.append_nil]
    exact hs
  | cons id ids ih =>
    obtain ⟨hid, hrest⟩ := List.forall_mem_cons.mp hids
    rw [show done ++ id :: ids = done ++ [id] ++ ids by simp] at h ⊢
    obtain ⟨next, c, next', c', hdone, hnew, hmono, hpos⟩ := h done id (List.prefix_append _ _)
    rw [arriveAll_snoc build done id hdone] at hnew
    cases hdone.symm.trans hs.run
    have hbelow := (noteAll_moves done 0 zero).2
    have hzero : zero.omitted = 0 := rfl
    apply ih h hrest (hs.snoc ?_)
    exact Fits.of_arrive (noteAll_nonneg done 0 (Int.le_refl 0)) hs.omitted (by omega) hs.cursor
      hid hnew hmono hpos

/-- Packets that are never too far ahead are counted exactly. -/
theorem Exactly.of_steady {build : Build} {done ids : List Nat} (hs : Exactly build done)
    (hids : ∀ id ∈ ids, id < 2 ^ 64 - 1) (hsteady : Sequence.Steady (2 ^ 63) (done ++ ids)) :
    Exactly build (done ++ ids) := by
  induction ids generalizing done with
  | nil =>
    rw [List.append_nil]
    exact hs
  | cons id ids ih =>
    obtain ⟨hid, hrest⟩ := List.forall_mem_cons.mp hids
    rw [show done ++ id :: ids = done ++ [id] ++ ids by simp] at hsteady ⊢
    have hlt := (omitted_lt_iff (2 ^ 63) (done ++ [id] ++ ids) (c := zero) rfl).mpr hsteady
      (done ++ [id]) (List.prefix_append _ _)
    rw [noteAll_append] at hlt
    have hcursor := hs.cursor
    apply ih (hs.snoc ⟨noteAll_nonneg done 0 (Int.le_refl 0), ?_, hlt⟩) hrest hsteady
    unfold Counters.cursor
    omega

/-- Packet ids are safe exactly if none is the last one of 64 bits and no
stretch of packets is ahead by 2^63. -/
theorem exactly_iff (build : Build) {ids : List Nat} (hids : ∀ id ∈ ids, id < 2 ^ 64) :
    (∀ front, front <+: ids → Exactly build front) ↔
      2 ^ 64 - 1 ∉ ids ∧ Sequence.Steady (2 ^ 63) ids := by
  constructor
  · intro h
    refine ⟨?_, (omitted_lt_iff (2 ^ 63) ids (c := zero) rfl).mp
      (fun front hf => (h front hf).omitted)⟩
    intro hlast
    have hlt := lt_cursorAll hlast 0
    have := (h ids (List.prefix_refl ids)).cursor
    omega
  · rintro ⟨hlast, hsteady⟩ front ⟨rest, rfl⟩
    have hbelow : ∀ id ∈ front, id < 2 ^ 64 - 1 := by
      intro id hid
      have hmem := List.mem_append_left rest hid
      have hlt := hids id hmem
      have hne : id ≠ 2 ^ 64 - 1 := fun heq => hlast (heq ▸ hmem)
      omega
    have hfront : Sequence.Steady (2 ^ 63) ([] ++ front) := by
      intro a b d hsplit
      rw [List.nil_append] at hsplit
      exact hsteady a b (d ++ rest) (by rw [hsplit, List.append_assoc])
    have := (Exactly.nil build).of_steady hbelow hfront
    rwa [List.nil_append] at this

end Counters
end Nperf
