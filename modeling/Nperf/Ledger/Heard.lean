import Nperf.Ledger.Batch

namespace Nperf
open Rust

namespace Counters

/-- The cursor is exact whatever the counters do, as long as it stays in range. -/
theorem arrive_cursor {build : Build} {id next next' : Nat} {c c' : Counters}
    (hid : id + 1 < 2 ^ 64) (hnext : next < 2 ^ 64)
    (h : c.arrive build id next = .ok (next', c')) : next' = cursor id next := by
  obtain ⟨⟨increment, d⟩, hverdict, h⟩ := bind_ok.mp h
  obtain ⟨n, hn, h⟩ := bind_ok.mp h
  cases h
  have hincrement : increment = cursor id next - next := by
    unfold verdict at hverdict
    unfold cursor
    split at hverdict
    · cases hverdict
      omega
    · split at hverdict
      · simp only [bind_ok] at hverdict
        obtain ⟨_, _, i, hi, hverdict⟩ := hverdict
        cases hverdict
        have hexact : build.u64 (((id - next : Nat) : Int) + (1 : Nat)) = .ok (id - next + 1) :=
          u64_add build (by omega)
        cases hi.symm.trans hexact
        omega
      · split at hverdict <;> cases hverdict <;> omega
  have hle : next ≤ cursor id next := Nat.le_max_left _ _
  have hsum : next + increment < 2 ^ 64 := by
    rw [hincrement, Nat.add_sub_cancel' hle, cursor]
    omega
  cases hn.symm.trans (u64_add build hsum)
  rw [hincrement, Nat.add_sub_cancel' hle]

theorem arriveAll_cursor {build : Build} {ids : List Nat} {next next' : Nat} {c c' : Counters}
    (hids : ∀ id ∈ ids, id + 1 < 2 ^ 64) (hnext : next < 2 ^ 64)
    (h : arriveAll build ids next c = .ok (next', c')) : next' = cursorAll ids next := by
  induction ids generalizing next c with
  | nil =>
    cases h
    rfl
  | cons id ids ih =>
    obtain ⟨hid, hrest⟩ := List.forall_mem_cons.mp hids
    obtain ⟨⟨n, d⟩, harrive, h⟩ := bind_ok.mp h
    obtain rfl := arrive_cursor hid hnext harrive
    exact ih hrest (Nat.max_lt.mpr ⟨hnext, hid⟩) h

end Counters

namespace Books

/-- A message as the senders make them: a control message has the id 0. -/
structure Sane (m : Message) : Prop where
  test : m.testId < maxTestId
  packets : m.ids ≠ []
  control : m.mtype ≠ .measurement → ∀ id ∈ m.ids, id = 0
  range : ∀ id ∈ m.ids, id + 1 < 2 ^ 64

/-- What the books say was said in a message. -/
structure Heard (heard : List Message) (b : Books) : Prop where
  next : b.next = 0 ∨ ∃ m ∈ heard, m.mtype = .measurement ∧ ∃ id ∈ m.ids, b.next ≤ id + 1
  started : ∀ (testId : Nat) (book : Book), b.tests[testId]? = some book → book.started = true →
    ∃ m ∈ heard, m.mtype = .measurement ∧ m.testId = testId
  finished : ∀ (testId : Nat) (book : Book), b.tests[testId]? = some book → book.finished = true →
    ∃ m ∈ heard, m.mtype = .last ∧ m.testId = testId

namespace Heard
variable {heard ms : List Message} {b b' : Books} {m : Message} {build : Build}
  {result : Except Error Unit}

theorem none : Heard [] ⟨0, []⟩ :=
  ⟨.inl rfl, by simp, by simp⟩

theorem mono (h : Heard heard b) (ms : List Message) : Heard (heard ++ ms) b := by
  refine ⟨?_, ?_, ?_⟩
  · rcases h.next with hzero | ⟨m, hm, hrest⟩
    · exact .inl hzero
    · exact .inr ⟨m, List.mem_append_left _ hm, hrest⟩
  · intro testId book hbook hstarted
    obtain ⟨m, hm, hrest⟩ := h.started testId book hbook hstarted
    exact ⟨m, List.mem_append_left _ hm, hrest⟩
  · intro testId book hbook hfinished
    obtain ⟨m, hm, hrest⟩ := h.finished testId book hbook hfinished
    exact ⟨m, List.mem_append_left _ hm, hrest⟩

/-- The flags decide, not the counters. -/
theorem of_flags (h : Heard heard b)
    (hnext : b'.next = 0 ∨
      ∃ m ∈ heard, m.mtype = .measurement ∧ ∃ id ∈ m.ids, b'.next ≤ id + 1)
    (hflags : ∀ (testId : Nat) (book' : Book), b'.tests[testId]? = some book' →
      ∃ book, b.tests[testId]? = some book ∧ book.started = book'.started ∧
        book.finished = book'.finished) : Heard heard b' := by
  refine ⟨hnext, ?_, ?_⟩
  · intro testId book' hbook' hstarted
    obtain ⟨book, hbook, hsame, _⟩ := hflags testId book' hbook'
    exact h.started testId book hbook (hsame.trans hstarted)
  · intro testId book' hbook' hfinished
    obtain ⟨book, hbook, _, hsame⟩ := hflags testId book' hbook'
    exact h.finished testId book hbook (hsame.trans hfinished)

theorem reset (h : Heard heard b) : Heard heard b.reset := by
  refine h.of_flags h.next ?_
  intro testId book' hbook'
  simp only [Books.reset, List.getElem?_map] at hbook'
  obtain ⟨book, hbook, rfl⟩ := Option.map_eq_some_iff.mp hbook'
  exact ⟨book, hbook, rfl, rfl⟩

theorem next_lt (h : Heard heard b) (hsane : ∀ m ∈ heard, Sane m) : b.next < 2 ^ 64 := by
  rcases h.next with hzero | ⟨m, hm, _, id, hid, hle⟩
  · rw [hzero]
    exact Nat.two_pow_pos 64
  · exact Nat.lt_of_le_of_lt hle ((hsane m hm).range id hid)

/-- New tests have no flags. -/
theorem grow (h : Heard heard b) (u : Nat) :
    Heard heard { b with tests := Books.grow b.tests u } := by
  have hold : ∀ (testId : Nat) (book : Book), (Books.grow b.tests u)[testId]? = some book →
      b.tests[testId]? = some book ∨ book = Book.fresh := by
    intro testId book hbook
    rcases Nat.lt_or_ge testId b.tests.length with hlt | hge
    · rw [Books.grow, List.getElem?_append_left hlt] at hbook
      exact .inl hbook
    · rw [Books.grow, List.getElem?_append_right hge] at hbook
      exact .inr (List.mem_replicate.mp (List.mem_of_getElem? hbook)).2
  refine ⟨h.next, ?_, ?_⟩
  · intro testId book hbook hstarted
    rcases hold testId book hbook with hbook | rfl
    · exact h.started testId book hbook hstarted
    · cases hstarted
  · intro testId book hbook hfinished
    rcases hold testId book hbook with hbook | rfl
    · exact h.finished testId book hbook hfinished
    · cases hfinished

/-- A flag is set for a message. -/
theorem modify (h : Heard heard b) {f : Book → Book} {u : Nat}
    (hstarted : ∀ book : Book, (f book).started = true → book.started = true ∨
      ∃ m ∈ heard, m.mtype = .measurement ∧ m.testId = u)
    (hfinished : ∀ book : Book, (f book).finished = true → book.finished = true ∨
      ∃ m ∈ heard, m.mtype = .last ∧ m.testId = u) :
    Heard heard { b with tests := b.tests.modify u f } := by
  refine ⟨h.next, ?_, ?_⟩
  · intro testId book hbook hflag
    simp only [List.getElem?_modify] at hbook
    obtain ⟨old, hold, hbook⟩ := Option.map_eq_some_iff.mp hbook
    split at hbook
    · rename_i hu
      subst hbook
      rcases hstarted old hflag with hflag | hm
      · exact h.started testId old hold hflag
      · exact hu ▸ hm
    · subst hbook
      exact h.started testId old hold hflag
  · intro testId book hbook hflag
    simp only [List.getElem?_modify] at hbook
    obtain ⟨old, hold, hbook⟩ := Option.map_eq_some_iff.mp hbook
    split at hbook
    · rename_i hu
      subst hbook
      rcases hfinished old hflag with hflag | hm
      · exact h.finished testId old hold hflag
      · exact hu ▸ hm
    · subst hbook
      exact h.finished testId old hold hflag

theorem start (h : Heard heard b) (hm : m ∈ heard) (hdata : m.mtype = .measurement) :
    Heard heard { b with tests := Books.start b.tests m.testId } :=
  (h.grow m.testId).modify (fun _ _ => .inr ⟨m, hm, hdata, rfl⟩) fun _ h => .inl h

theorem finish (h : Heard heard b) (hm : m ∈ heard) (hlast : m.mtype = .last) :
    Heard heard { b with tests := Books.finish b.tests m.testId } :=
  h.modify (fun _ h => .inl h) fun _ _ => .inr ⟨m, hm, hlast, rfl⟩

/-- Packets move the cursor behind one of them, and no flag. -/
theorem enter (h : Heard heard b) {testId bytes : Nat} {ids : List Nat}
    (hrange : b.next < 2 ^ 64) (hids : ∀ id ∈ ids, id + 1 < 2 ^ 64)
    (hheard : ∀ id ∈ ids, ∃ m ∈ heard, m.mtype = .measurement ∧ ∃ id' ∈ m.ids, id ≤ id')
    (henter : b.enter build testId ids bytes = .ok b') : Heard heard b' := by
  unfold Books.enter at henter
  split at henter
  · cases henter
  · rename_i book hbook
    obtain ⟨⟨next, c⟩, harrive, henter⟩ := bind_ok.mp henter
    cases henter
    have hnext := Counters.arriveAll_cursor hids hrange harrive
    refine h.of_flags ?_ ?_
    · rcases Counters.cursorAll_eq ids b.next with hsame | ⟨id, hid, hmoved⟩
      · simp only [hnext, hsame]
        exact h.next
      · obtain ⟨m, hm, hdata, id', hid', hle⟩ := hheard id hid
        refine .inr ⟨m, hm, hdata, id', hid', ?_⟩
        simp only [hnext, hmoved]
        omega
    · intro u book' hbook'
      simp only [List.getElem?_set] at hbook'
      split at hbook'
      · rename_i hu
        split at hbook'
        · cases hbook'
          exact ⟨book, hu ▸ hbook, rfl, rfl⟩
        · cases hbook'
      · exact ⟨book', hbook', rfl, rfl⟩

/-- Every packet of a batch is at most as new as a data packet of it: the first
message of the batch is one. -/
theorem packets_heard (hsane : ∀ x ∈ m :: ms, Sane x) (hdata : m.mtype = .measurement) :
    ∀ id ∈ (m :: ms).flatMap Message.ids,
      ∃ x ∈ heard ++ m :: ms, x.mtype = .measurement ∧ ∃ id' ∈ x.ids, id ≤ id' := by
  intro id hid
  obtain ⟨x, hx, hid⟩ := List.mem_flatMap.mp hid
  by_cases hmtype : x.mtype = .measurement
  · exact ⟨x, List.mem_append_right _ hx, hmtype, id, hid, Nat.le_refl _⟩
  · obtain ⟨first, rest, hids⟩ :=
      List.exists_cons_of_ne_nil (hsane m List.mem_cons_self).packets
    refine ⟨m, List.mem_append_right _ List.mem_cons_self, hdata, first,
      hids ▸ List.mem_cons_self, ?_⟩
    rw [(hsane x hx).control hmtype id hid]
    exact Nat.zero_le _

/-- Whatever is received, the books stay true. -/
theorem receive (h : Heard heard b) (hheard : ∀ m ∈ heard, Sane m) (hsane : ∀ m ∈ ms, Sane m)
    (hreceive : b.receive build ms = .ok (result, b')) : Heard (heard ++ ms) b' := by
  cases ms with
  | nil =>
    cases hreceive
    exact h.mono []
  | cons m ms =>
    have htest := (hsane m List.mem_cons_self).test
    have hmem : m ∈ heard ++ m :: ms := List.mem_append_right _ List.mem_cons_self
    have hmore := h.mono (m :: ms)
    cases hm : m.mtype with
    | init =>
      rw [receive_init hm htest] at hreceive
      cases hreceive
      exact hmore.grow m.testId
    | measurement =>
      rw [receive_measurement hm htest] at hreceive
      obtain ⟨b₁, henter, hreceive⟩ := map_eq_ok.mp hreceive
      cases hreceive
      refine (hmore.start hmem hm).enter (h.next_lt hheard) ?_ (packets_heard hsane hm) henter
      intro id hid
      obtain ⟨x, hx, hid⟩ := List.mem_flatMap.mp hid
      exact (hsane x hx).range id hid
    | last =>
      rw [receive_last hm htest (receive_last_known hm htest hreceive)] at hreceive
      cases hreceive
      exact hmore.finish hmem hm

end Heard

/-- How the books change in one move of a receiver that is told these
messages. `resets` says whether intervals are closed at all. -/
inductive Moves (build : Build) (resets : Prop) (b b' : Books) : List Message → Prop
  | kept (hb : b' = b) : Moves build resets b b' []
  | reset (hresets : resets) (hb : b' = b.reset) : Moves build resets b b' []
  | heard (ms : List Message) (result : Except Error Unit)
      (hb : b.receive build ms = .ok (result, b')) : Moves build resets b b' ms

theorem Heard.moves {build : Build} {resets : Prop} {b b' : Books} {heard ms : List Message}
    (h : Heard heard b) (hheard : ∀ m ∈ heard, Sane m) (hsane : ∀ m ∈ ms, Sane m)
    (hmove : Moves build resets b b' ms) : Heard (heard ++ ms) b' := by
  cases hmove with
  | kept hb => exact hb ▸ h.mono []
  | reset hresets hb => exact hb ▸ h.reset.mono []
  | heard ms result hb => exact h.receive hheard hsane hb

end Books
end Nperf
