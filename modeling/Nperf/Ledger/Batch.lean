import Nperf.Ledger.Balance

namespace Nperf
open Rust

/-- What a receive function returns for a message of a known kind of test. -/
def MessageType.signal : MessageType → Except Error Unit
  | .init => .error .initMessageReceived
  | .measurement => .ok ()
  | .last => .error .lastMessageReceived

namespace Books

/-- Messages received one at a time, with the results of all of them. -/
def receiveEach (build : Build) :
    Books → List Message → Except Fault (List (Except Error Unit) × Books)
  | b, [] => .ok ([], b)
  | b, m :: ms => do
    let (result, b) ← b.receive build [m]
    let (results, b) ← receiveEach build b ms
    .ok (result :: results, b)

def finish (tests : List Book) (testId : Nat) : List Book :=
  tests.modify testId (fun b => { b with finished := true })

/-- The batches for which the header of the first message can speak: a control
message is followed only by others that change nothing more, a data message
by data messages of the same test. -/
def Uniform (b : Books) : List Message → Prop
  | [] => True
  | m :: ms =>
    match m.mtype with
    | .init => ∀ x ∈ ms, x.mtype = .init ∧ x.testId < max b.tests.length (m.testId + 1)
    | .measurement => ∀ x ∈ ms, x.mtype = .measurement ∧ x.testId = m.testId
    | .last => ∀ x ∈ ms, x.mtype = .last ∧
        (x.testId = m.testId ∨ ∀ book ∈ b.tests[x.testId]?, book.finished)

theorem countersOf_finish (b : Books) (u testId : Nat) :
    countersOf { b with tests := finish b.tests u } testId = b.countersOf testId := by
  apply countersOf_append (k := 0)
  rw [finish, counters_modify (f := fun b : Book => { b with finished := true }) (fun _ => rfl),
    List.replicate_zero, List.append_nil]

section Receive
variable {build : Build} {b b' : Books} {m : Message} {ms : List Message}
  {result : Except Error Unit}

theorem receive_init (hm : m.mtype = .init) (ht : m.testId < maxTestId) :
    b.receive build (m :: ms) =
      .ok (.error .initMessageReceived, { b with tests := grow b.tests m.testId }) := by
  simp only [receive, parse, hm]
  rw [if_neg (Nat.not_le.mpr ht), ok_bind]

theorem receive_measurement (hm : m.mtype = .measurement) (ht : m.testId < maxTestId) :
    b.receive build (m :: ms) =
      (enter build m.testId ((m :: ms).flatMap Message.ids) ((m :: ms).map Message.bytes).sum
        { b with tests := start b.tests m.testId }).map (fun b => (.ok (), b)) := by
  simp only [receive, parse, hm]
  rw [if_neg (Nat.not_le.mpr ht), ok_bind]
  cases enter build m.testId ((m :: ms).flatMap Message.ids) ((m :: ms).map Message.bytes).sum
    { b with tests := start b.tests m.testId } <;> rfl

theorem receive_last (hm : m.mtype = .last) (ht : m.testId < maxTestId)
    (hk : m.testId < b.tests.length) :
    b.receive build (m :: ms) =
      .ok (.error .lastMessageReceived, { b with tests := finish b.tests m.testId }) := by
  simp only [receive, parse, hm]
  rw [if_neg (Nat.not_le.mpr ht), if_neg (Nat.not_le.mpr hk), ok_bind]
  rfl

theorem receive_last_known (hm : m.mtype = .last) (ht : m.testId < maxTestId)
    (h : b.receive build (m :: ms) = .ok (result, b')) : m.testId < b.tests.length := by
  apply Nat.lt_of_not_le
  intro hle
  simp only [receive, parse, hm] at h
  rw [if_neg (Nat.not_le.mpr ht), if_pos hle] at h
  cases h

theorem receive_signal (ht : m.testId < maxTestId)
    (h : b.receive build (m :: ms) = .ok (result, b')) : result = m.mtype.signal := by
  cases hm : m.mtype with
  | init =>
    rw [receive_init hm ht] at h
    cases h
    rfl
  | measurement =>
    rw [receive_measurement hm ht] at h
    obtain ⟨_, _, h⟩ := map_eq_ok.mp h
    cases h
    rfl
  | last =>
    rw [receive_last hm ht (receive_last_known hm ht h)] at h
    cases h
    rfl

theorem enter_counted {testId bytes : Nat} {ids : List Nat}
    (h : b.enter build testId ids bytes = .ok b') (u : Nat) :
    (b'.countersOf u).datagrams =
      (b.countersOf u).datagrams + if u = testId then ids.length else 0 := by
  unfold enter at h
  split at h
  · cases h
  · rename_i book hbook
    obtain ⟨⟨next, c⟩, hc, h⟩ := bind_ok.mp h
    cases h
    obtain ⟨hlt, hget⟩ := List.getElem?_eq_some_iff.mp hbook
    have hcounted := Counters.arriveAll_counted hc
    simp only [countersOf, List.getElem?_set]
    by_cases hu : u = testId
    · subst u
      simp [hlt, hget, Counters.count, hcounted]
    · simp [hu, Ne.symm hu]

/-- A batch is counted for one test, and only if it starts with a data message. -/
theorem receive_counted (ht : m.testId < maxTestId)
    (h : b.receive build (m :: ms) = .ok (result, b')) (u : Nat) :
    (b'.countersOf u).datagrams = (b.countersOf u).datagrams +
      if m.mtype = .measurement ∧ u = m.testId then ((m :: ms).flatMap Message.ids).length
      else 0 := by
  cases hm : m.mtype with
  | init =>
    rw [receive_init hm ht] at h
    cases h
    simp only [reduceCtorEq, false_and, ↓reduceIte, Nat.add_zero]
    rw [countersOf_append (counters_grow b.tests m.testId)]
  | measurement =>
    rw [receive_measurement hm ht] at h
    obtain ⟨b₁, hb, h⟩ := map_eq_ok.mp h
    cases h
    rw [enter_counted hb, countersOf_start]
    simp only [true_and]
  | last =>
    rw [receive_last hm ht (receive_last_known hm ht h)] at h
    cases h
    simp only [reduceCtorEq, false_and, ↓reduceIte, Nat.add_zero]
    rw [countersOf_finish]

end Receive

theorem receiveEach_cons {build : Build} {b b' : Books} {m : Message} {ms : List Message}
    {results : List (Except Error Unit)} :
    b.receiveEach build (m :: ms) = .ok (results, b') ↔ ∃ result b₁ rest,
      b.receive build [m] = .ok (result, b₁) ∧ b₁.receiveEach build ms = .ok (rest, b') ∧
        results = result :: rest := by
  simp only [receiveEach, bind_ok]
  constructor
  · rintro ⟨⟨result, b₁⟩, hfirst, ⟨rest, b₂⟩, hrest, h⟩
    cases h
    exact ⟨result, b₁, rest, hfirst, hrest, rfl⟩
  · rintro ⟨result, b₁, rest, hfirst, hrest, rfl⟩
    exact ⟨(result, b₁), hfirst, (rest, b'), hrest, rfl⟩

/-- The packets of a test among messages. -/
def packetsOf (testId : Nat) (ms : List Message) : Nat :=
  (ms.map (fun m => if m.mtype = .measurement ∧ testId = m.testId then m.ids.length else 0)).sum

theorem receiveEach_counted {build : Build} {b b' : Books} {ms : List Message}
    {results : List (Except Error Unit)} (ht : ∀ m ∈ ms, m.testId < maxTestId)
    (h : b.receiveEach build ms = .ok (results, b')) :
    results = ms.map (fun m => m.mtype.signal) ∧ ∀ u,
      (b'.countersOf u).datagrams = (b.countersOf u).datagrams + packetsOf u ms := by
  induction ms generalizing b results with
  | nil =>
    cases h
    exact ⟨rfl, fun _ => rfl⟩
  | cons m ms ih =>
    obtain ⟨hm, hms⟩ := List.forall_mem_cons.mp ht
    obtain ⟨result, b₁, rest, hfirst, hrest, rfl⟩ := receiveEach_cons.mp h
    obtain ⟨hsignals, hcounted⟩ := ih hms hrest
    refine ⟨?_, ?_⟩
    · rw [receive_signal hm hfirst, hsignals, List.map_cons]
    · intro u
      have hids : [m].flatMap Message.ids = m.ids := by simp
      rw [hcounted, receive_counted hm hfirst, hids]
      simp only [packetsOf, List.map_cons, List.sum_cons]
      omega

theorem receiveEach_init {build : Build} {ms : List Message}
    (hm : ∀ m ∈ ms, m.mtype = .init ∧ m.testId < maxTestId) (b : Books) :
    b.receiveEach build ms = .ok (ms.map (fun m => m.mtype.signal),
      { b with tests := (ms.map Message.testId).foldl grow b.tests }) := by
  induction ms generalizing b with
  | nil => rfl
  | cons m ms ih =>
    obtain ⟨⟨hinit, ht⟩, hms⟩ := List.forall_mem_cons.mp hm
    simp only [receiveEach, receive_init hinit ht, ok_bind, ih hms, List.map_cons, hinit]
    rfl

theorem receiveEach_last {build : Build} {ms : List Message} {b b' : Books}
    {results : List (Except Error Unit)} (hm : ∀ m ∈ ms, m.mtype = .last ∧ m.testId < maxTestId)
    (h : b.receiveEach build ms = .ok (results, b')) :
    b' = { b with tests := (ms.map Message.testId).foldl finish b.tests } := by
  induction ms generalizing b results with
  | nil =>
    cases h
    rfl
  | cons m ms ih =>
    obtain ⟨⟨hlast, ht⟩, hms⟩ := List.forall_mem_cons.mp hm
    obtain ⟨result, b₁, rest, hfirst, hrest, rfl⟩ := receiveEach_cons.mp h
    rw [receive_last hlast ht (receive_last_known hlast ht hfirst)] at hfirst
    cases hfirst
    exact ih hms hrest

theorem enter_append {build : Build} {testId bytes bytes' : Nat} {ids ids' : List Nat}
    {b b₁ : Books} (h : b.enter build testId ids bytes = .ok b₁) :
    b.enter build testId (ids ++ ids') (bytes + bytes') = b₁.enter build testId ids' bytes' := by
  unfold enter at h
  split at h
  · cases h
  · rename_i book hbook
    obtain ⟨⟨next, c⟩, hc, h⟩ := bind_ok.mp h
    cases h
    obtain ⟨hlt, hget⟩ := List.getElem?_eq_some_iff.mp hbook
    have hcount : Counters.arriveAll build ids' next (c.count ids.length bytes) =
        (Counters.arriveAll build ids' next c).map
          (fun v => (v.1, v.2.count ids.length bytes)) := Counters.arriveAll_count ..
    simp only [enter, hbook, Counters.arriveAll_append, hc, ok_bind, List.getElem?_set_self hlt,
      hcount, map_then, List.set_set]
    cases Counters.arriveAll build ids' next c with
    | error f => rfl
    | ok v =>
      simp only [ok_bind, Counters.count, List.length_append, Nat.add_assoc]

theorem grow_eq_self {tests : List Book} {testId : Nat} (h : testId < tests.length) :
    grow tests testId = tests := by
  rw [grow, show testId + 1 - tests.length = 0 by omega, List.replicate_zero, List.append_nil]

theorem start_eq_self {tests : List Book} {testId : Nat} {book : Book}
    (h : tests[testId]? = some book) (hs : book.started = true) : start tests testId = tests := by
  obtain ⟨hlt, _⟩ := List.getElem?_eq_some_iff.mp h
  rw [start, grow_eq_self hlt]
  exact Lists.modify_eq_self h (by rw [← hs])

theorem start_started {tests : List Book} {testId : Nat} {book : Book}
    (h : (start tests testId)[testId]? = some book) : book.started = true := by
  rw [start, List.getElem?_modify_eq] at h
  obtain ⟨_, _, rfl⟩ := Option.map_eq_some_iff.mp h
  rfl

/-- Once packets of a test are entered, its book stays open. -/
theorem start_entered {build : Build} {testId bytes : Nat} {ids : List Nat} {b b₁ : Books}
    (h : enter build testId ids bytes { b with tests := start b.tests testId } = .ok b₁) :
    start b₁.tests testId = b₁.tests := by
  unfold enter at h
  split at h
  · cases h
  · rename_i book hbook
    obtain ⟨⟨next, c⟩, _, h⟩ := bind_ok.mp h
    cases h
    obtain ⟨hlt, _⟩ := List.getElem?_eq_some_iff.mp hbook
    exact start_eq_self (List.getElem?_set_self hlt) (start_started hbook :)

/-- Data messages of one test can be entered one by one or all at once. -/
theorem receiveEach_measurement {build : Build} {m : Message} {ms : List Message}
    (hm : m.mtype = .measurement) (ht : m.testId < maxTestId)
    (hms : ∀ x ∈ ms, x.mtype = .measurement ∧ x.testId = m.testId) {b b' : Books}
    {results : List (Except Error Unit)}
    (h : b.receiveEach build (m :: ms) = .ok (results, b')) :
    b.receive build (m :: ms) = .ok (.ok (), b') := by
  induction ms generalizing b m results with
  | nil =>
    obtain ⟨result, b₁, rest, hfirst, hrest, rfl⟩ := receiveEach_cons.mp h
    cases hrest
    rw [hfirst, receive_signal ht hfirst, hm]
    rfl
  | cons x ms ih =>
    obtain ⟨⟨hx, hxt⟩, hms⟩ := List.forall_mem_cons.mp hms
    obtain ⟨result, b₁, rest, hfirst, hrest, rfl⟩ := receiveEach_cons.mp h
    have hothers := ih hx (hxt ▸ ht) (fun y hy => hxt ▸ hms y hy) hrest
    rw [receive_measurement hm ht] at hfirst
    obtain ⟨b₃, hfirst, h⟩ := map_eq_ok.mp hfirst
    cases h
    rw [receive_measurement hx (hxt ▸ ht), hxt, start_entered hfirst] at hothers
    have hids : (m :: x :: ms).flatMap Message.ids =
        [m].flatMap Message.ids ++ (x :: ms).flatMap Message.ids := by simp
    have hbytes : ((m :: x :: ms).map Message.bytes).sum =
        ([m].map Message.bytes).sum + ((x :: ms).map Message.bytes).sum := by simp
    rw [receive_measurement hm ht, hids, hbytes, enter_append hfirst]
    exact hothers

theorem length_grow (tests : List Book) (u : Nat) :
    (grow tests u).length = max tests.length (u + 1) := by
  simp only [grow, List.length_append, List.length_replicate]
  omega

theorem foldl_grow_eq_self (tests : List Book) (us : List Nat) :
    us.foldl grow tests = tests ↔ ∀ u ∈ us, u < tests.length := by
  apply Lists.foldl_eq_self (fun (tests : List Book) (u : Nat) => u < tests.length)
  · intro tests u
    rw [length_grow]
    omega
  · intro tests u v h
    rw [length_grow]
    omega
  · intro tests u h
    exact grow_eq_self h

theorem foldl_finish_eq_self (tests : List Book) (us : List Nat) :
    us.foldl finish tests = tests ↔ ∀ u ∈ us, ∀ book ∈ tests[u]?, book.finished := by
  apply Lists.foldl_eq_self
    (fun (tests : List Book) (u : Nat) => ∀ book ∈ tests[u]?, book.finished = true)
  · intro tests u book h
    rw [finish, List.getElem?_modify_eq] at h
    obtain ⟨_, _, rfl⟩ := Option.map_eq_some_iff.mp h
    rfl
  · intro tests u v h book hbook
    rw [finish, List.getElem?_modify] at hbook
    obtain ⟨old, hold, rfl⟩ := Option.map_eq_some_iff.mp hbook
    have := h old hold
    split
    · rfl
    · exact this
  · intro tests u h
    cases hu : tests[u]? with
    | none => exact List.modify_eq_self (List.getElem?_eq_none_iff.mp hu)
    | some book => exact Lists.modify_eq_self hu (by rw [← h book hu])

theorem packetsOf_pos {x : Message} {ms : List Message} (hx : x ∈ ms)
    (hm : x.mtype = .measurement) (hids : x.ids ≠ []) : 0 < packetsOf x.testId ms := by
  induction ms with
  | nil => cases hx
  | cons m ms ih =>
    simp only [packetsOf, List.map_cons, List.sum_cons] at ih ⊢
    rcases List.mem_cons.mp hx with rfl | hx
    · have := List.length_pos_iff.mpr hids
      simp only [hm, true_and, ↓reduceIte]
      omega
    · have := ih hx
      omega

theorem signal_error {t : MessageType} (h : t ≠ .measurement) : ∃ e, t.signal = .error e := by
  cases t with
  | init => exact ⟨_, rfl⟩
  | measurement => exact absurd rfl h
  | last => exact ⟨_, rfl⟩

theorem signal_inj {t t' : MessageType} (h : t'.signal = t.signal) : t' = t := by
  cases t <;> cases t' <;> first | rfl | cases h

section Agree
variable {build : Build} {b b' : Books} {m : Message} {ms : List Message}
  {results : List (Except Error Unit)}

/-- Messages after the first are not ignored, and raise no signal of their own. -/
theorem agree_types (ht : ∀ x ∈ m :: ms, x.testId < maxTestId) (hids : ∀ x ∈ m :: ms, x.ids ≠ [])
    (h : b.receiveEach build (m :: ms) = .ok (results, b')) {result : Except Error Unit}
    (hb : b.receive build (m :: ms) = .ok (result, b'))
    (hsignal : ∀ e, .error e ∈ results → result = .error e) :
    ∀ x ∈ ms, x.mtype = m.mtype ∧ (m.mtype = .measurement → x.testId = m.testId) := by
  obtain ⟨rfl, hcounted⟩ := receiveEach_counted ht h
  have htm := ht m List.mem_cons_self
  obtain rfl := receive_signal htm hb
  intro x hx
  have hx' := List.mem_cons_of_mem m hx
  by_cases hm : x.mtype = .measurement
  · have hpos := packetsOf_pos hx' hm (hids x hx')
    have hu := (hcounted x.testId).symm.trans (receive_counted htm hb x.testId)
    by_cases hc : m.mtype = .measurement ∧ x.testId = m.testId
    · exact ⟨hm.trans hc.1.symm, fun _ => hc.2⟩
    · rw [if_neg hc] at hu
      omega
  · obtain ⟨e, he⟩ := signal_error hm
    have hmem := List.mem_map_of_mem (f := fun m : Message => m.mtype.signal) hx'
    rw [he] at hmem
    have htype := signal_inj ((hsignal e hmem).trans he.symm)
    exact ⟨htype.symm, fun h => absurd (htype.symm.trans h) hm⟩

theorem agree_uniform (ht : ∀ x ∈ m :: ms, x.testId < maxTestId)
    (hids : ∀ x ∈ m :: ms, x.ids ≠ []) (h : b.receiveEach build (m :: ms) = .ok (results, b'))
    {result : Except Error Unit} (hb : b.receive build (m :: ms) = .ok (result, b'))
    (hsignal : ∀ e, .error e ∈ results → result = .error e) : b.Uniform (m :: ms) := by
  have htypes := agree_types ht hids h hb hsignal
  obtain ⟨htm, htms⟩ := List.forall_mem_cons.mp ht
  obtain ⟨_, b₁, rest, hfirst, hrest, _⟩ := receiveEach_cons.mp h
  cases hm : m.mtype with
  | measurement =>
    simp only [Uniform, hm]
    exact fun x hx => ⟨(htypes x hx).1.trans hm, (htypes x hx).2 hm⟩
  | init =>
    have hall : ∀ x ∈ ms, x.mtype = .init := fun x hx => (htypes x hx).1.trans hm
    rw [receive_init hm htm] at hfirst hb
    cases hfirst
    cases hb
    rw [receiveEach_init (fun x hx => ⟨hall x hx, htms x hx⟩)] at hrest
    have hfold := congrArg Books.tests (congrArg Prod.snd (Except.ok.inj hrest))
    have hgrown := (foldl_grow_eq_self _ _).mp hfold
    simp only [Uniform, hm]
    intro x hx
    rw [← length_grow]
    exact ⟨hall x hx, hgrown x.testId (List.mem_map_of_mem hx)⟩
  | last =>
    have hall : ∀ x ∈ ms, x.mtype = .last := fun x hx => (htypes x hx).1.trans hm
    rw [receive_last hm htm (receive_last_known hm htm hb)] at hfirst hb
    cases hfirst
    cases hb
    have hrest := receiveEach_last (fun x hx => ⟨hall x hx, htms x hx⟩) hrest
    have hfold := (congrArg Books.tests hrest).symm
    have hfinished := (foldl_finish_eq_self _ _).mp hfold
    simp only [Uniform, hm]
    intro x hx
    refine ⟨hall x hx, Classical.or_iff_not_imp_left.mpr ?_⟩
    intro hne book hbook
    have hsame : (finish b.tests m.testId)[x.testId]? = b.tests[x.testId]? := by
      simp [finish, Ne.symm hne]
    exact hfinished x.testId (List.mem_map_of_mem hx) book (hsame.symm ▸ hbook)

theorem uniform_agrees (ht : ∀ x ∈ m :: ms, x.testId < maxTestId)
    (h : b.receiveEach build (m :: ms) = .ok (results, b')) (hu : b.Uniform (m :: ms)) :
    b.receive build (m :: ms) = .ok (m.mtype.signal, b') ∧
      ∀ x ∈ m :: ms, x.mtype = m.mtype := by
  obtain ⟨htm, htms⟩ := List.forall_mem_cons.mp ht
  obtain ⟨_, b₁, rest, hfirst, hrest, _⟩ := receiveEach_cons.mp h
  cases hm : m.mtype with
  | measurement =>
    simp only [Uniform, hm] at hu
    exact ⟨receiveEach_measurement hm htm hu h,
      List.forall_mem_cons.mpr ⟨hm, fun x hx => (hu x hx).1⟩⟩
  | init =>
    simp only [Uniform, hm] at hu
    rw [receive_init hm htm] at hfirst ⊢
    cases hfirst
    rw [receiveEach_init (fun x hx => ⟨(hu x hx).1, htms x hx⟩)] at hrest
    cases hrest
    have hgrown := (foldl_grow_eq_self (grow b.tests m.testId) (ms.map Message.testId)).mpr (by
      simp only [List.forall_mem_map, length_grow]
      exact fun x hx => (hu x hx).2)
    simp only [hgrown]
    exact ⟨rfl, List.forall_mem_cons.mpr ⟨hm, fun x hx => (hu x hx).1⟩⟩
  | last =>
    simp only [Uniform, hm] at hu
    have hknown := receive_last_known hm htm hfirst
    rw [receive_last hm htm hknown] at hfirst ⊢
    cases hfirst
    obtain rfl := receiveEach_last (fun x hx => ⟨(hu x hx).1, htms x hx⟩) hrest
    have hfinished := (foldl_finish_eq_self (finish b.tests m.testId)
      (ms.map Message.testId)).mpr (by
        simp only [List.forall_mem_map]
        intro x hx book hbook
        rw [finish, List.getElem?_modify] at hbook
        obtain ⟨old, hold, rfl⟩ := Option.map_eq_some_iff.mp hbook
        split
        · rfl
        · rename_i hne
          exact (hu x hx).2.resolve_left (Ne.symm hne) old hold)
    simp only [hfinished]
    exact ⟨rfl, List.forall_mem_cons.mpr ⟨hm, fun x hx => (hu x hx).1⟩⟩

end Agree

/-- A batch does what its messages do one by one exactly if it is uniform. -/
theorem receive_agrees_iff {build : Build} {b b' : Books} {ms : List Message}
    {results : List (Except Error Unit)} (ht : ∀ m ∈ ms, m.testId < maxTestId)
    (hids : ∀ m ∈ ms, m.ids ≠ []) (h : b.receiveEach build ms = .ok (results, b')) :
    (∃ result, b.receive build ms = .ok (result, b') ∧
        ∀ e, .error e ∈ results → result = .error e) ↔ b.Uniform ms := by
  cases ms with
  | nil =>
    cases h
    exact ⟨fun _ => trivial, fun _ => ⟨.ok (), rfl, fun _ he => by cases he⟩⟩
  | cons m ms =>
    constructor
    · rintro ⟨result, hb, hsignal⟩
      exact agree_uniform ht hids h hb hsignal
    · intro hu
      obtain ⟨hb, htypes⟩ := uniform_agrees ht h hu
      refine ⟨_, hb, ?_⟩
      intro e he
      rw [(receiveEach_counted ht h).1] at he
      obtain ⟨x, hx, hsignal⟩ := List.mem_map.mp he
      rw [← htypes x hx]
      exact hsignal

end Books
end Nperf
