import Nperf.Ledger.Gaps
import Nperf.Proofs.Conservation

namespace Nperf
open Rust Bytes Runs

attribute [ext] Counters

namespace Counters

instance instZero : Zero Counters := ⟨zero⟩

instance instAdd : Add Counters where
  add c d := ⟨c.datagrams + d.datagrams, c.bytes + d.bytes, c.reordered + d.reordered,
    c.duplicated + d.duplicated, c.omitted + d.omitted⟩

instance instAddMonoid : AddMonoid Counters where
  add_assoc _ _ _ := Counters.ext (Nat.add_assoc ..) (Nat.add_assoc ..) (Nat.add_assoc ..)
    (Nat.add_assoc ..) (Int.add_assoc ..)
  zero_add _ := Counters.ext (Nat.zero_add _) (Nat.zero_add _) (Nat.zero_add _) (Nat.zero_add _)
    (Int.zero_add _)
  add_zero _ := Counters.ext (Nat.add_zero _) (Nat.add_zero _) (Nat.add_zero _) (Nat.add_zero _)
    (Int.add_zero _)
  nsmul := nsmulRec

/-- The packets that are missing, less those that came again. -/
def loss (c : Counters) : Int := c.omitted - c.duplicated

/-- A column of a sum is the sum of the column. -/
theorem sum_column {M : Type} [AddMonoid M] (f : Counters → M) (hzero : f 0 = 0)
    (hadd : ∀ c d, f (c + d) = f c + f d) (cs : List Counters) : f cs.sum = (cs.map f).sum := by
  induction cs with
  | nil => exact hzero
  | cons c cs ih => rw [List.sum_cons, hadd, ih, List.map_cons, List.sum_cons]

/-- What a sum shows of these counters: the omitted packets have a type. -/
def Shows (build : Build) (c shown : Counters) : Prop :=
  ∃ n, build.i64 c.omitted = .ok n ∧ shown = { c with omitted := n }

end Counters

/-- The counters of all tests together. -/
def Books.total (b : Books) : Counters := (b.tests.map Book.counters).sum

theorem Books.total_datagrams (b : Books) : b.total.datagrams = b.held := by
  unfold total held
  rw [Counters.sum_column Counters.datagrams rfl (fun _ _ => rfl), List.map_map]
  rfl

namespace Balanced
variable {build : Build} {resets : Prop} {b b' : Books} {closed : List Counters}
  {ms : List Message} {m : Message} {result : Except Error Unit}

theorem init (h : Balanced b closed) (testId : Nat) :
    Balanced { b with tests := Books.grow b.tests testId } closed :=
  h.fresh rfl (by rw [Books.all, counters_grow, ← List.append_assoc]; rfl)

theorem last (h : Balanced b closed) (testId : Nat) :
    Balanced { b with tests := Books.finish b.tests testId } closed := by
  refine h.fresh (k := 0) rfl ?_
  rw [Books.all, Books.finish, counters_modify (f := fun b : Book => { b with finished := true })
    (fun _ => rfl), List.replicate_zero, List.append_nil]
  rfl

/-- Whatever is received, the sheet stays balanced, and the cursor is behind
every packet that was counted. -/
theorem heard (h : Balanced b closed) (hsane : ∀ m ∈ ms, Books.Sane m)
    (hids : ∀ id ∈ ms.flatMap Message.ids, id < 2 ^ 63)
    (hreceive : b.receive build ms = .ok (result, b')) :
    Balanced b' closed ∧ b.next ≤ b'.next ∧
      (0 < Books.counted ms → ∀ id ∈ ms.flatMap Message.ids, id < b'.next) := by
  cases ms with
  | nil =>
    cases hreceive
    exact ⟨h, Nat.le_refl _, by simp⟩
  | cons m ms =>
    have htest := (hsane m List.mem_cons_self).test
    rw [Books.counted_cons]
    cases hm : m.mtype with
    | init =>
      rw [Books.receive_init hm htest] at hreceive
      cases hreceive
      exact ⟨h.init m.testId, Nat.le_refl _, by simp⟩
    | measurement =>
      obtain ⟨hb, hbalanced⟩ := h.receive build hm htest hids
      cases hb.symm.trans hreceive
      exact ⟨hbalanced, Counters.le_cursorAll _ _, fun _ id hid => Counters.lt_cursorAll hid _⟩
    | last =>
      rw [Books.receive_last hm htest (Books.receive_last_known hm htest hreceive)] at hreceive
      cases hreceive
      exact ⟨h.last m.testId, Nat.le_refl _, by simp⟩

theorem moves (h : Balanced b closed) (hsane : ∀ m ∈ ms, Books.Sane m)
    (hids : ∀ id ∈ ms.flatMap Message.ids, id < 2 ^ 63)
    (hmoves : Books.Moves build resets b b' ms) :
    (∃ closed', Balanced b' closed' ∧ (¬resets → closed' = closed)) ∧ b.next ≤ b'.next ∧
      (0 < Books.counted ms → ∀ id ∈ ms.flatMap Message.ids, id < b'.next) := by
  cases hmoves with
  | kept hb => exact ⟨⟨closed, hb ▸ h, fun _ => rfl⟩, Nat.le_of_eq (hb ▸ rfl), by simp⟩
  | reset hresets hb =>
    exact ⟨⟨b.all closed, hb ▸ h.reset, fun hnot => absurd hresets hnot⟩,
      Nat.le_of_eq (hb ▸ rfl), by simp⟩
  | heard ms result hb =>
    obtain ⟨hbalanced, hrest⟩ := h.heard hsane hids hb
    exact ⟨⟨closed, hbalanced, fun _ => rfl⟩, hrest⟩

/-- What is missing in the books is what the cursor has passed and nobody has
counted. -/
theorem loss (h : Balanced b []) : b.total.loss = b.next - b.held := by
  have hweight := h.weight
  have hadd : ∀ c d : Counters, (c + d).weight = c.weight + d.weight := by
    intro c d
    change ((c.datagrams + d.datagrams : Nat) : Int) + (c.omitted + d.omitted) -
      ((c.duplicated + d.duplicated : Nat) : Int) = _
    simp only [Counters.weight]
    omega
  have htotal : b.total.weight = b.next := by
    unfold Books.total
    rw [Counters.sum_column Counters.weight rfl hadd]
    exact hweight
  rw [← Books.total_datagrams, ← htotal]
  simp only [Counters.loss, Counters.weight]
  omega

/-- Without closed intervals the omitted packets of all tests fit in their type. -/
theorem omitted (h : Balanced b []) : 0 ≤ b.total.omitted ∧ b.total.omitted < 2 ^ 63 := by
  have htotal : b.total.omitted = ((b.all []).map Counters.omitted).sum := by
    unfold Books.total
    rw [Counters.sum_column Counters.omitted rfl (fun _ _ => rfl)]
    rfl
  have hnonneg := Lists.sum_map_nonneg h.nonneg
  have hbelow := h.below
  have hrange := h.range
  omega

end Balanced

namespace Session
variable {build : Build} {plans : List Plan} {post : Post} {events : List SessionEvent}
  {wire : List (Nat × Memory)} {s s' : Session}

/-- No id is so large that the difference of two of them is not exact. -/
def Small (parts : List (List Memory)) : Prop :=
  ∀ x ∈ parts.flatten, isData x = true → packetId x < 2 ^ 63

theorem small_append {ps qs : List (List Memory)} : Small (ps ++ qs) ↔ Small ps ∧ Small qs := by
  simp only [Small, List.flatten_append, List.forall_mem_append]

/-- The books of the receiver, against what it has taken from the network. -/
structure Measured (plans : List Plan) (post : Post) (events : List SessionEvent)
    (wire : List (Nat × Memory)) (s : Session) : Prop where
  follows : Follows plans post events wire s
  balanced : Small (parts events) → ∃ closed, Balanced s.receiver.receiver.books closed ∧
    (post.parameter.outputInterval = 0 → closed = [])
  covered : post.parameter.socketOptions.gro = false → Small (parts events) →
    (∀ e ∈ events, e.unmixed = true) → ∀ x ∈ (parts events).flatten, isData x = true →
    packetId x < s.receiver.receiver.nextPacketId
  held : post.parameter.socketOptions.gro = false → (∀ e ∈ events, e.unmixed = true) →
    post.parameter.outputInterval = 0 →
    s.receiver.receiver.books.held = dataAmong (parts events).flatten

theorem Measured.start (plans : List Plan) (post : Post) :
    Measured plans post [] [] (start plans post) := by
  obtain ⟨_, hbooks⟩ := Receiver.Listens.new post.created
  have hstart : (Session.start plans post).receiver.receiver.books = ⟨0, []⟩ := hbooks
  refine ⟨.start plans post, fun _ => ⟨[], ?_, fun _ => rfl⟩, fun _ _ _ => by simp [parts],
    fun _ _ _ => ?_⟩
  · rw [hstart]
    exact ⟨rfl, by simp [Books.all], Int.le_refl 0, Nat.zero_le _⟩
  · rw [hstart]
    rfl

/-- A step that takes nothing from the network. -/
theorem Measured.of_same (h : Measured plans post events wire s) {e : SessionEvent}
    {wire' : List (Nat × Memory)} (hfollows : Follows plans post (events ++ [e]) wire' s')
    (hparts : parts (events ++ [e]) = parts events) (hreceiver : s'.receiver = s.receiver) :
    Measured plans post (events ++ [e]) wire' s' := by
  have hold : (∀ x ∈ events ++ [e], x.unmixed = true) → ∀ x ∈ events, x.unmixed = true :=
    fun hall x hx => hall x (List.mem_append_left _ hx)
  refine ⟨hfollows, ?_, ?_, ?_⟩
  · rw [hparts, hreceiver]
    exact h.balanced
  · rw [hparts, hreceiver]
    exact fun hgro hsmall hall => h.covered hgro hsmall (hold hall)
  · rw [hparts, hreceiver]
    exact fun hgro hall => h.held hgro (hold hall)

theorem said_ids {ms : List Message} {datagrams : List (List Memory)}
    (h : List.Forall₂ Message.Says ms datagrams)
    (hsmall : Small datagrams) : ∀ id ∈ ms.flatMap Message.ids, id < 2 ^ 63 := by
  intro id hid
  obtain ⟨m, hm, hid⟩ := List.mem_flatMap.mp hid
  obtain ⟨part, hpart, hspoken⟩ := Lists.forall₂_mem h hm
  by_cases hdata : m.mtype = .measurement
  · obtain ⟨y, hy, hd, _, rfl⟩ := hspoken.mem_ids hdata hid
    exact hsmall y (List.mem_flatten.mpr ⟨part, hpart, hy⟩) hd
  · rw [hspoken.sane.control hdata id hid]
    exact Nat.two_pow_pos 63

/-- Every data datagram has its id in a message. -/
theorem told_data {ms : List Message} {datagrams : List (List Memory)}
    (h : List.Forall₂ Message.Tells ms datagrams) {x : Memory} (hx : x ∈ datagrams.flatten)
    (hd : isData x = true) : packetId x ∈ ms.flatMap Message.ids := by
  induction h with
  | nil => cases hx
  | @cons m part ms datagrams htold _ ih =>
    rw [List.flatMap_cons]
    rcases List.mem_append.mp hx with hx | hx
    · apply List.mem_append_left
      by_cases hdata : m.mtype = .measurement
      · rw [htold.ids hdata]
        exact List.mem_map_of_mem hx
      · have hnone := htold.dataAmong
        rw [if_neg hdata] at hnone
        exact absurd hd (Multiset.countP_eq_zero.mp hnone x (Multiset.mem_coe.mpr hx))
    · exact List.mem_append_right _ (ih hx)

theorem Measured.receive (h : Measured plans post events wire s) {e : ReceiverEvent}
    {datagrams : List (List Memory)} (hstep : s.step build (.receive e datagrams) = .ok s') :
    Measured plans post (events ++ [.receive e datagrams]) wire s' := by
  obtain ⟨_, ms, hspoken, htold, hmoves⟩ := h.follows.moves hstep
  have hsane := said_sane hspoken
  have hparts : parts (events ++ [.receive e datagrams]) = parts events ++ datagrams := by
    simp [parts]
  have hunmixed : (∀ x ∈ events ++ [.receive e datagrams], x.unmixed = true) →
      (∀ x ∈ events, x.unmixed = true) ∧ (SessionEvent.receive e datagrams).unmixed = true :=
    fun hall => ⟨fun x hx => hall x (List.mem_append_left _ hx),
      hall _ (List.mem_append_right _ List.mem_cons_self)⟩
  refine ⟨h.follows.receive hstep, ?_, ?_, ?_⟩
  · rw [hparts]
    intro hsmall
    obtain ⟨hold, hnew⟩ := small_append.mp hsmall
    obtain ⟨closed, hbalanced, hclosed⟩ := h.balanced hold
    obtain ⟨⟨closed', hbalanced', hsame⟩, _⟩ :=
      hbalanced.moves hsane (said_ids hspoken hnew) hmoves
    exact ⟨closed', hbalanced', fun hzero =>
      (hsame (fun hnot => hnot hzero)).trans (hclosed hzero)⟩
  · rw [hparts]
    intro hgro hsmall hall x hx hd
    obtain ⟨hold, hnew⟩ := small_append.mp hsmall
    obtain ⟨hevents, hbatch⟩ := hunmixed hall
    obtain ⟨closed, hbalanced, _⟩ := h.balanced hold
    obtain ⟨_, hle, hcovers⟩ := hbalanced.moves hsane (said_ids hspoken hnew) hmoves
    rw [List.flatten_append] at hx
    rcases List.mem_append.mp hx with hx | hx
    · exact Nat.lt_of_lt_of_le (h.covered hgro hold hevents x hx hd) hle
    · refine hcovers ?_ _ (told_data (htold hgro) hx hd)
      rw [told_counted (htold hgro) hbatch]
      exact Multiset.countP_pos.mpr ⟨x, Multiset.mem_coe.mpr hx, hd⟩
  · rw [hparts, List.flatten_append, dataAmong_append]
    intro hgro hall hzero
    obtain ⟨hevents, hbatch⟩ := hunmixed hall
    rw [← h.held hgro hevents hzero, ← told_counted (htold hgro) hbatch]
    cases hmoves with
    | kept hb => exact congrArg Books.held hb
    | reset hresets => exact absurd hzero hresets
    | heard ms result hb => exact Books.held_receive hsane hb

theorem Measured.step (h : Measured plans post events wire s) {e : SessionEvent}
    (hstep : s.step build e = .ok s') :
    Measured plans post (events ++ [e]) (wire ++ s.transmissions e s') s' := by
  cases e with
  | send i e =>
    have hfollows := h.follows.send hstep
    obtain ⟨_, _, _, _, rfl, _⟩ := step_send hstep
    exact h.of_same hfollows (by simp [parts]) rfl
  | network m =>
    rw [show s.transmissions (.network m) s' = [] from rfl, List.append_nil]
    have hfollows := h.follows.network hstep
    obtain ⟨_, _, rfl⟩ := step_network hstep
    exact h.of_same hfollows (by simp [parts]) rfl
  | receive e datagrams =>
    rw [show s.transmissions (.receive e datagrams) s' = [] from rfl, List.append_nil]
    exact h.receive hstep

theorem run_measured (h : run (Session.step build) (Session.start plans post) events = .ok s) :
    Measured plans post events (Session.wire build (Session.start plans post) events) s := by
  have hmeasured := collect_history (G := fun _ _ => True) (I := Measured plans post)
    (fun _ _ _ _ _ hs _ hstep => hs.step hstep) (.start plans post)
    (.of_forall (fun _ _ => trivial) _ _) h
  rwa [List.nil_append, List.nil_append] at hmeasured

/-- What is taken has an id below those the senders have come to. -/
theorem Follows.small (h : Follows plans post events wire s)
    (hnext : ∀ sender ∈ s.senders, sender.sender.nextPacketId ≤ 2 ^ 63) :
    Small (parts events) := by
  intro x hx hd
  obtain ⟨part, hpart, hx⟩ := List.mem_flatten.mp hx
  obtain ⟨plan, sender, log, hparty, hmem, htrace⟩ := h.taken hpart hx
  exact Nat.lt_of_lt_of_le (htrace.data hmem hd).2 (hnext sender (List.of_mem_zip hparty).2)

end Session

/-- The data datagrams with an id below `n`. -/
def dataBelow (n : Nat) (xs : Multiset Memory) : Nat :=
  xs.countP fun x => isData x = true ∧ packetId x < n

theorem countP_range'_lt {n m : Nat} (h : n ≤ m) :
    (List.range' 0 m).countP (fun id => decide (id < n)) = n := by
  have hsplit := List.range'_append_1 (s := 0) (m := n) (n := m - n)
  rw [Nat.zero_add, Nat.add_sub_cancel' h] at hsplit
  have hbelow : (List.range' 0 n).countP (fun id => decide (id < n)) = n := by
    rw [List.countP_eq_length.mpr fun id hid => decide_eq_true (by
      have := (List.mem_range'_1.mp hid).2
      omega), List.length_range']
  have habove : (List.range' n (m - n)).countP (fun id => decide (id < n)) = 0 := by
    apply List.countP_eq_zero.mpr
    intro id hid
    have := (List.mem_range'_1.mp hid).1
    simp only [decide_eq_true_eq]
    omega
  rw [← hsplit, List.countP_append, hbelow, habove, Nat.add_zero]

/-- Of a stream that leaves whole every id below one of its own is on the wire. -/
theorem Parameter.Stream.dataBelow {p : Parameter} {testId next n : Nat} {data : List Memory}
    (h : p.Stream testId 0 next data) (hwhole : p.Whole) (hn : n ≤ next) :
    dataBelow n data = n := by
  have hids := h.whole hwhole
  rw [Nat.sub_zero] at hids
  have hdata : data.countP (fun x => decide (isData x = true ∧ packetId x < n)) =
      data.countP ((fun id => decide (id < n)) ∘ packetId) := by
    apply List.countP_congr
    intro x hx
    have hd : isData x = true := decide_eq_true (h.datagrams x hx).mtype
    simp [hd]
  rw [Nperf.dataBelow, Multiset.coe_countP, hdata, ← List.countP_map, hids, countP_range'_lt hn]

namespace SenderRun.Trace
variable {p : Parameter} {testId : Nat} {log : List Memory} {s : SenderRun}

/-- Between INIT and LAST there is data only. -/
theorem shape (h : s.Trace p testId log) : log = [] ∨ ∃ data next last,
    log = controlDatagram .init testId :: data ++ last ∧ p.Stream testId 0 next data ∧
      ∀ x ∈ last, isData x = false := by
  cases s with
  | starting s => exact .inl h.2.2
  | uring l => cases h
  | returned s result =>
    cases result with
    | ok final =>
      obtain ⟨data, rfl, hstream⟩ := h
      refine .inr ⟨data, _, _, rfl, hstream, ?_⟩
      simp [isData_controlDatagram]
    | error e =>
      rcases h with rfl | ⟨data, next, rfl, hstream, _⟩
      · exact .inl rfl
      · exact .inr ⟨data, next, [], by simp, hstream, by simp⟩
  | _ =>
    obtain ⟨_, data, rfl, hstream⟩ := h
    exact .inr ⟨data, _, [], by simp, hstream, by simp⟩

theorem below (h : s.Trace p testId log) (hwhole : p.Whole) {n : Nat}
    (hn : n = 0 ∨ ∃ x ∈ log, isData x = true ∧ n ≤ packetId x + 1) : dataBelow n log = n := by
  rcases hn with rfl | ⟨x, hx, hd, hle⟩
  · simp [dataBelow]
  · rcases h.shape with rfl | ⟨data, next, last, rfl, hstream, hlast⟩
    · cases hx
    · have hmem : x ∈ data := by
        rcases List.mem_append.mp hx with hx | hx
        · rcases List.mem_cons.mp hx with rfl | hx
          · cases (isData_controlDatagram (by simp) testId).symm.trans hd
          · exact hx
        · cases (hlast x hx).symm.trans hd
      have hid := (hstream.mem hmem).2.2
      have hdata := hstream.dataBelow hwhole (n := n) (by omega)
      have hend : dataBelow n last = 0 := by
        refine Multiset.countP_eq_zero.mpr ?_
        intro y hy hboth
        cases (hlast y (Multiset.mem_coe.mp hy)).symm.trans hboth.1
      have hinit : dataBelow n [controlDatagram .init testId] = 0 := by
        simp [dataBelow, Multiset.countP_eq_zero, isData_controlDatagram]
      have hsplit : dataBelow n (controlDatagram .init testId :: data ++ last : List Memory) =
          dataBelow n [controlDatagram .init testId] + dataBelow n data + dataBelow n last := by
        rw [show controlDatagram .init testId :: data ++ last =
          [controlDatagram .init testId] ++ data ++ last by simp, ← Multiset.coe_add,
          ← Multiset.coe_add]
        simp only [dataBelow, Multiset.countP_add]
      omega

end SenderRun.Trace

namespace Statistic

theorem counters_plus {s s' t : Statistic} (h : s.plus t = .ok s') :
    s'.counters = s.counters + t.counters := by
  simp only [plus, bind_ok] at h
  obtain ⟨_, _, _, _, _, _, h⟩ := h
  cases h
  rfl

theorem counters_omitting (s : Statistic) (n : Int) :
    (s.omitting n).counters = { s.counters with omitted := n } := (rfl)

theorem counters_sum {s s' : Statistic} {ts : List Statistic} (h : sum s ts = .ok s') :
    s'.counters = s.counters + (ts.map counters).sum := by
  induction ts generalizing s with
  | nil =>
    cases h
    exact (add_zero _).symm
  | cons t ts ih =>
    obtain ⟨u, hu, hrest⟩ := bind_ok.mp (show _ >>= _ = _ from h)
    rw [ih hrest, counters_plus hu, List.map_cons, List.sum_cons, add_assoc]

end Statistic

theorem Receiver.books_total (r : Receiver) :
    ((r.measurements.map Measurement.statistic).map Statistic.counters).sum = r.books.total := by
  simp only [Books.total, books, List.map_map]
  rfl

namespace ReceiverRun
variable {build : Build} {p : Parameter} {s s' : ReceiverRun} {r : Receiver} {statistic : Statistic}

/-- What the result will report if nothing more happens, and in the end what it
reports. -/
def report : ReceiverRun → Counters
  | .returned _ (.ok (final, _)) => final.counters
  | s => s.receiver.books.total

/-- Without intervals the packets are in the measurements, and nowhere else. -/
def Plain (build : Build) : ReceiverRun → Prop
  | .polling r => r.measurements = [] ∧ r.statisticInterval.statistics = []
  | .looping r statistic | .receiving r statistic | .waiting r statistic | .closing r statistic =>
    r.statisticInterval.statistics = [] ∧ statistic.counters = 0
  | .uring _ => False
  | .returned r (.ok (final, _)) => r.books.total.Shows build final.counters
  | .returned _ (.error _) => True

theorem Plain.report_eq (h : s.Plain build) (hlow : 0 ≤ s.receiver.books.total.omitted)
    (hhigh : s.receiver.books.total.omitted < 2 ^ 63) : s.report = s.receiver.books.total := by
  cases s with
  | returned r result =>
    cases result with
    | ok v =>
      change 0 ≤ r.books.total.omitted at hlow
      have hfits : build.i64 r.books.total.omitted = .ok r.books.total.omitted :=
        i64_fits build (by omega) hhigh
      obtain ⟨n, hn, hfinal⟩ := h
      cases hfits.symm.trans hn
      exact hfinal
    | error e => rfl
  | _ => rfl

theorem Plain.received (hr : r.statisticInterval.statistics = []) (hs : statistic.counters = 0)
    (result : Except Error Unit) : (received r statistic result).Plain build := by
  cases result with
  | ok u => exact ⟨hr, hs⟩
  | error e =>
    cases e with
    | lastMessageReceived =>
      simp only [ReceiverRun.received]
      split <;> exact ⟨hr, hs⟩
    | eagain => exact ⟨hr, hs⟩
    | initMessageReceived => exact ⟨hr, hs⟩
    | _ => trivial

theorem Plain.start (h : (polling r).Plain build) (hparameter : r.parameter = p)
    (hio : p.ioModel ≠ .ioUring) (clock clock' : Clock) (result : WaitResult)
    (setup : Except Error Unit) : (start clock clock' result setup r).Plain build := by
  obtain ⟨hms, hstatistics⟩ := h
  have hbooks : r.books.total = 0 := by
    rw [← Receiver.books_total, hms]
    rfl
  cases result with
  | failed => trivial
  | timeout =>
    change r.books.total.Shows build 0
    rw [hbooks]
    exact ⟨0, i64_fits build (by decide) (by decide), rfl⟩
  | ready =>
    have hsocket : (r.startInterval clock').parameter.ioModel ≠ .ioUring := by
      rw [show (r.startInterval clock').parameter = p from hparameter]
      exact hio
    simp only [ReceiverRun.start, socketPoll]
    rw [if_pos hsocket]
    exact ⟨hstatistics, rfl⟩

theorem Plain.finish {clock : Clock} {closed : Bool} (hr : r.statisticInterval.statistics = [])
    (hs : statistic.counters = 0) (h : finish build clock closed r statistic = .ok s') :
    s'.Plain build := by
  unfold ReceiverRun.finish at h
  split at h
  · cases h
    trivial
  · obtain ⟨final, hfinal, h⟩ := bind_ok.mp h
    cases h
    unfold Receiver.sumStatistics at hfinal
    rw [hr] at hfinal
    obtain ⟨sum, hsum, hfinal⟩ := bind_ok.mp hfinal
    cases hfinal
    obtain ⟨w, n, hw, rfl, hn⟩ := Statistic.total_ok hsum
    have hcounters : w.counters = r.books.total := by
      rw [Statistic.counters_sum hw, hs, zero_add, Receiver.books_total]
    have hnone : statistic.amountOmittedDatagrams = 0 := congrArg Counters.omitted hs
    have hshown := hn (by rw [hnone]; exact i64_fits build (by decide) (by decide))
    change r.books.total.Shows build (w.omitting n).counters
    rw [← hcounters]
    exact ⟨n, hshown, Statistic.counters_omitting w n⟩

theorem Plain.step (h : s.Plain build) (hlistens : s.Listens p) (hio : p.ioModel ≠ .ioUring)
    (hinterval : p.outputInterval = 0) {e : ReceiverEvent} (hstep : s.step build e = .ok s') :
    s'.Plain build := by
  unfold ReceiverRun.step at hstep
  split at hstep
  · rename_i r clock clock' result setup
    cases hstep
    exact h.start hlistens.parameter hio clock clock' result setup
  · rename_i r statistic clock
    obtain ⟨v, hclose, hstep⟩ := bind_ok.mp (lift_ok.mp hstep)
    cases hstep
    have hzero : r.statisticInterval.outputInterval = 0 := hlistens.interval.trans hinterval
    simp only [Receiver.closeInterval, StatisticInterval.expired, hzero, ne_eq, not_true_eq_false,
      false_and, decide_false] at hclose
    cases hclose
    exact h
  · rename_i r statistic clock socket
    obtain ⟨⟨result, r'⟩, hreceive, hstep⟩ := bind_ok.mp (lift_ok.mp hstep)
    cases hstep
    have hsame := (Receiver.recvMessages_counts hreceive).interval
    exact .received (hsame ▸ h.1) h.2 result
  · rename_i r statistic result
    cases hstep
    cases ioWait r.parameter.ioModel result with
    | ok u => exact h
    | error e =>
      cases e with
      | timeout => exact h
      | _ => trivial
  · cases h
  · exact .finish h.1 h.2 (lift_ok.mp hstep)
  · cases hstep

end ReceiverRun

namespace Session
variable {build : Build} {plans : List Plan} {post : Post} {events : List SessionEvent}
  {s : Session}

theorem run_plain (hinterval : post.parameter.outputInterval = 0)
    (h : run (step build) (start plans post) events = .ok s) : s.receiver.Plain build := by
  have hboth : ∃ events wire, Follows plans post events wire s ∧ s.receiver.Plain build := by
    have hpolling : (start plans post).receiver.Plain build := by
      obtain ⟨b, _, hnew⟩ := bind_ok.mp post.created
      rw [show (start plans post).receiver = .polling post.receiver from rfl,
        ← Except.ok.inj hnew]
      exact ⟨rfl, rfl⟩
    refine run_invariant
      (I := fun s => ∃ events wire, Follows plans post events wire s ∧ s.receiver.Plain build) ?_
      ⟨[], [], .start plans post, hpolling⟩ h
    rintro s e s' ⟨events, wire, hfollows, hplain⟩ hstep
    refine ⟨_, _, hfollows.step hstep, ?_⟩
    cases e with
    | send i e =>
      obtain ⟨_, _, _, _, rfl, _⟩ := step_send hstep
      exact hplain
    | network m =>
      obtain ⟨_, _, rfl⟩ := step_network hstep
      exact hplain
    | receive e datagrams =>
      obtain ⟨_, _, _, _, hmove, rfl⟩ := step_receive hstep
      exact hplain.step hfollows.listens post.socket hinterval hmove
  obtain ⟨_, _, _, hplain⟩ := hboth
  exact hplain

/-- The report is the sum of the books: omitted packets never leave their type. -/
theorem run_report (hinterval : post.parameter.outputInterval = 0)
    (h : run (step build) (start plans post) events = .ok s)
    (hnext : ∀ sender ∈ s.senders, sender.sender.nextPacketId ≤ 2 ^ 63) :
    s.receiver.report = s.receiver.receiver.books.total := by
  have hmeasured := run_measured h
  obtain ⟨closed, hbalanced, hclosed⟩ := hmeasured.balanced (hmeasured.follows.small hnext)
  obtain rfl := hclosed hinterval
  obtain ⟨hlow, hhigh⟩ := hbalanced.omitted
  exact (run_plain hinterval h).report_eq hlow hhigh

end Session

/-- All that is on the wire is from the only sender. -/
theorem Session.sentBy_only {wire : List (Nat × Memory)} (h : ∀ x ∈ wire, x.1 < 1) :
    sentBy 0 wire = wire.map Prod.snd := by
  unfold sentBy
  rw [← List.filterMap_eq_map]
  refine List.filterMap_congr ?_
  intro x hx
  exact if_pos (Nat.lt_one_iff.mp (h x hx))

/-- The only sender has sent every packet below the cursor of the receiver. -/
theorem Session.Follows.sent_below {plan : Plan} {post : Post} {events : List SessionEvent}
    {wire : List (Nat × Memory)} {s : Session} (h : s.Follows [plan] post events wire)
    (hwhole : plan.parameter.Whole) :
    dataBelow s.receiver.receiver.nextPacketId (traffic events wire).sent =
      s.receiver.receiver.nextPacketId := by
  have hsent : (traffic events wire).sent = (sentBy 0 wire : Multiset Memory) := by
    rw [sentBy_only h.origin]
    rfl
  obtain ⟨sender, hsender⟩ := List.length_eq_one_iff.mp h.parties
  have htrace := h.traces 0 plan sender rfl (by simp [hsender])
  obtain ⟨heard, hsaid, hbooks⟩ := h.heard
  rw [hsent]
  refine htrace.below hwhole ?_
  rcases hbooks.next with hzero | ⟨m, hm, hdata, id, hid, hle⟩
  · exact .inl hzero
  · obtain ⟨part, hpart, hspoken⟩ := Lists.forall₂_mem hsaid hm
    obtain ⟨x, hx, hd, rfl⟩ := h.heard_packet hpart hspoken hdata hid
    exact .inr ⟨x, Multiset.mem_coe.mp (hsent ▸ hx), hd, hle⟩

/-- The books of a receiver with one sender against what the network has done. -/
theorem Session.Measured.loss {plan : Plan} {post : Post} {events : List SessionEvent}
    {wire : List (Nat × Memory)} {s : Session} (h : s.Measured [plan] post events wire)
    (hwhole : plan.parameter.Whole) (hinterval : post.parameter.outputInterval = 0)
    (hgro : post.parameter.socketOptions.gro = false)
    (hunmixed : ∀ e ∈ events, e.unmixed = true)
    (hnext : ∀ sender ∈ s.senders, sender.sender.nextPacketId ≤ 2 ^ 63) {n : Nat}
    (hn : s.receiver.receiver.nextPacketId = n) :
    s.receiver.receiver.books.total.loss =
        dataBelow n (lost events) + dataBelow n s.network - dataBelow n (duplicated events) ∧
      s.receiver.receiver.books.total.loss = n - s.receiver.receiver.books.total.datagrams := by
  have hsmall := h.follows.small hnext
  obtain ⟨closed, hbalanced, hclosed⟩ := h.balanced hsmall
  obtain rfl := hclosed hinterval
  have hheld := h.held hgro hunmixed hinterval
  have hsent : dataBelow n (traffic events wire).sent = n := hn ▸ h.follows.sent_below hwhole
  have htaken : dataBelow n (parts events).flatten = dataAmong (parts events).flatten := by
    refine Multiset.countP_congr rfl ?_
    intro x hx
    have hbelow := h.covered hgro hsmall hunmixed x (Multiset.mem_coe.mp hx)
    exact propext ⟨fun h => h.1, fun h => ⟨h, hn ▸ hbelow h⟩⟩
  have hcount : dataBelow n (traffic events wire).sent + dataBelow n (duplicated events) =
      dataBelow n (parts events).flatten + dataBelow n (lost events) + dataBelow n s.network :=
    h.follows.accounted.count _
  have hloss : s.receiver.receiver.books.total.loss =
      s.receiver.receiver.nextPacketId - s.receiver.receiver.books.held := hbalanced.loss
  rw [Books.total_datagrams, hloss, hn, hheld]
  omega

/-- With one sender the receiver reports the truth about the network: the
packets it misses, less those it has seen again, are those below its cursor
that were lost or are still under way, less the copies the network has made. -/
theorem loss_reported (build : Build) (plan : Plan) (post : Post)
    (hwhole : plan.parameter.Whole) (hinterval : post.parameter.outputInterval = 0)
    (hgro : post.parameter.socketOptions.gro = false) (events : List SessionEvent)
    (hunmixed : ∀ e ∈ events, e.unmixed = true) (s : Session)
    (hrun : run (Session.step build) (Session.start [plan] post) events = .ok s)
    (hnext : ∀ sender ∈ s.senders, sender.sender.nextPacketId ≤ 2 ^ 63) :
    let n := s.receiver.receiver.nextPacketId
    (s.receiver.report.omitted - s.receiver.report.duplicated : Int) =
      dataBelow n (Session.lost events) + dataBelow n s.network -
        dataBelow n (Session.duplicated events) := by
  intro n
  rw [Session.run_report hinterval hrun hnext]
  exact ((Session.run_measured hrun).loss hwhole hinterval hgro hunmixed hnext rfl).1

theorem loss_reported_once :
    let start := Session.start [.headersOnly] .headersOnly
    ∃ s, run (Session.step .debug) start Session.oneLost = .ok s ∧ s.receiver.report.omitted = 1 ∧
      let n := s.receiver.receiver.nextPacketId
      (s.receiver.report.omitted - s.receiver.report.duplicated : Int) =
        dataBelow n (Session.lost Session.oneLost) + dataBelow n s.network -
          dataBelow n (Session.duplicated Session.oneLost) := by
  intro start
  obtain ⟨s, hrun, hloss, hnext⟩ := checked
    (x := run (Session.step .debug) start Session.oneLost)
    (p := fun s => s.receiver.report.omitted = 1 ∧
      ∀ sender ∈ s.senders, sender.sender.nextPacketId ≤ 2 ^ 63) (by decide +kernel)
  exact ⟨s, hrun, hloss, loss_reported .debug .headersOnly .headersOnly (by decide) rfl
    rfl _ (by decide) s hrun hnext⟩

end Nperf
