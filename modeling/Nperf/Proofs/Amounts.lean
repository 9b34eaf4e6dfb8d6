import Nperf.Lib.Lists
import Nperf.Model.ReceiverRun
import Nperf.Proofs.Adding
import Nperf.Proofs.History

namespace Nperf
open Rust Bytes

/-- The two amounts that are added up over a run. -/
inductive Amount | datagrams | dataBytes
  deriving DecidableEq, Repr

instance Amount.decidableForall {P : Amount → Prop} [∀ a, Decidable (P a)] :
    Decidable (∀ a, P a) :=
  decidable_of_iff (P .datagrams ∧ P .dataBytes)
    ⟨fun ⟨hdatagrams, hbytes⟩ a => match a with
      | .datagrams => hdatagrams
      | .dataBytes => hbytes, fun h => ⟨h _, h _⟩⟩

namespace Statistic

def amount (a : Amount) (s : Statistic) : Nat :=
  match a with
  | .datagrams => s.amountDatagrams
  | .dataBytes => s.amountDataBytes

variable {a : Amount} {s s' : Statistic}

@[simp] theorem amount_new (clock : Clock) (p : Parameter) : (new clock p).amount a = 0 := by
  cases a <;> rfl

@[simp] theorem amount_setTestDuration (startTime endTime : Option Timestamp) :
    (s.setTestDuration startTime endTime).amount a = s.amount a := by
  cases a <;> rfl

theorem amount_plus {t : Statistic} (h : s.plus t = .ok s') :
    s'.amount a = s.amount a + t.amount a := by
  simp only [plus, bind_ok] at h
  obtain ⟨_, _, _, _, _, _, h⟩ := h
  cases h
  cases a <;> rfl

theorem amount_sum {ts : List Statistic} (h : sum s ts = .ok s') :
    s'.amount a = s.amount a + (ts.map (amount a)).sum := by
  induction ts generalizing s with
  | nil =>
    cases h
    rfl
  | cons t ts ih =>
    obtain ⟨u, hu, hrest⟩ := bind_ok.mp (show _ >>= _ = _ from h)
    rw [ih hrest, amount_plus hu, List.map_cons, List.sum_cons]
    omega

theorem amount_omitting (n : Int) : (s.omitting n).amount a = s.amount a := by
  cases a <;> rfl

theorem amount_accumulate {build : Build} {t : Statistic} (h : s.accumulate build t = .ok s') :
    s'.amount a = s.amount a + t.amount a := by
  obtain ⟨w, n, hw, _, rfl⟩ := accumulate_ok h
  rw [amount_omitting, amount_plus hw]

theorem amount_total {build : Build} {ts : List Statistic} (h : total build s ts = .ok s') :
    s'.amount a = s.amount a + (ts.map (amount a)).sum := by
  obtain ⟨w, n, hw, rfl, _⟩ := total_ok h
  rw [amount_omitting, amount_sum hw]

theorem amount_recordSq {length : Nat} (h : s.recordSq length = .ok s') :
    s'.amount a = s.amount a := by
  obtain ⟨_, _, h⟩ := bind_ok.mp h
  cases h
  cases a <;> rfl

theorem amount_recordCq {length : Nat} (h : s.recordCq length = .ok s') :
    s'.amount a = s.amount a := by
  obtain ⟨_, _, h⟩ := bind_ok.mp h
  cases h
  cases a <;> rfl

theorem amount_recordInflight {length : Nat} (h : s.recordInflight length = .ok s') :
    s'.amount a = s.amount a := by
  obtain ⟨_, _, h⟩ := bind_ok.mp h
  cases h
  cases a <;> rfl

@[simp] theorem amount_countIoModelCall : s.countIoModelCall.amount a = s.amount a := by
  cases a <;> rfl

end Statistic

/-- What the measurements hold of an amount. -/
def amounts (a : Amount) (ms : List Measurement) : Nat :=
  (ms.map (fun m => m.statistic.amount a)).sum

section
variable {a : Amount} {ms : List Measurement} {testId : Nat} {m : Measurement}

theorem amounts_set (a : Amount) (m' : Measurement) (hm : ms[testId]? = some m) :
    amounts a (ms.set testId m') + m.statistic.amount a =
      amounts a ms + m'.statistic.amount a := by
  induction ms generalizing testId with
  | nil => cases hm
  | cons x xs ih =>
    cases testId with
    | zero =>
      cases hm
      simp only [amounts, List.set_cons_zero, List.map_cons, List.sum_cons]
      omega
    | succ i =>
      have hrest : xs[i]? = some m := hm
      have hset := ih hrest
      simp only [amounts, List.set_cons_succ, List.map_cons, List.sum_cons] at hset ⊢
      omega

theorem amounts_grow (clock : Clock) (ms : List Measurement) (testId : Nat) (p : Parameter) :
    amounts a (growMeasurements clock ms testId p) = amounts a ms := by
  unfold growMeasurements amounts
  split
  · simp [Measurement.new]
  · rfl

/-- A header changes flags and times, no amounts. -/
theorem parseMessageType_amounts {clock : Clock} {mtype : MessageType} {p : Parameter}
    {result : Except Error Unit} {ms' : List Measurement}
    (h : Receiver.parseMessageType clock mtype testId ms p = .ok (result, ms')) :
    amounts a ms' = amounts a ms := by
  rcases parseMessageType_hear h with ⟨_, _, rfl⟩ | ⟨_, _, rfl⟩
  · rfl
  · obtain ⟨m, hm⟩ := growMeasurements_getElem clock ms testId p
    have hset := amounts_set a (m.hear clock mtype) hm
    have hsame : (m.hear clock mtype).statistic.amount a = m.statistic.amount a := by
      cases mtype with
      | init => rfl
      | measurement =>
        simp only [Measurement.hear]
        split
        · rfl
        · cases a <;> rfl
      | last => cases a <;> rfl
    rw [Lists.modify_eq_set hm, ← amounts_grow clock ms testId p]
    omega

end

section
variable {a : Amount} {build : Build} {s s' : Statistic}

/-- Packets are compared with the cursor first and added up at the end. -/
theorem processPacketNumber_amount {packetId nextPacketId n : Nat}
    (h : processPacketNumber build packetId nextPacketId s = .ok (n, s')) :
    s'.amount a = s.amount a := by
  unfold processPacketNumber at h
  split at h
  · cases h
    rfl
  split at h
  · simp only [bind_ok] at h
    obtain ⟨_, _, _, _, h⟩ := h
    cases h
    cases a <;> rfl
  split at h <;> cases h <;> cases a <;> rfl

/-- What going through one packet leaves of a statistic, going through all of them leaves. -/
theorem processPackets_rel {R : Statistic → Statistic → Prop} (hrefl : ∀ s, R s s)
    (htrans : ∀ s t u, R s t → R t u → R s u)
    (hstep : ∀ id next s n s', processPacketNumber build id next s = .ok (n, s') → R s s')
    {packets : List Slice} {next received : Nat} {acc : Nat × Nat × Statistic}
    (h : processPackets build packets (next, received, s) = .ok acc) : R s acc.2.2 := by
  induction packets generalizing next received s with
  | nil =>
    cases h
    exact hrefl s
  | cons packet packets ih =>
    simp only [processPackets, processPacket, bind_ok] at h
    obtain ⟨⟨n, t⟩, ⟨id, _, hn⟩, next', _, h⟩ := h
    exact htrans s t _ (hstep _ _ _ _ _ hn) (ih h)

theorem processPacketMsghdr_rel {R : Statistic → Statistic → Prop} (hrefl : ∀ s, R s s)
    (htrans : ∀ s t u, R s t → R t u → R s u)
    (hstep : ∀ id next s n s', processPacketNumber build id next s = .ok (n, s') → R s s')
    {h : Msghdr} {n next : Nat} {acc : Nat × Nat × Statistic}
    (hp : processPacketMsghdr build h n next s = .ok acc) : R s acc.2.2 := by
  unfold processPacketMsghdr at hp
  split at hp
  · cases hp
  · simp only [bind_ok] at hp
    obtain ⟨_, _, _, _, hp⟩ := hp
    exact processPackets_rel hrefl htrans hstep hp

theorem processPacketMsghdr_amount {h : Msghdr} {n next : Nat} {acc : Nat × Nat × Statistic}
    (hp : processPacketMsghdr build h n next s = .ok acc) : acc.2.2.amount a = s.amount a :=
  processPacketMsghdr_rel (R := fun s s' => s'.amount a = s.amount a) (fun _ => rfl)
    (fun _ _ _ h h' => h'.trans h) (fun _ _ _ _ _ hn => processPacketNumber_amount hn) hp

theorem processPacketBuffer_amount {buffer : Slice} {size next : Nat} {acc : Nat × Statistic}
    (h : processPacketBuffer build buffer size next s = .ok acc) : acc.2.amount a = s.amount a := by
  simp only [processPacketBuffer, bind_ok] at h
  obtain ⟨packets, _, h⟩ := h
  refine Lists.foldlM_ok (fun acc : Nat × Statistic => acc.2.amount a = s.amount a) rfl ?_ h
  intro acc packet acc' hacc hround
  simp only [processPacket, bind_ok] at hround
  obtain ⟨⟨n, t⟩, ⟨id, _, hn⟩, amount, _, hround⟩ := hround
  cases hround
  rw [← hacc, ← processPacketNumber_amount hn]

theorem processMmsghdrs_amount {r : Receiver} {xs ys : List Mmsghdr} {next received : Nat}
    {acc : Nat × Nat × Statistic}
    (h : Receiver.processMmsghdrs build r xs (next, received, s) = .ok (ys, acc)) :
    acc.2.2.amount a = s.amount a := by
  induction xs generalizing next received s ys acc with
  | nil =>
    cases h
    rfl
  | cons x xs ih =>
    simp only [Receiver.processMmsghdrs, bind_ok] at h
    obtain ⟨v, hv, ⟨rest, acc'⟩, hrest, h⟩ := h
    cases h
    rw [ih hrest, processPacketMsghdr_amount hv]

end

/-- What the recorded intervals hold. -/
def StatisticInterval.recorded (a : Amount) (i : StatisticInterval) : Nat :=
  (i.statistics.map (Statistic.amount a)).sum

/-- A list that is full takes no interval. -/
theorem StatisticInterval.recorded_calculateInterval (a : Amount) (clock : Clock)
    (i : StatisticInterval) (s : Statistic) : (i.calculateInterval clock s).recorded a =
      i.recorded a + if i.finished then 0 else s.amount a := by
  simp only [recorded, calculateInterval, finished, decide_eq_true_eq]
  split
  · rfl
  · have hclosed : ({ s with intervalId := i.intervalId }.setTestDuration
        (some i.lastSendTimestamp) (some clock.unix)).amount a = s.amount a := by
      cases a <;> rfl
    simp [hclosed]

/-- What an interval check makes of the amounts, with what is in the recorded
intervals and what is held since. After an expiration the counting starts anew,
and what was held is recorded as long as there are intervals left. -/
def Checked (expired finished : Bool) (recorded held recorded' held' : Nat) : Prop :=
  if expired then held' = 0 ∧ recorded' = recorded + if finished then 0 else held
  else held' = held ∧ recorded' = recorded

/-- An interval check loses what a full list of intervals does not take. -/
theorem Checked.account {expired finished : Bool} {recorded held recorded' held' : Nat}
    (h : Checked expired finished recorded held recorded' held') :
    recorded' + held' ≤ recorded + held + (held' - held) ∧
      (recorded' + held' = recorded + held + (held' - held) ↔
        (expired → finished → held = 0)) := by
  cases expired with
  | true =>
    cases finished with
    | true =>
      obtain ⟨hheld, hrecorded⟩ : held' = 0 ∧ recorded' = recorded + 0 := h
      refine ⟨by omega, fun _ _ _ => by omega, fun hzero => ?_⟩
      have hnone := hzero rfl rfl
      omega
    | false =>
      obtain ⟨hheld, hrecorded⟩ : held' = 0 ∧ recorded' = recorded + held := h
      exact ⟨by omega, fun _ _ => by simp, fun _ => by omega⟩
  | false =>
    obtain ⟨hheld, hrecorded⟩ : held' = held ∧ recorded' = recorded := h
    exact ⟨by omega, fun _ => by simp, fun _ => by omega⟩

namespace Receiver

/-- What the measurements hold since their last start. -/
def counted (a : Amount) (r : Receiver) : Nat := amounts a r.measurements

/-- What the recorded intervals hold. -/
def recorded (a : Amount) (r : Receiver) : Nat :=
  (r.statisticInterval.statistics.map (Statistic.amount a)).sum

/-- A receive function adds to the measurements and leaves the intervals. -/
structure Counts (r r' : Receiver) : Prop where
  interval : r'.statisticInterval = r.statisticInterval
  counted : ∀ a, r.counted a ≤ r'.counted a

theorem Counts.of_eq {r r' : Receiver} (hinterval : r'.statisticInterval = r.statisticInterval)
    (hms : r'.measurements = r.measurements) : r.Counts r' :=
  ⟨hinterval, fun a => by simp only [Receiver.counted, hms, Nat.le_refl]⟩

theorem Counts.refl (r : Receiver) : r.Counts r := .of_eq rfl rfl

theorem Counts.trans {r r' r'' : Receiver} (h : r.Counts r') (h' : r'.Counts r'') : r.Counts r'' :=
  ⟨h'.interval.trans h.interval, fun a => Nat.le_trans (h.counted a) (h'.counted a)⟩

section
variable {build : Build} {clock : Clock} {r r' : Receiver} {result : Except Error Unit}

theorem measurement_eq {ms : List Measurement} {testId : Nat} {m : Measurement}
    (h : measurement ms testId = .ok m) : ms[testId]? = some m := by
  unfold measurement at h
  split at h
  · rename_i hget
    cases h
    exact hget
  · cases h

/-- Going through the packets leaves the amounts to `countReceived`. -/
theorem Handled.counts {h : Msghdr} {Packets : Statistic → Statistic → PacketBuffer → Prop}
    (hr : r.Handled clock h Packets result r')
    (hpackets : ∀ s s' b, Packets s s' b → ∀ a, s'.amount a = s.amount a) : r.Counts r' := by
  cases hr with
  | stopped _ parsed =>
    refine ⟨rfl, fun a => ?_⟩
    simp only [Receiver.counted, parseMessageType_amounts parsed, Nat.le_refl]
  | @counted testId _ ms m statistic _ _ datagrams bytes _ parsed entry packets =>
    refine ⟨rfl, fun a => ?_⟩
    have hset := amounts_set a
      { m with statistic := statistic.countReceived datagrams bytes } (measurement_eq entry)
    have hgrows : statistic.amount a ≤ (statistic.countReceived datagrams bytes).amount a := by
      cases a <;> exact Nat.le_add_right _ _
    have hsame := hpackets _ _ _ packets a
    have hparsed := parseMessageType_amounts (a := a) parsed
    simp only [Receiver.counted, setStatistic] at hset ⊢
    omega

theorem Received.counts {fill : Msghdr → Delivery → Msghdr} {socket : Except Error Delivery}
    {Packets : Msghdr → Delivery → Statistic → Statistic → PacketBuffer → Prop}
    (hr : r.Received clock fill Packets socket result r')
    (hpackets : ∀ h d s s' b, Packets h d s s' b → ∀ a, s'.amount a = s.amount a) :
    r.Counts r' := by
  cases hr with
  | failed e => exact .refl r
  | @handled h d _ _ _ goes =>
    apply Counts.trans ?_ (goes.counts (hpackets h d))
    exact .of_eq rfl rfl

theorem recv_counts {socket : Except Error Delivery}
    (h : r.recv build clock socket = .ok (result, r')) : r.Counts r' := by
  apply (recv_cases h).counts
  intro h d s s' b hp a
  obtain ⟨_, buffer, datagrams, hp⟩ := hp
  exact processPacketBuffer_amount hp

theorem recvmsg_counts {socket : Except Error Delivery}
    (h : r.recvmsg build clock socket = .ok (result, r')) : r.Counts r' := by
  apply (recvmsg_cases h).counts
  intro h d s s' b hp a
  obtain ⟨_, next, datagrams, hp⟩ := hp
  exact processPacketMsghdr_amount hp

theorem recvmmsg_counts {socket : Except Error (List Delivery)}
    (h : r.recvmmsg build clock socket = .ok (result, r')) : r.Counts r' := by
  cases recvmmsg_cases h with
  | failed e => exact .refl r
  | nothing => exact .of_eq rfl rfl
  | handled _ _ goes =>
    apply Counts.trans ?_ (goes.counts ?_)
    · exact .of_eq rfl rfl
    · intro s s' b hp a
      obtain ⟨t, processed, next, datagrams, _, hp, _⟩ := hp
      exact processMmsghdrs_amount hp

theorem handleRecvmsgReturn_counts {amount : Int} {given : Option Msghdr} {index : Nat}
    (h : r.handleRecvmsgReturn build clock amount given index = .ok (result, r')) :
    r.Counts r' := by
  obtain ⟨hdr, _, goes⟩ := handleRecvmsgReturn_cases h
  apply goes.counts
  intro s s' b hp a
  obtain ⟨processed, amount, next, datagrams, _, hp, _⟩ := hp
  exact processPacketMsghdr_amount hp

theorem recvMessages_counts {socket : Socket}
    (h : r.recvMessages build clock socket = .ok (result, r')) : r.Counts r' := by
  have hprepared : r.Counts r.prepareMsghdrs := by
    unfold prepareMsghdrs
    split <;> exact .of_eq rfl rfl
  apply hprepared.trans
  unfold recvMessages at h
  split at h
  · exact recv_counts h
  · exact recvmsg_counts h
  · exact recvmmsg_counts h

end
/-- What an interval check makes of the amounts. After an expiration the
measurements start anew, and what they held is recorded as long as there are
intervals left. -/
def Checks (clock : Clock) (r r' : Receiver) : Prop :=
  ∀ a, if r.statisticInterval.expired clock then
      r'.counted a = 0 ∧ r'.recorded a =
        r.recorded a + if r.statisticInterval.finished then 0 else r.counted a
    else r'.counted a = r.counted a ∧ r'.recorded a = r.recorded a

theorem counted_reset (a : Amount) (clock : Clock) (r : Receiver) :
    (r.resetStatistics clock).counted a = 0 := by
  have hzero : ∀ ms : List Measurement, amounts a (ms.map (fun m =>
      { m with statistic := Statistic.new clock r.parameter })) = 0 := by
    intro ms
    induction ms with
    | nil => rfl
    | cons m ms ih => simpa [amounts] using ih
  exact hzero r.measurements

theorem checks_recorded {clock : Clock} {r : Receiver} {sum : Statistic}
    (hexpired : r.statisticInterval.expired clock = true)
    (hsum : ∀ a, sum.amount a = r.counted a) :
    r.Checks clock { r.resetStatistics clock with
      statisticInterval := r.statisticInterval.calculateInterval clock sum } := by
  intro a
  rw [if_pos hexpired]
  refine ⟨counted_reset a clock r, ?_⟩
  rw [← hsum a]
  exact StatisticInterval.recorded_calculateInterval a clock _ sum

theorem closeInterval_checks {build : Build} {clock : Clock} {r r' : Receiver} {s s' : Statistic}
    (hs : ∀ a, s.amount a = 0) (h : r.closeInterval build clock s = .ok (r', s')) :
    r.Checks clock r' ∧ ∀ a, s'.amount a = 0 := by
  unfold closeInterval at h
  split at h
  · rename_i hexpired
    obtain ⟨sum, hsum, h⟩ := bind_ok.mp h
    cases h
    refine ⟨checks_recorded hexpired fun a => ?_, fun a => Statistic.amount_new clock _⟩
    rw [Statistic.amount_total hsum, hs a, Nat.zero_add, List.map_map]
    rfl
  · rename_i hexpired
    cases h
    refine ⟨fun a => ?_, hs⟩
    rw [if_neg hexpired]
    exact ⟨rfl, rfl⟩

theorem Checks.account {clock : Clock} {r r' : Receiver} (h : r.Checks clock r') (a : Amount) :
    r'.recorded a + r'.counted a ≤
        r.recorded a + r.counted a + (r'.counted a - r.counted a) ∧
      (r'.recorded a + r'.counted a =
          r.recorded a + r.counted a + (r'.counted a - r.counted a) ↔
        (r.statisticInterval.expired clock → r.statisticInterval.finished → r.counted a = 0)) :=
  Checked.account (h a)

theorem Checks.of_eq {clock : Clock} {r r' r'' : Receiver} (h : r.Checks clock r')
    (hinterval : r''.statisticInterval = r'.statisticInterval)
    (hms : r''.measurements = r'.measurements) : r.Checks clock r'' := by
  intro a
  have hcheck := h a
  simp only [counted, recorded, hinterval, hms] at hcheck ⊢
  exact hcheck

theorem Counts.account {r r' : Receiver} (h : r.Counts r') (a : Amount) :
    r'.recorded a + r'.counted a =
      r.recorded a + r.counted a + (r'.counted a - r.counted a) := by
  have hcounted := h.counted a
  have hrecorded : r'.recorded a = r.recorded a := by simp only [recorded, h.interval]
  omega

end Receiver

namespace Receiver
variable {build : Build} {clock : Nat → Clock} {r r' : Receiver} {cq rest : List Cqe}

theorem ioUringCompleteNormal_counts {result : Except Error Nat}
    (h : r.ioUringCompleteNormal build clock cq = .ok (result, r', rest)) : r.Counts r' :=
  ioUringCompleteNormal_keeps
    (fun _ _ _ _ _ _ _ ht goes => Counts.trans ht (handleRecvmsgReturn_counts goes))
    (fun _ _ ht => Counts.trans ht (.of_eq rfl rfl)) (Counts.refl r) h

theorem ioUringCompleteProvidedBuffers_counts {statistic statistic' : Statistic}
    {result : Except Error Nat}
    (h : r.ioUringCompleteProvidedBuffers build clock statistic cq =
      .ok (result, r', statistic', rest)) :
    r.Counts r' ∧ ∀ a, statistic'.amount a = statistic.amount a := by
  refine ioUringCompleteProvidedBuffers_keeps
    (Q := fun s => ∀ a, s.amount a = statistic.amount a)
    (fun _ _ _ _ _ _ _ ht goes => Counts.trans ht (handleRecvmsgReturn_counts goes))
    (fun s hs a => ?_) (Counts.refl r) (fun _ => rfl) h
  rw [← hs a]
  cases a <;> rfl

theorem ioUringCompleteMultishot_counts {result : Except Error Bool}
    (h : r.ioUringCompleteMultishot build clock cq = .ok (result, r', rest)) : r.Counts r' :=
  ioUringCompleteMultishot_keeps
    (fun _ _ _ _ _ _ _ ht goes => Counts.trans ht (handleRecvmsgReturn_counts goes))
    (Counts.refl r) h

end Receiver

end Nperf
