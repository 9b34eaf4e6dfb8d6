import Nperf.Proofs.Joining
import Nperf.Proofs.Sockets

namespace Nperf
open Rust Handles

/-- A result that adds nothing to the summary. -/
def ThreadResult.Idle : ThreadResult → Prop
  | .finished statistic intervals => intervals = [] ∧ ∀ m, statistic.metric m = 0
  | _ => True

namespace ReceiverRun

variable {build : Build} {s s' : ReceiverRun} {e : ReceiverEvent} {r : Receiver}
  {statistic : Statistic}

theorem joined_idle (hnone : s.joined = none) : ∀ result ∈ s.joined, result.Idle := by
  rw [hnone]
  rintro result ⟨⟩

theorem failed_idle (r : Receiver) (e : Error) :
    ∀ result ∈ (returned r (.error e)).joined, result.Idle := by
  rintro result ⟨⟩
  trivial

theorem start_idle (clock clock' : Clock) (answer : WaitResult) (setup : Except Error Unit)
    (r : Receiver) : ∀ result ∈ (start clock clock' answer setup r).joined, result.Idle := by
  cases answer with
  | failed => exact failed_idle r _
  | timeout =>
    rintro result ⟨⟩
    exact ⟨rfl, fun m => Statistic.metric_new m clock r.parameter⟩
  | ready =>
    simp only [start, socketPoll]
    split
    · exact joined_idle rfl
    · split
      · exact failed_idle _ _
      · cases setup with
        | error e => exact failed_idle _ e
        | ok u => exact joined_idle rfl

theorem received_idle (r : Receiver) (statistic : Statistic) (answer : Except Error Unit) :
    ∀ result ∈ (received r statistic answer).joined, result.Idle := by
  cases answer with
  | ok u => exact joined_idle rfl
  | error e =>
    cases e with
    | eagain => exact joined_idle rfl
    | initMessageReceived => exact joined_idle rfl
    | lastMessageReceived =>
      simp only [received]
      split
      · exact joined_idle rfl
      · exact joined_idle rfl
    | _ => exact failed_idle r _

theorem waited_idle (r : Receiver) (statistic : Statistic) (answer : Except Error Unit) :
    ∀ result ∈ (waited r statistic answer).joined, result.Idle := by
  cases answer with
  | ok u => exact joined_idle rfl
  | error e =>
    cases e with
    | timeout => exact joined_idle rfl
    | _ => exact failed_idle r _

theorem looped_idle (l : UringLoop) : ∀ result ∈ (looped l).joined, result.Idle := by
  unfold looped
  split
  · exact joined_idle rfl
  · exact failed_idle _ _
  · exact joined_idle rfl

/-- A thread that ends before it comes to close its socket has measured nothing
that it reports. -/
theorem step_idle (hopen : r.parameter.multiplexPortReceiver ≠ .sharing) (hr : s.receiver = r)
    (hcloses : s.closes e = false) (h : s.step build e = .ok s') :
    ∀ result ∈ s'.joined, result.Idle := by
  unfold step at h
  split at h
  · rename_i r clock clock' result setup
    cases h
    exact start_idle clock clock' result setup r
  · obtain ⟨⟨r', statistic'⟩, _, h⟩ := bind_ok.mp (lift_ok.mp h)
    cases h
    exact joined_idle rfl
  · obtain ⟨⟨result, r'⟩, _, h⟩ := bind_ok.mp (lift_ok.mp h)
    cases h
    exact received_idle r' _ result
  · cases h
    exact waited_idle _ _ _
  · obtain ⟨l, _, h⟩ := map_eq_ok.mp h
    cases h
    exact looped_idle l
  · cases hr
    simp only [closes, receiver] at hcloses hopen
    simp [hopen] at hcloses
  · cases h

/-- The step that closes the socket is the last one. -/
theorem closes_joined (hcloses : s.closes e = true) (h : s.step build e = .ok s') :
    s'.joined.isSome := by
  unfold closes at hcloses
  split at hcloses
  · rename_i r statistic clock closed
    have hfinish := lift_ok.mp h
    unfold finish at hfinish
    split at hfinish
    · cases hfinish
      rfl
    · obtain ⟨final, _, hfinish⟩ := bind_ok.mp hfinish
      cases hfinish
      rfl
  · cases hcloses

/-- A run that is over makes no more steps. -/
theorem joined_step {result : ThreadResult} (h : s.joined = some result) :
    s.step build e = .error .disabled := by
  cases s with
  | returned r result => cases e <;> rfl
  | _ => cases h

theorem closes_shared (h : s.receiver.parameter.multiplexPortReceiver = .sharing) :
    s.closes e = false := by
  unfold closes
  split
  · rename_i r statistic clock closed
    simpa [receiver] using h
  · rfl

end ReceiverRun

/-- The port that thread `i` binds to, if it makes a socket. -/
def Server.port (server : Server) (i : Nat) : Nat :=
  if server.parameter.multiplexPortReceiver ≠ .individual then server.args.port.toNat
  else (server.args.port.toNat + i) % 2 ^ 16

namespace ReceiverThread

variable {server : Server} {i : Nat} {socket : Option Nat} {t t' : SocketTable}
  {lock lock' : AffinityLock} {thread thread' : ReceiverThread} {e : ThreadEvent}

/-- What thread `i` may rely on, next to the shared socket if there is one. -/
def Shows (server : Server) (i : Nat) (socket : Option Nat) (t : SocketTable) :
    ReceiverThread → Prop
  | .spawned port => port = server.port i
  | .opening port o =>
    socket = none ∧ port = server.port i ∧ o.Shows server.parameter.socketOptions port t
  | .lent fd => socket = some fd
  | .running fd true r => socket = none ∧ r.Registers server.parameter ∧ (r.joined = none →
      (Opening.bound fd).Shows server.parameter.socketOptions (server.port i) t)
  | .running fd false r => socket = some fd ∧ r.Registers server.parameter
  | .panicked => True

theorem Shows.lookup (h : thread.Shows server i socket t) {fd : Nat} (hfd : thread.own = some fd) :
    socket = none ∧ ∃ entry, t.lookup fd = some entry ∧
      entry.Of server.parameter.socketOptions (server.port i) := by
  cases thread with
  | spawned port => cases hfd
  | opening port o =>
    obtain ⟨hsocket, rfl, h⟩ := h
    exact ⟨hsocket, h.lookup hfd⟩
  | lent fd => cases hfd
  | running fd' own r =>
    cases own with
    | false => cases hfd
    | true =>
      obtain ⟨hsocket, _, h⟩ := h
      simp only [own] at hfd
      split at hfd
      · rename_i hnone
        exact ⟨hsocket, (h (Option.isNone_iff_eq_none.mp hnone)).lookup hfd⟩
      · cases hfd
  | panicked => cases hfd

theorem Shows.same (h : thread.Shows server i socket t)
    (hsame : ∀ fd, thread.own = some fd → t'.lookup fd = t.lookup fd) :
    thread.Shows server i socket t' := by
  cases thread with
  | spawned port => exact h
  | opening port o => exact ⟨h.1, h.2.1, h.2.2.same hsame⟩
  | lent fd => exact h
  | running fd own r =>
    cases own with
    | false => exact h
    | true =>
      refine ⟨h.1, h.2.1, ?_⟩
      intro hnone
      apply (h.2.2 hnone).same
      rintro fd' ⟨⟩
      exact hsame fd (by simp [own, hnone])
  | panicked => trivial

theorem own_of_joined (h : thread.joined.isSome) : thread.own = none := by
  cases thread with
  | running fd own r =>
    cases own with
    | false => rfl
    | true =>
      have hnot : ¬r.joined.isNone := by
        rw [Option.isNone_iff_eq_none, ← ne_eq, ← Option.isSome_iff_ne_none]
        exact h
      simp [own, hnot]
  | panicked => rfl
  | _ => cases h

/-- What of its own a thread holds after a move, or leaves behind. -/
def hand (thread thread' : ReceiverThread) (t' : SocketTable) : Option Nat :=
  if thread'.joined.isNone then thread'.own else thread.own.filter (· ∈ t')

/-- A move of thread `i`. A socket that it leaves is that of a thread with
nothing to report. -/
structure Kept (server : Server) (i : Nat) (socket : Option Nat) (t t' : SocketTable)
    (thread thread' : ReceiverThread) : Prop where
  transfer : Transfer thread.own (thread.hand thread' t') t t'
  shows : thread'.Shows server i socket t'
  left : ∀ fd result, thread.own = some fd → thread'.joined = some result → fd ∈ t' →
    socket = none ∧ result.Idle ∧ ∃ entry, t'.lookup fd = some entry ∧
      entry.Of server.parameter.socketOptions (server.port i)
  exclusive : t.Exclusive → t'.Exclusive

theorem Kept.of_none (hown : thread.own = none) (hown' : thread'.own = none)
    (hshows : thread'.Shows server i socket t) : Kept server i socket t t thread thread' := by
  have hhand : thread.hand thread' t = none := by simp [hand, hown, hown']
  refine ⟨?_, hshows, ?_, fun h => h⟩
  · rw [hown, hhand]
    exact .refl none t
  · intro fd result hfd
    rw [hown] at hfd
    cases hfd

/-- A thread that ends and leaves its socket, whatever has become of it. -/
theorem Kept.ended {fd : Nat} {result : ThreadResult} (hshows : thread.Shows server i socket t)
    (hown : thread.own = some fd) (hjoined : thread'.joined = some result) (hidle : result.Idle)
    (hshows' : thread'.Shows server i socket t) : Kept server i socket t t thread thread' := by
  obtain ⟨hsocket, entry, hlookup, hof⟩ := hshows.lookup hown
  have hhand : thread.hand thread' t = some fd := by
    simp [hand, hjoined, hown, SocketTable.mem_of_lookup hlookup]
  refine ⟨?_, hshows', ?_, fun h => h⟩
  · rw [hown, hhand]
    exact .refl (some fd) t
  · intro fd' result' hfd' hresult' _
    cases hown.symm.trans hfd'
    cases hjoined.symm.trans hresult'
    exact ⟨hsocket, hidle, entry, hlookup, hof⟩

theorem Kept.call {port : Nat} {o : Opening} {o' : Option Opening}
    (hshows : (opening port o).Shows server i socket t)
    (hkept : Opening.Kept server.parameter.socketOptions port t t' o o') :
    Kept server i socket t t' (.opening port o) (o'.elim .panicked (.opening port)) := by
  obtain ⟨hsocket, rfl, _⟩ := hshows
  cases o' with
  | some o' =>
    exact ⟨hkept.transfer, ⟨hsocket, rfl, hkept.shows o' rfl⟩, by rintro fd result _ ⟨⟩,
      hkept.exclusive⟩
  | none =>
    have hhand : (opening (server.port i) o).hand .panicked t' = o.fd := by
      cases hfd : o.fd with
      | none => simp [hand, joined, own, hfd]
      | some fd =>
        obtain ⟨entry, hlookup, _⟩ := hkept.left rfl fd hfd
        simp [hand, joined, own, hfd, SocketTable.mem_of_lookup hlookup]
    refine ⟨?_, trivial, ?_, hkept.exclusive⟩
    · change Transfer o.fd ((opening (server.port i) o).hand .panicked t') t t'
      rw [hhand]
      exact hkept.transfer
    · rintro fd result hfd ⟨⟩ _
      exact ⟨hsocket, trivial, hkept.left rfl fd hfd⟩

theorem Kept.new {port fd : Nat} (clock : Clock)
    (hshows : (opening port (.bound fd)).Shows server i socket t) :
    Kept server i socket t t (.opening port (.bound fd))
      (created fd true (Receiver.new clock server.parameter)) := by
  cases hnew : Receiver.new clock server.parameter with
  | error f => exact .ended hshows rfl rfl trivial trivial
  | ok r =>
    obtain ⟨hsocket, rfl, hbound⟩ := hshows
    have hregisters : (ReceiverRun.polling r).Registers server.parameter :=
      .of_running (.new hnew) trivial rfl
    exact ⟨.refl _ _, ⟨hsocket, hregisters, fun _ => hbound⟩, by rintro fd' result _ ⟨⟩,
      fun h => h⟩

theorem Kept.newShared {fd : Nat} (clock : Clock) (hshows : (lent fd).Shows server i socket t) :
    Kept server i socket t t (.lent fd)
      (created fd false (Receiver.new clock server.parameter)) := by
  cases hnew : Receiver.new clock server.parameter with
  | error f => exact .of_none rfl rfl trivial
  | ok r => exact .of_none rfl rfl ⟨hshows, .of_running (.new hnew) trivial rfl⟩

theorem Kept.runShared {fd : Nat} {r : ReceiverRun} {e : ReceiverEvent}
    (hsharing : socket ≠ none → server.parameter.multiplexPortReceiver = .sharing)
    (hshows : (running fd false r).Shows server i socket t)
    (hstep : (running fd false r).step server.build server.parameter socket t lock (.run e) =
      .ok (thread', t', lock')) : Kept server i socket t t' (.running fd false r) thread' := by
  obtain ⟨hsocket, hregisters⟩ := hshows
  have hmode : r.receiver.parameter.multiplexPortReceiver = .sharing := by
    rw [hregisters.receiver.parameter]
    exact hsharing (by simp [hsocket])
  simp only [step, ReceiverRun.closes_shared hmode, Bool.false_eq_true, if_false] at hstep
  cases hr : r.step server.build e with
  | ok r' =>
    rw [hr] at hstep
    cases hstep
    exact .of_none rfl rfl ⟨hsocket, hregisters.step hr⟩
  | error stop =>
    rw [hr] at hstep
    cases stop with
    | disabled => cases hstep
    | fault f =>
      cases hstep
      exact .of_none rfl rfl trivial

theorem running_own {fd : Nat} {r : ReceiverRun} (hnone : r.joined = none) :
    (running fd true r).own = some fd := by
  simp [own, hnone]

theorem Kept.closed {fd : Nat} {r : ReceiverRun} {result : ThreadResult} (hnone : r.joined = none)
    (hjoined : thread'.joined = some result)
    (hshows : thread'.Shows server i socket (t.erase fd)) :
    Kept server i socket t (t.erase fd) (.running fd true r) thread' := by
  have hhand : (running fd true r).hand thread' (t.erase fd) = none := by
    simp [hand, hjoined, running_own hnone]
  refine ⟨?_, hshows, ?_, fun h => h.erase fd⟩
  · rw [running_own hnone, hhand]
    exact .release fd t
  · intro fd' result' hfd' _ hmem
    cases (running_own hnone).symm.trans hfd'
    exact absurd rfl (AList.mem_erase.mp hmem).1

theorem Kept.run {fd : Nat} {r : ReceiverRun} {e : ReceiverEvent}
    (hopen : server.parameter.multiplexPortReceiver ≠ .sharing)
    (hshows : (running fd true r).Shows server i socket t)
    (hstep : (running fd true r).step server.build server.parameter socket t lock (.run e) =
      .ok (thread', t', lock')) : Kept server i socket t t' (.running fd true r) thread' := by
  obtain ⟨hsocket, hregisters, hbound⟩ := id hshows
  have hmode : r.receiver.parameter.multiplexPortReceiver ≠ .sharing := by
    rwa [hregisters.receiver.parameter]
  have hnone : r.joined = none := by
    by_contra hsome
    obtain ⟨result, hresult⟩ := Option.ne_none_iff_exists'.mp hsome
    simp only [step, ReceiverRun.joined_step hresult] at hstep
    cases hstep
  have hown : (running fd true r).own = some fd := running_own hnone
  simp only [step] at hstep
  cases hr : r.step server.build e with
  | ok r' =>
    rw [hr] at hstep
    cases hstep
    have hregisters' := hregisters.step hr
    cases hcloses : r.closes e with
    | true =>
      obtain ⟨result, hresult⟩ := Option.isSome_iff_exists.mp (ReceiverRun.closes_joined hcloses hr)
      refine .closed hnone hresult ⟨hsocket, hregisters', ?_⟩
      intro hlive
      rw [hlive] at hresult
      cases hresult
    | false =>
      change Kept server i socket t t (.running fd true r) (.running fd true r')
      cases hjoined : r'.joined with
      | none =>
        have hhand : (running fd true r).hand (.running fd true r') t = some fd := by
          simp [hand, joined, own, hjoined]
        refine ⟨?_, ⟨hsocket, hregisters', fun _ => hbound hnone⟩, ?_, fun h => h⟩
        · rw [hown, hhand]
          exact .refl (some fd) t
        · intro fd' result _ hresult
          cases hjoined.symm.trans hresult
      | some result =>
        refine .ended hshows hown hjoined ?_ ?_
        · exact ReceiverRun.step_idle hmode rfl hcloses hr result hjoined
        · refine ⟨hsocket, hregisters', ?_⟩
          intro hlive
          rw [hlive] at hjoined
          cases hjoined
  | error stop =>
    rw [hr] at hstep
    cases stop with
    | disabled => cases hstep
    | fault f =>
      cases hstep
      cases r.closes e with
      | true => exact .closed hnone rfl trivial
      | false => exact .ended hshows hown rfl trivial trivial

/-- In every step a thread keeps to its own socket. -/
theorem Shows.step (hmode : socket = none ↔ server.parameter.multiplexPortReceiver ≠ .sharing)
    (hshows : thread.Shows server i socket t)
    (hstep : thread.step server.build server.parameter socket t lock e =
      .ok (thread', t', lock')) : Kept server i socket t t' thread thread' := by
  cases thread with
  | spawned port =>
    have hpinned : Kept server i socket t t (.spawned port) (pinned port socket) := by
      cases socket with
      | none => exact .of_none rfl rfl ⟨rfl, hshows, trivial⟩
      | some fd => exact .of_none rfl rfl rfl
    cases e with
    | pin bindCpu =>
      simp only [ReceiverThread.step] at hstep
      split at hstep
      · cases hstep
        split
        · exact hpinned
        · exact .of_none rfl rfl trivial
      · cases hstep
        exact hpinned
    | call c => cases hstep
    | new clock => cases hstep
    | run e => cases hstep
  | opening port o =>
    cases e with
    | pin bindCpu => cases hstep
    | call c =>
      obtain ⟨⟨o', t₁⟩, ho, hstep⟩ := bind_ok.mp hstep
      have hkept := Kept.call hshows (hshows.2.2.step ho)
      cases o' with
      | none =>
        cases hstep
        exact hkept
      | some o' =>
        cases hstep
        exact hkept
    | new clock =>
      cases o with
      | bound fd =>
        cases hstep
        exact .new clock hshows
      | _ => cases hstep
    | run e => cases o <;> cases hstep
  | lent fd =>
    cases e with
    | new clock =>
      cases hstep
      exact .newShared clock hshows
    | _ => cases hstep
  | running fd own r =>
    cases e with
    | run e =>
      cases own with
      | true => exact .run (hmode.mp hshows.1) hshows hstep
      | false =>
        refine .runShared ?_ hshows hstep
        intro hsocket
        by_contra hne
        exact hsocket (hmode.mpr hne)
    | _ => cases hstep
  | panicked => cases e <;> cases hstep

end ReceiverThread
end Nperf
