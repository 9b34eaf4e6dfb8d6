import Nperf.Lib.Handles
import Nperf.Model.Exec
import Nperf.Proofs.RecordsReceiving

namespace Nperf
open Rust Handles

namespace SocketTable

variable {t : SocketTable} {fd fd' : Nat} {socket : OpenSocket} {f : OpenSocket → OpenSocket}

theorem mem_of_lookup (h : t.lookup fd = some socket) : fd ∈ t :=
  AList.lookup_isSome.mp (by simp [h])

theorem update_of_lookup (h : t.lookup fd = some socket) :
    t.update fd f = t.insert fd (f socket) := by
  simp only [update, h]

theorem lookup_update (h : t.lookup fd = some socket) :
    (t.update fd f).lookup fd = some (f socket) := by
  rw [update_of_lookup h, AList.lookup_insert]

theorem inUse_iff {port : Nat} : t.InUse fd socket port ↔ ∃ fd' socket',
    t.lookup fd' = some socket' ∧ fd' ≠ fd ∧ socket'.port = some port ∧
      ¬(socket'.reuseport ∧ socket.reuseport) := by
  constructor
  · rintro ⟨⟨fd', socket'⟩, hmem, hrest⟩
    exact ⟨fd', socket', AList.mem_lookup_iff.mpr hmem, hrest⟩
  · rintro ⟨fd', socket', hlookup, hrest⟩
    exact ⟨⟨fd', socket'⟩, AList.mem_lookup_iff.mp hlookup, hrest⟩

/-- Only sockets that share it have the same port. -/
def Exclusive (t : SocketTable) : Prop :=
  ∀ fd fd' socket socket' port, t.lookup fd = some socket → t.lookup fd' = some socket' →
    fd ≠ fd' → socket.port = some port → socket'.port = some port →
    socket.reuseport ∧ socket'.reuseport

theorem Exclusive.empty : Exclusive ∅ := by
  intro fd fd' socket socket' port h
  cases h

/-- A new entry, or a changed one, that shares its port with no other socket
without leave. -/
theorem Exclusive.insert (h : t.Exclusive)
    (hfree : ∀ port, socket.port = some port → ¬t.InUse fd socket port) :
    Exclusive (t.insert fd socket) := by
  have hother : ∀ fd' socket' port, t.lookup fd' = some socket' → fd' ≠ fd →
      socket.port = some port → socket'.port = some port →
      socket'.reuseport ∧ socket.reuseport := by
    intro fd' socket' port hlookup hne hport hport'
    by_contra hshare
    exact hfree port hport (inUse_iff.mpr ⟨fd', socket', hlookup, hne, hport', hshare⟩)
  intro fd₁ fd₂ socket₁ socket₂ port h₁ h₂ hne hport₁ hport₂
  by_cases hfd₁ : fd₁ = fd
  · subst fd₁
    rw [AList.lookup_insert] at h₁
    cases h₁
    rw [AList.lookup_insert_ne hne.symm] at h₂
    exact (hother fd₂ socket₂ port h₂ hne.symm hport₁ hport₂).symm
  · rw [AList.lookup_insert_ne hfd₁] at h₁
    by_cases hfd₂ : fd₂ = fd
    · subst fd₂
      rw [AList.lookup_insert] at h₂
      cases h₂
      exact hother fd₁ socket₁ port h₁ hne hport₂ hport₁
    · rw [AList.lookup_insert_ne hfd₂] at h₂
      exact h fd₁ fd₂ socket₁ socket₂ port h₁ h₂ hne hport₁ hport₂

theorem Exclusive.erase (h : t.Exclusive) (fd : Nat) : Exclusive (t.erase fd) := by
  have hkept : ∀ fd' socket', (t.erase fd).lookup fd' = some socket' →
      t.lookup fd' = some socket' := by
    intro fd' socket' hlookup
    by_cases hne : fd' = fd
    · subst fd'
      rw [AList.lookup_erase] at hlookup
      cases hlookup
    · rwa [AList.lookup_erase_ne hne] at hlookup
  intro fd₁ fd₂ socket₁ socket₂ port h₁ h₂
  exact h fd₁ fd₂ socket₁ socket₂ port (hkept fd₁ socket₁ h₁) (hkept fd₂ socket₂ h₂)

end SocketTable

/-- A socket of a party that binds to `port` with these options. -/
def OpenSocket.Of (options : SocketOptions) (port : Nat) (socket : OpenSocket) : Prop :=
  ∀ p, socket.port = some p → socket.reuseport = options.reuseport ∧ (port = 0 ∨ p = port)

namespace Opening

variable {options : SocketOptions} {port : Nat} {t t' : SocketTable} {o : Opening}
  {o' : Option Opening} {c : SocketCall}

/-- What the kernel has of the socket at this point. -/
def Shows (options : SocketOptions) (port : Nat) (t : SocketTable) : Opening → Prop
  | .new => True
  | .created fd => t.lookup fd = some { reuseport := false, port := none }
  | .configured fd => t.lookup fd = some { reuseport := options.reuseport, port := none }
  | .bound fd => ∃ p, t.lookup fd = some { reuseport := options.reuseport, port := some p } ∧
      (port = 0 ∨ p = port)

theorem Shows.lookup {fd : Nat} (h : o.Shows options port t) (hfd : o.fd = some fd) :
    ∃ socket, t.lookup fd = some socket ∧ socket.Of options port := by
  cases o with
  | new => cases hfd
  | created fd =>
    cases hfd
    exact ⟨_, h, by rintro p ⟨⟩⟩
  | configured fd =>
    cases hfd
    exact ⟨_, h, by rintro p ⟨⟩⟩
  | bound fd =>
    cases hfd
    obtain ⟨p, hlookup, hp⟩ := h
    refine ⟨_, hlookup, ?_⟩
    rintro q ⟨⟩
    exact ⟨rfl, hp⟩

theorem Shows.same (h : o.Shows options port t)
    (hsame : ∀ fd, o.fd = some fd → t'.lookup fd = t.lookup fd) : o.Shows options port t' := by
  cases o with
  | new => trivial
  | created fd => exact (hsame fd rfl).trans h
  | configured fd => exact (hsame fd rfl).trans h
  | bound fd =>
    obtain ⟨p, hlookup, hp⟩ := h
    exact ⟨p, (hsame fd rfl).trans hlookup, hp⟩

/-- A call on its socket leaves a thread with that socket, whether it goes on
or panics. -/
structure Kept (options : SocketOptions) (port : Nat) (t t' : SocketTable) (o : Opening)
    (o' : Option Opening) : Prop where
  transfer : Transfer o.fd (o'.elim o.fd Opening.fd) t t'
  shows : ∀ o₁, o' = some o₁ → o₁.Shows options port t'
  left : o' = none → ∀ fd, o.fd = some fd → ∃ socket, t'.lookup fd = some socket ∧
    socket.Of options port
  exclusive : t.Exclusive → t'.Exclusive

theorem Kept.refused (h : o.Shows options port t) : Kept options port t t o none :=
  ⟨.refl _ _, by rintro o₁ ⟨⟩, fun _ _ hfd => h.lookup hfd, fun h => h⟩

theorem Kept.socket {fd : Nat} (hfresh : fd ∉ t) :
    Kept options port t (t.insert fd { reuseport := false, port := none }) .new
      (some (.created fd)) := by
  refine ⟨.acquire hfresh _, ?_, by rintro ⟨⟩, ?_⟩
  · rintro o₁ ⟨⟩
    exact AList.lookup_insert t
  · intro hexclusive
    apply hexclusive.insert
    rintro p ⟨⟩

theorem Kept.setReuseport {fd : Nat} (hshows : (created fd).Shows options port t) (rest : Bool) :
    Kept options port t (t.update fd ({ · with reuseport := options.reuseport })) (.created fd)
      (if rest then some (.configured fd) else none) := by
  have hafter := SocketTable.lookup_update hshows
    (f := ({ · with reuseport := options.reuseport }))
  have htable := SocketTable.update_of_lookup hshows
    (f := ({ · with reuseport := options.reuseport }))
  have hown : (if rest then some (configured fd) else none).elim (created fd).fd Opening.fd =
      some fd := by
    cases rest with
    | true => rfl
    | false => rfl
  refine ⟨?_, ?_, ?_, ?_⟩
  · rw [hown, htable]
    exact .assign (SocketTable.mem_of_lookup hshows) _
  · intro o₁ ho₁
    cases rest with
    | true =>
      cases ho₁
      exact hafter
    | false => cases ho₁
  · rintro - fd' ⟨⟩
    exact ⟨_, hafter, by rintro p ⟨⟩⟩
  · intro hexclusive
    rw [htable]
    apply hexclusive.insert
    rintro p ⟨⟩

theorem Kept.bind {fd p : Nat} (hshows : (configured fd).Shows options port t)
    (hport : port = 0 ∨ p = port)
    (hfree : ¬t.InUse fd { reuseport := options.reuseport, port := none } p) :
    Kept options port t (t.update fd ({ · with port := some p })) (.configured fd)
      (some (.bound fd)) := by
  have htable := SocketTable.update_of_lookup hshows (f := ({ · with port := some p }))
  refine ⟨?_, ?_, by rintro ⟨⟩, ?_⟩
  · rw [htable]
    exact .assign (SocketTable.mem_of_lookup hshows) _
  · rintro o₁ ⟨⟩
    exact ⟨p, SocketTable.lookup_update hshows, hport⟩
  · intro hexclusive
    rw [htable]
    apply hexclusive.insert
    rintro q ⟨⟩
    exact hfree

theorem Shows.step (h : o.Shows options port t)
    (hstep : o.step options port t c = .ok (o', t')) : Kept options port t t' o o' := by
  cases o with
  | new =>
    cases c with
    | socket fd =>
      cases fd with
      | none =>
        cases hstep
        exact .refused h
      | some fd =>
        simp only [Opening.step] at hstep
        split at hstep
        · cases hstep
        · rename_i hfresh
          cases hstep
          exact .socket hfresh
    | setSocketOptions reuseport rest => cases hstep
    | bind p => cases hstep
  | created fd =>
    cases c with
    | socket fd => cases hstep
    | setSocketOptions reuseport rest =>
      cases reuseport with
      | false =>
        cases hstep
        exact .refused h
      | true =>
        cases hstep
        simpa using Kept.setReuseport h rest
    | bind p => cases hstep
  | configured fd =>
    cases c with
    | socket fd => cases hstep
    | setSocketOptions reuseport rest => cases hstep
    | bind p =>
      cases p with
      | none =>
        cases hstep
        exact .refused h
      | some p =>
        simp only [Opening.step, show t.lookup fd = _ from h] at hstep
        split at hstep
        · rename_i hok
          cases hstep
          exact .bind h hok.1 hok.2
        · cases hstep
  | bound fd => cases hstep

end Opening
end Nperf
