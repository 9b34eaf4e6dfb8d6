import Mathlib.Algebra.GroupWithZero.Nat
import Mathlib.Algebra.Ring.Rat

namespace Rust

/-- A panic, or behaviour the language leaves undefined. Both end a run; they
are kept apart from the `Result` a function returns. An index out of range is
`cell` where it picks one of an array of counters, `index` everywhere else. -/
inductive Fault
  | overflow
  | divideByZero
  | index
  | cell
  | chunkSize
  | outOfBounds
  | invalidEnum
  | unwrap
  | explicit
  deriving DecidableEq, Repr

/-- With overflow checks an operation out of range panics, in a release build
it wraps. -/
inductive Build
  | debug
  | release
  deriving DecidableEq, Repr

/-- Bring an exact result back into an unsigned type of `bits` bits. -/
def Build.unsigned (build : Build) (bits : Nat) (n : Int) : Except Fault Nat :=
  if 0 ≤ n ∧ n < 2 ^ bits then .ok n.toNat
  else match build with
    | .debug => .error .overflow
    | .release => .ok (n % 2 ^ bits).toNat

def Build.u16 (build : Build) : Int → Except Fault Nat := build.unsigned 16
def Build.u32 (build : Build) : Int → Except Fault Nat := build.unsigned 32
def Build.u64 (build : Build) : Int → Except Fault Nat := build.unsigned 64

/-- Reduction of an exact result into `i64`. -/
def Build.i64 (build : Build) (n : Int) : Except Fault Int :=
  if -2 ^ 63 ≤ n ∧ n < 2 ^ 63 then .ok n
  else match build with
    | .debug => .error .overflow
    | .release => .ok (n.bmod (2 ^ 64))

/-- `as i64` on a `u64` never panics: it reads the bits as two's complement. -/
def asI64 (n : Nat) : Int := if n < 2 ^ 63 then n else n - 2 ^ 64

def asU32 (n : Nat) : Nat := n % 2 ^ 32
def asU16 (n : Nat) : Nat := n % 2 ^ 16

/-- Subtraction of unsigned numbers where the program relies on the order of
its operands: a wrong order is a fault in either build. -/
def checkedSub (a b : Nat) : Except Fault Nat :=
  if b ≤ a then .ok (a - b) else .error .overflow

instance decidableEqExcept [DecidableEq ε] [DecidableEq α] : DecidableEq (Except ε α)
  | .ok a, .ok b => decidable_of_iff (a = b) ⟨congrArg _, Except.ok.inj⟩
  | .error e, .error f => decidable_of_iff (e = f) ⟨congrArg _, Except.error.inj⟩
  | .ok _, .error _ => isFalse nofun
  | .error _, .ok _ => isFalse nofun

theorem bind_ok {x : Except ε α} {f : α → Except ε β} {b : β} :
    (x >>= f) = .ok b ↔ ∃ a, x = .ok a ∧ f a = .ok b := by
  cases x with
  | error e => simp [bind, Except.bind]
  | ok a => simp [bind, Except.bind]

@[simp] theorem ok_bind (a : α) (f : α → Except ε β) : ((.ok a : Except ε α) >>= f) = f a := (rfl)

@[simp] theorem error_bind (e : ε) (f : α → Except ε β) :
    ((.error e : Except ε α) >>= f) = .error e := (rfl)

@[simp] theorem map_ok (f : α → β) (a : α) : (.ok a : Except ε α).map f = .ok (f a) := (rfl)

@[simp] theorem map_error (f : α → β) (e : ε) : (.error e : Except ε α).map f = .error e := (rfl)

theorem map_eq_ok {x : Except ε α} {f : α → β} {b : β} :
    x.map f = .ok b ↔ ∃ a, x = .ok a ∧ f a = b := by
  cases x with
  | error e => simp
  | ok a => simp

theorem map_returns {x : Except ε α} {f : α → β} :
    (∃ b, x.map f = .ok b) ↔ ∃ a, x = .ok a := by
  cases x with
  | error e => simp
  | ok a => simp

/-- A computation whose result passes a check has that result. -/
theorem checked {x : Except ε α} {p : α → Prop} [DecidablePred p]
    (h : x.toOption.any (fun a => decide (p a)) = true) : ∃ a, x = .ok a ∧ p a := by
  cases x with
  | error e => cases h
  | ok a => exact ⟨a, rfl, of_decide_eq_true h⟩

theorem ok_get {x : Except ε α} (h : x.toOption.isSome) : x = .ok (x.toOption.get h) := by
  cases x with
  | error e => cases h
  | ok a => rfl

theorem map_then (x : Except ε α) (f : α → β) (g : β → Except ε γ) :
    (x.map f >>= g) = x >>= fun a => g (f a) := by
  cases x with
  | error e => rfl
  | ok a => rfl

theorem unsigned_fits (build : Build) {bits : Nat} {n : Nat} (h : n < 2 ^ bits) :
    build.unsigned bits n = .ok n := by
  have hn : (n : Int) < 2 ^ bits := by exact_mod_cast h
  simp [Build.unsigned, hn]

theorem u64_fits (build : Build) {n : Nat} (h : n < 2 ^ 64) : build.u64 n = .ok n :=
  unsigned_fits build h

theorem i64_fits (build : Build) {n : Int} (h : -2 ^ 63 ≤ n) (h' : n < 2 ^ 63) :
    build.i64 n = .ok n := by
  simp only [Build.i64]
  rw [if_pos ⟨h, h'⟩]

theorem asI64_fits {n : Nat} (h : n < 2 ^ 63) : asI64 n = n := by
  rw [asI64, if_pos h]

theorem asU32_fits {n : Nat} (h : n < 2 ^ 32) : asU32 n = n :=
  Nat.mod_eq_of_lt h

theorem debug_u64_ok {n : Int} {m : Nat} (h : Build.debug.u64 n = .ok m) :
    n = m ∧ m < 2 ^ 64 := by
  simp only [Build.u64, Build.unsigned] at h
  split at h
  · cases h
    omega
  · cases h

theorem debug_u64_error {n : Int} {f : Fault} (h : Build.debug.u64 n = .error f) :
    f = .overflow := by
  simp only [Build.u64, Build.unsigned] at h
  split at h
  · cases h
  · cases h
    rfl

theorem u64_lt {build : Build} {n : Int} {k : Nat} (h : build.u64 n = .ok k) : k < 2 ^ 64 := by
  simp only [Build.u64, Build.unsigned] at h
  split at h
  · cases h
    omega
  · cases build with
    | debug => cases h
    | release =>
      cases h
      omega

/-- Whichever build: what comes out is congruent to what went in. -/
theorem unsigned_mod {build : Build} {bits n k : Nat} (h : build.unsigned bits n = .ok k) :
    k = n % 2 ^ bits := by
  by_cases hfits : n < 2 ^ bits
  · rw [unsigned_fits build hfits] at h
    cases h
    exact (Nat.mod_eq_of_lt hfits).symm
  · have hout : ¬(0 ≤ (n : Int) ∧ (n : Int) < 2 ^ bits) := by
      intro hin
      exact hfits (by exact_mod_cast hin.2)
    simp only [Build.unsigned] at h
    rw [if_neg hout] at h
    cases build with
    | debug => cases h
    | release =>
      cases h
      have hcast : (n : Int) % 2 ^ bits = (n % 2 ^ bits : Nat) := by simp
      rw [hcast, Int.toNat_natCast]

theorem unsigned_error {build : Build} {bits n : Nat} {f : Fault} :
    build.unsigned bits n = .error f ↔ f = .overflow ∧ build = .debug ∧ 2 ^ bits ≤ n := by
  by_cases hfits : n < 2 ^ bits
  · rw [unsigned_fits build hfits]
    constructor
    · rintro ⟨⟩
    · rintro ⟨-, -, hle⟩
      omega
  · have hout : ¬(0 ≤ (n : Int) ∧ (n : Int) < 2 ^ bits) := by
      intro hin
      exact hfits (by exact_mod_cast hin.2)
    simp only [Build.unsigned, if_neg hout]
    cases build with
    | debug => simp [eq_comm, Nat.le_of_not_lt hfits]
    | release => simp

/-- With overflow checks only what fits comes out. -/
theorem debug_unsigned_returns {bits n : Nat} :
    (∃ k, Build.debug.unsigned bits n = .ok k) ↔ n < 2 ^ bits := by
  constructor
  · rintro ⟨k, h⟩
    simp only [Build.unsigned] at h
    split at h
    · rename_i hin
      exact_mod_cast hin.2
    · cases h
  · exact fun h => ⟨n, unsigned_fits _ h⟩

theorem debug_u16_returns {n : Nat} : (∃ k, Build.debug.u16 n = .ok k) ↔ n < 2 ^ 16 :=
  debug_unsigned_returns

theorem debug_u32_returns {n : Nat} : (∃ k, Build.debug.u32 n = .ok k) ↔ n < 2 ^ 32 :=
  debug_unsigned_returns

theorem debug_u64_returns {n : Nat} : (∃ k, Build.debug.u64 n = .ok k) ↔ n < 2 ^ 64 :=
  debug_unsigned_returns

theorem debug_i64_ok {n m : Int} (h : Build.debug.i64 n = .ok m) :
    n = m ∧ -2 ^ 63 ≤ n ∧ n < 2 ^ 63 := by
  simp only [Build.i64] at h
  split at h
  · rename_i hrange
    cases h
    exact ⟨rfl, hrange⟩
  · cases h

/-- Whatever a build makes of a result out of range, it is right modulo 2^64. -/
theorem u64_wraps {build : Build} {n : Int} {k : Nat} (h : build.u64 n = .ok k) :
    ∃ z : Int, (k : Int) = n + z * 2 ^ 64 := by
  simp only [Build.u64, Build.unsigned] at h
  split at h
  · cases h
    exact ⟨0, by omega⟩
  · cases build with
    | debug => cases h
    | release =>
      cases h
      exact ⟨-(n / 2 ^ 64), by omega⟩

theorem i64_wraps {build : Build} {n m : Int} (h : build.i64 n = .ok m) :
    ∃ z : Int, m = n + z * 2 ^ 64 := by
  simp only [Build.i64] at h
  split at h
  · cases h
    exact ⟨0, by omega⟩
  · cases build with
    | debug => cases h
    | release =>
      cases h
      refine ⟨-((n + 2 ^ 63) / 2 ^ 64), ?_⟩
      simp only [Int.bmod]
      omega

theorem release_u64_eq (n : Int) : Build.release.u64 n = .ok (n % 2 ^ 64).toNat := by
  simp only [Build.u64, Build.unsigned]
  split
  · rw [Int.emod_eq_of_lt (by omega) (by omega)]
  · rfl

theorem release_i64_eq (n : Int) : Build.release.i64 n = .ok (n.bmod (2 ^ 64)) := by
  simp only [Build.i64]
  split
  · congr 1
    simp only [Int.bmod]
    omega
  · rfl

theorem release_u64 (n : Int) : ∃ k, Build.release.u64 n = .ok k :=
  ⟨_, release_u64_eq n⟩

theorem release_i64 (n : Int) : ∃ k, Build.release.i64 n = .ok k :=
  ⟨_, release_i64_eq n⟩

/-- To add to what a build has made of a number is to add to the number. -/
theorem u64_again {build : Build} {n : Int} {k : Nat} (h : build.u64 n = .ok k) (c : Int) :
    build.u64 (k + c) = build.u64 (n + c) := by
  cases build with
  | debug => rw [(debug_u64_ok h).1]
  | release =>
    obtain ⟨z, hz⟩ := u64_wraps h
    rw [release_u64_eq, release_u64_eq]
    congr 2
    omega

theorem i64_again {build : Build} {n k : Int} (h : build.i64 n = .ok k) (c : Int) :
    build.i64 (k + c) = build.i64 (n + c) := by
  cases build with
  | debug => rw [(debug_i64_ok h).1]
  | release =>
    obtain ⟨z, hz⟩ := i64_wraps h
    rw [release_i64_eq, release_i64_eq]
    congr 1
    simp only [Int.bmod]
    omega

theorem u64_error {build : Build} {n : Int} {f : Fault} (h : build.u64 n = .error f) :
    f = .overflow ∧ build = .debug := by
  cases build with
  | debug => exact ⟨debug_u64_error h, rfl⟩
  | release => rw [release_u64_eq] at h; cases h

theorem i64_error {build : Build} {n : Int} {f : Fault} (h : build.i64 n = .error f) :
    f = .overflow ∧ build = .debug := by
  cases build with
  | debug =>
    simp only [Build.i64] at h
    split at h
    · cases h
    · cases h
      exact ⟨rfl, rfl⟩
  | release => rw [release_i64_eq] at h; cases h

theorem checkedSub_error {a b : Nat} {f : Fault} (h : checkedSub a b = .error f) :
    f = .overflow := by
  unfold checkedSub at h
  split at h
  · cases h
  · cases h
    rfl

theorem bind_error {x : Except ε α} {f : α → Except ε β} {e : ε} (h : (x >>= f) = .error e) :
    x = .error e ∨ ∃ a, x = .ok a ∧ f a = .error e := by
  cases x with
  | error e' =>
    cases h
    exact .inl rfl
  | ok a => exact .inr ⟨a, rfl, h⟩

/-- Nothing goes wrong but an overflow, and that only with overflow checks. -/
def Build.Overflows (build : Build) (x : Except Fault α) : Prop :=
  ∀ f, x = .error f → f = .overflow ∧ build = .debug

namespace Build.Overflows
variable {build : Build} {x : Except Fault α}

theorem ok (a : α) : build.Overflows (.ok a) := by
  intro f h
  cases h

theorem u64 (n : Int) : build.Overflows (build.u64 n) := fun _ => u64_error

theorem i64 (n : Int) : build.Overflows (build.i64 n) := fun _ => i64_error

theorem bind {f : α → Except Fault β} (hx : build.Overflows x)
    (hf : ∀ a, x = .ok a → build.Overflows (f a)) : build.Overflows (x >>= f) := by
  intro e h
  rcases bind_error h with h | ⟨a, ha, h⟩
  · exact hx e h
  · exact hf a ha e h

/-- A fold whose every step is like that, at what the steps keep. -/
theorem foldlM {P : β → Prop} {step : β → α → Except Fault β} {b : β} {as : List α} (hb : P b)
    (hstep : ∀ b, P b → ∀ a ∈ as, build.Overflows (step b a))
    (hkeeps : ∀ b a b', P b → a ∈ as → step b a = .ok b' → P b') :
    build.Overflows (as.foldlM step b) := by
  induction as generalizing b with
  | nil => exact ok b
  | cons a as ih =>
    rw [List.foldlM_cons]
    refine bind (hstep b hb a List.mem_cons_self) fun b' hb' => ?_
    exact ih (hkeeps b a b' hb List.mem_cons_self hb')
      (fun b hb a ha => hstep b hb a (List.mem_cons_of_mem _ ha))
      fun b a b' hb ha => hkeeps b a b' hb (List.mem_cons_of_mem _ ha)

theorem release (h : Build.release.Overflows x) : ∃ a, x = .ok a := by
  cases x with
  | ok a => exact ⟨a, rfl⟩
  | error f => cases (h f rfl).2

end Build.Overflows

/-- The computation may end otherwise, but not in this error. -/
def Avoids (e : ε) (x : Except ε α) : Prop := x ≠ .error e

namespace Avoids
variable {e : ε} {x : Except ε α}

theorem ok (a : α) : Avoids e (.ok a) := by
  intro h
  cases h

theorem error {e' : ε} (h : e' ≠ e) : Avoids e (.error e' : Except ε α) :=
  fun heq => h (Except.error.inj heq)

theorem bind {f : α → Except ε β} (hx : Avoids e x) (hf : ∀ a, x = .ok a → Avoids e (f a)) :
    Avoids e (x >>= f) := by
  intro h
  rcases bind_error h with h | ⟨a, ha, h⟩
  · exact hx h
  · exact hf a ha h

theorem foldlM {step : β → α → Except ε β} (hstep : ∀ b a, Avoids e (step b a)) (b : β)
    (as : List α) : Avoids e (as.foldlM step b) := by
  induction as generalizing b with
  | nil => exact ok b
  | cons a as ih =>
    rw [List.foldlM_cons]
    exact bind (hstep b a) fun b' _ => ih b'

/-- What can only overflow ends in no other fault. -/
theorem of_overflows {build : Build} {f : Fault} {x : Except Fault α} (h : build.Overflows x)
    (hf : f ≠ .overflow) : Avoids f x := fun heq => hf (h f heq).1

theorem checkedSub {f : Fault} (hf : f ≠ .overflow) (a b : Nat) :
    Avoids f (Rust.checkedSub a b) := fun h => hf (checkedSub_error h)

end Avoids

theorem checkedSub_ok {a b : Nat} (h : b ≤ a) : checkedSub a b = .ok (a - b) := by
  simp [checkedSub, h]

theorem checkedSub_eq_ok {a b c : Nat} (h : checkedSub a b = .ok c) : b ≤ a ∧ c = a - b := by
  unfold checkedSub at h
  split at h
  · rename_i hle
    cases h
    exact ⟨hle, rfl⟩
  · cases h

end Rust
