import Mathlib.Data.Rat.Floor
import Mathlib.Tactic.FieldSimp

namespace F64

/-- A positive number lies between this power of two and the next. -/
def exponent (x : Rat) : Int :=
  let e : Int := x.num.natAbs.log2 - x.den.log2
  if (2 : Rat) ^ e ≤ x then e else e - 1

/-- The nearest integer, of two the even one. -/
def roundEven (x : Rat) : Int :=
  if x - x.floor < 1 / 2 then x.floor
  else if 1 / 2 < x - x.floor then x.floor + 1
  else if x.floor % 2 = 0 then x.floor
  else x.floor + 1

/-- The nearest number that an `f64` holds, with 53 significant bits. Exponents
are not bounded: nothing overflows to infinity or loses bits towards zero. -/
def ofRat (x : Rat) : Rat :=
  if x = 0 then 0
  else roundEven (x / 2 ^ (exponent |x| - 52)) * 2 ^ (exponent |x| - 52)

def add (x y : Rat) : Rat := ofRat (x + y)
def sub (x y : Rat) : Rat := ofRat (x - y)
def mul (x y : Rat) : Rat := ofRat (x * y)
def div (x y : Rat) : Rat := ofRat (x / y)

/-- `f64::round`, half away from zero. -/
def round (x : Rat) : Int :=
  if 0 ≤ x then (x + 1 / 2).floor else -((-x + 1 / 2).floor)

/-- `as u64` of a number without a fraction saturates. -/
def asU64 (n : Int) : Nat := min n.toNat (2 ^ 64 - 1)

theorem exponent_natCast {n : Nat} (hn : n ≠ 0) : exponent n = n.log2 := by
  have hle : (2 : Rat) ^ (n.log2 : Int) ≤ n := by
    rw [zpow_natCast]
    exact_mod_cast Nat.log2_self_le hn
  have hone : Nat.log2 1 = 0 := by decide
  simp only [exponent, Rat.num_natCast, Rat.den_natCast, Int.natAbs_natCast, hone, Nat.cast_zero,
    sub_zero, if_pos hle]

theorem roundEven_natCast (n : Nat) : roundEven n = n := by
  have hfloor : (n : Rat).floor = n := by exact_mod_cast Rat.floor_intCast n
  have hzero : (n : Rat) - ((n : Int) : Rat) = 0 := by simp
  rw [roundEven, hfloor, hzero, if_pos (by norm_num)]

/-- Integers of no more bits are their own nearest number. -/
theorem ofRat_natCast {n : Nat} (h : n < 2 ^ 53) : ofRat n = n := by
  by_cases hn : n = 0
  · subst hn
    rfl
  have hlog : n.log2 ≤ 52 := Nat.lt_succ_iff.mp ((Nat.log2_lt hn).mpr h)
  have hexponent : ((n.log2 : Int) - 52) = -((52 - n.log2 : Nat) : Int) := by omega
  have hpos : (2 : Rat) ^ (52 - n.log2) ≠ 0 := pow_ne_zero _ (by decide)
  have hscaled : (n : Rat) / 2 ^ ((n.log2 : Int) - 52) = ((n * 2 ^ (52 - n.log2) : Nat) : Rat) := by
    rw [hexponent, zpow_neg, zpow_natCast, div_inv_eq_mul]
    push_cast
    rfl
  have habs : |(n : Rat)| = n := abs_of_nonneg (Nat.cast_nonneg n)
  have hcast : ((n : Rat)) ≠ 0 := Nat.cast_ne_zero.mpr hn
  rw [ofRat, if_neg hcast, habs, exponent_natCast hn, hscaled, roundEven_natCast, hexponent,
    zpow_neg, zpow_natCast]
  push_cast
  field_simp

theorem asU64_natCast {n : Nat} (h : n < 2 ^ 64) : asU64 n = n := by
  rw [asU64, Int.toNat_natCast]
  omega

end F64
