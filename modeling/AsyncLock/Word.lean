import Mathlib.Algebra.GroupWithZero.Divisibility
import Mathlib.Data.Nat.Bitwise

/-! # Machine words

The counters of the locks are `usize` words changed by wrapping atomic additions and
subtractions. A word is a natural number below `2 ^ bits`.
-/
namespace AsyncLock
set_option autoImplicit false

def wrappingAdd (bits a b : Nat) : Nat := (a + b) % 2 ^ bits

def wrappingSub (bits a b : Nat) : Nat := (a + 2 ^ bits - b) % 2 ^ bits

theorem wrappingAdd_of_lt {bits a b : Nat} (h : a + b < 2 ^ bits) :
    wrappingAdd bits a b = a + b := Nat.mod_eq_of_lt h

/-- An addition that wraps ends below where it began. -/
theorem le_wrappingAdd_iff {bits a b : Nat} (ha : a < 2 ^ bits) (hb : b < 2 ^ bits) :
    a ≤ wrappingAdd bits a b ↔ a + b < 2 ^ bits := by
  constructor
  · intro hLe
    by_contra hWraps
    have hWrapped : wrappingAdd bits a b = a + b - 2 ^ bits := by
      rw [wrappingAdd, Nat.mod_eq_sub_mod (by omega), Nat.mod_eq_of_lt (by omega)]
    omega
  · intro hFits
    rw [wrappingAdd_of_lt hFits]
    exact Nat.le_add_right a b

theorem wrappingSub_of_le {bits a b : Nat} (hb : b ≤ a) (ha : a < 2 ^ bits) :
    wrappingSub bits a b = a - b := by
  have hSplit : a + 2 ^ bits - b = a - b + 2 ^ bits := by omega
  rw [wrappingSub, hSplit, Nat.add_mod_right, Nat.mod_eq_of_lt (by omega)]

theorem wrappingSub_le {bits a b : Nat} (h : b ≤ a) : wrappingSub bits a b ≤ a - b := by
  have := Nat.two_pow_pos bits
  have hSplit : a + 2 ^ bits - b = a - b + 2 ^ bits := by omega
  rw [wrappingSub, hSplit, Nat.add_mod_right]
  exact Nat.mod_le _ _

theorem wrappingAdd_two_mod_two {bits : Nat} (hBits : 0 < bits) (a : Nat) :
    wrappingAdd bits a 2 % 2 = a % 2 := by
  have hDvd : 2 ∣ 2 ^ bits := dvd_pow_self 2 (by omega)
  rw [wrappingAdd, Nat.mod_mod_of_dvd _ hDvd, Nat.add_mod_right]

theorem wrappingSub_two_mod_two {bits : Nat} (hBits : 0 < bits) (a : Nat) :
    wrappingSub bits a 2 % 2 = a % 2 := by
  obtain ⟨k, hk⟩ : 2 ∣ 2 ^ bits := dvd_pow_self 2 (by omega)
  have := Nat.two_pow_pos bits
  rw [wrappingSub, Nat.mod_mod_of_dvd _ ⟨k, hk⟩]
  omega

theorem ldiff_one (a : Nat) : Nat.ldiff a 1 = a - a % 2 := by
  apply Nat.eq_of_testBit_eq
  intro i
  rw [Nat.testBit_ldiff]
  cases i with
  | zero => simp only [Nat.testBit_zero]; grind
  | succ i => simp only [Nat.testBit_succ]; grind

theorem or_one (a : Nat) : a ||| 1 = a + (1 - a % 2) := by
  apply Nat.eq_of_testBit_eq
  intro i
  rw [Nat.testBit_or]
  cases i with
  | zero => simp only [Nat.testBit_zero]; grind
  | succ i => simp only [Nat.testBit_succ]; grind

/-- The target: `usize` has at least eight bits. -/
structure Platform where
  bits : Nat
  eight_le : 8 ≤ bits

namespace Platform

def usizeMax (p : Platform) : Nat := 2 ^ p.bits - 1

def isizeMax (p : Platform) : Nat := 2 ^ (p.bits - 1) - 1

theorem pow_bits (p : Platform) : 2 ^ p.bits = 2 * 2 ^ (p.bits - 1) := by
  have := p.eight_le
  rw [← pow_succ', Nat.sub_add_cancel (by omega)]

theorem bits_pos (p : Platform) : 0 < p.bits := Nat.lt_of_lt_of_le (by decide) p.eight_le

theorem le_half (p : Platform) : 128 ≤ 2 ^ (p.bits - 1) := by
  have := p.eight_le
  calc 128 = 2 ^ 7 := rfl
    _ ≤ 2 ^ (p.bits - 1) := Nat.pow_le_pow_right (by decide) (by omega)

theorem half_even (p : Platform) : 2 ^ (p.bits - 1) % 2 = 0 := by
  have := p.eight_le
  exact Nat.mod_eq_zero_of_dvd (dvd_pow_self 2 (by omega))

end Platform

def platform64 : Platform := ⟨64, by decide⟩

/-- How an operation was started: on an `Arc` or on a reference, blocking or not. A blocking
call is a future that its own thread polls until it is ready, so it is never dropped before. -/
structure Form where
  arc : Bool
  blocking : Bool
deriving DecidableEq

end AsyncLock
