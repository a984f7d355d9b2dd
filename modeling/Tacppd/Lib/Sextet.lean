/-
# Three bytes as four groups of six bits

A general development: the bits of three bytes are dealt out to four values below 64, and
put together again.  Both directions are written with shifts and masks.
-/
import Mathlib.Data.List.Basic
import Mathlib.Tactic.IntervalCases

namespace Sextet

/-! ## The four groups -/

def first (a : UInt8) : UInt8 := a >>> 2

def second (a b : UInt8) : UInt8 := ((a &&& 3) <<< 4) ||| (b >>> 4)

def third (b c : UInt8) : UInt8 := ((b &&& 15) <<< 2) ||| (c >>> 6)

def fourth (c : UInt8) : UInt8 := c &&& 63

/-! ## The three bytes -/

def byte₁ (x y : UInt8) : UInt8 := (x <<< 2) ||| (y >>> 4)

def byte₂ (y z : UInt8) : UInt8 := (y <<< 4) ||| (z >>> 2)

def byte₃ (z w : UInt8) : UInt8 := (z <<< 6) ||| w

/-- Two bytes are equal when their eight bits are. -/
theorem eq_of_bits {a b : UInt8} (h : ∀ i < 8, a.toBitVec.getLsbD i = b.toBitVec.getLsbD i) :
    a = b :=
  UInt8.eq_of_toBitVec_eq (BitVec.eq_of_getLsbD_eq h)

theorem byte₁_groups (a b : UInt8) : byte₁ (first a) (second a b) = a := by
  apply eq_of_bits
  intro i hi
  simp only [byte₁, first, second]
  interval_cases i <;> simp

theorem byte₂_groups (a b c : UInt8) : byte₂ (second a b) (third b c) = b := by
  apply eq_of_bits
  intro i hi
  simp only [byte₂, second, third]
  interval_cases i <;> simp

theorem byte₃_groups (b c : UInt8) : byte₃ (third b c) (fourth c) = c := by
  apply eq_of_bits
  intro i hi
  simp only [byte₃, third, fourth]
  interval_cases i <;> simp

/-- The third group shows the two high bits of the third byte. -/
theorem third_and (b c : UInt8) : third b c &&& (3 : UInt8) = c >>> 6 := by
  apply eq_of_bits
  intro i hi
  simp only [third]
  interval_cases i <;> simp

/-! ## The range of the groups -/

theorem lt_of_bits {x : UInt8} (h6 : x.toBitVec[6] = false) (h7 : x.toBitVec[7] = false) :
    x.toNat < 64 := by
  have hx : x = x &&& 63 := by
    apply eq_of_bits
    intro i hi
    interval_cases i <;> simp [h6, h7]
  rw [hx, UInt8.toNat_and]
  exact Nat.lt_of_le_of_lt Nat.and_le_right (by decide)

theorem first_lt (a : UInt8) : (first a).toNat < 64 := by
  apply lt_of_bits <;> simp [first]

theorem second_lt (a b : UInt8) : (second a b).toNat < 64 := by
  apply lt_of_bits <;> simp [second]

theorem third_lt (b c : UInt8) : (third b c).toNat < 64 := by
  apply lt_of_bits <;> simp [third]

theorem fourth_lt (c : UInt8) : (fourth c).toNat < 64 := by
  apply lt_of_bits <;> simp [fourth]

end Sextet
