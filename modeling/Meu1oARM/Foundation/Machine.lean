import Mathlib.Tactic.Common

/-! # Unsigned machine words as natural numbers

A machine word is a natural number below a power of two. Conversions to a
narrower type and subtractions wrap around, and the lemmas say when they do not.
-/

namespace Machine

/-- Conversion to `uint8_t`. -/
def u8 (n : Nat) : Nat := n % 256

/-- Conversion to `uint16_t`. -/
def u16 (n : Nat) : Nat := n % 65536

/-- Conversion to `uint32_t`. -/
def u32 (n : Nat) : Nat := n % 4294967296

/-- Subtraction of two `uint32_t` values. -/
def sub32 (a b : Nat) : Nat := (a + (4294967296 - b % 4294967296)) % 4294967296

/-- Conversion of a signed value to `uint16_t`. -/
def toU16 (x : Int) : Nat := (x % 65536).toNat

theorem u8_of_lt {n : Nat} (h : n < 256) : u8 n = n := Nat.mod_eq_of_lt h

theorem u16_of_lt {n : Nat} (h : n < 65536) : u16 n = n := Nat.mod_eq_of_lt h

theorem u16_lt (n : Nat) : u16 n < 65536 := Nat.mod_lt _ (by decide)

theorem u16_le (n : Nat) : u16 n ≤ n := Nat.mod_le _ _

theorem u32_of_lt {n : Nat} (h : n < 4294967296) : u32 n = n := Nat.mod_eq_of_lt h

theorem sub32_of_le {a b : Nat} (hle : b ≤ a) (ha : a < 4294967296) : sub32 a b = a - b := by
  unfold sub32
  omega

theorem toU16_natCast (n : Nat) : toU16 n = u16 n := by
  unfold toU16 u16
  omega

end Machine
