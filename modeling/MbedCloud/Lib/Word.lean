import Mathlib.Tactic.Common

/-!
# Fixed-width integers

Unsigned and signed integers of the source are `Nat` and `Int`, with the conversion written out
where a value can leave its range.
-/

namespace MbedCloud

abbrev Bytes := List UInt8

def u8 (x : Nat) : Nat := x % 256
def u16 (x : Nat) : Nat := x % 65536
def u32 (x : Nat) : Nat := x % 4294967296

/-- Conversion to `int8_t`. -/
def i8 (x : Int) : Int := (x + 128) % 256 - 128

/-- Conversion to `int16_t`. -/
def i16 (x : Int) : Int := (x + 32768) % 65536 - 32768

/-- Conversion to `int32_t`. -/
def i32 (x : Int) : Int := (x + 2147483648) % 4294967296 - 2147483648

/-- Conversion to `int64_t`. -/
def i64 (x : Int) : Int := (x + 9223372036854775808) % 18446744073709551616 - 9223372036854775808

/-- Conversion of a signed value to `uint16_t`. -/
def u16i (x : Int) : Nat := (x % 65536).toNat

/-- Conversion of a signed value to `uint32_t`. -/
def u32i (x : Int) : Nat := (x % 4294967296).toNat

/-- The `uint16_t` difference `a - b`. -/
def sub16 (a b : Nat) : Nat := u16i ((a : Int) - b)

/-- The `uint32_t` difference `a - b`. -/
def sub32 (a b : Nat) : Nat := u32i ((a : Int) - b)

theorem sub32_of_le {a b : Nat} (hle : b ≤ a) (ha : a < 4294967296) : sub32 a b = a - b := by
  unfold sub32 u32i
  omega

end MbedCloud

