import Mathlib.Tactic.Ring
import MbedCloud.Lwm2m.Object

/-!
# Integers as bytes and as text

`itoa_c`, `convert_integer_to_array` and `convert_array_to_integer` of `m2mstring.cpp`.
-/

namespace MbedCloud.Lwm2m

open List

/-! ## Bytes -/

/-- The `size` of `convert_integer_to_array`. -/
def arraySize (value : Int) : Nat :=
  if value < 0xFF then 1 else if value < 0xFFFF then 2 else if value < 0xFFFFFF then 3
  else if value < 0xFFFFFFFF then 4 else if value < 0xFFFFFFFFFF then 5
  else if value < 0xFFFFFFFFFFFF then 6 else if value < 0xFFFFFFFFFFFFFF then 7 else 8

/-- The lowest bytes of a value, the highest of them first. -/
def lowBytes (value : Int) : Nat → Bytes
  | 0 => []
  | size + 1 => UInt8.ofNat (value / 256 ^ size % 256).toNat :: lowBytes value size

/-- `String::convert_integer_to_array` for a value, or for the one in an array. -/
def convertIntegerToArray (alloc : Nat → Bool) (value : Int) (array : Option Bytes) : Option Bytes :=
  let value := array.elim value convertArrayToInteger
  if alloc (arraySize value) then some (lowBytes value (arraySize value)) else none

theorem foldl_lowBytes (n size acc : Nat) :
    (lowBytes n size).foldl (fun n b => n * 256 + b.toNat) acc = acc * 256 ^ size + n % 256 ^ size := by
  induction size generalizing acc with
  | zero => rw [Nat.pow_zero, Nat.mod_one, Nat.mul_one]; rfl
  | succ size ih =>
    have hbyte : ((n : Int) / 256 ^ size % 256).toNat = n / 256 ^ size % 256 := by
      norm_cast
    rw [lowBytes, foldl_cons, ih, hbyte, UInt8.toNat_ofNat', Nat.mod_mod, Nat.mod_pow_succ]
    ring

theorem lt_arraySize {n : Nat} (h : n < 2 ^ 63) : n < 256 ^ arraySize n := by
  unfold arraySize
  split_ifs <;> omega

/-- Only values that are not negative come back: one byte is made of a negative value. -/
theorem convertIntegerToArray_iff {v : Int} (hv : v < 2 ^ 63) :
    (∀ alloc bytes, convertIntegerToArray alloc v none = some bytes → convertArrayToInteger bytes = v) ↔ 0 ≤ v := by
  constructor
  · intro h
    by_contra hneg
    have hsize : arraySize v = 1 := if_pos (by omega)
    have hbyte := h (fun _ => true) _ rfl
    rw [Option.elim_none, hsize, lowBytes, lowBytes, convertArrayToInteger, foldl_cons, foldl_nil] at hbyte
    have hlt := UInt8.toNat_lt (UInt8.ofNat (v / 256 ^ 0 % 256).toNat)
    omega
  · intro hpos alloc bytes hbytes
    obtain ⟨n, rfl⟩ := Int.eq_ofNat_of_zero_le hpos
    rw [convertIntegerToArray, Option.ite_none_right_eq_some] at hbytes
    rw [← Option.some.inj hbytes.2, Option.elim_none, convertArrayToInteger, foldl_lowBytes,
      Nat.mod_eq_of_lt (lt_arraySize (by omega))]
    omega

/-! ## Text -/

/-- The decimal numeral of a number. -/
def numeral (n : Int) : Bytes := (if n < 0 then [0x2d] else []) ++ (Nat.toDigits 10 n.natAbs).map fun c => UInt8.ofNat c.toNat

theorem ofNat_digitChar : ∀ d < 10, UInt8.ofNat (Nat.digitChar d).toNat = UInt8.ofNat (d + 48) := by decide

theorem itoaDigits_natCast (n : Nat) : (itoaDigits n).reverse = (Nat.toDigits 10 n).map fun c => UInt8.ofNat c.toNat := by
  induction n using Nat.strong_induction_on with
  | _ n ih =>
    have hmod : ((n : Int).tmod 10 + 48).toNat = n % 10 + 48 := by grind
    have hdiv : (n : Int).tdiv 10 = (n / 10 : Nat) := by grind
    rw [itoaDigits, hmod, hdiv, ← ofNat_digitChar _ (Nat.mod_lt n (by decide))]
    by_cases hn : n < 10
    · rw [Nat.toDigits_of_lt_base hn, Nat.mod_eq_of_lt hn, if_neg (by omega)]
      rfl
    · rw [Nat.toDigits_of_base_le (by decide) (by omega), if_pos (by omega), reverse_cons, map_append, ih (n / 10) (by omega)]
      rfl

/-- The text is wrong for the smallest value alone, which has no negation. -/
theorem itoa_iff {v : Int} (hlow : -2 ^ 63 ≤ v) (hhigh : v < 2 ^ 63) : itoa v = numeral v ↔ v ≠ -2 ^ 63 := by
  unfold itoa numeral
  by_cases hv : v < 0
  · simp only [hv, if_true]
    by_cases hmin : v = -2 ^ 63
    · rw [hmin, show i64 (-(-2 ^ 63)) = -2 ^ 63 by decide, itoaDigits, if_neg (by decide)]
      decide
    · have habs : i64 (-v) = v.natAbs := by
        unfold i64
        omega
      rw [habs, reverse_append, itoaDigits_natCast]
      exact iff_of_true rfl hmin
  · obtain ⟨n, rfl⟩ := Int.eq_ofNat_of_zero_le (not_lt.mp hv)
    simp only [hv, if_false, append_nil]
    rw [itoaDigits_natCast]
    exact iff_of_true rfl (by omega)

/-- A value comes back from its bytes and its text is its numeral. -/
theorem integer_conversions_iff (v : Int64) :
    ((∀ alloc bytes, convertIntegerToArray alloc v.toInt none = some bytes →
        convertArrayToInteger bytes = v.toInt) ∧ itoa v.toInt = numeral v.toInt) ↔ 0 ≤ v.toInt := by
  have hlow := Int64.le_toInt v
  have hhigh := Int64.toInt_lt v
  rw [convertIntegerToArray_iff hhigh, itoa_iff hlow hhigh]
  omega

/-- The array of -1 has one byte, which is read as 255. -/
theorem not_integer_conversions_minusOne :
    ¬ ((∀ alloc bytes, convertIntegerToArray alloc (-1) none = some bytes →
      convertArrayToInteger bytes = -1) ∧ itoa (-1) = numeral (-1)) := by
  rintro ⟨h, -⟩
  exact absurd (h (fun _ => true) _ rfl) (by decide)

end MbedCloud.Lwm2m

