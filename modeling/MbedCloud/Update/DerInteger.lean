import MbedCloud.Update.Utilities

/-!
# Integers of a manifest

`arm_uc_mmDerManifestParser.c`: the header of an element, the buffer of its content, and the conversion of an
INTEGER to an unsigned number. The content of an INTEGER is signed, so that of a number with the highest bit
set starts with a zero; the conversion takes as many bytes as the number has, from the front.
-/

namespace MbedCloud.Update

open Lib List

/-! ## Model -/

inductive DerError where
  | outOfData
  | unexpectedTag
  | invalidLength
  deriving DecidableEq

/-- The bytes as a number in big-endian order. -/
def beValue (bs : Bytes) : Nat := bs.foldl (fun n b => n * 256 + b.toNat) 0

/-- `ARM_UC_MM_ASN1_get_len`: the length, and the position behind it. -/
def asn1GetLen (mem : Bytes) (p stop : Nat) : Exec Fault (Except DerError (Nat × Nat)) :=
  let result (len p : Nat) : Except DerError (Nat × Nat) := if len > stop - p then .error .outOfData else .ok (len, p)
  if stop - p < 1 then pure (.error .outOfData)
  else do
    let b ← rd mem p
    if b.toNat < 128 then pure (result b.toNat (p + 1))
    else
      let n := b.toNat % 128
      if n = 0 ∨ 4 < n then pure (.error .invalidLength)
      else if stop - p < n + 1 then pure (.error .outOfData)
      else do
        let bs ← rdBytes mem (p + 1) n
        pure (result (beValue bs) (p + 1 + n))

/-- `ARM_UC_MM_ASN1_get_tag`. -/
def asn1GetTag (mem : Bytes) (p stop : Nat) (tag : UInt8) : Exec Fault (Except DerError (Nat × Nat)) :=
  if stop - p < 1 then pure (.error .outOfData)
  else do
    let b ← rd mem p
    if b ≠ tag then pure (.error .unexpectedTag) else asn1GetLen mem (p + 1) stop

/-- `uint32_t` and `uint64_t`. -/
inductive UintType where
  | uint32
  | uint64
  deriving DecidableEq

def UintType.size : UintType → Nat
  | .uint32 => 4
  | .uint64 => 8

/-- `ARM_UC_mmDerBuf2Uint` and `ARM_UC_mmDerBuf2Uint64`. -/
def derBuf2Uint (type : UintType) (mem : Bytes) (ptr size : Nat) : Exec Fault Nat := do
  let bs ← rdBytes mem ptr (min size type.size)
  pure (bs.foldl (fun rc b => (rc * 256 + b.toNat) % 2 ^ (8 * type.size)) 0)

/-- `ARM_UC_mmGetFwSize` and `ARM_UC_mmGetTimestamp`, where `ARM_UC_mmDERGetValues` comes to the INTEGER that is
asked for: the buffer is the content of the element. `none` is `MFST_ERR_DER_FORMAT`. -/
def getInteger (type : UintType) (mem : Bytes) (pos stop : Nat) : Exec Fault (Option Nat) := do
  match ← asn1GetTag mem pos stop 2 with
  | .error _ => pure none
  | .ok (len, ptr) => do
    let val ← derBuf2Uint type mem ptr len
    pure (some val)

/-! ## The encoding -/

/-- The content of the INTEGER for a number: as few bytes as possible, with a sign bit that is zero. -/
def derContent (v : Nat) : Bytes := if v < 128 then [UInt8.ofNat v] else derContent (v / 256) ++ [UInt8.ofNat v]

/-- The INTEGER for a number of less than 1016 bits. -/
def derInteger (v : Nat) : Bytes := 2 :: UInt8.ofNat (derContent v).length :: derContent v

/-- The number is read wherever its INTEGER stands. -/
def ReadsInteger (type : UintType) (v : Nat) : Prop :=
  ∀ mem pos stop post, mem.drop pos = derInteger v ++ post → pos + (derInteger v).length ≤ stop →
    getInteger type mem pos stop = .ok (some v)

/-! ## Results -/

theorem foldl_mod (m r : Nat) (bs : Bytes) :
    bs.foldl (fun rc b => (rc * 256 + b.toNat) % m) (r % m) = bs.foldl (fun n b => n * 256 + b.toNat) r % m := by
  induction bs generalizing r with
  | nil => rfl
  | cons b bs ih => rw [foldl_cons, foldl_cons, ← ih, Nat.add_mod, Nat.mod_mul_mod, ← Nat.add_mod]

theorem beValue_derContent (v : Nat) : beValue (derContent v) = v := by
  fun_induction derContent v with
  | case1 v hlt =>
    show 0 * 256 + (UInt8.ofNat v).toNat = v
    rw [UInt8.toNat_ofNat']
    omega
  | case2 v hge ih =>
    rw [beValue] at ih ⊢
    rw [foldl_append, ih]
    show v / 256 * 256 + (UInt8.ofNat v).toNat = v
    rw [UInt8.toNat_ofNat']
    omega

theorem length_derContent (n v : Nat) : (derContent v).length ≤ n + 1 ↔ v < 128 * 256 ^ n := by
  induction n generalizing v with
  | zero =>
    rw [derContent]
    split
    · simpa
    · have hpos : 0 < (derContent (v / 256)).length := by
        rw [derContent]
        split <;> simp
      simp only [length_append, length_singleton]
      omega
  | succ n ih =>
    rw [derContent]
    split
    · have hpos : 1 ≤ 256 ^ (n + 1) := Nat.one_le_two_pow.trans (Nat.pow_le_pow_left (by decide) _)
      simp only [length_singleton]
      omega
    · rw [length_append, length_singleton, Nat.add_le_add_iff_right, ih, Nat.div_lt_iff_lt_mul (by decide),
        Nat.pow_succ, Nat.mul_assoc]

variable {mem post : Bytes} {pos stop v : Nat}

/-- The field of a number is found, and its first bytes are converted. -/
theorem getInteger_eq (type : UintType) (hlt : v < 2 ^ 64) (h : mem.drop pos = derInteger v ++ post)
    (hstop : pos + (derInteger v).length ≤ stop) :
    getInteger type mem pos stop = .ok (some (beValue ((derContent v).take type.size) % 2 ^ (8 * type.size))) := by
  have hlength : (derContent v).length ≤ 9 := (length_derContent 8 v).mpr (Nat.lt_of_lt_of_le hlt (by decide))
  have hcontent : mem.drop (pos + 1 + 1) = derContent v ++ post := drop_succ (drop_succ h)
  have hbyte : (UInt8.ofNat (derContent v).length).toNat = (derContent v).length := by
    rw [UInt8.toNat_ofNat']
    omega
  rw [derInteger, length_cons, length_cons] at hstop
  have htag : asn1GetTag mem pos stop 2 = .ok (.ok ((derContent v).length, pos + 1 + 1)) := by
    rw [asn1GetTag, if_neg (by omega), rd_drop h, ok_bind, if_neg (by simp), asn1GetLen]
    simp only
    rw [if_neg (by omega), rd_drop (drop_succ h), ok_bind, hbyte, if_pos (by omega), if_neg (by omega)]
    rfl
  rw [getInteger, htag, ok_bind]
  simp only [derBuf2Uint]
  rw [← take_append_drop type.size (derContent v), append_assoc] at hcontent
  have hread := rdBytes_drop _ _ hcontent
  rw [length_take, Nat.min_comm] at hread
  rw [hread]
  exact congrArg (fun n => Except.ok (some n)) (foldl_mod (2 ^ (8 * type.size)) 0 _)

/-- **Integers.** A number is read if its highest bit is zero: else the last byte of it is lost. -/
theorem readsInteger_iff (type : UintType) (v : Nat) :
    (v < 2 ^ (8 * type.size) → ReadsInteger type v) ↔ (v < 2 ^ (8 * type.size) → v < 2 ^ (8 * type.size - 1)) := by
  have hbits : 2 ^ (8 * type.size) ≤ 2 ^ 64 ∧ 2 ^ (8 * type.size - 1) = 128 * 256 ^ (type.size - 1) ∧
      2 ^ (8 * type.size) = 256 * 256 ^ (type.size - 1) ∧ type.size - 1 + 1 = type.size := by
    cases type <;> decide
  obtain ⟨hle, hhalf, hfull, hsize⟩ := hbits
  refine forall_congr' fun hlt => ?_
  have hlength := length_derContent (type.size - 1) v
  rw [hsize, ← hhalf] at hlength
  rw [← hlength]
  constructor
  · intro hreads
    by_contra hlong
    have hat : (derInteger v).drop 0 = derInteger v ++ [] := (append_nil _).symm
    have hread := hreads _ _ _ _ hat (Nat.le_refl _)
    rw [getInteger_eq type (Nat.lt_of_lt_of_le hlt hle) hat (Nat.le_refl _)] at hread
    have hv : ¬ v < 128 := by
      intro hv
      omega
    have hshort : (derContent (v / 256)).length ≤ type.size := by
      rw [← hsize, length_derContent, ← hhalf]
      omega
    rw [derContent, if_neg hv] at hlong hread
    rw [length_append, length_singleton] at hlong
    rw [take_left' (by omega), beValue_derContent, Nat.mod_eq_of_lt (by omega)] at hread
    have hsame : v / 256 = v := Option.some.inj (Except.ok.inj hread)
    omega
  · intro hshort mem pos stop post h hstop
    rw [getInteger_eq type (Nat.lt_of_lt_of_le hlt hle) h hstop, take_of_length_le hshort,
      beValue_derContent, Nat.mod_eq_of_lt hlt]

/-- The firmware size `2147483648` is read as `8388608`. -/
theorem not_readsInteger_half : 2147483648 < 2 ^ 32 ∧ ¬ ReadsInteger .uint32 2147483648 := by
  refine ⟨by decide, fun h => ?_⟩
  have hbytes : derInteger 2147483648 = [2, 5, 0, 128, 0, 0, 0] := by simp [derInteger, derContent]
  have hread := h [2, 5, 0, 128, 0, 0, 0] 0 7 [] (by rw [hbytes]; rfl) (by rw [hbytes]; decide)
  cases hread.symm.trans (rfl : getInteger .uint32 [2, 5, 0, 128, 0, 0, 0] 0 7 = .ok (some 8388608))

end MbedCloud.Update

