import MbedCloud.Lib.Word
import Mathlib.Data.List.Basic
import Mathlib.Data.Nat.ModEq

/-!
# Stream ciphers

The bytes of a text combined with a key stream that is indexed by the position of a byte. The
result does not depend on how the text is split (`xorFrom_append`), and the same key stream gives
the text back (`xorFrom_xorFrom`). A stream that is made of blocks and started at the beginning of a
block is the same one (`blockwise_eq`).

Loops over a buffer in pieces of at most `c` bytes go through `pieceSizes`.
-/

namespace MbedCloud.Lib

/-! ## The key stream -/

/-- A text from position `p` on, combined with the key stream. -/
def xorFrom (ks : Nat → UInt8) : Nat → Bytes → Bytes
  | _, [] => []
  | p, b :: bs => (b ^^^ ks p) :: xorFrom ks (p + 1) bs

variable {ks : Nat → UInt8}

@[simp] theorem xorFrom_nil (p : Nat) : xorFrom ks p [] = [] := rfl

@[simp] theorem length_xorFrom (p : Nat) (bs : Bytes) : (xorFrom ks p bs).length = bs.length := by
  induction bs generalizing p with
  | nil => rfl
  | cons b bs ih => exact congrArg (· + 1) (ih (p + 1))

theorem xorFrom_append (p : Nat) (bs cs : Bytes) :
    xorFrom ks p (bs ++ cs) = xorFrom ks p bs ++ xorFrom ks (p + bs.length) cs := by
  induction bs generalizing p with
  | nil => rfl
  | cons b bs ih =>
    rw [List.cons_append, xorFrom, xorFrom, ih, List.cons_append, List.length_cons, Nat.add_right_comm, Nat.add_assoc]

theorem xorFrom_xorFrom (p : Nat) (bs : Bytes) : xorFrom ks p (xorFrom ks p bs) = bs := by
  induction bs generalizing p with
  | nil => rfl
  | cons b bs ih => rw [xorFrom, xorFrom, ih, UInt8.xor_assoc, UInt8.xor_self, UInt8.xor_zero]

theorem getElem?_xorFrom (p : Nat) (bs : Bytes) (i : Nat) : (xorFrom ks p bs)[i]? = bs[i]?.map fun b => b ^^^ ks (p + i) := by
  induction bs generalizing p i with
  | nil => rfl
  | cons b bs ih =>
    cases i with
    | zero => rfl
    | succ i => rw [xorFrom, List.getElem?_cons_succ, List.getElem?_cons_succ, ih, Nat.add_right_comm, Nat.add_assoc]

theorem xorFrom_take (p : Nat) (bs : Bytes) (n : Nat) : xorFrom ks p (bs.take n) = (xorFrom ks p bs).take n := by
  apply List.ext_getElem?
  intro i
  rw [getElem?_xorFrom, List.getElem?_take, List.getElem?_take, getElem?_xorFrom]
  split <;> rfl

theorem xorFrom_drop (p : Nat) (bs : Bytes) (n : Nat) : xorFrom ks (p + n) (bs.drop n) = (xorFrom ks p bs).drop n := by
  apply List.ext_getElem?
  intro i
  rw [getElem?_xorFrom, List.getElem?_drop, List.getElem?_drop, getElem?_xorFrom, Nat.add_assoc]

variable {p q i : Nat} {bs : Bytes}

theorem eq_zero_of_xor_eq {a b : UInt8} (h : a ^^^ b = a) : b = 0 := (UInt8.xor_right_inj a).mp (h.trans UInt8.xor_zero.symm)

/-- A text is read back at another position only where the key stream is the same. -/
theorem xorFrom_xorFrom_eq (h : xorFrom ks p (xorFrom ks q bs) = bs) (hi : i < bs.length) : ks (p + i) = ks (q + i) := by
  have hbyte := congrArg (·[i]?) h
  rw [getElem?_xorFrom, getElem?_xorFrom, List.getElem?_eq_getElem hi] at hbyte
  have hzero := eq_zero_of_xor_eq ((UInt8.xor_assoc ..).symm.trans (Option.some.inj hbyte))
  exact (UInt8.xor_eq_zero_iff.mp hzero).symm

/-- A text is left as it is only where the key stream is zero. -/
theorem xorFrom_eq_self (h : xorFrom ks p bs = bs) (hi : i < bs.length) : ks (p + i) = 0 := by
  have hbyte := congrArg (·[i]?) h
  rw [getElem?_xorFrom, List.getElem?_eq_getElem hi] at hbyte
  exact eq_zero_of_xor_eq (Option.some.inj hbyte)

/-! ## Blocks -/

/-- The key stream that blocks of 16 bytes make up. -/
def blockStream (block : Nat → Vector UInt8 16) (p : Nat) : UInt8 := (block (p / 16)).get ⟨p % 16, Nat.mod_lt p (by decide)⟩

/-- Counter mode from the start of a block: the text is combined with the stream of the blocks from
`counter` on. -/
def counterMode (block : Nat → Vector UInt8 16) (counter : Nat) (bs : Bytes) : Bytes :=
  xorFrom (fun i => (block (counter + i / 16)).get ⟨i % 16, Nat.mod_lt i (by decide)⟩) 0 bs

theorem xorFrom_congr {ks ks' : Nat → UInt8} (h : ∀ i, ks (p + i) = ks' (q + i)) : xorFrom ks p bs = xorFrom ks' q bs := by
  apply List.ext_getElem?
  intro i
  rw [getElem?_xorFrom, getElem?_xorFrom, h i]

/-- Counter mode is the key stream at the position of its first block. -/
theorem counterMode_eq (block : Nat → Vector UInt8 16) (counter : Nat) (bs : Bytes) :
    counterMode block counter bs = xorFrom (blockStream block) (counter * 16) bs := by
  apply xorFrom_congr
  intro i
  have hdiv : (counter * 16 + i) / 16 = counter + (0 + i) / 16 := by omega
  have hmod : (counter * 16 + i) % 16 = (0 + i) % 16 := by omega
  simp only [blockStream, hdiv, hmod]

/-! ## Pieces -/

/-- The sizes of the pieces in which a loop with a buffer of `c` bytes handles `n` bytes. -/
def pieceSizes (c n : Nat) : List Nat := List.replicate (n / c) c ++ (if n % c = 0 then [] else [n % c])

theorem sum_pieceSizes (c n : Nat) : (pieceSizes c n).sum = n := by
  unfold pieceSizes
  rw [List.sum_append, List.sum_replicate_nat, Nat.mul_comm]
  split_ifs with h
  · rw [List.sum_nil, ← h, Nat.div_add_mod]
  · rw [List.sum_singleton, Nat.div_add_mod]

theorem pos_of_mem_pieceSizes {c n k : Nat} (hc : 0 < c) (hk : k ∈ pieceSizes c n) : 0 < k ∧ k ≤ c := by
  unfold pieceSizes at hk
  rw [List.mem_append] at hk
  rcases hk with hk | hk
  · rw [List.eq_of_mem_replicate hk]
    exact ⟨hc, Nat.le_refl c⟩
  split_ifs at hk with h
  · cases hk
  rw [List.mem_singleton] at hk
  rw [hk]
  exact ⟨Nat.pos_of_ne_zero h, Nat.le_of_lt (Nat.mod_lt n hc)⟩

end MbedCloud.Lib

