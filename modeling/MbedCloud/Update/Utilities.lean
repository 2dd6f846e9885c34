import Mathlib.Data.List.TakeWhile
import Mathlib.Tactic.Ring
import MbedCloud.Lib.Loop
import MbedCloud.Lib.Word

/-!
# Text functions of the update client

`arm_uc_utilities.c`, with the functions of the C library that it uses. A text is a list of bytes, and a
pointer into it is an index; reading or writing an index outside of the list is a fault. A search reads byte
after byte, and stops where it finds something.
-/

namespace MbedCloud.Update

open Lib List

/-- What a C program must not do. -/
inductive Fault where
  | read (index : Nat)
  | write (index : Nat)
  deriving DecidableEq

/-! ## Memory -/

def rd (mem : Bytes) (i : Nat) : Exec Fault UInt8 :=
  match mem[i]? with
  | some b => .ok b
  | none => .error (.fail (.read i))

def wr (mem : Bytes) (i : Nat) (b : UInt8) : Exec Fault Bytes :=
  if i < mem.length then .ok (mem.set i b) else .error (.fail (.write i))

/-- The source of a `memcpy`. -/
def rdBytes (mem : Bytes) : Nat → Nat → Exec Fault Bytes
  | _, 0 => pure []
  | i, n + 1 => do
    let b ← rd mem i
    let bs ← rdBytes mem (i + 1) n
    pure (b :: bs)

/-- The destination of a `memcpy`. -/
def wrBytes (mem : Bytes) : Nat → Bytes → Exec Fault Bytes
  | _, [] => pure mem
  | i, b :: bs => do
    let mem ← wr mem i b
    wrBytes mem (i + 1) bs

def memchr (mem : Bytes) (c : UInt8) : Nat → Nat → Exec Fault (Option Nat)
  | _, 0 => pure none
  | i, n + 1 => do
    let b ← rd mem i
    if b = c then pure (some i) else memchr mem c (i + 1) n

/-- `memcmp` with a constant, up to the first difference: whether the bytes are equal. -/
def memcmp (mem : Bytes) : Nat → Bytes → Exec Fault Bool
  | _, [] => pure true
  | i, c :: cs => do
    let b ← rd mem i
    if b = c then memcmp mem (i + 1) cs else pure false

/-! ## Strings and numbers -/

/-- `arm_uc_strnlen`. -/
def strnlen (mem : Bytes) : Nat → Nat → Exec Fault Nat
  | _, 0 => pure 0
  | i, n + 1 => do
    let b ← rd mem i
    if b = 0 then pure 0
    else do
      let len ← strnlen mem (i + 1) n
      pure (len + 1)

def isDigit (b : UInt8) : Bool := decide (48 ≤ b.toNat ∧ b.toNat ≤ 57)

/-- The loop of `arm_uc_str2uint32`: the number in 64 bits, and whether there was a digit. -/
def digits (mem : Bytes) : Nat → Nat → Nat × Bool → Exec Fault (Nat × Bool)
  | _, 0, r => pure r
  | i, n + 1, (result, found) => do
    let b ← rd mem i
    if isDigit b ∧ result < 18446744073709551615 then
      digits mem (i + 1) n ((result * 10 + (b.toNat - 48)) % 18446744073709551616, true)
    else pure (result, found)

/-- `arm_uc_str2uint32`. -/
def str2uint32 (mem : Bytes) (i maxLength : Nat) : Exec Fault (Nat × Bool) := do
  let (result, found) ← digits mem i maxLength (0, false)
  pure (if found then (u32 result, true) else (0, false))

/-- The exclusive or of the bytes that the two searches compare first. -/
def xorBytes (mem : Bytes) : Nat → Nat → UInt8 → Exec Fault UInt8
  | _, 0, hash => pure hash
  | i, n + 1, hash => do
    let b ← rd mem i
    xorBytes mem (i + 1) n (hash ^^^ b)

/-- The comparison loop of `arm_uc_strnstrn` from an index on, with the number of indices that are left. -/
def searchFrom (mem : Bytes) (start : Nat) (little : Bytes) (littleHash : UInt8) :
    Nat → Nat → UInt8 → Exec Fault Nat
  | _, 0, _ => pure 4294967295
  | index, n + 1, hash => do
    let b ← rd mem (start + (index + (little.length - 1)))
    let found ← if littleHash = hash ^^^ b then memcmp mem (start + index) little else pure false
    if found then pure index
    else do
      let a ← rd mem (start + index)
      searchFrom mem start little littleHash (index + 1) n (hash ^^^ b ^^^ a)

/-- `arm_uc_strnstrn` in the `bigLength` bytes from `start` on. -/
def strnstrn (mem : Bytes) (start bigLength : Nat) (little : Bytes) : Exec Fault Nat :=
  if little.length ≤ bigLength ∧ 0 < little.length then do
    let hash ← xorBytes mem start (little.length - 1) 0
    searchFrom mem start little (little.foldl (· ^^^ ·) 0) 0 (bigLength - (little.length - 1)) hash
  else pure 4294967295

/-! ## What the searches find -/

section

variable {mem : Bytes} {i n : Nat} {b c : UInt8} {pre post : Bytes}

theorem rd_ok (h : mem[i]? = some b) : rd mem i = .ok b := by rw [rd, h]

theorem wr_ok (h : i < mem.length) : wr mem i b = .ok (mem.set i b) := if_pos h

theorem rd_outside (h : mem.length ≤ i) : rd mem i = .error (.fail (.read i)) := by rw [rd, getElem?_eq_none h]

theorem rd_drop (h : mem.drop i = b :: post) : rd mem i = .ok b := by
  apply rd_ok
  rw [← head?_drop, h]
  rfl

theorem drop_succ (h : mem.drop i = b :: post) : mem.drop (i + 1) = post := by
  rw [← tail_drop, h]
  rfl

theorem drop_append (h : mem.drop i = pre ++ post) : mem.drop (i + pre.length) = post := by rw [← drop_drop, h, drop_left]

theorem length_of_drop (h : mem.drop i = b :: post) : i < mem.length := by
  by_contra hle
  rw [drop_eq_nil_of_le (by omega)] at h
  cases h

theorem memchr_found (h : mem.drop i = pre ++ c :: post) (hpre : c ∉ pre) (hn : pre.length < n) :
    memchr mem c i n = .ok (some (i + pre.length)) := by
  induction pre generalizing i n with
  | nil =>
    obtain ⟨n, rfl⟩ := Nat.exists_eq_add_one.mpr hn
    rw [memchr, rd_drop h, ok_bind, if_pos rfl]
    rfl
  | cons a pre ih =>
    obtain ⟨n, rfl⟩ := Nat.exists_eq_add_one.mpr (Nat.zero_lt_of_lt hn)
    have hne : a ≠ c := fun heq => hpre (heq ▸ (.head _))
    rw [memchr, rd_drop h, ok_bind, if_neg hne, ih (drop_succ h) (fun hmem => hpre (mem_cons_of_mem a hmem))
      (Nat.lt_of_succ_lt_succ hn), length_cons]
    congr 2
    omega

theorem memchr_none (pre post : Bytes) (h : mem.drop i = pre ++ post) (hpre : c ∉ pre) (hn : pre.length = n) :
    memchr mem c i n = .ok none := by
  subst hn
  induction pre generalizing i with
  | nil => rfl
  | cons a pre ih =>
    have hne : a ≠ c := fun heq => hpre (heq ▸ (.head _))
    rw [length_cons, memchr, rd_drop h, ok_bind, if_neg hne]
    exact ih (drop_succ h) fun hmem => hpre (mem_cons_of_mem a hmem)

theorem rdBytes_drop (pre post : Bytes) (h : mem.drop i = pre ++ post) : rdBytes mem i pre.length = .ok pre := by
  induction pre generalizing i with
  | nil => rfl
  | cons a pre ih =>
    rw [length_cons, rdBytes, rd_drop h, ok_bind, ih (drop_succ h)]
    rfl

theorem wrBytes_eq {bs : Bytes} (h : i + bs.length ≤ mem.length) :
    wrBytes mem i bs = .ok (mem.take i ++ bs ++ mem.drop (i + bs.length)) := by
  induction bs generalizing i mem with
  | nil => simp [wrBytes, pure, Except.pure]
  | cons b bs ih =>
    rw [length_cons] at h
    have hi : i < mem.length := by omega
    rw [wrBytes, wr_ok hi, ok_bind, ih (by rw [length_set]; omega)]
    have htake : (mem.set i b).take (i + 1) = mem.take i ++ [b] := by
      rw [take_succ_eq_append_getElem (by rw [length_set]; exact hi), getElem_set_self, take_set_of_le (le_refl i)]
    have hdrop : (mem.set i b).drop (i + 1 + bs.length) = mem.drop (i + 1 + bs.length) := drop_set_of_lt (by omega)
    have hlen : i + 1 + bs.length = i + (b :: bs).length := by
      rw [length_cons]
      omega
    rw [htake, hdrop, hlen]
    simp

theorem strnlen_eq (pre post : Bytes) (h : mem.drop i = pre ++ post) (hpre : (0 : UInt8) ∉ pre) (hn : pre.length ≤ n)
    (hend : pre.length = n ∨ ∃ rest, post = 0 :: rest) : strnlen mem i n = .ok pre.length := by
  induction pre generalizing i n with
  | nil =>
    cases n with
    | zero => rfl
    | succ n =>
      rcases hend with hlen | ⟨rest, rfl⟩
      · cases hlen
      · rw [strnlen, rd_drop h]
        rfl
  | cons a pre ih =>
    obtain ⟨n, rfl⟩ := Nat.exists_eq_add_one.mpr (Nat.lt_of_lt_of_le (Nat.succ_pos _) hn)
    have hne : a ≠ 0 := fun heq => hpre (heq ▸ (.head _))
    rw [strnlen, rd_drop h, ok_bind, if_neg hne, ih (drop_succ h) (fun hmem => hpre (mem_cons_of_mem a hmem))
      (Nat.le_of_succ_le_succ hn) (hend.imp_left Nat.succ.inj)]
    rfl

/-- The bytes of a text up to a zero byte. -/
def cString (bs : Bytes) : Bytes := bs.takeWhile (· != 0)

theorem zero_notMem_cString (bs : Bytes) : (0 : UInt8) ∉ cString bs := by
  intro hmem
  have := mem_takeWhile_imp hmem
  simp at this

theorem cString_append {bs : Bytes} (h : (0 : UInt8) ∉ bs) (post : Bytes) : cString (bs ++ post) = bs ++ cString post := by
  refine takeWhile_append_of_pos fun b hb => ?_
  simp only [bne_iff_ne]
  rintro rfl
  exact h hb

theorem cString_eq {bs : Bytes} (h : (0 : UInt8) ∉ bs) : cString bs = bs := by simpa [cString] using cString_append h []

theorem strnlen_cString (pre post : Bytes) (h : mem.drop i = pre ++ post) :
    strnlen mem i pre.length = .ok (cString pre).length := by
  have hsplit := takeWhile_append_dropWhile (p := (· != (0 : UInt8))) (l := pre)
  apply strnlen_eq (cString pre) (pre.dropWhile (· != 0) ++ post)
  · rw [← append_assoc, cString, hsplit, h]
  · exact zero_notMem_cString pre
  · have := congrArg List.length hsplit
    rw [length_append] at this
    rw [cString]
    omega
  cases hrest : pre.dropWhile (· != 0) with
  | nil =>
    left
    rw [hrest, append_nil] at hsplit
    rw [cString, hsplit]
  | cons a rest =>
    right
    have hnot := head?_dropWhile_not (· != (0 : UInt8)) pre
    rw [hrest] at hnot
    have ha : a = 0 := by simpa using hnot
    exact ⟨rest ++ post, by rw [ha, cons_append]⟩

end

/-! ## Comparing -/

variable {mem cs : Bytes} {i n : Nat}

/-- The comparison with a constant finds out whether the memory begins with it. -/
theorem memcmp_eq (h : i + cs.length ≤ mem.length) : memcmp mem i cs = .ok (decide ((mem.drop i).take cs.length = cs)) := by
  induction cs generalizing i with
  | nil => simp [memcmp, pure, Except.pure]
  | cons c cs ih =>
    rw [length_cons] at h
    have hi : i < mem.length := by omega
    rw [memcmp, rd_ok (getElem?_eq_getElem hi), drop_eq_getElem_cons hi, length_cons, take_succ_cons, ok_bind]
    split_ifs with heq
    · rw [ih (by omega)]
      simp [heq]
    · simp [heq, pure, Except.pure]

/-- The comparison stops at the first difference. -/
theorem memcmp_false {bs : Bytes} {b : UInt8} (hlen : bs.length < cs.length)
    (h : ∃ post, mem.drop i = bs ++ b :: post) (hne : cs[bs.length]? ≠ some b) : memcmp mem i cs = .ok false := by
  obtain ⟨post, h⟩ := h
  induction bs generalizing i cs with
  | nil =>
    cases cs with
    | nil => cases hlen
    | cons c cs =>
      have hbc : b ≠ c := fun heq => hne (by simp [heq])
      rw [memcmp, rd_drop h, ok_bind, if_neg hbc]
      rfl
  | cons a bs ih =>
    cases cs with
    | nil => cases hlen
    | cons c cs =>
      rw [memcmp, rd_drop h, ok_bind]
      split_ifs with heq
      · exact ih (by simpa using hlen) (by simpa using hne) (drop_succ h)
      · rfl

/-! ## Numbers -/

/-- Inside of the text the loop ends, and a digit that was found is not forgotten. -/
theorem digits_inside (result : Nat) (found : Bool) (h : i + n ≤ mem.length) :
    ∃ r, digits mem i n (result, found) = .ok r ∧ (found = true → r.2 = true) := by
  induction n generalizing i result found with
  | zero => exact ⟨_, rfl, id⟩
  | succ n ih =>
    rw [digits, rd_ok (getElem?_eq_getElem (by omega : i < mem.length)), ok_bind]
    split_ifs
    · obtain ⟨r, hr, htrue⟩ := ih (i := i + 1) _ true (by omega)
      exact ⟨r, hr, fun _ => htrue rfl⟩
    · exact ⟨_, rfl, id⟩

/-! ## Searching

The exclusive or of the bytes of a window is kept while the window moves; only where it is that of the text
that is looked for, the bytes are compared. -/

section

def xorAll (bs : Bytes) : UInt8 := bs.foldl (· ^^^ ·) 0

theorem foldl_xor (c : UInt8) (bs : Bytes) : bs.foldl (· ^^^ ·) c = c ^^^ xorAll bs := by
  induction bs generalizing c with
  | nil => simp [xorAll]
  | cons b bs ih =>
    rw [foldl_cons, ih, UInt8.xor_assoc]
    congr 1
    rw [xorAll, xorAll, foldl_cons, UInt8.zero_xor]
    exact (ih b).symm

theorem xorAll_cons (b : UInt8) (bs : Bytes) : xorAll (b :: bs) = b ^^^ xorAll bs := by
  rw [xorAll, foldl_cons, foldl_xor, UInt8.zero_xor]

theorem xorAll_concat (bs : Bytes) (b : UInt8) : xorAll (bs ++ [b]) = xorAll bs ^^^ b := by
  rw [xorAll, foldl_append]
  rfl

variable {little : Bytes} {start : Nat} {bigLength : Nat}

theorem xorBytes_eq {i : Nat} {hash : UInt8} (h : i + n ≤ mem.length) :
    xorBytes mem i n hash = .ok (hash ^^^ xorAll ((mem.drop i).take n)) := by
  induction n generalizing i hash with
  | zero => simp [xorBytes, xorAll, pure, Except.pure]
  | succ n ih =>
    have hi : i < mem.length := by omega
    rw [xorBytes, rd_ok (getElem?_eq_getElem hi), ok_bind,
      ih (by omega), drop_eq_getElem_cons hi, take_succ_cons, xorAll_cons, UInt8.xor_assoc]

/-- The bytes that are compared at an index. -/
def window (mem : Bytes) (start : Nat) (little : Bytes) (index : Nat) : Bytes := (mem.drop (start + index)).take little.length

/-- The first of the indices where the bytes are found. -/
def firstOf (mem : Bytes) (start : Nat) (little : Bytes) (indices : List Nat) : Nat :=
  (indices.find? fun i => window mem start little i = little).getD 4294967295

theorem searchFrom_eq (mem little : Bytes) (start index n : Nat) (hpos : 0 < little.length)
    (h : start + index + n + (little.length - 1) ≤ mem.length) :
    searchFrom mem start little (xorAll little) index n (xorAll ((mem.drop (start + index)).take (little.length - 1))) =
      .ok (firstOf mem start little (range' index n)) := by
  induction n generalizing index with
  | zero => rfl
  | succ n ih =>
    have hlast : start + (index + (little.length - 1)) < mem.length := by omega
    have hfirst : start + index < mem.length := by omega
    have hwindow : window mem start little index =
        (mem.drop (start + index)).take (little.length - 1) ++ [mem[start + (index + (little.length - 1))]] := by
      conv_lhs => rw [window, ← Nat.sub_add_cancel hpos]
      rw [take_succ_eq_append_getElem (by rw [length_drop]; omega), getElem_drop]
      simp only [Nat.add_assoc]
    have hcons : window mem start little index =
        mem[start + index] :: (mem.drop (start + (index + 1))).take (little.length - 1) := by
      conv_lhs => rw [window, ← Nat.sub_add_cancel hpos]
      rw [drop_eq_getElem_cons hfirst, take_succ_cons, Nat.add_assoc]
    have hxor := congrArg xorAll hwindow
    rw [xorAll_concat] at hxor
    rw [searchFrom, rd_ok (getElem?_eq_getElem hlast), ok_bind, ← hxor, firstOf, range'_succ, find?_cons]
    have hcmp : memcmp mem (start + index) little = .ok (decide (window mem start little index = little)) := memcmp_eq (by omega)
    by_cases hfound : window mem start little index = little
    · rw [if_pos (by rw [hfound]), hcmp, decide_eq_true hfound]
      rfl
    have hnext : xorAll (window mem start little index) ^^^ mem[start + index] =
        xorAll ((mem.drop (start + (index + 1))).take (little.length - 1)) := by
      rw [hcons, xorAll_cons, UInt8.xor_comm, ← UInt8.xor_assoc, UInt8.xor_self, UInt8.zero_xor]
    have hr := ih (index + 1) (by omega)
    rw [← hnext] at hr
    rw [hcmp, decide_eq_false hfound, rd_ok (getElem?_eq_getElem hfirst)]
    split_ifs <;> exact hr

/-- `arm_uc_strnstrn` finds the first place of a text, within its bounds. -/
theorem strnstrn_eq (h : start + bigLength ≤ mem.length) (hpos : 0 < little.length) :
    strnstrn mem start bigLength little = .ok (firstOf mem start little (range (bigLength - (little.length - 1)))) := by
  rw [strnstrn, range_eq_range']
  split_ifs with hlen
  · rw [xorBytes_eq (by omega), ok_bind, UInt8.zero_xor]
    exact searchFrom_eq mem little start 0 _ hpos (by omega)
  · rw [Nat.sub_eq_zero_of_le (by omega)]
    rfl

/-- A search up to the end of the memory: the first place, or none. -/
theorem strnstrn_place (mem little : Bytes) (start bigLength : Nat) (hend : start + bigLength = mem.length)
    (hlittle : little ≠ []) :
    (∃ r, little <+: (mem.drop start).drop r ∧ (∀ j < r, ¬ little <+: (mem.drop start).drop j) ∧
      strnstrn mem start bigLength little = .ok r) ∨
    (∀ r, ¬ little <+: (mem.drop start).drop r) ∧ strnstrn mem start bigLength little = .ok 4294967295 := by
  have hpos := length_pos_iff.mpr hlittle
  have hwindow : ∀ i, decide (window mem start little i = little) = true ↔ little <+: (mem.drop start).drop i := by
    intro i
    rw [decide_eq_true_iff, window, drop_drop, prefix_iff_eq_take, eq_comm]
  rw [strnstrn_eq (Nat.le_of_eq hend) hpos, firstOf]
  rcases hfind : find? _ _ with - | r
  · refine .inr ⟨fun r hr => ?_, rfl⟩
    have hlen := hr.length_le
    rw [length_drop, length_drop] at hlen
    have hnot := find?_range_eq_none.mp hfind r (by omega)
    rw [(hwindow r).mpr hr] at hnot
    cases hnot
  · obtain ⟨hat, -, hbefore⟩ := find?_range_eq_some.mp hfind
    refine .inl ⟨r, (hwindow r).mp hat, fun j hj hpre => ?_, rfl⟩
    have hnot := hbefore j hj
    rw [(hwindow j).mpr hpre] at hnot
    cases hnot

/-- **The search.** The smallest index of a text that is not empty, and `UINT32_MAX` if there is none; a read outside
would be a fault. -/
theorem strnstrn_finds (big little : Bytes) :
    (∀ i, little ≠ [] → little <+: big.drop i → (∀ j < i, ¬ little <+: big.drop j) → strnstrn big 0 big.length little = .ok i) ∧
    (little = [] ∨ (∀ i, ¬ little <+: big.drop i) → strnstrn big 0 big.length little = .ok 4294967295) := by
  constructor
  · intro i hlittle hi hbefore
    rcases strnstrn_place big little 0 _ (Nat.zero_add _) hlittle with ⟨r, hr, hfirst, hrun⟩ | ⟨hnone, -⟩
    · obtain rfl : r = i := by
        rcases Nat.lt_trichotomy r i with hlt | heq | hlt
        · exact absurd hr (hbefore r hlt)
        · exact heq
        · exact absurd hi (hfirst i hlt)
      exact hrun
    · exact absurd hi (hnone i)
  · intro hnone
    by_cases hlittle : little = []
    · exact if_neg (by simp [hlittle])
    rcases strnstrn_place big little 0 _ (Nat.zero_add _) hlittle with ⟨r, hr, -⟩ | ⟨-, hrun⟩
    · exact absurd hr (hnone.resolve_left hlittle r)
    · exact hrun

end

end MbedCloud.Update

