import Mathlib.Algebra.Order.Ring.Nat
import MbedCloud.Coap.Parser
import Mathlib.Algebra.BigOperators.Group.List.Basic

/-!
# Runs of a repeatable option

An option with delta `0` repeats the option before it. The parser handles such a run in
one go: `optionsCountNeededMemoryMultipleOption` walks over it and adds up the lengths, and
the copying loop walks over it again.

This file describes the run by the bytes of the packet alone. `nextInstance` reads the
header of the next instance, `Chain` is a number of instances in a row, `RunEnds` says that
the run is over. Indices are relative to `start`, the last header byte of the first
instance, and as in the source they are 16-bit values: an instance whose value ends behind
index `65535` continues at the start of the run.
-/

namespace MbedCloud.Coap.Parser

open Lib

/-! ## Reads -/

variable {a : Nat} {mem : Mem} {b : UInt8}

theorem rdByte_of_some (h : mem a = some b) : rdByte mem a = .ok b := by simp only [rdByte, h]

theorem rd_of_some (h : mem a = some b) : rd mem a = .ok b.toNat := by
  simp only [rd, rdByte_of_some h]
  rfl

theorem rd_of_none (h : mem a = none) : rd mem a = .error (.fail (.read a)) := by
  simp only [rd, rdByte, h]
  rfl

theorem settles_rdByte (mem : Mem) (a : Nat) : Settles (mem a = none) (rdByte mem a) (mem a = some ·) := by
  cases h : mem a with
  | none => exact .inl ⟨rfl, .read a, by simp only [rdByte, h]⟩
  | some b => exact .inr ⟨by simp, b, rdByte_of_some h, rfl⟩

theorem settles_rd (mem : Mem) (a : Nat) : Settles (mem a = none) (rd mem a) fun v => ∃ b, mem a = some b ∧ b.toNat = v :=
  (settles_rdByte mem a).map fun b hb => ⟨b, hb, rfl⟩

/-- A byte is missing among the `n` bytes from `a` on. -/
def Gap (mem : Mem) (a n : Nat) : Prop := ∃ i < n, mem (a + i) = none

theorem not_gap_zero (mem : Mem) (a : Nat) : ¬ Gap mem a 0 := fun ⟨_, hi, _⟩ => Nat.not_lt_zero _ hi

theorem gap_succ (mem : Mem) (a n : Nat) : Gap mem a (n + 1) ↔ mem a = none ∨ Gap mem (a + 1) n := by
  constructor
  · rintro ⟨i, hi, hnone⟩
    cases i with
    | zero => exact .inl hnone
    | succ i => exact .inr ⟨i, by omega, by rwa [Nat.add_assoc, Nat.add_comm 1]⟩
  · rintro (hnone | ⟨i, hi, hnone⟩)
    · exact ⟨0, Nat.succ_pos n, hnone⟩
    · exact ⟨i + 1, by omega, by rwa [Nat.add_comm i, ← Nat.add_assoc]⟩

theorem gap_one (mem : Mem) (a : Nat) : Gap mem a 1 ↔ mem a = none := by simp [gap_succ, not_gap_zero]

theorem settles_rdBytes (mem : Mem) (len a : Nat) : Settles (Gap mem a len) (rdBytes mem a len) fun bs => bs.length = len := by
  induction len generalizing a with
  | zero => exact .congr (settles_pure rfl) (iff_of_false id (not_gap_zero mem a))
  | succ len ih =>
    refine ((settles_rdByte mem a).bind fun b _ => (ih (a + 1)).map fun bs hbs => ?_).congr (gap_succ mem a len).symm
    rw [List.length_cons, hbs]

theorem settles_optionsParseUint (mem : Mem) (len a v : Nat) :
    Settles (Gap mem a len) (optionsParseUint mem a len v) fun _ => True := by
  induction len generalizing a v with
  | zero => exact .congr (settles_pure trivial) (iff_of_false id (not_gap_zero mem a))
  | succ len ih => exact ((settles_rd mem a).bind fun b _ => ih (a + 1) _).congr (gap_succ mem a len).symm

/-- The number of extension bytes that a nibble calls for. -/
def extLen (v : Nat) : Nat := if v = 13 then 1 else if v = 14 then 2 else 0

theorem settles_extended (mem : Mem) (pos v : Nat) :
    Settles (Gap mem (pos + 1) (extLen v)) (extended mem pos v) fun r => r.2 = pos + extLen v := by
  unfold extended extLen
  split_ifs
  · exact .congr (.map (settles_rd mem (pos + 1)) fun _ _ => rfl) (gap_one mem _).symm
  · refine .congr (.bind (settles_rd mem (pos + 2)) fun _ _ => .map (settles_rd mem (pos + 1)) fun _ _ => rfl) ?_
    rw [gap_succ, gap_one, or_comm]
  · exact .congr (settles_pure rfl) (iff_of_false id (not_gap_zero mem _))

/-! ## The instances of a run -/

/-- The header of the next instance at index `e`: the index of its value and its length.
`none` when there is no further instance, or its header is not valid. -/
def nextInstance (mem : Mem) (start left e : Nat) : Option (Nat × Nat) :=
  match mem (start + e) with
  | none => none
  | some b =>
    if b.toNat / 16 ≠ 0 then none
    else if b.toNat % 16 = 13 then
      if left ≤ e + 1 then none
      else (mem (start + (e + 1))).map fun v => (e + 2, v.toNat + 13)
    else if b.toNat % 16 = 14 then
      if left ≤ e + 2 then none
      else
        match mem (start + e + 2), mem (start + e + 1) with
        | some lo, some hi => some (e + 3, u16 (lo.toNat + (hi.toNat * 256 + 269)))
        | _, _ => none
    else if b.toNat % 16 = 15 then none
    else some (e + 1, b.toNat % 16)

theorem nextInstance_le {start left e i len : Nat} (he : e < left)
    (h : nextInstance mem start left e = some (i, len)) : i ≤ left ∧ e < i := by
  unfold nextInstance at h
  split at h
  · cases h
  split at h
  · cases h
  split at h
  · split_ifs at h
    simp only [Option.map_eq_some_iff, Prod.mk.injEq] at h
    omega
  split at h
  · split_ifs at h
    split at h
    · simp only [Option.some.injEq, Prod.mk.injEq] at h
      omega
    · cases h
  · split_ifs at h
    simp only [Option.some.injEq, Prod.mk.injEq] at h
    omega

/-- `ls` are the lengths of consecutive instances: the first has its value at `i` and the
length `len`; behind the last of `ls` comes an instance with its value at `j` and the
length `l`. -/
inductive Chain (mem : Mem) (start left : Nat) (o : OptionNumber) :
    Nat → Nat → List Nat → Nat → Nat → Prop where
  | nil (i len : Nat) : Chain mem start left o i len [] i len
  | cons {i len i' len' j l : Nat} {ls : List Nat} : tooLong o len = false → u16 (i + len) < left →
      nextInstance mem start left (u16 (i + len)) = some (i', len') →
      Chain mem start left o i' len' ls j l →
      Chain mem start left o i len (len :: ls) j l

/-- The instance at `i` is the last one of the run: the packet is over (`atEnd`), or an
option with another number follows. -/
def RunEnds (mem : Mem) (start left : Nat) (o : OptionNumber) (i len : Nat) (atEnd : Bool) :
    Prop :=
  tooLong o len = false ∧
    if atEnd then u16 (i + len) = left
    else u16 (i + len) < left ∧ ∃ b, mem (start + u16 (i + len)) = some b ∧ b.toNat / 16 ≠ 0

/-- The run that starts with an instance of length `len` has the instances `ls`. -/
def Run (mem : Mem) (start left : Nat) (o : OptionNumber) (len : Nat) (ls : List Nat)
    (atEnd : Bool) : Prop :=
  ∃ ls' i l, Chain mem start left o 1 len ls' i l ∧ RunEnds mem start left o i l atEnd ∧ ls = ls' ++ [l]

/-- The run has no end: the instances come round to the start of the run again and again. -/
def EndlessRun (mem : Mem) (start left : Nat) (o : OptionNumber) (len : Nat) : Prop :=
  ∀ k, ∃ ls i l, ls.length = k ∧ Chain mem start left o 1 len ls i l

/-- The bytes of the instances with a separator after each of them. -/
def total (ls : List Nat) : Nat := (ls.map (· + 1)).sum

@[simp]
theorem total_nil : total [] = 0 := rfl

@[simp]
theorem total_cons (l : Nat) (ls : List Nat) : total (l :: ls) = l + 1 + total ls := by simp [total]

@[simp]
theorem total_append (ls ls' : List Nat) : total (ls ++ ls') = total ls + total ls' := by simp [total]

def runNeeded (ls : List Nat) (atEnd : Bool) : Int :=
  if atEnd then countResult (u16 (total ls)) else i16 ((u16 (total ls) : Int) - 1)

/-! ## One step of the counting loop -/

section

variable {start left : Nat} {o : OptionNumber}

theorem u16_of_lt {x : Nat} (h : x < 65536) : u16 x = x := Nat.mod_eq_of_lt h

theorem u16_le (x : Nat) : u16 x ≤ x := Nat.mod_le _ _

theorem u16_add (x y : Nat) : u16 (u16 x + y) = u16 (x + y) := Nat.mod_add_mod ..

/-- A byte before `stop` is missing. -/
def Missing (mem : Mem) (stop : Nat) (e : Stop Fault) : Prop := ∃ a < stop, mem a = none ∧ e = .fail (.read a)

theorem yields_rd {a stop : Nat} (h : a < stop) : Yields (Missing mem stop) (rd mem a) fun _ => True := by
  cases hb : mem a with
  | none => exact .inl ⟨_, ⟨a, h, hb, rfl⟩, rd_of_none hb⟩
  | some b => exact .inr ⟨_, rd_of_some hb, trivial⟩

variable (mem start left o) in
/-- The counting loop checks its index before every read. -/
theorem yields_countStep (s : Count) : Yields (Missing mem (start + left)) (countStep mem start left o s) fun _ => True := by
  unfold countStep
  split
  · exact yields_pure trivial
  split
  · exact yields_pure trivial
  dsimp only
  generalize u16 (s.i + s.optionNumberLen) = e
  split
  · exact yields_pure trivial
  split
  · exact yields_pure trivial
  have hle := u16_le (e + 1)
  refine yields_bind (yields_rd (by omega)) fun b _ => ?_
  split
  · exact yields_pure trivial
  split
  · split
    · exact yields_pure trivial
    · exact yields_bind (yields_rd (by omega)) fun _ _ => yields_pure trivial
  split
  · split
    · exact yields_pure trivial
    · exact yields_bind (yields_rd (by omega)) fun _ _ => yields_bind (yields_rd (by omega)) fun _ _ => yields_pure trivial
  · split <;> exact yields_pure trivial

variable {i r len j l k : Nat} {atEnd : Bool}

/-- The steps that stay in the loop: a further instance follows. -/
theorem countStep_more_iff (hleft : left < 65536) {s' : Count} :
    countStep mem start left o ⟨i, r, len⟩ = .ok (.more s') ↔ i ≤ left ∧ tooLong o len = false ∧ u16 (i + len) < left ∧
        ∃ i' len', nextInstance mem start left (u16 (i + len)) = some (i', len') ∧ s' = ⟨i', u16 (r + (len + 1)), len'⟩ := by
  unfold countStep nextInstance
  generalize u16 (i + len) = e
  by_cases hi : left < i
  · simp [hi, pure, Except.pure]
  cases hlen : tooLong o len with
  | true => simp [hi, pure, Except.pure]
  | false =>
    by_cases he : e < left
    · cases hb : mem (start + e) with
      | none => simp [hi, he.ne, Nat.not_lt.mpr he.le, rd_of_none hb, bind, Except.bind]
      | some b =>
        have h1 : u16 (e + 1) = e + 1 := u16_of_lt (by omega)
        simp only [Nat.not_lt.mp hi, hi, he, he.ne, Nat.not_lt.mpr he.le, rd_of_some hb, bind,
          Except.bind, pure, Except.pure, h1, if_false, Bool.false_eq_true, true_and]
        split_ifs with hz h13 hb1 h14 hb2 h15
        · simp
        · simp
        · have h2 : u16 (e + 1 + 1) = e + 2 := u16_of_lt (by omega)
          cases hv : mem (start + (e + 1)) with
          | none => simp [rd_of_none hv]
          | some v => simp [rd_of_some hv, h2, eq_comm]
        · simp
        · have h2 : u16 (u16 (e + 2) + 1) = e + 3 := by rw [u16_of_lt (show e + 2 < 65536 by omega), u16_of_lt (by omega)]
          cases hlo : mem (start + e + 2) with
          | none => simp [rd_of_none hlo]
          | some lo =>
            cases hhi : mem (start + e + 1) with
            | none => simp [rd_of_some hlo, rd_of_none hhi]
            | some hi' => simp [rd_of_some hlo, rd_of_some hhi, h2, eq_comm]
        · simp
        · simp [eq_comm]
    · by_cases heq : e = left
      · simp [hi, heq, pure, Except.pure]
      · simp [hi, he, heq, show left < e by omega, pure, Except.pure]

theorem countStep_done (hi : i ≤ left) (h : RunEnds mem start left o i len atEnd) :
    countStep mem start left o ⟨i, r, len⟩ = .ok (.done
      (if atEnd then countResult (u16 (r + (len + 1)))
        else i16 ((u16 (r + (len + 1)) : Int) - 1))) := by
  obtain ⟨hlen, hend⟩ := h
  unfold countStep
  simp only [hlen, if_neg (Nat.not_lt.mpr hi), Bool.false_eq_true, if_false]
  cases atEnd with
  | true =>
    simp only [if_true] at hend ⊢
    rw [if_pos hend]
    rfl
  | false =>
    simp only [Bool.false_eq_true, if_false] at hend ⊢
    obtain ⟨he, b, hb, hz⟩ := hend
    rw [if_neg (by omega), if_neg (by omega), rd_of_some hb]
    simp only [bind, Except.bind, pure, Except.pure, if_pos hz]

variable {v : Int} {ls : List Nat}

/-- The steps that leave the loop: past the end of the packet, at the end of a run, or
with `-1`. -/
theorem countStep_done_inv (h : countStep mem start left o ⟨i, r, len⟩ = .ok (.done v)) :
    (left < i ∧ v = countResult r) ∨ v = -1 ∨
      (i ≤ left ∧ ∃ atEnd, RunEnds mem start left o i len atEnd ∧
        v = if atEnd then countResult (u16 (r + (len + 1)))
          else i16 ((u16 (r + (len + 1)) : Int) - 1)) := by
  unfold countStep at h
  simp only [bind, Except.bind, pure, Except.pure] at h
  split at h
  · rename_i hi
    cases h
    exact .inl ⟨hi, rfl⟩
  rename_i hi
  right
  split at h
  · cases h
    exact .inl rfl
  rename_i hlen
  split at h
  · rename_i he
    cases h
    exact .inr ⟨by simpa using hi, true, ⟨by simpa using hlen, by simpa using he⟩, rfl⟩
  split at h
  · cases h
    exact .inl rfl
  split at h
  · cases h
  rename_i w hw
  obtain ⟨b, hb, rfl⟩ := ((settles_rd mem _).of_ok hw).2
  split at h
  · rename_i hz
    cases h
    refine .inr ⟨by simpa using hi, false, ⟨by simpa using hlen, ?_⟩, rfl⟩
    exact ⟨by omega, b, hb, hz⟩
  left
  split at h
  · split at h
    · cases h
      rfl
    · split at h <;> cases h
  split at h
  · split at h
    · cases h
      rfl
    · split at h
      · cases h
      · split at h <;> cases h
  · split at h
    · cases h
      rfl
    · cases h

/-! ## The whole counting loop -/

theorem Chain.le (hi : i ≤ left) (h : Chain mem start left o i len ls j l) : j ≤ left := by
  induction h with
  | nil i len => exact hi
  | cons _ he hn _ ih => exact ih (nextInstance_le he hn).1

theorem loop_chain (hleft : left < 65536) (hi : i ≤ left) (h : Chain mem start left o i len ls j l) (r k : Nat) :
    loop (countStep mem start left o) (k + ls.length) ⟨i, u16 r, len⟩ =
      loop (countStep mem start left o) k ⟨j, u16 (r + total ls), l⟩ := by
  induction h generalizing r with
  | nil i len => simp
  | @cons i len i' len' j l ls hlen he hn _ ih =>
    rw [List.length_cons, ← Nat.add_assoc, loop, (countStep_more_iff hleft).mpr ⟨hi, hlen, he, _, _, hn, rfl⟩]
    simp only [u16_add, ih (nextInstance_le he hn).1, total_cons, Nat.add_assoc]

theorem loop_count_ok (hleft : left < 65536) (h : loop (countStep mem start left o) k ⟨i, u16 r, len⟩ = .ok v) :
    ∃ ls j l, Chain mem start left o i len ls j l ∧ countStep mem start left o ⟨j, u16 (r + total ls), l⟩ = .ok (.done v) := by
  induction k generalizing i r len with
  | zero => cases h
  | succ k ih =>
    rw [loop] at h
    split at h
    · cases h
    · rename_i v' hs
      cases h
      exact ⟨[], i, len, .nil _ _, by simpa using hs⟩
    rename_i s' hs
    obtain ⟨_, hlen, he, i', len', hn, rfl⟩ := (countStep_more_iff hleft).mp hs
    rw [u16_add] at h
    obtain ⟨ls, j, l, hc, hd⟩ := ih h
    refine ⟨len :: ls, j, l, .cons hlen he hn hc, ?_⟩
    rw [total_cons, ← Nat.add_assoc]
    exact hd

theorem loop_count_fuel (hleft : left < 65536) (h : loop (countStep mem start left o) k ⟨i, r, len⟩ = .error .fuel) :
    ∃ ls j l, ls.length = k ∧ Chain mem start left o i len ls j l := by
  induction k generalizing i r len with
  | zero => exact ⟨[], i, len, rfl, .nil _ _⟩
  | succ k ih =>
    rw [loop] at h
    split at h
    · rename_i e hs
      cases h
      rcases yields_countStep mem start left o ⟨i, r, len⟩ with
        ⟨_, ⟨_, _, _, rfl⟩, he⟩ | ⟨_, he, -⟩ <;> cases he.symm.trans hs
    · cases h
    rename_i s' hs
    obtain ⟨_, hlen, he, i', len', hn, rfl⟩ := (countStep_more_iff hleft).mp hs
    obtain ⟨ls, j, l, hk, hc⟩ := ih h
    exact ⟨len :: ls, j, l, by simp [hk], .cons hlen he hn hc⟩

theorem mono_count (len : Nat) : Mono (fun k => optionsCountNeededMemoryMultipleOption k mem start left o len) :=
  mono_loop_const _ _

theorem u16_add_total (ls : List Nat) (l : Nat) : u16 (u16 (0 + total ls) + (l + 1)) = u16 (total (ls ++ [l])) := by
  rw [u16_add, Nat.zero_add, total_append]
  rfl

theorem count_of_run (hleft : left < 65536) (hpos : 1 ≤ left) (h : Run mem start left o len ls atEnd) :
    Outcome (fun k => optionsCountNeededMemoryMultipleOption k mem start left o len) (.ok (runNeeded ls atEnd)) := by
  obtain ⟨ls', i, l, hc, he, rfl⟩ := h
  refine ⟨by simp, 1 + ls'.length, ?_⟩
  refine (loop_chain hleft hpos hc 0 1).trans ?_
  rw [loop, countStep_done (hc.le hpos) he, u16_add_total]
  rfl

/-- An outcome other than `-1` comes from a run. With nothing left of the packet, the loop
is not entered. -/
theorem count_outcome (hleft : left < 65536)
    (h : Outcome (fun k => optionsCountNeededMemoryMultipleOption k mem start left o len) (.ok v)) (hv : v ≠ -1) :
    (left = 0 ∧ v = 0) ∨ (1 ≤ left ∧ ∃ ls atEnd, Run mem start left o len ls atEnd ∧ v = runNeeded ls atEnd) := by
  obtain ⟨-, k, hk⟩ := h
  obtain ⟨ls, j, l, hc, hd⟩ := loop_count_ok (i := 1) (r := 0) hleft hk
  by_cases hpos : 1 ≤ left
  · right
    refine ⟨hpos, ?_⟩
    have hj := hc.le hpos
    rcases countStep_done_inv hd with ⟨hlt, -⟩ | h1 | ⟨-, atEnd, he, rfl⟩
    · omega
    · exact absurd h1 hv
    refine ⟨ls ++ [l], atEnd, ⟨ls, j, l, hc, he, rfl⟩, ?_⟩
    rw [u16_add_total]
    rfl
  · left
    refine ⟨by omega, ?_⟩
    cases hc with
    | nil =>
      rcases countStep_done_inv hd with ⟨-, rfl⟩ | h1 | ⟨hle, -⟩
      · rfl
      · exact absurd h1 hv
      · omega
    | cons _ he _ _ => omega

theorem EndlessRun.pos (h : EndlessRun mem start left o len) : 1 ≤ left := by
  obtain ⟨ls, i, l, hk, hc⟩ := h 1
  cases hc with
  | nil => simp at hk
  | cons _ he _ _ => omega

theorem count_diverges_iff (hleft : left < 65536) :
    Diverges (fun k => optionsCountNeededMemoryMultipleOption k mem start left o len) ↔ EndlessRun mem start left o len := by
  constructor
  · exact fun h k => loop_count_fuel hleft (h k)
  intro h k
  have hpos := h.pos
  obtain ⟨ls, i, l, hk, hc⟩ := h k
  have hl := loop_chain hleft hpos hc 0 0
  rw [Nat.zero_add, hk] at hl
  exact hl

end

end MbedCloud.Coap.Parser

