import Mathlib.Data.List.Basic

/-!
# Segments of a list

`At p a bs`: the list `bs` stands in `p` from index `a` on. Segments that follow each other
are one segment (`at_append`), so that what a parser has consumed up to an index can be
collected piece by piece (`At.take`).
-/

namespace MbedCloud.Lib

open List

variable {α : Type}

/-- The elements of `p` from index `a` on begin with `bs`. -/
def At (p : List α) (a : Nat) (bs : List α) : Prop := ∀ i, i < bs.length → p[a + i]? = bs[i]?

theorem at_nil (p : List α) (a : Nat) : At p a [] := by
  intro i hi
  simp at hi

variable {a : Nat} {p : List α} {bs : List α}

theorem at_append {bs cs : List α} : At p a (bs ++ cs) ↔ At p a bs ∧ At p (a + bs.length) cs := by
  constructor
  · intro h
    constructor
    · intro i hi
      rw [h i (by rw [length_append]; omega), getElem?_append_left hi]
    intro i hi
    rw [Nat.add_assoc, h (bs.length + i) (by rw [length_append]; omega),
      getElem?_append_right (by omega), Nat.add_sub_cancel_left]
  · rintro ⟨hb, hc⟩ i hi
    rw [length_append] at hi
    by_cases hlt : i < bs.length
    · rw [hb i hlt, getElem?_append_left hlt]
    rw [getElem?_append_right (by omega), ← hc (i - bs.length) (by omega)]
    congr 1
    omega

theorem at_singleton {b : α} : At p a [b] ↔ p[a]? = some b := by
  constructor
  · intro h
    simpa using h 0 (by simp)
  intro h i hi
  rw [length_singleton, Nat.lt_one_iff] at hi
  simp [hi, h]

theorem at_cons {b : α} : At p a (b :: bs) ↔ p[a]? = some b ∧ At p (a + 1) bs := by
  rw [← singleton_append, at_append, at_singleton]
  rfl

theorem at_take_drop (p : List α) (a n : Nat) : At p a ((p.drop a).take n) := by
  intro i hi
  rw [length_take, length_drop] at hi
  rw [getElem?_take_of_lt (by omega), getElem?_drop]

theorem exists_at {n : Nat} (h : a + n ≤ p.length) : ∃ bs, At p a bs ∧ bs.length = n :=
  ⟨_, at_take_drop p a n, by rw [List.length_take, List.length_drop]; omega⟩

theorem At.le_length (h : At p a bs) (hne : bs ≠ []) : a + bs.length ≤ p.length := by
  have hpos := length_pos_iff.mpr hne
  have hlast := h (bs.length - 1) (by omega)
  rw [getElem?_eq_getElem (show bs.length - 1 < bs.length by omega)] at hlast
  have := List.getElem?_eq_some_iff.mp hlast |>.1
  omega

/-- What has been consumed up to `a`, and then the segment. -/
theorem At.take (h : At p a bs) (ha : a ≤ p.length) : p.take (a + bs.length) = p.take a ++ bs := by
  apply ext_getElem?
  intro i
  rw [getElem?_append, length_take, Nat.min_eq_left ha]
  by_cases hi : i < a
  · rw [if_pos hi, getElem?_take_of_lt (by omega), getElem?_take_of_lt hi]
  rw [if_neg hi]
  by_cases hb : i < a + bs.length
  · rw [getElem?_take_of_lt hb, ← h (i - a) (by omega)]
    congr 1
    omega
  · rw [getElem?_eq_none (by rw [length_take]; omega), getElem?_eq_none (by omega)]

end MbedCloud.Lib

