import Mathlib.Data.List.Basic
import Mathlib.Data.List.Pairwise

/-!
# Linked lists in a memory of words

An entry `e` of a list is stored in two words: the word `e` points to the next entry, and the word
`e + 1` to the word that points to `e`. The head `l` of the list is stored in the same way: the word `l` points
to the first entry, and the word `l + 1` to the word that ends the list.
-/

namespace MbedCloud.Lib

open List

abbrev Mem := Nat → Int

namespace Mem

def write (m : Mem) (a : Nat) (v : Int) : Mem := fun x => if x = a then v else m x

/-- The word at `a`, taken as an address. -/
def pointer (m : Mem) (a : Nat) : Nat := (m a).toNat

theorem write_self (m : Mem) (a : Nat) (v : Int) : m.write a v a = v := if_pos rfl

theorem write_ne (m : Mem) {a x : Nat} (v : Int) (h : x ≠ a) : m.write a v x = m x := if_neg h

theorem pointer_eq {m : Mem} {a p : Nat} (h : m a = p) : m.pointer a = p := by rw [pointer, h, Int.toNat_natCast]

end Mem

def Apart (x y : Nat) : Prop := x + 1 < y ∨ y + 1 < x

theorem Apart.symm {x y : Nat} (h : Apart x y) : Apart y x := Or.symm h

instance : Std.Symm Apart := ⟨fun _ _ => Apart.symm⟩

/-- The entries that follow on a pointer. -/
def Linked (m : Mem) : Nat → List Nat → Prop
  | _, [] => True
  | p, e :: es => m p = e ∧ m (e + 1) = p ∧ Linked m e es

/-- The pointer that ends a list. -/
def lastLink : Nat → List Nat → Nat
  | p, [] => p
  | _, e :: es => lastLink e es

/-- The word that points back to what stands before the entries `es`. -/
def backLink (l : Nat) (es : List Nat) : Nat := es.headD l + 1

variable {m m' : Mem} {l p e : Nat} {es as bs : List Nat}

theorem lastLink_mem (p : Nat) (es : List Nat) : lastLink p es ∈ p :: es := by
  induction es generalizing p with
  | nil => exact .head _
  | cons e es ih => exact mem_cons_of_mem p (ih e)

theorem lastLink_append (p : Nat) (as bs : List Nat) : lastLink p (as ++ bs) = lastLink (lastLink p as) bs := by
  induction as generalizing p with
  | nil => rfl
  | cons a as ih => exact ih a

theorem linked_append : Linked m p (as ++ bs) ↔ Linked m p as ∧ Linked m (lastLink p as) bs := by
  induction as generalizing p with
  | nil => exact ⟨fun h => ⟨.intro, h⟩, fun h => h.2⟩
  | cons a as ih => rw [cons_append, Linked, Linked, lastLink, ih, and_assoc, and_assoc]

/-- The word that ends the list does not matter. -/
theorem Linked.congr (h : Linked m p es) (hnodup : (p :: es).Nodup)
    (hnext : ∀ x ∈ p :: es, x ≠ lastLink p es → m' x = m x) (hprev : ∀ x ∈ es, m' (x + 1) = m (x + 1)) :
    Linked m' p es := by
  induction es generalizing p with
  | nil => exact .intro
  | cons e es ih =>
    obtain ⟨hp, he, hes⟩ := h
    have hne : p ≠ lastLink e es := fun heq => (nodup_cons.mp hnodup).1 (heq ▸ lastLink_mem e es)
    refine ⟨?_, ?_, ih hes (nodup_cons.mp hnodup).2 ?_ fun x hx => hprev x (mem_cons_of_mem e hx)⟩
    · rw [hnext p mem_cons_self hne, hp]
    · rw [hprev e mem_cons_self, he]
    · exact fun x hx hlast => hnext x (mem_cons_of_mem p hx) hlast

structure IsList (m : Mem) (l : Nat) (es : List Nat) : Prop where
  linked : Linked m l es
  nonzero : ∀ e ∈ es, e ≠ 0
  last : m (lastLink l es) = 0
  tail : m (l + 1) = lastLink l es
  apart : (l :: es).Pairwise Apart

namespace IsList

variable {x y c k : Nat}

/-- Two cells of a list. -/
theorem cells (h : IsList m l es) (hx : x ∈ l :: es) (hy : y ∈ l :: es) : x = y ∨ x + 1 < y ∨ y + 1 < x := by
  by_cases heq : x = y
  · exact .inl heq
  · exact .inr (h.apart.forall hx hy heq)

theorem nodup (h : IsList m l es) : (l :: es).Nodup := by
  refine h.apart.imp ?_
  rintro a b (hab | hab) <;> omega

theorem congr (h : IsList m l es) (hcells : ∀ x ∈ l :: es, m' x = m x ∧ m' (x + 1) = m (x + 1)) : IsList m' l es where
  linked := h.linked.congr h.nodup (fun x hx _ => (hcells x hx).1) fun x hx => (hcells x (mem_cons_of_mem l hx)).2
  nonzero := h.nonzero
  last := by rw [(hcells _ (lastLink_mem l es)).1, h.last]
  tail := by rw [(hcells l (.head _)).2, h.tail]
  apart := h.apart

/-- The pointer behind the entries `as`. -/
theorem next (h : IsList m l (as ++ bs)) : m (lastLink l as) = (bs.headD 0 : Nat) := by
  cases bs with
  | nil =>
    have hlast := h.last
    rw [append_nil] at hlast
    exact hlast
  | cons b bs => exact (linked_append.mp h.linked).2.1

theorem next_entry (h : IsList m l (as ++ e :: bs)) : m e = (bs.headD 0 : Nat) := by
  rw [append_cons] at h
  have hnext := h.next
  rwa [lastLink_append] at hnext

/-- The word that points back to the entries `as`. -/
theorem back (h : IsList m l (as ++ bs)) : m (backLink l bs) = lastLink l as := by
  cases bs with
  | nil =>
    have htail := h.tail
    rw [append_nil] at htail
    exact htail
  | cons b bs => exact (linked_append.mp h.linked).2.2.1

theorem front_mem (bs : List Nat) (hx : x ∈ l :: as) : x ∈ l :: (as ++ bs) := by exact mem_append_left bs hx

theorem rest_mem (hx : x ∈ bs) : x ∈ l :: (as ++ bs) := mem_cons_of_mem l (mem_append_right as hx)

theorem head_mem (l : Nat) (bs : List Nat) : bs.headD l ∈ l :: bs := by
  cases bs with
  | nil => exact .head _
  | cons b bs => exact mem_cons_of_mem l (.head _)

theorem apart_rest (h : IsList m l (as ++ bs)) (hx : x ∈ l :: as) (hy : y ∈ bs) : x + 1 < y ∨ y + 1 < x := by
  have hpair := h.apart
  rw [← cons_append, pairwise_append] at hpair
  exact hpair.2.2 x hx y hy

/-- The entries `as` are still linked if the only one of their words that changes is the last pointer. -/
theorem linked_front (h : IsList m l (as ++ bs)) (hc : ∀ x ∈ l :: as, Apart x c) (hk : k ∈ l :: bs)
    (hframe : ∀ x, x ≠ lastLink l as → x ≠ c → x ≠ c + 1 → x ≠ k + 1 → m' x = m x) : Linked m' l as := by
  have hnodup := h.nodup
  have hk' : k ∈ l :: (as ++ bs) := by
    rcases mem_cons.mp hk with rfl | hk
    · exact .head _
    · exact rest_mem hk
  refine (linked_append.mp h.linked).1.congr (nodup_append.mp hnodup).1 ?_ ?_
  · intro x hx hlast
    have hback := h.cells (front_mem _ hx) hk'
    apply hframe x hlast <;> have := hc x hx <;> unfold Apart at this <;> omega
  intro x hx
  have hx' := mem_cons_of_mem l hx
  have hlast := h.cells (front_mem _ hx') (front_mem _ (lastLink_mem l as))
  have hne : x ≠ k := by
    rcases mem_cons.mp hk with rfl | hk
    · exact fun heq => (nodup_cons.mp (nodup_append.mp hnodup).1).1 (heq ▸ hx)
    · have := h.apart_rest hx' hk
      omega
  apply hframe (x + 1) <;> have := hc x hx' <;> unfold Apart at this <;> omega

/-- The entries behind a changed pointer are still linked. -/
theorem linked_rest {b : Nat} (h : IsList m l (as ++ b :: bs)) (hc : ∀ x ∈ b :: bs, Apart x c)
    (hk : k ∈ l :: as) (hframe : ∀ x, x ≠ k → x ≠ c → x ≠ c + 1 → x ≠ b + 1 → m' x = m x) :
    Linked m' b bs ∧ m' (lastLink b bs) = 0 := by
  have hpair := h.apart
  rw [← cons_append, pairwise_append] at hpair
  have hnext : ∀ x ∈ b :: bs, m' x = m x := by
    intro x hx
    have hlast := h.apart_rest hk hx
    have hb := h.cells (rest_mem hx) (rest_mem (.head _))
    apply hframe <;> have := hc x hx <;> unfold Apart at this <;> omega
  refine ⟨(linked_append.mp h.linked).2.2.2.congr ?_ (fun x hx _ => hnext x hx) ?_, ?_⟩
  · refine hpair.2.1.imp ?_
    rintro a b (hab | hab) <;> omega
  · intro x hx
    have hx' := mem_cons_of_mem b hx
    have hlast := h.apart_rest hk hx'
    have hb := rel_of_pairwise_cons hpair.2.1 hx
    unfold Apart at hb
    apply hframe <;> have := hc x hx' <;> unfold Apart at this <;> omega
  · rw [hnext _ (lastLink_mem b bs)]
    have hlast := h.last
    rw [lastLink_append] at hlast
    exact hlast

/-- A new entry `e` behind the entries `as`. -/
theorem insert (h : IsList m l (as ++ bs)) (he : e ≠ 0) (hapart : ∀ x ∈ l :: (as ++ bs), Apart x e)
    (hlast : m' (lastLink l as) = e) (hnext : m' e = m (lastLink l as)) (hprev : m' (e + 1) = lastLink l as)
    (hback : m' (backLink l bs) = e)
    (hframe : ∀ x, x ≠ lastLink l as → x ≠ e → x ≠ e + 1 → x ≠ backLink l bs → m' x = m x) :
    IsList m' l (as ++ e :: bs) where
  linked := by
    refine linked_append.mpr ⟨h.linked_front (fun x hx => hapart x (front_mem _ hx)) (head_mem l bs) hframe, hlast, hprev, ?_⟩
    cases bs with
    | nil => exact .intro
    | cons b bs =>
      refine ⟨?_, hback, (h.linked_rest (fun x hx => hapart x (rest_mem hx)) (lastLink_mem l as) hframe).1⟩
      rw [hnext, h.next]
      rfl
  nonzero := by
    intro x hx
    rcases mem_append.mp hx with hx | hx
    · exact h.nonzero x (mem_append_left bs hx)
    rcases mem_cons.mp hx with rfl | hx
    · exact he
    · exact h.nonzero x (mem_append_right as hx)
  last := by
    rw [lastLink_append, lastLink]
    cases bs with
    | nil =>
      rw [lastLink, hnext, h.next]
      rfl
    | cons b bs => exact (h.linked_rest (fun x hx => hapart x (rest_mem hx)) (lastLink_mem l as) hframe).2
  tail := by
    rw [lastLink_append, lastLink]
    cases bs with
    | nil => exact hback
    | cons b bs =>
      have hl := hapart l (.head _)
      have hb := h.apart_rest (mem_cons_self (a := l)) (mem_cons_self (a := b) (l := bs))
      have hend := h.cells (front_mem (b :: bs) (lastLink_mem l as)) (.head _ (a := l))
      have htail := h.tail
      unfold Apart at hl
      rw [lastLink_append] at htail
      rw [hframe (l + 1) (by omega) (by omega) (by omega), htail]
      · rfl
      unfold backLink
      rw [headD_cons]
      omega
  apart := by
    have hpair := h.apart
    rw [← cons_append] at hpair ⊢
    rw [pairwise_append] at hpair ⊢
    refine ⟨hpair.1, pairwise_cons.mpr ⟨fun x hx => (hapart x (rest_mem hx)).symm, hpair.2.1⟩, ?_⟩
    intro x hx y hy
    rcases mem_cons.mp hy with rfl | hy
    · exact hapart x (front_mem _ hx)
    · exact hpair.2.2 x hx y hy

/-- The entry `e` behind the entries `as` is removed. -/
theorem remove (h : IsList m l (as ++ e :: bs)) (hlast : m' (lastLink l as) = m e) (hback : m' (backLink l bs) = lastLink l as)
    (hframe : ∀ x, x ≠ lastLink l as → x ≠ e → x ≠ e + 1 → x ≠ backLink l bs → m' x = m x) :
    IsList m' l (as ++ bs) := by
  have hrest : IsList m l (as ++ [e] ++ bs) := by
    rwa [← append_cons]
  have hpair := h.apart
  rw [← cons_append, pairwise_append] at hpair
  have hfront : ∀ x ∈ l :: as, Apart x e := fun x hx => hpair.2.2 x hx e (.head _)
  have hbehind : ∀ x ∈ bs, Apart x e := fun x hx => (rel_of_pairwise_cons hpair.2.1 hx).symm
  have hlink : lastLink l as ∈ l :: (as ++ [e]) := front_mem _ (lastLink_mem l as)
  have hkeep : Linked m' l as := h.linked_front hfront (cons_subset_cons l (subset_cons_self e bs) (head_mem l bs)) hframe
  have hlast0 := h.last
  have htail0 := h.tail
  rw [lastLink_append, lastLink] at hlast0 htail0
  cases bs with
  | nil =>
    rw [append_nil]
    refine ⟨hkeep, fun x hx => h.nonzero x (mem_append_left _ hx), ?_, hback, hpair.1⟩
    rw [hlast, h.next_entry]
    rfl
  | cons b bs =>
    obtain ⟨hbs, hend⟩ := hrest.linked_rest hbehind hlink hframe
    refine ⟨linked_append.mpr ⟨hkeep, ?_, hback, hbs⟩, ?_, ?_, ?_, ?_⟩
    · rw [hlast, h.next_entry]
      rfl
    · intro x hx
      rcases mem_append.mp hx with hx | hx
      · exact h.nonzero x (mem_append_left _ hx)
      · exact h.nonzero x (mem_append_right as (mem_cons_of_mem e hx))
    · rw [lastLink_append]
      exact hend
    · have hl := hfront l (.head _)
      have hb := hrest.apart_rest (mem_cons_self (a := l)) (mem_cons_self (a := b) (l := bs))
      have hcell := h.cells (front_mem (e :: b :: bs) (lastLink_mem l as)) (.head _ (a := l))
      unfold Apart at hl
      rw [lastLink_append, hframe (l + 1) (by omega) (by omega) (by omega), htail0]
      · rfl
      unfold backLink
      rw [headD_cons]
      omega
    · rw [← cons_append, pairwise_append]
      exact ⟨hpair.1, (pairwise_cons.mp hpair.2.1).2, fun x hx y hy => hpair.2.2 x hx y (mem_cons_of_mem e hy)⟩

end IsList

end MbedCloud.Lib

