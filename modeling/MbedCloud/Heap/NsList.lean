import Mathlib.Data.List.Induction
import MbedCloud.Lib.Links

/-!
# The lists of `ns_list.h`

Lists whose links are stored in the entries, for entries that consist of the link. A pointer takes one
word, and addresses count words.
-/

namespace MbedCloud.Heap

open Lib List

/-! ## Functions -/

/-- `NS_LIST_POISON` -/
def nsListPoison : Int := 0xDEADBEEF

def nsListInit (l : Nat) (m : Mem) : Mem := (m.write l 0).write (l + 1) l

def nsListGetFirst (l : Nat) (m : Mem) : Nat := m.pointer l

def nsListGetNext (current : Nat) (m : Mem) : Nat := m.pointer current

def nsListGetPrevious (l current : Nat) (m : Mem) : Nat := if current = m.pointer l then 0 else m.pointer (current + 1)

def nsListGetLast (l : Nat) (m : Mem) : Nat := if m.pointer l = 0 then 0 else m.pointer (l + 1)

/-- A new entry behind the pointer `nextptr`. -/
def addBehind (l nextptr entry : Nat) (m : Mem) : Mem :=
  let m := m.write (entry + 1) nextptr
  let next := m.pointer nextptr
  let m := m.write entry next
  let m := if next ≠ 0 then m.write (next + 1) entry else m.write (l + 1) entry
  m.write nextptr entry

def nsListAddToStart (l entry : Nat) (m : Mem) : Mem := addBehind l l entry m

def nsListAddAfter (l current entry : Nat) (m : Mem) : Mem := addBehind l current entry m

/-- A new entry with a given successor, to which the word behind `owner` points back. -/
def addInFront (owner next entry : Nat) (m : Mem) : Mem :=
  let m := m.write entry next
  let prevNextptr := m.pointer (owner + 1)
  let m := m.write (entry + 1) prevNextptr
  let m := m.write prevNextptr entry
  m.write (owner + 1) entry

def nsListAddBefore (current entry : Nat) (m : Mem) : Mem := addInFront current current entry m

def nsListAddToEnd (l entry : Nat) (m : Mem) : Mem := addInFront l 0 entry m

def nsListRemove (l removed : Nat) (m : Mem) : Mem :=
  let next := m.pointer removed
  let prevNextptr := m.pointer (removed + 1)
  let m := if next ≠ 0 then m.write (next + 1) prevNextptr else m.write (l + 1) prevNextptr
  let m := m.write prevNextptr next
  (m.write removed nsListPoison).write (removed + 1) nsListPoison

/-! ## What they do -/

section

variable {m : Mem} {l e : Nat} {es as bs : List Nat}

theorem nsListInit_isList (l : Nat) (m : Mem) : IsList (nsListInit l m) l [] where
  linked := True.intro
  nonzero := fun e he => nomatch he
  last := by rw [nsListInit, lastLink, Mem.write_ne _ _ (Nat.succ_ne_self l).symm, Mem.write_self]
  tail := Mem.write_self _ _ _
  apart := pairwise_singleton Apart l

/-- The words that change when `e` is added or removed behind the entries `as`. -/
def LinkChanged (l e : Nat) (as bs : List Nat) (x : Nat) : Prop := x = lastLink l as ∨ x = e ∨ x = e + 1 ∨ x = backLink l bs

theorem not_linkChanged {x : Nat} (hlast : x ≠ lastLink l as) (he : x ≠ e) (he' : x ≠ e + 1)
    (hback : x ≠ backLink l bs) : ¬ LinkChanged l e as bs x := by
  simp [LinkChanged, hlast, he, he', hback]

theorem backLink_of_next (h : IsList m l (as ++ bs)) : (if bs.headD 0 ≠ 0 then bs.headD 0 + 1 else l + 1) = backLink l bs := by
  cases bs with
  | nil => rfl
  | cons b bs => exact if_pos (h.nonzero b (mem_append_right as (.head _)))

theorem links_distinct (h : IsList m l (as ++ bs)) (hapart : ∀ x ∈ l :: (as ++ bs), Apart x e) :
    lastLink l as ≠ e ∧ lastLink l as ≠ e + 1 ∧ backLink l bs ≠ e ∧ backLink l bs ≠ e + 1 ∧ lastLink l as ≠ backLink l bs := by
  have hlast := IsList.front_mem bs (lastLink_mem l as)
  have hhead : bs.headD l ∈ l :: (as ++ bs) := cons_subset_cons l (subset_append_right as bs) (IsList.head_mem l bs)
  have h1 := hapart _ hlast
  have h2 := hapart _ hhead
  have h3 := h.cells hlast hhead
  unfold Apart at h1 h2
  unfold backLink
  omega

/-- The four words, as the links of `e` between its neighbours have to be. -/
theorem linked_isList (h : IsList m l (as ++ bs)) (he : e ≠ 0) (hapart : ∀ x ∈ l :: (as ++ bs), Apart x e) {m' : Mem}
    (hvalue : m' = (((m.write (e + 1) (lastLink l as)).write e (bs.headD 0 : Nat)).write (backLink l bs) e).write
      (lastLink l as) e) : IsList m' l (as ++ e :: bs) ∧ ∀ x, ¬ LinkChanged l e as bs x → m' x = m x := by
  obtain ⟨h1, h2, h3, h4, h5⟩ := links_distinct h hapart
  have hframe : ∀ x, ¬ LinkChanged l e as bs x → m' x = m x := by
    intro x hx
    unfold LinkChanged at hx
    push Not at hx
    rw [hvalue, Mem.write_ne _ _ hx.1, Mem.write_ne _ _ hx.2.2.2, Mem.write_ne _ _ hx.2.1, Mem.write_ne _ _ hx.2.2.1]
  refine ⟨h.insert he hapart ?_ ?_ ?_ ?_ fun x hx1 hx2 hx3 hx4 => hframe x (not_linkChanged hx1 hx2 hx3 hx4), hframe⟩
  · rw [hvalue, Mem.write_self]
  · rw [hvalue, Mem.write_ne _ _ h1.symm, Mem.write_ne _ _ h3.symm, Mem.write_self, h.next]
  · rw [hvalue, Mem.write_ne _ _ h2.symm, Mem.write_ne _ _ h4.symm, Mem.write_ne _ _ (Nat.succ_ne_self e), Mem.write_self]
  · rw [hvalue, Mem.write_ne _ _ h5.symm, Mem.write_self]

theorem addBehind_isList (h : IsList m l (as ++ bs)) (he : e ≠ 0) (hapart : ∀ x ∈ l :: (as ++ bs), Apart x e) :
    IsList (addBehind l (lastLink l as) e m) l (as ++ e :: bs) ∧
      ∀ x, ¬ LinkChanged l e as bs x → addBehind l (lastLink l as) e m x = m x := by
  have hnext : (m.write (e + 1) (lastLink l as)).pointer (lastLink l as) = bs.headD 0 := by
    apply Mem.pointer_eq
    rw [Mem.write_ne _ _ (links_distinct h hapart).2.1, h.next]
  refine linked_isList h he hapart ?_
  unfold addBehind
  dsimp only
  rw [hnext, ← backLink_of_next h]
  split <;> rfl

theorem nsListAddToStart_isList (h : IsList m l bs) (he : e ≠ 0) (hapart : ∀ x ∈ l :: bs, Apart x e) :
    IsList (nsListAddToStart l e m) l (e :: bs) ∧ ∀ x, ¬ LinkChanged l e [] bs x → nsListAddToStart l e m x = m x :=
  addBehind_isList (show IsList m l ([] ++ bs) from h) he hapart

theorem write_comm (m : Mem) {a b : Nat} (h : a ≠ b) (v w : Int) : (m.write a v).write b w = (m.write b w).write a v := by
  funext x
  unfold Mem.write
  grind

theorem addInFront_isList (h : IsList m l (as ++ bs)) (he : e ≠ 0) (hapart : ∀ x ∈ l :: (as ++ bs), Apart x e) :
    IsList (addInFront (bs.headD l) (bs.headD 0) e m) l (as ++ e :: bs) ∧
      ∀ x, ¬ LinkChanged l e as bs x → addInFront (bs.headD l) (bs.headD 0) e m x = m x := by
  obtain ⟨-, -, h3, -, h5⟩ := links_distinct h hapart
  have hprev : (m.write e (bs.headD 0 : Nat)).pointer (bs.headD l + 1) = lastLink l as := by
    apply Mem.pointer_eq
    exact (Mem.write_ne _ _ h3).trans h.back
  refine linked_isList h he hapart ?_
  unfold addInFront
  dsimp only
  rw [hprev, write_comm _ (Nat.succ_ne_self e), write_comm _ h5.symm]
  rfl

theorem nsListRemove_isList (h : IsList m l (as ++ e :: bs)) :
    IsList (nsListRemove l e m) l (as ++ bs) ∧ ∀ x, ¬ LinkChanged l e as bs x → nsListRemove l e m x = m x := by
  have hnext : m.pointer e = bs.headD 0 := Mem.pointer_eq h.next_entry
  have hprev : m.pointer (e + 1) = lastLink l as := Mem.pointer_eq h.back
  have hback : (if bs.headD 0 ≠ 0 then bs.headD 0 + 1 else l + 1) = backLink l bs := backLink_of_next (append_cons _ _ _ ▸ h)
  have hlast' := h.apart_rest (lastLink_mem l as) (.head _)
  have hhead : bs.headD l ∈ l :: (as ++ e :: bs) :=
    cons_subset_cons l (List.Subset.trans (subset_cons_self e bs) (subset_append_right as _)) (IsList.head_mem l bs)
  have hcells := h.cells hhead (IsList.rest_mem (.head _))
  have hends := h.cells hhead (IsList.front_mem _ (lastLink_mem l as))
  have hne : bs.headD l ≠ e := by
    have hnodup := h.nodup
    rw [← cons_append, nodup_append] at hnodup
    intro heq
    rcases mem_cons.mp (IsList.head_mem l bs) with hl | hmem
    · exact hnodup.2.2 l (.head _) e (.head _) (hl ▸ heq)
    · exact (nodup_cons.mp hnodup.2.1).1 (heq ▸ hmem)
  have hvalue : nsListRemove l e m =
      (((m.write (backLink l bs) (lastLink l as)).write (lastLink l as) (bs.headD 0 : Nat)).write e
        nsListPoison).write (e + 1) nsListPoison := by
    unfold nsListRemove
    rw [hnext, hprev, ← hback]
    dsimp only
    split <;> rfl
  have hframe : ∀ x, ¬ LinkChanged l e as bs x → nsListRemove l e m x = m x := by
    intro x hx
    unfold LinkChanged at hx
    push Not at hx
    rw [hvalue, Mem.write_ne _ _ hx.2.2.1, Mem.write_ne _ _ hx.2.1, Mem.write_ne _ _ hx.1, Mem.write_ne _ _ hx.2.2.2]
  refine ⟨h.remove ?_ ?_ fun x hx1 hx2 hx3 hx4 => hframe x (not_linkChanged hx1 hx2 hx3 hx4), hframe⟩
  · rw [hvalue, Mem.write_ne _ _ (by omega), Mem.write_ne _ _ (by omega), Mem.write_self, h.next_entry]
  · rw [hvalue, Mem.write_ne _ _ (by unfold backLink; omega), Mem.write_ne _ _ (by unfold backLink; omega),
      Mem.write_ne _ _ (by unfold backLink; omega), Mem.write_self]

/-! ## Going through a list -/

/-- The entries that a loop visits from `cur` on. -/
def Visits (next : Nat → Nat) : Nat → List Nat → Prop
  | cur, [] => cur = 0
  | cur, e :: es => cur = e ∧ e ≠ 0 ∧ Visits next (next e) es

theorem nsListGetFirst_eq (h : IsList m l es) : nsListGetFirst l m = es.headD 0 :=
  Mem.pointer_eq (IsList.next (show IsList m l ([] ++ es) from h))

theorem nsListGetNext_eq (h : IsList m l (as ++ e :: bs)) : nsListGetNext e m = bs.headD 0 := Mem.pointer_eq h.next_entry

theorem nsListGetPrevious_eq (h : IsList m l (as ++ e :: bs)) :
    nsListGetPrevious l e m = if as = [] then 0 else lastLink l as := by
  have hfirst : m.pointer l = (as ++ e :: bs).headD 0 := nsListGetFirst_eq h
  unfold nsListGetPrevious
  rw [hfirst]
  cases as with
  | nil => rw [nil_append, headD_cons, if_pos rfl, if_pos rfl]
  | cons a as =>
    have hne := h.apart_rest (mem_cons_of_mem l (.head _)) (.head _)
    rw [cons_append, headD_cons, if_neg (by omega), if_neg (cons_ne_nil a as)]
    exact Mem.pointer_eq h.back

theorem nsListGetLast_eq (h : IsList m l es) : nsListGetLast l m = if es = [] then 0 else lastLink l es := by
  have hfirst : m.pointer l = es.headD 0 := nsListGetFirst_eq h
  unfold nsListGetLast
  rw [hfirst]
  cases es with
  | nil => rfl
  | cons e es =>
    rw [headD_cons, if_neg (h.nonzero e (.head _)), if_neg (cons_ne_nil e es)]
    exact Mem.pointer_eq h.tail

theorem visits_next (h : IsList m l (as ++ bs)) : Visits (fun e => nsListGetNext e m) (bs.headD 0) bs := by
  induction bs generalizing as with
  | nil => rfl
  | cons b bs ih =>
    refine ⟨rfl, h.nonzero b (mem_append_right as (.head _)), ?_⟩
    dsimp only
    rw [nsListGetNext_eq h]
    apply ih
    rw [← append_cons]
    exact h

theorem visits_previous (h : IsList m l (as ++ bs)) :
    Visits (fun e => nsListGetPrevious l e m) (if as = [] then 0 else lastLink l as) as.reverse := by
  induction as using List.reverseRecOn generalizing bs with
  | nil => rfl
  | append_singleton as a ih =>
    rw [append_assoc] at h
    rw [reverse_append, reverse_singleton, lastLink_append, if_neg (append_ne_nil_of_right_ne_nil as (cons_ne_nil a []))]
    refine ⟨rfl, h.nonzero a (mem_append_right as (.head _)), ?_⟩
    dsimp only
    rw [nsListGetPrevious_eq h]
    exact ih h

end

end MbedCloud.Heap

