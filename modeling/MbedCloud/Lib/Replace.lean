import Mathlib.Data.List.Nodup

/-!
# Replacing elements

`replaceFirst p f l` applies `f` to the first element of `l` with the property `p`, and
`updateWhere p f l` to all of them. If there is exactly one (`Only`), the two are the same, and they
set the element at its index.

`Grows R l l'` says that every element of `l` is still at its index in `l'`, up to a relation.
-/

namespace MbedCloud

open List

def replaceFirst {α : Type} (p : α → Bool) (f : α → α) : List α → List α
  | [] => []
  | x :: xs => if p x then f x :: xs else x :: replaceFirst p f xs

theorem replaceFirst_append {α : Type} {p : α → Bool} (f : α → α) {pre : List α} {x : α}
    (post : List α) (hpre : ∀ y ∈ pre, p y = false) (hx : p x = true) :
    replaceFirst p f (pre ++ x :: post) = pre ++ f x :: post := by
  induction pre with
  | nil => simp only [nil_append, replaceFirst, hx, if_true]
  | cons y pre ih =>
    have hy := hpre y (.head _)
    simp only [cons_append, replaceFirst, hy, Bool.false_eq_true, if_false]
    rw [ih fun z hz => hpre z (mem_cons_of_mem y hz)]

section Replace

variable {α β : Type} {p : α → Bool} {f : α → α} {l : List α} {i : Nat} {x : α}

theorem mem_replaceFirst {y : α} (hy : y ∈ replaceFirst p f l) : y ∈ l ∨ ∃ x ∈ l, p x = true ∧ y = f x := by
  induction l with
  | nil => cases hy
  | cons x l ih =>
    rw [replaceFirst] at hy
    split_ifs at hy with hx
    · rcases mem_cons.mp hy with rfl | hy
      · exact .inr ⟨x, .head _, hx, rfl⟩
      · exact .inl (mem_cons_of_mem x hy)
    rcases mem_cons.mp hy with rfl | hy
    · exact .inl (.head _)
    rcases ih hy with hy | ⟨z, hz, hp, rfl⟩
    · exact .inl (mem_cons_of_mem x hy)
    · exact .inr ⟨z, mem_cons_of_mem x hz, hp, rfl⟩

/-- What the replacement keeps of each element, it keeps of the list. -/
theorem map_replaceFirst (g : α → β) (hg : ∀ x, g (f x) = g x) (l : List α) : (replaceFirst p f l).map g = l.map g := by
  induction l with
  | nil => rfl
  | cons x l ih =>
    rw [replaceFirst]
    split
    · rw [map_cons, map_cons, hg]
    · rw [map_cons, map_cons, ih]

theorem length_replaceFirst (l : List α) : (replaceFirst p f l).length = l.length := by
  simpa using congrArg length (map_replaceFirst (p := p) (f := f) (fun _ => ()) (fun _ => rfl) l)

theorem replaceFirst_eq_self (h : ∀ x ∈ l, f x = x) : replaceFirst p f l = l := by
  induction l with
  | nil => rfl
  | cons x l ih =>
    rw [replaceFirst]
    split
    · rw [h x mem_cons_self]
    · rw [ih fun y hy => h y (mem_cons_of_mem x hy)]

/-- The first element with the property is replaced. -/
theorem getElem?_replaceFirst_self (hx : l[i]? = some x)
    (hp : p x = true) (hfirst : ∀ (j : Nat) (y : α), j < i → l[j]? = some y → p y = false) :
    (replaceFirst p f l)[i]? = some (f x) := by
  induction l generalizing i with
  | nil => cases hx
  | cons y l ih =>
    cases i with
    | zero =>
      cases hx
      rw [replaceFirst, hp]
      rfl
    | succ i =>
      rw [replaceFirst, hfirst 0 y (Nat.succ_pos i) rfl]
      refine ih hx fun j z hj hz => ?_
      exact hfirst (j + 1) z (Nat.succ_lt_succ hj) hz

theorem set_eq_self (hx : l[i]? = some x) : l.set i x = l := by
  obtain ⟨hi, rfl⟩ := List.getElem?_eq_some_iff.mp hx
  exact set_getElem_self hi

theorem map_set_eq {g : α → β} {y : α} (hx : l[i]? = some x) (hy : g y = g x) : (l.set i y).map g = l.map g := by
  rw [map_set, hy]
  apply set_eq_self
  rw [getElem?_map, hx, Option.map_some]

end Replace

/-! ## Lists that grow -/

def Grows {α : Type} (R : α → α → Prop) (l l' : List α) : Prop :=
  ∀ (i : Nat) (x : α), l[i]? = some x → ∃ x', l'[i]? = some x' ∧ R x x'

section Grows

variable {α β : Type} {R S : α → α → Prop} {l l' l'' : List α}

theorem Grows.trans (hR : ∀ {x y z}, R x y → R y z → R x z) (h : Grows R l l') (h' : Grows R l' l'') : Grows R l l'' := by
  intro i x hx
  obtain ⟨y, hy, hxy⟩ := h i x hx
  obtain ⟨z, hz, hyz⟩ := h' i y hy
  exact ⟨z, hz, hR hxy hyz⟩

theorem Grows.imp (h : Grows R l l') (hS : ∀ x y, R x y → S x y) : Grows S l l' := by
  intro i x hx
  obtain ⟨y, hy, hxy⟩ := h i x hx
  exact ⟨y, hy, hS x y hxy⟩

theorem Grows.mem (h : Grows R l l') {x : α} (hx : x ∈ l) : ∃ x' ∈ l', R x x' := by
  obtain ⟨i, hi⟩ := mem_iff_getElem?.mp hx
  obtain ⟨y, hy, hxy⟩ := h i x hi
  exact ⟨y, mem_of_getElem? hy, hxy⟩

theorem Grows.length_le (h : Grows R l l') : l.length ≤ l'.length := by
  by_contra hlt
  have hi : l'.length < l.length := by omega
  obtain ⟨y, hy, -⟩ := h _ _ (getElem?_eq_getElem hi)
  rw [getElem?_eq_none (Nat.le_refl _)] at hy
  cases hy

theorem grows_of_map {g : α → β} (h : l'.map g = l.map g) : Grows (fun x x' => g x' = g x) l l' := by
  intro i x hx
  have hat := congrArg (·[i]?) h
  simp only [getElem?_map, hx, Option.map_some] at hat
  exact Option.map_eq_some_iff.mp hat

section

variable (hR : ∀ x, R x x)
include hR

theorem grows_refl (l : List α) : Grows R l l := fun _ x hx => ⟨x, hx, hR x⟩

theorem grows_append (l l' : List α) : Grows R l (l ++ l') := by
  intro i x hx
  refine ⟨x, ?_, hR x⟩
  rw [getElem?_append_left (List.getElem?_eq_some_iff.mp hx).1]
  exact hx

theorem grows_set {i : Nat} {x y : α} (hx : l[i]? = some x) (hy : R x y) : Grows R l (l.set i y) := by
  intro j z hz
  by_cases hj : i = j
  · subst hj
    cases hx.symm.trans hz
    exact ⟨y, getElem?_set_self (List.getElem?_eq_some_iff.mp hx).1, hy⟩
  · exact ⟨z, (getElem?_set_ne hj).trans hz, hR z⟩

theorem grows_replaceFirst (p : α → Bool) {f : α → α} (hf : ∀ x, R x (f x)) (l : List α) : Grows R l (replaceFirst p f l) := by
  induction l with
  | nil => exact grows_refl hR []
  | cons x l ih =>
    rw [replaceFirst]
    split
    · exact grows_set hR (i := 0) rfl (hf x)
    intro i y hy
    cases i with
    | zero => exact ⟨y, hy, hR y⟩
    | succ i => exact ih i y hy

end

end Grows

/-! ## A single element with a property -/

def updateWhere {α : Type} (p : α → Bool) (f : α → α) (l : List α) : List α := l.map fun x => if p x then f x else x

theorem map_updateWhere {α β : Type} {p : α → Bool} {f : α → α} (g : α → β)
    (hg : ∀ x, g (f x) = g x) (l : List α) : (updateWhere p f l).map g = l.map g := by
  rw [updateWhere, map_map]
  apply map_congr_left
  intro x _
  show g (if p x then f x else x) = g x
  split
  · exact hg x
  · rfl

/-- `x` is the only element of the list with the property. -/
structure Only {α : Type} (p : α → Bool) (l pre : List α) (x : α) (post : List α) : Prop where
  eq : l = pre ++ x :: post
  self : p x = true
  pre : ∀ y ∈ pre, p y = false
  post : ∀ y ∈ post, p y = false

section Only

variable {α : Type} {p : α → Bool} {l pre post : List α} {x : α}

section

variable (h : Only p l pre x post)
include h

theorem Only.replaceFirst (f : α → α) : replaceFirst p f l = pre ++ f x :: post := by
  rw [h.eq]
  exact replaceFirst_append f post h.pre h.self

theorem Only.updateWhere (f : α → α) : updateWhere p f l = pre ++ f x :: post := by
  have hkeep : ∀ l' : List α, (∀ y ∈ l', p y = false) → MbedCloud.updateWhere p f l' = l' := by
    intro l' hl'
    refine (map_congr_left fun y hy => ?_).trans (map_id l')
    rw [hl' y hy]
    rfl
  rw [h.eq, MbedCloud.updateWhere, map_append, map_cons, h.self]
  congr 1
  · exact hkeep pre h.pre
  · congr 1
    exact hkeep post h.post

theorem Only.getElem? : l[pre.length]? = some x := by
  rw [h.eq, getElem?_append_right (Nat.le_refl _), Nat.sub_self]
  rfl

theorem Only.set (y : α) : l.set pre.length y = pre ++ y :: post := by
  rw [h.eq, set_append_right _ _ (Nat.le_refl _), Nat.sub_self]
  rfl

theorem Only.find? : l.find? p = some x := by
  rw [h.eq, find?_append, find?_eq_none.mpr (fun y hy => by simp [h.pre y hy]), find?_cons, h.self]
  rfl

theorem Only.any : l.any p = true := any_eq_true.mpr ⟨x, h.eq ▸ mem_append_right pre (.head _), h.self⟩

/-- The only element has every property that one with the property `p` has. -/
theorem Only.eq_of_mem {y : α} (hy : y ∈ l) (hp : p y = true) : y = x := by
  rw [h.eq] at hy
  rcases mem_append.mp hy with hy | hy
  · rw [h.pre y hy] at hp
    cases hp
  rcases mem_cons.mp hy with rfl | hy
  · rfl
  · rw [h.post y hy] at hp
    cases hp

end

variable {κ : Type}

/-- An element is the only one with its key if the keys are different. -/
theorem exists_only (key : α → Option κ) (hnodup : (l.filterMap key).Nodup) {k : κ}
    (hx : x ∈ l) (hkey : key x = some k) (hp : ∀ y, p y = true → key y = some k)
    (hself : p x = true) : ∃ pre post, Only p l pre x post := by
  obtain ⟨pre, post, rfl⟩ := append_of_mem hx
  rw [filterMap_append, filterMap_cons, hkey] at hnodup
  have hmiddle := nodup_middle.mp hnodup
  have hnotin := (nodup_cons.mp hmiddle).1
  refine ⟨pre, post, rfl, hself, fun y hy => ?_, fun y hy => ?_⟩
  · by_contra hpy
    apply hnotin
    exact mem_append_left _ (mem_filterMap.mpr ⟨y, hy, hp y (eq_true_of_ne_false hpy)⟩)
  by_contra hpy
  apply hnotin
  exact mem_append_right _ (mem_filterMap.mpr ⟨y, hy, hp y (eq_true_of_ne_false hpy)⟩)

theorem exists_only_map (key : α → κ) (hnodup : (l.map key).Nodup) (hx : x ∈ l)
    (hp : ∀ y, p y = true → key y = key x) (hself : p x = true) : ∃ pre post, Only p l pre x post := by
  refine exists_only (some ∘ key) ?_ hx rfl (fun y hy => congrArg some (hp y hy)) hself
  rwa [filterMap_eq_map]

end Only

end MbedCloud

