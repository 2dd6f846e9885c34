import Mathlib.Algebra.BigOperators.Group.List.Basic
import MbedCloud.Heap.Dynmem

/-!
# Heaps as sequences of blocks

`Tiled s bs` says that the words of a heap are the blocks `bs`, one behind the other. The addresses
come from `place`. What a step of the allocator does is local: some blocks in the middle are replaced by
others of the same total size (`Tiled.replace`).
-/

namespace MbedCloud.Heap

open Lib List

/-- A block of `size` words between its length words. -/
structure Block where
  size : Nat
  used : Bool
  pos : 0 < size
  deriving DecidableEq

namespace Block

def words (b : Block) : Nat := b.size + 2

def tag (b : Block) : Int := if b.used then b.size else -b.size

/-- A free block with room for a descriptor. -/
def hole (b : Block) : Bool := !b.used && decide (holeTSize ≤ b.size)

theorem hole_iff {b : Block} : b.hole = true ↔ b.used = false ∧ holeTSize ≤ b.size := by
  unfold hole
  rw [Bool.and_eq_true, decide_eq_true_iff, Bool.not_eq_true']

theorem tag_used {b : Block} (h : b.used = true) : b.tag = b.size := if_pos h

theorem tag_free {b : Block} (h : b.used = false) : b.tag = -b.size := by
  unfold tag
  rw [h]
  rfl

theorem natAbs_tag (b : Block) : b.tag.natAbs = b.size := by
  unfold tag
  split <;> omega

theorem tag_neg_iff {b : Block} : b.tag < 0 ↔ b.used = false := by
  have := b.pos
  unfold tag
  split_ifs with h
  · rw [h]
    exact ⟨fun hlt => by omega, fun hf => nomatch hf⟩
  · exact ⟨fun _ => Bool.eq_false_iff.mpr h, fun _ => by omega⟩

end Block

/-! ## Addresses -/

def words (bs : List Block) : Nat := (bs.map Block.words).sum

/-- The blocks with their addresses, from `a` on. -/
def place : Nat → List Block → List (Nat × Block)
  | _, [] => []
  | a, b :: bs => (a, b) :: place (a + b.words) bs

def holes (a : Nat) (bs : List Block) : List Nat := ((place a bs).filter fun x => x.2.hole).map fun x => x.1 + 1

def pointers (a : Nat) (bs : List Block) : List Nat := ((place a bs).filter fun x => x.2.used).map fun x => x.1 + 1

def usedWords (bs : List Block) : Nat := words (bs.filter Block.used)

section Addresses

variable {a : Nat} {bs xs ys : List Block} {b : Block} {x y : Nat × Block}

@[simp] theorem words_nil : words [] = 0 := rfl

@[simp] theorem words_cons : words (b :: bs) = b.words + words bs := sum_cons

theorem words_singleton : words [b] = b.size + 2 := rfl

@[simp] theorem words_append : words (xs ++ ys) = words xs + words ys := by
  unfold words
  rw [map_append, sum_append]

theorem place_append : place a (xs ++ ys) = place a xs ++ place (a + words xs) ys := by
  induction xs generalizing a with
  | nil => rfl
  | cons b xs ih => rw [cons_append, place, place, ih, words_cons, Nat.add_assoc, cons_append]

theorem holes_append : holes a (xs ++ ys) = holes a xs ++ holes (a + words xs) ys := by
  unfold holes
  rw [place_append, filter_append, map_append]

theorem usedWords_append : usedWords (xs ++ ys) = usedWords xs + usedWords ys := by
  unfold usedWords
  rw [filter_append, words_append]

theorem holes_cons : holes a (b :: bs) = (if b.hole then [a + 1] else []) ++ holes (a + b.words) bs := by
  unfold holes
  rw [place, filter_cons]
  split <;> rfl

theorem usedWords_cons : usedWords (b :: bs) = (if b.used then b.words else 0) + usedWords bs := by
  unfold usedWords
  rw [filter_cons]
  split
  · exact words_cons
  · exact (Nat.zero_add _).symm

theorem mem_place : x ∈ place a bs ↔ ∃ xs ys, bs = xs ++ x.2 :: ys ∧ x.1 = a + words xs := by
  induction bs generalizing a with
  | nil =>
    refine ⟨(by nofun), ?_⟩
    rintro ⟨xs, ys, h, -⟩
    exact absurd h.symm (append_ne_nil_of_right_ne_nil xs (cons_ne_nil x.2 ys))
  | cons b bs ih =>
    rw [place, mem_cons, ih]
    constructor
    · rintro (rfl | ⟨xs, ys, rfl, hx⟩)
      · exact ⟨[], bs, rfl, rfl⟩
      · refine ⟨b :: xs, ys, rfl, ?_⟩
        rw [hx, words_cons, Nat.add_assoc]
    rintro ⟨xs, ys, h, hx⟩
    cases xs with
    | nil =>
      injection h with hb hbs
      left
      rw [hb]
      exact Prod.ext hx rfl
    | cons c xs =>
      injection h with hb hbs
      subst hb
      right
      refine ⟨xs, ys, hbs, ?_⟩
      rw [hx, words_cons, Nat.add_assoc]

theorem mem_place_here : (a + words xs, b) ∈ place a (xs ++ [b] ++ ys) := mem_place.mpr ⟨xs, ys, append_assoc _ _ _, rfl⟩

theorem mem_place_middle {mid : List Block} : x ∈ place a (xs ++ mid ++ ys) ↔
      x ∈ place a xs ∨ x ∈ place (a + words xs) mid ∨ x ∈ place (a + words xs + words mid) ys := by
  rw [place_append, place_append, mem_append, mem_append, words_append, ← Nat.add_assoc, or_assoc]

theorem bounds_of_mem_place (h : x ∈ place a bs) : a ≤ x.1 ∧ x.1 + (x.2.size + 2) ≤ a + words bs := by
  obtain ⟨xs, ys, rfl, hx⟩ := mem_place.mp h
  rw [words_append, words_cons, Block.words]
  omega

theorem place_disjoint (hx : x ∈ place a bs) (hy : y ∈ place a bs) :
    x = y ∨ x.1 + (x.2.size + 2) ≤ y.1 ∨ y.1 + (y.2.size + 2) ≤ x.1 := by
  induction bs generalizing a with
  | nil => exact nomatch hx
  | cons b bs ih =>
    rw [place, mem_cons] at hx hy
    rcases hx with rfl | hx
    · rcases hy with rfl | hy
      · exact .inl rfl
      · exact .inr (.inl (bounds_of_mem_place hy).1)
    rcases hy with rfl | hy
    · exact .inr (.inr (bounds_of_mem_place hx).1)
    · exact ih hx hy

theorem mem_holes {e : Nat} : e ∈ holes a bs ↔ ∃ x ∈ place a bs, x.2.hole = true ∧ e = x.1 + 1 := by
  simp only [holes, mem_map, mem_filter, and_assoc, eq_comm (a := e)]

theorem mem_pointers {p : Nat} : p ∈ pointers a bs ↔ ∃ x ∈ place a bs, x.2.used = true ∧ p = x.1 + 1 := by
  simp only [pointers, mem_map, mem_filter, and_assoc, eq_comm (a := p)]

theorem bounds_of_mem_holes {e : Nat} (h : e ∈ holes a bs) : a < e ∧ e + 2 < a + words bs := by
  obtain ⟨x, hx, hhole, rfl⟩ := mem_holes.mp h
  have hbounds := bounds_of_mem_place hx
  have hsize : 2 ≤ x.2.size := (Block.hole_iff.mp hhole).2
  omega

theorem length_place (a : Nat) (bs : List Block) : (place a bs).length = bs.length := by
  induction bs generalizing a with
  | nil => rfl
  | cons b bs ih => exact congrArg (· + 1) (ih (a + b.words))

theorem length_le_words (bs : List Block) : bs.length ≤ words bs := by
  induction bs with
  | nil => exact Nat.le_refl 0
  | cons b bs ih =>
    rw [length_cons, words_cons, Block.words]
    omega

theorem length_holes_le (a : Nat) (bs : List Block) : (holes a bs).length ≤ words bs := by
  unfold holes
  rw [length_map]
  calc ((place a bs).filter fun x => x.2.hole).length ≤ (place a bs).length := length_filter_le _ _
    _ = bs.length := length_place a bs
    _ ≤ words bs := length_le_words bs

theorem usedWords_le (bs : List Block) : usedWords bs ≤ words bs := by
  induction bs with
  | nil => exact Nat.le_refl 0
  | cons b bs ih =>
    rw [usedWords_cons, words_cons]
    split <;> omega

end Addresses

/-! ## A used block in the place of a free one -/

/-- The blocks `us`, `d` and `vs` fill the words of the free block `b`, and only `d` is used. -/
structure Splits (b : Block) (us : List Block) (d : Block) (vs : List Block) : Prop where
  words : words (us ++ [d] ++ vs) = words [b]
  free : b.used = false
  used : d.used = true
  others : ∀ x ∈ us ++ vs, x.used = false

section Splits

variable {a : Nat} {xs ys us vs : List Block} {b d : Block} {x : Nat × Block}

/-- A used block is outside of a free one. -/
theorem outside_of_used (hb : b.used = false) (hx : x ∈ place a (xs ++ [b] ++ ys)) (hused : x.2.used = true) :
    x.1 + (x.2.size + 2) ≤ a + words xs ∨ a + words xs + (b.size + 2) ≤ x.1 := by
  refine (place_disjoint hx mem_place_here).resolve_left ?_
  rintro rfl
  rw [hused] at hb
  cases hb

theorem usedWords_singleton : usedWords [b] = if b.used then b.words else 0 := usedWords_cons

theorem Splits.size (h : Splits b us d vs) : Heap.words us + (d.size + 2) + Heap.words vs = b.size + 2 := by
  have := h.words
  rwa [words_append, words_append, words_singleton, words_singleton] at this

theorem Splits.usedWords_eq (h : Splits b us d vs) (xs ys : List Block) :
    usedWords (xs ++ (us ++ [d] ++ vs) ++ ys) = usedWords (xs ++ [b] ++ ys) + d.words := by
  have hfree : ∀ {bs : List Block}, bs ⊆ us ++ vs → usedWords bs = 0 := by
    intro bs hbs
    unfold usedWords
    rw [filter_eq_nil_iff.mpr fun x hx => by rw [h.others x (hbs hx)]; exact Bool.false_ne_true, words_nil]
  simp only [usedWords_append, usedWords_singleton, hfree (subset_append_left us vs),
    hfree (subset_append_right us vs), h.used, h.free, if_true, Bool.false_eq_true, if_false]
  omega

theorem Splits.mem_place_iff (h : Splits b us d vs) (a : Nat) (xs ys : List Block) (hx : x.2.used = true) :
    x ∈ place a (xs ++ (us ++ [d] ++ vs) ++ ys) ↔ x ∈ place a (xs ++ [b] ++ ys) ∨ x = (a + Heap.words xs + Heap.words us, d) := by
  have hfree : ∀ {k : Nat} {bs : List Block}, (∀ y ∈ bs, y.used = false) → x ∉ place k bs := by
    intro k bs hbs hmem
    obtain ⟨xs, ys, rfl, -⟩ := mem_place.mp hmem
    have hused := hbs x.2 (mem_append_right xs (.head _))
    rw [hx] at hused
    cases hused
  have hus : x ∉ place (a + Heap.words xs) us := hfree fun y hy => h.others y (mem_append_left vs hy)
  have hvs : ∀ k, x ∉ place k vs := fun k => hfree fun y hy => h.others y (mem_append_right us hy)
  have hb : x ∉ place (a + Heap.words xs) [b] := hfree fun y hy => by rw [mem_singleton.mp hy, h.free]
  have hd : place (a + Heap.words xs + Heap.words us) [d] = [(a + Heap.words xs + Heap.words us, d)] := rfl
  rw [mem_place_middle, mem_place_middle, mem_place_middle, h.words, hd]
  simp only [hus, hvs, hb, mem_singleton, false_or, or_false]
  tauto

/-- The used block is new. -/
theorem Splits.ne (h : Splits b us d vs) (hx : x ∈ place a (xs ++ [b] ++ ys)) (hused : x.2.used = true) :
    x.1 ≠ a + Heap.words xs + Heap.words us := by
  have hsize := h.size
  have houtside := outside_of_used h.free hx hused
  omega

end Splits

/-! ## The invariant -/

/-- The length words of placed blocks. -/
def Tagged (m : Mem) (ps : List (Nat × Block)) : Prop := ∀ x ∈ ps, m x.1 = x.2.tag ∧ m (x.1 + 1 + x.2.size) = x.2.tag

/-- No two neighbours are both free. -/
def Merged (bs : List Block) : Prop := bs.IsChain fun b c => b.used = true ∨ c.used = true

/-- The words of the heap are the blocks `bs`. -/
structure Tiled (s : State) (bs : List Block) : Prop where
  extent : s.book.heapMainEnd + 1 = s.book.heapMain + words bs
  tagged : Tagged s.mem (place s.book.heapMain bs)
  holes : IsList s.mem s.book.holesList (holes s.book.heapMain bs)
  merged : Merged bs
  /-- The head of the list is in front of the heap. -/
  below : s.book.holesList + 1 < s.book.heapMain
  heapSize : s.book.heapSize.toNat / wordSize = words bs

/-- The words of the descriptors and of the head of their list. -/
def IsLink (l : Nat) (hs : List Nat) (x : Nat) : Prop := ∃ e ∈ l :: hs, x = e ∨ x = e + 1

section Replace

theorem IsLink.mono {l x : Nat} {hs hs' : List Nat} (h : IsLink l hs x) (hsub : hs ⊆ hs') : IsLink l hs' x := by
  obtain ⟨e, he, hx⟩ := h
  exact ⟨e, cons_subset_cons l hsub he, hx⟩

theorem IsLink.of_ne {l e x : Nat} {as bs : List Nat} (h : IsLink l (as ++ e :: bs) x) (h1 : x ≠ e)
    (h2 : x ≠ e + 1) : IsLink l (as ++ bs) x := by
  obtain ⟨d, hd, hx⟩ := h
  refine ⟨d, ?_, hx⟩
  have hde : d ≠ e := by
    rintro rfl
    exact hx.elim h1 h2
  simpa [hde] using hd

variable {a l : Nat} {bs xs ys mid mid' : List Block} {x : Nat × Block} {m m' : Mem}

/-- A word of a block is a part of a descriptor in holes only, behind the length word. -/
theorem hole_of_isLink {k : Nat} (hl : l + 1 < a) (hx : x ∈ place a bs) (hlink : IsLink l (holes a bs) k)
    (hk : x.1 ≤ k ∧ k < x.1 + (x.2.size + 2)) : x.2.hole = true ∧ (k = x.1 + 1 ∨ k = x.1 + 2) := by
  have hbounds := bounds_of_mem_place hx
  obtain ⟨e, he, hke⟩ := hlink
  rcases mem_cons.mp he with rfl | he
  · omega
  obtain ⟨y, hy, hhole, rfl⟩ := mem_holes.mp he
  have hsize : 2 ≤ y.2.size := (Block.hole_iff.mp hhole).2
  rcases place_disjoint hx hy with rfl | hdisj | hdisj
  · exact ⟨hhole, by omega⟩
  · omega
  · omega

theorem tag_not_link (hl : l + 1 < a) (hx : x ∈ place a bs) :
    ¬ IsLink l (holes a bs) x.1 ∧ ¬ IsLink l (holes a bs) (x.1 + 1 + x.2.size) := by
  constructor
  · intro hlink
    have := (hole_of_isLink hl hx hlink (by omega)).2
    omega
  · intro hlink
    obtain ⟨hhole, hk⟩ := hole_of_isLink hl hx hlink (by omega)
    have hsize : 2 ≤ x.2.size := (Block.hole_iff.mp hhole).2
    omega

/-- Length words are kept if nothing changes but descriptors and the words of some blocks in the middle. -/
theorem tagged_of_frame (hl : l + 1 < a) (htagged : Tagged m (place a (xs ++ mid ++ ys)))
    (hwords : words mid' = words mid) (hframe : ∀ x, (x < a + words xs ∨ a + words xs + words mid ≤ x) →
      ¬ IsLink l (holes a (xs ++ mid ++ ys)) x → m' x = m x)
    (hmid : Tagged m' (place (a + words xs) mid')) : Tagged m' (place a (xs ++ mid' ++ ys)) := by
  have hold : ∀ x ∈ place a (xs ++ mid ++ ys), (x.1 + (x.2.size + 2) ≤ a + words xs ∨ a + words xs + words mid ≤ x.1) →
      m' x.1 = x.2.tag ∧ m' (x.1 + 1 + x.2.size) = x.2.tag := by
    intro x hx hside
    have hlink := tag_not_link hl hx
    refine ⟨?_, ?_⟩
    · rw [hframe _ (by omega) hlink.1, (htagged x hx).1]
    · rw [hframe _ (by omega) hlink.2, (htagged x hx).2]
  rw [place_append, place_append, words_append, hwords]
  rw [place_append, place_append, words_append] at hold
  intro x hx
  rcases mem_append.mp hx with hx | hx
  · rcases mem_append.mp hx with hx | hx
    · exact hold x (mem_append_left _ (mem_append_left _ hx)) (.inl (bounds_of_mem_place hx).2)
    · exact hmid x hx
  refine hold x (mem_append_right _ hx) (.inr ?_)
  have := (bounds_of_mem_place hx).1
  omega

/-- Nothing but the descriptors is changed around the blocks in the middle. -/
def SameAround (s : State) (xs mid ys : List Block) (m' : Mem) : Prop :=
  ∀ x, (x < s.book.heapMain + words xs ∨ s.book.heapMain + words xs + words mid ≤ x) →
    ¬ IsLink s.book.holesList (holes s.book.heapMain (xs ++ mid ++ ys)) x → m' x = s.mem x

theorem Tiled.replace {s : State} (h : Tiled s (xs ++ mid ++ ys)) (hwords : words mid' = words mid)
    (hframe : SameAround s xs mid ys m')
    (hmid : Tagged m' (place (s.book.heapMain + words xs) mid'))
    (hholes : IsList m' s.book.holesList (Heap.holes s.book.heapMain (xs ++ mid' ++ ys)))
    (hmerged : Merged (xs ++ mid' ++ ys)) : Tiled { s with mem := m' } (xs ++ mid' ++ ys) where
  extent := by
    rw [words_append, words_append, hwords]
    have := h.extent
    rw [words_append, words_append] at this
    exact this
  tagged := tagged_of_frame h.below h.tagged hwords hframe hmid
  holes := hholes
  merged := hmerged
  below := h.below
  heapSize := by
    rw [words_append, words_append, hwords]
    have := h.heapSize
    rw [words_append, words_append] at this
    exact this

end Replace

end MbedCloud.Heap

