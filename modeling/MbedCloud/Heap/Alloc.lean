import Mathlib.Data.List.Chain
import MbedCloud.Heap.Blocks

/-!
# Allocation

A search for a hole finds one that is large enough if there is one (`findHole_spec`), and the hole is
replaced by a used block, with what is left in front of it or behind it (`takeBlock_spec`).
-/

namespace MbedCloud.Heap

open Lib List

/-! ## Length words -/

section

variable {a l block dataSize : Nat} {bs : List Block} {m : Mem} {x : Nat × Block} {v : Int}

theorem writeTags_start : writeTags m block dataSize v block = v := by
  unfold writeTags
  rw [Mem.write_ne _ _ (by omega), Mem.write_self]

theorem writeTags_stop : writeTags m block dataSize v (block + 1 + dataSize) = v := Mem.write_self _ _ _

theorem writeTags_ne {k : Nat} (hstart : k ≠ block) (hstop : k ≠ block + 1 + dataSize) :
    writeTags m block dataSize v k = m k := by
  unfold writeTags
  rw [Mem.write_ne _ _ hstop, Mem.write_ne _ _ hstart]

theorem isList_writeTags (h : IsList m l (holes a bs)) (hl : l + 1 < a) (hx : x ∈ place a bs) :
    IsList (writeTags m x.1 x.2.size v) l (holes a bs) := by
  obtain ⟨hstart, hstop⟩ := tag_not_link hl hx
  apply h.congr
  intro e he
  constructor
  · apply writeTags_ne
    · exact fun heq => hstart ⟨e, he, .inl heq.symm⟩
    · exact fun heq => hstop ⟨e, he, .inl heq.symm⟩
  apply writeTags_ne
  · exact fun heq => hstart ⟨e, he, .inr heq.symm⟩
  · exact fun heq => hstop ⟨e, he, .inr heq.symm⟩

end

/-! ## Neighbours -/

section

variable {xs ys mid : List Block} {b : Block}

theorem merged_around (h : Merged (xs ++ [b] ++ ys)) (hb : b.used = false) :
    Merged xs ∧ Merged ys ∧ (∀ x ∈ xs.getLast?, x.used = true) ∧ ∀ y ∈ ys.head?, y.used = true := by
  unfold Merged at h
  rw [isChain_append, isChain_append] at h
  obtain ⟨⟨hxs, -, hxb⟩, hys, hby⟩ := h
  refine ⟨hxs, hys, fun x hx => ?_, fun y hy => ?_⟩
  · exact (hxb x hx b rfl).resolve_right (by simp [hb])
  · exact (hby b getLast?_concat y hy).resolve_left (by simp [hb])

theorem merged_join (hxs : Merged xs) (hys : Merged ys) (hlast : ∀ x ∈ xs.getLast?, x.used = true)
    (hhead : ∀ y ∈ ys.head?, y.used = true) (hmid : Merged mid) : Merged (xs ++ mid ++ ys) := by
  unfold Merged
  rw [isChain_append, isChain_append]
  refine ⟨⟨hxs, hmid, fun x hx y _ => .inl (hlast x hx)⟩, hys, fun x _ y hy => .inr (hhead y hy)⟩

end

/-! ## The search -/

section

variable {s : State} {bs : List Block}

theorem nsMemBlockValidate_of_tagged {m : Mem} {ps : List (Nat × Block)} {x : Nat × Block} (h : Tagged m ps)
    (hx : x ∈ ps) : nsMemBlockValidate m x.1 = true := by
  have htag := h x hx
  have hpos := x.2.pos
  have habs := x.2.natAbs_tag
  unfold nsMemBlockValidate
  rw [htag.1, habs, htag.2]
  apply decide_eq_true
  refine ⟨?_, rfl⟩
  intro hzero
  exact absurd habs (by omega)

/-- The loop ends at a hole that is large enough, or behind the last one. -/
theorem searchHoles_spec {next : Nat → Nat} {n fuel cur : Nat} {hs : List Nat}
    (htagged : Tagged s.mem (place s.book.heapMain bs)) (hvisits : Visits next cur hs)
    (hholes : ∀ e ∈ hs, e ∈ holes s.book.heapMain bs) (hfuel : hs.length < fuel) :
    (searchHoles s.mem next n fuel cur = .exhausted ∧
        ∀ x ∈ place s.book.heapMain bs, x.1 + 1 ∈ hs → x.2.hole = true → x.2.size < n) ∨
      ∃ x ∈ place s.book.heapMain bs, x.2.hole = true ∧ n ≤ x.2.size ∧ searchHoles s.mem next n fuel cur = .found x.1 := by
  induction hs generalizing cur fuel with
  | nil =>
    cases fuel with
    | zero => exact absurd hfuel (Nat.lt_irrefl 0)
    | succ fuel =>
      left
      refine ⟨?_, fun x _ hx => nomatch hx⟩
      rw [searchHoles, if_pos (show cur = 0 from hvisits)]
  | cons e hs ih =>
    cases fuel with
    | zero => exact absurd hfuel (Nat.not_lt_zero _)
    | succ fuel =>
      obtain ⟨rfl, hne, hrest⟩ := hvisits
      obtain ⟨x, hx, hhole, rfl⟩ := mem_holes.mp (hholes _ (.head _))
      have hused := (Block.hole_iff.mp hhole).1
      have htag := (htagged x hx).1
      rw [Block.tag_free hused] at htag
      have hpos := x.2.pos
      have hstep : searchHoles s.mem next n (fuel + 1) (x.1 + 1) =
          if n ≤ x.2.size then .found x.1 else searchHoles s.mem next n fuel (next (x.1 + 1)) := by
        rw [searchHoles, if_neg hne, Nat.add_sub_cancel]
        dsimp only
        have hvalid : ¬ (true = false ∨ -(x.2.size : Int) ≥ 0) := by
          rintro (h | h)
          · cases h
          · omega
        rw [nsMemBlockValidate_of_tagged htagged hx, htag, if_neg hvalid]
        by_cases hn : n ≤ x.2.size
        · rw [if_pos (by omega), if_pos hn]
        · rw [if_neg (by omega), if_neg hn]
      rw [hstep]
      by_cases hn : n ≤ x.2.size
      · rw [if_pos hn]
        exact .inr ⟨x, hx, hhole, hn, rfl⟩
      rw [if_neg hn]
      have hfuel' : hs.length < fuel := Nat.lt_of_succ_lt_succ hfuel
      rcases ih hrest (fun e he => hholes e (.tail _ he)) hfuel' with ⟨heq, hnone⟩ | hfound
      · refine .inl ⟨heq, fun y hy hmem hyhole => ?_⟩
        rcases mem_cons.mp hmem with hsame | hmem
        · rcases place_disjoint hx hy with rfl | hdisj | hdisj
          · exact Nat.lt_of_not_le hn
          · omega
          · omega
        · exact hnone y hy hmem hyhole
      · exact .inr hfound

theorem findHole_spec (h : Tiled s bs) (n : Nat) (direction : Direction) :
    (findHole s n direction = .exhausted ∧ ∀ b ∈ bs, b.hole = true → b.size < n) ∨
      ∃ xs b ys, bs = xs ++ [b] ++ ys ∧ b.hole = true ∧ n ≤ b.size ∧
        findHole s n direction = .found (s.book.heapMain + words xs) := by
  have hlength : (holes s.book.heapMain bs).length < s.book.words + 1 := by
    have := length_holes_le s.book.heapMain bs
    have := h.extent
    unfold Book.words
    omega
  have hsearch : ∃ next cur hs, (∀ e, e ∈ hs ↔ e ∈ holes s.book.heapMain bs) ∧ Visits next cur hs ∧ hs.length < s.book.words + 1 ∧
      findHole s n direction = searchHoles s.mem next n (s.book.words + 1) cur := by
    cases direction with
    | up =>
      refine ⟨_, _, holes s.book.heapMain bs, fun e => .rfl, ?_, hlength, rfl⟩
      rw [nsListGetFirst_eq h.holes]
      exact visits_next (show IsList s.mem s.book.holesList ([] ++ _) from h.holes)
    | down =>
      refine ⟨_, _, (holes s.book.heapMain bs).reverse, fun e => mem_reverse, ?_, ?_, rfl⟩
      · rw [nsListGetLast_eq h.holes]
        have hlist := h.holes
        rw [← append_nil (holes _ _)] at hlist
        exact visits_previous hlist
      · rw [length_reverse]
        exact hlength
  obtain ⟨next, cur, hs, hmem, hvisits, hfuel, heq⟩ := hsearch
  rw [heq]
  rcases searchHoles_spec (n := n) h.tagged hvisits (fun e he => (hmem e).mp he) hfuel with
    ⟨hend, hnone⟩ | ⟨x, hx, hhole, hn, hfound⟩
  · left
    refine ⟨hend, fun b hb hhole => ?_⟩
    obtain ⟨xs, ys, rfl⟩ := append_of_mem hb
    have hx : (s.book.heapMain + words xs, b) ∈ place s.book.heapMain (xs ++ b :: ys) := mem_place.mpr ⟨xs, ys, rfl, rfl⟩
    exact hnone _ hx ((hmem _).mpr (mem_holes.mpr ⟨_, hx, hhole, rfl⟩)) hhole
  · right
    obtain ⟨xs, ys, hbs, haddress⟩ := mem_place.mp hx
    refine ⟨xs, x.2, ys, ?_, hhole, hn, ?_⟩
    · rw [hbs, append_assoc, singleton_append]
    · rw [hfound, haddress]

end

/-! ## Taking a block from a hole -/

section

variable {m : Mem} {l e p q : Nat} {as bs : List Nat}

theorem lastLink_ne_zero (h : IsList m l (as ++ bs)) (has : as ≠ []) : lastLink l as ≠ 0 := by
  cases as with
  | nil => exact absurd rfl has
  | cons a as => exact h.nonzero _ (mem_append_left bs (lastLink_mem a as))

theorem isLink_of_linkChanged {x : Nat} (h : LinkChanged l e as bs x) : IsLink l (as ++ e :: bs) x := by
  have hhead := IsList.head_mem l bs
  rcases h with rfl | rfl | rfl | rfl
  · exact ⟨_, IsList.front_mem _ (lastLink_mem l as), .inl rfl⟩
  · exact ⟨x, IsList.rest_mem (.head _), .inl rfl⟩
  · exact ⟨e, IsList.rest_mem (.head _), .inr rfl⟩
  · refine ⟨bs.headD l, ?_, .inr rfl⟩
    exact cons_subset_cons l (List.Subset.trans (subset_cons_self e bs) (subset_append_right as _)) hhead

theorem moveHole_isList (h : IsList m l (as ++ (p + 1) :: bs)) (hapart : ∀ x ∈ l :: (as ++ bs), Apart x (q + 1)) :
    IsList (moveHole l p q m) l (as ++ (q + 1) :: bs) ∧
      ∀ x, ¬ IsLink l (as ++ (p + 1) :: bs) x → ¬ IsLink l (as ++ (q + 1) :: bs) x → moveHole l p q m x = m x := by
  obtain ⟨hremoved, hframe⟩ := nsListRemove_isList h
  obtain ⟨hadded, hframe'⟩ := addBehind_isList hremoved (Nat.succ_ne_zero q) hapart
  have hmove : moveHole l p q m = addBehind l (lastLink l as) (q + 1) (nsListRemove l (p + 1) m) := by
    unfold moveHole
    rw [nsListGetPrevious_eq h]
    by_cases has : as = []
    · rw [if_pos has, has]
      rfl
    · rw [if_neg has]
      exact if_pos (lastLink_ne_zero h has)
  rw [hmove]
  refine ⟨hadded, fun x hp hq => ?_⟩
  rw [hframe' x fun hx => hq (isLink_of_linkChanged hx), hframe x fun hx => hp (isLink_of_linkChanged hx)]

variable {s : State} {xs ys : List Block} {b : Block} {a : Nat}

theorem holes_around {xs ys mid : List Block} :
    holes a (xs ++ mid ++ ys) = holes a xs ++ (holes (a + words xs) mid ++ holes (a + words xs + words mid) ys) := by
  rw [holes_append, holes_append, words_append, append_assoc, Nat.add_assoc]

theorem holes_hole (h : b.hole = true) : holes a [b] = [a + 1] := by
  rw [holes_cons, if_pos h]
  rfl

theorem holes_other (h : b.hole = false) : holes a [b] = [] := by
  rw [holes_cons, h]
  rfl

/-- A descriptor in the middle does not overlap with those around it. -/
theorem apart_around {l e w : Nat} (hl : l + 1 < a) (hlow : a + words xs ≤ e) (hhigh : e + 1 ≤ a + words xs + w) :
    ∀ x ∈ l :: (holes a xs ++ holes (a + words xs + w) ys), Apart x e := by
  intro x hx
  unfold Apart
  rcases mem_cons.mp hx with rfl | hx
  · omega
  rcases mem_append.mp hx with hx | hx
  · have := bounds_of_mem_holes hx
    omega
  · have := bounds_of_mem_holes hx
    omega

/-- What `takeBlock` does to a hole: it becomes a used block, between the holes `us` and `vs`. -/
structure Taken (s : State) (xs : List Block) (b : Block) (ys : List Block) (n : Nat)
    (r : (Nat × Nat) × Mem) (us : List Block) (c : Block) (vs : List Block) : Prop where
  splits : Splits b us c vs
  enough : n ≤ c.size
  block : r.1 = (s.book.heapMain + words xs + words us, c.size)
  tiled : Tiled { s with mem := r.2 } (xs ++ (us ++ [c] ++ vs) ++ ys)
  frame : SameAround s xs [b] ys r.2

section

variable (h : Tiled s (xs ++ [b] ++ ys))
include h

variable {n r : Nat}

theorem takeBlock_whole (hb : b.hole = true) (hfit : n ≤ b.size) (hp : p = s.book.heapMain + words xs) :
    ∃ c, Taken s xs b ys n ((p, b.size), writeTags (nsListRemove s.book.holesList (p + 1) s.mem) p b.size b.size) [] c [] := by
  obtain ⟨hfree, -⟩ := Block.hole_iff.mp hb
  have hlist := h.holes
  rw [holes_around, holes_hole hb, ← hp] at hlist
  obtain ⟨hremoved, hchanged⟩ := nsListRemove_isList hlist
  let c : Block := ⟨b.size, true, b.pos⟩
  have hwords : words [c] = words [b] := rfl
  have hframe : SameAround s xs [b] ys (writeTags (nsListRemove s.book.holesList (p + 1) s.mem) p b.size b.size) := by
    intro x hx hlink
    rw [words_singleton] at hx
    rw [holes_around, holes_hole hb, ← hp] at hlink
    rw [writeTags_ne (by omega) (by omega), hchanged x fun hch => hlink (isLink_of_linkChanged hch)]
  obtain ⟨hxs, hys, hlast, hhead⟩ := merged_around h.merged hfree
  refine ⟨c, ⟨hwords, hfree, rfl, (by simp)⟩, hfit, congrArg (·, b.size) hp, ?_, hframe⟩
  refine h.replace hwords hframe ?_ ?_ (merged_join hxs hys hlast hhead (isChain_singleton _))
  · intro x hx
    rw [mem_singleton.mp hx, ← hp]
    exact ⟨writeTags_start, writeTags_stop⟩
  refine isList_writeTags ?_ h.below (hp ▸ mem_place_here (b := c))
  rw [holes_around, holes_other rfl, ← hp]
  exact hremoved

omit h in
theorem place_pair (p : Nat) (c d : Block) : place p [c, d] = [(p, c), (p + 1 + c.size + 1, d)] := by
  rw [place, place, place, Block.words, show p + (c.size + 2) = p + 1 + c.size + 1 by omega]

/-- Two blocks in the place of a hole, after their length words are written in any order. -/
theorem tiled_writeTags {m : Mem} {d1 d2 : Block} {y z : Nat × Block} (hb : b.used = false) (hwords : words [d1, d2] = words [b])
    (hplace : (place (s.book.heapMain + words xs) [d1, d2]).Perm [y, z])
    (hlist : IsList m s.book.holesList (holes s.book.heapMain (xs ++ [d1, d2] ++ ys)))
    (hframe : SameAround s xs [b] ys m) (hmerged : Merged [d1, d2]) :
    Tiled { s with mem := writeTags (writeTags m y.1 y.2.size y.2.tag) z.1 z.2.size z.2.tag } (xs ++ [d1, d2] ++ ys) ∧
      SameAround s xs [b] ys (writeTags (writeTags m y.1 y.2.size y.2.tag) z.1 z.2.size z.2.tag) := by
  obtain ⟨hxs, hys, hlast, hhead⟩ := merged_around h.merged hb
  have hy : y ∈ place (s.book.heapMain + words xs) [d1, d2] := hplace.mem_iff.mpr (.head _)
  have hz : z ∈ place (s.book.heapMain + words xs) [d1, d2] := hplace.mem_iff.mpr (mem_cons_of_mem y (.head _))
  have hin : ∀ x ∈ place (s.book.heapMain + words xs) [d1, d2],
      x ∈ place s.book.heapMain (xs ++ [d1, d2] ++ ys) := fun x hx => mem_place_middle.mpr (.inr (.inl hx))
  have hframe' : SameAround s xs [b] ys (writeTags (writeTags m y.1 y.2.size y.2.tag) z.1 z.2.size z.2.tag) := by
    intro x hx hlink
    have hby := bounds_of_mem_place hy
    have hbz := bounds_of_mem_place hz
    rw [hwords, words_singleton] at hby hbz
    rw [words_singleton] at hx
    rw [writeTags_ne (by omega) (by omega), writeTags_ne (by omega) (by omega), hframe x hx hlink]
  refine ⟨h.replace hwords hframe' ?_ ?_ (merged_join hxs hys hlast hhead hmerged), hframe'⟩
  · intro x hx
    by_cases hxz : x = z
    · subst hxz
      exact ⟨writeTags_start, writeTags_stop⟩
    have hxy : x = y := by simpa [hxz] using hplace.mem_iff.mp hx
    subst hxy
    have hdisj := (place_disjoint hy hz).resolve_left hxz
    constructor
    · rw [writeTags_ne (by omega) (by omega), writeTags_start]
    · rw [writeTags_ne (by omega) (by omega), writeTags_stop]
  · exact isList_writeTags (isList_writeTags hlist h.below (hin y hy)) h.below (hin z hz)

section

variable (hb : b.hole = true) (hn : 0 < n) (hr : holeTSize ≤ r) (hsize : b.size = n + 2 + r) (hp : p = s.book.heapMain + words xs)
include hb hn hr hsize hp

theorem takeBlock_up :
    ∃ c vs, Taken s xs b ys n ((p, n), writeTags (writeTags (moveHole s.book.holesList p (p + 1 + n + 1) s.mem)
      (p + 1 + n + 1) r (-r)) p n n) [] c vs := by
  have hr2 : 2 ≤ r := hr
  let c : Block := ⟨n, true, hn⟩
  let d : Block := ⟨r, false, by omega⟩
  have hmerged : Merged [c, d] := isChain_pair.mpr (.inl rfl)
  have hd : d.hole = true := Block.hole_iff.mpr ⟨rfl, hr⟩
  have hwords : words [c, d] = words [b] := by
    show n + 2 + (r + 2 + 0) = b.size + 2 + 0
    omega
  have hb' := words_singleton (b := b)
  have hlist := h.holes
  rw [holes_around, holes_hole hb, ← hp] at hlist
  obtain ⟨hmoved, hframe⟩ := moveHole_isList (q := p + 1 + n + 1) hlist (hp ▸ apart_around h.below (by omega) (by omega))
  have hnewlist : IsList (moveHole s.book.holesList p (p + 1 + n + 1) s.mem) s.book.holesList
      (holes s.book.heapMain (xs ++ [c, d] ++ ys)) := by
    rw [holes_around, hwords, holes_cons, holes_hole hd, ← hp, Block.words,
      show p + (c.size + 2) = p + 1 + n + 1 by show _ + (n + 2) = _; omega]
    exact hmoved
  have hmoveframe : SameAround s xs [b] ys (moveHole s.book.holesList p (p + 1 + n + 1) s.mem) := by
    intro x hx hlink
    rw [holes_around, holes_hole hb, ← hp] at hlink
    refine hframe x hlink fun hnew => hlink ?_
    refine (hnew.of_ne (by omega) (by omega)).mono ?_
    exact List.Sublist.subset ((sublist_cons_self _ _).append_left _)
  have hfree := (Block.hole_iff.mp hb).1
  have hplace : (place (s.book.heapMain + words xs) [c, d]).Perm [(p + 1 + n + 1, d), (p, c)] := by
    rw [← hp, place_pair]
    exact .swap _ _ _
  obtain ⟨htiled, hframe'⟩ := tiled_writeTags h hfree hwords hplace hnewlist hmoveframe hmerged
  refine ⟨c, [d], ⟨hwords, hfree, rfl, ?_⟩, Nat.le_refl n, congrArg (·, n) hp, htiled, hframe'⟩
  intro x hx
  rw [mem_singleton.mp hx]

theorem takeBlock_down :
    ∃ us c, Taken s xs b ys n ((p + 1 + r + 1, n), writeTags (writeTags s.mem p r (-r)) (p + 1 + r + 1) n n)
      us c [] := by
  subst hp
  have hr2 : 2 ≤ r := hr
  let c : Block := ⟨n, true, hn⟩
  let d : Block := ⟨r, false, by omega⟩
  have hmerged : Merged [d, c] := isChain_pair.mpr (.inr rfl)
  have hd : d.hole = true := Block.hole_iff.mpr ⟨rfl, hr⟩
  have hwords : words [d, c] = words [b] := by
    show r + 2 + (n + 2 + 0) = b.size + 2 + 0
    omega
  have hnewlist : IsList s.mem s.book.holesList (holes s.book.heapMain (xs ++ [d, c] ++ ys)) := by
    have hlist := h.holes
    rw [holes_around, holes_hole hb] at hlist
    rw [holes_around, hwords, holes_cons, if_pos hd, holes_other rfl]
    exact hlist
  have hfree := (Block.hole_iff.mp hb).1
  obtain ⟨htiled, hframe⟩ := tiled_writeTags h hfree hwords (.of_eq (place_pair _ d c)) hnewlist (fun x _ _ => rfl) hmerged
  refine ⟨[d], c, ⟨hwords, hfree, rfl, ?_⟩, Nat.le_refl n, ?_, htiled, hframe⟩
  · intro x hx
    rw [mem_singleton.mp hx]
  · show (s.book.heapMain + words xs + 1 + r + 1, n) = (s.book.heapMain + words xs + (r + 2 + 0), n)
    rw [show s.book.heapMain + words xs + (r + 2 + 0) = s.book.heapMain + words xs + 1 + r + 1 by omega]

end

theorem takeBlock_spec (hb : b.hole = true) (hn : 0 < n)
    (hfit : n ≤ b.size) (direction : Direction) : ∃ us c vs, Taken s xs b ys n
      (takeBlock s.book.holesList (s.book.heapMain + words xs) n direction s.mem) us c vs := by
  have htag := (h.tagged _ mem_place_here).1
  rw [Block.tag_free (Block.hole_iff.mp hb).1] at htag
  have hsize : (-(s.mem (s.book.heapMain + words xs))).toNat = b.size := by rw [htag, Int.neg_neg, Int.toNat_natCast]
  unfold takeBlock
  rw [hsize]
  by_cases hroom : b.size ≥ n + 2 + holeTSize
  · rw [if_pos hroom]
    have hr : holeTSize ≤ b.size - n - 2 := by omega
    have hsum : b.size = n + 2 + (b.size - n - 2) := by omega
    cases direction with
    | up =>
      obtain ⟨c, vs, htaken⟩ := takeBlock_up h hb hn hr hsum rfl
      exact ⟨[], c, vs, htaken⟩
    | down =>
      obtain ⟨us, c, htaken⟩ := takeBlock_down h hb hn hr hsum rfl
      exact ⟨us, c, [], htaken⟩
  · rw [if_neg hroom]
    obtain ⟨c, htaken⟩ := takeBlock_whole h hb hfit rfl
    exact ⟨[], c, [], htaken⟩

end

end

end MbedCloud.Heap

