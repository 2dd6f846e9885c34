import MbedCloud.Heap.Alloc

/-!
# Release

A released block is merged with the free blocks `lo` in front of it and `hi` behind it, of which there is at
most one each. The result is a single free block, and the list of holes is the one that belongs to it
(`updateHoles_spec`).
-/

namespace MbedCloud.Heap

open Lib List

/-! ## Free neighbours -/

def AtMostOneFree (bs : List Block) : Prop := bs = [] ∨ ∃ c : Block, bs = [c] ∧ c.used = false

theorem AtMostOneFree.free {bs : List Block} (h : AtMostOneFree bs) : ∀ x ∈ bs, x.used = false := by
  rcases h with rfl | ⟨c, rfl, hc⟩
  · exact nofun
  · exact fun x hx => mem_singleton.mp hx ▸ hc

section Neighbours

variable {xs ys : List Block}

theorem split_last (h : Merged xs) : ∃ xs' lo, xs = xs' ++ lo ∧ AtMostOneFree lo ∧ Merged xs' ∧
    ∀ x ∈ xs'.getLast?, x.used = true := by
  rcases eq_nil_or_concat' xs with rfl | ⟨xs', c, rfl⟩
  · exact ⟨[], [], rfl, .inl rfl, h, (by simp)⟩
  unfold Merged at h
  rw [isChain_append] at h
  by_cases hc : c.used = true
  · refine ⟨xs' ++ [c], [], (append_nil _).symm, .inl rfl, isChain_append.mpr h, ?_⟩
    intro x hx
    rw [getLast?_concat, Option.mem_some_iff] at hx
    rw [← hx, hc]
  rw [Bool.not_eq_true] at hc
  exact ⟨xs', [c], rfl, .inr ⟨c, rfl, hc⟩, h.1, fun x hx => (h.2.2 x hx c rfl).resolve_right (by simp [hc])⟩

theorem split_first (h : Merged ys) : ∃ hi ys', ys = hi ++ ys' ∧ AtMostOneFree hi ∧ Merged ys' ∧
    ∀ y ∈ ys'.head?, y.used = true := by
  cases ys with
  | nil => exact ⟨[], [], rfl, .inl rfl, h, (by simp)⟩
  | cons c ys =>
    by_cases hc : c.used = true
    · refine ⟨[], c :: ys, rfl, .inl rfl, h, ?_⟩
      intro y hy
      rw [head?_cons, Option.mem_some_iff] at hy
      rw [← hy, hc]
    rw [Bool.not_eq_true] at hc
    unfold Merged at h
    rw [isChain_cons] at h
    exact ⟨[c], ys, rfl, .inr ⟨c, rfl, hc⟩, h.2, fun y hy => (h.1 y hy).resolve_left (by simp [hc])⟩

end Neighbours

/-! ## Merging -/

section

variable {s : State} {m : Mem} {xs lo hi ys : List Block} {g : Merge}

theorem holes_single {a : Nat} {c : Block} (hc : c.used = false) : holes a [c] = if holeTSize ≤ c.size then [a + 1] else [] := by
  rw [holes_cons]
  simp [Block.hole, hc, holes, place]

/-- The descriptor of the free block of a neighbour, `0` for none. -/
theorem descriptor_eq {a : Nat} {c : Block} (hc : c.used = false) :
    (if 1 + c.size + 1 ≥ 1 + holeTSize + 1 then a + 1 else 0) = (holes a [c]).headD 0 := by
  rw [holes_single hc]
  by_cases hsize : holeTSize ≤ c.size
  · rw [if_pos (by omega), if_pos hsize]
    rfl
  · rw [if_neg (by omega), if_neg hsize]
    rfl

theorem mergeBelow_eq (htagged : Tagged m (place s.book.heapMain (xs ++ lo))) (hlo : AtMostOneFree lo)
    (hlast : ∀ x ∈ xs.getLast?, x.used = true) (hstart : g.start = s.book.heapMain + words xs + words lo)
    (hnone : g.existingStart = 0) :
    mergeBelow s.book m g = { g with
      start := s.book.heapMain + words xs
      dataSize := g.dataSize + words lo
      existingStart := (holes (s.book.heapMain + words xs) lo).headD 0 } := by
  rcases hlo with rfl | ⟨c, rfl, hc⟩
  · have hkeep : ¬ (g.start ≠ s.book.heapMain ∧ m (g.start - 1) < 0) := by
      rintro ⟨hne, hneg⟩
      rcases eq_nil_or_concat' xs with rfl | ⟨xs, d, rfl⟩
      · exact hne hstart
      have hd : d.used = true := hlast d getLast?_concat
      have htag := (htagged _ mem_place_here).2
      have haddress : g.start - 1 = s.book.heapMain + words xs + 1 + d.size := by
        rw [hstart, words_append, words_singleton, words_nil]
        omega
      rw [haddress, htag, Block.tag_neg_iff, hd] at hneg
      cases hneg
    unfold mergeBelow
    rw [if_neg hkeep]
    cases g
    dsimp only at hstart hnone ⊢
    rw [hstart, hnone]
    rfl
  · have hin : (s.book.heapMain + words xs, c) ∈ place s.book.heapMain (xs ++ [c]) := mem_place.mpr ⟨xs, [], rfl, rfl⟩
    obtain ⟨htag, htag'⟩ := htagged _ hin
    have haddress : g.start - 1 = s.book.heapMain + words xs + 1 + c.size := by
      rw [hstart, words_singleton]
      omega
    have hvalue : m (g.start - 1) = -c.size := by rw [haddress, htag', Block.tag_free hc]
    have hsize : (-(m (g.start - 1))).toNat = c.size := by rw [hvalue, Int.neg_neg, Int.toNat_natCast]
    have hbelow : g.start - (1 + c.size + 1) = s.book.heapMain + words xs := by omega
    have hpos := c.pos
    unfold mergeBelow
    rw [if_pos ⟨by rw [hstart, words_singleton]; omega, by rw [hvalue]; omega⟩, hsize]
    dsimp only
    rw [hbelow, descriptor_eq hc, haddress, htag, htag', if_neg (fun hne => hne rfl), append_nil, words_singleton]
    congr 1
    omega

theorem mergeAbove_eq {p : Nat} (htagged : Tagged m (place p (hi ++ ys))) (hhi : AtMostOneFree hi)
    (hextent : s.book.heapMainEnd + 1 = p + words (hi ++ ys))
    (hhead : ∀ y ∈ ys.head?, y.used = true) (hstop : g.stop + 1 = p) (hnone : g.existingEnd = 0) :
    mergeAbove s.book m g = { g with
      stop := g.stop + words hi
      dataSize := g.dataSize + words hi
      existingEnd := (holes p hi).headD 0 } := by
  rcases hhi with rfl | ⟨c, rfl, hc⟩
  · have hkeep : ¬ (g.stop ≠ s.book.heapMainEnd ∧ m (g.stop + 1) < 0) := by
      rintro ⟨hne, hneg⟩
      cases ys with
      | nil =>
        rw [append_nil, words_nil] at hextent
        omega
      | cons d ys =>
        have hd : d.used = true := hhead d rfl
        have htag := (htagged (p, d) (.head _)).1
        rw [hstop, htag, Block.tag_neg_iff, hd] at hneg
        cases hneg
    unfold mergeAbove
    rw [if_neg hkeep]
    cases g
    dsimp only at hnone ⊢
    rw [hnone]
    rfl
  · have hin : (p, c) ∈ place p ([c] ++ ys) := .head _
    obtain ⟨htag, htag'⟩ := htagged _ hin
    have hvalue : m (g.stop + 1) = -c.size := by rw [hstop, htag, Block.tag_free hc]
    have hsize : (-(m (g.stop + 1))).toNat = c.size := by rw [hvalue, Int.neg_neg, Int.toNat_natCast]
    have habove : g.stop + (1 + c.size + 1) = p + 1 + c.size := by omega
    have hpos := c.pos
    rw [words_append, words_singleton] at hextent
    unfold mergeAbove
    rw [if_pos ⟨by omega, by rw [hvalue]; omega⟩, hsize]
    dsimp only
    rw [show g.stop + 2 = p + 1 by omega, descriptor_eq hc, habove, htag', hstop, htag, if_neg (fun hne => hne rfl),
      append_nil, words_singleton]
    congr 1 <;> omega

end

/-! ## The list of holes -/

section

variable {m : Mem} {l e : Nat} {as bs : List Nat} {b : Book}

theorem firstBehind_eq {fuel cur : Nat} (hvisits : Visits (fun e => nsListGetNext e m) cur (as ++ bs))
    (has : ∀ x ∈ as, x ≤ e) (hbs : ∀ x ∈ bs, e < x) (hfuel : (as ++ bs).length < fuel) :
    firstBehind m e fuel cur = some (bs.headD 0) := by
  induction as generalizing cur fuel with
  | nil =>
    cases fuel with
    | zero => exact absurd hfuel (Nat.not_lt_zero _)
    | succ fuel =>
      cases bs with
      | nil =>
        rw [firstBehind, if_pos (show cur = 0 from hvisits)]
        rfl
      | cons b bs =>
        obtain ⟨rfl, hne, -⟩ := hvisits
        rw [firstBehind, if_neg hne, if_pos (hbs _ (.head _))]
        rfl
  | cons a as ih =>
    cases fuel with
    | zero => exact absurd hfuel (Nat.not_lt_zero _)
    | succ fuel =>
      obtain ⟨rfl, hne, hrest⟩ := hvisits
      rw [firstBehind, if_neg hne, if_neg (Nat.not_lt.mpr (has _ (.head _)))]
      exact ih hrest (fun x hx => has x (.tail _ hx)) (Nat.lt_of_succ_lt_succ hfuel)

theorem insertHole_eq (h : IsList m l (as ++ bs)) :
    (if bs.headD 0 ≠ 0 then nsListAddBefore (bs.headD 0) e m else nsListAddToEnd l e m) =
      addInFront (bs.headD l) (bs.headD 0) e m := by
  cases bs with
  | nil => rfl
  | cons b bs => exact if_pos (h.nonzero b (mem_append_right as (.head _)))

/-- What `updateHoles` makes of the descriptors `lo` and `hi` of the neighbours, with `fits` for a block
that has room for a descriptor. -/
theorem updateHoles_spec {g : Merge} {lo hi : List Nat} (h : IsList m b.holesList (as ++ (lo ++ (hi ++ bs))))
    (hlo : lo = [] ∨ lo = [g.start + 1]) (hhi : hi = [] ∨ ∃ e, hi = [e])
    (hstart : g.existingStart = lo.headD 0) (hend : g.existingEnd = hi.headD 0)
    (hfits : lo ≠ [] ∨ hi ≠ [] → holeTSize ≤ g.dataSize)
    (hfuel : (as ++ bs).length < b.words + 1)
    (has : ∀ x ∈ as, x ≤ g.start + 1) (hbs : ∀ x ∈ bs, g.start + 1 < x)
    (hapart : ∀ x ∈ b.holesList :: (as ++ bs), Apart x (g.start + 1)) :
    ∃ m', updateHoles b g m = some m' ∧
      IsList m' b.holesList (as ++ ((if holeTSize ≤ g.dataSize then [g.start + 1] else []) ++ bs)) ∧
      ∀ x, ¬ IsLink b.holesList (as ++ (lo ++ (hi ++ bs))) x → x ≠ g.start + 1 → x ≠ g.start + 2 → m' x = m x := by
  -- the descriptor behind the released block is removed
  have hremoved : ∃ m1, (if g.existingEnd ≠ 0 then nsListRemove b.holesList g.existingEnd m else m) = m1 ∧
      IsList m1 b.holesList (as ++ (lo ++ bs)) ∧
      (hi ≠ [] → (if g.existingEnd ≠ 0 then nsListGetNext g.existingEnd m else 0) = bs.headD 0) ∧
      (hi = [] ↔ g.existingEnd = 0) ∧
      ∀ x, ¬ IsLink b.holesList (as ++ (lo ++ (hi ++ bs))) x → m1 x = m x := by
    rcases hhi with rfl | ⟨e, rfl⟩
    · rw [hend]
      exact ⟨m, rfl, h, (fun hne => absurd rfl hne), ⟨fun _ => rfl, fun _ => rfl⟩, fun x _ => rfl⟩
    have h' : IsList m b.holesList ((as ++ lo) ++ e :: bs) := by
      rw [append_assoc]
      exact h
    have hne : e ≠ 0 := h'.nonzero e (mem_append_right _ (.head _))
    obtain ⟨hlist, hframe⟩ := nsListRemove_isList h'
    rw [hend, headD_cons, if_pos hne, if_pos hne]
    refine ⟨_, rfl, ?_, fun _ => nsListGetNext_eq h', ?_, fun x hx => hframe x fun hch => hx ?_⟩
    · rw [append_assoc] at hlist
      exact hlist
    · exact ⟨(by simp), fun hzero => absurd hzero hne⟩
    have hlink := isLink_of_linkChanged hch
    rw [append_assoc] at hlink
    exact hlink
  obtain ⟨m1, hm1, hlist1, hnext, hiff, hframe1⟩ := hremoved
  unfold updateHoles
  rw [hm1, hstart]
  rcases hlo with rfl | rfl
  · rw [nil_append] at hlist1
    rw [headD_nil, if_neg (fun hne => hne rfl)]
    by_cases hroom : holeTSize ≤ g.dataSize
    · -- a new descriptor is inserted
      rw [if_pos hroom, if_pos hroom]
      have hbefore : holeBehind b g (if g.existingEnd ≠ 0 then nsListGetNext g.existingEnd m else 0) m1 = some (bs.headD 0) := by
        unfold holeBehind
        by_cases hhi' : hi = []
        · rw [if_pos (hiff.mp hhi'), nsListGetFirst_eq hlist1]
          exact firstBehind_eq (visits_next (show IsList m1 b.holesList ([] ++ (as ++ bs)) from hlist1)) has hbs hfuel
        · rw [if_neg (fun hzero => hhi' (hiff.mpr hzero)), hnext hhi']
      rw [hbefore]
      obtain ⟨hlist2, hframe2⟩ := addInFront_isList hlist1 (Nat.succ_ne_zero g.start) hapart
      refine ⟨_, rfl, ?_, ?_⟩
      · rw [insertHole_eq hlist1]
        exact hlist2
      intro x hx hx1 hx2
      rw [insertHole_eq hlist1, hframe2 x ?_, hframe1 x hx]
      intro hch
      have hlink := (isLink_of_linkChanged hch).of_ne hx1 hx2
      exact hx (hlink.mono (List.Sublist.subset ((sublist_append_right hi bs).append_left as)))
    · -- too small for a descriptor
      rw [if_neg hroom, if_neg hroom]
      exact ⟨m1, rfl, hlist1, fun x hx _ _ => hframe1 x hx⟩
  · -- the descriptor in front of the released block stays
    rw [headD_cons, if_pos (Nat.succ_ne_zero g.start), if_pos (hfits (.inl (cons_ne_nil _ _)))]
    exact ⟨m1, rfl, hlist1, fun x hx _ _ => hframe1 x hx⟩

end

/-! ## The released block -/

/-- The block `b` is released, and becomes a part of the free block `c`. -/
structure Released (s : State) (xs lo : List Block) (b : Block) (hi ys : List Block) (c : Block) (m : Mem) :
    Prop where
  splits : Splits c lo b hi
  tiled : Tiled { s with mem := m } (xs ++ [c] ++ ys)
  frame : SameAround s xs (lo ++ [b] ++ hi) ys m

section Release

variable {s : State} {xs ys : List Block} {b : Block}

theorem holes_free {a : Nat} {bs : List Block} (h : AtMostOneFree bs) :
    holes a bs = [] ∨ holes a bs = [a + 1] ∧ holeTSize + 2 ≤ words bs := by
  rcases h with rfl | ⟨c, rfl, hc⟩
  · exact .inl rfl
  rw [holes_single hc, words_singleton]
  split_ifs with hsize
  · exact .inr ⟨rfl, by omega⟩
  · exact .inl rfl

theorem hole_of_used (hb : b.used = true) : b.hole = false := by simp [Block.hole, hb]

variable {lo hi : List Block} {p q : Nat}

theorem place_released (hq : q = s.book.heapMain + words xs) (hp : p = q + words lo) :
    place s.book.heapMain (xs ++ (lo ++ [b] ++ hi) ++ ys) =
      place s.book.heapMain (xs ++ lo) ++ ((p, b) :: place (p + b.words) (hi ++ ys)) := by
  have hshape : xs ++ (lo ++ [b] ++ hi) ++ ys = xs ++ lo ++ b :: (hi ++ ys) := by
    simp only [append_assoc, cons_append, nil_append]
  have hp' : s.book.heapMain + words (xs ++ lo) = p := by
    rw [words_append]
    omega
  rw [hshape, place_append, place, hp']

theorem holes_released (hb : b.used = true) (hq : q = s.book.heapMain + words xs) (hp : p = q + words lo) :
    holes s.book.heapMain (xs ++ (lo ++ [b] ++ hi) ++ ys) = holes s.book.heapMain xs ++
      (holes q lo ++ (holes (p + b.words) hi ++ holes (q + words (lo ++ [b] ++ hi)) ys)) := by
  have hp' : q + words (lo ++ [b]) = p + b.words := by
    rw [words_append, words_cons, words_nil]
    omega
  rw [holes_around, ← hq, holes_append, holes_append, holes_other (hole_of_used hb), hp', append_nil, append_assoc]

/-- The released block after it has been merged with its neighbours. -/
theorem merge_eq (h : Tiled s (xs ++ (lo ++ [b] ++ hi) ++ ys)) (hq : q = s.book.heapMain + words xs)
    (hp : p = q + words lo) (hlo : AtMostOneFree lo) (hhi : AtMostOneFree hi)
    (hlast : ∀ x ∈ xs.getLast?, x.used = true) (hhead : ∀ y ∈ ys.head?, y.used = true) {v : Int} :
    mergeAbove s.book (writeTags s.mem p b.size v) (mergeBelow s.book (writeTags s.mem p b.size v)
      ⟨p, p + b.size + 1, b.size, 0, 0, []⟩) =
      ⟨q, p + b.size + 1 + words hi, b.size + words lo + words hi, (holes q lo).headD 0,
        (holes (p + b.words) hi).headD 0, []⟩ := by
  have hkeep : ∀ x ∈ place s.book.heapMain (xs ++ lo) ++ place (p + b.words) (hi ++ ys),
      writeTags s.mem p b.size v x.1 = x.2.tag ∧ writeTags s.mem p b.size v (x.1 + 1 + x.2.size) = x.2.tag := by
    intro x hx
    have htag := h.tagged x
    rw [place_released hq hp] at htag
    have hp' : s.book.heapMain + words (xs ++ lo) = p := by
      rw [words_append]
      omega
    have hin : x ∈ place s.book.heapMain (xs ++ lo) ++ (p, b) :: place (p + b.words) (hi ++ ys) :=
      (sublist_cons_self (p, b) _).append_left _ |>.subset hx
    have hapart : x.1 + (x.2.size + 2) ≤ p ∨ p + (b.size + 2) ≤ x.1 := by
      rcases mem_append.mp hx with hx | hx
      · exact .inl (hp' ▸ (bounds_of_mem_place hx).2)
      · exact .inr (bounds_of_mem_place hx).1
    rw [writeTags_ne (by omega) (by omega), writeTags_ne (by omega) (by omega)]
    exact htag hin
  have hfront : Tagged (writeTags s.mem p b.size v) (place s.book.heapMain (xs ++ lo)) :=
    fun x hx => hkeep x (mem_append_left _ hx)
  have hrest : Tagged (writeTags s.mem p b.size v) (place (p + b.words) (hi ++ ys)) := fun x hx => hkeep x (mem_append_right _ hx)
  have hextent : s.book.heapMainEnd + 1 = p + b.words + words (hi ++ ys) := by
    have := h.extent
    rw [words_append, words_append, words_append, words_append, words_cons, words_nil] at this
    rw [words_append]
    omega
  have hbelow := mergeBelow_eq (g := ⟨p, p + b.size + 1, b.size, 0, 0, []⟩) hfront hlo hlast (by rw [hp, hq]) rfl
  rw [← hq] at hbelow
  rw [hbelow]
  exact mergeAbove_eq hrest hhi hextent hhead rfl rfl

theorem nsMemFreeAndMergeWithAdjacentBlocks_spec (h : Tiled s (xs ++ [b] ++ ys)) (hb : b.used = true) :
    ∃ xs' lo hi ys' c m, xs = xs' ++ lo ∧ ys = hi ++ ys' ∧ Released s xs' lo b hi ys' c m ∧
      nsMemFreeAndMergeWithAdjacentBlocks s (s.book.heapMain + words xs) b.size = some { s with mem := m } := by
  have hchain := h.merged
  unfold Merged at hchain
  rw [isChain_append, isChain_append] at hchain
  obtain ⟨xs', lo, rfl, hlo, hxs', hlast⟩ := split_last hchain.1.1
  obtain ⟨hi, ys', rfl, hhi, hys', hhead⟩ := split_first hchain.2.1
  have hshape : xs' ++ lo ++ [b] ++ (hi ++ ys') = xs' ++ (lo ++ [b] ++ hi) ++ ys' := by simp only [append_assoc]
  rw [hshape] at h
  obtain ⟨q, hq⟩ : ∃ q, q = s.book.heapMain + words xs' := ⟨_, rfl⟩
  obtain ⟨p, hp⟩ : ∃ p, p = q + words lo := ⟨_, rfl⟩
  have hp' : s.book.heapMain + words (xs' ++ lo) = p := by
    rw [words_append]
    omega
  have hbpos := b.pos
  have hmid : words (lo ++ [b] ++ hi) = words lo + (b.size + 2) + words hi := by rw [words_append, words_append, words_singleton]
  let c : Block := ⟨words (lo ++ [b] ++ hi) - 2, false, by omega⟩
  have hc : c.size = words (lo ++ [b] ++ hi) - 2 := rfl
  have hcwords : words [c] = words (lo ++ [b] ++ hi) := by
    rw [words_singleton]
    omega
  -- the length words of the released block are negated, which leaves the list alone
  have hbin : (p, b) ∈ place s.book.heapMain (xs' ++ (lo ++ [b] ++ hi) ++ ys') := by
    rw [place_released hq hp]
    exact mem_append_right _ (.head _)
  have hlist0 : IsList (writeTags s.mem p b.size (-b.size)) s.book.holesList
      (holes s.book.heapMain (xs' ++ (lo ++ [b] ++ hi) ++ ys')) := isList_writeTags h.holes h.below hbin
  rw [holes_released hb hq hp] at hlist0
  let g : Merge := ⟨q, p + b.size + 1 + words hi, b.size + words lo + words hi, (holes q lo).headD 0,
    (holes (p + b.words) hi).headD 0, []⟩
  have hgstart : g.start = q := rfl
  have hgstop : g.stop = q + 1 + c.size := by
    show p + b.size + 1 + words hi = _
    omega
  have hgsize : g.dataSize = c.size := by
    show b.size + words lo + words hi = _
    omega
  -- then the list is updated
  have hloDesc : holes q lo = [] ∨ holes q lo = [g.start + 1] := (holes_free hlo).imp id And.left
  have hhiDesc : holes (p + b.words) hi = [] ∨ ∃ e, holes (p + b.words) hi = [e] :=
    (holes_free hhi).imp id fun hone => ⟨_, hone.1⟩
  have hfits : holes q lo ≠ [] ∨ holes (p + b.words) hi ≠ [] → holeTSize ≤ g.dataSize := by
    rintro (hne | hne)
    · have := ((holes_free hlo).resolve_left hne).2
      omega
    · have := ((holes_free hhi).resolve_left hne).2
      omega
  have hlength : (holes s.book.heapMain xs' ++ holes (q + words (lo ++ [b] ++ hi)) ys').length <
      s.book.words + 1 := by
    have h1 := length_holes_le s.book.heapMain xs'
    have h2 := length_holes_le (q + words (lo ++ [b] ++ hi)) ys'
    have h3 := h.extent
    rw [words_append, words_append] at h3
    rw [length_append, Book.words]
    omega
  have hfront : ∀ x ∈ holes s.book.heapMain xs', x ≤ g.start + 1 := by
    intro x hx
    have := bounds_of_mem_holes hx
    omega
  have hrest : ∀ x ∈ holes (q + words (lo ++ [b] ++ hi)) ys', g.start + 1 < x := by
    intro x hx
    have := bounds_of_mem_holes hx
    omega
  have hapart : ∀ x ∈ s.book.holesList :: (holes s.book.heapMain xs' ++ holes (q + words (lo ++ [b] ++ hi)) ys'),
      Apart x (g.start + 1) := by
    rw [hq]
    exact apart_around h.below (by omega) (by omega)
  obtain ⟨m1, hupdate, hlist1, hframe1⟩ := updateHoles_spec hlist0 hloDesc hhiDesc rfl rfl hfits hlength hfront hrest hapart
  rw [← holes_released hb hq hp] at hframe1
  -- and last the length words of the merged block are written
  have hnew : holes s.book.heapMain (xs' ++ [c] ++ ys') = holes s.book.heapMain xs' ++
      ((if holeTSize ≤ g.dataSize then [g.start + 1] else []) ++ holes (q + words (lo ++ [b] ++ hi)) ys') := by
    rw [holes_around, hcwords, ← hq, hgsize, hgstart, holes_single rfl]
  rw [← hnew] at hlist1
  have hcin : (q, c) ∈ place s.book.heapMain (xs' ++ [c] ++ ys') := hq ▸ mem_place_here
  have hframe : SameAround s xs' (lo ++ [b] ++ hi) ys' (writeTags m1 q c.size c.tag) := by
    intro x hx hlink
    rw [writeTags_ne (by omega) (by omega), hframe1 x hlink (by omega) (by omega), writeTags_ne (by omega) (by omega)]
  refine ⟨xs', lo, hi, ys', c, writeTags m1 q c.size c.tag, rfl, rfl, ⟨⟨hcwords.symm, rfl, hb, ?_⟩,
    h.replace hcwords hframe ?_ (isList_writeTags hlist1 h.below hcin)
      (merged_join hxs' hys' hlast hhead (isChain_singleton _)), hframe⟩, ?_⟩
  · intro x hx
    exact (mem_append.mp hx).elim (hlo.free x) (hhi.free x)
  · intro x hx
    rw [mem_singleton.mp hx, ← hq]
    exact ⟨writeTags_start, writeTags_stop⟩
  · have htags : (s.mem.write p (-b.size)).write (p + b.size + 1) (-b.size) = writeTags s.mem p b.size (-b.size) := by
      rw [writeTags, Nat.add_right_comm]
    unfold nsMemFreeAndMergeWithAdjacentBlocks
    dsimp only
    rw [hp', htags, merge_eq h hq hp hlo hhi hlast hhead]
    rw [show updateHoles s.book ⟨q, p + b.size + 1 + words hi, b.size + words lo + words hi, (holes q lo).headD 0,
      (holes (p + b.words) hi).headD 0, []⟩ (writeTags s.mem p b.size (-b.size)) = some m1 from hupdate]
    rw [hgsize, hgstop, append_nil]
    rfl

end Release

end MbedCloud.Heap

