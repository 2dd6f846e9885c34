import MbedCloud.Heap.Reachable

/-!
# What a client can rely on

An allocation succeeds if and only if there is a hole that is large enough; the block lies inside of the
heap and apart from every live one, whose words no call changes. Free blocks that have no room for a descriptor
are not found.
-/

namespace MbedCloud.Heap

open Lib List

section Calls

variable {s : State} {bs bs' : List Block} {size : UInt16} {r : Option Nat} {m : Mem}

/-- There is a hole for the words of an allocation, and the size is one that `convert_allocation_size` accepts. -/
def Available (s : State) (bs : List Block) (size : UInt16) : Prop :=
  0 < size.toNat ∧ size.toNat + 2 * wordSize ≤ s.book.heapSize.toNat ∧
    ∃ b ∈ bs, b.used = false ∧ holeTSize ≤ b.size ∧ convertAllocationSize size ≤ b.size

theorem isSome_iff_available (h : Tiled s bs) (halloc : Allocates s bs size r bs' m) : r.isSome = true ↔ Available s bs size := by
  cases halloc with
  | refused hno =>
    refine ⟨(by simp), ?_⟩
    rintro ⟨hpos, -, b, hb, hfree, hhole, hfit⟩
    rcases hno with rfl | hno
    · exact absurd hpos (Nat.lt_irrefl 0)
    · exact absurd (hno b hb (Block.hole_iff.mpr ⟨hfree, hhole⟩)) (Nat.not_lt.mpr hfit)
  | @taken xs ys us vs b c m hbs hb hsplits henough hsize hframe =>
    have hwords := hsplits.size
    refine ⟨fun _ => ⟨?_, ?_, b, ?_, (Block.hole_iff.mp hb).1, (Block.hole_iff.mp hb).2, ?_⟩, fun _ => rfl⟩
    · rw [Nat.pos_iff_ne_zero]
      intro hzero
      exact hsize (UInt16.toNat_inj.mp hzero)
    · have hheap := h.heapSize
      rw [hbs, words_append, words_append, words_singleton] at hheap
      unfold convertAllocationSize wordSize at henough
      unfold wordSize at hheap ⊢
      omega
    · rw [hbs]
      exact mem_append_left ys (mem_append_right xs (.head _))
    · omega

/-- A new block of `n` words at `p` lies in the heap, and apart from the used blocks. -/
def FreshBlock (s : State) (bs : List Block) (p n : Nat) : Prop :=
  s.book.heapMain < p ∧ p + n ≤ s.book.heapMainEnd ∧
    ∀ x ∈ place s.book.heapMain bs, x.2.used = true → p + n < x.1 ∨ x.1 + x.2.words < p

theorem freshBlock_of_allocates {p : Nat} (h : Tiled s bs) (halloc : Allocates s bs size (some p) bs' m) :
    ∃ n, size.toNat ≤ n * wordSize ∧ FreshBlock s bs p n := by
  cases halloc with
  | @taken xs ys us vs b c m hbs hb hsplits henough hsize hframe =>
    subst hbs
    have hextent := h.extent
    have hwords := hsplits.size
    rw [words_append, words_append, words_singleton] at hextent
    refine ⟨c.size, ?_, by omega, by omega, ?_⟩
    · unfold convertAllocationSize wordSize at henough
      unfold wordSize
      omega
    intro x hx hused
    have houtside := outside_of_used hsplits.free hx hused
    unfold Block.words
    omega

/-- No word of a used block is changed, except for the block at the pointer `p`. -/
def KeepsUsed (s : State) (bs : List Block) (p : Option Nat) (m : Mem) : Prop :=
  ∀ x ∈ place s.book.heapMain bs, x.2.used = true → some (x.1 + 1) ≠ p → ∀ k, x.1 ≤ k → k < x.1 + x.2.words → m k = s.mem k

/-- Around a free block the used ones are kept. -/
theorem SameAround.used {xs mid ys : List Block} {c : Block} {x : Nat × Block} {k : Nat} (hframe : SameAround s xs mid ys m)
    (h : Tiled s (xs ++ mid ++ ys)) (hc : c.used = false) (hwords : words mid = words [c])
    (hx : x ∈ place s.book.heapMain (xs ++ mid ++ ys)) (hx' : x ∈ place s.book.heapMain (xs ++ [c] ++ ys))
    (hused : x.2.used = true) (hk : x.1 ≤ k) (hk' : k < x.1 + x.2.words) : m k = s.mem k := by
  refine hframe k ?_ (data_not_link h.below hx hused ⟨hk, hk'⟩)
  have houtside := outside_of_used hc hx' hused
  unfold Block.words at hk'
  rw [hwords, words_singleton]
  omega

theorem keepsUsed_of_allocates (h : Tiled s bs) (halloc : Allocates s bs size r bs' m) : KeepsUsed s bs none m := by
  cases halloc with
  | refused hno => exact fun x _ _ _ k _ _ => rfl
  | @taken xs ys us vs b c m hbs hb hsplits henough hsize hframe =>
    subst hbs
    exact fun x hx hused _ k => hframe.used h hsplits.free rfl hx hx hused

theorem keepsUsed_of_released {xs lo hi ys : List Block} {b c : Block} (h : Tiled s (xs ++ lo ++ [b] ++ (hi ++ ys)))
    (hreleased : Released s xs lo b hi ys c m) :
    KeepsUsed s (xs ++ lo ++ [b] ++ (hi ++ ys)) (some (s.book.heapMain + words (xs ++ lo) + 1)) m := by
  rw [show xs ++ lo ++ [b] ++ (hi ++ ys) = xs ++ (lo ++ [b] ++ hi) ++ ys by simp only [append_assoc]] at h ⊢
  rw [words_append, ← Nat.add_assoc]
  intro x hx hused hne k
  have hsplits := hreleased.splits
  rcases (hsplits.mem_place_iff _ xs ys hused).mp hx with hx' | rfl
  · exact hreleased.frame.used h hsplits.free hsplits.words hx hx' hused
  · exact absurd rfl hne

end Calls

theorem heap_in_buffer {heap : Nat} {hSize : UInt16} (hroom : HasRoom heap hSize) (infoPtr : Bool) (m : Mem) :
    heap ≤ (nsDynMemInit heap hSize infoPtr m).state.book.heapMain * wordSize ∧
      ((nsDynMemInit heap hSize infoPtr m).state.book.heapMainEnd + 1) * wordSize ≤ heap + hSize.toNat := by
  have hsize : (initialSize heap hSize).toNat = _ := toNat_heapSize hroom
  have halign : (heap + padding heap) % wordSize = 0 := by
    unfold padding wordSize
    split <;> omega
  obtain ⟨t, ht, -⟩ := exists_words hroom
  unfold nsDynMemInit
  rw [nsMemInit_eq ht]
  rw [hsize] at ht
  unfold bookSize wordSize at ht
  unfold wordSize at halign ⊢
  dsimp only
  omega

/-- In every session on a heap with enough room: an allocation returns a block if and only if one is available, which
is inside of the heap, large enough and apart from the live blocks; the live blocks are not changed; and the
statistics count their bytes. -/
theorem heap_allocation {heap : Nat} {hSize : UInt16} (hroom : HasRoom heap hSize) (infoPtr : Bool) (m : Mem)
    {c : Session} (h : Reaches (nsDynMemInit heap hSize infoPtr m) c) :
    (heap ≤ c.state.book.heapMain * wordSize ∧ (c.state.book.heapMainEnd + 1) * wordSize ≤ heap + hSize.toNat) ∧
      ∃ bs, Tiled c.state bs ∧ (∀ p, p ∈ c.live.map (·.1) ↔ p ∈ pointers c.state.book.heapMain bs) ∧
        (∀ st, c.state.book.memStatInfo = some st → st.heapSectorAllocatedBytes.toNat = usedWords bs * wordSize) ∧
        (∀ size direction, ∃ r s', nsMemInternalAlloc c.state size direction = some (r, s') ∧
          (r.isSome = true ↔ Available c.state bs size) ∧
          (∀ p, r = some p → ∃ n, size.toNat ≤ n * wordSize ∧ FreshBlock c.state bs p n) ∧
          KeepsUsed c.state bs none s'.mem) ∧
        ∀ p ∈ c.live.map (·.1), ∃ s', nsMemFree c.state p = some s' ∧ KeepsUsed c.state bs (some p) s'.mem := by
  obtain ⟨b, hb, h0⟩ := sound_nsDynMemInit hroom infoPtr m
  obtain ⟨bs, hsound⟩ := sound_reaches h h0
  refine ⟨?_, bs, hsound.tiled, mem_live_iff hsound, hsound.stat, fun size direction => ?_, fun p hp => ?_⟩
  · rw [hsound.book]
    exact heap_in_buffer hroom infoPtr m
  · obtain ⟨r, s', bs', heq, halloc, -, -, -⟩ := nsMemInternalAlloc_spec hsound.tiled hsound.stat size direction
    refine ⟨r, s', heq, isSome_iff_available hsound.tiled halloc, ?_, keepsUsed_of_allocates hsound.tiled halloc⟩
    rintro p rfl
    exact freshBlock_of_allocates hsound.tiled halloc
  obtain ⟨x, hx, hused, rfl⟩ := mem_pointers.mp ((mem_live_iff hsound p).mp hp)
  obtain ⟨xs, ys, rfl, haddress⟩ := mem_place.mp hx
  rw [append_cons] at hsound
  obtain ⟨s', us, lo, hi, vs, d, rfl, rfl, hreleased, heq, -, -⟩ := nsMemFree_spec hsound.tiled hsound.stat hused
  refine ⟨s', ?_, ?_⟩
  · rw [haddress]
    exact heq
  · rw [haddress, append_cons]
    exact keepsUsed_of_released hsound.tiled hreleased

/-- The small heap with a live block of one word. -/
def oneLive : Session := after smallHeap (.alloc 4)

/-- A second block of one word is available, and the first one can be freed. -/
theorem heap_allocation_smallHeap : HasRoom 64 56 ∧ oneLive.live.map (·.1) = [28] ∧
    (∃ r s', nsMemInternalAlloc oneLive.state 4 .down = some (r, s') ∧ r.isSome = true) ∧
      ∃ s', nsMemFree oneLive.state 28 = some s' := by
  have hlive : oneLive.live.map (·.1) = [28] := by decide
  have hsome : ((nsMemInternalAlloc oneLive.state 4 .down).bind (·.1)).isSome = true := by decide
  obtain ⟨-, bs, -, -, -, halloc, hfree⟩ := heap_allocation hasRoom_smallHeap true (fun _ => 0) (reaches_alloc .start 4)
  obtain ⟨r, s', heq, -⟩ := halloc 4 .down
  obtain ⟨s1, hfree, -⟩ := hfree 28 (hlive ▸ .head _)
  rw [show nsMemInternalAlloc oneLive.state 4 .down = some (r, s') from heq] at hsome
  exact ⟨hasRoom_smallHeap, hlive, ⟨r, s', heq, hsome⟩, s1, hfree⟩

/-- The last word of the small heap is free, the others are used. -/
def fragmented : Session := after (after (after smallHeap (.alloc 4)) (.alloc 4)) (.free 28)

theorem reaches_fragmented : Reaches smallHeap fragmented := by
  refine reaches_after (reaches_alloc (reaches_alloc .start 4) 4) ?_ ?_
  · show 28 ∈ _
    decide
  · decide

def fragmentedBlocks : List Block := [⟨2, true, by decide⟩, ⟨1, false, by decide⟩]

theorem tiled_fragmented : Tiled fragmented.state fragmentedBlocks := by
  have hholes : holes fragmented.state.book.heapMain fragmentedBlocks = [] := by decide
  refine ⟨by decide, ?_, ?_, isChain_pair.mpr (.inl rfl), by decide, by decide⟩
  · unfold Tagged
    decide
  rw [hholes]
  refine ⟨.intro, (by simp), ?_, ?_, pairwise_singleton _ _⟩
  · show fragmented.state.mem fragmented.state.book.holesList = 0
    decide
  · show fragmented.state.mem (fragmented.state.book.holesList + 1) = fragmented.state.book.holesList
    decide

/-- A free block of one word is not found. -/
theorem fragmented_refuses : HasRoom 64 56 ∧ Reaches smallHeap fragmented ∧ Tiled fragmented.state fragmentedBlocks ∧
    (∃ b ∈ fragmentedBlocks, b.used = false ∧ convertAllocationSize 4 ≤ b.size) ∧
    (nsMemInternalAlloc fragmented.state 4 .down).map (·.1) = some none := by
  refine ⟨hasRoom_smallHeap, reaches_fragmented, tiled_fragmented, ⟨⟨1, false, by decide⟩, ?_, rfl, ?_⟩, by decide⟩
  · exact .tail _ (.head _)
  · exact Nat.le_refl 1

/-! ## Blocks over time -/

/-- The calls of a client that neither frees the block at `p` nor writes to the word `a`. -/
inductive Meanwhile (p a : Nat) (c : Session) : Session → Prop
  | start : Meanwhile p a c c
  | step {c1 c2 : Session} (r : Request) (hrun : Meanwhile p a c c1) (hr : Allowed c1 r)
      (hother : r ≠ .free p ∧ ∀ v, r ≠ .store a v) (hstep : step c1 r = some c2) : Meanwhile p a c c2

section Live

variable {b0 : Book} {c c' : Session} {bs : List Block} {p a : Nat} {size : UInt16} (h : Sound b0 c bs)
include h

/-- A live block becomes a part of a free one. -/
theorem Sound.released (hp : (p, size) ∈ c.live) : ∃ s bs', nsMemFree c.state p = some s ∧ Tiled s bs' ∧ StatOk s bs' ∧
    (∃ d ∈ bs', d.used = false ∧ size.toNat ≤ d.size * wordSize) ∧ KeepsUsed c.state bs (some p) s.mem := by
  obtain ⟨x, hx, hused, rfl, hsize⟩ := h.live _ hp
  obtain ⟨xs, ys, rfl, haddress⟩ := mem_place.mp hx
  rw [append_cons] at h ⊢
  obtain ⟨s, us, lo, hi, vs, d, rfl, rfl, hreleased, heq, hbook, hstat⟩ := nsMemFree_spec h.tiled h.stat hused
  have hd := hreleased.splits.size
  rw [haddress]
  refine ⟨s, _, heq, hreleased.tiled.congr rfl hbook, hstat, ⟨d, by simp, hreleased.splits.free, ?_⟩,
    keepsUsed_of_released h.tiled hreleased⟩
  exact hsize.trans (Nat.mul_le_mul_right _ (by omega))

theorem kept_allocate {n : UInt16} {direction : Direction} (hstep : allocate c n direction = some c') :
    c.live ⊆ c'.live ∧ KeepsUsed c.state bs none c'.state.mem := by
  obtain ⟨r, s, _, heq, hspec, -⟩ := nsMemInternalAlloc_spec h.tiled h.stat n direction
  rw [allocate, heq] at hstep
  cases hstep
  exact ⟨subset_append_right _ _, keepsUsed_of_allocates h.tiled hspec⟩

theorem kept_step (hp : (p, size) ∈ c.live) (ha : p ≤ a ∧ (a - p) * wordSize < size.toNat) {r : Request}
    (hr : Allowed c r) (hother : r ≠ .free p ∧ ∀ v, r ≠ .store a v) (hstep : step c r = some c') :
    (p, size) ∈ c'.live ∧ c'.state.mem a = c.state.mem a := by
  obtain ⟨x, hx, hused, rfl, hsize⟩ := h.live _ hp
  have hin : x.1 ≤ a ∧ a < x.1 + x.2.words := by
    unfold Block.words wordSize at *
    dsimp only at hsize
    omega
  cases r with
  | alloc n => exact (kept_allocate h hstep).imp (· hp) (· x hx hused nofun a hin.1 hin.2)
  | temporaryAlloc n => exact (kept_allocate h hstep).imp (· hp) (· x hx hused nofun a hin.1 hin.2)
  | free q =>
    obtain ⟨b, hb, rfl⟩ := mem_map.mp hr
    obtain ⟨s, -, heq, -, -, -, hkept⟩ := h.released hb
    rw [step, heq] at hstep
    cases hstep
    have hne : x.1 + 1 ≠ b.1 := fun heq => hother.1 (congrArg _ heq.symm)
    exact ⟨mem_filter.mpr ⟨hp, decide_eq_true hne⟩, hkept x hx hused (by simpa using hne) a hin.1 hin.2⟩
  | store k v =>
    cases hstep
    exact ⟨hp, Mem.write_ne _ _ fun heq => hother.2 v (by rw [heq])⟩

end Live

/-- In every session a word of a live block is kept until the block is freed or the client writes to the word. -/
theorem word_kept {heap p a : Nat} {hSize size : UInt16} (hroom : HasRoom heap hSize) {infoPtr : Bool} {m : Mem}
    {c c' : Session} (h : Reaches (nsDynMemInit heap hSize infoPtr m) c) (hp : (p, size) ∈ c.live)
    (ha : p ≤ a ∧ (a - p) * wordSize < size.toNat) (hrun : Meanwhile p a c c') :
    (p, size) ∈ c'.live ∧ c'.state.mem a = c.state.mem a := by
  obtain ⟨_, -, h0⟩ := sound_nsDynMemInit hroom infoPtr m
  -- the induction carries that the session is reachable
  suffices hall : Reaches (nsDynMemInit heap hSize infoPtr m) c' ∧ (p, size) ∈ c'.live ∧ _ from hall.2
  induction hrun with
  | start => exact ⟨h, hp, rfl⟩
  | step r _ hr hother hstep ih =>
    obtain ⟨hreach, hlive, hmem⟩ := ih
    obtain ⟨bs, hsound⟩ := sound_reaches hreach h0
    obtain ⟨hlive', hmem'⟩ := kept_step hsound hlive ha hr hother hstep
    exact ⟨.step r hreach hr hstep, hlive', hmem'.trans hmem⟩

theorem word_kept_smallHeap : (28, 4) ∈ (after (after smallHeap (.alloc 4)) (.alloc 4)).live ∧
    (after (after smallHeap (.alloc 4)) (.alloc 4)).state.mem 28 = (after smallHeap (.alloc 4)).state.mem 28 :=
  word_kept hasRoom_smallHeap (reaches_alloc .start 4) (by decide) (by decide) (.step (.alloc 4) .start .intro (by simp) (by rfl))

/-- What is freed can be allocated again, unless it is a single word. -/
theorem alloc_after_free {heap p : Nat} {hSize size n : UInt16} (hroom : HasRoom heap hSize) {infoPtr : Bool} {m : Mem}
    {c : Session} (h : Reaches (nsDynMemInit heap hSize infoPtr m) c) (hp : (p, size) ∈ c.live)
    (hn : n ≠ 0 ∧ n ≤ size ∧ 4 < size) (direction : Direction) :
    ∃ s q s', nsMemFree c.state p = some s ∧ nsMemInternalAlloc s n direction = some (some q, s') := by
  obtain ⟨_, -, h0⟩ := sound_nsDynMemInit hroom infoPtr m
  obtain ⟨bs, hsound⟩ := sound_reaches h h0
  obtain ⟨s, bs', heq, htiled, hstat, ⟨d, hd, hfree, hsize⟩, -⟩ := hsound.released hp
  obtain ⟨r, s', _, halloc, hspec, -⟩ := nsMemInternalAlloc_spec htiled hstat n direction
  generalize s'.mem = m' at hspec
  cases hspec with
  | taken => exact ⟨s, _, s', heq, halloc⟩
  | refused hno =>
    simp only [UInt16.lt_iff_toNat_lt, UInt16.le_iff_toNat_le, UInt16.reduceToNat] at hn
    unfold convertAllocationSize wordSize at *
    have hlt := hno.resolve_left hn.1 d hd (Block.hole_iff.mpr ⟨hfree, by unfold holeTSize; omega⟩)
    omega

theorem alloc_after_free_smallHeap : ∃ s q s', nsMemFree (after smallHeap (.alloc 8)).state 24 = some s ∧
    nsMemInternalAlloc s 8 .up = some (some q, s') :=
  alloc_after_free hasRoom_smallHeap (reaches_alloc .start 8) (show (24, 8) ∈ _ by decide) (by decide) .up

end MbedCloud.Heap
