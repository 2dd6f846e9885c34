import MbedCloud.Heap.Free

/-!
# Sessions of a client

`Sound` is kept by every request that a client may make (`sound_step`): the heap is tiled, the live
pointers are the pointers to the used blocks, and the statistics agree with them.
-/

namespace MbedCloud.Heap

open Lib List

/-! ## Calls -/

/-- The books of one heap, which differ in the statistics only. -/
def SameHeap (b b' : Book) : Prop := b = { b' with memStatInfo := b.memStatInfo }

theorem SameHeap.trans {b1 b2 b3 : Book} (h : SameHeap b1 b2) (h' : SameHeap b2 b3) : SameHeap b1 b3 := by
  rw [h'] at h
  exact h

variable {bs : List Block}

theorem Tiled.congr {s s' : State} (h : Tiled s bs) (hmem : s'.mem = s.mem) (hbook : SameHeap s'.book s.book) : Tiled s' bs := by
  obtain ⟨h1, h2, h3, h4, h5, h6⟩ := h
  constructor
  · rw [hbook]
    exact h1
  · rw [hbook, hmem]
    exact h2
  · rw [hbook, hmem]
    exact h3
  · exact h4
  · rw [hbook]
    exact h5
  · rw [hbook]
    exact h6

def StatOk (s : State) (bs : List Block) : Prop :=
  ∀ st, s.book.memStatInfo = some st → st.heapSectorAllocatedBytes.toNat = usedWords bs * wordSize

theorem statOk_mapStat {s : State} {bs' : List Block} {g : MemStat → MemStat} (h : StatOk s bs)
    (hg : ∀ st, st.heapSectorAllocatedBytes.toNat = usedWords bs * wordSize →
      (g st).heapSectorAllocatedBytes.toNat = usedWords bs' * wordSize) : StatOk (s.mapStat g) bs' := by
  intro st hst
  change s.book.memStatInfo.map g = some st at hst
  rw [Option.map_eq_some_iff] at hst
  obtain ⟨st', hst', rfl⟩ := hst
  exact hg st' (h st' hst')

section Calls

variable {s : State} {xs ys us vs : List Block} {b c : Block}

theorem words_bytes_lt (h : Tiled s bs) : words bs * wordSize < 65536 := by
  have hsize := h.heapSize
  have hlt := s.book.heapSize.toNat_lt
  unfold wordSize at hsize ⊢
  omega

theorem toNat_blockBytes (h : Tiled s bs) (hb : b ∈ bs) : (blockBytes b.size).toNat = b.words * wordSize := by
  have hlt := words_bytes_lt h
  obtain ⟨xs, ys, rfl⟩ := append_of_mem hb
  rw [words_append, words_cons] at hlt
  unfold blockBytes
  rw [UInt16.toNat_ofNat']
  unfold Block.words at hlt ⊢
  unfold wordSize at hlt ⊢
  omega

/-- What an allocation does to the blocks and the memory. -/
inductive Allocates (s : State) (bs : List Block) (size : UInt16) : Option Nat → List Block → Mem → Prop
  | refused (h : size = 0 ∨ ∀ b ∈ bs, b.hole = true → b.size < convertAllocationSize size) :
      Allocates s bs size none bs s.mem
  | taken {xs ys us vs : List Block} {b c : Block} {m : Mem} (hbs : bs = xs ++ [b] ++ ys) (hb : b.hole = true)
      (hsplits : Splits b us c vs) (henough : convertAllocationSize size ≤ c.size) (hsize : size ≠ 0)
      (hframe : SameAround s xs [b] ys m) :
      Allocates s bs size (some (s.book.heapMain + words xs + words us + 1)) (xs ++ (us ++ [c] ++ vs) ++ ys) m

theorem checkAllocationSize_same (s : State) (size : UInt16) :
    (s.checkAllocationSize size).mem = s.mem ∧ (s.checkAllocationSize size).book = s.book := by
  unfold State.checkAllocationSize
  split
  · exact ⟨rfl, rfl⟩
  split
  · exact ⟨rfl, rfl⟩
  · split <;> exact ⟨rfl, rfl⟩

theorem convertAllocationSize_eq_zero {size : UInt16} : convertAllocationSize size = 0 ↔ size = 0 := by
  unfold convertAllocationSize wordSize
  rw [← UInt16.toNat_inj, UInt16.toNat_zero]
  omega

theorem nsMemInternalAlloc_spec (h : Tiled s bs) (hstat : StatOk s bs) (size : UInt16) (direction : Direction) :
    ∃ r s' bs', nsMemInternalAlloc s size direction = some (r, s') ∧ Allocates s bs size r bs' s'.mem ∧
      Tiled s' bs' ∧ StatOk s' bs' ∧ SameHeap s'.book s.book := by
  obtain ⟨hmem, hbook⟩ := checkAllocationSize_same s size
  have hsame : SameHeap (s.checkAllocationSize size).book s.book := by
    rw [hbook]
    rfl
  have h1 : Tiled (s.checkAllocationSize size) bs := h.congr hmem hsame
  have hstat1 : StatOk (s.checkAllocationSize size) bs := by
    unfold StatOk
    rw [hbook]
    exact hstat
  have hrefused : ∀ (hno : size = 0 ∨ ∀ b ∈ bs, b.hole = true → b.size < convertAllocationSize size),
      ∃ r s' bs', some ((none : Option Nat), (s.checkAllocationSize size).mapStat allocFail) = some (r, s') ∧
        Allocates s bs size r bs' s'.mem ∧ Tiled s' bs' ∧ StatOk s' bs' ∧ SameHeap s'.book s.book := by
    intro hno
    refine ⟨none, _, bs, rfl, ?_, h1.congr rfl rfl, statOk_mapStat hstat1 fun st hst => hst, ?_⟩
    · show Allocates s bs size none bs (s.checkAllocationSize size).mem
      rw [hmem]
      exact .refused hno
    · exact .trans (show SameHeap _ (s.checkAllocationSize size).book from rfl) hsame
  unfold nsMemInternalAlloc
  by_cases hzero : convertAllocationSize size = 0
  · rw [if_pos hzero]
    exact hrefused (.inl (convertAllocationSize_eq_zero.mp hzero))
  rw [if_neg hzero]
  rcases findHole_spec h1 (convertAllocationSize size) direction with ⟨hend, hnone⟩ | ⟨xs, b, ys, rfl, hb, hfit, hfound⟩
  · rw [hend]
    exact hrefused (.inr hnone)
  rw [hfound]
  obtain ⟨us, c, vs, htaken⟩ := takeBlock_spec h1 hb (Nat.pos_of_ne_zero hzero) hfit direction
  dsimp only
  generalize takeBlock (s.checkAllocationSize size).book.holesList
    ((s.checkAllocationSize size).book.heapMain + words xs) (convertAllocationSize size) direction
    (s.checkAllocationSize size).mem = r at htaken ⊢
  obtain ⟨⟨block, k⟩, m⟩ := r
  obtain ⟨rfl, rfl⟩ := Prod.mk.inj htaken.block
  have htiled := htaken.tiled
  have hframe := htaken.frame
  refine ⟨_, _, xs ++ (us ++ [c] ++ vs) ++ ys, rfl, ?_, htiled.congr rfl rfl, ?_, ?_⟩
  · unfold SameAround at hframe
    rw [hmem, hbook] at hframe
    rw [hbook]
    exact .taken rfl hb htaken.splits htaken.enough (fun hs => hzero (convertAllocationSize_eq_zero.mpr hs)) hframe
  · have hin : c ∈ xs ++ (us ++ [c] ++ vs) ++ ys := by
      rw [mem_append, mem_append, mem_append, mem_append]
      exact .inl (.inr (.inl (.inr (mem_singleton.mpr rfl))))
    refine statOk_mapStat (s := { s.checkAllocationSize size with mem := m }) hstat1 fun st hst => ?_
    have hused := htaken.splits.usedWords_eq xs ys
    have hle := usedWords_le (xs ++ (us ++ [c] ++ vs) ++ ys)
    have hlt := words_bytes_lt htiled
    show (st.heapSectorAllocatedBytes + blockBytes c.size).toNat = _
    rw [UInt16.toNat_add, hst, toNat_blockBytes htiled hin]
    unfold wordSize at *
    omega
  · exact .trans (show SameHeap _ (s.checkAllocationSize size).book from rfl) hsame

theorem nsMemFree_spec (h : Tiled s (xs ++ [b] ++ ys)) (hstat : StatOk s (xs ++ [b] ++ ys)) (hb : b.used = true) :
    ∃ s' xs' lo hi ys' c, xs = xs' ++ lo ∧ ys = hi ++ ys' ∧ Released s xs' lo b hi ys' c s'.mem ∧
      nsMemFree s (s.book.heapMain + words xs + 1) = some s' ∧ SameHeap s'.book s.book ∧
      StatOk s' (xs' ++ [c] ++ ys') := by
  have hin : (s.book.heapMain + words xs, b) ∈ place s.book.heapMain (xs ++ [b] ++ ys) := mem_place_here
  have htag := (h.tagged _ hin).1
  rw [Block.tag_used hb] at htag
  have hbounds := bounds_of_mem_place hin
  have hextent := h.extent
  dsimp only at hbounds htag
  obtain ⟨xs', lo, hi, ys', c, m, hxs, hys, hreleased, heq⟩ := nsMemFreeAndMergeWithAdjacentBlocks_spec h hb
  refine ⟨State.mapStat { s with mem := m } (freed (blockBytes b.size)), xs', lo, hi, ys', c, hxs, hys, hreleased, ?_,
    (by rfl), ?_⟩
  · unfold nsMemFree
    dsimp only
    rw [Nat.add_sub_cancel, htag, if_neg (by omega), if_neg (by omega), if_neg (by omega),
      nsMemBlockValidate_of_tagged h.tagged hin, if_neg (by simp), Int.toNat_natCast, heq]
    rfl
  refine statOk_mapStat (s := { s with mem := m }) hstat fun st hst => ?_
  have hused := hreleased.splits.usedWords_eq xs' ys'
  have hshape : xs ++ [b] ++ ys = xs' ++ (lo ++ [b] ++ hi) ++ ys' := by
    rw [hxs, hys]
    simp only [append_assoc]
  rw [← hshape] at hused
  have hmem : b ∈ xs ++ [b] ++ ys := mem_append_left ys (mem_append_right xs (mem_singleton.mpr rfl))
  have hbytes := toNat_blockBytes h hmem
  show (st.heapSectorAllocatedBytes - blockBytes b.size).toNat = _
  rw [UInt16.toNat_sub_of_le _ _ (by rw [UInt16.le_iff_toNat_le, hst, hbytes]; unfold wordSize at *; omega), hst, hbytes]
  unfold wordSize at *
  omega

end Calls

/-! ## The invariant -/

/-- What holds of a session with the blocks `bs`. -/
structure Sound (b0 : Book) (c : Session) (bs : List Block) : Prop where
  book : SameHeap c.state.book b0
  tiled : Tiled c.state bs
  stat : StatOk c.state bs
  /-- A live pointer points to a used block. -/
  live : ∀ b ∈ c.live, ∃ x ∈ place c.state.book.heapMain bs, x.2.used = true ∧ b.1 = x.1 + 1 ∧ b.2.toNat ≤ x.2.size * wordSize
  /-- There is a pointer to every used block. -/
  used : ∀ x ∈ place c.state.book.heapMain bs, x.2.used = true → x.1 + 1 ∈ c.live.map (·.1)
  nodup : (c.live.map (·.1)).Nodup

section Step

variable {b0 : Book} {c : Session} {x : Nat × Block} {a k : Nat} {xs ys us vs : List Block} {b d : Block}

/-- A word of a used block is no part of a descriptor. -/
theorem data_not_link {l : Nat} (hl : l + 1 < a) (hx : x ∈ place a bs) (hused : x.2.used = true)
    (hk : x.1 ≤ k ∧ k < x.1 + (x.2.size + 2)) : ¬ IsLink l (holes a bs) k := by
  intro hlink
  have hhole := (hole_of_isLink hl hx hlink hk).1
  rw [hole_of_used hused] at hhole
  cases hhole

theorem tiled_store {s : State} (h : Tiled s bs) (hx : x ∈ place s.book.heapMain bs)
    (hused : x.2.used = true) (hk : x.1 < k ∧ k < x.1 + 1 + x.2.size) (v : Int) :
    Tiled { s with mem := s.mem.write k v } bs where
  extent := h.extent
  tagged := by
    intro y hy
    have hne : y.1 ≠ k ∧ y.1 + 1 + y.2.size ≠ k := by
      rcases place_disjoint hx hy with rfl | hdisj | hdisj <;> omega
    dsimp only
    rw [Mem.write_ne _ _ hne.1, Mem.write_ne _ _ hne.2]
    exact h.tagged y hy
  holes := by
    have hlink := data_not_link h.below hx hused (k := k) (by omega)
    refine h.holes.congr fun e he => ⟨Mem.write_ne _ _ fun heq => hlink ⟨e, he, .inl heq.symm⟩,
      Mem.write_ne _ _ fun heq => hlink ⟨e, he, .inr heq.symm⟩⟩
  __ := h

theorem sound_allocate (h : Sound b0 c bs) (size : UInt16) (direction : Direction) :
    ∃ c' bs', allocate c size direction = some c' ∧ Sound b0 c' bs' := by
  obtain ⟨r, s', bs', heq, halloc, htiled, hstat, hbook⟩ := nsMemInternalAlloc_spec h.tiled h.stat size direction
  have hmain : s'.book.heapMain = c.state.book.heapMain := by rw [hbook]
  have hlive : (∀ b ∈ (r.map (·, size)).toList ++ c.live, ∃ x ∈ place c.state.book.heapMain bs', x.2.used = true ∧
      b.1 = x.1 + 1 ∧ b.2.toNat ≤ x.2.size * wordSize) ∧
      (∀ x ∈ place c.state.book.heapMain bs', x.2.used = true → x.1 + 1 ∈ ((r.map (·, size)).toList ++ c.live).map (·.1)) ∧
      (((r.map (·, size)).toList ++ c.live).map (·.1)).Nodup := by
    generalize s'.mem = m at halloc
    cases halloc with
    | refused hno => exact ⟨h.live, h.used, h.nodup⟩
    | @taken xs ys us vs b d m hbs hb hsplits henough hsize hframe =>
      subst hbs
      have hiff := fun {x : Nat × Block} => hsplits.mem_place_iff (x := x) c.state.book.heapMain xs ys
      have hfresh : c.state.book.heapMain + words xs + words us + 1 ∉ c.live.map (·.1) := by
        intro hmem
        obtain ⟨b', hb', heq⟩ := mem_map.mp hmem
        obtain ⟨x, hx, hused, hptr, -⟩ := h.live b' hb'
        exact hsplits.ne hx hused (by omega)
      refine ⟨?_, ?_, nodup_cons.mpr ⟨hfresh, h.nodup⟩⟩
      · intro b' hb'
        rcases mem_cons.mp hb' with rfl | hb'
        · refine ⟨_, (hiff hsplits.used).mpr (.inr rfl), hsplits.used, rfl, ?_⟩
          unfold convertAllocationSize wordSize at henough
          unfold wordSize
          dsimp only
          omega
        · obtain ⟨x, hx, hused, hptr, hn⟩ := h.live b' hb'
          exact ⟨x, (hiff hused).mpr (.inl hx), hused, hptr, hn⟩
      · intro x hx hused
        rcases (hiff hused).mp hx with hx | rfl
        · exact .tail _ (h.used x hx hused)
        · exact .head _
  rw [← hmain] at hlive
  refine ⟨⟨s', (r.map (·, size)).toList ++ c.live⟩, bs', ?_, hbook.trans h.book, htiled, hstat, hlive.1, hlive.2.1, hlive.2.2⟩
  unfold allocate
  rw [heq]
  rfl

theorem sound_free (h : Sound b0 c bs) {p : Nat} (hp : p ∈ c.live.map (·.1)) :
    ∃ c' bs', step c (.free p) = some c' ∧ Sound b0 c' bs' := by
  obtain ⟨b', hb', rfl⟩ := mem_map.mp hp
  obtain ⟨x, hx, hused, hptr, -⟩ := h.live b' hb'
  obtain ⟨xs, ys, hbs, haddress⟩ := mem_place.mp hx
  have hshape : bs = xs ++ [x.2] ++ ys := by
    rw [hbs, append_assoc]
    rfl
  have htiled := h.tiled
  have hstat := h.stat
  rw [hshape] at htiled hstat
  obtain ⟨s', us, lo, hi, vs, d, rfl, rfl, hreleased, heq, hbook, hstat'⟩ := nsMemFree_spec htiled hstat hused
  have hmain : s'.book.heapMain = c.state.book.heapMain := by rw [hbook]
  have hsplits := hreleased.splits
  have hshape' : us ++ lo ++ [x.2] ++ (hi ++ vs) = us ++ (lo ++ [x.2] ++ hi) ++ vs := by simp only [append_assoc]
  have hiff := fun {y : Nat × Block} => hsplits.mem_place_iff (x := y) c.state.book.heapMain us vs
  rw [← hshape', ← hshape] at hiff
  rw [words_append, ← Nat.add_assoc] at haddress heq
  refine ⟨⟨s', c.live.filter fun b => b.1 ≠ b'.1⟩, us ++ [d] ++ vs, ?_, hbook.trans h.book, ?_, hstat', ?_, ?_, ?_⟩
  · show (nsMemFree c.state b'.1 >>= fun s => some (Session.mk s (c.live.filter fun b => b.1 ≠ b'.1))) = _
    rw [hptr, haddress, heq]
    rfl
  · exact hreleased.tiled.congr rfl hbook
  · intro b hb
    rw [mem_filter, decide_eq_true_iff] at hb
    obtain ⟨y, hy, hyused, hyptr, hn⟩ := h.live b hb.1
    rw [hmain]
    rcases (hiff hyused).mp hy with hy | rfl
    · exact ⟨y, hy, hyused, hyptr, hn⟩
    · refine absurd ?_ hb.2
      rw [hyptr, hptr, haddress]
  · intro y hy hyused
    rw [hmain] at hy
    obtain ⟨b, hb, heqb⟩ := mem_map.mp (h.used y ((hiff hyused).mpr (.inl hy)) hyused)
    refine mem_map.mpr ⟨b, mem_filter.mpr ⟨hb, decide_eq_true ?_⟩, heqb⟩
    intro hsame
    exact hsplits.ne hy hyused (by omega)
  · exact .sublist (.map _ filter_sublist) h.nodup

theorem sound_store (h : Sound b0 c bs) {v : Int} (hk : Allowed c (.store k v)) :
    ∃ c' bs', step c (.store k v) = some c' ∧ Sound b0 c' bs' := by
  obtain ⟨b, hb, hle, hlt⟩ := hk
  obtain ⟨x, hx, hused, hptr, hn⟩ := h.live b hb
  refine ⟨_, bs, rfl, h.book, tiled_store h.tiled hx hused ⟨by omega, ?_⟩ v, h.stat, h.live, h.used, h.nodup⟩
  unfold wordSize at hlt hn
  omega

theorem sound_step (h : Sound b0 c bs) {r : Request} (hr : Allowed c r) : ∃ c' bs', step c r = some c' ∧ Sound b0 c' bs' := by
  cases r with
  | alloc size => exact sound_allocate h size .down
  | temporaryAlloc size => exact sound_allocate h size .up
  | free p => exact sound_free h hr
  | store k v => exact sound_store h hr

theorem sound_reaches {c0 : Session} (h : Reaches c0 c) {bs0 : List Block} (h0 : Sound b0 c0 bs0) : ∃ bs, Sound b0 c bs := by
  induction h with
  | start => exact ⟨bs0, h0⟩
  | step r _ hr hstep ih =>
    obtain ⟨bs, hsound⟩ := ih
    obtain ⟨c', bs', heq, hsound'⟩ := sound_step hsound hr
    rw [hstep] at heq
    cases heq
    exact ⟨bs', hsound'⟩

end Step

end MbedCloud.Heap

