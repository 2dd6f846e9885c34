import MbedCloud.Heap.Sessions

/-!
# Heaps after `ns_dyn_mem_init`

A heap that has room for the book and for one hole (`HasRoom`) starts as a single hole, and stays tiled in every
session. Smaller heaps do not: the descriptor of the first hole overwrites its length word.
-/

namespace MbedCloud.Heap

open Lib List

/-! ## The first hole -/

/-- There are at least two words for the first hole. -/
def HasRoom (heap : Nat) (hSize : UInt16) : Prop :=
  padding heap + padding (hSize.toNat - padding heap) + bookSize + (2 + holeTSize) * wordSize ≤ hSize.toNat

instance (heap : Nat) (hSize : UInt16) : Decidable (HasRoom heap hSize) := inferInstanceAs (Decidable (_ ≤ _))

section Init

variable {heap : Nat} {hSize : UInt16}

theorem toNat_heapSize (h : HasRoom heap hSize) :
    (hSize - UInt16.ofNat (padding heap) - UInt16.ofNat (padding (hSize - UInt16.ofNat (padding heap)).toNat) -
      UInt16.ofNat bookSize).toNat = hSize.toNat - padding heap - padding (hSize.toNat - padding heap) - bookSize := by
  have hlt := hSize.toNat_lt
  unfold HasRoom bookSize holeTSize wordSize at h
  have h1 : (hSize - .ofNat (padding heap)).toNat = hSize.toNat - padding heap := by
    rw [UInt16.toNat_sub, UInt16.toNat_ofNat']
    omega
  have h2 : (hSize - .ofNat (padding heap) -
      .ofNat (padding (hSize - .ofNat (padding heap)).toNat)).toNat =
      hSize.toNat - padding heap - padding (hSize.toNat - padding heap) := by
    rw [UInt16.toNat_sub, h1, UInt16.toNat_ofNat']
    omega
  rw [UInt16.toNat_sub, h2, UInt16.toNat_ofNat']
  unfold bookSize
  omega

/-- The size of the heap as `ns_mem_init` computes it. -/
def initialSize (heap : Nat) (hSize : UInt16) : UInt16 :=
  hSize - UInt16.ofNat (padding heap) - UInt16.ofNat (padding (hSize - UInt16.ofNat (padding heap)).toNat) -
    UInt16.ofNat bookSize

theorem exists_words (h : HasRoom heap hSize) : ∃ t, (initialSize heap hSize).toNat / wordSize = t + 2 ∧ 2 ≤ t := by
  have hsize : (initialSize heap hSize).toNat = _ := toNat_heapSize h
  unfold HasRoom bookSize holeTSize wordSize at h
  refine ⟨(initialSize heap hSize).toNat / wordSize - 2, ?_⟩
  rw [hsize]
  unfold bookSize wordSize
  omega

theorem nsMemInit_eq {t : Nat} (h : (initialSize heap hSize).toNat / wordSize = t + 2) (infoPtr : Bool) (m : Mem) :
    nsMemInit heap hSize infoPtr m =
      ⟨⟨(heap + padding heap) / wordSize + 7, (heap + padding heap) / wordSize + 7 + 1 + t,
          (heap + padding heap) / wordSize + 4, initialSize heap hSize,
          if infoPtr then some ⟨initialSize heap hSize, 0, 0, 0, 0, 0⟩ else none⟩,
        nsListAddToStart ((heap + padding heap) / wordSize + 4) ((heap + padding heap) / wordSize + 7 + 1)
          (nsListInit ((heap + padding heap) / wordSize + 4)
            (writeTags m ((heap + padding heap) / wordSize + 7) t (-t))), []⟩ := by
  have htemp : (((initialSize heap hSize).toNat / wordSize : Nat) : Int) - 2 = t := by omega
  have hptr : ∀ a : Nat, (((a + 7 : Nat) : Int) + ((t : Int) + 1)).toNat = a + 7 + 1 + t := by omega
  unfold nsMemInit
  dsimp only
  rw [← initialSize, htemp, hptr]
  rfl

theorem sound_nsDynMemInit (h : HasRoom heap hSize) (infoPtr : Bool) (m : Mem) :
    ∃ b : Block, b.used = false ∧
      Sound (nsDynMemInit heap hSize infoPtr m).state.book (nsDynMemInit heap hSize infoPtr m) [b] := by
  obtain ⟨t, ht, ht2⟩ := exists_words h
  let b : Block := ⟨t, false, by omega⟩
  have hb : b.hole = true := Block.hole_iff.mpr ⟨rfl, ht2⟩
  have hbsize : b.size = t := rfl
  have hbwords : words [b] = t + 2 := rfl
  refine ⟨b, rfl, ?_⟩
  unfold nsDynMemInit
  rw [nsMemInit_eq ht]
  generalize (heap + padding heap) / wordSize = a
  have hlist := nsListInit_isList (a + 4) (writeTags m (a + 7) t (-t))
  obtain ⟨hadded, hframe⟩ := nsListAddToStart_isList (e := a + 7 + 1) hlist (Nat.succ_ne_zero _) (by
    intro x hx
    rw [mem_singleton.mp hx]
    unfold Apart
    omega)
  have hkeep : ∀ x, x ≠ a + 4 → x ≠ a + 4 + 1 → x ≠ a + 7 + 1 → x ≠ a + 7 + 1 + 1 →
      nsListAddToStart (a + 4) (a + 7 + 1) (nsListInit (a + 4) (writeTags m (a + 7) t (-t))) x =
        writeTags m (a + 7) t (-t) x := by
    intro x h1 h2 h3 h4
    rw [hframe x (not_linkChanged h1 h3 h4 h2), nsListInit, Mem.write_ne _ _ h2, Mem.write_ne _ _ h1]
  refine ⟨rfl, ⟨?_, ?_, ?_, isChain_singleton _, ?_, ht⟩, ?_, (by simp), ?_, nodup_nil⟩
  · dsimp only
    omega
  · intro x hx
    rw [mem_singleton.mp hx]
    dsimp only
    rw [hkeep _ (by omega) (by omega) (by omega) (by omega), hkeep _ (by omega) (by omega) (by omega) (by omega)]
    exact ⟨writeTags_start, writeTags_stop⟩
  · dsimp only
    rw [holes_hole hb]
    exact hadded
  · dsimp only
    omega
  · intro st hst
    split_ifs at hst
    cases hst
    rfl
  · intro x hx hused
    rw [mem_singleton.mp hx] at hused
    cases hused

end Init

/-! ## Every session -/

def freeAll (c : Session) (ps : List Nat) : Option Session := ps.foldlM (fun c p => step c (.free p)) c

section Sessions

variable {b0 : Book} {c : Session} {bs : List Block}

theorem mem_live_iff (h : Sound b0 c bs) (p : Nat) : p ∈ c.live.map (·.1) ↔ p ∈ pointers c.state.book.heapMain bs := by
  rw [mem_pointers, mem_map]
  constructor
  · rintro ⟨b, hb, rfl⟩
    obtain ⟨x, hx, hused, hptr, -⟩ := h.live b hb
    exact ⟨x, hx, hused, hptr⟩
  · rintro ⟨x, hx, hused, rfl⟩
    exact mem_map.mp (h.used x hx hused)

theorem step_free_live {c' : Session} {p : Nat} (h : step c (.free p) = some c') : c'.live = c.live.filter fun b => b.1 ≠ p := by
  change (nsMemFree c.state p >>= fun s => some (.mk s (c.live.filter fun b => b.1 ≠ p))) = some c' at h
  cases hfree : nsMemFree c.state p with
  | none =>
    rw [hfree] at h
    cases h
  | some s =>
    rw [hfree] at h
    cases h
    rfl

/-- All live pointers can be freed, in any order. -/
theorem sound_freeAll (h : Sound b0 c bs) {ps : List Nat} (hps : ps.Perm (c.live.map (·.1))) :
    ∃ c' bs', freeAll c ps = some c' ∧ Sound b0 c' bs' ∧ c'.live = [] := by
  induction ps generalizing c bs with
  | nil => exact ⟨c, bs, rfl, h, map_eq_nil_iff.mp (nil_perm.mp hps)⟩
  | cons p ps ih =>
    obtain ⟨c1, bs1, hstep, h1⟩ := sound_free h (hps.subset (.head _))
    have hlive : c1.live.map (·.1) = (c.live.map (·.1)).filter fun q => q ≠ p := by
      rw [step_free_live hstep, filter_map]
      rfl
    have hnodup := hps.nodup_iff.mpr h.nodup
    have hrest : ps.Perm (c1.live.map (·.1)) := by
      rw [hlive]
      have hfilter := hps.filter fun q => decide (q ≠ p)
      rw [filter_cons_of_neg (by simp), filter_eq_self.mpr] at hfilter
      · exact hfilter
      intro q hq
      apply decide_eq_true
      intro heq
      exact (nodup_cons.mp hnodup).1 (heq ▸ hq)
    obtain ⟨c', bs', heq, hsound, hnil⟩ := ih h1 hrest
    refine ⟨c', bs', ?_, hsound, hnil⟩
    unfold freeAll at heq ⊢
    rw [foldlM_cons, hstep]
    exact heq

/-- Without live pointers there is a single free block. -/
theorem single_of_no_live (h : Sound b0 c bs) (hlive : c.live = []) (hwords : 0 < words bs) :
    ∃ b : Block, bs = [b] ∧ b.used = false := by
  have hfree : ∀ b ∈ bs, b.used = false := by
    intro b hb
    rw [Bool.eq_false_iff]
    intro hused
    obtain ⟨xs, ys, rfl⟩ := append_of_mem hb
    have := h.used (c.state.book.heapMain + words xs, b) (mem_place.mpr ⟨xs, ys, rfl, rfl⟩) hused
    rw [hlive] at this
    exact nomatch this
  have hmerged := h.tiled.merged
  match bs, hwords with
  | [b], _ => exact ⟨b, rfl, hfree b (.head _)⟩
  | b :: d :: bs, _ =>
    have hused := (isChain_cons_cons.mp hmerged).1
    rw [hfree b mem_cons_self, hfree d (.tail _ (.head _))] at hused
    rcases hused with hused | hused <;> cases hused

end Sessions

/-- In every session on a heap with enough room the heap is tiled by blocks, of which no two free ones are neighbours;
the holes are in the list, the used blocks are the live ones, every request comes to an end, and freeing all
live blocks restores the first hole. -/
theorem heap_tiled {heap : Nat} {hSize : UInt16} (hroom : HasRoom heap hSize) (infoPtr : Bool) (m : Mem)
    {c : Session} (h : Reaches (nsDynMemInit heap hSize infoPtr m) c) :
    (∃ bs, Tiled c.state bs ∧ ∀ p, p ∈ c.live.map (·.1) ↔ p ∈ pointers c.state.book.heapMain bs) ∧
      (∀ r, Allowed c r → (step c r).isSome = true) ∧
      ∀ ps : List Nat, ps.Perm (c.live.map (·.1)) → ∃ c' b, freeAll c ps = some c' ∧ b.used = false ∧
        Tiled c'.state [b] ∧ Tiled (nsDynMemInit heap hSize infoPtr m).state [b] := by
  obtain ⟨b, hb, h0⟩ := sound_nsDynMemInit hroom infoPtr m
  obtain ⟨bs, hsound⟩ := sound_reaches h h0
  refine ⟨⟨bs, hsound.tiled, mem_live_iff hsound⟩, fun r hr => ?_, fun ps hps => ?_⟩
  · obtain ⟨c', bs', hstep, -⟩ := sound_step hsound hr
    rw [hstep]
    rfl
  obtain ⟨c', bs', hfree, hsound', hnil⟩ := sound_freeAll hsound hps
  have hsame : words bs' = words [b] := by
    have h1 := hsound'.tiled.extent
    have h2 := h0.tiled.extent
    rw [hsound'.book] at h1
    dsimp only at h1
    omega
  have hwords : words [b] = b.size + 2 := rfl
  obtain ⟨d, rfl, hd⟩ := single_of_no_live hsound' hnil (by omega)
  have hdb : d = b := by
    have hsize : d.size = b.size := by
      have : words [d] = d.size + 2 := rfl
      omega
    cases d
    cases b
    subst hb hd hsize
    rfl
  subst hdb
  exact ⟨c', d, hfree, hd, hsound'.tiled, h0.tiled⟩

/-! ## Examples of sessions -/

/-- The session after a request that comes to an end. -/
def after (c : Session) (r : Request) : Session := (step c r).getD c

theorem reaches_after {c0 c : Session} {r : Request} (h : Reaches c0 c) (hr : Allowed c r)
    (hstep : (step c r).isSome = true) : Reaches c0 (after c r) := by
  refine .step r h hr ?_
  obtain ⟨c', hc'⟩ := Option.isSome_iff_exists.mp hstep
  unfold after
  rw [hc']
  rfl

def smallHeap : Session := nsDynMemInit 64 56 true fun _ => 0

theorem hasRoom_smallHeap : HasRoom 64 56 := by decide

theorem reaches_alloc {c : Session} (h : Reaches smallHeap c) (size : UInt16) : Reaches smallHeap (after c (.alloc size)) := by
  obtain ⟨b, -, h0⟩ := sound_nsDynMemInit hasRoom_smallHeap true fun _ => 0
  obtain ⟨bs, hsound⟩ := sound_reaches h h0
  obtain ⟨c', bs', hstep, -⟩ := sound_step hsound (show Allowed c (.alloc size) from .intro)
  refine reaches_after h .intro ?_
  rw [hstep]
  rfl

/-- Both words that are used are freed again. -/
theorem heap_tiled_smallHeap : HasRoom 64 56 ∧
    ∃ c' b, freeAll (after (after smallHeap (.alloc 4)) (.alloc 4)) [24, 28] = some c' ∧ b.used = false ∧ Tiled c'.state [b] := by
  refine ⟨hasRoom_smallHeap, ?_⟩
  have hreach := reaches_alloc (reaches_alloc .start 4) 4
  have hlive : (after (after smallHeap (.alloc 4)) (.alloc 4)).live.map (·.1) = [24, 28] := by decide
  obtain ⟨-, -, hall⟩ := heap_tiled hasRoom_smallHeap true (fun _ => 0) hreach
  obtain ⟨c', b, hfree, hb, htiled, -⟩ := hall [24, 28] (.of_eq hlive.symm)
  exact ⟨c', b, hfree, hb, htiled⟩

/-- In a heap with a single word between the length words the descriptor overwrites the second one. -/
theorem not_tiled_tinyHeap : ¬ HasRoom 64 40 ∧ ∀ bs, ¬ Tiled (nsDynMemInit 64 40 true fun _ => 0).state bs := by
  refine ⟨by decide, fun bs h => ?_⟩
  have hmain : (nsDynMemInit 64 40 true fun _ => 0).state.book.heapMain = 23 := by decide
  have hstart : (nsDynMemInit 64 40 true fun _ => 0).state.mem 23 = -1 := by decide
  have hstop : (nsDynMemInit 64 40 true fun _ => 0).state.mem 25 = 20 := by decide
  have hend : (nsDynMemInit 64 40 true fun _ => 0).state.book.heapMainEnd = 25 := by decide
  have hextent := h.extent
  have htagged := h.tagged
  cases bs with
  | nil =>
    rw [words_nil] at hextent
    omega
  | cons b bs =>
    have htag := htagged (23, b) (.head _)
    have hsize := b.natAbs_tag
    rw [← hsize, ← htag.1, hstart] at htag
    have hcontra := htag.2
    rw [show 23 + 1 + (-1 : Int).natAbs = 25 from rfl, hstop] at hcontra
    omega

end MbedCloud.Heap

