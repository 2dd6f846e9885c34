import Mathlib.Data.List.Nodup

/-!
# A window over a history

A buffer of `k` places that drops its oldest element for a new one when it is full, and from
which elements expire. The history holds every element that was ever pushed, with a mark for
those that have expired since.

`Window k hist buf` says that the buffer holds the elements among the last `k` of the history
that have not expired. It is kept by pushing (`Window.push`), and by expiry as long as no
element expires before an older one (`Window.expire`): otherwise the buffer has room for new
elements while an older one stays, and that one outlives `k` others.
-/

namespace MbedCloud.Lib

open List

variable {α β : Type}

/-! ## The last elements -/

/-- The last `k` elements. -/
def recent (k : Nat) (xs : List α) : List α := xs.drop (xs.length - k)

theorem length_recent (k : Nat) (xs : List α) : (recent k xs).length = min k xs.length := by
  rw [recent, length_drop]
  omega

theorem recent_append_singleton (k : Nat) (xs : List α) (x : α) : recent (k + 1) (xs ++ [x]) = recent k xs ++ [x] := by
  rw [recent, recent, length_append, length_singleton, Nat.add_sub_add_right, drop_append_of_le_length (Nat.sub_le _ _)]

theorem recent_map (k : Nat) (f : α → β) (xs : List α) : recent k (xs.map f) = (recent k xs).map f := by
  rw [recent, recent, length_map, map_drop]

variable {k : Nat} {xs : List α} {x : α} {buf : List α}

theorem tail_recent (h : k < xs.length) : (recent (k + 1) xs).tail = recent k xs := by
  rw [recent, recent, tail_drop]
  congr 1
  omega

theorem recent_of_length_le (h : xs.length ≤ k) : recent k xs = xs := by rw [recent, Nat.sub_eq_zero_of_le h, drop_zero]

theorem mem_recent_iff : x ∈ recent k xs ↔ ∃ pre post, xs = pre ++ x :: post ∧ post.length < k := by
  constructor
  · intro hx
    obtain ⟨before, post, heq⟩ := append_of_mem hx
    refine ⟨xs.take (xs.length - k) ++ before, post, ?_, ?_⟩
    · rw [append_assoc, ← heq, recent, take_append_drop]
    have hlen := length_recent k xs
    rw [heq, length_append, length_cons] at hlen
    omega
  · rintro ⟨pre, post, rfl, hpost⟩
    rw [recent, length_append, length_cons, drop_append_of_le_length (by omega)]
    exact mem_append_right _ (.head _)

/-! ## The window -/

def alive (hist : List (α × Bool)) : List α := (hist.filter fun x => !x.2).map (·.1)

theorem alive_append (hist hist' : List (α × Bool)) : alive (hist ++ hist') = alive hist ++ alive hist' := by
  rw [alive, filter_append, map_append]
  rfl

theorem mem_alive_iff {hist : List (α × Bool)} : x ∈ alive hist ↔ (x, false) ∈ hist := by simp [alive]

theorem length_alive_le (hist : List (α × Bool)) : (alive hist).length ≤ hist.length := by
  rw [alive, length_map]
  exact length_filter_le _ hist

theorem length_alive_of_all {hist : List (α × Bool)} (h : ∀ x ∈ hist, x.2 = false) : (alive hist).length = hist.length := by
  rw [alive, length_map, filter_eq_self.mpr fun x hx => by rw [h x hx]; rfl]

theorem alive_cons_false (x : α) (hist : List (α × Bool)) : alive ((x, false) :: hist) = x :: alive hist := rfl

theorem alive_cons_true (x : α) (hist : List (α × Bool)) : alive ((x, true) :: hist) = alive hist := rfl

/-- The buffer holds what has not expired of the last `k` elements of the history, and of these
the oldest expire first. -/
structure Window (k : Nat) (hist : List (α × Bool)) (buf : List α) : Prop where
  buf_eq : buf = alive (recent k hist)
  oldest_first : (recent k hist).Pairwise fun x y => y.2 = true → x.2 = true

def pushed (k : Nat) (buf : List α) (x : α) : List α := (if buf.length < k then buf else buf.tail) ++ [x]

theorem map_pushed (k : Nat) (buf : List α) (x : α) (f : α → β) : (pushed k buf x).map f = pushed k (buf.map f) (f x) := by
  rw [pushed, pushed, map_append, length_map, apply_ite (List.map f), map_tail]
  rfl

theorem length_pushed_le (hk : 0 < k) (h : buf.length ≤ k) (x : α) : (pushed k buf x).length ≤ k := by
  rw [pushed, length_append, length_singleton]
  split
  · omega
  · rw [length_tail]
    omega

/-- The elements of the buffer after a push are the new one and old ones. -/
theorem mem_of_mem_pushed {x y : α} (h : y ∈ pushed k buf x) : y ∈ buf ∨ y = x := by
  rcases mem_append.mp h with h | h
  · split at h
    · exact .inl h
    · exact .inl (mem_of_mem_tail h)
  · exact .inr (mem_singleton.mp h)

theorem nodup_pushed (h : buf.Nodup) (hx : x ∉ buf) : (pushed k buf x).Nodup := by
  rw [pushed, nodup_append]
  refine ⟨?_, nodup_singleton x, fun y hy z hz heq => hx ?_⟩
  · split
    · exact h
    · exact h.tail
  rw [← mem_singleton.mp hz, ← heq]
  split at hy
  · exact hy
  · exact mem_of_mem_tail hy

/-- The marks after an expiry. -/
def expire (old : α → Bool) (hist : List (α × Bool)) : List (α × Bool) := hist.map fun x => (x.1, x.2 || old x.1)

namespace Window

variable {hist : List (α × Bool)}

theorem empty (k : Nat) : Window k ([] : List (α × Bool)) [] where
  buf_eq := by simp [alive, recent]
  oldest_first := by simp [recent]

theorem room_eq (hw : Window (k + 1) hist buf) : (if buf.length < k + 1 then buf else buf.tail) = alive (recent k hist) := by
  have hshort : (alive (recent k hist)).length < k + 1 := by
    have hle := length_alive_le (recent k hist)
    have hrecent := length_recent k hist
    omega
  have holdest := hw.oldest_first
  rw [hw.buf_eq]
  by_cases hlen : hist.length ≤ k
  · rw [recent_of_length_le hlen] at hshort ⊢
    rw [recent_of_length_le (Nat.le_succ_of_le hlen), if_pos hshort]
  have htail : (recent (k + 1) hist).tail = recent k hist := tail_recent (Nat.lt_of_not_le hlen)
  have hfull := length_recent (k + 1) hist
  cases hrecent : recent (k + 1) hist with
  | nil =>
    rw [hrecent, length_nil] at hfull
    omega
  | cons x rest =>
    rw [hrecent, tail_cons] at htail
    rw [hrecent] at holdest hfull
    subst htail
    obtain ⟨y, expired⟩ := x
    cases expired with
    | true => rw [alive_cons_true, if_pos hshort]
    | false =>
      -- the oldest of the last elements has not expired, so none of them has
      have hall : ∀ z ∈ recent k hist, z.2 = false := fun z hz =>
        Bool.eq_false_iff.mpr fun hexp => Bool.false_ne_true ((pairwise_cons.mp holdest).1 z hz hexp)
      rw [alive_cons_false, length_cons, length_alive_of_all hall, tail_cons, if_neg]
      rw [length_cons] at hfull
      omega

theorem push (hw : Window (k + 1) hist buf) (x : α) : Window (k + 1) (hist ++ [(x, false)]) (pushed (k + 1) buf x) where
  buf_eq := by
    rw [pushed, hw.room_eq, recent_append_singleton, alive_append]
    rfl
  oldest_first := by
    rw [recent_append_singleton, pairwise_append]
    refine ⟨?_, pairwise_singleton _ _, fun y _ z hz hexp => ?_⟩
    · have hsub : List.Sublist (recent k hist) (recent (k + 1) hist) := by
        by_cases hlen : hist.length ≤ k
        · rw [recent_of_length_le hlen, recent_of_length_le (Nat.le_succ_of_le hlen)]
        · rw [← tail_recent (Nat.lt_of_not_le hlen)]
          exact tail_sublist _
      exact hw.oldest_first.sublist hsub
    · rw [mem_singleton.mp hz] at hexp
      cases hexp

theorem alive_expire (old : α → Bool) (hist : List (α × Bool)) :
    alive (Lib.expire old hist) = (alive hist).filter fun x => !old x := by
  induction hist with
  | nil => rfl
  | cons x hist ih =>
    obtain ⟨y, expired⟩ := x
    change alive ((y, expired || old y) :: Lib.expire old hist) = _
    cases expired with
    | true => rw [Bool.true_or, alive_cons_true, alive_cons_true, ih]
    | false =>
      rw [Bool.false_or, alive_cons_false]
      cases hold : old y with
      | true => rw [alive_cons_true, ih, filter_cons_of_neg (by simp [hold])]
      | false => rw [alive_cons_false, ih, filter_cons_of_pos (by simp [hold])]

/-- If the oldest expire first, they do so after an expiry of the oldest. -/
theorem pairwise_expire {old : α → Bool} {hist : List (α × Bool)} (hfirst : hist.Pairwise fun x y => y.2 = true → x.2 = true)
    (hold : (alive hist).Pairwise fun x y => old y = true → old x = true) :
    hist.Pairwise fun x y => (y.2 || old y.1) = true → (x.2 || old x.1) = true := by
  induction hist with
  | nil => exact .nil
  | cons x hist ih =>
    obtain ⟨hx, hrest⟩ := pairwise_cons.mp hfirst
    obtain ⟨x, expired⟩ := x
    cases expired with
    | true => exact pairwise_cons.mpr ⟨fun _ _ _ => rfl, ih hrest hold⟩
    | false =>
      obtain ⟨hxold, hrestold⟩ := pairwise_cons.mp hold
      refine pairwise_cons.mpr ⟨fun y hy hyexp => ?_, ih hrest hrestold⟩
      have hyalive : y.2 = false := Bool.eq_false_iff.mpr fun hexp => Bool.false_ne_true (hx y hy hexp)
      rw [hyalive, Bool.false_or] at hyexp
      refine hxold y.1 (mem_alive_iff.mpr ?_) hyexp
      rwa [← hyalive]

protected theorem expire (hw : Window k hist buf) {old : α → Bool} (hold : buf.Pairwise fun x y => old y = true → old x = true) :
    Window k (Lib.expire old hist) (buf.filter fun x => !old x) where
  buf_eq := by
    rw [hw.buf_eq, Lib.expire, recent_map, ← alive_expire]
    rfl
  oldest_first := by
    rw [Lib.expire, recent_map, pairwise_map]
    rw [hw.buf_eq] at hold
    exact pairwise_expire hw.oldest_first hold

/-- What is in the buffer by the history. -/
theorem mem_iff (hw : Window k hist buf) {x : α} : x ∈ buf ↔ ∃ pre post, hist = pre ++ (x, false) :: post ∧ post.length < k := by
  rw [hw.buf_eq, mem_alive_iff, mem_recent_iff]

end Window

end MbedCloud.Lib

