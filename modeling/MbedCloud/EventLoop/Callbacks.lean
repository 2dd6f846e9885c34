import Mathlib.Data.List.Induction
import Mathlib.Data.List.Nodup
import Mathlib.Data.List.Perm.Subperm
import MbedCloud.EventLoop.CallbackTimers

/-!
# Callbacks on time

A started timer has some slots `left`: those of the hardware timer, and for a timer on hold its own remaining ones on top.
Starting and stopping other timers changes the hardware timer and the remaining slots, but not their sum, and a slot that
passes takes one from it.
-/

namespace MbedCloud.CallbackTimers

open List

/-! ## Lists of timers -/

section

variable {timers : List Timer} {id : Nat}

theorem find_map {f : Timer → Timer} (hf : ∀ t, (f t).id = t.id) : find (timers.map f) id = (find timers id).map f := by
  unfold find
  rw [find?_map]
  congr 2
  funext t
  simp [hf t]

theorem map_ids {f : Timer → Timer} (hf : ∀ t, (f t).id = t.id) : (timers.map f).map (·.id) = timers.map (·.id) := by
  rw [map_map]
  exact map_congr_left fun t _ => hf t

theorem mem_of_find {t : Timer} (h : find timers id = some t) : t ∈ timers ∧ t.id = id :=
  ⟨mem_of_find?_eq_some h, by simpa using find?_some h⟩

/-- The timers of a number, when the numbers differ. -/
theorem filter_id (h : (timers.map (·.id)).Nodup) (id : Nat) : timers.filter (fun t => t.id = id) = (find timers id).toList := by
  induction timers with
  | nil => rfl
  | cons t timers ih =>
    rw [map_cons, nodup_cons] at h
    have hrest := ih h.2
    unfold find at hrest ⊢
    by_cases hid : t.id = id
    · have hnone : timers.filter (fun u => u.id = id) = [] := by
        refine filter_eq_nil_iff.mpr fun u hu hu' => h.1 (mem_map.mpr ⟨u, hu, ?_⟩)
        rw [hid]
        simpa using hu'
      rw [filter_cons_of_pos (by simpa using hid), find?_cons_of_pos (by simpa using hid), hnone]
      rfl
    · rw [filter_cons_of_neg (by simpa using hid), find?_cons_of_neg (by simpa using hid), hrest]

/-! ## The next timer -/

section

/-- What the loop has found: the least of the timers on hold that it has seen. -/
def IsLeast (timers : List Timer) : Option Timer → Prop
  | none => ∀ t ∈ timers, t.state ≠ .hold
  | some first => first ∈ timers ∧ first.state = .hold ∧ ∀ t ∈ timers, t.state = .hold → first.remaining ≤ t.remaining

theorem IsLeast.lesserHold {seen : List Timer} {first : Option Timer} (h : IsLeast seen first) (t : Timer) :
    IsLeast (seen ++ [t]) (lesserHold first t) := by
  unfold CallbackTimers.lesserHold
  by_cases ht : t.state = .hold
  · rw [if_pos ht]
    cases first with
    | none =>
      refine ⟨by simp, ht, fun u hu hhold => ?_⟩
      rcases mem_append.mp hu with hu | hu
      · exact absurd hhold (h u hu)
      · obtain rfl := mem_singleton.mp hu
        exact Int.le_refl _
    | some f =>
      obtain ⟨hmem, hhold, hleast⟩ := h
      dsimp only
      split
      · refine ⟨by simp, ht, fun u hu hu' => ?_⟩
        rcases mem_append.mp hu with hu | hu
        · have hfu := hleast u hu hu'
          omega
        · obtain rfl := mem_singleton.mp hu
          exact Int.le_refl _
      · refine ⟨mem_append_left _ hmem, hhold, fun u hu hu' => ?_⟩
        rcases mem_append.mp hu with hu | hu
        · exact hleast u hu hu'
        · rw [mem_singleton.mp hu]
          omega
  · rw [if_neg ht]
    have hlast : ∀ u ∈ seen ++ [t], u.state = .hold → u ∈ seen := by
      intro u hu hu'
      rcases mem_append.mp hu with hu | hu
      · exact hu
      · exact absurd (mem_singleton.mp hu ▸ hu') ht
    cases first with
    | none => exact fun u hu hu' => h u (hlast u hu hu') hu'
    | some f => exact ⟨mem_append_left _ h.1, h.2.1, fun u hu hu' => h.2.2 u (hlast u hu hu') hu'⟩

theorem isLeast_leastHold (timers : List Timer) : IsLeast timers (leastHold timers) := by
  induction timers using List.reverseRecOn with
  | nil => exact nofun
  | append_singleton seen t ih =>
    unfold leastHold
    rw [foldl_append]
    exact ih.lesserHold t

end

/-! ## The loops with a count -/

section

variable {wrap : Int → Int} {slots : Int}

theorem rebase_of_not_hold {t : Timer} (h : t.state ≠ .hold) : rebase wrap slots t = t := if_neg h

theorem map_rebase_of_not_hold (h : ∀ t ∈ timers, t.state ≠ .hold) : timers.map (rebase wrap slots) = timers :=
  (map_congr_left fun t ht => rebase_of_not_hold (h t ht)).trans (map_id _)

theorem toNat_pred {count : UInt8} {n : Nat} (h : n + 1 = count.toNat) : n = (count - 1).toNat := by
  have hsub := UInt8.toNat_sub count 1
  have hlt := count.toNat_lt
  have hone : (1 : UInt8).toNat = 1 := rfl
  omega

/-- The count is a number of timers, so that the loop sees all timers on hold. -/
theorem rebaseHolds_eq {count : UInt8} (h : timers.countP (fun t => t.state = .hold) = count.toNat) :
    rebaseHolds wrap slots count timers = timers.map (rebase wrap slots) := by
  induction timers generalizing count with
  | nil => rfl
  | cons t timers ih =>
    unfold rebaseHolds
    split
    · rename_i hzero
      rw [hzero] at h
      have hnone := countP_eq_zero.mp h
      exact (map_rebase_of_not_hold fun u hu => by simpa using hnone u hu).symm
    congr 1
    by_cases ht : t.state = .hold
    · rw [if_pos ht]
      rw [countP_cons_of_pos (by simpa using ht)] at h
      exact ih (toNat_pred h)
    · rw [if_neg ht]
      rw [countP_cons_of_neg (by simpa using ht)] at h
      exact ih h

/-- The state of a timer after its function has been called. -/
def called (t : Timer) : Timer := if t.state = .runInterrupt then { t with state := .stop } else t

theorem callFunctions_eq {now : Nat} {count : UInt8} (h : timers.countP (fun t => t.state = .runInterrupt) = count.toNat) :
    callFunctions now count timers =
      (timers.map called, (timers.filter fun t => t.state = .runInterrupt).map fun t => ⟨now, t.id, t.slots⟩) := by
  induction timers generalizing count with
  | nil => rfl
  | cons t timers ih =>
    unfold callFunctions
    split
    · rename_i hzero
      rw [hzero] at h
      have hnone := countP_eq_zero.mp h
      rw [filter_eq_nil_iff.mpr hnone]
      refine Prod.ext ?_ rfl
      symm
      refine (map_congr_left fun u hu => ?_).trans (map_id _)
      exact if_neg (by simpa using hnone u hu)
    · rename_i hne
      split_ifs with ht
      · rw [countP_cons_of_pos (by simpa using ht)] at h
        rw [ih (toNat_pred h), map_cons, filter_cons_of_pos (by simpa using ht), called, if_pos ht]
        rfl
      · rw [countP_cons_of_neg (by simpa using ht)] at h
        rw [ih h, map_cons, filter_cons_of_neg (by simpa using ht), called, if_neg ht]

end

end

/-! ## Starting the next timer -/

section

variable {s : State} {timers : List Timer} {first : Timer} {wrap : Int → Int}

section

variable (h : (timers.map (·.id)).Nodup) (hmem : first ∈ timers) (hhold : first.state = .hold)
include h hmem hhold

theorem countP_hold_change : timers.countP (fun t => t.state = .hold) =
      (change timers first.id fun t => { t with state := .active }).countP (fun t => t.state = .hold) + 1 := by
  obtain ⟨l₁, l₂, rfl⟩ := append_of_mem hmem
  rw [map_append, map_cons, nodup_middle, nodup_cons, ← map_append] at h
  have hother : ∀ t ∈ l₁ ++ l₂, t.id ≠ first.id := fun t ht heq => h.1 (mem_map.mpr ⟨t, ht, heq⟩)
  have hsame : ∀ l ⊆ l₁ ++ l₂, l.map (fun t => if t.id = first.id then { t with state := .active } else t) = l :=
    fun l hl => (map_congr_left fun t ht => if_neg (hother t (hl ht))).trans (map_id l)
  unfold change
  rw [map_append, map_cons, hsame l₁ (subset_append_left l₁ l₂), hsame l₂ (subset_append_right l₁ l₂)]
  simp only [countP_append, countP_cons, hhold]
  simp
  omega

/-- The first timer is made active by hand; the loop would do the same. -/
theorem map_rebase_change :
    (change timers first.id fun t => { t with state := .active }).map (rebase wrap first.remaining) =
      timers.map (rebase wrap first.remaining) := by
  unfold change
  rw [map_map]
  refine map_congr_left fun t ht => ?_
  show rebase wrap first.remaining (if t.id = first.id then { t with state := .active } else t) = _
  by_cases hid : t.id = first.id
  · rw [if_pos hid, inj_on_of_nodup_map h ht hmem hid, rebase_of_not_hold (by simp)]
    unfold rebase
    rw [if_pos hhold, if_pos rfl]
  · rw [if_neg hid]

end

theorem getNextRunningTo_none (h : leastHold s.timers = none) : getNextRunningTo wrap s = s := by
  unfold getNextRunningTo
  rw [h]

theorem getNextRunningTo_some (h : leastHold s.timers = some first) (hnodup : (s.timers.map (·.id)).Nodup)
    (hlength : s.timers.length ≤ 128) : getNextRunningTo wrap s =
      { startPlTimer first.remaining s with timers := s.timers.map (rebase wrap first.remaining) } := by
  have hleast := isLeast_leastHold s.timers
  rw [h] at hleast
  obtain ⟨hmem, hhold, _⟩ := hleast
  have hcount := countP_hold_change hnodup hmem hhold
  have hle : s.timers.countP (fun t => t.state = .hold) ≤ s.timers.length := countP_le_length
  unfold getNextRunningTo startPlTimer
  rw [h]
  dsimp only
  rw [rebaseHolds_eq, map_rebase_change hnodup hmem hhold]
  unfold holdCount
  rw [UInt8.toNat_sub, UInt8.toNat_ofNat']
  have hone : (1 : UInt8).toNat = 1 := rfl
  omega

end

/-! ## The slots that are left -/

def left (hardware : Int) (t : Timer) : Option Int :=
  match t.state with
  | .active => some hardware
  | .hold => some (hardware + t.remaining)
  | _ => none

/-- The slots that are left and those that the timer was started with. -/
def pending (s : State) (id : Nat) : Option (Int × Int) :=
  (find s.timers id).bind fun t => (left s.hardware t).map fun l => (l, t.slots)

structure Ok (hardware : Int) (t : Timer) : Prop where
  id : t.id < 128
  state : t.state ≠ .runInterrupt
  hold : t.state = .hold → 0 < t.remaining
  left : ∀ l, left hardware t = some l → l ≤ 65535

structure Inv (s : State) : Prop where
  nodup : (s.timers.map (·.id)).Nodup
  timers : ∀ t ∈ s.timers, Ok s.hardware t
  nonneg : 0 ≤ s.hardware
  le : s.hardware ≤ 65535
  running : s.running = true ↔ 0 < s.hardware
  started : ∀ t ∈ s.timers, left s.hardware t ≠ none → s.running = true

/-- What is pending for one timer. -/
def seen (hardware : Int) (t : Timer) : Option (Int × Int) := (left hardware t).map fun l => (l, t.slots)

section

variable {hardware : Int} {t : Timer}

theorem left_hold (h : t.state = .hold) : left hardware t = some (hardware + t.remaining) := by
  unfold left
  rw [h]

theorem Ok.range (h : Ok hardware t) (hhold : t.state = .hold) : 0 < t.remaining ∧ hardware + t.remaining ≤ 65535 :=
  ⟨h.hold hhold, h.left _ (left_hold hhold)⟩

end

section

variable {s : State} (h : Inv s)
include h

theorem Inv.length_le : s.timers.length ≤ 128 := by
  have hsub : s.timers.map (·.id) ⊆ .range 128 := by
    intro i hi
    obtain ⟨t, ht, rfl⟩ := mem_map.mp hi
    exact mem_range.mpr (h.timers t ht).id
  have hlength := (subperm_of_subset h.nodup hsub).length_le
  rw [length_map, length_range] at hlength
  exact hlength

theorem Inv.stopped (hrunning : ¬ s.running = true) {t : Timer} (ht : t ∈ s.timers) : t.state = .stop := by
  have hnone : CallbackTimers.left s.hardware t = none := by
    by_contra hsome
    exact hrunning (h.started t ht hsome)
  have hstate := (h.timers t ht).state
  unfold CallbackTimers.left at hnone
  split at hnone
  · cases hnone
  · cases hnone
  · cases hst : t.state <;> simp_all

end

/-! ## Numbers that do not wrap -/

/-- Numbers of 16 bits are kept. -/
def Exact (wrap : Int → Int) : Prop := ∀ x, 0 ≤ x → x ≤ 65535 → wrap x = x

theorem exact_wrap16 : Exact wrap16 := by
  intro x hlow hhigh
  unfold wrap16
  omega

/-- Arithmetic without bounds. -/
def unbounded (x : Int) : Int := x

theorem exact_unbounded : Exact unbounded := fun _ _ _ => rfl

/-- A step leads to the state with every arithmetic that keeps the numbers of 16 bits. -/
def Leads (f : (Int → Int) → State) (s' : State) : Prop := ∀ wrap, Exact wrap → f wrap = s'

section Exact

variable {s : State} {wrap : Int → Int} {slots hardware : Int} {t : Timer}

theorem rebase_exact (hwrap : Exact wrap) (h : t.state = .hold → slots ≤ t.remaining ∧ t.remaining - slots ≤ 65535) :
    rebase wrap slots t = rebase unbounded slots t := by
  unfold rebase
  split
  · rename_i hhold
    obtain ⟨hlow, hhigh⟩ := h hhold
    rw [hwrap _ (by omega) hhigh]
    rfl
  · rfl

theorem postpone_exact (hwrap : Exact wrap) (h : Ok hardware t) (hslots : 0 ≤ slots)
    (hlt : slots < hardware) (hle : hardware ≤ 65535) :
    postpone wrap (hardware - slots) t = postpone unbounded (hardware - slots) t := by
  unfold postpone
  by_cases hactive : t.state = .active
  · simp only [if_pos hactive, if_true]
    rw [hwrap _ (by omega) (by omega)]
    rfl
  simp only [if_neg hactive]
  split_ifs with hhold
  · have hrange := h.range hhold
    rw [hwrap _ (by omega) (by omega)]
    rfl
  · rfl

theorem resume_exact (hwrap : Exact wrap) (h : Ok hardware t) (hnonneg : 0 ≤ hardware) :
    resume wrap hardware t = resume unbounded hardware t := by
  unfold resume
  split_ifs with hhold
  · have hrange := h.range hhold
    rw [hwrap _ (by omega) (by omega)]
    rfl
  · rfl

/-- The timers on hold wait for the first of them. -/
theorem leads_getNextRunningTo (hnodup : (s.timers.map (·.id)).Nodup) (hlength : s.timers.length ≤ 128)
    (h : ∀ t ∈ s.timers, t.state = .hold → 0 < t.remaining ∧ t.remaining ≤ 65535) :
    ∃ hardware running, Leads (fun wrap => getNextRunningTo wrap s)
      { s with hardware := hardware, running := running, timers := s.timers.map (rebase unbounded hardware) } ∧
      (∀ t ∈ s.timers, t.state = .hold → hardware ≤ t.remaining) ∧
      ((∀ t ∈ s.timers, t.state ≠ .hold) ∧ hardware = s.hardware ∧ running = s.running ∨
        0 < hardware ∧ hardware ≤ 65535 ∧ running = true) := by
  have hfirst := isLeast_leastHold s.timers
  rcases hleast : leastHold s.timers with _ | first
  · rw [hleast] at hfirst
    refine ⟨s.hardware, s.running, fun wrap _ => ?_, fun t ht hhold => absurd hhold (hfirst t ht), .inl ⟨hfirst, rfl, rfl⟩⟩
    dsimp only
    rw [getNextRunningTo_none hleast, map_rebase_of_not_hold hfirst]
  · rw [hleast] at hfirst
    obtain ⟨hmem, hhold, hle⟩ := hfirst
    obtain ⟨hpos, hhigh⟩ := h first hmem hhold
    refine ⟨first.remaining, true, fun wrap hwrap => ?_, hle, .inr ⟨hpos, hhigh, rfl⟩⟩
    dsimp only
    rw [getNextRunningTo_some hleast hnodup hlength, startPlTimer, if_neg (by omega)]
    dsimp only
    congr 1
    refine map_congr_left fun t ht => rebase_exact hwrap fun hthold => ?_
    have hlet := hle t ht hthold
    have hrange := h t ht hthold
    omega

end Exact

/-! ## What is pending for one timer -/

section

variable (hardware slots : Int) (t : Timer)

theorem postpone_id (wrap : Int → Int) : (postpone wrap slots t).id = t.id := by
  unfold postpone
  dsimp only
  split <;> split <;> rfl

theorem rebase_id (wrap : Int → Int) : (rebase wrap slots t).id = t.id := by
  unfold rebase
  split
  · split <;> rfl
  · rfl

theorem resume_id (wrap : Int → Int) : (resume wrap slots t).id = t.id := by
  unfold resume
  split <;> rfl

theorem mark_id : (mark t).id = t.id := by
  unfold mark
  split <;> rfl

theorem called_id : (called t).id = t.id := by
  unfold called
  split <;> rfl

theorem seen_postpone : seen slots (postpone unbounded (hardware - slots) t) = seen hardware t := by
  cases h : t.state <;> simp [seen, left, postpone, unbounded, h]
  omega

theorem seen_rebase (h : t.state ≠ .active) : seen slots (rebase unbounded slots t) = seen 0 t := by
  unfold rebase
  split
  · rename_i hhold
    split_ifs with heq
    · simp [seen, left, hhold, heq]
    · simp [seen, left, hhold, unbounded]
  · cases hst : t.state <;> simp_all [seen, left]

theorem seen_resume (h : t.state ≠ .active) : seen 0 (resume unbounded hardware t) = seen hardware t := by
  cases hst : t.state <;> simp_all [seen, left, resume, unbounded, Int.add_comm]

theorem seen_called : seen hardware (called t) = seen hardware t := by cases h : t.state <;> simp [seen, left, called, h]

theorem called_state : (called t).state ≠ .runInterrupt := by
  unfold called
  split
  · exact nofun
  · assumption

theorem called_rebase_hold (h : t.state = .hold → slots ≤ t.remaining) :
    (called (rebase unbounded slots t)).state = .hold → 0 < (called (rebase unbounded slots t)).remaining := by
  cases hst : t.state <;> simp_all [called, rebase, unbounded]
  grind

theorem rebase_runInterrupt (wrap : Int → Int) : (rebase wrap slots t).state = .runInterrupt ↔ t.state = .runInterrupt := by
  unfold rebase
  split
  · split <;> simp_all
  · rfl

end

end MbedCloud.CallbackTimers

