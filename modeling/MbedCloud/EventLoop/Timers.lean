import MbedCloud.EventLoop.Dispatch

/-!
# Timers

Ticks are compared as signed differences of 32-bit numbers. Against the clock of `Log`, which does not overflow, the
comparisons are right as long as the times are less than `2 ^ 31` apart, and `Timed` keeps them so: a pending timer is
due within the next `2 ^ 31` ticks, and a timer that has been sent was due.
-/

namespace MbedCloud.EventLoop

open List

/-! ## Ticks and the clock -/

section

variable {a b : UInt32} {A B : Int}

section

variable (ha : A % 2 ^ 32 = a.toNat)
include ha

section

variable (hb : B % 2 ^ 32 = b.toNat)
include hb

theorem toNat_sub_ticks : ((a - b).toNat : Int) = (A - B) % 2 ^ 32 := by
  have hsub := UInt32.toNat_sub a b
  omega

theorem toNat_add_ticks : (A + B) % 2 ^ 32 = (a + b).toNat := by
  have hadd := UInt32.toNat_add a b
  omega

theorem ticksBefore_iff (hlow : -2 ^ 31 ≤ A - B) (hhigh : A - B < 2 ^ 31) : ticksBefore a b = true ↔ A < B := by
  have hsub := toNat_sub_ticks ha hb
  unfold ticksBefore
  rw [decide_eq_true_iff]
  omega

theorem ticksBeforeOrAt_iff (hlow : -2 ^ 31 ≤ A - B) (hhigh : A - B < 2 ^ 31) : ticksBeforeOrAt a b = true ↔ A ≤ B := by
  have hsub := toNat_sub_ticks ha hb
  have hzero : a - b = 0 ↔ (a - b).toNat = 0 := UInt32.toNat_inj.symm
  unfold ticksBeforeOrAt
  rw [decide_eq_true_iff, hzero]
  omega

end

end

theorem toInt_sub_ticks (hb : B % 2 ^ 32 = b.toNat) : (B + (a - b).toInt32.toInt) % 2 ^ 32 = a.toNat := by
  have hsub := UInt32.toNat_sub a b
  have ha' := a.toNat_lt
  have hint : (a - b).toInt32.toInt = ((a - b).toNat : Int).bmod (2 ^ 32) := BitVec.toInt_eq_toNat_bmod (a - b).toBitVec
  rw [hint, Int.bmod_def]
  split <;> omega

end

/-! ## The invariant -/

/-- The launch time is the one on the clock, and a periodic timer keeps its pace. -/
structure Scheduled (s : State) (x : Storage) : Prop where
  launchTime : (s.marks x).due % 2 ^ 32 = (s.cells x).launchTime.toNat
  period : (s.cells x).period.toNat < 2 ^ 31
  pace : (s.cells x).period ≠ 0 → (s.marks x).due = (s.marks x).requested + (s.marks x).firing * (s.cells x).period.toNat

/-- By launch time, and for equal launch times in the order in which timers were put on the list. -/
def Earlier (s : State) (x y : Storage) : Prop :=
  (s.marks x).due < (s.marks y).due ∨ (s.marks x).due = (s.marks y).due ∧ (s.marks x).armed < (s.marks y).armed

structure Timed (s : State) : Prop where
  ticks : s.log.clock % 2 ^ 32 = s.ticks.toNat
  scheduled : ∀ n, .timer n ∈ s.timerList ++ (s.queue ++ s.running) → Scheduled s (.timer n)
  pending : ∀ x ∈ s.timerList, s.log.clock < (s.marks x).due ∧ (s.marks x).due < s.log.clock + 2 ^ 31
  due : ∀ n, .timer n ∈ s.queue ++ s.running → (s.marks (.timer n)).due ≤ s.log.clock
  sorted : s.timerList.Pairwise (Earlier s)
  armed : ∀ x ∈ s.timerList, (s.marks x).armed < s.log.armed

/-- The times of a storage are the same; it may have been cancelled. -/
structure SameTimes (s s' : State) (x : Storage) : Prop where
  launchTime : (s'.cells x).launchTime = (s.cells x).launchTime
  period : (s'.cells x).period = (s.cells x).period ∨ (s'.cells x).period = 0
  due : (s'.marks x).due = (s.marks x).due
  requested : (s'.marks x).requested = (s.marks x).requested
  firing : (s'.marks x).firing = (s.marks x).firing
  armed : (s'.marks x).armed = (s.marks x).armed

section Timed

variable {s s' : State} {x : Storage}

theorem SameTimes.of_eq (hcells : s'.cells x = s.cells x) (hmarks : s'.marks x = s.marks x) : SameTimes s s' x := by
  constructor
  · rw [hcells]
  · rw [hcells]
    exact .inl rfl
  all_goals rw [hmarks]

theorem SameTimes.scheduled (h : SameTimes s s' x) (hs : Scheduled s x) : Scheduled s' x := by
  rcases h.period with hp | hp
  · refine ⟨?_, ?_, ?_⟩
    · rw [h.due, h.launchTime]
      exact hs.launchTime
    · rw [hp]
      exact hs.period
    · rw [hp, h.due, h.requested, h.firing]
      exact hs.pace
  · refine ⟨?_, ?_, fun hne => absurd hp hne⟩
    · rw [h.due, h.launchTime]
      exact hs.launchTime
    · rw [hp]
      decide

variable {y : Storage} {n : Nat} {mem : Option Nat} {ticks : UInt32}

theorem Earlier.same (hxy : Earlier s x y) (hx : SameTimes s s' x) (hy : SameTimes s s' y) : Earlier s' x y := by
  unfold Earlier at hxy ⊢
  rw [hx.due, hy.due, hx.armed, hy.armed]
  exact hxy

/-- Timers leave the list, or they are sent when they are due. -/
theorem Timed.mono (h : Timed s) (hticks : s'.log.clock % 2 ^ 32 = s'.ticks.toNat) (hclock : s.log.clock ≤ s'.log.clock)
    (harmed : s.log.armed ≤ s'.log.armed) (hlist : s'.timerList.Sublist s.timerList)
    (hpending : ∀ x ∈ s'.timerList, SameTimes s s' x ∧ s'.log.clock < (s.marks x).due)
    (hsent : ∀ n, .timer n ∈ s'.queue ++ s'.running →
      .timer n ∈ s.queue ++ s.running ∧ SameTimes s s' (.timer n) ∨
        Scheduled s' (.timer n) ∧ (s'.marks (.timer n)).due ≤ s'.log.clock) : Timed s' := by
  refine ⟨hticks, ?_, ?_, ?_, ?_, ?_⟩
  · intro n hn
    rcases mem_append.mp hn with hn | hn
    · exact (hpending _ hn).1.scheduled (h.scheduled n (mem_append_left _ (hlist.subset hn)))
    rcases hsent n hn with ⟨hn, hsame⟩ | hn
    · exact hsame.scheduled (h.scheduled n (mem_append_right _ hn))
    · exact hn.1
  · intro x hx
    have hold := h.pending x (hlist.subset hx)
    obtain ⟨hsame, hlater⟩ := hpending x hx
    rw [hsame.due]
    omega
  · intro n hn
    rcases hsent n hn with ⟨hn, hsame⟩ | hn
    · rw [hsame.due]
      exact (h.due n hn).trans hclock
    · exact hn.2
  · exact (h.sorted.sublist hlist).imp_of_mem fun hx hy hxy => hxy.same (hpending _ hx).1 (hpending _ hy).1
  · intro x hx
    rw [(hpending x hx).1.armed]
    exact (h.armed x (hlist.subset hx)).trans_le harmed

theorem Timed.keep (h : Timed s) (hticks : s'.ticks = s.ticks) (hclock : s'.log.clock = s.log.clock)
    (harmed : s'.log.armed = s.log.armed) (hlist : s'.timerList.Sublist s.timerList)
    (hsame : ∀ y ∈ s'.timerList ++ (s'.queue ++ s'.running), SameTimes s s' y)
    (hsent : ∀ n, .timer n ∈ s'.queue ++ s'.running →
      .timer n ∈ s.queue ++ s.running ∨ Scheduled s (.timer n) ∧ (s.marks (.timer n)).due ≤ s.log.clock) : Timed s' := by
  refine h.mono ?_ hclock.ge harmed.ge hlist ?_ ?_
  · rw [hticks, hclock]
    exact h.ticks
  · intro x hx
    rw [hclock]
    exact ⟨hsame x (mem_append_left _ hx), (h.pending x (hlist.subset hx)).1⟩
  intro n hn
  have hn' := hsame _ (mem_append_right _ hn)
  rcases hsent n hn with hmem | ⟨hsch, hdue⟩
  · exact .inl ⟨hmem, hn'⟩
  refine .inr ⟨hn'.scheduled hsch, ?_⟩
  rw [hn'.due, hclock]
  exact hdue

/-! ## The functions -/

theorem sameTimes_eventCoreWrite (y : Storage) : SameTimes s (eventCoreWrite x s) y := by
  by_cases hy : y = x
  · subst hy
    constructor
    · rw [eventCoreWrite_cells_self]
    · rw [eventCoreWrite_cells_self]
      exact .inl rfl
    all_goals rw [eventCoreWrite_marks_self]
  · exact .of_eq (eventCoreWrite_cells_ne hy) (eventCoreWrite_marks_ne hy)

theorem timed_eventCoreWrite (h : Timed s)
    (hx : ∀ n, x = .timer n → Scheduled s x ∧ (s.marks x).due ≤ s.log.clock) : Timed (eventCoreWrite x s) := by
  refine h.keep rfl rfl rfl (.refl _) (fun y _ => sameTimes_eventCoreWrite y) ?_
  intro n hn
  rcases mem_append.mp hn with hn | hn
  · rcases mem_cons.mp (eventCoreWrite_queue.mem_iff.mp hn) with heq | hn
    · exact .inr (heq ▸ hx n heq.symm)
    · exact .inl (mem_append_left _ hn)
  · exact .inl (mem_append_right _ hn)

theorem timerSysAdd_timerList : (timerSysAdd x s).timerList.Perm (x :: s.timerList) := perm_orderedInsert _ x s.timerList

theorem timerSysAdd_marks_ne (h : y ≠ x) : (timerSysAdd x s).marks y = s.marks y := if_neg h

theorem timerSysAdd_marks_self : (timerSysAdd x s).marks x = { s.marks x with armed := s.log.armed } := if_pos rfl

theorem timerSysAdd_due (y : Storage) : ((timerSysAdd x s).marks y).due = (s.marks y).due := by
  by_cases hy : y = x
  · rw [hy, timerSysAdd_marks_self]
  · rw [timerSysAdd_marks_ne hy]

section

variable (h : Timed s) (hx : .timer n ∉ s.timerList) (hsch : Scheduled s (.timer n))
  (hlist : ∀ y ∈ s.timerList, ∃ n, y = .timer n)
include h hx hsch hlist

/-- A timer that is due within the next `2 ^ 31` ticks is put on the list. -/
theorem timed_timerSysAdd (hlow : s.log.clock < (s.marks (.timer n)).due)
    (hhigh : (s.marks (.timer n)).due < s.log.clock + 2 ^ 31) : Timed (timerSysAdd (.timer n) s) := by
  have hne : ∀ {y}, y ∈ s.timerList → y ≠ .timer n := fun hy heq => hx (heq ▸ hy)
  have hsched : ∀ k, Scheduled s (.timer k) → Scheduled (timerSysAdd (.timer n) s) (.timer k) := by
    intro k hk
    by_cases hkn : Storage.timer k = .timer n
    · refine ⟨?_, hk.period, ?_⟩
      · rw [timerSysAdd_due]
        exact hk.launchTime
      · intro hp
        rw [hkn, timerSysAdd_marks_self, ← hkn]
        exact hk.pace hp
    · have hsame : SameTimes s (timerSysAdd (.timer n) s) (.timer k) := .of_eq rfl (timerSysAdd_marks_ne hkn)
      exact hsame.scheduled hk
  -- the comparison of launch times is the one on the clock
  have hbefore : ∀ y ∈ s.timerList, ticksBefore (s.cells (.timer n)).launchTime (s.cells y).launchTime = true ↔
      (s.marks (.timer n)).due < (s.marks y).due := by
    intro y hy
    obtain ⟨k, rfl⟩ := hlist y hy
    have hpend := h.pending _ hy
    exact ticksBefore_iff hsch.launchTime (h.scheduled k (mem_append_left _ hy)).launchTime (by omega) (by omega)
  refine ⟨h.ticks, ?_, ?_, ?_, ?_, ?_⟩
  · intro k hk
    rcases mem_append.mp hk with hk | hk
    · rcases mem_cons.mp (timerSysAdd_timerList.mem_iff.mp hk) with heq | hk
      · exact hsched k (heq ▸ hsch)
      · exact hsched k (h.scheduled k (mem_append_left _ hk))
    · exact hsched k (h.scheduled k (mem_append_right _ hk))
  · intro y hy
    rw [timerSysAdd_due]
    rcases mem_cons.mp (timerSysAdd_timerList.mem_iff.mp hy) with rfl | hy
    · exact ⟨hlow, hhigh⟩
    · exact h.pending y hy
  · intro k hk
    rw [timerSysAdd_due]
    exact h.due k hk
  · have hearlier : ∀ {y z}, y ∈ s.timerList → z ∈ s.timerList → (Earlier s y z ↔ Earlier (timerSysAdd (.timer n) s) y z) := by
      intro y z hy hz
      unfold Earlier
      rw [timerSysAdd_marks_ne (hne hy), timerSysAdd_marks_ne (hne hz)]
    refine pairwise_orderedInsert (h.sorted.imp_of_mem fun hy hz hyz => (hearlier hy hz).mp hyz) ?_ ?_ ?_
    · intro y hy hxy
      left
      rw [timerSysAdd_due, timerSysAdd_due]
      exact (hbefore y hy).mp hxy
    · intro y hy hxy
      have hlate := mt (hbefore y hy).mpr hxy
      have harmed := h.armed y hy
      unfold Earlier
      rw [timerSysAdd_marks_self, timerSysAdd_marks_ne (hne hy)]
      dsimp only
      omega
    · intro y hy z hz hyz hxy
      have hyz' := (hearlier hy hz).mpr hyz
      have hxy' := (hbefore y hy).mp hxy
      refine (hbefore z hz).mpr ?_
      unfold Earlier at hyz'
      omega
  · intro y hy
    rcases mem_cons.mp (timerSysAdd_timerList.mem_iff.mp hy) with rfl | hy
    · rw [timerSysAdd_marks_self]
      exact Nat.lt_succ_self _
    · rw [timerSysAdd_marks_ne (hne hy)]
      exact Nat.lt_succ_of_lt (h.armed y hy)

theorem timed_launch (hlow : s.log.clock - 2 ^ 31 ≤ (s.marks (.timer n)).due)
    (hhigh : (s.marks (.timer n)).due < s.log.clock + 2 ^ 31) : Timed (launch (.timer n) s) := by
  have hiff := ticksBeforeOrAt_iff hsch.launchTime h.ticks (by omega) (by omega)
  unfold launch
  split_ifs with hdue
  · exact timed_eventCoreWrite h fun _ _ => ⟨hsch, hiff.mp hdue⟩
  · exact timed_timerSysAdd h hx hsch hlist (Int.not_le.mp (mt hiff.mpr hdue)) hhigh

end

theorem Timed.of_out (h : Timed s) (hx : x ∉ places s) {cells : Storage → Cell} {marks : Storage → Marks}
    (hcells : ∀ y, y ≠ x → cells y = s.cells y) (hmarks : ∀ y, y ≠ x → marks y = s.marks y) {log : Log}
    (hclock : log.clock = s.log.clock) (harmed : log.armed = s.log.armed) :
    Timed { s with cells := cells, marks := marks, log := log } := by
  refine h.keep rfl hclock harmed (.refl _) ?_ fun n hn => .inl hn
  intro y hy
  have hne : y ≠ x := by
    rintro rfl
    apply hx
    rcases mem_append.mp hy with hy | hy
    · exact mem_places_of_timerList hy
    · exact (mem_append.mp hy).elim mem_places_of_queue mem_places_of_running
  exact .of_eq (hcells y hne) (hmarks y hne)

theorem sameTimes_setState (s : State) (x : Storage) (state : EventState) (y : Storage) :
    SameTimes s (s.setCell x fun c => { c with state := state }) y := by
  by_cases hy : y = x
  · subst hy
    have hcell := setCell_self s y fun c => { c with state := state }
    refine ⟨?_, .inl ?_, rfl, rfl, rfl, rfl⟩ <;> rw [hcell]
  · exact .of_eq (setCell_ne s _ hy) rfl

/-- A periodic timer before its next launch. -/
def rearmed (x : Storage) (s : State) : State :=
  ((s.setCell x fun c => { c with launchTime := c.launchTime + (s.cells x).period }).setMarks x fun m =>
    { m with due := m.due + (s.cells x).period.toNat, firing := m.firing + 1 }).accept x

theorem accept_marks_self (s : State) (x : Storage) :
    (s.accept x).marks x = { s.marks x with ticket := s.log.accepted } := if_pos rfl

theorem rearmed_due : ((rearmed x s).marks x).due = (s.marks x).due + (s.cells x).period.toNat := by
  unfold rearmed
  rw [accept_marks_self, setMarks_self]
  rfl

theorem scheduled_rearmed (h : Scheduled s x) (hperiod : (s.cells x).period ≠ 0) : Scheduled (rearmed x s) x := by
  have hcell : (rearmed x s).cells x = { s.cells x with launchTime := (s.cells x).launchTime + (s.cells x).period } := if_pos rfl
  have hlt := h.period
  refine ⟨?_, ?_, ?_⟩
  · rw [rearmed_due, hcell]
    exact toNat_add_ticks h.launchTime (by omega)
  · rw [hcell]
    exact hlt
  intro _
  have hrequested : ((rearmed x s).marks x).requested = (s.marks x).requested := by
    unfold rearmed
    rw [accept_marks_self, setMarks_self]
    rfl
  have hfiring : ((rearmed x s).marks x).firing = (s.marks x).firing + 1 := by
    unfold rearmed
    rw [accept_marks_self, setMarks_self]
    rfl
  rw [rearmed_due, hrequested, hfiring, hcell, h.pace hperiod]
  push_cast
  rw [Int.add_mul, Int.one_mul, Int.add_assoc]

/-- A timer that is not on a list comes back: a periodic one is launched again, one period later. -/
theorem timed_timerSysEventFree (h : Timed s) (hx : .timer n ∉ places s) (hsch : Scheduled s (.timer n))
    (hlist : ∀ y ∈ s.timerList, ∃ n, y = .timer n) (hdue : (s.marks (.timer n)).due ≤ s.log.clock)
    (hpace : (s.cells (.timer n)).period ≠ 0 → s.log.clock - (s.marks (.timer n)).due ≤ 2 ^ 31) :
    Timed (timerSysEventFree (.timer n) s) := by
  unfold timerSysEventFree
  split_ifs with hperiod
  · exact h.keep rfl rfl rfl (.refl _) (fun y _ => .of_eq rfl rfl) fun k hk => .inl hk
  have hbehind := hpace hperiod
  have hlt := hsch.period
  have hrearmed : Timed (rearmed (.timer n) s) :=
    h.of_out hx (fun y hy => if_neg hy) (fun y hy => (if_neg hy).trans (if_neg hy)) rfl rfl
  show Timed (launch (.timer n) (rearmed (.timer n) s))
  refine timed_launch hrearmed (fun hmem => hx (mem_places_of_timerList hmem)) (scheduled_rearmed hsch hperiod) hlist
    ?_ ?_
  · rw [rearmed_due]
    show s.log.clock - _ ≤ _
    omega
  rw [rearmed_due]
  show _ < s.log.clock + _
  omega

theorem timed_eventCoreFreePush (h : Timed s) (hx : x ∉ places s) (hlist : ∀ y ∈ s.timerList, ∃ n, y = .timer n)
    (hsch : ∀ n, x = .timer n → Scheduled s x ∧ (s.marks x).due ≤ s.log.clock ∧
      ((s.cells x).period ≠ 0 → s.log.clock - (s.marks x).due ≤ 2 ^ 31)) : Timed (eventCoreFreePush x s) := by
  have hset : Timed (s.setCell x fun c => { c with state := .unqueued }) :=
    h.of_out hx (fun y hy => if_neg hy) (fun _ _ => rfl) rfl rfl
  cases x with
  | pool i => exact hset.keep rfl rfl rfl (.refl _) (fun y _ => .of_eq rfl rfl) fun n hn => .inl hn
  | dynamic n => exact hset.keep rfl rfl rfl (.refl _) (fun y _ => .of_eq rfl rfl) fun n hn => .inl hn
  | user n => exact hset
  | timer n =>
    obtain ⟨hn, hdue, hpace⟩ := hsch n rfl
    have hcell := setCell_self s (.timer n) fun c => { c with state := .unqueued }
    refine timed_timerSysEventFree hset hx ⟨?_, ?_, ?_⟩ hlist hdue ?_
    · rw [hcell]
      exact hn.launchTime
    · rw [hcell]
      exact hn.period
    · rw [hcell]
      exact hn.pace
    · rw [hcell]
      exact hpace

theorem timed_start (h : Timed s) (hs : start s = some s') : Timed s' := by
  unfold start at hs
  split at hs
  · cases hs
    exact h
  rename_i x queue hqueue
  split_ifs at hs
  cases hs
  refine h.keep rfl rfl rfl (.refl _) ?_ ?_
  · intro y _
    have hsame := sameTimes_setState { s with queue := queue, running := x :: s.running } x .running y
    exact ⟨hsame.launchTime, hsame.period, rfl, rfl, rfl, rfl⟩
  intro n hn
  left
  rw [hqueue]
  change _ ∈ queue ++ x :: s.running at hn
  simp only [mem_append, mem_cons] at hn ⊢
  tauto

theorem timed_finish (h : Timed s) (hinv : Inv [] [] s)
    (hpace : ∀ n ∈ s.running.head?, (s.cells n).period ≠ 0 → s.log.clock - (s.marks n).due ≤ 2 ^ 31) :
    Timed (finish s) := by
  unfold finish
  split
  · exact h
  rename_i x running hrunning
  have hheld := hinv.takeRunning hrunning
  have hx : x ∈ s.running := hrunning ▸ (.head _)
  have hrest : Timed { s with running := running } := by
    refine h.keep rfl rfl rfl (.refl _) (fun y _ => .of_eq rfl rfl) fun n hn => .inl ?_
    rw [hrunning]
    rcases mem_append.mp hn with hn | hn
    · exact mem_append_left _ hn
    · exact mem_append_right _ (mem_cons_of_mem x hn)
  refine timed_eventCoreFreePush hrest hheld.not_mem_places (fun y hy => (hinv.timerList y hy).1) ?_
  intro n hn
  have hmem : .timer n ∈ s.queue ++ s.running := mem_append_right _ (hn ▸ hx)
  have hsch := h.scheduled n (mem_append_right _ hmem)
  have hdue := h.due n hmem
  rw [← hn] at hsch hdue
  refine ⟨⟨hsch.launchTime, hsch.period, hsch.pace⟩, hdue, hpace x ?_⟩
  rw [hrunning]
  exact rfl

/-! ## Cancelling -/

theorem sameTimes_stopped (x : Storage) (s : State) (y : Storage) : SameTimes s (stopped x s) y := by
  have hmarks : (stopped x s).marks = s.marks := by cases x <;> rfl
  rcases stopped_cell x s y with hcell | hcell
  · exact .of_eq hcell (congrFun hmarks y)
  · refine ⟨?_, .inr ?_, ?_, ?_, ?_, ?_⟩ <;> simp only [hcell, hmarks]

theorem stopped_lists (x : Storage) (s : State) : (stopped x s).timerList = s.timerList ∧ (stopped x s).queue = s.queue ∧
    (stopped x s).running = s.running ∧ (stopped x s).log = s.log ∧ (stopped x s).ticks = s.ticks := by
  cases x <;> exact ⟨rfl, rfl, rfl, rfl, rfl⟩

theorem timed_stopped (h : Timed s) : Timed (stopped x s) := by
  obtain ⟨htimer, hqueue, hrunning, hlog, hticks⟩ := stopped_lists x s
  refine h.keep hticks (by rw [hlog]) (by rw [hlog]) (htimer ▸ .refl _) (fun y _ => sameTimes_stopped x s y) ?_
  intro n hn
  rw [hqueue, hrunning] at hn
  exact .inl hn

/-- A cancelled timer is not launched again. -/
theorem timed_discard (h : Timed s) : Timed (discard x s) := by
  have hstopped : Timed ((stopped x s).setLog fun l => { l with cancelled := l.cancelled ++ [(s.marks x).ticket] }) :=
    (timed_stopped h).keep rfl rfl rfl (.refl _) (fun y _ => .of_eq rfl rfl) fun k hk => .inl hk
  have hset : Timed (((stopped x s).setLog fun l =>
      { l with cancelled := l.cancelled ++ [(s.marks x).ticket] }).setCell x fun c => { c with state := .unqueued }) :=
    hstopped.keep rfl rfl rfl (.refl _) (fun y _ => sameTimes_setState _ x .unqueued y) fun k hk => .inl hk
  unfold discard eventCoreFreePush
  cases x with
  | timer n =>
    dsimp only
    unfold timerSysEventFree
    rw [if_pos]
    · exact hset.keep rfl rfl rfl (.refl _) (fun y _ => .of_eq rfl rfl) fun k hk => .inl hk
    have hcell : ((stopped (.timer n) s).cells (.timer n)) = { s.cells (.timer n) with period := 0 } :=
      setCell_self s (.timer n) fun c => { c with period := 0 }
    refine (congrArg Cell.period (setCell_self (State.setLog _ _) _ _)).trans ?_
    exact congrArg Cell.period hcell
  | user n => exact hset
  | _ => exact hset.keep rfl rfl rfl (.refl _) (fun y _ => .of_eq rfl rfl) fun k hk => .inl hk

theorem timed_eventOSCancel (h : Timed s) (hinv : Inv [] [] s) (hx : x ∈ s.queue ∨ x ∈ s.timerList ∨ x ∈ s.running) :
    Timed (eventOSCancel x s) := by
  rcases hx with hx | hx | hx
  · rw [eventOSCancel_queued (hinv.queue x hx).1.1]
    refine timed_discard (h.keep rfl rfl rfl (.refl _) (fun y _ => .of_eq rfl rfl) fun k hk => .inl ?_)
    rcases mem_append.mp hk with hk | hk
    · exact mem_append_left _ (mem_of_mem_erase hk)
    · exact mem_append_right _ hk
  · obtain ⟨⟨n, rfl⟩, hstate, -⟩ := hinv.timerList x hx
    rw [eventOSCancel_pending hstate]
    exact timed_discard (h.keep rfl rfl rfl erase_sublist (fun y _ => .of_eq rfl rfl) fun k hk => .inl hk)
  · rw [eventOSCancel_running (hinv.running x hx).1]
    exact timed_stopped h

theorem timed_eventOSEventTimerCancel (h : Timed s) (hinv : Inv [] [] s) (eventId : UInt8) (receiver : Nat) :
    Timed (eventOSEventTimerCancel eventId receiver s) := by
  unfold eventOSEventTimerCancel
  dsimp only
  split
  · rename_i x hfind
    exact timed_eventOSCancel h hinv (.inr (.inl (mem_of_find?_eq_some hfind)))
  split
  · rename_i n hfind
    exact timed_eventOSCancel h hinv (.inl (mem_of_find?_eq_some hfind))
  · exact h

/-! ## Requests -/

theorem timed_eventOSEventSend (h : Timed s) (hinv : Inv [] [] s) (data : EventData)
    (hmem : Unused s.heap mem) : Timed (eventOSEventSend data mem s) := by
  unfold eventOSEventSend
  split
  · split
    · rename_i x s' heq
      obtain ⟨hheld, hx, hs', hcells⟩ := eventCoreGet_some hinv hmem heq
      have hgot : Timed { s' with cells := s.cells } := by
        rw [hs']
        exact h.keep rfl rfl rfl (.refl _) (fun y _ => .of_eq rfl rfl) fun k hk => .inl hk
      refine timed_eventCoreWrite ?_ fun n hn => absurd hn (hx n)
      exact hgot.of_out hheld.not_mem_places (fun y hy => (if_neg hy).trans (hcells y hy)) (fun y hy => if_neg hy) rfl rfl
    · rename_i s' heq
      rw [eventCoreGet_none heq]
      exact h
  · exact h

theorem timed_sendUser {data : EventData} (h : Timed s) (hinv : Inv [] [] s) (hn : (s.cells (.user n)).state = .unqueued) :
    Timed (eventOSEventSendUserAllocated (.user n) (s.setCell (.user n) fun c => { c with data := data })) := by
  refine timed_eventCoreWrite ?_ nofun
  exact h.of_out (hinv.user_not_mem hn) (fun y hy => if_neg hy) (fun y hy => if_neg hy) rfl rfl

/-- The delay of a periodic timer is its period. -/
theorem toInt_period (ticks period : UInt32) (h : period.toNat < 2 ^ 31) :
    (ticks + period - ticks).toInt32.toInt = period.toNat := by
  have hint : period.toInt32.toInt = (period.toNat : Int).bmod (2 ^ 32) := BitVec.toInt_eq_toNat_bmod period.toBitVec
  have hcancel : ticks + period - ticks = period := by
    have hadd := UInt32.toNat_add ticks period
    have hsub := UInt32.toNat_sub (ticks + period) ticks
    have hticks := ticks.toNat_lt
    apply UInt32.toNat_inj.mp
    omega
  rw [hcancel, hint, Int.bmod_def]
  split <;> omega

theorem toNat_period {period : Int32} (h : ¬ period ≤ 0) : period.toUInt32.toNat < 2 ^ 31 := by
  have hpos : 0 < period.toInt := by
    rw [Int32.le_iff_toInt_le] at h
    exact Int.not_le.mp h
  have hint : period.toInt = (period.toUInt32.toNat : Int).bmod (2 ^ 32) := BitVec.toInt_eq_toNat_bmod period.toBitVec
  have hlt := period.toUInt32.toNat_lt
  rw [hint, Int.bmod_def] at hpos
  split at hpos <;> omega

/-- A timer as it is requested, before its launch. -/
def requested (x : Storage) (data : EventData) (launchTime period : UInt32) (s : State) : State :=
  ((s.setCell x fun _ => ⟨.unqueued, data, launchTime, period⟩).setMarks x fun m =>
    { m with due := s.log.clock + (launchTime - s.ticks).toInt32.toInt, requested := s.log.clock, firing := 1 }).accept x

theorem requested_marks (data : EventData) (launchTime period : UInt32) :
    ((requested x data launchTime period s).marks x).due = s.log.clock + (launchTime - s.ticks).toInt32.toInt ∧
      ((requested x data launchTime period s).marks x).requested = s.log.clock ∧
      ((requested x data launchTime period s).marks x).firing = 1 := by
  unfold requested
  rw [accept_marks_self, setMarks_self]
  exact ⟨rfl, rfl, rfl⟩

theorem timed_requestAt (h : Timed s) (hinv : Inv [] [] s) (data : EventData)
    (launchTime period : UInt32) (hmem : Unused s.timers mem)
    (hperiod : period ≠ 0 → launchTime = s.ticks + period ∧ period.toNat < 2 ^ 31) :
    Timed (requestAt data launchTime period mem s) := by
  unfold requestAt
  split
  · split
    · rename_i x s' heq
      obtain ⟨n, rfl, hheld, hs'⟩ := timerStructGet_some hinv hmem heq
      have hgot : Timed s' := by
        rw [hs']
        exact h.keep rfl rfl rfl (.refl _) (fun y _ => .of_eq rfl rfl) fun k hk => .inl hk
      have hticks : s'.ticks = s.ticks := by rw [hs']
      have hout := hheld.not_mem_places
      have hrequested : Timed (requested (.timer n) data launchTime period s') :=
        hgot.of_out hout (fun y hy => if_neg hy) (fun y hy => (if_neg hy).trans (if_neg hy)) rfl rfl
      obtain ⟨hdue, hreq, hfiring⟩ := requested_marks (s := s') (x := .timer n) data launchTime period
      have hcell : (requested (.timer n) data launchTime period s').cells (.timer n) =
          ⟨.unqueued, data, launchTime, period⟩ := if_pos rfl
      have hlow := (launchTime - s'.ticks).toInt32.le_toInt
      have hhigh := (launchTime - s'.ticks).toInt32.toInt_lt
      show Timed (launch (.timer n) (requested (.timer n) data launchTime period s'))
      refine timed_launch hrequested (fun hin => hout (mem_places_of_timerList hin)) ⟨?_, ?_, ?_⟩
        (fun y hy => (hheld.timerList y hy).1) ?_ ?_
      · rw [hdue, hcell]
        exact toInt_sub_ticks hgot.ticks
      · rw [hcell]
        by_cases hp : period = 0
        · rw [hp]
          exact Nat.two_pow_pos 31
        · exact (hperiod hp).2
      · rw [hdue, hreq, hfiring, hcell]
        dsimp only
        intro hp
        obtain ⟨hlaunch, hlt⟩ := hperiod hp
        rw [hlaunch, ← hticks, toInt_period _ _ hlt]
        omega
      · rw [hdue]
        show s'.log.clock - _ ≤ _
        omega
      · rw [hdue]
        show _ < s'.log.clock + _
        omega
    · rename_i s' heq
      rw [timerStructGet_none heq]
      exact h
  · exact h

/-! ## Ticks -/

/-- What a tick does: the first timers of the list are sent, one after the other, the others stay. -/
structure Fired (fired later : List Storage) (s s' : State) : Prop where
  timerList : s'.timerList = later
  queue : s'.queue.Perm (fired ++ s.queue)
  sent : s'.log.sent = s.log.sent + fired.length
  seq : ∀ i x, fired[i]? = some x → (s'.marks x).seq = s.log.sent + i
  others : ∀ x, x ∉ fired → s'.marks x = s.marks x
  same : ∀ x, SameTimes s s' x
  period : ∀ x, (s'.cells x).period = (s.cells x).period
  running : s'.running = s.running
  ticks : s'.ticks = s.ticks
  clock : s'.log.clock = s.log.clock
  armed : s'.log.armed = s.log.armed

theorem SameTimes.trans {s1 s2 s3 : State} (h : SameTimes s1 s2 x) (h' : SameTimes s2 s3 x) : SameTimes s1 s3 x := by
  refine ⟨h'.launchTime.trans h.launchTime, ?_, h'.due.trans h.due, h'.requested.trans h.requested,
    h'.firing.trans h.firing, h'.armed.trans h.armed⟩
  rcases h'.period with hp | hp
  · rw [hp]
    exact h.period
  · exact .inr hp

theorem Fired.nil (s : State) : Fired [] s.timerList s s :=
  ⟨rfl, List.Perm.refl _, rfl, nofun, fun _ _ => rfl, fun _ => .of_eq rfl rfl, fun _ => rfl, rfl, rfl, rfl, rfl⟩

theorem Fired.cons {fired later : List Storage} (hx : x ∉ fired)
    (h : Fired fired later (eventCoreWrite x { s with timerList := s.timerList.erase x }) s') :
    Fired (x :: fired) later s s' := by
  set s1 : State := { s with timerList := s.timerList.erase x } with hs1
  have hperiod : ∀ y, ((eventCoreWrite x s1).cells y).period = (s.cells y).period := by
    intro y
    by_cases hy : y = x
    · rw [hy, eventCoreWrite_cells_self]
    · rw [eventCoreWrite_cells_ne hy]
  have hsame : ∀ y, SameTimes s (eventCoreWrite x s1) y := by
    intro y
    have hone : SameTimes s s1 y := .of_eq rfl rfl
    exact hone.trans (sameTimes_eventCoreWrite y)
  refine ⟨h.timerList, ?_, ?_, ?_, ?_, fun y => (hsame y).trans (h.same y), fun y => (h.period y).trans (hperiod y),
    h.running, h.ticks, h.clock, h.armed⟩
  · have hqueue : (eventCoreWrite x s1).queue.Perm (x :: s.queue) := eventCoreWrite_queue
    exact h.queue.trans ((hqueue.append_left fired).trans perm_middle)
  · rw [h.sent]
    show s.log.sent + 1 + _ = _
    rw [length_cons]
    omega
  · intro i y hy
    cases i with
    | zero =>
      cases hy
      rw [h.others x hx, eventCoreWrite_marks_self]
      rfl
    | succ i =>
      rw [h.seq i y hy]
      show s.log.sent + 1 + i = _
      omega
  · intro y hy
    rw [mem_cons, not_or] at hy
    rw [h.others y hy.2, eventCoreWrite_marks_ne hy.1]

/-- The loop over the list stops at the first timer that is not due; since the list is sorted, no later one is due. -/
theorem sendDue_spec {xs : List Storage} (hxs : s.timerList = xs) (hnodup : xs.Nodup)
    (hdue : ∀ x ∈ xs, ticksBeforeOrAt (s.cells x).launchTime s.ticks = true ↔ (s.marks x).due ≤ s.log.clock)
    (hsorted : xs.Pairwise fun x y => (s.marks x).due ≤ (s.marks y).due) :
    ∃ fired later, xs = fired ++ later ∧ (∀ x ∈ fired, (s.marks x).due ≤ s.log.clock) ∧
      (∀ x ∈ later, s.log.clock < (s.marks x).due) ∧ Fired fired later s (sendDue xs s) := by
  induction xs generalizing s with
  | nil =>
    have hnil := Fired.nil s
    rw [hxs] at hnil
    exact ⟨[], [], rfl, nofun, nofun, hnil⟩
  | cons x xs ih =>
    rw [nodup_cons] at hnodup
    obtain ⟨hfirst, hsorted⟩ := pairwise_cons.mp hsorted
    unfold sendDue
    split_ifs with hx
    · have herase : s.timerList.erase x = xs := by rw [hxs, erase_cons_head]
      set s1 := eventCoreWrite x { s with timerList := s.timerList.erase x } with hs1
      have hsame : ∀ y, SameTimes s s1 y := by
        intro y
        have hone : SameTimes s { s with timerList := s.timerList.erase x } y := .of_eq rfl rfl
        exact hone.trans (sameTimes_eventCoreWrite y)
      have hdue1 : ∀ y ∈ xs, ticksBeforeOrAt (s1.cells y).launchTime s1.ticks = true ↔ (s1.marks y).due ≤ s1.log.clock := by
        intro y hy
        rw [(hsame y).launchTime, (hsame y).due]
        exact hdue y (mem_cons_of_mem x hy)
      have hsorted1 : xs.Pairwise fun y z => (s1.marks y).due ≤ (s1.marks z).due := by
        refine hsorted.imp fun {y z} hyz => ?_
        rw [(hsame y).due, (hsame z).due]
        exact hyz
      obtain ⟨fired, later, rfl, hfired, hlater, hspec⟩ := ih herase hnodup.2 hdue1 hsorted1
      have hx' := (hdue x (.head _)).mp hx
      refine ⟨x :: fired, later, rfl, ?_, ?_, hspec.cons fun hmem => hnodup.1 (mem_append_left _ hmem)⟩
      · intro y hy
        rcases mem_cons.mp hy with rfl | hy
        · exact hx'
        · rw [← (hsame y).due]
          exact hfired y hy
      · intro y hy
        rw [← (hsame y).due]
        exact hlater y hy
    · have hlate := mt (hdue x (.head _)).mpr hx
      have hnil := Fired.nil s
      rw [hxs] at hnil
      refine ⟨[], x :: xs, rfl, nofun, ?_, hnil⟩
      intro y hy
      rcases mem_cons.mp hy with rfl | hy
      · exact Int.not_le.mp hlate
      · exact (Int.not_le.mp hlate).trans_le (hfirst y hy)

/-- The state at a later tick, before timers are sent. -/
def advanced (ticks : UInt32) (s : State) : State :=
  { s with ticks := s.ticks + ticks }.setLog fun l => { l with clock := l.clock + ticks.toNat }

section

variable (h : Timed s) (hinv : Inv [] [] s) (hticks : ticks.toNat < 2 ^ 31)
include h hinv hticks

/-- A tick of less than `2 ^ 31` sends exactly the timers that are due, in the order of the list. -/
theorem systemTimerTickUpdate_spec :
    ∃ fired later, s.timerList = fired ++ later ∧ (∀ x ∈ fired, (s.marks x).due ≤ s.log.clock + ticks.toNat) ∧
      (∀ x ∈ later, s.log.clock + ticks.toNat < (s.marks x).due) ∧
      Fired fired later (advanced ticks s) (systemTimerTickUpdate ticks s) := by
  have hnow : (s.log.clock + ticks.toNat) % 2 ^ 32 = (s.ticks + ticks).toNat := toNat_add_ticks h.ticks (by omega)
  have hdue : ∀ x ∈ s.timerList, ticksBeforeOrAt (s.cells x).launchTime (s.ticks + ticks) = true ↔
      (s.marks x).due ≤ s.log.clock + ticks.toNat := by
    intro x hx
    obtain ⟨⟨n, rfl⟩, -⟩ := hinv.timerList x hx
    have hpend := h.pending _ hx
    exact ticksBeforeOrAt_iff (h.scheduled n (mem_append_left _ hx)).launchTime hnow (by omega) (by omega)
  have hsorted : s.timerList.Pairwise fun x y => (s.marks x).due ≤ (s.marks y).due := by
    refine h.sorted.imp fun {x y} hxy => ?_
    unfold Earlier at hxy
    omega
  exact sendDue_spec (s := advanced ticks s) rfl hinv.nodup_timerList hdue hsorted

theorem timed_systemTimerTickUpdate : Timed (systemTimerTickUpdate ticks s) := by
  obtain ⟨fired, later, hlist, hfired, hlater, hspec⟩ := systemTimerTickUpdate_spec h hinv hticks
  have hclock : (systemTimerTickUpdate ticks s).log.clock = s.log.clock + ticks.toNat := hspec.clock
  have hsame : ∀ x, SameTimes s (systemTimerTickUpdate ticks s) x := by
    intro x
    have hone : SameTimes s (advanced ticks s) x := .of_eq rfl rfl
    exact hone.trans (hspec.same x)
  refine h.mono ?_ ?_ hspec.armed.ge ?_ ?_ ?_
  · rw [hclock, hspec.ticks]
    exact toNat_add_ticks h.ticks (by omega)
  · rw [hclock]
    omega
  · rw [hspec.timerList, hlist]
    exact sublist_append_right fired later
  · intro x hx
    rw [hspec.timerList] at hx
    rw [hclock]
    exact ⟨hsame x, hlater x hx⟩
  · intro n hn
    rw [hspec.running] at hn
    rcases mem_append.mp hn with hn | hn
    · rcases mem_append.mp (hspec.queue.mem_iff.mp hn) with hn | hn
      · refine .inr ⟨(hsame _).scheduled (h.scheduled n ?_), ?_⟩
        · exact mem_append_left _ (hlist ▸ mem_append_left later hn)
        · rw [hclock, (hsame _).due]
          exact hfired _ hn
      · exact .inl ⟨mem_append_left _ hn, hsame _⟩
    · exact .inl ⟨mem_append_right _ hn, hsame _⟩

end

end Timed

/-! ## Runs -/

/-- Less than `2 ^ 31` ticks at a time, and no periodic timer comes back more than `2 ^ 31` ticks late. -/
def Paced (s : State) : Op → Prop
  | .tick ticks => ticks.toNat < 2 ^ 31
  | .finish => ∀ x ∈ s.running.head?, (s.cells x).period ≠ 0 → s.log.clock - (s.marks x).due ≤ 2 ^ 31
  | _ => True

instance (s : State) (op : Op) : Decidable (Paced s op) :=
  match op with
  | .tick ticks => inferInstanceAs (Decidable (ticks.toNat < 2 ^ 31))
  | .finish =>
    match hrunning : s.running.head? with
    | none => isTrue (by
        show ∀ x ∈ s.running.head?, _
        rw [hrunning]
        exact nofun)
    | some x => decidable_of_iff ((s.cells x).period ≠ 0 → s.log.clock - (s.marks x).due ≤ 2 ^ 31) (by
        show _ ↔ ∀ x ∈ s.running.head?, _
        rw [hrunning]
        exact ⟨fun h y hy => Option.some.inj hy ▸ h, fun h => h x rfl⟩)
  | .send _ _ => isTrue True.intro
  | .sendUser _ _ => isTrue True.intro
  | .requestAt _ _ _ => isTrue True.intro
  | .requestIn _ _ _ => isTrue True.intro
  | .requestEvery _ _ _ => isTrue True.intro
  | .request _ _ _ _ => isTrue True.intro
  | .cancel _ => isTrue True.intro
  | .cancelTimer _ _ => isTrue True.intro
  | .start => isTrue True.intro

/-- The states that are reached without falling behind. -/
inductive ReachesPaced (s0 : State) : State → Prop
  | init : ReachesPaced s0 s0
  | step {s s' : State} (op : Op) : ReachesPaced s0 s → Allowed s op → Paced s op → step s op = some s' → ReachesPaced s0 s'

variable {s : State}

theorem ReachesPaced.reaches {s0 : State} (h : ReachesPaced s0 s) : Reaches s0 s := by
  induction h with
  | init => exact .init
  | step op _ hop _ hs ih => exact ih.step op hop hs

theorem timed_step {s' : State} {op : Op} (h : Timed s) (hinv : Inv [] [] s) (hop : Allowed s op) (hpaced : Paced s op)
    (hs : step s op = some s') : Timed s' := by
  cases op with
  | start => exact timed_start h hs
  | send data mem =>
    cases hs
    exact timed_eventOSEventSend h hinv data hop
  | sendUser n data =>
    cases hs
    exact timed_sendUser h hinv hop.1
  | requestAt data launchTime mem =>
    cases hs
    exact timed_requestAt h hinv data _ _ hop (fun hne => absurd rfl hne)
  | requestIn data delay mem =>
    cases hs
    exact timed_requestAt h hinv data _ _ hop (fun hne => absurd rfl hne)
  | requestEvery data period mem =>
    cases hs
    unfold eventOSEventTimerRequestEvery
    split_ifs with hperiod
    · exact h
    · exact timed_requestAt h hinv data _ _ hop fun _ => ⟨rfl, toNat_period hperiod⟩
  | request eventId receiver time mem =>
    cases hs
    exact timed_requestAt h hinv _ _ _ hop (fun hne => absurd rfl hne)
  | cancel x =>
    cases hs
    exact timed_eventOSCancel h hinv hop
  | cancelTimer eventId receiver =>
    cases hs
    exact timed_eventOSEventTimerCancel h hinv eventId receiver
  | tick ticks =>
    cases hs
    exact timed_systemTimerTickUpdate h hinv hpaced
  | finish =>
    cases hs
    exact timed_finish h hinv hpaced

theorem timed_reaches {tasklets : List Nat} {ticks : UInt32}
    (h : ReachesPaced (eventOSSchedulerInit tasklets ticks) s) : Timed s := by
  induction h with
  | init =>
    refine ⟨?_, nofun, nofun, nofun, .nil, nofun⟩
    have hlt := ticks.toNat_lt
    show (ticks.toNat : Int) % 2 ^ 32 = ticks.toNat
    omega
  | step op hrun hop hpaced hs ih => exact timed_step ih (inv_reaches hrun.reaches) hop hpaced hs

end MbedCloud.EventLoop

