import MbedCloud.EventLoop.Timers

/-!
# Timers on time

What `Timed` says about the data of the event loop itself: the remaining times of the timers, what the next tick sends
and when a periodic timer fires.
-/

namespace MbedCloud.EventLoop

/-- The ticks until a pending timer is launched. -/
def remaining (s : State) (x : Storage) : Nat := ((s.cells x).launchTime - s.ticks).toNat

structure OnTime (s : State) : Prop where
  /-- The list is ordered by remaining time, then in the order in which timers were put on it. -/
  sorted : s.timerList.Pairwise fun x y =>
    remaining s x < remaining s y ∨ remaining s x = remaining s y ∧ (s.marks x).armed < (s.marks y).armed
  pending : ∀ x ∈ s.timerList, 0 < remaining s x ∧ s.log.clock + remaining s x = (s.marks x).due
  /-- No timer is queued before its launch time. -/
  sent : ∀ n, .timer n ∈ s.queue ++ s.running → (s.marks (.timer n)).due ≤ s.log.clock
  /-- A tick queues the timers that are due, in launch order. -/
  tick : ∀ ticks : UInt32, ticks.toNat < 2 ^ 31 → ∃ s' fired later, step s (.tick ticks) = some s' ∧
    s.timerList = fired ++ later ∧ (∀ x ∈ fired, remaining s x ≤ ticks.toNat) ∧ (∀ x ∈ later, ticks.toNat < remaining s x) ∧
    s'.timerList = later ∧ s'.queue.Perm (fired ++ s.queue) ∧
    ∀ i x, fired[i]? = some x → (s'.marks x).seq = s.log.sent + i
  /-- The `n`-th firing of a periodic timer is due `n` periods after the request. -/
  pace : ∀ n, .timer n ∈ s.timerList ++ (s.queue ++ s.running) → (s.cells (.timer n)).period ≠ 0 →
    (s.marks (.timer n)).due = (s.marks (.timer n)).requested + (s.marks (.timer n)).firing * (s.cells (.timer n)).period.toNat
  launchTime : ∀ n, .timer n ∈ s.timerList ++ (s.queue ++ s.running) →
    (s.marks (.timer n)).due % 2 ^ 32 = (s.cells (.timer n)).launchTime.toNat

theorem Timed.remaining {s : State} {x : Storage} (h : Timed s) (hinv : Inv [] [] s) (hx : x ∈ s.timerList) :
    0 < EventLoop.remaining s x ∧ s.log.clock + EventLoop.remaining s x = (s.marks x).due := by
  obtain ⟨⟨n, rfl⟩, -⟩ := hinv.timerList x hx
  have hpend := h.pending _ hx
  have hsub := toNat_sub_ticks (h.scheduled n (List.mem_append_left _ hx)).launchTime h.ticks
  unfold EventLoop.remaining
  omega

/-- The list of timers is in order, and they fire when they are due. -/
theorem timers_on_time {tasklets : List Nat} {ticks : UInt32} {s : State}
    (h : ReachesPaced (eventOSSchedulerInit tasklets ticks) s) : OnTime s := by
  have hinv := inv_reaches h.reaches
  have htimed := timed_reaches h
  have hremaining : ∀ x ∈ s.timerList, _ := fun x hx => htimed.remaining hinv hx
  refine ⟨?_, hremaining, htimed.due, ?_, fun n hn => (htimed.scheduled n hn).pace,
    fun n hn => (htimed.scheduled n hn).launchTime⟩
  · refine htimed.sorted.imp_of_mem fun {x y} hx hy hxy => ?_
    have hx' := hremaining x hx
    have hy' := hremaining y hy
    unfold Earlier at hxy
    omega
  intro ticks hticks
  obtain ⟨fired, later, hlist, hfired, hlater, hspec⟩ := systemTimerTickUpdate_spec htimed hinv hticks
  refine ⟨_, fired, later, rfl, hlist, ?_, ?_, hspec.timerList, hspec.queue, hspec.seq⟩
  · intro x hx
    have hx' := hremaining x (hlist ▸ List.mem_append_left later hx)
    have hdue := hfired x hx
    omega
  · intro x hx
    have hx' := hremaining x (hlist ▸ List.mem_append_right fired hx)
    have hdue := hlater x hx
    omega

/-- The state after some operations, if they are allowed and in time. -/
def runPaced (s : State) : List Op → Option State
  | [] => some s
  | op :: ops => if Allowed s op ∧ Paced s op then (step s op).bind fun s' => runPaced s' ops else none

theorem ReachesPaced.run {s0 s s' : State} {ops : List Op} (h : ReachesPaced s0 s) (hrun : runPaced s ops = some s') :
    ReachesPaced s0 s' := by
  induction ops generalizing s with
  | nil =>
    cases hrun
    exact h
  | cons op ops ih =>
    unfold runPaced at hrun
    split_ifs at hrun
    rename_i hop
    obtain ⟨s1, hstep, hrest⟩ := Option.bind_eq_some_iff.mp hrun
    exact ih (h.step op hop.1 hop.2 hstep) hrest

/-- The ticks wrap while a periodic timer, and then one for its second firing, are pending. -/
def rearming : List Op := [.requestEvery ⟨1, 0, .med⟩ 10 none, .tick 5, .requestIn ⟨1, 1, .med⟩ 15 none, .tick 5, .start, .finish]

theorem rearming_runs : (runPaced (eventOSSchedulerInit [1] 4294967290) rearming).isSome := by decide

theorem timers_on_time_rearming : ∃ s, OnTime s ∧ s.timerList = [.timer 4, .timer 5] ∧ s.ticks = 4 ∧
    remaining s (.timer 4) = 10 := by
  refine ⟨_, timers_on_time (ReachesPaced.init.run (Option.some_get rearming_runs).symm), ?_⟩
  decide

/-- The periodic timer was requested first, its second firing has the launch time of the other timer, and it is put
behind that one when it is armed again. -/
theorem rearmed_behind : ∃ s, ReachesPaced (eventOSSchedulerInit [1] 4294967290) s ∧
    s.timerList = [.timer 4, .timer 5] ∧ (s.cells (.timer 4)).launchTime = (s.cells (.timer 5)).launchTime ∧
    (s.marks (.timer 5)).requested < (s.marks (.timer 4)).requested := by
  refine ⟨_, ReachesPaced.init.run (Option.some_get rearming_runs).symm, ?_⟩
  decide

end MbedCloud.EventLoop

