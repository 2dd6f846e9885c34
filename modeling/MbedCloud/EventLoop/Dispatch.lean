import MbedCloud.EventLoop.Places

/-!
# Sending, dispatching and cancelling

The functions of the event loop keep `Inv`, and so do whole runs. Between two functions nothing is in hand.
-/

namespace MbedCloud.EventLoop

open List

section Functions

variable {s : State} {x : Storage} {held : List Storage} {owed : List Nat}

/-! ## Timers -/

variable {n : Nat} {s' : State} {mem : Option Nat}

theorem inv_launch (h : Inv (.timer n :: held) ((s.marks (.timer n)).ticket :: owed) s)
    (hidle : Idle s (.timer n)) (hr : (s.cells (.timer n)).data.receiver ∈ s.tasklets) :
    Inv held owed (launch (.timer n) s) := by
  unfold launch
  split
  · exact inv_eventCoreWrite h hr
  · exact inv_timerSysAdd h hidle hr

theorem inv_timerSysEventFree (h : Inv (.timer n :: held) owed s) (hidle : Idle s (.timer n))
    (hr : (s.cells (.timer n)).data.receiver ∈ s.tasklets) : Inv held owed (timerSysEventFree (.timer n) s) := by
  unfold timerSysEventFree
  split
  · exact h.putTimerFree hidle
  have hcell : ((s.setCell (.timer n) fun c => { c with launchTime := c.launchTime + (s.cells (.timer n)).period }).cells
      (.timer n)) = { s.cells (.timer n) with launchTime := (s.cells (.timer n)).launchTime + (s.cells (.timer n)).period } :=
    setCell_self s _ _
  refine inv_launch ((h.setCell _).setMarks _).accept ?_ ?_
  · exact (congrArg Cell.state hcell).trans hidle
  · exact (congrArg (fun c : Cell => c.data.receiver) hcell).symm ▸ hr

theorem inv_eventCoreFreePush (h : Inv (x :: held) owed s) (hr : (s.cells x).data.receiver ∈ s.tasklets) :
    Inv held owed (eventCoreFreePush x s) := by
  have hset := h.setCell fun c => { c with state := .unqueued }
  have hcell := setCell_self s x fun c => { c with state := .unqueued }
  have hidle : Idle (s.setCell x fun c => { c with state := .unqueued }) x := congrArg Cell.state hcell
  cases x with
  | pool i => exact hset.putFree hidle
  | dynamic n => exact hset.dropDynamic
  | timer n =>
    refine inv_timerSysEventFree hset hidle ?_
    rw [hcell]
    exact hr
  | user n => exact hset.dropUser hidle

/-! ## Dispatching -/

theorem inv_start (h : Inv [] [] s) (hs : start s = some s') : Inv [] [] s' := by
  unfold start at hs
  split at hs
  · cases hs
    exact h
  rename_i x queue hqueue
  split_ifs at hs
  rename_i hr
  cases hs
  have hx : x ∈ s.queue := hqueue ▸ (.head _)
  have hheld := h.eraseQueue hx
  rw [hqueue, erase_cons_head] at hheld
  have hset := (hheld.setCell fun c => { c with state := .running }).dispatched
  have hcell := setCell_self { s with queue := queue } x fun c => { c with state := .running }
  refine hset.putRunning ⟨congrArg Cell.state hcell, ?_⟩
  exact (congrArg (fun c : Cell => c.data.receiver) hcell).symm ▸ hr

theorem inv_finish (h : Inv [] [] s) : Inv [] [] (finish s) := by
  unfold finish
  split
  · exact h
  rename_i x running hrunning
  have hx : x ∈ s.running := hrunning ▸ (.head _)
  exact inv_eventCoreFreePush (h.takeRunning hrunning) (h.running x hx).2

/-! ## Cancelling -/

theorem Inv.of_times (h : Inv held owed s) {cells : Storage → Cell}
    (hcells : ∀ y, (cells y).state = (s.cells y).state ∧ (cells y).data = (s.cells y).data) :
    Inv held owed { s with cells := cells } := by
  have hstate : ∀ y, (cells y).state = (s.cells y).state := fun y => (hcells y).1
  have hdata : ∀ y, (cells y).data = (s.cells y).data := fun y => (hcells y).2
  have haddressed : ∀ {y state}, Addressed s state y → Addressed { s with cells := cells } state y := by
    intro y state hy
    refine ⟨(hstate y).trans hy.1, ?_⟩
    rw [hdata y]
    exact hy.2
  have hidle : ∀ {y}, Idle s y → Idle { s with cells := cells } y := fun hy => (hstate _).trans hy
  refine { h with owner := ?_, free := ?_, timerFree := ?_, timerList := ?_, queue := ?_, running := ?_, sorted := ?_ }
  · exact fun n hn => (hstate _).trans (h.owner n hn)
  · exact fun y hy => (h.free y hy).imp_right hidle
  · exact fun y hy => (h.timerFree y hy).imp_right hidle
  · exact fun y hy => (h.timerList y hy).imp_right haddressed
  · exact fun y hy => (h.queue y hy).imp_left haddressed
  · exact fun y hy => haddressed (h.running y hy)
  · refine h.sorted.imp fun {y z} hyz => ?_
    unfold Before State.rank at hyz ⊢
    rw [hdata y, hdata z]
    exact hyz

/-- The event of a cancelled timer does not come again. -/
def stopped (x : Storage) (s : State) : State :=
  match x with
  | .timer _ => s.setCell x fun c => { c with period := 0 }
  | _ => s

theorem stopped_cell (x : Storage) (s : State) (y : Storage) :
    (stopped x s).cells y = s.cells y ∨ (stopped x s).cells y = { s.cells y with period := 0 } := by
  cases x with
  | timer n =>
    by_cases hy : y = .timer n
    · subst hy
      exact .inr (setCell_self s (.timer n) fun c => { c with period := 0 })
    · exact .inl (setCell_ne s (fun c => { c with period := 0 }) hy)
  | _ => exact .inl rfl

theorem stopped_cells (x : Storage) (s : State) (y : Storage) :
    ((stopped x s).cells y).state = (s.cells y).state ∧ ((stopped x s).cells y).data = (s.cells y).data := by
  rcases stopped_cell x s y with hcell | hcell <;> rw [hcell] <;> exact ⟨rfl, rfl⟩

theorem Inv.stopped (h : Inv held owed s) : Inv held owed (EventLoop.stopped x s) := by
  cases x with
  | timer n => exact h.of_times (stopped_cells (.timer n) s)
  | _ => exact h

def discard (x : Storage) (s : State) : State :=
  eventCoreFreePush x ((stopped x s).setLog fun l => { l with cancelled := l.cancelled ++ [(s.marks x).ticket] })

theorem inv_discard (h : Inv [x] [(s.marks x).ticket] s) (hr : (s.cells x).data.receiver ∈ s.tasklets) :
    Inv [] [] (discard x s) := by
  refine inv_eventCoreFreePush (.cancelled h.stopped) ?_
  have hdata := (stopped_cells x s x).2
  have htasklets : (stopped x s).tasklets = s.tasklets := by cases x <;> rfl
  show ((stopped x s).cells x).data.receiver ∈ (stopped x s).tasklets
  rw [hdata, htasklets]
  exact hr

theorem stopped_state {state : EventState} (hx : (s.cells (.timer n)).state = state) :
    ((s.setCell (.timer n) fun c => { c with period := 0 }).cells (.timer n)).state = state :=
  (stopped_cells (.timer n) s (.timer n)).1.trans hx

theorem eventOSCancel_queued (hx : (s.cells x).state = .queued) :
    eventOSCancel x s = discard x { s with queue := s.queue.erase x } := by
  cases x with
  | timer n =>
    unfold eventOSCancel timerSysEventCancelCritical
    simp only [stopped_state hx, reduceCtorEq, if_false, if_true, ne_eq, not_false_eq_true]
    rfl
  | _ => simp only [eventOSCancel, hx, if_true, ne_eq, reduceCtorEq, not_false_eq_true]; rfl

theorem eventOSCancel_pending (hx : (s.cells (.timer n)).state = .unqueued) :
    eventOSCancel (.timer n) s = discard (.timer n) { s with timerList := s.timerList.erase (.timer n) } := by
  unfold eventOSCancel timerSysEventCancelCritical
  simp only [stopped_state hx, reduceCtorEq, if_false, if_true, ne_eq, not_false_eq_true]
  rfl

theorem eventOSCancel_running (hx : (s.cells x).state = .running) : eventOSCancel x s = stopped x s := by
  cases x with
  | timer n =>
    unfold eventOSCancel timerSysEventCancelCritical
    simp only [stopped_state hx, reduceCtorEq, if_false, ne_eq, not_true_eq_false]
    rfl
  | _ => simp only [eventOSCancel, hx, if_false, ne_eq, reduceCtorEq, not_true_eq_false]; rfl

theorem inv_eventOSCancel (h : Inv [] [] s) (hx : x ∈ s.queue ∨ x ∈ s.timerList ∨ x ∈ s.running) :
    Inv [] [] (eventOSCancel x s) := by
  rcases hx with hx | hx | hx
  · obtain ⟨hstate, hr⟩ := (h.queue x hx).1
    rw [eventOSCancel_queued hstate]
    exact inv_discard (h.eraseQueue hx) hr
  · obtain ⟨⟨n, rfl⟩, hstate, hr⟩ := h.timerList x hx
    rw [eventOSCancel_pending hstate]
    exact inv_discard (h.eraseTimerList hx) hr
  · rw [eventOSCancel_running (h.running x hx).1]
    exact h.stopped

theorem inv_eventOSEventTimerCancel (h : Inv [] [] s) (eventId : UInt8) (receiver : Nat) :
    Inv [] [] (eventOSEventTimerCancel eventId receiver s) := by
  unfold eventOSEventTimerCancel
  dsimp only
  split
  · rename_i x hfind
    exact inv_eventOSCancel h (.inr (.inl (mem_of_find?_eq_some hfind)))
  split
  · rename_i n hfind
    exact inv_eventOSCancel h (.inl (mem_of_find?_eq_some hfind))
  · exact h

/-! ## Ticks -/

theorem inv_sendDue {xs : List Storage} (h : Inv held owed s) (hxs : xs.Nodup) (hmem : ∀ x ∈ xs, x ∈ s.timerList) :
    Inv held owed (sendDue xs s) := by
  induction xs generalizing s with
  | nil => exact h
  | cons x xs ih =>
    rw [nodup_cons] at hxs
    have hx := hmem x (.head _)
    unfold sendDue
    split
    · refine ih (inv_eventCoreWrite (h.eraseTimerList hx) (h.timerList x hx).2.2) hxs.2 ?_
      intro y hy
      have hne : y ≠ x := fun heq => hxs.1 (heq ▸ hy)
      exact (mem_erase_of_ne hne).mpr (hmem y (mem_cons_of_mem x hy))
    · exact h

theorem Inv.nodup_timerList (h : Inv held owed s) : s.timerList.Nodup := by
  have hplaces := (nodup_append.mp h.nodup).2.1
  have htimer := (nodup_append.mp (nodup_append.mp hplaces).2.1).2.1
  exact (nodup_append.mp htimer).1

theorem inv_systemTimerTickUpdate (h : Inv held owed s) (ticks : UInt32) : Inv held owed (systemTimerTickUpdate ticks s) := by
  have hlater : Inv held owed ({ s with ticks := s.ticks + ticks }.setLog fun l => { l with clock := l.clock + ticks.toNat }) :=
    { h with }
  exact inv_sendDue hlater h.nodup_timerList fun x hx => hx

/-! ## Sending -/

theorem timerStructGet_some (h : Inv [] [] s) (hmem : Unused s.timers mem)
    (hget : timerStructGet mem s = (some x, s')) : ∃ n, x = .timer n ∧ Inv [.timer n] [] s' ∧
      s' = { s with timerFree := s'.timerFree, timers := s'.timers } := by
  unfold timerStructGet at hget
  split at hget
  · rename_i y rest hfree
    cases hget
    obtain ⟨⟨n, rfl⟩, -⟩ := h.timerFree x (hfree ▸ (.head _))
    exact ⟨n, rfl, h.takeTimerFree hfree, rfl⟩
  cases mem with
  | some n =>
    cases hget
    exact ⟨n, rfl, h.newTimer (hmem n rfl), rfl⟩
  | none => cases hget

theorem timerStructGet_none (hget : timerStructGet mem s = (none, s')) : s' = s := by
  unfold timerStructGet at hget
  split at hget
  · cases hget
  cases mem with
  | some n => cases hget
  | none =>
    cases hget
    rfl

theorem inv_requestAt (h : Inv [] [] s) (data : EventData) (launchTime period : UInt32)
    (hmem : Unused s.timers mem) : Inv [] [] (requestAt data launchTime period mem s) := by
  unfold requestAt
  split_ifs with hr
  · split
    · rename_i x s' heq
      obtain ⟨n, rfl, hheld, hs'⟩ := timerStructGet_some h hmem heq
      have htasklets : s'.tasklets = s.tasklets := by rw [hs']
      have hcell := setCell_self s' (.timer n) fun _ => ⟨.unqueued, data, launchTime, period⟩
      refine inv_launch ((hheld.setCell _).setMarks _).accept ?_ ?_
      · exact congrArg Cell.state hcell
      show _ ∈ s'.tasklets
      rw [htasklets]
      exact (congrArg (fun c : Cell => c.data.receiver) hcell).symm ▸ hr
    · rename_i s' heq
      rw [timerStructGet_none heq]
      exact h
  · exact h

theorem eventCoreGet_some (h : Inv [] [] s) (hmem : Unused s.heap mem)
    (hget : eventCoreGet mem s = (some x, s')) : Inv [x] [] s' ∧ (∀ n, x ≠ .timer n) ∧
      s' = { s with free := s'.free, heap := s'.heap, cells := s'.cells } ∧ ∀ y, y ≠ x → s'.cells y = s.cells y := by
  unfold eventCoreGet at hget
  split at hget
  · rename_i y rest hfree
    cases hget
    obtain ⟨⟨i, rfl⟩, -⟩ := h.free x (hfree ▸ (.head _))
    exact ⟨(h.takeFree hfree).setCell _, nofun, rfl, fun y hy => if_neg hy⟩
  cases mem with
  | some n =>
    cases hget
    exact ⟨(h.newDynamic (hmem n rfl)).setCell _, nofun, rfl, fun y hy => if_neg hy⟩
  | none => cases hget

theorem eventCoreGet_none (hget : eventCoreGet mem s = (none, s')) : s' = s := by
  unfold eventCoreGet at hget
  split at hget
  · cases hget
  cases mem with
  | some n => cases hget
  | none =>
    cases hget
    rfl

theorem inv_eventOSEventSend (h : Inv [] [] s) (data : EventData) (hmem : Unused s.heap mem) :
    Inv [] [] (eventOSEventSend data mem s) := by
  unfold eventOSEventSend
  split_ifs with hr
  · split
    · rename_i x s' heq
      obtain ⟨hheld, _, hs', _⟩ := eventCoreGet_some h hmem heq
      have htasklets : s'.tasklets = s.tasklets := by rw [hs']
      have hcell := setCell_self s' x fun c => { c with data := data }
      refine inv_eventCoreWrite (hheld.setCell _).accept ?_
      show _ ∈ s'.tasklets
      rw [htasklets]
      exact (congrArg (fun c : Cell => c.data.receiver) hcell).symm ▸ hr
    · rename_i s' heq
      rw [eventCoreGet_none heq]
      exact h
  · exact h

/-- An unqueued user event is not in the event loop. -/
theorem Inv.user_not_mem (h : Inv [] [] s) (hn : (s.cells (.user n)).state = .unqueued) : .user n ∉ places s := by
  intro hmem
  rcases mem_places.mp hmem with hmem | hmem | hmem | hmem | hmem
  · obtain ⟨⟨i, hi⟩, -⟩ := h.free _ hmem
    cases hi
  · obtain ⟨⟨i, hi⟩, -⟩ := h.timerFree _ hmem
    cases hi
  · obtain ⟨⟨i, hi⟩, -⟩ := h.timerList _ hmem
    cases hi
  · cases hn.symm.trans (h.queue _ hmem).1.1
  · cases hn.symm.trans (h.running _ hmem).1

theorem inv_sendUser {data : EventData} (h : Inv [] [] s) (hn : (s.cells (.user n)).state = .unqueued)
    (hr : data.receiver ∈ s.tasklets) :
    Inv [] [] (eventOSEventSendUserAllocated (.user n) (s.setCell (.user n) fun c => { c with data := data })) := by
  have hcell := setCell_self s (.user n) fun c => { c with data := data }
  refine inv_eventCoreWrite ((h.takeUser (h.user_not_mem hn)).setCell _).accept ?_
  exact (congrArg (fun c : Cell => c.data.receiver) hcell).symm ▸ hr

end Functions

/-! ## Runs -/

theorem inv_eventOSSchedulerInit (tasklets : List Nat) (ticks : UInt32) : Inv [] [] (eventOSSchedulerInit tasklets ticks) := by
  refine ⟨?_, ?_, ?_, fun n _ => rfl, ?_, ?_, nofun, nofun, nofun, .nil, nodup_nil, fun k => rfl⟩
  · show ((List.range startupEventPoolSize).reverse.map Storage.pool ++
      ((List.range stMax).reverse.map Storage.timer ++ ([] ++ ([] ++ [])))).Nodup
    decide
  · intro x hx
    rcases mem_places.mp hx with hx | hx | hx | hx | hx
    · obtain ⟨i, hi, rfl⟩ := mem_map.mp hx
      exact mem_range.mp (mem_reverse.mp hi)
    · obtain ⟨n, hn, rfl⟩ := mem_map.mp hx
      exact mem_reverse.mp hn
    all_goals cases hx
  · intro x hx
    cases x with
    | pool i =>
      refine .inl (mem_places.mpr (.inl (mem_map.mpr ⟨i, ?_, rfl⟩)))
      exact mem_reverse.mpr (mem_range.mpr hx)
    | timer n => exact .inl (mem_places.mpr (.inr (.inl (mem_map.mpr ⟨n, mem_reverse.mpr hx, rfl⟩))))
    | dynamic n => cases hx
    | user n => exact .inr ⟨n, rfl⟩
  · intro x hx
    obtain ⟨i, _, rfl⟩ := mem_map.mp hx
    exact ⟨⟨i, rfl⟩, rfl⟩
  · intro x hx
    obtain ⟨n, _, rfl⟩ := mem_map.mp hx
    exact ⟨⟨n, rfl⟩, rfl⟩

theorem inv_step {s s' : State} {op : Op} (h : Inv [] [] s) (hop : Allowed s op) (hs : step s op = some s') : Inv [] [] s' := by
  cases op with
  | start => exact inv_start h hs
  | send data mem =>
    cases hs
    exact inv_eventOSEventSend h data hop
  | sendUser n data =>
    cases hs
    exact inv_sendUser h hop.1 hop.2
  | requestAt data launchTime mem =>
    cases hs
    exact inv_requestAt h data _ _ hop
  | requestIn data delay mem =>
    cases hs
    exact inv_requestAt h data _ _ hop
  | requestEvery data period mem =>
    cases hs
    unfold eventOSEventTimerRequestEvery
    split
    · exact h
    · exact inv_requestAt h data _ _ hop
  | request eventId receiver time mem =>
    cases hs
    exact inv_requestAt h _ _ _ hop
  | cancel x =>
    cases hs
    exact inv_eventOSCancel h hop
  | cancelTimer eventId receiver =>
    cases hs
    exact inv_eventOSEventTimerCancel h eventId receiver
  | tick ticks =>
    cases hs
    exact inv_systemTimerTickUpdate h ticks
  | finish =>
    cases hs
    exact inv_finish h

theorem inv_reaches {tasklets : List Nat} {ticks : UInt32} {s : State}
    (h : Reaches (eventOSSchedulerInit tasklets ticks) s) : Inv [] [] s := by
  induction h with
  | init => exact inv_eventOSSchedulerInit tasklets ticks
  | step op _ hop hs ih => exact inv_step ih hop hs

/-! ## Order and places -/

/-- The place of a storage is one that its state allows. A user event that is not in the event loop is with its
owner. -/
def Placed (s : State) (x : Storage) : Prop :=
  match (s.cells x).state with
  | .unqueued => x ∈ s.free ∨ x ∈ s.timerFree ∨ x ∈ s.timerList ∨ (∃ n, x = .user n) ∧ x ∉ places s
  | .queued => x ∈ s.queue
  | .running => x ∈ s.running

structure InOrder (s : State) : Prop where
  returns : ∀ op, Allowed s op → (step s op).isSome
  sorted : s.queue.Pairwise (Before s)
  /-- An event that is dispatched is the first of the queue. -/
  first : ∀ x queue, s.queue = x :: queue → ∃ s', step s .start = some s' ∧ s'.queue = queue ∧
    s'.running = x :: s.running ∧ s'.log.dispatched = s.log.dispatched ++ [(s.marks x).ticket]
  /-- Of the events that were accepted, each has been dispatched or cancelled, is in the queue or is a pending timer,
  and it is so once. -/
  once : ∀ k, s.log.dispatched.count k + s.log.cancelled.count k + (s.queue.map fun x => (s.marks x).ticket).count k +
    (s.timerList.map fun x => (s.marks x).ticket).count k = if k < s.log.accepted then 1 else 0
  nodup : (places s).Nodup
  known : ∀ x ∈ places s, Known s x
  placed : ∀ x, Known s x → Placed s x

section InOrder

variable {s : State} {x : Storage}

theorem Inv.placed (h : Inv [] [] s) (hx : Known s x) : Placed s x := by
  unfold Placed
  by_cases hmem : x ∈ places s
  · rcases mem_places.mp hmem with hmem | hmem | hmem | hmem | hmem
    · rw [(h.free x hmem).2]
      exact .inl hmem
    · rw [(h.timerFree x hmem).2]
      exact .inr (.inl hmem)
    · rw [(h.timerList x hmem).2.1]
      exact .inr (.inr (.inl hmem))
    · rw [(h.queue x hmem).1.1]
      exact hmem
    · rw [(h.running x hmem).1]
      exact hmem
  · obtain ⟨n, rfl⟩ := (h.complete x hx).resolve_left hmem
    rw [h.owner n hmem]
    exact .inr (.inr (.inr ⟨⟨n, rfl⟩, hmem⟩))

theorem Inv.start_eq {queue : List Storage} (h : Inv [] [] s) (hqueue : s.queue = x :: queue) :
    start s = some (({ s with queue := queue, running := x :: s.running }.setCell x fun c =>
      { c with state := .running }).setLog fun l => { l with dispatched := l.dispatched ++ [(s.marks x).ticket] }) := by
  have hx : x ∈ s.queue := hqueue ▸ (.head _)
  unfold start
  rw [hqueue]
  exact if_pos (h.queue x hx).1.2

theorem Inv.step_isSome (h : Inv [] [] s) (op : Op) : (step s op).isSome := by
  cases op with
  | start =>
    show (start s).isSome
    rcases hqueue : s.queue with _ | ⟨x, queue⟩
    · unfold start
      rw [hqueue]
      rfl
    · rw [h.start_eq hqueue]
      rfl
  | _ => rfl

end InOrder

/-- Whatever is sent, cancelled and dispatched, the queue is in order, every accepted event is dispatched once unless
it is cancelled, and every storage is in its place. -/
theorem events_in_order {tasklets : List Nat} {ticks : UInt32} {s : State}
    (h : Reaches (eventOSSchedulerInit tasklets ticks) s) : InOrder s := by
  have hinv := inv_reaches h
  refine ⟨fun op _ => hinv.step_isSome op, hinv.sorted, ?_, ?_, hinv.nodup, hinv.known, fun x hx => hinv.placed hx⟩
  · intro x queue hqueue
    exact ⟨_, hinv.start_eq hqueue, rfl, rfl, rfl⟩
  · intro k
    exact hinv.tally k

/-- A user event and a timer overtake an event of the pool; the timer is cancelled, a second one is dispatched. -/
def overtaking : List Op :=
  [.send ⟨1, 0, .low⟩ none, .sendUser 0 ⟨1, 1, .high⟩, .requestIn ⟨1, 2, .med⟩ 1 none, .requestEvery ⟨1, 3, .med⟩ 2 none,
    .tick 2, .start, .cancel (.timer 5), .start, .finish, .finish]

theorem overtaking_runs : (run (eventOSSchedulerInit [1] 4294967295) overtaking).isSome := by decide

theorem events_in_order_overtaking : ∃ s, InOrder s ∧ s.queue = [.pool 9] ∧ s.timerList = [.timer 4] ∧
    s.log.dispatched = [1, 3] ∧ s.log.cancelled = [2] := by
  refine ⟨_, events_in_order (Reaches.init.run (Option.some_get overtaking_runs).symm), ?_⟩
  decide

end MbedCloud.EventLoop

