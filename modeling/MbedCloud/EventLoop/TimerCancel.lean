import MbedCloud.EventLoop.Dispatch

/-!
# Cancelling a timer by its id

`eventOS_event_timer_cancel` looks for the first pending timer with the id and the receiver, and then for the first
queued event with them, of whatever kind: an ordinary event hides the timer events behind it.
-/

namespace MbedCloud.EventLoop

open List

def isFor (eventId : UInt8) (receiver : Nat) (s : State) (x : Storage) : Bool :=
  decide ((s.cells x).data.receiver = receiver ∧ (s.cells x).data.eventId = eventId)

/-- The event that `eventOS_event_timer_cancel` cancels. -/
def timerToCancel (eventId : UInt8) (receiver : Nat) (s : State) : Option Storage :=
  match s.timerList.find? (isFor eventId receiver s) with
  | some x => some x
  | none =>
    match s.queue.find? (isFor eventId receiver s) with
    | some (.timer n) => some (.timer n)
    | _ => none

/-- The result of `eventOS_event_timer_cancel`. -/
def timerCancelResult (eventId : UInt8) (receiver : Nat) (s : State) : Int :=
  if (timerToCancel eventId receiver s).isSome then 0 else -1

/-- The timer `n` is removed, and is free. -/
def removeTimer (n : Nat) (s : State) : State :=
  ({ s with
    timerList := s.timerList.erase (.timer n)
    queue := s.queue.erase (.timer n)
    timerFree := .timer n :: s.timerFree }.setCell (.timer n) fun c => { c with state := .unqueued, period := 0 }).setLog
    fun l => { l with cancelled := l.cancelled ++ [(s.marks (.timer n)).ticket] }

/-- A timer event with the id and the receiver is pending or queued. -/
def Waits (eventId : UInt8) (receiver : Nat) (s : State) (n : Nat) : Prop :=
  .timer n ∈ s.timerList ++ s.queue ∧ isFor eventId receiver s (.timer n) = true

structure CancelsOne (eventId : UInt8) (receiver : Nat) (s : State) : Prop where
  result : timerCancelResult eventId receiver s = 0 ↔ ∃ n, Waits eventId receiver s n
  removed : timerCancelResult eventId receiver s = 0 → ∃ n, Waits eventId receiver s n ∧
    eventOSEventTimerCancel eventId receiver s = removeTimer n s
  unchanged : timerCancelResult eventId receiver s = -1 → eventOSEventTimerCancel eventId receiver s = s

section

variable {s : State} {eventId : UInt8} {receiver : Nat}

theorem discard_timer (n : Nat) (s : State) : discard (.timer n) s =
    ({ s with timerFree := .timer n :: s.timerFree }.setCell (.timer n) fun c =>
      { c with state := .unqueued, period := 0 }).setLog
        fun l => { l with cancelled := l.cancelled ++ [(s.marks (.timer n)).ticket] } := by
  simp only [discard, stopped, eventCoreFreePush, timerSysEventFree, State.setCell, State.setLog, if_true]
  congr 1
  funext y
  split <;> simp_all

theorem eventOSCancel_timer (h : Inv [] [] s) {n : Nat} (hn : .timer n ∈ s.timerList ++ s.queue) :
    eventOSCancel (.timer n) s = removeTimer n s := by
  rcases mem_append.mp hn with hn | hn
  · have hstate := (h.timerList _ hn).2.1
    have hnot : .timer n ∉ s.queue := fun hq => by simp [(h.queue _ hq).1.1] at hstate
    rw [eventOSCancel_pending hstate, discard_timer, removeTimer, erase_of_not_mem hnot]
  · have hstate := (h.queue _ hn).1.1
    have hnot : .timer n ∉ s.timerList := fun ht => by simp [(h.timerList _ ht).2.1] at hstate
    rw [eventOSCancel_queued hstate, discard_timer, removeTimer, erase_of_not_mem hnot]

theorem eventOSEventTimerCancel_eq (eventId : UInt8) (receiver : Nat) (s : State) :
    eventOSEventTimerCancel eventId receiver s = (timerToCancel eventId receiver s).elim s (eventOSCancel · s) := by
  unfold timerToCancel
  change (match s.timerList.find? (isFor eventId receiver s) with | some x => _ | none => _) = _
  split
  · rfl
  · change (match s.queue.find? (isFor eventId receiver s) with | some (.timer n) => _ | _ => _) = _
    split <;> rfl

theorem cancelsOne_of_some (h : Inv [] [] s) {n : Nat} (hn : Waits eventId receiver s n)
    (hfound : timerToCancel eventId receiver s = some (.timer n)) : CancelsOne eventId receiver s := by
  have hresult : timerCancelResult eventId receiver s = 0 := by rw [timerCancelResult, hfound]; rfl
  refine ⟨iff_of_true hresult ⟨n, hn⟩, fun _ => ⟨n, hn, ?_⟩, by simp [hresult]⟩
  rw [eventOSEventTimerCancel_eq, hfound]
  exact eventOSCancel_timer h hn.1

theorem cancelsOne_of_none (hfound : timerToCancel eventId receiver s = none) :
    CancelsOne eventId receiver s ↔ ∀ n, ¬ Waits eventId receiver s n := by
  have hresult : timerCancelResult eventId receiver s = -1 := by rw [timerCancelResult, hfound]; rfl
  have hne : timerCancelResult eventId receiver s ≠ 0 := by simp [hresult]
  constructor
  · intro hc n hn
    exact hne (hc.result.mpr ⟨n, hn⟩)
  · intro hnone
    refine ⟨iff_of_false hne (not_exists.mpr hnone), fun h => absurd h hne, fun _ => ?_⟩
    rw [eventOSEventTimerCancel_eq, hfound]
    rfl

/-- One timer event is removed if one is pending, if none is queued, or if the first of the queued events with the id
and the receiver is one. -/
theorem cancelsOne_iff {tasklets : List Nat} {ticks : UInt32} (h : Reaches (eventOSSchedulerInit tasklets ticks) s) :
    CancelsOne eventId receiver s ↔ (∃ x ∈ s.timerList, isFor eventId receiver s x = true) ∨
      (∀ n, .timer n ∈ s.queue → isFor eventId receiver s (.timer n) = false) ∨
      ∃ l n r, s.queue = l ++ .timer n :: r ∧ isFor eventId receiver s (.timer n) = true ∧
        ∀ y ∈ l, isFor eventId receiver s y = false := by
  have hinv := inv_reaches h
  cases hlist : s.timerList.find? (isFor eventId receiver s) with
  | some x =>
    have hmem := mem_of_find?_eq_some hlist
    obtain ⟨⟨n, rfl⟩, -⟩ := hinv.timerList x hmem
    have hfor := find?_some hlist
    refine iff_of_true (cancelsOne_of_some hinv ⟨mem_append_left _ hmem, hfor⟩ ?_) (.inl ⟨_, hmem, hfor⟩)
    rw [timerToCancel, hlist]
  | none =>
    have hpending := find?_eq_none.mp hlist
    by_cases hfirst : ∃ n, s.queue.find? (isFor eventId receiver s) = some (.timer n)
    · obtain ⟨n, hn⟩ := hfirst
      obtain ⟨hfor, l, r, hqueue, hl⟩ := find?_eq_some_iff_append.mp hn
      refine iff_of_true (cancelsOne_of_some hinv (n := n)
        ⟨mem_append_right _ (mem_of_find?_eq_some hn), hfor⟩ ?_) (.inr (.inr ⟨l, n, r, hqueue, hfor, ?_⟩))
      · rw [timerToCancel, hlist, hn]
      · simpa using hl
    · rw [cancelsOne_of_none ?_]
      · constructor
        · intro hnone
          refine .inr (.inl fun n hn => ?_)
          exact Bool.eq_false_iff.mpr fun hfor => hnone n ⟨mem_append_right _ hn, hfor⟩
        · rintro (⟨x, hx, hfor⟩ | hnone | ⟨l, n, r, hqueue, hfor, hl⟩) k ⟨hk, hfork⟩
          · exact hpending x hx hfor
          · rcases mem_append.mp hk with hk | hk
            · exact hpending _ hk hfork
            · simp [hnone k hk] at hfork
          · refine hfirst ⟨n, find?_eq_some_iff_append.mpr ⟨hfor, l, r, hqueue, ?_⟩⟩
            simpa using hl
      · unfold timerToCancel
        rw [hlist]
        dsimp only
        split
        · rename_i n hn
          exact absurd ⟨n, hn⟩ hfirst
        · rfl

end

theorem cancelsOne_pending : CancelsOne 1 0 (eventOSEventTimerRequestAt ⟨0, 1, .low⟩ 10 none (eventOSSchedulerInit [0] 0)) :=
  (cancelsOne_iff (.step (.requestAt _ _ _) .init (by decide) rfl)).mpr (.inl ⟨.timer 5, by decide, by decide⟩)

/-- An ordinary event is queued, and behind it a timer event with the same id and receiver. -/
def hiddenTimer : State :=
  eventOSEventTimerRequestAt ⟨0, 1, .low⟩ 0 none (eventOSEventSend ⟨0, 1, .low⟩ none (eventOSSchedulerInit [0] 0))

theorem not_cancelsOne_hiddenTimer : Reaches (eventOSSchedulerInit [0] 0) hiddenTimer ∧ ¬ CancelsOne 1 0 hiddenTimer := by
  refine ⟨.step (.requestAt _ _ _) (.step (.send _ _) .init (by decide) rfl) (by decide) rfl, fun h => ?_⟩
  exact absurd (h.result.mpr ⟨5, by decide, by decide⟩) (by decide)

end MbedCloud.EventLoop

