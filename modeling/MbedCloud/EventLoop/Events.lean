import Mathlib.Algebra.Order.Ring.Nat
import Mathlib.Data.List.Sort

/-!
# The event loop

The queue of `event.c` and the timers of `system_timer.c`. The lists hold storages of events; what a storage
holds is a function of the state (`cells`). A call of a handler is the time between `start` and `finish`,
so that handlers may do everything, also dispatch events themselves.

`Marks` and `Log` are history variables: no function reads them. They say which acceptance of an event a storage
belongs to, in which order events were sent, and to which point on a clock without overflow a tick belongs.

The fields of an event that no function reads are left out, and so is the creation of handlers.
-/

namespace MbedCloud.EventLoop

/-! ## Events -/

/-- `arm_library_event_priority_e` -/
inductive Priority where
  | high
  | med
  | low
  deriving DecidableEq

def Priority.rank : Priority → Nat
  | .high => 0
  | .med => 1
  | .low => 2

/-- `arm_event_t` -/
structure EventData where
  /-- The id of a tasklet: an `int8_t`, from 0 to 127. -/
  receiver : Nat
  eventId : UInt8
  priority : Priority
  deriving DecidableEq

inductive EventState where
  | unqueued
  | queued
  | running
  deriving DecidableEq

/-- The storages of events. The `allocator` of a storage says which kind it is of; it is set before a storage is
queued for the first time. -/
inductive Storage where
  /-- `ARM_LIB_EVENT_STARTUP_POOL` -/
  | pool (i : Nat)
  /-- `ARM_LIB_EVENT_DYNAMIC` -/
  | dynamic (n : Nat)
  /-- `ARM_LIB_EVENT_USER` -/
  | user (n : Nat)
  /-- `ARM_LIB_EVENT_TIMER`: the event of a `sys_timer_struct_s` -/
  | timer (n : Nat)
  deriving DecidableEq

/-- `arm_event_storage_t`, and for a timer the rest of `sys_timer_struct_s`. -/
structure Cell where
  state : EventState
  data : EventData
  launchTime : UInt32
  period : UInt32
  deriving DecidableEq

structure Marks where
  /-- The acceptance that the storage is used for. -/
  ticket : Nat
  /-- The number of its sending. -/
  seq : Nat
  /-- The number of the entry in the list of timers. -/
  armed : Nat
  /-- The launch time on the clock. -/
  due : Int
  /-- When the timer was requested. -/
  requested : Int
  /-- The number of the firing of a periodic timer. -/
  firing : Nat
  deriving DecidableEq

structure Log where
  accepted : Nat
  sent : Nat
  armed : Nat
  /-- The tickets of the events that were dispatched. -/
  dispatched : List Nat
  /-- The tickets of the events that were cancelled. -/
  cancelled : List Nat
  clock : Int
  deriving DecidableEq

structure State where
  /-- The ids of the tasklets. -/
  tasklets : List Nat
  cells : Storage → Cell
  marks : Storage → Marks
  log : Log
  /-- `free_event_entry` -/
  free : List Storage
  /-- `event_queue_active` -/
  queue : List Storage
  /-- `system_timer_free` -/
  timerFree : List Storage
  /-- `system_timer_list` -/
  timerList : List Storage
  /-- The events whose handlers have been called, the innermost first. -/
  running : List Storage
  /-- The dynamically allocated storages. -/
  heap : List Nat
  /-- The timers that have been allocated, with those of the startup pool. -/
  timers : List Nat
  /-- `timer_sys_ticks` -/
  ticks : UInt32

namespace State

def setCell (s : State) (x : Storage) (g : Cell → Cell) : State :=
  { s with cells := fun y => if y = x then g (s.cells x) else s.cells y }

def setMarks (s : State) (x : Storage) (g : Marks → Marks) : State :=
  { s with marks := fun y => if y = x then g (s.marks x) else s.marks y }

def setLog (s : State) (g : Log → Log) : State := { s with log := g s.log }

def rank (s : State) (x : Storage) : Nat := (s.cells x).data.priority.rank

def accept (s : State) (x : Storage) : State :=
  (s.setMarks x fun m => { m with ticket := s.log.accepted }).setLog fun l => { l with accepted := l.accepted + 1 }

end State

/-! ## Ticks -/

/-- `TICKS_BEFORE`: the difference is negative as an `int32_t`. -/
def ticksBefore (a b : UInt32) : Bool := 2 ^ 31 ≤ (a - b).toNat

/-- `TICKS_BEFORE_OR_AT` -/
def ticksBeforeOrAt (a b : UInt32) : Bool := a - b = 0 ∨ 2 ^ 31 ≤ (a - b).toNat

/-! ## The queue -/

/-- `event_core_get`; `mem` is what the allocation of memory gives if there is one. -/
def eventCoreGet (mem : Option Nat) (s : State) : Option Storage × State :=
  match s.free with
  | x :: free => (some x, { s with free := free }.setCell x fun c => { c with data := { c.data with priority := .low } })
  | [] =>
    match mem with
    | some n =>
      (some (.dynamic n), { s with heap := n :: s.heap }.setCell (.dynamic n) fun c =>
        { c with data := { c.data with priority := .low } })
    | none => (none, s)

/-- `event_core_write` -/
def eventCoreWrite (x : Storage) (s : State) : State :=
  let s := { s with queue := s.queue.orderedInsert (fun a b => s.rank a < s.rank b) x }
  ((s.setCell x fun c => { c with state := .queued }).setMarks x fun m => { m with seq := s.log.sent }).setLog
    fun l => { l with sent := l.sent + 1 }

/-- `eventOS_event_send` -/
def eventOSEventSend (data : EventData) (mem : Option Nat) (s : State) : State :=
  if data.receiver ∈ s.tasklets then
    match eventCoreGet mem s with
    | (some x, s) => eventCoreWrite x ((s.setCell x fun c => { c with data := data }).accept x)
    | (none, s) => s
  else s

/-- `eventOS_event_send_user_allocated` -/
def eventOSEventSendUserAllocated (x : Storage) (s : State) : State := eventCoreWrite x (s.accept x)

/-- `eventOS_event_send_timer_allocated` -/
def eventOSEventSendTimerAllocated (x : Storage) (s : State) : State := eventCoreWrite x s

/-! ## The timers -/

/-- `timer_struct_get` -/
def timerStructGet (mem : Option Nat) (s : State) : Option Storage × State :=
  match s.timerFree with
  | x :: free => (some x, { s with timerFree := free })
  | [] =>
    match mem with
    | some n => (some (.timer n), { s with timers := n :: s.timers })
    | none => (none, s)

/-- `timer_sys_add` -/
def timerSysAdd (x : Storage) (s : State) : State :=
  let s := { s with
    timerList := s.timerList.orderedInsert (fun a b => ticksBefore (s.cells a).launchTime (s.cells b).launchTime = true) x }
  (s.setMarks x fun m => { m with armed := s.log.armed }).setLog fun l => { l with armed := l.armed + 1 }

/-- A timer that is overdue is sent, any other one is put on the list. -/
def launch (x : Storage) (s : State) : State :=
  if ticksBeforeOrAt (s.cells x).launchTime s.ticks then eventOSEventSendTimerAllocated x s else timerSysAdd x s

/-- `timer_sys_event_free` -/
def timerSysEventFree (x : Storage) (s : State) : State :=
  if (s.cells x).period = 0 then { s with timerFree := x :: s.timerFree }
  else
    let period := (s.cells x).period
    launch x (((s.setCell x fun c => { c with launchTime := c.launchTime + period }).setMarks x fun m =>
      { m with due := m.due + period.toNat, firing := m.firing + 1 }).accept x)

/-- `timer_sys_event_cancel_critical` -/
def timerSysEventCancelCritical (x : Storage) (s : State) : State :=
  let s := s.setCell x fun c => { c with period := 0 }
  if (s.cells x).state = .unqueued then { s with timerList := s.timerList.erase x } else s

/-- `eventOS_event_timer_request_at_` -/
def requestAt (data : EventData) (launchTime period : UInt32) (mem : Option Nat) (s : State) : State :=
  if data.receiver ∈ s.tasklets then
    match timerStructGet mem s with
    | (some x, s) =>
      let s := s.setCell x fun _ => ⟨.unqueued, data, launchTime, period⟩
      let delay := (launchTime - s.ticks).toInt32.toInt
      launch x ((s.setMarks x fun m => { m with due := s.log.clock + delay, requested := s.log.clock, firing := 1 }).accept x)
    | (none, s) => s
  else s

/-- `eventOS_event_timer_request_at` -/
def eventOSEventTimerRequestAt (data : EventData) (launchTime : UInt32) (mem : Option Nat) (s : State) : State :=
  requestAt data launchTime 0 mem s

/-- `eventOS_event_timer_request_in` -/
def eventOSEventTimerRequestIn (data : EventData) (delay : Int32) (mem : Option Nat) (s : State) : State :=
  requestAt data (s.ticks + delay.toUInt32) 0 mem s

/-- `eventOS_event_timer_request_every` -/
def eventOSEventTimerRequestEvery (data : EventData) (period : Int32) (mem : Option Nat) (s : State) : State :=
  if period ≤ 0 then s else requestAt data (s.ticks + period.toUInt32) period.toUInt32 mem s

/-- The ticks that `eventOS_event_timer_request` makes of milliseconds. -/
def legacyTicks (time : UInt32) : UInt32 := if time > 20 then time / 10 + 1 else 2

/-- `eventOS_event_timer_request` -/
def eventOSEventTimerRequest (eventId : UInt8) (receiver : Nat) (time : UInt32) (mem : Option Nat) (s : State) : State :=
  requestAt ⟨receiver, eventId, .med⟩ (s.ticks + legacyTicks time) 0 mem s

/-- The loop of `system_timer_tick_update`. -/
def sendDue : List Storage → State → State
  | [], s => s
  | x :: xs, s =>
    if ticksBeforeOrAt (s.cells x).launchTime s.ticks then
      sendDue xs (eventOSEventSendTimerAllocated x { s with timerList := s.timerList.erase x })
    else s

/-- `system_timer_tick_update` -/
def systemTimerTickUpdate (ticks : UInt32) (s : State) : State :=
  let s := { s with ticks := s.ticks + ticks }.setLog fun l => { l with clock := l.clock + ticks.toNat }
  sendDue s.timerList s

/-! ## Dispatching and cancelling -/

/-- `event_core_free_push` -/
def eventCoreFreePush (x : Storage) (s : State) : State :=
  let s := s.setCell x fun c => { c with state := .unqueued }
  match x with
  | .pool _ => { s with free := x :: s.free }
  | .dynamic n => { s with heap := s.heap.erase n }
  | .timer _ => timerSysEventFree x s
  | .user _ => s

/-- The part of `eventOS_scheduler_dispatch_event` before the handler is called; there is no result if there is no
such tasklet. -/
def start (s : State) : Option State :=
  match s.queue with
  | [] => some s
  | x :: queue =>
    if (s.cells x).data.receiver ∈ s.tasklets then
      some (({ s with queue := queue, running := x :: s.running }.setCell x fun c => { c with state := .running }).setLog
        fun l => { l with dispatched := l.dispatched ++ [(s.marks x).ticket] })
    else none

/-- The part of `eventOS_scheduler_dispatch_event` after the handler has returned. -/
def finish (s : State) : State :=
  match s.running with
  | [] => s
  | x :: running => eventCoreFreePush x { s with running := running }

/-- `eventOS_cancel` -/
def eventOSCancel (x : Storage) (s : State) : State :=
  let ticket := (s.marks x).ticket
  let s :=
    match x with
    | .timer _ => timerSysEventCancelCritical x s
    | _ => s
  let s := if (s.cells x).state = .queued then { s with queue := s.queue.erase x } else s
  if (s.cells x).state ≠ .running then eventCoreFreePush x (s.setLog fun l => { l with cancelled := l.cancelled ++ [ticket] })
  else s

/-- `eventOS_event_timer_cancel` -/
def eventOSEventTimerCancel (eventId : UInt8) (receiver : Nat) (s : State) : State :=
  let matching := fun x => decide ((s.cells x).data.receiver = receiver ∧ (s.cells x).data.eventId = eventId)
  match s.timerList.find? matching with
  | some x => eventOSCancel x s
  | none =>
    match s.queue.find? matching with
    | some (.timer n) => eventOSCancel (.timer n) s
    | _ => s

/-! ## Runs -/

inductive Op where
  | send (data : EventData) (mem : Option Nat)
  | sendUser (n : Nat) (data : EventData)
  | requestAt (data : EventData) (launchTime : UInt32) (mem : Option Nat)
  | requestIn (data : EventData) (delay : Int32) (mem : Option Nat)
  | requestEvery (data : EventData) (period : Int32) (mem : Option Nat)
  | request (eventId : UInt8) (receiver : Nat) (time : UInt32) (mem : Option Nat)
  | cancel (x : Storage)
  | cancelTimer (eventId : UInt8) (receiver : Nat)
  | tick (ticks : UInt32)
  | start
  | finish
  deriving DecidableEq

def step (s : State) : Op → Option State
  | .send data mem => some (eventOSEventSend data mem s)
  | .sendUser n data => some (eventOSEventSendUserAllocated (.user n) (s.setCell (.user n) fun c => { c with data := data }))
  | .requestAt data launchTime mem => some (eventOSEventTimerRequestAt data launchTime mem s)
  | .requestIn data delay mem => some (eventOSEventTimerRequestIn data delay mem s)
  | .requestEvery data period mem => some (eventOSEventTimerRequestEvery data period mem s)
  | .request eventId receiver time mem => some (eventOSEventTimerRequest eventId receiver time mem s)
  | .cancel x => some (eventOSCancel x s)
  | .cancelTimer eventId receiver => some (eventOSEventTimerCancel eventId receiver s)
  | .tick ticks => some (systemTimerTickUpdate ticks s)
  | .start => EventLoop.start s
  | .finish => some (EventLoop.finish s)

/-- New memory is not in use. -/
def Unused (used : List Nat) (mem : Option Nat) : Prop := ∀ n ∈ mem, n ∉ used

/-- A user event is sent to a tasklet, while it is unqueued. Events are cancelled while they are queued, pending or
running, and handlers return only after they have been called. -/
def Allowed (s : State) : Op → Prop
  | .send _ mem => Unused s.heap mem
  | .sendUser n data => (s.cells (.user n)).state = .unqueued ∧ data.receiver ∈ s.tasklets
  | .requestAt _ _ mem => Unused s.timers mem
  | .requestIn _ _ mem => Unused s.timers mem
  | .requestEvery _ _ mem => Unused s.timers mem
  | .request _ _ _ mem => Unused s.timers mem
  | .cancel x => x ∈ s.queue ∨ x ∈ s.timerList ∨ x ∈ s.running
  | .finish => s.running ≠ []
  | _ => True

instance (used : List Nat) (mem : Option Nat) : Decidable (Unused used mem) :=
  match mem with
  | none => isTrue nofun
  | some n => decidable_of_iff (n ∉ used) ⟨fun h _ hk => Option.some.inj hk ▸ h, fun h => h n rfl⟩

instance (s : State) (op : Op) : Decidable (Allowed s op) :=
  match op with
  | .send _ mem => inferInstanceAs (Decidable (Unused s.heap mem))
  | .sendUser n data => inferInstanceAs (Decidable ((s.cells (.user n)).state = .unqueued ∧ data.receiver ∈ s.tasklets))
  | .requestAt _ _ mem => inferInstanceAs (Decidable (Unused s.timers mem))
  | .requestIn _ _ mem => inferInstanceAs (Decidable (Unused s.timers mem))
  | .requestEvery _ _ mem => inferInstanceAs (Decidable (Unused s.timers mem))
  | .request _ _ _ mem => inferInstanceAs (Decidable (Unused s.timers mem))
  | .cancel x => inferInstanceAs (Decidable (x ∈ s.queue ∨ x ∈ s.timerList ∨ x ∈ s.running))
  | .finish => inferInstanceAs (Decidable (s.running ≠ []))
  | .cancelTimer _ _ => isTrue True.intro
  | .tick _ => isTrue True.intro
  | .start => isTrue True.intro

/-- `STARTUP_EVENT_POOL_SIZE` -/
def startupEventPoolSize : Nat := 10

/-- `ST_MAX` -/
def stMax : Nat := 6

def emptyCell : Cell := ⟨.unqueued, ⟨0, 0, .high⟩, 0, 0⟩

/-- `eventOS_scheduler_init`, with some tasklets and a value of the tick counter. -/
def eventOSSchedulerInit (tasklets : List Nat) (ticks : UInt32) : State where
  tasklets := tasklets
  cells _ := emptyCell
  marks _ := ⟨0, 0, 0, 0, 0, 0⟩
  log := ⟨0, 0, 0, [], [], ticks.toNat⟩
  free := (List.range startupEventPoolSize).reverse.map .pool
  queue := []
  timerFree := (List.range stMax).reverse.map .timer
  timerList := []
  running := []
  heap := []
  timers := List.range stMax
  ticks := ticks

inductive Reaches (s0 : State) : State → Prop
  | init : Reaches s0 s0
  | step {s s' : State} (op : Op) : Reaches s0 s → Allowed s op → step s op = some s' → Reaches s0 s'

def run (s : State) : List Op → Option State
  | [] => some s
  | op :: ops => if Allowed s op then (step s op).bind fun s' => run s' ops else none

theorem Reaches.run {s0 s s' : State} {ops : List Op} (h : Reaches s0 s) (hrun : EventLoop.run s ops = some s') :
    Reaches s0 s' := by
  induction ops generalizing s with
  | nil =>
    cases hrun
    exact h
  | cons op ops ih =>
    unfold EventLoop.run at hrun
    split_ifs at hrun
    rename_i hop
    obtain ⟨s1, hstep, hrest⟩ := Option.bind_eq_some_iff.mp hrun
    exact ih (h.step op hop hstep) hrest

end MbedCloud.EventLoop

