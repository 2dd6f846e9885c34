import Mathlib.Algebra.Order.Ring.Nat
import Mathlib.Data.List.Basic

/-!
# Callback timers

The timers of `ns_timer.c`, which share one hardware timer. `COMPENSATION` is 0. The hardware timer counts down and calls
`ns_timer_interrupt_handler` when it is at zero; a call of an interrupt function is an entry in `calls`.

Slots are 16-bit numbers. The results of the arithmetic go through `wrap`, which is `wrap16` for the program; with any
other function one gets the program for other numbers.
-/

namespace MbedCloud.CallbackTimers

/-- `ns_timer_state_e` -/
inductive TimerState where
  | active
  | hold
  | runInterrupt
  | stop
  deriving DecidableEq

/-- `ns_timer_struct` -/
structure Timer where
  id : Nat
  state : TimerState
  slots : Int
  remaining : Int
  deriving DecidableEq

structure Call where
  time : Nat
  id : Nat
  slots : Int
  deriving DecidableEq

structure State where
  /-- `ns_timer_list` -/
  timers : List Timer
  /-- `NS_TIMER_RUNNING` -/
  running : Bool
  /-- The slots of the hardware timer, 0 when it does not count. -/
  hardware : Int
  now : Nat
  calls : List Call
  deriving DecidableEq

def initial : State := ⟨[], false, 0, 0, []⟩

/-- `uint16_t` -/
def wrap16 (x : Int) : Int := x % 2 ^ 16

section Functions

variable (wrap : Int → Int)

/-- `ns_timer_get_pointer_to_timer_struct` -/
def find (timers : List Timer) (id : Nat) : Option Timer := timers.find? fun t => t.id = id

def change (timers : List Timer) (id : Nat) (g : Timer → Timer) : List Timer := timers.map fun t => if t.id = id then g t else t

/-- `eventOS_callback_timer_register`; `memory` says whether there is memory for the timer. -/
def register (memory : Bool) (s : State) : State :=
  match (List.range 128).find? fun i => (find s.timers i).isNone with
  | some i => if memory then { s with timers := s.timers ++ [⟨i, .stop, 0, 0⟩] } else s
  | none => s

/-- `ns_timer_start_pl_timer` -/
def startPlTimer (slots : Int) (s : State) : State := { s with hardware := if slots = 0 then 1 else slots, running := true }

/-- The timer on hold with less remaining slots. -/
def lesserHold (first : Option Timer) (t : Timer) : Option Timer :=
  if t.state = .hold then
    match first with
    | none => some t
    | some f => if t.remaining < f.remaining then some t else first
  else first

/-- The first of the timers on hold with the least remaining slots. -/
def leastHold (timers : List Timer) : Option Timer := timers.foldl lesserHold none

/-- A timer on hold, when the hardware timer has been started with some slots. -/
def rebase (slots : Int) (t : Timer) : Timer :=
  if t.state = .hold then
    if t.remaining = slots then { t with state := .active } else { t with remaining := wrap (t.remaining - slots) }
  else t

/-- The second loop of `ns_timer_get_next_running_to`, which stops when it has seen as many timers on hold as there
are. -/
def rebaseHolds (slots : Int) : UInt8 → List Timer → List Timer
  | _, [] => []
  | count, t :: timers =>
    if count = 0 then t :: timers
    else rebase wrap slots t :: rebaseHolds slots (if t.state = .hold then count - 1 else count) timers

def holdCount (timers : List Timer) : UInt8 := UInt8.ofNat (timers.countP fun t => t.state = .hold)

/-- `ns_timer_get_next_running_to` -/
def getNextRunningTo (s : State) : State :=
  match leastHold s.timers with
  | none => s
  | some first =>
    let count := holdCount s.timers - 1
    let s := startPlTimer first.remaining { s with timers := change s.timers first.id fun t => { t with state := .active } }
    { s with timers := rebaseHolds wrap first.remaining count s.timers }

/-- The loop of `eventOS_callback_timer_start` over the timers that have to wait for a shorter one. -/
def postpone (slots : Int) (t : Timer) : Timer :=
  let t := if t.state = .active then { t with state := .hold, remaining := 0 } else t
  if t.state = .hold then { t with remaining := wrap (t.remaining + slots) } else t

/-- `eventOS_callback_timer_start` -/
def start (id : Nat) (slots : Int) (s : State) : State :=
  match find s.timers id with
  | none => s
  | some _ =>
    if s.running then
      let plRemaining := s.hardware
      if plRemaining > slots then
        let s := startPlTimer slots s
        let timers := s.timers.map (postpone wrap (plRemaining - slots))
        { s with timers := change timers id fun t => { t with state := .active, slots := slots, remaining := slots } }
      else if plRemaining < slots then
        { s with timers := change s.timers id fun t =>
            { t with state := .hold, slots := slots, remaining := wrap (slots - plRemaining) } }
      else { s with timers := change s.timers id fun t => { t with state := .active, slots := slots, remaining := slots } }
    else
      getNextRunningTo wrap
        { s with timers := change s.timers id fun t => { t with state := .hold, slots := slots, remaining := slots } }

/-- A timer that the interrupt handler will call the function of. -/
def mark (t : Timer) : Timer := if t.state = .active then { t with state := .runInterrupt } else t

/-- The last loop of `ns_timer_interrupt_handler`: the interrupt functions are called, until as many as were counted. -/
def callFunctions (now : Nat) : UInt8 → List Timer → List Timer × List Call
  | _, [] => ([], [])
  | count, t :: timers =>
    if count = 0 then (t :: timers, [])
    else if t.state = .runInterrupt then
      let (timers, calls) := callFunctions now (count - 1) timers
      ({ t with state := .stop } :: timers, ⟨now, t.id, t.slots⟩ :: calls)
    else
      let (timers, calls) := callFunctions now count timers
      (t :: timers, calls)

/-- `ns_timer_interrupt_handler` -/
def interruptHandler (s : State) : State :=
  let count := UInt8.ofNat (s.timers.countP fun t => t.state = .active)
  let s := getNextRunningTo wrap { s with running := false, timers := s.timers.map mark }
  let (timers, calls) := callFunctions s.now count s.timers
  { s with timers := timers, calls := s.calls ++ calls }

/-- A timer on hold, when no timer that it waited for is left. -/
def resume (slots : Int) (t : Timer) : Timer := if t.state = .hold then { t with remaining := wrap (t.remaining + slots) } else t

/-- `eventOS_callback_timer_stop` -/
def stop (id : Nat) (s : State) : State :=
  match find s.timers id with
  | none => s
  | some t =>
    if t.state = .stop then s
    else
      let s := { s with timers := change s.timers id fun t => { t with state := .stop, remaining := 0 } }
      if s.timers.any fun t => t.state = .active then s
      else
        let plRemaining := s.hardware
        let s := { s with timers := s.timers.map (resume wrap plRemaining) }
        match leastHold s.timers with
        | none => s
        | some first =>
          let s := startPlTimer first.remaining { s with timers := change s.timers first.id fun t => { t with state := .active } }
          { s with timers := s.timers.map (rebase wrap first.remaining) }

def tick (s : State) : State :=
  let s := { s with now := s.now + 1 }
  if 0 < s.hardware then
    let s := { s with hardware := s.hardware - 1 }
    if s.hardware = 0 then interruptHandler wrap s else s
  else s

end Functions

/-! ## Runs -/

inductive Op where
  | register (memory : Bool)
  | start (id slots : Nat)
  | stop (id : Nat)
  | tick
  deriving DecidableEq

/-- Timers are started with 1 to 65535 slots. -/
def Op.Allowed : Op → Prop
  | .start _ slots => 1 ≤ slots ∧ slots ≤ 65535
  | _ => True

/-- The timer is started again or stopped. -/
def Op.Touches (id : Nat) : Op → Prop
  | .start i _ => i = id
  | .stop i => i = id
  | _ => False

instance (op : Op) : Decidable op.Allowed :=
  match op with
  | .start _ slots => inferInstanceAs (Decidable (1 ≤ slots ∧ slots ≤ 65535))
  | .register _ => isTrue True.intro
  | .stop _ => isTrue True.intro
  | .tick => isTrue True.intro

instance (id : Nat) (op : Op) : Decidable (op.Touches id) :=
  match op with
  | .start i _ => inferInstanceAs (Decidable (i = id))
  | .stop i => inferInstanceAs (Decidable (i = id))
  | .register _ => isFalse not_false
  | .tick => isFalse not_false

def step (wrap : Int → Int) (s : State) : Op → State
  | .register memory => register memory s
  | .start id slots => start wrap id slots s
  | .stop id => stop wrap id s
  | .tick => tick wrap s

def run (wrap : Int → Int) (s : State) (ops : List Op) : State := ops.foldl (step wrap) s

end MbedCloud.CallbackTimers

