import Mathlib.Data.List.Nodup
import Mathlib.Tactic.Ring
import MbedCloud.Lib.Loop

/-!
# The callback queue of the update client

The scheduler keeps callbacks in a queue of storage elements that the callers own. The queue is a singly
linked list with a pointer to its tail: a push links a new element in front, and a pop walks to the far
end. An element is locked from its push to its pop.

`postCallback`, `popHead` and the steps of `System` are the code. A run is any sequence of calls in which
a callback that is being executed may post as well.
-/

namespace MbedCloud.Update.Scheduler

open Lib List

/-! ## Model -/

/-- A storage element, `struct lockfree_queue_element`. Callbacks are numbers. -/
structure Element where
  next : Option Nat
  lock : Nat
  callback : Nat
  parameter : Nat
  deriving DecidableEq

/-- The variables of the scheduler and the storage elements, which are named by their addresses. -/
structure State where
  element : Nat → Element
  tail : Option Nat
  counter : Int
  /-- A notification handler is set. -/
  handler : Bool

namespace State

def setElement (s : State) (e : Nat) (x : Element) : State := { s with element := Function.update s.element e x }

/-- The pointer that `px` stands for: the tail of the queue, or the link of an element. -/
def link (s : State) : Option Nat → Option Nat
  | none => s.tail
  | some e => (s.element e).next

def setLink (s : State) : Option Nat → Option Nat → State
  | none, v => { s with tail := v }
  | some e, v => s.setElement e { s.element e with next := v }

def unlock (s : State) (e : Nat) : State := s.setElement e { s.element e with lock := 0 }

end State

inductive PushResult where
  | success
  | duplicateElement
  deriving DecidableEq

/-- `aq_push_tail`. No other context runs in between, so both exchanges succeed at once. -/
def pushTail (s : State) (e : Nat) : PushResult × State :=
  if (s.element e).lock ≠ 0 then (.duplicateElement, s)
  else (.success, { s.setElement e { s.element e with lock := 1, next := s.tail } with tail := some e })

/-- One exchange of `aq_pop_head` at the link `px`. -/
def popStep (s : State) (px : Option Nat) : Exec Unit (Next (Option Nat) (Option Nat × State)) :=
  match s.link px with
  | none => .ok (if px = none then .done (none, s) else .more none)
  | some current =>
    match (s.element current).next with
    | none => .ok (.done (some current, (s.setLink px none).unlock current))
    | some next => .ok (if some next = s.tail then .done (none, s) else .more (some current))

/-- `aq_pop_head`. -/
def popHead (fuel : Nat) (s : State) : Exec Unit (Option Nat × State) := loop (popStep s) fuel none

/-- `ARM_UC_PostCallback`: whether it succeeded, and how often the notification handler was called. -/
def postCallback (s : State) (storage : Option Nat) (callback parameter : Nat) : Bool × Nat × State :=
  match storage with
  | none => (false, 0, s)
  | some e =>
    match pushTail s e with
    | (.duplicateElement, s) => (false, 0, s)
    | (.success, s) =>
      let s := s.setElement e { s.element e with callback := callback, parameter := parameter }
      let count := s.counter + 1
      (true, if s.handler ∧ count = 1 then 1 else 0, { s with counter := count })

/-! ## Runs -/

inductive Processor where
  | processQueue
  | processSingleCallback
  deriving DecidableEq

/-- The scheduler with the calls in progress and what has happened. -/
structure System where
  state : State
  /-- The function whose callback is being executed. -/
  running : Option Processor
  /-- The callbacks with their parameters that were posted with success. -/
  posted : List (Nat × Nat)
  executed : List (Nat × Nat)

def System.init (handler : Bool) : System := ⟨⟨fun _ => ⟨none, 0, 0, 0⟩, none, 0, handler⟩, none, [], []⟩

def System.execute (sys : System) (p : Processor) : Option Nat × State → System
  | (none, s) => { sys with state := s, running := none }
  | (some e, s) =>
    { sys with
      state := s, running := some p,
      executed := sys.executed ++ [((s.element e).callback, (s.element e).parameter)] }

/-- `ARM_UC_PostCallback` with its results. -/
def System.post (sys : System) (storage : Option Nat) (callback parameter : Nat) : System :=
  match postCallback sys.state storage callback parameter with
  | (posted, _, s) => { sys with state := s, posted := sys.posted ++ if posted then [(callback, parameter)] else [] }

/-- The function that takes the next element, and the state that it takes it from: a call does, and
`ARM_UC_ProcessQueue` after each callback. -/
inductive Takes (sys : System) : Processor → State → Prop
  | call (p : Processor) (hidle : sys.running = none) : Takes sys p sys.state
  | returnQueue (hrunning : sys.running = some .processQueue) :
      Takes sys .processQueue { sys.state with counter := sys.state.counter - 1 }

/-- A call, or the return of the callback that is being executed. -/
inductive Step (sys : System) : System → Prop
  | post (storage : Option Nat) (callback parameter : Nat) : Step sys (sys.post storage callback parameter)
  | addNotificationHandler (handler : Bool) :
      Step sys { sys with state := { sys.state with handler := handler } }
  | take {p : Processor} {s : State} {fuel : Nat} {r : Option Nat × State} (htakes : Takes sys p s)
      (hpop : popHead fuel s = .ok r) : Step sys (sys.execute p r)
  | returnSingle (hrunning : sys.running = some .processSingleCallback) : Step sys { sys with
        state := { sys.state with counter := sys.state.counter - 1 }, running := none }

def Reachable (sys : System) : Prop := ∃ handler, Relation.ReflTransGen Step (System.init handler) sys

/-! ## The list of queued elements -/

/-- The elements from a pointer on. -/
def Linked (next : Nat → Option Nat) : Option Nat → List Nat → Prop
  | p, [] => p = none
  | p, e :: es => p = some e ∧ Linked next (next e) es

variable {next : Nat → Option Nat} {p : Option Nat} {es : List Nat}

theorem Linked.congr {next' : Nat → Option Nat}
    (h : Linked next p es) (heq : ∀ e ∈ es, next' e = next e) : Linked next' p es := by
  induction es generalizing p with
  | nil => exact h
  | cons e es ih =>
    refine ⟨h.1, ?_⟩
    rw [heq e mem_cons_self]
    exact ih h.2 fun x hx => heq x (mem_cons_of_mem e hx)

theorem Linked.cut {last x : Nat} (h : Linked next p (es ++ [last])) (hnodup : es.Nodup) (hx : es.getLast? = some x) :
    Linked (Function.update next x none) p es := by
  induction es generalizing p with
  | nil => cases hx
  | cons e es ih =>
    refine ⟨h.1, ?_⟩
    cases es with
    | nil =>
      obtain rfl : e = x := Option.some.inj hx
      exact Function.update_self e none next
    | cons a es =>
      obtain ⟨hnot, hnodup⟩ := nodup_cons.mp hnodup
      have hne : e ≠ x := fun heq => hnot (heq ▸ mem_of_getLast? hx)
      rw [Function.update_of_ne hne]
      exact ih h.2 hnodup hx

/-- The elements `queued`, in posting order, are in the queue. -/
structure Queue (s : State) (queued : List Nat) : Prop where
  linked : Linked (fun e => (s.element e).next) s.tail queued.reverse
  nodup : queued.Nodup
  locked : ∀ e, (s.element e).lock ≠ 0 ↔ e ∈ queued

def State.content (s : State) (e : Nat) : Nat × Nat := ((s.element e).callback, (s.element e).parameter)

section Queue

variable {s : State} {queued : List Nat} {e : Nat}

theorem Queue.push (h : Queue s queued) (hfree : e ∉ queued) (callback parameter : Nat) :
    Queue { s.setElement e ⟨s.tail, 1, callback, parameter⟩ with tail := some e } (queued ++ [e]) where
  linked := by
    rw [reverse_concat]
    refine ⟨rfl, ?_⟩
    simp only [State.setElement, Function.update_self]
    apply h.linked.congr
    intro x hx
    have hne : x ≠ e := fun heq => hfree (heq ▸ mem_reverse.mp hx)
    rw [Function.update_of_ne hne]
  nodup := by
    rw [nodup_append]
    refine ⟨h.nodup, nodup_singleton e, ?_⟩
    rintro a ha b hb rfl
    exact hfree (mem_singleton.mp hb ▸ ha)
  locked := by
    intro x
    by_cases hx : x = e
    · subst hx
      simp [State.setElement]
    · simp [State.setElement, h.locked x, hx]

/-- The walk of a pop, from the link behind the elements `pre` on. -/
theorem Queue.walk {pre post : List Nat} {last : Nat} (h : Queue s queued) (hlist : queued.reverse = pre ++ (post ++ [last]))
    (hlinked : Linked (fun e => (s.element e).next) (s.link pre.getLast?) (post ++ [last])) :
    loop (popStep s) (post.length + 1) pre.getLast? = .ok (some last, (s.setLink (pre ++ post).getLast? none).unlock last) := by
  induction post generalizing pre with
  | nil =>
    obtain ⟨hlink, hnext⟩ := hlinked
    have hnext : (s.element last).next = none := hnext
    rw [length_nil, append_nil, loop, popStep, hlink]
    dsimp only
    rw [hnext]
  | cons a post ih =>
    obtain ⟨hlink, hnext⟩ := hlinked
    have hnext : Linked (fun e => (s.element e).next) (s.element a).next (post ++ [last]) := hnext
    -- the queue goes on behind `a`, with an element that is not the tail
    obtain ⟨b, rest, hrest⟩ : ∃ b rest, post ++ [last] = b :: rest := by
      cases post with
      | nil => exact ⟨last, [], rfl⟩
      | cons b post => exact ⟨b, post ++ [last], rfl⟩
    have hb : (s.element a).next = some b := by
      rw [hrest] at hnext
      exact hnext.1
    have htail : some b ≠ s.tail := by
      have hnodup := nodup_reverse.mpr h.nodup
      have hhead := h.linked
      rw [hlist, cons_append, hrest] at hnodup hhead
      cases pre with
      | nil =>
        rw [hhead.1]
        intro heq
        obtain rfl := Option.some.inj heq
        simp at hnodup
      | cons c pre =>
        rw [hhead.1]
        intro heq
        obtain rfl := Option.some.inj heq
        simp at hnodup
    have hpre : (pre ++ [a]).getLast? = some a := getLast?_concat
    have hstep : popStep s pre.getLast? = .ok (.more (pre ++ [a]).getLast?) := by
      rw [popStep, hlink, hpre]
      dsimp only
      rw [hb]
      dsimp only
      rw [if_neg htail]
    rw [length_cons, loop, hstep]
    have hconcat : pre ++ a :: post = pre ++ [a] ++ post := by rw [append_assoc, singleton_append]
    rw [hconcat]
    apply ih
    · rw [hlist, cons_append, append_assoc, singleton_append]
    · rw [hpre]
      exact hnext

/-- What a pop does to the element at the end of its walk. -/
theorem popped_spec (s : State) (px : Option Nat) (e x : Nat) :
    (((s.setLink px none).unlock e).element x).lock = (if x = e then 0 else (s.element x).lock) ∧
      ((s.setLink px none).unlock e).content x = s.content x ∧
      (x ≠ e → (((s.setLink px none).unlock e).element x).next =
        if some x = px then none else (s.element x).next) := by
  cases px <;> simp [State.content, State.unlock, State.setElement, State.setLink, Function.update_apply] <;>
    split_ifs <;> simp_all

/-- A pop takes the oldest element, and keeps what was posted in the others. -/
theorem Queue.pop (h : Queue s (e :: queued)) :
    ∃ s', popHead (queued.length + 1) s = .ok (some e, s') ∧ Queue s' queued ∧
      s'.content = s.content ∧ s'.counter = s.counter := by
  have hlist : (e :: queued).reverse = [] ++ (queued.reverse ++ [e]) := reverse_cons
  have hlinked : Linked (fun e => (s.element e).next) s.tail (queued.reverse ++ [e]) := by
    have := h.linked
    rwa [reverse_cons] at this
  obtain ⟨hfree, hnodup⟩ := nodup_cons.mp h.nodup
  have hwalk := h.walk hlist hlinked
  rw [length_reverse, nil_append] at hwalk
  have hpopped := popped_spec s queued.reverse.getLast? e
  refine ⟨_, hwalk, ⟨?_, hnodup, fun x => ?_⟩, funext fun x => (hpopped x).2.1, ?_⟩
  · cases hlast : queued.reverse.getLast? with
    | none =>
      obtain rfl : queued = [] := reverse_eq_nil_iff.mp (getLast?_eq_none_iff.mp hlast)
      rfl
    | some y =>
      refine (hlinked.cut (nodup_reverse.mpr hnodup) hlast).congr fun x hx => ?_
      have hxe : x ≠ e := fun heq => hfree (heq ▸ mem_reverse.mp hx)
      rw [← hlast, (hpopped x).2.2 hxe, hlast, Function.update_apply]
      simp only [Option.some.injEq]
  · rw [(hpopped x).1]
    have hx := h.locked x
    split_ifs with hxe
    · simp [hxe, hfree]
    · simpa [hxe] using hx
  · cases queued.reverse.getLast? <;> rfl

theorem Queue.pop_nil (h : Queue s []) : popHead 1 s = .ok (none, s) := by
  have htail : s.tail = none := h.linked
  rw [popHead, loop, popStep, State.link, htail]
  rfl

theorem Queue.pop_ends (h : Queue s queued) : ∃ fuel r, popHead fuel s = .ok r := by
  cases queued with
  | nil => exact ⟨1, _, h.pop_nil⟩
  | cons e rest =>
    obtain ⟨s', hpop, -⟩ := h.pop
    exact ⟨_, _, hpop⟩

/-- However long the walk may be, its result is that of the oldest element. -/
theorem Queue.popHead_eq {fuel : Nat} {r : Option Nat × State} (h : Queue s queued) (hpop : popHead fuel s = .ok r) :
    (queued = [] ∧ r = (none, s)) ∨
      ∃ e rest s', queued = e :: rest ∧ r = (some e, s') ∧ Queue s' rest ∧ s'.content = s.content ∧ s'.counter = s.counter := by
  have hunique : ∀ {k r'}, popHead k s = .ok r' → r = r' := by
    intro k r' h'
    exact Except.ok.inj (Outcome.unique (mono_loop_const (popStep s) none) ⟨(by simp), fuel, hpop⟩ ⟨(by simp), k, h'⟩)
  cases queued with
  | nil => exact .inl ⟨rfl, hunique h.pop_nil⟩
  | cons e rest =>
    obtain ⟨s', hs', hqueue, hcontent, hcounter⟩ := h.pop
    exact .inr ⟨e, rest, s', rfl, hunique hs', hqueue, hcontent, hcounter⟩

theorem Queue.postCallback_queued (h : Queue s queued) (he : e ∈ queued)
    (callback parameter : Nat) : postCallback s (some e) callback parameter = (false, 0, s) := by
  rw [postCallback, pushTail, if_pos ((h.locked e).mpr he)]

theorem Queue.postCallback_free (h : Queue s queued) (he : e ∉ queued) (callback parameter : Nat) :
    ∃ s', postCallback s (some e) callback parameter = (true, if s.handler ∧ s.counter + 1 = 1 then 1 else 0, s') ∧
      Queue s' (queued ++ [e]) ∧ s'.counter = s.counter + 1 ∧
      s'.content = Function.update s.content e (callback, parameter) := by
  have hfree : ¬ (s.element e).lock ≠ 0 := fun hlock => he ((h.locked e).mp hlock)
  rw [postCallback, pushTail, if_neg hfree]
  refine ⟨_, rfl, ?_, rfl, ?_⟩
  · have hpush := h.push he callback parameter
    refine ⟨?_, hpush.nodup, ?_⟩
    · simpa [State.setElement] using hpush.linked
    · simpa [State.setElement] using hpush.locked
  funext x
  by_cases hx : x = e
  · subst hx
    simp [State.content, State.setElement]
  · simp [State.content, State.setElement, hx]

end Queue

/-! ## Runs in order -/

/-- The queue with what has happened: what was posted is what was executed, and then what is queued. -/
structure Holds (sys : System) (queued : List Nat) : Prop where
  queue : Queue sys.state queued
  order : sys.posted = sys.executed ++ queued.map sys.state.content
  counter : sys.state.counter = queued.length + if sys.running.isSome then 1 else 0

section Holds

variable {sys sys' : System} {queued : List Nat}

theorem holds_init (handler : Bool) : Holds (System.init handler) [] where
  queue := ⟨rfl, nodup_nil, fun e => by simp [System.init]⟩
  order := rfl
  counter := rfl

theorem Holds.post (h : Holds sys queued) (storage : Option Nat) (callback parameter : Nat) :
    ∃ queued', Holds (sys.post storage callback parameter) queued' := by
  rw [System.post]
  cases storage with
  | none =>
    refine ⟨queued, h.queue, ?_, h.counter⟩
    simpa [postCallback] using h.order
  | some e =>
    by_cases he : e ∈ queued
    · rw [h.queue.postCallback_queued he]
      refine ⟨queued, h.queue, ?_, h.counter⟩
      simpa using h.order
    obtain ⟨s', heq, hqueue, hcounter, hcontent⟩ := h.queue.postCallback_free he callback parameter
    rw [heq]
    refine ⟨queued ++ [e], hqueue, ?_, ?_⟩
    · have hsame : queued.map s'.content = queued.map sys.state.content := by
        apply map_congr_left
        intro x hx
        have hne : x ≠ e := fun heq => he (heq ▸ hx)
        rw [hcontent, Function.update_of_ne hne]
      dsimp only
      rw [map_append, hsame, h.order, map_singleton, hcontent, Function.update_self, if_pos rfl, append_assoc]
    · dsimp only
      rw [hcounter, h.counter, length_append, length_singleton]
      push_cast
      ring

/-- The state that an element is taken from holds the same elements, and the callback before has been counted off. -/
theorem Holds.takes {p : Processor} {s : State} (h : Holds sys queued) (htakes : Takes sys p s) :
    Queue s queued ∧ s.content = sys.state.content ∧ s.counter = queued.length := by
  have hcounter := h.counter
  cases htakes with
  | call p hidle =>
    rw [hidle] at hcounter
    exact ⟨h.queue, rfl, by simpa using hcounter⟩
  | returnQueue hrunning =>
    rw [hrunning] at hcounter
    refine ⟨⟨h.queue.linked, h.queue.nodup, h.queue.locked⟩, rfl, ?_⟩
    rw [hcounter]
    simp

/-- The oldest callback is executed, or there is none and the call returns. -/
theorem Holds.execute {p : Processor} {s : State} {fuel : Nat} {r : Option Nat × State} (h : Holds sys queued)
    (htakes : Takes sys p s) (hpop : popHead fuel s = .ok r) :
    Holds (sys.execute p r) queued.tail ∧ (sys.execute p r).executed = sys.executed ++ (queued.take 1).map sys.state.content ∧
      ((sys.execute p r).running = none ↔ queued = []) := by
  obtain ⟨hqueue, hstate, hcounter⟩ := h.takes htakes
  have horder := h.order
  rw [← hstate] at horder ⊢
  rcases hqueue.popHead_eq hpop with ⟨rfl, rfl⟩ | ⟨e, rest, s', rfl, rfl, hrest, hcontent, hsame⟩
  · exact ⟨⟨hqueue, horder, hcounter⟩, (append_nil _).symm, iff_of_true rfl rfl⟩
  have he : ((s'.element e).callback, (s'.element e).parameter) = s.content e := congrFun hcontent e
  refine ⟨⟨hrest, ?_, ?_⟩, ?_, iff_of_false nofun (cons_ne_nil e rest)⟩
  · rw [System.execute, horder, append_assoc, hcontent, he]
    rfl
  · rw [System.execute, hsame, hcounter, length_cons]
    simp
  · rw [System.execute, he]
    rfl

theorem Holds.step (h : Holds sys queued) (hstep : Step sys sys') : ∃ queued', Holds sys' queued' := by
  cases hstep with
  | post storage callback parameter => exact h.post storage callback parameter
  | addNotificationHandler handler => exact ⟨queued, ⟨h.queue.linked, h.queue.nodup, h.queue.locked⟩, h.order, h.counter⟩
  | take htakes hpop => exact ⟨_, (h.execute htakes hpop).1⟩
  | returnSingle hrunning =>
    refine ⟨queued, ⟨h.queue.linked, h.queue.nodup, h.queue.locked⟩, h.order, ?_⟩
    rw [h.counter, hrunning]
    simp

theorem Reachable.holds (h : Reachable sys) : ∃ queued, Holds sys queued := by
  obtain ⟨handler, hrun⟩ := h
  induction hrun with
  | refl => exact ⟨[], holds_init handler⟩
  | tail _ hstep ih =>
    obtain ⟨queued, hholds⟩ := ih
    exact hholds.step hstep

end Holds

/-- Which callbacks have been executed, and what the next call does, after any run. A pop always ends, with
the oldest element if there is one. A function that takes an element executes the oldest callback, and
`ARM_UC_ProcessQueue` returns only when all that was posted has been executed.
Posting an element that is queued fails and changes nothing; posting another one succeeds, and calls the
notification handler once if nothing is queued or being executed and not at all otherwise. -/
theorem callbacks_in_order (sys : System) (h : Reachable sys) :
    ∃ queued : List Nat, Queue sys.state queued ∧
      sys.posted = sys.executed ++ queued.map sys.state.content ∧
      sys.state.counter = queued.length + (if sys.running.isSome then 1 else 0) ∧
      (∃ fuel r, popHead fuel sys.state = .ok r) ∧
      (∀ fuel r, popHead fuel sys.state = .ok r → r.1 = queued.head?) ∧
      (∀ p s, Takes sys p s → (∃ fuel r, popHead fuel s = .ok r) ∧ ∀ fuel r, popHead fuel s = .ok r →
        (sys.execute p r).executed = sys.executed ++ (queued.take 1).map sys.state.content ∧
        ((sys.execute p r).running = none ↔ queued = []) ∧
        ((sys.execute p r).running = none → (sys.execute p r).executed = sys.posted)) ∧
      (∀ e ∈ queued, ∀ callback parameter, postCallback sys.state (some e) callback parameter = (false, 0, sys.state)) ∧
      (∀ e ∉ queued, ∀ callback parameter, ∃ s',
        postCallback sys.state (some e) callback parameter =
          (true, if sys.state.handler ∧ queued = [] ∧ sys.running = none then 1 else 0, s')) := by
  obtain ⟨queued, hholds⟩ := h.holds
  refine ⟨queued, hholds.queue, hholds.order, hholds.counter, hholds.queue.pop_ends, ?_, ?_, ?_, ?_⟩
  · intro fuel r hpop
    rcases hholds.queue.popHead_eq hpop with ⟨rfl, rfl⟩ | ⟨e, rest, s', rfl, rfl, -⟩ <;> rfl
  · intro p s htakes
    refine ⟨(hholds.takes htakes).1.pop_ends, fun fuel r hpop => ?_⟩
    obtain ⟨-, hexecuted, hreturns⟩ := hholds.execute htakes hpop
    refine ⟨hexecuted, hreturns, fun hnone => ?_⟩
    rw [hexecuted, hholds.order, hreturns.mp hnone]
    rfl
  · intro e he callback parameter
    exact hholds.queue.postCallback_queued he callback parameter
  intro e he callback parameter
  obtain ⟨s', heq, -⟩ := hholds.queue.postCallback_free he callback parameter
  refine ⟨s', ?_⟩
  rw [heq, hholds.counter]
  congr 2
  -- the counter is 0 exactly if nothing is queued and nothing is being executed
  have hidle : (queued.length + (if sys.running.isSome then 1 else 0) + 1 = (1 : Int)) ↔ (queued = [] ∧ sys.running = none) := by
    cases sys.running with
    | none => simp
    | some p =>
      simp
      omega
  simp only [hidle]

/-- A processor takes an element by a walk of at most three steps. -/
def System.take (sys : System) (p : Processor) (s : State) : System :=
  match popHead 3 s with
  | .ok r => sys.execute p r
  | .error _ => sys

theorem System.run_take {sys : System} {p : Processor} {s : State} (htakes : Takes sys p s) :
    Relation.ReflTransGen Step sys (sys.take p s) := by
  unfold System.take
  split
  · rename_i r hpop
    exact .single (.take htakes hpop)
  · exact .refl

/-- Two callbacks are posted, a third post of an element that is queued fails, and the first callback is being
executed. -/
def firstExecuted : System :=
  let sys := (((System.init true).post (some 1) 7 9).post (some 2) 8 9).post (some 1) 6 9
  sys.take .processQueue sys.state

/-- After the first callback the second one is executed, and then the call returns. -/
theorem callbacks_in_order_two :
    firstExecuted.executed = [(7, 9)] ∧ ∃ r, popHead 3 { firstExecuted.state with counter := 1 } = .ok r ∧
      (firstExecuted.execute .processQueue r).executed = [(7, 9), (8, 9)] ∧
      (firstExecuted.execute .processQueue r).executed = firstExecuted.posted := by
  have hreach : Reachable firstExecuted :=
    ⟨true, .trans (.tail (.tail (.single (.post (some 1) 7 9)) (.post (some 2) 8 9)) (.post (some 1) 6 9))
      (System.run_take (.call .processQueue rfl))⟩
  obtain ⟨queued, -, horder, hcounter, -, -, htakes, -⟩ := callbacks_in_order _ hreach
  obtain ⟨hexecuted, -⟩ := (htakes .processQueue _ (.returnQueue rfl)).2 3 _ rfl
  have hone : queued.length = 1 := by
    have hcount : firstExecuted.state.counter = 2 := rfl
    have hrunning : firstExecuted.running.isSome = true := rfl
    rw [hcount, hrunning] at hcounter
    simp at hcounter
    omega
  rw [take_of_length_le (Nat.le_of_eq hone), ← horder] at hexecuted
  exact ⟨rfl, _, rfl, hexecuted, hexecuted⟩

end MbedCloud.Update.Scheduler
