import MbedCloud.EventLoop.Callbacks

/-!
# The time of a callback

A step leaves `pending` as it is for the timers that it does not start or stop, and a slot that passes takes one from it;
the callback comes with the last one. The numbers stay below 16 bits, so that they do not wrap.
-/

namespace MbedCloud.CallbackTimers

open List

/-! ## Steps -/

/-- A timer that waits has slots to wait for, and no function is being called. -/
def Fit (t : Timer) : Prop := t.state ≠ .runInterrupt ∧ (t.state = .hold → 0 < t.remaining)

/-- The timers have changed one by one, and what is pending for them has gone through `g`. -/
structure Moved (g : Nat → Option (Int × Int) → Option (Int × Int)) (f : Timer → Timer) (s s' : State) : Prop where
  timers : s'.timers = s.timers.map f
  same_id : ∀ t, (f t).id = t.id
  seen : ∀ t ∈ s.timers, seen s'.hardware (f t) = g t.id (seen s.hardware t)
  fit : ∀ t ∈ s.timers, Fit (f t)
  nonneg : 0 ≤ s'.hardware
  le : s'.hardware ≤ 65535
  running : s'.running = true ↔ 0 < s'.hardware
  started : ∀ t ∈ s.timers, CallbackTimers.seen s'.hardware (f t) ≠ none → s'.running = true

section Moved

variable {g : Nat → Option (Int × Int) → Option (Int × Int)} {f : Timer → Timer} {s s' : State}

theorem Moved.inv (h : Moved g f s s') (hinv : Inv s)
    (hg : ∀ id p, (∀ q ∈ p, q.1 ≤ 65535) → ∀ q ∈ g id p, q.1 ≤ 65535) : Inv s' := by
  refine ⟨?_, ?_, h.nonneg, h.le, h.running, ?_⟩
  · rw [h.timers, map_ids h.same_id]
    exact hinv.nodup
  · intro t' ht'
    rw [h.timers] at ht'
    obtain ⟨t, ht, rfl⟩ := mem_map.mp ht'
    have hok := hinv.timers t ht
    refine ⟨(h.same_id t).symm ▸ hok.id, (h.fit t ht).1, (h.fit t ht).2, fun l hl => ?_⟩
    refine hg t.id (CallbackTimers.seen s.hardware t) ?_ (l, (f t).slots) ?_
    · intro q hq
      obtain ⟨l', hl', rfl⟩ := Option.map_eq_some_iff.mp hq
      exact hok.left l' hl'
    · rw [← h.seen t ht]
      exact Option.map_eq_some_iff.mpr ⟨l, hl, rfl⟩
  · intro t' ht' hne
    rw [h.timers] at ht'
    obtain ⟨t, ht, rfl⟩ := mem_map.mp ht'
    exact h.started t ht (mt Option.map_eq_none_iff.mp hne)

theorem Moved.pending (h : Moved g f s s') (id : Nat) :
    pending s' id = (find s.timers id).bind fun t => g id (CallbackTimers.seen s.hardware t) := by
  unfold CallbackTimers.pending
  rw [h.timers, find_map h.same_id]
  rcases hfind : find s.timers id with _ | t
  · rfl
  obtain ⟨hmem, rfl⟩ := mem_of_find hfind
  exact h.seen t hmem

/-- The next timer is started, when the timers have gone through `p`. -/
theorem moved_next (s0 : State) {p : Timer → Timer} (hinv : Inv s) (hs0 : s0.timers = s.timers.map p)
    (hid : ∀ t, (p t).id = t.id) (hactive : ∀ t ∈ s.timers, (p t).state ≠ .active)
    (hhold : ∀ t ∈ s.timers, (p t).state = .hold → 0 < (p t).remaining ∧ (p t).remaining ≤ 65535)
    (hseen : ∀ t ∈ s.timers, seen 0 (p t) = g t.id (seen s.hardware t))
    (hrunning : s0.running = true ↔ 0 < s0.hardware) (hrange : 0 ≤ s0.hardware ∧ s0.hardware ≤ 65535) :
    ∃ hardware running, Leads (fun wrap => getNextRunningTo wrap s0)
      { s0 with hardware := hardware, running := running, timers := s0.timers.map (rebase unbounded hardware) } ∧
      Moved g (fun t => called (rebase unbounded hardware (p t))) s { s0 with
        hardware := hardware, running := running, timers := s.timers.map fun t => called (rebase unbounded hardware (p t)) } := by
  have hnodup : (s0.timers.map (·.id)).Nodup := by
    rw [hs0, map_ids hid]
    exact hinv.nodup
  have hlength : s0.timers.length ≤ 128 := by
    rw [hs0, length_map]
    exact hinv.length_le
  have hmem : ∀ t ∈ s.timers, p t ∈ s0.timers := fun t ht => hs0 ▸ mem_map_of_mem ht
  obtain ⟨hardware, running, hleads, hle, hcase⟩ := leads_getNextRunningTo hnodup hlength (by
    rw [hs0]
    exact forall_mem_map.mpr hhold)
  have hpending : ∀ t ∈ s.timers, seen hardware (called (rebase unbounded hardware (p t))) = seen 0 (p t) :=
    fun t ht => (seen_called _ _).trans (seen_rebase _ _ (hactive t ht))
  refine ⟨hardware, running, hleads, rfl, fun t => ?_, fun t ht => (hpending t ht).trans (hseen t ht), ?_, ?_, ?_, ?_, ?_⟩
  · rw [called_id, rebase_id, hid]
  · exact fun t ht => ⟨called_state _, called_rebase_hold _ _ (hle _ (hmem t ht))⟩
  · rcases hcase with ⟨-, rfl, -⟩ | ⟨hpos, -⟩
    · exact hrange.1
    · exact Int.le_of_lt hpos
  · rcases hcase with ⟨-, rfl, -⟩ | ⟨-, hhigh, -⟩
    · exact hrange.2
    · exact hhigh
  · rcases hcase with ⟨-, rfl, rfl⟩ | ⟨hpos, -, rfl⟩
    · exact hrunning
    · exact ⟨fun _ => hpos, fun _ => rfl⟩
  · intro t ht hne
    rcases hcase with ⟨hnone, -⟩ | ⟨-, -, hrun⟩
    · rw [hpending t ht] at hne
      cases hst : (p t).state <;> simp_all [seen, left]
    · exact hrun

end Moved

/-! ## Starting and stopping -/

/-- One timer has been started with some slots or stopped. -/
def sets (id : Nat) (l : Option Int) (i : Nat) (p : Option (Int × Int)) : Option (Int × Int) :=
  if i = id then l.map fun n => (n, n) else p

structure Restarted (id : Nat) (l : Option Int) (s s' : State) : Prop where
  moved : ∃ f, Moved (sets id l) f s s'
  now : s'.now = s.now
  calls : s'.calls = s.calls

section Restarted

variable {s s' : State} {id : Nat} {l : Option Int}

theorem Restarted.inv (h : Restarted id l s s') (hinv : Inv s) (hl : ∀ n ∈ l, n ≤ 65535) : Inv s' := by
  obtain ⟨f, hf⟩ := h.moved
  refine hf.inv hinv fun i p hp q hq => ?_
  unfold sets at hq
  split at hq
  · obtain ⟨n, hn, rfl⟩ := Option.map_eq_some_iff.mp hq
    exact hl n hn
  · exact hp q hq

theorem Restarted.pending_ne (h : Restarted id l s s') {i : Nat} (hi : i ≠ id) : pending s' i = pending s i := by
  obtain ⟨f, hf⟩ := h.moved
  rw [hf.pending]
  exact congrArg _ (funext fun t => if_neg hi)

theorem Restarted.pending_self (h : Restarted id l s s') {t : Timer} (ht : find s.timers id = some t) :
    pending s' id = l.map fun n => (n, n) := by
  obtain ⟨f, hf⟩ := h.moved
  rw [hf.pending, ht]
  exact if_pos rfl

variable (s') in
/-- The other timers go through `k`, and the hardware timer goes on or is started. -/
theorem restarted_of {g k : Timer → Timer} (hs' : s'.timers = s.timers.map fun t => if t.id = id then g t else k t)
    (hids : ∀ t, (g t).id = t.id ∧ (k t).id = t.id)
    (hself : ∀ t, seen s'.hardware (g t) = (l.map fun n => (n, n)) ∧ Fit (g t))
    (hothers : ∀ t ∈ s.timers, seen s'.hardware (k t) = seen s.hardware t ∧ Fit (k t)) (hpos : 0 < s'.hardware)
    (hle : s'.hardware ≤ 65535) (hrunning : s'.running = true) (hnow : s'.now = s.now) (hcalls : s'.calls = s.calls) :
    Restarted id l s s' := by
  refine ⟨⟨_, hs', ?_, ?_, ?_, Int.le_of_lt hpos, hle, ⟨fun _ => hpos, fun _ => hrunning⟩, fun _ _ _ => hrunning⟩, hnow, hcalls⟩
  · intro t
    split
    · exact (hids t).1
    · exact (hids t).2
  · intro t ht
    unfold sets
    split
    · exact (hself t).1
    · exact (hothers t ht).1
  · intro t ht
    split
    · exact (hself t).2
    · exact (hothers t ht).2

/-- Only the one timer changes. -/
theorem restarted_change (hinv : Inv s) (hrunning : s.running = true) {g : Timer → Timer} (hids : ∀ t, (g t).id = t.id)
    (hself : ∀ t, seen s.hardware (g t) = (l.map fun n => (n, n)) ∧ Fit (g t)) :
    Restarted id l s { s with timers := change s.timers id g } :=
  restarted_of _ rfl (fun t => ⟨hids t, rfl⟩) hself
    (fun t ht => ⟨rfl, (hinv.timers t ht).state, (hinv.timers t ht).hold⟩) (hinv.running.mp hrunning) hinv.le hrunning rfl rfl

/-- The next timer is started, when no timer is active. -/
theorem restarted_next (p : Timer → Timer) (hinv : Inv s) (hid : ∀ t, (p t).id = t.id)
    (hstate : ∀ t ∈ s.timers, (p t).state ≠ .active ∧ (p t).state ≠ .runInterrupt)
    (hhold : ∀ t ∈ s.timers, (p t).state = .hold → 0 < (p t).remaining ∧ (p t).remaining ≤ 65535)
    (hseen : ∀ t ∈ s.timers, seen 0 (p t) = sets id l t.id (seen s.hardware t)) :
    ∃ s', Leads (fun wrap => getNextRunningTo wrap { s with timers := s.timers.map p }) s' ∧ Restarted id l s s' := by
  obtain ⟨hardware, running, hleads, hmoved⟩ := moved_next { s with timers := s.timers.map p } hinv rfl hid
    (fun t ht => (hstate t ht).1) hhold hseen hinv.running ⟨hinv.nonneg, hinv.le⟩
  refine ⟨_, fun wrap hwrap => (hleads wrap hwrap).trans ?_, ⟨⟨_, hmoved⟩, rfl, rfl⟩⟩
  rw [map_map]
  congr 1
  refine map_congr_left fun t ht => (if_neg ?_).symm
  exact mt (rebase_runInterrupt _ _ _).mp (hstate t ht).2

end Restarted

section Start

variable {s : State} {id : Nat} {slots : Int} {t : Timer}

theorem fit_postpone (h : Ok s.hardware t) (hlt : slots < s.hardware) : Fit (postpone unbounded (s.hardware - slots) t) := by
  have hstate := h.state
  have hpos := h.hold
  cases hst : t.state <;> simp_all [Fit, postpone, unbounded]
  omega

/-- `eventOS_callback_timer_start`: the timer has its slots, and the others keep theirs. -/
theorem leads_start (hinv : Inv s) (hfind : find s.timers id = some t) (hlow : 1 ≤ slots) (hhigh : slots ≤ 65535) :
    ∃ s', Leads (fun wrap => start wrap id slots s) s' ∧ Restarted id (some slots) s s' := by
  have hle := hinv.le
  have hnonneg := hinv.nonneg
  unfold start
  simp only [hfind]
  by_cases hrunning : s.running = true
  · simp only [if_pos hrunning]
    by_cases hgt : s.hardware > slots
    · -- the other timers wait for the new one
      simp only [if_pos hgt]
      refine ⟨_, fun wrap hwrap => ?_, restarted_of { s with
        hardware := slots, running := true,
        timers := s.timers.map fun t => if t.id = id then ⟨t.id, .active, slots, slots⟩
          else postpone unbounded (s.hardware - slots) t } rfl
        (fun t => ⟨rfl, postpone_id _ _ _⟩) (fun t => ⟨rfl, nofun, nofun⟩)
        (fun t ht => ⟨seen_postpone _ _ t, fit_postpone (hinv.timers t ht) hgt⟩) (by dsimp only; omega) hhigh rfl rfl rfl⟩
      unfold startPlTimer change
      dsimp only
      rw [if_neg (by omega), map_map]
      congr 1
      refine map_congr_left fun t ht => ?_
      dsimp only [Function.comp_apply]
      rw [postpone_id, postpone_exact hwrap (hinv.timers t ht) (by omega) hgt hle]
    · simp only [if_neg hgt]
      by_cases hlt : s.hardware < slots
      · -- the new timer waits
        simp only [if_pos hlt]
        refine ⟨_, fun wrap hwrap => ?_, restarted_change hinv hrunning
          (g := fun t => ⟨t.id, .hold, slots, slots - s.hardware⟩) (fun t => rfl) fun t => ⟨?_, nofun, fun _ => ?_⟩⟩
        · dsimp only
          rw [hwrap _ (by omega) (by omega)]
        · simp [seen, left]
        · dsimp only
          omega
      · simp only [if_neg hlt]
        have heq : s.hardware = slots := by omega
        refine ⟨_, fun wrap hwrap => rfl, restarted_change hinv hrunning (fun t => rfl) fun t => ⟨?_, nofun, nofun⟩⟩
        simp [seen, left, heq]
  · -- no other timer is started
    simp only [if_neg hrunning]
    refine restarted_next _ hinv (fun t => ?_) (fun t ht => ?_) (fun t ht hhold => ?_) fun t ht => ?_
    · split <;> rfl
    · have hstop := hinv.stopped hrunning ht
      split <;> simp [hstop]
    · have hstop := hinv.stopped hrunning ht
      split_ifs at hhold with hid
      · rw [if_pos hid]
        dsimp only
        omega
      · rw [hstop] at hhold
        cases hhold
    · have hstop := hinv.stopped hrunning ht
      unfold sets
      split <;> simp [seen, left, hstop]

end Start

section Stop

variable {s : State} {id : Nat} {t : Timer}

/-- A timer as `eventOS_callback_timer_stop` leaves it. -/
def stopTimer (t : Timer) : Timer := { t with state := .stop, remaining := 0 }

/-- The timers without the stopped one, their remaining slots counted from now. -/
def resumed (wrap : Int → Int) (id : Nat) (s : State) : List Timer := (change s.timers id stopTimer).map (resume wrap s.hardware)

theorem resumed_eq (wrap : Int → Int) (id : Nat) (s : State) : resumed wrap id s =
    s.timers.map fun t => resume wrap s.hardware (if t.id = id then stopTimer t else t) := map_map

theorem stopTimer_id (t : Timer) : (if t.id = id then stopTimer t else t).id = t.id := by
  split <;> rfl

theorem ok_stopTimer {hardware : Int} (h : Ok hardware t) : Ok hardware (if t.id = id then stopTimer t else t) := by
  split
  · exact ⟨h.id, nofun, nofun, nofun⟩
  · exact h

/-- `eventOS_callback_timer_stop` of the last active timer starts the next one. -/
theorem stop_eq {wrap : Int → Int} (hinv : Inv s) (hfind : find s.timers id = some t) (hstate : t.state ≠ .stop)
    (hactive : ¬ (change s.timers id stopTimer).any fun t => t.state = .active) :
    stop wrap id s = getNextRunningTo wrap { s with timers := resumed wrap id s } := by
  have hids : (resumed wrap id s).map (·.id) = s.timers.map (·.id) := by
    rw [resumed_eq]
    exact map_ids fun t => (resume_id _ _ _).trans (stopTimer_id t)
  have hfirst := isLeast_leastHold (resumed wrap id s)
  unfold stop
  rw [hfind]
  dsimp only
  rw [if_neg hstate]
  refine (if_neg hactive).trans ?_
  rcases hleast : leastHold (resumed wrap id s) with _ | first
  · rw [getNextRunningTo_none hleast]
    unfold resumed stopTimer at hleast ⊢
    rw [hleast]
  · rw [hleast] at hfirst
    rw [getNextRunningTo_some (s := { s with timers := resumed wrap id s }) hleast (hids ▸ hinv.nodup)
      (by simpa [resumed_eq] using hinv.length_le), ← map_rebase_change (hids ▸ hinv.nodup) hfirst.1 hfirst.2.1]
    unfold resumed stopTimer at hleast ⊢
    rw [hleast]
    rfl

/-- `eventOS_callback_timer_stop` of a started timer: the others keep their slots. -/
theorem leads_stop (hinv : Inv s) (hfind : find s.timers id = some t) (hstate : t.state ≠ .stop) :
    ∃ s', Leads (fun wrap => stop wrap id s) s' ∧ Restarted id none s s' := by
  have hnonneg := hinv.nonneg
  by_cases hactive : (change s.timers id stopTimer).any fun t => t.state = .active
  · have hrunning : s.running = true := by
      by_contra hrunning
      exact hstate (hinv.stopped hrunning (mem_of_find hfind).1)
    refine ⟨_, fun wrap _ => ?_, restarted_change hinv hrunning (g := stopTimer) (fun t => rfl) fun t => ⟨rfl, nofun, nofun⟩⟩
    unfold stop
    rw [hfind]
    dsimp only
    rw [if_neg hstate]
    exact if_pos hactive
  have hother : ∀ u ∈ s.timers, (if u.id = id then stopTimer u else u).state ≠ .active := by
    intro u hu hu'
    exact hactive (any_eq_true.mpr ⟨_, mem_map_of_mem hu, decide_eq_true hu'⟩)
  have hresume : ∀ u : Timer, (resume unbounded s.hardware u).state = u.state := by
    intro u
    unfold resume
    split <;> rfl
  have hhold : ∀ u ∈ s.timers, (resume unbounded s.hardware (if u.id = id then stopTimer u else u)).state = .hold →
      0 < (resume unbounded s.hardware (if u.id = id then stopTimer u else u)).remaining ∧
        (resume unbounded s.hardware (if u.id = id then stopTimer u else u)).remaining ≤ 65535 := by
    intro u hu hhold
    rw [hresume] at hhold
    have hrange := (ok_stopTimer (hinv.timers u hu)).range hhold
    unfold resume unbounded
    rw [if_pos hhold]
    dsimp only
    omega
  have hseen : ∀ u ∈ s.timers, seen 0 (resume unbounded s.hardware (if u.id = id then stopTimer u else u)) =
      sets id none u.id (seen s.hardware u) := by
    intro u hu
    rw [seen_resume _ _ (hother u hu)]
    unfold sets
    split <;> rfl
  obtain ⟨s', hleads, hs'⟩ := restarted_next _ hinv (fun u => (resume_id _ _ _).trans (stopTimer_id u))
    (fun u hu => (hresume _).symm ▸ ⟨hother u hu, (ok_stopTimer (hinv.timers u hu)).state⟩) hhold hseen
  refine ⟨s', fun wrap hwrap => ?_, hs'⟩
  dsimp only
  rw [stop_eq hinv hfind hstate hactive, ← hleads wrap hwrap, resumed_eq]
  congr 2
  exact map_congr_left fun u hu => resume_exact hwrap (ok_stopTimer (hinv.timers u hu)) hnonneg

end Stop

/-! ## A slot passes -/

section

variable {s : State}

/-- The calls of the interrupt functions of the active timers. -/
def activeCalls (now : Nat) (timers : List Timer) : List Call :=
  (timers.filter fun t => t.state = .active).map fun t => ⟨now, t.id, t.slots⟩

theorem mark_runInterrupt {t : Timer} (h : t.state ≠ .runInterrupt) : (mark t).state = .runInterrupt ↔ t.state = .active := by
  cases hst : t.state <;> simp_all [mark]

/-- `ns_timer_interrupt_handler`, when the start of the next timer is known. -/
theorem interruptHandler_eq {wrap : Int → Int} {hardware : Int} {running : Bool}
    (hstate : ∀ t ∈ s.timers, t.state ≠ .runInterrupt) (hlength : s.timers.length ≤ 128)
    (hnext : getNextRunningTo wrap { s with running := false, timers := s.timers.map mark } = { s with
      hardware := hardware, running := running, timers := (s.timers.map mark).map (rebase unbounded hardware) }) :
    interruptHandler wrap s = { s with
      hardware := hardware, running := running, calls := s.calls ++ activeCalls s.now s.timers,
      timers := s.timers.map fun t => called (rebase unbounded hardware (mark t)) } := by
  have hinterrupt : ∀ t ∈ s.timers, (rebase unbounded hardware (mark t)).state = .runInterrupt ↔ t.state = .active :=
    fun t ht => (rebase_runInterrupt _ _ _).trans (mark_runInterrupt (hstate t ht))
  have hle : s.timers.countP (fun t => t.state = .active) ≤ s.timers.length := countP_le_length
  unfold interruptHandler
  dsimp only
  rw [hnext, map_map, callFunctions_eq]
  · dsimp only
    rw [map_map, filter_map, map_map]
    congr 2
    have hfilter : s.timers.filter ((fun t => decide (t.state = .runInterrupt)) ∘ rebase unbounded hardware ∘ mark) =
        s.timers.filter fun t => t.state = .active :=
      filter_congr fun t ht => decide_eq_decide.mpr (hinterrupt t ht)
    rw [hfilter]
    refine map_congr_left fun t ht => ?_
    have hactive : t.state = .active := by simpa using (mem_filter.mp ht).2
    simp [mark, rebase, hactive]
  · have hcount : s.timers.countP ((fun t => decide (t.state = .runInterrupt)) ∘ rebase unbounded hardware ∘ mark) =
        s.timers.countP fun t => t.state = .active :=
      countP_congr fun t ht => by simpa using hinterrupt t ht
    rw [countP_map, hcount, UInt8.toNat_ofNat']
    omega

def callsOf (id : Nat) (calls : List Call) : List Call := calls.filter fun c => c.id = id

def after (p : Option (Int × Int)) : Option (Int × Int) := p.bind fun q => if q.1 = 1 then none else some (q.1 - 1, q.2)

/-- The call that comes with the last slot. -/
def fires (now id : Nat) : Option (Int × Int) → List Call
  | none => []
  | some p => if p.1 = 1 then [⟨now, id, p.2⟩] else []

/-- With the last slot of the hardware timer, the active timers are those whose last slot it is. -/
theorem callsOf_activeCalls (hinv : Inv s) (hone : s.hardware = 1) (now id : Nat) :
    callsOf id (activeCalls now s.timers) = fires now id (pending s id) := by
  have hid : s.timers.filter ((fun c : Call => decide (c.id = id)) ∘ fun t => ⟨now, t.id, t.slots⟩) =
      (find s.timers id).toList := filter_id hinv.nodup id
  unfold callsOf activeCalls pending
  rw [filter_map, filter_comm, hid, hone]
  rcases hfind : find s.timers id with _ | t
  · rfl
  obtain ⟨hmem, rfl⟩ := mem_of_find hfind
  have hok := hinv.timers t hmem
  have hrange := hok.range
  cases hst : t.state <;> simp_all [left, fires]
  omega

/-- What a slot does. -/
structure Ticked (s s' : State) : Prop where
  moved : ∃ f, Moved (fun _ => after) f s s'
  now : s'.now = s.now + 1
  calls : ∀ id, callsOf id s'.calls = callsOf id s.calls ++ fires (s.now + 1) id (CallbackTimers.pending s id)

theorem Ticked.inv {s' : State} (h : Ticked s s') (hinv : Inv s) : Inv s' := by
  obtain ⟨f, hf⟩ := h.moved
  refine hf.inv hinv fun id p hp q hq => ?_
  obtain ⟨q', hq', hif⟩ := Option.bind_eq_some_iff.mp hq
  grind

theorem Ticked.pending {s' : State} (h : Ticked s s') (id : Nat) : pending s' id = after (pending s id) := by
  obtain ⟨f, hf⟩ := h.moved
  rw [hf.pending]
  unfold CallbackTimers.pending
  cases find s.timers id <;> rfl

/-- No slot is counted, or not the last one: the timers stay. -/
theorem ticked_count (hinv : Inv s) (hone : s.hardware ≠ 1) :
    Ticked s { s with now := s.now + 1, hardware := if 0 < s.hardware then s.hardware - 1 else s.hardware } := by
  have hle := hinv.le
  have hnonneg := hinv.nonneg
  have hseen : ∀ t ∈ s.timers,
      seen (if 0 < s.hardware then s.hardware - 1 else s.hardware) t = after (seen s.hardware t) ∧
        ∀ id, fires (s.now + 1) id (seen s.hardware t) = [] := by
    intro t ht
    by_cases hpos : 0 < s.hardware
    · have hrange := (hinv.timers t ht).range
      cases hst : t.state <;> simp_all [seen, left, after, fires]
      grind
    · have hstop := hinv.stopped (mt hinv.running.mp hpos) ht
      simp [seen, left, after, fires, hstop]
  refine ⟨⟨fun t => t, (map_id _).symm, fun _ => rfl, fun t ht => (hseen t ht).1, fun t ht => ?_, ?_, ?_, ?_, ?_⟩, rfl, ?_⟩
  · exact ⟨(hinv.timers t ht).state, (hinv.timers t ht).hold⟩
  · dsimp only
    omega
  · dsimp only
    omega
  · have hrunning := hinv.running
    grind
  · intro t ht hne
    refine hinv.started t ht fun hnone => hne ?_
    rw [(hseen t ht).1]
    unfold seen
    rw [hnone]
    rfl
  · intro id
    unfold pending
    rcases hfind : find s.timers id with _ | t
    · exact (append_nil _).symm
    · have hnone := (hseen t (mem_of_find hfind).1).2 id
      unfold seen at hnone
      rw [Option.bind_some, hnone, append_nil]

theorem seen_mark {t : Timer} (h : Ok 1 t) : seen 0 (mark t) = after (seen 1 t) := by
  have hrange := h.range
  cases hst : t.state <;> simp_all [seen, left, mark, after]
  omega

theorem ticked_interrupt (hinv : Inv s) (hone : s.hardware = 1) : ∃ s', Leads (fun wrap => tick wrap s) s' ∧ Ticked s s' := by
  have hok : ∀ t ∈ s.timers, Ok 1 t := fun t ht => hone ▸ hinv.timers t ht
  have hmark : ∀ t : Timer, (mark t).state ≠ .active ∧ ((mark t).state = .hold → mark t = t) := by
    intro t
    cases hst : t.state <;> simp [mark, hst]
  have hhold : ∀ t ∈ s.timers, (mark t).state = .hold → 0 < (mark t).remaining ∧ (mark t).remaining ≤ 65535 := by
    intro t ht hhold
    have hsame := (hmark t).2 hhold
    rw [hsame] at hhold ⊢
    have hrange := (hok t ht).range hhold
    omega
  obtain ⟨hardware, running, hleads, hmoved⟩ := moved_next (g := fun _ => after)
    { s with now := s.now + 1, hardware := 0, running := false, timers := s.timers.map mark } hinv rfl mark_id
    (fun t _ => (hmark t).1) hhold (fun t ht => hone ▸ seen_mark (hok t ht)) (by simp) (by simp)
  refine ⟨{ s with
    hardware := hardware, running := running, now := s.now + 1, calls := s.calls ++ activeCalls (s.now + 1) s.timers,
    timers := s.timers.map fun t => called (rebase unbounded hardware (mark t)) }, fun wrap hwrap => ?_,
    ⟨⟨_, { hmoved with }⟩, rfl, fun id => ?_⟩⟩
  · have hnext := interruptHandler_eq (s := { s with now := s.now + 1, hardware := 0 }) (fun t ht => (hinv.timers t ht).state)
      hinv.length_le (hleads wrap hwrap)
    unfold tick
    dsimp only
    rw [if_pos (by omega), if_pos (by omega), hone]
    exact hnext
  · rw [← callsOf_activeCalls hinv hone]
    exact filter_append _ _

theorem leads_tick (hinv : Inv s) : ∃ s', Leads (fun wrap => step wrap s .tick) s' ∧ Ticked s s' := by
  by_cases hone : s.hardware = 1
  · exact ticked_interrupt hinv hone
  refine ⟨_, fun wrap _ => ?_, ticked_count hinv hone⟩
  unfold step tick
  dsimp only
  split
  · rw [if_neg (by omega)]
  · rfl

end

/-! ## Runs -/

section

variable {s : State} {wrap : Int → Int}

theorem inv_initial : Inv initial := ⟨nodup_nil, nofun, Int.le_refl 0, by decide, by decide, nofun⟩

theorem inv_register (hinv : Inv s) (memory : Bool) : Inv (register memory s) := by
  unfold register
  split
  · rename_i i hfind
    split
    · have hlt := mem_range.mp (mem_of_find?_eq_some hfind)
      have hnone : find s.timers i = none := by simpa using find?_some hfind
      refine ⟨?_, ?_, hinv.nonneg, hinv.le, hinv.running, ?_⟩
      · rw [map_append]
        refine nodup_append.mpr ⟨hinv.nodup, nodup_singleton i, ?_⟩
        intro a ha b hb heq
        obtain ⟨t, ht, rfl⟩ := mem_map.mp ha
        have hb' := mem_singleton.mp hb
        have hid : t.id = i := heq.trans hb'
        exact find?_eq_none.mp hnone t ht (decide_eq_true hid)
      · intro t ht
        rcases mem_append.mp ht with ht | ht
        · exact hinv.timers t ht
        · rw [mem_singleton.mp ht]
          exact ⟨hlt, nofun, nofun, nofun⟩
      · intro t ht hne
        rcases mem_append.mp ht with ht | ht
        · exact hinv.started t ht hne
        · rw [mem_singleton.mp ht] at hne
          exact absurd rfl hne
    · exact hinv
  · exact hinv

theorem pending_register (memory : Bool) (id : Nat) : pending (register memory s) id = pending s id := by
  unfold register
  split
  · rename_i i hfind
    split
    · unfold pending find
      rw [find?_append]
      cases s.timers.find? (fun t => t.id = id) with
      | none =>
        rw [Option.none_or, find?_singleton]
        split <;> rfl
      | some t => rfl
    · rfl
  · rfl

variable {op : Op} {ops : List Op}

/-- A step that does not start or stop the timer, and no slot. -/
theorem leads_other (hinv : Inv s) (hop : op.Allowed) (htick : op ≠ .tick) :
    ∃ s', Leads (fun wrap => step wrap s op) s' ∧ Inv s' ∧ s'.now = s.now ∧ s'.calls = s.calls ∧
      ∀ id, ¬ op.Touches id → pending s' id = pending s id := by
  have hsame : Leads (fun wrap => step wrap s op) s →
      ∃ s', Leads (fun wrap => step wrap s op) s' ∧ Inv s' ∧ s'.now = s.now ∧ s'.calls = s.calls ∧
        ∀ id, ¬ op.Touches id → pending s' id = pending s id :=
    fun hleads => ⟨s, hleads, hinv, rfl, rfl, fun _ _ => rfl⟩
  cases op with
  | tick => exact absurd rfl htick
  | register memory =>
    refine ⟨register memory s, fun wrap _ => rfl, inv_register hinv memory, ?_, ?_, fun id _ => pending_register memory id⟩
    all_goals
      unfold register
      split
      · split <;> rfl
      · rfl
  | start i slots =>
    obtain ⟨hlow, hhigh⟩ := hop
    rcases hfind : find s.timers i with _ | t
    · refine hsame fun wrap _ => ?_
      show start wrap i slots s = s
      unfold start
      rw [hfind]
    · have hlow' : (1 : Int) ≤ slots := by omega
      obtain ⟨s', hleads, hs'⟩ := leads_start hinv hfind hlow' (by omega)
      refine ⟨s', hleads, hs'.inv hinv fun n hn => ?_, hs'.now, hs'.calls, fun id hid => hs'.pending_ne (.symm hid)⟩
      have hn' := Option.some.inj hn
      omega
  | stop i =>
    rcases hfind : find s.timers i with _ | t
    · refine hsame fun wrap _ => ?_
      show stop wrap i s = s
      unfold stop
      rw [hfind]
    by_cases hstate : t.state = .stop
    · refine hsame fun wrap _ => ?_
      show stop wrap i s = s
      unfold stop
      rw [hfind]
      exact if_pos hstate
    · obtain ⟨s', hleads, hs'⟩ := leads_stop hinv hfind hstate
      exact ⟨s', hleads, hs'.inv hinv nofun, hs'.now, hs'.calls, fun id hid => hs'.pending_ne (.symm hid)⟩

/-- The call that comes with one of the next `n` slots. -/
def due (now id n : Nat) (p : Option (Int × Int)) : List Call :=
  p.toList.flatMap fun q => if q.1.toNat ≤ n then [⟨now + q.1.toNat, id, q.2⟩] else []

theorem fires_append_due (now id n : Nat) {p : Option (Int × Int)} (hp : ∀ q ∈ p, 1 ≤ q.1) :
    fires (now + 1) id p ++ due (now + 1) id n (after p) = due now id (n + 1) p := by
  rcases p with _ | ⟨l, slots⟩
  · rfl
  have hl : 1 ≤ l := hp _ rfl
  by_cases hone : l = 1
  · subst hone
    simp [fires, due, after]
  · have htime : now + 1 + (l.toNat - 1) = now + l.toNat := by omega
    simp [fires, due, after, hone, htime]

/-- The next step is known, and so is the run from there. -/
theorem Leads.cons {s' s'' : State} (h : Leads (fun wrap => step wrap s op) s') (h' : Leads (fun wrap => run wrap s' ops) s'') :
    Leads (fun wrap => run wrap s (op :: ops)) s'' :=
  fun wrap hwrap => (congrArg (fun s => run wrap s ops) (h wrap hwrap)).trans (h' wrap hwrap)

theorem leads_run (hinv : Inv s) (hops : ∀ op ∈ ops, op.Allowed) : ∃ s', Leads (fun wrap => run wrap s ops) s' ∧ Inv s' := by
  induction ops generalizing s with
  | nil => exact ⟨s, fun _ _ => rfl, hinv⟩
  | cons op ops ih =>
    have hop := hops op (.head _)
    obtain ⟨s', hleads, hinv'⟩ : ∃ s', Leads (fun wrap => step wrap s op) s' ∧ Inv s' := by
      by_cases htick : op = .tick
      · subst htick
        obtain ⟨s', hleads, hticked⟩ := leads_tick hinv
        exact ⟨s', hleads, hticked.inv hinv⟩
      · obtain ⟨s', hleads, hinv', -⟩ := leads_other hinv hop htick
        exact ⟨s', hleads, hinv'⟩
    obtain ⟨s'', hleads', hinv''⟩ := ih hinv' fun op hop => hops op (.tail _ hop)
    exact ⟨s'', hleads.cons hleads', hinv''⟩

/-- A timer with some slots left is called when they have passed. -/
theorem callsOf_run (hinv : Inv s) {id : Nat} (hlow : ∀ q ∈ pending s id, 1 ≤ q.1)
    (hops : ∀ op ∈ ops, op.Allowed ∧ ¬ op.Touches id) :
    ∃ s', Leads (fun wrap => run wrap s ops) s' ∧
      callsOf id s'.calls = callsOf id s.calls ++ due s.now id (ops.count .tick) (pending s id) := by
  induction ops generalizing s with
  | nil =>
    refine ⟨s, fun _ _ => rfl, ?_⟩
    rcases hp : pending s id with _ | q
    · exact (append_nil _).symm
    · have hq := hlow q hp
      simp [due]
      omega
  | cons op ops ih =>
    have hrest : ∀ op ∈ ops, op.Allowed ∧ ¬ op.Touches id := fun op hop => hops op (.tail _ hop)
    obtain ⟨hop, htouch⟩ := hops op (.head _)
    by_cases htick : op = .tick
    · subst htick
      obtain ⟨s1, hleads, hticked⟩ := leads_tick hinv
      have hlow' : ∀ q ∈ pending s1 id, 1 ≤ q.1 := by
        rw [hticked.pending]
        grind [after]
      obtain ⟨s', hleads', hcalls⟩ := ih (hticked.inv hinv) hlow' hrest
      refine ⟨s', hleads.cons hleads', ?_⟩
      rw [count_cons_self, ← fires_append_due _ _ _ hlow, ← append_assoc, ← hticked.calls, ← hticked.pending, ← hticked.now]
      exact hcalls
    · obtain ⟨s1, hleads, hinv', hnow, hcalls, hpending⟩ := leads_other hinv hop htick
      obtain ⟨s', hleads', hcalls'⟩ := ih hinv' (hpending id htouch ▸ hlow) hrest
      refine ⟨s', hleads.cons hleads', ?_⟩
      rw [count_cons_of_ne (fun heq => htick heq), ← hpending id htouch, ← hcalls, ← hnow]
      exact hcalls'

end

/-- A timer that is started with some slots and then neither stopped nor started again is called once, when its slots
have passed, whatever happens to the other timers; and the program does the same as with numbers that do not wrap. -/
theorem callback_on_time (before after : List Op) (id slots : Nat) (hbefore : ∀ op ∈ before, op.Allowed)
    (hafter : ∀ op ∈ after, op.Allowed ∧ ¬ op.Touches id) (hslots : (Op.start id slots).Allowed)
    (hid : (find (run wrap16 initial before).timers id).isSome) :
    let s := run wrap16 initial before
    let s' := run wrap16 s (.start id slots :: after)
    callsOf id s'.calls = callsOf id s.calls ++ (if slots ≤ after.count .tick then [⟨s.now + slots, id, slots⟩] else []) ∧
      s' = run unbounded initial (before ++ .start id slots :: after) := by
  obtain ⟨s0, hrun, hinv⟩ := leads_run inv_initial hbefore
  obtain ⟨hlow, hhigh⟩ := hslots
  have hlow' : (1 : Int) ≤ slots := by omega
  have hrun16 : run wrap16 initial before = s0 := hrun wrap16 exact_wrap16
  rw [hrun16] at hid ⊢
  obtain ⟨t, hfind⟩ := Option.isSome_iff_exists.mp hid
  obtain ⟨s1, hstart, hs1⟩ := leads_start hinv hfind hlow' (by omega)
  have hinv' : Inv s1 := hs1.inv hinv fun n hn => by
    have hn' := Option.some.inj hn
    omega
  have hpending := hs1.pending_self hfind
  obtain ⟨s', hafter', hcalls⟩ := callsOf_run hinv' (by simp [hpending, hlow']) hafter
  have hleads : Leads (fun wrap => run wrap s0 (.start id slots :: after)) s' := Leads.cons hstart hafter'
  have hrun' : run wrap16 s0 (.start id slots :: after) = s' := hleads wrap16 exact_wrap16
  refine ⟨?_, ?_⟩
  · rw [hrun', hcalls, hpending, hs1.calls, hs1.now]
    simp [due]
  · have hbefore' : List.foldl (step unbounded) initial before = s0 := hrun unbounded exact_unbounded
    unfold run
    rw [foldl_append, hbefore']
    exact hrun'.trans (hleads unbounded exact_unbounded).symm

theorem callback_on_time_two :
    callsOf 0 (run wrap16 initial ([.register true, .register true, .start 1 3, .tick] ++ .start 0 5 ::
      [.start 1 2, .tick, .stop 1, .tick, .tick, .start 1 65535, .tick, .tick])).calls = [⟨6, 0, 5⟩] := by
  have htime := callback_on_time [.register true, .register true, .start 1 3, .tick]
    [.start 1 2, .tick, .stop 1, .tick, .tick, .start 1 65535, .tick, .tick] 0 5 (by decide) (by decide) (by decide)
    (by decide)
  dsimp only at htime
  unfold run at htime ⊢
  exact htime.1

end MbedCloud.CallbackTimers

