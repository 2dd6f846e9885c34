import MbedCloud.Lib.Word

/-!
# The tick counter and the time

`pal_rtos.c`. The platform counts ticks in 32 bits, and `pal_osKernelSysTick` takes a value below the last
one for a wrap-around. The time is the time of the boot and the seconds since.

A run knows the true number of ticks at its last call that reads the counter: the first call reads a value of
32 bits, and each further one is less than `2 ^ 32` ticks later.
-/

namespace MbedCloud.Pal.Clock

/-! ## The code -/

/-- The static variables. -/
structure State where
  lastValue : Nat
  wraparoundsDetected : Nat
  /-- `g_palDeviceBootTimeInSec` -/
  deviceBootTime : Nat
  deriving DecidableEq

def initial : State := ⟨0, 0, 0⟩

def u64 (x : Nat) : Nat := x % 18446744073709551616

/-- `pal_osKernelSysTick`, for a value of the counter. -/
def osKernelSysTick (tics : Nat) (s : State) : Nat × State :=
  let tmp := u64 (tics + u64 (s.wraparoundsDetected <<< 32))
  if tmp < s.lastValue then
    let tmp := u64 (tmp + 4294967296)
    (tmp, { s with lastValue := tmp, wraparoundsDetected := u64 (s.wraparoundsDetected + 1) })
  else (tmp, { s with lastValue := tmp })

/-- `pal_osKernelSysMilliSecTick`, for a frequency of the counter. -/
def osKernelSysMilliSecTick (frequency sysTicks : Nat) : Nat :=
  if sysTicks ≠ 0 ∧ frequency ≠ 0 then u64 (sysTicks / frequency * 1000) else 0

/-- `pal_sysTickTimeToSec` -/
def sysTickTimeToSec (frequency tics : Nat) (s : State) : Nat × State :=
  let (ticks, s) := osKernelSysTick tics s
  (osKernelSysMilliSecTick frequency ticks / 1000, s)

/-- `pal_osGetTime`: the counter is read only if the time was set. -/
def osGetTime (frequency tics : Nat) (s : State) : Nat × State :=
  if 0 < s.deviceBootTime then
    let (secFromBoot, s) := sysTickTimeToSec frequency tics s
    (u64 (s.deviceBootTime + secFromBoot), s)
  else (0, s)

/-- `PAL_MIN_SEC_FROM_EPOCH` -/
def minSecFromEpoch : Nat := 1487015542

/-- `pal_osSetTime`, and whether it succeeds. -/
def osSetTime (frequency tics seconds : Nat) (s : State) : Bool × State :=
  if seconds < minSecFromEpoch then (false, s)
  else
    let (secFromBoot, s) := sysTickTimeToSec frequency tics s
    (true, { s with deviceBootTime := u64 (seconds + 18446744073709551616 - secFromBoot) })

/-! ## Runs -/

inductive Op where
  | sysTick
  | getTime
  | setTime (seconds : Nat)

def Op.run (frequency tics : Nat) (s : State) : Op → State
  | .sysTick => (osKernelSysTick tics s).2
  | .getTime => (osGetTime frequency tics s).2
  | .setTime seconds => (osSetTime frequency tics seconds s).2

/-- Whether the counter is read. -/
def Op.Reads (s : State) : Op → Prop
  | .sysTick => True
  | .getTime => 0 < s.deviceBootTime
  | .setTime seconds => minSecFromEpoch ≤ seconds

/-- The time is not set. -/
def Op.Keeps (op : Op) : Prop := ∀ seconds, op = .setTime seconds → seconds < minSecFromEpoch

/-- A call that reads the counter at `n'` ticks, after one at `n` ticks. -/
def Follows (n n' : Nat) : Prop := n ≤ n' ∧ n' < n + 4294967296

/-- The runs of allowed calls from `n` ticks on, to the number of ticks at the last call that reads the counter. -/
inductive Runs (frequency : Nat) (allowed : Op → Prop) (n : Nat) (s : State) : Nat → State → Prop
  | refl : Runs frequency allowed n s n s
  | call {m m' : Nat} {t : State} (op : Op) : Runs frequency allowed n s m t → allowed op →
      (op.Reads t ∧ Follows m m' ∨ ¬ op.Reads t ∧ m' = m) →
      Runs frequency allowed n s m' (op.run frequency (m' % 4294967296) t)

/-- The ticks and the milliseconds fit their 64 bits. -/
def Fits (frequency n : Nat) : Prop := n < 18446744073709551616 ∧ n / frequency * 1000 < 18446744073709551616

/-- The time at `n` ticks is less than a second from `seconds` at `n₀` ticks and the ticks since. -/
def Near (frequency n₀ seconds n time : Nat) : Prop :=
  seconds * frequency + (n - n₀) < time * frequency + frequency ∧ time * frequency < seconds * frequency + (n - n₀) + frequency

/-- The times that are got in the runs after the time was set never decrease and are near the exact ones. -/
def KeepsTime (frequency n₀ seconds : Nat) (s₀ : State) : Prop :=
  ∃ clock : Nat → Nat, (∀ n n', n ≤ n' → clock n ≤ clock n') ∧
    ∀ n s, Runs frequency Op.Keeps n₀ s₀ n s → ∀ n', Follows n n' → Fits frequency n' →
      seconds + (n' / frequency - n₀ / frequency) < 18446744073709551616 →
      (osGetTime frequency (n' % 4294967296) s).1 = clock n' ∧ Near frequency n₀ seconds n' (clock n')

/-- The next call returns the number of ticks, and a time that is set is kept. -/
structure Exact (frequency n : Nat) (s : State) : Prop where
  ticks : ∀ n', Follows n n' → n' < 18446744073709551616 → (osKernelSysTick (n' % 4294967296) s).1 = n'
  time : ∀ n' seconds, Follows n n' → n' / frequency < seconds → (osSetTime frequency (n' % 4294967296) seconds s).1 = true →
    KeepsTime frequency n' seconds (osSetTime frequency (n' % 4294967296) seconds s).2

/-! ## Proof -/

/-- The variables hold the number of ticks as long as it fits. -/
def Counts (n : Nat) (s : State) : Prop := n < 18446744073709551616 → s.lastValue = n ∧ s.wraparoundsDetected = n / 4294967296

section Calls

variable {frequency n n' m seconds : Nat} {s t : State}

theorem osKernelSysTick_eq (h : Counts n s) (hn : Follows n n') (hfit : n' < 18446744073709551616) :
    osKernelSysTick (n' % 4294967296) s = (n', { s with lastValue := n', wraparoundsDetected := n' / 4294967296 }) := by
  obtain ⟨hle, hlt⟩ := hn
  obtain ⟨hlast, hwraps⟩ := h (by omega)
  have htmp : u64 (n' % 4294967296 + u64 (s.wraparoundsDetected <<< 32)) = n' % 4294967296 + n / 4294967296 * 4294967296 := by
    unfold u64
    omega
  unfold osKernelSysTick
  dsimp only
  rw [htmp, hlast]
  split_ifs with hwrap
  · have hvalue : u64 (n' % 4294967296 + n / 4294967296 * 4294967296 + 4294967296) = n' := by
      unfold u64
      omega
    have hcount : u64 (s.wraparoundsDetected + 1) = n' / 4294967296 := by
      unfold u64
      omega
    rw [hvalue, hcount]
  · have hvalue : n' % 4294967296 + n / 4294967296 * 4294967296 = n' := by omega
    have hcount : n' / 4294967296 = s.wraparoundsDetected := by omega
    rw [hvalue, hcount]

theorem osKernelSysTick_bootTime (tics : Nat) (s : State) : (osKernelSysTick tics s).2.deviceBootTime = s.deviceBootTime := by
  have hticks : ∃ value wraps, osKernelSysTick tics s = (value, ⟨value, wraps, s.deviceBootTime⟩) := by
    unfold osKernelSysTick
    extract_lets tmp
    split_ifs
    · exact ⟨_, _, rfl⟩
    · exact ⟨_, _, rfl⟩
  obtain ⟨value, wraps, hticks⟩ := hticks
  rw [hticks]

theorem sysTickTimeToSec_eq (h : Counts n s) (hn : Follows n n') (hfits : Fits frequency n') :
    (sysTickTimeToSec frequency (n' % 4294967296) s).1 = n' / frequency := by
  unfold sysTickTimeToSec osKernelSysMilliSecTick
  rw [osKernelSysTick_eq h hn hfits.1]
  dsimp only
  split_ifs with hzero
  · have hmilli : u64 (n' / frequency * 1000) = n' / frequency * 1000 := Nat.mod_eq_of_lt hfits.2
    rw [hmilli, Nat.mul_div_cancel _ (by decide)]
  · rcases Decidable.not_and_iff_or_not.mp hzero with hzero | hzero
    · rw [Decidable.of_not_not hzero, Nat.zero_div, Nat.zero_div]
    · rw [Decidable.of_not_not hzero, Nat.zero_div, Nat.div_zero]

theorem Op.run_eq (op : Op) (tics : Nat) (s : State) :
    (op.Reads s → ∃ boot, op.run frequency tics s = { (osKernelSysTick tics s).2 with deviceBootTime := boot }) ∧
      (¬ op.Reads s → op.run frequency tics s = s) ∧
      (op.Keeps → (op.run frequency tics s).deviceBootTime = s.deviceBootTime) := by
  have hboot := osKernelSysTick_bootTime tics s
  cases op with
  | sysTick => exact ⟨fun _ => ⟨_, rfl⟩, fun hreads => absurd trivial hreads, fun _ => hboot⟩
  | getTime =>
    dsimp only [Op.run]
    unfold osGetTime
    split_ifs with hset
    · exact ⟨fun _ => ⟨_, rfl⟩, fun hreads => absurd hset hreads, fun _ => hboot⟩
    · exact ⟨fun hreads => absurd hreads hset, fun _ => rfl, fun _ => rfl⟩
  | setTime seconds =>
    dsimp only [Op.run]
    unfold osSetTime
    split_ifs with hmin
    · exact ⟨fun hreads => absurd hmin (Nat.not_lt.mpr hreads), fun _ => rfl, fun _ => rfl⟩
    · exact ⟨fun _ => ⟨_, rfl⟩, fun hreads => absurd (Nat.not_lt.mp hmin) hreads,
        fun hkeeps => absurd (hkeeps seconds rfl) hmin⟩

theorem Op.run_counts (op : Op) (h : Counts n s) (hreads : op.Reads s) (hn : Follows n n') :
    Counts n' (op.run frequency (n' % 4294967296) s) := by
  obtain ⟨boot, hrun⟩ := (op.run_eq (n' % 4294967296) s).1 hreads
  rw [hrun]
  intro hfit
  rw [osKernelSysTick_eq h hn hfit]
  exact ⟨rfl, rfl⟩

theorem Runs.counts {allowed : Op → Prop} (hrun : Runs frequency allowed n s m t) (h : Counts n s) : Counts m t ∧ n ≤ m := by
  induction hrun with
  | refl => exact ⟨h, Nat.le_refl n⟩
  | call op _ _ hcall ih =>
    rcases hcall with ⟨hreads, hn⟩ | ⟨hreads, rfl⟩
    · exact ⟨op.run_counts ih.1 hreads hn, Nat.le_trans ih.2 hn.1⟩
    · rw [(op.run_eq _ _).2.1 hreads]
      exact ih

theorem Runs.bootTime (hrun : Runs frequency Op.Keeps n s m t) : t.deviceBootTime = s.deviceBootTime := by
  induction hrun with
  | refl => rfl
  | call op _ hkeeps _ ih => exact ((op.run_eq _ _).2.2 hkeeps).trans ih

theorem near_of_eq (hfrequency : 0 < frequency) (hle : n ≤ m) (huptime : n / frequency < seconds) :
    Near frequency n seconds m (seconds - n / frequency + m / frequency) := by
  obtain ⟨boot, rfl⟩ := Nat.exists_eq_add_of_lt huptime
  -- what is rounded off is less than a second each time
  have hn := Nat.div_add_mod' n frequency
  have hm := Nat.div_add_mod' m frequency
  have hn' := Nat.mod_lt n hfrequency
  have hm' := Nat.mod_lt m hfrequency
  have hboot : n / frequency + boot + 1 - n / frequency = boot + 1 := by omega
  unfold Near
  rw [hboot]
  simp only [Nat.add_mul]
  omega

theorem osSetTime_keepsTime (hfrequency : 0 < frequency) (h : Counts n s) (hn : Follows n n')
    (huptime : n' / frequency < seconds) (hset : (osSetTime frequency (n' % 4294967296) seconds s).1 = true) :
    KeepsTime frequency n' seconds (osSetTime frequency (n' % 4294967296) seconds s).2 := by
  have hmin : ¬ seconds < minSecFromEpoch := by
    intro hmin
    rw [osSetTime, if_pos hmin] at hset
    exact Bool.noConfusion hset
  refine ⟨fun m => seconds - n' / frequency + m / frequency, ?_, ?_⟩
  · intro m m' hle
    exact Nat.add_le_add_left (Nat.div_le_div_right hle) _
  · intro m t hrun m' hm hfits htime
    obtain ⟨hcounts, hle⟩ := hrun.counts (Op.run_counts (.setTime seconds) h (Nat.not_lt.mp hmin) hn)
    have hle := Nat.le_trans hle hm.1
    have hdiv : n' / frequency ≤ m' / frequency := Nat.div_le_div_right hle
    refine ⟨?_, near_of_eq hfrequency hle huptime⟩
    beta_reduce
    have hset := sysTickTimeToSec_eq h hn
      ⟨Nat.lt_of_le_of_lt hle hfits.1, Nat.lt_of_le_of_lt (Nat.mul_le_mul_right 1000 hdiv) hfits.2⟩
    have hget := sysTickTimeToSec_eq hcounts hm hfits
    generalize n' / frequency = uptime, m' / frequency = later at *
    have hboot : (sysTickTimeToSec frequency (m' % 4294967296) t).2.deviceBootTime = seconds - uptime := by
      refine (osKernelSysTick_bootTime _ t).trans ?_
      rw [hrun.bootTime, osSetTime, if_neg hmin]
      dsimp only
      unfold u64
      omega
    have hpositive : 0 < t.deviceBootTime := by
      rw [← osKernelSysTick_bootTime (m' % 4294967296) t]
      exact Nat.lt_of_lt_of_eq (Nat.sub_pos_of_lt huptime) hboot.symm
    unfold osGetTime
    rw [if_pos hpositive]
    dsimp only
    rw [hget, hboot]
    exact Nat.mod_eq_of_lt (by omega)

end Calls

/-- **The clock.** As long as the values fit their 64 bits, each call returns the number of ticks and a time that
was set is kept, after every sequence of calls. -/
theorem clock_exact {frequency n : Nat} {s : State} (hfrequency : 0 < frequency)
    (hrun : Runs frequency (fun _ => True) 0 initial n s) : Exact frequency n s := by
  obtain ⟨hcounts, _⟩ := hrun.counts (fun _ => ⟨rfl, rfl⟩)
  constructor
  · intro n' hn hfit
    rw [osKernelSysTick_eq hcounts hn hfit]
  · intro n' seconds hn huptime hset
    exact osSetTime_keepsTime hfrequency hcounts hn huptime hset

theorem clock_exact_wrapped : Exact 1 4294967300 (Op.run 1 4 (Op.run 1 4294967290 initial .sysTick) (.setTime 1487015542)) := by
  have hfirst : Runs 1 (fun _ => True) 0 initial 4294967290 (Op.run 1 4294967290 initial .sysTick) :=
    .call .sysTick .refl trivial (.inl ⟨trivial, by decide, by decide⟩)
  exact clock_exact (by decide) (.call (.setTime 1487015542) hfirst trivial (.inl ⟨Nat.le_refl _, by decide, by decide⟩))

/-- The time is set to the last one of its type; a second later it starts anew. -/
theorem osGetTime_starts_anew :
    let s := (osSetTime 1 0 18446744073709551615 initial).2
    (osSetTime 1 0 18446744073709551615 initial).1 = true ∧
      (osGetTime 1 0 s).1 = 18446744073709551615 ∧ (osGetTime 1 1 s).1 = 0 := by
  decide

end MbedCloud.Pal.Clock

