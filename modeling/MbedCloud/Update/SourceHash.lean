import MbedCloud.Update.Utilities

/-!
# Polling for a new manifest

`arm_uc_source_http.c`. The ETag of the manifest is kept in an array of 40 `int8_t`, and a new one is written
over it byte by byte, as long as it is. So a longer one is written behind the array, and what a shorter one does
not reach stays: a value that the array begins with is taken for the previous one. A byte is compared as
`int8_t` with `uint8_t`, so one above 127 is never equal.
-/

namespace MbedCloud.Update

open Lib List

/-- The answer to a poll. -/
inductive Poll where
  | value (etag : Bytes)
  | error
  deriving DecidableEq

/-- `default_config.hash`, and the value that was received last. -/
structure SourceState where
  hash : List Int
  previous : Option Bytes
  deriving DecidableEq

/-- `hash_is_zero`. -/
def hashIsZero (hash : List Int) : Bool := hash.all fun h => decide (h = 0)

/-- The loop of `ARM_UCS_ProcessHash` from an index on: the rest of the array, and `hashIsNew`. -/
def compareHash : Nat → List Int → Bytes → Exec Fault (List Int × Bool)
  | _, hash, [] => pure (hash, false)
  | index, [], _ :: _ => .error (.fail (.write index))
  | index, h :: hash, b :: bs => do
    let (hash, isNew) ← compareHash (index + 1) hash bs
    if h ≠ b.toNat then pure (i8 b.toNat :: hash, true) else pure (h :: hash, isNew)

/-- `ARM_UCS_ProcessHash`, with whether it signals `EVENT_NOTIFICATION`. -/
def processHash (s : SourceState) (etag : Bytes) : Exec Fault (SourceState × Bool) := do
  let firstBoot := hashIsZero s.hash
  let (hash, isNew) ← compareHash 0 s.hash etag
  pure (⟨hash, some etag⟩, isNew && !firstBoot)

/-- `ARM_UCS_HTTPEvent` while it polls. -/
def poll (s : SourceState) : Poll → Exec Fault (SourceState × Bool)
  | .value etag => processHash s etag
  | .error => pure (if hashIsZero s.hash then { s with hash := s.hash.set 0 (i8 255) } else s, false)

/-- The states that polls with a property lead to. -/
inductive Polled (C : SourceState → Poll → Prop) : SourceState → Prop
  | start : Polled C ⟨replicate 40 0, none⟩
  | step {s s' : SourceState} {p : Poll} {signal : Bool} : Polled C s → C s p → poll s p = .ok (s', signal) → Polled C s'

/-- The poll writes inside the array, and after the first value it signals a new one. -/
def Notifies (s : SourceState) (p : Poll) : Prop :=
  ∃ s' signal, poll s p = .ok (s', signal) ∧
    ∀ etag previous, p = .value etag → s.previous = some previous → (signal = true ↔ etag ≠ previous)

def asHash (etag : Bytes) : List Int := etag.map fun b => (b.toNat : Int)

/-- The value fits, its bytes are below 128 and not all zero, and the array does not begin with it if it is
another one than before. -/
def Tells (s : SourceState) : Poll → Prop
  | .value etag => etag.length ≤ 40 ∧ (∀ b ∈ etag, b.toNat < 128) ∧ (∃ b ∈ etag, b.toNat ≠ 0) ∧
      ∀ previous, s.previous = some previous → etag ≠ previous → ¬ asHash etag <+: s.hash
  | .error => True

theorem compareHash_eq {etag : Bytes} {hash : List Int} {index : Nat} (hlength : etag.length ≤ hash.length)
    (hbytes : ∀ b ∈ etag, b.toNat < 128) :
    compareHash index hash etag = .ok (asHash etag ++ hash.drop etag.length, !decide (asHash etag <+: hash)) := by
  induction etag generalizing hash index with
  | nil => simp [compareHash, asHash, pure, Except.pure]
  | cons b etag ih =>
    cases hash with
    | nil => cases hlength
    | cons h hash =>
      have hb : i8 b.toNat = b.toNat := by
        have := hbytes b (.head _)
        unfold i8
        omega
      rw [compareHash, ih (Nat.le_of_succ_le_succ hlength) fun c hc => hbytes c (.tail b hc), ok_bind]
      by_cases heq : h = b.toNat
      · simp [asHash, heq, cons_prefix_cons, pure, Except.pure]
        congr
      · simp [asHash, heq, Ne.symm heq, hb, cons_prefix_cons, pure, Except.pure]

/-- The array begins with the last value, and is not zero. -/
structure SourceState.Holds (s : SourceState) : Prop where
  length : s.hash.length = 40
  begins : ∀ previous, s.previous = some previous → asHash previous <+: s.hash ∧ hashIsZero s.hash = false

theorem processHash_eq {s : SourceState} {etag : Bytes} (h : s.Holds) (htells : Tells s (.value etag)) :
    processHash s etag = .ok (⟨asHash etag ++ s.hash.drop etag.length, some etag⟩,
      !decide (asHash etag <+: s.hash) && !hashIsZero s.hash) := by
  rw [processHash, compareHash_eq (by rw [h.length]; exact htells.1) htells.2.1]
  rfl

theorem poll_holds {s s' : SourceState} {p : Poll} {signal : Bool} (h : s.Holds) (htells : Tells s p)
    (hok : poll s p = .ok (s', signal)) : s'.Holds := by
  cases p with
  | value etag =>
    cases (processHash_eq h htells).symm.trans hok
    obtain ⟨hlength, -, ⟨b, hb, hne⟩, -⟩ := htells
    refine ⟨?_, fun previous hprevious => ?_⟩
    · simp only [length_append, asHash, length_map, length_drop, h.length]
      omega
    cases hprevious
    refine ⟨prefix_append _ _, all_eq_false.mpr ⟨(b.toNat : Int), ?_, by simpa using hne⟩⟩
    exact mem_append_left _ (mem_map_of_mem hb)
  | error =>
    cases hok
    split_ifs with hzero
    · refine ⟨(length_set).trans h.length, fun previous hprevious => ?_⟩
      rw [(h.begins previous hprevious).2] at hzero
      cases hzero
    · exact h

theorem Polled.holds {s : SourceState} (h : Polled Tells s) : s.Holds := by
  induction h with
  | start => exact ⟨rfl, fun previous hprevious => by cases hprevious⟩
  | step _ htells hok ih => exact poll_holds ih htells hok

/-- After any polls with values that the array can tell apart, the next one notifies. -/
theorem notifies_of_tells {s : SourceState} {p : Poll} (hs : Polled Tells s) (htells : Tells s p) : Notifies s p := by
  cases p with
  | error => exact ⟨_, _, rfl, fun _ _ h => by cases h⟩
  | value etag =>
    refine ⟨_, _, processHash_eq hs.holds htells, fun etag' previous hetag hprevious => ?_⟩
    cases hetag
    obtain ⟨hbegins, hzero⟩ := hs.holds.begins previous hprevious
    rw [hzero, Bool.not_false, Bool.and_true, Bool.not_eq_true', decide_eq_false_iff_not]
    constructor
    · rintro hnot rfl
      exact hnot hbegins
    · exact htells.2.2.2 previous hprevious

theorem poll_first : poll ⟨replicate 40 0, none⟩ (.value [97, 98]) =
    .ok (⟨[97, 98] ++ replicate 38 0, some [97, 98]⟩, false) := by decide

/-- The values `ab` and `ac`. -/
theorem notifies_second : Notifies ⟨[97, 98] ++ replicate 38 0, some [97, 98]⟩ (.value [97, 99]) := by
  have hs : Polled Tells ⟨[97, 98] ++ replicate 38 0, some [97, 98]⟩ :=
    .step (p := .value [97, 98]) .start ⟨by decide, by simp, by decide, by simp⟩ poll_first
  exact notifies_of_tells hs ⟨by decide, by simp, by decide, fun _ _ _ => by decide⟩

/-- A value of 41 bytes is written behind the array, and `a` after `ab` is not taken for a new one. -/
theorem not_notifies_always : ¬ (∀ p, Notifies ⟨replicate 40 0, none⟩ p) ∧
      ∃ s, Polled (fun _ _ => True) s ∧ ¬ Notifies s (.value [97]) := by
  refine ⟨fun hall => ?_, _, .step .start trivial poll_first, ?_⟩
  · obtain ⟨s', signal, hok, -⟩ := hall (.value (replicate 41 97))
    have hfault : poll ⟨replicate 40 0, none⟩ (.value (replicate 41 97)) = .error (.fail (.write 40)) := by decide
    cases hfault.symm.trans hok
  · rintro ⟨s', signal, hok, hsignal⟩
    have hsame : poll ⟨[97, 98] ++ replicate 38 0, some [97, 98]⟩ (.value [97]) =
        .ok (⟨[97, 98] ++ replicate 38 0, some [97]⟩, false) := by decide
    cases hsame.symm.trans hok
    exact absurd ((hsignal [97] [97, 98] rfl rfl).mpr (by decide)) (by decide)

end MbedCloud.Update

