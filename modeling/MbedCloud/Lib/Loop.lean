import Mathlib.Logic.Relation
import Mathlib.Tactic.ByContra

/-!
# Loops with fuel

A loop of a program is a step function: from the state at the loop head, one iteration
either leaves the loop with a result or goes on from a new state, and it may also stop
the whole computation. `loop step k s` makes at most `k` iterations; running out of fuel
is the outcome `Stop.fuel`, which more fuel can turn into another outcome and nothing
else can.

* `Below lost x y`: `x` is `y`, or `x` stopped for a reason in `lost`. Every computation
  built from `loop` and `>>=` is monotone for it (`below_bind`, `below_loop`); `Mono` is the
  case of running out of fuel.
* `Outcome E x`: with enough fuel the computation `E` gives `x`. Outcomes are unique
  (`Outcome.unique`).
-/

namespace MbedCloud.Lib

/-- Why a computation stopped without a result. -/
inductive Stop (ε : Type) where
  | fuel
  | fail (e : ε)
  deriving DecidableEq

abbrev Exec (ε α : Type) := Except (Stop ε) α

/-- What one iteration of a loop does: leave with a result, or go on. -/
inductive Next (σ ρ : Type) where
  | done (r : ρ)
  | more (s : σ)
  deriving DecidableEq

def loop {ε σ ρ : Type} (step : σ → Exec ε (Next σ ρ)) : Nat → σ → Exec ε ρ
  | 0, _ => .error .fuel
  | k + 1, s =>
    match step s with
    | .error e => .error e
    | .ok (.done r) => .ok r
    | .ok (.more s') => loop step k s'

variable {ε α β σ ρ : Type} {f : α → Exec ε β} {x : Exec ε α} {E : Nat → Exec ε α} {F : α → Nat → Exec ε β}

theorem ok_bind (a : α) : (Except.ok a >>= f : Exec ε β) = f a := rfl

theorem bind_eq_ok {b : β} (h : (x >>= f) = .ok b) : ∃ a, x = .ok a ∧ f a = .ok b := by
  cases x with
  | error e => cases h
  | ok a => exact ⟨a, rfl, h⟩

theorem pure_ne_fuel (a : α) : (pure a : Exec ε α) ≠ .error .fuel := by simp [pure, Except.pure]

/-! ## Lost computations -/

/-- `x` is `y`, or it was lost on the way. -/
def Below (lost : Stop ε → Prop) (x y : Exec ε α) : Prop := (∃ e, lost e ∧ x = .error e) ∨ x = y

section Below

variable {lost : Stop ε → Prop}

theorem below_refl (x : Exec ε α) : Below lost x x := Or.inr rfl

theorem below_bind {x y : Exec ε α} {f g : α → Exec ε β} (h : Below lost x y)
    (hf : ∀ a, x = .ok a → Below lost (f a) (g a)) : Below lost (x >>= f) (y >>= g) := by
  rcases h with ⟨e, he, rfl⟩ | rfl
  · exact .inl ⟨e, he, rfl⟩
  cases x with
  | error e => exact .inr rfl
  | ok a => exact hf a rfl

/-- The same fuel, or less where running out of it is a loss. -/
def FuelFor (lost : Stop ε → Prop) (k k' : Nat) : Prop := k = k' ∨ k ≤ k' ∧ lost .fuel

theorem below_loop (lost : Stop ε → Prop) {step step' : σ → Exec ε (Next σ ρ)} (h : ∀ s, Below lost (step s) (step' s)) :
    ∀ {k k' : Nat}, FuelFor lost k k' → ∀ s, Below lost (loop step k s) (loop step' k' s)
  | 0, k', hk, s => by
    rcases hk with rfl | ⟨-, hfuel⟩
    · exact below_refl _
    · exact .inl ⟨.fuel, hfuel, rfl⟩
  | k + 1, 0, hk, _ => by
    unfold FuelFor at hk
    omega
  | k + 1, k' + 1, hk, s => by
    simp only [loop]
    rcases h s with ⟨e, he, hs⟩ | hs
    · rw [hs]
      exact .inl ⟨e, he, rfl⟩
    rw [← hs]
    cases step s with
    | error e => exact .inr rfl
    | ok n =>
      cases n with
      | done r => exact .inr rfl
      | more s' => exact below_loop lost h (hk.imp Nat.succ.inj (And.imp_left Nat.le_of_succ_le_succ)) s'

end Below

/-! ## Results -/

/-- `x` was lost on the way, or it has a result with the property. -/
def Yields (lost : Stop ε → Prop) (x : Exec ε α) (Q : α → Prop) : Prop := (∃ e, lost e ∧ x = .error e) ∨ ∃ a, x = .ok a ∧ Q a

section Yields

variable {lost : Stop ε → Prop}

theorem yields_pure {a : α} {Q : α → Prop} (h : Q a) : Yields lost (pure a : Exec ε α) Q := Or.inr ⟨a, rfl, h⟩

/-- Nothing is said of a computation without a result. -/
theorem yields_of_ok {Q : α → Prop} (h : ∀ a, x = .ok a → Q a) : Yields (fun _ => True) x Q := by
  cases x with
  | error e => exact .inl ⟨e, trivial, rfl⟩
  | ok a => exact .inr ⟨a, rfl, h a rfl⟩

theorem Yields.result {a : α} {Q : α → Prop} (h : Yields lost (.ok a) Q) : Q a := by
  rcases h with ⟨e, -, he⟩ | ⟨b, hb, hQ⟩
  · cases he
  · cases hb
    exact hQ

theorem Yields.of_eq {a : α} {Q : α → Prop} (hx : x = .ok a) (h : Yields lost x Q) : Q a := by
  rw [hx] at h
  exact h.result

theorem Yields.exists_ok {Q : α → Prop} (h : Yields (fun _ => False) x Q) : ∃ a, x = .ok a ∧ Q a :=
  h.resolve_left fun ⟨_, hlost, _⟩ => hlost

theorem yields_bind {f : α → Exec ε β} {P : α → Prop} {Q : β → Prop}
    (h : Yields lost x P) (hf : ∀ a, P a → Yields lost (f a) Q) : Yields lost (x >>= f) Q := by
  rcases h with ⟨e, he, rfl⟩ | ⟨a, rfl, ha⟩
  · exact .inl ⟨e, he, rfl⟩
  · exact hf a ha

theorem Yields.ok {Q : α → Prop} (h : Yields lost x Q) : Yields lost x fun a => x = .ok a ∧ Q a := by
  rcases h with hlost | ⟨a, ha, hQ⟩
  · exact .inl hlost
  · exact .inr ⟨a, ha, ha, hQ⟩

theorem Yields.imp {P Q : α → Prop} (h : Yields lost x P) (himp : ∀ a, P a → Q a) : Yields lost x Q := by
  rcases h with hlost | ⟨a, ha, hP⟩
  · exact .inl hlost
  · exact .inr ⟨a, ha, himp a hP⟩

end Yields

/-! ## Results and failures -/

/-- `x` fails if `bad` holds, and else it has a result with the property. -/
def Settles (bad : Prop) (x : Exec ε α) (Q : α → Prop) : Prop := (bad ∧ ∃ e, x = .error (.fail e)) ∨ ¬ bad ∧ ∃ a, x = .ok a ∧ Q a

section Settles

variable {bad bad' : Prop} {P Q : α → Prop} {R : β → Prop}

theorem settles_pure {a : α} (h : Q a) : Settles False (pure a : Exec ε α) Q := .inr ⟨id, a, rfl, h⟩

theorem Settles.bind (h : Settles bad x P) (hf : ∀ a, P a → Settles bad' (f a) R) : Settles (bad ∨ bad') (x >>= f) R := by
  rcases h with ⟨hbad, e, rfl⟩ | ⟨hbad, a, rfl, ha⟩
  · exact .inl ⟨.inl hbad, e, rfl⟩
  rcases hf a ha with ⟨hbad', he⟩ | ⟨hbad', hr⟩
  · exact .inl ⟨.inr hbad', he⟩
  · exact .inr ⟨not_or.mpr ⟨hbad, hbad'⟩, hr⟩

theorem Settles.congr (h : Settles bad x Q) (hbad : bad ↔ bad') : Settles bad' x Q := by
  rwa [Settles, ← hbad]

/-- The equation may be used behind the computation. -/
theorem Settles.ok (h : Settles bad x Q) : Settles bad x fun a => x = .ok a ∧ Q a :=
  h.imp_right (And.imp_right fun ⟨a, ha, hQ⟩ => ⟨a, ha, ha, hQ⟩)

theorem Settles.map (h : Settles bad x P) {g : α → β} (hg : ∀ a, P a → R (g a)) : Settles bad (x >>= fun a => pure (g a)) R :=
  (h.bind fun a ha => settles_pure (hg a ha)).congr (iff_of_eq (or_false bad))

theorem Settles.ne_fuel (h : Settles bad x Q) : x ≠ .error .fuel := by
  rcases h with ⟨-, e, rfl⟩ | ⟨-, a, rfl, -⟩ <;> simp

theorem Settles.fails_iff (h : Settles bad x Q) : (∃ e, x = .error (.fail e)) ↔ bad := by
  rcases h with ⟨hbad, he⟩ | ⟨hbad, a, rfl, -⟩
  · exact iff_of_true he hbad
  · exact iff_of_false (by simp) hbad

theorem Settles.of_ok {a : α} (h : Settles bad x Q) (hx : x = .ok a) : ¬ bad ∧ Q a := by
  rcases h with ⟨-, e, he⟩ | ⟨hbad, a', ha, hQ⟩
  · cases he.symm.trans hx
  · cases ha.symm.trans hx
    exact ⟨hbad, hQ⟩

theorem Settles.exists_ok (h : Settles bad x Q) (hbad : ¬ bad) : ∃ a, x = .ok a ∧ Q a :=
  (h.resolve_left fun hfail => hbad hfail.1).2

end Settles

/-! ## More fuel -/

/-- A computation that depends on its fuel only by running out of it. -/
def Mono (E : Nat → Exec ε α) : Prop := ∀ k k', k ≤ k' → Below (· = .fuel) (E k) (E k')

theorem mono_of_below (h : ∀ {k k'}, FuelFor (· = (.fuel : Stop ε)) k k' → Below (· = .fuel) (E k) (E k')) : Mono E :=
  fun _ _ hk => h (.inr ⟨hk, rfl⟩)

theorem Mono.cases (h : Mono E) {k k' : Nat} (hk : k ≤ k') : E k = .error .fuel ∨ E k = E k' := by
  rcases h k k' hk with ⟨_, rfl, he⟩ | he
  · exact .inl he
  · exact .inr he

theorem mono_const (x : Exec ε α) : Mono (fun _ => x) := fun _ _ _ => below_refl x

theorem mono_bind (hE : Mono E) (hF : ∀ a, Mono (F a)) : Mono (fun k => E k >>= fun a => F a k) :=
  fun k k' hk => below_bind (hE k k' hk) (fun a _ => hF a k k' hk)

theorem mono_loop {step : Nat → σ → Exec ε (Next σ ρ)} (h : ∀ s, Mono (fun k => step k s))
    (s : σ) : Mono (fun k => loop (step k) k s) :=
  fun k k' hk => below_loop (· = .fuel) (fun s => h s k k' hk) (.inr ⟨hk, rfl⟩) s

/-- A loop whose iterations need no fuel. -/
theorem mono_loop_const (step : σ → Exec ε (Next σ ρ)) (s : σ) : Mono (fun k => loop step k s) :=
  mono_loop (fun s => mono_const (step s)) s

/-! ## Outcomes -/

/-- With enough fuel, `E` gives `x`. -/
def Outcome (E : Nat → Exec ε α) (x : Exec ε α) : Prop := x ≠ .error .fuel ∧ ∃ k, E k = x

theorem Outcome.mono (hE : Mono E) (h : Outcome E x) : ∃ k, ∀ k', k ≤ k' → E k' = x := by
  obtain ⟨hx, k, hk⟩ := h
  refine ⟨k, fun k' hk' => ?_⟩
  rcases hE.cases hk' with he | he
  · exact absurd (hk.symm.trans he) hx
  · rw [← he, hk]

theorem Outcome.unique (hE : Mono E) {x y : Exec ε α} (hx : Outcome E x) (hy : Outcome E y) : x = y := by
  obtain ⟨k, hk⟩ := hx.mono hE
  obtain ⟨k', hk'⟩ := hy.mono hE
  rw [← hk (max k k') (Nat.le_max_left _ _), ← hk' (max k k') (Nat.le_max_right _ _)]

theorem outcome_const (hx : x ≠ .error .fuel) : Outcome (fun _ => x) x := ⟨hx, 0, rfl⟩

theorem Outcome.bind (hE : Mono E) (hF : ∀ a, Mono (F a)) {a : α} {y : Exec ε β} (h : Outcome E (.ok a)) (h' : Outcome (F a) y) :
    Outcome (fun k => E k >>= fun a => F a k) y := by
  obtain ⟨k, hk⟩ := h.mono hE
  obtain ⟨k', hk'⟩ := h'.mono (hF a)
  refine ⟨h'.1, max k k', ?_⟩
  dsimp only
  rw [hk _ (Nat.le_max_left _ _)]
  exact hk' _ (Nat.le_max_right _ _)

theorem Outcome.bind_fail {e : ε} (h : Outcome E (.error (.fail e))) :
    Outcome (fun k => E k >>= fun a => F a k) (.error (.fail e)) := by
  obtain ⟨-, k, hk⟩ := h
  refine ⟨by simp, k, ?_⟩
  dsimp only
  rw [hk]
  rfl

/-- A postcondition of a bind: failures of the first part have it, and so has what the
second part does with each value of the first. -/
theorem exists_outcome_bind (hE : Mono E) (hF : ∀ a, Mono (F a)) {P : Exec ε β → Prop} (h : ∃ x, Outcome E x)
    (hfail : ∀ e, P (.error (.fail e))) (hok : ∀ a, Outcome E (.ok a) → ∃ y, Outcome (F a) y ∧ P y) :
    ∃ y, Outcome (fun k => E k >>= fun a => F a k) y ∧ P y := by
  obtain ⟨x, hx⟩ := h
  match x, hx with
  | .error .fuel, hx => exact absurd rfl hx.1
  | .error (.fail e), hx => exact ⟨_, hx.bind_fail, hfail e⟩
  | .ok a, hx =>
    obtain ⟨y, hy, hP⟩ := hok a hx
    exact ⟨y, hx.bind hE hF hy, hP⟩

/-- A second part that needs no fuel. -/
theorem exists_outcome_then (hE : Mono E) (h : ∃ x, Outcome E x) (hf : ∀ a, f a ≠ .error .fuel) :
    ∃ y, Outcome (fun k => E k >>= f) y := by
  obtain ⟨y, hy, -⟩ := exists_outcome_bind hE (fun a => mono_const (f a)) h (P := fun _ => True)
    (fun _ => trivial) fun a _ => ⟨_, outcome_const (hf a), trivial⟩
  exact ⟨y, hy⟩

/-- The computation has no outcome: every amount of fuel is used up. -/
def Diverges (E : Nat → Exec ε α) : Prop := ∀ k, E k = .error .fuel

theorem not_diverges_iff : ¬ Diverges E ↔ ∃ x, Outcome E x := by
  constructor
  · intro h
    by_contra hn
    apply h
    intro k
    by_contra hk
    exact hn ⟨E k, hk, k, rfl⟩
  · rintro ⟨x, hx, k, hk⟩ h
    exact hx (hk.symm.trans (h k))

theorem Outcome.not_diverges (h : Outcome E x) : ¬ Diverges E := not_diverges_iff.mpr ⟨x, h⟩

theorem Diverges.bind_left (h : Diverges E) : Diverges (fun k => E k >>= fun a => F a k) := by
  intro k
  dsimp only
  rw [h k]
  rfl

/-! ## Loops -/

section

variable {step : Nat → σ → Exec ε (Next σ ρ)} {r : ρ} {s : σ}

theorem outcome_loop_done (h : ∀ s, Mono (fun k => step k s)) (hs : Outcome (fun k => step k s) (.ok (.done r))) :
    Outcome (fun k => loop (step k) k s) (.ok r) := by
  obtain ⟨k, hk⟩ := hs.mono (h s)
  refine ⟨by simp, k + 1, ?_⟩
  simp only [loop, hk (k + 1) (by omega)]

theorem outcome_loop_fail (h : ∀ s, Mono (fun k => step k s)) {e : ε} (hs : Outcome (fun k => step k s) (.error (.fail e))) :
    Outcome (fun k => loop (step k) k s) (.error (.fail e)) := by
  obtain ⟨k, hk⟩ := hs.mono (h s)
  refine ⟨by simp, k + 1, ?_⟩
  simp only [loop, hk (k + 1) (by omega)]

theorem outcome_loop_more (h : ∀ s, Mono (fun k => step k s)) {s s' : σ} {x : Exec ε ρ}
    (hs : Outcome (fun k => step k s) (.ok (.more s'))) (hx : Outcome (fun k => loop (step k) k s') x) :
    Outcome (fun k => loop (step k) k s) x := by
  obtain ⟨k, hk⟩ := hs.mono (h s)
  obtain ⟨k', hk'⟩ := hx.mono (mono_loop h s')
  refine ⟨hx.1, max k k' + 1, ?_⟩
  simp only [loop, hk (max k k' + 1) (by omega)]
  -- one unit of fuel pays for the first iteration; the rest of the loop does not miss it
  have hrest : loop (step (max k k')) (max k k') s' = x := hk' _ (Nat.le_max_right _ _)
  rcases below_loop (· = .fuel) (fun s => h s (max k k') (max k k' + 1) (Nat.le_succ _))
      (.inl (.refl (max k k'))) s' with ⟨_, rfl, he⟩ | he
  · exact absurd (hrest.symm.trans he) hx.1
  · rw [← he, hrest]

/-- A state at the loop head comes after `s` in the run of the loop. -/
def Iterates (step : Nat → σ → Exec ε (Next σ ρ)) : σ → σ → Prop :=
  Relation.ReflTransGen (fun s s' => Outcome (fun k => step k s) (.ok (.more s')))

/-- The first iteration of a run. -/
theorem Iterates.first (h : ∀ s, Mono (fun k => step k s)) {s t : σ} {x : Exec ε (Next σ ρ)}
    (ht : Iterates step s t) (hs : Outcome (fun k => step k s) x) :
    t = s ∨ ∃ s', x = .ok (.more s') ∧ Iterates step s' t := by
  rcases ht.cases_head with rfl | ⟨s', hs', hrest⟩
  · exact .inl rfl
  · exact .inr ⟨s', hs.unique (h s) hs', hrest⟩

/-- If every iteration reached has an outcome, and those that go on decrease a measure,
the loop has an outcome. -/
theorem loop_of_measure (step : Nat → σ → Exec ε (Next σ ρ)) (h : ∀ s, Mono (fun k => step k s)) (μ : σ → Nat) (s : σ)
    (hstep : ∀ s', Iterates step s s' → ∃ x, Outcome (fun k => step k s') x ∧
      ∀ s'', x = .ok (.more s'') → μ s'' < μ s') : ∃ x, Outcome (fun k => loop (step k) k s) x := by
  generalize hm : μ s = m
  induction m using Nat.strongRecOn generalizing s with
  | ind m ih =>
    obtain ⟨x, hx, hdec⟩ := hstep s .refl
    match x, hx, hdec with
    | .error .fuel, hx, _ => exact absurd rfl hx.1
    | .error (.fail e), hx, _ => exact ⟨_, outcome_loop_fail h hx⟩
    | .ok (.done r), hx, _ => exact ⟨_, outcome_loop_done h hx⟩
    | .ok (.more s'), hx, hdec =>
      obtain ⟨y, hy⟩ := ih (μ s') (hm ▸ hdec s' rfl) s' (fun s'' hs'' => hstep s'' (.head hx hs'')) rfl
      exact ⟨y, outcome_loop_more h hx hy⟩

/-- With any fuel, the iteration takes the step it takes with enough fuel or runs out. -/
theorem step_of_outcome (h : ∀ s, Mono (fun k => step k s)) {x : Exec ε (Next σ ρ)}
    (hs : Outcome (fun k => step k s) x) (k : Nat) : step k s = .error .fuel ∨ step k s = x := by
  obtain ⟨k0, hk0⟩ := hs.mono (h s)
  rcases (h s).cases (Nat.le_max_left k k0) with he | he
  · exact .inl he
  · exact .inr (he.trans (hk0 _ (Nat.le_max_right _ _)))

theorem loop_of_cycle (h : ∀ s, Mono (fun k => step k s)) (hs : Outcome (fun k => step k s) (.ok (.more s))) :
    Diverges (fun k => loop (step k) k s) := by
  have hk : ∀ k m, loop (step k) m s = .error .fuel := by
    intro k m
    induction m with
    | zero => rfl
    | succ m ih =>
      rcases step_of_outcome h hs k with he | he
      · simp only [loop, he]
      · simp only [loop, he, ih]
  exact fun k => hk k k

theorem loop_diverges_of_more (h : ∀ s, Mono (fun k => step k s)) {s s' : σ}
    (hs : Outcome (fun k => step k s) (.ok (.more s'))) (hd : Diverges (fun k => loop (step k) k s')) :
    Diverges (fun k => loop (step k) k s) := by
  intro k
  cases k with
  | zero => rfl
  | succ k =>
    have hrest : loop (step (k + 1)) k s' = .error .fuel := by
      rcases below_loop (· = .fuel) (fun s => below_refl (step (k + 1) s)) (.inr ⟨Nat.le_succ k, rfl⟩) s' with ⟨_, rfl, hl⟩ | hl
      · exact hl
      · exact hl.trans (hd (k + 1))
    rcases step_of_outcome h hs (k + 1) with he | he
    · simp only [loop, he]
    · simp only [loop, he, hrest]

theorem loop_diverges_of_step (hd : Diverges (fun k => step k s)) : Diverges (fun k => loop (step k) k s) := by
  intro k
  cases k with
  | zero => rfl
  | succ k =>
    have hfirst : step (k + 1) s = .error .fuel := hd (k + 1)
    simp only [loop, hfirst]

theorem loop_diverges_of_iterates (h : ∀ s, Mono (fun k => step k s)) {s s' : σ}
    (hi : Iterates step s s') (hd : Diverges (fun k => loop (step k) k s')) :
    Diverges (fun k => loop (step k) k s) := by
  induction hi using Relation.ReflTransGen.head_induction_on with
  | refl => exact hd
  | head hs _ ih => exact loop_diverges_of_more h hs ih

/-- What every iteration preserves holds at the last one. -/
theorem loop_invariant {step : σ → Exec ε (Next σ ρ)} {P : σ → Prop} {Q : ρ → Prop}
    (hmore : ∀ s s', P s → step s = .ok (.more s') → P s')
    (hdone : ∀ s r, P s → step s = .ok (.done r) → Q r) {k : Nat} (hs : P s) (h : loop step k s = .ok r) : Q r := by
  induction k generalizing s with
  | zero => cases h
  | succ k ih =>
    rw [loop] at h
    split at h
    · cases h
    · rename_i r' hstep
      cases h
      exact hdone s _ hs hstep
    · rename_i s' hstep
      exact ih (hmore s s' hs hstep) h

/-- A result comes from the last iteration. -/
theorem loop_result (step : Nat → σ → Exec ε (Next σ ρ)) {k : Nat} (h : loop (step k) k s = .ok r) :
    ∃ s', Iterates step s s' ∧ step k s' = .ok (.done r) := by
  have hm : ∀ m s, loop (step k) m s = .ok r → ∃ s', Iterates step s s' ∧ step k s' = .ok (.done r) := by
    intro m
    induction m with
    | zero =>
      intro s hs
      cases hs
    | succ m ih =>
      intro s hs
      rw [loop] at hs
      split at hs
      · cases hs
      · rename_i r' hr'
        cases hs
        exact ⟨s, .refl, hr'⟩
      rename_i s' hs'
      obtain ⟨s'', hi, hd⟩ := ih s' hs
      exact ⟨s'', .head ⟨by simp, k, hs'⟩ hi, hd⟩
  exact hm k s h

/-- A loop fails exactly when one of the iterations it reaches does. -/
theorem loop_fails_iff (h : ∀ s, Mono (fun k => step k s)) {e : ε} :
    (∃ k, loop (step k) k s = .error (.fail e)) ↔ ∃ s', Iterates step s s' ∧ ∃ k, step k s' = .error (.fail e) := by
  constructor
  · rintro ⟨k, hk⟩
    have hm : ∀ m s, loop (step k) m s = .error (.fail e) → ∃ s', Iterates step s s' ∧ ∃ k, step k s' = .error (.fail e) := by
      intro m
      induction m with
      | zero =>
        intro s hs
        cases hs
      | succ m ih =>
        intro s hs
        rw [loop] at hs
        split at hs
        · rename_i e' he'
          cases hs
          exact ⟨s, .refl, k, he'⟩
        · cases hs
        rename_i s' hs'
        obtain ⟨s'', hi, hf⟩ := ih s' hs
        exact ⟨s'', .head ⟨by simp, k, hs'⟩ hi, hf⟩
    exact hm k s hk
  · rintro ⟨s', hi, k, hk⟩
    have hout : Outcome (fun k => loop (step k) k s) (.error (.fail e)) := by
      induction hi using Relation.ReflTransGen.head_induction_on with
      | refl => exact outcome_loop_fail h ⟨by simp, k, hk⟩
      | head hs _ ih => exact outcome_loop_more h hs ih
    exact hout.2

end

end MbedCloud.Lib

