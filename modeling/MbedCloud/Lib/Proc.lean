import Mathlib.Tactic.Common

/-!
# Procedures that may fail

A procedure changes a state and returns a value or fails. The state that it leaves behind is kept
when it fails, as in a language without transactions.

* `bind_eq_ok`, `onError_eq_ok`, `failWith_eq_ok`, `each_cons_eq_ok` and so on: what a procedure that has
  succeeded has done, step by step.
* `Ends x s Q`: the rules for all ways to end. `Does x s F P E`: with a frame `F` that every step keeps.
  `Keeps I x`: the invariant rules.
* `Gives x s a Q`: the rules for a run that succeeds.
* `Meets calm C x s A F`: the rules for all ways to end, and that a run from a calm state succeeds.
-/

namespace MbedCloud.Lib

def Proc (σ ε α : Type) := σ → Except ε α × σ

namespace Proc

variable {σ τ ε ε' α β : Type}

/-! ## Definitions -/

def fail (e : ε) : Proc σ ε α := fun s => (.error e, s)

instance : Monad (Proc σ ε) where
  pure a := fun s => (.ok a, s)
  bind x f := fun s =>
    match x s with
    | (.ok a, s') => f a s'
    | (.error e, s') => (.error e, s')

def get (f : σ → α) : Proc σ ε α := fun s => (.ok (f s), s)

def modify (f : σ → σ) : Proc σ ε Unit := fun s => (.ok (), f s)

/-- The result of a procedure as a value. -/
def attempt (x : Proc σ ε α) : Proc σ ε' (Except ε α) := fun s => (.ok (x s).1, (x s).2)

/-- The same failure for all failures of a procedure. -/
def failWith (e : ε') (x : Proc σ ε α) : Proc σ ε' α := fun s =>
  match x s with
  | (.ok a, s') => (.ok a, s')
  | (.error _, s') => (.error e, s')

/-- What is done before a failure is passed on. -/
def onError (x : Proc σ ε α) (cleanup : Proc σ ε' Unit) : Proc σ ε α := fun s =>
  match x s with
  | (.ok a, s') => (.ok a, s')
  | (.error e, s') => (.error e, (cleanup s').2)

/-- A procedure on a part of the state. -/
def within (part : σ → τ) (put : τ → σ → σ) (x : Proc τ ε α) : Proc σ ε α := fun s => ((x (part s)).1, put (x (part s)).2 s)

def require (b : Bool) (e : ε) : Proc σ ε Unit := if b then pure () else fail e

def when (b : Bool) (x : Proc σ ε Unit) : Proc σ ε Unit := if b then x else pure ()

def each (f : α → Proc σ ε Unit) : List α → Proc σ ε Unit
  | [] => pure ()
  | a :: as => do
    f a
    each f as

/-! ## Success -/

section

variable {x : Proc σ ε α} {f : α → Proc σ ε β} {s s' : σ} {a : α} {b : β} {e : ε}

@[simp] theorem pure_eq_ok {a' : α} : (pure a : Proc σ ε α) s = (.ok a', s') ↔ a = a' ∧ s = s' := by
  show (Except.ok a, s) = _ ↔ _
  simp

theorem bind_apply (x : Proc σ ε α) (f : α → Proc σ ε β) (s : σ) : (x >>= f) s = match x s with
    | (.ok a, s') => f a s'
    | (.error e, s') => (.error e, s') := rfl

theorem bind_eq_ok : (x >>= f) s = (.ok b, s') ↔ ∃ a s1, x s = (.ok a, s1) ∧ f a s1 = (.ok b, s') := by
  rw [bind_apply]
  rcases x s with ⟨e | a, s1⟩ <;> simp

/-- The result of a run says how it ends. -/
theorem eq_of_result (h : (x s).1 = .ok a) : x s = (.ok a, (x s).2) := Prod.ext h rfl

theorem bind_of_ok (h : x s = (.ok a, s')) : (x >>= f) s = f a s' := by rw [bind_apply, h]

theorem bind_of_error (h : x s = (.error e, s')) : (x >>= f) s = (.error e, s') := by rw [bind_apply, h]

variable {u : Unit} {part : σ → τ} {put : τ → σ → σ} {y : Proc τ ε α} {c : Bool}

theorem modify_eq_ok {g : σ → σ} : (modify g : Proc σ ε Unit) s = (.ok u, s') ↔ g s = s' := by simp [modify]

theorem attempt_eq_ok {r : Except ε α} : (attempt x : Proc σ ε' (Except ε α)) s = (.ok r, s') ↔ x s = (r, s') := by
  simp [attempt, Prod.ext_iff]

theorem failWith_eq_ok {e' : ε'} : failWith e' x s = (.ok a, s') ↔ x s = (.ok a, s') := by
  unfold failWith
  rcases x s with ⟨e | a, s1⟩ <;> simp

theorem onError_eq_ok {c : Proc σ ε' Unit} : onError x c s = (.ok a, s') ↔ x s = (.ok a, s') := by
  unfold onError
  rcases x s with ⟨e | a, s1⟩ <;> simp

theorem within_eq_ok : within part put y s = (.ok a, s') ↔ ∃ t, y (part s) = (.ok a, t) ∧ put t s = s' := by
  constructor
  · intro h
    have hfst : (y (part s)).1 = .ok a := congrArg Prod.fst h
    have hsnd : put (y (part s)).2 s = s' := congrArg Prod.snd h
    exact ⟨(y (part s)).2, Prod.ext hfst rfl, hsnd⟩
  · rintro ⟨t, hy, rfl⟩
    rw [within, hy]

/-- The steps of a procedure on a part of the state. -/
theorem within_bind {g : α → Proc τ ε β} (hpart : ∀ t s, part (put t s) = t) (hput : ∀ t t' s, put t' (put t s) = put t' s) :
    within part put (y >>= g) = within part put y >>= fun a => within part put (g a) := by
  funext s
  cases hy : y (part s) with
  | mk r t =>
    have hstep : within part put y s = (r, put t s) := by rw [within, hy]
    cases r with
    | ok a => rw [bind_of_ok hstep, within, bind_of_ok hy, within, hpart, hput]
    | error e => rw [bind_of_error hstep, within, bind_of_error hy]

theorem require_eq_ok : (require c e : Proc σ ε Unit) s = (.ok u, s') ↔ c = true ∧ s = s' := by
  cases c with
  | true =>
    show (pure () : Proc σ ε Unit) s = (.ok u, s') ↔ _
    simp
  | false => exact ⟨nofun, fun h => nomatch h.1⟩

theorem when_eq_ok {y : Proc σ ε Unit} : when c y s = (.ok (), s') ↔ if c then y s = (.ok (), s') else s = s' := by
  cases c with
  | true => rfl
  | false =>
    show (pure () : Proc σ ε Unit) s = (.ok (), s') ↔ s = s'
    simp

theorem each_cons_eq_ok {g : α → Proc σ ε Unit} {as : List α} :
    each g (a :: as) s = (.ok (), s') ↔ ∃ s1, g a s = (.ok (), s1) ∧ each g as s1 = (.ok (), s') := by
  show (g a >>= fun _ => each g as) s = _ ↔ _
  rw [bind_eq_ok]
  constructor
  · rintro ⟨⟨⟩, s1, h1, h2⟩
    exact ⟨s1, h1, h2⟩
  · rintro ⟨s1, h1, h2⟩
    exact ⟨(), s1, h1, h2⟩

end

/-! ## All ways to end -/

/-- From `s` the procedure ends with `Q`, whether it fails or not. -/
def Ends (x : Proc σ ε α) (s : σ) (Q : Except ε α → σ → Prop) : Prop := Q (x s).1 (x s).2

namespace Ends

variable {x : Proc σ ε α} {f : α → Proc σ ε β} {s : σ} {Q R : Except ε α → σ → Prop} {e : ε} {b : Bool}

theorem bind {Q : Except ε β → σ → Prop} (hx : Ends x s R)
    (hok : ∀ a s', R (.ok a) s' → Ends (f a) s' Q) (herror : ∀ e s', R (.error e) s' → Q (.error e) s') :
    Ends (x >>= f) s Q := by
  unfold Ends at hx ⊢
  cases hxs : x s with
  | mk r s1 =>
    rw [hxs] at hx
    cases r with
    | ok a =>
      rw [bind_of_ok hxs]
      exact hok a s1 hx
    | error e =>
      rw [bind_of_error hxs]
      exact herror e s1 hx

theorem failWith {e' : ε'} {Q : Except ε' α → σ → Prop} (hx : Ends x s R)
    (hok : ∀ a s', R (.ok a) s' → Q (.ok a) s') (herror : ∀ e s', R (.error e) s' → Q (.error e') s') :
    Ends (Proc.failWith e' x) s Q := by
  unfold Ends Proc.failWith at *
  cases hxs : x s with
  | mk r s1 =>
    rw [hxs] at hx
    cases r with
    | ok a => exact hok a s1 hx
    | error e => exact herror e s1 hx

theorem onError {c : Proc σ ε' Unit} (hx : Ends x s R) (hok : ∀ a s', R (.ok a) s' → Q (.ok a) s')
    (herror : ∀ e s', R (.error e) s' → Q (.error e) (c s').2) : Ends (Proc.onError x c) s Q := by
  unfold Ends Proc.onError at *
  cases hxs : x s with
  | mk r s1 =>
    rw [hxs] at hx
    cases r with
    | ok a => exact hok a s1 hx
    | error e => exact herror e s1 hx

theorem require {Q : Except ε Unit → σ → Prop} (hok : b = true → Q (.ok ()) s)
    (herror : b = false → Q (.error e) s) : Ends (Proc.require b e : Proc σ ε Unit) s Q := by
  cases b with
  | true => exact hok rfl
  | false => exact herror rfl

theorem require_bind {y : Unit → Proc σ ε β} {Q : Except ε β → σ → Prop}
    (hok : b = true → Ends (y ()) s Q) (herror : b = false → Q (.error e) s) : Ends (Proc.require b e >>= y) s Q := by
  cases b with
  | true => exact hok rfl
  | false => exact herror rfl

/-- The result of a procedure decides how to go on. -/
theorem attempt_bind {y : Except ε α → Proc σ ε' β} {Q : Except ε' β → σ → Prop}
    (hx : Ends x s R) (hy : ∀ r s', R r s' → Ends (y r) s' Q) : Ends (Proc.attempt x >>= y) s Q := hy _ _ hx

theorem imp (hx : Ends x s R) (h : ∀ r s', R r s' → Q r s') : Ends x s Q := h _ _ hx

end Ends

/-! ## Frames -/

/-- From `s` the procedure ends with `F` in any case, with `P` if it succeeds and with `E` if it fails. -/
def Does (x : Proc σ ε α) (s : σ) (F : σ → Prop) (P : α → σ → Prop) (E : ε → σ → Prop) : Prop :=
  Ends x s fun r s' => F s' ∧
    match r with
    | .ok a => P a s'
    | .error e => E e s'

namespace Does

variable {x : Proc σ ε α} {f : α → Proc σ ε β} {s : σ} {F : σ → Prop} {P : α → σ → Prop} {E : ε → σ → Prop}

theorem bind {Q : β → σ → Prop} (hx : Does x s F P E) (hf : ∀ a s', F s' → P a s' → Does (f a) s' F Q E) :
    Does (x >>= f) s F Q E := Ends.bind hx (fun a s' h => hf a s' h.1 h.2) fun _ _ h => h

theorem imp {F' : σ → Prop} {P' : α → σ → Prop} (hx : Does x s F P E) (hF : ∀ s', F s' → F' s')
    (hP : ∀ a s', F s' → P a s' → P' a s') : Does x s F' P' E := by
  refine Ends.imp hx fun r s' h => ⟨hF s' h.1, ?_⟩
  cases r with
  | ok a => exact hP a s' h.1 h.2
  | error e => exact h.2

theorem failWith {e : ε'} {E' : ε' → σ → Prop} (hx : Does x s F P E) (hE : ∀ s', E' e s') :
    Does (Proc.failWith e x) s F P E' := Ends.failWith hx (fun _ _ h => h) fun _ s' h => ⟨h.1, hE s'⟩

theorem within {part : σ → τ} {put : τ → σ → σ} {y : Proc τ ε α}
    (h : Does y (part s) (fun t => F (put t s)) (fun a t => P a (put t s)) fun e t => E e (put t s)) :
    Does (Proc.within part put y) s F P E := h

end Does

/-! ## Invariants -/

/-- The procedure keeps a property of the state, whether it fails or not. -/
def Keeps (I : σ → Prop) (x : Proc σ ε α) : Prop := ∀ s, I s → I (x s).2

namespace Keeps

variable {I : σ → Prop} {x : Proc σ ε α} {f : α → Proc σ ε β}

theorem pure (a : α) : Keeps I (Pure.pure a : Proc σ ε α) := fun _ hs => hs

theorem get (g : σ → α) : Keeps I (Proc.get g : Proc σ ε α) := fun _ hs => hs

theorem ends (hx : Keeps I x) {s : σ} (hs : I s) : Ends x s fun _ s' => I s' := hx s hs

theorem bind (hx : Keeps I x) (hf : ∀ a, Keeps I (f a)) : Keeps I (x >>= f) :=
  fun _ hs => (hx.ends hs).bind (Q := fun _ s' => I s') (fun a _ h => hf a _ h) fun _ _ h => h

theorem failWith {e : ε'} (hx : Keeps I x) : Keeps I (Proc.failWith e x) :=
  fun _ hs => (hx.ends hs).failWith (Q := fun _ s' => I s') (fun _ _ h => h) fun _ _ h => h

theorem require (b : Bool) (e : ε) : Keeps I (Proc.require b e) :=
  fun _ hs => Ends.require (Q := fun _ s' => I s') (fun _ => hs) fun _ => hs

end Keeps

/-! ## Runs that succeed -/

/-- From `s` the procedure succeeds with `a`, in a state with `Q`. -/
def Gives (x : Proc σ ε α) (s : σ) (a : α) (Q : σ → Prop) : Prop := ∃ s', x s = (.ok a, s') ∧ Q s'

namespace Gives

variable {x : Proc σ ε α} {f : α → Proc σ ε β} {s : σ} {a : α} {b : β} {Q R : σ → Prop}

theorem pure (h : Q s) : Gives (Pure.pure a : Proc σ ε α) s a Q := ⟨s, rfl, h⟩

theorem modify {g : σ → σ} (h : Q (g s)) : Gives (Proc.modify g : Proc σ ε Unit) s () Q := ⟨g s, rfl, h⟩

theorem bind (hx : Gives x s a R) (hf : ∀ s', R s' → Gives (f a) s' b Q) : Gives (x >>= f) s b Q := by
  obtain ⟨s1, hs1, hR⟩ := hx
  obtain ⟨s2, hs2, hQ⟩ := hf s1 hR
  exact ⟨s2, (bind_of_ok hs1).trans hs2, hQ⟩

theorem failWith {e : ε'} (hx : Gives x s a Q) : Gives (Proc.failWith e x) s a Q := by
  obtain ⟨s', hs', hQ⟩ := hx
  exact ⟨s', failWith_eq_ok.mpr hs', hQ⟩

theorem onError {c : Proc σ ε' Unit} (hx : Gives x s a Q) : Gives (Proc.onError x c) s a Q := by
  obtain ⟨s', hs', hQ⟩ := hx
  exact ⟨s', onError_eq_ok.mpr hs', hQ⟩

theorem require {c : Bool} {e : ε} (hc : c = true) (h : Q s) : Gives (Proc.require c e : Proc σ ε Unit) s () Q :=
  ⟨s, require_eq_ok.mpr ⟨hc, rfl⟩, h⟩

theorem imp (hx : Gives x s a R) (h : ∀ s', R s' → Q s') : Gives x s a Q := by
  obtain ⟨s', hs', hR⟩ := hx
  exact ⟨s', hs', h s' hR⟩

/-- After a step that succeeds, the rest decides how a procedure ends. -/
theorem ends_bind {P : Except ε β → σ → Prop} (hx : Gives x s a R) (hf : ∀ s', R s' → Ends (f a) s' P) : Ends (x >>= f) s P := by
  obtain ⟨s1, hs1, hR⟩ := hx
  unfold Ends
  rw [bind_of_ok hs1]
  exact hf s1 hR

end Gives

/-! ## Runs that may fail -/

/-- From `s` the procedure succeeds with `A` or fails with `F`. It keeps `calm`, and if that holds and `C` does, it
succeeds. -/
def Meets (calm : σ → Prop) (C : Prop) (x : Proc σ ε α) (s : σ) (A : α → σ → Prop) (F : σ → Prop) : Prop :=
  Ends x s fun r s' => (calm s → calm s' ∧ (C → ∃ a, r = .ok a)) ∧
    match r with
    | .ok a => A a s'
    | .error _ => F s'

namespace Meets

variable {calm : σ → Prop} {C : Prop} {x : Proc σ ε α} {f : α → Proc σ ε β} {s : σ} {A A' : α → σ → Prop}
  {B : β → σ → Prop} {F F' : σ → Prop}

theorem pure {a : α} (h : A a s) : Meets calm C (Pure.pure a : Proc σ ε α) s A F := ⟨fun hs => ⟨hs, fun _ => ⟨a, rfl⟩⟩, h⟩

theorem get {g : σ → α} (h : A (g s) s) : Meets calm C (Proc.get g : Proc σ ε α) s A F := ⟨fun hs => ⟨hs, fun _ => ⟨_, rfl⟩⟩, h⟩

theorem modify {g : σ → σ} {A : Unit → σ → Prop} (hcalm : calm s → calm (g s)) (h : A () (g s)) :
    Meets calm C (Proc.modify g : Proc σ ε Unit) s A F := ⟨fun hs => ⟨hcalm hs, fun _ => ⟨_, rfl⟩⟩, h⟩

theorem require {b : Bool} {e : ε} {A : Unit → σ → Prop} (hC : C → b = true) (hok : b = true → A () s) (hF : F s) :
    Meets calm C (Proc.require b e : Proc σ ε Unit) s A F := by
  cases b with
  | true => exact .pure (hok rfl)
  | false => exact ⟨fun hs => ⟨hs, fun hc => nomatch hC hc⟩, hF⟩

theorem bind (hx : Meets calm C x s A F') (hf : ∀ a s', A a s' → Meets calm C (f a) s' B F)
    (hF : ∀ s', F' s' → F s') : Meets calm C (x >>= f) s B F := by
  unfold Meets Ends at hx ⊢
  cases hxs : x s with
  | mk r s1 =>
    rw [hxs] at hx
    obtain ⟨hcalm, hr⟩ := hx
    cases r with
    | ok a =>
      obtain ⟨hcalm', hr'⟩ := hf a s1 hr
      rw [bind_of_ok hxs]
      exact ⟨fun hs => hcalm' (hcalm hs).1, hr'⟩
    | error e =>
      rw [bind_of_error hxs]
      exact ⟨fun hs => ⟨(hcalm hs).1, fun hc => ((hcalm hs).2 hc).elim nofun⟩, hF s1 hr⟩

theorem imp (hx : Meets calm C x s A F) (hA : ∀ a s', A a s' → A' a s') (hF : ∀ s', F s' → F' s') : Meets calm C x s A' F' := by
  refine Ends.imp hx fun r s' hr => ⟨hr.1, ?_⟩
  cases r with
  | ok a => exact hA a s' hr.2
  | error e => exact hF s' hr.2

theorem failWith {e : ε'} (hx : Meets calm C x s A F) : Meets calm C (Proc.failWith e x) s A F :=
  Ends.failWith hx (fun a _ hr => ⟨fun hs => ⟨(hr.1 hs).1, fun _ => ⟨a, rfl⟩⟩, hr.2⟩)
    fun _ _ hr => ⟨fun hs => ⟨(hr.1 hs).1, fun hc => ((hr.1 hs).2 hc).elim nofun⟩, hr.2⟩

theorem onError {c : Proc σ ε' Unit} (hx : Meets calm C x s A F) (hF : ∀ s', F s' → F' (c s').2)
    (hcalm : ∀ s', calm s' → calm (c s').2) : Meets calm C (Proc.onError x c) s A F' :=
  Ends.onError hx (fun _ _ hr => hr)
    fun _ s' hr => ⟨fun hs => ⟨hcalm s' (hr.1 hs).1, fun hc => ((hr.1 hs).2 hc).elim nofun⟩, hF s' hr.2⟩

theorem ok {a : α} {s' : σ} (hx : Meets calm C x s A F) (h : x s = (.ok a, s')) : A a s' := by
  unfold Meets Ends at hx
  rw [h] at hx
  exact hx.2

theorem gives (hx : Meets calm C x s A F) (hcalm : calm s) (hC : C) : ∃ a, Gives x s a fun s' => A a s' ∧ calm s' := by
  obtain ⟨hcalm', hr⟩ := hx
  obtain ⟨a, ha⟩ := (hcalm' hcalm).2 hC
  rw [ha] at hr
  exact ⟨a, _, eq_of_result ha, hr, (hcalm' hcalm).1⟩

end Meets

end Proc

end MbedCloud.Lib

