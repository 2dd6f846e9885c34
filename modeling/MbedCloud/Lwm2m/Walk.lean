import Mathlib.Data.List.Perm.Subperm
import MbedCloud.Lwm2m.Deserializer

/-!
# Walks over the entries

The run of a recursive function of the deserializer over a payload: the entries it visits depend on
the payload alone (`Visits`), and are no more than it has bytes. A walk that has enough fuel for them
keeps what each entry keeps (`Visits.yields`), and a walk that ends has visited entries
(`yields_walk`). The error is that of the last entry.
-/

namespace MbedCloud.Lwm2m

open Lib List

/-! ## Visited entries -/

/-- A walk from the offset visits these entries: it ends at an entry at which the function returns,
or at the last one that starts inside the payload. -/
inductive Visits (tlv : Bytes) (returns : EntryType → Bool) : Nat → List TypeIdLength → Prop
  | last {o : Nat} {t : TypeIdLength} : typeIdLength tlv o = .ok t →
      returns t.type = true ∨ ¬ t.next < tlv.length → Visits tlv returns o [t]
  | more {o : Nat} {t : TypeIdLength} {ts : List TypeIdLength} : typeIdLength tlv o = .ok t →
      returns t.type = false → t.next < tlv.length → Visits tlv returns t.next ts →
      Visits tlv returns o (t :: ts)

section Visits

variable {tlv : Bytes} {returns : EntryType → Bool} {o : Nat} {ts : List TypeIdLength}

theorem Visits.unique {ts' : List TypeIdLength} (hv : Visits tlv returns o ts) (hv' : Visits tlv returns o ts') : ts = ts' := by
  induction hv generalizing ts' with
  | last ht hend =>
    cases hv' with
    | last ht' _ =>
      cases ht.symm.trans ht'
      rfl
    | more ht' hreturns hnext _ =>
      cases ht.symm.trans ht'
      simp [hreturns, hnext] at hend
  | more ht hreturns hnext _ ih =>
    cases hv' with
    | last ht' hend =>
      cases ht.symm.trans ht'
      simp [hreturns, hnext] at hend
    | more ht' _ _ hrest =>
      cases ht.symm.trans ht'
      rw [ih hrest]

/-- No offset is visited twice, so there are not more entries than bytes, the first one apart. -/
theorem Visits.length_le (hv : Visits tlv returns o ts) : ts.length ≤ tlv.length + 1 := by
  have hoffsets : ∃ os : List Nat, os.length + 1 = ts.length ∧ os.Nodup ∧
      ∀ o ∈ os, o < tlv.length ∧ ∃ ts', Visits tlv returns o ts' ∧ ts'.length < ts.length := by
    induction hv with
    | last => exact ⟨[], rfl, nodup_nil, forall_mem_nil _⟩
    | @more o t ts _ _ hnext hrest ih =>
      obtain ⟨os, hlength, hnodup, hos⟩ := ih
      refine ⟨t.next :: os, congrArg (· + 1) hlength, nodup_cons.mpr ⟨fun hmem => ?_, hnodup⟩, ?_⟩
      · obtain ⟨-, ts', hv', hlt⟩ := hos _ hmem
        exact Nat.lt_irrefl _ (hrest.unique hv' ▸ hlt)
      refine forall_mem_cons.mpr ⟨⟨hnext, ts, hrest, Nat.lt_succ_self _⟩, fun o ho => ?_⟩
      obtain ⟨hlt, ts', hv', hlt'⟩ := hos o ho
      exact ⟨hlt, ts', hv', Nat.lt_succ_of_lt hlt'⟩
  obtain ⟨os, hlength, hnodup, hos⟩ := hoffsets
  have hsub : os ⊆ List.range tlv.length := fun o ho => mem_range.mpr (hos o ho).1
  have hle := (subperm_of_subset hnodup hsub).length_le
  rw [length_range] at hle
  omega

end Visits

theorem getLast?_cons_of_some {α : Type} {a b : α} {l : List α} (h : l.getLast? = some b) : (a :: l).getLast? = some b := by
  rw [List.getLast?_cons, h, Option.getD_some]

/-! ## Walks -/

/-- There is fuel for all walks over the payload, or running out of it is a loss. -/
def Fueled (lost : Stop Fault → Prop) (tlv : Bytes) (k : Nat) : Prop := lost .fuel ∨ tlv.length + 2 ≤ k

/-- The same for a walk from an offset to the end of the payload. -/
def FueledFrom (lost : Stop Fault → Prop) (tlv : Bytes) (o k : Nat) : Prop := lost .fuel ∨ tlv.length < o + k

theorem Fueled.behind {lost : Stop Fault → Prop} {tlv : Bytes} {k : Nat} (h : Fueled lost tlv k)
    (o : Nat) : FueledFrom lost tlv o k := h.imp_right (by omega)

theorem fueled_any (tlv : Bytes) (k : Nat) : Fueled (fun _ => True) tlv k := .inl trivial

section Walks

variable {σ : Type} {tlv : Bytes} {returns : EntryType → Bool} {lost : Stop Fault → Prop}
  {o k : Nat} {s : σ} {r : Error × σ} {ts : List TypeIdLength}

/-- One entry, and the rest of the walk. -/
theorem walk_succ (handle : TypeIdLength → σ → Exec Fault (Error × σ)) :
    walk (k + 1) tlv returns handle o s = typeIdLength tlv o >>= fun t => handle t s >>= fun r =>
      if !returns t.type && decide (t.next < tlv.length) then walk k tlv returns handle t.next r.2
      else pure r := by
  rw [walk, loop, walkStep]
  cases typeIdLength tlv o with
  | error e => rfl
  | ok t =>
    simp only [ok_bind]
    cases handle t s with
    | error e => rfl
    | ok r => cases !returns t.type && decide (t.next < tlv.length) <;> rfl

/-- A walk over entries that are visited, with an invariant for those that have been handled. -/
theorem Visits.yields (hv : Visits tlv returns o ts) (hk : Fueled lost tlv k)
    {handle : TypeIdLength → σ → Exec Fault (Error × σ)} (R : List TypeIdLength → σ → Prop) (E : Error → Prop)
    (hstep : ∀ pre t post, ts = pre ++ t :: post → ∀ s, R pre s →
      Yields lost (handle t s) fun r => R (pre ++ [t]) r.2 ∧ (post = [] → E r.1)) (hs : R [] s) :
    Yields lost (walk k tlv returns handle o s) fun r => R ts r.2 ∧ E r.1 := by
  have hlength : lost .fuel ∨ ts.length ≤ k := hk.imp_right (by have := hv.length_le; omega)
  -- the part of the walk after the entries `done`
  suffices hwalk : ∀ {o todo}, Visits tlv returns o todo → ∀ done k s, ts = done ++ todo →
      lost .fuel ∨ todo.length ≤ k → R done s →
      Yields lost (walk k tlv returns handle o s) fun r => R ts r.2 ∧ E r.1 from
    hwalk hv [] k s rfl hlength hs
  intro o todo hv
  induction hv with
  | @last o t ht hend =>
    intro done k s hts hk hs
    cases k with
    | zero => exact .inl ⟨.fuel, hk.resolve_right (by simp), rfl⟩
    | succ k =>
      rw [walk_succ, ht, ok_bind]
      refine yields_bind (hstep done t [] hts s hs) fun r hr => ?_
      rw [if_neg (by simpa [imp_iff_not_or] using hend), hts]
      exact yields_pure ⟨hr.1, hr.2 rfl⟩
  | @more o t todo ht hreturns hnext _ ih =>
    intro done k s hts hk hs
    cases k with
    | zero => exact .inl ⟨.fuel, hk.resolve_right (by simp), rfl⟩
    | succ k =>
      rw [walk_succ, ht, ok_bind]
      refine yields_bind (hstep done t todo hts s hs) fun r hr => ?_
      rw [if_pos (by simp [hreturns, hnext])]
      exact ih (done ++ [t]) k r.2 (by rw [hts, append_cons]) (hk.imp_right Nat.le_of_succ_le_succ) hr.1

/-- What every entry keeps holds at the end, and the error is that of the last entry. -/
theorem Visits.yields_last (hv : Visits tlv returns o ts) (hk : Fueled lost tlv k)
    {handle : TypeIdLength → σ → Exec Fault (Error × σ)} (P : σ → Prop) (Q : TypeIdLength → Error → Prop)
    (hstep : ∀ t ∈ ts, ∀ s, P s → Yields lost (handle t s) fun r => P r.2 ∧ Q t r.1) (hs : P s) :
    Yields lost (walk k tlv returns handle o s) fun r => P r.2 ∧ ∃ l, ts.getLast? = some l ∧ Q l r.1 := by
  refine hv.yields hk (fun _ => P) (fun e => ∃ l, ts.getLast? = some l ∧ Q l e) ?_ hs
  intro pre t post hts s hs
  refine (hstep t (hts ▸ mem_append_cons_self) s hs).imp fun r hr => ⟨hr.1, ?_⟩
  rintro rfl
  exact ⟨t, by rw [hts]; exact getLast?_concat, hr.2⟩

/-- A walk that is not lost has visited entries; each of them has been handled with the property. -/
theorem yields_walk (returns : EntryType → Bool) {handle : TypeIdLength → σ → Exec Fault (Error × σ)} {F : σ → Prop}
    {G : TypeIdLength → Error → Prop} (hfuel : lost .fuel) (hread : ∀ o, Yields lost (typeIdLength tlv o) fun _ => True)
    (hhandle : ∀ o t s, typeIdLength tlv o = .ok t → F s →
      Yields lost (handle t s) fun r => F r.2 ∧ G t r.1) (k o : Nat) (hs : F s) :
    Yields lost (walk k tlv returns handle o s) fun r => F r.2 ∧
      ∃ ts l, Visits tlv returns o ts ∧ (∀ t ∈ ts, ∃ e, G t e) ∧ ts.getLast? = some l ∧ G l r.1 := by
  induction k generalizing o s with
  | zero => exact .inl ⟨.fuel, hfuel, rfl⟩
  | succ k ih =>
    rw [walk_succ]
    refine yields_bind (hread o).ok fun t ht => yields_bind (hhandle o t s ht.1 hs) fun r hr => ?_
    split
    · rename_i hmore
      rw [Bool.and_eq_true, Bool.not_eq_true', decide_eq_true_eq] at hmore
      refine (ih t.next hr.1).imp ?_
      rintro r' ⟨hF, ts, l, hv, hts, hl, hG⟩
      exact ⟨hF, t :: ts, l, .more ht.1 hmore.1 hmore.2 hv, forall_mem_cons.mpr ⟨⟨r.1, hr.2⟩, hts⟩, getLast?_cons_of_some hl, hG⟩
    · rename_i hdone
      refine yields_pure ⟨hr.1, [t], t, .last ht.1 ?_, forall_mem_singleton.mpr ⟨r.1, hr.2⟩, rfl, hr.2⟩
      simpa [imp_iff_not_or] using hdone

/-- A walk with a result has visited entries; each of them has been handled in a state with what the
entries keep, and the error is that of the last one. -/
theorem walk_inv (handle : TypeIdLength → σ → Exec Fault (Error × σ)) {P : σ → Prop}
    (hkeep : ∀ t s e s', P s → handle t s = .ok (e, s') → P s') (hs : P s)
    (hok : walk k tlv returns handle o s = .ok r) :
    P r.2 ∧ ∃ ts l, Visits tlv returns o ts ∧
      (∀ t ∈ ts, ∃ e s s', P s ∧ handle t s = .ok (e, s')) ∧ ts.getLast? = some l ∧ ∃ s s', P s ∧ handle l s = .ok (r.1, s') := by
  have hhandle : ∀ o t s, typeIdLength tlv o = .ok t → P s → Yields (fun _ => True) (handle t s)
      fun r => P r.2 ∧ ∃ s s', P s ∧ handle t s = .ok (r.1, s') := fun _ t s _ hs =>
    yields_of_ok fun r hr => ⟨hkeep t s r.1 r.2 hs hr, s, r.2, hs, hr⟩
  have hwalk := (yields_walk returns (G := fun t e => ∃ s s', P s ∧ handle t s = .ok (e, s')) trivial
    (fun _ => yields_of_ok fun _ _ => trivial) hhandle k o hs).of_eq hok
  exact hwalk

end Walks

/-- The resources that an entry is for, one after the other: what each of them keeps holds at the
end, and the error is that of the last one. -/
theorem yields_eachMultiple {env : Env} {tlv : Bytes} {op : Operation} {update : Bool}
    {lost : Stop Fault → Prop} {k o : Nat} {offsets indices : List Nat} {r : Error × ObjectInstance}
    {P : ObjectInstance → Prop} {Q : Nat → Error → Prop} (hne : indices ≠ [])
    (hstep : ∀ i ∈ indices, ∀ s, P s → Yields lost
      (resourceInstances env tlv op update k offsets o i s) fun x => P x.2 ∧ Q i x.1) (hr : P r.2) :
    Yields lost (eachMultiple env tlv op update k offsets o indices r) fun x =>
      P x.2 ∧ ∃ i, indices.getLast? = some i ∧ Q i x.1 := by
  induction indices generalizing r with
  | nil => exact absurd rfl hne
  | cons i rest ih =>
    refine yields_bind (hstep i (.head _) r.2 hr) fun x hx => ?_
    cases rest with
    | nil => exact yields_pure ⟨hx.1, i, rfl, hx.2⟩
    | cons j rest =>
      refine (ih (cons_ne_nil _ _) (fun i hi => hstep i (.tail _ hi)) hx.1).imp ?_
      rintro y ⟨hP, l, hl, hQ⟩
      exact ⟨hP, l, getLast?_cons_of_some hl, hQ⟩

end MbedCloud.Lwm2m

