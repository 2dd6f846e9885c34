import Mathlib.Data.List.Basic

/-!
# Traces

What has happened in a run is a list of entries, the oldest first. `InOrder` says that entries of some kinds
are in it in this order, `Since` that this is so after the last entry of another kind, and `Each` that a
property holds of each entry and the trace before it.
-/

namespace MbedCloud.Lib

open List

variable {ε : Type}

def InOrder : List (ε → Prop) → List ε → Prop
  | [], _ => True
  | p :: ps, es => ∃ before e after, es = before ++ e :: after ∧ p e ∧ InOrder ps after

/-- `InOrder` after the last entry that is a mark. -/
def Since (mark : ε → Prop) (ps : List (ε → Prop)) (es : List ε) : Prop :=
  ∃ before e after, es = before ++ e :: after ∧ mark e ∧ (∀ x ∈ after, ¬ mark x) ∧ InOrder ps after

/-- A property of each entry and what was before it. -/
def Each (P : List ε → ε → Prop) (es : List ε) : Prop := ∀ before e after, es = before ++ e :: after → P before e

variable {ps : List (ε → Prop)} {es : List ε} {e : ε}

section InOrder

variable {p : ε → Prop}

theorem InOrder.append (h : InOrder ps es) (more : List ε) : InOrder ps (es ++ more) := by
  induction ps generalizing es with
  | nil => trivial
  | cons p ps ih =>
    obtain ⟨before, e, after, rfl, hp, hps⟩ := h
    exact ⟨before, e, after ++ more, by simp, hp, ih hps⟩

theorem InOrder.snoc (h : InOrder ps es) (hp : p e) : InOrder (ps ++ [p]) (es ++ [e]) := by
  induction ps generalizing es with
  | nil => exact ⟨es, e, [], rfl, hp, trivial⟩
  | cons q ps ih =>
    obtain ⟨before, x, after, rfl, hq, hps⟩ := h
    exact ⟨before, x, after ++ [e], by simp, hq, ih hps⟩

end InOrder

section Since

variable {mark p : ε → Prop}

theorem Since.start (h : mark e) : Since mark [] (es ++ [e]) := ⟨es, e, [], rfl, h, (by simp), trivial⟩

theorem Since.marked (h : Since mark ps es) : Since mark [] es := by
  obtain ⟨before, x, after, heq, hx, hafter, -⟩ := h
  exact ⟨before, x, after, heq, hx, hafter, trivial⟩

theorem Since.append (h : Since mark ps es) {more : List ε} (hmore : ∀ x ∈ more, ¬ mark x) : Since mark ps (es ++ more) := by
  obtain ⟨before, x, after, rfl, hx, hafter, hps⟩ := h
  refine ⟨before, x, after ++ more, by simp, hx, ?_, hps.append more⟩
  intro y hy
  rcases mem_append.mp hy with hy | hy
  · exact hafter y hy
  · exact hmore y hy

theorem Since.snoc (h : Since mark ps es) (he : ¬ mark e) (hp : p e) : Since mark (ps ++ [p]) (es ++ [e]) := by
  obtain ⟨before, x, after, rfl, hx, hafter, hps⟩ := h
  refine ⟨before, x, after ++ [e], by simp, hx, ?_, hps.snoc hp⟩
  intro y hy
  rcases mem_append.mp hy with hy | hy
  · exact hafter y hy
  · rw [mem_singleton.mp hy]
    exact he

end Since

section Each

variable {P : List ε → ε → Prop}

theorem Each.nil : Each P [] := by
  intro before e after h
  cases before <;> cases h

theorem Each.snoc (h : Each P es) (he : P es e) : Each P (es ++ [e]) := by
  intro before x after heq
  rcases eq_nil_or_concat' after with rfl | ⟨after, y, rfl⟩
  · obtain ⟨rfl, hx⟩ := append_inj' heq rfl
    cases hx
    exact he
  rw [← cons_append, ← append_assoc] at heq
  obtain ⟨heq, -⟩ := append_inj' heq rfl
  exact h before x after heq

theorem Each.append (h : Each P es) {more : List ε} (hmore : ∀ x ∈ more, ∀ before, P before x) : Each P (es ++ more) := by
  induction more generalizing es with
  | nil =>
    rw [append_nil]
    exact h
  | cons x more ih =>
    rw [append_cons]
    exact ih (h.snoc (hmore x (.head _) es)) fun y hy => hmore y (mem_cons_of_mem x hy)

end Each

end MbedCloud.Lib

