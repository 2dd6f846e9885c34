import Mathlib.Data.List.Nodup
import MbedCloud.Nvm.Helper

/-!
# The queue of the NVM helper

The requests that wait for their callbacks, from the one that is worked on to the last one that has come, and what the functions of
the module do to them.
-/

namespace MbedCloud.Nvm

open List

/-! ## The queue -/

/-- A request that no platform call has been made for. -/
def Op.Unstarted (op : Op) : Prop := op = .keyRead ∨ op = .keyWrite ∨ op = .keyDelete

/-- A block of a request that has been accepted. -/
def Serves (s : State) (x : Nat × Args) : Prop :=
  ∃ b, s.blocks x.1 = some b ∧ b.args = x.2 ∧ b.operation ≠ .init ∧ b.args.callback.isSome = true

/-- The requests that wait for their callbacks, and the blocks besides: there are no other blocks, and the requests are those that
have been accepted and have had no callback. -/
structure Holds (s : State) (queue : List (Nat × Args)) (extra : List Nat) : Prop where
  block : ∀ x ∈ queue, Serves s x
  live : ∀ a, (s.blocks a).isSome = true → a ∈ queue.map Prod.fst ++ extra
  distinct : (queue.map Prod.fst ++ extra).Nodup
  accepted : s.accepted = (s.called.map fun c => (c.request, c.args)) ++ queue
  below : ∀ a ∈ s.accepted.map Prod.fst ++ extra, a < s.next
  nodup : (s.accepted.map Prod.fst).Nodup

structure Pending (s : State) (queue : List (Nat × Args)) : Prop where
  pending : s.pending = queue.map Prod.fst
  unstarted : ∀ x ∈ queue, ∀ b, s.blocks x.1 = some b → b.operation.Unstarted

section Queue

variable {s s' : State} {queue : List (Nat × Args)} {first : Nat × Args} {extra : List Nat} {r : Nat} {b : Block}

theorem State.block_eq (hb : s.blocks r = some b) : s.block r = .ok b := by
  unfold State.block
  rw [hb]

theorem State.put_self (s : State) (r : Nat) (b : Option Block) : (s.put r b).blocks r = b := if_pos rfl

theorem State.put_of_ne (s : State) {r a : Nat} (hne : a ≠ r) (b : Option Block) : (s.put r b).blocks a = s.blocks a := if_neg hne

theorem State.isSome_put {s : State} {r a : Nat} {b : Option Block} (ha : ((s.put r b).blocks a).isSome = true) :
    (a = r ∧ b.isSome = true) ∨ (a ≠ r ∧ (s.blocks a).isSome = true) := by
  by_cases har : a = r
  · rw [har, put_self] at ha
    exact .inl ⟨har, ha⟩
  · rw [put_of_ne s har] at ha
    exact .inr ⟨har, ha⟩

theorem free_eq (hb : s.blocks r = some b) : free s r = .ok (s.put r none) := by
  unfold free
  rw [State.block_eq hb]
  rfl

section

variable (hholds : Holds s queue extra)
include hholds

theorem Holds.lt_next {a : Nat} (ha : a ∈ queue.map Prod.fst ++ extra) : a < s.next := by
  apply hholds.below
  rw [hholds.accepted, map_append, append_assoc]
  exact mem_append_right _ ha

theorem Holds.block_below {x : Nat × Args} (hx : x ∈ queue) : x.1 < s.next :=
  hholds.lt_next (mem_append_left _ (mem_map_of_mem hx))

theorem Holds.next_notMem : s.next ∉ s.accepted.map Prod.fst :=
  fun hmem => Nat.lt_irrefl _ (hholds.below _ (mem_append_left _ hmem))

theorem Holds.apart {a : Nat} (ha : a ∈ extra) {x : Nat × Args} (hx : x ∈ queue) : x.1 ≠ a :=
  (nodup_append.mp hholds.distinct).2.2 x.1 (mem_map_of_mem hx) a ha

/-- The queue does not depend on the variables of the module and on the platform. -/
theorem Holds.congr (hblocks : s'.blocks = s.blocks) (hnext : s'.next = s.next)
    (haccepted : s'.accepted = s.accepted) (hcalled : s'.called = s.called) : Holds s' queue extra := by
  obtain ⟨hblock, hlive, hdistinct, hqueue, hbelow, hnodup⟩ := hholds
  unfold Serves at hblock
  rw [← hblocks] at hblock hlive
  rw [← haccepted] at hqueue hbelow hnodup
  rw [← hnext] at hbelow
  rw [← hcalled] at hqueue
  exact ⟨hblock, hlive, hdistinct, hqueue, hbelow, hnodup⟩

theorem Holds.setOperation (hr : r ∈ queue.map Prod.fst) (hb : s.blocks r = some b) {op : Op}
    (hop : op ≠ .init) : Holds (s.put r (some { b with operation := op })) queue extra where
  block := by
    intro x hx
    unfold Serves
    by_cases hxr : x.1 = r
    · obtain ⟨b', hb', hargs, -, hcallback⟩ := hholds.block x hx
      rw [hxr, hb] at hb'
      cases hb'
      rw [hxr]
      exact ⟨_, State.put_self s r _, hargs, hop, hcallback⟩
    · rw [State.put_of_ne s hxr]
      exact hholds.block x hx
  live := by
    intro a ha
    rcases State.isSome_put ha with ⟨rfl, -⟩ | ⟨-, ha⟩
    · exact mem_append_left _ hr
    · exact hholds.live a ha
  __ := hholds

/-- The order of the blocks besides the requests does not matter. -/
theorem Holds.perm {extra' : List Nat} (hperm : extra'.Perm extra) : Holds s queue extra' where
  live := fun a ha => (hperm.append_left _).mem_iff.mpr (hholds.live a ha)
  distinct := (hperm.append_left _).nodup_iff.mpr hholds.distinct
  below := fun a ha => hholds.below a ((hperm.append_left _).mem_iff.mp ha)
  __ := hholds

end

theorem Holds.free_extra (hholds : Holds s queue (r :: extra)) : Holds (s.put r none) queue extra where
  block := by
    intro x hx
    unfold Serves
    rw [State.put_of_ne s (hholds.apart (.head _) hx)]
    exact hholds.block x hx
  live := by
    intro a ha
    obtain ⟨har, ha⟩ := (State.isSome_put ha).resolve_left fun hnone => Bool.false_ne_true hnone.2
    exact (mem_cons.mp (perm_middle.mem_iff.mp (hholds.live a ha))).resolve_left har
  distinct := (nodup_cons.mp (nodup_middle.mp hholds.distinct)).2
  below := fun a ha => hholds.below a (perm_middle.mem_iff.mpr (.tail _ ha))
  __ := hholds

theorem Holds.callback (hholds : Holds s (first :: queue) extra) (code : Code) :
    Holds { s with called := s.called ++ [⟨first.1, first.2, code⟩] } queue (first.1 :: extra) where
  block := fun x hx => hholds.block x (.tail _ hx)
  live := fun a ha => perm_middle.mem_iff.mpr (hholds.live a ha)
  distinct := nodup_middle.mpr hholds.distinct
  accepted := by
    rw [map_append, append_assoc]
    exact hholds.accepted
  below := by
    intro a ha
    rcases mem_cons.mp (perm_middle.mem_iff.mp ha) with rfl | ha
    · exact hholds.block_below (.head _)
    · exact hholds.below a ha
  nodup := hholds.nodup

theorem Holds.create (hholds : Holds s queue extra) (b : Block) (allocs : Nat) :
    Holds { s.put s.next (some b) with next := s.next + 1, allocs := allocs } queue (s.next :: extra) where
  block := by
    intro x hx
    unfold Serves
    rw [State.put_of_ne s (Nat.ne_of_lt (hholds.block_below hx))]
    exact hholds.block x hx
  live := by
    intro a ha
    apply perm_middle.mem_iff.mpr
    rcases State.isSome_put ha with ⟨rfl, -⟩ | ⟨-, ha⟩
    · exact .head _
    · exact .tail _ (hholds.live a ha)
  distinct := nodup_middle.mpr (nodup_cons.mpr ⟨fun hmem => Nat.lt_irrefl _ (hholds.lt_next hmem), hholds.distinct⟩)
  below := by
    intro a ha
    rcases mem_cons.mp (perm_middle.mem_iff.mp ha) with rfl | ha
    · exact Nat.lt_succ_self _
    · exact Nat.lt_succ_of_lt (hholds.below a ha)
  __ := hholds

/-- The request of a block is accepted, which none has been before. -/
theorem Holds.accept (hholds : Holds s queue (r :: extra)) {args : Args} (hserves : Serves s (r, args))
    (hnew : r ∉ s.accepted.map Prod.fst) :
    Holds { s with accepted := s.accepted ++ [(r, args)] } (queue ++ [(r, args)]) extra := by
  have hids (l : List (Nat × Args)) : (l ++ [(r, args)]).map Prod.fst ++ extra = l.map Prod.fst ++ r :: extra := by
    rw [map_append, append_assoc]
    rfl
  refine ⟨fun x hx => ?_, ?_, ?_, ?_, ?_, ?_⟩
  · rcases mem_append.mp hx with hx | hx
    · exact hholds.block x hx
    · exact mem_singleton.mp hx ▸ hserves
  · rw [hids]
    exact hholds.live
  · rw [hids]
    exact hholds.distinct
  · rw [hholds.accepted, append_assoc]
  · rw [hids]
    exact hholds.below
  · rw [map_append]
    refine nodup_append.mpr ⟨hholds.nodup, nodup_singleton _, fun a ha a' ha' heq => ?_⟩
    rw [heq, mem_singleton.mp ha'] at ha
    exact hnew ha

end Queue

/-! ## Requests while another one is worked on -/

/-- Requests have been added to the queue, and nothing else has happened. -/
structure Queued (s s' : State) (new : List (Nat × Args)) : Prop where
  outstanding : s'.outstanding = s.outstanding
  inProgress : s'.inProgress = s.inProgress
  initialized : s'.initialized = s.initialized
  called : s'.called = s.called
  platformCalls : s'.platformCalls = s.platformCalls
  accepted : s'.accepted = s.accepted ++ new
  next : s.next ≤ s'.next
  blocks : ∀ a, a < s.next → s'.blocks a = s.blocks a
  holds : ∀ first queue extra, Holds s (first ++ queue) extra → Pending s queue →
    Holds s' (first ++ (queue ++ new)) extra ∧ Pending s' (queue ++ new)

section Queued

variable {env : Env} {s s' s'' : State} {new new' : List (Nat × Args)} {args : Args} {operation : Op}

theorem Queued.trans (h : Queued s s' new) (h' : Queued s' s'' new') : Queued s s'' (new ++ new') where
  outstanding := h'.outstanding.trans h.outstanding
  inProgress := h'.inProgress.trans h.inProgress
  initialized := h'.initialized.trans h.initialized
  called := h'.called.trans h.called
  platformCalls := h'.platformCalls.trans h.platformCalls
  accepted := by rw [h'.accepted, h.accepted, append_assoc]
  next := Nat.le_trans h.next h'.next
  blocks := fun a ha => (h'.blocks a (Nat.lt_of_lt_of_le ha h.next)).trans (h.blocks a ha)
  holds := by
    intro first queue extra hholds hpending
    obtain ⟨hholds', hpending'⟩ := h.holds first queue extra hholds hpending
    rw [← append_assoc queue]
    exact h'.holds first _ extra hholds' hpending'

theorem Queued.allocs (s : State) (allocs : Nat) : Queued s { s with allocs := allocs } [] where
  outstanding := rfl
  inProgress := rfl
  initialized := rfl
  called := rfl
  platformCalls := rfl
  accepted := (append_nil _).symm
  next := Nat.le_refl _
  blocks := fun _ _ => rfl
  holds := fun _ queue _ hholds hpending =>
    (append_nil queue).symm ▸ ⟨hholds.congr rfl rfl rfl rfl, hpending.pending, hpending.unstarted⟩

theorem Queued.refl (s : State) : Queued s s [] := .allocs s s.allocs

theorem Queued.add (s : State) (hoperation : operation.Unstarted) (hcallback : args.callback.isSome = true) (allocs : Nat) :
    Queued s { s.put s.next (some ⟨args, operation, none⟩) with
        next := s.next + 1
        allocs := allocs
        pending := s.pending ++ [s.next]
        accepted := s.accepted ++ [(s.next, args)] } [(s.next, args)] where
  outstanding := rfl
  inProgress := rfl
  initialized := rfl
  called := rfl
  platformCalls := rfl
  accepted := rfl
  next := Nat.le_succ _
  blocks := fun a ha => State.put_of_ne s (Nat.ne_of_lt ha) _
  holds := by
    intro first queue extra hholds hpending
    have hinit : operation ≠ .init := by
      rcases hoperation with rfl | rfl | rfl <;> decide
    have hcreated := hholds.create ⟨args, operation, none⟩ allocs
    have hserves : Serves { s.put s.next (some ⟨args, operation, none⟩) with next := s.next + 1, allocs := allocs }
        (s.next, args) := ⟨_, State.put_self s s.next _, rfl, hinit, hcallback⟩
    rw [← append_assoc]
    refine ⟨(hcreated.accept hserves hholds.next_notMem).congr rfl rfl rfl rfl, ?_, fun x hx b hb => ?_⟩
    · rw [map_append, ← hpending.pending]
      rfl
    rcases mem_append.mp hx with hx | hx
    · have hne : x.1 ≠ s.next := Nat.ne_of_lt (hholds.block_below (mem_append_right _ hx))
      exact hpending.unstarted x hx b ((State.put_of_ne s hne _).symm.trans hb)
    rw [mem_singleton.mp hx] at hb
    have hblock := (State.put_self s s.next (some ⟨args, operation, none⟩)).symm.trans hb
    cases hblock
    exact hoperation

/-- A request that comes while another one is worked on is put into the list, or refused. -/
theorem request_queued (env : Env) (hinitialized : s.initialized = true) (hprogress : s.inProgress = true)
    (hoperation : operation.Unstarted) (hcallback : args.callback.isSome = true) :
    ∃ code s' new, request env s args operation = .ok (code, s') ∧ Queued s s' new ∧ new.length ≤ 1 := by
  unfold request createRequest
  split_ifs with halloc
  · refine ⟨.ok, _, _, ?_, Queued.add s hoperation hcallback (s.allocs + 1), Nat.le_refl 1⟩
    dsimp only [State.put]
    rw [hinitialized, hprogress]
    rfl
  · exact ⟨.memory, _, [], rfl, Queued.allocs s _, Nat.zero_le 1⟩

/-- A call of a client is refused for its arguments, or it is a request with a callback. -/
theorem api_eq (env : Env) (s : State) (a : Api) : api env s a = .ok (.error, s) ∨
      ∃ args operation, operation.Unstarted ∧ args.callback.isSome = true ∧ api env s a = request env s args operation := by
  have hdata (args : Args) (operation : Op) (hoperation : operation.Unstarted) :
      dataRequest env s args operation = .ok (.error, s) ∨
        ∃ args' operation', operation'.Unstarted ∧ args'.callback.isSome = true ∧
          dataRequest env s args operation = request env s args' operation' := by
    unfold dataRequest
    split_ifs with hnull
    · exact .inl rfl
    · rw [Bool.or_eq_true, Bool.or_eq_true, Bool.or_eq_true, not_or, not_or, not_or] at hnull
      exact .inr ⟨args, operation, hoperation, Option.isSome_iff_ne_none.mpr (mt Option.isNone_iff_eq_none.mpr hnull.1.1.1), rfl⟩
  cases a with
  | dataRead args => exact hdata args .keyRead (.inl rfl)
  | dataWrite args => exact hdata args .keyWrite (.inr (.inl rfl))
  | keyDelete args =>
    change keyDelete env s args = _ ∨ _
    unfold keyDelete
    split_ifs with hnull
    · exact .inl rfl
    rw [Bool.or_eq_true, not_or] at hnull
    refine .inr ⟨{ args with buffer := none, bufferLen := none }, .keyDelete, .inr (.inr rfl), ?_, ?_⟩
    · exact Option.isSome_iff_ne_none.mpr (mt Option.isNone_iff_eq_none.mpr hnull.1)
    · exact if_neg (by rw [Bool.or_eq_true, not_or]; exact hnull)

theorem api_queued (env : Env) (a : Api) (hinitialized : s.initialized = true) (hprogress : s.inProgress = true) :
    ∃ code s' new, api env s a = .ok (code, s') ∧ Queued s s' new ∧ new.length ≤ 1 := by
  rcases api_eq env s a with hrefused | ⟨args, operation, hoperation, hcallback, hrequest⟩
  · exact ⟨.error, s, [], hrefused, Queued.refl s, Nat.zero_le 1⟩
  · rw [hrequest]
    exact request_queued env hinitialized hprogress hoperation hcallback

theorem requests_queued (env : Env) (as : List Api) : ∀ {s : State}, s.initialized = true → s.inProgress = true →
    ∃ s' new, requests env as s = .ok s' ∧ Queued s s' new ∧ new.length ≤ as.length := by
  induction as with
  | nil => exact fun {s} _ _ => ⟨s, [], rfl, Queued.refl s, Nat.le_refl 0⟩
  | cons a as ih =>
    intro s hinitialized hprogress
    obtain ⟨code, s1, new, hapi, hqueued, hlen⟩ := api_queued env a hinitialized hprogress
    obtain ⟨s2, new', hrequests, hqueued', hlen'⟩ := ih (hqueued.initialized.trans hinitialized) (hqueued.inProgress.trans hprogress)
    refine ⟨s2, new ++ new', ?_, hqueued.trans hqueued', ?_⟩
    · unfold requests
      rw [hapi]
      exact hrequests
    · rw [length_append, length_cons]
      omega

end Queued

end MbedCloud.Nvm

