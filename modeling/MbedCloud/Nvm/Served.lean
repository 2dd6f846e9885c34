import MbedCloud.Nvm.Requests

/-!
# The requests of the NVM helper are served

A request that is accepted gets one callback, the callbacks come in the order of the requests, there is one platform operation at a
time, and each block is freed once. This holds as long as the platform accepts the operations that are started by its callbacks
(`Answered`): a request whose operation it refuses there is lost, or its removal from the list leads the loop over the pending
requests astray.
-/

namespace MbedCloud.Nvm

open Lib List

/-! ## Between two events -/

/-- No request is worked on, and those of a queue wait. -/
structure Idle (s : State) (queue : List (Nat × Args)) : Prop where
  outstanding : s.outstanding = []
  inProgress : s.inProgress = false
  pending : Pending s queue
  holds : Holds s queue []

/-- A request is worked on: the platform has an operation for it, or for the initialisation that goes before it, which has a block
of its own. -/
structure Busy (s : State) (first : Nat × Args) (queue : List (Nat × Args)) (wrapper : Option Nat) : Prop where
  outstanding : ∃ call, s.outstanding = [⟨call, wrapper.getD first.1⟩]
  inProgress : s.inProgress = true
  initialized : s.initialized = true
  pending : Pending s queue
  holds : Holds s (first :: queue) wrapper.toList
  wrapped : ∀ w, wrapper = some w →
    s.blocks w = some ⟨nullArgs, .init, some first.1⟩ ∧ ∀ b, s.blocks first.1 = some b → b.operation.Unstarted

def Inv (s : State) : Prop := Idle s [] ∨ ∃ first queue wrapper, Busy s first queue wrapper

/-- The completions that an operation needs at most. -/
def Op.stages : Op → Nat
  | .init => 4
  | .keyCreate => 3
  | .keyWrite => 2
  | .keyDelete => 2
  | .flush => 1
  | .keyRead => 1

/-- The completions that are needed at most until the first request has its callback. -/
def stagesLeft (s : State) : Nat :=
  match s.outstanding with
  | [] => 0
  | o :: _ => ((s.blocks o.args).map (·.operation.stages)).getD 0

theorem stagesLeft_nil {s : State} (houtstanding : s.outstanding = []) : stagesLeft s = 0 := by
  unfold stagesLeft
  rw [houtstanding]

theorem stagesLeft_eq {s : State} {o : Operation} {b : Block} (houtstanding : s.outstanding = [o])
    (hb : s.blocks o.args = some b) : stagesLeft s = b.operation.stages := by
  unfold stagesLeft
  rw [houtstanding]
  dsimp only
  rw [hb]
  rfl

/-! ## Starting a request -/

section

variable {env : Env} {s : State} {r : Nat} {b : Block}

def Op.started : Op → Op
  | .keyWrite => .keyCreate
  | op => op

def Block.call (b : Block) : Call :=
  match b.operation with
  | .keyWrite => .keyCreate b.args.keyName b.args.bufferLen
  | .keyRead => .read b.args.keyName b.args.buffer b.args.bufferLen
  | _ => .keyDelete b.args.keyName

theorem State.put_eq_self (hb : s.blocks r = some b) : s.put r (some b) = s := by
  unfold State.put
  congr
  funext a
  split_ifs with ha
  · rw [ha, hb]
  · rfl

theorem startCall_eq (hb : s.blocks r = some b) (hunstarted : b.operation.Unstarted) :
    startCall env s r b = platformCall env (s.put r (some { b with operation := b.operation.started })) b.call r := by
  obtain ⟨args, operation, original⟩ := b
  unfold startCall Block.call
  rcases hunstarted with hop | hop | hop <;> dsimp only at hop <;> subst hop <;> dsimp only [Op.started] <;>
    rw [State.put_eq_self hb]

theorem Op.Unstarted.started_ne_init {op : Op} (hunstarted : op.Unstarted) : op.started ≠ .init := by
  rcases hunstarted with rfl | rfl | rfl <;> decide

theorem Op.Unstarted.stages_le {op : Op} (hunstarted : op.Unstarted) : op.started.stages ≤ 3 := by
  rcases hunstarted with rfl | rfl | rfl <;> decide

def startedState (s : State) (r : Nat) (b : Block) : State :=
  { s.put r (some { b with operation := b.operation.started }) with
    inProgress := true
    outstanding := s.outstanding ++ [⟨b.call, r⟩]
    platformCalls := s.platformCalls + 1 }

theorem platformCall_accepted (hplatform : env.platform s.platformCalls = true) (call : Call) (args : Nat) :
    platformCall env s call args =
      (true, { s with outstanding := s.outstanding ++ [⟨call, args⟩], platformCalls := s.platformCalls + 1 }) := if_pos hplatform

theorem platformCall_refused (hplatform : env.platform s.platformCalls = false) (call : Call) (args : Nat) :
    platformCall env s call args = (false, { s with platformCalls := s.platformCalls + 1 }) := by
  unfold platformCall
  rw [hplatform]
  rfl

/-- The state after the platform has refused the first call for a request. -/
def refusedState (s : State) (r : Nat) (b : Block) : State :=
  { s.put r (some { b with operation := b.operation.started }) with
    inProgress := false
    platformCalls := s.platformCalls + 1 }

theorem State.put_put (s : State) (r : Nat) (b b' : Option Block) : (s.put r b).put r b' = s.put r b' := by
  unfold State.put
  congr
  funext a
  dsimp only
  split_ifs <;> rfl

theorem operationContinue_eq (hb : s.blocks r = some b) (hunstarted : b.operation.Unstarted) (freeRequest : Bool) :
    operationContinue env s r freeRequest =
      .ok (if env.platform s.platformCalls then (.ok, startedState s r b)
        else (.error, if freeRequest then (refusedState s r b).put r none else refusedState s r b)) := by
  have hfree : free { refusedState s r b with inProgress := true } r =
      .ok { (refusedState s r b).put r none with inProgress := true } := free_eq (State.put_self s r _)
  have hcall : startCall env { s with inProgress := true } r b = if env.platform s.platformCalls then
      (true, startedState s r b) else (false, { refusedState s r b with inProgress := true }) :=
    startCall_eq (s := { s with inProgress := true }) hb hunstarted
  unfold operationContinue
  rw [State.block_eq hb, ok_bind, hcall]
  cases env.platform s.platformCalls with
  | true => rfl
  | false =>
    cases freeRequest with
    | false => rfl
    | true =>
      change free { refusedState s r b with inProgress := true } r >>= _ = _
      rw [hfree]
      rfl

end

/-! ## A request when nothing is to be done -/

section

variable {env : Env} {s : State} {args : Args} {operation : Op} {r : Nat} {b : Block} {queue : List (Nat × Args)}

theorem Pending.nil (hpending : s.pending = []) : Pending s [] := ⟨hpending, fun _ hx => (not_mem_nil hx).elim⟩

theorem Holds.first_ne {first : Nat × Args} {extra : List Nat}
    (hholds : Holds s (first :: queue) extra) : ∀ x ∈ queue, x.1 ≠ first.1 :=
  fun _ hx heq => (nodup_cons.mp hholds.distinct).1 (mem_append_left _ (heq ▸ mem_map_of_mem hx))

theorem Pending.put (hpending : Pending s queue) (hne : ∀ x ∈ queue, x.1 ≠ r) (b : Option Block) : Pending (s.put r b) queue :=
  ⟨hpending.pending, fun x hx b' hb' => hpending.unstarted x hx b' ((State.put_of_ne s (hne x hx) b).symm.trans hb')⟩

theorem Busy.started {x : Nat × Args} (hholds : Holds s (x :: queue) []) (hpending : Pending s queue)
    (hb : s.blocks x.1 = some b) (hunstarted : b.operation.Unstarted) (houtstanding : s.outstanding = [])
    (hinitialized : s.initialized = true) : Busy (startedState s x.1 b) x queue none where
  outstanding := ⟨b.call, by rw [startedState, houtstanding]; rfl⟩
  inProgress := rfl
  initialized := hinitialized
  pending := ⟨hpending.pending, (hpending.put hholds.first_ne (some { b with operation := b.operation.started })).unstarted⟩
  holds := (hholds.setOperation (.head _) hb hunstarted.started_ne_init).congr rfl rfl rfl rfl
  wrapped := fun _ hnone => nomatch hnone

theorem stagesLeft_startedState (houtstanding : s.outstanding = []) (hunstarted : b.operation.Unstarted) :
    stagesLeft (startedState s r b) ≤ 3 := by
  have hblock : (startedState s r b).blocks r = some { b with operation := b.operation.started } := State.put_self s r _
  have hlist : (startedState s r b).outstanding = [⟨b.call, r⟩] := by rw [startedState, houtstanding]; rfl
  rw [stagesLeft_eq hlist hblock]
  exact hunstarted.stages_le

theorem Op.Unstarted.ne_init {op : Op} (hunstarted : op.Unstarted) : op ≠ .init := by
  rcases hunstarted with rfl | rfl | rfl <;> decide

theorem Idle.of_holds (hidle : Idle s []) {s' : State} (houtstanding : s'.outstanding = s.outstanding)
    (hprogress : s'.inProgress = false) (hpending : s'.pending = s.pending) (hholds : Holds s' [] []) : Idle s' [] :=
  ⟨houtstanding.trans hidle.outstanding, hprogress, .nil (hpending.trans hidle.pending.pending), hholds⟩

def created (s : State) (args : Args) (operation : Op) : State :=
  { s.put s.next (some ⟨args, operation, none⟩) with next := s.next + 1, allocs := s.allocs + 1 }

theorem createRequest_some (halloc : env.alloc s.allocs = true) :
    createRequest env s args operation = (some s.next, created s args operation) := if_pos halloc

theorem createRequest_none (halloc : env.alloc s.allocs = false) :
    createRequest env s args operation = (none, { s with allocs := s.allocs + 1 }) := by
  unfold createRequest
  rw [halloc]
  rfl

/-- The block of the initialisation, which names the request. -/
def wrap (s : State) (r : Nat) : State := (created s nullArgs .init).put s.next (some ⟨nullArgs, .init, some r⟩)

theorem Holds.wrap {extra : List Nat} (hholds : Holds s queue extra) (r : Nat) : Holds (wrap s r) queue (s.next :: extra) := by
  have hblocks := congrArg State.blocks (State.put_put s s.next (some ⟨nullArgs, .init, none⟩) (some ⟨nullArgs, .init, some r⟩))
  exact (hholds.create ⟨nullArgs, .init, some r⟩ (s.allocs + 1)).congr hblocks rfl rfl rfl

theorem wrap_of_ne {a : Nat} (hne : a ≠ s.next) (r : Nat) : (wrap s r).blocks a = s.blocks a :=
  (State.put_of_ne (created s nullArgs .init) hne _).trans (State.put_of_ne s hne _)

theorem operationStart_init (hinitialized : s.initialized = false) (r : Nat) :
    operationStart env s (some r) = (if env.alloc s.allocs then
        if env.platform s.platformCalls then
          .ok (.ok, { wrap s r with
            outstanding := s.outstanding ++ [⟨.init, s.next⟩]
            platformCalls := s.platformCalls + 1
            pending := []
            initialized := true
            inProgress := true })
        else do
          let s' ← free { wrap s r with platformCalls := s.platformCalls + 1 } r
          let s' ← free s' s.next
          pure (.error, s')
      else do
        let s' ← free { s with allocs := s.allocs + 1 } r
        pure (.memory, s')) := by
  have hnot : ¬ s.initialized = true := by
    rw [hinitialized]
    exact Bool.false_ne_true
  unfold operationStart
  dsimp only
  rw [if_neg hnot]
  cases halloc : env.alloc s.allocs with
  | false => rw [createRequest_none halloc, if_neg Bool.false_ne_true]
  | true =>
    rw [createRequest_some halloc, if_pos rfl]
    dsimp only
    cases hplatform : env.platform s.platformCalls with
    | false =>
      have hcall := platformCall_refused (s := wrap s r) hplatform .init s.next
      unfold Nvm.wrap at hcall
      rw [hcall, if_neg Bool.false_ne_true]
      rfl
    | true =>
      have hcall := platformCall_accepted (s := wrap s r) hplatform .init s.next
      unfold Nvm.wrap at hcall
      rw [hcall, if_pos rfl]
      rfl

/-- A request when nothing is to be done: it is worked on, or refused. -/
theorem Idle.request (env : Env) (hidle : Idle s []) (hunstarted : operation.Unstarted) (hcallback : args.callback.isSome = true) :
    ∃ code s', request env s args operation = .ok (code, s') ∧ Inv s' ∧ s'.called = s.called ∧ s.accepted <+: s'.accepted := by
  unfold Nvm.request
  cases halloc : env.alloc s.allocs with
  | false =>
    rw [createRequest_none halloc]
    refine ⟨.memory, _, rfl, .inl ?_, rfl, prefix_rfl⟩
    exact hidle.of_holds rfl hidle.inProgress rfl (hidle.holds.congr rfl rfl rfl rfl)
  | true =>
    rw [createRequest_some halloc]
    dsimp only
    have hholds : Holds (created s args operation) [] [s.next] := hidle.holds.create ⟨args, operation, none⟩ (s.allocs + 1)
    have hblock : (created s args operation).blocks s.next = some ⟨args, operation, none⟩ := State.put_self s s.next _
    have hserves : Serves (created s args operation) (s.next, args) := ⟨_, hblock, rfl, hunstarted.ne_init, hcallback⟩
    have hnew := hidle.holds.next_notMem
    cases hinitialized : s.initialized with
    | true =>
      have hstart : operationStart env (created s args operation) (some s.next) =
          operationContinue env (created s args operation) s.next true := by
        refine (if_pos hinitialized).trans (if_pos ?_)
        change (!s.inProgress) = true
        rw [hidle.inProgress]
        rfl
      rw [hstart]
      rw [operationContinue_eq hblock hunstarted]
      cases env.platform (created s args operation).platformCalls with
      | true =>
        refine ⟨.ok, _, rfl, .inr ⟨(s.next, args), [], none, ?_⟩, rfl, prefix_append _ _⟩
        exact .started (hholds.accept hserves hnew) (.nil hidle.pending.pending) hblock hunstarted hidle.outstanding hinitialized
      | false =>
        refine ⟨.error, _, rfl, .inl ?_, rfl, prefix_rfl⟩
        have hput := congrArg State.blocks
          (State.put_put (created s args operation) s.next (some ⟨args, operation.started, none⟩) none)
        exact hidle.of_holds rfl rfl rfl (hholds.free_extra.congr hput rfl rfl rfl)
    | false =>
      rw [operationStart_init (s := created s args operation) hinitialized]
      have hwrap := hholds.wrap s.next
      have hne : s.next ≠ (created s args operation).next := Nat.ne_of_lt (Nat.lt_succ_self s.next)
      have hblock' : (wrap (created s args operation) s.next).blocks s.next = some ⟨args, operation, none⟩ :=
        (wrap_of_ne hne _).trans hblock
      split_ifs with halloc' hplatform
      · refine ⟨.ok, _, rfl, .inr ⟨(s.next, args), [], some (created s args operation).next, ?_⟩, rfl, prefix_append _ _⟩
        have hserves' : Serves (wrap (created s args operation) s.next) (s.next, args) :=
          ⟨_, hblock', rfl, hunstarted.ne_init, hcallback⟩
        have hbusy := (hwrap.perm (.swap _ _ _)).accept hserves' hnew
        refine ⟨⟨.init, ?_⟩, rfl, rfl, .nil rfl, hbusy.congr rfl rfl rfl rfl, ?_⟩
        · exact congrArg (· ++ [_]) hidle.outstanding
        intro w hw
        cases hw
        refine ⟨State.put_self _ _ _, fun b hb => ?_⟩
        have hsame := hb.symm.trans hblock'
        cases hsame
        exact hunstarted
      · have hblockw : (({ wrap (created s args operation) s.next with
            platformCalls := (created s args operation).platformCalls + 1 } : State).put s.next none).blocks
              (created s args operation).next = some ⟨nullArgs, .init, some s.next⟩ :=
          (State.put_of_ne _ hne.symm none).trans (State.put_self _ _ _)
        rw [free_eq (s := { wrap (created s args operation) s.next with
          platformCalls := (created s args operation).platformCalls + 1 }) hblock', ok_bind, free_eq hblockw]
        refine ⟨.error, _, rfl, .inl ?_, rfl, prefix_rfl⟩
        have hfreed := (hwrap.perm (.swap _ _ _)).free_extra.free_extra
        exact hidle.of_holds rfl hidle.inProgress rfl (hfreed.congr rfl rfl rfl rfl)
      · rw [free_eq (s := { created s args operation with allocs := (created s args operation).allocs + 1 }) hblock]
        refine ⟨.memory, _, rfl, .inl ?_, rfl, prefix_rfl⟩
        exact hidle.of_holds rfl hidle.inProgress rfl (hholds.free_extra.congr rfl rfl rfl rfl)

end

/-! ## The end of a request -/

section

variable {env : Env} {s s' : State} {queue : List (Nat × Args)} {first : Nat × Args} {code : Code}

/-- The callback, in which `new` is requested, and the end of the block. -/
theorem operationEnd_eq (fuel : Nat) (houtstanding : s.outstanding = []) (hinitialized : s.initialized = true)
    (hpending : Pending s queue)
    (hholds : Holds s (first :: queue) []) {s1 : State} {new : List (Nat × Args)}
    (hrequests : requests env (env.client s.called.length) { s with called := s.called ++ [⟨first.1, first.2, code⟩] } = .ok s1)
    (hqueued : Queued { s with called := s.called ++ [⟨first.1, first.2, code⟩] } s1 new) :
    ∃ s', operationEnd env (fuel + 1) s first.1 code = startPending env fuel s' s'.pending.head? ∧ Idle s' (queue ++ new) ∧
      s'.initialized = true ∧ s'.called.length = s.called.length + 1 ∧ s'.accepted = s.accepted ++ new ∧
        s'.platformCalls = s.platformCalls := by
  obtain ⟨b, hb, hargs, -, hcallback⟩ := hholds.block first (.head _)
  have hcall : clientCallback env s first.1 code = .ok s1 := by
    unfold clientCallback
    rw [State.block_eq hb, ok_bind,
      if_neg (by rw [Option.isNone_iff_eq_none]; exact Option.isSome_iff_ne_none.mp hcallback), hargs, hrequests]
  have hbelow : first.1 < s.next := hholds.block_below (.head _)
  have hb1 : s1.blocks first.1 = some b := (hqueued.blocks first.1 hbelow).trans hb
  obtain ⟨hholds1, hpending1⟩ := hqueued.holds [] queue [first.1] (hholds.callback code) ⟨hpending.pending, hpending.unstarted⟩
  have hne : ∀ x ∈ queue ++ new, x.1 ≠ first.1 := fun x hx => hholds1.apart (.head _) hx
  refine ⟨{ s1.put first.1 none with inProgress := false }, ?_, ⟨?_, rfl, ?_, ?_⟩, ?_, ?_, ?_, ?_⟩
  · unfold operationEnd
    rw [hcall]
    dsimp only [bind, Except.bind]
    rw [free_eq hb1]
  · exact hqueued.outstanding.trans houtstanding
  · exact ⟨hpending1.pending, (hpending1.put hne none).unstarted⟩
  · exact hholds1.free_extra.congr rfl rfl rfl rfl
  · exact hqueued.initialized.trans hinitialized
  · exact (congrArg List.length hqueued.called).trans length_append
  · exact hqueued.accepted
  · exact hqueued.platformCalls

theorem Idle.take (hidle : Idle s (first :: queue)) :
    listNext s first.1 = .ok (queue.map Prod.fst).head? ∧ listRemove s first.1 = .ok { s with pending := queue.map Prod.fst } := by
  obtain ⟨b, hb, -⟩ := hidle.holds.block first (.head _)
  have hlist : s.pending = first.1 :: queue.map Prod.fst := hidle.pending.pending
  unfold listNext listRemove
  rw [State.block_eq hb, hlist]
  rw [if_pos mem_cons_self, if_pos mem_cons_self, erase_cons_head, dropWhile_cons_of_neg (by simp)]
  exact ⟨rfl, rfl⟩

/-- The next request is started if the platform accepts its operation. -/
theorem Idle.start (fuel : Nat) (hidle : Idle s (first :: queue)) (hinitialized : s.initialized = true)
    (hplatform : env.platform s.platformCalls = true) :
    ∃ s', startPending env (fuel + 1) s (some first.1) = .ok s' ∧ Busy s' first queue none ∧ stagesLeft s' ≤ 3 ∧
      s'.called = s.called ∧ s'.accepted = s.accepted := by
  obtain ⟨b, hb, -⟩ := hidle.holds.block first (.head _)
  have hunstarted := hidle.pending.unstarted first (.head _) b hb
  have hpending : Pending { s with pending := queue.map Prod.fst } queue :=
    ⟨rfl, fun x hx => hidle.pending.unstarted x (.tail _ hx)⟩
  refine ⟨startedState { s with pending := queue.map Prod.fst } first.1 b, ?_, ?_, ?_, rfl, rfl⟩
  · unfold startPending
    rw [hidle.take.1, hidle.take.2]
    dsimp only [bind, Except.bind]
    rw [operationContinue_eq (s := { s with pending := queue.map Prod.fst }) hb hunstarted]
    rw [hplatform]
    rfl
  · exact .started (hidle.holds.congr rfl rfl rfl rfl) hpending hb hunstarted hidle.outstanding hinitialized
  · exact stagesLeft_startedState hidle.outstanding hunstarted

/-- The last pending request is refused by the platform, and its client requests nothing. -/
theorem Idle.refuse (fuel : Nat) (hidle : Idle s [first]) (hinitialized : s.initialized = true)
    (hplatform : env.platform s.platformCalls = false)
    (hclient : env.client s.called.length = []) :
    ∃ s', startPending env (fuel + 3) s (some first.1) = .ok s' ∧ Idle s' [] ∧ s.called.length < s'.called.length ∧
      s'.accepted = s.accepted := by
  obtain ⟨b, hb, -⟩ := hidle.holds.block first (.head _)
  have hunstarted := hidle.pending.unstarted first (.head _) b hb
  have hholds : Holds (refusedState { s with pending := [] } first.1 b) [first] [] :=
    (hidle.holds.setOperation (.head _) hb hunstarted.started_ne_init).congr rfl rfl rfl rfl
  have hrequests (t : State) : requests env (env.client (refusedState { s with pending := [] } first.1 b).called.length) t = .ok t := by
    change requests env (env.client s.called.length) t = _
    rw [hclient]
    rfl
  obtain ⟨s', hend, hidle', -, hcalled, haccepted, -⟩ := operationEnd_eq
    (s := refusedState { s with pending := [] } first.1 b) (fuel + 1) hidle.outstanding hinitialized
    (.nil rfl) hholds (hrequests _) (.refl _)
  have hempty : s'.pending = [] := hidle'.pending.pending
  refine ⟨s', ?_, hidle', ?_, ?_⟩
  · unfold startPending
    rw [hidle.take.1, hidle.take.2]
    dsimp only [bind, Except.bind]
    rw [map_nil, operationContinue_eq (s := { s with pending := [] }) hb hunstarted]
    rw [hplatform, if_neg Bool.false_ne_true, if_neg Bool.false_ne_true]
    dsimp only
    rw [if_pos (by decide), hend, hempty]
    rfl
  · rw [hcalled]
    exact Nat.lt_succ_self _
  · rw [haccepted, append_nil]
    rfl

end

/-! ## Completions -/

/-- Whether the completion of an operation ends its request. -/
def Op.ends (op : Op) (status : Status) : Bool :=
  match op with
  | .init => false
  | .flush | .keyRead => true
  | .keyCreate | .keyWrite | .keyDelete => decide (status ≠ .ok)

/-- The platform accepts the operation that its callback starts. It may refuse it only if the callback ends a request and there is
at most one request then, which is worked on next, and whose client requests nothing when it is told. -/
def Answered (env : Env) (s : State) : Event → Prop
  | .request _ => True
  | .complete i status => ∀ o b, s.outstanding[i]? = some o → s.blocks o.args = some b →
    env.platform s.platformCalls = true ∨
      b.operation.ends status = true ∧ s.pending.length + (env.client s.called.length).length ≤ 1 ∧
        (s.pending.length + (env.client s.called.length).length = 1 → env.client (s.called.length + 1) = [])

/-- An operation is over, or a request is. -/
structure Progress (s s' : State) : Prop where
  moves : s'.called = s.called ∧ stagesLeft s' < stagesLeft s ∨ s.called.length < s'.called.length ∧ stagesLeft s' ≤ 3
  accepted : s.accepted <+: s'.accepted

section Complete

variable {env : Env} {s s' : State} {queue : List (Nat × Args)} {first : Nat × Args} {wrapper : Option Nat} {status : Status}
  {b : Block}

theorem State.put_comm (s : State) {r r' : Nat} (hne : r ≠ r') (b b' : Option Block) :
    (s.put r b).put r' b' = (s.put r' b').put r b := by
  unfold State.put
  congr
  funext a
  dsimp only
  split_ifs with h h' <;> first | rfl | exact absurd (h'.symm.trans h) hne

/-- Nothing is outstanding while a completion is handled. -/
abbrev State.cleared (s : State) : State := { s with outstanding := [] }

/-- The initialisation is over, and the request that it was made for is started. -/
theorem Busy.complete_init {w : Nat} (fuel : Nat) (status : Status) (hbusy : Busy s first queue (some w))
    (hplatform : env.platform s.platformCalls = true) :
    ∃ s', callbackFunc env fuel s.cleared status w = .ok s' ∧ Busy s' first queue none ∧ Progress s s' := by
  obtain ⟨hw, hunstarted⟩ := hbusy.wrapped w rfl
  obtain ⟨b, hb, -⟩ := hbusy.holds.block first (.head _)
  have hapart : ∀ x ∈ first :: queue, x.1 ≠ w := fun x hx => hbusy.holds.apart (mem_singleton_self w) hx
  have hne : first.1 ≠ w := hapart first (.head _)
  have hstarted : (startedState s.cleared first.1 b).put w none = startedState (s.cleared.put w none) first.1 b :=
    congrArg (fun t : State => { t with
      inProgress := true
      outstanding := [(⟨b.call, first.1⟩ : Operation)]
      platformCalls := s.platformCalls + 1 })
      (State.put_comm s.cleared hne (some { b with operation := b.operation.started }) none)
  have hw' : (startedState s.cleared first.1 b).blocks w = some ⟨nullArgs, .init, some first.1⟩ :=
    (State.put_of_ne _ hne.symm _).trans hw
  have hpending : Pending (s.cleared.put w none) queue :=
    ⟨hbusy.pending.pending, (hbusy.pending.put (fun x hx => hapart x (.tail _ hx)) none).unstarted⟩
  have hblock : (s.cleared.put w none).blocks first.1 = some b := (State.put_of_ne _ hne none).trans hb
  refine ⟨startedState (s.cleared.put w none) first.1 b, ?_, ?_, ?_, prefix_rfl⟩
  · unfold callbackFunc
    rw [State.block_eq (s := s.cleared) hw]
    dsimp only [bind, Except.bind]
    rw [operationContinue_eq (s := s.cleared) hb (hunstarted b hb)]
    rw [hplatform, if_pos rfl]
    dsimp only
    rw [free_eq hw', hstarted]
  · exact Busy.started (hbusy.holds.free_extra.congr rfl rfl rfl rfl) hpending hblock (hunstarted b hb) rfl hbusy.initialized
  refine .inl ⟨rfl, Nat.lt_of_le_of_lt (stagesLeft_startedState rfl (hunstarted b hb)) ?_⟩
  obtain ⟨call, houtstanding⟩ := hbusy.outstanding
  rw [stagesLeft_eq houtstanding hw]
  exact (by decide : 3 < Op.init.stages)

/-- The state after a request has gone on to its next operation. -/
def advanced (s : State) (r : Nat) (b : Block) (op : Op) (call : Call) : State :=
  { s.put r (some { b with operation := op }) with
    outstanding := [⟨call, r⟩]
    platformCalls := s.platformCalls + 1 }

theorem Busy.advance (hbusy : Busy s first queue none) (hb : s.blocks first.1 = some b) {op : Op} (hop : op ≠ .init)
    (hless : op.stages < b.operation.stages) (call : Call) :
    Busy (advanced s first.1 b op call) first queue none ∧ Progress s (advanced s first.1 b op call) := by
  refine ⟨⟨⟨call, rfl⟩, hbusy.inProgress, hbusy.initialized, ⟨hbusy.pending.pending, ?_⟩, ?_, fun _ hnone => nomatch hnone⟩, ?_,
    prefix_rfl⟩
  · exact (hbusy.pending.put hbusy.holds.first_ne _).unstarted
  · exact (hbusy.holds.setOperation (.head _) hb hop).congr rfl rfl rfl rfl
  obtain ⟨call', houtstanding⟩ := hbusy.outstanding
  have hblock : (advanced s first.1 b op call).blocks first.1 = some { b with operation := op } := State.put_self s first.1 _
  refine .inl ⟨rfl, ?_⟩
  rw [stagesLeft_eq houtstanding hb, stagesLeft_eq rfl hblock]
  exact hless

theorem Busy.complete_end (fuel : Nat) (hbusy : Busy s first queue none) (code : Code)
    (hanswered : env.platform s.platformCalls = true ∨ s.pending.length + (env.client s.called.length).length ≤ 1 ∧
      (s.pending.length + (env.client s.called.length).length = 1 → env.client (s.called.length + 1) = [])) :
    ∃ s', operationEnd env (fuel + 4) s.cleared first.1 code = .ok s' ∧ Inv s' ∧ Progress s s' := by
  obtain ⟨s1, new, hrequests, hqueued, hlen⟩ := requests_queued env (env.client s.called.length)
    (s := { s with outstanding := [], called := s.called ++ [⟨first.1, first.2, code⟩] }) hbusy.initialized hbusy.inProgress
  obtain ⟨s2, hend, hended, hinitialized, hcalled, haccepted, hcalls⟩ := operationEnd_eq (s := s.cleared) (fuel + 3) rfl
    hbusy.initialized ⟨hbusy.pending.pending, hbusy.pending.unstarted⟩ (hbusy.holds.congr rfl rfl rfl rfl) hrequests hqueued
  have hlength : s.pending.length = queue.length := by rw [hbusy.pending.pending, length_map]
  have hprefix : s.accepted <+: s2.accepted := haccepted ▸ prefix_append _ _
  have hlonger : s.called.length < s2.called.length := hcalled ▸ Nat.lt_succ_self _
  rw [hend, hended.pending.pending]
  cases hqueue : queue ++ new with
  | nil =>
    rw [hqueue] at hended
    refine ⟨s2, rfl, .inl hended, .inr ⟨hlonger, ?_⟩, hprefix⟩
    rw [stagesLeft_nil hended.outstanding]
    exact Nat.zero_le 3
  | cons x rest =>
    rw [hqueue] at hended
    cases hplatform : env.platform s.platformCalls with
    | true =>
      obtain ⟨s', hstart, hbusy', hleft, hcalled', haccepted'⟩ := hended.start (fuel + 2) hinitialized (hcalls ▸ hplatform)
      exact ⟨s', hstart, .inr ⟨x, rest, none, hbusy'⟩, .inr ⟨hcalled' ▸ hlonger, hleft⟩, haccepted' ▸ hprefix⟩
    | false =>
      obtain ⟨hone, hclient⟩ := hanswered.resolve_left (by rw [hplatform]; exact Bool.false_ne_true)
      have hcons := congrArg List.length hqueue
      rw [length_append, length_cons] at hcons
      have hrest : rest = [] := eq_nil_of_length_eq_zero (by omega)
      subst hrest
      have hclient' : env.client s2.called.length = [] := hcalled ▸ hclient (by omega)
      obtain ⟨s', hstart, hidle, hcalled', haccepted'⟩ := hended.refuse fuel hinitialized (hcalls ▸ hplatform) hclient'
      refine ⟨s', hstart, .inl hidle, .inr ⟨Nat.lt_trans hlonger hcalled', ?_⟩, haccepted' ▸ hprefix⟩
      rw [stagesLeft_nil hidle.outstanding]
      exact Nat.zero_le 3

/-- A completion when the platform accepts what its callback starts. -/
theorem Busy.complete (fuel : Nat) (hbusy : Busy s first queue wrapper) {o : Operation} (ho : s.outstanding = [o])
    (hanswered : Answered env s (.complete 0 status)) :
    ∃ s', callbackFunc env (fuel + 4) s.cleared status o.args = .ok s' ∧ Inv s' ∧ Progress s s' := by
  obtain ⟨call, hcall⟩ := hbusy.outstanding
  have hargs : o.args = wrapper.getD first.1 := by
    rw [ho] at hcall
    rw [singleton_inj.mp hcall]
  have hget : s.outstanding[0]? = some o := by
    rw [ho]
    rfl
  rw [hargs]
  cases wrapper with
  | some w =>
    have hplatform : env.platform s.platformCalls = true := by
      refine (hanswered o _ hget ((congrArg s.blocks hargs).trans (hbusy.wrapped w rfl).1)).resolve_right fun hends => ?_
      exact Bool.false_ne_true hends.1
    obtain ⟨s', hcallback, hbusy', hprogress⟩ := hbusy.complete_init (fuel + 4) status hplatform
    exact ⟨s', hcallback, .inr ⟨first, queue, none, hbusy'⟩, hprogress⟩
  | none =>
    obtain ⟨b, hb, -, hinit, -⟩ := hbusy.holds.block first (.head _)
    have hanswer := hanswered o b hget ((congrArg s.blocks hargs).trans hb)
    have hend := hbusy.complete_end fuel (clientRetval status) (hanswer.imp_right .right)
    have hadvance (op : Op) (call : Call) (hop : op ≠ .init) (hless : op.stages < b.operation.stages)
        (hends : b.operation.ends status = false) :
        ∃ s', .ok (platformCall env (s.cleared.put first.1 (some { b with operation := op }))
          call first.1).2 = (.ok s' : Exec Fault State) ∧ Inv s' ∧ Progress s s' := by
      have hplatform : env.platform s.platformCalls = true :=
        hanswer.resolve_right fun h => Bool.false_ne_true (hends.symm.trans h.1)
      obtain ⟨hbusy', hprogress⟩ := hbusy.advance hb hop hless call
      refine ⟨advanced s first.1 b op call, ?_, .inr ⟨first, queue, none, hbusy'⟩, hprogress⟩
      rw [platformCall_accepted (s := s.cleared.put first.1 (some { b with operation := op })) hplatform]
      rfl
    unfold callbackFunc
    rw [Option.getD_none, State.block_eq (s := s.cleared) hb]
    obtain ⟨args, operation, original⟩ := b
    cases operation with
    | init => exact absurd rfl hinit
    | flush => exact hend
    | keyRead => exact hend
    | keyCreate =>
      split_ifs with hstatus
      · exact hadvance .keyWrite _ (by decide) (by decide : Op.keyWrite.stages < Op.keyCreate.stages) (by rw [hstatus]; rfl)
      · exact hend
    | keyDelete =>
      split_ifs with hstatus
      · exact hadvance .flush _ (by decide) (by decide : Op.flush.stages < Op.keyDelete.stages) (by rw [hstatus]; rfl)
      · exact hend
    | keyWrite =>
      split_ifs with hstatus
      · exact hadvance .flush _ (by decide) (by decide : Op.flush.stages < Op.keyWrite.stages) (by rw [hstatus]; rfl)
      · exact hend

end Complete

/-! ## Runs -/

section

variable {env : Env} {s s' s'' : State} {fuel n m : Nat}

theorem Busy.block_served {first : Nat × Args} {queue : List (Nat × Args)} {wrapper : Option Nat}
    (hbusy : Busy s first queue wrapper) : ∃ b, s.blocks (wrapper.getD first.1) = some b := by
  cases wrapper with
  | none =>
    obtain ⟨b, hb, -⟩ := hbusy.holds.block first (.head _)
    exact ⟨b, hb⟩
  | some w => exact ⟨_, (hbusy.wrapped w rfl).1⟩

theorem Inv.request (hinv : Inv s) (env : Env) (fuel : Nat) (a : Api) :
    ∃ s', step env fuel s (.request a) = .ok s' ∧ Inv s' ∧ s'.called = s.called ∧ s.accepted <+: s'.accepted ∧
      (s.outstanding ≠ [] → stagesLeft s' = stagesLeft s) := by
  have hstep {code : Code} {s' : State} (hapi : api env s a = .ok (code, s')) : step env fuel s (.request a) = .ok s' := by
    dsimp only [step]
    rw [hapi]
    rfl
  rcases hinv with hidle | ⟨first, queue, wrapper, hbusy⟩
  · rcases api_eq env s a with hrefused | ⟨args, operation, hoperation, hcallback, hrequest⟩
    · exact ⟨s, hstep hrefused, .inl hidle, rfl, prefix_rfl, fun _ => rfl⟩
    · obtain ⟨code, s', hok, hinv', hcalled, haccepted⟩ := hidle.request env hoperation hcallback
      exact ⟨s', hstep (hrequest.trans hok), hinv', hcalled, haccepted, fun hne => absurd hidle.outstanding hne⟩
  obtain ⟨code, s', new, hok, hqueued, -⟩ := api_queued env a hbusy.initialized hbusy.inProgress
  obtain ⟨call, houtstanding⟩ := hbusy.outstanding
  obtain ⟨b, hb⟩ := hbusy.block_served
  have hkept {r : Nat} {b : Block} (hb : s.blocks r = some b) : s'.blocks r = some b :=
    (hqueued.blocks r (hbusy.holds.lt_next (hbusy.holds.live r (by rw [hb]; rfl)))).trans hb
  have houtstanding' := hqueued.outstanding.trans houtstanding
  obtain ⟨hholds, hpending⟩ := hqueued.holds [first] queue _ hbusy.holds hbusy.pending
  refine ⟨s', hstep hok, .inr ⟨first, queue ++ new, wrapper, ?_⟩, hqueued.called, ?_, fun _ => ?_⟩
  · refine ⟨⟨call, houtstanding'⟩, hqueued.inProgress.trans hbusy.inProgress,
      hqueued.initialized.trans hbusy.initialized, hpending, hholds, fun w hw => ?_⟩
    obtain ⟨hblock, hunstarted⟩ := hbusy.wrapped w hw
    refine ⟨hkept hblock, fun b hb => hunstarted b ?_⟩
    exact (hqueued.blocks first.1 (hbusy.holds.block_below (.head _))).symm.trans hb
  · exact hqueued.accepted ▸ prefix_append _ _
  · rw [stagesLeft_eq houtstanding hb, stagesLeft_eq houtstanding' (hkept hb)]

theorem Inv.outstanding_length (hinv : Inv s) : s.outstanding.length ≤ 1 := by
  rcases hinv with hidle | ⟨first, queue, wrapper, hbusy⟩
  · rw [hidle.outstanding]
    exact Nat.zero_le 1
  obtain ⟨call, houtstanding⟩ := hbusy.outstanding
  rw [houtstanding]
  exact Nat.le_refl 1

theorem Inv.complete (hinv : Inv s) (hfuel : 4 ≤ fuel) {i : Nat} {status : Status} (hi : i < s.outstanding.length)
    (hanswered : Answered env s (.complete i status)) :
    ∃ s', step env fuel s (.complete i status) = .ok s' ∧ Inv s' ∧ Progress s s' := by
  have hone := hinv.outstanding_length
  obtain rfl : i = 0 := by omega
  obtain ⟨o, ho⟩ := length_eq_one_iff.mp (Nat.le_antisymm hone hi)
  obtain ⟨fuel, rfl⟩ := Nat.exists_eq_add_of_le' hfuel
  rcases hinv with hidle | ⟨first, queue, wrapper, hbusy⟩
  · rw [hidle.outstanding] at ho
    cases ho
  obtain ⟨s', hcallback, hinv', hprogress⟩ := hbusy.complete fuel ho hanswered
  refine ⟨s', ?_, hinv', hprogress⟩
  unfold step
  rw [ho]
  exact hcallback

/-- The runs in which the platform accepts what its callbacks start; `n` operations are completed. -/
inductive Runs (env : Env) (fuel : Nat) (s : State) : Nat → State → Prop
  | refl : Runs env fuel s 0 s
  | request {n : Nat} {s' s'' : State} {a : Api} :
    Runs env fuel s n s' → step env fuel s' (.request a) = .ok s'' → Runs env fuel s n s''
  | complete {n i : Nat} {s' s'' : State} {status : Status} :
    Runs env fuel s n s' → i < s'.outstanding.length → Answered env s' (.complete i status) →
      step env fuel s' (.complete i status) = .ok s'' → Runs env fuel s (n + 1) s''

theorem idle_initial : Idle initial [] where
  outstanding := rfl
  inProgress := rfl
  pending := .nil rfl
  holds :=
    { block := fun _ hx => (not_mem_nil hx).elim
      live := fun _ ha => absurd ha Bool.false_ne_true
      distinct := nodup_nil
      accepted := rfl
      below := fun _ hx => (not_mem_nil hx).elim
      nodup := nodup_nil }

theorem Runs.inv (hrun : Runs env fuel s n s') (hfuel : 4 ≤ fuel) (hinv : Inv s) : Inv s' := by
  induction hrun with
  | refl => exact hinv
  | request _ hstep ih =>
    obtain ⟨s1, hstep', hinv', -⟩ := ih.request env fuel _
    rw [hstep] at hstep'
    cases hstep'
    exact hinv'
  | complete _ hi hanswered hstep ih =>
    obtain ⟨s1, hstep', hinv', -⟩ := ih.complete hfuel hi hanswered
    rw [hstep] at hstep'
    cases hstep'
    exact hinv'

theorem stagesLeft_le (s : State) : stagesLeft s ≤ 4 := by
  unfold stagesLeft
  split
  · exact Nat.zero_le 4
  rename_i o _ _
  cases s.blocks o.args with
  | none => exact Nat.zero_le 4
  | some b => cases hop : b.operation <;> simp [hop, Op.stages]

/-- A request that waits keeps the platform busy. -/
theorem Inv.waiting (hinv : Inv s) {k : Nat} (hk : k < s.accepted.length) (hwaits : s.called.length ≤ k) :
    s.outstanding ≠ [] ∧ 1 ≤ stagesLeft s := by
  rcases hinv with hidle | ⟨first, queue, wrapper, hbusy⟩
  · rw [hidle.holds.accepted, append_nil, length_map] at hk
    omega
  obtain ⟨call, houtstanding⟩ := hbusy.outstanding
  obtain ⟨b, hb⟩ := hbusy.block_served
  refine ⟨by rw [houtstanding]; exact cons_ne_nil _ _, ?_⟩
  rw [stagesLeft_eq houtstanding hb]
  cases b.operation <;> decide

/-- Every completion brings the callback of a request nearer that waits. -/
theorem Runs.work (hrun : Runs env fuel s n s') (hfuel : 4 ≤ fuel) (hinv : Inv s) {k : Nat} (hk : k < s.accepted.length) :
    s.accepted <+: s'.accepted ∧ (k < s'.called.length ∨
      4 * (k - s'.called.length) + stagesLeft s' + n ≤ 4 * (k - s.called.length) + stagesLeft s) := by
  induction hrun with
  | refl => exact ⟨prefix_rfl, .inr (Nat.le_refl _)⟩
  | request hrun hstep ih =>
    have hinv1 := hrun.inv hfuel hinv
    obtain ⟨s1, hstep', -, hcalled, haccepted, hleft⟩ := hinv1.request env fuel _
    rw [hstep] at hstep'
    cases hstep'
    refine ⟨ih.1.trans haccepted, ?_⟩
    rw [hcalled]
    rcases Nat.lt_or_ge k _ with hlt | hge
    · exact .inl hlt
    · rw [hleft (hinv1.waiting (Nat.lt_of_lt_of_le hk ih.1.length_le) hge).1]
      exact ih.2
  | complete hrun hi hanswered hstep ih =>
    have hinv1 := hrun.inv hfuel hinv
    obtain ⟨s1, hstep', -, hprogress⟩ := hinv1.complete hfuel hi hanswered
    rw [hstep] at hstep'
    cases hstep'
    refine ⟨ih.1.trans hprogress.accepted, ?_⟩
    rcases hprogress.moves with ⟨hcalled, hless⟩ | ⟨hmore, hleft⟩
    · rw [hcalled]
      exact ih.2.imp_right fun hbound => by omega
    rcases ih.2 with hlt | hbound
    · exact .inl (Nat.lt_trans hlt hmore)
    · refine (Nat.lt_or_ge k _).imp_right fun hge => ?_
      omega

/-- What is owed to the clients: one platform operation at a time, callbacks in the order of the requests and one for each, a block
as long as its request waits and no longer, no call that faults, and a callback for each request after at most four completions for
every request up to it. -/
structure Served (env : Env) (fuel : Nat) (s : State) : Prop where
  one : s.outstanding.length ≤ 1
  order : (s.called.map fun c => (c.request, c.args)) <+: s.accepted
  once : (s.accepted.map Prod.fst).Nodup
  freed : ∀ a, (s.blocks a).isSome = true ↔
    a ∈ (s.accepted.drop s.called.length).map Prod.fst ∨ a ∈ s.outstanding.map Operation.args
  returns : ∀ e, Answered env s e → ∃ s', step env fuel s e = .ok s'
  callback : ∀ k, k < s.accepted.length → ∀ m s', Runs env fuel s m s' → 4 * (k + 1) ≤ m →
    s.accepted <+: s'.accepted ∧ k < s'.called.length

theorem Holds.drop_accepted {queue : List (Nat × Args)} {extra : List Nat} (hholds : Holds s queue extra) :
    s.accepted.drop s.called.length = queue := by
  rw [hholds.accepted, drop_left' (length_map _)]

theorem Inv.freed (hinv : Inv s) (a : Nat) : (s.blocks a).isSome = true ↔
    a ∈ (s.accepted.drop s.called.length).map Prod.fst ∨ a ∈ s.outstanding.map Operation.args := by
  rcases hinv with hidle | ⟨first, queue, wrapper, hbusy⟩
  · rw [hidle.holds.drop_accepted, hidle.outstanding]
    exact ⟨fun ha => .inl (hidle.holds.live a ha), fun ha => by simp at ha⟩
  obtain ⟨call, houtstanding⟩ := hbusy.outstanding
  rw [hbusy.holds.drop_accepted, houtstanding, map_singleton, mem_singleton]
  constructor
  · intro ha
    refine (mem_append.mp (hbusy.holds.live a ha)).imp_right fun hextra => ?_
    rw [Option.mem_toList] at hextra
    rw [Option.mem_def.mp hextra]
    rfl
  rintro (ha | rfl)
  · obtain ⟨x, hx, rfl⟩ := mem_map.mp ha
    obtain ⟨b, hb, -⟩ := hbusy.holds.block x hx
    rw [hb]
    rfl
  · obtain ⟨b, hb⟩ := hbusy.block_served
    rw [hb]
    rfl

theorem Inv.holds (hinv : Inv s) : ∃ queue extra, Holds s queue extra := by
  rcases hinv with hidle | ⟨first, queue, wrapper, hbusy⟩
  · exact ⟨_, _, hidle.holds⟩
  · exact ⟨_, _, hbusy.holds⟩

end

/-- The requests are served in every run in which the platform accepts the operations that its callbacks start. -/
theorem requests_served {env : Env} {fuel n : Nat} {s : State} (hfuel : 4 ≤ fuel) (hrun : Runs env fuel initial n s) :
    Served env fuel s := by
  have hinv := hrun.inv hfuel (.inl idle_initial)
  obtain ⟨queue, extra, hholds⟩ := hinv.holds
  refine ⟨hinv.outstanding_length, ?_, hholds.nodup, hinv.freed, fun e hanswered => ?_, fun k hk m s' hrun' hm => ?_⟩
  · rw [hholds.accepted]
    exact prefix_append _ _
  · cases e with
    | request a =>
      obtain ⟨s', hstep, -⟩ := hinv.request env fuel a
      exact ⟨s', hstep⟩
    | complete i status =>
      rcases Nat.lt_or_ge i s.outstanding.length with hi | hi
      · obtain ⟨s', hstep, -⟩ := hinv.complete hfuel hi hanswered
        exact ⟨s', hstep⟩
      refine ⟨s, ?_⟩
      unfold step
      dsimp only
      rw [getElem?_eq_none hi]
  · obtain ⟨haccepted, hcallback⟩ := hrun'.work hfuel hinv hk
    refine ⟨haccepted, hcallback.elim id fun hbound => ?_⟩
    by_contra hnot
    have hwaiting := (hrun'.inv hfuel hinv).waiting (Nat.lt_of_lt_of_le hk haccepted.length_le) (Nat.not_lt.mp hnot)
    have hfour := stagesLeft_le s
    omega

/-! ## Concrete runs -/

def readArgs (context : Nat) : Args := ⟨some 1, some [0x6b], some 2, some 3, context⟩

/-- The platform refuses the calls in `refused`. -/
def refusing (refused : List Nat) : Env := ⟨fun n => decide (n ∉ refused), fun _ => true, fun _ => []⟩

/-- The requests that were accepted, the callbacks, and the outstanding operations. -/
def summary (s : State) : List Nat × List Nat × List Call :=
  (s.accepted.map Prod.fst, s.called.map Completion.request, s.outstanding.map Operation.call)

def summaryAfter (env : Env) (events : List Event) : Exec Fault (List Nat × List Nat × List Call) := do
  let s ← run env 10 events initial
  pure (summary s)

/-- A request to read and the completion of the initialisation. -/
theorem requests_served_read :
    ∃ s, Runs (refusing []) 10 initial 1 s ∧ summary s = ([1], [], [.read (some [0x6b]) (some 2) (some 3)]) ∧
      Served (refusing []) 10 s := by
  have hafter : summaryAfter (refusing []) [.request (.dataRead (readArgs 0)), .complete 0 .ok] =
      .ok ([1], [], [.read (some [0x6b]) (some 2) (some 3)]) := by decide
  have hbefore : summaryAfter (refusing []) [.request (.dataRead (readArgs 0))] = .ok ([1], [], [.init]) := by decide
  obtain ⟨s, hrun, hsummary⟩ := bind_eq_ok hafter
  obtain ⟨s1, hrequest, hrest⟩ := bind_eq_ok hrun
  obtain ⟨s2, hcomplete, hdone⟩ := bind_eq_ok hrest
  cases hdone
  obtain ⟨t, hrun', hsummary'⟩ := bind_eq_ok hbefore
  obtain ⟨t1, hrequest', hdone'⟩ := bind_eq_ok hrun'
  cases hdone'
  rw [hrequest] at hrequest'
  cases hrequest'
  have hcalls : s1.outstanding.map Operation.call = [.init] := (Prod.mk.inj (Prod.mk.inj (Except.ok.inj hsummary')).2).2
  have hlength : 0 < s1.outstanding.length := by
    rw [← length_map Operation.call, hcalls]
    exact Nat.one_pos
  have hruns := (Runs.refl.request hrequest).complete hlength (fun _ _ _ _ => .inl rfl) hcomplete
  exact ⟨s, hruns, Except.ok.inj hsummary, requests_served (by decide) hruns⟩

/-- Three runs in which a call of a platform callback is refused: the first call after the initialisation, the flush after a key has
been deleted, and the first call for a pending request. The requests of the first two are lost, and in the last one the loop over the
list goes on with a request that is no longer there. -/
theorem requests_not_served :
    summaryAfter (refusing [1]) [.request (.dataRead (readArgs 0)), .complete 0 .ok] = .ok ([1], [], []) ∧
    summaryAfter (refusing [2]) [.request (.keyDelete (readArgs 0)), .complete 0 .ok, .complete 0 .ok] = .ok ([1], [], []) ∧
    summaryAfter (refusing [2]) [.request (.dataRead (readArgs 0)), .request (.dataRead (readArgs 1)),
      .request (.dataRead (readArgs 2)), .complete 0 .ok, .complete 0 .ok] = .error (.fail (.unlinked 4)) := by
  decide +kernel

end MbedCloud.Nvm

