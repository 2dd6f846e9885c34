import MbedCloud.Lib.Loop

/-!
# The NVM helper

`ns_nvm_helper.c`: requests to read, write and delete keys. A request is worked on with one operation of the platform after the
other, and the requests that come in the meantime wait in a list. The platform works asynchronously: it calls `callbackFunc` for
an operation that it has accepted.

A request block is known by its address, and addresses are not used twice. The use of a freed block and the removal of a block that
is not in the list are faults. What the program does not decide is in `Env`: which platform calls and allocations succeed, and what
the clients request in their callbacks.
-/

namespace MbedCloud.Nvm

open Lib

/-! ## Types -/

/-- `platform_nvm_status` -/
inductive Status where
  | ok
  | keyNotFound
  | error
  deriving DecidableEq

/-- `NS_NVM_OK` and so on -/
inductive Code where
  | ok
  | dataNotFound
  | error
  | memory
  deriving DecidableEq

/-- `NS_NVM_INIT` and so on -/
inductive Op where
  | init
  | keyCreate
  | keyRead
  | keyWrite
  | flush
  | keyDelete
  deriving DecidableEq

/-- The arguments of a request; `none` is `NULL`. Callbacks, contexts and buffers are known by their addresses. -/
structure Args where
  callback : Option Nat
  keyName : Option (List UInt8)
  buffer : Option Nat
  bufferLen : Option Nat
  context : Nat
  deriving DecidableEq

/-- `ns_nvm_request_t` -/
structure Block where
  args : Args
  operation : Op
  /-- `original_request` -/
  original : Option Nat
  deriving DecidableEq

inductive Call where
  | init
  | keyCreate (keyName : Option (List UInt8)) (bufferLen : Option Nat)
  | read (keyName : Option (List UInt8)) (buffer bufferLen : Option Nat)
  | write (keyName : Option (List UInt8)) (buffer bufferLen : Option Nat)
  | flush
  | keyDelete (keyName : Option (List UInt8))
  deriving DecidableEq

/-- An operation that the platform has accepted: `args` is what its callback gets. -/
structure Operation where
  call : Call
  args : Nat
  deriving DecidableEq

structure Completion where
  request : Nat
  args : Args
  code : Code
  deriving DecidableEq

inductive Api where
  | dataRead (args : Args)
  | dataWrite (args : Args)
  | keyDelete (args : Args)
  deriving DecidableEq

structure Env where
  /-- Whether a platform call returns `PLATFORM_NVM_OK`. -/
  platform : Nat → Bool
  alloc : Nat → Bool
  /-- What a client requests in its callback. -/
  client : Nat → List Api

/-- What a C program must not do. -/
inductive Fault where
  | null
  | freed (address : Nat)
  | unlinked (address : Nat)
  deriving DecidableEq

/-- The variables of the module, the blocks, and what has happened: the operations that the platform has not completed, the requests
that were accepted, and the calls of the clients' callbacks. -/
structure State where
  blocks : Nat → Option Block
  /-- The address of the next block. -/
  next : Nat
  /-- `ns_nvm_initialized` -/
  initialized : Bool
  /-- `ns_nvm_operation_in_progress` -/
  inProgress : Bool
  /-- `ns_nvm_request_list` -/
  pending : List Nat
  outstanding : List Operation
  platformCalls : Nat
  allocs : Nat
  accepted : List (Nat × Args)
  called : List Completion

def initial : State where
  blocks _ := none
  next := 1
  initialized := false
  inProgress := false
  pending := []
  outstanding := []
  platformCalls := 0
  allocs := 0
  accepted := []
  called := []

/-! ## Memory and platform -/

def State.block (s : State) (r : Nat) : Exec Fault Block :=
  match s.blocks r with
  | some b => .ok b
  | none => .error (.fail (.freed r))

def State.put (s : State) (r : Nat) (b : Option Block) : State := { s with blocks := fun a => if a = r then b else s.blocks a }

/-- `ns_dyn_mem_free` -/
def free (s : State) (r : Nat) : Exec Fault State := do
  let _ ← s.block r
  pure (s.put r none)

/-- `ns_nvm_create_request` -/
def createRequest (env : Env) (s : State) (args : Args) (operation : Op) : Option Nat × State :=
  if env.alloc s.allocs then
    (some s.next, { s.put s.next (some ⟨args, operation, none⟩) with
        next := s.next + 1
        allocs := s.allocs + 1 })
  else (none, { s with allocs := s.allocs + 1 })

/-- Whether a call of the platform returns `PLATFORM_NVM_OK`. -/
def platformCall (env : Env) (s : State) (call : Call) (args : Nat) : Bool × State :=
  if env.platform s.platformCalls then
    (true, { s with
        outstanding := s.outstanding ++ [⟨call, args⟩]
        platformCalls := s.platformCalls + 1 })
  else (false, { s with platformCalls := s.platformCalls + 1 })

/-- `ns_list_get_next`: the links of a block are valid as long as it is in the list. -/
def listNext (s : State) (r : Nat) : Exec Fault (Option Nat) := do
  let _ ← s.block r
  if r ∈ s.pending then pure ((s.pending.dropWhile (· ≠ r)).tail.head?) else .error (.fail (.unlinked r))

/-- `ns_list_remove` -/
def listRemove (s : State) (r : Nat) : Exec Fault State := do
  let _ ← s.block r
  if r ∈ s.pending then pure { s with pending := s.pending.erase r } else .error (.fail (.unlinked r))

/-! ## Operations -/

def startCall (env : Env) (s : State) (r : Nat) (b : Block) : Bool × State :=
  match b.operation with
  | .keyWrite =>
    platformCall env (s.put r (some { b with operation := .keyCreate })) (.keyCreate b.args.keyName b.args.bufferLen) r
  | .keyRead => platformCall env s (.read b.args.keyName b.args.buffer b.args.bufferLen) r
  | .keyDelete => platformCall env s (.keyDelete b.args.keyName) r
  | _ => (true, s)

/-- `ns_nvm_operation_continue` -/
def operationContinue (env : Env) (s : State) (r : Nat) (freeRequest : Bool) : Exec Fault (Code × State) := do
  let b ← s.block r
  let (started, s) := startCall env { s with inProgress := true } r b
  if started then pure (.ok, s)
  else do
    let s ← if freeRequest then free s r else pure s
    pure (.error, { s with inProgress := false })

def nullArgs : Args := ⟨none, none, none, none, 0⟩

/-- `ns_nvm_operation_start` -/
def operationStart (env : Env) (s : State) (request : Option Nat) : Exec Fault (Code × State) :=
  match request with
  | none => .ok (.memory, s)
  | some r =>
    if s.initialized then
      if !s.inProgress then operationContinue env s r true
      else .ok (.ok, { s with pending := s.pending ++ [r] })
    else
      match createRequest env s nullArgs .init with
      | (none, s) => do
        let s ← free s r
        pure (.memory, s)
      | (some w, s) =>
        let s := s.put w (some ⟨nullArgs, .init, some r⟩)
        match platformCall env s .init w with
        | (true, s) => .ok (.ok, { s with pending := [], initialized := true, inProgress := true })
        | (false, s) => do
          let s ← free s r
          let s ← free s w
          pure (.error, s)

/-- A request with its arguments checked; it is accepted if `NS_NVM_OK` is returned. -/
def request (env : Env) (s : State) (args : Args) (operation : Op) : Exec Fault (Code × State) := do
  let (r, s) := createRequest env s args operation
  let (code, s) ← operationStart env s r
  pure (code, if code = .ok then { s with accepted := s.accepted ++ [(r.getD 0, args)] } else s)

/-- `ns_nvm_key_delete` -/
def keyDelete (env : Env) (s : State) (args : Args) : Exec Fault (Code × State) :=
  if args.callback.isNone || args.keyName.isNone then .ok (.error, s)
  else request env s { args with buffer := none, bufferLen := none } .keyDelete

/-- `ns_nvm_data_read` and `ns_nvm_data_write` -/
def dataRequest (env : Env) (s : State) (args : Args) (operation : Op) : Exec Fault (Code × State) :=
  if args.callback.isNone || args.keyName.isNone || args.buffer.isNone || args.bufferLen.isNone then .ok (.error, s)
  else request env s args operation

/-- `ns_nvm_data_read` -/
def dataRead (env : Env) (s : State) (args : Args) : Exec Fault (Code × State) := dataRequest env s args .keyRead

/-- `ns_nvm_data_write` -/
def dataWrite (env : Env) (s : State) (args : Args) : Exec Fault (Code × State) := dataRequest env s args .keyWrite

def api (env : Env) (s : State) : Api → Exec Fault (Code × State)
  | .dataRead args => dataRead env s args
  | .dataWrite args => dataWrite env s args
  | .keyDelete args => keyDelete env s args

def requests (env : Env) : List Api → State → Exec Fault State
  | [], s => .ok s
  | a :: as, s => do
    let (_, s) ← api env s a
    requests env as s

/-- The callback of a client, which may make requests. -/
def clientCallback (env : Env) (s : State) (r : Nat) (code : Code) : Exec Fault State := do
  let b ← s.block r
  if b.args.callback.isNone then .error (.fail .null)
  else requests env (env.client s.called.length) { s with called := s.called ++ [⟨r, b.args, code⟩] }

mutual

/-- `ns_nvm_operation_end` -/
def operationEnd (env : Env) : Nat → State → Nat → Code → Exec Fault State
  | 0, _, _, _ => .error .fuel
  | fuel + 1, s, r, code => do
    let s ← clientCallback env s r code
    let s ← free s r
    startPending env fuel { s with inProgress := false } s.pending.head?

/-- The loop of `ns_nvm_operation_end`, `ns_list_foreach_safe`: the entry after `entry` is looked up before anything is done with
`entry`. -/
def startPending (env : Env) : Nat → State → Option Nat → Exec Fault State
  | 0, _, _ => .error .fuel
  | _ + 1, s, none => .ok s
  | fuel + 1, s, some entry => do
    let next ← listNext s entry
    let s ← listRemove s entry
    let (code, s) ← operationContinue env s entry false
    if code ≠ .ok then do
      let s ← operationEnd env fuel s entry code
      startPending env fuel s next
    else pure s

end

def clientRetval : Status → Code
  | .ok => .ok
  | .keyNotFound => .dataNotFound
  | .error => .error

/-- `ns_nvm_callback_func`. What the platform calls return here is not looked at. -/
def callbackFunc (env : Env) (fuel : Nat) (s : State) (status : Status) (r : Nat) : Exec Fault State := do
  let b ← s.block r
  match b.operation with
  | .init =>
    match b.original with
    | none => .error (.fail .null)
    | some original =>
      let (_, s) ← operationContinue env s original true
      free s r
  | .flush | .keyRead => operationEnd env fuel s r (clientRetval status)
  | .keyCreate =>
    if status = .ok then
      pure (platformCall env (s.put r (some { b with operation := .keyWrite }))
        (.write b.args.keyName b.args.buffer b.args.bufferLen) r).2
    else operationEnd env fuel s r (clientRetval status)
  | .keyDelete | .keyWrite =>
    if status = .ok then pure (platformCall env (s.put r (some { b with operation := .flush })) .flush r).2
    else operationEnd env fuel s r (clientRetval status)

/-! ## Runs -/

/-- A request of a client, or the completion of one of the outstanding operations. -/
inductive Event where
  | request (a : Api)
  | complete (i : Nat) (status : Status)
  deriving DecidableEq

def step (env : Env) (fuel : Nat) (s : State) : Event → Exec Fault State
  | .request a => do
    let (_, s) ← api env s a
    pure s
  | .complete i status =>
    match s.outstanding[i]? with
    | none => .ok s
    | some o => callbackFunc env fuel { s with outstanding := s.outstanding.eraseIdx i } status o.args

def run (env : Env) (fuel : Nat) : List Event → State → Exec Fault State
  | [], s => .ok s
  | e :: es, s => do
    let s ← step env fuel s e
    run env fuel es s

end MbedCloud.Nvm

