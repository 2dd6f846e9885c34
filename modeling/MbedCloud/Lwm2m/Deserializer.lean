import MbedCloud.Lib.Loop
import MbedCloud.Lwm2m.Object

/-!
# The TLV deserializer

`m2mtlvdeserializer.cpp`. The payload is a list of bytes, and a read behind its end is a fault.

The four recursive functions have one shape: they decode the header of an entry, handle the entry,
and call themselves for the next one if it starts inside the payload. The error of an entry is the
result only if no other call follows. `walkStep` is one call; what a function does with an entry
is its argument.

Each function makes two passes: the first one, without `update`, checks the entries, and the second
one writes the values. Which allocations succeed is told by `Env`, for the offsets of the entry and
of the entries around it.
-/

namespace MbedCloud.Lwm2m

open Lib

inductive Fault where
  | outside (index : Nat)
  | null
  deriving DecidableEq

/-- `M2MTLVDeserializer::Error`. -/
inductive Error where
  | none
  | notFound
  | notAllowed
  | notValid
  | outOfMemory
  deriving DecidableEq

/-- `M2MTLVDeserializer::Operation`. -/
inductive Operation where
  | put
  | post
  deriving DecidableEq

/-- The two highest bits of an entry. -/
inductive EntryType where
  | objectInstance
  | resourceInstance
  | multipleResource
  | resource
  deriving DecidableEq

structure Env where
  /-- Whether a resource or a resource instance can be created. -/
  create : (update : Bool) → (offsets : List Nat) → Bool
  /-- Whether a value can be stored. -/
  store : (offsets : List Nat) → Bool

/-! ## Headers -/

def rd (tlv : Bytes) (i : Nat) : Exec Fault Nat :=
  match tlv[i]? with
  | some b => .ok b.toNat
  | none => .error (.fail (.outside i))

def rdBytes (tlv : Bytes) (i : Nat) : Nat → Exec Fault Bytes
  | 0 => .ok []
  | len + 1 => do
    let b ← rd tlv i
    let bs ← rdBytes tlv (i + 1) len
    pure (UInt8.ofNat b :: bs)

def EntryType.ofByte (b : Nat) : EntryType :=
  if b / 64 = 0 then .objectInstance
  else if b / 64 = 1 then .resourceInstance
  else if b / 64 = 2 then .multipleResource
  else .resource

/-- `TypeIdLength` after `deserialize`; `offset` is that of the value. -/
structure TypeIdLength where
  offset : Nat
  type : EntryType
  id : Nat
  length : Nat
  deriving DecidableEq

/-- `TypeIdLength::deserialiseID`, with the offset after it. -/
def deserialiseID (tlv : Bytes) (wide : Bool) (offset : Nat) : Exec Fault (Nat × Nat) := do
  let high ← rd tlv offset
  if wide then
    let low ← rd tlv (u32 (offset + 1))
    pure (high * 256 + low, u32 (offset + 2))
  else pure (high, u32 (offset + 1))

/-- `TypeIdLength::deserialiseLength` for a number of length bytes, with the offset after it. -/
def deserialiseLength (tlv : Bytes) : Nat → Nat → Nat → Exec Fault (Nat × Nat)
  | 0, length, offset => pure (length, offset)
  | n + 1, length, offset => do
    let b ← rd tlv offset
    deserialiseLength tlv n (length * 256 + b) (u32 (offset + 1))

/-- `TypeIdLength::deserialize`. -/
def typeIdLength (tlv : Bytes) (offset : Nat) : Exec Fault TypeIdLength := do
  let b ← rd tlv offset
  let (id, offset) ← deserialiseID tlv (decide (b / 32 % 2 = 1)) (u32 (offset + 1))
  let (length, offset) ← deserialiseLength tlv (b / 8 % 4) (if b / 8 % 4 = 0 then b % 8 else 0) offset
  pure ⟨offset, .ofByte b, id, length⟩

def TypeIdLength.next (t : TypeIdLength) : Nat := u32 (t.offset + t.length)

/-! ## Walks -/

/-- One call of a function that handles an entry and continues with the next one, unless it returns
at an entry of this type. -/
def walkStep {σ : Type} (tlv : Bytes) (returns : EntryType → Bool)
    (handle : TypeIdLength → σ → Exec Fault (Error × σ)) (s : Nat × σ) :
    Exec Fault (Next (Nat × σ) (Error × σ)) := do
  let t ← typeIdLength tlv s.1
  let (error, s) ← handle t s.2
  if !returns t.type && decide (t.next < tlv.length) then pure (.more (t.next, s))
  else pure (.done (error, s))

def walk {σ : Type} (fuel : Nat) (tlv : Bytes) (returns : EntryType → Bool)
    (handle : TypeIdLength → σ → Exec Fault (Error × σ)) (offset : Nat) (s : σ) :
    Exec Fault (Error × σ) :=
  loop (walkStep tlv returns handle) fuel (offset, s)

/-! ## Values -/

/-- The new value of a resource, and whether it could be stored: `set_resource_instance_value`, or
`clear_value` for an empty entry. The old value is gone if the new one cannot be stored. -/
def writeValue (tlv : Bytes) (t : TypeIdLength) (stored : Bool) (base : ResourceBase) :
    Exec Fault (Error × ResourceBase) :=
  if t.length > 0 then do
    let bytes ← rdBytes tlv t.offset t.length
    if stored then pure (.none, { base with value := some (convertValue base.type bytes) })
    else pure (.outOfMemory, { base with value := none })
  else pure (.none, { base with value := none })

/-- The search for the resource of an entry in a list: whether there is one, the error, and the
list. The first one is written; all of them are checked. -/
def leafEntry {α : Type} (tlv : Bytes) (update : Bool) (stored : Bool) (isFor : α → Bool)
    (base : α → ResourceBase) (setBase : α → ResourceBase → α) (t : TypeIdLength) (l : List α) :
    Exec Fault (Bool × Error × List α) :=
  if update then
    match l.find? isFor with
    | none => pure (false, .none, l)
    | some x => do
      let (error, b) ← writeValue tlv t stored (base x)
      pure (true, error, replaceFirst isFor (setBase · b) l)
  else
    pure (l.any isFor,
      if l.any fun x => isFor x && !(base x).putAllowed then .notAllowed else .none, l)

def ResourceInstance.isFor (id : Nat) (x : ResourceInstance) : Bool := decide (x.instanceId = id)

def ResourceInstance.setBase (x : ResourceInstance) (base : ResourceBase) : ResourceInstance := { x with base := base }

def Resource.isFor (id : Nat) (r : Resource) : Bool := decide (r.nameId = some id)

def Resource.setBase (r : Resource) (base : ResourceBase) : Resource := { r with base := base }

/-- An entry in the instances of a resource; that of another resource is not found. -/
def instanceEntry (env : Env) (tlv : Bytes) (update : Bool) (offsets : List Nat)
    (t : TypeIdLength) (r : Resource) : Exec Fault (Bool × Error × Resource) :=
  if t.type = .resourceInstance then do
    let (found, error, instances) ← leafEntry tlv update (env.store (t.offset :: offsets))
      (ResourceInstance.isFor t.id) (·.base) ResourceInstance.setBase t r.instances
    pure (found, error, { r with instances := instances })
  else pure (false, .none, r)

/-! ## The functions -/

section

variable (env : Env) (tlv : Bytes) (op : Operation) (update : Bool)

/-- The entries at which `deserialize_resource_instances` returns. -/
def returnsInInstances : EntryType → Bool
  | .multipleResource | .resourceInstance => false
  | .objectInstance | .resource => true

/-- An entry in `deserialize_resource_instances` for the resource with an index in the object
instance. -/
def handleInstance (offsets : List Nat) (index : Nat) (t : TypeIdLength) (oi : ObjectInstance) :
    Exec Fault (Error × ObjectInstance) :=
  if returnsInInstances t.type then pure (.notValid, oi)
  else
    match oi.resources[index]? with
    | none => .error (.fail .null)
    | some r => do
      let (found, error, r) ← instanceEntry env tlv update offsets t r
      let oi := { oi with resources := oi.resources.set index r }
      if found then pure (error, oi)
      else
        match op with
        | .post => pure (error, oi.createDynamicResourceInstance
            (env.create update (t.offset :: offsets)) r.name r.base.type t.id)
        | .put => pure (.notFound, oi)

/-- `deserialize_resource_instances` for a resource of an object instance. -/
def resourceInstances (fuel : Nat) (offsets : List Nat) (offset index : Nat) (oi : ObjectInstance) :
    Exec Fault (Error × ObjectInstance) :=
  walk fuel tlv returnsInInstances (handleInstance env tlv op update offsets index) offset oi

def multipleFor (id : Nat) (r : Resource) : Bool := r.supportsMultipleInstances && r.isFor id

/-- All resources that the entry of a multiple resource is for, one after the other. -/
def eachMultiple (fuel : Nat) (offsets : List Nat) (offset : Nat) :
    List Nat → Error × ObjectInstance → Exec Fault (Error × ObjectInstance)
  | [], result => pure result
  | index :: rest, (_, oi) => do
    let result ← resourceInstances env tlv op update fuel offsets offset index oi
    eachMultiple fuel offsets offset rest result

/-- The entries at which `deserialize_resources` returns. -/
def returnsInResources : EntryType → Bool
  | .objectInstance => true
  | .resourceInstance | .multipleResource | .resource => false

def indicesOf {α : Type} (p : α → Bool) (l : List α) : List Nat := (List.range l.length).filter fun i => l[i]?.any p

/-- An entry that `deserialize_resources` has not found. -/
def notFoundResource (fuel : Nat) (offsets : List Nat) (t : TypeIdLength) (oi : ObjectInstance) :
    Exec Fault (Error × ObjectInstance) :=
  match op with
  | .put => pure (.notFound, oi)
  | .post =>
    match oi.createDynamicResource (env.create update (t.offset :: offsets)) t.id
      (decide (t.type = .multipleResource)) with
    | some oi' =>
      if t.type = .multipleResource then
        resourceInstances env tlv op update fuel (t.offset :: offsets) t.offset oi.resources.length oi'
      else pure (.none, oi')
    | none => if t.type = .multipleResource then .error (.fail .null) else pure (.none, oi)

/-- An entry in `deserialize_resources`. -/
def handleResource (fuel : Nat) (offsets : List Nat) (t : TypeIdLength) (oi : ObjectInstance) :
    Exec Fault (Error × ObjectInstance) :=
  match t.type with
  | .objectInstance => pure (.notValid, oi)
  | .multipleResource =>
    let indices := indicesOf (multipleFor t.id) oi.resources
    if indices = [] then notFoundResource env tlv op update fuel offsets t oi
    else eachMultiple env tlv op update fuel (t.offset :: offsets) t.offset indices (.none, oi)
  | .resource | .resourceInstance => do
    let (found, error, resources) ← leafEntry tlv update (env.store (t.offset :: offsets))
      (Resource.isFor t.id) (·.base) Resource.setBase t oi.resources
    if found then pure (error, { oi with resources := resources })
    else notFoundResource env tlv op update fuel offsets t oi

/-- The recursive `deserialize_resources`. -/
def resources (fuel : Nat) (offsets : List Nat) (offset : Nat) (oi : ObjectInstance) :
    Exec Fault (Error × ObjectInstance) :=
  walk fuel tlv returnsInResources (handleResource env tlv op update fuel offsets) offset oi

/-- The entries at which `deserialize_object_instances` returns. -/
def returnsInObjects : EntryType → Bool
  | .objectInstance => false
  | .resourceInstance | .multipleResource | .resource => true

def eachInstance (fuel : Nat) (offset : Nat) : List Nat → Error × Object → Exec Fault (Error × Object)
  | [], result => pure result
  | index :: rest, (error, object) =>
    match object.instances[index]? with
    | none => pure (error, object)
    | some oi => do
      let (error, oi) ← resources env tlv op update fuel [offset] offset oi
      eachInstance fuel offset rest (error, ⟨object.instances.set index oi⟩)

/-- An entry in `deserialize_object_instances`. -/
def handleObject (fuel : Nat) (t : TypeIdLength) (object : Object) : Exec Fault (Error × Object) :=
  if returnsInObjects t.type then pure (.none, object)
  else
    eachInstance env tlv op update fuel t.offset
      (indicesOf (fun oi => decide (oi.instanceId = t.id)) object.instances) (.none, object)

/-- The recursive `deserialize_object_instances`. -/
def objectInstances (fuel : Nat) (offset : Nat) (object : Object) : Exec Fault (Error × Object) :=
  walk fuel tlv returnsInObjects (handleObject env tlv op update fuel) offset object

/-- The entries at which `deserialize_resource_instances` for a resource alone returns. -/
def returnsInResource : EntryType → Bool
  | .resourceInstance => false
  | .objectInstance | .multipleResource | .resource => true

/-- An entry in `deserialize_resource_instances` for a resource alone. -/
def handleOwnInstance (t : TypeIdLength) (r : Resource) : Exec Fault (Error × Resource) :=
  if returnsInResource t.type then pure (.notValid, r)
  else do
    let (found, error, r) ← instanceEntry env tlv update [] t r
    if found then pure (error, r)
    else
      match op with
      | .post => pure (.notAllowed, r)
      | .put => pure (.notFound, r)

/-- The recursive `deserialize_resource_instances` for a resource alone. -/
def ownInstances (fuel : Nat) (offset : Nat) (r : Resource) : Exec Fault (Error × Resource) :=
  walk fuel tlv returnsInResource (handleOwnInstance env tlv op update) offset r

end

/-! ## Removal -/

/-- The search for an identifier in the entries from an offset on. -/
def scanStep (tlv : Bytes) (id : Option Nat) (offset : Nat) : Exec Fault (Next Nat Bool) :=
  if offset < tlv.length then do
    let t ← typeIdLength tlv offset
    if id = some t.id then pure (.done true) else pure (.more t.next)
  else pure (.done false)

def keepScanned {α : Type} (fuel : Nat) (tlv : Bytes) (offset : Nat) (id : α → Option Nat) :
    List α → Exec Fault (List α)
  | [] => pure []
  | x :: xs => do
    let found ← loop (scanStep tlv (id x)) fuel offset
    let kept ← keepScanned fuel tlv offset id xs
    pure (if found then x :: kept else kept)

/-- `remove_resources`. -/
def removeResources (fuel : Nat) (tlv : Bytes) (oi : ObjectInstance) :
    Exec Fault ObjectInstance := do
  let kept ← keepScanned fuel tlv 0 (·.nameId) oi.resources
  pure { oi with resources := kept }

/-- `remove_resource_instances`. -/
def removeResourceInstances (fuel : Nat) (tlv : Bytes) (offset : Nat) (r : Resource) :
    Exec Fault Resource := do
  let kept ← keepScanned fuel tlv offset (fun x : ResourceInstance => some x.instanceId) r.instances
  pure { r with instances := kept }

/-- Only Put removes anything. -/
def Operation.removing {α : Type} (op : Operation) (remove : α → Exec Fault α) (x : α) :
    Exec Fault α :=
  match op with
  | .put => remove x
  | .post => pure x

/-! ## Entry points -/

section

variable (fuel : Nat) (env : Env) (tlv : Bytes) (op : Operation)

def firstType : Exec Fault EntryType := do
  let b ← rd tlv 0
  pure (.ofByte b)

/-- `M2MTLVDeserializer::deserialise_object_instances`. -/
def deserialiseObjectInstances (object : Object) : Exec Fault (Error × Object) := do
  if (← firstType tlv) = .objectInstance then
    let (error, object) ← objectInstances env tlv op false fuel 0 object
    if error = .none then objectInstances env tlv op true fuel 0 object
    else pure (error, object)
  else pure (.notValid, object)

/-- `M2MTLVDeserializer::deserialize_resources`. -/
def deserializeResources (oi : ObjectInstance) : Exec Fault (Error × ObjectInstance) := do
  let type ← firstType tlv
  if type = .resource ∨ type = .multipleResource then
    let (error, oi) ← resources env tlv op false fuel [] 0 oi
    if error = .none then
      let oi ← op.removing (removeResources fuel tlv) oi
      resources env tlv op true fuel [] 0 oi
    else pure (error, oi)
  else pure (.notValid, oi)

/-- The offset behind the header of the first entry. -/
def headerLength (b : Nat) : Nat := 2 + b / 32 % 2 + b / 8 % 4

/-- `M2MTLVDeserializer::deserialize_resource_instances`. -/
def deserializeResourceInstances (r : Resource) : Exec Fault (Error × Resource) := do
  let b ← rd tlv 0
  if EntryType.ofByte b = .multipleResource then
    let (error, r) ← ownInstances env tlv op false fuel (headerLength b) r
    if error = .none then
      let r ← op.removing (removeResourceInstances fuel tlv (headerLength b)) r
      ownInstances env tlv op true fuel (headerLength b) r
    else pure (error, r)
  else pure (.notValid, r)

end

end MbedCloud.Lwm2m

