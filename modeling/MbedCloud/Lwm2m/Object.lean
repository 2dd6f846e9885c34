import MbedCloud.Lib.Word
import MbedCloud.Lib.Replace

/-!
# LwM2M objects

The parts of `M2MObject`, `M2MObjectInstance`, `M2MResource` and `M2MResourceInstance` that the
TLV deserializer reads and changes: the trees of instances and resources, the permission to PUT,
the data types and the values.

The name of a resource is a string, and `nameId` is the number that `M2MBase::name_id` reads from
it; `none` is its result `-1`. A resource that is created for an identifier has its decimal
digits as name.
-/

namespace MbedCloud.Lwm2m

/-- `M2MResourceBase::ResourceType`. -/
inductive ResourceType where
  | string
  | integer
  | float
  | boolean
  | opaqueData
  | time
  | objlink
  deriving DecidableEq

/-- The part of `M2MResourceBase` that resources and resource instances share; `putAllowed` is the
bit `SN_GRS_PUT_ALLOWED` of `operation()`. -/
structure ResourceBase where
  type : ResourceType
  putAllowed : Bool
  value : Option Bytes
  deriving DecidableEq

structure ResourceInstance where
  instanceId : Nat
  base : ResourceBase
  deriving DecidableEq

structure Resource where
  name : String
  nameId : Option Nat
  base : ResourceBase
  supportsMultipleInstances : Bool
  instances : List ResourceInstance
  deriving DecidableEq

structure ObjectInstance where
  instanceId : Nat
  resources : List Resource
  deriving DecidableEq

structure Object where
  instances : List ObjectInstance
  deriving DecidableEq

/-! ## Values -/

/-- `String::convert_array_to_integer`: the bytes in big-endian order, as `int64_t`. The first of more than 8 bytes are
shifted by 64 bits or more, which is undefined; here these shifts give 0. -/
def convertArrayToInteger (bytes : Bytes) : Int :=
  (bytes.foldl (fun n b => n * 256 + b.toNat) 0 + 9223372036854775808 : Nat) %
    18446744073709551616 - 9223372036854775808

/-- The digits that `itoa_c` writes, the last one first. -/
def itoaDigits (n : Int) : Bytes := UInt8.ofNat (n.tmod 10 + 48).toNat :: if 0 < n.tdiv 10 then itoaDigits (n.tdiv 10) else []
termination_by n.toNat
decreasing_by grind

/-- `itoa_c`, which reverses the text at its end. -/
def itoa (n : Int) : Bytes := (itoaDigits (if n < 0 then i64 (-n) else n) ++ if n < 0 then [45] else []).reverse

/-- The value that `set_resource_instance_value` stores for the bytes of an entry. -/
def convertValue (type : ResourceType) (bytes : Bytes) : Bytes :=
  match type with
  | .integer | .boolean | .time => itoa (convertArrayToInteger bytes)
  | .string | .float | .opaqueData | .objlink => bytes

/-! ## Creating and removing -/

/-- `M2MObjectInstance::create_dynamic_resource` for an identifier, with all operations allowed;
`none` is `NULL`. -/
def ObjectInstance.createDynamicResource (oi : ObjectInstance) (allocated : Bool) (id : Nat)
    (multiple : Bool) : Option ObjectInstance :=
  if oi.resources.any (fun r => decide (r.name = toString id)) then none
  else if allocated then
    some { oi with resources := oi.resources ++ [⟨toString id, some id, ⟨.opaqueData, true, none⟩, multiple, []⟩] }
  else none

/-- A new instance of a resource, with all operations allowed, unless the resource has one with the
identifier. -/
def Resource.addInstance (r : Resource) (type : ResourceType) (id : Nat) : Resource :=
  if r.supportsMultipleInstances && !r.instances.any (fun x => decide (x.instanceId = id)) then
    { r with instances := r.instances ++ [⟨id, ⟨type, true, none⟩⟩] }
  else r

/-- `M2MObjectInstance::create_dynamic_resource_instance` for a resource of the object instance. -/
def ObjectInstance.createDynamicResourceInstance (oi : ObjectInstance) (allocated : Bool)
    (name : String) (type : ResourceType) (id : Nat) : ObjectInstance :=
  if allocated then { oi with resources := replaceFirst (fun r => decide (r.name = name)) (·.addInstance type id) oi.resources }
  else oi

end MbedCloud.Lwm2m

