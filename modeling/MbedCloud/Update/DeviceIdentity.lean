import Mathlib.Tactic.Tauto
import MbedCloud.Lib.Loop
import MbedCloud.Lib.Word

/-!
# Identifiers of a device

`arm_uc_device_identity_kcm.c`: a manifest is for a device if its vendor, class and device identifiers are those
that are provisioned. A provisioned value is read into the 16 zeros of a GUID, and an identifier is compared
with them up to its 16th byte.
-/

namespace MbedCloud.Update

open List

/-! ## Model -/

/-- What `kcm_item_get_data` finds under a key. -/
inductive KcmItem where
  | notFound
  | failed
  | data (value : Bytes)
  deriving DecidableEq

/-- The keys that are read: `mbed.VendorId`, `mbed.Manufacturer`, `mbed.ClassId`, `mbed.ModelNumber` and
`mbed.EndpointName`. -/
structure Provisioning where
  vendorId : KcmItem
  manufacturer : KcmItem
  classId : KcmItem
  modelNumber : KcmItem
  endpointName : KcmItem

inductive IdentityError where
  | invalidParameter
  | notFound
  deriving DecidableEq

abbrev Guid := { bs : Bytes // bs.length = 16 }

def Guid.ofValue (value : Bytes) (h : value.length ≤ 16) : Guid :=
  ⟨value ++ replicate (16 - value.length) 0, by rw [length_append, length_replicate]; omega⟩

/-- `pal_kcm_internal_get_guid`. A value that is too long for the buffer is an error of the storage. -/
def internalGetGuid : KcmItem → Except IdentityError Guid
  | .notFound => .error .notFound
  | .failed => .error .invalidParameter
  | .data value => if h : value.length ≤ 16 then .ok (Guid.ofValue value h) else .error .invalidParameter

/-- A key with the deprecated one that stands for it. -/
def getGuidOr (item deprecated : KcmItem) : Except IdentityError Guid :=
  match internalGetGuid item with
  | .error .notFound => internalGetGuid deprecated
  | err => err

/-- `pal_kcm_getVendorGuid`. -/
def getVendorGuid (p : Provisioning) : Except IdentityError Guid := getGuidOr p.vendorId p.manufacturer

/-- `pal_kcm_getClassGuid`. -/
def getClassGuid (p : Provisioning) : Except IdentityError Guid := getGuidOr p.classId p.modelNumber

/-- `pal_kcm_getDeviceGuid`. -/
def getDeviceGuid (p : Provisioning) : Except IdentityError Guid := internalGetGuid p.endpointName

/-- The loop of `pal_kcm_internal_compare`: how many bytes match. -/
def matching : Bytes → Bytes → Nat
  | g :: gs, b :: bs => if g ≠ b then 0 else matching gs bs + 1
  | _, _ => 0

/-- `pal_kcm_internal_compare`. -/
def internalCompare (guid : Guid) (buffer : Bytes) : Bool := matching guid.1 buffer = 16

inductive IdentityResult where
  | none
  | nullPtr
  | guidVendor
  | guidDevclass
  | guidDevice
  deriving DecidableEq

/-- The variables of `pal_kcm_deviceIdentityCheck`. -/
structure IdentityCheck where
  result : IdentityResult
  parametersSet : Nat
  parametersOk : Nat

/-- The block for one parameter, which counts by its mask. -/
def IdentityCheck.block (guid : Except IdentityError Guid) (mask : Nat) (code : IdentityResult)
    (buffer : Option Bytes) (c : IdentityCheck) : IdentityCheck :=
  match buffer with
  | none => c
  | some bs =>
    if bs.length > 0 then
      let c := { c with parametersSet := c.parametersSet + mask }
      match guid with
      | .error _ => c
      | .ok guid =>
        if internalCompare guid bs then { c with parametersOk := c.parametersOk + mask }
        else { c with result := code }
    else c

/-- `pal_kcm_deviceIdentityCheck`. -/
def deviceIdentityCheck (p : Provisioning) (vendor cls device : Option Bytes) : IdentityResult :=
  let c : IdentityCheck := ⟨.nullPtr, 0, 0⟩
  let c := c.block (getDeviceGuid p) 1 .guidDevice device
  let c := c.block (getClassGuid p) 1 .guidDevclass cls
  let c := c.block (getVendorGuid p) 16 .guidVendor vendor
  if c.parametersSet ≥ 16 ∧ c.parametersSet = c.parametersOk then .none else c.result

/-- The identifiers of a manifest. -/
structure Identifiers where
  vendor : Bytes
  cls : Bytes
  device : Bytes

def passed (bs : Bytes) : Option Bytes := if bs.length ≠ 0 then some bs else none

/-- `validateFirmwareApplicability`. -/
def validateFirmwareApplicability (p : Provisioning) (ids : Identifiers) : IdentityResult :=
  deviceIdentityCheck p (passed ids.vendor) (passed ids.cls) (passed ids.device)

/-! ## Applicability -/

/-- The item that is provisioned: the deprecated one where there is no other. -/
def KcmItem.or : KcmItem → KcmItem → KcmItem
  | .notFound, deprecated => deprecated
  | item, _ => item

/-- A relation between the provisioned items and the identifiers, where the vendor is mandatory. -/
def Required (R : KcmItem → Bytes → Prop) (p : Provisioning) (ids : Identifiers) : Prop :=
  R (p.vendorId.or p.manufacturer) ids.vendor ∧
    (ids.cls = [] ∨ R (p.classId.or p.modelNumber) ids.cls) ∧ (ids.device = [] ∨ R p.endpointName ids.device)

/-- The identifier is the GUID that is provisioned. -/
def SameGuid (item : KcmItem) (id : Bytes) : Prop := item = .data id ∧ id.length = 16

/-- The identifier starts with the provisioned value, filled up with zeros. -/
def StartsWith (item : KcmItem) (id : Bytes) : Prop :=
  ∃ value, item = .data value ∧ value.length ≤ 16 ∧ value ++ replicate (16 - value.length) 0 <+: id

/-- The identifier and the provisioned value have the length of a GUID. -/
def GuidSized (item : KcmItem) (id : Bytes) : Prop := id.length = 16 ∧ ∀ value, item = .data value → value.length = 16

/-- A manifest passes if its identifiers are those of the device. -/
def ChecksIdentity (p : Provisioning) (ids : Identifiers) : Prop :=
  validateFirmwareApplicability p ids = .none ↔ Required SameGuid p ids

/-! ## Results -/

theorem matching_eq (gs bs : Bytes) : matching gs bs = gs.length ↔ gs <+: bs := by
  induction gs generalizing bs with
  | nil => simp [matching]
  | cons g gs ih =>
    cases bs with
    | nil => simp [matching]
    | cons b bs =>
      rw [matching, cons_prefix_cons, ← ih]
      by_cases h : g = b <;> simp [h]

theorem sameGuid_iff (item : KcmItem) (id : Bytes) : SameGuid item id ↔ StartsWith item id ∧ GuidSized item id := by
  constructor
  · rintro ⟨rfl, hlength⟩
    refine ⟨⟨id, rfl, Nat.le_of_eq hlength, ?_⟩, hlength, ?_⟩
    · rw [hlength]
      simp
    · rintro value ⟨⟩
      exact hlength
  · rintro ⟨⟨value, rfl, -, hstarts⟩, hlength, hsized⟩
    have hvalue := hsized value rfl
    rw [hvalue, Nat.sub_self, replicate_zero, append_nil] at hstarts
    exact ⟨by rw [hstarts.eq_of_length (hvalue.trans hlength.symm)], hlength⟩

theorem required_and (R S : KcmItem → Bytes → Prop) (p : Provisioning) (ids : Identifiers) :
    Required (fun item id => R item id ∧ S item id) p ids ↔ Required R p ids ∧ Required S p ids := by
  simp only [Required, or_and_left]
  tauto

/-- The GUID that an item gives is the start of the identifier. -/
def Found (guid : Except IdentityError Guid) (id : Bytes) : Prop := ∃ g, guid = .ok g ∧ internalCompare g id = true

theorem found_internalGetGuid (item : KcmItem) (id : Bytes) : Found (internalGetGuid item) id ↔ StartsWith item id := by
  cases item with
  | notFound => simp [Found, StartsWith, internalGetGuid]
  | failed => simp [Found, StartsWith, internalGetGuid]
  | data value =>
    by_cases h : value.length ≤ 16
    · have hcompare : internalCompare (Guid.ofValue value h) id = true ↔ value ++ replicate (16 - value.length) 0 <+: id := by
        rw [internalCompare, decide_eq_true_iff, ← matching_eq]
        exact iff_of_eq (congrArg _ (Guid.ofValue value h).2.symm)
      simpa [Found, StartsWith, internalGetGuid, h] using hcompare
    · simp [Found, StartsWith, internalGetGuid, h]

theorem found_getGuidOr (item deprecated : KcmItem) (id : Bytes) :
    Found (getGuidOr item deprecated) id ↔ StartsWith (item.or deprecated) id := by
  rw [← found_internalGetGuid]
  cases item with
  | notFound => rfl
  | failed => rfl
  | data value => by_cases h : value.length ≤ 16 <;> simp [getGuidOr, internalGetGuid, KcmItem.or, h]

/-- A block counts a parameter that is not empty, and counts it again if it is found. -/
theorem block_counts (guid : Except IdentityError Guid) (mask : Nat) (code : IdentityResult) (id : Bytes)
    (c : IdentityCheck) (hmask : 0 < mask) (hcode : code ≠ .none)
    (hc : c.result ≠ .none ∧ c.parametersOk ≤ c.parametersSet) :
    let d := c.block guid mask code (passed id)
    (d.result ≠ .none ∧ d.parametersOk ≤ d.parametersSet) ∧ d.parametersSet = c.parametersSet + (if id = [] then 0 else mask) ∧
      (d.parametersSet = d.parametersOk ↔ c.parametersSet = c.parametersOk ∧ (id = [] ∨ Found guid id)) := by
  obtain ⟨hresult, hle⟩ := hc
  cases id with
  | nil => simpa [passed, IdentityCheck.block] using ⟨hresult, hle⟩
  | cons b bs =>
    cases guid with
    | error err =>
      simp [passed, IdentityCheck.block, Found, hresult]
      omega
    | ok g =>
      by_cases h : internalCompare g (b :: bs) = true
      · simp [passed, IdentityCheck.block, Found, h, hresult, hle]
      · simp [passed, IdentityCheck.block, Found, h, hcode]
        omega

/-- A manifest passes if its identifiers start as those of the device do. -/
theorem validateFirmwareApplicability_eq_none (p : Provisioning) (ids : Identifiers) :
    validateFirmwareApplicability p ids = .none ↔ Required StartsWith p ids := by
  obtain ⟨hc, hdevice, hsame⟩ := block_counts (internalGetGuid p.endpointName) 1 .guidDevice ids.device
    ⟨.nullPtr, 0, 0⟩ Nat.one_pos nofun ⟨nofun, Nat.le_refl _⟩
  obtain ⟨hc, hclass, hsame'⟩ := block_counts (getGuidOr p.classId p.modelNumber) 1 .guidDevclass ids.cls _
    Nat.one_pos nofun hc
  obtain ⟨hc, hvendor, hsame''⟩ := block_counts (getGuidOr p.vendorId p.manufacturer) 16 .guidVendor
    ids.vendor _ (by decide) nofun hc
  have hempty : ¬ StartsWith (p.vendorId.or p.manufacturer) [] := by
    rintro ⟨value, -, hle, hstarts⟩
    have hlength := hstarts.length_le
    rw [length_append, length_replicate, length_nil] at hlength
    omega
  rw [hsame', hsame, found_internalGetGuid, found_getGuidOr, found_getGuidOr] at hsame''
  rw [hclass, hdevice] at hvendor
  rw [validateFirmwareApplicability, deviceIdentityCheck, getDeviceGuid, getClassGuid, getVendorGuid]
  simp only at hvendor hsame'' ⊢
  split
  · next h =>
    rw [hsame'', hvendor] at h
    obtain ⟨hset, ⟨⟨-, hdev⟩, hcls⟩, hven⟩ := h
    have hpresent : ids.vendor ≠ [] := by
      intro hnil
      split_ifs at hset <;> omega
    exact iff_of_true rfl ⟨hven.resolve_left hpresent, hcls, hdev⟩
  · next h =>
    rw [hsame'', hvendor] at h
    refine iff_of_false hc.1 fun ⟨hven, hcls, hdev⟩ => h ⟨?_, ⟨⟨trivial, hdev⟩, hcls⟩, .inr hven⟩
    rw [if_neg (fun hnil : ids.vendor = [] => hempty (hnil ▸ hven))]
    omega

/-- **Identity.** The lengths are not compared: a manifest for another device passes if an identifier is longer
than a GUID or a provisioned value is shorter. -/
theorem checksIdentity_iff (p : Provisioning) (ids : Identifiers) :
    ChecksIdentity p ids ↔ (Required StartsWith p ids → Required GuidSized p ids) := by
  have hsame : Required SameGuid p ids ↔ Required StartsWith p ids ∧ Required GuidSized p ids := by
    rw [← required_and]
    simp only [Required, sameGuid_iff]
  rw [ChecksIdentity, validateFirmwareApplicability_eq_none, hsame]
  tauto

/-- A vendor identifier passes with a byte behind the GUID. -/
theorem not_checksIdentity_longer :
    ¬ ChecksIdentity ⟨.data (replicate 16 7), .notFound, .notFound, .notFound, .notFound⟩ ⟨replicate 17 7, [], []⟩ := by
  intro h
  have hsame := (h.mp (by decide)).1.2
  cases hsame

end MbedCloud.Update

