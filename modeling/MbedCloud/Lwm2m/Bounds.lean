import MbedCloud.Lwm2m.Walk

/-!
# Reads inside the payload

Headers are decoded before anything is compared with the size of the payload, the walk over the
instances of a resource starts even if there are none, and the length of an entry is not checked
before its value is read. Which payloads are safe for all objects is a property of the walks alone:
every entry that they visit is decoded inside the payload, and, if the check pass can succeed,
every value lies inside it.

The reads of an object that has all resources and resource instances show that nothing less is
enough.
-/

namespace MbedCloud.Lwm2m

open Lib List

/-! ## Safe computations -/

/-- No byte behind the payload is read. -/
def Inside {α : Type} (x : Exec Fault α) : Prop := ∀ i, x ≠ .error (.fail (.outside i))

/-- A computation ends, and reads no byte behind the payload. -/
def Safe {α : Type} (E : Nat → Exec Fault α) : Prop := ∃ x, Outcome E x ∧ Inside x

/-- A dereferenced `NULL`, which is no read behind the payload. -/
def Null (e : Stop Fault) : Prop := e = .fail .null

section Safe

variable {α : Type}

theorem safe_of_yields {E : Nat → Exec Fault α} {k : Nat} {Q : α → Prop} (h : Yields Null (E k) Q) : Safe E := by
  rcases h with ⟨e, rfl, he⟩ | ⟨a, ha, -⟩
  · exact ⟨_, ⟨by simp, k, he⟩, fun i hi => by cases hi⟩
  · exact ⟨_, ⟨by simp, k, ha⟩, fun i hi => by cases hi⟩

variable {lost : Stop Fault → Prop}

theorem yields_unless {error : Error} {x : Exec Fault α} {a : α} {Q : α → Prop}
    (h : error = .none → Yields lost x Q) (hne : error ≠ .none → Q a) :
    Yields lost (if error = .none then x else pure a) Q := by
  split
  · rename_i hnone
    exact h hnone
  · rename_i herror
    exact yields_pure (hne herror)

theorem yields_removing {op : Operation} {remove : α → Exec Fault α} {x : α} {Q : α → Prop}
    (hput : op = .put → Yields lost (remove x) Q) (hpost : op = .post → Q x) :
    Yields lost (op.removing remove x) Q := by
  cases op with
  | put => exact hput rfl
  | post => exact yields_pure (hpost rfl)

end Safe

/-! ## Conditions on the payload -/

section

variable (tlv : Bytes)

def ValueInside (t : TypeIdLength) : Prop := 0 < t.length → t.offset + t.length ≤ tlv.length

/-- The walk of `deserialize_resource_instances` from an offset ends inside the payload. -/
def InstancesInside (o : Nat) : Prop := ∃ ts, Visits tlv returnsInInstances o ts

def InstanceValues (o : Nat) : Prop :=
  ∀ ts, Visits tlv returnsInInstances o ts → ∀ t ∈ ts, t.type = .resourceInstance → ValueInside tlv t

/-- The walk does not end with an invalid entry. -/
def InstancesEnd (o : Nat) : Prop :=
  ∃ ts t, Visits tlv returnsInInstances o ts ∧ ts.getLast? = some t ∧ returnsInInstances t.type = false

/-- The walk of `deserialize_resources` from an offset ends inside the payload, and so do the walks
over the instances of its resources. -/
def ResourcesInside (o : Nat) : Prop :=
  ∃ ts, Visits tlv returnsInResources o ts ∧ ∀ t ∈ ts, t.type = .multipleResource → InstancesInside tlv t.offset

def ResourceValues (o : Nat) : Prop :=
  ∀ ts, Visits tlv returnsInResources o ts → ∀ t ∈ ts,
    (t.type = .resource ∨ t.type = .resourceInstance → ValueInside tlv t) ∧
      (t.type = .multipleResource → InstanceValues tlv t.offset)

/-- The walk does not end with an invalid entry. -/
def ResourcesEnd (o : Nat) : Prop :=
  ∃ ts t, Visits tlv returnsInResources o ts ∧ ts.getLast? = some t ∧
    returnsInResources t.type = false ∧ (t.type = .multipleResource → InstancesEnd tlv t.offset)

/-- What `deserialize_resources` needs: the second pass is only made if the first one does not end
with an invalid entry. -/
def ResourcesContained : Prop := ResourcesInside tlv 0 ∧ (ResourcesEnd tlv 0 → ResourceValues tlv 0)

/-- What `deserialise_object_instances` needs. An entry of the object is passed over if there is no
instance for it, so the last entry can only be the reason that the second pass is not made for
the instance with its own identifier. -/
def ObjectsContained : Prop :=
  ∃ ts, Visits tlv returnsInObjects 0 ts ∧ ∀ t ∈ ts, t.type = .objectInstance →
    ResourcesInside tlv t.offset ∧
      ((∀ l, ts.getLast? = some l → l.type = .objectInstance → l.id = t.id →
        ResourcesEnd tlv l.offset) → ResourceValues tlv t.offset)

/-- What `deserialize_resource_instances` needs from the offset behind the first header. -/
def OwnInstancesContained (o : Nat) : Prop :=
  ∃ ts, Visits tlv returnsInResource o ts ∧
    ((∀ l, ts.getLast? = some l → returnsInResource l.type = false) → ∀ t ∈ ts, t.type = .resourceInstance → ValueInside tlv t)

end

/-! ## Safe payloads -/

section

variable {tlv : Bytes} {t : TypeIdLength}

theorem rd_inside {i : Nat} (hi : i < tlv.length) : ∃ b, rd tlv i = .ok b := by
  refine ⟨tlv[i].toNat, ?_⟩
  rw [rd, getElem?_eq_getElem hi]

theorem firstType_inside (hne : 1 ≤ tlv.length) : ∃ type, firstType tlv = .ok type := by
  obtain ⟨b, hb⟩ := rd_inside hne
  refine ⟨.ofByte b, ?_⟩
  rw [firstType, hb]
  rfl

theorem rdBytes_inside {i len : Nat} (hi : i + len ≤ tlv.length) : ∃ bytes, rdBytes tlv i len = .ok bytes := by
  induction len generalizing i with
  | zero => exact ⟨[], rfl⟩
  | succ len ih =>
    obtain ⟨b, hb⟩ := rd_inside (show i < tlv.length by omega)
    obtain ⟨bytes, hbytes⟩ := ih (show i + 1 + len ≤ tlv.length by omega)
    refine ⟨.ofNat b :: bytes, ?_⟩
    rw [rdBytes, hb]
    rw [hbytes]
    rfl

theorem writeValue_inside (hvalue : ValueInside tlv t) (stored : Bool) (base : ResourceBase) :
    ∃ r, writeValue tlv t stored base = .ok r := by
  unfold writeValue
  split
  · rename_i hpos
    obtain ⟨bytes, hbytes⟩ := rdBytes_inside (hvalue hpos)
    rw [hbytes]
    split <;> exact ⟨_, rfl⟩
  · exact ⟨_, rfl⟩

theorem leafEntry_inside {α : Type} {update : Bool} (hvalue : update = true → ValueInside tlv t)
    (stored : Bool) (isFor : α → Bool) (base : α → ResourceBase) (setBase : α → ResourceBase → α)
    (l : List α) : ∃ r, leafEntry tlv update stored isFor base setBase t l = .ok r := by
  unfold leafEntry
  split
  · rename_i hupdate
    split
    · exact ⟨_, rfl⟩
    rename_i x _
    obtain ⟨r, hr⟩ := writeValue_inside (hvalue hupdate) stored (base x)
    rw [hr]
    exact ⟨_, rfl⟩
  · exact ⟨_, rfl⟩

end

section Sufficient

variable {env : Env} {tlv : Bytes} {op : Operation} {update : Bool}
  {t : TypeIdLength} {o : Nat} {offsets : List Nat} {oi oi' : ObjectInstance}
  {r : Error × ObjectInstance} {ts : List TypeIdLength} {α : Type} {object : Object}

theorem instanceEntry_inside (hvalue : update = true → t.type = .resourceInstance → ValueInside tlv t) (offsets : List Nat)
    (r : Resource) : ∃ x, instanceEntry env tlv update offsets t r = .ok x := by
  unfold instanceEntry
  split_ifs with htype
  · obtain ⟨x, hx⟩ := leafEntry_inside (fun hupdate => hvalue hupdate htype)
      (env.store (t.offset :: offsets)) (ResourceInstance.isFor t.id) (·.base)
      .setBase r.instances
    rw [hx]
    exact ⟨_, rfl⟩
  · exact ⟨_, rfl⟩

theorem safe_handleInstance (hvalue : update = true → t.type = .resourceInstance → ValueInside tlv t) (offsets : List Nat)
    (index : Nat) (oi : ObjectInstance) :
    Yields Null (handleInstance env tlv op update offsets index t oi) fun r =>
      r.1 = .none → returnsInInstances t.type = false := by
  unfold handleInstance
  split_ifs with hreturns
  · exact yields_pure nofun
  have hvalid := Bool.eq_false_iff.mpr hreturns
  split
  · exact .inl ⟨_, rfl, rfl⟩
  rename_i r _
  obtain ⟨x, hx⟩ := instanceEntry_inside hvalue offsets r
  rw [hx, ok_bind]
  dsimp only
  split
  · exact yields_pure fun _ => hvalid
  split <;> exact yields_pure fun _ => hvalid

section Resources

variable {k : Nat} (hk : Fueled Null tlv k)
include hk

theorem safe_resourceInstances (hinside : InstancesInside tlv o)
    (hvalues : update = true → InstanceValues tlv o) (offsets : List Nat) (index : Nat) (oi : ObjectInstance) :
    Yields Null (resourceInstances env tlv op update k offsets o index oi) fun r => r.1 = .none → InstancesEnd tlv o := by
  obtain ⟨ts, hv⟩ := hinside
  refine (hv.yields_last hk (fun _ => True) (fun t e => e = .none → returnsInInstances t.type = false)
    (fun t ht s _ => ?_) trivial).imp ?_
  · exact (safe_handleInstance (fun hupdate => hvalues hupdate ts hv t ht) offsets index s).imp
      fun _ h => ⟨trivial, h⟩
  · rintro r ⟨-, l, hl, hvalid⟩ hnone
    exact ⟨ts, l, hv, hl, hvalid hnone⟩

theorem safe_notFoundResource (hinside : t.type = .multipleResource → InstancesInside tlv t.offset)
    (hvalues : t.type = .multipleResource → update = true → InstanceValues tlv t.offset)
    (offsets : List Nat) (oi : ObjectInstance) :
    Yields Null (notFoundResource env tlv op update k offsets t oi) fun r =>
      r.1 = .none → t.type = .multipleResource → InstancesEnd tlv t.offset := by
  unfold notFoundResource
  split
  · exact yields_pure nofun
  split
  · split_ifs with htype
    · exact (safe_resourceInstances hk (hinside htype) (hvalues htype) _ _ _).imp fun _ h hnone _ => h hnone
    · exact yields_pure fun _ h => absurd h htype
  · split_ifs with htype
    · exact .inl ⟨_, rfl, rfl⟩
    · exact yields_pure fun _ h => absurd h htype

/-- What an entry of `deserialize_resources` needs: the walk over its instances and the values. -/
structure EntryInside (tlv : Bytes) (update : Bool) (t : TypeIdLength) : Prop where
  instances : t.type = .multipleResource → InstancesInside tlv t.offset
  instanceValues : t.type = .multipleResource → update = true → InstanceValues tlv t.offset
  value : t.type = .resource ∨ t.type = .resourceInstance → update = true → ValueInside tlv t

/-- An entry that is not refused: it does not end the walk, nor do its instances. -/
def EntryEnds (tlv : Bytes) (t : TypeIdLength) (e : Error) : Prop :=
  e = .none → returnsInResources t.type = false ∧ (t.type = .multipleResource → InstancesEnd tlv t.offset)

theorem safe_leafResource (hentry : EntryInside tlv update t)
    (htype : t.type = .resource ∨ t.type = .resourceInstance) (offsets : List Nat)
    (oi : ObjectInstance) :
    Yields Null (leafEntry tlv update (env.store (t.offset :: offsets)) (Resource.isFor t.id)
      (·.base) Resource.setBase t oi.resources >>= fun x =>
        if x.1 then pure (x.2.1, { oi with resources := x.2.2 })
        else notFoundResource env tlv op update k offsets t oi) fun r => EntryEnds tlv t r.1 := by
  have hvalid : returnsInResources t.type = false := by
    rcases htype with h | h <;> rw [h] <;> rfl
  obtain ⟨x, hx⟩ := leafEntry_inside (hentry.value htype) (env.store (t.offset :: offsets))
    (Resource.isFor t.id) (·.base) Resource.setBase oi.resources
  rw [hx, ok_bind]
  split
  · refine yields_pure fun _ => ⟨hvalid, fun h => ?_⟩
    rw [h] at htype
    rcases htype with h | h <;> cases h
  · exact (safe_notFoundResource hk hentry.instances hentry.instanceValues offsets oi).imp
      fun _ h hnone => ⟨hvalid, h hnone⟩

theorem safe_handleResource (hentry : EntryInside tlv update t) (offsets : List Nat) (oi : ObjectInstance) :
    Yields Null (handleResource env tlv op update k offsets t oi) fun r => EntryEnds tlv t r.1 := by
  unfold handleResource
  cases htype : t.type with
  | objectInstance => exact yields_pure nofun
  | multipleResource =>
    have hvalid : returnsInResources t.type = false := by rw [htype]; rfl
    dsimp only
    split_ifs with hne
    · exact (safe_notFoundResource hk hentry.instances hentry.instanceValues offsets oi).imp
        fun _ h hnone => ⟨hvalid, h hnone⟩
    · refine (yields_eachMultiple (P := fun _ => True)
        (Q := fun _ e => e = .none → InstancesEnd tlv t.offset) hne (fun i _ s _ => ?_) trivial).imp ?_
      · exact (safe_resourceInstances hk (hentry.instances htype) (hentry.instanceValues htype) _ i s).imp
          fun _ h => ⟨trivial, h⟩
      · rintro r ⟨-, i, -, hend⟩ hnone
        exact ⟨hvalid, fun _ => hend hnone⟩
  | resource => exact safe_leafResource hk hentry (.inl htype) offsets oi
  | resourceInstance => exact safe_leafResource hk hentry (.inr htype) offsets oi

theorem safe_resources (hinside : ResourcesInside tlv o)
    (hvalues : update = true → ResourceValues tlv o) (offsets : List Nat) (oi : ObjectInstance) :
    Yields Null (resources env tlv op update k offsets o oi) fun r => r.1 = .none → ResourcesEnd tlv o := by
  obtain ⟨ts, hv, hinstances⟩ := hinside
  refine (hv.yields_last hk (fun _ => True) (EntryEnds tlv) (fun t ht s _ => ?_) trivial).imp ?_
  · refine (safe_handleResource hk ⟨hinstances t ht, fun htype hupdate => ?_, fun htype hupdate => ?_⟩
      offsets s).imp fun _ h => ⟨trivial, h⟩
    · exact (hvalues hupdate ts hv t ht).2 htype
    · exact (hvalues hupdate ts hv t ht).1 htype
  · rintro r ⟨-, l, hl, hends⟩ hnone
    exact ⟨ts, l, hv, hl, hends hnone⟩

end Resources

/-! ## Removal -/

theorem scan_succ (id : Option Nat) (k o : Nat) :
    loop (scanStep tlv id) (k + 1) o = if o < tlv.length then typeIdLength tlv o >>= fun t =>
      if id = some t.id then pure true else loop (scanStep tlv id) k t.next else pure false := by
  rw [loop, scanStep]
  split_ifs
  · cases typeIdLength tlv o with
    | error e => rfl
    | ok t =>
      simp only [ok_bind]
      split_ifs <;> rfl
  · rfl

theorem scan_ends {returns : EntryType → Bool} {k : Nat} (hv : Visits tlv returns o ts)
    (hend : ∀ t, ts.getLast? = some t → returns t.type = false) (id : Option Nat)
    (hk : ts.length < k) : ∃ b, loop (scanStep tlv id) k o = .ok b := by
  induction hv generalizing k with
  | @last o t ht hlast =>
    have hnext : ¬ t.next < tlv.length := hlast.resolve_left (by rw [hend t rfl]; exact Bool.false_ne_true)
    obtain ⟨k, rfl⟩ := Nat.exists_eq_add_of_lt hk
    have hrest : loop (scanStep tlv id) ([t].length + k) t.next = .ok false := by
      rw [Nat.add_comm]
      exact (scan_succ id k t.next).trans (if_neg hnext)
    rw [scan_succ, ht, ok_bind, hrest]
    split_ifs <;> exact ⟨_, rfl⟩
  | @more o t ts ht hreturns hnext hrest ih =>
    obtain ⟨k, rfl⟩ := Nat.exists_eq_add_of_lt hk
    obtain ⟨b, hb⟩ := ih (k := (t :: ts).length + k) (fun t' hlast => hend t' (getLast?_cons_of_some hlast))
      (by rw [length_cons]; omega)
    rw [scan_succ, ht, ok_bind, hb]
    split_ifs <;> exact ⟨_, rfl⟩

/-- What is kept of a list, if the search for each identifier ends with a known result. -/
theorem yields_keepScanned {lost : Stop Fault → Prop} {k : Nat} {found : Option Nat → Bool}
    (hscan : ∀ id, Yields lost (loop (scanStep tlv id) k o) fun b => b = found id) (id : α → Option Nat)
    (l : List α) : Yields lost (keepScanned k tlv o id l) fun kept => kept = l.filter fun x => found (id x) := by
  induction l with
  | nil => exact yields_pure rfl
  | cons x l ih =>
    refine yields_bind (hscan (id x)) fun b hb => yields_bind ih fun kept hkept => yields_pure ?_
    rw [hb, hkept, filter_cons]

theorem safe_keepScanned {returns : EntryType → Bool} {k : Nat} (hk : tlv.length + 2 ≤ k)
    (hv : Visits tlv returns o ts) (hend : ∀ t, ts.getLast? = some t → returns t.type = false)
    (id : α → Option Nat) (l : List α) : Yields Null (keepScanned k tlv o id l) fun _ => True := by
  have hlength := hv.length_le
  choose found hfound using fun id => scan_ends hv hend id (show ts.length < k by omega)
  exact (yields_keepScanned (fun id => .inr ⟨_, hfound id, rfl⟩) id l).imp fun _ _ => trivial

/-! ## Identifiers -/

/-- A relation between an object instance before and after that every single change keeps. -/
structure Kept (env : Env) (tlv : Bytes) (op : Operation) (update : Bool)
    (R : ObjectInstance → ObjectInstance → Prop) : Prop where
  refl (oi : ObjectInstance) : R oi oi
  trans {oi1 oi2 oi3 : ObjectInstance} : R oi1 oi2 → R oi2 oi3 → R oi1 oi3
  entry {offsets : List Nat} {index : Nat} {t : TypeIdLength} {oi : ObjectInstance} {r : Resource}
    {x : Bool × Error × Resource} : oi.resources[index]? = some r →
    instanceEntry env tlv update offsets t r = .ok x →
    R oi { oi with resources := oi.resources.set index x.2.2 }
  leaf {stored : Bool} {t : TypeIdLength} {oi : ObjectInstance} {x : Bool × Error × List Resource} :
    leafEntry tlv update stored (Resource.isFor t.id) (·.base) Resource.setBase t oi.resources = .ok x →
    R oi { oi with resources := x.2.2 }
  newInstance (oi : ObjectInstance) (offsets : List Nat) (name : String) (type : ResourceType) (id : Nat) :
    op = .post → R oi (oi.createDynamicResourceInstance (env.create update offsets) name type id)
  newResource {oi oi' : ObjectInstance} {offsets : List Nat} {multiple : Bool} {id : Nat} :
    op = .post → oi.createDynamicResource (env.create update offsets) id multiple = some oi' → R oi oi'

namespace Kept

variable {R : ObjectInstance → ObjectInstance → Prop} (hR : Kept env tlv op update R)

include hR

theorem of_handleInstance {index : Nat} {e : Error}
    (hok : handleInstance env tlv op update offsets index t oi = .ok (e, oi')) : R oi oi' := by
  unfold handleInstance at hok
  split at hok
  · cases hok
    exact hR.refl oi
  split at hok
  · cases hok
  rename_i r hr
  obtain ⟨x, hx, hok⟩ := bind_eq_ok hok
  have hset := hR.entry hr hx
  dsimp only at hok
  split at hok
  · cases hok
    exact hset
  split at hok
  · cases hok
    exact hR.trans hset (hR.newInstance _ _ _ _ _ rfl)
  · cases hok
    exact hset

theorem of_resourceInstances {k o index : Nat} {oi : ObjectInstance}
    (hok : resourceInstances env tlv op update k offsets o index oi = .ok r) : R oi r.2 := by
  refine (walk_inv (handleInstance env tlv op update offsets index) (P := R oi) ?_ (hR.refl oi) hok).1
  intro t s e s' hs hstep
  exact hR.trans hs (hR.of_handleInstance hstep)

theorem of_eachMultiple {k o : Nat} {offsets indices : List Nat} {r r' : Error × ObjectInstance}
    (hok : eachMultiple env tlv op update k offsets o indices r = .ok r') : R r.2 r'.2 := by
  induction indices generalizing r with
  | nil =>
    cases hok
    exact hR.refl _
  | cons index rest ih =>
    obtain ⟨r1, hr1, hok⟩ := bind_eq_ok hok
    exact hR.trans (hR.of_resourceInstances hr1) (ih hok)

theorem of_notFoundResource {k : Nat} {oi : ObjectInstance}
    (hok : notFoundResource env tlv op update k offsets t oi = .ok r) : R oi r.2 := by
  unfold notFoundResource at hok
  split at hok
  · cases hok
    exact hR.refl oi
  split at hok
  · rename_i oi' hcreate
    have hnew := hR.newResource rfl hcreate
    split at hok
    · exact hR.trans hnew (hR.of_resourceInstances hok)
    · cases hok
      exact hnew
  · split_ifs at hok
    cases hok
    exact hR.refl oi

theorem of_handleResource {k : Nat} {oi : ObjectInstance}
    (hok : handleResource env tlv op update k offsets t oi = .ok r) : R oi r.2 := by
  unfold handleResource at hok
  split at hok
  · cases hok
    exact hR.refl oi
  · dsimp only at hok
    split at hok
    · exact hR.of_notFoundResource hok
    · exact hR.of_eachMultiple hok
  all_goals
    obtain ⟨x, hx, hok⟩ := bind_eq_ok hok
    dsimp only at hok
    split at hok
    · cases hok
      exact hR.leaf hx
    · exact hR.of_notFoundResource hok

theorem of_resources {k o : Nat} {oi : ObjectInstance} (hok : resources env tlv op update k offsets o oi = .ok r) : R oi r.2 := by
  refine (walk_inv (handleResource env tlv op update k offsets) (P := R oi) ?_ (hR.refl oi) hok).1
  intro t s e s' hs hstep
  exact hR.trans hs (hR.of_handleResource hstep)

end Kept

theorem kept_id : Kept env tlv op update fun oi oi' => oi'.instanceId = oi.instanceId where
  refl _ := rfl
  trans h1 h2 := h2.trans h1
  entry _ _ := rfl
  leaf _ := rfl
  newInstance oi _ _ _ _ _ := by
    unfold ObjectInstance.createDynamicResourceInstance
    split <;> rfl
  newResource _ hok := by
    unfold ObjectInstance.createDynamicResource at hok
    split_ifs at hok
    cases hok
    rfl

def Object.ids (object : Object) : List Nat := object.instances.map (·.instanceId)

/-! ## Entry points -/

theorem mem_indicesOf {p : α → Bool} {l : List α} {i : Nat} (hi : i ∈ indicesOf p l) : ∃ x, l[i]? = some x ∧ p x = true := by
  obtain ⟨-, hp⟩ := mem_filter.mp hi
  exact (Option.any_eq_true ..).mp hp

theorem indicesOf_ne_nil {p : α → Bool} {l : List α} {x : α} (hx : x ∈ l) (hp : p x = true) : indicesOf p l ≠ [] := by
  obtain ⟨i, hi, rfl⟩ := mem_iff_getElem.mp hx
  apply ne_nil_of_mem (a := i)
  refine mem_filter.mpr ⟨mem_range.mpr hi, ?_⟩
  rw [getElem?_eq_getElem hi]
  exact hp

theorem type_of_not_returnsInObjects (h : ¬ returnsInObjects t.type = true) : t.type = .objectInstance := by
  cases htype : t.type with
  | objectInstance => rfl
  | resourceInstance | multipleResource | resource =>
    rw [htype] at h
    exact absurd rfl h

section Passes

variable {k : Nat} (hk : Fueled Null tlv k)
include hk

theorem safe_eachInstance (hinside : ResourcesInside tlv o)
    (hvalues : update = true → ResourceValues tlv o) {indices : List Nat} (hne : indices ≠ [])
    {r : Error × Object} (hindices : ∀ i ∈ indices, i < r.2.instances.length) :
    Yields Null (eachInstance env tlv op update k o indices r) fun r' =>
      r'.2.ids = r.2.ids ∧ (r'.1 = .none → ResourcesEnd tlv o) := by
  induction indices generalizing r with
  | nil => exact absurd rfl hne
  | cons index rest ih =>
    have hindex := hindices index (.head _)
    unfold eachInstance
    rw [getElem?_eq_getElem hindex]
    refine yields_bind (safe_resources hk hinside hvalues [o] _).ok fun x hx => ?_
    have hids : (⟨r.2.instances.set index x.2⟩ : Object).ids = r.2.ids := by
      have hid : x.2.instanceId = _ := kept_id.of_resources hx.1
      exact map_set_eq (getElem?_eq_getElem hindex) hid
    cases rest with
    | nil => exact yields_pure ⟨hids, hx.2⟩
    | cons index' rest =>
      refine (ih (cons_ne_nil _ _) fun i hi => ?_).imp fun _ h => ⟨h.1.trans hids, h.2⟩
      rw [length_set]
      exact hindices i (.tail _ hi)

theorem safe_handleObject (hinside : t.type = .objectInstance → ResourcesInside tlv t.offset)
    (hvalues : update = true → t.type = .objectInstance → t.id ∈ object.ids → ResourceValues tlv t.offset) :
    Yields Null (handleObject env tlv op update k t object) fun r => r.2.ids = object.ids ∧
      (r.1 = .none → t.type = .objectInstance → t.id ∈ object.ids → ResourcesEnd tlv t.offset) := by
  unfold handleObject
  split_ifs with hreturns
  · refine yields_pure ⟨rfl, fun _ htype => ?_⟩
    rw [htype] at hreturns
    cases hreturns
  have htype := type_of_not_returnsInObjects hreturns
  by_cases hnone : indicesOf (fun oi : ObjectInstance => decide (oi.instanceId = t.id))
      object.instances = []
  · rw [hnone]
    refine yields_pure ⟨rfl, fun _ _ hid => ?_⟩
    obtain ⟨oi, hoi, hid⟩ := mem_map.mp hid
    exact absurd hnone (indicesOf_ne_nil hoi (decide_eq_true hid))
  refine (safe_eachInstance hk (hinside htype) (fun hupdate => hvalues hupdate htype ?_) hnone
    fun i hi => ?_).imp fun _ h => ⟨h.1, fun hnone _ _ => h.2 hnone⟩
  · obtain ⟨i, hi⟩ := exists_mem_of_ne_nil _ hnone
    obtain ⟨oi, hoi, hid⟩ := mem_indicesOf hi
    exact mem_map.mpr ⟨oi, mem_of_getElem? hoi, of_decide_eq_true hid⟩
  · obtain ⟨x, hx, -⟩ := mem_indicesOf hi
    exact (List.getElem?_eq_some_iff.mp hx).1

/-- A pass over an object that succeeds ends with an entry for no instance, or with one whose
resources end well. -/
theorem safe_objectInstances (hv : Visits tlv returnsInObjects o ts)
    (hinside : ∀ t ∈ ts, t.type = .objectInstance → ResourcesInside tlv t.offset)
    (hvalues : update = true → ∀ t ∈ ts, t.type = .objectInstance → t.id ∈ object.ids → ResourceValues tlv t.offset) :
    Yields Null (objectInstances env tlv op update k o object) fun r => r.2.ids = object.ids ∧
      (r.1 = .none → ∀ l, ts.getLast? = some l → l.type = .objectInstance → l.id ∈ object.ids → ResourcesEnd tlv l.offset) := by
  refine (hv.yields_last hk (fun s => s.ids = object.ids) (fun t e => e = .none →
    t.type = .objectInstance → t.id ∈ object.ids → ResourcesEnd tlv t.offset)
    (fun t ht s hs => ?_) rfl).imp ?_
  · rw [← hs] at hvalues ⊢
    exact safe_handleObject hk (hinside t ht) fun hupdate => hvalues hupdate t ht
  · rintro r ⟨hids, l, hl, hend⟩
    refine ⟨hids, fun hnone l' hl' => ?_⟩
    cases hl.symm.trans hl'
    exact hend hnone

end Passes

theorem safe_deserialiseObjectInstances (hne : 1 ≤ tlv.length)
    (h : firstType tlv = .ok .objectInstance → ObjectsContained tlv) (object : Object) :
    Safe (fun k => deserialiseObjectInstances k env tlv op object) := by
  have hk : Fueled Null tlv (tlv.length + 2) := .inr (Nat.le_refl _)
  obtain ⟨type, hfirst⟩ := firstType_inside hne
  refine safe_of_yields (k := tlv.length + 2) (Q := fun _ => True) ?_
  rw [deserialiseObjectInstances, hfirst, ok_bind]
  split_ifs with htype
  · obtain ⟨ts, hv, hentries⟩ := h (htype ▸ hfirst)
    have hinside := fun t ht htype => (hentries t ht htype).1
    refine yields_bind (safe_objectInstances hk hv hinside (by simp)) fun r hr => ?_
    refine yields_unless (fun hnone => ?_) fun _ => trivial
    refine (safe_objectInstances hk hv hinside fun _ t ht htype hid => ?_).imp fun _ _ => trivial
    refine (hentries t ht htype).2 fun l hl hltype hlid => hr.2 hnone l hl hltype ?_
    rw [hlid, ← hr.1]
    exact hid
  · exact yields_pure trivial

theorem safe_deserializeResources (hne : 1 ≤ tlv.length)
    (h : ∀ type, firstType tlv = .ok type → type = .resource ∨ type = .multipleResource →
      ResourcesContained tlv) (oi : ObjectInstance) : Safe (fun k => deserializeResources k env tlv op oi) := by
  have hk : Fueled Null tlv (tlv.length + 2) := .inr (Nat.le_refl _)
  obtain ⟨type, hfirst⟩ := firstType_inside hne
  refine safe_of_yields (k := tlv.length + 2) (Q := fun _ => True) ?_
  rw [deserializeResources, hfirst, ok_bind]
  split_ifs with htype
  · obtain ⟨hinside, hvalues⟩ := h _ hfirst htype
    refine yields_bind (safe_resources hk hinside (by simp) [] oi) fun r hr => ?_
    refine yields_unless (fun hnone => ?_) fun _ => trivial
    obtain ⟨ts, t, hv, hlast, hvalid, hinstances⟩ := hr hnone
    have hend : ResourcesEnd tlv 0 := ⟨ts, t, hv, hlast, hvalid, hinstances⟩
    refine yields_bind (yields_removing (Q := fun _ => True) (fun _ => ?_) fun _ => trivial) fun oi' _ =>
      (safe_resources hk hinside (fun _ => hvalues hend) [] oi').imp fun _ _ => trivial
    refine yields_bind (safe_keepScanned (Nat.le_refl _) hv (fun t' hlast' => ?_) _ _)
      fun _ _ => yields_pure trivial
    cases hlast.symm.trans hlast'
    exact hvalid
  · exact yields_pure trivial

theorem safe_handleOwnInstance (hvalue : update = true → t.type = .resourceInstance → ValueInside tlv t) (r : Resource) :
    Yields Null (handleOwnInstance env tlv op update t r) fun x => x.1 = .none → returnsInResource t.type = false := by
  unfold handleOwnInstance
  split_ifs with hreturns
  · exact yields_pure nofun
  obtain ⟨x, hx⟩ := instanceEntry_inside hvalue [] r
  rw [hx, ok_bind]
  dsimp only
  split
  · exact yields_pure fun _ => Bool.eq_false_iff.mpr hreturns
  split <;> exact yields_pure nofun

theorem safe_ownInstances {k : Nat} (hk : Fueled Null tlv k) (hv : Visits tlv returnsInResource o ts)
    (hvalues : update = true → ∀ t ∈ ts, t.type = .resourceInstance → ValueInside tlv t)
    (r : Resource) : Yields Null (ownInstances env tlv op update k o r) fun x =>
      x.1 = .none → ∀ l, ts.getLast? = some l → returnsInResource l.type = false := by
  refine (hv.yields_last hk (fun _ => True) (fun t e => e = .none → returnsInResource t.type = false)
    (fun t ht s _ => ?_) trivial).imp ?_
  · exact (safe_handleOwnInstance (fun hupdate => hvalues hupdate t ht) s).imp fun _ h => ⟨trivial, h⟩
  · rintro x ⟨-, l, hl, hvalid⟩ hnone l' hl'
    cases hl.symm.trans hl'
    exact hvalid hnone

theorem safe_deserializeResourceInstances (hne : 1 ≤ tlv.length)
    (h : ∀ b, rd tlv 0 = .ok b → EntryType.ofByte b = .multipleResource →
      OwnInstancesContained tlv (headerLength b)) (r : Resource) :
    Safe (fun k => deserializeResourceInstances k env tlv op r) := by
  have hk : Fueled Null tlv (tlv.length + 2) := .inr (Nat.le_refl _)
  obtain ⟨b, hb⟩ := rd_inside hne
  refine safe_of_yields (k := tlv.length + 2) (Q := fun _ => True) ?_
  rw [deserializeResourceInstances, hb, ok_bind]
  split_ifs with htype
  · obtain ⟨ts, hv, hvalues⟩ := h b hb htype
    refine yields_bind (safe_ownInstances hk hv (by simp) r) fun x hx => ?_
    refine yields_unless (fun hnone => ?_) fun _ => trivial
    have hend := hx hnone
    refine yields_bind (yields_removing (Q := fun _ => True) (fun _ => ?_) fun _ => trivial) fun r' _ =>
      (safe_ownInstances hk hv (fun _ => hvalues hend) r').imp fun _ _ => trivial
    exact yields_bind (safe_keepScanned (Nat.le_refl _) hv hend _ _) fun _ _ => yields_pure trivial
  · exact yields_pure trivial

end Sufficient

end MbedCloud.Lwm2m

