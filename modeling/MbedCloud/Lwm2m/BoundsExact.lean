import MbedCloud.Lwm2m.Bounds

/-!
# The payloads that are safe for all objects

An object instance that has every resource and every resource instance, all of them writable, makes
every read that a payload can cause: no entry of it is refused. If the deserializer is safe for these
objects, then all walks end inside the payload, and so do the values if the check pass can succeed.
-/

namespace MbedCloud.Lwm2m

open Lib List

/-! ## Lost runs -/

/-- A run that had not enough fuel, or read behind the payload. -/
def Lost (e : Stop Fault) : Prop := e = .fuel ∨ ∃ i, e = .fail (.outside i)

/-- A safe computation whose runs are lost or have a property gives a result with the property. -/
theorem Safe.of_yields {α : Type} {E : Nat → Exec Fault α} {Q : α → Prop} (hsafe : Safe E)
    (h : ∀ k, Yields Lost (E k) Q) : ∃ a, Q a := by
  obtain ⟨x, ⟨hfuel, k, rfl⟩, hinside⟩ := hsafe
  rcases h k with ⟨e, rfl | ⟨i, rfl⟩, he⟩ | ⟨a, -, ha⟩
  · exact absurd he hfuel
  · exact absurd he (hinside i)
  · exact ⟨a, ha⟩

theorem yields_rd (tlv : Bytes) (i : Nat) : Yields Lost (rd tlv i) fun b => b < 256 ∧ i < tlv.length := by
  unfold rd
  split
  · rename_i b hb
    exact yields_pure ⟨b.toNat_lt, (List.getElem?_eq_some_iff.mp hb).1⟩
  · exact .inl ⟨_, .inr ⟨i, rfl⟩, rfl⟩

theorem yields_rdBytes (tlv : Bytes) (i len : Nat) : Yields Lost (rdBytes tlv i len) fun _ => 0 < len → i + len ≤ tlv.length := by
  induction len generalizing i with
  | zero => exact yields_pure fun h => absurd h (Nat.lt_irrefl 0)
  | succ len ih =>
    refine yields_bind (yields_rd tlv i) fun b hb => yields_bind (ih (i + 1)) fun bs hbs => ?_
    refine yields_pure fun _ => ?_
    rcases Nat.eq_zero_or_pos len with rfl | hpos
    · omega
    · have := hbs hpos
      omega

theorem yields_deserialiseLength (tlv : Bytes) (n length offset : Nat) :
    Yields Lost (deserialiseLength tlv n length offset) fun _ => True := by
  induction n generalizing length offset with
  | zero => exact yields_pure trivial
  | succ n ih => exact yields_bind (yields_rd tlv offset) fun _ _ => ih _ _

theorem yields_typeIdLength (tlv : Bytes) (o : Nat) : Yields Lost (typeIdLength tlv o) fun t => t.id < 65536 := by
  refine yields_bind (yields_rd tlv o) fun b _ => ?_
  have hID : Yields Lost (deserialiseID tlv (decide (b / 32 % 2 = 1)) (u32 (o + 1)))
      fun r => r.1 < 65536 := by
    refine yields_bind (yields_rd tlv _) fun high hhigh => ?_
    split
    · refine yields_bind (yields_rd tlv _) fun low hlow => yields_pure ?_
      omega
    · exact yields_pure (show high < 65536 by omega)
  refine yields_bind hID fun r hr => yields_bind (yields_deserialiseLength tlv _ _ _) fun r' _ => ?_
  exact yields_pure hr

/-- A walk of which only the runs are lost that have not enough fuel or read behind the payload. -/
theorem yields_lostWalk {σ : Type} {tlv : Bytes} {returns : EntryType → Bool}
    {handle : TypeIdLength → σ → Exec Fault (Error × σ)} {F : σ → Prop} {G : TypeIdLength → Error → Prop}
    (hhandle : ∀ t s, t.id < 65536 → F s → Yields Lost (handle t s) fun r => F r.2 ∧ G t r.1)
    (k o : Nat) {s : σ} (hs : F s) :
    Yields Lost (walk k tlv returns handle o s) fun r => F r.2 ∧
      ∃ ts l, Visits tlv returns o ts ∧ (∀ t ∈ ts, ∃ e, G t e) ∧ ts.getLast? = some l ∧ G l r.1 := by
  refine yields_walk returns (.inl rfl) (fun o => (yields_typeIdLength tlv o).imp fun _ _ => trivial)
    (fun o t s ht hs => ?_) k o hs
  have hid := (yields_typeIdLength tlv o).of_eq ht
  exact hhandle t s hid hs

/-! ## Full objects -/

def plenty : Env := ⟨fun _ _ => true, fun _ => true⟩

/-- A resource that is writable and has all instances, which are writable. -/
structure FullResource (r : Resource) : Prop where
  multiple : r.supportsMultipleInstances = true
  writable : r.base.putAllowed = true
  instances : ∀ id < 65536, id ∈ r.instances.map (·.instanceId)
  writableInstances : ∀ x ∈ r.instances, x.base.putAllowed = true

structure Full (names : List (Option Nat)) (oi : ObjectInstance) : Prop where
  resources : ∀ r ∈ oi.resources, FullResource r
  names : oi.resources.map (·.nameId) = names

section Leaves

variable {tlv : Bytes} {update : Bool} {α : Type} {isFor : α → Bool} {base : α → ResourceBase}
  {setBase : α → ResourceBase → α} {t : TypeIdLength}

theorem yields_writeValue (b : ResourceBase) : Yields Lost (writeValue tlv t true b) fun r =>
      r.1 = .none ∧ r.2.putAllowed = b.putAllowed ∧ ValueInside tlv t := by
  unfold writeValue
  split
  · refine yields_bind (yields_rdBytes tlv t.offset t.length) fun bytes hbytes => ?_
    exact yields_pure ⟨rfl, rfl, hbytes⟩
  · rename_i hzero
    exact yields_pure ⟨rfl, rfl, fun hpos => absurd hpos hzero⟩

/-- A writable leaf is found, and its value is read by the second pass. -/
theorem yields_leafEntry {l : List α} (hfound : ∃ x ∈ l, isFor x = true) (hwritable : ∀ x ∈ l, (base x).putAllowed = true) :
    Yields Lost (leafEntry tlv update true isFor base setBase t l) fun r =>
      r.1 = true ∧ r.2.1 = .none ∧ (update = true → ValueInside tlv t) ∧
        (r.2.2 = l ∨ ∃ b : ResourceBase, b.putAllowed = true ∧ r.2.2 = replaceFirst isFor (setBase · b) l) := by
  unfold leafEntry
  split
  · split
    · rename_i hnone
      obtain ⟨x, hx, hp⟩ := hfound
      exact absurd hp (by simpa using find?_eq_none.mp hnone x hx)
    · rename_i x hx
      refine yields_bind (yields_writeValue (base x)) fun r hr => yields_pure ?_
      refine ⟨rfl, hr.1, fun _ => hr.2.2, .inr ⟨r.2, ?_, rfl⟩⟩
      rw [hr.2.1]
      exact hwritable x (mem_of_find?_eq_some hx)
  · rename_i hcheck
    refine yields_pure ⟨any_eq_true.mpr hfound, if_neg ?_, fun h => absurd h hcheck, .inl rfl⟩
    intro hany
    obtain ⟨x, hx, hp⟩ := any_eq_true.mp hany
    rw [hwritable x hx, Bool.not_true, Bool.and_false] at hp
    cases hp

end Leaves

section Instances

variable {tlv : Bytes} {update : Bool} {t : TypeIdLength} {r : Resource}

theorem FullResource.set_instances (hr : FullResource r) {b : ResourceBase}
    (hb : b.putAllowed = true) (p : ResourceInstance → Bool) :
    FullResource { r with instances := replaceFirst p (ResourceInstance.setBase · b) r.instances } := by
  refine ⟨hr.multiple, hr.writable, fun id hid => ?_, fun x hx => ?_⟩
  · have hids : (replaceFirst p (.setBase · b) r.instances).map (·.instanceId) =
        r.instances.map (·.instanceId) := map_replaceFirst _ (by exact fun _ => rfl) _
    rw [hids]
    exact hr.instances id hid
  · rcases mem_replaceFirst hx with hx | ⟨y, -, -, rfl⟩
    · exact hr.writableInstances x hx
    · exact hb

theorem yields_instanceEntry (hid : t.id < 65536) (hr : FullResource r) (offsets : List Nat) :
    Yields Lost (instanceEntry plenty tlv update offsets t r) fun x =>
      x.2.1 = .none ∧ FullResource x.2.2 ∧ x.2.2.nameId = r.nameId ∧ (x.1 = true ↔ t.type = .resourceInstance) ∧
        (update = true → t.type = .resourceInstance → ValueInside tlv t) := by
  unfold instanceEntry
  split_ifs with htype
  · obtain ⟨x, hx, hxid⟩ := mem_map.mp (hr.instances t.id hid)
    refine yields_bind (yields_leafEntry ⟨x, hx, decide_eq_true hxid⟩ hr.writableInstances)
      fun y hy => yields_pure ?_
    obtain ⟨hfound, hnone, hvalue, hstate⟩ := hy
    refine ⟨hnone, ?_, rfl, ⟨fun _ => htype, fun _ => hfound⟩, fun hupdate _ => hvalue hupdate⟩
    rcases hstate with hstate | ⟨b, hb, hstate⟩
    · rw [hstate]
      exact hr
    · rw [hstate]
      exact hr.set_instances hb _
  · exact yields_pure ⟨rfl, hr, rfl, ⟨fun h => absurd h (by simp), fun h => absurd h htype⟩,
      fun _ h => absurd h htype⟩

variable {id index : Nat}

theorem FullResource.addInstance (hr : FullResource r) (type : ResourceType) (hid : id < 65536) : r.addInstance type id = r := by
  obtain ⟨x, hx, hxid⟩ := mem_map.mp (hr.instances id hid)
  have hany : r.instances.any (fun x => decide (x.instanceId = id)) = true := any_eq_true.mpr ⟨x, hx, decide_eq_true hxid⟩
  rw [Resource.addInstance, hany, Bool.not_true, Bool.and_false]
  rfl

variable {names : List (Option Nat)} {oi : ObjectInstance}

theorem Full.createDynamicResourceInstance (hoi : Full names oi) (allocated : Bool) (name : String)
    (type : ResourceType) (hid : id < 65536) : oi.createDynamicResourceInstance allocated name type id = oi := by
  unfold ObjectInstance.createDynamicResourceInstance
  split
  · rw [replaceFirst_eq_self fun r hr => (hoi.resources r hr).addInstance type hid]
  · rfl

theorem Full.set (hoi : Full names oi) {r r' : Resource}
    (hr : oi.resources[index]? = some r) (hr' : FullResource r') (hname : r'.nameId = r.nameId) :
    Full names { oi with resources := oi.resources.set index r' } := by
  refine ⟨fun x hx => ?_, ?_⟩
  · rcases mem_or_eq_of_mem_set hx with hx | rfl
    · exact hoi.resources x hx
    · exact hr'
  · exact (map_set_eq hr hname).trans hoi.names

theorem Full.length (hoi : Full names oi) : oi.resources.length = names.length := by rw [← hoi.names, length_map]

/-- What an entry in the walk over the instances needs and gives. -/
def InstanceRead (tlv : Bytes) (update : Bool) (t : TypeIdLength) (e : Error) : Prop :=
  (returnsInInstances t.type = false → e = .none) ∧ (update = true → t.type = .resourceInstance → ValueInside tlv t)

theorem yields_handleInstance (hindex : index < names.length) (hid : t.id < 65536) (hoi : Full names oi) (offsets : List Nat) :
    Yields Lost (handleInstance plenty tlv .post update offsets index t oi) fun x =>
      Full names x.2 ∧ InstanceRead tlv update t x.1 := by
  unfold handleInstance
  split_ifs with hreturns
  · refine yields_pure ⟨hoi, fun h => ?_, fun _ htype => ?_⟩
    · rw [hreturns] at h
      cases h
    · rw [htype] at hreturns
      cases hreturns
  split
  · rename_i hnone
    rw [List.getElem?_eq_none_iff, hoi.length] at hnone
    omega
  rename_i r hr
  refine yields_bind (yields_instanceEntry hid (hoi.resources r (mem_of_getElem? hr)) offsets)
    fun x hx => ?_
  obtain ⟨hnone, hfull, hname, -, hvalue⟩ := hx
  have hset := hoi.set hr hfull hname
  dsimp only
  split
  · exact yields_pure ⟨hset, fun _ => hnone, hvalue⟩
  · rw [hset.createDynamicResourceInstance _ _ _ hid]
    exact yields_pure ⟨hset, fun _ => hnone, hvalue⟩

/-- What the walk over the instances of a resource needs and gives. -/
def InstancesRead (tlv : Bytes) (update : Bool) (o : Nat) (e : Error) : Prop :=
  InstancesInside tlv o ∧ (InstancesEnd tlv o → e = .none) ∧ (update = true → InstanceValues tlv o)

theorem yields_resourceInstances (hindex : index < names.length) (hoi : Full names oi) (k : Nat) (offsets : List Nat) (o : Nat) :
    Yields Lost (resourceInstances plenty tlv .post update k offsets o index oi) fun x =>
      Full names x.2 ∧ InstancesRead tlv update o x.1 := by
  refine (yields_lostWalk (F := Full names) (fun t s hid hs => yields_handleInstance hindex hid hs offsets) k o hoi).imp ?_
  rintro x ⟨hfull, ts, l, hv, hts, hl, hread⟩
  refine ⟨hfull, ⟨ts, hv⟩, fun hend => ?_, fun hupdate ts' hv' t ht => ?_⟩
  · obtain ⟨ts', l', hv', hl', hvalid⟩ := hend
    cases hv.unique hv'
    cases hl.symm.trans hl'
    exact hread.1 hvalid
  · cases hv.unique hv'
    obtain ⟨e, -, hvalue⟩ := hts t ht
    exact hvalue hupdate

end Instances

section Resources

variable {tlv : Bytes} {update : Bool} {names : List (Option Nat)} {oi : ObjectInstance}

/-- What an entry in the walk over the resources needs and gives. -/
def ResourceRead (tlv : Bytes) (update : Bool) (t : TypeIdLength) (e : Error) : Prop :=
  (t.type = .multipleResource → InstancesRead tlv update t.offset e) ∧
    (t.type = .resource ∨ t.type = .resourceInstance → e = .none ∧ (update = true → ValueInside tlv t))

theorem Full.set_resources (hoi : Full names oi) {b : ResourceBase} (hb : b.putAllowed = true) (p : Resource → Bool) :
    Full names { oi with resources := replaceFirst p (Resource.setBase · b) oi.resources } := by
  refine ⟨fun r hr => ?_, ?_⟩
  · rcases mem_replaceFirst hr with hr | ⟨r', hr', -, rfl⟩
    · exact hoi.resources r hr
    · have hfull := hoi.resources r' hr'
      exact ⟨hfull.multiple, hb, hfull.instances, hfull.writableInstances⟩
  · have hnames : (replaceFirst p (.setBase · b) oi.resources).map (·.nameId) =
        oi.resources.map (·.nameId) := map_replaceFirst _ (by exact fun _ => rfl) _
    exact hnames.trans hoi.names

variable {t : TypeIdLength}

theorem yields_leafResource (hname : some t.id ∈ names)
    (htype : t.type = .resource ∨ t.type = .resourceInstance) (hoi : Full names oi) (k : Nat)
    (offsets : List Nat) :
    Yields Lost (leafEntry tlv update (plenty.store (t.offset :: offsets)) (Resource.isFor t.id)
      (·.base) Resource.setBase t oi.resources >>= fun x =>
        if x.1 then pure (x.2.1, { oi with resources := x.2.2 })
        else notFoundResource plenty tlv .post update k offsets t oi) fun x =>
      Full names x.2 ∧ ResourceRead tlv update t x.1 := by
  rw [← hoi.names] at hname
  obtain ⟨r, hr, hrname⟩ := mem_map.mp hname
  refine yields_bind (yields_leafEntry ⟨r, hr, decide_eq_true hrname⟩
    fun r hr => (hoi.resources r hr).writable) fun x hx => ?_
  obtain ⟨hfound, hnone, hvalue, hstate⟩ := hx
  rw [if_pos hfound]
  refine yields_pure ⟨?_, fun hmultiple => by simp [hmultiple] at htype, fun _ => ⟨hnone, hvalue⟩⟩
  rcases hstate with hstate | ⟨b, hb, hstate⟩ <;> rw [hstate]
  · exact hoi
  · exact hoi.set_resources hb _

theorem yields_handleResource (hname : some t.id ∈ names) (hoi : Full names oi) (k : Nat) (offsets : List Nat) :
    Yields Lost (handleResource plenty tlv .post update k offsets t oi) fun x =>
      Full names x.2 ∧ ResourceRead tlv update t x.1 := by
  unfold handleResource
  cases htype : t.type with
  | objectInstance => exact yields_pure ⟨hoi, by simp [ResourceRead, htype]⟩
  | multipleResource =>
    have hname' := hname
    rw [← hoi.names] at hname'
    obtain ⟨r, hr, hrname⟩ := mem_map.mp hname'
    have hfor : multipleFor t.id r = true := by
      rw [multipleFor, (hoi.resources r hr).multiple, Bool.true_and]
      exact decide_eq_true hrname
    have hne := indicesOf_ne_nil hr hfor
    rw [if_neg hne]
    refine (yields_eachMultiple (P := Full names) (Q := fun _ => InstancesRead tlv update t.offset) hne
      (fun i hi s hs => yields_resourceInstances ?_ hs k _ _) hoi).imp ?_
    · obtain ⟨x, hx, -⟩ := mem_indicesOf hi
      rw [← hoi.length]
      exact (List.getElem?_eq_some_iff.mp hx).1
    rintro x ⟨hfull, -, -, hread⟩
    exact ⟨hfull, fun _ => hread, by simp [htype]⟩
  | resource => exact yields_leafResource hname (.inl htype) hoi k offsets
  | resourceInstance => exact yields_leafResource hname (.inr htype) hoi k offsets

/-- What the walk over the resources of an object instance needs and gives. -/
def ResourcesRead (tlv : Bytes) (update : Bool) (o : Nat) (e : Error) : Prop :=
  ResourcesInside tlv o ∧ (ResourcesEnd tlv o → e = .none) ∧ (update = true → ResourceValues tlv o)

theorem yields_resources (hnames : ∀ id < 65536, some id ∈ names) (hoi : Full names oi) (k : Nat) (offsets : List Nat) (o : Nat) :
    Yields Lost (resources plenty tlv .post update k offsets o oi) fun x => Full names x.2 ∧ ResourcesRead tlv update o x.1 := by
  refine (yields_lostWalk (F := Full names) (fun t s hid hs => yields_handleResource (hnames t.id hid) hs k offsets)
    k o hoi).imp ?_
  rintro x ⟨hfull, ts, l, hv, hts, hl, hread⟩
  refine ⟨hfull, ⟨ts, hv, fun t ht htype => ?_⟩, fun hend => ?_, fun hupdate ts' hv' t ht => ?_⟩
  · obtain ⟨e, hinstances, -⟩ := hts t ht
    exact (hinstances htype).1
  · obtain ⟨ts', l', hv', hl', hvalid, hinstances⟩ := hend
    cases hv.unique hv'
    cases hl.symm.trans hl'
    cases htype : l.type with
    | objectInstance =>
      rw [htype] at hvalid
      cases hvalid
    | multipleResource => exact (hread.1 htype).2.1 (hinstances htype)
    | resource => exact (hread.2 (.inl htype)).1
    | resourceInstance => exact (hread.2 (.inr htype)).1
  · cases hv.unique hv'
    obtain ⟨e, hinstances, hleaf⟩ := hts t ht
    exact ⟨fun htype => (hleaf htype).2 hupdate, fun htype => (hinstances htype).2.2 hupdate⟩

end Resources

section Objects

variable {tlv : Bytes} {update : Bool} {names : List (Option Nat)} {id : Nat} {object : Object}

def FullObject (names : List (Option Nat)) (id : Nat) (object : Object) : Prop :=
  ∃ oi, object.instances = [oi] ∧ oi.instanceId = id ∧ Full names oi

/-- What an entry of the object needs and gives, if the object has the instance with the
identifier alone. -/
def ObjectRead (tlv : Bytes) (update : Bool) (id : Nat) (t : TypeIdLength) (e : Error) : Prop :=
  (t.type = .objectInstance → t.id = id → ResourcesRead tlv update t.offset e) ∧
    (t.type = .objectInstance → t.id ≠ id → e = .none) ∧ (t.type ≠ .objectInstance → e = .none)

theorem yields_handleObject (hnames : ∀ id < 65536, some id ∈ names)
    (hobject : FullObject names id object) (k : Nat) (t : TypeIdLength) :
    Yields Lost (handleObject plenty tlv .post update k t object) fun x =>
      FullObject names id x.2 ∧ ObjectRead tlv update id t x.1 := by
  obtain ⟨oi, hinstances, hoiid, hoi⟩ := hobject
  obtain ⟨instances⟩ := object
  cases hinstances
  unfold handleObject
  split_ifs with hreturns
  · have htype : t.type ≠ .objectInstance := by
      intro htype
      rw [htype] at hreturns
      cases hreturns
    exact yields_pure ⟨⟨oi, rfl, hoiid, hoi⟩, fun h => absurd h htype, fun h => absurd h htype,
      fun _ => rfl⟩
  have htype := type_of_not_returnsInObjects hreturns
  by_cases hid : t.id = id
  · have hindices : indicesOf (fun oi : ObjectInstance => decide (oi.instanceId = t.id)) [oi] = [0] := by
      simp [indicesOf, hoiid, hid, range_succ]
    rw [hindices]
    refine yields_bind (yields_resources hnames hoi k [t.offset] t.offset).ok fun x hx => ?_
    obtain ⟨hok, hfull, hread⟩ := hx
    exact yields_pure ⟨⟨x.2, rfl, (kept_id.of_resources hok).trans hoiid, hfull⟩, fun _ _ => hread,
      fun _ h => absurd hid h, fun h => absurd htype h⟩
  · have hindices : indicesOf (fun oi : ObjectInstance => decide (oi.instanceId = t.id)) [oi] = [] := by
      have hne : ¬ id = t.id := fun h => hid h.symm
      simp [indicesOf, hoiid, hne, range_succ]
    rw [hindices]
    exact yields_pure ⟨⟨oi, rfl, hoiid, hoi⟩, fun _ h => absurd h hid, fun _ _ => rfl,
      fun h => absurd htype h⟩

theorem yields_objectInstances (hnames : ∀ id < 65536, some id ∈ names) (hobject : FullObject names id object) (k o : Nat) :
    Yields Lost (objectInstances plenty tlv .post update k o object) fun x =>
      FullObject names id x.2 ∧ ∃ ts, Visits tlv returnsInObjects o ts ∧
        (∀ t ∈ ts, t.type = .objectInstance → t.id = id → ResourcesInside tlv t.offset ∧
          (update = true → ResourceValues tlv t.offset)) ∧
        ((∀ l, ts.getLast? = some l → l.type = .objectInstance → l.id = id → ResourcesEnd tlv l.offset) → x.1 = .none) := by
  refine (yields_lostWalk (F := FullObject names id) (fun t s _ hs => yields_handleObject hnames hs k t) k o hobject).imp ?_
  rintro x ⟨hfull, ts, l, hv, hts, hl, hread, hother, hreturns⟩
  refine ⟨hfull, ts, hv, fun t ht htype hid => ?_, fun hend => ?_⟩
  · obtain ⟨e, hread, -⟩ := hts t ht
    obtain ⟨hinside, -, hvalues⟩ := hread htype hid
    exact ⟨hinside, hvalues⟩
  by_cases htype : l.type = .objectInstance
  · by_cases hid : l.id = id
    · exact (hread htype hid).2.1 (hend l hl htype hid)
    · exact hother htype hid
  · exact hreturns htype

end Objects

/-! ## Entry points -/

section

variable {tlv : Bytes} {names : List (Option Nat)} {type : EntryType} {update : Bool} {r : Resource}

/-- The first pass succeeds if it can, and then the second one reads the values. -/
theorem yields_deserializeResources (hnames : ∀ id < 65536, some id ∈ names) {oi : ObjectInstance}
    (hoi : Full names oi) (hfirst : firstType tlv = .ok type)
    (htype : type = .resource ∨ type = .multipleResource) (k : Nat) :
    Yields Lost (deserializeResources k plenty tlv .post oi) fun _ => ResourcesContained tlv := by
  unfold deserializeResources
  rw [hfirst]
  show Yields Lost (if type = .resource ∨ type = .multipleResource then _ else _) _
  rw [if_pos htype]
  refine yields_bind (yields_resources hnames hoi k [] 0) fun x hx => ?_
  obtain ⟨hfull, hinside, hnone, -⟩ := hx
  refine yields_unless (fun _ => ?_) fun hne => ⟨hinside, fun hend => absurd (hnone hend) hne⟩
  refine (yields_resources hnames hfull k [] 0).imp ?_
  rintro y ⟨-, -, -, hvalues⟩
  exact ⟨hinside, fun _ => hvalues rfl⟩

theorem yields_deserialiseObjectInstances (hnames : ∀ id < 65536, some id ∈ names) {id : Nat}
    {object : Object} (hobject : FullObject names id object) (hfirst : firstType tlv = .ok type)
    (htype : type = .objectInstance) (k : Nat) :
    Yields Lost (deserialiseObjectInstances k plenty tlv .post object) fun _ =>
      ∃ ts, Visits tlv returnsInObjects 0 ts ∧ ∀ t ∈ ts, t.type = .objectInstance → t.id = id →
        ResourcesInside tlv t.offset ∧
          ((∀ l, ts.getLast? = some l → l.type = .objectInstance → l.id = id →
            ResourcesEnd tlv l.offset) → ResourceValues tlv t.offset) := by
  unfold deserialiseObjectInstances
  rw [hfirst]
  show Yields Lost (if type = .objectInstance then _ else _) _
  rw [if_pos htype]
  refine yields_bind (yields_objectInstances hnames hobject k 0) fun x hx => ?_
  obtain ⟨hfull, ts, hv, hts, hnone⟩ := hx
  refine yields_unless (fun _ => ?_) fun hne => ⟨ts, hv, fun t ht htype hid =>
    ⟨(hts t ht htype hid).1, fun hend => absurd (hnone hend) hne⟩⟩
  refine (yields_objectInstances hnames hfull k 0).imp ?_
  rintro y ⟨-, ts', hv', hts', -⟩
  cases hv.unique hv'
  exact ⟨ts, hv, fun t ht htype hid => (hts' t ht htype hid).imp_right fun h _ => h rfl⟩

/-- What an entry of a resource alone needs and gives. -/
def OwnInstanceRead (tlv : Bytes) (update : Bool) (t : TypeIdLength) (e : Error) : Prop :=
  (returnsInResource t.type = false → e = .none) ∧ (update = true → t.type = .resourceInstance → ValueInside tlv t)

theorem yields_handleOwnInstance {t : TypeIdLength} (hid : t.id < 65536) (hr : FullResource r) :
    Yields Lost (handleOwnInstance plenty tlv .post update t r) fun x => FullResource x.2 ∧ OwnInstanceRead tlv update t x.1 := by
  unfold handleOwnInstance
  split_ifs with hreturns
  · refine yields_pure ⟨hr, fun h => ?_, fun _ htype => ?_⟩
    · rw [hreturns] at h
      cases h
    · rw [htype] at hreturns
      cases hreturns
  have htype : t.type = .resourceInstance := by
    cases htype : t.type with
    | resourceInstance => rfl
    | objectInstance | multipleResource | resource =>
      rw [htype] at hreturns
      exact absurd rfl hreturns
  refine yields_bind (yields_instanceEntry hid hr []) fun x hx => ?_
  obtain ⟨hnone, hfull, -, hfound, hvalue⟩ := hx
  dsimp only
  rw [if_pos (hfound.mpr htype)]
  exact yields_pure ⟨hfull, fun _ => hnone, hvalue⟩

theorem yields_ownInstances (hr : FullResource r) (k o : Nat) :
    Yields Lost (ownInstances plenty tlv .post update k o r) fun x => FullResource x.2 ∧
      ∃ ts, Visits tlv returnsInResource o ts ∧ (update = true → ∀ t ∈ ts, t.type = .resourceInstance → ValueInside tlv t) ∧
        ((∀ l, ts.getLast? = some l → returnsInResource l.type = false) → x.1 = .none) := by
  refine (yields_lostWalk (F := FullResource) (G := OwnInstanceRead tlv update)
    (fun t s hid hs => yields_handleOwnInstance hid hs) k o hr).imp ?_
  rintro x ⟨hfull, ts, l, hv, hts, hl, hnone, -⟩
  refine ⟨hfull, ts, hv, fun hupdate t ht htype => ?_, fun hend => hnone (hend l hl)⟩
  obtain ⟨e, -, hvalue⟩ := hts t ht
  exact hvalue hupdate htype

theorem yields_deserializeResourceInstances (hr : FullResource r) {b : Nat}
    (hb : rd tlv 0 = .ok b) (htype : EntryType.ofByte b = .multipleResource) (k : Nat) :
    Yields Lost (deserializeResourceInstances k plenty tlv .post r) fun _ => OwnInstancesContained tlv (headerLength b) := by
  unfold deserializeResourceInstances
  rw [hb]
  show Yields Lost (if EntryType.ofByte b = .multipleResource then _ else _) _
  rw [if_pos htype]
  refine yields_bind (yields_ownInstances hr k (headerLength b)) fun x hx => ?_
  obtain ⟨hfull, ts, hv, -, hnone⟩ := hx
  refine yields_unless (fun _ => ?_) fun hne => ⟨ts, hv, fun hend => absurd (hnone hend) hne⟩
  refine (yields_ownInstances hfull k (headerLength b)).imp ?_
  rintro y ⟨-, ts', hv', hvalues, -⟩
  exact ⟨ts', hv', fun _ => hvalues rfl⟩

end

/-! ## The exact condition -/

def resourceBelow (n id : Nat) : Resource :=
  ⟨toString id, some id, ⟨.opaqueData, true, none⟩, true, (List.range n).map fun i => ⟨i, ⟨.opaqueData, true, none⟩⟩⟩

def instanceBelow (n id : Nat) : ObjectInstance := ⟨id, (List.range n).map (resourceBelow n)⟩

variable {n : Nat}

theorem fullResource_below (hn : 65536 ≤ n) (id : Nat) : FullResource (resourceBelow n id) := by
  refine ⟨rfl, rfl, fun i hi => ?_, fun x hx => ?_⟩
  · refine mem_map.mpr ⟨⟨i, ⟨.opaqueData, true, none⟩⟩, ?_, rfl⟩
    exact mem_map.mpr ⟨i, mem_range.mpr (Nat.lt_of_lt_of_le hi hn), rfl⟩
  · obtain ⟨i, -, rfl⟩ := mem_map.mp hx
    rfl

theorem full_below (hn : 65536 ≤ n) (id : Nat) : Full ((List.range n).map some) (instanceBelow n id) := by
  refine ⟨fun r hr => ?_, ?_⟩
  · obtain ⟨i, -, rfl⟩ := mem_map.mp hr
    exact fullResource_below hn i
  · rw [instanceBelow, map_map]
    rfl

theorem some_mem_names (hn : 65536 ≤ n) : ∀ id < 65536, some id ∈ (List.range n).map some := by
  intro id hid
  exact mem_map.mpr ⟨id, mem_range.mpr (Nat.lt_of_lt_of_le hid hn), rfl⟩

/-- The payloads for which the deserializer ends and reads inside the payload, for all operations,
all objects and all ways in which allocations can fail. -/
theorem deserializer_safe_iff (tlv : List UInt8) (hne : 1 ≤ tlv.length) :
    ((∀ env op object, Safe (fun k => deserialiseObjectInstances k env tlv op object)) ↔
      (firstType tlv = .ok .objectInstance → ObjectsContained tlv)) ∧
    ((∀ env op oi, Safe (fun k => deserializeResources k env tlv op oi)) ↔
      ∀ type, firstType tlv = .ok type → type = .resource ∨ type = .multipleResource → ResourcesContained tlv) ∧
    ((∀ env op r, Safe (fun k => deserializeResourceInstances k env tlv op r)) ↔
      ∀ b, rd tlv 0 = .ok b → EntryType.ofByte b = .multipleResource → OwnInstancesContained tlv (headerLength b)) := by
  obtain ⟨n, hn⟩ : ∃ n, 65536 ≤ n := ⟨65536, Nat.le_refl 65536⟩
  refine ⟨⟨fun h hfirst => ?_, fun h env op object => ?_⟩, ⟨fun h type hfirst htype => ?_, fun h env op oi => ?_⟩,
    ⟨fun h b hb htype => ?_, fun h env op r => ?_⟩⟩
  · have hrun := fun id => (h plenty .post ⟨[instanceBelow n id]⟩).of_yields
      (yields_deserialiseObjectInstances (some_mem_names hn) ⟨_, rfl, rfl, full_below hn id⟩ hfirst rfl)
    obtain ⟨-, ts, hv, -⟩ := hrun 0
    refine ⟨ts, hv, fun t ht htype => ?_⟩
    obtain ⟨-, ts', hv', hts⟩ := hrun t.id
    cases hv.unique hv'
    exact hts t ht htype rfl
  · exact safe_deserialiseObjectInstances hne h object
  · obtain ⟨-, hcontained⟩ := (h plenty .post (instanceBelow n 0)).of_yields
      (yields_deserializeResources (some_mem_names hn) (full_below hn 0) hfirst htype)
    exact hcontained
  · exact safe_deserializeResources hne h oi
  · obtain ⟨-, hcontained⟩ := (h plenty .post (resourceBelow n 0)).of_yields
      (yields_deserializeResourceInstances (fullResource_below hn 0) hb htype)
    exact hcontained
  · exact safe_deserializeResourceInstances hne h r

def oneByteEntry : Bytes := [0xC1, 0, 42]

theorem visits_oneByteEntry : Visits oneByteEntry returnsInResources 0 [⟨2, .resource, 0, 1⟩] := .last (by decide) (by decide)

/-- A payload whose walks and values end inside it. -/
theorem deserializer_safe_oneByteEntry :
    1 ≤ oneByteEntry.length ∧ ∀ env op oi, Safe (fun k => deserializeResources k env oneByteEntry op oi) := by
  refine ⟨by decide, (deserializer_safe_iff oneByteEntry (by decide)).2.1.mpr fun type _ _ => ⟨?_, fun _ => ?_⟩⟩
  · refine ⟨_, visits_oneByteEntry, fun t ht htype => ?_⟩
    rw [mem_singleton.mp ht] at htype
    cases htype
  intro ts hv t ht
  rw [hv.unique visits_oneByteEntry] at ht
  rw [mem_singleton.mp ht]
  exact ⟨fun _ _ => by decide, fun htype => by cases htype⟩

/-- The entry of a resource with a value of three bytes, which are not there. -/
theorem not_deserializer_safe : ¬ Safe (fun k => deserializeResources k plenty [0xC3, 0] .put
      ⟨0, [⟨"0", some 0, ⟨.string, true, none⟩, false, []⟩]⟩) := by
  rintro ⟨x, ⟨hfuel, k, rfl⟩, hinside⟩
  cases k with
  | zero => exact hfuel rfl
  | succ k => exact hinside 2 rfl

end MbedCloud.Lwm2m

