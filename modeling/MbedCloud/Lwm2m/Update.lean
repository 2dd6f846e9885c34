import MbedCloud.Lwm2m.Rejection

/-!
# Updates

What an update is to do: every leaf of the payload is assigned to the resource or resource instance
at its path, and nothing else changes (`assignObjects`). The deserializer does this, except that the
walk over the instances of a multiple resource does not end with it: it goes on with the entries of
the multiple resources that follow. With Put they are only not found, but with Post an instance with
the identifier of each of these resources is created in the wrong resource.
-/

namespace MbedCloud.Lwm2m

open Lib List

/-! ## Assignments -/

def Leaf.assign (l : Leaf) (base : ResourceBase) : ResourceBase :=
  { base with value := if l.value = [] then none else some (convertValue base.type l.value) }

def assignInstances (ls : List Leaf) (xs : List ResourceInstance) : List ResourceInstance :=
  ls.foldl (fun xs l =>
    updateWhere (ResourceInstance.isFor l.id) (fun x => x.setBase (l.assign x.base)) xs) xs

def Resource.assign (ls : List Leaf) (r : Resource) : Resource := { r with instances := assignInstances ls r.instances }

def Entry.assign (oi : ObjectInstance) : Entry → ObjectInstance
  | .resource l => { oi with resources := updateWhere (Resource.isFor l.id) (fun r => r.setBase (l.assign r.base)) oi.resources }
  | .multiple _ id ls => { oi with resources := updateWhere (multipleFor id) (Resource.assign ls) oi.resources }

def assignEntries (es : List Entry) (oi : ObjectInstance) : ObjectInstance := es.foldl Entry.assign oi

def ObjectEntry.assign (object : Object) (o : ObjectEntry) : Object :=
  ⟨updateWhere (fun oi => decide (oi.instanceId = o.id)) (assignEntries o.entries) object.instances⟩

def assignObjects (os : List ObjectEntry) (object : Object) : Object := os.foldl ObjectEntry.assign object

/-! ## Objects in which a path names one thing -/

structure ObjectInstance.Distinct (oi : ObjectInstance) : Prop where
  names : (oi.resources.map (·.name)).Nodup
  ids : (oi.resources.filterMap (·.nameId)).Nodup
  instances : ∀ r ∈ oi.resources, (r.instances.map (·.instanceId)).Nodup

structure Object.Distinct (object : Object) : Prop where
  ids : object.ids.Nodup
  instances : ∀ oi ∈ object.instances, oi.Distinct

def Entry.Writable (oi : ObjectInstance) : Entry → Prop
  | .resource l => ∃ r ∈ oi.resources, r.nameId = some l.id ∧ r.base.putAllowed = true
  | .multiple _ id ls => ∃ r ∈ oi.resources, multipleFor id r = true ∧
      ∀ l ∈ ls, ∃ x ∈ r.instances, x.instanceId = l.id ∧ x.base.putAllowed = true

/-- The object instance exists, and the paths below it exist and are writable. -/
def ObjectEntry.Writable (object : Object) (o : ObjectEntry) : Prop :=
  ∃ oi ∈ object.instances, oi.instanceId = o.id ∧ ∀ e ∈ o.entries, e.Writable oi

/-- A multiple resource that is followed by others has instances with their identifiers. -/
def FollowersExist (es : List Entry) (oi : ObjectInstance) : Prop :=
  ∀ pre form id ls post, es = pre ++ .multiple form id ls :: post →
    ∀ r ∈ oi.resources, multipleFor id r = true → ∀ f ∈ followers post, ∃ x ∈ r.instances, x.instanceId = f.piece.id

/-! ## Shapes -/

def Resource.shape (r : Resource) : String × Option Nat × Bool × Bool × List (Nat × Bool) :=
  (r.name, r.nameId, r.base.putAllowed, r.supportsMultipleInstances, r.instances.map fun x => (x.instanceId, x.base.putAllowed))

def ObjectInstance.shape (oi : ObjectInstance) :
    List (String × Option Nat × Bool × Bool × List (Nat × Bool)) := oi.resources.map Resource.shape

section Shapes

variable {oi oi' : ObjectInstance} {r r' : Resource}

theorem shape_mem (h : oi'.shape = oi.shape) (hr : r ∈ oi.resources) :
    ∃ r' ∈ oi'.resources, r'.shape = r.shape := (grows_of_map h).mem hr

theorem shape_instance (h : r'.shape = r.shape) {x : ResourceInstance} (hx : x ∈ r.instances) :
    ∃ x' ∈ r'.instances, x'.instanceId = x.instanceId ∧ x'.base.putAllowed = x.base.putAllowed := by
  obtain ⟨x', hx', heq⟩ := (grows_of_map (congrArg (fun s => s.2.2.2.2) h)).mem hx
  exact ⟨x', hx', congrArg Prod.fst heq, congrArg Prod.snd heq⟩

theorem shape_multipleFor (h : r'.shape = r.shape) (id : Nat) : multipleFor id r' = multipleFor id r := by
  have hname : r'.nameId = r.nameId := congrArg (fun s => s.2.1) h
  have hmultiple : r'.supportsMultipleInstances = r.supportsMultipleInstances := congrArg (fun s => s.2.2.2.1) h
  rw [multipleFor, multipleFor, Resource.isFor, Resource.isFor, hname, hmultiple]

theorem Entry.Writable.of_shape {e : Entry} (he : e.Writable oi) (h : oi'.shape = oi.shape) : e.Writable oi' := by
  cases e with
  | resource l =>
    obtain ⟨r, hr, hname, hallowed⟩ := he
    obtain ⟨r', hr', hshape⟩ := shape_mem h hr
    refine ⟨r', hr', ?_, ?_⟩
    · exact (congrArg (fun s => s.2.1) hshape : r'.nameId = r.nameId).trans hname
    · exact (congrArg (fun s => s.2.2.1) hshape : r'.base.putAllowed = r.base.putAllowed).trans hallowed
  | multiple form id ls =>
    obtain ⟨r, hr, hfor, hinstances⟩ := he
    obtain ⟨r', hr', hshape⟩ := shape_mem h hr
    refine ⟨r', hr', (shape_multipleFor hshape id).trans hfor, fun l hl => ?_⟩
    obtain ⟨x, hx, hid, hallowed⟩ := hinstances l hl
    obtain ⟨x', hx', hid', hallowed'⟩ := shape_instance hshape hx
    exact ⟨x', hx', hid'.trans hid, hallowed'.trans hallowed⟩

theorem FollowersExist.of_shape {es : List Entry} (hes : FollowersExist es oi)
    (h : oi'.shape = oi.shape) : FollowersExist es oi' := by
  intro pre form id ls post heq r' hr' hfor f hf
  obtain ⟨r, hr, hshape⟩ := shape_mem h.symm hr'
  rw [← shape_multipleFor hshape id] at hfor
  obtain ⟨x, hx, hid⟩ := hes pre form id ls post heq r hr hfor f hf
  obtain ⟨x', hx', hid', -⟩ := shape_instance hshape.symm hx
  exact ⟨x', hx', hid'.trans hid⟩

theorem ObjectInstance.Distinct.of_shape (hoi : oi.Distinct) (h : oi'.shape = oi.shape) : oi'.Distinct := by
  have hnames : oi'.resources.map (·.name) = oi.resources.map (·.name) := by
    have := congrArg (List.map Prod.fst) h
    rwa [ObjectInstance.shape, ObjectInstance.shape, map_map, map_map] at this
  have hids : oi'.resources.filterMap (·.nameId) = oi.resources.filterMap (·.nameId) := by
    have := congrArg (List.filterMap fun s => s.2.1) h
    rwa [ObjectInstance.shape, ObjectInstance.shape, filterMap_map, filterMap_map] at this
  refine ⟨hnames ▸ hoi.names, hids ▸ hoi.ids, fun r' hr' => ?_⟩
  obtain ⟨r, hr, hshape⟩ := shape_mem h.symm hr'
  have hinstances := congrArg (fun s => s.2.2.2.2.map Prod.fst) hshape
  simp only [Resource.shape, map_map] at hinstances
  have hr := hoi.instances r hr
  rwa [show r.instances.map (·.instanceId) = r'.instances.map (·.instanceId) from hinstances] at hr

theorem shape_assignInstances (ls : List Leaf) (xs : List ResourceInstance) :
    (assignInstances ls xs).map (fun x => (x.instanceId, x.base.putAllowed)) =
      xs.map fun x => (x.instanceId, x.base.putAllowed) := by
  induction ls generalizing xs with
  | nil => rfl
  | cons l ls ih => exact (ih _).trans (map_updateWhere _ (by exact fun _ => rfl) _)

theorem shape_assign (e : Entry) (oi : ObjectInstance) : (e.assign oi).shape = oi.shape := by
  cases e with
  | resource l => exact map_updateWhere Resource.shape (by exact fun _ => rfl) oi.resources
  | multiple form id ls =>
    refine map_updateWhere Resource.shape (fun r => ?_) oi.resources
    rw [Resource.shape, Resource.assign, shape_assignInstances]
    rfl

theorem shape_assignEntries (es : List Entry) (oi : ObjectInstance) : (assignEntries es oi).shape = oi.shape := by
  induction es generalizing oi with
  | nil => rfl
  | cons e es ih => exact (ih _).trans (shape_assign e oi)

end Shapes

/-! ## Leaves -/

def Env.Stores (env : Env) : Prop := ∀ offsets, env.store offsets = true

variable {o : Nat}

section Leaves

variable {env : Env} {tlv : Bytes} {op : Operation} {update : Bool} {ps : List Piece} {l : Leaf} {type : EntryType}
  {index : Nat} {r : Resource} {oi : ObjectInstance}

theorem writeValue_assign (h : Rest tlv o (l.piece type :: ps)) (base : ResourceBase) :
    writeValue tlv ((l.piece type).headerAt o) true base = .ok (.none, l.assign base) := by
  have hvalue := h.value
  unfold writeValue Leaf.assign
  by_cases hnil : l.value = []
  · have hlength : ¬ ((l.piece type).headerAt o).length > 0 := by
      show ¬ l.value.length > 0
      rw [hnil]
      decide
    rw [if_neg hlength, if_pos hnil]
    rfl
  · have hlength : ((l.piece type).headerAt o).length > 0 := length_pos_iff.mpr hnil
    rw [if_pos hlength, if_neg hnil, hvalue]
    rfl

theorem leafEntry_assign {α : Type} {isFor : α → Bool} {base : α → ResourceBase}
    {setBase : α → ResourceBase → α} {xs pre post : List α} {x : α}
    (h : Rest tlv o (l.piece type :: ps)) (honly : Only isFor xs pre x post)
    (hallowed : (base x).putAllowed = true) :
    leafEntry tlv update true isFor base setBase ((l.piece type).headerAt o) xs =
      .ok (true, .none,
        if update then updateWhere isFor (fun x => setBase x (l.assign (base x))) xs else xs) := by
  unfold leafEntry
  cases update with
  | true =>
    rw [if_pos rfl, if_pos rfl, honly.find?, honly.updateWhere]
    dsimp only
    rw [writeValue_assign h]
    dsimp only [bind, Except.bind, pure, Except.pure]
    rw [honly.replaceFirst]
  | false =>
    have hforbidden : (xs.any fun x => isFor x && !(base x).putAllowed) = false := by
      apply any_eq_false.mpr
      intro y hy hbad
      rw [Bool.and_eq_true] at hbad
      rw [honly.eq_of_mem hy hbad.1, hallowed] at hbad
      exact absurd hbad.2 (by simp)
    rw [if_neg Bool.false_ne_true, if_neg Bool.false_ne_true, honly.any, hforbidden]
    rfl

/-- The instances after the update pass, or after the check pass. -/
def Resource.assignIf (update : Bool) (ls : List Leaf) (r : Resource) : Resource := if update then r.assign ls else r

def ObjectInstance.setResource (oi : ObjectInstance) (index : Nat) (r : Resource) : ObjectInstance :=
  { oi with resources := oi.resources.set index r }

theorem handleInstance_leaf (hstores : env.Stores) (h : Rest tlv o (l.piece .resourceInstance :: ps))
    (hr : oi.resources[index]? = some r) (hnodup : (r.instances.map (·.instanceId)).Nodup)
    (hwritable : ∃ x ∈ r.instances, x.instanceId = l.id ∧ x.base.putAllowed = true) (offsets : List Nat) :
    handleInstance env tlv op update offsets index ((l.piece .resourceInstance).headerAt o) oi =
      .ok (.none, oi.setResource index (r.assignIf update [l])) := by
  obtain ⟨x, hx, hid, hallowed⟩ := hwritable
  have hself : ResourceInstance.isFor l.id x = true := decide_eq_true hid
  obtain ⟨pre, post, honly⟩ := exists_only_map (fun x : ResourceInstance => x.instanceId) hnodup hx
    (fun y hy => (of_decide_eq_true hy).trans hid.symm) hself
  have htype : ((l.piece .resourceInstance).headerAt o).type = .resourceInstance := rfl
  have hleaf : leafEntry tlv update true (ResourceInstance.isFor l.id) (·.base)
      ResourceInstance.setBase ((l.piece .resourceInstance).headerAt o) r.instances = _ :=
    leafEntry_assign h honly hallowed
  have hentry : instanceEntry env tlv update offsets ((l.piece .resourceInstance).headerAt o) r =
      .ok (true, .none, r.assignIf update [l]) := by
    rw [instanceEntry, if_pos htype, hstores]
    show (leafEntry tlv update true (ResourceInstance.isFor l.id) (·.base)
      ResourceInstance.setBase ((l.piece .resourceInstance).headerAt o) r.instances >>= _) = _
    rw [hleaf]
    cases update <;> rfl
  have hreturns : ¬ returnsInInstances ((l.piece .resourceInstance).headerAt o).type = true := Bool.false_ne_true
  unfold handleInstance
  rw [if_neg hreturns, hr]
  dsimp only
  rw [hentry]
  rfl

theorem handleInstance_follower (env : Env) (tlv : Bytes) (update : Bool) (t : TypeIdLength) (htype : t.type = .multipleResource)
    (hnames : (oi.resources.map (·.name)).Nodup) (hr : oi.resources[index]? = some r)
    (hexists : op = .post → ∃ x ∈ r.instances, x.instanceId = t.id) (offsets : List Nat) :
    ∃ e, handleInstance env tlv op update offsets index t oi = .ok (e, oi) := by
  have hset : { oi with resources := oi.resources.set index r } = oi := by rw [set_eq_self hr]
  unfold handleInstance
  rw [htype, if_neg (by decide), hr]
  dsimp only
  rw [instanceEntry_other (by rw [htype]; decide), ok_bind, hset, if_neg Bool.false_ne_true]
  cases op with
  | put => exact ⟨_, rfl⟩
  | post =>
    refine ⟨.none, ?_⟩
    obtain ⟨x, hx, hid⟩ := hexists rfl
    obtain ⟨pre, post, honly⟩ := exists_only_map (p := fun r' : Resource => decide (r'.name = r.name))
      (fun r : Resource => r.name) hnames (mem_of_getElem? hr)
      (fun y hy => of_decide_eq_true hy) (decide_eq_true rfl)
    have hadd : r.addInstance r.base.type t.id = r := by
      have hany : r.instances.any (fun x => decide (x.instanceId = t.id)) = true := any_eq_true.mpr ⟨x, hx, decide_eq_true hid⟩
      rw [Resource.addInstance, hany, Bool.not_true, Bool.and_false]
      rfl
    dsimp only [pure, Except.pure]
    unfold ObjectInstance.createDynamicResourceInstance
    split
    · rw [honly.replaceFirst, hadd, ← honly.eq]
    · rfl

end Leaves

/-! ## The instances of a resource -/

section

variable {env : Env} {tlv : Bytes} {op : Operation} {update : Bool} {ls : List Leaf} {index : Nat} {oi : ObjectInstance}

theorem assignInstances_append (ls ls' : List Leaf) (xs : List ResourceInstance) :
    assignInstances (ls ++ ls') xs = assignInstances ls' (assignInstances ls xs) := foldl_append

theorem Resource.assignIf_append (ls ls' : List Leaf) (r : Resource) :
    r.assignIf update (ls ++ ls') = (r.assignIf update ls).assignIf update ls' := by
  cases update with
  | true =>
    show r.assign (ls ++ ls') = (r.assign ls).assign ls'
    rw [Resource.assign, assignInstances_append]
    rfl
  | false => rfl

theorem Resource.shape_assignIf (update : Bool) (ls : List Leaf) (r : Resource) : (r.assignIf update ls).shape = r.shape := by
  cases update with
  | true =>
    show (r.assign ls).shape = r.shape
    rw [Resource.shape, Resource.assign, shape_assignInstances]
    rfl
  | false => rfl

theorem ObjectInstance.setResource_setResource (oi : ObjectInstance) (index : Nat) (r r' : Resource) :
    (oi.setResource index r).setResource index r' = oi.setResource index r' := by
  rw [ObjectInstance.setResource, ObjectInstance.setResource, ObjectInstance.setResource, set_set]

variable {r : Resource}

theorem ObjectInstance.getElem?_setResource (hr : oi.resources[index]? = some r) (r' : Resource) :
    (oi.setResource index r').resources[index]? = some r' := getElem?_set_self (List.getElem?_eq_some_iff.mp hr).1

theorem ObjectInstance.shape_setResource {r' : Resource} (hr : oi.resources[index]? = some r) (h : r'.shape = r.shape) :
    (oi.setResource index r').shape = oi.shape := map_set_eq hr h

/-- The walk over the instances of a resource, with the entries `rest` that follow it and, behind the
object instance, `qs`. -/
theorem resourceInstances_assign {lost : Stop Fault → Prop} {k : Nat} (update : Bool)
    (hk : Fueled lost tlv k) (hstores : env.Stores) {rest : List Entry} {qs : List Piece}
    (h : Rest tlv o (instancePieces ls ++ (entryPieces rest ++ qs))) (hls : ls ≠ [])
    (hqs : ∀ q, qs.head? = some q → q.type = .objectInstance) (hoi : oi.Distinct) (hr : oi.resources[index]? = some r)
    (hwritable : ∀ l ∈ ls, ∃ x ∈ r.instances, x.instanceId = l.id ∧ x.base.putAllowed = true)
    (hexists : op = .post → ∀ f ∈ followers rest, ∃ x ∈ r.instances, x.instanceId = f.piece.id) (offsets : List Nat) :
    Yields lost (resourceInstances env tlv op update k offsets o index oi) fun x =>
      x.2 = oi.setResource index (r.assignIf update ls) ∧ (rest = [] → qs = [] → x.1 = .none) := by
  have hstart : oi = oi.setResource index (r.assignIf update []) := by
    have hsame : r.assignIf update [] = r := by cases update <;> rfl
    rw [hsame, ObjectInstance.setResource, set_eq_self hr]
  refine h.walk_instances (fun done _ s => s = oi.setResource index (r.assignIf update done))
    (fun e => e = .none) hls hqs hk (handleInstance_stop env tlv op update offsets index)
    (fun pre l post hitems o ps s hrest hs => ?_) (fun pre f post hitems t s htype hid hs => ?_) hstart
  all_goals
    subst hs
  · have hshape := Resource.shape_assignIf update pre r
    have hr' := ObjectInstance.getElem?_setResource hr (r.assignIf update pre)
    have hoi' := hoi.of_shape (ObjectInstance.shape_setResource hr hshape)
    obtain ⟨x, hx, hid, hallowed⟩ := hwritable l (hitems ▸ mem_append_cons_self)
    obtain ⟨x', hx', hid', hallowed'⟩ := shape_instance hshape hx
    rw [handleInstance_leaf hstores hrest hr' (hoi'.instances _ (mem_of_getElem? hr'))
      ⟨x', hx', hid'.trans hid, hallowed'.trans hallowed⟩ offsets]
    refine yields_pure ⟨?_, fun _ => rfl⟩
    rw [Resource.assignIf_append, ObjectInstance.setResource_setResource]
  · have hshape := Resource.shape_assignIf update ls r
    have hr' := ObjectInstance.getElem?_setResource hr (r.assignIf update ls)
    have hoi' := hoi.of_shape (ObjectInstance.shape_setResource hr hshape)
    have hf : f ∈ followers rest := hitems ▸ mem_append_cons_self
    have hexists' : op = .post → ∃ x ∈ (r.assignIf update ls).instances, x.instanceId = t.id := by
      intro hop
      obtain ⟨x, hx, hxid⟩ := hexists hop f hf
      obtain ⟨x', hx', hid', -⟩ := shape_instance hshape hx
      exact ⟨x', hx', (hid'.trans hxid).trans hid.symm⟩
    obtain ⟨e, he⟩ := handleInstance_follower env tlv update t htype hoi'.names hr' hexists' offsets
    rw [he]
    exact yields_pure rfl

end

/-! ## The resources of an object instance -/

section

variable {env : Env} {tlv : Bytes} {op : Operation} {update : Bool}

/-- The object instance after the update pass, or after the check pass. -/
def assignEntriesIf (update : Bool) (es : List Entry) (oi : ObjectInstance) : ObjectInstance :=
  if update then assignEntries es oi else oi

theorem shape_assignEntriesIf (update : Bool) (es : List Entry) (oi : ObjectInstance) :
    (assignEntriesIf update es oi).shape = oi.shape := by
  cases update with
  | true => exact shape_assignEntries es oi
  | false => rfl

theorem assignEntriesIf_concat (es : List Entry) (e : Entry) (oi : ObjectInstance) :
    assignEntriesIf update (es ++ [e]) oi =
      if update then e.assign (assignEntriesIf update es oi) else assignEntriesIf update es oi := by
  cases update with
  | true => exact foldl_append
  | false => rfl

variable {oi : ObjectInstance}

theorem handleResource_resource (hstores : env.Stores) {l : Leaf} {ps : List Piece}
    (h : Rest tlv o ((Entry.resource l).piece :: ps)) (hoi : oi.Distinct)
    (hwritable : (Entry.resource l).Writable oi) (k : Nat) (offsets : List Nat) :
    handleResource env tlv op update k offsets ((Entry.resource l).piece.headerAt o) oi =
      .ok (.none, if update then (Entry.resource l).assign oi else oi) := by
  obtain ⟨r, hr, hname, hallowed⟩ := hwritable
  have hself : Resource.isFor l.id r = true := decide_eq_true hname
  obtain ⟨pre, post, honly⟩ := exists_only (fun r : Resource => r.nameId) hoi.ids hr hname
    (fun y hy => of_decide_eq_true hy) hself
  have hleaf : leafEntry tlv update true (Resource.isFor l.id) (·.base) Resource.setBase
      ((l.piece .resource).headerAt o) oi.resources = _ := leafEntry_assign h honly hallowed
  rw [handleResource_leaf rfl, hstores]
  show (leafEntry tlv update true (Resource.isFor l.id) (·.base) Resource.setBase
    ((l.piece .resource).headerAt o) oi.resources >>= _) = _
  rw [hleaf]
  cases update <;> rfl

variable {qs : List Piece}

theorem handleResource_stop (env : Env) (tlv : Bytes) (op : Operation) (update : Bool) (k : Nat)
    (offsets : List Nat) (oi : ObjectInstance) {t : TypeIdLength} (htype : t.type = .objectInstance) :
    handleResource env tlv op update k offsets t oi = .ok (.notValid, oi) := by
  unfold handleResource
  rw [htype]
  rfl

section

variable {lost : Stop Fault → Prop} {k : Nat} (update) (hk : Fueled lost tlv k)
  (hstores : env.Stores) (hqs : ∀ q, qs.head? = some q → q.type = .objectInstance) (hoi : oi.Distinct)
include hk hstores hqs hoi

/-- The entry of a multiple resource, followed by `rest` and, behind the object instance, by `qs`. -/
theorem handleResource_instances {form : Form} {id : Nat} {ls : List Leaf} {rest : List Entry}
    (h : Rest tlv o ((Entry.multiple form id ls).piece :: (entryPieces rest ++ qs)))
    (hwf : (Entry.multiple form id ls).WellFormed)
    (hwritable : (Entry.multiple form id ls).Writable oi)
    (hexists : op = .post → ∀ r ∈ oi.resources, multipleFor id r = true →
      ∀ f ∈ followers rest, ∃ x ∈ r.instances, x.instanceId = f.piece.id) (offsets : List Nat) :
    Yields lost (handleResource env tlv op update k offsets ((Entry.multiple form id ls).piece.headerAt o) oi) fun x =>
        x.2 = (if update then (Entry.multiple form id ls).assign oi else oi) ∧ (rest = [] → qs = [] → x.1 = .none) := by
  obtain ⟨-, hls, hfits⟩ := hwf
  obtain ⟨r, hr, hfor, hinstances⟩ := hwritable
  have hname : r.nameId = some id := of_decide_eq_true (Bool.and_eq_true_iff.mp hfor).2
  obtain ⟨pre, post, honly⟩ := exists_only (p := multipleFor id) (fun r : Resource => r.nameId)
    hoi.ids hr hname (fun y hy => of_decide_eq_true (Bool.and_eq_true_iff.mp hy).2) hfor
  have hpieces : ∀ q ∈ instancePieces ls, q.Fits := forall_mem_map.mpr hfits
  have hindices : indicesOf (multipleFor ((Entry.multiple form id ls).piece.headerAt o).id)
      oi.resources = [pre.length] := indicesOf_only honly
  have hresult : oi.setResource pre.length (r.assignIf update ls) =
      if update then (Entry.multiple form id ls).assign oi else oi := by
    cases update with
    | true =>
      rw [if_pos rfl, Entry.assign, honly.updateWhere]
      exact congrArg (fun rs => { oi with resources := rs }) (honly.set (r.assign ls))
    | false =>
      show oi.setResource pre.length r = oi
      rw [ObjectInstance.setResource, set_eq_self honly.getElem?]
  rw [handleResource_multiple rfl, hindices, if_neg (cons_ne_nil _ _), ← hresult]
  exact yields_bind (resourceInstances_assign update hk hstores (h.body rfl hpieces) hls hqs hoi
    honly.getElem? hinstances (fun hop f hf => hexists hop r hr hfor f hf) _) fun _ hx => yields_pure hx

/-- The walk over the resources of an object instance, followed by other object instances `qs`. -/
theorem resources_assign {es : List Entry} (h : Rest tlv o (entryPieces es ++ qs)) (hne : es ≠ [])
    (hwf : ∀ e ∈ es, e.WellFormed) (hwritable : ∀ e ∈ es, e.Writable oi)
    (hexists : op = .post → FollowersExist es oi) (offsets : List Nat) :
    Yields lost (resources env tlv op update k offsets o oi) fun x =>
      x.2 = assignEntriesIf update es oi ∧ (qs = [] → x.1 = .none) := by
  have hstart : oi = assignEntriesIf update [] oi := by cases update <;> rfl
  refine h.walk_items Entry.piece (fun done s => s = assignEntriesIf update done oi) (by simp [hne])
    (hk.behind o) (fun e _ => e.not_returns) (fun pre e post hes o s hrest hs => ?_)
    (fun hne k' o s h hk' hs => ?_) hstart
  · subst hs
    have he : e ∈ es := hes ▸ mem_append_cons_self
    have hshape := shape_assignEntriesIf update pre oi
    have hoi' := hoi.of_shape hshape
    have hwritable' := (hwritable e he).of_shape hshape
    suffices hstep : Yields lost (handleResource env tlv op update k offsets (e.piece.headerAt o)
        (assignEntriesIf update pre oi)) fun x => x.2 = assignEntriesIf update (pre ++ [e]) oi ∧
          (post = [] → qs = [] → x.1 = .none) by
      refine hstep.imp fun x hx => ⟨hx.1, fun hpost hqs => ⟨?_, fun _ => hx.2 hpost hqs⟩⟩
      rw [hes, hpost]
      exact hx.1
    rw [assignEntriesIf_concat]
    cases e with
    | resource l =>
      rw [handleResource_resource hstores hrest hoi' hwritable']
      exact yields_pure ⟨rfl, fun _ _ => rfl⟩
    | multiple form id ls =>
      exact handleResource_instances update hk hstores hqs hoi' hrest (hwf _ he) hwritable'
        (fun hop r hr hfor => (hexists hop).of_shape hshape pre form id ls post hes r hr hfor) offsets
  · obtain ⟨q, qs, rfl⟩ := exists_cons_of_ne_nil hne
    have hreturns : returnsInResources q.type = true := by
      rw [hqs q rfl]
      rfl
    exact (h.walk_stop hk' hreturns (handleResource_stop env tlv op update k offsets s (hqs q rfl))).imp
      fun x hx => ⟨hx.trans hs, nofun⟩

end

end

/-! ## The object instances of an object -/

def Object.shape (object : Object) :
    List (Nat × List (String × Option Nat × Bool × Bool × List (Nat × Bool))) :=
  object.instances.map fun oi => (oi.instanceId, oi.shape)

/-- The object after the update pass, or after the check pass. -/
def assignObjectsIf (update : Bool) (os : List ObjectEntry) (object : Object) : Object :=
  if update then assignObjects os object else object

/-- In the object instances that an entry is for, multiple resources have the instances that the walk
over them comes to. -/
def ObjectEntry.FollowersExist (object : Object) (oe : ObjectEntry) : Prop :=
  ∀ oi ∈ object.instances, oi.instanceId = oe.id → Lwm2m.FollowersExist oe.entries oi

section ObjectShapes

variable {object object' : Object}

theorem object_shape_mem (h : object'.shape = object.shape) {oi : ObjectInstance} (hoi : oi ∈ object.instances) :
    ∃ oi' ∈ object'.instances, oi'.instanceId = oi.instanceId ∧ oi'.shape = oi.shape := by
  obtain ⟨oi', hoi', heq⟩ := (grows_of_map h).mem hoi
  exact ⟨oi', hoi', congrArg Prod.fst heq, congrArg Prod.snd heq⟩

theorem Object.Distinct.of_shape (hobject : object.Distinct) (h : object'.shape = object.shape) : object'.Distinct := by
  have hids : object'.ids = object.ids := by
    have := congrArg (List.map Prod.fst) h
    rwa [Object.shape, Object.shape, map_map, map_map] at this
  refine ⟨hids ▸ hobject.ids, fun oi' hoi' => ?_⟩
  obtain ⟨oi, hoi, -, hshape⟩ := object_shape_mem h.symm hoi'
  exact (hobject.instances oi hoi).of_shape hshape.symm

variable {oe : ObjectEntry}

theorem ObjectEntry.Writable.of_shape (hoe : oe.Writable object) (h : object'.shape = object.shape) : oe.Writable object' := by
  obtain ⟨oi, hoi, hid, hentries⟩ := hoe
  obtain ⟨oi', hoi', hid', hshape⟩ := object_shape_mem h hoi
  exact ⟨oi', hoi', hid'.trans hid, fun e he => (hentries e he).of_shape hshape⟩

theorem ObjectEntry.FollowersExist.of_shape (hoe : oe.FollowersExist object)
    (h : object'.shape = object.shape) : oe.FollowersExist object' := by
  intro oi' hoi' hid'
  obtain ⟨oi, hoi, hid, hshape⟩ := object_shape_mem h.symm hoi'
  exact (hoe oi hoi (hid.trans hid')).of_shape hshape.symm

theorem instanceId_assignEntries (es : List Entry) (oi : ObjectInstance) : (assignEntries es oi).instanceId = oi.instanceId := by
  induction es generalizing oi with
  | nil => rfl
  | cons e es ih =>
    refine (ih _).trans ?_
    cases e with
    | resource l => rfl
    | multiple form id ls => rfl

theorem shape_assignObjects (os : List ObjectEntry) (object : Object) : (assignObjects os object).shape = object.shape := by
  induction os generalizing object with
  | nil => rfl
  | cons oe os ih =>
    refine (ih _).trans (map_updateWhere _ (fun oi => ?_) object.instances)
    rw [instanceId_assignEntries, shape_assignEntries]

theorem shape_assignObjectsIf (update : Bool) (os : List ObjectEntry) (object : Object) :
    (assignObjectsIf update os object).shape = object.shape := by
  cases update with
  | true => exact shape_assignObjects os object
  | false => rfl

end ObjectShapes

section Objects

variable {env : Env} {tlv : Bytes} {op : Operation}

theorem entryPieces_fits {es : List Entry} (hwf : ∀ e ∈ es, e.WellFormed) : ∀ p ∈ entryPieces es, p.Fits := by
  intro p hp
  obtain ⟨e, he, rfl⟩ := mem_map.mp hp
  exact (hwf e he).1

variable {os : List ObjectEntry} {object : Object}

theorem objectPieces_head {q : Piece} (hq : (objectPieces os).head? = some q) : q.type = .objectInstance := by
  cases os with
  | nil => cases hq
  | cons oe os =>
    cases hq
    rfl

variable {lost : Stop Fault → Prop} {k : Nat}

theorem handleObject_assign (update : Bool) (hk : Fueled lost tlv k) (hstores : env.Stores)
    {oe : ObjectEntry} {rest : List ObjectEntry} (h : Rest tlv o (oe.piece :: objectPieces rest))
    (hwf : oe.WellFormed) (hobject : object.Distinct) (hwritable : oe.Writable object)
    (hexists : op = .post → oe.FollowersExist object) :
    Yields lost (handleObject env tlv op update k (oe.piece.headerAt o) object) fun x =>
      x.2 = (if update then oe.assign object else object) ∧ (rest = [] → x.1 = .none) := by
  obtain ⟨-, hne, hentries⟩ := hwf
  obtain ⟨oi, hoi, hid, hwritable⟩ := hwritable
  obtain ⟨pre, post, honly⟩ := exists_only_map (p := fun oi : ObjectInstance => decide (oi.instanceId = oe.id))
    (fun oi : ObjectInstance => oi.instanceId) hobject.ids hoi
    (fun y hy => (of_decide_eq_true hy).trans hid.symm) (decide_eq_true hid)
  have hindices : indicesOf (fun oi : ObjectInstance =>
      decide (oi.instanceId = (oe.piece.headerAt o).id)) object.instances = [pre.length] :=
    indicesOf_only honly
  have hreturns : ¬ returnsInObjects (oe.piece.headerAt o).type = true := Bool.false_ne_true
  have hresult : (⟨object.instances.set pre.length (assignEntriesIf update oe.entries oi)⟩ : Object) =
      if update then oe.assign object else object := by
    cases update with
    | true =>
      rw [if_pos rfl, ObjectEntry.assign, honly.updateWhere]
      exact congrArg Object.mk (honly.set _)
    | false =>
      show (⟨object.instances.set pre.length oi⟩ : Object) = object
      rw [set_eq_self honly.getElem?]
  simp only [handleObject, if_neg hreturns, hindices, eachInstance, honly.getElem?]
  refine yields_bind (resources_assign update hk hstores (fun q hq => objectPieces_head hq)
    (hobject.instances oi hoi) (h.body rfl (entryPieces_fits hentries)) hne hentries hwritable
    (fun hop => hexists hop oi hoi hid) _) fun x hx => yields_pure ⟨?_, ?_⟩
  · rw [← hresult, ← hx.1]
  · rintro rfl
    exact hx.2 rfl

theorem objectInstances_assign (update : Bool) (hk : Fueled lost tlv k) (hstores : env.Stores)
    (h : ObjectsPayload tlv os) (hobject : object.Distinct) (hwritable : ∀ oe ∈ os, oe.Writable object)
    (hexists : op = .post → ∀ oe ∈ os, oe.FollowersExist object) :
    Yields lost (objectInstances env tlv op update k 0 object) fun x => x = (.none, assignObjectsIf update os object) := by
  have hstart : object = assignObjectsIf update [] object := by cases update <;> rfl
  refine h.rest_nil.walk_items ObjectEntry.piece (fun done s => s = assignObjectsIf update done object)
    (by simp [h.nonempty]) (hk.behind 0) (fun _ _ => rfl) (fun pre oe post hos o s hrest hs => ?_)
    (fun hne => absurd rfl hne) hstart
  subst hs
  have hoe : oe ∈ os := hos ▸ mem_append_cons_self
  have hshape := shape_assignObjectsIf update pre object
  rw [append_nil] at hrest
  have hstep : (if update then oe.assign (assignObjectsIf update pre object)
      else assignObjectsIf update pre object) = assignObjectsIf update (pre ++ [oe]) object := by
    cases update with
    | true =>
      show ObjectEntry.assign (assignObjects pre object) oe = assignObjects (pre ++ [oe]) object
      rw [assignObjects, assignObjects, foldl_append]
      rfl
    | false => rfl
  refine (handleObject_assign update hk hstores hrest (h.wellFormed oe hoe)
    (hobject.of_shape hshape) ((hwritable oe hoe).of_shape hshape)
    (fun hop => (hexists hop oe hoe).of_shape hshape)).imp fun x hx =>
    ⟨hx.1.trans hstep, fun hpost _ => Prod.ext (hx.2 hpost) ?_⟩
  rw [hos, hpost]
  exact hx.1.trans hstep

end Objects

/-! ## Entry points -/

section

variable {env : Env} {tlv : Bytes} {op : Operation}

theorem deserialiseObjectInstances_assign (hstores : env.Stores) {os : List ObjectEntry}
    {object : Object} (h : ObjectsPayload tlv os) (hobject : object.Distinct)
    (hwritable : ∀ oe ∈ os, oe.Writable object) (hexists : op = .post → ∀ oe ∈ os, oe.FollowersExist object) :
    Outcome (fun k => deserialiseObjectInstances k env tlv op object) (.ok (.none, assignObjects os object)) := by
  have hk : Fueled (fun _ => False) tlv (tlv.length + 2) := .inr (Nat.le_refl _)
  obtain ⟨_, hcheck, rfl⟩ := (objectInstances_assign false hk hstores h hobject hwritable hexists).exists_ok
  obtain ⟨_, hupdate, rfl⟩ := (objectInstances_assign true hk hstores h hobject hwritable hexists).exists_ok
  refine ⟨by simp, tlv.length + 2, ?_⟩
  simp only [deserialiseObjectInstances, h.firstType, hcheck, ok_bind]
  exact hupdate

/-- The resources that a payload names. Put removes the others. -/
def ObjectInstance.keepNamed (es : List Entry) (oi : ObjectInstance) : ObjectInstance :=
  { oi with resources := oi.resources.filter fun r => (entryPieces es).any fun p => decide (r.nameId = some p.id) }

/-- What the operation leaves of an object instance before the values are assigned. -/
def Operation.prescribed (op : Operation) (es : List Entry) (oi : ObjectInstance) : ObjectInstance :=
  match op with
  | .put => oi.keepNamed es
  | .post => oi

variable {oi : ObjectInstance} {es : List Entry}

theorem ObjectInstance.Distinct.keepNamed (h : oi.Distinct) (es : List Entry) : (oi.keepNamed es).Distinct := by
  have hsublist : (oi.keepNamed es).resources.Sublist oi.resources := filter_sublist
  refine ⟨h.names.sublist (hsublist.map _), h.ids.sublist (hsublist.filterMap _), fun r hr => ?_⟩
  exact h.instances r (hsublist.subset hr)

theorem Entry.Writable.keepNamed {e : Entry} (h : e.Writable oi) (he : e ∈ es) : e.Writable (oi.keepNamed es) := by
  have hkept : ∀ r ∈ oi.resources, r.nameId = some e.piece.id → r ∈ (oi.keepNamed es).resources := by
    intro r hr hname
    refine mem_filter.mpr ⟨hr, any_eq_true.mpr ⟨e.piece, mem_map_of_mem he, ?_⟩⟩
    exact decide_eq_true hname
  cases e with
  | resource l =>
    obtain ⟨r, hr, hname, hallowed⟩ := h
    exact ⟨r, hkept r hr hname, hname, hallowed⟩
  | multiple form id ls =>
    obtain ⟨r, hr, hfor, hinstances⟩ := h
    exact ⟨r, hkept r hr (of_decide_eq_true (Bool.and_eq_true_iff.mp hfor).2), hfor, hinstances⟩

theorem removing_prescribed {lost : Stop Fault → Prop} {k : Nat} (op : Operation) (h : ResourcesPayload tlv es)
    (hk : Fueled lost tlv k) (oi : ObjectInstance) :
    Yields lost (op.removing (removeResources k tlv) oi) fun oi' => oi' = op.prescribed es oi := by
  refine yields_removing (fun hop => ?_) fun hop => ?_
  all_goals
    subst hop
  · refine yields_bind (h.rest.keepScanned hk (·.nameId) oi.resources) fun kept hkept => yields_pure ?_
    rw [hkept]
    rfl
  · rfl

theorem deserializeResources_assign (hstores : env.Stores)
    (h : ResourcesPayload tlv es) (hoi : oi.Distinct) (hwritable : ∀ e ∈ es, e.Writable oi)
    (hexists : op = .post → FollowersExist es oi) :
    Outcome (fun k => deserializeResources k env tlv op oi) (.ok (.none, assignEntries es (op.prescribed es oi))) := by
  have hk : Fueled (fun _ => False) tlv (tlv.length + 2) := .inr (Nat.le_refl _)
  have hpass := fun (update : Bool) (oi : ObjectInstance) (hoi : oi.Distinct)
      (hwritable : ∀ e ∈ es, e.Writable oi) (hexists : op = .post → FollowersExist es oi) =>
    (resources_assign update hk hstores (fun q hq => by cases hq) hoi h.rest_nil h.nonempty h.wellFormed
      hwritable hexists []).exists_ok
  obtain ⟨⟨e, oi1⟩, hcheck, hoi1, he⟩ := hpass false oi hoi hwritable hexists
  obtain rfl : e = .none := he rfl
  rw [show oi1 = oi from hoi1] at hcheck
  obtain ⟨_, hremoving, rfl⟩ := (removing_prescribed op h hk oi).exists_ok
  have hprescribed : (op.prescribed es oi).Distinct ∧ (∀ e ∈ es, e.Writable (op.prescribed es oi)) ∧
      (op = .post → FollowersExist es (op.prescribed es oi)) := by
    cases op with
    | put => exact ⟨hoi.keepNamed es, fun e he => (hwritable e he).keepNamed he, fun hop => by cases hop⟩
    | post => exact ⟨hoi, hwritable, hexists⟩
  obtain ⟨hoi', hwritable', hexists'⟩ := hprescribed
  obtain ⟨⟨e, _⟩, hupdate, rfl, he⟩ := hpass true _ hoi' hwritable' hexists'
  obtain rfl : e = .none := he rfl
  refine ⟨by simp, tlv.length + 2, ?_⟩
  dsimp only
  rw [h.deserializeResources_eq, hcheck, ok_bind, if_pos rfl]
  exact (congrArg (· >>= _) hremoving).trans hupdate

end

end MbedCloud.Lwm2m

