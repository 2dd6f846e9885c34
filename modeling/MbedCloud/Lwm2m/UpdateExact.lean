import MbedCloud.Lwm2m.Update

/-!
# Instances in the wrong resource

With Post and enough memory, the walk over the instances of a multiple resource creates an instance
for each multiple resource that directly follows, and nothing is removed again.
-/

namespace MbedCloud.Lwm2m

open Lib List

/-! ## Nothing is removed -/

/-- A resource is still the same, with at least its instances. -/
structure Resource.ExtendedBy (r r' : Resource) : Prop where
  name : r'.name = r.name
  nameId : r'.nameId = r.nameId
  multiple : r'.supportsMultipleInstances = r.supportsMultipleInstances
  instances : r.skeleton.2.2 ⊆ r'.skeleton.2.2

def ObjectInstance.ExtendedBy (oi oi' : ObjectInstance) : Prop := Grows Resource.ExtendedBy oi.resources oi'.resources

theorem Resource.ExtendedBy.of_skeleton {r r' : Resource} (hname : r'.name = r.name)
    (h : r'.skeleton = r.skeleton) : r.ExtendedBy r' :=
  ⟨hname, congrArg Prod.fst h, congrArg (fun s => s.2.1) h, h ▸ Subset.refl _⟩

theorem Resource.ExtendedBy.refl (r : Resource) : r.ExtendedBy r := .of_skeleton rfl rfl

theorem Resource.ExtendedBy.trans {r1 r2 r3 : Resource} (h1 : r1.ExtendedBy r2) (h2 : r2.ExtendedBy r3) : r1.ExtendedBy r3 :=
  ⟨h2.name.trans h1.name, h2.nameId.trans h1.nameId, h2.multiple.trans h1.multiple, List.Subset.trans h1.instances h2.instances⟩

theorem ObjectInstance.ExtendedBy.refl (oi : ObjectInstance) : oi.ExtendedBy oi := grows_refl .refl _

theorem ObjectInstance.ExtendedBy.trans {oi1 oi2 oi3 : ObjectInstance} (h1 : oi1.ExtendedBy oi2)
    (h2 : oi2.ExtendedBy oi3) : oi1.ExtendedBy oi3 := Grows.trans .trans h1 h2

variable {r r' : Resource} {oi : ObjectInstance} {index i id j : Nat} {tlv : Bytes} {object object' : Object}

theorem Resource.GrownTo.extendedBy (h : r.GrownTo r') : r.ExtendedBy r' := by
  obtain ⟨new, rfl, -⟩ := h
  refine ⟨rfl, rfl, rfl, ?_⟩
  rw [Resource.skeleton, Resource.skeleton, map_append]
  exact subset_append_left _ _

variable {oi' : ObjectInstance}

theorem ObjectInstance.GrownTo.extendedBy (h : oi.GrownTo oi') : oi.ExtendedBy oi' := h.old.imp fun _ _ hr => hr.extendedBy

variable {env : Env} {update : Bool}

section Extends

variable {op : Operation}

theorem createDynamicResource_extends {allocated multiple : Bool} {id : Nat}
    (hok : oi.createDynamicResource allocated id multiple = some oi') : oi.ExtendedBy oi' := by
  unfold ObjectInstance.createDynamicResource at hok
  split_ifs at hok
  cases hok
  exact grows_append .refl _ _

variable {offsets : List Nat} {t : TypeIdLength}

theorem instanceEntry_extends {x : Bool × Error × Resource} (hok : instanceEntry env tlv update offsets t r = .ok x) :
    r.ExtendedBy x.2.2 := by
  refine .of_skeleton ?_ (instanceEntry_skeleton hok)
  unfold instanceEntry at hok
  split at hok
  · obtain ⟨y, -, hok⟩ := bind_eq_ok hok
    cases hok
    rfl
  · cases hok
    rfl

theorem kept_extends : Kept env tlv op update ObjectInstance.ExtendedBy where
  refl := .refl
  trans := .trans
  entry hr hx := grows_set .refl hr (instanceEntry_extends hx)
  leaf hx := (grows_of_map (leafEntry_map (fun r : Resource => (r.name, r.skeleton)) hx fun _ _ => rfl)).imp
    fun _ _ h => .of_skeleton (congrArg Prod.fst h) (congrArg Prod.snd h)
  newInstance oi _ _ _ _ _ := (grownTo_createDynamicResourceInstance oi _ _ _ _).extendedBy
  newResource _ hok := createDynamicResource_extends hok

end Extends

/-! ## What is created -/

/-- The resource at an index has an instance with the identifier. -/
def HasInstance (i id : Nat) (oi : ObjectInstance) : Prop := ∃ r, oi.resources[i]? = some r ∧ id ∈ r.skeleton.2.2

theorem HasInstance.of_extends (h : HasInstance i id oi) (hext : oi.ExtendedBy oi') : HasInstance i id oi' := by
  obtain ⟨r, hr, hid⟩ := h
  obtain ⟨r', hr', hext⟩ := hext i r hr
  exact ⟨r', hr', hext.instances hid⟩

theorem hasInstance_addInstance (hmultiple : r.supportsMultipleInstances = true)
    (type : ResourceType) (id : Nat) : id ∈ (r.addInstance type id).skeleton.2.2 := by
  apply mem_instances_iff.mp
  unfold Resource.addInstance
  split_ifs with hcond
  · exact ⟨⟨id, ⟨type, true, none⟩⟩, mem_append_right _ (.head _), rfl⟩
  rw [hmultiple, Bool.true_and, Bool.not_eq_true', Bool.not_eq_false] at hcond
  obtain ⟨x, hx, hid⟩ := any_eq_true.mp hcond
  exact ⟨x, hx, of_decide_eq_true hid⟩

/-- With different names, the resource at an index is the first one with its name. -/
theorem ObjectInstance.Distinct.first (hoi : oi.Distinct)
    {y : Resource} (hr : oi.resources[i]? = some r) (hy : oi.resources[j]? = some y) (hj : j < i) :
    y.name ≠ r.name := by
  intro hname
  have hi := (List.getElem?_eq_some_iff.mp hr).1
  have hr' : (oi.resources.map (·.name))[i]? = some r.name := by rw [getElem?_map, hr, Option.map_some]
  have hy' : (oi.resources.map (·.name))[j]? = some r.name := by rw [getElem?_map, hy, Option.map_some, hname]
  have hji := (getElem?_inj (by rw [length_map]; omega) hoi.names).mp (hy'.trans hr'.symm)
  omega

variable {f : Entry} {ls : List Leaf} {form : Form}

section Creates

variable {offsets : List Nat} {o k : Nat} {qs : List Piece} {rest : List Entry} {s : ObjectInstance}
  {x : Error × ObjectInstance} {e : Error}

section

variable (hoi : oi.Distinct) (hr : oi.resources[i]? = some r) (hmultiple : r.supportsMultipleInstances = true)
include hoi hr hmultiple

/-- The instance with the identifier of a multiple resource that the walk comes to. -/
theorem handleInstance_creates {s s' : ObjectInstance} (hs : oi.ExtendedBy s)
    {t : TypeIdLength} (htype : t.type = .multipleResource)
    (hok : handleInstance plenty tlv .post update offsets i t s = .ok (e, s')) : HasInstance i t.id s' := by
  obtain ⟨r1, hr1, hext⟩ := hs i r hr
  have hset : { s with resources := s.resources.set i r1 } = s := by rw [set_eq_self hr1]
  unfold handleInstance at hok
  rw [htype, if_neg (by decide), hr1] at hok
  dsimp only at hok
  rw [instanceEntry_other (by rw [htype]; decide)] at hok
  dsimp only [bind, Except.bind] at hok
  rw [hset, if_neg Bool.false_ne_true] at hok
  cases hok
  have hfirst : ∀ (j : Nat) (y : Resource), j < i → s.resources[j]? = some y → decide (y.name = r1.name) = false := by
    intro j y hj hy
    have hlt := (List.getElem?_eq_some_iff.mp hr).1
    obtain ⟨y', hy', hexty⟩ := hs j _ (getElem?_eq_getElem (Nat.lt_trans hj hlt))
    cases hy.symm.trans hy'
    apply decide_eq_false
    rw [hexty.name, hext.name]
    exact hoi.first hr (getElem?_eq_getElem (Nat.lt_trans hj hlt)) hj
  refine ⟨r1.addInstance r1.base.type t.id, ?_, hasInstance_addInstance (hext.multiple.trans hmultiple) _ _⟩
  exact getElem?_replaceFirst_self hr1 (decide_eq_true rfl) hfirst

variable (hls : ls ≠ []) (hqs : ∀ q, qs.head? = some q → q.type = .objectInstance)
include hls hqs

/-- The walk over the instances of a resource creates those of the multiple resources that follow. -/
theorem resourceInstances_creates (hs : oi.ExtendedBy s)
    (h : Rest tlv o (instancePieces ls ++ (entryPieces rest ++ qs))) (hf : f ∈ followers rest)
    (hok : resourceInstances plenty tlv .post update k offsets o i s = .ok x) : HasInstance i f.piece.id x.2 := by
  refine (Yields.of_eq hok (h.walk_instances
    (fun _ done s => oi.ExtendedBy s ∧ ∀ f ∈ done, HasInstance i f.piece.id s) (fun _ => True) hls hqs
    (fueled_any tlv k) (handleInstance_stop plenty tlv .post update offsets i)
    (fun pre l post _ o ps s _ hs => yields_of_ok fun x hx =>
      ⟨⟨hs.1.trans (kept_extends.of_handleInstance hx), forall_mem_nil _⟩, fun _ => trivial⟩)
    (fun pre f post _ t s htype hid hs => yields_of_ok fun x hx => ?_) ⟨hs, forall_mem_nil _⟩)).1.2 f hf
  have hext := kept_extends.of_handleInstance hx
  refine ⟨hs.1.trans hext, forall_mem_append.mpr ⟨fun f hf => (hs.2 f hf).of_extends hext, forall_mem_singleton.mpr ?_⟩⟩
  rw [← hid]
  exact handleInstance_creates hoi hr hmultiple hs.1 htype hx

theorem eachMultiple_creates (hs : oi.ExtendedBy s) (h : Rest tlv o (instancePieces ls ++ (entryPieces rest ++ qs)))
    (hf : f ∈ followers rest) {offsets indices : List Nat} (hi : i ∈ indices)
    (hok : eachMultiple plenty tlv .post update k offsets o indices (e, s) = .ok x) : HasInstance i f.piece.id x.2 := by
  induction indices generalizing s e with
  | nil => cases hi
  | cons index indices ih =>
    obtain ⟨⟨e1, s1⟩, hr1, hrest⟩ := bind_eq_ok hok
    rcases mem_cons.mp hi with rfl | hi
    · exact (resourceInstances_creates hoi hr hmultiple hls hqs hs h hf hr1).of_extends (kept_extends.of_eachMultiple hrest)
    · exact ih (hs.trans (kept_extends.of_resourceInstances hr1)) hi hrest

end

theorem mem_indicesOf_of {α : Type} {p : α → Bool} {l : List α} {j : Nat} {x : α}
    (hx : l[j]? = some x) (hp : p x = true) : j ∈ indicesOf p l := by
  refine mem_filter.mpr ⟨mem_range.mpr (List.getElem?_eq_some_iff.mp hx).1, ?_⟩
  rw [hx]
  exact hp

/-- The entry of a multiple resource creates the instances of those that follow it. -/
theorem handleResource_creates (hoi : oi.Distinct) (hr : oi.resources[i]? = some r) (hfor : multipleFor id r = true)
    (hs : oi.ExtendedBy s) (h : Rest tlv o ((Entry.multiple form id ls).piece :: (entryPieces rest ++ qs)))
    (hqs : ∀ q, qs.head? = some q → q.type = .objectInstance)
    (hwf : (Entry.multiple form id ls).WellFormed) (hf : f ∈ followers rest)
    (hok : handleResource plenty tlv .post update k offsets ((Entry.multiple form id ls).piece.headerAt o) s = .ok x) :
    HasInstance i f.piece.id x.2 := by
  obtain ⟨-, hls, hfits⟩ := hwf
  have hpieces : ∀ q ∈ instancePieces ls, q.Fits := forall_mem_map.mpr hfits
  obtain ⟨r', hr', hext⟩ := hs i r hr
  have hfor' : multipleFor id r' = true := by
    rw [multipleFor, Resource.isFor, hext.multiple, hext.nameId]
    exact hfor
  have hi : i ∈ indicesOf (multipleFor ((Entry.multiple form id ls).piece.headerAt o).id)
      s.resources := mem_indicesOf_of hr' hfor'
  rw [handleResource_multiple rfl, if_neg (ne_nil_of_mem hi)] at hok
  exact eachMultiple_creates hoi hr (Bool.and_eq_true_iff.mp hfor).1 hls hqs hs (h.body rfl hpieces) hf hi hok

/-- A pass over the resources creates the instances of all multiple resources that follow another. -/
theorem resources_creates (hoi : oi.Distinct) (hr : oi.resources[i]? = some r) {es pre post : List Entry}
    (hes : es = pre ++ .multiple form id ls :: post) (hfor : multipleFor id r = true)
    (hs : oi.ExtendedBy s) (h : Rest tlv o (entryPieces es ++ qs))
    (hqs : ∀ q, qs.head? = some q → q.type = .objectInstance) (hwf : ∀ e ∈ es, e.WellFormed) (hf : f ∈ followers post)
    (hok : resources plenty tlv .post update k offsets o s = .ok x) : HasInstance i f.piece.id x.2 := by
  refine Yields.of_eq (Q := fun x => HasInstance i f.piece.id x.2) hok (h.walk_items Entry.piece
    (fun done s => oi.ExtendedBy s ∧ (pre.length < done.length → HasInstance i f.piece.id s))
    (by simp [hes]) ((fueled_any tlv k).behind o) (fun e _ => e.not_returns)
    (fun pre' e post' hes' o s hrest hs => ?_) (fun hne k' o s h hk hs => ?_) ⟨hs, nofun⟩)
  · refine yields_of_ok fun x hx => ?_
    have hext := kept_extends.of_handleResource hx
    have hhas : pre.length < (pre' ++ [e]).length → HasInstance i f.piece.id x.2 := by
      intro hlt
      by_cases heq : pre.length = pre'.length
      · obtain ⟨rfl, hcons⟩ := append_inj (hes.symm.trans hes') heq
        cases hcons
        exact handleResource_creates hoi hr hfor hs.1 hrest hqs (hwf _ (hes ▸ mem_append_cons_self)) hf hx
      · rw [length_append, length_singleton] at hlt
        exact (hs.2 (by omega)).of_extends hext
    refine ⟨⟨hs.1.trans hext, hhas⟩, fun hpost _ => hhas ?_⟩
    have hlength := congrArg length (hes.symm.trans hes')
    rw [hpost] at hlength
    simp only [length_append, length_cons, length_nil] at hlength ⊢
    omega
  · obtain ⟨q, qs, rfl⟩ := exists_cons_of_ne_nil hne
    refine (h.walk_stop hk ?_ (handleResource_stop plenty tlv .post update k offsets s ?_)).imp fun y hy => ?_
    · rw [hqs q rfl]
      rfl
    · exact hqs q rfl
    · rw [hy]
      exact hs.2 (by rw [hes, length_append, length_cons]; omega)

end Creates

theorem HasInstance.of_shape (h : HasInstance i id oi') (hshape : oi'.shape = oi.shape) : HasInstance i id oi := by
  obtain ⟨r', hr', hid⟩ := h
  obtain ⟨r, hr, hshape⟩ := grows_of_map hshape.symm i r' hr'
  obtain ⟨x', hx', hid⟩ := mem_instances_iff.mpr hid
  obtain ⟨x, hx, hid', -⟩ := shape_instance hshape hx'
  exact ⟨r, hr, mem_instances_iff.mp ⟨x, hx, hid'.trans hid⟩⟩

theorem followersExist_of_deserializeResources {es : List Entry} (h : ResourcesPayload tlv es) (hoi : oi.Distinct)
    (hok : Outcome (fun k => deserializeResources k plenty tlv .post oi)
      (.ok (.none, assignEntries es oi))) : FollowersExist es oi := by
  intro pre form id ls post hes r hr hfor f hf
  obtain ⟨i, hi⟩ := mem_iff_getElem?.mp hr
  obtain ⟨-, k, hk⟩ := hok
  dsimp only at hk
  rw [h.deserializeResources_eq] at hk
  obtain ⟨⟨e, oi1⟩, hcheck, hk⟩ := bind_eq_ok hk
  have hhas := resources_creates hoi hi hes hfor (.refl oi) h.rest_nil (fun q hq => by cases hq)
    h.wellFormed hf hcheck
  have hfinal : HasInstance i f.piece.id (assignEntries es oi) := by
    split at hk
    · exact hhas.of_extends (kept_extends.of_resources hk)
    · cases hk
      exact hhas
  obtain ⟨r', hr', hinstance⟩ := hfinal.of_shape (shape_assignEntries es oi)
  cases hi.symm.trans hr'
  exact mem_instances_iff.mpr hinstance

/-! ## Objects -/

def Object.ExtendedBy (object object' : Object) : Prop :=
  Grows (fun oi oi' => oi'.instanceId = oi.instanceId ∧ oi.ExtendedBy oi') object.instances object'.instances

theorem Object.ExtendedBy.refl (object : Object) : object.ExtendedBy object := grows_refl (fun oi => ⟨rfl, .refl oi⟩) _

theorem Object.ExtendedBy.trans {object1 object2 object3 : Object} (h1 : object1.ExtendedBy object2)
    (h2 : object2.ExtendedBy object3) : object1.ExtendedBy object3 :=
  Grows.trans (fun h h' => ⟨h'.1.trans h.1, h.2.trans h'.2⟩) h1 h2

theorem object_extendedBy_set (hoi : object.instances[index]? = some oi) (hid : oi'.instanceId = oi.instanceId)
    (hext : oi.ExtendedBy oi') : object.ExtendedBy ⟨object.instances.set index oi'⟩ :=
  grows_set (fun oi => ⟨rfl, .refl oi⟩) hoi ⟨hid, hext⟩

def HasInstanceAt (j i id : Nat) (object : Object) : Prop := ∃ oi, object.instances[j]? = some oi ∧ HasInstance i id oi

theorem HasInstanceAt.of_extends (h : HasInstanceAt j i id object) (hext : object.ExtendedBy object') :
    HasInstanceAt j i id object' := by
  obtain ⟨oi, hoi, hhas⟩ := h
  obtain ⟨oi', hoi', -, hext⟩ := hext j oi hoi
  exact ⟨oi', hoi', hhas.of_extends hext⟩

section ObjectLevel

variable {op : Operation} {k o : Nat} {indices : List Nat} {x y : Error × Object} {pre post : List Entry}

theorem eachInstance_extends (hok : eachInstance env tlv op update k o indices x = .ok y) : x.2.ExtendedBy y.2 := by
  induction indices generalizing x with
  | nil =>
    cases hok
    exact .refl _
  | cons index rest ih =>
    unfold eachInstance at hok
    split at hok
    · cases hok
      exact .refl _
    rename_i oi hoi
    obtain ⟨_, hx, hok⟩ := bind_eq_ok hok
    exact (object_extendedBy_set hoi (kept_id.of_resources hx) (kept_extends.of_resources hx)).trans (ih hok)

theorem handleObject_extends {t : TypeIdLength} (hok : handleObject env tlv op update k t object = .ok x) :
    object.ExtendedBy x.2 := by
  unfold handleObject at hok
  split at hok
  · cases hok
    exact .refl _
  · exact eachInstance_extends hok

theorem objectInstances_extends (hok : objectInstances env tlv op update k o object = .ok x) : object.ExtendedBy x.2 := by
  refine (walk_inv (handleObject env tlv op update k) (P := fun s => object.ExtendedBy s) ?_ (.refl object) hok).1
  intro t s e s' hs hstep
  exact hs.trans (handleObject_extends hstep)

theorem eachInstance_creates (hoi : oi.Distinct) (hj : object.instances[j]? = some oi)
    (hr : oi.resources[i]? = some r) {es : List Entry} (hes : es = pre ++ .multiple form id ls :: post)
    (hfor : multipleFor id r = true) {s : Object} (hs : object.ExtendedBy s)
    {qs : List Piece} (h : Rest tlv o (entryPieces es ++ qs))
    (hqs : ∀ q, qs.head? = some q → q.type = .objectInstance) (hwf : ∀ e ∈ es, e.WellFormed) (hf : f ∈ followers post)
    (hmem : j ∈ indices)
    (hindices : ∀ index ∈ indices, index < s.instances.length) {e : Error}
    (hok : eachInstance plenty tlv .post update k o indices (e, s) = .ok x) : HasInstanceAt j i f.piece.id x.2 := by
  induction indices generalizing s e with
  | nil => cases hmem
  | cons index rest ih =>
    have hindex := hindices index (.head _)
    unfold eachInstance at hok
    rw [getElem?_eq_getElem hindex] at hok
    obtain ⟨y, hy, hrest⟩ := bind_eq_ok hok
    have hstep := object_extendedBy_set (getElem?_eq_getElem hindex) (kept_id.of_resources hy) (kept_extends.of_resources hy)
    rcases mem_cons.mp hmem with rfl | hmem
    · obtain ⟨oi1, hoi1, -, hext⟩ := hs j oi hj
      cases (getElem?_eq_getElem hindex).symm.trans hoi1
      have hhas := resources_creates hoi hr hes hfor hext h hqs hwf hf hy
      have hat : HasInstanceAt j i f.piece.id ⟨s.instances.set j y.2⟩ := ⟨y.2, getElem?_set_self hindex, hhas⟩
      exact hat.of_extends (eachInstance_extends hrest)
    · refine ih (hs.trans hstep) hmem (fun index' hindex' => ?_) hrest
      rw [length_set]
      exact hindices index' (mem_cons_of_mem index hindex')

/-- A pass over an object creates the instances of all multiple resources that follow another. -/
theorem objectInstances_creates {os : List ObjectEntry} {oe : ObjectEntry}
    (h : ObjectsPayload tlv os) (hoe : oe ∈ os) (hoi : oi.Distinct)
    (hj : object.instances[j]? = some oi) (hid : oi.instanceId = oe.id)
    (hr : oi.resources[i]? = some r) (hes : oe.entries = pre ++ .multiple form id ls :: post)
    (hfor : multipleFor id r = true) (hf : f ∈ followers post) (hok : objectInstances plenty tlv .post update k 0 object = .ok x) :
    HasInstanceAt j i f.piece.id x.2 := by
  refine Yields.of_eq (Q := fun x => HasInstanceAt j i f.piece.id x.2) hok (h.rest_nil.walk_items ObjectEntry.piece
    (fun done s => object.ExtendedBy s ∧ (oe ∈ done → HasInstanceAt j i f.piece.id s))
    (by simp [h.nonempty]) ((fueled_any tlv k).behind 0)
    (fun oe _ => show returnsInObjects oe.piece.type = false from rfl)
    (fun pre' oe' post' hos o s hrest hs => ?_) (fun hne => absurd rfl hne) ⟨.refl object, nofun⟩)
  refine yields_of_ok fun x hx => ?_
  have hext := handleObject_extends hx
  have hhas : oe ∈ pre' ++ [oe'] → HasInstanceAt j i f.piece.id x.2 := by
    intro hmem
    rcases mem_append.mp hmem with hmem | hmem
    · exact (hs.2 hmem).of_extends hext
    cases mem_singleton.mp hmem
    have hwf := h.wellFormed oe hoe
    obtain ⟨oi1, hoi1, hid1, -⟩ := hs.1 j oi hj
    rw [append_nil] at hrest
    refine eachInstance_creates hoi hj hr hes hfor hs.1 (hrest.body rfl (entryPieces_fits hwf.2.2))
      (fun q hq => objectPieces_head hq) hwf.2.2 hf
      (mem_indicesOf_of hoi1 (decide_eq_true (hid1.trans hid))) (fun index hindex => ?_) hx
    obtain ⟨y, hy, -⟩ := mem_indicesOf hindex
    exact (List.getElem?_eq_some_iff.mp hy).1
  refine ⟨⟨hs.1.trans hext, hhas⟩, fun hpost _ => hhas ?_⟩
  rw [hpost] at hos
  exact hos ▸ hoe

end ObjectLevel

theorem HasInstanceAt.of_shape (h : HasInstanceAt j i id object') (hshape : object'.shape = object.shape) :
    HasInstanceAt j i id object := by
  obtain ⟨oi', hoi', hhas⟩ := h
  obtain ⟨oi, hoi, hshape⟩ := grows_of_map hshape.symm j oi' hoi'
  exact ⟨oi, hoi, hhas.of_shape (congrArg Prod.snd hshape).symm⟩

theorem followersExist_of_deserialiseObjectInstances {os : List ObjectEntry} (h : ObjectsPayload tlv os) (hobject : object.Distinct)
    (hok : Outcome (fun k => deserialiseObjectInstances k plenty tlv .post object)
      (.ok (.none, assignObjects os object))) : ∀ oe ∈ os, oe.FollowersExist object := by
  intro oe hoe oi hoi hid pre form id ls post hes r hr hfor f hf
  obtain ⟨j, hj⟩ := mem_iff_getElem?.mp hoi
  obtain ⟨i, hi⟩ := mem_iff_getElem?.mp hr
  obtain ⟨-, k, hk⟩ := hok
  obtain ⟨type, htype, hk⟩ := bind_eq_ok hk
  cases h.firstType.symm.trans htype
  obtain ⟨⟨e, object1⟩, hcheck, hk⟩ := bind_eq_ok hk
  have hhas := objectInstances_creates h hoe (hobject.instances oi hoi) hj hid hi hes hfor hf hcheck
  have hfinal : HasInstanceAt j i f.piece.id (assignObjects os object) := by
    dsimp only at hk
    split at hk
    · exact hhas.of_extends (objectInstances_extends hk)
    · cases hk
      exact hhas
  obtain ⟨oi', hoi', hhas'⟩ := hfinal.of_shape (shape_assignObjects os object)
  cases hj.symm.trans hoi'
  obtain ⟨r', hr', hinstance⟩ := hhas'
  cases hi.symm.trans hr'
  exact mem_instances_iff.mpr hinstance

/-! ## The exact condition -/

/-- If all paths of a payload exist and are writable, and all values can be stored, an update assigns
each leaf and changes nothing else, apart from the removal that Put prescribes, if and only if, for
Post, every multiple resource that is directly followed by others has instances with their
identifiers. -/
theorem update_iff (op : Operation) :
    (∀ (tlv : List UInt8) (os : List ObjectEntry) (object : Object),
      ObjectsPayload tlv os → object.Distinct → (∀ oe ∈ os, oe.Writable object) →
      ((∀ env : Env, env.Stores → Outcome (fun k => deserialiseObjectInstances k env tlv op object)
          (.ok (.none, assignObjects os object))) ↔
        (op = .post → ∀ oe ∈ os, oe.FollowersExist object))) ∧
    ∀ (tlv : List UInt8) (es : List Entry) (oi : ObjectInstance),
      ResourcesPayload tlv es → oi.Distinct → (∀ e ∈ es, e.Writable oi) →
      ((∀ env : Env, env.Stores → Outcome (fun k => deserializeResources k env tlv op oi)
          (.ok (.none, assignEntries es (op.prescribed es oi)))) ↔
        (op = .post → FollowersExist es oi)) := by
  have hplenty : plenty.Stores := fun _ => rfl
  constructor
  · intro tlv os object h hobject hwritable
    constructor
    · rintro hok rfl
      exact followersExist_of_deserialiseObjectInstances h hobject (hok plenty hplenty)
    · intro hexists env hstores
      exact deserialiseObjectInstances_assign hstores h hobject hwritable hexists
  · intro tlv es oi h hoi hwritable
    constructor
    · rintro hok rfl
      exact followersExist_of_deserializeResources h hoi (hok plenty hplenty)
    · intro hexists env hstores
      exact deserializeResources_assign hstores h hoi hwritable hexists

/-- Two multiple resources, each with an instance 0. -/
def twoMultiples : ObjectInstance :=
  ⟨0, [⟨"0", some 0, ⟨.string, true, none⟩, true, [⟨0, ⟨.string, true, some [65]⟩⟩]⟩,
    ⟨"1", some 1, ⟨.string, true, none⟩, true, [⟨0, ⟨.string, true, some [66]⟩⟩]⟩]⟩

def bothMultiples : List Entry := [.multiple shortForm 0 [⟨shortForm, 0, [67]⟩], .multiple shortForm 1 [⟨shortForm, 0, [68]⟩]]

theorem twoMultiples_distinct : twoMultiples.Distinct := ⟨by decide, by decide, by decide⟩

theorem bothMultiples_writable : ∀ e ∈ bothMultiples, e.Writable twoMultiples := by
  intro e he
  rcases mem_pair.mp he with rfl | rfl
  · exact ⟨_, .head _, rfl, by decide⟩
  · exact ⟨_, .tail _ (.head _), rfl, by decide⟩

/-- Put assigns both values. -/
theorem update_bothMultiples : Outcome (fun k => deserialiseObjectInstances k plenty
      (encodeAll (objectPieces [⟨⟨false, 1⟩, 0, bothMultiples⟩])) .put ⟨[twoMultiples]⟩)
      (.ok (.none, assignObjects [⟨⟨false, 1⟩, 0, bothMultiples⟩] ⟨[twoMultiples]⟩)) := by
  have hpayload : ObjectsPayload (encodeAll (objectPieces [⟨⟨false, 1⟩, 0, bothMultiples⟩]))
      [⟨⟨false, 1⟩, 0, bothMultiples⟩] := ⟨rfl, by decide, by decide, by decide⟩
  refine ((update_iff .put).1 _ _ _ hpayload ⟨by decide, fun oi hoi => ?_⟩ fun oe hoe => ?_).mpr (by simp) plenty fun _ => rfl
  · cases mem_singleton.mp hoi
    exact twoMultiples_distinct
  · cases mem_singleton.mp hoe
    exact ⟨twoMultiples, .head _, rfl, bothMultiples_writable⟩

/-- Post creates instance 1 in the first resource, which is the identifier of the second resource. -/
theorem not_update_bothMultiples : ResourcesPayload (encodeAll (entryPieces bothMultiples)) bothMultiples ∧
    (∀ e ∈ bothMultiples, e.Writable twoMultiples) ∧
    Outcome (fun k => deserializeResources k plenty (encodeAll (entryPieces bothMultiples)) .post
      twoMultiples)
      (.ok (.none, ⟨0, [⟨"0", some 0, ⟨.string, true, none⟩, true, [⟨0, ⟨.string, true, some [67]⟩⟩, ⟨1, ⟨.string, true, none⟩⟩]⟩,
        ⟨"1", some 1, ⟨.string, true, none⟩, true, [⟨0, ⟨.string, true, some [68]⟩⟩]⟩]⟩)) := by
  refine ⟨⟨rfl, by decide, by decide, by decide⟩, bothMultiples_writable, by simp, 8, ?_⟩
  decide

end MbedCloud.Lwm2m

