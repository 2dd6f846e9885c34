import MbedCloud.Lwm2m.Format

/-!
# The check pass

What the first pass over the resources of a well-formed payload does. It writes no value; with Post
it adds resources and resource instances (`GrownTo`). An entry sets the error if it is refused, and
the entry after it overwrites it.
-/

namespace MbedCloud.Lwm2m

open Lib List

/-! ## Growth -/

/-- Instances may have been added to a resource. -/
def Resource.GrownTo (r r' : Resource) : Prop :=
  ∃ new : List ResourceInstance, r' = { r with instances := r.instances ++ new } ∧ ∀ x ∈ new, x.base.putAllowed = true

/-- Instances may have been added to the resources, and also writable resources that have none. -/
structure ObjectInstance.GrownTo (oi oi' : ObjectInstance) : Prop where
  old : Grows Resource.GrownTo oi.resources oi'.resources
  new : ∀ (i : Nat) (r' : Resource), oi'.resources[i]? = some r' → oi.resources[i]? = none →
    r'.supportsMultipleInstances = false ∧ r'.base.putAllowed = true

theorem Resource.GrownTo.refl (r : Resource) : r.GrownTo r := by
  refine ⟨[], ?_, fun x hx => nomatch hx⟩
  rw [append_nil]

theorem Resource.GrownTo.trans {r1 r2 r3 : Resource} (h1 : r1.GrownTo r2) (h2 : r2.GrownTo r3) : r1.GrownTo r3 := by
  obtain ⟨new1, rfl, hnew1⟩ := h1
  obtain ⟨new2, rfl, hnew2⟩ := h2
  refine ⟨new1 ++ new2, ?_, fun x hx => ?_⟩
  · rw [append_assoc]
  rcases mem_append.mp hx with hx | hx
  · exact hnew1 x hx
  · exact hnew2 x hx

theorem Resource.grownTo_addInstance (r : Resource) (type : ResourceType) (id : Nat) : r.GrownTo (r.addInstance type id) := by
  unfold Resource.addInstance
  split
  · refine ⟨[⟨id, ⟨type, true, none⟩⟩], rfl, fun x hx => ?_⟩
    rw [mem_singleton.mp hx]
  · exact .refl r

namespace ObjectInstance.GrownTo

theorem refl (oi : ObjectInstance) : oi.GrownTo oi := by
  refine ⟨grows_refl .refl _, fun i r' hr' hnone => ?_⟩
  rw [hnone] at hr'
  cases hr'

theorem trans {oi1 oi2 oi3 : ObjectInstance} (h1 : oi1.GrownTo oi2) (h2 : oi2.GrownTo oi3) : oi1.GrownTo oi3 := by
  refine ⟨h1.old.trans .trans h2.old, fun i r3 hr3 hnone => ?_⟩
  cases hr2 : oi2.resources[i]? with
  | none => exact h2.new i r3 hr3 hr2
  | some r2 =>
    obtain ⟨r3', hr3', new, rfl, -⟩ := h2.old i r2 hr2
    cases hr3.symm.trans hr3'
    exact h1.new i r2 hr2 hnone

end ObjectInstance.GrownTo

theorem grownTo_createDynamicResourceInstance (oi : ObjectInstance) (allocated : Bool)
    (name : String) (type : ResourceType) (id : Nat) :
    oi.GrownTo (oi.createDynamicResourceInstance allocated name type id) := by
  unfold ObjectInstance.createDynamicResourceInstance
  split
  · refine ⟨grows_replaceFirst .refl _ (fun r => r.grownTo_addInstance type id) _, fun i r' hr' hnone => ?_⟩
    have hi : i < (replaceFirst _ _ _).length := (List.getElem?_eq_some_iff.mp hr').1
    rw [length_replaceFirst] at hi
    rw [getElem?_eq_getElem hi] at hnone
    cases hnone
  · exact .refl oi

variable {oi oi' : ObjectInstance} {id : Nat} {op : Operation}

theorem grownTo_createDynamicResource {allocated : Bool}
    (hok : oi.createDynamicResource allocated id false = some oi') : oi.GrownTo oi' := by
  unfold ObjectInstance.createDynamicResource at hok
  split_ifs at hok
  cases hok
  refine ⟨grows_append .refl _ _, fun i r' hr' hnone => ?_⟩
  rw [getElem?_append_right (List.getElem?_eq_none_iff.mp hnone)] at hr'
  rw [mem_singleton.mp (mem_of_getElem? hr')]
  exact ⟨rfl, rfl⟩

/-! ## Refused entries -/

/-- The instance of a resource is not writable, or there is none for Put. -/
def Resource.refuses (op : Operation) (r : Resource) (id : Nat) : Prop :=
  (∃ x ∈ r.instances, x.instanceId = id ∧ x.base.putAllowed = false) ∨ (op = .put ∧ ∀ x ∈ r.instances, x.instanceId ≠ id)

/-- The last resource with multiple instances that an entry is for. -/
def ObjectInstance.lastMultiple (oi : ObjectInstance) (id : Nat) : Option Resource :=
  (oi.resources.filter (multipleFor id)).getLast?

/-- The check of an entry sets an error: for the entry of a multiple resource it is that of its last
instance. -/
def Entry.Refused (op : Operation) (oi : ObjectInstance) : Entry → Prop
  | .resource l =>
    (∃ r ∈ oi.resources, r.nameId = some l.id ∧ r.base.putAllowed = false) ∨
      (op = .put ∧ ∀ r ∈ oi.resources, r.nameId ≠ some l.id)
  | .multiple _ id ls =>
    match oi.lastMultiple id with
    | none => op = .put
    | some r => ∃ l, ls.getLast? = some l ∧ r.refuses op l.id

theorem Resource.GrownTo.refuses_iff {r r' : Resource} (h : r.GrownTo r')
    (hput : op = .put → r' = r) (id : Nat) : r'.refuses op id ↔ r.refuses op id := by
  obtain ⟨new, rfl, hnew⟩ := h
  constructor
  · rintro (⟨x, hx, hid, hallowed⟩ | ⟨hop, hnone⟩)
    · rcases mem_append.mp hx with hx | hx
      · exact .inl ⟨x, hx, hid, hallowed⟩
      · rw [hnew x hx] at hallowed
        cases hallowed
    · exact .inr ⟨hop, fun x hx => hnone x (mem_append_left new hx)⟩
  · rintro (⟨x, hx, hid, hallowed⟩ | ⟨hop, hnone⟩)
    · exact .inl ⟨x, mem_append_left new hx, hid, hallowed⟩
    · rw [hput hop]
      exact .inr ⟨hop, hnone⟩

/-! ## Indices -/

section

variable {α : Type} {p : α → Bool}

theorem indicesOf_cons (x : α) (l : List α) :
    indicesOf p (x :: l) = (if p x then [0] else []) ++ (indicesOf p l).map (· + 1) := by
  unfold indicesOf
  rw [length_cons, range_succ_eq_map, filter_cons, filter_map]
  cases hx : p x <;> simp [hx, Function.comp_def]

theorem map_indicesOf (l : List α) : (indicesOf p l).map (l[·]?) = (l.filter p).map some := by
  induction l with
  | nil => rfl
  | cons x l ih =>
    rw [indicesOf_cons, map_append, map_map]
    have hcomp : ((fun i => (x :: l)[i]?) ∘ fun i => i + 1) = fun i => l[i]? := by
      funext i
      exact getElem?_cons_succ
    rw [hcomp, ih]
    cases hx : p x with
    | true => simp [hx]
    | false => simp [hx]

variable {l : List α}

theorem getLast?_indicesOf {i : Nat} (hi : (indicesOf p l).getLast? = some i) : (l.filter p).getLast? = l[i]? := by
  have hmap := congrArg List.getLast? (map_indicesOf (p := p) l)
  rw [getLast?_map, getLast?_map, hi] at hmap
  cases hlast : (l.filter p).getLast? with
  | none =>
    rw [hlast] at hmap
    cases hmap
  | some x =>
    rw [hlast] at hmap
    exact (Option.some.inj hmap).symm

theorem indicesOf_eq_nil : indicesOf p l = [] ↔ ∀ x ∈ l, p x = false := by
  constructor
  · intro hnil x hx
    by_contra hp
    exact indicesOf_ne_nil hx (eq_true_of_ne_false hp) hnil
  intro h
  by_contra hne
  obtain ⟨i, hi⟩ := exists_mem_of_ne_nil _ hne
  obtain ⟨x, hx, hp⟩ := mem_indicesOf hi
  rw [h x (mem_of_getElem? hx)] at hp
  cases hp

theorem indicesOf_only {pre post : List α} {x : α} (h : Only p l pre x post) : indicesOf p l = [pre.length] := by
  have hpost : indicesOf p post = [] := indicesOf_eq_nil.mpr h.post
  have hcons : indicesOf p (x :: post) = [0] := by
    rw [indicesOf_cons, h.self, hpost]
    rfl
  rw [h.eq]
  have hpre := h.pre
  clear h
  induction pre with
  | nil => exact hcons
  | cons y pre ih =>
    rw [cons_append, indicesOf_cons, hpre y mem_cons_self, ih fun z hz => hpre z (mem_cons_of_mem y hz)]
    rfl

end

theorem ObjectInstance.GrownTo.indicesOf_eq (h : oi.GrownTo oi') (id : Nat) :
    indicesOf (multipleFor id) oi'.resources = indicesOf (multipleFor id) oi.resources := by
  obtain ⟨n, hn⟩ := Nat.exists_eq_add_of_le h.old.length_le
  unfold indicesOf
  rw [hn, range_add, filter_append]
  have hnew : ((List.range n).map (oi.resources.length + ·)).filter (fun i => oi'.resources[i]?.any (multipleFor id)) = [] := by
    apply filter_eq_nil_iff.mpr
    intro i hi hany
    obtain ⟨j, -, rfl⟩ := mem_map.mp hi
    obtain ⟨r', hr', hfor⟩ := (Option.any_eq_true ..).mp hany
    have hsingle := (h.new _ r' hr' (getElem?_eq_none (by omega))).1
    rw [multipleFor, hsingle] at hfor
    cases hfor
  rw [hnew, append_nil]
  apply filter_congr
  intro i hi
  obtain ⟨r', hr', new, rfl, -⟩ := h.old i _ (getElem?_eq_getElem (mem_range.mp hi))
  rw [hr', getElem?_eq_getElem (mem_range.mp hi)]
  rfl

theorem ObjectInstance.lastMultiple_eq_none : oi.lastMultiple id = none ↔ indicesOf (multipleFor id) oi.resources = [] := by
  rw [ObjectInstance.lastMultiple, getLast?_eq_none_iff, filter_eq_nil_iff, indicesOf_eq_nil]
  simp only [Bool.not_eq_true]

theorem ObjectInstance.lastMultiple_eq {i : Nat} (hi : (indicesOf (multipleFor id) oi.resources).getLast? = some i) :
    oi.lastMultiple id = oi.resources[i]? := getLast?_indicesOf hi

/-- What the check pass has done: it only adds, and with Put it does nothing. -/
structure ObjectInstance.CheckedTo (op : Operation) (oi oi' : ObjectInstance) : Prop where
  grown : oi.GrownTo oi'
  put : op = .put → oi' = oi

namespace ObjectInstance.CheckedTo

theorem refl (op : Operation) (oi : ObjectInstance) : oi.CheckedTo op oi := ⟨.refl oi, fun _ => rfl⟩

theorem post (h : oi.GrownTo oi') : oi.CheckedTo .post oi' := ⟨h, nofun⟩

theorem trans {oi1 oi2 oi3 : ObjectInstance} (h1 : oi1.CheckedTo op oi2) (h2 : oi2.CheckedTo op oi3) :
    oi1.CheckedTo op oi3 := ⟨h1.grown.trans h2.grown, fun hop => (h2.put hop).trans (h1.put hop)⟩

theorem resource (h : oi.CheckedTo op oi') {i : Nat} {r : Resource} (hr : oi.resources[i]? = some r) :
    ∃ r', oi'.resources[i]? = some r' ∧ ∀ id, r'.refuses op id ↔ r.refuses op id := by
  obtain ⟨r', hr', hgrown⟩ := h.grown.old i r hr
  refine ⟨r', hr', hgrown.refuses_iff fun hop => ?_⟩
  rw [h.put hop] at hr'
  exact Option.some.inj (hr'.symm.trans hr)

end ObjectInstance.CheckedTo

/-- Whether an entry is refused does not depend on what the check pass has added. -/
theorem ObjectInstance.CheckedTo.refused_iff (hchecked : oi.CheckedTo op oi') (e : Entry) :
    e.Refused op oi' ↔ e.Refused op oi := by
  obtain ⟨h, hput⟩ := id hchecked
  cases op with
  | put => rw [hput rfl]
  | post =>
    cases e with
    | resource l =>
      constructor
      · rintro (⟨r', hr', hname, hallowed⟩ | ⟨hop, -⟩)
        · obtain ⟨i, hi⟩ := mem_iff_getElem?.mp hr'
          cases hr : oi.resources[i]? with
          | none =>
            rw [(h.new i r' hi hr).2] at hallowed
            cases hallowed
          | some r =>
            obtain ⟨r'', hr'', new, rfl, -⟩ := h.old i r hr
            cases hi.symm.trans hr''
            exact .inl ⟨r, mem_of_getElem? hr, hname, hallowed⟩
        · cases hop
      · rintro (⟨r, hr, hname, hallowed⟩ | ⟨hop, -⟩)
        · obtain ⟨i, hi⟩ := mem_iff_getElem?.mp hr
          obtain ⟨r', hr', new, rfl, -⟩ := h.old i r hi
          exact .inl ⟨_, mem_of_getElem? hr', hname, hallowed⟩
        · cases hop
    | multiple form id ls =>
      cases hlast : (indicesOf (multipleFor id) oi.resources).getLast? with
      | none =>
        have hnil := getLast?_eq_none_iff.mp hlast
        have hnone := ObjectInstance.lastMultiple_eq_none.mpr hnil
        have hnone' := ObjectInstance.lastMultiple_eq_none.mpr ((h.indicesOf_eq id).trans hnil)
        simp only [Entry.Refused, hnone, hnone']
      | some i =>
        obtain ⟨r, hr, -⟩ := mem_indicesOf (mem_of_getLast? hlast)
        obtain ⟨r', hr', hrefuses⟩ := hchecked.resource hr
        have hmultiple := (ObjectInstance.lastMultiple_eq hlast).trans hr
        rw [← h.indicesOf_eq id] at hlast
        have hmultiple' := (ObjectInstance.lastMultiple_eq hlast).trans hr'
        simp only [Entry.Refused, hmultiple, hmultiple', hrefuses]

/-! ## Steps -/

section

variable {env : Env} {tlv : Bytes} {r : Resource} {t : TypeIdLength} {update : Bool} {ps : List Piece} {e : Entry}
  {es : List Entry}

/-- The check of an entry in a list: the error, or that nothing has been found, says whether it is
refused. -/
theorem leafEntry_check {α : Type} (tlv : Bytes) (stored : Bool) (isFor : α → Bool)
    (base : α → ResourceBase) (setBase : α → ResourceBase → α) (t : TypeIdLength) (l : List α)
    {P : α → Prop} (hP : ∀ x, isFor x = true ↔ P x) :
    ∃ found e, leafEntry tlv false stored isFor base setBase t l = .ok (found, e, l) ∧ (found = false → e = .none) ∧
      ∀ op : Operation, ((∃ x ∈ l, P x ∧ (base x).putAllowed = false) ∨
        (op = .put ∧ ∀ x ∈ l, ¬ P x)) ↔ e ≠ .none ∨ (op = .put ∧ found = false) := by
  have hforbidden : (l.any fun x => isFor x && !(base x).putAllowed) = true ↔ ∃ x ∈ l, P x ∧ (base x).putAllowed = false := by
    simp only [any_eq_true, Bool.and_eq_true, Bool.not_eq_true', hP]
  have hnone : l.any isFor = false ↔ ∀ x ∈ l, ¬ P x := by simp only [any_eq_false, hP]
  refine ⟨_, _, rfl, fun hfound => if_neg fun hbad => ?_, fun op => ?_⟩
  · obtain ⟨x, hx, hfor, -⟩ := hforbidden.mp hbad
    exact hnone.mp hfound x hx hfor
  split <;> simp_all

theorem instanceEntry_other (htype : t.type ≠ .resourceInstance) (offsets : List Nat) :
    instanceEntry env tlv update offsets t r = .ok (false, .none, r) := by
  rw [instanceEntry, if_neg htype]
  rfl

variable {index o k : Nat} {ls : List Leaf} {lost : Stop Fault → Prop}

theorem handleInstance_check (env : Env) (tlv : Bytes) (op : Operation) (t : TypeIdLength)
    (hr : oi.resources[index]? = some r) (offsets : List Nat) :
    Yields lost (handleInstance env tlv op false offsets index t oi) fun x => oi.CheckedTo op x.2 ∧
      (t.type = .resourceInstance → (x.1 ≠ .none ↔ r.refuses op t.id)) := by
  have hset : { oi with resources := oi.resources.set index r } = oi := by rw [set_eq_self hr]
  unfold handleInstance
  by_cases hreturns : returnsInInstances t.type = true
  · rw [if_pos hreturns]
    refine yields_pure ⟨.refl op oi, fun htype => ?_⟩
    rw [htype] at hreturns
    cases hreturns
  rw [if_neg hreturns, hr]
  dsimp only
  by_cases htype : t.type = .resourceInstance
  · obtain ⟨found, e, hleaf, -, hcheck⟩ := leafEntry_check tlv (env.store (t.offset :: offsets))
      (ResourceInstance.isFor t.id) (·.base) ResourceInstance.setBase t r.instances
      fun x => decide_eq_true_iff
    have hrefuses : r.refuses op t.id ↔ _ := hcheck op
    rw [instanceEntry, if_pos htype, hleaf]
    dsimp only [bind, Except.bind, pure, Except.pure]
    rw [hset]
    cases found with
    | true => exact yields_pure ⟨.refl op oi, fun _ => by simp [hrefuses]⟩
    | false =>
      cases op with
      | put => exact yields_pure ⟨.refl .put oi, fun _ => by simp [hrefuses]⟩
      | post =>
        exact yields_pure ⟨.post (grownTo_createDynamicResourceInstance oi _ _ _ _),
          fun _ => by simp [hrefuses]⟩
  · rw [instanceEntry_other htype]
    rw [ok_bind, hset, if_neg (by simp)]
    cases op with
    | put => exact yields_pure ⟨.refl .put oi, fun h => absurd h htype⟩
    | post => exact yields_pure ⟨.post (grownTo_createDynamicResourceInstance oi _ _ _ _), fun h => absurd h htype⟩

theorem handleInstance_stop (env : Env) (tlv : Bytes) (op : Operation) (update : Bool)
    (offsets : List Nat) (index : Nat) (t : TypeIdLength) (oi : ObjectInstance)
    (ht : returnsInInstances t.type = true) :
    ∃ e, handleInstance env tlv op update offsets index t oi = .ok (e, oi) := by
  refine ⟨.notValid, ?_⟩
  rw [handleInstance, if_pos ht]
  rfl

section

variable {rest : List Entry} (op env) (hk : Fueled lost tlv k)
  (hrest : Rest tlv o (instancePieces ls ++ (entryPieces rest ++ []))) (hls : ls ≠ [])
include hk hrest hls

/-- The instances of a resource: if nothing follows them, the error is that of the last one. -/
theorem resourceInstances_check (hr : oi.resources[index]? = some r) (offsets : List Nat) :
    Yields lost (resourceInstances env tlv op false k offsets o index oi) fun x =>
      oi.CheckedTo op x.2 ∧ (rest = [] → ∀ l, ls.getLast? = some l → (x.1 ≠ .none ↔ r.refuses op l.id)) := by
  have hstep : ∀ t s, oi.CheckedTo op s → Yields lost (handleInstance env tlv op false offsets index t s)
      fun x => oi.CheckedTo op x.2 ∧ (t.type = .resourceInstance → (x.1 ≠ .none ↔ r.refuses op t.id)) := by
    intro t s hs
    obtain ⟨r', hr', hrefuses⟩ := hs.resource hr
    refine (handleInstance_check env tlv op t hr' offsets).imp fun x hx => ⟨hs.trans hx.1, fun htype => ?_⟩
    rw [hx.2 htype, hrefuses]
  refine (hrest.walk_instances (fun _ _ s => oi.CheckedTo op s)
    (fun e => ∀ l, ls.getLast? = some l → (e ≠ .none ↔ r.refuses op l.id)) hls (fun q hq => by cases hq) hk
    (handleInstance_stop env tlv op false offsets index) (fun pre l post hitems o ps s _ hs => ?_)
    (fun pre f post _ t s _ _ hs => (hstep t s hs).imp fun _ h => h.1) (.refl op oi)).imp
    fun x hx => ⟨hx.1, fun hnil => hx.2 hnil rfl⟩
  refine (hstep _ s hs).imp fun x hx => ⟨hx.1, ?_⟩
  rintro rfl l' hl'
  rw [hitems, getLast?_concat] at hl'
  cases hl'
  exact hx.2 rfl

end

theorem handleResource_leaf (htype : t.type = .resource) (offsets : List Nat) :
    handleResource env tlv op update k offsets t oi =
      leafEntry tlv update (env.store (t.offset :: offsets)) (Resource.isFor t.id) (·.base)
        Resource.setBase t oi.resources >>= fun x =>
          if x.1 then pure (x.2.1, { oi with resources := x.2.2 })
          else notFoundResource env tlv op update k offsets t oi := by
  unfold handleResource
  rw [htype]

theorem handleResource_multiple (htype : t.type = .multipleResource) (offsets : List Nat) :
    handleResource env tlv op update k offsets t oi =
      if indicesOf (multipleFor t.id) oi.resources = [] then notFoundResource env tlv op update k offsets t oi
      else eachMultiple env tlv op update k (t.offset :: offsets) t.offset
        (indicesOf (multipleFor t.id) oi.resources) (.none, oi) := by
  unfold handleResource
  rw [htype]

theorem notFoundResource_check (env : Env) (tlv : Bytes) (op : Operation)
    (htype : t.type = .resource) (oi : ObjectInstance) (offsets : List Nat) :
    Yields lost (notFoundResource env tlv op false k offsets t oi) fun x => oi.CheckedTo op x.2 ∧ (x.1 ≠ .none ↔ op = .put) := by
  have hmultiple : ¬ t.type = .multipleResource := by
    rw [htype]
    decide
  unfold notFoundResource
  cases op with
  | put => exact yields_pure ⟨.refl .put oi, by simp⟩
  | post =>
    simp only [if_neg hmultiple, decide_eq_false hmultiple]
    cases hcreate : oi.createDynamicResource (env.create false (t.offset :: offsets)) t.id false with
    | none => exact yields_pure ⟨.refl .post oi, by simp⟩
    | some oi' => exact yields_pure ⟨.post (grownTo_createDynamicResource hcreate), by simp⟩

theorem leafResource_check (env : Env) (tlv : Bytes) (op : Operation)
    (htype : t.type = .resource) (oi : ObjectInstance) (offsets : List Nat) :
    Yields lost (handleResource env tlv op false k offsets t oi) fun x => oi.CheckedTo op x.2 ∧
      (x.1 ≠ .none ↔ (∃ r ∈ oi.resources, r.nameId = some t.id ∧ r.base.putAllowed = false) ∨
        (op = .put ∧ ∀ r ∈ oi.resources, r.nameId ≠ some t.id)) := by
  obtain ⟨found, e, hleaf, hnone, hrefused⟩ := leafEntry_check tlv (env.store (t.offset :: offsets))
    (Resource.isFor t.id) (·.base) Resource.setBase t oi.resources fun r => decide_eq_true_iff
  simp only [handleResource_leaf htype, hleaf, bind, Except.bind]
  cases found with
  | true => exact yields_pure ⟨.refl op oi, by simp [hrefused]⟩
  | false =>
    exact (notFoundResource_check env tlv op htype oi offsets).imp fun x hx => ⟨hx.1, by simp [hrefused, hx.2, hnone rfl]⟩

/-- The resource that the entry of a multiple resource names exists, and has multiple instances. -/
def Entry.HasMultiple (oi : ObjectInstance) : Entry → Prop
  | .resource _ => True
  | .multiple _ id _ => ∃ r ∈ oi.resources, multipleFor id r = true

theorem ObjectInstance.GrownTo.hasMultiple {oi oi' : ObjectInstance} (h : oi.GrownTo oi')
    (he : e.HasMultiple oi) : e.HasMultiple oi' := by
  cases e with
  | resource l => exact trivial
  | multiple form id ls =>
    obtain ⟨r, hr, hfor⟩ := he
    obtain ⟨i, hi⟩ := mem_iff_getElem?.mp hr
    obtain ⟨r', hr', new, rfl, -⟩ := h.old i r hi
    exact ⟨_, mem_of_getElem? hr', hfor⟩

theorem handleResource_check (env : Env) (hk : Fueled lost tlv k) {rest : List Entry}
    (hrest : Rest tlv o (e.piece :: (entryPieces rest ++ []))) (hwf : e.WellFormed)
    (hmultiple : op = .post → e.HasMultiple oi) (offsets : List Nat) :
    Yields lost (handleResource env tlv op false k offsets (e.piece.headerAt o) oi) fun x =>
      oi.CheckedTo op x.2 ∧ (rest = [] → (x.1 ≠ .none ↔ e.Refused op oi)) := by
  cases e with
  | resource l => exact (leafResource_check env tlv op rfl oi offsets).imp fun x hx => ⟨hx.1, fun _ => hx.2⟩
  | multiple form id ls =>
    obtain ⟨-, hls, hfits⟩ := hwf
    have hpieces : ∀ q ∈ instancePieces ls, q.Fits := forall_mem_map.mpr hfits
    have hinstances := hrest.body rfl hpieces
    rw [handleResource_multiple rfl]
    by_cases hnil : indicesOf (multipleFor id) oi.resources = []
    · have hop : op = .put := by
        cases op with
        | put => rfl
        | post =>
          obtain ⟨r, hr, hfor⟩ := hmultiple rfl
          exact absurd hnil (indicesOf_ne_nil hr hfor)
      subst hop
      refine (if_pos hnil).symm ▸ yields_pure ⟨.refl .put oi, fun _ => ?_⟩
      simp [Entry.Refused, ObjectInstance.lastMultiple_eq_none.mpr hnil]
    · have hl := getLast?_eq_some_getLast hls
      refine (if_neg hnil).symm ▸ (yields_eachMultiple (P := oi.CheckedTo op)
        (Q := fun i e => rest = [] → ∀ r, oi.resources[i]? = some r →
          (e ≠ .none ↔ r.refuses op (ls.getLast hls).id)) hnil (fun i hi s hs => ?_) (.refl op oi)).imp ?_
      · obtain ⟨r, hr, -⟩ := mem_indicesOf hi
        obtain ⟨r', hr', hrefuses⟩ := hs.resource hr
        refine (resourceInstances_check op env hk hinstances hls hr' _).imp fun x hx => ⟨hs.trans hx.1, fun hrest r1 hr1 => ?_⟩
        cases hr.symm.trans hr1
        rw [hx.2 hrest _ hl, hrefuses]
      · rintro x ⟨hchecked, i, hi, herror⟩
        obtain ⟨r, hr, -⟩ := mem_indicesOf (mem_of_getLast? hi)
        have hmultiple := (ObjectInstance.lastMultiple_eq hi).trans hr
        refine ⟨hchecked, fun hrest => ?_⟩
        rw [herror hrest r hr]
        simp only [Entry.Refused, hmultiple, hl, Option.some.injEq, exists_eq_left']

theorem Entry.not_returns (e : Entry) : returnsInResources e.piece.type = false := by cases e <;> rfl

/-- The check pass over a payload: the error is that of the last entry. -/
theorem resources_check (env : Env) (hk : Fueled lost tlv k) (hpayload : ResourcesPayload tlv es)
    (hmultiple : op = .post → ∀ e ∈ es, e.HasMultiple oi) :
    Yields lost (resources env tlv op false k [] 0 oi) fun x => oi.CheckedTo op x.2 ∧
      ∃ e, es.getLast? = some e ∧ (x.1 ≠ .none ↔ e.Refused op oi) := by
  refine hpayload.rest_nil.walk_items Entry.piece (fun _ s => oi.CheckedTo op s)
    (by simp [hpayload.nonempty]) (hk.behind 0) (fun e _ => e.not_returns)
    (fun pre e post hes o s hrest hs => ?_) (fun hne => absurd rfl hne) (.refl op oi)
  have he : e ∈ es := hes ▸ mem_append_cons_self
  refine (handleResource_check env hk hrest (hpayload.wellFormed e he)
    (fun hop => hs.grown.hasMultiple (hmultiple hop e he)) []).imp fun x hx =>
    ⟨hs.trans hx.1, fun hpost _ => ⟨hs.trans hx.1, e, ?_, ?_⟩⟩
  · rw [hes, hpost]
    exact getLast?_concat
  · rw [hx.2 hpost]
    exact hs.refused_iff e

end

end MbedCloud.Lwm2m

