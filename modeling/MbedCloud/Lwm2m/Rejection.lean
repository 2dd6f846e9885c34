import MbedCloud.Lwm2m.BoundsExact
import MbedCloud.Lwm2m.CheckPass

/-!
# Rejected payloads

`deserialize_resources` is to reject a payload with an entry that may not be written, and to leave
all values as they are. The check pass makes one test for each entry, but its result is the error of
the last entry alone. With Post it also creates the resources that do not exist, and does not look
at the result before it goes on with the instances of a multiple resource: if there is no memory, or
if the name is that of a resource with a single instance, it dereferences `NULL`.
-/

namespace MbedCloud.Lwm2m

open Lib List

/-! ## The update pass after a check pass without an error -/

/-- The identifiers of a resource and its instances. -/
def Resource.skeleton (r : Resource) : Option Nat × Bool × List Nat :=
  (r.nameId, r.supportsMultipleInstances, r.instances.map (·.instanceId))

def ObjectInstance.skeleton (oi : ObjectInstance) : List (Option Nat × Bool × List Nat) := oi.resources.map Resource.skeleton

variable {t : TypeIdLength} {offsets : List Nat}

section Skeleton

variable {env : Env} {tlv : Bytes} {update : Bool} {oi oi' : ObjectInstance}

theorem leafEntry_map {α β : Type} {stored : Bool} {isFor : α → Bool} {base : α → ResourceBase}
    {setBase : α → ResourceBase → α} {l : List α} (f : α → β)
    {r : Bool × Error × List α} (hok : leafEntry tlv update stored isFor base setBase t l = .ok r)
    (hf : ∀ x b, f (setBase x b) = f x) : r.2.2.map f = l.map f := by
  unfold leafEntry at hok
  split at hok
  · split at hok
    · cases hok
      rfl
    · obtain ⟨x, -, hok⟩ := bind_eq_ok hok
      cases hok
      exact map_replaceFirst f (fun y => hf y x.2) l
  · cases hok
    rfl

theorem instanceEntry_skeleton {r : Resource}
    {x : Bool × Error × Resource} (hok : instanceEntry env tlv update offsets t r = .ok x) :
    x.2.2.skeleton = r.skeleton := by
  unfold instanceEntry at hok
  split at hok
  · obtain ⟨y, hy, hok⟩ := bind_eq_ok hok
    cases hok
    have hids := leafEntry_map (fun x : ResourceInstance => x.instanceId) hy fun _ _ => rfl
    rw [Resource.skeleton, hids]
    rfl
  · cases hok
    rfl

/-- With Put nothing is created. -/
theorem kept_skeleton : Kept env tlv .put update fun oi oi' => oi'.skeleton = oi.skeleton where
  refl _ := rfl
  trans h1 h2 := h2.trans h1
  entry hr hx := map_set_eq hr (instanceEntry_skeleton hx)
  leaf hx := leafEntry_map Resource.skeleton hx fun _ _ => rfl
  newInstance _ _ _ _ _ hop := by cases hop
  newResource hop _ := by cases hop

end Skeleton

/-! ### What the last entry finds -/

/-- The resource of an entry exists, and the last instance of its last resource. -/
def Entry.Found (oi : ObjectInstance) : Entry → Prop
  | .resource l => ∃ r ∈ oi.resources, r.nameId = some l.id
  | .multiple _ id ls => ∃ r, oi.lastMultiple id = some r ∧ ∀ l, ls.getLast? = some l → ∃ x ∈ r.instances, x.instanceId = l.id

/-- A resource with the identifier and multiple instances, by its skeleton. -/
def multipleSkeleton (id : Nat) (k : Option Nat × Bool × List Nat) : Bool := k.2.1 && decide (k.1 = some id)

theorem lastMultiple_skeleton (oi : ObjectInstance) (id : Nat) :
    (oi.lastMultiple id).map Resource.skeleton = (oi.skeleton.filter (multipleSkeleton id)).getLast? := by
  rw [ObjectInstance.lastMultiple, ← getLast?_map, ObjectInstance.skeleton, filter_map]
  rfl

theorem mem_instances_iff {r : Resource} {id : Nat} : (∃ x ∈ r.instances, x.instanceId = id) ↔ id ∈ r.skeleton.2.2 := by
  rw [Resource.skeleton, mem_map]

variable {oi oi' : ObjectInstance} {e : Entry}

theorem Entry.Found.of_skeleton (h : e.Found oi) (hskeleton : oi'.skeleton = oi.skeleton) : e.Found oi' := by
  cases e with
  | resource l =>
    obtain ⟨r, hr, hname⟩ := h
    obtain ⟨r', hr', heq⟩ := (grows_of_map hskeleton).mem hr
    exact ⟨r', hr', (congrArg Prod.fst heq).trans hname⟩
  | multiple form id ls =>
    obtain ⟨r, hr, hinstances⟩ := h
    have hlast := lastMultiple_skeleton oi' id
    rw [hskeleton, ← lastMultiple_skeleton oi id, hr] at hlast
    cases hr' : oi'.lastMultiple id with
    | none =>
      rw [hr'] at hlast
      cases hlast
    | some r' =>
      rw [hr'] at hlast
      refine ⟨r', hr', fun l hl => ?_⟩
      rw [mem_instances_iff, Option.some.inj hlast]
      exact mem_instances_iff.mp (hinstances l hl)

section LastEntry

variable {tlv : Bytes} {op : Operation}

theorem writeValue_stored {base : ResourceBase} {r : Error × ResourceBase}
    (hok : writeValue tlv t true base = .ok r) : r.1 = .none := by
  unfold writeValue at hok
  split at hok
  · obtain ⟨bytes, -, hok⟩ := bind_eq_ok hok
    cases hok
    rfl
  · cases hok
    rfl

theorem leafEntry_stored {α : Type} {isFor : α → Bool} {base : α → ResourceBase}
    {setBase : α → ResourceBase → α} {l : List α} {r : Bool × Error × List α}
    (hok : leafEntry tlv true true isFor base setBase t l = .ok r) :
    r.2.1 = .none ∧ ((∃ x ∈ l, isFor x = true) → r.1 = true) := by
  unfold leafEntry at hok
  rw [if_pos rfl] at hok
  split at hok
  · rename_i hnone
    cases hok
    refine ⟨rfl, ?_⟩
    rintro ⟨x, hx, hfor⟩
    exact absurd hfor (find?_eq_none.mp hnone x hx)
  · obtain ⟨x, hx, hok⟩ := bind_eq_ok hok
    cases hok
    exact ⟨writeValue_stored hx, fun _ => rfl⟩

variable {index k o : Nat} {e : Error} {ls : List Leaf}

theorem handleInstance_stored (htype : t.type = .resourceInstance)
    (hfound : op = .put → ∀ r, oi.resources[index]? = some r → ∃ x ∈ r.instances, x.instanceId = t.id)
    (hok : handleInstance plenty tlv op true offsets index t oi = .ok (e, oi')) : e = .none := by
  unfold handleInstance at hok
  rw [htype, if_neg (by decide)] at hok
  split at hok
  · cases hok
  rename_i r hr
  rw [instanceEntry, if_pos htype] at hok
  obtain ⟨x, hx, hok⟩ := bind_eq_ok hok
  obtain ⟨y, hy, hx⟩ := bind_eq_ok hx
  cases hx
  obtain ⟨hnone, hexists⟩ := leafEntry_stored hy
  dsimp only at hok
  split_ifs at hok with hmissing
  · cases hok
    exact hnone
  cases op with
  | post =>
    cases hok
    exact hnone
  | put =>
    obtain ⟨x, hx, hid⟩ := hfound rfl r hr
    exact absurd (hexists ⟨x, hx, decide_eq_true hid⟩) hmissing

theorem resourceInstances_stored (hrest : Rest tlv o (instancePieces ls ++ (entryPieces [] ++ []))) (hls : ls ≠ [])
    (hfound : op = .put → ∀ r, oi.resources[index]? = some r → ∀ l, ls.getLast? = some l → ∃ x ∈ r.instances, x.instanceId = l.id)
    (hok : resourceInstances plenty tlv op true k offsets o index oi = .ok (e, oi')) : e = .none := by
  refine (Yields.of_eq hok (hrest.walk_instances (fun _ _ s => op = .put → s.skeleton = oi.skeleton)
    (fun e => e = .none) hls (fun q hq => by cases hq) (fueled_any tlv k)
    (handleInstance_stop plenty tlv op true offsets index) (fun pre l post hitems o ps s _ hs => ?_)
    (fun pre f post hitems => by cases pre <;> cases hitems) fun _ => rfl)).2 rfl rfl
  refine yields_of_ok fun x hx => ⟨fun hop => ?_, fun hpost => handleInstance_stored rfl (fun hop r' hr' => ?_) hx⟩
  · subst hop
    exact (kept_skeleton.of_handleInstance hx).trans (hs rfl)
  · obtain ⟨r, hr, hskeleton⟩ := grows_of_map (hs hop).symm _ _ hr'
    rw [mem_instances_iff, ← hskeleton]
    refine mem_instances_iff.mp (hfound hop r hr l ?_)
    rw [hitems, hpost]
    exact getLast?_concat

/-- With enough memory, the update pass sets no error for an entry at the end of the payload. -/
theorem handleResource_stored {e : Entry}
    {err : Error} (hrest : Rest tlv o (e.piece :: (entryPieces [] ++ []))) (hwf : e.WellFormed)
    (hfound : op = .put → e.Found oi)
    (hok : handleResource plenty tlv op true k offsets (e.piece.headerAt o) oi = .ok (err, oi')) : err = .none := by
  cases e with
  | resource l =>
    rw [handleResource_leaf rfl] at hok
    obtain ⟨x, hx, hok⟩ := bind_eq_ok hok
    obtain ⟨hnone, hexists⟩ := leafEntry_stored hx
    split_ifs at hok with hmissing
    · cases hok
      exact hnone
    cases op with
    | put =>
      obtain ⟨r, hr, hname⟩ := hfound rfl
      exact absurd (hexists ⟨r, hr, decide_eq_true hname⟩) hmissing
    | post =>
      unfold notFoundResource at hok
      dsimp only at hok
      split at hok
      all_goals
        cases hok
        rfl
  | multiple form id ls =>
    obtain ⟨-, hls, hfits⟩ := hwf
    have hpieces : ∀ q ∈ instancePieces ls, q.Fits := forall_mem_map.mpr hfits
    have hinstances := hrest.body rfl hpieces
    have htype : ((Entry.multiple form id ls).piece.headerAt o).type = .multipleResource := rfl
    rw [handleResource_multiple htype] at hok
    split at hok
    · rename_i hnil
      cases op with
      | put =>
        obtain ⟨r, hr, -⟩ := hfound rfl
        have hnone : oi.lastMultiple id = none := ObjectInstance.lastMultiple_eq_none.mpr hnil
        rw [hnone] at hr
        cases hr
      | post =>
        unfold notFoundResource at hok
        dsimp only at hok
        split at hok
        · rw [if_pos htype] at hok
          refine resourceInstances_stored hinstances hls ?_ hok
          intro hop
          cases hop
        · rw [if_pos htype] at hok
          cases hok
    · rename_i hne
      refine Yields.of_eq (Q := fun x => x.1 = .none) hok ((yields_eachMultiple
        (P := fun s => op = .put → s.skeleton = oi.skeleton)
        (Q := fun i e => (op = .put → oi.lastMultiple id = oi.resources[i]?) → e = .none) hne
        (fun i _ s hs => yields_of_ok fun x hx => ⟨fun hop => ?_, fun hlast => ?_⟩) fun _ => rfl).imp ?_)
      · subst hop
        exact (kept_skeleton.of_resourceInstances hx).trans (hs rfl)
      · refine resourceInstances_stored hinstances hls (fun hop r' hr' l hl => ?_) hx
        obtain ⟨r, hr, hskeleton⟩ := grows_of_map (hs hop).symm i r' hr'
        obtain ⟨r1, hr1, hinstance⟩ := hfound hop
        rw [hlast hop, hr] at hr1
        cases hr1
        rw [mem_instances_iff, ← hskeleton]
        exact mem_instances_iff.mp (hinstance l hl)
      · rintro x ⟨-, i, hi, hnone⟩
        exact hnone fun _ => ObjectInstance.lastMultiple_eq hi

end LastEntry

/-! ## The removal -/

section

variable {tlv : Bytes} {ps : List Piece} {o : Nat} {lost : Stop Fault → Prop} {k : Nat}

/-- The search for an identifier finds the entries of the sequence. -/
theorem Rest.scan (h : Rest tlv o ps) (hk : lost .fuel ∨ tlv.length + 1 < o + k) (id : Option Nat) :
    Yields lost (loop (scanStep tlv id) k o) fun b => b = ps.any fun p => decide (id = some p.id) := by
  induction ps generalizing o k with
  | nil =>
    have hlength := h.length
    simp only [encodeAll, flatMap_nil, length_nil] at hlength
    cases k with
    | zero => exact .inl ⟨.fuel, hk.resolve_right (by omega), rfl⟩
    | succ k =>
      rw [scan_succ, if_neg (by omega)]
      exact yields_pure rfl
  | cons p ps ih =>
    have hle := h.head.le_length p.encode_ne_nil
    have hpos := length_pos_iff.mpr p.encode_ne_nil
    cases k with
    | zero => exact .inl ⟨.fuel, hk.resolve_right (by omega), rfl⟩
    | succ k =>
      rw [scan_succ, if_pos (by omega), h.typeIdLength, ok_bind, h.next, any_cons]
      by_cases hid : id = some p.id
      · rw [decide_eq_true hid, Bool.true_or]
        exact (if_pos hid).symm ▸ yields_pure rfl
      · rw [decide_eq_false hid, Bool.false_or]
        exact (if_neg hid).symm ▸ ih h.tail (hk.imp_right (by omega))

theorem Rest.keepScanned {α : Type} (h : Rest tlv 0 ps) (hk : Fueled lost tlv k) (id : α → Option Nat)
    (l : List α) : Yields lost (keepScanned k tlv 0 id l) fun kept =>
      kept = l.filter fun x => ps.any fun p => decide (id x = some p.id) :=
  yields_keepScanned (fun id => h.scan (hk.imp_right (by omega)) id) id l

end

theorem Entry.Found.removeResources {tlv : Bytes} {es : List Entry}
    {k : Nat} (h : e.Found oi) (hpayload : ResourcesPayload tlv es)
    (he : e ∈ es) (hok : removeResources k tlv oi = .ok oi') : e.Found oi' := by
  obtain ⟨kept, hkept, hok⟩ := bind_eq_ok hok
  cases hok
  have hfilter := (hpayload.rest.keepScanned (fueled_any tlv k) (·.nameId) oi.resources).of_eq hkept
  have hscanned : ∀ r : Resource, r.nameId = some e.piece.id →
      (entryPieces es).any (fun p => decide (r.nameId = some p.id)) = true := by
    intro r hname
    exact any_eq_true.mpr ⟨e.piece, mem_map_of_mem he, decide_eq_true hname⟩
  cases e with
  | resource l =>
    obtain ⟨r, hr, hname⟩ := h
    refine ⟨r, ?_, hname⟩
    rw [hfilter]
    exact mem_filter.mpr ⟨hr, hscanned r hname⟩
  | multiple form id ls =>
    obtain ⟨r, hr, hlast⟩ := h
    refine ⟨r, ?_, hlast⟩
    rw [← hr, ObjectInstance.lastMultiple, ObjectInstance.lastMultiple, hfilter, filter_filter]
    congr 1
    apply filter_congr
    intro r' _
    cases hfor : multipleFor id r' with
    | false => rfl
    | true =>
      rw [multipleFor, Bool.and_eq_true] at hfor
      exact hscanned r' (of_decide_eq_true hfor.2)

/-! ## Without memory -/

def scarce : Env := ⟨fun _ _ => false, fun _ => false⟩

section Scarce

variable {tlv : Bytes} {k : Nat} {r : Error × ObjectInstance}

theorem createDynamicResource_scarce (oi : ObjectInstance) (id : Nat) (multiple : Bool) :
    oi.createDynamicResource false id multiple = none := by
  unfold ObjectInstance.createDynamicResource
  split <;> rfl

theorem notFoundResource_scarce (hok : notFoundResource scarce tlv .post false k offsets t oi = .ok r) :
    t.type ≠ .multipleResource ∧ r.2 = oi := by
  unfold notFoundResource at hok
  dsimp only [scarce] at hok
  rw [createDynamicResource_scarce] at hok
  dsimp only at hok
  split_ifs at hok
  rename_i htype
  cases hok
  exact ⟨htype, rfl⟩

/-- Nothing can be created, and the check pass writes nothing. -/
theorem kept_scarce : Kept scarce tlv .post false Eq where
  refl _ := rfl
  trans := Eq.trans
  entry {_ index _ oi r x} hr hx := by
    have hsame : x.2.2 = r := by
      unfold instanceEntry at hx
      split at hx <;> cases hx <;> rfl
    rw [hsame, set_eq_self hr]
  leaf hx := by
    cases hx
    rfl
  newInstance _ _ _ _ _ _ := rfl
  newResource _ hok := by
    rw [show scarce.create false _ = false from rfl, createDynamicResource_scarce] at hok
    cases hok

end Scarce

/-! ## The exact condition -/

/-- An entry that may not be written: it names a resource or a resource instance without the
permission to PUT, or, for Put, one that does not exist. -/
def Entry.Offends (op : Operation) (oi : ObjectInstance) : Entry → Prop
  | .resource l =>
    (∃ r ∈ oi.resources, r.nameId = some l.id ∧ r.base.putAllowed = false) ∨
      (op = .put ∧ ¬ ∃ r ∈ oi.resources, r.nameId = some l.id)
  | .multiple _ id ls =>
    (∃ r ∈ oi.resources, r.nameId = some id ∧ (r.base.putAllowed = false ∨
      ∃ l ∈ ls, ∃ x ∈ r.instances, x.instanceId = l.id ∧ x.base.putAllowed = false)) ∨
      (op = .put ∧ ∃ l ∈ ls, ¬ ∃ r ∈ oi.resources, r.nameId = some id ∧ ∃ x ∈ r.instances, x.instanceId = l.id)

/-- The resources are still there, with their values and those of their instances. -/
def KeepsValues (oi oi' : ObjectInstance) : Prop :=
  ∀ (i : Nat) (r : Resource), oi.resources[i]? = some r → ∃ r', oi'.resources[i]? = some r' ∧
    r'.name = r.name ∧ r'.base = r.base ∧ r.instances <+: r'.instances

theorem ObjectInstance.GrownTo.keepsValues (h : oi.GrownTo oi') : KeepsValues oi oi' := by
  intro i r hr
  obtain ⟨r', hr', new, rfl, -⟩ := h.old i r hr
  exact ⟨_, hr', rfl, rfl, prefix_append _ _⟩

/-- `deserialize_resources` returns an error, and no value has changed. -/
def Rejects (env : Env) (tlv : Bytes) (op : Operation) (oi : ObjectInstance) : Prop :=
  ∃ e oi', Outcome (fun k => deserializeResources k env tlv op oi) (.ok (e, oi')) ∧ e ≠ .none ∧ KeepsValues oi oi'

section Exact

variable {tlv : Bytes} {es : List Entry} {op : Operation}

theorem ResourcesPayload.firstType (h : ResourcesPayload tlv es) :
    ∃ type, firstType tlv = .ok type ∧ (type = .resource ∨ type = .multipleResource) := by
  have hrest := h.rest
  cases es with
  | nil => exact absurd rfl h.nonempty
  | cons e es =>
    refine ⟨e.piece.type, hrest.firstType, ?_⟩
    cases e with
    | resource l => exact .inl rfl
    | multiple form id ls => exact .inr rfl

theorem ResourcesPayload.deserializeResources_eq (h : ResourcesPayload tlv es) (env : Env) (k : Nat) :
    deserializeResources k env tlv op oi = (resources env tlv op false k [] 0 oi >>= fun r =>
      if r.1 = .none then op.removing (removeResources k tlv) r.2 >>= fun oi' => resources env tlv op true k [] 0 oi'
      else pure r) := by
  obtain ⟨type, hfirst, htype⟩ := h.firstType
  unfold deserializeResources
  rw [hfirst]
  show (if type = .resource ∨ type = .multipleResource then _ else _) = _
  rw [if_pos htype]

theorem rejects_of_refused (h : ResourcesPayload tlv es) (env : Env) (hmultiple : op = .post → ∀ e ∈ es, e.HasMultiple oi)
    (hrefused : ∃ e, es.getLast? = some e ∧ e.Refused op oi) : Rejects env tlv op oi := by
  obtain ⟨⟨err, oi'⟩, hok, hchecked, e, he, herror⟩ := (resources_check env (.inr (Nat.le_refl _)) h hmultiple).exists_ok
  obtain ⟨e', he', hrefused⟩ := hrefused
  cases he.symm.trans he'
  have hne := herror.mpr hrefused
  refine ⟨err, oi', ⟨by simp, tlv.length + 2, ?_⟩, hne, hchecked.grown.keepsValues⟩
  dsimp only
  rw [h.deserializeResources_eq, hok, ok_bind]
  exact if_neg hne

theorem hasMultiple_of_rejects (h : ResourcesPayload tlv es) (hrejects : Rejects scarce tlv .post oi) :
    ∀ e ∈ es, e.HasMultiple oi := by
  obtain ⟨e', oi', ⟨-, k, hk⟩, -⟩ := hrejects
  dsimp only at hk
  rw [h.deserializeResources_eq] at hk
  obtain ⟨r, hr, -⟩ := bind_eq_ok hk
  refine Yields.of_eq (Q := fun _ => ∀ e ∈ es, e.HasMultiple oi) hr (h.rest_nil.walk_items
    Entry.piece (fun done s => oi = s ∧ ∀ e ∈ done, e.HasMultiple oi) (by simp [h.nonempty])
    ((fueled_any tlv k).behind 0) (fun e _ => e.not_returns)
    (fun pre e post hes o s _ hs => ?_) (fun hne => absurd rfl hne) ⟨rfl, forall_mem_nil _⟩)
  obtain ⟨rfl, hpre⟩ := hs
  refine yields_of_ok fun x hx => ?_
  have he : ∀ e' ∈ pre ++ [e], e'.HasMultiple oi := by
    refine forall_mem_append.mpr ⟨hpre, forall_mem_singleton.mpr ?_⟩
    cases e with
    | resource l => exact trivial
    | multiple form id ls =>
      rw [handleResource_multiple rfl] at hx
      split_ifs at hx with hne
      · exact absurd rfl (notFoundResource_scarce hx).1
      obtain ⟨i, hi⟩ := exists_mem_of_ne_nil _ hne
      obtain ⟨r, hr, hfor⟩ := mem_indicesOf hi
      exact ⟨r, mem_of_getElem? hr, hfor⟩
  refine ⟨⟨kept_scarce.of_handleResource hx, he⟩, fun hpost _ => ?_⟩
  rw [hes, hpost]
  exact he

theorem Entry.found_of_not_refused {e : Entry} (h : ¬ e.Refused .put oi) : e.Found oi := by
  cases e with
  | resource l =>
    by_contra hnone
    exact h (.inr ⟨rfl, fun r hr hname => hnone ⟨r, hr, hname⟩⟩)
  | multiple form id ls =>
    simp only [Entry.Refused] at h
    cases hlast : oi.lastMultiple id with
    | none =>
      rw [hlast] at h
      exact absurd trivial h
    | some r =>
      rw [hlast] at h
      refine ⟨r, hlast, fun l hl => ?_⟩
      by_contra hnone
      exact h ⟨l, hl, .inr ⟨rfl, fun x hx hid => hnone ⟨x, hx, hid⟩⟩⟩

/-- With enough memory, a payload whose last entry is not refused is written without an error. -/
theorem refused_of_rejects (h : ResourcesPayload tlv es)
    (hmultiple : op = .post → ∀ e ∈ es, e.HasMultiple oi) (hrejects : Rejects plenty tlv op oi) :
    ∃ e, es.getLast? = some e ∧ e.Refused op oi := by
  obtain ⟨e', oi', ⟨-, k, hk⟩, hne, -⟩ := hrejects
  dsimp only at hk
  rw [h.deserializeResources_eq] at hk
  obtain ⟨r, hr, hk⟩ := bind_eq_ok hk
  obtain ⟨hchecked, e, he, herror⟩ := (resources_check plenty (fueled_any tlv k) h hmultiple).of_eq hr
  refine ⟨e, he, ?_⟩
  by_contra hrefused
  have hnone : r.1 = .none := by
    by_contra hne
    exact hrefused (herror.mp hne)
  rw [if_pos hnone] at hk
  obtain ⟨oi2, hremove, hk⟩ := bind_eq_ok hk
  refine hne (Yields.of_eq (Q := fun x => x.1 = .none) hk (h.rest_nil.walk_items
    Entry.piece (fun _ s => op = .put → s.skeleton = oi2.skeleton) (by simp [h.nonempty])
    ((fueled_any tlv k).behind 0) (fun e _ => e.not_returns)
    (fun pre e2 post hes o s hrest hs => ?_) (fun hne => absurd rfl hne) fun _ => rfl))
  refine yields_of_ok fun x hx => ⟨fun hop => ?_, fun hpost _ => ?_⟩
  · subst hop
    exact (kept_skeleton.of_handleResource hx).trans (hs rfl)
  subst hpost
  rw [hes, getLast?_concat] at he
  cases he
  have hmem : e ∈ es := hes ▸ mem_append_cons_self
  refine handleResource_stored hrest (h.wellFormed e hmem) (fun hop => ?_) hx
  subst hop
  have hfound := Entry.found_of_not_refused hrefused
  rw [← hchecked.put rfl] at hfound
  exact (hfound.removeResources h hmem hremove).of_skeleton (hs rfl)

/-- A payload with an entry that may not be written is rejected, whatever memory there is, if and
only if its last entry is refused and, for Post, all multiple resources exist. -/
theorem rejects_iff (h : ResourcesPayload tlv es) :
    ((∃ e ∈ es, e.Offends op oi) → ∀ env, Rejects env tlv op oi) ↔
      ((∃ e ∈ es, e.Offends op oi) → (∃ e, es.getLast? = some e ∧ e.Refused op oi) ∧
        (op = .post → ∀ e ∈ es, e.HasMultiple oi)) := by
  constructor
  · intro hrejects hoffends
    have hmultiple : op = .post → ∀ e ∈ es, e.HasMultiple oi := by
      intro hop
      subst hop
      exact hasMultiple_of_rejects h (hrejects hoffends scarce)
    exact ⟨refused_of_rejects h hmultiple (hrejects hoffends plenty), hmultiple⟩
  · intro hcond hoffends env
    obtain ⟨hrefused, hmultiple⟩ := hcond hoffends
    exact rejects_of_refused h env hmultiple hrefused

end Exact

/-! ## A payload that is not rejected -/

/-- The form of a header with one byte for the identifier and the length in the first byte. -/
def shortForm : Form := ⟨false, 0⟩

/-- Resource 0 may not be written, and resource 1 may. -/
def lockedResource : ObjectInstance :=
  ⟨0, [⟨"0", some 0, ⟨.string, false, some [65]⟩, false, []⟩, ⟨"1", some 1, ⟨.string, true, some [66]⟩, false, []⟩]⟩

def bothResources : List Entry := [.resource ⟨shortForm, 0, [67]⟩, .resource ⟨shortForm, 1, [68]⟩]

def bothReversed : List Entry := [.resource ⟨shortForm, 1, [68]⟩, .resource ⟨shortForm, 0, [67]⟩]

/-- The refused entry is the last one. -/
theorem rejects_reversed : ResourcesPayload (encodeAll (entryPieces bothReversed)) bothReversed ∧
      ∀ env, Rejects env (encodeAll (entryPieces bothReversed)) .put lockedResource := by
  have hpayload : ResourcesPayload (encodeAll (entryPieces bothReversed)) bothReversed := ⟨rfl, by decide, by decide, by decide⟩
  refine ⟨hpayload, (rejects_iff hpayload).mpr (fun _ => ⟨⟨_, rfl, ?_⟩, fun hop => nomatch hop⟩)
    ⟨.resource ⟨shortForm, 0, [67]⟩, by decide, ?_⟩⟩
  · exact .inl ⟨_, .head _, rfl, rfl⟩
  · exact .inl ⟨_, .head _, rfl, rfl⟩

/-- The refused entry is not the last one: both values are written, and no error is returned. -/
theorem not_rejects_bothResources : (∃ e ∈ bothResources, e.Offends .put lockedResource) ∧
      Outcome (fun k => deserializeResources k plenty (encodeAll (entryPieces bothResources)) .put
        lockedResource)
        (.ok (.none, ⟨0, [⟨"0", some 0, ⟨.string, false, some [67]⟩, false, []⟩,
          ⟨"1", some 1, ⟨.string, true, some [68]⟩, false, []⟩]⟩)) := by
  refine ⟨⟨.resource ⟨shortForm, 0, [67]⟩, by decide, ?_⟩, by simp, 5, by decide⟩
  exact .inl ⟨_, .head _, rfl, rfl⟩

end MbedCloud.Lwm2m

