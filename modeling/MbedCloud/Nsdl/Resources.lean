import MbedCloud.Lib.Word
import Mathlib.Algebra.Order.Ring.Nat
import Mathlib.Data.List.Find
import Mathlib.Data.List.Induction
import Mathlib.Data.List.Nodup

/-!
# The list of resources

`sn_grs_put_resource`, `sn_grs_pop_resource` and `sn_grs_delete_resource` of `sn_grs.c`, over `sn_grs_search_resource`. The
path that is searched is stripped of a leading and a trailing '/', the stored paths are compared as they are.
-/

namespace MbedCloud.Nsdl

open List

/-! ## Paths -/

abbrev Path := { bytes : Bytes // 0 ∉ bytes }

/-- '/' -/
def slash : UInt8 := 0x2f

/-- The second part of `sn_grs_convert_uri`: the length without a '/' at the end. The length is a `uint16_t`, and if it is 0
the byte in front of the path is read. -/
def trimEnd (front : UInt8) (start : Bytes) (len : UInt16) : UInt16 :=
  let last := if len = 0 then front else start.getD (len.toNat - 1) 0
  if last = slash then len - 1 else len

/-- `sn_grs_convert_uri`: where the path starts, and its length; `below` is the byte in front of it. -/
def convertUri (below : UInt8) (path : Bytes) : Bytes × UInt16 :=
  let len := UInt16.ofNat path.length
  if path.head? = some slash then (path.tail, trimEnd slash path.tail (len - 1)) else (path, trimEnd below path len)

/-- `memcmp` of a stored path with the bytes from `start` on, which end with a zero. -/
def sameBytes (stored start : Bytes) (len : Nat) : Bool := stored.take len = (start ++ [0]).take len

/-- A path without one leading and one trailing '/'. -/
def normalise (path : Bytes) : Bytes :=
  let path := if path.head? = some slash then path.tail else path
  if path.getLast? = some slash then path.dropLast else path

/-! ## Resources -/

/-- `sn_nsdl_dynamic_resource_parameters_s`: a resource is known by its address. -/
structure Resource where
  address : Nat
  path : Path
  deriving DecidableEq

/-- `grs_s` -/
structure State where
  /-- `resource_root_list` -/
  list : List Resource
  /-- `resource_root_count` -/
  count : UInt16

def initial : State := ⟨[], 0⟩

inductive Code where
  /-- `SN_NSDL_SUCCESS` -/
  | success
  /-- `SN_NSDL_FAILURE` -/
  | failure
  /-- `SN_GRS_RESOURCE_ALREADY_EXISTS` -/
  | alreadyExists
  /-- `SN_GRS_INVALID_PATH` -/
  | invalidPath
  deriving DecidableEq

/-- `sn_grs_search_resource` with `SN_GRS_SEARCH_METHOD` -/
def searchResource (below : UInt8) (path : Bytes) (list : List Resource) : Option Resource :=
  let (start, len) := convertUri below path
  list.find? fun r => r.path.val.length = len.toNat ∧ sameBytes r.path.val start len.toNat

/-- `sn_grs_search_resource` with `SN_GRS_DELETE_METHOD` -/
def searchSubresource (below : UInt8) (path : Bytes) (list : List Resource) : Option Resource :=
  let (start, len) := convertUri below path
  list.find? fun r => len.toNat < r.path.val.length ∧ r.path.val[len.toNat % 256]? = some slash ∧
    sameBytes r.path.val start len.toNat

/-- A resource is taken from the list and the count. -/
def remove (r : Resource) (s : State) : State := ⟨s.list.erase r, s.count - 1⟩

/-- The loop of `sn_grs_delete_resource` over the subresources. -/
def deleteSubresources (below : UInt8) (path : Bytes) : Nat → State → State
  | 0, s => s
  | fuel + 1, s =>
    match searchSubresource below path s.list with
    | some r => deleteSubresources below path fuel (remove r s)
    | none => s

/-- `sn_grs_delete_resource` -/
def deleteResource (below : UInt8) (path : Bytes) (s : State) : Code × State :=
  match searchResource below path s.list with
  | none => (.failure, s)
  | some r => (.success, deleteSubresources below path s.list.length (remove r s))

/-- `sn_grs_put_resource` -/
def putResource (below : UInt8) (r : Resource) (s : State) : Code × State :=
  if r.path.val = [] then (.invalidPath, s)
  else if (searchResource below r.path s.list).isSome then (.alreadyExists, s)
  else (.success, ⟨r :: s.list, s.count + 1⟩)

/-- `sn_grs_pop_resource` -/
def popResource (below : UInt8) (r : Resource) (s : State) : Code × State :=
  if r.path.val = [] then (.invalidPath, s)
  else if (searchResource below r.path s.list).isNone then (.failure, s)
  else (.success, remove r s)

inductive Op where
  | put (below : UInt8) (r : Resource)
  | pop (below : UInt8) (r : Resource)
  | delete (below : UInt8) (path : Path)

def step (s : State) : Op → State
  | .put below r => (putResource below r s).2
  | .pop below r => (popResource below r s).2
  | .delete below path => (deleteResource below path s).2

def run (ops : List Op) : State := ops.foldl step initial

/-- The paths have less than `2 ^ 16` characters. -/
def Op.Short : Op → Prop
  | .put _ r => r.path.val.length < 2 ^ 16
  | .pop _ r => r.path.val.length < 2 ^ 16
  | .delete _ path => path.val.length < 2 ^ 16

/-! ## The search -/

section

variable {below front : UInt8} {path stored start : Bytes} {list : List Resource} {s : State}

/-- The comparison of `sn_grs_search_resource`. -/
def Matches (stored start : Bytes) (len : UInt16) : Prop := stored.length = len.toNat ∧ sameBytes stored start len.toNat = true

variable {len : UInt16}

theorem matches_iff_eq_take (h : len.toNat ≤ start.length) : Matches stored start len ↔ stored = start.take len.toNat := by
  unfold Matches sameBytes
  rw [decide_eq_true_iff, take_append_of_le_length h]
  constructor
  · intro hmatch
    rw [← hmatch.2, ← hmatch.1, take_length]
  intro heq
  have hlength : stored.length = len.toNat := by
    rw [heq, length_take]
    omega
  refine ⟨hlength, ?_⟩
  rw [← hlength, take_length, hlength]
  exact heq

theorem not_matches (hstored : 0 ∉ stored) (h : start.length < len.toNat) : ¬ Matches stored start len := by
  intro hmatch
  obtain ⟨hlength, hbytes⟩ := hmatch
  unfold sameBytes at hbytes
  rw [decide_eq_true_iff, ← hlength, take_length, hlength, take_of_length_le] at hbytes
  · apply hstored
    rw [hbytes]
    exact mem_append_right _ (.head _)
  · rw [length_append, length_singleton]
    omega

theorem matches_trimEnd (hlen : len.toNat = start.length) (hstored : 0 ∉ stored) (hne : stored ≠ []) :
    Matches stored start (trimEnd front start len) ↔ stored = if start.getLast? = some slash then start.dropLast else start := by
  rcases eq_nil_or_concat' start with rfl | ⟨rest, last, rfl⟩
  · -- the length is 0, or it wraps
    have hzero : len = 0 := UInt16.toNat_inj.mp hlen
    subst hzero
    have hright : stored ≠ if ([] : Bytes).getLast? = some slash then [].dropLast else [] := hne
    refine iff_of_false ?_ hright
    by_cases hfront : front = slash
    · have htrim : trimEnd front [] 0 = 65535 := by
        rw [hfront]
        rfl
      rw [htrim]
      exact not_matches hstored (by decide)
    · have htrim : trimEnd front [] 0 = 0 := if_neg hfront
      rw [htrim]
      exact fun hmatch => hne (eq_nil_of_length_eq_zero hmatch.1)
  · rw [length_append, length_singleton] at hlen
    have hpos : len ≠ 0 := by
      intro hzero
      rw [hzero] at hlen
      exact absurd hlen.symm (Nat.succ_ne_zero _)
    have hlast : (rest ++ [last]).getD (len.toNat - 1) 0 = last := by simp [hlen]
    simp only [getLast?_concat, dropLast_concat, Option.some.injEq]
    unfold trimEnd
    rw [if_neg hpos, hlast]
    by_cases hslash : last = slash
    · have hsub : (len - 1).toNat = rest.length := by
        have hsub := UInt16.toNat_sub len 1
        have hlt := len.toNat_lt
        have hone : (1 : UInt16).toNat = 1 := rfl
        omega
      rw [if_pos hslash, if_pos hslash, matches_iff_eq_take (by rw [hsub, length_append]; omega), hsub, take_left]
    · rw [if_neg hslash, if_neg hslash, matches_iff_eq_take (by simp [hlen]), hlen, take_of_length_le (by simp)]

/-- A stored path matches if it is the path that is searched without the '/' around it. -/
theorem matches_convertUri (hpath : path.length < 2 ^ 16) (hstored : 0 ∉ stored) (hne : stored ≠ []) :
    Matches stored (convertUri below path).1 (convertUri below path).2 ↔ stored = normalise path := by
  have hlen : (UInt16.ofNat path.length).toNat = path.length := UInt16.toNat_ofNat_of_lt' hpath
  unfold convertUri normalise
  by_cases hhead : path.head? = some slash
  · rw [if_pos hhead, if_pos hhead]
    refine matches_trimEnd ?_ hstored hne
    have hpos : path ≠ [] := by
      rintro rfl
      cases hhead
    have hlength := length_pos_of_ne_nil hpos
    have hsub := UInt16.toNat_sub (UInt16.ofNat path.length) 1
    have hone : (1 : UInt16).toNat = 1 := rfl
    rw [length_tail]
    omega
  · rw [if_neg hhead, if_neg hhead]
    exact matches_trimEnd hlen hstored hne

/-- The resources of the list have a path that is not empty. -/
def Stored (s : State) : Prop := ∀ r ∈ s.list, r.path.val ≠ [] ∧ r.path.val.length < 2 ^ 16

theorem searchResource_eq (hlist : ∀ r ∈ list, r.path.val ≠ []) (hpath : path.length < 2 ^ 16) :
    searchResource below path list = list.find? fun r => r.path.val = normalise path := by
  refine find?_congr fun r hr => decide_eq_decide.mpr ?_
  exact matches_convertUri hpath r.path.property (hlist r hr)

end

/-! ## Consistency -/

/-- The count is right, no path is stored twice, and a path is found if and only if it is stored. -/
structure Consistent (s : State) : Prop where
  count : s.count.toNat = s.list.length
  distinct : (s.list.map fun r => normalise r.path).Nodup
  search : ∀ (below : UInt8) (path : Path) (r : Resource), path.val.length < 2 ^ 16 →
    (searchResource below path s.list = some r ↔ r ∈ s.list ∧ normalise r.path = normalise path)

/-- What consistency means for the list itself. -/
structure Plain (s : State) : Prop where
  count : s.count.toNat = s.list.length
  normal : ∀ r ∈ s.list, normalise r.path = r.path
  distinct : (s.list.map fun r => r.path.val).Nodup

section Consistent

variable {s : State} {below : UInt8} {r : Resource}

theorem Stored.ne_nil (h : Stored s) : ∀ r ∈ s.list, r.path.val ≠ [] := fun r hr => (h r hr).1

theorem consistent_iff (h : Stored s) : Consistent s ↔ Plain s := by
  constructor
  · intro hcon
    have hnormal : ∀ r ∈ s.list, normalise r.path = r.path := by
      intro r hr
      have hfind := (hcon.search 0 r.path r (h r hr).2).mpr ⟨hr, rfl⟩
      rw [searchResource_eq h.ne_nil (h r hr).2] at hfind
      have heq : r.path.val = normalise r.path := by simpa using find?_some hfind
      exact heq.symm
    refine ⟨hcon.count, hnormal, ?_⟩
    have hmap : (s.list.map fun r => normalise r.path) = s.list.map fun r => r.path.val := map_congr_left hnormal
    exact hmap ▸ hcon.distinct
  · intro hplain
    refine ⟨hplain.count, ?_, ?_⟩
    · have hmap : (s.list.map fun r => normalise r.path) = s.list.map fun r => r.path.val := map_congr_left hplain.normal
      exact hmap ▸ hplain.distinct
    intro below path r hpath
    rw [searchResource_eq h.ne_nil hpath]
    constructor
    · intro hfind
      have hr := mem_of_find?_eq_some hfind
      have heq : r.path.val = normalise path := by simpa using find?_some hfind
      refine ⟨hr, ?_⟩
      rw [hplain.normal r hr, heq]
    intro hr
    obtain ⟨hr, heq⟩ := hr
    rw [hplain.normal r hr] at heq
    have hsome : (s.list.find? fun r => r.path.val = normalise path).isSome := find?_isSome.mpr ⟨r, hr, by simpa using heq⟩
    obtain ⟨x, hx⟩ := Option.isSome_iff_exists.mp hsome
    have hxpath : x.path.val = normalise path := by simpa using find?_some hx
    have hxr : x = r := inj_on_of_nodup_map hplain.distinct (mem_of_find?_eq_some hx) hr (hxpath.trans heq.symm)
    rw [hx, hxr]

theorem Plain.remove (h : Plain s) (hr : r ∈ s.list) : Plain (remove r s) := by
  have hlength := length_erase_of_mem hr
  have hpos := length_pos_of_mem hr
  have hcount := h.count
  refine ⟨?_, fun x hx => h.normal x (mem_of_mem_erase hx), ?_⟩
  · have hsub := UInt16.toNat_sub s.count 1
    have hlt := s.count.toNat_lt
    have hone : (1 : UInt16).toNat = 1 := rfl
    show (s.count - 1).toNat = (s.list.erase r).length
    omega
  · exact h.distinct.sublist (erase_sublist.map _)

theorem Stored.remove (h : Stored s) (r : Resource) : Stored (remove r s) := fun x hx => h x (mem_of_mem_erase hx)

variable {path : Bytes} {op : Op}

theorem deleteSubresources_keeps (fuel : Nat) (h : Stored s) :
    Stored (deleteSubresources below path fuel s) ∧ (Plain s → Plain (deleteSubresources below path fuel s)) := by
  induction fuel generalizing s with
  | zero => exact ⟨h, id⟩
  | succ fuel ih =>
    unfold deleteSubresources
    split
    · rename_i r hr
      have hrest := ih (h.remove r)
      exact ⟨hrest.1, fun hplain => hrest.2 (hplain.remove (mem_of_find?_eq_some hr))⟩
    · exact ⟨h, id⟩

/-- What keeps the list consistent: a resource is put with a normal path, unless its path is stored already, and only resources
of the list are popped, unless their path is not stored. -/
def Keeps (s : State) : Op → Prop
  | .put _ r => r.path.val = [] ∨ (∃ x ∈ s.list, normalise x.path = normalise r.path) ∨
      normalise r.path = r.path ∧ s.list.length < 65535
  | .pop _ r => r.path.val = [] ∨ (¬ ∃ x ∈ s.list, normalise x.path = normalise r.path) ∨ r ∈ s.list
  | .delete _ _ => True

theorem Plain.isSome_search (h : Plain s) (hs : Stored s) (hpath : path.length < 2 ^ 16) :
    (searchResource below path s.list).isSome ↔ ∃ x ∈ s.list, normalise x.path = normalise path := by
  rw [searchResource_eq hs.ne_nil hpath, find?_isSome]
  constructor
  · intro hx
    obtain ⟨x, hx, heq⟩ := hx
    refine ⟨x, hx, ?_⟩
    rw [h.normal x hx]
    simpa using heq
  · intro hx
    obtain ⟨x, hx, heq⟩ := hx
    rw [h.normal x hx] at heq
    exact ⟨x, hx, by simpa using heq⟩

theorem stored_step (h : Stored s) (hop : op.Short) : Stored (step s op) := by
  cases op with
  | put below r =>
    unfold step putResource
    dsimp only
    split
    · exact h
    rename_i hne
    split
    · exact h
    intro x hx
    rcases mem_cons.mp hx with rfl | hx
    · exact ⟨hne, hop⟩
    · exact h x hx
  | pop below r =>
    unfold step popResource
    dsimp only
    split
    · exact h
    split
    · exact h
    · exact h.remove r
  | delete below path =>
    unfold step deleteResource
    dsimp only
    split
    · exact h
    · exact (deleteSubresources_keeps _ (h.remove _)).1

theorem plain_put_iff (h : Plain s) (hs : Stored s) (hr : r.path.val.length < 2 ^ 16) :
    Plain (putResource below r s).2 ↔ Keeps s (.put below r) := by
  have hcount := h.count
  unfold putResource Keeps
  by_cases hnil : r.path.val = []
  · rw [if_pos hnil]
    exact iff_of_true h (.inl hnil)
  rw [if_neg hnil]
  by_cases hfound : ∃ x ∈ s.list, normalise x.path = normalise r.path
  · rw [if_pos ((h.isSome_search hs hr).mpr hfound)]
    exact iff_of_true h (.inr (.inl hfound))
  rw [if_neg (mt (h.isSome_search hs hr).mp hfound)]
  -- the resource is added
  have hadd := UInt16.toNat_add s.count 1
  have hone : (1 : UInt16).toNat = 1 := rfl
  constructor
  · intro hplain
    have hcount' : (s.count + 1).toNat = s.list.length + 1 := hplain.count
    exact .inr (.inr ⟨hplain.normal r (.head _), by omega⟩)
  intro hkeeps
  obtain ⟨hnormal, hroom⟩ := (hkeeps.resolve_left hnil).resolve_left hfound
  refine ⟨?_, ?_, ?_⟩
  · show (s.count + 1).toNat = s.list.length + 1
    omega
  · intro x hx
    rcases mem_cons.mp hx with rfl | hx
    · exact hnormal
    · exact h.normal x hx
  · rw [map_cons, nodup_cons]
    refine ⟨fun hmem => hfound ?_, h.distinct⟩
    obtain ⟨x, hx, heq⟩ := mem_map.mp hmem
    exact ⟨x, hx, congrArg normalise heq⟩

theorem plain_pop_iff (h : Plain s) (hs : Stored s) (hr : r.path.val.length < 2 ^ 16) :
    Plain (popResource below r s).2 ↔ Keeps s (.pop below r) := by
  have hcount := h.count
  unfold popResource Keeps
  by_cases hnil : r.path.val = []
  · rw [if_pos hnil]
    exact iff_of_true h (.inl hnil)
  rw [if_neg hnil]
  by_cases hfound : ∃ x ∈ s.list, normalise x.path = normalise r.path
  · have hsome : (searchResource below r.path s.list).isSome := (h.isSome_search hs hr).mpr hfound
    rw [if_neg (by rw [Option.isNone_iff_eq_none]; exact Option.isSome_iff_ne_none.mp hsome)]
    constructor
    · intro hplain
      right
      right
      by_contra hout
      -- the list is not changed, the count is
      have hsame : s.list.erase r = s.list := erase_of_not_mem hout
      have hcount' : (s.count - 1).toNat = (s.list.erase r).length := hplain.count
      have hsub := UInt16.toNat_sub s.count 1
      have hone : (1 : UInt16).toNat = 1 := rfl
      rw [hsame] at hcount'
      omega
    · intro hkeeps
      exact h.remove ((hkeeps.resolve_left hnil).resolve_left (fun hnot => hnot hfound))
  · have hnone : (searchResource below r.path s.list).isNone := by
      rw [Option.isNone_iff_eq_none, ← Option.not_isSome_iff_eq_none]
      exact mt (h.isSome_search hs hr).mp hfound
    rw [if_pos hnone]
    exact iff_of_true h (.inr (.inl hfound))

theorem plain_step_iff (h : Plain s) (hs : Stored s) (hop : op.Short) : Plain (step s op) ↔ Keeps s op := by
  cases op with
  | put below r => exact plain_put_iff h hs hop
  | pop below r => exact plain_pop_iff h hs hop
  | delete below path =>
    refine iff_of_true ?_ .intro
    unfold step deleteResource
    dsimp only
    split
    · exact h
    · rename_i r hr
      exact (deleteSubresources_keeps _ (hs.remove r)).2 (h.remove (mem_of_find?_eq_some hr))

end Consistent

/-! ## Runs -/

theorem stored_initial : Stored initial := fun _ hr => (not_mem_nil hr).elim

theorem stored_run {ops : List Op} (hops : ∀ op ∈ ops, op.Short) : Stored (run ops) := by
  induction ops using List.reverseRecOn with
  | nil => exact stored_initial
  | append_singleton ops op ih =>
    have hrun : run (ops ++ [op]) = step (run ops) op := foldl_concat step initial op ops
    rw [hrun]
    exact stored_step (ih fun op hop => hops op (mem_append_left _ hop)) (hops op (mem_append_right _ (.head _)))

/-- With paths of less than `2 ^ 16` characters, the list is consistent all the time if and only if no resource is stored under
a path with a '/' at an end, no more than 65535 are stored, and none that is not in the list is popped. -/
theorem resources_consistent_iff (ops : List Op) (hops : ∀ op ∈ ops, op.Short) :
    (∀ before, before <+: ops → Consistent (run before)) ↔ ∀ before op, before ++ [op] <+: ops → Keeps (run before) op := by
  induction ops using List.reverseRecOn with
  | nil =>
    refine iff_of_true ?_ ?_
    · intro before hbefore
      rw [prefix_nil.mp hbefore]
      exact (consistent_iff stored_initial).mpr ⟨rfl, fun _ hr => (not_mem_nil hr).elim, nodup_nil⟩
    · intro before op hbefore
      exact absurd (prefix_nil.mp hbefore) (by simp)
  | append_singleton ops op ih =>
    have hops' : ∀ op ∈ ops, op.Short := fun op hop => hops op (mem_append_left _ hop)
    have hop := hops op (mem_append_right _ (.head _))
    have hrun : run (ops ++ [op]) = step (run ops) op := foldl_concat step initial op ops
    have hstored := stored_run hops'
    have hlast : Consistent (run ops) → (Consistent (run (ops ++ [op])) ↔ Keeps (run ops) op) := by
      intro hcon
      rw [consistent_iff (stored_run hops), hrun]
      exact plain_step_iff ((consistent_iff hstored).mp hcon) hstored hop
    constructor
    · intro hall before o hbefore
      have hearlier := fun before hb => hall before (prefix_concat_iff.mpr (.inr hb))
      rcases prefix_concat_iff.mp hbefore with heq | hbefore
      · obtain ⟨rfl, hlast'⟩ := append_inj' heq rfl
        cases hlast'
        exact (hlast (hearlier before (prefix_refl before))).mp (hall _ (prefix_refl _))
      · exact (ih hops').mp hearlier before o hbefore
    · intro hall before hbefore
      have hearlier := (ih hops').mpr fun before o hb => hall before o (prefix_concat_iff.mpr (.inr hb))
      rcases prefix_concat_iff.mp hbefore with rfl | hbefore
      · exact (hlast (hearlier ops (prefix_refl ops))).mpr (hall ops op (prefix_refl _))
      · exact hearlier before hbefore

/-- "3/0" -/
def threeZero : Path := ⟨[0x33, slash, 0x30], by decide⟩

/-- "/3/0/" -/
def threeZeroSlashes : Path := ⟨[slash, 0x33, slash, 0x30, slash], by decide⟩

theorem resources_consistent_threeZero :
    Consistent (run [.put 0 ⟨0, threeZero⟩, .put 0 ⟨1, threeZeroSlashes⟩]) ∧
      (run [.put 0 ⟨0, threeZero⟩, .put 0 ⟨1, threeZeroSlashes⟩]).list = [⟨0, threeZero⟩] := by
  refine ⟨(resources_consistent_iff [.put 0 ⟨0, threeZero⟩, .put 0 ⟨1, threeZeroSlashes⟩] ?_).mpr ?_ _ (prefix_refl _), by decide⟩
  · simp [Op.Short, threeZero, threeZeroSlashes]
  intro before op hbefore
  rcases before with _ | ⟨first, _ | ⟨second, rest⟩⟩
  · simp only [nil_append, cons_prefix_cons] at hbefore
    rw [hbefore.1]
    exact .inr (.inr (by decide))
  · simp only [cons_append, nil_append, cons_prefix_cons] at hbefore
    rw [hbefore.1, hbefore.2.1]
    exact .inr (.inl ⟨⟨0, threeZero⟩, by decide, by decide⟩)
  · simp at hbefore

/-- "/a" -/
def slashA : Path := ⟨[slash, 0x61], by decide⟩

/-- A path with a leading '/' is stored and not found again, so that it can be stored a second time. -/
theorem stored_twice : (run [.put 0 ⟨0, slashA⟩, .put 0 ⟨1, slashA⟩]).list = [⟨1, slashA⟩, ⟨0, slashA⟩] ∧
    searchResource 0 slashA (run [.put 0 ⟨0, slashA⟩, .put 0 ⟨1, slashA⟩]).list = none ∧
    ¬ Consistent (run [.put 0 ⟨0, slashA⟩, .put 0 ⟨1, slashA⟩]) := by
  refine ⟨by decide, by decide, fun hcon => ?_⟩
  have hdistinct := hcon.distinct
  revert hdistinct
  decide

end MbedCloud.Nsdl

