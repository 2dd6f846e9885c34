import Mathlib.Algebra.Group.Action.Defs
import Mathlib.Algebra.Order.BigOperators.Group.List
import Mathlib.Algebra.Order.Ring.Nat
import MbedCloud.Coap.BuilderFormat

/-!
# The size of a built packet

`calcNeededPacketDataSize2` against the number of bytes that `snCoapBuilder2` writes. Both
are compared with `encodedLength`, the length of the message in the packet format. The size
computation adds the same numbers in another order and in 16 bits, and counts one header
byte too few for a Proxy-Uri of 269 bytes. The writer passes over the length of a token that
is not there, and it reads the length of the ETag together with the flags behind it.
-/

namespace MbedCloud.Coap

open List

open Grammar

/-! ## Lengths in the packet format -/

/-- The bytes of an option with a value of length `len`, without an extended delta. -/
def weight (len : Nat) : Nat := 1 + (extension len).length + len

def weights (lens : List Nat) : Nat := (lens.map weight).sum

/-- The bytes of the extended deltas, for options present in this order. -/
def gaps : Nat → List OptionNumber → Nat
  | _, [] => 0
  | previous, o :: os => (if o.num - previous > 12 then 1 else 0) + gaps o.num os

theorem extension_length (v : Nat) : (extension v).length = if v ≤ 12 then 0 else if v < 269 then 1 else 2 := by
  unfold extension
  split_ifs <;> first | rfl | omega

theorem optionsBytes_instances_length (previous : Nat) (o : OptionNumber) (v : Bytes) (vs : List Bytes) :
    (optionsBytes previous (instances o (v :: vs))).length =
      (extension (o.num - previous)).length + weights ((v :: vs).map List.length) := by
  induction vs generalizing previous v with
  | nil =>
    simp only [instances, optionsBytes, optionBytes, headerBytes, weights, weight, map_cons,
      map_nil, sum_cons, sum_nil, length_append, length_cons,
      length_nil]
    omega
  | cons u us ih =>
    have hrest := ih o.num u
    have hzero : (extension 0).length = 0 := rfl
    simp only [instances, map_cons, optionsBytes, optionBytes, headerBytes, weights, weight,
      sum_cons, length_append, length_cons, Nat.sub_self, hzero] at hrest ⊢
    omega

theorem optionsBytes_flatMap_length (f : OptionNumber → List Bytes) (previous : Nat) (os : List OptionNumber) :
    (optionsBytes previous (os.flatMap fun o => instances o (f o))).length =
      (os.map fun o => weights ((f o).map List.length)).sum +
        gaps previous (os.filter fun o => !(f o).isEmpty) := by
  induction os generalizing previous with
  | nil => rfl
  | cons o os ih =>
    rw [flatMap_cons, optionsBytes_append, length_append, ih, map_cons, sum_cons]
    cases hf : f o with
    | nil => simp [instances, optionsBytes, lastNumber, weights, hf]
    | cons v vs =>
      have hgap : (extension (o.num - previous)).length = if o.num - previous > 12 then 1 else 0 := by
        have := num_le o
        rw [extension_length]
        split_ifs <;> omega
      rw [optionsBytes_instances_length, lastNumber_instances, hgap]
      simp only [filter_cons, hf, isEmpty_cons, Bool.not_false, if_true, gaps]
      omega

/-! ## What the message holds -/

def present (m : Hdr) : OptionNumber → Bool
  | .uriHost => m.options.uriHostPtr.isSome
  | .etag => m.options.etagPtr.isSome
  | .observe => m.options.observe ≠ observeNone
  | .uriPort => m.options.uriPort ≠ uriPortNone
  | .locationPath => m.options.locationPathPtr.isSome
  | .uriPath => m.uriPathPtr.isSome
  | .contentFormat => m.contentFormat ≠ ctNone
  | .maxAge => m.options.maxAge ≠ maxAgeDefault
  | .uriQuery => m.options.uriQueryPtr.isSome
  | .accept => m.options.accept ≠ ctNone
  | .locationQuery => m.options.locationQueryPtr.isSome
  | .block2 => m.options.block2 ≠ blockNone
  | .block1 => m.options.block1 ≠ blockNone
  | .size2 => m.options.useSize2
  | .proxyUri => m.options.proxyUriPtr.isSome
  | .size1 => m.options.useSize1
  | .ifMatch | .ifNoneMatch | .proxyScheme => false

def partLengths (query : Bytes) (o : OptionNumber) : List Nat :=
  (List.range (optionsGetOptionPartCount query o)).map fun i => optionsGetOptionPartLengthFromWholeOptionString query i o

def stringLengths (ptr : Option Bytes) (o : OptionNumber) : List Nat := ptr.elim [] fun s => partLengths s o

def uintLengths (present : Bool) (value : Nat) : List Nat := if present then [(uintPayload value).length] else []

def valueLengths (m : Hdr) : OptionNumber → List Nat
  | .uriHost => (m.options.uriHostPtr.map List.length).toList
  | .etag => stringLengths m.options.etagPtr .etag
  | .observe => uintLengths (present m .observe) (u32i m.options.observe)
  | .uriPort => uintLengths (present m .uriPort) (u32i m.options.uriPort)
  | .locationPath => stringLengths m.options.locationPathPtr .locationPath
  | .uriPath => stringLengths m.uriPathPtr .uriPath
  | .contentFormat => uintLengths (present m .contentFormat) (u32i m.contentFormat)
  | .maxAge => uintLengths (present m .maxAge) m.options.maxAge
  | .uriQuery => stringLengths m.options.uriQueryPtr .uriQuery
  | .accept => uintLengths (present m .accept) (u32i m.options.accept)
  | .locationQuery => stringLengths m.options.locationQueryPtr .locationQuery
  | .block2 => uintLengths (present m .block2) (u32i m.options.block2)
  | .block1 => uintLengths (present m .block1) (u32i m.options.block1)
  | .size2 => uintLengths (present m .size2) m.options.size2
  | .proxyUri => (m.options.proxyUriPtr.map List.length).toList
  | .size1 => uintLengths (present m .size1) m.options.size1
  | .ifMatch | .ifNoneMatch | .proxyScheme => []

def encodedLength (m : Hdr) : Nat :=
  4 + m.tokenPtr.elim 0 (fun _ => m.tokenLen) + (numberOrder.map fun o => weights (valueLengths m o)).sum +
    gaps 0 (numberOrder.filter (present m)) +
    (if m.payloadLen = 0 then 0 else 1 + m.payloadLen)

/-! ## The bytes for extended deltas -/

theorem gaps_low {os : List OptionNumber} (h : ∀ o ∈ os, o.num ≤ 12) (previous : Nat) : gaps previous os = 0 := by
  induction os generalizing previous with
  | nil => rfl
  | cons o os ih =>
    have ho := h o (.head _)
    have hrest := ih (fun o' ho' => h o' (.tail _ ho')) o.num
    simp only [gaps, hrest]
    split_ifs <;> omega

theorem foldl_jumpTo (has : OptionNumber → Bool) (os : List OptionNumber) (s : Nat × Nat) (hs : s.2 + os.length < 256) :
    (os.foldl (fun s o => jumpTo s (has o) o) s).2 = s.2 + gaps s.1 (os.filter has) := by
  induction os generalizing s with
  | nil => rfl
  | cons o os ih =>
    rw [length_cons] at hs
    rw [foldl_cons, filter_cons]
    cases has o with
    | false => exact ih s (by omega)
    | true =>
      by_cases hgap : o.num - s.1 > 12
      · have hstep : jumpTo s true o = (o.num, s.2 + 1) := by
          simp only [jumpTo, if_true, hgap, u8]
          rw [Nat.mod_eq_of_lt (by omega)]
        rw [hstep, ih _ (by simp only; omega)]
        simp only [if_true, gaps, hgap]
        omega
      · have hstep : jumpTo s true o = (o.num, s.2) := by simp [jumpTo, hgap]
        rw [hstep, ih _ (by simp only; omega)]
        simp only [if_true, gaps, hgap, if_false]
        omega

variable {o : OptionNumber} {m : Hdr} {heap : Heap} {len : Nat} {ptr : Option Bytes}

theorem jumpTo_low (ho : o.num ≤ 12) (previous : Nat) (has : Bool) :
    jumpTo (previous, 0) has o = (jumpOver previous has o, 0) := by
  unfold jumpTo jumpOver
  have hgap : ¬ o.num - previous > 12 := by omega
  cases has <;> simp [hgap]

theorem jumpToProxyUri_eq (s : Nat × Nat) (has : Bool) : jumpToProxyUri s has = jumpTo s has .proxyUri := by
  have hgap : ¬ OptionNumber.num .proxyUri - s.1 > 269 := by
    have := num_le .proxyUri
    omega
  unfold jumpToProxyUri jumpTo
  simp only [hgap, if_false]

/-- The check of the source for options with numbers over 12. -/
def OnlyLow (o : OptionsList) : Prop :=
  o.uriQueryPtr.isNone ∧ o.accept = ctNone ∧ o.locationQueryPtr.isNone ∧ o.block2 = blockNone ∧
    o.block1 = blockNone ∧ o.proxyUriPtr.isNone ∧ o.maxAge = maxAgeDefault ∧ !o.useSize1 ∧
    !o.useSize2

theorem gaps_onlyLow (h : OnlyLow m.options) : gaps 0 (numberOrder.filter (present m)) = 0 := by
  obtain ⟨hquery, haccept, hlocation, hblock2, hblock1, hproxy, hage, hsize1, hsize2⟩ := h
  apply gaps_low
  intro o ho
  have hpresent := (mem_filter.mp ho).2
  cases o with
  | maxAge | uriQuery | accept | locationQuery | block2 | block1 | size2 | proxyUri | size1 => simp_all [present]
  | _ => first | decide | cases hpresent

/-- A message without an options list has the default options. -/
theorem optionsListPtr_cases (m : Hdr) : m.optionsListPtr = none ∧ m.options = {} ∨ m.optionsListPtr = some m.options := by
  cases h : m.optionsListPtr <;> simp [Hdr.options, h]

theorem optionsCalculateJumpNeed_eq (m : Hdr) : optionsCalculateJumpNeed m = gaps 0 (numberOrder.filter (present m)) := by
  unfold optionsCalculateJumpNeed
  rcases optionsListPtr_cases m with ⟨hlist, hoptions⟩ | hlist <;> rw [hlist]
  · exact (gaps_onlyLow (by rw [hoptions]; simp [OnlyLow])).symm
  · dsimp only
    split_ifs with hlow
    · exact (gaps_onlyLow hlow).symm
    have hfold := foldl_jumpTo (present m) numberOrder (0, 0) (by decide)
    simp only [Nat.zero_add] at hfold
    rw [← hfold]
    simp only [numberOrder, foldl_cons, foldl_nil, jumpToProxyUri_eq]
    rw [jumpTo_low (o := .uriHost) (by decide), jumpTo_low (o := .etag) (by decide),
      jumpTo_low (o := .observe) (by decide), jumpTo_low (o := .uriPort) (by decide),
      jumpTo_low (o := .locationPath) (by decide), jumpTo_low (o := .uriPath) (by decide),
      jumpTo_low (o := .contentFormat) (by decide)]
    rfl

/-! ## The sum of the sizes -/

theorem foldlM_addNeed {l : List (Option Nat)} {count r : Nat} (hcount : count < 65536)
    (h : l.foldlM addNeed count = some r) : (∀ need ∈ l, need.isSome) ∧ r = u16 (count + (l.map (·.getD 0)).sum) := by
  induction l generalizing count with
  | nil =>
    have hr : count = r := by simpa using h
    subst hr
    simp [u16, Nat.mod_eq_of_lt hcount]
  | cons need l ih =>
    cases need with
    | none => simp [addNeed] at h
    | some k =>
      have hrest : l.foldlM addNeed (u16 (count + k)) = some r := by simpa [addNeed] using h
      obtain ⟨hall, hr⟩ := ih (Nat.mod_lt _ (by decide)) hrest
      refine ⟨?_, ?_⟩
      · intro need hneed
        rcases mem_cons.mp hneed with rfl | hneed
        · rfl
        · exact hall need hneed
      · simp only [hr, u16, map_cons, sum_cons, Option.getD_some]
        omega

/-- The order of the options in the size computation. -/
def sizeOrder : List OptionNumber :=
  [.uriPath, .contentFormat, .accept, .maxAge, .proxyUri, .etag, .uriHost, .locationPath, .uriPort,
    .locationQuery, .observe, .uriQuery, .block1, .size1, .block2, .size2]

def optionNeed (heap : Heap) (m : Hdr) : OptionNumber → Option Nat
  | .uriHost => uriHostNeed m.options
  | .etag => repeatableNeed heap .etag m.options.etagLen m.options.etagPtr
  | .observe => uintNeed (present m .observe) (some 0xffffff) (u32i m.options.observe)
  | .uriPort => uintNeed (present m .uriPort) (some 0xffff) (u32i m.options.uriPort)
  | .locationPath => repeatableNeed heap .locationPath m.options.locationPathLen m.options.locationPathPtr
  | .uriPath => repeatableNeed heap .uriPath m.uriPathLen m.uriPathPtr
  | .contentFormat => uintNeed (present m .contentFormat) (some 0xffff) (u32i m.contentFormat)
  | .maxAge => uintNeed (present m .maxAge) none m.options.maxAge
  | .uriQuery => repeatableNeed heap .uriQuery m.options.uriQueryLen m.options.uriQueryPtr
  | .accept => uintNeed (present m .accept) (some 0xffff) (u32i m.options.accept)
  | .locationQuery => repeatableNeed heap .locationQuery m.options.locationQueryLen m.options.locationQueryPtr
  | .block2 => uintNeed (present m .block2) (some 0xffffff) (u32i m.options.block2)
  | .block1 => uintNeed (present m .block1) (some 0xffffff) (u32i m.options.block1)
  | .size2 => uintNeed (present m .size2) none m.options.size2
  | .proxyUri => proxyUriNeed m.options
  | .size1 => uintNeed (present m .size1) none m.options.size1
  | .ifMatch | .ifNoneMatch | .proxyScheme => some 0

/-- A message without an options list needs what one with the default options needs. -/
theorem sum_needs (heap : Heap) (m : Hdr) :
    ((needs heap m).map (·.getD 0)).sum = (tokenNeed m).getD 0 + (numberOrder.map fun o => (optionNeed heap m o).getD 0).sum := by
  have hperm : (numberOrder.map fun o => (optionNeed heap m o).getD 0).sum =
      (sizeOrder.map fun o => (optionNeed heap m o).getD 0).sum :=
    ((by decide : numberOrder.Perm sizeOrder).map _).sum_nat
  rw [hperm]
  rcases optionsListPtr_cases m with ⟨hlist, hoptions⟩ | hlist
  · simp only [needs, hlist, sizeOrder, optionNeed, present, hoptions, append_nil, map_cons, map_nil, sum_cons, sum_nil]
    rfl
  · simp only [needs, hlist, optionsListNeeds, sizeOrder, optionNeed, present, cons_append,
      nil_append, map_cons, map_nil, sum_cons, sum_nil]

theorem needs_isSome (h : ∀ need ∈ needs heap m, need.isSome) : (tokenNeed m).isSome ∧ ∀ o, (optionNeed heap m o).isSome := by
  rcases optionsListPtr_cases m with ⟨hlist, hoptions⟩ | hlist
  · simp only [needs, hlist, append_nil, forall_mem_cons] at h
    obtain ⟨htoken, hpath, hformat, -⟩ := h
    refine ⟨htoken, fun o => ?_⟩
    cases o with
    | uriPath => exact hpath
    | contentFormat => exact hformat
    | _ =>
      simp only [optionNeed, present, hoptions]
      rfl
  · simp only [needs, hlist, optionsListNeeds, cons_append, nil_append, forall_mem_cons] at h
    refine ⟨h.1, fun o => ?_⟩
    cases o <;> simp only [optionNeed, present, h, Option.isSome_some]

theorem calcNeededPacketDataSize2_eq {limit : Nat} (hreset : m.msgType ≠ .reset) (hfits : m.payloadLen ≤ limit ∨ limit = 0)
    (hsize : 0 < calcNeededPacketDataSize2 heap m limit) :
    ((tokenNeed m).isSome ∧ ∀ o, (optionNeed heap m o).isSome) ∧
      calcNeededPacketDataSize2 heap m limit =
        u16 (4 + (tokenNeed m).getD 0 + (numberOrder.map fun o => (optionNeed heap m o).getD 0).sum +
          gaps 0 (numberOrder.filter (present m)) +
          (if m.payloadLen = 0 then 0 else 1 + m.payloadLen)) := by
  unfold calcNeededPacketDataSize2 at hsize ⊢
  rw [if_neg hreset] at hsize ⊢
  cases hsum : (needs heap m).foldlM addNeed 4 with
  | none => simp [hsum] at hsize
  | some count =>
    obtain ⟨hall, hcount⟩ := foldlM_addNeed (by decide) hsum
    have hwhole : ¬ (m.payloadLen > limit ∧ limit > 0) := by omega
    refine ⟨needs_isSome hall, ?_⟩
    simp only [hwhole, if_false, hcount, sum_needs, optionsCalculateJumpNeed_eq, u16]
    split_ifs <;> omega

/-! ## One option: needed and encoded -/

theorem uintPayloadLoop_length (k value : Nat) (payload : Bytes) :
    (uintPayloadLoop k value payload).length ≤ payload.length + k := by
  induction k generalizing value payload with
  | zero => exact Nat.le_refl _
  | succ k ih =>
    refine Nat.le_trans (ih _ _) ?_
    split
    · simp only [length_append, length_cons, length_nil]
      omega
    · omega

theorem uintPayload_length (value : Nat) : (uintPayload value).length ≤ 4 := uintPayloadLoop_length 4 value []

theorem weight_short (h : len ≤ 12) : weight len = 1 + len := by simp [weight, extension_length, h]

theorem uintNeed_eq {has : Bool} {limit : Option Nat} {value k : Nat}
    (h : uintNeed has limit value = some k) : k = weights (uintLengths has value) := by
  cases has with
  | false => simpa [uintNeed, uintLengths, weights, eq_comm] using h
  | true =>
    have hlen := uintPayload_length value
    have hk : uintOptionSize value = k := by
      unfold uintNeed at h
      rw [if_pos rfl] at h
      split_ifs at h
      exact Option.some.inj h
    rw [← hk]
    simp only [uintOptionSize, u8, uintLengths, if_true, weights, map_cons, map_nil,
      sum_cons, sum_nil, weight_short (Nat.le_trans hlen (by decide))]
    omega

theorem optionsGetOptionPartCount_lt (query : Bytes) (o : OptionNumber) :
    optionsGetOptionPartCount query o < 256 := Nat.mod_lt _ (by decide)

/-- A part with an allowed length needs its bytes in the packet format. -/
theorem partNeed_eq {query : Bytes} {i : Nat} (ho : multiValued o = true) (h : (partNeed query o i).isSome) :
    (partNeed query o i).getD 0 = weight (optionsGetOptionPartLengthFromWholeOptionString query i o) ∧
      (partNeed query o i).getD 0 ≤ 257 := by
  unfold partNeed at h ⊢
  generalize optionsGetOptionPartLengthFromWholeOptionString query i o = len at h ⊢
  simp only at h ⊢
  split_ifs at h with hallowed
  · have hlen : len ≤ 255 := by
      cases o with
      | etag | locationPath | uriPath | uriQuery | locationQuery =>
        simp only [partLengthAllowed, Bool.and_eq_true, decide_eq_true_eq] at hallowed
        omega
      | _ => cases ho
    rw [if_pos hallowed, Option.getD_some]
    unfold partHeaderSize weight
    rw [extension_length]
    split_ifs <;> omega
  · cases h

theorem optionsCalcOptionSize_eq {query : Bytes} (ho : multiValued o = true) (h : optionsCalcOptionSize query o ≠ 0) :
    optionsCalcOptionSize query o = weights (partLengths query o) ∧ partLengths query o ≠ [] := by
  unfold optionsCalcOptionSize at h ⊢
  cases hfold : ((List.range (optionsGetOptionPartCount query o)).map (partNeed query o)).foldlM
      addNeed 0 with
  | none => simp [hfold] at h
  | some r =>
    obtain ⟨hall, hr⟩ := foldlM_addNeed (by decide) hfold
    have hpart : ∀ i ∈ List.range (optionsGetOptionPartCount query o), (partNeed query o i).isSome :=
      fun i hi => hall _ (mem_map_of_mem hi)
    have hsum : (((List.range (optionsGetOptionPartCount query o)).map (partNeed query o)).map
        (·.getD 0)).sum = weights (partLengths query o) := by
      unfold weights partLengths
      rw [map_map, map_map]
      congr 1
      exact map_congr_left fun i hi => (partNeed_eq ho (hpart i hi)).1
    have hbound : weights (partLengths query o) < 65536 := by
      have hle := sum_le_card_nsmul (((List.range (optionsGetOptionPartCount query o)).map (partNeed query o)).map (·.getD 0)) 257
        (by
          intro k hk
          rw [map_map] at hk
          obtain ⟨i, hi, rfl⟩ := mem_map.mp hk
          exact (partNeed_eq ho (hpart i hi)).2)
      have hcount := optionsGetOptionPartCount_lt query o
      simp only [length_map, length_range, smul_eq_mul] at hle
      omega
    have hr' : r = weights (partLengths query o) := by rw [hr, hsum, u16, Nat.zero_add, Nat.mod_eq_of_lt hbound]
    refine ⟨hr', ?_⟩
    intro hnil
    rw [hnil] at hr'
    simp [hfold, hr', weights] at h

/-- The bytes that a pointer field points to are as many as its length field says. -/
def HasLength (ptr : Option Bytes) (len : Nat) : Prop := ∀ s, ptr = some s → s.length = len

theorem repeatableNeed_some (heap : Heap) (o : OptionNumber) (s : Bytes) :
    repeatableNeed heap o s.length (some s) =
      if optionsCalcOptionSize s o ≠ 0 then some (optionsCalcOptionSize s o) else none := by
  simp only [repeatableNeed, bytesAt_load]

theorem repeatableNeed_eq {len k : Nat} (ho : multiValued o = true) (hlen : HasLength ptr len)
    (h : repeatableNeed heap o len ptr = some k) :
    k = weights (stringLengths ptr o) ∧ (!(stringLengths ptr o).isEmpty) = ptr.isSome := by
  cases ptr with
  | none => simpa [repeatableNeed, stringLengths, weights, eq_comm] using h
  | some s =>
    have hs : s.length = len := hlen s rfl
    subst hs
    rw [repeatableNeed_some] at h
    split_ifs at h
    rename_i hsize
    obtain ⟨heq, hne⟩ := optionsCalcOptionSize_eq ho hsize
    refine ⟨?_, ?_⟩
    · exact (Option.some.inj h).symm.trans heq
    · simp [stringLengths, hne]

theorem uriHostNeed_eq {o : OptionsList} {k : Nat} (hlen : HasLength o.uriHostPtr o.uriHostLen)
    (h : uriHostNeed o = some k) : k = weights (o.uriHostPtr.map List.length).toList := by
  unfold uriHostNeed at h
  cases hptr : o.uriHostPtr with
  | none => simpa [hptr, weights, eq_comm] using h
  | some s =>
    simp only [hptr, Option.isSome_some, if_true] at h
    simp only [Option.map_some, Option.toList_some, weights, map_cons, map_nil,
      sum_cons, sum_nil, weight, extension_length, hlen s hptr]
    split_ifs at h ⊢ <;> first | omega | (cases h; omega)

/-- A Proxy-Uri of 269 bytes has a length extension of two bytes, of which one is counted. -/
def ProxyUriShort (o : OptionsList) : Prop := o.proxyUriPtr.isSome ∧ o.proxyUriLen = 269

instance (o : OptionsList) : Decidable (ProxyUriShort o) := inferInstanceAs (Decidable (_ ∧ _))

theorem proxyUriNeed_eq {o : OptionsList} {k : Nat} (hlen : HasLength o.proxyUriPtr o.proxyUriLen) (h : proxyUriNeed o = some k) :
    k + (if ProxyUriShort o then 1 else 0) = weights (o.proxyUriPtr.map List.length).toList := by
  unfold proxyUriNeed at h
  cases hptr : o.proxyUriPtr with
  | none =>
    have hshort : ¬ ProxyUriShort o := by simp [ProxyUriShort, hptr]
    simpa [hptr, weights, hshort, eq_comm] using h
  | some s =>
    have hshort : ProxyUriShort o ↔ o.proxyUriLen = 269 := by simp [ProxyUriShort, hptr]
    simp only [hptr, Option.isSome_some, if_true] at h
    simp only [Option.map_some, Option.toList_some, weights, map_cons, map_nil,
      sum_cons, sum_nil, weight, extension_length, hlen s hptr, hshort]
    split_ifs at h ⊢ <;> first | omega | (cases h; omega)

/-- Every string of the message has the length of its length field. -/
structure Strings (m : Hdr) : Prop where
  uriPath : HasLength m.uriPathPtr m.uriPathLen
  uriHost : HasLength m.options.uriHostPtr m.options.uriHostLen
  etag : HasLength m.options.etagPtr m.options.etagLen
  etagLen : m.options.etagLen < 256
  locationPath : HasLength m.options.locationPathPtr m.options.locationPathLen
  uriQuery : HasLength m.options.uriQueryPtr m.options.uriQueryLen
  locationQuery : HasLength m.options.locationQueryPtr m.options.locationQueryLen
  proxyUri : HasLength m.options.proxyUriPtr m.options.proxyUriLen

section Needed

variable {k : Nat}

theorem optionNeed_spec (hs : Strings m) (h : optionNeed heap m o = some k) :
    k + (if o = .proxyUri ∧ ProxyUriShort m.options then 1 else 0) = weights (valueLengths m o) ∧
      (!(valueLengths m o).isEmpty) = present m o := by
  cases o with
  | proxyUri =>
    simp only [true_and]
    refine ⟨proxyUriNeed_eq hs.proxyUri h, ?_⟩
    simp only [valueLengths, present]
    cases m.options.proxyUriPtr <;> rfl
  | uriHost =>
    refine ⟨uriHostNeed_eq hs.uriHost h, ?_⟩
    simp only [valueLengths, present]
    cases m.options.uriHostPtr <;> rfl
  | etag => exact repeatableNeed_eq rfl hs.etag h
  | locationPath => exact repeatableNeed_eq rfl hs.locationPath h
  | uriPath => exact repeatableNeed_eq rfl hs.uriPath h
  | uriQuery => exact repeatableNeed_eq rfl hs.uriQuery h
  | locationQuery => exact repeatableNeed_eq rfl hs.locationQuery h
  | observe | uriPort | contentFormat | maxAge | accept | block2 | block1 | size2 | size1 =>
    refine ⟨uintNeed_eq h, ?_⟩
    simp only [valueLengths, uintLengths]
    split <;> simp_all
  | ifMatch | ifNoneMatch | proxyScheme => exact ⟨(Option.some.inj h).symm, rfl⟩

/-- The needs of the options add up to their lengths in the format, but for Proxy-Uri. -/
theorem sum_optionNeed (hs : Strings m) (h : ∀ o, (optionNeed heap m o).isSome) :
    (numberOrder.map fun o => (optionNeed heap m o).getD 0).sum + (if ProxyUriShort m.options then 1 else 0) =
      (numberOrder.map fun o => weights (valueLengths m o)).sum := by
  have hone : ∀ o ∈ numberOrder, (optionNeed heap m o).getD 0 +
      (if o = .proxyUri ∧ ProxyUriShort m.options then 1 else 0) = weights (valueLengths m o) := by
    intro o _
    obtain ⟨k, hk⟩ := Option.isSome_iff_exists.mp (h o)
    simpa [hk] using (optionNeed_spec hs hk).1
  have hshort : (numberOrder.map fun o => if o = .proxyUri ∧ ProxyUriShort m.options then 1 else 0).sum
      = if ProxyUriShort m.options then 1 else 0 := by
    simp [numberOrder]
  rw [← map_congr_left hone, sum_map_add, hshort]

end Needed

/-! ## One option: written and encoded -/

/-- The ETag is there together with a size flag, which changes the length that the writer
reads. -/
def EtagFlagged (o : OptionsList) : Prop := o.etagPtr.isSome ∧ (o.useSize1 = true ∨ o.useSize2 = true)

theorem multipleValues_length (hlen : HasLength ptr len) :
    (multipleValues heap ptr len o).map List.length = stringLengths ptr o := by
  cases ptr with
  | none => rfl
  | some s =>
    have hs : s.length = len := hlen s rfl
    subst hs
    simp [multipleValues, stringLengths, partLengths, bytesAt_load, Function.comp_def]

theorem oneValue_length {r : Region} (hlen : HasLength ptr len) :
    (oneValue (ptr.map (load heap r)) len).map List.length = (ptr.map List.length).toList := by
  cases ptr with
  | none => rfl
  | some s => simp [oneValue, hlen s rfl]

theorem uintValue_length (has : Bool) (value : Nat) : (uintValue has value).map List.length = uintLengths has value := by
  cases has <;> rfl

theorem writtenValues_length (heap : Heap) (hs : Strings m) (ho : o = .etag → ¬ EtagFlagged m.options) :
    (writtenValues heap m o).map List.length = valueLengths m o := by
  cases o with
  | proxyUri => exact oneValue_length hs.proxyUri
  | uriHost => exact oneValue_length hs.uriHost
  | etag =>
    apply multipleValues_length
    intro s hptr
    have hflags := ho rfl
    simp only [EtagFlagged, hptr, Option.isSome_some, true_and, not_or, Bool.not_eq_true] at hflags
    simp [OptionsList.etagLen16, hflags, hs.etag s hptr]
  | locationPath => exact multipleValues_length hs.locationPath
  | uriPath => exact multipleValues_length hs.uriPath
  | uriQuery => exact multipleValues_length hs.uriQuery
  | locationQuery => exact multipleValues_length hs.locationQuery
  | observe | uriPort | contentFormat | maxAge | accept | block2 | block1 | size2 | size1 => exact uintValue_length _ _
  | ifMatch | ifNoneMatch | proxyScheme => rfl

/-! ## The ETag with a size flag -/

section

variable {char : UInt8} {queryIndex : Nat} {z : Bytes}

section

variable (hz : ∀ c ∈ z, c ≠ char)
include hz

theorem partLengthLoop_rest (partLen index : Nat) (hlen : partLen + z.length < 65536) :
    partLengthLoop char queryIndex z partLen index = partLen + z.length := by
  induction z generalizing partLen with
  | nil => rfl
  | cons c cs ih =>
    have hc := hz c (.head _)
    rw [length_cons] at hlen
    have hstep : u16 (partLen + 1) = partLen + 1 := Nat.mod_eq_of_lt (by omega)
    simp only [partLengthLoop, hc, false_and, if_false, ne_eq, not_false_eq_true, if_true, hstep]
    rw [ih (fun c' hc' => hz c' (.tail _ hc')) (partLen + 1) (by omega), length_cons]
    omega

/-- What comes behind a query is added to a part of it, to its last part as a whole. -/
theorem partLengthLoop_append (s : Bytes) (partLen index : Nat) (hlen : partLen + s.length + z.length < 65536) :
    ∃ more, partLengthLoop char queryIndex (s ++ z) partLen index = partLengthLoop char queryIndex s partLen index + more ∧
      (queryIndex < 256 → index + s.count char ≤ queryIndex → more = z.length) := by
  induction s generalizing partLen index with
  | nil => exact ⟨z.length, partLengthLoop_rest hz partLen index (by simpa using hlen), fun _ _ => rfl⟩
  | cons c cs ih =>
    rw [length_cons] at hlen
    have hstep : u16 (partLen + 1) = partLen + 1 := Nat.mod_eq_of_lt (by omega)
    simp only [cons_append, partLengthLoop, hstep]
    split_ifs with hend hindex hc
    · refine ⟨0, rfl, fun _ hcount => ?_⟩
      rw [hend.1, count_cons_self] at hcount
      omega
    · obtain ⟨more, heq, hall⟩ := ih 0 (u8 (index + 1)) (by omega)
      refine ⟨more, heq, fun hlt hcount => hall hlt ?_⟩
      rw [hend.1, count_cons_self] at hcount
      unfold u8
      omega
    · rw [count_cons_of_ne hc]
      exact ih (partLen + 1) index (by omega)
    · rw [not_not.mp hc, count_cons_self]
      obtain ⟨more, heq, hall⟩ := ih partLen index (by omega)
      exact ⟨more, heq, fun hlt hcount => hall hlt (by omega)⟩

theorem partLengthLoop_append_of_tail (s : Bytes) (hlen : s.length + z.length < 65536) (hindex : queryIndex < 256)
    (hcount : s.tail.count char ≤ queryIndex) :
    partLengthLoop char queryIndex (s ++ z) 0 0 = partLengthLoop char queryIndex s 0 0 + z.length := by
  cases s with
  | nil => exact partLengthLoop_rest hz 0 0 (by simpa using hlen)
  | cons c cs =>
    rw [length_cons] at hlen
    rw [tail_cons] at hcount
    simp only [cons_append, partLengthLoop, Nat.lt_irrefl, and_false, if_false]
    have hrest : ∀ partLen ≤ 1, partLengthLoop char queryIndex (cs ++ z) partLen 0 =
        partLengthLoop char queryIndex cs partLen 0 + z.length := by
      intro partLen hle
      obtain ⟨more, heq, hall⟩ := partLengthLoop_append hz cs partLen 0 (by omega)
      rw [heq, hall hindex (by omega)]
    split_ifs
    · exact hrest 1 (Nat.le_refl 1)
    · exact hrest 0 (Nat.zero_le 1)

end

end

theorem foldl_count (char : UInt8) (l : Bytes) (n : Nat) (hn : n < 256) :
    l.foldl (fun n c => if c = char then u8 (n + 1) else n) n = u8 (n + l.count char) := by
  induction l generalizing n with
  | nil => simp [u8, Nat.mod_eq_of_lt hn]
  | cons c cs ih =>
    rw [foldl_cons]
    by_cases hc : c = char
    · have hlt : u8 (n + 1) < 256 := Nat.mod_lt _ (by decide)
      rw [if_pos hc, ih _ hlt, hc, count_cons_self]
      simp only [u8]
      omega
    · rw [if_neg hc, ih n hn, count_cons_of_ne hc]

theorem optionsGetOptionPartCount_eq (query : Bytes) (o : OptionNumber) :
    optionsGetOptionPartCount query o = u8 (query.tail.dropLast.count (charToSearch o) + 1) := by
  unfold optionsGetOptionPartCount
  rw [foldl_count _ _ _ (by decide)]
  simp only [u8]
  omega

theorem weight_le {a b : Nat} (h : a ≤ b) : weight a ≤ weight b := by
  simp only [weight, extension_length]
  split_ifs <;> omega

theorem weight_lt {a b : Nat} (h : a < b) : weight a < weight b := by
  simp only [weight, extension_length]
  split_ifs <;> omega

/-- Bytes without a separator behind the string: every separator of the string but the
first byte starts a new part. -/
theorem optionsGetOptionPartCount_append {s z : Bytes} (hs : s.length < 256) (hz : ∀ c ∈ z, c ≠ charToSearch o) (hne : z ≠ []) :
    optionsGetOptionPartCount (s ++ z) o = s.tail.count (charToSearch o) + 1 := by
  have hzero : ∀ z' : Bytes, z'.Sublist z → z'.count (charToSearch o) = 0 := fun z' hsub =>
    count_eq_zero.mpr fun h => hz _ (hsub.subset h) rfl
  rw [optionsGetOptionPartCount_eq]
  cases s with
  | nil =>
    rw [nil_append, hzero _ ((dropLast_sublist _).trans (tail_sublist z))]
    rfl
  | cons c cs =>
    rw [cons_append, tail_cons, tail_cons, dropLast_append_of_ne_nil hne,
      count_append, hzero _ (dropLast_sublist z), Nat.add_zero]
    have hle := count_le_length (a := charToSearch o) (l := cs)
    rw [length_cons] at hs
    exact Nat.mod_eq_of_lt (by omega)

theorem partLengths_append_lt {s z : Bytes} (hs : s.length < 256)
    (hz : ∀ c ∈ z, c ≠ charToSearch o) (hne : z ≠ []) (hlen : s.length + z.length < 65536) :
    partLengths (s ++ z) o ≠ [] ∧ weights (partLengths s o) < weights (partLengths (s ++ z) o) := by
  have hcount := optionsGetOptionPartCount_append hs hz hne
  have hlt := optionsGetOptionPartCount_lt (s ++ z) o
  have hfewer : optionsGetOptionPartCount s o ≤ optionsGetOptionPartCount (s ++ z) o := by
    have := (dropLast_sublist s.tail).count_le (charToSearch o)
    rw [hcount, optionsGetOptionPartCount_eq, u8]
    omega
  refine ⟨by simp [partLengths, hcount], ?_⟩
  simp only [weights, partLengths, map_map, Function.comp_def]
  calc
    _ ≤ ((List.range (optionsGetOptionPartCount (s ++ z) o)).map fun i =>
        weight (optionsGetOptionPartLengthFromWholeOptionString s i o)).sum :=
      ((range_sublist.mpr hfewer).map _).sum_le_sum fun _ _ => Nat.zero_le _
    _ < _ := by
      apply sum_lt_sum
      · intro i _
        obtain ⟨more, heq, -⟩ := partLengthLoop_append hz s 0 0 (by omega)
        exact weight_le (Nat.le.intro heq.symm)
      refine ⟨s.tail.count (charToSearch o), by simp [hcount], ?_⟩
      apply weight_lt
      have hlast := partLengthLoop_append_of_tail hz s hlen (by omega) (Nat.le_refl _)
      have hpos := length_pos_of_ne_nil hne
      unfold optionsGetOptionPartLengthFromWholeOptionString
      omega

/-- Memory that is zero behind every string. -/
def zeroHeap : Heap := fun _ _ => 0

theorem bytesAt_load_zeroHeap (r : Region) (s : Bytes) (n : Nat) :
    bytesAt (load zeroHeap r s) 0 (s.length + n) = s ++ List.replicate n 0 := by
  apply ext_getElem
  · simp
  intro i hi hs
  by_cases hin : i < s.length
  · simp [bytesAt, load, hin, getElem_append_left]
  · simp [bytesAt, load, zeroHeap, Nat.le_of_not_lt hin, getElem_append_right]

theorem etag_written_more (hs : Strings m) (hflag : EtagFlagged m.options) :
    (writtenValues zeroHeap m .etag).map List.length ≠ [] ∧
      weights (valueLengths m .etag) <
        weights ((writtenValues zeroHeap m .etag).map List.length) := by
  obtain ⟨hsome, hflags⟩ := hflag
  obtain ⟨s, hptr⟩ := Option.isSome_iff_exists.mp hsome
  have hlen := hs.etag s hptr
  have hshort := hs.etagLen
  obtain ⟨n, hn, hpos, hsmall⟩ : ∃ n, m.options.etagLen16 = s.length + n ∧ 0 < n ∧ n < 1024 := by
    refine ⟨m.options.etagLen16 - s.length, ?_⟩
    rw [hlen]
    unfold OptionsList.etagLen16
    rcases hflags with h | h
    · simp only [h, if_true]
      split <;> omega
    · simp only [h, if_true]
      split <;> omega
  have hwritten : (writtenValues zeroHeap m .etag).map List.length = partLengths (s ++ List.replicate n 0) .etag := by
    simp only [writtenValues, multipleValues, hptr, hn, Option.elim_some, bytesAt_load_zeroHeap,
      partLengths, map_map, Function.comp_def, bytesAt_length]
  have hvalue : valueLengths m .etag = partLengths s .etag := by simp only [valueLengths, stringLengths, hptr, Option.elim_some]
  rw [hwritten, hvalue]
  apply partLengths_append_lt
  · omega
  · intro c hc
    rw [eq_of_mem_replicate hc]
    decide
  · simpa using Nat.ne_of_gt hpos
  · simp only [length_replicate]
    omega

/-! ## The packet -/

/-- What the size computation and the writer are given. -/
structure Buildable (m : Hdr) (limit : Nat) : Prop where
  strings : Strings m
  token : m.tokenPtr.isSome ↔ 1 ≤ m.tokenLen ∧ m.tokenLen ≤ 8
  payload : m.payloadPtr.isSome ↔ 0 < m.payloadLen
  fits : m.payloadLen ≤ limit ∨ limit = 0
  valid : headerValidityCheck m coapVersion1 = true

/-- The bytes that the writer passes over for a token that is not there. -/
def tokenSurplus (m : Hdr) : Nat := if m.tokenPtr.isNone && optionsUsed m then m.tokenLen else 0

theorem writtenToken_length (heap : Heap) (m : Hdr) :
    (writtenToken heap m).length = m.tokenPtr.elim 0 (fun _ => m.tokenLen) + tokenSurplus m := by
  unfold writtenToken tokenSurplus tokenBuild
  cases hptr : m.tokenPtr with
  | none => by_cases hused : optionsUsed m = true <;> simp [hused]
  | some s =>
    have hused : optionsUsed m = true := by simp [optionsUsed, hptr]
    simp [hused]

section Packet

variable {limit : Nat}

theorem writtenPayload_length (heap : Heap) (hm : Buildable m limit) :
    (writtenPayload heap m).length = if m.payloadLen = 0 then 0 else 1 + m.payloadLen := by
  have hpayload := hm.payload
  unfold writtenPayload payloadBuild
  cases hptr : m.payloadPtr with
  | none =>
    have hlen : m.payloadLen = 0 := by
      rw [hptr] at hpayload
      simpa using hpayload
    simp [hlen]
  | some s =>
    by_cases hlen : m.payloadLen = 0
    · simp [hlen]
    · simp [hlen, Nat.add_comm]

variable (hm : Buildable m limit) (hreset : m.msgType ≠ .reset)

include hm hreset

section

variable (hsize : 0 < calcNeededPacketDataSize2 heap m limit)
include hsize

/-- The size is the length in the format in 16 bits, but for Proxy-Uri. -/
theorem needed_encoded : ∃ n, n + (if ProxyUriShort m.options then 1 else 0) = encodedLength m ∧
    calcNeededPacketDataSize2 heap m limit = u16 n := by
  obtain ⟨⟨htoken, hall⟩, heq⟩ := calcNeededPacketDataSize2_eq hreset hm.fits hsize
  refine ⟨_, ?_, heq⟩
  have hsum := sum_optionNeed hm.strings hall
  have htokenNeed : (tokenNeed m).getD 0 = m.tokenPtr.elim 0 fun _ => m.tokenLen := by
    unfold tokenNeed at htoken ⊢
    cases hptr : m.tokenPtr with
    | none => rfl
    | some s =>
      simp only [hptr, Option.isSome_some, if_true] at htoken ⊢
      split_ifs at htoken ⊢
      · cases htoken
      · rfl
  unfold encodedLength
  omega

/-- The number of written bytes. -/
theorem written_length (hpresent : ∀ o ∈ numberOrder, (!(writtenValues heap m o).isEmpty) = present m o) :
    (snCoapBuilder2 heap m limit).map List.length =
      some (4 + m.tokenPtr.elim 0 (fun _ => m.tokenLen) + tokenSurplus m +
        (numberOrder.map fun o => weights ((writtenValues heap m o).map List.length)).sum +
        gaps 0 (numberOrder.filter (present m)) +
        (if m.payloadLen = 0 then 0 else 1 + m.payloadLen)) := by
  rw [snCoapBuilder2_eq heap m _ (Nat.ne_of_gt hsize) hm.valid hreset, Option.map_some]
  have hoptions := optionsBytes_flatMap_length (writtenValues heap m) 0 numberOrder
  rw [filter_congr hpresent] at hoptions
  have hheader : m.header.length = 4 := rfl
  simp only [length_append, writtenToken_length, writtenPayload_length heap hm, writtenOptions,
    hoptions, hheader, Option.some.injEq]
  omega

theorem written_encoded (hflag : ¬ EtagFlagged m.options) :
    (snCoapBuilder2 heap m limit).map List.length = some (encodedLength m + tokenSurplus m) := by
  obtain ⟨⟨-, hall⟩, -⟩ := calcNeededPacketDataSize2_eq hreset hm.fits hsize
  have hlengths : ∀ o, (writtenValues heap m o).map List.length = valueLengths m o :=
    fun o => writtenValues_length heap hm.strings fun _ => hflag
  rw [written_length hm hreset hsize]
  · simp only [hlengths, encodedLength, Option.some.injEq]
    omega
  intro o _
  obtain ⟨k, hk⟩ := Option.isSome_iff_exists.mp (hall o)
  rw [← (optionNeed_spec hm.strings hk).2, ← hlengths o, isEmpty_map]

end

/-- With a size flag, more bytes are written for the ETag than it has. -/
theorem written_more {n : Nat} (hsize : 0 < calcNeededPacketDataSize2 zeroHeap m limit)
    (hflag : EtagFlagged m.options) (hn : (snCoapBuilder2 zeroHeap m limit).map List.length = some n) :
    encodedLength m < n := by
  obtain ⟨⟨-, hall⟩, -⟩ := calcNeededPacketDataSize2_eq hreset hm.fits hsize
  obtain ⟨hne, hmore⟩ := etag_written_more hm.strings hflag
  have hlengths : ∀ o, o ≠ .etag → (writtenValues zeroHeap m o).map List.length = valueLengths m o :=
    fun o ho => writtenValues_length zeroHeap hm.strings fun h => absurd h ho
  rw [written_length hm hreset hsize] at hn
  · have hsum : (numberOrder.map fun o => weights (valueLengths m o)).sum <
        (numberOrder.map fun o => weights ((writtenValues zeroHeap m o).map List.length)).sum := by
      apply sum_lt_sum
      · intro o _
        by_cases ho : o = .etag
        · subst ho
          exact Nat.le_of_lt hmore
        · rw [hlengths o ho]
      · exact ⟨.etag, by decide, hmore⟩
    have hvalue := Option.some.inj hn
    unfold encodedLength
    omega
  · intro o _
    obtain ⟨k, hk⟩ := Option.isSome_iff_exists.mp (hall o)
    by_cases ho : o = .etag
    · subst ho
      have hsome : present m .etag = true := hflag.1
      rw [hsome, ← isEmpty_map (f := List.length), isEmpty_eq_false_iff.mpr hne]
      rfl
    · rw [← (optionNeed_spec hm.strings hk).2, ← hlengths o ho, isEmpty_map]

end Packet

/-- The messages for which size and writer agree. -/
structure Agrees (m : Hdr) : Prop where
  token : m.tokenPtr.isNone → m.tokenLen = 0 ∨ optionsUsed m = false
  proxyUri : ¬ ProxyUriShort m.options
  etag : ¬ EtagFlagged m.options
  fits : encodedLength m < 65536

theorem tokenSurplus_eq_zero : tokenSurplus m = 0 ↔ (m.tokenPtr.isNone → m.tokenLen = 0 ∨ optionsUsed m = false) := by
  unfold tokenSurplus
  by_cases htoken : m.tokenPtr.isNone = true <;> by_cases hused : optionsUsed m = true <;>
    simp [htoken, hused]

/-- The writer writes as many bytes as the size computation says, whatever the memory holds
behind the strings, exactly for Reset messages and for the messages of `Agrees`. -/
theorem writes_needed_iff {limit : Nat} (hm : Buildable m limit) (hsize : ∀ heap, 0 < calcNeededPacketDataSize2 heap m limit) :
    (∀ heap, (snCoapBuilder2 heap m limit).map List.length = some (calcNeededPacketDataSize2 heap m limit)) ↔
      m.msgType = .reset ∨ Agrees m := by
  by_cases hreset : m.msgType = .reset
  · simp only [hreset, true_or, iff_true]
    intro heap
    have hfour : calcNeededPacketDataSize2 heap m limit = 4 := by simp [calcNeededPacketDataSize2, hreset]
    simp [snCoapBuilder2, hfour, headerBuild, hm.valid, hreset, Hdr.header]
  simp only [hreset, false_or]
  constructor
  · intro hwrites
    obtain ⟨n, hn, hneeded⟩ := needed_encoded hm hreset (hsize zeroHeap)
    have hzero := hwrites zeroHeap
    have hle : u16 n ≤ n := Nat.mod_le _ _
    have hflag : ¬ EtagFlagged m.options := by
      intro hflag
      have := written_more hm hreset (hsize zeroHeap) hflag hzero
      omega
    -- Nothing that the writer adds can make up for what the size computation loses.
    rw [written_encoded hm hreset (hsize zeroHeap) hflag] at hzero
    have hlen := Option.some.inj hzero
    have hshort : ¬ ProxyUriShort m.options := by
      intro hshort
      rw [if_pos hshort] at hn
      omega
    have hlt : u16 n < 65536 := Nat.mod_lt _ (by decide)
    exact ⟨tokenSurplus_eq_zero.mp (by omega), hshort, hflag, by omega⟩
  · intro hagrees heap
    obtain ⟨n, hn, hneeded⟩ := needed_encoded hm hreset (hsize heap)
    rw [if_neg hagrees.proxyUri] at hn
    have hfits := hagrees.fits
    rw [written_encoded hm hreset (hsize heap) hagrees.etag, hneeded,
      tokenSurplus_eq_zero.mpr hagrees.token, u16, Nat.mod_eq_of_lt (by omega), ← hn]
    rfl

/-- A request for the path `a/b` with a token, an Accept option and a payload. -/
def pathRequest : Hdr where
  msgCode := codeRequestPut
  tokenPtr := some [1, 2]
  tokenLen := 2
  uriPathPtr := some [0x61, 0x2f, 0x62]
  uriPathLen := 3
  payloadPtr := some [7]
  payloadLen := 1
  optionsListPtr := some { accept := 40 }

theorem pathRequest_buildable : Buildable pathRequest 1024 := by
  refine ⟨⟨?_, ?_, ?_, ?_, ?_, ?_, ?_, ?_⟩, ?_, ?_, ?_, ?_⟩ <;>
    simp [HasLength, pathRequest, Hdr.options, headerValidityCheck, codeRequestPut, coapVersion1, msgCodes]

theorem pathRequest_needed (heap : Heap) : calcNeededPacketDataSize2 heap pathRequest 1024 = 14 := by
  have hpath : repeatableNeed heap .uriPath 3 (some [0x61, 0x2f, 0x62]) = some 4 :=
    (repeatableNeed_some heap .uriPath [0x61, 0x2f, 0x62]).trans (by decide)
  simp only [calcNeededPacketDataSize2, needs, pathRequest, hpath]
  rfl

theorem writes_needed_pathRequest :
    Buildable pathRequest 1024 ∧
      ∀ heap, (snCoapBuilder2 heap pathRequest 1024).map List.length =
        some (calcNeededPacketDataSize2 heap pathRequest 1024) := by
  have hsize : ∀ heap, 0 < calcNeededPacketDataSize2 heap pathRequest 1024 := by
    intro heap
    rw [pathRequest_needed heap]
    decide
  have hagrees : Agrees pathRequest := by
    refine ⟨?_, ?_, ?_, by decide⟩
    · intro h
      cases h
    · intro h
      cases h.1
    · intro h
      cases h.1
  exact ⟨pathRequest_buildable, (writes_needed_iff pathRequest_buildable hsize).mpr (.inr hagrees)⟩

def proxyRequest : Hdr where
  msgCode := codeRequestGet
  optionsListPtr := some { proxyUriPtr := some (List.replicate 269 0x61), proxyUriLen := 269 }

theorem proxyRequest_buildable : Buildable proxyRequest 1024 := by
  refine ⟨⟨?_, ?_, ?_, ?_, ?_, ?_, ?_, ?_⟩, ?_, ?_, ?_, ?_⟩ <;>
    simp [HasLength, proxyRequest, Hdr.options, headerValidityCheck, codeRequestGet, coapVersion1,
      msgCodes, -List.reduceReplicate]

/-- The packet has 277 bytes, of which 276 are counted. -/
theorem not_writes_needed_proxyRequest :
    Buildable proxyRequest 1024 ∧ (∀ heap, calcNeededPacketDataSize2 heap proxyRequest 1024 = 276) ∧
      ∀ heap, (snCoapBuilder2 heap proxyRequest 1024).map List.length = some 277 := by
  have hneeded : ∀ heap, calcNeededPacketDataSize2 heap proxyRequest 1024 = 276 := fun _ => rfl
  have hencoded : encodedLength proxyRequest + tokenSurplus proxyRequest = 277 := by decide +kernel
  refine ⟨proxyRequest_buildable, hneeded, fun heap => ?_⟩
  have hsize : 0 < calcNeededPacketDataSize2 heap proxyRequest 1024 := by
    rw [hneeded heap]
    decide
  have hflag : ¬ EtagFlagged proxyRequest.options := by
    intro h
    cases h.1
  rw [written_encoded proxyRequest_buildable (by decide) hsize hflag, hencoded]

end MbedCloud.Coap

