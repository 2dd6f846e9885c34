import Mathlib.Algebra.Order.BigOperators.Group.List
import MbedCloud.Coap.BuilderFormat
import MbedCloud.Coap.BlockSlice

/-!
# The reassembly of requests

The blocks of a request are stored in one list for all endpoints. When the last block of an
endpoint arrives, `gather` copies the first stored payload of the endpoint as long as there is
one, and each time removes the first entry of the list, of whichever endpoint it is. If no
entry of another endpoint is ahead of one of the endpoint (`OwnFirst`), this collects the
payloads of the endpoint and leaves the others; otherwise payloads are copied twice, which is
more than was allocated, and payloads of others are lost.
-/

namespace MbedCloud.Coap

open List

/-! ## The walk over the list -/

/-- No entry of another endpoint is ahead of an entry of `src`. -/
def OwnFirst (src : Address) (l : List BlockwisePayload) : Prop :=
  l.Pairwise fun p q => src.same q.address = true → src.same p.address = true

instance (src : Address) (l : List BlockwisePayload) : Decidable (OwnFirst src l) := inferInstanceAs (Decidable (l.Pairwise _))

/-- The entries that the functions of the list take as those of `src`. -/
def own (src : Address) (l : List BlockwisePayload) : List BlockwisePayload := l.filter fun p => src.same p.address

def totalLen (l : List BlockwisePayload) : Nat := (l.map (·.payload.length)).sum

theorem Address.same_self (src : Address) : src.same src = true := by simp [Address.same]

section Gather

variable {src : Address} {p : BlockwisePayload} {l : List BlockwisePayload}

theorem own_cons_of_same (hp : src.same p.address = true) : own src (p :: l) = p :: own src l := filter_cons_of_pos hp

theorem own_cons_of_not_same (hp : ¬ src.same p.address = true) : own src (p :: l) = own src l := filter_cons_of_neg hp

theorem totalLen_cons : totalLen (p :: l) = p.payload.length + totalLen l := by simp [totalLen]

theorem search_eq_none_iff : blockwisePayloadSearch l src = none ↔ own src l = [] := by simp [blockwisePayloadSearch, own]

theorem search_cons_of_same (hp : src.same p.address = true) : blockwisePayloadSearch (p :: l) src = some p.payload := by
  simp [blockwisePayloadSearch, hp]

theorem search_mem {payload : Bytes} (h : blockwisePayloadSearch l src = some payload) :
    ∃ q ∈ own src l, q.payload = payload := by
  obtain ⟨q, hq, hpayload⟩ := Option.map_eq_some_iff.mp h
  have hsame := find?_some hq
  exact ⟨q, mem_filter.mpr ⟨mem_of_find?_eq_some hq, hsame⟩, hpayload⟩

theorem gather_of_own_nil (h : own src l = []) : gather src l = ([], l) := by
  cases l with
  | nil => rfl
  | cons p l => simp only [gather, search_eq_none_iff.mpr h]

theorem gather_cons_of_search {payload : Bytes} (h : blockwisePayloadSearch (p :: l) src = some payload) :
    gather src (p :: l) = (payload ++ (gather src l).1, (gather src l).2) := by
  simp only [gather, h]

/-- The payloads of the endpoint are collected if its entries are ahead of all others. -/
theorem gather_of_ownFirst (h : OwnFirst src l) :
    gather src l = ((own src l).flatMap (·.payload), l.filter fun p => !src.same p.address) := by
  induction l with
  | nil => rfl
  | cons p l ih =>
    obtain ⟨hhead, htail⟩ := pairwise_cons.mp h
    by_cases hp : src.same p.address = true
    · rw [gather_cons_of_search (search_cons_of_same hp), ih htail, own_cons_of_same hp,
        flatMap_cons, filter_cons_of_neg (by simp [hp])]
    have hnone : own src (p :: l) = [] := by
      rw [own_cons_of_not_same hp]
      exact filter_eq_nil_iff.mpr fun q hq hsame => hp (hhead q hq hsame)
    have hothers : ((p :: l).filter fun q => !src.same q.address) = p :: l := by
      rw [filter_eq_self]
      intro q hq
      simpa using filter_eq_nil_iff.mp hnone q hq
    rw [gather_of_own_nil hnone, hnone, hothers]
    rfl

theorem gather_rest : (gather src l).2 <:+ l ∧ own src (gather src l).2 = [] := by
  induction l with
  | nil => exact ⟨suffix_refl _, rfl⟩
  | cons p l ih =>
    cases hsearch : blockwisePayloadSearch (p :: l) src with
    | none =>
      have hnone := search_eq_none_iff.mp hsearch
      rw [gather_of_own_nil hnone]
      exact ⟨suffix_refl _, hnone⟩
    | some payload =>
      rw [gather_cons_of_search hsearch]
      exact ⟨ih.1.trans (suffix_cons p l), ih.2⟩

theorem length_flatMap_payload : (l.flatMap (·.payload)).length = totalLen l := by rw [length_flatMap, totalLen]

/-- A payload is copied twice if an entry of another endpoint is ahead of it. -/
theorem totalLen_gather (hne : ∀ q ∈ l, q.payload ≠ []) : totalLen (own src l) ≤ (gather src l).1.length ∧
    (¬ OwnFirst src l → totalLen (own src l) < (gather src l).1.length) := by
  induction l with
  | nil => exact ⟨Nat.zero_le _, fun h => absurd .nil h⟩
  | cons p l ih =>
    obtain ⟨hle, hlt⟩ := ih fun q hq => hne q (mem_cons_of_mem p hq)
    by_cases hp : src.same p.address = true
    · rw [gather_cons_of_search (search_cons_of_same hp), own_cons_of_same hp, totalLen_cons, length_append]
      refine ⟨by omega, fun h => ?_⟩
      have := hlt fun htail => h (pairwise_cons.mpr ⟨fun _ _ _ => hp, htail⟩)
      omega
    cases hsearch : blockwisePayloadSearch (p :: l) src with
    | none =>
      -- without an entry of the endpoint no entry can be ahead of it
      have hnone := search_eq_none_iff.mp hsearch
      rw [hnone]
      refine ⟨Nat.zero_le _, fun h => absurd (pairwise_of_forall_mem_list fun q _ r hr hsame => ?_) h⟩
      exact absurd hsame (filter_eq_nil_iff.mp hnone r hr)
    | some payload =>
      obtain ⟨q, hq, rfl⟩ := search_mem hsearch
      have hpos := length_pos_iff.mpr (hne q (mem_of_mem_filter hq))
      rw [own_cons_of_not_same hp, gather_cons_of_search hsearch, length_append]
      exact ⟨by omega, fun _ => by omega⟩

theorem blockwisePayloadsGetLen_eq : blockwisePayloadsGetLen l src = u32 (totalLen (own src l)) := by
  have hfold : ∀ len, len < 4294967296 →
      l.foldl (fun len p => if src.same p.address then u32 (len + p.payload.length) else len) len =
        u32 (len + totalLen (own src l)) := by
    induction l with
    | nil =>
      intro len hlen
      exact (Nat.mod_eq_of_lt hlen).symm
    | cons p l ih =>
      intro len hlen
      rw [foldl_cons]
      by_cases hp : src.same p.address = true
      · have hlt : u32 (len + p.payload.length) < 4294967296 := Nat.mod_lt _ (by decide)
        rw [if_pos hp, ih _ hlt, own_cons_of_same hp, totalLen_cons]
        unfold u32
        omega
      · rw [if_neg hp, ih _ hlen, own_cons_of_not_same hp]
  have h := hfold 0 (by decide)
  rwa [Nat.zero_add] at h

theorem gather_of_same (hsame : ∀ p ∈ l, src.same p.address = true) :
    gather src l = (l.flatMap (·.payload), []) ∧ blockwisePayloadsGetLen l src = u32 (l.flatMap (·.payload)).length := by
  have hown : own src l = l := filter_eq_self.mpr hsame
  have hfirst : OwnFirst src l := pairwise_of_forall_mem_list fun p hp _ _ _ => hsame p hp
  have hothers : (l.filter fun p => !src.same p.address) = [] := filter_eq_nil_iff.mpr (by simpa using hsame)
  rw [gather_of_ownFirst hfirst, blockwisePayloadsGetLen_eq, hown, hothers, length_flatMap_payload]
  exact ⟨rfl, rfl⟩

end Gather

/-! ## One block -/

structure IsBlock1Request (m : Hdr) : Prop where
  block1 : m.options.block1 ≠ blockNone
  code : m.msgCode ≤ codeRequestDelete

/-- The entry that a block adds to the list: none if the block is empty or an allocation
fails. -/
def arriving (env : Env) (h : Handle) (src : Address) (m : Hdr) : List BlockwisePayload :=
  let len := min m.payloadLen h.blockDataSize
  if len ≠ 0 ∧ m.payloadPtr.isSome ∧ env.alloc .payloadStruct ∧ env.alloc .payloadData ∧ env.alloc .payloadAddr then
    [⟨h.systemTime, src, blockNumberOf m.options.block1.toNat, bytesAt (load env.heap .payload (m.payloadPtr.getD [])) 0 len⟩]
  else []

section Block

variable {env : Env} {h h' : Handle} {src : Address} {m : Hdr}

theorem arriving_spec {p : BlockwisePayload} (hp : p ∈ arriving env h src m) : p.address = src ∧ p.payload ≠ [] := by
  unfold arriving at hp
  dsimp only at hp
  split_ifs at hp with hstored
  · cases mem_singleton.mp hp
    refine ⟨rfl, fun hnil => hstored.1 ?_⟩
    have hlen := congrArg List.length hnil
    rwa [bytesAt_length, length_nil] at hlen
  · cases hp

theorem same_append_arriving (hsame : ∀ p ∈ h.receivedPayloads, src.same p.address = true) :
    ∀ p ∈ h.receivedPayloads ++ arriving env h src m, src.same p.address = true := by
  intro p hp
  rcases mem_append.mp hp with hp | hp
  · exact hsame p hp
  · rw [(arriving_spec hp).1, src.same_self]

theorem blockwisePayloadStore_received :
    blockwisePayloadStore env h src (min m.payloadLen h.blockDataSize) m.payloadPtr (blockNumberOf m.options.block1.toNat) =
      { h with receivedPayloads := h.receivedPayloads ++ arriving env h src m } := by
  unfold blockwisePayloadStore arriving
  cases m.payloadPtr with
  | none => simp
  | some s =>
    simp only [Option.isSome_some, true_and, Option.getD_some]
    split_ifs
    · rfl
    · simp

theorem handle_block1Request (hreq : IsBlock1Request m) :
    handleBlockwiseMessage env h src m = .ok (receiveBlock1 env h src m) := by
  unfold handleBlockwiseMessage
  rw [if_pos hreq.block1, if_neg (Nat.not_lt.mpr hreq.code)]

/-- `receiveBlock1` with the length of the payload bounded by the block size and the block
stored. -/
theorem receiveBlock1_eq : receiveBlock1 env h src m =
      let cut := { m with payloadLen := min m.payloadLen h.blockDataSize }
      let stored := { h with receivedPayloads := h.receivedPayloads ++ arriving env h src m }
      if moreOf m.options.block1.toNat then
        receiveMore env stored src cut (decide (blockNumberOf m.options.block1.toNat = 0) ||
          blockwisePayloadCompareBlockNumber h.receivedPayloads src (blockNumberOf m.options.block1.toNat))
      else receiveLast env stored src cut := by
  have hcut : (if m.payloadLen > h.blockDataSize then { m with payloadLen := h.blockDataSize }
      else m) = { m with payloadLen := min m.payloadLen h.blockDataSize } := by
    split_ifs with hlong
    · rw [Nat.min_eq_right (Nat.le_of_lt hlong)]
    · rw [Nat.min_eq_left (Nat.not_lt.mp hlong)]
  unfold receiveBlock1
  rw [hcut, ← blockwisePayloadStore_received]
  rfl

theorem receiveMore_status {blocksInOrder : Bool} {delivered : Hdr}
    (hr : (receiveMore env h src m blocksInOrder).1 = some delivered) :
    delivered.coapStatus = .parserBlockwiseMsgReceiving := by
  unfold receiveMore at hr
  split_ifs at hr <;> cases hr
  all_goals rfl

/-- A block that is too large removes the oldest entry when its acknowledgement is made. -/
theorem receiveMore_received (blocksInOrder : Bool) :
    (receiveMore env h src m blocksInOrder).2.receivedPayloads =
      if env.alloc .ackMessage && env.alloc .ackOptions && blockTooLarge h m then h.receivedPayloads.tail
      else h.receivedPayloads := by
  unfold receiveMore
  cases env.alloc .ackMessage && env.alloc .ackOptions with
  | false => rfl
  | true => cases blockTooLarge h m <;> cases env.alloc .ackPacket <;> rfl

theorem receiveLast_eq : receiveLast env h src m =
      if !env.alloc .wholePayload ||
          decide (blockwisePayloadsGetLen h.receivedPayloads src > 65535) then (none, h)
      else
        (some { m with
          payloadPtr := some (gather src h.receivedPayloads).1
          payloadLen := blockwisePayloadsGetLen h.receivedPayloads src
          coapStatus := .parserBlockwiseMsgReceived },
        { h with receivedPayloads := (gather src h.receivedPayloads).2 }) := rfl

/-- The entries after a block are entries from before it or the block itself. -/
theorem receiveBlock1_sublist : List.Sublist (receiveBlock1 env h src m).2.receivedPayloads
      (h.receivedPayloads ++ arriving env h src m) := by
  rw [receiveBlock1_eq]
  split_ifs
  · rw [receiveMore_received]
    split_ifs
    · exact tail_sublist _
    · exact .refl _
  · rw [receiveLast_eq]
    split_ifs
    · exact .refl _
    · exact gather_rest.1.sublist

/-- The message that is reported when the last block has arrived. -/
theorem handle_received (hreq : IsBlock1Request m) {delivered : Hdr}
    (hhandle : handleBlockwiseMessage env h src m = .ok (some delivered, h'))
    (hstatus : delivered.coapStatus = .parserBlockwiseMsgReceived) :
    moreOf m.options.block1.toNat = false ∧
      delivered.payloadPtr = some (gather src (h.receivedPayloads ++ arriving env h src m)).1 ∧
      delivered.payloadLen = blockwisePayloadsGetLen (h.receivedPayloads ++ arriving env h src m) src ∧
      h'.receivedPayloads = (gather src (h.receivedPayloads ++ arriving env h src m)).2 := by
  rw [handle_block1Request hreq, receiveBlock1_eq] at hhandle
  have hpair := Except.ok.inj hhandle
  split_ifs at hpair with hmore
  · rw [receiveMore_status (congrArg Prod.fst hpair)] at hstatus
    cases hstatus
  rw [receiveLast_eq] at hpair
  split_ifs at hpair
  · cases hpair
  · cases hpair
    exact ⟨Bool.eq_false_iff.mpr hmore, rfl, rfl, rfl⟩

end Block

/-! ## Runs -/

/-- The handles that are reached from an empty list by requests with blocks, from any
endpoints. -/
inductive Reassembles : Handle → Prop
  | start {h : Handle} : h.receivedPayloads = [] → Reassembles h
  | block {env : Env} {h h' : Handle} {src : Address} {m : Hdr} {r : Option Hdr} :
    Reassembles h → IsBlock1Request m → handleBlockwiseMessage env h src m = .ok (r, h') → Reassembles h'

theorem Reassembles.receive {h : Handle} (hrun : Reassembles h) (env : Env) (src : Address) {m : Hdr}
    (hreq : IsBlock1Request m) : Reassembles (receiveBlock1 env h src m).2 :=
  hrun.block (r := (receiveBlock1 env h src m).1) hreq (handle_block1Request hreq)

theorem Reassembles.payload_ne_nil {h : Handle} (hrun : Reassembles h) : ∀ p ∈ h.receivedPayloads, p.payload ≠ [] := by
  induction hrun with
  | start hempty =>
    intro p hp
    rw [hempty] at hp
    cases hp
  | block _ hreq hhandle ih =>
    intro p hp
    rw [handle_block1Request hreq] at hhandle
    have hsnd := congrArg Prod.snd (Except.ok.inj hhandle)
    dsimp only at hsnd
    rw [← hsnd] at hp
    rcases mem_append.mp (receiveBlock1_sublist.subset hp) with hp | hp
    · exact ih p hp
    · exact (arriving_spec hp).2

/-- What a delivery owes to the endpoints: the payload is made of payloads stored for the
endpoint, it fits into what was allocated for it, and the payloads of the others stay. -/
structure DeliversOwn (env : Env) (h : Handle) (src : Address) (m delivered : Hdr) (h' : Handle) :
    Prop where
  payload : ∃ entries : List BlockwisePayload,
    (∀ p ∈ entries, p ∈ h.receivedPayloads ++ arriving env h src m ∧ p.address = src) ∧
      delivered.payloadPtr = some (entries.flatMap (·.payload))
  fits : (delivered.payloadPtr.getD []).length ≤ delivered.payloadLen
  others : (h'.receivedPayloads.filter fun p => decide (p.address ≠ src)) =
    h.receivedPayloads.filter fun p => decide (p.address ≠ src)

/-- The entries that match an endpoint are its own. -/
def Apart (src : Address) (l : List BlockwisePayload) : Prop := ∀ p ∈ l, src.same p.address = true → p.address = src

instance (src : Address) (l : List BlockwisePayload) : Decidable (Apart src l) := inferInstanceAs (Decidable (∀ p ∈ l, _))

theorem Apart.filter_others {src : Address} {l : List BlockwisePayload} (hapart : Apart src l) :
    ((l.filter fun p => !src.same p.address).filter fun p => decide (p.address ≠ src)) =
      l.filter fun p => decide (p.address ≠ src) := by
  rw [filter_filter]
  apply filter_congr
  intro p hp
  by_cases hsrc : p.address = src
  · simp [hsrc]
  have hsame : src.same p.address = false := Bool.eq_false_iff.mpr fun hsame => hsrc (hapart p hp hsame)
  simp [hsrc, hsame]

/-- In every run, a delivery is as it should be exactly if the entries that match the endpoint
are its own, they are ahead of those of all others, and their lengths do not wrap around. -/
theorem delivers_own_iff {env : Env} {h h' : Handle} {src : Address} {m delivered : Hdr}
    (hrun : Reassembles h) (hreq : IsBlock1Request m)
    (hhandle : handleBlockwiseMessage env h src m = .ok (some delivered, h'))
    (hstatus : delivered.coapStatus = .parserBlockwiseMsgReceived) :
    DeliversOwn env h src m delivered h' ↔
      Apart src h.receivedPayloads ∧ OwnFirst src (h.receivedPayloads ++ arriving env h src m) ∧
        totalLen (own src (h.receivedPayloads ++ arriving env h src m)) < 4294967296 := by
  obtain ⟨-, hptr, hlen, hrest⟩ := handle_received hreq hhandle hstatus
  rw [blockwisePayloadsGetLen_eq] at hlen
  have hothers : ((h.receivedPayloads ++ arriving env h src m).filter
      fun p => decide (p.address ≠ src)) = h.receivedPayloads.filter fun p => decide (p.address ≠ src) := by
    have hnew : ((arriving env h src m).filter fun p => decide (p.address ≠ src)) = [] := by
      rw [filter_eq_nil_iff]
      intro p hp
      simp [(arriving_spec hp).1]
    rw [filter_append, hnew, append_nil]
  have hne : ∀ p ∈ h.receivedPayloads ++ arriving env h src m, p.payload ≠ [] := by
    intro p hp
    rcases mem_append.mp hp with hp | hp
    · exact hrun.payload_ne_nil p hp
    · exact (arriving_spec hp).2
  have hapart_append (hapart : Apart src h.receivedPayloads) : Apart src (h.receivedPayloads ++ arriving env h src m) := by
    intro p hp hsame
    rcases mem_append.mp hp with hp | hp
    · exact hapart p hp hsame
    · exact (arriving_spec hp).1
  generalize hl : h.receivedPayloads ++ arriving env h src m = l at *
  constructor
  · rintro ⟨-, hfits, hkept⟩
    rw [hptr, hlen, Option.getD_some] at hfits
    have hmod : u32 (totalLen (own src l)) ≤ totalLen (own src l) := Nat.mod_le _ _
    have hfirst : OwnFirst src l := by
      by_contra hnot
      have hlt := (totalLen_gather hne).2 hnot
      omega
    refine ⟨fun p hp hsame => ?_, hfirst, ?_⟩
    · -- what matches the endpoint is not left in the list
      by_contra hsrc
      have hleft : p ∈ (gather src l).2 := by
        rw [← hrest]
        apply mem_of_mem_filter
        rw [hkept]
        exact mem_filter.mpr ⟨hp, decide_eq_true hsrc⟩
      exact filter_eq_nil_iff.mp gather_rest.2 p hleft hsame
    · rw [gather_of_ownFirst hfirst, length_flatMap_payload] at hfits
      have hwrap : u32 (totalLen (own src l)) < 4294967296 := Nat.mod_lt _ (by decide)
      omega
  · rintro ⟨hapart, hfirst, hsmall⟩
    rw [gather_of_ownFirst hfirst] at hptr hrest
    refine ⟨⟨own src l, fun p hp => ?_, hptr⟩, ?_, ?_⟩
    · obtain ⟨hmem, hsame⟩ := mem_filter.mp hp
      exact ⟨hl ▸ hmem, hapart_append hapart p hmem hsame⟩
    · rw [hptr, hlen, Option.getD_some, length_flatMap_payload]
      exact Nat.le_of_eq (Nat.mod_eq_of_lt hsmall).symm
    · rw [hrest, (hapart_append hapart).filter_others, hothers]

/-! ## Concrete runs -/

def block1Request (num : Nat) (more : Bool) (bytes : Bytes) : Hdr where
  msgCode := codeRequestPut
  payloadPtr := some bytes
  payloadLen := bytes.length
  optionsListPtr := some { block1 := (blockOption num more 0 : Nat) }

theorem isBlock1Request (num : Nat) (more : Bool) (bytes : Bytes) : IsBlock1Request (block1Request num more bytes) := by
  refine ⟨?_, (by decide : codeRequestPut ≤ codeRequestDelete)⟩
  change ((blockOption num more 0 : Nat) : Int) ≠ blockNone
  unfold blockNone
  omega

def endpointA : Address := ⟨[10, 0, 0, 1], 5683⟩

def endpointB : Address := ⟨[10, 0, 0, 2], 5683⟩

/-- The handle after the first block of two endpoints. -/
def twoTransfers (first second : Address) : Handle :=
  let h : Handle := { blockDataSize := 16 }
  let h := (receiveBlock1 calm h first (block1Request 0 true [1])).2
  (receiveBlock1 calm h second (block1Request 0 true [2])).2

theorem twoTransfers_reassembles (first second : Address) : Reassembles (twoTransfers first second) := by
  have hempty : Reassembles { blockDataSize := 16 } := .start rfl
  exact (hempty.receive calm first (isBlock1Request 0 true [1])).receive calm second (isBlock1Request 0 true [2])

theorem exists_received (h : Handle) (src : Address) (num : Nat) (bytes : Bytes)
    (hreceived : ((receiveBlock1 calm h src (block1Request num false bytes)).1.any fun delivered =>
      decide (delivered.coapStatus = .parserBlockwiseMsgReceived)) = true) :
    ∃ delivered h', handleBlockwiseMessage calm h src (block1Request num false bytes) =
      .ok (some delivered, h') ∧ delivered.coapStatus = .parserBlockwiseMsgReceived := by
  rw [handle_block1Request (isBlock1Request num false bytes)]
  generalize receiveBlock1 calm h src (block1Request num false bytes) = result at hreceived
  obtain ⟨r, h'⟩ := result
  cases r with
  | none => cases hreceived
  | some delivered => exact ⟨delivered, h', rfl, of_decide_eq_true hreceived⟩

/-- The transfer that started first ends with an empty block. -/
theorem delivers_own_first : ∃ delivered h',
    handleBlockwiseMessage calm (twoTransfers endpointA endpointB) endpointA
      (block1Request 1 false []) = .ok (some delivered, h') ∧
    DeliversOwn calm (twoTransfers endpointA endpointB) endpointA (block1Request 1 false [])
      delivered h' := by
  obtain ⟨delivered, h', hhandle, hstatus⟩ := exists_received (twoTransfers endpointA endpointB) endpointA 1 [] (by decide)
  refine ⟨delivered, h', hhandle, ?_⟩
  exact (delivers_own_iff (twoTransfers_reassembles _ _) (isBlock1Request 1 false []) hhandle
    hstatus).mpr (by decide)

/-- The transfer that started second ends: its first block is copied twice. -/
theorem not_delivers_own_second : ∃ delivered h', Reassembles (twoTransfers endpointB endpointA) ∧
    handleBlockwiseMessage calm (twoTransfers endpointB endpointA) endpointA
      (block1Request 1 false [3]) = .ok (some delivered, h') ∧
    delivered.coapStatus = .parserBlockwiseMsgReceived ∧
    ¬ DeliversOwn calm (twoTransfers endpointB endpointA) endpointA (block1Request 1 false [3])
      delivered h' := by
  obtain ⟨delivered, h', hhandle, hstatus⟩ := exists_received (twoTransfers endpointB endpointA) endpointA 1 [3] (by decide)
  refine ⟨delivered, h', twoTransfers_reassembles _ _, hhandle, hstatus, ?_⟩
  obtain ⟨-, hptr, hlen, -⟩ := handle_received (isBlock1Request 1 false [3]) hhandle hstatus
  rintro ⟨-, hfits, -⟩
  rw [hptr, hlen] at hfits
  revert hfits
  decide

end MbedCloud.Coap

