import MbedCloud.Coap.Reassembly

/-!
# The transfer of one request

The blocks of one endpoint, in runs in which the blocks may belong to several transfers. A block
is stored whatever its number is: the comparison with the stored numbers only chooses the code
of the acknowledgement, and the last block is not compared at all.
-/

namespace MbedCloud.Coap

open List

/-- A message that carries block `j` of a transfer with these blocks. -/
structure Carries (blocks : Nat → Bytes) (j : Nat) (m : Hdr) : Prop where
  request : IsBlock1Request m
  number : blockNumberOf m.options.block1.toNat = j
  /-- A block option has at most three bytes. -/
  option : m.options.block1.toNat < 16777216
  payloadPtr : m.payloadPtr = some (blocks j)
  payloadLen : m.payloadLen = (blocks j).length

/-- Block `j` of transfer `t` comes right after the block before it, `last`; the first block
finds an empty list. The block is stored whole, and it is not refused as too large. -/
structure InOrder (env : Env) (h : Handle) (last : Option (Nat × Nat)) (t j : Nat) (m : Hdr) :
    Prop where
  first : j = 0 → h.receivedPayloads = []
  follows : j ≠ 0 → last = some (t, j - 1)
  whole : m.payloadLen ≤ h.blockDataSize
  stored : m.payloadLen ≠ 0 → env.alloc .payloadStruct = true ∧ env.alloc .payloadData = true ∧ env.alloc .payloadAddr = true
  notTooLarge : moreOf m.options.block1.toNat = true → blockTooLarge h m = false

/-- The block that the next one has to follow. -/
def lastBlock (t j : Nat) (m : Hdr) : Option (Nat × Nat) := if moreOf m.options.block1.toNat then some (t, j) else none

/-- The runs of the endpoint `src` in which all blocks are in order: `blocks t` are the blocks
of transfer `t`, and the index is the block received last. -/
inductive InOrderRun (blocks : Nat → Nat → Bytes) (src : Address) :
    Option (Nat × Nat) → Handle → Prop
  | start {h : Handle} : h.receivedPayloads = [] → h.blockDataSize ≤ 1024 → InOrderRun blocks src none h
  | block {last : Option (Nat × Nat)} {env : Env} {h h' : Handle} {t j : Nat} {m : Hdr}
    {r : Option Hdr} :
    InOrderRun blocks src last h → Carries (blocks t) j m → InOrder env h last t j m →
      handleBlockwiseMessage env h src m = .ok (r, h') →
      InOrderRun blocks src (lastBlock t j m) h'

/-- The blocks `0`, ..., `j` of a transfer. -/
def upTo (blocks : Nat → Bytes) (j : Nat) : Bytes := (List.range (j + 1)).flatMap blocks

theorem upTo_succ (blocks : Nat → Bytes) (j : Nat) : upTo blocks (j + 1) = upTo blocks j ++ blocks (j + 1) := by
  rw [upTo, range_succ, flatMap_append, flatMap_singleton]
  rfl

section Step

variable {env : Env} {h h' : Handle} {src : Address} {m : Hdr} {r : Option Hdr}
  {blocks : Nat → Nat → Bytes} {last : Option (Nat × Nat)} {t j : Nat}

theorem flatMap_arriving (hcarries : Carries (blocks t) j m) (horder : InOrder env h last t j m) :
    (arriving env h src m).flatMap (·.payload) = blocks t j := by
  have hmin : min m.payloadLen h.blockDataSize = (blocks t j).length := by rw [Nat.min_eq_left horder.whole, hcarries.payloadLen]
  unfold arriving
  rw [hmin, hcarries.payloadPtr]
  by_cases hnil : (blocks t j).length = 0
  · rw [if_neg (fun hstored => hstored.1 hnil), flatMap_nil, eq_nil_of_length_eq_zero hnil]
  have halloc := horder.stored (by rwa [hcarries.payloadLen])
  rw [if_pos ⟨hnil, rfl, halloc⟩, flatMap_singleton]
  exact bytesAt_load env.heap .payload (blocks t j)

theorem receiveBlock1_blockDataSize : (receiveBlock1 env h src m).2.blockDataSize = h.blockDataSize := by
  rw [receiveBlock1_eq]
  split_ifs
  · unfold receiveMore
    dsimp only
    split_ifs <;> rfl
  · rw [receiveLast_eq]
    split_ifs <;> rfl

theorem receiveBlock1_more (hmore : moreOf m.options.block1.toNat = true) (hsmall : blockTooLarge h m = false) :
    (receiveBlock1 env h src m).2.receivedPayloads = h.receivedPayloads ++ arriving env h src m := by
  rw [receiveBlock1_eq]
  rw [if_pos hmore, receiveMore_received]
  have hsmall' : blockTooLarge { h with receivedPayloads := h.receivedPayloads ++ arriving env h src m }
      { m with payloadLen := min m.payloadLen h.blockDataSize } = false := hsmall
  rw [hsmall', Bool.and_false, if_neg Bool.false_ne_true]

/-- What is stored in a run in which all blocks are in order. -/
structure Stored (blocks : Nat → Nat → Bytes) (src : Address) (last : Option (Nat × Nat))
    (h : Handle) : Prop where
  address : ∀ p ∈ h.receivedPayloads, p.address = src
  blockDataSize : h.blockDataSize ≤ 1024
  payload : ∀ t j, last = some (t, j) → h.receivedPayloads.flatMap (·.payload) = upTo (blocks t) j
  length : ∀ t j, last = some (t, j) → (upTo (blocks t) j).length ≤ 1024 * (j + 1)

/-- With the arriving block, the blocks up to it are in the list. -/
theorem Stored.upTo_arriving (hstored : Stored blocks src last h) (hcarries : Carries (blocks t) j m)
    (horder : InOrder env h last t j m) :
    (h.receivedPayloads ++ arriving env h src m).flatMap (·.payload) = upTo (blocks t) j ∧
      (upTo (blocks t) j).length ≤ 1024 * (j + 1) := by
  have hblock : (blocks t j).length ≤ 1024 := hcarries.payloadLen ▸ Nat.le_trans horder.whole hstored.blockDataSize
  rw [flatMap_append, flatMap_arriving hcarries horder]
  cases j with
  | zero =>
    have hfirst : upTo (blocks t) 0 = blocks t 0 := flatMap_singleton _ _
    rw [horder.first rfl, flatMap_nil, nil_append, hfirst]
    exact ⟨rfl, hblock⟩
  | succ j =>
    have hlast := horder.follows (Nat.succ_ne_zero j)
    have hlen := hstored.length t j hlast
    rw [hstored.payload t j hlast, upTo_succ, length_append]
    exact ⟨rfl, by omega⟩

theorem Stored.step (hstored : Stored blocks src last h) (hcarries : Carries (blocks t) j m)
    (horder : InOrder env h last t j m) (hhandle : handleBlockwiseMessage env h src m = .ok (r, h')) :
    Stored blocks src (lastBlock t j m) h' := by
  obtain ⟨hupTo, hlen⟩ := hstored.upTo_arriving hcarries horder
  rw [handle_block1Request hcarries.request] at hhandle
  have hsnd : (receiveBlock1 env h src m).2 = h' := congrArg Prod.snd (Except.ok.inj hhandle)
  subst hsnd
  refine ⟨fun p hp => ?_, ?_, fun t' j' hlast => ?_, fun t' j' hlast => ?_⟩
  · rcases mem_append.mp (receiveBlock1_sublist.subset hp) with hp | hp
    · exact hstored.address p hp
    · exact (arriving_spec hp).1
  · rw [receiveBlock1_blockDataSize]
    exact hstored.blockDataSize
  · unfold lastBlock at hlast
    split_ifs at hlast with hmore
    cases hlast
    rw [receiveBlock1_more hmore (horder.notTooLarge hmore), hupTo]
  · unfold lastBlock at hlast
    split_ifs at hlast
    cases hlast
    exact hlen

theorem InOrderRun.stored (hrun : InOrderRun blocks src last h) : Stored blocks src last h := by
  induction hrun with
  | start hempty hsize =>
    refine ⟨fun p hp => ?_, hsize, fun _ _ hlast => ?_, fun _ _ hlast => ?_⟩
    · rw [hempty] at hp
      cases hp
    · cases hlast
    · cases hlast
  | block _ hcarries horder hhandle ih => exact ih.step hcarries horder hhandle

end Step

/-- In a run in which all blocks are in order, what is delivered with block `k` of a transfer are
the blocks from `0` to `k` of that transfer. -/
theorem delivers_transfer {blocks : Nat → Nat → List UInt8} {src : Address}
    {last : Option (Nat × Nat)} {env : Env} {h h' : Handle} {t k : Nat} {m delivered : Hdr}
    (hrun : InOrderRun blocks src last h) (hcarries : Carries (blocks t) k m)
    (horder : InOrder env h last t k m)
    (hhandle : handleBlockwiseMessage env h src m = .ok (some delivered, h'))
    (hstatus : delivered.coapStatus = .parserBlockwiseMsgReceived) :
    delivered.payloadPtr = some (upTo (blocks t) k) ∧ delivered.payloadLen = (upTo (blocks t) k).length := by
  obtain ⟨-, hptr, hlen, -⟩ := handle_received hcarries.request hhandle hstatus
  obtain ⟨hupTo, hshort⟩ := hrun.stored.upTo_arriving hcarries horder
  have hsame : ∀ p ∈ h.receivedPayloads, src.same p.address = true := by
    intro p hp
    rw [hrun.stored.address p hp, src.same_self]
  obtain ⟨hgather, hgetLen⟩ := gather_of_same (same_append_arriving hsame)
  have hk : k < 1048576 := by
    have hoption := hcarries.option
    rw [← hcarries.number, blockNumberOf]
    omega
  rw [hgather, hupTo] at hptr
  rw [hgetLen, hupTo] at hlen
  exact ⟨hptr, hlen.trans (Nat.mod_eq_of_lt (by omega))⟩

/-! ## Concrete transfers -/

/-- Transfers of one byte in each block, the number of the block. -/
def numbered (_ j : Nat) : Bytes := [UInt8.ofNat j]

theorem carries_numbered (t : Nat) {j : Nat} (hj : j < 1048575) (more : Bool) :
    Carries (numbered t) j (block1Request j more (numbered t j)) where
  request := isBlock1Request j more (numbered t j)
  number := blockNumberOf_option more (by decide)
  option := by
    change blockOption j more 0 < 16777216
    unfold blockOption
    cases more <;> simp <;> omega
  payloadPtr := rfl
  payloadLen := rfl

def receivingHandle : Handle where
  blockDataSize := 16

def firstReceived : Option Hdr × Handle := receiveBlock1 calm receivingHandle endpointA (block1Request 0 true (numbered 0 0))

theorem inOrderRun_firstReceived : InOrderRun numbered endpointA (some (0, 0)) firstReceived.2 := by
  have hfirst : InOrder calm receivingHandle none 0 0 (block1Request 0 true (numbered 0 0)) :=
    ⟨fun _ => rfl, fun hne => absurd rfl hne, by decide, fun _ => ⟨rfl, rfl, rfl⟩, fun _ => rfl⟩
  exact .block (r := firstReceived.1) (.start rfl (by decide)) (carries_numbered 0 (by decide) true)
    hfirst (handle_block1Request (isBlock1Request 0 true (numbered 0 0)))

/-- The first and the last of two blocks. -/
theorem delivers_transfer_two : ∃ delivered h',
    handleBlockwiseMessage calm firstReceived.2 endpointA (block1Request 1 false (numbered 0 1)) = .ok (some delivered, h') ∧
    delivered.payloadPtr = some [0, 1] ∧ delivered.payloadLen = 2 := by
  obtain ⟨delivered, h', hhandle, hstatus⟩ := exists_received firstReceived.2 endpointA 1 (numbered 0 1) (by decide)
  have hsecond : InOrder calm firstReceived.2 (some (0, 0)) 0 1 (block1Request 1 false (numbered 0 1)) :=
    ⟨fun hzero => absurd hzero (by decide), fun _ => rfl, by decide,
      fun _ => ⟨rfl, rfl, rfl⟩, fun hmore => absurd hmore (by decide)⟩
  refine ⟨delivered, h', hhandle, ?_⟩
  exact delivers_transfer inOrderRun_firstReceived (carries_numbered 0 (by decide) false) hsecond
    hhandle hstatus

/-- The last block alone: it is delivered as the whole payload. -/
theorem not_delivers_transfer_lost : ∃ delivered h', Carries (numbered 0) 5 (block1Request 5 false (numbered 0 5)) ∧
    handleBlockwiseMessage calm receivingHandle endpointA (block1Request 5 false (numbered 0 5)) = .ok (some delivered, h') ∧
    delivered.coapStatus = .parserBlockwiseMsgReceived ∧
    delivered.payloadPtr ≠ some (upTo (numbered 0) 5) := by
  obtain ⟨delivered, h', hhandle, hstatus⟩ := exists_received receivingHandle endpointA 5 (numbered 0 5) (by decide)
  refine ⟨delivered, h', carries_numbered 0 (by decide) false, hhandle, hstatus, ?_⟩
  obtain ⟨-, hptr, -, -⟩ := handle_received (isBlock1Request 5 false (numbered 0 5)) hhandle hstatus
  rw [hptr]
  decide

end MbedCloud.Coap

