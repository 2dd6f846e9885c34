import MbedCloud.Nsdl.OtherEndpoints

/-!
# Blocks for external memory

The blocks of a Block1 transfer go to a resource with `external_memory_block` one by one, and only the last one of them is
stored. The CoAP library stores every block until the last one comes, and the resource layer takes the block before out of its
list; from the payload that the last block completes, it cuts the block before off.

This works for a transfer of two blocks or more whose last block is not empty (`Transfer.Regular`), as long as no other endpoint
has a block in the way (`Transfer.Undisturbed`) or completes a transfer (`Harmless`).
-/

namespace MbedCloud.Nsdl

open Lib Coap List

/-! ## Transfers -/

/-- A Block1 transfer: all blocks but the last one have the size of the option. -/
structure Transfer where
  src : Address
  szx : Nat
  /-- The number of the last block. -/
  last : Nat
  block : Nat → Bytes
  szx_lt : szx < 8
  last_lt : last < 2 ^ 20
  length_block : ∀ i, i < last → (block i).length = 2 ^ (szx + 4)
  length_last : (block last).length ≤ 2 ^ (szx + 4)

namespace Transfer

def option (t : Transfer) (i : Nat) : Nat := blockOption i (decide (i < t.last)) t.szx

structure Carries (t : Transfer) (i : Nat) (m : Hdr) : Prop where
  status : m.coapStatus = .ok
  code : m.msgCode ∈ [codeRequestGet, codeRequestPost, codeRequestPut, codeRequestDelete]
  type : m.msgType = .confirmable ∨ m.msgType = .nonConfirmable
  options : m.optionsListPtr.isSome = true
  block1 : m.options.block1 = (t.option i : Nat)
  noProxy : m.options.proxyUriLen = 0
  payload : m.payloadPtr.getD [] = t.block i
  payloadLen : m.payloadLen = (t.block i).length

/-- The request is new, and a resource takes its blocks: it is found by its path, and it has a callback for the request. -/
structure Accepted (t : Transfer) (env : Env) (s : Handle) (m : Hdr) (address : Nat) : Prop where
  alloc : ∀ site, env.alloc site = true
  coapAlloc : ∀ site, env.coap.alloc site = true
  blockSize : 2 ^ (t.szx + 4) ≤ s.coap.blockDataSize
  pathLen : m.uriPathLen < 65535
  new : s.coap.duplicationBufferSize ≠ 0 → duplicationInfoSearch s.coap t.src m.msgId = none ∧
    (s.coap.countDuplicationMsgs < s.coap.duplicationBufferSize ∨ s.coap.duplicationMsgs ≠ [])
  noBootstrap : s.omaBs ≠ t.src
  path : (m.uriPathPtr.getD []).take m.uriPathLen ≠ wellKnownPath
  found : ∀ site, ∃ r, searchResource (env.below site) (uriPath m) s.resources = some r ∧ r.address = address
  external : (s.params address).externalMemoryBlock = true
  dynamic : (s.params address).dynamic = true
  access : refused (s.params address) m.msgCode = false
  callback : (s.params address).callback = true

/-- A transfer of a single block has the smallest block size, and there is memory for the last block. -/
structure Regular (t : Transfer) : Prop where
  single : t.last = 0 → t.szx = 0
  last_ne : t.block t.last ≠ []

/-- What other endpoints have stored when a block arrives: the block before is not mistaken for one of theirs, and there is
nothing of theirs when the last block arrives. -/
def Undisturbed (t : Transfer) (i : Nat) (h : Coap.Handle) : Prop :=
  ∀ p ∈ h.receivedPayloads, t.src.same p.address = false → i < t.last ∧ (i ≠ 0 → p.blockNumber ≠ i - 1)

structure Arrives (t : Transfer) (address : Nat) (fuel : Nat) (env : Env) (s : Handle) (i : Nat) (packet : Bytes)
    (tail : Nat → Option UInt8) : Prop where
  parsed : ∃ m, Parser.snCoapParser fuel (packetMem packet tail) packet.length = .ok (some (m, coapVersion1)) ∧
    t.Carries i m ∧ t.Accepted env s m address
  undisturbed : t.Undisturbed i s.coap

/-- The runs in which blocks of the transfer are received in order, and packets of other endpoints in between: the number of
blocks, the calls made for them, and the handle. -/
inductive Received (t : Transfer) (address : Nat) : Nat → List Output → Handle → Prop
  | start {s : Handle} : own t.src s.coap.receivedPayloads = [] → Received t address 0 [] s
  | block {i : Nat} {calls outputs : List Output} {fuel : Nat} {env : Env} {s s' : Handle} {packet : Bytes}
    {tail : Nat → Option UInt8} {ret : Int} :
    Received t address i calls s → i ≤ t.last → t.Arrives address fuel env s i packet tail →
      processCoap fuel env s t.src packet tail = .ok (ret, outputs, s') → Received t address (i + 1) (calls ++ outputs) s'
  | other {i : Nat} {calls outputs : List Output} {fuel : Nat} {env : Env} {s s' : Handle} {other : Address} {packet : Bytes}
    {tail : Nat → Option UInt8} {ret : Int} :
    Received t address i calls s → Distinct t.src other →
      (∀ m version, Parser.snCoapParser fuel (packetMem packet tail) packet.length = .ok (some (m, version)) →
        Harmless s.coap m) →
      processCoap fuel env s other packet tail = .ok (ret, outputs, s') → Received t address i calls s'
  | send {i : Nat} {calls outputs : List Output} {env : Env} {s s' : Handle} {dst : Address} {m : Hdr} :
    Received t address i calls s → sendCoapMessage env s dst m = .ok (outputs, s') → Received t address i calls s'

/-- A call that hands a block to the resource. -/
def Hands (t : Transfer) (address i : Nat) (call : Output) : Prop :=
  ∃ m, call = .resource address m ∧ m.payloadPtr.getD [] = t.block i ∧ m.payloadLen = (t.block i).length

def stored (t : Transfer) (h : Coap.Handle) : List (Nat × Bytes) :=
  (own t.src h.receivedPayloads).map fun p => (p.blockNumber, p.payload)

/-- The current block, until the last one has been received. -/
def kept (t : Transfer) : Nat → List (Nat × Bytes)
  | 0 => []
  | i + 1 => if i < t.last then [(i, t.block i)] else []

/-! ## Options and payloads -/

section

variable {t : Transfer} {address i : Nat} {env : Env} {s : Handle} {m : Hdr} {h h' : Coap.Handle}

theorem length_block_le (t : Transfer) (hi : i ≤ t.last) : (t.block i).length ≤ 2 ^ (t.szx + 4) := by
  rcases Nat.lt_or_eq_of_le hi with hlt | heq
  · exact Nat.le_of_eq (t.length_block i hlt)
  · exact heq ▸ t.length_last

theorem Regular.block_ne_nil (hregular : t.Regular) (hi : i ≤ t.last) : t.block i ≠ [] := by
  rcases Nat.lt_or_eq_of_le hi with hlt | rfl
  · apply ne_nil_of_length_pos
    rw [t.length_block i hlt]
    exact Nat.two_pow_pos _
  · exact hregular.last_ne

section

variable (hcarries : t.Carries i m)
include hcarries

theorem Carries.block1_toNat : m.options.block1.toNat = t.option i := by rw [hcarries.block1, Int.toNat_natCast]

theorem Carries.blockNumber : blockNumberOf m.options.block1.toNat = i := by
  rw [hcarries.block1_toNat]
  exact blockNumberOf_option _ t.szx_lt

theorem Carries.more : moreOf m.options.block1.toNat = decide (i < t.last) := by
  rw [hcarries.block1_toNat]
  exact moreOf_option _ t.szx_lt

theorem Carries.blockSize : blockSizeOf m.options.block1.toNat = 2 ^ (t.szx + 4) := by
  rw [hcarries.block1_toNat]
  exact blockSizeOf_option _ t.szx_lt

theorem Carries.block1_ne_none : m.options.block1 ≠ blockNone := by
  rw [hcarries.block1]
  unfold blockNone
  omega

/-- The option is 0 for a single block of the smallest size only. -/
theorem Carries.block1_eq_zero (hregular : t.Regular) (hi : i ≤ t.last) : m.options.block1 = 0 ↔ t.last = 0 := by
  have hsingle := hregular.single
  rw [hcarries.block1]
  unfold option blockOption
  rcases Nat.lt_or_ge i t.last with hlt | hge
  · simp [hlt]
    omega
  · simp [Nat.not_lt.mpr hge]
    omega

theorem Carries.code_spec : (m.msgCode ≤ codeRequestDelete ∧ m.msgCode ≠ codeEmpty ∧ m.msgCode ≠ codeResponseContent) ∧
    headerValidityCheck m coapVersion1 = true := by
  have hcode := hcarries.code
  simp only [mem_cons, not_mem_nil, or_false] at hcode
  unfold headerValidityCheck
  rcases hcode with hcode | hcode | hcode | hcode <;> rw [hcode] <;> decide

theorem Carries.isBlock1Request : IsBlock1Request m := ⟨hcarries.block1_ne_none, hcarries.code_spec.1.1⟩

theorem Carries.type_ne : ¬ (m.msgType = .acknowledgement ∨ m.msgType = .reset) := by
  rcases hcarries.type with htype | htype <;> rw [htype] <;> decide

end

/-! ## The CoAP library -/

theorem Accepted.detectDuplicate (haccepted : t.Accepted env s m address) :
    ∃ h, Coap.detectDuplicate env.coap s.coap t.src m = .ok (false, h) ∧
      h.receivedPayloads = s.coap.receivedPayloads ∧ h.blockDataSize = s.coap.blockDataSize := by
  have hok : ∃ h, Coap.detectDuplicate env.coap s.coap t.src m = .ok (false, h) := by
    unfold Coap.detectDuplicate
    split_ifs with hdetect
    · obtain ⟨hsearch, hroom⟩ := haccepted.new hdetect.2
      rw [hsearch]
      unfold duplicationInfoMakeRoom
      split_ifs with hfull
      · cases hmsgs : s.coap.duplicationMsgs with
        | nil => exact absurd hmsgs (hroom.resolve_left (Nat.not_lt.mpr hfull))
        | cons d ds => exact ⟨_, rfl⟩
      · exact ⟨_, rfl⟩
    · exact ⟨_, rfl⟩
  obtain ⟨h, hok⟩ := hok
  obtain ⟨_, _, _, -, rfl⟩ := detectDuplicate_frame hok
  exact ⟨_, hok, rfl, rfl⟩

/-- The parser gives the block to the block-wise part of the library. -/
theorem Carries.parseMsg (hcarries : t.Carries i m) {h1 h2 : Coap.Handle} {m2 : Hdr}
    (hdetect : Coap.detectDuplicate env.coap s.coap t.src m = .ok (false, h1))
    (hreceive : receiveBlock1 env.coap h1 t.src m = (some m2, h2)) (htype : m2.msgType = m.msgType) :
    Coap.parseMsg env.coap s.coap t.src m coapVersion1 = .ok (some m2, h2) := by
  have hstop : stopResending h2 t.src m2 = h2 := by
    unfold stopResending
    rw [htype, if_neg fun hack => hcarries.type_ne hack.1]
  have hstatus : m.coapStatus ≠ .parserErrorInHeader := by
    rw [hcarries.status]
    decide
  have hblocks : parseBlocks env.coap h1 t.src m = .ok (some m2, h2) := by
    unfold parseBlocks
    rw [if_pos ⟨hcarries.options, .inl hcarries.block1_ne_none⟩, handle_block1Request hcarries.isBlock1Request, hreceive]
  unfold Coap.parseMsg
  rw [if_neg hstatus, if_neg (by simp [hcarries.code_spec.2]), if_neg fun hping => hcarries.code_spec.1.2.1 hping.2, hdetect]
  dsimp only [bind, Except.bind]
  rw [if_neg Bool.false_ne_true, hblocks]
  dsimp only
  rw [hstop]
  rfl

theorem Carries.cut (hcarries : t.Carries i m) (hi : i ≤ t.last) (hsize : 2 ^ (t.szx + 4) ≤ h.blockDataSize) :
    min m.payloadLen h.blockDataSize = (t.block i).length := by
  rw [hcarries.payloadLen]
  exact Nat.min_eq_left (Nat.le_trans (t.length_block_le hi) hsize)

theorem Carries.arriving (hcarries : t.Carries i m) (hi : i ≤ t.last) (halloc : ∀ site, env.coap.alloc site = true)
    (hsize : 2 ^ (t.szx + 4) ≤ h.blockDataSize) (hregular : t.Regular) :
    Coap.arriving env.coap h t.src m = [⟨h.systemTime, t.src, i, t.block i⟩] := by
  have hne := hregular.block_ne_nil hi
  unfold Coap.arriving
  rw [hcarries.cut hi hsize, hcarries.blockNumber, hcarries.payload, halloc, halloc, halloc]
  have hsome : m.payloadPtr.isSome = true := by
    cases hptr : m.payloadPtr with
    | none => exact absurd (hptr ▸ hcarries.payload).symm hne
    | some bytes => rfl
  rw [if_pos ⟨by simpa using hne, hsome, rfl, rfl, rfl⟩]
  congr
  exact bytesAt_load env.coap.heap .payload (t.block i)

/-- The message with the payload and the status that it is passed on with. -/
abbrev withPayload (m : Hdr) (ptr : Option Bytes) (len : Nat) (status : Status) : Hdr :=
  { m with payloadPtr := ptr, payloadLen := len, coapStatus := status }

abbrev completed (m : Hdr) (payload : Bytes) : Hdr := withPayload m (some payload) payload.length .parserBlockwiseMsgReceived

/-- A block that is not the last one is stored, and it is handed on as it is. -/
theorem Carries.receive_more (hcarries : t.Carries i m) (hi : i < t.last) (halloc : ∀ site, env.coap.alloc site = true)
    (hsize : 2 ^ (t.szx + 4) ≤ h.blockDataSize) (hregular : t.Regular) :
    ∃ h', receiveBlock1 env.coap h t.src m = (some { m with coapStatus := .parserBlockwiseMsgReceiving }, h') ∧
      h'.receivedPayloads = h.receivedPayloads ++ [⟨h.systemTime, t.src, i, t.block i⟩] := by
  have hsmall : ∀ received, blockTooLarge { h with receivedPayloads := received } m = false := by
    intro received
    unfold blockTooLarge
    rw [hcarries.blockSize, decide_eq_false (Nat.not_lt.mpr hsize), Bool.and_false]
  rw [receiveBlock1_eq]
  rw [hcarries.cut (Nat.le_of_lt hi) hsize, ← hcarries.payloadLen, if_pos (hcarries.more.trans (decide_eq_true hi)),
    hcarries.arriving (Nat.le_of_lt hi) halloc hsize hregular]
  unfold receiveMore
  rw [halloc, halloc, halloc, Bool.true_and, if_pos rfl, if_pos rfl, hsmall, if_neg Bool.false_ne_true]
  exact ⟨_, rfl, rfl⟩

/-- The last block, when there is nothing of another endpoint: the stored blocks become the payload. -/
theorem Carries.receive_last (hcarries : t.Carries t.last m) (halloc : ∀ site, env.coap.alloc site = true)
    (hsize : 2 ^ (t.szx + 4) ≤ h.blockDataSize) (hregular : t.Regular)
    (hown : own t.src h.receivedPayloads = h.receivedPayloads)
    {before : Bytes} (hbefore : h.receivedPayloads.flatMap (·.payload) = before)
    (hlen : before.length ≤ 2 ^ (t.szx + 4)) :
    ∃ h', receiveBlock1 env.coap h t.src m = (some (completed m (before ++ t.block t.last)), h') ∧ h'.receivedPayloads = [] := by
  obtain ⟨hgather, hgetLen⟩ := gather_of_same (same_append_arriving (filter_eq_self.mp hown))
  have hwhole : (h.receivedPayloads ++ Coap.arriving env.coap h t.src m).flatMap (·.payload) = before ++ t.block t.last := by
    rw [flatMap_append, hbefore, hcarries.arriving (Nat.le_refl _) halloc hsize hregular, flatMap_singleton]
  have hshort : (before ++ t.block t.last).length ≤ 65535 := by
    have hlast := t.length_last
    have hsize' := blockSize_le t.szx_lt
    rw [length_append]
    omega
  rw [hwhole] at hgather hgetLen
  have hlast : u32 (before ++ t.block t.last).length = (before ++ t.block t.last).length :=
    Nat.mod_eq_of_lt (Nat.lt_of_le_of_lt hshort (by decide))
  have hmore : ¬ moreOf m.options.block1.toNat = true := by
    rw [hcarries.more, decide_eq_true_iff]
    exact Nat.lt_irrefl _
  rw [receiveBlock1_eq]
  rw [if_neg hmore, receiveLast_eq]
  rw [hgetLen, hlast, halloc, decide_eq_false (Nat.not_lt.mpr hshort), if_neg (by decide), hgather]
  exact ⟨_, rfl, rfl⟩

end

/-! ## The resource layer -/

section

variable {t : Transfer} {address i fuel : Nat} {env : Env} {s s' : Handle} {m : Hdr} {h : Coap.Handle}

/-- `sn_coap_protocol_block_remove` removes the first of the endpoint's payloads with these bytes. -/
theorem own_blockRemove (h : Coap.Handle) (src : Address) (payload : Bytes) :
    own src (blockRemove h src payload).receivedPayloads =
      (own src h.receivedPayloads).eraseP fun p => decide (p.payload = payload) := by
  unfold own
  rw [eraseP_filter]
  simp only [Bool.and_comm (decide _)]
  rfl

theorem stored_removePreviousBlockData (hpos : 0 < i) (hi : i < t.last)
    (hstored : t.stored h = [(i - 1, t.block (i - 1)), (i, t.block i)])
    (hothers : ∀ p ∈ h.receivedPayloads, t.src.same p.address = false → p.blockNumber ≠ i - 1) :
    t.stored (removePreviousBlockData h t.src i) = [(i, t.block i)] := by
  have hsub : sub32 i 1 = i - 1 := by
    have hlt := t.last_lt
    unfold sub32 u32i
    omega
  obtain ⟨q, rest, hown, hq, hrest⟩ := map_eq_cons_iff.mp hstored
  have hmem : q ∈ h.receivedPayloads := by
    apply mem_of_mem_filter
    rw [← own, hown]
    exact .head _
  have hfind : ∃ p, (h.receivedPayloads.find? fun p => sub32 i 1 = p.blockNumber) = some p ∧ p.payload = t.block (i - 1) := by
    have hsome : (h.receivedPayloads.find? fun p => sub32 i 1 = p.blockNumber).isSome = true := by
      rw [find?_isSome]
      exact ⟨q, hmem, decide_eq_true (hsub.trans (Prod.mk.inj hq).1.symm)⟩
    obtain ⟨p, hp⟩ := Option.isSome_iff_exists.mp hsome
    have hnumber : p.blockNumber = i - 1 := by
      have hmatch := find?_some hp
      rw [decide_eq_true_iff, hsub] at hmatch
      exact hmatch.symm
    -- the number tells that it is a payload of the endpoint
    have hsame : t.src.same p.address = true := by
      by_contra hnot
      exact hothers p (mem_of_find?_eq_some hp) (Bool.eq_false_iff.mpr hnot) hnumber
    have hpair : (p.blockNumber, p.payload) ∈ t.stored h := mem_map.mpr ⟨p, mem_filter.mpr ⟨mem_of_find?_eq_some hp, hsame⟩, rfl⟩
    rw [hstored, mem_cons, mem_singleton, Prod.mk.injEq, Prod.mk.injEq] at hpair
    rcases hpair with hpair | hpair
    · exact ⟨p, hp, hpair.2⟩
    · omega
  obtain ⟨p, hp, hpayload⟩ := hfind
  have hequal : q.payload = p.payload := (Prod.mk.inj hq).2.trans hpayload.symm
  unfold removePreviousBlockData
  rw [hp]
  unfold stored
  rw [own_blockRemove, hown, eraseP_cons]
  simp only [hequal, decide_true, cond_true]
  exact hrest

theorem malloc_of_lt {site : Site} {size : Nat} (halloc : env.alloc site = true) (hne : size ≠ 0) (hlt : size < 65536) :
    env.malloc site size = true := by
  unfold Env.malloc
  rw [halloc, Bool.and_true, decide_eq_true_iff, u16, Nat.mod_eq_of_lt hlt]
  exact hne

variable {status : Status} {packet : Bytes} {tail : Nat → Option UInt8}

theorem Carries.isReceived (hcarries : t.Carries i m) (ptr : Option Bytes) (len : Nat)
    (hstatus : status = .parserBlockwiseMsgReceiving ∨ status = .parserBlockwiseMsgReceived) :
    Nsdl.isReceived (withPayload m ptr len status) = true := by
  have hblock1 : decide (m.options.block1 ≠ blockNone) = true := decide_eq_true hcarries.block1_ne_none
  change (m.optionsListPtr.isSome && decide (m.options.block1 ≠ blockNone) && _) = true
  rw [hcarries.options, hblock1]
  rcases hstatus with rfl | rfl <;> rfl

section

variable (haccepted : t.Accepted env s m address) (hcarries : t.Carries i m)
include haccepted hcarries

omit hcarries in
theorem Accepted.malloc_path (site : Site) : env.malloc site (m.uriPathLen + 1) = true :=
  malloc_of_lt (haccepted.alloc site) (Nat.succ_ne_zero _) (Nat.succ_lt_succ haccepted.pathLen)

/-- The resource takes the block, unless its option is 0. -/
theorem Accepted.passBlock1 (coap : Coap.Handle) (ptr : Option Bytes) (len : Nat)
    (hstatus : status = .parserBlockwiseMsgReceiving ∨ status = .parserBlockwiseMsgReceived) :
    Nsdl.passBlock1 env { s with coap := coap } t.src (withPayload m ptr len status) =
      if m.options.block1 ≠ 0 then do
        let (m, s) ← passBlock env { s with coap := coap } t.src (withPayload m ptr len status)
        pure (some (true, m, s))
      else .ok (some (false, (withPayload m ptr len status), { s with coap := coap })) := by
  obtain ⟨r, hfound, rfl⟩ := haccepted.found .path
  have hfound' : searchResource (env.below .path) (uriPath (withPayload m ptr len status)) s.resources = some r := hfound
  unfold Nsdl.passBlock1
  rw [if_pos (hcarries.isReceived ptr len hstatus), if_pos (haccepted.malloc_path .path)]
  rw [hfound']
  dsimp only
  rw [haccepted.external, Bool.true_and]
  simp only [decide_eq_true_eq]
  rfl

theorem Accepted.dispatch (coap : Coap.Handle) (ptr : Option Bytes) (len : Nat) (status : Status) :
    Nsdl.dispatch env { s with coap := coap } t.src (withPayload m ptr len status) =
      .ok (success, [.resource address (withPayload m ptr len status)], { s with coap := coap }) := by
  obtain ⟨r, hfound, rfl⟩ := haccepted.found .grsPath
  have hrequest : ¬ (m.msgCode > codeRequestDelete ∨ m.msgType = .acknowledgement ∨ m.msgType = .reset) := by
    rintro (hcode | htype)
    · exact Nat.not_lt.mpr hcarries.code_spec.1.1 hcode
    · exact hcarries.type_ne htype
  have hproxy : ¬ (m.optionsListPtr.isSome = true ∧ m.options.proxyUriLen ≠ 0) := fun hproxy => hproxy.2 hcarries.noProxy
  refine (if_neg hproxy).trans ((if_neg hrequest).trans ((if_neg haccepted.noBootstrap).trans ?_))
  refine (if_pos hcarries.code_spec.1.1).trans ((if_neg fun hpath => haccepted.path hpath.2).trans ?_)
  refine (if_pos (haccepted.malloc_path .grsPath)).trans ?_
  have hfound' : searchResource (env.below .grsPath) (uriPath (withPayload m ptr len status)) s.resources = some r := hfound
  rw [hfound']
  dsimp only
  rw [haccepted.dynamic, haccepted.access, haccepted.callback]
  rfl

/-- A block that the resource layer has passed on, or the whole payload of a transfer, goes to the callback. -/
theorem Accepted.processMsg {c c' : Coap.Handle} {m1 : Hdr} {resource : Bool} {ptr : Option Bytes} {len : Nat}
    (hpass : Nsdl.passBlock1 env { s with coap := c } t.src m1 =
      .ok (some (resource, (withPayload m ptr len status), { s with coap := c' })))
    (hstatus : status = .parserBlockwiseMsgReceived ∨ resource = true) :
    Nsdl.processMsg env { s with coap := c } t.src m1 =
      .ok (success, [.resource address (withPayload m ptr len status)], { s with coap := c' }) := by
  have hgo : ¬ (status ≠ .ok ∧ status ≠ .parserBlockwiseMsgReceived ∧ resource = false) := by
    rintro ⟨-, hne, hnone⟩
    rcases hstatus with hstatus | hstatus
    · exact hne hstatus
    · rw [hstatus] at hnone
      cases hnone
  unfold Nsdl.processMsg
  rw [hpass]
  refine (if_neg hcarries.code_spec.1.2.2).trans ((if_neg hgo).trans ?_)
  exact haccepted.dispatch hcarries c' ptr len status

end

/-- The packet of a block is received, and then goes through the resource layer. -/
theorem processCoap_of_receive
    (hparsed : Parser.snCoapParser fuel (packetMem packet tail) packet.length = .ok (some (m, coapVersion1)))
    (hcarries : t.Carries i m) {h1 h2 : Coap.Handle} {m2 : Hdr}
    (hdetect : Coap.detectDuplicate env.coap s.coap t.src m = .ok (false, h1))
    (hreceive : receiveBlock1 env.coap h1 t.src m = (some m2, h2)) (htype : m2.msgType = m.msgType) :
    processCoap fuel env s t.src packet tail = Nsdl.processMsg env { s with coap := h2 } t.src m2 := by
  unfold processCoap protocolParse
  rw [hparsed]
  dsimp only [bind, Except.bind]
  rw [hcarries.parseMsg hdetect hreceive htype]

/-! ## One block -/

theorem stored_append (h : Coap.Handle) (p : BlockwisePayload) (hp : p.address = t.src) {l : List BlockwisePayload}
    (hl : h.receivedPayloads = l ++ [p]) :
    t.stored h = (own t.src l).map (fun p => (p.blockNumber, p.payload)) ++ [(p.blockNumber, p.payload)] := by
  unfold stored own
  rw [hl, filter_append, map_append]
  congr
  simp [hp, Address.same_self]

theorem Carries.passBlock_receiving (hcarries : t.Carries i m) (s : Handle) :
    passBlock env s t.src { m with coapStatus := .parserBlockwiseMsgReceiving } =
      .ok ({ m with coapStatus := .parserBlockwiseMsgReceiving },
        { s with coap := if i ≠ 0 then removePreviousBlockData s.coap t.src i else s.coap }) := by
  have hnumber : blockNumberOf ({ m with coapStatus := .parserBlockwiseMsgReceiving } : Hdr).options.block1.toNat = i :=
    hcarries.blockNumber
  unfold passBlock
  rw [hnumber]
  dsimp only
  rw [if_neg (by decide)]
  split_ifs <;> rfl

theorem Arrives.step_more (harrives : t.Arrives address fuel env s i packet tail)
    (hregular : t.Regular) (hi : i < t.last) (hstored : t.stored s.coap = t.kept i) :
    ∃ call s', processCoap fuel env s t.src packet tail = .ok (success, [call], s') ∧ t.Hands address i call ∧
      t.stored s'.coap = t.kept (i + 1) := by
  obtain ⟨⟨m, hparsed, hcarries, haccepted⟩, hundisturbed⟩ := harrives
  obtain ⟨h1, hdetect, hlist, hsize⟩ := haccepted.detectDuplicate
  obtain ⟨h2, hreceive, hlist2⟩ := hcarries.receive_more hi haccepted.coapAlloc (hsize.symm ▸ haccepted.blockSize) hregular
  rw [hlist] at hlist2
  have hblock1 : m.options.block1 ≠ 0 := by
    rw [Ne, hcarries.block1_eq_zero hregular (Nat.le_of_lt hi)]
    omega
  have hstored2 : t.stored h2 = t.kept i ++ [(i, t.block i)] := by
    rw [stored_append h2 _ rfl hlist2, ← hstored]
    rfl
  have hkept : t.kept (i + 1) = [(i, t.block i)] := if_pos hi
  have hcall : t.Hands address i (.resource address { m with coapStatus := .parserBlockwiseMsgReceiving }) :=
    ⟨_, rfl, hcarries.payload, hcarries.payloadLen⟩
  have hpass := haccepted.passBlock1 hcarries h2 m.payloadPtr m.payloadLen (.inl rfl)
  rw [if_pos hblock1, hcarries.passBlock_receiving] at hpass
  rw [processCoap_of_receive hparsed hcarries hdetect hreceive rfl]
  refine ⟨_, _, haccepted.processMsg hcarries hpass (.inr rfl), hcall, ?_⟩
  rw [hkept]
  cases i with
  | zero => exact hstored2
  | succ i =>
    apply stored_removePreviousBlockData (Nat.succ_pos i) hi
    · rw [hstored2, kept, if_pos (Nat.lt_of_succ_lt hi)]
      rfl
    intro p hp hother
    rw [hlist2, mem_append, mem_singleton] at hp
    rcases hp with hp | rfl
    · exact (hundisturbed p hp hother).2 (Nat.succ_ne_zero i)
    · rw [Address.same_self] at hother
      cases hother

/-- The block before is cut off the payload of the last block. -/
theorem Carries.passBlock_received (hcarries : t.Carries i m) (halloc : ∀ site, env.alloc site = true)
    (hempty : s.coap.receivedPayloads = []) {before block : Bytes} (hbefore : before.length = 2 ^ (t.szx + 4))
    (hne : block ≠ []) (hblock : block.length ≤ 2 ^ (t.szx + 4)) :
    passBlock env s t.src (completed m (before ++ block)) = .ok (completed m block, s) := by
  have hsmall := blockSize_le t.szx_lt
  have hremove (number : Nat) : removePreviousBlockData s.coap t.src number = s.coap := by
    unfold removePreviousBlockData
    rw [hempty]
    rfl
  have hlen : (before ++ block).length - 2 ^ (t.szx + 4) = block.length := by
    rw [length_append, hbefore]
    exact Nat.add_sub_cancel_left _ _
  have hlong : ¬ (before ++ block).length < 2 ^ (t.szx + 4) := by
    rw [length_append, hbefore]
    omega
  have hsub : sub32 (before ++ block).length (2 ^ (t.szx + 4)) = block.length := by
    rw [sub32_of_le (Nat.le_of_not_lt hlong) (by rw [length_append]; omega), hlen]
  have hmalloc (site : Site) : env.malloc site block.length = true :=
    malloc_of_lt (halloc site) (mt eq_nil_of_length_eq_zero hne) (by omega)
  have hdata : lastBlockData (completed m (before ++ block)) (2 ^ (t.szx + 4)) = .ok block := by
    unfold lastBlockData
    rw [if_neg hlong, hlen, Option.getD_some, ← hbefore, drop_left, take_length]
  have hlast : passLastBlock env (completed m (before ++ block)) = .ok (completed m block) := by
    unfold passLastBlock
    have hsize := hcarries.blockSize
    unfold Hdr.options at hsize ⊢
    rw [hsize, hsub, if_pos (hmalloc .lastBlock), hdata]
    dsimp only [bind, Except.bind, pure, Except.pure]
    rw [if_pos (hmalloc .lastBlockCopy)]
  unfold passBlock
  dsimp only
  rw [hlast, hremove, if_pos rfl]
  split_ifs <;> rfl

theorem Arrives.step_last (harrives : t.Arrives address fuel env s t.last packet tail) (hregular : t.Regular)
    (hstored : t.stored s.coap = t.kept t.last) :
    ∃ call s', processCoap fuel env s t.src packet tail = .ok (success, [call], s') ∧ t.Hands address t.last call ∧
      t.stored s'.coap = t.kept (t.last + 1) := by
  obtain ⟨⟨m, hparsed, hcarries, haccepted⟩, hundisturbed⟩ := harrives
  obtain ⟨h1, hdetect, hlist, hsize⟩ := haccepted.detectDuplicate
  have hown : own t.src s.coap.receivedPayloads = s.coap.receivedPayloads := by
    rw [own, filter_eq_self]
    intro p hp
    by_contra hother
    exact Nat.lt_irrefl _ (hundisturbed p hp (Bool.eq_false_iff.mpr hother)).1
  obtain ⟨before, hflat, hbefore⟩ : ∃ before, s.coap.receivedPayloads.flatMap (·.payload) = before ∧
      (t.last = 0 ∧ before = [] ∨ t.last ≠ 0 ∧ before.length = 2 ^ (t.szx + 4)) := by
    refine ⟨(t.kept t.last).flatMap (·.2), by rw [← hstored, stored, hown, flatMap_map], ?_⟩
    cases hlast : t.last with
    | zero => exact .inl ⟨rfl, rfl⟩
    | succ k =>
      have hlt : k < t.last := by omega
      rw [kept, if_pos hlt, flatMap_singleton]
      exact .inr ⟨k.succ_ne_zero, t.length_block k hlt⟩
  have hlen : before.length ≤ 2 ^ (t.szx + 4) := by
    rcases hbefore with ⟨-, rfl⟩ | ⟨-, heq⟩
    · exact Nat.zero_le _
    · exact Nat.le_of_eq heq
  obtain ⟨h2, hreceive, hempty⟩ := hcarries.receive_last haccepted.coapAlloc (hsize.symm ▸ haccepted.blockSize)
    hregular (by rw [hlist, hown]) (by rw [hlist, hflat]) hlen
  have hgone : t.stored h2 = t.kept (t.last + 1) := by
    rw [kept, if_neg (Nat.lt_irrefl _), stored, hempty]
    rfl
  have hpass := haccepted.passBlock1 hcarries h2 (some (before ++ t.block t.last)) (before ++ t.block t.last).length (.inr rfl)
  have hzero := hcarries.block1_eq_zero hregular (Nat.le_refl _)
  rw [processCoap_of_receive hparsed hcarries hdetect hreceive rfl]
  rcases hbefore with ⟨hlast, rfl⟩ | ⟨hlast, heq⟩
  · -- a single block is the whole payload
    rw [if_neg (not_not.mpr (hzero.mpr hlast))] at hpass
    exact ⟨_, _, haccepted.processMsg hcarries hpass (.inl rfl), ⟨_, rfl, rfl, rfl⟩, hgone⟩
  · have hblock := hcarries.passBlock_received (s := { s with coap := h2 }) haccepted.alloc hempty heq
      hregular.last_ne t.length_last
    rw [if_pos (mt hzero.mp hlast), hblock] at hpass
    exact ⟨_, _, haccepted.processMsg hcarries hpass (.inl rfl), ⟨_, rfl, rfl, rfl⟩, hgone⟩

theorem Arrives.step (harrives : t.Arrives address fuel env s i packet tail)
    (hregular : t.Regular) (hi : i ≤ t.last) (hstored : t.stored s.coap = t.kept i) :
    ∃ call s', processCoap fuel env s t.src packet tail = .ok (success, [call], s') ∧ t.Hands address i call ∧
      t.stored s'.coap = t.kept (i + 1) := by
  rcases Nat.lt_or_eq_of_le hi with hlt | rfl
  · exact harrives.step_more hregular hlt hstored
  · exact harrives.step_last hregular hstored

end

/-! ## Whole transfers -/

/-- The blocks received so far have been handed to the resource one by one and in order, only the current block is stored, and
the next block will be handed over. -/
theorem blocks_handed_over {t : Transfer} {address i : Nat} {calls : List Output} {s : Handle} (hregular : t.Regular)
    (hreceived : t.Received address i calls s) :
    List.Forall₂ (t.Hands address) (List.range i) calls ∧ t.stored s.coap = t.kept i ∧
      ∀ fuel env packet tail, i ≤ t.last → t.Arrives address fuel env s i packet tail →
        ∃ call s', processCoap fuel env s t.src packet tail = .ok (success, [call], s') := by
  have hinv : List.Forall₂ (t.Hands address) (.range i) calls ∧ t.stored s.coap = t.kept i := by
    induction hreceived with
    | start hempty => exact ⟨.nil, congrArg (List.map _) hempty⟩
    | block _ hi harrives hprocess ih =>
      obtain ⟨call, s', hstep, hhands, hstored⟩ := harrives.step hregular hi ih.2
      rw [hstep] at hprocess
      cases hprocess
      refine ⟨?_, hstored⟩
      rw [range_succ]
      exact rel_append ih.1 (.cons hhands .nil)
    | other _ hdistinct hharmless hprocess ih =>
      exact ⟨ih.1, (congrArg (List.map _) (hdistinct.own_processCoap hharmless hprocess)).trans ih.2⟩
    | send _ hsend ih =>
      refine ⟨ih.1, ?_⟩
      rw [stored, sendCoapMessage_received hsend]
      exact ih.2
  refine ⟨hinv.1, hinv.2, fun fuel env packet tail hi harrives => ?_⟩
  obtain ⟨call, s', hstep, -⟩ := harrives.step hregular hi hinv.2
  exact ⟨call, s', hstep⟩

end Transfer

/-! ## Concrete transfers -/

/-- A PUT to "a" with a Block1 option of one byte. -/
def putPacket (msgId option : UInt8) (payload : Bytes) : Bytes :=
  [0x40, 0x03, 0x00, msgId, 0xb1, 0x61, 0xd1, 0x03, option] ++ if payload = [] then [] else 0xff :: payload

def putMsg (msgId option : Nat) (payload : Bytes) : Hdr where
  msgCode := codeRequestPut
  msgId := msgId
  uriPathLen := 1
  uriPathPtr := some [0x61]
  payloadLen := payload.length
  payloadPtr := if payload = [] then none else some payload
  optionsListPtr := some { block1 := option }

/-- A handle with one resource, "a", for external memory. -/
def externalHandle (coap : Coap.Handle) : Handle where
  coap := coap
  resources := [⟨7, ⟨[0x61], by decide⟩⟩]
  params _ := ⟨true, true, 0x0f, true, 0, []⟩
  omaBs := ⟨[], 0⟩

def calmEnv : Env := ⟨calm, fun _ => true, fun _ => 0, none, 0⟩

def process (coap : Coap.Handle) (src : Address) (packet : Bytes) : Exec Fault Processed :=
  processCoap 40 calmEnv (externalHandle coap) src packet fun _ => none

/-- The CoAP library after a packet. -/
def afterPacket (coap : Coap.Handle) (src : Address) (packet : Bytes) : Coap.Handle :=
  match process coap src packet with
  | .ok (_, _, s) => s.coap
  | .error _ => coap

/-- A block of 16 bytes, and a shorter one. -/
def twoBlocks (last : Bytes) (hlast : last.length ≤ 16) : Transfer where
  src := endpointA
  szx := 0
  last := 1
  block i := if i = 0 then List.replicate 16 1 else last
  szx_lt := by decide
  last_lt := by decide
  length_block i hi := by
    rw [Nat.lt_one_iff.mp hi]
    rfl
  length_last := hlast

/-- A single block of 20 bytes. -/
def oneBlock : Transfer where
  src := endpointA
  szx := 1
  last := 0
  block _ := List.replicate 20 1
  szx_lt := by decide
  last_lt := by decide
  length_block _ hi := absurd hi (Nat.not_lt_zero _)
  length_last := by decide

theorem accepted_putMsg {t : Transfer} {coap : Coap.Handle} (msgId option : Nat) (payload : Bytes) (hszx : t.szx ≤ 1)
    (hsrc : ⟨[], 0⟩ ≠ t.src) (hsize : coap.blockDataSize = 64) (hduplication : coap.duplicationBufferSize = 0) :
    t.Accepted calmEnv (externalHandle coap) (putMsg msgId option payload) 7 where
  alloc _ := rfl
  coapAlloc _ := rfl
  blockSize := by
    change _ ≤ coap.blockDataSize
    rw [hsize]
    exact Nat.pow_le_pow_right (by decide : 0 < 2) (by omega : t.szx + 4 ≤ 6)
  pathLen := (by decide : 1 < 65535)
  new hne := absurd hduplication hne
  noBootstrap := hsrc
  path := (by decide : [0x61] ≠ wellKnownPath)
  found _ := ⟨_, rfl, rfl⟩
  external := rfl
  dynamic := rfl
  access := (by decide : refused ⟨true, true, 0x0f, true, 0, []⟩ codeRequestPut = false)
  callback := rfl

theorem carries_putMsg {t : Transfer} {i : Nat} (msgId option : Nat) (payload : Bytes) (hoption : option = t.option i)
    (hpayload : payload = t.block i) : t.Carries i (putMsg msgId option payload) where
  status := rfl
  code := by simp [putMsg]
  type := Or.inl rfl
  options := rfl
  block1 := congrArg Int.ofNat hoption
  noProxy := rfl
  payload := by
    unfold putMsg
    split_ifs with hnil
    · exact hnil.symm.trans hpayload
    · exact hpayload
  payloadLen := congrArg List.length hpayload

def firstReceived (src : Address) (coap : Coap.Handle) : Coap.Handle := afterPacket coap src (putPacket 1 8 (List.replicate 16 1))

theorem received_first {last : Bytes} (hlast : last.length ≤ 16) {coap : Coap.Handle} {ret : Int} {calls : List Output}
    (hsize : coap.blockDataSize = 64) (hduplication : coap.duplicationBufferSize = 0)
    (hown : own endpointA coap.receivedPayloads = [])
    (hprocess : process coap endpointA (putPacket 1 8 (List.replicate 16 1)) =
      .ok (ret, calls, externalHandle (firstReceived endpointA coap))) :
    (twoBlocks last hlast).Received 7 1 calls (externalHandle (firstReceived endpointA coap)) := by
  have harrives : (twoBlocks last hlast).Arrives 7 40 calmEnv (externalHandle coap) 0
      (putPacket 1 8 (List.replicate 16 1)) fun _ => none :=
    ⟨⟨putMsg 1 8 (List.replicate 16 1), rfl, carries_putMsg 1 8 _ rfl rfl,
      accepted_putMsg 1 8 _ (Nat.zero_le 1) (by decide : ⟨[], 0⟩ ≠ endpointA) hsize hduplication⟩,
      fun _ _ _ => ⟨Nat.one_pos, fun hne => absurd rfl hne⟩⟩
  exact (Transfer.Received.start hown).block (Nat.zero_le 1) harrives hprocess

/-- A GET of "a". -/
def getPacket : Bytes := [0x40, 0x01, 0x00, 0x09, 0xb1, 0x61]

/-- The two blocks of a transfer, and a request of another endpoint in between. -/
theorem blocks_handed_over_two : ∃ calls s, (twoBlocks [2] (by decide)).Received 7 2 calls s ∧
    List.Forall₂ ((twoBlocks [2] (by decide)).Hands 7) [0, 1] calls ∧ s.coap.receivedPayloads = [] := by
  have hsecond : (twoBlocks [2] (by decide)).Arrives 7 40 calmEnv
      (externalHandle (afterPacket (firstReceived endpointA { blockDataSize := 64 }) endpointB getPacket)) 1
      (putPacket 2 16 [2]) fun _ => none := by
    refine ⟨⟨putMsg 2 16 [2], rfl, carries_putMsg 2 16 _ rfl rfl, accepted_putMsg 2 16 _ (by decide) (by decide) rfl rfl⟩, ?_⟩
    unfold Transfer.Undisturbed
    decide
  have hfirst : (twoBlocks [2] (by decide)).Received 7 1 _ (externalHandle (firstReceived endpointA { blockDataSize := 64 })) :=
    received_first _ rfl rfl rfl rfl
  have hharmless : ∀ m version, Parser.snCoapParser 40 (packetMem getPacket fun _ => none) getPacket.length =
      .ok (some (m, version)) → Harmless (firstReceived endpointA { blockDataSize := 64 }) m := by
    intro m version hparsed
    cases hparsed
    exact .inl ⟨rfl, rfl⟩
  have hother := hfirst.other (⟨rfl, by decide⟩ : Distinct endpointA endpointB) hharmless
    (rfl : processCoap 40 calmEnv _ endpointB getPacket (fun _ => none) = _)
  have hreceived := hother.block (Nat.le_refl 1) hsecond rfl
  have hhanded := Transfer.blocks_handed_over ⟨fun hlast => absurd hlast Nat.one_ne_zero, by decide⟩ hreceived
  exact ⟨_, _, hreceived, hhanded.1, rfl⟩

/-- The next block of a transfer arrives, and it is not handed over. -/
def Mishandled (t : Transfer) (coap : Coap.Handle) (i : Nat) (packet : Bytes) : Prop :=
  (∃ calls, t.Received 7 i calls (externalHandle coap)) ∧
    (∃ m, Parser.snCoapParser 40 (packetMem packet fun _ => none) packet.length = .ok (some (m, coapVersion1)) ∧
      t.Carries i m ∧ t.Accepted calmEnv (externalHandle coap) m 7) ∧
    ¬ ∃ call s, process coap t.src packet = .ok (success, [call], s) ∧ t.Hands 7 i call

/-- A single block of 20 bytes, the second block of a transfer when another endpoint has sent its first block before, and an empty
last block. -/
theorem blocks_not_handed_over :
    Mishandled oneBlock { blockDataSize := 64 } 0 (putPacket 1 1 (List.replicate 20 1)) ∧
      Mishandled (twoBlocks [2] (by decide)) (firstReceived endpointA (firstReceived endpointB { blockDataSize := 64 })) 1
        (putPacket 2 16 [2]) ∧
      Mishandled (twoBlocks [] (by decide)) (firstReceived endpointA { blockDataSize := 64 }) 1 (putPacket 2 16 []) := by
  refine ⟨⟨⟨_, .start rfl⟩, ⟨putMsg 1 1 _, rfl, carries_putMsg 1 1 _ rfl rfl,
    accepted_putMsg 1 1 _ (by decide) (by decide) rfl rfl⟩, ?_⟩,
    ⟨⟨_, received_first (by decide) rfl rfl rfl rfl⟩,
      ⟨putMsg 2 16 [2], rfl, carries_putMsg 2 16 _ rfl rfl, accepted_putMsg 2 16 _ (by decide) (by decide) rfl rfl⟩, ?_⟩,
    ⟨⟨_, received_first (by decide) rfl rfl rfl rfl⟩,
      ⟨putMsg 2 16 [], rfl, carries_putMsg 2 16 _ rfl rfl, accepted_putMsg 2 16 _ (by decide) (by decide) rfl rfl⟩, ?_⟩⟩
  · rintro ⟨call, s, hok, -⟩
    cases hok
  all_goals
    rintro ⟨call, s, hok, m, rfl, hpayload, -⟩
    cases hok
    revert hpayload
    decide

end MbedCloud.Nsdl
