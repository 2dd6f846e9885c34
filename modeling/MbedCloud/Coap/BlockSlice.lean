import MbedCloud.Coap.Protocol

/-!
# The payload of the next block

Which part of the stored payload a block takes that `sn_coap_handle_blockwise_message` sends:
the next block after a Block1 acknowledgement, and the block that a Block2 request asks for.
Both paths multiply the block number with the block size and do not compare the result with
the length of the payload.
-/

namespace MbedCloud.Coap

/-! ## Block options -/

section

variable {num szx : Nat} (more : Bool)

/-- A block option with its number, more bit and size exponent. -/
def blockOption (num : Nat) (more : Bool) (szx : Nat) : Nat := num * 16 + more.toNat * 8 + szx

theorem blockNumberOf_option (hszx : szx < 8) : blockNumberOf (blockOption num more szx) = num := by
  unfold blockNumberOf blockOption
  cases more <;> simp <;> omega

theorem szxOf_option (hszx : szx < 8) : szxOf (blockOption num more szx) = szx := by
  unfold szxOf blockOption
  cases more <;> simp <;> omega

theorem moreOf_option (hszx : szx < 8) : moreOf (blockOption num more szx) = more := by
  unfold moreOf blockOption
  cases more <;> simp <;> omega

theorem blockSizeOf_option (hszx : szx < 8) : blockSizeOf (blockOption num more szx) = 2 ^ (szx + 4) := by
  unfold blockSizeOf
  rw [szxOf_option more hszx]

theorem setMore_option (hszx : szx < 8) : setMore (blockOption num more szx) = blockOption num true szx := by
  unfold setMore
  rw [moreOf_option more hszx]
  cases more with
  | false => simp only [blockOption, Bool.toNat_false, Bool.toNat_true]; simp; omega
  | true => rfl

end

variable {szx blockSize offset : Nat} {h h' : Handle} {next : Hdr}

theorem blockSize_le (hszx : szx < 8) : 2 ^ (szx + 4) ≤ 2048 := Nat.pow_le_pow_right (by decide) (by omega : szx + 4 ≤ 11)

/-- A block of 20 bits starts and ends below `2 ^ 32`. -/
theorem blockSize_mul_lt (hszx : szx < 8) (num : Nat) (hnum : num ≤ 1048577) : 2 ^ (szx + 4) * num < 4294967296 := by
  have h := Nat.mul_le_mul (blockSize_le hszx) hnum
  omega

/-! ## The slice -/

/-- The part of a payload of length `len` for a block: it lies inside, and its length is that
of a block or of what is left. -/
def Inside (len blockSize offset payloadLen : Nat) : Prop :=
  offset + payloadLen ≤ len ∧ (payloadLen : Int) = min (blockSize : Int) (len - offset)

theorem inside_iff {len num : Nat} {last : Bool} (hlen : len < 65536) (hnum : blockSize * (num + 1) < 4294967296)
    (hlast : last = true → len ≤ blockSize * (num + 1))
    (hnext : last = false → blockSize * (num + 1) ≤ len) :
    Inside len blockSize (u32 (blockSize * num)) (if last then u16 (sub32 len (u32 (blockSize * num))) else blockSize) ↔
      blockSize * num ≤ len := by
  have hmul : blockSize * (num + 1) = blockSize * num + blockSize := Nat.mul_succ _ _
  have hoff : u32 (blockSize * num) = blockSize * num := Nat.mod_eq_of_lt (by omega)
  rw [hoff]
  unfold Inside
  cases last with
  | false =>
    have := hnext rfl
    simp only [Bool.false_eq_true, if_false]
    omega
  | true =>
    have := hlast rfl
    simp only [if_true]
    constructor
    · rintro ⟨hle, -⟩
      omega
    intro hle
    have hleft : u16 (sub32 len (blockSize * num)) = len - blockSize * num := by
      unfold sub32 u32i u16
      omega
    omega

@[simp]
theorem nextBlock1_payloadLen (msg : Hdr) (block1 : Nat) : (nextBlock1 msg block1).payloadLen =
      if decide (u32 (blockSizeOf block1 * u32 (u32 (blockNumberOf block1 + 1) + 1)) > msg.payloadLen)
      then u16 (sub32 msg.payloadLen (u32 (blockSizeOf block1 * u32 (blockNumberOf block1 + 1))))
      else blockSizeOf block1 := rfl

@[simp]
theorem answerBlock2_payloadLen (msg : Hdr) (block2 msgId : Nat) :
    (answerBlock2 msg block2 msgId).payloadLen =
      if decide (u32 (blockSizeOf block2 * u32 (blockNumberOf block2 + 1)) ≥ msg.payloadLen)
      then u16 (sub32 msg.payloadLen (u32 (blockSizeOf block2 * blockNumberOf block2)))
      else blockSizeOf block2 := rfl

@[simp]
theorem answerToken_payloadLen (env : Env) (m msg : Hdr) : (answerToken env m msg).payloadLen = msg.payloadLen := by
  unfold answerToken
  split_ifs <;> rfl

/-! ## What the handler sends -/

/-- A Block1 acknowledgement for block `num` of a stored message. -/
structure Acknowledges (h : Handle) (m stored : Hdr) (num szx : Nat) : Prop where
  code : m.msgCode > codeRequestDelete
  block1 : m.options.block1 = (blockOption num true szx : Nat)
  found : (h.sentMsgs.find? (sentMsgFor m.msgId)).bind (·.coapMsgPtr) = some stored

/-- A request for block `num` of a stored message. -/
structure Requests (h : Handle) (m stored : Hdr) (num : Nat) (more : Bool) (szx : Nat) : Prop where
  code : m.msgCode ≤ codeRequestDelete
  block1 : m.options.block1 = blockNone
  block2 : m.options.block2 = (blockOption num more szx : Nat)
  found : ∃ timestamp others, h.sentMsgs = ⟨timestamp, some stored⟩ :: others

/-- The log of a call that sends a block: the block, and the packet. -/
def SendsBlock (h h' : Handle) (next : Hdr) (offset : Nat) : Prop :=
  ∃ packet len dst, h'.log = h.log ++ [.block next offset, .tx packet len dst]

theorem SendsBlock.mem_iff (hs : SendsBlock h h' next offset) (msg : Hdr) (off : Nat) :
    Event.block msg off ∈ h'.log.drop h.log.length ↔ msg = next ∧ off = offset := by
  obtain ⟨packet, len, dst, hlog⟩ := hs
  simp [hlog]

theorem sendsBlock_buildAndSend (env : Env) {h0 : Handle} (hlog : h0.log = h.log) (next : Hdr) (offset : Nat) (dst : Address) :
    SendsBlock h (buildAndSend env (h0.emit (.block next offset)) next dst) next offset := by
  refine ⟨snCoapBuilder2 env.heap next h0.blockDataSize, calcNeededPacketDataSize2 env.heap next h0.blockDataSize, dst, ?_⟩
  simp only [buildAndSend, Handle.emit, hlog, List.append_assoc, List.cons_append, List.nil_append]

section Sent

variable {env : Env} (src : Address) {m stored : Hdr} {num : Nat}

theorem handle_acknowledges (hack : Acknowledges h m stored num szx) (hszx : szx < 8)
    (hoptions : env.alloc .nextOptions = true) (hpacket : env.alloc .nextPacket = true) :
    ∃ h' next, handleBlockwiseMessage env h src m = .ok (some { m with coapStatus := .parserBlockwiseAck }, h') ∧
      next = { nextBlock1 stored.allocOptions (blockOption num true szx) with
        msgId := h.messageId } ∧
      SendsBlock h h' next (u32 (2 ^ (szx + 4) * u32 (num + 1))) ∧
      h' = { h.takeMessageId with log := h'.log }.replaceSent (sentMsgFor m.msgId) (some
        { next with payloadLen := stored.payloadLen, payloadPtr := stored.payloadPtr }) := by
  have hblock : m.options.block1 ≠ blockNone := by
    rw [hack.block1]
    simp only [blockNone]
    omega
  have hstored : allocOptions env .nextOptions stored = some stored.allocOptions := by simp [allocOptions, hoptions]
  have hhandle : handleBlockwiseMessage env h src m = .ok (sendNextBlock1 env h src m) := by
    unfold handleBlockwiseMessage
    rw [if_pos hblock, if_pos hack.code]
  rw [hhandle]
  simp only [sendNextBlock1, hack.block1, Int.toNat_natCast, moreOf_option true hszx, if_true,
    hack.found, hstored, hpacket, blockSizeOf_option true hszx, blockNumberOf_option true hszx]
  exact ⟨_, _, rfl, rfl, sendsBlock_buildAndSend env rfl _ _ src, rfl⟩

theorem handle_requests {more : Bool} {timestamp : Nat} {others : List BlockwiseMsg} (hreq : Requests h m stored num more szx)
    (hfound : h.sentMsgs = ⟨timestamp, some stored⟩ :: others) (hszx : szx < 8)
    (hoptions : env.alloc .nextOptions = true) (hpacket : env.alloc .nextPacket = true) :
    ∃ h' answer, handleBlockwiseMessage env h src m = .ok (some { m with coapStatus := .parserBlockwiseAck }, h') ∧
      answer = answerToken env m (answerBlock2 stored.allocOptions (blockOption num more szx) m.msgId) ∧
      SendsBlock h h' answer (u32 (2 ^ (szx + 4) * num)) ∧
      h'.sentMsgs =
        if u32 (2 ^ (szx + 4) * u32 (num + 1)) ≥ stored.payloadLen then others
        else ⟨timestamp, some { answer with
          payloadLen := stored.payloadLen, payloadPtr := stored.payloadPtr }⟩ :: others := by
  have hstored : allocOptions env .nextOptions stored = some stored.allocOptions := by simp [allocOptions, hoptions]
  have hhandle : handleBlockwiseMessage env h src m = sendBlock2 env h src m := by
    unfold handleBlockwiseMessage
    rw [if_neg (not_not.mpr hreq.block1), if_neg (Nat.not_lt.mpr hreq.code)]
  rw [hhandle]
  simp only [sendBlock2, hfound, hreq.block2, Int.toNat_natCast, hstored, hpacket, if_true,
    blockSizeOf_option more hszx, blockNumberOf_option more hszx]
  refine ⟨_, _, rfl, rfl, sendsBlock_buildAndSend env rfl _ _ src, ?_⟩
  simp only [decide_eq_true_eq]
  rfl

end Sent

/-! ## The slice lies inside -/

/-- Every block that the handler sends takes a part of the stored payload that lies inside. -/
def SlicesInside (env : Env) (h : Handle) (src : Address) (m stored : Hdr) (blockSize : Nat) : Prop :=
  ∀ r h', handleBlockwiseMessage env h src m = .ok (r, h') → ∀ next offset,
    .block next offset ∈ h'.log.drop h.log.length → Inside stored.payloadLen blockSize offset next.payloadLen

theorem slicesInside_iff_of_sends {env : Env} {src : Address} {m stored : Hdr} {r : Option Hdr}
    (hhandle : handleBlockwiseMessage env h src m = .ok (r, h')) (hsends : SendsBlock h h' next offset) :
    SlicesInside env h src m stored blockSize ↔ Inside stored.payloadLen blockSize offset next.payloadLen := by
  constructor
  · intro hall
    exact hall r h' hhandle next offset ((hsends.mem_iff next offset).mpr ⟨rfl, rfl⟩)
  intro hin r' h'' hhandle' msg off hmem
  rw [hhandle] at hhandle'
  cases hhandle'
  obtain ⟨rfl, rfl⟩ := (hsends.mem_iff msg off).mp hmem
  exact hin

/-- A block after an acknowledgement lies inside the stored payload exactly if the acknowledged
block ends there, and a requested block exactly if it starts there. -/
theorem slices_inside_iff {env : Env} {h : Handle} {src : Address} {m stored : Hdr} {num szx : Nat}
    (hnum : num < 1048576) (hszx : szx < 8) (hlen : stored.payloadLen < 65536)
    (hoptions : env.alloc .nextOptions = true) (hpacket : env.alloc .nextPacket = true) :
    (Acknowledges h m stored num szx →
      (SlicesInside env h src m stored (2 ^ (szx + 4)) ↔ 2 ^ (szx + 4) * (num + 1) ≤ stored.payloadLen)) ∧
    (∀ more, Requests h m stored num more szx →
      (SlicesInside env h src m stored (2 ^ (szx + 4)) ↔ 2 ^ (szx + 4) * num ≤ stored.payloadLen)) := by
  have hnext : u32 (num + 1) = num + 1 := Nat.mod_eq_of_lt (by omega)
  have hnext2 : u32 (num + 1 + 1) = num + 1 + 1 := Nat.mod_eq_of_lt (by omega)
  have hmul := blockSize_mul_lt hszx (num + 1) (by omega)
  have hmul2 := blockSize_mul_lt hszx (num + 1 + 1) (by omega)
  constructor
  · intro hack
    obtain ⟨h', next, hhandle, hmsg, hsends, -⟩ := handle_acknowledges src hack hszx hoptions hpacket
    have hslice : next.payloadLen = (nextBlock1 stored.allocOptions (blockOption num true szx)).payloadLen := by rw [hmsg]
    rw [slicesInside_iff_of_sends hhandle hsends, hslice, nextBlock1_payloadLen,
      blockSizeOf_option true hszx, blockNumberOf_option true hszx, hnext, hnext2,
      show u32 (2 ^ (szx + 4) * (num + 1 + 1)) = 2 ^ (szx + 4) * (num + 1 + 1) from
        Nat.mod_eq_of_lt hmul2]
    apply inside_iff hlen hmul2
    · intro hlast
      exact Nat.le_of_lt (of_decide_eq_true hlast)
    · intro hlast
      exact Nat.not_lt.mp (of_decide_eq_false hlast)
  · intro more hreq
    obtain ⟨timestamp, others, hfound⟩ := hreq.found
    obtain ⟨h', answer, hhandle, hmsg, hsends, -⟩ := handle_requests src hreq hfound hszx hoptions hpacket
    have hslice : answer.payloadLen = (answerBlock2 stored.allocOptions
        (blockOption num more szx) m.msgId).payloadLen := by rw [hmsg, answerToken_payloadLen]
    rw [slicesInside_iff_of_sends hhandle hsends, hslice, answerBlock2_payloadLen,
      blockSizeOf_option more hszx, blockNumberOf_option more hszx, hnext,
      show u32 (2 ^ (szx + 4) * (num + 1)) = 2 ^ (szx + 4) * (num + 1) from Nat.mod_eq_of_lt hmul]
    apply inside_iff hlen hmul
    · intro hlast
      exact of_decide_eq_true hlast
    · intro hlast
      exact Nat.le_of_lt (Nat.not_le.mp (of_decide_eq_false hlast))

/-! ## Concrete blocks -/

/-- A request with a payload of 20 bytes, as it is stored for sending in blocks. -/
def storedRequest : Hdr where
  msgCode := codeRequestPut
  msgId := 7
  payloadPtr := some (List.replicate 20 1)
  payloadLen := 20

def sendingHandle : Handle where
  blockDataSize := 16
  sentMsgs := [⟨0, some storedRequest⟩]

/-- The acknowledgement of block `num` of 16 bytes. -/
def acknowledgement (num : Nat) : Hdr where
  msgType := .acknowledgement
  msgCode := codeResponseContinue
  msgId := 7
  optionsListPtr := some { block1 := (blockOption num true 0 : Nat) }

theorem acknowledgement_acknowledges (num : Nat) : Acknowledges sendingHandle (acknowledgement num) storedRequest num 0 :=
  ⟨(by decide : codeResponseContinue > codeRequestDelete), rfl, rfl⟩

theorem slices_inside_first : SlicesInside calm sendingHandle ⟨[10, 0, 0, 1], 5683⟩ (acknowledgement 0) storedRequest 16 := by
  apply ((slices_inside_iff (by decide) (by decide) (by decide) rfl rfl).1 (acknowledgement_acknowledges 0)).mpr
  decide

/-- The acknowledgement of a block that was not sent: the next block starts behind the payload,
and its length wraps around. -/
theorem not_slices_inside_unsent :
    ¬ SlicesInside calm sendingHandle ⟨[10, 0, 0, 1], 5683⟩ (acknowledgement 5) storedRequest 16 := by
  have halloc : ∀ site, calm.alloc site = true := fun _ => rfl
  obtain ⟨h', next, hhandle, hmsg, hsends, -⟩ := handle_acknowledges _
    (acknowledgement_acknowledges 5) (by decide) (halloc .nextOptions) (halloc .nextPacket)
  have hlen : next.payloadLen = 65460 := by rw [hmsg]; rfl
  have hoffset : u32 (2 ^ (0 + 4) * u32 (5 + 1)) = 96 := by decide
  rw [slicesInside_iff_of_sends hhandle hsends, hlen, hoffset]
  rintro ⟨hle, -⟩
  revert hle
  decide

end MbedCloud.Coap

