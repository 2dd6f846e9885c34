import MbedCloud.Coap.Blockwise

/-!
# The CoAP protocol

The functions of `sn_coap_protocol.c` that the application calls: `protocolBuild`,
`protocolParse` and `protocolExec`, and the configuration of the handle. The calls that change
the resending list are `deleteRetransmission` and `clearRetransmissionBuffer` of the handle.

A call that can dereference `NULL`, read outside a packet, or never return is an `Exec`; the
fuel is that of `snCoapParser` and of the rescan loop of `sn_coap_protocol_exec`.
-/

namespace MbedCloud.Coap

open Lib MbedCloud.Coap.Parser

/-! ## Building -/

/-- The options list of `sn_coap_protocol_copy_header`; the sizes and their flags are not
copied. -/
def copyOptionsList (env : Env) (o : OptionsList) : Option OptionsList := do
  let (proxyUriPtr, proxyUriLen) ←
    copyString env .copyProxyUri (.option .proxyUri) o.proxyUriPtr o.proxyUriLen
  let (etagPtr, etagLen) ← copyString env .copyEtag (.option .etag) o.etagPtr o.etagLen
  let (uriHostPtr, uriHostLen) ←
    copyString env .copyUriHost (.option .uriHost) o.uriHostPtr o.uriHostLen
  let (locationPathPtr, locationPathLen) ←
    copyString env .copyLocationPath (.option .locationPath) o.locationPathPtr o.locationPathLen
  let (locationQueryPtr, locationQueryLen) ←
    copyString env .copyLocationQuery (.option .locationQuery) o.locationQueryPtr o.locationQueryLen
  let (uriQueryPtr, uriQueryLen) ←
    copyString env .copyUriQuery (.option .uriQuery) o.uriQueryPtr o.uriQueryLen
  some
    { maxAge := o.maxAge, uriPort := o.uriPort, observe := o.observe, accept := o.accept
      block1 := o.block1, block2 := o.block2, proxyUriPtr, proxyUriLen, etagPtr, etagLen, uriHostPtr
      uriHostLen, locationPathPtr, locationPathLen, locationQueryPtr, locationQueryLen, uriQueryPtr
      uriQueryLen }

/-- `sn_coap_protocol_copy_header`. -/
def copyHeader (env : Env) (m : Hdr) : Option Hdr :=
  if env.alloc .copyMessage then do
    let (uriPathPtr, uriPathLen) ←
      copyString env .copyUriPath (.option .uriPath) m.uriPathPtr m.uriPathLen
    let (tokenPtr, tokenLen) ← copyString env .copyToken .token m.tokenPtr m.tokenLen
    let optionsListPtr ← match m.optionsListPtr with
      | none => some none
      | some o => if env.alloc .copyOptions then (copyOptionsList env o).map some else none
    some
      { coapStatus := m.coapStatus, msgType := m.msgType, msgCode := m.msgCode, msgId := m.msgId
        contentFormat := m.contentFormat, uriPathPtr, uriPathLen, tokenPtr, tokenLen, optionsListPtr }
  else none

def inBlocks (h : Handle) (payloadLen : Nat) : Bool := decide (payloadLen > h.blockDataSize) && decide (h.blockDataSize > 0)

/-- `prepare_blockwise_message`. -/
def prepareBlockwiseMessage (env : Env) (h : Handle) (m : Hdr) : Hdr × Int :=
  if inBlocks h m.payloadLen then
    match allocOptions env .prepareOptions m with
    | none => (m, -2)
    | some m =>
      let block : Nat := 8 + convertBlockSize h.blockDataSize
      if m.msgCode < codeResponseCreated then
        (m.modifyOptions fun o => { o with block1 := block, useSize1 := true, useSize2 := false, size1 := m.payloadLen }, 0)
      else (m.modifyOptions fun o => { o with block2 := block, useSize1 := false, useSize2 := true, size2 := m.payloadLen }, 0)
  else (m, 0)

def giveMessageId (h : Handle) (m : Hdr) : Handle × Hdr :=
  if m.msgType ≠ .acknowledgement ∧ m.msgType ≠ .reset ∧ m.msgId = 0 then (h.takeMessageId, { m with msgId := h.messageId })
  else (h, m)

/-- A confirmable message is stored for resending; `none` when that fails. -/
def buildResending (env : Env) (h : Handle) (dst : Address) (m : Hdr) (packet : Bytes) :
    Option Handle :=
  if m.msgType = .confirmable then
    sendMsgStore env h dst packet (calculateNewResendTime h.systemTime h.resendingIntervall 0 (env.random h.serial 0))
  else some h

/-- An acknowledgement is kept with the duplication info of its message; `none` when that
fails. -/
def buildDuplication (env : Env) (h : Handle) (dst : Address) (m : Hdr) (packet : Bytes) :
    Option Handle :=
  if m.msgType = .acknowledgement ∧ h.duplicationBufferSize ≠ 0 then
    match duplicationInfoSearch h dst m.msgId with
    | none => some h
    | some info =>
      if info.packet.isSome then some h
      else if env.alloc .duplicationPacket then
        some { h with
            duplicationMsgs := replaceFirst (·.isFor dst m.msgId) (fun d => { d with packet := some packet }) h.duplicationMsgs }
      else none
  else some h

/-- The message whose payload is sent in blocks is stored with the whole payload. -/
def storeBlocks (env : Env) (h : Handle) (m : Hdr) (payloadLen : Nat) (ret : Int) :
    Exec Fault (Int × Handle) :=
  if env.alloc .blockwiseMsg then
    match copyHeader env m with
    | none => .ok (-2, h)
    | some copy =>
      if env.alloc .blockwisePayload then
        match m.payloadPtr with
        | none => .error (.fail .null)
        | some s =>
          let payload := bytesAt (load env.heap .payload s) 0 payloadLen
          let copy := { copy with payloadLen := payloadLen, payloadPtr := some payload }
          .ok (ret, { h with sentMsgs := h.sentMsgs ++ [⟨h.systemTime, some copy⟩] })
      else .ok (ret, h)
  else .ok (ret, h)

def storeGet (env : Env) (h : Handle) (m : Hdr) (ret : Int) : Int × Handle :=
  if env.alloc .blockwiseMsg then
    match copyHeader env m with
    | none => (-2, h)
    | some copy => (ret, { h with sentMsgs := h.sentMsgs ++ [⟨h.systemTime, some copy⟩] })
  else (ret, h)

def buildStore (env : Env) (h : Handle) (m : Hdr) (original : Nat) (ret : Int) :
    Exec Fault (Int × Handle) :=
  if inBlocks h original then storeBlocks env h m original ret
  else if m.msgCode = codeRequestGet then .ok (storeGet env h m ret)
  else .ok (ret, h)

/-- The message that is built: a payload that is sent in blocks is cut to the first one. -/
def firstBlock (h : Handle) (m : Hdr) : Hdr := if inBlocks h m.payloadLen then { m with payloadLen := h.blockDataSize } else m

/-- `sn_coap_protocol_build` from the builder on. As many bytes are stored as the builder
returns. -/
def buildMsg (env : Env) (h : Handle) (dst : Address) (m : Hdr) (original : Nat) :
    Exec Fault (Int × Handle) :=
  let built := snCoapBuilder2 env.heap m h.blockDataSize
  let ret := builderReturn built
  if ret < 0 then .ok (ret, h)
  else
    let packet := (built.getD []).take ret.toNat
    match buildResending env h dst m packet with
    | none => .ok (-4, h)
    | some h =>
      match buildDuplication env h dst m packet with
      | none => .ok (-4, h)
      | some h => buildStore env h m original ret

/-- `sn_coap_protocol_build`: the result, the message of the caller after the call, and the
handle. The length of a payload that is sent in blocks becomes that of the first block. -/
def protocolBuild (env : Env) (h : Handle) (dst : Address) (m : Hdr) :
    Exec Fault (Int × Hdr × Handle) := do
  let (h, m) := giveMessageId h m
  let original := if inBlocks h m.payloadLen then m.payloadLen else 0
  let (ret, h') ← buildMsg env h dst (firstBlock h m) original
  pure (ret, firstBlock h m, h')

/-! ## Parsing -/

/-- The message code classes that are answered with a reset. -/
def reservedClass (msgCode : Nat) : Bool := decide (msgCode / 32 = 1) || decide (msgCode / 32 = 6) || decide (msgCode / 32 = 7)

/-- Room for a new entry: the oldest one is removed when the buffer is full. -/
def duplicationInfoMakeRoom (h : Handle) : Exec Fault Handle :=
  if h.countDuplicationMsgs ≥ h.duplicationBufferSize then
    match h.duplicationMsgs with
    | [] => .error (.fail .null)
    | d :: _ => .ok (duplicationInfoRemove h d.address d.msgId)
  else .ok h

/-- The duplicate detection: whether the message is a duplicate, and the handle. The answer to
a duplicate is sent again. -/
def detectDuplicate (env : Env) (h : Handle) (src : Address) (m : Hdr) :
    Exec Fault (Bool × Handle) :=
  if (m.msgType = .confirmable ∨ m.msgType = .nonConfirmable) ∧ h.duplicationBufferSize ≠ 0 then
    match duplicationInfoSearch h src m.msgId with
    | some info =>
      .ok (true, match info.packet with
        | none => h
        | some packet => h.emit (.tx (some packet) packet.length info.address))
    | none => do
      let h ← duplicationInfoMakeRoom h
      pure (false, duplicationInfoStore env h src m.msgId)
  else .ok (false, h)

/-- The stored message that a received one without block options answers; an entry without a
message is dereferenced. -/
def answeredMsg (h : Handle) (m : Hdr) : Exec Fault (Option Hdr) := previousMsg m.msgId h.sentMsgs

/-- The answered message is removed from the list if it is not a notification. -/
def removeAnswered (h : Handle) (m : Hdr) : Exec Fault Handle := do
  match ← answeredMsg h m with
  | none => pure h
  | some stored =>
    if stored.options.observe ≠ observeNone then pure h
    else pure { h with sentMsgs := h.sentMsgs.eraseP (sentMsgFor m.msgId) }

/-- The block part of `sn_coap_protocol_parse`. -/
def parseBlocks (env : Env) (h : Handle) (src : Address) (m : Hdr) :
    Exec Fault (Option Hdr × Handle) :=
  if m.optionsListPtr.isSome ∧ (m.options.block1 ≠ blockNone ∨ m.options.block2 ≠ blockNone) then
    handleBlockwiseMessage env h src m
  else do
    let h ← removeAnswered h m
    pure (some m, h)

/-- An acknowledgement or reset ends the resending of its message. -/
def stopResending (h : Handle) (src : Address) (m : Hdr) : Handle :=
  if (m.msgType = .acknowledgement ∨ m.msgType = .reset) ∧ h.countResentMsgs > 0 then sendMsgRemove h src m.msgId
  else h

/-- `sn_coap_protocol_parse` after the parser. -/
def parseMsg (env : Env) (h : Handle) (src : Address) (m : Hdr) (version : Nat) :
    Exec Fault (Option Hdr × Handle) :=
  if m.coapStatus = .parserErrorInHeader then .ok (none, sendRst h m.msgId src)
  else if headerValidityCheck m version = false then .ok (none, if reservedClass m.msgCode then sendRst h m.msgId src else h)
  else if m.msgType = .confirmable ∧ m.msgCode = codeEmpty then .ok (none, sendRst h m.msgId src)
  else do
    let (duplicate, h) ← detectDuplicate env h src m
    if duplicate then pure (some { m with coapStatus := .parserDuplicatedMsg }, h)
    else do
      match ← parseBlocks env h src m with
      | (none, h) => pure (none, h)
      | (some m, h) => pure (some m, stopResending h src m)

/-- `sn_coap_protocol_parse`, with `tail` behind the packet. -/
def protocolParse (fuel : Nat) (env : Env) (h : Handle) (src : Address) (packet : Bytes)
    (tail : Nat → Option UInt8) : Exec Fault (Option Hdr × Handle) := do
  match ← snCoapParser fuel (packetMem packet tail) packet.length with
  | none => pure (none, h)
  | some (m, version) => parseMsg env h src m version

/-! ## Execution -/

def SendMsg.due (now : Nat) (m : SendMsg) : Bool := decide (m.resendingTime ≤ now)

/-- A message after its last resending: it is removed, and the application is told with the
parsed message. -/
def sendingFailed (fuel : Nat) (env : Env) (h : Handle) (m : SendMsg) : Exec Fault Handle :=
  if h.rxCallback then do
    let parsed ← snCoapParser fuel (packetMem m.packet env.tail) m.packet.length
    if parsed.isSome && env.alloc (.failedMessage m.serial) then pure (h.emit (.sendingFailed m.serial))
    else pure h
  else .ok h

def resent (env : Env) (h : Handle) (now : Nat) (m : SendMsg) : SendMsg :=
  { m with
    resendingCounter := u8 (m.resendingCounter + 1)
    resendingTime := calculateNewResendTime now h.resendingIntervall (u8 (m.resendingCounter + 1))
      (env.random m.serial (u8 (m.resendingCounter + 1))) }

/-- One scan of the resending list, from the label `rescan` to the first message that is due. -/
def execStep (fuel : Nat) (env : Env) (now : Nat) (h : Handle) : Exec Fault (Next Handle Handle) :=
  match h.resentMsgs.find? (·.due now) with
  | none => .ok (.done h)
  | some m =>
    if u8 (m.resendingCounter + 1) > h.resendingCount then do
      let h ← sendingFailed fuel env (sendMsgRemoveFirst h (·.due now)) m
      pure (.more h)
    else
      let h := h.emit (.resend m.serial)
      .ok (.more { h with resentMsgs := replaceFirst (·.due now) (resent env h now) h.resentMsgs })

/-- `sn_coap_protocol_exec`. -/
def protocolExec (fuel : Nat) (env : Env) (h : Handle) (now : Nat) : Exec Fault Handle :=
  let h := { h with systemTime := now }
  let h := duplicationInfoRemoveOldOnes (blockwiseRemoveOldData h)
  loop (execStep fuel env now) fuel h

end MbedCloud.Coap

