import MbedCloud.Lib.Replace
import MbedCloud.Coap.Handle
import MbedCloud.Coap.Parser

/-!
# Blockwise messages

`sn_coap_handle_blockwise_message` of `sn_coap_protocol.c`, in its four branches: the next
block of a request is sent when its last block is acknowledged (`sendNextBlock1`), a block of
a request is received (`receiveBlock1`) or of a response (`receiveBlock2`), and a block of a
response is sent on request (`sendBlock2`). Each gives the message that is returned to the
caller, `none` for `NULL`, and the handle.

A block option is read as a natural number: the functions are called when it is present.
-/

namespace MbedCloud.Coap

open Lib

/-- The largest payload that is accepted in blocks, `SN_COAP_MAX_INCOMING_BLOCK_MESSAGE_SIZE`. -/
def maxIncomingBlockMessageSize : Nat := 65535

/-- `sn_coap_convert_block_size`. -/
def convertBlockSize (blockSize : Nat) : Nat :=
  if blockSize = 16 then 0
  else if blockSize = 32 then 1
  else if blockSize = 64 then 2
  else if blockSize = 128 then 3
  else if blockSize = 256 then 4
  else if blockSize = 512 then 5
  else if blockSize = 1024 then 6
  else 0

/-! ## The parts of a block option -/

def blockNumberOf (block : Nat) : Nat := block / 16

/-- The bit `0x08`. -/
def moreOf (block : Nat) : Bool := decide (block / 8 % 2 = 1)

def szxOf (block : Nat) : Nat := block % 8

def blockSizeOf (block : Nat) : Nat := 2 ^ (szxOf block + 4)

/-- `block |= 0x08`. -/
def setMore (block : Nat) : Nat := if moreOf block then block else block + 8

/-- A pointer into a string, `off` bytes further. -/
def ptrAdd (ptr : Option Bytes) (off : Nat) : Option Bytes :=
  match ptr with
  | some s => some (s.drop off)
  | none => if off = 0 then none else some []

/-! ## Sending blocks -/

/-- The payload of a block: from `block_size * block_number`, up to the end of the payload in
the last block. The arithmetic is that of `uint32_t`, the length is a `uint16_t`. -/
def slice (msg : Hdr) (last : Bool) (blockNumber blockSize : Nat) : Hdr :=
  { msg with
    payloadLen := if last then u16 (sub32 msg.payloadLen (u32 (blockSize * blockNumber))) else blockSize
    payloadPtr := ptrAdd msg.payloadPtr (u32 (blockSize * blockNumber)) }

/-- The message for the block after the acknowledged one. -/
def nextBlock1 (msg : Hdr) (block1 : Nat) : Hdr :=
  let blockNumber := u32 (blockNumberOf block1 + 1)
  let last := decide (u32 (blockSizeOf block1 * u32 (blockNumber + 1)) > msg.payloadLen)
  let option := u32 (blockNumber * 16) + szxOf block1
  let msg := msg.modifyOptions fun o => { o with block1 := if last then option else setMore option, block2 := blockNone }
  slice msg last blockNumber (blockSizeOf block1)

/-- The message for a requested block. -/
def answerBlock2 (msg : Hdr) (block2 msgId : Nat) : Hdr :=
  let last := decide (u32 (blockSizeOf block2 * u32 (blockNumberOf block2 + 1)) ≥ msg.payloadLen)
  let msg := { msg with msgId := msgId }.modifyOptions fun o =>
    { o with block1 := blockNone, block2 := if last then block2 else setMore block2 }
  slice msg last (blockNumberOf block2) (blockSizeOf block2)

/-- The options list that a stored message gets when it has none. -/
def allocOptions (env : Env) (site : Site) (msg : Hdr) : Option Hdr :=
  if msg.optionsListPtr.isSome || env.alloc site then some msg.allocOptions else none

def buildAndSend (env : Env) (h : Handle) (msg : Hdr) (dst : Address) : Handle :=
  h.emit (.tx (snCoapBuilder2 env.heap msg h.blockDataSize) (calcNeededPacketDataSize2 env.heap msg h.blockDataSize) dst)

/-- The first stored message whose ID is that of the received one; an entry without a
message is passed over. -/
def sentMsgFor (msgId : Nat) (b : BlockwiseMsg) : Bool := b.coapMsgPtr.any fun msg => msg.msgId = msgId

def Handle.replaceSent (h : Handle) (p : BlockwiseMsg → Bool) (msg : Option Hdr) : Handle :=
  { h with sentMsgs := replaceFirst p (fun b => { b with coapMsgPtr := msg }) h.sentMsgs }

/-- An acknowledgement with a Block1 option: the next block is sent if the more bit is set. -/
def sendNextBlock1 (env : Env) (h : Handle) (src : Address) (m : Hdr) : Option Hdr × Handle :=
  let block1 := m.options.block1.toNat
  if moreOf block1 then
    match (h.sentMsgs.find? (sentMsgFor m.msgId)).bind (·.coapMsgPtr) with
    | none => (some m, h)
    | some stored =>
      match allocOptions env .nextOptions stored with
      | none => (none, h)
      | some stored =>
        if env.alloc .nextPacket then
          let next := { nextBlock1 stored block1 with msgId := h.messageId }
          let h := h.takeMessageId
          let h := h.emit (.block next (u32 (blockSizeOf block1 * u32 (blockNumberOf block1 + 1))))
          let h := buildAndSend env h next src
          let kept := { next with payloadLen := stored.payloadLen, payloadPtr := stored.payloadPtr }
          (some { m with coapStatus := .parserBlockwiseAck }, h.replaceSent (sentMsgFor m.msgId) (some kept))
        else (none, h.replaceSent (sentMsgFor m.msgId) none)
  else (some { m with coapStatus := .ok }, h)

/-- The token of the request goes into the notification that answers it. -/
def answerToken (env : Env) (m msg : Hdr) : Hdr :=
  if msg.options.observe ≠ observeNone ∧ m.tokenLen ≠ 0 ∧ msg.tokenPtr.isSome then
    if env.alloc .nextToken then
      { msg with
        tokenPtr := some (bytesAt (load env.heap .token (m.tokenPtr.getD [])) 0 m.tokenLen)
        tokenLen := m.tokenLen }
    else { msg with tokenPtr := none }
  else msg

/-- A request with a Block2 option: the first stored message is the one that is sent. -/
def sendBlock2 (env : Env) (h : Handle) (src : Address) (m : Hdr) :
    Exec Fault (Option Hdr × Handle) :=
  match h.sentMsgs with
  | [] => .ok (some m, h)
  | ⟨_, none⟩ :: _ => .error (.fail .null)
  | ⟨timestamp, some stored⟩ :: others =>
    let block2 := m.options.block2.toNat
    match allocOptions env .nextOptions stored with
    | none => .ok (none, h)
    | some stored =>
      let answer := answerToken env m (answerBlock2 stored block2 m.msgId)
      if env.alloc .nextPacket then
        let h := h.emit (.block answer (u32 (blockSizeOf block2 * blockNumberOf block2)))
        let h := buildAndSend env h answer src
        let kept := { answer with payloadLen := stored.payloadLen, payloadPtr := stored.payloadPtr }
        let last := decide (u32 (blockSizeOf block2 * u32 (blockNumberOf block2 + 1)) ≥ stored.payloadLen)
        .ok (some { m with coapStatus := .parserBlockwiseAck },
          { h with sentMsgs := if last then others else ⟨timestamp, some kept⟩ :: others })
      else .ok (none, { h with sentMsgs := ⟨timestamp, none⟩ :: others })

/-! ## Receiving blocks -/

/-- The code of the acknowledgement for a block. -/
def ackCode (m : Hdr) (blocksInOrder : Bool) : Nat :=
  if !blocksInOrder then codeResponseRequestEntityIncomplete
  else if m.msgCode = codeRequestGet then codeResponseContent
  else if m.msgCode = codeRequestPost then codeResponseContinue
  else if m.msgCode = codeRequestPut then codeResponseContinue
  else if m.msgCode = codeRequestDelete then codeResponseDeleted
  else codeEmpty

/-- Whether the blocks of the request are larger than the handle takes. -/
def blockTooLarge (h : Handle) (m : Hdr) : Bool :=
  decide (m.options.size1 ≤ maxIncomingBlockMessageSize) &&
    decide (blockSizeOf m.options.block1.toNat > h.blockDataSize)

/-- The acknowledgement for a block that is not the last one, without the token. -/
def ackBlock1 (h : Handle) (m : Hdr) (blocksInOrder : Bool) : Hdr :=
  let block1 := m.options.block1.toNat
  let ack : Hdr := { msgCode := ackCode m blocksInOrder, msgId := m.msgId, optionsListPtr := some {} }
  if m.options.size1 > maxIncomingBlockMessageSize then { ack with msgCode := codeResponseRequestEntityTooLarge }
  else
    let ack := { ack with msgType := .acknowledgement }
    let ack := if blockSizeOf block1 > h.blockDataSize then
        { ack with msgCode := codeResponseRequestEntityTooLarge }.modifyOptions fun o => { o with size1 := h.blockDataSize }
      else ack
    ack.modifyOptions fun o =>
      { o with block1 :=
          if szxOf block1 > convertBlockSize h.blockDataSize then (block1 - szxOf block1 + convertBlockSize h.blockDataSize : Nat)
          else block1 }

/-- The token of the request in the acknowledgement; it is left out when its copy cannot be
allocated. -/
def ackToken (env : Env) (m ack : Hdr) : Hdr :=
  if env.alloc .ackToken then
    { ack with
      tokenPtr := some (bytesAt (load env.heap .token (m.tokenPtr.getD [])) 0 m.tokenLen)
      tokenLen := m.tokenLen }
  else ack

/-- A block of a request that is not the last one. -/
def receiveMore (env : Env) (h : Handle) (src : Address) (m : Hdr) (blocksInOrder : Bool) :
    Option Hdr × Handle :=
  if env.alloc .ackMessage && env.alloc .ackOptions then
    let ack := ackToken env m (ackBlock1 h m blocksInOrder)
    let h := if blockTooLarge h m then blockwisePayloadRemoveOldest h else h
    if env.alloc .ackPacket then (some { m with coapStatus := .parserBlockwiseMsgReceiving }, buildAndSend env h ack src)
    else (none, h)
  else (none, h)

/-- The last block of a request: the stored payloads of the source become the payload. -/
def receiveLast (env : Env) (h : Handle) (src : Address) (m : Hdr) : Option Hdr × Handle :=
  let wholePayloadLen := blockwisePayloadsGetLen h.receivedPayloads src
  if !env.alloc .wholePayload || decide (wholePayloadLen > 65535) then (none, h)
  else
    let (whole, rest) := gather src h.receivedPayloads
    (some { m with
        payloadPtr := some whole
        payloadLen := wholePayloadLen
        coapStatus := .parserBlockwiseMsgReceived },
      { h with receivedPayloads := rest })

def receiveBlock1 (env : Env) (h : Handle) (src : Address) (m : Hdr) : Option Hdr × Handle :=
  let m := if m.payloadLen > h.blockDataSize then { m with payloadLen := h.blockDataSize } else m
  let blockNumber := blockNumberOf m.options.block1.toNat
  let blocksInOrder := decide (blockNumber = 0) ||
    blockwisePayloadCompareBlockNumber h.receivedPayloads src blockNumber
  let h := blockwisePayloadStore env h src m.payloadLen m.payloadPtr blockNumber
  if moreOf m.options.block1.toNat then receiveMore env h src m blocksInOrder
  else receiveLast env h src m

/-- A copy of a string field: the pointer and the length; `none` when it cannot be
allocated. -/
def copyString (env : Env) (site : Site) (r : Region) (ptr : Option Bytes) (len : Nat) :
    Option (Option Bytes × Nat) :=
  match ptr with
  | none => some (none, 0)
  | some s =>
    if env.alloc site then some (some (bytesAt (load env.heap r s) 0 len), len) else none

/-- The message that asks for the next block of a response. -/
def askBlock2 (env : Env) (h : Handle) (m previous : Hdr) : Option Hdr :=
  let block2 := m.options.block2.toNat
  let ask : Hdr :=
    { msgId := h.messageId
      optionsListPtr := some { block2 := (u32 (u32 (blockNumberOf block2 + 1) * 16) + szxOf block2 : Nat) } }
  if m.msgCode = codeResponseContent then
    (copyString env .ackUriPath (.option .uriPath) previous.uriPathPtr previous.uriPathLen).bind
      fun (uriPathPtr, uriPathLen) =>
        (copyString env .ackToken .token previous.tokenPtr previous.tokenLen).map
          fun (tokenPtr, tokenLen) => { ask with msgCode := codeRequestGet, uriPathPtr, uriPathLen, tokenPtr, tokenLen }
  else some ask

/-- The walk to the message that a response is for; an entry without a message is
dereferenced. -/
def previousMsg (msgId : Nat) : List BlockwiseMsg → Exec Fault (Option Hdr)
  | [] => .ok none
  | b :: bs =>
    match b.coapMsgPtr with
    | none => .error (.fail .null)
    | some msg => if msg.msgId = msgId then .ok (some msg) else previousMsg msgId bs

/-- The request for the next block replaces the one that has been answered, is sent, and is
stored for resending. -/
def askNext (env : Env) (h : Handle) (src : Address) (m ask : Hdr) : Option Hdr × Handle :=
  let h := { h with sentMsgs := h.sentMsgs.eraseP (sentMsgFor m.msgId) }
  let packet := snCoapBuilder2 env.heap ask h.blockDataSize
  if env.alloc .ackPacket && decide (0 ≤ builderReturn packet) && env.alloc .ackStored then
    let h := { h with sentMsgs := h.sentMsgs ++ [⟨h.systemTime, some ask⟩] }
    let h := buildAndSend env h ask src
    let resendTime := calculateNewResendTime h.systemTime h.resendingIntervall 0 (env.random h.serial 0)
    let packet := (packet.getD []).take (calcNeededPacketDataSize2 env.heap ask h.blockDataSize)
    (some { m with coapStatus := .parserBlockwiseMsgReceiving }, (sendMsgStore env h src packet resendTime).getD h)
  else (none, h)

def receiveBlock2 (env : Env) (h : Handle) (src : Address) (m : Hdr) :
    Exec Fault (Option Hdr × Handle) :=
  let block2 := m.options.block2.toNat
  if h.internalBlock2RespHandling then
    let h := blockwisePayloadStore env h src m.payloadLen m.payloadPtr (blockNumberOf block2)
    if moreOf block2 then do
      match ← previousMsg m.msgId h.sentMsgs with
      | none => pure (none, h)
      | some previous =>
        if env.alloc .ackMessage && env.alloc .ackOptions then
          match askBlock2 env h m previous with
          | none => pure (none, h.takeMessageId)
          | some ask => pure (askNext env h.takeMessageId src m ask)
        else pure (none, h)
    else
      let wholePayloadLen := u16 (blockwisePayloadsGetLen h.receivedPayloads src)
      if env.alloc .wholePayload then
        let (whole, rest) := gather src h.receivedPayloads
        .ok (some { m with
            payloadPtr := some whole
            payloadLen := wholePayloadLen
            coapStatus := .parserBlockwiseMsgReceived },
          { h with receivedPayloads := rest })
      else .ok (none, h)
  else .ok (some m, h)

/-- `sn_coap_handle_blockwise_message`. -/
def handleBlockwiseMessage (env : Env) (h : Handle) (src : Address) (m : Hdr) :
    Exec Fault (Option Hdr × Handle) :=
  if m.options.block1 ≠ blockNone then
    if m.msgCode > codeRequestDelete then .ok (sendNextBlock1 env h src m)
    else .ok (receiveBlock1 env h src m)
  else if m.msgCode > codeRequestDelete then receiveBlock2 env h src m
  else sendBlock2 env h src m

end MbedCloud.Coap

