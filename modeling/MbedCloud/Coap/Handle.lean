import Mathlib.Algebra.Order.Ring.Nat
import MbedCloud.Coap.Builder

/-!
# The protocol handle

The state of `sn_coap_protocol.c`: `struct coap_s` with its four linked lists, and the list
operations. A list is in the order of the linked list: new entries go to the end. The static
variable `message_id` is a field of the handle.

Three fields are not part of the program: `log` holds the calls of the callbacks, `serial`
numbers the messages stored for resending, and `SendMsg.serial` is the number of a message.

Everything a call takes from outside is in its `Env`: which allocations succeed, the memory
behind the strings of messages, and random numbers.
-/

namespace MbedCloud.Coap

/-! ## Types -/

/-- `sn_nsdl_addr_s`. -/
structure Address where
  addr : Bytes
  port : Nat
  deriving DecidableEq

/-- The comparison of a source address with a stored one: `memcmp` over the length of the
source address, and the ports. A stored address that is shorter does not match. -/
def Address.same (src stored : Address) : Bool :=
  decide (stored.addr.take src.addr.length = src.addr) && decide (stored.port = src.port)

/-- `coap_send_msg_s` with its `sn_nsdl_transmit_s`. -/
structure SendMsg where
  serial : Nat
  resendingCounter : Nat
  resendingTime : Nat
  packet : Bytes
  dst : Address
  deriving DecidableEq

/-- `coap_duplication_info_s`. -/
structure DuplicationInfo where
  timestamp : Nat
  msgId : Nat
  packet : Option Bytes
  address : Address
  deriving DecidableEq

/-- `coap_blockwise_msg_s`. -/
structure BlockwiseMsg where
  timestamp : Nat
  coapMsgPtr : Option Hdr
  deriving DecidableEq

/-- `coap_blockwise_payload_s`; the payload has `payload_len` bytes. -/
structure BlockwisePayload where
  timestamp : Nat
  address : Address
  blockNumber : Nat
  payload : Bytes
  deriving DecidableEq

/-- What the library does to the outside. -/
inductive Event where
  /-- `sn_coap_tx_callback` for a packet of the library. -/
  | tx (packet : Option Bytes) (len : Nat) (dst : Address)
  /-- The message that the builder is given for the next block, and where its payload starts
  in the stored payload. -/
  | block (msg : Hdr) (offset : Nat)
  /-- `sn_coap_tx_callback` for a stored message. -/
  | resend (serial : Nat)
  /-- `sn_coap_rx_callback` with `COAP_STATUS_BUILDER_MESSAGE_SENDING_FAILED`. -/
  | sendingFailed (serial : Nat)
  deriving DecidableEq

/-- `struct coap_s`. -/
structure Handle where
  resentMsgs : List SendMsg := []
  countResentMsgs : Nat := 0
  duplicationMsgs : List DuplicationInfo := []
  countDuplicationMsgs : Nat := 0
  sentMsgs : List BlockwiseMsg := []
  receivedPayloads : List BlockwisePayload := []
  systemTime : Nat := 0
  blockDataSize : Nat := 0
  resendingQueueMsgs : Nat := 2
  resendingQueueBytes : Nat := 0
  resendingCount : Nat := 3
  resendingIntervall : Nat := 10
  duplicationBufferSize : Nat := 0
  internalBlock2RespHandling : Bool := true
  rxCallback : Bool := true
  messageId : Nat := 1
  serial : Nat := 0
  log : List Event := []
  deriving DecidableEq

/-- The calls of `malloc`. -/
inductive Site where
  | sendMsg | sendMsgData
  | duplicationInfo | duplicationAddress | duplicationAddrPtr | duplicationPacket
  | blockwiseMsg | blockwisePayload
  | copyMessage | copyUriPath | copyToken | copyOptions | copyProxyUri | copyEtag | copyUriHost
  | copyLocationPath | copyLocationQuery | copyUriQuery
  | prepareOptions
  | payloadStruct | payloadData | payloadAddr
  | ackMessage | ackOptions | ackToken | ackUriPath | ackPacket | ackStored
  | wholePayload
  | nextOptions | nextToken | nextPacket
  | failedMessage (serial : Nat)
  deriving DecidableEq

structure Env where
  alloc : Site → Bool
  heap : Heap
  /-- `randLIB_get_random_in_range`, for a stored message and its counter. -/
  random : Nat → Nat → Nat
  /-- The memory behind a stored packet. -/
  tail : Nat → Option UInt8

/-- All allocations succeed, and the memory behind all strings is zero. -/
def calm : Env := ⟨fun _ => true, fun _ _ => 0, fun _ _ => 100, fun _ => some 0⟩

def Handle.emit (h : Handle) (e : Event) : Handle := { h with log := h.log ++ [e] }

/-- The next message id: zero is left out. -/
def nextMessageId (messageId : Nat) : Nat := if u16 (messageId + 1) = 0 then 1 else u16 (messageId + 1)

/-- A use of `message_id`. -/
def Handle.takeMessageId (h : Handle) : Handle := { h with messageId := nextMessageId h.messageId }

/-! ## Resending -/

def packetMsgId (packet : Bytes) : Nat := u16 ((packet.getD 2 0).toNat * 256 + (packet.getD 3 0).toNat)

def SendMsg.isFor (m : SendMsg) (src : Address) (msgId : Nat) : Bool := decide (packetMsgId m.packet = msgId) && src.same m.dst

/-- `sn_coap_calculate_new_resend_time`. -/
def calculateNewResendTime (currentTime interval counter randomFactor : Nat) : Nat :=
  u32 (currentTime + u32 (u32 (interval * 2 ^ counter) * randomFactor) / 100)

/-- `sn_coap_count_linked_list_size`. -/
def countLinkedListSize (l : List SendMsg) : Nat := l.foldl (fun totalSize m => u16 (totalSize + m.packet.length)) 0

/-- `sn_coap_protocol_linked_list_send_msg_store`; `none` is its result 0. -/
def sendMsgStore (env : Env) (h : Handle) (dst : Address) (packet : Bytes)
    (sendingTime : Nat) : Option Handle :=
  if (h.resendingQueueMsgs = 0 ∧ h.resendingQueueBytes = 0) ∨ h.resendingCount = 0 then some h
  else if h.resendingQueueMsgs > 0 ∧ h.countResentMsgs ≥ h.resendingQueueMsgs then none
  else if h.resendingQueueBytes > 0 ∧ countLinkedListSize h.resentMsgs + packet.length > h.resendingQueueBytes then none
  else if env.alloc .sendMsg && env.alloc .sendMsgData then
    some { h with
      resentMsgs := h.resentMsgs ++ [⟨h.serial, 0, sendingTime, packet, dst⟩]
      countResentMsgs := u16 (h.countResentMsgs + 1)
      serial := h.serial + 1 }
  else none

/-- The removal of the first message with a property, with the counter. -/
def sendMsgRemoveFirst (h : Handle) (p : SendMsg → Bool) : Handle :=
  if h.resentMsgs.any p then
    { h with
      resentMsgs := h.resentMsgs.eraseP p
      countResentMsgs := sub16 h.countResentMsgs 1 }
  else h

/-- `sn_coap_protocol_linked_list_send_msg_remove`. -/
def sendMsgRemove (h : Handle) (src : Address) (msgId : Nat) : Handle := sendMsgRemoveFirst h (·.isFor src msgId)

/-- `sn_coap_protocol_delete_retransmission`. -/
def deleteRetransmission (h : Handle) (msgId : Nat) : Handle × Int :=
  let p := fun m : SendMsg => decide (packetMsgId m.packet = msgId)
  (sendMsgRemoveFirst h p, if h.resentMsgs.any p then 0 else -2)

/-- `sn_coap_protocol_clear_retransmission_buffer`. -/
def clearRetransmissionBuffer (h : Handle) : Handle :=
  { h with
    resentMsgs := []
    countResentMsgs := h.resentMsgs.foldl (fun count _ => sub16 count 1) h.countResentMsgs }

/-- `sn_coap_protocol_send_rst`. -/
def sendRst (h : Handle) (msgId : Nat) (dst : Address) : Handle :=
  h.emit (.tx (some [0x70, 0x00, UInt8.ofNat (msgId / 256), UInt8.ofNat msgId]) 4 dst)

/-! ## Duplicates -/

def duplicationMaxTimeMsgsStored : Nat := 60

/-- The comparison of `sn_coap_protocol_linked_list_duplication_info_search`. -/
def DuplicationInfo.isFor (d : DuplicationInfo) (src : Address) (msgId : Nat) : Bool :=
  decide (d.msgId = msgId) && src.same d.address

/-- `sn_coap_protocol_linked_list_duplication_info_search`. -/
def duplicationInfoSearch (h : Handle) (src : Address) (msgId : Nat) : Option DuplicationInfo :=
  h.duplicationMsgs.find? (·.isFor src msgId)

/-- `sn_coap_protocol_linked_list_duplication_info_store`. -/
def duplicationInfoStore (env : Env) (h : Handle) (src : Address) (msgId : Nat) : Handle :=
  if env.alloc .duplicationInfo && env.alloc .duplicationAddress && env.alloc .duplicationAddrPtr then
    { h with
      duplicationMsgs := h.duplicationMsgs ++ [⟨h.systemTime, msgId, none, src⟩]
      countDuplicationMsgs := u16 (h.countDuplicationMsgs + 1) }
  else h

/-- `sn_coap_protocol_linked_list_duplication_info_remove`. Here `memcmp` runs over the length
of the address in the list. -/
def duplicationInfoRemove (h : Handle) (address : Address) (msgId : Nat) : Handle :=
  let p := fun d : DuplicationInfo => d.address.same address && decide (d.msgId = msgId)
  if h.duplicationMsgs.any p then
    { h with
      duplicationMsgs := h.duplicationMsgs.eraseP p
      countDuplicationMsgs := sub16 h.countDuplicationMsgs 1 }
  else h

/-- The age of an entry, in unsigned arithmetic. -/
def age (h : Handle) (timestamp : Nat) : Nat := sub32 h.systemTime timestamp

/-- `sn_coap_protocol_linked_list_duplication_info_remove_old_ones`. -/
def duplicationInfoRemoveOldOnes (h : Handle) : Handle :=
  let old := fun d : DuplicationInfo => decide (age h d.timestamp > duplicationMaxTimeMsgsStored)
  { h with
    duplicationMsgs := h.duplicationMsgs.filter fun d => !old d
    countDuplicationMsgs := (h.duplicationMsgs.filter old).foldl (fun count _ => sub16 count 1) h.countDuplicationMsgs }

/-! ## Blockwise data -/

def blockwiseMaxTimeDataStored : Nat := 60

/-- `sn_coap_protocol_linked_list_blockwise_payload_store`. -/
def blockwisePayloadStore (env : Env) (h : Handle) (src : Address) (payloadLen : Nat)
    (payloadPtr : Option Bytes) (blockNumber : Nat) : Handle :=
  match payloadPtr with
  | none => h
  | some s =>
    if payloadLen ≠ 0 ∧ env.alloc .payloadStruct ∧ env.alloc .payloadData ∧ env.alloc .payloadAddr then
      { h with
        receivedPayloads := h.receivedPayloads ++
          [⟨h.systemTime, src, blockNumber, bytesAt (load env.heap .payload s) 0 payloadLen⟩] }
    else h

/-- `sn_coap_protocol_linked_list_blockwise_payload_search`. -/
def blockwisePayloadSearch (l : List BlockwisePayload) (src : Address) : Option Bytes :=
  (l.find? fun p => src.same p.address).map (·.payload)

/-- `sn_coap_protocol_linked_list_blockwise_payload_compare_block_number`. -/
def blockwisePayloadCompareBlockNumber (l : List BlockwisePayload) (src : Address)
    (blockNumber : Nat) : Bool :=
  l.any fun p => src.same p.address && decide (sub32 blockNumber 1 = p.blockNumber)

/-- `sn_coap_protocol_linked_list_blockwise_payload_remove_oldest`. -/
def blockwisePayloadRemoveOldest (h : Handle) : Handle := { h with receivedPayloads := h.receivedPayloads.tail }

/-- `sn_coap_protocol_linked_list_blockwise_payloads_get_len`. -/
def blockwisePayloadsGetLen (l : List BlockwisePayload) (src : Address) : Nat :=
  l.foldl (fun len p => if src.same p.address then u32 (len + p.payload.length) else len) 0

/-- `sn_coap_protocol_linked_list_blockwise_remove_old_data`. -/
def blockwiseRemoveOldData (h : Handle) : Handle :=
  { h with
    sentMsgs := h.sentMsgs.filter fun m => !decide (age h m.timestamp > blockwiseMaxTimeDataStored)
    receivedPayloads := h.receivedPayloads.filter fun p => !decide (age h p.timestamp > blockwiseMaxTimeDataStored) }

/-- `sn_coap_protocol_block_remove`. -/
def blockRemove (h : Handle) (src : Address) (payload : Bytes) : Handle :=
  { h with
    receivedPayloads := h.receivedPayloads.eraseP fun p => src.same p.address && decide (p.payload = payload) }

/-- The walk over the reassembled payload: as long as the source has a stored payload, the
first one is copied and the oldest payload of the list is removed. -/
def gather (src : Address) : List BlockwisePayload → Bytes × List BlockwisePayload
  | [] => ([], [])
  | p :: ps =>
    match blockwisePayloadSearch (p :: ps) src with
    | none => ([], p :: ps)
    | some payload =>
      let (whole, rest) := gather src ps
      (payload ++ whole, rest)

end MbedCloud.Coap

