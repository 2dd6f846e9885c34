import MbedCloud.Coap.Protocol
import MbedCloud.Nsdl.Resources

/-!
# Received packets

`sn_nsdl_process_coap` of `sn_nsdl.c` with `remove_previous_block_data` and `update_last_block_data`, and
`sn_grs_process_coap` of `sn_grs.c`: a packet is parsed by the CoAP library, and what comes out of it goes to the application, to
the callback of a resource, or is answered.

The calls of the application and the messages that are sent are the `Output`s of a call. The registration, which
`sn_nsdl_local_rx_function` keeps, and the text that `sn_nsdl_build_registration_body` makes of the resources are not modelled.
-/

namespace MbedCloud.Nsdl

open Lib Coap

/-! ## Handles -/

/-- The fields of a resource that are read here. -/
structure Params where
  /-- `external_memory_block` -/
  externalMemoryBlock : Bool
  /-- `mode == SN_GRS_DYNAMIC` -/
  dynamic : Bool
  /-- `access` -/
  access : UInt8
  /-- `sn_grs_dyn_res_callback != NULL` -/
  callback : Bool
  /-- `coap_content_type` -/
  contentType : Nat
  /-- `resource`, of `resourcelen` bytes -/
  resource : Bytes

/-- `nsdl_s` -/
structure Handle where
  coap : Coap.Handle
  /-- `resource_root_list` -/
  resources : List Resource
  /-- What a resource holds, by its address. -/
  params : Nat → Params
  /-- `oma_bs_address_ptr` and `oma_bs_port` -/
  omaBs : Address

/-- The calls of `malloc`. -/
inductive Site where
  | path | lastBlock | lastBlockCopy | grsPath | response | responseToken | responsePayload | responseOptions | packet
  deriving DecidableEq

structure Env where
  coap : Coap.Env
  /-- Whether there is memory. -/
  alloc : Site → Bool
  /-- The byte in front of an allocated path. -/
  below : Site → UInt8
  /-- The payload that `sn_nsdl_build_registration_body` makes. -/
  body : Option Bytes
  /-- What `sn_nsdl_local_rx_function` returns. -/
  localRx : Int

/-- `__nsdl_c_memory_alloc`, with a `uint16_t` argument: nothing is allocated for 0 bytes. -/
def Env.malloc (env : Env) (site : Site) (size : Nat) : Bool := decide (u16 size ≠ 0) && env.alloc site

inductive Output where
  /-- `sn_grs_dyn_res_callback` of the resource at an address. -/
  | resource (address : Nat) (m : Hdr)
  /-- `sn_nsdl_rx_callback` and `sn_grs_rx_callback`, which are the same function. -/
  | rx (m : Hdr)
  /-- `sn_nsdl_local_rx_function` -/
  | localRx (m : Hdr)
  /-- `sn_grs_tx_callback` with the packet built of a message. -/
  | tx (m : Hdr)
  deriving DecidableEq

/-- The returned value, the calls, and the handle. -/
abbrev Processed := Int × List Output × Handle

def success : Int := 0

def failure : Int := -1

def codeForbidden : Nat := 131

def codeNotFound : Nat := 132

def codeMethodNotAllowed : Nat := 133

def codeInternalServerError : Nat := 160

def codeProxyingNotSupported : Nat := 165

/-! ## Answers -/

/-- `sn_grs_send_coap_message`; what it returns is not used. -/
def sendCoapMessage (env : Env) (s : Handle) (dst : Address) (m : Hdr) : Exec Fault (List Output × Handle) :=
  let (m, prepared) := prepareBlockwiseMessage env.coap s.coap m
  if prepared ≠ 0 then .ok ([], s)
  else if env.malloc .packet (calcNeededPacketDataSize2 env.coap.heap m s.coap.blockDataSize) then do
    let (ret, m, coap) ← protocolBuild env.coap s.coap dst m
    pure (if ret < 0 then [] else [.tx m], { s with coap := coap })
  else .ok ([], s)

/-- A message is sent, and `code` is returned. -/
def sendAndReturn (env : Env) (s : Handle) (dst : Address) (m : Hdr) (code : Int) : Exec Fault Processed := do
  let (outputs, s) ← sendCoapMessage env s dst m
  pure (code, outputs, s)

/-- The token of a request in its answer; `none` when it cannot be allocated. -/
def withToken (env : Env) (m answer : Hdr) : Option Hdr :=
  match m.tokenPtr with
  | none => some answer
  | some token =>
    if env.malloc .responseToken m.tokenLen then some { answer with tokenPtr := some token, tokenLen := m.tokenLen }
    else none

/-- `sn_coap_build_response` for the code of a response. -/
def buildResponse (env : Env) (m : Hdr) (code : Nat) : Option Hdr :=
  if env.alloc .response then
    match m.msgType with
    | .confirmable => withToken env m { msgType := .acknowledgement, msgCode := code, msgId := m.msgId }
    | .nonConfirmable => withToken env m { msgType := .nonConfirmable, msgCode := code }
    | _ => none
  else none

/-- `sn_grs_core_request` -/
def coreRequest (env : Env) (s : Handle) (src : Address) (m : Hdr) : Exec Fault Processed :=
  if env.alloc .response then
    let answer : Hdr :=
      { msgCode := codeResponseContent, msgType := .acknowledgement, msgId := m.msgId, contentFormat := 40
        payloadPtr := env.body, payloadLen := (env.body.getD []).length }
    sendAndReturn env s src answer success
  else .ok (failure, [], s)

/-- The content of a static resource in the answer to a GET; `none` when it cannot be allocated. -/
def withContent (env : Env) (p : Params) (answer : Hdr) : Option Hdr :=
  let answer := { answer with contentFormat := p.contentType }
  if p.resource = [] then some (withMaxAge answer)
  else if env.malloc .responsePayload p.resource.length then
    some (withMaxAge { answer with payloadLen := p.resource.length, payloadPtr := some p.resource })
  else none
where withMaxAge (answer : Hdr) : Hdr :=
    if env.alloc .responseOptions then answer.allocOptions.modifyOptions fun o => { o with maxAge := 0 } else answer

/-- The second part of `sn_grs_process_coap`: the answer with a status, and with the content of a resource. -/
def respond (env : Env) (s : Handle) (src : Address) (m : Hdr) (status : Nat) (content : Option Params) :
    Exec Fault Processed :=
  if m.msgType ≠ .reset ∧ m.msgType ≠ .acknowledgement then
    if env.alloc .response then
      let msgType := if m.msgType = .confirmable then MsgType.acknowledgement else .nonConfirmable
      match withToken env m { msgCode := status, msgType := msgType, msgId := m.msgId } with
      | none => .ok (failure, [], s)
      | some answer =>
        match content with
        | none => sendAndReturn env s src answer success
        | some p =>
          match withContent env p answer with
          | none => .ok (failure, [], s)
          | some answer => sendAndReturn env s src answer success
    else .ok (failure, [], s)
  else .ok (success, [], s)

/-! ## Resources -/

def uriPath (m : Hdr) : Bytes := ((m.uriPathPtr.getD []).take m.uriPathLen).takeWhile (· ≠ 0)

/-- ".well-known/core" -/
def wellKnownPath : Bytes := [0x2e, 0x77, 0x65, 0x6c, 0x6c, 0x2d, 0x6b, 0x6e, 0x6f, 0x77, 0x6e, 0x2f, 0x63, 0x6f, 0x72, 0x65]

/-- The bit of `access` for a request. -/
def accessBit (code : Nat) : UInt8 :=
  if code = codeRequestGet then 0x01
  else if code = codeRequestPut then 0x02
  else if code = codeRequestPost then 0x04
  else if code = codeRequestDelete then 0x08
  else 0

/-- Whether the request is refused; a request with another code is not. -/
def refused (p : Params) (code : Nat) : Bool := decide (accessBit code ≠ 0) && decide (p.access &&& accessBit code = 0)

/-- A static resource is read only. -/
def staticResource (env : Env) (s : Handle) (src : Address) (m : Hdr) (p : Params) : Exec Fault Processed :=
  if m.msgCode = codeRequestGet then
    if p.access &&& accessBit codeRequestGet ≠ 0 then respond env s src m codeResponseContent (some p)
    else respond env s src m codeMethodNotAllowed none
  else if accessBit m.msgCode ≠ 0 then respond env s src m codeMethodNotAllowed none
  else respond env s src m codeForbidden none

/-- `sn_grs_process_coap` -/
def grsProcessCoap (env : Env) (s : Handle) (src : Address) (m : Hdr) : Exec Fault Processed :=
  if m.msgCode ≤ codeRequestDelete then
    if m.uriPathLen = wellKnownPath.length ∧ (m.uriPathPtr.getD []).take m.uriPathLen = wellKnownPath then coreRequest env s src m
    else if env.malloc .grsPath (m.uriPathLen + 1) then
      match searchResource (env.below .grsPath) (uriPath m) s.resources with
      | some r =>
        let p := s.params r.address
        if p.dynamic then
          if refused p m.msgCode then respond env s src m codeMethodNotAllowed none
          else .ok (success, if p.callback then [.resource r.address m] else [], s)
        else staticResource env s src m p
      | none =>
        if m.msgCode = codeRequestPost then .ok (success, [.rx m], s)
        else respond env s src m codeNotFound none
    else .ok (failure, [], s)
  else respond env s src m codeInternalServerError none

/-! ## Blocks -/

/-- `remove_previous_block_data`: the first stored payload with the number before is looked for in the payloads of all
endpoints. -/
def removePreviousBlockData (h : Coap.Handle) (src : Address) (blockNumber : Nat) : Coap.Handle :=
  match h.receivedPayloads.find? fun p => sub32 blockNumber 1 = p.blockNumber with
  | some p => blockRemove h src p.payload
  | none => h

/-- The bytes of the payload behind its first `blockSize` ones. The length is computed in `uint32_t`: that of a shorter payload
wraps around, and `memcpy` runs out of the payload. -/
def lastBlockData (m : Hdr) (blockSize : Nat) : Exec Fault Bytes :=
  if m.payloadLen < blockSize then .error (.fail (.read m.payloadLen))
  else .ok (((m.payloadPtr.getD []).drop blockSize).take (m.payloadLen - blockSize))

/-- The last block of a Block1 transfer: two copies are made of its data. -/
def passLastBlock (env : Env) (m : Hdr) : Exec Fault Hdr :=
  let newPayloadLen := sub32 m.payloadLen (blockSizeOf m.options.block1.toNat)
  if env.malloc .lastBlock newPayloadLen then do
    let bytes ← lastBlockData m (blockSizeOf m.options.block1.toNat)
    pure (if env.malloc .lastBlockCopy newPayloadLen then { m with payloadPtr := some bytes, payloadLen := newPayloadLen }
      else { m with payloadPtr := none })
  else .ok m

/-- `update_last_block_data` for a Block2 transfer. -/
def updateLastBlockData (env : Env) (m : Hdr) : Exec Fault Hdr :=
  if m.coapStatus = .parserBlockwiseMsgReceived then
    let newPayloadLen := sub32 m.payloadLen (blockSizeOf m.options.block2.toNat)
    if env.malloc .lastBlock newPayloadLen then do
      let bytes ← lastBlockData m (blockSizeOf m.options.block2.toNat)
      pure { m with payloadPtr := some bytes, payloadLen := newPayloadLen }
    else .ok m
  else .ok m

/-- Whether a message belongs to a Block1 transfer that is received. -/
def isReceived (m : Hdr) : Bool :=
  m.optionsListPtr.isSome && decide (m.options.block1 ≠ blockNone) &&
    (decide (m.coapStatus = .parserBlockwiseMsgReceiving) || decide (m.coapStatus = .parserBlockwiseMsgReceived))

/-- A block for a resource with `external_memory_block`: the block before is removed, and only the last block is kept of the whole
payload. -/
def passBlock (env : Env) (s : Handle) (src : Address) (m : Hdr) : Exec Fault (Hdr × Handle) :=
  let blockNumber := blockNumberOf m.options.block1.toNat
  let s := if blockNumber ≠ 0 then { s with coap := removePreviousBlockData s.coap src blockNumber } else s
  if m.coapStatus = .parserBlockwiseMsgReceived then do
    let m ← passLastBlock env m
    pure (m, s)
  else .ok (m, s)

/-- The handling of Block1 in `sn_nsdl_process_coap`: whether there is a resource that takes the block, the message and the handle;
`none` if the path cannot be allocated. -/
def passBlock1 (env : Env) (s : Handle) (src : Address) (m : Hdr) : Exec Fault (Option (Bool × Hdr × Handle)) :=
  if isReceived m then
    if env.malloc .path (m.uriPathLen + 1) then
      match searchResource (env.below .path) (uriPath m) s.resources with
      | some r =>
        if (s.params r.address).externalMemoryBlock && decide (m.options.block1 ≠ 0) then do
          let (m, s) ← passBlock env s src m
          pure (some (true, m, s))
        else .ok (some (false, m, s))
      | none => .ok (some (false, m, s))
    else .ok none
  else .ok (some (false, m, s))

/-- The response to a GET goes to the application, a block of it without the blocks before. -/
def processContent (env : Env) (s : Handle) (src : Address) (m : Hdr) : Exec Fault Processed :=
  if m.optionsListPtr.isSome ∧ m.options.block2 ≠ blockNone then do
    let blockNumber := blockNumberOf m.options.block2.toNat
    let s := if blockNumber ≠ 0 then { s with coap := removePreviousBlockData s.coap src blockNumber } else s
    let m ← updateLastBlockData env m
    pure (success, [.rx m], s)
  else .ok (success, [.rx m], s)

/-- The last part of `sn_nsdl_process_coap`: to whom a message goes. -/
def dispatch (env : Env) (s : Handle) (src : Address) (m : Hdr) : Exec Fault Processed :=
  if m.optionsListPtr.isSome ∧ m.options.proxyUriLen ≠ 0 then
    match buildResponse env m codeProxyingNotSupported with
    | some answer => sendAndReturn env s src answer success
    | none => .ok (failure, [], s)
  else if m.msgCode > codeRequestDelete ∨ m.msgType = .acknowledgement ∨ m.msgType = .reset then
    .ok (env.localRx, [.localRx m], s)
  else if s.omaBs = src then .ok (success, [.rx m], s)
  else grsProcessCoap env s src m

/-- `sn_nsdl_process_coap` after the parser. -/
def processMsg (env : Env) (s : Handle) (src : Address) (m : Hdr) : Exec Fault Processed := do
  match ← passBlock1 env s src m with
  | none => pure (failure, [], s)
  | some (resource, m, s) =>
    if m.msgCode = codeResponseContent then processContent env s src m
    else if m.coapStatus ≠ .ok ∧ m.coapStatus ≠ .parserBlockwiseMsgReceived ∧ resource = false then pure (success, [], s)
    else dispatch env s src m

/-- `sn_nsdl_process_coap` -/
def processCoap (fuel : Nat) (env : Env) (s : Handle) (src : Address) (packet : Bytes) (tail : Nat → Option UInt8) :
    Exec Fault Processed := do
  match ← protocolParse fuel env.coap s.coap src packet tail with
  | (none, coap) => pure (failure, [], { s with coap := coap })
  | (some m, coap) => processMsg env { s with coap := coap } src m

end MbedCloud.Nsdl

