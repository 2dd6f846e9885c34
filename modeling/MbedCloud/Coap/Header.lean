import MbedCloud.Lib.Word

/-!
# The CoAP message

The message structures of `sn_coap_header.h`, with the defaults that
`sn_coap_parser_init_message` and `sn_coap_parser_alloc_options` give them, and the
header check of `sn_coap_header_check.c`.

A pointer field is an `Option`: `none` is `NULL`, and `some bytes` are the bytes written
to the memory it points to. The length field that goes with it is a field of its own, as
in the source, since the parser sets the two apart from each other. Integer fields with
the internal value `-1` for an absent option stay integers.
-/

namespace MbedCloud.Coap

/-! ## Enumerations -/

inductive MsgType where
  | confirmable
  | nonConfirmable
  | acknowledgement
  | reset
  deriving DecidableEq

/-- The bits of `COAP_HEADER_MSG_TYPE_MASK`. -/
def MsgType.bits : MsgType → Nat
  | .confirmable => 0x00
  | .nonConfirmable => 0x10
  | .acknowledgement => 0x20
  | .reset => 0x30

inductive Status where
  | ok
  | parserErrorInHeader
  | parserDuplicatedMsg
  | parserBlockwiseMsgReceiving
  | parserBlockwiseAck
  | parserBlockwiseMsgRejected
  | parserBlockwiseMsgReceived
  | builderMessageSendingFailed
  deriving DecidableEq

/-- `sn_coap_option_numbers_e`. -/
inductive OptionNumber where
  | ifMatch
  | uriHost
  | etag
  | ifNoneMatch
  | observe
  | uriPort
  | locationPath
  | uriPath
  | contentFormat
  | maxAge
  | uriQuery
  | accept
  | locationQuery
  | block2
  | block1
  | size2
  | proxyUri
  | proxyScheme
  | size1
  deriving DecidableEq

def OptionNumber.num : OptionNumber → Nat
  | .ifMatch => 1
  | .uriHost => 3
  | .etag => 4
  | .ifNoneMatch => 5
  | .observe => 6
  | .uriPort => 7
  | .locationPath => 8
  | .uriPath => 11
  | .contentFormat => 12
  | .maxAge => 14
  | .uriQuery => 15
  | .accept => 17
  | .locationQuery => 20
  | .block2 => 23
  | .block1 => 27
  | .size2 => 28
  | .proxyUri => 35
  | .proxyScheme => 39
  | .size1 => 60

def OptionNumber.ofNat? : Nat → Option OptionNumber
  | 1 => some .ifMatch
  | 3 => some .uriHost
  | 4 => some .etag
  | 5 => some .ifNoneMatch
  | 6 => some .observe
  | 7 => some .uriPort
  | 8 => some .locationPath
  | 11 => some .uriPath
  | 12 => some .contentFormat
  | 14 => some .maxAge
  | 15 => some .uriQuery
  | 17 => some .accept
  | 20 => some .locationQuery
  | 23 => some .block2
  | 27 => some .block1
  | 28 => some .size2
  | 35 => some .proxyUri
  | 39 => some .proxyScheme
  | 60 => some .size1
  | _ => none

@[simp]
theorem OptionNumber.ofNat?_num (o : OptionNumber) : OptionNumber.ofNat? o.num = some o := by cases o <;> rfl

theorem OptionNumber.num_of_ofNat? {n : Nat} {o : OptionNumber} (h : OptionNumber.ofNat? n = some o) : o.num = n := by
  unfold OptionNumber.ofNat? at h
  split at h <;> first | (cases h; rfl) | cases h

theorem OptionNumber.num_inj {o o' : OptionNumber} (h : o.num = o'.num) : o = o' := by
  have hs := OptionNumber.ofNat?_num o
  rw [h, OptionNumber.ofNat?_num] at hs
  exact (Option.some.inj hs).symm

/-! ## Message codes -/

def codeEmpty : Nat := 0
def codeRequestGet : Nat := 1
def codeRequestPost : Nat := 2
def codeRequestPut : Nat := 3
def codeRequestDelete : Nat := 4
def codeResponseCreated : Nat := 65
def codeResponseDeleted : Nat := 66
def codeResponseContent : Nat := 69
def codeResponseContinue : Nat := 95
def codeResponseRequestEntityIncomplete : Nat := 136
def codeResponseRequestEntityTooLarge : Nat := 141

/-- The enumerators of `sn_coap_msg_code_e`, the codes that the header check accepts. -/
def msgCodes : List Nat :=
  [0, 1, 2, 3, 4, 65, 66, 67, 68, 69, 95, 128, 129, 130, 131, 132, 133, 134, 136, 140, 141, 143, 160, 161, 162, 163, 164, 165]

def coapVersion1 : Nat := 0x40

/-! ## Messages -/

def ctNone : Int := -1
def observeNone : Int := -1
def uriPortNone : Int := -1
def blockNone : Int := -1
def maxAgeDefault : Nat := 60

/-- `sn_coap_options_list_s`, as `sn_coap_parser_alloc_options` initializes it. -/
structure OptionsList where
  etagLen : Nat := 0
  useSize1 : Bool := false
  useSize2 : Bool := false
  proxyUriLen : Nat := 0
  uriHostLen : Nat := 0
  locationPathLen : Nat := 0
  locationQueryLen : Nat := 0
  uriQueryLen : Nat := 0
  accept : Int := ctNone
  maxAge : Nat := maxAgeDefault
  size1 : Nat := 0
  size2 : Nat := 0
  uriPort : Int := uriPortNone
  observe : Int := observeNone
  block1 : Int := blockNone
  block2 : Int := blockNone
  proxyUriPtr : Option Bytes := none
  etagPtr : Option Bytes := none
  uriHostPtr : Option Bytes := none
  locationPathPtr : Option Bytes := none
  locationQueryPtr : Option Bytes := none
  uriQueryPtr : Option Bytes := none
  deriving DecidableEq

/-- The value read through `(uint16_t *)&etag_len`. The field has one byte; on the
little-endian targets the byte after it holds the two size flags. -/
def OptionsList.etagLen16 (o : OptionsList) : Nat := o.etagLen + (if o.useSize1 then 256 else 0) + (if o.useSize2 then 512 else 0)

/-- A store through `(uint16_t *)&etag_len`: the high byte goes to the size flags. -/
def OptionsList.setEtagLen16 (o : OptionsList) (v : Nat) : OptionsList :=
  { o with etagLen := v % 256, useSize1 := v / 256 % 2 = 1, useSize2 := v / 512 % 2 = 1 }

/-- `sn_coap_hdr_s`, as `sn_coap_parser_init_message` initializes it. -/
structure Hdr where
  tokenLen : Nat := 0
  coapStatus : Status := .ok
  msgCode : Nat := codeEmpty
  msgType : MsgType := .confirmable
  contentFormat : Int := ctNone
  msgId : Nat := 0
  uriPathLen : Nat := 0
  payloadLen : Nat := 0
  tokenPtr : Option Bytes := none
  uriPathPtr : Option Bytes := none
  payloadPtr : Option Bytes := none
  optionsListPtr : Option OptionsList := none
  deriving DecidableEq

/-- `sn_coap_parser_alloc_options`: a message that has options keeps them. -/
def Hdr.allocOptions (m : Hdr) : Hdr := { m with optionsListPtr := some (m.optionsListPtr.getD {}) }

/-- The options of a message; the defaults when it has none. -/
def Hdr.options (m : Hdr) : OptionsList := m.optionsListPtr.getD {}

/-- An update through `options_list_ptr`. -/
def Hdr.modifyOptions (m : Hdr) (f : OptionsList → OptionsList) : Hdr := { m with optionsListPtr := m.optionsListPtr.map f }

/-- `sn_coap_header_validity_check`. The four message types are all valid. -/
def headerValidityCheck (m : Hdr) (version : Nat) : Bool := decide (version = coapVersion1) && decide (m.msgCode ∈ msgCodes)

end MbedCloud.Coap

