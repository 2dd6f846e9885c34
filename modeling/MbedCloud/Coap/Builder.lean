import MbedCloud.Coap.Header

/-!
# The packet builder

The functions of `sn_coap_builder.c`: `calcNeededPacketDataSize2` computes the size of a
packet from the message, and `snCoapBuilder2` writes the packet. The two are separate
computations, as in the source.

A string of the message is a pointer with a length field. The bytes at the pointer are the
string's own bytes and, behind them, whatever the memory holds there (`Heap`): the writer
can read behind a string.
-/

namespace MbedCloud.Coap

/-! ## Memory behind pointers -/

/-- What a pointer field of a message points to. -/
inductive Region where
  | token
  | payload
  | option (o : OptionNumber)
  deriving DecidableEq

/-- The memory behind the string of each field. -/
abbrev Heap := Region → Nat → UInt8

/-- The bytes at a pointer to the string `s`. -/
def load (heap : Heap) (r : Region) (s : Bytes) (i : Nat) : UInt8 := s[i]?.getD (heap r (i - s.length))

/-- The `len` bytes from `p + off`. -/
def bytesAt (p : Nat → UInt8) (off len : Nat) : Bytes := (List.range len).map fun i => p (off + i)

/-! ## The parts of a repeatable option

The instances of a repeatable option are stored in one string with a separator between
them. The functions below are given the `query_len` bytes of that string. -/

/-- The variable `char_to_search`. -/
def charToSearch (option : OptionNumber) : UInt8 := if option = .uriPath ∨ option = .locationPath then 0x2f else 0x26

/-- `sn_coap_builder_options_get_option_part_count`. A separator as the first or the last
byte does not count; the counter has 8 bits. -/
def optionsGetOptionPartCount (query : Bytes) (option : OptionNumber) : Nat :=
  u8 (query.tail.dropLast.foldl (fun n c => if c = charToSearch option then u8 (n + 1) else n) 0 + 1)

/-- The loop of the next function, from `returned_query_part_len` and `temp_query_index`. -/
def partLengthLoop (char : UInt8) (queryIndex : Nat) : Bytes → Nat → Nat → Nat
  | [], partLen, _ => partLen
  | c :: cs, partLen, index =>
    if c = char ∧ 0 < partLen then if index = queryIndex then partLen else partLengthLoop char queryIndex cs 0 (u8 (index + 1))
    else if c ≠ char then partLengthLoop char queryIndex cs (u16 (partLen + 1)) index
    else partLengthLoop char queryIndex cs partLen index

/-- `sn_coap_builder_options_get_option_part_length_from_whole_option_string`. -/
def optionsGetOptionPartLengthFromWholeOptionString (query : Bytes) (queryIndex : Nat)
    (option : OptionNumber) : Nat :=
  partLengthLoop (charToSearch option) queryIndex query 0 0

/-- The loop of the next function, from `returned_query_part_offset` and `temp_query_index`. -/
def partPositionLoop (char : UInt8) (queryIndex : Nat) : Bytes → Nat → Nat → Int
  | [], _, _ => -1
  | c :: cs, offset, index =>
    if c = char ∧ 0 < offset then
      if index = queryIndex - 1 then i16 (offset + 1)
      else partPositionLoop char queryIndex cs (u16 (offset + 1)) (u8 (index + 1))
    else partPositionLoop char queryIndex cs (u16 (offset + 1)) index

/-- `sn_coap_builder_options_get_option_part_position`. The first byte is read whatever the
length is. -/
def optionsGetOptionPartPosition (first : UInt8) (query : Bytes) (queryIndex : Nat)
    (option : OptionNumber) : Int :=
  if queryIndex = 0 then if first = 0 ∨ first = charToSearch option then 1 else 0
  else partPositionLoop (charToSearch option) queryIndex query 0 0

/-! ## The size of the packet -/

/-- The length check of `sn_coap_builder_options_calc_option_size`. -/
def partLengthAllowed (option : OptionNumber) (len : Nat) : Bool :=
  match option with
  | .etag => decide (1 ≤ len) && decide (len ≤ 8)
  | .locationPath | .uriPath | .locationQuery => decide (len ≤ 255)
  | .uriQuery => decide (1 ≤ len) && decide (len ≤ 255)
  | _ => true

/-- The header bytes that `sn_coap_builder_options_calc_option_size` counts for one part. -/
def partHeaderSize (len : Nat) : Nat :=
  if len ≤ 12 then 1
  else if 13 ≤ len ∧ len < 269 then 2
  else if 270 ≤ len ∧ len < 1034 then 3
  else 0

/-- What one part of a repeatable option adds to the size; `none` when its length is not
allowed. -/
def partNeed (query : Bytes) (option : OptionNumber) (queryIndex : Nat) : Option Nat :=
  let len := optionsGetOptionPartLengthFromWholeOptionString query queryIndex option
  if partLengthAllowed option len then some (partHeaderSize len + len) else none

/-- An addition to a 16-bit count, after which the source returns 0 if it failed. -/
def addNeed (count : Nat) (need : Option Nat) : Option Nat := need.map fun k => u16 (count + k)

/-- `sn_coap_builder_options_calc_option_size`. -/
def optionsCalcOptionSize (query : Bytes) (option : OptionNumber) : Nat :=
  (((List.range (optionsGetOptionPartCount query option)).map (partNeed query option)).foldlM
    addNeed 0).getD 0

/-- The loop of `sn_coap_builder_options_build_add_uint_option` that puts the bytes of the
value, without leading zeros, into `payload`. -/
def uintPayloadLoop : Nat → Nat → Bytes → Bytes
  | 0, _, payload => payload
  | k + 1, value, payload =>
    uintPayloadLoop k (u32 (value * 256)) (if payload ≠ [] ∨ value / 16777216 ≠ 0 then payload ++ [UInt8.ofNat (value / 16777216)]
      else payload)

def uintPayload (value : Nat) : Bytes := uintPayloadLoop 4 value []

/-- The result of `sn_coap_builder_options_build_add_uint_option`. -/
def uintOptionSize (value : Nat) : Nat := u8 (1 + (uintPayload value).length)

/-- What an integer option adds to the size; `none` when its value is over the limit that
the source checks. -/
def uintNeed (present : Bool) (limit : Option Nat) (value : Nat) : Option Nat :=
  if present then if limit.any (fun most => most < value) then none else some (uintOptionSize value)
  else some 0

/-- What a repeatable option adds to the size. -/
def repeatableNeed (heap : Heap) (option : OptionNumber) (len : Nat) :
    Option Bytes → Option Nat
  | none => some 0
  | some s =>
    let size := optionsCalcOptionSize (bytesAt (load heap (.option option) s) 0 len) option
    if size ≠ 0 then some size else none

def tokenNeed (m : Hdr) : Option Nat :=
  if m.tokenPtr.isSome then if m.tokenLen > 8 ∨ m.tokenLen < 1 then none else some m.tokenLen
  else some 0

def proxyUriNeed (o : OptionsList) : Option Nat :=
  if o.proxyUriPtr.isSome then
    if 1 ≤ o.proxyUriLen ∧ o.proxyUriLen ≤ 12 then some (1 + o.proxyUriLen)
    else if 13 ≤ o.proxyUriLen ∧ o.proxyUriLen ≤ 269 then some (2 + o.proxyUriLen)
    else if 270 ≤ o.proxyUriLen ∧ o.proxyUriLen ≤ 1034 then some (3 + o.proxyUriLen)
    else none
  else some 0

def uriHostNeed (o : OptionsList) : Option Nat :=
  if o.uriHostPtr.isSome then
    if 0 < o.uriHostLen ∧ o.uriHostLen ≤ 12 then some (1 + o.uriHostLen)
    else if 13 ≤ o.uriHostLen ∧ o.uriHostLen ≤ 255 then some (2 + o.uriHostLen)
    else none
  else some 0

/-- What the options of the options list add, in the order of the source. -/
def optionsListNeeds (heap : Heap) (o : OptionsList) : List (Option Nat) :=
  [uintNeed (o.accept ≠ ctNone) (some 0xffff) (u32i o.accept), uintNeed (o.maxAge ≠ maxAgeDefault) none o.maxAge, proxyUriNeed o,
    repeatableNeed heap .etag o.etagLen o.etagPtr,
    uriHostNeed o,
    repeatableNeed heap .locationPath o.locationPathLen o.locationPathPtr,
    uintNeed (o.uriPort ≠ uriPortNone) (some 0xffff) (u32i o.uriPort),
    repeatableNeed heap .locationQuery o.locationQueryLen o.locationQueryPtr,
    uintNeed (o.observe ≠ observeNone) (some 0xffffff) (u32i o.observe),
    repeatableNeed heap .uriQuery o.uriQueryLen o.uriQueryPtr,
    uintNeed (o.block1 ≠ blockNone) (some 0xffffff) (u32i o.block1),
    uintNeed o.useSize1 none o.size1,
    uintNeed (o.block2 ≠ blockNone) (some 0xffffff) (u32i o.block2),
    uintNeed o.useSize2 none o.size2]

/-- What the token and the options add. -/
def needs (heap : Heap) (m : Hdr) : List (Option Nat) :=
  [tokenNeed m, repeatableNeed heap .uriPath m.uriPathLen m.uriPathPtr,
    uintNeed (m.contentFormat ≠ ctNone) (some 0xffff) (u32i m.contentFormat)] ++
    match m.optionsListPtr with
    | none => []
    | some o => optionsListNeeds heap o

/-- An option whose number is at most 12 is only remembered. -/
def jumpOver (previous : Nat) (present : Bool) (option : OptionNumber) : Nat := if present then option.num else previous

/-- The pair is `previous_option_number` and `needed_space`. -/
def jumpTo (s : Nat × Nat) (present : Bool) (option : OptionNumber) : Nat × Nat :=
  if present then (option.num, if option.num - s.1 > 12 then u8 (s.2 + 1) else s.2) else s

/-- Proxy-Uri has a second check. -/
def jumpToProxyUri (s : Nat × Nat) (present : Bool) : Nat × Nat :=
  if present then
    let space := if OptionNumber.num .proxyUri - s.1 > 12 then u8 (s.2 + 1) else s.2
    (OptionNumber.num .proxyUri,
      if OptionNumber.num .proxyUri - s.1 > 269 then u8 (space + 1) else space)
  else s

/-- `sn_coap_builder_options_calculate_jump_need`. -/
def optionsCalculateJumpNeed (m : Hdr) : Nat :=
  match m.optionsListPtr with
  | none => 0
  | some o =>
    if o.uriQueryPtr.isNone ∧ o.accept = ctNone ∧ o.locationQueryPtr.isNone ∧
        o.block2 = blockNone ∧ o.block1 = blockNone ∧ o.proxyUriPtr.isNone ∧
        o.maxAge = maxAgeDefault ∧ !o.useSize1 ∧ !o.useSize2 then 0
    else
      let previous := jumpOver 0 o.uriHostPtr.isSome .uriHost
      let previous := jumpOver previous o.etagPtr.isSome .etag
      let previous := jumpOver previous (o.observe ≠ observeNone) .observe
      let previous := jumpOver previous (o.uriPort ≠ uriPortNone) .uriPort
      let previous := jumpOver previous o.locationPathPtr.isSome .locationPath
      let previous := jumpOver previous m.uriPathPtr.isSome .uriPath
      let previous := jumpOver previous (m.contentFormat ≠ ctNone) .contentFormat
      let s := jumpTo (previous, 0) (o.maxAge ≠ maxAgeDefault) .maxAge
      let s := jumpTo s o.uriQueryPtr.isSome .uriQuery
      let s := jumpTo s (o.accept ≠ ctNone) .accept
      let s := jumpTo s o.locationQueryPtr.isSome .locationQuery
      let s := jumpTo s (o.block2 ≠ blockNone) .block2
      let s := jumpTo s (o.block1 ≠ blockNone) .block1
      let s := jumpTo s o.useSize2 .size2
      let s := jumpToProxyUri s o.proxyUriPtr.isSome
      (jumpTo s o.useSize1 .size1).2

/-- `sn_coap_builder_calc_needed_packet_data_size_2`, with blockwise transfer compiled in;
a block size of 0 gives the computation without it. -/
def calcNeededPacketDataSize2 (heap : Heap) (m : Hdr) (blockwisePayloadSize : Nat) : Nat :=
  if m.msgType = .reset then 4
  else
    match (needs heap m).foldlM addNeed 4 with
    | none => 0
    | some count =>
      let count := u16 (count +
        if m.payloadLen > blockwisePayloadSize ∧ blockwisePayloadSize > 0 then blockwisePayloadSize
        else m.payloadLen)
      let count := if m.payloadLen ≠ 0 then u16 (count + 1) else count
      u16 (count + optionsCalculateJumpNeed m)

/-! ## Writing the packet -/

/-- The bytes from the start of the packet to `dst_packet_data_ptr`, and
`previous_option_number`. -/
structure Writer where
  out : Bytes := []
  previous : Nat := 0
  deriving DecidableEq

/-- The nibble of `sn_coap_builder_options_build_add_one_option` for a delta or a length. -/
def optionNibble (v : Nat) : Nat := if v ≤ 12 then v else if v < 269 then 0x0d else 0x0e

/-- The extension bytes for a delta or a length. -/
def optionExtension (v : Nat) : Bytes :=
  if v ≤ 12 then []
  else if v < 269 then [UInt8.ofNat (v - 13)]
  else [UInt8.ofNat ((v - 269) / 256), UInt8.ofNat (v - 269)]

/-- `sn_coap_builder_options_build_add_one_option`. -/
def optionsBuildAddOneOption (w : Writer) (optionLen : Nat) (optionPtr : Option (Nat → UInt8))
    (option : OptionNumber) : Writer :=
  match optionPtr with
  | none => w
  | some p =>
    let optionDelta := sub16 option.num w.previous
    { out := w.out ++ UInt8.ofNat (optionNibble optionLen + 16 * optionNibble optionDelta) ::
          (optionExtension optionDelta ++ optionExtension optionLen ++ bytesAt p 0 optionLen)
      previous := option.num }

/-- `sn_coap_builder_options_build_add_uint_option` with a destination. -/
def optionsBuildAddUintOption (w : Writer) (value : Nat) (option : OptionNumber) : Writer :=
  let payload := uintPayload value
  optionsBuildAddOneOption w payload.length (some fun i => payload.getD i 0) option

/-- `sn_coap_builder_options_build_add_multiple_option`. -/
def optionsBuildAddMultipleOption (heap : Heap) (w : Writer) (src : Option Bytes)
    (srcLen : Nat) (option : OptionNumber) : Writer :=
  match src with
  | none => w
  | some s =>
    let p := load heap (.option option) s
    let query := bytesAt p 0 srcLen
    (List.range (optionsGetOptionPartCount query option)).foldl (fun w i =>
      let len := optionsGetOptionPartLengthFromWholeOptionString query i option
      let offset := u16i (optionsGetOptionPartPosition (p 0) query i option)
      optionsBuildAddOneOption w len (some fun j => p (offset + j)) option) w

def Hdr.header (m : Hdr) : Bytes :=
  [UInt8.ofNat (coapVersion1 + m.msgType.bits + m.tokenLen), UInt8.ofNat m.msgCode,
    UInt8.ofNat (m.msgId / 256), UInt8.ofNat m.msgId]

/-- `sn_coap_builder_header_build`: the header when its values are valid. -/
def headerBuild (m : Hdr) : Option Bytes := if headerValidityCheck m coapVersion1 then some m.header else none

/-- The token; the bytes that the writer passes over keep the zero of `memset`. -/
def tokenBuild (heap : Heap) (m : Hdr) : Bytes :=
  match m.tokenPtr with
  | some s => bytesAt (load heap .token s) 0 m.tokenLen
  | none => List.replicate m.tokenLen 0

/-- The options of the options list before Uri-Path. The length of the ETag is read as 16
bits. -/
def lowOptionsBuild (heap : Heap) (w : Writer) (o : OptionsList) : Writer :=
  let w := optionsBuildAddOneOption w o.uriHostLen (o.uriHostPtr.map (load heap (.option .uriHost))) .uriHost
  let w := optionsBuildAddMultipleOption heap w o.etagPtr o.etagLen16 .etag
  let w := if o.observe ≠ observeNone then optionsBuildAddUintOption w (u32i o.observe) .observe
    else w
  let w := if o.uriPort ≠ uriPortNone then optionsBuildAddUintOption w (u32i o.uriPort) .uriPort
    else w
  optionsBuildAddMultipleOption heap w o.locationPathPtr o.locationPathLen .locationPath

/-- The options of the options list after Content-Format. -/
def highOptionsBuild (heap : Heap) (w : Writer) (o : OptionsList) : Writer :=
  let w := if o.maxAge ≠ maxAgeDefault then optionsBuildAddUintOption w o.maxAge .maxAge else w
  let w := optionsBuildAddMultipleOption heap w o.uriQueryPtr o.uriQueryLen .uriQuery
  let w := if o.accept ≠ ctNone then optionsBuildAddUintOption w (u32i o.accept) .accept else w
  let w := optionsBuildAddMultipleOption heap w o.locationQueryPtr o.locationQueryLen .locationQuery
  let w := if o.block2 ≠ blockNone then optionsBuildAddUintOption w (u32i o.block2) .block2 else w
  let w := if o.block1 ≠ blockNone then optionsBuildAddUintOption w (u32i o.block1) .block1 else w
  let w := if o.useSize2 then optionsBuildAddUintOption w o.size2 .size2 else w
  let w := optionsBuildAddOneOption w o.proxyUriLen (o.proxyUriPtr.map (load heap (.option .proxyUri))) .proxyUri
  if o.useSize1 then optionsBuildAddUintOption w o.size1 .size1 else w

/-- `sn_coap_builder_options_build`. -/
def optionsBuild (heap : Heap) (out : Bytes) (m : Hdr) : Bytes :=
  if m.uriPathPtr.isNone ∧ m.tokenPtr.isNone ∧ m.contentFormat = ctNone ∧ m.optionsListPtr.isNone then out
  else
    let w : Writer := { out := out ++ tokenBuild heap m }
    let w := m.optionsListPtr.elim w (lowOptionsBuild heap w)
    let w := optionsBuildAddMultipleOption heap w m.uriPathPtr m.uriPathLen .uriPath
    let w := if m.contentFormat ≠ ctNone then optionsBuildAddUintOption w (u32i m.contentFormat) .contentFormat
      else w
    (m.optionsListPtr.elim w (highOptionsBuild heap w)).out

/-- `sn_coap_builder_payload_build`. -/
def payloadBuild (heap : Heap) (out : Bytes) (m : Hdr) : Bytes :=
  match m.payloadPtr with
  | some s =>
    if m.payloadLen ≠ 0 then out ++ 0xff :: bytesAt (load heap .payload s) 0 m.payloadLen else out
  | none => out

/-- The bytes that `sn_coap_builder_2` writes; `none` is its result `-1`. -/
def snCoapBuilder2 (heap : Heap) (m : Hdr) (blockwisePayloadSize : Nat) : Option Bytes :=
  if calcNeededPacketDataSize2 heap m blockwisePayloadSize = 0 then none
  else
    (headerBuild m).map fun header =>
      if m.msgType = .reset then header
      else payloadBuild heap (optionsBuild heap header m) m

/-- The value that `sn_coap_builder_2` returns. -/
def builderReturn : Option Bytes → Int
  | none => -1
  | some out => i16 out.length

end MbedCloud.Coap

