import MbedCloud.Lib.Loop
import MbedCloud.Coap.Header

/-!
# The CoAP parser

`sn_coap_parser.c`. The parser walks over the packet with a pointer; here the pointer is
an index into a memory whose index `0` is the first byte of the packet. A read of an index
that the memory does not map is a fault. What lies behind the packet is part of the memory:
`packetMem p tail` is the packet `p` followed by `tail`, and `packetOnly p` maps nothing
behind the packet, so that a fault is exactly a read outside of it.

Every loop of the source is a step function run by `Lib.loop`. Allocations succeed.
-/

namespace MbedCloud.Coap

/-- What a C program must not do. -/
inductive Fault where
  | read (address : Nat)
  | null
  deriving DecidableEq

abbrev Mem := Nat → Option UInt8

def packetMem (p : Bytes) (tail : Nat → Option UInt8) : Mem := fun i => if i < p.length then p[i]? else tail (i - p.length)

def packetOnly (p : Bytes) : Mem := fun i => p[i]?

namespace Parser

open Lib

/-! ## Reading memory -/

def rdByte (mem : Mem) (a : Nat) : Exec Fault UInt8 :=
  match mem a with
  | some b => .ok b
  | none => .error (.fail (.read a))

def rd (mem : Mem) (a : Nat) : Exec Fault Nat := do
  let b ← rdByte mem a
  pure b.toNat

/-- The source of a `memcpy`. -/
def rdBytes (mem : Mem) : Nat → Nat → Exec Fault Bytes
  | _, 0 => pure []
  | a, len + 1 => do
    let b ← rdByte mem a
    let bs ← rdBytes mem (a + 1) len
    pure (b :: bs)

/-- The bytes a pointer into the packet points to; they are not read here. -/
def memBytes (mem : Mem) (a len : Nat) : Bytes := (List.range len).map fun i => (mem (a + i)).getD 0

/-! ## Option headers and integer values -/

/-- A nibble of an option header with its extension bytes: the value, and the index of the
last byte read. The 16-bit sum of the two-byte form can wrap. -/
def extended (mem : Mem) (pos v : Nat) : Exec Fault (Nat × Nat) :=
  if v = 13 then do
    let b ← rd mem (pos + 1)
    pure (b + 13, pos + 1)
  else if v = 14 then do
    let lo ← rd mem (pos + 2)
    let hi ← rd mem (pos + 1)
    pure (u16 (lo + (hi * 256 + 269)), pos + 2)
  else pure (v, pos)

/-- `sn_coap_parser_options_parse_uint`. -/
def optionsParseUint (mem : Mem) : Nat → Nat → Nat → Exec Fault Nat
  | _, 0, value => pure value
  | a, len + 1, value => do
    let b ← rd mem a
    optionsParseUint mem (a + 1) len (u32 (value * 256) + b)

/-! ## Repeatable options -/

/-- The length limits of `sn_coap_parser_options_count_needed_memory_multiple_option`. -/
def tooLong (o : OptionNumber) (len : Nat) : Bool :=
  match o with
  | .locationPath | .uriPath | .uriQuery | .locationQuery => decide (255 < len)
  | .accept => decide (2 < len)
  | .etag => decide (8 < len)
  | _ => false

structure Count where
  i : Nat
  retValue : Nat
  optionNumberLen : Nat
  deriving DecidableEq

/-- The length without the separator after the last part. -/
def countResult (retValue : Nat) : Int := if retValue ≠ 0 then i16 ((retValue : Int) - 1) else 0

def countStep (mem : Mem) (start left : Nat) (o : OptionNumber) (s : Count) :
    Exec Fault (Next Count Int) :=
  if left < s.i then pure (.done (countResult s.retValue))
  else if tooLong o s.optionNumberLen then pure (.done (-1))
  else
    let i := u16 (s.i + s.optionNumberLen)
    let retValue := u16 (s.retValue + (s.optionNumberLen + 1))
    if i = left then pure (.done (countResult retValue))
    else if left < i then pure (.done (-1))
    else do
      let b ← rd mem (start + i)
      if b / 16 ≠ 0 then pure (.done (i16 ((retValue : Int) - 1)))
      else if b % 16 = 13 then
        if left ≤ i + 1 then pure (.done (-1))
        else do
          let v ← rd mem (start + u16 (i + 1))
          pure (.more ⟨u16 (u16 (i + 1) + 1), retValue, v + 13⟩)
      else if b % 16 = 14 then
        if left ≤ i + 2 then pure (.done (-1))
        else do
          let lo ← rd mem (start + i + 2)
          let hi ← rd mem (start + i + 1)
          pure (.more ⟨u16 (u16 (i + 2) + 1), retValue, u16 (lo + (hi * 256 + 269))⟩)
      else if b % 16 = 15 then pure (.done (-1))
      else pure (.more ⟨u16 (i + 1), retValue, b % 16⟩)

/-- `sn_coap_parser_options_count_needed_memory_multiple_option`; `start` is the last
byte of the first option's header. -/
def optionsCountNeededMemoryMultipleOption (fuel : Nat) (mem : Mem) (start left : Nat)
    (o : OptionNumber) (len : Nat) : Exec Fault Int :=
  loop (countStep mem start left o) fuel ⟨1, 0, len⟩

/-- The byte between two parts of a repeated option: `'/'` or `'&'`. -/
def separator (o : OptionNumber) : UInt8 :=
  match o with
  | .uriPath | .locationPath => 0x2f
  | _ => 0x26

structure Copy where
  pos : Nat
  out : Bytes
  counter : Nat
  optionNumberLen : Nat
  deriving DecidableEq

structure Copied where
  ret : Int
  pos : Nat
  out : Bytes
  deriving DecidableEq

/-- The separator comes before every part but the first; the part counter has 8 bits. -/
def separated (o : OptionNumber) (s : Copy) : Bytes := if 0 < s.counter then s.out ++ [separator o] else s.out

def copyStep (mem : Mem) (o : OptionNumber) (needed : Int) (s : Copy) :
    Exec Fault (Next Copy Copied) :=
  if needed ≤ (s.out.length : Int) then pure (.done ⟨i8 s.counter, s.pos, s.out⟩)
  else
    let out := separated o s
    let counter := u8 (s.counter + 1)
    let pos := s.pos + 1
    if needed < (out.length : Int) + s.optionNumberLen then pure (.done ⟨-1, pos, out⟩)
    else do
      let bytes ← rdBytes mem pos s.optionNumberLen
      let out := out ++ bytes
      let pos := pos + s.optionNumberLen
      if needed ≤ (out.length : Int) then pure (.done ⟨i8 counter, pos, out⟩)
      else do
        let b ← rd mem pos
        if b / 16 ≠ 0 then pure (.done ⟨i8 counter, pos, out⟩)
        else do
          -- unlike the count, the copy takes a length nibble 15 as it is
          let (len, pos) ← extended mem pos (b % 16)
          pure (.more ⟨pos, out, counter, len⟩)

structure Multiple where
  ret : Int
  pos : Nat
  dst : Option Bytes
  dstLen : Nat
  deriving DecidableEq

/-- `sn_coap_parser_options_parse_multiple_options` after the count; `none` when it returns
before it has stored anything. `dst` is the pointer before the call: only a non-zero length
replaces it. -/
def copyMultipleOptions (fuel : Nat) (mem : Mem) (pos : Nat) (dst : Option Bytes)
    (o : OptionNumber) (len : Nat) (needed : Int) : Exec Fault (Option Multiple) :=
  if needed = -1 then pure none
  else if needed = 0 then pure (some ⟨0, pos, dst, 0⟩)
  else do
    let c ← loop (copyStep mem o needed) fuel ⟨pos, [], 0, len⟩
    pure (some ⟨c.ret, c.pos, some c.out, u16i needed⟩)

/-- `sn_coap_parser_options_parse_multiple_options`. -/
def optionsParseMultipleOptions (fuel : Nat) (mem : Mem) (pos left : Nat)
    (dst : Option Bytes) (o : OptionNumber) (len : Nat) : Exec Fault (Option Multiple) := do
  let needed ← optionsCountNeededMemoryMultipleOption fuel mem pos left o len
  copyMultipleOptions fuel mem pos dst o len needed

/-! ## One option -/

/-- The result of a parsing function: `0` with the packet pointer, or `-1`. -/
inductive Ret where
  | ok (pos : Nat) (m : Hdr)
  | err (m : Hdr)
  deriving DecidableEq

/-- An integer option of at most `max` bytes; `present` refuses a second one. -/
def uintOption (mem : Mem) (max : Nat) (present : Bool) (set : Nat → Hdr) (pos len : Nat)
    (m : Hdr) : Exec Fault Ret :=
  if max < len ∨ present then pure (.err m)
  else do
    let v ← optionsParseUint mem (pos + 1) len 0
    pure (.ok (pos + 1 + len) (set v))

/-- A byte string option of `1` to `max` bytes that must not be repeated. -/
def stringOption (mem : Mem) (max : Nat) (present : Bool) (set : Bytes → Hdr)
    (pos len : Nat) (m : Hdr) : Exec Fault Ret :=
  if max < len ∨ len < 1 ∨ present then pure (.err m)
  else do
    let bytes ← rdBytes mem (pos + 1) len
    pure (.ok (pos + 1 + len) (set bytes))

/-- A repeatable option, stored by `set` in its pointer and its length. -/
def repeatableOption (fuel : Nat) (mem : Mem) (left : Nat) (o : OptionNumber)
    (dst : Option Bytes) (set : Option Bytes → Nat → Hdr) (pos len : Nat)
    (m : Hdr) : Exec Fault Ret := do
  match ← optionsParseMultipleOptions fuel mem pos left dst o len with
  | none => pure (.err m)
  | some r =>
    if 0 ≤ r.ret then pure (.ok r.pos (set r.dst r.dstLen))
    else pure (.err (set r.dst r.dstLen))

/-- The options for which the options list is allocated. -/
def inOptionsList : OptionNumber → Bool
  | .maxAge | .proxyUri | .etag | .uriHost | .locationPath | .uriPort | .locationQuery
  | .observe | .uriQuery | .block2 | .block1 | .accept | .size1 | .size2 => true
  | _ => false

/-- The switch of `sn_coap_parser_options_parse` over a known option number. -/
def parseOption (fuel : Nat) (mem : Mem) (left : Nat) (o : OptionNumber) (pos len : Nat)
    (m : Hdr) : Exec Fault Ret :=
  let m := if inOptionsList o then m.allocOptions else m
  match o with
  | .contentFormat => uintOption mem 2 (m.contentFormat ≠ ctNone) (fun v => { m with contentFormat := v }) pos len m
  | .maxAge =>
    -- the only integer option that may come again; the last value stays
    uintOption mem 4 false (fun v => m.modifyOptions fun l => { l with maxAge := v }) pos len m
  | .proxyUri =>
    stringOption mem 1034 m.options.proxyUriPtr.isSome
      (fun bs => m.modifyOptions fun l => { l with proxyUriLen := len, proxyUriPtr := some bs })
      pos len m
  | .etag =>
    repeatableOption fuel mem left .etag m.options.etagPtr
      (fun dst n => m.modifyOptions fun l => ({ l with etagPtr := dst }).setEtagLen16 n) pos len m
  | .uriHost =>
    stringOption mem 255 m.options.uriHostPtr.isSome
      (fun bs => m.modifyOptions fun l => { l with uriHostLen := len, uriHostPtr := some bs })
      pos len m
  | .locationPath =>
    if m.options.locationPathPtr.isSome then pure (.err m)
    else
      repeatableOption fuel mem left .locationPath m.options.locationPathPtr
        (fun dst n => m.modifyOptions fun l => { l with locationPathPtr := dst, locationPathLen := n })
        pos len m
  | .uriPort =>
    uintOption mem 2 (m.options.uriPort ≠ uriPortNone) (fun v => m.modifyOptions fun l => { l with uriPort := v }) pos len m
  | .locationQuery =>
    repeatableOption fuel mem left .locationQuery m.options.locationQueryPtr
      (fun dst n => m.modifyOptions fun l => { l with locationQueryPtr := dst, locationQueryLen := n })
      pos len m
  | .uriPath =>
    repeatableOption fuel mem left .uriPath m.uriPathPtr (fun dst n => { m with uriPathPtr := dst, uriPathLen := n }) pos len m
  | .observe =>
    uintOption mem 2 (m.options.observe ≠ observeNone) (fun v => m.modifyOptions fun l => { l with observe := v }) pos len m
  | .uriQuery =>
    repeatableOption fuel mem left .uriQuery m.options.uriQueryPtr
      (fun dst n => m.modifyOptions fun l => { l with uriQueryPtr := dst, uriQueryLen := n })
      pos len m
  | .block2 =>
    uintOption mem 3 (m.options.block2 ≠ blockNone) (fun v => m.modifyOptions fun l => { l with block2 := v }) pos len m
  | .block1 =>
    uintOption mem 3 (m.options.block1 ≠ blockNone) (fun v => m.modifyOptions fun l => { l with block1 := v }) pos len m
  | .accept => uintOption mem 2 (m.options.accept ≠ ctNone) (fun v => m.modifyOptions fun l => { l with accept := v }) pos len m
  | .size1 =>
    uintOption mem 4 m.options.useSize1 (fun v => m.modifyOptions fun l => { l with useSize1 := true, size1 := v }) pos len m
  | .size2 =>
    uintOption mem 4 m.options.useSize2 (fun v => m.modifyOptions fun l => { l with useSize2 := true, size2 := v }) pos len m
  | .ifMatch | .ifNoneMatch | .proxyScheme => pure (.err m)

/-! ## The options loop -/

/-- The state at the head of the options loop. -/
structure OptState where
  pos : Nat
  previousOptionNumber : Nat
  messageLeft : Nat
  msg : Hdr
  deriving DecidableEq

/-- An option header with its extensions; `pos` is its last byte. -/
structure Head where
  optionNumber : Nat
  len : Nat
  pos : Nat
  deriving DecidableEq

/-- The header whose first byte is `b`; `none` for the reserved nibble `15`. -/
def optionHead (mem : Mem) (pos previousOptionNumber b : Nat) : Exec Fault (Option Head) :=
  if b / 16 = 15 then pure none
  else do
    let (delta, pos) ← extended mem pos (b / 16)
    if b % 16 = 15 then pure none
    else do
      let (len, pos) ← extended mem pos (b % 16)
      pure (some ⟨u16 (delta + previousOptionNumber), len, pos⟩)

/-- The check at the end of an iteration, and the state of the next one. -/
def optionsNext (packetLen optionNumber : Nat) : Ret → Next OptState Ret
  | .err m => .done (.err m)
  | .ok pos m =>
    if packetLen < pos then .done (.err m)
    else .more ⟨pos, u8 optionNumber, sub16 packetLen pos, m⟩

def optionsBody (fuel : Nat) (mem : Mem) (packetLen : Nat) (s : OptState) :
    Option Head → Exec Fault (Next OptState Ret)
  | none => pure (.done (.err s.msg))
  | some h =>
    match OptionNumber.ofNat? h.optionNumber with
    | none => pure (.done (.err s.msg))
    | some o => do
      let r ← parseOption fuel mem (sub16 packetLen h.pos) o h.pos h.len s.msg
      pure (optionsNext packetLen h.optionNumber r)

def optionsStep (fuel : Nat) (mem : Mem) (packetLen : Nat) (s : OptState) :
    Exec Fault (Next OptState Ret) :=
  if s.messageLeft = 0 then pure (.done (.ok s.pos s.msg))
  else do
    let b ← rd mem s.pos
    if b = 0xff then pure (.done (.ok s.pos s.msg))
    else do
      let h ← optionHead mem s.pos s.previousOptionNumber b
      optionsBody fuel mem packetLen s h

/-- The token, and the state in which the options loop starts; `none` when the token
length is not valid. -/
def tokenParse (mem : Mem) (packetLen pos : Nat) (m : Hdr) :
    Exec Fault (Hdr × Option OptState) := do
  let b ← rd mem 0
  let m := { m with tokenLen := b % 16 }
  if m.tokenLen = 0 then pure (m, some ⟨pos, 0, sub16 packetLen pos, m⟩)
  else if 8 < m.tokenLen ∨ m.tokenPtr.isSome then pure (m, none)
  else do
    let bytes ← rdBytes mem pos m.tokenLen
    let pos := pos + m.tokenLen
    let m := { m with tokenPtr := some bytes }
    pure (m, some ⟨pos, 0, sub16 packetLen pos, m⟩)

/-- `sn_coap_parser_options_parse`. -/
def optionsParse (fuel : Nat) (mem : Mem) (packetLen pos : Nat) (m : Hdr) : Exec Fault Ret := do
  match ← tokenParse mem packetLen pos m with
  | (m, none) => pure (.err m)
  | (_, some s) => loop (optionsStep fuel mem packetLen) fuel s

/-! ## The parser -/

def msgTypeOf (b : Nat) : MsgType :=
  match b / 16 % 4 with
  | 0 => .confirmable
  | 1 => .nonConfirmable
  | 2 => .acknowledgement
  | _ => .reset

/-- `sn_coap_parser_header_parse`: the message, and the version bits. -/
def headerParse (mem : Mem) (m : Hdr) : Exec Fault (Hdr × Nat) := do
  let b0 ← rd mem 0
  let b1 ← rd mem 1
  let b3 ← rd mem 3
  let b2 ← rd mem 2
  pure ({ m with msgType := msgTypeOf b0, msgCode := b1, msgId := u16 (b3 + b2 * 256) }, b0 / 64 * 64)

/-- `sn_coap_parser_payload_parse`. -/
def payloadParse (mem : Mem) (packetLen pos : Nat) (m : Hdr) : Exec Fault Ret :=
  if pos < packetLen then do
    let b ← rd mem pos
    if b = 0xff then
      let m := { m with payloadLen := sub16 packetLen (pos + 1) }
      if m.payloadLen = 0 then pure (.err m)
      else
        let payload := memBytes mem (pos + 1) m.payloadLen
        pure (.ok (pos + 1) { m with payloadPtr := some payload })
    else pure (.err m)
  else pure (.ok pos m)

/-- The end of `sn_coap_parser`: the payload, and the status of the message. -/
def parserFinish (mem : Mem) (packetLen version : Nat) : Ret → Exec Fault (Option (Hdr × Nat))
  | .err m => pure (some ({ m with coapStatus := .parserErrorInHeader }, version))
  | .ok pos m => do
    match ← payloadParse mem packetLen pos m with
    | .err m => pure (some ({ m with coapStatus := .parserErrorInHeader }, version))
    | .ok _ m => pure (some (m, version))

/-- `sn_coap_parser`: the message and the version; `none` is `NULL`. -/
def snCoapParser (fuel : Nat) (mem : Mem) (packetLen : Nat) : Exec Fault (Option (Hdr × Nat)) :=
  if packetLen < 4 then pure none
  else do
    let (m, version) ← headerParse mem {}
    let r ← optionsParse fuel mem packetLen 4 m
    parserFinish mem packetLen version r

end Parser

end MbedCloud.Coap

