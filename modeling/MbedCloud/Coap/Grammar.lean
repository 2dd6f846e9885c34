import MbedCloud.Lib.Segment
import MbedCloud.Coap.Header

/-!
# The packet format

The format of RFC 7252 in its own terms, without reference to the parser: a packet is a
header, a token, a sequence of options with increasing option numbers, and a payload.
`Packet.bytes` is the byte string of a packet, and `Packet.message` the message that it
stands for: a single-valued option gives its field, the instances of a repeatable option
are joined in order, and every other field has its default.
-/

namespace MbedCloud.Coap.Grammar

open List

/-! ## Options -/

structure Opt where
  number : Nat
  value : Bytes
  deriving DecidableEq

/-- The nibble for an option delta or length. -/
def nibble (v : Nat) : Nat := if v < 13 then v else if v < 269 then 13 else 14

/-- The extension bytes for an option delta or length. -/
def extension (v : Nat) : Bytes :=
  if v < 13 then []
  else if v < 269 then [UInt8.ofNat (v - 13)]
  else [UInt8.ofNat ((v - 269) / 256), UInt8.ofNat ((v - 269) % 256)]

/-- The largest delta or length: two extension bytes that are all ones. -/
def maxExtended : Nat := 65804

def headerBytes (delta len : Nat) : Bytes := UInt8.ofNat (16 * nibble delta + nibble len) :: (extension delta ++ extension len)

def optionBytes (delta : Nat) (value : Bytes) : Bytes := headerBytes delta value.length ++ value

/-- The options after an option with the number `prev`. -/
def optionsBytes : Nat → List Opt → Bytes
  | _, [] => []
  | prev, x :: xs => optionBytes (x.number - prev) x.value ++ optionsBytes x.number xs

def lastNumber : Nat → List Opt → Nat
  | prev, [] => prev
  | _, x :: xs => lastNumber x.number xs

/-- The option numbers do not decrease, and deltas and lengths can be written down. -/
def Ordered : Nat → List Opt → Prop
  | _, [] => True
  | prev, x :: xs => prev ≤ x.number ∧ x.number - prev ≤ maxExtended ∧
      x.value.length ≤ maxExtended ∧ Ordered x.number xs

/-! ## The fields of the message -/

/-- The options with at most one instance. -/
def singleValued : OptionNumber → Bool
  | .uriHost | .observe | .uriPort | .contentFormat | .maxAge | .accept | .block2 | .block1
  | .size2 | .proxyUri | .size1 => true
  | _ => false

/-- The options whose instances are joined. -/
def multiValued : OptionNumber → Bool
  | .etag | .locationPath | .uriPath | .uriQuery | .locationQuery => true
  | _ => false

def values (o : OptionNumber) (xs : List Opt) : List Bytes := (xs.filter fun x => decide (x.number = o.num)).map Opt.value

def beNat (value : Bytes) : Nat := value.foldl (fun a b => a * 256 + b.toNat) 0

/-- An integer field with an internal value for an absent option. -/
def uintField (absent : Int) : List Bytes → Int
  | [] => absent
  | v :: _ => beNat v

def natField (default : Nat) : List Bytes → Nat
  | [] => default
  | v :: _ => beNat v

/-- The parts, with the separator between them. -/
def join (sep : UInt8) : List Bytes → Bytes
  | [] => []
  | v :: vs => v ++ vs.flatMap (sep :: ·)

/-- A pointer field for the joined instances. -/
def joinedField (sep : UInt8) : List Bytes → Option Bytes
  | [] => none
  | v :: vs => some (join sep (v :: vs))

def slash : UInt8 := 0x2f
def ampersand : UInt8 := 0x26

def optionsList (xs : List Opt) : OptionsList where
  etagLen := (join ampersand (values .etag xs)).length
  useSize1 := !(values .size1 xs).isEmpty
  useSize2 := !(values .size2 xs).isEmpty
  proxyUriLen := (values .proxyUri xs).head?.elim 0 List.length
  uriHostLen := (values .uriHost xs).head?.elim 0 List.length
  locationPathLen := (join slash (values .locationPath xs)).length
  locationQueryLen := (join ampersand (values .locationQuery xs)).length
  uriQueryLen := (join ampersand (values .uriQuery xs)).length
  accept := uintField ctNone (values .accept xs)
  maxAge := natField maxAgeDefault (values .maxAge xs)
  size1 := natField 0 (values .size1 xs)
  size2 := natField 0 (values .size2 xs)
  uriPort := uintField uriPortNone (values .uriPort xs)
  observe := uintField observeNone (values .observe xs)
  block1 := uintField blockNone (values .block1 xs)
  block2 := uintField blockNone (values .block2 xs)
  proxyUriPtr := (values .proxyUri xs).head?
  etagPtr := joinedField ampersand (values .etag xs)
  uriHostPtr := (values .uriHost xs).head?
  locationPathPtr := joinedField slash (values .locationPath xs)
  locationQueryPtr := joinedField ampersand (values .locationQuery xs)
  uriQueryPtr := joinedField ampersand (values .uriQuery xs)

/-- The options outside of the options list. -/
def inMessage (number : Nat) : Bool :=
  decide (number = OptionNumber.num .uriPath) || decide (number = OptionNumber.num .contentFormat)

/-- The message `base` with the fields that the options give. -/
def fields (base : Hdr) (xs : List Opt) : Hdr :=
  { base with
    contentFormat := uintField ctNone (values .contentFormat xs)
    uriPathLen := (join slash (values .uriPath xs)).length
    uriPathPtr := joinedField slash (values .uriPath xs)
    optionsListPtr := if xs.all (fun x => inMessage x.number) then none else some (optionsList xs) }

/-! ## Packets -/

structure Packet where
  version : Nat
  msgType : MsgType
  code : UInt8
  idHigh : UInt8
  idLow : UInt8
  token : Bytes
  options : List Opt
  payload : Bytes

/-- Every instance has a field of its own: its option is known, and a single-valued option
comes once. -/
def EachCounts (xs : List Opt) : Prop :=
  (∀ x ∈ xs, ∃ o, o.num = x.number ∧ (singleValued o = true ∨ multiValued o = true)) ∧
    ∀ o, singleValued o = true → (values o xs).length ≤ 1

structure Packet.WellFormed (k : Packet) : Prop where
  version : k.version < 4
  token : k.token.length ≤ 8
  ordered : Ordered 0 k.options
  counts : EachCounts k.options

/-- The payload marker is there only with a payload. -/
def payloadBytes : Bytes → Bytes
  | [] => []
  | b :: bs => 0xff :: b :: bs

def Packet.bytes (k : Packet) : Bytes :=
  [UInt8.ofNat (64 * k.version + k.msgType.bits + k.token.length), k.code, k.idHigh, k.idLow] ++
    k.token ++ optionsBytes 0 k.options ++ payloadBytes k.payload

/-- A pointer to bytes, `NULL` for none. -/
def pointer : Bytes → Option Bytes
  | [] => none
  | b :: bs => some (b :: bs)

def Packet.base (k : Packet) : Hdr :=
  { msgType := k.msgType
    msgCode := k.code.toNat
    msgId := k.idHigh.toNat * 256 + k.idLow.toNat
    tokenLen := k.token.length
    tokenPtr := pointer k.token
    payloadLen := k.payload.length
    payloadPtr := pointer k.payload }

def Packet.message (k : Packet) : Hdr := fields k.base k.options

/-! ## Appending instances -/

section

variable {prev : Nat} {xs ys : List Opt}

theorem optionsBytes_append : optionsBytes prev (xs ++ ys) = optionsBytes prev xs ++ optionsBytes (lastNumber prev xs) ys := by
  induction xs generalizing prev with
  | nil => rfl
  | cons x xs ih => simp only [cons_append, optionsBytes, lastNumber, ih, append_assoc]

theorem lastNumber_append : lastNumber prev (xs ++ ys) = lastNumber (lastNumber prev xs) ys := by
  induction xs generalizing prev with
  | nil => rfl
  | cons x xs ih => simp only [cons_append, lastNumber, ih]

theorem ordered_append : Ordered prev (xs ++ ys) ↔ Ordered prev xs ∧ Ordered (lastNumber prev xs) ys := by
  induction xs generalizing prev with
  | nil => simp [Ordered, lastNumber]
  | cons x xs ih => simp only [cons_append, Ordered, lastNumber, ih, and_assoc]

theorem Ordered.le_last (h : Ordered prev xs) : prev ≤ lastNumber prev xs ∧ ∀ x ∈ xs, x.number ≤ lastNumber prev xs := by
  induction xs generalizing prev with
  | nil => simp [lastNumber]
  | cons x xs ih =>
    obtain ⟨hle, -, -, hrest⟩ := h
    obtain ⟨hx, hxs⟩ := ih hrest
    refine ⟨Nat.le_trans hle hx, ?_⟩
    intro y hy
    rcases mem_cons.mp hy with rfl | hy
    · exact hx
    · exact hxs y hy

@[simp]
theorem values_nil (o : OptionNumber) : values o [] = [] := rfl

theorem values_append (o : OptionNumber) : values o (xs ++ ys) = values o xs ++ values o ys := by simp [values]

def instances (o : OptionNumber) (vs : List Bytes) : List Opt := vs.map (Opt.mk o.num)

theorem values_instances (o o' : OptionNumber) (vs : List Bytes) : values o (instances o' vs) = if o = o' then vs else [] := by
  unfold values instances
  split
  · rename_i heq
    subst heq
    induction vs with
    | nil => rfl
    | cons v vs ih => simpa using ih
  · rename_i hne
    have hnum : ¬ o'.num = o.num := fun h => hne (OptionNumber.num_inj h).symm
    simp [hnum]

theorem values_eq_nil {o : OptionNumber} (h : ∀ x ∈ xs, x.number ≠ o.num) : values o xs = [] := by
  unfold values
  rw [filter_eq_nil_iff.mpr (by simpa using h)]
  rfl

theorem lastNumber_instances (o : OptionNumber) (prev : Nat) (v : Bytes) (vs : List Bytes) :
    lastNumber prev (instances o (v :: vs)) = o.num := by
  induction vs generalizing prev v with
  | nil => rfl
  | cons w vs ih => exact ih o.num w

theorem EachCounts.append {o : OptionNumber} (h : EachCounts xs) (hv : singleValued o = true ∨ multiValued o = true)
    (vs : List Bytes) (hsingle : singleValued o = true → (values o xs ++ vs).length ≤ 1) :
    EachCounts (xs ++ instances o vs) := by
  obtain ⟨hknown, honce⟩ := h
  constructor
  · intro x hx
    rcases mem_append.mp hx with hx | hx
    · exact hknown x hx
    · obtain ⟨v, -, rfl⟩ := mem_map.mp hx
      exact ⟨o, rfl, hv⟩
  intro o' ho'
  rw [values_append, values_instances]
  by_cases heq : o' = o
  · subst heq
    simpa using hsingle ho'
  · simpa [heq] using honce o' ho'

end

end MbedCloud.Coap.Grammar

