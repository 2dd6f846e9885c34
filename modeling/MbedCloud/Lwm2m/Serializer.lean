import MbedCloud.Lwm2m.Format

/-!
# The TLV serializer

`M2MTLVSerializer::serialize_TILV` appends one record to a buffer: it allocates a new block for the
old bytes and the record. The sizes have 32 bits, and a copy behind the end of the block is a fault.
A buffer is decoded with `TypeIdLength::deserialize` from entry to entry.
-/

namespace MbedCloud.Lwm2m

open Lib List

/-! ## Writing records -/

/-- `M2MTLVSerializer::serialize_id` -/
def serializeId (id : Nat) : Bytes := if id > 255 then [.ofNat (id / 256), .ofNat id] else [.ofNat id]

/-- `M2MTLVSerializer::serialize_length` -/
def serializeLength (length : Nat) : Bytes :=
  if length > 65535 then [.ofNat (length / 65536), .ofNat (length / 256), .ofNat length]
  else if length > 255 then [.ofNat (length / 256), .ofNat length]
  else if length > 7 then [.ofNat length]
  else []

/-- The type byte, with `ID16`, `LENGTH8`, `LENGTH16` and `LENGTH24`. -/
def tlvType (type : EntryType) (id valueLength : Nat) : Nat :=
  u8 (u8 (type.code * 64 + if id < 256 then 0 else 0x20) +
    if valueLength < 8 then valueLength
    else if valueLength < 256 then 0x08
    else if valueLength < 65536 then 0x10
    else 0x18)

/-- `data` and `size`; a `NULL` pointer comes with the size 0. -/
structure Buffer where
  data : Option Bytes
  size : Nat
  deriving DecidableEq

/-- `M2MTLVSerializer::serialize_TILV`; `none` when there is no memory. -/
def serializeTILV (alloc : Bool) (type : EntryType) (id : Nat) (value : Bytes) (b : Buffer) :
    Except Fault (Option Buffer) :=
  let header := UInt8.ofNat (tlvType type id value.length) :: (serializeId id ++ serializeLength value.length)
  let size := u32 (b.size + header.length + value.length)
  if !alloc then .ok none
  else if size < b.size + header.length + value.length then .error (.outside size)
  else .ok (some ⟨some (b.data.getD [] ++ header ++ value), size⟩)

structure Record where
  type : EntryType
  id : Nat
  value : Bytes
  id_lt : id < 65536
  value_lt : value.length < 16777216

def serializeRecords : List Record → Buffer → Except Fault (Option Buffer)
  | [], b => .ok (some b)
  | r :: rs, b => do
    match ← serializeTILV true r.type r.id r.value b with
    | none => pure none
    | some b => serializeRecords rs b

/-! ## Reading them -/

/-- A type, an identifier, a length and a value. -/
abbrev Decoded := EntryType × Nat × Nat × Bytes

def Record.decoded (r : Record) : Decoded := (r.type, r.id, r.value.length, r.value)

/-- One entry at the running offset. -/
def decodeStep (tlv : Bytes) (s : Nat × List Decoded) :
    Exec Fault (Next (Nat × List Decoded) (Nat × List Decoded)) :=
  if s.1 < tlv.length then do
    let t ← typeIdLength tlv s.1
    let value ← rdBytes tlv t.offset t.length
    pure (.more (t.next, s.2 ++ [(t.type, t.id, t.length, value)]))
  else pure (.done s)

/-- The records can be serialized, and the buffer is decoded as these records up to its end. -/
def RoundTrips (rs : List Record) : Prop :=
  ∃ tlv, serializeRecords rs ⟨none, 0⟩ = .ok (some ⟨tlv, (tlv.getD []).length⟩) ∧
    Outcome (fun k => loop (decodeStep (tlv.getD [])) k (0, [])) (.ok ((tlv.getD []).length, rs.map Record.decoded))

/-! ## The format of a record -/

def lengthBytes (length : Nat) : Nat := if length < 8 then 0 else if length < 256 then 1 else if length < 65536 then 2 else 3

namespace Record

def piece (r : Record) : Piece := ⟨⟨decide (256 ≤ r.id), lengthBytes r.value.length⟩, r.type, r.id, r.value⟩

theorem piece_fits (r : Record) : r.piece.Fits := by
  have hid := r.id_lt
  have hvalue := r.value_lt
  refine ⟨?_, ?_, ?_⟩
  · by_cases hwide : 256 ≤ r.id <;> simp [piece, hwide] <;> omega
  · simp only [piece, lengthBytes]
    split_ifs <;> omega
  · simp only [piece, lengthBytes]
    split_ifs <;> simp_all

theorem header_eq (r : Record) : r.piece.header = UInt8.ofNat (tlvType r.type r.id r.value.length) ::
      (serializeId r.id ++ serializeLength r.value.length) := by
  have hcode : r.type.code ≤ 3 := by cases r.type <;> decide
  have hlead : r.piece.lead = tlvType r.type r.id r.value.length := by
    unfold Piece.lead tlvType u8 piece lengthBytes
    grind
  have hid : bigEndian (if r.piece.form.wide then 2 else 1) r.id = serializeId r.id := by
    by_cases hwide : 256 ≤ r.id
    · simp [piece, hwide, bigEndian, serializeId, show r.id > 255 by omega]
    · simp [piece, hwide, bigEndian, serializeId, show ¬ r.id > 255 by omega]
  have hlength : bigEndian (lengthBytes r.value.length) r.value.length = serializeLength r.value.length := by
    unfold lengthBytes serializeLength
    split_ifs <;> first | omega | simp [bigEndian]
  rw [Piece.header, hlead]
  exact congrArg _ (congr (congrArg _ hid) hlength)

theorem serializeTILV_eq (r : Record) (b : Buffer) : serializeTILV true r.type r.id r.value b =
      if b.size + r.piece.encode.length < 4294967296 then
        .ok (some ⟨some (b.data.getD [] ++ r.piece.encode), b.size + r.piece.encode.length⟩)
      else .error (.outside (u32 (b.size + r.piece.encode.length))) := by
  have hencode : r.piece.encode.length = r.piece.header.length + r.value.length := length_append
  unfold serializeTILV
  simp only [← r.header_eq, Bool.not_true, Bool.false_eq_true, if_false]
  rw [Nat.add_assoc, ← hencode]
  unfold u32
  split_ifs with hwrap hfits
  · omega
  · rfl
  · rw [append_assoc, Nat.mod_eq_of_lt (by omega)]
    rfl
  · omega

theorem length_lt_encode (r : Record) : r.value.length < r.piece.encode.length := by
  rw [Piece.encode, length_append]
  exact Nat.lt_add_of_pos_left (Nat.succ_pos _)

end Record

def encodedRecords (rs : List Record) : Bytes := encodeAll (rs.map Record.piece)

theorem encodedRecords_cons (r : Record) (rs : List Record) :
    encodedRecords (r :: rs) = r.piece.encode ++ encodedRecords rs := encodeAll_cons _ _

variable {rs : List Record} {b : Buffer}

theorem serializeRecords_eq (hsize : b.size = (b.data.getD []).length)
    (hfits : b.size + (encodedRecords rs).length < 4294967296) :
    ∃ tlv, serializeRecords rs b = .ok (some ⟨tlv, (tlv.getD []).length⟩) ∧
      tlv.getD [] = b.data.getD [] ++ encodedRecords rs := by
  induction rs generalizing b with
  | nil =>
    refine ⟨b.data, ?_, (append_nil _).symm⟩
    rw [← hsize]
    rfl
  | cons r rs ih =>
    rw [encodedRecords_cons, length_append] at hfits
    obtain ⟨tlv, htlv, hbytes⟩ := ih (b := ⟨some (b.data.getD [] ++ r.piece.encode), b.size + r.piece.encode.length⟩)
      (by simp [hsize]) (by dsimp only; omega)
    refine ⟨tlv, ?_, ?_⟩
    · rw [serializeRecords, r.serializeTILV_eq, if_pos (by omega)]
      exact htlv
    · rw [hbytes, encodedRecords_cons, ← append_assoc]
      rfl

theorem serializeRecords_fits {x : Option Buffer} (hsize : b.size < 4294967296) (hok : serializeRecords rs b = .ok x) :
    b.size + (encodedRecords rs).length < 4294967296 := by
  induction rs generalizing b with
  | nil => exact hsize
  | cons r rs ih =>
    rw [serializeRecords, r.serializeTILV_eq] at hok
    by_cases hfits : b.size + r.piece.encode.length < 4294967296
    · rw [if_pos hfits] at hok
      have hrest : b.size + r.piece.encode.length + (encodedRecords rs).length < 4294967296 := ih hfits hok
      rwa [encodedRecords_cons, length_append, ← Nat.add_assoc]
    · rw [if_neg hfits] at hok
      cases hok

theorem decode_records {tlv : Bytes} {o : Nat} (acc : List Decoded) (h : Rest tlv o (rs.map Record.piece)) :
    Outcome (fun k => loop (decodeStep tlv) k (o, acc)) (.ok (tlv.length, acc ++ rs.map Record.decoded)) := by
  induction rs generalizing o acc with
  | nil =>
    have hend : ¬ o < tlv.length := Nat.not_lt.mpr (Nat.le_of_eq h.length.symm)
    refine ⟨by simp, 1, ?_⟩
    dsimp only
    rw [loop, decodeStep, if_neg hend, ← h.length, map_nil, map_nil, append_nil]
    rfl
  | cons r rs ih =>
    have hinside := h.head.le_length r.piece.encode_ne_nil
    have hpos := length_pos_iff.mpr r.piece.encode_ne_nil
    have hstep : decodeStep tlv (o, acc) = .ok (.more (o + r.piece.encode.length, acc ++ [r.decoded])) := by
      rw [decodeStep, if_pos (by dsimp only; omega), h.typeIdLength, ok_bind, h.value, ok_bind, h.next]
      rfl
    obtain ⟨-, k, hk⟩ := ih (acc ++ [r.decoded]) h.tail
    refine ⟨by simp, k + 1, ?_⟩
    dsimp only
    rw [loop, hstep]
    simpa using hk

/-- Records can be decoded from their serialization if and only if its size has 32 bits. -/
theorem records_roundTrip_iff (rs : List Record) : RoundTrips rs ↔ (encodedRecords rs).length < 4294967296 := by
  constructor
  · rintro ⟨tlv, hok, -⟩
    simpa using serializeRecords_fits (b := ⟨none, 0⟩) (by decide) hok
  · intro hfits
    obtain ⟨tlv, hok, hbytes⟩ := serializeRecords_eq (b := ⟨none, 0⟩) rfl (by simpa using hfits)
    have hbytes' : tlv.getD [] = encodedRecords rs := hbytes
    refine ⟨tlv, hok, ?_⟩
    rw [hbytes']
    exact decode_records [] ⟨fun i _ => by rw [Nat.zero_add, encodedRecords], Nat.zero_add _, fun p hp => by
      obtain ⟨r, -, rfl⟩ := mem_map.mp hp
      exact r.piece_fits, hfits⟩

theorem longValue_lt : (List.replicate 16777215 (0 : UInt8)).length < 16777216 := by
  rw [length_replicate]
  omega

def longRecord : Record := ⟨.resource, 0, List.replicate 16777215 0, Nat.succ_pos 65535, longValue_lt⟩

theorem le_length_replicate (r : Record) (n : Nat) : n * (r.value.length + 1) ≤ (encodedRecords (List.replicate n r)).length := by
  induction n with
  | zero => rw [Nat.zero_mul]; exact Nat.zero_le _
  | succ n ih =>
    rw [replicate_succ, encodedRecords_cons, length_append, Nat.succ_mul, Nat.add_comm]
    exact Nat.add_le_add r.length_lt_encode ih

theorem not_roundTrips_long : ¬ RoundTrips (List.replicate 256 longRecord) := by
  have hlong : longRecord.value.length = 16777215 := length_replicate
  have hle := le_length_replicate longRecord 256
  rw [hlong] at hle
  rw [records_roundTrip_iff]
  exact Nat.not_lt_of_ge hle

end MbedCloud.Lwm2m

