import Mathlib.Tactic.Ring
import MbedCloud.Lib.Segment
import MbedCloud.Lwm2m.Bounds

/-!
# Well-formed payloads

The TLV format of LwM2M: an entry is a byte with the type and the sizes of the fields, an identifier
of one or two bytes, a length of up to three bytes (one below 8 stands in the first byte), and the
value. A payload is a sequence of entries; the value of an object instance is a sequence of
resources, and that of a multiple resource a sequence of resource instances.

`typeIdLength_piece` is the decoding of a header, and `Rest.walk_items` is the walk of the deserializer
over a sequence. A walk inside an entry does not end with it: `Rest.body` is the sequence of all
entries from there to the end of the payload.
-/

namespace MbedCloud.Lwm2m

open Lib List

/-! ## Entries as bytes -/

structure Form where
  wide : Bool
  lengthBytes : Nat
  deriving DecidableEq

structure Piece where
  form : Form
  type : EntryType
  id : Nat
  body : Bytes
  deriving DecidableEq

def bigEndian : Nat → Nat → Bytes
  | 0, _ => []
  | n + 1, x => UInt8.ofNat (x / 256 ^ n) :: bigEndian n x

def EntryType.code : EntryType → Nat
  | .objectInstance => 0
  | .resourceInstance => 1
  | .multipleResource => 2
  | .resource => 3

namespace Piece

def Fits (p : Piece) : Prop :=
  p.id < (if p.form.wide then 65536 else 256) ∧ p.form.lengthBytes ≤ 3 ∧
    p.body.length < (if p.form.lengthBytes = 0 then 8 else 256 ^ p.form.lengthBytes)

instance (p : Piece) : Decidable p.Fits := inferInstanceAs (Decidable (_ ∧ _ ∧ _))

def lead (p : Piece) : Nat :=
  p.type.code * 64 + (if p.form.wide then 32 else 0) + p.form.lengthBytes * 8 +
    (if p.form.lengthBytes = 0 then p.body.length else 0)

def header (p : Piece) : Bytes :=
  UInt8.ofNat p.lead :: (bigEndian (if p.form.wide then 2 else 1) p.id ++
    bigEndian p.form.lengthBytes p.body.length)

def encode (p : Piece) : Bytes := p.header ++ p.body

def headerAt (p : Piece) (o : Nat) : TypeIdLength := ⟨o + p.header.length, p.type, p.id, p.body.length⟩

end Piece

def encodeAll (ps : List Piece) : Bytes := ps.flatMap Piece.encode

@[simp] theorem bigEndian_length (n x : Nat) : (bigEndian n x).length = n := by
  induction n with
  | zero => rfl
  | succ n ih => rw [bigEndian, length_cons, ih]

theorem Piece.encode_ne_nil (p : Piece) : p.encode ≠ [] := cons_ne_nil _ _

theorem encodeAll_cons (p : Piece) (ps : List Piece) : encodeAll (p :: ps) = p.encode ++ encodeAll ps := flatMap_cons

theorem encodeAll_append (ps qs : List Piece) : encodeAll (ps ++ qs) = encodeAll ps ++ encodeAll qs := flatMap_append

theorem encodeAll_pos {ps : List Piece} (hne : ps ≠ []) : 0 < (encodeAll ps).length := by
  cases ps with
  | nil => exact absurd rfl hne
  | cons p ps =>
    rw [encodeAll_cons, length_append]
    have := length_pos_iff.mpr p.encode_ne_nil
    omega

/-! ## Headers -/

section

variable {tlv : Bytes} {o : Nat} {p : Piece}

theorem rd_at {b : UInt8} (h : tlv[o]? = some b) : rd tlv o = .ok b.toNat := by rw [rd, h]

theorem rdBytes_at {bs : Bytes} (hat : At tlv o bs) : rdBytes tlv o bs.length = .ok bs := by
  induction bs generalizing o with
  | nil => rfl
  | cons b bs ih =>
    obtain ⟨hb, hbs⟩ := at_cons.mp hat
    rw [length_cons, rdBytes, rd_at hb]
    dsimp only [bind, Except.bind]
    rw [ih hbs]
    dsimp only [pure, Except.pure]
    rw [UInt8.ofNat_toNat]

theorem deserialiseLength_at {n x length : Nat} (hat : At tlv o (bigEndian n x)) (hsize : o + n < 4294967296) :
    deserialiseLength tlv n length o = .ok (length * 256 ^ n + x % 256 ^ n, o + n) := by
  induction n generalizing length o with
  | zero =>
    rw [deserialiseLength, Nat.pow_zero, Nat.mod_one]
    simp [pure, Except.pure]
  | succ n ih =>
    obtain ⟨hb, hbs⟩ := at_cons.mp hat
    rw [deserialiseLength, rd_at hb, ok_bind]
    have hu32 : u32 (o + 1) = o + 1 := Nat.mod_eq_of_lt (by omega)
    rw [hu32, ih hbs (by omega), UInt8.toNat_ofNat']
    have hdigit : x % 256 ^ (n + 1) = x % 256 ^ n + 256 ^ n * (x / 256 ^ n % 256) := by rw [Nat.pow_succ, Nat.mod_mul]
    rw [hdigit, Nat.pow_succ]
    congr 2
    · ring
    · ring

theorem deserialiseID_at {id : Nat} {wide : Bool} (hid : id < if wide then 65536 else 256)
    (hat : At tlv o (bigEndian (if wide then 2 else 1) id))
    (hsize : o + (if wide then 2 else 1) < 4294967296) :
    deserialiseID tlv wide o = .ok (id, o + if wide then 2 else 1) := by
  cases wide with
  | true =>
    simp only [if_true] at hid hat hsize ⊢
    have hu32 : ∀ n ≤ 2, u32 (o + n) = o + n := fun n hn => Nat.mod_eq_of_lt (by omega)
    obtain ⟨hhigh, hat⟩ := at_cons.mp hat
    obtain ⟨hlow, -⟩ := at_cons.mp hat
    rw [deserialiseID, rd_at hhigh]
    dsimp only [bind, Except.bind, if_true]
    rw [if_pos rfl, hu32 1 (by omega), hu32 2 (by omega), rd_at hlow]
    dsimp only [pure, Except.pure]
    rw [UInt8.toNat_ofNat', UInt8.toNat_ofNat']
    congr 2
    omega
  | false =>
    simp only [Bool.false_eq_true, if_false] at hid hat hsize ⊢
    have hu32 : u32 (o + 1) = o + 1 := Nat.mod_eq_of_lt (by omega)
    obtain ⟨hhigh, -⟩ := at_cons.mp hat
    rw [deserialiseID, rd_at hhigh]
    dsimp only [bind, Except.bind]
    rw [if_neg (by simp), hu32]
    rw [UInt8.toNat_ofNat']
    congr 2
    omega

theorem Piece.lead_lt (hfits : p.Fits) : p.lead < 256 := by
  obtain ⟨-, hn, hlength⟩ := hfits
  have hcode : p.type.code ≤ 3 := by cases p.type <;> decide
  unfold Piece.lead
  split
  · split_ifs with hzero
    · rw [if_pos hzero] at hlength
      omega
    · omega
  · split_ifs with hzero
    · rw [if_pos hzero] at hlength
      omega
    · omega

theorem Piece.lead_fields (hfits : p.Fits) :
    EntryType.ofByte p.lead = p.type ∧ decide (p.lead / 32 % 2 = 1) = p.form.wide ∧ p.lead / 8 % 4 = p.form.lengthBytes ∧
      (p.form.lengthBytes = 0 → p.lead % 8 = p.body.length) := by
  obtain ⟨-, hn, hlength⟩ := hfits
  have hlow : (if p.form.lengthBytes = 0 then p.body.length else 0) < 8 := by
    split_ifs with hzero
    · rwa [if_pos hzero] at hlength
    · decide
  have hlead : p.lead = p.type.code * 64 + (if p.form.wide then 32 else 0) +
      p.form.lengthBytes * 8 + (if p.form.lengthBytes = 0 then p.body.length else 0) := rfl
  refine ⟨?_, ?_, ?_, fun hzero => ?_⟩
  · have hcode : p.lead / 64 = p.type.code := by
      cases hwide : p.form.wide with
      | true =>
        rw [hwide] at hlead
        simp only [if_true] at hlead
        omega
      | false =>
        rw [hwide] at hlead
        simp only [Bool.false_eq_true, if_false] at hlead
        omega
    unfold EntryType.ofByte
    rw [hcode]
    cases p.type <;> rfl
  · cases hwide : p.form.wide with
    | true =>
      rw [hwide] at hlead
      simp only [if_true] at hlead
      apply decide_eq_true
      omega
    | false =>
      rw [hwide] at hlead
      simp only [Bool.false_eq_true, if_false] at hlead
      apply decide_eq_false
      omega
  · split at hlead <;> omega
  · rw [if_pos hzero] at hlead hlow
    split at hlead <;> omega

theorem typeIdLength_piece (hfits : p.Fits) (hat : At tlv o p.encode)
    (hsize : tlv.length < 4294967296) : typeIdLength tlv o = .ok (p.headerAt o) := by
  obtain ⟨htype, hwide, hbytes, hshort⟩ := Piece.lead_fields hfits
  have hle := hat.le_length p.encode_ne_nil
  have hheader : p.header.length = 1 + ((if p.form.wide then 2 else 1) + p.form.lengthBytes) := by
    rw [Piece.header, length_cons, length_append, bigEndian_length, bigEndian_length]
    omega
  have hencode : p.encode.length = p.header.length + p.body.length := length_append
  obtain ⟨hat, -⟩ := at_append.mp hat
  obtain ⟨hlead, hat⟩ := at_cons.mp hat
  obtain ⟨hid, hlength⟩ := at_append.mp hat
  rw [bigEndian_length] at hlength
  have hu32 : u32 (o + 1) = o + 1 := Nat.mod_eq_of_lt (by omega)
  have hID := deserialiseID_at hfits.1 hid (by omega)
  rw [typeIdLength, rd_at hlead, UInt8.toNat_ofNat', Nat.mod_eq_of_lt (Piece.lead_lt hfits)]
  dsimp only [bind, Except.bind]
  rw [hwide, hbytes, hu32, hID]
  dsimp only
  rw [deserialiseLength_at hlength (by omega)]
  dsimp only [pure, Except.pure]
  have hbody : (if p.form.lengthBytes = 0 then p.lead % 8 else 0) * 256 ^ p.form.lengthBytes +
      p.body.length % 256 ^ p.form.lengthBytes = p.body.length := by
    by_cases hzero : p.form.lengthBytes = 0
    · rw [if_pos hzero, hshort hzero, hzero, Nat.pow_zero, Nat.mod_one]
      omega
    have hlt := hfits.2.2
    rw [if_neg hzero] at hlt
    rw [if_neg hzero, Nat.mod_eq_of_lt hlt]
    omega
  congr 2
  omega

end

/-! ## Sequences -/

section

variable {tlv : Bytes} {o : Nat} {p : Piece} {ps : List Piece}

/-- The payload from an offset on is this sequence of entries. -/
structure Rest (tlv : Bytes) (o : Nat) (ps : List Piece) : Prop where
  bytes : At tlv o (encodeAll ps)
  length : o + (encodeAll ps).length = tlv.length
  fits : ∀ p ∈ ps, p.Fits
  size : tlv.length < 4294967296

section

variable (h : Rest tlv o (p :: ps))
include h

theorem Rest.head : At tlv o p.encode := by
  have hbytes := h.bytes
  exact (at_append.mp hbytes).1

theorem Rest.typeIdLength : typeIdLength tlv o = .ok (p.headerAt o) := typeIdLength_piece (h.fits p (.head _)) h.head h.size

omit h in
theorem Rest.firstType (h : Rest tlv 0 (p :: ps)) : firstType tlv = .ok p.type := by
  have hfits := h.fits p (.head _)
  obtain ⟨hlead, -⟩ := at_cons.mp (at_append.mp h.head).1
  rw [Lwm2m.firstType, rd_at hlead, UInt8.toNat_ofNat', Nat.mod_eq_of_lt (Piece.lead_lt hfits), ok_bind,
    (Piece.lead_fields hfits).1]
  rfl

theorem Rest.next : (p.headerAt o).next = o + p.encode.length := by
  have hle := h.head.le_length p.encode_ne_nil
  have hsize := h.size
  have hlength : o + p.header.length + p.body.length = o + p.encode.length := by rw [Piece.encode, length_append, Nat.add_assoc]
  show (o + p.header.length + p.body.length) % 4294967296 = _
  rw [hlength]
  exact Nat.mod_eq_of_lt (by omega)

theorem Rest.tail : Rest tlv (o + p.encode.length) ps := by
  have hbytes := h.bytes
  have hlength := h.length
  rw [encodeAll_cons] at hbytes hlength
  rw [length_append] at hlength
  exact ⟨(at_append.mp hbytes).2, by omega, fun q hq => h.fits q (mem_cons_of_mem p hq), h.size⟩

/-- Inside an entry that consists of entries: they come first, and then what follows the entry. -/
theorem Rest.body {qs : List Piece} (hbody : p.body = encodeAll qs)
    (hfits : ∀ q ∈ qs, q.Fits) : Rest tlv (o + p.header.length) (qs ++ ps) := by
  have hbytes := h.bytes
  have hlength := h.length
  rw [encodeAll_cons, Piece.encode, hbody, append_assoc, ← encodeAll_append] at hbytes hlength
  rw [length_append] at hlength
  refine ⟨(at_append.mp hbytes).2, by omega, fun q hq => ?_, h.size⟩
  rcases mem_append.mp hq with hq | hq
  · exact hfits q hq
  · exact h.fits q (mem_cons_of_mem p hq)

theorem Rest.value : rdBytes tlv (p.headerAt o).offset (p.headerAt o).length = .ok p.body := rdBytes_at (at_append.mp h.head).2

end

section Walks

variable {ι σ : Type} {returns : EntryType → Bool} {handle : TypeIdLength → σ → Exec Fault (Error × σ)}
  {lost : Stop Fault → Prop} {k : Nat} {s : σ} {qs : List Piece}

/-- A walk that comes to an entry at which the function returns. -/
theorem Rest.walk_stop (h : Rest tlv o (p :: ps)) (hk : FueledFrom lost tlv o k)
    (hreturns : returns p.type = true) {e : Error} (hstop : handle (p.headerAt o) s = .ok (e, s)) :
    Yields lost (walk k tlv returns handle o s) fun r => r.2 = s := by
  have hle := h.head.le_length p.encode_ne_nil
  cases k with
  | zero => exact .inl ⟨.fuel, hk.resolve_right (by omega), rfl⟩
  | succ k =>
    have htype : returns (p.headerAt o).type = true := hreturns
    rw [walk_succ, h.typeIdLength, ok_bind, hstop, ok_bind, htype]
    exact yields_pure rfl

/-- A walk over items, with an invariant for the items that have been handled, and what the walk does
with the entries `qs` that follow them. -/
theorem Rest.walk_items (piece : ι → Piece) (R : List ι → σ → Prop) {Q : Error × σ → Prop}
    {items : List ι} (h : Rest tlv o (items.map piece ++ qs)) (hne : items.map piece ++ qs ≠ [])
    (hk : FueledFrom lost tlv o k) (hreturns : ∀ x ∈ items, returns (piece x).type = false)
    (hstep : ∀ pre x post, items = pre ++ x :: post → ∀ o s, Rest tlv o (piece x :: (post.map piece ++ qs)) → R pre s →
      Yields lost (handle ((piece x).headerAt o) s) fun r => R (pre ++ [x]) r.2 ∧ (post = [] → qs = [] → Q r))
    (hqs : qs ≠ [] → ∀ k o s, Rest tlv o qs → FueledFrom lost tlv o k → R items s →
      Yields lost (walk k tlv returns handle o s) Q) (hs : R [] s) : Yields lost (walk k tlv returns handle o s) Q := by
  -- the part of the walk after the items `done`
  suffices hwalk : ∀ todo done k o s, items = done ++ todo → todo.map piece ++ qs ≠ [] →
      Rest tlv o (todo.map piece ++ qs) → FueledFrom lost tlv o k → R done s →
      Yields lost (walk k tlv returns handle o s) Q from
    hwalk items [] k o s rfl hne h hk hs
  intro todo
  induction todo with
  | nil =>
    intro done k o s hitems hne h hk hs
    rw [append_nil] at hitems
    exact hqs hne k o s h hk (hitems ▸ hs)
  | cons x todo ih =>
    intro done k o s hitems _ h hk hs
    have hpos := length_pos_iff.mpr (piece x).encode_ne_nil
    have htail : Rest tlv (o + (piece x).encode.length) (todo.map piece ++ qs) := h.tail
    have hlength := htail.length
    have hx : returns ((piece x).headerAt o).type = false := hreturns x (hitems ▸ mem_append_cons_self)
    cases k with
    | zero => exact .inl ⟨.fuel, hk.resolve_right (by omega), rfl⟩
    | succ k =>
      rw [walk_succ, h.typeIdLength, ok_bind]
      refine yields_bind (hstep done x todo hitems o s h hs) fun r hr => ?_
      rw [h.next, hx]
      by_cases hend : todo.map piece ++ qs = []
      · rw [append_eq_nil_iff, map_eq_nil_iff] at hend
        rw [hend.1, hend.2] at hlength
        rw [if_neg (by simp [encodeAll] at hlength ⊢; omega)]
        exact yields_pure (hr.2 hend.1 hend.2)
      · have hmore := encodeAll_pos hend
        rw [if_pos (by rw [Bool.not_false, Bool.true_and, decide_eq_true_eq]; omega)]
        exact ih (done ++ [x]) k _ r.2 (by rw [hitems, append_cons]) hend htail (hk.imp_right (by omega)) hr.1

end Walks

end

/-! ## Payloads -/

structure Leaf where
  form : Form
  id : Nat
  value : Bytes
  deriving DecidableEq

/-- An entry in the value of an object instance. -/
inductive Entry where
  | resource (leaf : Leaf)
  | multiple (form : Form) (id : Nat) (instances : List Leaf)
  deriving DecidableEq

structure ObjectEntry where
  form : Form
  id : Nat
  entries : List Entry
  deriving DecidableEq

def Leaf.piece (type : EntryType) (l : Leaf) : Piece := ⟨l.form, type, l.id, l.value⟩

def instancePieces (ls : List Leaf) : List Piece := ls.map (Leaf.piece .resourceInstance)

def Entry.piece : Entry → Piece
  | .resource l => l.piece .resource
  | .multiple form id ls => ⟨form, .multipleResource, id, encodeAll (instancePieces ls)⟩

def entryPieces (es : List Entry) : List Piece := es.map Entry.piece

def ObjectEntry.piece (e : ObjectEntry) : Piece := ⟨e.form, .objectInstance, e.id, encodeAll (entryPieces e.entries)⟩

def objectPieces (os : List ObjectEntry) : List Piece := os.map ObjectEntry.piece

/-- The sizes of the fields are large enough, and a multiple resource has an instance. -/
def Entry.WellFormed (e : Entry) : Prop :=
  e.piece.Fits ∧
    match e with
    | .resource _ => True
    | .multiple _ _ ls => ls ≠ [] ∧ ∀ l ∈ ls, (l.piece .resourceInstance).Fits

instance (e : Entry) : Decidable e.WellFormed := by
  unfold Entry.WellFormed
  cases e <;> infer_instance

def ObjectEntry.WellFormed (e : ObjectEntry) : Prop := e.piece.Fits ∧ e.entries ≠ [] ∧ ∀ x ∈ e.entries, x.WellFormed

instance (e : ObjectEntry) : Decidable e.WellFormed := inferInstanceAs (Decidable (_ ∧ _ ∧ _))

structure ResourcesPayload (tlv : Bytes) (es : List Entry) : Prop where
  bytes : tlv = encodeAll (entryPieces es)
  nonempty : es ≠ []
  wellFormed : ∀ e ∈ es, e.WellFormed
  size : tlv.length < 4294967296

structure ObjectsPayload (tlv : Bytes) (os : List ObjectEntry) : Prop where
  bytes : tlv = encodeAll (objectPieces os)
  nonempty : os ≠ []
  wellFormed : ∀ o ∈ os, o.WellFormed
  size : tlv.length < 4294967296

theorem at_self (tlv : Bytes) : At tlv 0 tlv := by
  intro i _
  rw [Nat.zero_add]

variable {tlv : Bytes}

theorem ResourcesPayload.rest {es : List Entry} (h : ResourcesPayload tlv es) : Rest tlv 0 (entryPieces es) := by
  refine ⟨?_, ?_, fun p hp => ?_, h.size⟩
  · rw [← h.bytes]
    exact at_self tlv
  · rw [← h.bytes, Nat.zero_add]
  · obtain ⟨e, he, rfl⟩ := mem_map.mp hp
    exact (h.wellFormed e he).1

theorem ResourcesPayload.rest_nil {es : List Entry} (h : ResourcesPayload tlv es) : Rest tlv 0 (entryPieces es ++ []) := by
  rw [append_nil]
  exact h.rest

theorem ObjectsPayload.rest {os : List ObjectEntry} (h : ObjectsPayload tlv os) : Rest tlv 0 (objectPieces os) := by
  refine ⟨?_, ?_, fun p hp => ?_, h.size⟩
  · rw [← h.bytes]
    exact at_self tlv
  · rw [← h.bytes, Nat.zero_add]
  · obtain ⟨o, ho, rfl⟩ := mem_map.mp hp
    exact (h.wellFormed o ho).1

theorem ObjectsPayload.rest_nil {os : List ObjectEntry} (h : ObjectsPayload tlv os) :
    Rest tlv 0 (os.map ObjectEntry.piece ++ []) := by
  rw [append_nil]
  exact h.rest

theorem ObjectsPayload.firstType {os : List ObjectEntry} (h : ObjectsPayload tlv os) : firstType tlv = .ok .objectInstance := by
  have hrest := h.rest
  cases os with
  | nil => exact absurd rfl h.nonempty
  | cons oe os => exact hrest.firstType

/-! ## The instances of a resource -/

def Entry.isMultiple : Entry → Bool
  | .resource _ => false
  | .multiple _ _ _ => true

/-- The multiple resources that directly follow, up to the next single resource. -/
def followers (es : List Entry) : List Entry := es.takeWhile Entry.isMultiple

/-- Behind the multiple resources that follow there is a single resource or another object instance. -/
theorem split_followers (rest : List Entry) {qs : List Piece} (hqs : ∀ q, qs.head? = some q → q.type = .objectInstance) :
    ∃ qs', entryPieces rest ++ qs = entryPieces (followers rest) ++ qs' ∧
      ∀ q, qs'.head? = some q → returnsInInstances q.type = true := by
  refine ⟨entryPieces (rest.dropWhile Entry.isMultiple) ++ qs, ?_, fun q hq => ?_⟩
  · rw [← append_assoc, entryPieces, entryPieces, entryPieces, ← map_append, followers, takeWhile_append_dropWhile]
  have hnot := head?_dropWhile_not Entry.isMultiple rest
  cases hdrop : rest.dropWhile Entry.isMultiple with
  | nil =>
    rw [hdrop] at hq
    rw [hqs q hq]
    rfl
  | cons f fs =>
    rw [hdrop] at hq hnot
    cases hq
    cases f with
    | resource l => rfl
    | multiple form id ls => cases hnot

theorem type_of_follower {rest : List Entry} {f : Entry} (hf : f ∈ followers rest) : f.piece.type = .multipleResource := by
  have hmultiple := all_eq_true.mp all_takeWhile f hf
  cases f with
  | resource l => cases hmultiple
  | multiple form id ls => rfl

/-- The walk over the instances of a resource, with an invariant for the leaves and for the multiple
resources that follow it and have been handled. -/
theorem Rest.walk_instances {σ : Type} {lost : Stop Fault → Prop} {k o : Nat}
    {handle : TypeIdLength → σ → Exec Fault (Error × σ)} {ls : List Leaf} {rest : List Entry}
    {qs : List Piece} {s : σ} (R : List Leaf → List Entry → σ → Prop) (E : Error → Prop)
    (h : Rest tlv o (instancePieces ls ++ (entryPieces rest ++ qs))) (hls : ls ≠ [])
    (hqs : ∀ q, qs.head? = some q → q.type = .objectInstance) (hk : Fueled lost tlv k)
    (hstop : ∀ t s, returnsInInstances t.type = true → ∃ e, handle t s = .ok (e, s))
    (hleaf : ∀ pre l post, ls = pre ++ l :: post → ∀ o ps s, Rest tlv o (l.piece .resourceInstance :: ps) → R pre [] s →
      Yields lost (handle ((l.piece .resourceInstance).headerAt o) s) fun r => R (pre ++ [l]) [] r.2 ∧ (post = [] → E r.1))
    (hfollower : ∀ pre f post, followers rest = pre ++ f :: post → ∀ t s, t.type = .multipleResource →
      t.id = f.piece.id → R ls pre s → Yields lost (handle t s) fun r => R ls (pre ++ [f]) r.2) (hs : R [] [] s) :
    Yields lost (walk k tlv returnsInInstances handle o s) fun r =>
      R ls (followers rest) r.2 ∧ (rest = [] → qs = [] → E r.1) := by
  obtain ⟨qs', hsplit, hqs'⟩ := split_followers rest hqs
  refine h.walk_items (Leaf.piece .resourceInstance) (fun done s => R done [] s) (by simp [hls])
    (hk.behind o) (fun _ _ => rfl) (fun pre l post hitems o s h hs => ?_)
    (fun hne k o s h hk hs => ?_) hs
  · refine (hleaf pre l post hitems o _ s h hs).imp fun r hr => ⟨hr.1, fun hpost hnil => ?_⟩
    rw [append_eq_nil_iff, entryPieces, map_eq_nil_iff] at hnil
    rw [hitems, hpost, hnil.1]
    exact ⟨hr.1, fun _ _ => hr.2 hpost⟩
  rw [hsplit] at h hne
  refine h.walk_items Entry.piece (fun done s => R ls done s) hne hk (fun f hf => ?_)
    (fun pre f post hitems o s h hs => ?_) (fun hne k o s h hk hs => ?_) hs
  · rw [type_of_follower hf]
    rfl
  · have hf : f ∈ followers rest := hitems ▸ mem_append_cons_self
    refine (hfollower pre f post hitems _ s (type_of_follower hf) rfl hs).imp fun r hr => ⟨hr, fun hpost _ => ?_⟩
    refine ⟨by rw [hitems, hpost]; exact hr, fun hrest => ?_⟩
    rw [hrest] at hf
    cases hf
  · obtain ⟨q, qs', rfl⟩ := exists_cons_of_ne_nil hne
    obtain ⟨e, he⟩ := hstop (q.headerAt o) s (hqs' q rfl)
    refine (h.walk_stop hk (hqs' q rfl) he).imp fun r hr => ⟨hr ▸ hs, ?_⟩
    rintro rfl rfl
    cases hsplit

end MbedCloud.Lwm2m

