import MbedCloud.Storage.Closed

/-!
# Opening a file

`esfs_open` accepts every file that has been closed after it was written in the mode of its header
(`esfsOpen_gives`). Whatever is stored behind the header, the handle then has the mode, the nonce and
the entries of the metadata of the file (`OpenedHandle`).
-/

namespace MbedCloud.Storage

open Lib
open List hiding Vector
open Lib.Proc (Gives)

theorem toNat_ofNat_of_lt {n : Nat} (h : n < 65536) : (UInt16.ofNat n).toNat = n := by exact Nat.mod_eq_of_lt h

/-! ## Checks -/

section

variable {env : Env} {p : Path} {c : Bytes} {h : Handle} {pos : Nat} {s : State} {b name : Bytes}

theorem fsFread_slice {a r : Bytes} {n : Nat} (hr : Reading env p c h pos s) (hc : c = a ++ (b ++ r))
    (hpos : a.length = pos) (hn : b.length = n) : Gives (file (fsFread env n)) s b (Reading env p c h (pos + n)) := by
  have hread := fsFread_gives hr n
  have hslice : (c.drop pos).take n = b := by rw [hc, drop_left' hpos, take_left' hn]
  rwa [hslice, hn] at hread

theorem checkName_gives (ns : List Nat) (hr : Reading env p c h pos s)
    (hsum : ns.sum = name.length) (hns : ∀ n ∈ ns, 0 < n) (hname : (c.drop pos).take name.length = name) :
    Gives (checkName env ns name) s () (Reading env p c h (pos + name.length)) := by
  induction ns generalizing name pos s with
  | nil =>
    rw [← hsum]
    exact .pure hr
  | cons n ns ih =>
    rw [sum_cons] at hsum
    have hn : 0 < n := hns n (.head _)
    have hbuffer : (c.drop pos).take n = name.take n := by rw [← hname, take_take, Nat.min_eq_left (by omega)]
    have hlen : (name.take n).length = n := by
      rw [length_take]
      omega
    have hread := fsFread_gives hr n
    rw [hbuffer, hlen] at hread
    have hne : name.take n ≠ [] := ne_nil_of_length_pos (by omega)
    refine hread.failWith.bind fun s1 hr1 => ?_
    refine (require_gives hr1 (decide_eq_true hne)).bind fun s2 hr2 => ?_
    refine .bind (require_gives hr2 ?_) fun s3 hr3 => ?_
    · rw [hlen]
      exact decide_eq_true rfl
    have hdrop : (name.drop n).length = name.length - n := length_drop
    rw [hlen]
    have hname' : (c.drop (pos + n)).take (name.drop n).length = name.drop n := by rw [hdrop, ← drop_drop, ← drop_take, hname]
    have hrest := ih hr3 (by omega) (fun k hk => hns k (mem_cons_of_mem n hk)) hname'
    rw [hdrop] at hrest
    rwa [show pos + n + (name.length - n) = pos + name.length by omega] at hrest

theorem cmacPieces_gives (ns : List Nat) (ctx : CmacCtx) (hr : Reading env p c h pos s)
    (hsum : pos + ns.sum ≤ c.length) (hns : ∀ n ∈ ns, 0 < n) :
    Gives (cmacPieces env ns ctx) s (ctx ++ (c.drop pos).take ns.sum) (Reading env p c h (pos + ns.sum)) := by
  induction ns generalizing ctx pos s with
  | nil =>
    rw [sum_nil, take_zero, append_nil]
    exact .pure hr
  | cons n ns ih =>
    rw [sum_cons] at hsum ⊢
    have hn : 0 < n := hns n (.head _)
    have hlen : ((c.drop pos).take n).length = n := by
      rw [length_take, length_drop]
      omega
    have hread := fsFread_gives hr n
    rw [hlen] at hread
    have hne : (c.drop pos).take n ≠ [] := ne_nil_of_length_pos (by omega)
    refine hread.failWith.bind fun s1 hr1 => ?_
    refine (require_gives hr1 (decide_eq_true hne)).bind fun s2 hr2 => ?_
    refine (compute_gives hr2 (ctx ++ (c.drop pos).take n)).failWith.bind fun s3 hr3 => ?_
    have hrest := ih (ctx ++ (c.drop pos).take n) hr3 (by omega) (fun k hk => hns k (mem_cons_of_mem n hk))
    rwa [append_assoc, ← drop_drop, ← take_add, Nat.add_assoc] at hrest

/-- The signature of a file that has been closed is accepted. -/
theorem checkCmac_gives (hc : c = signed env b) (hr : Reading env p c h pos s) :
    Gives (checkCmac env) s () (Reading env p c h pos) := by
  subst hc
  have hlen := length_signed env b
  refine (fsFtell_gives hr).failWith.bind fun s1 hr1 => ?_
  refine (fsFseek_gives hr1 (signed env b).length (Int.add_zero _)).failWith.bind fun s2 hr2 => ?_
  refine (fsFtell_gives hr2).failWith.bind fun s3 hr3 => ?_
  refine (fsFseek_gives hr3 0 rfl).failWith.bind fun s4 hr4 => ?_
  refine (compute_gives hr4 ()).failWith.bind fun s5 hr5 => ?_
  refine (compute_gives hr5 []).failWith.bind fun s6 hr6 => ?_
  have hsize : (signed env b).length - 16 = b.length := by omega
  have hpieces := cmacPieces_gives (pieceSizes readChunkSize b.length) [] hr6
    (by rw [sum_pieceSizes]; omega) fun n hn => (pos_of_mem_pieceSizes (by decide) hn).1
  rw [sum_pieceSizes, drop_zero, signed, take_left' rfl, nil_append, Nat.zero_add] at hpieces
  rw [hsize]
  refine .bind (.onError (.bind hpieces fun s7 hr7 => .failWith (compute_gives hr7 (env.cmac b))))
    fun s7 hr7 => ?_
  have hread := fsFread_slice (n := 16) hr7 (a := b) (b := (env.cmac b).toList) (r := [])
    (by rw [append_nil]) rfl (Vector.length_toList)
  refine hread.failWith.bind fun s8 hr8 => ?_
  refine (require_gives hr8 (decide_eq_true Vector.length_toList)).bind fun s9 hr9 => ?_
  refine (fsFseek_gives hr9 pos (Int.zero_add _)).failWith.bind fun s10 hr10 => ?_
  exact require_gives hr10 (decide_eq_true rfl)

/-- The name, the mode and the version in the header are accepted. -/
theorem checkFileValidity_gives {rest : Bytes} {mode : Mode} (hr : Reading env p c h 0 s)
    (hc : c = le16 fileFormatVersion ++ (le16 mode ++ (le16 (UInt16.ofNat name.length) ++ (name ++ rest))))
    (hname : name.length < 65536) :
    Gives (checkFileValidity env name) s () (Reading env p c
      { h with esfsMode := mode, blobNameLength := UInt16.ofNat name.length } (name.length + 6)) := by
  refine (fsFread_slice (a := []) (b := le16 fileFormatVersion) hr hc rfl rfl).failWith.bind fun s1 hr1 => ?_
  refine (require_gives hr1 rfl).bind fun s2 hr2 => ?_
  refine (require_gives hr2 (decide_eq_true (overlay16_le16 _ _))).bind fun s3 hr3 => ?_
  have hmode := fsFread_slice (n := 2) hr3 hc rfl rfl
  refine hmode.failWith.bind fun s4 hr4 => ?_
  refine .bind (setHandle_gives hr4 _ { h with esfsMode := mode } ?_) fun s5 hr5 => ?_
  · show { h with file := _, esfsMode := overlay16 h.esfsMode (le16 mode) } = _
    rw [overlay16_le16]
  refine (require_gives hr5 rfl).bind fun s6 hr6 => ?_
  have hlength := fsFread_slice (n := 2) hr6 (a := le16 fileFormatVersion ++ le16 mode)
    (hc.trans (append_assoc _ _ _).symm) rfl rfl
  refine hlength.failWith.bind fun s7 hr7 => ?_
  refine .bind (setHandle_gives hr7 _ { h with esfsMode := mode, blobNameLength := .ofNat name.length } ?_) fun s8 hr8 => ?_
  · show { h with
      file := _, esfsMode := mode, blobNameLength := overlay16 h.blobNameLength (le16 (.ofNat name.length)) } = _
    rw [overlay16_le16]
  refine (require_gives hr8 rfl).bind fun s9 hr9 => ?_
  refine (getHandle_gives hr9 rfl).bind fun s10 hr10 => ?_
  refine .bind (require_gives hr10 (decide_eq_true ?_)) fun s11 hr11 => ?_
  · exact (toNat_ofNat_of_lt hname).symm
  have hcheck := checkName_gives (pieceSizes readChunkSize name.length) hr11 (sum_pieceSizes _ _)
    (fun n hn => (pos_of_mem_pieceSizes (by decide) hn).1) ?_
  · rwa [Nat.add_comm] at hcheck
  · rw [hc]
    exact take_left' rfl

end

/-! ## Metadata -/

theorem StoredItem.length_encode (i : StoredItem) : i.encode.length = 6 := rfl

theorem StoredItem.decode_encode (i : StoredItem) : StoredItem.decode i.encode = i := by
  obtain ⟨type, length, position⟩ := i
  show (⟨overlay16 0 (le16 type), overlay16 0 (le16 length), overlay16 0 (le16 position)⟩ : StoredItem) = _
  rw [overlay16_le16, overlay16_le16, overlay16_le16]

def decodeItems (count : Nat) (bs : Bytes) : List StoredItem :=
  (range count).map fun i => StoredItem.decode ((bs.drop (6 * i)).take 6)

theorem decodeItems_encode (stored : List StoredItem) :
    decodeItems stored.length (stored.flatMap StoredItem.encode) = stored := by
  unfold decodeItems
  induction stored with
  | nil => rfl
  | cons i stored ih =>
    rw [length_cons, range_succ_eq_map, map_cons, map_map, flatMap_cons]
    refine congrArg₂ cons ?_ ?_
    · rw [Nat.mul_zero, drop_zero, take_left' i.length_encode, i.decode_encode]
    refine Eq.trans (map_congr_left fun k hk => ?_) ih
    show StoredItem.decode (((i.encode ++ _).drop (6 * (k + 1))).take 6) = _
    rw [Nat.mul_succ, Nat.add_comm, ← drop_drop, drop_left' i.length_encode]

/-- Every value of the metadata starts at a position that fits into its entry. -/
def PositionsFit (start : Nat) (items : List TlvItem) : Prop :=
  ∀ k < items.length, start + (metaBytes (items.take k)).length < 65536

variable {items : List TlvItem} {start : Nat} {i : TlvItem}

theorem PositionsFit.head (h : PositionsFit start (i :: items)) : start < 65536 := h 0 (Nat.zero_lt_succ _)

theorem PositionsFit.tail (h : PositionsFit start (i :: items)) : PositionsFit (start + i.value.length) items := by
  intro k hk
  have hk' := h (k + 1) (Nat.succ_lt_succ hk)
  have hbytes : metaBytes ((i :: items).take (k + 1)) = i.value ++ metaBytes (items.take k) := rfl
  rw [hbytes, length_append] at hk'
  omega

theorem lastItem_end (hfit : PositionsFit start items) (hne : items ≠ []) :
    (((storedItems start items).getLast?.map fun i => i.position.toNat + i.lengthInBytes.toNat).getD 0) =
      start + (metaBytes items).length := by
  induction items generalizing start with
  | nil => exact absurd rfl hne
  | cons i items ih =>
    rw [metaBytes_cons, length_append]
    cases items with
    | nil =>
      show (UInt16.ofNat start).toNat + (UInt16.ofNat i.value.length).toNat = start + (i.value.length + 0)
      rw [toNat_ofNat_of_lt hfit.head, toNat_ofNat_of_lt i.small, Nat.add_zero]
    | cons j items =>
      have hrest := ih hfit.tail (cons_ne_nil j items)
      rw [← Nat.add_assoc, ← hrest]
      rfl

theorem sum_storedItems (start : Nat) (items : List TlvItem) :
    ((storedItems start items).map fun i => i.lengthInBytes.toNat).sum = (metaBytes items).length := by
  induction items generalizing start with
  | nil => rfl
  | cons i items ih =>
    rw [metaBytes_cons, length_append, ← ih (start + i.value.length)]
    rw [storedItems, map_cons, sum_cons, toNat_ofNat_of_lt i.small]

/-! ## The header -/

/-- The handle of a file of `size` bytes that has been opened and read up to `readPos`. -/
structure OpenedHandle (name : Bytes) (mode : Mode) (nonce : Vector UInt8 8) (items : List TlvItem)
    (size readPos : Nat) (h : Handle) : Prop where
  esfsMode : h.esfsMode = mode
  blobNameLength : h.blobNameLength = UInt16.ofNat name.length
  numberOfItems : h.numberOfItems = UInt16.ofNat items.length
  aesCtx : encrypted mode = true → h.aesCtx = true
  nonce : encrypted mode = true → h.nonce = nonce
  tlvItems : h.tlvItems.toList.take items.length = storedItems (metaStart name mode items.length) items
  fileFlag : h.fileFlag = .read
  currentReadPos : h.currentReadPos = readPos
  dataSize : h.dataSize = size

/-- A header and `stored` bytes behind it, the last `size` of which are the data. -/
structure IsFile (env : Env) (name : Bytes) (mode : Mode) (nonce : Vector UInt8 8) (items : List TlvItem)
    (stored : Bytes) (size : Nat) : Prop where
  name_ne : name ≠ []
  name_le : name.length ≤ maxNameLength
  count : items.length ≤ maxItems
  values : ∀ i ∈ items, i.value ≠ []
  fit : PositionsFit (metaStart name mode items.length) items
  length_stored : stored.length = (metaBytes items).length + size
  length_le : (signed env (fileHeader name mode nonce items ++ stored)).length ≤ maxPosition

section Open

variable {env : Env} {p : Path} {h : Handle} {s : State} {name : Bytes} {mode : Mode} {nonce : Vector UInt8 8} {stored c : Bytes}

theorem signed_eq (env : Env) (name : Bytes) (mode : Mode) (nonce : Vector UInt8 8) (items : List TlvItem) (stored : Bytes) :
    signed env (fileHeader name mode nonce items ++ stored) =
      le16 fileFormatVersion ++ (le16 mode ++ (le16 (UInt16.ofNat name.length) ++ (name ++
        (nonceField mode nonce ++ (le16 (UInt16.ofNat items.length) ++
          ((storedItems (metaStart name mode items.length) items).flatMap StoredItem.encode ++
            (stored ++ (env.cmac (fileHeader name mode nonce items ++ stored)).toList))))))) := by
  simp only [signed, fileHeader, fixedHeader, append_assoc]

theorem length_namePart (name : Bytes) (mode : Mode) :
    (le16 fileFormatVersion ++ (le16 mode ++ (le16 (UInt16.ofNat name.length) ++ name))).length = name.length + 6 := by
  simp only [length_append, length_le16]
  omega

section

variable {size : Nat} (hf : IsFile env name mode nonce items stored size)
include hf

theorem IsFile.toNat_name : (UInt16.ofNat name.length).toNat = name.length :=
  toNat_ofNat_of_lt (Nat.lt_of_le_of_lt hf.name_le (by decide))

theorem IsFile.toNat_count : (UInt16.ofNat items.length).toNat = items.length :=
  toNat_ofNat_of_lt (Nat.lt_of_le_of_lt hf.count (by decide))

theorem IsFile.fileHeaderSize_opened {readPos : Nat} (hh : OpenedHandle name mode nonce items size readPos h) :
    notEncryptedFileHeaderSize h = metaStart name mode items.length ∧
      fileHeaderSize h = metaStart name mode items.length + (metaBytes items).length := by
  have hsize : notEncryptedFileHeaderSize h = metaStart name mode items.length := by
    rw [notEncryptedFileHeaderSize, hh.blobNameLength, hh.numberOfItems, hh.esfsMode, hf.toNat_name, hf.toNat_count, metaStart]
    omega
  refine ⟨hsize, ?_⟩
  rw [fileHeaderSize, hsize, hh.numberOfItems, hf.toNat_count, hh.tlvItems, sum_storedItems]

/-- The size of the data is what is left of the size of the file. -/
theorem IsFile.dataSize (hc : c = signed env (fileHeader name mode nonce items ++ stored)) :
    sub32 (sub32 c.length (metaStart name mode items.length + (metaBytes items).length)) 16 = size := by
  have hmax := hf.length_le
  rw [← hc] at hmax
  unfold maxPosition at hmax
  have htotal : c.length = metaStart name mode items.length + (metaBytes items).length + size + 16 := by
    rw [hc, length_signed, length_append, length_fileHeader, hf.length_stored]
    omega
  rw [sub32_of_le (a := c.length) (by omega) (by omega), sub32_of_le (by omega) (by omega)]
  omega

end

theorem mapIdx_getD_toList (old v : Vector UInt8 8) : (old.mapIdx fun i b => v.toList.getD i b) = v := by
  ext i hi
  simp [hi]

section

variable (hc : c = signed env (fileHeader name mode nonce items ++ stored))
include hc

theorem readNonce_gives (hr : Reading env p c h (name.length + 6) s) :
    Gives (Proc.when (encrypted mode) (do
      Proc.failWith EsfsError.error (pal (compute env (.ok ())))
      Proc.failWith EsfsError.error (pal (compute env (.ok ())))
      let nonce ← Proc.failWith EsfsError.error (file (fsFread env 8))
      setHandle fun h => { h with nonce := h.nonce.mapIdx fun i b => nonce.getD i b }
      Proc.require (nonce.length = 8) EsfsError.error)) s () fun s' =>
        ∃ nonce', (encrypted mode = true → nonce' = nonce) ∧
          Reading env p c { h with nonce := nonce' } (name.length + 6 + nonceSize mode) s' := by
  cases henc : encrypted mode with
  | false =>
    rw [nonceSize, henc]
    exact ⟨s, rfl, h.nonce, (by simp), hr⟩
  | true =>
    have hfield : nonceField mode nonce = nonce.toList := by rw [nonceField, if_pos henc]
    refine (compute_gives hr ()).failWith.bind fun s1 hr1 => ?_
    refine (compute_gives hr1 ()).failWith.bind fun s2 hr2 => ?_
    refine Gives.bind (Gives.failWith (fsFread_slice hr2
      (r := le16 (UInt16.ofNat items.length) ++
        ((storedItems (metaStart name mode items.length) items).flatMap StoredItem.encode ++
          (stored ++ (env.cmac (fileHeader name mode nonce items ++ stored)).toList)))
      ?_ (length_namePart name mode) nonce.length_toList)) fun s3 hr3 => ?_
    · rw [hc, signed_eq, hfield]
      simp only [append_assoc]
    refine Gives.bind (setHandle_gives hr3 _ { h with nonce := nonce } ?_) fun s4 hr4 => ?_
    · show { h with file := _, nonce := h.nonce.mapIdx fun i b => nonce.toList.getD i b } = _
      rw [mapIdx_getD_toList]
    refine Gives.imp (require_gives hr4 (decide_eq_true nonce.length_toList)) fun s5 hr5 => ?_
    rw [nonceSize, henc]
    exact ⟨nonce, fun _ => rfl, hr5⟩

variable {size : Nat} (hf : IsFile env name mode nonce items stored size)
include hf

/-- The entries of the metadata are read, and the file is positioned behind the values. -/
theorem readItems_gives (hr : Reading env p c h (name.length + 8 + nonceSize mode) s) (hne : items ≠ []) :
    Gives (readItems env (UInt16.ofNat items.length)) s () fun s' => ∃ tlv : Vector StoredItem 3,
      tlv.toList.take items.length = storedItems (metaStart name mode items.length) items ∧
        Reading env p c { h with tlvItems := tlv } (metaStart name mode items.length + (metaBytes items).length) s' := by
  have hlen := length_storedItems (metaStart name mode items.length) items
  have henc : ((storedItems (metaStart name mode items.length) items).flatMap StoredItem.encode).length = 6 * items.length := by
    rw [length_encodeItems, hlen]
  unfold readItems
  rw [hf.toNat_count]
  refine (require_gives hr (decide_eq_true hf.count)).bind fun s1 hr1 => ?_
  have hread := fsFread_slice hr1 (r := stored ++ (env.cmac (fileHeader name mode nonce items ++ stored)).toList)
    ?_ (length_fixedHeader name mode nonce items.length) henc
  swap
  · simp only [hc, signed, fileHeader, append_assoc]
  refine hread.failWith.bind fun s2 hr2 => ?_
  refine (require_gives hr2 (decide_eq_true henc)).bind fun s3 hr3 => ?_
  have hdecode := decodeItems_encode (storedItems (metaStart name mode items.length) items)
  rw [hlen] at hdecode
  unfold decodeItems at hdecode
  dsimp only
  rw [hdecode, lastItem_end hf.fit hne]
  refine (setHandle_gives hr3 _
    { h with tlvItems := replaceItems (storedItems (metaStart name mode items.length) items) h.tlvItems } rfl).bind
    fun s4 hr4 => ?_
  refine Gives.imp (Gives.failWith (fsFseek_gives hr4 _ (Int.zero_add _))) fun s5 hr5 => ?_
  refine ⟨_, ?_, hr5⟩
  have htake := toList_replaceItems (storedItems (metaStart name mode items.length) items) h.tlvItems
    (by rw [hlen]; exact hf.count)
  rwa [hlen] at htake

theorem readHeader_gives (hr : Reading env p c h (name.length + 6) s) (hmode : h.esfsMode = mode)
    (hlength : h.blobNameLength = UInt16.ofNat name.length) (hctx : encrypted mode = true → h.aesCtx = true) :
    Gives (readHeader env name mode) s () fun s' => ∃ h', OpenedHandle name mode nonce items size 0 h' ∧
      Reading env p c h' (metaStart name mode items.length + (metaBytes items).length) s' := by
  refine (readNonce_gives hc hr).bind ?_
  rintro s1 ⟨nonce', hnonce, hr1⟩
  refine (setHandle_gives hr1 _ { h with nonce := nonce', numberOfItems := 0 } rfl).bind fun s2 hr2 => ?_
  have hquantity := fsFread_slice (n := 2) hr2
    (a := le16 fileFormatVersion ++ (le16 mode ++ (le16 (UInt16.ofNat name.length) ++ (name ++ nonceField mode nonce))))
    (b := le16 (UInt16.ofNat items.length))
    (r := (storedItems (metaStart name mode items.length) items).flatMap StoredItem.encode ++
      (stored ++ (env.cmac (fileHeader name mode nonce items ++ stored)).toList)) ?_ ?_ rfl
  rotate_left
  · rw [hc, signed_eq]
    simp only [append_assoc]
  · simp only [length_append, length_le16, length_nonceField]
    omega
  refine hquantity.failWith.bind fun s3 hr3 => ?_
  refine (require_gives hr3 rfl).bind fun s4 hr4 => ?_
  rw [overlay16_le16]
  have hpos : name.length + 6 + nonceSize mode + 2 = name.length + 8 + nonceSize mode := by omega
  rw [hpos] at hr4
  have hitems : Gives (Proc.when (decide (UInt16.ofNat items.length ≠ 0)) (readItems env (UInt16.ofNat items.length)))
      s4 () fun s' => ∃ tlv : Vector StoredItem 3,
        tlv.toList.take items.length = storedItems (metaStart name mode items.length) items ∧
          Reading env p c { h with nonce := nonce', numberOfItems := 0, tlvItems := tlv }
            (metaStart name mode items.length + (metaBytes items).length) s' := by
    by_cases hnil : items = []
    · subst hnil
      exact ⟨s4, rfl, h.tlvItems, rfl, hr4⟩
    have hzero : UInt16.ofNat items.length ≠ 0 := by
      intro heq
      have hcount := hf.toNat_count
      rw [heq] at hcount
      exact hnil (length_eq_zero_iff.mp hcount.symm)
    rw [decide_eq_true hzero]
    exact readItems_gives hc hf hr4 hnil
  refine Gives.bind hitems ?_
  rintro s5 ⟨tlv, htlv, hr5⟩
  refine (setHandle_gives hr5 _ { h with
    nonce := nonce', numberOfItems := UInt16.ofNat items.length, tlvItems := tlv, currentReadPos := 0 } rfl).bind
    fun s6 hr6 => ?_
  refine (getPhysicalFileSize_gives hr6).failWith.bind fun s7 hr7 => ?_
  obtain ⟨h', hh'⟩ : ∃ h' : Handle, h' = { h with
      nonce := nonce', numberOfItems := UInt16.ofNat items.length, tlvItems := tlv, currentReadPos := 0,
      dataSize := size, fileFlag := .read, blobNameLength := UInt16.ofNat name.length } := ⟨_, rfl⟩
  have hopened : OpenedHandle name mode nonce items size 0 h' := by
    subst hh'
    exact
      { esfsMode := hmode, blobNameLength := rfl, numberOfItems := rfl, aesCtx := hctx, nonce := hnonce,
        tlvItems := htlv, fileFlag := rfl, currentReadPos := rfl, dataSize := rfl }
  refine Gives.imp (setHandle_gives hr7 _ h' ?_) fun s8 hr8 => ⟨h', hopened, hr8⟩
  have hsize := hf.dataSize hc
  rw [← (hf.fileHeaderSize_opened hopened).2] at hsize
  rw [hh'] at hsize ⊢
  unfold fileHeaderSize notEncryptedFileHeaderSize at hsize ⊢
  rw [hlength, hsize]

end

variable {short : Name}

theorem getNameFromBlob_quiet (hq : Quiet env s.world) (hshort : nameFromHash (env.sha256 name).toList = .ok short) :
    getNameFromBlob env name s = (.ok short, { s with world := s.world.tick }) := by
  have hhash : Proc.failWith EsfsError.internalError (pal (sha256 env name)) s =
      (.ok (env.sha256 name), { s with world := s.world.tick }) := by
    apply Proc.failWith_eq_ok.mpr
    apply Proc.within_eq_ok.mpr
    exact ⟨_, hq.compute _, rfl⟩
  unfold getNameFromBlob
  rw [Proc.bind_of_ok hhash, hshort]
  rfl

theorem fsFopen_gives {c : Bytes} (hq : Quiet env s.world) (hc : s.world.disk.content p = some c) :
    Gives (file (fsFopen env p .readOnly)) s () (Reading env p c s.handle 0) := by
  refine ⟨⟨{ s.handle with file := some ⟨p, 0⟩ }, s.world.tick⟩, ?_, rfl, hq.tick, hc⟩
  apply Proc.within_eq_ok.mpr
  refine ⟨⟨some ⟨p, 0⟩, s.world.tick⟩, ?_, rfl⟩
  unfold fsFopen
  rw [hq.call]
  unfold OpenMode.opened
  rw [hc]
  rfl

/-- A file that is not in the working folder cannot be opened. -/
theorem esfsOpen_absent {s' : State} (hshort : nameFromHash (env.sha256 name).toList = .ok short)
    (hnone : s.world.disk.content ⟨.working, short⟩ = none) : esfsOpen env name s ≠ (.ok mode, s') := by
  intro hok
  obtain ⟨u, s1, hvalid, hok⟩ := Proc.bind_eq_ok.mp hok
  obtain ⟨-, rfl⟩ := Proc.require_eq_ok.mp hvalid
  rw [setHandle_bind] at hok
  obtain ⟨short', s3, hname, hok⟩ := Proc.bind_eq_ok.mp hok
  obtain ⟨hshort', hs3⟩ := getNameFromBlob_ok (Proc.failWith_eq_ok.mp hname)
  cases hshort.symm.trans hshort'
  rw [setHandle_bind] at hok
  obtain ⟨u, s5, hopen, -⟩ := Proc.bind_eq_ok.mp hok
  obtain ⟨hopened, -, -⟩ := fsFopen_ok (Proc.failWith_eq_ok.mp hopen)
  have hdisk : s3.world.disk = s.world.disk := hs3.disk
  unfold OpenMode.opened at hopened
  rw [hdisk, hnone] at hopened
  cases hopened

theorem esfsOpen_gives {size : Nat} (hf : IsFile env name mode nonce items stored size)
    (hc : c = signed env (fileHeader name mode nonce items ++ stored)) (hq : Quiet env s.world)
    (hshort : nameFromHash (env.sha256 name).toList = .ok short)
    (hdisk : s.world.disk.content ⟨.working, short⟩ = some c) :
    Gives (esfsOpen env name) s mode fun s' => ∃ h', OpenedHandle name mode nonce items size 0 h' ∧
      Reading env ⟨.working, short⟩ c h' (metaStart name mode items.length + (metaBytes items).length) s' := by
  refine .bind (.require (decide_eq_true ⟨hf.name_ne, hf.name_le⟩) (Q := fun s' => Quiet env s'.world ∧
    s'.world.disk.content ⟨.working, short⟩ = _) ⟨hq, hdisk⟩) ?_
  rintro s1 hs1
  refine .bind (.modify (Q := fun s' => Quiet env s'.world ∧ s'.world.disk.content ⟨.working, short⟩ = _) hs1) ?_
  rintro s2 ⟨hq2, hc2⟩
  refine .bind (.failWith ⟨_, getNameFromBlob_quiet hq2 hshort, hq2.tick, hc2⟩)
    (R := fun s' => Quiet env s'.world ∧ s'.world.disk.content ⟨.working, short⟩ = _) ?_
  rintro s3 hs3
  refine .bind (.modify (Q := fun s' => Quiet env s'.world ∧ s'.world.disk.content ⟨.working, short⟩ = _) hs3) ?_
  rintro s4 ⟨hq4, hc4⟩
  refine (fsFopen_gives hq4 hc4).failWith.bind fun s5 hr5 => ?_
  -- the name and the signature are right
  refine .bind (.onError (.bind (checkFileValidity_gives hr5 (hc.trans (signed_eq env name mode nonce items stored))
    (Nat.lt_of_le_of_lt hf.name_le (by decide))) fun s' hr' => checkCmac_gives hc hr')) fun s6 hr6 => ?_
  refine (getHandle_gives hr6 rfl).bind fun s7 hr7 => ?_
  have haes : Gives (.when (encrypted mode) (initAes env)) s7 () fun s' => ∃ b,
      (encrypted mode = true → b = true) ∧
        Reading env ⟨.working, short⟩ c { s4.handle with esfsMode := mode, blobNameLength := .ofNat name.length, aesCtx := b }
          (name.length + 6) s' := by
    cases henc : encrypted mode with
    | false => exact ⟨s7, rfl, s4.handle.aesCtx, (by simp), hr7⟩
    | true =>
      refine (compute_gives hr7 ()).failWith.bind fun s' hr' => ?_
      refine .imp (setHandle_gives hr' _
        { s4.handle with esfsMode := mode, blobNameLength := .ofNat name.length, aesCtx := true } rfl) ?_
      exact fun s'' hr'' => ⟨true, fun _ => rfl, hr''⟩
  refine .bind (.onError haes) ?_
  rintro s8 ⟨b, hb, hr8⟩
  refine .bind (.onError (readHeader_gives hc hf hr8 rfl rfl hb)) ?_
  exact fun s9 hs9 => .pure hs9

end Open

end MbedCloud.Storage

