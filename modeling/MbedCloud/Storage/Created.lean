import MbedCloud.Storage.Reading
import MbedCloud.Storage.Stored

/-!
# What `esfs_create` leaves behind

After a success the file consists of its header and the values of the metadata (`esfsCreate_ok`). The
header is that of the mode that was asked for. The values are stored by the mode in the handle, which
is the same one unless an old backup file has been replaced: then it has been read from that file, as
has the length of the name (`prepareBackup_ok`).
-/

namespace MbedCloud.Storage

open Lib
open List hiding Vector
open Lib.Proc (Ends Keeps Gives)

/-! ## Layout -/

/-- The size of everything in front of the values of the metadata. -/
def metaStart (name : Bytes) (mode : Mode) (count : Nat) : Nat := name.length + 8 + nonceSize mode + 6 * count

def nonceField (mode : Mode) (nonce : Vector UInt8 8) : Bytes := if encrypted mode then nonce.toList else []

def fixedHeader (name : Bytes) (mode : Mode) (nonce : Vector UInt8 8) (count : Nat) : Bytes :=
  le16 fileFormatVersion ++ le16 mode ++ le16 (UInt16.ofNat name.length) ++ name ++ nonceField mode nonce ++
    le16 (UInt16.ofNat count)

def fileHeader (name : Bytes) (mode : Mode) (nonce : Vector UInt8 8) (items : List TlvItem) : Bytes :=
  fixedHeader name mode nonce items.length ++ (storedItems (metaStart name mode items.length) items).flatMap StoredItem.encode

def metaBytes (items : List TlvItem) : Bytes := (items.map (·.value)).flatten

theorem metaBytes_cons (i : TlvItem) (items : List TlvItem) : metaBytes (i :: items) = i.value ++ metaBytes items := rfl

theorem length_nonceField (mode : Mode) (nonce : Vector UInt8 8) : (nonceField mode nonce).length = nonceSize mode := by
  unfold nonceField nonceSize
  split
  · exact nonce.length_toList
  · rfl

theorem length_fixedHeader (name : Bytes) (mode : Mode) (nonce : Vector UInt8 8) (count : Nat) :
    (fixedHeader name mode nonce count).length = name.length + 8 + nonceSize mode := by
  simp only [fixedHeader, length_append, length_le16, length_nonceField]
  omega

theorem length_storedItems (position : Nat) (items : List TlvItem) : (storedItems position items).length = items.length := by
  induction items generalizing position with
  | nil => rfl
  | cons i items ih => exact congrArg (· + 1) (ih _)

theorem replaceItems_nil (old : Vector StoredItem 3) : replaceItems [] old = old := by
  ext i hi
  all_goals simp [replaceItems]

theorem toList_replaceItems (stored : List StoredItem) (old : Vector StoredItem 3) (hle : stored.length ≤ 3) :
    (replaceItems stored old).toList.take stored.length = stored := by
  apply ext_getElem?
  intro k
  rw [getElem?_take]
  split_ifs with hk
  · have hk3 : k < (replaceItems stored old).toList.length := by
      rw [Vector.length_toList]
      omega
    rw [getElem?_eq_getElem hk3, getElem?_eq_getElem hk]
    simp [replaceItems, hk]
  · rw [getElem?_eq_none (Nat.le_of_not_lt hk)]

theorem length_encodeItems (stored : List StoredItem) : (stored.flatMap StoredItem.encode).length = 6 * stored.length := by
  induction stored with
  | nil => rfl
  | cons i stored ih =>
    rw [flatMap_cons, length_append, ih, length_cons]
    show 6 + 6 * stored.length = _
    omega

theorem length_fileHeader (name : Bytes) (mode : Mode) (nonce : Vector UInt8 8) (items : List TlvItem) :
    (fileHeader name mode nonce items).length = metaStart name mode items.length := by
  rw [fileHeader, length_append, length_fixedHeader, length_encodeItems, length_storedItems, metaStart]

theorem length_sealed (env : Env) (h : Handle) (name : Bytes) (mode : Mode) (items : List TlvItem) (bs : Bytes) :
    (fileHeader name mode h.nonce items ++ h.seal env (metaStart name mode items.length) bs).length =
      metaStart name mode items.length + bs.length := by
  rw [length_append, Handle.length_seal, length_fileHeader]

/-! ## Steps that have succeeded -/

section

variable {env : Env} {d : Disk} {h : Handle} {p : Path} {c : Bytes} {invalid : Bool} {s s' : State}

/-- Buffers are stored, and the signature covers the whole content. -/
abbrev Signed (d : Disk) (h : Handle) (p : Path) (c : Bytes) (invalid : Bool) (s : State) : Prop :=
  Writing d h p c (some c) invalid s

variable {bs : Bytes} {sig : Option CmacCtx} {α : Type}

theorem fwriteAndCalcCmac_ok (hw : Signed d h p c invalid s)
    (hok : fwriteAndCalcCmac env bs s = (.ok (), s')) : Signed d h p (c ++ bs) invalid s' :=
  ((fwriteAndCalcCmac_stores (C := False) hw trivial nofun).ok hok).1

theorem storeBytes_ok (hw : Signed d h p c invalid s) (hok : storeBytes env bs s = (.ok (), s')) :
    Signed d h p (c ++ h.seal env c.length bs) invalid s' ∧ (bs ≠ [] → h.CanStore c.length) :=
  (storeBytes_stores (C := False) hw nofun).ok hok

variable {items : List TlvItem}

theorem storeItems_ok (hw : Signed d h p c invalid s)
    (hok : Proc.each (fun i : TlvItem => Proc.failWith EsfsError.error (storeBytes env i.value)) items s = (.ok (), s')) :
    Signed d h p (c ++ h.seal env c.length (metaBytes items)) invalid s' ∧ (metaBytes items ≠ [] → h.CanStore c.length) := by
  induction items generalizing c s with
  | nil =>
    cases hok
    refine ⟨?_, fun hne => absurd rfl hne⟩
    show Signed d h p (c ++ h.seal env c.length []) invalid _
    rwa [Handle.seal_nil, append_nil]
  | cons i items ih =>
    obtain ⟨s1, hs1, hrest⟩ := Proc.each_cons_eq_ok.mp hok
    obtain ⟨hw1, hcan1⟩ := storeBytes_ok hw (Proc.failWith_eq_ok.mp hs1)
    obtain ⟨hw2, hcan2⟩ := ih hw1 hrest
    have hlen : (c ++ h.seal env c.length i.value).length = c.length + i.value.length := by rw [length_append, Handle.length_seal]
    rw [hlen] at hw2 hcan2
    rw [metaBytes_cons, Handle.seal_append env hcan1, ← append_assoc]
    refine ⟨hw2, fun hne => ?_⟩
    by_cases hnil : i.value = []
    · rw [hnil] at hne hcan2
      exact hcan2 hne
    · exact hcan1 hnil

theorem Writing.setHandle (hw : Writing d h p c sig invalid s) (h' : Handle) (f : Handle → Handle)
    (hf : f { h with file := some ⟨p, c.length⟩, signatureCtx := sig, fileInvalid := invalid } =
      { h' with file := some ⟨p, c.length⟩, signatureCtx := sig, fileInvalid := invalid }) :
    Writing d h' p c sig invalid { s with handle := f s.handle } := by
  refine ⟨?_, hw.content, hw.others, hw.folders⟩
  rw [hw.handle, hf]

theorem setHandle_ok {f : Handle → Handle} {u : Unit} (hok : setHandle f s = (.ok u, s')) :
    s' = { s with handle := f s.handle } := (Proc.modify_eq_ok.mp hok).symm

theorem setHandle_bind (f : Handle → Handle) (k : Unit → Proc State EsfsError α) :
    (setHandle f >>= k) s = k () { s with handle := f s.handle } := rfl

theorem getHandle_bind {β : Type} (f : Handle → α) (k : α → Proc State EsfsError β) :
    (getHandle f >>= k) s = k (f s.handle) s := rfl

theorem compute_step {x : Except PalError α} {e : EsfsError} {a : α}
    (hok : Proc.failWith e (pal (compute env x)) s = (.ok a, s')) : Unchanged s s' ∧ x = .ok a := by
  have h := (compute_stores (C := False) x e nofun).ok hok
  exact ⟨h.2, h.1⟩

theorem writeMetaData_ok {start : Nat} (hw : Signed d h p c invalid s)
    (hstart : c.length + 6 * items.length = start) (hok : writeMetaData env items s = (.ok (), s')) :
    Signed d { h with
          tlvItems := replaceItems (storedItems start items) h.tlvItems,
          numberOfItems := UInt16.ofNat items.length } p
        (c ++ (storedItems start items).flatMap StoredItem.encode ++
          Handle.seal env { h with numberOfItems := UInt16.ofNat items.length } start (metaBytes items))
        invalid s' ∧
      (metaBytes items ≠ [] → Handle.CanStore { h with numberOfItems := UInt16.ofNat items.length } start) := by
  subst hstart
  obtain ⟨position, s1, hposition, hok⟩ := Proc.bind_eq_ok.mp hok
  obtain ⟨rfl, hs1⟩ := (fsFtell_stores (C := False) hw).ok hposition
  rw [setHandle_bind] at hok
  obtain ⟨u, s3, hwrite, hok⟩ := Proc.bind_eq_ok.mp hok
  have hw2 := (hw.unchanged hs1).setHandle
    { h with tlvItems := replaceItems (storedItems (c.length + 6 * items.length) items) h.tlvItems }
    (fun h => { h with tlvItems := replaceItems (storedItems (c.length + 6 * items.length) items) h.tlvItems }) rfl
  have hw3 := fwriteAndCalcCmac_ok hw2 hwrite
  have hw4 := hw3.setHandle { h with
      tlvItems := replaceItems (storedItems (c.length + 6 * items.length) items) h.tlvItems,
      numberOfItems := UInt16.ofNat items.length }
    (fun h => { h with numberOfItems := UInt16.ofNat items.length }) rfl
  obtain ⟨hw5, hcan⟩ := storeItems_ok hw4 hok
  have hlen : (c ++ (storedItems (c.length + 6 * items.length) items).flatMap StoredItem.encode).length =
      c.length + 6 * items.length := by
    rw [length_append, length_encodeItems, length_storedItems]
  rw [hlen] at hw5 hcan
  exact ⟨hw5, hcan⟩

/-- The handle after the metadata has been written. -/
def Handle.withItems (h : Handle) (count : Nat) : Handle := { h with numberOfItems := UInt16.ofNat count }

theorem writeHeader_ok {name : Bytes} {mode : Mode} (hw : Writing d h p [] sig invalid s) (hitems : h.numberOfItems = 0)
    (hok : writeHeader env name items mode s = (.ok (), s')) :
    Signed d { h.withItems items.length with
          tlvItems := replaceItems (storedItems (metaStart name mode items.length) items) h.tlvItems,
          fileFlag := .write } p
        (fileHeader name mode h.nonce items ++
          (h.withItems items.length).seal env (metaStart name mode items.length) (metaBytes items)) invalid s' ∧
      (metaBytes items ≠ [] → (h.withItems items.length).CanStore (metaStart name mode items.length)) := by
  obtain ⟨u, s1, hkey, hok⟩ := Proc.bind_eq_ok.mp hok
  have hw := hw.unchanged (compute_step hkey).1
  obtain ⟨ctx, s2, hctx, hok⟩ := Proc.bind_eq_ok.mp hok
  obtain ⟨hs2, hctx⟩ := compute_step hctx
  cases hctx
  have hw := hw.unchanged hs2
  rw [setHandle_bind] at hok
  have hw := hw.setSignature (some [])
  obtain ⟨u, s4, hwrite, hok⟩ := Proc.bind_eq_ok.mp hok
  have hw := fwriteAndCalcCmac_ok hw hwrite
  obtain ⟨u, s5, hwrite, hok⟩ := Proc.bind_eq_ok.mp hok
  have hw := fwriteAndCalcCmac_ok hw hwrite
  obtain ⟨u, s6, hwrite, hok⟩ := Proc.bind_eq_ok.mp hok
  have hw := fwriteAndCalcCmac_ok hw hwrite
  obtain ⟨u, s7, hwrite, hok⟩ := Proc.bind_eq_ok.mp hok
  have hw := fwriteAndCalcCmac_ok hw hwrite
  rw [getHandle_bind, hw.handle] at hok
  obtain ⟨u, s9, hwrite, hok⟩ := Proc.bind_eq_ok.mp hok
  have hw : Signed d h p ([] ++ le16 fileFormatVersion ++ le16 mode ++ le16 (.ofNat name.length) ++ name ++
      nonceField mode h.nonce) invalid s9 := by
    rw [Proc.when_eq_ok] at hwrite
    unfold nonceField
    by_cases henc : encrypted mode = true
    · rw [if_pos henc] at hwrite ⊢
      exact fwriteAndCalcCmac_ok hw hwrite
    rw [if_neg henc] at hwrite ⊢
    rw [append_nil, ← hwrite]
    exact hw
  obtain ⟨u, s10, hwrite, hok⟩ := Proc.bind_eq_ok.mp hok
  have hw : Signed d h p (fixedHeader name mode h.nonce items.length) invalid s10 := fwriteAndCalcCmac_ok hw hwrite
  obtain ⟨u, s11, hmeta, hok⟩ := Proc.bind_eq_ok.mp hok
  cases setHandle_ok hok
  have hlen : (fixedHeader name mode h.nonce items.length).length + 6 * items.length = metaStart name mode items.length := by
    rw [length_fixedHeader, metaStart]
  rw [Proc.when_eq_ok] at hmeta
  by_cases hnil : items = []
  · subst hnil
    subst hmeta
    have hself : h.withItems 0 = h := by
      unfold Handle.withItems
      rw [show UInt16.ofNat 0 = h.numberOfItems from hitems.symm]
    refine ⟨?_, fun hne => absurd rfl hne⟩
    have hheader : fileHeader name mode h.nonce [] = fixedHeader name mode h.nonce 0 := append_nil _
    have hbytes : metaBytes [] = [] := rfl
    rw [hheader, hbytes, Handle.seal_nil, append_nil, length_nil, hself, storedItems, replaceItems_nil]
    exact hw.setHandle { h with fileFlag := .write } (fun h => { h with fileFlag := .write }) rfl
  · rw [if_pos (by simpa using hnil)] at hmeta
    obtain ⟨hw, hcan⟩ := writeMetaData_ok hw hlen hmeta
    exact ⟨hw.setHandle _ (fun h => { h with fileFlag := .write }) rfl, hcan⟩

end

/-! ## Files that are created and deleted -/

section

variable {env : Env} {p : Path} {s s' : State} {name : Bytes} {mode : OpenMode}

theorem fsFopen_ok (hok : file (fsFopen env p mode) s = (.ok (), s')) :
    (mode.opened p s.world.disk).1 = .ok () ∧
      s' = ⟨{ s.handle with file := some ⟨p, 0⟩ }, { s.world.tick with disk := (mode.opened p s.world.disk).2 }⟩ ∧
      s.world.on = true := by
  obtain ⟨t, ht, rfl⟩ := Proc.within_eq_ok.mp hok
  obtain ⟨hopened, rfl, hon⟩ := fopen_ok ht
  exact ⟨hopened, rfl, hon⟩

variable {e : PalError}

theorem opened_error {d : Disk} (h : (mode.opened p d).1 = .error e) : (mode.opened p d).2 = d := by
  unfold OpenMode.opened at h ⊢
  split at h
  · cases h
  · rfl
  · rfl
  all_goals
    split_ifs at h ⊢
    rfl

theorem fsFopen_error (hr : file (fsFopen env p mode) s = (.error e, s')) :
    s'.handle = { s.handle with file := none } ∧ s'.world.disk = s.world.disk := by
  have hdisk := next_disk env s.world
  unfold file Proc.within fsFopen call at hr
  cases hn : s.world.next env with
  | mk r w =>
    rw [hn] at hr hdisk
    cases r with
    | some f =>
      cases hr
      exact ⟨rfl, hdisk⟩
    | none =>
      dsimp only at hr hdisk
      cases ho : (mode.opened p w.disk).1 with
      | ok u =>
        rw [ho] at hr
        cases hr
      | error e' =>
        rw [ho] at hr
        cases hr
        exact ⟨rfl, (opened_error ho).trans hdisk⟩

theorem fsFclose_ok (hok : file (fsFclose env) s = (.ok (), s')) : s' = ⟨{ s.handle with file := none }, s.world.tick⟩ := by
  obtain ⟨t, ht, rfl⟩ := Proc.within_eq_ok.mp hok
  cases fclose_ok ht
  rfl

theorem fsUnlink_ok (hok : pal (fsUnlink env p) s = (.ok (), s')) :
    s' = ⟨s.handle, { s.world.tick with disk := s.world.disk.remove p }⟩ := by
  obtain ⟨t, ht, rfl⟩ := Proc.within_eq_ok.mp hok
  obtain ⟨hop, rfl, -⟩ := call_ok ht
  cases hc : s.world.disk.content p with
  | none =>
    rw [hc] at hop
    cases hop
  | some c => rfl

theorem refuseExisting_ne_ok : refuseExisting env p name s ≠ (.ok (), s') := by
  intro hok
  obtain ⟨r, s1, hr, hok⟩ := Proc.bind_eq_ok.mp hok
  cases r with
  | error e => cases hok
  | ok u =>
    obtain ⟨result, s3, -, hok⟩ := Proc.bind_eq_ok.mp hok
    obtain ⟨u, s4, -, hok⟩ := Proc.bind_eq_ok.mp hok
    split at hok <;> cases hok

/-- A file is created only if it did not exist. -/
theorem createFile_ok (hok : createFile env p name s = (.ok (), s')) :
    s.world.disk.content p = none ∧ (s.world.disk.files p.folder).isSome = true ∧
      s' = ⟨{ s.handle with file := some ⟨p, 0⟩ }, { s.world.tick with disk := s.world.disk.put p [] }⟩ := by
  obtain ⟨r, s1, hr, hok⟩ := Proc.bind_eq_ok.mp hok
  split at hok
  · cases hok
    obtain ⟨hopened, rfl, -⟩ := fsFopen_ok (Proc.attempt_eq_ok.mp hr)
    unfold OpenMode.opened at hopened ⊢
    cases hc : s.world.disk.content p with
    | some c =>
      rw [hc] at hopened
      cases hopened
    | none =>
      rw [hc] at hopened
      by_cases hfolder : (s.world.disk.files p.folder).isSome = true
      · rw [if_pos hfolder]
        exact ⟨rfl, hfolder, rfl⟩
      · rw [if_neg hfolder] at hopened
        cases hopened
  · exact absurd hok refuseExisting_ne_ok
  · cases hok

theorem dropFile_ok (hok : dropFile env p s = (.ok (), s')) :
    s' = ⟨{ s.handle with file := none }, { s.world.tick.tick with disk := s.world.disk.remove p }⟩ := by
  obtain ⟨r, s1, hr, hok⟩ := Proc.bind_eq_ok.mp hok
  cases r with
  | ok u =>
    cases fsFclose_ok (Proc.attempt_eq_ok.mp hr)
    exact fsUnlink_ok (Proc.failWith_eq_ok.mp hok)
  | error e => cases hok

end

/-! ## Inspecting an old file -/

/-- A file is inspected: of the handle only the file, the mode and the length of the name change. -/
def Inspecting (h : Handle) (d : Disk) (s : State) : Prop :=
  (∃ f mode length, s.handle = { h with file := f, esfsMode := mode, blobNameLength := length }) ∧ s.world.disk = d

section Inspecting

variable {env : Env} {h : Handle} {d : Disk}

theorem fsFread_disk (n : Nat) (s : FileState) : (fsFread env n s).2.world.disk = s.world.disk := by
  unfold fsFread
  split
  · rfl
  have hdisk : ∀ {f : Disk → Except PalError Bytes × Disk} {r : Except PalError Bytes} {w : World},
      call env f s.world = (r, w) → (∀ d, (f d).2 = d) → w.disk = s.world.disk := by
    intro f r w hcall hf
    have hcontent := congrArg (fun x => x.2.disk) hcall
    rw [call_disk env hf] at hcontent
    exact hcontent.symm
  split <;> exact hdisk ‹_› fun d => by split <;> rfl

theorem keeps_fsFread (n : Nat) (e : EsfsError) : Keeps (Inspecting h d) (Proc.failWith e (file (fsFread env n))) := by
  apply Keeps.failWith
  rintro s ⟨⟨f, mode, length, hs⟩, hd⟩
  refine ⟨⟨(fsFread env n ⟨s.handle.file, s.world⟩).2.file, mode, length, ?_⟩, ?_⟩
  · show { s.handle with file := (fsFread env n ⟨s.handle.file, s.world⟩).2.file } = _
    rw [hs]
  · exact (fsFread_disk n _).trans hd

theorem keeps_setMode (g : Mode → Mode) : Keeps (Inspecting h d) (setHandle fun h => { h with esfsMode := g h.esfsMode }) := by
  rintro s ⟨⟨f, mode, length, hs⟩, hd⟩
  refine ⟨⟨f, g mode, length, ?_⟩, hd⟩
  show { s.handle with esfsMode := g s.handle.esfsMode } = _
  rw [hs]

theorem keeps_setLength (g : UInt16 → UInt16) :
    Keeps (Inspecting h d) (setHandle fun h => { h with blobNameLength := g h.blobNameLength }) := by
  rintro s ⟨⟨f, mode, length, hs⟩, hd⟩
  refine ⟨⟨f, mode, g length, ?_⟩, hd⟩
  show { s.handle with blobNameLength := g s.handle.blobNameLength } = _
  rw [hs]

/-- Reading through the name keeps all that reading a buffer keeps. -/
theorem keeps_checkName {I : State → Prop}
    (hread : ∀ n, Keeps I (Proc.failWith EsfsError.error (file (fsFread env n)))) (ns : List Nat)
    (name : Bytes) : Keeps I (checkName env ns name) := by
  induction ns generalizing name with
  | nil => exact .pure ()
  | cons n ns ih =>
    refine .bind (hread n) fun buffer => ?_
    refine .bind (.require _ _) fun _ => ?_
    exact .bind (.require _ _) fun _ => ih _

theorem keeps_checkFileValidity (name : Bytes) : Keeps (Inspecting h d) (checkFileValidity env name) := by
  refine .bind (keeps_fsFread 2 _) fun version => ?_
  refine .bind (.require _ _) fun _ => ?_
  refine .bind (.require _ _) fun _ => ?_
  refine .bind (keeps_fsFread 2 _) fun mode => ?_
  refine .bind (keeps_setMode fun old => overlay16 old mode) fun _ => ?_
  refine .bind (.require _ _) fun _ => ?_
  refine .bind (keeps_fsFread 2 _) fun length => ?_
  refine .bind (keeps_setLength fun old => overlay16 old length) fun _ => ?_
  refine .bind (.require _ _) fun _ => ?_
  refine .bind (.get _) fun _ => ?_
  refine .bind (.require _ _) fun _ => ?_
  exact keeps_checkName (fun n => keeps_fsFread n _) _ _

end Inspecting

/-- The mode that inspecting a file leaves in the handle. -/
def oldMode (old : Bytes) : Mode := overlay16 0 ((old.drop 2).take 2)

/-- The length that inspecting a file leaves in the handle, for a name of length `n`. -/
def oldNameLength (old : Bytes) (n : UInt16) : UInt16 := overlay16 n ((old.drop 4).take 2)

variable {old : Bytes}

theorem oldMode_short (h : old.length ≤ 2) : oldMode old = 0 := by
  rw [oldMode, drop_of_length_le h, take_nil]
  rfl

theorem oldNameLength_short (h : old.length ≤ 4) (n : UInt16) : oldNameLength old n = n := by
  rw [oldNameLength, drop_of_length_le h, take_nil]
  rfl

section OldFile

variable {env : Env} {p : Path} {h : Handle} {s : State}

/-- A file that is not refused leaves its mode and its length in the handle, as far as it has them. -/
theorem checkFileValidity_quiet (hr : Reading env p old h 0 s) (hmode : h.esfsMode = 0) (name : Bytes) :
    Ends (checkFileValidity env name) s fun r s' =>
      r = .error .hashConflict ∨ r = .error .invalidFileVersion ∨
        (s'.handle.esfsMode = oldMode old ∧ s'.handle.blobNameLength = oldNameLength old h.blobNameLength) := by
  refine Gives.ends_bind (Gives.failWith (fsFread_gives hr 2)) fun s1 hr1 => ?_
  refine Ends.require_bind (fun hlen => ?_) (fun hlen => ?_)
  swap
  · have hshort : old.length < 2 := by
      have := of_decide_eq_false hlen
      rw [length_take, length_drop] at this
      omega
    right
    right
    rw [hr1.handle, oldMode_short (by omega), oldNameLength_short (by omega)]
    exact ⟨hmode, rfl⟩
  rw [of_decide_eq_true hlen] at hr1
  refine Ends.require_bind (fun _ => ?_) (fun _ => .inr (.inl rfl))
  refine Gives.ends_bind (Gives.failWith (fsFread_gives hr1 2)) fun s2 hr2 => ?_
  refine Gives.ends_bind (setHandle_gives hr2 _ { h with esfsMode := oldMode old } ?_) fun s3 hr3 => ?_
  · show { h with file := _, esfsMode := overlay16 h.esfsMode ((old.drop (0 + 2)).take 2) } = _
    rw [hmode]
    rfl
  refine Ends.require_bind (fun hlen => ?_) (fun hlen => ?_)
  swap
  · have hshort : old.length < 4 := by
      have := of_decide_eq_false hlen
      rw [length_take, length_drop] at this
      omega
    right
    right
    rw [hr3.handle, oldNameLength_short (by omega)]
    exact ⟨rfl, rfl⟩
  rw [of_decide_eq_true hlen] at hr3
  refine Gives.ends_bind (Gives.failWith (fsFread_gives hr3 2)) fun s4 hr4 => ?_
  refine Gives.ends_bind (setHandle_gives hr4 _
    { h with esfsMode := oldMode old, blobNameLength := oldNameLength old h.blobNameLength } rfl)
    fun s5 hr5 => ?_
  -- the mode and the length do not change any more
  have hkeeps : Keeps (fun s => s.handle.esfsMode = oldMode old ∧
      s.handle.blobNameLength = oldNameLength old h.blobNameLength) (do
        Proc.require (decide (((old.drop (0 + 2 + 2)).take 2).length = 2)) EsfsError.error
        let blobNameLength ← getHandle (·.blobNameLength)
        Proc.require (decide (name.length = blobNameLength.toNat)) EsfsError.hashConflict
        checkName env (pieceSizes readChunkSize name.length) name) := by
    refine Keeps.bind (Keeps.require _ _) fun _ => ?_
    refine Keeps.bind (Keeps.get _) fun _ => ?_
    refine Keeps.bind (Keeps.require _ _) fun _ => ?_
    refine keeps_checkName (fun n => Keeps.failWith fun s hs => ?_) _ _
    exact hs
  have hfive : s5.handle.esfsMode = oldMode old ∧ s5.handle.blobNameLength = oldNameLength old h.blobNameLength := by
    rw [hr5.handle]
    exact ⟨rfl, rfl⟩
  exact .inr (.inr (hkeeps s5 hfive))

theorem fsMkDir_backup (env : Env) (s : State) : (pal (fsMkDir env .backup) s).2.handle = s.handle ∧
    ∀ q, (pal (fsMkDir env .backup) s).2.world.disk.content q = s.world.disk.content q := by
  refine ⟨rfl, fun q => ?_⟩
  have hdisk := next_disk env s.world
  show (fsMkDir env .backup s.world).2.disk.content q = _
  unfold fsMkDir call
  split
  · rename_i w hn
    rw [hn] at hdisk
    rw [← hdisk]
    dsimp only
    split_ifs with hnone
    · rfl
    split
    · rename_i d' hmake
      exact (Disk.make_spec hmake (Bool.not_eq_true _ ▸ hnone)).1 q
    · rfl
  · rename_i e w hn
    rw [hn] at hdisk
    rw [← hdisk]

variable {s' : State}

/-- Making the backup folder changes no file. -/
theorem makeBackupFolder_ok (hok : makeBackupFolder env s = (.ok (), s')) :
    s'.handle = s.handle ∧ ∀ q, s'.world.disk.content q = s.world.disk.content q := by
  obtain ⟨r, s1, hmkdir, hok⟩ := Proc.bind_eq_ok.mp hok
  have hmk := fsMkDir_backup env s
  rw [Proc.attempt_eq_ok.mp hmkdir] at hmk
  have hs1 : s1 = s' := by
    cases r with
    | ok u => exact (Proc.pure_eq_ok.mp hok).2
    | error e => exact (Proc.require_eq_ok.mp hok).2
  exact hs1 ▸ hmk

variable {name : Bytes}

theorem inspectBackup_ok (hok : inspectBackup env p name s = (.ok (), s')) :
    ∃ f mode length, s'.handle = { s.handle with file := f, esfsMode := mode, blobNameLength := length } ∧
      s'.world.disk = s.world.disk ∧
      ∃ old, s.world.disk.content p = some old ∧ ((∀ n, env.fault n = none) →
        mode = oldMode old ∧ length = oldNameLength old s.handle.blobNameLength) := by
  obtain ⟨u, s1, hopen, hok⟩ := Proc.bind_eq_ok.mp hok
  obtain ⟨hopened, rfl, hon⟩ := fsFopen_ok (Proc.failWith_eq_ok.mp hopen)
  rw [setHandle_bind] at hok
  obtain ⟨old, hold⟩ : ∃ old, s.world.disk.content p = some old := by
    cases hc : s.world.disk.content p with
    | some old => exact ⟨old, rfl⟩
    | none =>
      unfold OpenMode.opened at hopened
      rw [hc] at hopened
      cases hopened
  rw [opened_readOnly hold] at hok
  obtain ⟨r, s3, hcheck, hok⟩ := Proc.bind_eq_ok.mp hok
  have hcheck := Proc.attempt_eq_ok.mp hcheck
  have hs3 : s3 = s' := by
    split at hok
    · cases hok
    · cases hok
    · exact (Proc.pure_eq_ok.mp hok).2
  have hkeeps := (keeps_checkFileValidity name : Keeps (Inspecting s.handle s.world.disk) (checkFileValidity env name))
    ⟨{ s.handle with file := some ⟨p, 0⟩, esfsMode := 0 }, s.world.tick⟩
    ⟨⟨some ⟨p, 0⟩, 0, s.handle.blobNameLength, rfl⟩, rfl⟩
  have hcheck' : checkFileValidity env name ⟨{ s.handle with file := some ⟨p, 0⟩, esfsMode := 0 }, s.world.tick⟩ =
      (r, s') := hs3 ▸ hcheck
  rw [hcheck'] at hkeeps
  obtain ⟨⟨f, mode, length, hhandle⟩, hd⟩ := hkeeps
  refine ⟨f, mode, length, hhandle, hd, old, hold, fun hfault => ?_⟩
  have hr : Reading env p old { s.handle with esfsMode := 0 } 0
      ⟨{ s.handle with file := some ⟨p, 0⟩, esfsMode := 0 }, s.world.tick⟩ :=
    ⟨rfl, ⟨hon, fun n _ => hfault n⟩, hold⟩
  have hends := checkFileValidity_quiet hr rfl name
  unfold Ends at hends
  rw [hcheck'] at hends
  rcases hends with hr | hr | ⟨hm, hl⟩
  · cases hr
    cases hok
  · cases hr
    cases hok
  · rw [hhandle] at hm hl
    exact ⟨hm, hl⟩

theorem prepareBackup_ok (hok : prepareBackup env p name s = (.ok (), s')) :
    ∃ mode length, s'.handle = { s.handle with file := none, esfsMode := mode, blobNameLength := length } ∧
      (∀ q, q ≠ p → s'.world.disk.content q = s.world.disk.content q) ∧
      (s.world.disk.content p = none → mode = s.handle.esfsMode ∧ length = s.handle.blobNameLength) ∧
      ((∀ n, env.fault n = none) → ∀ old, s.world.disk.content p = some old →
        mode = oldMode old ∧ length = oldNameLength old s.handle.blobNameLength) := by
  obtain ⟨u, s1, hmake, hok⟩ := Proc.bind_eq_ok.mp hok
  obtain ⟨hhandle1, hcontent1⟩ := makeBackupFolder_ok hmake
  obtain ⟨u, s2, hopen, hdrop⟩ := Proc.bind_eq_ok.mp hok
  have hdrop := dropFile_ok hdrop
  obtain ⟨r, s3, hr, hopen⟩ := Proc.bind_eq_ok.mp hopen
  have hr := Proc.attempt_eq_ok.mp hr
  split at hopen
  · -- the file is new
    obtain ⟨-, rfl⟩ := Proc.pure_eq_ok.mp hopen
    obtain ⟨hopened, rfl, -⟩ := fsFopen_ok hr
    unfold OpenMode.opened at hopened hdrop
    cases hc : s1.world.disk.content p with
    | some old =>
      rw [hc] at hopened
      cases hopened
    | none =>
      rw [hc] at hopened hdrop
      refine ⟨s.handle.esfsMode, s.handle.blobNameLength, ?_, ?_, fun _ => ⟨rfl, rfl⟩, ?_⟩
      · rw [hdrop, ← hhandle1]
      · intro q hq
        rw [hdrop, ← hcontent1 q]
        rw [Disk.content_remove_ne hq]
        dsimp only at hopened ⊢
        split_ifs at hopened
        rw [if_pos ‹_›]
        exact Disk.content_put_ne hq
      · intro _ old hold
        rw [← hcontent1 p, hc] at hold
        cases hold
  · -- the file is an old one
    obtain ⟨hhandle3, hdisk3⟩ := fsFopen_error hr
    obtain ⟨f, mode, length, hhandle, hdisk, old, hold, hquiet⟩ := inspectBackup_ok hopen
    rw [hdisk3] at hdisk hold
    rw [hhandle3] at hhandle hquiet
    refine ⟨mode, length, ?_, ?_, ?_, ?_⟩
    · rw [hdrop, hhandle, ← hhandle1]
    · intro q hq
      rw [hdrop, ← hcontent1 q]
      rw [Disk.content_remove_ne hq, hdisk]
    · intro hnone
      rw [← hcontent1 p, hold] at hnone
      cases hnone
    intro hfault old' hold'
    rw [← hcontent1 p, hold] at hold'
    cases hold'
    rw [← hhandle1]
    exact hquiet hfault
  · cases hopen

end OldFile

/-! ## The whole function -/

/-- What `esfs_create` has done when it succeeds: the file with the short name `short` is open for
writing through the handle `h`. -/
structure Created (env : Env) (name : Bytes) (items : List TlvItem) (mode : Mode) (s s' : State)
    (short : Name) (h : Handle) (d : Disk) : Prop where
  name_ne : name ≠ []
  name_le : name.length ≤ maxNameLength
  count : items.length ≤ maxItems
  values : ∀ i ∈ items, i.value ≠ []
  hashed : nameFromHash (env.sha256 name).toList = .ok short
  absent : s.world.disk.content ⟨.working, short⟩ = none
  writing : Signed d h (createdPath mode short) (fileHeader name mode h.nonce items ++
    h.seal env (metaStart name mode items.length) (metaBytes items)) false s'
  canStore : metaBytes items ≠ [] → h.CanStore (metaStart name mode items.length)
  others : ∀ q, q ≠ createdPath mode short → d.content q = s.world.disk.content q
  aesCtx : h.aesCtx = (encrypted mode || s.handle.aesCtx)
  tlvItems : h.tlvItems.toList.take items.length = storedItems (metaStart name mode items.length) items
  items : h.numberOfItems = UInt16.ofNat items.length
  flag : h.fileFlag = .write
  shortFileName : h.shortFileName = short
  /-- The mode and the length in the handle are those that were asked for. -/
  kept : (factoryVal mode = true → s.world.disk.content ⟨.backup, short⟩ = none) →
    h.esfsMode = mode ∧ h.blobNameLength = UInt16.ofNat name.length
  /-- The mode and the length in the handle are those of an old backup file. -/
  replaced : (∀ n, env.fault n = none) → factoryVal mode = true → ∀ old,
    s.world.disk.content ⟨.backup, short⟩ = some old →
      h.esfsMode = oldMode old ∧ h.blobNameLength = oldNameLength old (UInt16.ofNat name.length)

section Create

variable {env : Env} {name : Bytes} {items : List TlvItem} {mode : Mode} {s s' : State}

theorem getNameFromBlob_ok {short : Name} (hok : getNameFromBlob env name s = (.ok short, s')) :
    nameFromHash (env.sha256 name).toList = .ok short ∧ Unchanged s s' := by
  obtain ⟨hash, s1, hhash, hok⟩ := Proc.bind_eq_ok.mp hok
  obtain ⟨hs1, hhash⟩ := compute_step hhash
  cases hhash
  cases hshort : nameFromHash (env.sha256 name).toList with
  | ok short' =>
    rw [hshort] at hok
    obtain ⟨rfl, rfl⟩ := Proc.pure_eq_ok.mp hok
    exact ⟨rfl, hs1⟩
  | error e =>
    rw [hshort] at hok
    cases hok

/-- The nonce is the only field that the preparation of the encryption changes. -/
theorem prepareEncryption_ok (hok : Proc.when (encrypted mode) (prepareEncryption env) s = (.ok (), s')) :
    (∃ nonce, s'.handle = { s.handle with nonce := nonce }) ∧ s'.world.disk = s.world.disk := by
  rw [Proc.when_eq_ok] at hok
  split at hok
  · obtain ⟨u, s1, hkey, hok⟩ := Proc.bind_eq_ok.mp hok
    have hs1 := (compute_step hkey).1
    obtain ⟨u, s2, hset, hok⟩ := Proc.bind_eq_ok.mp hok
    have hs2 := hs1.trans (compute_step hset).1
    obtain ⟨nonce, s3, hrandom, hok⟩ := Proc.bind_eq_ok.mp hok
    obtain ⟨t, ht, rfl⟩ := Proc.within_eq_ok.mp (Proc.failWith_eq_ok.mp hrandom)
    obtain ⟨-, rfl⟩ := compute_ok (show compute env (.ok (env.random s2.world.calls)) s2.world = _ from ht)
    cases setHandle_ok hok
    refine ⟨⟨nonce, ?_⟩, hs2.disk⟩
    rw [hs2.handle]
  · subst hok
    exact ⟨⟨s.handle.nonce, rfl⟩, rfl⟩

variable {p : Path}

theorem createAndDrop_ok {s1 : State} (hcreate : createFile env p name s = (.ok (), s1))
    (hdrop : dropFile env p s1 = (.ok (), s')) :
    s.world.disk.content p = none ∧ s'.handle = { s.handle with file := none } ∧
      ∀ q, s'.world.disk.content q = s.world.disk.content q := by
  obtain ⟨hnone, -, rfl⟩ := createFile_ok hcreate
  cases dropFile_ok hdrop
  refine ⟨hnone, rfl, fun q => ?_⟩
  by_cases hq : q = p
  · rw [hq, Disk.content_remove_self, hnone]
  · rw [Disk.content_remove_ne hq, Disk.content_put_ne hq]

theorem createInternal_ok (hitems : s.handle.numberOfItems = 0)
    (hinvalid : s.handle.fileInvalid = false) (hok : createInternal env name items mode p s = (.ok (), s')) :
    Signed s.world.disk { s.handle.withItems items.length with
          tlvItems := replaceItems (storedItems (metaStart name mode items.length) items) s.handle.tlvItems,
          fileFlag := .write } p
        (fileHeader name mode s.handle.nonce items ++
          (s.handle.withItems items.length).seal env (metaStart name mode items.length) (metaBytes items))
        false s' ∧
      (metaBytes items ≠ [] → (s.handle.withItems items.length).CanStore (metaStart name mode items.length)) := by
  obtain ⟨u, s1, hcreate, hok⟩ := Proc.bind_eq_ok.mp hok
  obtain ⟨-, hfolder, rfl⟩ := createFile_ok hcreate
  have hw : Writing s.world.disk s.handle p [] s.handle.signatureCtx false
      ⟨{ s.handle with file := some ⟨p, 0⟩ }, { s.world.tick with disk := s.world.disk.put p [] }⟩ := by
    refine ⟨?_, Disk.content_put_self hfolder, fun q hq => Disk.content_put_ne hq, fun f => Disk.isSome_files_put f⟩
    rw [← hinvalid]
    rfl
  exact writeHeader_ok hw hitems (Proc.onError_eq_ok.mp hok)

theorem esfsCreate_ok (hok : esfsCreate env name items mode s = (.ok (), s')) :
    ∃ short h d, Created env name items mode s s' short h d := by
  obtain ⟨u, s1, hchecks, hok⟩ := Proc.bind_eq_ok.mp hok
  have hok := Proc.onError_eq_ok.mp hok
  -- the parameters are valid, and an encrypted file has an AES context
  obtain ⟨u, s2, hvalid, hchecks⟩ := Proc.bind_eq_ok.mp (Proc.onError_eq_ok.mp hchecks)
  obtain ⟨hparams, rfl⟩ := Proc.require_eq_ok.mp hvalid
  obtain ⟨hname, hnameLe, hcount⟩ := of_decide_eq_true hparams
  obtain ⟨u, s3, hnonempty, hinit⟩ := Proc.bind_eq_ok.mp hchecks
  obtain ⟨hvalues, rfl⟩ := Proc.require_eq_ok.mp hnonempty
  have hs1 : s1.handle = { s.handle with aesCtx := encrypted mode || s.handle.aesCtx } ∧ s1.world.disk = s.world.disk := by
    rw [Proc.when_eq_ok] at hinit
    cases henc : encrypted mode with
    | true =>
      rw [henc, if_pos rfl] at hinit
      obtain ⟨u, s4, hcall, hset⟩ := Proc.bind_eq_ok.mp hinit
      have hs4 := (compute_step hcall).1
      cases setHandle_ok hset
      refine ⟨?_, hs4.disk⟩
      rw [hs4.handle, Bool.true_or]
    | false =>
      rw [henc, if_neg Bool.false_ne_true] at hinit
      subst hinit
      exact ⟨rfl, rfl⟩
  obtain ⟨hhandle1, hdisk1⟩ := hs1
  -- the nonce and the fields of the handle
  obtain ⟨u, s5, henc, hok⟩ := Proc.bind_eq_ok.mp hok
  obtain ⟨⟨nonce, hhandle5⟩, hdisk5⟩ := prepareEncryption_ok henc
  rw [setHandle_bind] at hok
  obtain ⟨short, s7, hshort, hok⟩ := Proc.bind_eq_ok.mp hok
  obtain ⟨hshort, hs7⟩ := getNameFromBlob_ok (Proc.failWith_eq_ok.mp hshort)
  rw [setHandle_bind] at hok
  -- the working file must not exist
  obtain ⟨u, s9, hcreate, hok⟩ := Proc.bind_eq_ok.mp hok
  obtain ⟨u, s10, hdrop, hok⟩ := Proc.bind_eq_ok.mp hok
  obtain ⟨habsent, hhandle10, hcontent10⟩ := createAndDrop_ok hcreate hdrop
  have hdisk7 : s7.world.disk = s.world.disk := hs7.disk.trans (hdisk5.trans hdisk1)
  have hcontent10 : ∀ q, s10.world.disk.content q = s.world.disk.content q := by
    intro q
    rw [hcontent10 q]
    rw [hdisk7]
  have hhandle10 : s10.handle = { s.handle with
      file := none, aesCtx := encrypted mode || s.handle.aesCtx, nonce := nonce,
      blobNameLength := .ofNat name.length, esfsMode := mode, fileInvalid := false, numberOfItems := 0,
      shortFileName := short } := by
    rw [hhandle10]
    rw [hs7.handle]
    rw [hhandle5, hhandle1]
  -- an old backup file is replaced
  obtain ⟨u, s11, hbackup, hok⟩ := Proc.bind_eq_ok.mp hok
  have hreplaced : ∃ mode' length, s11.handle = { s10.handle with
        file := none, esfsMode := mode', blobNameLength := length } ∧
      (∀ q, q ≠ createdPath mode short → s11.world.disk.content q = s10.world.disk.content q) ∧
      ((factoryVal mode = true → s10.world.disk.content ⟨.backup, short⟩ = none) →
        mode' = s10.handle.esfsMode ∧ length = s10.handle.blobNameLength) ∧
      ((∀ n, env.fault n = none) → factoryVal mode = true → ∀ old,
        s10.world.disk.content ⟨.backup, short⟩ = some old →
          mode' = oldMode old ∧ length = oldNameLength old s10.handle.blobNameLength) := by
    rw [Proc.when_eq_ok] at hbackup
    cases hfactory : factoryVal mode with
    | true =>
      rw [hfactory, if_pos rfl] at hbackup
      obtain ⟨mode', length, hh, hothers, hkept, hold⟩ := prepareBackup_ok hbackup
      refine ⟨mode', length, hh, ?_, fun h => hkept (h rfl), fun hq _ => hold hq⟩
      intro q hq
      refine hothers q ?_
      rwa [createdPath, hfactory, if_pos rfl] at hq
    | false =>
      rw [hfactory, if_neg Bool.false_ne_true] at hbackup
      subst hbackup
      refine ⟨s10.handle.esfsMode, s10.handle.blobNameLength, ?_, fun _ _ => rfl, fun _ => ⟨rfl, rfl⟩, ?_⟩
      · rw [hhandle10]
      · intro _ h
        cases h
  obtain ⟨mode', length, hhandle11, hothers, hkept, hold⟩ := hreplaced
  obtain ⟨hw, hstore⟩ := createInternal_ok (by rw [hhandle11, hhandle10]) (by rw [hhandle11, hhandle10]) hok
  refine ⟨short, _, s11.world.disk,
    { name_ne := hname, name_le := hnameLe, count := hcount, values := ?_, hashed := hshort,
      absent := ?_, writing := hw, canStore := hstore, others := ?_, aesCtx := ?_, items := rfl, tlvItems := ?_, flag := rfl,
      shortFileName := ?_, kept := ?_, replaced := ?_ }⟩
  · intro i hi
    exact of_decide_eq_true (all_eq_true.mp hvalues i hi)
  · rw [← hdisk7]
    exact habsent
  · intro q hq
    rw [hothers q hq, hcontent10 q]
  · show s11.handle.aesCtx = _
    rw [hhandle11, hhandle10]
  · have hstored := length_storedItems (metaStart name mode items.length) items
    have htake := toList_replaceItems _ s11.handle.tlvItems (hstored.trans_le hcount)
    rwa [hstored] at htake
  · show s11.handle.shortFileName = _
    rw [hhandle11, hhandle10]
  · intro h
    rw [← hcontent10] at h
    obtain ⟨h1, h2⟩ := hkept h
    rw [hhandle11]
    exact ⟨h1.trans (by rw [hhandle10]), h2.trans (by rw [hhandle10])⟩
  · intro hq hf old ho
    rw [← hcontent10] at ho
    obtain ⟨h1, h2⟩ := hold hq hf old ho
    rw [hhandle11]
    exact ⟨h1, h2.trans (by rw [hhandle10])⟩

end Create

end MbedCloud.Storage

