import MbedCloud.Storage.Session

/-!
# What is written is read back

A caller stores a blob: `esfs_create`, some `esfs_write` and `esfs_close`, all with success
(`esfsStore`). Later the file is opened and read (`RoundTrip`).

The bytes behind the header are stored by the mode in the handle and read by the mode in the header.
Both are the same, unless a factory file replaces a backup file of the same name: then the handle has
the mode and the name length of the old file.
-/

namespace MbedCloud.Storage

open Lib
open List hiding Vector

/-! ## Storing a blob -/

/-- `esfs_create`, a call of `esfs_write` for each buffer and `esfs_close`. -/
def esfsStore (env : Env) (name : Bytes) (items : List TlvItem) (mode : Mode) (bss : List Bytes) :
    Esfs Unit := do
  esfsCreate env name items mode
  Proc.each (esfsWrite env) bss
  esfsClose env

def blobOf (items : List TlvItem) (data : Bytes) : Blob := ⟨items.map fun i => (i.type, i.value), data⟩

/-- Whenever the disk is as it is now and no call fails, the file can be opened, and every question is
answered by the blob. -/
def RoundTrip (env : Env) (name : Bytes) (items : List TlvItem) (mode : Mode) (data : Bytes) (d : Disk) :
    Prop :=
  ∀ s : State, s.world.disk = d → Quiet env s.world → ∃ s', esfsOpen env name s = (.ok mode, s') ∧
    ∀ qs : List Query, (∀ q ∈ qs, q.Valid items.length) → askAll env qs s' = ((blobOf items data).answers 0 qs).map .ok

section Store

variable {env : Env} {name : Bytes} {items : List TlvItem} {mode : Mode} {bss : List Bytes} {s s' : State}

theorem esfsWrites_of_each (hok : Proc.each (esfsWrite env) bss s = (.ok (), s')) :
    (esfsWrites env bss s).2 = s' ∧ ∀ r ∈ (esfsWrites env bss s).1, r = .ok () := by
  induction bss generalizing s with
  | nil =>
    cases hok
    exact ⟨rfl, fun r hr => nomatch hr⟩
  | cons bs bss ih =>
    obtain ⟨s1, hwrite, hrest⟩ := Proc.each_cons_eq_ok.mp hok
    obtain ⟨hstate, hall⟩ := ih hrest
    unfold esfsWrites
    rw [hwrite]
    refine ⟨hstate, ?_⟩
    intro r hr
    rcases mem_cons.mp hr with rfl | hr
    · rfl
    · exact hall r hr

/-- What a caller has stored: the file is on the disk, with the bytes as the handle `h` stores them. -/
structure Stored (env : Env) (name : Bytes) (items : List TlvItem) (mode : Mode) (data : Bytes)
    (s s' : State) (short : Name) (h : Handle) : Prop where
  created : ∃ s1 d, Created env name items mode s s1 short h d
  canStore : metaBytes items ++ data ≠ [] → h.CanStore (metaStart name mode items.length)
  length_le : (signed env (fileHeader name mode h.nonce items ++
    h.seal env (metaStart name mode items.length) (metaBytes items ++ data))).length ≤ maxPosition
  working : (factoryVal mode = true → factoryVal h.esfsMode = true) →
    s'.world.disk.content ⟨.working, short⟩ = some (signed env (fileHeader name mode h.nonce items ++
      h.seal env (metaStart name mode items.length) (metaBytes items ++ data)))
  absent : factoryVal mode = true → factoryVal h.esfsMode = false → s'.world.disk.content ⟨.working, short⟩ = none

theorem esfsStore_ok (hok : esfsStore env name items mode bss s = (.ok (), s')) :
    ∃ short h, Stored env name items mode bss.flatten s s' short h := by
  obtain ⟨u, s1, hcreate, hok⟩ := Proc.bind_eq_ok.mp hok
  obtain ⟨u, s2, hwrites, hclose⟩ := Proc.bind_eq_ok.mp hok
  obtain ⟨short, h, d, hcreated⟩ := esfsCreate_ok hcreate
  obtain ⟨hs2, hall⟩ := esfsWrites_of_each hwrites
  obtain ⟨parts, sig, invalid, hkept, hcan, hw, hsig⟩ := esfsWrites_stored env bss hcreated.writing
  obtain ⟨rfl, rfl⟩ := hsig hall
  cases hkept.eq_of_ok hall
  rw [hs2] at hw
  rw [length_sealed] at hw hcan
  have hseal := Handle.seal_append env hcreated.canStore bss.flatten
  have hsigned : Signed d h (createdPath mode short) (fileHeader name mode h.nonce items ++
      h.seal env (metaStart name mode items.length) (metaBytes items ++ bss.flatten)) false s2 := by
    rw [hseal, ← append_assoc]
    exact hw
  -- the handle is that of a factory file only if the file is one
  have hfactory : factoryVal h.esfsMode = true → factoryVal mode = true := by
    intro hh
    by_contra hm
    rw [(hcreated.kept fun hf => absurd hf hm).1] at hh
    exact hm hh
  have hpath : factoryVal mode = true → createdPath mode short = ⟨.backup, h.shortFileName⟩ := by
    intro hm
    rw [createdPath, if_pos hm, hcreated.shortFileName]
  have hclosed := esfsClose_ok hsigned hcreated.flag (fun hh => hpath (hfactory hh)) hclose
  refine ⟨short, h, ⟨s1, d, hcreated⟩, ?_, hclosed.length_le, ?_, ?_⟩
  · intro hne
    by_cases hmeta : metaBytes items = []
    · rw [hmeta, nil_append] at hne
      have hdata := hcan hne
      rwa [hmeta, length_nil, Nat.add_zero] at hdata
    · exact hcreated.canStore hmeta
  · intro himp
    by_cases hm : factoryVal mode = true
    · rw [← hcreated.shortFileName]
      exact hclosed.copied (himp hm)
    · have hcontent := hclosed.content
      rwa [createdPath, if_neg hm] at hcontent
  · intro hm hh
    have hne : (⟨.working, short⟩ : Path) ≠ createdPath mode short := by
      rw [createdPath, if_pos hm]
      simp
    rw [hclosed.others _ hne (fun hf => absurd hf (by rw [hh]; exact Bool.false_ne_true)), hcreated.others _ hne]
    exact hcreated.absent

end Store

/-! ## The mode of the header and the mode of the handle -/

/-- Within `n` bytes the key stream is neither zero nor equal to its continuation at a later position. -/
def Telling (ks : Nat → UInt8) (n : Nat) : Prop :=
  (∀ p ≤ maxNameLength, ∃ i < n, ks (p + i) ≠ 0) ∧ ∀ p, 0 < p → p ≤ maxNameLength → ∃ i < n, ks i ≠ ks (p + i)

section Modes

variable {env : Env} {h : Handle} {name : Bytes} {mode : Mode} {count n : Nat} {bs : Bytes}

theorem recover_seal (hmode : encrypted h.esfsMode = encrypted mode)
    (hsize : encrypted mode = true → notEncryptedFileHeaderSize h = n) :
    recover env mode h.nonce (h.seal env n bs) = bs := by
  unfold recover Handle.seal
  rw [hmode]
  split_ifs with henc
  · rw [hsize henc, Nat.sub_self, xorFrom_xorFrom]
  · rfl

theorem headerSize_of_count (hcount : count ≤ maxItems) (hitems : h.numberOfItems = UInt16.ofNat count) :
    notEncryptedFileHeaderSize h = h.blobNameLength.toNat + 8 + nonceSize h.esfsMode + 6 * count := by
  have hcount' : (UInt16.ofNat count).toNat = count := toNat_ofNat_of_lt (Nat.lt_of_le_of_lt hcount (by decide))
  rw [notEncryptedFileHeaderSize, hitems, hcount']
  omega

theorem nonceSize_congr {mode' : Mode} (h : encrypted mode = encrypted mode') : nonceSize mode = nonceSize mode' := by
  unfold nonceSize
  rw [h]

/-- Bytes that are read back have been stored with the mode and the name length of the header. -/
theorem agree_of_recover_seal (htelling : Telling (keyStream env h.nonce) bs.length)
    (hname : name.length ≤ maxNameLength) (hcount : count ≤ maxItems) (hitems : h.numberOfItems = UInt16.ofNat count)
    (hcan : h.CanStore (metaStart name mode count))
    (heq : recover env mode h.nonce (h.seal env (metaStart name mode count) bs) = bs) :
    encrypted h.esfsMode = encrypted mode ∧ (encrypted mode = true → h.blobNameLength.toNat = name.length) := by
  have hsize := headerSize_of_count hcount hitems
  unfold recover Handle.seal at heq
  by_cases hh : encrypted h.esfsMode = true
  · have hle := (hcan hh).2
    rw [if_pos hh] at heq
    have hnonce : nonceSize h.esfsMode = 8 := if_pos hh
    by_cases hm : encrypted mode = true
    · rw [if_pos hm] at heq
      refine ⟨hh.trans hm.symm, fun _ => ?_⟩
      have hnonce' : nonceSize mode = 8 := if_pos hm
      have hoffset : metaStart name mode count - notEncryptedFileHeaderSize h = name.length - h.blobNameLength.toNat := by
        rw [hsize, metaStart, hnonce, hnonce']
        omega
      have hle' : h.blobNameLength.toNat ≤ name.length := by
        rw [hsize, metaStart, hnonce, hnonce'] at hle
        omega
      rw [hoffset] at heq
      by_contra hne
      obtain ⟨i, hi, hdiff⟩ := htelling.2 (name.length - h.blobNameLength.toNat) (by omega) (by omega)
      apply hdiff
      have hbyte := xorFrom_xorFrom_eq heq hi
      rwa [Nat.zero_add] at hbyte
    · rw [if_neg hm] at heq
      have hnonce' : nonceSize mode = 0 := if_neg hm
      rw [hsize, metaStart, hnonce, hnonce'] at hle heq
      obtain ⟨i, hi, hdiff⟩ := htelling.1 (name.length + 8 + 0 + 6 * count -
        (h.blobNameLength.toNat + 8 + 8 + 6 * count)) (by omega)
      exact absurd (xorFrom_eq_self heq hi) hdiff
  · rw [if_neg hh] at heq
    by_cases hm : encrypted mode = true
    · rw [if_pos hm] at heq
      obtain ⟨i, hi, hdiff⟩ := htelling.1 0 (Nat.zero_le _)
      exact absurd (xorFrom_eq_self heq hi) hdiff
    refine ⟨?_, fun hm' => absurd hm' hm⟩
    rw [Bool.not_eq_true] at hh hm
    rw [hh, hm]

end Modes

/-! ## Reading back -/

section

variable {env : Env} {name : Bytes} {items : List TlvItem} {mode : Mode} {data : Bytes} {s s' : State} {short : Name} {h : Handle}

theorem Stored.isFile (hs : Stored env name items mode data s s' short h)
    (hfit : PositionsFit (metaStart name mode items.length) items) :
    IsFile env name mode h.nonce items (h.seal env (metaStart name mode items.length) (metaBytes items ++ data))
      data.length := by
  obtain ⟨s1, d, hcreated⟩ := hs.created
  exact
    { name_ne := hcreated.name_ne, name_le := hcreated.name_le, count := hcreated.count, values := hcreated.values,
      fit := hfit, length_stored := by rw [Handle.length_seal, length_append], length_le := hs.length_le }

variable {nonce : Vector UInt8 8} {stored : Bytes}

theorem readBack_eq (h : recover env mode nonce stored = metaBytes items ++ data) :
    readBack env mode nonce items stored = blobOf items data := by
  rw [readBack, h, cutItems_append, drop_left' rfl]
  rfl

/-- A reader that gets the blob of the caller has recovered its bytes. -/
theorem recover_of_answers (hlen : stored.length = (metaBytes items).length + data.length)
    (hanswers : ∀ qs : List Query, (∀ q ∈ qs, q.Valid items.length) →
      (readBack env mode nonce items stored).answers 0 qs = (blobOf items data).answers 0 qs) :
    recover env mode nonce stored = metaBytes items ++ data := by
  have hlen' : (recover env mode nonce stored).length = (metaBytes items).length + data.length := by rw [length_recover, hlen]
  have hitems : cutItems items (recover env mode nonce stored) = items.map fun i => (i.type, i.value) := by
    apply ext_getElem
    · rw [length_cutItems, length_map]
    intro index hi hi'
    rw [length_cutItems] at hi
    have hanswer := hanswers [.readMetaData index] fun q hq => by
      rw [mem_singleton.mp hq]
      exact hi
    obtain ⟨htype, hvalue⟩ := Answer.item.inj (cons.inj hanswer).1
    rw [readBack, blobOf, getD_eq_getElem?_getD, getD_eq_getElem?_getD,
      getElem?_eq_getElem (by rwa [length_cutItems]), getElem?_eq_getElem hi', Option.getD_some,
      Option.getD_some] at htype hvalue
    exact Prod.ext htype hvalue
  have hdata : (recover env mode nonce stored).drop (metaBytes items).length = data := by
    have hanswer := hanswers [.read data.length] fun q hq => by
      rw [mem_singleton.mp hq]
      trivial
    have hbytes : ((readBack env mode nonce items stored).data.drop 0).take data.length =
        (data.drop 0).take data.length := Answer.bytes.inj (cons.inj hanswer).1
    rwa [drop_zero, drop_zero, take_length, take_of_length_le] at hbytes
    rw [readBack, length_drop, hlen', Nat.add_sub_cancel_left]
  rw [← take_append_drop (metaBytes items).length (recover env mode nonce stored), hdata, take_of_cutItems (by omega) hitems]

theorem roundTrip_of_recover (hs : Stored env name items mode data s s' short h)
    (hfit : PositionsFit (metaStart name mode items.length) items)
    (hfactory : factoryVal mode = true → factoryVal h.esfsMode = true)
    (hrecover : recover env mode h.nonce (h.seal env (metaStart name mode items.length) (metaBytes items ++ data)) =
      metaBytes items ++ data) : RoundTrip env name items mode data s'.world.disk := by
  obtain ⟨s1, d, hcreated⟩ := hs.created
  intro t hdisk hquiet
  have hcontent := hs.working hfactory
  rw [← hdisk] at hcontent
  obtain ⟨t', hopen, hanswers⟩ := esfs_session (hs.isFile hfit) hquiet hcreated.hashed hcontent
  rw [readBack_eq hrecover] at hanswers
  exact ⟨t', hopen, hanswers⟩

theorem recover_of_roundTrip (hs : Stored env name items mode data s s' short h) (hfault : ∀ n, env.fault n = none)
    (hfit : PositionsFit (metaStart name mode items.length) items)
    (hround : RoundTrip env name items mode data s'.world.disk) :
    (factoryVal mode = true → factoryVal h.esfsMode = true) ∧
      recover env mode h.nonce (h.seal env (metaStart name mode items.length) (metaBytes items ++ data)) =
        metaBytes items ++ data := by
  obtain ⟨s1, d, hcreated⟩ := hs.created
  obtain ⟨t', hopen, hanswers⟩ := hround ⟨s'.handle, ⟨s'.world.disk, 0, true⟩⟩ rfl ⟨rfl, fun n _ => hfault n⟩
  have hfactory : factoryVal mode = true → factoryVal h.esfsMode = true := by
    intro hm
    by_contra hh
    exact esfsOpen_absent (s := ⟨s'.handle, ⟨s'.world.disk, 0, true⟩⟩) hcreated.hashed
      (hs.absent hm (Bool.eq_false_iff.mpr hh)) hopen
  refine ⟨hfactory, ?_⟩
  have hfile := hs.isFile hfit
  obtain ⟨t'', hopen', hanswers'⟩ := esfs_session (s := ⟨s'.handle, ⟨s'.world.disk, 0, true⟩⟩) hfile
    ⟨rfl, fun n _ => hfault n⟩ hcreated.hashed (hs.working hfactory)
  cases hopen.symm.trans hopen'
  apply recover_of_answers hfile.length_stored
  intro qs hqs
  have hmap := (hanswers' qs hqs).symm.trans (hanswers qs hqs)
  exact (map_injective_iff.mpr fun a b hab => Except.ok.inj hab) hmap

end

/-! ## The exact condition -/

/-- A backup file of the same name that is replaced does not change how a blob is stored. -/
def Harmless (name : Bytes) (items : List TlvItem) (mode : Mode) (data old : Bytes) : Prop :=
  factoryVal (oldMode old) = true ∧ (metaBytes items ++ data = [] ∨
    (encrypted (oldMode old) = encrypted mode ∧
      (encrypted mode = true → (oldNameLength old (UInt16.ofNat name.length)).toNat = name.length)))

/-! ### A device

Nothing fails on it, and the first byte of its key stream is 1, all others are 2. -/

def device : Env where
  fault _ := none
  aes _ counter := Vector.ofFn fun i => if counter = 0 ∧ i.val = 0 then 1 else 2
  cmac bs := Vector.ofFn fun i => UInt8.ofNat (bs.length + i.val)
  sha256 bs := Vector.ofFn fun i => UInt8.ofNat (bs.length + 3 * i.val)
  random n := Vector.ofFn fun i => UInt8.ofNat (n + i.val)
  privatePrimary := false
  singlePartition := true

def newDevice : State :=
  ⟨⟨none, .unset, false, Vector.replicate 8 0, 0, 0, [], 0, Vector.replicate 3 ⟨0, 0, 0⟩, false, none, 0, 0⟩,
    ⟨⟨some ∅, some ⟨∅, none⟩⟩, 0, true⟩⟩

def deviceName : Bytes := [107, 101, 121]

def deviceItems : List TlvItem := [⟨5, [1, 2], by decide⟩]

/-- A file has been stored, and deleted from the working folder. -/
def usedDevice (mode : Mode) : State :=
  let s := (esfsStore device deviceName deviceItems mode [[10], [11, 12]] newDevice).2
  { s with world := { s.world with disk := s.world.disk.remove ⟨.working, s.handle.shortFileName⟩ } }

def deviceShort : Name := [65, 119, 89, 74, 68, 65, 56, 83]

theorem nameFromHash_device : nameFromHash (device.sha256 deviceName).toList = .ok deviceShort := by decide

theorem positionsFit_device (mode : Mode) : PositionsFit (metaStart deviceName mode deviceItems.length) deviceItems := by
  intro k hk
  have hsize : nonceSize mode ≤ 8 := by
    unfold nonceSize
    split <;> decide
  have hzero : k = 0 := Nat.lt_one_iff.mp hk
  subst hzero
  show 3 + 8 + nonceSize mode + 6 * 1 + 0 < 65536
  omega

theorem keyStream_device (nonce : Vector UInt8 8) (n : Nat) : keyStream device nonce n = if n = 0 then 1 else 2 := by
  have hn : n % 16 < 16 := Nat.mod_lt n (by decide)
  have hbyte : keyStream device nonce n = if n / 16 = 0 ∧ n % 16 = 0 then 1 else 2 := Vector.getElem_ofFn hn
  rw [hbyte]
  split
  · rw [if_pos (by omega)]
  · rw [if_neg (by omega)]

theorem telling_device (nonce : Vector UInt8 8) {n : Nat} (hn : 0 < n) : Telling (keyStream device nonce) n := by
  refine ⟨fun p _ => ⟨0, hn, ?_⟩, fun p hp _ => ⟨0, hn, ?_⟩⟩
  · rw [keyStream_device]
    split <;> decide
  · rw [keyStream_device, keyStream_device, if_pos rfl, if_neg (by omega)]
    decide

/-- A blob is read back if no backup file of its name is replaced, whatever fails while it is stored. If
one is replaced and no call fails, the blob is read back if the old file is harmless, and only then as
far as the key stream can be told apart from another one. -/
theorem roundTrip_iff {env : Env} {name : List UInt8} {items : List TlvItem} {mode : Mode}
    {bss : List (List UInt8)} {s s' : State} {short : Name}
    (hok : esfsStore env name items mode bss s = (.ok (), s'))
    (hfit : PositionsFit (metaStart name mode items.length) items)
    (hshort : nameFromHash (env.sha256 name).toList = .ok short) :
    ((factoryVal mode = true → s.world.disk.content ⟨.backup, short⟩ = none) →
        RoundTrip env name items mode bss.flatten s'.world.disk) ∧
      ((∀ n, env.fault n = none) → factoryVal mode = true → ∀ old,
        s.world.disk.content ⟨.backup, short⟩ = some old →
          (Harmless name items mode bss.flatten old → RoundTrip env name items mode bss.flatten s'.world.disk) ∧
          ((metaBytes items ++ bss.flatten ≠ [] →
              ∀ nonce, Telling (keyStream env nonce) (metaBytes items ++ bss.flatten).length) →
            RoundTrip env name items mode bss.flatten s'.world.disk → Harmless name items mode bss.flatten old)) := by
  obtain ⟨short', h, hs⟩ := esfsStore_ok hok
  obtain ⟨s1, d, hcreated⟩ := hs.created
  cases hshort.symm.trans hcreated.hashed
  have hsize := headerSize_of_count hcreated.count hcreated.items
  have hname := toNat_ofNat_of_lt (Nat.lt_of_le_of_lt hcreated.name_le (by decide))
  -- the handle agrees with the header if the mode and the length do
  have hagree : encrypted h.esfsMode = encrypted mode → (encrypted mode = true → h.blobNameLength.toNat = name.length) →
      recover env mode h.nonce (h.seal env (metaStart name mode items.length) (metaBytes items ++ bss.flatten)) =
        metaBytes items ++ bss.flatten := by
    intro hmode hlength
    refine recover_seal hmode fun henc => ?_
    rw [hsize, hlength henc, nonceSize_congr hmode, metaStart]
  refine ⟨fun hnone => ?_, fun hfault hm old hold => ⟨?_, ?_⟩⟩
  · obtain ⟨hmode, hlength⟩ := hcreated.kept hnone
    refine roundTrip_of_recover hs hfit (fun hm => by rwa [hmode]) (hagree (by rw [hmode]) fun _ => ?_)
    rw [hlength, hname]
  · rintro ⟨hfactory, hstored⟩
    obtain ⟨hmode, hlength⟩ := hcreated.replaced hfault hm old hold
    refine roundTrip_of_recover hs hfit (fun _ => by rwa [hmode]) ?_
    rcases hstored with hnil | ⟨henc, hlen⟩
    · rw [hnil, Handle.seal_nil]
      unfold recover
      split <;> rfl
    · refine hagree (by rw [hmode, henc]) fun he => ?_
      rw [hlength, hlen he]
  · intro htelling hround
    obtain ⟨hmode, hlength⟩ := hcreated.replaced hfault hm old hold
    obtain ⟨hfactory, hrecover⟩ := recover_of_roundTrip hs hfault hfit hround
    refine ⟨hmode ▸ hfactory hm, ?_⟩
    by_cases hnil : metaBytes items ++ bss.flatten = []
    · exact .inl hnil
    right
    have hboth := agree_of_recover_seal (htelling hnil h.nonce) hcreated.name_le hcreated.count hcreated.items
      (hs.canStore hnil) hrecover
    rwa [hmode, hlength] at hboth

def deviceBackup (mode : Mode) : Bytes := ((usedDevice mode).world.disk.content ⟨.backup, deviceShort⟩).getD []

theorem deviceBackup_spec :
    (usedDevice 0x300).world.disk.content ⟨.backup, deviceShort⟩ = some (deviceBackup 0x300) ∧
      factoryVal (oldMode (deviceBackup 0x300)) = true ∧
      encrypted (oldMode (deviceBackup 0x300)) = encrypted 0x300 ∧
      (oldNameLength (deviceBackup 0x300) (UInt16.ofNat deviceName.length)).toNat = deviceName.length := by
  decide +kernel

/-- A device on which a plain factory file has been replaced by an encrypted one. -/
def replacedDevice : State := (esfsStore device deviceName deviceItems 0x300 [[20, 21], [22]] (usedDevice 0x200)).2

/-- A device with a given disk, before a file is opened. -/
def restarted (d : Disk) : State := ⟨newDevice.handle, ⟨d, 0, true⟩⟩

theorem disk_restarted (d : Disk) : (restarted d).world.disk = d := rfl

theorem esfsStore_usedDevice :
    (esfsStore device deviceName deviceItems 0x300 [[20, 21], [22]] (usedDevice 0x300)).1 = .ok () ∧
      (esfsStore device deviceName deviceItems 0x300 [[20, 21], [22]] (usedDevice 0x200)).1 = .ok () ∧
      askAll device [.read 3] (esfsOpen device deviceName (restarted replacedDevice.world.disk)).2 =
        [.ok (.bytes [22, 23, 20])] := by
  decide +kernel

/-- The old file was stored in the same mode. -/
theorem roundTrip_usedDevice : (∀ nonce n, 0 < n → Telling (keyStream device nonce) n) ∧
      RoundTrip device deviceName deviceItems 0x300 [20, 21, 22]
        (esfsStore device deviceName deviceItems 0x300 [[20, 21], [22]] (usedDevice 0x300)).2.world.disk := by
  obtain ⟨hold, hmode, henc, hlength⟩ := deviceBackup_spec
  refine ⟨fun nonce n hn => telling_device nonce hn, ?_⟩
  have hiff := roundTrip_iff (Proc.eq_of_result esfsStore_usedDevice.1) (positionsFit_device 0x300)
    nameFromHash_device
  exact (hiff.2 (fun _ => rfl) (by decide) _ hold).1 ⟨hmode, .inr ⟨henc, fun _ => hlength⟩⟩

/-- The old file was stored as a plain one: the new data is stored in plain text under the header of an
encrypted file, and something else is read. -/
theorem not_roundTrip_replacedDevice :
    (esfsStore device deviceName deviceItems 0x300 [[20, 21], [22]] (usedDevice 0x200)).1 = .ok () ∧
      ¬ RoundTrip device deviceName deviceItems 0x300 [20, 21, 22] replacedDevice.world.disk := by
  obtain ⟨-, hok, hread⟩ := esfsStore_usedDevice
  refine ⟨hok, fun hround => ?_⟩
  obtain ⟨s', hopen, hanswers⟩ := hround (restarted replacedDevice.world.disk) (disk_restarted _) ⟨rfl, fun n _ => rfl⟩
  have hvalid : ∀ q ∈ [Query.read 3], q.Valid deviceItems.length := by
    intro q hq
    rw [mem_singleton.mp hq]
    exact .intro
  have hanswer := hanswers [.read 3] hvalid
  rw [hopen, hanswer] at hread
  cases hread

end MbedCloud.Storage

