import MbedCloud.Storage.RoundTrip

/-!
# The mode of a created file

After a success of `esfs_create` the header has the mode that was asked for, and the metadata and all
that is written later should be encrypted exactly if the mode says so (`KeepsMode`).

The bytes are stored by the mode in the handle. If a factory file replaces a backup file of the same
name, this is the mode of the old file.
-/

namespace MbedCloud.Storage

open Lib
open List hiding Vector
open Lib.Proc (Ends Gives)

/-! ## Writes that succeed -/

section

variable {env : Env} {d : Disk} {h : Handle} {p : Path} {c : Bytes} {s : State}

def Storing (env : Env) (d : Disk) (h : Handle) (p : Path) (c : Bytes) (s : State) : Prop :=
  Signed d h p c false s ∧ Quiet env s.world

section

variable (hs : Storing env d h p c s)
include hs

theorem encryptFwriteAndCalcCmac_storing {bs : Bytes} (haes : h.aesCtx = true)
    (hsize : notEncryptedFileHeaderSize h ≤ c.length) (hle : c.length + bs.length ≤ maxPosition) :
    Gives (encryptFwriteAndCalcCmac env bs) s () (Storing env d h p
      (c ++ xorFrom (keyStream env h.nonce) (c.length - notEncryptedFileHeaderSize h) bs)) := by
  obtain ⟨u, hu⟩ := (encryptFwriteAndCalcCmac_stores hs.1 fun _ : True => ⟨rfl, haes, hsize, hle⟩).gives hs.2 trivial
  exact hu.imp fun s' hs' => ⟨hs'.1.1, hs'.2⟩

theorem esfsWrite_storing {bs : Bytes} (hcan : h.CanStore c.length) (hname : h.blobNameLength ≠ 0)
    (hflag : h.fileFlag = .write) (hbs : bs ≠ []) (hle : c.length + bs.length ≤ maxPosition) :
    (esfsWrite env bs s).1 = .ok () := by
  obtain ⟨u, s', hs', -⟩ := (esfsWrite_stores hs.1 fun _ : True => ⟨hname, hflag, rfl, hcan, hbs, hle⟩).gives hs.2 trivial
  rw [hs']

end

end

/-! ## The property -/

/-- Bytes are stored encrypted, at some position of the key stream, exactly if the mode asks for it. -/
def StoredAs (env : Env) (mode : Mode) (nonce : Vector UInt8 8) (plain stored : Bytes) : Prop :=
  if encrypted mode then ∃ position ≤ maxNameLength, stored = xorFrom (keyStream env nonce) position plain
  else stored = plain

/-- Whatever is written later with the handle `h`, the file consists of the header with the mode and of
the metadata and all that has been written, stored by that mode. -/
def KeepsMode (env : Env) (name : Bytes) (items : List TlvItem) (mode : Mode) (p : Path) (h : Handle)
    (d : Disk) : Prop :=
  ∀ (w : World) (bss : List Bytes), w.disk = d → ∃ nonce parts stored,
    KeptAll (esfsWrites env bss ⟨h, w⟩).1 bss parts ∧
      (esfsWrites env bss ⟨h, w⟩).2.world.disk.content p = some (fileHeader name mode nonce items ++ stored) ∧
      StoredAs env mode nonce (metaBytes items ++ parts.flatten) stored

theorem KeepsMode.metaData {env : Env} {name : Bytes} {items : List TlvItem} {mode : Mode} {p : Path} {h : Handle}
    {d : Disk} (hkeeps : KeepsMode env name items mode p h d) :
    ∃ nonce stored, d.content p = some (fileHeader name mode nonce items ++ stored) ∧
      StoredAs env mode nonce (metaBytes items) stored := by
  obtain ⟨nonce, parts, stored, hkept, hcontent, hstored⟩ := hkeeps ⟨d, 0, true⟩ [] rfl
  have hparts : parts = [] := hkept.eq_of_ok fun r hr => nomatch hr
  rw [hparts, flatten_nil, append_nil] at hstored
  exact ⟨nonce, stored, hcontent, hstored⟩

/-- Nothing can be stored with a handle that has the mode and the name length of an old file. -/
def Inert (aesCtx : Bool) (name : Bytes) (items : List TlvItem) (old : Bytes) : Prop :=
  items = [] ∧ ((oldNameLength old (UInt16.ofNat name.length)).toNat = 0 ∨
    (encrypted (oldMode old) = true ∧ (aesCtx = false ∨ name.length < (oldNameLength old (UInt16.ofNat name.length)).toNat + 8)))

/-- The key stream changes every text of `n` bytes. -/
def Masks (ks : Nat → UInt8) (n : Nat) : Prop := ∀ p ≤ maxNameLength, ∃ i < n, ks (p + i) ≠ 0

theorem Masks.ne {ks : Nat → UInt8} {n p : Nat} {bs : Bytes} (h : Masks ks n) (hp : p ≤ maxNameLength)
    (hn : n ≤ bs.length) : xorFrom ks p bs ≠ bs := by
  intro heq
  obtain ⟨i, hi, hne⟩ := h p hp
  exact hne (xorFrom_eq_self heq (Nat.lt_of_lt_of_le hi hn))

/-! ## Writes that fail -/

/-- With an invalid handle nothing is written. -/
theorem esfsWrites_invalid (env : Env) (bss : List Bytes) {s : State} (h : s.handle.blobNameLength = 0) :
    (esfsWrites env bss s).2 = s ∧ KeptAll (esfsWrites env bss s).1 bss (bss.map fun _ => []) := by
  induction bss with
  | nil => exact ⟨rfl, trivial⟩
  | cons bs bss ih =>
    have hfail : esfsWrite env bs s = (.error .invalidParameter, s) := by
      apply Proc.bind_of_error
      have hget : getHandle (·.blobNameLength) s = (.ok 0, s) := by
        rw [← h]
        rfl
      exact (Proc.bind_of_ok hget).trans rfl
    unfold esfsWrites
    rw [hfail]
    exact ⟨ih.1, ⟨ nil_prefix, by simp⟩, ih.2⟩

theorem flatten_map_nil (bss : List Bytes) : (bss.map fun _ => ([] : Bytes)).flatten = [] := by
  induction bss with
  | nil => rfl
  | cons bs bss ih => exact ih

section Created

variable {env : Env} {name : Bytes} {items : List TlvItem} {mode : Mode} {s s' : State} {short : Name} {h : Handle} {d : Disk}

theorem Created.writes (hc : Created env name items mode s s' short h d) {w : World} (hw : w.disk = s'.world.disk)
    (bss : List Bytes) :
    ∃ parts, KeptAll (esfsWrites env bss ⟨s'.handle, w⟩).1 bss parts ∧
      (parts.flatten ≠ [] → h.CanStore (metaStart name mode items.length)) ∧
      (esfsWrites env bss ⟨s'.handle, w⟩).2.world.disk.content (createdPath mode short) =
        some (fileHeader name mode h.nonce items ++
          h.seal env (metaStart name mode items.length) (metaBytes items ++ parts.flatten)) := by
  have hsame : Unchanged s' ⟨s'.handle, w⟩ := ⟨rfl, hw⟩
  have hstart := hc.writing.unchanged hsame
  obtain ⟨parts, sig, invalid, hkept, hcan, hwriting, -⟩ := esfsWrites_stored env bss hstart
  rw [length_sealed] at hcan hwriting
  refine ⟨parts, hkept, ?_, ?_⟩
  · intro hne
    by_cases hmeta : metaBytes items = []
    · have hdata := hcan hne
      rwa [hmeta, length_nil, Nat.add_zero] at hdata
    · exact hc.canStore hmeta
  · rw [hwriting.content, Handle.seal_append env hc.canStore, append_assoc]

variable {nonce : Vector UInt8 8} {old : Bytes} {n : Nat}

/-- A header determines what comes behind it. -/
theorem stored_inj {nonce' : Vector UInt8 8} {a b : Bytes}
    (heq : fileHeader name mode nonce items ++ a = fileHeader name mode nonce' items ++ b) : a = b := by
  apply (append_inj heq ?_).2
  rw [length_fileHeader, length_fileHeader]

/-- The mode is kept if the handle has the right kind of mode, or if nothing is stored with it. -/
theorem keepsMode_of_agree (hc : Created env name items mode s s' short h d) (hagree : encrypted h.esfsMode = encrypted mode) :
    KeepsMode env name items mode (createdPath mode short) s'.handle s'.world.disk := by
  intro w bss hw
  obtain ⟨parts, hkept, -, hcontent⟩ := hc.writes hw bss
  refine ⟨h.nonce, parts, _, hkept, hcontent, ?_⟩
  unfold StoredAs Handle.seal
  rw [hagree]
  split
  · refine ⟨_, ?_, rfl⟩
    have hname := hc.name_le
    rw [headerSize_of_count hc.count hc.items, nonceSize_congr hagree, metaStart]
    omega
  · rfl

theorem keepsMode_of_nothing (hitems : items = []) (nonce : Vector UInt8 8)
    (hnothing : ∀ (w : World) (bss : List Bytes), w.disk = s'.world.disk → ∃ parts,
      KeptAll (esfsWrites env bss ⟨s'.handle, w⟩).1 bss parts ∧ parts.flatten = [] ∧
        (esfsWrites env bss ⟨s'.handle, w⟩).2.world.disk.content (createdPath mode short) =
          some (fileHeader name mode nonce items)) :
    KeepsMode env name items mode (createdPath mode short) s'.handle s'.world.disk := by
  intro w bss hw
  obtain ⟨parts, hkept, hnil, hcontent⟩ := hnothing w bss hw
  refine ⟨nonce, parts, [], hkept, ?_, ?_⟩
  · rw [hcontent, append_nil]
  have hplain : metaBytes items ++ parts.flatten = [] := by
    rw [hnil, hitems]
    rfl
  rw [hplain]
  unfold StoredAs
  split
  · exact ⟨0, Nat.zero_le _, rfl⟩
  · rfl

theorem keepsMode_of_inert (hc : Created env name items mode s s' short h d)
    (hmode : h.esfsMode = oldMode old) (hlength : h.blobNameLength = oldNameLength old (UInt16.ofNat name.length))
    (hplain : encrypted (oldMode old) = true → encrypted mode = false) (hinert : Inert s.handle.aesCtx name items old) :
    KeepsMode env name items mode (createdPath mode short) s'.handle s'.world.disk := by
  obtain ⟨rfl, hinert⟩ := hinert
  refine keepsMode_of_nothing rfl h.nonce fun w bss hw => ?_
  rcases hinert with hzero | ⟨henc, hcannot⟩
  · -- every write is refused
    have hname : s'.handle.blobNameLength = 0 := by
      rw [hc.writing.handle]
      rw [hlength]
      exact UInt16.toNat_inj.mp hzero
    obtain ⟨hstate, hkept⟩ := esfsWrites_invalid (s := ⟨s'.handle, w⟩) env bss hname
    refine ⟨_, hkept, flatten_map_nil bss, ?_⟩
    rw [hstate]
    rw [hw, hc.writing.content]
    show some (fileHeader name mode h.nonce [] ++ h.seal env _ []) = _
    rw [Handle.seal_nil, append_nil]
  · -- no write can be encrypted
    obtain ⟨parts, hkept, hcan, hcontent⟩ := hc.writes hw bss
    have hnil : parts.flatten = [] := by
      by_contra hne
      obtain ⟨haes, hsize⟩ := hcan hne (by rw [hmode]; exact henc)
      have hm := hplain henc
      have hnonce : nonceSize h.esfsMode = 8 := by rw [hmode]; exact if_pos henc
      have hnonce' : nonceSize mode = 0 := by rw [nonceSize, hm]; rfl
      rw [headerSize_of_count hc.count hc.items, hnonce, metaStart, hnonce', hlength] at hsize
      rw [hc.aesCtx, hm, Bool.false_or] at haes
      rcases hcannot with hctx | hshort
      · rw [hctx] at haes
        cases haes
      · omega
    refine ⟨parts, hkept, hnil, ?_⟩
    rw [hcontent, hnil]
    show some (fileHeader name mode h.nonce [] ++ h.seal env _ []) = _
    rw [Handle.seal_nil, append_nil]

/-- Bytes that are stored by the other kind of mode are not stored as they should be. -/
theorem not_storedAs {plain : Bytes}
    (hdiffer : encrypted h.esfsMode ≠ encrypted mode) (hc : Created env name items mode s s' short h d)
    (hmasks : ∀ nonce, Masks (keyStream env nonce) n) (hn : n ≤ plain.length) :
    ¬ StoredAs env mode nonce plain (h.seal env (metaStart name mode items.length) plain) := by
  intro hstored
  unfold StoredAs Handle.seal at hstored
  by_cases hm : encrypted mode = true
  · have hh : encrypted h.esfsMode ≠ true := fun hh => hdiffer (hh.trans hm.symm)
    rw [if_pos hm, if_neg hh] at hstored
    obtain ⟨position, hle, heq⟩ := hstored
    exact (hmasks nonce).ne hle hn heq.symm
  have hh : encrypted h.esfsMode = true := by
    by_contra hh
    rw [Bool.not_eq_true] at hh hm
    exact hdiffer (hh.trans hm.symm)
  rw [if_neg hm, if_pos hh] at hstored
  refine (hmasks h.nonce).ne ?_ hn hstored
  have hname := hc.name_le
  have hnonce : nonceSize h.esfsMode = 8 := if_pos hh
  have hnonce' : nonceSize mode = 0 := if_neg hm
  rw [headerSize_of_count hc.count hc.items, metaStart, hnonce, hnonce']
  omega

theorem agree_or_inert (hc : Created env name items mode s s' short h d) (hfault : ∀ n, env.fault n = none)
    (hmode : h.esfsMode = oldMode old)
    (hlength : h.blobNameLength = oldNameLength old (UInt16.ofNat name.length)) (hn : n ≤ 65536)
    (hmasks : ∀ nonce, Masks (keyStream env nonce) n)
    (hmeta : items ≠ [] → ∀ nonce, Masks (keyStream env nonce) (metaBytes items).length)
    (hkeeps : KeepsMode env name items mode (createdPath mode short) s'.handle s'.world.disk) :
    encrypted (oldMode old) = encrypted mode ∨ Inert s.handle.aesCtx name items old := by
  by_contra hneither
  obtain ⟨hdiffer, hinert⟩ := not_or.mp hneither
  rw [← hmode] at hdiffer
  by_cases hitems : items = []
  · -- a buffer of zeros can be written
    subst hitems
    have hbytes : metaBytes [] = [] := rfl
    have hname : h.blobNameLength ≠ 0 := by
      intro hzero
      apply hinert
      refine ⟨rfl, .inl ?_⟩
      rw [← hlength, hzero]
      rfl
    have hcan : h.CanStore (metaStart name mode 0) := by
      intro hh
      have hm : encrypted mode = false := by
        rw [← Bool.not_eq_true]
        exact fun hm => hdiffer (hh.trans hm.symm)
      have hnot : ¬ (s.handle.aesCtx = false ∨ name.length < (oldNameLength old (.ofNat name.length)).toNat + 8) :=
        fun hor => hinert ⟨rfl, .inr ⟨hmode ▸ hh, hor⟩⟩
      obtain ⟨haes, hlt⟩ := not_or.mp hnot
      refine ⟨?_, ?_⟩
      · rw [hc.aesCtx, hm, Bool.false_or]
        exact Bool.eq_true_of_not_eq_false haes
      have hnonce : nonceSize h.esfsMode = 8 := if_pos hh
      have hnonce' : nonceSize mode = 0 := by rw [nonceSize, hm]; rfl
      rw [headerSize_of_count hc.count hc.items, length_nil, hlength, hnonce, metaStart, hnonce']
      omega
    have hpos : 0 < n := by
      obtain ⟨i, hi, -⟩ := hmasks h.nonce 0 (Nat.zero_le _)
      omega
    have hzeros : .replicate n (0 : UInt8) ≠ [] := by
      intro hnil
      rw [replicate_eq_nil_iff] at hnil
      omega
    have hquiet : Quiet env ⟨s'.world.disk, 0, true⟩ := ⟨rfl, fun n _ => hfault n⟩
    have hsame : Unchanged s' ⟨s'.handle, ⟨s'.world.disk, 0, true⟩⟩ := ⟨rfl, rfl⟩
    have hstart := hc.writing.unchanged hsame
    rw [hbytes, Handle.seal_nil, append_nil] at hstart
    have hlen := length_fileHeader name mode h.nonce []
    have hok : (esfsWrite env (.replicate n 0) ⟨s'.handle, ⟨s'.world.disk, 0, true⟩⟩).1 = .ok () := by
      refine esfsWrite_storing ⟨hstart, hquiet⟩ ?_ hname hc.flag hzeros ?_
      · rw [hlen]
        exact hcan
      have hle := hc.name_le
      have hnonce : nonceSize mode ≤ 8 := by
        unfold nonceSize
        split <;> omega
      rw [hlen, length_replicate, metaStart, length_nil]
      unfold maxPosition
      unfold maxNameLength at hle
      omega
    obtain ⟨nonce, parts, stored, hkept, hcontent, hstored⟩ := hkeeps ⟨s'.world.disk, 0, true⟩ [replicate n 0] rfl
    have hall : ∀ r ∈ (esfsWrites env [replicate n 0] ⟨s'.handle, ⟨s'.world.disk, 0, true⟩⟩).1, r = .ok () := by
      intro r hr
      rw [mem_singleton.mp hr]
      exact hok
    cases hkept.eq_of_ok hall
    obtain ⟨parts', hkept', -, hcontent'⟩ := hc.writes (w := ⟨s'.world.disk, 0, true⟩) rfl [replicate n 0]
    cases hkept'.eq_of_ok hall
    cases stored_inj (Option.some.inj (hcontent.symm.trans hcontent'))
    refine not_storedAs hdiffer hc hmasks ?_ hstored
    rw [hbytes, nil_append, flatten_singleton, length_replicate]
  · -- the metadata has been stored
    obtain ⟨nonce, stored, hcontent, hstored⟩ := hkeeps.metaData
    cases stored_inj (Option.some.inj (hcontent.symm.trans hc.writing.content))
    exact not_storedAs hdiffer hc (hmeta hitems) (Nat.le_refl _) hstored

end Created

/-! ## The exact condition -/

/-- The mode of a new file is kept if no backup file of its name is replaced, whatever fails. If one is
replaced and no call fails, the mode is kept if both files are encrypted or both are not, or if
nothing can be stored; and only then, as far as the key stream is not zero. -/
theorem keepsMode_iff {env : Env} {name : List UInt8} {items : List TlvItem} {mode : Mode} {s s' : State}
    {short : Name} (hok : esfsCreate env name items mode s = (.ok (), s'))
    (hshort : nameFromHash (env.sha256 name).toList = .ok short) :
    ((factoryVal mode = true → s.world.disk.content ⟨.backup, short⟩ = none) →
        KeepsMode env name items mode (createdPath mode short) s'.handle s'.world.disk) ∧
      ((∀ n, env.fault n = none) → factoryVal mode = true → ∀ old,
        s.world.disk.content ⟨.backup, short⟩ = some old →
          (encrypted (oldMode old) = encrypted mode ∨ Inert s.handle.aesCtx name items old →
            KeepsMode env name items mode (createdPath mode short) s'.handle s'.world.disk) ∧
          (∀ n ≤ 65536, (∀ nonce, Masks (keyStream env nonce) n) →
            (items ≠ [] → ∀ nonce, Masks (keyStream env nonce) (metaBytes items).length) →
            KeepsMode env name items mode (createdPath mode short) s'.handle s'.world.disk →
            encrypted (oldMode old) = encrypted mode ∨ Inert s.handle.aesCtx name items old)) := by
  obtain ⟨short', h, d, hc⟩ := esfsCreate_ok hok
  cases hshort.symm.trans hc.hashed
  refine ⟨fun hnone => ?_, fun hfault hm old hold => ⟨?_, ?_⟩⟩
  · obtain ⟨hmode, -⟩ := hc.kept hnone
    exact keepsMode_of_agree hc (by rw [hmode])
  · obtain ⟨hmode, hlength⟩ := hc.replaced hfault hm old hold
    intro hor
    by_cases hagree : encrypted (oldMode old) = encrypted mode
    · exact keepsMode_of_agree hc (by rw [hmode, hagree])
    refine keepsMode_of_inert hc hmode hlength (fun henc => ?_) (hor.resolve_left hagree)
    rw [← Bool.not_eq_true]
    exact fun hm' => hagree (henc.trans hm'.symm)
  · obtain ⟨hmode, hlength⟩ := hc.replaced hfault hm old hold
    intro n hn hmasks hmeta hkeeps
    exact agree_or_inert hc hfault hmode hlength hn hmasks hmeta hkeeps

theorem masks_device (nonce : Vector UInt8 8) {n : Nat} (hn : 0 < n) : Masks (keyStream device nonce) n :=
  (telling_device nonce hn).1

/-- The state after a plain factory file has been replaced by an encrypted one. -/
def recreated : State := (esfsCreate device deviceName deviceItems 0x300 (usedDevice 0x200)).2

/-- The value `[1, 2]` of the metadata is stored in plain text if the old file was a plain one. -/
theorem esfsCreate_usedDevice :
    (esfsCreate device deviceName deviceItems 0x300 (usedDevice 0x300)).1 = .ok () ∧
      (esfsCreate device deviceName deviceItems 0x300 (usedDevice 0x200)).1 = .ok () ∧
      (recreated.world.disk.content (createdPath 0x300 deviceShort)).map (·.drop 25) = some [1, 2] := by
  decide +kernel

theorem keepsMode_usedDevice :
    (∀ nonce n, 0 < n → Masks (keyStream device nonce) n) ∧
      KeepsMode device deviceName deviceItems 0x300 (createdPath 0x300 deviceShort)
        (esfsCreate device deviceName deviceItems 0x300 (usedDevice 0x300)).2.handle
        (esfsCreate device deviceName deviceItems 0x300 (usedDevice 0x300)).2.world.disk := by
  obtain ⟨hold, -, henc, -⟩ := deviceBackup_spec
  refine ⟨fun nonce n hn => masks_device nonce hn, ?_⟩
  have hiff := keepsMode_iff (Proc.eq_of_result esfsCreate_usedDevice.1) nameFromHash_device
  exact (hiff.2 (fun _ => rfl) (by decide) _ hold).1 (.inl henc)

theorem not_keepsMode_recreated :
    (esfsCreate device deviceName deviceItems 0x300 (usedDevice 0x200)).1 = .ok () ∧
      ¬ KeepsMode device deviceName deviceItems 0x300 (createdPath 0x300 deviceShort) recreated.handle
        recreated.world.disk := by
  obtain ⟨-, hok, hplain⟩ := esfsCreate_usedDevice
  refine ⟨hok, fun hkeeps => ?_⟩
  obtain ⟨nonce, stored, hcontent, hstored⟩ := hkeeps.metaData
  have hlen : (fileHeader deviceName 0x300 nonce deviceItems).length = 25 := length_fileHeader _ _ _ _
  rw [hcontent, Option.map_some, drop_left' hlen] at hplain
  rw [Option.some.inj hplain] at hstored
  obtain ⟨position, hle, heq⟩ := hstored
  have hmasks : Masks (keyStream device nonce) 1 := masks_device nonce Nat.one_pos
  exact hmasks.ne hle (by decide) heq.symm

end MbedCloud.Storage

