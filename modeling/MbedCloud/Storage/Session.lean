import MbedCloud.Storage.Opened

/-!
# Reading sessions

A caller that has opened a file asks for its size, its data and its metadata, in any order and with
any buffer sizes. The answers are those of a `Blob` (`esfs_session`): the values and the data that
result from what is stored in the file by the mode and the nonce in its header (`readBack`).
-/

namespace MbedCloud.Storage

open Lib
open List hiding Vector
open Lib.Proc (Ends Gives)

/-! ## Questions and answers -/

inductive Query where
  | fileSize
  | read (n : Nat)
  | readMetaData (index : Nat)
  deriving DecidableEq

inductive Answer where
  | size (n : Nat)
  | bytes (bs : Bytes)
  | item (type : UInt16) (value : Bytes)
  deriving DecidableEq

def Query.ask (env : Env) : Query → Esfs Answer
  | .fileSize => do
    let n ← esfsFileSize env
    pure (.size n)
  | .read n => do
    let bs ← esfsRead env n
    pure (.bytes bs)
  | .readMetaData index => do
    let item ← esfsReadMetaData env index
    pure (.item item.1 item.2)

def askAll (env : Env) : List Query → State → List (Except EsfsError Answer)
  | [], _ => []
  | q :: qs, s => (q.ask env s).1 :: askAll env qs (q.ask env s).2

/-- What a caller of `esfs_create` and `esfs_write` stores under a name. -/
structure Blob where
  items : List (UInt16 × Bytes)
  data : Bytes
  deriving DecidableEq

namespace Blob

/-- The answer after `pos` bytes of the data have been read. -/
def answer (b : Blob) (pos : Nat) : Query → Answer
  | .fileSize => .size b.data.length
  | .read n => .bytes ((b.data.drop pos).take n)
  | .readMetaData index => .item (b.items.getD index (0, [])).1 (b.items.getD index (0, [])).2

def advance (b : Blob) (pos : Nat) : Query → Nat
  | .read n => pos + min n (b.data.length - pos)
  | _ => pos

def answers (b : Blob) : Nat → List Query → List Answer
  | _, [] => []
  | pos, q :: qs => b.answer pos q :: b.answers (b.advance pos q) qs

end Blob

/-- The question is about the file or one of `count` items. -/
def Query.Valid (count : Nat) : Query → Prop
  | .readMetaData index => index < count
  | _ => True

/-! ## What is read back -/

/-- The bytes that a reader gets, by the mode and the nonce in the header. -/
def recover (env : Env) (mode : Mode) (nonce : Vector UInt8 8) (stored : Bytes) : Bytes :=
  if encrypted mode then xorFrom (keyStream env nonce) 0 stored else stored

/-- The values of the metadata that bytes start with. -/
def cutItems : List TlvItem → Bytes → List (UInt16 × Bytes)
  | [], _ => []
  | i :: items, bs => (i.type, bs.take i.value.length) :: cutItems items (bs.drop i.value.length)

/-- What a reader gets from the bytes behind the header. -/
def readBack (env : Env) (mode : Mode) (nonce : Vector UInt8 8) (items : List TlvItem) (stored : Bytes) : Blob :=
  ⟨cutItems items (recover env mode nonce stored), (recover env mode nonce stored).drop (metaBytes items).length⟩

theorem length_recover (env : Env) (mode : Mode) (nonce : Vector UInt8 8) (stored : Bytes) :
    (recover env mode nonce stored).length = stored.length := by
  unfold recover
  split
  · exact length_xorFrom _ stored
  · rfl

theorem recover_slice (env : Env) (mode : Mode) (nonce : Vector UInt8 8) (stored : Bytes) (k n : Nat) :
    ((recover env mode nonce stored).drop k).take n =
      if encrypted mode then xorFrom (keyStream env nonce) k ((stored.drop k).take n) else (stored.drop k).take n := by
  unfold recover
  split
  · rw [← xorFrom_drop, ← xorFrom_take, Nat.zero_add]
  · rfl

theorem length_cutItems (items : List TlvItem) (bs : Bytes) : (cutItems items bs).length = items.length := by
  induction items generalizing bs with
  | nil => rfl
  | cons i items ih => exact congrArg (· + 1) (ih _)

variable {items : List TlvItem} {index : Nat}

theorem getElem?_cutItems (bs : Bytes) (hi : index < items.length) :
    (cutItems items bs)[index]? =
      some (items[index].type, (bs.drop (metaBytes (items.take index)).length).take items[index].value.length) := by
  induction items generalizing bs index with
  | nil => exact absurd hi (Nat.not_lt_zero _)
  | cons i items ih =>
    cases index with
    | zero => rfl
    | succ index =>
      rw [cutItems, getElem?_cons_succ, ih _ (Nat.lt_of_succ_lt_succ hi), take_succ_cons, metaBytes_cons, length_append,
        ← drop_drop]
      rfl

theorem getElem?_storedItems (start : Nat) (hi : index < items.length) :
    (storedItems start items)[index]? = some ⟨items[index].type, UInt16.ofNat items[index].value.length,
        UInt16.ofNat (start + (metaBytes (items.take index)).length)⟩ := by
  induction items generalizing start index with
  | nil => exact absurd hi (Nat.not_lt_zero _)
  | cons i items ih =>
    cases index with
    | zero => rfl
    | succ index =>
      rw [storedItems, getElem?_cons_succ, ih _ (Nat.lt_of_succ_lt_succ hi), take_succ_cons, metaBytes_cons, length_append,
        Nat.add_assoc]
      rfl

theorem cutItems_append (items : List TlvItem) (data : Bytes) :
    cutItems items (metaBytes items ++ data) = items.map fun i => (i.type, i.value) := by
  induction items with
  | nil => rfl
  | cons i items ih => rw [metaBytes_cons, append_assoc, cutItems, take_left' rfl, drop_left' rfl, ih, map_cons]

theorem take_of_cutItems {bs : Bytes} (hlen : (metaBytes items).length ≤ bs.length)
    (h : cutItems items bs = items.map fun i => (i.type, i.value)) :
    bs.take (metaBytes items).length = metaBytes items := by
  induction items generalizing bs with
  | nil => rfl
  | cons i items ih =>
    rw [metaBytes_cons, length_append] at hlen ⊢
    obtain ⟨hhead, htail⟩ := cons.inj h
    have hvalue : bs.take i.value.length = i.value := (Prod.mk.inj hhead).2
    have hrest := ih (by rw [length_drop]; omega) htail
    rw [take_add, hvalue, hrest]

/-! ## Reading an open file -/

section

variable {env : Env} {p : Path} {h : Handle} {pos : Nat} {s : State} {name : Bytes} {mode : Mode} {nonce : Vector UInt8 8}
  {stored c : Bytes} {size readPos : Nat} {n : Nat}

theorem readAndDecrypt_gives (hr : Reading env p c h pos s) (hsize : notEncryptedFileHeaderSize h ≤ pos)
    (haes : h.aesCtx = true) (hn : pos + n ≤ c.length) :
    Gives (readAndDecrypt env n) s (xorFrom (keyStream env h.nonce) (pos - notEncryptedFileHeaderSize h) ((c.drop pos).take n))
      (Reading env p c h (pos + n)) := by
  have hlen : ((c.drop pos).take n).length = n := by
    rw [length_take, length_drop]
    omega
  refine .bind (a := pos - notEncryptedFileHeaderSize h) (R := Reading env p c h pos) ?_ fun s1 hr1 => ?_
  · refine (fsFtell_gives hr).failWith.bind fun s1 hr1 => ?_
    refine (getHandle_gives hr1 rfl).bind fun s2 hr2 => ?_
    exact (require_gives hr2 (decide_eq_true hsize)).bind fun s3 hr3 => .pure hr3
  refine (fsFread_gives hr1 n).failWith.bind fun s2 hr2 => ?_
  rw [hlen] at hr2
  refine (require_gives hr2 (decide_eq_true hlen)).bind fun s3 hr3 => ?_
  refine (getHandle_gives hr3 haes).bind fun s4 hr4 => ?_
  refine (getHandle_gives hr4 rfl).bind fun s5 hr5 => ?_
  obtain ⟨out, s6, hs6, ⟨⟨-, rfl⟩, hsame⟩, hq⟩ :=
    (aesEncDecByFilePos_stores (fun _ : True => rfl) ((c.drop pos).take n) _ h.nonce).gives hr5.quiet trivial
  exact ⟨s6, hs6, hsame.handle.trans hr5.handle, hq, hsame.disk ▸ hr5.content⟩

theorem stored_slice (env : Env) (k : Nat) (hn : k + n ≤ stored.length) :
    ((signed env (fileHeader name mode nonce items ++ stored)).drop (metaStart name mode items.length + k)).take n =
      (stored.drop k).take n := by
  rw [signed, append_assoc, ← drop_drop, drop_left' (length_fileHeader name mode nonce items),
    drop_append_of_le_length (by omega), take_append_of_le_length (by rw [length_drop]; omega)]

theorem fetchBytes_gives (hf : IsFile env name mode nonce items stored size)
    (hc : c = signed env (fileHeader name mode nonce items ++ stored))
    (hh : OpenedHandle name mode nonce items size readPos h)
    {k : Nat} (hr : Reading env p c h (metaStart name mode items.length + k) s) (hn : k + n ≤ stored.length) :
    Gives (fetchBytes env n) s (((recover env mode nonce stored).drop k).take n)
      (Reading env p c h (metaStart name mode items.length + (k + n))) := by
  have hslice : (c.drop (metaStart name mode items.length + k)).take n = (stored.drop k).take n := by
    rw [hc, stored_slice env k hn]
  rw [recover_slice, ← hslice, ← Nat.add_assoc]
  refine (getHandle_gives hr hh.esfsMode).bind fun s1 hr1 => ?_
  cases henc : encrypted mode with
  | false =>
    have hread := fsFread_gives hr1 n
    rw [hslice, length_take, length_drop, Nat.min_eq_left (by omega)] at hread
    rw [hslice]
    exact .failWith hread
  | true =>
    have hheader : notEncryptedFileHeaderSize h = metaStart name mode items.length := (hf.fileHeaderSize_opened hh).1
    have hlen : metaStart name mode items.length + k + n ≤ c.length := by
      rw [hc, length_signed, length_append, length_fileHeader]
      omega
    have hread := readAndDecrypt_gives hr1 (by omega) (hh.aesCtx henc) hlen
    rwa [hheader, Nat.add_sub_cancel_left, hh.nonce henc] at hread

theorem validate_gives (hf : IsFile env name mode nonce items stored size)
    (hh : OpenedHandle name mode nonce items size readPos h) (hr : Reading env p c h pos s) :
    Gives validate s () (Reading env p c h pos) := by
  have hne : UInt16.ofNat name.length ≠ 0 := by
    intro hzero
    have hlen := hf.toNat_name
    rw [hzero] at hlen
    exact hf.name_ne (length_eq_zero_iff.mp hlen.symm)
  refine (getHandle_gives hr hh.blobNameLength).bind fun s1 hr1 => ?_
  exact require_gives hr1 (decide_eq_true hne)

/-- An open file of which `readPos` bytes have been read. -/
def Open (env : Env) (p : Path) (name : Bytes) (mode : Mode) (nonce : Vector UInt8 8) (items : List TlvItem)
    (stored : Bytes) (size readPos : Nat) (s : State) : Prop :=
  ∃ h, OpenedHandle name mode nonce items size readPos h ∧ readPos ≤ size ∧
    Reading env p (signed env (fileHeader name mode nonce items ++ stored)) h
      (metaStart name mode items.length + ((metaBytes items).length + readPos)) s

theorem OpenedHandle.advance (hh : OpenedHandle name mode nonce items size readPos h) (k : Nat) :
    OpenedHandle name mode nonce items size k { h with currentReadPos := k } := { hh with currentReadPos := rfl }

section

variable (hf : IsFile env name mode nonce items stored size)
include hf

section

variable (ho : Open env p name mode nonce items stored size readPos s)
include ho

theorem esfsFileSize_gives : Gives (esfsFileSize env) s size (Open env p name mode nonce items stored size readPos) := by
  obtain ⟨h, hh, hle, hr⟩ := ho
  have hheader := (hf.fileHeaderSize_opened hh).2
  refine (validate_gives hf hh hr).bind fun s1 hr1 => ?_
  refine (getPhysicalFileSize_gives hr1).failWith.bind fun s2 hr2 => ?_
  refine (getHandle_gives hr2 hheader).bind fun s3 hr3 => ?_
  refine (getHandle_gives hr3 hh.fileFlag).bind fun s4 hr4 => ?_
  rw [if_pos rfl, hf.dataSize rfl]
  exact .pure ⟨h, hh, hle, hr4⟩

theorem esfsRead_gives (n : Nat) :
    Gives (esfsRead env n) s (((recover env mode nonce stored).drop ((metaBytes items).length + readPos)).take n)
      (Open env p name mode nonce items stored size (readPos + min n (size - readPos))) := by
  obtain ⟨h, hh, hle, hr⟩ := ho
  have hlen := hf.length_stored
  have hmax := hf.length_le
  rw [length_signed, length_append, hlen] at hmax
  unfold maxPosition at hmax
  refine (validate_gives hf hh hr).bind fun s1 hr1 => ?_
  refine (getHandle_gives hr1 hh.fileFlag).bind fun s2 hr2 => ?_
  refine (require_gives hr2 rfl).bind fun s3 hr3 => ?_
  have hremaining : sub32 h.dataSize h.currentReadPos = size - readPos := by
    rw [hh.dataSize, hh.currentReadPos, sub32_of_le hle (by omega)]
  refine (getHandle_gives hr3 hremaining).bind fun s4 hr4 => ?_
  have hbytes : ((recover env mode nonce stored).drop ((metaBytes items).length + readPos)).take n =
      ((recover env mode nonce stored).drop ((metaBytes items).length + readPos)).take (min (size - readPos) n) := by
    rw [take_eq_take_iff, length_drop, length_recover]
    omega
  have hcount : (((recover env mode nonce stored).drop ((metaBytes items).length + readPos)).take
      (min (size - readPos) n)).length = min n (size - readPos) := by
    rw [length_take, length_drop, length_recover]
    omega
  rw [hbytes]
  refine (fetchBytes_gives hf rfl hh hr4 (by omega)).bind fun s5 hr5 => ?_
  rw [hcount]
  refine .bind (setHandle_gives hr5 _ { h with currentReadPos := readPos + min n (size - readPos) } ?_)
    fun s6 hr6 => .pure ⟨_, hh.advance _, by omega, ?_⟩
  · show { h with file := _, currentReadPos := h.currentReadPos + min n (size - readPos) } = _
    rw [hh.currentReadPos]
  · rwa [Nat.min_comm (size - readPos) n, Nat.add_assoc] at hr6

theorem esfsReadMetaData_gives {index : Nat} (hi : index < items.length) :
    Gives (esfsReadMetaData env index) s
      (items[index].type, ((recover env mode nonce stored).drop (metaBytes (items.take index)).length).take
        items[index].value.length) (Open env p name mode nonce items stored size readPos) := by
  obtain ⟨h, hh, hle, hr⟩ := ho
  have hcount := hf.count
  have hentry : h.tlvItems.toList.getD index ⟨0, 0, 0⟩ =
      ⟨items[index].type, UInt16.ofNat items[index].value.length,
        UInt16.ofNat (metaStart name mode items.length + (metaBytes (items.take index)).length)⟩ := by
    have htake := congrArg (·[index]?) hh.tlvItems
    rw [getElem?_take_of_lt hi, getElem?_storedItems _ hi] at htake
    rw [getD_eq_getElem?_getD, htake, Option.getD_some]
  have hlength := toNat_ofNat_of_lt items[index].small
  have hposition := toNat_ofNat_of_lt (hf.fit index hi)
  have hvalue : items[index].value ≠ [] := hf.values _ (getElem_mem hi)
  have hne : UInt16.ofNat items[index].value.length ≠ 0 := by
    intro hzero
    rw [hzero] at hlength
    exact hvalue (length_eq_zero_iff.mp hlength.symm)
  -- the value is one of the stored bytes
  have hbound : (metaBytes (items.take index)).length + items[index].value.length ≤ stored.length := by
    have hsplit : metaBytes items = metaBytes (items.take index) ++ metaBytes (items.drop index) := by
      unfold metaBytes
      rw [← flatten_append, ← map_append, take_append_drop]
    have hhead : metaBytes (items.drop index) = items[index].value ++ metaBytes (items.drop (index + 1)) := by
      rw [drop_eq_getElem_cons hi]
      rfl
    rw [hf.length_stored, hsplit, hhead, length_append, length_append]
    omega
  have hbytes : (((recover env mode nonce stored).drop (metaBytes (items.take index)).length).take
      items[index].value.length).length = items[index].value.length := by
    rw [length_take, length_drop, length_recover]
    omega
  refine (validate_gives hf hh hr).bind fun s1 hr1 => ?_
  refine (require_gives hr1 (decide_eq_true (Nat.lt_of_lt_of_le hi hcount))).bind fun s2 hr2 => ?_
  refine (getHandle_gives hr2 hentry).bind fun s3 hr3 => ?_
  refine (require_gives hr3 (decide_eq_true hne)).bind fun s4 hr4 => ?_
  refine (getHandle_gives hr4 hh.fileFlag).bind fun s5 hr5 => ?_
  refine (require_gives hr5 rfl).bind fun s6 hr6 => ?_
  refine (fsFtell_gives hr6).failWith.bind fun s7 hr7 => ?_
  rw [hlength, hposition]
  refine (fsFseek_gives hr7 _ (Int.zero_add _)).failWith.bind fun s8 hr8 => ?_
  refine (fetchBytes_gives hf rfl hh hr8 hbound).failWith.bind fun s9 hr9 => ?_
  refine (require_gives hr9 (decide_eq_true hbytes)).bind fun s10 hr10 => ?_
  refine (fsFseek_gives hr10 _ (Int.zero_add _)).failWith.bind fun s11 hr11 => ?_
  exact Gives.pure ⟨h, hh, hle, hr11⟩

end

end

/-! ## Sessions -/

section

variable (hf : IsFile env name mode nonce items stored size)
include hf

theorem readBack_size : (readBack env mode nonce items stored).data.length = size := by
  rw [readBack, length_drop, length_recover, hf.length_stored, Nat.add_sub_cancel_left]

theorem ask_gives (ho : Open env p name mode nonce items stored size readPos s) {q : Query} (hq : q.Valid items.length) :
    Gives (q.ask env) s ((readBack env mode nonce items stored).answer readPos q)
      (Open env p name mode nonce items stored size ((readBack env mode nonce items stored).advance readPos q)) := by
  have hsize := readBack_size hf
  cases q with
  | fileSize =>
    refine (esfsFileSize_gives hf ho).bind fun s1 ho1 => ?_
    rw [Blob.answer, hsize]
    exact .pure ho1
  | read n =>
    refine (esfsRead_gives hf ho n).bind fun s1 ho1 => ?_
    rw [Blob.answer, Blob.advance, hsize]
    rw [← drop_drop]
    exact .pure ho1
  | readMetaData index =>
    have hi : index < items.length := hq
    refine (esfsReadMetaData_gives hf ho hi).bind fun s1 ho1 => ?_
    rw [Blob.answer, readBack, getD_eq_getElem?_getD, getElem?_cutItems _ hi, Option.getD_some]
    exact .pure ho1

theorem askAll_eq (qs : List Query) {readPos : Nat} {s : State}
    (ho : Open env p name mode nonce items stored size readPos s) (hqs : ∀ q ∈ qs, q.Valid items.length) :
    askAll env qs s = ((readBack env mode nonce items stored).answers readPos qs).map .ok := by
  induction qs generalizing readPos s with
  | nil => rfl
  | cons q qs ih =>
    obtain ⟨s1, hs1, ho1⟩ := ask_gives hf ho (hqs q (.head _))
    have hrest := ih ho1 fun q' hq' => hqs q' (mem_cons_of_mem q hq')
    rw [askAll, hs1, hrest]
    rfl

theorem esfs_session {short : Name} (hq : Quiet env s.world)
    (hshort : nameFromHash (env.sha256 name).toList = .ok short) (hc : s.world.disk.content ⟨.working, short⟩ =
      some (signed env (fileHeader name mode nonce items ++ stored))) :
    ∃ s', esfsOpen env name s = (.ok mode, s') ∧ ∀ qs : List Query, (∀ q ∈ qs, q.Valid items.length) →
      askAll env qs s' = ((readBack env mode nonce items stored).answers 0 qs).map .ok := by
  obtain ⟨s', hs', h', hh', hr'⟩ := esfsOpen_gives hf rfl hq hshort hc
  exact ⟨s', hs', fun qs hqs => askAll_eq hf qs ⟨h', hh', Nat.zero_le _, hr'⟩ hqs⟩

end

end

end MbedCloud.Storage

