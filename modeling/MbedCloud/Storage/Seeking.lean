import MbedCloud.Storage.RoundTrip

/-!
# Seeking in an open file

`esfs_read` takes the position in the data from the handle, and the bytes from where the file is. `esfs_seek`
moves the file, but records the new position only for a caller that asks for it.
-/

namespace MbedCloud.Storage

open List hiding Vector
open Lib.Proc (Ends Gives)

inductive Access where
  | read (n : Nat)
  | seek (offset : Int32) (whence : Option Whence) (position : Bool)
  deriving DecidableEq

namespace Access

/-- A call, and the bytes that it reads. -/
def call (env : Env) : Access → Esfs Bytes
  | read n => esfsRead env n
  | seek offset whence position => do
    let _ ← esfsSeek env offset whence position
    pure []

/-- The bytes that a call has to read at a position in the data. -/
def expected (data : Bytes) (pos : Nat) : Access → Bytes
  | read n => (data.drop pos).take n
  | seek .. => []

/-- The call does not move the file without recording where. -/
def Recorded (h : Handle) : Access → Prop
  | seek offset whence false => ∀ w o, seekOffset h offset.toInt whence = some (o, w) →
    w.base h.currentReadPos h.dataSize + offset.toInt = h.currentReadPos
  | _ => True

/-- If a call has succeeded, the file is at the recorded position, and the bytes are those of the data. -/
def Correct (env : Env) (data : Bytes) (a : Access) (s : State) : Prop :=
  Ends (a.call env) s fun r s' => ∀ bs, r = .ok bs →
    s'.handle.file.map (·.pos) = some (fileHeaderSize s'.handle + s'.handle.currentReadPos) ∧
      bs = a.expected data s.handle.currentReadPos

end Access

/-- Every call is made in a state that meets a condition. -/
def EachCall (env : Env) (P : Access → State → Prop) : List Access → State → Prop
  | [], _ => True
  | a :: as, s => P a s ∧ EachCall env P as (a.call env s).2

theorem seekOffset_cases {h : Handle} {offset o : Int} {whence : Option Whence} {w : Whence}
    (hsize : h.dataSize ≤ maxPosition) (hpos : h.currentReadPos ≤ h.dataSize)
    (hseek : seekOffset h offset whence = some (o, w)) :
    ∃ k ≤ h.dataSize, w.base h.currentReadPos h.dataSize + offset = (k : Nat) ∧
      w.base (fileHeaderSize h + h.currentReadPos) (fileHeaderSize h + h.dataSize + 16) + o = (fileHeaderSize h + k : Nat) := by
  unfold maxPosition at hsize
  cases whence with
  | none => cases hseek
  | some w' =>
    cases w'
    all_goals
      rw [seekOffset, Option.ite_none_left_eq_some] at hseek
      obtain ⟨haccept, heq⟩ := hseek
      cases heq
      simp only [i32, not_or] at haccept
      simp only [Whence.base]
    · exact ⟨offset.toNat, by omega, by omega, by omega⟩
    · exact ⟨(h.currentReadPos + offset).toNat, by omega, by omega, by omega⟩
    · exact ⟨(h.dataSize + offset).toNat, by omega, by omega, by omega⟩

section Seek

variable {env : Env} {p : Path} {s : State} {name : Bytes} {mode : Mode} {nonce : Vector UInt8 8}
  {items : List TlvItem} {stored : Bytes} {size readPos : Nat}

section

variable (hf : IsFile env name mode nonce items stored size)
include hf

section

variable (ho : Open env p name mode nonce items stored size readPos s)
include ho

theorem Open.position : s.handle.currentReadPos = readPos ∧ s.handle.dataSize = size ∧
      fileHeaderSize s.handle = metaStart name mode items.length + (metaBytes items).length ∧
      s.handle.file.map (·.pos) = some (fileHeaderSize s.handle + s.handle.currentReadPos) := by
  obtain ⟨h, hh, -, hr⟩ := ho
  have hheader := (hf.fileHeaderSize_opened hh).2
  rw [hr.handle]
  refine ⟨hh.currentReadPos, hh.dataSize, hheader, ?_⟩
  show some _ = some (fileHeaderSize h + h.currentReadPos)
  rw [hheader, hh.currentReadPos, Nat.add_assoc]

theorem esfsSeek_ends {offset : Int32}
    {whence : Option Whence} {position : Bool} (hrecorded : (Access.seek offset whence position).Recorded s.handle) :
    Ends (esfsSeek env offset whence position) s fun _ s' => ∃ k, Open env p name mode nonce items stored size k s' := by
  obtain ⟨hreadPos, hdataSize, hheader, -⟩ := ho.position hf
  obtain ⟨h, hh, hle, hr⟩ := ho
  refine (validate_gives hf hh hr).ends_bind fun s1 hr1 => ?_
  refine (getHandle_gives hr1 hh.fileFlag).ends_bind fun s2 hr2 => ?_
  refine (require_gives hr2 rfl).ends_bind fun s3 hr3 => ?_
  refine (getHandle_gives (f := fun h => seekOffset h offset.toInt whence) hr3 (by rw [← hr.handle])).ends_bind
    fun s4 hr4 => ?_
  cases hseek : seekOffset s.handle offset.toInt whence with
  | none => exact ⟨readPos, h, hh, hle, hr4⟩
  | some x =>
    have hmax := hf.length_le
    rw [length_signed, length_append, hf.length_stored, length_fileHeader] at hmax
    obtain ⟨k, hk, htarget, hfile⟩ := seekOffset_cases (by omega) (by omega) hseek
    rw [hdataSize] at hk
    rw [hreadPos, hdataSize, hheader, Nat.add_assoc _ _ k, Nat.add_assoc _ _ readPos] at hfile
    have hlen : (signed env (fileHeader name mode nonce items ++ stored)).length =
        metaStart name mode items.length + (metaBytes items).length + size + 16 := by
      rw [length_signed, length_append, hf.length_stored, length_fileHeader, Nat.add_assoc _ _ size]
    rw [← hlen] at hfile
    refine (fsFseek_gives hr4 _ hfile).failWith.ends_bind fun s5 hr5 => ?_
    cases position with
    | false =>
      have hsame := hrecorded _ _ hseek
      have heq : k = readPos := by omega
      exact ⟨k, h, heq ▸ hh, hk, hr5⟩
    | true =>
      refine (fsFtell_gives hr5).failWith.ends_bind fun s6 hr6 => ?_
      refine (getHandle_gives hr6 (hf.fileHeaderSize_opened hh).2).ends_bind fun s7 hr7 => ?_
      unfold maxPosition at hmax
      rw [sub32_of_le (by omega) (by omega), ← Nat.add_assoc, Nat.add_sub_cancel_left]
      refine (setHandle_gives hr7 _ { h with currentReadPos := k } rfl).ends_bind fun s8 hr8 => ?_
      exact ⟨k, _, hh.advance k, hk, hr8⟩

theorem call_correct {a : Access} (hrecorded : a.Recorded s.handle) :
    a.Correct env (readBack env mode nonce items stored).data s ∧
      ∃ k, Open env p name mode nonce items stored size k (a.call env s).2 := by
  obtain ⟨hreadPos, -⟩ := ho.position hf
  have hend : Ends (a.call env) s fun r s' => (∃ k, Open env p name mode nonce items stored size k s') ∧
      ∀ bs, r = .ok bs → bs = a.expected (readBack env mode nonce items stored).data readPos := by
    cases a with
    | read n =>
      obtain ⟨s1, hs1, ho1⟩ := esfsRead_gives hf ho n
      unfold Ends
      rw [Access.call, hs1]
      refine ⟨⟨_, ho1⟩, fun bs hok => ?_⟩
      rw [Access.expected, readBack, drop_drop]
      exact (Except.ok.inj hok).symm
    | seek offset whence position =>
      refine .bind (esfsSeek_ends hf ho hrecorded) (fun _ s1 ho1 => ⟨ho1, fun bs hok => ?_⟩)
        fun e s1 ho1 => ⟨ho1, fun bs hok => ?_⟩
      · exact (Except.ok.inj hok).symm
      · cases hok
  refine ⟨hend.imp fun r s' hr bs hok => ?_, hend.1⟩
  obtain ⟨⟨k, ho1⟩, hbytes⟩ := hr
  exact ⟨(ho1.position hf).2.2.2, hreadPos ▸ hbytes bs hok⟩

end

theorem Open.eachCall (ho : Open env p name mode nonce items stored size readPos s) {as : List Access}
    (hrecorded : EachCall env (fun a s => a.Recorded s.handle) as s) :
    EachCall env (fun a s => a.Correct env (readBack env mode nonce items stored).data s) as s := by
  induction as generalizing readPos s with
  | nil => trivial
  | cons a as ih =>
    obtain ⟨hcorrect, k, ho1⟩ := call_correct hf ho hrecorded.1
    exact ⟨hcorrect, ih ho1 hrecorded.2⟩

/-- A file whose values all start below offset 65536 is opened, and every call of a run on it agrees with the data if each
one records where the file is. -/
theorem calls_correct {short : Name} (hshort : nameFromHash (env.sha256 name).toList = .ok short) (hquiet : Quiet env s.world)
    (hdisk : s.world.disk.content ⟨.working, short⟩ = some (signed env (fileHeader name mode nonce items ++ stored)))
    {as : List Access} (hrecorded : EachCall env (fun a s => a.Recorded s.handle) as (esfsOpen env name s).2) :
    (esfsOpen env name s).1 = .ok mode ∧
      EachCall env (fun a s => a.Correct env (readBack env mode nonce items stored).data s) as (esfsOpen env name s).2 := by
  obtain ⟨s', hopen, h, hh, hr⟩ := esfsOpen_gives hf rfl hquiet hshort hdisk
  rw [hopen] at hrecorded ⊢
  exact ⟨rfl, Open.eachCall hf ⟨h, hh, Nat.zero_le _, hr⟩ hrecorded⟩

end

end Seek

/-- A device with a file that has four bytes of data. -/
def readDevice : State :=
  restarted ⟨some (AList.insert deviceShort
    (signed device (fileHeader deviceName 0 (Vector.replicate 8 0) [] ++ [1, 2, 3, 4])) ∅), none⟩

theorem calls_correct_readDevice : EachCall device (fun a s => a.Correct device [1, 2, 3, 4] s)
    [.read 2, .seek 0 (some .cur) false, .seek 1 (some .set) true, .read 4] (esfsOpen device deviceName readDevice).2 := by
  have hf : IsFile device deviceName 0 (Vector.replicate 8 0) [] [1, 2, 3, 4] 4 :=
    ⟨by decide, by decide, by decide, by simp, by simp [PositionsFit], rfl, by decide⟩
  refine (calls_correct hf (s := readDevice) nameFromHash_device ⟨rfl, fun _ _ => rfl⟩ rfl ?_).2
  refine ⟨trivial, ?_, trivial, trivial, trivial⟩
  -- a seek by 0 from where the file is
  intro w o hseek
  rw [seekOffset, Option.ite_none_left_eq_some] at hseek
  cases hseek.2
  exact Int.add_zero _

/-- The seek leaves the file in front of the signature. -/
theorem not_calls_correct_signature : ¬ EachCall device (fun a s => a.Correct device [1, 2, 3, 4] s)
    [.seek 4 (some .set) false, .read 4] (esfsOpen device deviceName readDevice).2 := by
  rintro ⟨-, hread, -⟩
  have hsignature : ((Access.read 4).call device
      ((Access.seek 4 (some .set) false).call device (esfsOpen device deviceName readDevice).2).2).1 = .ok [15, 16, 17, 18] := by
    decide +kernel
  have hbytes := (hread _ hsignature).2
  revert hbytes
  decide +kernel

end MbedCloud.Storage
