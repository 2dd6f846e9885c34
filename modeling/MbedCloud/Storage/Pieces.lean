import MbedCloud.Storage.CreatedMode

/-!
# Encryption in pieces

Every call of `esfs_encrypt_fwrite_and_calc_cmac` starts the key stream at the position of its data in the
file, which need not be the start of a block, and goes through a buffer of its own.
-/

namespace MbedCloud.Storage

open Lib
open List hiding Vector
open Lib.Proc (Gives failWith each)

/-- Calls of `esfs_read_and_decrypt` one after the other. -/
def readPieces (env : Env) : List Nat → Esfs Bytes
  | [] => pure []
  | n :: ns => do
    let bs ← readAndDecrypt env n
    let rest ← readPieces env ns
    pure (bs ++ rest)

def readPiecesAt (env : Env) (position : Nat) (ns : List Nat) : Esfs Bytes := do
  failWith .error (file (fsFseek env position .set))
  readPieces env ns

section Pieces

variable {env : Env} {d : Disk} {h : Handle} {p : Path} {c : Bytes} {s : State} {pos : Nat}

theorem encryptEach_storing (hs : Storing env d h p c s) (haes : h.aesCtx = true)
    (hsize : notEncryptedFileHeaderSize h ≤ c.length) (pieces : List Bytes)
    (hmax : c.length + pieces.flatten.length ≤ maxPosition) :
    Gives (each (encryptFwriteAndCalcCmac env) pieces) s () (Storing env d h p
      (c ++ xorFrom (keyStream env h.nonce) (c.length - notEncryptedFileHeaderSize h) pieces.flatten)) := by
  induction pieces generalizing c s with
  | nil =>
    rw [flatten_nil, xorFrom_nil, append_nil]
    exact .pure hs
  | cons bs pieces ih =>
    rw [flatten_cons, length_append] at hmax
    refine (encryptFwriteAndCalcCmac_storing hs haes hsize (by omega)).bind fun s1 hs1 => ?_
    have hlen : (c ++ xorFrom (keyStream env h.nonce) (c.length - notEncryptedFileHeaderSize h) bs).length =
        c.length + bs.length := by rw [length_append, length_xorFrom]
    have hrest := ih hs1 (by omega) (by omega)
    rw [hlen, Nat.sub_add_comm hsize, append_assoc, ← xorFrom_append] at hrest
    exact hrest

theorem readPieces_gives (hr : Reading env p c h pos s) (haes : h.aesCtx = true)
    (hsize : notEncryptedFileHeaderSize h ≤ pos) (ns : List Nat) (hlen : pos + ns.sum ≤ c.length) :
    Gives (readPieces env ns) s (xorFrom (keyStream env h.nonce) (pos - notEncryptedFileHeaderSize h)
      ((c.drop pos).take ns.sum)) fun _ => True := by
  induction ns generalizing pos s with
  | nil => exact .pure trivial
  | cons n ns ih =>
    rw [sum_cons] at hlen ⊢
    refine (readAndDecrypt_gives hr hsize haes (by omega)).bind fun s1 hr1 => ?_
    refine (ih hr1 (by omega) (by omega)).bind fun s2 _ => ?_
    have htake : ((c.drop pos).take n).length = n := by
      rw [length_take, length_drop]
      omega
    rw [take_add, xorFrom_append, htake, drop_drop, ← Nat.sub_add_comm hsize]
    exact .pure trivial

/-- The data is combined with one key stream, from the position of its first byte on, in whatever pieces it
is written, and it can be read in any other pieces. -/
theorem pieces_restored (hs : Storing env d h p c s) (haes : h.aesCtx = true)
    (hsize : notEncryptedFileHeaderSize h ≤ c.length) (pieces : List (List UInt8))
    (hmax : c.length + pieces.flatten.length ≤ maxPosition) :
    Gives (each (encryptFwriteAndCalcCmac env) pieces) s () fun s' =>
      s'.world.disk.content p = some (c ++ xorFrom (keyStream env h.nonce)
        (c.length - notEncryptedFileHeaderSize h) pieces.flatten) ∧
      ∀ ns : List Nat, ns.sum = pieces.flatten.length → Gives (readPiecesAt env c.length ns) s' pieces.flatten fun _ => True := by
  refine (encryptEach_storing hs haes hsize pieces hmax).imp fun s' hs' => ⟨hs'.1.content, fun ns hns => ?_⟩
  generalize hc' : c ++ xorFrom (keyStream env h.nonce) (c.length - notEncryptedFileHeaderSize h)
    pieces.flatten = c' at hs'
  have hr : Reading env p c' { h with signatureCtx := some c', fileInvalid := false } c'.length s' :=
    ⟨hs'.1.handle, hs'.2, hs'.1.content⟩
  refine (fsFseek_gives hr c.length (Int.zero_add _)).failWith.bind fun s1 hr1 => ?_
  have hlen : c.length + ns.sum = c'.length := by rw [← hc', length_append, length_xorFrom, hns]
  have hread := readPieces_gives hr1 haes hsize ns hlen.le
  rw [← hc', drop_left, take_of_length_le (by rw [length_xorFrom, hns])] at hread
  rw [← xorFrom_xorFrom (c.length - notEncryptedFileHeaderSize h) pieces.flatten]
  exact hread

end Pieces

/-- A file of 20 bytes, which are 11 bytes more than the header. -/
def openFile : State :=
  ⟨{ newDevice.handle with
      file := some ⟨⟨.working, []⟩, 20⟩, aesCtx := true, blobNameLength := 1
      signatureCtx := some (replicate 20 0) },
    ⟨⟨some (AList.insert [] (replicate 20 0) ∅), none⟩, 0, true⟩⟩

theorem pieces_restored_openFile :
    Gives (each (encryptFwriteAndCalcCmac device) [[1, 2], [3]]) openFile () fun s' =>
      s'.world.disk.content ⟨.working, []⟩ =
        some (replicate 20 0 ++ xorFrom (keyStream device openFile.handle.nonce) 11 [1, 2, 3]) ∧
      Gives (readPiecesAt device 20 [1, 2]) s' [1, 2, 3] fun _ => True := by
  have hs : Storing device openFile.world.disk openFile.handle ⟨.working, []⟩ (replicate 20 0) openFile :=
    ⟨⟨rfl, by decide, fun _ _ => rfl, fun _ => rfl⟩, ⟨rfl, fun _ _ => rfl⟩⟩
  exact (pieces_restored hs rfl (by decide) [[1, 2], [3]] (by decide)).imp fun s' hs' => ⟨hs'.1, hs'.2 [1, 2] rfl⟩

end MbedCloud.Storage

