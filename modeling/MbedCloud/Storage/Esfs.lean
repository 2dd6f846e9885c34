import MbedCloud.Storage.Pal

/-!
# The embedded secure file system

The functions of `esfs.c` that create, write, close, open and read a file, and `esfs_file_name.c`.
Their state is the file handle of the caller and the world of the platform calls. A file is

* the version, the mode, the length of the name and the name,
* for an encrypted file the nonce,
* the number of metadata items and for each its type, length and position in the file,
* the values of the items and the data, encrypted by position if the file is,
* and a CMAC of all that comes before it.

Pointers that are checked against `NULL` are those of existing buffers here, and a buffer is a list
of bytes with its length. Integers are stored with the low byte first, as on the targets.
-/

namespace MbedCloud.Storage

open Lib
open Lib.Proc (fail attempt failWith onError require when each modify get within)

/-! ## The handle -/

/-- `esfs_result_e` without `ESFS_SUCCESS`. -/
inductive EsfsError where
  | invalidParameter
  | internalError
  | bufferTooSmall
  | error
  | exists
  | notExists
  | hashConflict
  | fileOpenForRead
  | fileOpenForWrite
  | invalidFileVersion
  | cmacDoesNotMatch
  /-- The metadata of a file is read behind the end of an array. -/
  | outOfBounds
  deriving DecidableEq

/-- `esfs_file_flag_e`, `unset` for a handle that was never used. -/
inductive FileFlag where
  | unset
  | read
  | write
  deriving DecidableEq

abbrev Mode := UInt16

/-- `ESFS_ENCRYPTED` -/
def encrypted (mode : Mode) : Bool := mode.toNat.testBit 8

/-- `ESFS_FACTORY_VAL` -/
def factoryVal (mode : Mode) : Bool := mode.toNat.testBit 9

/-- `esfs_tlv_item_t` -/
structure TlvItem where
  type : UInt16
  value : Bytes
  small : value.length < 65536
  deriving DecidableEq

/-- `esfs_tlvItem_t` -/
structure StoredItem where
  type : UInt16
  lengthInBytes : UInt16
  position : UInt16
  deriving DecidableEq

/-- `ESFS_MAX_TYPE_LENGTH_VALUES` -/
def maxItems : Nat := 3

/-- `esfs_file_t`. The AES context is keyed as soon as it exists. -/
structure Handle where
  file : Option Fd
  fileFlag : FileFlag
  aesCtx : Bool
  nonce : Vector UInt8 8
  esfsMode : Mode
  blobNameLength : UInt16
  shortFileName : Name
  numberOfItems : UInt16
  tlvItems : Vector StoredItem 3
  fileInvalid : Bool
  signatureCtx : Option CmacCtx
  currentReadPos : Nat
  dataSize : Nat
  deriving DecidableEq

structure State where
  handle : Handle
  world : World
  deriving DecidableEq

abbrev Esfs (α : Type) := Proc State EsfsError α

def pal {α : Type} (x : Pal α) : Proc State PalError α := within (·.world) (fun w s => { s with world := w }) x

def file {α : Type} (x : FileOp α) : Proc State PalError α :=
  within (fun s => ⟨s.handle.file, s.world⟩) (fun f s => { handle := { s.handle with file := f.file }, world := f.world }) x

def setHandle (f : Handle → Handle) : Esfs Unit := modify fun s => { s with handle := f s.handle }

def getHandle {α : Type} (f : Handle → α) : Esfs α := get fun s => f s.handle

/-! ## Names -/

def base64Digits : Bytes :=
  ((List.range 26).map (65 + ·) ++ (List.range 26).map (97 + ·) ++ (List.range 10).map (48 + ·) ++ [35, 95]).map UInt8.ofNat

def intToBase64Char (v : UInt8) : UInt8 := base64Digits.getD (v.toNat % 64) 0

/-- The loop over the bytes: the characters, and the bit offset and the bytes that are left. -/
def encodeBytes : Nat → Nat → Bytes → Bytes × Nat × Bytes
  | 0, offset, bs => ([], offset, bs)
  | _ + 1, offset, [] => ([], offset, [])
  | space + 1, offset, b :: bs =>
    let step : UInt8 × Bytes :=
      if offset = 0 then (b >>> 2, b :: bs)
      else if offset = 6 then ((b <<< 4) ||| (bs.headD 0 >>> 4), bs)
      else if offset = 4 then ((b <<< 2) ||| (bs.headD 0 >>> 6), bs)
      else (b, bs)
    let rest := encodeBytes space ((offset + 6) % 8) step.2
    (intToBase64Char step.1 :: rest.1, rest.2)

/-- The loop that fills up with `!`. -/
def encodePadding : Nat → Nat → Bytes × Nat
  | 0, offset => ([], offset)
  | _ + 1, 0 => ([], 0)
  | space + 1, offset + 1 =>
    let rest := encodePadding space ((offset + 1 + 6) % 8)
    (33 :: rest.1, rest.2)

/-- `esfs_EncodeBase64` into a string of `size` characters with the 0 at its end. -/
def encodeBase64 (bs : Bytes) (size : Nat) : Except EsfsError Name :=
  let (chars, offset, rest) := encodeBytes (size - 1) 0 bs
  let (padding, offset) := encodePadding (size - 1 - chars.length) offset
  if rest ≠ [] ∨ offset ≠ 0 then .error .bufferTooSmall else .ok (chars ++ padding)

/-- `ESFS_FILE_NAME_LENGTH` -/
def fileNameLength : Nat := 9

def nameFromHash (hash : Bytes) : Except EsfsError Name := encodeBase64 (hash.take ((fileNameLength - 1) * 6 / 8)) fileNameLength

/-- `esfs_get_name_from_blob` -/
def getNameFromBlob (env : Env) (blob : Bytes) : Esfs Name := do
  let hash ← failWith .internalError (pal (sha256 env blob))
  match nameFromHash hash.toList with
  | .ok name => pure name
  | .error e => fail e

/-! ## Headers -/

def le16 (x : UInt16) : Bytes := [UInt8.ofNat x.toNat, UInt8.ofNat (x.toNat / 256)]

/-- A 16-bit field after `bs` has been read into it, which may be shorter than the field. -/
def overlay16 (old : UInt16) (bs : Bytes) : UInt16 :=
  match bs with
  | [] => old
  | [lo] => UInt16.ofNat (old.toNat / 256 * 256 + lo.toNat)
  | lo :: hi :: _ => UInt16.ofNat (lo.toNat + 256 * hi.toNat)

def StoredItem.encode (i : StoredItem) : Bytes := le16 i.type ++ le16 i.lengthInBytes ++ le16 i.position

def StoredItem.decode (bs : Bytes) : StoredItem :=
  ⟨overlay16 0 (bs.take 2), overlay16 0 ((bs.drop 2).take 2), overlay16 0 ((bs.drop 4).take 2)⟩

/-- `ESFS_FILE_FORMAT_VERSION` -/
def fileFormatVersion : UInt16 := 1

/-- `ESFS_MAX_NAME_LENGTH` -/
def maxNameLength : Nat := 1024

/-- `ESFS_AES_NONCE_SIZE_BYTES` for an encrypted file. -/
def nonceSize (mode : Mode) : Nat := if encrypted mode then 8 else 0

/-- `esfs_not_encrypted_file_header_size` -/
def notEncryptedFileHeaderSize (h : Handle) : Nat :=
  h.blobNameLength.toNat + 2 + 2 + 2 + nonceSize h.esfsMode + 2 + h.numberOfItems.toNat * 6

/-- `esfs_file_header_size` -/
def fileHeaderSize (h : Handle) : Nat :=
  notEncryptedFileHeaderSize h + ((h.tlvItems.toList.take h.numberOfItems.toNat).map fun i => i.lengthInBytes.toNat).sum

/-- `esfs_validate` -/
def validate : Esfs Unit := do
  let length ← getHandle (·.blobNameLength)
  require (length ≠ 0) .invalidParameter

/-! ## Encryption and signature -/

/-- `esfs_fwrite_and_calc_cmac` -/
def fwriteAndCalcCmac (env : Env) (bs : Bytes) : Esfs Unit := do
  let ctx ← getHandle (·.signatureCtx)
  let ctx ← failWith .error (pal (cmacUpdate env ctx bs))
  setHandle fun h => { h with signatureCtx := some ctx }
  failWith .error (file (fsFwrite env bs))

/-- `esfs_calc_file_pos_for_aes` -/
def calcFilePosForAes (env : Env) : Esfs Nat := do
  let position ← failWith .error (file (fsFtell env))
  let size ← getHandle notEncryptedFileHeaderSize
  require (size ≤ position) .error
  pure (position - size)

/-- `esfs_aes_enc_dec_by_file_pos` -/
def aesEncDecByFilePos (env : Env) (ctx : Bool) (bs : Bytes) (position : Nat)
    (nonce : Vector UInt8 8) : Esfs Bytes := do
  let prevRemainder := position % 16
  let partialBlockSize := min (16 - prevRemainder) bs.length
  -- the partial block is encrypted in a block of zeros
  let partialBlock := List.replicate prevRemainder 0 ++ bs.take partialBlockSize ++
    List.replicate (16 - prevRemainder - partialBlockSize) 0
  let out ← failWith .error (pal (aesCtrWithZeroOffset env ctx nonce (position / 16) partialBlock))
  let first := (out.drop prevRemainder).take partialBlockSize
  if partialBlockSize < bs.length then do
    let rest ← failWith .error (pal (aesCtrWithZeroOffset env ctx nonce ((position + partialBlockSize) / 16)
      (bs.drop partialBlockSize)))
    pure (first ++ rest)
  else pure first

/-- `ESFS_AES_BUF_SIZE_BYTES` -/
def aesBufSize : Nat := 256

/-- The loop of `esfs_encrypt_fwrite_and_calc_cmac`. -/
def encryptPieces (env : Env) : List Nat → Nat → Bytes → Esfs Unit
  | [], _, _ => pure ()
  | n :: ns, position, bs => do
    let ctx ← getHandle (·.aesCtx)
    let nonce ← getHandle (·.nonce)
    let encryptedData ← aesEncDecByFilePos env ctx (bs.take n) position nonce
    onError (fwriteAndCalcCmac env encryptedData) (setHandle fun h => { h with fileInvalid := true })
    encryptPieces env ns (position + n) (bs.drop n)

/-- `esfs_encrypt_fwrite_and_calc_cmac` -/
def encryptFwriteAndCalcCmac (env : Env) (bs : Bytes) : Esfs Unit := do
  let position ← calcFilePosForAes env
  encryptPieces env (pieceSizes aesBufSize bs.length) position bs

/-- What `esfs_create_internal` and `esfs_write` do with a buffer, by the mode in the handle. -/
def storeBytes (env : Env) (bs : Bytes) : Esfs Unit := do
  let mode ← getHandle (·.esfsMode)
  if encrypted mode then encryptFwriteAndCalcCmac env bs else fwriteAndCalcCmac env bs

/-- `esfs_read_and_decrypt` -/
def readAndDecrypt (env : Env) (n : Nat) : Esfs Bytes := do
  let position ← calcFilePosForAes env
  let bs ← failWith .error (file (fsFread env n))
  require (bs.length = n) .error
  let ctx ← getHandle (·.aesCtx)
  let nonce ← getHandle (·.nonce)
  aesEncDecByFilePos env ctx bs position nonce

/-- What `esfs_read` and `esfs_read_meta_data` do to fill a buffer, by the mode in the handle. -/
def fetchBytes (env : Env) (n : Nat) : Esfs Bytes := do
  let mode ← getHandle (·.esfsMode)
  if encrypted mode then readAndDecrypt env n else failWith .error (file (fsFread env n))

/-! ## Checks of an existing file -/

/-- `ESFS_READ_CHUNK_SIZE_IN_BYTES` -/
def readChunkSize : Nat := 64

/-- The loop of `esfs_check_file_validity` over the name. -/
def checkName (env : Env) : List Nat → Bytes → Esfs Unit
  | [], _ => pure ()
  | n :: ns, name => do
    let buffer ← failWith .error (file (fsFread env n))
    require (buffer ≠ []) .error
    require (buffer = name.take buffer.length) .hashConflict
    checkName env ns (name.drop buffer.length)

/-- `esfs_check_file_validity` -/
def checkFileValidity (env : Env) (name : Bytes) : Esfs Unit := do
  let version ← failWith .error (file (fsFread env 2))
  require (version.length = 2) .error
  require (overlay16 0 version = fileFormatVersion) .invalidFileVersion
  let mode ← failWith .error (file (fsFread env 2))
  setHandle fun h => { h with esfsMode := overlay16 h.esfsMode mode }
  require (mode.length = 2) .error
  let length ← failWith .error (file (fsFread env 2))
  setHandle fun h => { h with blobNameLength := overlay16 h.blobNameLength length }
  require (length.length = 2) .error
  let blobNameLength ← getHandle (·.blobNameLength)
  require (name.length = blobNameLength.toNat) .hashConflict
  checkName env (pieceSizes readChunkSize name.length) name

/-- The loop of `esfs_check_cmac` over the file. -/
def cmacPieces (env : Env) : List Nat → CmacCtx → Esfs CmacCtx
  | [], ctx => pure ctx
  | n :: ns, ctx => do
    let buffer ← failWith .error (file (fsFread env n))
    require (buffer ≠ []) .error
    let ctx ← failWith .error (pal (cmacUpdate env (some ctx) buffer))
    cmacPieces env ns ctx

/-- `esfs_check_cmac` -/
def checkCmac (env : Env) : Esfs Unit := do
  let initialPos ← failWith .error (file (fsFtell env))
  failWith .error (file (fsFseek env 0 .end))
  let fileSize ← failWith .error (file (fsFtell env))
  failWith .error (file (fsFseek env 0 .set))
  failWith .error (pal (compute env (.ok ())))
  let ctx ← failWith .error (pal (cmacStart env))
  let signature ← onError (do
    let ctx ← cmacPieces env (pieceSizes readChunkSize (fileSize - 16)) ctx
    failWith .error (pal (cmacFinish env (some ctx))))
    (pal (cmacFinish env (some ctx)) >>= fun _ => pure ())
  let stored ← failWith .error (file (fsFread env 16))
  require (stored.length = 16) .error
  failWith .error (file (fsFseek env initialPos .set))
  require (signature.toList = stored) .cmacDoesNotMatch

/-! ## Creating a file -/

/-- How an existing file is reported: by the name and version in it. -/
def refuseExisting (env : Env) (p : Path) (name : Bytes) : Esfs Unit := do
  match ← attempt (file (fsFopen env p .readOnly)) with
  | .error _ => fail .exists
  | .ok () =>
    setHandle fun h => { h with esfsMode := 0 }
    let result ← attempt (checkFileValidity env name)
    let _ ← attempt (file (fsFclose env))
    match result with
    | .error .hashConflict => fail .hashConflict
    | .error .invalidFileVersion => fail .invalidFileVersion
    | _ => fail .exists

def createFile (env : Env) (p : Path) (name : Bytes) : Esfs Unit := do
  match ← attempt (file (fsFopen env p .readWriteExclusive)) with
  | .ok () => pure ()
  | .error .nameAlreadyExist => refuseExisting env p name
  | .error _ => fail .error

def dropFile (env : Env) (p : Path) : Esfs Unit := do
  match ← attempt (file (fsFclose env)) with
  | .ok () => failWith .error (pal (fsUnlink env p))
  | .error _ =>
    let _ ← attempt (pal (fsUnlink env p))
    fail .error

/-- The entries of the metadata, the first value of which is at `position`. -/
def storedItems : Nat → List TlvItem → List StoredItem
  | _, [] => []
  | position, i :: items =>
    ⟨i.type, UInt16.ofNat i.value.length, UInt16.ofNat position⟩ ::
      storedItems (position + i.value.length) items

/-- An array whose first entries are replaced. -/
def replaceItems (items : List StoredItem) (old : Vector StoredItem 3) : Vector StoredItem 3 :=
  old.mapIdx fun i x => items.getD i x

/-- The part of `esfs_create_internal` that writes the metadata. -/
def writeMetaData (env : Env) (items : List TlvItem) : Esfs Unit := do
  let position ← failWith .error (file (fsFtell env))
  let stored := storedItems (position + 6 * items.length) items
  setHandle fun h => { h with tlvItems := replaceItems stored h.tlvItems }
  fwriteAndCalcCmac env (stored.flatMap StoredItem.encode)
  setHandle fun h => { h with numberOfItems := UInt16.ofNat items.length }
  each (fun i => failWith .error (storeBytes env i.value)) items

/-- The part of `esfs_create_internal` behind the creation of the file. -/
def writeHeader (env : Env) (name : Bytes) (items : List TlvItem) (mode : Mode) : Esfs Unit := do
  failWith .error (pal (compute env (.ok ())))
  let ctx ← failWith .error (pal (cmacStart env))
  setHandle fun h => { h with signatureCtx := some ctx }
  fwriteAndCalcCmac env (le16 fileFormatVersion)
  fwriteAndCalcCmac env (le16 mode)
  fwriteAndCalcCmac env (le16 (UInt16.ofNat name.length))
  fwriteAndCalcCmac env name
  let nonce ← getHandle (·.nonce)
  when (encrypted mode) (fwriteAndCalcCmac env nonce.toList)
  fwriteAndCalcCmac env (le16 (UInt16.ofNat items.length))
  when (items ≠ []) (writeMetaData env items)
  setHandle fun h => { h with fileFlag := .write }

/-- `esfs_create_internal` -/
def createInternal (env : Env) (name : Bytes) (items : List TlvItem) (mode : Mode) (p : Path) :
    Esfs Unit := do
  createFile env p name
  onError (writeHeader env name items mode) (do
    let _ ← (attempt (file (fsFclose env)) : Proc State PalError _)
    pal (fsUnlink env p))

def makeBackupFolder (env : Env) : Esfs Unit := do
  match ← attempt (pal (fsMkDir env .backup)) with
  | .ok () => pure ()
  | .error e => require (e = .nameAlreadyExist) .error

/-- An old backup file is inspected. The mode and the name length in the handle are read from it. -/
def inspectBackup (env : Env) (p : Path) (name : Bytes) : Esfs Unit := do
  failWith .error (file (fsFopen env p .readOnly))
  setHandle fun h => { h with esfsMode := 0 }
  match ← attempt (checkFileValidity env name) with
  | .error .hashConflict => fail .hashConflict
  | .error .invalidFileVersion => fail .invalidFileVersion
  | _ => pure ()

def openBackup (env : Env) (p : Path) (name : Bytes) : Esfs Unit := do
  match ← attempt (file (fsFopen env p .readWriteExclusive)) with
  | .ok () => pure ()
  | .error .nameAlreadyExist => inspectBackup env p name
  | .error _ => fail .error

/-- The part of `esfs_create` that removes an old backup file. -/
def prepareBackup (env : Env) (p : Path) (name : Bytes) : Esfs Unit := do
  makeBackupFolder env
  openBackup env p name
  dropFile env p

/-- Where a file is written first. -/
def createdPath (mode : Mode) (short : Name) : Path := ⟨if factoryVal mode then .backup else .working, short⟩

/-- The initial part of `esfs_create` for the encryption. -/
def prepareEncryption (env : Env) : Esfs Unit := do
  failWith .error (pal (compute env (.ok ())))
  failWith .error (pal (compute env (.ok ())))
  let nonce ← failWith .error (pal (osRandomBuffer env))
  setHandle fun h => { h with nonce := nonce }

/-- The part of `esfs_create` behind the creation of an AES context. -/
def createWithContext (env : Env) (name : Bytes) (items : List TlvItem) (mode : Mode) : Esfs Unit := do
  when (encrypted mode) (prepareEncryption env)
  setHandle fun h => { h with
    blobNameLength := UInt16.ofNat name.length, esfsMode := mode, fileInvalid := false, numberOfItems := 0 }
  let short ← failWith .error (getNameFromBlob env name)
  setHandle fun h => { h with shortFileName := short }
  createFile env ⟨.working, short⟩ name
  dropFile env ⟨.working, short⟩
  when (factoryVal mode) (prepareBackup env ⟨.backup, short⟩ name)
  createInternal env name items mode (createdPath mode short)

def invalidate : Esfs Unit := setHandle fun h => { h with blobNameLength := 0 }

/-- `pal_freeAes` -/
def freeAes : Esfs Unit := setHandle fun h => { h with aesCtx := false }

/-- `pal_initAes` -/
def initAes (env : Env) : Esfs Unit := do
  failWith .error (pal (compute env (.ok ())))
  setHandle fun h => { h with aesCtx := true }

/-- `esfs_create` -/
def esfsCreate (env : Env) (name : Bytes) (items : List TlvItem) (mode : Mode) : Esfs Unit := do
  onError (do
    require (name ≠ [] ∧ name.length ≤ maxNameLength ∧ items.length ≤ maxItems) .invalidParameter
    require (items.all fun i => i.value ≠ []) .invalidParameter
    when (encrypted mode) (initAes env)) invalidate
  onError (createWithContext env name items mode) (do
    invalidate
    when (encrypted mode) (freeAes))

/-! ## Writing and closing -/

/-- `esfs_write` -/
def esfsWrite (env : Env) (bs : Bytes) : Esfs Unit := do
  validate
  require (bs ≠ []) .invalidParameter
  let flag ← getHandle (·.fileFlag)
  require (flag ≠ .read) .fileOpenForRead
  onError (failWith .error (storeBytes env bs)) (setHandle fun h => { h with fileInvalid := true })

/-- `esfs_get_physical_file_size` -/
def getPhysicalFileSize (env : Env) : FileOp Nat := do
  let currentPos ← fsFtell env
  fsFseek env 0 .end
  let fileSize ← fsFtell env
  fsFseek env currentPos .set
  pure fileSize

structure CopyState where
  src : Option Fd
  dst : Option Fd
  world : World
  deriving DecidableEq

def onSrc {α : Type} (x : FileOp α) : Proc CopyState PalError α :=
  within (fun s => ⟨s.src, s.world⟩) (fun f s => { s with src := f.file, world := f.world }) x

def onDst {α : Type} (x : FileOp α) : Proc CopyState PalError α :=
  within (fun s => ⟨s.dst, s.world⟩) (fun f s => { s with dst := f.file, world := f.world }) x

/-- `ESFS_FILE_COPY_CHUNK_SIZE` -/
def fileCopyChunkSize : Nat := 256

def copyPiece (env : Env) (n : Nat) : Proc CopyState EsfsError Unit := do
  let buffer ← failWith .error (onSrc (fsFread env n))
  failWith .error (onDst (fsFwrite env buffer))

/-- The part of `esfs_copy_file` with both files open. -/
def copyPieces (env : Env) : Proc CopyState EsfsError Unit := do
  let fileSize ← failWith .error (onSrc (getPhysicalFileSize env))
  each (copyPiece env) (pieceSizes fileCopyChunkSize fileSize)
  failWith .error (onSrc (fsFclose env))
  failWith .error (onDst (fsFclose env))

/-- The body of `esfs_copy_file`. -/
def copyFiles (env : Env) (src dst : Path) : Proc CopyState EsfsError Unit := do
  failWith .notExists (onSrc (fsFopen env src .readOnly))
  onError (failWith .error (onDst (fsFopen env dst .readWriteTrunc))) (onSrc (fsFclose env))
  onError (copyPieces env) (do
    let _ ← (attempt (onSrc (fsFclose env)) : Proc CopyState PalError _)
    let _ ← (attempt (onDst (fsFclose env)) : Proc CopyState PalError _)
    within (·.world) (fun w s => { s with world := w }) (fsUnlink env dst))

/-- `esfs_copy_file` -/
def copyFile (env : Env) (src dst : Path) : Esfs Unit :=
  within (fun s => ⟨none, none, s.world⟩) (fun c s => { s with world := c.world }) (copyFiles env src dst)

/-- The part of `esfs_close` that writes the signature: whether it could be written. -/
def writeSignature (env : Env) : Esfs Bool := do
  let ctx ← getHandle (·.signatureCtx)
  let cmac ← failWith .error (pal (cmacFinish env ctx))
  setHandle fun h => { h with signatureCtx := none }
  match ← attempt (file (fsFwrite env cmac.toList)) with
  | .ok () => pure true
  | .error _ =>
    setHandle fun h => { h with fileInvalid := true }
    pure false

/-- `esfs_close` -/
def esfsClose (env : Env) : Esfs Unit := do
  validate
  let mode ← getHandle (·.esfsMode)
  when (encrypted mode) (freeAes)
  let flag ← getHandle (·.fileFlag)
  let short ← getHandle (·.shortFileName)
  let signed ← if flag = .write then writeSignature env else pure true
  failWith .error (file (fsFclose env))
  let invalid ← getHandle (·.fileInvalid)
  when invalid (failWith .error (pal (fsUnlink env ⟨.working, short⟩)))
  require signed .error
  when (factoryVal mode ∧ flag = .write ∧ invalid = false) (failWith .error (copyFile env ⟨.backup, short⟩ ⟨.working, short⟩))

/-! ## Opening and reading -/

/-- The part of `esfs_open` that reads the metadata entries. -/
def readItems (env : Env) (quantity : UInt16) : Esfs Unit := do
  require (quantity.toNat ≤ maxItems) .outOfBounds
  let bs ← failWith .error (file (fsFread env (6 * quantity.toNat)))
  require (bs.length = 6 * quantity.toNat) .error
  let stored := (List.range quantity.toNat).map fun i => StoredItem.decode ((bs.drop (6 * i)).take 6)
  setHandle fun h => { h with tlvItems := replaceItems stored h.tlvItems }
  let last : Nat := (stored.getLast?.map fun i => i.position.toNat + i.lengthInBytes.toNat).getD 0
  failWith .error (file (fsFseek env last .set))

/-- The part of `esfs_open` behind the creation of an AES context. -/
def readHeader (env : Env) (name : Bytes) (mode : Mode) : Esfs Unit := do
  when (encrypted mode) (do
    failWith .error (pal (compute env (.ok ())))
    failWith .error (pal (compute env (.ok ())))
    let nonce ← failWith .error (file (fsFread env 8))
    -- bytes that are not there leave the buffer as it was
    setHandle fun h => { h with nonce := h.nonce.mapIdx fun i b => nonce.getD i b }
    require (nonce.length = 8) .error)
  setHandle fun h => { h with numberOfItems := 0 }
  let bs ← failWith .error (file (fsFread env 2))
  require (bs.length = 2) .error
  let quantity := overlay16 0 bs
  when (quantity ≠ 0) (readItems env quantity)
  setHandle fun h => { h with numberOfItems := quantity, currentReadPos := 0 }
  let fileSize ← failWith .error (file (getPhysicalFileSize env))
  setHandle fun h => { h with
    dataSize := sub32 (sub32 fileSize (fileHeaderSize h)) 16, fileFlag := .read,
    blobNameLength := UInt16.ofNat name.length }

/-- `esfs_open`: the mode of the file. -/
def esfsOpen (env : Env) (name : Bytes) : Esfs Mode := do
  require (name ≠ [] ∧ name.length ≤ maxNameLength) .invalidParameter
  setHandle fun h => { h with blobNameLength := 0, fileInvalid := false }
  let short ← failWith .error (getNameFromBlob env name)
  setHandle fun h => { h with shortFileName := short }
  failWith .notExists (file (fsFopen env ⟨.working, short⟩ .readOnly))
  onError (do
    checkFileValidity env name
    checkCmac env) (file (fsFclose env))
  let mode ← getHandle (·.esfsMode)
  onError (when (encrypted mode) (initAes env)) (file (fsFclose env))
  onError (readHeader env name mode) (do
    let _ ← attempt (file (fsFclose env))
    when (encrypted mode) (freeAes))
  pure mode

/-- `esfs_read` into a buffer of `n` bytes. -/
def esfsRead (env : Env) (n : Nat) : Esfs Bytes := do
  validate
  let flag ← getHandle (·.fileFlag)
  require (flag = .read) .fileOpenForWrite
  let remaining ← getHandle fun h => sub32 h.dataSize h.currentReadPos
  let bs ← fetchBytes env (min remaining n)
  setHandle fun h => { h with currentReadPos := h.currentReadPos + bs.length }
  pure bs

/-- The offset and the origin that `esfs_seek` hands on, if it accepts its arguments. -/
def seekOffset (h : Handle) (offset : Int) : Option Whence → Option (Int × Whence)
  | some .set =>
    if i32 h.dataSize < offset ∨ offset < 0 then none else some (offset + fileHeaderSize h, .set)
  | some .end => if offset < -i32 h.dataSize ∨ 0 < offset then none else some (offset - 16, .end)
  | some .cur =>
    if i32 h.dataSize < offset + i32 h.currentReadPos ∨ offset + i32 h.currentReadPos < 0 then none
    else some (offset, .cur)
  | none => none

/-- `esfs_seek`: the new position, if the caller has a place for it. -/
def esfsSeek (env : Env) (offset : Int32) (whence : Option Whence) (position : Bool) : Esfs (Option Nat) := do
  validate
  let flag ← getHandle (·.fileFlag)
  require (flag = .read) .fileOpenForWrite
  let target ← getHandle fun h => seekOffset h offset.toInt whence
  match target with
  | none => fail .invalidParameter
  | some (offset, whence) =>
    failWith .error (file (fsFseek env offset whence))
    if position then
      let pos ← failWith .error (file (fsFtell env))
      let headerSize ← getHandle fileHeaderSize
      setHandle fun h => { h with currentReadPos := sub32 pos headerSize }
      pure (some (sub32 pos headerSize))
    else pure none

/-- `esfs_file_size` -/
def esfsFileSize (env : Env) : Esfs Nat := do
  validate
  let fileSize ← failWith .error (file (getPhysicalFileSize env))
  let headerSize ← getHandle fileHeaderSize
  let flag ← getHandle (·.fileFlag)
  pure (if flag = .read then sub32 (sub32 fileSize headerSize) 16 else sub32 fileSize headerSize)

/-- `esfs_read_meta_data`: the type and the value of an item. -/
def esfsReadMetaData (env : Env) (index : Nat) : Esfs (UInt16 × Bytes) := do
  validate
  require (index < maxItems) .invalidParameter
  let item ← getHandle fun h => h.tlvItems.toList.getD index ⟨0, 0, 0⟩
  require (item.lengthInBytes ≠ 0) .invalidParameter
  let flag ← getHandle (·.fileFlag)
  require (flag = .read) .fileOpenForWrite
  let currentPos ← failWith .error (file (fsFtell env))
  failWith .error (file (fsFseek env item.position.toNat .set))
  let bs ← failWith .error (fetchBytes env item.lengthInBytes.toNat)
  require (bs.length = item.lengthInBytes.toNat) .error
  failWith .error (file (fsFseek env currentPos .set))
  pure (item.type, bs)

end MbedCloud.Storage

