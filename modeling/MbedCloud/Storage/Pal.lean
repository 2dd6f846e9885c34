import Mathlib.Data.List.AList
import Mathlib.Data.Vector.Defs
import MbedCloud.Lib.Proc
import MbedCloud.Lib.Stream

/-!
# The platform layer of the storage

The functions of `pal_fileSystem.c`, `pal_Crypto.c` and the reference port behind them, as far as
`esfs.c` calls them. A call is answered by the state of the file system, unless the environment lets
it fail: then nothing happens, except that a failed write may have stored the first of its bytes.
After a loss of power no call has an effect any more.

Mount points are not part of paths: the folders are `WORKING` on the primary partition, and `BACKUP`
with its subfolder `FR` on the secondary one. Positions in a file are `int32_t`, so a write that goes
beyond fails.
-/

namespace MbedCloud.Storage

open Lib

/-! ## The file system -/

abbrev Name := Bytes

abbrev Files := AList fun _ : Name => Bytes

inductive Folder where
  | working
  | backup
  /-- `BACKUP/FR` -/
  | reset
  deriving DecidableEq

structure Path where
  folder : Folder
  name : Name
  deriving DecidableEq

structure BackupFolder where
  files : Files
  /-- The subfolder `FR`. -/
  reset : Option Files
  deriving DecidableEq

structure Disk where
  working : Option Files
  backup : Option BackupFolder
  deriving DecidableEq

namespace Disk

def files (d : Disk) : Folder → Option Files
  | .working => d.working
  | .backup => d.backup.map (·.files)
  | .reset => d.backup.bind (·.reset)

def mapFiles (d : Disk) (g : Files → Files) : Folder → Disk
  | .working => { d with working := d.working.map g }
  | .backup => { d with backup := d.backup.map fun b => { b with files := g b.files } }
  | .reset => { d with backup := d.backup.map fun b => { b with reset := b.reset.map g } }

def content (d : Disk) (p : Path) : Option Bytes := (d.files p.folder).bind (·.lookup p.name)

/-- The file with a new content; nothing changes if there is no such folder. -/
def put (d : Disk) (p : Path) (bs : Bytes) : Disk := d.mapFiles (·.insert p.name bs) p.folder

def remove (d : Disk) (p : Path) : Disk := d.mapFiles (·.erase p.name) p.folder

/-- A new folder; `none` if there is no folder to put it in. -/
def make (d : Disk) : Folder → Option Disk
  | .working => some { d with working := some ∅ }
  | .backup => some { d with backup := some ⟨∅, none⟩ }
  | .reset => d.backup.map fun b => { d with backup := some { b with reset := some ∅ } }

end Disk

/-! ## Calls -/

/-- The error codes that `esfs.c` tells apart, and the others. -/
inductive PalError where
  | nameAlreadyExist
  | noFile
  | noPath
  | badFd
  | lengthError
  | invalidArgument
  | other
  deriving DecidableEq

inductive Fault where
  /-- The call fails. A write has stored `count` bytes before. -/
  | fails (error : PalError) (count : Nat)
  | powerLoss (count : Nat)
  deriving DecidableEq

/-- What the code does not decide: which calls fail, and the cryptographic functions. The keys are
those of the device, the same in every call. -/
structure Env where
  fault : Nat → Option Fault
  /-- The block of the key stream for a nonce and a counter. -/
  aes : Vector UInt8 8 → Nat → Vector UInt8 16
  cmac : Bytes → Vector UInt8 16
  sha256 : Bytes → Vector UInt8 32
  random : Nat → Vector UInt8 8
  /-- `PAL_PRIMARY_PARTITION_PRIVATE` -/
  privatePrimary : Bool
  /-- Both partitions have the same mount point. -/
  singlePartition : Bool

structure World where
  disk : Disk
  /-- The number of calls so far. -/
  calls : Nat
  on : Bool
  deriving DecidableEq

/-- The next call: whether it fails, and after how many bytes. -/
def World.next (env : Env) (w : World) : Option (PalError × Nat) × World :=
  if w.on then
    match env.fault w.calls with
    | none => (none, { w with calls := w.calls + 1 })
    | some (.fails e n) => (some (e, n), { w with calls := w.calls + 1 })
    | some (.powerLoss n) => (some (.other, n), { w with calls := w.calls + 1, on := false })
  else (some (.other, 0), { w with calls := w.calls + 1 })

abbrev Pal (α : Type) := Proc World PalError α

def call {α : Type} (env : Env) (op : Disk → Except PalError α × Disk) : Pal α := fun w =>
  match w.next env with
  | (none, w) => ((op w.disk).1, { w with disk := (op w.disk).2 })
  | (some (e, _), w) => (.error e, w)

def compute {α : Type} (env : Env) (x : Except PalError α) : Pal α := call env fun d => (x, d)

/-- `pal_fsMkDir` -/
def fsMkDir (env : Env) (f : Folder) : Pal Unit :=
  call env fun d =>
    if (d.files f).isSome then (.error .nameAlreadyExist, d)
    else
      match d.make f with
      | some d' => (.ok (), d')
      | none => (.error .noFile, d)

/-- `pal_fsUnlink` -/
def fsUnlink (env : Env) (p : Path) : Pal Unit :=
  call env fun d =>
    match d.content p with
    | some _ => (.ok (), d.remove p)
    | none => (.error .noFile, d)

/-- `pal_osRandomBuffer` for a nonce. -/
def osRandomBuffer (env : Env) : Pal (Vector UInt8 8) := fun w => compute env (.ok (env.random w.calls)) w

/-- `pal_sha256` -/
def sha256 (env : Env) (bs : Bytes) : Pal (Vector UInt8 32) := compute env (.ok (env.sha256 bs))

/-! ## Open files -/

structure Fd where
  path : Path
  pos : Nat
  deriving DecidableEq

/-- A file descriptor, `none` for 0, and the world. -/
structure FileState where
  file : Option Fd
  world : World
  deriving DecidableEq

abbrev FileOp (α : Type) := Proc FileState PalError α

inductive OpenMode where
  | readOnly
  | readWriteExclusive
  | readWriteTrunc
  deriving DecidableEq

def OpenMode.opened (mode : OpenMode) (p : Path) (d : Disk) : Except PalError Unit × Disk :=
  match mode, d.content p with
  | .readOnly, some _ => (.ok (), d)
  | .readOnly, none => (.error .noFile, d)
  | .readWriteExclusive, some _ => (.error .nameAlreadyExist, d)
  | .readWriteExclusive, none => if (d.files p.folder).isSome then (.ok (), d.put p []) else (.error .noFile, d)
  | .readWriteTrunc, _ => if (d.files p.folder).isSome then (.ok (), d.put p []) else (.error .noFile, d)

/-- `pal_fsFopen` -/
def fsFopen (env : Env) (p : Path) (mode : OpenMode) : FileOp Unit := fun s =>
  match call env (mode.opened p) s.world with
  | (.ok (), w) => (.ok (), ⟨some ⟨p, 0⟩, w⟩)
  | (.error e, w) => (.error e, ⟨none, w⟩)

/-- `pal_fsFclose` -/
def fsFclose (env : Env) : FileOp Unit := fun s =>
  match s.file with
  | none => (.error .badFd, s)
  | some _ => ((compute env (.ok ()) s.world).1, ⟨none, (compute env (.ok ()) s.world).2⟩)

/-- `pal_fsFread` of at most `n` bytes. -/
def fsFread (env : Env) (n : Nat) : FileOp Bytes := fun s =>
  match s.file with
  | none => (.error .badFd, s)
  | some fd =>
    match call env (fun d =>
      match d.content fd.path with
      | some bs => (.ok ((bs.drop fd.pos).take n), d)
      | none => (.error .other, d)) s.world with
    | (.ok bs, w) => (.ok bs, ⟨some { fd with pos := fd.pos + bs.length }, w⟩)
    | (.error e, w) => (.error e, ⟨s.file, w⟩)

def overwrite (content : Bytes) (pos : Nat) (bs : Bytes) : Bytes := content.take pos ++ bs ++ content.drop (pos + bs.length)

/-- The disk after `bs` has been written through a descriptor. -/
def Fd.write (fd : Fd) (bs : Bytes) (d : Disk) : Disk :=
  match d.content fd.path with
  | some content => d.put fd.path (overwrite content fd.pos bs)
  | none => d

def maxPosition : Nat := 2147483647

/-- `pal_fsFwrite` of all bytes of the buffer. -/
def fsFwrite (env : Env) (bs : Bytes) : FileOp Unit := fun s =>
  match s.file with
  | none => (.error .badFd, s)
  | some fd =>
    if bs = [] then (.error .lengthError, s)
    else
      match s.world.next env with
      | (none, w) =>
        if maxPosition < fd.pos + bs.length then (.error .other, ⟨s.file, w⟩)
        else (.ok (), ⟨some { fd with pos := fd.pos + bs.length }, { w with disk := fd.write bs w.disk }⟩)
      | (some (e, n), w) =>
        (.error e, ⟨some { fd with pos := fd.pos + (bs.take n).length }, { w with disk := fd.write (bs.take n) w.disk }⟩)

inductive Whence where
  | set
  | cur
  | end
  deriving DecidableEq

def Whence.base (whence : Whence) (pos size : Nat) : Int :=
  match whence with
  | .set => 0
  | .cur => pos
  | .end => size

/-- `pal_fsFseek` -/
def fsFseek (env : Env) (offset : Int) (whence : Whence) : FileOp Unit := fun s =>
  match s.file with
  | none => (.error .badFd, s)
  | some fd =>
    match call env (fun d =>
      match d.content fd.path with
      | some bs =>
        if whence.base fd.pos bs.length + offset < 0 then (.error .invalidArgument, d)
        else (.ok (whence.base fd.pos bs.length + offset).toNat, d)
      | none => (.error .other, d)) s.world with
    | (.ok pos, w) => (.ok (), ⟨some { fd with pos := pos }, w⟩)
    | (.error e, w) => (.error e, ⟨s.file, w⟩)

/-- `pal_fsFtell` -/
def fsFtell (env : Env) : FileOp Nat := fun s =>
  match s.file with
  | none => (.error .badFd, s)
  | some fd => ((compute env (.ok fd.pos) s.world).1, ⟨s.file, (compute env (.ok fd.pos) s.world).2⟩)

/-! ## Signatures and encryption -/

/-- A CMAC calculation holds the bytes that have been added to it. -/
abbrev CmacCtx := Bytes

/-- `pal_CMACStart` -/
def cmacStart (env : Env) : Pal CmacCtx := compute env (.ok [])

/-- `pal_CMACUpdate` -/
def cmacUpdate (env : Env) (ctx : Option CmacCtx) (bs : Bytes) : Pal CmacCtx :=
  compute env (match ctx with
    | some ctx => .ok (ctx ++ bs)
    | none => .error .invalidArgument)

/-- `pal_CMACFinish` -/
def cmacFinish (env : Env) (ctx : Option CmacCtx) : Pal (Vector UInt8 16) :=
  compute env (match ctx with
    | some ctx => .ok (env.cmac ctx)
    | none => .error .invalidArgument)

/-- `pal_aesCTRWithZeroOffset`. The initial vector is a nonce and a counter; `ctx` says whether there
is an AES context. -/
def aesCtrWithZeroOffset (env : Env) (ctx : Bool) (nonce : Vector UInt8 8) (counter : Nat)
    (bs : Bytes) : Pal Bytes :=
  compute env (if ctx then .ok (counterMode (env.aes nonce) counter bs) else .error .invalidArgument)

end MbedCloud.Storage

