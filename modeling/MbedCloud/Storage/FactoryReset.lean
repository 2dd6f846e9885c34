import MbedCloud.Storage.Esfs

/-!
# Factory reset

`esfs_factory_reset` replaces the files of the working folder by those of the backup folder, and
`esfs_init` takes up a reset that was interrupted: the file `FR/fr_on` marks a reset in progress.

A device is switched on, initialised and reset in any order (`Event`). A loss of power is a fault of the
environment; after it no call has an effect until the device is switched on again.
-/

namespace MbedCloud.Storage

open Lib
open Lib.Proc (fail attempt failWith each within)

/-! ## Folders -/

/-- `pal_fsRmFiles` for a folder without subfolders. -/
def fsRmFiles (env : Env) (f : Folder) : Pal Unit := do
  let names ← call env fun d =>
    match d.files f with
    | some fs => (.ok fs.keys, d)
    | none => (.error .noPath, d)
  each (fun name => fsUnlink env ⟨f, name⟩) names

/-- `pal_fsFormat` of the primary partition. -/
def fsFormat (env : Env) : Pal Unit := call env fun d => (.ok (), { d with working := none })

/-- `PAL_FS_COPY_BUFFER_SIZE` -/
def fsCopyBufferSize : Nat := 256

/-- The loop of `pal_plat_fsCpFile`. -/
def copyRest (env : Env) : Nat → Proc CopyState PalError Unit
  | 0 => fail .other
  | fuel + 1 => do
    let buffer ← onSrc (fsFread env fsCopyBufferSize)
    if buffer = [] then pure ()
    else do
      onDst (fsFwrite env buffer)
      copyRest env fuel

/-- `pal_plat_fsCpFile` with both files open. Every iteration but the last one copies some bytes of the
source, so there are enough of them. -/
def copyOpenFiles (env : Env) (src : Path) : Proc CopyState PalError Unit := fun s =>
  copyRest env (((s.world.disk.content src).getD []).length + 1) s

/-- `pal_plat_fsCpFile`. The results of closing the files are not looked at. -/
def fsCpFile (env : Env) (src dst : Path) : Pal Unit :=
  within (fun w => ⟨none, none, w⟩) (fun s _ => s.world) do
    let result : Except PalError Unit ← attempt do
      onSrc (fsFopen env src .readOnly)
      onDst (fsFopen env dst .readWriteTrunc)
      copyOpenFiles env src
    let _ ← attempt (onSrc (fsFclose env))
    let _ ← attempt (onDst (fsFclose env))
    match result with
    | .ok () => pure ()
    | .error e => fail e

/-- `pal_fsCpFolder`: the files of a folder, without its subfolders. -/
def fsCpFolder (env : Env) (src dst : Folder) : Pal Unit := do
  let names ← call env fun d =>
    match d.files src with
    | some fs => (.ok fs.keys, d)
    | none => (.error .noPath, d)
  each (fun name => fsCpFile env ⟨src, name⟩ ⟨dst, name⟩) names

/-! ## Resetting -/

/-- The file `fr_on` in the folder `FR`. -/
def marker : Path := ⟨.reset, [102, 114, 95, 111, 110]⟩

abbrev Reset (α : Type) := Proc FileState EsfsError α

def onWorld {α : Type} (x : Pal α) : Proc FileState PalError α := within (·.world) (fun w s => { s with world := w }) x

/-- A call that may fail in some ways. -/
def tolerate {σ : Type} (allowed : PalError → Bool) (x : Proc σ PalError Unit) : Proc σ EsfsError Unit := do
  let result : Except PalError Unit ← attempt x
  match result with
  | .ok () => pure ()
  | .error e => if allowed e then pure () else fail .error

/-- The part of `esfs_factory_reset` that creates the marker. -/
def createMarker (env : Env) : Reset Unit := do
  let result : Except PalError Unit ← attempt (fsFopen env marker .readWriteExclusive)
  match result with
  | .ok () => failWith .error (fsFclose env)
  | .error .nameAlreadyExist => pure ()
  | .error _ => fail .error

/-- The part of `esfs_factory_reset` that empties the working folder. -/
def clearWorking (env : Env) : Reset Unit :=
  if env.privatePrimary ∧ ¬ env.singlePartition then do
    failWith .error (onWorld (fsFormat env))
    failWith .error (onWorld (fsMkDir env .working))
  else tolerate (fun e => e = .noFile ∨ e = .noPath) (onWorld (fsRmFiles env .working))

/-- `esfs_factory_reset` -/
def esfsFactoryReset (env : Env) : Reset Unit := do
  tolerate (· = .nameAlreadyExist) (onWorld (fsMkDir env .reset))
  createMarker env
  clearWorking env
  tolerate (· = .noFile) (onWorld (fsCpFolder env .backup .working))
  failWith .error (onWorld (fsUnlink env marker))

/-- The loop of `esfs_init` over the first operation on the file system, with `n` more attempts. -/
def makeWorking (env : Env) : Nat → Reset Unit
  | 0 => tolerate (· = .nameAlreadyExist) (onWorld (fsMkDir env .working))
  | n + 1 => do
    let result : Except PalError Unit ← attempt (onWorld (fsMkDir env .working))
    match result with
    | .ok () => pure ()
    | .error .nameAlreadyExist => pure ()
    | .error _ => makeWorking env n

/-- The part of `esfs_init` that takes up a reset. -/
def resumeReset (env : Env) : Reset Unit := do
  let result : Except PalError Unit ← attempt (fsFopen env marker .readOnly)
  match result with
  | .ok () => do
    failWith .error (fsFclose env)
    failWith .error (esfsFactoryReset env)
  | .error .noFile => pure ()
  | .error _ => fail .error

/-- `esfs_init` after a boot. -/
def esfsInit (env : Env) : Reset Unit := do
  makeWorking env 99
  tolerate (· = .nameAlreadyExist) (onWorld (fsMkDir env .backup))
  resumeReset env

/-! ## A device -/

structure Device where
  world : World
  /-- `esfs_initialize` -/
  initialized : Bool

inductive Event where
  | powerOn
  /-- A call of `esfs_init`. -/
  | init
  /-- A call of `esfs_factory_reset`. -/
  | factoryReset
  deriving DecidableEq

namespace Device

/-- `esfs_init` -/
def init (env : Env) (dev : Device) : Except EsfsError Unit × Device :=
  if dev.initialized then (.ok (), dev)
  else
    let r := esfsInit env ⟨none, dev.world⟩
    (r.1, ⟨r.2.world, decide (r.1 = .ok ())⟩)

/-- `esfs_factory_reset`, which is called only after `esfs_init`. -/
def factoryReset (env : Env) (dev : Device) : Device :=
  if dev.initialized then { dev with world := (esfsFactoryReset env ⟨none, dev.world⟩).2.world } else dev

def step (env : Env) (dev : Device) : Event → Device
  | .powerOn => ⟨{ dev.world with on := true }, false⟩
  | .init => (dev.init env).2
  | .factoryReset => dev.factoryReset env

def run (env : Env) (dev : Device) (es : List Event) : Device := es.foldl (step env) dev

end Device

end MbedCloud.Storage

