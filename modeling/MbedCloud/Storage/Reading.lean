import MbedCloud.Storage.FileContents

/-!
# Reading a file

As long as no call fails (`Quiet`), a file that is open has a known content and position
(`Reading`), and the calls on it give the bytes of the content.
-/

namespace MbedCloud.Storage

open Lib
open Lib.Proc (Gives)

/-- The file `p` with content `c` is open at position `pos`, in the handle `h` apart from that, and no
call fails any more. -/
structure Reading (env : Env) (p : Path) (c : Bytes) (h : Handle) (pos : Nat) (s : State) : Prop where
  handle : s.handle = { h with file := some ⟨p, pos⟩ }
  quiet : Quiet env s.world
  content : s.world.disk.content p = some c

section Calls

variable {env : Env} {p : Path} {c : Bytes} {h : Handle} {pos : Nat} {s : State}

section

variable (hr : Reading env p c h pos s)
include hr

theorem Reading.move (pos' : Nat) : Reading env p c h pos' ⟨{ s.handle with file := some ⟨p, pos'⟩ }, s.world.tick⟩ := by
  refine ⟨?_, hr.quiet.tick, hr.content⟩
  rw [hr.handle]

theorem Reading.file : s.handle.file = some ⟨p, pos⟩ := by rw [hr.handle]

omit hr in
theorem file_bind {α β : Type} (x : FileOp α) (f : α → FileOp β) : file (x >>= f) = file x >>= fun a => file (f a) :=
  Proc.within_bind (fun _ _ => rfl) (fun _ _ _ => rfl)

theorem fsFread_gives (n : Nat) : Gives (file (fsFread env n)) s ((c.drop pos).take n)
      (Reading env p c h (pos + ((c.drop pos).take n).length)) := by
  refine ⟨_, ?_, hr.move _⟩
  rw [Storage.file, Proc.within, fsFread]
  rw [hr.file]
  dsimp only
  rw [hr.quiet.call]
  rw [hr.content]
  rfl

theorem fsFtell_gives : Gives (file (fsFtell env)) s pos (Reading env p c h pos) := by
  refine ⟨_, ?_, hr.move pos⟩
  rw [Storage.file, Proc.within, fsFtell]
  rw [hr.file]
  dsimp only
  rw [hr.quiet.compute]

theorem fsFseek_gives {offset : Int} {whence : Whence} (pos' : Nat) (hpos : whence.base pos c.length + offset = pos') :
    Gives (file (fsFseek env offset whence)) s () (Reading env p c h pos') := by
  refine ⟨_, ?_, hr.move pos'⟩
  rw [Storage.file, Proc.within, fsFseek]
  rw [hr.file]
  dsimp only
  rw [hr.quiet.call]
  rw [hr.content]
  dsimp only
  rw [hpos, if_neg (by omega)]
  rfl

theorem compute_gives {α : Type} (a : α) : Gives (pal (compute env (.ok a))) s a (Reading env p c h pos) := by
  refine ⟨_, ?_, hr.move pos⟩
  rw [pal, Proc.within, hr.quiet.compute]
  rw [← hr.file]

theorem setHandle_gives (f : Handle → Handle) (h' : Handle)
    (hf : f { h with file := some ⟨p, pos⟩ } = { h' with file := some ⟨p, pos⟩ }) :
    Gives (setHandle f) s () (Reading env p c h' pos) := by
  refine ⟨_, rfl, ?_, hr.quiet, hr.content⟩
  show f s.handle = _
  rw [hr.handle, hf]

theorem getHandle_gives {α : Type} {f : Handle → α} {a : α}
    (hf : f { h with file := some ⟨p, pos⟩ } = a) : Gives (getHandle f) s a (Reading env p c h pos) := by
  refine ⟨s, ?_, hr⟩
  show (Except.ok (f s.handle), s) = _
  rw [hr.handle, hf]

theorem require_gives {b : Bool} {e : EsfsError} (hb : b = true) :
    Gives (Proc.require b e) s () (Reading env p c h pos) := Gives.require hb hr

theorem getPhysicalFileSize_gives : Gives (file (getPhysicalFileSize env)) s c.length (Reading env p c h pos) := by
  unfold getPhysicalFileSize
  rw [file_bind]
  refine (fsFtell_gives hr).bind fun s1 hr1 => ?_
  rw [file_bind]
  refine (fsFseek_gives hr1 c.length (Int.add_zero _)).bind fun s2 hr2 => ?_
  rw [file_bind]
  refine (fsFtell_gives hr2).bind fun s3 hr3 => ?_
  rw [file_bind]
  refine (fsFseek_gives hr3 pos (Int.zero_add _)).bind fun s4 hr4 => ?_
  refine ⟨s4, ?_, hr4⟩
  rfl

end

end Calls

end MbedCloud.Storage

