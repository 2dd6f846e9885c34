import MbedCloud.Storage.Esfs

/-!
# What the platform calls do

The content of a file after the operations of the disk, and the calls of `Pal` in two directions:
what a call that has succeeded has done (`_ok`), and that a call succeeds if no call fails any more
(`Quiet`).
-/

namespace MbedCloud.Storage

open Lib

/-! ## The disk -/

namespace Disk

variable {d : Disk} {p q : Path} {bs : Bytes}

theorem files_mapFiles (d : Disk) (g : Files → Files) (f f' : Folder) :
    (d.mapFiles g f).files f' = if f' = f then (d.files f).map g else d.files f' := by
  obtain ⟨w, b⟩ := d
  cases f with
  | working => cases f' <;> rfl
  | _ =>
    cases b with
    | none => cases f' <;> rfl
    | some b => cases f' <;> rfl

theorem isSome_files_mapFiles (d : Disk) (g : Files → Files) (f f' : Folder) :
    ((d.mapFiles g f).files f').isSome = (d.files f').isSome := by
  rw [files_mapFiles]
  split_ifs with h
  · rw [h, Option.isSome_map]
  · rfl

theorem isSome_files_put (f : Folder) : ((d.put p bs).files f).isSome = (d.files f).isSome := isSome_files_mapFiles d _ _ f

theorem isSome_files_remove (f : Folder) : ((d.remove p).files f).isSome = (d.files f).isSome := isSome_files_mapFiles d _ _ f

theorem content_put_self (h : (d.files p.folder).isSome = true) : (d.put p bs).content p = some bs := by
  rw [content, put, files_mapFiles, if_pos rfl]
  cases hf : d.files p.folder with
  | none =>
    rw [hf] at h
    cases h
  | some fs => exact AList.lookup_insert fs

/-- A change of one name in its folder is not seen elsewhere. -/
theorem content_mapFiles_of_ne {g : Files → Files} (h : q ≠ p)
    (hg : ∀ fs, q.name ≠ p.name → (g fs).lookup q.name = fs.lookup q.name) :
    (d.mapFiles g p.folder).content q = d.content q := by
  by_cases hf : q.folder = p.folder
  · have hname : q.name ≠ p.name := by
      intro hn
      apply h
      cases p
      cases hf
      cases hn
      rfl
    rw [content, content, files_mapFiles, if_pos hf, hf]
    cases d.files p.folder with
    | none => rfl
    | some fs => exact hg fs hname
  · rw [content, files_mapFiles, if_neg hf, content]

theorem content_put_ne (h : q ≠ p) : (d.put p bs).content q = d.content q :=
  content_mapFiles_of_ne h fun _ => AList.lookup_insert_ne

theorem content_remove_self : (d.remove p).content p = none := by
  rw [content, remove, files_mapFiles, if_pos rfl]
  cases d.files p.folder with
  | none => rfl
  | some fs => exact AList.lookup_erase p.name fs

theorem content_remove_ne (h : q ≠ p) : (d.remove p).content q = d.content q :=
  content_mapFiles_of_ne h fun _ => AList.lookup_erase_ne

theorem isSome_files_of_content (h : d.content p = some bs) : (d.files p.folder).isSome = true := by
  unfold content at h
  cases hf : d.files p.folder with
  | none =>
    rw [hf] at h
    cases h
  | some fs => rfl

/-- A folder that is made is empty, and the others are as before. -/
theorem make_spec {d d' : Disk} {f : Folder} (hmake : d.make f = some d') (hnone : (d.files f).isSome = false) :
    (∀ q, d'.content q = d.content q) ∧ (∀ f', (d.files f').isSome = true → (d'.files f').isSome = true) ∧
      (d'.files f).isSome = true := by
  have hfiles (f' : Folder) : d'.files f' = if f' = f then some ∅ else d.files f' := by
    obtain ⟨w, b⟩ := d
    cases f with
    | working =>
      cases w with
      | some fs => cases hnone
      | none =>
        cases hmake
        cases f' <;> rfl
    | backup =>
      cases b with
      | some b => cases hnone
      | none =>
        cases hmake
        cases f' <;> rfl
    | reset =>
      obtain _ | ⟨fs, _ | r⟩ := b
      · cases hmake
      · cases hmake
        cases f' <;> rfl
      · cases hnone
  have hd : d.files f = none := Option.isSome_eq_false_iff.mp hnone |> Option.isNone_iff_eq_none.mp
  refine ⟨fun q => ?_, fun f' hf' => ?_, ?_⟩
  · rw [content, content, hfiles]
    split_ifs with h
    · rw [h, hd]
      rfl
    · rfl
  · rw [hfiles]
    split
    · rfl
    · exact hf'
  · rw [hfiles, if_pos rfl]
    rfl

end Disk

/-! ## Calls that succeed -/

/-- The world after a call that has left the disk alone. -/
def World.tick (w : World) : World := { w with calls := w.calls + 1 }

section Ok

variable {env : Env} {w w' : World} {α : Type} {a : α}

theorem next_eq_none (h : (w.next env).1 = none) : w.on = true ∧ env.fault w.calls = none ∧ (w.next env).2 = w.tick := by
  unfold World.next at h ⊢
  by_cases hon : w.on = true
  · rw [if_pos hon] at h ⊢
    cases hf : env.fault w.calls with
    | none => exact ⟨hon, rfl, rfl⟩
    | some f =>
      rw [hf] at h
      cases f <;> cases h
  · rw [if_neg hon] at h
    cases h

theorem call_ok {op : Disk → Except PalError α × Disk} (h : call env op w = (.ok a, w')) :
    (op w.disk).1 = .ok a ∧ w' = { w.tick with disk := (op w.disk).2 } ∧ w.on = true := by
  unfold call at h
  split at h
  · rename_i w1 hn
    obtain ⟨hon, -, htick⟩ := next_eq_none (congrArg Prod.fst hn)
    rw [hn] at htick
    cases htick
    exact ⟨congrArg Prod.fst h, (congrArg Prod.snd h).symm, hon⟩
  · cases h

theorem compute_ok {x : Except PalError α} (h : compute env x w = (.ok a, w')) : x = .ok a ∧ w' = w.tick := by
  obtain ⟨hx, hw, -⟩ := call_ok h
  exact ⟨hx, hw⟩

end Ok

/-! ## Open files -/

section

variable {env : Env} {t t' : FileState} {fd : Fd} {c : Bytes} {n : Nat}

theorem fopen_ok {p : Path} {mode : OpenMode} (hok : fsFopen env p mode t = (.ok (), t')) :
    (mode.opened p t.world.disk).1 = .ok () ∧
      t' = ⟨some ⟨p, 0⟩, { t.world.tick with disk := (mode.opened p t.world.disk).2 }⟩ ∧ t.world.on = true := by
  unfold fsFopen at hok
  split at hok
  · rename_i w hcall
    obtain ⟨hopened, rfl, hon⟩ := call_ok hcall
    cases hok
    exact ⟨hopened, rfl, hon⟩
  · cases hok

theorem opened_readOnly {d : Disk} {p : Path} (hc : d.content p = some c) : OpenMode.readOnly.opened p d = (.ok (), d) := by
  unfold OpenMode.opened
  rw [hc]

theorem opened_readWriteTrunc {d : Disk} {p : Path} (hfolder : (d.files p.folder).isSome = true) :
    OpenMode.readWriteTrunc.opened p d = (.ok (), d.put p []) := by
  cases d.content p <;> exact if_pos hfolder

theorem fclose_ok (hok : fsFclose env t = (.ok (), t')) : t' = ⟨none, t.world.tick⟩ := by
  unfold fsFclose at hok
  split at hok
  · cases hok
  obtain ⟨hfst, hsnd⟩ := Prod.mk.inj hok
  have hcall : compute env (.ok ()) t.world = (.ok (), (compute env (.ok ()) t.world).2) := Prod.ext hfst rfl
  rw [← hsnd, (compute_ok hcall).2]

theorem fread_ok {bs : Bytes} (hok : fsFread env n t = (.ok bs, t')) (hfile : t.file = some fd)
    (hc : t.world.disk.content fd.path = some c) :
    bs = (c.drop fd.pos).take n ∧ t' = ⟨some { fd with pos := fd.pos + bs.length }, t.world.tick⟩ := by
  unfold fsFread at hok
  rw [hfile] at hok
  dsimp only at hok
  split at hok
  · rename_i bs' w hcall
    obtain ⟨hop, rfl, -⟩ := call_ok hcall
    cases hok
    rw [hc] at hop
    cases hop
    refine ⟨rfl, ?_⟩
    rw [hc]
    rfl
  · cases hok

theorem fwrite_ok {bs : Bytes} (hok : fsFwrite env bs t = (.ok (), t')) (hfile : t.file = some fd) :
    bs ≠ [] ∧ fd.pos + bs.length ≤ maxPosition ∧
      t' = ⟨some { fd with pos := fd.pos + bs.length }, { t.world.tick with disk := fd.write bs t.world.disk }⟩ := by
  unfold fsFwrite at hok
  rw [hfile] at hok
  dsimp only at hok
  split at hok
  · cases hok
  rename_i hbs
  split at hok
  · rename_i w hnext
    obtain ⟨-, -, hw⟩ := next_eq_none (congrArg Prod.fst hnext)
    rw [hnext] at hw
    cases hw
    split_ifs at hok with hle
    · cases hok
    cases hok
    exact ⟨hbs, Nat.le_of_not_lt hle, rfl⟩
  · cases hok

theorem ftell_ok {pos : Nat} (hok : fsFtell env t = (.ok pos, t')) (hfile : t.file = some fd) :
    pos = fd.pos ∧ t' = ⟨some fd, t.world.tick⟩ := by
  unfold fsFtell at hok
  rw [hfile] at hok
  obtain ⟨hfst, hsnd⟩ := Prod.mk.inj hok
  have hcall : compute env (.ok fd.pos) t.world = (.ok pos, (compute env (.ok fd.pos) t.world).2) := Prod.ext hfst rfl
  obtain ⟨hpos, hworld⟩ := compute_ok hcall
  cases hpos
  rw [← hsnd, hworld]
  exact ⟨rfl, rfl⟩

theorem fseek_ok {offset : Int} {whence : Whence} (hok : fsFseek env offset whence t = (.ok (), t'))
    (hfile : t.file = some fd) (hc : t.world.disk.content fd.path = some c) :
    t' = ⟨some { fd with pos := (whence.base fd.pos c.length + offset).toNat }, t.world.tick⟩ := by
  unfold fsFseek at hok
  rw [hfile] at hok
  dsimp only at hok
  split at hok
  · rename_i pos w hcall
    obtain ⟨hop, rfl, -⟩ := call_ok hcall
    cases hok
    rw [hc] at hop ⊢
    dsimp only at hop ⊢
    split_ifs at hop
    rename_i hneg
    cases hop
    rw [if_neg hneg]
    rfl
  · cases hok

theorem getPhysicalFileSize_ok {size : Nat} (hok : getPhysicalFileSize env t = (.ok size, t'))
    (hfile : t.file = some fd) (hc : t.world.disk.content fd.path = some c) :
    size = c.length ∧ t'.file = some fd ∧ t'.world.disk = t.world.disk := by
  obtain ⟨pos, t1, htell, hok⟩ := Proc.bind_eq_ok.mp hok
  obtain ⟨rfl, rfl⟩ := ftell_ok htell hfile
  obtain ⟨u, t2, hseek, hok⟩ := Proc.bind_eq_ok.mp hok
  cases fseek_ok hseek rfl hc
  obtain ⟨size', t3, hsize, hok⟩ := Proc.bind_eq_ok.mp hok
  obtain ⟨hsize', rfl⟩ := ftell_ok hsize rfl
  obtain ⟨u, t4, hback, hok⟩ := Proc.bind_eq_ok.mp hok
  cases fseek_ok hback rfl hc
  obtain ⟨rfl, rfl⟩ := Proc.pure_eq_ok.mp hok
  refine ⟨?_, ?_, rfl⟩
  · rw [hsize']
    show ((c.length : Int) + 0).toNat = _
    omega
  · show some (⟨fd.path, (0 + (fd.pos : Int)).toNat⟩ : Fd) = _
    rw [Int.zero_add, Int.toNat_natCast]

end

/-! ## Worlds in which no call fails any more -/

/-- The power is on, and no later call fails. -/
structure Quiet (env : Env) (w : World) : Prop where
  on : w.on = true
  calls : ∀ n, w.calls ≤ n → env.fault n = none

section Quiet

variable {env : Env} {w : World} {α : Type}

theorem Quiet.tick (h : Quiet env w) : Quiet env w.tick := ⟨h.on, fun n hn => h.calls n (Nat.le_of_succ_le hn)⟩

theorem Quiet.disk (h : Quiet env w) (d : Disk) : Quiet env { w with disk := d } := ⟨h.on, h.calls⟩

theorem Quiet.next (h : Quiet env w) : w.next env = (none, w.tick) := by
  rw [World.next, if_pos h.on, h.calls w.calls (Nat.le_refl _)]
  rfl

theorem Quiet.call (h : Quiet env w) (op : Disk → Except PalError α × Disk) :
    call env op w = ((op w.disk).1, { w.tick with disk := (op w.disk).2 }) := by
  rw [Storage.call, h.next]
  rfl

theorem Quiet.compute (h : Quiet env w) (x : Except PalError α) : compute env x w = (x, w.tick) := by
  rw [Storage.compute, h.call]
  rfl

end Quiet

/-! ## Bytes of a content -/

theorem overwrite_end (c bs : Bytes) : overwrite c c.length bs = c ++ bs := by
  rw [overwrite, List.take_length, List.drop_of_length_le (by omega), List.append_nil]

@[simp] theorem length_le16 (x : UInt16) : (le16 x).length = 2 := rfl

theorem overlay16_le16 (old x : UInt16) : overlay16 old (le16 x) = x := by
  have hx := x.toNat_lt
  show UInt16.ofNat ((UInt8.ofNat x.toNat).toNat + 256 * (UInt8.ofNat (x.toNat / 256)).toNat) = x
  apply UInt16.toNat_inj.mp
  rw [UInt16.toNat_ofNat', UInt8.toNat_ofNat', UInt8.toNat_ofNat']
  omega

end MbedCloud.Storage

