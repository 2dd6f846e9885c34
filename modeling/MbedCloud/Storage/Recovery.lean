import MbedCloud.Storage.FactoryReset
import MbedCloud.Storage.RoundTrip

/-!
# Recovery of an interrupted factory reset

Only a loss of power lets calls fail here (`PowerOnly`), at any call and any number of times. Every call
of `esfs_factory_reset` and `esfs_init` leaves the backup files alone, and `Resets` says what it may have
done to the working files: as long as the marker exists nothing is known about them, without it they are
the backup files, or still the old ones if there never was a marker.
-/

namespace MbedCloud.Storage

open Lib List
open Lib.Proc (Ends Does)

/-! ## Losses of power -/

def PowerOnly (env : Env) : Prop := ∀ n e c, env.fault n ≠ some (.fails e c)

variable {env : Env} {α : Type} {w : World} {d d1 d2 d3 d' : Disk}

theorem PowerOnly.next (h : PowerOnly env) (w : World) :
    w.next env = (none, w.tick) ∨ ∃ n w', w.next env = (some (.other, n), w') ∧ w'.disk = w.disk := by
  unfold World.next
  by_cases hon : w.on = true
  · rw [if_pos hon]
    cases hf : env.fault w.calls with
    | none => exact .inl rfl
    | some f =>
      cases f with
      | fails e c => exact absurd hf (h w.calls e c)
      | powerLoss n => exact .inr ⟨n, _, rfl, rfl⟩
  · rw [if_neg hon]
    exact .inr ⟨0, _, rfl, rfl⟩

/-- The error of a call without power. -/
def Lost {σ : Type} (e : PalError) (_ : σ) : Prop := e = .other

section

variable (h : PowerOnly env) {op : Disk → Except PalError α × Disk}
include h op

theorem call_ends {Q : Except PalError α → World → Prop} (hok : ∀ w', w'.disk = (op w.disk).2 → Q (op w.disk).1 w')
    (hlost : ∀ w', w'.disk = w.disk → Q (.error .other) w') : Ends (call env op) w Q := by
  unfold Ends call
  rcases h.next w with hn | ⟨n, w', hn, hdisk⟩
  · rw [hn]
    exact hok _ rfl
  · rw [hn]
    exact hlost _ hdisk

theorem call_does {F : Disk → Prop} {a : α} (hop : op w.disk = (.ok a, d)) (hw : F w.disk) (hd : F d) :
    Does (call env op) w (fun w' => F w'.disk) (fun b w' => b = a ∧ w'.disk = d) Lost := by
  refine call_ends h (fun w' hw' => ?_) fun w' hw' => ⟨(congrArg F hw').mpr hw, rfl⟩
  rw [hop] at hw' ⊢
  exact ⟨(congrArg F hw').mpr hd, rfl, hw'⟩

end

/-! ## Frames -/

/-- Files outside of `changed` are as before, and folders outside of `lost` still exist. -/
structure Frame (changed : Path → Prop) (lost : Folder → Prop) (d d' : Disk) : Prop where
  content : ∀ q, ¬ changed q → d'.content q = d.content q
  folders : ∀ f, ¬ lost f → (d.files f).isSome = true → (d'.files f).isSome = true

namespace Frame

variable {changed changed' : Path → Prop} {lost lost' : Folder → Prop}

theorem refl (d : Disk) : Frame changed lost d d := ⟨fun _ _ => rfl, fun _ _ hf => hf⟩

theorem trans (h1 : Frame changed lost d1 d2) (h2 : Frame changed lost d2 d3) : Frame changed lost d1 d3 :=
  ⟨fun q hq => (h2.content q hq).trans (h1.content q hq), fun f hf h => h2.folders f hf (h1.folders f hf h)⟩

theorem mono (h : Frame changed lost d d') (hchanged : ∀ q, changed q → changed' q)
    (hlost : ∀ f, lost f → lost' f) : Frame changed' lost' d d' :=
  ⟨fun q hq => h.content q fun hc => hq (hchanged q hc), fun f hf => h.folders f fun hl => hf (hlost f hl)⟩

end Frame

abbrev SameFiles := Frame (fun _ => False) fun _ => False

abbrev FileOnly (p : Path) := Frame (· = p) fun _ => False

/-- Only files of the working folder have changed. -/
abbrev WorkingOnly := Frame (·.folder = .working) fun _ => False

/-- The backup files, the marker and the folders they are in are as before. -/
abbrev KeepsBackup := Frame (·.folder = .working) (· = .working)

theorem FileOnly.put (p : Path) (d : Disk) (bs : Bytes) : FileOnly p d (d.put p bs) :=
  ⟨fun _ hq => Disk.content_put_ne hq, fun f _ hf => by rwa [Disk.isSome_files_put]⟩

theorem FileOnly.remove (p : Path) (d : Disk) : FileOnly p d (d.remove p) :=
  ⟨fun _ hq => Disk.content_remove_ne hq, fun f _ hf => by rwa [Disk.isSome_files_remove]⟩

theorem FileOnly.write (fd : Fd) (bs : Bytes) (d : Disk) : FileOnly fd.path d (fd.write bs d) := by
  unfold Fd.write
  split
  · exact .put _ _ _
  · exact .refl _

theorem FileOnly.workingOnly {name : Name} (h : FileOnly ⟨.working, name⟩ d d') : WorkingOnly d d' :=
  h.mono (fun q hq => by rw [hq]) fun _ => id

theorem keepsBackup_format (d : Disk) : KeepsBackup d { d with working := none } := by
  refine ⟨?_, ?_⟩
  · rintro ⟨f, n⟩ hf
    cases f with
    | working => exact absurd rfl hf
    | _ => rfl
  · intro f hf hd
    cases f with
    | working => exact absurd rfl hf
    | _ => exact hd

/-! ## Folders -/

section

variable {op : Name → Pal Unit} {v : Name → Option Bytes}

/-- The files with these names are changed one by one. -/
theorem each_does (names : List Name) (hnodup : names.Nodup)
    (hop : ∀ w', WorkingOnly w.disk w'.disk → ∀ name ∈ names, w'.disk.content ⟨.working, name⟩ = w.disk.content ⟨.working, name⟩ →
      Does (op name) w' (fun w'' => FileOnly ⟨.working, name⟩ w'.disk w''.disk)
        (fun _ w'' => w''.disk.content ⟨.working, name⟩ = v name) Lost) :
    Does (Proc.each op names) w (fun w' => WorkingOnly w.disk w'.disk) (fun _ w' => ∀ name,
      w'.disk.content ⟨.working, name⟩ = if name ∈ names then v name else w.disk.content ⟨.working, name⟩) Lost := by
  induction names generalizing w with
  | nil => exact ⟨.refl _, fun name => rfl⟩
  | cons n names ih =>
    rw [nodup_cons] at hnodup
    refine .bind (.imp (hop w (.refl _) n (.head _) rfl) (fun _ hfile => hfile.workingOnly)
      fun _ _ hfile hv => And.intro hfile hv) ?_
    rintro _ w1 hd1 ⟨hfile, hv⟩
    have hsame (name : Name) (hname : name ≠ n) : w1.disk.content ⟨.working, name⟩ = w.disk.content ⟨.working, name⟩ :=
      hfile.content _ fun heq => hname (Path.mk.inj heq).2
    refine .imp (ih hnodup.2 fun w' hd name hname heq => ?_) (fun _ hd2 => hd1.trans hd2) fun _ w2 _ hok name => ?_
    · have hne : name ≠ n := fun heq => hnodup.1 (heq ▸ hname)
      exact hop w' (hd1.trans hd) name (mem_cons_of_mem n hname) (heq.trans (hsame name hne))
    rw [hok name]
    by_cases hname : name = n
    · subst hname
      rw [if_neg hnodup.1, if_pos mem_cons_self, hv]
    · rw [hsame name hname]
      simp only [mem_cons, hname, false_or]

/-- The files of a folder are listed, and the working files with their names are changed. -/
theorem listed_does {f : Folder} (h : PowerOnly env) (hfolder : (w.disk.files f).isSome = true)
    (hop : ∀ w', WorkingOnly w.disk w'.disk → ∀ name c, w.disk.content ⟨f, name⟩ = some c →
      w'.disk.content ⟨.working, name⟩ = w.disk.content ⟨.working, name⟩ →
      Does (op name) w' (fun w'' => FileOnly ⟨.working, name⟩ w'.disk w''.disk)
        (fun _ w'' => w''.disk.content ⟨.working, name⟩ = v name) Lost)
    (hv : ∀ name, w.disk.content ⟨f, name⟩ = none → w.disk.content ⟨.working, name⟩ = v name) :
    Does (call env (fun d => match d.files f with
        | some fs => (.ok fs.keys, d)
        | none => (.error .noPath, d)) >>= Proc.each op) w (fun w' => WorkingOnly w.disk w'.disk)
      (fun _ w' => ∀ name, w'.disk.content ⟨.working, name⟩ = v name) Lost := by
  obtain ⟨fs, hfs⟩ := Option.isSome_iff_exists.mp hfolder
  have hcontent (name : Name) : w.disk.content ⟨f, name⟩ = fs.lookup name := by
    rw [Disk.content, hfs]
    rfl
  refine .bind (call_does h (a := fs.keys) (by simp only [hfs]) (.refl _) (.refl _)) ?_
  rintro _ w1 - ⟨rfl, hw1⟩
  rw [← hw1] at hcontent hop hv ⊢
  refine .imp (each_does (v := v) fs.keys fs.keys_nodup ?_) (fun _ hd => hd) fun _ w2 _ hok name => ?_
  · intro w' hd name hname
    obtain ⟨c, hc⟩ := Option.isSome_iff_exists.mp (AList.lookup_isSome.mpr hname)
    exact hop w' hd name c ((hcontent name).trans hc)
  rw [hok name]
  split_ifs with hname
  · rfl
  · exact hv name ((hcontent name).trans (AList.lookup_eq_none.mpr hname))

theorem fsRmFiles_does (h : PowerOnly env) (hfolder : (w.disk.files .working).isSome = true) :
    Does (fsRmFiles env .working) w (fun w' => WorkingOnly w.disk w'.disk)
      (fun _ w' => ∀ name, w'.disk.content ⟨.working, name⟩ = none) Lost := by
  refine listed_does h hfolder (fun w' _ name c hc hsame => ?_) fun _ => id
  rw [hc] at hsame
  refine .imp (call_does h (a := ()) (F := FileOnly ⟨.working, name⟩ w'.disk) (by simp only [hsame]) (.refl _) (.remove _ _))
    (fun _ hd => hd) fun _ w'' _ hok => ?_
  rw [hok.2, Disk.content_remove_self]

end

/-! ## Copying files -/

section

variable {t : FileState} {fd : Fd} {c bs : Bytes}

theorem fread_does (h : PowerOnly env) (n : Nat) (hfile : t.file = some fd) (hc : t.world.disk.content fd.path = some c) :
    Does (fsFread env n) t (fun t' => t'.world.disk = t.world.disk) (fun bs t' =>
      bs = (c.drop fd.pos).take n ∧ t'.file = some { fd with pos := fd.pos + bs.length }) Lost := by
  unfold Does Ends fsFread
  rw [hfile]
  unfold call
  rcases h.next t.world with hn | ⟨m, w, hn, hdisk⟩
  · rw [hn]
    have hc' : t.world.tick.disk.content fd.path = some c := hc
    dsimp only
    rw [hc']
    exact ⟨rfl, rfl, rfl⟩
  · rw [hn]
    exact ⟨hdisk, rfl⟩

theorem fwrite_does (h : PowerOnly env) (hbs : bs ≠ []) (hfile : t.file = some fd) :
    Does (fsFwrite env bs) t (fun t' => FileOnly fd.path t.world.disk t'.world.disk) (fun _ t' =>
      t'.file = some { fd with pos := fd.pos + bs.length } ∧ t'.world.disk = fd.write bs t.world.disk) Lost := by
  unfold Does Ends fsFwrite
  rw [hfile]
  dsimp only
  rw [if_neg hbs]
  rcases h.next t.world with hn | ⟨n, w, hn, hdisk⟩
  · rw [hn]
    dsimp only
    split
    · exact ⟨.refl _, rfl⟩
    · exact ⟨.write _ _ _, rfl, rfl⟩
  · rw [hn, ← hdisk]
    exact ⟨.write _ _ _, rfl⟩

theorem fclose_disk (env : Env) (t : FileState) : (fsFclose env t).2.world.disk = t.world.disk := by
  unfold fsFclose
  split
  · rfl
  · exact compute_disk _ _

theorem fopen_ends (h : PowerOnly env) (p : Path) (mode : OpenMode) (t : FileState) :
    Ends (fsFopen env p mode) t fun r t' =>
      ((r, t'.world.disk) = mode.opened p t.world.disk ∧ (r = .ok () → t'.file = some ⟨p, 0⟩)) ∨
        (r = .error .other ∧ t'.world.disk = t.world.disk) := by
  have hcall : Ends (call env (mode.opened p)) t.world fun r w' =>
      (r, w'.disk) = mode.opened p t.world.disk ∨ (r = .error .other ∧ w'.disk = t.world.disk) :=
    call_ends h (fun w' hw' => .inl (Prod.ext rfl hw')) fun w' hw' => .inr ⟨rfl, hw'⟩
  unfold Ends at hcall ⊢
  unfold fsFopen
  split
  · rename_i w hr
    rw [hr] at hcall
    rcases hcall with hok | ⟨hr, -⟩
    · exact .inl ⟨hok, fun _ => rfl⟩
    · cases hr
  rename_i e w hr
  rw [hr] at hcall
  rcases hcall with hok | hlost
  · exact .inl ⟨hok, nofun⟩
  · exact .inr hlost

theorem fopen_does (h : PowerOnly env) {p : Path} {mode : OpenMode} {F : Disk → Prop}
    (hop : mode.opened p t.world.disk = (.ok (), d)) (hw : F t.world.disk) (hd : F d) :
    Does (fsFopen env p mode) t (fun t' => F t'.world.disk) (fun _ t' => t'.file = some ⟨p, 0⟩ ∧ t'.world.disk = d) Lost := by
  refine Ends.imp (fopen_ends h p mode t) ?_
  rintro r t' (⟨hr, hfile⟩ | ⟨rfl, hdisk⟩)
  · obtain ⟨rfl, rfl⟩ := Prod.mk.inj (hr.trans hop)
    exact ⟨hd, hfile rfl, rfl⟩
  · exact ⟨(congrArg F hdisk).mpr hw, rfl⟩

variable {src dst : Path} {k : Nat} {s : CopyState}

/-- The loop copies the rest of the file, or fails on the way. -/
theorem copyRest_does (h : PowerOnly env) (hne : src ≠ dst) (fuel : Nat) (hs : Copying d src dst c k s)
    (hk : k ≤ c.length) (hd : FileOnly dst d s.world.disk) :
    Does (copyRest env fuel) s (fun s' => FileOnly dst d s'.world.disk)
      (fun _ s' => s'.world.disk.content dst = some c) Lost := by
  induction fuel generalizing k s with
  | zero => exact ⟨hd, rfl⟩
  | succ fuel ih =>
    have hread : Does (onSrc (fsFread env fsCopyBufferSize)) s (fun s' => FileOnly dst d s'.world.disk)
        (fun bs s' => bs = (c.drop k).take fsCopyBufferSize ∧ s'.src = some ⟨src, k + bs.length⟩ ∧
          s'.dst = s.dst ∧ s'.world.disk = s.world.disk) Lost :=
      .within (.imp (fread_does h _ hs.srcFile hs.source) (fun _ hdisk => hdisk ▸ hd)
        fun _ _ hdisk hr => ⟨hr.1, hr.2, rfl, hdisk⟩)
    refine .bind hread ?_
    rintro bs s1 hd1 ⟨hbs, hsrc, hdst, hdisk⟩
    split
    · -- the end of the source has been reached
      rename_i hnil
      have hend : c.length ≤ k := by
        rcases take_eq_nil_iff.mp (hbs.symm.trans hnil) with hzero | hdrop
        · cases hzero
        · exact drop_eq_nil_iff.mp hdrop
      refine ⟨hd1, ?_⟩
      show s1.world.disk.content dst = some c
      rw [hdisk, hs.copied, take_of_length_le hend]
    rename_i hne'
    have hwrite : Does (onDst (fsFwrite env bs)) s1 (fun s' => FileOnly dst d s'.world.disk)
        (fun _ s' => s'.src = s1.src ∧ s'.dst = some ⟨dst, k + bs.length⟩ ∧
          s'.world.disk = Fd.write ⟨dst, k⟩ bs s1.world.disk) Lost :=
      .within (.imp (fwrite_does h hne' (hdst.trans hs.dstFile)) (fun _ hd2 => hd1.trans hd2)
        fun _ _ _ hw => ⟨rfl, hw⟩)
    refine .bind hwrite ?_
    rintro _ s2 hd2 ⟨hsrc2, hdst2, hdisk2⟩
    -- one more piece has been copied
    have hlen : bs.length ≤ c.length - k := by
      rw [hbs, length_take, length_drop]
      exact Nat.min_le_right _ _
    have hpiece : bs = (c.drop k).take bs.length := by rw [hbs, length_take, ← take_eq_take_min]
    rw [hdisk] at hdisk2
    exact ih (hs.next hne hk hpiece (hsrc2.trans hsrc) hdst2 hdisk2) (by omega) hd2

section

variable (h : PowerOnly env) (hne : src ≠ dst) (hc : w.disk.content src = some c)
  (hfolder : (w.disk.files dst.folder).isSome = true)
include h hne hc hfolder

theorem openAndCopy_does :
    Does (do
        onSrc (fsFopen env src .readOnly)
        onDst (fsFopen env dst .readWriteTrunc)
        copyOpenFiles env src) ⟨none, none, w⟩ (fun s' => FileOnly dst w.disk s'.world.disk)
      (fun _ s' => s'.world.disk.content dst = some c) Lost := by
  have hsrc : Does (onSrc (fsFopen env src .readOnly)) ⟨none, none, w⟩ (fun s' => FileOnly dst w.disk s'.world.disk)
      (fun _ s' => s'.src = some ⟨src, 0⟩ ∧ s'.world.disk = w.disk) Lost :=
    .within (fopen_does h (opened_readOnly hc) (.refl _) (.refl _))
  refine .bind hsrc ?_
  rintro _ s1 hd1 ⟨hsrc1, hdisk1⟩
  have hput := FileOnly.put dst w.disk []
  have hopened : OpenMode.readWriteTrunc.opened dst s1.world.disk = (.ok (), w.disk.put dst []) := by
    rw [hdisk1]
    exact opened_readWriteTrunc hfolder
  have hdst : Does (onDst (fsFopen env dst .readWriteTrunc)) s1 (fun s' => FileOnly dst w.disk s'.world.disk)
      (fun _ s' => s'.src = s1.src ∧ s'.dst = some ⟨dst, 0⟩ ∧ s'.world.disk = w.disk.put dst []) Lost :=
    .within (.imp (fopen_does h hopened hd1 hput) (fun _ hd => hd)
      fun _ _ _ hr => ⟨rfl, hr⟩)
  refine .bind hdst ?_
  rintro _ s2 hd2 ⟨hsrc2, hdst2, hdisk2⟩
  refine copyRest_does h hne _ ⟨hsrc2.trans hsrc1, hdst2, ?_, ?_, hd2.content⟩ (Nat.zero_le _) hd2
  · rw [hd2.content src hne, hc]
  · rw [hdisk2, Disk.content_put_self hfolder, take_zero]

theorem fsCpFile_does :
    Does (fsCpFile env src dst) w (fun w' => FileOnly dst w.disk w'.disk) (fun _ w' => w'.disk.content dst = some c) Lost := by
  refine .within (Ends.attempt_bind (openAndCopy_does h hne hc hfolder) fun r s1 hresult => ?_)
  -- closing the files leaves the disk alone
  have hsrc : Ends (onSrc (fsFclose env)) s1 fun _ s' => s'.world.disk = s1.world.disk := fclose_disk env _
  refine .attempt_bind hsrc fun r2 s2 hdisk2 => ?_
  have hdst : Ends (onDst (fsFclose env)) s2 fun _ s' => s'.world.disk = s2.world.disk := fclose_disk env _
  refine .attempt_bind hdst fun r3 s3 hdisk3 => ?_
  dsimp only at hresult
  rw [← hdisk2, ← hdisk3] at hresult
  cases r <;> exact hresult

end

theorem fsCpFolder_does (h : PowerOnly env) (hfolder : (w.disk.files .working).isSome = true)
    (hbackup : (w.disk.files .backup).isSome = true) (hempty : ∀ name, w.disk.content ⟨.working, name⟩ = none) :
    Does (fsCpFolder env .backup .working) w (fun w' => WorkingOnly w.disk w'.disk)
      (fun _ w' => ∀ name, w'.disk.content ⟨.working, name⟩ = w.disk.content ⟨.backup, name⟩) Lost := by
  refine listed_does h hbackup (fun w' hd name c hc _ => ?_) fun name hnone => (hempty name).trans hnone.symm
  rw [hc]
  exact fsCpFile_does h nofun ((hd.content ⟨.backup, name⟩ nofun).trans hc) (hd.folders _ id hfolder)

end

/-! ## What a reset does -/

/-- The disk after a reset or a part of it. -/
structure Resets (d d' : Disk) : Prop where
  backup : ∀ name, d'.content ⟨.backup, name⟩ = d.content ⟨.backup, name⟩
  working : (d'.content marker).isSome = true ∨ (∀ name, d'.content ⟨.working, name⟩ = d.content ⟨.backup, name⟩) ∨
    ((d.content marker).isSome = false ∧ ∀ name, d'.content ⟨.working, name⟩ = d.content ⟨.working, name⟩)

theorem Resets.of_same (h : ∀ q, d'.content q = d.content q) : Resets d d' := by
  refine ⟨fun name => h _, ?_⟩
  cases hm : (d.content marker).isSome with
  | true =>
    left
    rw [h, hm]
  | false => exact .inr (.inr ⟨rfl, fun name => h _⟩)

theorem Resets.trans (h1 : Resets d1 d2) (h2 : Resets d2 d3) : Resets d1 d3 := by
  refine ⟨fun name => (h2.backup name).trans (h1.backup name), ?_⟩
  rcases h2.working with hmarker | hbackup | ⟨hnone, hsame⟩
  · exact .inl hmarker
  · exact .inr (.inl fun name => (hbackup name).trans (h1.backup name))
  rcases h1.working with hmarker | hbackup | ⟨hnone1, hsame1⟩
  · rw [hnone] at hmarker
    cases hmarker
  · exact .inr (.inl fun name => (hsame name).trans (hbackup name))
  · exact .inr (.inr ⟨hnone1, fun name => (hsame name).trans (hsame1 name)⟩)

/-- Without a marker the backup files have been restored since there was one, or since they were there. -/
theorem Resets.restored (h1 : Resets d1 d2) (h2 : Resets d2 d3) (hnone : (d3.content marker).isSome = false)
    (hd : (d2.content marker).isSome = true ∨ ∀ name, d2.content ⟨.working, name⟩ = d1.content ⟨.backup, name⟩)
    (name : Name) : d3.content ⟨.working, name⟩ = d1.content ⟨.backup, name⟩ := by
  rcases h2.working with hmarker | hbackup | ⟨hnone2, hsame⟩
  · rw [hnone] at hmarker
    cases hmarker
  · exact (hbackup name).trans (h1.backup name)
  rcases hd with hmarker | hrestored
  · rw [hnone2] at hmarker
    cases hmarker
  · exact (hsame name).trans (hrestored name)

theorem marker_ne_working (name : Name) : (⟨.working, name⟩ : Path) ≠ marker := fun h => nomatch h

theorem marker_ne_backup (name : Name) : (⟨.backup, name⟩ : Path) ≠ marker := fun h => nomatch h

section FactoryReset

variable {t : FileState}

/-- Any error. -/
def Failed (_ : EsfsError) (_ : FileState) : Prop := True

theorem tolerate_does {allowed : PalError → Bool} {x : Proc FileState PalError Unit} {F P : FileState → Prop}
    {E : PalError → FileState → Prop} (hx : Does x t F (fun _ => P) E)
    (hallowed : ∀ e t', allowed e = true → E e t' → P t') : Does (tolerate allowed x) t F (fun _ => P) Failed := by
  refine Ends.attempt_bind hx fun r t' hr => ?_
  cases r with
  | ok u => exact hr
  | error e =>
    dsimp only
    cases ha : allowed e with
    | true => exact ⟨hr.1, hallowed e t' ha hr.2⟩
    | false => exact ⟨hr.1, trivial⟩

theorem fsMkDir_does (h : PowerOnly env) (f : Folder) (t : FileState) :
    Does (onWorld (fsMkDir env f)) t (fun t' => SameFiles t.world.disk t'.world.disk)
      (fun _ t' => (t'.world.disk.files f).isSome = true)
      (fun e t' => e = .nameAlreadyExist → (t'.world.disk.files f).isSome = true) := by
  refine .within (call_ends h (fun w' hw' => ?_) fun w' hw' => ⟨hw' ▸ .refl _, nofun⟩)
  dsimp only
  rw [hw']
  by_cases hsome : (t.world.disk.files f).isSome = true
  · rw [if_pos hsome]
    exact ⟨.refl _, fun _ => hsome⟩
  rw [if_neg hsome]
  cases hmake : t.world.disk.make f with
  | none => exact ⟨.refl _, nofun⟩
  | some d =>
    obtain ⟨hcontent, hold, hnew⟩ := Disk.make_spec hmake (Bool.eq_false_iff.mpr hsome)
    exact ⟨⟨fun q _ => hcontent q, fun f _ => hold f⟩, hnew⟩

theorem makeFolder_does (h : PowerOnly env) (f : Folder) (t : FileState) :
    Does (tolerate (· = .nameAlreadyExist) (onWorld (fsMkDir env f))) t
      (fun t' => SameFiles t.world.disk t'.world.disk) (fun _ t' => (t'.world.disk.files f).isSome = true) Failed :=
  tolerate_does (fsMkDir_does h f t) fun _ _ hallowed hmade => hmade (of_decide_eq_true hallowed)

/-- The marker exists after a success, and nothing else has changed in any case. -/
theorem createMarker_does (h : PowerOnly env) (t : FileState) :
    Does (createMarker env) t (fun t' => FileOnly marker t.world.disk t'.world.disk ∧
        ((t'.world.disk.content marker).isSome = true ∨ t'.world.disk = t.world.disk))
      (fun _ t' => (t'.world.disk.content marker).isSome = true) Failed := by
  have hopen : Ends (fsFopen env marker .readWriteExclusive) t fun r t' =>
      FileOnly marker t.world.disk t'.world.disk ∧
        (((t'.world.disk.content marker).isSome = true ∧ (r = .ok () ∨ r = .error .nameAlreadyExist)) ∨
          (t'.world.disk = t.world.disk ∧ ∃ e, r = .error e ∧ e ≠ .nameAlreadyExist)) := by
    refine .imp (fopen_ends h marker .readWriteExclusive t) ?_
    rintro r t' (⟨hr, -⟩ | ⟨rfl, hdisk⟩)
    · unfold OpenMode.opened at hr
      cases hc : t.world.disk.content marker with
      | some c =>
        rw [hc] at hr
        obtain ⟨rfl, hdisk⟩ := Prod.mk.inj hr
        rw [hdisk]
        exact ⟨.refl _, .inl ⟨Option.isSome_of_mem hc, .inr rfl⟩⟩
      | none =>
        rw [hc] at hr
        dsimp only at hr
        split_ifs at hr with hfolder
        · obtain ⟨rfl, hdisk⟩ := Prod.mk.inj hr
          rw [hdisk, Disk.content_put_self hfolder]
          exact ⟨.put _ _ _, .inl ⟨rfl, .inl rfl⟩⟩
        · obtain ⟨rfl, hdisk⟩ := Prod.mk.inj hr
          exact ⟨hdisk ▸ .refl _, .inr ⟨hdisk, .noFile, rfl, nofun⟩⟩
    · exact ⟨hdisk ▸ .refl _, .inr ⟨hdisk, .other, rfl, nofun⟩⟩
  refine Ends.attempt_bind hopen ?_
  rintro r t1 ⟨hfile, ⟨hmarker, rfl | rfl⟩ | ⟨hsame, e, rfl, he⟩⟩
  · -- the marker is new, and is closed
    have hclose := fclose_disk env t1
    have hresult : Ends (fsFclose env) t1 fun _ t' => FileOnly marker t.world.disk t'.world.disk ∧
        (t'.world.disk.content marker).isSome = true := by
      show FileOnly marker t.world.disk (fsFclose env t1).2.world.disk ∧
        ((fsFclose env t1).2.world.disk.content marker).isSome = true
      rw [hclose]
      exact ⟨hfile, hmarker⟩
    exact .failWith hresult (fun _ t2 h2 => ⟨⟨h2.1, .inl h2.2⟩, h2.2⟩) fun _ t2 h2 => ⟨⟨h2.1, .inl h2.2⟩, trivial⟩
  · exact ⟨⟨hfile, .inl hmarker⟩, hmarker⟩
  · cases e with
    | nameAlreadyExist => exact absurd rfl he
    | _ => exact ⟨⟨hfile, .inr hsame⟩, trivial⟩

/-- The working partition is formatted, not emptied. -/
def Formats (env : Env) : Prop := env.privatePrimary = true ∧ ¬ env.singlePartition = true

theorem clearWorking_does (h : PowerOnly env) (hfolder : ¬ Formats env → (t.world.disk.files .working).isSome = true) :
    Does (clearWorking env) t (fun t' => KeepsBackup t.world.disk t'.world.disk ∧
        (¬ Formats env → (t'.world.disk.files .working).isSome = true))
      (fun _ t' => (t'.world.disk.files .working).isSome = true ∧
        ∀ name, t'.world.disk.content ⟨.working, name⟩ = none) Failed := by
  unfold clearWorking
  by_cases hformats : Formats env
  · have hcond : env.privatePrimary = true ∧ ¬ env.singlePartition = true := hformats
    have hnot {P : Prop} : ¬ Formats env → P := absurd hformats
    rw [if_pos hcond]
    have hformat : Does (onWorld (fsFormat env)) t (fun t' => KeepsBackup t.world.disk t'.world.disk)
        (fun _ t' => t'.world.disk = { t.world.disk with working := none }) Lost :=
      .within (.imp (call_does h rfl (.refl _) (keepsBackup_format _)) (fun _ hd => hd) fun _ _ _ hr => hr.2)
    refine .bind (.failWith (.imp hformat (fun _ hd => ⟨hd, hnot⟩) fun _ _ hd hr => And.intro hd hr)
      fun _ => trivial) ?_
    rintro _ t1 - ⟨hd1, hdisk1⟩
    refine .failWith (.imp (fsMkDir_does h .working t1) (fun _ hsame => ⟨hd1.trans (hsame.mono nofun nofun), hnot⟩)
      fun _ t2 hsame hmade => ⟨hmade, fun name => ?_⟩) fun _ => trivial
    rw [hsame.content _ id, hdisk1]
    rfl
  · have hcond : ¬ (env.privatePrimary = true ∧ ¬ env.singlePartition = true) := hformats
    have hworking := hfolder hformats
    rw [if_neg hcond]
    have hrm : Does (onWorld (fsRmFiles env .working)) t (fun t' => WorkingOnly t.world.disk t'.world.disk)
        (fun _ t' => ∀ name, t'.world.disk.content ⟨.working, name⟩ = none) Lost := .within (fsRmFiles_does h hworking)
    refine .imp (tolerate_does hrm ?_) (fun _ hd => ⟨hd.mono (fun _ => id) nofun, fun _ => hd.folders _ id hworking⟩)
      fun _ _ hd hempty => ⟨hd.folders _ id hworking, hempty⟩
    rintro e t1 hallowed rfl
    exact absurd hallowed (by decide)

theorem backup_of_marker (h : (d.content marker).isSome = true) : (d.files .backup).isSome = true := by
  obtain ⟨c, hc⟩ := Option.isSome_iff_exists.mp h
  obtain ⟨w, b⟩ := d
  cases b with
  | none => cases hc
  | some b => rfl

/-- A reset that may be interrupted. -/
structure Resetting (env : Env) (d d' : Disk) : Prop where
  resets : Resets d d'
  folder : ¬ Formats env → (d'.files .working).isSome = true

theorem esfsFactoryReset_does (h : PowerOnly env) (hfolder : ¬ Formats env → (t.world.disk.files .working).isSome = true) :
    Does (esfsFactoryReset env) t (fun t' => Resetting env t.world.disk t'.world.disk) (fun _ t' =>
      ((t'.world.disk.content marker).isSome = false ∧ (t'.world.disk.files .working).isSome = true) ∧
        ∀ name, t'.world.disk.content ⟨.working, name⟩ = t.world.disk.content ⟨.backup, name⟩) Failed := by
  -- the folder of the marker
  have hsame1 {d' : Disk} (hsame : SameFiles t.world.disk d') : Resetting env t.world.disk d' :=
    ⟨.of_same fun q => hsame.content q id, fun hf => hsame.folders _ id (hfolder hf)⟩
  refine .bind (.imp (makeFolder_does h .reset t) (fun _ hsame => hsame1 hsame) fun _ _ hsame _ => hsame) ?_
  rintro _ t1 hreset1 hsame
  -- the marker
  have hcut {d2 d' : Disk} (hfile : FileOnly marker t1.world.disk d2) (hmarker : (d2.content marker).isSome = true)
      (hkeeps : KeepsBackup d2 d') (hf : ¬ Formats env → (d'.files .working).isSome = true) :
      Resetting env t.world.disk d' := by
    refine ⟨⟨fun name => ?_, .inl ?_⟩, hf⟩
    · rw [hkeeps.content ⟨.backup, name⟩ nofun, hfile.content _ (marker_ne_backup name), hsame.content _ id]
    · rw [hkeeps.content marker nofun, hmarker]
  refine .bind (.imp (createMarker_does h t1) ?_ fun _ _ hfile hmarker => And.intro hfile.1 hmarker) ?_
  · rintro t2 ⟨hfile, hmarker | hdisk⟩
    · exact hcut hfile hmarker (.refl _) fun hf => hfile.folders _ id (hreset1.folder hf)
    · rw [hdisk]
      exact hreset1
  rintro _ t2 hreset2 ⟨hfile2, hmarker2⟩
  -- as long as there is a marker, the rest may be interrupted
  refine .bind (.imp (clearWorking_does h hreset2.folder) (fun _ hd => hcut hfile2 hmarker2 hd.1 hd.2)
    fun _ _ hd hclear => And.intro hd.1 hclear) ?_
  rintro _ t3 hreset3 ⟨hkeeps3, hworking3, hempty⟩
  have hmarker3 : (t3.world.disk.content marker).isSome = true := by rw [hkeeps3.content marker nofun, hmarker2]
  have hkeeps {d' : Disk} (hd : WorkingOnly t3.world.disk d') : KeepsBackup t2.world.disk d' :=
    hkeeps3.trans (hd.mono (fun _ => id) nofun)
  have hcopy : Does (onWorld (fsCpFolder env .backup .working)) t3 (fun t' => WorkingOnly t3.world.disk t'.world.disk)
      (fun _ t' => ∀ name, t'.world.disk.content ⟨.working, name⟩ = t3.world.disk.content ⟨.backup, name⟩) Lost :=
    .within (fsCpFolder_does h hworking3 (backup_of_marker hmarker3) hempty)
  refine .bind (.imp (tolerate_does hcopy ?_) (fun _ hd => hcut hfile2 hmarker2 (hkeeps hd) fun _ =>
    hd.folders _ id hworking3) fun _ _ hd hcopied => And.intro hd hcopied) ?_
  · rintro e t4 hallowed rfl
    exact absurd hallowed (by decide)
  rintro _ t4 hreset4 ⟨hframe4, hcopied⟩
  have hmarker4 : (t4.world.disk.content marker).isSome = true := by rw [hframe4.content marker nofun, hmarker3]
  obtain ⟨c, hc⟩ := Option.isSome_iff_exists.mp hmarker4
  -- the reset is complete as soon as the marker is removed
  have hrestored (name : Name) : (t4.world.disk.remove marker).content ⟨.working, name⟩ =
      t.world.disk.content ⟨.backup, name⟩ := by
    rw [Disk.content_remove_ne (marker_ne_working name), hcopied name, hreset3.resets.backup]
  have hdone : Resetting env t.world.disk (t4.world.disk.remove marker) := by
    refine ⟨⟨fun name => ?_, .inr (.inl hrestored)⟩, fun hf => ?_⟩
    · rw [Disk.content_remove_ne (marker_ne_backup name), hreset4.resets.backup]
    · rw [Disk.isSome_files_remove, hreset4.folder hf]
  have hunlink : Does (onWorld (fsUnlink env marker)) t4 (fun t' => Resetting env t.world.disk t'.world.disk)
      (fun u t' => u = () ∧ t'.world.disk = t4.world.disk.remove marker) Lost :=
    .within (call_does h (by simp only [hc]) hreset4 hdone)
  refine .failWith (.imp hunlink (fun _ hd => hd) fun _ t5 _ hr => ?_) fun _ => trivial
  rw [hr.2, Disk.content_remove_self, Disk.isSome_files_remove]
  exact ⟨⟨rfl, hframe4.folders _ id hworking3⟩, hrestored⟩

/-! ## Initialisation -/

theorem makeWorking_does (h : PowerOnly env) (n : Nat) (t : FileState) :
    Does (makeWorking env n) t (fun t' => SameFiles t.world.disk t'.world.disk)
      (fun _ t' => (t'.world.disk.files .working).isSome = true) Failed := by
  induction n generalizing t with
  | zero => exact makeFolder_does h .working t
  | succ n ih =>
    refine Ends.attempt_bind (fsMkDir_does h .working t) ?_
    rintro r t1 ⟨hsame, hmade⟩
    cases r with
    | ok u => exact ⟨hsame, hmade⟩
    | error e =>
      cases e with
      | nameAlreadyExist => exact ⟨hsame, hmade rfl⟩
      | _ => exact Does.imp (ih t1) (fun _ hd => hsame.trans hd) fun _ _ _ hr => hr

theorem resumeReset_does (h : PowerOnly env) (hworking : (t.world.disk.files .working).isSome = true) :
    Does (resumeReset env) t (fun t' => Resets t.world.disk t'.world.disk) (fun _ t' =>
      (t'.world.disk.content marker).isSome = false ∧ (t'.world.disk.files .working).isSome = true) Failed := by
  have hopen : Ends (fsFopen env marker .readOnly) t fun r t' => t'.world.disk = t.world.disk ∧
      (r = .error .noFile → (t.world.disk.content marker).isSome = false) := by
    refine .imp (fopen_ends h marker .readOnly t) ?_
    rintro r t' (⟨hr, -⟩ | ⟨rfl, hdisk⟩)
    · unfold OpenMode.opened at hr
      cases hc : t.world.disk.content marker with
      | some c =>
        rw [hc] at hr
        obtain ⟨rfl, hdisk⟩ := Prod.mk.inj hr
        exact ⟨hdisk, nofun⟩
      | none =>
        rw [hc] at hr
        exact ⟨(Prod.mk.inj hr).2, fun _ => rfl⟩
    · exact ⟨hdisk, nofun⟩
  refine Ends.attempt_bind hopen ?_
  rintro r t1 ⟨hdisk1, hnone⟩
  -- nothing has happened yet if the opening or the closing of the marker fails
  have hsame {t' : FileState} (hdisk : t'.world.disk = t.world.disk) : Resets t.world.disk t'.world.disk :=
    .of_same fun q => by rw [hdisk]
  cases r with
  | ok u =>
    have hfclose : Ends (fsFclose env) t1 fun _ t' => t'.world.disk = t.world.disk := (fclose_disk env t1).trans hdisk1
    have hclose : Does (Proc.failWith EsfsError.error (fsFclose env)) t1
        (fun t' => Resets t.world.disk t'.world.disk) (fun _ t' => t'.world.disk = t.world.disk) Failed :=
      Ends.failWith hfclose (fun _ _ hdisk => ⟨hsame hdisk, hdisk⟩) fun _ _ hdisk => ⟨hsame hdisk, trivial⟩
    refine Does.bind hclose fun _ t2 _ hdisk2 => ?_
    rw [← hdisk2] at hworking ⊢
    exact .failWith (.imp (esfsFactoryReset_does h fun _ => hworking) (fun _ hd => hd.resets) fun _ _ _ hr => hr.1)
      fun _ => trivial
  | error e =>
    cases e with
    | noFile =>
      refine ⟨hsame hdisk1, ?_⟩
      show (t1.world.disk.content marker).isSome = false ∧ (t1.world.disk.files .working).isSome = true
      rw [hdisk1]
      exact ⟨hnone rfl, hworking⟩
    | _ => exact ⟨hsame hdisk1, trivial⟩

/-- After a success there is a working folder, and no marker. -/
theorem esfsInit_does (h : PowerOnly env) (t : FileState) :
    Does (esfsInit env) t (fun t' => Resets t.world.disk t'.world.disk) (fun _ t' =>
      (t'.world.disk.content marker).isSome = false ∧ (t'.world.disk.files .working).isSome = true) Failed := by
  have hsame {d' : Disk} (hd : SameFiles t.world.disk d') : Resets t.world.disk d' := .of_same fun q => hd.content q id
  refine .bind (.imp (makeWorking_does h 99 t) (fun _ hd => hsame hd) fun _ _ hd hmade => And.intro hd hmade) ?_
  rintro _ t1 - ⟨hsame1, hmade1⟩
  refine .bind (.imp (makeFolder_does h .backup t1) (fun _ hd => hsame (hsame1.trans hd)) fun _ _ hd _ => hd) ?_
  rintro _ t2 hreset2 hsame2
  exact .imp (resumeReset_does h (hsame2.folders _ id hmade1)) (fun _ hd => hreset2.trans hd) fun _ _ _ hr => hr

end FactoryReset

/-! ## Runs of a device -/

namespace Device

/-- The working folder of an initialised device exists, unless it may be formatted. -/
def Ready (env : Env) (dev : Device) : Prop :=
  dev.initialized = true → ¬ Formats env → (dev.world.disk.files .working).isSome = true

theorem init_resets (h : PowerOnly env) (dev : Device) : Resets dev.world.disk (dev.init env).2.world.disk := by
  unfold init
  split
  · exact .of_same fun q => rfl
  · exact (esfsInit_does h ⟨none, dev.world⟩).1

variable {dev : Device}

section

variable (h : PowerOnly env)
include h

theorem init_ok (hboot : dev.initialized = false) (hok : (dev.init env).1 = .ok ()) :
    ((dev.init env).2.world.disk.content marker).isSome = false ∧ ((dev.init env).2.world.disk.files .working).isSome = true := by
  unfold init at hok ⊢
  rw [hboot] at hok ⊢
  obtain ⟨-, hdone⟩ := esfsInit_does h ⟨none, dev.world⟩
  have hok : (esfsInit env ⟨none, dev.world⟩).1 = .ok () := hok
  rw [hok] at hdone
  exact hdone

theorem ready_step (hready : Ready env dev) (e : Event) : Ready env (dev.step env e) := by
  cases e with
  | powerOn =>
    intro hinit
    cases hinit
  | init =>
    intro hinit hf
    cases hboot : dev.initialized with
    | true =>
      have hstep : dev.step env .init = dev := by
        show (dev.init env).2 = dev
        unfold init
        rw [hboot]
        rfl
      rw [hstep] at hinit ⊢
      exact hready hinit hf
    | false =>
      refine (init_ok h hboot ?_).2
      have hstep : (dev.init env).2.initialized = true := hinit
      unfold init at hstep ⊢
      rw [hboot] at hstep ⊢
      exact of_decide_eq_true hstep
  | factoryReset =>
    intro hinit hf
    have hstep : (dev.factoryReset env).initialized = true := hinit
    show ((dev.factoryReset env).world.disk.files .working).isSome = true
    unfold factoryReset at hstep ⊢
    split_ifs with hboot
    · exact (esfsFactoryReset_does (t := ⟨none, dev.world⟩) h fun hf => hready hboot hf).1.folder hf
    rw [if_neg hboot] at hstep
    exact absurd hstep hboot

theorem resets_step (hready : Ready env dev) (e : Event) : Resets dev.world.disk (dev.step env e).world.disk := by
  cases e with
  | powerOn => exact .of_same fun q => rfl
  | init => exact init_resets h dev
  | factoryReset =>
    show Resets dev.world.disk (dev.factoryReset env).world.disk
    unfold factoryReset
    split_ifs with hboot
    · exact (esfsFactoryReset_does (t := ⟨none, dev.world⟩) h fun hf => hready hboot hf).1.resets
    · exact .of_same fun q => rfl

theorem resets_run (es : List Event) (hready : Ready env dev) :
    Ready env (dev.run env es) ∧ Resets dev.world.disk (dev.run env es).world.disk := by
  induction es generalizing dev with
  | nil => exact ⟨hready, .of_same fun q => rfl⟩
  | cons e es ih =>
    obtain ⟨hready', hresets⟩ := ih (ready_step h hready e)
    exact ⟨hready', (resets_step h hready e).trans hresets⟩

end

theorem run_append (dev : Device) (es es' : List Event) : dev.run env (es ++ es') = (dev.run env es).run env es' := foldl_append

/-- A call of `esfs_factory_reset` that succeeds, or is interrupted when there is a marker. -/
def Begun (env : Env) (dev : Device) : Prop :=
  dev.initialized = true ∧ ((esfsFactoryReset env ⟨none, dev.world⟩).1 = .ok () ∨
    ((dev.factoryReset env).world.disk.content marker).isSome = true)

theorem Begun.restores (hbegun : dev.Begun env) (h : PowerOnly env) (hready : Ready env dev) :
    ((dev.factoryReset env).world.disk.content marker).isSome = true ∨ ∀ name,
      (dev.factoryReset env).world.disk.content ⟨.working, name⟩ = dev.world.disk.content ⟨.backup, name⟩ := by
  obtain ⟨hinit, hok | hmarker⟩ := hbegun
  · have hdone := (esfsFactoryReset_does (t := ⟨none, dev.world⟩) h fun hf => hready hinit hf).2
    rw [hok] at hdone
    right
    unfold factoryReset
    rw [if_pos hinit]
    exact hdone.2
  · exact .inl hmarker

end Device

/-- After any interruptions of `esfs_factory_reset` and `esfs_init`, a successful `esfs_init` leaves exactly the backup files in
the working folder if a reset has succeeded or had come as far as the marker. In any other case it leaves these or the files
that were there, and the latter only if there never was a marker. -/
theorem init_recovers {env : Env} (h : PowerOnly env) {dev : Device} (hboot : dev.initialized = false)
    (es : List Event) (hes : (dev.run env es).initialized = false)
    (hok : ((dev.run env es).init env).1 = .ok ()) :
    (((dev.run env es).init env).2.world.disk.files .working).isSome = true ∧
      (∀ es', es' ++ [.factoryReset] <+: es → (dev.run env es').Begun env →
        ∀ name, ((dev.run env es).init env).2.world.disk.content ⟨.working, name⟩ = dev.world.disk.content ⟨.backup, name⟩) ∧
      ((∀ name, ((dev.run env es).init env).2.world.disk.content ⟨.working, name⟩ = dev.world.disk.content ⟨.backup, name⟩) ∨
        ((∀ es', es' <+: es → ((dev.run env es').world.disk.content marker).isSome = false) ∧
          ∀ name, ((dev.run env es).init env).2.world.disk.content ⟨.working, name⟩ =
            dev.world.disk.content ⟨.working, name⟩)) := by
  have hready : Device.Ready env dev := by
    intro hinit
    rw [hboot] at hinit
    cases hinit
  obtain ⟨hnone, hfolder⟩ := Device.init_ok h hes hok
  -- what is left without a marker
  have hsettled {es' rest : List Event} (hrest : es' ++ rest = es) : Resets (dev.run env es').world.disk
      ((dev.run env es).init env).2.world.disk := by
    subst hrest
    have hsuffix := (Device.resets_run h rest (Device.resets_run h es' hready).1).2
    rw [← Device.run_append] at hsuffix
    exact hsuffix.trans (Device.init_resets h _)
  refine ⟨hfolder, ?_, ?_⟩
  · rintro es' ⟨rest, hrest⟩ hbegun
    obtain ⟨hready', hbefore⟩ := Device.resets_run h es' hready
    have hrun : dev.run env (es' ++ [.factoryReset]) = (dev.run env es').factoryReset env := Device.run_append _ _ _
    have hafter := hsettled hrest
    rw [hrun] at hafter
    refine Resets.restored (hbefore.trans (Device.resets_step h hready' .factoryReset)) hafter hnone ?_
    exact (hbegun.restores h hready').imp id fun hrestored name => (hrestored name).trans (hbefore.backup name)
  rcases (hsettled (List.nil_append es)).working with hmarker | hbackup | ⟨-, hold⟩
  · rw [hnone] at hmarker
    cases hmarker
  · exact .inl hbackup
  by_cases hnever : ∀ es', es' <+: es → ((dev.run env es').world.disk.content marker).isSome = false
  · exact .inr ⟨hnever, hold⟩
  left
  push Not at hnever
  obtain ⟨es', ⟨rest, hrest⟩, hmarker⟩ := hnever
  rw [ne_eq, Bool.not_eq_false] at hmarker
  exact (Device.resets_run h es' hready).2.restored (hsettled hrest) hnone (.inl hmarker)

/-- The power is lost at one call. -/
def losing (n : Nat) : Env := { device with fault := fun k => if k = n then some (.powerLoss 0) else none }

theorem powerOnly_losing (n : Nat) : PowerOnly (losing n) := by
  intro k e c hk
  change (if k = n then some (Fault.powerLoss 0) else none) = some (.fails e c) at hk
  split at hk <;> cases hk

/-- One factory file, and another file in the working folder. -/
def soldDevice : Device := ⟨⟨⟨some (AList.insert [2] [7] ∅), some ⟨AList.insert [1] [8, 9] ∅, none⟩⟩, 0, true⟩, false⟩

/-- The device is reset, switched on again and initialised. -/
def resetSold (n : Nat) : Except EsfsError Unit × Device :=
  (soldDevice.run (losing n) [.init, .factoryReset, .powerOn]).init (losing n)

/-- The power is lost while the factory file is copied. -/
theorem init_recovers_soldDevice : (resetSold 10).1 = .ok () ∧
      ∀ name, (resetSold 10).2.world.disk.content ⟨.working, name⟩ = soldDevice.world.disk.content ⟨.backup, name⟩ := by
  have hok : (resetSold 10).1 = .ok () := by decide
  have hbegun : (soldDevice.run (losing 10) [.init]).Begun (losing 10) := ⟨by decide, .inr (by decide)⟩
  exact ⟨hok, (init_recovers (powerOnly_losing 10) rfl _ (by decide) hok).2.1 [.init] ⟨[.powerOn], rfl⟩ hbegun⟩

/-- The power is lost between the folder `FR` and the marker: the other file is still there. -/
theorem init_keeps_soldDevice :
    PowerOnly (losing 4) ∧ ((soldDevice.run (losing 4) [.init, .factoryReset]).world.disk.files .reset).isSome = true ∧
      (resetSold 4).1 = .ok () ∧ (resetSold 4).2.world.disk.content ⟨.working, [2]⟩ = some [7] ∧
      soldDevice.world.disk.content ⟨.backup, [2]⟩ = none :=
  ⟨powerOnly_losing 4, by decide, by decide, by decide, by decide⟩

end MbedCloud.Storage
