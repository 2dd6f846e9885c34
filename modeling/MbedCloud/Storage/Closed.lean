import MbedCloud.Storage.Created

/-!
# What `esfs_close` leaves behind

A file that has been written is closed with its signature behind the content, and a factory file is
copied to the working folder (`esfsClose_ok`). Which files are factory files is decided by the mode in
the handle.
-/

namespace MbedCloud.Storage

open Lib
open List hiding Vector

/-! ## Copying a file -/

/-- The first `k` bytes of a file with content `c` have been copied; all other files are as on `d`. -/
structure Copying (d : Disk) (src dst : Path) (c : Bytes) (k : Nat) (s : CopyState) : Prop where
  srcFile : s.src = some ⟨src, k⟩
  dstFile : s.dst = some ⟨dst, k⟩
  source : s.world.disk.content src = some c
  copied : s.world.disk.content dst = some (c.take k)
  others : ∀ q, q ≠ dst → s.world.disk.content q = d.content q

section Copy

variable {env : Env} {d : Disk} {src dst : Path} {c : Bytes} {k : Nat} {s s' : CopyState}

/-- The next bytes of the source have been written. -/
theorem Copying.next {bs : Bytes} (hne : src ≠ dst) (hs : Copying d src dst c k s) (hk : k ≤ c.length)
    (hbs : bs = (c.drop k).take bs.length) (hsrc : s'.src = some ⟨src, k + bs.length⟩)
    (hdst : s'.dst = some ⟨dst, k + bs.length⟩) (hdisk : s'.world.disk = Fd.write ⟨dst, k⟩ bs s.world.disk) :
    Copying d src dst c (k + bs.length) s' := by
  have hover : overwrite (c.take k) k bs = c.take (k + bs.length) := by
    have hend := overwrite_end (c.take k) bs
    rw [length_take_of_le hk] at hend
    rw [hend, take_add, ← hbs]
  have hput : s'.world.disk = s.world.disk.put dst (c.take (k + bs.length)) := by
    rw [hdisk, Fd.write, hs.copied]
    exact congrArg (s.world.disk.put dst) hover
  refine ⟨hsrc, hdst, ?_, ?_, fun q hq => ?_⟩
  · rw [hput, Disk.content_put_ne hne, hs.source]
  · rw [hput, Disk.content_put_self (Disk.isSome_files_of_content hs.copied)]
  · rw [hput, Disk.content_put_ne hq, hs.others q hq]

theorem copyPiece_ok {n : Nat} (hne : src ≠ dst) (hs : Copying d src dst c k s) (hn : k + n ≤ c.length)
    (hok : copyPiece env n s = (.ok (), s')) : Copying d src dst c (k + n) s' := by
  obtain ⟨buffer, s1, hread, hok⟩ := Proc.bind_eq_ok.mp hok
  obtain ⟨t, ht, rfl⟩ := Proc.within_eq_ok.mp (Proc.failWith_eq_ok.mp hread)
  obtain ⟨hbuffer, rfl⟩ := fread_ok ht hs.srcFile hs.source
  have hlen : buffer.length = n := by
    rw [hbuffer, length_take, length_drop]
    show min n (c.length - k) = n
    omega
  obtain ⟨t, ht, rfl⟩ := Proc.within_eq_ok.mp (Proc.failWith_eq_ok.mp hok)
  obtain ⟨-, -, rfl⟩ := fwrite_ok ht hs.dstFile
  rw [← hlen] at hbuffer ⊢
  exact hs.next hne (by omega) hbuffer rfl rfl rfl

theorem copyLoop_ok (ns : List Nat) {k : Nat} {s : CopyState} (hne : src ≠ dst) (hs : Copying d src dst c k s)
    (hsum : k + ns.sum = c.length) (hok : Proc.each (copyPiece env) ns s = (.ok (), s')) :
    Copying d src dst c c.length s' := by
  induction ns generalizing k s with
  | nil =>
    cases hok
    rw [← hsum]
    exact hs
  | cons n ns ih =>
    rw [sum_cons] at hsum
    obtain ⟨s1, hpiece, hrest⟩ := Proc.each_cons_eq_ok.mp hok
    exact ih (copyPiece_ok hne hs (by omega) hpiece) (by omega) hrest

theorem copyFile_ok {s s' : State} (hne : src ≠ dst) (hok : copyFile env src dst s = (.ok (), s'))
    (hc : s.world.disk.content src = some c) :
    s'.handle = s.handle ∧ s'.world.disk.content dst = some c ∧
      ∀ q, q ≠ dst → s'.world.disk.content q = s.world.disk.content q := by
  obtain ⟨t, ht, rfl⟩ := Proc.within_eq_ok.mp hok
  obtain ⟨u, t1, hopen, ht⟩ := Proc.bind_eq_ok.mp ht
  obtain ⟨f1, hf1, rfl⟩ := Proc.within_eq_ok.mp (Proc.failWith_eq_ok.mp hopen)
  obtain ⟨hopened, rfl, -⟩ := fopen_ok hf1
  obtain ⟨u, t2, htrunc, ht⟩ := Proc.bind_eq_ok.mp ht
  obtain ⟨f2, hf2, rfl⟩ := Proc.within_eq_ok.mp (Proc.failWith_eq_ok.mp (Proc.onError_eq_ok.mp htrunc))
  obtain ⟨htruncated, rfl, -⟩ := fopen_ok hf2
  rw [opened_readOnly hc] at htruncated ht
  have hfolder : (s.world.disk.files dst.folder).isSome = true := by
    by_contra hnone
    unfold OpenMode.opened at htruncated
    cases hcontent : s.world.disk.content dst <;> rw [hcontent, if_neg hnone] at htruncated <;> cases htruncated
  rw [opened_readWriteTrunc hfolder] at ht
  -- both files are open
  obtain ⟨size, t3, hsize, ht⟩ := Proc.bind_eq_ok.mp (Proc.onError_eq_ok.mp ht)
  obtain ⟨f3, hf3, rfl⟩ := Proc.within_eq_ok.mp (Proc.failWith_eq_ok.mp hsize)
  have hsrc : (s.world.disk.put dst []).content src = some c := by rw [Disk.content_put_ne hne, hc]
  obtain ⟨rfl, hfile3, hdisk3⟩ := getPhysicalFileSize_ok hf3 rfl hsrc
  obtain ⟨u, t4, hloop, ht⟩ := Proc.bind_eq_ok.mp ht
  have hstart : Copying s.world.disk src dst c 0 ⟨f3.file, some ⟨dst, 0⟩, f3.world⟩ := by
    refine ⟨hfile3, rfl, ?_, ?_, ?_⟩
    · rw [hdisk3]
      exact hsrc
    · rw [hdisk3]
      exact Disk.content_put_self hfolder
    intro q hq
    rw [hdisk3]
    exact Disk.content_put_ne hq
  have hend := copyLoop_ok _ hne hstart (by rw [sum_pieceSizes, Nat.zero_add]) hloop
  obtain ⟨u, t5, hclose, ht⟩ := Proc.bind_eq_ok.mp ht
  obtain ⟨f5, hf5, rfl⟩ := Proc.within_eq_ok.mp (Proc.failWith_eq_ok.mp hclose)
  cases fclose_ok hf5
  obtain ⟨f6, hf6, rfl⟩ := Proc.within_eq_ok.mp (Proc.failWith_eq_ok.mp ht)
  cases fclose_ok hf6
  refine ⟨rfl, ?_, hend.others⟩
  have hcopied := hend.copied
  rw [take_length] at hcopied
  exact hcopied

end Copy

/-! ## Closing -/

section

variable {env : Env} {d : Disk} {h : Handle} {p : Path} {c : Bytes} {s s' : State}

def signed (env : Env) (c : Bytes) : Bytes := c ++ (env.cmac c).toList

theorem length_signed (env : Env) (c : Bytes) : (signed env c).length = c.length + 16 := by
  rw [signed, length_append, Vector.length_toList]

/-- A failure of the signature is remembered, and reported in the end. -/
theorem writeSignature_ok (hw : Signed d h p c false s) {ok : Bool} (hok : writeSignature env s = (.ok ok, s'))
    (htrue : ok = true) : Writing d h p (signed env c) none false s' ∧ (signed env c).length ≤ maxPosition := by
  rw [writeSignature, getHandle_bind, hw.handle] at hok
  obtain ⟨cmac, s2, hfinish, hok⟩ := Proc.bind_eq_ok.mp hok
  obtain ⟨hs2, hcmac⟩ := compute_step hfinish
  cases hcmac
  rw [setHandle_bind] at hok
  have hw3 := (hw.unchanged hs2).setSignature none
  obtain ⟨r, s4, hwrite, hok⟩ := Proc.bind_eq_ok.mp hok
  have hwrite := Proc.attempt_eq_ok.mp hwrite
  cases r with
  | error e =>
    obtain ⟨rfl, -⟩ := Proc.pure_eq_ok.mp hok
    cases htrue
  | ok u =>
    obtain ⟨-, rfl⟩ := Proc.pure_eq_ok.mp hok
    obtain ⟨hw4, hle⟩ := (fsFwrite_stores (C := False) hw3 nofun).ok hwrite
    refine ⟨hw4, ?_⟩
    rw [signed, length_append]
    exact hle

/-- The disk after a file has been closed: a factory file, by the mode in the handle, is also in the
working folder. -/
structure Closed (env : Env) (d : Disk) (h : Handle) (p : Path) (c : Bytes) (s' : State) : Prop where
  length_le : (signed env c).length ≤ maxPosition
  content : s'.world.disk.content p = some (signed env c)
  copied : factoryVal h.esfsMode = true → s'.world.disk.content ⟨.working, h.shortFileName⟩ = some (signed env c)
  others : ∀ q, q ≠ p → (factoryVal h.esfsMode = true → q ≠ ⟨.working, h.shortFileName⟩) → s'.world.disk.content q = d.content q

theorem esfsClose_ok (hw : Signed d h p c false s) (hflag : h.fileFlag = .write)
    (hp : factoryVal h.esfsMode = true → p = ⟨.backup, h.shortFileName⟩)
    (hok : esfsClose env s = (.ok (), s')) : Closed env d h p c s' := by
  obtain ⟨u, s1, hvalid, hok⟩ := Proc.bind_eq_ok.mp hok
  obtain ⟨-, rfl⟩ := Proc.require_eq_ok.mp hvalid
  rw [getHandle_bind, hw.handle] at hok
  obtain ⟨u, s3, hfree, hok⟩ := Proc.bind_eq_ok.mp hok
  have hfree : ∃ b, Signed d { h with aesCtx := b } p c false s3 := by
    rw [Proc.when_eq_ok] at hfree
    split at hfree
    · cases setHandle_ok hfree
      exact ⟨false, hw.setHandle { h with aesCtx := false } (fun h => { h with aesCtx := false }) rfl⟩
    · subst hfree
      exact ⟨h.aesCtx, hw⟩
  obtain ⟨b, hw3⟩ := hfree
  rw [getHandle_bind, getHandle_bind, hw3.handle, if_pos hflag] at hok
  obtain ⟨ok, s6, hsign, hok⟩ := Proc.bind_eq_ok.mp hok
  obtain ⟨u, s7, hclose, hok⟩ := Proc.bind_eq_ok.mp hok
  rw [getHandle_bind] at hok
  obtain ⟨u, s9, hunlink, hok⟩ := Proc.bind_eq_ok.mp hok
  obtain ⟨u, s10, hsigned, hok⟩ := Proc.bind_eq_ok.mp hok
  obtain ⟨htrue, rfl⟩ := Proc.require_eq_ok.mp hsigned
  obtain ⟨hw6, hle⟩ := writeSignature_ok hw3 hsign htrue
  cases fsFclose_ok (Proc.failWith_eq_ok.mp hclose)
  rw [hw6.handle, Proc.when_eq_ok, if_neg Bool.false_ne_true] at hunlink
  subst hunlink
  rw [hw6.handle, Proc.when_eq_ok] at hok
  cases hfactory : factoryVal h.esfsMode with
  | true =>
    rw [hfactory, if_pos (decide_eq_true ⟨rfl, hflag, rfl⟩)] at hok
    have hcontent := hw6.content
    rw [hp hfactory] at hcontent
    have hne : (⟨.backup, h.shortFileName⟩ : Path) ≠ ⟨.working, h.shortFileName⟩ := fun heq => nomatch heq
    obtain ⟨-, hcopied, hothers⟩ := copyFile_ok hne (Proc.failWith_eq_ok.mp hok) hcontent
    refine ⟨hle, ?_, fun _ => hcopied, ?_⟩
    · rw [hp hfactory, hothers _ hne]
      exact hcontent
    intro q hq hqw
    rw [hothers q (hqw hfactory)]
    exact hw6.others q hq
  | false =>
    rw [hfactory, if_neg (by simp)] at hok
    subst hok
    refine ⟨hle, hw6.content, ?_, fun q hq _ => hw6.others q hq⟩
    intro hf
    rw [hfactory] at hf
    cases hf

end

end MbedCloud.Storage

