import MbedCloud.Storage.FileContents

/-!
# What is stored

While a file is written, its content grows at the end (`Writing`). Whatever fails, a buffer that is
given to `esfs_write` is stored up to some byte (`esfsWrite_stores`), and as a whole if the call
succeeds. How it is stored is decided by the mode in the handle (`Handle.seal`): as it is, or combined
with the key stream at the position that follows from the sizes in the handle.
-/

namespace MbedCloud.Storage

open Lib
open List hiding Vector
open Lib.Proc (Ends)

/-! ## Encryption by position -/

def keyStream (env : Env) (nonce : Vector UInt8 8) : Nat → UInt8 := blockStream (env.aes nonce)

section PartialBlock

variable (block : Nat → Vector UInt8 16) (bs : Bytes) (position : Nat) {n : Nat}

theorem partialBlock_eq (hn : n ≤ bs.length) (zeros : Bytes) :
    ((counterMode block (position / 16) (replicate (position % 16) 0 ++ bs.take n ++ zeros)).drop
      (position % 16)).take n = xorFrom (blockStream block) position (bs.take n) := by
  have hlen : (bs.take n).length = n := by rw [length_take, Nat.min_eq_left hn]
  have hposition : position / 16 * 16 + position % 16 = position := by omega
  rw [counterMode_eq, ← xorFrom_drop, hposition, append_assoc, drop_left' (length_replicate), ← xorFrom_take, take_left' hlen]

theorem lastBlocks_eq (hn : n = min (16 - position % 16) bs.length) (hlt : n < bs.length) :
    counterMode block ((position + n) / 16) (bs.drop n) = xorFrom (blockStream block) (position + n) (bs.drop n) := by
  have hposition : (position + n) / 16 * 16 = position + n := by omega
  rw [counterMode_eq, hposition]

end PartialBlock

section Outcomes

variable {env : Env} {s : State}

theorem next_disk (env : Env) (w : World) : (w.next env).2.disk = w.disk := by
  unfold World.next
  split
  · split <;> rfl
  · rfl

variable {α : Type}

theorem call_disk (env : Env) {op : Disk → Except PalError α × Disk} (hop : ∀ d, (op d).2 = d) (w : World) :
    (call env op w).2.disk = w.disk := by
  have h := next_disk env w
  unfold call
  split
  · rename_i w1 hn
    rw [hn] at h
    exact (hop w1.disk).trans h
  rename_i w1 hn
  rw [hn] at h
  exact h

theorem compute_disk (x : Except PalError α) (w : World) : (compute env x w).2.disk = w.disk := call_disk env (fun _ => rfl) w

structure Unchanged (s s' : State) : Prop where
  handle : s'.handle = s.handle
  disk : s'.world.disk = s.world.disk

theorem Unchanged.trans {s1 s2 s3 : State} (h1 : Unchanged s1 s2) (h2 : Unchanged s2 s3) : Unchanged s1 s3 :=
  ⟨h2.handle.trans h1.handle, h2.disk.trans h1.disk⟩

/-- Whatever fails, the run ends with `A` or `F`. If no call fails and `C` holds, it ends with `A`. -/
abbrev Stores {ε : Type} (env : Env) (C : Prop) (x : Proc State ε α) (s : State) (A : α → State → Prop)
    (F : State → Prop) : Prop :=
  Proc.Meets (fun s => Quiet env s.world) C x s A F

variable {C : Prop}

theorem compute_stores (x : Except PalError α) (e : EsfsError) (hC : C → ∃ a, x = .ok a) :
    Stores env C (Proc.failWith e (pal (compute env x))) s (fun a s' => x = .ok a ∧ Unchanged s s') (Unchanged s) := by
  refine .failWith ⟨fun hq => ?_, ?_⟩
  · show Quiet env (compute env x s.world).2 ∧ (C → ∃ a, (compute env x s.world).1 = .ok a)
    rw [hq.compute]
    exact ⟨hq.tick, hC⟩
  · have hs : Unchanged s (pal (compute env x) s).2 := ⟨rfl, compute_disk x s.world⟩
    split
    · rename_i a hr
      exact ⟨(compute_ok (Prod.ext hr rfl : compute env x s.world = (.ok a, _))).1, hs⟩
    · exact hs

theorem aesCtr_stores {ctx : Bool} (hC : C → ctx = true) (nonce : Vector UInt8 8) (counter : Nat) (bs : Bytes) :
    Stores env C (Proc.failWith EsfsError.error (pal (aesCtrWithZeroOffset env ctx nonce counter bs))) s
      (fun out s' => (ctx = true ∧ out = counterMode (env.aes nonce) counter bs) ∧ Unchanged s s') (Unchanged s) := by
  refine (compute_stores _ _ fun hc => ⟨_, if_pos (hC hc)⟩).imp ?_ fun _ hs => hs
  rintro out s' ⟨hout, hs⟩
  split_ifs at hout
  cases hout
  exact ⟨⟨‹_›, rfl⟩, hs⟩

/-- The bytes are combined with the key stream at their position, and nothing else happens. -/
theorem aesEncDecByFilePos_stores {ctx : Bool} (hC : C → ctx = true) (bs : Bytes) (position : Nat) (nonce : Vector UInt8 8) :
    Stores env C (aesEncDecByFilePos env ctx bs position nonce) s
      (fun out s' => (ctx = true ∧ out = xorFrom (keyStream env nonce) position bs) ∧ Unchanged s s')
      (Unchanged s) := by
  have hle : min (16 - position % 16) bs.length ≤ bs.length := Nat.min_le_right _ _
  refine (aesCtr_stores hC nonce _ _).bind ?_ fun _ hs => hs
  rintro _ s1 ⟨⟨htrue, rfl⟩, hs1⟩
  have hfirst := partialBlock_eq (env.aes nonce) bs position hle
    (.replicate (16 - position % 16 - min (16 - position % 16) bs.length) 0)
  split
  · rename_i hlt
    refine (aesCtr_stores hC nonce _ _).bind ?_ fun _ hs2 => hs1.trans hs2
    rintro _ s2 ⟨⟨-, rfl⟩, hs2⟩
    refine .pure ⟨⟨htrue, ?_⟩, hs1.trans hs2⟩
    rw [hfirst, lastBlocks_eq (env.aes nonce) bs position rfl hlt]
    conv_rhs => rw [← take_append_drop (min (16 - position % 16) bs.length) bs, xorFrom_append, length_take, Nat.min_eq_left hle]
    rfl
  · rename_i hge
    refine .pure ⟨⟨htrue, ?_⟩, hs1⟩
    rw [hfirst, take_of_length_le (by omega)]
    rfl

end Outcomes

/-! ## A file that is being written -/

/-- The file `p` is open for writing at the end of its content `c`. The handle is `h` apart from the
fields that change, and the other files are those of `d`. -/
structure Writing (d : Disk) (h : Handle) (p : Path) (c : Bytes) (sig : Option CmacCtx) (invalid : Bool)
    (s : State) : Prop where
  handle : s.handle = { h with file := some ⟨p, c.length⟩, signatureCtx := sig, fileInvalid := invalid }
  content : s.world.disk.content p = some c
  others : ∀ q, q ≠ p → s.world.disk.content q = d.content q
  folders : ∀ f, (s.world.disk.files f).isSome = (d.files f).isSome

section Writing

variable {env : Env} {d : Disk} {h : Handle} {p : Path} {c : Bytes} {sig : Option CmacCtx} {invalid : Bool} {s : State}

section

variable (hw : Writing d h p c sig invalid s)
include hw

theorem Writing.unchanged {s' : State} (hs : Unchanged s s') : Writing d h p c sig invalid s' :=
  ⟨hs.handle.trans hw.handle, hs.disk ▸ hw.content, hs.disk ▸ hw.others, hs.disk ▸ hw.folders⟩

theorem Writing.setSignature (sig' : Option CmacCtx) :
    Writing d h p c sig' invalid { s with handle := { s.handle with signatureCtx := sig' } } := by
  refine ⟨?_, hw.content, hw.others, hw.folders⟩
  rw [hw.handle]

theorem Writing.setInvalid : Writing d h p c sig true { s with handle := { s.handle with fileInvalid := true } } := by
  refine ⟨?_, hw.content, hw.others, hw.folders⟩
  rw [hw.handle]

theorem Writing.append (part : Bytes) {w : World} (hdisk : w.disk = Fd.write ⟨p, c.length⟩ part s.world.disk) :
    Writing d h p (c ++ part) sig invalid ⟨{ s.handle with file := some ⟨p, c.length + part.length⟩ }, w⟩ := by
  have hput : w.disk = s.world.disk.put p (c ++ part) := by rw [hdisk, Fd.write, hw.content, ← overwrite_end]
  refine ⟨?_, ?_, ?_, ?_⟩
  · show { s.handle with file := some ⟨p, c.length + part.length⟩ } = _
    rw [hw.handle, length_append]
  · rw [hput]
    exact Disk.content_put_self (Disk.isSome_files_of_content hw.content)
  · intro q hq
    rw [hput, Disk.content_put_ne hq, hw.others q hq]
  · intro f
    rw [hput, Disk.isSome_files_put, hw.folders f]

theorem Writing.get {α ε : Type} {C : Prop} {f : Handle → α} {a : α} {F : State → Prop}
    (hf : f { h with file := some ⟨p, c.length⟩, signatureCtx := sig, fileInvalid := invalid } = a) :
    Stores env C (Proc.get fun s => f s.handle : Proc State ε α) s (fun b s' => a = b ∧ s' = s) F := by
  refine .get ⟨?_, rfl⟩
  rw [hw.handle, hf]

/-- A write stores some of its bytes, and all of them if it succeeds. -/
theorem fsFwrite_stores {C : Prop} {bs : Bytes} (hC : C → bs ≠ [] ∧ c.length + bs.length ≤ maxPosition) :
    Stores env C (file (fsFwrite env bs)) s
      (fun _ s' => Writing d h p (c ++ bs) sig invalid s' ∧ c.length + bs.length ≤ maxPosition)
      (fun s' => ∃ part, part <+: bs ∧ Writing d h p (c ++ part) sig invalid s') := by
  have hfile : s.handle.file = some ⟨p, c.length⟩ := by rw [hw.handle]
  have hself : ({ s.handle with file := some ⟨p, c.length⟩ } : Handle) = s.handle := by rw [← hfile]
  have hnothing : ∀ {s' : State}, Unchanged s s' → ∃ part, part <+: bs ∧ Writing d h p (c ++ part) sig invalid s' := by
    intro s' hs
    refine ⟨[], nil_prefix, ?_⟩
    rw [append_nil]
    exact hw.unchanged hs
  unfold Stores Proc.Meets Ends file Proc.within fsFwrite
  dsimp only
  rw [hfile]
  dsimp only
  by_cases hbs : bs = []
  · rw [if_pos hbs]
    exact ⟨fun hq => ⟨hq, fun hc => absurd hbs (hC hc).1⟩, hnothing ⟨hself, rfl⟩⟩
  rw [if_neg hbs]
  have hdisk := next_disk env s.world
  split
  · rename_i w hn
    have hquiet : Quiet env s.world → Quiet env w := by
      intro hq
      cases hq.next.symm.trans hn
      exact hq.tick
    rw [hn] at hdisk
    split
    · rename_i hlt
      exact ⟨fun hq => ⟨hquiet hq, fun hc => absurd hlt (Nat.not_lt.mpr (hC hc).2)⟩, hnothing ⟨hself, hdisk⟩⟩
    rename_i hle
    refine ⟨fun hq => ⟨(hquiet hq).disk _, fun _ => ⟨_, rfl⟩⟩, hw.append bs ?_, Nat.le_of_not_lt hle⟩
    rw [hdisk]
  · rename_i e n w hn
    rw [hn] at hdisk
    refine ⟨fun hq => (nomatch hq.next.symm.trans hn), bs.take n, take_prefix n bs, hw.append (bs.take n) ?_⟩
    rw [hdisk]

end

/-! ## Buffers -/

/-- A buffer has been stored up to some byte, each byte as `store` says, and as a whole after a
success. What follows from bytes having been stored is `P`. -/
def Appended (d : Disk) (h : Handle) (p : Path) (c : Bytes) (sig : Option CmacCtx) (invalid : Bool)
    (store : Bytes → Bytes) (bs : Bytes) (P : Prop) (r : Except EsfsError Unit) (s' : State) :
    Prop :=
  ∃ part sig' invalid', part <+: bs ∧ (part ≠ [] → P) ∧ Writing d h p (c ++ store part) sig' invalid' s' ∧
    (r = .ok () → part = bs ∧ sig' = sig.map (· ++ store bs) ∧ invalid' = invalid)

variable {store : Bytes → Bytes} {bs : Bytes} {P : Prop}

theorem appended_nothing (hstore : store [] = []) (hw : Writing d h p c sig invalid s) (e : EsfsError) :
    Appended d h p c sig invalid store bs P (.error e) s := by
  refine ⟨[], sig, invalid, nil_prefix, fun hne => absurd rfl hne, ?_, fun hr => nomatch hr⟩
  rwa [hstore, append_nil]

variable {r : Except EsfsError Unit}

theorem Appended.setInvalid (e : EsfsError) (ha : Appended d h p c sig invalid store bs P r s) :
    Appended d h p c sig invalid store bs P (.error e) { s with handle := { s.handle with fileInvalid := true } } := by
  obtain ⟨part, sig', invalid', hpart, hP, hw, -⟩ := ha
  exact ⟨part, sig', true, hpart, hP, hw.setInvalid, fun hr => nomatch hr⟩

/-- How a run can end that stores a buffer: all of it, or a part of it and a failure. -/
abbrev StoresAll (env : Env) (C : Prop) (x : Esfs Unit) (s : State) (d : Disk) (h : Handle) (p : Path) (c : Bytes)
    (sig : Option CmacCtx) (invalid : Bool) (store : Bytes → Bytes) (bs : Bytes) (P : Prop) : Prop :=
  Stores env C x s (fun _ s' => Writing d h p (c ++ store bs) (sig.map (· ++ store bs)) invalid s' ∧ (bs ≠ [] → P))
    (Appended d h p c sig invalid store bs P (.error .error))

theorem StoresAll.appended {C : Prop} {x : Esfs Unit} (hx : StoresAll env C x s d h p c sig invalid store bs P) :
    Ends x s (Appended d h p c sig invalid store bs P) := by
  refine Ends.imp hx fun r s' hr => ?_
  cases r with
  | ok u => exact ⟨bs, _, invalid, prefix_refl bs, hr.2.2, hr.2.1, fun _ => ⟨rfl, rfl, rfl⟩⟩
  | error e =>
    obtain ⟨part, sig', invalid', hpart, hP, hw, -⟩ := hr.2
    exact ⟨part, sig', invalid', hpart, hP, hw, fun hr => nomatch hr⟩

variable {C : Prop}

theorem fwriteAndCalcCmac_stores (hw : Writing d h p c sig invalid s) (hP : P)
    (hC : C → sig.isSome ∧ bs ≠ [] ∧ c.length + bs.length ≤ maxPosition) :
    StoresAll env C (fwriteAndCalcCmac env bs) s d h p c sig invalid id bs P := by
  refine (hw.get (a := sig) rfl).bind ?_ fun _ hs => hs
  rintro _ s0 ⟨rfl, rfl⟩
  refine (compute_stores _ _ fun hc => ?_).bind ?_ fun s' hs => appended_nothing rfl (hw.unchanged hs) _
  · obtain ⟨old, hold⟩ := Option.isSome_iff_exists.mp (hC hc).1
    rw [hold]
    exact ⟨_, rfl⟩
  rintro ctx s1 ⟨hctx, hs1⟩
  have hupdated : some ctx = sig.map (· ++ bs) := by
    cases sig with
    | none => cases hctx
    | some old =>
      cases hctx
      rfl
  refine (Proc.Meets.modify (A := fun _ => Writing d h p c (some ctx) invalid) (fun hq => hq)
    ((hw.unchanged hs1).setSignature (some ctx))).bind ?_ fun _ hs => hs
  intro u s2 hs2
  refine (fsFwrite_stores hs2 fun hc => (hC hc).2).failWith.imp ?_ ?_
  · rintro u s3 ⟨hs3, -⟩
    rw [hupdated] at hs3
    exact ⟨hs3, fun _ => hP⟩
  · rintro s3 ⟨part, hpart, hs3⟩
    exact ⟨part, some ctx, invalid, hpart, fun _ => hP, hs3, fun hr => nomatch hr⟩

theorem encryptPieces_stores (ns : List Nat) {position : Nat} (hw : Writing d h p c sig invalid s) (hsum : ns.sum = bs.length)
    (hC : C → sig.isSome ∧ h.aesCtx = true ∧ (∀ n ∈ ns, 0 < n) ∧ c.length + bs.length ≤ maxPosition) :
    StoresAll env C (encryptPieces env ns position bs) s d h p c sig invalid
      (xorFrom (keyStream env h.nonce) position) bs (h.aesCtx = true) := by
  induction ns generalizing bs position c sig s with
  | nil =>
    cases eq_nil_of_length_eq_zero hsum.symm
    refine .pure ⟨?_, fun hne => absurd rfl hne⟩
    simpa only [xorFrom_nil, append_nil, Option.map_id'] using hw
  | cons n ns ih =>
    rw [sum_cons] at hsum
    have htake : (bs.take n).length = n := by
      rw [length_take]
      omega
    have hdrop : (bs.drop n).length = bs.length - n := length_drop
    have hlen : (xorFrom (keyStream env h.nonce) position (bs.take n)).length = n := by rw [length_xorFrom, htake]
    refine (hw.get rfl).bind ?_ fun _ hs => hs
    rintro _ s0 ⟨rfl, rfl⟩
    refine (hw.get rfl).bind ?_ fun _ hs => hs
    rintro _ s1 ⟨rfl, rfl⟩
    refine (aesEncDecByFilePos_stores (fun hc => (hC hc).2.1) (bs.take n) position h.nonce).bind ?_
      fun s' hs => appended_nothing (xorFrom_nil _) (hw.unchanged hs) _
    rintro _ s2 ⟨⟨htrue, rfl⟩, hs2⟩
    have hfwrite : C → sig.isSome ∧ xorFrom (keyStream env h.nonce) position (bs.take n) ≠ [] ∧
        c.length + (xorFrom (keyStream env h.nonce) position (bs.take n)).length ≤ maxPosition := by
      intro hc
      obtain ⟨hsig, -, hns, hle⟩ := hC hc
      refine ⟨hsig, fun hnil => ?_, by omega⟩
      rw [hnil, length_nil] at hlen
      exact absurd (hns n (.head _)) (by omega)
    refine (Proc.Meets.onError (fwriteAndCalcCmac_stores (P := True) (hw.unchanged hs2) trivial hfwrite)
      (fun s' hs => hs.setInvalid .error) (fun _ hq => hq)).bind ?_ ?_
    · rintro u s3 ⟨hs3, -⟩
      have hsplit : ∀ rest, xorFrom (keyStream env h.nonce) position (bs.take n ++ rest) =
          xorFrom (keyStream env h.nonce) position (bs.take n) ++
            xorFrom (keyStream env h.nonce) (position + n) rest := by
        intro rest
        rw [xorFrom_append, htake]
      have hall := hsplit (bs.drop n)
      rw [take_append_drop] at hall
      refine (ih hs3 (by omega) fun hc => ?_).imp ?_ ?_
      · obtain ⟨hsig, haes, hns, hle⟩ := hC hc
        refine ⟨by rwa [Option.isSome_map], haes, fun k hk => hns k (mem_cons_of_mem n hk), ?_⟩
        rw [length_append, id, hlen]
        omega
      · rintro u s4 ⟨hs4, -⟩
        rw [hall]
        simpa only [append_assoc, Option.map_map, Function.comp_def, id] using And.intro hs4 fun _ => htrue
      · rintro s4 ⟨part, sig2, invalid2, hpart, -, hs4, -⟩
        refine ⟨bs.take n ++ part, sig2, invalid2, ?_, fun _ => htrue, ?_, fun hr => nomatch hr⟩
        · conv_rhs => rw [← take_append_drop n bs]
          exact (prefix_append_right_inj _).mpr hpart
        · rw [hsplit, ← append_assoc]
          exact hs4
    · rintro s3 ⟨part, sig1, invalid1, hpart, -, hs3, -⟩
      rw [prefix_iff_eq_take, ← xorFrom_take, take_take] at hpart
      refine ⟨bs.take (min part.length n), sig1, invalid1, take_prefix _ bs, fun _ => htrue, ?_, fun hr => nomatch hr⟩
      rw [← hpart]
      exact hs3

end Writing

/-! ## Writing by the mode in the handle -/

/-- How bytes are stored at position `n` of the file. -/
def Handle.seal (env : Env) (h : Handle) (n : Nat) (bs : Bytes) : Bytes :=
  if encrypted h.esfsMode then xorFrom (keyStream env h.nonce) (n - notEncryptedFileHeaderSize h) bs else bs

/-- Bytes can be stored at position `n`. -/
def Handle.CanStore (h : Handle) (n : Nat) : Prop :=
  encrypted h.esfsMode = true → h.aesCtx = true ∧ notEncryptedFileHeaderSize h ≤ n

@[simp] theorem Handle.seal_nil (env : Env) (h : Handle) (n : Nat) : h.seal env n [] = [] := by
  unfold Handle.seal
  split <;> rfl

@[simp] theorem Handle.length_seal (env : Env) (h : Handle) (n : Nat) (bs : Bytes) : (h.seal env n bs).length = bs.length := by
  unfold Handle.seal
  split
  · exact length_xorFrom _ bs
  · rfl

variable {h : Handle}

theorem Handle.seal_append (env : Env) {n : Nat} {bs : Bytes} (hn : bs ≠ [] → h.CanStore n)
    (cs : Bytes) : h.seal env n (bs ++ cs) = h.seal env n bs ++ h.seal env (n + bs.length) cs := by
  by_cases hbs : bs = []
  · rw [hbs, nil_append, seal_nil, nil_append, length_nil, Nat.add_zero]
  unfold Handle.seal
  split_ifs with henc
  · have hle := (hn hbs henc).2
    rw [xorFrom_append, Nat.sub_add_comm hle]
  · rfl

section StoreBytes

variable {env : Env} {d : Disk} {p : Path} {c : Bytes} {sig : Option CmacCtx} {invalid : Bool} {s : State}

variable {C : Prop} (hw : Writing d h p c sig invalid s)
include hw

theorem fsFtell_stores : Stores env C (Proc.failWith EsfsError.error (file (fsFtell env))) s
    (fun pos s' => pos = c.length ∧ Unchanged s s') (Unchanged s) := by
  have hfile : s.handle.file = some ⟨p, c.length⟩ := by rw [hw.handle]
  have hself : (file (fsFtell env) s : Except PalError Nat × State) = pal (compute env (.ok c.length)) s := by
    unfold file pal Proc.within fsFtell
    dsimp only
    rw [hfile]
    dsimp only
    rw [← hfile]
  have h : Stores env C (Proc.failWith EsfsError.error (pal (compute env (.ok c.length)))) s
      (fun pos s' => pos = c.length ∧ Unchanged s s') (Unchanged s) :=
    (compute_stores _ _ fun _ => ⟨_, rfl⟩).imp (fun pos s' hs => ⟨(Except.ok.inj hs.1).symm, hs.2⟩) fun _ hs => hs
  unfold Stores Proc.Meets Ends Proc.failWith at h ⊢
  rwa [hself]

theorem calcFilePosForAes_stores (hC : C → notEncryptedFileHeaderSize h ≤ c.length) :
    Stores env C (calcFilePosForAes env) s
      (fun position s' => (notEncryptedFileHeaderSize h ≤ c.length ∧
        position = c.length - notEncryptedFileHeaderSize h) ∧ Unchanged s s') (Unchanged s) := by
  refine (fsFtell_stores hw).bind ?_ fun _ hs => hs
  rintro _ s1 ⟨rfl, hs1⟩
  refine ((hw.unchanged hs1).get rfl).bind ?_ fun _ hs => hs
  rintro _ s2 ⟨rfl, rfl⟩
  refine (Proc.Meets.require (A := fun _ s' => notEncryptedFileHeaderSize h ≤ c.length ∧ s' = s2)
    (fun hc => decide_eq_true (hC hc)) (fun hle => ⟨of_decide_eq_true hle, rfl⟩) hs1).bind ?_ fun _ hs => hs
  rintro _ s3 ⟨hle, rfl⟩
  exact .pure ⟨⟨hle, rfl⟩, hs1⟩

theorem encryptFwriteAndCalcCmac_stores {bs : Bytes}
    (hC : C → sig.isSome ∧ h.aesCtx = true ∧ notEncryptedFileHeaderSize h ≤ c.length ∧ c.length + bs.length ≤ maxPosition) :
    StoresAll env C (encryptFwriteAndCalcCmac env bs) s d h p c sig invalid
      (xorFrom (keyStream env h.nonce) (c.length - notEncryptedFileHeaderSize h)) bs
      (h.aesCtx = true ∧ notEncryptedFileHeaderSize h ≤ c.length) := by
  refine (calcFilePosForAes_stores hw fun hc => (hC hc).2.2.1).bind ?_
    fun s' hs => appended_nothing (xorFrom_nil _) (hw.unchanged hs) _
  rintro _ s1 ⟨⟨hle, rfl⟩, hs1⟩
  refine (encryptPieces_stores _ (hw.unchanged hs1) (sum_pieceSizes _ _) fun hc => ?_).imp ?_ ?_
  · obtain ⟨hsig, haes, -, hmax⟩ := hC hc
    exact ⟨hsig, haes, fun n hn => (pos_of_mem_pieceSizes (by decide) hn).1, hmax⟩
  · rintro u s' ⟨hs', htrue⟩
    exact ⟨hs', fun hne => ⟨htrue hne, hle⟩⟩
  · rintro s' ⟨part, sig', invalid', hpart, hctx, hs', hok⟩
    exact ⟨part, sig', invalid', hpart, fun hne => ⟨hctx hne, hle⟩, hs', hok⟩

theorem storeBytes_stores {bs : Bytes}
    (hC : C → sig.isSome ∧ h.CanStore c.length ∧ bs ≠ [] ∧ c.length + bs.length ≤ maxPosition) :
    StoresAll env C (storeBytes env bs) s d h p c sig invalid (h.seal env c.length) bs (h.CanStore c.length) := by
  refine (hw.get rfl).bind ?_ fun _ hs => hs
  rintro _ s0 ⟨rfl, rfl⟩
  by_cases henc : encrypted h.esfsMode = true
  · have hseal : h.seal env c.length = xorFrom (keyStream env h.nonce) (c.length - notEncryptedFileHeaderSize h) := by
      funext bs
      exact if_pos henc
    have hcan : h.CanStore c.length ↔ (h.aesCtx = true ∧ notEncryptedFileHeaderSize h ≤ c.length) :=
      ⟨fun hc => hc henc, fun hc _ => hc⟩
    rw [if_pos henc, hseal, hcan]
    refine encryptFwriteAndCalcCmac_stores hw fun hc => ?_
    obtain ⟨hsig, hcan, -, hle⟩ := hC hc
    exact ⟨hsig, (hcan henc).1, (hcan henc).2, hle⟩
  · have hseal : h.seal env c.length = id := by
      funext bs
      exact if_neg henc
    rw [if_neg henc, hseal]
    exact fwriteAndCalcCmac_stores hw (fun h => absurd h henc) fun hc => ⟨(hC hc).1, (hC hc).2.2⟩

/-- A buffer that is given to `esfs_write` is stored up to some byte, whatever fails. -/
theorem esfsWrite_stores {bs : Bytes} (hC : C → h.blobNameLength ≠ 0 ∧ h.fileFlag = .write ∧
      (sig.isSome ∧ h.CanStore c.length ∧ bs ≠ [] ∧ c.length + bs.length ≤ maxPosition)) :
    StoresAll env C (esfsWrite env bs) s d h p c sig invalid (h.seal env c.length) bs (h.CanStore c.length) := by
  have hnothing : Appended d h p c sig invalid (h.seal env c.length) bs (h.CanStore c.length) (.error .error) s :=
    appended_nothing (Handle.seal_nil env h c.length) hw _
  have hvalid : Stores env C (validate) s (fun _ s' => s' = s) (fun s' => s' = s) := by
    refine (hw.get rfl).bind ?_ fun _ hs => hs
    rintro _ s' ⟨rfl, rfl⟩
    exact .require (fun hc => decide_eq_true (hC hc).1) (fun _ => rfl) rfl
  refine hvalid.bind ?_ fun s' hs => hs ▸ hnothing
  rintro _ s1 rfl
  refine (Proc.Meets.require (A := fun _ s' => s' = s1) (fun hc => decide_eq_true (hC hc).2.2.2.2.1) (fun _ => rfl)
    hnothing).bind ?_ fun _ hs => hs
  rintro _ s2 rfl
  refine (hw.get (a := h.fileFlag) rfl).bind ?_ fun _ hs => hs
  rintro _ s3 ⟨rfl, rfl⟩
  refine (Proc.Meets.require (A := fun _ s' => s' = s3) (fun hc => ?_) (fun _ => rfl) hnothing).bind ?_ fun _ hs => hs
  · rw [(hC hc).2.1]
    rfl
  rintro _ s4 rfl
  exact .onError (storeBytes_stores hw fun hc => (hC hc).2.2).failWith (fun s' ha => ha.setInvalid .error)
    fun _ hq => hq

end StoreBytes

/-! ## Runs of `esfs_write` -/

/-- A caller that writes some buffers, one after the other: the results and the state after it. -/
def esfsWrites (env : Env) : List Bytes → State → List (Except EsfsError Unit) × State
  | [], s => ([], s)
  | bs :: bss, s =>
    let r := esfsWrite env bs s
    let rest := esfsWrites env bss r.2
    (r.1 :: rest.1, rest.2)

/-- What has been stored of a buffer, by the result of writing it. -/
def Kept (r : Except EsfsError Unit) (bs part : Bytes) : Prop := part <+: bs ∧ (r = .ok () → part = bs)

/-- What has been stored of each buffer. -/
def KeptAll : List (Except EsfsError Unit) → List Bytes → List Bytes → Prop
  | r :: rs, bs :: bss, part :: parts => Kept r bs part ∧ KeptAll rs bss parts
  | [], [], [] => True
  | _, _, _ => False

theorem KeptAll.eq_of_ok {rs : List (Except EsfsError Unit)} {bss parts : List Bytes}
    (h : KeptAll rs bss parts) (hok : ∀ r ∈ rs, r = .ok ()) : parts = bss := by
  induction rs generalizing bss parts with
  | nil =>
    cases bss with
    | nil =>
      cases parts with
      | nil => rfl
      | cons part parts => cases h
    | cons bs bss => cases h
  | cons r rs ih =>
    cases bss with
    | nil => cases h
    | cons bs bss =>
      cases parts with
      | nil => cases h
      | cons part parts =>
        obtain ⟨hkept, hrest⟩ := h
        rw [hkept.2 (hok r (.head _)), ih hrest fun r' hr' => hok r' (mem_cons_of_mem r hr')]

theorem esfsWrites_stored (env : Env) {d : Disk} {p : Path} (bss : List Bytes)
    {c : Bytes} {sig : Option CmacCtx} {invalid : Bool} {s : State} (hw : Writing d h p c sig invalid s) :
    ∃ parts sig' invalid', KeptAll (esfsWrites env bss s).1 bss parts ∧ (parts.flatten ≠ [] → h.CanStore c.length) ∧
      Writing d h p (c ++ h.seal env c.length parts.flatten) sig' invalid' (esfsWrites env bss s).2 ∧
      ((∀ r ∈ (esfsWrites env bss s).1, r = .ok ()) →
        sig' = sig.map (· ++ h.seal env c.length parts.flatten) ∧ invalid' = invalid) := by
  induction bss generalizing c sig invalid s with
  | nil =>
    refine ⟨[], sig, invalid, trivial, fun hne => absurd rfl hne, ?_, fun _ => ⟨?_, rfl⟩⟩
    · rwa [flatten_nil, Handle.seal_nil, append_nil]
    rw [flatten_nil, Handle.seal_nil]
    cases sig with
    | none => rfl
    | some ctx => exact congrArg some (append_nil ctx).symm
  | cons bs bss ih =>
    obtain ⟨part, sig1, invalid1, hpart, hcan1, hs1, hok1⟩ := (esfsWrite_stores (C := False) hw nofun).appended
    obtain ⟨parts, sig2, invalid2, hparts, hcan2, hs2, hok2⟩ := ih hs1
    have hlen : (c ++ h.seal env c.length part).length = c.length + part.length := by rw [length_append, Handle.length_seal]
    rw [hlen] at hcan2 hs2 hok2
    have hseal := Handle.seal_append env hcan1 parts.flatten
    refine ⟨part :: parts, sig2, invalid2, ⟨⟨hpart, fun hr => (hok1 hr).1⟩, hparts⟩, ?_, ?_, ?_⟩
    · intro hne
      by_cases hnil : part = []
      · subst hnil
        exact hcan2 hne
      · exact hcan1 hnil
    · rw [flatten_cons, hseal, ← append_assoc]
      exact hs2
    intro hall
    obtain ⟨rfl, rfl, rfl⟩ := hok1 (hall _ (.head _))
    obtain ⟨rfl, rfl⟩ := hok2 fun r hr => hall r (.tail _ hr)
    refine ⟨?_, rfl⟩
    rw [flatten_cons, hseal]
    cases sig with
    | none => rfl
    | some ctx => exact congrArg some (append_assoc _ _ _)

end MbedCloud.Storage

