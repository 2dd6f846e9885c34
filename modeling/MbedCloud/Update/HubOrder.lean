import MbedCloud.Update.Hub

/-!
# What comes before an activation

`steps` are the entries of the log that have to come, in this order, between the hub's last notification and a
call of `Activate`. The number of steps that are behind is a function of the state (`stage`), together with
what is known of the firmware information and the configuration (`Data`); every state keeps it
(`arrive_settled`), and so does every event (`deliver_settled`).
-/

namespace MbedCloud.Update.Machine

open Lib

/-! ## Statement -/

def IsNotified (e : Entry) : Prop := e = .enter .notified

/-- What has to come before an activation for the manifest `m`, since the hub was last notified. -/
def steps (env : Env) (m : Chunk) : List (Entry → Prop) :=
  [(· = .event .notified (.sourceManager (.manifest m))), (· = .event .manifestFetched (.manifestManager .done)),
   (fun e => ∃ version, version < (env.firmwareInfo m.val).timestamp ∧ e = .compare (env.firmwareInfo m.val).timestamp version),
   (· = .event .waitForDownloadAuthorization (.controlCenter .authorizeDownload)),
   (· = .event .setupFirmware (.firmwareManager .prepareDone)),
   (· = .event .finalizeStorage (.firmwareManager .finalizeDone)),
   (· = .event .waitForInstallAuthorization (.controlCenter .authorizeInstall))]

/-- The version of the firmware details that the hub has received last, 0 before. -/
def activeVersion : List Entry → Nat :=
  List.foldl (fun version e =>
    match e with
    | .event _ (.firmwareManager (.getActiveFirmwareDetailsDone details)) => details.version
    | _ => version) 0

/-- A timestamp is compared with the active version. -/
def Compared (before : List Entry) (e : Entry) : Prop :=
  ∀ timestamp version, e = .compare timestamp version → version = activeVersion before

/-- An activation is of the package of a manifest, and all steps for this manifest have been taken. -/
def Justified (env : Env) (before : List Entry) (e : Entry) : Prop :=
  ∀ p setup, e = .call (.activate p setup) →
    ∃ m : Chunk, Since IsNotified (steps env m) before ∧ p = packageId (env.firmwareInfo m.val).strgId ∧
      setup.packageId = p ∧ setup.hash = some (env.firmwareInfo m.val).hash ∧
      setup.packageSize = (env.firmwareInfo m.val).size

/-- The first steps have been taken. -/
def Past (env : Env) (m : Chunk) (n : Nat) (log : List Entry) : Prop := Since IsNotified ((steps env m).take n) log

/-- The mode, the key and the vector are those of a manifest, and the key was fetched for it. Without a cipher only the mode
is set: the pointers to the key and the vector stay as an earlier manifest left them. -/
def CipherSet (env : Env) (m : Chunk) (log : List Entry) (setup : Setup) : Prop :=
  match (env.firmwareInfo m.val).cipherMode with
  | .none => setup.mode = .noneSha256
  | .psk => ∃ key, Since IsNotified [(· = .call (.preSharedKey (some key)))] log ∧
      setup.mode = .aesCtr128Sha256 ∧ setup.key = some (env.decrypt key (env.firmwareInfo m.val).cipherKey) ∧
      setup.iv = some (env.firmwareInfo m.val).initVector
  | _ => False

/-- The cipher of a manifest is not supported, or there was no key for it. -/
def CipherFailed (env : Env) (m : Chunk) (log : List Entry) : Prop :=
  match (env.firmwareInfo m.val).cipherMode with
  | .none => False
  | .psk => Since IsNotified [(· = .call (.preSharedKey none))] log
  | _ => True

/-- The storage is prepared for a manifest, with the cipher that was set for it, or that could not be set. -/
def Prepared (env : Env) (before : List Entry) (e : Entry) : Prop :=
  ∀ setup details, e = .call (.prepare setup details) →
    ∃ m : Chunk, Past env m 4 before ∧ (CipherSet env m before setup ∨ CipherFailed env m before)

/-- Activations, preparations and comparisons are in order. -/
structure InPlace (env : Env) (before : List Entry) (e : Entry) : Prop where
  justified : Justified env before e
  prepared : Prepared env before e
  compared : Compared before e

/-! ## Stages -/

def stage : HubState → Option Nat
  | .manifestFetched => some 1
  | .manifestComplete | .checkVersion => some 2
  | .prepareFirmwareSetup | .requestDownloadAuthorization | .waitForDownloadAuthorization => some 3
  | .downloadAuthorized | .setupFirmware => some 4
  | .fetchFirstFragment | .storeAndDownload | .waitForStorage | .waitForNetwork | .storeLastFragment
  | .finalizeStorage => some 5
  | .storageFinalized | .waitForInstallAuthorization => some 6
  | .installAuthorized | .activateFirmware => some 7
  | _ => none

structure Configured (env : Env) (m : Chunk) (h : Hub) : Prop where
  fwinfo : h.fwinfo = env.firmwareInfo m.val
  packageId : h.config.packageId = packageId (env.firmwareInfo m.val).strgId
  packageSize : h.config.packageSize = (env.firmwareInfo m.val).size
  hash : h.config.hash = true

def Keyed (env : Env) (m : Chunk) (h : Hub) : Prop := CipherSet env m h.log h.setup ∨ CipherFailed env m h.log

/-- What is known of a manifest in a state. -/
def Data (env : Env) (m : Chunk) (s : HubState) (h : Hub) : Prop :=
  match s with
  | .manifestFetched | .manifestComplete => h.manifest = m.val
  | .checkVersion | .prepareFirmwareSetup => h.fwinfo = env.firmwareInfo m.val
  | .requestDownloadAuthorization | .waitForDownloadAuthorization | .downloadAuthorized | .setupFirmware =>
    Configured env m h ∧ Keyed env m h
  | _ => Configured env m h

def Underway (env : Env) (s : HubState) (h : Hub) : Prop := ∀ n ∈ stage s, ∃ m, Past env m n h.log ∧ Data env m s h

/-- What holds in every state: the log is in order, the active version is the one received last, and the two buffers are
different ones. -/
structure Sound (env : Env) (h : Hub) : Prop where
  inPlace : Each (InPlace env) h.log
  version : h.active.version = activeVersion h.log
  apart : h.front.ptr ≠ h.back.ptr

/-- What holds when a state is about to be entered. -/
def Ready (env : Env) (s : HubState) (h : Hub) : Prop :=
  Sound env h ∧
    if s = .manifestFetched then ∃ m, Past env m 1 h.log ∧ h.front.bytes = m.val else Underway env s h

/-- What holds in a state. -/
def Settled (env : Env) (s : HubState) (h : Hub) : Prop :=
  Sound env h ∧ Underway env s h ∧ (s = .notified → Since IsNotified [] h.log) ∧
    (s = .manifestFetched → h.state = .manifestFetched)

/-! ## What most code leaves alone -/

/-- An event with which data is written that the hub relies on. -/
def Event.writes : Event → Bool
  | .manifestManager .needFw | .firmwareManager (.getActiveFirmwareDetailsDone _) => true
  | _ => false

/-- An entry that is no notification, no activation, no preparation and no comparison, and brings no data. -/
def Plain : Entry → Prop
  | .enter s => s ≠ .notified
  | .event _ event => event.writes = false
  | .compare .. | .call (.activate _ _) | .call (.prepare _ _) => False
  | _ => True

/-- The data that the hub relies on is left alone, and nothing but plain entries are added to the log. -/
structure Quiet (h h' : Hub) : Prop where
  manifest : h'.manifest = h.manifest
  fwinfo : h'.fwinfo = h.fwinfo
  config : h'.config = h.config
  plainKey : h'.plainKey = h.plainKey
  active : h'.active = h.active
  apart : h.front.ptr ≠ h.back.ptr → h'.front.ptr ≠ h'.back.ptr
  log : ∃ es, h'.log = h.log ++ es ∧ ∀ e ∈ es, Plain e

variable {e : Entry} {m : Chunk}

section Quiet

variable {env : Env} {a : Answers} {h h' h'' : Hub} {s : HubState}

theorem Quiet.refl (h : Hub) : Quiet h h := ⟨rfl, rfl, rfl, rfl, rfl, id, [], by simp, by simp⟩

theorem Quiet.trans (h1 : Quiet h h') (h2 : Quiet h' h'') : Quiet h h'' := by
  obtain ⟨es1, hlog1, hplain1⟩ := h1.log
  obtain ⟨es2, hlog2, hplain2⟩ := h2.log
  refine ⟨h2.manifest.trans h1.manifest, h2.fwinfo.trans h1.fwinfo, h2.config.trans h1.config,
    h2.plainKey.trans h1.plainKey, h2.active.trans h1.active, h2.apart ∘ h1.apart, es1 ++ es2, ?_, ?_⟩
  · rw [hlog2, hlog1, List.append_assoc]
  intro e he
  rcases List.mem_append.mp he with he | he
  · exact hplain1 e he
  · exact hplain2 e he

theorem Quiet.record (hq : Quiet h h') (he : Plain e) : Quiet h (h'.record e) :=
  hq.trans ⟨rfl, rfl, rfl, rfl, rfl, id, [e], rfl, by simpa using he⟩

theorem Plain.not_isNotified (he : Plain e) : ¬ IsNotified e := fun heq => (heq ▸ he : Plain (.enter .notified)) rfl

theorem Quiet.since {ps : List (Entry → Prop)} (hq : Quiet h h') (hs : Since IsNotified ps h.log) :
    Since IsNotified ps h'.log := by
  obtain ⟨es, hlog, hplain⟩ := hq.log
  rw [hlog]
  exact hs.append fun e he => (hplain e he).not_isNotified

theorem Plain.inPlace {before : List Entry} (he : Plain e) : InPlace env before e :=
  ⟨fun _ _ heq => (heq ▸ he : Plain (.call (.activate _ _))).elim,
    fun _ _ heq => (heq ▸ he : Plain (.call (.prepare _ _))).elim, fun _ _ heq => (heq ▸ he : Plain (.compare _ _)).elim⟩

theorem activeVersion_snoc (log : List Entry) (he : ∀ s details,
      e ≠ .event s (.firmwareManager (.getActiveFirmwareDetailsDone details))) :
    activeVersion (log ++ [e]) = activeVersion log := by
  unfold activeVersion
  rw [List.foldl_append, List.foldl_cons, List.foldl_nil]
  split
  · exact absurd rfl (he _ _)
  · rfl

theorem activeVersion_plain {log es : List Entry} (hes : ∀ e ∈ es, Plain e) : activeVersion (log ++ es) = activeVersion log := by
  induction es generalizing log with
  | nil => rw [List.append_nil]
  | cons e es ih =>
    obtain ⟨he, hes⟩ := List.forall_mem_cons.mp hes
    rw [List.append_cons, ih hes, activeVersion_snoc]
    rintro s details rfl
    cases he

/-- Plain entries keep what holds in every state. -/
theorem Sound.plain (hl : Sound env h) {es : List Entry} (hlog : h'.log = h.log ++ es) (hplain : ∀ e ∈ es, Plain e)
    (hactive : h'.active = h.active) (hapart : h'.front.ptr ≠ h'.back.ptr) : Sound env h' where
  inPlace := by
    rw [hlog]
    exact hl.inPlace.append fun e he before => (hplain e he).inPlace
  version := by rw [hactive, hlog, activeVersion_plain hplain, hl.version]
  apart := hapart

theorem Quiet.sound (hq : Quiet h h') (hl : Sound env h) : Sound env h' := by
  obtain ⟨es, hlog, hplain⟩ := hq.log
  exact hl.plain hlog hplain hq.active (hq.apart hl.apart)

/-- An entry in its place that brings no data. -/
theorem Sound.record (hl : Sound env h) (he : InPlace env h.log e)
    (hne : ∀ s details, e ≠ .event s (.firmwareManager (.getActiveFirmwareDetailsDone details))) :
    Sound env (h.record e) :=
  ⟨hl.inPlace.snoc he, hl.version.trans (activeVersion_snoc h.log hne).symm, hl.apart⟩

variable {log log' : List Entry} {c : Call}

theorem CipherSet.mono {setup : Setup} (hc : CipherSet env m log setup)
    (hlog : ∀ ps, Since IsNotified ps log → Since IsNotified ps log') : CipherSet env m log' setup := by
  unfold CipherSet at hc ⊢
  split at hc
  · exact hc
  · obtain ⟨key, hkey, hrest⟩ := hc
    exact ⟨key, hlog _ hkey, hrest⟩
  · exact hc

theorem CipherFailed.mono (hc : CipherFailed env m log)
    (hlog : ∀ ps, Since IsNotified ps log → Since IsNotified ps log') : CipherFailed env m log' := by
  unfold CipherFailed at hc ⊢
  split at hc
  · exact hc
  · exact hlog _ hc
  · exact hc

section

variable (hq : Quiet h h')
include hq

theorem Quiet.setup : h'.setup = h.setup := by
  unfold Hub.setup
  rw [hq.config, hq.plainKey, hq.fwinfo]

theorem Quiet.keyed (hk : Keyed env m h) : Keyed env m h' := by
  unfold Keyed at hk ⊢
  rw [hq.setup]
  exact hk.imp (fun hc => hc.mono fun _ => hq.since) (fun hc => hc.mono fun _ => hq.since)

theorem Quiet.configured (hc : Configured env m h) : Configured env m h' :=
  ⟨hq.fwinfo.trans hc.fwinfo, by rw [hq.config, hc.packageId], by rw [hq.config, hc.packageSize], by rw [hq.config, hc.hash]⟩

theorem Quiet.data (hd : Data env m s h) : Data env m s h' := by
  unfold Data at hd ⊢
  split at hd
  · exact hq.manifest.trans hd
  · exact hq.manifest.trans hd
  · exact hq.fwinfo.trans hd
  · exact hq.fwinfo.trans hd
  · exact ⟨hq.configured hd.1, hq.keyed hd.2⟩
  · exact ⟨hq.configured hd.1, hq.keyed hd.2⟩
  · exact ⟨hq.configured hd.1, hq.keyed hd.2⟩
  · exact ⟨hq.configured hd.1, hq.keyed hd.2⟩
  · exact hq.configured hd

theorem Quiet.underway (hu : Underway env s h) : Underway env s h' := by
  intro n hn
  obtain ⟨m, hpast, hdata⟩ := hu n hn
  exact ⟨m, hq.since hpast, hq.data hdata⟩

end

theorem setErrorUnknown_quiet (h : Hub) : Quiet h (setErrorUnknown env a h) :=
  ⟨rfl, rfl, rfl, rfl, rfl, id, [.enter .errorUnknown, .enter .idle, .call (.reportState .idle)],
    by simp [setErrorUnknown, settle, arrive, enter, Hub.record, Hub.call], by simp [Plain]⟩

theorem Quiet.call (hq : Quiet h h') (hc : Plain (.call c)) : Quiet h (h'.call c) := hq.record hc

theorem errorHandler_quiet (error : HubError) (h : Hub) : Quiet h (errorHandler (setErrorUnknown env a) error h) :=
  ((Quiet.refl h).call (by trivial) |>.call (by trivial)).trans (setErrorUnknown_quiet _)

theorem fetchNext_quiet (h : Hub) : Quiet h (fetchNext a h).1 := by
  unfold fetchNext
  have hfront : Quiet h { h with front := { h.front with bytes := [] } } := ⟨rfl, rfl, rfl, rfl, rfl, id, [], by simp, by simp⟩
  split_ifs
  · exact hfront.call (by trivial)
  · exact (hfront.call (by trivial)).call (by trivial)
  · exact (Quiet.refl h).call (by trivial)

theorem storeFragment_quiet (h : Hub) : Quiet h (storeFragment a h).1 := by
  unfold storeFragment
  have hswap : Quiet h { h with
      front := h.back, back := h.front, firmwareOffset := u32 (h.firmwareOffset + h.front.size) } :=
    ⟨rfl, rfl, rfl, rfl, rfl, Ne.symm, [], by simp, by simp⟩
  dsimp only
  split_ifs
  · exact hswap.call (by trivial)
  · exact (hswap.call (by trivial)).trans (fetchNext_quiet _)
  · exact hswap.trans (fetchNext_quiet _)

theorem fetchFirst_quiet (h : Hub) : Quiet h (fetchFirst a h).1 := by
  unfold fetchFirst
  have hreport : Quiet h (h.call (.reportState .downloading)) := (Quiet.refl h).call (by trivial)
  have hreset : Quiet h { h.call (.reportState .downloading) with
      front := { h.front with bytes := [] }, back := { h.back with bytes := [] }, firmwareOffset := 0 } :=
    hreport.trans ⟨rfl, rfl, rfl, rfl, rfl, id, [], by simp, by simp⟩
  dsimp only
  split_ifs <;> exact hreset.call (by trivial)

end Quiet

/-! ## One state -/

section

variable {env : Env} {a : Answers} {h h' : Hub} {s s' : HubState} {n : Nat}

theorem Past.advance {p : Entry → Prop} {log : List Entry} (hpast : Past env m n log)
    (hstep : (steps env m)[n]? = some p) (he : ¬ IsNotified e) (hp : p e) : Past env m (n + 1) (log ++ [e]) := by
  unfold Past
  rw [List.take_add_one, hstep]
  exact hpast.snoc he hp

theorem Underway.trivial (hs : stage s = none) : Underway env s h := by
  intro n hn
  rw [hs] at hn
  cases hn

/-- Two states of the same stage, in which the same is known. -/
theorem Underway.same (hu : Underway env s h) (hstage : stage s' = stage s)
    (hdata : ∀ m, Data env m s h → Data env m s' h) : Underway env s' h := by
  intro n hn
  rw [hstage] at hn
  obtain ⟨m, hpast, hd⟩ := hu n hn
  exact ⟨m, hpast, hdata m hd⟩

section

variable (hlog : Sound env h)
include hlog

theorem settled_of_quiet (hu : Underway env s' h) (hq : Quiet h h')
    (hnotified : s' ≠ .notified) (hfetched : s' ≠ .manifestFetched) : Settled env s' h' :=
  ⟨hq.sound hlog, hq.underway hu, fun hs => absurd hs hnotified, fun hs => absurd hs hfetched⟩

theorem settled_idle : Settled env .idle h := settled_of_quiet hlog (Underway.trivial rfl) (Quiet.refl h) (by simp) (by simp)

/-- A state whose next state is the state itself, or `idle`. -/
theorem settled_of_self_or_idle (hu : Underway env s h) (hq : Quiet h h')
    (hnotified : s ≠ .notified) (hfetched : s ≠ .manifestFetched) (hs' : s' = s ∨ s' = .idle) : Settled env s' h' := by
  rcases hs' with rfl | rfl
  · exact settled_of_quiet hlog hu hq hnotified hfetched
  · exact settled_idle (hq.sound hlog)

end

def Hub.stored (h : Hub) (s : HubState) : Hub := { h with state := s }.record (.enter s)

theorem stored_quiet (h : Hub) (hs : s ≠ .notified) : Quiet h (h.stored s) :=
  ⟨rfl, rfl, rfl, rfl, rfl, id, [.enter s], rfl, by simp [Plain, hs]⟩

theorem fetchFirst_settled (hlog : Sound env h) (hu : Underway env .fetchFirstFragment h) :
    Settled env (fetchFirst a h).2 (fetchFirst a h).1 := by
  have hq := fetchFirst_quiet (a := a) h
  have hfinalize : Underway env .finalizeStorage h := hu.same rfl fun _ hd => hd
  unfold fetchFirst at hq ⊢
  dsimp only at hq ⊢
  split_ifs at hq ⊢
  · exact settled_of_self_or_idle hlog hu hq (by simp) (by simp) (handleError_eq _ _)
  · exact settled_of_quiet hlog hfinalize hq (by simp) (by simp)

theorem fetchNext_state : (fetchNext a h).2 = .idle ∨ (fetchNext a h).2 = .storeAndDownload ∨
    (fetchNext a h).2 = .storeLastFragment := by
  unfold fetchNext
  split_ifs
  · exact .inl rfl
  · exact .inr (.inl rfl)
  · exact .inr (.inr rfl)

theorem storeFragment_state : (storeFragment a h).2 = .idle ∨ (storeFragment a h).2 = .storeAndDownload ∨
    (storeFragment a h).2 = .storeLastFragment := by
  unfold storeFragment
  dsimp only
  split_ifs
  · exact .inl rfl
  · exact fetchNext_state
  · exact fetchNext_state

theorem storeFragment_settled (hlog : Sound env h) (hu : Underway env .storeAndDownload h) :
    Settled env (storeFragment a h).2 (storeFragment a h).1 := by
  have hq := storeFragment_quiet (a := a) h
  rcases storeFragment_state (a := a) (h := h) with hs | hs | hs
  · rw [hs]
    exact settled_idle (hq.sound hlog)
  · rw [hs]
    exact settled_of_quiet hlog hu hq (by simp) (by simp)
  · rw [hs]
    exact settled_of_quiet hlog (hu.same rfl fun _ hd => hd) hq (by simp) (by simp)

theorem setCipher_frame (env : Env) (a : Answers) (s : HubState) (h : Hub) :
    (setCipher env a s h).1.fwinfo = h.fwinfo ∧ (setCipher env a s h).1.config.packageSize = h.config.packageSize ∧
      (setCipher env a s h).1.config.hash = h.config.hash ∧ (setCipher env a s h).1.active = h.active ∧
      (setCipher env a s h).1.front = h.front ∧ (setCipher env a s h).1.back = h.back ∧
      ∃ es, (setCipher env a s h).1.log = h.log ++ es ∧ ∀ e ∈ es, Plain e := by
  unfold setCipher
  have hkey : ∀ e ∈ [Entry.call (.preSharedKey a.preSharedKey)], Plain e := by simp [Plain]
  split
  case h_2 =>
    dsimp only
    split <;> exact ⟨rfl, rfl, rfl, rfl, rfl, rfl, _, rfl, hkey⟩
  all_goals exact ⟨rfl, rfl, rfl, rfl, rfl, rfl, [], by simp, by simp⟩

theorem setCipher_keyed (a : Answers) (s : HubState) (hfw : h.fwinfo = env.firmwareInfo m.val)
    (hsince : Since IsNotified [] h.log) : Keyed env m (setCipher env a s h).1 := by
  have hcall : ∀ key, Since IsNotified [(· = .call (.preSharedKey key))] (h.log ++ [.call (.preSharedKey key)]) := by
    intro key
    have hnext := hsince.snoc (e := .call (.preSharedKey key)) (p := fun e => e = .call (.preSharedKey key)) (by nofun) rfl
    exact hnext
  unfold setCipher Keyed CipherSet CipherFailed
  rw [← hfw]
  cases hmode : h.fwinfo.cipherMode with
  | none => exact .inl rfl
  | psk =>
    cases hkey : a.preSharedKey with
    | none => exact .inr (hcall none)
    | some key => exact .inl ⟨key, hcall (some key), rfl, rfl, rfl⟩
  | _ => exact .inr trivial

theorem prepareSetup_settled (hlog : Sound env h) (hu : Underway env .prepareFirmwareSetup h) :
    Settled env (prepareSetup env a (setErrorUnknown env a) h).2 (prepareSetup env a (setErrorUnknown env a) h).1 := by
  unfold prepareSetup
  dsimp only
  split
  · exact settled_idle ((errorHandler_quiet _ _).sound ⟨hlog.inPlace, hlog.version, hlog.apart⟩)
  rename_i uri huri
  obtain ⟨m, hpast, hdata⟩ := hu 3 rfl
  have hfw : h.fwinfo = env.firmwareInfo m.val := hdata
  obtain ⟨hinfo, hsize, hhash, hactive, hfront, hback, es, hes, hplain⟩ := setCipher_frame env a .prepareFirmwareSetup
    { h with uri := some uri, config := { h.config with hash := true, packageSize := h.fwinfo.size } }
  have hkeyed := setCipher_keyed (h := { h with
    uri := some uri, config := { h.config with hash := true, packageSize := h.fwinfo.size } })
    a .prepareFirmwareSetup hfw hpast.marked
  refine ⟨hlog.plain hes hplain hactive (by rw [hfront, hback]; exact hlog.apart), ?_, (by simp), (by simp)⟩
  intro n hn
  obtain rfl := Option.mem_some_iff.mp hn
  refine ⟨m, ?_, ⟨hinfo.trans hfw, ?_, hsize.trans ?_, hhash⟩, hkeyed⟩
  · rw [hes]
    exact hpast.append fun e he => (hplain e he).not_isNotified
  · show packageId _ = _
    rw [hinfo, hfw]
  · show h.fwinfo.size = _
    rw [hfw]

theorem inPlace_activate (hu : Underway env .activateFirmware h) :
    InPlace env h.log (.call (.activate h.config.packageId h.setup)) := by
  refine ⟨?_, by nofun, by nofun⟩
  intro p setup heq
  cases heq
  obtain ⟨m, hpast, hdata⟩ := hu 7 rfl
  have hc : Configured env m h := hdata
  refine ⟨m, hpast, hc.packageId, rfl, ?_, hc.packageSize⟩
  simp [Hub.setup, hc.hash, hc.fwinfo]

/-- The storage is prepared with the cipher of the manifest. -/
theorem inPlace_prepare {details : Details} (hu : Underway env .setupFirmware h) :
    InPlace env h.log (.call (.prepare h.setup details)) := by
  refine ⟨by nofun, ?_, by nofun⟩
  intro setup details heq
  cases heq
  obtain ⟨m, hpast, hdata⟩ := hu 4 rfl
  exact ⟨m, hpast, hdata.2⟩

section

variable (hlog : Sound env h)
include hlog

theorem setupFirmware_settled (hu : Underway env .setupFirmware h) :
    Settled env (enter env a (setErrorUnknown env a) .setupFirmware h).2
      (enter env a (setErrorUnknown env a) .setupFirmware h).1 := by
  unfold enter
  generalize hd : Details.mk h.fwinfo.timestamp h.fwinfo.size (h.fwinfo.hash.take 32) = details
  have hcalled : Sound env (h.call (.prepare h.setup details)) := hlog.record (inPlace_prepare hu) (by nofun)
  have hlater : ∀ ps, Since IsNotified ps h.log → Since IsNotified ps (h.call (.prepare h.setup details)).log :=
    fun ps hs => hs.append (by simp [IsNotified])
  rcases handleError_eq a.prepare .setupFirmware with hs | hs
  · rw [hs]
    refine ⟨hcalled, ?_, (by simp), (by simp)⟩
    intro n hn
    obtain ⟨m, hpast, hc, hk⟩ := hu n hn
    exact ⟨m, hlater _ hpast, ⟨hc.fwinfo, hc.packageId, hc.packageSize, hc.hash⟩,
      hk.imp (fun hset => hset.mono hlater) (fun hfailed => hfailed.mono hlater)⟩
  · rw [hs]
    exact settled_idle hcalled

theorem checkVersion_settled (hu : Underway env .checkVersion h) :
    Settled env (enter env a (setErrorUnknown env a) .checkVersion h).2
      (enter env a (setErrorUnknown env a) .checkVersion h).1 := by
  have hcompared : Sound env (h.record (.compare h.fwinfo.timestamp h.active.version)) := by
    refine hlog.record ⟨by nofun, by nofun, ?_⟩ (by nofun)
    rintro _ _ ⟨⟩
    exact hlog.version
  unfold enter
  dsimp only
  split_ifs with hnewer
  · obtain ⟨m, hpast, hdata⟩ := hu 2 rfl
    have hfw : h.fwinfo = env.firmwareInfo m.val := hdata
    have hlt : h.active.version < h.fwinfo.timestamp := hnewer
    refine ⟨hcompared, ?_, (by simp), (by simp)⟩
    intro n hn
    obtain rfl := Option.mem_some_iff.mp hn
    refine ⟨m, hpast.advance rfl (by nofun) ⟨h.active.version, ?_, ?_⟩, hfw⟩
    · rw [← hfw]
      exact hlt
    · rw [← hfw]
  · exact settled_idle ((errorHandler_quiet _ _).sound hcompared)

theorem notified_settled : Settled env (arrive env a (setErrorUnknown env a) .notified h).2
      (arrive env a (setErrorUnknown env a) .notified h).1 := by
  have hstored : Sound env (h.stored .notified) :=
    ⟨hlog.inPlace.snoc ⟨by nofun, by nofun, by nofun⟩, hlog.version.trans (activeVersion_snoc h.log (by nofun)).symm, hlog.apart⟩
  have hsince : Since IsNotified [] (h.stored .notified).log := .start rfl
  have hq : Quiet (h.stored .notified) ((h.stored .notified).call (.getManifest h.front.ptr)) := (Quiet.refl _).call (by trivial)
  unfold arrive enter
  rcases handleError_eq a.getManifest .notified with hs | hs
  · rw [hs]
    exact ⟨hq.sound hstored, .trivial rfl, fun _ => hq.since hsince, (by simp)⟩
  · rw [hs]
    exact settled_idle (hq.sound hstored)

theorem manifestFetched_settled (hpast : Past env m 1 h.log) (hfront : h.front.bytes = m.val) :
    Settled env (arrive env a (setErrorUnknown env a) .manifestFetched h).2
      (arrive env a (setErrorUnknown env a) .manifestFetched h).1 := by
  have hstored := stored_quiet h (fun hs => nomatch hs : HubState.manifestFetched ≠ .notified)
  have hbytes : h.front.bytes.take manifestBufferSize = m.val := by
    rw [hfront]
    exact List.take_of_length_le (Nat.le_trans m.property (by decide))
  unfold arrive enter
  have hcall : ∀ g : Hub, Quiet g (g.call (.mmInsert h.front.bytes)) := fun g => (Quiet.refl g).call (by trivial)
  have hsound := hstored.sound hlog
  have hsaved : Underway env .manifestFetched
      { h.stored .manifestFetched with manifest := h.front.bytes.take manifestBufferSize } := by
    intro n hn
    obtain rfl := Option.mem_some_iff.mp hn
    exact ⟨m, hstored.since hpast, hbytes⟩
  rcases handlePending_eq a.mmInsert .manifestFetched with hs | hs
  · rw [hs]
    exact ⟨(hcall _).sound ⟨hsound.inPlace, hsound.version, hsound.apart⟩, (hcall _).underway hsaved, (by simp),
      fun _ => rfl⟩
  · rw [hs]
    exact settled_idle ((hcall _).sound ⟨hsound.inPlace, hsound.version, hsound.apart⟩)

end

theorem arrive_settled (hready : Ready env s h) :
    Settled env (arrive env a (setErrorUnknown env a) s h).2 (arrive env a (setErrorUnknown env a) s h).1 := by
  obtain ⟨hlog, hu⟩ := hready
  by_cases hnotified : s = .notified
  case pos =>
    subst hnotified
    exact notified_settled hlog
  by_cases hfetched : s = .manifestFetched
  case pos =>
    subst hfetched
    obtain ⟨m, hpast, hfront⟩ := hu
    exact manifestFetched_settled hlog hpast hfront
  rw [if_neg hfetched] at hu
  have hstored := stored_quiet h hnotified
  replace hlog := hstored.sound hlog
  replace hu := hstored.underway hu
  have hquiet : ∀ {c : Call}, Plain (.call c) → Quiet (h.stored s) ((h.stored s).call c) := fun hc => (Quiet.refl _).call hc
  have hself : ∀ {c : Call} {s' : HubState}, Plain (.call c) → s' = s ∨ s' = .idle →
      Settled env s' ((h.stored s).call c) := fun hc hs' =>
    settled_of_self_or_idle hlog hu (hquiet hc) hnotified hfetched hs'
  cases s with
  | notified => exact absurd rfl hnotified
  | manifestFetched => exact absurd rfl hfetched
  | getActiveFirmwareDetails | getInstallerDetails | finalizeStorage => exact hself trivial (handleError_eq _ _)
  | manifestComplete => exact hself trivial (handlePending_eq _ _)
  | setupFirmware => exact setupFirmware_settled hlog hu
  | storeLastFragment | idle => exact hself trivial (.inl rfl)
  | checkVersion => exact checkVersion_settled hlog hu
  | prepareFirmwareSetup => exact prepareSetup_settled hlog hu
  | fetchFirstFragment => exact fetchFirst_settled hlog hu
  | storeAndDownload => exact storeFragment_settled hlog hu
  | requestDownloadAuthorization | storageFinalized | installAuthorized =>
    exact settled_of_quiet hlog (hu.same rfl fun _ hd => hd) (hquiet (by trivial)) (by nofun) (by nofun)
  | downloadAuthorized => exact settled_of_quiet hlog (hu.same rfl fun _ hd => hd) (.refl _) (by nofun) (by nofun)
  | waitForDownloadAuthorization | waitForStorage | waitForNetwork | waitForInstallAuthorization =>
    exact settled_of_quiet hlog hu (.refl _) hnotified hfetched
  | activateFirmware =>
    refine ⟨hlog.record (inPlace_activate hu) (by nofun), ?_, (by nofun), (by nofun)⟩
    intro n hn
    obtain ⟨m, hpast, hdata⟩ := hu n hn
    have hc : Configured env m (h.stored .activateFirmware) := hdata
    exact ⟨m, hpast.append (by simp [IsNotified]), hc.fwinfo, hc.packageId, hc.packageSize, hc.hash⟩
  | reportActiveHash =>
    have hfront : Quiet (h.stored .reportActiveHash) { h.stored .reportActiveHash with
        front := { h.front with bytes := h.active.hash.take 32 } } := ⟨rfl, rfl, rfl, rfl, rfl, id, [], by simp, by simp⟩
    exact settled_of_quiet hlog (.trivial rfl) (hfront.call (by trivial)) (by nofun) (by nofun)
  | reportInstallerDetails => exact settled_idle (((hquiet (by trivial)).call (by trivial)).sound hlog)
  | initialized | reportActiveVersion | reboot =>
    exact settled_of_quiet hlog (.trivial rfl) (hquiet (by trivial)) (by nofun) (by nofun)
  | _ => exact settled_idle hlog

end

/-! ## One event -/

section

variable {env : Env} {a : Answers} {h : Hub} {s : HubState} {event : Event} {n : Nat}

theorem fill_log : (fill env event h).log = h.log := by
  unfold fill
  split <;> rfl

theorem received_log : (received env h event).log = h.log ++ [.event h.state event] := by rw [received, Hub.record, fill_log]

theorem received_sound (hlog : Sound env h) : Sound env (received env h event) where
  inPlace := by
    rw [received_log]
    exact hlog.inPlace.snoc ⟨by nofun, by nofun, by nofun⟩
  version := by
    rw [received_log]
    by_cases hdetails : ∃ details, event = .firmwareManager (.getActiveFirmwareDetailsDone details)
    · obtain ⟨details, rfl⟩ := hdetails
      rw [activeVersion, List.foldl_append]
      rfl
    rw [activeVersion_snoc]
    · unfold received fill
      split
      · exact absurd ⟨_, rfl⟩ hdetails
      all_goals exact hlog.version
    · rintro s details ⟨⟩
      exact hdetails ⟨details, rfl⟩
  apart := by
    unfold received fill
    split <;> exact hlog.apart

theorem received_quiet (hne : event.writes = false) : Quiet h (received env h event) := by
  have hfill : Quiet h (fill env event h) := by
    unfold fill
    split
    · cases hne
    · exact ⟨rfl, rfl, rfl, rfl, rfl, id, [], by simp, by simp⟩
    · cases hne
    · exact ⟨rfl, rfl, rfl, rfl, rfl, id, [], by simp, by simp⟩
    · exact ⟨rfl, rfl, rfl, rfl, rfl, id, [], by simp, by simp⟩
    · exact .refl h
  exact hfill.record hne

/-- How a state that an event sets goes on from the one before it. -/
inductive Leads (event : Event) (old : HubState) : HubState → Prop
  | start {t : HubState} (ht : stage t = none) : Leads event old t
  | fetched {bytes : Chunk} (hold : old = .notified) (he : event = .sourceManager (.manifest bytes)) :
    Leads event old .manifestFetched
  | needFw (hold : old = .manifestComplete) (he : event = .manifestManager .needFw) : Leads event old .checkVersion
  | same {t : HubState} (ht : stage t = stage old) (hfetched : t ≠ .manifestFetched)
    (hne : event.writes = false) (hdata : ∀ env m h, Data env m old h → Data env m t h) : Leads event old t
  | next {t : HubState} {k : Nat} (hold : stage old = some k) (ht : stage t = some (k + 1))
    (hfetched : t ≠ .manifestFetched) (hne : event.writes = false)
    (hstep : ∀ env m, ∃ p, (steps env m)[k]? = some p ∧ p (.event old event))
    (hdata : ∀ env m h, Data env m old h → Data env m t h) : Leads event old t

theorem leads_of_goto {old : HubState} (hgoto : handler event old = .goto s) : Leads event old s := by
  cases event with
  | firmwareManager event =>
    cases event <;> dsimp only [handler, firmwareManagerEventHandler] at hgoto
    case prepareDone =>
      split_ifs at hgoto with hs
      cases hgoto
      subst hs
      exact .next rfl rfl (by nofun) rfl (fun _ _ => ⟨_, rfl, rfl⟩) fun _ _ _ hd => hd.1
    case finalizeDone =>
      split_ifs at hgoto with hs
      cases hgoto
      subst hs
      exact .next rfl rfl (by nofun) rfl (fun _ _ => ⟨_, rfl, rfl⟩) fun _ _ _ hd => hd
    all_goals (try split_ifs at hgoto) <;> cases hgoto
    any_goals exact .start rfl
    -- a fragment was written
    all_goals
      rename_i hs
      subst hs
      exact .same rfl (by nofun) rfl fun _ _ _ hd => hd
  | manifestManager event =>
    have hdone : ∀ {event : ManifestManagerEvent}, event = .done ∨ old = .uninitialized →
        manifestManagerDone old = .goto s → Leads (.manifestManager event) old s := by
      intro event hevent hgoto
      unfold manifestManagerDone at hgoto
      split_ifs at hgoto with hs hs <;> cases hgoto
      · exact .start rfl
      subst hs
      obtain rfl := hevent.resolve_right (by nofun)
      exact .next rfl rfl (by nofun) rfl (fun _ _ => ⟨_, rfl, rfl⟩) fun _ _ _ hd => hd
    cases event <;> dsimp only [handler, manifestManagerEventHandler] at hgoto
    case error code =>
      split_ifs at hgoto with hs
      exact hdone (.inr hs.1) hgoto
    case needFw =>
      split_ifs at hgoto with hs
      cases hgoto
      exact .needFw hs rfl
    case done => exact hdone (.inl rfl) hgoto
    all_goals cases hgoto
  | sourceManager event =>
    cases event <;> dsimp only [handler, sourceManagerEventHandler] at hgoto
    case notification =>
      split_ifs at hgoto
      cases hgoto
      exact .start rfl
    case manifest bytes =>
      split_ifs at hgoto with hs
      cases hgoto
      exact .fetched hs rfl
    case firmware bytes =>
      split_ifs at hgoto with hs hs <;> cases hgoto
      · rcases hs with rfl | rfl <;> exact .same rfl (by nofun) rfl fun _ _ _ hd => hd
      · subst hs
        exact .same rfl (by nofun) rfl fun _ _ _ hd => hd
    all_goals cases hgoto
  | controlCenter event =>
    cases event <;> dsimp only [handler, controlCenterEventHandler] at hgoto <;>
      (try split_ifs at hgoto) <;> cases hgoto
    all_goals
      rename_i hs
      subst hs
      exact .next rfl rfl (by nofun) rfl (fun _ _ => ⟨_, rfl, rfl⟩) fun _ _ _ hd => hd

theorem ready_of_goto (hsettled : Settled env h.state h) (hgoto : handler event h.state = .goto s) :
    Ready env s (received env h event) := by
  refine ⟨received_sound hsettled.1, ?_⟩
  cases leads_of_goto hgoto with
  | start hs =>
    rw [if_neg (by rintro rfl; cases hs)]
    exact .trivial hs
  | @fetched bytes hold he =>
    subst he
    refine ⟨bytes, ?_, rfl⟩
    rw [received_log, hold]
    exact (hsettled.2.2.1 hold).snoc (by nofun) rfl
  | needFw hold he =>
    -- The firmware information is read from the manifest that was saved.
    subst he
    intro n hn
    obtain ⟨m, hpast, hd⟩ := hsettled.2.1 n (by rw [hold]; exact hn)
    rw [hold] at hd
    refine ⟨m, ?_, congrArg env.firmwareInfo hd⟩
    exact hpast.append (by simp [IsNotified])
  | same hs hfetched hne hdata =>
    rw [if_neg hfetched]
    exact (received_quiet hne).underway (hsettled.2.1.same hs fun m hd => hdata env m h hd)
  | next hold hs hfetched hne hstep hdata =>
    rw [if_neg hfetched]
    intro k hk
    rw [hs] at hk
    obtain rfl := Option.mem_some_iff.mp hk
    obtain ⟨m, hpast, hd⟩ := hsettled.2.1 _ hold
    obtain ⟨p, hp, he⟩ := hstep env m
    refine ⟨m, ?_, (received_quiet hne).data (hdata env m h hd)⟩
    rw [received_log]
    exact hpast.advance hp (by nofun) he

/-- An event that is ignored brings no data. -/
theorem writes_of_ignore (hignore : handler event h.state = .ignore) : event.writes = false := by
  unfold Event.writes
  split
  · unfold handler manifestManagerEventHandler at hignore
    split_ifs at hignore
  · cases hignore
  · rfl

theorem fill_state : (fill env event h).state = h.state := by
  unfold fill
  split <;> rfl

theorem deliver_settled (hsettled : Settled env h.state h) :
    Settled env (deliver env h event a).state (deliver env h event a) := by
  have hlog : Sound env (received env h event) := received_sound hsettled.1
  unfold deliver
  split
  · rename_i hignore
    have hq : Quiet h (received env h event) := received_quiet (writes_of_ignore hignore)
    have hstate : (received env h event).state = h.state := fill_state
    refine ⟨hlog, ?_, ?_, ?_⟩
    · rw [hstate]
      exact hq.underway hsettled.2.1
    · intro hs
      exact hq.since (hsettled.2.2.1 (hstate.symm.trans hs))
    · exact fun hs => hs
  · rename_i s hgoto
    refine settle_invariant (Ready env) (Settled env) ?_ ?_ (rank_lt s) ?_
    · exact fun s h hready => arrive_settled hready
    · intro s h hne hs
      refine ⟨hs.1, ?_⟩
      split_ifs with hfetched
      · exact absurd ((hs.2.2.2 hfetched).trans hfetched.symm) hne
      · exact hs.2.1
    · exact ready_of_goto hsettled hgoto
  · rename_i error hfail
    have hfun : setState env a .errorUnknown = setErrorUnknown env a := funext (setState_errorUnknown env a)
    rw [hfun, errorHandler_state]
    exact settled_idle ((errorHandler_quiet _ _).sound hlog)

end

theorem run_sound (env : Env) (events : List (Event × Answers)) : Sound env (run env events) := by
  suffices h : ∀ h : Hub, Settled env h.state h →
      Settled env (events.foldl (fun h e => deliver env h e.1 e.2) h).state
        (events.foldl (fun h e => deliver env h e.1 e.2) h) from
    (h initial ⟨⟨.nil, rfl, (by nofun)⟩, .trivial rfl, (by nofun), (by simp)⟩).1
  induction events with
  | nil => exact fun h hs => hs
  | cons e events ih => exact fun h hs => ih _ (deliver_settled hs)

/-- For every sequence of events, each activation in the log comes after all steps for its manifest, and each comparison of
a timestamp is with the version that was received last. -/
theorem activate_justified (env : Env) (events : List (Event × Answers)) :
    Each (Justified env) (run env events).log ∧ Each Compared (run env events).log :=
  ⟨fun before e after heq => ((run_sound env events).inPlace before e after heq).justified,
    fun before e after heq => ((run_sound env events).inPlace before e after heq).compared⟩

/-- A manifest for one byte of firmware, which is not encrypted, at `http://h/`. -/
def oneByte : Env where
  firmwareInfo := fun _ => ⟨1, 1, [7], [104, 116, 116, 112, 58, 47, 47, 104, 47], [], .none, [], []⟩
  uriBase := 1
  decrypt := fun _ bytes => bytes

def allAccepted : Answers := ⟨.none, .none, .none, .none, .none, none, .none, .none, .none, .none⟩

/-- All events of an update, from the initialization on. -/
def oneByteEvents : List Event :=
  [.manifestManager .done, .firmwareManager .getInstallerDetailsError, .sourceManager .notification,
   .sourceManager (.manifest ⟨[], by decide⟩), .manifestManager .done, .manifestManager .needFw,
   .controlCenter .authorizeDownload, .firmwareManager .prepareDone, .sourceManager (.firmware ⟨[0], by decide⟩),
   .firmwareManager .writeDone, .firmwareManager .finalizeDone, .controlCenter .authorizeInstall]

example : Entry.call (.activate 0 ⟨.noneSha256, none, none, some [7], 0, 1⟩) ∈
    (run oneByte (oneByteEvents.map (·, allAccepted))).log := by
  decide +kernel

end MbedCloud.Update.Machine

