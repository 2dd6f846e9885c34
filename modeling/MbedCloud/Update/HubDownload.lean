import MbedCloud.Update.HubOrder

/-!
# The download of a firmware

While one fragment is written, the next one is downloaded. `Ops` are the operations that were started and have
not been completed, as they are read off the hub's calls; `Transfer.Reach` are the runs in which fragments are
received and writes are done for such operations, in any order.

The state says which operations are outstanding as long as no fragment is empty: an empty one is not written,
and the state is set as if it were.
-/

namespace MbedCloud.Update.Machine

open List

/-! ## Operations -/

/-- The memory that is being written, the memory that is being downloaded into, and all that was passed to
`Write`. -/
structure Ops where
  writing : Option Memory
  loading : Option Memory
  written : List Bytes
  deriving DecidableEq

/-- A call starts an operation, if it is accepted. -/
def observe (a : Answers) (ops : Ops) (e : Entry) : Ops :=
  match e with
  | .call (.write buffer) =>
    { ops with
      writing := if a.write = .none then some buffer.ptr else ops.writing
      written := ops.written ++ [buffer.bytes] }
  | .call (.getFirmwareFragment ptr _) => { ops with loading := if a.getFirmwareFragment = .none then some ptr else ops.loading }
  | _ => ops

structure Transfer where
  hub : Hub
  ops : Ops
  /-- All fragments that were received. -/
  fragments : List Chunk

def Ops.after (ops : Ops) (a : Answers) (h h' : Hub) : Ops := (h'.log.drop h.log.length).foldl (observe a) ops

def Transfer.start (env : Env) (a : Answers) (h : Hub) : Transfer where
  hub := setState env a .fetchFirstFragment h
  ops := Ops.after ⟨none, none, []⟩ a h (setState env a .fetchFirstFragment h)
  fragments := []

def Transfer.receive (env : Env) (a : Answers) (t : Transfer) (bytes : Chunk) : Transfer where
  hub := deliver env t.hub (.sourceManager (.firmware bytes)) a
  ops := Ops.after { t.ops with loading := none } a t.hub (deliver env t.hub (.sourceManager (.firmware bytes)) a)
  fragments := t.fragments ++ [bytes]

def Transfer.writeDone (env : Env) (a : Answers) (t : Transfer) : Transfer where
  hub := deliver env t.hub (.firmwareManager .writeDone) a
  ops := Ops.after { t.ops with writing := none } a t.hub (deliver env t.hub (.firmwareManager .writeDone) a)
  fragments := t.fragments

/-- Fragments are received, and writes are done, for operations that were started. The two buffers of the hub are different ones
in every run (`Sound.apart`). -/
inductive Transfer.Reach (env : Env) : Transfer → Prop
  | start (a : Answers) (h : Hub) (hptr : h.front.ptr ≠ h.back.ptr) : Reach env (.start env a h)
  | receive (t : Transfer) (a : Answers) (bytes : Chunk) (ht : Reach env t) (hload : t.ops.loading ≠ none) :
      Reach env (t.receive env a bytes)
  | writeDone (t : Transfer) (a : Answers) (ht : Reach env t) (hwrite : t.ops.writing ≠ none) :
      Reach env (t.writeDone env a)

def nonEmpty (fragments : List Chunk) : List Bytes := (fragments.map (·.val)).filter (· ≠ [])

/-- A fragment that waits for the storage. -/
def Transfer.waiting (t : Transfer) : List Bytes := if t.hub.state = .waitForStorage then [t.hub.front.bytes] else []

/-- The state says what is outstanding, no buffer is used twice, and the fragments are written in order. -/
structure Transfer.Sound (t : Transfer) : Prop where
  writing : t.hub.state = .waitForStorage ∨ t.hub.state = .storeLastFragment ∨ t.hub.state = .storeAndDownload →
    t.ops.writing ≠ none
  loading : t.hub.state = .waitForNetwork ∨ t.hub.state = .fetchFirstFragment ∨ t.hub.state = .storeAndDownload →
    t.ops.loading ≠ none
  apart : ∀ p ∈ t.ops.writing, ∀ q ∈ t.ops.loading, p ≠ q
  written : t.ops.written ++ t.waiting = nonEmpty t.fragments

/-! ## What the states do -/

section

variable {env : Env} {a : Answers} {h : Hub} {ops : Ops}

attribute [local simp] setState settle arrive enter storeFragment fetchNext fetchFirst handleError Hub.record Hub.call observe

theorem Ops.after_eq {h' : Hub} {es : List Entry} (hlog : h'.log = h.log ++ es) :
    ops.after a h h' = es.foldl (observe a) ops := by
  rw [Ops.after, hlog, drop_left]

/-- A fragment is passed to `Write`, and the next one is fetched into the other buffer, if one is missing. -/
theorem storeAndDownload_run (env : Env) (a : Answers) (ops : Ops) (hne : h.front.bytes ≠ []) :
    ∃ h' es ops', setState env a .storeAndDownload h = h' ∧ es.foldl (observe a) ops = ops' ∧ h'.log = h.log ++ es ∧
      h'.front.ptr = h.back.ptr ∧ h'.back.ptr = h.front.ptr ∧ ops'.written = ops.written ++ [h.front.bytes] ∧
      (h'.state = .idle ∧ ops'.loading = ops.loading ∨
        ops'.writing = some h.front.ptr ∧
          (h'.state = .storeAndDownload ∧ ops'.loading = some h.back.ptr ∨
            h'.state = .storeLastFragment ∧ ops'.loading = ops.loading)) := by
  have hsize : 0 < h.front.size := length_pos_iff.mpr hne
  by_cases hwrite : a.write = .none
  case neg =>
    refine ⟨_, [.enter .storeAndDownload, .call (.write h.front), .enter .idle, .call (.reportState .idle)], _, rfl, rfl, ?_⟩
    simp [hsize, hwrite]
  by_cases hmore : u32 (h.firmwareOffset + h.front.size) < h.fwinfo.size
  case neg =>
    refine ⟨_, [.enter .storeAndDownload, .call (.write h.front),
      .call (.reportProgress (u32 (h.firmwareOffset + h.front.size)) h.fwinfo.size), .enter .storeLastFragment,
      .call (.reportState .downloaded)], _, rfl, rfl, ?_⟩
    simp [hsize, hwrite, hmore]
  by_cases hget : a.getFirmwareFragment = .none
  case neg =>
    refine ⟨_, [.enter .storeAndDownload, .call (.write h.front),
      .call (.getFirmwareFragment h.back.ptr (u32 (h.firmwareOffset + h.front.size))), .enter .idle,
      .call (.reportState .idle)], _, rfl, rfl, ?_⟩
    simp [hsize, hwrite, hmore, hget]
  refine ⟨_, [.enter .storeAndDownload, .call (.write h.front),
    .call (.getFirmwareFragment h.back.ptr (u32 (h.firmwareOffset + h.front.size))),
    .call (.reportProgress (u32 (h.firmwareOffset + h.front.size)) h.fwinfo.size)], _, rfl, rfl, ?_⟩
  simp [hsize, hwrite, hmore, hget]

/-- The first fragment is fetched into the front buffer, if there is one. -/
theorem fetchFirstFragment_run (env : Env) (a : Answers) (h : Hub) (ops : Ops) :
    ∃ h' es ops', setState env a .fetchFirstFragment h = h' ∧ es.foldl (observe a) ops = ops' ∧ h'.log = h.log ++ es ∧
      h'.front.ptr = h.front.ptr ∧ h'.back.ptr = h.back.ptr ∧
      ops'.written = ops.written ∧ ops'.writing = ops.writing ∧
      (h'.state = .fetchFirstFragment ∧ ops'.loading = some h.front.ptr ∨
        (h'.state = .finalizeStorage ∨ h'.state = .idle) ∧ ops'.loading = ops.loading) := by
  by_cases hsize : 0 < h.fwinfo.size
  case neg =>
    by_cases hfinal : a.finalize = .none
    case neg =>
      refine ⟨_, [.enter .fetchFirstFragment, .call (.reportState .downloading), .call (.reportState .downloaded),
        .enter .finalizeStorage, .call .finalize, .enter .idle, .call (.reportState .idle)], _, rfl, rfl, ?_⟩
      simp [hsize, hfinal]
    refine ⟨_, [.enter .fetchFirstFragment, .call (.reportState .downloading), .call (.reportState .downloaded),
      .enter .finalizeStorage, .call .finalize], _, rfl, rfl, ?_⟩
    simp [hsize, hfinal]
  by_cases hget : a.getFirmwareFragment = .none
  case neg =>
    refine ⟨_, [.enter .fetchFirstFragment, .call (.reportState .downloading),
      .call (.getFirmwareFragment h.front.ptr 0), .enter .idle, .call (.reportState .idle)], _, rfl, rfl, ?_⟩
    simp [hsize, hget]
  refine ⟨_, [.enter .fetchFirstFragment, .call (.reportState .downloading),
    .call (.getFirmwareFragment h.front.ptr 0)], _, rfl, rfl, ?_⟩
  simp [hsize, hget]

theorem finalizeStorage_run (env : Env) (a : Answers) (h : Hub) (ops : Ops) :
    ∃ h' es, setState env a .finalizeStorage h = h' ∧ es.foldl (observe a) ops = ops ∧ h'.log = h.log ++ es ∧
      h'.front.ptr = h.front.ptr ∧ h'.back.ptr = h.back.ptr ∧ (h'.state = .finalizeStorage ∨ h'.state = .idle) := by
  by_cases hfinal : a.finalize = .none
  case neg =>
    refine ⟨_, [.enter .finalizeStorage, .call .finalize, .enter .idle, .call (.reportState .idle)], rfl, rfl, ?_⟩
    simp [hfinal]
  refine ⟨_, [.enter .finalizeStorage, .call .finalize], rfl, rfl, ?_⟩
  simp [hfinal]

end

/-! ## Phases -/

/-- What is outstanding in each state of a download. -/
inductive Phase (h : Hub) (ops : Ops) (received : List Bytes) : Prop
  | fetching (hs : h.state = .fetchFirstFragment ∨ h.state = .waitForNetwork)
      (hload : ops.loading = some h.front.ptr) (hwrite : ops.writing = none) (hall : ops.written = received)
  | both (hs : h.state = .storeAndDownload) (hload : ops.loading = some h.front.ptr)
      (hwrite : ops.writing = some h.back.ptr) (hall : ops.written = received)
  | storing (hs : h.state = .waitForStorage) (hload : ops.loading = none) (hwrite : ops.writing = some h.back.ptr)
      (hne : h.front.bytes ≠ []) (hall : ops.written ++ [h.front.bytes] = received)
  | last (hs : h.state = .storeLastFragment) (hload : ops.loading = none) (hwrite : ops.writing = some h.back.ptr)
      (hall : ops.written = received)
  | finished (hs : h.state = .finalizeStorage ∨ h.state = .idle) (hload : ops.loading = none)
      (hall : ops.written = received)

structure Transfer.Inv (t : Transfer) : Prop where
  ptr : t.hub.front.ptr ≠ t.hub.back.ptr
  phase : Phase t.hub t.ops (nonEmpty t.fragments)

section Phases

variable {env : Env} {a : Answers} {h : Hub} {t : Transfer}

theorem Transfer.Inv.sound (hinv : t.Inv) : t.Sound := by
  obtain ⟨hptr, hphase⟩ := hinv
  cases hphase with
  | fetching hs hload hwrite hall =>
    refine ⟨?_, ?_, ?_, ?_⟩
    · rcases hs with hs | hs <;> simp [hs]
    · simp [hload]
    · simp [hwrite]
    · rcases hs with hs | hs <;> simp [Transfer.waiting, hs, hall]
  | both hs hload hwrite hall =>
    refine ⟨by simp [hwrite], by simp [hload], ?_, by simp [Transfer.waiting, hs, hall]⟩
    rw [hwrite, hload]
    rintro p hp q hq
    rw [← Option.mem_some_iff.mp hp, ← Option.mem_some_iff.mp hq]
    exact hptr.symm
  | storing hs hload hwrite hne hall =>
    exact ⟨by simp [hwrite], by simp [hs], by simp [hload], by simp [Transfer.waiting, hs, hall]⟩
  | last hs hload hwrite hall => exact ⟨by simp [hwrite], by simp [hs], by simp [hload], by simp [Transfer.waiting, hs, hall]⟩
  | finished hs hload hall =>
    refine ⟨?_, ?_, by simp [hload], ?_⟩
    · rcases hs with hs | hs <;> simp [hs]
    · rcases hs with hs | hs <;> simp [hs]
    · rcases hs with hs | hs <;> simp [Transfer.waiting, hs, hall]

theorem start_inv (hptr : h.front.ptr ≠ h.back.ptr) : (Transfer.start env a h).Inv := by
  obtain ⟨_, es, _, rfl, rfl, hlog, hfront, hback, hwritten, hwriting, hcases⟩ := fetchFirstFragment_run env a h ⟨none, none, []⟩
  have hops : (Transfer.start env a h).ops = es.foldl (observe a) ⟨none, none, []⟩ := Ops.after_eq hlog
  refine ⟨?_, ?_⟩
  · show (setState env a .fetchFirstFragment h).front.ptr ≠ (setState env a .fetchFirstFragment h).back.ptr
    rw [hfront, hback]
    exact hptr
  rw [hops]
  rcases hcases with ⟨hs, hload⟩ | ⟨hs, hload⟩
  · exact .fetching (.inl hs) (by rw [hload]; exact congrArg some hfront.symm) hwriting hwritten
  · exact .finished hs hload hwritten

/-- A fragment that is waiting in the front buffer is written, and the buffers are swapped. -/
theorem store_phase (env : Env) (a : Answers) (h : Hub) (ops : Ops) (hptr : h.front.ptr ≠ h.back.ptr)
    (hne : h.front.bytes ≠ []) (hload : ops.loading = none) :
    ∃ h' es, setState env a .storeAndDownload h = h' ∧ h'.log = h.log ++ es ∧ h'.front.ptr ≠ h'.back.ptr ∧
      Phase h' (es.foldl (observe a) ops) (ops.written ++ [h.front.bytes]) := by
  obtain ⟨h', es, _, hset, rfl, hlog, hfront, hback, hwritten, hcases⟩ := storeAndDownload_run env a ops hne
  refine ⟨h', es, hset, hlog, ?_, ?_⟩
  · rw [hfront, hback]
    exact hptr.symm
  rcases hcases with ⟨hs, hl⟩ | ⟨hwrite, ⟨hs, hl⟩ | ⟨hs, hl⟩⟩
  · exact .finished (.inr hs) (hl.trans hload) hwritten
  · exact .both hs (by rw [hl, hfront]) (by rw [hwrite, hback]) hwritten
  · exact .last hs (hl.trans hload) (by rw [hwrite, hback]) hwritten

theorem nonEmpty_concat (fragments : List Chunk) {bytes : Chunk} (hne : bytes.val ≠ []) :
    nonEmpty (fragments ++ [bytes]) = nonEmpty fragments ++ [bytes.val] := by
  simp [nonEmpty, hne]

theorem inv_of_goto {event : Event} {s : HubState} {h' : Hub} {ops : Ops} {es : List Entry} {fragments : List Chunk}
    (hgoto : handler event h.state = .goto s) (hset : setState env a s (received env h event) = h')
    (hlog : h'.log = (received env h event).log ++ es) (hptr : h'.front.ptr ≠ h'.back.ptr)
    (hphase : Phase h' (es.foldl (observe a) ops) (nonEmpty fragments)) :
    Transfer.Inv ⟨deliver env h event a, ops.after a h (deliver env h event a), fragments⟩ := by
  have hall : (deliver env h event a).log = h.log ++ .event h.state event :: es := by
    rw [deliver_goto hgoto, hset, hlog, received_log, append_assoc]
    rfl
  rw [Ops.after_eq hall, deliver_goto hgoto, hset]
  exact ⟨hptr, hphase⟩

theorem receive_inv {bytes : Chunk} (hinv : t.Inv) (hload : t.ops.loading ≠ none) (hne : bytes.val ≠ []) :
    (t.receive env a bytes).Inv := by
  obtain ⟨hptr, hphase⟩ := hinv
  have hreceived := nonEmpty_concat t.fragments hne
  cases hphase with
  | fetching hs _ _ hall =>
    obtain ⟨h', es, hset, hlog, hapart, hphase⟩ := store_phase env a
      (received env t.hub (.sourceManager (.firmware bytes))) { t.ops with loading := none } hptr hne rfl
    have hgoto : handler (.sourceManager (.firmware bytes)) t.hub.state = .goto .storeAndDownload := if_pos hs
    apply inv_of_goto hgoto hset hlog hapart
    rw [hreceived, ← hall]
    exact hphase
  | both hs _ hwrite hall =>
    have hgoto : handler (.sourceManager (.firmware bytes)) t.hub.state = .goto .waitForStorage := by
      rw [hs]
      rfl
    apply inv_of_goto hgoto rfl rfl hptr
    rw [hreceived, ← hall]
    exact .storing rfl rfl hwrite hne rfl
  | storing _ hnone | last _ hnone | finished _ hnone => exact absurd hnone hload

/-- A write is done, and the fragment that waits for it is written. -/
theorem writeDone_inv (hinv : t.Inv) (hwriting : t.ops.writing ≠ none) : (t.writeDone env a).Inv := by
  obtain ⟨hptr, hphase⟩ := hinv
  have hgoto : ∀ {s s' : HubState}, t.hub.state = s → firmwareManagerEventHandler .writeDone s = .goto s' →
      handler (.firmwareManager .writeDone) t.hub.state = .goto s' := fun hs hgoto => hs ▸ hgoto
  cases hphase with
  | fetching _ _ hnone => exact absurd hnone hwriting
  | both hs hload _ hall => exact inv_of_goto (hgoto hs rfl) rfl rfl hptr (.fetching (.inr rfl) hload rfl hall)
  | storing hs hload _ hne hall =>
    obtain ⟨h', es, hset, hlog, hapart, hphase⟩ := store_phase env a (received env t.hub (.firmwareManager .writeDone))
      { t.ops with writing := none } hptr hne hload
    apply inv_of_goto (hgoto hs rfl) hset hlog hapart
    rw [show nonEmpty t.fragments = _ from hall.symm]
    exact hphase
  | last hs hload _ hall =>
    obtain ⟨h', es, hset, hops, hlog, hfront, hback, hstate⟩ := finalizeStorage_run env a
      (received env t.hub (.firmwareManager .writeDone)) { t.ops with writing := none }
    apply inv_of_goto (hgoto hs rfl) hset hlog (by rw [hfront, hback]; exact hptr)
    rw [hops]
    exact .finished hstate hload hall
  | finished hs hload hall =>
    have hfail : handler (.firmwareManager .writeDone) t.hub.state = .fail .firmwareInvalidParameter := by
      rcases hs with hs | hs
      · rw [hs]
        rfl
      · rw [hs]
        rfl
    have hlog : (errorHandler (setErrorUnknown env a) .firmwareInvalidParameter
        (received env t.hub (.firmwareManager .writeDone))).log = _ := errorHandler_log _ _
    rw [← deliver_fail hfail, received_log, append_assoc] at hlog
    refine ⟨?_, ?_⟩
    · show (deliver env t.hub _ a).front.ptr ≠ (deliver env t.hub _ a).back.ptr
      rw [deliver_fail hfail]
      exact hptr
    · rw [Transfer.writeDone, Ops.after_eq hlog, deliver_fail hfail]
      exact .finished (.inr rfl) hload hall

end Phases

/-- For every download, in whatever order the operations are completed: as long as no fragment is empty, the
state says what is outstanding, and each fragment is passed to `Write` once, in order. -/
theorem download_sound (env : Env) (t : Transfer) (ht : t.Reach env) (hne : ∀ bytes ∈ t.fragments, bytes.val ≠ []) : t.Sound := by
  apply Transfer.Inv.sound
  induction ht with
  | start a h hptr => exact start_inv hptr
  | receive t a bytes _ hload ih =>
    exact receive_inv (ih fun b hb => hne b (mem_append_left _ hb)) hload (hne bytes (mem_append_right _ (.head _)))
  | writeDone t a _ hwrite ih => exact writeDone_inv (ih hne) hwrite

/-- The download after the events up to its authorization, and one fragment. -/
def oneFragment (bytes : Chunk) : Transfer :=
  .receive oneByte allAccepted (.start oneByte allAccepted (run oneByte ((oneByteEvents.take 7).map (·, allAccepted)))) bytes

theorem oneFragment_reach (bytes : Chunk) : (oneFragment bytes).Reach oneByte :=
  .receive _ _ _ (.start _ _ (run_sound _ _).apart) (by decide +kernel)

theorem download_sound_oneByte : (oneFragment ⟨[3], by decide⟩).Sound :=
  download_sound oneByte _ (oneFragment_reach _) (by decide)

/-- The fragment is empty: both operations should be outstanding, and nothing is being written. -/
theorem download_not_sound : (oneFragment ⟨[], by decide⟩).Reach oneByte ∧ ¬ (oneFragment ⟨[], by decide⟩).Sound := by
  refine ⟨oneFragment_reach _, fun h => ?_⟩
  exact h.writing (.inr (.inr (by decide +kernel))) (by decide +kernel)

end MbedCloud.Update.Machine

