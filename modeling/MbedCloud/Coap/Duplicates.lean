import MbedCloud.Lib.Window
import MbedCloud.Coap.ProtocolFrames

/-!
# The detection of duplicates

The list of received messages is a window over the history of the messages that were newly
stored: `sn_coap_protocol_parse` pushes the key of a new message, and `sn_coap_protocol_exec`
expires the entries that are too old.

The age of an entry is a difference of unsigned numbers, so an entry that is younger than the
current time says is old too. If the time goes back, an entry may expire before an older one,
and the older one is then found after more new messages than the buffer has places.
-/

namespace MbedCloud.Coap

open Lib MbedCloud.Coap.Parser List

/-! ## Keys -/

/-- An entry without its packet. -/
structure Record where
  address : Address
  msgId : Nat
  timestamp : Nat
  deriving DecidableEq

def DuplicationInfo.record (d : DuplicationInfo) : Record := ⟨d.address, d.msgId, d.timestamp⟩

def Record.key (x : Record) : Address × Nat := (x.address, x.msgId)

def Handle.records (h : Handle) : List Record := h.duplicationMsgs.map (·.record)

theorem Address.same_iff {src stored : Address} (hlen : stored.addr.length = src.addr.length) :
    src.same stored = true ↔ stored = src := by
  obtain ⟨addr, port⟩ := stored
  obtain ⟨addr', port'⟩ := src
  simp only [Address.same, ← hlen, take_length, Bool.and_eq_true, decide_eq_true_eq, Address.mk.injEq]

/-- The state of the list of duplicates: its count, its bound, and its keys. -/
structure Tracks (k n : Nat) (h : Handle) : Prop where
  size : h.duplicationBufferSize = k
  count : h.countDuplicationMsgs = h.duplicationMsgs.length
  bound : h.duplicationMsgs.length ≤ k
  addresses : ∀ d ∈ h.duplicationMsgs, d.address.addr.length = n
  keys : (h.records.map Record.key).Nodup

section Detect

variable {k n : Nat} {env : Env} {h h' : Handle} {src : Address} {msgId : Nat} {m : Hdr}

theorem isFor_iff {d : DuplicationInfo} (hd : d.address.addr.length = n) (hsrc : src.addr.length = n) :
    d.isFor src msgId = true ↔ d.record.key = (src, msgId) := by
  simp only [DuplicationInfo.isFor, Bool.and_eq_true, decide_eq_true_eq,
    Address.same_iff (hd.trans hsrc.symm), Record.key, DuplicationInfo.record, Prod.mk.injEq]
  exact And.comm

theorem search_isSome_iff (ht : Tracks k n h) (hsrc : src.addr.length = n) :
    (duplicationInfoSearch h src msgId).isSome = true ↔ (src, msgId) ∈ h.records.map Record.key := by
  rw [duplicationInfoSearch, find?_isSome, Handle.records, map_map, mem_map]
  constructor
  · rintro ⟨d, hd, hfor⟩
    exact ⟨d, hd, (isFor_iff (ht.addresses d hd) hsrc).mp hfor⟩
  · rintro ⟨d, hd, hkey⟩
    exact ⟨d, hd, (isFor_iff (ht.addresses d hd) hsrc).mpr hkey⟩

def newEntry (h : Handle) (src : Address) (msgId : Nat) : DuplicationInfo := ⟨h.systemTime, msgId, none, src⟩

/-- The oldest entry is removed from a full list. -/
theorem duplicationInfoMakeRoom_eq (ht : Tracks k n h) (hk : 0 < k) (hk' : k < 65536) :
    duplicationInfoMakeRoom h = .ok { h with
        duplicationMsgs := if h.duplicationMsgs.length < k then h.duplicationMsgs
          else h.duplicationMsgs.tail
        countDuplicationMsgs := (if h.duplicationMsgs.length < k then h.duplicationMsgs
          else h.duplicationMsgs.tail).length } := by
  have hcond : h.countDuplicationMsgs ≥ h.duplicationBufferSize ↔ ¬ h.duplicationMsgs.length < k := by
    rw [ht.count, ht.size]
    omega
  unfold duplicationInfoMakeRoom
  by_cases hfull : h.duplicationMsgs.length < k
  · rw [if_neg (fun hge => hcond.mp hge hfull), if_pos hfull, ← ht.count]
  rw [if_pos (hcond.mpr hfull), if_neg hfull]
  have hbound := ht.bound
  cases hmsgs : h.duplicationMsgs with
  | nil =>
    rw [hmsgs, length_nil] at hfull
    omega
  | cons d rest =>
    have hd : (d.address.same d.address && decide (d.msgId = d.msgId)) = true := by simp [Address.same]
    have hany : h.duplicationMsgs.any (fun d' => d'.address.same d.address &&
        decide (d'.msgId = d.msgId)) = true := by
      rw [hmsgs, any_cons, hd, Bool.true_or]
    have herase : h.duplicationMsgs.eraseP (fun d' => d'.address.same d.address &&
        decide (d'.msgId = d.msgId)) = rest := by
      rw [hmsgs]
      exact eraseP_cons_of_pos hd
    have hcount : sub16 h.countDuplicationMsgs 1 = rest.length := by
      rw [ht.count, hmsgs, length_cons]
      rw [hmsgs, length_cons] at hbound
      unfold sub16 u16i
      omega
    dsimp only [duplicationInfoRemove]
    rw [if_pos hany, herase, hcount, tail_cons]

theorem detectDuplicate_known (ht : Tracks k n h) (hk : 0 < k) (hsrc : src.addr.length = n)
    (htype : m.msgType = .confirmable ∨ m.msgType = .nonConfirmable)
    (hkey : (src, m.msgId) ∈ h.records.map Record.key) {duplicate : Bool}
    (hok : detectDuplicate env h src m = .ok (duplicate, h')) :
    duplicate = true ∧ h'.duplicationMsgs = h.duplicationMsgs ∧ h'.countDuplicationMsgs = h.countDuplicationMsgs := by
  have hsize : h.duplicationBufferSize ≠ 0 := by
    rw [ht.size]
    omega
  obtain ⟨info, hinfo⟩ := Option.isSome_iff_exists.mp ((search_isSome_iff ht hsrc).mpr hkey)
  unfold detectDuplicate at hok
  rw [if_pos ⟨htype, hsize⟩, hinfo] at hok
  cases hok
  refine ⟨rfl, ?_⟩
  split <;> exact ⟨rfl, rfl⟩

theorem detectDuplicate_new (ht : Tracks k n h) (hk : 0 < k) (hk' : k < 65536) (hsrc : src.addr.length = n)
    (htype : m.msgType = .confirmable ∨ m.msgType = .nonConfirmable) (halloc : ∀ site, env.alloc site = true)
    (hkey : (src, m.msgId) ∉ h.records.map Record.key) {duplicate : Bool}
    (hok : detectDuplicate env h src m = .ok (duplicate, h')) :
    duplicate = false ∧ h'.duplicationMsgs = pushed k h.duplicationMsgs (newEntry h src m.msgId) ∧
      h'.countDuplicationMsgs = h'.duplicationMsgs.length := by
  have hsize : h.duplicationBufferSize ≠ 0 := by
    rw [ht.size]
    omega
  have hnone : duplicationInfoSearch h src m.msgId = none := by
    rw [← Option.not_isSome_iff_eq_none, search_isSome_iff ht hsrc]
    exact hkey
  unfold detectDuplicate at hok
  rw [if_pos ⟨htype, hsize⟩, hnone, duplicationInfoMakeRoom_eq ht hk hk'] at hok
  cases hok
  have hlen := length_pushed_le hk ht.bound (newEntry h src m.msgId)
  rw [pushed, length_append, length_singleton] at hlen
  refine ⟨rfl, ?_⟩
  simp only [duplicationInfoStore, halloc, Bool.and_self, if_true]
  refine ⟨rfl, ?_⟩
  rw [length_append, length_singleton]
  exact Nat.mod_eq_of_lt (by omega)

end Detect

/-! ## What is reported -/

section

variable {env : Env} {h h' : Handle} {src : Address} {m : Hdr} {r : Option Hdr}

/-- The parts of the handle that the detection uses. -/
def Handle.duplicates (h : Handle) : List DuplicationInfo × Nat × Nat × Nat :=
  (h.duplicationMsgs, h.countDuplicationMsgs, h.duplicationBufferSize, h.systemTime)

theorem Quiet.duplicates (hq : Quiet h h') : h'.duplicates = h.duplicates := by
  obtain ⟨_, _, _, _, -, rfl⟩ := hq
  rfl

theorem parseBlocks_duplicates (hok : parseBlocks env h src m = .ok (r, h')) : h'.duplicates = h.duplicates := by
  rcases (parseBlocks_handled hok).change with hq | ⟨h1, packet, time, hq, -, hstore⟩
  · exact hq.duplicates
  · obtain ⟨_, _, _, rfl⟩ := sendMsgStore_frame hstore
    exact hq.duplicates

theorem stopResending_duplicates : (stopResending h src m).duplicates = h.duplicates := by
  unfold stopResending sendMsgRemove
  split
  · obtain ⟨_, _, hremove⟩ := sendMsgRemoveFirst_frame h (·.isFor src m.msgId)
    rw [hremove]
    rfl
  · rfl

end

/-! ## Runs -/

/-- A confirmable or non-confirmable message that the parser and the checks of parse accept. -/
structure Accepted (m : Hdr) (version : Nat) : Prop where
  status : m.coapStatus = .ok
  valid : headerValidityCheck m version = true
  notPing : ¬ (m.msgType = .confirmable ∧ m.msgCode = codeEmpty)
  type : m.msgType = .confirmable ∨ m.msgType = .nonConfirmable

/-- The message `m` arrives from an address of length `n`, and parse returns. -/
structure Receives (n : Nat) (h : Handle) (src : Address) (m : Hdr) (r : Option Hdr)
    (h' : Handle) : Prop where
  address : src.addr.length = n
  call : ∃ fuel env packet tail version, (∀ site, Env.alloc env site = true) ∧
    snCoapParser fuel (packetMem packet tail) packet.length = .ok (some (m, version)) ∧
    Accepted m version ∧ protocolParse fuel env h src packet tail = .ok (r, h')

/-- An entry of this time is old at the time `now`. -/
def isOld (now : Nat) (x : Record) : Bool := decide (sub32 now x.timestamp > duplicationMaxTimeMsgsStored)

/-- The runs of messages and calls of exec with a buffer of size `k`; a call of exec meets
`Exec`. The history holds the messages that were not reported as duplicates, with a mark for
those that have been old at a call of exec since. -/
inductive DuplicateRun (k n : Nat) (Exec : Handle → Nat → Prop) :
    List (Record × Bool) → Handle → Prop
  | start {h : Handle} : h.duplicationMsgs = [] → h.countDuplicationMsgs = 0 →
    h.duplicationBufferSize = k → DuplicateRun k n Exec [] h
  | receive {hist : List (Record × Bool)} {h h' : Handle} {src : Address} {m : Hdr}
    {r : Option Hdr} :
    DuplicateRun k n Exec hist h → Receives n h src m r h' →
      DuplicateRun k n Exec (if reported r then hist else hist ++ [(⟨src, m.msgId, h.systemTime⟩, false)]) h'
  | exec {hist : List (Record × Bool)} {h h' : Handle} {fuel now : Nat} {env : Env} :
    DuplicateRun k n Exec hist h → Exec h now → protocolExec fuel env h now = .ok h' →
      DuplicateRun k n Exec (expire (isOld now) hist) h'

section Runs

variable {k n : Nat} {h h' : Handle} {src : Address} {m : Hdr} {r : Option Hdr}

/-- An accepted message goes to the detection; what comes after it leaves the list. -/
theorem Receives.detects (hreceives : Receives n h src m r h') :
    ∃ env duplicate h1, (∀ site, Env.alloc env site = true) ∧ (m.msgType = .confirmable ∨ m.msgType = .nonConfirmable) ∧
      detectDuplicate env h src m = .ok (duplicate, h1) ∧ reported r = duplicate ∧
      h'.duplicates = h1.duplicates := by
  obtain ⟨-, fuel, env, packet, tail, version, halloc, hparser, haccepted, hparse⟩ := hreceives
  unfold protocolParse at hparse
  rw [hparser] at hparse
  have hstatus : m.coapStatus ≠ .parserDuplicatedMsg := by
    rw [haccepted.status]
    decide
  rcases parseMsg_ok hparse with ⟨hrejected, -⟩ | ⟨duplicate, h1, hdetect, hrest⟩
  · rcases hrejected with herror | hinvalid | hping
    · rw [haccepted.status] at herror
      cases herror
    · rw [haccepted.valid] at hinvalid
      cases hinvalid
    · exact absurd hping haccepted.notPing
  refine ⟨env, duplicate, h1, halloc, haccepted.type, hdetect, ?_⟩
  rcases hrest with ⟨rfl, rfl, rfl⟩ | ⟨rfl, r2, h2, hblocks, rfl, hend⟩
  · exact ⟨rfl, rfl⟩
  refine ⟨(parseBlocks_handled hblocks).notReported hstatus, ?_⟩
  rcases hend with ⟨-, rfl⟩ | ⟨m2, -, rfl⟩
  · exact parseBlocks_duplicates hblocks
  · rw [stopResending_duplicates]
    exact parseBlocks_duplicates hblocks

theorem Tracks.of_duplicates {h1 : Handle} (ht : Tracks k n h1) (heq : h'.duplicates = h1.duplicates) : Tracks k n h' := by
  obtain ⟨hmsgs, hcount, hsize, -⟩ : h'.duplicationMsgs = h1.duplicationMsgs ∧ h'.countDuplicationMsgs = h1.countDuplicationMsgs ∧
      h'.duplicationBufferSize = h1.duplicationBufferSize ∧ h'.systemTime = h1.systemTime := by
    simpa only [Handle.duplicates, Prod.mk.injEq] using heq
  obtain ⟨size, count, bound, addresses, keys⟩ := ht
  rw [← hmsgs] at count bound addresses
  rw [Handle.records, ← hmsgs] at keys
  exact ⟨hsize.trans size, hcount.trans count, bound, addresses, keys⟩

/-- A received message is reported exactly if its key is in the list; a new key is pushed. -/
theorem Receives.spec (hreceives : Receives n h src m r h') (ht : Tracks k n h) (hk : 0 < k) (hk' : k < 65536) :
    Tracks k n h' ∧ h'.systemTime = h.systemTime ∧ (reported r = true ↔ (src, m.msgId) ∈ h.records.map Record.key) ∧
      h'.records = if reported r then h.records
        else pushed k h.records ⟨src, m.msgId, h.systemTime⟩ := by
  obtain ⟨env, duplicate, h1, halloc, htype, hdetect, hreported, hduplicates⟩ := hreceives.detects
  have hsrc := hreceives.address
  obtain ⟨_, _, _, -, hframe⟩ := detectDuplicate_frame hdetect
  have hsize : h1.duplicationBufferSize = h.duplicationBufferSize := by rw [hframe]
  have htime : h1.systemTime = h.systemTime := by rw [hframe]
  have hrecords : h'.records = h1.records :=
    congrArg (fun x : List DuplicationInfo × Nat × Nat × Nat => x.1.map DuplicationInfo.record)
      hduplicates
  have htime' : h'.systemTime = h.systemTime :=
    (congrArg (fun x : List DuplicationInfo × Nat × Nat × Nat => x.2.2.2) hduplicates).trans htime
  by_cases hkey : (src, m.msgId) ∈ h.records.map Record.key
  · obtain ⟨rfl, hmsgs, hcount⟩ := detectDuplicate_known ht hk hsrc htype hkey hdetect
    have hsame : h1.duplicates = h.duplicates := by
      rw [Handle.duplicates, hmsgs, hcount, hsize, htime]
      rfl
    refine ⟨ht.of_duplicates (hduplicates.trans hsame), htime', ?_, ?_⟩
    · simp [hreported, hkey]
    · rw [hreported, if_pos rfl, hrecords, Handle.records, hmsgs]
      rfl
  · obtain ⟨rfl, hmsgs, hcount⟩ := detectDuplicate_new ht hk hk' hsrc htype halloc hkey hdetect
    have hpushed : h1.records = pushed k h.records ⟨src, m.msgId, h.systemTime⟩ := by
      rw [Handle.records, hmsgs, map_pushed]
      rfl
    have ht1 : Tracks k n h1 := by
      refine ⟨hsize.trans ht.size, hcount, ?_, ?_, ?_⟩
      · rw [hmsgs]
        exact length_pushed_le hk ht.bound _
      · intro d hd
        rw [hmsgs] at hd
        rcases mem_of_mem_pushed hd with hd | rfl
        · exact ht.addresses d hd
        · exact hsrc
      · rw [hpushed, map_pushed]
        exact nodup_pushed ht.keys hkey
    refine ⟨ht1.of_duplicates hduplicates, htime', ?_, ?_⟩
    · simp [hreported, hkey]
    · rw [hreported, if_neg Bool.false_ne_true, hrecords, hpushed]

theorem exec_spec {fuel now : Nat} {env : Env} (hexec : protocolExec fuel env h now = .ok h')
    (ht : Tracks k n h) (hk' : k < 65536) :
    Tracks k n h' ∧ h'.systemTime = now ∧ h'.records = h.records.filter fun x => !isOld now x := by
  obtain ⟨_, _, _, rfl⟩ := protocolExec_frame hexec
  have hbound := ht.bound
  have hmsgs : (execStart h now).duplicationMsgs = h.duplicationMsgs.filter fun d => !isOld now d.record := rfl
  have hcount : (execStart h now).countDuplicationMsgs = (execStart h now).duplicationMsgs.length := by
    have hsum := length_eq_length_filter_add (l := h.duplicationMsgs)
      fun d => isOld now d.record
    have hcountdown : (execStart h now).countDuplicationMsgs =
        (h.duplicationMsgs.filter fun d => isOld now d.record).foldl (fun count _ => sub16 count 1)
          h.countDuplicationMsgs := rfl
    rw [hcountdown, foldl_sub16 _ (by rw [ht.count]; omega) (by rw [ht.count]; omega), ht.count, hmsgs]
    omega
  have hrecords : (execStart h now).records = h.records.filter fun x => !isOld now x := by
    rw [Handle.records, hmsgs, Handle.records, filter_map]
    rfl
  refine ⟨⟨ht.size, hcount, ?_, fun d hd => ?_, ?_⟩, rfl, hrecords⟩
  · exact Nat.le_trans (length_filter_le _ _) hbound
  · exact ht.addresses d (mem_of_mem_filter hd)
  · refine ht.keys.sublist (.map _ ?_)
    exact hrecords ▸ filter_sublist

/-- No entry is old unless all entries before it are. -/
def InTurn (h : Handle) (now : Nat) : Prop := h.records.Pairwise fun x y => isOld now y = true → isOld now x = true

variable {Exec : Handle → Nat → Prop} {hist : List (Record × Bool)}

theorem DuplicateRun.tracks (hrun : DuplicateRun k n Exec hist h) (hk : 0 < k) (hk' : k < 65536) : Tracks k n h := by
  induction hrun with
  | start hmsgs hcount hsize =>
    refine ⟨hsize, by rw [hcount, hmsgs]; rfl, by rw [hmsgs]; exact Nat.zero_le _, ?_, ?_⟩
    · intro d hd
      rw [hmsgs] at hd
      cases hd
    · rw [Handle.records, hmsgs]
      exact nodup_nil
  | receive _ hreceives ih => exact (hreceives.spec ih hk hk').1
  | exec _ _ hexec ih => exact (exec_spec hexec ih hk').1

/-- The list is the window over the history if the entries expire in turn. -/
theorem DuplicateRun.window (hrun : DuplicateRun k n InTurn hist h) (hk : 0 < k) (hk' : k < 65536) : Window k hist h.records := by
  obtain ⟨j, rfl⟩ := Nat.exists_eq_add_one.mpr hk
  induction hrun with
  | start hmsgs _ _ =>
    rw [Handle.records, hmsgs]
    exact .empty _
  | receive hrun hreceives ih =>
    obtain ⟨-, -, -, hrecords⟩ := hreceives.spec (hrun.tracks hk hk') hk hk'
    rw [hrecords]
    split
    · exact ih
    · exact ih.push _
  | exec hrun hturn hexec ih =>
    rw [(exec_spec hexec (hrun.tracks hk hk') hk').2.2]
    exact ih.expire hturn

/-- The entries are in the order of their times, none of which is to come. -/
structure Timed (h : Handle) : Prop where
  sorted : h.records.Pairwise fun x y => x.timestamp ≤ y.timestamp
  past : ∀ x ∈ h.records, x.timestamp ≤ h.systemTime

end Runs

def client : Address := ⟨[10, 0, 0, 1], 5683⟩

def getPacket (id : UInt8) : Bytes := [0x50, 0x01, 0x00, id]

def getMessage (id : UInt8) : Hdr where
  msgType := .nonConfirmable
  msgCode := codeRequestGet
  msgId := id.toNat

/-- A handle with a buffer for two messages, which has received messages of the client at these
times. -/
def bufferOfTwo (time : Nat) (received : List (Nat × Nat)) : Handle where
  duplicationBufferSize := 2
  duplicationMsgs := received.map fun x => ⟨x.1, x.2, none, client⟩
  countDuplicationMsgs := received.length
  systemTime := time

/-- The message is new, and is stored with the time. -/
abbrev Stores (time : Nat) (received : List (Nat × Nat)) (id : UInt8) : Prop :=
  Receives 4 (bufferOfTwo time received) client (getMessage id) (some (getMessage id))
    (bufferOfTwo time (received ++ [(time, id.toNat)]))

end MbedCloud.Coap

