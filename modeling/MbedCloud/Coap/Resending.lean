import MbedCloud.Coap.ParserProgress
import MbedCloud.Coap.ProtocolFrames

/-!
# Resending

The list of messages that `sn_coap_protocol_exec` resends, over runs of all calls that change
it. The log tells how often a message was resent and reported as failed: the counter of a stored
message is the number of its transmissions (`Resending`), and a message leaves the list when it
is reported.

`sn_coap_protocol_exec` rescans the list after every action. What is left of the transmissions
of all stored messages decreases with every scan, so the scans end; but before a message is
reported it is parsed, and there are packets of the library's own builder on which the parser
does not return.
-/

namespace MbedCloud.Coap

open Lib MbedCloud.Coap.Parser List

/-! ## The log -/

def resends (log : List Event) (serial : Nat) : Nat := log.count (.resend serial)

/-- How often the application was told that a message could not be sent. -/
def failures (log : List Event) (serial : Nat) : Nat := log.count (.sendingFailed serial)

section Log

variable {log events : List Event}

theorem resends_append_quiet (hquiet : ∀ e ∈ events, e.quiet = true) (n : Nat) : resends (log ++ events) n = resends log n := by
  have hnone : events.count (.resend n) = 0 := count_eq_zero.mpr fun hmem => nomatch hquiet _ hmem
  rw [resends, count_append, hnone]
  rfl

theorem failures_append_quiet (hquiet : ∀ e ∈ events, e.quiet = true) (n : Nat) :
    failures (log ++ events) n = failures log n := by
  have hnone : events.count (.sendingFailed n) = 0 := count_eq_zero.mpr fun hmem => nomatch hquiet _ hmem
  rw [failures, count_append, hnone]
  rfl

theorem resends_append_resend (i n : Nat) : resends (log ++ [.resend i]) n = resends log n + if i = n then 1 else 0 := by
  simp [resends, count_append, count_singleton]

theorem failures_append_resend (i n : Nat) : failures (log ++ [.resend i]) n = failures log n := by simp [failures, count_append]

theorem resends_append_failed (i n : Nat) : resends (log ++ [.sendingFailed i]) n = resends log n := by
  simp [resends, count_append]

theorem failures_append_failed (i n : Nat) :
    failures (log ++ [.sendingFailed i]) n = failures log n + if i = n then 1 else 0 := by
  simp [failures, count_append, count_singleton]

end Log

/-! ## The invariant -/

/-- A stored message: what has happened to it since it was stored. -/
structure Tracked (c serial : Nat) (log : List Event) (m : SendMsg) : Prop where
  serial_lt : m.serial < serial
  packet_lt : m.packet.length < 65536
  counter_le : m.resendingCounter ≤ c
  counter_eq : resends log m.serial = m.resendingCounter
  silent : failures log m.serial = 0

theorem Tracked.of_log {c serial : Nat} {log log' : List Event} {m : SendMsg} (ht : Tracked c serial log m)
    (hresends : resends log' m.serial = resends log m.serial)
    (hfailures : failures log' m.serial = failures log m.serial) : Tracked c serial log' m :=
  { ht with counter_eq := hresends.trans ht.counter_eq, silent := hfailures.trans ht.silent }

/-- The state of the resending list with the limit `c`: the counter of the list, the places of the
queue, and what has happened to the messages that are stored and to those that were. -/
structure Resending (c : Nat) (h : Handle) : Prop where
  limit : h.resendingCount = c
  count : h.countResentMsgs = h.resentMsgs.length
  length_lt : h.resentMsgs.length < 65536
  queue_lt : h.resendingQueueMsgs < 256
  places : 0 < h.resendingQueueMsgs → h.resentMsgs.length ≤ h.resendingQueueMsgs
  serials : (h.resentMsgs.map (·.serial)).Nodup
  tracked : ∀ m ∈ h.resentMsgs, Tracked c h.serial h.log m
  resends_le : ∀ n, resends h.log n ≤ c
  failures_le : ∀ n, failures h.log n ≤ 1
  fresh : ∀ n, h.serial ≤ n → resends h.log n = 0 ∧ failures h.log n = 0

/-- Without a limit on the number of messages, the 16-bit counter has to have room for one
more. -/
def Room (h : Handle) : Prop := h.resendingQueueMsgs = 0 → h.resentMsgs.length < 65535

/-- A change that does not touch the resending list. -/
structure Aside (h h' : Handle) : Prop where
  limit : h'.resendingCount = h.resendingCount
  msgs : h'.resentMsgs = h.resentMsgs
  count : h'.countResentMsgs = h.countResentMsgs
  queue : h'.resendingQueueMsgs = h.resendingQueueMsgs
  serial : h'.serial = h.serial
  log : ∃ events, (∀ e ∈ events, Event.quiet e = true) ∧ h'.log = h.log ++ events

variable {h h' : Handle}

theorem Aside.silent (hlimit : h'.resendingCount = h.resendingCount)
    (hmsgs : h'.resentMsgs = h.resentMsgs) (hcount : h'.countResentMsgs = h.countResentMsgs)
    (hqueue : h'.resendingQueueMsgs = h.resendingQueueMsgs) (hserial : h'.serial = h.serial)
    (hlog : h'.log = h.log) : Aside h h' :=
  ⟨hlimit, hmsgs, hcount, hqueue, hserial, [], forall_mem_nil _, by rw [hlog, append_nil]⟩

theorem Quiet.aside (hq : Quiet h h') : Aside h h' := by
  obtain ⟨_, _, _, events, hevents, rfl⟩ := hq
  exact ⟨rfl, rfl, rfl, rfl, rfl, events, hevents, rfl⟩

theorem Aside.room (ha : Aside h h') (hroom : Room h) : Room h' := by
  intro hqueue
  rw [ha.msgs]
  exact hroom (ha.queue ▸ hqueue)

section Steps

variable {c : Nat} {env : Env} {dst : Address} {packet : Bytes}

theorem Resending.aside (hr : Resending c h) (ha : Aside h h') : Resending c h' := by
  obtain ⟨hlimit, hmsgs, hcount, hqueue, hserial, events, hevents, hlog⟩ := ha
  have hresends : ∀ n, resends h'.log n = resends h.log n := by
    intro n
    rw [hlog, resends_append_quiet hevents]
  have hfailures : ∀ n, failures h'.log n = failures h.log n := by
    intro n
    rw [hlog, failures_append_quiet hevents]
  constructor <;> simp only [hlimit, hmsgs, hcount, hqueue, hserial, hresends, hfailures]
  exacts [hr.limit, hr.count, hr.length_lt, hr.queue_lt, hr.places, hr.serials,
    fun m hm => (hr.tracked m hm).of_log (hresends _) (hfailures _), hr.resends_le, hr.failures_le, hr.fresh]

variable {time : Nat}

/-- A new message goes to the end of the list, if there is a place for it. -/
theorem sendMsgStore_cases (hs : sendMsgStore env h dst packet time = some h') :
    h' = h ∨ (0 < h.resendingQueueMsgs → h.countResentMsgs < h.resendingQueueMsgs) ∧
      h' = { h with
        resentMsgs := h.resentMsgs ++ [⟨h.serial, 0, time, packet, dst⟩]
        countResentMsgs := u16 (h.countResentMsgs + 1)
        serial := h.serial + 1 } := by
  unfold sendMsgStore at hs
  split at hs
  · cases hs
    exact .inl rfl
  split at hs
  · cases hs
  split at hs
  · cases hs
  split_ifs at hs
  cases hs
  refine .inr ⟨fun hpos => ?_, rfl⟩
  omega

theorem Resending.store (hr : Resending c h) (hroom : Room h) (hlen : packet.length < 65536)
    (hs : sendMsgStore env h dst packet time = some h') : Resending c h' := by
  rcases sendMsgStore_cases hs with rfl | ⟨hplace, rfl⟩
  · exact hr
  have hcount := hr.count
  have hlt : h.resentMsgs.length < 65535 := by
    have hqueue := hr.queue_lt
    rcases Nat.eq_zero_or_pos h.resendingQueueMsgs with hzero | hpos
    · exact hroom hzero
    · have hfree := hplace hpos
      omega
  obtain ⟨hresends, hfailures⟩ := hr.fresh h.serial (Nat.le_refl _)
  refine { hr with
      count := ?_
      length_lt := ?_
      places := fun hpos => ?_
      serials := ?_
      tracked := fun m hm => ?_
      fresh := fun n hn => hr.fresh n (Nat.le_of_succ_le hn) }
  · change u16 (h.countResentMsgs + 1) = (h.resentMsgs ++ [_]).length
    rw [length_append, length_singleton, hcount]
    exact Nat.mod_eq_of_lt (by omega)
  · change (h.resentMsgs ++ [_]).length < 65536
    rw [length_append, length_singleton]
    omega
  · change (h.resentMsgs ++ [_]).length ≤ h.resendingQueueMsgs
    have hfree := hplace hpos
    rw [length_append, length_singleton]
    omega
  · change ((h.resentMsgs ++ [_]).map SendMsg.serial).Nodup
    rw [map_append, nodup_append]
    refine ⟨hr.serials, pairwise_singleton _ _, ?_⟩
    intro n hn n' hn'
    obtain ⟨m, hm, rfl⟩ := mem_map.mp hn
    rw [map_singleton, mem_singleton] at hn'
    rw [hn']
    exact Nat.ne_of_lt (hr.tracked m hm).serial_lt
  · rcases mem_append.mp hm with hm | hm
    · have ht := hr.tracked m hm
      exact { ht with serial_lt := Nat.lt_succ_of_lt ht.serial_lt }
    · rw [mem_singleton.mp hm]
      exact ⟨Nat.lt_succ_self _, hlen, Nat.zero_le c, hresends, hfailures⟩

/-- Some messages are taken out of the list, and the counter is set to what is left. -/
theorem Resending.sublist {msgs : List SendMsg} {count : Nat} (hr : Resending c h)
    (hsub : msgs.Sublist h.resentMsgs) (hcount : count = msgs.length) :
    Resending c { h with resentMsgs := msgs, countResentMsgs := count } where
  count := hcount
  length_lt := Nat.lt_of_le_of_lt hsub.length_le hr.length_lt
  places := fun hpos => Nat.le_trans hsub.length_le (hr.places hpos)
  serials := hr.serials.sublist (hsub.map _)
  tracked := fun m hm => hr.tracked m (hsub.subset hm)
  __ := hr

theorem Resending.removeFirst (hr : Resending c h) (p : SendMsg → Bool) : Resending c (sendMsgRemoveFirst h p) := by
  unfold sendMsgRemoveFirst
  split_ifs with hany
  · obtain ⟨m, hm, hp⟩ := any_eq_true.mp hany
    refine hr.sublist eraseP_sublist ?_
    have hlt := hr.length_lt
    have hpos := length_pos_of_mem hm
    rw [hr.count, length_eraseP_of_mem hm hp]
    unfold sub16 u16i
    omega
  · exact hr

theorem Resending.clear (hr : Resending c h) : Resending c (clearRetransmissionBuffer h) := by
  have hlt := hr.length_lt
  refine hr.sublist (nil_sublist _) ?_
  rw [hr.count, foldl_sub16 _ (Nat.le_refl _) hlt, Nat.sub_self]
  rfl

end Steps

/-! ## Execution -/

section

variable {c fuel now : Nat} {env : Env} {m : SendMsg}

theorem exists_first_due {l : List SendMsg} (hfind : l.find? (·.due now) = some m) :
    ∃ pre post, l = pre ++ m :: post ∧ (∀ y ∈ pre, y.due now = false) ∧ m.due now = true := by
  obtain ⟨hdue, pre, post, rfl, hpre⟩ := find?_eq_some_iff_append.mp hfind
  refine ⟨pre, post, rfl, fun y hy => ?_, hdue⟩
  simpa using hpre y hy

variable {pre post : List SendMsg}

theorem Resending.others (hr : Resending c h) (hmsgs : h.resentMsgs = pre ++ m :: post) :
    ∀ x ∈ pre ++ post, x.serial ≠ m.serial := by
  have hnodup := hr.serials
  rw [hmsgs, map_append, map_cons, nodup_middle, ← map_append, nodup_cons] at hnodup
  exact fun x hx heq => hnodup.1 (heq ▸ mem_map_of_mem hx)

theorem Resending.resend (hr : Resending c h) (hc : c < 255)
    (hmsgs : h.resentMsgs = pre ++ m :: post) (hagain : m.resendingCounter + 1 ≤ c) :
    Resending c { h.emit (.resend m.serial) with resentMsgs := pre ++ resent env h now m :: post } := by
  have ht := hr.tracked m (hmsgs ▸ mem_append_right _ (.head _))
  have hcounter : (resent env h now m).resendingCounter = m.resendingCounter + 1 := Nat.mod_eq_of_lt (by omega)
  have hserials : (pre ++ resent env h now m :: post).map SendMsg.serial = h.resentMsgs.map SendMsg.serial := by
    rw [hmsgs, map_append, map_append, map_cons, map_cons]
    rfl
  have hlength : (pre ++ resent env h now m :: post).length = h.resentMsgs.length := by
    rw [hmsgs, length_append, length_append, length_cons, length_cons]
  have hresends : ∀ n, resends (h.log ++ [.resend m.serial]) n =
      resends h.log n + if m.serial = n then 1 else 0 := resends_append_resend _
  have hfailures : ∀ n, failures (h.log ++ [.resend m.serial]) n = failures h.log n := failures_append_resend _
  refine { hr with
      count := hr.count.trans hlength.symm
      length_lt := hlength ▸ hr.length_lt
      places := fun hpos => Nat.le_trans (Nat.le_of_eq hlength) (hr.places hpos)
      serials := hserials ▸ hr.serials
      tracked := fun x hx => ?_
      resends_le := fun n => ?_
      failures_le := fun n => Nat.le_trans (Nat.le_of_eq (hfailures n)) (hr.failures_le n)
      fresh := fun n hn => ?_ }
  · rcases mem_cons.mp (perm_middle.mem_iff.mp hx) with rfl | hx
    · refine ⟨ht.serial_lt, ht.packet_lt, hcounter ▸ hagain, (hresends _).trans ?_, (hfailures _).trans ht.silent⟩
      have hsame : m.serial = (resent env h now m).serial := rfl
      rw [if_pos hsame, hcounter]
      exact congrArg (· + 1) ht.counter_eq
    · refine (hr.tracked x (hmsgs ▸ perm_middle.mem_iff.mpr (.tail _ hx))).of_log ((hresends _).trans ?_) (hfailures _)
      rw [if_neg (hr.others hmsgs x hx).symm]
      rfl
  · refine Nat.le_trans (Nat.le_of_eq (hresends n)) ?_
    split_ifs with heq
    · rw [← heq, ht.counter_eq]
      exact hagain
    · exact hr.resends_le n
  · obtain ⟨hnone, hnever⟩ := hr.fresh n hn
    have hlt := ht.serial_lt
    refine ⟨(hresends n).trans ?_, (hfailures n).trans hnever⟩
    have hne : m.serial ≠ n := by
      change h.serial ≤ n at hn
      omega
    rw [if_neg hne]
    exact hnone

/-- The report about a message that is not in the list any more. -/
theorem Resending.failed (hr : Resending c h) {n : Nat} (hn : n < h.serial)
    (hgone : ∀ m ∈ h.resentMsgs, m.serial ≠ n) (hsilent : failures h.log n = 0) :
    Resending c (h.emit (.sendingFailed n)) := by
  have hresends : ∀ i, resends (h.log ++ [.sendingFailed n]) i = resends h.log i := resends_append_failed _
  have hfailures : ∀ i, failures (h.log ++ [.sendingFailed n]) i =
      failures h.log i + if n = i then 1 else 0 := failures_append_failed _
  refine { hr with
      tracked := fun m hm => (hr.tracked m hm).of_log (hresends _) ((hfailures _).trans ?_)
      resends_le := fun i => Nat.le_trans (Nat.le_of_eq (hresends i)) (hr.resends_le i)
      failures_le := fun i => Nat.le_trans (Nat.le_of_eq (hfailures i)) ?_
      fresh := fun i hi => ?_ }
  · rw [if_neg (hgone m hm).symm]
    rfl
  · split_ifs with heq
    · exact Nat.le_of_eq (by rw [← heq, hsilent])
    · exact hr.failures_le i
  obtain ⟨hnone, hnever⟩ := hr.fresh i hi
  refine ⟨(hresends i).trans hnone, (hfailures i).trans ?_⟩
  have hne : n ≠ i := by
    change h.serial ≤ i at hi
    omega
  rw [if_neg hne]
  exact hnever

theorem removeFirst_msgs (hmsgs : h.resentMsgs = pre ++ m :: post) (hpre : ∀ y ∈ pre, y.due now = false)
    (hdue : m.due now = true) : (sendMsgRemoveFirst h (·.due now)).resentMsgs = pre ++ post := by
  have hany : h.resentMsgs.any (·.due now) = true := any_eq_true.mpr ⟨m, hmsgs ▸ mem_append_right _ (.head _), hdue⟩
  have hnone : ¬ ∃ y ∈ pre, y.due now = true := by
    rintro ⟨y, hy, hyes⟩
    rw [hpre y hy] at hyes
    cases hyes
  unfold sendMsgRemoveFirst
  rw [if_pos hany]
  rw [hmsgs, eraseP_append_right _ (fun y hy hyes => hnone ⟨y, hy, hyes⟩), eraseP_cons_of_pos hdue]

/-- One scan keeps the invariant, and a message has fewer transmissions left or is gone. -/
theorem Resending.step (hr : Resending c h) (hc : c < 255)
    (hok : execStep fuel env now h = .ok (.more h')) : Resending c h' ∧
      ∃ pre m post, h.resentMsgs = pre ++ m :: post ∧ (h'.resentMsgs = pre ++ post ∨
        ∃ m', h'.resentMsgs = pre ++ m' :: post ∧ m'.packet = m.packet ∧ m'.resendingCounter = m.resendingCounter + 1) := by
  obtain ⟨m, hfind, hcases⟩ := execStep_more hok
  obtain ⟨pre, post, hmsgs, hpre, hdue⟩ := exists_first_due hfind
  have ht := hr.tracked m (hmsgs ▸ mem_append_right _ (.head _))
  have hcounter : u8 (m.resendingCounter + 1) = m.resendingCounter + 1 :=
    Nat.mod_eq_of_lt (Nat.lt_of_le_of_lt (Nat.succ_le_succ ht.counter_le) (by omega))
  have hremoved := removeFirst_msgs hmsgs hpre hdue
  have hkeeps := hr.removeFirst (·.due now)
  obtain ⟨msgs, count, hframe⟩ := sendMsgRemoveFirst_frame h (·.due now)
  rcases hcases with ⟨-, rfl | rfl⟩ | ⟨hagain, rfl⟩
  · exact ⟨hkeeps, pre, m, post, hmsgs, .inl hremoved⟩
  · refine ⟨hkeeps.failed ?_ ?_ ?_, pre, m, post, hmsgs, .inl hremoved⟩
    · rw [hframe]
      exact ht.serial_lt
    · rw [hremoved]
      exact hr.others hmsgs
    · rw [hframe]
      exact ht.silent
  · rw [hcounter, hr.limit] at hagain
    have hreplace : replaceFirst (·.due now) (resent env h now) h.resentMsgs = pre ++ resent env h now m :: post := by
      rw [hmsgs]
      exact replaceFirst_append _ post hpre hdue
    refine ⟨?_, pre, m, post, hmsgs, .inr ⟨resent env h now m, hreplace, rfl, hcounter⟩⟩
    rw [hreplace]
    exact hr.resend hc hmsgs hagain

theorem aside_execStart (h : Handle) (now : Nat) : Aside h (execStart h now) := .silent rfl rfl rfl rfl rfl rfl

theorem Resending.exec (hr : Resending c h) (hc : c < 255) (hok : protocolExec fuel env h now = .ok h') : Resending c h' := by
  refine loop_invariant (P := Resending c) (Q := Resending c) (fun s s' hs hstep => (hs.step hc hstep).1)
    (fun s r hs hstep => ?_) (hr.aside (aside_execStart h now)) hok
  rw [execStep_done hstep]
  exact hs

/-! ## Termination -/

/-- The transmissions that are left, with one removal for each message. -/
def transmissionsLeft (c : Nat) (l : List SendMsg) : Nat := (l.map fun m => c + 1 - m.resendingCounter).sum

theorem transmissionsLeft_append (c : Nat) (l l' : List SendMsg) :
    transmissionsLeft c (l ++ l') = transmissionsLeft c l + transmissionsLeft c l' := by
  rw [transmissionsLeft, map_append, sum_append]
  rfl

theorem transmissionsLeft_cons (c : Nat) (m : SendMsg) (l : List SendMsg) :
    transmissionsLeft c (m :: l) = c + 1 - m.resendingCounter + transmissionsLeft c l := by
  rfl

theorem Resending.step_lt (hr : Resending c h) (hc : c < 255) (hok : execStep fuel env now h = .ok (.more h')) :
    transmissionsLeft c h'.resentMsgs < transmissionsLeft c h.resentMsgs := by
  obtain ⟨-, pre, m, post, hmsgs, hmsgs' | ⟨m', hmsgs', -, hcounter⟩⟩ := hr.step hc hok
  all_goals
    have hle := (hr.tracked m (hmsgs ▸ mem_append_right _ (.head _))).counter_le
    rw [hmsgs', hmsgs, transmissionsLeft_append, transmissionsLeft_append, transmissionsLeft_cons]
  · omega
  · rw [transmissionsLeft_cons]
    omega

theorem mono_sendingFailed (env : Env) (h : Handle) (m : SendMsg) : Mono (fun k => sendingFailed k env h m) := by
  unfold sendingFailed
  split
  · exact mono_bind (mono_snCoapParser _ _) fun _ => mono_const _
  · exact mono_const _

theorem mono_execStep (env : Env) (now : Nat) (h : Handle) : Mono (fun k => execStep k env now h) := by
  unfold execStep
  split
  · exact mono_const _
  split
  · exact mono_bind (mono_sendingFailed env _ _) fun _ => mono_const _
  · exact mono_const _

/-- The parser ends on the packet of a stored message. -/
def Parsable (env : Env) (m : SendMsg) : Prop :=
  ∀ s, LoopHead (packetMem m.packet env.tail) m.packet.length s → ¬ Stuck (packetMem m.packet env.tail) m.packet.length s

theorem Parsable.terminates (hm : Parsable env m) (hlen : m.packet.length < 65536) :
    Terminates (packetMem m.packet env.tail) m.packet.length :=
  terminates_of_advances fun s hs => (advances_iff hlen (loopHead_messageLeft hs)).mpr (hm s hs)

theorem sendingFailed_outcome (hlen : m.packet.length < 65536) (hm : h.rxCallback = true → Parsable env m) :
    ∃ x, Outcome (fun k => sendingFailed k env h m) x := by
  unfold sendingFailed
  by_cases hcallback : h.rxCallback = true
  · simp only [if_pos hcallback]
    refine exists_outcome_then (mono_snCoapParser _ _) ((hm hcallback).terminates hlen) fun parsed => ?_
    split <;> exact pure_ne_fuel _
  · simp only [if_neg hcallback]
    exact ⟨_, outcome_const (by simp)⟩

/-- The parser ends on all stored messages, if it is called at all. -/
def AllParsable (env : Env) (h : Handle) : Prop := h.rxCallback = true → ∀ m ∈ h.resentMsgs, Parsable env m

theorem execStep_outcome (hr : Resending c h) (hp : AllParsable env h) : ∃ x, Outcome (fun k => execStep k env now h) x := by
  unfold execStep
  split
  · exact ⟨_, outcome_const (by simp)⟩
  rename_i m hfind
  have hmem : m ∈ h.resentMsgs := mem_of_find?_eq_some hfind
  split
  · obtain ⟨msgs, count, hframe⟩ := sendMsgRemoveFirst_frame h (·.due now)
    have hfailed : ∃ x, Outcome (fun k => sendingFailed k env (sendMsgRemoveFirst h (·.due now)) m) x := by
      refine sendingFailed_outcome (hr.tracked m hmem).packet_lt fun hcallback => ?_
      rw [hframe] at hcallback
      exact hp hcallback m hmem
    exact exists_outcome_then (mono_sendingFailed env _ m) hfailed fun _ => pure_ne_fuel _
  · exact ⟨_, outcome_const (by simp)⟩

theorem AllParsable.step (hp : AllParsable env h) (hr : Resending c h) (hc : c < 255)
    (hok : execStep fuel env now h = .ok (.more h')) : AllParsable env h' := by
  have hself : ResendingOnly h h := ⟨h.resentMsgs, h.countResentMsgs, h.log, rfl⟩
  obtain ⟨_, _, _, hframe⟩ := hself.step hok
  obtain ⟨-, pre, m, post, hmsgs, hcases⟩ := hr.step hc hok
  intro hcallback x hx
  rw [hframe] at hcallback
  have hold (y : SendMsg) (hy : y ∈ pre ++ post) : Parsable env y := hp hcallback y (hmsgs ▸ perm_middle.mem_iff.mpr (.tail _ hy))
  rcases hcases with hmsgs' | ⟨m', hmsgs', hpacket, -⟩
  · exact hold x (hmsgs' ▸ hx)
  rw [hmsgs', perm_middle.mem_iff, mem_cons] at hx
  rcases hx with rfl | hx
  · have hm := hp hcallback m (hmsgs ▸ mem_append_right _ (.head _))
    unfold Parsable at hm ⊢
    rw [hpacket]
    exact hm
  · exact hold x hx

/-- The scans end: each of them decreases the number of transmissions that are left. -/
theorem protocolExec_outcome (hr : Resending c h) (hc : c < 255) (hp : AllParsable env h) :
    ∃ x, Outcome (fun k => protocolExec k env h now) x := by
  have hloop := loop_of_measure (fun k => execStep k env now) (mono_execStep env now)
    (fun s => transmissionsLeft c s.resentMsgs) (execStart h now) fun s hs => by
      have hinv : Resending c s ∧ AllParsable env s := by
        induction hs with
        | refl => exact ⟨hr.aside (aside_execStart h now), hp⟩
        | tail _ hlast ih =>
          obtain ⟨-, k, hk⟩ := hlast
          exact ⟨(ih.1.step hc hk).1, ih.2.step ih.1 hc hk⟩
      obtain ⟨x, hx⟩ : ∃ x, Outcome (fun k => execStep k env now s) x := execStep_outcome hinv.1 hinv.2
      refine ⟨x, hx, ?_⟩
      rintro s' rfl
      obtain ⟨-, k, hk⟩ := hx
      exact hinv.1.step_lt hc hk
  simpa only [protocolExec_eq] using hloop

end

/-! ## Runs -/

section

variable {c fuel : Nat} {env : Env} {dst : Address} {m : Hdr} {packet : Bytes}

theorem Resending.buildResending (hr : Resending c h) (hroom : Room h)
    (hlen : packet.length < 65536) (hs : buildResending env h dst m packet = some h') : Resending c h' := by
  unfold Coap.buildResending at hs
  split at hs
  · exact hr.store hroom hlen hs
  · cases hs
    exact hr

theorem Resending.build {m' : Hdr} {ret : Int} (hr : Resending c h) (hroom : Room h)
    (hok : protocolBuild env h dst m = .ok (ret, m', h')) : Resending c h' := by
  obtain ⟨messageId, msgId, hid⟩ := giveMessageId_frame h m
  obtain ⟨-, hmsg⟩ := protocolBuild_ok hid hok
  have haside : Aside h { h with messageId := messageId } := .silent rfl rfl rfl rfl rfl rfl
  have hr0 := hr.aside haside
  rcases buildMsg_ok hmsg with ⟨rfl, -⟩ | ⟨h1, hresending, hrest⟩
  · exact hr0
  have hr1 := hr0.buildResending (haside.room hroom) (builtPacket_length _ _ _) hresending
  rcases hrest with ⟨rfl, -⟩ | ⟨h2, ret0, hduplication, hstore⟩
  · exact hr1
  obtain ⟨msgs, rfl⟩ := buildDuplication_frame hduplication
  have hr2 : Resending c { h1 with duplicationMsgs := msgs } := hr1.aside (.silent rfl rfl rfl rfl rfl rfl)
  exact hr2.aside (buildStore_quiet hstore).aside

theorem Resending.parse {src : Address} {tail : Nat → Option UInt8} {r : Option Hdr} (hr : Resending c h) (hroom : Room h)
    (hok : protocolParse fuel env h src packet tail = .ok (r, h')) : Resending c h' := by
  obtain ⟨parsed, -, hok⟩ := bind_eq_ok hok
  split at hok
  · cases hok
    exact hr
  rcases parseMsg_ok hok with ⟨-, -, rfl | rfl⟩ | ⟨duplicate, h1, hdetect, hcases⟩
  · exact hr
  · exact hr.aside (Quiet.sendRst h _ _).aside
  obtain ⟨msgs, count, events, hevents, hframe⟩ := detectDuplicate_frame hdetect
  have haside : Aside h h1 := by
    rw [hframe]
    exact ⟨rfl, rfl, rfl, rfl, rfl, events, hevents, rfl⟩
  have hr1 := hr.aside haside
  rcases hcases with ⟨-, -, rfl⟩ | ⟨-, r2, h2, hblocks, -, hstop⟩
  · exact hr1
  have hr2 : Resending c h2 := by
    rcases (parseBlocks_handled hblocks).change with hquiet | ⟨h3, packet, time, hquiet, hlen, hstore⟩
    · exact hr1.aside hquiet.aside
    · exact (hr1.aside hquiet.aside).store (hquiet.aside.room (haside.room hroom)) hlen hstore
  rcases hstop with ⟨-, rfl⟩ | ⟨m2, -, rfl⟩
  · exact hr2
  unfold stopResending
  split
  · exact hr2.removeFirst _
  · exact hr2

end

/-- The runs of the calls that change the resending list, with the limit `c`. -/
inductive ResendRun (c : Nat) : Handle → Prop
  | start {h : Handle} : h.resendingCount = c → h.resendingQueueMsgs < 256 → h.resentMsgs = [] →
      h.countResentMsgs = 0 → h.log = [] → ResendRun c h
  | build {h h' : Handle} {env : Env} {dst : Address} {m m' : Hdr} {ret : Int} : ResendRun c h →
      Room h → protocolBuild env h dst m = .ok (ret, m', h') → ResendRun c h'
  | parse {h h' : Handle} {fuel : Nat} {env : Env} {src : Address} {packet : Bytes}
      {tail : Nat → Option UInt8} {r : Option Hdr} : ResendRun c h → Room h →
      protocolParse fuel env h src packet tail = .ok (r, h') → ResendRun c h'
  | exec {h h' : Handle} {fuel now : Nat} {env : Env} : ResendRun c h → protocolExec fuel env h now = .ok h' → ResendRun c h'
  | delete {h : Handle} (msgId : Nat) : ResendRun c h → ResendRun c (deleteRetransmission h msgId).1
  | clear {h : Handle} : ResendRun c h → ResendRun c (clearRetransmissionBuffer h)

theorem ResendRun.resending {c : Nat} {h : Handle} (hrun : ResendRun c h) (hc : c < 255) : Resending c h := by
  induction hrun with
  | start hlimit hqueue hmsgs hcount hlog => constructor <;> simp [hlimit, hqueue, hmsgs, hcount, hlog, resends, failures]
  | build _ hroom hok ih => exact ih.build hroom hok
  | parse _ hroom hok ih => exact ih.parse hroom hok
  | exec _ hok ih => exact ih.exec hc hok
  | delete msgId _ ih => exact ih.removeFirst _
  | clear _ ih => exact ih.clear

/-- In every run the counter is the length of the list, no message is transmitted more than `c`
times or reported more than once, and exec ends if the parser is not stuck on a stored
packet. -/
theorem resending_bounded {c : Nat} {h : Handle} (hc : c < 255) (hrun : ResendRun c h) :
    h.countResentMsgs = h.resentMsgs.length ∧ (∀ n, resends h.log n ≤ c ∧ failures h.log n ≤ 1) ∧
      ∀ env now, AllParsable env h → ∃ x, Outcome (fun k => protocolExec k env h now) x := by
  have hr := hrun.resending hc
  refine ⟨hr.count, fun n => ⟨hr.resends_le n, hr.failures_le n⟩, ?_⟩
  intro env now hp
  exact protocolExec_outcome hr hc hp

/-! ## Concrete runs -/

def server : Address := ⟨[10, 0, 0, 1], 5683⟩

/-- A handle that resends a message once, with one message of the server in its list. -/
def resendingOnce (counter time : Nat) (packet : Bytes) (now : Nat) (log : List Event) :
    Handle where
  resentMsgs := [⟨0, counter, time, packet, server⟩]
  countResentMsgs := 1
  resendingCount := 1
  systemTime := now
  messageId := 2
  serial := 1
  log := log

/-- A confirmable POST without options, as it is stored. -/
def postPacket : Bytes := [0x40, 0x02, 0x00, 0x01]

theorem resendRun_post : ResendRun 1 (resendingOnce 0 10 postPacket 0 []) := by
  have hstart : ResendRun 1 { resendingCount := 1 } := .start rfl (by decide) rfl rfl rfl
  have hbuild : protocolBuild calm { resendingCount := 1 } server { msgType := .confirmable, msgCode := 2 } =
      .ok (4, { msgType := .confirmable, msgCode := 2, msgId := 1 }, resendingOnce 0 10 postPacket 0 []) := by decide +kernel
  exact hstart.build (fun hzero => absurd hzero (by decide)) hbuild

/-- The options loop of the parser leaves at its head: there is nothing after the header. -/
theorem parsable_post (counter time : Nat) : Parsable calm ⟨0, counter, time, postPacket, server⟩ := by
  rintro s ⟨m, version, m', s0, hm, ht, hs⟩
  have hend : Outcome (fun k => optionsStep k (packetMem postPacket calm.tail) 4 ⟨4, 0, 0, { msgCode := 2, msgId := 1 }⟩)
      (.ok (.done (.ok 4 { msgCode := 2, msgId := 1 }))) := ⟨by simp, 0, rfl⟩
  cases hm
  cases ht
  rcases hs.first (mono_optionsStep _ _) hend with rfl | ⟨s', hs', -⟩
  · exact fun hstuck => hstuck.1 rfl
  · cases hs'

/-- A message in the list is transmitted at most once, and exec returns at every time. -/
theorem resending_bounded_post :
    (∀ n, resends (resendingOnce 0 10 postPacket 0 []).log n ≤ 1) ∧
      ∃ x, Outcome (fun k => protocolExec k calm (resendingOnce 0 10 postPacket 0 []) 10) x := by
  obtain ⟨-, hbounds, hexec⟩ := resending_bounded (by decide) resendRun_post
  refine ⟨fun n => (hbounds n).1, hexec calm 10 ?_⟩
  intro _ m hm
  rw [mem_singleton.mp hm]
  exact parsable_post 0 10

/-- A POST with an empty Uri-Port and an empty Location-Query. -/
def queryRequest : Hdr where
  msgType := .confirmable
  msgCode := 2
  optionsListPtr := some { uriPort := 0, locationQueryPtr := some [] }

/-- The request as the builder writes it with the message ID 1. -/
def queryPacket : Bytes := [0x40, 0x02, 0x00, 0x01, 0x70, 0xd0, 0x00]

theorem resendRun_query : ResendRun 1 (resendingOnce 1 30 queryPacket 10 [.resend 0]) := by
  have hstart : ResendRun 1 { resendingCount := 1 } := .start rfl (by decide) rfl rfl rfl
  have hbuild : protocolBuild calm { resendingCount := 1 } server queryRequest =
      .ok (7, { queryRequest with msgId := 1 }, resendingOnce 0 10 queryPacket 0 []) := by
    decide +kernel
  have hexec : protocolExec 2 calm (resendingOnce 0 10 queryPacket 0 []) 10 =
      .ok (resendingOnce 1 30 queryPacket 10 [.resend 0]) := rfl
  exact (hstart.build (fun hzero => absurd hzero (by decide)) hbuild).exec hexec

/-- The request is stored and resent once; when it is due again, exec does not return. -/
theorem not_exec_terminates_query : ∃ h, ResendRun 1 h ∧ ¬ ∃ x, Outcome (fun k => protocolExec k calm h 30) x := by
  refine ⟨_, resendRun_query, ?_⟩
  rw [← not_diverges_iff, not_not]
  have hfailed : Diverges fun k => sendingFailed k calm
      (sendMsgRemoveFirst (resendingOnce 1 30 queryPacket 30 [.resend 0]) (·.due 30))
      ⟨0, 1, 30, queryPacket, server⟩ := .bind_left (emptyQuery_diverges 2 1 _)
  have hstep : Diverges fun k => execStep k calm 30 (resendingOnce 1 30 queryPacket 30 [.resend 0]) := Diverges.bind_left hfailed
  exact loop_diverges_of_step hstep

end MbedCloud.Coap

