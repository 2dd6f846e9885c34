import MbedCloud.Coap.Protocol

/-!
# What the calls change

The parts of the handle that a function of `sn_coap_protocol.c` can change. A frame is stated
as an equation: the new handle is the old one with other values in these parts. What is neither
about duplicates nor about resending is a `Quiet` change.
-/

namespace MbedCloud.Coap

open Lib List

section Frames

variable {env : Env} {h h' : Handle} {dst : Address} {m : Hdr} {packet : Bytes}

theorem sendMsgStore_frame {time : Nat} (hs : sendMsgStore env h dst packet time = some h') :
    ∃ msgs count serial, h' = { h with resentMsgs := msgs, countResentMsgs := count, serial := serial } := by
  unfold sendMsgStore at hs
  split_ifs at hs <;> cases hs
  · exact ⟨h.resentMsgs, h.countResentMsgs, h.serial, rfl⟩
  · exact ⟨_, _, _, rfl⟩

theorem buildResending_frame (hs : buildResending env h dst m packet = some h') :
    ∃ msgs count serial, h' = { h with resentMsgs := msgs, countResentMsgs := count, serial := serial } := by
  unfold buildResending at hs
  split_ifs at hs
  · exact sendMsgStore_frame hs
  · cases hs
    exact ⟨h.resentMsgs, h.countResentMsgs, h.serial, rfl⟩

theorem buildDuplication_frame (hs : buildDuplication env h dst m packet = some h') :
    ∃ msgs, h' = { h with duplicationMsgs := msgs } := by
  unfold buildDuplication at hs
  split at hs
  · split at hs
    · cases hs
      exact ⟨h.duplicationMsgs, rfl⟩
    · split_ifs at hs <;> cases hs
      · exact ⟨h.duplicationMsgs, rfl⟩
      · exact ⟨_, rfl⟩
  · cases hs
    exact ⟨h.duplicationMsgs, rfl⟩

theorem giveMessageId_frame (h : Handle) (m : Hdr) :
    ∃ messageId msgId, giveMessageId h m = ({ h with messageId := messageId }, { m with msgId := msgId }) := by
  unfold giveMessageId
  split_ifs
  · exact ⟨_, _, rfl⟩
  · exact ⟨h.messageId, m.msgId, rfl⟩

/-- The packet that is stored for a built message. -/
def builtPacket (heap : Heap) (m : Hdr) (blockDataSize : Nat) : Bytes :=
  ((snCoapBuilder2 heap m blockDataSize).getD []).take (builderReturn (snCoapBuilder2 heap m blockDataSize)).toNat

theorem builtPacket_length (heap : Heap) (m : Hdr) (blockDataSize : Nat) : (builtPacket heap m blockDataSize).length < 65536 := by
  have hret : ∀ built, (builderReturn built).toNat < 65536 := by
    intro built
    cases built with
    | none => decide
    | some out =>
      simp only [builderReturn, i16]
      omega
  rw [builtPacket, length_take]
  exact Nat.lt_of_le_of_lt (Nat.min_le_left _ _) (hret _)

theorem calcNeededPacketDataSize2_lt (heap : Heap) (m : Hdr) (size : Nat) : calcNeededPacketDataSize2 heap m size < 65536 := by
  unfold calcNeededPacketDataSize2
  split
  · decide
  split
  · decide
  · exact Nat.mod_lt _ (by decide)

/-- `buildMsg` fails, or the packet goes through the stages of `buildResending`,
`buildDuplication` and `buildStore`. -/
theorem buildMsg_ok {original : Nat} {ret : Int} (hok : buildMsg env h dst m original = .ok (ret, h')) :
    h' = h ∧ ret < 0 ∨
      ∃ h1, buildResending env h dst m (builtPacket env.heap m h.blockDataSize) = some h1 ∧
        (h' = h1 ∧ ret < 0 ∨
          ∃ h2 ret0, buildDuplication env h1 dst m (builtPacket env.heap m h.blockDataSize) = some h2 ∧
            buildStore env h2 m original ret0 = .ok (ret, h')) := by
  unfold buildMsg at hok
  dsimp only at hok
  split_ifs at hok with hneg
  · cases hok
    exact .inl ⟨rfl, hneg⟩
  split at hok
  · cases hok
    exact .inl ⟨rfl, by decide⟩
  rename_i h1 hresend
  refine .inr ⟨h1, hresend, ?_⟩
  split at hok
  · cases hok
    exact .inl ⟨rfl, by decide⟩
  rename_i h2 hdup
  exact .inr ⟨h2, _, hdup, hok⟩

theorem protocolBuild_ok {h0 : Handle} {m0 m' : Hdr} {ret : Int}
    (hid : giveMessageId h m = (h0, m0)) (hok : protocolBuild env h dst m = .ok (ret, m', h')) :
    m' = firstBlock h0 m0 ∧ buildMsg env h0 dst (firstBlock h0 m0)
      (if inBlocks h0 m0.payloadLen then m0.payloadLen else 0) = .ok (ret, h') := by
  unfold protocolBuild at hok
  rw [hid] at hok
  obtain ⟨result, hmsg, hok⟩ := bind_eq_ok hok
  cases hok
  exact ⟨rfl, hmsg⟩

/-- The building fails, or the message goes to `buildStore` with the list of sent messages as it was. -/
theorem protocolBuild_stores {m' : Hdr} {ret : Int} (hok : protocolBuild env h dst m = .ok (ret, m', h')) :
    ∃ msgId, m' = firstBlock h { m with msgId := msgId } ∧
      (ret < 0 ∧ h'.sentMsgs = h.sentMsgs ∨
        ∃ h2 ret0, h2.sentMsgs = h.sentMsgs ∧ (∀ n, inBlocks h2 n = inBlocks h n) ∧
          buildStore env h2 m' (if inBlocks h m.payloadLen then m.payloadLen else 0) ret0 = .ok (ret, h')) := by
  obtain ⟨messageId, msgId, hid⟩ := giveMessageId_frame h m
  obtain ⟨rfl, hmsg⟩ := protocolBuild_ok hid hok
  refine ⟨msgId, rfl, ?_⟩
  rcases buildMsg_ok hmsg with ⟨rfl, hneg⟩ | ⟨h1, hresending, hrest⟩
  · exact .inl ⟨hneg, rfl⟩
  obtain ⟨_, _, _, rfl⟩ := buildResending_frame hresending
  rcases hrest with ⟨rfl, hneg⟩ | ⟨h2, ret0, hduplication, hstore⟩
  · exact .inl ⟨hneg, rfl⟩
  obtain ⟨_, rfl⟩ := buildDuplication_frame hduplication
  exact .inr ⟨_, ret0, by rfl, fun _ => by rfl, hstore⟩

end Frames

/-! ## Quiet changes -/

/-- The events that are not about the stored messages. -/
def Event.quiet : Event → Bool
  | .tx .. => true
  | .block .. => true
  | .resend _ => false
  | .sendingFailed _ => false

/-- A change of the blockwise lists, the next message ID and the log only. -/
def Quiet (h h' : Handle) : Prop :=
  ∃ sent received messageId events, (∀ e ∈ events, e.quiet = true) ∧
    h' = { h with
      sentMsgs := sent
      receivedPayloads := received
      messageId := messageId
      log := h.log ++ events }

namespace Quiet

variable {env : Env} {h h' h'' : Handle}

theorem lists (h : Handle) (sent : List BlockwiseMsg) (received : List BlockwisePayload) (messageId : Nat) :
    Quiet h { h with
      sentMsgs := sent
      receivedPayloads := received
      messageId := messageId } := ⟨sent, received, messageId, [], forall_mem_nil _, by rw [append_nil]⟩

theorem refl (h : Handle) : Quiet h h := lists h h.sentMsgs h.receivedPayloads h.messageId

theorem trans (hq : Quiet h h') (hq' : Quiet h' h'') : Quiet h h'' := by
  obtain ⟨_, _, _, events, hevents, rfl⟩ := hq
  obtain ⟨sent, received, messageId, events', hevents', rfl⟩ := hq'
  refine ⟨sent, received, messageId, events ++ events', fun e he => ?_, ?_⟩
  · rcases mem_append.mp he with he | he
    · exact hevents e he
    · exact hevents' e he
  · simp only [append_assoc]

theorem emit (h : Handle) {e : Event} (he : e.quiet = true) : Quiet h (h.emit e) :=
  ⟨h.sentMsgs, h.receivedPayloads, h.messageId, [e],
    fun _ he' => mem_singleton.mp he' ▸ he, rfl⟩

theorem takeMessageId (h : Handle) : Quiet h h.takeMessageId := lists h h.sentMsgs h.receivedPayloads _

theorem sent (h : Handle) (msgs : List BlockwiseMsg) : Quiet h { h with sentMsgs := msgs } :=
  lists h msgs h.receivedPayloads h.messageId

theorem received (h : Handle) (payloads : List BlockwisePayload) :
    Quiet h { h with receivedPayloads := payloads } := lists h h.sentMsgs payloads h.messageId

theorem buildAndSend (env : Env) (h : Handle) (msg : Hdr) (dst : Address) : Quiet h (buildAndSend env h msg dst) := emit h rfl

theorem sendRst (h : Handle) (msgId : Nat) (dst : Address) : Quiet h (sendRst h msgId dst) := emit h rfl

theorem blockwisePayloadStore (env : Env) (h : Handle) (src : Address) (len : Nat)
    (ptr : Option Bytes) (num : Nat) : Quiet h (blockwisePayloadStore env h src len ptr num) := by
  unfold Coap.blockwisePayloadStore
  split
  · exact refl h
  split_ifs
  · exact received h _
  · exact refl h

end Quiet

theorem buildStore_quiet {env : Env} {h h' : Handle} {m : Hdr} {original : Nat} {ret ret' : Int}
    (hok : buildStore env h m original ret = .ok (ret', h')) : Quiet h h' := by
  unfold buildStore at hok
  split at hok
  · unfold storeBlocks at hok
    repeat' split at hok
    all_goals cases hok
    all_goals first | exact .refl h | exact .sent h _
  split at hok
  · unfold storeGet at hok
    repeat' split at hok
    all_goals cases hok
    all_goals first | exact .refl h | exact .sent h _
  · cases hok
    exact .refl h

/-! ## Blocks -/

/-- Whether a call of parse reports a duplicate. -/
def reported (r : Option Hdr) : Bool := r.any fun m => decide (m.coapStatus = .parserDuplicatedMsg)

/-- A quiet change after which a message may be stored for resending, and a result that is not
reported as a duplicate unless the message was. -/
structure Handled (env : Env) (h : Handle) (src : Address) (m : Hdr) (r : Option Hdr) (h' : Handle) :
    Prop where
  change : Quiet h h' ∨ ∃ h1 packet time, Quiet h h1 ∧ packet.length < 65536 ∧ sendMsgStore env h1 src packet time = some h'
  notReported : m.coapStatus ≠ .parserDuplicatedMsg → reported r = false

section Blocks

variable {env : Env} {h h' : Handle} {src : Address} {m : Hdr} {r : Option Hdr}

theorem Handled.same (hq : Quiet h h') : Handled env h src m (some m) h' := ⟨.inl hq, decide_eq_false⟩

theorem Handled.other (hq : Quiet h h') (hr : reported r = false) : Handled env h src m r h' := ⟨.inl hq, fun _ => hr⟩

theorem Handled.after {h1 : Handle} (hq : Quiet h h1) (hh : Handled env h1 src m r h') : Handled env h src m r h' := by
  refine ⟨?_, hh.notReported⟩
  rcases hh.change with hq' | ⟨h2, packet, time, hq', hstore⟩
  · exact .inl (hq.trans hq')
  · exact .inr ⟨h2, packet, time, hq.trans hq', hstore⟩

theorem sendNextBlock1_handled : Handled env h src m (sendNextBlock1 env h src m).1 (sendNextBlock1 env h src m).2 := by
  unfold sendNextBlock1
  dsimp only
  split
  · split
    · exact .same (.refl h)
    split
    · exact .other (.refl h) rfl
    split
    · refine .other ?_ rfl
      exact (((Quiet.takeMessageId h).trans (.emit _ rfl)).trans (.buildAndSend env _ _ _)).trans (.sent _ _)
    · exact .other (.sent h _) rfl
  · exact .other (.refl h) rfl

theorem sendBlock2_handled (hok : sendBlock2 env h src m = .ok (r, h')) : Handled env h src m r h' := by
  unfold sendBlock2 at hok
  split at hok
  · cases hok
    exact .same (.refl h)
  · cases hok
  split at hok
  · cases hok
    exact .other (.refl h) rfl
  split at hok
  · cases hok
    refine .other ?_ rfl
    exact ((Quiet.emit h rfl).trans (.buildAndSend env _ _ _)).trans (.sent _ _)
  · cases hok
    exact .other (.sent h _) rfl

theorem receiveMore_quiet (blocksInOrder : Bool) : Quiet h (receiveMore env h src m blocksInOrder).2 := by
  have hremove : Quiet h (if blockTooLarge h m then blockwisePayloadRemoveOldest h else h) := by
    split_ifs
    · exact .received h _
    · exact .refl h
  unfold receiveMore
  by_cases halloc : (env.alloc .ackMessage && env.alloc .ackOptions) = true
  · rw [if_pos halloc]
    by_cases hpacket : env.alloc .ackPacket = true
    · rw [if_pos hpacket]
      exact hremove.trans (.buildAndSend env _ _ _)
    · rw [if_neg hpacket]
      exact hremove
  · rw [if_neg halloc]
    exact .refl h

theorem receiveMore_not_reported {blocksInOrder : Bool} : reported (receiveMore env h src m blocksInOrder).1 = false := by
  unfold receiveMore
  dsimp only
  split
  · split <;> rfl
  · rfl

theorem receiveLast_handled {m1 : Hdr} : Handled env h src m (receiveLast env h src m1).1 (receiveLast env h src m1).2 := by
  unfold receiveLast
  dsimp only
  split_ifs
  · exact .other (.refl h) rfl
  · exact .other (.received h _) rfl

theorem receiveBlock1_handled : Handled env h src m (receiveBlock1 env h src m).1 (receiveBlock1 env h src m).2 := by
  unfold receiveBlock1
  generalize (if m.payloadLen > h.blockDataSize then { m with payloadLen := h.blockDataSize }
    else m) = cut
  dsimp only
  split
  · exact .after (.blockwisePayloadStore env h _ _ _ _) (.other (receiveMore_quiet _) receiveMore_not_reported)
  · exact .after (.blockwisePayloadStore env h _ _ _ _) receiveLast_handled

theorem askNext_handled (env : Env) (h : Handle) (src : Address) (m ask : Hdr) :
    Handled env h src m (askNext env h src m ask).1 (askNext env h src m ask).2 := by
  unfold askNext
  dsimp only
  split
  · refine ⟨?_, fun _ => rfl⟩
    generalize hquiet : buildAndSend env _ ask src = h1
    have hh1 : Quiet h h1 := by
      rw [← hquiet]
      exact ((Quiet.sent h _).trans (.sent _ _)).trans (.buildAndSend env _ _ _)
    cases hstore : sendMsgStore env h1 src
      (((snCoapBuilder2 env.heap ask h.blockDataSize).getD []).take (calcNeededPacketDataSize2 env.heap ask h1.blockDataSize))
      (calculateNewResendTime h1.systemTime h1.resendingIntervall 0 (env.random h1.serial 0)) with
    | none => exact .inl hh1
    | some h2 =>
      refine .inr ⟨h1, _, _, hh1, ?_, hstore⟩
      rw [length_take]
      exact Nat.lt_of_le_of_lt (Nat.min_le_left _ _) (calcNeededPacketDataSize2_lt _ _ _)
  · exact .other (.sent h _) rfl

/-- The part of `receiveBlock2` that asks for the next block. -/
theorem receiveBlock2_more_handled {previous : Option Hdr} (hok : (match previous with
      | none => pure (none, h)
      | some previous =>
        if env.alloc .ackMessage && env.alloc .ackOptions then
          match askBlock2 env h m previous with
          | none => pure (none, h.takeMessageId)
          | some ask => pure (askNext env h.takeMessageId src m ask)
        else pure (none, h) : Exec Fault (Option Hdr × Handle)) = .ok (r, h')) :
    Handled env h src m r h' := by
  split at hok
  · cases hok
    exact .other (.refl h) rfl
  split at hok
  · split at hok
    · cases hok
      exact .other (.takeMessageId h) rfl
    · rename_i ask _
      have hask := Handled.after (.takeMessageId h) (askNext_handled env h.takeMessageId src m ask)
      rw [Except.ok.inj hok] at hask
      exact hask
  · cases hok
    exact .other (.refl h) rfl

theorem receiveBlock2_handled (hok : receiveBlock2 env h src m = .ok (r, h')) : Handled env h src m r h' := by
  unfold receiveBlock2 at hok
  dsimp only at hok
  split at hok
  · generalize hstored : blockwisePayloadStore env h src m.payloadLen m.payloadPtr
      (blockNumberOf m.options.block2.toNat) = h1 at hok
    have hh1 : Quiet h h1 := hstored ▸ .blockwisePayloadStore env h _ _ _ _
    split at hok
    · obtain ⟨previous, -, hok⟩ := bind_eq_ok hok
      exact .after hh1 (receiveBlock2_more_handled hok)
    · split at hok
      · cases hok
        exact .other (hh1.trans (.received h1 _)) rfl
      · cases hok
        exact .other hh1 rfl
  · cases hok
    exact .same (.refl h)

theorem handleBlockwiseMessage_handled (hok : handleBlockwiseMessage env h src m = .ok (r, h')) : Handled env h src m r h' := by
  unfold handleBlockwiseMessage at hok
  split at hok
  · split at hok
    · have hhandled : Handled env h src m (sendNextBlock1 env h src m).1 _ := sendNextBlock1_handled
      rw [Except.ok.inj hok] at hhandled
      exact hhandled
    · have hhandled : Handled env h src m (receiveBlock1 env h src m).1 _ := receiveBlock1_handled
      rw [Except.ok.inj hok] at hhandled
      exact hhandled
  · split at hok
    · exact receiveBlock2_handled hok
    · exact sendBlock2_handled hok

end Blocks

/-! ## Parsing -/

section

variable {env : Env} {h h' : Handle} {src : Address} {m : Hdr} {r : Option Hdr} {version : Nat}

theorem removeAnswered_quiet (hok : removeAnswered h m = .ok h') : Quiet h h' := by
  obtain ⟨stored, -, hok⟩ := bind_eq_ok hok
  split at hok
  · cases hok
    exact .refl h
  split at hok
  · cases hok
    exact .refl h
  · cases hok
    exact .sent h _

theorem parseBlocks_handled (hok : parseBlocks env h src m = .ok (r, h')) : Handled env h src m r h' := by
  unfold parseBlocks at hok
  split at hok
  · exact handleBlockwiseMessage_handled hok
  obtain ⟨h1, hanswered, hok⟩ := bind_eq_ok hok
  cases hok
  exact .same (removeAnswered_quiet hanswered)

theorem duplicationInfoStore_frame (env : Env) (h : Handle) (src : Address) (msgId : Nat) :
    ∃ msgs count, duplicationInfoStore env h src msgId = { h with duplicationMsgs := msgs, countDuplicationMsgs := count } := by
  unfold duplicationInfoStore
  split
  · exact ⟨_, _, rfl⟩
  · exact ⟨h.duplicationMsgs, h.countDuplicationMsgs, rfl⟩

theorem duplicationInfoMakeRoom_frame (hok : duplicationInfoMakeRoom h = .ok h') :
    ∃ msgs count, h' = { h with duplicationMsgs := msgs, countDuplicationMsgs := count } := by
  unfold duplicationInfoMakeRoom at hok
  split at hok
  · split at hok
    · cases hok
    · cases hok
      unfold duplicationInfoRemove
      dsimp only
      split
      · exact ⟨_, _, rfl⟩
      · exact ⟨h.duplicationMsgs, h.countDuplicationMsgs, rfl⟩
  · cases hok
    exact ⟨h.duplicationMsgs, h.countDuplicationMsgs, rfl⟩

/-- The list of duplicates and its count are changed, and the answer to a duplicate is sent. -/
theorem detectDuplicate_frame {duplicate : Bool} (hok : detectDuplicate env h src m = .ok (duplicate, h')) :
    ∃ msgs count events, (∀ e ∈ events, e.quiet = true) ∧
      h' = { h with duplicationMsgs := msgs, countDuplicationMsgs := count, log := h.log ++ events } := by
  have hsame : ∃ msgs count events, (∀ e ∈ events, Event.quiet e = true) ∧
      h = { h with duplicationMsgs := msgs, countDuplicationMsgs := count, log := h.log ++ events } :=
    ⟨h.duplicationMsgs, h.countDuplicationMsgs, [], forall_mem_nil _, by rw [append_nil]⟩
  unfold detectDuplicate at hok
  split at hok
  · split at hok
    · cases hok
      split
      · exact hsame
      · exact ⟨h.duplicationMsgs, h.countDuplicationMsgs, _,
          fun _ he => mem_singleton.mp he ▸ rfl, rfl⟩
    · obtain ⟨h1, hroom, hok⟩ := bind_eq_ok hok
      cases hok
      obtain ⟨msgs, count, rfl⟩ := duplicationInfoMakeRoom_frame hroom
      obtain ⟨msgs', count', hstore⟩ := duplicationInfoStore_frame env
        { h with duplicationMsgs := msgs, countDuplicationMsgs := count } src m.msgId
      refine ⟨msgs', count', [], forall_mem_nil _, ?_⟩
      rw [hstore, append_nil]
  · cases hok
    exact hsame

theorem sendMsgRemoveFirst_frame (h : Handle) (p : SendMsg → Bool) :
    ∃ msgs count, sendMsgRemoveFirst h p = { h with resentMsgs := msgs, countResentMsgs := count } := by
  unfold sendMsgRemoveFirst
  split
  · exact ⟨_, _, rfl⟩
  · exact ⟨h.resentMsgs, h.countResentMsgs, rfl⟩

/-- The three ways through `sn_coap_protocol_parse` after the parser: the message is rejected;
it is a duplicate; or its blocks are handled, and an acknowledgement stops the resending. -/
theorem parseMsg_ok (hok : parseMsg env h src m version = .ok (r, h')) :
    (m.coapStatus = .parserErrorInHeader ∨ headerValidityCheck m version = false ∨
        m.msgType = .confirmable ∧ m.msgCode = codeEmpty) ∧ r = none ∧
        (h' = h ∨ h' = sendRst h m.msgId src) ∨
      ∃ duplicate h1, detectDuplicate env h src m = .ok (duplicate, h1) ∧
        (duplicate = true ∧ r = some { m with coapStatus := .parserDuplicatedMsg } ∧ h' = h1 ∨
          duplicate = false ∧ ∃ r2 h2, parseBlocks env h1 src m = .ok (r2, h2) ∧ r = r2 ∧
            (r2 = none ∧ h' = h2 ∨ ∃ m2, r2 = some m2 ∧ h' = stopResending h2 src m2)) := by
  unfold parseMsg at hok
  split at hok
  · rename_i herror
    cases hok
    exact .inl ⟨.inl herror, rfl, .inr rfl⟩
  split at hok
  · rename_i hinvalid
    cases hok
    refine .inl ⟨.inr (.inl hinvalid), rfl, ?_⟩
    split
    · exact .inr rfl
    · exact .inl rfl
  split_ifs at hok with hping
  · cases hok
    exact .inl ⟨.inr (.inr hping), rfl, .inr rfl⟩
  obtain ⟨⟨duplicate, h1⟩, hdetect, hok⟩ := bind_eq_ok hok
  refine .inr ⟨duplicate, h1, hdetect, ?_⟩
  cases duplicate with
  | true =>
    cases hok
    exact .inl ⟨rfl, rfl, rfl⟩
  | false =>
    obtain ⟨⟨r2, h2⟩, hblocks, hok⟩ := bind_eq_ok hok
    refine .inr ⟨rfl, r2, h2, hblocks, ?_⟩
    cases r2 with
    | none =>
      cases hok
      exact ⟨rfl, .inl ⟨rfl, rfl⟩⟩
    | some m2 =>
      cases hok
      exact ⟨rfl, .inr ⟨_, rfl, rfl⟩⟩

end

/-! ## Execution -/

theorem foldl_sub16 {α : Type} (l : List α) {count : Nat} (hlen : l.length ≤ count)
    (hcount : count < 65536) : l.foldl (fun count _ => sub16 count 1) count = count - l.length := by
  induction l generalizing count with
  | nil => rfl
  | cons x l ih =>
    rw [length_cons] at hlen
    have hsub : sub16 count 1 = count - 1 := by
      unfold sub16 u16i
      omega
    rw [foldl_cons, hsub, ih (by omega) (by omega), length_cons]
    omega

section Execution

variable {fuel now : Nat} {env : Env} {h h' : Handle}

theorem sendingFailed_frame {m : SendMsg} (hok : sendingFailed fuel env h m = .ok h') :
    h' = h ∨ h' = h.emit (.sendingFailed m.serial) := by
  unfold sendingFailed at hok
  split at hok
  · obtain ⟨parsed, -, hok⟩ := bind_eq_ok hok
    split at hok
    · cases hok
      exact .inr rfl
    · cases hok
      exact .inl rfl
  · cases hok
    exact .inl rfl

/-- One scan of the resending list: a message is resent, or it is removed, and the application
may be told. -/
theorem execStep_more (hok : execStep fuel env now h = .ok (.more h')) :
    ∃ m, h.resentMsgs.find? (·.due now) = some m ∧
      (u8 (m.resendingCounter + 1) > h.resendingCount ∧
          (h' = sendMsgRemoveFirst h (·.due now) ∨ h' = (sendMsgRemoveFirst h (·.due now)).emit (.sendingFailed m.serial)) ∨
        u8 (m.resendingCounter + 1) ≤ h.resendingCount ∧
          h' = { h.emit (.resend m.serial) with
            resentMsgs := replaceFirst (·.due now) (resent env h now) h.resentMsgs }) := by
  unfold execStep at hok
  split at hok
  · cases hok
  rename_i m hfind
  refine ⟨m, hfind, ?_⟩
  split at hok
  · rename_i hlast
    refine .inl ⟨hlast, ?_⟩
    obtain ⟨h1, hfailed, hok⟩ := bind_eq_ok hok
    cases hok
    exact sendingFailed_frame hfailed
  · rename_i hagain
    cases hok
    exact .inr ⟨Nat.not_lt.mp hagain, rfl⟩

theorem execStep_done {r : Handle} (hok : execStep fuel env now h = .ok (.done r)) : r = h := by
  unfold execStep at hok
  split at hok
  · cases hok
    rfl
  split at hok
  · obtain ⟨h1, -, hok⟩ := bind_eq_ok hok
    cases hok
  · cases hok

/-- What exec does before it scans the resending list. -/
def execStart (h : Handle) (now : Nat) : Handle :=
  duplicationInfoRemoveOldOnes (blockwiseRemoveOldData { h with systemTime := now })

theorem protocolExec_eq : protocolExec fuel env h now = loop (execStep fuel env now) fuel (execStart h now) := rfl

/-- A change of the resending list, its count and the log only. -/
def ResendingOnly (h h' : Handle) : Prop :=
  ∃ msgs count log, h' = { h with resentMsgs := msgs, countResentMsgs := count, log := log }

theorem ResendingOnly.step {h0 : Handle} (hh : ResendingOnly h0 h)
    (hok : execStep fuel env now h = .ok (.more h')) : ResendingOnly h0 h' := by
  obtain ⟨msgs, count, log, rfl⟩ := hh
  obtain ⟨msgs', count', hremove⟩ := sendMsgRemoveFirst_frame
    { h0 with resentMsgs := msgs, countResentMsgs := count, log := log } (·.due now)
  obtain ⟨m, -, ⟨-, hh' | hh'⟩ | ⟨-, hh'⟩⟩ := execStep_more hok
  · rw [hh', hremove]
    exact ⟨msgs', count', log, rfl⟩
  · rw [hh', hremove]
    exact ⟨msgs', count', _, rfl⟩
  · rw [hh']
    exact ⟨_, count, _, rfl⟩

theorem protocolExec_frame (hok : protocolExec fuel env h now = .ok h') : ResendingOnly (execStart h now) h' := by
  refine loop_invariant (P := ResendingOnly (execStart h now)) (Q := ResendingOnly (execStart h now))
    (fun s s' hs hstep => hs.step hstep) (fun s r hs hstep => ?_) ?_ hok
  · rw [execStep_done hstep]
    exact hs
  · exact ⟨(execStart h now).resentMsgs, (execStart h now).countResentMsgs, (execStart h now).log, rfl⟩

end Execution

end MbedCloud.Coap

