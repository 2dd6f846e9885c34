import MbedCloud.Coap.ProtocolFrames

/-!
# Failures of `sn_coap_protocol_build`

The length of a payload that is sent in blocks is cut before the message is built, and never restored. The
header is copied for the block-wise sent list after the packet has been stored for resending, or with the
duplication info of its message, and it stays there if the copy fails.
-/

namespace MbedCloud.Coap

open List

section Failure

variable (env : Env) (h : Handle) (dst : Address) (m : Hdr)

/-- A failure leaves the length of the payload and the lists as they were. -/
def Atomic : Prop :=
  ∀ ret m' h', protocolBuild env h dst m = .ok (ret, m', h') → ret < 0 →
    m'.payloadLen = m.payloadLen ∧ h'.resentMsgs = h.resentMsgs ∧
      h'.duplicationMsgs = h.duplicationMsgs ∧ h'.sentMsgs = h.sentMsgs

/-- Confirmable messages are stored for resending. -/
def Handle.Resends : Prop := ¬ ((h.resendingQueueMsgs = 0 ∧ h.resendingQueueBytes = 0) ∨ h.resendingCount = 0)

/-- There is a duplication info for the packet of an acknowledgement. -/
def AwaitsPacket : Prop :=
  m.msgType = .acknowledgement ∧ h.duplicationBufferSize ≠ 0 ∧
    ∃ info, duplicationInfoSearch h dst m.msgId = some info ∧ info.packet = none

/-- The message is not built, or there is no room for its packet. -/
def Refused : Prop :=
  builderReturn (snCoapBuilder2 env.heap m h.blockDataSize) < 0 ∨
    (m.msgType = .confirmable ∧ ∃ time, sendMsgStore env h dst (builtPacket env.heap m h.blockDataSize) time = none) ∨
    (AwaitsPacket h dst m ∧ env.alloc .duplicationPacket = false)

/-- A header that is to be copied is copied. -/
def Copied : Prop := env.alloc .blockwiseMsg = true → copyHeader env m ≠ none

end Failure

section Stages

variable (env : Env) (h : Handle) (dst : Address) (m : Hdr) (packet : Bytes)

theorem buildResending_cases : (buildResending env h dst m packet = none ∧
      m.msgType = .confirmable ∧ ∃ time, sendMsgStore env h dst packet time = none) ∨
    ∃ h', buildResending env h dst m packet = some h' ∧
      ¬ (m.msgType = .confirmable ∧ ∃ time, sendMsgStore env h dst packet time = none) ∧
      (h'.resentMsgs = h.resentMsgs ↔ ¬ (m.msgType = .confirmable ∧ h.Resends)) := by
  unfold buildResending sendMsgStore Handle.Resends
  split_ifs with htype hoff hmsgs hbytes halloc <;> simp [*]

theorem buildDuplication_cases : (buildDuplication env h dst m packet = none ∧
      AwaitsPacket h dst m ∧ env.alloc .duplicationPacket = false) ∨
    ∃ h', buildDuplication env h dst m packet = some h' ∧ ¬ (AwaitsPacket h dst m ∧ env.alloc .duplicationPacket = false) ∧
      (h'.duplicationMsgs = h.duplicationMsgs ↔ ¬ AwaitsPacket h dst m) := by
  unfold buildDuplication
  by_cases hkept : m.msgType = .acknowledgement ∧ h.duplicationBufferSize ≠ 0
  case neg =>
    have hnot : ¬ AwaitsPacket h dst m := fun hawaits => hkept ⟨hawaits.1, hawaits.2.1⟩
    simp [hkept, hnot]
  rw [if_pos hkept]
  cases hsearch : duplicationInfoSearch h dst m.msgId with
  | none => simp [AwaitsPacket, hsearch]
  | some info =>
    cases hpacket : info.packet with
    | some bs => simp [AwaitsPacket, hsearch, hpacket]
    | none =>
      have hawaits : AwaitsPacket h dst m := ⟨hkept.1, hkept.2, info, hsearch, hpacket⟩
      obtain ⟨hfor, pre, post, hmsgs, hpre⟩ := find?_eq_some_iff_append.mp hsearch
      have hne : replaceFirst (·.isFor dst m.msgId) (fun d => { d with packet := some packet })
          h.duplicationMsgs ≠ h.duplicationMsgs := by
        rw [hmsgs, replaceFirst_append _ post (fun d hd => by simpa using hpre d hd) hfor]
        intro heq
        have hinfo := (List.cons.inj (append_cancel_left heq)).1
        rw [← hinfo] at hpacket
        cases hpacket
      cases halloc : env.alloc .duplicationPacket <;> simp [hawaits, hne, hpacket]

theorem buildStore_cases (original : Nat) {ret : Int} (hret : 0 ≤ ret) :
    (inBlocks h original = true ∨ m.msgCode = codeRequestGet) ∧ ¬ Copied env m ∧ buildStore env h m original ret = .ok (-2, h) ∨
    ¬ ((inBlocks h original = true ∨ m.msgCode = codeRequestGet) ∧ ¬ Copied env m) ∧
      ∀ r, buildStore env h m original ret = .ok r → 0 ≤ r.1 := by
  unfold buildStore storeBlocks storeGet Copied
  cases copyHeader env m <;> grind

/-- A message that is not refused: its packet is kept, and then its header is copied. -/
theorem buildMsg_cases (original : Nat) : (Refused env h dst m ∧ ∃ ret < 0, buildMsg env h dst m original = .ok (ret, h)) ∨
    ¬ Refused env h dst m ∧ ∃ h2 ret, 0 ≤ ret ∧ buildMsg env h dst m original = buildStore env h2 m original ret ∧
      h2.blockDataSize = h.blockDataSize ∧ h2.sentMsgs = h.sentMsgs ∧
      (h2.resentMsgs = h.resentMsgs ∧ h2.duplicationMsgs = h.duplicationMsgs ↔
        ¬ ((m.msgType = .confirmable ∧ h.Resends) ∨ AwaitsPacket h dst m)) := by
  unfold Refused buildMsg
  dsimp only
  by_cases hbuilt : builderReturn (snCoapBuilder2 env.heap m h.blockDataSize) < 0
  · rw [if_pos hbuilt]
    exact .inl ⟨.inl hbuilt, _, hbuilt, rfl⟩
  rw [if_neg hbuilt]
  rcases buildResending_cases env h dst m (builtPacket env.heap m h.blockDataSize) with
    ⟨hnone, hfull⟩ | ⟨h1, hresend, hroom, hresent⟩
  · unfold builtPacket at hnone
    rw [hnone]
    exact .inl ⟨.inr (.inl hfull), -4, by decide, rfl⟩
  obtain ⟨msgs, count, serial, rfl⟩ := buildResending_frame hresend
  rcases buildDuplication_cases env _ dst m (builtPacket env.heap m h.blockDataSize) with
    ⟨hnone, hawaits, halloc⟩ | ⟨h2, hdup, hpacket, hsame⟩
  · have hsame : buildResending env h dst m (builtPacket env.heap m h.blockDataSize) = some h := by
      rw [buildResending, if_neg (by rw [hawaits.1]; decide)]
    rw [hresend] at hsame
    unfold builtPacket at hresend hnone
    rw [hresend]
    dsimp only
    rw [hnone]
    exact .inl ⟨.inr (.inr ⟨hawaits, halloc⟩), -4, by decide, by rw [Option.some.inj hsame]⟩
  obtain ⟨infos, rfl⟩ := buildDuplication_frame hdup
  unfold builtPacket at hresend hdup
  rw [hresend]
  dsimp only
  rw [hdup]
  refine .inr ⟨by rintro (h' | h' | h'); exacts [hbuilt h', hroom h', hpacket h'], _, _, by omega, rfl, rfl, rfl, ?_⟩
  rw [not_or]
  exact and_congr hresent hsame

end Stages

/-- The message and the handle with its ID, and the message that is built. -/
def builtMsg (h : Handle) (m : Hdr) : Handle × Hdr := ((giveMessageId h m).1, firstBlock h (giveMessageId h m).2)

theorem atomic_iff (env : Env) (h : Handle) (dst : Address) (m : Hdr) :
    Atomic env h dst m ↔ ∀ ret h', buildMsg env (builtMsg h m).1 dst (builtMsg h m).2
      (if inBlocks h m.payloadLen then m.payloadLen else 0) = .ok (ret, h') → ret < 0 →
      inBlocks h m.payloadLen = false ∧ (h'.resentMsgs = (builtMsg h m).1.resentMsgs ∧
        h'.duplicationMsgs = (builtMsg h m).1.duplicationMsgs) ∧
        h'.sentMsgs = (builtMsg h m).1.sentMsgs := by
  obtain ⟨messageId, msgId, hid⟩ := giveMessageId_frame h m
  have hcut : (builtMsg h m).2.payloadLen = m.payloadLen ↔ inBlocks h m.payloadLen = false := by
    unfold builtMsg firstBlock inBlocks
    grind
  rw [← hcut]
  unfold builtMsg
  constructor
  · intro hatomic ret h' hmsg hneg
    rw [hid] at hmsg ⊢
    have hrun : protocolBuild env h dst m = .ok (ret, firstBlock h { m with msgId := msgId }, h') := by
      unfold protocolBuild
      rw [hid]
      exact congrArg (· >>= _) hmsg
    obtain ⟨hlen, hresent, hdup, hsent⟩ := hatomic _ _ _ hrun hneg
    exact ⟨hlen, ⟨hresent, hdup⟩, hsent⟩
  · intro hatomic ret m' h' hok hneg
    obtain ⟨rfl, hmsg⟩ := protocolBuild_ok hid hok
    rw [hid] at hatomic
    obtain ⟨hlen, ⟨hresent, hdup⟩, hsent⟩ := hatomic ret h' hmsg hneg
    exact ⟨hlen, hresent, hdup, hsent⟩

/-- A failure leaves no trace if and only if it does not come after the length of the payload has been cut,
or after the packet has been kept. -/
theorem build_atomic_iff (env : Env) (h : Handle) (dst : Address) (m : Hdr) : Atomic env h dst m ↔
      if inBlocks h m.payloadLen then ¬ Refused env (builtMsg h m).1 dst (builtMsg h m).2 ∧ Copied env (builtMsg h m).2
      else
        Refused env (builtMsg h m).1 dst (builtMsg h m).2 ∨
          ((builtMsg h m).2.msgCode = codeRequestGet → Copied env (builtMsg h m).2) ∨
          ¬ (((builtMsg h m).2.msgType = .confirmable ∧ (builtMsg h m).1.Resends) ∨
            AwaitsPacket (builtMsg h m).1 dst (builtMsg h m).2) := by
  rw [atomic_iff]
  have hsize : (builtMsg h m).1.blockDataSize = h.blockDataSize := by
    obtain ⟨messageId, msgId, hid⟩ := giveMessageId_frame h m
    rw [builtMsg, hid]
  generalize builtMsg h m = built at hsize ⊢
  rcases buildMsg_cases env built.1 dst built.2 (if inBlocks h m.payloadLen then m.payloadLen else 0) with
    ⟨href, ret, hneg, hmsg⟩ | ⟨href, h2, ret, hret, hmsg, hsize2, hsent, hkept⟩
  · rw [hmsg]
    split_ifs with hblocks
    · simp [href, hneg, hblocks]
    · simp [href, hblocks]
  rw [hmsg]
  have hin : inBlocks h2 (if inBlocks h m.payloadLen then m.payloadLen else 0) = inBlocks h m.payloadLen := by
    unfold inBlocks
    grind
  have hstored := buildStore_cases env h2 built.2 (if inBlocks h m.payloadLen then m.payloadLen else 0) hret
  rw [hin] at hstored
  rcases hstored with ⟨hcopies, hcopied, hstore⟩ | ⟨hnot, hok⟩
  · rw [hstore]
    split_ifs with hblocks
    · simp [hcopied, hblocks]
    · simp [href, hblocks, hkept, hsent, hcopies.resolve_left hblocks, hcopied]
  · refine iff_of_true (fun ret' h' hrun hneg => absurd (hok _ hrun) (not_le.mpr hneg)) ?_
    split_ifs with hblocks
    · exact ⟨href, by_contra fun hcopied => hnot ⟨.inl hblocks, hcopied⟩⟩
    · exact .inr (.inl fun hget => by_contra fun hcopied => hnot ⟨.inr hget, hcopied⟩)

/-- One message is stored for resending, and there is no room for another one. -/
def fullQueue : Handle where
  resentMsgs := [⟨0, 0, 10, [64, 1, 0, 1], ⟨[1], 5683⟩⟩]
  countResentMsgs := 1
  resendingQueueMsgs := 1
  blockDataSize := 16

def confirmableRequest : Hdr where
  msgType := .confirmable
  msgCode := codeRequestPut
  msgId := 7
  payloadPtr := some (List.replicate 17 1)
  payloadLen := 17

theorem not_atomic_fullQueue : ¬ Atomic calm fullQueue ⟨[1], 5683⟩ confirmableRequest := by
  intro hatomic
  have hrun : protocolBuild calm fullQueue ⟨[1], 5683⟩ confirmableRequest =
      .ok (-4, { confirmableRequest with payloadLen := 16 }, fullQueue) := by decide
  exact absurd (hatomic _ _ _ hrun (by decide)).1 (by decide)

end MbedCloud.Coap

