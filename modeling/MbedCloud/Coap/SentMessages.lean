import MbedCloud.Coap.BuilderFormat
import MbedCloud.Coap.ProtocolFrames

/-!
# The stored messages of blockwise transfers

The list `linked_list_blockwise_sent_msgs` over runs of `sn_coap_protocol_build`,
`sn_coap_protocol_parse` and `sn_coap_protocol_exec`. To send a block, the handler points a
stored message to a part of its payload and afterwards restores it, so each entry keeps the
complete payload of the message it was stored for: the list is a part of the history of the
built messages (`Complete`).

If the packet of a block cannot be allocated, the stored message is freed, but its entry stays
in the list. The walks over the list dereference it.
-/

namespace MbedCloud.Coap

open Lib List

/-! ## Payloads -/

/-- The pointer and the length of a message describe these bytes. -/
def Describes (msg : Hdr) (payload : Bytes) : Prop :=
  msg.payloadLen = payload.length ∧ (payload ≠ [] → msg.payloadPtr = some payload)

/-- An entry with a message that has the payload. -/
def StoredFor (b : BlockwiseMsg) (payload : Bytes) : Prop := ∃ msg, b.coapMsgPtr = some msg ∧ Describes msg payload

/-- The entries are a part of the history, in its order, each with the complete payload. -/
def Complete (hist : List Bytes) (l : List BlockwiseMsg) : Prop := List.SublistForall₂ StoredFor l hist

section Lists

variable {hist : List Bytes} {l l' : List BlockwiseMsg} {payload : Bytes}

section

variable (hc : Complete hist l)
include hc

variable {b : BlockwiseMsg}

theorem Complete.stored (hb : b ∈ l) : ∃ payload ∈ hist, StoredFor b payload := by
  induction hc with
  | nil => cases hb
  | cons hfirst _ ih =>
    rcases mem_cons.mp hb with rfl | hb
    · exact ⟨_, .head _, hfirst⟩
    · obtain ⟨payload, hmem, hstored⟩ := ih hb
      exact ⟨payload, .tail _ hmem, hstored⟩
  | cons_right _ ih =>
    obtain ⟨payload, hmem, hstored⟩ := ih hb
    exact ⟨payload, .tail _ hmem, hstored⟩

theorem Complete.sublist (hsub : l'.Sublist l) : Complete hist l' := by
  induction hc generalizing l' with
  | nil =>
    rw [sublist_nil.mp hsub]
    exact .nil
  | cons hfirst _ ih =>
    cases hsub with
    | cons _ hsub => exact .cons_right (ih hsub)
    | cons_cons _ hsub => exact .cons hfirst (ih hsub)
  | cons_right _ ih => exact .cons_right (ih hsub)

theorem Complete.more_history (more : List Bytes) : Complete (hist ++ more) l := by
  induction hc with
  | nil => exact .nil
  | cons hfirst _ ih => exact .cons hfirst ih
  | cons_right _ ih => exact .cons_right ih

theorem Complete.append (hb : StoredFor b payload) : Complete (hist ++ [payload]) (l ++ [b]) := by
  induction hc with
  | @nil hist =>
    induction hist with
    | nil => exact .cons hb .nil
    | cons _ _ ih => exact .cons_right ih
  | cons hfirst _ ih => exact .cons hfirst ih
  | cons_right _ ih => exact .cons_right ih

/-- An entry is replaced by one that is stored for the same payload. -/
theorem Complete.replaceFirst {p : BlockwiseMsg → Bool} {f : BlockwiseMsg → BlockwiseMsg}
    (hf : ∀ b, l.find? p = some b → ∀ payload, StoredFor b payload → StoredFor (f b) payload) :
    Complete hist (replaceFirst p f l) := by
  induction hc with
  | nil => exact .nil
  | @cons b _ l _ hfirst hrest ih =>
    rw [MbedCloud.replaceFirst]
    split_ifs with hp
    · exact .cons (hf b (find?_cons_of_pos hp) _ hfirst) hrest
    · exact .cons hfirst (ih fun b' hfind => hf b' (by rwa [find?_cons_of_neg hp]))
  | cons_right _ ih => exact .cons_right (ih hf)

end

end Lists

/-! ## The walks -/

def NoneMissing (l : List BlockwiseMsg) : Prop := ∀ b ∈ l, b.coapMsgPtr.isSome = true

variable {l : List BlockwiseMsg} {msg msg' : Hdr}

theorem Complete.noneMissing {hist : List Bytes} (hc : Complete hist l) : NoneMissing l := by
  intro b hb
  obtain ⟨payload, -, msg, hmsg, -⟩ := hc.stored hb
  rw [hmsg]
  rfl

theorem previousMsg_ok (hl : NoneMissing l) (msgId : Nat) : ∃ found, previousMsg msgId l = .ok found := by
  induction l with
  | nil => exact ⟨none, rfl⟩
  | cons b l ih =>
    obtain ⟨msg, hmsg⟩ := Option.isSome_iff_exists.mp (hl b (.head _))
    rw [previousMsg, hmsg]
    dsimp only
    split
    · exact ⟨some msg, rfl⟩
    · exact ih fun b' hb' => hl b' (mem_cons_of_mem b hb')

section Walks

variable {env : Env} {h : Handle} {src : Address} {m : Hdr}

theorem sendBlock2_ok (hl : NoneMissing h.sentMsgs) : ∃ x, sendBlock2 env h src m = .ok x := by
  unfold sendBlock2
  split
  · exact ⟨_, rfl⟩
  · rename_i hsent
    have hnone := hl _ (hsent ▸ mem_cons_self)
    cases hnone
  split
  · exact ⟨_, rfl⟩
  split <;> exact ⟨_, rfl⟩

theorem blockwisePayloadStore_sent (env : Env) (h : Handle) (src : Address) (len : Nat) (ptr : Option Bytes) (num : Nat) :
    (blockwisePayloadStore env h src len ptr num).sentMsgs = h.sentMsgs := by
  unfold blockwisePayloadStore
  split
  · rfl
  split <;> rfl

theorem receiveBlock2_ok (hl : NoneMissing h.sentMsgs) : ∃ x, receiveBlock2 env h src m = .ok x := by
  unfold receiveBlock2
  dsimp only
  split
  · split
    · obtain ⟨found, hfound⟩ := previousMsg_ok hl m.msgId
      rw [blockwisePayloadStore_sent, hfound]
      cases found with
      | none => exact ⟨_, rfl⟩
      | some previous =>
        dsimp only [bind, Except.bind]
        split
        · split <;> exact ⟨_, rfl⟩
        · exact ⟨_, rfl⟩
    · split <;> exact ⟨_, rfl⟩
  · exact ⟨_, rfl⟩

/-- The walks of `sn_coap_protocol_parse` and `sn_coap_handle_blockwise_message` dereference no
missing message. -/
theorem parseBlocks_walks (hl : NoneMissing h.sentMsgs) : ∃ x, parseBlocks env h src m = .ok x := by
  unfold parseBlocks
  split
  · unfold handleBlockwiseMessage
    split
    · split <;> exact ⟨_, rfl⟩
    split
    · exact receiveBlock2_ok hl
    · exact sendBlock2_ok hl
  · obtain ⟨found, hfound⟩ := previousMsg_ok hl m.msgId
    unfold removeAnswered answeredMsg
    rw [hfound]
    cases found with
    | none => exact ⟨_, rfl⟩
    | some stored =>
      dsimp only [bind, Except.bind]
      split
      · rename_i heq
        split at heq <;> cases heq
      · exact ⟨_, rfl⟩

end Walks

/-! ## Steps -/

theorem Describes.of_eq {payload : Bytes} (hd : Describes msg payload)
    (hlen : msg'.payloadLen = msg.payloadLen) (hptr : msg'.payloadPtr = msg.payloadPtr) : Describes msg' payload := by
  unfold Describes
  rw [hlen, hptr]
  exact hd

theorem allocOptions_payload {env : Env} {site : Site} (halloc : allocOptions env site msg = some msg') :
    msg'.payloadLen = msg.payloadLen ∧ msg'.payloadPtr = msg.payloadPtr := by
  unfold allocOptions at halloc
  split_ifs at halloc
  cases halloc
  exact ⟨rfl, rfl⟩

/-- Whether the handler has stored a request of its own for the next block of a response. -/
def asks (r : Option Hdr) : Bool :=
  r.any fun m => decide (m.coapStatus = .parserBlockwiseMsgReceiving) &&
    decide (m.options.block1 = blockNone)

/-- The history after a received message: a request of the handler has no payload. -/
def received (hist : List Bytes) (r : Option Hdr) : List Bytes := if asks r then hist ++ [[]] else hist

section Steps

variable {hist : List Bytes} {env : Env} {h h' : Handle} {src : Address} {m : Hdr} {r : Option Hdr}

theorem Complete.received (hc : Complete hist h.sentMsgs) (r : Option Hdr) : Complete (received hist r) h.sentMsgs := by
  unfold Coap.received
  split
  · exact hc.more_history _
  · exact hc

theorem sendNextBlock1_complete (hc : Complete hist h.sentMsgs) (hpacket : env.alloc .nextPacket = true) :
    Complete hist (sendNextBlock1 env h src m).2.sentMsgs := by
  unfold sendNextBlock1
  dsimp only
  split
  · split
    · exact hc
    rename_i stored hstored
    split
    · exact hc
    rename_i stored' halloc
    obtain ⟨b, hfind, hb⟩ := Option.bind_eq_some_iff.mp hstored
    obtain ⟨hlen, hptr⟩ := allocOptions_payload halloc
    refine .replaceFirst hc ?_
    rintro b' hfind' payload ⟨msg, hmsg, hd⟩
    cases hfind.symm.trans hfind'
    cases hb.symm.trans hmsg
    exact ⟨_, rfl, hd.of_eq hlen hptr⟩
  · exact hc

theorem sendBlock2_complete (hc : Complete hist h.sentMsgs)
    (hpacket : env.alloc .nextPacket = true) (hok : sendBlock2 env h src m = .ok (r, h')) :
    Complete hist h'.sentMsgs := by
  unfold sendBlock2 at hok
  split at hok
  · cases hok
    exact hc
  · cases hok
  rename_i timestamp stored others hsent
  split at hok
  · cases hok
    exact hc
  rename_i stored' halloc
  obtain ⟨hlen, hptr⟩ := allocOptions_payload halloc
  rw [if_pos hpacket] at hok
  cases hok
  rw [hsent] at hc
  split
  · exact hc.sublist (sublist_cons_self _ _)
  -- only the first entry is another one
  have hkept := hc.replaceFirst (p := fun _ => true) (f := fun b => ⟨timestamp, some
    { answerToken env m (answerBlock2 stored' m.options.block2.toNat m.msgId) with
      payloadLen := stored'.payloadLen, payloadPtr := stored'.payloadPtr }⟩) ?_
  · exact hkept
  rintro b hfind payload ⟨msg, hmsg, hd⟩
  cases hfind
  cases hmsg
  exact ⟨_, rfl, hd.of_eq hlen hptr⟩

theorem receiveBlock1_sent : (receiveBlock1 env h src m).2.sentMsgs = h.sentMsgs := by
  unfold receiveBlock1
  generalize (if m.payloadLen > h.blockDataSize then { m with payloadLen := h.blockDataSize }
    else m) = cut
  have hstore := blockwisePayloadStore_sent env h src cut.payloadLen cut.payloadPtr (blockNumberOf cut.options.block1.toNat)
  dsimp only
  split
  · unfold receiveMore
    split
    · split <;> split <;> exact hstore
    · exact hstore
  · unfold receiveLast
    dsimp only
    split <;> exact hstore

theorem sendMsgStore_sent {dst : Address} {packet : Bytes} {time : Nat} :
    ((sendMsgStore env h dst packet time).getD h).sentMsgs = h.sentMsgs := by
  cases hs : sendMsgStore env h dst packet time with
  | none => rfl
  | some h' =>
    obtain ⟨_, _, _, rfl⟩ := sendMsgStore_frame hs
    rfl

variable {ask : Hdr}

theorem askNext_complete (hc : Complete hist h.sentMsgs) (hblock1 : m.options.block1 = blockNone) (hask : Describes ask []) :
    Complete (received hist (askNext env h src m ask).1) (askNext env h src m ask).2.sentMsgs := by
  have herase : Complete hist (h.sentMsgs.eraseP (sentMsgFor m.msgId)) := hc.sublist eraseP_sublist
  unfold askNext
  dsimp only
  split
  · have hasks : asks (some { m with coapStatus := .parserBlockwiseMsgReceiving }) = true := by
      simp only [asks, Option.any_some, decide_true, Bool.true_and, decide_eq_true_eq]
      exact hblock1
    rw [received, if_pos hasks, sendMsgStore_sent]
    exact herase.append ⟨ask, rfl, hask⟩
  · exact herase

theorem askBlock2_describes {previous : Hdr} (hask : askBlock2 env h m previous = some ask) : Describes ask [] := by
  have hnone : ∀ msg : Hdr, msg.payloadLen = 0 → Describes msg [] := fun msg hlen => ⟨hlen, fun hne => absurd rfl hne⟩
  unfold askBlock2 at hask
  split at hask
  · obtain ⟨path, -, hask⟩ := Option.bind_eq_some_iff.mp hask
    obtain ⟨token, -, rfl⟩ := Option.map_eq_some_iff.mp hask
    exact hnone _ rfl
  · cases hask
    exact hnone _ rfl

theorem receiveBlock2_complete (hc : Complete hist h.sentMsgs)
    (hblock1 : m.options.block1 = blockNone) (hok : receiveBlock2 env h src m = .ok (r, h')) :
    Complete (received hist r) h'.sentMsgs := by
  unfold receiveBlock2 at hok
  dsimp only at hok
  split at hok
  · generalize hstored : blockwisePayloadStore env h src m.payloadLen m.payloadPtr
      (blockNumberOf m.options.block2.toNat) = h1 at hok
    have hc1 : Complete hist h1.sentMsgs := by
      rw [← hstored, blockwisePayloadStore_sent]
      exact hc
    split at hok
    · obtain ⟨previous, -, hok⟩ := bind_eq_ok hok
      split at hok
      · cases hok
        exact hc1.received _
      split at hok
      · split at hok
        · cases hok
          exact hc1.received _
        · rename_i ask hask
          have hnext : Complete hist h1.takeMessageId.sentMsgs := hc1
          have hresult : Complete (Coap.received hist (askNext env h1.takeMessageId src m ask).1)
              (askNext env h1.takeMessageId src m ask).2.sentMsgs :=
            askNext_complete hnext hblock1 (askBlock2_describes hask)
          rw [Except.ok.inj hok] at hresult
          exact hresult
      · cases hok
        exact hc1.received _
    · split at hok
      · cases hok
        exact hc1.received _
      · cases hok
        exact hc1.received _
  · cases hok
    exact hc.received _

theorem parseBlocks_complete (hc : Complete hist h.sentMsgs)
    (hpacket : env.alloc .nextPacket = true) (hok : parseBlocks env h src m = .ok (r, h')) :
    Complete (received hist r) h'.sentMsgs := by
  unfold parseBlocks at hok
  split at hok
  · unfold handleBlockwiseMessage at hok
    split at hok
    · split at hok
      · have hsnd : (sendNextBlock1 env h src m).2 = h' := congrArg Prod.snd (Except.ok.inj hok)
        refine .received ?_ r
        exact hsnd ▸ sendNextBlock1_complete hc hpacket
      · have hsnd : (receiveBlock1 env h src m).2 = h' := congrArg Prod.snd (Except.ok.inj hok)
        refine .received ?_ r
        rw [← hsnd, receiveBlock1_sent]
        exact hc
    · rename_i hblock1
      split at hok
      · exact receiveBlock2_complete hc (not_not.mp hblock1) hok
      · exact (sendBlock2_complete hc hpacket hok).received r
  · obtain ⟨h1, hanswered, hok⟩ := bind_eq_ok hok
    cases hok
    refine .received ?_ _
    obtain ⟨found, -, hanswered⟩ := bind_eq_ok hanswered
    split at hanswered
    · cases hanswered
      exact hc
    split at hanswered
    · cases hanswered
      exact hc
    · cases hanswered
      exact hc.sublist eraseP_sublist

end Steps

/-! ## Runs -/

/-- The payload of a message that the application builds. -/
def originalPayload (env : Env) (m : Hdr) : Bytes :=
  match m.payloadPtr with
  | none => []
  | some s => bytesAt (load env.heap .payload s) 0 m.payloadLen

/-- A GET has no payload, unless it is sent in blocks: such a request is stored without it. -/
def PlainGet (h : Handle) (m : Hdr) : Prop := m.msgCode = codeRequestGet → inBlocks h m.payloadLen = false → m.payloadLen = 0

/-- The packet of a block can be allocated. -/
def HasPacket (env : Env) : Prop := env.alloc .nextPacket = true

/-- The runs of build, parse and exec whose calls meet the conditions, with the history of the
payloads. -/
inductive SentRun (Built : Handle → Hdr → Prop) (Parsed : Env → Prop) :
    List Bytes → Handle → Prop
  | start {h : Handle} : h.sentMsgs = [] → SentRun Built Parsed [] h
  | build {hist : List Bytes} {h h' : Handle} {env : Env} {dst : Address} {m m' : Hdr}
      {ret : Int} : SentRun Built Parsed hist h → Built h m →
      protocolBuild env h dst m = .ok (ret, m', h') →
      SentRun Built Parsed (hist ++ [originalPayload env m]) h'
  | parse {hist : List Bytes} {h h' : Handle} {fuel : Nat} {env : Env} {src : Address}
      {packet : Bytes} {tail : Nat → Option UInt8} {r : Option Hdr} :
      SentRun Built Parsed hist h → Parsed env →
      protocolParse fuel env h src packet tail = .ok (r, h') →
      SentRun Built Parsed (received hist r) h'
  | exec {hist : List Bytes} {h h' : Handle} {fuel now : Nat} {env : Env} :
      SentRun Built Parsed hist h → protocolExec fuel env h now = .ok h' →
      SentRun Built Parsed hist h'

section Runs

variable {hist : List Bytes} {env : Env} {h h' : Handle} {m : Hdr}

theorem copyHeader_payload {copy : Hdr} (hcopy : copyHeader env m = some copy) : copy.payloadLen = 0 := by
  unfold copyHeader at hcopy
  split at hcopy
  · obtain ⟨path, -, hcopy⟩ := Option.bind_eq_some_iff.mp hcopy
    obtain ⟨token, -, hcopy⟩ := Option.bind_eq_some_iff.mp hcopy
    dsimp only at hcopy
    split at hcopy
    · cases hcopy
      rfl
    split at hcopy
    · obtain ⟨options, -, hcopy⟩ := Option.bind_eq_some_iff.mp hcopy
      cases hcopy
      rfl
    · cases hcopy
  · cases hcopy

section

variable (hc : Complete hist h.sentMsgs)
include hc

variable {ret : Int} {fuel : Nat}

theorem buildStore_complete {payload : Bytes} {original : Nat} {ret' : Int}
    (hblocks : ∀ s, m.payloadPtr = some s → inBlocks h original = true → payload = bytesAt (load env.heap .payload s) 0 original)
    (hget : m.msgCode = codeRequestGet → inBlocks h original = false → payload = [])
    (hok : buildStore env h m original ret = .ok (ret', h')) : Complete (hist ++ [payload]) h'.sentMsgs := by
  unfold buildStore at hok
  split at hok
  · rename_i hin
    unfold storeBlocks at hok
    split at hok
    · split at hok
      · cases hok
        exact hc.more_history _
      split at hok
      · split at hok
        · cases hok
        rename_i s hs
        cases hok
        refine hc.append ⟨_, rfl, ?_, ?_⟩
        · rw [hblocks s hs hin, bytesAt_length]
        · intro _
          rw [hblocks s hs hin]
      · cases hok
        exact hc.more_history _
    · cases hok
      exact hc.more_history _
  rename_i hnot
  split_ifs at hok with hcode
  · unfold storeGet at hok
    rw [hget hcode (Bool.eq_false_iff.mpr hnot)]
    split at hok
    · split at hok
      · cases hok
        exact hc.more_history _
      rename_i copy hcopy
      cases hok
      exact hc.append ⟨copy, rfl, copyHeader_payload hcopy, fun hne => absurd rfl hne⟩
    · cases hok
      exact hc.more_history _
  · cases hok
    exact hc.more_history _

theorem protocolBuild_complete {dst : Address} {m' : Hdr} (hplain : PlainGet h m)
    (hok : protocolBuild env h dst m = .ok (ret, m', h')) :
    Complete (hist ++ [originalPayload env m]) h'.sentMsgs := by
  obtain ⟨msgId, rfl, ⟨-, hsent⟩ | ⟨h2, ret0, hsent, hin2, hstore⟩⟩ := protocolBuild_stores hok
  · rw [hsent]
    exact hc.more_history _
  rw [← hsent] at hc
  refine buildStore_complete hc (fun s hs hin => ?_) (fun hcode hin => ?_) hstore
  · have hptr : m.payloadPtr = some s := by
      rw [← hs, firstBlock]
      split <;> rfl
    split_ifs at hin with hlong
    · rw [originalPayload, hptr, if_pos hlong]
    · cases (Bool.and_eq_true_iff.mp hin).1
  · rw [hin2] at hin
    have hplain' : m.payloadLen = 0 := by
      refine hplain ?_ ?_
      · rw [← hcode, firstBlock]
        split <;> rfl
      · split_ifs at hin with hshort
        · exact hin
        · exact Bool.eq_false_iff.mpr hshort
    unfold originalPayload
    split
    · rfl
    · rw [hplain']
      rfl

theorem protocolParse_complete {src : Address} {packet : Bytes} {tail : Nat → Option UInt8} {r : Option Hdr}
    (hpacket : HasPacket env) (hok : protocolParse fuel env h src packet tail = .ok (r, h')) :
    Complete (received hist r) h'.sentMsgs := by
  obtain ⟨parsed, -, hok⟩ := bind_eq_ok hok
  split at hok
  · cases hok
    exact hc.received _
  rcases parseMsg_ok hok with ⟨-, -, rfl | rfl⟩ | ⟨duplicate, h1, hdetect, hcases⟩
  · exact hc.received _
  · exact hc.received _
  obtain ⟨_, _, _, -, hframe⟩ := detectDuplicate_frame hdetect
  have hsent : h1.sentMsgs = h.sentMsgs := by rw [hframe]
  rw [← hsent] at hc
  rcases hcases with ⟨-, -, rfl⟩ | ⟨-, r2, h2, hblocks, rfl, hstop⟩
  · exact hc.received _
  have hc2 : Complete (received hist r) h2.sentMsgs := parseBlocks_complete hc hpacket hblocks
  rcases hstop with ⟨-, rfl⟩ | ⟨m2, -, rfl⟩
  · exact hc2
  unfold stopResending
  split
  · obtain ⟨msgs, count, hremove⟩ := sendMsgRemoveFirst_frame h2 _
    unfold sendMsgRemove
    rw [hremove]
    exact hc2
  · exact hc2

theorem protocolExec_complete {now : Nat} (hok : protocolExec fuel env h now = .ok h') : Complete hist h'.sentMsgs := by
  obtain ⟨_, _, _, rfl⟩ := protocolExec_frame hok
  exact hc.sublist filter_sublist

end

theorem SentRun.complete (hrun : SentRun PlainGet HasPacket hist h) : Complete hist h.sentMsgs := by
  induction hrun with
  | start hsent =>
    rw [hsent]
    exact .nil
  | build _ hplain hok ih => exact protocolBuild_complete ih hplain hok
  | parse _ hpacket hok ih => exact protocolParse_complete ih hpacket hok
  | exec _ hok ih => exact protocolExec_complete ih hok

end Runs

/-- In every run in which the packets of the blocks can be allocated, and in which a GET that is
not sent in blocks has no payload, each entry of the list has a message with the complete payload
it was stored for, and no walk over the list dereferences a missing message. -/
theorem sent_messages_complete {hist : List (List UInt8)} {h : Handle} (hrun : SentRun PlainGet HasPacket hist h) :
    (∀ b ∈ h.sentMsgs, b.coapMsgPtr.isSome = true) ∧ Complete hist h.sentMsgs ∧
      ∀ env src m, ∃ x, parseBlocks env h src m = .ok x := by
  have hc := hrun.complete
  exact ⟨hc.noneMissing, hc, fun env src m => parseBlocks_walks hc.noneMissing⟩

/-! ## Concrete runs -/

def requester : Address := ⟨[10, 0, 0, 1], 5683⟩

/-- A PUT of 20 bytes in blocks of 16. -/
def longPut : Hdr where
  msgType := .nonConfirmable
  msgCode := codeRequestPut
  payloadLen := 20
  payloadPtr := some (replicate 20 1)
  optionsListPtr := some { block1 := 8 }

/-- The PUT is built, and its first block is acknowledged. -/
def acknowledgedPut : Exec Fault (Option Hdr × Handle) := do
  let (_, _, h) ← protocolBuild calm { blockDataSize := 16 } requester longPut
  protocolParse 10 calm h requester [0x60, 0x5f, 0x00, 0x01, 0xd1, 0x0e, 0x08] calm.tail

theorem sent_messages_complete_put : ∃ r h, acknowledgedPut = .ok (r, h) ∧
    r.map (·.coapStatus) = some .parserBlockwiseAck ∧ h.sentMsgs.length = 1 ∧ Complete [replicate 20 1] h.sentMsgs := by
  have hacknowledged : (acknowledgedPut.toOption.any fun (r, h) => decide (asks r = false ∧
      r.map (·.coapStatus) = some .parserBlockwiseAck ∧ h.sentMsgs.length = 1)) = true := by
    decide +kernel
  cases hput : acknowledgedPut with
  | error e =>
    rw [hput] at hacknowledged
    cases hacknowledged
  | ok result =>
    obtain ⟨r, h⟩ := result
    rw [hput] at hacknowledged
    obtain ⟨hasks, hstatus, hone⟩ := of_decide_eq_true hacknowledged
    obtain ⟨⟨ret, m', built⟩, hbuild, hparse⟩ := bind_eq_ok hput
    have hstart : SentRun PlainGet HasPacket [] { blockDataSize := 16 } := .start rfl
    have hrun := (hstart.build (fun hget => absurd hget (by decide)) hbuild).parse (rfl : HasPacket calm) hparse
    rw [received, hasks, if_neg Bool.false_ne_true] at hrun
    exact ⟨r, h, rfl, hstatus, hone, (sent_messages_complete hrun).2.1⟩

/-- A GET that is stored. -/
def plainRequest : Hdr where
  msgType := .nonConfirmable
  msgCode := codeRequestGet

/-- A handle that has sent the GET; the message may be missing. -/
def afterRequest (msg : Option Hdr) : Handle where
  sentMsgs := [⟨0, msg⟩]
  messageId := 2

theorem build_plainRequest : protocolBuild calm {} requester plainRequest =
    .ok (4, { plainRequest with msgId := 1 }, afterRequest (some { plainRequest with msgId := 1 })) := by
  decide +kernel

/-- The environment in which the packet of a block cannot be allocated. -/
def noPacket : Env := { calm with alloc := fun site => site != .nextPacket }

def blockRequest : Bytes := [0x50, 0x01, 0x00, 0x05, 0xd0, 0x0a]

/-- A request for a block of which the packet cannot be allocated leaves an entry without a
message, which the next request dereferences. -/
theorem not_sent_messages_complete : ∃ hist h, SentRun (fun _ _ => True) (fun _ => True) hist h ∧
    (∃ b ∈ h.sentMsgs, b.coapMsgPtr = none) ∧
    protocolParse 10 calm h requester blockRequest calm.tail = .error (.fail .null) := by
  have hstart : SentRun (fun _ _ => True) (fun _ => True) [] {} := .start rfl
  have hparse : protocolParse 10 noPacket (afterRequest (some { plainRequest with msgId := 1 })) requester
      blockRequest calm.tail = .ok (none, afterRequest none) := by
    decide
  refine ⟨_, _, (hstart.build trivial build_plainRequest).parse trivial hparse, ?_, ?_⟩
  · exact ⟨⟨0, none⟩, mem_singleton.mpr rfl, rfl⟩
  · decide

end MbedCloud.Coap

