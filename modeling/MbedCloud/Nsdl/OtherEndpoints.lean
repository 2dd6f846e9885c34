import MbedCloud.Coap.Transfer
import MbedCloud.Coap.ProtocolFrames
import MbedCloud.Nsdl.ProcessCoap

/-!
# Packets of other endpoints

What a packet does to the payloads that are stored for another endpoint. A message without a block option leaves them alone, and
so does a block with more to come (`Harmless`): it is added to the list. The last block of a transfer does not: it takes the oldest
payloads from the list, whoever sent them.
-/

namespace MbedCloud.Nsdl

open Lib Coap List

/-! ## Messages that are sent -/

section

variable {env : Env} {s s' : Handle} {src dst : Address} {m : Hdr} {ret : Int} {outputs : List Output}

theorem buildStore_received {env : Coap.Env} {h h' : Coap.Handle} {original : Nat} {ret' : Int}
    (hok : buildStore env h m original ret = .ok (ret', h')) : h'.receivedPayloads = h.receivedPayloads := by
  unfold buildStore storeBlocks storeGet at hok
  repeat' split at hok
  all_goals cases hok
  all_goals rfl

/-- Sending a message does not touch the payloads that are received. -/
theorem sendCoapMessage_received (hok : sendCoapMessage env s dst m = .ok (outputs, s')) :
    s'.coap.receivedPayloads = s.coap.receivedPayloads := by
  unfold sendCoapMessage at hok
  dsimp only at hok
  split_ifs at hok
  · cases hok
    rfl
  · obtain ⟨⟨ret, m', coap⟩, hbuild, hsent⟩ := bind_eq_ok hok
    cases hsent
    obtain ⟨_, _, hid⟩ := giveMessageId_frame s.coap (prepareBlockwiseMessage env.coap s.coap m).1
    obtain ⟨-, hbuild⟩ := protocolBuild_ok hid hbuild
    rcases buildMsg_ok hbuild with ⟨rfl, -⟩ | ⟨_, hresend, hrest⟩
    · rfl
    obtain ⟨_, _, _, rfl⟩ := buildResending_frame hresend
    rcases hrest with ⟨rfl, -⟩ | ⟨_, _, hduplication, hstore⟩
    · rfl
    obtain ⟨_, rfl⟩ := buildDuplication_frame hduplication
    exact (buildStore_received hstore :)
  · cases hok
    rfl

theorem sendAndReturn_received {code : Int} (hok : sendAndReturn env s dst m code = .ok (ret, outputs, s')) :
    s'.coap.receivedPayloads = s.coap.receivedPayloads := by
  obtain ⟨⟨sent, s1⟩, hsend, hret⟩ := bind_eq_ok hok
  cases hret
  exact sendCoapMessage_received hsend

theorem respond_received {status : Nat} {content : Option Params}
    (hok : respond env s src m status content = .ok (ret, outputs, s')) :
    s'.coap.receivedPayloads = s.coap.receivedPayloads := by
  unfold respond at hok
  dsimp only at hok
  repeat' split at hok
  all_goals first | exact sendAndReturn_received hok | (cases hok; rfl)

theorem dispatch_received (hok : dispatch env s src m = .ok (ret, outputs, s')) :
    s'.coap.receivedPayloads = s.coap.receivedPayloads := by
  unfold dispatch grsProcessCoap coreRequest staticResource at hok
  dsimp only at hok
  repeat' split at hok
  all_goals first | exact respond_received hok | exact sendAndReturn_received hok | (cases hok; rfl)

end

/-! ## Messages that are received -/

/-- Two endpoints whose addresses have the same length: no stored address matches both. -/
structure Distinct (src other : Address) : Prop where
  length : other.addr.length = src.addr.length
  ne : other ≠ src

/-- A message without a block option, or a block of a request with more to come that is not too large. -/
def Harmless (h : Coap.Handle) (m : Hdr) : Prop :=
  (m.options.block1 = blockNone ∧ m.options.block2 = blockNone) ∨
    IsBlock1Request m ∧ moreOf m.options.block1.toNat = true ∧ blockTooLarge h m = false

namespace Distinct

variable {env : Env} {s s' : Handle} {h h' : Coap.Handle} {src other : Address} {m : Hdr} {r : Option Hdr} {ret : Int}
  {outputs : List Output} (hdistinct : Distinct src other)
include hdistinct

theorem not_same {a : Address} (hother : other.same a = true) : ¬ src.same a = true := by
  intro hsame
  unfold Address.same at hother hsame
  rw [Bool.and_eq_true, decide_eq_true_iff, decide_eq_true_iff] at hother hsame
  rw [hdistinct.length] at hother
  exact hdistinct.ne (Address.mk.injEq .. ▸ ⟨hother.1.symm.trans hsame.1, hother.2.symm.trans hsame.2⟩)

/-- What an endpoint removes are its own payloads. -/
theorem own_removePreviousBlockData (h : Coap.Handle) (blockNumber : Nat) :
    own src (removePreviousBlockData h other blockNumber).receivedPayloads = own src h.receivedPayloads := by
  unfold removePreviousBlockData
  split
  · unfold blockRemove own
    rcases exists_or_eq_self_of_eraseP _ h.receivedPayloads with hsame | ⟨p, before, behind, -, hp, hlist, herase⟩
    · rw [hsame]
    · rw [herase, hlist, filter_append, filter_append, filter_cons_of_neg]
      exact hdistinct.not_same (Bool.and_eq_true_iff.mp hp).1
  · rfl

theorem own_remove (b : Prop) [Decidable b] (s : Handle) (blockNumber : Nat) :
    own src (if b then { s with coap := removePreviousBlockData s.coap other blockNumber } else s
      : Handle).coap.receivedPayloads = own src s.coap.receivedPayloads := by
  split_ifs
  · exact hdistinct.own_removePreviousBlockData s.coap blockNumber
  · rfl

theorem own_passBlock1 {resource : Bool} {m' : Hdr} (hok : passBlock1 env s other m = .ok (some (resource, m', s'))) :
    own src s'.coap.receivedPayloads = own src s.coap.receivedPayloads := by
  unfold passBlock1 at hok
  repeat' split at hok
  any_goals cases hok <;> rfl
  obtain ⟨⟨m1, s1⟩, hblock, hret⟩ := bind_eq_ok hok
  cases hret
  unfold passBlock at hblock
  split at hblock
  · obtain ⟨_, -, hret⟩ := bind_eq_ok hblock
    cases hret
    exact hdistinct.own_remove _ s _
  · cases hblock
    exact hdistinct.own_remove _ s _

theorem own_processMsg (hok : processMsg env s other m = .ok (ret, outputs, s')) :
    own src s'.coap.receivedPayloads = own src s.coap.receivedPayloads := by
  obtain ⟨passed, hpass, hrest⟩ := bind_eq_ok hok
  cases passed with
  | none =>
    cases hrest
    rfl
  | some result =>
    obtain ⟨resource, m1, s1⟩ := result
    rw [← hdistinct.own_passBlock1 hpass]
    dsimp only at hrest
    split at hrest
    · unfold processContent at hrest
      split at hrest
      · obtain ⟨_, -, hret⟩ := bind_eq_ok hrest
        cases hret
        exact hdistinct.own_remove _ s1 _
      · cases hrest
        rfl
    split at hrest
    · cases hrest
      rfl
    · rw [dispatch_received hrest]

/-- A block of another endpoint is added to the list. -/
theorem own_parseBlocks (hharmless : Harmless h m) (hok : parseBlocks env.coap h other m = .ok (r, h')) :
    own src h'.receivedPayloads = own src h.receivedPayloads := by
  unfold parseBlocks at hok
  split_ifs at hok with hblock
  · rcases hharmless with ⟨hnone1, hnone2⟩ | ⟨hrequest, hmore, hsmall⟩
    · exact absurd hblock.2 (not_or.mpr ⟨not_not.mpr hnone1, not_not.mpr hnone2⟩)
    rw [handle_block1Request hrequest] at hok
    have hlist : (receiveBlock1 env.coap h other m).2.receivedPayloads = _ := receiveBlock1_more hmore hsmall
    rw [Except.ok.inj hok] at hlist
    have hnew : own src (arriving env.coap h other m) = [] := by
      rw [own, filter_eq_nil_iff]
      intro p hp
      rw [(arriving_spec hp).1]
      exact hdistinct.not_same (Address.same_self other)
    rw [hlist, own, filter_append, ← own, ← own, hnew, append_nil]
  · obtain ⟨h1, hanswered, hret⟩ := bind_eq_ok hok
    cases hret
    obtain ⟨answered, -, hret⟩ := bind_eq_ok hanswered
    cases answered with
    | none =>
      cases hret
      rfl
    | some stored =>
      dsimp only at hret
      split at hret <;> cases hret <;> rfl

theorem own_parseMsg {version : Nat} (hharmless : Harmless h m) (hok : parseMsg env.coap h other m version = .ok (r, h')) :
    own src h'.receivedPayloads = own src h.receivedPayloads := by
  rcases parseMsg_ok hok with ⟨-, -, rfl | rfl⟩ | ⟨duplicate, h1, hdetect, hrest⟩
  · rfl
  · rfl
  obtain ⟨_, _, _, -, rfl⟩ := detectDuplicate_frame hdetect
  rcases hrest with ⟨-, -, rfl⟩ | ⟨-, _, h2, hblocks, -, hstop⟩
  · rfl
  have hown := hdistinct.own_parseBlocks (by exact hharmless) hblocks
  rcases hstop with ⟨-, rfl⟩ | ⟨m2, -, rfl⟩
  · exact hown
  · rw [← hown]
    unfold stopResending sendMsgRemove
    split_ifs
    · obtain ⟨_, _, hremove⟩ := sendMsgRemoveFirst_frame h2 (·.isFor other m2.msgId)
      rw [hremove]
    · rfl

/-- A packet of another endpoint that completes no transfer leaves the stored payloads alone. -/
theorem own_processCoap {fuel : Nat} {packet : Bytes} {tail : Nat → Option UInt8}
    (hharmless : ∀ m version, Parser.snCoapParser fuel (packetMem packet tail) packet.length = .ok (some (m, version)) →
      Harmless s.coap m) (hok : processCoap fuel env s other packet tail = .ok (ret, outputs, s')) :
    own src s'.coap.receivedPayloads = own src s.coap.receivedPayloads := by
  obtain ⟨⟨r, coap⟩, hparse, hrest⟩ := bind_eq_ok hok
  have hown : own src coap.receivedPayloads = own src s.coap.receivedPayloads := by
    obtain ⟨parsed, hparsed, hparse⟩ := bind_eq_ok hparse
    cases parsed with
    | none =>
      cases hparse
      rfl
    | some parsed => exact hdistinct.own_parseMsg (hharmless _ _ hparsed) hparse
  cases r with
  | none =>
    cases hrest
    exact hown
  | some m2 => exact (hdistinct.own_processMsg hrest).trans hown

end Distinct

end MbedCloud.Nsdl
