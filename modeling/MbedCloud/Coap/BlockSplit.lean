import MbedCloud.Lib.Chunks
import MbedCloud.Coap.BuilderFormat
import MbedCloud.Coap.ProtocolFrames
import MbedCloud.Coap.BlockSlice

/-!
# The blocks of a payload

A payload that is longer than a block is split: block `k` is chunk `k` of the payload, and the
more bit is set if bytes are left behind it (`split`). The first block of a message comes from
`sn_coap_protocol_build`, the others from `sn_coap_handle_blockwise_message`: one for each
acknowledgement of a request, or one for each request for a block of a response.

The answers to requests are the split of the payload. The blocks of a request are not if the
payload is a multiple of the block size: the branch for the next block takes the block as the
last one only if it is not full, so a full last block has the more bit set, and an empty block
follows (`run_acknowledged`).
-/

namespace MbedCloud.Coap

open Lib List

/-! ## Blocks -/

structure Block where
  number : Nat
  more : Bool
  bytes : Bytes
  deriving DecidableEq

def split (b : Nat) (data : Bytes) : List Block :=
  (List.range (chunkCount b data.length)).map fun k => ⟨k, decide ((k + 1) * b < data.length), chunk b data k⟩

variable {data : Bytes} {h h' : Handle} {heap : Heap} {option : OptionsList → Int} {n : Nat}
  {b num : Nat} {blocks : List Block} {last : Bool} {msg : Hdr}

theorem bytes_ne_nil_of_mem_split (hb : 0 < b) {block : Block} (h : block ∈ split b data) : block.bytes ≠ [] := by
  obtain ⟨k, hk, rfl⟩ := mem_map.mp h
  exact (chunk_ne_nil_iff hb data k).mpr (mem_range.mp hk)

/-- The block that a message with a block option carries. -/
def blockOf (heap : Heap) (option : OptionsList → Int) (msg : Hdr) : Block where
  number := blockNumberOf (option msg.options).toNat
  more := moreOf (option msg.options).toNat
  bytes := bytesAt (load heap .payload (msg.payloadPtr.getD [])) 0 msg.payloadLen

def sentBlocks (heap : Heap) (option : OptionsList → Int) (log : List Event) : List Block :=
  log.filterMap fun
    | .block msg _ => some (blockOf heap option msg)
    | _ => none

/-- A call appends events to the log in which these blocks are sent. -/
def Sends (heap : Heap) (option : OptionsList → Int) (h h' : Handle) (blocks : List Block) : Prop :=
  ∃ new, h'.log = h.log ++ new ∧ sentBlocks heap option new = blocks

theorem SendsBlock.sends {next : Hdr} {offset : Nat}
    (hs : SendsBlock h h' next offset) (heap : Heap) (option : OptionsList → Int) :
    Sends heap option h h' [blockOf heap option next] := by
  obtain ⟨packet, len, dst, hlog⟩ := hs
  exact ⟨_, hlog, rfl⟩

theorem Sends.trans {h h' h'' : Handle} {blocks' : List Block} (hs : Sends heap option h h' blocks)
    (hs' : Sends heap option h' h'' blocks') : Sends heap option h h'' (blocks ++ blocks') := by
  obtain ⟨new, hlog, rfl⟩ := hs
  obtain ⟨new', hlog', rfl⟩ := hs'
  refine ⟨new ++ new', by rw [hlog', hlog, append_assoc], ?_⟩
  exact filterMap_append

/-- The blocks in the new part of the log are determined by it. -/
theorem Sends.sentBlocks_drop (hs : Sends heap option h h' blocks) :
    sentBlocks heap option (h'.log.drop h.log.length) = blocks := by
  obtain ⟨new, hlog, rfl⟩ := hs
  rw [hlog, drop_left]

theorem bytesAt_load_take (heap : Heap) (r : Region) (s : Bytes)
    (hn : n ≤ s.length) : bytesAt (load heap r s) 0 n = s.take n := by
  apply ext_getElem
  · simp [Nat.min_eq_left hn]
  intro i hi hs
  have hin : i < s.length := by simp at hs; omega
  simp [bytesAt, load, hin]

/-- The payload of a slice is a chunk: whole if the chunk is full, what is left if it is the
last one. -/
theorem bytesAt_slice (heap : Heap) (hptr : msg.payloadPtr = some data) (hlen : msg.payloadLen = data.length)
    (hmax : data.length < 65536) (hin : b * num ≤ data.length) (hlast : last = true → data.length ≤ b * (num + 1))
    (hnext : last = false → b * (num + 1) ≤ data.length) :
    bytesAt (load heap .payload ((slice msg last num b).payloadPtr.getD [])) 0
        (slice msg last num b).payloadLen = chunk b data num := by
  have hmul : b * (num + 1) = b * num + b := Nat.mul_succ _ _
  have hoff : u32 (b * num) = b * num := Nat.mod_eq_of_lt (by omega)
  simp only [slice, hptr, hlen, hoff, ptrAdd, Option.getD_some, chunk]
  rw [Nat.mul_comm num]
  cases last with
  | false =>
    have hfull := hnext rfl
    rw [if_neg Bool.false_ne_true]
    exact bytesAt_load_take heap .payload _ (by rw [length_drop]; omega)
  | true =>
    have hend := hlast rfl
    have hleft : u16 (sub32 data.length (b * num)) = (data.drop (b * num)).length := by
      rw [length_drop]
      unfold sub32 u32i u16
      omega
    rw [if_pos rfl, hleft, bytesAt_load]
    exact (take_of_length_le (by rw [length_drop]; omega)).symm

/-- The more bit is set in a block that is not the last one. -/
theorem blockOf_slice (heap : Heap) (option : OptionsList → Int) {szx : Nat} (more : Bool) (hszx : szx < 8)
    (hoption : option msg.options =
      if last then (blockOption num more szx : Int) else (setMore (blockOption num more szx) : Int))
    (hptr : msg.payloadPtr = some data) (hlen : msg.payloadLen = data.length)
    (hmax : data.length < 65536) (hin : 2 ^ (szx + 4) * num ≤ data.length)
    (hlast : last = true → data.length ≤ 2 ^ (szx + 4) * (num + 1))
    (hnext : last = false → 2 ^ (szx + 4) * (num + 1) ≤ data.length) :
    blockOf heap option (slice msg last num (2 ^ (szx + 4))) = ⟨num, !last || more, chunk (2 ^ (szx + 4)) data num⟩ := by
  have hopt : option (slice msg last num (2 ^ (szx + 4))).options = (blockOption num (!last || more) szx : Nat) := by
    rw [setMore_option more hszx] at hoption
    cases last <;> exact hoption
  rw [blockOf, hopt, Int.toNat_natCast, blockNumberOf_option _ hszx, moreOf_option _ hszx,
    bytesAt_slice heap hptr hlen hmax hin hlast hnext]

/-! ## Exchanges with a peer -/

/-- The peer sends one message for each of the blocks `0`, ..., `n - 1`. -/
inductive Exchange (env : Env) (Asks : Handle → Hdr → Nat → Prop) : Nat → Handle → Handle → Prop
  | start (h : Handle) : Exchange env Asks 0 h h
  | next {n : Nat} {h h' h'' : Handle} {src : Address} {m : Hdr} {r : Option Hdr} :
    Exchange env Asks n h h' → Asks h' m n → handleBlockwiseMessage env h' src m = .ok (r, h'') → Exchange env Asks (n + 1) h h''

theorem Exchange.sends {env : Env} {Asks : Handle → Hdr → Nat → Prop}
    (Inv : Nat → Handle → Prop) {block : Nat → Block} {limit : Nat}
    (hstep : ∀ {k h src m r h'}, k < limit → Inv k h → Asks h m k →
      handleBlockwiseMessage env h src m = .ok (r, h') → Inv (k + 1) h' ∧ Sends heap option h h' [block k])
    (hrun : Exchange env Asks n h h') (hn : n ≤ limit) (h0 : Inv 0 h) :
    Inv n h' ∧ Sends heap option h h' ((List.range n).map block) := by
  induction hrun with
  | start => exact ⟨h0, [], by simp, rfl⟩
  | next _ hasks hhandle ih =>
    obtain ⟨hinv, hsends⟩ := ih (by omega) h0
    obtain ⟨hinv', hsends'⟩ := hstep (by omega) hinv hasks hhandle
    refine ⟨hinv', ?_⟩
    rw [range_succ, map_append]
    exact hsends.trans hsends'

/-- The message with the whole payload is stored behind others. -/
def Holds (others : List BlockwiseMsg) (data : Bytes) (h : Handle) : Prop :=
  ∃ timestamp stored, h.sentMsgs = others ++ [⟨timestamp, some stored⟩] ∧
    stored.payloadPtr = some data ∧ stored.payloadLen = data.length

/-- The peer acknowledges the blocks in turn, and no other stored message has the id. -/
def AcknowledgesBlock (others : List BlockwiseMsg) (szx : Nat) (h : Handle) (m : Hdr) (k : Nat) : Prop :=
  (∃ stored, Acknowledges h m stored k szx) ∧ ∀ b ∈ others, sentMsgFor m.msgId b = false

section Exchanges

variable {env : Env} {szx : Nat} {src : Address} {m : Hdr} {r : Option Hdr} {k : Nat} {others : List BlockwiseMsg}

/-- The block after block `k` of a request. -/
def blockAfter (b : Nat) (data : Bytes) (k : Nat) : Block := ⟨k + 1, decide (b * (k + 2) ≤ data.length), chunk b data (k + 1)⟩

variable {stored : Hdr}

/-- The numbers and offsets of the blocks fit their words. -/
theorem u32_block (hszx : szx < 8) (hmax : data.length < 65536) (hin : 2 ^ (szx + 4) * k ≤ data.length) :
    u32 k = k ∧ u32 (k + 1) = k + 1 ∧ u32 (2 ^ (szx + 4) * (k + 1)) = 2 ^ (szx + 4) * (k + 1) := by
  have hk := Nat.le_trans (Nat.le_mul_of_pos_left k (Nat.two_pow_pos (szx + 4))) hin
  exact ⟨Nat.mod_eq_of_lt (by omega), Nat.mod_eq_of_lt (by omega), Nat.mod_eq_of_lt (blockSize_mul_lt hszx (k + 1) (by omega))⟩

theorem blockOf_nextBlock1 (heap : Heap) (hszx : szx < 8)
    (hptr : stored.payloadPtr = some data) (hlen : stored.payloadLen = data.length)
    (hmax : data.length < 65536) (hin : 2 ^ (szx + 4) * (k + 1) ≤ data.length) :
    blockOf heap (·.block1) (nextBlock1 stored.allocOptions (blockOption k true szx)) = blockAfter (2 ^ (szx + 4)) data k := by
  obtain ⟨hnum, hnum2, hend⟩ := u32_block hszx hmax hin
  have hk := Nat.le_trans (Nat.le_mul_of_pos_left (k + 1) (Nat.two_pow_pos (szx + 4))) hin
  have hoption : u32 ((k + 1) * 16) + szx = blockOption (k + 1) false szx := by
    unfold u32 blockOption
    simp
    omega
  have hlen' : stored.allocOptions.payloadLen = data.length := hlen
  simp only [nextBlock1, blockSizeOf_option true hszx, blockNumberOf_option true hszx,
    szxOf_option true hszx, hnum, hnum2, hend, hlen', hoption]
  refine Eq.trans (blockOf_slice heap (·.block1) false hszx rfl hptr hlen hmax hin
    (fun hlast => Nat.le_of_lt (of_decide_eq_true hlast))
    (fun hmore => Nat.not_lt.mp (of_decide_eq_false hmore))) ?_
  simp only [blockAfter, Bool.or_false, ← decide_not, Nat.not_lt]

/-- The answer to the request for block `k`. The more bit of the request stays in the last
block. -/
def blockAnswer (b : Nat) (data : Bytes) (more : Bool) (k : Nat) : Block :=
  ⟨k, decide (b * (k + 1) < data.length) || more, chunk b data k⟩

theorem blockOf_answerBlock2 (heap : Heap) (more : Bool) (hszx : szx < 8)
    (hptr : stored.payloadPtr = some data) (hlen : stored.payloadLen = data.length)
    (hmax : data.length < 65536) (hin : 2 ^ (szx + 4) * k ≤ data.length) (msgId : Nat) :
    blockOf heap (·.block2) (answerBlock2 stored.allocOptions (blockOption k more szx) msgId) =
      blockAnswer (2 ^ (szx + 4)) data more k := by
  obtain ⟨-, hnum, hend⟩ := u32_block hszx hmax hin
  have hlen' : stored.allocOptions.payloadLen = data.length := hlen
  simp only [answerBlock2, blockSizeOf_option more hszx, blockNumberOf_option more hszx, hnum, hend, hlen']
  refine Eq.trans (blockOf_slice heap (·.block2) more hszx rfl hptr rfl hmax hin of_decide_eq_true
    (fun hmore => Nat.le_of_not_le (of_decide_eq_false hmore))) ?_
  simp only [blockAnswer, ← decide_not, Nat.not_le]

theorem blockOf_answerToken (heap : Heap) (msg : Hdr) :
    blockOf heap (·.block2) (answerToken env m msg) = blockOf heap (·.block2) msg := by
  unfold answerToken
  split_ifs <;> rfl

section

variable (halloc : ∀ site, env.alloc site = true) (hszx : szx < 8) (hmax : data.length < 65536)
include halloc hszx hmax

theorem step_acknowledged (hin : 2 ^ (szx + 4) * (k + 1) ≤ data.length)
    (hholds : Holds others data h) (hack : AcknowledgesBlock others szx h m k)
    (hhandle : handleBlockwiseMessage env h src m = .ok (r, h')) :
    Holds others data h' ∧ Sends env.heap (·.block1) h h' [blockAfter (2 ^ (szx + 4)) data k] := by
  obtain ⟨timestamp, stored, hsent, hptr, hlen⟩ := hholds
  obtain ⟨⟨found, hack⟩, hothers⟩ := hack
  have hfound := hack.found
  have hnone : others.find? (sentMsgFor m.msgId) = none := find?_eq_none.mpr (by simpa using hothers)
  rw [hsent, find?_append, hnone, Option.none_or] at hfound
  have hfor : sentMsgFor m.msgId ⟨timestamp, some stored⟩ = true := by
    by_contra hnot
    simp [hnot] at hfound
  obtain rfl : found = stored := by
    simp only [find?_cons, hfor, Option.bind_some] at hfound
    exact (Option.some.inj hfound).symm
  obtain ⟨h1, next, hok, hnext, hsends, hh1⟩ := handle_acknowledges src hack hszx (halloc _) (halloc _)
  rw [hhandle] at hok
  cases hok
  constructor
  · refine ⟨timestamp, { next with payloadLen := found.payloadLen, payloadPtr := found.payloadPtr }, ?_, hptr, hlen⟩
    rw [hh1]
    simp only [Handle.replaceSent, Handle.takeMessageId, hsent]
    rw [replaceFirst_append _ _ hothers hfor]
  · rw [← blockOf_nextBlock1 env.heap hszx hptr hlen hmax hin]
    rw [hnext] at hsends
    exact hsends.sends env.heap (·.block1)

theorem step_requested (hin : 2 ^ (szx + 4) * k ≤ data.length) {more : Bool}
    (hholds : Holds [] data h) (hreq : ∃ stored, Requests h m stored k more szx)
    (hhandle : handleBlockwiseMessage env h src m = .ok (r, h')) :
    (2 ^ (szx + 4) * (k + 1) < data.length → Holds [] data h') ∧
      Sends env.heap (·.block2) h h' [blockAnswer (2 ^ (szx + 4)) data more k] := by
  obtain ⟨timestamp, stored, hsent, hptr, hlen⟩ := hholds
  obtain ⟨found, hreq⟩ := hreq
  obtain rfl : found = stored := by
    obtain ⟨_, _, hfound⟩ := hreq.found
    rw [hsent] at hfound
    cases hfound
    rfl
  obtain ⟨h1, answer, hok, hanswer, hsends, hleft⟩ := handle_requests src hreq hsent hszx (halloc _) (halloc _)
  rw [hhandle] at hok
  cases hok
  constructor
  · intro hmore
    obtain ⟨-, hnum, hend⟩ := u32_block hszx hmax hin
    rw [hnum, hend, hlen, if_neg (Nat.not_le.mpr hmore)] at hleft
    exact ⟨timestamp, _, hleft, hptr, rfl⟩
  · have hblock := hsends.sends env.heap (·.block2)
    rwa [hanswer, blockOf_answerToken, blockOf_answerBlock2 env.heap more hszx hptr hlen hmax hin]
      at hblock

end

end Exchanges

/-! ## The first block -/

section

variable {env : Env} {dst : Address} {m m' : Hdr} {szx : Nat} {ret : Int}

theorem convertBlockSize_pow (hszx : szx ≤ 6) : convertBlockSize (2 ^ (szx + 4)) = szx := by
  revert hszx
  revert szx
  decide

section

variable (halloc : ∀ site, env.alloc site = true)
include halloc

theorem prepareBlockwiseMessage_inBlocks (hin : inBlocks h m.payloadLen = true) :
    ∃ options : OptionsList, (prepareBlockwiseMessage env h m).1 = { m with optionsListPtr := some options } ∧
      (m.msgCode < codeResponseCreated → options.block1 = (8 + convertBlockSize h.blockDataSize : Nat)) ∧
      (¬ m.msgCode < codeResponseCreated → options.block2 = (8 + convertBlockSize h.blockDataSize : Nat)) := by
  have hoptions : allocOptions env .prepareOptions m = some m.allocOptions := by simp [allocOptions, halloc]
  have hcode : m.allocOptions.msgCode = m.msgCode := rfl
  simp only [prepareBlockwiseMessage, hin, if_true, hoptions, hcode]
  split_ifs with hreq
  · exact ⟨_, rfl, fun _ => rfl, fun h => absurd hreq h⟩
  · exact ⟨_, rfl, fun h => absurd h hreq, fun _ => rfl⟩

/-- A message that is built with a payload longer than a block is stored with the payload. -/
theorem buildStore_inBlocks {ret0 : Int} (hin : inBlocks h data.length = true)
    (hstore : buildStore env h m data.length ret0 = .ok (ret, h')) (hret : 0 ≤ ret) (hptr : m.payloadPtr = some data) :
    ∃ timestamp stored, h'.sentMsgs = h.sentMsgs ++ [⟨timestamp, some stored⟩] ∧
      stored.payloadPtr = some data ∧ stored.payloadLen = data.length := by
  simp only [buildStore, hin, if_true, storeBlocks, halloc, hptr, bytesAt_load] at hstore
  split at hstore
  · cases hstore
    omega
  · cases hstore
    exact ⟨_, _, rfl, rfl, rfl⟩

theorem protocolBuild_inBlocks (hin : inBlocks h m.payloadLen = true)
    (hptr : m.payloadPtr = some data) (hlen : m.payloadLen = data.length)
    (hbuild : protocolBuild env h dst m = .ok (ret, m', h')) (hret : 0 ≤ ret) :
    Holds h.sentMsgs data h' ∧ ∃ msgId, m' = { m with msgId := msgId, payloadLen := h.blockDataSize } := by
  obtain ⟨msgId, hm', ⟨hneg, -⟩ | ⟨h2, ret0, hsent2, hin2, hstore⟩⟩ := protocolBuild_stores hbuild
  · omega
  rw [firstBlock, if_pos hin] at hm'
  refine ⟨?_, msgId, hm'⟩
  rw [if_pos hin, hlen, hm'] at hstore
  rw [← hin2, hlen] at hin
  obtain ⟨timestamp, stored, hmsgs, hstored⟩ := buildStore_inBlocks halloc hin hstore hret hptr
  rw [hsent2] at hmsgs
  exact ⟨timestamp, stored, hmsgs, hstored⟩

omit halloc in
theorem blockOf_first (heap : Heap) (option : OptionsList → Int) (hszx : szx ≤ 6)
    (hoption : option m.options = (blockOption 0 true szx : Nat))
    (hptr : m.payloadPtr = some data) (hlen : m.payloadLen = 2 ^ (szx + 4)) (hlong : 2 ^ (szx + 4) < data.length) :
    blockOf heap option m = ⟨0, true, chunk (2 ^ (szx + 4)) data 0⟩ := by
  have hszx' : szx < 8 := by omega
  rw [blockOf, hoption, hptr, hlen, Int.toNat_natCast, blockNumberOf_option _ hszx',
    moreOf_option _ hszx', Option.getD_some, bytesAt_load_take heap .payload data (by omega), chunk,
    Nat.zero_mul, drop_zero]

/-- The message after `sn_coap_protocol_build` carries the first block, and its payload is
stored. -/
theorem build_first (hszx : szx ≤ 6) (hsize : h.blockDataSize = 2 ^ (szx + 4))
    (hptr : m.payloadPtr = some data) (hlen : m.payloadLen = data.length) (hlong : 2 ^ (szx + 4) < data.length)
    (hbuild : protocolBuild env h dst (prepareBlockwiseMessage env h m).1 = .ok (ret, m', h')) (hret : 0 ≤ ret) :
    Holds h.sentMsgs data h' ∧
      (m.msgCode < codeResponseCreated → blockOf env.heap (·.block1) m' = ⟨0, true, chunk (2 ^ (szx + 4)) data 0⟩) ∧
      (¬ m.msgCode < codeResponseCreated → blockOf env.heap (·.block2) m' = ⟨0, true, chunk (2 ^ (szx + 4)) data 0⟩) := by
  have hpos : 0 < 2 ^ (szx + 4) := Nat.two_pow_pos _
  have hin : inBlocks h m.payloadLen = true := by simp [inBlocks, hsize, hlen, hlong, hpos]
  obtain ⟨options, hprepare, hblock1, hblock2⟩ := prepareBlockwiseMessage_inBlocks halloc hin
  rw [hsize, convertBlockSize_pow hszx, show 8 + szx = blockOption 0 true szx by simp [blockOption]] at hblock1 hblock2
  rw [hprepare] at hbuild
  obtain ⟨hholds, msgId, hm'⟩ :=
    protocolBuild_inBlocks halloc (m := { m with optionsListPtr := some options }) hin hptr
      hlen hbuild hret
  have hoptions : m'.options = options := by rw [hm']; rfl
  have hptr' : m'.payloadPtr = some data := by rw [hm', ← hptr]
  have hlen' : m'.payloadLen = 2 ^ (szx + 4) := by rw [hm', ← hsize]
  rw [← hoptions] at hblock1 hblock2
  exact ⟨hholds, fun hreq => blockOf_first env.heap _ hszx (hblock1 hreq) hptr' hlen' hlong,
    fun hresp => blockOf_first env.heap _ hszx (hblock2 hresp) hptr' hlen' hlong⟩

end

end

/-! ## The blocks of a message -/

section

/-- The blocks of a request are the split unless a block ends where the payload does. -/
theorem blockAfter_eq_split_iff (hb : 0 < b) (hlong : b < data.length) :
    ⟨0, true, chunk b data 0⟩ ::
        (List.range (chunkCount b data.length - 1)).map (blockAfter b data) = split b data ↔ ¬ b ∣ data.length := by
  have hcount : 0 < chunkCount b data.length := (lt_chunkCount_iff hb).mpr (by omega)
  obtain ⟨n, hn⟩ := Nat.exists_eq_add_one.mpr hcount
  have hfirst : decide ((0 + 1) * b < data.length) = true := decide_eq_true (by omega)
  rw [split, hn, Nat.add_one_sub_one, range_succ_eq_map, map_cons, map_map, hfirst,
    cons_inj_right, map_inj_left, dvd_length_iff hb (by omega), hn]
  constructor
  · rintro hall ⟨k, hk, hend⟩
    match k with
    | 0 => omega
    | k + 1 =>
      have hblock := hall k (mem_range.mpr (by omega))
      simp only [blockAfter, Function.comp, Nat.succ_eq_add_one, Block.mk.injEq, decide_eq_decide,
        true_and, and_true, Nat.mul_comm b, Nat.add_assoc, Nat.reduceAdd] at hblock hend
      omega
  · intro hnone k hk
    have hend : (k + 2) * b ≠ data.length := fun hend => hnone ⟨k + 1, by have := mem_range.mp hk; omega, hend⟩
    simp only [blockAfter, Function.comp, Nat.succ_eq_add_one, Block.mk.injEq, decide_eq_decide,
      true_and, and_true, Nat.mul_comm b, Nat.add_assoc, Nat.reduceAdd]
    omega

/-- The answers to requests are the split unless the request for the last block has the more
bit. -/
theorem blockAnswer_eq_split_iff (hb : 0 < b) (hlong : b < data.length) (more : Nat → Bool) :
    (List.range (chunkCount b data.length)).map (fun k => blockAnswer b data (more k) k) =
        split b data ↔ more (chunkCount b data.length - 1) = false := by
  have hcount : 0 < chunkCount b data.length := (lt_chunkCount_iff hb).mpr (by omega)
  have hend : ¬ (chunkCount b data.length - 1 + 1) * b < data.length := by
    rw [Nat.sub_add_cancel hcount, ← lt_chunkCount_iff hb]
    exact Nat.lt_irrefl _
  rw [split, map_inj_left]
  constructor
  · intro hall
    have hblock := hall (chunkCount b data.length - 1) (mem_range.mpr (by omega))
    simp only [blockAnswer, Block.mk.injEq, true_and, and_true, Nat.mul_comm b, decide_eq_false hend, Bool.false_or] at hblock
    exact hblock
  intro hmore k hk
  simp only [blockAnswer, Block.mk.injEq, true_and, and_true, Nat.mul_comm b]
  by_cases hlast : k = chunkCount b data.length - 1
  · rw [hlast, hmore, Bool.or_false]
  have hmem := mem_range.mp hk
  have hfull : (k + 1) * b < data.length := (lt_chunkCount_iff hb).mp (by omega)
  rw [decide_eq_true hfull, Bool.true_or]

end

/-- The peer asks for the blocks in turn; `more k` is the more bit of the request for block
`k`. -/
def RequestsBlock (more : Nat → Bool) (szx : Nat) (h : Handle) (m : Hdr) (k : Nat) : Prop :=
  ∃ stored, Requests h m stored k (more k) szx

section Runs

variable {env : Env} {szx : Nat} {others : List BlockwiseMsg}

section

variable (halloc : ∀ site, env.alloc site = true)
include halloc

section

variable (hszx : szx ≤ 6) (hmax : data.length < 65536)
include hszx hmax

theorem run_acknowledged (hholds : Holds others data h) (hn : 2 ^ (szx + 4) * n ≤ data.length)
    (hrun : Exchange env (AcknowledgesBlock others szx) n h h') :
    Sends env.heap (·.block1) h h' ((List.range n).map (blockAfter (2 ^ (szx + 4)) data)) := by
  refine (Exchange.sends (fun _ => Holds others data) ?_ hrun (Nat.le_refl n) hholds).2
  intro k h src m r h' hk hholds hack hhandle
  have hin := Nat.le_trans (Nat.mul_le_mul_left (2 ^ (szx + 4)) (show k + 1 ≤ n by omega)) hn
  exact step_acknowledged halloc (by omega) hmax hin hholds hack hhandle

variable (hholds : Holds [] data h)
include hholds

theorem run_requested {more : Nat → Bool}
    (hrun : Exchange env (RequestsBlock more szx) (chunkCount (2 ^ (szx + 4)) data.length) h h') :
    Sends env.heap (·.block2) h h' ((List.range (chunkCount (2 ^ (szx + 4)) data.length)).map
      fun k => blockAnswer (2 ^ (szx + 4)) data (more k) k) := by
  have hpos : 0 < 2 ^ (szx + 4) := Nat.two_pow_pos _
  refine (Exchange.sends (fun k h => k < chunkCount (2 ^ (szx + 4)) data.length →
    Holds [] data h) ?_ hrun (Nat.le_refl _) (fun _ => hholds)).2
  intro k h src m r h' hk hholds hreq hhandle
  have hin := (lt_chunkCount_iff hpos).mp hk
  obtain ⟨hleft, hsends⟩ := step_requested halloc (by omega) hmax
    (by rw [Nat.mul_comm]; exact Nat.le_of_lt hin) (hholds hk) hreq hhandle
  refine ⟨fun hnext => hleft ?_, hsends⟩
  rw [Nat.mul_comm]
  exact (lt_chunkCount_iff hpos).mp hnext

end

omit halloc in
theorem mul_chunkCount_pred_le {b : Nat} (hb : 0 < b) (hn : 0 < n) : b * (chunkCount b n - 1) ≤ n := by
  have hcount : 0 < chunkCount b n := (lt_chunkCount_iff hb).mpr (by omega)
  rw [Nat.mul_comm]
  exact Nat.le_of_lt ((lt_chunkCount_iff hb).mp (Nat.sub_one_lt (Nat.ne_of_gt hcount)))

/-- The first block can be acknowledged. -/
theorem exists_acknowledged (hszx : szx ≤ 6) (hholds : Holds [] data h) :
    ∃ h', Exchange env (AcknowledgesBlock [] szx) 1 h h' := by
  obtain ⟨timestamp, stored, hsent, -⟩ := hholds
  have hack : Acknowledges h { acknowledgement 0 with
      msgId := stored.msgId
      optionsListPtr := some { block1 := (blockOption 0 true szx : Nat) } } stored 0 szx := by
    refine ⟨(by decide : codeResponseContinue > codeRequestDelete), rfl, ?_⟩
    rw [hsent]
    simp [sentMsgFor]
  obtain ⟨h', next, hhandle, -⟩ := handle_acknowledges ⟨[], 0⟩ hack (by omega) (halloc _) (halloc _)
  exact ⟨h', .next (.start h) ⟨⟨stored, hack⟩, by simp⟩ hhandle⟩

theorem request_blocks_iff (hszx : szx ≤ 6)
    (hlong : 2 ^ (szx + 4) < data.length) (hmax : data.length < 65536) (hholds : Holds others data h)
    (hrun : Exchange env (AcknowledgesBlock others szx) (chunkCount (2 ^ (szx + 4)) data.length - 1) h h') :
    ⟨0, true, chunk (2 ^ (szx + 4)) data 0⟩ ::
        sentBlocks env.heap (·.block1) (h'.log.drop h.log.length) = split (2 ^ (szx + 4)) data ↔
      ¬ 2 ^ (szx + 4) ∣ data.length := by
  have hpos : 0 < 2 ^ (szx + 4) := Nat.two_pow_pos _
  have hn := mul_chunkCount_pred_le hpos (show 0 < data.length by omega)
  rw [(run_acknowledged halloc hszx hmax hholds hn hrun).sentBlocks_drop]
  exact blockAfter_eq_split_iff hpos hlong

end

end Runs

/-- The blocks of a request are the split of the payload exactly if the payload is no multiple
of the block size. The answers to requests for the blocks of a response, if it is the first message
that is stored, are the split exactly if the request for the last block has no more bit. -/
theorem blocks_eq_split_iff {env : Env} {dst : Address} {m m' : Hdr}
    {szx : Nat} {ret : Int} (halloc : ∀ site, env.alloc site = true)
    (hszx : szx ≤ 6) (hsize : h.blockDataSize = 2 ^ (szx + 4))
    (hptr : m.payloadPtr = some data) (hlen : m.payloadLen = data.length)
    (hlong : 2 ^ (szx + 4) < data.length) (hmax : data.length < 65536)
    (hbuild : protocolBuild env h dst (prepareBlockwiseMessage env h m).1 = .ok (ret, m', h'))
    (hret : 0 ≤ ret) :
    (m.msgCode < codeResponseCreated → ∀ h'',
      Exchange env (AcknowledgesBlock h.sentMsgs szx) (chunkCount (2 ^ (szx + 4)) data.length - 1) h' h'' →
      (blockOf env.heap (·.block1) m' ::
          sentBlocks env.heap (·.block1) (h''.log.drop h'.log.length) =
        split (2 ^ (szx + 4)) data ↔ ¬ 2 ^ (szx + 4) ∣ data.length)) ∧
    (¬ m.msgCode < codeResponseCreated → (split (2 ^ (szx + 4)) data).head? = some (blockOf env.heap (·.block2) m') ∧
      (h.sentMsgs = [] → ∀ more h'', Exchange env (RequestsBlock more szx) (chunkCount (2 ^ (szx + 4)) data.length) h' h'' →
        (sentBlocks env.heap (·.block2) (h''.log.drop h'.log.length) = split (2 ^ (szx + 4)) data ↔
          more (chunkCount (2 ^ (szx + 4)) data.length - 1) = false))) ∧
    ∀ block ∈ split (2 ^ (szx + 4)) data, block.bytes ≠ [] := by
  have hpos : 0 < 2 ^ (szx + 4) := Nat.two_pow_pos _
  obtain ⟨hholds, hfirst1, hfirst2⟩ := build_first halloc hszx hsize hptr hlen hlong hbuild hret
  refine ⟨fun hreq h'' hrun => ?_, fun hresp => ⟨?_, fun hsent more h'' hrun => ?_⟩,
    fun block hmem => bytes_ne_nil_of_mem_split hpos hmem⟩
  · rw [hfirst1 hreq]
    exact request_blocks_iff halloc hszx hlong hmax hholds hrun
  · have hcount : 0 < chunkCount (2 ^ (szx + 4)) data.length := (lt_chunkCount_iff hpos).mpr (by omega)
    rw [hfirst2 hresp, split, head?_map, head?_range, if_neg (Nat.ne_of_gt hcount), Option.map_some, decide_eq_true (by omega)]
  · rw [hsent] at hholds
    rw [(run_requested halloc hszx hmax hholds hrun).sentBlocks_drop]
    exact blockAnswer_eq_split_iff hpos hlong more

/-! ## Concrete payloads -/

def peer : Address := ⟨[10, 0, 0, 1], 5683⟩

def splittingHandle : Handle where
  blockDataSize := 16

/-- A request with a payload of `n` bytes. -/
def longRequest (n : Nat) : Hdr where
  msgType := .nonConfirmable
  msgCode := codeRequestPut
  msgId := 7
  payloadPtr := some (List.replicate n 1)
  payloadLen := n

def longRequestBuild (n : Nat) : Exec Fault (Int × Hdr × Handle) :=
  protocolBuild calm splittingHandle peer (prepareBlockwiseMessage calm splittingHandle (longRequest n)).1

def longRequestBlocks (m' : Hdr) (h' h'' : Handle) : List Block :=
  blockOf calm.heap (·.block1) m' :: sentBlocks calm.heap (·.block1) (h''.log.drop h'.log.length)

/-- The request is built, and the first block is acknowledged. -/
theorem exists_longRequest (hlong : 16 < n) (hbuilt : ((longRequestBuild n).toOption.any fun r => decide (0 ≤ r.1)) = true) :
    ∃ ret m' h' h'', longRequestBuild n = .ok (ret, m', h') ∧ 0 ≤ ret ∧ Exchange calm (AcknowledgesBlock [] 0) 1 h' h'' := by
  cases hbuild : longRequestBuild n with
  | error e =>
    rw [hbuild] at hbuilt
    cases hbuilt
  | ok r =>
    rw [hbuild] at hbuilt
    have hret : 0 ≤ r.1 := of_decide_eq_true hbuilt
    obtain ⟨hholds, -⟩ := build_first (fun _ => rfl) (Nat.zero_le 6) rfl rfl
      length_replicate.symm (by rwa [length_replicate]) hbuild hret
    obtain ⟨h'', hrun⟩ : ∃ h'', Exchange calm (AcknowledgesBlock [] 0) 1 r.2.2 h'' :=
      exists_acknowledged (fun _ => rfl) (Nat.zero_le 6) hholds
    exact ⟨r.1, r.2.1, r.2.2, h'', rfl, hret, hrun⟩

/-- A payload of 20 bytes: a full block and one of four bytes. -/
theorem blocks_eq_split_twenty : ∃ ret m' h' h'', longRequestBuild 20 = .ok (ret, m', h') ∧
    Exchange calm (AcknowledgesBlock [] 0) 1 h' h'' ∧
    longRequestBlocks m' h' h'' = split 16 (List.replicate 20 1) := by
  obtain ⟨ret, m', h', h'', hbuild, hret, hrun⟩ := exists_longRequest (n := 20) (by decide) (by decide)
  have hptr : (longRequest 20).payloadPtr = some (.replicate 20 1) := rfl
  refine ⟨ret, m', h', h'', hbuild, hrun, ?_⟩
  exact ((blocks_eq_split_iff (fun _ => rfl) (Nat.zero_le 6) rfl hptr rfl (by decide)
    (by decide) hbuild hret).1 (by decide) h'' hrun).mpr (by decide)

/-- A payload of 32 bytes: the second block has the more bit. -/
theorem not_blocks_eq_split_multiple : ∃ ret m' h' h'', longRequestBuild 32 = .ok (ret, m', h') ∧
    Exchange calm (AcknowledgesBlock [] 0) 1 h' h'' ∧
    longRequestBlocks m' h' h'' ≠ split 16 (List.replicate 32 1) := by
  obtain ⟨ret, m', h', h'', hbuild, hret, hrun⟩ := exists_longRequest (n := 32) (by decide) (by decide)
  refine ⟨ret, m', h', h'', hbuild, hrun, ?_⟩
  obtain ⟨hholds, hfirst, -⟩ := build_first (fun _ => rfl) (Nat.zero_le 6) rfl rfl rfl (by decide) hbuild hret
  rw [longRequestBlocks, hfirst (by decide)]
  intro hsplit
  exact (request_blocks_iff (fun _ => rfl) (Nat.zero_le 6) (by decide) (by decide) hholds hrun).mp
    hsplit (by decide)

end MbedCloud.Coap

