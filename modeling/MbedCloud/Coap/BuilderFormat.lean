import MbedCloud.Coap.Grammar
import MbedCloud.Coap.Builder

/-!
# What the builder writes

The writer against the packet format: the option part of a built packet is the byte string
of a sequence of option instances in the order of their numbers (`optionsBuild_eq`), and the
values of these instances are given by `writtenValues`. A built packet is its header, the
token, these options and the payload (`snCoapBuilder2_eq`).
-/

namespace MbedCloud.Coap

open List

open Grammar

/-! ## Reading memory -/

@[simp]
theorem bytesAt_length (p : Nat → UInt8) (off len : Nat) : (bytesAt p off len).length = len := by simp [bytesAt]

theorem bytesAt_load (heap : Heap) (r : Region) (s : Bytes) : bytesAt (load heap r s) 0 s.length = s := by
  apply ext_getElem
  · simp
  · intro i hi hs
    simp [bytesAt, load, hs]

theorem bytesAt_getD (s : Bytes) : bytesAt (fun i => s.getD i 0) 0 s.length = s := by
  apply ext_getElem
  · simp
  · intro i hi hs
    simp [bytesAt, hs]

/-! ## One option -/

theorem optionNibble_eq (v : Nat) : optionNibble v = nibble v := by
  unfold optionNibble nibble
  simp only [show (v ≤ 12) = (v < 13) from propext Nat.lt_succ_iff.symm]

theorem optionExtension_eq (v : Nat) : optionExtension v = extension v := by
  unfold optionExtension extension
  simp only [show (v ≤ 12) = (v < 13) from propext Nat.lt_succ_iff.symm]
  have hlow : UInt8.ofNat ((v - 269) % 256) = UInt8.ofNat (v - 269) := UInt8.ofNat_mod_size
  rw [hlow]

theorem num_le (o : OptionNumber) : o.num ≤ 60 := by cases o <;> decide

theorem sub16_num {o : OptionNumber} {previous : Nat} (h : previous ≤ o.num) : sub16 o.num previous = o.num - previous := by
  have := num_le o
  unfold sub16 u16i
  omega

/-- The writer has written the options `xs` behind `base`, with numbers up to `most`. -/
structure Wrote (base : Bytes) (w : Writer) (most : Nat) (xs : List Opt) : Prop where
  out : w.out = base ++ optionsBytes 0 xs
  previous : w.previous = lastNumber 0 xs
  le : w.previous ≤ most

section Steps

variable {base : Bytes} {w : Writer} {most : Nat} {xs : List Opt} {o : OptionNumber}

theorem Wrote.weaken (h : Wrote base w most xs) (hmost : most ≤ o.num) : Wrote base w o.num xs :=
  ⟨h.out, h.previous, Nat.le_trans h.le hmost⟩

theorem Wrote.nothing (h : Wrote base w most xs) (hmost : most ≤ o.num) : Wrote base w o.num (xs ++ instances o []) := by
  simpa [instances] using h.weaken hmost

theorem Wrote.addOne (h : Wrote base w most xs) (hmost : most ≤ o.num) (p : Nat → UInt8)
    (len : Nat) : Wrote base (optionsBuildAddOneOption w len (some p) o) o.num (xs ++ instances o [bytesAt p 0 len]) := by
  have hdelta : sub16 o.num w.previous = o.num - lastNumber 0 xs := by rw [sub16_num (Nat.le_trans h.le hmost), h.previous]
  refine ⟨?_, ?_, Nat.le_refl _⟩
  · simp only [optionsBuildAddOneOption, h.out, hdelta, optionNibble_eq, optionExtension_eq,
      optionsBytes_append, instances, map_cons, map_nil, optionsBytes, optionBytes,
      headerBytes, bytesAt_length, Nat.add_comm (nibble len), append_assoc, cons_append,
      append_nil]
  · rw [lastNumber_append]
    rfl

def oneValue (optionPtr : Option (Nat → UInt8)) (len : Nat) : List Bytes := (optionPtr.map fun p => bytesAt p 0 len).toList

theorem Wrote.one (h : Wrote base w most xs) (o : OptionNumber) (hmost : most ≤ o.num)
    (optionPtr : Option (Nat → UInt8)) (len : Nat) :
    Wrote base (optionsBuildAddOneOption w len optionPtr o) o.num (xs ++ instances o (oneValue optionPtr len)) := by
  cases optionPtr with
  | none => exact h.nothing hmost
  | some p => exact h.addOne hmost p len

def uintValue (present : Bool) (value : Nat) : List Bytes := if present then [uintPayload value] else []

theorem Wrote.uint (h : Wrote base w most xs) (o : OptionNumber) (hmost : most ≤ o.num) (present : Prop)
    [Decidable present] (value : Nat) :
    Wrote base (if present then optionsBuildAddUintOption w value o else w) o.num
      (xs ++ instances o (uintValue (decide present) value)) := by
  by_cases hpresent : present
  · have hone := h.addOne hmost (fun i => (uintPayload value).getD i 0) (uintPayload value).length
    rw [bytesAt_getD] at hone
    rw [if_pos hpresent, uintValue, if_pos (decide_eq_true hpresent)]
    exact hone
  · simpa [uintValue, hpresent] using h.nothing hmost

def multipleValues (heap : Heap) (src : Option Bytes) (srcLen : Nat) (o : OptionNumber) :
    List Bytes :=
  src.elim [] fun s =>
    let p := load heap (.option o) s
    let query := bytesAt p 0 srcLen
    (List.range (optionsGetOptionPartCount query o)).map fun i =>
      bytesAt (fun j => p (u16i (optionsGetOptionPartPosition (p 0) query i o) + j)) 0
        (optionsGetOptionPartLengthFromWholeOptionString query i o)

theorem Wrote.parts (h : Wrote base w most xs) (hmost : most ≤ o.num) (ptr : Nat → Nat → UInt8)
    (len : Nat → Nat) (is : List Nat) :
    Wrote base (is.foldl (fun w i => optionsBuildAddOneOption w (len i) (some (ptr i)) o) w) o.num
      (xs ++ instances o (is.map fun i => bytesAt (ptr i) 0 (len i))) := by
  induction is generalizing w most xs with
  | nil => exact h.nothing hmost
  | cons i is ih =>
    have hrest := ih (h.addOne hmost (ptr i) (len i)) (Nat.le_refl _)
    simpa [instances] using hrest

theorem Wrote.multiple (h : Wrote base w most xs) (o : OptionNumber) (hmost : most ≤ o.num) (heap : Heap)
    (src : Option Bytes) (srcLen : Nat) :
    Wrote base (optionsBuildAddMultipleOption heap w src srcLen o) o.num
      (xs ++ instances o (multipleValues heap src srcLen o)) := by
  cases src with
  | none => exact h.nothing hmost
  | some s => exact h.parts hmost _ _ _

end Steps

/-! ## All options -/

/-- The options of the library, by number. -/
def numberOrder : List OptionNumber :=
  [.uriHost, .etag, .observe, .uriPort, .locationPath, .uriPath, .contentFormat, .maxAge, .uriQuery,
    .accept, .locationQuery, .block2, .block1, .size2, .proxyUri, .size1]

/-- The values that the writer gives to the instances of an option. -/
def writtenValues (heap : Heap) (m : Hdr) : OptionNumber → List Bytes
  | .uriHost => oneValue (m.options.uriHostPtr.map (load heap (.option .uriHost))) m.options.uriHostLen
  | .etag => multipleValues heap m.options.etagPtr m.options.etagLen16 .etag
  | .observe => uintValue (m.options.observe ≠ observeNone) (u32i m.options.observe)
  | .uriPort => uintValue (m.options.uriPort ≠ uriPortNone) (u32i m.options.uriPort)
  | .locationPath => multipleValues heap m.options.locationPathPtr m.options.locationPathLen .locationPath
  | .uriPath => multipleValues heap m.uriPathPtr m.uriPathLen .uriPath
  | .contentFormat => uintValue (m.contentFormat ≠ ctNone) (u32i m.contentFormat)
  | .maxAge => uintValue (m.options.maxAge ≠ maxAgeDefault) m.options.maxAge
  | .uriQuery => multipleValues heap m.options.uriQueryPtr m.options.uriQueryLen .uriQuery
  | .accept => uintValue (m.options.accept ≠ ctNone) (u32i m.options.accept)
  | .locationQuery => multipleValues heap m.options.locationQueryPtr m.options.locationQueryLen .locationQuery
  | .block2 => uintValue (m.options.block2 ≠ blockNone) (u32i m.options.block2)
  | .block1 => uintValue (m.options.block1 ≠ blockNone) (u32i m.options.block1)
  | .size2 => uintValue m.options.useSize2 m.options.size2
  | .proxyUri => oneValue (m.options.proxyUriPtr.map (load heap (.option .proxyUri))) m.options.proxyUriLen
  | .size1 => uintValue m.options.useSize1 m.options.size1
  | .ifMatch | .ifNoneMatch | .proxyScheme => []

def writtenOptions (heap : Heap) (m : Hdr) : List Opt := numberOrder.flatMap fun o => instances o (writtenValues heap m o)

/-- The check of the writer whether there is a token or an option. -/
def optionsUsed (m : Hdr) : Bool :=
  m.uriPathPtr.isSome || m.tokenPtr.isSome || decide (m.contentFormat ≠ ctNone) ||
    m.optionsListPtr.isSome

/-- A message without an options list is built like one with the default options. -/
theorem elim_options (m : Hdr) (f : Writer → OptionsList → Writer) (w : Writer) (h : f w {} = w) :
    m.optionsListPtr.elim w (f w) = f w m.options := by
  unfold Hdr.options
  cases m.optionsListPtr with
  | none => exact h.symm
  | some o => rfl

section Chain

variable {base : Bytes} {w : Writer} {xs : List Opt}

theorem lowOptionsBuild_wrote (heap : Heap) (m : Hdr) (h : Wrote base w 0 xs) :
    Wrote base (lowOptionsBuild heap w m.options) (OptionNumber.num .locationPath)
      (xs ++ [.uriHost, .etag, .observe, .uriPort, .locationPath].flatMap fun o => instances o (writtenValues heap m o)) := by
  have h := h.one .uriHost (by decide) (m.options.uriHostPtr.map (load heap (.option .uriHost)))
    m.options.uriHostLen
  have h := h.multiple .etag (by decide) heap m.options.etagPtr m.options.etagLen16
  have h := h.uint .observe (by decide) (m.options.observe ≠ observeNone) (u32i m.options.observe)
  have h := h.uint .uriPort (by decide) (m.options.uriPort ≠ uriPortNone) (u32i m.options.uriPort)
  have h := h.multiple .locationPath (by decide) heap m.options.locationPathPtr
    m.options.locationPathLen
  simpa only [lowOptionsBuild, writtenValues, flatMap_cons, flatMap_nil, append_nil, append_assoc] using h

theorem highOptionsBuild_wrote (heap : Heap) (m : Hdr) (h : Wrote base w (OptionNumber.num .contentFormat) xs) :
    Wrote base (highOptionsBuild heap w m.options) (OptionNumber.num .size1)
      (xs ++ [.maxAge, .uriQuery, .accept, .locationQuery, .block2, .block1, .size2, .proxyUri,
        .size1].flatMap fun o => instances o (writtenValues heap m o)) := by
  have h := h.uint .maxAge (by decide) (m.options.maxAge ≠ maxAgeDefault) m.options.maxAge
  have h := h.multiple .uriQuery (by decide) heap m.options.uriQueryPtr m.options.uriQueryLen
  have h := h.uint .accept (by decide) (m.options.accept ≠ ctNone) (u32i m.options.accept)
  have h := h.multiple .locationQuery (by decide) heap m.options.locationQueryPtr
    m.options.locationQueryLen
  have h := h.uint .block2 (by decide) (m.options.block2 ≠ blockNone) (u32i m.options.block2)
  have h := h.uint .block1 (by decide) (m.options.block1 ≠ blockNone) (u32i m.options.block1)
  have h := h.uint .size2 (by decide) (m.options.useSize2 = true) m.options.size2
  have h := h.one .proxyUri (by decide) (m.options.proxyUriPtr.map (load heap (.option .proxyUri)))
    m.options.proxyUriLen
  have h := h.uint .size1 (by decide) (m.options.useSize1 = true) m.options.size1
  simpa only [highOptionsBuild, writtenValues, flatMap_cons, flatMap_nil, append_nil, append_assoc, Bool.decide_eq_true] using h

end Chain

theorem optionsBuild_eq (heap : Heap) (out : Bytes) (m : Hdr) (h : optionsUsed m = true) :
    optionsBuild heap out m = out ++ tokenBuild heap m ++ optionsBytes 0 (writtenOptions heap m) := by
  have hused : ¬ (m.uriPathPtr.isNone ∧ m.tokenPtr.isNone ∧ m.contentFormat = ctNone ∧ m.optionsListPtr.isNone) := by
    simp only [optionsUsed, Bool.or_eq_true, Option.isSome_iff_ne_none, decide_eq_true_eq] at h
    simp only [Option.isNone_iff_eq_none]
    tauto
  unfold optionsBuild
  rw [if_neg hused]
  dsimp only
  rw [elim_options m (lowOptionsBuild heap) _ rfl, elim_options m (highOptionsBuild heap) _ rfl]
  have hstart : Wrote (out ++ tokenBuild heap m) { out := out ++ tokenBuild heap m } 0 [] :=
    ⟨by simp [optionsBytes], rfl, Nat.le_refl 0⟩
  have hlow := lowOptionsBuild_wrote heap m hstart
  have hpath := hlow.multiple .uriPath (by decide) heap m.uriPathPtr m.uriPathLen
  have hformat := hpath.uint .contentFormat (by decide) (m.contentFormat ≠ ctNone) (u32i m.contentFormat)
  have hhigh := highOptionsBuild_wrote heap m hformat
  rw [hhigh.out]
  congr 2
  simp only [writtenOptions, numberOrder, flatMap_cons, flatMap_nil, append_nil, nil_append, append_assoc]
  rfl

/-! ## The packet -/

/-- The bytes for the token: none when neither a token nor options are used. -/
def writtenToken (heap : Heap) (m : Hdr) : Bytes := if optionsUsed m then tokenBuild heap m else []

theorem optionsBuild_append (heap : Heap) (out : Bytes) (m : Hdr) : optionsBuild heap out m =
      out ++ writtenToken heap m ++ optionsBytes 0 (writtenOptions heap m) := by
  unfold writtenToken
  split_ifs with hused
  · exact optionsBuild_eq heap out m hused
  simp only [optionsUsed, Bool.or_eq_true, not_or, Bool.not_eq_true, Option.isSome_eq_false_iff,
    decide_eq_true_eq, not_not, Option.isNone_iff_eq_none] at hused
  obtain ⟨⟨⟨hpath, htoken⟩, hformat⟩, hlist⟩ := hused
  have hnone : writtenOptions heap m = [] := by
    have hoptions : m.options = {} := by simp [Hdr.options, hlist]
    simp only [writtenOptions, numberOrder, flatMap_cons, flatMap_nil, writtenValues, hoptions, hpath, hformat]
    rfl
  unfold optionsBuild
  rw [if_pos (by simp [hpath, htoken, hformat, hlist]), hnone]
  simp [optionsBytes]

def writtenPayload (heap : Heap) (m : Hdr) : Bytes := payloadBuild heap [] m

theorem snCoapBuilder2_eq (heap : Heap) (m : Hdr) (blockwisePayloadSize : Nat)
    (hsize : calcNeededPacketDataSize2 heap m blockwisePayloadSize ≠ 0)
    (hvalid : headerValidityCheck m coapVersion1 = true) (hreset : m.msgType ≠ .reset) :
    snCoapBuilder2 heap m blockwisePayloadSize =
      some (m.header ++ writtenToken heap m ++ optionsBytes 0 (writtenOptions heap m) ++
        writtenPayload heap m) := by
  unfold snCoapBuilder2 headerBuild
  rw [if_neg hsize, if_pos hvalid]
  rw [Option.map_some, if_neg hreset, optionsBuild_append]
  unfold writtenPayload payloadBuild
  cases m.payloadPtr with
  | none => simp
  | some s => by_cases hlen : m.payloadLen = 0 <;> simp [hlen]

end MbedCloud.Coap

