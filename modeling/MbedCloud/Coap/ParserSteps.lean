import MbedCloud.Coap.Runs

/-!
# Steps of the parser

What the parser's functions do with the packet pointer, for every memory and message: which
options are repeatable, that a single-valued option moves the pointer behind its value, how
the copying loop moves it, and that all functions depend on their fuel only by running out
of it.
-/

namespace MbedCloud.Coap.Parser

open Lib

/-! ## Single-valued and repeatable options -/

/-- The options handed to `sn_coap_parser_options_parse_multiple_options`. A second
Location-Path is refused before. -/
def repeatable (o : OptionNumber) (m : Hdr) : Bool :=
  match o with
  | .etag | .locationQuery | .uriPath | .uriQuery => true
  | .locationPath => m.options.locationPathPtr.isNone
  | _ => false

@[simp]
theorem allocOptions_options (m : Hdr) : m.allocOptions.options = m.options := rfl

def multipleDst (o : OptionNumber) (m : Hdr) : Option Bytes :=
  match o with
  | .etag => m.options.etagPtr
  | .locationPath => m.options.locationPathPtr
  | .locationQuery => m.options.locationQueryPtr
  | .uriQuery => m.options.uriQueryPtr
  | _ => m.uriPathPtr

/-- The message with a repeatable option's pointer and length. -/
def multipleSet (o : OptionNumber) (m : Hdr) (dst : Option Bytes) (n : Nat) : Hdr :=
  match o with
  | .etag => m.allocOptions.modifyOptions fun l => ({ l with etagPtr := dst }).setEtagLen16 n
  | .locationPath => m.allocOptions.modifyOptions fun l => { l with locationPathPtr := dst, locationPathLen := n }
  | .locationQuery => m.allocOptions.modifyOptions fun l => { l with locationQueryPtr := dst, locationQueryLen := n }
  | .uriQuery => m.allocOptions.modifyOptions fun l => { l with uriQueryPtr := dst, uriQueryLen := n }
  | _ => { m with uriPathPtr := dst, uriPathLen := n }

variable {o : OptionNumber} {m : Hdr}

theorem parseOption_repeatable (h : repeatable o m = true) (fuel : Nat) (mem : Mem) (left pos len : Nat) :
    parseOption fuel mem left o pos len m =
      repeatableOption fuel mem left o (multipleDst o m) (multipleSet o m) pos len
        (if inOptionsList o then m.allocOptions else m) := by
  cases o with
  | etag | uriPath | uriQuery | locationQuery => rfl
  | locationPath =>
    have hnone : m.options.locationPathPtr.isSome = false := by simpa [repeatable] using h
    simp only [parseOption, inOptionsList, if_true, allocOptions_options, hnone, Bool.false_eq_true, if_false]
    rfl
  | _ => cases h

/-- The checks of a single-valued option: its length, and that it is the first one. -/
def accepted (o : OptionNumber) (m : Hdr) (len : Nat) : Bool :=
  match o with
  | .contentFormat => decide (len ≤ 2) && decide (m.contentFormat = ctNone)
  | .maxAge => decide (len ≤ 4)
  | .proxyUri => decide (1 ≤ len) && decide (len ≤ 1034) && m.options.proxyUriPtr.isNone
  | .uriHost => decide (1 ≤ len) && decide (len ≤ 255) && m.options.uriHostPtr.isNone
  | .uriPort => decide (len ≤ 2) && decide (m.options.uriPort = uriPortNone)
  | .observe => decide (len ≤ 2) && decide (m.options.observe = observeNone)
  | .block2 => decide (len ≤ 3) && decide (m.options.block2 = blockNone)
  | .block1 => decide (len ≤ 3) && decide (m.options.block1 = blockNone)
  | .accept => decide (len ≤ 2) && decide (m.options.accept = ctNone)
  | .size1 => decide (len ≤ 4) && !m.options.useSize1
  | .size2 => decide (len ≤ 4) && !m.options.useSize2
  | _ => false

/-- An option that is not refused is consumed to the end of its value. -/
def Behind (pos len : Nat) (r : Ret) : Prop := ∀ pos' m', r = .ok pos' m' → pos' = pos + 1 + len

theorem behind_err (pos len : Nat) (m : Hdr) : Behind pos len (.err m) := fun _ _ h => by cases h

theorem settles_value {α : Type} {x : Exec Fault α} {bad refused : Prop} {P : α → Prop} [Decidable refused]
    (pos len : Nat) (m : Hdr) (set : α → Hdr) (hx : Settles bad x P) :
    Settles (¬ refused ∧ bad)
      (if refused then pure (.err m) else x >>= fun v => pure (.ok (pos + 1 + len) (set v))) (Behind pos len) := by
  split_ifs with h
  · exact .congr (settles_pure (behind_err pos len m)) (by simp [h])
  · refine .congr (.map hx fun v _ => ?_) (by simp [h])
    intro pos' m' hr
    cases hr
    rfl

theorem parseOption_single (h : repeatable o m = false) (mem : Mem) (left pos len : Nat) :
    ∃ x, (∀ fuel, parseOption fuel mem left o pos len m = x) ∧
      Settles (accepted o m len = true ∧ Gap mem (pos + 1) len) x (Behind pos len) := by
  cases o with
  | observe | uriPort | contentFormat | maxAge | accept | block2 | block1 | size2 | size1 =>
    refine ⟨_, fun _ => rfl, .congr (settles_value pos len _ _ (settles_optionsParseUint mem len _ 0)) ?_⟩
    simp [accepted, inOptionsList]
  | uriHost | proxyUri =>
    refine ⟨_, fun _ => rfl, .congr (settles_value pos len _ _ (settles_rdBytes mem len _)) ?_⟩
    simp [accepted, inOptionsList, Nat.one_le_iff_ne_zero, and_assoc, and_left_comm]
  | ifMatch | ifNoneMatch | proxyScheme =>
    exact ⟨_, fun _ => rfl, .congr (settles_pure (behind_err pos len _)) (by simp [accepted])⟩
  | locationPath =>
    have hsome : m.options.locationPathPtr.isSome = true := by simpa [repeatable, Option.isSome_iff_ne_none] using h
    refine ⟨pure (.err m.allocOptions), fun _ => ?_, .congr (settles_pure (behind_err pos len _)) (by simp [accepted])⟩
    simp only [parseOption, inOptionsList, if_true, allocOptions_options, hsome]
  | etag | uriPath | uriQuery | locationQuery => cases h

/-! ## The copying loop -/

/-- The bytes that are copied for instances of the lengths `ls` when `counter` instances
were copied before: each instance with its separator, but no separator where the counter
has come back to `0`. -/
def copied : Nat → List Nat → Nat
  | _, [] => 0
  | counter, l :: ls => (if 0 < counter then 1 else 0) + l + copied (u8 (counter + 1)) ls

section Copy

variable {mem : Mem} {needed : Int} {pos len k : Nat} {s : Copy} {c : Copied}

theorem copied_separated (s : Copy) : s.out.length + copied s.counter [s.optionNumberLen] =
    (separated o s).length + s.optionNumberLen := by
  unfold separated copied
  split <;> simp [copied]
  omega

/-- Behind the instance of the copy there is the header of a further one, which is needed. -/
def NextHeader (mem : Mem) (needed : Int) (s : Copy) (len pos : Nat) : Prop :=
  (s.out.length : Int) + copied s.counter [s.optionNumberLen] < needed ∧
    ∃ b, mem (s.pos + 1 + s.optionNumberLen) = some b ∧ b.toNat / 16 = 0 ∧
      extended mem (s.pos + 1 + s.optionNumberLen) (b.toNat % 16) = .ok (len, pos)

structure NextCopied (mem : Mem) (needed : Int) (s s' : Copy) : Prop where
  header : NextHeader mem needed s s'.optionNumberLen s'.pos
  counter : s'.counter = u8 (s.counter + 1)
  length : s'.out.length = s.out.length + copied s.counter [s.optionNumberLen]

/-- The header of an instance at index `e` is not there. -/
def HeaderGap (mem : Mem) (e : Nat) : Prop :=
  mem e = none ∨ ∃ b, mem e = some b ∧ b.toNat / 16 = 0 ∧ Gap mem (e + 1) (extLen (b.toNat % 16))

theorem settles_copyStep (mem : Mem) (o : OptionNumber) (needed : Int) (s : Copy) :
    Settles ((s.out.length : Int) < needed ∧ (s.out.length : Int) + copied s.counter [s.optionNumberLen] ≤ needed ∧
        (Gap mem (s.pos + 1) s.optionNumberLen ∨
          (s.out.length : Int) + copied s.counter [s.optionNumberLen] < needed ∧ HeaderGap mem (s.pos + 1 + s.optionNumberLen)))
      (copyStep mem o needed s) fun
        | .done c => ((s.out.length : Int) < needed → s.pos < c.pos) ∧ ∀ len pos, ¬ NextHeader mem needed s len pos
        | .more s' => NextCopied mem needed s s' := by
  have hcopied : (s.out.length : Int) + copied s.counter [s.optionNumberLen] =
      ((separated o s).length : Int) + s.optionNumberLen := by
    exact_mod_cast copied_separated s
  unfold copyStep
  split
  · exact .congr (settles_pure ⟨fun h => by omega, fun _ _ h => absurd h.1 (by omega)⟩) (iff_of_false id fun h => by omega)
  dsimp only
  split
  · exact .congr (settles_pure ⟨fun _ => Nat.lt_succ_self _, fun _ _ h => absurd h.1 (by omega)⟩)
      (iff_of_false id fun h => by omega)
  rename_i hlt hle
  rw [Int.not_le] at hlt
  rw [Int.not_lt, ← hcopied] at hle
  simp only [hlt, hle, true_and]
  refine .bind (settles_rdBytes mem _ _) fun bytes hbytes => ?_
  have hlen : ((separated o s ++ bytes).length : Int) = s.out.length + copied s.counter [s.optionNumberLen] := by
    rw [hcopied, List.length_append, hbytes, Int.natCast_add]
  rw [hlen]
  split_ifs with hshort
  · exact .congr (settles_pure ⟨fun _ => by dsimp only; omega, fun _ _ h => absurd h.1 (by omega)⟩)
      (iff_of_false id fun h => by omega)
  rw [Int.not_le] at hshort
  simp only [hshort, true_and]
  refine .bind (settles_rd mem _) ?_
  rintro v ⟨b, hb, rfl⟩
  have hheader : (∃ b', mem (s.pos + 1 + s.optionNumberLen) = some b' ∧ b'.toNat / 16 = 0 ∧
      Gap mem (s.pos + 1 + s.optionNumberLen + 1) (extLen (b'.toNat % 16))) ↔ b.toNat / 16 = 0 ∧
        Gap mem (s.pos + 1 + s.optionNumberLen + 1) (extLen (b.toNat % 16)) := by
    simp only [hb, Option.some.injEq, exists_eq_left']
  split_ifs with hz
  · refine .congr (settles_pure ⟨fun _ => by dsimp only; omega, ?_⟩) (iff_of_false id fun h => hz (hheader.mp h).1)
    rintro len pos ⟨-, b', hb', hz', -⟩
    cases hb.symm.trans hb'
    exact hz hz'
  · rw [not_not] at hz
    refine .congr (.map (settles_extended mem _ _).ok ?_) (hheader.trans (and_iff_right hz)).symm
    rintro ⟨len', pos'⟩ ⟨hext, -⟩
    exact ⟨⟨hshort, b, hb, hz, hext⟩, rfl, by exact_mod_cast hlen⟩

theorem NextCopied.pos_lt {s' : Copy} (h : NextCopied mem needed s s') : s.pos < s'.pos := by
  obtain ⟨-, b, -, -, hext⟩ := h.header
  have hpos := ((settles_extended mem _ _).of_ok hext).2
  omega

theorem nextCopied {s' : Copy} (h : copyStep mem o needed s = .ok (.more s')) : NextCopied mem needed s s' :=
  ((settles_copyStep mem o needed s).of_ok h).2

theorem copy_outcome (s : Copy) : ∃ x, Outcome (fun k => loop (copyStep mem o needed) k s) x := by
  -- a separator or the first round's flag is used up by every iteration
  refine loop_of_measure (fun _ => copyStep mem o needed) (fun _ => mono_const _)
    (fun s => 2 * (needed - s.out.length).toNat + if s.counter = 0 then 1 else 0) s ?_
  intro s' _
  refine ⟨copyStep mem o needed s', outcome_const (settles_copyStep mem o needed s').ne_fuel, ?_⟩
  intro s'' h
  obtain ⟨⟨hlt, -⟩, hc, hlen⟩ := nextCopied h
  simp only [copied] at hlt hlen
  have hc' : s'.counter = 0 → s''.counter ≠ 0 := by
    intro h0
    rw [hc, h0]
    decide
  by_cases h0 : s'.counter = 0
  · rw [if_neg (hc' h0), if_pos h0]
    omega
  rw [if_pos (by omega)] at hlt hlen
  split <;> omega

theorem loop_copy_pos (hn : (s.out.length : Int) < needed) (h : loop (copyStep mem o needed) k s = .ok c) : s.pos < c.pos := by
  induction k generalizing s with
  | zero => cases h
  | succ k ih =>
    rw [loop] at h
    split at h
    · cases h
    · rename_i c' hs
      cases h
      exact ((settles_copyStep mem o needed s).of_ok hs).2.1 hn
    rename_i s' hs
    have hnext := nextCopied hs
    have hshort := hnext.header.1
    exact Nat.lt_trans hnext.pos_lt (ih (by rw [hnext.length]; push_cast; omega) h)

/-- With nothing to copy the loop leaves the pointer where it is. -/
theorem loop_copy_nothing (hn : needed ≤ 0) : loop (copyStep mem o needed) (k + 1) ⟨pos, [], 0, len⟩ = .ok ⟨0, pos, []⟩ := by
  simp only [loop, copyStep, List.length_nil]
  rw [if_pos (by simpa using hn)]
  rfl

end Copy

/-! ## Two runs

With a memory that maps more, and with more fuel, nothing changes in what a run does up to its loss. -/

section

variable {lost : Stop Fault → Prop} {mem mem' : Mem} (hm : ∀ a, Below lost (rdByte mem a) (rdByte mem' a))
include hm

theorem below_rd (a : Nat) : Below lost (rd mem a) (rd mem' a) := below_bind (hm a) fun _ _ => below_refl _

theorem below_rdBytes : ∀ len a, Below lost (rdBytes mem a len) (rdBytes mem' a len)
  | 0, _ => below_refl _
  | len + 1, a => below_bind (hm a) fun _ _ => below_bind (below_rdBytes len (a + 1)) fun _ _ => below_refl _

theorem below_optionsParseUint : ∀ len a v, Below lost (optionsParseUint mem a len v) (optionsParseUint mem' a len v)
  | 0, _, _ => below_refl _
  | len + 1, a, _ => below_bind (below_rd hm a) fun _ _ => below_optionsParseUint len (a + 1) _

theorem below_extended (pos v : Nat) : Below lost (extended mem pos v) (extended mem' pos v) := by
  unfold extended
  split
  · exact below_bind (below_rd hm _) fun _ _ => below_refl _
  split
  · exact below_bind (below_rd hm _) fun _ _ => below_bind (below_rd hm _) fun _ _ => below_refl _
  · exact below_refl _

theorem below_countStep (start left : Nat) (o : OptionNumber) (s : Count) :
    Below lost (countStep mem start left o s) (countStep mem' start left o s) := by
  unfold countStep
  split
  · exact below_refl _
  split
  · exact below_refl _
  dsimp only
  split
  · exact below_refl _
  split
  · exact below_refl _
  refine below_bind (below_rd hm _) fun b _ => ?_
  split
  · exact below_refl _
  split
  · split
    · exact below_refl _
    · exact below_bind (below_rd hm _) fun _ _ => below_refl _
  split
  · split
    · exact below_refl _
    · exact below_bind (below_rd hm _) fun _ _ => below_bind (below_rd hm _) fun _ _ => below_refl _
  · exact below_refl _

theorem below_copyStep (o : OptionNumber) (needed : Int) (s : Copy) :
    Below lost (copyStep mem o needed s) (copyStep mem' o needed s) := by
  unfold copyStep
  split
  · exact below_refl _
  dsimp only
  split
  · exact below_refl _
  refine below_bind (below_rdBytes hm _ _) fun bytes _ => ?_
  split
  · exact below_refl _
  refine below_bind (below_rd hm _) fun b _ => ?_
  split
  · exact below_refl _
  · exact below_bind (below_extended hm _ _) fun _ _ => below_refl _

theorem below_uintOption (max : Nat) (present : Bool) (set : Nat → Hdr) (pos len : Nat) (m : Hdr) :
    Below lost (uintOption mem max present set pos len m) (uintOption mem' max present set pos len m) := by
  unfold uintOption
  split
  · exact below_refl _
  · exact below_bind (below_optionsParseUint hm _ _ _) fun _ _ => below_refl _

theorem below_stringOption (max : Nat) (present : Bool) (set : Bytes → Hdr) (pos len : Nat)
    (m : Hdr) : Below lost (stringOption mem max present set pos len m) (stringOption mem' max present set pos len m) := by
  unfold stringOption
  split
  · exact below_refl _
  · exact below_bind (below_rdBytes hm _ _) fun _ _ => below_refl _

theorem below_optionHead (pos prev b : Nat) : Below lost (optionHead mem pos prev b) (optionHead mem' pos prev b) := by
  unfold optionHead
  split
  · exact below_refl _
  refine below_bind (below_extended hm _ _) fun _ _ => ?_
  dsimp only
  split
  · exact below_refl _
  · exact below_bind (below_extended hm _ _) fun _ _ => below_refl _

theorem below_headerParse (m : Hdr) : Below lost (headerParse mem m) (headerParse mem' m) :=
  below_bind (below_rd hm _) fun _ _ => below_bind (below_rd hm _) fun _ _ =>
    below_bind (below_rd hm _) fun _ _ => below_bind (below_rd hm _) fun _ _ => below_refl _

section Fuel

variable {k k' : Nat} (hk : FuelFor lost k k')
include hk

theorem below_copyMultipleOptions (pos : Nat) (dst : Option Bytes) (o : OptionNumber) (len : Nat) (needed : Int) :
    Below lost (copyMultipleOptions k mem pos dst o len needed) (copyMultipleOptions k' mem' pos dst o len needed) := by
  unfold copyMultipleOptions
  split
  · exact below_refl _
  split
  · exact below_refl _
  · exact below_bind (below_loop _ (below_copyStep hm _ _) hk _) fun _ _ => below_refl _

theorem below_optionsParseMultipleOptions (pos left : Nat) (dst : Option Bytes) (o : OptionNumber) (len : Nat) :
    Below lost (optionsParseMultipleOptions k mem pos left dst o len) (optionsParseMultipleOptions k' mem' pos left dst o len) :=
  below_bind (below_loop _ (below_countStep hm _ _ _) hk _) fun _ _ => below_copyMultipleOptions hm hk _ _ _ _ _

theorem below_repeatableOption (left : Nat) (o : OptionNumber) (dst : Option Bytes)
    (set : Option Bytes → Nat → Hdr) (pos len : Nat) (m : Hdr) :
    Below lost (repeatableOption k mem left o dst set pos len m) (repeatableOption k' mem' left o dst set pos len m) :=
  below_bind (below_optionsParseMultipleOptions hm hk _ _ _ _ _) fun _ _ => below_refl _

theorem below_parseOption (left : Nat) (o : OptionNumber) (pos len : Nat) (m : Hdr) :
    Below lost (parseOption k mem left o pos len m) (parseOption k' mem' left o pos len m) := by
  cases hrep : repeatable o m with
  | true =>
    simp only [parseOption_repeatable hrep]
    exact below_repeatableOption hm hk _ _ _ _ _ _ _
  | false =>
    cases o with
    | observe | uriPort | contentFormat | maxAge | accept | block2 | block1 | size2 | size1 =>
      exact below_uintOption hm _ _ _ _ _ _
    | uriHost | proxyUri => exact below_stringOption hm _ _ _ _ _ _
    | ifMatch | ifNoneMatch | proxyScheme => exact below_refl _
    | locationPath =>
      have hsome : m.options.locationPathPtr.isSome = true := by simpa [repeatable, Option.isSome_iff_ne_none] using hrep
      simp only [parseOption, inOptionsList, if_true, allocOptions_options, hsome]
      exact below_refl _
    | etag | uriPath | uriQuery | locationQuery => cases hrep

theorem below_optionsStep (n : Nat) (s : OptState) : Below lost (optionsStep k mem n s) (optionsStep k' mem' n s) := by
  unfold optionsStep
  split
  · exact below_refl _
  refine below_bind (below_rd hm _) fun b _ => ?_
  split
  · exact below_refl _
  refine below_bind (below_optionHead hm _ _ _) fun h _ => ?_
  unfold optionsBody
  split
  · exact below_refl _
  split
  · exact below_refl _
  · exact below_bind (below_parseOption hm hk _ _ _ _ _) fun _ _ => below_refl _

theorem below_optionsParse (n pos : Nat) (m : Hdr) : Below lost (optionsParse k mem n pos m) (optionsParse k' mem' n pos m) := by
  refine below_bind (below_bind (below_rd hm _) fun b _ => ?_) fun r _ => ?_
  · dsimp only
    split
    · exact below_refl _
    split
    · exact below_refl _
    · exact below_bind (below_rdBytes hm _ _) fun _ _ => below_refl _
  · split
    · exact below_refl _
    · exact below_loop _ (below_optionsStep hm hk n) hk _

end Fuel

end

/-- What `repeatableOption` does with the values it has read. -/
def storeMultiple (set : Option Bytes → Nat → Hdr) (m : Hdr) : Option Multiple → Exec Fault Ret
  | none => pure (.err m)
  | some r => if 0 ≤ r.ret then pure (.ok r.pos (set r.dst r.dstLen)) else pure (.err (set r.dst r.dstLen))

section Mono

variable {mem : Mem} {left pos len : Nat}

theorem mono_copyMultipleOptions (dst : Option Bytes) (needed : Int) :
    Mono (fun k => copyMultipleOptions k mem pos dst o len needed) :=
  mono_of_below fun hk => below_copyMultipleOptions (fun _ => below_refl _) hk _ _ _ _ _

theorem mono_optionsParseMultipleOptions (dst : Option Bytes) :
    Mono (fun k => optionsParseMultipleOptions k mem pos left dst o len) :=
  mono_of_below fun hk => below_optionsParseMultipleOptions (fun _ => below_refl _) hk _ _ _ _ _

theorem mono_repeatableOption (dst : Option Bytes) (set : Option Bytes → Nat → Hdr) :
    Mono (fun k => repeatableOption k mem left o dst set pos len m) :=
  mono_of_below fun hk => below_repeatableOption (fun _ => below_refl _) hk _ _ _ _ _ _ _

theorem mono_optionsStep (mem : Mem) (packetLen : Nat) (s : OptState) : Mono (fun k => optionsStep k mem packetLen s) :=
  mono_of_below fun hk => below_optionsStep (fun _ => below_refl _) hk _ _

end Mono

end MbedCloud.Coap.Parser

