import MbedCloud.Coap.Grammar
import MbedCloud.Coap.ParserBounds

/-!
# The parser and the packet format

Is an accepted packet one of the format, and is the message the one it stands for? The
options loop is followed from loop head to loop head: `Consumed` says which options have
been consumed, that their bytes are the packet up to the pointer, and that the message has
their fields. An iteration keeps it when the option at the loop head is regular
(`RegularHead`): the parser keeps option numbers and lengths in 16 bits, takes a second
Max-Age, and handles only runs of a repeatable option that are neither empty nor too long
(`GoodRun`).
-/

namespace MbedCloud.Coap.Parser

open Lib Grammar List

/-! ## Reading what stands in the packet -/

section

variable {p : Bytes} (tail : Nat → Option UInt8) {a v pos : Nat} {bs : Bytes}

theorem packetMem_some {b : UInt8} (h : p[a]? = some b) : packetMem p tail a = some b := by
  have hlt := (List.getElem?_eq_some_iff.mp h).1
  rw [packetMem, if_pos hlt, h]

theorem packetMem_getElem (h : a < p.length) : packetMem p tail a = some p[a] := packetMem_some tail (getElem?_eq_getElem h)

theorem rdBytes_at (h : At p a bs) : rdBytes (packetMem p tail) a bs.length = .ok bs := by
  induction bs generalizing a with
  | nil => rfl
  | cons b bs ih =>
    obtain ⟨hb, hbs⟩ := at_cons.mp h
    rw [length_cons, rdBytes, rdByte_of_some (packetMem_some tail hb)]
    simp only [bind, Except.bind, ih hbs]
    rfl

/-- Up to four bytes the 32-bit value is the big-endian integer. -/
theorem optionsParseUint_at (h : At p a bs) (hv : (v + 1) * 256 ^ bs.length ≤ 256 ^ 4) :
    optionsParseUint (packetMem p tail) a bs.length v = .ok (bs.foldl (fun a b => a * 256 + b.toNat) v) := by
  induction bs generalizing a v with
  | nil => rfl
  | cons b bs ih =>
    obtain ⟨hb, hbs⟩ := at_cons.mp h
    have hbyte : b.toNat < 256 := b.toNat_lt
    have hstep : (v * 256 + 256) * 256 ^ bs.length ≤ 256 ^ 4 := by
      rw [length_cons, Nat.pow_succ, Nat.mul_comm (256 ^ bs.length), ← Nat.mul_assoc] at hv
      rwa [show v * 256 + 256 = (v + 1) * 256 by omega]
    have hpow : 1 ≤ 256 ^ bs.length := Nat.pow_pos (by omega)
    have hmod : u32 (v * 256) = v * 256 := by
      have hle := Nat.le_trans (Nat.le_mul_of_pos_right (v * 256 + 256) hpow) hstep
      exact Nat.mod_eq_of_lt (by omega)
    rw [length_cons, optionsParseUint, rd_of_some (packetMem_some tail hb)]
    simp only [bind, Except.bind, hmod, foldl_cons]
    exact ih hbs (Nat.le_trans (Nat.mul_le_mul_right _ (by omega)) hstep)

theorem ofNat_toNat {x : Nat} (h : x < 256) : (UInt8.ofNat x).toNat = x := by simp [Nat.mod_eq_of_lt h]

theorem nibble_le (v : Nat) : nibble v ≤ 14 := by
  unfold nibble
  split
  · omega
  · split <;> omega

/-- The three forms of a delta or length. -/
theorem extension_cases (hv : v ≤ maxExtended) :
    (v < 13 ∧ nibble v = v ∧ extension v = []) ∨ (nibble v = 13 ∧ ∃ b, extension v = [b] ∧ b.toNat + 13 = v) ∨
      (nibble v = 14 ∧ ∃ hi lo, extension v = [hi, lo] ∧ lo.toNat + (hi.toNat * 256 + 269) = v) := by
  unfold maxExtended at hv
  unfold nibble extension
  by_cases h13 : v < 13
  · exact .inl ⟨h13, by simp [h13]⟩
  by_cases h269 : v < 269
  · refine .inr (.inl ⟨by simp [h13, h269], _, by simp only [h13, h269, if_true, if_false]; rfl, ?_⟩)
    rw [ofNat_toNat (by omega)]
    omega
  refine .inr (.inr ⟨by simp [h13, h269], _, _, by simp only [h13, h269, if_false]; rfl, ?_⟩)
  rw [ofNat_toNat (by omega), ofNat_toNat (by omega)]
  omega

/-- An extended nibble gives the delta or length, in 16 bits. -/
theorem extended_at (hv : v ≤ maxExtended) (h : At p (pos + 1) (extension v)) :
    extended (packetMem p tail) pos (nibble v) = .ok (u16 v, pos + (extension v).length) := by
  unfold extended
  rcases extension_cases hv with ⟨hlt, hn, he⟩ | ⟨hn, b, he, hb⟩ | ⟨hn, hi, lo, he, hb⟩ <;>
    rw [he] at h ⊢ <;> rw [hn]
  · rw [if_neg (by omega), if_neg (by omega), u16_of_lt (by omega)]
    rfl
  · have := b.toNat_lt
    rw [if_pos rfl, rd_of_some (packetMem_some tail (at_singleton.mp h)), u16_of_lt (by omega), ← hb]
    rfl
  · obtain ⟨hhi, hlo⟩ := at_cons.mp h
    rw [if_neg (by decide), if_pos rfl, rd_of_some (packetMem_some tail (at_singleton.mp hlo)),
      rd_of_some (packetMem_some tail hhi), ← hb]
    rfl

theorem headerBytes_first (d l : Nat) : (UInt8.ofNat (16 * nibble d + nibble l)).toNat = 16 * nibble d + nibble l := by
  have hd := nibble_le d
  have hl := nibble_le l
  exact ofNat_toNat (by omega)

theorem headerBytes_zero (l : Nat) : headerBytes 0 l = UInt8.ofNat (nibble l) :: extension l := by
  show UInt8.ofNat (16 * 0 + nibble l) :: ([] ++ extension l) = _
  rw [Nat.mul_zero, Nat.zero_add, nil_append]

theorem nibble_byte (l : Nat) : (UInt8.ofNat (nibble l)).toNat = nibble l := by
  have hl := nibble_le l
  exact ofNat_toNat (by omega)

/-- The parser reads the header of an option as it is meant, in 16 bits. -/
theorem optionHead_at (prev : Nat) {d l : Nat} (hd : d ≤ maxExtended) (hl : l ≤ maxExtended) (h : At p pos (headerBytes d l)) :
    ∃ b, packetMem p tail pos = some b ∧ b ≠ 0xff ∧
      optionHead (packetMem p tail) pos prev b.toNat =
        .ok (some ⟨u16 (u16 d + prev), u16 l, pos + (headerBytes d l).length - 1⟩) := by
  obtain ⟨hb, hrest⟩ := at_cons.mp h
  obtain ⟨hed, hel⟩ := at_append.mp hrest
  have hfirst := headerBytes_first d l
  have hnd := nibble_le d
  have hnl := nibble_le l
  refine ⟨.ofNat (16 * nibble d + nibble l), packetMem_some tail hb, ?_, ?_⟩
  · intro hff
    rw [hff] at hfirst
    have : (255 : Nat) = 16 * nibble d + nibble l := hfirst
    omega
  unfold optionHead
  rw [hfirst, show (16 * nibble d + nibble l) / 16 = nibble d by omega,
    show (16 * nibble d + nibble l) % 16 = nibble l by omega, if_neg (by omega),
    extended_at tail hd hed]
  simp only [bind, Except.bind]
  rw [if_neg (by omega), extended_at tail hl (by rwa [Nat.add_right_comm] at hel)]
  simp only [headerBytes, length_cons, length_append, pure, Except.pure]
  rw [show pos + (extension d).length + (extension l).length =
    pos + ((extension d).length + (extension l).length + 1) - 1 by omega]

end

/-! ## Runs of instances -/

/-- The values `vs` of a repeatable option's instances stand in the packet, from the first
value at `a` to the end `e` of the last one: each is short enough, the next header has delta
`0`, and behind the last one the packet is over or another delta follows. -/
inductive RunAt (p : Bytes) (o : OptionNumber) : Nat → List Bytes → Nat → Prop where
  | last {a : Nat} {v : Bytes} : At p a v → a + v.length ≤ p.length →
      tooLong o v.length = false →
      (∀ b, p[a + v.length]? = some b → b.toNat / 16 ≠ 0) → RunAt p o a [v] (a + v.length)
  | cons {a e : Nat} {v w : Bytes} {vs : List Bytes} : At p a v →
      tooLong o v.length = false → At p (a + v.length) (headerBytes 0 w.length) →
      RunAt p o (a + v.length + (headerBytes 0 w.length).length) (w :: vs) e →
      RunAt p o a (v :: w :: vs) e

/-- A run that the counting and copying loops handle: at most 256 instances and between 1
and 32767 joined bytes, or 255 for an ETag. -/
def GoodRun (p : Bytes) (o : OptionNumber) (a len : Nat) : Prop :=
  ∃ v vs e, RunAt p o a (v :: vs) e ∧ v.length = len ∧ (v :: vs).length ≤ 256 ∧
    1 ≤ (join (separator o) (v :: vs)).length ∧ (join (separator o) (v :: vs)).length ≤ 32767 ∧
    (o = .etag → (join (separator o) (v :: vs)).length ≤ 255)

section Runs

variable {p : Bytes} {o : OptionNumber} (tail : Nat → Option UInt8)

theorem total_map_length (vs : List Bytes) (sep : UInt8) : total (vs.map List.length) = (vs.flatMap (sep :: ·)).length := by
  induction vs with
  | nil => rfl
  | cons v vs ih =>
    simp only [map_cons, total_cons, ih, flatMap_cons, cons_append, length_cons, length_append]
    omega

theorem total_eq_join (v : Bytes) (vs : List Bytes) (sep : UInt8) :
    total ((v :: vs).map List.length) = (join sep (v :: vs)).length + 1 := by
  rw [map_cons, total_cons, total_map_length vs sep, join, length_append]
  omega

variable {len a e start : Nat}

theorem multiValued_le (hm : multiValued o = true) (h : tooLong o len = false) : len ≤ 255 := by
  cases o with
  | etag | locationPath | uriPath | uriQuery | locationQuery =>
    simp only [tooLong, decide_eq_false_iff_not] at h
    omega
  | _ => cases hm

variable {vs : List Bytes} {v : Bytes}

theorem RunAt.le (h : RunAt p o a vs e) : a ≤ e ∧ e ≤ p.length := by
  induction h <;> omega

theorem RunAt.tooLong (h : RunAt p o a (v :: vs) e) : tooLong o v.length = false := by
  cases h with
  | last _ _ ht _ => exact ht
  | cons _ ht _ _ => exact ht

/-- The counting loop reads the header of the next instance. -/
theorem nextInstance_at {l : Nat} (hl : l ≤ maxExtended) (h : At p (start + e) (headerBytes 0 l)) :
    nextInstance (packetMem p tail) start (p.length - start) e = some (e + (headerBytes 0 l).length, u16 l) := by
  have hle := h.le_length (by simp [headerBytes])
  rw [headerBytes_zero] at h hle ⊢
  rw [length_cons] at hle ⊢
  obtain ⟨hb, hext⟩ := at_cons.mp h
  have hnl := nibble_le l
  simp only [nextInstance, packetMem_some tail hb, nibble_byte, show nibble l / 16 = 0 by omega,
    show nibble l % 16 = nibble l by omega, ne_eq, not_true_eq_false, if_false]
  rcases extension_cases hl with ⟨hlt, hn, he⟩ | ⟨hn, b, he, hb⟩ | ⟨hn, hi, lo, he, hb⟩ <;>
    rw [he] at hext hle ⊢ <;> rw [hn]
  · rw [if_neg (by omega), if_neg (by omega), if_neg (by omega), u16_of_lt (by omega)]
    rfl
  · have hmem := packetMem_some tail (at_singleton.mp hext)
    have := b.toNat_lt
    rw [length_singleton] at hle ⊢
    rw [if_pos rfl, if_neg (by omega), ← Nat.add_assoc, hmem, Option.map_some, hb, u16_of_lt (by omega)]
  · obtain ⟨hhi, hlo⟩ := at_cons.mp hext
    have hlo := packetMem_some tail (at_singleton.mp hlo)
    simp only [length_cons, length_nil] at hle ⊢
    rw [if_neg (by decide), if_pos trivial, if_neg (by omega)]
    simp only [show start + e + 2 = start + e + 1 + 1 from rfl, hlo, packetMem_some tail hhi, hb]

theorem chain_of_runAt (hlen : p.length < 65536) (hm : multiValued o = true) (hstart : start < a) (h : RunAt p o a (v :: vs) e) :
    ∃ ls j l atEnd, Chain (packetMem p tail) start (p.length - start) o (a - start) v.length ls j l ∧
      RunEnds (packetMem p tail) start (p.length - start) o j l atEnd ∧
      (v :: vs).map List.length = ls ++ [l] := by
  generalize hws : v :: vs = ws at h
  induction h generalizing v vs with
  | @last a v' hat hle ht hend =>
    cases hws
    refine ⟨[], a - start, v'.length, decide (a + v'.length = p.length), .nil _ _, ⟨ht, ?_⟩, rfl⟩
    rw [u16_of_lt (by omega)]
    by_cases heq : a + v'.length = p.length
    · simp only [heq, decide_true, if_true]
      omega
    simp only [heq, decide_false, Bool.false_eq_true, if_false]
    have hlt : a + v'.length < p.length := by omega
    refine ⟨by omega, p[a + v'.length], ?_, hend _ (getElem?_eq_getElem hlt)⟩
    rw [show start + (a - start + v'.length) = a + v'.length by omega]
    exact packetMem_getElem tail hlt
  | @cons a e v' w vs' hat ht hhdr hrest ih =>
    cases hws
    have hbytes : 1 ≤ (headerBytes 0 w.length).length := by simp [headerBytes]
    obtain ⟨hle, hle'⟩ := hrest.le
    have hw := multiValued_le hm hrest.tooLong
    obtain ⟨ls, j, l, atEnd, hchain, hends, hmap⟩ := ih (by omega) rfl
    have hu : u16 (a - start + v'.length) = a - start + v'.length := u16_of_lt (by omega)
    have hnext : nextInstance (packetMem p tail) start (p.length - start) (u16 (a - start + v'.length)) =
        some (a + v'.length + (headerBytes 0 w.length).length - start, w.length) := by
      rw [hu, nextInstance_at (l := w.length) tail (by unfold maxExtended; omega)
        (by rwa [show start + (a - start + v'.length) = a + v'.length by omega]),
        u16_of_lt (by omega)]
      congr 2
      omega
    refine ⟨v'.length :: ls, j, l, atEnd, .cons ht (by omega) hnext hchain, hends, ?_⟩
    rw [map_cons, hmap, cons_append]

theorem count_of_runAt (hlen : p.length < 65536) (hm : multiValued o = true) (h : RunAt p o (start + 1) (v :: vs) e)
    (hshort : (join (separator o) (v :: vs)).length ≤ 32767) :
    Outcome (fun k => optionsCountNeededMemoryMultipleOption k (packetMem p tail) start
      (p.length - start) o v.length) (.ok (join (separator o) (v :: vs)).length) := by
  obtain ⟨ls, j, l, atEnd, hchain, hends, hmap⟩ := chain_of_runAt tail hlen hm (show start < start + 1 by omega) h
  rw [Nat.add_sub_cancel_left] at hchain
  have hpos : 1 ≤ p.length - start := by
    have := h.le
    omega
  have hcount := count_of_run (by omega) hpos
    (show Run (packetMem p tail) start (p.length - start) o v.length _ atEnd from ⟨ls, j, l, hchain, hends, rfl⟩)
  have hneeded : runNeeded (ls ++ [l]) atEnd = (join (separator o) (v :: vs)).length := by
    unfold runNeeded
    rw [← hmap, total_eq_join v vs (separator o), u16_of_lt (by omega)]
    unfold countResult i16
    cases atEnd with
    | true =>
      simp only [if_true]
      omega
    | false => omega
  rw [hneeded] at hcount
  exact hcount

/-- What is appended to the copy when `c` instances are already there. -/
def joinedFrom (sep : UInt8) (c : Nat) (vs : List Bytes) : Bytes := if 0 < c then vs.flatMap (sep :: ·) else join sep vs

theorem joinedFrom_cons (sep : UInt8) (c : Nat) (v : Bytes) (vs : List Bytes) :
    joinedFrom sep c (v :: vs) = joinedFrom sep c [v] ++ joinedFrom sep (c + 1) vs := by
  unfold joinedFrom
  by_cases hc : 0 < c
  · simp [hc]
  · simp [hc, join]

theorem separated_append (s : Copy) (v : Bytes) : separated o s ++ v = s.out ++ joinedFrom (separator o) s.counter [v] := by
  unfold separated joinedFrom
  by_cases hc : 0 < s.counter
  · simp [hc]
  · simp [hc, join]

/-- The copying loop follows the instances and joins their values. -/
theorem copy_of_runAt {needed : Int} {c : Nat} {out v : Bytes} (hm : multiValued o = true) (h : RunAt p o (a + 1) (v :: vs) e)
    (hc : c + (v :: vs).length ≤ 256) (hout : (out.length : Int) < needed)
    (hneeded : needed = ((out ++ joinedFrom (separator o) c (v :: vs)).length : Int)) :
    loop (copyStep (packetMem p tail) o needed) (v :: vs).length ⟨a, out, c, v.length⟩ =
      .ok ⟨i8 (u8 (c + (v :: vs).length)), e, out ++ joinedFrom (separator o) c (v :: vs)⟩ := by
  induction vs generalizing a c out v with
  | nil =>
    cases h with
    | last hat hle ht hend =>
      have hsep := separated_append (o := o) ⟨a, out, c, v.length⟩ v
      simp only [length_singleton, loop, copyStep]
      rw [if_neg (by omega), if_neg (by
        have := congrArg List.length hsep
        rw [length_append] at this
        rw [hneeded, ← this]
        omega), rdBytes_at tail hat]
      simp only [bind, Except.bind, hsep]
      rw [if_pos (by omega)]
      rfl
  | cons w vs ih =>
    cases h with
    | cons hat ht hhdr hrest =>
      have hw := multiValued_le hm hrest.tooLong
      have hsep := separated_append (o := o) ⟨a, out, c, v.length⟩ v
      have hsplit := joinedFrom_cons (separator o) c v (w :: vs)
      have hlen := congrArg List.length hsep
      rw [length_append] at hlen
      -- the next instance brings at least its separator
      have hmore : ((out ++ joinedFrom (separator o) c [v]).length : Int) < needed := by
        have hnext : 1 ≤ (joinedFrom (separator o) (c + 1) (w :: vs)).length := by simp [joinedFrom]
        rw [hneeded, hsplit]
        simp only [length_append]
        omega
      rw [headerBytes_zero] at hhdr
      obtain ⟨hb, hext⟩ := at_cons.mp hhdr
      have hnl := nibble_le w.length
      simp only [length_cons] at hc
      have hu : u8 (c + 1) = c + 1 := Nat.mod_eq_of_lt (by omega)
      have hstep : copyStep (packetMem p tail) o needed ⟨a, out, c, v.length⟩ = .ok (.more
          ⟨a + 1 + v.length + (extension w.length).length, out ++ joinedFrom (separator o) c [v], c + 1, w.length⟩) := by
        unfold copyStep
        dsimp only
        rw [if_neg (by omega), if_neg (by rw [← hlen] at hmore; push_cast at hmore; omega), rdBytes_at tail hat]
        simp only [bind, Except.bind, hsep]
        rw [if_neg (by omega), rd_of_some (packetMem_some tail hb)]
        simp only [nibble_byte, show nibble w.length / 16 = 0 by omega, ne_eq, not_true_eq_false,
          if_false, show nibble w.length % 16 = nibble w.length by omega]
        rw [extended_at tail (by unfold maxExtended; omega) hext, u16_of_lt (by omega), hu]
        rfl
      rw [headerBytes_zero, length_cons, ← Nat.add_assoc] at hrest
      have hrec := ih (c := c + 1) hrest (by simp only [length_cons]; omega) hmore (by rw [hneeded, hsplit, append_assoc])
      rw [length_cons, loop, hstep]
      dsimp only
      rw [hrec, hsplit, append_assoc]
      simp only [length_cons, Nat.add_assoc, Nat.add_comm 1]

/-- A good run is parsed to its end, and its joined values are stored. -/
theorem repeatableOption_of_goodRun (hlen : p.length < 65536) (hm : multiValued o = true)
    {dst : Option Bytes} {set : Option Bytes → Nat → Hdr} {m m' : Hdr}
    {pos pos' : Nat} (hgood : GoodRun p o (pos + 1) len)
    (hout : Outcome (fun k => repeatableOption k (packetMem p tail) (p.length - pos) o dst set pos
      len m) (.ok (.ok pos' m'))) :
    ∃ v vs, RunAt p o (pos + 1) (v :: vs) pos' ∧ v.length = len ∧
      m' = set (some (join (separator o) (v :: vs))) (join (separator o) (v :: vs)).length ∧
      (o = .etag → (join (separator o) (v :: vs)).length ≤ 255) := by
  obtain ⟨v, vs, e, hrun, rfl, hcount, hone, hmax, hetag⟩ := hgood
  generalize hj : join (separator o) (v :: vs) = joined at *
  have hcounted := count_of_runAt tail hlen hm hrun (by rw [hj]; exact hmax)
  have hcopied := copy_of_runAt tail (c := 0) hm hrun (by omega)
    (show (([] : Bytes).length : Int) < joined.length by simp only [length_nil]; omega)
    (by simp [joinedFrom, hj])
  simp only [joinedFrom, Nat.lt_irrefl, if_false, hj, nil_append] at hcopied
  rw [hj] at hcounted
  have hmult : Outcome (fun k => optionsParseMultipleOptions k (packetMem p tail) pos (p.length - pos) dst o v.length)
      (.ok (some ⟨i8 (u8 (0 + (v :: vs).length)), e, some joined, joined.length⟩)) := by
    refine hcounted.bind (mono_count v.length) (mono_copyMultipleOptions dst) ?_
    refine ⟨by simp, (v :: vs).length, ?_⟩
    unfold copyMultipleOptions
    dsimp only
    rw [if_neg (by omega), if_neg (by omega), hcopied]
    simp only [bind, Except.bind, pure, Except.pure]
    rw [show u16i (joined.length : Int) = joined.length by unfold u16i; omega]
  have hrep := hmult.bind (mono_optionsParseMultipleOptions dst) (F := fun r _ => storeMultiple set m r)
    (fun _ => mono_const _) (outcome_const (by dsimp only [storeMultiple]; split <;> exact pure_ne_fuel _))
  have heq := hout.unique (mono_repeatableOption dst set) hrep
  dsimp only [storeMultiple] at heq
  split at heq
  · cases heq
    exact ⟨v, vs, hrun, rfl, by rw [hj], by rwa [hj]⟩
  · cases heq

end Runs

/-! ## Fields -/

section

variable {base : Hdr} {xs : List Opt} {p : Bytes} (tail : Nat → Option UInt8)

theorem uintField_eq_absent {absent : Int} (h : absent < 0) {vs : List Bytes} : uintField absent vs = absent ↔ vs = [] := by
  cases vs with
  | nil => simp [uintField]
  | cons v vs =>
    simp only [uintField, reduceCtorEq, iff_false]
    omega

/-- Without options outside of the message the options list has its defaults. -/
theorem optionsList_default (h : xs.all (fun x => inMessage x.number) = true) : optionsList xs = {} := by
  have hnil : ∀ o : OptionNumber, inMessage o.num = false → values o xs = [] := by
    intro o ho
    refine values_eq_nil fun x hx heq => ?_
    have hx' := all_eq_true.mp h x hx
    rw [heq, ho] at hx'
    cases hx'
  simp [optionsList, hnil .etag rfl, hnil .size1 rfl, hnil .size2 rfl, hnil .proxyUri rfl,
    hnil .uriHost rfl, hnil .locationPath rfl, hnil .locationQuery rfl, hnil .uriQuery rfl,
    hnil .accept rfl, hnil .maxAge rfl, hnil .uriPort rfl, hnil .observe rfl, hnil .block1 rfl,
    hnil .block2 rfl, join, joinedField, uintField, natField]

theorem fields_options : (fields base xs).options = optionsList xs := by
  unfold Hdr.options fields
  by_cases h : xs.all (fun x => inMessage x.number) = true
  · simp [h, optionsList_default h]
  · simp [h]

theorem fields_alloc : (fields base xs).allocOptions = { fields base xs with optionsListPtr := some (optionsList xs) } := by
  have h : (fields base xs).optionsListPtr.getD {} = optionsList xs := fields_options
  rw [Hdr.allocOptions, h]

variable {o : OptionNumber}

/-- Instances of an option of the options list change only that list. -/
theorem fields_append (ho : inMessage o.num = false) (v : Bytes) (vs : List Bytes) :
    fields base (xs ++ instances o (v :: vs)) =
      { fields base xs with optionsListPtr := some (optionsList (xs ++ instances o (v :: vs))) } := by
  have h1 : .contentFormat ≠ o := by
    rintro rfl
    cases ho
  have h2 : .uriPath ≠ o := by
    rintro rfl
    cases ho
  have hall : (xs ++ instances o (v :: vs)).all (fun x => inMessage x.number) = false := by simp [instances, ho]
  simp only [fields, values_append, values_instances, h1, h2, if_false, append_nil, hall, Bool.false_eq_true]

/-- Instances of the other two options leave the options list as it is. -/
theorem optionsListPtr_append (base : Hdr) (xs : List Opt) (ho : inMessage o.num = true) (vs : List Bytes) :
    (fields base (xs ++ instances o vs)).optionsListPtr = (fields base xs).optionsListPtr := by
  have hall : (xs ++ instances o vs).all (fun x => inMessage x.number) = xs.all (fun x => inMessage x.number) := by
    simp [instances, ho]
  have hlist : optionsList (xs ++ instances o vs) = optionsList xs := by
    cases o with
    | uriPath | contentFormat => simp [optionsList, values_append, values_instances]
    | _ => cases ho
  simp only [fields, hall, hlist]

theorem fields_append_contentFormat (hnil : values .contentFormat xs = []) (value : Bytes) :
    fields base (xs ++ instances .contentFormat [value]) = { fields base xs with contentFormat := beNat value } := by
  have hptr := optionsListPtr_append base xs (o := .contentFormat) rfl [value]
  unfold fields at hptr ⊢
  dsimp only at hptr
  rw [hptr]
  simp [values_append, values_instances, hnil, uintField]

theorem fields_append_uriPath (hnil : values .uriPath xs = []) (v : Bytes) (vs : List Bytes) :
    fields base (xs ++ instances .uriPath (v :: vs)) =
      { fields base xs with uriPathPtr := some (join slash (v :: vs)), uriPathLen := (join slash (v :: vs)).length } := by
  have hptr := optionsListPtr_append base xs (o := .uriPath) rfl (v :: vs)
  unfold fields at hptr ⊢
  dsimp only at hptr
  rw [hptr]
  simp [values_append, values_instances, hnil, joinedField]

variable {max pos len pos' : Nat} {present : Bool} {m m' : Hdr}

theorem uintOption_meaning {set : Nat → Hdr} (hmax : max ≤ 4) (hle : pos' ≤ p.length)
    (h : uintOption (packetMem p tail) max present set pos len m = .ok (.ok pos' m')) :
    present = false ∧ ∃ value, At p (pos + 1) value ∧ value.length = len ∧ pos' = pos + 1 + len ∧ m' = set (beNat value) := by
  unfold uintOption at h
  split_ifs at h with hok
  · cases h
  obtain ⟨v, hv, h⟩ := bind_eq_ok h
  cases h
  obtain ⟨value, hat, hval⟩ := exists_at hle
  have hpow : (0 + 1) * 256 ^ len ≤ 256 ^ 4 := by
    rw [Nat.zero_add, Nat.one_mul]
    exact Nat.pow_le_pow_right (by omega) (by omega)
  have huint := optionsParseUint_at tail hat (v := 0) (by rw [hval]; exact hpow)
  rw [hval, hv] at huint
  cases huint
  refine ⟨?_, value, hat, hval, rfl, rfl⟩
  by_contra hp
  exact hok (.inr (by simpa using hp))

theorem stringOption_meaning {set : Bytes → Hdr} (hle : pos' ≤ p.length)
    (h : stringOption (packetMem p tail) max present set pos len m = .ok (.ok pos' m')) :
    present = false ∧ ∃ value, At p (pos + 1) value ∧ value.length = len ∧ pos' = pos + 1 + len ∧ m' = set value := by
  unfold stringOption at h
  split_ifs at h with hok
  · cases h
  obtain ⟨bs, hbs, h⟩ := bind_eq_ok h
  cases h
  obtain ⟨value, hat, hval⟩ := exists_at hle
  have hread := rdBytes_at tail hat
  rw [hval, hbs] at hread
  cases hread
  refine ⟨?_, _, hat, hval, rfl, rfl⟩
  by_contra hp
  exact hok (.inr (.inr (by simpa using hp)))

/-- The option `o` was parsed at `pos`: its value is in the packet, and the fields are those
of the options with this one at the end. -/
def Parsed (p : Bytes) (base : Hdr) (xs : List Opt) (o : OptionNumber) (pos len pos' : Nat)
    (m' : Hdr) : Prop :=
  values o xs = [] ∧ ∃ value, At p (pos + 1) value ∧ value.length = len ∧ pos' = pos + 1 + len ∧
    m' = fields base (xs ++ instances o [value])

theorem parsed_of {o : OptionNumber} {put : Bytes → OptionsList} (ho : inMessage o.num = false)
    (hmeaning : present = false ∧ ∃ value, At p (pos + 1) value ∧ value.length = len ∧ pos' = pos + 1 + len ∧
      m' = { fields base xs with optionsListPtr := some (put value) })
    (hpresent : present = false → values o xs = [])
    (hput : ∀ value, values o xs = [] → value.length = len →
      put value = optionsList (xs ++ instances o [value])) : Parsed p base xs o pos len pos' m' := by
  obtain ⟨hp, value, hat, hl, hpos, rfl⟩ := hmeaning
  have hnil := hpresent hp
  refine ⟨hnil, value, hat, hl, hpos, ?_⟩
  rw [fields_append ho, hput value hnil hl]

/-- A single-valued option that is parsed gives its field the value in the packet. -/
theorem parseOption_single_meaning {k left : Nat}
    (hrep : repeatable o (fields base xs) = false) (hage : o = .maxAge → values .maxAge xs = []) (hle : pos' ≤ p.length)
    (h : parseOption k (packetMem p tail) left o pos len (fields base xs) = .ok (.ok pos' m')) :
    singleValued o = true ∧ Parsed p base xs o pos len pos' m' := by
  cases o with
  | contentFormat =>
    obtain ⟨hp, value, hat, hl, hpos, rfl⟩ := uintOption_meaning tail (by omega) hle h
    have hnil : values .contentFormat xs = [] :=
      (uintField_eq_absent (show ctNone < 0 by decide)).mp (by
        simpa [inOptionsList, fields] using hp)
    refine ⟨rfl, hnil, value, hat, hl, hpos, ?_⟩
    rw [fields_append_contentFormat hnil]
    rfl
  | accept | uriPort | observe | block1 | block2 | maxAge | size1 | size2 =>
    simp only [parseOption, inOptionsList, if_true, fields_alloc] at h
    refine ⟨rfl, parsed_of rfl (uintOption_meaning tail (by omega) hle h) ?_ ?_⟩
    · intro hp
      -- the field has its absent value, or the flag of a size is not set
      first
        | exact hage rfl
        | exact (uintField_eq_absent (by decide)).mp (not_not.mp (of_decide_eq_false hp))
        | simpa [Hdr.options, optionsList] using hp
    · intro value hnil _
      simp [optionsList, values_append, values_instances, hnil, uintField, natField]
  | uriHost | proxyUri =>
    simp only [parseOption, inOptionsList, if_true, fields_alloc] at h
    refine ⟨rfl, parsed_of rfl (stringOption_meaning tail hle h) ?_ ?_⟩
    · intro hp
      simpa [Hdr.options, optionsList] using hp
    · intro value hnil hl
      simp [optionsList, values_append, values_instances, hnil, hl]
  | ifMatch | ifNoneMatch | proxyScheme => cases h
  | locationPath =>
    have hsome : (fields base xs).options.locationPathPtr.isSome = true := by
      simpa [repeatable, Option.isSome_iff_ne_none] using hrep
    simp only [parseOption, inOptionsList, if_true, allocOptions_options, hsome] at h
    cases h
  | etag | uriPath | uriQuery | locationQuery => cases hrep

/-- The joined instances of a repeatable option in its pointer and length. -/
theorem multipleSet_meaning (base : Hdr) (hm : multiValued o = true) (hnil : values o xs = []) (v : Bytes) (vs : List Bytes)
    (hetag : o = .etag → (join (separator o) (v :: vs)).length ≤ 255 ∧ values .size1 xs = [] ∧ values .size2 xs = []) :
    multipleSet o (fields base xs) (some (join (separator o) (v :: vs)))
      (join (separator o) (v :: vs)).length = fields base (xs ++ instances o (v :: vs)) := by
  cases o with
  | uriPath =>
    rw [fields_append_uriPath hnil]
    rfl
  | locationPath | uriQuery | locationQuery =>
    rw [fields_append rfl, multipleSet, fields_alloc]
    simp [Hdr.modifyOptions, optionsList, values_append, values_instances, hnil, joinedField, separator, slash, ampersand]
  | etag =>
    obtain ⟨hshort, h1, h2⟩ := hetag rfl
    rw [fields_append rfl, multipleSet, fields_alloc]
    have hdiv : (join (separator .etag) (v :: vs)).length / 256 = 0 := by omega
    have hdiv' : (join (separator .etag) (v :: vs)).length / 512 = 0 := by omega
    have hmod : (join (separator .etag) (v :: vs)).length % 256 = (join (separator .etag) (v :: vs)).length := by omega
    simp only [Hdr.modifyOptions, Option.map_some, OptionsList.setEtagLen16, hdiv, hdiv', hmod]
    simp [optionsList, values_append, values_instances, hnil, h1, h2, joinedField, separator, ampersand]
  | _ => cases hm

end

/-! ## What the options loop has consumed -/

/-- The options `xs` have been consumed at the loop head `s`: they are the bytes up to the
pointer after `pre`, and the message has their fields. After a repeatable option the next
delta is not `0`. -/
structure Consumed (p pre : Bytes) (base : Hdr) (s : OptState) (xs : List Opt) : Prop where
  bytes : p.take s.pos = pre ++ optionsBytes 0 xs
  inside : s.pos ≤ p.length
  left : s.messageLeft = p.length - s.pos
  ordered : Ordered 0 xs
  counts : EachCounts xs
  last : lastNumber 0 xs = s.previousOptionNumber
  msg : s.msg = fields base xs
  boundary : ∀ o, multiValued o = true → o.num = s.previousOptionNumber → ∀ b, p[s.pos]? = some b → b.toNat / 16 ≠ 0

/-- The option at the loop head `s` is one that the parser reads as it is meant: its header
is in the packet, its number and length fit in 16 bits, it is not a second Max-Age, and the
run of a repeatable option is a good one. -/
def RegularHead (p : Bytes) (s : OptState) : Prop :=
  s.messageLeft = 0 ∨ p[s.pos]? = some 0xff ∨
    ∃ d l, d ≤ maxExtended ∧ l < 65536 ∧ At p s.pos (headerBytes d l) ∧ s.previousOptionNumber + d < 65536 ∧
      ∀ o, OptionNumber.ofNat? (s.previousOptionNumber + d) = some o → (o = .maxAge → d ≠ 0) ∧
        (repeatable o s.msg = true → GoodRun p o (s.pos + (headerBytes d l).length) l)

section Consumed

variable {p pre : Bytes} {base : Hdr} {s s' : OptState} {xs : List Opt} {o : OptionNumber} (tail : Nat → Option UInt8)

theorem multiValued_of_repeatable {m : Hdr} (h : repeatable o m = true) : multiValued o = true := by
  cases o with
  | etag | locationPath | uriPath | uriQuery | locationQuery => rfl
  | _ => cases h

theorem not_multiValued_of_single (h : singleValued o = true) : ¬ multiValued o = true := by
  cases o <;> first | exact Bool.false_ne_true | cases h

theorem num_lt (o : OptionNumber) : o.num < 256 := by cases o <;> decide

variable {a e : Nat} {vs : List Bytes} {v : Bytes}

theorem RunAt.bytes (h : RunAt p o a (v :: vs) e) :
    At p a (v ++ optionsBytes o.num (instances o vs)) ∧ e = a + (v ++ optionsBytes o.num (instances o vs)).length := by
  induction vs generalizing a v with
  | nil =>
    cases h with
    | last hat hle ht hend => simpa [instances, optionsBytes] using hat
  | cons w vs ih =>
    cases h with
    | cons hat ht hhdr hrest =>
      obtain ⟨hw, he⟩ := ih hrest
      have hbytes : optionsBytes o.num (instances o (w :: vs)) =
          headerBytes 0 w.length ++ (w ++ optionsBytes o.num (instances o vs)) := by
        simp [instances, optionsBytes, optionBytes]
      rw [hbytes]
      refine ⟨at_append.mpr ⟨hat, at_append.mpr ⟨hhdr, hw⟩⟩, ?_⟩
      rw [he]
      simp only [length_append]
      omega

theorem RunAt.boundary (h : RunAt p o a vs e) : ∀ b, p[e]? = some b → b.toNat / 16 ≠ 0 := by
  induction h with
  | last _ _ _ hend => exact hend
  | cons _ _ _ _ ih => exact ih

theorem RunAt.ordered (hm : multiValued o = true) (h : RunAt p o a (v :: vs) e) : Ordered o.num (instances o vs) := by
  induction vs generalizing a v with
  | nil => trivial
  | cons w vs ih =>
    cases h with
    | cons hat ht hhdr hrest =>
      have hw := multiValued_le hm hrest.tooLong
      refine ⟨Nat.le_refl _, ?_, ?_, ih hrest⟩
      · unfold maxExtended
        simp
      unfold maxExtended
      dsimp only
      omega

/-- No instance of an option with a larger number has been consumed. -/
theorem Consumed.values_nil (h : Consumed p pre base s xs) (ho : s.previousOptionNumber < o.num) : values o xs = [] := by
  refine values_eq_nil fun x hx => ?_
  have hle := h.ordered.le_last.2 x hx
  rw [h.last] at hle
  omega

/-- The loop head after the instances of one more option. -/
theorem Consumed.extend (h : Consumed p pre base s xs) (v : Bytes) (vs : List Bytes)
    (hkind : singleValued o = true ∨ multiValued o = true)
    (hsingle : singleValued o = true → (values o xs ++ v :: vs).length ≤ 1)
    (hat : At p s.pos (optionsBytes s.previousOptionNumber (instances o (v :: vs))))
    (hordered : Ordered s.previousOptionNumber (instances o (v :: vs)))
    (hs' : s' = ⟨s.pos + (optionsBytes s.previousOptionNumber (instances o (v :: vs))).length, o.num,
      sub16 p.length (s.pos + (optionsBytes s.previousOptionNumber (instances o (v :: vs))).length),
      fields base (xs ++ instances o (v :: vs))⟩) (hlen : p.length < 65536)
    (hboundary : multiValued o = true → ∀ b, p[s'.pos]? = some b → b.toNat / 16 ≠ 0) :
    Consumed p pre base s' (xs ++ instances o (v :: vs)) := by
  have hinside : s'.pos ≤ p.length := by
    rw [hs']
    exact hat.le_length (by simp [instances, optionsBytes, optionBytes, headerBytes])
  constructor
  · rw [optionsBytes_append, h.last, ← append_assoc, ← h.bytes, hs', hat.take h.inside]
  · exact hinside
  · rw [hs'] at hinside ⊢
    exact sub16_of_le hinside hlen
  · rw [ordered_append, h.last]
    exact ⟨h.ordered, hordered⟩
  · exact h.counts.append hkind (v :: vs) hsingle
  · rw [lastNumber_append, lastNumber_instances, hs']
  · rw [hs']
  · intro o' ho' hnum' b hb
    have heq : o' = o := by
      rw [hs'] at hnum'
      exact OptionNumber.num_inj hnum'
    subst heq
    exact hboundary ho' b hb

/-- An iteration from a regular loop head consumes one option with all its instances. -/
theorem Consumed.step (h : Consumed p pre base s xs) (hlen : p.length < 65536) (hreg : RegularHead p s)
    (hout : Outcome (fun k => optionsStep k (packetMem p tail) p.length s) (.ok (.more s'))) :
    ∃ ys, Consumed p pre base s' ys := by
  obtain ⟨-, k, hk⟩ := hout
  dsimp only at hk
  rcases hreg with h0 | hff | ⟨d, l, hd, hl, hhdr, hsum, hopt⟩
  · simp only [optionsStep, if_pos h0] at hk
    cases hk
  · have hlt := (List.getElem?_eq_some_iff.mp hff).1
    have hne : s.messageLeft ≠ 0 := by
      rw [h.left]
      omega
    simp only [optionsStep, if_neg hne, rd_of_some (packetMem_some tail hff)] at hk
    cases hk
  have hlt := hhdr.le_length (by simp [headerBytes])
  have hbytes : 1 ≤ (headerBytes d l).length := by simp [headerBytes]
  have hne : s.messageLeft ≠ 0 := by
    rw [h.left]
    omega
  obtain ⟨b, hb, hff, hhead⟩ := optionHead_at tail s.previousOptionNumber hd (by unfold maxExtended; omega) hhdr
  rw [u16_of_lt (show d < 65536 by omega), u16_of_lt hl, u16_of_lt (show d + s.previousOptionNumber < 65536 by omega),
    Nat.add_comm d] at hhead
  cases ho : OptionNumber.ofNat? (s.previousOptionNumber + d) with
  | none =>
    rw [optionsStep_header hne hb hff, hhead] at hk
    simp only [bind, Except.bind, optionsBody, ho] at hk
    cases hk
  | some o =>
    obtain ⟨hage, hgood⟩ := hopt o ho
    have hnum : o.num = s.previousOptionNumber + d := OptionNumber.num_of_ofNat? ho
    have hpos : s.pos + (headerBytes d l).length - 1 + 1 = s.pos + (headerBytes d l).length := by omega
    rw [optionsStep_option hne hb hff hhead ho] at hk
    obtain ⟨r, hr, hnext⟩ := bind_eq_ok hk
    obtain ⟨m', rfl, hle, hs'⟩ := optionsNext_more (Except.ok.inj hnext)
    rw [← hnum, show u8 o.num = o.num from Nat.mod_eq_of_lt (num_lt o)] at hs'
    rw [h.msg] at hr
    have hbytes : ∀ v vs, v.length = l →
        optionsBytes s.previousOptionNumber (instances o (v :: vs)) =
          headerBytes d l ++ (v ++ optionsBytes o.num (instances o vs)) := by
      rintro v vs rfl
      simp only [instances, map_cons, optionsBytes, optionBytes, append_assoc, show o.num - s.previousOptionNumber = d by omega]
    have hordered : ∀ v vs, v.length = l → Ordered o.num (instances o vs) →
        Ordered s.previousOptionNumber (instances o (v :: vs)) := by
      rintro v vs rfl hrest
      refine ⟨?_, ?_, ?_, hrest⟩ <;> simp only [maxExtended] <;> omega
    cases hrep : repeatable o (fields base xs) with
    | false =>
      have hage' : o = .maxAge → values .maxAge xs = [] := by
        rintro rfl
        have hd0 := hage rfl
        exact h.values_nil (by omega)
      obtain ⟨hsingle, hnil, value, hat, hvl, hpos', rfl⟩ := parseOption_single_meaning tail hrep hage' hle hr
      rw [hpos] at hat hpos'
      refine ⟨_, h.extend value [] (.inl hsingle) (fun _ => by simp [hnil]) ?_ (hordered value [] hvl trivial) ?_ hlen ?_⟩
      · rw [hbytes value [] hvl]
        simpa [instances, optionsBytes] using at_append.mpr ⟨hhdr, hat⟩
      · rw [hs', hpos', hbytes value [] hvl]
        simp [instances, optionsBytes, Nat.add_assoc, hvl]
      exact fun hm => absurd hm (not_multiValued_of_single hsingle)
    | true =>
      have hm := multiValued_of_repeatable hrep
      -- a second run of the same option would have been part of the first
      have hd0 : d ≠ 0 := by
        rintro rfl
        refine h.boundary o hm (by omega) _ (at_cons.mp hhdr).1 ?_
        rw [headerBytes_first, show nibble 0 = 0 from rfl]
        have := nibble_le l
        omega
      have hrun := hgood (by rw [h.msg]; exact hrep)
      dsimp only at hr
      rw [parseOption_repeatable hrep, sub16_of_le (by omega) hlen] at hr
      rw [← hpos] at hrun
      obtain ⟨v, vs, hat, hvl, rfl, hetag⟩ := repeatableOption_of_goodRun tail hlen hm hrun ⟨by simp, k, hr⟩
      obtain ⟨hval, hend⟩ := hat.bytes
      rw [hpos] at hval hend
      have hnil := h.values_nil (o := o) (by omega)
      have hset := multipleSet_meaning base hm hnil v vs (by
        rintro rfl
        have h4 : OptionNumber.num .etag = 4 := rfl
        have h60 : OptionNumber.num .size1 = 60 := rfl
        have h28 : OptionNumber.num .size2 = 28 := rfl
        exact ⟨hetag rfl, h.values_nil (by omega), h.values_nil (by omega)⟩)
      refine ⟨_, h.extend v vs (.inr hm) ?_ ?_ (hordered v vs hvl (hat.ordered hm)) ?_ hlen ?_⟩
      · exact fun hsingle => absurd hm (not_multiValued_of_single hsingle)
      · rw [hbytes v vs hvl]
        exact at_append.mpr ⟨hhdr, hval⟩
      · rw [hs', hend, hset, hbytes v vs hvl]
        simp only [length_append, Nat.add_assoc]
      · intro _
        exact hat.boundary

end Consumed

/-! ## Accepted packets -/

section

variable {p : Bytes} (tail : Nat → Option UInt8)

def headerOf (p : Bytes) (h4 : 4 ≤ p.length) : Hdr :=
  { msgType := msgTypeOf p[0].toNat, msgCode := p[1].toNat, msgId := u16 (p[3].toNat + p[2].toNat * 256) }

def withToken (m : Hdr) (token : Bytes) : Hdr := { m with tokenLen := token.length, tokenPtr := pointer token }

theorem headerParse_bytes (h4 : 4 ≤ p.length) :
    headerParse (packetMem p tail) {} = .ok (headerOf p h4, p[0].toNat / 64 * 64) := by
  unfold headerParse
  rw [rd_of_some (packetMem_getElem tail (by omega)), rd_of_some (packetMem_getElem tail (by omega)),
    rd_of_some (packetMem_getElem tail (by omega)), rd_of_some (packetMem_getElem tail (by omega))]
  rfl

theorem pointer_eq {bs : Bytes} (h : bs ≠ []) : pointer bs = some bs := by
  cases bs with
  | nil => exact absurd rfl h
  | cons b bs => rfl

variable {s : OptState} {token : Bytes} {xs : List Opt} {m m' base : Hdr}

/-- The token: the loop starts behind it with the token in the message. -/
theorem tokenParse_consumed (h4 : 4 ≤ p.length) (hlen : p.length < 65536) (hfit : TokenFits p)
    (hfields : ∀ token, fields (withToken m token) [] = withToken m token) (ht : m.tokenPtr = none)
    (h : tokenParse (packetMem p tail) p.length 4 m = .ok (m', some s)) :
    ∃ token, token.length = p[0].toNat % 16 ∧ token.length ≤ 8 ∧ Consumed p (p.take 4 ++ token) (withToken m token) s [] := by
  have h0 : p[0]? = some p[0] := getElem?_eq_getElem (show 0 < p.length by omega)
  unfold tokenParse at h
  rw [rd_of_some (packetMem_some tail h0)] at h
  simp only [bind, Except.bind] at h
  have hinit : ∀ token : Bytes, 4 + token.length ≤ p.length → At p 4 token →
      Consumed p (p.take 4 ++ token) (withToken m token)
        ⟨4 + token.length, 0, sub16 p.length (4 + token.length), withToken m token⟩ [] := by
    intro token hle hat
    constructor
    · rw [optionsBytes, append_nil]
      exact hat.take h4
    · exact hle
    · exact sub16_of_le hle hlen
    · trivial
    · exact ⟨by simp, by simp⟩
    · rfl
    · exact (hfields token).symm
    · intro o _ ho
      cases o <;> cases ho
  split at h
  · rename_i hz
    cases h
    refine ⟨[], by simpa using hz.symm, by simp, ?_⟩
    have hi := hinit [] (by simpa using h4) (at_nil _ _)
    simp only [withToken, length_nil, pointer, Nat.add_zero] at hi ⊢
    rw [hz]
    rw [← ht] at hi ⊢
    exact hi
  · rename_i hz
    split at h
    · cases h
    have hle' : p[0].toNat % 16 ≤ 8 := by omega
    have hfit' := hfit p[0] h0 hle'
    obtain ⟨token, hat, hval⟩ := exists_at hfit'
    have hread := rdBytes_at tail hat
    rw [hval] at hread
    rw [hread] at h
    cases h
    refine ⟨token, hval, by omega, ?_⟩
    have hi := hinit token (by omega) hat
    rw [withToken, pointer_eq (ne_nil_of_length_pos (by omega)), hval] at hi ⊢
    exact hi

theorem loopHead_consumed (h4 : 4 ≤ p.length) (hlen : p.length < 65536) (hfit : TokenFits p)
    (hreg : ∀ s, LoopHead (packetMem p tail) p.length s → RegularHead p s)
    (hs : LoopHead (packetMem p tail) p.length s) :
    ∃ token xs, token.length = p[0].toNat % 16 ∧ token.length ≤ 8 ∧
      Consumed p (p.take 4 ++ token) (withToken (headerOf p h4) token) s xs := by
  obtain ⟨m, version, m', s0, hm, ht, hi⟩ := hs
  have hm' := (headerParse_bytes tail h4).symm.trans hm
  cases hm'
  obtain ⟨token, htl, htl', hc⟩ := tokenParse_consumed tail h4 hlen hfit (fun _ => rfl) rfl ht
  refine ⟨token, ?_⟩
  induction hi with
  | refl => exact ⟨[], htl, htl', hc⟩
  | @tail s1 s2 hi hstep ih =>
    obtain ⟨xs, -, -, hc1⟩ := ih
    obtain ⟨ys, hys⟩ := hc1.step tail hlen (hreg s1 ⟨_, _, _, _, hm, ht, hi⟩) hstep
    exact ⟨ys, htl, htl', hys⟩

/-- The loop returns `0` only in front of the payload marker or at the end of the packet. -/
theorem optionsStep_done {mem : Mem} {k n pos : Nat}
    (h : optionsStep k mem n s = .ok (.done (.ok pos m))) : pos = s.pos ∧ m = s.msg := by
  unfold optionsStep at h
  split at h
  · cases h
    exact ⟨rfl, rfl⟩
  obtain ⟨b, -, h⟩ := bind_eq_ok h
  split at h
  · cases h
    exact ⟨rfl, rfl⟩
  obtain ⟨hd, -, h⟩ := bind_eq_ok h
  unfold optionsBody at h
  split at h
  · cases h
  split at h
  · cases h
  obtain ⟨r, -, h⟩ := bind_eq_ok h
  have hnext := Except.ok.inj h
  cases r with
  | err m => cases hnext
  | ok pos m =>
    unfold optionsNext at hnext
    dsimp only at hnext
    split at hnext <;> cases hnext

theorem msgTypeOf_bits (b : Nat) : 64 * (b / 64) + (msgTypeOf b).bits + b % 16 = b := by
  have h4 : b / 16 % 4 = 0 ∨ b / 16 % 4 = 1 ∨ b / 16 % 4 = 2 ∨ b / 16 % 4 = 3 := by omega
  rcases h4 with h | h | h | h
  all_goals
    simp only [msgTypeOf, h, MsgType.bits]
    omega

theorem take_four (h4 : 4 ≤ p.length) : p.take 4 = [p[0], p[1], p[2], p[3]] := by
  apply ext_getElem
  · simp [h4]
  intro i hi hi'
  rw [getElem_take]
  match i, hi' with
  | 0, _ => rfl
  | 1, _ => rfl
  | 2, _ => rfl
  | 3, _ => rfl

/-- The packet that was consumed up to the payload. -/
def packetOf (p : Bytes) (token : Bytes) (xs : List Opt) (payload : Bytes)
    (h4 : 4 ≤ p.length) : Packet where
  version := p[0].toNat / 64
  msgType := msgTypeOf p[0].toNat
  code := p[1]
  idHigh := p[2]
  idLow := p[3]
  token := token
  options := xs
  payload := payload

theorem packetOf_wellFormed {pre : Bytes} (payload : Bytes) (h4 : 4 ≤ p.length) (htl : token.length ≤ 8)
    (h : Consumed p pre base s xs) : (packetOf p token xs payload h4).WellFormed where
  version := by
    have := p[0].toNat_lt
    simp only [packetOf]
    omega
  token := htl
  ordered := h.ordered
  counts := h.counts

theorem packetOf_bytes {payload : Bytes} (h4 : 4 ≤ p.length) (htl : token.length = p[0].toNat % 16)
    (h : Consumed p (p.take 4 ++ token) base s xs) (hrest : p.drop s.pos = payloadBytes payload) :
    (packetOf p token xs payload h4).bytes = p := by
  have hfirst : .ofNat (64 * (p[0].toNat / 64) + (msgTypeOf p[0].toNat).bits + token.length) = p[0] := by
    rw [htl, msgTypeOf_bits]
    exact UInt8.ofNat_toNat
  unfold Packet.bytes packetOf
  rw [hfirst, ← take_four h4, ← h.bytes, ← hrest, take_append_drop]

theorem packetOf_message (payload : Bytes) (h4 : 4 ≤ p.length) :
    (packetOf p token xs payload h4).message =
      { fields (withToken (headerOf p h4) token) xs with
        payloadLen := payload.length, payloadPtr := pointer payload } := by
  have h2 := p[2].toNat_lt
  have h3 := p[3].toNat_lt
  have hid : u16 (p[3].toNat + p[2].toNat * 256) = p[2].toNat * 256 + p[3].toNat := by
    rw [u16_of_lt (by omega)]
    omega
  simp only [Packet.message, Packet.base, packetOf, fields, withToken, headerOf, hid]
  rfl

theorem memBytes_drop {a : Nat} : memBytes (packetMem p tail) a (p.length - a) = p.drop a := by
  apply ext_getElem
  · simp [memBytes]
  intro i hi hi'
  rw [length_drop] at hi'
  simp only [memBytes, getElem_map, getElem_range, getElem_drop]
  rw [packetMem_getElem tail (by omega)]
  rfl

theorem payloadParse_rest (hlen : p.length < 65536) {pos pos' : Nat} (hin : pos ≤ p.length)
    (h : payloadParse (packetMem p tail) p.length pos m = .ok (.ok pos' m')) :
    ∃ payload, p.drop pos = payloadBytes payload ∧
      (m' = { m with payloadLen := payload.length, payloadPtr := pointer payload } ∨ (payload = [] ∧ m' = m)) := by
  unfold payloadParse at h
  split at h
  · rename_i hlt
    obtain ⟨v, hv, h⟩ := bind_eq_ok h
    obtain ⟨b, hb, rfl⟩ := ((settles_rd _ _).of_ok hv).2
    rw [packetMem_getElem tail hlt] at hb
    cases hb
    dsimp only at h
    split at h
    · rename_i hff
      have hff' : p[pos] = 0xff := UInt8.toNat_inj.mp hff
      rw [sub16_of_le (by omega) hlen] at h
      split at h
      · cases h
      cases h
      have hdrop : p.drop pos = 0xff :: p.drop (pos + 1) := by
        rw [← hff']
        exact drop_eq_getElem_cons hlt
      have hlen' : (p.drop (pos + 1)).length = p.length - (pos + 1) := length_drop
      have hnonempty : p.drop (pos + 1) ≠ [] := ne_nil_of_length_pos (by omega)
      refine ⟨p.drop (pos + 1), ?_, .inl ?_⟩
      · rw [hdrop]
        cases hd : p.drop (pos + 1) with
        | nil => exact absurd hd hnonempty
        | cons c cs => rfl
      · rw [memBytes_drop, pointer_eq hnonempty, hlen']
    · cases h
  · rename_i hge
    cases h
    refine ⟨[], ?_, .inr ⟨rfl, rfl⟩⟩
    rw [drop_of_length_le (by omega)]
    rfl

/-- A packet that the parser accepts, with a token inside the packet and a regular option at
every loop head, is a packet of the format, and the message is the one it stands for. -/
theorem accepted_of_regular (p : List UInt8) (tail : Nat → Option UInt8) (k : Nat) (m : Hdr)
    (version : Nat) (hlen : p.length ≤ 65535)
    (haccept : snCoapParser k (packetMem p tail) p.length = .ok (some (m, version)))
    (hstatus : m.coapStatus = .ok) (hfit : TokenFits p)
    (hreg : ∀ s, LoopHead (packetMem p tail) p.length s → RegularHead p s) :
    ∃ packet : Packet, packet.WellFormed ∧ packet.bytes = p ∧ packet.message = m := by
  have h4 : 4 ≤ p.length := by
    by_contra hn
    rw [snCoapParser, if_pos (by omega)] at haccept
    cases haccept
  have hlt : p.length < 65536 := by omega
  have hm := headerParse_bytes tail h4
  rw [snCoapParser, if_neg (by omega), hm] at haccept
  obtain ⟨_, hhdr, haccept⟩ := bind_eq_ok haccept
  cases hhdr
  obtain ⟨r, hr, hfinish⟩ := bind_eq_ok haccept
  -- an error of the options or of the payload is the status of the message
  cases r with
  | err m1 =>
    cases hfinish
    cases hstatus
  | ok pos m1 =>
    obtain ⟨⟨m0, s0⟩, ht, hloop⟩ := bind_eq_ok hr
    cases s0 with
    | none => cases hloop
    | some s0 =>
      obtain ⟨s, hs, hdone⟩ := loop_result (fun k => optionsStep k (packetMem p tail) p.length) hloop
      obtain ⟨rfl, rfl⟩ := optionsStep_done hdone
      obtain ⟨token, xs, htl, htl', hc⟩ := loopHead_consumed tail h4 hlt hfit hreg ⟨_, _, _, _, hm, ht, hs⟩
      obtain ⟨r', hpay, hend⟩ := bind_eq_ok hfinish
      cases r' with
      | err m2 =>
        cases hend
        cases hstatus
      | ok pos' m2 =>
        cases hend
        obtain ⟨payload, hrest, hmsg⟩ := payloadParse_rest tail hlt hc.inside hpay
        refine ⟨packetOf p token xs payload h4, packetOf_wellFormed payload h4 htl' hc, packetOf_bytes h4 htl hc hrest, ?_⟩
        rw [packetOf_message, ← hc.msg]
        rcases hmsg with rfl | ⟨rfl, rfl⟩
        · rfl
        · rw [hc.msg]
          rfl

end

/-- A GET with the Uri-Path `a`. -/
theorem accepted_of_regular_uriPath :
    ∃ packet : Packet, packet.WellFormed ∧ packet.bytes = [0x40, 0x01, 0x00, 0x00, 0xb1, 0x61] ∧
      packet.message = { msgCode := 1, uriPathPtr := some [0x61], uriPathLen := 1 } := by
  refine accepted_of_regular [0x40, 0x01, 0x00, 0x00, 0xb1, 0x61] (fun _ => none) 3 _ 64 (by decide) rfl rfl ?_ ?_
  · intro b hb _
    cases hb
    decide
  intro s hs
  rcases loopHead_uriPath hs with rfl | rfl
  · refine .inr (.inr ⟨11, 1, by decide, by decide, ?_, by decide, ?_⟩)
    · exact at_singleton.mpr rfl
    · intro o ho
      cases ho
      have hrun : RunAt [0x40, 0x01, 0x00, 0x00, 0xb1, 0x61] .uriPath 5 [[0x61]] 6 :=
        .last (at_singleton.mpr rfl) (by decide) (by decide) (by simp)
      exact ⟨by simp, fun _ => ⟨[0x61], [], 6, hrun, rfl, by decide, by decide, by decide, by simp⟩⟩
  · exact .inl rfl

/-! ## An accepted packet with a field that it does not have -/

/-- The one option of this GET is an empty ETag. It is not consumed: its header byte is read
three times, as an ETag, as an empty Location-Path and as an empty Content-Format. -/
theorem accepted_with_unsent_contentFormat :
    ∃ m version, snCoapParser 4 (packetMem [0x40, 0x01, 0x00, 0x00, 0x40] (fun _ => none)) 5 =
        .ok (some (m, version)) ∧ m.coapStatus = .ok ∧
      ¬ ∃ packet : Packet, packet.WellFormed ∧ packet.bytes = [0x40, 0x01, 0x00, 0x00, 0x40] ∧ packet.message = m := by
  refine ⟨{ msgCode := 1, contentFormat := 0, optionsListPtr := some {} }, 64, rfl, rfl, ?_⟩
  rintro ⟨packet, -, hbytes, hmsg⟩
  have htoken : packet.token.length = 0 := congrArg Hdr.tokenLen hmsg
  have hpayload : packet.payload.length = 0 := congrArg Hdr.payloadLen hmsg
  have hformat : uintField ctNone (values .contentFormat packet.options) = 0 := congrArg Hdr.contentFormat hmsg
  rw [Packet.bytes, eq_nil_of_length_eq_zero htoken, eq_nil_of_length_eq_zero hpayload] at hbytes
  simp only [payloadBytes, append_nil, cons_append, nil_append, List.cons.injEq] at hbytes
  have hopts : optionsBytes 0 packet.options = [0x40] := hbytes.2.2.2.2
  match hxs : packet.options with
  | [] =>
    rw [hxs] at hformat
    cases hformat
  | [x] =>
    rw [hxs] at hformat hopts
    have hnum : x.number = 12 := by
      by_contra hne
      rw [show values .contentFormat [x] = [] from values_eq_nil fun y hy hnum => hne (mem_singleton.mp hy ▸ hnum)] at hformat
      cases hformat
    rw [optionsBytes, optionBytes, headerBytes, hnum] at hopts
    have hhead := congrArg UInt8.toNat (List.cons.inj hopts).1
    rw [headerBytes_first] at hhead
    have : (64 : Nat) = 16 * 12 + nibble x.value.length := hhead.symm
    omega
  | x :: y :: xs =>
    rw [hxs] at hopts
    simp [optionsBytes, optionBytes, headerBytes] at hopts

end MbedCloud.Coap.Parser

