import MbedCloud.Coap.ParserProgress

/-!
# Reads behind the packet

When does the parser read a byte behind the packet? On `packetOnly p` such a read is a
fault. The parser makes its bounds check at the end of an iteration, so that these reads
can leave the packet: the token, the extension bytes of an option header, the value of a
single-valued option that passes its own checks, and the copy of a run of instances. The
counting loop stays inside.

`OverRead` describes the reads of one iteration by the bytes of the packet.
-/

namespace MbedCloud.Coap.Parser

open Lib List

/-! ## Faults -/

def Faults {α : Type} (x : Exec Fault α) : Prop := ∃ e, x = .error (.fail e)

section Faults

variable {α β : Type}

theorem not_faults_pure (a : α) : ¬ Faults (pure a : Exec Fault α) := by
  rintro ⟨e, he⟩
  cases he

variable {x : Exec Fault α}

theorem faults_bind {f : α → Exec Fault β} : Faults (x >>= f) ↔ Faults x ∨ ∃ a, x = .ok a ∧ Faults (f a) := by
  cases x with
  | error e => simp only [Faults, bind, Except.bind, reduceCtorEq, false_and, exists_false, or_false, Except.error.injEq]
  | ok a => simp [Faults, bind, Except.bind]

theorem faults_bind_pure {f : α → β} : Faults (x >>= fun a => pure (f a)) ↔ Faults x := by
  rw [faults_bind]
  simp [not_faults_pure]

end Faults

/-! ## Reads of the packet -/

section

variable {p : Bytes} {a : Nat}

theorem packetOnly_some (h : a < p.length) : packetOnly p a = some p[a] := by simp [packetOnly, h]

theorem packetOnly_none (h : p.length ≤ a) : packetOnly p a = none := by simp [packetOnly, h]

theorem lt_of_packetOnly {b : UInt8} (h : packetOnly p a = some b) : a < p.length := by
  by_contra hn
  rw [packetOnly_none (by omega)] at h
  cases h

variable {len v pos x pos' prev b : Nat}

theorem gap_packetOnly : Gap (packetOnly p) a len ↔ 0 < len ∧ p.length < a + len := by
  constructor
  · rintro ⟨i, hi, hnone⟩
    by_contra hn
    rw [packetOnly_some (by omega)] at hnone
    cases hnone
  · intro h
    exact ⟨len - 1, by omega, packetOnly_none (by omega)⟩

theorem extended_inside (hpos : pos < p.length) (h : extended (packetOnly p) pos v = .ok (x, pos')) : pos' < p.length := by
  obtain ⟨hgap, heq⟩ := (settles_extended _ _ _).of_ok h
  rw [gap_packetOnly] at hgap
  omega

/-- The header byte `b` calls for extension bytes that the packet does not have. -/
def HeaderCut (p : Bytes) (pos b : Nat) : Prop :=
  b / 16 ≠ 15 ∧ (p.length ≤ pos + extLen (b / 16) ∨ (b % 16 ≠ 15 ∧ p.length ≤ pos + extLen (b / 16) + extLen (b % 16)))

theorem faults_optionHead (hpos : pos < p.length) : Faults (optionHead (packetOnly p) pos prev b) ↔ HeaderCut p pos b := by
  rw [Faults, (settles_optionHead _ _ _ _).fails_iff, HeaderCut, gap_packetOnly, gap_packetOnly]
  omega

theorem optionHead_inside {h : Head} (hpos : pos < p.length)
    (hh : optionHead (packetOnly p) pos prev b = .ok (some h)) : h.pos < p.length := by
  obtain ⟨hcut, heq⟩ := (settles_optionHead _ _ _ _).of_ok hh
  obtain ⟨hnibbles, heq⟩ := heq h rfl
  rw [gap_packetOnly, gap_packetOnly] at hcut
  omega

theorem faults_parseOption_single {o : OptionNumber} {pos len : Nat} {m : Hdr} (h : repeatable o m = false)
    (hpos : pos < p.length) (k left : Nat) :
    Faults (parseOption k (packetOnly p) left o pos len m) ↔ accepted o m len = true ∧ p.length < pos + 1 + len := by
  obtain ⟨x, hx, hsettles⟩ := parseOption_single h (packetOnly p) left pos len
  rw [hx, Faults, hsettles.fails_iff, gap_packetOnly]
  refine and_congr_right fun _ => ?_
  omega

end

/-! ## Repeatable options -/

/-- Consecutive instances as the copying loop walks over them, without the 16-bit index of
the counting loop: `pos` is the last header byte of the first, `q` that of the last. -/
inductive CopyChain (mem : Mem) : Nat → Nat → List Nat → Nat → Nat → Prop where
  | nil (pos len : Nat) : CopyChain mem pos len [] pos len
  | cons {pos len pos' len' q l : Nat} {b : UInt8} {ls : List Nat} :
      mem (pos + 1 + len) = some b → b.toNat / 16 = 0 →
      extended mem (pos + 1 + len) (b.toNat % 16) = .ok (len', pos') →
      CopyChain mem pos' len' ls q l →
      CopyChain mem pos len (len :: ls) q l

/-- The packet ends at or in the header of an instance at index `e`. -/
def HeaderMissing (p : Bytes) (e : Nat) : Prop :=
  p.length ≤ e ∨ ∃ b, packetOnly p e = some b ∧ b.toNat / 16 = 0 ∧ p.length ≤ e + extLen (b.toNat % 16)

/-- The copy of `needed` bytes from the state `s` comes to an instance whose value or next
header is not in the packet. -/
def CopyLeavesFrom (p : Bytes) (needed : Int) (s : Copy) : Prop :=
  ∃ ls q l, CopyChain (packetOnly p) s.pos s.optionNumberLen ls q l ∧ (s.out.length : Int) + copied s.counter ls < needed ∧
    (s.out.length : Int) + copied s.counter (ls ++ [l]) ≤ needed ∧
    (p.length < q + 1 + l ∨ ((s.out.length : Int) + copied s.counter (ls ++ [l]) < needed ∧ HeaderMissing p (q + 1 + l)))

section Copy

variable {p : Bytes} {o : OptionNumber} {needed : Int} {s : Copy}

theorem copied_cons {c l n n' : Nat} (h : n' = n + copied c [l]) (ls : List Nat) :
    (n' : Int) + copied (u8 (c + 1)) ls = (n : Int) + copied c (l :: ls) := by
  simp only [copied, Nat.add_zero] at h ⊢
  omega

theorem headerGap_iff {e : Nat} : HeaderGap (packetOnly p) e ↔ HeaderMissing p e := by
  by_cases h : e < p.length
  · have hgap : ∀ v, Gap (packetOnly p) (e + 1) (extLen v) ↔ p.length ≤ e + extLen v := by
      intro v
      rw [gap_packetOnly]
      omega
    simp only [HeaderGap, HeaderMissing, hgap, packetOnly_some h, reduceCtorEq, Nat.not_le.mpr h]
  · exact iff_of_true (.inl (packetOnly_none (by omega))) (.inl (by omega))

theorem faults_copyStep (hpos : s.pos < p.length) :
    Faults (copyStep (packetOnly p) o needed s) ↔ (s.out.length : Int) < needed ∧
      (s.out.length : Int) + copied s.counter [s.optionNumberLen] ≤ needed ∧
      (p.length < s.pos + 1 + s.optionNumberLen ∨
        ((s.out.length : Int) + copied s.counter [s.optionNumberLen] < needed ∧
          HeaderMissing p (s.pos + 1 + s.optionNumberLen))) := by
  have hgap : Gap (packetOnly p) (s.pos + 1) s.optionNumberLen ↔ p.length < s.pos + 1 + s.optionNumberLen := by
    rw [gap_packetOnly]
    omega
  rw [Faults, (settles_copyStep _ _ _ _).fails_iff, hgap, headerGap_iff]

theorem copyStep_more_of {len' pos' : Nat} (hpos : s.pos < p.length) (h : NextHeader (packetOnly p) needed s len' pos') :
    ∃ out, copyStep (packetOnly p) o needed s = .ok (.more ⟨pos', out, u8 (s.counter + 1), len'⟩) ∧
      out.length = s.out.length + copied s.counter [s.optionNumberLen] := by
  obtain ⟨hshort, b, hb, hz, he⟩ := id h
  have hval := lt_of_packetOnly hb
  have hhas : ¬ HeaderMissing p (s.pos + 1 + s.optionNumberLen) := by
    rintro (hle | ⟨b', hb', -, hle⟩)
    · omega
    · cases hb.symm.trans hb'
      have hext := (settles_extended _ _ _).of_ok he
      rw [gap_packetOnly] at hext
      omega
  obtain ⟨n, hn, hQ⟩ := (settles_copyStep (packetOnly p) o needed s).exists_ok fun hbad =>
    hhas (((faults_copyStep hpos).mp ((settles_copyStep _ o _ _).fails_iff.mpr hbad)).2.2.resolve_left (by omega)).2
  cases n with
  | done c => exact absurd h (hQ.2 _ _)
  | more s' =>
    obtain ⟨⟨-, b', hb', -, he'⟩, hc, hl⟩ := hQ
    cases hb.symm.trans hb'
    obtain ⟨rfl, rfl⟩ := Prod.mk.inj (Except.ok.inj (he.symm.trans he'))
    exact ⟨s'.out, by rw [hn, ← hc], hl⟩

theorem copyLeavesFrom_of_fault {k : Nat} (hpos : s.pos < p.length)
    (h : Faults (loop (copyStep (packetOnly p) o needed) k s)) : CopyLeavesFrom p needed s := by
  induction k generalizing s with
  | zero =>
    obtain ⟨e, he⟩ := h
    cases he
  | succ k ih =>
    rw [loop] at h
    rcases hs : copyStep (packetOnly p) o needed s with e | (c | s')
    · rw [hs] at h
      obtain ⟨e', he'⟩ := h
      cases he'
      obtain ⟨hlt, hle, hout⟩ := (faults_copyStep hpos).mp ⟨e', hs⟩
      exact ⟨[], s.pos, s.optionNumberLen, .nil _ _, by simpa [copied] using hlt, hle, hout⟩
    · rw [hs] at h
      exact absurd h (not_faults_pure c)
    rw [hs] at h
    obtain ⟨⟨hshort, b, hb, hz, he⟩, hc, hl⟩ := nextCopied hs
    have hpos' := extended_inside (lt_of_packetOnly hb) he
    obtain ⟨ls, q, l, hchain, hlt, hle, hout⟩ := ih hpos' h
    rw [hc, copied_cons hl] at hlt hle hout
    exact ⟨s.optionNumberLen :: ls, q, l, .cons hb hz he hchain, hlt, hle, hout⟩

theorem fault_of_copyLeavesFrom (hpos : s.pos < p.length) (h : CopyLeavesFrom p needed s) :
    ∃ k, Faults (loop (copyStep (packetOnly p) o needed) k s) := by
  obtain ⟨ls, q, l, hchain, hlt, hle, hout⟩ := h
  induction ls generalizing s with
  | nil =>
    cases hchain
    have hf := (faults_copyStep (o := o) hpos).mpr ⟨by simpa [copied] using hlt, hle, hout⟩
    obtain ⟨e, he⟩ := hf
    exact ⟨1, e, by simp only [loop, he]⟩
  | cons l' ls ih =>
    obtain ⟨spos, sout, scounter, slen⟩ := s
    cases hchain with
    | cons hb hz he hchain =>
      rename_i pos' len' b
      have hshort : (sout.length : Int) + copied scounter [slen] < needed := by
        simp only [copied] at hlt ⊢
        omega
      obtain ⟨out, hstep, hl⟩ := copyStep_more_of (o := o) (s := ⟨spos, sout, scounter, slen⟩) hpos ⟨hshort, b, hb, hz, he⟩
      obtain ⟨k, hk⟩ := ih (s := ⟨pos', out, u8 (scounter + 1), len'⟩) (extended_inside (lt_of_packetOnly hb) he) hchain
        (by rw [copied_cons hl]; exact hlt) (by rw [copied_cons hl]; exact hle)
        (by rw [copied_cons hl]; exact hout)
      refine ⟨k + 1, ?_⟩
      simp only [loop, hstep]
      exact hk

end Copy

/-- The copy of the run that starts at `pos` leaves the packet. -/
def CopyLeaves (p : Bytes) (o : OptionNumber) (pos len : Nat) : Prop :=
  ∃ ls atEnd, Run (packetOnly p) pos (p.length - pos) o len ls atEnd ∧ CopyLeavesFrom p (runNeeded ls atEnd) ⟨pos, [], 0, len⟩

section Repeatable

variable {p : Bytes} {o : OptionNumber} {pos len : Nat}

theorem not_faults_loop {σ ρ : Type} {step : σ → Exec Fault (Next σ ρ)}
    (h : ∀ s, ¬ Faults (step s)) (k : Nat) (s : σ) : ¬ Faults (loop step k s) := by
  induction k generalizing s with
  | zero =>
    rintro ⟨e, he⟩
    cases he
  | succ k ih =>
    rintro ⟨e, he⟩
    rw [loop] at he
    split at he
    · rename_i e' hs
      cases he
      exact h s ⟨e, hs⟩
    · cases he
    · exact ih _ ⟨e, he⟩

theorem not_faults_countStep (hpos : pos < p.length) (s : Count) :
    ¬ Faults (countStep (packetOnly p) pos (p.length - pos) o s) := by
  rintro ⟨e, he⟩
  rcases yields_countStep (packetOnly p) pos (p.length - pos) o s with
    ⟨_, ⟨a, ha, hnone, -⟩, -⟩ | ⟨_, hok, -⟩
  · rw [packetOnly_some (by omega)] at hnone
    cases hnone
  · cases he.symm.trans hok

theorem CopyLeavesFrom.short {needed : Int} {s : Copy} (h : CopyLeavesFrom p needed s) : (s.out.length : Int) < needed := by
  obtain ⟨ls, q, l, -, hlt, -⟩ := h
  omega

theorem faults_repeatableOption (dst : Option Bytes)
    (set : Option Bytes → Nat → Hdr) (m : Hdr) (hlen : p.length < 65536) (hpos : pos < p.length) :
    (∃ k, Faults (repeatableOption k (packetOnly p) (p.length - pos) o dst set pos len m)) ↔ CopyLeaves p o pos len := by
  constructor
  · rintro ⟨k, hf⟩
    unfold repeatableOption at hf
    rw [faults_bind] at hf
    rcases hf with hf | ⟨r, -, hf⟩
    · unfold optionsParseMultipleOptions at hf
      rw [faults_bind] at hf
      rcases hf with hf | ⟨v, hv, hf⟩
      · exact absurd hf (not_faults_loop (not_faults_countStep hpos) k _)
      unfold copyMultipleOptions at hf
      split at hf
      · exact absurd hf (not_faults_pure _)
      rename_i h1
      split at hf
      · exact absurd hf (not_faults_pure _)
      rw [faults_bind_pure] at hf
      have hleaves := copyLeavesFrom_of_fault (s := ⟨pos, [], 0, len⟩) hpos hf
      rcases count_outcome (by omega) ⟨by simp, k, hv⟩ h1 with
        ⟨hl, -⟩ | ⟨-, ls, atEnd, hrun, rfl⟩
      · omega
      · exact ⟨ls, atEnd, hrun, hleaves⟩
    · cases r with
      | none => exact absurd hf (not_faults_pure _)
      | some r =>
        dsimp only at hf
        split at hf <;> exact absurd hf (not_faults_pure _)
  · rintro ⟨ls, atEnd, hrun, hleaves⟩
    have hneeded := CopyLeavesFrom.short hleaves
    obtain ⟨k, e, he⟩ := fault_of_copyLeavesFrom (o := o) (s := ⟨pos, [], 0, len⟩) hpos hleaves
    have hcopy : Outcome (fun k => copyMultipleOptions k (packetOnly p) pos dst o len
        (runNeeded ls atEnd)) (.error (.fail e)) := by
      refine ⟨by simp, k, ?_⟩
      unfold copyMultipleOptions
      dsimp only
      rw [if_neg (by omega), if_neg (by omega), he]
      rfl
    have hcount := count_of_run (by omega) (by omega) hrun
    obtain ⟨-, k', hk'⟩ := Outcome.bind_fail (F := fun r _ => storeMultiple set m r)
      (hcount.bind (mono_count len) (mono_copyMultipleOptions dst) hcopy)
    exact ⟨k', e, hk'⟩

end Repeatable

/-! ## One iteration -/

/-- The iteration from `s` reads behind the packet: in an option header, in the value of an
accepted single-valued option, or in the copy of a run. -/
def OverRead (p : Bytes) (s : OptState) : Prop :=
  s.messageLeft ≠ 0 ∧ ∃ b, packetOnly p s.pos = some b ∧ b ≠ 0xff ∧
    (HeaderCut p s.pos b.toNat ∨ ∃ h o, optionHead (packetOnly p) s.pos s.previousOptionNumber b.toNat = .ok (some h) ∧
      OptionNumber.ofNat? h.optionNumber = some o ∧
      ((repeatable o s.msg = false ∧ accepted o s.msg h.len = true ∧ p.length < h.pos + 1 + h.len) ∨
        (repeatable o s.msg = true ∧ CopyLeaves p o h.pos h.len)))

variable {p : Bytes}

theorem faults_optionsStep {s : OptState} (hlen : p.length < 65536)
    (hpos : s.pos ≤ p.length) (hleft : s.messageLeft = p.length - s.pos) :
    (∃ k, Faults (optionsStep k (packetOnly p) p.length s)) ↔ OverRead p s := by
  by_cases h0 : s.messageLeft = 0
  · simp [optionsStep, OverRead, h0, not_faults_pure]
  have hb := packetOnly_some (show s.pos < p.length by omega)
  by_cases hff : p[s.pos] = 0xff
  · simp [optionsStep, OverRead, h0, hb, rd_of_some hb, hff, not_faults_pure, bind, Except.bind]
  have hstep := optionsStep_header h0 hb hff p.length
  unfold OverRead
  simp only [hstep, faults_bind, faults_optionHead (show s.pos < p.length by omega), hb,
    Option.some.injEq, exists_eq_left', h0, hff, ne_eq, not_false_eq_true, true_and]
  -- a single-valued option faults with any fuel, a run with enough fuel for the loops
  have hbody : ∀ h, optionHead (packetOnly p) s.pos s.previousOptionNumber p[s.pos].toNat =
      .ok (some h) → ((∃ k, Faults (optionsBody k (packetOnly p) p.length s (some h))) ↔
        ∃ o, OptionNumber.ofNat? h.optionNumber = some o ∧
          ((repeatable o s.msg = false ∧ accepted o s.msg h.len = true ∧ p.length < h.pos + 1 + h.len) ∨
            (repeatable o s.msg = true ∧ CopyLeaves p o h.pos h.len))) := by
    intro h hh
    have hin := optionHead_inside (by omega) hh
    unfold optionsBody
    dsimp only
    cases ho : OptionNumber.ofNat? h.optionNumber with
    | none => simp [not_faults_pure]
    | some o =>
      simp only [faults_bind_pure, Option.some.injEq, exists_eq_left']
      cases hrep : repeatable o s.msg with
      | false => simp [faults_parseOption_single hrep hin]
      | true =>
        simp only [parseOption_repeatable hrep, sub16_of_le (Nat.le_of_lt hin) hlen, faults_repeatableOption _ _ _ hlen hin]
        simp
  constructor
  · rintro ⟨k, hcut | ⟨h, hh, hf⟩⟩
    · exact .inl hcut
    · cases h with
      | none => exact absurd hf (not_faults_pure _)
      | some h =>
        obtain ⟨o, ho⟩ := (hbody h hh).mp ⟨k, hf⟩
        exact .inr ⟨h, o, hh, ho⟩
  · rintro (hcut | ⟨h, o, hh, ho⟩)
    · exact ⟨0, .inl hcut⟩
    · obtain ⟨k, hf⟩ := (hbody h hh).mpr ⟨o, ho⟩
      exact ⟨k, .inr ⟨some h, hh, hf⟩⟩

/-! ## What lies behind the packet -/

theorem below_packet (p : Bytes) (tail : Nat → Option UInt8) (a : Nat) :
    Below (· ≠ .fuel) (rdByte (packetOnly p) a) (rdByte (packetMem p tail) a) := by
  by_cases h : a < p.length
  · have hmem : packetMem p tail a = packetOnly p a := if_pos h
    rw [rdByte, rdByte, hmem]
    exact below_refl _
  · exact .inl ⟨.fail (.read a), by simp, by simp only [rdByte, packetOnly_none (Nat.not_lt.mp h)]⟩

/-- The payload pointer is not followed by the parser; the payload lies in the packet. -/
theorem memBytes_inside (tail : Nat → Option UInt8) {a len : Nat}
    (h : a + len ≤ p.length) : memBytes (packetOnly p) a len = memBytes (packetMem p tail) a len := by
  refine map_congr_left fun i hi => ?_
  have hi' := mem_range.mp hi
  rw [packetMem, if_pos (by omega)]
  rfl

theorem below_parserFinish (p : Bytes) (tail : Nat → Option UInt8) (hlen : p.length < 65536) (version : Nat) (r : Ret) :
    Below (· ≠ .fuel) (parserFinish (packetOnly p) p.length version r) (parserFinish (packetMem p tail) p.length version r) := by
  cases r with
  | err m => exact below_refl _
  | ok pos m =>
    refine below_bind ?_ fun _ _ => below_refl _
    unfold payloadParse
    split_ifs with hlt
    · refine below_bind (below_rd (below_packet p tail) _) fun b _ => ?_
      dsimp only
      split
      · split
        · exact below_refl _
        · rw [memBytes_inside tail (by rw [sub16_of_le (by omega) hlen]; omega)]
          exact below_refl _
      · exact below_refl _
    · exact below_refl _

/-- A run that does not read behind the packet does not depend on what is there. -/
theorem snCoapParser_tail (hlen : p.length < 65536) {k : Nat}
    (h : ¬ Faults (snCoapParser k (packetOnly p) p.length)) (tail : Nat → Option UInt8) :
    snCoapParser k (packetMem p tail) p.length = snCoapParser k (packetOnly p) p.length := by
  have hm := below_packet p tail
  have hbelow : Below (· ≠ .fuel) (snCoapParser k (packetOnly p) p.length) (snCoapParser k (packetMem p tail) p.length) := by
    unfold snCoapParser
    split
    · exact below_refl _
    refine below_bind (below_headerParse hm _) fun _ _ => ?_
    exact below_bind (below_optionsParse hm (.inl rfl) _ _ _) fun _ _ => below_parserFinish p tail hlen _ _
  rcases hbelow with ⟨e, he, heq⟩ | heq
  · cases e with
    | fuel => exact absurd rfl he
    | fail e => exact absurd ⟨e, heq⟩ h
  · exact heq.symm

/-! ## The whole parser -/

def TokenFits (p : Bytes) : Prop := ∀ b, p[0]? = some b → b.toNat % 16 ≤ 8 → 4 + b.toNat % 16 ≤ p.length

section Parser

theorem headerParse_packetOnly (h4 : 4 ≤ p.length) :
    ∃ m version, headerParse (packetOnly p) {} = .ok (m, version) ∧ m.tokenPtr = none := by
  obtain ⟨⟨m, version⟩, hok, htok⟩ := (settles_headerParse (packetOnly p) {}).exists_ok (by
    rw [gap_packetOnly]
    omega)
  exact ⟨m, version, hok, htok⟩

variable {s : OptState}

theorem settles_token (h4 : 4 ≤ p.length) {m : Hdr} (hm : m.tokenPtr = none) :
    Settles (¬ TokenFits p) (tokenParse (packetOnly p) p.length 4 m) fun r =>
      ∀ s, r.2 = some s → s.messageLeft = sub16 p.length s.pos ∧
        ∃ b, packetOnly p 0 = some b ∧ b.toNat % 16 ≤ 8 ∧ s.pos = 4 + b.toNat % 16 := by
  refine .congr (settles_tokenParse (packetOnly p) p.length 4 m) ?_
  have h0 := packetOnly_some (show 0 < p.length by omega)
  have hfirst : p[0]? = some p[0] := h0
  simp only [TokenFits, h0, hfirst, hm, gap_packetOnly, Option.some.injEq, exists_eq_left', forall_eq', and_true,
    reduceCtorEq, false_or]
  omega

theorem loopHead_inside (hfit : TokenFits p) (h : LoopHead (packetOnly p) p.length s) : s.pos ≤ p.length := by
  obtain ⟨m, version, m', s0, -, ht, hs⟩ := h
  cases hs with
  | refl =>
    obtain ⟨-, b, hb, hle, hpos⟩ := ((settles_tokenParse _ _ _ _).of_ok ht).2 _ rfl
    rw [hpos]
    exact hfit b hb hle
  | tail _ hlast => exact (outcome_more hlast).1

theorem not_faults_parserFinish (version : Nat) (r : Ret) : ¬ Faults (parserFinish (packetOnly p) p.length version r) := by
  rw [Faults, (settles_parserFinish _ _ _ _).fails_iff]
  rintro ⟨pos, m, -, hlt, hnone⟩
  rw [packetOnly_some hlt] at hnone
  cases hnone

theorem faults_snCoapParser (hlen : 4 ≤ p.length ∧ p.length ≤ 65535) :
    (∃ k, Faults (snCoapParser k (packetOnly p) p.length)) ↔
      ¬ TokenFits p ∨ ∃ s, LoopHead (packetOnly p) p.length s ∧ OverRead p s := by
  have hlt : p.length < 65536 := by omega
  obtain ⟨m, version, hm, htok⟩ := headerParse_packetOnly hlen.1
  by_cases hfit : TokenFits p
  · simp only [hfit, not_true_eq_false, false_or]
    have hiff : ∀ s, LoopHead (packetOnly p) p.length s →
        ((∃ k, Faults (optionsStep k (packetOnly p) p.length s)) ↔ OverRead p s) := by
      intro s hs
      have hin := loopHead_inside hfit hs
      exact faults_optionsStep hlt hin (by rw [loopHead_messageLeft hs, sub16_of_le hin hlt])
    obtain ⟨⟨m', r⟩, ht, -⟩ := (settles_token hlen.1 htok).exists_ok (not_not.mpr hfit)
    cases r with
    | none =>
      -- the token length is not valid: the loop is not entered
      constructor
      · rintro ⟨k, hf⟩
        have hp : snCoapParser k (packetOnly p) p.length = parserFinish (packetOnly p) p.length version (.err m') := by
          simp only [snCoapParser, if_neg (Nat.not_lt.mpr hlen.1), hm, optionsParse, ht, bind, Except.bind, pure, Except.pure]
        rw [hp] at hf
        exact absurd hf (not_faults_parserFinish _ _)
      · rintro ⟨s, ⟨m1, v1, m2, s0, hm1, ht1, -⟩, -⟩
        cases hm.symm.trans hm1
        cases ht.symm.trans ht1
    | some s0 =>
      have hloop := @loop_fails_iff Fault OptState Ret (fun k => optionsStep k (packetOnly p) p.length) s0 (mono_optionsStep _ _)
      simp only [snCoapParser_loop hlen.1 hm ht, faults_bind, not_faults_parserFinish, and_false, exists_false, or_false]
      constructor
      · rintro ⟨k, e, hk⟩
        obtain ⟨s, hs, k', hk'⟩ := hloop.mp ⟨k, hk⟩
        have hhead : LoopHead (packetOnly p) p.length s := ⟨m, version, m', s0, hm, ht, hs⟩
        exact ⟨s, hhead, (hiff s hhead).mp ⟨k', e, hk'⟩⟩
      rintro ⟨s, hhead, hover⟩
      obtain ⟨k, e, hk⟩ := (hiff s hhead).mpr hover
      obtain ⟨m1, v1, m2, s1, hm1, ht1, hs⟩ := hhead
      cases hm.symm.trans hm1
      cases ht.symm.trans ht1
      obtain ⟨k', hk'⟩ := hloop.mpr ⟨s, hs, k, hk⟩
      exact ⟨k', e, hk'⟩
  · simp only [hfit, not_false_eq_true, true_or, iff_true]
    obtain ⟨e, he⟩ := (settles_token hlen.1 htok).fails_iff.mpr hfit
    refine ⟨0, e, ?_⟩
    simp only [snCoapParser, if_neg (Nat.not_lt.mpr hlen.1), hm, optionsParse, he, bind, Except.bind]

end Parser

/-- `sn_coap_parser` reads no byte behind the packet, and its result does not depend on what
is there, exactly when the token fits and no iteration of the options loop over-reads. -/
theorem reads_inside_iff (p : List UInt8) (hlen : 4 ≤ p.length ∧ p.length ≤ 65535) :
    ((∀ k, ¬ Faults (snCoapParser k (packetOnly p) p.length)) ∧
        ∀ tail k, snCoapParser k (packetMem p tail) p.length = snCoapParser k (packetOnly p) p.length) ↔
      TokenFits p ∧ ∀ s, LoopHead (packetOnly p) p.length s → ¬ OverRead p s := by
  have hno : (∀ k, ¬ Faults (snCoapParser k (packetOnly p) p.length)) ↔
      TokenFits p ∧ ∀ s, LoopHead (packetOnly p) p.length s → ¬ OverRead p s := by
    rw [← not_exists, faults_snCoapParser hlen, not_or, not_not, not_exists]
    simp only [not_and]
  refine ⟨fun h => hno.mp h.1, fun h => ⟨hno.mpr h, fun tail k => ?_⟩⟩
  exact snCoapParser_tail (by omega) (hno.mpr h k) tail

/-- An empty message with a token of two bytes that is in the packet. -/
theorem reads_inside_token :
    TokenFits [0x42, 0x01, 0x00, 0x00, 0xaa, 0xbb] ∧
      ∀ k, ¬ Faults (snCoapParser k (packetOnly [0x42, 0x01, 0x00, 0x00, 0xaa, 0xbb]) 6) := by
  have hfits : TokenFits [0x42, 0x01, 0x00, 0x00, 0xaa, 0xbb] := by
    intro b hb _
    cases hb
    decide
  refine ⟨hfits, ((reads_inside_iff [0x42, 0x01, 0x00, 0x00, 0xaa, 0xbb] (by decide)).mpr ⟨hfits, ?_⟩).1⟩
  · rintro s ⟨m, version, m', s0, hm, ht, hs⟩ ⟨hleft, -⟩
    cases hm
    cases ht
    have hend : Outcome (fun k => optionsStep k (packetOnly [0x42, 0x01, 0x00, 0x00, 0xaa, 0xbb]) 6
        ⟨6, 0, 0, { msgCode := 1, tokenLen := 2, tokenPtr := some [0xaa, 0xbb] }⟩)
        (.ok (.done (.ok 6 { msgCode := 1, tokenLen := 2, tokenPtr := some [0xaa, 0xbb] }))) :=
      ⟨by simp, 0, rfl⟩
    rcases hs.first (mono_optionsStep _ 6) hend with rfl | ⟨s', hs', -⟩
    · exact hleft rfl
    · cases hs'

/-- A header that announces a token of eight bytes, and nothing behind it. -/
theorem faults_missing_token : snCoapParser 1 (packetOnly [0x48, 0x01, 0x00, 0x00]) 4 = .error (.fail (.read 4)) := rfl

end MbedCloud.Coap.Parser

