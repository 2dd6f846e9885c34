import MbedCloud.Coap.ParserSteps

/-!
# Progress of the options loop

Does every iteration of the options loop return or move the packet pointer forward? A
single-valued option always does. A repeatable option is left to the counting and copying
loops, and there are two ways in which the iteration does not get on:

* the run has no end (`EndlessRun`), so that the counting loop does not return;
* the counted length is zero or negative as an `int16_t` (`Unconsumed`), so that nothing is
  copied and the pointer stays at the last byte of the option header. When the header has
  extension bytes, the pointer has still moved over them.

`Stuck` collects these, by the bytes of the packet at the loop head.
-/

namespace MbedCloud.Coap.Parser

open Lib

/-! ## Runs that are not consumed -/

/-- The counted length of the run is zero or negative: it has one empty instance, or more
than 32768 bytes with the separators, counted in 16 bits. -/
def Unconsumed (ls : List Nat) (atEnd : Bool) : Prop :=
  total ls % 65536 = 1 ∨ 32769 ≤ total ls % 65536 ∨ (total ls % 65536 = 0 ∧ atEnd = true)

theorem runNeeded_nonpos_iff {ls : List Nat} {atEnd : Bool} :
    (runNeeded ls atEnd ≤ 0 ∧ runNeeded ls atEnd ≠ -1) ↔ Unconsumed ls atEnd := by
  unfold runNeeded Unconsumed countResult i16 u16
  cases atEnd with
  | true =>
    simp only [if_true, and_true]
    split <;> omega
  | false =>
    simp only [Bool.false_eq_true, if_false, and_false, or_false]
    omega

section Repeatable

variable {mem : Mem} {left pos len : Nat} {o : OptionNumber} (dst : Option Bytes) (set : Option Bytes → Nat → Hdr) (m : Hdr)

theorem repeatableOption_diverges (hleft : left < 65536) (h : EndlessRun mem pos left o len) :
    Diverges (fun k => repeatableOption k mem left o dst set pos len m) := by
  have hcount := (count_diverges_iff hleft).mpr h
  exact .bind_left (.bind_left hcount)

theorem repeatableOption_unconsumed (hleft : left < 65536) (hpos : 1 ≤ left) {ls : List Nat}
    {atEnd : Bool} (hrun : Run mem pos left o len ls atEnd) (hu : Unconsumed ls atEnd) :
    ∃ m', Outcome (fun k => repeatableOption k mem left o dst set pos len m) (.ok (.ok pos m')) := by
  obtain ⟨hle, hne⟩ := runNeeded_nonpos_iff.mpr hu
  obtain ⟨k, hk⟩ := (count_of_run hleft hpos hrun).mono (mono_count len)
  by_cases h0 : runNeeded ls atEnd = 0
  · refine ⟨set dst 0, by simp, k, ?_⟩
    simp only [repeatableOption, optionsParseMultipleOptions, copyMultipleOptions,
      hk k (Nat.le_refl k), if_neg hne, if_pos h0, bind, Except.bind, pure, Except.pure]
    rfl
  refine ⟨set (some []) (u16i (runNeeded ls atEnd)), by simp, k + 1, ?_⟩
  simp only [repeatableOption, optionsParseMultipleOptions, copyMultipleOptions,
    hk (k + 1) (Nat.le_succ k), if_neg hne, if_neg h0, bind, Except.bind, pure, Except.pure,
    loop_copy_nothing hle]
  rfl

/-- What makes the pointer stay on a repeatable option: the packet is over, or the run is
not consumed. -/
def Stays (mem : Mem) (left : Nat) (o : OptionNumber) (pos len : Nat) : Prop :=
  left = 0 ∨ (1 ≤ left ∧ ∃ ls atEnd, Run mem pos left o len ls atEnd ∧ Unconsumed ls atEnd)

theorem copyMultipleOptions_outcome {needed : Int} (h : needed ≠ -1 → needed ≤ 0 → Stays mem left o pos len) :
    ∃ x, Outcome (fun k => copyMultipleOptions k mem pos dst o len needed) x ∧
      ∀ c, x = .ok (some c) → pos < c.pos ∨ (c.pos = pos ∧ Stays mem left o pos len) := by
  unfold copyMultipleOptions
  by_cases h1 : needed = -1
  · simp only [if_pos h1]
    refine ⟨_, outcome_const (pure_ne_fuel none), ?_⟩
    intro c hc
    cases hc
  by_cases h0 : needed = 0
  · simp only [if_neg h1, if_pos h0]
    refine ⟨_, outcome_const (pure_ne_fuel _), ?_⟩
    intro c hc
    cases hc
    exact .inr ⟨rfl, h h1 (by omega)⟩
  simp only [if_neg h1, if_neg h0]
  refine exists_outcome_bind (mono_loop_const _ _) (fun _ => mono_const _) (copy_outcome _) (fun e c he => by cases he) ?_
  rintro c ⟨-, k, hk⟩
  refine ⟨_, outcome_const (pure_ne_fuel _), ?_⟩
  intro c' hc'
  cases hc'
  by_cases hpos : 0 < needed
  · exact .inl (loop_copy_pos (s := ⟨pos, [], 0, len⟩) (by simpa using hpos) hk)
  cases k with
  | zero => cases hk
  | succ k =>
    have hle : needed ≤ 0 := by omega
    have hc := (loop_copy_nothing hle).symm.trans hk
    cases hc
    exact .inr ⟨rfl, h h1 hle⟩

/-- When the run ends, the option is parsed; the pointer stays only on a run that is not
consumed, or when it has already reached the end of the packet. -/
theorem repeatableOption_outcome (hleft : left < 65536) (h : ¬ EndlessRun mem pos left o len) :
    ∃ x, Outcome (fun k => repeatableOption k mem left o dst set pos len m) x ∧
      ∀ pos' m', x = .ok (.ok pos' m') → pos < pos' ∨ (pos' = pos ∧ Stays mem left o pos len) := by
  have hcount : ∃ x, Outcome (fun k => optionsCountNeededMemoryMultipleOption k mem pos left o len) x :=
    not_diverges_iff.mp fun hd => h ((count_diverges_iff hleft).mp hd)
  -- a count that is not positive comes from a run that is not consumed
  have hstay : ∀ v, Outcome (fun k => optionsCountNeededMemoryMultipleOption k mem pos left o len)
      (.ok v) → v ≠ -1 → v ≤ 0 → Stays mem left o pos len := by
    intro v hv h1 hle
    rcases count_outcome hleft hv h1 with ⟨hl, -⟩ | ⟨hl, ls, atEnd, hrun, rfl⟩
    · exact .inl hl
    · exact .inr ⟨hl, ls, atEnd, hrun, runNeeded_nonpos_iff.mp ⟨hle, h1⟩⟩
  obtain ⟨x, hx, hP⟩ : ∃ x, Outcome (fun k => optionsParseMultipleOptions k mem pos left dst o len) x ∧
      ∀ c, x = .ok (some c) → pos < c.pos ∨ (c.pos = pos ∧ Stays mem left o pos len) :=
    exists_outcome_bind (mono_count len) (mono_copyMultipleOptions dst) hcount
      (fun e r he => by cases he) fun v hv => copyMultipleOptions_outcome dst (hstay v hv)
  refine exists_outcome_bind (mono_optionsParseMultipleOptions dst) (fun _ => mono_const _)
    ⟨x, hx⟩ (fun e _ _ he => by cases he) ?_
  intro r hr
  have hxr := hx.unique (mono_optionsParseMultipleOptions dst) hr
  cases r with
  | none => exact ⟨_, outcome_const (pure_ne_fuel _), fun _ _ he => by cases he⟩
  | some c =>
    dsimp only
    split
    · refine ⟨_, outcome_const (pure_ne_fuel _), ?_⟩
      intro pos' m' he
      cases he
      exact hP c hxr
    · exact ⟨_, outcome_const (pure_ne_fuel _), fun _ _ he => by cases he⟩

end Repeatable

/-! ## One iteration -/

/-- The iteration from `s` ends, and it returns or moves the pointer forward. -/
def Advances (mem : Mem) (packetLen : Nat) (s : OptState) : Prop :=
  ∃ x, Outcome (fun k => optionsStep k mem packetLen s) x ∧ ∀ s', x = .ok (.more s') → s.pos < s'.pos

/-- At the loop head `s` a repeatable option starts whose run has no end, or whose run is
not consumed and whose header is a single byte. -/
def Stuck (mem : Mem) (packetLen : Nat) (s : OptState) : Prop :=
  s.messageLeft ≠ 0 ∧ ∃ b h o, mem s.pos = some b ∧ b ≠ 0xff ∧
    optionHead mem s.pos s.previousOptionNumber b.toNat = .ok (some h) ∧
    OptionNumber.ofNat? h.optionNumber = some o ∧ repeatable o s.msg = true ∧
    (EndlessRun mem h.pos (sub16 packetLen h.pos) o h.len ∨
      (s.pos < packetLen ∧ h.pos = s.pos ∧ ∃ ls atEnd,
        Run mem h.pos (sub16 packetLen h.pos) o h.len ls atEnd ∧ Unconsumed ls atEnd))

theorem sub16_lt (a b : Nat) : sub16 a b < 65536 := by
  unfold sub16 u16i
  omega

variable {b pos n version : Nat} {h : Head} {s' s : OptState}

theorem sub16_of_le {a : Nat} (h : b ≤ a) (ha : a < 65536) : sub16 a b = a - b := by
  unfold sub16 u16i
  omega

variable {mem : Mem} {m m' : Hdr}

theorem settles_optionHead (mem : Mem) (pos prev b : Nat) :
    Settles (b / 16 ≠ 15 ∧ (Gap mem (pos + 1) (extLen (b / 16)) ∨
        b % 16 ≠ 15 ∧ Gap mem (pos + extLen (b / 16) + 1) (extLen (b % 16))))
      (optionHead mem pos prev b) fun r => ∀ h, r = some h →
        (b / 16 ≠ 15 ∧ b % 16 ≠ 15) ∧ h.pos = pos + extLen (b / 16) + extLen (b % 16) := by
  unfold optionHead
  by_cases hd : b / 16 = 15
  · rw [if_pos hd]
    exact .congr (settles_pure nofun) (by simp [hd])
  simp only [ne_eq, hd, not_false_eq_true, true_and]
  refine .bind (settles_extended mem pos (b / 16)) ?_
  rintro ⟨delta, pos'⟩ rfl
  split_ifs with hl
  · exact .congr (settles_pure nofun) (by simp [hl])
  · refine .congr (.map (settles_extended mem _ (b % 16)) ?_) (by simp [hl])
    rintro ⟨len, pos''⟩ rfl h hh
    cases hh
    exact ⟨hl, rfl⟩

theorem optionsStep_header {b : UInt8} (hleft : s.messageLeft ≠ 0) (hb : mem s.pos = some b) (hff : b ≠ 0xff) (n k : Nat) :
    optionsStep k mem n s = (optionHead mem s.pos s.previousOptionNumber b.toNat >>= optionsBody k mem n s) := by
  have hff' : b.toNat ≠ 255 := fun he => hff (UInt8.toNat_inj.mp he)
  unfold optionsStep
  rw [if_neg hleft, rd_of_some hb]
  simp only [bind, Except.bind]
  rw [if_neg hff']

/-- An iteration on a known option is its `parseOption` and the check at the end. -/
theorem optionsStep_option {b : UInt8} {o : OptionNumber} (hleft : s.messageLeft ≠ 0) (hb : mem s.pos = some b) (hff : b ≠ 0xff)
    (hh : optionHead mem s.pos s.previousOptionNumber b.toNat = .ok (some h))
    (ho : OptionNumber.ofNat? h.optionNumber = some o) (k : Nat) :
    optionsStep k mem n s = (parseOption k mem (sub16 n h.pos) o h.pos h.len s.msg >>= fun r =>
      pure (optionsNext n h.optionNumber r)) := by
  rw [optionsStep_header hleft hb hff, hh]
  simp only [bind, Except.bind, optionsBody, ho]

theorem optionsStep_cases (mem : Mem) (n : Nat) (s : OptState) :
    (∃ x, x ≠ .error .fuel ∧ (∀ s', x ≠ .ok (.more s')) ∧ ∀ k, optionsStep k mem n s = x) ∨
      (s.messageLeft ≠ 0 ∧ ∃ b h o, mem s.pos = some b ∧ b ≠ 0xff ∧
        optionHead mem s.pos s.previousOptionNumber b.toNat = .ok (some h) ∧
        OptionNumber.ofNat? h.optionNumber = some o) := by
  by_cases hleft : s.messageLeft = 0
  · left
    refine ⟨.ok (.done (.ok s.pos s.msg)), by simp, by simp, fun k => ?_⟩
    simp only [optionsStep, if_pos hleft]
    rfl
  cases hb : mem s.pos with
  | none =>
    left
    refine ⟨.error (.fail (.read s.pos)), by simp, by simp, fun k => ?_⟩
    simp only [optionsStep, if_neg hleft, rd_of_none hb]
    rfl
  | some b =>
    by_cases hff : b = 0xff
    · left
      refine ⟨.ok (.done (.ok s.pos s.msg)), by simp, by simp, fun k => ?_⟩
      simp only [optionsStep, if_neg hleft, rd_of_some hb, hff]
      rfl
    match hh : optionHead mem s.pos s.previousOptionNumber b.toNat with
    | .error e =>
      left
      refine ⟨.error e, ?_, by simp, fun k => ?_⟩
      · intro he
        cases he
        exact (settles_optionHead mem _ _ _).ne_fuel hh
      · rw [optionsStep_header hleft hb hff, hh]
        rfl
    | .ok none =>
      left
      refine ⟨.ok (.done (.err s.msg)), by simp, by simp, fun k => ?_⟩
      rw [optionsStep_header hleft hb hff, hh]
      rfl
    | .ok (some h) =>
      cases ho : OptionNumber.ofNat? h.optionNumber with
      | none =>
        left
        refine ⟨.ok (.done (.err s.msg)), by simp, by simp, fun k => ?_⟩
        rw [optionsStep_header hleft hb hff, hh]
        simp only [bind, Except.bind, optionsBody, ho]
        rfl
      | some o => exact .inr ⟨hleft, b, h, o, rfl, hff, hh, ho⟩

theorem optionsNext_more {num : Nat} {r : Ret} (h : optionsNext n num r = .more s') :
    ∃ m, r = .ok s'.pos m ∧ s'.pos ≤ n ∧ s' = ⟨s'.pos, u8 num, sub16 n s'.pos, m⟩ := by
  cases r with
  | err m => cases h
  | ok pos m =>
    by_cases hle : n < pos
    · simp only [optionsNext, if_pos hle] at h
      cases h
    simp only [optionsNext, if_neg hle] at h
    cases h
    exact ⟨m, rfl, Nat.not_lt.mp hle, rfl⟩

/-- One iteration returns or moves forward exactly when it does not start at an option on
which the parser is stuck. -/
theorem advances_iff (hn : n < 65536) (hleft : s.messageLeft = sub16 n s.pos) : Advances mem n s ↔ ¬ Stuck mem n s := by
  constructor
  · rintro ⟨x, hx, hadv⟩ ⟨hne, b, h, o, hb, hff, hh, ho, hrep, hstuck⟩
    have hstep := optionsStep_option (n := n) hne hb hff hh ho
    simp only [parseOption_repeatable hrep] at hstep
    rcases hstuck with hend | ⟨hlt, hpos, ls, atEnd, hrun, hu⟩
    · have hd : Diverges (fun k => optionsStep k mem n s) := by
        simp only [hstep]
        exact .bind_left (repeatableOption_diverges _ _ _ (sub16_lt _ _) hend)
      exact hx.not_diverges hd
    have hl : 1 ≤ sub16 n h.pos := by
      rw [hpos, sub16_of_le (Nat.le_of_lt hlt) hn]
      omega
    obtain ⟨m', hm'⟩ := repeatableOption_unconsumed (multipleDst o s.msg)
      (multipleSet o s.msg) (if inOptionsList o then s.msg.allocOptions else s.msg)
      (sub16_lt _ _) hl hrun hu
    have hout : Outcome (fun k => optionsStep k mem n s) (pure (optionsNext n h.optionNumber (.ok h.pos m'))) := by
      simp only [hstep]
      exact hm'.bind (mono_repeatableOption _ _) (fun _ => mono_const _) (outcome_const (pure_ne_fuel _))
    have hxeq := hx.unique (mono_optionsStep mem n s) hout
    have hstay := hadv ⟨h.pos, u8 h.optionNumber, sub16 n h.pos, m'⟩ (by
      rw [hxeq]
      simp only [optionsNext, if_neg (show ¬ n < h.pos by omega)]
      rfl)
    dsimp only at hstay
    omega
  · intro hns
    rcases optionsStep_cases mem n s with ⟨x, hx, hmore, hstep⟩ | ⟨hne, b, h, o, hb, hff, hh, ho⟩
    · refine ⟨x, ⟨hx, 0, hstep 0⟩, ?_⟩
      intro s' hs'
      exact absurd hs' (hmore s')
    have hstep := optionsStep_option (n := n) hne hb hff hh ho
    have hhpos := ((settles_optionHead mem _ _ _).of_ok hh).2 h rfl
    unfold Advances
    simp only [hstep]
    by_cases hrep : repeatable o s.msg = true
    · have hend : ¬ EndlessRun mem h.pos (sub16 n h.pos) o h.len := by
        intro hend
        exact hns ⟨hne, b, h, o, hb, hff, hh, ho, hrep, .inl hend⟩
      obtain ⟨y, hy, hadv⟩ := repeatableOption_outcome (multipleDst o s.msg)
        (multipleSet o s.msg) (if inOptionsList o then s.msg.allocOptions else s.msg)
        (sub16_lt n h.pos) hend
      simp only [parseOption_repeatable hrep]
      refine exists_outcome_bind (mono_repeatableOption _ _) (fun _ => mono_const _) ⟨y, hy⟩ (fun e _ he => by cases he) ?_
      intro r hr
      refine ⟨_, outcome_const (pure_ne_fuel _), ?_⟩
      intro s' hs'
      obtain ⟨m', rfl, hle, -⟩ := optionsNext_more (Except.ok.inj hs')
      rcases hadv s'.pos m' (hy.unique (mono_repeatableOption _ _) hr) with
        hlt | ⟨heq, hl | ⟨hl, ls, atEnd, hrun, hu⟩⟩
      · omega
      · -- nothing is left behind the header, so the header has extension bytes
        rw [heq] at hle ⊢
        rw [sub16_of_le hle hn] at hl
        by_cases hlt : s.pos < n
        · omega
        have hend : s.pos = n := by omega
        rw [hleft, sub16_of_le (Nat.le_of_eq hend) hn] at hne
        omega
      · by_contra hnot
        have hpos : h.pos = s.pos := by omega
        have hlt : s.pos < n := by
          rw [sub16_of_le (by omega) hn] at hl
          omega
        exact hns ⟨hne, b, h, o, hb, hff, hh, ho, hrep, .inr ⟨hlt, hpos, ls, atEnd, hrun, hu⟩⟩
    · obtain ⟨x, hp, hx⟩ := parseOption_single (Bool.eq_false_iff.mpr hrep) mem (sub16 n h.pos) h.pos h.len
      simp only [hp]
      refine exists_outcome_bind (mono_const _) (fun _ => mono_const _)
        ⟨x, outcome_const hx.ne_fuel⟩ (fun e _ he => by cases he) ?_
      intro r hr
      refine ⟨_, outcome_const (pure_ne_fuel _), ?_⟩
      intro s' hs'
      obtain ⟨m', rfl, -, -⟩ := optionsNext_more (Except.ok.inj hs')
      have hpos' := (hx.of_ok ((outcome_const hx.ne_fuel).unique (mono_const _) hr)).2 s'.pos m' rfl
      omega

/-! ## The whole parser -/

/-- A state at the head of the options loop in the run of the parser. -/
def LoopHead (mem : Mem) (packetLen : Nat) (s : OptState) : Prop :=
  ∃ m version m' s0, headerParse mem {} = .ok (m, version) ∧ tokenParse mem packetLen 4 m = .ok (m', some s0) ∧
    Iterates (fun k => optionsStep k mem packetLen) s0 s

theorem settles_headerParse (mem : Mem) (m : Hdr) :
    Settles (Gap mem 0 4) (headerParse mem m) fun r => r.1.tokenPtr = m.tokenPtr := by
  refine .congr (.bind (settles_rd mem 0) fun _ _ => .bind (settles_rd mem 1) fun _ _ =>
    .bind (settles_rd mem 3) fun _ _ => .map (settles_rd mem 2) fun _ _ => rfl) ?_
  simp only [gap_succ, not_gap_zero]
  tauto

theorem settles_tokenParse (mem : Mem) (n pos : Nat) (m : Hdr) :
    Settles (mem 0 = none ∨ ∃ b, mem 0 = some b ∧
        (b.toNat % 16 ≠ 0 ∧ b.toNat % 16 ≤ 8 ∧ m.tokenPtr = none) ∧ Gap mem pos (b.toNat % 16))
      (tokenParse mem n pos m) fun r => ∀ s, r.2 = some s → s.messageLeft = sub16 n s.pos ∧
        ∃ b, mem 0 = some b ∧ b.toNat % 16 ≤ 8 ∧ s.pos = pos + b.toNat % 16 := by
  refine .bind (settles_rd mem 0) ?_
  rintro v ⟨b, hb, rfl⟩
  simp only [hb, Option.some.injEq, exists_eq_left']
  split_ifs with hz hlong
  · refine .congr (settles_pure ?_) (by simp [hz])
    rintro s ⟨⟩
    exact ⟨rfl, by omega, by dsimp only; omega⟩
  · refine .congr (settles_pure fun s hs => by cases hs) (iff_of_false id fun h => ?_)
    rcases hlong with hlong | hsome
    · omega
    · simp [h.1.2.2] at hsome
  · obtain ⟨hle, hnone⟩ := not_or.mp hlong
    refine .congr (.map (settles_rdBytes mem _ pos) ?_) (and_iff_right ⟨hz, by omega, by simpa using hnone⟩).symm
    rintro bytes - s ⟨⟩
    exact ⟨rfl, by omega, rfl⟩

theorem outcome_more (h : Outcome (fun k => optionsStep k mem n s) (.ok (.more s'))) :
    s'.pos ≤ n ∧ s'.messageLeft = sub16 n s'.pos := by
  obtain ⟨-, k, hk⟩ := h
  rcases optionsStep_cases mem n s with ⟨x, -, hmore, hstep⟩ | ⟨hne, b, h, o, hb, hff, hh, ho⟩
  · exact absurd ((hstep k).symm.trans hk) (hmore s')
  dsimp only at hk
  rw [optionsStep_option hne hb hff hh ho] at hk
  obtain ⟨r, -, hr⟩ := bind_eq_ok hk
  obtain ⟨m, -, hle, hs'⟩ := optionsNext_more (Except.ok.inj hr)
  exact ⟨hle, by rw [hs']⟩

theorem loopHead_messageLeft (h : LoopHead mem n s) : s.messageLeft = sub16 n s.pos := by
  obtain ⟨m, version, m', s0, -, ht, hs⟩ := h
  cases hs with
  | refl => exact (((settles_tokenParse mem n 4 m).of_ok ht).2 _ rfl).1
  | tail _ hlast => exact (outcome_more hlast).2

/-- `sn_coap_parser` ends on this packet. -/
def Terminates (mem : Mem) (packetLen : Nat) : Prop := ∃ x, Outcome (fun k => snCoapParser k mem packetLen) x

theorem settles_parserFinish (mem : Mem) (n version : Nat) (r : Ret) :
    Settles (∃ pos m, r = .ok pos m ∧ pos < n ∧ mem pos = none) (parserFinish mem n version r) fun _ => True := by
  cases r with
  | err m => exact .congr (settles_pure trivial) (by simp)
  | ok pos m =>
    have hpayload : Settles (pos < n ∧ mem pos = none) (payloadParse mem n pos m) fun _ => True := by
      unfold payloadParse
      split_ifs with hlt
      · refine .congr (.bind (settles_rd mem pos) fun b _ => (?_ : Settles False _ fun _ => True)) (by simp [hlt])
        dsimp only
        split_ifs <;> exact settles_pure trivial
      · exact .congr (settles_pure trivial) (by simp [hlt])
    refine .congr (.bind hpayload fun r _ => (?_ : Settles False _ fun _ => True)) (by simp)
    cases r <;> exact settles_pure trivial

/-- After the header and the token, the parser is its options loop. -/
theorem snCoapParser_loop (h4 : 4 ≤ n)
    (hm : headerParse mem {} = .ok (m, version)) (ht : tokenParse mem n 4 m = .ok (m', some s)) (k : Nat) :
    snCoapParser k mem n = (loop (optionsStep k mem n) k s >>= parserFinish mem n version) := by
  simp only [snCoapParser, if_neg (Nat.not_lt.mpr h4), hm, optionsParse, ht, bind, Except.bind]

/-- The other packets are refused before it, whatever the fuel. -/
theorem snCoapParser_cases (mem : Mem) (n : Nat) :
    (∃ x, x ≠ .error .fuel ∧ ∀ k, snCoapParser k mem n = x) ∨
      (4 ≤ n ∧ ∃ m version m' s, headerParse mem {} = .ok (m, version) ∧ tokenParse mem n 4 m = .ok (m', some s)) := by
  by_cases h4 : n < 4
  · exact .inl ⟨pure none, pure_ne_fuel _, fun k => by simp only [snCoapParser, if_pos h4]⟩
  match hm : headerParse mem {} with
  | .error e =>
    left
    refine ⟨.error e, ?_, fun k => ?_⟩
    · intro he
      cases he
      exact (settles_headerParse mem {}).ne_fuel hm
    · simp only [snCoapParser, if_neg h4, hm]
      rfl
  | .ok (m, version) =>
    match ht : tokenParse mem n 4 m with
    | .error e =>
      left
      refine ⟨.error e, ?_, fun k => ?_⟩
      · intro he
        cases he
        exact (settles_tokenParse mem n 4 m).ne_fuel ht
      · simp only [snCoapParser, if_neg h4, hm, optionsParse, ht, bind, Except.bind]
    | .ok (m', none) =>
      left
      refine ⟨_, (settles_parserFinish mem n version (.err m')).ne_fuel, fun k => ?_⟩
      simp only [snCoapParser, if_neg h4, hm, optionsParse, ht, bind, Except.bind, pure, Except.pure]
    | .ok (m', some s) => exact .inr ⟨by omega, m, version, m', s, rfl, ht⟩

theorem mono_snCoapParser (mem : Mem) (n : Nat) : Mono (fun k => snCoapParser k mem n) := by
  rcases snCoapParser_cases mem n with ⟨x, -, hp⟩ | ⟨h4, m, version, m', s, hm, ht⟩
  · simp only [hp]
    exact mono_const x
  simp only [snCoapParser_loop h4 hm ht]
  exact mono_bind (mono_loop (mono_optionsStep mem n) s)
    fun r => mono_const (parserFinish mem n version r)

/-- A parser that comes back to a loop head does not end. -/
theorem snCoapParser_diverges {s0 : OptState} (h4 : 4 ≤ n) (hm : headerParse mem {} = .ok (m, version))
    (ht : tokenParse mem n 4 m = .ok (m', some s0)) (hi : Iterates (fun k => optionsStep k mem n) s0 s)
    (hcycle : Outcome (fun k => optionsStep k mem n s) (.ok (.more s))) : Diverges (fun k => snCoapParser k mem n) := by
  have hmono := mono_optionsStep mem n
  simp only [snCoapParser_loop h4 hm ht]
  exact .bind_left (loop_diverges_of_iterates hmono hi (loop_of_cycle hmono hcycle))

/-- A parser that makes progress in every iteration ends: the pointer stays in the packet. -/
theorem terminates_of_advances (h : ∀ s, LoopHead mem n s → Advances mem n s) : Terminates mem n := by
  rcases snCoapParser_cases mem n with ⟨x, hx, hp⟩ | ⟨h4, m, version, m', s, hm, ht⟩
  · exact ⟨x, hx, 0, hp 0⟩
  have hloop : ∃ x, Outcome (fun k => loop (optionsStep k mem n) k s) x := by
    refine loop_of_measure _ (mono_optionsStep mem n) (fun s => n + 1 - s.pos) s ?_
    intro s1 hs1
    obtain ⟨x, hx, hadv⟩ := h s1 ⟨m, version, m', s, hm, ht, hs1⟩
    refine ⟨x, hx, ?_⟩
    rintro s2 rfl
    have hlt := hadv s2 rfl
    have hle := (outcome_more hx).1
    omega
  unfold Terminates
  simp only [snCoapParser_loop h4 hm ht]
  exact exists_outcome_then (mono_loop (mono_optionsStep mem n) s) hloop
    fun r => (settles_parserFinish mem n version r).ne_fuel

/-- `sn_coap_parser` terminates, with every iteration of the options loop returning or
moving the packet pointer forward, exactly on the packets in which the loop reaches no
option that it is stuck on. -/
theorem terminates_with_progress_iff (p : List UInt8) (tail : Nat → Option UInt8) (hlen : 4 ≤ p.length ∧ p.length ≤ 65535) :
    (Terminates (packetMem p tail) p.length ∧
        ∀ s, LoopHead (packetMem p tail) p.length s → Advances (packetMem p tail) p.length s) ↔
      ∀ s, LoopHead (packetMem p tail) p.length s → ¬ Stuck (packetMem p tail) p.length s := by
  have hn : p.length < 65536 := by omega
  constructor
  · rintro ⟨-, hadv⟩ s hs
    exact (advances_iff hn (loopHead_messageLeft hs)).mp (hadv s hs)
  intro hns
  have hadv : ∀ s, LoopHead (packetMem p tail) p.length s → Advances (packetMem p tail) p.length s :=
    fun s hs => (advances_iff hn (loopHead_messageLeft hs)).mpr (hns s hs)
  exact ⟨terminates_of_advances hadv, hadv⟩

section UriPath

/-- A GET with the Uri-Path `a`. -/
def uriPathMem : Mem := packetMem [0x40, 0x01, 0x00, 0x00, 0xb1, 0x61] (fun _ => none)

def uriPathMsg : Hdr := { msgCode := 1, uriPathPtr := some [0x61], uriPathLen := 1 }

theorem step_uriPath : Outcome (fun k => optionsStep k uriPathMem 6 ⟨4, 0, 2, { msgCode := 1 }⟩)
    (.ok (.more ⟨6, 11, 0, uriPathMsg⟩)) := ⟨by simp, 2, rfl⟩

theorem step_end : Outcome (fun k => optionsStep k uriPathMem 6 ⟨6, 11, 0, uriPathMsg⟩)
    (.ok (.done (.ok 6 uriPathMsg))) := ⟨by simp, 0, rfl⟩

theorem loopHead_uriPath {s : OptState} (h : LoopHead uriPathMem 6 s) :
    s = ⟨4, 0, 2, { msgCode := 1 }⟩ ∨ s = ⟨6, 11, 0, uriPathMsg⟩ := by
  obtain ⟨m, version, m', s0, hm, ht, hs⟩ := h
  cases hm
  cases ht
  rcases hs.first (mono_optionsStep _ 6) step_uriPath with rfl | ⟨s1, h1, hs1⟩
  · exact .inl rfl
  cases h1
  rcases hs1.first (mono_optionsStep _ 6) step_end with rfl | ⟨s2, h2, -⟩
  · exact .inr rfl
  · cases h2

/-- The parser is stuck at neither. -/
theorem terminates_with_progress_uriPath :
    Terminates (packetMem [0x40, 0x01, 0x00, 0x00, 0xb1, 0x61] (fun _ => none)) 6 ∧
      ∀ s, LoopHead (packetMem [0x40, 0x01, 0x00, 0x00, 0xb1, 0x61] (fun _ => none)) 6 s →
        ¬ Stuck (packetMem [0x40, 0x01, 0x00, 0x00, 0xb1, 0x61] (fun _ => none)) 6 s := by
  have hends : Terminates uriPathMem 6 := ⟨.ok (some (uriPathMsg, 64)), by simp, 3, rfl⟩
  refine ⟨hends, (terminates_with_progress_iff [0x40, 0x01, 0x00, 0x00, 0xb1, 0x61] (fun _ => none)
    (by decide)).mp ⟨hends, fun s hs => ?_⟩⟩
  rcases loopHead_uriPath hs with rfl | rfl
  · refine ⟨_, step_uriPath, ?_⟩
    intro s' hs'
    cases hs'
    decide
  · refine ⟨_, step_end, ?_⟩
    intro s' hs'
    cases hs'

end UriPath

/-! ## A packet on which the parser hangs -/

/-- The options are an empty Uri-Port and, as the last one, an empty Location-Query. The loop comes back to the extension byte of
the Location-Query, read as the header of one more empty Location-Query. -/
theorem emptyQuery_diverges (code msgId : UInt8) (tail : Nat → Option UInt8) :
    Diverges (fun k => snCoapParser k (packetMem [0x40, code, 0x00, msgId, 0x70, 0xd0, 0x00] tail) 7) := by
  have hquery (m : Hdr) {s : OptState} (hs : s = ⟨5, 7, 2, { m with optionsListPtr := some { uriPort := 0 } }⟩ ∨
      s = ⟨6, 20, 1, { m with optionsListPtr := some { uriPort := 0 } }⟩) :
      Outcome (fun k => optionsStep k (packetMem [0x40, code, 0x00, msgId, 0x70, 0xd0, 0x00] tail) 7 s)
        (.ok (.more ⟨6, 20, 1, { m with optionsListPtr := some { uriPort := 0 } }⟩)) := by
    refine ⟨by simp, 1, ?_⟩
    rcases hs with rfl | rfl <;> (simp only [optionsStep]; rfl)
  exact snCoapParser_diverges (by decide) rfl rfl (.head ⟨by simp, 0, rfl⟩ (.head (hquery _ (.inl rfl)) .refl))
    (hquery _ (.inr rfl))

/-- A GET with these options. -/
def hangingPacket : Bytes := [0x40, 0x01, 0x00, 0x00, 0x70, 0xd0, 0x00]

theorem not_terminates_hangingPacket : ¬ Terminates (packetMem hangingPacket (fun _ => some 0)) hangingPacket.length := by
  rintro ⟨x, hx⟩
  exact hx.not_diverges (emptyQuery_diverges 1 0 _)

end MbedCloud.Coap.Parser

