import Mathlib.Tactic.IntervalCases
import MbedCloud.Lib.Word

/-!
# The validity times of a certificate

`pal_timegm` adds up the seconds of years and months, and `pal_plat_x509CertGetAttribute` gives
the result for the two validity times of a certificate. The leap year test gets the year in 8 bits.
-/

namespace MbedCloud.Pal.Certificate

open List

/-! ## The code -/

inductive Status where
  | success
  | invalidArgument
  | bufferTooSmall
  | timeTranslate
  | invalidIod
  deriving DecidableEq

/-- `struct tm`, filled from an `mbedtls_x509_time`: the year and the month are not shifted. -/
structure Tm where
  year : Nat
  mon : Nat
  mday : Nat
  hour : Nat
  min : Nat
  sec : Nat
  deriving DecidableEq

/-- `pal_isLeapYear` -/
def isLeapYear (year : UInt8) : Bool :=
  if year.toNat % 4 ≠ 0 then false
  else if year.toNat % 100 ≠ 0 then true
  else year.toNat % 400 = 0

/-- `PAL_SECONDS_PER_DAY` -/
def secondsPerDay : Nat := 86400

def palMonthDays : List Nat := [31, 28, 31, 30, 31, 30, 31, 31, 30, 31, 30, 31]

def addYear (epoc y : Nat) : Nat := if isLeapYear (.ofNat y) then epoc + 366 * secondsPerDay else epoc + 365 * secondsPerDay

def addMonth (year epoc m : Nat) : Nat :=
  let epoc := epoc + palMonthDays.getD (m - 1) 0 * secondsPerDay
  if m = 2 ∧ isLeapYear (.ofNat year) then epoc + secondsPerDay else epoc

/-- `pal_timegm` -/
def timegm (tm : Tm) : Except Status Nat :=
  if tm.year < 1970 then .error .invalidArgument
  else
    let epoc := (List.range' 1970 (tm.year - 1970)).foldl addYear 0
    let epoc := (List.range' 1 (tm.mon - 1)).foldl (addMonth tm.year) epoc
    .ok (epoc + (tm.mday - 1) * secondsPerDay + tm.hour * 3600 + tm.min * 60 + tm.sec)

/-- The part of a parsed certificate that has attributes. An entry of the subject is the short name
of its type, if there is one, and its value. -/
structure Crt where
  issuerRaw : Bytes
  subjectRaw : Bytes
  subject : List (Option String × Bytes)
  validFrom : Tm
  validTo : Tm

/-- The status, what is written to the output and the length that is reported. -/
structure Output where
  status : Status
  output : Bytes
  actualOutLen : Option Nat
  deriving DecidableEq

def rawAttribute (raw : Bytes) (outLen : Nat) : Output :=
  if raw.length ≤ outLen then ⟨.success, raw, some raw.length⟩
  else ⟨.bufferTooSmall, [], some raw.length⟩

/-- `pal_plat_X509GetField` -/
def getField (fieldName : String) (outLen : Nat) : List (Option String × Bytes) → Output
  | [] => ⟨.success, [], none⟩
  | (none, _) :: _ => ⟨.invalidIod, [], none⟩
  | (some shortName, val) :: names =>
    if fieldName.isPrefixOf shortName then
      if outLen < val.length + 1 then ⟨.bufferTooSmall, [], some (val.length + 1)⟩
      else ⟨.success, val ++ [0], some (val.length + 1)⟩
    else getField fieldName outLen names

/-- The bytes of a `uint64_t` on the little-endian targets. -/
def bytes64 (n : Nat) : Bytes := (List.range 8).map fun i => UInt8.ofNat (n >>> (8 * i))

def timeAttribute (tm : Tm) (outLen : Nat) : Output :=
  if 8 > outLen then ⟨.bufferTooSmall, [], some 8⟩
  else
    match timegm tm with
    | .error _ => ⟨.timeTranslate, [], some 8⟩
    | .ok timeOfDay => ⟨.success, bytes64 timeOfDay, some 8⟩

/-- `palX509Attr_t` -/
inductive Attr where
  | issuer
  | subject
  | cn
  | ou
  | validFrom
  | validTo
  deriving DecidableEq

/-- `pal_plat_x509CertGetAttribute` -/
def x509CertGetAttribute (crt : Crt) (attr : Attr) (outLen : Nat) : Output :=
  match attr with
  | .issuer => rawAttribute crt.issuerRaw outLen
  | .subject => rawAttribute crt.subjectRaw outLen
  | .cn => getField "CN" outLen crt.subject
  | .ou => getField "OU" outLen crt.subject
  | .validFrom => timeAttribute crt.validFrom outLen
  | .validTo => timeAttribute crt.validTo outLen

/-! ## The calendar -/

def IsLeap (y : Nat) : Prop := y % 4 = 0 ∧ (y % 100 ≠ 0 ∨ y % 400 = 0)

instance (y : Nat) : Decidable (IsLeap y) := inferInstanceAs (Decidable (_ ∧ _))

def leapYears (y : Nat) : Nat := (y - 1) / 4 - (y - 1) / 100 + (y - 1) / 400

/-- The days before a month of a year without a leap day. -/
def monthStart (mon : Nat) : Nat := [0, 31, 59, 90, 120, 151, 181, 212, 243, 273, 304, 334].getD (mon - 1) 0

def monthLength (year mon : Nat) : Nat := palMonthDays.getD (mon - 1) 0 + if mon = 2 ∧ IsLeap year then 1 else 0

namespace Tm

structure Valid (tm : Tm) : Prop where
  year : 1970 ≤ tm.year ∧ tm.year ≤ 9999
  mon : 1 ≤ tm.mon ∧ tm.mon ≤ 12
  mday : 1 ≤ tm.mday ∧ tm.mday ≤ monthLength tm.year tm.mon
  hour : tm.hour < 24
  min : tm.min < 60
  sec : tm.sec < 60

def days (tm : Tm) : Nat :=
  365 * (tm.year - 1970) + (leapYears tm.year - leapYears 1970) + monthStart tm.mon +
    (if 2 < tm.mon ∧ IsLeap tm.year then 1 else 0) + (tm.mday - 1)

def seconds (tm : Tm) : Nat := tm.days * 86400 + tm.hour * 3600 + tm.min * 60 + tm.sec

/-- The years whose end of February has passed. -/
def pastFebruaries (tm : Tm) : List Nat := List.range' 1970 (tm.year - 1970) ++ if 2 < tm.mon then [tm.year] else []

/-- The time is exact, and so are the attributes of all certificates with this time. -/
def Exact (tm : Tm) : Prop :=
  timegm tm = .ok tm.seconds ∧ ∀ (crt : Crt) (outLen : Nat), 8 ≤ outLen →
    (crt.validFrom = tm → x509CertGetAttribute crt .validFrom outLen = ⟨.success, bytes64 tm.seconds, some 8⟩) ∧
    (crt.validTo = tm → x509CertGetAttribute crt .validTo outLen = ⟨.success, bytes64 tm.seconds, some 8⟩)

end Tm

/-! ## The leap year test -/

/-- A leap year that looks like the year 100 or 200 in 8 bits. -/
def Missed (y : Nat) : Prop := IsLeap y ∧ (y % 256 = 100 ∨ y % 256 = 200)

/-- A year without a leap day that does not look like a century in 8 bits. -/
def Added (y : Nat) : Prop := y % 100 = 0 ∧ y % 400 ≠ 0 ∧ y % 256 ≠ 100 ∧ y % 256 ≠ 200

instance (y : Nat) : Decidable (Missed y) := inferInstanceAs (Decidable (_ ∧ _))

instance (y : Nat) : Decidable (Added y) := inferInstanceAs (Decidable (_ ∧ _))

theorem isLeapYear_balance (y : Nat) :
    (if isLeapYear (.ofNat y) then 1 else 0) + (if Missed y then 1 else 0) =
      (if IsLeap y then 1 else 0) + if Added y then 1 else 0 := by
  have hy : (UInt8.ofNat y).toNat = y % 256 := rfl
  unfold isLeapYear Missed Added IsLeap
  grind

/-- As many leap years are missed as added. -/
def Balanced (ys : List Nat) : Prop := ys.countP (fun y => Missed y) = ys.countP (fun y => Added y)

theorem countP_isLeapYear (ys : List Nat) :
    ys.countP (fun y => isLeapYear (.ofNat y)) + ys.countP (fun y => Missed y) =
      ys.countP (fun y => IsLeap y) + ys.countP (fun y => Added y) := by
  induction ys with
  | nil => rfl
  | cons y ys ih =>
    have hy := isLeapYear_balance y
    simp only [countP_cons, decide_eq_true_eq]
    omega

theorem leapYears_succ {y : Nat} (hy : 0 < y) : leapYears (y + 1) = leapYears y + if IsLeap y then 1 else 0 := by
  obtain ⟨n, rfl⟩ := Nat.exists_eq_add_one.mpr hy
  unfold leapYears IsLeap
  rw [Nat.add_sub_cancel, Nat.add_sub_cancel, Nat.succ_div, Nat.succ_div, Nat.succ_div]
  grind

theorem countP_isLeap (n : Nat) : (List.range' 1970 n).countP (fun y => IsLeap y) = leapYears (1970 + n) - leapYears 1970 := by
  have hcount : (List.range' 1970 n).countP (fun y => IsLeap y) + leapYears 1970 = leapYears (1970 + n) := by
    induction n with
    | zero => rfl
    | succ n ih =>
      have hnext := leapYears_succ (y := 1970 + n) (by omega)
      rw [range'_1_concat, countP_append, ← Nat.add_assoc, hnext, ← ih]
      simp only [countP_singleton, decide_eq_true_eq]
      omega
  omega

/-! ## The sums -/

theorem foldl_addYear (ys : List Nat) (epoc : Nat) : ys.foldl addYear epoc =
    epoc + (365 * ys.length + ys.countP fun y => isLeapYear (.ofNat y)) * secondsPerDay := by
  induction ys generalizing epoc with
  | nil => simp
  | cons y ys ih =>
    rw [foldl_cons, ih, addYear, countP_cons, length_cons]
    unfold secondsPerDay
    split <;> omega

theorem foldl_addMonth {year mon : Nat} (hmon : 1 ≤ mon ∧ mon ≤ 12) (epoc : Nat) :
    (List.range' 1 (mon - 1)).foldl (addMonth year) epoc = epoc + (monthStart mon +
      if 2 < mon ∧ isLeapYear (.ofNat year) then 1 else 0) * secondsPerDay := by
  obtain ⟨hlow, hhigh⟩ := hmon
  interval_cases mon <;>
    simp [range', addMonth, palMonthDays, monthStart, secondsPerDay] <;> split <;> omega

theorem timegm_eq {tm : Tm} (h : tm.Valid) : timegm tm = .ok
    ((365 * (tm.year - 1970) + (tm.pastFebruaries.countP fun y => isLeapYear (.ofNat y)) +
      monthStart tm.mon + (tm.mday - 1)) * 86400 + tm.hour * 3600 + tm.min * 60 + tm.sec) := by
  have hyear := h.year.1
  unfold timegm Tm.pastFebruaries
  dsimp only
  rw [if_neg (by omega), foldl_addYear, foldl_addMonth h.mon, countP_append, length_range']
  unfold secondsPerDay
  by_cases hmon : 2 < tm.mon <;> by_cases hleap : isLeapYear (.ofNat tm.year) = true <;>
    simp [hmon, hleap] <;> omega

theorem days_eq {tm : Tm} (h : tm.Valid) : tm.days = 365 * (tm.year - 1970) +
    (tm.pastFebruaries.countP fun y => IsLeap y) + monthStart tm.mon + (tm.mday - 1) := by
  have hyear : 1970 + (tm.year - 1970) = tm.year := by have := h.year.1; omega
  unfold Tm.days Tm.pastFebruaries
  rw [countP_append, countP_isLeap, hyear]
  by_cases hmon : 2 < tm.mon <;> by_cases hleap : IsLeap tm.year <;> simp [hmon, hleap]
  all_goals omega

/-- A time is exact if and only if as many leap years as other years have been taken for the
opposite before it. -/
theorem timegm_exact_iff {tm : Tm} (h : tm.Valid) : tm.Exact ↔ Balanced tm.pastFebruaries := by
  have hcount := countP_isLeapYear tm.pastFebruaries
  have hvalue : timegm tm = .ok tm.seconds ↔ Balanced tm.pastFebruaries := by
    rw [timegm_eq h, Except.ok.injEq, Tm.seconds, days_eq h]
    unfold Balanced
    omega
  refine ⟨fun hexact => hvalue.mp hexact.1, fun hbalanced => ?_⟩
  have htime := hvalue.mpr hbalanced
  refine ⟨htime, fun crt outLen hlen => ⟨?_, ?_⟩⟩
  all_goals
    rintro rfl
    unfold x509CertGetAttribute timeAttribute
    dsimp only
    rw [if_neg (by omega), htime]

/-- The leap day of 1992 is missed, and that of 2100 is added. -/
theorem timegm_exact_2100 : (⟨2100, 3, 1, 0, 0, 0⟩ : Tm).Exact :=
  (timegm_exact_iff ⟨by decide, by decide, by decide, by decide, by decide, by decide⟩).mpr (show _ = _ from by decide)

theorem not_timegm_exact_1992 : (⟨1992, 3, 1, 0, 0, 0⟩ : Tm).Valid ∧ timegm ⟨1992, 3, 1, 0, 0, 0⟩ = .ok 699321600 ∧
    (⟨1992, 3, 1, 0, 0, 0⟩ : Tm).seconds = 699408000 ∧ ¬ (⟨1992, 3, 1, 0, 0, 0⟩ : Tm).Exact := by
  have hcode : timegm ⟨1992, 3, 1, 0, 0, 0⟩ = .ok 699321600 := by rfl
  have hexact : (⟨1992, 3, 1, 0, 0, 0⟩ : Tm).seconds = 699408000 := by rfl
  refine ⟨⟨by decide, by decide, by decide, by decide, by decide, by decide⟩, hcode, hexact, ?_⟩
  rintro ⟨htime, -⟩
  cases htime

end MbedCloud.Pal.Certificate

