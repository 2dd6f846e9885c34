import Mathlib.Order.Interval.Finset.Nat
import MbedCloud.Lib.Loop
import MbedCloud.Lib.Word

/-!
# Random factors

`randLIB.c`. For a number in a range the 32-bit random values are divided into bands of one size, a band for
each number, and a value behind the last band is rolled again. `randLIB_randomise_base` multiplies by such a
number, with 15 bits behind the point.
-/

namespace MbedCloud.Services

open Lib

/-! ## Model -/

def valuesNeeded (min max : Nat) : Nat := max + 1 - min
def bandSize (min max : Nat) : Nat := 0xFFFFFFFF / valuesNeeded min max
def topOfBands (min max : Nat) : Nat := u32 (bandSize min max * valuesNeeded min max)

/-- The number for a random value, none if it is rolled again. -/
def pick (min max result : Nat) : Option Nat :=
  if result ≥ topOfBands min max then none else some (u16 (min + u16 (result / bandSize min max)))

/-- A round, with the random value `source i`. -/
def roll (source : Nat → Nat) (min max i : Nat) : Exec Empty (Next Nat Nat) :=
  match pick min max (source i) with
  | none => .ok (.more (i + 1))
  | some f => .ok (.done f)

def getRandomInRange (fuel : Nat) (source : Nat → Nat) (min max : Nat) : Exec Empty Nat :=
  if min = max then pure min else loop (roll source min max) fuel 0

/-- The product of 32 and 16 bits, from bit 15 on. -/
def multiply (base factor : Nat) : Nat :=
  let hi := u32 (base / 65536 * factor)
  let lo := u32 (base % 65536 * factor)
  let res := u32 (hi + lo / 65536)
  if 0x80000000 ≤ res then 0xFFFFFFFF else u32 (res * 2) + lo / 32768 % 2

def randomiseBase (fuel : Nat) (source : Nat → Nat) (base minFactor maxFactor : Nat) : Exec Empty Nat := do
  let factor ← getRandomInRange fuel source minFactor maxFactor
  pure (multiply base factor)

/-! ## Results -/

theorem multiply_eq {base factor : Nat} (hbase : base < 4294967296) (hfactor : factor < 65536) :
    multiply base factor = min (base * factor / 32768) 4294967295 := by
  have hhi : base / 65536 * factor ≤ 65535 * 65535 := Nat.mul_le_mul (by omega) (by omega)
  have hlo : base % 65536 * factor ≤ 65535 * 65535 := Nat.mul_le_mul (by omega) (by omega)
  have hproduct : base * factor = base / 65536 * factor * 65536 + base % 65536 * factor := by
    rw [Nat.mul_right_comm, ← Nat.add_mul, Nat.div_add_mod']
  unfold multiply u32
  dsimp only
  split_ifs <;> omega

section Range

variable {min max : Nat}

theorem topOfBands_eq : topOfBands min max = bandSize min max * valuesNeeded min max := by
  have hle := Nat.div_mul_le_self 0xFFFFFFFF (valuesNeeded min max)
  exact Nat.mod_eq_of_lt (Nat.lt_of_le_of_lt hle (by decide))

/-- The first value that is not rolled again gives the number. -/
theorem loop_roll {source : Nat → Nat} {f n i fuel : Nat} (hfuel : n < fuel)
    (hf : pick min max (source (i + n)) = some f) (hbefore : ∀ j < n, pick min max (source (i + j)) = none) :
    loop (roll source min max) fuel i = .ok f := by
  induction n generalizing i fuel with
  | zero =>
    obtain ⟨fuel, rfl⟩ := Nat.exists_eq_add_one.mpr hfuel
    simp only [loop, roll, show pick min max (source i) = some f from hf]
  | succ n ih =>
    obtain ⟨fuel, rfl⟩ := Nat.exists_eq_add_one.mpr (Nat.zero_lt_of_lt hfuel)
    simp only [loop, roll, show pick min max (source i) = none from hbefore 0 (Nat.succ_pos n)]
    apply ih (Nat.lt_of_succ_lt_succ hfuel)
    · rwa [Nat.add_assoc, Nat.add_comm 1]
    · intro j hj
      rw [Nat.add_assoc, Nat.add_comm 1]
      exact hbefore (j + 1) (Nat.succ_lt_succ hj)

variable (hle : min ≤ max) (hmax : max < 65536)
include hle hmax

/-- The number is that of the band. -/
theorem pick_eq_some_iff {f result : Nat} : pick min max result = some f ↔
    min ≤ f ∧ f ≤ max ∧ bandSize min max * (f - min) ≤ result ∧ result < bandSize min max * (f - min) + bandSize min max := by
  have hband : 0 < bandSize min max := Nat.div_pos (by unfold valuesNeeded; omega) (by unfold valuesNeeded; omega)
  have hrange : topOfBands min max ≤ result ↔ max + 1 - min ≤ result / bandSize min max := by
    rw [topOfBands_eq, Nat.le_div_iff_mul_le hband, Nat.mul_comm, valuesNeeded]
  have hat : bandSize min max * (f - min) ≤ result ∧ result < bandSize min max * (f - min) + bandSize min max ↔
      result / bandSize min max = f - min := by
    rw [Nat.div_eq_iff hband, Nat.mul_comm]
    omega
  simp only [hat, pick, ge_iff_le, hrange]
  generalize result / bandSize min max = band
  unfold u16
  split_ifs with htop
  · simp
    omega
  · rw [Option.some.injEq]
    omega

/-- **The bands have one size.** -/
theorem card_pick {f : Nat} (hf : min ≤ f ∧ f ≤ max) :
    ((Finset.range 4294967296).filter fun r => pick min max r = some f).card = bandSize min max := by
  have hband : (Finset.range 4294967296).filter (fun r => pick min max r = some f) =
      Finset.Ico (bandSize min max * (f - min)) (bandSize min max * (f - min) + bandSize min max) := by
    ext r
    rw [Finset.mem_filter, Finset.mem_range, Finset.mem_Ico, pick_eq_some_iff hle hmax]
    have htop : bandSize min max * (f - min) + bandSize min max ≤ topOfBands min max := by
      rw [topOfBands_eq, ← Nat.mul_succ]
      exact Nat.mul_le_mul_left _ (by unfold valuesNeeded; omega)
    have : topOfBands min max < 4294967296 := Nat.mod_lt _ (by decide)
    omega
  rw [hband, Nat.card_Ico, Nat.add_sub_cancel_left]

/-- **The factor.** The base is multiplied by the number of the first value that is not rolled again, and every number
of the range has as many values. -/
theorem randomiseBase_factor (base : Nat) (hbase : base < 4294967296) (source : Nat → Nat)
    (hsource : min < max → ∃ i, source i < topOfBands min max) :
    (∃ f fuel, min ≤ f ∧ f ≤ max ∧ (min < max → ∃ n, pick min max (source n) = some f ∧ ∀ j < n, pick min max (source j) = none) ∧
      ∀ k ≥ fuel, randomiseBase k source base min max = .ok (Nat.min (base * f / 2 ^ 15) (2 ^ 32 - 1))) ∧
    ∀ f, min ≤ f → f ≤ max → ((Finset.range (2 ^ 32)).filter fun r => pick min max r = some f).card = bandSize min max := by
  refine ⟨?_, fun f hmin hf => card_pick hle hmax ⟨hmin, hf⟩⟩
  rcases Nat.eq_or_lt_of_le hle with rfl | hlt
  · refine ⟨min, 0, le_rfl, le_rfl, fun h => absurd h (Nat.lt_irrefl min), fun k _ => ?_⟩
    rw [randomiseBase, getRandomInRange, if_pos rfl]
    exact congrArg Except.ok (multiply_eq hbase hmax)
  · obtain ⟨n, hn, hbefore⟩ := Nat.findX (hsource hlt)
    have hnone : ∀ j < n, pick min max (source j) = none := fun j hj => if_pos (Nat.not_lt.mp (hbefore j hj))
    obtain ⟨f, hf⟩ : ∃ f, pick min max (source n) = some f := ⟨_, if_neg (Nat.not_le.mpr hn)⟩
    obtain ⟨hmin, hfmax, -⟩ := (pick_eq_some_iff hle hmax).mp hf
    refine ⟨f, n + 1, hmin, hfmax, fun _ => ⟨n, hf, hnone⟩, fun k hk => ?_⟩
    rw [randomiseBase, getRandomInRange, if_neg (Nat.ne_of_lt hlt),
      loop_roll hk (by rwa [Nat.zero_add]) (fun j hj => by rw [Nat.zero_add]; exact hnone j hj)]
    exact congrArg Except.ok (multiply_eq hbase (by omega))

end Range

/-- All factors, and a source whose values are rolled again at first. -/
theorem randomiseBase_factor_all : ((Finset.range (2 ^ 32)).filter fun r => pick 0 65535 r = some 65535).card = 65535 :=
  (randomiseBase_factor (Nat.zero_le 65535) (by decide) 4294967295 (by decide) (fun i => 0xFFFFFFFF - i * 70000)
    fun _ => ⟨1, by decide⟩).2 65535 (by decide) le_rfl

end MbedCloud.Services

