import Mathlib.Data.List.Range
import Mathlib.Data.Nat.Find
import MbedCloud.Lib.Loop
import MbedCloud.Lib.Word

/-!
# Verification of a stored firmware

When a package is finalized, the firmware manager reads it back and feeds it to the hash. While the hash is fed
with the front buffer, the next read goes to the back buffer; with one buffer, it is started afterwards. What
was read beyond the end of the package is cut off.

The end of a read is an unsigned sum: `finalize_verifies_iff` says that the package is hashed from its first
byte to its last unless a read that starts inside of the package reaches the end of the 32-bit offsets.
-/

namespace MbedCloud.Update.FirmwareManager

open Lib List

/-! ## Model -/

inductive Signal where
  | finalizeDone
  | finalizeError
  | finalizeInvalidHashError
  deriving DecidableEq

/-- What is given: the stored image, the configuration, the hash function, and the sizes of the reads. -/
structure Input where
  image : Nat → UInt8
  packageSize : Nat
  hash : Bytes
  sha256 : Bytes → Bytes
  sizes : Nat → Nat
  packageSize_lt : packageSize < 4294967296
  sizes_pos : ∀ k, 0 < sizes k
  sizes_lt : ∀ k, sizes k < 4294967296

/-- The two buffers are equal or not. -/
structure Manager where
  packageOffset : Nat
  front : Bool
  back : Bool
  contents : Bool → Bytes
  /-- What the hash was fed with. -/
  fed : Bytes
  /-- The buffer and the offset of a read that was started. -/
  reading : Option (Bool × Nat)

def bytes (image : Nat → UInt8) (offset n : Nat) : Bytes := (List.range n).map fun i => image (offset + i)

namespace Manager

def fill (s : Manager) (buffer : Bool) (bs : Bytes) : Manager :=
  { s with contents := fun b => if b = buffer then bs else s.contents b }

/-- `ARM_UCP_Read` into the back buffer. -/
def startRead (s : Manager) : Manager := { s.fill s.back [] with reading := some (s.back, s.packageOffset) }

/-- `ARM_UC_cryptoHashUpdate`. -/
def update (s : Manager) : Manager := { s with fed := s.fed ++ s.contents s.front }

def swap (s : Manager) : Manager := { s with front := s.back, back := s.front }

end Manager

def verdict (x : Input) (fed : Bytes) : Signal :=
  if (x.sha256 fed).length = x.hash.length then if x.sha256 fed = x.hash then .finalizeDone else .finalizeInvalidHashError
  else .finalizeError

/-- `arm_uc_internal_process_hash`. -/
def processHash (x : Input) (s : Manager) : Next Manager (Signal × Bytes) :=
  let needsMoreData := s.packageOffset < x.packageSize
  let s := if s.front ≠ s.back ∧ needsMoreData then s.startRead else s
  let s := s.update
  if needsMoreData then .more (if s.front = s.back then s.startRead else s).swap
  else .done (verdict x s.fed, s.fed)

/-- `event_handler_finalize`. -/
def eventHandlerFinalize (s : Manager) : Manager := { s with packageOffset := 0, fed := [], reading := some (s.front, 0) }

/-- `event_handler_read`. -/
def eventHandlerRead (x : Input) (s : Manager) : Next Manager (Signal × Bytes) :=
  let size := (s.contents s.front).length
  if 0 < size then
    let s := if x.packageSize < u32 (s.packageOffset + size) then
      s.fill s.front ((s.contents s.front).take (sub32 x.packageSize s.packageOffset)) else s
    processHash x { s with packageOffset := u32 (s.packageOffset + (s.contents s.front).length) }
  else .done (.finalizeError, s.fed)

/-- The read that was started is done, with a number of bytes. -/
def readDone (x : Input) (size : Nat) (s : Manager) : Next Manager (Signal × Bytes) :=
  match s.reading with
  | some (buffer, offset) => eventHandlerRead x { s.fill buffer (bytes x.image offset size) with reading := none }
  | none => .more s

/-- The manager after a number of reads: it goes on, or has signalled an event. -/
def reads (x : Input) (s : Manager) : Nat → Next Manager (Signal × Bytes)
  | 0 => .more (eventHandlerFinalize s)
  | k + 1 =>
    match reads x s k with
    | .done r => .done r
    | .more s => readDone x (x.sizes k) s

/-! ## Statement -/

/-- The package is fed to the hash, and one event says whether the hash is the expected one. -/
def Verifies (x : Input) (s : Manager) : Prop :=
  ∃ k signal, reads x s k = .done (signal, bytes x.image 0 x.packageSize) ∧
    (signal = .finalizeDone ↔ x.sha256 (bytes x.image 0 x.packageSize) = x.hash)

def total (sizes : Nat → Nat) : Nat → Nat
  | 0 => 0
  | k + 1 => total sizes k + sizes k

/-- A read that starts inside of the package ends below the end of the offsets. -/
def Below (x : Input) : Prop := ∀ k, total x.sizes k < x.packageSize → total x.sizes (k + 1) < 4294967296

/-! ## One read -/

section

variable {x : Input} {s s' : Manager} {o size : Nat}

theorem length_bytes (image : Nat → UInt8) (o n : Nat) : (bytes image o n).length = n := by simp [bytes]

theorem bytes_append (image : Nat → UInt8) (o m n : Nat) : bytes image o m ++ bytes image (o + m) n = bytes image o (m + n) := by
  simp [bytes, range_add, Function.comp_def, Nat.add_assoc]

theorem take_bytes (image : Nat → UInt8) {o m n : Nat} (h : m ≤ n) : (bytes image o n).take m = bytes image o m := by
  rw [bytes, bytes, ← map_take, take_range, Nat.min_eq_left h]

theorem verdict_eq_done (fed : Bytes) : verdict x fed = .finalizeDone ↔ x.sha256 fed = x.hash := by
  unfold verdict
  split_ifs with hlen heq
  · exact ⟨fun _ => heq, fun _ => rfl⟩
  · exact ⟨(by simp), fun h => absurd h heq⟩
  · exact ⟨(by simp), fun h => absurd (congrArg List.length h) hlen⟩

/-- The hash is fed with the front buffer, and the next read goes to what will be the front buffer. -/
theorem processHash_eq (x : Input) (s : Manager) :
    if s.packageOffset < x.packageSize then
      ∃ s', processHash x s = .more s' ∧ s'.packageOffset = s.packageOffset ∧
        s'.fed = s.fed ++ s.contents s.front ∧ s'.reading = some (s'.front, s.packageOffset)
    else processHash x s = .done (verdict x (s.fed ++ s.contents s.front), s.fed ++ s.contents s.front) := by
  unfold processHash
  split_ifs with hmore
  · by_cases hsame : s.front = s.back
    · refine ⟨s.update.startRead.swap, ?_, rfl, rfl, rfl⟩
      simp [hsame, hmore, Manager.update]
    · refine ⟨s.startRead.update.swap, ?_, rfl, ?_, rfl⟩
      · simp [hsame, hmore, Manager.update, Manager.startRead, Manager.fill]
      · simp [Manager.update, Manager.startRead, Manager.fill, Manager.swap, hsame]
  · simp [hmore, Manager.update]

/-- What a read adds to the hash. -/
def piece (x : Input) (offset size : Nat) : Bytes :=
  if x.packageSize < u32 (offset + size) then (bytes x.image offset size).take (sub32 x.packageSize offset)
  else bytes x.image offset size

theorem readDone_eq (hread : s.reading = some (s.front, s.packageOffset)) (hpos : 0 < size) :
    if u32 (s.packageOffset + (piece x s.packageOffset size).length) < x.packageSize then
      ∃ s', readDone x size s = .more s' ∧ s'.packageOffset = u32 (s.packageOffset + (piece x s.packageOffset size).length) ∧
        s'.fed = s.fed ++ piece x s.packageOffset size ∧ s'.reading = some (s'.front, s'.packageOffset)
    else readDone x size s =
      .done (verdict x (s.fed ++ piece x s.packageOffset size), s.fed ++ piece x s.packageOffset size) := by
  obtain ⟨t, hfed, hfront, hoffset, hrun⟩ : ∃ t : Manager, t.fed = s.fed ∧ t.contents t.front = piece x s.packageOffset size ∧
      t.packageOffset = u32 (s.packageOffset + (piece x s.packageOffset size).length) ∧
      readDone x size s = processHash x t := by
    refine ⟨{ s.fill s.front (piece x s.packageOffset size) with
      reading := none, packageOffset := u32 (s.packageOffset + (piece x s.packageOffset size).length) },
      rfl, if_pos rfl, rfl, ?_⟩
    unfold readDone eventHandlerRead piece
    rw [hread]
    dsimp only [Manager.fill]
    rw [if_pos rfl, length_bytes, if_pos hpos]
    split_ifs with htrim <;> simp only [if_true]
  have hprocess := processHash_eq x t
  rw [hfed, hfront, hoffset] at hprocess
  rw [hrun]
  split_ifs at hprocess ⊢ with hmore
  · obtain ⟨s', hs', ho', hfed', hread'⟩ := hprocess
    exact ⟨s', hs', ho', hfed', by rw [hread', ho']⟩
  · exact hprocess

end

/-! ## All reads -/

section

variable {x : Input} {s : Manager}

/-- Reading is at an offset, and all before it was fed to the hash. -/
structure At (x : Input) (s : Manager) (o : Nat) : Prop where
  offset : s.packageOffset = o
  fed : s.fed = bytes x.image 0 o
  reading : s.reading = some (s.front, s.packageOffset)

theorem readDone_of_lt {o size : Nat} (hat : At x s o) (ho : o ≤ x.packageSize) (hpos : 0 < size) (hlt : o + size < 4294967296) :
    if o + size < x.packageSize then ∃ s', readDone x size s = .more s' ∧ At x s' (o + size)
    else readDone x size s = .done (verdict x (bytes x.image 0 x.packageSize), bytes x.image 0 x.packageSize) := by
  have hu : u32 (o + size) = o + size := Nat.mod_eq_of_lt hlt
  have hpiece : piece x o size = bytes x.image o (min size (x.packageSize - o)) := by
    unfold piece
    rw [hu, sub32_of_le ho x.packageSize_lt]
    split_ifs with htrim
    · rw [take_bytes _ (by omega), Nat.min_eq_right (by omega)]
    · rw [Nat.min_eq_left (by omega)]
  have hfed : s.fed ++ piece x o size = bytes x.image 0 (o + min size (x.packageSize - o)) := by
    rw [hat.fed, hpiece, ← bytes_append, Nat.zero_add]
  have hstep := readDone_eq (x := x) hat.reading hpos
  rw [hat.offset, hfed, hpiece, length_bytes] at hstep
  have hend : u32 (o + min size (x.packageSize - o)) = o + min size (x.packageSize - o) := Nat.mod_eq_of_lt (by omega)
  rw [hend] at hstep
  split_ifs with hmore
  · rw [if_pos (by omega), Nat.min_eq_left (by omega)] at hstep
    obtain ⟨s', hs', ho', hfed', hread'⟩ := hstep
    exact ⟨s', hs', ho', hfed', hread'⟩
  · rw [if_neg (by omega), Nat.min_eq_right (by omega), Nat.add_sub_cancel' ho] at hstep
    exact hstep

theorem reads_succ {k : Nat} {s' : Manager} (h : reads x s k = .more s') : reads x s (k + 1) = readDone x (x.sizes k) s' := by
  rw [reads, h]

/-- As long as the package goes on, every read continues where the one before it ended. -/
theorem reads_at (x : Input) (s : Manager) (k : Nat) (hk : total x.sizes k < x.packageSize ∨ k = 0) :
    ∃ s', reads x s k = .more s' ∧ At x s' (total x.sizes k) := by
  induction k with
  | zero => exact ⟨_, rfl, rfl, rfl, rfl⟩
  | succ k ih =>
    have hlt : total x.sizes k + x.sizes k < x.packageSize := hk.resolve_right (Nat.succ_ne_zero k)
    obtain ⟨s', hs', hat⟩ := ih (.inl (by omega))
    have hstep := readDone_of_lt hat (by omega) (x.sizes_pos k) (Nat.lt_trans hlt x.packageSize_lt)
    rw [if_pos hlt] at hstep
    obtain ⟨s'', hs'', hat'⟩ := hstep
    exact ⟨s'', (reads_succ hs').trans hs'', hat'⟩

theorem le_total (x : Input) (k : Nat) : k ≤ total x.sizes k := by
  induction k with
  | zero => exact Nat.zero_le _
  | succ k ih =>
    have := x.sizes_pos k
    rw [total]
    omega

theorem exists_last (x : Input) : ∃ k, (total x.sizes k < x.packageSize ∨ k = 0) ∧ x.packageSize ≤ total x.sizes (k + 1) := by
  have hex : ∃ k, x.packageSize ≤ total x.sizes (k + 1) := ⟨x.packageSize, Nat.le_trans (Nat.le_succ _) (le_total x _)⟩
  classical
  refine ⟨Nat.find hex, ?_, Nat.find_spec hex⟩
  cases hk : Nat.find hex with
  | zero => exact .inr rfl
  | succ k => exact .inl (Nat.lt_of_not_le (Nat.find_min hex (by omega)))

theorem verifies_of_below (hbelow : Below x) : Verifies x s := by
  obtain ⟨k, hk, hlast⟩ := exists_last x
  obtain ⟨s', hs', hat⟩ := reads_at x s k hk
  have hsizes := x.sizes_lt k
  have hle : total x.sizes k ≤ x.packageSize ∧ total x.sizes k + x.sizes k < 4294967296 := by
    rcases hk with hlt | rfl
    · exact ⟨Nat.le_of_lt hlt, hbelow k hlt⟩
    · exact ⟨Nat.zero_le _, by rwa [total, Nat.zero_add]⟩
  have hstep := readDone_of_lt hat hle.1 (x.sizes_pos k) hle.2
  rw [total] at hlast
  rw [if_neg (by omega)] at hstep
  exact ⟨k + 1, _, (reads_succ hs').trans hstep, verdict_eq_done _⟩

def TooMuch (x : Input) : Next Manager (Signal × Bytes) → Prop
  | .more s => s.reading = some (s.front, s.packageOffset) ∧ x.packageSize < s.fed.length
  | .done r => x.packageSize < r.2.length

theorem reads_tooMuch {k : Nat} (h : TooMuch x (reads x s k)) (i : Nat) : TooMuch x (reads x s (k + i)) := by
  induction i with
  | zero => exact h
  | succ i ih =>
    rw [← Nat.add_assoc, reads]
    cases hr : reads x s (k + i) with
    | done r =>
      rw [hr] at ih
      exact ih
    | more s' =>
      rw [hr] at ih
      have hstep := readDone_eq (x := x) ih.1 (x.sizes_pos (k + i))
      have hlen := ih.2
      dsimp only
      split_ifs at hstep
      · obtain ⟨s'', hs'', -, hfed, hread⟩ := hstep
        rw [hs'']
        exact ⟨hread, by rw [hfed, length_append]; omega⟩
      rw [hstep]
      show x.packageSize < (s'.fed ++ _).length
      rw [length_append]
      omega

theorem reads_done {k : Nat} {r : Signal × Bytes} (h : reads x s k = .done r) (i : Nat) : reads x s (k + i) = .done r := by
  induction i with
  | zero => exact h
  | succ i ih => rw [← Nat.add_assoc, reads, ih]

/-- A read that reaches the end of the offsets starts over at the beginning of the package. -/
theorem below_of_verifies (h : Verifies x s) : Below x := by
  intro k hk
  by_contra hover
  have hn := x.packageSize_lt
  have hsize := x.sizes_lt k
  rw [total] at hover
  obtain ⟨s', hs', hat⟩ := reads_at x s k (.inl hk)
  have hu : u32 (total x.sizes k + x.sizes k) = total x.sizes k + x.sizes k - 4294967296 := by
    unfold u32
    omega
  have hpiece : piece x (total x.sizes k) (x.sizes k) = bytes x.image (total x.sizes k) (x.sizes k) := by
    rw [piece, hu, if_neg (by omega)]
  have hstep := readDone_eq (x := x) hat.reading (x.sizes_pos k)
  rw [hat.offset, hpiece, length_bytes, hu, if_pos (by omega)] at hstep
  obtain ⟨s'', hs'', -, hfed, hread⟩ := hstep
  have hmuch : TooMuch x (reads x s (k + 1)) := by
    rw [reads_succ hs', hs'']
    refine ⟨hread, ?_⟩
    rw [hfed, hat.fed, length_append, length_bytes, length_bytes]
    omega
  obtain ⟨j, signal, hdone, -⟩ := h
  have hlate := reads_tooMuch hmuch j
  rw [Nat.add_comm, reads_done hdone] at hlate
  have hlen : x.packageSize < (bytes x.image 0 x.packageSize).length := hlate
  rw [length_bytes] at hlen
  omega

end

/-- For every image, package, hash, pair of buffers and sequence of reads. -/
theorem finalize_verifies_iff (x : Input) (s : Manager) : Verifies x s ↔ Below x := ⟨below_of_verifies, verifies_of_below⟩

/-- A package of nearly 4 GiB, of which the second read is of 32 bytes at its end. -/
def hugePackage : Input where
  image := fun _ => 0
  packageSize := 4294967295
  hash := []
  sha256 := fun _ => []
  sizes := fun k => if k = 0 then 4294967264 else 32
  packageSize_lt := by decide
  sizes_pos := fun k => by split_ifs <;> decide
  sizes_lt := fun k => by split_ifs <;> decide

theorem hugePackage_not_verified (s : Manager) : ¬ Verifies hugePackage s := by
  intro h
  exact absurd (below_of_verifies h 1 (by decide)) (by decide)

/-- The second read reaches the end of the offsets. -/
theorem finalize_not_verifies : ¬ ∀ (x : Input) (s : Manager), Verifies x s :=
  fun h => hugePackage_not_verified ⟨0, false, true, fun _ => [], [], none⟩ (h _ _)

end MbedCloud.Update.FirmwareManager

