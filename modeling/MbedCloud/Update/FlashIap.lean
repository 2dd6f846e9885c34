import Mathlib.Tactic.Ring
import Mathlib.Tactic.Linarith
import MbedCloud.Lib.Chunks
import MbedCloud.Lib.Loop
import MbedCloud.Lib.Word

/-!
# Firmware storage in internal flash

The storage area of the flash is divided into locations of one size, the slots. `prepare` erases the area
of an image and programs its header, and `write` programs a fragment behind the header. Neither checks the
size of the image or the end of the fragment against the slot, the products are taken in 32 bits, and the
erasing goes on in steps of the first sector.

`sweep` is the loop of all three: a call of the driver at each index until one is refused.
-/

namespace MbedCloud.Update.FlashIap

open Lib List

/-! ## Model -/

/-- The configuration of the storage area. -/
structure Config where
  address : Nat
  size : Nat
  locations : Nat
  page : Nat
  locations_pos : 0 < locations
  locations_lt : locations < 4294967296
  page_pos : 0 < page
  /-- The area is in the address space. -/
  fits : address + size < 4294967296

/-- `ARM_UC_PAL_HEADER_SIZE`: 296 bytes of external header, in whole pages. -/
def Config.headerSize (cfg : Config) : Nat := (296 + cfg.page - 1) / cfg.page * cfg.page

/-- The sectors of a flash with the size of the pages that can be programmed. -/
structure Flash where
  /-- Where the sector of an address starts, and its size. -/
  sector : Nat → Nat
  sectorSize : Nat → Nat
  pageSize : Nat
  pageSize_pos : 0 < pageSize
  sector_le : ∀ a, sector a ≤ a
  lt_sector_add : ∀ a, a < sector a + sectorSize a
  sector_eq : ∀ a b, sector a ≤ b → b < sector a + sectorSize a → sector b = sector a
  sectorSize_eq : ∀ a b, sector a ≤ b → b < sector a + sectorSize a → sectorSize b = sectorSize a

inductive Call where
  | erase (address size : Nat)
  | program (address size : Nat)
  deriving DecidableEq

/-- Which calls the driver accepts after the calls before. -/
abbrev Driver := List Call → Call → Bool

/-- One iteration of a loop over the indices below `stop`. -/
def sweep (driver : Driver) (call : Nat → Call) (step stop : Nat) :
    Nat × List Call → Exec Unit (Next (Nat × List Call) (Bool × List Call))
  | (index, calls) =>
    if index < stop then
      .ok (if driver calls (call index) then .more (u32 (index + step), calls ++ [call index])
        else .done (false, calls ++ [call index]))
    else .ok (.done (true, calls))

/-- The start of a location as the code computes it. -/
def startAddress (cfg : Config) (location : Nat) : Nat := u32 (cfg.address + u32 (location * cfg.size) / cfg.locations)

/-- `ARM_UC_PAL_FlashIAP_Prepare`: whether the request is accepted, with the calls. A buffer is given by
its `size_max`. -/
def prepare (cfg : Config) (flash : Flash) (driver : Driver) (location : Nat) (details buffer : Option Nat)
    (fuel : Nat) : Exec Unit (Bool × List Call) :=
  match details, buffer with
  | some size, some sizeMax =>
    -- the internal header is encoded in the buffer
    if 112 ≤ sizeMax then do
      let start := startAddress cfg location
      let stop := u32 (start + cfg.headerSize + size)
      let step := flash.sectorSize start
      let (erased, calls) ← loop (sweep driver (fun a => .erase a step) step stop) fuel (start, [])
      if erased then
        loop (sweep driver (fun index => .program (u32 (start + index)) flash.pageSize) flash.pageSize
          cfg.headerSize) fuel (0, calls)
      else pure (false, calls)
    else pure (false, [])
  | _, _ => pure (false, [])

def physicalAddress (cfg : Config) (location offset : Nat) : Nat :=
  u32 (cfg.address + u32 (location * cfg.size) / cfg.locations + cfg.headerSize + offset)

/-- `ARM_UC_PAL_FlashIAP_Write`. A fragment is given by its size. -/
def write (cfg : Config) (flash : Flash) (driver : Driver) (location offset : Nat) (buffer : Option Nat)
    (fuel : Nat) : Exec Unit (Bool × List Call) :=
  match buffer with
  | some size =>
    loop (sweep driver (fun index => .program (u32 (physicalAddress cfg location offset + index)) flash.pageSize)
      flash.pageSize size) fuel (0, [])
  | none => pure (false, [])

/-! ## Slots -/

/-- The first address of a slot, in exact arithmetic; the slot ends where the next one starts. -/
def slotStart (cfg : Config) (location : Nat) : Nat := cfg.address + location * cfg.size / cfg.locations

def Call.Inside (cfg : Config) (location : Nat) : Call → Prop
  | .erase a n => slotStart cfg location ≤ a ∧ a + n ≤ slotStart cfg (location + 1)
  | .program a n => slotStart cfg location ≤ a ∧ a + n ≤ slotStart cfg (location + 1)

def Erased (calls : List Call) (x : Nat) : Prop := ∃ a n, .erase a n ∈ calls ∧ a ≤ x ∧ x < a + n

def ErasesSectors (flash : Flash) (calls : List Call) (start stop : Nat) : Prop :=
  ∀ x, start ≤ x → x < stop → ∀ y, flash.sector x ≤ y → y < flash.sector x + flash.sectorSize x → Erased calls y

/-- With every behaviour of the driver, a request to prepare an image ends and touches only the slot, and
it is rejected or erases every sector of the image. -/
def PrepareIsolated (cfg : Config) (flash : Flash) (location : Nat) (details buffer : Option Nat) : Prop :=
  ∀ driver, ∃ fuel r, prepare cfg flash driver location details buffer fuel = .ok r ∧ (∀ c ∈ r.2, c.Inside cfg location) ∧
    (r.1 = true →
      ∀ size ∈ details, ErasesSectors flash r.2 (slotStart cfg location) (slotStart cfg location + cfg.headerSize + size))

def WriteIsolated (cfg : Config) (flash : Flash) (location offset : Nat) (buffer : Option Nat) : Prop :=
  ∀ driver, ∃ fuel r, write cfg flash driver location offset buffer fuel = .ok r ∧ ∀ c ∈ r.2, c.Inside cfg location

/-- The image with the rest of its last step fits the slot, the slot starts with a sector, and the erasing
ends behind the last sector of the image. -/
def PrepareFits (cfg : Config) (flash : Flash) (location size : Nat) : Prop :=
  let start := slotStart cfg location
  let step := flash.sectorSize start
  let stop := start + chunkCount step (cfg.headerSize + size) * step
  let last := start + cfg.headerSize + size - 1
  location * cfg.size < 4294967296 ∧ flash.sector start = start ∧
    flash.sector last + flash.sectorSize last ≤ stop ∧ stop ≤ slotStart cfg (location + 1) ∧
    start + chunkCount flash.pageSize cfg.headerSize * flash.pageSize ≤ slotStart cfg (location + 1)

def WriteFits (cfg : Config) (flash : Flash) (location offset size : Nat) : Prop :=
  slotStart cfg location ≤ physicalAddress cfg location offset ∧
    physicalAddress cfg location offset + chunkCount flash.pageSize size * flash.pageSize ≤
      slotStart cfg (location + 1)

instance (cfg : Config) (flash : Flash) (location size : Nat) :
    Decidable (PrepareFits cfg flash location size) := inferInstanceAs (Decidable (_ ∧ _ ∧ _ ∧ _ ∧ _))

instance (cfg : Config) (flash : Flash) (location offset size : Nat) :
    Decidable (WriteFits cfg flash location offset size) := inferInstanceAs (Decidable (_ ∧ _))

/-! ## Sweeps -/

section

variable {driver : Driver} {call : Nat → Call} {step stop : Nat}

/-- The calls at `count` indices from `index` on. -/
def visits (call : Nat → Call) (index step count : Nat) : List Call := (List.range count).map fun j => call (index + j * step)

theorem visits_succ (call : Nat → Call) (index step count : Nat) :
    visits call index step (count + 1) = call index :: visits call (index + step) step count := by
  simp only [visits, range_succ_eq_map, map_cons, map_map, Nat.zero_mul, Nat.add_zero]
  congr 1
  apply map_congr_left
  intro j _
  have hindex : index + (j + 1) * step = index + step + j * step := by ring
  simp only [Function.comp_apply, Nat.succ_eq_add_one, hindex]

variable {index count : Nat} {s : Nat × List Call}

theorem mem_visits {c : Call} : c ∈ visits call index step count ↔ ∃ j < count, call (index + j * step) = c := by simp [visits]

/-- A sweep that does not leave the 32 bits ends: a call is refused, or all are made. -/
theorem sweep_run (calls : List Call) (hstop : stop ≤ index + count * step)
    (hbelow : ∀ j < count, index + j * step < stop) (hword : ∀ j < count, index + (j + 1) * step < 4294967296) :
    ∃ r, loop (sweep driver call step stop) (count + 1) (index, calls) = .ok r ∧
      (∀ c ∈ r.2, c ∈ calls ++ visits call index step count) ∧
      (r.1 = true → r.2 = calls ++ visits call index step count) := by
  induction count generalizing index calls with
  | zero =>
    refine ⟨(true, calls), ?_, ?_, ?_⟩
    · have hnot : ¬ index < stop := by omega
      rw [loop, sweep, if_neg hnot]
    · simp [visits]
    · simp [visits]
  | succ count ih =>
    have hlt : index < stop := by simpa using hbelow 0 (Nat.succ_pos count)
    have hfit : u32 (index + step) = index + step := by
      have := hword 0 (Nat.succ_pos count)
      exact Nat.mod_eq_of_lt (by omega)
    cases hdriver : driver calls (call index) with
    | false =>
      refine ⟨(false, calls ++ [call index]), ?_, ?_, (by simp)⟩
      · rw [loop, sweep, if_pos hlt, hdriver]
        rfl
      intro c hc
      rw [visits_succ, ← singleton_append, ← append_assoc]
      exact mem_append_left _ hc
    | true =>
      have hnext : ∀ j, index + step + j * step = index + (j + 1) * step := fun j => by ring
      have hstop' : stop ≤ index + step + count * step := by
        rw [hnext]
        exact hstop
      obtain ⟨r, hr, hmem, hcalls⟩ := ih (calls ++ [call index]) hstop'
        (fun j hj => by rw [hnext]; exact hbelow (j + 1) (Nat.succ_lt_succ hj))
        (fun j hj => by rw [hnext]; exact hword (j + 1) (Nat.succ_lt_succ hj))
      rw [append_assoc, singleton_append, ← visits_succ] at hmem hcalls
      refine ⟨r, ?_, hmem, hcalls⟩
      rw [loop, sweep, if_pos hlt, hdriver, if_pos rfl, hfit]
      exact hr

variable {fuel : Nat} {r : Bool × List Call}

theorem sweep_keeps (hloop : loop (sweep driver call step stop) fuel s = .ok r) : ∀ c ∈ s.2, c ∈ r.2 := by
  intro c hc
  refine loop_invariant (P := fun s => c ∈ s.2) (Q := fun r => c ∈ r.2) (fun ⟨_, _⟩ s' hs hstep => ?_)
    (fun ⟨_, _⟩ r hs hstep => ?_) hc hloop
  all_goals
    rw [sweep] at hstep
    split_ifs at hstep <;> cases hstep
  · exact mem_append_left _ hs
  · exact mem_append_left _ hs
  · exact hs

theorem sweep_accepted (hloop : loop (sweep (fun _ _ => true) call step stop) fuel s = .ok r) : r.1 = true := by
  refine loop_invariant (P := fun _ => True) (Q := fun r => r.1 = true) (fun _ _ _ _ => trivial)
    (fun ⟨_, _⟩ r _ hstep => ?_) trivial hloop
  simp only [sweep, if_true] at hstep
  split_ifs at hstep <;> cases hstep
  rfl

/-- What a sweep has done if its calls keep it in the 32 bits. -/
theorem sweep_calls (Good : Nat → Prop) {calls : List Call}
    (hloop : loop (sweep (fun _ _ => true) call step stop) fuel (index, calls) = .ok r) (hgood : Good index)
    (hnext : ∀ i, Good i → call i ∈ r.2 → i + step < 4294967296 ∧ Good (i + step)) :
    ∃ count, r = (true, calls ++ visits call index step count) ∧
      (∀ j < count, index + j * step < stop) ∧ stop ≤ index + count * step := by
  induction fuel generalizing index calls with
  | zero => cases hloop
  | succ fuel ih =>
    rw [loop, sweep] at hloop
    by_cases hlt : index < stop
    · rw [if_pos hlt, if_pos rfl] at hloop
      have hmem : call index ∈ r.2 := sweep_keeps hloop (call index) (by simp)
      obtain ⟨hword, hgood'⟩ := hnext index hgood hmem
      have hfit : u32 (index + step) = index + step := Nat.mod_eq_of_lt hword
      rw [hfit] at hloop
      obtain ⟨count, hr, hbelow, hstop⟩ := ih hloop hgood'
      have hshift : ∀ j, index + step + j * step = index + (j + 1) * step := fun j => by ring
      refine ⟨count + 1, ?_, ?_, ?_⟩
      · rw [hr, visits_succ, append_assoc, singleton_append]
      · intro j hj
        cases j with
        | zero => simpa using hlt
        | succ j =>
          rw [← hshift]
          exact hbelow j (Nat.lt_of_succ_lt_succ hj)
      · rw [← hshift]
        exact hstop
    · rw [if_neg hlt] at hloop
      refine ⟨0, ?_, ?_, by omega⟩
      · cases hloop
        simp [visits]
      · exact fun j hj => absurd hj (Nat.not_lt_zero j)

theorem count_eq {n : Nat} (hstep : 0 < step) (hn : stop = index + n) (hbelow : ∀ j < count, index + j * step < stop)
    (hstop : stop ≤ index + count * step) : count = chunkCount step n := by
  apply Nat.le_antisymm
  · by_contra hlt
    have hk : chunkCount step n * step < n := by
      have := hbelow (chunkCount step n) (by omega)
      omega
    exact absurd ((lt_chunkCount_iff hstep).mpr hk) (Nat.lt_irrefl _)
  by_contra hlt
  have hk : count * step < n := (lt_chunkCount_iff hstep).mp (by omega)
  omega

theorem loop_more_fuel {ε σ ρ : Type} {f : σ → Exec ε (Next σ ρ)} {k k' : Nat} {s : σ} {r : ρ} (hk : k ≤ k')
    (h : loop f k s = .ok r) : loop f k' s = .ok r := by
  rcases (mono_loop_const f s).cases hk with he | he
  · rw [h] at he
    cases he
  · exact he.symm.trans h

end

/-! ## Requests -/

section

variable {cfg : Config} {flash : Flash} {location : Nat}

theorem headerSize_pos (cfg : Config) : 0 < cfg.headerSize := by
  have hpage := cfg.page_pos
  have : 0 < (296 + cfg.page - 1) / cfg.page := Nat.div_pos (by omega) hpage
  exact Nat.mul_pos this hpage

theorem sectorSize_pos (flash : Flash) (a : Nat) : 0 < flash.sectorSize a := by
  have := flash.sector_le a
  have := flash.lt_sector_add a
  omega

theorem slotStart_lt (hlocation : location < cfg.locations) : slotStart cfg (location + 1) < 4294967296 := by
  have hle : (location + 1) * cfg.size / cfg.locations ≤ cfg.size := by
    apply Nat.div_le_of_le_mul
    exact Nat.mul_le_mul_right cfg.size hlocation
  have := cfg.fits
  rw [slotStart]
  omega

theorem slotStart_le (cfg : Config) (location : Nat) : slotStart cfg location ≤ slotStart cfg (location + 1) := by
  apply Nat.add_le_add_left
  apply Nat.div_le_div_right
  exact Nat.mul_le_mul_right cfg.size (Nat.le_succ location)

theorem startAddress_of_lt (hlocation : location < cfg.locations) (hproduct : location * cfg.size < 4294967296) :
    startAddress cfg location = slotStart cfg location := by
  have hslot : slotStart cfg location < 4294967296 := Nat.lt_of_le_of_lt (slotStart_le cfg location) (slotStart_lt hlocation)
  rw [startAddress, u32, u32, Nat.mod_eq_of_lt hproduct]
  exact Nat.mod_eq_of_lt hslot

/-- A product that does not fit its word makes an address before the slot. -/
theorem product_of_le (hle : slotStart cfg location ≤ startAddress cfg location) : location * cfg.size < 4294967296 := by
  by_contra hproduct
  have hdrop : u32 (location * cfg.size) + cfg.locations ≤ location * cfg.size := by
    have := cfg.locations_lt
    rw [u32]
    omega
  have hquotient : u32 (location * cfg.size) / cfg.locations < location * cfg.size / cfg.locations := by
    calc u32 (location * cfg.size) / cfg.locations
        < u32 (location * cfg.size) / cfg.locations + 1 := Nat.lt_succ_self _
      _ = (u32 (location * cfg.size) + cfg.locations) / cfg.locations := (Nat.add_div_right _ cfg.locations_pos).symm
      _ ≤ location * cfg.size / cfg.locations := Nat.div_le_div_right hdrop
  have hword : startAddress cfg location ≤ cfg.address + u32 (location * cfg.size) / cfg.locations := Nat.mod_le _ _
  rw [slotStart] at hle
  omega

variable {step n start size sizeMax offset : Nat} {c : Call}

theorem last_step {stop : Nat} (hn : 0 < n) (hstep : 0 < step)
    (h : ∀ j < chunkCount step n, j * step + step ≤ stop) : chunkCount step n * step ≤ stop := by
  have hpos : 0 < chunkCount step n := (lt_chunkCount_iff hstep).mpr (by omega)
  have hlast := h (chunkCount step n - 1) (by omega)
  have hsucc : (chunkCount step n - 1) * step + step = chunkCount step n * step := by
    rw [← Nat.succ_mul]
    congr 1
    omega
  omega

theorem erased_of_visits {calls : List Call} {count y : Nat} (hstep : 0 < step)
    (hcalls : ∀ c ∈ visits (fun a => .erase a step) start step count, c ∈ calls) (hy : start ≤ y)
    (hlt : y < start + count * step) : Erased calls y := by
  have hj : (y - start) / step < count := (Nat.div_lt_iff_lt_mul hstep).mpr (by omega)
  have hdiv := Nat.div_add_mod (y - start) step
  have hmod := Nat.mod_lt (y - start) hstep
  have hmul : step * ((y - start) / step) = (y - start) / step * step := Nat.mul_comm _ _
  refine ⟨start + (y - start) / step * step, step, ?_, ?_, ?_⟩
  · exact hcalls _ (mem_visits.mpr ⟨(y - start) / step, hj, rfl⟩)
  · omega
  · omega

/-- The sectors of an area that starts with a sector are in it up to the end of the last one. -/
theorem sector_bounds {x : Nat} (last : Nat) (hsector : flash.sector start = start) (hx : start ≤ x) (hlast : x ≤ last) :
    start ≤ flash.sector x ∧ flash.sector x + flash.sectorSize x ≤ flash.sector last + flash.sectorSize last := by
  have hxle := flash.sector_le x
  have hxlt := flash.lt_sector_add x
  constructor
  · by_contra hlt
    have := flash.sector_eq x start (by omega) (by omega)
    omega
  by_cases hin : last < flash.sector x + flash.sectorSize x
  · rw [flash.sector_eq x last (by omega) hin, flash.sectorSize_eq x last (by omega) hin]
  · have := flash.lt_sector_add last
    omega

/-- The steps over `n` bytes cover them, and each begins below their end. -/
theorem le_chunkCount_mul (hstep : 0 < step) : n ≤ chunkCount step n * step := by
  by_contra hlt
  exact absurd ((lt_chunkCount_iff hstep).mpr (Nat.lt_of_not_le hlt)) (Nat.lt_irrefl _)

/-- A sweep over `n` bytes from an index on, with room for its last step. -/
theorem sweep_chunks (driver : Driver) (call : Nat → Call) (index : Nat) (calls : List Call)
    (hstep : 0 < step) (hroom : index + chunkCount step n * step < 4294967296) :
    ∃ r, loop (sweep driver call step (index + n)) (chunkCount step n + 1) (index, calls) = .ok r ∧
      (∀ c ∈ r.2, c ∈ calls ++ visits call index step (chunkCount step n)) ∧
      (r.1 = true → r.2 = calls ++ visits call index step (chunkCount step n)) := by
  apply sweep_run
  · have := le_chunkCount_mul (n := n) hstep
    omega
  · intro j hj
    have := (lt_chunkCount_iff hstep).mp hj
    omega
  intro j hj
  have : (j + 1) * step ≤ chunkCount step n * step := Nat.mul_le_mul_right step hj
  omega

theorem step_le {j : Nat} (hj : j < chunkCount step n) : j * step + step ≤ chunkCount step n * step := by
  rw [← Nat.succ_mul]
  exact Nat.mul_le_mul_right step hj

theorem erases_inside (hstop : slotStart cfg location + chunkCount step n * step ≤ slotStart cfg (location + 1))
    (hc : c ∈ visits (fun a => .erase a step) (slotStart cfg location) step (chunkCount step n)) :
    c.Inside cfg location := by
  obtain ⟨j, hj, rfl⟩ := mem_visits.mp hc
  have := step_le hj
  constructor <;> omega

theorem programs_inside {address : Nat} (hlocation : location < cfg.locations) (hlow : slotStart cfg location ≤ address)
    (hstop : address + chunkCount flash.pageSize n * flash.pageSize ≤ slotStart cfg (location + 1))
    (hc : c ∈ visits (fun index => .program (u32 (address + index)) flash.pageSize) 0 flash.pageSize
      (chunkCount flash.pageSize n)) : c.Inside cfg location := by
  obtain ⟨j, hj, rfl⟩ := mem_visits.mp hc
  have := step_le hj
  have hend := slotStart_lt hlocation
  have hfit : u32 (address + (0 + j * flash.pageSize)) = address + j * flash.pageSize := by
    rw [Nat.zero_add]
    exact Nat.mod_eq_of_lt (by omega)
  constructor <;> omega

theorem prepareIsolated_of_fits (hlocation : location < cfg.locations) (hmax : 112 ≤ sizeMax)
    (h : PrepareFits cfg flash location size) : PrepareIsolated cfg flash location (some size) (some sizeMax) := by
  obtain ⟨hproduct, hsector, hlast, hstop, hheader⟩ := h
  intro driver
  have hstart := startAddress_of_lt hlocation hproduct
  have hend := slotStart_lt hlocation
  have hstep := sectorSize_pos flash (slotStart cfg location)
  have herases := fun c => erases_inside (c := c) hstop
  have hprograms := fun c => programs_inside (c := c) hlocation le_rfl hheader
  generalize hstartdef : slotStart cfg location = start at *
  generalize hstepdef : flash.sectorSize start = step at *
  have hcover := le_chunkCount_mul (n := cfg.headerSize + size) hstep
  have hword : u32 (start + cfg.headerSize + size) = start + (cfg.headerSize + size) := by
    rw [Nat.add_assoc]
    exact Nat.mod_eq_of_lt (by omega)
  obtain ⟨r, hr, hmem, hcalls⟩ := sweep_chunks driver (fun a => .erase a step) start [] hstep (Nat.lt_of_le_of_lt hstop hend)
  have hrun : ∀ k, chunkCount step (cfg.headerSize + size) + 1 ≤ k →
      prepare cfg flash driver location (some size) (some sizeMax) k =
        if r.1 = true then
          loop (sweep driver (fun index => .program (u32 (start + index)) flash.pageSize) flash.pageSize
            cfg.headerSize) k (0, r.2)
        else pure (false, r.2) := by
    intro k hk
    rw [prepare, if_pos hmax, hstart]
    dsimp only
    rw [hword, hstepdef, loop_more_fuel hk hr]
    rfl
  cases haccepted : r.1 with
  | false =>
    refine ⟨chunkCount step (cfg.headerSize + size) + 1, (false, r.2), ?_, ?_, (by simp)⟩
    · rw [hrun _ le_rfl, haccepted]
      rfl
    · exact fun c hc => herases c (hmem c hc)
  | true =>
    obtain ⟨r', hr', hmem', hcalls'⟩ := sweep_chunks driver
      (fun index => .program (u32 (start + index)) flash.pageSize) 0 r.2 flash.pageSize_pos
      (n := cfg.headerSize) (by omega)
    rw [Nat.zero_add] at hr'
    refine ⟨max (chunkCount step (cfg.headerSize + size) + 1) (chunkCount flash.pageSize cfg.headerSize + 1), r', ?_, ?_, ?_⟩
    · rw [hrun _ (Nat.le_max_left _ _), if_pos haccepted]
      exact loop_more_fuel (Nat.le_max_right _ _) hr'
    · intro c hc
      rcases mem_append.mp (hmem' c hc) with hc | hc
      · exact herases c (hmem c hc)
      · exact hprograms c hc
    intro haccepted' size' hsize x hx hxlt y hy hylt
    obtain rfl := Option.mem_some_iff.mp hsize
    obtain ⟨hlow, hhigh⟩ := sector_bounds (start + cfg.headerSize + size - 1) hsector hx (by omega)
    rw [hcalls' haccepted', hcalls haccepted]
    apply erased_of_visits hstep (fun c hc => mem_append_left _ hc) (by omega)
    omega

/-- Pages that were programmed with every call in the slot: no step leaves the words, since each one ends
in the slot. -/
theorem programs_fit {address fuel : Nat} {calls : List Call} {r : Bool × List Call}
    (hlocation : location < cfg.locations) (hn : 0 < n) (hword : address < 4294967296)
    (hloop : loop (sweep (fun _ _ => true) (fun index => .program (u32 (address + index)) flash.pageSize)
      flash.pageSize n) fuel (0, calls) = .ok r) (hinside : ∀ c ∈ r.2, c.Inside cfg location) :
    r = (true, calls ++ visits (fun index => .program (u32 (address + index)) flash.pageSize) 0
        flash.pageSize (chunkCount flash.pageSize n)) ∧ slotStart cfg location ≤ address ∧
      address + chunkCount flash.pageSize n * flash.pageSize ≤ slotStart cfg (location + 1) := by
  have hend := slotStart_lt hlocation
  obtain ⟨count, rfl, hbelow, hstop⟩ := sweep_calls (fun i => address + i < 4294967296) hloop (by omega)
    fun i hi hmem => by
      have := hinside _ hmem
      rw [u32, Nat.mod_eq_of_lt hi, Call.Inside] at this
      omega
  obtain rfl := count_eq flash.pageSize_pos (Nat.zero_add n).symm hbelow hstop
  have hsteps : ∀ j < chunkCount flash.pageSize n,
      slotStart cfg location ≤ address + j * flash.pageSize ∧
        address + j * flash.pageSize + flash.pageSize ≤ slotStart cfg (location + 1) := by
    intro j
    induction j with
    | zero =>
      intro hj
      have := hinside _ (mem_append_right _ (mem_visits.mpr ⟨0, hj, rfl⟩))
      rw [u32, Nat.mod_eq_of_lt (by omega), Call.Inside] at this
      omega
    | succ j ih =>
      intro hj
      have hsucc : (j + 1) * flash.pageSize = j * flash.pageSize + flash.pageSize := Nat.succ_mul _ _
      have := hinside _ (mem_append_right _ (mem_visits.mpr ⟨j + 1, hj, rfl⟩))
      rw [u32, Nat.mod_eq_of_lt (by omega), Call.Inside] at this
      omega
  have hfirst := hsteps 0 ((lt_chunkCount_iff flash.pageSize_pos).mpr (by omega))
  have hroom : chunkCount flash.pageSize n * flash.pageSize ≤ slotStart cfg (location + 1) - address := by
    apply last_step hn flash.pageSize_pos
    intro j hj
    have := hsteps j hj
    omega
  exact ⟨rfl, by omega, by omega⟩

/-- A request that is accepted by every driver, and keeps to its slot. -/
theorem fits_of_prepareIsolated (hlocation : location < cfg.locations)
    (hmax : 112 ≤ sizeMax) (h : PrepareIsolated cfg flash location (some size) (some sizeMax)) :
    PrepareFits cfg flash location size := by
  obtain ⟨fuel, r, hprepare, hinside, herases⟩ := h fun _ _ => true
  have hend := slotStart_lt hlocation
  have hpos := headerSize_pos cfg
  rw [prepare, if_pos hmax] at hprepare
  obtain ⟨⟨erased, calls⟩, herase, hprogram⟩ := bind_eq_ok hprepare
  obtain rfl : erased = true := sweep_accepted herase
  have hcalls : ∀ c ∈ calls, c ∈ r.2 := sweep_keeps hprogram
  -- the header is programmed from the computed address on
  have hword : startAddress cfg location < 4294967296 := Nat.mod_lt _ (by decide)
  obtain ⟨hr, hfirst, hheader⟩ := programs_fit hlocation hpos hword hprogram hinside
  have hproduct := product_of_le hfirst
  have hstart := startAddress_of_lt hlocation hproduct
  rw [hstart] at herase hprogram hheader hr
  have herases := herases (sweep_accepted hprogram) size rfl
  rw [PrepareFits]
  generalize hstartdef : slotStart cfg location = start at *
  generalize hstepdef : flash.sectorSize start = step at *
  have hstep : 0 < step := hstepdef ▸ sectorSize_pos flash start
  -- what is erased is in the slot, so the image is
  have hslot : ∀ y, Erased r.2 y → start ≤ y ∧ y < slotStart cfg (location + 1) := by
    rintro y ⟨a, n, hmem, ha, hy⟩
    have := hinside _ hmem
    rw [Call.Inside, hstartdef] at this
    omega
  have hlastsector : ∀ x, start ≤ x → x < start + cfg.headerSize + size → Erased r.2 x := fun x hx hlt =>
    herases x hx hlt x (flash.sector_le x) (flash.lt_sector_add x)
  have himage := (hslot _ (hlastsector (start + cfg.headerSize + size - 1) (by omega) (by omega))).2
  have hword : u32 (start + cfg.headerSize + size) = start + cfg.headerSize + size := Nat.mod_eq_of_lt (by omega)
  rw [hword] at herase
  obtain ⟨count, hcount, hbelow, hstop⟩ := sweep_calls (fun _ => True) herase trivial fun i _ hmem => by
    have := hinside _ (hcalls _ hmem)
    rw [Call.Inside, hstartdef] at this
    exact ⟨by omega, trivial⟩
  rw [nil_append] at hcount
  obtain ⟨-, rfl⟩ := Prod.mk.inj hcount
  obtain rfl := count_eq hstep (Nat.add_assoc _ _ _) hbelow hstop
  rw [hr] at hinside herases hslot
  refine ⟨hproduct, ?_, ?_, ?_, hheader⟩
  · have herased := herases start le_rfl (by omega) (flash.sector start) le_rfl (by omega)
    have := flash.sector_le start
    have := (hslot _ herased).1
    omega
  · have hsize := sectorSize_pos flash (start + cfg.headerSize + size - 1)
    obtain ⟨a, n, hmem, ha, hlt⟩ := herases (start + cfg.headerSize + size - 1) (by omega) (by omega)
      (flash.sector (start + cfg.headerSize + size - 1) +
        flash.sectorSize (start + cfg.headerSize + size - 1) - 1) (by omega) (by omega)
    rcases mem_append.mp hmem with hmem | hmem
    · obtain ⟨j, hj, heq⟩ := mem_visits.mp hmem
      obtain ⟨rfl, rfl⟩ := Call.erase.inj heq
      have := step_le hj
      omega
    · obtain ⟨j, hj, heq⟩ := mem_visits.mp hmem
      cases heq
  · have hroom : chunkCount step (cfg.headerSize + size) * step ≤ slotStart cfg (location + 1) - start := by
      apply last_step (by omega) hstep
      intro j hj
      have := hinside _ (mem_append_left _ (mem_visits.mpr ⟨j, hj, rfl⟩))
      rw [Call.Inside, hstartdef] at this
      omega
    omega

/-! ## Fragments -/

theorem writeIsolated_of_fits (hlocation : location < cfg.locations)
    (h : WriteFits cfg flash location offset size) : WriteIsolated cfg flash location offset (some size) := by
  obtain ⟨hlow, hhigh⟩ := h
  intro driver
  have hend := slotStart_lt hlocation
  obtain ⟨r, hr, hmem, -⟩ := sweep_chunks driver
    (fun index => .program (u32 (physicalAddress cfg location offset + index)) flash.pageSize) 0 []
    flash.pageSize_pos (n := size) (by omega)
  rw [Nat.zero_add] at hr
  refine ⟨chunkCount flash.pageSize size + 1, r, hr, ?_⟩
  exact fun c hc => programs_inside hlocation hlow hhigh (hmem c hc)

theorem fits_of_writeIsolated (hlocation : location < cfg.locations) (hsize : 0 < size)
    (h : WriteIsolated cfg flash location offset (some size)) : WriteFits cfg flash location offset size := by
  obtain ⟨fuel, r, hwrite, hinside⟩ := h fun _ _ => true
  exact (programs_fit hlocation hsize (Nat.mod_lt _ (by decide)) hwrite hinside).2

end

/-! ## Isolation -/

/-- Which requests keep to their slot: those without details or buffer are rejected, and an empty fragment
programs nothing. -/
theorem flash_isolated_iff (cfg : Config) (flash : Flash) (location : Nat) (details buffer : Option Nat)
    (offset : Nat) (fragment : Option Nat) (hlocation : location < cfg.locations) :
    (PrepareIsolated cfg flash location details buffer ↔
      ∀ size ∈ details, ∀ sizeMax ∈ buffer, 112 ≤ sizeMax → PrepareFits cfg flash location size) ∧
    (WriteIsolated cfg flash location offset fragment ↔
      ∀ size ∈ fragment, 0 < size → WriteFits cfg flash location offset size) := by
  constructor
  · constructor
    · intro h size hsize sizeMax hmax hle
      obtain rfl := Option.mem_def.mp hsize
      obtain rfl := Option.mem_def.mp hmax
      exact fits_of_prepareIsolated hlocation hle h
    · intro h
      cases details with
      | none => exact fun driver => ⟨0, (false, []), rfl, (by simp), (by simp)⟩
      | some size =>
        cases buffer with
        | none => exact fun driver => ⟨0, (false, []), rfl, (by simp), (by simp)⟩
        | some sizeMax =>
          by_cases hle : 112 ≤ sizeMax
          · exact prepareIsolated_of_fits hlocation hle (h size rfl sizeMax rfl hle)
          intro driver
          refine ⟨0, (false, []), ?_, (by simp), (by simp)⟩
          rw [prepare, if_neg hle]
          rfl
  · constructor
    · intro h size hsize hpos
      obtain rfl := Option.mem_def.mp hsize
      exact fits_of_writeIsolated hlocation hpos h
    · intro h
      cases fragment with
      | none => exact fun driver => ⟨0, (false, []), rfl, fun c hc => nomatch hc⟩
      | some size =>
        rcases Nat.eq_zero_or_pos size with rfl | hpos
        · exact fun driver => ⟨1, (true, []), rfl, fun c hc => nomatch hc⟩
        · exact writeIsolated_of_fits hlocation (h size rfl hpos)

/-- A flash with sectors of 1024 bytes and pages of 8 bytes. -/
def evenFlash : Flash where
  sector a := a / 1024 * 1024
  sectorSize _ := 1024
  pageSize := 8
  pageSize_pos := Nat.zero_lt_succ _
  sector_le a := Nat.div_mul_le_self a 1024
  lt_sector_add a := by omega
  sector_eq a b ha hb := by omega
  sectorSize_eq _ _ _ _ := rfl

def twoSlots : Config := ⟨65536, 4096, 2, 8, Nat.zero_lt_succ _, by decide, Nat.zero_lt_succ _, by decide⟩

theorem flash_isolated_iff_fits : PrepareIsolated twoSlots evenFlash 1 (some 1500) (some 512) ∧
      WriteIsolated twoSlots evenFlash 1 1024 (some 512) := by
  have h := flash_isolated_iff twoSlots evenFlash 1 (some 1500) (some 512) 1024 (some 512) (by decide)
  constructor
  · apply h.1.mpr
    intro size hsize sizeMax _ _
    obtain rfl := Option.mem_some_iff.mp hsize
    decide
  · apply h.2.mpr
    intro size hsize _
    obtain rfl := Option.mem_some_iff.mp hsize
    decide

/-- An image that is larger than the first slot: the erasing goes on into the second one, and the request
is accepted. -/
theorem flash_not_isolated :
    prepare twoSlots evenFlash (fun _ _ => true) 0 (some 2500) (some 512) 40 =
      .ok (true, [.erase 65536 1024, .erase 66560 1024, .erase 67584 1024] ++
        (List.range 37).map fun i => .program (65536 + 8 * i) 8) ∧
    slotStart twoSlots 1 = 67584 ∧ ¬ PrepareIsolated twoSlots evenFlash 0 (some 2500) (some 512) := by
  refine ⟨by decide, by decide, ?_⟩
  intro h
  have hfits := fits_of_prepareIsolated (by decide : 0 < twoSlots.locations) (by decide) h
  revert hfits
  decide

end MbedCloud.Update.FlashIap

