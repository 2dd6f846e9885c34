import Mathlib.Data.List.GetD
import MbedCloud.Lib.Word

/-!
# Writing to the internal flash

`pal_internalFlashWrite` writes whole pages directly, and the rest of the data in a page that is
filled up with `0xFF`. A call of the platform is its address and its bytes, and programs exactly
these. A `size_t` has 32 bits.
-/

namespace MbedCloud.Pal.InternalFlash

open List

inductive Status where
  | success
  | nullPtrReceived
  | bufferAddressNotAligned
  | wrongSize
  | flashZeroSize
  | addressNotAligned
  | crossingSectors
  | noMemory
  | mutexReleaseError
  | platform (code : Nat)
  deriving DecidableEq

abbrev Flash := Nat → UInt8

structure Call where
  address : Nat
  data : Bytes
  deriving DecidableEq

structure Platform where
  platPageSize : Nat
  sectorSize : Nat → Nat
  wait : Status
  write : List Call → Call → Status
  alloc : Bool
  release : Bool

/-- `pal_internalFlashGetPageSize`, with `PAL_MAX_PAGE_SIZE`. -/
def Platform.pageSize (p : Platform) : Nat := if p.platPageSize > 16 then 16 else p.platPageSize

def writePages (p : Platform) (size address : Nat) (buffer : Bytes) : Status × List Call :=
  let page := p.pageSize
  let alignmentLeft := size % page
  let whole : Call := ⟨address, buffer.take (size - alignmentLeft)⟩
  let r := if size > page then (p.write [] whole, [whole]) else (Status.success, [])
  if r.1 = .success ∧ alignmentLeft ≠ 0 then
    if p.alloc then
      let last : Call := ⟨u32 (address + (size - alignmentLeft)),
        (buffer.drop (size - alignmentLeft)).take alignmentLeft ++ List.replicate (page - alignmentLeft) 0xFF⟩
      (p.write r.2 last, r.2 ++ [last])
    else (.noMemory, r.2)
  else r

/-- `pal_internalFlashWrite`, with the calls of the platform. -/
def internalFlashWrite (p : Platform) (size address : Nat) (buffer : Option Bytes) : Status × List Call :=
  match buffer with
  | none => (.nullPtrReceived, [])
  | some buffer =>
    let page := p.pageSize
    let sector := p.sectorSize address
    if address % 4 ≠ 0 then (.bufferAddressNotAligned, [])
    else if size = 0 then (.wrongSize, [])
    else if page = 0 ∨ sector = 0 then (.flashZeroSize, [])
    else if address % page ≠ 0 then (.addressNotAligned, [])
    else if u32 (address % sector + size) > sector then (.crossingSectors, [])
    else if p.wait ≠ .success then (p.wait, [])
    else
      let r := writePages p size address buffer
      (if p.release then r.1 else .mutexReleaseError, r.2)

def Call.program (f : Flash) (c : Call) : Flash :=
  fun x => if c.address ≤ x ∧ x < c.address + c.data.length then c.data.getD (x - c.address) 0 else f x

def padded (page : Nat) (data : Bytes) : Bytes := data ++ List.replicate ((page - data.length % page) % page) 0xFF

/-- The calls leave the pages of the data as they should be, and program nothing else. -/
def Programs (page address : Nat) (data : Bytes) (calls : List Call) : Prop :=
  (∀ (f : Flash) (i : Nat), i < (padded page data).length →
    calls.foldl Call.program f (address + i) = (padded page data).getD i 0) ∧
  ∀ c ∈ calls, address ≤ c.address ∧ c.address + c.data.length ≤ address + (padded page data).length

variable {p : Platform} {address : Nat} {data : Bytes} {c : Call} {size page : Nat}

theorem program_at (f : Flash) {i : Nat} (hi : i < c.data.length) : c.program f (c.address + i) = c.data.getD i 0 := by
  simp [Call.program, hi]

theorem program_below (f : Flash) {x : Nat} (hx : x < c.address) : c.program f x = f x := by
  apply if_neg
  omega

theorem internalFlashWrite_success (hok : (internalFlashWrite p size address (some data)).1 = .success) :
    size ≠ 0 ∧ p.pageSize ≠ 0 ∧ (writePages p size address data).1 = .success ∧
      (internalFlashWrite p size address (some data)).2 = (writePages p size address data).2 := by
  unfold internalFlashWrite at hok ⊢
  dsimp only at hok ⊢
  split_ifs at hok ⊢ with h1 h2 h3 h4 h5 h6
  · exact absurd hok h6
  · push Not at h3
    exact ⟨h2, h3.1, hok, rfl⟩

theorem writePages_calls (hok : (writePages p size address data).1 = .success) :
    (writePages p size address data).2 = (if size > p.pageSize then [⟨address, data.take (size - size % p.pageSize)⟩] else []) ++
      if size % p.pageSize = 0 then [] else
        [⟨u32 (address + (size - size % p.pageSize)), (data.drop (size - size % p.pageSize)).take (size % p.pageSize) ++
          List.replicate (p.pageSize - size % p.pageSize) 0xFF⟩] := by
  unfold writePages at hok ⊢
  dsimp only at hok ⊢
  split_ifs at hok ⊢ <;> simp_all

theorem programs_one : Programs page address data [⟨address, padded page data⟩] := by
  refine ⟨fun f i hi => program_at f hi, fun c hc => ?_⟩
  obtain rfl := mem_singleton.mp hc
  exact ⟨Nat.le_refl _, Nat.le_refl _⟩

theorem programs_two {front rest : Bytes} (hdata : padded page data = front ++ rest) :
    Programs page address data [⟨address, front⟩, ⟨address + front.length, rest⟩] := by
  unfold Programs
  rw [hdata, length_append]
  constructor
  · intro f i hi
    rw [foldl_cons, foldl_cons, foldl_nil]
    by_cases hfront : i < front.length
    · rw [program_below _ (show address + i < address + front.length by omega), program_at f hfront, getD_append _ _ _ _ hfront]
    obtain ⟨j, rfl⟩ := Nat.exists_eq_add_of_le (Nat.le_of_not_lt hfront)
    rw [← Nat.add_assoc, program_at (c := ⟨address + front.length, rest⟩) _ (show j < rest.length by omega),
      getD_append_right _ _ _ _ (by omega), Nat.add_sub_cancel_left]
  · intro c hc
    simp only [mem_cons, not_mem_nil, or_false] at hc
    rcases hc with rfl | rfl
    · exact ⟨Nat.le_refl _, by dsimp only; omega⟩
    · exact ⟨Nat.le_add_right _ _, by dsimp only; omega⟩

/-- Data of one page is not written at all. -/
theorem not_programs_page (hpage : page ≠ 0) (hlen : data.length = page) : ¬ Programs page address data [] := by
  rintro ⟨hholds, -⟩
  have hpos : 0 < (padded page data).length := by
    rw [padded, length_append]
    omega
  have hfirst := hholds (fun _ => (padded page data).getD 0 0 + 1) 0 hpos
  simp at hfirst

/-- A success programs the data and the rest of its last page, and nothing else, exactly if the data is not
one page long and its last page does not start behind the address space. -/
theorem internalFlashWrite_programs_iff (p : Platform) (address : Nat) (data : List UInt8)
    (haddress : address < 4294967296) (hlen : data.length < 4294967296)
    (hok : (internalFlashWrite p data.length address (some data)).1 = .success) :
    Programs p.pageSize address data (internalFlashWrite p data.length address (some data)).2 ↔
      data.length ≠ p.pageSize ∧
        (data.length % p.pageSize = 0 ∨ address + (data.length - data.length % p.pageSize) < 4294967296) := by
  obtain ⟨hsize, hpage, hpages, hcalls⟩ := internalFlashWrite_success hok
  rw [hcalls, writePages_calls hpages]
  generalize p.pageSize = page at hpage ⊢
  by_cases hone : data.length = page
  · rw [if_neg (by omega), hone, Nat.mod_self, if_pos rfl]
    simp [not_programs_page hpage hone]
  by_cases hzero : data.length % page = 0
  · -- whole pages
    have hmore : data.length > page := by
      by_contra hless
      rw [Nat.mod_eq_of_lt (by omega)] at hzero
      omega
    have hdata : padded page data = data := by simp [padded, hzero]
    have hone' : Programs page address data [⟨address, padded page data⟩] := programs_one
    rw [hdata] at hone'
    simpa [hmore, hzero, hone] using hone'
  have hpad : padded page data = data.take (data.length - data.length % page) ++
      ((data.drop (data.length - data.length % page)).take (data.length % page) ++
        .replicate (page - data.length % page) 0xFF) := by
    rw [take_of_length_le (l := data.drop _) (by rw [length_drop]; omega), ← append_assoc,
      take_append_drop, padded, Nat.mod_eq_of_lt (show page - data.length % page < page by omega)]
  rw [if_neg hzero]
  constructor
  · rintro ⟨-, hinside⟩
    refine ⟨hone, .inr ?_⟩
    have hlast := (hinside _ (mem_append_right _ (.head _))).1
    dsimp only at hlast
    unfold u32 at hlast
    omega
  rintro ⟨-, hfits⟩
  rw [u32, Nat.mod_eq_of_lt (hfits.resolve_left hzero)]
  by_cases hmore : data.length > page
  · have htwo : Programs page address data [⟨address, _⟩, ⟨address + _, _⟩] := programs_two hpad
    simpa [hmore] using htwo
  -- less than a page
  have hall : data.length % page = data.length := Nat.mod_eq_of_lt (by omega)
  have hone' : Programs page address data [⟨address, padded page data⟩] := programs_one
  rw [hpad] at hone'
  simpa [hmore, hall] using hone'

/-- A platform that accepts everything, with pages of 8 bytes in sectors of 1024. -/
def accepting : Platform := ⟨8, fun _ => 1024, .success, fun _ _ => .success, true, true⟩

theorem internalFlashWrite_programs_five :
    Programs 8 4096 [1, 2, 3, 4, 5] (internalFlashWrite accepting 5 4096 (some [1, 2, 3, 4, 5])).2 := by
  apply (internalFlashWrite_programs_iff accepting 4096 [1, 2, 3, 4, 5] (by decide) (by decide) rfl).mpr
  decide

/-- Eight bytes for one page: success, without a call of the platform. -/
theorem internalFlashWrite_page_unwritten :
    internalFlashWrite accepting 8 4096 (some [1, 2, 3, 4, 5, 6, 7, 8]) = (.success, []) ∧
      ¬ Programs 8 4096 [1, 2, 3, 4, 5, 6, 7, 8] [] :=
  ⟨rfl, not_programs_page (by decide) rfl⟩

end MbedCloud.Pal.InternalFlash

