import Mathlib.Algebra.Order.Ring.Nat
import MbedCloud.Heap.NsList

/-!
# The dynamic memory of `nsdynmemLIB.c`

A heap is a sequence of blocks. A block starts and ends with a word that holds the number of words
between them, negated if the block is free. The free blocks that have room for the two pointers of a `hole_t`
are in the list `holes_list`, whose links are stored in the blocks.

Integers and pointers have 32 bits, and addresses count words; only `ns_mem_init` is given the address
of a byte. A loop over the list goes on as long as there are entries; here it ends with no result after as many
entries as the heap has words.
-/

namespace MbedCloud.Heap

open Lib

/-- `heap_fail_t`, without the value that is not used any more. -/
inductive HeapFail where
  | doubleFree
  | allocateSizeNotValid
  | pointerNotValid
  | heapSectorCorrupted
  | heapSectorUnitialized
  deriving DecidableEq

/-- `mem_stat_t` -/
structure MemStat where
  heapSectorSize : UInt16
  heapSectorAllocCnt : UInt16
  heapSectorAllocatedBytes : UInt16
  heapSectorAllocatedBytesMax : UInt16
  heapAllocTotalBytes : UInt32
  heapAllocFailCnt : UInt32
  deriving DecidableEq

/-- `ns_mem_book_t` -/
structure Book where
  heapMain : Nat
  /-- The last word of the heap. -/
  heapMainEnd : Nat
  /-- The address of the head of the list of holes. -/
  holesList : Nat
  /-- In bytes. -/
  heapSize : UInt16
  memStatInfo : Option MemStat
  deriving DecidableEq

structure State where
  book : Book
  mem : Mem
  /-- The calls of the failure callback. -/
  failures : List HeapFail

namespace State

def heapFailure (s : State) (reason : HeapFail) : State := { s with failures := s.failures ++ [reason] }

def mapStat (s : State) (g : MemStat → MemStat) : State :=
  { s with book := { s.book with memStatInfo := s.book.memStatInfo.map g } }

end State

/-! ## Initialisation -/

/-- `sizeof(ns_mem_word_size_t)` -/
def wordSize : Nat := 4

/-- `sizeof(ns_mem_book_t)` -/
def bookSize : Nat := 28

/-- `HOLE_T_SIZE` -/
def holeTSize : Nat := 2

def padding (n : Nat) : Nat := if n % wordSize ≠ 0 then wordSize - n % wordSize else 0

/-- `ns_mem_init` for the bytes from `heap` on. The book takes seven words, the head of the list is the
fifth and sixth of them. -/
def nsMemInit (heap : Nat) (hSize : UInt16) (infoPtr : Bool) (m : Mem) : State :=
  let hSize := hSize - UInt16.ofNat (padding heap)
  let heap := heap + padding heap
  let hSize := hSize - UInt16.ofNat (padding hSize.toNat)
  let heapSize := hSize - UInt16.ofNat bookSize
  let heapMain := heap / wordSize + 7
  let holesList := heap / wordSize + 4
  let tempInt : Int := (heapSize.toNat / wordSize : Nat) - 2
  let ptr := ((heapMain : Int) + (tempInt + 1)).toNat
  let m := (m.write heapMain (-tempInt)).write ptr (-tempInt)
  let m := nsListAddToStart holesList (heapMain + 1) (nsListInit holesList m)
  ⟨⟨heapMain, ptr, holesList, heapSize, if infoPtr then some ⟨heapSize, 0, 0, 0, 0, 0⟩ else none⟩, m, []⟩

/-! ## Statistics -/

def allocOk (size : UInt16) (st : MemStat) : MemStat :=
  let allocated := st.heapSectorAllocatedBytes + size
  { st with
    heapSectorAllocCnt := st.heapSectorAllocCnt + 1
    heapSectorAllocatedBytes := allocated
    heapSectorAllocatedBytesMax :=
      if st.heapSectorAllocatedBytesMax < allocated then allocated else st.heapSectorAllocatedBytesMax
    heapAllocTotalBytes := st.heapAllocTotalBytes + UInt32.ofNat size.toNat }

def allocFail (st : MemStat) : MemStat := { st with heapAllocFailCnt := st.heapAllocFailCnt + 1 }

def freed (size : UInt16) (st : MemStat) : MemStat :=
  { st with
    heapSectorAllocCnt := st.heapSectorAllocCnt - 1
    heapSectorAllocatedBytes := st.heapSectorAllocatedBytes - size }

/-- The bytes of a block with its two length words, as the statistics get them. -/
def blockBytes (dataSize : Nat) : UInt16 := UInt16.ofNat ((dataSize + 2) * wordSize)

/-! ## Allocation -/

inductive Direction where
  | up
  | down
  deriving DecidableEq

/-- The words for a number of bytes, as `convert_allocation_size` returns them. -/
def convertAllocationSize (requestedBytes : UInt16) : Nat := (requestedBytes.toNat + wordSize - 1) / wordSize

/-- The failures that `convert_allocation_size` reports. Its difference is unsigned. -/
def State.checkAllocationSize (s : State) (requestedBytes : UInt16) : State :=
  if s.book.heapMain = 0 then s.heapFailure .heapSectorUnitialized
  else if requestedBytes < 1 then s.heapFailure .allocateSizeNotValid
  else if requestedBytes.toNat > (s.book.heapSize.toNat + 2 ^ 32 - 2 * wordSize) % 2 ^ 32 then s.heapFailure .allocateSizeNotValid
  else s

/-- `ns_mem_block_validate` -/
def nsMemBlockValidate (m : Mem) (blockStart : Nat) : Bool :=
  m blockStart ≠ 0 ∧ m blockStart = m (blockStart + 1 + (m blockStart).natAbs)

inductive Search where
  | found (block : Nat)
  | exhausted
  | corrupted
  /-- The loop goes on. -/
  | unfinished
  deriving DecidableEq

def searchHoles (m : Mem) (next : Nat → Nat) (dataSize : Nat) : Nat → Nat → Search
  | 0, _ => .unfinished
  | fuel + 1, curHole =>
    if curHole = 0 then .exhausted
    else
      let p := curHole - 1
      if nsMemBlockValidate m p = false ∨ m p ≥ 0 then .corrupted
      else if -(m p) ≥ dataSize then .found p
      else searchHoles m next dataSize fuel (next curHole)

def Book.words (b : Book) : Nat := b.heapMainEnd + 1 - b.heapMain

def findHole (s : State) (dataSize : Nat) : Direction → Search
  | .up => searchHoles s.mem (fun hole => nsListGetNext hole s.mem) dataSize (s.book.words + 1)
      (nsListGetFirst s.book.holesList s.mem)
  | .down => searchHoles s.mem (fun hole => nsListGetPrevious s.book.holesList hole s.mem) dataSize
      (s.book.words + 1) (nsListGetLast s.book.holesList s.mem)

def writeTags (m : Mem) (block dataSize : Nat) (value : Int) : Mem := (m.write block value).write (block + 1 + dataSize) value

/-- The descriptor of the hole at `blockPtr` is replaced by one further up. -/
def moveHole (l blockPtr holePtr : Nat) (m : Mem) : Mem :=
  let before := nsListGetPrevious l (blockPtr + 1) m
  let m := nsListRemove l (blockPtr + 1) m
  if before ≠ 0 then nsListAddAfter l before (holePtr + 1) m else nsListAddToStart l (holePtr + 1) m

/-- The part of `ns_mem_internal_alloc` that takes memory from a hole: the block with its size. -/
def takeBlock (l blockPtr dataSize : Nat) (direction : Direction) (m : Mem) : (Nat × Nat) × Mem :=
  let blockDataSize := (-(m blockPtr)).toNat
  if blockDataSize ≥ dataSize + 2 + holeTSize then
    let holeSize := blockDataSize - dataSize - 2
    match direction with
    | .up =>
      let holePtr := blockPtr + 1 + dataSize + 1
      let m := writeTags (moveHole l blockPtr holePtr m) holePtr holeSize (-holeSize)
      ((blockPtr, dataSize), writeTags m blockPtr dataSize dataSize)
    | .down =>
      let m := writeTags m blockPtr holeSize (-holeSize)
      let blockPtr := blockPtr + 1 + holeSize + 1
      ((blockPtr, dataSize), writeTags m blockPtr dataSize dataSize)
  else
    let m := nsListRemove l (blockPtr + 1) m
    ((blockPtr, blockDataSize), writeTags m blockPtr blockDataSize blockDataSize)

/-- `ns_mem_internal_alloc`; there is no result if the loop does not end. -/
def nsMemInternalAlloc (s : State) (allocSize : UInt16) (direction : Direction) : Option (Option Nat × State) :=
  let s := s.checkAllocationSize allocSize
  let dataSize := convertAllocationSize allocSize
  if dataSize = 0 then some (none, s.mapStat allocFail)
  else
    match findHole s dataSize direction with
    | .unfinished => none
    | .exhausted => some (none, s.mapStat allocFail)
    | .corrupted => some (none, (s.heapFailure .heapSectorCorrupted).mapStat allocFail)
    | .found p =>
      let ((block, size), m) := takeBlock s.book.holesList p dataSize direction s.mem
      some (some (block + 1), { s with mem := m }.mapStat (allocOk (blockBytes size)))

def nsMemAlloc (s : State) (allocSize : UInt16) : Option (Option Nat × State) := nsMemInternalAlloc s allocSize .down

def nsMemTemporaryAlloc (s : State) (allocSize : UInt16) : Option (Option Nat × State) := nsMemInternalAlloc s allocSize .up

/-! ## Release -/

structure Merge where
  start : Nat
  stop : Nat
  dataSize : Nat
  /-- The descriptors of the neighbours, `0` for none. -/
  existingStart : Nat
  existingEnd : Nat
  failures : List HeapFail
  deriving DecidableEq

def mergeBelow (b : Book) (m : Mem) (g : Merge) : Merge :=
  if g.start ≠ b.heapMain ∧ m (g.start - 1) < 0 then
    let blockSize := 1 + (-(m (g.start - 1))).toNat + 1
    let start := g.start - blockSize
    { g with
      start := start
      dataSize := g.dataSize + blockSize
      failures := g.failures ++ if m start ≠ m (g.start - 1) then [.heapSectorCorrupted] else []
      existingStart := if blockSize ≥ 1 + holeTSize + 1 then start + 1 else 0 }
  else g

def mergeAbove (b : Book) (m : Mem) (g : Merge) : Merge :=
  if g.stop ≠ b.heapMainEnd ∧ m (g.stop + 1) < 0 then
    let blockSize := 1 + (-(m (g.stop + 1))).toNat + 1
    let stop := g.stop + blockSize
    { g with
      stop := stop
      dataSize := g.dataSize + blockSize
      failures := g.failures ++ if m stop ≠ m (g.stop + 1) then [.heapSectorCorrupted] else []
      existingEnd := if blockSize ≥ 1 + holeTSize + 1 then g.stop + 2 else 0 }
  else g

/-- The loop that looks for the first hole behind a new one. -/
def firstBehind (m : Mem) (toAdd : Nat) : Nat → Nat → Option Nat
  | 0, _ => none
  | fuel + 1, ptr =>
    if ptr = 0 then some 0
    else if ptr > toAdd then some ptr
    else firstBehind m toAdd fuel (nsListGetNext ptr m)

/-- The hole in front of which the new one is added; `next` is the one behind a removed descriptor. -/
def holeBehind (b : Book) (g : Merge) (next : Nat) (m : Mem) : Option Nat :=
  if g.existingEnd = 0 then firstBehind m (g.start + 1) (b.words + 1) (nsListGetFirst b.holesList m) else some next

/-- The part of `ns_mem_free_and_merge_with_adjacent_blocks` that updates the list. -/
def updateHoles (b : Book) (g : Merge) (m : Mem) : Option Mem := do
  let toAdd := g.start + 1
  let next := if g.existingEnd ≠ 0 then nsListGetNext g.existingEnd m else 0
  let m := if g.existingEnd ≠ 0 then nsListRemove b.holesList g.existingEnd m else m
  if g.existingStart ≠ 0 then some m
  else if g.dataSize ≥ holeTSize then do
    let before ← holeBehind b g next m
    some (if before ≠ 0 then nsListAddBefore before toAdd m else nsListAddToEnd b.holesList toAdd m)
  else some m

/-- `ns_mem_free_and_merge_with_adjacent_blocks` -/
def nsMemFreeAndMergeWithAdjacentBlocks (s : State) (curBlock dataSize : Nat) : Option State := do
  let stop := curBlock + dataSize + 1
  let m := (s.mem.write curBlock (-dataSize)).write stop (-dataSize)
  let g := mergeAbove s.book m (mergeBelow s.book m ⟨curBlock, stop, dataSize, 0, 0, []⟩)
  let m ← updateHoles s.book g m
  some { s with
    mem := (m.write g.start (-g.dataSize)).write g.stop (-g.dataSize)
    failures := s.failures ++ g.failures }

/-- `ns_mem_free`; there is no result if the loop does not end. -/
def nsMemFree (s : State) (block : Nat) : Option State :=
  if block = 0 then some s
  else
    let ptr := block - 1
    let size := s.mem ptr
    if ptr < s.book.heapMain ∨ ptr ≥ s.book.heapMainEnd then some (s.heapFailure .pointerNotValid)
    else if (ptr : Int) + size ≥ s.book.heapMainEnd then some (s.heapFailure .pointerNotValid)
    else if size < 0 then some (s.heapFailure .doubleFree)
    else if nsMemBlockValidate s.mem ptr = false then some (s.heapFailure .heapSectorCorrupted)
    else do
      let s ← nsMemFreeAndMergeWithAdjacentBlocks s ptr size.toNat
      some (s.mapStat (freed (blockBytes size.toNat)))

/-! ## A client -/

/-- A heap with the live pointers and the numbers of bytes that were asked for. -/
structure Session where
  state : State
  live : List (Nat × UInt16)

inductive Request where
  | alloc (size : UInt16)
  | temporaryAlloc (size : UInt16)
  | free (block : Nat)
  /-- The client writes a word. -/
  | store (address : Nat) (value : Int)
  deriving DecidableEq

/-- A client frees live pointers, and writes to the bytes that it has asked for. -/
def Allowed (c : Session) : Request → Prop
  | .alloc _ => True
  | .temporaryAlloc _ => True
  | .free block => block ∈ c.live.map (·.1)
  | .store address _ => ∃ b ∈ c.live, b.1 ≤ address ∧ (address - b.1) * wordSize < b.2.toNat

/-- The direction in which `ns_dyn_mem_alloc` and `ns_dyn_mem_temporary_alloc` look for a hole. -/
def allocate (c : Session) (size : UInt16) (direction : Direction) : Option Session := do
  let (block, s) ← nsMemInternalAlloc c.state size direction
  some ⟨s, (block.map (·, size)).toList ++ c.live⟩

def step (c : Session) : Request → Option Session
  | .alloc size => allocate c size .down
  | .temporaryAlloc size => allocate c size .up
  | .free block => do
    let s ← nsMemFree c.state block
    some ⟨s, c.live.filter fun b => b.1 ≠ block⟩
  | .store address value => some { c with state := { c.state with mem := c.state.mem.write address value } }

inductive Reaches (c : Session) : Session → Prop
  | start : Reaches c c
  | step {c1 c2 : Session} (r : Request) : Reaches c c1 → Allowed c1 r → step c1 r = some c2 → Reaches c c2

/-- `ns_dyn_mem_init` -/
def nsDynMemInit (heap : Nat) (hSize : UInt16) (infoPtr : Bool) (m : Mem) : Session := ⟨nsMemInit heap hSize infoPtr m, []⟩

end MbedCloud.Heap

