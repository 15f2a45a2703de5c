/-
  **The page allocator (`buddy_allocator.c`).**

  A binary heap over the pages: entry `i` has its children at `2i + 1` and `2i + 2`, and
  holds the level of the largest free block below it, or one of three marks.
-/
import Mathlib
import GovinDos.Lib.BuddyTree

namespace GovinDos.Buddy

def BUDDY_LEVEL_FILLED : Nat := 255
def BUDDY_LEVEL_ALLOCATED : Nat := 254
def BUDDY_LEVEL_UNUSABLE : Nat := 253

inductive Status where
  | NOMEM
  | INVAL
  | NO_SUCH_ALLOCATION
deriving DecidableEq, Repr

structure BuddyAllocator where
  max_level : Nat
  heap : Nat → Nat
  /-- Not in the code: the entries that have been written. -/
  written : List Nat

def BuddyAllocator.set (ba : BuddyAllocator) (i v : Nat) : BuddyAllocator :=
  { ba with heap := Function.update ba.heap i v, written := i :: ba.written }

/-! ## 1. The heap -/

def uint64IsPowerOf2 (x : Nat) : Bool := 2 ^ x.log2 = x

def uint64CeilLog2 (v : Nat) : Nat := v.log2 + if uint64IsPowerOf2 v then 0 else 1

def heapLevel (i : Nat) : Nat := (i + 1).log2

def heapSize (max_level : Nat) : Nat := 2 ^ ((max_level + 1) % 2 ^ 8) - 1

def heapParent (i : Nat) : Nat := (i - 1) / 2

def heapLeft (i : Nat) : Nat := 2 * i + 1

def heapRight (i : Nat) : Nat := 2 * i + 2

def heapSibling (i : Nat) : Nat := if i % 2 = 1 then i + 1 else i - 1

def parentFreeLevel (max_level a_level b_level : Nat) : Nat :=
  if min a_level b_level > max_level then BUDDY_LEVEL_FILLED else min a_level b_level

def propagateStep : BuddyAllocator × Nat → BuddyAllocator × Nat
  | (ba, i) =>
    if i = 0 then (ba, i)
    else (ba.set (heapParent i)
      (parentFreeLevel ba.max_level (ba.heap i) (ba.heap (heapSibling i))), heapParent i)

def propagate (ba : BuddyAllocator) (i : Nat) : BuddyAllocator :=
  (propagateStep^[heapLevel i] (ba, i)).1

def coalesceStep : BuddyAllocator × Nat → BuddyAllocator × Nat
  | (ba, i) =>
    if i ≠ 0 ∧ ba.heap (heapSibling i) = heapLevel i then
      (ba.set (heapParent i) (heapLevel (heapParent i)), heapParent i)
    else (ba, i)

def coalesce (ba : BuddyAllocator) (i : Nat) : BuddyAllocator × Nat :=
  if ba.heap i ≠ heapLevel i then (ba, i) else coalesceStep^[heapLevel i] (ba, i)

def splitBlock (ba : BuddyAllocator) (index level : Nat) : BuddyAllocator :=
  ((ba.set index (level + 1)).set (heapLeft index) (level + 1)).set (heapRight index) (level + 1)

/-- The child with the larger level (the smaller free block) if the allocation fits. -/
def pickChild (ba : BuddyAllocator) (allocation_level index : Nat) : Nat :=
  if ba.heap (heapLeft index) < ba.heap (heapRight index) then
    if allocation_level ≥ ba.heap (heapRight index) then heapRight index else heapLeft index
  else if allocation_level ≥ ba.heap (heapLeft index) then heapLeft index else heapRight index

/-- The loop of `acquire_empty_slot`; `none` where `n` rounds do not find a slot. -/
def acquireFrom (allocation_level : Nat) : Nat → BuddyAllocator → Nat → Nat →
    Option (BuddyAllocator × Nat)
  | 0, _, _, _ => none
  | n + 1, ba, index, level =>
    if ba.heap index = level ∧ ba.heap index = allocation_level then some (ba, index)
    else
      let ba := if ba.heap index = level then splitBlock ba index level else ba
      acquireFrom allocation_level n ba (pickChild ba allocation_level index) (level + 1)

def acquireEmptySlot (ba : BuddyAllocator) (allocation_level : Nat) : Option (BuddyAllocator × Nat) :=
  acquireFrom allocation_level (ba.max_level + 1) ba 0 0

def getFirstPageIndexFromBlockIndex (ba : BuddyAllocator) (block_index : Nat) : Nat :=
  (block_index - heapSize ((heapLevel block_index + (2 ^ 8 - 1)) % 2 ^ 8)) <<<
    (ba.max_level - heapLevel block_index)

/-- The loop of `get_block_index_from_page_index` from `level` on, `n` rounds before
    its end. -/
def blockIndexFrom (ba : BuddyAllocator) (page_id : Nat) : Nat → Nat → Nat → Except Status Nat
  | 0, bi, _ => .ok bi
  | n + 1, bi, level =>
    if ba.heap bi = BUDDY_LEVEL_ALLOCATED then .ok bi
    else if ba.heap bi = level then .error .NO_SUCH_ALLOCATION
    else if ba.heap bi = BUDDY_LEVEL_UNUSABLE then .error .NO_SUCH_ALLOCATION
    else blockIndexFrom ba page_id n
      (if page_id ≥ getFirstPageIndexFromBlockIndex ba (heapRight bi) then heapRight bi
        else heapLeft bi) (level + 1)

def getBlockIndexFromPageIndex (ba : BuddyAllocator) (page_id : Nat) : Except Status Nat :=
  blockIndexFrom ba page_id (ba.max_level + 1) 0 0

/-! ## 2. The allocator -/

def BUDDY_ALLOCATOR_SIZE : Nat := 16
def BUDDY_HEAP_OFFSET : Nat := 11

def buddyGetBytes (n_pages : Nat) : Nat := BUDDY_ALLOCATOR_SIZE + heapSize (uint64CeilLog2 n_pages)

def setAll (v : Nat) (ba : BuddyAllocator) (is : List Nat) : BuddyAllocator :=
  is.foldl (fun ba i => ba.set i v) ba

def buddyInit (heap : Nat → Nat) (n_pages : Nat) : BuddyAllocator :=
  let max_level := uint64CeilLog2 n_pages
  let bottom_level_offset := if max_level > 0 then heapSize (max_level - 1) else 0
  let ba := setAll max_level ⟨max_level, heap, []⟩ (List.range' bottom_level_offset n_pages)
  setAll BUDDY_LEVEL_UNUSABLE ba (List.range' (n_pages + bottom_level_offset)
    (heapSize max_level - (n_pages + bottom_level_offset)))

/-- `max_level - 1` is a shift count: where the level is 0, the shift is undefined. -/
def buddyMarkUnusable (ba : BuddyAllocator) (min_page_id max_page_id : Nat) :
    Option BuddyAllocator :=
  if ba.max_level = 0 then none
  else some (setAll BUDDY_LEVEL_UNUSABLE ba
    ((List.range' min_page_id (max_page_id + 1 - min_page_id)).map (· + 2 ^ (ba.max_level - 1))))

def readyStep (ba : BuddyAllocator) (bi : Nat) : BuddyAllocator :=
  let level := heapLevel bi
  let lv := ba.heap (heapLeft bi)
  let rv := ba.heap (heapRight bi)
  ba.set bi (if lv = BUDDY_LEVEL_UNUSABLE ∧ rv = BUDDY_LEVEL_UNUSABLE then BUDDY_LEVEL_UNUSABLE
    else if lv = level + 1 ∧ rv = level + 1 then level else min lv rv)

def buddyReady (ba : BuddyAllocator) : BuddyAllocator :=
  if ba.max_level > 0 then (List.range (heapSize (ba.max_level - 1))).reverse.foldl readyStep ba
  else ba

def buddyPageAlloc (ba : BuddyAllocator) (n_pages : Nat) :
    Option (Except Status (BuddyAllocator × Nat)) :=
  let n_pages := if n_pages = 0 then 1 else n_pages
  if n_pages > 2 ^ ba.max_level then some (.error .INVAL)
  else
    let allocation_level := ba.max_level - uint64CeilLog2 n_pages
    if allocation_level < ba.heap 0 then some (.error .NOMEM)
    else (acquireEmptySlot ba allocation_level).map fun (ba, block_index) =>
      let ba := propagate (ba.set block_index BUDDY_LEVEL_ALLOCATED) block_index
      .ok (ba, getFirstPageIndexFromBlockIndex ba block_index)

def buddyPageFree (ba : BuddyAllocator) (page_id : Nat) : Except Status BuddyAllocator :=
  (getBlockIndexFromPageIndex ba page_id).map fun block_index =>
    let (ba, coalesced_block_index) :=
      coalesce (ba.set block_index (heapLevel block_index)) block_index
    propagate ba coalesced_block_index

end GovinDos.Buddy
