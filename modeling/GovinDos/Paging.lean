/-
  **The x86_64 page trees of `kernel/archsrc/x86_64/paging.c`.**

  The walker reads an entry word in one of three ways: `absent` (bit `PTE_P` clear), `leaf e`
  (present, and at level 1 or with `PTE_PS` set; the word is kept), and `table t` (present,
  `PTE_PS` clear: the word is the address of `t` with `intermediate_flags()`).  A tree owns
  its tables, so the pointer is replaced by the table itself, and `frames` counts `pt_alloc`
  minus `pt_free`.

  A failed `asserts` or a `fatal` stops the kernel and is `none`; table allocation always
  succeeds (the source asserts it).  `mut_lock` is not modelled: one call is one step.
-/
import Mathlib

namespace GovinDos.Paging

/-! ## 1. Hardware words -/

def PAGE_SIZE : Nat := 4096
def GIB : Nat := 2 ^ 30
def MIB : Nat := 2 ^ 20

abbrev Pte := BitVec 64

def PTE_P : Pte := 1#64 <<< 0
def PTE_RW : Pte := 1#64 <<< 1
def PTE_US : Pte := 1#64 <<< 2
def PTE_PWT : Pte := 1#64 <<< 3
def PTE_PCD : Pte := 1#64 <<< 4
def PTE_PS : Pte := 1#64 <<< 7
def PTE_NX : Pte := 1#64 <<< 63
def PTE_ADDR : Pte := 0x000FFFFFFFFFF000#64

/-- 4 = PML4 (512 GiB an entry), 3 = PDPT (1 GiB), 2 = PD (2 MiB), 1 = PT (4 KiB). -/
def LEVEL_SHIFT : Nat → Nat
  | 0 => 0
  | l + 1 => 12 + 9 * l

def LEVEL_SIZE : Nat → Nat
  | 0 => 0
  | l + 1 => PAGE_SIZE * 512 ^ l

-- the five-entry tables of the source
example : [0, 1, 2, 3, 4].map LEVEL_SHIFT = [0, 12, 21, 30, 39] := rfl
example : [0, 1, 2, 3, 4].map LEVEL_SIZE = [0, PAGE_SIZE, 2 * MIB, GIB, 512 * GIB] := rfl

def levelIdx (addr level : Nat) : Fin 512 := Fin.ofNat 512 (addr >>> LEVEL_SHIFT level)

/-! ## 2. Flag translation -/

abbrev PagingFlags := BitVec 32

def PAGE_R : PagingFlags := 1#32 <<< 0
def PAGE_W : PagingFlags := 1#32 <<< 1
def PAGE_X : PagingFlags := 1#32 <<< 2
def PAGE_U : PagingFlags := 1#32 <<< 3
def PAGE_WB : PagingFlags := 0#32 <<< 4
def PAGE_UC : PagingFlags := 1#32 <<< 4
def PAGE_WC : PagingFlags := 2#32 <<< 4
def PAGE_WT : PagingFlags := 3#32 <<< 4
def PAGE_CACHE_MASK : PagingFlags := 3#32 <<< 4
def PAGE_KERNEL_PRISTINE : PagingFlags := PAGE_R ||| PAGE_W ||| PAGE_X

def PAGE_ACCESS : PagingFlags := PAGE_R ||| PAGE_W ||| PAGE_X ||| PAGE_U

def leafFlagsToPte (f : PagingFlags) : Option Pte :=
  if f &&& PAGE_ACCESS = 0 then some 0
  else if f &&& PAGE_R = 0 then none
  else
    let pte := PTE_P
    let pte := if f &&& PAGE_W ≠ 0 then pte ||| PTE_RW else pte
    let pte := if f &&& PAGE_U ≠ 0 then pte ||| PTE_US else pte
    let pte := if f &&& PAGE_X = 0 then pte ||| PTE_NX else pte
    let cache := f &&& PAGE_CACHE_MASK
    if cache = PAGE_WB then some pte
    else if cache = PAGE_UC then some (pte ||| PTE_PCD)
    else if cache = PAGE_WT then some (pte ||| PTE_PWT)
    else if cache = PAGE_WC then some (pte ||| PTE_PWT)
    else none

def pteToFlags (pte : Pte) : PagingFlags :=
  if pte &&& PTE_P = 0 then 0
  else
    let f := PAGE_R
    let f := if pte &&& PTE_RW ≠ 0 then f ||| PAGE_W else f
    let f := if pte &&& PTE_US ≠ 0 then f ||| PAGE_U else f
    let f := if pte &&& PTE_NX = 0 then f ||| PAGE_X else f
    if pte &&& PTE_PCD ≠ 0 then f ||| PAGE_UC
    else if pte &&& PTE_PWT ≠ 0 then f ||| PAGE_WT
    else f ||| PAGE_WB

/-! ## 3. Tables and address spaces -/

inductive Entry where
  | absent
  | leaf (e : Pte)
  | table (t : Fin 512 → Entry)

abbrev Table := Fin 512 → Entry

def Entry.ofWord (w : Pte) : Entry := if w &&& PTE_P = 0 then .absent else .leaf w

def DIRTY_EMPTY_MIN : Nat := 2 ^ 64 - 1
def DIRTY_EMPTY_MAX : Nat := 0

/-- What table surgery changes besides the tables: the dirty range and the count of live
    table frames. -/
structure Effects where
  min_dirty : Nat
  max_dirty : Nat
  frames : Int

structure AddressSpace extends Effects where
  root : Table
  pins : Nat

def markDirty (x : Effects) (start end_ : Nat) : Effects :=
  { x with
    min_dirty := if start < x.min_dirty then start else x.min_dirty
    max_dirty := if x.max_dirty < end_ then end_ else x.max_dirty }

def hasDirty (x : Effects) : Bool := x.min_dirty < x.max_dirty

def clearDirty (x : Effects) : Effects :=
  { x with min_dirty := DIRTY_EMPTY_MIN, max_dirty := DIRTY_EMPTY_MAX }

def ptAlloc (x : Effects) : Table × Effects :=
  (fun _ => .absent, { x with frames := x.frames + 1 })

def ptFree (x : Effects) : Effects := { x with frames := x.frames - 1 }

def freeTable : Nat → Table → Effects → Effects
  | 0, _, x => ptFree x
  | l + 1, table, x =>
    let x :=
      if l + 1 > 1 then
        (List.finRange 512).foldl (fun x i =>
          match table i with
          | .table child => freeTable l child x
          | _ => x) x
      else x
    ptFree x

def countTables : Nat → Table → Nat
  | 0, _ => 1
  | l + 1, table =>
    if l + 1 > 1 then
      (List.finRange 512).foldl (fun n i =>
        match table i with
        | .table child => n + countTables l child
        | _ => n) 1
    else 1

def asTableCount (as : AddressSpace) : Nat := countTables 4 as.root

/-! ## 4. Walk -/

def leafAt : Nat → Table → Nat → Option (Nat × Pte)
  | 0, _, _ => none
  | l + 1, table, addr =>
    match table (levelIdx addr (l + 1)) with
    | .absent => none
    | .leaf e => some (l + 1, e)
    | .table child => leafAt l child addr

def walk (root : Table) (addr : Nat) : Pte :=
  match leafAt 4 root addr with
  | none => 0
  | some (_, e) => e

def pteBits (e : Pte) : Pte := (e &&& ~~~PTE_ADDR) &&& ~~~PTE_PS

/-- What the hardware makes of an address: the physical address and the flag bits of the
    leaf. -/
def translate (root : Table) (addr : Nat) : Option (Nat × Pte) :=
  (leafAt 4 root addr).map fun (l, e) =>
    ((e &&& PTE_ADDR).toNat + addr % LEVEL_SIZE l, pteBits e)

def asGetinfo (as : AddressSpace) (addr : Nat) : PagingFlags × Bool :=
  let pte := walk as.root addr
  let present : Bool := pte &&& PTE_P ≠ 0
  (if present then pteToFlags pte else 0, present)

/-! ## 5. Split and install -/

def splitHuge (huge : Pte) (level : Nat) (x : Effects) : Option (Table × Effects) :=
  if (level = 2 ∨ level = 3) ∧ huge &&& PTE_P ≠ 0 ∧ huge &&& PTE_PS ≠ 0 then
    let (_, x) := ptAlloc x
    let base := huge &&& PTE_ADDR
    let flags := (huge &&& ~~~PTE_ADDR) &&& ~~~PTE_PS
    let child_ps := if level - 1 = 2 then PTE_PS else 0
    let step := LEVEL_SIZE (level - 1)
    some (fun i => .ofWord ((base + BitVec.ofNat 64 (i.val * step)) ||| flags ||| child_ps), x)
  else none

/-- The walk of `install_leaf` from a table of level `l` down to `level`. -/
def installTable (addr level : Nat) (leaf_pte : Pte) :
    Nat → Table → Effects → Option (Table × Effects)
  | 0, _, _ => none
  | l + 1, table, x =>
    let i := levelIdx addr (l + 1)
    if l + 1 = level then
      -- a finer sub-tree at the target slot is freed first
      let x := match table i with
        | .table child => if level > 1 then freeTable (level - 1) child x else x
        | _ => x
      some (Function.update table i (.ofWord leaf_pte), x)
    else match table i with
      | .absent =>
        if leaf_pte = 0 then some (table, x)
        else
          let (child, x) := ptAlloc x
          (installTable addr level leaf_pte l child x).map fun (child, x) =>
            (Function.update table i (.table child), x)
      | .leaf e =>
        (splitHuge e (l + 1) x).bind fun (child, x) =>
          let huge_base := addr / LEVEL_SIZE (l + 1) * LEVEL_SIZE (l + 1)
          let x := markDirty x huge_base ((huge_base + LEVEL_SIZE (l + 1)) % 2 ^ 64)
          (installTable addr level leaf_pte l child x).map fun (child, x) =>
            (Function.update table i (.table child), x)
      | .table child =>
        (installTable addr level leaf_pte l child x).map fun (child, x) =>
          (Function.update table i (.table child), x)

def installLeaf (as : AddressSpace) (addr level : Nat) (leaf_pte : Pte) : Option AddressSpace :=
  if 1 ≤ level ∧ level ≤ 3 ∧ addr % LEVEL_SIZE level = 0 then
    (installTable addr level leaf_pte 4 as.root as.toEffects).map fun (root, x) =>
      { as with toEffects := x, root := root }
  else none

/-! ## 6. Merge -/

/-- One round of the scan in `try_merge_child`; the state is
    `(all_absent, all_leaf)`. -/
def scanEntry (child_level : Nat) (first : Pte) (i : Fin 512) (c : Entry)
    (s : Bool × Bool) : Bool × Bool :=
  match c with
  | .absent => (s.1, false)
  | .table _ => (false, false)
  | .leaf e =>
    (false,
      if (child_level ≥ 2 ∧ e &&& PTE_PS = 0) ∨
          e &&& ~~~PTE_ADDR ≠ first &&& ~~~PTE_ADDR ∨
          e &&& PTE_ADDR ≠ (first &&& PTE_ADDR) +
            BitVec.ofNat 64 (i.val * LEVEL_SIZE child_level)
      then false else s.2)

def scanChild (child_level : Nat) (first : Pte) (child : Table) :
    List (Fin 512) → Bool × Bool → Bool × Bool
  | [], s => s
  | i :: is, s =>
    if s.1 || s.2 then scanChild child_level first child is (scanEntry child_level first i (child i) s)
    else s

def Entry.word : Entry → Pte
  | .leaf e => e
  | _ => 0

def tryMergeChild (x : Effects) (parent : Table) (parent_level addr : Nat) :
    Bool × Table × Effects :=
  let idx := levelIdx addr parent_level
  match parent idx with
  | .table child =>
    let first := (child 0).word
    let (all_absent, all_leaf) :=
      scanChild (parent_level - 1) first child (List.finRange 512) (true, true)
    let span := addr / LEVEL_SIZE parent_level * LEVEL_SIZE parent_level
    if all_absent then
      (true, Function.update parent idx .absent,
        markDirty (ptFree x) span ((span + LEVEL_SIZE parent_level) % 2 ^ 64))
    else if all_leaf ∧ parent_level ≤ 3 then
      let base := first &&& PTE_ADDR
      if base &&& BitVec.ofNat 64 (LEVEL_SIZE parent_level - 1) ≠ 0 then (false, parent, x)
      else
        (true, Function.update parent idx (.ofWord (base ||| (first &&& ~~~PTE_ADDR) ||| PTE_PS)),
          markDirty (ptFree x) span ((span + LEVEL_SIZE parent_level) % 2 ^ 64))
    else (false, parent, x)
  | _ => (false, parent, x)

/-- `try_merge_path` from a table of level `l`: below first, then the child on the path,
    unless a merge below failed. -/
def mergePath (addr : Nat) : Nat → Table → Effects → Bool × Table × Effects
  | 0, table, x => (true, table, x)
  | l + 1, table, x =>
    match table (levelIdx addr (l + 1)) with
    | .table child =>
      if l + 1 ≥ 2 then
        let (merged, child, x) := mergePath addr l child x
        let table := Function.update table (levelIdx addr (l + 1)) (.table child)
        if merged then tryMergeChild x table (l + 1) addr else (false, table, x)
      else (true, table, x)
    | _ => (true, table, x)

def tryMergePath (as : AddressSpace) (addr : Nat) : AddressSpace :=
  let (_, root, x) := mergePath addr 4 as.root as.toEffects
  { as with toEffects := x, root := root }

/-! ## 7. Lifecycle -/

/-- Deep copy.  Absent slots are written as zero, leaves verbatim. -/
def cloneTable : Nat → Table → Table
  | 0, _ => fun _ => .absent
  | l + 1, src => fun i =>
    match src i with
    | .absent => .absent
    | .leaf e => .leaf e
    | .table child => .table (cloneTable l child)

def asClone (src : AddressSpace) : AddressSpace :=
  let root := cloneTable 4 src.root
  { root := root
    min_dirty := DIRTY_EMPTY_MIN
    max_dirty := DIRTY_EMPTY_MAX
    -- one `pt_alloc` for each table visited
    frames := countTables 4 root
    pins := 0 }

def PRISTINE_BITS : Pte := PTE_P ||| PTE_RW

example : leafFlagsToPte PAGE_KERNEL_PRISTINE = some PRISTINE_BITS := by decide

def asIdentityMapping : AddressSpace :=
  let pdpt : Table := fun i => .ofWord (BitVec.ofNat 64 (i.val * GIB) ||| PRISTINE_BITS ||| PTE_PS)
  { root := fun i => if i = 0 then .table pdpt else .absent
    min_dirty := DIRTY_EMPTY_MIN
    max_dirty := DIRTY_EMPTY_MAX
    frames := 2
    pins := 0 }

/-! ## 8. Re-flagging a range -/

def flagLoop (leaf_base : Pte) (end_ a : Nat) (as : AddressSpace) : Option AddressSpace :=
  if a < end_ then
    let remaining := end_ - a
    let present : Bool := leaf_base &&& PTE_P ≠ 0
    if a % GIB = 0 ∧ GIB ≤ remaining then
      (installLeaf as a 3 (if present then BitVec.ofNat 64 a ||| leaf_base ||| PTE_PS else 0)).bind
        (flagLoop leaf_base end_ (a + GIB))
    else if a % (2 * MIB) = 0 ∧ 2 * MIB ≤ remaining then
      (installLeaf as a 2 (if present then BitVec.ofNat 64 a ||| leaf_base ||| PTE_PS else 0)).bind
        (flagLoop leaf_base end_ (a + 2 * MIB))
    else
      (installLeaf as a 1 (if present then BitVec.ofNat 64 a ||| leaf_base else 0)).bind
        (flagLoop leaf_base end_ (a + PAGE_SIZE))
  else some as
termination_by end_ - a
decreasing_by
  all_goals simp only [GIB, MIB, PAGE_SIZE] at *
  all_goals omega

def asFlag (as : AddressSpace) (addr end_ : Nat) (flags : PagingFlags) : Option AddressSpace :=
  if addr % PAGE_SIZE = 0 ∧ end_ % PAGE_SIZE = 0 ∧ addr ≤ end_ then
    if addr = end_ then some as
    else
      (leafFlagsToPte flags).bind fun leaf_base =>
        (flagLoop leaf_base end_ addr as).map fun as =>
          let as := { as with toEffects := markDirty as.toEffects addr end_ }
          tryMergePath (tryMergePath as addr) (end_ - PAGE_SIZE)
  else none

end GovinDos.Paging
