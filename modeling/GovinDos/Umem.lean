/-
  **User memory blocks (`kernel/src/umem.c`, and the callers in `syscall.c` and
  `process.c`).**

  A block record lives inline in its owner's tree node: a pointer to it is a `BlockId`.
  `heap` holds the live records, the three indices hold pointers.  A share edge lives in its
  block's `sharers` under the target's pid: a pointer to it is an `EdgeRef`.

  One call is one step under `g_umem`, apart from `umem_free`, whose tail
  `umem_release_finish` runs without the lock.  `none` is a kernel that stopped: a failed
  `asserts`, a fault, or a dangling pointer.  The answers of the allocators and of the
  channels come in as arguments.
-/
import GovinDos.Abi
import GovinDos.Lib.OrdMap
import GovinDos.PagingCanonical
import GovinDos.PlatformMem
import GovinDos.ProcessTree

namespace GovinDos.Umem

open Paging PlatformMem

/-! ## 1. Records -/

abbrev BlockId := Nat

structure EdgeRef where
  block : BlockId
  to_ : Nat
deriving DecidableEq, Repr

inductive Backing where
  | RAM | DEVICE
deriving DecidableEq, Repr

/-- `struct ublock`.  `ring` and `dma_maps` are tested against null; `sharers` maps a
    pid to its edge's `notified` bit. -/
structure Ublock where
  base : Nat
  order : Nat
  bytes : Nat
  backing : Backing
  device_flags : PagingFlags
  kernel_flags : PagingFlags
  delegatable : Bool
  owner : Nat
  sharers : OrdMap Nat Bool
  ring : Bool
  dma_maps : Bool
  thread_pins : Nat
deriving DecidableEq

def Ublock.end_ (b : Ublock) : Nat := (b.base + b.bytes) % 2 ^ 64

/-- `struct process`, as far as memory is concerned.  `as` is null between the two
    phases of `PROC_DESTROY`; `unnotified` is the pending chain. -/
structure Process where
  parent : Option Nat
  dead : Bool
  as : Option AddressSpace
  children : OrdMap Nat Unit
  nthreads : Nat
  blocks : OrdMap Nat BlockId
  views : OrdMap Nat EdgeRef
  unnotified : List EdgeRef

/-- `releasing` holds each `struct umem_release` between its two phases, under
    the node that the second phase frees. -/
structure State where
  g_as_kernel : AddressSpace
  g_procs : OrdMap Nat Process
  heap : OrdMap BlockId Ublock
  g_ublocks : OrdMap Nat BlockId
  releasing : OrdMap BlockId Ublock
  g_next_pid : Nat

def State.links (s : State) : ProcTable := fun p =>
  (s.g_procs.get p).map fun pr => ⟨pr.parent, pr.dead⟩

def State.setProc (s : State) (p : Nat) (pr : Process) : State :=
  { s with g_procs := s.g_procs.set p pr }

def State.setBlock (s : State) (id : BlockId) (b : Ublock) : State :=
  { s with heap := s.heap.set id b }

def procLookup (s : State) (pid : Nat) : Option Process :=
  (s.g_procs.get pid).filter fun _ => !processIsDead s.links pid

def procLookupAny (s : State) (pid : Nat) : Option Process := s.g_procs.get pid

/-! ## 2. Page trees of processes -/

def asFlush (as : AddressSpace) : AddressSpace :=
  { as with toEffects := clearDirty as.toEffects }

def State.withAs (s : State) (p : Nat) (f : AddressSpace → Option AddressSpace) : Option State := do
  let pr ← s.g_procs.get p
  let as ← pr.as
  let as ← f as
  some (s.setProc p { pr with as := some as })

def State.flag (s : State) (p lo hi : Nat) (flags : PagingFlags) : Option State :=
  s.withAs p fun as => asFlag as lo hi flags

def State.reflag (s : State) (p lo hi : Nat) (flags : PagingFlags) : Option State :=
  s.withAs p fun as => (asFlag as lo hi flags).map asFlush

/-! ## 3. Index helpers -/

def umemOwnedLocked (pr : Process) (base : Nat) : Option BlockId := pr.blocks.get base

/-- The second half of `umem_view_locked`: the block behind the view at or below
    `addr`.  The outer `none` is a dangling pointer. -/
def viewedLocked (s : State) (pr : Process) (addr len : Nat) : Option (Option BlockId) :=
  match pr.views.floor addr with
  | none => some none
  | some (_, e) => do
    let b ← s.heap.get e.block
    some (if addr + len ≤ b.end_ then some e.block else none)

/-- `umem_view_locked`: the block that contains `[addr, addr + len)`, owned first.  The
    search copies the record out, so the pointer is looked up once more. -/
def umemViewLocked (s : State) (pr : Process) (addr len : Nat) : Option (Option BlockId) :=
  if len = 0 ∨ 2 ^ 64 ≤ addr + len then some none
  else match pr.blocks.floor addr with
    | none => viewedLocked s pr addr len
    | some (_, id) => do
      let owned ← s.heap.get id
      if addr + len ≤ owned.end_ then (umemOwnedLocked pr owned.base).map some
      else viewedLocked s pr addr len

def pendingLink (s : State) (e : EdgeRef) : Option State := do
  let pr ← s.g_procs.get e.to_
  some (s.setProc e.to_ { pr with unnotified := pr.unnotified ++ [e] })

def umemEdgePendingUnlinkLocked (s : State) (e : EdgeRef) (notified : Bool) : Option State :=
  if notified then some s
  else do
    let pr ← s.g_procs.get e.to_
    some (s.setProc e.to_ { pr with unnotified := pr.unnotified.erase e })

/-- `channel_edge_notify`; `posted` says whether the target has a shares channel
    with room. -/
def channelEdgeNotify (s : State) (e : EdgeRef) (posted : Bool) : Option State :=
  if posted then do
    let s ← umemEdgePendingUnlinkLocked s e false
    let b ← s.heap.get e.block
    some (s.setBlock e.block { b with sharers := b.sharers.set e.to_ true })
  else some s

/-! ## 4. Allocation -/

def orderLoop (npages : Nat) : Nat → Nat → Nat
  | 0, order => order
  | n + 1, order => if 2 ^ order < npages then orderLoop npages n (order + 1) else order

def blockOrder (len : Nat) : Nat := orderLoop ((len + PAGE_SIZE - 1) / PAGE_SIZE) 64 0

/-- `memset(base, 0, bytes)` through the caller's tree: a page that is not
    canonical or not present faults. -/
def memsetOk (as : AddressSpace) (base bytes : Nat) : Bool :=
  (List.range (bytes / PAGE_SIZE)).all fun i =>
    base + i * PAGE_SIZE < 2 ^ 47 && (translate as.root (base + i * PAGE_SIZE)).isSome

inductive AllocOutcome where
  | exhausted
  | noNode (page_id : Nat)
  | got (page_id : Nat) (node : BlockId)

def allocBase (page_id : Nat) : Nat := page_id * PAGE_SIZE % 2 ^ 64

def umemAlloc (s : State) (p len : Nat) (prot : PagingFlags) (o : AllocOutcome) :
    Option (State × Option Nat) :=
  if len = 0 then some (s, none)
  else
    let order := blockOrder len
    let bytes := PAGE_SIZE * 2 ^ order
    match o with
    | .exhausted => some (s, none)
    | .noNode page_id => do
      let pr ← s.g_procs.get p
      let as ← pr.as
      if memsetOk as (allocBase page_id) bytes then some (s, none) else none
    | .got page_id node => do
      let base := allocBase page_id
      let pr ← s.g_procs.get p
      let as ← pr.as
      if memsetOk as base bytes then
        let s ← s.reflag p base (base + bytes) (prot ||| PAGE_U)
        let pr ← s.g_procs.get p
        let blocks ← pr.blocks.insert base node
        let g_ublocks ← s.g_ublocks.insert base node
        let s := s.setProc p { pr with blocks := blocks }
        let s := s.setBlock node
          { base := base, order := order, bytes := bytes, backing := .RAM, device_flags := 0,
            kernel_flags := PAGE_KERNEL_PRISTINE, delegatable := true, owner := p,
            sharers := .empty, ring := false, dma_maps := false, thread_pins := 0 }
        some ({ s with g_ublocks := g_ublocks }, some base)
      else none

/-! ## 5. Device blocks -/

def deviceOverlap (s : State) (base end_ : Nat) : Bool :=
  s.g_ublocks.entries.any fun e => match s.heap.get e.2 with
    | none => false
    | some b => b.backing = .DEVICE && base < b.base + b.bytes && b.base < end_

def flagProcess (lo hi : Nat) (flags : PagingFlags) (_ : Nat) (pr : Process) : Option Process :=
  match pr.as with
  | none => some pr
  | some as => (asFlag as lo hi flags).map fun as => { pr with as := some (asFlush as) }

def deviceFlags (flags : BitVec 32) : PagingFlags :=
  PAGE_R ||| (if flags &&& VM_DEVICE_WRITE ≠ 0 then PAGE_W else 0) |||
    (if flags &&& VM_DEVICE_FIRMWARE = 0 then PAGE_UC else 0)

def umemMapDeviceLocked (pl : Platform) (s : State) (p base len : Nat) (flags : BitVec 32)
    (node : Option BlockId) : Option (State × SysResult) :=
  match platformMemValidateDevice pl base len flags with
  | none => some (s, .error .INVAL)
  | some (kernel_flags, delegatable) =>
    let end_ := base + len
    if deviceOverlap s base end_ then some (s, .error .EXIST)
    else do
      -- the kernel alias first, in every extant tree
      let g_as_kernel ← (asFlag s.g_as_kernel base end_ kernel_flags).map asFlush
      let g_procs ← s.g_procs.mapM (flagProcess base end_ kernel_flags)
      let s := { s with g_as_kernel := g_as_kernel, g_procs := g_procs }
      match node with
      | none => some (s, .error .NOMEM)
      | some node => do
        let s ← s.reflag p base end_ (deviceFlags flags ||| PAGE_U)
        let pr ← s.g_procs.get p
        match pr.blocks.insert base node with
        | none => do
          let s ← s.reflag p base end_ kernel_flags
          some (s, .error .NOMEM)
        | some blocks => do
          let g_ublocks ← s.g_ublocks.insert base node
          let s := s.setProc p { pr with blocks := blocks }
          let s := s.setBlock node
            { base := base, order := 0, bytes := len, backing := .DEVICE,
              device_flags := deviceFlags flags, kernel_flags := kernel_flags,
              delegatable := delegatable, owner := p, sharers := .empty, ring := false,
              dma_maps := false, thread_pins := 0 }
          some ({ s with g_ublocks := g_ublocks }, .ok 0)

/-! ## 6. Views -/

def deviceRefuses (b : Ublock) (prot : PagingFlags) : Bool :=
  b.backing = .DEVICE && (prot &&& ~~~b.device_flags ≠ 0 || prot &&& PAGE_X ≠ 0)

def cacheBits (b : Ublock) : PagingFlags :=
  if b.backing = .DEVICE then b.device_flags &&& PAGE_CACHE_MASK else 0

def umemProtect (s : State) (p base len : Nat) (prot : PagingFlags) : Option (State × Bool) :=
  if base % PAGE_SIZE ≠ 0 ∨ len = 0 ∨ len % PAGE_SIZE ≠ 0 ∨ 2 ^ 64 ≤ base + len then
    some (s, false)
  else do
    let pr ← s.g_procs.get p
    let v ← umemViewLocked s pr base len
    match v with
    | none => some (s, false)
    | some id => do
      let b ← s.heap.get id
      if b.thread_pins ≠ 0 ∨ b.ring ∨ deviceRefuses b prot then some (s, false)
      else do
        let view := if prot = 0 then 0 else prot ||| PAGE_U
        let s ← s.reflag p base (base + len) (view ||| cacheBits b)
        some (s, true)

/-- `umem_share`.  `nodes` says whether the slab allocator had both nodes. -/
def umemShare (s : State) (p base target : Nat) (prot : PagingFlags) (nodes posted : Bool) :
    Option (State × SysResult) :=
  if !nodes then some (s, .error .NOMEM)
  else do
    let pr ← s.g_procs.get p
    match umemOwnedLocked pr base, procLookup s target with
    | some id, some _ => do
      let b ← s.heap.get id
      if target = p ∨ b.ring ∨ b.thread_pins ≠ 0 ∨ !b.delegatable ∨ deviceRefuses b prot then
        some (s, .error .INVAL)
      else if (b.sharers.get target).isSome then some (s, .error .EXIST)
      else do
        let e : EdgeRef := ⟨id, target⟩
        let s := s.setBlock id { b with sharers := b.sharers.set target false }
        let s ← pendingLink s e
        let tr ← s.g_procs.get target
        let views ← tr.views.insert b.base e
        let s := s.setProc target { tr with views := views }
        let s ← s.reflag target b.base (b.base + b.bytes) (prot ||| PAGE_U ||| cacheBits b)
        let s ← channelEdgeNotify s e posted
        some (s, .ok 0)
    | _, _ => some (s, .error .INVAL)

/-- The common tail of dropping and unsharing: the view of `target` at `base` must be the
    edge `e`; both index entries go, and the mapping is restored. -/
def dropEdge (s : State) (e : EdgeRef) (target base : Nat) : Option (State × SysResult) := do
  let tr ← s.g_procs.get target
  let (removed_view, views) ← tr.views.remove base
  if removed_view = e then
    let s := s.setProc target { tr with views := views }
    let b ← s.heap.get e.block
    let (notified, sharers) ← b.sharers.remove target
    let s ← umemEdgePendingUnlinkLocked s e notified
    let s := s.setBlock e.block { b with sharers := sharers }
    let s ← s.reflag target b.base (b.base + b.bytes) b.kernel_flags
    some (s, .ok 0)
  else none

def umemDropshare (s : State) (caller base pid : Nat) : Option (State × SysResult) :=
  let target := if pid = 0 ∨ pid = caller then caller else pid
  match procLookupAny s target with
  | none => some (s, .error .PERM)
  | some tr =>
    if target ≠ caller ∧ !processReaperAuthorizedLocked s.links caller target then
      some (s, .error .PERM)
    else match tr.views.get base with
      | none => some (s, .error .INVAL)
      | some e => dropEdge s e target base

def resourceAuthorized (s : State) (caller owner : Nat) : Bool :=
  caller = owner || processReaperAuthorizedLocked s.links caller owner

def umemUnshare (s : State) (caller base pid : Nat) : Option (State × SysResult) :=
  match s.g_ublocks.get base with
  | none => some (s, .error .PERM)
  | some id => do
    let b ← s.heap.get id
    if !resourceAuthorized s caller b.owner then some (s, .error .PERM)
    else match procLookupAny s pid, b.sharers.get pid with
      | some _, some _ => dropEdge s ⟨id, pid⟩ pid base
      | _, _ => some (s, .error .INVAL)

/-! ## 7. Release -/

/-- `free_locked` and `block_release_prepare`.  `destroyable` is the answer of
    the ring's scheme. -/
def freeLocked (s : State) (p base : Nat) (destroyable : Bool) : Option (State × SysResult) := do
  let pr ← s.g_procs.get p
  match pr.blocks.get base with
  | none => some (s, .error .PERM)
  | some id => do
    let b ← s.heap.get id
    if b.dma_maps ∨ b.thread_pins ≠ 0 ∨ b.sharers.len ≠ 0 ∨ (b.ring ∧ !destroyable) then
      some (s, .error .EXIST)
    else do
      let (removed, g_ublocks) ← s.g_ublocks.remove b.base
      if removed = id then
        let s := s.setProc p { pr with blocks := pr.blocks.erase base }
        let s := { s with g_ublocks := g_ublocks, heap := s.heap.erase id }
        -- flagged and pinned here, flushed by the second phase
        let s ← s.withAs b.owner fun as =>
          (asFlag as b.base (b.base + b.bytes) b.kernel_flags).map fun as =>
            { as with pins := as.pins + 1 }
        some ({ s with releasing := s.releasing.set id { b with ring := false } }, .ok 0)
      else none

def umemFree (s : State) (caller base : Nat) (destroyable : Bool) : Option (State × SysResult) :=
  match s.g_ublocks.get base with
  | none => some (s, .error .PERM)
  | some id => do
    let b ← s.heap.get id
    if !resourceAuthorized s caller b.owner then some (s, .error .PERM)
    else freeLocked s b.owner base destroyable

def flushUnpin (as : AddressSpace) : Option AddressSpace :=
  if as.pins = 0 then none else some { asFlush as with pins := as.pins - 1 }

/-- `umem_release_finish`: the pages go back to the allocator and the node is freed. -/
def umemReleaseFinish (s : State) (node : BlockId) : Option State := do
  let b ← s.releasing.get node
  let s ← s.withAs b.owner flushUnpin
  some { s with releasing := s.releasing.erase node }

/-! ## 8. Ownership transfer -/

def dropOldView (s : State) (b : Ublock) (dst : Nat) : Option (State × Ublock) := do
  let tr ← s.g_procs.get dst
  match tr.views.remove b.base with
  | none => some (s, b)
  | some (old_view, views) => do
    let s := s.setProc dst { tr with views := views }
    let ob ← s.heap.get old_view.block
    let notified ← ob.sharers.get old_view.to_
    let s ← umemEdgePendingUnlinkLocked s old_view notified
    let (_, sharers) ← b.sharers.remove dst
    some (s, { b with sharers := sharers })

def umemMoveLocked (s : State) (id : BlockId) (src dst : Nat) : Option (State × SysResult) := do
  let b ← s.heap.get id
  if b.dma_maps ∨ b.thread_pins ≠ 0 then some (s, .error .EXIST)
  else if !b.delegatable then some (s, .error .INVAL)
  else do
    let fr ← s.g_procs.get src
    let (moved_id, blocks) ← fr.blocks.remove b.base
    if moved_id = id then
      let s := s.setProc src { fr with blocks := blocks }
      let (s, b) ← dropOldView s b dst
      let b := { b with owner := dst }
      let s := s.setBlock id b
      let s ← s.reflag src b.base (b.base + b.bytes) b.kernel_flags
      let moved := if b.backing = .DEVICE then b.device_flags ||| PAGE_U
        else PAGE_R ||| PAGE_W ||| PAGE_U
      let s ← s.reflag dst b.base (b.base + b.bytes) moved
      let tr ← s.g_procs.get dst
      let blocks ← tr.blocks.insert b.base id
      some (s.setProc dst { tr with blocks := blocks }, .ok 0)
    else none

def procSysVmMove (s : State) (me base pid : Nat) : Option (State × SysResult) :=
  match procLookup s pid with
  | none => some (s, .error .INVAL)
  | some target =>
    if target.parent = some me then do
      let pr ← s.g_procs.get me
      match umemOwnedLocked pr base with
      | none => some (s, .error .INVAL)
      | some id => do
        let b ← s.heap.get id
        if b.ring then some (s, .error .INVAL) else umemMoveLocked s id me pid
    else some (s, .error .INVAL)

/-! ## 9. Processes -/

def processCreate (s : State) (parent : Option Nat) : Option (State × Nat) := do
  let pid := s.g_next_pid
  let pr : Process :=
    { parent := parent, dead := false, as := some (asClone s.g_as_kernel), children := .empty,
      nthreads := 0, blocks := .empty, views := .empty, unnotified := [] }
  let g_procs ← s.g_procs.insert pid pr
  let s := { s with g_procs := g_procs, g_next_pid := pid + 1 }
  match parent with
  | none => some (s, pid)
  | some q => do
    let qr ← s.g_procs.get q
    let children ← qr.children.insert pid ()
    some (s.setProc q { qr with children := children }, pid)

def PROC_DESTROY_DONE : Nat := 0
def PROC_DESTROY_MORE : Nat := 1

/-- `proc_sys_destroy`.  `running` says whether some CPU has the tree loaded. -/
def procSysDestroy (s : State) (caller pid : Nat) (running : Bool) : Option (State × SysResult) :=
  match procLookupAny s pid with
  | none => some (s, .error .PERM)
  | some target =>
    if !processReaperAuthorizedLocked s.links caller pid then some (s, .error .PERM)
    else if target.blocks.len ≠ 0 ∨ target.views.len ≠ 0 ∨ target.children.len ≠ 0 ∨
        target.nthreads ≠ 0 then
      some (s, .error .EXIST)
    else match target.as with
      | some as =>
        if as.pins ≠ 0 ∨ running then some (s, .error .AGAIN)
        else some (s.setProc pid { target with as := none }, .ok PROC_DESTROY_MORE)
      | none => do
        let parent ← target.parent
        let qr ← s.g_procs.get parent
        let (_, children) ← qr.children.remove pid
        let s := s.setProc parent { qr with children := children }
        some ({ s with g_procs := s.g_procs.erase pid }, .ok PROC_DESTROY_DONE)

/-! ## 10. System calls -/

def VM_PROT_READ : BitVec 64 := 1
def VM_PROT_WRITE : BitVec 64 := 2
def VM_PROT_EXEC : BitVec 64 := 4

def vmProtToFlags (prot : BitVec 64) : PagingFlags :=
  (if prot &&& VM_PROT_READ ≠ 0 then PAGE_R else 0) |||
    (if prot &&& VM_PROT_WRITE ≠ 0 then PAGE_W else 0) |||
    (if prot &&& VM_PROT_EXEC ≠ 0 then PAGE_X else 0)

def vmProtOk (prot : BitVec 64) (allow_none : Bool) : Bool :=
  if prot &&& ~~~7 ≠ 0 then false
  else if prot = 0 then allow_none
  else prot &&& VM_PROT_READ ≠ 0

def sysVmAlloc (s : State) (p len : Nat) (prot : BitVec 64) (o : AllocOutcome) :
    Option (State × SysResult) :=
  if len = 0 ∨ 64 * MIB < len ∨ !vmProtOk prot false then some (s, .error .INVAL)
  else do
    let (s, base) ← umemAlloc s p len (vmProtToFlags prot) o
    match base with
    | none => some (s, .error .NOMEM)
    | some base => some (s, .ok base)

def sysVmProtect (s : State) (p base len : Nat) (prot : BitVec 64) (pid : Nat) :
    Option (State × SysResult) :=
  if !vmProtOk prot true then some (s, .error .INVAL)
  else if pid ≠ 0 ∧ pid ≠ p then
    -- a direct parent applies view flags to its live child
    match procLookup s pid with
    | none => some (s, .error .INVAL)
    | some target =>
      if target.parent = some p then do
        let (s, done) ← umemProtect s pid base len (vmProtToFlags prot)
        some (s, if done then .ok 0 else .error .PERM)
      else some (s, .error .INVAL)
  else do
    let (s, done) ← umemProtect s p base len (vmProtToFlags prot)
    some (s, if done then .ok 0 else .error .PERM)

def sysVmShare (s : State) (p base target : Nat) (prot : BitVec 64) (nodes posted : Bool) :
    Option (State × SysResult) :=
  if !vmProtOk prot false then some (s, .error .INVAL)
  else umemShare s p base target (vmProtToFlags prot) nodes posted

end GovinDos.Umem
