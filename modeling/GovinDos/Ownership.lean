/-
  **The ownership graph (`kernel/src/umem.c`, `channel.c`, `schemes/shares.c`).**

  Blocks, share edges and the indices over them, with the page trees left out, which `Umem`
  has; but with the links of the pending lists and the scheme endpoints.  Each function is a
  section under `g_umem`; `Stop` says why it has no outcome.

  A block is named by its node in the owner's tree, an edge by block and pid.  `sharers` is
  kept beside the block records, and the memory fields of `struct process` beside those the
  process tree uses: a change of one leaves the other alone by construction.
-/
import GovinDos.Abi
import GovinDos.Lib.OrdMap
import GovinDos.ProcessTree
import GovinDos.Umem

namespace GovinDos

inductive Stop where
  | disabled
  | assert
  | fault
deriving DecidableEq

def deref {α : Type} : Option α → Except Stop α
  | some a => .ok a
  | none => .error .fault

def asserts (b : Bool) : Except Stop Unit := if b then .ok () else .error .assert

def assertSome {α : Type} : Option α → Except Stop α
  | some a => .ok a
  | none => .error .assert

namespace Ownership

open Paging
open Umem (BlockId EdgeRef Backing)

/-! ## 1. Records -/

inductive Scheme where
  | CAP | SHARES | TREE | IRQ | IOMMU
deriving DecidableEq, Repr

def Scheme.anchored : Scheme → Bool
  | .SHARES => true
  | .TREE => true
  | .IOMMU => true
  | _ => false

structure ShareEdge where
  notified : Bool
  pending_prev : Option EdgeRef
  pending_next : Option EdgeRef
deriving DecidableEq

/-- `struct ublock` without its `sharers`.  A ring is known by its scheme. -/
structure Ublock where
  base : Nat
  order : Nat
  bytes : Nat
  backing : Backing
  device_flags : PagingFlags
  delegatable : Bool
  owner : Nat
  ring : Option Scheme
  dma_maps : Nat
  thread_pins : Nat

/-- The memory part of `struct process`, with only the pins of the address space; `anchor`
    is `share_ch`, `tree_ch` and `iommu_ch`, each naming the block its ring hangs off. -/
structure ProcMem where
  as : Option Nat
  blocks : OrdMap Nat BlockId
  views : OrdMap Nat EdgeRef
  unnotified_head : Option EdgeRef
  unnotified_tail : Option EdgeRef
  anchor : Scheme → Option BlockId

def ProcMem.none : ProcMem := ⟨Option.none, .empty, .empty, Option.none, Option.none,
  fun _ => Option.none⟩

/-- `releasing` names the process whose address space a release has pinned. -/
structure State where
  heap : BlockId → Option Ublock
  sharers : BlockId → OrdMap Nat ShareEdge
  g_ublocks : OrdMap Nat BlockId
  releasing : BlockId → Option Nat
  mem : Nat → ProcMem

def State.setMem (g : State) (p : Nat) (m : ProcMem) : State :=
  { g with mem := Function.update g.mem p m }

def State.setBlock (g : State) (id : BlockId) (b : Ublock) : State :=
  { g with heap := Function.update g.heap id (some b) }

def State.edge (g : State) (e : EdgeRef) : Option ShareEdge := (g.sharers e.block).get e.to_

def State.setEdge (g : State) (e : EdgeRef) (x : ShareEdge) : State :=
  { g with sharers := Function.update g.sharers e.block ((g.sharers e.block).set e.to_ x) }

/-! ## 2. The pending list -/

def setNext (g : State) (e : EdgeRef) (v : Option EdgeRef) : Except Stop State := do
  let x ← deref (g.edge e)
  pure (g.setEdge e { x with pending_next := v })

def setPrev (g : State) (e : EdgeRef) (v : Option EdgeRef) : Except Stop State := do
  let x ← deref (g.edge e)
  pure (g.setEdge e { x with pending_prev := v })

def State.setHead (g : State) (p : Nat) (v : Option EdgeRef) : State :=
  g.setMem p { g.mem p with unnotified_head := v }

def State.setTail (g : State) (p : Nat) (v : Option EdgeRef) : State :=
  g.setMem p { g.mem p with unnotified_tail := v }

def pendingLink (g : State) (e : EdgeRef) : Except Stop State := do
  let x ← deref (g.edge e)
  asserts (!x.notified && x.pending_prev.isNone && x.pending_next.isNone)
  let tail := (g.mem e.to_).unnotified_tail
  let g ← setPrev g e tail
  let g ← match tail with
    | some t => setNext g t (some e)
    | none => pure (g.setHead e.to_ (some e))
  pure (g.setTail e.to_ (some e))

def unlinkPrev (g : State) (e : EdgeRef) (x : ShareEdge) : Except Stop State :=
  match x.pending_prev with
  | some q => setNext g q x.pending_next
  | none => pure (g.setHead e.to_ x.pending_next)

def unlinkNext (g : State) (e : EdgeRef) (x : ShareEdge) : Except Stop State :=
  match x.pending_next with
  | some n => setPrev g n x.pending_prev
  | none => pure (g.setTail e.to_ x.pending_prev)

def umemEdgePendingUnlinkLocked (g : State) (e : EdgeRef) : Except Stop State := do
  let x ← deref (g.edge e)
  if x.notified then pure g
  else do
    let g ← unlinkPrev g e x
    let g ← unlinkNext g e x
    let g ← setPrev g e none
    setNext g e none

def announce (g : State) (e : EdgeRef) : Except Stop State := do
  let g ← umemEdgePendingUnlinkLocked g e
  let x ← deref (g.edge e)
  pure (g.setEdge e { x with notified := true })

/-- `channel_edge_notify`.  `room` says whether the ring, if there is one, takes
    the event. -/
def channelEdgeNotify (g : State) (e : EdgeRef) (room : Bool) : Except Stop State :=
  if ((g.mem e.to_).anchor .SHARES).isSome && room then announce g e else pure g

def sharesReplay : Nat → State → Nat → Except Stop State
  | 0, g, _ => pure g
  | room + 1, g, p => match (g.mem p).unnotified_head with
    | none => pure g
    | some e => do
      let g ← announce g e
      sharesReplay room g p

/-! ## 3. Blocks appear -/

def State.addBlock (g : State) (id : BlockId) (b : Ublock) : State :=
  { g.setBlock id b with sharers := Function.update g.sharers id .empty }

def umemAllocPublish (g : State) (p base order : Nat) (id : BlockId) : Except Stop State := do
  let m := g.mem p
  let blocks ← assertSome (m.blocks.insert base id)
  let g := (g.setMem p { m with blocks := blocks }).addBlock id
    { base := base, order := order, bytes := PAGE_SIZE * 2 ^ order, backing := .RAM,
      device_flags := 0, delegatable := true, owner := p, ring := none, dma_maps := 0,
      thread_pins := 0 }
  let g_ublocks ← assertSome (g.g_ublocks.insert base id)
  pure { g with g_ublocks := g_ublocks }

def deviceOverlap (g : State) (base end_ : Nat) : Bool :=
  g.g_ublocks.entries.any fun e => match g.heap e.2 with
    | none => false
    | some b => b.backing = .DEVICE && base < b.base + b.bytes && b.base < end_

def umemMapDeviceLocked (pl : PlatformMem.Platform) (g : State) (p base len : Nat)
    (flags : BitVec 32) (node : Option BlockId) : Except Stop (State × SysResult) :=
  match PlatformMem.platformMemValidateDevice pl base len flags with
  | none => pure (g, .error .INVAL)
  | some (_, delegatable) =>
    if deviceOverlap g base (base + len) then pure (g, .error .EXIST)
    else match node with
      | none => pure (g, .error .NOMEM)
      | some id => do
        let m := g.mem p
        let _ ← deref m.as
        match m.blocks.insert base id with
        | none => pure (g, .error .NOMEM)
        | some blocks => do
          let g := (g.setMem p { m with blocks := blocks }).addBlock id
            { base := base, order := 0, bytes := len, backing := .DEVICE,
              device_flags := Umem.deviceFlags flags, delegatable := delegatable, owner := p,
              ring := none, dma_maps := 0, thread_pins := 0 }
          let g_ublocks ← assertSome (g.g_ublocks.insert base id)
          pure ({ g with g_ublocks := g_ublocks }, .ok 0)

/-! ## 4. Sharing -/

def live (tab : ProcTable) (pid : Nat) : Bool := (tab pid).isSome && !processIsDead tab pid

def deviceRefuses (b : Ublock) (prot : PagingFlags) : Bool :=
  b.backing = .DEVICE && (prot &&& ~~~b.device_flags ≠ 0 || prot &&& PAGE_X ≠ 0)

/-- `umem_share` from its first section on.  `nodes` says whether the slab
    allocator had both nodes. -/
def umemShare (tab : ProcTable) (g : State) (p base target : Nat) (prot : PagingFlags)
    (nodes room : Bool) : Except Stop (State × SysResult) :=
  if !nodes then pure (g, .error .NOMEM)
  else match (g.mem p).blocks.get base with
    | none => pure (g, .error .INVAL)
    | some id => do
      let b ← deref (g.heap id)
      if !live tab target || target = p || b.ring.isSome || b.thread_pins ≠ 0 || !b.delegatable ||
          deviceRefuses b prot then
        pure (g, .error .INVAL)
      else if ((g.sharers id).get target).isSome then pure (g, .error .EXIST)
      else do
        let e : EdgeRef := ⟨id, target⟩
        let g := g.setEdge e ⟨false, none, none⟩
        let g ← pendingLink g e
        let m := g.mem target
        let views ← assertSome (m.views.insert b.base e)
        let g := g.setMem target { m with views := views }
        let _ ← deref m.as
        let g ← channelEdgeNotify g e room
        pure (g, .ok 0)

def dropEdge (g : State) (e : EdgeRef) (target base : Nat) : Except Stop (State × SysResult) := do
  let m := g.mem target
  let (removed_view, views) ← assertSome (m.views.remove base)
  asserts (removed_view = e)
  let g := g.setMem target { m with views := views }
  let g ← umemEdgePendingUnlinkLocked g e
  let (_, sharers) ← assertSome ((g.sharers e.block).remove target)
  let g := { g with sharers := Function.update g.sharers e.block sharers }
  let _ ← deref (g.mem target).as
  pure (g, .ok 0)

def umemDropshare (tab : ProcTable) (g : State) (caller base pid : Nat) :
    Except Stop (State × SysResult) :=
  let target := if pid = 0 ∨ pid = caller then caller else pid
  if (tab target).isNone || (target ≠ caller && !processReaperAuthorizedLocked tab caller target) then
    pure (g, .error .PERM)
  else match (g.mem target).views.get base with
    | none => pure (g, .error .INVAL)
    | some e => do
      let _ ← deref (g.heap e.block)
      dropEdge g e target base

def resourceAuthorized (tab : ProcTable) (caller owner : Nat) : Bool :=
  caller = owner || processReaperAuthorizedLocked tab caller owner

def umemUnshare (tab : ProcTable) (g : State) (caller base pid : Nat) :
    Except Stop (State × SysResult) :=
  match g.g_ublocks.get base with
  | none => pure (g, .error .PERM)
  | some id => do
    let b ← deref (g.heap id)
    if !resourceAuthorized tab caller b.owner then pure (g, .error .PERM)
    else if (tab pid).isNone || ((g.sharers id).get pid).isNone then pure (g, .error .INVAL)
    else dropEdge g ⟨id, pid⟩ pid base

/-! ## 5. Rings -/

def channelSchemeCreate (g : State) (p base : Nat) (scheme : Option Scheme) :
    Except Stop (State × SysResult) :=
  match (g.mem p).blocks.get base with
  | none => pure (g, .error .INVAL)
  | some id => do
    let b ← deref (g.heap id)
    if b.backing ≠ .RAM || b.ring.isSome || b.thread_pins ≠ 0 || (g.sharers id).len ≠ 0 then
      pure (g, .error .INVAL)
    else match scheme with
      | none => pure (g, .error .INVAL)
      | some sc =>
        let m := g.mem p
        if sc.anchored && (m.anchor sc).isSome then pure (g, .error .EXIST)
        else
          let g := g.setBlock id { b with ring := some sc }
          pure (if sc.anchored then
            g.setMem p { m with anchor := Function.update m.anchor sc (some id) } else g, .ok 0)

def channelRingDestroy (g : State) (id : BlockId) (b : Ublock) : Except Stop State :=
  match b.ring with
  | none => pure g
  | some sc =>
    if sc.anchored then do
      let m := g.mem b.owner
      asserts (m.anchor sc = some id)
      pure (g.setMem b.owner { m with anchor := Function.update m.anchor sc none })
    else pure g

def channelBlockDestroyable (b : Ublock) (destroyable : Bool) : Bool :=
  b.ring ≠ some .IOMMU || destroyable

/-! ## 6. Release and transfer -/

def freeLocked (g : State) (p base : Nat) (destroyable : Bool) : Except Stop (State × SysResult) :=
  match (g.mem p).blocks.get base with
  | none => pure (g, .error .PERM)
  | some id => do
    let b ← deref (g.heap id)
    if b.dma_maps ≠ 0 || b.thread_pins ≠ 0 || (g.sharers id).len ≠ 0 ||
        !channelBlockDestroyable b destroyable then
      pure (g, .error .EXIST)
    else do
      let m := g.mem p
      let (extracted, blocks) ← assertSome (m.blocks.remove base)
      let g := g.setMem p { m with blocks := blocks }
      let (removed, g_ublocks) ← assertSome (g.g_ublocks.remove b.base)
      asserts (removed = id)
      asserts (extracted = id)
      let g := { g with g_ublocks := g_ublocks }
      let g ← channelRingDestroy g id b
      let m := g.mem b.owner
      let pins ← deref m.as
      let g := g.setMem b.owner { m with as := some (pins + 1) }
      pure ({ g with
        heap := Function.update g.heap id none
        releasing := Function.update g.releasing id (some b.owner) }, .ok 0)

def umemFree (tab : ProcTable) (g : State) (caller base : Nat) (destroyable : Bool) :
    Except Stop (State × SysResult) :=
  match g.g_ublocks.get base with
  | none => pure (g, .error .PERM)
  | some id => do
    let b ← deref (g.heap id)
    if !resourceAuthorized tab caller b.owner then pure (g, .error .PERM)
    else freeLocked g b.owner base destroyable

def umemReleaseFinish (g : State) (id : BlockId) : Except Stop State := do
  let p ← deref (g.releasing id)
  let m := g.mem p
  let pins ← deref m.as
  asserts (pins ≠ 0)
  let g := g.setMem p { m with as := some (pins - 1) }
  pure { g with releasing := Function.update g.releasing id none }

def dropOldView (g : State) (id : BlockId) (b : Ublock) (dst : Nat) : Except Stop State :=
  let m := g.mem dst
  match m.views.remove b.base with
  | none => pure g
  | some (old_view, views) => do
    let g := g.setMem dst { m with views := views }
    let g ← umemEdgePendingUnlinkLocked g old_view
    let (_, sharers) ← assertSome ((g.sharers id).remove dst)
    pure { g with sharers := Function.update g.sharers id sharers }

def umemMoveLocked (g : State) (id : BlockId) (src dst : Nat) : Except Stop (State × SysResult) := do
  let b ← deref (g.heap id)
  if b.dma_maps ≠ 0 || b.thread_pins ≠ 0 then pure (g, .error .EXIST)
  else if !b.delegatable then pure (g, .error .INVAL)
  else do
    let m := g.mem src
    let (extracted, blocks) ← assertSome (m.blocks.remove b.base)
    asserts (extracted = id)
    let g := g.setMem src { m with blocks := blocks }
    let g ← dropOldView g id b dst
    let g := g.setBlock id { b with owner := dst }
    let _ ← deref (g.mem src).as
    let _ ← deref (g.mem dst).as
    let m := g.mem dst
    let blocks ← assertSome (m.blocks.insert b.base id)
    pure (g.setMem dst { m with blocks := blocks }, .ok 0)

def procSysVmMove (tab : ProcTable) (g : State) (me base pid : Nat) :
    Except Stop (State × SysResult) :=
  if live tab pid && ((tab pid).bind (·.parent)) = some me then
    match (g.mem me).blocks.get base with
    | none => pure (g, .error .INVAL)
    | some id => do
      let b ← deref (g.heap id)
      if b.ring.isSome then pure (g, .error .INVAL) else umemMoveLocked g id me pid
  else pure (g, .error .INVAL)

/-! ## 7. Pins of thread completions, and the IOMMU's attachments -/

def pinCompletion (g : State) (p : Nat) (id : BlockId) : Option State :=
  match g.heap id with
  | none => none
  | some b =>
    if b.owner = p ∧ b.backing = .RAM ∧ b.ring = none ∧ (g.sharers id).len = 0 then
      some (g.setBlock id { b with thread_pins := b.thread_pins + 1 })
    else none

def channelThreadCompleteLocked (g : State) (p : Nat) (id : BlockId) : Except Stop State := do
  let b ← deref (g.heap id)
  asserts (b.owner = p)
  asserts (b.thread_pins ≠ 0)
  pure (g.setBlock id { b with thread_pins := b.thread_pins - 1 })

def setDmaMaps (g : State) (id : BlockId) (dma_maps : Nat) : State :=
  match g.heap id with
  | none => g
  | some b => g.setBlock id { b with dma_maps := dma_maps }

end Ownership

end GovinDos
