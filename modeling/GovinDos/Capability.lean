/-
  **Capability grants (`kernel/src/capability.c`).**

  A grant is a record in the slab; `heap` holds the records in use and `g_grants` is the
  index from ids to pointers.  Every command runs under `g_umem` and is one step.  A token
  is 32 bytes of user memory: what a command reads is arbitrary, and only the MAC, which
  `mac` stands for, ties it to the kernel.  `none` is a kernel that stopped (`fatal`, a
  failed `asserts`, or a dangling pointer).  The members of the union are kept apart: every
  function reads the member of the grant's own type.
-/
import GovinDos.Abi
import GovinDos.Lib.OrdMap

namespace GovinDos.Capability

/-! ## 1. Tokens and grants -/

def CAP_TOKEN_VERSION : BitVec 8 := 1
def CAP_TOKEN_SIZE : Nat := 32
def KCAP_MAX_DEPTH : Nat := 64

def KCAP_GRANT_DEVMEM : Nat := 1
def KCAP_GRANT_IRQ_ROUTE : Nat := 2
def KCAP_GRANT_IOMMU_DEV : Nat := 3

structure TokenHead where
  version : BitVec 8
  nres : BitVec 8
  reserved : BitVec 48
  grant_id_le : Nat
deriving DecidableEq, Repr

structure CapToken extends TokenHead where
  mac : BitVec 128
deriving DecidableEq, Repr

abbrev Ptr := Nat

structure DevMem where
  base : Nat
  len : Nat
  flags : BitVec 32
deriving DecidableEq, Repr

structure IrqAuth where
  route : Option Nat
  id : Nat
deriving DecidableEq, Repr

structure Grant where
  id : Nat
  type : Nat
  depth : Nat
  wildcard : Bool
  dead : Bool
  devmem : DevMem
  irq : IrqAuth
  iommu : Nat
  parent : Option Ptr
  first_child : Option Ptr
  next_sibling : Option Ptr
  prev_sibling : Option Ptr
deriving DecidableEq, Repr

structure State where
  heap : OrdMap Ptr Grant
  g_grants : OrdMap Nat Ptr
  g_next_grant_id : Nat
  minted : List Nat

def State.modify (s : State) (p : Ptr) (f : Grant → Grant) : Option State := do
  let g ← s.heap.get p
  some { s with heap := s.heap.set p (f g) }

/-! ## 2. Resolving a token -/

/-- The walk of `token_resolve` to the root; `n` more grants may be passed. -/
def liveWalk (s : State) : Nat → Option Ptr → Option (Except SysErr Unit)
  | _, none => some (.ok ())
  | n, some p => do
    let g ← s.heap.get p
    if g.dead then some (.error .DEAD)
    else match n with
      | 0 => some (.error .INVAL)
      | n + 1 => liveWalk s n g.parent

def resolveId (s : State) (id : Nat) (need_live : Bool) (type : Nat) : Option (Except SysErr Ptr) :=
  match s.g_grants.get id with
  | none => some (.error .DEAD)
  | some p => do
    let g ← s.heap.get p
    if type ≠ 0 ∧ g.type ≠ type then some (.error .PERM)
    else if need_live then do
      let walked ← liveWalk s (KCAP_MAX_DEPTH + 1) (some p)
      match walked with
      | .error e => some (.error e)
      | .ok () => some (.ok p)
    else some (.ok p)

section mac

variable (mac : TokenHead → BitVec 128)

def tokenWrite (g : Grant) : CapToken :=
  let head : TokenHead :=
    { version := CAP_TOKEN_VERSION, nres := 0, reserved := 0, grant_id_le := g.id }
  { head with mac := mac head }

def tokenResolve (s : State) (token : CapToken) (need_live : Bool) (type : Nat) :
    Option (Except SysErr Ptr) :=
  if token.version ≠ CAP_TOKEN_VERSION ∨ token.nres ≠ 0 then some (.error .INVAL)
  else if token.reserved ≠ 0 then some (.error .INVAL)
  else if token.mac ≠ mac token.toTokenHead then some (.error .PERM)
  else resolveId s token.grant_id_le need_live type

/-! ## 3. Growing and pruning the tree -/

/-- `slab_grant_zalloc` with the fields `grant_new` sets before it links. -/
def freshGrant (id type depth : Nat) (wildcard : Bool) (parent : Option Ptr) : Grant :=
  { id := id, type := type, depth := depth, wildcard := wildcard, dead := false,
    devmem := ⟨0, 0, 0⟩, irq := ⟨none, 0⟩, iommu := 0, parent := parent, first_child := none,
    next_sibling := none, prev_sibling := none }

def State.setPrev (s : State) (c v : Option Ptr) : Option State :=
  match c with
  | none => some s
  | some c => s.modify c fun g => { g with prev_sibling := v }

def linkChild (s : State) (q p : Ptr) (pg g : Grant) : Option State := do
  let s ← State.setPrev { s with heap := s.heap.set p { g with next_sibling := pg.first_child } }
    pg.first_child (some p)
  s.modify q fun g => { g with first_child := some p }

def takeId (s : State) : State :=
  { s with g_next_grant_id := (s.g_next_grant_id + 1) % 2 ^ 64
           minted := s.g_next_grant_id :: s.minted }

def place (s : State) (parent : Option (Ptr × Grant)) (id type : Nat) (wildcard : Bool) (p : Ptr) :
    Option State :=
  match parent with
  | some (q, pg) => linkChild s q p pg (freshGrant id type (pg.depth + 1) wildcard (some q))
  | none => some { s with heap := s.heap.set p (freshGrant id type 0 wildcard none) }

def enter (s : State) (parent : Option (Ptr × Grant)) (id type : Nat) (wildcard : Bool) (p : Ptr) :
    Option State := do
  let s ← place s parent id type wildcard p
  let g_grants ← s.g_grants.insert id p
  some { s with g_grants := g_grants }

/-- `grant_new`, with the parent's record.  The inner `none` is a null pointer:
    too deep, or no memory. -/
def grantNew (s : State) (parent : Option (Ptr × Grant)) (type : Nat) (wildcard : Bool)
    (slab : Option Ptr) : Option (State × Option Ptr) :=
  if (parent.any fun (_, pg) => KCAP_MAX_DEPTH ≤ pg.depth) then some (s, none)
  else match slab with
    | none => some (s, none)
    | some p =>
      if s.g_next_grant_id = 0 then none
      else do
        let s ← enter (takeId s) parent s.g_next_grant_id type wildcard p
        some (s, some p)

def linkPast (s : State) (g : Grant) (q : Ptr) : Option State :=
  match g.prev_sibling with
  | some c => s.modify c fun x => { x with next_sibling := g.next_sibling }
  | none => s.modify q fun x => { x with first_child := g.next_sibling }

def unlinkChild (s : State) (g : Grant) (q : Ptr) : Option State := do
  let s ← linkPast s g q
  s.setPrev g.next_sibling g.prev_sibling

def unlink (s : State) (g : Grant) : Option State :=
  match g.parent with
  | some q => unlinkChild s g q
  | none => some s

def grantDeleteLeaf (s : State) (p : Ptr) : Option State := do
  let g ← s.heap.get p
  if g.first_child = none then do
    let s ← unlink s g
    let (removed, g_grants) ← s.g_grants.remove g.id
    if removed = p then some { s with g_grants := g_grants, heap := s.heap.erase p } else none
  else none

/-- The loop of `revoke_step`, down the first children. -/
def deepest (s : State) : Nat → Ptr → Option Ptr
  | 0, _ => none
  | n + 1, p => do
    let g ← s.heap.get p
    match g.first_child with
    | none => some p
    | some c => deepest s n c

def revokeStep (s : State) (target : Ptr) : Option (State × SysResult) := do
  let s ← s.modify target fun g => { g with dead := true }
  let leaf ← deepest s (KCAP_MAX_DEPTH + 1) target
  let s ← grantDeleteLeaf s leaf
  some (s, if leaf = target then .ok 0 else .error .AGAIN)

/-! ## 4. Attenuation -/

def KCAP_PARAM_P0 : BitVec 32 := 1
def KCAP_PARAM_P1 : BitVec 32 := 2
def KCAP_PARAM_P2 : BitVec 32 := 4

structure SubgrantReq where
  token_off : Nat
  token_len : Nat
  p0 : Nat
  p1 : Nat
  p2 : Nat
  present : BitVec 32
  reserved : Nat
  reserved2 : Nat

def SubgrantReq.has (req : SubgrantReq) (p : BitVec 32) : Bool := req.present &&& p ≠ 0

def addOverflows (base len : Nat) : Bool := len = 0 || 2 ^ 64 ≤ base + len

def devmemRequest (req : SubgrantReq) (parent : Grant) : DevMem where
  base := if req.has KCAP_PARAM_P0 then req.p0 else parent.devmem.base
  len := if req.has KCAP_PARAM_P1 then req.p1 else parent.devmem.len
  flags := if req.has KCAP_PARAM_P2 then BitVec.ofNat 32 req.p2 else parent.devmem.flags

def devmemCheck (req : SubgrantReq) (parent : Grant) : Option SysErr :=
  let d := devmemRequest req parent
  if (req.has KCAP_PARAM_P2 ∧ req.p2 / 2 ^ 32 ≠ 0) ∨ addOverflows d.base d.len ∨
      (!parent.wildcard ∧
        (addOverflows parent.devmem.base parent.devmem.len ∨ d.base < parent.devmem.base ∨
          parent.devmem.base + parent.devmem.len < d.base + d.len)) ∨
      (!parent.wildcard ∧ d.flags &&& ~~~parent.devmem.flags ≠ 0) then some .PERM
  else if parent.wildcard ∧ req.present ≠ 7 then some .INVAL
  else none

/-- The route of a request.  `routes` answers `irq_route_for_gsi_locked` with a
    slot and its current id. -/
def irqRequest (routes : Nat → Option (Nat × Nat)) (req : SubgrantReq) (parent : Grant) : IrqAuth :=
  if parent.wildcard then
    match if req.has KCAP_PARAM_P0 then routes req.p0 else none with
    | none => ⟨none, 0⟩
    | some (slot, id) => ⟨some slot, id⟩
  else parent.irq

def irqCheck (routes : Nat → Option (Nat × Nat)) (req : SubgrantReq) (parent : Grant) :
    Option SysErr :=
  if req.has (KCAP_PARAM_P1 ||| KCAP_PARAM_P2) then some .INVAL
  else if parent.wildcard then
    if (irqRequest routes req parent).route = none then some .INVAL else none
  else if req.has KCAP_PARAM_P0 ∧ req.p0 ≠ parent.irq.id then some .PERM
  else none

def iommuRequest (req : SubgrantReq) (parent : Grant) : Nat :=
  if req.has KCAP_PARAM_P0 then req.p0 else parent.iommu

def iommuCheck (req : SubgrantReq) (parent : Grant) : Option SysErr :=
  if iommuRequest req parent / 2 ^ 32 ≠ 0 ∨ (parent.wildcard ∧ !req.has KCAP_PARAM_P0) ∨
      (!parent.wildcard ∧ iommuRequest req parent ≠ parent.iommu) ∨
      req.has (KCAP_PARAM_P1 ||| KCAP_PARAM_P2) then some .PERM
  else none

def subgrantCheck (routes : Nat → Option (Nat × Nat)) (req : SubgrantReq) (parent : Grant) :
    Option SysErr :=
  if parent.type = KCAP_GRANT_DEVMEM then devmemCheck req parent
  else if parent.type = KCAP_GRANT_IRQ_ROUTE then irqCheck routes req parent
  else if parent.type = KCAP_GRANT_IOMMU_DEV then iommuCheck req parent
  else some .INVAL

def setParams (routes : Nat → Option (Nat × Nat)) (req : SubgrantReq) (parent child : Grant) : Grant :=
  if parent.type = KCAP_GRANT_DEVMEM then { child with devmem := devmemRequest req parent }
  else if parent.type = KCAP_GRANT_IRQ_ROUTE then { child with irq := irqRequest routes req parent }
  else if parent.type = KCAP_GRANT_IOMMU_DEV then { child with iommu := iommuRequest req parent % 2 ^ 32 }
  else child

/-- `subgrant`: the child is made first and deleted again if its request is refused. -/
def subgrant (routes : Nat → Option (Nat × Nat)) (s : State) (req : SubgrantReq) (parent : Ptr)
    (slab : Option Ptr) : Option (State × Except SysErr CapToken) := do
  let pg ← s.heap.get parent
  if req.reserved ≠ 0 ∨ req.reserved2 ≠ 0 ∨ req.present &&& ~~~7 ≠ 0 then some (s, .error .INVAL)
  else if KCAP_MAX_DEPTH ≤ pg.depth then some (s, .error .NOMEM)
  else do
    let (s, child) ← grantNew s (some (parent, pg)) pg.type false slab
    match child with
    | none => some (s, .error .NOMEM)
    | some c => do
      let s ← s.modify c (setParams routes req pg)
      match subgrantCheck routes req pg with
      | some e => do
        let s ← grantDeleteLeaf s c
        some (s, .error e)
      | none => do
        let g ← s.heap.get c
        some (s, .ok (tokenWrite mac g))

/-! ## 5. Commands -/

structure QueryReq where
  token_off : Nat
  token_len : Nat

structure QueryResult where
  grant_id : Nat
  p0 : Nat
  p1 : Nat
  p2 : Nat
  type : Nat
  depth : Nat
  live : Bool
  wildcard : Bool
deriving DecidableEq, Repr

/-- A ring block as the kernel's copies read it: hostile memory, at any offset. -/
structure Ring where
  bytes : Nat
  token : Nat → CapToken
  subgrant_req : Nat → SubgrantReq
  query_req : Nat → QueryReq

def ringRange (ring : Ring) (off len : Nat) : Bool := off ≤ ring.bytes && len ≤ ring.bytes - off

def resolveRing (s : State) (ring : Ring) (off len : Nat) (need_live : Bool) (type : Nat) :
    Option (Except SysErr Ptr) :=
  if len ≠ CAP_TOKEN_SIZE ∨ !ringRange ring off len then some (.error .INVAL)
  else tokenResolve mac s (ring.token off) need_live type

def capVerifyRingLocked (s : State) (ring : Ring) (off len type : Nat) :
    Option (Except SysErr Ptr) :=
  resolveRing mac s ring off len true type

def KCAP_SUBGRANT : Nat := 1
def KCAP_REVOKE : Nat := 2
def KCAP_QUERY : Nat := 3

def SUBGRANT_REQ_SIZE : Nat := 56
def QUERY_REQ_SIZE : Nat := 16
def QUERY_RESULT_SIZE : Nat := 48

/-- What a command leaves: its status, what it wrote into the block, and the new
    first argument of its entry. -/
structure Reply where
  status : SysResult
  token : Option CapToken
  query : Option QueryResult
  a : Option Nat

def Reply.of (status : SysResult) : Reply := ⟨status, none, none, none⟩

def subgrantExec (routes : Nat → Option (Nat × Nat)) (s : State) (ring : Ring) (sqe : Ksqe)
    (slab : Option Ptr) : Option (State × Reply) :=
  if sqe.b ≠ 0 ∨ !ringRange ring sqe.a SUBGRANT_REQ_SIZE ∨ !ringRange ring sqe.c CAP_TOKEN_SIZE then
    some (s, .of (.error .INVAL))
  else
    let req := ring.subgrant_req sqe.a
    do
    let resolved ← capVerifyRingLocked mac s ring req.token_off req.token_len 0
    match resolved with
    | .error e => some (s, .of (.error e))
    | .ok parent => do
      let (s, made) ← subgrant mac routes s req parent slab
      match made with
      | .error e => some (s, .of (.error e))
      | .ok token => some (s, ⟨.ok 0, some token, none, some token.grant_id_le⟩)

def revokeExec (s : State) (ring : Ring) (sqe : Ksqe) : Option (State × Reply) :=
  if sqe.b ≠ CAP_TOKEN_SIZE ∨ !ringRange ring sqe.a sqe.b then some (s, .of (.error .INVAL))
  else do
    let resolved ← tokenResolve mac s (ring.token sqe.a) false 0
    match resolved with
    | .error e => some (s, .of (.error e))
    | .ok target => do
      let (s, rc) ← revokeStep s target
      some (s, .of rc)

def queryLive (s : State) : Nat → Option Ptr → Option Bool
  | _, none => some true
  | 0, some _ => none
  | n + 1, some p => do
    let g ← s.heap.get p
    let above ← queryLive s n g.parent
    some (!g.dead && above)

def queryResult (g : Grant) (live : Bool) : QueryResult :=
  let q : QueryResult := { grant_id := g.id, p0 := 0, p1 := 0, p2 := 0, type := g.type,
                           depth := g.depth, live := live, wildcard := g.wildcard }
  if g.type = KCAP_GRANT_DEVMEM then
    { q with p0 := g.devmem.base, p1 := g.devmem.len, p2 := g.devmem.flags.toNat }
  else if g.type = KCAP_GRANT_IRQ_ROUTE then
    { q with p0 := if g.wildcard then 2 ^ 64 - 1 else g.irq.id }
  else { q with p0 := if g.wildcard then 2 ^ 64 - 1 else g.iommu }

def queryExec (s : State) (ring : Ring) (sqe : Ksqe) : Option (State × Reply) :=
  if !ringRange ring sqe.a QUERY_REQ_SIZE ∨ !ringRange ring sqe.c QUERY_RESULT_SIZE then
    some (s, .of (.error .INVAL))
  else
    let req := ring.query_req sqe.a
    do
    let resolved ← resolveRing mac s ring req.token_off req.token_len false 0
    match resolved with
    | .error e => some (s, .of (.error e))
    | .ok p => do
      let g ← s.heap.get p
      let live ← queryLive s (KCAP_MAX_DEPTH + 1) (some p)
      some (s, ⟨.ok 0, none, some (queryResult g live), none⟩)

def capExec (routes : Nat → Option (Nat × Nat)) (s : State) (ring : Ring) (sqe : Ksqe)
    (slab : Option Ptr) : Option (State × Reply) :=
  if sqe.op = KCAP_SUBGRANT then subgrantExec mac routes s ring sqe slab
  else if sqe.op = KCAP_REVOKE then revokeExec mac s ring sqe
  else if sqe.op = KCAP_QUERY then queryExec mac s ring sqe
  else some (s, .of (.error .NOSYS))

def capCreateIrqRouteLocked (s : State) (parent : Ptr) (slot id : Nat) (slab : Option Ptr) :
    Option (State × Except SysErr CapToken) := do
  let pg ← s.heap.get parent
  if pg.type ≠ KCAP_GRANT_IRQ_ROUTE ∨ pg.dead ∨ !pg.wildcard then some (s, .error .PERM)
  else do
    let (s, child) ← grantNew s (some (parent, pg)) KCAP_GRANT_IRQ_ROUTE false slab
    match child with
    | none => some (s, .error .NOMEM)
    | some c => do
      let s ← s.modify c fun g => { g with irq := ⟨some slot, id⟩ }
      let g ← s.heap.get c
      some (s, .ok (tokenWrite mac g))

/-- What `allocate_msi_on_ring` does to the grants.  `free` is the slot it found and the
    id it gave it, if the ring has room. -/
def msiExec (s : State) (ring : Ring) (sqe : Ksqe) (free : Option (Nat × Nat)) (slab : Option Ptr) :
    Option (State × Reply) := do
  let resolved ← capVerifyRingLocked mac s ring sqe.a sqe.b KCAP_GRANT_IRQ_ROUTE
  match resolved with
  | .error e => some (s, .of (.error e))
  | .ok parent =>
    if !ringRange ring sqe.c CAP_TOKEN_SIZE then some (s, .of (.error .INVAL))
    else match free with
      | none => some (s, .of (.error .NOMEM))
      | some (slot, id) => do
        let (s, made) ← capCreateIrqRouteLocked mac s parent slot id slab
        match made with
        | .error e => some (s, .of (.error e))
        | .ok token => some (s, ⟨.ok 0, some token, none, some id⟩)

/-! ## 6. Boot -/

def emptyState : State :=
  { heap := .empty, g_grants := .empty, g_next_grant_id := 1, minted := [] }

def bootRoot (s : State) (type : Nat) (slab : Option Ptr) : Option State := do
  let (s, g) ← grantNew s none type true slab
  if g.isSome then some s else none

def capabilityBootstrap (d q m : Option Ptr) : Option State := do
  let s ← bootRoot emptyState KCAP_GRANT_DEVMEM d
  let s ← bootRoot s KCAP_GRANT_IRQ_ROUTE q
  bootRoot s KCAP_GRANT_IOMMU_DEV m

end mac

end GovinDos.Capability
