/-
  **Interrupt routes (`kernel/src/schemes/irq.c`).**

  A route belongs to a device vector and is named by its slot.  Pin routes have an IOAPIC
  pin behind them (`present`); the others are the pool from which `KIRQ_MSI` allocates.  A
  route is handed out as a grant that records its id, generation and slot in one word.

  Commands run under `g_umem`, deliveries under the route lock; both are one step.  What the
  IOAPIC, the completion queue and the slab allocator answer comes in with the step; masking
  a pin has no effect on this state and is left out.
-/
import GovinDos.Capability

namespace GovinDos.Irq

open Capability (CapToken TokenHead)

/-! ## 1. Routes -/

def VECTOR_DEVICE_BASE : Nat := 0x30
def VECTOR_DEVICE_END : Nat := 0xEF
def IRQ_ROUTE_COUNT : Nat := VECTOR_DEVICE_END - VECTOR_DEVICE_BASE + 1

inductive TriggerMode
  | EDGE
  | LEVEL
deriving DecidableEq, Repr

structure Route where
  ring : Option Nat
  cookie : Nat
  raised : Nat
  acked : Nat
  ev_index : Nat
  gsi : Nat
  mode : TriggerMode
  generation : BitVec 16
  present : Bool
  allocated : Bool
  posted : Bool
  spurious_logged : Bool
deriving DecidableEq, Repr

structure Ring where
  nslots : Nat
  nclaims : Nat
  irq_claims : List Nat
deriving DecidableEq, Repr

structure State where
  cap : Capability.State
  g_routes : Nat → Route
  g_bsp_apic_id : Nat
  rings : OrdMap Nat Ring
  bumps : Nat → Nat

structure Answers where
  slab : Option Capability.Ptr
  program : Bool
  consumed : Nat → Bool
  post : Nat → Option Nat

def State.setRoute (s : State) (i : Nat) (r : Route) : State :=
  { s with g_routes := Function.update s.g_routes i r }

def State.setRing (s : State) (ring : Nat) (r : Ring) : State :=
  { s with rings := s.rings.set ring r }

def routeForGsi (s : State) (gsi : Nat) : Option Nat :=
  if IRQ_ROUTE_COUNT ≤ gsi ∨ !(s.g_routes gsi).present then none else some gsi

def routeId (route : Route) : Nat := (route.generation.toNat <<< 16) ||| route.gsi

/-- The two arms of `route_for_id`: a pin by its number, an allocated slot by its id. -/
def routeForId (s : State) (id : Nat) : Option Nat :=
  if id < IRQ_ROUTE_COUNT ∧ (s.g_routes id).present then some id
  else
    let idx := id % 2 ^ 16
    let generation := id / 2 ^ 16 % 2 ^ 16
    if IRQ_ROUTE_COUNT ≤ idx ∨ generation = 0 then none
    else if (s.g_routes idx).allocated ∧ (s.g_routes idx).generation.toNat = generation then some idx
    else none

def nextGeneration (g : BitVec 16) : BitVec 16 := if g + 1 = 0 then g + 1 + 1 else g + 1

def State.bump (s : State) (i : Nat) : State :=
  { s with g_routes := Function.update s.g_routes i
             { s.g_routes i with generation := nextGeneration (s.g_routes i).generation }
           bumps := Function.update s.bumps i (s.bumps i + 1) }

/-! ## 2. Delivery -/

def retireLocked (ans : Answers) (i : Nat) (route : Route) : Route :=
  if route.posted ∧ route.ring ≠ none ∧ ans.consumed i then { route with posted := false } else route

def postPendingLocked (ans : Answers) (i : Nat) (route : Route) : Route :=
  let route := retireLocked ans i route
  if route.ring = none ∨ route.posted ∨ route.raised = route.acked then route
  else match ans.post i with
    | none => route
    | some index => { route with posted := true, ev_index := index }

def irqDeliver (ans : Answers) (s : State) (vector : Nat) : State :=
  let i := vector - VECTOR_DEVICE_BASE
  let route := s.g_routes i
  if route.ring = none then s.setRoute i { route with spurious_logged := true }
  else s.setRoute i
    (postPendingLocked ans i { route with raised := (route.raised + 1) % 2 ^ 64 })

def irqReplay (ans : Answers) (s : State) (ring : Nat) : Option State := do
  let r ← s.rings.get ring
  some (r.irq_claims.foldl (fun s i =>
    if (s.g_routes i).ring = some ring then s.setRoute i (postPendingLocked ans i (s.g_routes i))
    else s) s)

/-! ## 3. Claims -/

structure Reply where
  status : SysResult
  token : Option CapToken
  a : Option Nat
  b : Option Nat

def Reply.of (status : SysResult) : Reply := ⟨status, none, none, none⟩

def Ring.full (r : Ring) : Bool := r.nslots < 2 * (r.nclaims + 1)

def Route.bind (route : Route) (ring : Nat) (cookie : Nat) : Route :=
  { route with ring := some ring, cookie := cookie, raised := 0, acked := 0, posted := false,
               spurious_logged := false }

def Ring.push (r : Ring) (i : Nat) : Ring :=
  { r with irq_claims := i :: r.irq_claims, nclaims := r.nclaims + 1 }

def claim (ans : Answers) (s : State) (ring : Nat) (route : Option Nat) (cookie : Nat) :
    Option (State × Reply) :=
  match route with
  | none => some (s, .of (.error .INVAL))
  | some i => do
    let r ← s.rings.get ring
    if r.full then some (s, .of (.error .NOMEM))
    else if (s.g_routes i).ring ≠ none then some (s, .of (.error .EXIST))
    else if !ans.program then some (s, .of (.error .INVAL))
    else some ((s.setRoute i ((s.g_routes i).bind ring cookie)).setRing ring (r.push i), .of (.ok 0))

/-- A route lets go of its ring; a slot of the pool goes back with a new generation. -/
def State.unbind (s : State) (i : Nat) : State :=
  let s := s.setRoute i { s.g_routes i with ring := none, posted := false }
  if (s.g_routes i).present then s
  else (s.setRoute i { s.g_routes i with allocated := false }).bump i

def release (s : State) (ring : Nat) (gsi : Nat) : Option (State × Reply) :=
  match routeForId s gsi with
  | none => some (s, .of (.error .INVAL))
  | some i =>
    if (s.g_routes i).ring ≠ some ring then some (s, .of (.error .INVAL))
    else do
      let r ← s.rings.get ring
      if i ∈ r.irq_claims then
        some ((s.unbind i).setRing ring
          { r with irq_claims := r.irq_claims.erase i, nclaims := r.nclaims - 1 }, .of (.ok 0))
      else none

def ack (ans : Answers) (s : State) (ring : Nat) (gsi seq : Nat) : State × Reply :=
  match routeForId s gsi with
  | none => (s, .of (.error .INVAL))
  | some i =>
    if (s.g_routes i).ring ≠ some ring then (s, .of (.error .INVAL))
    else (s.setRoute i (postPendingLocked ans i { s.g_routes i with acked := seq }), .of (.ok 0))

/-! ## 4. MSI -/

/-- The search of `allocate_msi_on_ring`, from the last slot down. -/
def freeSlot (s : State) : Option Nat :=
  (List.range IRQ_ROUTE_COUNT).reverse.find? fun i =>
    !(s.g_routes i).present && !(s.g_routes i).allocated

def State.allocate (s : State) (ring : Nat) (r : Ring) (i : Nat) : State :=
  let s := s.bump i
  let route := { s.g_routes i with allocated := true, mode := .EDGE }
  (s.setRoute i (route.bind ring (routeId route))).setRing ring (r.push i)

def State.abandon (s : State) (ring : Nat) (r : Ring) (i : Nat) : State :=
  ((s.setRoute i { s.g_routes i with ring := none, allocated := false }).bump i).setRing ring r

section mac

variable (mac : TokenHead → BitVec 128)

def allocateMsiOnRing (ans : Answers) (s : State) (ring : Nat) (mem : Capability.Ring) (sqe : Ksqe) :
    Option (State × Reply) := do
  let resolved ← Capability.capVerifyRingLocked mac s.cap mem sqe.a sqe.b
    Capability.KCAP_GRANT_IRQ_ROUTE
  match resolved with
  | .error e => some (s, .of (.error e))
  | .ok parent =>
    if !Capability.ringRange mem sqe.c Capability.CAP_TOKEN_SIZE then some (s, .of (.error .INVAL))
    else do
      let r ← s.rings.get ring
      if r.full then some (s, .of (.error .NOMEM))
      else match freeSlot s with
        | none => some (s, .of (.error .NOMEM))
        | some i => do
          let taken := s.allocate ring r i
          let id := routeId (taken.g_routes i)
          let (cap, made) ← Capability.capCreateIrqRouteLocked mac s.cap parent i id ans.slab
          match made with
          | .error e => some ({ taken.abandon ring r i with cap := cap }, .of (.error e))
          | .ok token => some ({ taken with cap := cap }, ⟨.ok 0, some token, some id, none⟩)

def capIrqRoute (s : State) (g : Capability.Grant) : Option Nat :=
  match g.irq.route with
  | none => none
  | some i => if routeId (s.g_routes i) ≠ g.irq.id then none else some i

def KIRQ_MSI_PACK (route data : Nat) : Nat := (route <<< 32) ||| data

def msiAddress (s : State) (route : Option Nat) : Reply :=
  match route with
  | none => .of (.error .INVAL)
  | some i =>
    if (s.g_routes i).present ∨ !(s.g_routes i).allocated then .of (.error .INVAL)
    else ⟨.ok 0, none, some (0xFEE00000 ||| (s.g_bsp_apic_id <<< 12)),
      some (KIRQ_MSI_PACK (routeId (s.g_routes i)) (VECTOR_DEVICE_BASE + (s.g_routes i).gsi))⟩

/-! ## 5. Commands -/

def KIRQ_CLAIM : Nat := 1
def KIRQ_RELEASE : Nat := 2
def KIRQ_ACK : Nat := 3
def KIRQ_MSI : Nat := 4
def KIRQ_MSI_ADDR : Nat := 5

/-- The grant behind a token in the ring's block, if it is live and of this scheme. -/
def verified (s : State) (mem : Capability.Ring) (sqe : Ksqe) :
    Option (Except SysErr Capability.Grant) := do
  let resolved ← Capability.capVerifyRingLocked mac s.cap mem sqe.a sqe.b
    Capability.KCAP_GRANT_IRQ_ROUTE
  match resolved with
  | .error e => some (.error e)
  | .ok p => do
    let g ← s.cap.heap.get p
    some (.ok g)

def irqExec (ans : Answers) (s : State) (ring : Nat) (mem : Capability.Ring) (sqe : Ksqe) :
    Option (State × Reply) :=
  if sqe.op = KIRQ_CLAIM then do
    let g ← verified mac s mem sqe
    match g with
    | .error e => some (s, .of (.error e))
    | .ok g => claim ans s ring (capIrqRoute s g) sqe.c
  else if sqe.op = KIRQ_RELEASE then release s ring sqe.a
  else if sqe.op = KIRQ_ACK then some (ack ans s ring sqe.a sqe.b)
  else if sqe.op = KIRQ_MSI then allocateMsiOnRing mac ans s ring mem sqe
  else if sqe.op = KIRQ_MSI_ADDR then do
    let g ← verified mac s mem sqe
    match g with
    | .error e => some (s, .of (.error e))
    | .ok g => some (s, msiAddress s (capIrqRoute s g))
  else some (s, .of (.error .NOSYS))

/-- What `cap_exec` asks of this scheme: the route of a pin, with its id. -/
def routes (s : State) (gsi : Nat) : Option (Nat × Nat) :=
  (routeForGsi s gsi).map fun i => (i, routeId (s.g_routes i))

def capExec (slab : Option Capability.Ptr) (s : State) (mem : Capability.Ring) (sqe : Ksqe) :
    Option (State × Capability.Reply) := do
  let (cap, reply) ← Capability.capExec mac (routes s) s.cap mem sqe slab
  some ({ s with cap := cap }, reply)

end mac

def irqEndpointDestroy (s : State) (ring : Nat) : Option State := do
  let r ← s.rings.get ring
  let s := r.irq_claims.foldl State.unbind s
  some { s with rings := s.rings.erase ring }

def irqSchemeInit (cap : Capability.State) (pins : Nat → Option TriggerMode) (apic : Nat) : State where
  cap := cap
  g_routes := fun i =>
    { ring := none, cookie := 0, raised := 0, acked := 0, ev_index := 0, gsi := i,
      mode := (pins i).getD .EDGE, generation := 0, present := (pins i).isSome,
      allocated := false, posted := false, spurious_logged := false }
  g_bsp_apic_id := apic
  rings := .empty
  bumps := fun _ => 0

end GovinDos.Irq
