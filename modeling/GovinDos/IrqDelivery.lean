/-
  **Interrupts and their events (`kernel/src/schemes/irq.c`, `channel.c`).**

  `IrqRoute` takes the answers of the completion queue from outside.  Here the queue is part
  of the state, with the client that consumes it.  A section under the route's lock loads
  `cq_head` twice, to retire the event that is out and, inside `channel_post_data`, to find
  room; others may run in between, so a section is two steps with the lock held.

  The indices have 32 bits.  `posted` and `taken` count the same events without a bound, and
  `events` lists where in the queue the events of a route are since it was claimed.
-/
import GovinDos.IrqRoute
import GovinDos.Lib.RingBuffer
import GovinDos.Lib.Run
import GovinDos.Ring

namespace GovinDos.Irq

/-! ## 1. The completion queue -/

structure Queue where
  nslots : UInt32
  cq_count : UInt32
  cq_head : UInt32
  posted : Nat
  taken : Nat
deriving DecidableEq, Repr

def Queue.fresh (nslots : UInt32) : Queue := ⟨nslots, 0, 0, 0, 0⟩

def Queue.full (q : Queue) : Bool := q.nslots ≤ q.cq_count - q.cq_head

def Queue.push (q : Queue) : Queue :=
  { q with cq_count := q.cq_count + 1, posted := q.posted + 1 }

def Queue.take (q : Queue) (n : Nat) : Queue :=
  { q with cq_head := q.cq_head + UInt32.ofNat n, taken := q.taken + n }

def cqeConsumed (consumed ev_index : UInt32) : Bool := 0 < (consumed - ev_index).toInt32

/-- `held` says that the lock of a route is held between the two steps of a section. -/
structure System where
  irq : State
  queue : Nat → Queue
  held : Nat → Bool
  events : Nat → List Nat

def System.answers (s : System) : Answers where
  slab := none
  program := true
  consumed i := match (s.irq.g_routes i).ring with
    | none => false
    | some ring =>
      cqeConsumed (s.queue ring).cq_head (UInt32.ofNat (s.irq.g_routes i).ev_index)
  post i := match (s.irq.g_routes i).ring with
    | none => none
    | some ring => if (s.queue ring).full then none else some (s.queue ring).cq_count.toNat

/-! ## 2. Sections -/

def Route.pending (r : Route) : Bool :=
  !(decide (r.ring = none) || r.posted || decide (r.raised = r.acked))

theorem Route.not_pending_iff (r : Route) :
    r.pending = false ↔ r.ring = none ∨ r.posted = true ∨ r.raised = r.acked := by
  simp only [Route.pending, Bool.not_eq_false', Bool.or_eq_true, decide_eq_true_eq, or_assoc]

/-- The section of route `i`, up to the post: the lock, the change of the route, and
    `retire_locked`. -/
def System.enter (s : System) (i : Nat) (route : Route) : System :=
  let route := retireLocked s.answers i route
  { s with irq := s.irq.setRoute i route, held := Function.update s.held i route.pending }

def System.post (s : System) (i : Nat) : System :=
  let route := s.irq.g_routes i
  let held := Function.update s.held i false
  match route.ring with
  | none => { s with held := held }
  | some ring =>
    let q := s.queue ring
    if q.full then { s with held := held }
    else
      { irq := s.irq.setRoute i { route with posted := true, ev_index := q.cq_count.toNat }
        queue := Function.update s.queue ring q.push
        held := held
        events := Function.update s.events i (s.events i ++ [q.posted]) }

inductive System.Op
  | deliver (vector : Nat)
  | ack (ring gsi seq : Nat)
  | replay (ring i : Nat)
  | post (i : Nat)
  | claim (ring i cookie : Nat) (program : Bool)
  | release (ring gsi : Nat)
  | msi (ring : Nat) (made : Bool)
  | complete (ring : Nat)
  | consume (ring n : Nat)
  | create (ring order : Nat)
  | destroy (ring : Nat)
deriving DecidableEq

namespace System

def deliver (s : System) (vector : Nat) : Option System :=
  let i := vector - VECTOR_DEVICE_BASE
  let route := s.irq.g_routes i
  if s.held i then none
  else if route.ring = none then
    some { s with irq := s.irq.setRoute i { route with spurious_logged := true } }
  else some (s.enter i { route with raised := (route.raised + 1) % 2 ^ 64 })

def ack (s : System) (ring gsi seq : Nat) : Option System :=
  match routeForId s.irq gsi with
  | none => some s
  | some i =>
    if s.held i then none
    else if (s.irq.g_routes i).ring ≠ some ring then some s
    else some (s.enter i { s.irq.g_routes i with acked := seq })

def replay (s : System) (ring i : Nat) : Option System := do
  let r ← s.irq.rings.get ring
  if i ∉ r.irq_claims ∨ s.held i then none
  else if (s.irq.g_routes i).ring = some ring then some (s.enter i (s.irq.g_routes i))
  else some s

def bound (s : System) (i : Nat) (irq : State) : System :=
  { s with irq := irq, events := Function.update s.events i [] }

def claim (s : System) (ring i cookie : Nat) (program : Bool) : Option System :=
  if s.held i then none
  else (Irq.claim { s.answers with program := program } s.irq ring (some i) cookie).map fun r =>
    if (s.irq.g_routes i).ring = none then s.bound i r.1 else { s with irq := r.1 }

def release (s : System) (ring gsi : Nat) : Option System :=
  if (routeForId s.irq gsi).any s.held then none
  else (Irq.release s.irq ring gsi).map fun r => { s with irq := r.1 }

def msi (s : System) (ring : Nat) (made : Bool) : Option System := do
  let r ← s.irq.rings.get ring
  if r.full then some s
  else match freeSlot s.irq with
    | none => some s
    | some i =>
      if s.held i then none
      else
        let taken := s.irq.allocate ring r i
        some (s.bound i (if made then taken else taken.abandon ring r i))

def complete (s : System) (ring : Nat) : System :=
  if (s.queue ring).full then s
  else { s with queue := Function.update s.queue ring (s.queue ring).push }

def consume (s : System) (ring n : Nat) : Option System :=
  if (s.queue ring).taken + n ≤ (s.queue ring).posted then
    some { s with queue := Function.update s.queue ring ((s.queue ring).take n) }
  else none

def create (s : System) (ring order : Nat) : Option System :=
  if s.irq.rings.get ring = none then
    let nslots := Channel.KRING_NSLOTS order
    some { s with
      irq := s.irq.setRing ring ⟨nslots.toNat, 0, []⟩
      queue := Function.update s.queue ring (.fresh nslots) }
  else none

def destroy (s : System) (ring : Nat) : Option System := do
  let r ← s.irq.rings.get ring
  if r.irq_claims.any s.held then none
  else (irqEndpointDestroy s.irq ring).map fun irq => { s with irq := irq }

def step (s : System) : System.Op → Option System
  | .deliver vector => s.deliver vector
  | .ack ring gsi seq => s.ack ring gsi seq
  | .replay ring i => s.replay ring i
  | .post i => if s.held i then some (s.post i) else none
  | .claim ring i cookie program => s.claim ring i cookie program
  | .release ring gsi => s.release ring gsi
  | .msi ring made => s.msi ring made
  | .complete ring => some (s.complete ring)
  | .consume ring n => s.consume ring n
  | .create ring order => s.create ring order
  | .destroy ring => s.destroy ring

def boot (irq : State) : System := ⟨irq, fun _ => .fresh 0, fun _ => false, fun _ => []⟩

theorem post_enter (s : System) (i : Nat) (route : Route)
    (hring : route.ring = (s.irq.g_routes i).ring) :
    (if (s.enter i route).held i then (s.enter i route).post i else s.enter i route).irq =
      s.irq.setRoute i (postPendingLocked s.answers i route) := by
  have hkeep : (retireLocked s.answers i route).ring = (s.irq.g_routes i).ring := by
    rw [← hring]
    unfold retireLocked
    split <;> rfl
  simp only [enter, Function.update_self, postPendingLocked]
  generalize retireLocked s.answers i route = r at hkeep ⊢
  cases hp : r.pending with
  | false =>
    rw [if_pos ((Route.not_pending_iff r).mp hp)]
    rfl
  | true =>
    have hno : ¬ (r.ring = none ∨ r.posted = true ∨ r.raised = r.acked) := by
      rw [← Route.not_pending_iff, hp]
      simp
    rw [if_neg hno]
    cases hsome : (s.irq.g_routes i).ring with
    | none => exact absurd (.inl (hkeep.trans hsome)) hno
    | some ring =>
      have hpost : s.answers.post i =
          if (s.queue ring).full then none else some (s.queue ring).cq_count.toNat := by
        simp [answers, hsome]
      simp only [post, State.setRoute, Function.update_self, hkeep, hsome, hpost, if_true]
      split <;> simp

end System

end GovinDos.Irq
