/-
  **Threads between CPUs, run queues and futexes (`kernel/src/thread.c`,
  `scheduler.c`, `futex.c`, `timer.c`, the thread calls of `process.c`).**

  A step is a section under a bucket, timer, scheduler or memory lock, one compare-and-swap
  of `wake_state`, or one load or store of a thread's fields outside a lock.  A section with
  a compare-and-swap in it is cut there: the lock stays held between its parts.  Where a CPU
  is in its code is `Ctx`, for the thread it runs or disposes of, and `Work`, for the futex,
  timer and destroy calls.

  A freed control block is not reused: a step that follows a pointer to it has no outcome
  (`Stop.fault`).  Left out are the address checks and the death checkpoints at kernel entry,
  which only remove steps, and the saved register frames.  `parks`, `expected`, `publisher`
  and `log` record history.
-/
import Mathlib
import GovinDos.Kernel

namespace GovinDos.Thread

open Kernel (Status)

/-! ## 1. Records -/

inductive FutexState where
  | IDLE | PARKED | MOVING | CLAIMED | REAPABLE
deriving DecidableEq, Repr

structure FutexKey where
  address : Nat
  seq : Nat

instance : LinearOrder FutexKey :=
  LinearOrder.lift' (fun k => toLex (k.address, k.seq)) fun k k' h => by
    cases k; cases k'; simpa using h

structure TdeadlineKey where
  deadline_ns : Nat
  tid : Nat

instance : LinearOrder TdeadlineKey :=
  LinearOrder.lift' (fun k => toLex (k.deadline_ns, k.tid)) fun k k' h => by
    cases k; cases k'; simpa using h

structure Tcb where
  proc : Nat
  status : Status
  on_cpu : Bool
  wake_state : FutexState
  wait_key : FutexKey
  deadline : Nat
  deadline_cpu : Nat
  completion_block : Option Nat
  completion_event : Nat
  parks : Nat
  expected : UInt32

def threadNew (proc : Nat) (completion : Option (Nat × Nat)) : Tcb where
  proc := proc
  status := .RUNNABLE
  on_cpu := false
  wake_state := .IDLE
  wait_key := ⟨0, 0⟩
  deadline := 0
  deadline_cpu := 0
  completion_block := completion.map (·.1)
  completion_event := (completion.map (·.2)).getD 0
  parks := 0
  expected := 0

structure Ublock where
  owner : Nat
  thread_pins : Nat
  sharers : Nat
  ring : Bool
  writable : Bool
deriving DecidableEq

inductive Wake where
  | woken | timedOut
deriving DecidableEq, Repr

inductive Disposition where
  | runnable (result : Wake)
  | freed
deriving DecidableEq, Repr

/-! ## 2. Where a CPU is -/

inductive Ctx where
  | loop
  | popped (t : Nat)
  | user (t : Nat)
  | kernel (t : Nat)
  | waiting (t addr : Nat) (expected : UInt32) (deadline : Nat)
  | parking (t : Nat)
  | left (t : Nat)
  /-- Back in `scheduler_loop`, `on_cpu` cleared, `prev->status` not yet read. -/
  | saved (t : Nat)
  | off (t : Nat)
  /-- In `process_thread_exited`, after the completion word was published. -/
  | closing (t : Nat)
deriving DecidableEq

/-- A claimed thread in `finish_claimed`; `hooked` where its node has still to be
    removed. -/
structure Claim where
  thread : Nat
  result : Wake
  hooked : Bool
deriving DecidableEq

inductive Work where
  | idle
  | wake (addr cap : Nat)
  | publish (addr : Nat) (value : UInt32)
  | detach (addr cap next_seq : Nat) (batch : List Nat)
  /-- The compare-and-swap of `detach_batch_locked` succeeded. -/
  | unhook (addr cap next_seq : Nat) (batch : List Nat) (key : FutexKey) (t : Nat)
  | finish (batch : List Claim)
  | settle (t : Nat) (result : Wake) (rest : List Claim)
  | unblock (t : Nat) (result : Wake) (rest : List Claim)
  | release (t : Nat) (result : Wake) (rest : List Claim)
  | enqueue (t : Nat) (result : Wake) (rest : List Claim)
  | requeue (src dst : Nat) (expected : UInt32) (cap : Nat)
  | scan (src dst cap next_seq moved : Nat)
  | relink (src dst cap next_seq moved : Nat) (key : FutexKey) (t : Nat)
  | interrupt (now : Nat)
  | expire (now : Nat) (seek : TdeadlineKey) (batch : List Nat)
  | pop (now : Nat) (seek : TdeadlineKey) (batch : List Nat) (key : TdeadlineKey) (t : Nat)
  /-- `proc_sys_thread_destroy`, before the load of `on_cpu`, of `status`, of
      `wake_state`, and before `futex_try_claim`. -/
  | victim (t : Nat)
  | victimOff (t : Nat)
  | victimBlocked (t : Nat)
  | victimParked (t : Nat)
  | reap (t : Nat)
  | reapCancel (t : Nat)
  | free (t : Nat)
deriving DecidableEq

structure Cpu where
  ctx : Ctx
  work : Work

structure State where
  thread : Nat → Option Tcb
  waiters : Nat → OrdMap FutexKey Nat
  bucketLock : Nat → Option Nat
  deadlines : Nat → OrdMap TdeadlineKey Nat
  timerLock : Nat → Bool
  queue : Nat → List Nat
  cpu : Nat → Cpu
  umem : Option Nat
  dead : Nat → Bool
  block : Nat → Option Ublock
  word : Nat → UInt32
  publisher : Nat → Option Nat
  g_futex_seq : Nat
  g_next_tid : Nat
  log : List (Nat × Nat × Disposition)

namespace State

def setTcb (s : State) (t : Nat) (x : Option Tcb) : State :=
  { s with thread := Function.update s.thread t x }

def setWaiters (s : State) (b : Nat) (m : OrdMap FutexKey Nat) : State :=
  { s with waiters := Function.update s.waiters b m }

def setDeadlines (s : State) (c : Nat) (m : OrdMap TdeadlineKey Nat) : State :=
  { s with deadlines := Function.update s.deadlines c m }

def setQueue (s : State) (c : Nat) (l : List Nat) : State :=
  { s with queue := Function.update s.queue c l }

def push (s : State) (c t : Nat) : State := s.setQueue c (s.queue c ++ [t])

def lockBucket (s : State) (b : Nat) (holder : Option Nat) : State :=
  { s with bucketLock := Function.update s.bucketLock b holder }

def lockTimer (s : State) (c : Nat) (held : Bool) : State :=
  { s with timerLock := Function.update s.timerLock c held }

def setBlock (s : State) (b : Nat) (x : Option Ublock) : State :=
  { s with block := Function.update s.block b x }

def setWord (s : State) (addr : Nat) (value : UInt32) : State :=
  { s with word := Function.update s.word addr value }

def publishWord (s : State) (c addr : Nat) (value : UInt32) : State :=
  { s.setWord addr value with publisher := Function.update s.publisher addr (some c) }

def setUmem (s : State) (holder : Option Nat) : State := { s with umem := holder }

def bumpSeq (s : State) : State := { s with g_futex_seq := s.g_futex_seq + 1 }

def ended (s : State) (t park : Nat) (d : Disposition) : State :=
  { s with log := s.log ++ [(t, park, d)] }

def goto (s : State) (c : Nat) (w : Work) : State :=
  { s with cpu := Function.update s.cpu c { s.cpu c with work := w } }

def switch (s : State) (c : Nat) (x : Ctx) : State :=
  { s with cpu := Function.update s.cpu c { s.cpu c with ctx := x } }

end State

def await (b : Bool) (s : Except Stop State) : Except Stop State := if b then s else .error .disabled

/-! ## 3. Wake and finish (`futex.c`, `thread.c`) -/

section

variable (hash : Nat → Nat) (s : State) (c : Nat)

def nextWaiter (addr seq : Nat) : Option (FutexKey × Nat) :=
  ((s.waiters (hash addr)).lowerBound ⟨addr, seq⟩).filter (·.1.address = addr)

def wakeBatch (addr cap : Nat) : Except Stop State :=
  await (s.bucketLock (hash addr)).isNone
    (.ok ((s.lockBucket (hash addr) (some c)).goto c (.detach addr cap 0 [])))

def futexPublishWake (addr : Nat) (value : UInt32) : Except Stop State :=
  await (s.bucketLock (hash addr)).isNone
    (.ok (((s.lockBucket (hash addr) (some c)).publishWord c addr value).goto c (.detach addr 1 0 [])))

def detachBatchLocked (addr cap next_seq : Nat) (batch : List Nat) : Except Stop State :=
  match if batch.length < cap then nextWaiter hash s addr next_seq else none with
  | none => .ok ((s.lockBucket (hash addr) none).goto c
      (.finish (batch.map fun t => ⟨t, .woken, false⟩)))
  | some (key, t) => do
    let x ← deref (s.thread t)
    if x.wake_state = .PARKED then
      pure ((s.setTcb t (some { x with wake_state := .CLAIMED })).goto c
        (.unhook addr cap (key.seq + 1) batch key t))
    else pure (s.goto c (.detach addr cap (key.seq + 1) batch))

def unhook (addr cap next_seq : Nat) (batch : List Nat) (key : FutexKey) (t : Nat) :
    Except Stop State := do
  let (removed, m) ← assertSome ((s.waiters (hash addr)).remove key)
  asserts (removed = t)
  pure ((s.setWaiters (hash addr) m).goto c (.detach addr cap next_seq (batch ++ [t])))

/-- The bucket section of `futex_expire_claimed` and `futex_reap_claimed`. -/
def removeNode (t : Nat) (w : Work) : Except Stop State := do
  let x ← deref (s.thread t)
  await (s.bucketLock (hash x.wait_key.address)).isNone do
    let (removed, m) ← assertSome ((s.waiters (hash x.wait_key.address)).remove x.wait_key)
    asserts (removed = t)
    pure ((s.setWaiters (hash x.wait_key.address) m).goto c w)

def timerDeadlineCancel (t : Nat) (w : Work) : Except Stop State := do
  let x ← deref (s.thread t)
  if x.deadline = 0 then pure (s.goto c w)
  else await (!s.timerLock x.deadline_cpu) (pure
    (((s.setDeadlines x.deadline_cpu ((s.deadlines x.deadline_cpu).erase ⟨x.deadline, t⟩)).setTcb t
      (some { x with deadline := 0 })).goto c w))

def finish : List Claim → Except Stop State
  | [] => .ok (s.goto c .idle)
  | ⟨t, result, true⟩ :: rest => removeNode hash s c t (.finish (⟨t, result, false⟩ :: rest))
  | ⟨t, result, false⟩ :: rest => timerDeadlineCancel s c t (.settle t result rest)

def settle (t : Nat) (result : Wake) (rest : List Claim) : Except Stop State := do
  let x ← deref (s.thread t)
  if s.dead x.proc then
    pure ((s.setTcb t (some { x with wake_state := .REAPABLE })).goto c (.finish rest))
  else pure (s.goto c (.unblock t result rest))

def threadUnblockClaimed (t : Nat) (result : Wake) (rest : List Claim) : Except Stop State := do
  let x ← deref (s.thread t)
  await (!x.on_cpu) do
    asserts (x.status = .BLOCKED)
    asserts (x.wake_state = .CLAIMED)
    pure ((s.setTcb t (some { x with status := .RUNNABLE })).goto c (.release t result rest))

def release (t : Nat) (result : Wake) (rest : List Claim) : Except Stop State := do
  let x ← deref (s.thread t)
  pure ((s.setTcb t (some { x with wake_state := .IDLE })).goto c (.enqueue t result rest))

def schedulerEnqueue (target t : Nat) (result : Wake) (rest : List Claim) : Except Stop State := do
  let x ← deref (s.thread t)
  pure (((s.push target t).ended t x.parks (.runnable result)).goto c (.finish rest))

/-! ## 4. Requeue (`futex.c`) -/

def futexSysRequeue (src dst : Nat) (expected : UInt32) (cap : Nat) : Except Stop State :=
  await ((s.bucketLock (hash src)).isNone && (s.bucketLock (hash dst)).isNone)
    (.ok (if s.word src = expected then
        ((s.lockBucket (hash src) (some c)).lockBucket (hash dst) (some c)).goto c
          (.scan src dst cap 0 0)
      else s.goto c .idle))

def scan (src dst cap next_seq moved : Nat) : Except Stop State :=
  match if moved < cap then nextWaiter hash s src next_seq else none with
  | none => .ok (((s.lockBucket (hash src) none).lockBucket (hash dst) none).goto c .idle)
  | some (key, t) => do
    let x ← deref (s.thread t)
    if x.wake_state = .PARKED then
      pure ((s.setTcb t (some { x with wake_state := .MOVING })).goto c
        (.relink src dst cap (key.seq + 1) moved key t))
    else pure (s.goto c (.scan src dst cap (key.seq + 1) moved))

def relink (src dst cap next_seq moved : Nat) (key : FutexKey) (t : Nat) : Except Stop State := do
  let (extracted, m) ← assertSome ((s.waiters (hash src)).remove key)
  asserts (extracted = t)
  let x ← deref (s.thread t)
  let s₁ := s.setWaiters (hash src) m
  let m' ← assertSome ((s₁.waiters (hash dst)).insert ⟨dst, s.g_futex_seq⟩ t)
  pure (((s₁.setWaiters (hash dst) m').bumpSeq.setTcb t
    (some { x with wait_key := ⟨dst, s.g_futex_seq⟩, wake_state := .PARKED })).goto c
      (.scan src dst cap next_seq (moved + 1)))

/-! ## 5. Deadlines (`timer.c`) -/

def TIMER_IRQ_BATCH : Nat := 64

def timerCpuInterrupt (now : Nat) : Except Stop State :=
  await (!s.timerLock c) (.ok ((s.lockTimer c true).goto c (.expire now ⟨0, 0⟩ [])))

def expire (now : Nat) (seek : TdeadlineKey) (batch : List Nat) : Except Stop State :=
  match if batch.length < TIMER_IRQ_BATCH then
      ((s.deadlines c).lowerBound seek).filter (·.1.deadline_ns ≤ now) else none with
  | none => .ok ((s.lockTimer c false).goto c
      (.finish (batch.map fun t => ⟨t, .timedOut, true⟩)))
  | some (key, t) => do
    let x ← deref (s.thread t)
    -- `futex_try_claim` spins on `MOVING`
    await (x.wake_state != .MOVING) (pure
      (if x.wake_state = .PARKED then
        (s.setTcb t (some { x with wake_state := .CLAIMED })).goto c
          (.pop now ⟨key.deadline_ns, key.tid + 1⟩ batch key t)
      else s.goto c (.expire now ⟨key.deadline_ns, key.tid + 1⟩ batch)))

def popDeadline (now : Nat) (seek : TdeadlineKey) (batch : List Nat) (key : TdeadlineKey) (t : Nat) :
    Except Stop State := do
  let (removed, m) ← assertSome ((s.deadlines c).remove key)
  asserts (removed = t)
  let x ← deref (s.thread t)
  pure (((s.setDeadlines c m).setTcb t (some { x with deadline := 0 })).goto c
    (.expire now seek (batch ++ [t])))

/-! ## 6. Compare and park (`futex.c`) -/

/-- `futex_sys_wait` with its node under `key`; `armed` says whether
    `timer_deadline_arm` found memory. -/
def armAndPark (t : Nat) (x : Tcb) (key : FutexKey) (expected : UInt32) (deadline : Nat)
    (armed : Bool) : Except Stop State :=
  if deadline = 0 then
    pure ((s.setTcb t (some { x with
      wait_key := key, deadline := 0, wake_state := .PARKED, parks := x.parks + 1
      expected := expected })).switch c (.parking t))
  else match if armed then (s.deadlines c).insert ⟨deadline, t⟩ t else none with
    | none => do
      let (_, m) ← assertSome ((s.waiters (hash key.address)).remove key)
      pure (((s.setWaiters (hash key.address) m).setTcb t
        (some { x with wait_key := key, deadline := 0 })).switch c (.kernel t))
    | some d =>
      pure (((s.setDeadlines c d).setTcb t (some { x with
        wait_key := key, deadline := deadline, deadline_cpu := c, wake_state := .PARKED
        parks := x.parks + 1, expected := expected })).switch c (.parking t))

/-- The bucket section of `futex_sys_wait`; `node` says whether the insertion found
    memory. -/
def comparePark (t addr : Nat) (expected : UInt32) (deadline : Nat) (node armed : Bool) :
    Except Stop State :=
  await (s.bucketLock (hash addr)).isNone
    (if s.word addr = expected then do
      let x ← deref (s.thread t)
      match if node then (s.waiters (hash addr)).insert ⟨addr, s.g_futex_seq⟩ t else none with
      | none => pure (s.bumpSeq.switch c (.kernel t))
      | some m =>
        armAndPark hash (s.bumpSeq.setWaiters (hash addr) m) c t x ⟨addr, s.g_futex_seq⟩ expected
          deadline armed
    else .ok (s.switch c (.kernel t)))

/-! ## 7. Completion words and disposal (`process.c`, `channel.c`) -/

def GDOS_THREAD_COMPLETE : UInt32 := 1

def checkCompletion (x : Tcb) : Except Stop Unit :=
  match x.completion_block with
  | none => .ok ()
  | some b => do
    let blk ← assertSome (s.block b)
    asserts (blk.owner = x.proc)
    asserts (blk.thread_pins ≠ 0)

def unpin (x : Tcb) : State :=
  match x.completion_block with
  | none => s
  | some b => s.setBlock b ((s.block b).map fun blk => { blk with thread_pins := blk.thread_pins - 1 })

def processThreadExited (t : Nat) : Except Stop State :=
  await s.umem.isNone do
    let x ← deref (s.thread t)
    checkCompletion s x
    let s := (s.setUmem (some c)).switch c (.closing t)
    if x.completion_block.isSome && !s.dead x.proc then
      pure (s.goto c (.publish x.completion_event GDOS_THREAD_COMPLETE))
    else pure s

def threadFree (t : Nat) : Except Stop State := do
  let x ← deref (s.thread t)
  pure ((((unpin s x).setTcb t none).setUmem none).switch c .loop)

/-- `proc_sys_thread_destroy` with the subject's `on_cpu`, `status` and `wake_state`. -/
def victim (t : Nat) : Except Stop State := do
  let x ← deref (s.thread t)
  if x.on_cpu then pure ((s.setUmem none).goto c .idle) else pure (s.goto c (.victimOff t))

def victimOff (t : Nat) : Except Stop State := do
  let x ← deref (s.thread t)
  if x.status = .BLOCKED then pure (s.goto c (.victimBlocked t))
  else pure ((s.setUmem none).goto c .idle)

def victimBlocked (t : Nat) : Except Stop State := do
  let x ← deref (s.thread t)
  match x.wake_state with
  | .PARKED => pure (s.goto c (.victimParked t))
  | .REAPABLE => pure (s.goto c (.free t))
  | _ => pure ((s.setUmem none).goto c .idle)

def victimParked (t : Nat) : Except Stop State := do
  let x ← deref (s.thread t)
  await (x.wake_state != .MOVING) (pure
    (if x.wake_state = .PARKED then
      (s.setTcb t (some { x with wake_state := .CLAIMED })).goto c (.reap t)
    else (s.setUmem none).goto c .idle))

def destroyFree (t : Nat) : Except Stop State := do
  let x ← deref (s.thread t)
  checkCompletion s x
  pure (((((unpin s x).setTcb t none).ended t x.parks .freed).setUmem none).goto c .idle)

def advance (target : Nat) : Except Stop State :=
  match (s.cpu c).work with
  | .idle => .error .disabled
  | .wake addr cap => wakeBatch hash s c addr cap
  | .publish addr value => futexPublishWake hash s c addr value
  | .detach addr cap next_seq batch => detachBatchLocked hash s c addr cap next_seq batch
  | .unhook addr cap next_seq batch key t => unhook hash s c addr cap next_seq batch key t
  | .finish batch => finish hash s c batch
  | .settle t result rest => settle s c t result rest
  | .unblock t result rest => threadUnblockClaimed s c t result rest
  | .release t result rest => release s c t result rest
  | .enqueue t result rest => schedulerEnqueue s c target t result rest
  | .requeue src dst expected cap => futexSysRequeue hash s c src dst expected cap
  | .scan src dst cap next_seq moved => scan hash s c src dst cap next_seq moved
  | .relink src dst cap next_seq moved key t => relink hash s c src dst cap next_seq moved key t
  | .interrupt now => timerCpuInterrupt s c now
  | .expire now seek batch => expire s c now seek batch
  | .pop now seek batch key t => popDeadline s c now seek batch key t
  | .victim t => victim s c t
  | .victimOff t => victimOff s c t
  | .victimBlocked t => victimBlocked s c t
  | .victimParked t => victimParked s c t
  | .reap t => removeNode hash s c t (.reapCancel t)
  | .reapCancel t => timerDeadlineCancel s c t (.free t)
  | .free t => destroyFree s c t

/-! ## 8. Dispatch and park (`scheduler.c`, `thread.c`) -/

def popLocal : Except Stop State :=
  match s.queue c with
  | [] => .error .disabled
  | t :: rest => do
    let x ← deref (s.thread t)
    if s.dead x.proc then
      pure (((s.setQueue c rest).setTcb t (some { x with status := .DEAD })).switch c (.off t))
    else pure ((s.setQueue c rest).switch c (.popped t))

def install (t : Nat) : Except Stop State := do
  let x ← deref (s.thread t)
  pure ((s.setTcb t (some { x with status := .RUNNING, on_cpu := true })).switch c (.user t))

def uthreadParkYield (t : Nat) : Except Stop State := do
  let x ← deref (s.thread t)
  pure (((s.setTcb t (some { x with status := .RUNNABLE })).push c t).switch c (.left t))

def uthreadParkExit (t : Nat) : Except Stop State := do
  let x ← deref (s.thread t)
  pure ((s.setTcb t (some { x with status := .DEAD })).switch c (.left t))

def futexSysWait (t addr : Nat) (expected : UInt32) (deadline : Nat) : Except Stop State := do
  let x ← deref (s.thread t)
  await (!s.dead x.proc) (pure (s.switch c (.waiting t addr expected deadline)))

def uthreadParkBlocked (t : Nat) : Except Stop State := do
  let x ← deref (s.thread t)
  pure ((s.setTcb t (some { x with status := .BLOCKED })).switch c (.left t))

def switched (t : Nat) : Except Stop State := do
  let x ← deref (s.thread t)
  pure ((s.setTcb t (some { x with on_cpu := false })).switch c (.saved t))

def prevStatus (t : Nat) : Except Stop State := do
  let x ← deref (s.thread t)
  pure (s.switch c (if x.status = .DEAD then .off t else .loop))

end

/-! ## 9. Steps -/

inductive Call where
  | wake (addr cap : Nat)
  /-- `ring_post_locked`: the store of the count, then `futex_wake_one`. -/
  | post (addr : Nat) (value : UInt32)
  | requeue (src dst : Nat) (expected : UInt32) (cap : Nat)
  | interrupt (now : Nat)
  | destroy (t : Nat)

inductive MemoryCall where
  | alloc (owner : Nat)
  | share
  | unshare
  | move (target : Nat)
  | free
  | protect (writable : Bool)
  | scheme

def MemoryCall.run : MemoryCall → Option Ublock → Option (Option Ublock)
  | .alloc owner, none => some (some ⟨owner, 0, 0, false, true⟩)
  | .share, some b => if b.ring || b.thread_pins ≠ 0 then none
      else some (some { b with sharers := b.sharers + 1 })
  | .unshare, some b => some (some { b with sharers := b.sharers - 1 })
  | .move target, some b => if b.thread_pins ≠ 0 then none
      else some (some { b with owner := target })
  | .free, some b => if b.thread_pins ≠ 0 || b.sharers ≠ 0 then none else some none
  | .protect writable, some b => if b.thread_pins ≠ 0 || b.ring then none
      else some (some { b with writable := writable })
  | .scheme, some b => if b.ring || b.thread_pins ≠ 0 || b.sharers ≠ 0 then none
      else some (some { b with ring := true })
  | _, _ => none

inductive Act where
  | popLocal
  | install
  | trap
  | sysret
  | yield
  | exit
  | wait (addr : Nat) (expected : UInt32) (deadline : Nat)
  | comparePark (node armed : Bool)
  | parkBlocked
  | switched
  | prevStatus
  | exited
  | close
  | call (call : Call)

inductive Op where
  /-- `proc_sys_thread_spawn` into `p`, enqueued on `target`. -/
  | spawn (p target : Nat) (completion : Option (Nat × Nat))
  | kill (ps : List Nat)
  | store (addr : Nat) (value : UInt32)
  | memory (b : Nat) (call : MemoryCall)
  | act (c : Nat) (a : Act)
  /-- The next step of the call `c` is in; a thread it wakes goes to `target`. -/
  | advance (c target : Nat)

section

variable (hash : Nat → Nat) (s : State)

def addThread (p target : Nat) (completion : Option (Nat × Nat)) : State :=
  { (s.setTcb s.g_next_tid (some (threadNew p completion))).push target s.g_next_tid with
    g_next_tid := s.g_next_tid + 1 }

/-- `proc_sys_thread_spawn` from its completion check on: where the check fails
    nothing changes. -/
def threadSpawn (p target : Nat) (completion : Option (Nat × Nat)) : Except Stop State :=
  await (s.umem.isNone && !s.dead p)
    (match completion with
    | none => .ok (addThread s p target none)
    | some (b, event) => match s.block b with
      | some blk =>
        if blk.owner = p ∧ blk.ring = false ∧ blk.sharers = 0 ∧ blk.writable = true then
          .ok (addThread (s.setBlock b (some { blk with thread_pins := blk.thread_pins + 1 })) p target
            (some (b, event)))
        else .ok s
      | none => .ok s)

def start (c : Nat) : Call → Except Stop State
  | .wake addr cap => .ok (s.goto c (.wake addr cap))
  | .post addr value => .ok ((s.publishWord c addr value).goto c (.wake addr 1))
  | .requeue src dst expected cap =>
    await (src ≠ dst) (.ok (s.goto c (.requeue src dst expected cap)))
  | .interrupt now => .ok (s.goto c (.interrupt now))
  | .destroy t => match (s.cpu c).ctx, s.thread t with
    | .kernel u, some x => do
      let y ← deref (s.thread u)
      await (s.umem.isNone && (x.proc == y.proc || s.dead x.proc))
        (pure ((s.setUmem (some c)).goto c (.victim t)))
    | _, _ => .error .disabled

def act (c : Nat) : Ctx → Act → Except Stop State
  | .loop, .popLocal => popLocal s c
  | .popped t, .install => install s c t
  | .user t, .trap => .ok (s.switch c (.kernel t))
  | .kernel t, .sysret => .ok (s.switch c (.user t))
  | .kernel t, .yield => uthreadParkYield s c t
  | .kernel t, .exit => uthreadParkExit s c t
  | .kernel t, .wait addr expected deadline => futexSysWait s c t addr expected deadline
  | .waiting t addr expected deadline, .comparePark node armed =>
    comparePark hash s c t addr expected deadline node armed
  | .parking t, .parkBlocked => uthreadParkBlocked s c t
  | .left t, .switched => switched s c t
  | .saved t, .prevStatus => prevStatus s c t
  | .off t, .exited => processThreadExited s c t
  | .closing t, .close => threadFree s c t
  | .loop, .call call => start s c call
  | .kernel _, .call call => start s c call
  | _, _ => .error .disabled

def exec : Op → Except Stop State
  | .spawn p target completion => threadSpawn s p target completion
  | .kill ps => .ok { s with dead := fun p => s.dead p || p ∈ ps }
  | .store addr value => .ok (s.setWord addr value)
  | .memory b call => match call.run (s.block b) with
    | some x => .ok (s.setBlock b x)
    | none => .ok s
  | .act c a => match (s.cpu c).work with
    | .idle => act hash s c (s.cpu c).ctx a
    | _ => .error .disabled
  | .advance c target => advance hash s c target

def step (op : Op) : Option State := (exec hash s op).toOption

end

def boot (word : Nat → UInt32) : State where
  thread := fun _ => none
  waiters := fun _ => .empty
  bucketLock := fun _ => none
  deadlines := fun _ => .empty
  timerLock := fun _ => false
  queue := fun _ => []
  cpu := fun _ => ⟨.loop, .idle⟩
  umem := none
  dead := fun _ => false
  block := fun _ => none
  word := word
  publisher := fun _ => none
  g_futex_seq := 0
  g_next_tid := 1
  log := []

end GovinDos.Thread
