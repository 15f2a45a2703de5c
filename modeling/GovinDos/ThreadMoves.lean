/-
  **What a step can do.**

  One constructor of `Move` for each branch of the model, with the facts it stands under.
-/
import GovinDos.KernelSteps
import GovinDos.ThreadView

namespace GovinDos.Thread

open Kernel (Status)

/-! ## 1. The moves -/

namespace State

def eraseNode (s : State) (b : Nat) (k : FutexKey) : State := s.setWaiters b ((s.waiters b).erase k)

def insertNode (s : State) (b : Nat) (k : FutexKey) (t : Nat) : State :=
  s.setWaiters b ((s.waiters b).set k t)

def eraseEntry (s : State) (c : Nat) (k : TdeadlineKey) : State :=
  s.setDeadlines c ((s.deadlines c).erase k)

def insertEntry (s : State) (c : Nat) (k : TdeadlineKey) (t : Nat) : State :=
  s.setDeadlines c ((s.deadlines c).set k t)

end State

def Work.Looked (t : Nat) (w : Work) : Prop :=
  w = .victimOff t ∨ w = .victimBlocked t ∨ w = .victimParked t

/-- What the code relies on and does not make sure of: nobody takes up a thread, or looks at
    it to destroy it, while a CPU has still to read `prev->status`; and nobody dispatches a
    thread of a live process between a destroyer's load of `on_cpu` and its claim. -/
def Careful (s : State) : Op → Prop
  | .act c .popLocal => ∀ t rest, s.queue c = t :: rest → ∀ d, (s.cpu d).ctx ≠ .saved t
  | .act c .install => ∀ t x, (s.cpu c).ctx = .popped t → s.thread t = some x →
      s.dead x.proc = true ∨ ∀ d, ¬ (s.cpu d).work.Looked t
  | .advance c _ => ∀ t, (s.cpu c).work = .victim t → ∀ d, (s.cpu d).ctx ≠ .saved t
  | _ => True

structure Free (s : State) (c : Nat) : Prop where
  ctx : (s.cpu c).ctx = .loop ∨ ∃ t, (s.cpu c).ctx = .kernel t
  work : (s.cpu c).work = .idle

inductive Unhooks (t : Nat) : Work → Work → Prop
  | expire (result : Wake) (rest : List Claim) :
      Unhooks t (.finish (⟨t, result, true⟩ :: rest)) (.finish (⟨t, result, false⟩ :: rest))
  | reap : Unhooks t (.reap t) (.reapCancel t)

inductive Cancels (t : Nat) : Work → Work → Prop
  | finish (result : Wake) (rest : List Claim) :
      Cancels t (.finish (⟨t, result, false⟩ :: rest)) (.settle t result rest)
  | reap : Cancels t (.reapCancel t) (.free t)

inductive Move (hash : Nat → Nat) (op : Op) (s : State) : State → Prop
  | refused : Move hash op s s
  | spawn (p target : Nat) (humem : s.umem = none) (hlive : s.dead p = false) :
      Move hash op s (addThread s p target none)
  | spawnPinned (p target b event : Nat) (blk : Ublock) (humem : s.umem = none)
      (hlive : s.dead p = false) (hb : s.block b = some blk) (howner : blk.owner = p)
      (hring : blk.ring = false) (hsharers : blk.sharers = 0) (hwritable : blk.writable = true) :
      Move hash op s (addThread (s.setBlock b (some { blk with thread_pins := blk.thread_pins + 1 }))
        p target (some (b, event)))
  | kill (ps : List Nat) (hop : op = .kill ps) :
      Move hash op s { s with dead := fun p => s.dead p || p ∈ ps }
  | store (addr : Nat) (value : UInt32) (hop : op = .store addr value) :
      Move hash op s (s.setWord addr value)
  | memory (b : Nat) (call : MemoryCall) (x : Option Ublock) (h : call.run (s.block b) = some x) :
      Move hash op s (s.setBlock b x)
  -- the scheduler loop
  | pop (c t : Nat) (rest : List Nat) (x : Tcb) (hctx : (s.cpu c).ctx = .loop)
      (hwork : (s.cpu c).work = .idle) (hq : s.queue c = t :: rest) (hx : s.thread t = some x)
      (hlive : s.dead x.proc = false) (hop : op = .act c .popLocal) :
      Move hash op s ((s.setQueue c rest).switch c (.popped t))
  | cull (c t : Nat) (rest : List Nat) (x : Tcb) (hctx : (s.cpu c).ctx = .loop)
      (hwork : (s.cpu c).work = .idle) (hq : s.queue c = t :: rest) (hx : s.thread t = some x)
      (hdead : s.dead x.proc = true) (hop : op = .act c .popLocal) :
      Move hash op s (((s.setQueue c rest).setTcb t (some { x with status := .DEAD })).switch c (.off t))
  | install (c t : Nat) (x : Tcb) (hctx : (s.cpu c).ctx = .popped t) (hx : s.thread t = some x)
      (hop : op = .act c .install) (hwork : (s.cpu c).work = .idle) :
      Move hash op s ((s.setTcb t (some { x with status := .RUNNING, on_cpu := true })).switch c
        (.user t))
  | trap (c t : Nat) (hctx : (s.cpu c).ctx = .user t)
      (hwork : (s.cpu c).work = .idle) :
      Move hash op s (s.switch c (.kernel t))
  | sysret (c t : Nat) (hctx : (s.cpu c).ctx = .kernel t) (hwork : (s.cpu c).work = .idle) :
      Move hash op s (s.switch c (.user t))
  | yield (c t : Nat) (x : Tcb) (hctx : (s.cpu c).ctx = .kernel t) (hwork : (s.cpu c).work = .idle)
      (hx : s.thread t = some x) :
      Move hash op s (((s.setTcb t (some { x with status := .RUNNABLE })).push c t).switch c (.left t))
  | exit (c t : Nat) (x : Tcb) (hctx : (s.cpu c).ctx = .kernel t) (hwork : (s.cpu c).work = .idle)
      (hx : s.thread t = some x) :
      Move hash op s ((s.setTcb t (some { x with status := .DEAD })).switch c (.left t))
  | block (c t : Nat) (x : Tcb) (hctx : (s.cpu c).ctx = .parking t) (hx : s.thread t = some x)
      (hwork : (s.cpu c).work = .idle) :
      Move hash op s ((s.setTcb t (some { x with status := .BLOCKED })).switch c (.left t))
  | switched (c t : Nat) (x : Tcb) (hctx : (s.cpu c).ctx = .left t) (hx : s.thread t = some x)
      (hwork : (s.cpu c).work = .idle) :
      Move hash op s ((s.setTcb t (some { x with on_cpu := false })).switch c (.saved t))
  | prevStatus (c t : Nat) (x : Tcb) (hctx : (s.cpu c).ctx = .saved t) (hx : s.thread t = some x)
      (hwork : (s.cpu c).work = .idle) :
      Move hash op s (s.switch c (if x.status = .DEAD then .off t else .loop))
  | exited (c t : Nat) (x : Tcb) (hctx : (s.cpu c).ctx = .off t)
      (hwork : (s.cpu c).work = .idle) (humem : s.umem = none) (hx : s.thread t = some x) :
      Move hash op s ((s.setUmem (some c)).switch c (.closing t))
  | exitedPublish (c t : Nat) (x : Tcb) (hctx : (s.cpu c).ctx = .off t)
      (hwork : (s.cpu c).work = .idle) (humem : s.umem = none) (hx : s.thread t = some x) :
      Move hash op s (((s.setUmem (some c)).switch c (.closing t)).goto c
        (.publish x.completion_event GDOS_THREAD_COMPLETE))
  | close (c t : Nat) (x : Tcb) (hctx : (s.cpu c).ctx = .closing t) (hwork : (s.cpu c).work = .idle)
      (hx : s.thread t = some x) :
      Move hash op s ((((unpin s x).setTcb t none).setUmem none).switch c .loop)
  -- compare and park
  | wait (c t addr : Nat) (expected : UInt32) (deadline : Nat) (x : Tcb)
      (hctx : (s.cpu c).ctx = .kernel t) (hwork : (s.cpu c).work = .idle)
      (hx : s.thread t = some x) (hlive : s.dead x.proc = false)
      (hop : op = .act c (.wait addr expected deadline)) :
      Move hash op s (s.switch c (.waiting t addr expected deadline))
  | mismatch (c t addr : Nat) (expected : UInt32) (deadline : Nat)
      (hctx : (s.cpu c).ctx = .waiting t addr expected deadline)
      (hwork : (s.cpu c).work = .idle) :
      Move hash op s (s.switch c (.kernel t))
  | noNode (c t addr : Nat) (expected : UInt32) (deadline : Nat)
      (hctx : (s.cpu c).ctx = .waiting t addr expected deadline)
      (hwork : (s.cpu c).work = .idle) :
      Move hash op s (s.bumpSeq.switch c (.kernel t))
  | rollback (c t addr : Nat) (expected : UInt32) (deadline : Nat) (x : Tcb)
      (hctx : (s.cpu c).ctx = .waiting t addr expected deadline) (hx : s.thread t = some x)
      (m : OrdMap FutexKey Nat) (hm : ∀ k, m.get k = (s.waiters (hash addr)).get k)
      (hwork : (s.cpu c).work = .idle) :
      Move hash op s (((s.bumpSeq.setWaiters (hash addr) m).setTcb t (some { x with
        wait_key := ⟨addr, s.g_futex_seq⟩, deadline := 0 })).switch c (.kernel t))
  | park (c t addr : Nat) (expected : UInt32) (x : Tcb)
      (hctx : (s.cpu c).ctx = .waiting t addr expected 0) (hx : s.thread t = some x)
      (hlock : s.bucketLock (hash addr) = none) (hword : s.word addr = expected)
      (hnew : (s.waiters (hash addr)).get ⟨addr, s.g_futex_seq⟩ = none)
      (hwork : (s.cpu c).work = .idle) :
      Move hash op s (((s.bumpSeq.insertNode (hash addr) ⟨addr, s.g_futex_seq⟩ t).setTcb t (some { x with
        wait_key := ⟨addr, s.g_futex_seq⟩, deadline := 0, wake_state := .PARKED
        parks := x.parks + 1, expected := expected })).switch c (.parking t))
  | parkTimed (c t addr : Nat) (expected : UInt32) (deadline : Nat) (x : Tcb)
      (hctx : (s.cpu c).ctx = .waiting t addr expected deadline) (hx : s.thread t = some x)
      (hlock : s.bucketLock (hash addr) = none) (hword : s.word addr = expected)
      (hnew : (s.waiters (hash addr)).get ⟨addr, s.g_futex_seq⟩ = none) (hd : deadline ≠ 0)
      (hfree : (s.deadlines c).get ⟨deadline, t⟩ = none)
      (hwork : (s.cpu c).work = .idle) :
      Move hash op s ((((s.bumpSeq.insertNode (hash addr) ⟨addr, s.g_futex_seq⟩ t).insertEntry c
        ⟨deadline, t⟩ t).setTcb t (some { x with
          wait_key := ⟨addr, s.g_futex_seq⟩, deadline := deadline, deadline_cpu := c
          wake_state := .PARKED, parks := x.parks + 1, expected := expected })).switch c (.parking t))
  -- calls
  | callWake (c addr cap : Nat) (hfree : Free s c) : Move hash op s (s.goto c (.wake addr cap))
  | post (c addr : Nat) (value : UInt32) (hfree : Free s c) :
      Move hash op s ((s.publishWord c addr value).goto c (.wake addr 1))
  | callRequeue (c src dst : Nat) (expected : UInt32) (cap : Nat) (hfree : Free s c)
      (hne : src ≠ dst) (hop : op = .act c (.call (.requeue src dst expected cap))) :
      Move hash op s (s.goto c (.requeue src dst expected cap))
  | callInterrupt (c now : Nat) (hfree : Free s c) : Move hash op s (s.goto c (.interrupt now))
  | callDestroy (c t u : Nat) (x : Tcb) (hfree : Free s c) (humem : s.umem = none)
      (hx : s.thread t = some x) (hctx : (s.cpu c).ctx = .kernel u) :
      Move hash op s ((s.setUmem (some c)).goto c (.victim t))
  -- wake
  | wake (c addr cap : Nat) (hwork : (s.cpu c).work = .wake addr cap)
      (hlock : s.bucketLock (hash addr) = none) :
      Move hash op s ((s.lockBucket (hash addr) (some c)).goto c (.detach addr cap 0 []))
  | publish (c addr : Nat) (value : UInt32) (hwork : (s.cpu c).work = .publish addr value)
      (hlock : s.bucketLock (hash addr) = none) :
      Move hash op s (((s.lockBucket (hash addr) (some c)).publishWord c addr value).goto c
        (.detach addr 1 0 []))
  | pick (c addr cap next_seq : Nat) (batch : List Nat) (key : FutexKey) (t : Nat) (x : Tcb)
      (hwork : (s.cpu c).work = .detach addr cap next_seq batch)
      (hnext : nextWaiter hash s addr next_seq = some (key, t)) (hx : s.thread t = some x)
      (hs : x.wake_state = .PARKED) :
      Move hash op s ((s.setTcb t (some { x with wake_state := .CLAIMED })).goto c
        (.unhook addr cap (key.seq + 1) batch key t))
  | skip (c addr cap next_seq : Nat) (batch : List Nat) (key : FutexKey) (t : Nat) (x : Tcb)
      (hwork : (s.cpu c).work = .detach addr cap next_seq batch)
      (hnext : nextWaiter hash s addr next_seq = some (key, t)) (hx : s.thread t = some x)
      (hs : x.wake_state ≠ .PARKED) :
      Move hash op s (s.goto c (.detach addr cap (key.seq + 1) batch))
  | detached (c addr cap next_seq : Nat) (batch : List Nat)
      (hwork : (s.cpu c).work = .detach addr cap next_seq batch)
      (hend : batch.length < cap → nextWaiter hash s addr next_seq = none) :
      Move hash op s ((s.lockBucket (hash addr) none).goto c
        (.finish (batch.map fun t => ⟨t, .woken, false⟩)))
  | unhook (c addr cap next_seq : Nat) (batch : List Nat) (key : FutexKey) (t : Nat)
      (hwork : (s.cpu c).work = .unhook addr cap next_seq batch key t)
      (hget : (s.waiters (hash addr)).get key = some t) :
      Move hash op s ((s.eraseNode (hash addr) key).goto c (.detach addr cap next_seq (batch ++ [t])))
  -- finish
  | finished (c : Nat) (hwork : (s.cpu c).work = .finish []) : Move hash op s (s.goto c .idle)
  | removeNode (c t : Nat) (x : Tcb) (w : Work) (hwork : Unhooks t (s.cpu c).work w)
      (hx : s.thread t = some x) (hlock : s.bucketLock (hash x.wait_key.address) = none)
      (hget : (s.waiters (hash x.wait_key.address)).get x.wait_key = some t) :
      Move hash op s ((s.eraseNode (hash x.wait_key.address) x.wait_key).goto c w)
  | cancelNone (c t : Nat) (x : Tcb) (w : Work) (hwork : Cancels t (s.cpu c).work w)
      (hx : s.thread t = some x) (hd : x.deadline = 0) : Move hash op s (s.goto c w)
  | cancel (c t : Nat) (x : Tcb) (w : Work) (hwork : Cancels t (s.cpu c).work w)
      (hx : s.thread t = some x) (hd : x.deadline ≠ 0) :
      Move hash op s (((s.eraseEntry x.deadline_cpu ⟨x.deadline, t⟩).setTcb t
        (some { x with deadline := 0 })).goto c w)
  | settleDead (c t : Nat) (result : Wake) (rest : List Claim) (x : Tcb)
      (hwork : (s.cpu c).work = .settle t result rest) (hx : s.thread t = some x)
      (hdead : s.dead x.proc = true) :
      Move hash op s ((s.setTcb t (some { x with wake_state := .REAPABLE })).goto c (.finish rest))
  | settleLive (c t : Nat) (result : Wake) (rest : List Claim) (x : Tcb)
      (hwork : (s.cpu c).work = .settle t result rest) (hx : s.thread t = some x) :
      Move hash op s (s.goto c (.unblock t result rest))
  | unblock (c t : Nat) (result : Wake) (rest : List Claim) (x : Tcb)
      (hwork : (s.cpu c).work = .unblock t result rest) (hx : s.thread t = some x)
      (hcpu : x.on_cpu = false) :
      Move hash op s ((s.setTcb t (some { x with status := .RUNNABLE })).goto c
        (.release t result rest))
  | release (c t : Nat) (result : Wake) (rest : List Claim) (x : Tcb)
      (hwork : (s.cpu c).work = .release t result rest) (hx : s.thread t = some x) :
      Move hash op s ((s.setTcb t (some { x with wake_state := .IDLE })).goto c
        (.enqueue t result rest))
  | enqueue (c t target : Nat) (result : Wake) (rest : List Claim) (x : Tcb)
      (hwork : (s.cpu c).work = .enqueue t result rest) (hx : s.thread t = some x)
      (hop : op = .advance c target) :
      Move hash op s (((s.push target t).ended t x.parks (.runnable result)).goto c (.finish rest))
  -- requeue
  | requeue (c src dst : Nat) (expected : UInt32) (cap : Nat)
      (hwork : (s.cpu c).work = .requeue src dst expected cap)
      (hsrc : s.bucketLock (hash src) = none) (hdst : s.bucketLock (hash dst) = none) :
      Move hash op s (((s.lockBucket (hash src) (some c)).lockBucket (hash dst) (some c)).goto c
        (.scan src dst cap 0 0))
  | requeueAgain (c src dst : Nat) (expected : UInt32) (cap : Nat)
      (hwork : (s.cpu c).work = .requeue src dst expected cap) : Move hash op s (s.goto c .idle)
  | moving (c src dst cap next_seq moved : Nat) (key : FutexKey) (t : Nat) (x : Tcb)
      (hwork : (s.cpu c).work = .scan src dst cap next_seq moved)
      (hnext : nextWaiter hash s src next_seq = some (key, t)) (hx : s.thread t = some x)
      (hs : x.wake_state = .PARKED) :
      Move hash op s ((s.setTcb t (some { x with wake_state := .MOVING })).goto c
        (.relink src dst cap (key.seq + 1) moved key t))
  | scanSkip (c src dst cap next_seq moved : Nat) (key : FutexKey)
      (hwork : (s.cpu c).work = .scan src dst cap next_seq moved) :
      Move hash op s (s.goto c (.scan src dst cap (key.seq + 1) moved))
  | scanned (c src dst cap next_seq moved : Nat)
      (hwork : (s.cpu c).work = .scan src dst cap next_seq moved) :
      Move hash op s (((s.lockBucket (hash src) none).lockBucket (hash dst) none).goto c .idle)
  | relink (c src dst cap next_seq moved : Nat) (key : FutexKey) (t : Nat) (x : Tcb)
      (hwork : (s.cpu c).work = .relink src dst cap next_seq moved key t)
      (hget : (s.waiters (hash src)).get key = some t) (hx : s.thread t = some x)
      (hnew : ((s.eraseNode (hash src) key).waiters (hash dst)).get ⟨dst, s.g_futex_seq⟩ = none) :
      Move hash op s ((((s.eraseNode (hash src) key).insertNode (hash dst) ⟨dst, s.g_futex_seq⟩
        t).bumpSeq.setTcb t (some { x with
          wait_key := ⟨dst, s.g_futex_seq⟩, wake_state := .PARKED })).goto c
            (.scan src dst cap next_seq (moved + 1)))
  -- deadlines
  | interrupt (c now : Nat) (hwork : (s.cpu c).work = .interrupt now) :
      Move hash op s ((s.lockTimer c true).goto c (.expire now ⟨0, 0⟩ []))
  | time (c now : Nat) (seek key : TdeadlineKey) (batch : List Nat) (t : Nat) (x : Tcb)
      (hwork : (s.cpu c).work = .expire now seek batch) (hget : (s.deadlines c).get key = some t)
      (hx : s.thread t = some x) (hs : x.wake_state = .PARKED) :
      Move hash op s ((s.setTcb t (some { x with wake_state := .CLAIMED })).goto c
        (.pop now ⟨key.deadline_ns, key.tid + 1⟩ batch key t))
  | timeSkip (c now : Nat) (seek seek' : TdeadlineKey) (batch : List Nat)
      (hwork : (s.cpu c).work = .expire now seek batch) :
      Move hash op s (s.goto c (.expire now seek' batch))
  | expired (c now : Nat) (seek : TdeadlineKey) (batch : List Nat)
      (hwork : (s.cpu c).work = .expire now seek batch) :
      Move hash op s ((s.lockTimer c false).goto c
        (.finish (batch.map fun t => ⟨t, .timedOut, true⟩)))
  | popDeadline (c now : Nat) (seek key : TdeadlineKey) (batch : List Nat) (t : Nat) (x : Tcb)
      (hwork : (s.cpu c).work = .pop now seek batch key t)
      (hget : (s.deadlines c).get key = some t) (hx : s.thread t = some x) :
      Move hash op s (((s.eraseEntry c key).setTcb t (some { x with deadline := 0 })).goto c
        (.expire now seek (batch ++ [t])))
  -- destroy
  | giveUp (c t : Nat) (x : Tcb) (w : Watch) (hwork : (s.cpu c).work.watches = [(t, w)])
      (hholds : (s.cpu c).work.holds = []) (hx : s.thread t = some x) :
      Move hash op s ((s.setUmem none).goto c .idle)
  | victim (c t : Nat) (x : Tcb) (hwork : (s.cpu c).work = .victim t) (hx : s.thread t = some x)
      (hcpu : x.on_cpu = false) (hop : ∃ target, op = .advance c target) :
      Move hash op s (s.goto c (.victimOff t))
  | victimOff (c t : Nat) (x : Tcb) (hwork : (s.cpu c).work = .victimOff t)
      (hx : s.thread t = some x) (hs : x.status = .BLOCKED) :
      Move hash op s (s.goto c (.victimBlocked t))
  | victimBlocked (c t : Nat) (x : Tcb) (hwork : (s.cpu c).work = .victimBlocked t)
      (hx : s.thread t = some x) (hs : x.wake_state = .PARKED) :
      Move hash op s (s.goto c (.victimParked t))
  | doom (c t : Nat) (x : Tcb) (hwork : (s.cpu c).work = .victimBlocked t)
      (hx : s.thread t = some x) (hs : x.wake_state = .REAPABLE) :
      Move hash op s (s.goto c (.free t))
  | claim (c t : Nat) (x : Tcb) (hwork : (s.cpu c).work = .victimParked t)
      (hx : s.thread t = some x) (hs : x.wake_state = .PARKED) :
      Move hash op s ((s.setTcb t (some { x with wake_state := .CLAIMED })).goto c (.reap t))
  | free (c t : Nat) (x : Tcb) (hwork : (s.cpu c).work = .free t) (hx : s.thread t = some x) :
      Move hash op s (((((unpin s x).setTcb t none).ended t x.parks .freed).setUmem none).goto c .idle)

inductive Points (s : State) (c t : Nat) : Prop
  | node {b : Nat} {key : FutexKey} (h : (s.waiters b).get key = some t)
  | entry {key : TdeadlineKey} (h : (s.deadlines c).get key = some t)
  | queue {rest : List Nat} (h : s.queue c = t :: rest)
  | seat {x : Ctx} {r : Seat} (hctx : (s.cpu c).ctx = x) (h : x.seats = [(t, r)])
  | linger {x : Ctx} {r : Linger} (hctx : (s.cpu c).ctx = x) (h : x.lingers = [(t, r)])
  | hold {st : Stage} (h : (t, st) ∈ (s.cpu c).work.holds)
  | watch {w : Work} {r : Watch} (hwork : (s.cpu c).work = w) (h : w.watches = [(t, r)])

inductive Breaks (hash : Nat → Nat) (s : State) (c : Nat) : Prop
  | unhook {addr cap next_seq : Nat} {batch : List Nat} {key : FutexKey} {t : Nat}
      (hwork : (s.cpu c).work = .unhook addr cap next_seq batch key t)
      (h : (s.waiters (hash addr)).get key ≠ some t)
  | removeNode {t : Nat} {x : Tcb} {w : Work} (hwork : Unhooks t (s.cpu c).work w)
      (hx : s.thread t = some x) (h : (s.waiters (hash x.wait_key.address)).get x.wait_key ≠ some t)
  | unblock {t : Nat} {result : Wake} {rest : List Claim} {x : Tcb}
      (hwork : (s.cpu c).work = .unblock t result rest) (hx : s.thread t = some x)
      (hcpu : x.on_cpu = false) (h : ¬ (x.status = .BLOCKED ∧ x.wake_state = .CLAIMED))
  | relink {src dst cap next_seq moved : Nat} {key : FutexKey} {t : Nat}
      (hwork : (s.cpu c).work = .relink src dst cap next_seq moved key t)
      (h : (s.waiters (hash src)).get key ≠ some t)
  | number {b addr : Nat} {key : FutexKey} {b' t : Nat}
      (h : ((s.eraseNode b key).waiters b').get ⟨addr, s.g_futex_seq⟩ = some t)
  | pop {now : Nat} {seek key : TdeadlineKey} {batch : List Nat} {t : Nat}
      (hwork : (s.cpu c).work = .pop now seek batch key t) (h : (s.deadlines c).get key ≠ some t)
  | completion {t b : Nat} {x : Tcb} (hx : s.thread t = some x) (hb : x.completion_block = some b)
      (h : ∀ blk, s.block b = some blk → blk.owner = x.proc → blk.thread_pins = 0)

/-! ## 2. Every step is a move -/

structure Goes (hash : Nat → Nat) (op : Op) (s : State) (c : Nat) (x : Except Stop State) : Prop where
  move : ∀ s', x = .ok s' → Move hash op s s'
  assert : x = .error .assert → Breaks hash s c
  fault : x = .error .fault → ∃ t, Points s c t ∧ s.thread t = none

section

variable {hash : Nat → Nat} {op : Op} {s s' : State} {c t : Nat} {x : Except Stop State}
  {addr cap next_seq src dst moved now target : Nat} {batch : List Nat}

theorem Goes.ok (h : Move hash op s s') : Goes hash op s c (.ok s') :=
  ⟨fun _ heq => Except.ok.inj heq ▸ h, nofun, nofun⟩

theorem Goes.disabled : Goes hash op s c (.error .disabled) := ⟨nofun, nofun, nofun⟩

theorem Goes.await {b : Bool} (h : b = true → Goes hash op s c x) : Goes hash op s c (await b x) := by
  cases b with
  | false => exact .disabled
  | true => exact h rfl

theorem Goes.deref {f : Tcb → Except Stop State} (hp : Points s c t)
    (hf : ∀ x, s.thread t = some x → Goes hash op s c (f x)) :
    Goes hash op s c (deref (s.thread t) >>= f) := by
  cases hx : s.thread t with
  | some x => exact hf x hx
  | none => exact ⟨nofun, nofun, fun _ => ⟨t, hp, hx⟩⟩

theorem Goes.asserts {p : Prop} [Decidable p] {f : Unit → Except Stop State}
    (hbad : ¬ p → Breaks hash s c) (hf : p → Goes hash op s c (f ())) :
    Goes hash op s c (asserts p >>= f) := by
  by_cases hp : p
  · rw [GovinDos.asserts, decide_eq_true hp]
    exact hf hp
  · rw [GovinDos.asserts, decide_eq_false hp]
    exact ⟨by rintro _ ⟨⟩, fun _ => hbad hp, by rintro ⟨⟩⟩

theorem Goes.assertSome {α : Type} {o : Option α} {f : α → Except Stop State}
    (hbad : o = none → Breaks hash s c) (hf : ∀ a, o = some a → Goes hash op s c (f a)) :
    Goes hash op s c (assertSome o >>= f) := by
  cases o with
  | some a => exact hf a rfl
  | none => exact ⟨nofun, fun _ => hbad rfl, nofun⟩

theorem Goes.remove {K : Type} [LinearOrder K] {m : OrdMap K Nat} {k : K}
    {f : Nat × OrdMap K Nat → Except Stop State} {g : OrdMap K Nat → Except Stop State}
    (hfg : ∀ u m', f (u, m') = GovinDos.asserts (u = t) >>= fun _ => g m')
    (hbad : m.get k ≠ some t → Breaks hash s c)
    (hg : m.get k = some t → Goes hash op s c (g (m.erase k))) :
    Goes hash op s c (GovinDos.assertSome (m.remove k) >>= f) := by
  refine .assertSome (fun hnone => hbad fun hget => ?_) fun ⟨u, m'⟩ hm => ?_
  · cases (OrdMap.remove_eq_some_iff.mpr ⟨hget, rfl⟩).symm.trans hnone
  · obtain ⟨hget, rfl⟩ := OrdMap.remove_eq_some_iff.mp hm
    rw [hfg]
    refine .asserts (fun hne => hbad fun heq => hne ?_) fun heq => hg (heq ▸ hget)
    exact Option.some_inj.mp (hget.symm.trans heq)

theorem Goes.checkCompletion {x : Tcb} {f : Unit → Except Stop State} (hx : s.thread t = some x)
    (hf : Goes hash op s c (f ())) : Goes hash op s c (checkCompletion s x >>= f) := by
  unfold Thread.checkCompletion
  split
  · exact hf
  · rename_i b hb
    rw [bind_assoc]
    refine .assertSome (fun hnone => .completion hx hb ?_) fun blk hblk => ?_
    · simp [hnone]
    rw [bind_assoc]
    refine .asserts (fun howner => .completion hx hb ?_) fun howner => ?_
    · simp [hblk, howner]
    exact .asserts (fun hpins => .completion hx hb (by simpa [hblk] using fun _ => hpins)) fun _ => hf

theorem nextWaiter_spec {seq : Nat} {key : FutexKey} (h : nextWaiter hash s addr seq = some (key, t)) :
    key.address = addr ∧ (s.waiters (hash addr)).get key = some t := by
  obtain ⟨hlow, haddr⟩ := Option.filter_eq_some_iff.mp h
  exact ⟨of_decide_eq_true haddr, (OrdMap.get_of_lowerBound hlow).1⟩

theorem detachBatchLocked_goes (hwork : (s.cpu c).work = .detach addr cap next_seq batch) :
    Goes hash op s c (detachBatchLocked hash s c addr cap next_seq batch) := by
  unfold detachBatchLocked
  split
  · rename_i hnext
    refine .ok (.detached c addr cap next_seq batch hwork fun hlt => ?_)
    rwa [if_pos hlt] at hnext
  · rename_i key t hnext
    have hnext := (Option.ite_none_right_eq_some.mp hnext).2
    refine .deref (.node (nextWaiter_spec hnext).2) fun x hx => ?_
    split
    · exact .ok (.pick c addr cap next_seq batch key t x hwork hnext hx ‹_›)
    · exact .ok (.skip c addr cap next_seq batch key t x hwork hnext hx ‹_›)

theorem removeNode_goes {w : Work} (hwork : Unhooks t (s.cpu c).work w) :
    Goes hash op s c (removeNode hash s c t w) := by
  have hst : ∃ st, (t, st) ∈ (s.cpu c).work.holds := by
    generalize (s.cpu c).work = w₀ at hwork
    cases hwork <;> exact ⟨_, List.mem_cons_self⟩
  obtain ⟨st, hst⟩ := hst
  refine .deref (.hold hst) fun x hx => .await fun hlock => ?_
  refine .remove (fun _ _ => rfl) (.removeNode hwork hx) fun hget => .ok ?_
  exact .removeNode c t x w hwork hx (Option.isNone_iff_eq_none.mp hlock) hget

theorem timerDeadlineCancel_goes {w : Work} (hwork : Cancels t (s.cpu c).work w) :
    Goes hash op s c (timerDeadlineCancel s c t w) := by
  have hst : ∃ st, (t, st) ∈ (s.cpu c).work.holds := by
    generalize (s.cpu c).work = w₀ at hwork
    cases hwork <;> exact ⟨_, List.mem_cons_self⟩
  obtain ⟨st, hst⟩ := hst
  refine .deref (.hold hst) fun x hx => ?_
  split
  · exact .ok (.cancelNone c t x w hwork hx ‹_›)
  · exact .await fun _ => .ok (.cancel c t x w hwork hx ‹_›)

theorem finish_goes {batch : List Claim} (hwork : (s.cpu c).work = .finish batch) :
    Goes hash op s c (finish hash s c batch) := by
  unfold finish
  split
  · exact .ok (.finished c hwork)
  · exact removeNode_goes (hwork ▸ .expire _ _)
  · exact timerDeadlineCancel_goes (hwork ▸ .finish _ _)

theorem scan_goes (hwork : (s.cpu c).work = .scan src dst cap next_seq moved) :
    Goes hash op s c (scan hash s c src dst cap next_seq moved) := by
  unfold scan
  split
  · exact .ok (.scanned c src dst cap next_seq moved hwork)
  · rename_i key t hnext
    have hnext := (Option.ite_none_right_eq_some.mp hnext).2
    refine .deref (.node (nextWaiter_spec hnext).2) fun x hx => ?_
    split
    · exact .ok (.moving c src dst cap next_seq moved key t x hwork hnext hx ‹_›)
    · exact .ok (.scanSkip c src dst cap next_seq moved key hwork)

theorem relink_goes {key : FutexKey} (hwork : (s.cpu c).work = .relink src dst cap next_seq moved key t) :
    Goes hash op s c (relink hash s c src dst cap next_seq moved key t) := by
  refine .remove (fun _ _ => rfl) (.relink hwork) fun hget => ?_
  refine .deref (.node hget) fun x hx => .assertSome (fun hnone => ?_) fun m hm => ?_
  · obtain ⟨u, hu⟩ := Option.ne_none_iff_exists'.mp fun hnew =>
      nomatch (OrdMap.insert_of_get_none hnew).symm.trans hnone
    exact .number hu
  · obtain ⟨hnew, rfl⟩ := OrdMap.insert_eq_some_iff.mp hm
    exact .ok (.relink c src dst cap next_seq moved key t x hwork hget hx hnew)

theorem expire_goes {seek : TdeadlineKey} (hwork : (s.cpu c).work = .expire now seek batch) :
    Goes hash op s c (expire s c now seek batch) := by
  unfold expire
  split
  · exact .ok (.expired c now seek batch hwork)
  · rename_i key t hnext
    have hlow := (Option.filter_eq_some_iff.mp (Option.ite_none_right_eq_some.mp hnext).2).1
    have hget := (OrdMap.get_of_lowerBound hlow).1
    refine .deref (.entry hget) fun x hx => .await fun _ => .ok ?_
    split
    · exact .time c now seek key batch t x hwork hget hx ‹_›
    · exact .timeSkip c now seek _ batch hwork

theorem advance_goes : Goes hash (.advance c target) s c (advance hash s c target) := by
  unfold advance
  split
  · exact .disabled
  · rename_i addr cap hwork
    exact .await fun hlock => .ok (.wake c addr cap hwork (Option.isNone_iff_eq_none.mp hlock))
  · rename_i addr value hwork
    exact .await fun hlock => .ok (.publish c addr value hwork (Option.isNone_iff_eq_none.mp hlock))
  · exact detachBatchLocked_goes ‹_›
  · rename_i addr cap next_seq batch key t hwork
    refine .remove (fun _ _ => rfl) (.unhook hwork) fun hget => .ok ?_
    exact .unhook c addr cap next_seq batch key t hwork hget
  · exact finish_goes ‹_›
  · rename_i t result rest hwork
    refine .deref (.hold (by rw [hwork]; exact List.mem_cons_self)) fun x hx => ?_
    split
    · exact .ok (.settleDead c t result rest x hwork hx ‹_›)
    · exact .ok (.settleLive c t result rest x hwork hx)
  · rename_i t result rest hwork
    refine .deref (.hold (by rw [hwork]; exact List.mem_cons_self)) fun x hx => .await fun hcpu => ?_
    have hcpu : x.on_cpu = false := by simpa using hcpu
    refine .asserts (fun hs => .unblock hwork hx hcpu fun h => hs h.1) fun _ => ?_
    refine .asserts (fun hs => .unblock hwork hx hcpu fun h => hs h.2) fun _ => .ok ?_
    exact .unblock c t result rest x hwork hx hcpu
  · rename_i t result rest hwork
    refine .deref (.hold (by rw [hwork]; exact List.mem_cons_self)) fun x hx => .ok ?_
    exact .release c t result rest x hwork hx
  · rename_i t result rest hwork
    refine .deref (.hold (by rw [hwork]; exact List.mem_cons_self)) fun x hx => .ok ?_
    exact .enqueue c t target result rest x hwork hx rfl
  · rename_i src dst expected cap hwork
    refine .await fun hlock => .ok ?_
    simp only [Bool.and_eq_true, Option.isNone_iff_eq_none] at hlock
    split
    · exact .requeue c src dst expected cap hwork hlock.1 hlock.2
    · exact .requeueAgain c src dst expected cap hwork
  · exact scan_goes ‹_›
  · exact relink_goes ‹_›
  · rename_i now hwork
    exact .await fun _ => .ok (.interrupt c now hwork)
  · exact expire_goes ‹_›
  · rename_i now seek batch key t hwork
    refine .remove (fun _ _ => rfl) (.pop hwork) fun hget => .deref (.entry hget) fun x hx => .ok ?_
    exact .popDeadline c now seek key batch t x hwork hget hx
  · rename_i t hwork
    refine .deref (.watch hwork rfl) fun x hx => ?_
    split
    · exact .ok (.giveUp c t x .victim (by rw [hwork]; rfl) (by rw [hwork]; rfl) hx)
    · rename_i hcpu
      exact .ok (.victim c t x hwork hx (by simpa using hcpu) ⟨target, rfl⟩)
  · rename_i t hwork
    refine .deref (.watch hwork rfl) fun x hx => ?_
    split
    · exact .ok (.victimOff c t x hwork hx ‹_›)
    · exact .ok (.giveUp c t x .off (by rw [hwork]; rfl) (by rw [hwork]; rfl) hx)
  · rename_i t hwork
    refine .deref (.watch hwork rfl) fun x hx => ?_
    split
    · exact .ok (.victimBlocked c t x hwork hx ‹_›)
    · exact .ok (.doom c t x hwork hx ‹_›)
    · exact .ok (.giveUp c t x .blocked (by rw [hwork]; rfl) (by rw [hwork]; rfl) hx)
  · rename_i t hwork
    refine .deref (.watch hwork rfl) fun x hx => .await fun _ => .ok ?_
    split
    · exact .claim c t x hwork hx ‹_›
    · exact .giveUp c t x .parked (by rw [hwork]; rfl) (by rw [hwork]; rfl) hx
  · rename_i t hwork
    exact removeNode_goes (hwork ▸ .reap)
  · rename_i t hwork
    exact timerDeadlineCancel_goes (hwork ▸ .reap)
  · rename_i t hwork
    refine .deref (.hold (by rw [hwork]; exact List.mem_cons_self)) fun x hx => ?_
    exact .checkCompletion hx (.ok (.free c t x hwork hx))

theorem comparePark_goes {deadline : Nat} {expected : UInt32} {node armed : Bool}
    (hctx : (s.cpu c).ctx = .waiting t addr expected deadline) (hwork : (s.cpu c).work = .idle) :
    Goes hash op s c (comparePark hash s c t addr expected deadline node armed) := by
  refine .await fun hlock => ?_
  have hlock := Option.isNone_iff_eq_none.mp hlock
  split
  · rename_i hword
    refine .deref (.seat hctx rfl) fun x hx => ?_
    split
    · exact .ok (.noNode c t addr expected deadline hctx hwork)
    · rename_i m hm
      obtain ⟨hnew, rfl⟩ := OrdMap.insert_eq_some_iff.mp (Option.ite_none_right_eq_some.mp hm).2
      unfold armAndPark
      split
      · subst deadline
        exact .ok (.park c t addr expected x hctx hx hlock hword hnew hwork)
      · rename_i hd
        split
        · -- the node is taken out again
          have hremove := OrdMap.remove_eq_some_iff.mpr
            ⟨OrdMap.get_set_self (s.waiters (hash addr)) ⟨addr, s.g_futex_seq⟩ t, rfl⟩
          simp only [State.setWaiters, Function.update_self, Function.update_idem, hremove]
          refine .ok (.rollback c t addr expected deadline x hctx hx _ (fun k => ?_) hwork)
          by_cases hk : k = ⟨addr, s.g_futex_seq⟩
          · simp [hk, OrdMap.get_erase, hnew]
          · rw [OrdMap.get_erase_of_ne _ hk, OrdMap.get_set_of_ne _ _ hk]
        · rename_i d harm
          obtain ⟨hfree, rfl⟩ := OrdMap.insert_eq_some_iff.mp (Option.ite_none_right_eq_some.mp harm).2
          exact .ok (.parkTimed c t addr expected deadline x hctx hx hlock hword hnew hd hfree hwork)
  · exact .ok (.mismatch c t addr expected deadline hctx hwork)

theorem threadSpawn_goes {p : Nat} {completion : Option (Nat × Nat)} :
    Goes hash op s c (threadSpawn s p target completion) := by
  refine .await fun hmay => ?_
  simp only [Bool.and_eq_true, Option.isNone_iff_eq_none, Bool.not_eq_true'] at hmay
  split
  · exact .ok (.spawn p target hmay.1 hmay.2)
  · rename_i b event
    split
    · rename_i blk hb
      split
      · rename_i hblk
        exact .ok (.spawnPinned p target b event blk hmay.1 hmay.2 hb hblk.1 hblk.2.1 hblk.2.2.1
          hblk.2.2.2)
      · exact .ok .refused
    · exact .ok .refused

theorem start_goes {call : Call} (hfree : Free s c) :
    Goes hash (.act c (.call call)) s c (start s c call) := by
  cases call with
  | wake addr cap => exact .ok (.callWake c addr cap hfree)
  | post addr value => exact .ok (.post c addr value hfree)
  | requeue src dst expected cap =>
    exact .await fun hne => .ok (.callRequeue c src dst expected cap hfree (of_decide_eq_true hne) rfl)
  | interrupt now => exact .ok (.callInterrupt c now hfree)
  | destroy t =>
    simp only [start]
    split
    · rename_i u x hctx hx
      refine .deref (.seat hctx rfl) fun y _ => .await fun hmay => .ok ?_
      simp only [Bool.and_eq_true, Option.isNone_iff_eq_none] at hmay
      exact .callDestroy c t u x hfree hmay.1 hx hctx
    · exact .disabled

theorem act_goes {a : Act} (hwork : (s.cpu c).work = .idle) :
    Goes hash (.act c a) s c (act hash s c (s.cpu c).ctx a) := by
  generalize hctx : (s.cpu c).ctx = x
  unfold act
  split
  · unfold popLocal
    split
    · exact .disabled
    · rename_i t rest hq
      refine .deref (.queue hq) fun x hx => ?_
      split
      · exact .ok (.cull c t rest x hctx hwork hq hx ‹_› rfl)
      · exact .ok (.pop c t rest x hctx hwork hq hx (Bool.eq_false_of_not_eq_true ‹_›) rfl)
  · exact .deref (.seat hctx rfl) fun x hx => .ok (.install c _ x hctx hx rfl hwork)
  · exact .ok (.trap c _ hctx hwork)
  · exact .ok (.sysret c _ hctx hwork)
  · exact .deref (.seat hctx rfl) fun x hx => .ok (.yield c _ x hctx hwork hx)
  · exact .deref (.seat hctx rfl) fun x hx => .ok (.exit c _ x hctx hwork hx)
  · refine .deref (.seat hctx rfl) fun x hx => .await fun hlive => .ok ?_
    exact .wait c _ _ _ _ x hctx hwork hx (by simpa using hlive) rfl
  · exact comparePark_goes hctx hwork
  · exact .deref (.seat hctx rfl) fun x hx => .ok (.block c _ x hctx hx hwork)
  · exact .deref (.seat hctx rfl) fun x hx => .ok (.switched c _ x hctx hx hwork)
  · exact .deref (.linger hctx rfl) fun x hx => .ok (.prevStatus c _ x hctx hx hwork)
  · refine .await fun humem => .deref (.linger hctx rfl) fun x hx => .checkCompletion hx ?_
    have humem := Option.isNone_iff_eq_none.mp humem
    dsimp only
    split
    · exact .ok (.exitedPublish c _ x hctx hwork humem hx)
    · exact .ok (.exited c _ x hctx hwork humem hx)
  · exact .deref (.linger hctx rfl) fun x hx => .ok (.close c _ x hctx hwork hx)
  · exact start_goes ⟨.inl hctx, hwork⟩
  · exact start_goes ⟨.inr ⟨_, hctx⟩, hwork⟩
  · exact .disabled

theorem exec_goes (hash : Nat → Nat) (op : Op) (s : State) : ∃ c, Goes hash op s c (exec hash s op) := by
  cases op with
  | spawn p target completion => exact ⟨0, threadSpawn_goes⟩
  | kill ps => exact ⟨0, .ok (.kill ps rfl)⟩
  | store addr value => exact ⟨0, .ok (.store addr value rfl)⟩
  | memory b call =>
    simp only [exec]
    split
    · exact ⟨0, .ok (.memory b call _ ‹_›)⟩
    · exact ⟨0, .ok .refused⟩
  | act c a =>
    simp only [exec]
    split
    · exact ⟨c, act_goes ‹_›⟩
    · exact ⟨c, .disabled⟩
  | advance c target => exact ⟨c, advance_goes⟩

end

end GovinDos.Thread
