/-
  **Run queues, idling and wake-ups (`kernel/src/scheduler.c`, `thread.c`,
  `archsrc/x86_64/irq.c`, `scheduler_arch.c`, `interrupts.c`).**

  A step is one change of a run queue, of an idle flag, of an interrupt-enable flag or of a
  queue lock.  A CPU is somewhere in `scheduler_loop` or in the thread the loop switched to;
  on top of that an interrupt handler may run, and the innermost of the two may be inside
  `scheduler_enqueue`.  Interrupts other than the reschedule IPI arrive at any time.
-/
import GovinDos.Lib.Run

namespace GovinDos.Scheduler

/-! ## 1. State -/

inductive Pc where
  | top
  | locking
  | locked
  | popped (t : Nat) (dead : Bool)
  | empty
  | marked
  | unlocked
  | enabled
  | halted
  | woken
  | installed (t : Nat)
  | user (t : Nat)
  | kernel (t : Nat)
  | parking (t : Nat) (requeue : Bool)
  | parkLocked (t : Nat) (requeue : Bool)
  | parked
  /-- Back in the loop, or after a cull: `process_thread_exited`, then `irq_enable`. -/
  | disposing
deriving DecidableEq

inductive Enq where
  | locking (target t : Nat)
  | locked (target t : Nat)
  | pushed (target : Nat)
  | read (target : Nat) (was_idle : Bool)
  | waking (target : Nat)
deriving DecidableEq

/-- `ief` is the interrupt-enable flag; `resched` and `other` are what the local
    APIC holds for the CPU. -/
structure Cpu where
  pc : Pc
  enq : Option Enq
  handler : Bool
  irq_depth : Nat
  ief : Bool
  resched : Bool
  other : Bool

structure Queue where
  queue : List Nat
  lock : Option Nat
  idle : Bool

structure State where
  g_cpu_state_table_len : Nat
  cpu : Nat → Cpu
  scheduler : Nat → Queue
  g_next_target : Nat

def State.setCpu (s : State) (c : Nat) (k : Cpu) : State :=
  { s with cpu := Function.update s.cpu c k }

def State.setQueue (s : State) (c : Nat) (q : Queue) : State :=
  { s with scheduler := Function.update s.scheduler c q }

def State.goto (s : State) (c : Nat) (pc : Pc) : State := s.setCpu c { s.cpu c with pc := pc }

/-! ## 2. Interrupt masking and the queue lock -/

def irqDisable (k : Cpu) : Cpu := { k with ief := false, irq_depth := k.irq_depth + 1 }

def irqEnable (k : Cpu) : Option Cpu :=
  if k.irq_depth = 0 then none
  else some { k with irq_depth := k.irq_depth - 1, ief := if k.irq_depth = 1 then true else k.ief }

def irqEnter (k : Cpu) : Cpu := { k with ief := false, irq_depth := k.irq_depth + 1 }

def irqExit (k : Cpu) : Option Cpu :=
  if k.irq_depth = 0 then none else some { k with irq_depth := k.irq_depth - 1, ief := true }

def spinlockLock (s : State) (c q : Nat) : Option State :=
  if (s.scheduler q).lock = none then
    some ((s.setQueue q { s.scheduler q with lock := some c }).setCpu c (irqDisable (s.cpu c)))
  else none

def spinlockUnlock (s : State) (c q : Nat) : Option State :=
  (irqEnable (s.cpu c)).map fun k =>
    (s.setQueue q { s.scheduler q with lock := none }).setCpu c k

/-! ## 3. `scheduler_enqueue` -/

def schedulerPushLocalLocked (s : State) (q t : Nat) : State :=
  s.setQueue q { s.scheduler q with queue := (s.scheduler q).queue ++ [t] }

def State.setEnq (s : State) (c : Nat) (e : Option Enq) : State :=
  s.setCpu c { s.cpu c with enq := e }

def enqueueStart (s : State) (c t : Nat) : Option State :=
  if s.g_cpu_state_table_len = 0 then none
  else some { s.setEnq c (some (.locking (s.g_next_target % s.g_cpu_state_table_len) t)) with
    g_next_target := (s.g_next_target + 1) % 2 ^ 64 }

def enqueueStep (s : State) (c : Nat) : Enq → Option State
  | .locking target t => (spinlockLock s c target).map (·.setEnq c (some (.locked target t)))
  | .locked target t =>
    some ((schedulerPushLocalLocked s target t).setEnq c (some (.pushed target)))
  | .pushed target => some (s.setEnq c (some (.read target (s.scheduler target).idle)))
  | .read target was_idle =>
    (spinlockUnlock s c target).map (·.setEnq c (if was_idle then some (.waking target) else none))
  | .waking target =>
    -- `scheduler_arch_wake_cpu`
    let s := s.setEnq c none
    some (s.setCpu target { s.cpu target with resched := true })

/-! ## 4. `scheduler_loop` and `uthread_park` -/

def loopStep (s : State) (c : Nat) (dead : Bool) : Option State :=
  let k := s.cpu c
  let q := s.scheduler c
  match k.pc with
  | .top => some (s.setCpu c { irqDisable k with pc := .locking })
  | .locking => (spinlockLock s c c).map (·.goto c .locked)
  | .locked => match q.queue with
    | [] => some (s.goto c .empty)
    | t :: rest => some ((s.setQueue c { q with queue := rest }).goto c (.popped t dead))
  | .popped _ true => (spinlockUnlock s c c).map (·.goto c .disposing)
  | .popped t false => (spinlockUnlock s c c).map (·.goto c (.installed t))
  | .empty => some ((s.setQueue c { q with idle := true }).goto c .marked)
  | .marked => (spinlockUnlock s c c).map (·.goto c .unlocked)
  | .unlocked => (irqEnable k).map fun k => s.setCpu c { k with pc := .enabled }
  | .enabled => some (s.goto c .halted)
  | .halted => none
  | .woken => some ((s.setQueue c { q with idle := false }).goto c .top)
  | .installed t => (irqExit k).map fun k => s.setCpu c { k with pc := .user t }
  | .user _ => none
  | .kernel _ => none
  | .parking t requeue => (spinlockLock s c c).map (·.goto c (.parkLocked t requeue))
  | .parkLocked t requeue =>
    some ((if requeue then schedulerPushLocalLocked s c t else s).goto c .parked)
  | .parked => (spinlockUnlock s c c).map (·.goto c .disposing)
  | .disposing => (irqEnable k).map fun k => s.setCpu c { k with pc := .top }

/-! ## 5. The system -/

inductive Op where
  | loop (c : Nat) (dead : Bool)
  | syscall (c : Nat)
  | sysret (c : Nat)
  | park (c : Nat) (requeue : Bool)
  | enqueue (c t : Nat)
  | advance (c : Nat)
  | raise (c : Nat)
  | take (c : Nat) (resched : Bool)
  | iret (c : Nat)
  | preempt (c : Nat) (requeue : Bool)

def mayEnqueue (k : Cpu) : Bool :=
  k.enq.isNone && (k.handler || match k.pc with
    | .kernel _ => true
    | .disposing => true
    | _ => false)

def Cpu.plain (k : Cpu) : Bool := !k.handler && k.enq.isNone

def Op.cpu : Op → Nat
  | .loop c _ => c
  | .syscall c => c
  | .sysret c => c
  | .park c _ => c
  | .enqueue c _ => c
  | .advance c => c
  | .raise c => c
  | .take c _ => c
  | .iret c => c
  | .preempt c _ => c

def act (s : State) : Op → Option State
  | .loop c dead => if (s.cpu c).plain then loopStep s c dead else none
  | .syscall c => match (s.cpu c).pc with
    | .user t => if (s.cpu c).plain then
        some (s.setCpu c { irqEnter (s.cpu c) with pc := .kernel t }) else none
    | _ => none
  | .sysret c => match (s.cpu c).pc with
    | .kernel t => if (s.cpu c).plain then
        (irqExit (s.cpu c)).map fun k => s.setCpu c { k with pc := .user t } else none
    | _ => none
  | .park c requeue => match (s.cpu c).pc with
    | .kernel t => if (s.cpu c).plain then some (s.goto c (.parking t requeue)) else none
    | _ => none
  | .enqueue c t => if mayEnqueue (s.cpu c) then enqueueStart s c t else none
  | .advance c => match (s.cpu c).enq with
    | none => none
    | some e => enqueueStep s c e
  | .raise c => some (s.setCpu c { s.cpu c with other := true })
  | .take c resched =>
    let k := s.cpu c
    if k.ief then
      if resched then
        if k.resched then some (s.setCpu c { irqEnter k with resched := false, handler := true })
        else none
      else if k.other then some (s.setCpu c { irqEnter k with other := false, handler := true })
      else none
    else none
  | .iret c =>
    let k := s.cpu c
    if k.handler && k.enq.isNone then
      (irqExit k).map fun k => s.setCpu c
        { k with handler := false, pc := if k.pc = .halted then .woken else k.pc }
    else none
  | .preempt c requeue => match (s.cpu c).pc with
    | .user t => if (s.cpu c).handler && (s.cpu c).enq.isNone then
        some (s.setCpu c { s.cpu c with handler := false, pc := .parking t requeue }) else none
    | _ => none

def step (s : State) (op : Op) : Option State :=
  if op.cpu < s.g_cpu_state_table_len then act s op else none

def boot (ncpus : Nat) (queue : Nat → List Nat) : State where
  g_cpu_state_table_len := ncpus
  cpu := fun _ => ⟨.top, none, false, 0, true, false, false⟩
  scheduler := fun c => ⟨queue c, none, false⟩
  g_next_target := 0

end GovinDos.Scheduler
