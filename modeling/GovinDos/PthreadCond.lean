/-
  **Condition variables (`cond_wait_deadline`, `pthread_cond_signal`,
  `pthread_cond_broadcast`).**

  A program with one condition variable and the one mutex it is used with, whose functions
  are those of `PthreadMutex`.  A broadcast wakes one waiter and moves the others to the
  queue of the mutex word, where an unlock is to wake them one after the other.
-/
import GovinDos.PthreadMutex

namespace GovinDos.Pthread

/-! ## 1. The model -/

structure Cond (T : Type) where
  sequence : UInt32
  mutex : Bool
  /-- The threads parked on `sequence`, oldest first, with the numbers of their keys. -/
  parked : List (Nat × T)

structure CondMem (T : Type) where
  mutex : Mutex T
  cond : Cond T
  g_futex_seq : Nat

inductive After where
  | program
  | wait (sequence : UInt32) (deadline : UInt64)
  | relock (wait_rc : Rc)
deriving DecidableEq, Repr

inductive CondPc where
  | ret (rc : Rc)
  | mutex (k : After)
  /-- `cond_wait_deadline`: the load of `sequence`, the store of `cond->mutex`, the
      loop's load of `sequence`, `futex_wait`, and parked in it. -/
  | waitLoad (deadline : UInt64)
  | waitRecord (sequence : UInt32) (deadline : UInt64)
  | waitCheck (sequence : UInt32) (deadline : UInt64)
  | waitFutex (sequence : UInt32) (deadline : UInt64)
  | waitParked (sequence : UInt32) (deadline : UInt64)
  | signalAdd
  | signalWake
  /-- `pthread_cond_broadcast`: up to the wake of one; `futex_wake_all` where no mutex
      is recorded; the loop of `sys_futex_requeue`. -/
  | broadcastAdd
  | broadcastMutex (sequence : UInt32)
  | broadcastWake (sequence : UInt32) (mutex : Bool)
  | broadcastAll
  | requeue (sequence : UInt32) (moved : Nat)
  | mark
  | markWake
  | markCas
deriving DecidableEq, Repr

def CondPc.returned : CondPc → Bool
  | .ret _ => true
  | _ => false

structure CondLocal where
  pc : CondPc
  mutex : MutexLocal
deriving DecidableEq, Repr

def CondLocal.goto (l : CondLocal) (pc : CondPc) : CondLocal := { l with pc := pc }

def CondLocal.enter (l : CondLocal) (k : After) (pc : MutexPc) : CondLocal :=
  ⟨.mutex k, l.mutex.goto pc⟩

def CondLocal.relock (l : CondLocal) (wait_rc : Rc) : CondLocal :=
  l.enter (.relock wait_rc) (.tryLocked (.lock 0))

def After.resume (rc : Rc) : After → CondPc
  | .program => .ret rc
  | .wait sequence deadline => if rc ≠ .ok then .ret rc else .waitCheck sequence deadline
  | .relock wait_rc => .ret (if rc ≠ .ok then rc else wait_rc)

namespace CondMem

variable {T : Type} [DecidableEq T]

def setMutex (m : CondMem T) (x : Mutex T) : CondMem T := { m with mutex := x }

def addSequence (m : CondMem T) : CondMem T :=
  { m with cond := { m.cond with sequence := m.cond.sequence + 1 } }

def wakeCond (m : CondMem T) (n : Nat) : CondMem T :=
  { m with cond := { m.cond with parked := m.cond.parked.drop n } }

def move (m : CondMem T) (n : Nat) : CondMem T :=
  { m with
    cond := { m.cond with parked := m.cond.parked.drop n }
    mutex := { m.mutex with parked := m.mutex.parked ++ (m.cond.parked.take n).map (·.2) }
    g_futex_seq := m.g_futex_seq + n }

def park (m : CondMem T) (t : T) : CondMem T where
  mutex := m.mutex.acted t
  cond := { m.cond with parked := m.cond.parked ++ [(m.g_futex_seq, t)] }
  g_futex_seq := m.g_futex_seq + 1

def unpark (m : CondMem T) (t : T) : CondMem T :=
  { m with
    cond := { m.cond with parked := m.cond.parked.filter (·.2 ≠ t) }
    mutex := { m.mutex with parked := m.mutex.parked.erase t } }

def parked (m : CondMem T) : List T := m.cond.parked.map (·.2) ++ m.mutex.parked

end CondMem

section

variable {T : Type} [DecidableEq T]

def CondMem.movable (m : CondMem T) : Nat := min (requeueCap UINT64_MAX) m.cond.parked.length

def CondMem.wakeable (m : CondMem T) : Nat := min (wakeCap UINT64_MAX) m.cond.parked.length

def afterRequeue (moved : Nat) : CondPc := if moved ≠ 0 then .mark else .ret .ok

def condNext (t : T) (m : CondMem T) (l : CondLocal) (expire : Bool) :
    Option (CondMem T × CondLocal) :=
  match l.pc with
  | .ret _ => none
  | .mutex k => match l.mutex.pc with
    | .ret rc => some (m, l.goto (k.resume rc))
    | _ => (m.mutex.next t l.mutex expire).map fun r => (m.setMutex r.1, { l with mutex := r.2 })
  | .waitLoad deadline => some (m, l.goto (.waitRecord m.cond.sequence deadline))
  | .waitRecord sequence deadline =>
    some ({ m with cond := { m.cond with mutex := true } }, l.enter (.wait sequence deadline) .unlock)
  | .waitCheck sequence deadline =>
    some (m, if m.cond.sequence = sequence then l.goto (.waitFutex sequence deadline)
      else l.relock .ok)
  | .waitFutex sequence deadline =>
    if m.cond.sequence = sequence then some (m.park t, l.goto (.waitParked sequence deadline))
    else some (m, l.goto (.waitCheck sequence deadline))
  | .waitParked sequence deadline =>
    if t ∉ m.parked then some (m, l.goto (.waitCheck sequence deadline))
    else if expire ∧ deadline ≠ 0 then some (m.unpark t, l.relock .ETIMEDOUT)
    else none
  | .signalAdd => some (m.addSequence, l.goto .signalWake)
  | .signalWake => some (m.wakeCond (wakeCap 1), l.goto (.ret .ok))
  | .broadcastAdd => some (m.addSequence, l.goto (.broadcastMutex (m.cond.sequence + 1)))
  | .broadcastMutex sequence => some (m, l.goto (.broadcastWake sequence m.cond.mutex))
  | .broadcastWake sequence mutex =>
    some (m.wakeCond (wakeCap 1), l.goto (if mutex then .requeue sequence 0 else .broadcastAll))
  | .broadcastAll =>
    some (m.wakeCond m.wakeable,
      l.goto (if m.wakeable = FUTEX_WAKE_BATCH then .broadcastAll else .ret .ok))
  | .requeue sequence moved =>
    if m.cond.sequence = sequence then
      some (m.move m.movable, l.goto (if m.movable = FUTEX_REQUEUE_BATCH
        then .requeue sequence (moved + m.movable) else afterRequeue (moved + m.movable)))
    else some (m, l.goto (afterRequeue moved))
  | .mark =>
    if m.mutex.locked = 0 then some (m, l.goto .markWake)
    else if m.mutex.locked = 2 then some (m, l.goto (.ret .ok))
    else some (m, l.goto .markCas)
  | .markWake => some (m.setMutex m.mutex.wake, l.goto (.ret .ok))
  | .markCas =>
    if m.mutex.locked = 1 then some (m.setMutex { m.mutex with locked := 2 }, l.goto (.ret .ok))
    else some (m, l.goto .mark)

inductive CondCall where
  | mutex (c : MutexCall)
  | wait
  | timedwait (abstime : Timespec)
  | signal
  | broadcast

def CondCall.enter (l : CondLocal) : CondCall → CondLocal
  | .mutex c => l.enter .program c.enter
  | .wait => l.goto (.waitLoad 0)
  | .timedwait abstime => match abstimeToDeadline abstime with
    | none => l.goto (.ret .EINVAL)
    | some deadline => l.goto (.waitLoad deadline)
  | .signal => l.goto .signalAdd
  | .broadcast => l.goto .broadcastAdd

inductive CondEvent where
  | call (c : CondCall)
  | go
  | expire

def condThread (t : T) (m : CondMem T) (l : CondLocal) : CondEvent → Option (CondMem T × CondLocal)
  | .call c => match l.pc with
    | .ret _ => some (m, c.enter l)
    | _ => none
  | .go => condNext t m l false
  | .expire => condNext t m l true

def condBoot (T : Type) (type : MutexType) : Threads T (CondMem T) CondLocal where
  mem := ⟨.init T type, ⟨0, false, []⟩, 0⟩
  loc := fun _ => ⟨.ret .ok, ⟨.ret .ok, 0⟩⟩

/-! ## 2. What a step can do -/

inductive CondMove (t : T) (m : CondMem T) (l : CondLocal) : CondMem T → CondLocal → Prop
  | mutex (k : After) (x : Mutex T) (l' : MutexLocal) (hpc : l.pc = .mutex k)
      (h : MutexMove t m.mutex l.mutex x l') : CondMove t m l (m.setMutex x) { l with mutex := l' }
  | resume (k : After) (rc : Rc) (hpc : l.pc = .mutex k) (hret : l.mutex.pc = .ret rc) :
      CondMove t m l m (l.goto (k.resume rc))
  -- wait
  | load (deadline : UInt64) (hpc : l.pc = .waitLoad deadline) :
      CondMove t m l m (l.goto (.waitRecord m.cond.sequence deadline))
  | record (sequence : UInt32) (deadline : UInt64) (hpc : l.pc = .waitRecord sequence deadline) :
      CondMove t m l { m with cond := { m.cond with mutex := true } }
        (l.enter (.wait sequence deadline) .unlock)
  | same (sequence : UInt32) (deadline : UInt64) (hpc : l.pc = .waitCheck sequence deadline)
      (heq : m.cond.sequence = sequence) : CondMove t m l m (l.goto (.waitFutex sequence deadline))
  | relock (sequence : UInt32) (deadline : UInt64) (hpc : l.pc = .waitCheck sequence deadline) :
      CondMove t m l m (l.relock .ok)
  | park (sequence : UInt32) (deadline : UInt64) (hpc : l.pc = .waitFutex sequence deadline) :
      CondMove t m l (m.park t) (l.goto (.waitParked sequence deadline))
  | again (sequence : UInt32) (deadline : UInt64) (hpc : l.pc = .waitFutex sequence deadline) :
      CondMove t m l m (l.goto (.waitCheck sequence deadline))
  | released (sequence : UInt32) (deadline : UInt64) (hpc : l.pc = .waitParked sequence deadline)
      (hno : t ∉ m.parked) : CondMove t m l m (l.goto (.waitCheck sequence deadline))
  | expire (sequence : UInt32) (deadline : UInt64) (hpc : l.pc = .waitParked sequence deadline)
      (hmem : t ∈ m.parked) : CondMove t m l (m.unpark t) (l.relock .ETIMEDOUT)
  -- signal and broadcast
  | signalAdd (hpc : l.pc = .signalAdd) : CondMove t m l m.addSequence (l.goto .signalWake)
  | signalWake (hpc : l.pc = .signalWake) :
      CondMove t m l (m.wakeCond (wakeCap 1)) (l.goto (.ret .ok))
  | broadcastAdd (hpc : l.pc = .broadcastAdd) :
      CondMove t m l m.addSequence (l.goto (.broadcastMutex (m.cond.sequence + 1)))
  | broadcastMutex (sequence : UInt32) (hpc : l.pc = .broadcastMutex sequence) :
      CondMove t m l m (l.goto (.broadcastWake sequence m.cond.mutex))
  | broadcastWake (sequence : UInt32) (mutex : Bool) (hpc : l.pc = .broadcastWake sequence mutex) :
      CondMove t m l (m.wakeCond (wakeCap 1))
        (l.goto (if mutex then .requeue sequence 0 else .broadcastAll))
  | broadcastAll (hpc : l.pc = .broadcastAll) : CondMove t m l (m.wakeCond m.wakeable)
      (l.goto (if m.wakeable = FUTEX_WAKE_BATCH then .broadcastAll else .ret .ok))
  | requeue (sequence : UInt32) (moved : Nat) (hpc : l.pc = .requeue sequence moved)
      (heq : m.cond.sequence = sequence) : CondMove t m l (m.move m.movable)
      (l.goto (if m.movable = FUTEX_REQUEUE_BATCH then .requeue sequence (moved + m.movable)
        else afterRequeue (moved + m.movable)))
  | guard (sequence : UInt32) (moved : Nat) (hpc : l.pc = .requeue sequence moved)
      (hne : m.cond.sequence ≠ sequence) : CondMove t m l m (l.goto (afterRequeue moved))
  | free (hpc : l.pc = .mark) (h : m.mutex.locked = 0) : CondMove t m l m (l.goto .markWake)
  | marked (hpc : l.pc = .mark) (h : m.mutex.locked = 2) : CondMove t m l m (l.goto (.ret .ok))
  | held (hpc : l.pc = .mark) : CondMove t m l m (l.goto .markCas)
  | wake (hpc : l.pc = .markWake) :
      CondMove t m l (m.setMutex m.mutex.wake) (l.goto (.ret .ok))
  | mark (hpc : l.pc = .markCas) (h : m.mutex.locked = 1) :
      CondMove t m l (m.setMutex { m.mutex with locked := 2 }) (l.goto (.ret .ok))
  | lost (hpc : l.pc = .markCas) : CondMove t m l m (l.goto .mark)

variable {t : T} {m m' : CondMem T} {l l' : CondLocal} {expire : Bool}

theorem condNext_move (h : condNext t m l expire = some (m', l')) : CondMove t m l m' l' := by
  obtain ⟨pc, x⟩ := l
  cases pc with
  | ret rc => cases h
  | mutex k =>
    simp only [condNext] at h
    split at h
    · rename_i rc hret
      cases h
      exact .resume k rc rfl hret
    · obtain ⟨⟨x', l''⟩, hnext, heq⟩ := Option.map_eq_some_iff.mp h
      cases heq
      exact .mutex k x' l'' rfl (Mutex.next_move hnext)
  | waitLoad deadline =>
    cases h
    exact .load deadline rfl
  | waitRecord sequence deadline =>
    cases h
    exact .record sequence deadline rfl
  | waitCheck sequence deadline =>
    cases h
    split
    · exact .same sequence deadline rfl ‹_›
    · exact .relock sequence deadline rfl
  | waitFutex sequence deadline =>
    simp only [condNext] at h
    split at h <;> cases h
    · exact .park sequence deadline rfl
    · exact .again sequence deadline rfl
  | waitParked sequence deadline =>
    simp only [condNext] at h
    split at h
    · cases h
      exact .released sequence deadline rfl ‹_›
    · rename_i hmem
      split at h <;> cases h
      exact .expire sequence deadline rfl (not_not.mp hmem)
  | signalAdd =>
    cases h
    exact .signalAdd rfl
  | signalWake =>
    cases h
    exact .signalWake rfl
  | broadcastAdd =>
    cases h
    exact .broadcastAdd rfl
  | broadcastMutex sequence =>
    cases h
    exact .broadcastMutex sequence rfl
  | broadcastWake sequence mutex =>
    cases h
    exact .broadcastWake sequence mutex rfl
  | broadcastAll =>
    cases h
    exact .broadcastAll rfl
  | requeue sequence moved =>
    simp only [condNext] at h
    split at h <;> cases h
    · exact .requeue sequence moved rfl ‹_›
    · exact .guard sequence moved rfl ‹_›
  | mark =>
    simp only [condNext] at h
    split at h
    · cases h
      exact .free rfl ‹_›
    · split at h <;> cases h
      · exact .marked rfl ‹_›
      · exact .held rfl
  | markWake =>
    cases h
    exact .wake rfl
  | markCas =>
    simp only [condNext] at h
    split at h <;> cases h
    · exact .mark rfl ‹_›
    · exact .lost rfl

variable {s s' : Threads T (CondMem T) CondLocal} {e : CondEvent}

theorem condStep_cases (h : Threads.step condThread s (t, e) = some s') :
    (∃ c rc, e = .call c ∧ (s.loc t).pc = .ret rc ∧
        s' = ⟨s.mem, Function.update s.loc t (CondCall.enter (s.loc t) c)⟩) ∨
      ∃ m l, CondMove t s.mem (s.loc t) m l ∧ s' = ⟨m, Function.update s.loc t l⟩ := by
  obtain ⟨m, l, hnext, rfl⟩ := Threads.step_eq_some h
  cases e with
  | call c =>
    left
    simp only [condThread] at hnext
    split at hnext
    · rename_i rc hpc
      cases hnext
      exact ⟨c, rc, rfl, hpc, rfl⟩
    · cases hnext
  | go | expire => exact .inr ⟨m, l, condNext_move hnext, rfl⟩

end

end GovinDos.Pthread
