/-
  **The control plane on all CPUs (`kernel/src/process.c`, `syscall.c`, `thread.c`,
  `scheduler.c`, `schemes/tree.c`).**

  A step is one section under `g_umem`, or what a CPU does between two of them: dispatching,
  either half of `as_switch`, entering the kernel, parking.  A thread that is in the kernel
  keeps its place on its CPU's stack, so the place is part of the CPU.

  A process is named by its pid, an address space by its process; `g_procs` holds the bodies
  of the registered processes.  Results of calls are not kept.
-/
import GovinDos.Ownership

namespace GovinDos.Kernel

open Paging Ownership
open Umem (BlockId EdgeRef Backing)

/-! ## 1. Records -/

inductive Status where
  | RUNNABLE | RUNNING | BLOCKED | DEAD
deriving DecidableEq, Repr

structure Thread where
  proc : Nat
  status : Status
  completion_block : Option BlockId
deriving DecidableEq

structure Process where
  parent : Option Nat
  dead : Bool
  exit_status : Nat
  death_notified : Bool
  children : OrdMap Nat Nat
  threads : OrdMap Nat Nat
  nthreads : Nat

/-- The system calls with an effect on the control plane.  `vmScheme` is `VM_SHARE`
    with a negative target. -/
inductive Call where
  | vmAlloc
  | vmFree (base : Nat)
  | vmShare (base target : Nat) (prot : PagingFlags)
  | vmScheme (base : Nat) (scheme : Option Scheme)
  | vmDropshare (base pid : Nat)
  | vmUnshare (base pid : Nat)
  | vmMove (base pid : Nat)
  | vmMapDevice (base len : Nat) (flags : BitVec 32)
  | dmaRevoke
  | drain (base : Nat)
  | futexWait
  | procCreate
  | threadSpawn (pid : Nat) (completion : Option BlockId)
  | procKill (pid : Nat)
  | threadDestroy (pid tid : Nat)
  | procDestroy (pid : Nat)
  | procExit (status : Nat)
  | threadExit
  | yield

inductive Job where
  | loop
  | installing (t : Nat)
  | loading (t : Nat)
  | unloading
  | user (t : Nat)
  | call (t : Nat) (call : Call)
  | publishing (t base order : Nat) (node : BlockId)
  | finishing (t : Nat) (node : BlockId)
  | creating (t child : Nat)
  | linking (t child : Nat)
  /-- `process_create` is done, before `child->pid` is read. -/
  | returning (t child : Nat)
  | disposing (t : Nat)

def Job.thread : Job → Option Nat
  | loop => none
  | installing t => some t
  | loading t => some t
  | unloading => none
  | user t => some t
  | call t _ => some t
  | publishing t _ _ _ => some t
  | finishing t _ => some t
  | creating t _ => some t
  | linking t _ => some t
  | returning t _ => some t
  | disposing t => some t

/-- `none` stands for the kernel's address space. -/
structure Cpu where
  current_as : Option Nat
  cr3 : Option Nat
  job : Job

structure ChildDead where
  parent : Nat
  child : Nat
  status : Nat
deriving DecidableEq

structure State where
  platform : PlatformMem.Platform
  g_cpu_state_table_len : Nat
  g_init : Nat
  g_next_pid : Nat
  g_next_tid : Nat
  g_procs : OrdMap Nat Process
  thread : Nat → Option Thread
  cpu : Nat → Cpu
  own : Ownership.State
  posted : List ChildDead

def State.setProc (s : State) (p : Nat) (b : Process) : State :=
  { s with g_procs := s.g_procs.set p b }

def State.setThread (s : State) (t : Nat) (th : Option Thread) : State :=
  { s with thread := Function.update s.thread t th }

def State.setCpu (s : State) (c : Nat) (k : Cpu) : State :=
  { s with cpu := Function.update s.cpu c k }

def State.setJob (s : State) (c : Nat) (job : Job) : State :=
  s.setCpu c { s.cpu c with job := job }

def State.setOwn (s : State) (own : Ownership.State) : State := { s with own := own }

def State.links (s : State) : ProcTable := fun p =>
  (s.g_procs.get p).map fun b => ⟨b.parent, b.dead⟩

def State.isDead (s : State) (p : Nat) : Bool := processIsDead s.links p

/-! ## 2. Death -/

def setStatus (s : State) (p status : Nat) : Except Stop State := do
  let b ← deref (s.g_procs.get p)
  pure (s.setProc p { b with exit_status := status })

def markDeadLocked (s : State) (p : Nat) : Except Stop State :=
  if s.isDead p then pure s
  else do
    asserts (p ≠ s.g_init)
    let b ← deref (s.g_procs.get p)
    pure (s.setProc p { b with dead := true })

def postChildDead (s : State) (parent child : Nat) (b : Process) : State :=
  { s.setProc child { b with death_notified := true } with
    posted := s.posted ++ [⟨parent, child, b.exit_status⟩] }

def channelChildDeadNotify (s : State) (parent child : Nat) (room : Bool) : Except Stop State :=
  if ((s.own.mem parent).anchor .TREE).isSome && room then do
    let b ← deref (s.g_procs.get child)
    pure (postChildDead s parent child b)
  else pure s

def notifyParentLocked (s : State) (child : Nat) (room : Bool) : Except Stop State := do
  let b ← deref (s.g_procs.get child)
  match b.parent with
  | none => pure (s.setProc child { b with death_notified := true })
  | some parent =>
    if s.isDead parent then pure (s.setProc child { b with death_notified := true })
    else channelChildDeadNotify s parent child room

def treeReplay (s : State) (p : Nat) : Nat → List Nat → Except Stop State
  | _, [] => pure s
  | room, c :: rest => do
    let b ← deref (s.g_procs.get c)
    if b.dead && !b.death_notified then
      match room with
      | 0 => pure s
      | room + 1 => treeReplay (postChildDead s p c b) p room rest
    else treeReplay s p room rest

def replay (s : State) (p : Nat) (scheme : Scheme) (room : Nat) : Except Stop State :=
  match scheme with
  | .SHARES => do
    let own ← sharesReplay room s.own p
    pure (s.setOwn own)
  | .TREE => do
    let b ← deref (s.g_procs.get p)
    treeReplay s p room (b.children.entries.map (·.2))
  | _ => pure s

/-- The end of `channel_scheme_create`, after its outcome `r`. -/
def schemeReplay (s : State) (p : Nat) (r : SysResult) (scheme : Option Scheme) (room : Nat) :
    Except Stop State :=
  match r, scheme with
  | .ok _, some scheme => replay s p scheme room
  | _, _ => pure s

/-! ## 3. Threads -/

def completeThread (s : State) (th : Thread) : Except Stop State :=
  match th.completion_block with
  | none => pure s
  | some id => do
    let own ← channelThreadCompleteLocked s.own th.proc id
    pure (s.setOwn own)

def removeThread (s : State) (p t : Nat) : Except Stop State := do
  let b ← deref (s.g_procs.get p)
  let (removed, threads) ← assertSome (b.threads.remove t)
  asserts (removed = t)
  pure ((s.setThread t none).setProc p { b with threads := threads, nthreads := b.nthreads - 1 })

def processThreadExited (s : State) (t : Nat) (room : Bool) : Except Stop State := do
  let th ← deref (s.thread t)
  let s ← completeThread s th
  let s ← removeThread s th.proc t
  let b ← deref (s.g_procs.get th.proc)
  if b.nthreads = 0 && !s.isDead th.proc then do
    let s ← markDeadLocked s th.proc
    notifyParentLocked s th.proc room
  else pure s

def processSpawnThreadLocked (s : State) (p : Nat) (completion : Option BlockId) :
    Except Stop State := do
  asserts (!s.isDead p)
  let tid := s.g_next_tid
  let b ← deref (s.g_procs.get p)
  let threads ← assertSome (b.threads.insert tid tid)
  pure (({ s with g_next_tid := tid + 1 }.setThread tid (some ⟨p, .RUNNABLE, completion⟩)).setProc p
    { b with threads := threads, nthreads := b.nthreads + 1 })

/-- `proc_sys_thread_spawn` from its section on.  `start` says whether the record and
    the two pages it names are good. -/
def procSysThreadSpawn (s : State) (me pid : Nat) (completion : Option BlockId) (start : Bool) :
    Except Stop (State × SysResult) :=
  if !live s.links pid then pure (s, .error .INVAL)
  else do
    let target ← deref (s.g_procs.get pid)
    if pid ≠ me && target.parent ≠ some me then pure (s, .error .INVAL)
    else do
      let _ ← deref (s.own.mem pid).as
      if !start then pure (s, .error .INVAL)
      else match completion with
        | none => do
          let s' ← processSpawnThreadLocked s pid none
          pure (s', .ok s.g_next_tid)
        | some id =>
          if pid ≠ me then pure (s, .error .INVAL)
          else match pinCompletion s.own pid id with
            | none => pure (s, .error .INVAL)
            | some own => do
              let s' ← processSpawnThreadLocked (s.setOwn own) pid (some id)
              pure (s', .ok s.g_next_tid)

def resourceSubjectLocked (s : State) (caller pid : Nat) : Option Nat :=
  if pid = 0 ∨ pid = caller then some caller
  else if (s.links pid).isSome && processReaperAuthorizedLocked s.links caller pid then some pid
  else none

/-- `claimed` says whether the futex claim on the victim was won or not needed. -/
def procSysThreadDestroy (s : State) (me pid tid : Nat) (claimed : Bool) :
    Except Stop (State × SysResult) :=
  match resourceSubjectLocked s me pid with
  | none => pure (s, .error .PERM)
  | some target =>
    if target ≠ me && !s.isDead target then pure (s, .error .PERM)
    else do
      let b ← deref (s.g_procs.get target)
      match b.threads.get tid with
      | none => pure (s, .error .INVAL)
      | some victim => do
        let th ← deref (s.thread victim)
        if th.status ≠ .BLOCKED || !claimed then pure (s, .error .AGAIN)
        else do
          let s ← completeThread s th
          let s ← removeThread s target victim
          pure (s, .ok 0)

/-! ## 4. Processes -/

def Process.fresh (parent : Option Nat) : Process :=
  ⟨parent, false, 0, false, .empty, .empty, 0⟩

def umemProcessRegister (s : State) (parent child : Nat) : Except Stop State := do
  let g_procs ← assertSome (s.g_procs.insert child (.fresh (some parent)))
  pure ({ s with g_procs := g_procs }.setOwn
    (s.own.setMem child { ProcMem.none with as := some 0 }))

def linkChild (s : State) (parent child : Nat) : Except Stop State := do
  let b ← deref (s.g_procs.get parent)
  let children ← assertSome (b.children.insert child child)
  pure (s.setProc parent { b with children := children })

def procSysKill (s : State) (me pid : Nat) (room : Bool) : Except Stop (State × SysResult) :=
  if !live s.links pid || pid = me then pure (s, .error .INVAL)
  else if !ancestorUp s.links me (pid + 1) ((s.links pid).bind (·.parent)) then
    pure (s, .error .INVAL)
  else do
    let s ← markDeadLocked s pid
    let s ← notifyParentLocked s pid room
    pure (s, .ok 0)

def PROC_DESTROY_DONE : Nat := 0
def PROC_DESTROY_MORE : Nat := 1

def asIsCurrent (s : State) (pid : Nat) : Bool :=
  (List.range s.g_cpu_state_table_len).any fun i => (s.cpu i).current_as = some pid

def freeProcess (s : State) (pid : Nat) (target : Process) : Except Stop State := do
  let parent ← deref target.parent
  let b ← deref (s.g_procs.get parent)
  let (removed, children) ← assertSome (b.children.remove pid)
  asserts (removed = pid)
  let s := s.setProc parent { b with children := children }
  let (_, g_procs) ← assertSome (s.g_procs.remove pid)
  -- `umem_process_finish_locked`
  asserts ((s.own.mem pid).blocks.len = 0 && (s.own.mem pid).views.len = 0)
  pure ({ s with g_procs := g_procs }.setOwn (s.own.setMem pid .none))

def procSysDestroy (s : State) (me pid : Nat) : Except Stop (State × SysResult) :=
  if (s.links pid).isNone || !processReaperAuthorizedLocked s.links me pid then
    pure (s, .error .PERM)
  else do
    let target ← deref (s.g_procs.get pid)
    let m := s.own.mem pid
    if m.blocks.len ≠ 0 || m.views.len ≠ 0 || target.children.len ≠ 0 || target.threads.len ≠ 0 then
      pure (s, .error .EXIST)
    else match m.as with
      | some pins =>
        if pins ≠ 0 || asIsCurrent s pid then pure (s, .error .AGAIN)
        else pure (s.setOwn (s.own.setMem pid { m with as := none }), .ok PROC_DESTROY_MORE)
      | none => do
        let s ← freeProcess s pid target
        pure (s, .ok PROC_DESTROY_DONE)

def procSysChildren (s : State) (me pid cap after : Nat) : Except SysErr (List Nat) :=
  match resourceSubjectLocked s me pid with
  | none => .error .PERM
  | some target => match s.g_procs.get target with
    | none => .error .PERM
    | some b => .ok ((b.children.keys.filter (after < ·)).take cap)

/-! ## 5. The section a system call runs -/

structure Env where
  node : Option BlockId
  base : Nat
  order : Nat
  nodes : Bool
  room : Bool
  rooms : Nat
  destroyable : Bool
  granted : Bool
  start : Bool
  claimed : Bool
  parks : Bool
  mapped : BlockId
  dma_maps : Nat

def leave (s : State) (c t : Nat) (th : Thread) : State :=
  (s.setThread t (some { th with status := .DEAD })).setJob c (.disposing t)

def park (s : State) (c t : Nat) (th : Thread) (status : Status) : State :=
  (s.setThread t (some { th with status := status })).setJob c .loop

def channelRingDrain (s : State) (p base : Nat) (env : Env) : Except Stop State :=
  match (s.own.mem p).blocks.get base with
  | none => pure s
  | some id => do
    let b ← deref (s.own.heap id)
    match b.ring with
    | none => pure s
    | some .IOMMU => pure (s.setOwn (setDmaMaps s.own env.mapped env.dma_maps))
    | some scheme => replay s p scheme env.rooms

def returning (s : State) (c t : Nat) (r : Except Stop (Ownership.State × SysResult)) :
    Except Stop State := do
  let (own, _) ← r
  pure ((s.setOwn own).setJob c (.user t))

def syscall (s : State) (c t : Nat) (th : Thread) (env : Env) : Call → Except Stop State
  | .vmAlloc => do
    let _ ← deref (s.own.mem th.proc).as
    match env.node with
    | none => pure (s.setJob c (.user t))
    | some node => pure (s.setJob c (.publishing t env.base env.order node))
  | .vmFree base => do
    let (own, r) ← umemFree s.links s.own th.proc base env.destroyable
    pure ((s.setOwn own).setJob c (match r, s.own.g_ublocks.get base with
      | .ok _, some node => .finishing t node
      | _, _ => .user t))
  | .vmShare base target prot =>
    returning s c t (umemShare s.links s.own th.proc base target prot env.nodes env.room)
  | .vmScheme base scheme => do
    let (own, r) ← channelSchemeCreate s.own th.proc base scheme
    let s ← schemeReplay (s.setOwn own) th.proc r scheme env.rooms
    pure (s.setJob c (.user t))
  | .vmDropshare base pid => returning s c t (umemDropshare s.links s.own th.proc base pid)
  | .vmUnshare base pid => returning s c t (umemUnshare s.links s.own th.proc base pid)
  | .vmMove base pid => returning s c t (procSysVmMove s.links s.own th.proc base pid)
  | .vmMapDevice base len flags =>
    if env.granted then
      returning s c t (umemMapDeviceLocked s.platform s.own th.proc base len flags env.node)
    else pure (s.setJob c (.user t))
  | .dmaRevoke => pure ((s.setOwn (setDmaMaps s.own env.mapped env.dma_maps)).setJob c (.user t))
  | .drain base => do
    let s ← channelRingDrain s th.proc base env
    pure (s.setJob c (.user t))
  | .futexWait =>
    if s.isDead th.proc then pure (leave s c t th)
    else if env.parks then pure (park s c t th .BLOCKED)
    else pure (s.setJob c (.user t))
  | .procCreate =>
    pure ({ s with g_next_pid := s.g_next_pid + 1 }.setJob c (.creating t s.g_next_pid))
  | .threadSpawn pid completion => do
    let (s, _) ← procSysThreadSpawn s th.proc pid completion env.start
    pure (s.setJob c (.user t))
  | .procKill pid => do
    let (s, _) ← procSysKill s th.proc pid env.room
    pure (s.setJob c (.user t))
  | .threadDestroy pid tid => do
    let (s, _) ← procSysThreadDestroy s th.proc pid tid env.claimed
    pure (s.setJob c (.user t))
  | .procDestroy pid => do
    let (s, _) ← procSysDestroy s th.proc pid
    pure (s.setJob c (.user t))
  | .procExit status => do
    let s ← setStatus s th.proc status
    let s ← markDeadLocked s th.proc
    let s ← notifyParentLocked s th.proc env.room
    pure (leave s c t th)
  | .threadExit => pure (leave s c t th)
  | .yield => pure (park s c t th .RUNNABLE)

/-! ## 6. The system -/

inductive Op where
  | dispatch (c t : Nat)
  | install (c : Nat)
  | load (c : Nat)
  | idle (c : Nat)
  | enter (c : Nat) (call : Call)
  | advance (c : Nat) (env : Env)
  | interrupt (c : Nat) (preempt : Bool)
  | fault (c : Nat)
  | exited (c : Nat) (room : Bool)
  | wake (t : Nat)

def advance (s : State) (c : Nat) (env : Env) : Except Stop State :=
  match (s.cpu c).job with
  | .call t call => do
    let th ← deref (s.thread t)
    syscall s c t th env call
  | .publishing t base order node => do
    let th ← deref (s.thread t)
    let own ← umemAllocPublish s.own th.proc base order node
    pure ((s.setOwn own).setJob c (.user t))
  | .finishing t node => do
    let own ← umemReleaseFinish s.own node
    pure ((s.setOwn own).setJob c (.user t))
  | .creating t child => do
    let th ← deref (s.thread t)
    let s ← umemProcessRegister s th.proc child
    pure (s.setJob c (.linking t child))
  | .linking t child => do
    let th ← deref (s.thread t)
    let s ← linkChild s th.proc child
    pure (s.setJob c (.returning t child))
  | .returning t child => do
    let _ ← deref (s.g_procs.get child)
    pure (s.setJob c (.user t))
  | _ => .error .disabled

def dispatch (s : State) (c t : Nat) : Except Stop State :=
  match (s.cpu c).job, s.thread t with
  | .loop, some th =>
    if th.status = .RUNNABLE then do
      let _ ← deref (s.g_procs.get th.proc)
      -- the cull
      if s.isDead th.proc then pure (leave s c t th)
      else pure ((s.setThread t (some { th with status := .RUNNING })).setJob c (.installing t))
    else .error .disabled
  | _, _ => .error .disabled

def install (s : State) (c : Nat) : Except Stop State :=
  match (s.cpu c).job with
  | .installing t => do
    let th ← deref (s.thread t)
    let _ ← deref (s.g_procs.get th.proc)
    let _ ← assertSome (s.own.mem th.proc).as
    if (s.cpu c).current_as = some th.proc then pure (s.setJob c (.user t))
    else pure (s.setCpu c { s.cpu c with current_as := some th.proc, job := .loading t })
  | _ => .error .disabled

def load (s : State) (c : Nat) : Except Stop State :=
  match (s.cpu c).job with
  | .loading t => pure (s.setCpu c { s.cpu c with cr3 := (s.cpu c).current_as, job := .user t })
  | .unloading => pure (s.setCpu c { s.cpu c with cr3 := (s.cpu c).current_as, job := .loop })
  | _ => .error .disabled

def idle (s : State) (c : Nat) : Except Stop State :=
  match (s.cpu c).job with
  | .loop =>
    if (s.cpu c).current_as = none then pure s
    else pure (s.setCpu c { s.cpu c with current_as := none, job := .unloading })
  | _ => .error .disabled

def inUser (s : State) (c : Nat) : Except Stop (Nat × Thread) :=
  match (s.cpu c).job with
  | .user t => do
    let th ← deref (s.thread t)
    let _ ← deref (s.g_procs.get th.proc)
    pure (t, th)
  | _ => .error .disabled

def act (s : State) : Op → Except Stop State
  | .dispatch c t => dispatch s c t
  | .install c => install s c
  | .load c => load s c
  | .idle c => idle s c
  | .enter c call => do
    let (t, th) ← inUser s c
    if s.isDead th.proc then pure (leave s c t th) else pure (s.setJob c (.call t call))
  | .advance c env => advance s c env
  | .interrupt c preempt => do
    let (t, th) ← inUser s c
    if s.isDead th.proc then pure (leave s c t th)
    else if preempt then pure (park s c t th .RUNNABLE) else pure s
  | .fault c => do
    let (t, th) ← inUser s c
    pure (leave s c t th)
  | .exited c room => match (s.cpu c).job with
    | .disposing t => processThreadExited (s.setJob c .loop) t room
    | _ => .error .disabled
  | .wake t => match s.thread t with
    | some th =>
      if th.status = .BLOCKED then do
        let _ ← deref (s.g_procs.get th.proc)
        if s.isDead th.proc then pure s
        else pure (s.setThread t (some { th with status := .RUNNABLE }))
      else .error .disabled
    | none => .error .disabled

def Op.cpu : Op → Option Nat
  | .dispatch c _ => some c
  | .install c => some c
  | .load c => some c
  | .idle c => some c
  | .enter c _ => some c
  | .advance c _ => some c
  | .interrupt c _ => some c
  | .fault c => some c
  | .exited c _ => some c
  | .wake _ => none

def exec (s : State) (op : Op) : Except Stop State :=
  if op.cpu.all (· < s.g_cpu_state_table_len) then act s op else .error .disabled

def step (s : State) (op : Op) : Option State := (exec s op).toOption

def INIT : Nat := 1

def boot (platform : PlatformMem.Platform) (ncpus : Nat) : State where
  platform := platform
  g_cpu_state_table_len := ncpus
  g_init := INIT
  g_next_pid := INIT + 1
  g_next_tid := 2
  g_procs := OrdMap.empty.set INIT { Process.fresh none with
    threads := OrdMap.empty.set 1 1, nthreads := 1 }
  thread := fun t => if t = 1 then some ⟨INIT, .RUNNABLE, none⟩ else none
  cpu := fun _ => ⟨none, none, .loop⟩
  own := {
    heap := fun _ => none
    sharers := fun _ => .empty
    g_ublocks := .empty
    releasing := fun _ => none
    mem := fun p => if p = INIT then { ProcMem.none with as := some 0 } else .none }
  posted := []

/-- A node is nobody's, buddy blocks are disjoint from each other and from device
    ranges. -/
def Legal (s : State) : Op → Prop
  | .advance c env => match (s.cpu c).job with
    | .publishing _ base order node =>
      s.own.heap node = none ∧ s.own.releasing node = none ∧ ∀ id b, s.own.heap id = some b →
        base + PAGE_SIZE * 2 ^ order ≤ b.base ∨ b.base + b.bytes ≤ base
    | .call _ (.vmMapDevice base len _) =>
      (∀ id, env.node = some id → s.own.heap id = none ∧ s.own.releasing id = none) ∧
        ∀ id b, s.own.heap id = some b → b.backing = .RAM →
          base + len ≤ b.base ∨ b.base + b.bytes ≤ base
    | _ => True
  | _ => True

end GovinDos.Kernel
