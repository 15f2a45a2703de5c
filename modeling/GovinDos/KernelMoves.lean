/-
  **What the steps of the control plane do.**

  A step is a short sequence of moves, and a move changes one thing.  `May` says which moves
  of certain kinds there can be.  The invariants stated here are kept by each move in
  `KernelTree` and `KernelGraph`.
-/
import GovinDos.Kernel
import GovinDos.OwnershipBlocks
import Mathlib

namespace GovinDos.Kernel

open Ownership Function
open Umem (BlockId EdgeRef Backing)

/-! ## 1. Fields after an update -/

section

variable (s : State)

@[simp] theorem get_setProc (p : Nat) (b : Process) (q : Nat) :
    (s.setProc p b).g_procs.get q = if q = p then some b else s.g_procs.get q :=
  OrdMap.get_set ..

@[simp] theorem cpu_setCpu (c : Nat) (k : Cpu) (d : Nat) :
    (s.setCpu c k).cpu d = if d = c then k else s.cpu d := update_apply ..

@[simp] theorem cpu_setJob (c : Nat) (j : Job) (d : Nat) :
    (s.setJob c j).cpu d = if d = c then { s.cpu c with job := j } else s.cpu d :=
  update_apply ..

theorem job_setJob (c : Nat) (j : Job) (d : Nat) :
    ((s.setJob c j).cpu d).job = if d = c then j else (s.cpu d).job := by
  rw [cpu_setJob]
  split <;> rfl

@[simp] theorem thread_setThread (t : Nat) (th : Option Thread) (t' : Nat) :
    (s.setThread t th).thread t' = if t' = t then th else s.thread t' := update_apply ..

@[simp] theorem g_procs_setJob (c : Nat) (j : Job) : (s.setJob c j).g_procs = s.g_procs := rfl

@[simp] theorem cpu_setProc (p : Nat) (b : Process) : (s.setProc p b).cpu = s.cpu := rfl

@[simp] theorem cpu_setThread (t : Nat) (th : Option Thread) : (s.setThread t th).cpu = s.cpu := rfl

@[simp] theorem cpu_setOwn (own : Ownership.State) : (s.setOwn own).cpu = s.cpu := rfl

@[simp] theorem own_setOwn (own : Ownership.State) : (s.setOwn own).own = own := rfl

@[simp] theorem own_setProc (p : Nat) (b : Process) : (s.setProc p b).own = s.own := rfl

end

/-! ## 2. Jobs that hold a child or a node -/

def Job.unborn : Job → Option Nat
  | .creating _ child => some child
  | _ => none

def Job.unlinked : Job → Option Nat
  | .linking _ child => some child
  | _ => none

def Job.node : Job → Option BlockId
  | .finishing _ node => some node
  | _ => none

def Job.made : Job → Option Nat
  | .returning _ child => some child
  | _ => none

structure Job.Plain (j : Job) : Prop where
  unborn : j.unborn = none
  unlinked : j.unlinked = none
  node : j.node = none
  made : j.made = none

def Job.half : Job → Bool
  | .loading _ => true
  | .unloading => true
  | _ => false

structure Job.Calm (j : Job) : Prop extends j.Plain where
  half : j.half = false

/-! ## 3. Invariants -/

structure Registry (s : State) : Prop where
  bound : ∀ p b, s.g_procs.get p = some b → p < s.g_next_pid
  parent : ∀ p b q, s.g_procs.get p = some b → b.parent = some q →
    q < p ∧ (s.g_procs.get q).isSome
  child : ∀ q b p v, s.g_procs.get q = some b → b.children.get p = some v →
    v = p ∧ ∃ b', s.g_procs.get p = some b' ∧ b'.parent = some q
  linked : ∀ p b q b', s.g_procs.get p = some b → b.parent = some q → s.g_procs.get q = some b' →
    (b'.children.get p = none ↔ ∃ c, (s.cpu c).job.unlinked = some p)
  unborn : ∀ c p, (s.cpu c).job.unborn = some p → p < s.g_next_pid ∧ s.g_procs.get p = none
  minted : ∀ c t p th, (s.cpu c).job = .creating t p → s.thread t = some th → th.proc < p
  unbornOnce : ∀ c d p, (s.cpu c).job.unborn = some p → (s.cpu d).job.unborn = some p → c = d
  adopts : ∀ c t p th, (s.cpu c).job = .linking t p → s.thread t = some th →
    ∃ b, s.g_procs.get p = some b ∧ b.parent = some th.proc
  linkOnce : ∀ c d p, (s.cpu c).job.unlinked = some p → (s.cpu d).job.unlinked = some p → c = d

structure Threads (s : State) : Prop where
  listed : ∀ p b t v, s.g_procs.get p = some b → b.threads.get t = some v →
    v = t ∧ ∃ th, s.thread t = some th ∧ th.proc = p
  lists : ∀ t th, s.thread t = some th →
    ∃ b, s.g_procs.get th.proc = some b ∧ b.threads.get t = some t
  bound : ∀ t th, s.thread t = some th → t < s.g_next_tid
  onCpu : ∀ c t, (s.cpu c).job.thread = some t →
    ∃ th, s.thread t = some th ∧ th.status ≠ .RUNNABLE ∧ th.status ≠ .BLOCKED
  once : ∀ c d t, (s.cpu c).job.thread = some t → (s.cpu d).job.thread = some t → c = d

def Completing (s : State) (id : BlockId) : Prop :=
  ∃ l : List Nat, l.Nodup ∧
    (∀ t, t ∈ l ↔ ∃ th, s.thread t = some th ∧ th.completion_block = some id) ∧
    (l = [] → pinsOf s.own id = none) ∧
    (l ≠ [] → ∃ p, pinsOf s.own id = some (p, l.length) ∧
      ∀ t ∈ l, ∃ th, s.thread t = some th ∧ th.proc = p)

structure Memory (s : State) : Prop where
  ok : Ok s.own
  home : ∀ p, s.g_procs.get p = none → s.own.mem p = .none
  as : ∀ p b, s.g_procs.get p = some b → (s.own.mem p).as = none →
    DeadIn s.links p ∧ (∀ t, b.threads.get t = none) ∧ ∀ q, b.children.get q = none
  node : ∀ c id, (s.cpu c).job.node = some id → (s.own.releasing id).isSome
  nodeOnce : ∀ c d id, (s.cpu c).job.node = some id → (s.cpu d).job.node = some id → c = d
  completing : ∀ id, Completing s id

def Announced (s : State) : Prop :=
  ∀ p b, s.g_procs.get p = some b → b.death_notified = true → DeadIn s.links p

structure Inv (s : State) : Prop where
  registry : Registry s
  threads : Threads s
  memory : Memory s
  announced : Announced s

/-! ## 4. Moves -/

def Repins (g g' : Ownership.State) (completion : Option BlockId) (p : Nat) (add : Bool) : Prop :=
  match completion, add with
  | none, _ => g' = g
  | some id, true => ∃ n, (pinsOf g id = none ∧ n = 0 ∨ pinsOf g id = some (p, n)) ∧
      Repinned g g' id (some (p, n + 1))
  | some id, false => ∃ n, pinsOf g id = some (p, n + 1) ∧
      Repinned g g' id (if n = 0 then none else some (p, n))

structure May where
  gains : Nat → Prop
  again : Nat → Prop
  ends : BlockId → Prop
  frees : Nat → Prop

inductive Move (M : May) (s : State) : State → Prop
  | job {c : Nat} {j : Job} (hthread : j.thread = (s.cpu c).job.thread)
      (hold : (s.cpu c).job.Calm) (hnew : j.Plain) : Move M s (s.setJob c j)
  | take {c t : Nat} {th : Thread} {status : Status} {j : Job} (hjob : (s.cpu c).job = .loop)
      (hth : s.thread t = some th) (hrun : th.status = .RUNNABLE)
      (hr : status ≠ .RUNNABLE) (hb : status ≠ .BLOCKED) (hj : j.thread = some t) (hnew : j.Plain) :
      Move M s ((s.setThread t (some { th with status := status })).setJob c j)
  | leave {c t : Nat} {th : Thread} (hjob : (s.cpu c).job.thread = some t)
      (hold : (s.cpu c).job.Calm) (hth : s.thread t = some th) : Move M s (leave s c t th)
  | park {c t : Nat} {th : Thread} {status : Status} (hjob : (s.cpu c).job.thread = some t)
      (hold : (s.cpu c).job.Calm) (hth : s.thread t = some th) :
      Move M s (park s c t th status)
  | wake {t : Nat} {th : Thread} (hth : s.thread t = some th) (hb : th.status = .BLOCKED) :
      Move M s (s.setThread t (some { th with status := .RUNNABLE }))
  /-- The first half of `as_switch`, to the address space of the thread or the kernel's. -/
  | switch {c : Nat} {o : Option Nat} {j : Job} (hthread : j.thread = (s.cpu c).job.thread)
      (hold : (s.cpu c).job.Calm) (hnew : j.Plain)
      (hhalf : (∃ t th, j = .loading t ∧ s.thread t = some th ∧ o = some th.proc ∧
          (s.own.mem th.proc).as.isSome ∧ c < s.g_cpu_state_table_len) ∨
        j = .unloading ∧ o = none) :
      Move M s (s.setCpu c { s.cpu c with current_as := o, job := j })
  | load {c : Nat} {j : Job} (hthread : j.thread = (s.cpu c).job.thread)
      (hold : (s.cpu c).job.Plain) (hnew : j.Plain) :
      Move M s (s.setCpu c { s.cpu c with cr3 := (s.cpu c).current_as, job := j })
  | own {own' : Ownership.State} {B V : Nat → Prop} (hkept : Kept B V s.own own')
      (hB : ∀ p, B p → (s.g_procs.get p).isSome ∧ (¬ DeadIn s.links p ∨ M.gains p))
      (hV : ∀ p, V p → (s.g_procs.get p).isSome ∧ ¬ DeadIn s.links p) :
      Move M s (s.setOwn own')
  | free {c t : Nat} {id : BlockId} {b : Ublock} {own' : Ownership.State}
      (hthread : (s.cpu c).job.thread = some t) (hold : (s.cpu c).job.Calm)
      (hchange : Change Nobody Nobody s.own own') (hpins : ∀ id, pinsOf own' id = pinsOf s.own id)
      (hb : s.own.heap id = some b) (hheap : own'.heap = Function.update s.own.heap id none)
      (hrel : own'.releasing = Function.update s.own.releasing id (some b.owner)) :
      Move M s ((s.setOwn own').setJob c (.finishing t id))
  | finish {c t p n : Nat} {id : BlockId} (hjob : (s.cpu c).job = .finishing t id)
      (hchange : Change Nobody Nobody s.own (s.own.unpin p id n)) (hends : M.ends id) :
      Move M s ((s.setOwn (s.own.unpin p id n)).setJob c (.user t))
  | status {p x : Nat} {b : Process} (hb : s.g_procs.get p = some b) (hA : b.dead = true → M.again p) :
      Move M s (s.setProc p { b with exit_status := x })
  | mark {p : Nat} {b : Process} (hb : s.g_procs.get p = some b) (hlive : ¬ DeadIn s.links p) :
      Move M s (s.setProc p { b with dead := true })
  | mute {p : Nat} {b : Process} (hb : s.g_procs.get p = some b) (hdead : DeadIn s.links p) :
      Move M s (s.setProc p { b with death_notified := true })
  | post {p q : Nat} {b : Process} (hb : s.g_procs.get p = some b) (hparent : b.parent = some q)
      (hdead : b.dead = true) (hA : b.death_notified = false ∨ M.again p) :
      Move M s (postChildDead s q p b)
  | mint {c t : Nat} (hthread : (s.cpu c).job.thread = some t) (hold : (s.cpu c).job.Calm) :
      Move M s ({ s with g_next_pid := s.g_next_pid + 1 }.setJob c (.creating t s.g_next_pid))
  | register {c t child : Nat} {th : Thread} (hjob : (s.cpu c).job = .creating t child)
      (hth : s.thread t = some th) :
      Move M s (({ s with g_procs := s.g_procs.set child (.fresh (some th.proc)) }.setOwn
        (s.own.setMem child { ProcMem.none with as := some 0 })).setJob c (.linking t child))
  | link {c t child : Nat} {th : Thread} {b : Process} (hjob : (s.cpu c).job = .linking t child)
      (hth : s.thread t = some th) (hb : s.g_procs.get th.proc = some b)
      (hG : ¬ DeadIn s.links th.proc ∨ M.gains th.proc) :
      Move M s ((s.setProc th.proc { b with children := b.children.set child child }).setJob c
        (.returning t child))
  | adopt {c t child : Nat} (hjob : (s.cpu c).job = .returning t child)
      (hchild : (s.g_procs.get child).isSome) : Move M s (s.setJob c (.user t))
  | spawn {p : Nat} {b : Process} {completion : Option BlockId} {own' : Ownership.State}
      (hb : s.g_procs.get p = some b) (hlive : ¬ DeadIn s.links p)
      (hpin : Repins s.own own' completion p true) :
      Move M s ((({ s.setOwn own' with g_next_tid := s.g_next_tid + 1 }.setThread s.g_next_tid
        (some ⟨p, .RUNNABLE, completion⟩)).setProc p { b with
          threads := b.threads.set s.g_next_tid s.g_next_tid, nthreads := b.nthreads + 1 }))
  | reap {t : Nat} {th : Thread} {b : Process} {own' : Ownership.State}
      (hth : s.thread t = some th) (hb : s.g_procs.get th.proc = some b)
      (hoff : ∀ c, (s.cpu c).job.thread ≠ some t)
      (hpin : Repins s.own own' th.completion_block th.proc false) :
      Move M s (((s.setOwn own').setThread t none).setProc th.proc { b with
        threads := b.threads.erase t, nthreads := b.nthreads - 1 })
  | freeAs {p : Nat} {b : Process} (hb : s.g_procs.get p = some b) (hdead : DeadIn s.links p)
      (hblocks : ∀ base, (s.own.mem p).blocks.get base = none)
      (hviews : ∀ base, (s.own.mem p).views.get base = none)
      (hthreads : ∀ t, b.threads.get t = none) (hchildren : ∀ q, b.children.get q = none)
      (has : (s.own.mem p).as = some 0)
      (hcur : ∀ c, c < s.g_cpu_state_table_len → (s.cpu c).current_as ≠ some p)
      (hfrees : M.frees p) :
      Move M s (s.setOwn (s.own.setMem p { s.own.mem p with as := none }))
  | unregister {p q : Nat} {b bq : Process} (hb : s.g_procs.get p = some b)
      (hdead : DeadIn s.links p) (hparent : b.parent = some q) (hq : s.g_procs.get q = some bq)
      (hin : bq.children.get p = some p) (hthreads : ∀ t, b.threads.get t = none)
      (hchildren : ∀ q, b.children.get q = none)
      (hblocks : ∀ base, (s.own.mem p).blocks.get base = none)
      (hviews : ∀ base, (s.own.mem p).views.get base = none) (has : (s.own.mem p).as = none)
      (hfrees : M.frees p) :
      Move M s ({ s with g_procs :=
        (s.g_procs.set q { bq with children := bq.children.erase p }).erase p }.setOwn
          (s.own.setMem p .none))

abbrev Moves (M : May) : State → State → Prop := Relation.ReflTransGen (Move M)

/-- The process whose thread is publishing a block, mapping a device or linking a child.
    -/
def Gains (s : State) (op : Op) (p : Nat) : Prop :=
  ∃ c env t th, op = .advance c env ∧ s.thread t = some th ∧ th.proc = p ∧
    ((∃ base order node, (s.cpu c).job = .publishing t base order node) ∨
      (∃ base len flags, (s.cpu c).job = .call t (.vmMapDevice base len flags)) ∨
      ∃ child, (s.cpu c).job = .linking t child)

def Again (s : State) (op : Op) (p : Nat) : Prop :=
  ∃ c env t th status b, op = .advance c env ∧ (s.cpu c).job = .call t (.procExit status) ∧
    s.thread t = some th ∧ th.proc = p ∧ s.g_procs.get p = some b ∧ b.dead = true

def Ends (s : State) (op : Op) (id : BlockId) : Prop :=
  ∃ c env t, op = .advance c env ∧ (s.cpu c).job = .finishing t id

def Frees (s : State) (op : Op) (p : Nat) : Prop :=
  ∃ c env t, op = .advance c env ∧ (s.cpu c).job = .call t (.procDestroy p)

def may (s : State) (op : Op) : May := ⟨Gains s op, Again s op, Ends s op, Frees s op⟩

end GovinDos.Kernel
