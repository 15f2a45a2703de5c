/-
  **One thread at a time.**

  `State.view s t` is all the system has about thread `t`.  `Turn` is the machine one thread
  goes through, whoever makes the step, and `Thread.Ok` says which views it can reach: who
  may hold a claim at which stage, and where a thread stands meanwhile.
-/
import GovinDos.Lib.Occurrence
import GovinDos.Thread

namespace GovinDos.Thread

open Kernel (Status)
open Occurrence

/-! ## 1. Views -/

inductive Seat where
  | popped | user | kernel | waiting | parking | left
deriving DecidableEq

inductive Linger where
  | saved | off | closing
deriving DecidableEq

inductive Stage where
  | moving (key : FutexKey)
  | picked (key : FutexKey)
  | hooked
  | timed (key : TdeadlineKey)
  | expired
  | unhooked
  | reaped
  /-- Both are gone; then the process was seen alive, `status` and `wake_state`
      written. -/
  | clear
  | checked
  | runnable
  | released
  | doomed

inductive Watch where
  | victim | off | blocked | parked
deriving DecidableEq

def Ctx.seats : Ctx → List (Nat × Seat)
  | .popped t => [(t, .popped)]
  | .user t => [(t, .user)]
  | .kernel t => [(t, .kernel)]
  | .waiting t _ _ _ => [(t, .waiting)]
  | .parking t => [(t, .parking)]
  | .left t => [(t, .left)]
  | _ => []

def Ctx.lingers : Ctx → List (Nat × Linger)
  | .saved t => [(t, .saved)]
  | .off t => [(t, .off)]
  | .closing t => [(t, .closing)]
  | _ => []

def Claim.held (i : Claim) : Nat × Stage := (i.thread, if i.hooked then .expired else .unhooked)

def Work.holds : Work → List (Nat × Stage)
  | .detach _ _ _ batch => batch.map (·, .unhooked)
  | .unhook _ _ _ batch key t => batch.map (·, .unhooked) ++ [(t, .picked key)]
  | .finish batch => batch.map Claim.held
  | .settle t _ rest => (t, .clear) :: rest.map Claim.held
  | .unblock t _ rest => (t, .checked) :: rest.map Claim.held
  | .release t _ rest => (t, .runnable) :: rest.map Claim.held
  | .enqueue t _ rest => (t, .released) :: rest.map Claim.held
  | .relink _ _ _ _ _ key t => [(t, .moving key)]
  | .expire _ _ batch => batch.map (·, .expired)
  | .pop _ _ batch key t => batch.map (·, .expired) ++ [(t, .timed key)]
  | .reap t => [(t, .hooked)]
  | .reapCancel t => [(t, .reaped)]
  | .free t => [(t, .doomed)]
  | _ => []

def Work.watches : Work → List (Nat × Watch)
  | .victim t => [(t, .victim)]
  | .victimOff t => [(t, .off)]
  | .victimBlocked t => [(t, .blocked)]
  | .victimParked t => [(t, .parked)]
  | _ => []

structure View where
  made : Prop
  tcb : Option Tcb
  nodes : Set (Nat × FutexKey)
  entries : Set (Nat × TdeadlineKey)
  queue : Nat → List Unit
  seat : Nat → List Seat
  linger : Nat → List Linger
  hold : Nat → List Stage
  watch : Nat → List Watch
  dead : Nat → Bool
  log : List (Nat × Disposition)

def State.view (s : State) (t : Nat) : View where
  made := t < s.g_next_tid
  tcb := s.thread t
  nodes := owned s.waiters t
  entries := owned s.deadlines t
  queue := fun c => marks t ((s.queue c).map (·, ()))
  seat := fun c => marks t (s.cpu c).ctx.seats
  linger := fun c => marks t (s.cpu c).ctx.lingers
  hold := fun c => marks t (s.cpu c).work.holds
  watch := fun c => marks t (s.cpu c).work.watches
  dead := s.dead
  log := marks t s.log

/-! ## 2. Reachable views -/

structure Wait where
  state : FutexState
  key : FutexKey
  deadline : Nat
  cpu : Nat

def Tcb.wait (x : Tcb) : Wait := ⟨x.wake_state, x.wait_key, x.deadline, x.deadline_cpu⟩

def Wait.node (hash : Nat → Nat) (w : Wait) : Set (Nat × FutexKey) := {(hash w.key.address, w.key)}

def Wait.due (t : Nat) (w : Wait) : Set (Nat × TdeadlineKey) :=
  if w.deadline = 0 then ∅ else {(w.cpu, ⟨w.deadline, t⟩)}

@[simp] theorem Wait.due_of_zero {t : Nat} {w : Wait} (h : w.deadline = 0) : w.due t = ∅ := if_pos h

/-- Not parked; parked, or claimed since; `status` written; claim released. -/
inductive Phase where
  | idle | waiting | runnable | released

/-- Which park states go with which holder, and whether the node is in its bucket. -/
inductive Fits (t : Nat) (w : Wait) : Option (Nat × Stage) → Phase → Bool → Prop
  | idle (hs : w.state = .IDLE) (hd : w.deadline = 0) : Fits t w none .idle false
  | parked (hs : w.state = .PARKED) : Fits t w none .waiting true
  | reapable (hs : w.state = .REAPABLE) (hd : w.deadline = 0) : Fits t w none .waiting false
  | moving (c : Nat) (hs : w.state = .MOVING) : Fits t w (some (c, .moving w.key)) .waiting true
  | picked (c : Nat) (hs : w.state = .CLAIMED) : Fits t w (some (c, .picked w.key)) .waiting true
  | hooked (c : Nat) (hs : w.state = .CLAIMED) : Fits t w (some (c, .hooked)) .waiting true
  | timed (hs : w.state = .CLAIMED) (hd : w.deadline ≠ 0) :
      Fits t w (some (w.cpu, .timed ⟨w.deadline, t⟩)) .waiting true
  | expired (c : Nat) (hs : w.state = .CLAIMED) (hd : w.deadline = 0) :
      Fits t w (some (c, .expired)) .waiting true
  | unhooked (c : Nat) (hs : w.state = .CLAIMED) : Fits t w (some (c, .unhooked)) .waiting false
  | reaped (c : Nat) (hs : w.state = .CLAIMED) : Fits t w (some (c, .reaped)) .waiting false
  | clear (c : Nat) (hs : w.state = .CLAIMED) (hd : w.deadline = 0) :
      Fits t w (some (c, .clear)) .waiting false
  | checked (c : Nat) (hs : w.state = .CLAIMED) (hd : w.deadline = 0) :
      Fits t w (some (c, .checked)) .waiting false
  | doomed (c : Nat) (hs : w.state = .CLAIMED ∨ w.state = .REAPABLE) (hd : w.deadline = 0) :
      Fits t w (some (c, .doomed)) .waiting false
  | runnable (c : Nat) (hs : w.state = .CLAIMED) (hd : w.deadline = 0) :
      Fits t w (some (c, .runnable)) .runnable false
  | released (c : Nat) (hs : w.state = .IDLE) (hd : w.deadline = 0) :
      Fits t w (some (c, .released)) .released false

inductive Stand (status : Status) (on_cpu : Bool) : Phase → Option Nat → Option (Nat × Seat) → Prop
  | queued (c : Nat) (hs : status = .RUNNABLE) (hc : on_cpu = false) :
      Stand status on_cpu .idle (some c) none
  | yielding (c : Nat) (hs : status = .RUNNABLE) (hc : on_cpu = true) :
      Stand status on_cpu .idle (some c) (some (c, .left))
  | popped (c : Nat) (hs : status = .RUNNABLE) (hc : on_cpu = false) :
      Stand status on_cpu .idle none (some (c, .popped))
  | user (c : Nat) (hs : status = .RUNNING) (hc : on_cpu = true) :
      Stand status on_cpu .idle none (some (c, .user))
  | kernel (c : Nat) (hs : status = .RUNNING) (hc : on_cpu = true) :
      Stand status on_cpu .idle none (some (c, .kernel))
  | waiting (c : Nat) (hs : status = .RUNNING) (hc : on_cpu = true) :
      Stand status on_cpu .idle none (some (c, .waiting))
  | exiting (c : Nat) (hs : status = .DEAD) (hc : on_cpu = true) :
      Stand status on_cpu .idle none (some (c, .left))
  | dead (hs : status = .DEAD) (hc : on_cpu = false) : Stand status on_cpu .idle none none
  | parking (c : Nat) (hs : status = .RUNNING) (hc : on_cpu = true) :
      Stand status on_cpu .waiting none (some (c, .parking))
  | leaving (c : Nat) (hs : status = .BLOCKED) (hc : on_cpu = true) :
      Stand status on_cpu .waiting none (some (c, .left))
  | blocked (hs : status = .BLOCKED) (hc : on_cpu = false) : Stand status on_cpu .waiting none none
  | runnable (hs : status = .RUNNABLE) (hc : on_cpu = false) :
      Stand status on_cpu .runnable none none
  | released (hs : status = .RUNNABLE) (hc : on_cpu = false) :
      Stand status on_cpu .released none none

def place {M : Type} : Option (Nat × M) → Nat → List M
  | none => nowhere
  | some (c, m) => sole c m

@[simp] theorem place_eq_sole {M : Type} {o : Option (Nat × M)} {c : Nat} {m : M} :
    place o = sole c m ↔ o = some (c, m) := by
  cases o with
  | none => simp [place]
  | some p => simp [place, Prod.ext_iff]

@[simp] theorem place_eq_nowhere {M : Type} {o : Option (Nat × M)} : place o = nowhere ↔ o = none := by
  cases o with
  | none => simp [place]
  | some p => simp [place]

structure Life (hash : Nat → Nat) (t : Nat) (v : View) (x : Tcb) (holder : Option (Nat × Stage))
    (phase : Phase) (hooked : Bool) (queued : Option Nat) (seated : Option (Nat × Seat)) : Prop where
  tcb : v.tcb = some x
  nodes : v.nodes = if hooked then x.wait.node hash else ∅
  entries : v.entries = x.wait.due t
  hold : v.hold = place holder
  queue : v.queue = place (queued.map (·, ()))
  seat : v.seat = place seated
  fits : Fits t x.wait holder phase hooked
  stand : Stand x.status x.on_cpu phase queued seated

structure Gone (v : View) : Prop where
  tcb : v.tcb = none
  nodes : v.nodes = ∅
  entries : v.entries = ∅
  hold : v.hold = nowhere
  queue : v.queue = nowhere
  seat : v.seat = nowhere ∨ ∃ c r, (r = .parking ∨ r = .left) ∧ v.seat = sole c r

inductive Shape (hash : Nat → Nat) (t : Nat) (v : View) : Prop
  | gone (h : Gone v)
  | life (x : Tcb) (holder : Option (Nat × Stage)) (phase : Phase) (hooked : Bool)
      (queued : Option Nat) (seated : Option (Nat × Seat))
      (h : Life hash t v x holder phase hooked queued seated)

structure Blank (v : View) : Prop where
  gone : Gone v
  seat : v.seat = nowhere
  linger : v.linger = nowhere
  watch : v.watch = nowhere
  log : v.log = []

/-! ## 3. Turns -/

/-- A CPU goes on with the thread it runs; `dead` says what became of its process. -/
inductive Reseat (dead : Bool) : Seat → Seat → Prop
  | trap : Reseat dead .user .kernel
  | sysret : Reseat dead .kernel .user
  | wait (h : dead = false) : Reseat dead .kernel .waiting
  | refuse : Reseat dead .waiting .kernel

def Unsaved (v : View) : Prop := ∀ c, .saved ∉ v.linger c

inductive Rewatch (x : Tcb) (quiet : Prop) : List Watch → List Watch → Prop
  | start : Rewatch x quiet [] [.victim]
  | off (h : x.on_cpu = false) (hquiet : quiet) : Rewatch x quiet [.victim] [.off]
  | blocked (h : x.status = .BLOCKED) : Rewatch x quiet [.off] [.blocked]
  | parked (h : x.wake_state = .PARKED) : Rewatch x quiet [.blocked] [.parked]
  | again (w : Watch) : Rewatch x quiet [w] []

/-- One step, seen by thread `t`.  `κ` is what may be asked of a step beyond what
    the code makes sure of. -/
inductive Turn (hash : Nat → Nat) (κ : Prop) (t : Nat) (v : View) : View → Prop
  | stay : Turn hash κ t v v
  | kill (dead : Nat → Bool) (h : ∀ p, v.dead p = true → dead p = true) :
      Turn hash κ t v { v with dead := dead }
  | spawn (p c : Nat) (completion : Option (Nat × Nat)) (hmade : ¬ v.made) (hblank : Blank v) :
      Turn hash κ t v { v with
        made := True, tcb := some (threadNew p completion), queue := sole c () }
  -- on a CPU
  | pop (c : Nat) (x : Tcb) (hx : v.tcb = some x) (hq : v.queue = sole c ()) (hc : v.seat c = [])
      (hκ : κ → Unsaved v) :
      Turn hash κ t v { v with queue := nowhere, seat := Function.update v.seat c [.popped] }
  | cull (c : Nat) (x : Tcb) (hx : v.tcb = some x) (hq : v.queue = sole c ()) (hc : v.seat c = [])
      (hdead : v.dead x.proc = true) (hκ : κ → Unsaved v) :
      Turn hash κ t v { v with
        tcb := some { x with status := .DEAD }, queue := nowhere
        linger := Function.update v.linger c [.off] }
  | install (c : Nat) (x : Tcb) (hx : v.tcb = some x) (hseat : v.seat = sole c .popped)
      (hκ : κ → v.dead x.proc = true ∨ ∀ d, ∀ w ∈ v.watch d, w = .victim) :
      Turn hash κ t v { v with
        tcb := some { x with status := .RUNNING, on_cpu := true }, seat := sole c .user }
  | reseat (c : Nat) (x : Tcb) (r r' : Seat) (hx : v.tcb = some x) (hseat : v.seat = sole c r)
      (h : Reseat (v.dead x.proc) r r') : Turn hash κ t v { v with seat := sole c r' }
  | rollback (c : Nat) (x : Tcb) (key : FutexKey) (hx : v.tcb = some x)
      (hseat : v.seat = sole c .waiting) :
      Turn hash κ t v { v with
        tcb := some { x with wait_key := key, deadline := 0 }, seat := sole c .kernel }
  | yield (c : Nat) (x : Tcb) (hx : v.tcb = some x) (hseat : v.seat = sole c .kernel) :
      Turn hash κ t v { v with
        tcb := some { x with status := .RUNNABLE }
        queue := Function.update v.queue c (v.queue c ++ [()]), seat := sole c .left }
  | exit (c : Nat) (x : Tcb) (hx : v.tcb = some x) (hseat : v.seat = sole c .kernel) :
      Turn hash κ t v { v with tcb := some { x with status := .DEAD }, seat := sole c .left }
  | park (c : Nat) (x y : Tcb) (hx : v.tcb = some x) (hseat : v.seat = sole c .waiting)
      (hy : y.wake_state = .PARKED) (hproc : y.proc = x.proc) (hstatus : y.status = x.status)
      (hcpu : y.on_cpu = x.on_cpu) (hparks : y.parks = x.parks + 1) :
      Turn hash κ t v { v with
        tcb := some y, nodes := v.nodes ∪ y.wait.node hash, entries := v.entries ∪ y.wait.due t
        seat := sole c .parking }
  | block (c : Nat) (x : Tcb) (hx : v.tcb = some x) (hseat : v.seat = sole c .parking) :
      Turn hash κ t v { v with tcb := some { x with status := .BLOCKED }, seat := sole c .left }
  | switched (c : Nat) (x : Tcb) (hx : v.tcb = some x) (hseat : v.seat = sole c .left) :
      Turn hash κ t v { v with
        tcb := some { x with on_cpu := false }, seat := nowhere
        linger := Function.update v.linger c [.saved] }
  -- disposal by its CPU
  | prevStatus (c : Nat) (x : Tcb) (hx : v.tcb = some x) (hc : v.linger c = [.saved]) :
      Turn hash κ t v { v with
        linger := Function.update v.linger c (if x.status = .DEAD then [.off] else []) }
  | exited (c : Nat) (x : Tcb) (hx : v.tcb = some x) (hc : v.linger c = [.off]) :
      Turn hash κ t v { v with linger := Function.update v.linger c [.closing] }
  | close (c : Nat) (x : Tcb) (hx : v.tcb = some x) (hc : v.linger c = [.closing])
      (hwatch : v.watch = nowhere) :
      Turn hash κ t v { v with tcb := none, linger := Function.update v.linger c [] }
  -- claims
  | pick (c : Nat) (x : Tcb) (key : FutexKey) (hx : v.tcb = some x) (hs : x.wake_state = .PARKED)
      (hkey : (hash key.address, key) ∈ v.nodes) (hhold : v.hold = nowhere) :
      Turn hash κ t v { v with
        tcb := some { x with wake_state := .CLAIMED }, hold := sole c (.picked key) }
  | unhook (c : Nat) (key : FutexKey) (hhold : v.hold = sole c (.picked key)) :
      Turn hash κ t v { v with
        nodes := v.nodes \ {(hash key.address, key)}, hold := sole c .unhooked }
  | move (c : Nat) (x : Tcb) (key : FutexKey) (hx : v.tcb = some x) (hs : x.wake_state = .PARKED)
      (hkey : (hash key.address, key) ∈ v.nodes) (hhold : v.hold = nowhere) :
      Turn hash κ t v { v with
        tcb := some { x with wake_state := .MOVING }, hold := sole c (.moving key) }
  | relink (c : Nat) (x : Tcb) (key key' : FutexKey) (hx : v.tcb = some x)
      (hhold : v.hold = sole c (.moving key)) :
      Turn hash κ t v { v with
        tcb := some { x with wait_key := key', wake_state := .PARKED }
        nodes := insert (hash key'.address, key') (v.nodes \ {(hash key.address, key)})
        hold := nowhere }
  | time (c : Nat) (x : Tcb) (key : TdeadlineKey) (hx : v.tcb = some x)
      (hs : x.wake_state = .PARKED) (hkey : (c, key) ∈ v.entries) (hhold : v.hold = nowhere) :
      Turn hash κ t v { v with
        tcb := some { x with wake_state := .CLAIMED }, hold := sole c (.timed key) }
  | expire (c : Nat) (x : Tcb) (key : TdeadlineKey) (hx : v.tcb = some x)
      (hhold : v.hold = sole c (.timed key)) :
      Turn hash κ t v { v with
        tcb := some { x with deadline := 0 }, entries := v.entries \ {(c, key)}
        hold := sole c .expired }
  | claim (c : Nat) (x : Tcb) (hx : v.tcb = some x) (hs : x.wake_state = .PARKED)
      (hc : v.watch c = [.parked]) (hhold : v.hold = nowhere) :
      Turn hash κ t v { v with
        tcb := some { x with wake_state := .CLAIMED }, hold := sole c .hooked
        watch := Function.update v.watch c [] }
  | removeNode (c : Nat) (x : Tcb) (st st' : Stage) (hx : v.tcb = some x) (hhold : v.hold = sole c st)
      (h : st = .expired ∧ st' = .unhooked ∨ st = .hooked ∧ st' = .reaped) :
      Turn hash κ t v { v with nodes := v.nodes \ x.wait.node hash, hold := sole c st' }
  | cancel (c : Nat) (x : Tcb) (st st' : Stage) (hx : v.tcb = some x) (hhold : v.hold = sole c st)
      (h : st = .unhooked ∧ st' = .clear ∨ st = .reaped ∧ st' = .doomed) :
      Turn hash κ t v { v with
        tcb := some { x with deadline := 0 }, entries := v.entries \ x.wait.due t
        hold := sole c st' }
  -- finishing
  | reapable (c : Nat) (x : Tcb) (hx : v.tcb = some x) (hhold : v.hold = sole c .clear)
      (hdead : v.dead x.proc = true) :
      Turn hash κ t v { v with tcb := some { x with wake_state := .REAPABLE }, hold := nowhere }
  | check (c : Nat) (x : Tcb) (hx : v.tcb = some x) (hhold : v.hold = sole c .clear) :
      Turn hash κ t v { v with hold := sole c .checked }
  | unblock (c : Nat) (x : Tcb) (hx : v.tcb = some x) (hhold : v.hold = sole c .checked)
      (hcpu : x.on_cpu = false) :
      Turn hash κ t v { v with
        tcb := some { x with status := .RUNNABLE }, hold := sole c .runnable }
  | release (c : Nat) (x : Tcb) (hx : v.tcb = some x) (hhold : v.hold = sole c .runnable) :
      Turn hash κ t v { v with
        tcb := some { x with wake_state := .IDLE }, hold := sole c .released }
  | enqueue (c d : Nat) (x : Tcb) (result : Wake) (hx : v.tcb = some x)
      (hhold : v.hold = sole c .released) :
      Turn hash κ t v { v with
        queue := Function.update v.queue d (v.queue d ++ [()]), hold := nowhere
        log := v.log ++ [(x.parks, .runnable result)] }
  -- destroyers
  | rewatch (c : Nat) (x : Tcb) (w : List Watch) (hx : v.tcb = some x)
      (h : Rewatch x (κ → Unsaved v) (v.watch c) w) :
      Turn hash κ t v { v with watch := Function.update v.watch c w }
  | doom (c : Nat) (x : Tcb) (hx : v.tcb = some x) (hs : x.wake_state = .REAPABLE)
      (hc : v.watch c = [.blocked]) (hhold : v.hold = nowhere) :
      Turn hash κ t v { v with hold := sole c .doomed, watch := Function.update v.watch c [] }
  | free (c : Nat) (x : Tcb) (hx : v.tcb = some x) (hhold : v.hold = sole c .doomed)
      (hwatch : v.watch = nowhere) :
      Turn hash κ t v { v with
        tcb := none, hold := nowhere, log := v.log ++ [(x.parks, .freed)] }

/-! ## 4. Turns keep the shape -/

section

variable {hash : Nat → Nat} {κ : Prop} {t c : Nat} {v v' : View} {x : Tcb}
  {holder : Option (Nat × Stage)} {phase : Phase} {hooked : Bool} {queued : Option Nat}
  {seated : Option (Nat × Seat)}

theorem Shape.of_tcb (h : Shape hash t v) (hx : v.tcb = some x) :
    ∃ holder phase hooked queued seated, Life hash t v x holder phase hooked queued seated := by
  cases h with
  | gone h => cases h.tcb.symm.trans hx
  | life y holder phase hooked queued seated h =>
    obtain rfl := Option.some_inj.mp (h.tcb.symm.trans hx)
    exact ⟨holder, phase, hooked, queued, seated, h⟩

theorem atMostOne_place {M : Type} (o : Option (Nat × M)) : AtMostOne (place o) := by
  cases o with
  | none => exact .inl rfl
  | some p => exact .inr ⟨p.1, p.2, rfl⟩

theorem Shape.hold_atMostOne (h : Shape hash t v) : AtMostOne v.hold := by
  cases h with
  | gone h => exact .inl h.hold
  | life x holder phase hooked queued seated h => exact h.hold ▸ atMostOne_place holder

theorem Shape.seat_atMostOne (h : Shape hash t v) : AtMostOne v.seat := by
  cases h with
  | gone h => exact h.seat.imp id fun ⟨c, r, _, hr⟩ => ⟨c, r, hr⟩
  | life x holder phase hooked queued seated h => exact h.seat ▸ atMostOne_place seated

theorem Shape.queue_atMostOne (h : Shape hash t v) : AtMostOne v.queue := by
  cases h with
  | gone h => exact .inl h.queue
  | life x holder phase hooked queued seated h => exact h.queue ▸ atMostOne_place _

theorem Shape.exists_tcb {r : Seat} (h : Shape hash t v) (hseat : v.seat = sole c r)
    (hr : r ≠ .parking) (hr' : r ≠ .left) : ∃ x, v.tcb = some x := by
  cases h with
  | gone h =>
    rcases h.seat with hnone | ⟨d, r', hor, hsole⟩
    · cases sole_ne_nowhere (hseat.symm.trans hnone)
    · obtain ⟨rfl, rfl⟩ := sole_inj.mp (hseat.symm.trans hsole)
      rcases hor with rfl | rfl
      · exact absurd rfl hr
      · exact absurd rfl hr'
  | life x holder phase hooked queued seated h => exact ⟨x, h.tcb⟩

theorem Shape.of_hold {st : Stage} (h : Shape hash t v) (hhold : v.hold = sole c st) :
    ∃ x phase hooked queued seated,
      Life hash t v x (some (c, st)) phase hooked queued seated := by
  cases h with
  | gone h => cases sole_ne_nowhere (hhold.symm.trans h.hold)
  | life x holder phase hooked queued seated h =>
    obtain rfl := place_eq_sole.mp (h.hold.symm.trans hhold)
    exact ⟨x, phase, hooked, queued, seated, h⟩

theorem Shape.held {st : Stage} (h : Shape hash t v) (hx : v.tcb = some x)
    (hhold : v.hold = sole c st) :
    ∃ phase hooked queued seated, Life hash t v x (some (c, st)) phase hooked queued seated := by
  obtain ⟨holder, phase, hooked, queued, seated, h⟩ := h.of_tcb hx
  obtain rfl := place_eq_sole.mp (h.hold.symm.trans hhold)
  exact ⟨phase, hooked, queued, seated, h⟩

theorem Shape.of_seat {r : Seat} (h : Shape hash t v) (hx : v.tcb = some x)
    (hseat : v.seat = sole c r) :
    ∃ holder phase hooked queued, Life hash t v x holder phase hooked queued (some (c, r)) := by
  obtain ⟨holder, phase, hooked, queued, seated, h⟩ := h.of_tcb hx
  obtain rfl := place_eq_sole.mp (h.seat.symm.trans hseat)
  exact ⟨holder, phase, hooked, queued, h⟩

theorem Shape.of_queue (h : Shape hash t v) (hx : v.tcb = some x) (hq : v.queue = sole c ()) :
    ∃ holder phase hooked seated, Life hash t v x holder phase hooked (some c) seated := by
  obtain ⟨holder, phase, hooked, queued, seated, h⟩ := h.of_tcb hx
  have hq := place_eq_sole.mp (h.queue.symm.trans hq)
  cases queued with
  | none => cases hq
  | some d =>
    cases hq
    exact ⟨holder, phase, hooked, seated, h⟩

theorem Fits.of_parked {w : Wait} (h : Fits t w holder phase hooked) (hs : w.state = .PARKED) :
    holder = none ∧ phase = .waiting ∧ hooked = true := by
  cases h <;> simp_all

theorem Shape.of_parked (h : Shape hash t v) (hx : v.tcb = some x) (hs : x.wake_state = .PARKED) :
    ∃ queued seated, Life hash t v x none .waiting true queued seated := by
  obtain ⟨holder, phase, hooked, queued, seated, h⟩ := h.of_tcb hx
  obtain ⟨rfl, rfl, rfl⟩ := h.fits.of_parked hs
  exact ⟨queued, seated, h⟩

theorem Life.key_of_mem {key : FutexKey} (h : Life hash t v x holder phase true queued seated)
    (hkey : (hash key.address, key) ∈ v.nodes) : key = x.wait_key := by
  rw [h.nodes] at hkey
  exact congrArg Prod.snd hkey

theorem Life.entry_of_mem {key : TdeadlineKey} (h : Life hash t v x holder phase hooked queued seated)
    (hkey : (c, key) ∈ v.entries) :
    x.deadline ≠ 0 ∧ c = x.deadline_cpu ∧ key = ⟨x.deadline, t⟩ := by
  rw [h.entries, Wait.due] at hkey
  split at hkey
  · cases hkey
  · rename_i hd
    exact ⟨hd, congrArg Prod.fst hkey, congrArg Prod.snd hkey⟩

theorem Life.claim (h : Life hash t v x holder phase hooked queued seated) (y : Tcb)
    (holder' : Option (Nat × Stage)) (hooked' : Bool) (hstatus : y.status = x.status) (hcpu : y.on_cpu = x.on_cpu)
    (hv : v'.tcb = some y) (hnodes : v'.nodes = if hooked' then y.wait.node hash else ∅)
    (hentries : v'.entries = y.wait.due t) (hhold : v'.hold = place holder')
    (hq : v'.queue = v.queue) (hseat : v'.seat = v.seat)
    (hfits : Fits t y.wait holder' phase hooked') : Shape hash t v' :=
  .life y holder' phase hooked' queued seated {
    tcb := hv
    nodes := hnodes
    entries := hentries
    hold := hhold
    queue := hq.trans h.queue
    seat := hseat.trans h.seat
    fits := hfits
    stand := by rw [hstatus, hcpu]; exact h.stand }

theorem Life.stand_at (h : Life hash t v x holder phase hooked queued seated) (y : Tcb)
    (queued' : Option Nat) (seated' : Option (Nat × Seat)) (hwait : y.wait = x.wait)
    (hv : v'.tcb = some y) (hnodes : v'.nodes = v.nodes) (hentries : v'.entries = v.entries)
    (hhold : v'.hold = v.hold) (hq : v'.queue = place (queued'.map (·, ())))
    (hseat : v'.seat = place seated') (hstand : Stand y.status y.on_cpu phase queued' seated') :
    Shape hash t v' :=
  .life y holder phase hooked queued' seated' {
    tcb := hv
    nodes := by rw [hnodes, h.nodes, hwait]
    entries := by rw [hentries, h.entries, hwait]
    hold := hhold.trans h.hold
    queue := hq
    seat := hseat
    fits := by rw [hwait]; exact h.fits
    stand := hstand }

theorem Shape.dead (h : Shape hash t v) (dead : Nat → Bool) : Shape hash t { v with dead := dead } := by
  cases h with
  | gone h => exact .gone { h with }
  | life x holder phase hooked queued seated h =>
    exact .life x holder phase hooked queued seated { h with }

theorem Stand.of_dead {status : Status} {on_cpu : Bool}
    (h : Stand status on_cpu phase queued seated) (hs : status = .DEAD) :
    phase = .idle ∧ queued = none := by
  cases h <;> simp_all

theorem Life.gone_seat (h : Life hash t v x holder phase hooked queued seated)
    (hgone : x.status = .DEAD ∨ phase = .waiting) :
    v.seat = nowhere ∨ ∃ c r, (r = .parking ∨ r = .left) ∧ v.seat = sole c r := by
  have hstand := h.stand
  have hseat := h.seat
  cases hstand <;> simp_all [place]

def Disposed (v : View) : Prop :=
  ∀ c, .off ∈ v.linger c ∨ .closing ∈ v.linger c → ∀ x, v.tcb = some x → x.status = .DEAD

theorem Turn.shape (h : Shape hash t v) (hdis : Disposed v) (hturn : Turn hash κ t v v') :
    Shape hash t v' := by
  cases hturn with
  | stay => exact h
  | kill dead _ => exact h.dead dead
  | spawn p c completion _ hblank =>
    exact .life _ none .idle false (some c) none {
      tcb := rfl
      nodes := hblank.gone.nodes
      entries := hblank.gone.entries
      hold := hblank.gone.hold
      queue := rfl
      seat := hblank.seat
      fits := .idle rfl rfl
      stand := .queued c rfl rfl }
  | pop c x hx hq hc _ =>
    obtain ⟨holder, phase, hooked, seated, h⟩ := h.of_queue hx hq
    cases h.stand with
    | queued _ hs hon =>
      refine h.stand_at x none (some (c, .popped)) rfl h.tcb rfl rfl rfl rfl ?_ (.popped c hs hon)
      simp [h.seat, place]
    | yielding => simp [h.seat, place] at hc
  | cull c x hx hq hc hdead _ =>
    obtain ⟨holder, phase, hooked, seated, h⟩ := h.of_queue hx hq
    cases h.stand with
    | queued _ hs hon =>
      exact h.stand_at { x with status := .DEAD } none none rfl rfl rfl rfl rfl rfl h.seat
        (.dead rfl hon)
    | yielding => simp [h.seat, place] at hc
  | install c x hx hseat _ =>
    obtain ⟨holder, phase, hooked, queued, h⟩ := h.of_seat hx hseat
    cases h.stand with
    | popped _ hs hon =>
      exact h.stand_at { x with status := .RUNNING, on_cpu := true } none (some (c, .user))
        rfl rfl rfl rfl rfl h.queue rfl (.user c rfl rfl)
  | reseat c x r r' hx hseat hre =>
    obtain ⟨holder, phase, hooked, queued, h⟩ := h.of_seat hx hseat
    have hstand := h.stand
    have hgo (hs : x.status = .RUNNING) (hon : x.on_cpu = true) (hq : queued = none)
        (hstand : Stand x.status x.on_cpu phase none (some (c, r'))) :
        Shape hash t { v with seat := sole c r' } :=
      h.stand_at x none (some (c, r')) rfl h.tcb rfl rfl rfl (hq ▸ h.queue) rfl hstand
    cases hre with
    | trap => cases hstand with | user _ hs hon => exact hgo hs hon rfl (.kernel c hs hon)
    | sysret => cases hstand with | kernel _ hs hon => exact hgo hs hon rfl (.user c hs hon)
    | wait => cases hstand with | kernel _ hs hon => exact hgo hs hon rfl (.waiting c hs hon)
    | refuse => cases hstand with | waiting _ hs hon => exact hgo hs hon rfl (.kernel c hs hon)
  | rollback c x key hx hseat =>
    obtain ⟨holder, phase, hooked, queued, h⟩ := h.of_seat hx hseat
    have hfits := h.fits
    cases h.stand with
    | waiting _ hs hon =>
      cases hfits with
      | idle hw hd =>
        exact .life _ none .idle false none (some (c, .kernel)) {
          tcb := rfl
          nodes := h.nodes
          entries := h.entries.trans (Wait.due_of_zero hd)
          hold := h.hold
          queue := h.queue
          seat := rfl
          fits := .idle hw rfl
          stand := .kernel c hs hon }
  | yield c x hx hseat =>
    obtain ⟨holder, phase, hooked, queued, h⟩ := h.of_seat hx hseat
    cases h.stand with
    | kernel _ hs hon =>
      refine h.stand_at { x with status := .RUNNABLE } (some c) (some (c, .left)) rfl rfl rfl rfl rfl
        ?_ rfl (.yielding c rfl hon)
      simp [h.queue, place]
  | exit c x hx hseat =>
    obtain ⟨holder, phase, hooked, queued, h⟩ := h.of_seat hx hseat
    cases h.stand with
    | kernel _ hs hon =>
      exact h.stand_at { x with status := .DEAD } none (some (c, .left)) rfl rfl rfl rfl rfl h.queue
        rfl (.exiting c rfl hon)
  | park c x y hx hseat hy _ hstatus hcpu _ =>
    obtain ⟨holder, phase, hooked, queued, h⟩ := h.of_seat hx hseat
    have hfits := h.fits
    cases h.stand with
    | waiting _ hs hon =>
      cases hfits with
      | idle hw hd =>
        exact .life y none .waiting true none (some (c, .parking)) {
          tcb := rfl
          nodes := by simp [h.nodes]
          entries := by simp [h.entries, Wait.due_of_zero hd]
          hold := h.hold
          queue := h.queue
          seat := rfl
          fits := .parked hy
          stand := .parking c (hstatus.trans hs) (hcpu.trans hon) }
  | block c x hx hseat =>
    obtain ⟨holder, phase, hooked, queued, h⟩ := h.of_seat hx hseat
    cases h.stand with
    | parking _ hs hon =>
      exact h.stand_at { x with status := .BLOCKED } none (some (c, .left)) rfl rfl rfl rfl rfl h.queue
        rfl (.leaving c rfl hon)
  | switched c x hx hseat =>
    obtain ⟨holder, phase, hooked, queued, h⟩ := h.of_seat hx hseat
    have hstand := h.stand
    have hgo (hstand : Stand x.status false phase queued none) :
        Shape hash t { v with tcb := some { x with on_cpu := false }, seat := nowhere
                              linger := Function.update v.linger c [.saved] } :=
      h.stand_at { x with on_cpu := false } queued none rfl rfl rfl rfl rfl h.queue rfl hstand
    cases hstand with
    | yielding _ hs hon => exact hgo (.queued c hs rfl)
    | exiting _ hs hon => exact hgo (.dead hs rfl)
    | leaving _ hs hon => exact hgo (.blocked hs rfl)
  | prevStatus c x hx hc | exited c x hx hc | rewatch c x w hx _ =>
    obtain ⟨holder, phase, hooked, queued, seated, h⟩ := h.of_tcb hx
    exact .life x holder phase hooked queued seated { h with }
  | close c x hx hc _ =>
    obtain ⟨holder, phase, hooked, queued, seated, h⟩ := h.of_tcb hx
    obtain ⟨rfl, rfl⟩ := h.stand.of_dead (hdis c (.inr (by simp [hc])) x hx)
    cases h.fits with
    | idle hs hd =>
      exact .gone ⟨rfl, h.nodes, h.entries.trans (Wait.due_of_zero hd), h.hold, h.queue,
        h.gone_seat (.inl (hdis c (.inr (by simp [hc])) x hx))⟩
  | pick c x key hx hs hkey hhold =>
    obtain ⟨queued, seated, h⟩ := h.of_parked hx hs
    obtain rfl := h.key_of_mem hkey
    exact h.claim { x with wake_state := .CLAIMED } (some (c, .picked x.wait_key)) true rfl rfl rfl
      h.nodes h.entries rfl rfl rfl (.picked c rfl)
  | unhook c key hhold =>
    obtain ⟨x, phase, hooked, queued, seated, h⟩ := h.of_hold hhold
    cases h.fits with
    | picked _ hs =>
      exact h.claim x (some (c, .unhooked)) false rfl rfl h.tcb
        (by simp [h.nodes, Wait.node]) h.entries rfl rfl rfl (.unhooked c hs)
  | move c x key hx hs hkey hhold =>
    obtain ⟨queued, seated, h⟩ := h.of_parked hx hs
    obtain rfl := h.key_of_mem hkey
    exact h.claim { x with wake_state := .MOVING } (some (c, .moving x.wait_key)) true rfl rfl rfl
      h.nodes h.entries rfl rfl rfl (.moving c rfl)
  | relink c x key key' hx hhold =>
    obtain ⟨phase, hooked, queued, seated, h⟩ := h.held hx hhold
    cases h.fits with
    | moving _ hs =>
      exact h.claim { x with wait_key := key', wake_state := .PARKED } none true rfl rfl rfl
        (by simp [h.nodes, Wait.node, Tcb.wait]) h.entries rfl rfl rfl (.parked rfl)
  | time c x key hx hs hkey hhold =>
    obtain ⟨queued, seated, h⟩ := h.of_parked hx hs
    obtain ⟨hd, rfl, rfl⟩ := h.entry_of_mem hkey
    exact h.claim { x with wake_state := .CLAIMED } (some (x.deadline_cpu, .timed ⟨x.deadline, t⟩)) true
      rfl rfl rfl h.nodes h.entries rfl rfl rfl (.timed rfl hd)
  | expire c x key hx hhold =>
    obtain ⟨phase, hooked, queued, seated, h⟩ := h.held hx hhold
    cases h.fits with
    | timed hs hd =>
      have hd : x.deadline ≠ 0 := hd
      exact h.claim { x with deadline := 0 } (some (x.deadline_cpu, .expired)) true rfl rfl rfl
        h.nodes (by simp [h.entries, Wait.due, hd, Tcb.wait]) rfl rfl rfl (.expired _ hs rfl)
  | claim c x hx hs hc hhold =>
    obtain ⟨queued, seated, h⟩ := h.of_parked hx hs
    exact h.claim { x with wake_state := .CLAIMED } (some (c, .hooked)) true rfl rfl rfl
      h.nodes h.entries rfl rfl rfl (.hooked c rfl)
  | removeNode c x st st' hx hhold hst =>
    obtain ⟨phase, hooked, queued, seated, h⟩ := h.held hx hhold
    have hfits := h.fits
    rcases hst with ⟨rfl, rfl⟩ | ⟨rfl, rfl⟩
    · cases hfits with
      | expired _ hs hd =>
        exact h.claim x (some (c, .unhooked)) false rfl rfl h.tcb (by simp [h.nodes])
          h.entries rfl rfl rfl (.unhooked c hs)
    · cases hfits with
      | hooked _ hs =>
        exact h.claim x (some (c, .reaped)) false rfl rfl h.tcb (by simp [h.nodes])
          h.entries rfl rfl rfl (.reaped c hs)
  | cancel c x st st' hx hhold hst =>
    obtain ⟨phase, hooked, queued, seated, h⟩ := h.held hx hhold
    have hfits := h.fits
    have hdue : v.entries \ x.wait.due t = ({ x with deadline := 0 } : Tcb).wait.due t := by
      simp [h.entries, Wait.due, Tcb.wait]
    rcases hst with ⟨rfl, rfl⟩ | ⟨rfl, rfl⟩
    · cases hfits with
      | unhooked _ hs =>
        exact h.claim { x with deadline := 0 } (some (c, .clear)) false rfl rfl rfl h.nodes hdue rfl
          rfl rfl (.clear c hs rfl)
    · cases hfits with
      | reaped _ hs =>
        exact h.claim { x with deadline := 0 } (some (c, .doomed)) false rfl rfl rfl h.nodes hdue rfl
          rfl rfl (.doomed c (.inl hs) rfl)
  | reapable c x hx hhold _ =>
    obtain ⟨phase, hooked, queued, seated, h⟩ := h.held hx hhold
    cases h.fits with
    | clear _ hs hd =>
      exact h.claim { x with wake_state := .REAPABLE } none false rfl rfl rfl h.nodes h.entries rfl
        rfl rfl (.reapable rfl hd)
  | check c x hx hhold =>
    obtain ⟨y, phase, hooked, queued, seated, h⟩ := h.of_hold hhold
    cases h.fits with
    | clear _ hs hd =>
      exact h.claim y (some (c, .checked)) false rfl rfl h.tcb h.nodes h.entries rfl rfl rfl
        (.checked c hs hd)
  | unblock c x hx hhold hcpu =>
    obtain ⟨phase, hooked, queued, seated, h⟩ := h.held hx hhold
    have hstand := h.stand
    cases h.fits with
    | checked _ hs hd =>
      cases hstand with
      | blocked hs' hon =>
        exact .life _ (some (c, .runnable)) .runnable false none none {
          h with
          tcb := rfl
          hold := rfl
          fits := .runnable c hs hd
          stand := .runnable rfl hon }
      | parking _ hs' hon | leaving _ hs' hon => cases hcpu.symm.trans hon
  | release c x hx hhold =>
    obtain ⟨phase, hooked, queued, seated, h⟩ := h.held hx hhold
    have hstand := h.stand
    cases h.fits with
    | runnable _ hs hd =>
      cases hstand with
      | runnable hs' hon =>
        exact .life _ (some (c, .released)) .released false none none {
          h with
          tcb := rfl
          hold := rfl
          fits := .released c rfl hd
          stand := .released hs' hon }
  | enqueue c d x result hx hhold =>
    obtain ⟨phase, hooked, queued, seated, h⟩ := h.held hx hhold
    have hstand := h.stand
    cases h.fits with
    | released _ hs hd =>
      cases hstand with
      | released hs' hon =>
        exact .life x none .idle false (some d) none {
          h with
          hold := rfl
          queue := by simp [h.queue, place]
          fits := .idle hs hd
          stand := .queued d hs' hon }
  | doom c x hx hs hc hhold =>
    obtain ⟨holder, phase, hooked, queued, seated, h⟩ := h.of_tcb hx
    obtain rfl := place_eq_nowhere.mp (h.hold.symm.trans hhold)
    cases h.fits with
    | idle hs' => cases hs'.symm.trans hs
    | parked hs' => cases hs'.symm.trans hs
    | reapable hs' hd =>
      exact h.claim x (some (c, .doomed)) false rfl rfl h.tcb h.nodes h.entries rfl rfl rfl
        (.doomed c (.inr hs') hd)
  | free c x hx hhold _ =>
    obtain ⟨y, phase, hooked, queued, seated, h⟩ := h.of_hold hhold
    have hstand := h.stand
    cases h.fits with
    | doomed _ hs hd =>
      refine .gone ⟨rfl, h.nodes, h.entries.trans (Wait.due_of_zero hd), rfl, ?_, h.gone_seat (.inr rfl)⟩
      cases hstand <;> exact h.queue

theorem Shape.status_of_seat {r : Seat} (h : Shape hash t v) (hx : v.tcb = some x)
    (hseat : v.seat = sole c r) (hr : r ≠ .left) : x.status ≠ .DEAD := by
  obtain ⟨holder, phase, hooked, queued, h⟩ := h.of_seat hx hseat
  have hstand := h.stand
  cases hstand <;> simp_all

theorem Shape.idle_of_seat {r : Seat} (h : Shape hash t v) (hx : v.tcb = some x)
    (hseat : v.seat = sole c r) (hpark : r ≠ .parking) (hleft : r ≠ .left) :
    x.wake_state = .IDLE := by
  obtain ⟨holder, phase, hooked, queued, h⟩ := h.of_seat hx hseat
  have hfits := h.fits
  have hstand := h.stand
  obtain rfl : phase = .idle := by cases hstand <;> simp_all
  cases hfits with
  | idle hs => exact hs

theorem Disposed.keep (h : Disposed v) (hx : v.tcb = some x) {y : Tcb}
    (htcb : v'.tcb = some y) (hlinger : v'.linger = v.linger)
    (hy : x.status = .DEAD → y.status = .DEAD) : Disposed v' := by
  intro d hd z hz
  obtain rfl := Option.some_inj.mp (htcb.symm.trans hz)
  exact hy (h d (hlinger ▸ hd) x hx)

theorem Turn.disposed (h : Shape hash t v) (hdis : Disposed v) (hturn : Turn hash κ t v v') :
    Disposed v' := by
  cases hturn with
  | spawn p c completion _ hblank =>
    intro d hd
    simp [hblank.linger] at hd
  | pop c x hx | reseat c x r r' hx => exact hdis.keep hx hx rfl id
  | cull c x hx =>
    intro d hd y hy
    obtain rfl := Option.some_inj.mp hy
    rfl
  | install c x hx hseat | yield c x hx hseat | block c x hx hseat =>
    exact hdis.keep hx rfl rfl fun hs => absurd hs (h.status_of_seat hx hseat (by simp))
  | rollback c x key hx | pick c x key hx | move c x key hx | relink c x key key' hx
  | time c x key hx | expire c x key hx | claim c x hx | cancel c x st st' hx | reapable c x hx
  | release c x hx => exact hdis.keep hx rfl rfl id
  | exit c x hx => exact hdis.keep hx rfl rfl fun _ => rfl
  | park c x y hx _ _ _ hstatus => exact hdis.keep hx rfl rfl hstatus.trans
  | switched c x hx =>
    intro d hd y hy
    obtain rfl := Option.some_inj.mp hy
    by_cases hdc : d = c
    · subst hdc
      simp at hd
    · exact hdis d (by simpa [hdc] using hd) x hx
  | prevStatus c x hx hc =>
    intro d hd y hy
    obtain rfl := Option.some_inj.mp (hx.symm.trans hy)
    by_cases hdc : d = c
    · subst hdc
      by_contra hs
      simp [hs] at hd
    · exact hdis d (by simpa [hdc] using hd) x hx
  | exited c x hx hc =>
    intro d hd y hy
    by_cases hdc : d = c
    · exact hdis c (by simp [hc]) y hy
    · exact hdis d (by simpa [hdc] using hd) y hy
  | close | free => exact fun _ _ y hy => by cases hy
  | unblock c x hx hhold hcpu =>
    refine hdis.keep hx rfl rfl fun hs => ?_
    obtain ⟨phase, hooked, queued, seated, h⟩ := h.held hx hhold
    obtain ⟨rfl, -⟩ := h.stand.of_dead hs
    cases h.fits
  | _ => exact hdis

/-! ## 5. Parks that ended -/

structure Logged (v : View) : Prop where
  nodup : (v.log.map (·.1)).Nodup
  past : ∀ e ∈ v.log, ∀ x, v.tcb = some x → e.1 ≤ x.parks
  closed : ∀ e ∈ v.log, ∀ x, v.tcb = some x → e.1 = x.parks → x.wake_state = .IDLE ∧ v.hold = nowhere

theorem Logged.keep (h : Logged v) (hx : v.tcb = some x) {y : Tcb} (htcb : v'.tcb = some y)
    (hlog : v'.log = v.log) (hparks : y.parks = x.parks)
    (hidle : x.wake_state = .IDLE → v.hold = nowhere → y.wake_state = .IDLE ∧ v'.hold = nowhere) :
    Logged v' := by
  refine ⟨hlog ▸ h.nodup, fun e he z hz => ?_, fun e he z hz hez => ?_⟩
  · obtain rfl := Option.some_inj.mp (htcb.symm.trans hz)
    exact hparks ▸ h.past e (hlog ▸ he) x hx
  · obtain rfl := Option.some_inj.mp (htcb.symm.trans hz)
    obtain ⟨hs, hhold⟩ := h.closed e (hlog ▸ he) x hx (hez.trans hparks)
    exact hidle hs hhold

theorem Logged.nodup_append (h : Logged v) (hx : v.tcb = some x) {st : Stage}
    (hhold : v.hold = sole c st) (d : Disposition) :
    ((v.log ++ [(x.parks, d)]).map (·.1)).Nodup := by
  rw [List.map_append, List.nodup_append]
  refine ⟨h.nodup, List.nodup_singleton _, ?_⟩
  intro n hn m hm hnm
  obtain ⟨e, he, rfl⟩ := List.mem_map.mp hn
  obtain rfl := List.mem_singleton.mp hm
  exact sole_ne_nowhere (hhold.symm.trans (h.closed e he x hx hnm).2)

theorem Turn.logged (h : Shape hash t v) (hlog : Logged v) (hturn : Turn hash κ t v v') :
    Logged v' := by
  cases hturn with
  | stay => exact hlog
  | kill => exact ⟨hlog.nodup, hlog.past, hlog.closed⟩
  | spawn p c completion _ hblank => constructor <;> simp [hblank.log]
  | pop c x hx | reseat c x r r' hx | prevStatus c x hx | exited c x hx | rewatch c x w hx =>
    exact hlog.keep hx hx rfl rfl fun hs hh => ⟨hs, hh⟩
  | cull c x hx | install c x hx | rollback c x key hx | yield c x hx | exit c x hx
  | block c x hx | switched c x hx => exact hlog.keep hx rfl rfl rfl fun hs hh => ⟨hs, hh⟩
  | park c x y hx _ _ _ _ _ hparks =>
    -- a new park, above all that ended
    have hpast : ∀ e ∈ v.log, e.1 < y.parks := fun e he => by
      have := hlog.past e he x hx
      omega
    refine ⟨hlog.nodup, fun e he z hz => ?_, fun e he z hz hez => ?_⟩ <;>
      obtain rfl := Option.some_inj.mp hz
    · exact (hpast e he).le
    · exact absurd hez (hpast e he).ne
  | close c x hx => exact ⟨hlog.nodup, by simp, by simp⟩
  | pick c x key hx hs | move c x key hx hs | time c x key hx hs | claim c x hx hs =>
    exact hlog.keep hx rfl rfl rfl fun hs' => by simp [hs] at hs'
  | unhook c key hhold =>
    obtain ⟨x, _, _, _, _, h⟩ := h.of_hold hhold
    exact hlog.keep h.tcb h.tcb rfl rfl fun _ hh => by simp [hhold] at hh
  | relink c x key key' hx hhold | expire c x key hx hhold | cancel c x st st' hx hhold
  | reapable c x hx hhold | unblock c x hx hhold | release c x hx hhold =>
    exact hlog.keep hx rfl rfl rfl fun _ hh => by simp [hhold] at hh
  | removeNode c x st st' hx hhold | check c x hx hhold =>
    exact hlog.keep hx hx rfl rfl fun _ hh => by simp [hhold] at hh
  | enqueue c d x result hx hhold =>
    obtain ⟨phase, hooked, queued, seated, h⟩ := h.held hx hhold
    cases h.fits with
    | released _ hs hd =>
      refine ⟨hlog.nodup_append hx hhold _, fun e he z hz => ?_, fun e he z hz _ => ?_⟩ <;>
        obtain rfl := Option.some_inj.mp (hx.symm.trans hz)
      · rcases List.mem_append.mp he with he | he
        · exact hlog.past e he x hx
        · obtain rfl := List.mem_singleton.mp he
          exact le_rfl
      · exact ⟨hs, rfl⟩
  | doom c x hx hs => exact hlog.keep hx hx rfl rfl fun hs' => by simp [hs] at hs'
  | free c x hx hhold => exact ⟨hlog.nodup_append hx hhold _, by simp, by simp⟩

/-! ## 6. The invariant of a thread -/

structure Ok (hash : Nat → Nat) (t : Nat) (v : View) : Prop where
  shape : Shape hash t v
  disposed : Disposed v
  logged : Logged v
  fresh : ¬ v.made → Blank v

theorem Blank.ok (h : Blank v) : Ok hash t v where
  shape := .gone h.gone
  disposed := fun c hc => by simp [h.linger] at hc
  logged := by constructor <;> simp [h.log]
  fresh := fun _ => h

theorem Turn.fresh (h : ¬ v.made → Blank v) (hturn : Turn hash κ t v v') (hmade : ¬ v'.made) :
    Blank v' := by
  have hnone {x : Tcb} (hx : v.tcb = some x) (hm : ¬ v.made) : False := by
    simp [(h hm).gone.tcb] at hx
  cases hturn with
  | stay => exact h hmade
  | kill dead hdead =>
    have hb := h hmade
    exact ⟨⟨hb.gone.tcb, hb.gone.nodes, hb.gone.entries, hb.gone.hold, hb.gone.queue, hb.gone.seat⟩,
      hb.seat, hb.linger, hb.watch, hb.log⟩
  | spawn => exact (hmade trivial).elim
  | unhook c key hhold =>
    have hb := h hmade
    cases sole_ne_nowhere (hhold.symm.trans hb.gone.hold)
  | _ => exact (hnone ‹_› hmade).elim

theorem Turn.ok (h : Ok hash t v) (hturn : Turn hash κ t v v') : Ok hash t v' where
  shape := hturn.shape h.shape h.disposed
  disposed := hturn.disposed h.shape h.disposed
  logged := hturn.logged h.shape h.logged
  fresh := hturn.fresh h.fresh

end

end GovinDos.Thread
