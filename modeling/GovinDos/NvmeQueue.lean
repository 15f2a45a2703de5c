/-
  **One command in flight (`packages/nvmed/nvmed.c`, `nvme_submit`).**

  The driver knows a completion by its phase bit alone.  A step is the first half of
  `nvme_submit`, one turn of its loop, or the controller executing the next command.  The
  slots before the controller's position have its phase, the others the opposite one, and
  the driver is at the same place or one behind.
-/
import Mathlib
import GovinDos.Lib.Run

namespace GovinDos.Nvme

open Function

/-! ## 1. The model -/

def QUEUE_ENTRIES : Nat := 64
def SPIN_LIMIT : Nat := 10000000

structure Command where
  cdw0 : Nat
  nsid : Nat
  prp1 : Nat
  prp2 : Nat
  cdw10 : Nat
  cdw11 : Nat
  cdw12 : Nat
deriving DecidableEq, Repr

structure Completion where
  cid : Nat
  status : Nat
  /-- Not in the code: the number of the command it is for. -/
  nth : Nat
deriving DecidableEq, Repr

def Completion.phase (c : Completion) : Bool := c.status &&& 1 != 0

structure Queue where
  sq_tail : Nat
  cq_head : Nat
  next_cid : Nat
  phase : Bool
deriving DecidableEq, Repr

structure Controller where
  sq_head : Nat
  cq_tail : Nat
  phase : Bool
deriving DecidableEq, Repr

inductive Pc where
  | returned (rc : Bool)
  | polling (cid spin : Nat)
deriving DecidableEq, Repr

def Pc.turns : Pc → Nat
  | .returned _ => 0
  | .polling _ spin => spin + 1

structure State where
  sq : Nat → Command
  cq : Nat → Completion
  sq_doorbell : Nat
  cq_doorbell : Nat
  q : Queue
  ctl : Controller
  pc : Pc
  /-- Not in the code: the commands submitted, and those executed with their status
      codes. -/
  issued : List Command
  log : List (Command × Nat)

def advance (slot : Nat) (phase : Bool) : Nat × Bool :=
  if slot + 1 = QUEUE_ENTRIES then (0, !phase) else (slot + 1, phase)

def submit (s : State) (input : Command) : State :=
  let next := (s.q.next_cid + 1) % 2 ^ 16
  let cid := if next = 0 then (next + 1) % 2 ^ 16 else next
  let cmd := { input with cdw0 := (input.cdw0 &&& 0xffff) ||| (cid <<< 16) }
  let sq_tail := (s.q.sq_tail + 1) % QUEUE_ENTRIES
  { s with
    sq := update s.sq s.q.sq_tail cmd
    sq_doorbell := sq_tail
    q := { s.q with sq_tail := sq_tail, next_cid := cid }
    pc := .polling cid 0
    issued := s.issued ++ [cmd] }

def poll (s : State) (cid spin : Nat) : State :=
  let c := s.cq s.q.cq_head
  if c.phase ≠ s.q.phase then
    { s with pc := if spin + 1 < SPIN_LIMIT then .polling cid (spin + 1) else .returned false }
  else if c.cid ≠ cid then { s with pc := .returned false }
  else
    let (cq_head, phase) := advance s.q.cq_head s.q.phase
    { s with
      q := { s.q with cq_head := cq_head, phase := phase }
      cq_doorbell := cq_head
      pc := .returned (c.status &&& 0xfffe == 0) }

def execute (s : State) (sc : Nat) : State :=
  let cmd := s.sq s.ctl.sq_head
  let (cq_tail, phase) := advance s.ctl.cq_tail s.ctl.phase
  { s with
    cq := update s.cq s.ctl.cq_tail ⟨cmd.cdw0 >>> 16, 2 * sc + s.ctl.phase.toNat, s.log.length + 1⟩
    ctl := ⟨(s.ctl.sq_head + 1) % QUEUE_ENTRIES, cq_tail, phase⟩
    log := s.log ++ [(cmd, sc)] }

inductive Op where
  | submit (input : Command)
  | poll
  | execute (sc : Nat)

def step (s : State) : Op → Option State
  | .submit input => match s.pc with
    | .returned _ => some (submit s input)
    | .polling _ _ => none
  | .poll => match s.pc with
    | .returned _ => none
    | .polling cid spin => some (poll s cid spin)
  | .execute sc => if s.ctl.sq_head = s.sq_doorbell then none else some (execute s sc)

def boot : State where
  sq := fun _ => ⟨0, 0, 0, 0, 0, 0, 0⟩
  cq := fun _ => ⟨0, 0, 0⟩
  sq_doorbell := 0
  cq_doorbell := 0
  q := ⟨0, 0, 0, true⟩
  ctl := ⟨0, 0, true⟩
  pc := .returned true
  issued := []
  log := []

/-- Status codes have 15 bits, and the controller has answered before the last turn. -/
def Answers (s : State) : Op → Prop
  | .submit _ => True
  | .poll => s.pc.turns < SPIN_LIMIT ∨ s.ctl.sq_head = s.sq_doorbell
  | .execute sc => sc < 2 ^ 15

instance (s : State) (op : Op) : Decidable (Answers s op) := by
  cases op <;> unfold Answers <;> infer_instance

/-! ## 2. Bits -/

theorem cid_of_cdw0 (x cid : Nat) : ((x &&& 0xffff) ||| (cid <<< 16)) >>> 16 = cid := by
  rw [Nat.shiftRight_or_distrib, Nat.shiftLeft_shiftRight, Nat.shiftRight_and_distrib]
  simp

theorem phase_of_status (cid sc nth : Nat) (b : Bool) :
    Completion.phase ⟨cid, 2 * sc + b.toNat, nth⟩ = b := by
  rw [Completion.phase, Nat.and_one_is_mod]
  cases b <;> simp [Nat.add_mod]

theorem status_ok_iff {sc : Nat} (b : Bool) (h : sc < 2 ^ 15) :
    (2 * sc + b.toNat) &&& 0xfffe = 0 ↔ sc = 0 := by
  have hb : b.toNat < 2 := b.toNat_lt
  have hhigh : ((2 * sc + b.toNat) &&& 0xfffe) / 2 = sc := by
    rw [Nat.and_div_two, show 0xfffe / 2 = 2 ^ 15 - 1 from rfl, Nat.and_two_pow_sub_one_eq_mod]
    omega
  constructor
  · intro hzero
    rw [hzero] at hhigh
    exact hhigh.symm
  · rintro rfl
    cases b <;> rfl

theorem advance_lt {slot : Nat} (phase : Bool) (h : slot < QUEUE_ENTRIES) :
    (advance slot phase).1 < QUEUE_ENTRIES := by
  unfold advance
  split
  · exact Nat.zero_lt_succ _
  · simp only [QUEUE_ENTRIES] at *
    omega

/-! ## 3. The invariant -/

structure Level (s : State) : Prop where
  sq : s.ctl.sq_head = s.q.sq_tail
  cq : s.ctl.cq_tail = s.q.cq_head
  phase : s.ctl.phase = s.q.phase
  all : s.issued = s.log.map Prod.fst

inductive Stage (s : State) : Prop
  | idle (rc : Bool) (hpc : s.pc = .returned rc) (hlevel : Level s)
  | waiting (cid spin : Nat) (hpc : s.pc = .polling cid spin) (hspin : spin < SPIN_LIMIT)
      (hsq : (s.ctl.sq_head + 1) % QUEUE_ENTRIES = s.q.sq_tail)
      (hne : s.ctl.sq_head ≠ s.sq_doorbell)
      (hcid : (s.sq s.ctl.sq_head).cdw0 >>> 16 = cid) (hcq : s.ctl.cq_tail = s.q.cq_head)
      (hphase : s.ctl.phase = s.q.phase)
      (hlast : s.issued = s.log.map Prod.fst ++ [s.sq s.ctl.sq_head])
  | answered (cid spin sc : Nat) (cmd : Command) (hpc : s.pc = .polling cid spin)
      (hspin : spin < SPIN_LIMIT) (hsq : s.ctl.sq_head = s.q.sq_tail)
      (hcq : (s.ctl.cq_tail, s.ctl.phase) = advance s.q.cq_head s.q.phase)
      (hread : s.cq s.q.cq_head = ⟨cid, 2 * sc + s.q.phase.toNat, s.issued.length⟩)
      (hsc : sc < 2 ^ 15) (hall : s.issued = s.log.map Prod.fst)
      (hlast : s.log.getLast? = some (cmd, sc))

structure Inv (s : State) : Prop where
  sq_lt : s.q.sq_tail < QUEUE_ENTRIES
  cq_lt : s.ctl.cq_tail < QUEUE_ENTRIES
  doorbells : s.sq_doorbell = s.q.sq_tail ∧ s.cq_doorbell = s.q.cq_head
  slots : ∀ i < QUEUE_ENTRIES,
    (s.cq i).phase = if i < s.ctl.cq_tail then s.ctl.phase else !s.ctl.phase
  stage : Stage s

variable {s s' : State} {op : Op}

theorem boot_inv : Inv boot where
  sq_lt := by decide
  cq_lt := by decide
  doorbells := ⟨rfl, rfl⟩
  slots := by
    intro i _
    simp [boot, Completion.phase]
  stage := .idle true rfl ⟨rfl, rfl, rfl, rfl⟩

theorem Inv.submit (h : Inv s) (input : Command) (hlevel : Level s) : Inv (submit s input) where
  sq_lt := Nat.mod_lt _ (by decide)
  cq_lt := h.cq_lt
  doorbells := ⟨rfl, h.doorbells.2⟩
  slots := h.slots
  stage := by
    have hlt := h.sq_lt
    refine .waiting _ 0 rfl (by decide) ?_ ?_ ?_ hlevel.cq hlevel.phase ?_
    · simp only [Nvme.submit, hlevel.sq]
    · simp only [Nvme.submit, hlevel.sq, QUEUE_ENTRIES] at hlt ⊢
      omega
    · simp only [Nvme.submit, hlevel.sq, update_self]
      exact cid_of_cdw0 _ _
    · simp only [Nvme.submit, hlevel.sq, update_self, hlevel.all]

theorem Inv.execute (h : Inv s) {sc : Nat} (hsc : sc < 2 ^ 15)
    (hne : s.ctl.sq_head ≠ s.sq_doorbell) : Inv (execute s sc) where
  sq_lt := h.sq_lt
  cq_lt := advance_lt _ h.cq_lt
  doorbells := h.doorbells
  slots := by
    intro i hi
    have hold := h.slots i hi
    have hlt := h.cq_lt
    simp only [Nvme.execute, advance, QUEUE_ENTRIES] at hi hlt ⊢
    by_cases hslot : i = s.ctl.cq_tail
    · subst hslot
      rw [update_self, phase_of_status]
      by_cases hwrap : s.ctl.cq_tail + 1 = 64 <;> simp [hwrap]
    · rw [update_of_ne hslot, hold]
      by_cases hwrap : s.ctl.cq_tail + 1 = 64
      · simp [hwrap, show i < s.ctl.cq_tail by omega]
      · have hiff : i < s.ctl.cq_tail + 1 ↔ i < s.ctl.cq_tail := by omega
        simp [hwrap, hiff]
  stage := by
    cases h.stage with
    | idle rc hpc hlevel => exact absurd (hlevel.sq.trans h.doorbells.1.symm) hne
    | answered cid spin sc' cmd hpc hspin hsq => exact absurd (hsq.trans h.doorbells.1.symm) hne
    | waiting cid spin hpc hspin hsq _ hcid hcq hphase hlast =>
      refine .answered cid spin sc (s.sq s.ctl.sq_head) hpc hspin hsq ?_ ?_ hsc ?_ ?_
      · show _ = advance s.q.cq_head s.q.phase
        rw [← hcq, ← hphase]
        rfl
      · simp only [Nvme.execute, ← hcq, update_self, hcid, ← hphase, hlast, List.length_append,
          List.length_map, List.length_singleton]
      · simp only [Nvme.execute, List.map_append, hlast, List.map_cons, List.map_nil]
      · simp only [Nvme.execute, List.getLast?_concat]

inductive Polled (s s' : State) : Prop
  | again (cid spin : Nat) (hpc : s.pc = .polling cid spin) (hpc' : s'.pc = .polling cid (spin + 1))
  | done (rc : Bool) (cmd : Command) (sc : Nat) (hpc' : s'.pc = .returned rc)
      (hread : (s.cq s.q.cq_head).nth = s.issued.length) (hlast : s.issued.getLast? = some cmd)
      (hlog : s.log.getLast? = some (cmd, sc)) (hrc : rc = true ↔ sc = 0)

theorem Inv.poll (h : Inv s) {cid spin : Nat} (hpc : s.pc = .polling cid spin)
    (hok : Answers s .poll) :
    Inv (poll s cid spin) ∧ Polled s (poll s cid spin) := by
  unfold Nvme.poll
  cases h.stage with
  | idle rc hpc' => cases hpc'.symm.trans hpc
  | waiting cid' spin' hpc' hspin hsq hne hcid hcq hphase hlast =>
    cases hpc'.symm.trans hpc
    have hspin : spin + 1 < SPIN_LIMIT := by
      simpa only [hpc, Pc.turns] using hok.resolve_right hne
    -- the slot is from the pass before
    have hold := h.slots s.q.cq_head (hcq ▸ h.cq_lt)
    rw [hcq, if_neg (Nat.lt_irrefl _), hphase] at hold
    rw [if_pos (by simp [hold]), if_pos hspin]
    refine ⟨⟨h.sq_lt, h.cq_lt, h.doorbells, h.slots, ?_⟩, .again cid spin hpc rfl⟩
    exact .waiting cid (spin + 1) rfl hspin hsq hne hcid hcq hphase hlast
  | answered cid' spin' sc cmd hpc' hspin hsq hcq hread hsc hall hlast =>
    cases hpc'.symm.trans hpc
    simp only [hread]
    rw [if_neg (by simp [phase_of_status]), if_neg (by simp)]
    obtain ⟨htail, hphase⟩ := Prod.mk.inj hcq
    refine ⟨⟨h.sq_lt, h.cq_lt, ⟨h.doorbells.1, rfl⟩, h.slots, .idle _ rfl ⟨hsq, htail, hphase, hall⟩⟩,
      .done _ cmd sc rfl (by rw [hread]) ?_ hlast ?_⟩
    · rw [hall, List.getLast?_map, hlast]
      rfl
    · rw [beq_iff_eq]
      exact status_ok_iff _ hsc

theorem Inv.step (h : Inv s) (hok : Answers s op) (hstep : step s op = some s') : Inv s' := by
  cases op with
  | submit input =>
    simp only [Nvme.step] at hstep
    split at hstep
    · rename_i rc hpc
      cases hstep
      cases h.stage with
      | idle _ _ hlevel => exact h.submit input hlevel
      | waiting _ _ hpc' | answered _ _ _ _ hpc' => cases hpc.symm.trans hpc'
    · cases hstep
  | poll =>
    simp only [Nvme.step] at hstep
    split at hstep
    · cases hstep
    · rename_i cid spin hpc
      cases hstep
      exact (h.poll hpc hok).1
  | execute sc =>
    simp only [Nvme.step] at hstep
    split at hstep
    · cases hstep
    · rename_i hne
      cases hstep
      exact h.execute hok hne

/-- Each command gets its own completion: with a controller that answers in time, the loop
    of `nvme_submit` ends, the completion it read is the one of the command submitted last,
    it returns `true` if and only if that command was executed with status code 0, and out
    of `nvme_submit` the driver's places in the queues are those of the controller. -/
theorem submit_reads_own_completion {ops : List Op} (hrun : Run step Answers boot ops s) :
    s.pc.turns ≤ SPIN_LIMIT ∧
    (∀ s', Answers s .poll → step s .poll = some s' → Polled s s') ∧
    ∀ rc, s.pc = .returned rc → s.ctl.sq_head = s.q.sq_tail ∧ s.ctl.cq_tail = s.q.cq_head ∧
      s.ctl.phase = s.q.phase ∧ s.issued = s.log.map Prod.fst := by
  have h : Inv s := hrun.invariant boot_inv fun _ _ _ h hok hstep => h.step hok hstep
  refine ⟨?_, fun s' hok hstep => ?_, fun rc hpc => ?_⟩
  · cases h.stage with
    | idle _ hpc =>
      rw [hpc]
      exact Nat.zero_le _
    | waiting _ _ hpc hspin | answered _ _ _ _ hpc hspin =>
      rw [hpc]
      exact hspin
  · simp only [Nvme.step] at hstep
    split at hstep
    · cases hstep
    · rename_i cid spin hpc
      cases hstep
      exact (h.poll hpc hok).2
  · cases h.stage with
    | idle _ _ hlevel => exact ⟨hlevel.sq, hlevel.cq, hlevel.phase, hlevel.all⟩
    | waiting _ _ hpc' | answered _ _ _ _ hpc' => cases hpc.symm.trans hpc'

theorem submit_reads_own_completion_at_two : ∃ s,
    Run step Answers boot [.submit ⟨2, 1, 0x7000, 0, 5, 0, 0⟩, .execute 0, .poll,
      .submit ⟨1, 1, 0x7000, 0, 6, 0, 0⟩, .poll, .execute 3, .poll] s ∧
    s.pc = .returned false ∧ s.log.map Prod.snd = [0, 3] ∧ s.q = ⟨2, 2, 2, true⟩ ∧
    s.ctl = ⟨2, 2, true⟩ ∧ s.issued = s.log.map Prod.fst := by
  refine Run.exists_imp (P := fun s => s.pc = .returned false ∧ s.log.map Prod.snd = [0, 3] ∧
    s.q = ⟨2, 2, 2, true⟩) ?_ fun s hrun ⟨hpc, hlog, hq⟩ => ?_
  · exact Run.exists_of_checked (I := fun _ => True) (fun s o => decide (Answers s o)) trivial
      (fun _ _ _ hok => of_decide_eq_true hok) (fun _ _ _ _ _ _ => trivial) (by decide +kernel)
  obtain ⟨hsq, hcq, hphase, hall⟩ := (submit_reads_own_completion hrun).2.2 false hpc
  refine ⟨hpc, hlog, hq, ?_, hall⟩
  rw [hq] at hsq hcq hphase
  exact congr (congr (congrArg Controller.mk hsq) hcq) hphase

end GovinDos.Nvme
