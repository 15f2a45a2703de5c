/-
  **When a CPU sleeps on work.**

  A CPU publishes `idle` under its queue lock, so a later enqueuer sends an interrupt.  One
  that has enabled interrupts and not yet executed `hlt` takes it, returns, and halts with
  the work in its queue.  The invariant says that this is the only way.
-/
import GovinDos.Scheduler

namespace GovinDos.Scheduler

open Function

/-! ## 1. What the places of the loop imply -/

def Pc.idle : Pc → Bool
  | .marked => true
  | .unlocked => true
  | .enabled => true
  | .halted => true
  | .woken => true
  | _ => false

def Pc.holds : Pc → Bool
  | .locked => true
  | .popped _ _ => true
  | .empty => true
  | .marked => true
  | .parkLocked _ _ => true
  | .parked => true
  | _ => false

def Pc.depth : Pc → Nat
  | .top => 0
  | .locking => 1
  | .locked => 2
  | .popped _ _ => 2
  | .empty => 2
  | .marked => 2
  | .unlocked => 1
  | .enabled => 0
  | .halted => 0
  | .woken => 0
  | .installed _ => 1
  | .user _ => 0
  | .kernel _ => 1
  | .parking _ _ => 1
  | .parkLocked _ _ => 2
  | .parked => 2
  | .disposing => 1

def Enq.holds : Enq → Option Nat
  | .locked q _ => some q
  | .pushed q => some q
  | .read q _ => some q
  | _ => none

def Enq.owes : Enq → Option Nat
  | .pushed q => some q
  | .read q true => some q
  | .waking q => some q
  | _ => none

structure Cpu.Ok (k : Cpu) : Prop where
  depth : k.irq_depth = k.pc.depth + (if k.handler then 1 else 0) +
    (if (k.enq.bind Enq.holds).isSome then 1 else 0)
  ief : k.ief = true ↔ k.irq_depth = 0
  handler : k.handler = true → k.pc.depth = 0 ∧ k.pc ≠ .enabled
  enq : k.enq ≠ none → k.handler = true ∨ k.pc = .disposing ∨ ∃ t, k.pc = .kernel t

def Cpu.Holds (k : Cpu) (c q : Nat) : Prop :=
  (q = c ∧ k.pc.holds = true) ∨ k.enq.bind Enq.holds = some q

/-- Halted or on the way to it, with nothing on top that would bring it back. -/
def Cpu.Dozes (k : Cpu) : Prop := k.pc.idle = true ∧ k.pc ≠ .woken ∧ k.handler = false

def Owed (s : State) (c : Nat) : Prop :=
  ∃ e, e < s.g_cpu_state_table_len ∧ (s.cpu e).enq.bind Enq.owes = some c

/-- The lock is held by whoever is in a section, and a dozing CPU with work has an
    interrupt coming. -/
structure Inv (s : State) : Prop where
  ok : ∀ c, (s.cpu c).Ok
  lock : ∀ q h, (s.scheduler q).lock = some h ↔ (s.cpu h).Holds h q
  idle : ∀ c, (s.scheduler c).idle = (s.cpu c).pc.idle
  empty : ∀ c, (s.cpu c).pc = .empty → (s.scheduler c).queue = []
  read : ∀ e c b, (s.cpu e).enq = some (.read c b) → (s.cpu c).Dozes → b = true
  awake : ∀ c, (s.cpu c).Dozes → (s.scheduler c).queue ≠ [] → (s.cpu c).resched = true ∨ Owed s c

/-! ## 2. Updates -/

section updates

variable {s : State} {c q d : Nat} {k : Cpu} {r : Queue}

@[simp] theorem cpu_setCpu_self (s : State) (c : Nat) (k : Cpu) : (s.setCpu c k).cpu c = k :=
  update_self ..

theorem cpu_setCpu_of_ne (h : d ≠ c) : (s.setCpu c k).cpu d = s.cpu d := update_of_ne h ..

theorem setCpu_setCpu (s : State) (c : Nat) (k k' : Cpu) :
    (s.setCpu c k).setCpu c k' = s.setCpu c k' := by
  simp only [State.setCpu, update_idem]

@[simp] theorem scheduler_setCpu (s : State) (c : Nat) (k : Cpu) :
    (s.setCpu c k).scheduler = s.scheduler := rfl

@[simp] theorem scheduler_setQueue_self (s : State) (q : Nat) (r : Queue) :
    (s.setQueue q r).scheduler q = r := update_self ..

theorem scheduler_setQueue_of_ne (h : d ≠ q) : (s.setQueue q r).scheduler d = s.scheduler d :=
  update_of_ne h ..

theorem Cpu.holds_congr {k k' : Cpu} (hpc : k'.pc.holds = k.pc.holds)
    (henq : k'.enq.bind Enq.holds = k.enq.bind Enq.holds) : k'.Holds c q ↔ k.Holds c q := by
  rw [Cpu.Holds, Cpu.Holds, hpc, henq]

theorem Cpu.Ok.enq_of_dozes (h : k.Ok) (hd : k.Dozes) : k.enq = none := by
  by_contra henq
  rcases h.enq henq with hh | hh | ⟨t, hh⟩
  · rw [hd.2.2] at hh
    cases hh
  · have hidle := hd.1
    rw [hh] at hidle
    cases hidle
  · have hidle := hd.1
    rw [hh] at hidle
    cases hidle

section holders

variable {P : Prop}

theorem Inv.kept (h : Inv s) (hP : P ↔ (s.cpu c).Holds c q) (e : Nat) :
    (s.scheduler q).lock = some e ↔ if e = c then P else (s.cpu e).Holds e q := by
  rw [h.lock q e]
  split
  · rename_i he
    rw [he, hP]
  · rfl

theorem Inv.taken (h : Inv s) (hfree : (s.scheduler q).lock = none) (hP : P) (e : Nat) :
    some c = some e ↔ if e = c then P else (s.cpu e).Holds e q := by
  split
  · rename_i he
    exact iff_of_true (congrArg some he.symm) hP
  · rename_i he
    refine iff_of_false (fun hce => he (Option.some.inj hce).symm) fun hh => ?_
    rw [← h.lock q e, hfree] at hh
    cases hh

theorem Inv.released (h : Inv s) (hlock : (s.scheduler q).lock = some c) (hP : ¬ P) (e : Nat) :
    none = some e ↔ if e = c then P else (s.cpu e).Holds e q := by
  split
  · exact iff_of_false (by simp) hP
  · rename_i he
    refine iff_of_false (by simp) fun hh => ?_
    exact he (Option.some.inj (((h.lock q e).mpr hh).symm.trans hlock))

end holders

theorem Inv.change (h : Inv s) (hok : k.Ok) (hpc : c ≠ q → k.pc = (s.cpu c).pc)
    (hlock : ∀ e, r.lock = some e ↔ if e = c then k.Holds c q else (s.cpu e).Holds e q)
    (hother : ∀ d, d ≠ q → (k.Holds c d ↔ (s.cpu c).Holds c d))
    (hidle : r.idle = ((s.setCpu c k).cpu q).pc.idle)
    (hempty : ((s.setCpu c k).cpu q).pc = .empty → r.queue = [])
    (hread : ∀ d b, k.enq = some (.read d b) → (s.cpu d).Dozes → b = true)
    (howes : ∀ d, (s.cpu c).enq.bind Enq.owes = some d → (s.cpu d).Dozes →
      (s.cpu d).resched = true ∨ k.enq.bind Enq.owes = some d)
    (hqueue : ((s.setCpu c k).cpu q).Dozes → (s.scheduler q).queue = [] → r.queue ≠ [] →
      c < s.g_cpu_state_table_len ∧ k.enq.bind Enq.owes = some q)
    (hdoze : k.Dozes → ((s.cpu c).Dozes ∧ ((s.cpu c).resched = true → k.resched = true)) ∨
      (c = q ∧ (s.cpu c).pc.holds = true ∧ r.queue = [])) :
    Inv ((s.setQueue q r).setCpu c k) := by
  have hself : ((s.setQueue q r).setCpu c k).cpu c = k := cpu_setCpu_self ..
  have hcpu : ∀ e, e ≠ c → ((s.setQueue q r).setCpu c k).cpu e = s.cpu e :=
    fun e he => cpu_setCpu_of_ne he
  have hsched : ((s.setQueue q r).setCpu c k).scheduler q = r := scheduler_setQueue_self ..
  have hqueues : ∀ d, d ≠ q → ((s.setQueue q r).setCpu c k).scheduler d = s.scheduler d :=
    fun d hd => scheduler_setQueue_of_ne hd
  have hstay : ∀ d, d ≠ q → (((s.setQueue q r).setCpu c k).cpu d).pc = (s.cpu d).pc := by
    intro d hd
    by_cases hdc : d = c
    · subst hdc
      rw [hself, hpc hd]
    · rw [hcpu d hdc]
  constructor
  · intro d
    by_cases hd : d = c
    · rw [hd, hself]
      exact hok
    · rw [hcpu d hd]
      exact h.ok d
  · intro d e
    by_cases hd : d = q
    · subst hd
      rw [hsched, hlock e]
      split
      · rename_i he
        rw [he, hself]
      · rename_i he
        rw [hcpu e he]
    · rw [hqueues d hd, h.lock d e]
      by_cases he : e = c
      · rw [he, hself, hother d hd]
      · rw [hcpu e he]
  · intro d
    by_cases hd : d = q
    · subst hd
      rw [hsched]
      exact hidle
    · rw [hqueues d hd, hstay d hd]
      exact h.idle d
  · intro d hd
    by_cases hdq : d = q
    · subst hdq
      rw [hsched]
      exact hempty hd
    · rw [hstay d hdq] at hd
      rw [hqueues d hdq]
      exact h.empty d hd
  · intro e d b he hd
    have hold : (s.cpu d).Dozes → b = true := by
      intro hdz
      by_cases hec : e = c
      · rw [hec, hself] at he
        exact hread d b he hdz
      · rw [hcpu e hec] at he
        exact h.read e d b he hdz
    by_cases hdc : d = c
    · subst hdc
      rw [hself] at hd
      rcases hdoze hd with ⟨hdz, -⟩ | ⟨-, hholds, -⟩
      · exact hold hdz
      · -- nobody reads the flag of a queue whose lock its owner holds
        have hec : e ≠ d := by
          intro hec
          rw [hec, hself, hok.enq_of_dozes hd] at he
          cases he
        rw [hcpu e hec] at he
        have hown := (h.lock d d).mpr (Or.inl ⟨rfl, hholds⟩)
        have hother := (h.lock d e).mpr (Or.inr (by rw [he]; rfl))
        exact absurd (Option.some.inj (hother.symm.trans hown)) hec
    · rw [hcpu d hdc] at hd
      exact hold hd
  · intro d hd hne
    -- what was owed is owed still, and who adds to an empty queue owes
    have hold : (s.cpu d).Dozes →
        (s.cpu d).resched = true ∨ Owed ((s.setQueue q r).setCpu c k) d := by
      intro hdz
      by_cases hnil : (s.scheduler d).queue = []
      · by_cases hdq : d = q
        · subst hdq
          rw [hsched] at hne
          obtain ⟨hc, he⟩ := hqueue hd hnil hne
          exact Or.inr ⟨c, hc, by rw [hself]; exact he⟩
        · rw [hqueues d hdq] at hne
          exact absurd hnil hne
      · rcases h.awake d hdz hnil with hr | ⟨x, hlen, hx⟩
        · exact Or.inl hr
        · by_cases hxc : x = c
          · subst hxc
            exact (howes d hx hdz).imp_right fun he => ⟨x, hlen, by rw [hself]; exact he⟩
          · exact Or.inr ⟨x, hlen, by rw [hcpu x hxc]; exact hx⟩
    by_cases hdc : d = c
    · subst hdc
      rw [hself] at hd ⊢
      rcases hdoze hd with ⟨hdz, hresched⟩ | ⟨rfl, -, hnil⟩
      · exact (hold hdz).imp_left hresched
      · rw [hsched] at hne
        exact absurd hnil hne
    · rw [hcpu d hdc] at hd ⊢
      exact hold hd

theorem Inv.base (h : Inv s) (hok : k.Ok) (henq : k.enq = (s.cpu c).enq)
    (hlock : ∀ e, r.lock = some e ↔ if e = c then k.Holds c c else (s.cpu e).Holds e c)
    (hidle : r.idle = k.pc.idle) (hempty : k.pc = .empty → r.queue = [])
    (hdoze : k.Dozes → ((s.cpu c).pc.holds = true ∧ r.queue = []) ∨
      ((s.cpu c).Dozes ∧ r.queue = (s.scheduler c).queue ∧
        ((s.cpu c).resched = true → k.resched = true))) :
    Inv ((s.setQueue c r).setCpu c k) := by
  refine h.change hok (absurd rfl) hlock (fun d hd => ?_) (by rwa [cpu_setCpu_self])
    (by rwa [cpu_setCpu_self]) (fun d b he => h.read c d b (henq ▸ he))
    (fun d hd _ => Or.inr (henq ▸ hd)) (fun hk hnil hne => ?_) (fun hk => ?_)
  · rw [Cpu.Holds, Cpu.Holds, henq]
    simp only [hd, false_and, false_or]
  · rw [cpu_setCpu_self] at hk
    rcases hdoze hk with ⟨-, hr⟩ | ⟨-, hr, -⟩
    · exact absurd hr hne
    · exact absurd (hr.trans hnil) hne
  · rcases hdoze hk with ⟨hholds, hr⟩ | ⟨hdz, -, hresched⟩
    · exact Or.inr ⟨rfl, hholds, hr⟩
    · exact Or.inl ⟨hdz, hresched⟩

theorem setQueue_self (s : State) (c : Nat) : s.setQueue c (s.scheduler c) = s := by
  rw [State.setQueue, update_eq_self]

theorem Inv.local (h : Inv s) (hok : k.Ok) (henq : k.enq = (s.cpu c).enq)
    (hholds : k.pc.holds = (s.cpu c).pc.holds) (hidle : k.pc.idle = (s.cpu c).pc.idle)
    (hempty : k.pc = .empty → (s.scheduler c).queue = [])
    (hdoze : k.Dozes → (s.cpu c).Dozes ∧ ((s.cpu c).resched = true → k.resched = true)) :
    Inv (s.setCpu c k) := by
  rw [← setQueue_self s c]
  refine h.base hok henq (h.kept (Cpu.holds_congr hholds (by rw [henq]))) ?_ hempty
    fun hk => Or.inr ⟨(hdoze hk).1, rfl, (hdoze hk).2⟩
  rw [hidle]
  exact h.idle c

theorem Inv.enqueue {e : Option Enq} {n : Nat} {ief : Bool} (h : Inv s)
    (hc : c < s.g_cpu_state_table_len)
    (hk : k = { s.cpu c with enq := e, irq_depth := n, ief := ief }) (hok : k.Ok)
    (hno : (s.cpu c).pc.holds = false)
    (hlock : ∀ d, r.lock = some d ↔ if d = c then e.bind Enq.holds = some q else (s.cpu d).Holds d q)
    (hother : ∀ d, d ≠ q → (e.bind Enq.holds = some d ↔ (s.cpu c).enq.bind Enq.holds = some d))
    (hidle : r.idle = (s.scheduler q).idle)
    (hempty : (s.cpu q).pc = .empty → r.queue = [])
    (hread : ∀ d b, e = some (.read d b) → (s.cpu d).Dozes → b = true)
    (howes : ∀ d, (s.cpu c).enq.bind Enq.owes = some d → (s.cpu d).Dozes →
      (s.cpu d).resched = true ∨ e.bind Enq.owes = some d)
    (hqueue : (s.scheduler q).queue = [] → r.queue ≠ [] → e.bind Enq.owes = some q) :
    Inv ((s.setQueue q r).setCpu c k) := by
  -- the call changes neither where a CPU is nor what is pending on it
  have hpc : ((s.setCpu c k).cpu q).pc = (s.cpu q).pc := by
    by_cases hq : q = c
    · rw [hq, cpu_setCpu_self, hk]
    · rw [cpu_setCpu_of_ne hq]
  subst hk
  have hholds : ∀ d, Cpu.Holds { s.cpu c with enq := e, irq_depth := n, ief := ief } c d ↔
      e.bind Enq.holds = some d := by
    intro d
    rw [Cpu.Holds, hno]
    simp
  refine h.change hok (fun _ => rfl) ?_ (fun d hd => ?_) ?_ ?_ hread howes
    (fun _ hnil hne => ⟨hc, hqueue hnil hne⟩) fun hd => Or.inl ⟨hd, id⟩
  · simpa only [hholds] using hlock
  · rw [hholds, hother d hd, Cpu.Holds, hno]
    simp
  · rw [hpc, hidle]
    exact h.idle q
  · rwa [hpc]

theorem Inv.enqueueLocal {e : Option Enq} (h : Inv s) (hc : c < s.g_cpu_state_table_len)
    (hk : k = { s.cpu c with enq := e })
    (hok : k.Ok) (hno : (s.cpu c).pc.holds = false)
    (hholds : e.bind Enq.holds = (s.cpu c).enq.bind Enq.holds)
    (hread : ∀ d b, e = some (.read d b) → (s.cpu d).Dozes → b = true)
    (howes : ∀ d, (s.cpu c).enq.bind Enq.owes = some d → (s.cpu d).Dozes →
      (s.cpu d).resched = true ∨ e.bind Enq.owes = some d) : Inv (s.setCpu c k) := by
  have hlock := h.kept (c := c) (q := c) (P := e.bind Enq.holds = some c) (by
    rw [Cpu.Holds, hno, hholds]
    simp)
  rw [← setQueue_self s c]
  exact h.enqueue hc hk hok hno hlock (fun d _ => by rw [hholds]) rfl (h.empty c) hread howes
    fun hnil hne => absurd hnil hne

end updates

/-! ## 3. The steps -/

section steps

variable {s s' : State} {c q : Nat} {dead : Bool} {k k' : Cpu}

theorem Cpu.plain_iff : k.plain = true ↔ k.handler = false ∧ k.enq = none := by
  simp [Cpu.plain]

theorem Cpu.ok_of_plain (hhandler : k.handler = false) (henq : k.enq = none)
    (hdepth : k.irq_depth = k.pc.depth) (hief : k.ief = true ↔ k.pc.depth = 0) : k.Ok where
  depth := by simp [hdepth, hhandler, henq]
  ief := by rw [hief, hdepth]
  handler := fun h => by rw [hhandler] at h; cases h
  enq := fun h => absurd henq h

theorem Cpu.Ok.plain_depth (h : k.Ok) (hplain : k.plain = true) :
    k.irq_depth = k.pc.depth := by
  obtain ⟨hhandler, henq⟩ := Cpu.plain_iff.mp hplain
  simpa [hhandler, henq] using h.depth

theorem Cpu.not_dozes (h : k.pc.idle = false) : ¬ k.Dozes := by
  intro hd
  rw [hd.1] at h
  cases h

theorem irqEnable_deep (h : 2 ≤ k.irq_depth) :
    irqEnable k = some { k with irq_depth := k.irq_depth - 1 } := by
  rw [irqEnable, if_neg (by omega), if_neg (by omega)]

theorem lock_inv {pc : Pc} (h : Inv s) (hplain : (s.cpu c).plain = true)
    (hstep : (spinlockLock s c c).map (·.goto c pc) = some s')
    (hholds : pc.holds = true) (hdepth : pc.depth = (s.cpu c).pc.depth + 1)
    (hidle : pc.idle = false ∧ (s.cpu c).pc.idle = false) (hempty : pc ≠ .empty) : Inv s' := by
  obtain ⟨hhandler, henq⟩ := Cpu.plain_iff.mp hplain
  rw [spinlockLock] at hstep
  split at hstep
  · rename_i hfree
    cases hstep
    change Inv (State.goto _ c pc)
    rw [State.goto, setCpu_setCpu, cpu_setCpu_self]
    refine h.base (Cpu.ok_of_plain hhandler henq ?_ ?_) rfl (h.taken hfree (Or.inl ⟨rfl, hholds⟩)) ?_
      (absurd · hempty) fun hd => absurd hd (Cpu.not_dozes hidle.1)
    · change (s.cpu c).irq_depth + 1 = pc.depth
      rw [(h.ok c).plain_depth hplain, hdepth]
    · change false = true ↔ pc.depth = 0
      rw [hdepth]
      simp
    · change (s.scheduler c).idle = pc.idle
      rw [hidle.1, h.idle c]
      exact hidle.2
  · cases hstep

theorem unlock_inv {pc : Pc} (h : Inv s) (hplain : (s.cpu c).plain = true)
    (hstep : (spinlockUnlock s c c).map (·.goto c pc) = some s')
    (hold : (s.cpu c).pc.holds = true) (hholds : pc.holds = false)
    (hdepth : (s.cpu c).pc.depth = 2 ∧ pc.depth = 1) (hidle : pc.idle = (s.cpu c).pc.idle)
    (hempty : pc ≠ .empty) (hwoken : (s.cpu c).pc ≠ .woken) : Inv s' := by
  obtain ⟨hhandler, henq⟩ := Cpu.plain_iff.mp hplain
  have hd2 : (s.cpu c).irq_depth = 2 := by rw [(h.ok c).plain_depth hplain, hdepth.1]
  rw [spinlockUnlock, irqEnable_deep (Nat.le_of_eq hd2.symm), Option.map_some, Option.map_some]
    at hstep
  cases hstep
  have hief : (s.cpu c).ief = false := by
    have := (h.ok c).ief
    rw [hd2] at this
    simpa using this
  change Inv (State.goto _ c pc)
  rw [State.goto, setCpu_setCpu, cpu_setCpu_self, hd2]
  have hlock := (h.lock c c).mpr (Or.inl ⟨rfl, hold⟩)
  refine h.base (Cpu.ok_of_plain hhandler henq ?_ ?_) rfl (h.released hlock ?_) ?_ (absurd · hempty)
    fun hd => Or.inr ⟨⟨?_, hwoken, hhandler⟩, rfl, id⟩
  · change 2 - 1 = pc.depth
    rw [hdepth.2]
  · change (s.cpu c).ief = true ↔ pc.depth = 0
    rw [hief, hdepth.2]
    decide
  · simp [Cpu.Holds, henq, hholds]
  · change (s.scheduler c).idle = pc.idle
    rw [hidle]
    exact h.idle c
  · rw [← hidle]
    exact hd.1

theorem goto_inv {pc : Pc} {n : Nat} {ief : Bool} (h : Inv s) (hplain : (s.cpu c).plain = true)
    (hdepth : n = pc.depth) (hief : ief = true ↔ pc.depth = 0)
    (hholds : pc.holds = (s.cpu c).pc.holds) (hidle : pc.idle = (s.cpu c).pc.idle)
    (hempty : pc = .empty → (s.scheduler c).queue = []) (hwoken : (s.cpu c).pc ≠ .woken) :
    Inv (s.setCpu c { s.cpu c with pc := pc, irq_depth := n, ief := ief }) := by
  obtain ⟨hhandler, henq⟩ := Cpu.plain_iff.mp hplain
  exact h.local (Cpu.ok_of_plain hhandler henq hdepth hief) rfl hholds hidle hempty
    fun hd => ⟨⟨hidle ▸ hd.1, hwoken, hhandler⟩, id⟩

theorem irqEnable_eq (hdepth : k.irq_depth = 1) (h : irqEnable k = some k') :
    k' = { k with irq_depth := 0, ief := true } := by
  rw [irqEnable, if_neg (by rw [hdepth]; decide)] at h
  cases h
  simp [hdepth]

theorem irqExit_eq (hdepth : k.irq_depth = 1) (h : irqExit k = some k') :
    k' = { k with irq_depth := 0, ief := true } := by
  rw [irqExit, if_neg (by rw [hdepth]; decide)] at h
  cases h
  simp [hdepth]

theorem queue_inv {pc : Pc} {queue : List Nat} {idle : Bool} (h : Inv s)
    (hplain : (s.cpu c).plain = true)
    (hdepth : (s.cpu c).irq_depth = pc.depth) (hief : (s.cpu c).ief = true ↔ pc.depth = 0)
    (hholds : pc.holds = (s.cpu c).pc.holds) (hidle : idle = pc.idle)
    (hempty : pc = .empty → queue = [])
    (hdoze : pc.idle = true → pc ≠ .woken → (s.cpu c).pc.holds = true ∧ queue = []) :
    Inv ((s.setQueue c { s.scheduler c with queue := queue, idle := idle }).goto c pc) := by
  obtain ⟨hhandler, henq⟩ := Cpu.plain_iff.mp hplain
  exact h.base (Cpu.ok_of_plain hhandler henq hdepth hief) rfl
    (h.kept (Cpu.holds_congr hholds rfl)) hidle hempty fun hd => Or.inl (hdoze hd.1 hd.2.1)

theorem loopStep_inv (h : Inv s) (hplain : (s.cpu c).plain = true)
    (hstep : loopStep s c dead = some s') : Inv s' := by
  obtain ⟨hhandler, henq⟩ := Cpu.plain_iff.mp hplain
  have hdepth := (h.ok c).plain_depth hplain
  have hief := (h.ok c).ief
  dsimp only [loopStep] at hstep
  cases hpc : (s.cpu c).pc with
  | top =>
    simp only [hpc] at hstep
    cases hstep
    rw [hpc] at hdepth
    apply goto_inv (n := (s.cpu c).irq_depth + 1) h hplain
    all_goals simp [hpc, hdepth, irqDisable, Pc.depth, Pc.holds, Pc.idle]
  | locking | parking t requeue =>
    simp only [hpc] at hstep
    apply lock_inv h hplain hstep
    all_goals simp [hpc, Pc.holds, Pc.depth, Pc.idle]
  | locked =>
    simp only [hpc] at hstep
    rw [hpc] at hdepth
    split at hstep
    · rename_i hnil
      cases hstep
      apply goto_inv h hplain
      all_goals simp [hpc, hnil, hief, hdepth, Pc.depth, Pc.holds, Pc.idle]
    · rename_i t rest hcons
      cases hstep
      apply queue_inv h hplain
      all_goals simp [hpc, h.idle c, hief, hdepth, Pc.depth, Pc.holds, Pc.idle]
  | popped t d =>
    cases d with
    | true | false =>
      simp only [hpc] at hstep
      apply unlock_inv h hplain hstep
      all_goals simp [hpc, Pc.holds, Pc.depth, Pc.idle]
  | empty =>
    -- the flag is published over an empty queue, under the lock
    simp only [hpc] at hstep
    cases hstep
    rw [hpc] at hdepth
    apply queue_inv h hplain
    all_goals simp [hpc, h.empty c hpc, hief, hdepth, Pc.depth, Pc.holds, Pc.idle]
  | marked | parked =>
    simp only [hpc] at hstep
    apply unlock_inv h hplain hstep
    all_goals simp [hpc, Pc.holds, Pc.depth, Pc.idle]
  | unlocked | disposing =>
    simp only [hpc] at hstep
    rw [hpc] at hdepth
    obtain ⟨k, hk, rfl⟩ := Option.map_eq_some_iff.mp hstep
    rw [irqEnable_eq hdepth hk]
    apply goto_inv h hplain
    all_goals simp [hpc, Pc.depth, Pc.holds, Pc.idle]
  | enabled =>
    simp only [hpc] at hstep
    cases hstep
    rw [hpc] at hdepth
    apply goto_inv h hplain
    all_goals simp [hpc, hief, hdepth, Pc.depth, Pc.holds, Pc.idle]
  | woken =>
    simp only [hpc] at hstep
    cases hstep
    rw [hpc] at hdepth
    apply queue_inv h hplain
    all_goals simp [hpc, hief, hdepth, Pc.depth, Pc.holds, Pc.idle]
  | installed t =>
    simp only [hpc] at hstep
    rw [hpc] at hdepth
    obtain ⟨k, hk, rfl⟩ := Option.map_eq_some_iff.mp hstep
    rw [irqExit_eq hdepth hk]
    apply goto_inv h hplain
    all_goals simp [hpc, Pc.depth, Pc.holds, Pc.idle]
  | parkLocked t requeue =>
    simp only [hpc] at hstep
    rw [hpc] at hdepth
    cases hstep
    split
    · apply queue_inv h hplain
      all_goals simp [hpc, h.idle c, hief, hdepth, Pc.depth, Pc.holds, Pc.idle]
    · apply goto_inv h hplain
      all_goals simp [hpc, hief, hdepth, Pc.depth, Pc.holds, Pc.idle]
  | _ =>
    simp only [hpc] at hstep
    cases hstep

theorem Inv.raise (h : Inv s) (resched other : Bool)
    (hresched : (s.cpu c).resched = true → resched = true) :
    Inv (s.setCpu c { s.cpu c with resched := resched, other := other }) := by
  have hok := h.ok c
  exact h.local ⟨hok.depth, hok.ief, hok.handler, hok.enq⟩ rfl rfl rfl (h.empty c)
    fun hd => ⟨hd, hresched⟩

theorem Cpu.Ok.not_holds (h : k.Ok) (henq : k.enq ≠ none) : k.pc.holds = false := by
  rcases h.enq henq with hh | hh | ⟨t, hh⟩
  · have hdepth := (h.handler hh).1
    cases hp : k.pc <;> simp [hp, Pc.holds, Pc.depth] at hdepth ⊢
  · rw [hh]
    rfl
  · rw [hh]
    rfl

theorem Cpu.Ok.depth_pos (h : k.Ok) (henq : k.enq ≠ none) :
    0 < k.pc.depth + (if k.handler then 1 else 0) := by
  rcases h.enq henq with hh | hh | ⟨t, hh⟩
  · simp [hh]
  · rw [hh]
    exact Nat.add_pos_left Nat.one_pos _
  · rw [hh]
    exact Nat.add_pos_left Nat.one_pos _

theorem Cpu.Ok.setEnq {e : Enq} {e' : Option Enq} {n : Nat} {ief : Bool} (h : k.Ok)
    (henq : k.enq = some e) (hief : ief = k.ief)
    (hn : n + (if e.holds.isSome then 1 else 0) =
      k.irq_depth + (if (e'.bind Enq.holds).isSome then 1 else 0)) :
    Cpu.Ok { k with enq := e', irq_depth := n, ief := ief } := by
  have hpos := h.depth_pos (by rw [henq]; simp)
  have hdepth := h.depth
  have hk := h.ief
  simp only [henq, Option.bind_some] at hdepth
  constructor
  · change n = k.pc.depth + (if k.handler then 1 else 0) +
      (if (e'.bind Enq.holds).isSome then 1 else 0)
    omega
  · change ief = true ↔ n = 0
    rw [hief, hk]
    omega
  · exact h.handler
  · exact fun _ => h.enq (by rw [henq]; simp)

theorem Inv.lock_of_enq {e : Enq} (h : Inv s) (henq : (s.cpu c).enq = some e)
    (hq : e.holds = some q) : (s.scheduler q).lock = some c :=
  (h.lock q c).mpr (Or.inr (by rw [henq]; exact hq))

theorem Cpu.Ok.masked (h : k.Ok) (henq : k.enq ≠ none) : k.ief = false := by
  have hpos := h.depth_pos henq
  have hdepth := h.depth
  rw [Bool.eq_false_iff, ne_eq, h.ief]
  omega

theorem enqueueStep_inv {e : Enq} (h : Inv s) (hc : c < s.g_cpu_state_table_len)
    (henq : (s.cpu c).enq = some e)
    (hstep : enqueueStep s c e = some s') : Inv s' := by
  have hok := h.ok c
  have hmasked := hok.masked (by rw [henq]; simp)
  have hno := hok.not_holds (by rw [henq]; simp)
  cases e with
  | locking target t =>
    rw [enqueueStep, spinlockLock] at hstep
    split at hstep
    · rename_i hfree
      cases hstep
      change Inv (State.setEnq _ c _)
      rw [State.setEnq, setCpu_setCpu, cpu_setCpu_self]
      refine h.enqueue (n := (s.cpu c).irq_depth + 1) hc rfl (hok.setEnq henq hmasked.symm rfl) hno
        (h.taken hfree rfl) (fun d hd => ?_) rfl (h.empty target) (fun d b he => (by cases he))
        (fun d hd => ?_) (fun hnil hne => absurd hnil hne)
      · rw [henq]
        exact iff_of_false (fun heq => hd (Option.some.inj heq).symm) (by simp [Enq.holds])
      · rw [henq] at hd
        cases hd
    · cases hstep
  | locked target t =>
    rw [enqueueStep] at hstep
    cases hstep
    have hlock := h.lock_of_enq henq (q := target) rfl
    have hkeep := h.kept (iff_of_true (rfl : (some (Enq.pushed target)).bind Enq.holds = some target)
      ((h.lock target c).mp hlock))
    refine h.enqueue hc rfl (hok.setEnq henq rfl rfl) hno hkeep (fun d hd => ?_) rfl
      (fun hpc => ?_) (fun d b he => (by cases he)) (fun d hd => ?_) fun _ _ => rfl
    · rw [henq]
      rfl
    · -- the owner of the queue is not in its own section
      have hself := (h.lock target target).mpr (Or.inl ⟨rfl, by rw [hpc]; rfl⟩)
      obtain rfl : target = c := Option.some.inj (hself.symm.trans hlock)
      rw [hpc] at hno
      cases hno
    · rw [henq] at hd
      cases hd
  | pushed target =>
    rw [enqueueStep] at hstep
    cases hstep
    have hdoze : (s.cpu target).Dozes → (s.scheduler target).idle = true := by
      intro hd
      rw [h.idle target]
      exact hd.1
    refine h.enqueueLocal hc rfl (hok.setEnq henq rfl rfl) hno (by rw [henq]; rfl)
      (fun d b he hd => ?_) (fun d hd hdz => ?_)
    · cases he
      exact hdoze hd
    · rw [henq] at hd
      cases hd
      rw [hdoze hdz]
      exact Or.inr rfl
  | read target was_idle =>
    have hpos := hok.depth_pos (by rw [henq]; simp)
    have hdepth := hok.depth
    simp only [henq, Option.bind_some, Enq.holds, Option.isSome_some, if_true] at hdepth
    rw [enqueueStep, spinlockUnlock, irqEnable_deep (by omega)] at hstep
    cases hstep
    change Inv (State.setEnq _ c _)
    rw [State.setEnq, setCpu_setCpu, cpu_setCpu_self]
    have hnone : (if was_idle then some (Enq.waking target) else none).bind Enq.holds = none := by
      cases was_idle <;> rfl
    have hlock := h.lock_of_enq henq (q := target) rfl
    refine h.enqueue hc rfl (hok.setEnq henq rfl ?_) hno (h.released hlock ?_) (fun d hd => ?_) rfl
      (h.empty target) (fun d b he => ?_) (fun d hd hdz => ?_) (fun hnil hne => absurd hnil hne)
    · rw [hnone]
      change (s.cpu c).irq_depth - 1 + 1 = (s.cpu c).irq_depth + 0
      omega
    · rw [hnone]
      simp
    · rw [hnone, henq]
      exact iff_of_false (by simp) fun heq => hd (Option.some.inj heq).symm
    · cases was_idle <;> cases he
    · rw [henq] at hd
      cases was_idle with
      | false => cases hd
      | true => exact Or.inr hd
  | waking target =>
    rw [enqueueStep] at hstep
    cases hstep
    -- the interrupt is pending before the call is over
    have hraise := h.raise (c := target) true (s.cpu target).other fun _ => rfl
    have hcomm : (s.setCpu c { s.cpu c with enq := none }).setCpu target
        { (s.setCpu c { s.cpu c with enq := none }).cpu target with resched := true } =
        (s.setCpu target { s.cpu target with resched := true }).setCpu c
          { (s.setCpu target { s.cpu target with resched := true }).cpu c with enq := none } := by
      by_cases htc : target = c
      · subst htc
        simp only [cpu_setCpu_self, setCpu_setCpu]
      · rw [cpu_setCpu_of_ne htc, cpu_setCpu_of_ne (Ne.symm htc)]
        simp only [State.setCpu, update_comm htc]
    change Inv ((s.setCpu c { s.cpu c with enq := none }).setCpu target
      { (s.setCpu c { s.cpu c with enq := none }).cpu target with resched := true })
    rw [hcomm]
    have hcall : ((s.setCpu target { s.cpu target with resched := true }).cpu c).enq =
        some (.waking target) := by
      by_cases htc : c = target
      · subst htc
        rw [cpu_setCpu_self]
        exact henq
      · rw [cpu_setCpu_of_ne htc]
        exact henq
    have hok' := hraise.ok c
    refine hraise.enqueueLocal hc rfl (hok'.setEnq hcall rfl rfl)
      (hok'.not_holds (by rw [hcall]; simp)) (by rw [hcall]; rfl) (fun d b he => (by cases he))
      fun d hd _ => ?_
    rw [hcall] at hd
    cases hd
    rw [cpu_setCpu_self]
    exact Or.inl rfl

/-- No interrupt is taken between `irq_enable` and `hlt`. -/
def NotBeforeHalt (s : State) : Op → Prop
  | .take c _ => (s.cpu c).pc ≠ .enabled
  | _ => True

theorem take_inv {resched other : Bool} (h : Inv s) (hk : k = s.cpu c)
    (hief : k.ief = true) (hpc : k.pc ≠ .enabled) :
    Inv (s.setCpu c { irqEnter k with resched := resched, other := other, handler := true }) := by
  subst hk
  have hok := h.ok c
  have hdepth := hok.depth
  have hzero := hok.ief.mp hief
  have henq : (s.cpu c).enq = none := by
    by_contra hne
    rw [hok.masked hne] at hief
    cases hief
  have hpc0 : (s.cpu c).pc.depth = 0 := by omega
  have hhandler : (s.cpu c).handler = false := by
    cases hh : (s.cpu c).handler with
    | false => rfl
    | true =>
      rw [hh, if_pos rfl] at hdepth
      omega
  refine h.local ⟨?_, ?_, fun _ => ⟨hpc0, hpc⟩, fun hne => absurd henq hne⟩ rfl rfl rfl
    (h.empty c) fun hd => (by cases hd.2.2)
  · simp [irqEnter, hzero, hpc0, henq]
  · simp [irqEnter]

theorem Inv.setTarget (h : Inv s) (n : Nat) : Inv { s with g_next_target := n } :=
  ⟨h.ok, h.lock, h.idle, h.empty, h.read, h.awake⟩

theorem mayEnqueue_iff : mayEnqueue k = true ↔
    k.enq = none ∧ (k.handler = true ∨ k.pc = .disposing ∨ ∃ t, k.pc = .kernel t) := by
  rw [mayEnqueue]
  cases k.enq <;> cases k.handler <;> cases k.pc <;> simp

theorem enqueueStart_inv {t : Nat} (h : Inv s) (hc : c < s.g_cpu_state_table_len) (hmay : mayEnqueue (s.cpu c) = true)
    (hstep : enqueueStart s c t = some s') : Inv s' := by
  obtain ⟨henq, hctx⟩ := mayEnqueue_iff.mp hmay
  have hok := h.ok c
  rw [enqueueStart] at hstep
  split at hstep
  · cases hstep
  · cases hstep
    have hnew : ∀ target, Cpu.Ok { s.cpu c with enq := some (.locking target t) } := by
      intro target
      refine ⟨?_, hok.ief, hok.handler, fun _ => hctx⟩
      have hdepth := hok.depth
      rw [henq] at hdepth
      exact hdepth
    refine Inv.setTarget (h.enqueueLocal hc rfl (hnew _) ((hnew 0).not_holds (by simp))
      (by rw [henq]; rfl) (fun d b he => (by cases he)) fun d hd => ?_) _
    rw [henq] at hd
    cases hd

theorem iret_inv (h : Inv s) (hhandler : (s.cpu c).handler = true) (henq : (s.cpu c).enq = none)
    (hk : irqExit (s.cpu c) = some k) :
    Inv (s.setCpu c { k with handler := false, pc := if k.pc = .halted then .woken else k.pc }) := by
  have hok := h.ok c
  obtain ⟨hpc, henabled⟩ := hok.handler hhandler
  have hdepth : (s.cpu c).irq_depth = 1 := by
    have := hok.depth
    simpa [hhandler, henq, hpc] using this
  rw [irqExit_eq hdepth hk]
  -- below a handler the CPU was halted, or it does not doze
  cases hp : (s.cpu c).pc with
  | halted | woken =>
    refine h.local (Cpu.ok_of_plain rfl henq ?_ ?_) rfl ?_ ?_ ?_ fun hd => absurd ?_ hd.2.1
    all_goals simp [hp, Pc.depth, Pc.holds, Pc.idle]
  | enabled => exact absurd hp henabled
  | top | user t =>
    refine h.local (Cpu.ok_of_plain rfl henq ?_ ?_) rfl ?_ ?_ ?_ fun hd => absurd hd (Cpu.not_dozes ?_)
    all_goals simp [hp, Pc.depth, Pc.holds, Pc.idle]
  | _ => simp [hp, Pc.depth] at hpc

theorem preempt_inv {t : Nat} {requeue : Bool} (h : Inv s) (hhandler : (s.cpu c).handler = true)
    (henq : (s.cpu c).enq = none) (hpc : (s.cpu c).pc = .user t) :
    Inv (s.setCpu c { s.cpu c with handler := false, pc := .parking t requeue }) := by
  have hok := h.ok c
  have hdepth : (s.cpu c).irq_depth = 1 := by
    have := hok.depth
    simpa [hhandler, henq, hpc, Pc.depth] using this
  have hief := hok.ief
  refine h.local (Cpu.ok_of_plain rfl henq ?_ ?_) rfl ?_ ?_ ?_ fun hd => absurd hd (Cpu.not_dozes ?_)
  all_goals simp [hpc, hdepth, hief, Pc.depth, Pc.holds, Pc.idle]

theorem act_inv {op : Op} (h : Inv s) (hcpu : op.cpu < s.g_cpu_state_table_len)
    (hop : NotBeforeHalt s op) (hstep : act s op = some s') : Inv s' := by
  cases op with
  | loop c dead =>
    rw [act] at hstep
    split at hstep
    · exact loopStep_inv h ‹_› hstep
    · cases hstep
  | syscall c =>
    rw [act] at hstep
    split at hstep
    · rename_i t hpc
      split at hstep
      · rename_i hplain
        have hdepth := (h.ok c).plain_depth hplain
        rw [hpc] at hdepth
        cases hstep
        apply goto_inv (n := (s.cpu c).irq_depth + 1) h hplain
        all_goals simp [hpc, hdepth, irqEnter, Pc.depth, Pc.holds, Pc.idle]
      · cases hstep
    · cases hstep
  | sysret c =>
    rw [act] at hstep
    split at hstep
    · rename_i t hpc
      split at hstep
      · rename_i hplain
        have hdepth := (h.ok c).plain_depth hplain
        rw [hpc] at hdepth
        obtain ⟨k, hk, rfl⟩ := Option.map_eq_some_iff.mp hstep
        rw [irqExit_eq hdepth hk]
        apply goto_inv h hplain
        all_goals simp [hpc, Pc.depth, Pc.holds, Pc.idle]
      · cases hstep
    · cases hstep
  | park c requeue =>
    rw [act] at hstep
    split at hstep
    · rename_i t hpc
      split at hstep
      · rename_i hplain
        have hdepth := (h.ok c).plain_depth hplain
        have hief := (h.ok c).ief
        rw [hpc] at hdepth
        cases hstep
        apply goto_inv h hplain
        all_goals simp [hpc, hief, hdepth, Pc.depth, Pc.holds, Pc.idle]
      · cases hstep
    · cases hstep
  | enqueue c t =>
    rw [act] at hstep
    split at hstep
    · exact enqueueStart_inv h hcpu ‹_› hstep
    · cases hstep
  | advance c =>
    rw [act] at hstep
    split at hstep
    · cases hstep
    · exact enqueueStep_inv h hcpu ‹_› hstep
  | raise c =>
    rw [act] at hstep
    cases hstep
    exact h.raise (s.cpu c).resched true id
  | take c resched =>
    dsimp only [act] at hstep
    split at hstep
    · rename_i hief
      split at hstep
      · split at hstep
        · cases hstep
          exact take_inv h rfl hief hop
        · cases hstep
      · split at hstep
        · cases hstep
          exact take_inv h rfl hief hop
        · cases hstep
    · cases hstep
  | iret c =>
    dsimp only [act] at hstep
    split at hstep
    · rename_i hctx
      simp only [Bool.and_eq_true, Option.isNone_iff_eq_none] at hctx
      obtain ⟨k, hk, rfl⟩ := Option.map_eq_some_iff.mp hstep
      exact iret_inv h hctx.1 hctx.2 hk
    · cases hstep
  | preempt c requeue =>
    rw [act] at hstep
    split at hstep
    · rename_i t hpc
      split at hstep
      · rename_i hctx
        simp only [Bool.and_eq_true, Option.isNone_iff_eq_none] at hctx
        cases hstep
        exact preempt_inv h hctx.1 hctx.2 hpc
      · cases hstep
    · cases hstep

theorem step_inv {op : Op} (h : Inv s) (hop : NotBeforeHalt s op) (hstep : step s op = some s') :
    Inv s' := by
  rw [step] at hstep
  split at hstep
  · exact act_inv h ‹_› hop hstep
  · cases hstep

end steps

/-! ## 4. Sleeping on work -/

/-- CPU `c` is halted with work in its queue, and nothing is on its way to it. -/
def SleepsOnWork (s : State) (c : Nat) : Prop :=
  (s.cpu c).pc = .halted ∧ (s.cpu c).handler = false ∧ (s.scheduler c).queue ≠ [] ∧
    (s.cpu c).resched = false ∧ (s.cpu c).other = false ∧ ¬ Owed s c

instance (s : State) (c : Nat) : Decidable (Owed s c) :=
  inferInstanceAs (Decidable (∃ e, e < s.g_cpu_state_table_len ∧
    (s.cpu e).enq.bind Enq.owes = some c))

instance (s : State) (c : Nat) : Decidable (SleepsOnWork s c) :=
  inferInstanceAs (Decidable (_ ∧ _ ∧ _ ∧ _ ∧ _ ∧ ¬ Owed s c))

theorem boot_inv (ncpus : Nat) (queue : Nat → List Nat) : Inv (boot ncpus queue) where
  ok := fun _ => Cpu.ok_of_plain rfl rfl rfl (by simp [boot, Pc.depth])
  lock := fun q h => by simp [boot, Cpu.Holds, Pc.holds]
  idle := fun _ => rfl
  empty := fun _ h => by cases h
  read := fun _ _ _ h => by cases h
  awake := fun _ h => absurd h (Cpu.not_dozes rfl)

/-- In a run that takes no interrupt between `irq_enable` and `hlt`, no CPU sleeps on
    work. -/
theorem run_never_sleeps (ncpus : Nat) (queue : Nat → List Nat) (ops : List Op) (s : State)
    (hrun : Run step NotBeforeHalt (boot ncpus queue) ops s) (c : Nat) : ¬ SleepsOnWork s c := by
  have hinv : Inv s := hrun.invariant (boot_inv ncpus queue) fun s op s' => step_inv
  rintro ⟨hpc, hhandler, hqueue, hresched, -, howed⟩
  have hdozes : (s.cpu c).Dozes := by
    refine ⟨?_, ?_, hhandler⟩
    · rw [hpc]
      rfl
    · rw [hpc]
      simp
  rcases hinv.awake c hdozes hqueue with hr | ho
  · rw [hresched] at hr
    cases hr
  · exact howed ho

def oneThread : State := boot 2 fun c => if c = 1 then [7] else []

def goIdle : List Op := List.replicate 6 (.loop 0 false)

def wakeOther : List Op :=
  List.replicate 5 (.loop 1 false) ++ [.syscall 1, .enqueue 1 8] ++ List.replicate 5 (.advance 1)

theorem run_never_sleeps_pending : ∃ s,
    Run step NotBeforeHalt oneThread (goIdle ++ [.loop 0 false] ++ wakeOther) s ∧
      ((s.cpu 0).pc = .halted ∧ (s.scheduler 0).queue = [8]) ∧ ¬ SleepsOnWork s 0 := by
  have hok : ∀ op ∈ goIdle ++ [.loop 0 false] ++ wakeOther, ∀ s, NotBeforeHalt s op := by
    simp [goIdle, wakeOther, NotBeforeHalt]
  obtain ⟨s, hrun, hs⟩ : ∃ s, Run step NotBeforeHalt oneThread _ s ∧
      (s.cpu 0).pc = .halted ∧ (s.scheduler 0).queue = [8] :=
    Run.exists_of_eval hok (by decide +kernel)
  exact ⟨s, hrun, hs, run_never_sleeps 2 _ _ s hrun 0⟩

/-- The interrupt comes in time to be taken and too early to wake the CPU. -/
theorem run_sleeps_on_work : ∃ s, Run step (fun _ _ => True) oneThread
    (goIdle ++ wakeOther ++ [.take 0 true, .iret 0, .loop 0 false]) s ∧ SleepsOnWork s 0 :=
  Run.exists_of_eval (fun _ _ _ => trivial) (by decide +kernel)

end GovinDos.Scheduler
