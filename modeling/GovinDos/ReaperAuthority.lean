/-
  **Reaper authority is an all-dead path (`kernel/src/process.c`, `umem.c`).**

  `process_reaper_authorized_locked` is two nested walks up the parent links.
-/
import GovinDos.Kernel

namespace GovinDos

open Ownership Kernel

/-! ## 1. Paths -/

inductive Below (tab : ProcTable) (a : Nat) : Nat → Prop
  | child {p : Nat} {l : ProcLinks} (hp : tab p = some l) (ha : l.parent = some a) : Below tab a p
  | up {p q : Nat} {l : ProcLinks} (hp : tab p = some l) (hq : l.parent = some q)
      (h : Below tab a q) : Below tab a p

inductive OnPath (tab : ProcTable) (a x : Nat) : Nat → Prop
  | here (h : Below tab a x) : OnPath tab a x x
  | up {p q : Nat} {l : ProcLinks} (hp : tab p = some l) (hq : l.parent = some q)
      (h : OnPath tab a x q) : OnPath tab a x p

def AllDead (tab : ProcTable) (a p : Nat) : Prop := ∀ x, OnPath tab a x p → DeadIn tab x

section

variable {tab : ProcTable} {a p q x : Nat} {l : ProcLinks}

theorem Below.lt (hgrow : Grows tab) (h : Below tab a p) : a < p := by
  induction h with
  | child hp ha => exact hgrow _ _ _ hp ha
  | up hp hq _ ih => exact ih.trans (hgrow _ _ _ hp hq)

theorem OnPath.isBelow (h : OnPath tab a x p) : Below tab a p := by
  induction h with
  | here h => exact h
  | up hp hq _ ih => exact .up hp hq ih

theorem OnPath.dead_of_dead (h : OnPath tab a x p) (hx : DeadIn tab x) : DeadIn tab p := by
  induction h with
  | here _ => exact hx
  | up hp hq _ ih => exact .up hp hq ih

theorem OnPath.total {y : Nat} (hx : OnPath tab a x p) (hy : OnPath tab a y p) :
    OnPath tab a x y ∨ OnPath tab a y x := by
  induction hx with
  | here h => exact .inr hy
  | up hp hq hx ih =>
    rcases hy with h | ⟨hp', hq', hy⟩
    · exact .inl (.up hp hq hx)
    · cases hp.symm.trans hp'
      cases hq.symm.trans hq'
      exact ih hy

theorem allDead_child (hgrow : Grows tab) (hp : tab p = some l) (ha : l.parent = some a) :
    AllDead tab a p ↔ DeadIn tab p := by
  constructor
  · intro h
    exact h p (.here (.child hp ha))
  · intro h x hx
    rcases hx with _ | ⟨hp', hq, hx⟩
    · exact h
    · -- the path ends below `a`
      cases hp.symm.trans hp'
      cases ha.symm.trans hq
      exact absurd (hx.isBelow.lt hgrow) (lt_irrefl a)

theorem allDead_up (hp : tab p = some l) (hq : l.parent = some q) (h : Below tab a q) :
    AllDead tab a p ↔ DeadIn tab p ∧ AllDead tab a q := by
  constructor
  · intro hall
    exact ⟨hall p (.here (.up hp hq h)), fun x hx => hall x (.up hp hq hx)⟩
  · rintro ⟨hdead, hall⟩ x hx
    rcases hx with _ | ⟨hp', hq', hx⟩
    · exact hdead
    · cases hp.symm.trans hp'
      cases hq.symm.trans hq'
      exact hall x hx

theorem below_iff (hp : tab p = some l) (hq : l.parent = some q) (hne : q ≠ a) :
    Below tab a p ↔ Below tab a q := by
  constructor
  · rintro (⟨hp', ha⟩ | ⟨hp', hq', h⟩)
    · cases hp.symm.trans hp'
      cases hq.symm.trans ha
      exact absurd rfl hne
    · cases hp.symm.trans hp'
      cases hq.symm.trans hq'
      exact h
  · exact .up hp hq

/-! ## 2. The walk -/

theorem reaperUp_iff (hgrow : Grows tab) (n p : Nat) (hn : p < n) :
    reaperUp tab a n p = true ↔ Below tab a p ∧ AllDead tab a p := by
  induction n generalizing p with
  | zero => omega
  | succ n ih =>
    rw [reaperUp]
    split
    · rename_i hpa
      subst hpa
      simp only [Bool.false_eq_true, false_iff, not_and]
      intro h
      exact absurd (h.lt hgrow) (lt_irrefl p)
    cases hp : tab p with
    | none =>
      simp only [Bool.false_eq_true, false_iff, not_and]
      rintro (⟨hp', -⟩ | ⟨hp', -, -⟩) <;> cases hp.symm.trans hp'
    | some l =>
      simp only
      by_cases hdead : processIsDead tab p = true
      · have hp_dead := (processIsDead_iff hgrow p).mp hdead
        rw [hdead, Bool.not_true, if_neg Bool.false_ne_true]
        cases hq : l.parent with
        | none =>
          simp only [Bool.false_eq_true, false_iff, not_and]
          rintro (⟨hp', ha⟩ | ⟨hp', hq', -⟩)
          · cases hp.symm.trans hp'
            cases hq.symm.trans ha
          · cases hp.symm.trans hp'
            cases hq.symm.trans hq'
        | some q =>
          simp only
          split
          · rename_i hqa
            subst hqa
            simp only [true_iff]
            exact ⟨.child hp hq, (allDead_child hgrow hp hq).mpr hp_dead⟩
          · rename_i hqa
            have hlt := hgrow p l q hp hq
            rw [ih q (by omega), below_iff hp hq hqa]
            constructor
            · rintro ⟨hbelow, hall⟩
              exact ⟨hbelow, (allDead_up hp hq hbelow).mpr ⟨hp_dead, hall⟩⟩
            · rintro ⟨hbelow, hall⟩
              exact ⟨hbelow, ((allDead_up hp hq hbelow).mp hall).2⟩
      · have hp_live := mt (processIsDead_iff hgrow p).mpr hdead
        rw [Bool.not_eq_true] at hdead
        rw [hdead, Bool.not_false, if_pos rfl]
        simp only [Bool.false_eq_true, false_iff, not_and]
        intro hbelow hall
        exact hp_live (hall p (.here hbelow))

theorem reaperAuthorized_iff (hgrow : Grows tab) (caller target : Nat) :
    processReaperAuthorizedLocked tab caller target = true ↔
      Below tab caller target ∧ AllDead tab caller target := by
  rw [processReaperAuthorizedLocked]
  split
  · rename_i hgate
    simp only [Bool.or_eq_true, decide_eq_true_eq, Bool.not_eq_true', Bool.eq_false_iff] at hgate
    simp only [Bool.false_eq_true, false_iff, not_and]
    intro hbelow hall
    rcases hgate with heq | hlive
    · subst heq
      exact absurd (hbelow.lt hgrow) (lt_irrefl caller)
    · exact hlive ((processIsDead_iff hgrow target).mpr (hall target (.here hbelow)))
  · exact reaperUp_iff hgrow (target + 1) target (Nat.lt_succ_self target)

theorem reaperAuthorized_dead (hgrow : Grows tab) {caller target : Nat}
    (h : processReaperAuthorizedLocked tab caller target = true) : DeadIn tab target := by
  obtain ⟨hbelow, hall⟩ := (reaperAuthorized_iff hgrow caller target).mp h
  exact hall target (.here hbelow)

theorem reaperAuthorized_of_live (hgrow : Grows tab) {caller target c : Nat}
    (hlive : ¬ DeadIn tab caller) (hc : OnPath tab caller c target) (hl : tab c = some l)
    (hparent : l.parent = some caller) :
    processReaperAuthorizedLocked tab caller target = true ↔ l.dead = true := by
  rw [reaperAuthorized_iff hgrow]
  constructor
  · rintro ⟨-, hall⟩
    exact (hall c hc).direct hl hparent hlive
  · intro hmark
    refine ⟨hc.isBelow, fun x hx => ?_⟩
    have hdead : DeadIn tab c := .here hl hmark
    rcases hx.total hc with h | h
    · -- nothing on the path stands above the caller's child
      exact (allDead_child hgrow hl hparent).mpr hdead x h
    · exact h.dead_of_dead hdead

end

/-! ## 3. What authority is asked for -/

/-- A caller without authority gets nothing done to `q`: neither its blocks, views and
    threads go, nor the process. -/
structure Untouchable (s : Kernel.State) (caller q : Nat) : Prop where
  free : ∀ base id b destroyable, s.own.g_ublocks.get base = some id → s.own.heap id = some b →
    b.owner = q → umemFree s.links s.own caller base destroyable = .ok (s.own, .error .PERM)
  unshare : ∀ base id b pid, s.own.g_ublocks.get base = some id → s.own.heap id = some b →
    b.owner = q → umemUnshare s.links s.own caller base pid = .ok (s.own, .error .PERM)
  dropshare : ∀ base, umemDropshare s.links s.own caller base q = .ok (s.own, .error .PERM)
  threads : ∀ tid claimed, procSysThreadDestroy s caller q tid claimed = .ok (s, .error .PERM)
  destroy : procSysDestroy s caller q = .ok (s, .error .PERM)

theorem untouchable_of_unauthorized {s : Kernel.State} {caller q : Nat} (hne : q ≠ caller)
    (hq : q ≠ 0) (h : processReaperAuthorizedLocked s.links caller q = false) :
    Untouchable s caller q where
  free base id b destroyable hid hb howner := by
    have hres : resourceAuthorized s.links caller b.owner = false := by
      simp [resourceAuthorized, howner, h, Ne.symm hne]
    simp [umemFree, hid, hb, deref, hres, bind, Except.bind, pure, Except.pure]
  unshare base id b pid hid hb howner := by
    have hres : resourceAuthorized s.links caller b.owner = false := by
      simp [resourceAuthorized, howner, h, Ne.symm hne]
    simp [umemUnshare, hid, hb, deref, hres, bind, Except.bind, pure, Except.pure]
  dropshare base := by
    simp [umemDropshare, hne, hq, h, pure, Except.pure]
  threads tid claimed := by
    simp [procSysThreadDestroy, resourceSubjectLocked, hne, hq, h, pure, Except.pure]
  destroy := by
    simp [procSysDestroy, h, pure, Except.pure]

/-- **Reaper authority is exactly an all-dead path.**  The check holds if and only if the
    caller is a proper ancestor and everybody from the target up to the caller's child is
    effectively dead.  Under a live caller that is the mark of the caller's child. -/
theorem reaper_authority (tab : ProcTable) (hgrow : Grows tab) (caller target : Nat) :
    (processReaperAuthorizedLocked tab caller target = true ↔
      Below tab caller target ∧ ∀ x, OnPath tab caller x target → DeadIn tab x) ∧
    (¬ DeadIn tab caller → ∀ c l, OnPath tab caller c target → tab c = some l →
      l.parent = some caller →
      (processReaperAuthorizedLocked tab caller target = true ↔ l.dead = true)) ∧
    (∀ x, OnPath tab caller x target → ¬ DeadIn tab x →
      processReaperAuthorizedLocked tab caller target = false) ∧
    ∀ s : Kernel.State, s.links = tab → target ≠ caller → target ≠ 0 → ¬ DeadIn tab target →
      Untouchable s caller target := by
  refine ⟨reaperAuthorized_iff hgrow caller target, ?_, ?_, ?_⟩
  · intro hlive c l hc hl hparent
    exact reaperAuthorized_of_live hgrow hlive hc hl hparent
  · intro x hx hlive
    apply Bool.eq_false_iff.mpr
    intro h
    exact hlive (((reaperAuthorized_iff hgrow caller target).mp h).2 x hx)
  · rintro s rfl hne htarget hlive
    apply untouchable_of_unauthorized hne htarget
    apply Bool.eq_false_iff.mpr
    intro h
    exact hlive (reaperAuthorized_dead hgrow h)

def threeGenerations : ProcTable
  | 1 => some ⟨none, false⟩
  | 2 => some ⟨some 1, true⟩
  | 3 => some ⟨some 2, false⟩
  | _ => none

theorem reaper_authority_grandchild : Grows threeGenerations ∧
    processReaperAuthorizedLocked threeGenerations 1 3 = true ∧
    ∀ x, OnPath threeGenerations 1 x 3 → DeadIn threeGenerations x := by
  have hgrow : Grows threeGenerations := by
    intro p l q hp hq
    unfold threeGenerations at hp
    split at hp <;> cases hp <;> cases hq <;> decide
  have h : processReaperAuthorizedLocked threeGenerations 1 3 = true := by decide
  exact ⟨hgrow, h, ((reaper_authority threeGenerations hgrow 1 3).1.mp h).2⟩

end GovinDos
