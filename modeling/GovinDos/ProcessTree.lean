/-
  **Effective death in the process tree (`kernel/src/process.c`).**

  A process is dead when it or an ancestor carries the direct mark.  A pid is larger than the
  pid of its parent, so a walk up from `p` ends within `p + 1` steps and that is its fuel.
  The table is a parameter: each model that has processes supplies its own.
-/
import Mathlib

namespace GovinDos

structure ProcLinks where
  parent : Option Nat
  dead : Bool
deriving DecidableEq

abbrev ProcTable := Nat → Option ProcLinks

/-- `process_is_dead` from `p`, with at most `n` processes visited. -/
def deadUp (tab : ProcTable) : Nat → Nat → Bool
  | 0, _ => false
  | n + 1, p =>
    match tab p with
    | none => false
    | some l => l.dead || match l.parent with
      | none => false
      | some q => deadUp tab n q

def processIsDead (tab : ProcTable) (p : Nat) : Bool := deadUp tab (p + 1) p

/-- Effective death as such: `p` or an ancestor carries the mark. -/
inductive DeadIn (tab : ProcTable) : Nat → Prop
  | here {p : Nat} {l : ProcLinks} (hp : tab p = some l) (hd : l.dead = true) : DeadIn tab p
  | up {p q : Nat} {l : ProcLinks} (hp : tab p = some l) (hq : l.parent = some q)
      (h : DeadIn tab q) : DeadIn tab p

def reaperUp (tab : ProcTable) (caller : Nat) : Nat → Nat → Bool
  | 0, _ => false
  | n + 1, at_ =>
    if at_ = caller then false
    else match tab at_ with
      | none => false
      | some l =>
        if !processIsDead tab at_ then false
        else match l.parent with
          | none => false
          | some q => if q = caller then true else reaperUp tab caller n q

def processReaperAuthorizedLocked (tab : ProcTable) (caller target : Nat) : Bool :=
  if caller = target || !processIsDead tab target then false
  else reaperUp tab caller (target + 1) target

/-- `proc_sys_kill`'s walk: is `me` a proper ancestor, starting at `a`. -/
def ancestorUp (tab : ProcTable) (me : Nat) : Nat → Option Nat → Bool
  | _, none => false
  | 0, some _ => false
  | n + 1, some a => if a = me then true else ancestorUp tab me n ((tab a).bind (·.parent))

section

variable {tab tab' : ProcTable}

def Grows (tab : ProcTable) : Prop := ∀ p l q, tab p = some l → l.parent = some q → q < p

theorem deadUp_iff (h : Grows tab) (n p : Nat) (hn : p < n) :
    deadUp tab n p = true ↔ DeadIn tab p := by
  induction n generalizing p with
  | zero => omega
  | succ n ih =>
    rw [deadUp]
    cases hp : tab p with
    | none =>
      refine iff_of_false (by simp) ?_
      rintro (⟨hp', -⟩ | ⟨hp', -, -⟩) <;> cases hp.symm.trans hp'
    | some l =>
      simp only [Bool.or_eq_true]
      constructor
      · rintro (hd | hup)
        · exact .here hp hd
        · cases hq : l.parent with
          | none =>
            rw [hq] at hup
            cases hup
          | some q =>
            rw [hq] at hup
            have hlt := h p l q hp hq
            exact .up hp hq ((ih q (by omega)).mp hup)
      · rintro (⟨hp', hd⟩ | ⟨hp', hq, hup⟩)
        · cases hp.symm.trans hp'
          exact .inl hd
        · cases hp.symm.trans hp'
          have hlt := h p l _ hp hq
          simp only [hq]
          exact .inr ((ih _ (by omega)).mpr hup)

theorem processIsDead_iff (h : Grows tab) (p : Nat) : processIsDead tab p = true ↔ DeadIn tab p :=
  deadUp_iff h (p + 1) p (Nat.lt_succ_self p)

theorem DeadIn.mono {p : Nat} (h : DeadIn tab p)
    (hkeep : ∀ p l l', tab p = some l → tab' p = some l' →
      l'.parent = l.parent ∧ (l.dead = true → l'.dead = true))
    (hclosed : ∀ p l q, tab' p = some l → l.parent = some q → (tab' q).isSome)
    (hp : (tab' p).isSome) : DeadIn tab' p := by
  induction h with
  | here hp' hd =>
    obtain ⟨l', hl'⟩ := Option.isSome_iff_exists.mp hp
    exact .here hl' ((hkeep _ _ _ hp' hl').2 hd)
  | up hp' hq _ ih =>
    obtain ⟨l', hl'⟩ := Option.isSome_iff_exists.mp hp
    have hq' := (hkeep _ _ _ hp' hl').1.trans hq
    exact .up hl' hq' (ih (hclosed _ _ _ hl' hq'))

theorem DeadIn.isSome {p : Nat} (h : DeadIn tab p) : (tab p).isSome := by
  cases h with
  | here hp _ => rw [hp]; rfl
  | up hp _ _ => rw [hp]; rfl

theorem DeadIn.direct {p q : Nat} {l : ProcLinks} (h : DeadIn tab p) (hp : tab p = some l)
    (hq : l.parent = some q) (hlive : ¬ DeadIn tab q) : l.dead = true := by
  rcases h with ⟨hp', hd⟩ | ⟨hp', hq', hup⟩
  · cases hp.symm.trans hp'
    exact hd
  · cases hp.symm.trans hp'
    cases hq.symm.trans hq'
    exact absurd hup hlive

theorem processReaperAuthorizedLocked_spec {caller target : Nat}
    (h : processReaperAuthorizedLocked tab caller target = true) :
    caller ≠ target ∧ processIsDead tab target = true ∧
      ∃ l q, tab target = some l ∧ l.parent = some q := by
  unfold processReaperAuthorizedLocked at h
  split at h
  · cases h
  rename_i hgate
  simp only [Bool.or_eq_true, decide_eq_true_eq, Bool.not_eq_true', not_or,
    Bool.not_eq_false] at hgate
  refine ⟨hgate.1, hgate.2, ?_⟩
  rw [reaperUp] at h
  split at h
  · cases h
  split at h
  · cases h
  rename_i l hl
  split at h
  · cases h
  split at h
  · cases h
  · rename_i q hq
    exact ⟨l, q, hl, hq⟩

end

end GovinDos
