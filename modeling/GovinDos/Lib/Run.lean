/-
  **Runs of a step function, and what holds along them.**

  `step s o` is the state after `o`, or `none` where `o` cannot be taken; `ok` restricts the
  steps a run may take.
-/
import Mathlib

inductive Run {S O : Type} (step : S → O → Option S) (ok : S → O → Prop) : S → List O → S → Prop
  | nil (s : S) : Run step ok s [] s
  | cons {s s' s'' : S} {o : O} {os : List O} (hok : ok s o) (hstep : step s o = some s')
      (hrest : Run step ok s' os s'') : Run step ok s (o :: os) s''

namespace Run

variable {S O : Type} {step : S → O → Option S} {ok ok' : S → O → Prop}

theorem invariant {P : S → Prop} {s s' : S} {os : List O} (hrun : Run step ok s os s')
    (hP : P s) (hstep : ∀ s o s', P s → ok s o → step s o = some s' → P s') : P s' := by
  induction hrun with
  | nil => exact hP
  | cons hok hs _ ih => exact ih (hstep _ _ _ hP hok hs)

theorem mono {s s' : S} {os : List O} (hrun : Run step ok s os s')
    (hok : ∀ s o, ok s o → ok' s o) : Run step ok' s os s' := by
  induction hrun with
  | nil s => exact .nil s
  | cons h hs _ ih => exact .cons (hok _ _ h) hs ih

theorem append {s s' s'' : S} {os os' : List O} (h : Run step ok s os s')
    (h' : Run step ok s' os' s'') : Run step ok s (os ++ os') s'' := by
  induction h with
  | nil s => exact h'
  | cons hok hs _ ih => exact .cons hok hs (ih h')

theorem single {s s' : S} {o : O} (hok : ok s o) (hs : step s o = some s') :
    Run step ok s [o] s' := .cons hok hs (.nil s')

theorem of_foldlM {s s' : S} {os : List O} (hok : ∀ o ∈ os, ∀ s, ok s o)
    (h : os.foldlM step s = some s') : Run step ok s os s' := by
  induction os generalizing s with
  | nil =>
    cases h
    exact .nil _
  | cons o os ih =>
    rw [List.foldlM_cons] at h
    obtain ⟨s₁, hs₁, hrest⟩ := Option.bind_eq_some_iff.mp h
    exact .cons (hok o List.mem_cons_self s) hs₁
      (ih (fun o' ho' => hok o' (List.mem_cons_of_mem o ho')) hrest)

theorem exists_of_eval {P : S → Prop} [DecidablePred P] {s : S} {os : List O}
    (hok : ∀ o ∈ os, ∀ s, ok s o)
    (h : (os.foldlM step s).map (fun s => decide (P s)) = some true) :
    ∃ s', Run step ok s os s' ∧ P s' := by
  obtain ⟨s', hs', hP⟩ := Option.map_eq_some_iff.mp h
  exact ⟨s', of_foldlM hok hs', of_decide_eq_true hP⟩

theorem of_checked {I : S → Prop} {s s' : S} {os : List O} (check : S → O → Bool) (hI : I s)
    (hcheck : ∀ s o, I s → check s o = true → ok s o)
    (hstep : ∀ s o s', I s → ok s o → step s o = some s' → I s')
    (h : os.foldlM (fun s o => if check s o then step s o else none) s = some s') :
    Run step ok s os s' := by
  induction os generalizing s with
  | nil =>
    cases h
    exact .nil _
  | cons o os ih =>
    rw [List.foldlM_cons] at h
    obtain ⟨s₁, hs₁, hrest⟩ := Option.bind_eq_some_iff.mp h
    split at hs₁
    · rename_i hs
      have hok := hcheck s o hI hs
      exact .cons hok hs₁ (ih (hstep s o s₁ hI hok hs₁) hrest)
    · cases hs₁

theorem exists_of_checked {I P : S → Prop} [DecidablePred P] {s : S} {os : List O}
    (check : S → O → Bool) (hI : I s)
    (hcheck : ∀ s o, I s → check s o = true → ok s o)
    (hstep : ∀ s o s', I s → ok s o → step s o = some s' → I s')
    (h : (os.foldlM (fun s o => if check s o then step s o else none) s).map
      (fun s => decide (P s)) = some true) :
    ∃ s', Run step ok s os s' ∧ P s' := by
  obtain ⟨s', hs', hP⟩ := Option.map_eq_some_iff.mp h
  exact ⟨s', of_checked check hI hcheck hstep hs', of_decide_eq_true hP⟩

theorem exists_imp {P Q : S → Prop} {s : S} {os : List O} (h : ∃ s', Run step ok s os s' ∧ P s')
    (hQ : ∀ s', Run step ok s os s' → P s' → Q s') : ∃ s', Run step ok s os s' ∧ Q s' := by
  obtain ⟨s', hrun, hP⟩ := h
  exact ⟨s', hrun, hQ s' hrun hP⟩

inductive Has {S O : Type} (step : S → O → Option S) (P : S → O → S → Prop) : S → List O → Prop
  | here {s s' : S} {o : O} {os : List O} (hstep : step s o = some s') (h : P s o s') :
      Has step P s (o :: os)
  | later {s s' : S} {o : O} {os : List O} (hstep : step s o = some s') (h : Has step P s' os) :
      Has step P s (o :: os)

theorem has_of_until {P : S → O → S → Prop} {Q : S → Prop} {s s' : S} {os : List O}
    (hrun : Run step ok s os s') (hQ : Q s)
    (hstep : ∀ s o s', Q s → ok s o → step s o = some s' → Q s' ∨ P s o s') (hend : ¬ Q s') :
    Has step P s os := by
  induction hrun with
  | nil => exact absurd hQ hend
  | cons hok hs _ ih =>
    rcases hstep _ _ _ hQ hok hs with hQ' | hP
    · exact .later hs (ih hQ' hend)
    · exact .here hs hP

end Run
