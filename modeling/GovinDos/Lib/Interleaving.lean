/-
  **Threads over one memory, a step at a time.**

  `next t m l e` is what thread `t` makes of the memory `m` and its own place `l`; `e` is
  what it does not decide itself.  An assertion about each thread's place is kept by a step
  if the thread that takes it re-establishes its own and the assertions of the others are
  stable under what it does to the memory.
-/
import Mathlib
import GovinDos.Lib.Run

structure Threads (T M L : Type) where
  mem : M
  loc : T → L

namespace Threads

open Function

variable {T M L E : Type} [DecidableEq T]

def step (next : T → M → L → E → Option (M × L)) (s : Threads T M L) (o : T × E) :
    Option (Threads T M L) :=
  (next o.1 s.mem (s.loc o.1) o.2).map fun r => ⟨r.1, Function.update s.loc o.1 r.2⟩

variable {next : T → M → L → E → Option (M × L)} {s s' : Threads T M L} {t : T} {e : E}

theorem step_eq_some (h : step next s (t, e) = some s') :
    ∃ m l, next t s.mem (s.loc t) e = some (m, l) ∧ s' = ⟨m, update s.loc t l⟩ := by
  obtain ⟨⟨m, l⟩, hnext, heq⟩ := Option.map_eq_some_iff.mp h
  exact ⟨m, l, hnext, heq.symm⟩

theorem forall_update {loc : T → L} {l : L} {P : T → L → Prop} (hself : P t l)
    (hother : ∀ u, u ≠ t → P u (loc u)) (u : T) : P u (update loc t l u) := by
  by_cases hu : u = t
  · subst hu
    rwa [update_self]
  · rw [update_of_ne hu]
    exact hother u hu

theorem exists_update {loc : T → L} {l : L} {P : T → L → Prop} {R : Prop} (h : ∃ u, P u (loc u))
    (hself : P t (loc t) → P t l ∨ R) : (∃ u, P u (update loc t l u)) ∨ R := by
  obtain ⟨u, hu⟩ := h
  by_cases hut : u = t
  · subst hut
    refine (hself hu).imp (fun hl => ⟨u, ?_⟩) id
    rwa [update_self]
  · refine .inl ⟨u, ?_⟩
    rwa [update_of_ne hut]

end Threads
