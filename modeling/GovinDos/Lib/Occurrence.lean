/-
  **Where a name occurs.**

  Places hold lists of marked names: `fun p => marks k (l p)` says where `k` occurs and how.
  The lemmas compute what a change at one place makes of a name that occurs `nowhere` or has
  a `sole` occurrence.  Where the places are maps, `owned` are the keys that lead to a value.
-/
import Mathlib
import GovinDos.Lib.OrdMap

namespace Occurrence

open Function

variable {K M P : Type} [DecidableEq K] [DecidableEq P]

def marks (k : K) (l : List (K × M)) : List M :=
  l.filterMap fun e => if e.1 = k then some e.2 else none

section marks

variable {k k' : K} {m : M} {l l' : List (K × M)}

@[simp] theorem marks_nil : marks k ([] : List (K × M)) = [] := rfl

@[simp] theorem marks_cons_self : marks k ((k, m) :: l) = m :: marks k l := by simp [marks]

theorem marks_cons_of_ne (h : k' ≠ k) : marks k ((k', m) :: l) = marks k l := by simp [marks, h]

@[simp] theorem marks_append : marks k (l ++ l') = marks k l ++ marks k l' := by simp [marks]

@[simp] theorem marks_map_self (l : List M) : marks k (l.map (k, ·)) = l := by
  induction l with
  | nil => rfl
  | cons m l ih => rw [List.map_cons, marks_cons_self, ih]

theorem marks_map_of_ne (h : k' ≠ k) (l : List M) : marks k (l.map (k', ·)) = [] := by
  induction l with
  | nil => rfl
  | cons m l ih => rw [List.map_cons, marks_cons_of_ne h, ih]

theorem mem_marks : m ∈ marks k l ↔ (k, m) ∈ l := by
  simp only [marks, List.mem_filterMap, Option.ite_none_right_eq_some, Option.some.injEq]
  constructor
  · rintro ⟨⟨k', m'⟩, he, rfl, rfl⟩
    exact he
  · intro h
    exact ⟨(k, m), h, rfl, rfl⟩

theorem nodup_map_of_marks {A : Type} {f : M → A} (h : ∀ k, ((marks k l).map f).Nodup) :
    (l.map fun e => (e.1, f e.2)).Nodup := by
  induction l with
  | nil => exact List.nodup_nil
  | cons e l ih =>
    obtain ⟨k, m⟩ := e
    have hk := h k
    rw [marks_cons_self, List.map_cons, List.nodup_cons] at hk
    rw [List.map_cons, List.nodup_cons]
    constructor
    · intro hmem
      obtain ⟨⟨k', m'⟩, he, heq⟩ := List.mem_map.mp hmem
      obtain ⟨rfl, hf⟩ := Prod.mk.inj heq
      have hmem' := List.mem_map_of_mem (f := f) (mem_marks.mpr he)
      exact hk.1 (hf ▸ hmem')
    · refine ih fun k' => ?_
      by_cases hne : k = k'
      · exact hne ▸ hk.2
      · simpa [marks_cons_of_ne hne] using h k'

end marks

def nowhere : P → List M := fun _ => []

def sole (p : P) (m : M) : P → List M := Function.update nowhere p [m]

variable {p p' : P} {m m' : M} {f : P → List M}

omit [DecidableEq P] in
@[simp] theorem nowhere_apply : (nowhere : P → List M) p = [] := rfl

@[simp] theorem sole_self : sole p m p = [m] := by simp [sole]

theorem sole_of_ne (h : p' ≠ p) : sole p m p' = [] := by simp [sole, h]

@[simp] theorem update_nowhere : update (nowhere : P → List M) p [m] = sole p m := rfl

@[simp] theorem update_nowhere_nil : update (nowhere : P → List M) p [] = nowhere :=
  update_eq_self p nowhere

@[simp] theorem update_sole : update (sole p m) p [m'] = sole p m' := by
  rw [sole, update_idem, sole]

@[simp] theorem update_sole_nil : update (sole p m) p [] = nowhere := by
  rw [sole, update_idem, update_nowhere_nil]

theorem mem_sole : m' ∈ sole p m p' ↔ p' = p ∧ m' = m := by
  by_cases h : p' = p
  · subst h
    simp
  · simp [sole_of_ne h, h]

@[simp] theorem sole_ne_nowhere : sole p m ≠ nowhere := by
  intro h
  have := congrFun h p
  simp at this

@[simp] theorem nowhere_ne_sole : nowhere ≠ sole p m := fun h => sole_ne_nowhere h.symm

@[simp] theorem sole_inj : sole p m = sole p' m' ↔ p = p' ∧ m = m' := by
  constructor
  · intro h
    have hmem : m ∈ sole p' m' p := by rw [← h]; simp
    exact mem_sole.mp hmem
  · rintro ⟨rfl, rfl⟩
    rfl

def AtMostOne (f : P → List M) : Prop := f = nowhere ∨ ∃ p m, f = sole p m

theorem AtMostOne.eq_sole (h : AtMostOne f) (hm : m ∈ f p) : f = sole p m := by
  rcases h with rfl | ⟨p', m', rfl⟩
  · cases hm
  · obtain ⟨rfl, rfl⟩ := mem_sole.mp hm
    rfl

variable {I A V : Type} [LinearOrder A]

def owned (f : I → OrdMap A V) (v : V) : Set (I × A) := { e | (f e.1).get e.2 = some v }

variable {f : I → OrdMap A V} {i : I} {k : A} {v w : V}

theorem mem_owned {e : I × A} : e ∈ owned f v ↔ (f e.1).get e.2 = some v := Iff.rfl

theorem owned_diff_of_ne (hne : w ≠ v) (hk : (f i).get k = some v) :
    owned f w \ {(i, k)} = owned f w := by
  refine Set.sdiff_singleton_eq_self fun h => hne ?_
  exact Option.some_inj.mp ((mem_owned.mp h).symm.trans hk)

variable [DecidableEq I]

theorem owned_erase :
    owned (update f i ((f i).erase k)) v = owned f v \ {(i, k)} := by
  ext ⟨j, l⟩
  by_cases hj : j = i
  · subst hj
    simp [mem_owned, OrdMap.get_erase_eq_some_iff, and_comm]
  · simp [mem_owned, hj]

theorem owned_set_self :
    owned (update f i ((f i).set k v)) v = insert (i, k) (owned f v) := by
  ext ⟨j, l⟩
  by_cases hj : j = i
  · subst hj
    by_cases hl : l = k
    · simp [mem_owned, hl]
    · simp [mem_owned, hl, OrdMap.get_set_of_ne _ _ hl]
  · simp [mem_owned, hj]

theorem owned_set_of_ne (hne : w ≠ v) (hk : (f i).get k = none) :
    owned (update f i ((f i).set k v)) w = owned f w := by
  ext ⟨j, l⟩
  by_cases hj : j = i
  · subst hj
    by_cases hl : l = k
    · simp [mem_owned, hl, hk, hne.symm]
    · simp [mem_owned, OrdMap.get_set_of_ne _ _ hl]
  · simp [mem_owned, hj]

theorem owned_congr {m : OrdMap A V} (h : ∀ k, m.get k = (f i).get k) :
    owned (update f i m) v = owned f v := by
  ext ⟨j, l⟩
  by_cases hj : j = i
  · subst hj
    simp [mem_owned, h]
  · simp [mem_owned, hj]

end Occurrence
