/-
  **Items that are announced once each.**

  An item is made for a target, told to it at most once, and dropped at any time.  What a
  target was not told of waits in its queue.  A `Board` is what there is at one moment; a
  `Ledger` adds when each item was made and what was ever told, so a key that is dropped and
  made again is a new item.  `Turn` lists what one atomic section may do to a board.
-/
import Mathlib

namespace Announcement

open Function

variable {K T : Type}

structure Board (K T : Type) where
  told : K → Option Bool
  queue : T → List K

namespace Board

variable [DecidableEq K] (b : Board K T)

def make [DecidableEq T] (to_ : K → T) (k : K) : Board K T where
  told := Function.update b.told k (some false)
  queue := Function.update b.queue (to_ k) (b.queue (to_ k) ++ [k])

def tell (k : K) : Board K T where
  told := Function.update b.told k (some true)
  queue t := (b.queue t).erase k

def drop (k : K) : Board K T where
  told := Function.update b.told k none
  queue t := (b.queue t).erase k

def tellAll (ks : List K) : Board K T := ks.foldl tell b

end Board

structure Board.Sound (to_ : K → T) (b : Board K T) : Prop where
  mem : ∀ t k, k ∈ b.queue t ↔ to_ k = t ∧ b.told k = some false
  nodup : ∀ t, (b.queue t).Nodup

namespace Board.Sound

variable {to_ : K → T} {b : Board K T} {k : K}

theorem not_mem (h : b.Sound to_) (hk : b.told k ≠ some false) (t : T) : k ∉ b.queue t := by
  intro hmem
  exact hk ((h.mem t k).mp hmem).2

variable [DecidableEq K]

theorem make [DecidableEq T] (h : b.Sound to_) (hk : b.told k = none) : (b.make to_ k).Sound to_ where
  mem t k' := by
    have hmem := h.mem t k'
    by_cases ht : t = to_ k <;> by_cases hk' : k' = k
    · simp [Board.make, ht, hk']
    · subst ht
      simp [Board.make, hk', hmem]
    · subst hk'
      simp only [Board.make, update_of_ne ht, hmem, hk, update_self, and_true]
      simp [Ne.symm ht]
    · simp only [Board.make, update_of_ne ht, update_of_ne hk', hmem]
  nodup t := by
    by_cases ht : t = to_ k
    · subst ht
      simp only [Board.make, update_self]
      apply (h.nodup _).append (List.nodup_singleton k)
      simpa using h.not_mem (k := k) (by simp [hk]) (to_ k)
    · simpa [Board.make, ht] using h.nodup t

theorem erase (h : b.Sound to_) {v : Option Bool} (hv : v ≠ some false) :
    (Board.mk (update b.told k v) fun t => (b.queue t).erase k).Sound to_ where
  mem t k' := by
    rw [(h.nodup t).mem_erase_iff, h.mem t k']
    by_cases hk' : k' = k
    · simp [hk', hv]
    · simp [hk']
  nodup t := (h.nodup t).erase k

theorem tell (h : b.Sound to_) (k : K) : (b.tell k).Sound to_ := h.erase (by simp)

theorem drop (h : b.Sound to_) (k : K) : (b.drop k).Sound to_ := h.erase (by simp)

end Board.Sound

inductive Turn [DecidableEq K] [DecidableEq T] (to_ : K → T) (b : Board K T) : List K → Board K T → Prop
  | keep : Turn to_ b [] b
  | make {k : K} (hk : b.told k = none) : Turn to_ b [] (b.make to_ k)
  | makeTell {k : K} (hk : b.told k = none) : Turn to_ b [k] ((b.make to_ k).tell k)
  | drop {k : K} (hk : b.told k ≠ none) : Turn to_ b [] (b.drop k)
  | replay (t : T) (n : Nat) : Turn to_ b ((b.queue t).take n) (b.tellAll ((b.queue t).take n))

structure Ledger (K T : Type) extends Board K T where
  clock : Nat
  born : K → Nat
  log : List (Nat × K)

namespace Ledger

structure Sound (to_ : K → T) (l : Ledger K T) : Prop extends l.toBoard.Sound to_ where
  ordered : ∀ t, (l.queue t).Pairwise (l.born · < l.born ·)
  past : ∀ k, l.told k ≠ none → l.born k < l.clock
  logged : ∀ x ∈ l.log, x.1 < l.clock
  told_iff : ∀ k v, l.told k = some v → (v = true ↔ (l.born k, k) ∈ l.log)
  once : l.log.Nodup

variable [DecidableEq K]

def make [DecidableEq T] (l : Ledger K T) (to_ : K → T) (k : K) : Ledger K T where
  toBoard := l.toBoard.make to_ k
  clock := l.clock + 1
  born := Function.update l.born k l.clock
  log := l.log

def tell (l : Ledger K T) (k : K) : Ledger K T :=
  { l with toBoard := l.toBoard.tell k, log := l.log ++ [(l.born k, k)] }

def drop (l : Ledger K T) (k : K) : Ledger K T := { l with toBoard := l.toBoard.drop k }

def tick (l : Ledger K T) : Ledger K T := { l with clock := l.clock + 1 }

end Ledger

namespace Ledger.Sound

variable {to_ : K → T} {l : Ledger K T} {k : K}

theorem tick (h : l.Sound to_) : l.tick.Sound to_ where
  toSound := h.toSound
  ordered := h.ordered
  past k hk := Nat.lt_succ_of_lt (h.past k hk)
  logged x hx := Nat.lt_succ_of_lt (h.logged x hx)
  told_iff := h.told_iff
  once := h.once

variable [DecidableEq K]

theorem make [DecidableEq T] (h : l.Sound to_) (hk : l.told k = none) : (l.make to_ k).Sound to_ where
  toSound := h.toSound.make hk
  ordered t := by
    have hold : (l.queue t).Pairwise ((l.make to_ k).born · < (l.make to_ k).born ·) := by
      apply (h.ordered t).imp_of_mem
      intro x y hx hy hlt
      have hne : ∀ z ∈ l.queue t, z ≠ k := by
        rintro z hz rfl
        exact h.not_mem (by simp [hk]) t hz
      simpa [Ledger.make, hne x hx, hne y hy] using hlt
    by_cases ht : t = to_ k
    · subst ht
      simp only [Ledger.make, Board.make, update_self]
      refine List.pairwise_append.mpr ⟨hold, List.pairwise_singleton .., ?_⟩
      -- the new item is younger than any that was made before
      intro x hx y hy
      simp only [List.mem_singleton] at hy
      subst hy
      have hx' : l.told x = some false := ((h.mem _ x).mp hx).2
      have hne : x ≠ y := by
        rintro rfl
        simp [hk] at hx'
      simpa [hne] using h.past x (by simp [hx'])
    · simpa [Ledger.make, Board.make, ht] using hold
  past k' hk' := by
    by_cases hkk : k' = k
    · simp [Ledger.make, hkk]
    · simp only [Ledger.make, Board.make, update_of_ne hkk] at hk' ⊢
      exact Nat.lt_succ_of_lt (h.past k' hk')
  logged x hx := Nat.lt_succ_of_lt (h.logged x hx)
  told_iff k' v hv := by
    by_cases hkk : k' = k
    · subst hkk
      simp only [Ledger.make, Board.make, update_self, Option.some.injEq] at hv ⊢
      subst hv
      -- no entry of the log is as young as the new item
      simp only [Bool.false_eq_true, false_iff]
      intro hmem
      exact absurd (h.logged _ hmem) (Nat.lt_irrefl _)
    · simp only [Ledger.make, Board.make, update_of_ne hkk] at hv ⊢
      exact h.told_iff k' v hv
  once := h.once

theorem tell (h : l.Sound to_) (hk : l.told k = some false) : (l.tell k).Sound to_ where
  toSound := h.toSound.tell k
  ordered t := (h.ordered t).sublist List.erase_sublist
  past k' hk' := by
    by_cases hkk : k' = k
    · subst hkk
      exact h.past k' (by simp [hk])
    · simp only [Ledger.tell, Board.tell, update_of_ne hkk] at hk'
      exact h.past k' hk'
  logged x hx := by
    simp only [Ledger.tell, List.mem_append, List.mem_singleton] at hx
    rcases hx with hx | rfl
    · exact h.logged x hx
    · exact h.past k (by simp [hk])
  told_iff k' v hv := by
    by_cases hkk : k' = k
    · subst hkk
      simp only [Ledger.tell, Board.tell, update_self, Option.some.injEq] at hv
      simp [Ledger.tell, ← hv]
    · simp only [Ledger.tell, Board.tell, update_of_ne hkk] at hv
      rw [h.told_iff k' v hv]
      simp [Ledger.tell, hkk]
  once := by
    apply h.once.append (List.nodup_singleton _)
    have hnot := (h.told_iff k false hk).not.mp (by simp)
    simpa using hnot

theorem drop (h : l.Sound to_) (k : K) : (l.drop k).Sound to_ where
  toSound := h.toSound.drop k
  ordered t := (h.ordered t).sublist List.erase_sublist
  past k' hk' := by
    by_cases hkk : k' = k
    · simp [Ledger.drop, Board.drop, hkk] at hk'
    · simp only [Ledger.drop, Board.drop, update_of_ne hkk] at hk'
      exact h.past k' hk'
  logged := h.logged
  told_iff k' v hv := by
    by_cases hkk : k' = k
    · simp [Ledger.drop, Board.drop, hkk] at hv
    · simp only [Ledger.drop, Board.drop, update_of_ne hkk] at hv
      exact h.told_iff k' v hv
  once := h.once

theorem tellAll (h : l.Sound to_) {t : T} {ks : List K} (hks : ks <+: l.queue t) :
    ({ l with toBoard := l.toBoard.tellAll ks, log := l.log ++ ks.map fun k => (l.born k, k) } :
      Ledger K T).Sound to_ := by
  induction ks generalizing l with
  | nil => simpa [Board.tellAll] using h
  | cons k ks ih =>
    obtain ⟨rest, hrest⟩ := hks
    have hhead : k ∈ l.queue t := by
      rw [← hrest]
      simp
    have hnext := ih (h.tell ((h.mem t k).mp hhead).2) (by
      simp only [Ledger.tell, Board.tell, ← hrest]
      simp)
    simpa [Ledger.tell, Board.tellAll] using hnext

end Ledger.Sound

def Ledger.next (l : Ledger K T) (ks : List K) (b : Board K T) : Ledger K T :=
  let born := fun k => if l.told k = none ∧ b.told k ≠ none then l.clock else l.born k
  ⟨b, l.clock + 1, born, l.log ++ ks.map fun k => (born k, k)⟩

section

variable {to_ : K → T} {l : Ledger K T} {ks : List K} {b b' : Board K T}

theorem told_tellAll [DecidableEq K] (b : Board K T) (ks : List K) (k : K) :
    (b.tellAll ks).told k = if k ∈ ks then some true else b.told k := by
  induction ks generalizing b with
  | nil => simp [Board.tellAll]
  | cons k' ks ih =>
    change ((b.tell k').tellAll ks).told k = _
    rw [ih]
    by_cases hk : k = k' <;> by_cases hin : k ∈ ks <;> simp [Board.tell, hk, hin]

theorem born_keep (hnew : ∀ k, l.told k = none → b.told k = none) :
    (fun k => if l.told k = none ∧ b.told k ≠ none then l.clock else l.born k) = l.born := by
  funext k
  rw [if_neg]
  rintro ⟨hk, hk'⟩
  exact hk' (hnew k hk)

theorem born_make [DecidableEq K] {k : K} (hk : l.told k = none) (hsome : b.told k ≠ none)
    (hother : ∀ k', k' ≠ k → b.told k' = l.told k') :
    (fun k => if l.told k = none ∧ b.told k ≠ none then l.clock else l.born k) =
      update l.born k l.clock := by
  funext k'
  by_cases hkk : k' = k
  · simp [hkk, hk, hsome]
  · simp +contextual [hkk, hother]

variable [DecidableEq K] [DecidableEq T]

theorem Turn.told_of_mem {k : K} (hturn : Turn to_ b ks b') (hk : k ∈ ks) :
    b'.told k = some true := by
  cases hturn with
  | makeTell _ =>
    simp only [List.mem_singleton] at hk
    simp [Board.tell, hk]
  | replay t n => rw [told_tellAll, if_pos hk]
  | _ => simp at hk

theorem Turn.sound (hturn : Turn to_ l.toBoard ks b) (h : l.Sound to_) :
    (l.next ks b).Sound to_ := by
  unfold Ledger.next
  cases hturn with
  | keep =>
    rw [born_keep fun _ hk => hk]
    simp only [List.map_nil, List.append_nil]
    exact h.tick
  | make hk =>
    rw [born_make hk (by simp [Board.make]) fun k' hk' => by simp [Board.make, hk']]
    simp only [List.map_nil, List.append_nil]
    exact h.make hk
  | makeTell hk =>
    rename_i k
    rw [born_make hk (by simp [Board.tell]) fun k' hk' => by simp [Board.tell, Board.make, hk']]
    exact (h.make hk).tell (by simp [Ledger.make, Board.make])
  | drop hk =>
    rename_i k
    rw [born_keep fun k' hk' => by by_cases hkk : k' = k <;> simp [Board.drop, hkk, hk']]
    simp only [List.map_nil, List.append_nil]
    exact (h.drop k).tick
  | replay t n =>
    rw [born_keep fun k hk => ?_]
    · exact (h.tellAll (List.take_prefix n (l.queue t))).tick
    · rw [told_tellAll, if_neg, hk]
      intro hmem
      have hfalse := ((h.mem t k).mp (List.mem_of_mem_take hmem)).2
      simp [hk] at hfalse

end

end Announcement
