/-
  **Bounded queues on wrapping indices.**

  Positions are counted without a bound, and a 32-bit index holds a count modulo `2 ^ 32`:
  counts less than `2 ^ 32` apart are told apart.  Position `i` lives in slot `i % n`; where
  `n` divides `2 ^ 32` the index gives the slot, however often it has wrapped.
-/
import Mathlib

namespace RingBuffer

/-! ## 1. Indices -/

theorem toNat_sub_ofNat {a b : Nat} (h : b ≤ a) (hnear : a - b < 2 ^ 32) :
    (UInt32.ofNat a - UInt32.ofNat b).toNat = a - b := by
  rw [← UInt32.ofNat_sub h, UInt32.toNat_ofNat', Nat.mod_eq_of_lt hnear]

theorem ofNat_eq_iff {a b : Nat} (h : b ≤ a) (hnear : a - b < 2 ^ 32) :
    UInt32.ofNat a = UInt32.ofNat b ↔ a = b := by
  constructor
  · intro heq
    have hsub := toNat_sub_ofNat h hnear
    rw [heq, UInt32.sub_self] at hsub
    have hzero : a - b = 0 := hsub.symm
    omega
  · rintro rfl
    rfl

theorem ofNat_succ (a : Nat) : UInt32.ofNat a + 1 = UInt32.ofNat (a + 1) :=
  (UInt32.ofNat_add a 1).symm

theorem toNat_sub_succ {a b : UInt32} (h : a ≠ b) : (b - (a + 1)).toNat + 1 = (b - a).toNat := by
  have hne : a.toNat ≠ b.toNat := fun heq => h (UInt32.toNat_inj.mp heq)
  have ha := a.toNat_lt
  have hb := b.toNat_lt
  have hone : (1 : UInt32).toNat = 1 := rfl
  rw [UInt32.toNat_sub, UInt32.toNat_sub, UInt32.toNat_add, hone]
  omega

theorem toNat_sub_eq_zero {a b : UInt32} : (b - a).toNat = 0 ↔ a = b := by
  have ha := a.toNat_lt
  have hb := b.toNat_lt
  rw [UInt32.toNat_sub, ← UInt32.toNat_inj]
  omega

theorem toNat_sub_add {a b : UInt32} {n : Nat} (h : n ≤ (b - a).toNat) :
    (b - (a + UInt32.ofNat n)).toNat = (b - a).toNat - n := by
  have ha := a.toNat_lt
  have hb := b.toNat_lt
  have hlt := (b - a).toNat_lt
  have hn : (UInt32.ofNat n).toNat = n := UInt32.toNat_ofNat_of_lt' (Nat.lt_of_le_of_lt h hlt)
  rw [UInt32.toNat_sub] at h
  rw [UInt32.toNat_sub, UInt32.toNat_sub, UInt32.toNat_add, hn]
  omega

theorem toInt32_pos_iff (x : UInt32) : 0 < x.toInt32 ↔ 0 < x.toNat ∧ x.toNat < 2 ^ 31 := by
  have hint : x.toInt32.toInt = x.toBitVec.toInt := rfl
  have hnat : x.toBitVec.toNat = x.toNat := rfl
  have hzero : (0 : Int32).toInt = 0 := rfl
  have hlt := x.toNat_lt
  rw [Int32.lt_iff_toInt_lt, hint, hzero, BitVec.toInt_eq_toNat_cond, hnat]
  split <;> omega

theorem passed_iff {a b : Nat} (h : b ≤ a) : 0 < (UInt32.ofNat a - UInt32.ofNat b).toInt32 ↔
    0 < (a - b) % 2 ^ 32 ∧ (a - b) % 2 ^ 32 < 2 ^ 31 := by
  rw [toInt32_pos_iff, ← UInt32.ofNat_sub h, UInt32.toNat_ofNat']

theorem not_passed {a b : Nat} (h : a ≤ b) (hnear : b - a < 2 ^ 31) :
    ¬ 0 < (UInt32.ofNat a - UInt32.ofNat b).toInt32 := by
  rw [toInt32_pos_iff, UInt32.toNat_sub, UInt32.toNat_ofNat', UInt32.toNat_ofNat']
  omega

theorem slot_ofNat {n : UInt32} (hn : n.toNat ∣ 2 ^ 32) (i : Nat) :
    (UInt32.ofNat i % n).toNat = i % n.toNat := by
  rw [UInt32.toNat_mod, UInt32.toNat_ofNat', Nat.mod_mod_of_dvd i hn]

theorem slot_ne {n i j : Nat} (h : i < j) (hnear : j < i + n) : i % n ≠ j % n := by
  intro heq
  have hdvd : n ∣ j - i := Nat.dvd_of_mod_eq_zero (Nat.sub_mod_eq_zero_of_mod_eq heq.symm)
  have := Nat.le_of_dvd (by omega) hdvd
  omega

/-! ## 2. Contents -/

def Holds {α : Type} (slots : Nat → α) (n lo : Nat) (xs : List α) : Prop :=
  ∀ i (h : i < xs.length), slots ((lo + i) % n) = xs[i]

variable {α : Type} {slots : Nat → α} {n lo : Nat} {x : α} {xs ys : List α}

theorem holds_nil : Holds slots n lo [] := fun _ h => absurd h (Nat.not_lt_zero _)

theorem Holds.append (hx : Holds slots n lo xs) (hy : Holds slots n (lo + xs.length) ys) :
    Holds slots n lo (xs ++ ys) := by
  intro i h
  by_cases hi : i < xs.length
  · rw [List.getElem_append_left hi]
    exact hx i hi
  · rw [List.length_append] at h
    have hlo : lo + xs.length + (i - xs.length) = lo + i := by omega
    rw [List.getElem_append_right (Nat.le_of_not_lt hi), ← hy (i - xs.length) (by omega), hlo]

theorem Holds.head (h : Holds slots n lo (x :: xs)) : slots (lo % n) = x :=
  h 0 (Nat.zero_lt_succ _)

theorem Holds.tail (h : Holds slots n lo (x :: xs)) : Holds slots n (lo + 1) xs := by
  intro i hi
  have := h (i + 1) (Nat.succ_lt_succ hi)
  rw [← Nat.add_assoc, Nat.add_right_comm] at this
  exact this

theorem Holds.drop (h : Holds slots n lo (xs ++ ys)) : Holds slots n (lo + xs.length) ys := by
  intro i hi
  have := h (xs.length + i) (by rw [List.length_append]; omega)
  rw [← Nat.add_assoc, List.getElem_append_right (Nat.le_add_right _ _)] at this
  simpa using this

theorem Holds.write {j : Nat} {v : α} (h : Holds slots n lo xs) (hend : lo + xs.length ≤ j)
    (hround : j < lo + n) : Holds (Function.update slots (j % n) v) n lo xs := by
  intro i hi
  have hne : (lo + i) % n ≠ j % n := slot_ne (by omega) (by omega)
  rw [Function.update_of_ne hne]
  exact h i hi

theorem Holds.snoc (h : Holds slots n lo xs) (hx : slots ((lo + xs.length) % n) = x) :
    Holds slots n lo (xs ++ [x]) := by
  apply h.append
  intro i hi
  have hzero : i = 0 := Nat.lt_one_iff.mp hi
  subst hzero
  exact hx

end RingBuffer
