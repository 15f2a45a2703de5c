/-
  **Generation counters that skip zero.**

  A counter with `m` values besides zero leaves zero once and then goes round `1 .. m`, so it
  returns to a value after `m` steps, and after no fewer.
-/
import Mathlib

namespace Generation

def next (m g : Nat) : Nat := g % m + 1

variable {m g k : Nat}

theorem next_pos : 0 < next m g := Nat.succ_pos _

theorem next_le (hm : 0 < m) : next m g ≤ m := Nat.mod_lt g hm

theorem iterate_next (m g k : Nat) : (next m)^[k + 1] g = (g + k) % m + 1 := by
  induction k with
  | zero => rfl
  | succ k ih =>
    rw [Function.iterate_succ_apply', ih, next]
    congr 1
    rw [Nat.mod_add_mod, Nat.add_assoc]

theorem iterate_next_eq_self_iff (hg : 0 < g) (hgm : g ≤ m) : (next m)^[k] g = g ↔ m ∣ k := by
  cases k with
  | zero => exact iff_of_true rfl (Nat.dvd_zero m)
  | succ k =>
    rw [iterate_next]
    have hlt : g - 1 < m := by omega
    have hsum : g + k = g - 1 + (k + 1) := by omega
    have hmod : (g + k) % m + 1 = g ↔ (g - 1 + (k + 1)) % m = (g - 1) % m := by
      rw [Nat.mod_eq_of_lt hlt, ← hsum]
      omega
    rw [hmod]
    constructor
    · intro h
      have hmeq : g - 1 + (k + 1) ≡ g - 1 + 0 [MOD m] := h
      exact (Nat.modEq_zero_iff_dvd).mp (Nat.ModEq.add_left_cancel' _ hmeq)
    · rintro ⟨c, hc⟩
      rw [hc, Nat.add_mul_mod_self_left]

end Generation
