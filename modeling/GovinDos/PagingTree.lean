/-
  **Well-formed page trees and the radix trees they stand for.**

  In a well-formed entry of level `h + 1` leaves sit at level 3 or below and translate their
  own span to itself.  `erase` forgets the addresses, which a well-formed tree repeats from
  its shape, and leaves a `RadixTree` over flag bits.  Page `p` is the 4 KiB at
  `p * PAGE_SIZE`.
-/
import GovinDos.Lib.RadixTree
import GovinDos.PagingWords

namespace GovinDos.Paging

open RadixTree

/-! ## 1. Geometry -/

theorem LEVEL_SIZE_succ (h : Nat) : LEVEL_SIZE (h + 1) = PAGE_SIZE * 512 ^ h := rfl

theorem LEVEL_SIZE_pos (h : Nat) : 0 < LEVEL_SIZE (h + 1) := by
  rw [LEVEL_SIZE_succ]
  exact Nat.mul_pos (by decide) (Nat.pow_pos (by decide))

theorem LEVEL_SIZE_mod_page (h : Nat) : LEVEL_SIZE (h + 1) % PAGE_SIZE = 0 := by
  rw [LEVEL_SIZE_succ, Nat.mul_mod_right]

theorem LEVEL_SIZE_child (b h : Nat) (i : Nat) :
    (b * 512 + i) * LEVEL_SIZE (h + 1) = b * LEVEL_SIZE (h + 2) + i * LEVEL_SIZE (h + 1) := by
  rw [LEVEL_SIZE_succ, LEVEL_SIZE_succ, Nat.pow_succ]
  ring

theorem div_LEVEL_SIZE (addr h : Nat) :
    addr / LEVEL_SIZE (h + 1) = addr / PAGE_SIZE / 512 ^ h := by
  rw [LEVEL_SIZE_succ, Nat.div_div_eq_div_mul]

theorem levelIdx_eq_digit (addr h : Nat) :
    levelIdx addr (h + 1) = digit 512 h (addr / PAGE_SIZE) := by
  have hpow : 2 ^ LEVEL_SHIFT (h + 1) = PAGE_SIZE * 512 ^ h := by
    rw [show LEVEL_SHIFT (h + 1) = 12 + 9 * h from rfl, Nat.pow_add, Nat.pow_mul]
    rfl
  rw [levelIdx, digit, Nat.shiftRight_eq_div_pow, hpow, ← Nat.div_div_eq_div_mul]

theorem base_mod_page (b h : Nat) : b * LEVEL_SIZE (h + 1) % PAGE_SIZE = 0 := by
  rw [Nat.mul_mod, LEVEL_SIZE_mod_page, Nat.mul_zero, Nat.zero_mod]

theorem base_lt {b h : Nat} (hb : b < 512 ^ (4 - h)) (hh : h ≤ 4) :
    b * LEVEL_SIZE (h + 1) < 2 ^ 52 := by
  have hmul : b * LEVEL_SIZE (h + 1) < 512 ^ (4 - h) * LEVEL_SIZE (h + 1) :=
    Nat.mul_lt_mul_of_pos_right hb (LEVEL_SIZE_pos h)
  have htop : 512 ^ (4 - h) * LEVEL_SIZE (h + 1) = PAGE_SIZE * 512 ^ 4 := by
    rw [LEVEL_SIZE_succ, Nat.mul_left_comm, ← Nat.pow_add, Nat.sub_add_cancel hh]
  rw [htop] at hmul
  exact lt_of_lt_of_le hmul (by decide)

theorem child_index_lt {b h : Nat} {i : Fin 512} (hb : b < 512 ^ (4 - (h + 1))) (hh : h < 4) :
    b * 512 + i.val < 512 ^ (4 - h) := by
  have hpow : 512 ^ (4 - h) = 512 ^ (4 - (h + 1)) * 512 := by
    rw [← Nat.pow_succ]
    congr 1
    omega
  have hi := i.isLt
  rw [hpow]
  omega

/-! ## 2. Well-formed entries -/

def EntryOk : Nat → Nat → Entry → Prop
  | _, _, .absent => True
  | h, b, .leaf e => h ≤ 2 ∧ LeafOk (h + 1) (b * LEVEL_SIZE (h + 1)) e
  | 0, _, .table _ => False
  | h + 1, b, .table t => ∀ i : Fin 512, EntryOk h (b * 512 + i.val) (t i)

def RootOk (root : Table) : Prop := ∀ i : Fin 512, EntryOk 3 i.val (root i)

@[simp] theorem entryOk_absent (h b : Nat) : EntryOk h b .absent := by
  cases h <;> trivial

theorem entryOk_leaf {h b : Nat} {e : Pte} :
    EntryOk h b (.leaf e) ↔ h ≤ 2 ∧ LeafOk (h + 1) (b * LEVEL_SIZE (h + 1)) e := by
  cases h <;> rfl

theorem entryOk_table {h b : Nat} {t : Table} :
    EntryOk (h + 1) b (.table t) ↔ ∀ i : Fin 512, EntryOk h (b * 512 + i.val) (t i) := Iff.rfl

def erase : Entry → RadixTree 512 Pte
  | .absent => .absent
  | .leaf e => .leaf (pteBits e)
  | .table t => .node fun i => erase (t i)

@[simp] theorem erase_absent : erase .absent = .absent := rfl
@[simp] theorem erase_leaf (e : Pte) : erase (.leaf e) = .leaf (pteBits e) := rfl
@[simp] theorem erase_table (t : Table) : erase (.table t) = .node fun i => erase (t i) := rfl

theorem fits_erase {h b : Nat} {e : Entry} (he : EntryOk h b e) : Fits 2 h (erase e) := by
  induction h generalizing b e with
  | zero =>
    cases e with
    | absent => simp
    | leaf e => simp
    | table t => exact he.elim
  | succ h ih =>
    cases e with
    | absent => simp
    | leaf e => simpa using (entryOk_leaf.mp he).1
    | table t => exact fun i => ih (entryOk_table.mp he i)

/-- **A well-formed entry is determined by its erased tree.** -/
theorem erase_injective {h b : Nat} {e e' : Entry} (he : EntryOk h b e) (he' : EntryOk h b e')
    (heq : erase e = erase e') : e = e' := by
  induction h generalizing b e e' with
  | zero =>
    cases e <;> cases e' <;> simp only [erase, reduceCtorEq, RadixTree.leaf.injEq] at heq ⊢
    · rename_i w w'
      rw [(entryOk_leaf.mp he).2.eq_leafWord, (entryOk_leaf.mp he').2.eq_leafWord, heq]
    · exact he.elim
  | succ h ih =>
    cases e <;> cases e' <;>
      simp only [erase, reduceCtorEq, RadixTree.leaf.injEq, RadixTree.node.injEq] at heq ⊢
    · rename_i w w'
      rw [(entryOk_leaf.mp he).2.eq_leafWord, (entryOk_leaf.mp he').2.eq_leafWord, heq]
    · rename_i t t'
      refine congrArg Entry.table (funext fun i => ?_)
      exact ih (entryOk_table.mp he i) (entryOk_table.mp he' i) (congrFun heq i)

/-! ## 3. The walk -/

instance neZero512 : NeZero 512 := ⟨by decide⟩

def pageBits (root : Table) (p : Nat) : Option Pte := get 3 (erase (root (digit 512 3 p))) p

theorem leafAt_eq_get {h b addr : Nat} {t : Table} (hh : h ≤ 3)
    (hb : b < 512 ^ (4 - (h + 1)))
    (ht : ∀ i : Fin 512, EntryOk h (b * 512 + i.val) (t i))
    (haddr : addr / PAGE_SIZE / 512 ^ (h + 1) = b) :
    (leafAt (h + 1) t addr).map (fun (l, e) =>
        ((e &&& PTE_ADDR).toNat + addr % LEVEL_SIZE l, pteBits e)) =
      (get h (erase (t (digit 512 h (addr / PAGE_SIZE)))) (addr / PAGE_SIZE)).map
        fun f => (addr, f) := by
  induction h generalizing b t with
  | zero =>
    have hok := ht (digit 512 0 (addr / PAGE_SIZE))
    rw [leafAt, levelIdx_eq_digit]
    cases hent : t (digit 512 0 (addr / PAGE_SIZE)) with
    | absent => simp
    | table c =>
      rw [hent] at hok
      exact hok.elim
    | leaf e =>
      rw [hent] at hok
      have hidx : b * 512 + (digit 512 0 (addr / PAGE_SIZE)).val = addr / LEVEL_SIZE 1 := by
        rw [div_LEVEL_SIZE, index_split 0 (addr / PAGE_SIZE), haddr]
      have hlt := base_lt (h := 0) (child_index_lt (i := digit 512 0 (addr / PAGE_SIZE)) hb
        (by omega)) (by omega)
      simp only [Option.map_some, erase_leaf, get_leaf, (entryOk_leaf.mp hok).2.addr,
        BitVec.toNat_ofNat, Option.some.injEq, Prod.mk.injEq, and_true]
      rw [Nat.mod_eq_of_lt (lt_trans hlt (by decide)), hidx, Nat.div_add_mod']
  | succ h ih =>
    have hok := ht (digit 512 (h + 1) (addr / PAGE_SIZE))
    have hidx : b * 512 + (digit 512 (h + 1) (addr / PAGE_SIZE)).val =
        addr / PAGE_SIZE / 512 ^ (h + 1) := by
      rw [index_split (h + 1) (addr / PAGE_SIZE), haddr]
    have hlt' := child_index_lt (i := digit 512 (h + 1) (addr / PAGE_SIZE)) hb (by omega)
    rw [leafAt, levelIdx_eq_digit]
    cases hent : t (digit 512 (h + 1) (addr / PAGE_SIZE)) with
    | absent => simp
    | leaf e =>
      rw [hent] at hok
      have hlt := base_lt hlt' (by omega)
      simp only [Option.map_some, erase_leaf, get_leaf, (entryOk_leaf.mp hok).2.addr,
        BitVec.toNat_ofNat, Option.some.injEq, Prod.mk.injEq, and_true]
      rw [Nat.mod_eq_of_lt (lt_trans hlt (by decide)), hidx, ← div_LEVEL_SIZE, Nat.div_add_mod']
    | table c =>
      rw [hent, entryOk_table] at hok
      rw [erase_table, get_node]
      exact ih (by omega) hlt' hok hidx.symm

/-- **The hardware walk of a well-formed tree is the identity, with the flag
    bits of the erased tree.** -/
theorem translate_eq_pageBits {root : Table} {addr : Nat} (hroot : RootOk root)
    (haddr : addr < 2 ^ 48) :
    translate root addr = (pageBits root (addr / PAGE_SIZE)).map fun f => (addr, f) := by
  apply leafAt_eq_get (h := 3) (b := 0) (by decide) (by decide)
  · intro i
    rw [Nat.zero_mul, Nat.zero_add]
    exact hroot i
  · rw [Nat.div_div_eq_div_mul]
    exact Nat.div_eq_of_lt haddr

theorem page_lt {addr : Nat} (haddr : addr < 2 ^ 48) : addr / PAGE_SIZE < 512 ^ 4 := by
  rw [Nat.div_lt_iff_lt_mul (by decide)]
  exact haddr

end GovinDos.Paging
