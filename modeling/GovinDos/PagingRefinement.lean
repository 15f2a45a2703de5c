/-
  **Table surgery refines the radix-tree operations.**

  On a well-formed table the walk of `install_leaf` never trips an assertion and is
  `RadixTree.put` of the erased tree; the merge pass is `RadixTree.collapsePath`.  Both
  change one entry of the table they start from and keep it well formed.
-/
import Mathlib
import GovinDos.PagingTree

namespace GovinDos.Paging

open RadixTree Function

variable {b h addr L : Nat} {t child root : Table} {e e' : Entry} {v : Option Pte} {x x' : Effects}

/-! ## 1. Counting tables -/

def tables : Entry → Nat
  | .table t => 1 + ∑ i, tables (t i)
  | _ => 0

@[simp] theorem tables_absent : tables .absent = 0 := rfl
@[simp] theorem tables_leaf (e : Pte) : tables (.leaf e) = 0 := rfl
theorem tables_table (t : Table) : tables (.table t) = 1 + ∑ i, tables (t i) := rfl

theorem sum_tables_update (t : Table) (d : Fin 512) (e : Entry) :
    ((∑ i, tables (update t d e i) : Nat) : Int) =
      (∑ i, tables (t i) : Nat) - tables (t d) + tables e := by
  have hold := Finset.add_sum_erase Finset.univ (fun i => tables (t i)) (Finset.mem_univ d)
  have hnew := Finset.add_sum_erase Finset.univ
    (fun i => tables (update t d e i)) (Finset.mem_univ d)
  have hrest : ∑ i ∈ Finset.univ.erase d, tables (update t d e i) =
      ∑ i ∈ Finset.univ.erase d, tables (t i) := by
    refine Finset.sum_congr rfl fun i hi => ?_
    rw [update_of_ne (Finset.ne_of_mem_erase hi)]
  simp only [update_self, hrest] at hnew
  omega

theorem tables_of_entryOk_zero (he : EntryOk 0 b e) : tables e = 0 := by
  cases e with
  | absent => rfl
  | leaf e => rfl
  | table t => exact he.elim

private theorem foldl_eq_add_sum {ι : Type} {f : Nat → ι → Nat} {g : ι → Nat}
    (hf : ∀ n i, f n i = n + g i) (is : List ι) (n : Nat) :
    is.foldl f n = n + (is.map g).sum := by
  induction is generalizing n with
  | nil => rfl
  | cons i is ih =>
    rw [List.foldl_cons, ih, hf, List.map_cons, List.sum_cons, Nat.add_assoc]

theorem countTables_eq
    (ht : ∀ i : Fin 512, EntryOk h (b * 512 + i.val) (t i)) :
    countTables (h + 1) t = tables (.table t) := by
  induction h generalizing b t with
  | zero =>
    have hzero : ∀ i, tables (t i) = 0 := fun i => tables_of_entryOk_zero (ht i)
    simp [countTables, tables_table, hzero]
  | succ h ih =>
    rw [countTables, if_pos (by omega), tables_table, Fin.sum_univ_def]
    apply foldl_eq_add_sum
    intro n i
    have hi := ht i
    cases hent : t i with
    | absent => rfl
    | leaf e => rfl
    | table child =>
      rw [hent] at hi
      exact congrArg (n + ·) (ih hi)

private theorem foldl_frames {ι : Type} {f : Effects → ι → Effects} {g : ι → Nat}
    (hf : ∀ x i, f x i = { x with frames := x.frames - g i }) (is : List ι) (x : Effects) :
    is.foldl f x = { x with frames := x.frames - ((is.map g).sum : Nat) } := by
  induction is generalizing x with
  | nil => simp
  | cons i is ih =>
    rw [List.foldl_cons, ih, hf, List.map_cons, List.sum_cons]
    simp only [Effects.mk.injEq, true_and]
    omega

theorem freeTable_eq
    (ht : ∀ i : Fin 512, EntryOk h (b * 512 + i.val) (t i)) (x : Effects) :
    freeTable (h + 1) t x = { x with frames := x.frames - tables (.table t) } := by
  induction h generalizing b t x with
  | zero =>
    have hzero : ∀ i, tables (t i) = 0 := fun i => tables_of_entryOk_zero (ht i)
    simp [freeTable, ptFree, tables_table, hzero]
  | succ h ih =>
    rw [freeTable, if_pos (by omega), foldl_frames (g := fun i => tables (t i)) ?_, tables_table,
      Fin.sum_univ_def]
    · simp only [ptFree, Effects.mk.injEq, true_and]
      omega
    · intro x i
      have hi := ht i
      cases hent : t i with
      | absent => simp
      | leaf e => simp
      | table child =>
        rw [hent] at hi
        exact ih hi x

/-! ## 2. Writing leaves -/

theorem index_lt (haddr : addr < 2 ^ 48) (hh : h ≤ 4) :
    addr / PAGE_SIZE / 512 ^ h < 512 ^ (4 - h) := by
  rw [Nat.div_lt_iff_lt_mul (Nat.pow_pos (by decide)), ← Nat.pow_add, Nat.sub_add_cancel hh]
  exact page_lt haddr

theorem base_of_aligned (halign : addr % LEVEL_SIZE (h + 1) = 0) :
    addr / PAGE_SIZE / 512 ^ h * LEVEL_SIZE (h + 1) = addr := by
  rw [← div_LEVEL_SIZE, Nat.div_mul_cancel (Nat.dvd_of_mod_eq_zero halign)]

def leafPte (l addr : Nat) : Option Pte → Pte
  | none => 0
  | some f => leafWord l addr f

theorem ofWord_of_present {w : Pte} (hw : w &&& PTE_P ≠ 0) : Entry.ofWord w = .leaf w :=
  if_neg hw

theorem ofWord_leafPte (hh : h ≤ 2) (hb : b < 512 ^ (4 - h))
    (hv : ∀ f ∈ v, FlagBits f) :
    EntryOk h b (.ofWord (leafPte (h + 1) (b * LEVEL_SIZE (h + 1)) v)) ∧
      erase (.ofWord (leafPte (h + 1) (b * LEVEL_SIZE (h + 1)) v)) = ofOption v ∧
      tables (.ofWord (leafPte (h + 1) (b * LEVEL_SIZE (h + 1)) v)) = 0 := by
  cases v with
  | none =>
    have habsent : Entry.ofWord (leafPte (h + 1) (b * LEVEL_SIZE (h + 1)) none) = .absent := by
      simp [Entry.ofWord, leafPte]
    rw [habsent]
    exact ⟨entryOk_absent h b, rfl, rfl⟩
  | some f =>
    have hf := hv f rfl
    have hlt : b * LEVEL_SIZE (h + 1) < 2 ^ 52 := base_lt hb (by omega)
    have hok := leafWord_ok (l := h + 1) (base_mod_page b h) hlt hf
    rw [leafPte, ofWord_of_present hok.present]
    refine ⟨entryOk_leaf.mpr ⟨hh, hok⟩, ?_, rfl⟩
    rw [erase_leaf, pteBits_leafWord (base_mod_page b h) hlt hf]
    rfl

theorem leafPte_eq_zero (hh : h ≤ 4) (hb : b < 512 ^ (4 - h))
    (hv : ∀ f ∈ v, FlagBits f) (hzero : leafPte (h + 1) (b * LEVEL_SIZE (h + 1)) v = 0) :
    v = none := by
  cases v with
  | none => rfl
  | some f =>
    have hok := leafWord_ok (l := h + 1) (base_mod_page b h) (base_lt hb hh) (hv f rfl)
    rw [leafPte] at hzero
    exact absurd (by rw [hzero]; simp) hok.present

/-- **Splitting a leaf keeps its translation, one level down.** -/
theorem splitHuge_spec {e : Pte} (x : Effects) (hh : h ≤ 1)
    (hb : b < 512 ^ (4 - (h + 1)))
    (he : LeafOk (h + 2) (b * LEVEL_SIZE (h + 2)) e) :
    ∃ child, splitHuge e (h + 2) x = some (child, { x with frames := x.frames + 1 }) ∧
      ∀ i : Fin 512, EntryOk h (b * 512 + i.val) (child i) ∧ erase (child i) = .leaf (pteBits e) ∧
        tables (child i) = 0 := by
  have hps : (e &&& PTE_PS) ≠ 0 := he.ps.mpr (by omega)
  have hcond : (h + 2 = 2 ∨ h + 2 = 3) ∧ e &&& PTE_P ≠ 0 ∧ e &&& PTE_PS ≠ 0 :=
    ⟨by omega, he.present, hps⟩
  rw [splitHuge, if_pos hcond]
  refine ⟨_, rfl, fun i => ?_⟩
  -- the word written at `i` is the leaf word of the child's own base
  have hword : (e &&& PTE_ADDR) + BitVec.ofNat 64 (i.val * LEVEL_SIZE (h + 2 - 1)) |||
      ((e &&& ~~~PTE_ADDR) &&& ~~~PTE_PS) ||| (if h + 2 - 1 = 2 then PTE_PS else 0) =
      leafPte (h + 1) ((b * 512 + i.val) * LEVEL_SIZE (h + 1)) (some (pteBits e)) := by
    have hpsb : (if h + 2 - 1 = 2 then PTE_PS else 0) = psBit (h + 1) := by
      rcases psBit_cases (h + 1) with ⟨hp, hl⟩ | ⟨hp, hl⟩
      · rw [hp, if_pos (by omega)]
      · rw [hp, if_neg (by omega)]
    rw [he.addr, hpsb, ← BitVec.ofNat_add, leafPte, leafWord, LEVEL_SIZE_child]
    rfl
  have hflags : ∀ f ∈ some (pteBits e), FlagBits f := by
    rintro f ⟨⟩
    exact he.flagBits
  rw [hword]
  exact ofWord_leafPte (by omega) (child_index_lt hb (by omega)) hflags

/-! ## 3. Installing a leaf -/

/-- The entry `e` at index `b` and height `h` became `e'`, which stands for `r`, and the
    frames moved from `x` to `x'`. -/
structure Replaced (h b : Nat) (e e' : Entry) (r : RadixTree 512 Pte) (x x' : Effects) : Prop where
  ok : EntryOk h b e'
  erased : erase e' = r
  frames : x'.frames = x.frames - tables e + tables e'

theorem erase_update (t : Table) (d : Fin 512) (e : Entry) :
    (fun i => erase (update t d e i)) =
      update (fun i => erase (t i)) d (erase e) := by
  funext i
  by_cases hi : i = d
  · subst hi
    simp
  · simp [update_of_ne hi]

theorem entryOk_update {d : Fin 512}
    (ht : ∀ i : Fin 512, EntryOk h (b * 512 + i.val) (t i)) (he : EntryOk h (b * 512 + d.val) e) :
    ∀ i : Fin 512, EntryOk h (b * 512 + i.val) (update t d e i) := by
  intro i
  by_cases hi : i = d
  · subst hi
    rw [update_self]
    exact he
  · rw [update_of_ne hi]
    exact ht i

@[simp] theorem markDirty_frames (x : Effects) (start end_ : Nat) :
    (markDirty x start end_).frames = x.frames := rfl

theorem Replaced.table {h p n : Nat} {r : RadixTree 512 Pte}
    {x y x' : Effects}
    (hchild : ∀ i : Fin 512, EntryOk h (p / 512 ^ (h + 1) * 512 + i.val) (child i))
    (hrep : Replaced h (p / 512 ^ h) (child (digit 512 h p)) e' r y x')
    (hframes : y.frames = x.frames + n) (htables : tables (.table child) = tables e + n) :
    Replaced (h + 1) (p / 512 ^ (h + 1)) e (.table (update child (digit 512 h p) e'))
      (.node (update (fun i => erase (child i)) (digit 512 h p) r)) x x' where
  ok := entryOk_update hchild (by rw [← index_split]; exact hrep.ok)
  erased := by rw [erase_table, erase_update, hrep.erased]
  frames := by
    have hsum := sum_tables_update child (digit 512 h p) e'
    have hrepf := hrep.frames
    rw [tables_table] at htables ⊢
    push_cast at hsum ⊢
    push_cast [← @Nat.cast_inj Int] at htables
    omega

theorem installTable_target
    (hL : L ≤ 2) (haddr : addr < 2 ^ 48) (halign : addr % LEVEL_SIZE (L + 1) = 0)
    (hv : ∀ f ∈ v, FlagBits f)
    (hslot : EntryOk L (addr / PAGE_SIZE / 512 ^ L) (t (digit 512 L (addr / PAGE_SIZE)))) :
    ∃ e' x', installTable addr (L + 1) (leafPte (L + 1) addr v) (L + 1) t x =
        some (update t (digit 512 L (addr / PAGE_SIZE)) e', x') ∧
      Replaced L (addr / PAGE_SIZE / 512 ^ L) (t (digit 512 L (addr / PAGE_SIZE))) e'
        (ofOption v) x x' := by
  obtain ⟨hok, herase, htab⟩ :=
    ofWord_leafPte hL (index_lt (h := L) haddr (by omega)) hv
  rw [base_of_aligned halign] at hok herase htab
  rw [installTable, if_pos rfl, levelIdx_eq_digit]
  refine ⟨_, _, rfl, hok, herase, ?_⟩
  rw [htab]
  cases hent : t (digit 512 L (addr / PAGE_SIZE)) with
  | absent => simp
  | leaf e => simp
  | table child =>
    rw [hent] at hslot
    cases L with
    | zero => exact hslot.elim
    | succ L =>
      simp only [if_pos (show L + 1 + 1 > 1 by omega), Nat.add_sub_cancel]
      rw [freeTable_eq hslot, Nat.cast_zero, Int.add_zero]

/-- **The walk of `install_leaf` is `put`.**  From a table of level `h + 1` it
    replaces one entry. -/
theorem installTable_spec
    (hL : L ≤ 2) (hLh : L ≤ h) (hh : h ≤ 3) (haddr : addr < 2 ^ 48)
    (halign : addr % LEVEL_SIZE (L + 1) = 0) (hv : ∀ f ∈ v, FlagBits f)
    (hslot : EntryOk h (addr / PAGE_SIZE / 512 ^ h) (t (digit 512 h (addr / PAGE_SIZE)))) :
    ∃ e' x', installTable addr (L + 1) (leafPte (L + 1) addr v) (h + 1) t x =
        some (update t (digit 512 h (addr / PAGE_SIZE)) e', x') ∧
      Replaced h (addr / PAGE_SIZE / 512 ^ h) (t (digit 512 h (addr / PAGE_SIZE))) e'
        (put L (addr / PAGE_SIZE) v h (erase (t (digit 512 h (addr / PAGE_SIZE))))) x x' := by
  induction h generalizing t x with
  | zero =>
    obtain rfl : L = 0 := by omega
    rw [put_self]
    exact installTable_target hL haddr halign hv hslot
  | succ h ih =>
    by_cases htarget : L = h + 1
    · subst htarget
      rw [put_self]
      exact installTable_target hL haddr halign hv hslot
    have hLh' : L ≤ h := by omega
    -- below a child table the induction hypothesis replaces one entry of it
    have hdown : ∀ (child : Table) (y : Effects) (n : Nat),
        (∀ i : Fin 512, EntryOk h (addr / PAGE_SIZE / 512 ^ (h + 1) * 512 + i.val) (child i)) →
        y.frames = x.frames + n →
        tables (.table child) = tables (t (digit 512 (h + 1) (addr / PAGE_SIZE))) + n →
        put L (addr / PAGE_SIZE) v (h + 1) (erase (t (digit 512 (h + 1) (addr / PAGE_SIZE)))) =
          .node (update (fun i => erase (child i)) (digit 512 h (addr / PAGE_SIZE))
            (put L (addr / PAGE_SIZE) v h (erase (child (digit 512 h (addr / PAGE_SIZE)))))) →
        ∃ e' x', (installTable addr (L + 1) (leafPte (L + 1) addr v) (h + 1) child y).map
            (fun c => (update t (digit 512 (h + 1) (addr / PAGE_SIZE)) (.table c.1), c.2)) =
            some (update t (digit 512 (h + 1) (addr / PAGE_SIZE)) e', x') ∧
          Replaced (h + 1) (addr / PAGE_SIZE / 512 ^ (h + 1))
            (t (digit 512 (h + 1) (addr / PAGE_SIZE))) e'
            (put L (addr / PAGE_SIZE) v (h + 1)
              (erase (t (digit 512 (h + 1) (addr / PAGE_SIZE))))) x x' := by
      intro child y n hchild hy hn hput
      have hpath := hchild (digit 512 h (addr / PAGE_SIZE))
      rw [← index_split] at hpath
      obtain ⟨e', x', hrun, hrep⟩ := ih (t := child) (x := y) hLh' (by omega) hpath
      rw [hrun, hput]
      exact ⟨_, x', rfl, hrep.table hchild hy hn⟩
    rw [installTable, if_neg (by omega), levelIdx_eq_digit]
    cases hent : t (digit 512 (h + 1) (addr / PAGE_SIZE)) with
    | absent =>
      rw [hent] at hdown hslot
      by_cases hzero : leafPte (L + 1) addr v = 0
      · -- nothing to clear: no table is made
        have hnone : v = none := by
          rw [← base_of_aligned halign] at hzero
          exact leafPte_eq_zero (by omega) (index_lt haddr (by omega)) hv hzero
        refine ⟨.absent, x, ?_, entryOk_absent _ _, ?_, by simp⟩
        · have hself : update t (digit 512 (h + 1) (addr / PAGE_SIZE)) .absent = t := by
            rw [← hent, update_eq_self]
          rw [hself]
          simp [hzero]
        · rw [hnone, erase_absent, put_absent_none hLh]
      · obtain ⟨f, rfl⟩ : ∃ f, v = some f := by
          cases v with
          | none => exact absurd rfl hzero
          | some f => exact ⟨f, rfl⟩
        simp only [hzero, if_false, ptAlloc]
        exact hdown (fun _ => .absent) { x with frames := x.frames + 1 } 1
          (fun _ => entryOk_absent _ _) (by simp) (by simp [tables_table]) (put_absent_some f hLh')
    | leaf e =>
      rw [hent, entryOk_leaf] at hslot
      obtain ⟨h2, hleaf⟩ := hslot
      obtain ⟨child, hsplit, hchild⟩ :=
        splitHuge_spec x (by omega) (index_lt haddr (by omega)) hleaf
      rw [hent] at hdown
      simp only [hsplit, Option.bind_some]
      refine hdown child _ 1 (fun i => (hchild i).1) (by rw [markDirty_frames]; simp) ?_ ?_
      · simp [tables_table, fun i => (hchild i).2.2]
      · simp only [erase_leaf, put_leaf v _ hLh', (hchild _).2.1]
    | table child =>
      rw [hent] at hdown hslot
      exact hdown child x 0 hslot (by simp) (Nat.add_zero _).symm (put_node v _ hLh')

/-! ## 4. Merging -/

def mergeable (child_level : Nat) (first : Pte) (i : Fin 512) : Entry → Bool
  | .leaf e =>
    !decide ((child_level ≥ 2 ∧ e &&& PTE_PS = 0) ∨
      e &&& ~~~PTE_ADDR ≠ first &&& ~~~PTE_ADDR ∨
      e &&& PTE_ADDR ≠ (first &&& PTE_ADDR) + BitVec.ofNat 64 (i.val * LEVEL_SIZE child_level))
  | _ => false

theorem scanEntry_eq (child_level : Nat) (first : Pte) (i : Fin 512) (c : Entry)
    (s : Bool × Bool) :
    scanEntry child_level first i c s =
      (s.1 && (erase c).isAbsent, s.2 && mergeable child_level first i c) := by
  cases c with
  | absent | table t => simp [scanEntry, mergeable, isAbsent]
  | leaf e =>
    simp only [scanEntry, mergeable, erase_leaf, isAbsent, Bool.and_false, Prod.mk.injEq, true_and]
    split
    · rename_i hstop
      simp only [decide_eq_true hstop, Bool.not_true, Bool.and_false]
    · rename_i hgo
      simp only [decide_eq_false hgo, Bool.not_false, Bool.and_true]

theorem scanChild_eq (child_level : Nat) (first : Pte) (child : Table) (is : List (Fin 512))
    (s : Bool × Bool) :
    scanChild child_level first child is s =
      (s.1 && is.all fun i => (erase (child i)).isAbsent,
        s.2 && is.all fun i => mergeable child_level first i (child i)) := by
  induction is generalizing s with
  | nil => simp [scanChild]
  | cons i is ih =>
    rw [scanChild]
    split
    · rw [ih, scanEntry_eq]
      simp [Bool.and_assoc]
    · rename_i hstop
      obtain ⟨s1, s2⟩ := s
      simp only [Bool.or_eq_true, not_or, Bool.not_eq_true] at hstop
      simp [hstop.1, hstop.2]

theorem leafWord_and_notAddr {l base : Nat} {f : Pte} (halign : base % PAGE_SIZE = 0)
    (hlt : base < 2 ^ 52) : leafWord l base f &&& ~~~PTE_ADDR = (f ||| psBit l) &&& ~~~PTE_ADDR := by
  rw [leafWord, BitVec.and_or_distrib_right, BitVec.and_or_distrib_right,
    ofNat_and_mask halign hlt (by decide), BitVec.and_or_distrib_right]
  simp

theorem mergeable_iff {i : Fin 512} {v : Pte}
    (hh : h ≤ 2) (hb : b < 512 ^ (4 - (h + 1)))
    (hi : EntryOk h (b * 512 + i.val) (child i)) (hv : FlagBits v) :
    mergeable (h + 1) (leafWord (h + 1) (b * LEVEL_SIZE (h + 2)) v) i (child i) = true ↔
      erase (child i) = .leaf v := by
  have hbase : b * LEVEL_SIZE (h + 2) < 2 ^ 52 := base_lt hb (by omega)
  have hbi : (b * 512 + i.val) * LEVEL_SIZE (h + 1) < 2 ^ 52 :=
    base_lt (child_index_lt hb (by omega)) (by omega)
  cases hent : child i with
  | absent => simp [mergeable]
  | table t => simp [mergeable]
  | leaf e =>
    rw [hent, entryOk_leaf] at hi
    have hleaf := hi.2
    simp only [mergeable, erase_leaf, RadixTree.leaf.injEq, Bool.not_eq_true', decide_eq_false_iff_not,
      not_or, not_and, not_not]
    constructor
    · rintro ⟨-, hflags, -⟩
      rw [pteBits, hflags]
      exact pteBits_leafWord (base_mod_page b (h + 1)) hbase hv
    · rintro rfl
      refine ⟨fun hl => hleaf.ps.mpr hl, ?_, ?_⟩
      · rw [leafWord_and_notAddr (base_mod_page b (h + 1)) hbase]
        nth_rewrite 1 [hleaf.eq_leafWord]
        rw [leafWord_and_notAddr (base_mod_page _ h) hbi]
      · rw [leafWord_and_addr (base_mod_page b (h + 1)) hbase hv, hleaf.addr, LEVEL_SIZE_child,
          BitVec.ofNat_add]

theorem mergedWord_eq {v : Pte} (hh : h ≤ 1) (hb : b < 512 ^ (4 - (h + 1)))
    (hv : FlagBits v) :
    BitVec.ofNat 64 (b * LEVEL_SIZE (h + 2)) |||
        (leafWord (h + 1) (b * LEVEL_SIZE (h + 2)) v &&& ~~~PTE_ADDR) ||| PTE_PS =
      leafWord (h + 2) (b * LEVEL_SIZE (h + 2)) v := by
  have hbase : b * LEVEL_SIZE (h + 2) < 2 ^ 52 := base_lt hb (by omega)
  have hkeep : v &&& ~~~PTE_ADDR = v := by
    have hsplit := word_split v
    rw [hv.noAddr, hv.noPs, pteBits] at hsplit
    have hsub : (v &&& ~~~PTE_ADDR) &&& ~~~PTE_PS = v := by simpa using hsplit.symm
    nth_rewrite 1 [← hsub]
    rw [BitVec.and_assoc, BitVec.and_comm (~~~PTE_PS), ← BitVec.and_assoc, BitVec.and_assoc v,
      BitVec.and_self]
    exact hsub
  have hps : psBit (h + 1) &&& ~~~PTE_ADDR ||| PTE_PS = PTE_PS := by
    rcases psBit_cases (h + 1) with ⟨hp, -⟩ | ⟨hp, -⟩ <;> rw [hp] <;> decide
  rw [leafWord_and_notAddr (base_mod_page b (h + 1)) hbase, BitVec.and_or_distrib_right, hkeep,
    BitVec.or_assoc, BitVec.or_assoc, hps, ← BitVec.or_assoc, leafWord, psBit, if_pos (by omega)]

theorem base_and_levelMask (hb : b < 512 ^ (4 - h)) (hh : h ≤ 4) :
    BitVec.ofNat 64 (b * LEVEL_SIZE (h + 1)) &&& BitVec.ofNat 64 (LEVEL_SIZE (h + 1) - 1) = 0 := by
  have hpow : LEVEL_SIZE (h + 1) = 2 ^ (12 + 9 * h) := by
    rw [LEVEL_SIZE_succ, Nat.pow_add, Nat.pow_mul]
    rfl
  have hlt := base_lt hb hh
  have hsize : LEVEL_SIZE (h + 1) ≤ 2 ^ 48 := by
    rw [hpow]
    exact Nat.pow_le_pow_right (by decide) (by omega)
  apply BitVec.eq_of_toNat_eq
  rw [BitVec.toNat_and, BitVec.toNat_ofNat, BitVec.toNat_ofNat, Nat.mod_eq_of_lt (by omega),
    Nat.mod_eq_of_lt (by omega), hpow, Nat.and_two_pow_sub_one_eq_mod, Nat.mul_mod_left]
  rfl

theorem word_of_erase_leaf {v : Pte} (he : EntryOk h (b * 512) e)
    (hv : erase e = .leaf v) :
    e.word = leafWord (h + 1) (b * LEVEL_SIZE (h + 2)) v ∧ FlagBits v := by
  cases e with
  | absent => cases hv
  | table t => cases hv
  | leaf w =>
    rw [erase_leaf, RadixTree.leaf.injEq] at hv
    have hleaf := (entryOk_leaf.mp he).2
    have hbase := LEVEL_SIZE_child b h 0
    rw [Nat.add_zero, Nat.zero_mul, Nat.add_zero] at hbase
    rw [hbase] at hleaf
    subst hv
    exact ⟨hleaf.eq_leafWord, hleaf.flagBits⟩

theorem tables_of_erase (he : ∀ c, erase e ≠ .node c) : tables e = 0 := by
  cases e with
  | absent => rfl
  | leaf e => rfl
  | table t => exact absurd rfl (he _)

/-- **`try_merge_child` is `collapse`.** -/
theorem tryMergeChild_spec {parent child : Table} (x : Effects) (hh : h ≤ 2)
    (haddr : addr < 2 ^ 48) (hent : parent (digit 512 (h + 1) (addr / PAGE_SIZE)) = .table child)
    (hchild : ∀ i : Fin 512,
      EntryOk h (addr / PAGE_SIZE / 512 ^ (h + 1) * 512 + i.val) (child i)) :
    ∃ merged e' x', tryMergeChild x parent (h + 2) addr =
        (merged, update parent (digit 512 (h + 1) (addr / PAGE_SIZE)) e', x') ∧
      Replaced (h + 1) (addr / PAGE_SIZE / 512 ^ (h + 1)) (.table child) e'
        (collapse 2 (h + 1) fun i => erase (child i)) x x' ∧
      (merged = true ↔ ∀ c, e' ≠ .table c) := by
  generalize hb : addr / PAGE_SIZE / 512 ^ (h + 1) = b at hchild ⊢
  have hblt : b < 512 ^ (4 - (h + 1)) := hb ▸ index_lt haddr (by omega)
  have hchild0 : EntryOk h (b * 512) (child 0) := by simpa using hchild 0
  rw [tryMergeChild, levelIdx_eq_digit, hent]
  simp only [scanChild_eq, Bool.true_and, List.all_eq_true, List.mem_finRange, true_implies,
    show h + 2 - 1 = h + 1 from rfl]
  rcases collapse_cases 2 (h + 1) (fun i => erase (child i)) with
    ⟨habs, hcol⟩ | ⟨v, hM, hv, hcol⟩ | ⟨hnot, hcol⟩
  · -- all 512 entries absent
    have hscan : ∀ i, (erase (child i)).isAbsent = true := fun i => isAbsent_iff.mpr (habs i)
    have htab : ∀ i, tables (child i) = 0 := fun i => tables_of_erase (by simp [habs i])
    rw [if_pos hscan]
    refine ⟨_, _, _, rfl, ⟨entryOk_absent _ _, by rw [hcol]; rfl, ?_⟩, by simp⟩
    simp [tables_table, htab, ptFree]
  · -- 512 leaves with one flag set
    have hscan : ¬ ∀ i, (erase (child i)).isAbsent = true := by
      intro hall
      have h0 := hall 0
      rw [hv 0] at h0
      cases h0
    obtain ⟨hword, hflags⟩ := word_of_erase_leaf hchild0 (hv 0)
    have hall : ∀ i, mergeable (h + 1) (child 0).word i (child i) = true := by
      intro i
      rw [hword]
      exact (mergeable_iff hh hblt (hchild i) hflags).mpr (hv i)
    have hbase : (child 0).word &&& PTE_ADDR = BitVec.ofNat 64 (b * LEVEL_SIZE (h + 2)) := by
      rw [hword, leafWord_and_addr (base_mod_page b (h + 1)) (base_lt hblt (by omega)) hflags]
    have htab : ∀ i, tables (child i) = 0 := fun i => tables_of_erase (by simp [hv i])
    obtain ⟨hok, herase, hzero⟩ := ofWord_leafPte (v := some v) hM hblt (by
      rintro f ⟨⟩
      exact hflags)
    rw [if_neg hscan, if_pos ⟨hall, by omega⟩, hbase, if_neg (not_not.mpr
      (base_and_levelMask hblt (by omega))), hword, mergedWord_eq (by omega) hblt hflags]
    refine ⟨_, _, _, rfl, ⟨hok, by rw [hcol]; exact herase, ?_⟩, ?_⟩
    · have hz : tables (Entry.ofWord (leafWord (h + 2) (b * LEVEL_SIZE (h + 2)) v)) = 0 := hzero
      simp [tables_table, htab, hz, ptFree]
    · have hpres := leafWord_ok (l := h + 2) (base_mod_page b (h + 1))
        (base_lt hblt (by omega)) hflags
      rw [ofWord_of_present hpres.present]
      simp
  · -- a mixed table stays
    have hself : update parent (digit 512 (h + 1) (addr / PAGE_SIZE)) (.table child) =
        parent := by
      rw [← hent, update_eq_self]
    have hscan : ¬ ∀ i, (erase (child i)).isAbsent = true :=
      fun hall => hnot (Or.inl fun i => isAbsent_iff.mp (hall i))
    have hstay : ¬ ((∀ i, mergeable (h + 1) (child 0).word i (child i) = true) ∧ h + 2 ≤ 3) := by
      rintro ⟨hall, hM⟩
      obtain ⟨v, hv⟩ : ∃ v, erase (child 0) = .leaf v := by
        have h0 := hall 0
        cases hc : child 0 with
        | absent | table t => simp [hc, mergeable] at h0
        | leaf e => exact ⟨_, rfl⟩
      obtain ⟨hword, hflags⟩ := word_of_erase_leaf hchild0 hv
      refine hnot (Or.inr ⟨by omega, v, fun i => ?_⟩)
      have hi := hall i
      rw [hword] at hi
      exact (mergeable_iff hh hblt (hchild i) hflags).mp hi
    rw [if_neg hscan, if_neg hstay]
    refine ⟨false, .table child, x, by rw [hself], ⟨hchild, hcol.symm, ?_⟩, by simp⟩
    omega

structure PathMerged (addr h : Nat) (t : Table) (x : Effects) (merged : Bool) (e' : Entry)
    (x' : Effects) : Prop where
  run : mergePath addr (h + 1) t x =
    (merged, Function.update t (digit 512 h (addr / PAGE_SIZE)) e', x')
  replaced : Replaced h (addr / PAGE_SIZE / 512 ^ h) (t (digit 512 h (addr / PAGE_SIZE))) e'
    (collapsePath 2 (addr / PAGE_SIZE) h (erase (t (digit 512 h (addr / PAGE_SIZE))))) x x'
  merged_iff : merged = true ↔ ∀ c, e' ≠ .table c

theorem pathMerged_stay
    (hslot : EntryOk h (addr / PAGE_SIZE / 512 ^ h) (t (digit 512 h (addr / PAGE_SIZE))))
    (hent : t (digit 512 h (addr / PAGE_SIZE)) = e) (hne : ∀ c, e ≠ .table c) :
    PathMerged addr h t x true e x where
  run := by
    rw [← hent, update_eq_self, mergePath, levelIdx_eq_digit, hent]
    cases e with
    | absent => rfl
    | leaf e => rfl
    | table c => exact absurd rfl (hne c)
  replaced := by
    refine ⟨hent ▸ hslot, ?_, by rw [hent]; omega⟩
    rw [hent]
    cases e with
    | absent => simp
    | leaf e => simp
    | table c => exact absurd rfl (hne c)
  merged_iff := by simpa using hne

/-- **`try_merge_path` is `collapsePath`.** -/
theorem mergePath_spec (hh : h ≤ 3)
    (haddr : addr < 2 ^ 48)
    (hslot : EntryOk h (addr / PAGE_SIZE / 512 ^ h) (t (digit 512 h (addr / PAGE_SIZE)))) :
    ∃ merged e' x', PathMerged addr h t x merged e' x' := by
  induction h generalizing t x with
  | zero =>
    cases hent : t (digit 512 0 (addr / PAGE_SIZE)) with
    | absent | leaf e => exact ⟨true, _, x, pathMerged_stay hslot hent (by simp)⟩
    | table child =>
      rw [hent] at hslot
      exact hslot.elim
  | succ h ih =>
    cases hent : t (digit 512 (h + 1) (addr / PAGE_SIZE)) with
    | absent | leaf e => exact ⟨true, _, x, pathMerged_stay hslot hent (by simp)⟩
    | table child =>
      have hchild := hslot
      rw [hent, entryOk_table] at hchild
      have hpath := hchild (digit 512 h (addr / PAGE_SIZE))
      rw [← index_split] at hpath
      obtain ⟨merged, e', x', hrun, hrep, hmerged⟩ := ih (t := child) (x := x) (by omega) hpath
      have hlift := hrep.table (n := 0) (x := x) hchild (by simp) (Nat.add_zero _).symm
      have hstep : mergePath addr (h + 1 + 1) t x =
          if merged then
            tryMergeChild x' (update t (digit 512 (h + 1) (addr / PAGE_SIZE))
              (.table (update child (digit 512 h (addr / PAGE_SIZE)) e'))) (h + 2) addr
          else (false, update t (digit 512 (h + 1) (addr / PAGE_SIZE))
            (.table (update child (digit 512 h (addr / PAGE_SIZE)) e')), x') := by
        rw [mergePath, levelIdx_eq_digit, hent]
        simp only [hrun, if_pos (show h + 1 + 1 ≥ 2 by omega)]
      by_cases hm : merged = true
      · -- the entry below is no table any more: this slot may merge too
        have hne : ∀ c, collapsePath 2 (addr / PAGE_SIZE) h
            (erase (child (digit 512 h (addr / PAGE_SIZE)))) ≠ .node c := by
          intro c hc
          rw [← hrep.erased] at hc
          cases e' with
          | absent => cases hc
          | leaf e => cases hc
          | table d => exact hmerged.mp hm d rfl
        obtain ⟨merged', e'', x'', hrun', hrep', hmerged'⟩ :=
          tryMergeChild_spec (h := h) x' (by omega) haddr
            (update_self _ _ _) (entryOk_table.mp hlift.ok)
        refine ⟨merged', e'', x'', ?_, ?_, hmerged'⟩
        · rw [hstep, if_pos hm, hrun', update_idem]
        · refine ⟨hrep'.ok, ?_, ?_⟩
          · rw [hrep'.erased, hent, erase_table, collapsePath_node_of_ne hne, erase_update,
              hrep.erased]
          · rw [hrep'.frames, hlift.frames, hent]
            omega
      · -- the pass stopped below
        obtain ⟨d, rfl⟩ : ∃ d, e' = .table d := by
          by_contra hno
          exact hm (hmerged.mpr fun c hc => hno ⟨c, hc⟩)
        refine ⟨false, .table (update child (digit 512 h (addr / PAGE_SIZE)) (.table d)),
          x', ?_, ?_, by simp⟩
        · rw [hstep, if_neg hm]
        · have hnode := hrep.erased.symm
          rw [erase_table] at hnode
          refine ⟨hlift.ok, ?_, by rw [hent]; exact hlift.frames⟩
          rw [hlift.erased, hent, erase_table, collapsePath_node_of_node hnode, ← hnode]

/-! ## 5. Whole address spaces -/

def leaked (as : AddressSpace) : Int := as.frames - asTableCount as

def forest (root : Table) : Fin 512 → RadixTree 512 Pte := fun i => erase (root i)

theorem rootOk_iff :
    RootOk root ↔ ∀ i : Fin 512, EntryOk 3 (0 * 512 + i.val) (root i) := by
  simp only [RootOk, Nat.zero_mul, Nat.zero_add]

theorem asTableCount_eq {as : AddressSpace} (hroot : RootOk as.root) :
    asTableCount as = tables (.table as.root) :=
  countTables_eq (rootOk_iff.mp hroot)

theorem rootOk_slot (hroot : RootOk root) (haddr : addr < 2 ^ 48) :
    addr / PAGE_SIZE / 512 ^ 3 = (digit 512 3 (addr / PAGE_SIZE)).val ∧
      EntryOk 3 (addr / PAGE_SIZE / 512 ^ 3) (root (digit 512 3 (addr / PAGE_SIZE))) := by
  have hidx : addr / PAGE_SIZE / 512 ^ 3 = (digit 512 3 (addr / PAGE_SIZE)).val := by
    rw [index_split 3, Nat.div_eq_of_lt (page_lt haddr), Nat.zero_mul, Nat.zero_add]
  exact ⟨hidx, hidx ▸ hroot _⟩

/-- `as` became `as'`, a well-formed tree that stands for `f`, and no frame was
    leaked on the way. -/
structure Rewritten (as as' : AddressSpace) (f : Fin 512 → RadixTree 512 Pte) : Prop where
  root : RootOk as'.root
  forest : forest as'.root = f
  leaked : leaked as' = leaked as
  pins : as'.pins = as.pins

theorem Replaced.rewritten {as : AddressSpace}
    {r : RadixTree 512 Pte} (hroot : RootOk as.root) (haddr : addr < 2 ^ 48)
    (hrep : Replaced 3 (addr / PAGE_SIZE / 512 ^ 3) (as.root (digit 512 3 (addr / PAGE_SIZE))) e' r
      as.toEffects x') :
    Rewritten as
      { as with
        toEffects := x', root := update as.root (digit 512 3 (addr / PAGE_SIZE)) e' }
      (update (Paging.forest as.root) (digit 512 3 (addr / PAGE_SIZE)) r) := by
  have hroot' : RootOk (update as.root (digit 512 3 (addr / PAGE_SIZE)) e') := by
    rw [rootOk_iff]
    apply entryOk_update (rootOk_iff.mp hroot)
    rw [Nat.zero_mul, Nat.zero_add, ← (rootOk_slot hroot haddr).1]
    exact hrep.ok
  refine ⟨hroot', ?_, ?_, rfl⟩
  · have hupd := erase_update as.root (digit 512 3 (addr / PAGE_SIZE)) e'
    rw [hrep.erased] at hupd
    exact hupd
  · have hsum := sum_tables_update as.root (digit 512 3 (addr / PAGE_SIZE)) e'
    have hframes := hrep.frames
    rw [Paging.leaked, Paging.leaked, asTableCount_eq hroot, tables_table, asTableCount_eq hroot',
      tables_table]
    push_cast at hsum ⊢
    omega

theorem installLeaf_spec {as : AddressSpace}
    (hroot : RootOk as.root) (hL : L ≤ 2) (haddr : addr < 2 ^ 48)
    (halign : addr % LEVEL_SIZE (L + 1) = 0) (hv : ∀ f ∈ v, FlagBits f) :
    ∃ as', installLeaf as addr (L + 1) (leafPte (L + 1) addr v) = some as' ∧
      Rewritten as as' (update (forest as.root) (digit 512 3 (addr / PAGE_SIZE))
        (put L (addr / PAGE_SIZE) v 3 (forest as.root (digit 512 3 (addr / PAGE_SIZE))))) := by
  obtain ⟨e', x', hrun, hrep⟩ := installTable_spec (t := as.root) (x := as.toEffects) hL
    (by omega) (Nat.le_refl 3) haddr halign hv (rootOk_slot hroot haddr).2
  rw [installLeaf, if_pos ⟨by omega, by omega, halign⟩, hrun]
  exact ⟨_, rfl, hrep.rewritten hroot haddr⟩

theorem tryMergePath_spec (as : AddressSpace) (addr : Nat) (hroot : RootOk as.root)
    (haddr : addr < 2 ^ 48) :
    Rewritten as (tryMergePath as addr)
      (update (forest as.root) (digit 512 3 (addr / PAGE_SIZE))
        (collapsePath 2 (addr / PAGE_SIZE) 3
          (forest as.root (digit 512 3 (addr / PAGE_SIZE))))) := by
  obtain ⟨merged, e', x', hrun, hrep, -⟩ := mergePath_spec (t := as.root) (x := as.toEffects)
    (Nat.le_refl 3) haddr (rootOk_slot hroot haddr).2
  rw [tryMergePath, hrun]
  exact hrep.rewritten hroot haddr

end GovinDos.Paging
