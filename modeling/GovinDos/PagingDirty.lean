/-
  **The dirty range of an address space (`kernel/archsrc/x86_64/paging.c`).**

  Table surgery marks ranges dirty and only `as_flush_multi` clears them, so through
  `as_flag` the range can only grow.  Its lower end stays page-aligned, which is what the
  `invlpg` loop of a flush starts from.  A change of a leaf is below a slot that was split or
  merged, or it is the leaf that was asked for.  The walk only looks at 48 bits of an
  address, and the mark does not: the two agree on canonical addresses.
-/
import GovinDos.Lib.Run
import GovinDos.PagingRefinement

namespace GovinDos.Paging

def Effects.Aligned (x : Effects) : Prop := x.min_dirty = DIRTY_EMPTY_MIN ∨ PAGE_SIZE ∣ x.min_dirty

def Effects.Covers (x : Effects) (lo hi : Nat) : Prop := x.min_dirty ≤ lo ∧ hi ≤ x.max_dirty

structure Widens (x x' : Effects) : Prop where
  min_le : x'.min_dirty ≤ x.min_dirty
  le_max : x.max_dirty ≤ x'.max_dirty
  aligned : x.Aligned → x'.Aligned

namespace Widens

theorem refl (x : Effects) : Widens x x := ⟨le_rfl, le_rfl, id⟩

theorem trans {x y z : Effects} (h : Widens x y) (h' : Widens y z) : Widens x z where
  min_le := le_trans h'.min_le h.min_le
  le_max := le_trans h.le_max h'.le_max
  aligned hx := h'.aligned (h.aligned hx)

theorem covers {x x' : Effects} {lo hi : Nat} (h : Widens x x') (hc : x.Covers lo hi) :
    x'.Covers lo hi :=
  ⟨le_trans h.min_le hc.1, le_trans hc.2 h.le_max⟩

end Widens

/-! ## 1. Surgery only widens -/

theorem markDirty_covers (x : Effects) (start end_ : Nat) :
    (markDirty x start end_).Covers start end_ := by
  simp only [Effects.Covers, markDirty]
  constructor <;> split <;> omega

theorem markDirty_widens (x : Effects) {start : Nat} (end_ : Nat) (h : PAGE_SIZE ∣ start) :
    Widens x (markDirty x start end_) where
  min_le := by
    simp only [markDirty]
    split <;> omega
  le_max := by
    simp only [markDirty]
    split <;> omega
  aligned hx := by
    simp only [Effects.Aligned, markDirty]
    split
    · exact .inr h
    · exact hx

theorem page_dvd_span (addr l : Nat) :
    PAGE_SIZE ∣ addr / LEVEL_SIZE (l + 1) * LEVEL_SIZE (l + 1) :=
  Nat.dvd_mul_left_of_dvd (Nat.dvd_mul_right _ _) _

theorem ptFree_widens (x : Effects) : Widens x (ptFree x) := ⟨le_rfl, le_rfl, id⟩

theorem ptAlloc_widens (x : Effects) : Widens x (ptAlloc x).2 := ⟨le_rfl, le_rfl, id⟩

theorem freeTable_widens (l : Nat) (table : Table) (x : Effects) :
    Widens x (freeTable l table x) := by
  induction l generalizing table x with
  | zero => exact ptFree_widens x
  | succ l ih =>
    rw [freeTable]
    refine Widens.trans ?_ (ptFree_widens _)
    split
    · -- the loop over the entries
      refine List.foldlRecOn (motive := Widens x) _ _ (Widens.refl x) fun y hy i _ => ?_
      split
      · exact hy.trans (ih _ y)
      · exact hy
    · exact Widens.refl x

theorem splitHuge_widens {huge : Pte} {level : Nat} {x x' : Effects} {t : Table}
    (h : splitHuge huge level x = some (t, x')) : Widens x x' := by
  simp only [splitHuge] at h
  split at h
  · cases h
    exact ptAlloc_widens x
  · cases h

theorem installTable_widens {addr level : Nat} {leaf_pte : Pte} {l : Nat} {table table' : Table}
    {x x' : Effects} (h : installTable addr level leaf_pte l table x = some (table', x')) :
    Widens x x' := by
  induction l generalizing table table' x x' with
  | zero => cases h
  | succ l ih =>
    rw [installTable] at h
    split at h
    · -- the target slot
      cases h
      split
      · split
        · exact freeTable_widens _ _ x
        · exact Widens.refl x
      · exact Widens.refl x
    · split at h
      · split at h
        · cases h
          exact Widens.refl x
        · obtain ⟨⟨child, y⟩, hchild, hy⟩ := Option.map_eq_some_iff.mp h
          cases hy
          exact (ptAlloc_widens x).trans (ih hchild)
      · obtain ⟨⟨child, y⟩, hsplit, hrest⟩ := Option.bind_eq_some_iff.mp h
        obtain ⟨⟨child', y'⟩, hchild, hy'⟩ := Option.map_eq_some_iff.mp hrest
        cases hy'
        exact ((splitHuge_widens hsplit).trans
          (markDirty_widens y _ (page_dvd_span addr l))).trans (ih hchild)
      · obtain ⟨⟨child, y⟩, hchild, hy⟩ := Option.map_eq_some_iff.mp h
        cases hy
        exact ih hchild

theorem installLeaf_widens {as as' : AddressSpace} {addr level : Nat} {leaf_pte : Pte}
    (h : installLeaf as addr level leaf_pte = some as') : Widens as.toEffects as'.toEffects := by
  rw [installLeaf] at h
  split at h
  · obtain ⟨⟨root, x⟩, hinstall, rfl⟩ := Option.map_eq_some_iff.mp h
    exact installTable_widens hinstall
  · cases h

theorem flagLoop_widens {leaf_base : Pte} {end_ a : Nat} {as as' : AddressSpace}
    (h : flagLoop leaf_base end_ a as = some as') : Widens as.toEffects as'.toEffects := by
  fun_induction flagLoop leaf_base end_ a as with
  | case1 a as _ _ _ _ ih =>
    obtain ⟨as₁, hinstall, hrest⟩ := Option.bind_eq_some_iff.mp h
    exact (installLeaf_widens hinstall).trans (ih _ hrest)
  | case2 a as _ _ _ _ _ ih =>
    obtain ⟨as₁, hinstall, hrest⟩ := Option.bind_eq_some_iff.mp h
    exact (installLeaf_widens hinstall).trans (ih _ hrest)
  | case3 a as _ _ _ _ _ ih =>
    obtain ⟨as₁, hinstall, hrest⟩ := Option.bind_eq_some_iff.mp h
    exact (installLeaf_widens hinstall).trans (ih _ hrest)
  | case4 a as =>
    cases h
    exact Widens.refl _

theorem tryMergeChild_widens (x : Effects) (parent : Table) (l addr : Nat) :
    Widens x (tryMergeChild x parent (l + 1) addr).2.2 := by
  have hmark := (ptFree_widens x).trans (markDirty_widens (ptFree x)
    ((addr / LEVEL_SIZE (l + 1) * LEVEL_SIZE (l + 1) + LEVEL_SIZE (l + 1)) % 2 ^ 64)
    (page_dvd_span addr l))
  simp only [tryMergeChild]
  split
  · split
    · exact hmark
    · split
      · split
        · exact Widens.refl x
        · exact hmark
      · exact Widens.refl x
  · exact Widens.refl x

theorem mergePath_widens (addr l : Nat) (table : Table) (x : Effects) :
    Widens x (mergePath addr l table x).2.2 := by
  induction l generalizing table x with
  | zero => exact Widens.refl x
  | succ l ih =>
    rw [mergePath]
    split
    · split
      · rename_i child _ _
        have hbelow := ih child x
        simp only
        split
        · exact hbelow.trans (tryMergeChild_widens _ _ l addr)
        · exact hbelow
      · exact Widens.refl x
    · exact Widens.refl x

/-! ## 2. `as_flag` -/

section

variable {as as' : AddressSpace} {addr end_ : Nat} {flags : PagingFlags}

theorem asFlag_dirty (h : asFlag as addr end_ flags = some as') (hlt : addr < end_) :
    PAGE_SIZE ∣ addr ∧ ∃ x, Widens as.toEffects x ∧
      Widens (markDirty x addr end_) as'.toEffects := by
  rw [asFlag] at h
  split at h
  · rename_i halign
    rw [if_neg (Nat.ne_of_lt hlt)] at h
    obtain ⟨leaf_base, -, hrest⟩ := Option.bind_eq_some_iff.mp h
    obtain ⟨as₁, hloop, rfl⟩ := Option.map_eq_some_iff.mp hrest
    refine ⟨Nat.dvd_of_mod_eq_zero halign.1, as₁.toEffects, flagLoop_widens hloop, ?_⟩
    exact (mergePath_widens addr 4 _ _).trans (mergePath_widens (end_ - PAGE_SIZE) 4 _ _)
  · cases h

theorem asFlag_widens (h : asFlag as addr end_ flags = some as') :
    Widens as.toEffects as'.toEffects := by
  rcases Nat.lt_or_ge addr end_ with hlt | hge
  · obtain ⟨halign, x, hx, hx'⟩ := asFlag_dirty h hlt
    exact (hx.trans (markDirty_widens x end_ halign)).trans hx'
  · -- an empty range changes nothing
    rw [asFlag] at h
    split at h
    · rename_i hle
      rw [if_pos (le_antisymm hle.2.2 hge)] at h
      cases h
      exact Widens.refl _
    · cases h

theorem asFlag_covers (h : asFlag as addr end_ flags = some as') (hlt : addr < end_) :
    as'.Covers addr end_ := by
  obtain ⟨-, x, -, hx'⟩ := asFlag_dirty h hlt
  exact hx'.covers (markDirty_covers x addr end_)

end

/-! ## 3. What changed is in the range -/

section

variable {addr v j l level : Nat} {leaf_pte : Pte} {table table' : Table} {x x' : Effects}

def SameWay (addr v j l : Nat) : Prop := ∀ i, j ≤ i → i ≤ l → levelIdx v i = levelIdx addr i

/-- The span of some leaf size around `addr` is in the range, and `v` is under it. -/
def Marked (addr l : Nat) (x : Effects) (v : Nat) : Prop :=
  ∃ j, 1 ≤ j ∧ j ≤ 3 ∧ SameWay addr v j l ∧
    x.Covers (addr / LEVEL_SIZE j * LEVEL_SIZE j)
      ((addr / LEVEL_SIZE j * LEVEL_SIZE j + LEVEL_SIZE j) % 2 ^ 64)

theorem SameWay.succ (h : SameWay addr v j l) (hidx : levelIdx v (l + 1) = levelIdx addr (l + 1)) :
    SameWay addr v j (l + 1) := by
  intro i hj hl
  rcases Nat.lt_or_ge l i with hlt | hle
  · rw [Nat.le_antisymm hl hlt]
    exact hidx
  · exact h i hj hle

theorem sameWay_self (hidx : levelIdx v l = levelIdx addr l) : SameWay addr v l l := by
  intro i hj hl
  rw [Nat.le_antisymm hl hj]
  exact hidx

theorem Marked.succ (h : Marked addr l x v) (hidx : levelIdx v (l + 1) = levelIdx addr (l + 1)) :
    Marked addr (l + 1) x v := by
  obtain ⟨j, hlow, hhigh, hway, hcovers⟩ := h
  exact ⟨j, hlow, hhigh, hway.succ hidx, hcovers⟩

theorem Marked.mono (h : Marked addr l x v) (hx : Widens x x') : Marked addr l x' v := by
  obtain ⟨j, hlow, hhigh, hway, hcovers⟩ := h
  exact ⟨j, hlow, hhigh, hway, hx.covers hcovers⟩

theorem leafAt_update_ne {e : Entry}
    (h : leafAt (l + 1) (Function.update table (levelIdx addr (l + 1)) e) v ≠ leafAt (l + 1) table v) :
    levelIdx v (l + 1) = levelIdx addr (l + 1) := by
  by_contra hne
  apply h
  rw [leafAt, leafAt, Function.update_of_ne hne]

theorem leafAt_empty (l v : Nat) : leafAt l (fun _ => .absent) v = none := by
  cases l <;> rfl

theorem leafAt_table {child child' : Table} (htable : table (levelIdx addr (l + 1)) = .table child)
    (h : leafAt (l + 1) (Function.update table (levelIdx addr (l + 1)) (.table child')) v ≠
      leafAt (l + 1) table v) :
    levelIdx v (l + 1) = levelIdx addr (l + 1) ∧ leafAt l child' v ≠ leafAt l child v := by
  have hidx := leafAt_update_ne h
  refine ⟨hidx, ?_⟩
  simpa only [leafAt, hidx, Function.update_self, htable] using h

theorem installTable_changes
    (h : installTable addr level leaf_pte l table x = some (table', x'))
    (hv : leafAt l table' v ≠ leafAt l table v) :
    SameWay addr v level l ∨ Marked addr l x' v := by
  induction l generalizing table table' x x' with
  | zero => cases h
  | succ l ih =>
    rw [installTable] at h
    split at h
    · rename_i hlevel
      cases h
      rw [← hlevel]
      exact .inl (sameWay_self (leafAt_update_ne hv))
    · split at h
      · rename_i habsent
        split at h
        · cases h
          exact absurd rfl hv
        · obtain ⟨⟨child, y⟩, hchild, hy⟩ := Option.map_eq_some_iff.mp h
          cases hy
          have hidx := leafAt_update_ne hv
          have hbelow : leafAt l child v ≠ leafAt l (fun _ => .absent) v := by
            rw [leafAt_empty]
            simpa only [leafAt, hidx, Function.update_self, habsent] using hv
          exact (ih hchild hbelow).imp (·.succ hidx) (·.succ hidx)
      · -- the split has marked everything below the slot
        obtain ⟨⟨child, y⟩, hsplit, hrest⟩ := Option.bind_eq_some_iff.mp h
        obtain ⟨⟨child', y'⟩, hchild, hy'⟩ := Option.map_eq_some_iff.mp hrest
        cases hy'
        have hlevel : l + 1 ≤ 3 := by
          rw [splitHuge] at hsplit
          split at hsplit
          · omega
          · cases hsplit
        refine .inr ⟨l + 1, by omega, hlevel, sameWay_self (leafAt_update_ne hv), ?_⟩
        exact (installTable_widens hchild).covers (markDirty_covers _ _ _)
      · rename_i child htable
        obtain ⟨⟨child', y⟩, hchild, hy⟩ := Option.map_eq_some_iff.mp h
        cases hy
        obtain ⟨hidx, hbelow⟩ := leafAt_table htable hv
        exact (ih hchild hbelow).imp (·.succ hidx) (·.succ hidx)

theorem tryMergeChild_changes
    (hv : leafAt (l + 1) (tryMergeChild x table (l + 1) addr).2.1 v ≠ leafAt (l + 1) table v) :
    Marked addr (l + 1) (tryMergeChild x table (l + 1) addr).2.2 v := by
  revert hv
  simp only [tryMergeChild, scanChild_eq, Bool.true_and]
  split
  · rename_i child htable
    split
    · -- a table without entries reads as the empty slot
      rename_i hall
      intro hv
      refine absurd ?_ hv
      have habsent : child = fun _ => .absent := by
        funext i
        have := List.all_eq_true.mp hall i (List.mem_finRange i)
        cases hi : child i with
        | absent => rfl
        | leaf e => simp [hi, RadixTree.isAbsent] at this
        | table t => simp [hi, RadixTree.isAbsent] at this
      have hidx := leafAt_update_ne hv
      simp only [leafAt, hidx, Function.update_self, htable, habsent, leafAt_empty]
    · split
      · rename_i hleaf
        split
        · intro hv
          exact absurd rfl hv
        · intro hv
          refine ⟨l + 1, by omega, hleaf.2, sameWay_self (leafAt_update_ne hv), ?_⟩
          exact markDirty_covers _ _ _
      · intro hv
        exact absurd rfl hv
  · intro hv
    exact absurd rfl hv

theorem mergePath_changes (hv : leafAt l (mergePath addr l table x).2.1 v ≠ leafAt l table v) :
    Marked addr l (mergePath addr l table x).2.2 v := by
  induction l generalizing table x with
  | zero => exact absurd rfl hv
  | succ l ih =>
    revert hv
    rw [mergePath]
    split
    · rename_i child htable
      split
      · have hmid : leafAt (l + 1) (Function.update table (levelIdx addr (l + 1))
              (.table (mergePath addr l child x).2.1)) v ≠ leafAt (l + 1) table v →
            Marked addr (l + 1) (mergePath addr l child x).2.2 v := by
          intro hv
          obtain ⟨hidx, hbelow⟩ := leafAt_table htable hv
          exact (ih hbelow).succ hidx
        simp only
        split
        · intro hv
          by_cases hsame : leafAt (l + 1) (Function.update table (levelIdx addr (l + 1))
              (.table (mergePath addr l child x).2.1)) v = leafAt (l + 1) table v
          · rw [← hsame] at hv
            exact tryMergeChild_changes hv
          · exact (hmid hsame).mono (tryMergeChild_widens _ _ l addr)
        · exact hmid
      · intro hv
        exact absurd rfl hv
    · intro hv
      exact absurd rfl hv

def Canonical (v : Nat) : Prop := v < 2 ^ 47 ∨ 2 ^ 64 - 2 ^ 47 ≤ v ∧ v < 2 ^ 64

def Plain (a : Nat) : Prop := a < 2 ^ 47 ∨ 2 ^ 64 - 2 ^ 47 ≤ a ∧ a < 2 ^ 64 - GIB

theorem levelIdx_val (a h : Nat) : (levelIdx a (h + 1)).val = a / (PAGE_SIZE * 512 ^ h) % 512 := by
  rw [levelIdx_eq_digit, RadixTree.digit, Fin.val_ofNat, Nat.div_div_eq_div_mul]

theorem SameWay.div_eq (h : SameWay addr v j 4) (hlow : 1 ≤ j) (hhigh : j ≤ 3) (haddr : Plain addr)
    (hv : Canonical v) : v / LEVEL_SIZE j = addr / LEVEL_SIZE j := by
  have hidx : ∀ i, j ≤ i + 1 → i ≤ 3 →
      v / (PAGE_SIZE * 512 ^ i) % 512 = addr / (PAGE_SIZE * 512 ^ i) % 512 := by
    intro i hj hi
    rw [← levelIdx_val, ← levelIdx_val, h (i + 1) hj (by omega)]
  have h3 := hidx 3 (by omega) le_rfl
  have h2 := hidx 2 (by omega) (by omega)
  simp only [PAGE_SIZE, GIB, Canonical, Plain] at *
  obtain rfl | rfl | rfl : j = 1 ∨ j = 2 ∨ j = 3 := by omega
  · have h1 := hidx 1 (by omega) (by omega)
    have h0 := hidx 0 (by omega) (by omega)
    simp only [LEVEL_SIZE, PAGE_SIZE]
    omega
  · have h1 := hidx 1 (by omega) (by omega)
    simp only [LEVEL_SIZE, PAGE_SIZE]
    omega
  · simp only [LEVEL_SIZE, PAGE_SIZE]
    omega

theorem Marked.covers (h : Marked addr 4 x v) (haddr : Plain addr) (hv : Canonical v) :
    x.Covers v (v + 1) := by
  obtain ⟨j, hlow, hhigh, hway, hmin, hmax⟩ := h
  have hsize : 0 < LEVEL_SIZE j ∧ LEVEL_SIZE j ≤ GIB := by
    obtain rfl | rfl | rfl : j = 1 ∨ j = 2 ∨ j = 3 := by omega
    all_goals decide
  have hdiv := hway.div_eq hlow hhigh haddr hv
  have hspan := Nat.div_mul_le_self addr (LEVEL_SIZE j)
  have hmod := Nat.mod_lt v hsize.1
  have hsplit := Nat.div_add_mod' v (LEVEL_SIZE j)
  rw [hdiv] at hsplit
  have hwrap : addr / LEVEL_SIZE j * LEVEL_SIZE j + LEVEL_SIZE j < 2 ^ 64 := by
    simp only [Plain, GIB] at haddr hsize
    omega
  rw [Nat.mod_eq_of_lt hwrap] at hmax
  exact ⟨by omega, by omega⟩

end

section

variable {as as' : AddressSpace} {addr end_ level v : Nat} {leaf_pte leaf_base : Pte}

theorem installLeaf_changes (h : installLeaf as addr level leaf_pte = some as') (haddr : Plain addr)
    (hv : Canonical v) (hne : leafAt 4 as'.root v ≠ leafAt 4 as.root v) :
    (addr ≤ v ∧ v < addr + LEVEL_SIZE level) ∨ as'.Covers v (v + 1) := by
  rw [installLeaf] at h
  split at h
  · rename_i hlevel
    obtain ⟨⟨root, x⟩, hinstall, rfl⟩ := Option.map_eq_some_iff.mp h
    rcases installTable_changes hinstall hne with hway | hmarked
    · left
      have hdiv := hway.div_eq hlevel.1 hlevel.2.1 haddr hv
      have hpos : 0 < LEVEL_SIZE level := by
        obtain rfl | rfl | rfl : level = 1 ∨ level = 2 ∨ level = 3 := by omega
        all_goals decide
      -- the leaf starts at `addr`
      have hmod := Nat.mod_lt v hpos
      have hbase := Nat.div_add_mod' addr (LEVEL_SIZE level)
      have hsplit := Nat.div_add_mod' v (LEVEL_SIZE level)
      rw [hdiv] at hsplit
      omega
    · exact .inr (hmarked.covers haddr hv)
  · cases h

theorem flagRound_changes {as₁ : AddressSpace} {size : Nat} (level : Nat)
    (hsize : LEVEL_SIZE level = size)
    (hinstall : installLeaf as addr level leaf_pte = some as₁) (hle : addr + size ≤ end_)
    (hplain : ∀ b, addr ≤ b → b < end_ → Plain b) (hpos : 0 < size) (hv : Canonical v)
    (hwidens : Widens as₁.toEffects as'.toEffects)
    (hrest : leafAt 4 as'.root v ≠ leafAt 4 as₁.root v →
      (addr + size ≤ v ∧ v < end_) ∨ as'.Covers v (v + 1))
    (hne : leafAt 4 as'.root v ≠ leafAt 4 as.root v) :
    (addr ≤ v ∧ v < end_) ∨ as'.Covers v (v + 1) := by
  by_cases hsame : leafAt 4 as₁.root v = leafAt 4 as.root v
  · rw [← hsame] at hne
    exact (hrest hne).imp_left fun h => ⟨by omega, h.2⟩
  · rcases installLeaf_changes hinstall (hplain addr le_rfl (by omega)) hv hsame with h | h
    · rw [hsize] at h
      exact .inl ⟨h.1, by omega⟩
    · exact .inr (hwidens.covers h)

theorem flagLoop_changes (h : flagLoop leaf_base end_ addr as = some as') (hv : Canonical v)
    (hplain : ∀ b, addr ≤ b → b < end_ → Plain b) (hend : end_ % PAGE_SIZE = 0)
    (haddr : addr % PAGE_SIZE = 0) (hne : leafAt 4 as'.root v ≠ leafAt 4 as.root v) :
    (addr ≤ v ∧ v < end_) ∨ as'.Covers v (v + 1) := by
  fun_induction flagLoop leaf_base end_ addr as with
  | case1 a as _ _ _ hgib ih =>
    obtain ⟨as₁, hinstall, hrest⟩ := Option.bind_eq_some_iff.mp h
    have hfits : a + GIB ≤ end_ := by omega
    refine flagRound_changes 3 rfl hinstall hfits hplain (by decide) hv (flagLoop_widens hrest) ?_ hne
    refine ih as₁ hrest (fun b hb => hplain b (by omega)) ?_
    rw [Nat.add_mod, haddr]
    rfl
  | case2 a as _ _ _ _ hmib ih =>
    obtain ⟨as₁, hinstall, hrest⟩ := Option.bind_eq_some_iff.mp h
    have hfits : a + 2 * MIB ≤ end_ := by omega
    refine flagRound_changes 2 rfl hinstall hfits hplain (by decide) hv (flagLoop_widens hrest) ?_ hne
    refine ih as₁ hrest (fun b hb => hplain b (by omega)) ?_
    rw [Nat.add_mod, haddr]
    rfl
  | case3 a as hlt _ _ _ _ ih =>
    obtain ⟨as₁, hinstall, hrest⟩ := Option.bind_eq_some_iff.mp h
    have hfits : a + PAGE_SIZE ≤ end_ := by
      simp only [PAGE_SIZE] at haddr hend ⊢
      omega
    refine flagRound_changes 1 rfl hinstall hfits hplain (by decide) hv (flagLoop_widens hrest) ?_ hne
    refine ih as₁ hrest (fun b hb => hplain b (by omega)) ?_
    rw [Nat.add_mod_right, haddr]
  | case4 a as =>
    cases h
    exact absurd rfl hne

theorem tryMergePath_changes (haddr : Plain addr) (hv : Canonical v)
    (hne : leafAt 4 (tryMergePath as addr).root v ≠ leafAt 4 as.root v) :
    (tryMergePath as addr).Covers v (v + 1) :=
  (mergePath_changes hne).covers haddr hv

def PlainRange (addr end_ : Nat) : Prop :=
  end_ ≤ 2 ^ 47 ∨ 2 ^ 64 - 2 ^ 47 ≤ addr ∧ end_ ≤ 2 ^ 64 - GIB

theorem PlainRange.plain (h : PlainRange addr end_) (b : Nat) (hlo : addr ≤ b) (hhi : b < end_) :
    Plain b := by
  rcases h with h | ⟨hlow, hhigh⟩
  · exact .inl (by omega)
  · exact .inr ⟨by omega, by omega⟩

theorem asFlag_changes {flags : PagingFlags} (h : asFlag as addr end_ flags = some as')
    (hrange : PlainRange addr end_) (hv : Canonical v)
    (hne : leafAt 4 as'.root v ≠ leafAt 4 as.root v) : as'.Covers v (v + 1) := by
  have hasked : addr < end_ → as'.Covers addr end_ := asFlag_covers h
  rw [asFlag] at h
  split at h
  case isFalse => cases h
  rename_i halign
  split at h
  · cases h
    exact absurd rfl hne
  rename_i hlt
  obtain ⟨leaf_base, -, hrest⟩ := Option.bind_eq_some_iff.mp h
  obtain ⟨as₁, hloop, rfl⟩ := Option.map_eq_some_iff.mp hrest
  -- the tree after the loop, and after the first of the two merges
  generalize has₂ : ({ as₁ with toEffects := markDirty as₁.toEffects addr end_ } : AddressSpace) = as₂
    at *
  have hmark : Widens as₁.toEffects as₂.toEffects := by
    rw [← has₂]
    exact markDirty_widens _ end_ (Nat.dvd_of_mod_eq_zero halign.1)
  have hmerge : ∀ (as : AddressSpace) (a : Nat),
      Widens as.toEffects (tryMergePath as a).toEffects :=
    fun as a => mergePath_widens a 4 as.root as.toEffects
  have hpage : addr + PAGE_SIZE ≤ end_ := by
    simp only [PAGE_SIZE] at halign ⊢
    omega
  have hpos : 0 < PAGE_SIZE := by decide
  by_cases hlast : leafAt 4 (tryMergePath (tryMergePath as₂ addr) (end_ - PAGE_SIZE)).root v =
      leafAt 4 (tryMergePath as₂ addr).root v
  · rw [hlast] at hne
    by_cases hfirst : leafAt 4 (tryMergePath as₂ addr).root v = leafAt 4 as₂.root v
    · rw [hfirst, ← has₂] at hne
      rcases flagLoop_changes hloop hv hrange.plain halign.2.1 halign.1 hne with hin | hin
      · obtain ⟨hmin, hmax⟩ := hasked (by omega)
        exact ⟨hmin.trans hin.1, Nat.le_trans hin.2 hmax⟩
      · exact ((hmark.trans (hmerge as₂ addr)).trans (hmerge _ _)).covers hin
    · refine (hmerge _ _).covers ?_
      exact tryMergePath_changes (hrange.plain addr le_rfl (by omega)) hv hfirst
  · exact tryMergePath_changes (hrange.plain _ (by omega) (by omega)) hv hlast

end

/-! ## 4. Sequences of calls -/

structure FlagCall where
  addr : Nat
  end_ : Nat
  flags : PagingFlags

def FlagCall.step (as : AddressSpace) (c : FlagCall) : Option AddressSpace :=
  asFlag as c.addr c.end_ c.flags

/-- What an address is to the hardware: its translation with the flag bits, and its leaf
    size. -/
def seen (root : Table) (v : Nat) : Option (Nat × Pte) × Option Nat :=
  (translate root v, (leafAt 4 root v).map fun e => LEVEL_SIZE e.1)

/-- **The dirty range covers every change.**  Along every sequence of `as_flag` calls on
    canonical ranges away from the last GiB, an address that is not what it was is in the
    recorded range. -/
theorem run_dirty (as as' : AddressSpace) (cs : List FlagCall)
    (hrun : Run FlagCall.step (fun _ c => PlainRange c.addr c.end_) as cs as') (v : Nat)
    (hv : Canonical v) (hne : seen as'.root v ≠ seen as.root v) :
    as'.min_dirty ≤ v ∧ v < as'.max_dirty := by
  have hleaf : leafAt 4 as'.root v ≠ leafAt 4 as.root v := by
    intro heq
    exact hne (by rw [seen, seen, translate, translate, heq])
  have hcovers : leafAt 4 as'.root v = leafAt 4 as.root v ∨ as'.Covers v (v + 1) := by
    refine hrun.invariant (P := fun s => leafAt 4 s.root v = leafAt 4 as.root v ∨ s.Covers v (v + 1))
      (.inl rfl) ?_
    intro s c s' h hrange hstep
    rcases h with h | h
    · by_cases hsame : leafAt 4 s'.root v = leafAt 4 s.root v
      · exact .inl (hsame.trans h)
      · exact .inr (asFlag_changes hstep hrange hv hsame)
    · exact .inr ((asFlag_widens hstep).covers h)
  exact hcovers.resolve_left hleaf

theorem run_dirty_split : ∃ as', FlagCall.step asIdentityMapping ⟨0x1000, 0x2000, 0⟩ = some as' ∧
    seen as'.root 0x2000 ≠ seen asIdentityMapping.root 0x2000 ∧
    as'.min_dirty ≤ 0x2000 ∧ 0x2000 < as'.max_dirty := by
  obtain ⟨as', hstep, hseen⟩ := Option.map_eq_some_iff.mp (show (FlagCall.step asIdentityMapping
    ⟨0x1000, 0x2000, 0⟩).map (fun as => seen as.root 0x2000) =
      some (some (0x2000, PRISTINE_BITS), some 0x1000) by decide +kernel)
  have hne : seen as'.root 0x2000 ≠ seen asIdentityMapping.root 0x2000 := by
    rw [hseen]
    decide +kernel
  exact ⟨as', hstep, hne, run_dirty _ _ [⟨0x1000, 0x2000, 0⟩]
    (.single (.inl (by decide)) hstep) 0x2000 (.inl (by decide)) hne⟩

/-- A range at `2 ^ 48` is not canonical and the walk does not see that: address 0 goes, and
    the range is elsewhere. -/
theorem asFlag_high_not_dirty : ∃ as',
    FlagCall.step asIdentityMapping ⟨2 ^ 48, 2 ^ 48 + PAGE_SIZE, 0⟩ = some as' ∧ Canonical 0 ∧
    seen as'.root 0 ≠ seen asIdentityMapping.root 0 ∧ ¬ as'.min_dirty ≤ 0 := by
  obtain ⟨as', hstep, hseen⟩ := Option.map_eq_some_iff.mp (show (FlagCall.step asIdentityMapping
    ⟨2 ^ 48, 2 ^ 48 + PAGE_SIZE, 0⟩).map (fun as => (seen as.root 0, as.min_dirty)) =
      some ((none, none), 2 ^ 48) by decide +kernel)
  rw [Prod.mk.injEq] at hseen
  refine ⟨as', hstep, .inl (by decide), ?_, ?_⟩
  · rw [hseen.1]
    decide +kernel
  · rw [hseen.2]
    decide

end GovinDos.Paging
