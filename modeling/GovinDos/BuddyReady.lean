/-
  **From the bottom level to a tree (`buddy_init`, `buddy_mark_unusable`,
  `buddy_ready`).**

  `buddy_init` puts page `p` at entry `2 ^ max_level - 1 + p`.  `buddy_mark_unusable`
  writes entry `2 ^ (max_level - 1) + i` for page `i`: the entry of another page, or one
  that `buddy_ready` writes over, or none of the tree.
-/
import GovinDos.BuddyRefinement

namespace GovinDos.Buddy

open BuddyTree Function

variable {ba : BuddyAllocator} {L h i j v : Nat} {l r : BuddyTree} {is : List Nat}

/-! ## 1. The bottom level -/

theorem max_level_setAll (v : Nat) (ba : BuddyAllocator) (is : List Nat) :
    (setAll v ba is).max_level = ba.max_level := by
  induction is generalizing ba with
  | nil => rfl
  | cons i is ih => exact ih (ba.set i v)

theorem heap_setAll : (setAll v ba is).heap j = if j ∈ is then v else ba.heap j := by
  induction is generalizing ba with
  | nil => rfl
  | cons i is ih =>
    have hstep : (setAll v ba (i :: is)).heap j = (setAll v (ba.set i v) is).heap j := rfl
    rw [hstep, ih]
    by_cases hmem : j ∈ is
    · rw [if_pos hmem, if_pos (List.mem_cons_of_mem i hmem)]
    · rw [if_neg hmem]
      by_cases heq : j = i
      · subst heq
        rw [if_pos List.mem_cons_self]
        exact update_self ..
      · rw [if_neg (by simp [heq, hmem])]
        exact update_of_ne heq _ _

theorem mem_written_setAll : j ∈ (setAll v ba is).written ↔ j ∈ is ∨ j ∈ ba.written := by
  induction is generalizing ba with
  | nil => exact (or_iff_right List.not_mem_nil).symm
  | cons i is ih =>
    have hstep : (setAll v ba (i :: is)).written = (setAll v (ba.set i v) is).written := rfl
    have hset : (ba.set i v).written = i :: ba.written := rfl
    rw [hstep, ih, hset, List.mem_cons, List.mem_cons, or_left_comm, or_assoc]

theorem heapSize_eq (hL : L + 1 < 2 ^ 8) : heapSize L = 2 ^ (L + 1) - 1 := by
  rw [heapSize, Nat.mod_eq_of_lt hL]

variable {n p : Nat} {junk : Nat → Nat}

theorem bottomLevelOffset_eq (hL : L < BUDDY_LEVEL_UNUSABLE) :
    (if L > 0 then heapSize (L - 1) else 0) = 2 ^ L - 1 := by
  simp only [BUDDY_LEVEL_UNUSABLE] at hL
  split
  · rw [heapSize_eq (by omega), Nat.sub_add_cancel ‹_›]
  · obtain rfl : L = 0 := by omega
    rfl

theorem max_level_buddyInit : (buddyInit junk n).max_level = uint64CeilLog2 n := by
  simp only [buddyInit, max_level_setAll]

theorem mem_written_buddyInit (hL : uint64CeilLog2 n < BUDDY_LEVEL_UNUSABLE) :
    j ∈ (buddyInit junk n).written ↔
      2 ^ uint64CeilLog2 n - 1 ≤ j ∧ j < 2 ^ (uint64CeilLog2 n + 1) - 1 := by
  have hn := le_two_pow_uint64CeilLog2 n
  have hvalid : uint64CeilLog2 n < 253 := hL
  simp only [buddyInit, mem_written_setAll, bottomLevelOffset_eq hL, List.mem_range'_1,
    heapSize_eq (show uint64CeilLog2 n + 1 < 2 ^ 8 by omega), Nat.pow_succ, List.not_mem_nil, or_false]
  omega

theorem heap_buddyInit (hL : uint64CeilLog2 n < BUDDY_LEVEL_UNUSABLE)
    (hp : p < 2 ^ uint64CeilLog2 n) :
    (buddyInit junk n).heap (2 ^ uint64CeilLog2 n - 1 + p) =
      if p < n then uint64CeilLog2 n else BUDDY_LEVEL_UNUSABLE := by
  have hn := le_two_pow_uint64CeilLog2 n
  have hvalid : uint64CeilLog2 n < 253 := hL
  simp only [buddyInit, heap_setAll, bottomLevelOffset_eq hL, List.mem_range'_1,
    heapSize_eq (show uint64CeilLog2 n + 1 < 2 ^ 8 by omega), Nat.pow_succ]
  by_cases hlt : p < n
  · rw [if_neg (by omega), if_pos (by omega), if_pos hlt]
  · rw [if_pos (by omega), if_neg hlt]

theorem mem_marks {lo hi : Nat} (hL : 0 < L) :
    2 ^ L - 1 + p ∈ (List.range' lo (hi + 1 - lo)).map (· + 2 ^ (L - 1)) ↔
      lo ≤ p + 2 ^ (L - 1) - 1 ∧ p + 2 ^ (L - 1) - 1 ≤ hi := by
  obtain ⟨k, rfl⟩ := Nat.exists_eq_add_of_lt hL
  have hpos := Nat.two_pow_pos k
  have hpow : 2 ^ (0 + k + 1) = 2 ^ k * 2 := by rw [Nat.zero_add, Nat.pow_succ]
  simp only [Nat.zero_add, Nat.add_sub_cancel, List.mem_map, List.mem_range'_1] at *
  rw [hpow]
  constructor
  · rintro ⟨x, hx, heq⟩
    omega
  · intro hmem
    exact ⟨p + 2 ^ k - 1, by omega, by omega⟩

/-! ## 2. The levels above it -/

theorem freeLevel_ofPages_le {usable : Nat → Bool} {level b : Nat} (hL : Levels L level h)
    (hne : ofPages usable h b ≠ .unusable) : freeLevel L (ofPages usable h b) level ≤ L := by
  obtain ⟨q, hfree⟩ := exists_free_of_ofPages hne
  exact freeLevel_le_of_block hL (ofPages_fits h b) hfree.freeBlock

theorem readyStep_rep (hL : Levels L (heapLevel i) (h + 1)) (hfl : Fits h l) (hfr : Fits h r)
    (hl : Rep ba.heap L l h (heapLeft i)) (hr : Rep ba.heap L r h (heapRight i))
    (hul : l ≠ .unusable → freeLevel L l (heapLevel i + 1) ≤ L)
    (hur : r ≠ .unusable → freeLevel L r (heapLevel i + 1) ≤ L) :
    Rep (readyStep ba i).heap L (join l r) (h + 1) i := by
  have hvalid := hL.valid
  have hsum := hL.sum
  have hlv := hl.level
  have hrv := hr.level
  rw [heapLevel_left] at hlv
  rw [heapLevel_right] at hrv
  have hl' : Rep (readyStep ba i).heap L l h (heapLeft i) := hl.update_left
  have hr' : Rep (readyStep ba i).heap L r h (heapRight i) := hr.update_right
  have hheap : (readyStep ba i).heap i = if freeLevel L l (heapLevel i + 1) = BUDDY_LEVEL_UNUSABLE ∧
      freeLevel L r (heapLevel i + 1) = BUDDY_LEVEL_UNUSABLE then BUDDY_LEVEL_UNUSABLE
      else if freeLevel L l (heapLevel i + 1) = heapLevel i + 1 ∧
        freeLevel L r (heapLevel i + 1) = heapLevel i + 1 then heapLevel i
      else min (freeLevel L l (heapLevel i + 1)) (freeLevel L r (heapLevel i + 1)) := by
    rw [← hlv, ← hrv]
    exact update_self ..
  rcases join_cases l r with ⟨rfl, rfl⟩ | ⟨rfl, rfl⟩ | ⟨hfree, hunusable⟩
  · refine ⟨?_, hl', hr'⟩
    have hvalue : freeLevel L .free (heapLevel i + 1) = heapLevel i + 1 := rfl
    rwa [if_neg (by rw [hvalue]; omega), if_pos ⟨rfl, rfl⟩] at hheap
  · exact hheap.trans (if_pos ⟨rfl, rfl⟩)
  · rw [join_eq_split hfree hunusable]
    refine ⟨?_, hl', hr'⟩
    have hchild : Levels L (heapLevel i + 1) h := hL.child
    have hnot : ¬ (freeLevel L l (heapLevel i + 1) = BUDDY_LEVEL_UNUSABLE ∧
        freeLevel L r (heapLevel i + 1) = BUDDY_LEVEL_UNUSABLE) := fun heq =>
      hunusable (eq_unusable_of_freeLevel hchild heq.1) (eq_unusable_of_freeLevel hchild heq.2)
    have hnot' : ¬ (freeLevel L l (heapLevel i + 1) = heapLevel i + 1 ∧
        freeLevel L r (heapLevel i + 1) = heapLevel i + 1) := fun heq =>
      hfree (eq_free_of_freeLevel hchild hfl heq.1) (eq_free_of_freeLevel hchild hfr heq.2)
    have hmin : min (freeLevel L l (heapLevel i + 1)) (freeLevel L r (heapLevel i + 1)) ≤ L := by
      by_cases hl : l = .unusable
      · exact Nat.le_trans (Nat.min_le_right _ _) (hur (hunusable hl))
      · exact Nat.le_trans (Nat.min_le_left _ _) (hul hl)
    rw [hheap, if_neg hnot, if_neg hnot', freeLevel, parentFreeLevel, if_neg (Nat.not_lt.mpr hmin)]

def ReadyFrom (usable : Nat → Bool) (L : Nat) (ba : BuddyAllocator) (k : Nat) : Prop :=
  ∀ i, k ≤ i → heapLevel i ≤ L →
    Rep ba.heap L (ofPages usable (L - heapLevel i) (firstPage L i)) (L - heapLevel i) i

variable {usable : Nat → Bool} {k : Nat}

theorem ReadyFrom.step (hvalid : L < BUDDY_LEVEL_UNUSABLE) (hk : heapLevel k < L)
    (hready : ReadyFrom usable L ba (k + 1)) : ReadyFrom usable L (readyStep ba k) k := by
  intro i hi hlevel
  rcases Nat.eq_or_lt_of_le hi with rfl | hlt
  · obtain ⟨h, hh⟩ : ∃ h, L - heapLevel k = h + 1 := ⟨L - heapLevel k - 1, by omega⟩
    have hL : Levels L (heapLevel k) (h + 1) := ⟨hvalid, by omega⟩
    have hleft := hready (heapLeft k) (lt_heapLeft k) (by rw [heapLevel_left]; omega)
    have hright := hready (heapRight k) (lt_heapRight k) (by rw [heapLevel_right]; omega)
    have hheight : L - (heapLevel k + 1) = h := by omega
    have hhalf : L - heapLevel k - 1 = h := by omega
    rw [heapLevel_left, firstPage_left hk, hheight] at hleft
    rw [heapLevel_right, firstPage_right hk, hheight, hhalf] at hright
    rw [hh]
    exact readyStep_rep hL (ofPages_fits h _) (ofPages_fits h _) hleft hright
      (freeLevel_ofPages_le hL.child) (freeLevel_ofPages_le hL.child)
  · refine (hready i hlt hlevel).congr fun x hx => update_of_ne ?_ _ _
    have hle := hx.le
    omega

theorem ReadyFrom.fold (hvalid : L < BUDDY_LEVEL_UNUSABLE) (hk : k ≤ 2 ^ L - 1)
    (hready : ReadyFrom usable L ba k) :
    ReadyFrom usable L ((List.range k).reverse.foldl readyStep ba) 0 := by
  induction k generalizing ba with
  | zero => exact hready
  | succ k ih =>
    rw [List.range_succ, List.reverse_append]
    refine ih (by omega) (hready.step hvalid ?_)
    have hle := two_pow_heapLevel_le k
    exact (Nat.pow_lt_pow_iff_right (by decide)).mp (by omega : 2 ^ heapLevel k < 2 ^ L)

theorem readyFrom_bottom
    (hbottom : ∀ p < 2 ^ L, ba.heap (2 ^ L - 1 + p) = if usable p then L else BUDDY_LEVEL_UNUSABLE) :
    ReadyFrom usable L ba (2 ^ L - 1) := by
  intro i hi hlevel
  have hpos := Nat.two_pow_pos L
  have hlt := lt_two_pow_heapLevel i
  have hge : L ≤ heapLevel i := by
    have hpow : 2 ^ L < 2 ^ (heapLevel i + 1) := by omega
    exact Nat.lt_succ_iff.mp ((Nat.pow_lt_pow_iff_right (by decide)).mp hpow)
  have heq : heapLevel i = L := Nat.le_antisymm hlevel hge
  rw [heq, Nat.pow_succ] at hlt
  have hpage : firstPage L i = i + 1 - 2 ^ L := by
    rw [firstPage, heq, Nat.sub_self, Nat.pow_zero, Nat.mul_one]
  have hheap := hbottom (i + 1 - 2 ^ L) (by omega)
  rw [show 2 ^ L - 1 + (i + 1 - 2 ^ L) = i by omega] at hheap
  rw [heq, Nat.sub_self, hpage, ofPages]
  split
  · rename_i husable
    rw [if_pos husable] at hheap
    exact hheap.trans heq.symm
  · rename_i husable
    rwa [if_neg husable] at hheap

theorem readyStep_foldl_max_level (is : List Nat) (ba : BuddyAllocator) :
    (is.foldl readyStep ba).max_level = ba.max_level := by
  induction is generalizing ba with
  | nil => rfl
  | cons i is ih => exact ih (readyStep ba i)

theorem max_level_buddyReady (ba : BuddyAllocator) : (buddyReady ba).max_level = ba.max_level := by
  unfold buddyReady
  split
  · exact readyStep_foldl_max_level _ _
  · rfl

theorem buddyReady_represents (hvalid : ba.max_level < BUDDY_LEVEL_UNUSABLE)
    (hbottom : ∀ p < 2 ^ ba.max_level, ba.heap (2 ^ ba.max_level - 1 + p) =
      if usable p then ba.max_level else BUDDY_LEVEL_UNUSABLE) :
    Represents (buddyReady ba) (ofPages usable ba.max_level 0) := by
  have hmax := max_level_buddyReady ba
  have hready : ReadyFrom usable ba.max_level (buddyReady ba) 0 := by
    have hbase := readyFrom_bottom hbottom
    have hoffset := bottomLevelOffset_eq hvalid
    unfold buddyReady
    split
    · rename_i hpos
      rw [if_pos hpos] at hoffset
      rw [hoffset]
      exact hbase.fold hvalid (Nat.le_refl _)
    · rename_i hzero
      rw [if_neg hzero] at hoffset
      rwa [← hoffset] at hbase
  refine ⟨hmax ▸ hvalid, hmax ▸ ofPages_fits _ _, ?_⟩
  rw [hmax]
  have hroot := hready 0 (Nat.zero_le _) (Nat.zero_le _)
  rwa [firstPage_zero] at hroot

theorem mem_written_readyFold : j ∈ (is.foldl readyStep ba).written ↔ j ∈ is ∨ j ∈ ba.written := by
  induction is generalizing ba with
  | nil => exact (or_iff_right List.not_mem_nil).symm
  | cons i is ih =>
    have hset : (readyStep ba i).written = i :: ba.written := rfl
    rw [List.foldl_cons, ih, hset, List.mem_cons, List.mem_cons, or_left_comm, or_assoc]

theorem mem_written_buddyReady (hvalid : ba.max_level < BUDDY_LEVEL_UNUSABLE) :
    j ∈ (buddyReady ba).written ↔ j < 2 ^ ba.max_level - 1 ∨ j ∈ ba.written := by
  have hoffset := bottomLevelOffset_eq hvalid
  unfold buddyReady
  split
  · rename_i hpos
    rw [if_pos hpos] at hoffset
    rw [mem_written_readyFold, hoffset, List.mem_reverse, List.mem_range]
  · rename_i hzero
    rw [if_neg hzero] at hoffset
    rw [← hoffset]
    exact (or_iff_right (Nat.not_lt_zero j)).symm

end GovinDos.Buddy
