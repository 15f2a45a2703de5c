/-
  **The heap is a tree of halved blocks.**

  An entry that is the level of its own node stands for a block that is free as a whole,
  whose descendants say the same; so an allocated block keeps the entries below it for when
  it is given back.
-/
import GovinDos.Buddy

namespace GovinDos.Buddy

open BuddyTree Function

variable {max_level h i v q c n : Nat}

/-! ## 1. Nodes -/

variable {i j x : Nat}

theorem heapLevel_left (i : Nat) : heapLevel (heapLeft i) = heapLevel i + 1 := by
  have hhalf : (2 * i + 1 + 1) / 2 = i + 1 := by omega
  unfold heapLevel heapLeft
  rw [Nat.log2_def, if_pos (by omega), hhalf]

theorem heapLevel_right (i : Nat) : heapLevel (heapRight i) = heapLevel i + 1 := by
  have hhalf : (2 * i + 2 + 1) / 2 = i + 1 := by omega
  unfold heapLevel heapRight
  rw [Nat.log2_def, if_pos (by omega), hhalf]

theorem heapParent_left (i : Nat) : heapParent (heapLeft i) = i := by
  unfold heapParent heapLeft
  omega

theorem heapParent_right (i : Nat) : heapParent (heapRight i) = i := by
  unfold heapParent heapRight
  omega

theorem heapSibling_left (i : Nat) : heapSibling (heapLeft i) = heapRight i := by
  unfold heapSibling heapLeft heapRight
  rw [if_pos (by omega)]

theorem heapSibling_right (i : Nat) : heapSibling (heapRight i) = heapLeft i := by
  unfold heapSibling heapLeft heapRight
  rw [if_neg (by omega)]
  omega

theorem two_pow_heapLevel_le (i : Nat) : 2 ^ heapLevel i ≤ i + 1 := Nat.log2_self_le (by omega)

theorem lt_two_pow_heapLevel (i : Nat) : i + 1 < 2 ^ (heapLevel i + 1) := Nat.lt_log2_self

def Below (i j : Nat) : Prop := ∃ d, (j + 1) / 2 ^ d = i + 1

theorem Below.refl (i : Nat) : Below i i := ⟨0, Nat.div_one _⟩

theorem Below.le (h : Below i j) : i ≤ j := by
  obtain ⟨d, hd⟩ := h
  have hle := Nat.div_le_self (j + 1) (2 ^ d)
  omega

theorem Below.of_left (h : Below (heapLeft i) j) : Below i j := by
  obtain ⟨d, hd⟩ := h
  refine ⟨d + 1, ?_⟩
  rw [Nat.pow_succ, ← Nat.div_div_eq_div_mul, hd]
  unfold heapLeft
  omega

theorem Below.of_right (h : Below (heapRight i) j) : Below i j := by
  obtain ⟨d, hd⟩ := h
  refine ⟨d + 1, ?_⟩
  rw [Nat.pow_succ, ← Nat.div_div_eq_div_mul, hd]
  unfold heapRight
  omega

theorem Below.not_right (h : Below (heapLeft i) j) : ¬ Below (heapRight i) j := by
  obtain ⟨d, hd⟩ := h
  rintro ⟨e, he⟩
  have hpow (n : Nat) : 2 ≤ 2 ^ (n + 1) := by
    rw [Nat.pow_succ]
    have := Nat.two_pow_pos n
    omega
  unfold heapLeft at hd
  unfold heapRight at he
  rcases Nat.lt_trichotomy d e with hlt | rfl | hlt
  · obtain ⟨n, rfl⟩ := Nat.exists_eq_add_of_lt hlt
    have hup : (j + 1) / 2 ^ d / 2 ^ (n + 1) ≤ (j + 1) / 2 ^ d / 2 :=
      Nat.div_le_div_left (hpow n) (by omega)
    rw [Nat.div_div_eq_div_mul, ← Nat.pow_add, ← Nat.add_assoc, he, hd] at hup
    omega
  · omega
  · obtain ⟨n, rfl⟩ := Nat.exists_eq_add_of_lt hlt
    have hup : (j + 1) / 2 ^ e / 2 ^ (n + 1) ≤ (j + 1) / 2 ^ e / 2 :=
      Nat.div_le_div_left (hpow n) (by omega)
    rw [Nat.div_div_eq_div_mul, ← Nat.pow_add, ← Nat.add_assoc, he, hd] at hup
    omega

theorem lt_heapLeft (i : Nat) : i < heapLeft i := by
  unfold heapLeft
  omega

theorem lt_heapRight (i : Nat) : i < heapRight i := by
  unfold heapRight
  omega

def firstPage (max_level i : Nat) : Nat := (i + 1 - 2 ^ heapLevel i) * 2 ^ (max_level - heapLevel i)

theorem getFirstPageIndexFromBlockIndex_eq {ba : BuddyAllocator} (hlevel : heapLevel i < 2 ^ 8) :
    getFirstPageIndexFromBlockIndex ba i = firstPage ba.max_level i := by
  have hsize : heapSize ((heapLevel i + (2 ^ 8 - 1)) % 2 ^ 8) = 2 ^ heapLevel i - 1 := by
    have hmod : ((heapLevel i + (2 ^ 8 - 1)) % 2 ^ 8 + 1) % 2 ^ 8 = heapLevel i := by omega
    rw [heapSize, hmod]
  have hpos := Nat.two_pow_pos (heapLevel i)
  have hsub : i - (2 ^ heapLevel i - 1) = i + 1 - 2 ^ heapLevel i := by omega
  rw [getFirstPageIndexFromBlockIndex, firstPage, hsize, hsub, Nat.shiftLeft_eq]

theorem firstPage_zero (max_level : Nat) : firstPage max_level 0 = 0 := Nat.zero_mul _

theorem firstPage_left (h : heapLevel i < max_level) :
    firstPage max_level (heapLeft i) = firstPage max_level i := by
  obtain ⟨d, rfl⟩ := Nat.exists_eq_add_of_lt h
  have hexp : heapLevel i + d + 1 - (heapLevel i + 1) = d := by omega
  have hexp' : heapLevel i + d + 1 - heapLevel i = d + 1 := by omega
  have hnext : heapLeft i + 1 - 2 ^ (heapLevel i + 1) = (i + 1 - 2 ^ heapLevel i) * 2 := by
    unfold heapLeft
    rw [Nat.pow_succ]
    omega
  unfold firstPage
  rw [heapLevel_left, hexp, hexp', hnext, Nat.pow_succ, Nat.mul_assoc, Nat.mul_comm 2]

theorem firstPage_right (h : heapLevel i < max_level) :
    firstPage max_level (heapRight i) =
      firstPage max_level i + 2 ^ (max_level - heapLevel i - 1) := by
  obtain ⟨d, rfl⟩ := Nat.exists_eq_add_of_lt h
  have hle := two_pow_heapLevel_le i
  have hexp : heapLevel i + d + 1 - (heapLevel i + 1) = d := by omega
  have hexp' : heapLevel i + d + 1 - heapLevel i = d + 1 := by omega
  have hnext : heapRight i + 1 - 2 ^ (heapLevel i + 1) = (i + 1 - 2 ^ heapLevel i) * 2 + 1 := by
    unfold heapRight
    rw [Nat.pow_succ]
    omega
  unfold firstPage
  rw [heapLevel_right, hexp, hexp', hnext, Nat.add_mul, Nat.one_mul, Nat.pow_succ, Nat.mul_assoc,
    Nat.mul_comm 2, Nat.add_sub_cancel]

/-! ## 2. The tree that the heap represents -/

def freeLevel (max_level : Nat) : BuddyTree → Nat → Nat
  | .free, level => level
  | .allocated, _ => BUDDY_LEVEL_ALLOCATED
  | .unusable, _ => BUDDY_LEVEL_UNUSABLE
  | .split l r, level =>
    parentFreeLevel max_level (freeLevel max_level l (level + 1)) (freeLevel max_level r (level + 1))

def AllFree (heap : Nat → Nat) : Nat → Nat → Prop
  | 0, i => heap i = heapLevel i
  | h + 1, i => heap i = heapLevel i ∧ AllFree heap h (heapLeft i) ∧ AllFree heap h (heapRight i)

def Rep (heap : Nat → Nat) (max_level : Nat) : BuddyTree → Nat → Nat → Prop
  | .free, h, i => AllFree heap h i
  | .allocated, 0, i => heap i = BUDDY_LEVEL_ALLOCATED
  | .allocated, h + 1, i => heap i = BUDDY_LEVEL_ALLOCATED ∧
      AllFree heap h (heapLeft i) ∧ AllFree heap h (heapRight i)
  | .unusable, _, i => heap i = BUDDY_LEVEL_UNUSABLE
  | .split l r, h + 1, i => heap i = freeLevel max_level (.split l r) (heapLevel i) ∧
      Rep heap max_level l h (heapLeft i) ∧ Rep heap max_level r h (heapRight i)
  | .split _ _, 0, _ => False

variable {heap heap' : Nat → Nat} {L h : Nat} {t t' l r : BuddyTree}

theorem AllFree.level (hfree : AllFree heap h i) : heap i = heapLevel i := by
  cases h with
  | zero => exact hfree
  | succ h => exact hfree.1

theorem Rep.level (hrep : Rep heap L t h i) : heap i = freeLevel L t (heapLevel i) := by
  cases t with
  | free => exact hrep.level
  | allocated => cases h with
    | zero => exact hrep
    | succ h => exact hrep.1
  | unusable => exact hrep
  | split l r => cases h with
    | zero => exact hrep.elim
    | succ h => exact hrep.1

theorem AllFree.congr (hfree : AllFree heap h i)
    (hsame : ∀ j, Below i j → heap' j = heap j) : AllFree heap' h i := by
  induction h generalizing i with
  | zero => exact (hsame i (.refl i)).trans hfree
  | succ h ih =>
    obtain ⟨hi, hl, hr⟩ := hfree
    refine ⟨(hsame i (.refl i)).trans hi, ih hl fun j hj => ?_, ih hr fun j hj => ?_⟩
    · exact hsame j hj.of_left
    · exact hsame j hj.of_right

theorem Rep.congr (hrep : Rep heap L t h i) (hsame : ∀ j, Below i j → heap' j = heap j) :
    Rep heap' L t h i := by
  have hi := hsame i (.refl i)
  have hleft (j : Nat) (hj : Below (heapLeft i) j) := hsame j hj.of_left
  have hright (j : Nat) (hj : Below (heapRight i) j) := hsame j hj.of_right
  induction t generalizing h i with
  | free => exact AllFree.congr hrep hsame
  | allocated => cases h with
    | zero => exact hi.trans hrep
    | succ h => exact ⟨hi.trans hrep.1, hrep.2.1.congr hleft, hrep.2.2.congr hright⟩
  | unusable => exact hi.trans hrep
  | split l r ihl ihr => cases h with
    | zero => exact hrep.elim
    | succ h =>
      obtain ⟨hlevel, hl, hr⟩ := hrep
      refine ⟨hi.trans hlevel, ?_, ?_⟩
      · exact ihl hl hleft (hleft _ (.refl _)) (fun j hj => hleft j hj.of_left)
          fun j hj => hleft j hj.of_right
      · exact ihr hr hright (hright _ (.refl _)) (fun j hj => hright j hj.of_left)
          fun j hj => hright j hj.of_right

theorem Rep.update_left (hrep : Rep heap L t h (heapLeft i)) :
    Rep (update heap i v) L t h (heapLeft i) := by
  refine hrep.congr fun j hj => update_of_ne ?_ _ _
  have hlt := lt_heapLeft i
  have hle := hj.le
  omega

theorem Rep.update_right (hrep : Rep heap L t h (heapRight i)) :
    Rep (update heap i v) L t h (heapRight i) := by
  refine hrep.congr fun j hj => update_of_ne ?_ _ _
  have hlt := lt_heapRight i
  have hle := hj.le
  omega

/-! ## 3. Levels -/

structure Levels (max_level level h : Nat) : Prop where
  valid : max_level < BUDDY_LEVEL_UNUSABLE
  sum : level + h = max_level

variable {level : Nat}

theorem Levels.child (hL : Levels L level (h + 1)) : Levels L (level + 1) h :=
  ⟨hL.valid, by have := hL.sum; omega⟩

theorem parentFreeLevel_cases (a b : Nat) :
    (min a b ≤ L ∧ parentFreeLevel L a b = min a b) ∨
      (L < min a b ∧ parentFreeLevel L a b = BUDDY_LEVEL_FILLED) := by
  unfold parentFreeLevel
  split
  · exact .inr ⟨by omega, rfl⟩
  · exact .inl ⟨by omega, rfl⟩

theorem parentFreeLevel_comm (a b : Nat) : parentFreeLevel L a b = parentFreeLevel L b a := by
  unfold parentFreeLevel
  rw [Nat.min_comm]

theorem le_freeLevel (hL : Levels L level h) (hfits : Fits h t) : level ≤ freeLevel L t level := by
  induction hfits generalizing level with
  | free => exact Nat.le_refl _
  | allocated | unusable =>
    obtain ⟨hvalid, hsum⟩ := hL
    simp only [freeLevel, BUDDY_LEVEL_ALLOCATED, BUDDY_LEVEL_UNUSABLE] at *
    omega
  | @split h l r _ _ _ _ ihl ihr =>
    have hl := ihl hL.child
    have hr := ihr hL.child
    obtain ⟨hvalid, hsum⟩ := hL
    simp only [freeLevel]
    rcases parentFreeLevel_cases (L := L) (freeLevel L l (level + 1)) (freeLevel L r (level + 1))
      with ⟨-, heq⟩ | ⟨-, heq⟩
    · omega
    · simp only [BUDDY_LEVEL_FILLED, BUDDY_LEVEL_UNUSABLE] at *
      omega

theorem eq_free_of_freeLevel (hL : Levels L level h) (hfits : Fits h t)
    (heq : freeLevel L t level = level) : t = .free := by
  have hvalid := hL.valid
  have hsum := hL.sum
  cases hfits with
  | free => rfl
  | allocated | unusable =>
    simp only [freeLevel, BUDDY_LEVEL_ALLOCATED, BUDDY_LEVEL_UNUSABLE] at *
    omega
  | @split h l r hl hr =>
    have hl := le_freeLevel hL.child hl
    have hr := le_freeLevel hL.child hr
    simp only [freeLevel] at heq
    rcases parentFreeLevel_cases (L := L) (freeLevel L l (level + 1)) (freeLevel L r (level + 1))
      with ⟨-, hmin⟩ | ⟨-, hmin⟩
    · omega
    · simp only [BUDDY_LEVEL_FILLED, BUDDY_LEVEL_UNUSABLE] at *
      omega

theorem eq_unusable_of_freeLevel (hL : Levels L level h)
    (heq : freeLevel L t level = BUDDY_LEVEL_UNUSABLE) : t = .unusable := by
  have hvalid := hL.valid
  have hsum := hL.sum
  cases t with
  | free =>
    simp only [freeLevel] at heq
    omega
  | allocated => cases heq
  | unusable => rfl
  | split l r =>
    simp only [freeLevel] at heq
    rcases parentFreeLevel_cases (L := L) (freeLevel L l (level + 1)) (freeLevel L r (level + 1))
      with ⟨hle, hmin⟩ | ⟨-, hmin⟩
    · omega
    · rw [hmin] at heq
      cases heq

theorem freeLevel_le_of_block {b k p : Nat} (hL : Levels L level h) (hfits : Fits h t)
    (hp : t.FreeBlock h b k p) : freeLevel L t level ≤ L - k := by
  have hpos := Nat.two_pow_pos k
  induction hfits generalizing level b with
  | free h =>
    obtain ⟨⟨j, hj⟩, -⟩ := id hp
    have hle := hp.le
    have hk : k ≤ h := (Nat.pow_le_pow_iff_right Nat.one_lt_two).mp (by omega)
    have hsum := hL.sum
    simp only [freeLevel]
    omega
  | allocated | unusable => exact (hp.free p (Nat.le_refl p) (by omega)).elim
  | @split h l r hl hr hfree hunusable ihl ihr =>
    have hmin : freeLevel L l (level + 1) ≤ L - k ∨ freeLevel L r (level + 1) ≤ L - k :=
      (hp.half (.split hl hr hfree hunusable)).imp (ihl hL.child) (ihr hL.child)
    have hsum := hL.sum
    simp only [freeLevel]
    rcases parentFreeLevel_cases (L := L) (freeLevel L l (level + 1)) (freeLevel L r (level + 1))
      with ⟨hle, heq⟩ | ⟨hlt, heq⟩ <;> omega

/-! ## 4. Climbing one level -/

variable {ba ba' : BuddyAllocator}

theorem propagateStep_child (hc : c = heapLeft i ∨ c = heapRight i)
    (hmax : ba.max_level = L) (hl : Rep ba.heap L l h (heapLeft i))
    (hr : Rep ba.heap L r h (heapRight i)) :
    ∃ ba', propagateStep (ba, c) = (ba', i) ∧ Rep ba'.heap L (.split l r) (h + 1) i ∧
      ba'.max_level = L ∧ ∀ x, x ≠ i → ba'.heap x = ba.heap x := by
  have hlevel : freeLevel L (.split l r) (heapLevel i) =
      parentFreeLevel L (ba.heap (heapLeft i)) (ba.heap (heapRight i)) := by
    rw [hl.level, hr.level, heapLevel_left, heapLevel_right]
    rfl
  refine ⟨ba.set i (freeLevel L (.split l r) (heapLevel i)), ?_, ⟨?_, ?_, ?_⟩, hmax, ?_⟩
  · rw [hlevel]
    rcases hc with rfl | rfl
    · have hne : heapLeft i ≠ 0 := by have := lt_heapLeft i; omega
      simp only [propagateStep, hne, if_false, heapParent_left, heapSibling_left, hmax]
    · have hne : heapRight i ≠ 0 := by have := lt_heapRight i; omega
      simp only [propagateStep, hne, if_false, heapParent_right, heapSibling_right, hmax]
      rw [parentFreeLevel_comm]
  · exact update_self ..
  · exact hl.update_left
  · exact hr.update_right
  · exact fun x hx => update_of_ne hx _ _

/-! ## 5. Allocation -/

/-- Slot `j` is marked and the levels above it corrected up to node `i`: its block is
    taken out of the tree at `i`. -/
structure Slot (L a : Nat) (ba : BuddyAllocator) (t : BuddyTree) (h i : Nat) (ba₁ : BuddyAllocator)
    (j : Nat) (t' : BuddyTree) : Prop where
  level : heapLevel j = a
  alloc : Alloc h (firstPage L i) t (L - a) (firstPage L j) t'
  climb : ∃ ba₂, propagateStep^[a - heapLevel i] (ba₁.set j BUDDY_LEVEL_ALLOCATED, j) = (ba₂, i) ∧
    Rep ba₂.heap L t' h i ∧ ba₂.max_level = L ∧ ∀ x, ¬ Below i x → ba₂.heap x = ba.heap x

variable {a : Nat} {ba₁ : BuddyAllocator}

theorem climb_child {y : BuddyAllocator × Nat} (hc : c = heapLeft i ∨ c = heapRight i)
    (ha : heapLevel c ≤ a) (hclimb : propagateStep^[a - heapLevel c] y = (ba', c))
    (hmax : ba'.max_level = L) (hl : Rep ba'.heap L l h (heapLeft i))
    (hr : Rep ba'.heap L r h (heapRight i))
    (hframe : ∀ x, ¬ Below c x → ba'.heap x = ba.heap x) :
    ∃ ba₂, propagateStep^[a - heapLevel i] y = (ba₂, i) ∧ Rep ba₂.heap L (.split l r) (h + 1) i ∧
      ba₂.max_level = L ∧ ∀ x, ¬ Below i x → ba₂.heap x = ba.heap x := by
  have hlevel : heapLevel c = heapLevel i + 1 := by
    rcases hc with rfl | rfl
    · exact heapLevel_left i
    · exact heapLevel_right i
  have hbelow (x : Nat) (hx : Below c x) : Below i x := by
    rcases hc with rfl | rfl
    · exact hx.of_left
    · exact hx.of_right
  obtain ⟨ba₂, hstep, hrep, hmax₂, hsame⟩ := propagateStep_child hc hmax hl hr
  refine ⟨ba₂, ?_, hrep, hmax₂, fun x hx => ?_⟩
  · have hsucc : a - heapLevel i = (a - heapLevel c) + 1 := by omega
    rw [hsucc, iterate_succ_apply', hclimb, hstep]
  · have hne : x ≠ i := by
      rintro rfl
      exact hx (.refl x)
    rw [hsame x hne, hframe x fun hcx => hx (hbelow x hcx)]

theorem Slot.of_left (hL : Levels L (heapLevel i) (h + 1))
    (hr : Rep ba.heap L r h (heapRight i)) (hslot : Slot L a ba l h (heapLeft i) ba₁ j t')
    (ha : heapLevel (heapLeft i) ≤ a) :
    Alloc h (firstPage L i) l (L - a) (firstPage L j) t' ∧
    ∃ ba₂, propagateStep^[a - heapLevel i] (ba₁.set j BUDDY_LEVEL_ALLOCATED, j) = (ba₂, i) ∧
      Rep ba₂.heap L (.split t' r) (h + 1) i ∧ ba₂.max_level = L ∧
      ∀ x, ¬ Below i x → ba₂.heap x = ba.heap x := by
  obtain ⟨ba', hclimb, hrep, hmax', hframe⟩ := hslot.climb
  constructor
  · have hsum := hL.sum
    rw [← firstPage_left (by omega)]
    exact hslot.alloc
  · refine climb_child (.inl rfl) ha hclimb hmax' hrep ?_ hframe
    exact hr.congr fun x hx => hframe x fun hleft => hleft.not_right hx

theorem Slot.of_right (hL : Levels L (heapLevel i) (h + 1))
    (hl : Rep ba.heap L l h (heapLeft i)) (hslot : Slot L a ba r h (heapRight i) ba₁ j t')
    (ha : heapLevel (heapRight i) ≤ a) :
    Alloc h (firstPage L i + 2 ^ h) r (L - a) (firstPage L j) t' ∧
    ∃ ba₂, propagateStep^[a - heapLevel i] (ba₁.set j BUDDY_LEVEL_ALLOCATED, j) = (ba₂, i) ∧
      Rep ba₂.heap L (.split l t') (h + 1) i ∧ ba₂.max_level = L ∧
      ∀ x, ¬ Below i x → ba₂.heap x = ba.heap x := by
  obtain ⟨ba', hclimb, hrep, hmax', hframe⟩ := hslot.climb
  constructor
  · have hsum := hL.sum
    have hexp : L - heapLevel i - 1 = h := by omega
    have hpage : firstPage L (heapRight i) = firstPage L i + 2 ^ (L - heapLevel i - 1) :=
      firstPage_right (by omega)
    rw [hexp] at hpage
    rw [← hpage]
    exact hslot.alloc
  · refine climb_child (.inr rfl) ha hclimb hmax' ?_ hrep hframe
    exact hl.congr fun x hx => hframe x hx.not_right

theorem heap_splitBlock (hfree : AllFree ba.heap (h + 1) i) :
    (splitBlock ba i (heapLevel i)).heap = update ba.heap i (heapLevel i + 1) := by
  obtain ⟨-, hl, hr⟩ := hfree
  have hleft := hl.level
  have hright := hr.level
  rw [heapLevel_left] at hleft
  rw [heapLevel_right] at hright
  have hlt := lt_heapLeft i
  have hgt := lt_heapRight i
  funext x
  simp only [splitBlock, BuddyAllocator.set]
  by_cases hxr : x = heapRight i
  · subst hxr
    rw [update_self, update_of_ne (by omega), hright]
  · rw [update_of_ne hxr]
    by_cases hxl : x = heapLeft i
    · subst hxl
      rw [update_self, update_of_ne (by omega), hleft]
    · rw [update_of_ne hxl]

theorem pickChild_cases (ha : min (ba.heap (heapLeft i)) (ba.heap (heapRight i)) ≤ a) :
    (pickChild ba a i = heapLeft i ∧ ba.heap (heapLeft i) ≤ a) ∨
      (pickChild ba a i = heapRight i ∧ ba.heap (heapRight i) ≤ a) := by
  unfold pickChild
  split
  · split
    · exact .inr ⟨rfl, by omega⟩
    · exact .inl ⟨rfl, by omega⟩
  · split
    · exact .inl ⟨rfl, by omega⟩
    · exact .inr ⟨rfl, by omega⟩

theorem slot_here (hL : Levels L (heapLevel i) h) (hfree : AllFree ba.heap h i)
    (hmax : ba.max_level = L) : Slot L (heapLevel i) ba .free h i ba i .allocated := by
  have hsum := hL.sum
  have hexp : L - heapLevel i = h := by omega
  refine ⟨rfl, ?_, ba.set i BUDDY_LEVEL_ALLOCATED, ?_, ?_, hmax, ?_⟩
  · rw [hexp]
    exact .here h _
  · rw [Nat.sub_self]
    rfl
  · cases h with
    | zero => exact update_self ..
    | succ h =>
      obtain ⟨-, hl, hr⟩ := hfree
      refine ⟨update_self .., ?_, ?_⟩
      · exact Rep.update_left (t := .free) (L := L) hl
      · exact Rep.update_right (t := .free) (L := L) hr
  · intro x hx
    have hne : x ≠ i := by
      rintro rfl
      exact hx (.refl x)
    exact update_of_ne hne _ _

theorem acquireFrom_halve (hlevel : ba.heap i = level) (hne : level ≠ a) :
    acquireFrom a (n + 1) ba i level = acquireFrom a n (splitBlock ba i level)
      (pickChild (splitBlock ba i level) a i) (level + 1) := by
  rw [acquireFrom, if_neg fun h => hne (h.1.symm.trans h.2), if_pos hlevel]

theorem acquireFrom_descend (hne : ba.heap i ≠ level) :
    acquireFrom a (n + 1) ba i level = acquireFrom a n ba (pickChild ba a i) (level + 1) := by
  rw [acquireFrom, if_neg fun h => hne h.1, if_neg hne]

theorem acquireFrom_slot (haL : a ≤ L) (hL : Levels L (heapLevel i) h) (hfits : Fits h t)
    (hrep : Rep ba.heap L t h i) (hmax : ba.max_level = L)
    (ha : freeLevel L t (heapLevel i) ≤ a) :
    ∃ ba₁ j t', acquireFrom a (h + 1) ba i (heapLevel i) = some (ba₁, j) ∧
      Slot L a ba t h i ba₁ j t' := by
  induction hfits generalizing i ba with
  | allocated | unusable =>
    have hvalid := hL.valid
    simp only [freeLevel, BUDDY_LEVEL_ALLOCATED, BUDDY_LEVEL_UNUSABLE] at *
    omega
  | free h =>
    -- the block is free as a whole: it is the slot, or its left half has it
    induction h generalizing i ba with
    | zero =>
      have hsum := hL.sum
      have ha : heapLevel i ≤ a := ha
      obtain rfl : a = heapLevel i := by omega
      exact ⟨ba, i, .allocated, if_pos ⟨hrep.level, hrep.level⟩, slot_here hL hrep hmax⟩
    | succ h ih =>
      have hlevel : ba.heap i = heapLevel i := hrep.level
      by_cases heq : heapLevel i = a
      · subst heq
        exact ⟨ba, i, .allocated, if_pos ⟨hlevel, hlevel⟩, slot_here hL hrep hmax⟩
      have hlt : heapLevel i + 1 ≤ a := Nat.lt_of_le_of_ne ha heq
      have hheap := heap_splitBlock hrep
      obtain ⟨-, hl, hr⟩ := hrep
      have hl' : Rep (splitBlock ba i (heapLevel i)).heap L .free h (heapLeft i) := by
        rw [hheap]
        exact Rep.update_left (t := .free) hl
      have hr' : Rep (splitBlock ba i (heapLevel i)).heap L .free h (heapRight i) := by
        rw [hheap]
        exact Rep.update_right (t := .free) hr
      have hpick : pickChild (splitBlock ba i (heapLevel i)) a i = heapLeft i := by
        have hleft := AllFree.level hl'
        have hright := AllFree.level hr'
        rw [heapLevel_left] at hleft
        rw [heapLevel_right] at hright
        unfold pickChild
        rw [hleft, hright, if_neg (Nat.lt_irrefl _), if_pos hlt]
      obtain ⟨ba₁, j, t', hacquire, hslot⟩ :=
        ih (i := heapLeft i) (heapLevel_left i ▸ hL.child) hl' hmax (by rwa [heapLevel_left])
      obtain ⟨halloc, ba₂, hclimb, hrep₂, hmax₂, hframe⟩ :=
        hslot.of_left hL hr' (by rwa [heapLevel_left])
      refine ⟨ba₁, j, .split t' .free, ?_, hslot.level, .halve halloc, ba₂, hclimb, hrep₂, hmax₂, ?_⟩
      · rw [acquireFrom_halve hlevel heq, hpick, ← heapLevel_left]
        exact hacquire
      · intro x hx
        have hne : x ≠ i := by
          rintro rfl
          exact hx (.refl x)
        rw [hframe x hx, hheap, update_of_ne hne]
  | @split h l r hl hr hfree hunusable ihl ihr =>
    have hfits : Fits (h + 1) (.split l r) := .split hl hr hfree hunusable
    obtain ⟨hlevel, hrl, hrr⟩ := hrep
    have hne : ba.heap i ≠ heapLevel i := by
      intro heq
      cases eq_free_of_freeLevel hL hfits (hlevel.symm.trans heq)
    have hle := le_freeLevel hL hfits
    have hlt : heapLevel i + 1 ≤ a := by omega
    have hmin : min (ba.heap (heapLeft i)) (ba.heap (heapRight i)) ≤ a := by
      rw [hrl.level, hrr.level, heapLevel_left, heapLevel_right]
      simp only [freeLevel] at ha
      rcases parentFreeLevel_cases (L := L) (freeLevel L l (heapLevel i + 1))
        (freeLevel L r (heapLevel i + 1)) with ⟨-, heq⟩ | ⟨-, heq⟩
      · omega
      · have hvalid := hL.valid
        simp only [BUDDY_LEVEL_FILLED, BUDDY_LEVEL_UNUSABLE] at *
        omega
    rcases pickChild_cases hmin with ⟨hpick, hroom⟩ | ⟨hpick, hroom⟩
    · rw [hrl.level] at hroom
      obtain ⟨ba₁, j, t', hacquire, hslot⟩ :=
        ihl (i := heapLeft i) (heapLevel_left i ▸ hL.child) hrl hmax hroom
      obtain ⟨halloc, hclimb⟩ := hslot.of_left hL hrr (by rwa [heapLevel_left])
      refine ⟨ba₁, j, .split t' r, ?_, hslot.level, .left halloc, hclimb⟩
      rw [acquireFrom_descend hne, hpick, ← heapLevel_left]
      exact hacquire
    · rw [hrr.level] at hroom
      obtain ⟨ba₁, j, t', hacquire, hslot⟩ :=
        ihr (i := heapRight i) (heapLevel_right i ▸ hL.child) hrr hmax hroom
      obtain ⟨halloc, hclimb⟩ := hslot.of_right hL hrl (by rwa [heapLevel_right])
      refine ⟨ba₁, j, .split l t', ?_, hslot.level, .right halloc, hclimb⟩
      rw [acquireFrom_descend hne, hpick, ← heapLevel_right]
      exact hacquire

structure Represents (ba : BuddyAllocator) (t : BuddyTree) : Prop where
  valid : ba.max_level < BUDDY_LEVEL_UNUSABLE
  fits : Fits ba.max_level t
  rep : Rep ba.heap ba.max_level t ba.max_level 0

theorem Represents.levels (h : Represents ba t) : Levels ba.max_level (heapLevel 0) ba.max_level :=
  ⟨h.valid, Nat.zero_add _⟩

theorem uint64CeilLog2_le {n k : Nat} (hpos : n ≠ 0) (h : n ≤ 2 ^ k) : uint64CeilLog2 n ≤ k := by
  have hlog : 2 ^ n.log2 ≤ n := Nat.log2_self_le hpos
  unfold uint64CeilLog2 uint64IsPowerOf2
  split
  · exact (Nat.pow_le_pow_iff_right (by decide)).mp (Nat.le_trans hlog h)
  · rename_i hne
    have hlt : 2 ^ n.log2 < 2 ^ k := by
      refine Nat.lt_of_lt_of_le (Nat.lt_of_le_of_ne hlog fun heq => hne ?_) h
      exact decide_eq_true heq
    exact (Nat.pow_lt_pow_iff_right (by decide)).mp hlt

theorem le_two_pow_uint64CeilLog2 (n : Nat) : n ≤ 2 ^ uint64CeilLog2 n := by
  unfold uint64CeilLog2 uint64IsPowerOf2
  split
  · rename_i heq
    exact Nat.le_of_eq (of_decide_eq_true heq).symm
  · exact Nat.le_of_lt Nat.lt_log2_self

theorem buddyPageAlloc_cases (h : Represents ba t) (n : Nat) :
    (∃ ba' p t', buddyPageAlloc ba n = some (.ok (ba', p)) ∧ Represents ba' t' ∧
      ba'.max_level = ba.max_level ∧
      Alloc ba.max_level 0 t (uint64CeilLog2 (if n = 0 then 1 else n)) p t') ∨
    ∃ e, buddyPageAlloc ba n = some (.error e) ∧
      ∀ p, ¬ t.FreeBlock ba.max_level 0 (uint64CeilLog2 (if n = 0 then 1 else n)) p := by
  generalize hn' : (if n = 0 then 1 else n) = n'
  have hpos : n' ≠ 0 := by
    rw [← hn']
    split <;> omega
  unfold buddyPageAlloc
  simp only [hn']
  by_cases hbig : n' > 2 ^ ba.max_level
  · refine .inr ⟨.INVAL, if_pos hbig, fun p hp => ?_⟩
    have hle := hp.le
    have hn := le_two_pow_uint64CeilLog2 n'
    omega
  rw [if_neg hbig]
  have hk : uint64CeilLog2 n' ≤ ba.max_level := uint64CeilLog2_le hpos (Nat.le_of_not_lt hbig)
  by_cases hfull : ba.max_level - uint64CeilLog2 n' < ba.heap 0
  · refine .inr ⟨.NOMEM, if_pos hfull, fun p hp => ?_⟩
    have hle := freeLevel_le_of_block h.levels h.fits hp
    rw [h.rep.level] at hfull
    exact absurd hle (Nat.not_le.mpr hfull)
  rw [if_neg hfull]
  refine .inl ?_
  obtain ⟨ba₁, j, t', hacquire, hslot⟩ := acquireFrom_slot (a := ba.max_level - uint64CeilLog2 n')
    (Nat.sub_le _ _) h.levels h.fits h.rep rfl (h.rep.level ▸ Nat.le_of_not_lt hfull)
  obtain ⟨hlevel, halloc, ba₂, hclimb, hrep, hmax, -⟩ := hslot
  have hacquire : acquireEmptySlot ba (ba.max_level - uint64CeilLog2 n') = some (ba₁, j) := hacquire
  have hprop : propagate (ba₁.set j BUDDY_LEVEL_ALLOCATED) j = ba₂ := by
    have hclimb : propagateStep^[ba.max_level - uint64CeilLog2 n'] (_, j) = (ba₂, 0) := hclimb
    rw [propagate, hlevel, hclimb]
  have hpage : getFirstPageIndexFromBlockIndex ba₂ j = firstPage ba.max_level j := by
    rw [getFirstPageIndexFromBlockIndex_eq, hmax]
    have hvalid : ba.max_level < 253 := h.valid
    omega
  rw [firstPage_zero, Nat.sub_sub_self hk] at halloc
  refine ⟨ba₂, firstPage ba.max_level j, t', ?_, ⟨hmax ▸ h.valid, ?_, ?_⟩, hmax, halloc⟩
  · rw [hacquire, Option.map_some, hprop, hpage]
  · rw [hmax]
    exact halloc.fits h.fits
  · rw [hmax]
    exact hrep

theorem buddyPageAlloc_ok_iff (h : Represents ba t) {n : Nat} (hn : n ≠ 0) :
    (∃ ba' p, buddyPageAlloc ba n = some (.ok (ba', p))) ↔
      ∃ p, t.FreeBlock ba.max_level 0 (uint64CeilLog2 n) p := by
  have hcases := buddyPageAlloc_cases h n
  rw [if_neg hn] at hcases
  rcases hcases with ⟨ba', p, t', halloc, -, -, htaken⟩ | ⟨e, halloc, hnone⟩
  · exact iff_of_true ⟨ba', p, halloc⟩ ⟨p, htaken.freeBlock⟩
  · refine iff_of_false ?_ fun ⟨p, hp⟩ => hnone p hp
    rintro ⟨ba', p, hok⟩
    rw [halloc] at hok
    cases hok

/-! ## 6. Freeing -/

/-- `coalesce`, on its way up, has come to node `i` with a block that is free as a
    whole, or has stopped below it and `propagate` does the rest up to `i`. -/
inductive Coalesced (L : Nat) (ba : BuddyAllocator) (h i : Nat) :
    BuddyTree → BuddyAllocator × Nat → Prop
  | whole (ba₁ : BuddyAllocator) (hrep : Rep ba₁.heap L .free h i) (hmax : ba₁.max_level = L)
      (hframe : ∀ x, ¬ Below i x → ba₁.heap x = ba.heap x) : Coalesced L ba h i .free (ba₁, i)
  | stopped (t' : BuddyTree) (ba₁ : BuddyAllocator) (c : Nat)
      (hstop : coalesceStep (ba₁, c) = (ba₁, c)) (hle : heapLevel i ≤ heapLevel c)
      (hfree : t' ≠ .free) (hunusable : t' ≠ .unusable)
      (hclimb : ∃ ba₂, propagateStep^[heapLevel c - heapLevel i] (ba₁, c) = (ba₂, i) ∧
        Rep ba₂.heap L t' h i ∧ ba₂.max_level = L ∧ ∀ x, ¬ Below i x → ba₂.heap x = ba.heap x) :
      Coalesced L ba h i t' (ba₁, c)

inductive Side (i : Nat) (tc td : BuddyTree) : Nat → Nat → BuddyTree → BuddyTree → Prop
  | left : Side i tc td (heapLeft i) (heapRight i) tc td
  | right : Side i tc td (heapRight i) (heapLeft i) td tc

namespace Side

variable {c d : Nat} {tc td : BuddyTree}

theorem child (hs : Side i tc td c d l r) : c = heapLeft i ∨ c = heapRight i := by
  cases hs with
  | left => exact .inl rfl
  | right => exact .inr rfl

theorem levels (hs : Side i tc td c d l r) :
    heapLevel c = heapLevel i + 1 ∧ heapLevel d = heapLevel i + 1 := by
  cases hs with
  | left => exact ⟨heapLevel_left i, heapLevel_right i⟩
  | right => exact ⟨heapLevel_right i, heapLevel_left i⟩

theorem rep (hs : Side i tc td c d l r) (hc : Rep heap L tc h c) (hd : Rep heap L td h d) :
    Rep heap L l h (heapLeft i) ∧ Rep heap L r h (heapRight i) := by
  cases hs with
  | left => exact ⟨hc, hd⟩
  | right => exact ⟨hd, hc⟩

theorem keep (hs : Side i tc td c d l r) (hd : Rep ba.heap L td h d)
    (hframe : ∀ x, ¬ Below c x → ba'.heap x = ba.heap x) : Rep ba'.heap L td h d := by
  cases hs with
  | left => exact hd.congr fun x hx => hframe x fun hleft => hleft.not_right hx
  | right => exact hd.congr fun x hx => hframe x hx.not_right

theorem join_split (hs : Side i tc td c d l r) (hfree : tc = .free → td ≠ .free)
    (hunusable : tc ≠ .unusable) : join l r = .split l r := by
  cases hs with
  | left => exact join_eq_split hfree fun hu => absurd hu hunusable
  | right => exact join_eq_split (fun hd hc => hfree hc hd) fun _ => hunusable

theorem coalesceStep_eq (hs : Side i tc td c d l r) : coalesceStep (ba, c) =
    if ba.heap d = heapLevel d then (ba.set i (heapLevel i), i) else (ba, c) := by
  have hlt := lt_heapLeft i
  have hgt := lt_heapRight i
  obtain ⟨hc, hd⟩ := hs.levels
  rw [hd, coalesceStep, hc]
  cases hs with
  | left =>
    rw [heapSibling_left, heapParent_left]
    exact if_congr (and_iff_right (by omega)) rfl rfl
  | right =>
    rw [heapSibling_right, heapParent_right]
    exact if_congr (and_iff_right (by omega)) rfl rfl

end Side

theorem Rep.free_iff (hL : Levels L (heapLevel i) h) (hfits : Fits h t) (hrep : Rep heap L t h i) :
    heap i = heapLevel i ↔ t = .free := by
  constructor
  · intro heq
    exact eq_free_of_freeLevel hL hfits (hrep.level.symm.trans heq)
  · rintro rfl
    exact hrep.level

theorem Coalesced.child {c d : Nat} {tc td : BuddyTree} {y : BuddyAllocator × Nat}
    (hs : Side i tc td c d l r) (hL : Levels L (heapLevel i) (h + 1)) (hfits : Fits h td)
    (hd : Rep ba.heap L td h d) (hy : Coalesced L ba h c tc y) :
    Coalesced L ba (h + 1) i (join l r) (coalesceStep y) := by
  obtain ⟨hlevel, hlevel'⟩ := hs.levels
  have hbelow {x : Nat} (hx : ¬ Below i x) : ¬ Below c x := by
    rcases hs.child with rfl | rfl
    · exact fun hleft => hx hleft.of_left
    · exact fun hright => hx hright.of_right
  cases hy with
  | whole ba₁ hrep hmax hframe =>
    have hd₁ := hs.keep hd hframe
    have hiff := hd₁.free_iff (hlevel' ▸ hL.child) hfits
    obtain ⟨hl, hr⟩ := hs.rep hrep hd₁
    by_cases hfree : td = .free
    · have hstep : coalesceStep (ba₁, c) = (ba₁.set i (heapLevel i), i) := by
        rw [hs.coalesceStep_eq, if_pos (hiff.mpr hfree)]
      have hjoin : l = .free ∧ r = .free := by
        cases hs with
        | left => exact ⟨rfl, hfree⟩
        | right => exact ⟨hfree, rfl⟩
      obtain ⟨rfl, rfl⟩ := hjoin
      rw [hstep]
      refine .whole _ ⟨update_self .., hl.update_left, hr.update_right⟩ hmax fun x hx => ?_
      have hne : x ≠ i := by
        rintro rfl
        exact hx (.refl x)
      exact (update_of_ne hne _ _).trans (hframe x (hbelow hx))
    · have hstop : coalesceStep (ba₁, c) = (ba₁, c) := by
        rw [hs.coalesceStep_eq, if_neg (mt hiff.mp hfree)]
      rw [hstop, hs.join_split (fun _ => hfree) nofun]
      refine .stopped _ ba₁ c hstop (by omega) nofun nofun ?_
      exact climb_child hs.child (Nat.le_refl _) (by rw [Nat.sub_self]; rfl) hmax hl hr hframe
  | stopped _ ba₁ c' hstop hle hfree hunusable hclimb =>
    obtain ⟨ba₂, hclimb, hrep, hmax, hframe⟩ := hclimb
    obtain ⟨hl, hr⟩ := hs.rep hrep (hs.keep hd hframe)
    rw [hstop, hs.join_split (fun hf => absurd hf hfree) hunusable]
    refine .stopped _ ba₁ c' hstop (by omega) nofun nofun ?_
    exact climb_child hs.child hle hclimb hmax hl hr hframe

theorem blockIndexFrom_split (hL : Levels L (heapLevel i) (h + 1)) (hfits : Fits (h + 1) (.split l r))
    (hrep : Rep ba.heap L (.split l r) (h + 1) i) (hmax : ba.max_level = L) :
    blockIndexFrom ba q (h + 1 + 1) i (heapLevel i) =
      if firstPage L i + 2 ^ h ≤ q then
        blockIndexFrom ba q (h + 1) (heapRight i) (heapLevel (heapRight i))
      else blockIndexFrom ba q (h + 1) (heapLeft i) (heapLevel (heapLeft i)) := by
  have hvalid := hL.valid
  have hsum := hL.sum
  have hheap := hrep.level
  have hallocated : ba.heap i ≠ BUDDY_LEVEL_ALLOCATED := by
    rw [hheap, freeLevel]
    rcases parentFreeLevel_cases (L := L) (freeLevel L l (heapLevel i + 1))
      (freeLevel L r (heapLevel i + 1)) with ⟨hle, heq⟩ | ⟨-, heq⟩
    · simp only [BUDDY_LEVEL_ALLOCATED, BUDDY_LEVEL_UNUSABLE] at *
      omega
    · rw [heq]
      decide
  have hlevel : ba.heap i ≠ heapLevel i := by
    intro heq
    cases eq_free_of_freeLevel hL hfits (hheap.symm.trans heq)
  have husable : ba.heap i ≠ BUDDY_LEVEL_UNUSABLE := by
    intro heq
    cases eq_unusable_of_freeLevel hL (hheap.symm.trans heq)
  have hpage : getFirstPageIndexFromBlockIndex ba (heapRight i) = firstPage L i + 2 ^ h := by
    have hlt : heapLevel (heapRight i) < 2 ^ 8 := by
      rw [heapLevel_right]
      simp only [BUDDY_LEVEL_UNUSABLE] at hvalid
      omega
    have hexp : L - heapLevel i - 1 = h := by omega
    rw [getFirstPageIndexFromBlockIndex_eq hlt, hmax, firstPage_right (by omega), hexp]
  rw [blockIndexFrom, if_neg hallocated, if_neg hlevel, if_neg husable, hpage, heapLevel_right,
    heapLevel_left]
  split <;> rfl

theorem blockIndexFrom_coalesced (hL : Levels L (heapLevel i) h) (hfits : Fits h t)
    (hrep : Rep ba.heap L t h i) (hmax : ba.max_level = L)
    (hfind : blockIndexFrom ba q (h + 1) i (heapLevel i) = .ok j) :
    ∃ t', Release q h (firstPage L i) t t' ∧ heapLevel i ≤ heapLevel j ∧
      Coalesced L ba h i t'
        (coalesceStep^[heapLevel j - heapLevel i] (ba.set j (heapLevel j), j)) := by
  have hvalid := hL.valid
  have hsum := hL.sum
  have hheap := hrep.level
  induction hfits generalizing i with
  | free =>
    have hheap : ba.heap i = heapLevel i := hheap
    have hne : ba.heap i ≠ BUDDY_LEVEL_ALLOCATED := by
      simp only [BUDDY_LEVEL_ALLOCATED, BUDDY_LEVEL_UNUSABLE] at *
      omega
    rw [blockIndexFrom, if_neg hne, if_pos hheap] at hfind
    cases hfind
  | unusable =>
    have hheap : ba.heap i = BUDDY_LEVEL_UNUSABLE := hheap
    have hne : BUDDY_LEVEL_UNUSABLE ≠ heapLevel i := by omega
    rw [blockIndexFrom, hheap, if_neg (by decide), if_neg hne, if_pos rfl] at hfind
    cases hfind
  | allocated h =>
    have hheap : ba.heap i = BUDDY_LEVEL_ALLOCATED := hheap
    rw [blockIndexFrom, if_pos hheap] at hfind
    obtain rfl : j = i := (Except.ok.inj hfind).symm
    refine ⟨.free, .here h _, Nat.le_refl _, ?_⟩
    rw [Nat.sub_self]
    refine .whole _ ?_ hmax fun x hx => ?_
    · cases h with
      | zero => exact update_self ..
      | succ h =>
        obtain ⟨-, hl, hr⟩ := hrep
        refine ⟨update_self .., ?_, ?_⟩
        · exact Rep.update_left (t := .free) (L := L) hl
        · exact Rep.update_right (t := .free) (L := L) hr
    · have hne : x ≠ j := by
        rintro rfl
        exact hx (.refl x)
      exact update_of_ne hne _ _
  | @split h l r hl hr hfree hunusable ihl ihr =>
    rw [blockIndexFrom_split hL (.split hl hr hfree hunusable) hrep hmax] at hfind
    obtain ⟨-, hrl, hrr⟩ := hrep
    by_cases hq : q ≥ firstPage L i + 2 ^ h
    · rw [if_pos hq] at hfind
      have hL' : Levels L (heapLevel (heapRight i)) h := heapLevel_right i ▸ hL.child
      obtain ⟨t', hrelease, hle, hcoalesced⟩ := ihr hL' hrr hfind hL'.sum hrr.level
      have hsucc : heapLevel j - heapLevel i = (heapLevel j - heapLevel (heapRight i)) + 1 := by
        rw [heapLevel_right] at hle ⊢
        omega
      refine ⟨join l t', .right hq ?_, ?_, ?_⟩
      · rwa [firstPage_right (by omega), show L - heapLevel i - 1 = h by omega] at hrelease
      · rw [heapLevel_right] at hle
        omega
      · rw [hsucc, iterate_succ_apply']
        exact hcoalesced.child .right hL hl hrl
    · rw [if_neg hq] at hfind
      have hL' : Levels L (heapLevel (heapLeft i)) h := heapLevel_left i ▸ hL.child
      obtain ⟨t', hrelease, hle, hcoalesced⟩ := ihl hL' hrl hfind hL'.sum hrl.level
      have hsucc : heapLevel j - heapLevel i = (heapLevel j - heapLevel (heapLeft i)) + 1 := by
        rw [heapLevel_left] at hle ⊢
        omega
      refine ⟨join t' r, .left (Nat.lt_of_not_le hq) ?_, ?_, ?_⟩
      · rwa [firstPage_left (by omega)] at hrelease
      · rw [heapLevel_left] at hle
        omega
      · rw [hsucc, iterate_succ_apply']
        exact hcoalesced.child .left hL hr hrr

theorem buddyPageFree_release (h : Represents ba t) (hfree : buddyPageFree ba q = .ok ba') :
    ∃ t', Release q ba.max_level 0 t t' ∧ Represents ba' t' ∧ ba'.max_level = ba.max_level := by
  unfold buddyPageFree at hfree
  cases hfind : getBlockIndexFromPageIndex ba q with
  | error e =>
    rw [hfind] at hfree
    cases hfree
  | ok j =>
    rw [hfind] at hfree
    obtain ⟨t', hrelease, -, hcoalesced⟩ := blockIndexFrom_coalesced h.levels h.fits h.rep rfl hfind
    rw [firstPage_zero] at hrelease
    have hset : (ba.set j (heapLevel j)).heap j = heapLevel j := update_self ..
    generalize hy : coalesceStep^[heapLevel j - heapLevel 0] (ba.set j (heapLevel j), j) = y at hcoalesced
    have hco : coalesce (ba.set j (heapLevel j)) j = y := by
      rw [coalesce, if_neg (not_not.mpr hset)]
      exact hy
    have hend : propagate y.1 y.2 = ba' := by
      rw [← hco]
      exact Except.ok.inj hfree
    have hfits := hrelease.fits h.fits
    refine ⟨t', hrelease, ?_⟩
    cases hcoalesced with
    | whole ba₁ hrep hmax =>
      obtain rfl : ba₁ = ba' := hend
      exact ⟨⟨hmax ▸ h.valid, hmax ▸ hfits, hmax ▸ hrep⟩, hmax⟩
    | stopped _ ba₁ c _ _ _ _ hclimb =>
      obtain ⟨ba₂, hclimb, hrep, hmax, -⟩ := hclimb
      obtain rfl : ba₂ = ba' := by
        rw [← hend, propagate]
        exact (congrArg Prod.fst hclimb).symm
      exact ⟨⟨hmax ▸ h.valid, hmax ▸ hfits, hmax ▸ hrep⟩, hmax⟩

theorem blockIndexFrom_of_out {k : Nat} (hL : Levels L (heapLevel i) h) (hfits : Fits h t)
    (hrep : Rep ba.heap L t h i) (hmax : ba.max_level = L) (hout : t.Out h (firstPage L i) k q) :
    ∃ j, blockIndexFrom ba q (h + 1) i (heapLevel i) = .ok j := by
  have hsum := hL.sum
  induction hfits generalizing i with
  | free | unusable => exact hout.elim
  | allocated h =>
    have hheap : ba.heap i = BUDDY_LEVEL_ALLOCATED := hrep.level
    exact ⟨i, by rw [blockIndexFrom, if_pos hheap]⟩
  | @split h l r hl hr hfree hunusable ihl ihr =>
    have hpos := Nat.two_pow_pos k
    rw [blockIndexFrom_split hL (.split hl hr hfree hunusable) hrep hmax]
    obtain ⟨-, hrl, hrr⟩ := hrep
    rcases hout with hleft | hright
    · have hblock := hleft.block
      have hL' : Levels L (heapLevel (heapLeft i)) h := heapLevel_left i ▸ hL.child
      rw [if_neg (by omega)]
      exact ihl hL' hrl (by rwa [firstPage_left (by omega)]) hL'.sum
    · have hblock := hright.block
      have hL' : Levels L (heapLevel (heapRight i)) h := heapLevel_right i ▸ hL.child
      have hexp : L - heapLevel i - 1 = h := by omega
      rw [if_pos (by omega)]
      exact ihr hL' hrr (by rwa [firstPage_right (by omega), hexp]) hL'.sum

theorem buddyPageFree_of_out {k : Nat} (h : Represents ba t) (hout : t.Out ba.max_level 0 k q) :
    ∃ ba', buddyPageFree ba q = .ok ba' := by
  rw [← firstPage_zero ba.max_level] at hout
  obtain ⟨j, hj⟩ := blockIndexFrom_of_out h.levels h.fits h.rep rfl hout
  have hj : getBlockIndexFromPageIndex ba q = .ok j := hj
  exact ⟨_, by rw [buddyPageFree, hj]; rfl⟩

end GovinDos.Buddy
