/-
  **`as_flag` re-flags exactly the range it is given.**

  The loop takes the largest leaf that fits at each position (`LeafChoice`).  `asFlag_spec`
  states the effect of a whole call on the page map and `asFlag_exact` on the hardware walk.
-/
import GovinDos.PagingRefinement

namespace GovinDos.Paging

open RadixTree Function

variable {end_ a p q L : Nat}

/-! ## 1. The leaf chosen at a position -/

def leafHeight (end_ a : Nat) : Nat :=
  if a % GIB = 0 ∧ GIB ≤ end_ - a then 2
  else if a % (2 * MIB) = 0 ∧ 2 * MIB ≤ end_ - a then 1
  else 0

structure LeafChoice (end_ a L : Nat) : Prop where
  le_two : L ≤ 2
  aligned : a % LEVEL_SIZE (L + 1) = 0
  fits : a + LEVEL_SIZE (L + 1) ≤ end_
  maximal : ∀ L', L < L' → L' ≤ 2 →
    a % LEVEL_SIZE (L' + 1) = 0 → end_ < a + LEVEL_SIZE (L' + 1)

theorem leafHeight_choice (ha : a % PAGE_SIZE = 0) (hend : end_ % PAGE_SIZE = 0)
    (hlt : a < end_) : LeafChoice end_ a (leafHeight end_ a) := by
  have h1 : LEVEL_SIZE (0 + 1) = 4096 := rfl
  have h2 : LEVEL_SIZE (1 + 1) = 2 * MIB := rfl
  have h3 : LEVEL_SIZE (2 + 1) = GIB := rfl
  rw [show PAGE_SIZE = 4096 from rfl] at ha hend
  rw [leafHeight]
  split
  · rename_i hgib
    exact ⟨by omega, hgib.1, by omega, fun L' hl hle => by omega⟩
  · split
    · rename_i hgib hmib
      refine ⟨by omega, hmib.1, by omega, fun L' hl hle halign => ?_⟩
      obtain rfl : L' = 2 := by omega
      rw [h3] at halign ⊢
      omega
    · rename_i hgib hmib
      refine ⟨by omega, ha, by omega, fun L' hl hle halign => ?_⟩
      obtain rfl | rfl : L' = 1 ∨ L' = 2 := by omega
      · rw [h2] at halign ⊢
        omega
      · rw [h3] at halign ⊢
        omega

def bitsValue (leaf_base : Pte) : Option Pte :=
  if leaf_base &&& PTE_P ≠ 0 then some leaf_base else none

theorem flagLoop_step (leaf_base : Pte) (as : AddressSpace) (hlt : a < end_) :
    flagLoop leaf_base end_ a as =
      (installLeaf as a (leafHeight end_ a + 1)
        (leafPte (leafHeight end_ a + 1) a (bitsValue leaf_base))).bind
        (flagLoop leaf_base end_ (a + LEVEL_SIZE (leafHeight end_ a + 1))) := by
  have hword : ∀ l, leafPte l a (bitsValue leaf_base) =
      if decide (leaf_base &&& PTE_P ≠ 0) then BitVec.ofNat 64 a ||| leaf_base ||| psBit l else 0 := by
    intro l
    rw [bitsValue]
    by_cases hpres : leaf_base &&& PTE_P ≠ 0
    · rw [if_pos hpres, if_pos (decide_eq_true hpres)]
      rfl
    · rw [if_neg hpres, if_neg (by simpa using hpres)]
      rfl
  rw [flagLoop, if_pos hlt, leafHeight]
  simp only [hword]
  split
  · rfl
  · split
    · rfl
    · simp only [psBit, LEVEL_SIZE, pow_zero, mul_one]
      simp

theorem flagLoop_done (leaf_base : Pte) (as : AddressSpace) (hle : end_ ≤ a) :
    flagLoop leaf_base end_ a as = some as := by
  rw [flagLoop, if_neg (Nat.not_lt.mpr hle)]

/-! ## 2. The loop -/

section Loop

variable {leaf_base : Pte} {end_ : Nat}

/-- **The loop rule.**  `Inv a as` holds before the round at `a`, which puts one chosen
    leaf; at the end `Inv end_` holds. -/
theorem flagLoop_spec (Inv : Nat → AddressSpace → Prop)
    (hv : ∀ f ∈ bitsValue leaf_base, FlagBits f) (hend : end_ % PAGE_SIZE = 0)
    (hmax : end_ ≤ 2 ^ 48)
    (hround : ∀ a L as as', a < end_ → a % PAGE_SIZE = 0 → LeafChoice end_ a L →
      RootOk as.root → Inv a as →
      Rewritten as as' (update (forest as.root) (digit 512 3 (a / PAGE_SIZE))
        (put L (a / PAGE_SIZE) (bitsValue leaf_base) 3
          (forest as.root (digit 512 3 (a / PAGE_SIZE))))) →
      Inv (a + LEVEL_SIZE (L + 1)) as')
    {a : Nat} {as : AddressSpace} (ha : a % PAGE_SIZE = 0) (hle : a ≤ end_)
    (hroot : RootOk as.root) (hinv : Inv a as) :
    ∃ as', flagLoop leaf_base end_ a as = some as' ∧ RootOk as'.root ∧ Inv end_ as' ∧
      leaked as' = leaked as ∧ as'.pins = as.pins := by
  induction hn : end_ - a using Nat.strong_induction_on generalizing a as with
  | h n ih =>
    by_cases hlt : a < end_
    · have hchoice := leafHeight_choice ha hend hlt
      have hpos := LEVEL_SIZE_pos (leafHeight end_ a)
      have hfits := hchoice.fits
      obtain ⟨as₁, hinstall, hrew⟩ :=
        installLeaf_spec hroot hchoice.le_two (by omega) hchoice.aligned hv
      have ha₁ : (a + LEVEL_SIZE (leafHeight end_ a + 1)) % PAGE_SIZE = 0 := by
        rw [Nat.add_mod, ha, LEVEL_SIZE_mod_page]
        rfl
      obtain ⟨as', hrun, hroot', hinv', hleak, hpins⟩ :=
        ih _ (by omega) ha₁ hfits hrew.root
          (hround a _ as as₁ hlt ha hchoice hroot hinv hrew) rfl
      refine ⟨as', ?_, hroot', hinv', hleak.trans hrew.leaked, hpins.trans hrew.pins⟩
      rw [flagLoop_step leaf_base as hlt, hinstall, Option.bind_some, hrun]
    · obtain rfl : a = end_ := by omega
      exact ⟨as, flagLoop_done leaf_base as (Nat.le_refl _), hroot, hinv, rfl, rfl⟩

end Loop

/-! ## 3. The page map -/

theorem pageBits_eq_forest (root : Table) (p : Nat) :
    pageBits root p = get 3 (forest root (digit 512 3 p)) p := rfl

theorem root_index_eq (hp : p < 512 ^ 4) (hq : q < 512 ^ 4)
    (hd : digit 512 3 q = digit 512 3 p) : q / 512 ^ 3 = p / 512 ^ 3 := by
  refine (digit_eq_iff ?_).mp hd
  rw [Nat.div_eq_of_lt hq, Nat.div_eq_of_lt hp]

theorem pageBits_put {root root' : Table} {v : Option Pte} (hL : L ≤ 3)
    (hp : p < 512 ^ 4) (hq : q < 512 ^ 4)
    (hroot : forest root' = update (forest root) (digit 512 3 p)
      (put L p v 3 (forest root (digit 512 3 p)))) :
    pageBits root' q = if q / 512 ^ L = p / 512 ^ L then v else pageBits root q := by
  rw [pageBits_eq_forest, hroot]
  by_cases hd : digit 512 3 q = digit 512 3 p
  · rw [hd, update_self, get_put v _ hL (root_index_eq hp hq hd), pageBits_eq_forest, hd]
  · have hne : ¬ q / 512 ^ L = p / 512 ^ L := by
      intro heq
      have h3 : q / 512 ^ 3 = p / 512 ^ 3 := index_mono (k := 512) hL heq
      exact hd (Fin.ext (by rw [digit_val, digit_val, h3]))
    rw [update_of_ne hd, if_neg hne, pageBits_eq_forest]

theorem pageBits_collapsePath {root root' : Table}
    (hroot : forest root' = update (forest root) (digit 512 3 p)
      (collapsePath 2 p 3 (forest root (digit 512 3 p)))) :
    pageBits root' q = pageBits root q := by
  rw [pageBits_eq_forest, hroot]
  by_cases hd : digit 512 3 q = digit 512 3 p
  · rw [hd, update_self, get_collapsePath, pageBits_eq_forest, hd]
  · rw [update_of_ne hd, pageBits_eq_forest]

theorem same_leaf_iff (halign : a % LEVEL_SIZE (L + 1) = 0) :
    q / 512 ^ L = a / PAGE_SIZE / 512 ^ L ↔
      a / PAGE_SIZE ≤ q ∧ q < (a + LEVEL_SIZE (L + 1)) / PAGE_SIZE := by
  obtain ⟨m, rfl⟩ := Nat.dvd_of_mod_eq_zero halign
  have hpos : 0 < 512 ^ L := Nat.pow_pos (by decide)
  have hbase : LEVEL_SIZE (L + 1) * m / PAGE_SIZE = 512 ^ L * m := by
    rw [LEVEL_SIZE_succ, Nat.mul_assoc, Nat.mul_div_cancel_left _ (by decide)]
  have hnext : (LEVEL_SIZE (L + 1) * m + LEVEL_SIZE (L + 1)) / PAGE_SIZE = 512 ^ L * m + 512 ^ L := by
    rw [LEVEL_SIZE_succ, Nat.mul_assoc, ← Nat.mul_add, Nat.mul_div_cancel_left _ (by decide)]
  rw [hbase, hnext, Nat.mul_div_cancel_left _ hpos, Nat.div_eq_iff hpos]
  rw [Nat.mul_comm m]
  omega

/-! ## 4. A whole call -/

def FlagsOk (flags : PagingFlags) : Prop := flags &&& PAGE_R ≠ 0 ∨ flags &&& PAGE_ACCESS = 0

instance (flags : PagingFlags) : Decidable (FlagsOk flags) := by unfold FlagsOk; infer_instance

def hardwareBits (flags : PagingFlags) : Option Pte := (leafFlagsToPte flags).bind bitsValue

theorem FlagsOk.translate {flags : PagingFlags} (hok : FlagsOk flags) :
    ∃ bits, leafFlagsToPte flags = some bits ∧ hardwareBits flags = bitsValue bits ∧
      (bitsValue bits = if flags &&& PAGE_ACCESS = 0 then none else some bits) ∧
      ∀ f ∈ bitsValue bits, FlagBits f := by
  rcases hok with hread | hnone
  · obtain ⟨bits, hbits, hflags⟩ := leafFlagsToPte_present hread
    have hval : bitsValue bits = some bits := if_pos hflags.present
    refine ⟨bits, hbits, by rw [hardwareBits, hbits]; rfl, ?_, ?_⟩
    · rw [if_neg (access_of_read hread), hval]
    · rw [hval]
      rintro f ⟨⟩
      exact hflags
  · have hbits := leafFlagsToPte_absent hnone
    have hval : bitsValue 0 = none := by decide
    refine ⟨0, hbits, by rw [hardwareBits, hbits]; rfl, ?_, ?_⟩
    · rw [if_pos hnone, hval]
    · rw [hval]
      rintro f ⟨⟩

/-- **The effect of `as_flag` on the page map.**  The call returns, sets the
    pages of the range and no other, and keeps the tree well formed. -/
theorem asFlag_spec {as : AddressSpace} (addr end_ : Nat) (flags : PagingFlags)
    (hroot : RootOk as.root) (haddr : addr % PAGE_SIZE = 0) (hend : end_ % PAGE_SIZE = 0)
    (hle : addr ≤ end_) (hmax : end_ ≤ 2 ^ 48) (hflags : FlagsOk flags) :
    ∃ as', asFlag as addr end_ flags = some as' ∧ RootOk as'.root ∧
      leaked as' = leaked as ∧ as'.pins = as.pins ∧
      ∀ q < 512 ^ 4, pageBits as'.root q =
        if addr / PAGE_SIZE ≤ q ∧ q < end_ / PAGE_SIZE then hardwareBits flags
        else pageBits as.root q := by
  rw [asFlag, if_pos ⟨haddr, hend, hle⟩]
  by_cases hempty : addr = end_
  · subst hempty
    refine ⟨as, if_pos rfl, hroot, rfl, rfl, fun q _ => ?_⟩
    rw [if_neg (by omega)]
  obtain ⟨bits, hbits, hhard, -, hv⟩ := hflags.translate
  rw [if_neg hempty, hbits, Option.bind_some, hhard]
  -- before the round at `a`, the pages from `addr` up to `a` are done
  obtain ⟨as₁, hloop, hroot₁, hmap₁, hleak₁, hpins₁⟩ := flagLoop_spec
    (fun a as₁ => addr ≤ a ∧ ∀ q < 512 ^ 4, pageBits as₁.root q =
      if addr / PAGE_SIZE ≤ q ∧ q < a / PAGE_SIZE then bitsValue bits else pageBits as.root q)
    hv hend hmax
    (by
      rintro a L as₁ as₂ halt ha hchoice - ⟨haddrle, hmap⟩ hrew
      refine ⟨by omega, fun q hq => ?_⟩
      have hle' : addr / PAGE_SIZE ≤ a / PAGE_SIZE := Nat.div_le_div_right haddrle
      have hnext : a / PAGE_SIZE ≤ (a + LEVEL_SIZE (L + 1)) / PAGE_SIZE :=
        Nat.div_le_div_right (by omega)
      have h2 := hchoice.le_two
      rw [pageBits_put (by omega) (page_lt (by omega)) hq hrew.forest, hmap q hq]
      simp only [same_leaf_iff hchoice.aligned]
      by_cases hleaf : a / PAGE_SIZE ≤ q ∧ q < (a + LEVEL_SIZE (L + 1)) / PAGE_SIZE
      · rw [if_pos hleaf, if_pos ⟨by omega, hleaf.2⟩]
      · rw [if_neg hleaf]
        by_cases hdone : addr / PAGE_SIZE ≤ q ∧ q < a / PAGE_SIZE
        · rw [if_pos hdone, if_pos ⟨hdone.1, by omega⟩]
        · rw [if_neg hdone, if_neg (by omega)])
    haddr hle hroot ⟨Nat.le_refl _, fun q _ => by rw [if_neg (by omega)]⟩
  rw [hloop]
  -- the merges change the shape only
  have hpage : PAGE_SIZE = 4096 := rfl
  have hm₁ := tryMergePath_spec { as₁ with toEffects := markDirty as₁.toEffects addr end_ } addr
    hroot₁ (by omega)
  have hm₂ := tryMergePath_spec _ (end_ - PAGE_SIZE) hm₁.root (by omega)
  refine ⟨_, rfl, hm₂.root, ?_, ?_, fun q hq => ?_⟩
  · rw [hm₂.leaked, hm₁.leaked]
    exact hleak₁
  · rw [hm₂.pins, hm₁.pins]
    exact hpins₁
  · rw [pageBits_collapsePath hm₂.forest, pageBits_collapsePath hm₁.forest]
    exact hmap₁.2 q hq

/-! ## 5. The tree built at boot -/

theorem flagBits_pristine : FlagBits PRISTINE_BITS := ⟨by decide, by decide, by decide⟩

theorem identity_leaf (j : Fin 512) :
    EntryOk 2 j.val (.ofWord (BitVec.ofNat 64 (j.val * GIB) ||| PRISTINE_BITS ||| PTE_PS)) ∧
      erase (.ofWord (BitVec.ofNat 64 (j.val * GIB) ||| PRISTINE_BITS ||| PTE_PS)) =
        .leaf PRISTINE_BITS ∧
      tables (.ofWord (BitVec.ofNat 64 (j.val * GIB) ||| PRISTINE_BITS ||| PTE_PS)) = 0 := by
  have hj : j.val < 512 ^ (4 - 2) := lt_trans j.isLt (by decide)
  exact ofWord_leafPte (v := some PRISTINE_BITS) (Nat.le_refl 2) hj (by
    rintro f ⟨⟩
    exact flagBits_pristine)

theorem asIdentityMapping_root (i : Fin 512) : asIdentityMapping.root i =
    if i = 0 then .table fun j =>
      .ofWord (BitVec.ofNat 64 (j.val * GIB) ||| PRISTINE_BITS ||| PTE_PS) else .absent := rfl

theorem rootOk_asIdentityMapping : RootOk asIdentityMapping.root := by
  intro i
  rw [asIdentityMapping_root]
  by_cases hi : i = 0
  · subst hi
    rw [if_pos rfl, entryOk_table]
    intro j
    simpa using (identity_leaf j).1
  · rw [if_neg hi]
    exact entryOk_absent _ _

theorem forest_asIdentityMapping (i : Fin 512) : forest asIdentityMapping.root i =
    if i = 0 then .node fun _ => .leaf PRISTINE_BITS else .absent := by
  rw [forest, asIdentityMapping_root]
  by_cases hi : i = 0
  · rw [if_pos hi, if_pos hi, erase_table]
    exact congrArg RadixTree.node (funext fun j => (identity_leaf j).2.1)
  · rw [if_neg hi, if_neg hi]
    rfl

theorem pageBits_asIdentityMapping (hp : p < 512 ^ 4) :
    pageBits asIdentityMapping.root p = if p < 512 ^ 3 then some PRISTINE_BITS else none := by
  rw [pageBits_eq_forest, forest_asIdentityMapping]
  have hdigit : digit 512 3 p = 0 ↔ p < 512 ^ 3 := by
    have hq : p / 512 ^ 3 < 512 := by omega
    rw [Fin.ext_iff, digit_val, Nat.mod_eq_of_lt hq]
    show p / 512 ^ 3 = 0 ↔ _
    omega
  by_cases hlow : p < 512 ^ 3
  · rw [if_pos (hdigit.mpr hlow), if_pos hlow, get_node, get_leaf]
  · rw [if_neg (fun h => hlow (hdigit.mp h)), if_neg hlow, get_absent]

theorem leaked_asIdentityMapping : leaked asIdentityMapping = 0 := by
  have hroot : ∀ i : Fin 512, i ≠ 0 → tables (asIdentityMapping.root i) = 0 := by
    intro i hi
    rw [asIdentityMapping_root, if_neg hi]
    rfl
  have hzero : tables (asIdentityMapping.root 0) = 1 := by
    rw [asIdentityMapping_root, if_pos rfl, tables_table]
    simp [fun j => (identity_leaf j).2.2]
  rw [leaked, asTableCount_eq rootOk_asIdentityMapping, tables_table,
    Finset.sum_eq_single 0 (fun i _ hi => hroot i hi) (by simp), hzero]
  rfl

/-! ## 6. The hardware walk -/

/-- **Range re-flagging is exact.**  Addresses of the range translate to themselves with
    the bits of the flags, or not at all when those carry no access bit; every other
    address translates as before. -/
theorem asFlag_exact (as : AddressSpace) (addr end_ : Nat) (flags : PagingFlags)
    (hroot : RootOk as.root) (haddr : addr % PAGE_SIZE = 0) (hend : end_ % PAGE_SIZE = 0)
    (hle : addr ≤ end_) (hmax : end_ ≤ 2 ^ 48) (hflags : FlagsOk flags) :
    ∃ as' bits, asFlag as addr end_ flags = some as' ∧ leafFlagsToPte flags = some bits ∧
      RootOk as'.root ∧
      (∀ a, addr ≤ a → a < end_ →
        translate as'.root a = if flags &&& PAGE_ACCESS = 0 then none else some (a, bits)) ∧
      (∀ a, a < 2 ^ 48 → ¬ (addr ≤ a ∧ a < end_) →
        translate as'.root a = translate as.root a) := by
  obtain ⟨bits, hbits, hhard, hval, -⟩ := hflags.translate
  obtain ⟨as', hrun, hroot', -, -, hmap⟩ := asFlag_spec addr end_ flags hroot haddr hend hle hmax
    hflags
  have hpos : 0 < PAGE_SIZE := by decide
  have hin : ∀ a, addr / PAGE_SIZE ≤ a / PAGE_SIZE ∧ a / PAGE_SIZE < end_ / PAGE_SIZE ↔
      addr ≤ a ∧ a < end_ := by
    intro a
    rw [Nat.div_lt_iff_lt_mul hpos, Nat.div_mul_cancel (Nat.dvd_of_mod_eq_zero hend),
      Nat.le_div_iff_mul_le hpos, Nat.div_mul_cancel (Nat.dvd_of_mod_eq_zero haddr)]
  refine ⟨as', bits, hrun, hbits, hroot', ?_, ?_⟩
  · intro a hlow hhigh
    have ha : a < 2 ^ 48 := by omega
    rw [translate_eq_pageBits hroot' ha, hmap _ (page_lt ha), if_pos ((hin a).mpr ⟨hlow, hhigh⟩),
      hhard, hval]
    split <;> rfl
  · intro a ha hout
    rw [translate_eq_pageBits hroot' ha, translate_eq_pageBits hroot ha, hmap _ (page_lt ha),
      if_neg (fun h => hout ((hin a).mp h))]

theorem asFlag_exact_identity :
    ∃ as' bits, asFlag asIdentityMapping 0x1000 0x3000 (PAGE_R ||| PAGE_W ||| PAGE_U) = some as' ∧
      leafFlagsToPte (PAGE_R ||| PAGE_W ||| PAGE_U) = some bits ∧ RootOk as'.root ∧
      (∀ a, 0x1000 ≤ a → a < 0x3000 → translate as'.root a =
        if (PAGE_R ||| PAGE_W ||| PAGE_U) &&& PAGE_ACCESS = 0 then none else some (a, bits)) ∧
      (∀ a, a < 2 ^ 48 → ¬ (0x1000 ≤ a ∧ a < 0x3000) →
        translate as'.root a = translate asIdentityMapping.root a) :=
  asFlag_exact asIdentityMapping 0x1000 0x3000 (PAGE_R ||| PAGE_W ||| PAGE_U)
    rootOk_asIdentityMapping (by decide) (by decide) (by decide) (by decide) (by decide)

end GovinDos.Paging
