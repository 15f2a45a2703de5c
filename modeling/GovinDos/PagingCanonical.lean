/-
  **Page trees have a canonical shape.**

  `as_flag` merges along two paths only, those of its first and of its last page.  That is
  enough: while the loop runs, the tables that may be uniform are those whose span is split
  by the start of the range or by the current position (`Exempt`), because a span that the
  loop fills from its own base is filled by one leaf (`Covered`).  When the loop is done the
  exempt tables lie on the two paths.
-/
import GovinDos.PagingFlag

namespace GovinDos.Paging

open RadixTree Function

variable {l L s e a p end_ addr : Nat} {f : Fin 512 → RadixTree 512 Pte} {as as' : AddressSpace}
  {P P' : Nat → Nat → Prop}

/-! ## 1. Positions inside spans, in pages -/

private theorem succ_mul_le {c m n : Nat} (h : c * n < m * n) : (c + 1) * n ≤ m * n :=
  Nat.mul_le_mul_right n (Nat.lt_of_mul_lt_mul_right h)

theorem pow_dvd_of_le (h : l ≤ L) : 512 ^ l ∣ 512 ^ L := Nat.pow_dvd_pow 512 h

def Covered (s e a : Nat) : Prop :=
  ∀ l ≤ 2, ∀ c, s ≤ c * 512 ^ l → c * 512 ^ l < a → a < (c + 1) * 512 ^ l → e < (c + 1) * 512 ^ l

theorem covered_start (s e : Nat) : Covered s e s := by
  intro l _ c hs hlt
  omega

theorem Covered.step (hcov : Covered s e a) (halign : 512 ^ L ∣ a)
    (hmax : ∀ L', L < L' → L' ≤ 2 → 512 ^ L' ∣ a → e < a + 512 ^ L') :
    Covered s e (a + 512 ^ L) := by
  intro l hl c hs hlow hhigh
  rcases Nat.lt_trichotomy (c * 512 ^ l) a with hlt | heq | hgt
  · exact hcov l hl c hs hlt (by omega)
  · -- the span begins here: it is larger than the leaf taken
    have hLl : L < l := by
      by_contra hle
      have := Nat.pow_le_pow_right (n := 512) (by decide) (Nat.not_lt.mp hle)
      rw [Nat.add_mul, Nat.one_mul, heq] at hhigh
      omega
    have := hmax l hLl hl (heq ▸ Nat.dvd_mul_left _ _)
    rw [Nat.add_mul, Nat.one_mul, heq]
    exact this
  · -- the span begins inside the leaf: the leaf fills it
    obtain ⟨m, rfl⟩ := halign
    have hlL : l ≤ L := by
      by_contra hle
      obtain ⟨d, hd⟩ := pow_dvd_of_le (Nat.le_of_lt (Nat.not_le.mp hle))
      have hbase : c * 512 ^ l = (c * d) * 512 ^ L := by
        rw [hd, Nat.mul_assoc, Nat.mul_comm d]
      rw [hbase, Nat.mul_comm _ m] at hgt
      rw [hbase, Nat.mul_comm _ m] at hlow
      have := succ_mul_le hgt
      rw [Nat.add_mul, Nat.one_mul] at this
      omega
    obtain ⟨d, hd⟩ := pow_dvd_of_le hlL
    have hend : 512 ^ L * m + 512 ^ L = (d * m + d) * 512 ^ l := by
      rw [hd]
      ring
    rw [hend] at hlow hhigh
    have := succ_mul_le hlow
    omega

def Exempt (s a l c : Nat) : Prop := Splits 512 l c s ∨ Splits 512 l c a

theorem exempt_path (hcov : Covered s e a) (halign : 512 ^ L ∣ a)
    (hsa : s ≤ a) (hae : a + 512 ^ L ≤ e) (hshort : e - s < 512 ^ 3) (hLl : L < l) (hl : l ≤ 3) :
    Exempt s (a + 512 ^ L) l (a / 512 ^ l) := by
  have hpos : 0 < 512 ^ l := Nat.pow_pos (by decide)
  have hposL : 0 < 512 ^ L := Nat.pow_pos (by decide)
  have hlow : a / 512 ^ l * 512 ^ l ≤ a := Nat.div_mul_le_self a _
  have hhigh : a < (a / 512 ^ l + 1) * 512 ^ l := by
    have hdiv := Nat.div_add_mod' a (512 ^ l)
    have hmod := Nat.mod_lt a hpos
    rw [Nat.add_mul, Nat.one_mul]
    omega
  -- both ends are multiples of the leaf, so the next position is at most the end
  have hnext : a + 512 ^ L ≤ (a / 512 ^ l + 1) * 512 ^ l := by
    obtain ⟨d, hd⟩ := pow_dvd_of_le (Nat.le_of_lt hLl)
    obtain ⟨m, hm⟩ := halign
    have hspan : (a / 512 ^ l + 1) * 512 ^ l = ((a / 512 ^ l + 1) * d) * 512 ^ L := by
      rw [hd, Nat.mul_assoc, Nat.mul_comm d]
    rw [hspan]
    have hlt : m * 512 ^ L < ((a / 512 ^ l + 1) * d) * 512 ^ L := by
      rw [← hspan, Nat.mul_comm m, ← hm]
      exact hhigh
    have := succ_mul_le hlt
    rw [Nat.add_mul, Nat.one_mul, Nat.mul_comm m, ← hm] at this
    exact this
  by_cases hinside : a + 512 ^ L < (a / 512 ^ l + 1) * 512 ^ l
  · exact Or.inr ⟨by omega, hinside⟩
  · left
    refine ⟨?_, by omega⟩
    by_contra hs
    -- the leaf completes a span that the loop began at or before its base
    rcases Nat.lt_or_ge (a / 512 ^ l * 512 ^ l) a with hbegan | hbase
    · rcases Nat.lt_or_ge l 3 with hl2 | hl3
      · have := hcov l (by omega) _ (Nat.not_lt.mp hs) hbegan hhigh
        omega
      · obtain rfl : l = 3 := by omega
        rw [Nat.add_mul, Nat.one_mul] at hinside
        omega
    · have hlarge := Nat.pow_lt_pow_right (a := 512) (by decide) hLl
      rw [Nat.add_mul, Nat.one_mul] at hinside
      omega

theorem Exempt.off_path {s a a' l c : Nat} (hne : c ≠ a / 512 ^ l) (h : Exempt s a l c) :
    Exempt s a' l c := by
  rcases h with hs | ha
  · exact Or.inl hs
  · exact absurd ha.eq_index hne

/-! ## 2. Every call keeps trees canonical -/

def ForestReduced (P : Nat → Nat → Prop) (f : Fin 512 → RadixTree 512 Pte) : Prop :=
  ∀ i : Fin 512, Reduced 2 P 3 i.val (f i)

def CanonicalRoot (root : Table) : Prop := ForestReduced (fun _ _ => False) (forest root)
theorem ForestReduced.mono
    (hf : ForestReduced P f) (hP : ∀ l c, P l c → P' l c) : ForestReduced P' f :=
  fun i => (hf i).mono fun l c _ _ => hP l c

theorem ForestReduced.update
    {r : RadixTree 512 Pte} (hp : p < 512 ^ 4) (hf : ForestReduced P f)
    (hr : Reduced 2 P' 3 (p / 512 ^ 3) r) (hoff : ∀ l c, c ≠ p / 512 ^ l → P l c → P' l c) :
    ForestReduced P' (Function.update f (digit 512 3 p) r) := by
  have htop : p / 512 ^ (3 + 1) = 0 := Nat.div_eq_of_lt hp
  intro i
  by_cases hi : i = digit 512 3 p
  · subst hi
    rw [update_self]
    rw [index_split, htop, Nat.zero_mul, Nat.zero_add] at hr
    exact hr
  · rw [update_of_ne hi]
    have hsib : Reduced 2 P 3 (p / 512 ^ (3 + 1) * 512 + i.val) (f i) := by
      rw [htop, Nat.zero_mul, Nat.zero_add]
      exact hf i
    have := hsib.sibling hi hoff
    rwa [htop, Nat.zero_mul, Nat.zero_add] at this

theorem ForestReduced.slot
    (hf : ForestReduced P f) (hp : p < 512 ^ 4) :
    Reduced 2 P 3 (p / 512 ^ 3) (f (digit 512 3 p)) := by
  rw [index_split, Nat.div_eq_of_lt hp, Nat.zero_mul, Nat.zero_add]
  exact hf _

theorem ForestReduced.merge (as : AddressSpace) (addr : Nat)
    (hroot : RootOk as.root) (haddr : addr < 2 ^ 48) (hf : ForestReduced P (forest as.root)) :
    ForestReduced (fun l c => P l c ∧ c ≠ addr / PAGE_SIZE / 512 ^ l)
      (forest (tryMergePath as addr).root) := by
  rw [(tryMergePath_spec as addr hroot haddr).forest]
  exact hf.update (page_lt haddr) (reduced_collapsePath (hf.slot (page_lt haddr)))
    (fun _ _ hne hp => ⟨hp, hne⟩)

theorem ForestReduced.round {v : Option Pte}
    (hf : ForestReduced (Exempt s a) f) (hcov : Covered s e a) (halign : 512 ^ L ∣ a) (hL : L ≤ 2)
    (hsa : s ≤ a) (hae : a + 512 ^ L ≤ e) (hshort : e - s < 512 ^ 3) (hmax : e ≤ 512 ^ 4) :
    ForestReduced (Exempt s (a + 512 ^ L))
      (Function.update f (digit 512 3 a) (put L a v 3 (f (digit 512 3 a)))) := by
  have hpos : 0 < 512 ^ L := Nat.pow_pos (by decide)
  have ha : a < 512 ^ 4 := by omega
  have hoff : ∀ l c, c ≠ a / 512 ^ l → Exempt s a l c → Exempt s (a + 512 ^ L) l c :=
    fun _ _ hne h => h.off_path hne
  refine hf.update ha (reduced_put v (by omega) (hf.slot ha) ?_ hoff) hoff
  intro l hLl hl
  exact exempt_path hcov halign hsa hae hshort hLl hl

theorem LeafChoice.pages (hc : LeafChoice end_ a L) (ha : a % PAGE_SIZE = 0)
    (hend : end_ % PAGE_SIZE = 0) :
    512 ^ L ∣ a / PAGE_SIZE ∧ a / PAGE_SIZE + 512 ^ L ≤ end_ / PAGE_SIZE ∧
      (a + LEVEL_SIZE (L + 1)) / PAGE_SIZE = a / PAGE_SIZE + 512 ^ L ∧
      ∀ L', L < L' → L' ≤ 2 → 512 ^ L' ∣ a / PAGE_SIZE →
        end_ / PAGE_SIZE < a / PAGE_SIZE + 512 ^ L' := by
  have hpos : 0 < PAGE_SIZE := by decide
  obtain ⟨m, rfl⟩ := Nat.dvd_of_mod_eq_zero ha
  obtain ⟨n, rfl⟩ := Nat.dvd_of_mod_eq_zero hend
  have hal := hc.aligned
  have hfit := hc.fits
  rw [LEVEL_SIZE_succ, ← Nat.mul_add] at hfit
  rw [LEVEL_SIZE_succ] at hal
  rw [LEVEL_SIZE_succ, ← Nat.mul_add]
  simp only [Nat.mul_div_cancel_left _ hpos]
  refine ⟨?_, Nat.le_of_mul_le_mul_left hfit hpos, trivial, ?_⟩
  · exact Nat.dvd_of_mul_dvd_mul_left hpos (Nat.dvd_of_mod_eq_zero hal)
  · intro L' hlt hle hdvd
    have hmax := hc.maximal L' hlt hle (by
      rw [LEVEL_SIZE_succ]
      exact Nat.mod_eq_zero_of_dvd (Nat.mul_dvd_mul_left PAGE_SIZE hdvd))
    rw [LEVEL_SIZE_succ, ← Nat.mul_add] at hmax
    exact Nat.lt_of_mul_lt_mul_left hmax

/-- **`as_flag` keeps trees canonical.** -/
theorem asFlag_canonical {flags : PagingFlags}
    (hroot : RootOk as.root) (haddr : addr % PAGE_SIZE = 0) (hend : end_ % PAGE_SIZE = 0)
    (hle : addr ≤ end_) (hmax : end_ ≤ 2 ^ 48) (hshort : end_ - addr < 512 * GIB)
    (hflags : FlagsOk flags) (hcan : CanonicalRoot as.root)
    (hrun : asFlag as addr end_ flags = some as') : CanonicalRoot as'.root := by
  rw [asFlag, if_pos ⟨haddr, hend, hle⟩] at hrun
  by_cases hempty : addr = end_
  · rw [if_pos hempty] at hrun
    cases hrun
    exact hcan
  obtain ⟨bits, hbits, -, -, hv⟩ := hflags.translate
  rw [if_neg hempty, hbits, Option.bind_some] at hrun
  have hsize : (512 : Nat) * GIB = 512 ^ 3 * PAGE_SIZE := by decide
  have hpages : end_ / PAGE_SIZE - addr / PAGE_SIZE < 512 ^ 3 := by
    obtain ⟨m, rfl⟩ := Nat.dvd_of_mod_eq_zero haddr
    obtain ⟨n, rfl⟩ := Nat.dvd_of_mod_eq_zero hend
    rw [← Nat.mul_sub, hsize, Nat.mul_comm] at hshort
    simp only [Nat.mul_div_cancel_left _ (show 0 < PAGE_SIZE by decide)]
    exact Nat.lt_of_mul_lt_mul_right hshort
  have htop : end_ / PAGE_SIZE ≤ 512 ^ 4 :=
    Nat.div_le_of_le_mul (hmax.trans (by decide))
  obtain ⟨as₁, hloop, hroot₁, ⟨-, -, hred₁⟩, -, -⟩ := flagLoop_spec
    (fun a as₁ => addr ≤ a ∧
      Covered (addr / PAGE_SIZE) (end_ / PAGE_SIZE) (a / PAGE_SIZE) ∧
      ForestReduced (Exempt (addr / PAGE_SIZE) (a / PAGE_SIZE)) (forest as₁.root))
    hv hend hmax
    (by
      rintro a L as₁ as₂ - ha hchoice - ⟨haddrle, hcov, hred⟩ hrew
      obtain ⟨halign, hfit, hnext, hmaximal⟩ := hchoice.pages ha hend
      rw [hnext, hrew.forest]
      exact ⟨by omega, hcov.step halign hmaximal,
        hred.round hcov halign hchoice.le_two (Nat.div_le_div_right haddrle) hfit hpages htop⟩)
    haddr hle hroot
    ⟨Nat.le_refl _, covered_start _ _, hcan.mono fun _ _ h => h.elim⟩
  rw [hloop] at hrun
  cases hrun
  -- the two merges repair the path of the first page and that of the last one
  have hpage : PAGE_SIZE = 4096 := rfl
  have hlast : (end_ - PAGE_SIZE) / PAGE_SIZE = end_ / PAGE_SIZE - 1 := by
    rw [hpage]
    omega
  have hm₁ := tryMergePath_spec { as₁ with toEffects := markDirty as₁.toEffects addr end_ } addr
    hroot₁ (by omega)
  have hr₁ := ForestReduced.merge { as₁ with toEffects := markDirty as₁.toEffects addr end_ } addr
    hroot₁ (by omega) hred₁
  have hr₂ := ForestReduced.merge _ (end_ - PAGE_SIZE) hm₁.root (by omega) hr₁
  refine hr₂.mono ?_
  rintro l c ⟨⟨hs | he, hne₁⟩, hne₂⟩
  · exact hne₁ hs.eq_index
  · rw [hlast] at hne₂
    exact hne₂ he.eq_index_pred

/-- **Canonical trees with one page map are equal.** -/
theorem root_eq_of_pageBits_eq {root root' : Table} (hroot : RootOk root) (hroot' : RootOk root')
    (hcan : CanonicalRoot root) (hcan' : CanonicalRoot root')
    (hmap : ∀ p < 512 ^ 4, pageBits root p = pageBits root' p) : root = root' := by
  funext i
  apply erase_injective (hroot i) (hroot' i)
  apply eq_of_get_eq (fits_erase (hroot i)) (fits_erase (hroot' i)) (hcan i) (hcan' i)
  intro p hp
  have hlt : p < 512 ^ 4 := by
    have := i.isLt
    omega
  have hdigit : digit 512 3 p = i := by
    apply Fin.ext
    rw [digit_val, hp, Nat.mod_eq_of_lt i.isLt]
  have := hmap p hlt
  rwa [pageBits, pageBits, hdigit] at this

/-! ## 3. Clones and the boot tree -/

theorem cloneTable_eq {h b : Nat} {t : Table}
    (ht : ∀ i : Fin 512, EntryOk h (b * 512 + i.val) (t i)) : cloneTable (h + 1) t = t := by
  induction h generalizing b t with
  | zero =>
    funext i
    have hi := ht i
    cases hent : t i with
    | absent | leaf e => simp only [cloneTable, hent]
    | table child =>
      rw [hent] at hi
      exact hi.elim
  | succ h ih =>
    funext i
    have hi := ht i
    rw [cloneTable]
    cases hent : t i with
    | absent => simp only [hent]
    | leaf e => simp only [hent]
    | table child =>
      rw [hent] at hi
      simp only [hent, ih hi]

theorem asClone_root (hroot : RootOk as.root) : (asClone as).root = as.root :=
  cloneTable_eq (rootOk_iff.mp hroot)

theorem leaked_asClone (as : AddressSpace) : leaked (asClone as) = 0 :=
  Int.sub_self _

theorem canonical_asIdentityMapping : CanonicalRoot asIdentityMapping.root := by
  intro i
  rw [forest_asIdentityMapping]
  by_cases hi : i = 0
  · rw [if_pos hi, reduced_node]
    refine ⟨fun _ huniform => ?_, fun _ => reduced_leaf _ _ _⟩
    -- 1 GiB leaves cannot be merged into a PML4 entry
    rcases huniform with habs | ⟨hM, -⟩
    · cases habs 0
    · omega
  · rw [if_neg hi]
    exact reduced_absent _ _

/-! ## 4. What `as_getinfo` reports -/

def FromFlags (f : Pte) : Prop :=
  ∃ write user noExec, ∃ cache ∈ cacheWords, f = flagWord write user noExec cache

theorem fromFlags_of_hardwareBits {flags : PagingFlags} {f : Pte} (hok : FlagsOk flags)
    (hf : hardwareBits flags = some f) : FromFlags f := by
  rcases hok with hread | hnone
  · obtain ⟨cache, hcache, hbits⟩ := leafFlagsToPte_eq_flagWord hread
    have hpres := (flagWord_flagBits (flags &&& PAGE_W ≠ 0) (flags &&& PAGE_U ≠ 0)
      (flags &&& PAGE_X = 0) cache hcache).2.2
    rw [hardwareBits, hbits, Option.bind_some, bitsValue, if_pos hpres] at hf
    cases hf
    exact ⟨_, _, _, cache, hcache, rfl⟩
  · rw [hardwareBits, leafFlagsToPte_absent hnone] at hf
    cases hf

theorem fromFlags_pristine : FromFlags PRISTINE_BITS :=
  ⟨true, false, false, 0, by decide, by decide⟩

theorem FromFlags.roundTrip {f : Pte} (hf : FromFlags f) :
    leafFlagsToPte (pteToFlags f) = some f := by
  obtain ⟨write, user, noExec, cache, hcache, rfl⟩ := hf
  exact leafFlagsToPte_pteToFlags write user noExec cache hcache

theorem FromFlags.present {f : Pte} (hf : FromFlags f) : f &&& PTE_P ≠ 0 := by
  obtain ⟨write, user, noExec, cache, hcache, rfl⟩ := hf
  exact (flagWord_flagBits write user noExec cache hcache).2.2

theorem pteToFlags_pteBits (e : Pte) : pteToFlags (pteBits e) = pteToFlags e := by
  have hmask : ∀ m : Pte, ~~~PTE_ADDR &&& ~~~PTE_PS &&& m = m → pteBits e &&& m = e &&& m :=
    fun m => pteBits_and_mask e
  simp only [pteToFlags, hmask PTE_P (by decide), hmask PTE_RW (by decide),
    hmask PTE_US (by decide), hmask PTE_NX (by decide), hmask PTE_PCD (by decide),
    hmask PTE_PWT (by decide)]

def BitsFromFlags (root : Table) : Prop := ∀ p < 512 ^ 4, ∀ f ∈ pageBits root p, FromFlags f
theorem asGetinfo_eq (hroot : RootOk as.root)
    (hbits : BitsFromFlags as.root) (haddr : addr < 2 ^ 48) :
    asGetinfo as addr = match pageBits as.root (addr / PAGE_SIZE) with
      | none => (0, false)
      | some f => (pteToFlags f, true) := by
  have htr := translate_eq_pageBits hroot haddr
  have hfrom := hbits _ (page_lt haddr)
  rw [translate] at htr
  rw [asGetinfo, walk]
  cases hleaf : leafAt 4 as.root addr with
  | none =>
    rw [hleaf] at htr
    cases hpage : pageBits as.root (addr / PAGE_SIZE) with
    | none => simp
    | some f =>
      rw [hpage] at htr
      cases htr
  | some le =>
    obtain ⟨l, e⟩ := le
    rw [hleaf] at htr
    cases hpage : pageBits as.root (addr / PAGE_SIZE) with
    | none =>
      rw [hpage] at htr
      cases htr
    | some f =>
      rw [hpage] at htr hfrom
      simp only [Option.map_some, Option.some.injEq, Prod.mk.injEq] at htr
      obtain ⟨-, rfl⟩ := htr
      have hpres := (hfrom _ rfl).present
      rw [pteBits_and_mask e (by decide)] at hpres
      simp only [pteToFlags_pteBits, decide_eq_true hpres, if_true]

theorem page_base_lt (hp : p < 512 ^ 4) : p * PAGE_SIZE < 2 ^ 48 :=
  Nat.mul_lt_mul_of_pos_right hp (show 0 < PAGE_SIZE by decide)

theorem pageBits_eq_of_getinfo (hroot : RootOk as.root)
    (hroot' : RootOk as'.root) (hbits : BitsFromFlags as.root) (hbits' : BitsFromFlags as'.root)
    (hp : p < 512 ^ 4) (hinfo : asGetinfo as (p * PAGE_SIZE) = asGetinfo as' (p * PAGE_SIZE)) :
    pageBits as.root p = pageBits as'.root p := by
  have haddr : p * PAGE_SIZE < 2 ^ 48 := page_base_lt hp
  rw [asGetinfo_eq hroot hbits haddr, asGetinfo_eq hroot' hbits' haddr,
    Nat.mul_div_cancel p (by decide)] at hinfo
  have hf := hbits p hp
  have hf' := hbits' p hp
  cases hpage : pageBits as.root p with
  | none =>
    cases hpage' : pageBits as'.root p with
    | none => rfl
    | some f' => simp [hpage, hpage'] at hinfo
  | some f =>
    cases hpage' : pageBits as'.root p with
    | none => simp [hpage, hpage'] at hinfo
    | some f' =>
      simp only [hpage, hpage', Prod.mk.injEq, and_true] at hinfo
      have hround := (hf f hpage).roundTrip
      rw [hinfo, (hf' f' hpage').roundTrip] at hround
      exact hround.symm

/-! ## 5. Sequences of calls -/

inductive Call where
  | flag (addr end_ : Nat) (flags : PagingFlags)
  | clone

def Call.Ok : Call → Prop
  | .flag addr end_ flags => addr % PAGE_SIZE = 0 ∧ end_ % PAGE_SIZE = 0 ∧ addr ≤ end_ ∧
      end_ ≤ 2 ^ 48 ∧ end_ - addr < 512 * GIB ∧ FlagsOk flags
  | .clone => True

instance (c : Call) : Decidable c.Ok := by
  cases c <;> unfold Call.Ok <;> infer_instance

def runCall (as : AddressSpace) : Call → Option AddressSpace
  | .flag addr end_ flags => asFlag as addr end_ flags
  | .clone => some (asClone as)

def runCalls (as : AddressSpace) (calls : List Call) : Option AddressSpace :=
  calls.foldlM runCall as

structure TreeInv (as : AddressSpace) : Prop where
  root : RootOk as.root
  canonical : CanonicalRoot as.root
  bits : BitsFromFlags as.root
  leaked : leaked as = 0

theorem treeInv_asIdentityMapping : TreeInv asIdentityMapping where
  root := rootOk_asIdentityMapping
  canonical := canonical_asIdentityMapping
  bits := by
    intro p hp f hf
    rw [pageBits_asIdentityMapping hp] at hf
    split at hf
    · cases hf
      exact fromFlags_pristine
    · cases hf
  leaked := leaked_asIdentityMapping

theorem runCall_treeInv {c : Call} (hinv : TreeInv as) (hc : c.Ok) :
    ∃ as', runCall as c = some as' ∧ TreeInv as' := by
  cases c with
  | clone =>
    have hclone := asClone_root hinv.root
    refine ⟨asClone as, rfl, ?_, ?_, ?_, leaked_asClone as⟩
    · rw [hclone]
      exact hinv.root
    · rw [hclone]
      exact hinv.canonical
    · rw [hclone]
      exact hinv.bits
  | flag addr end_ flags =>
    obtain ⟨haddr, hend, hle, hmax, hshort, hflags⟩ := hc
    obtain ⟨as', hrun, hroot, hleak, -, hmap⟩ :=
      asFlag_spec addr end_ flags hinv.root haddr hend hle hmax hflags
    refine ⟨as', hrun, hroot, ?_, ?_, hleak.trans hinv.leaked⟩
    · exact asFlag_canonical hinv.root haddr hend hle hmax hshort hflags hinv.canonical hrun
    · intro p hp f hf
      rw [hmap p hp] at hf
      split at hf
      · exact fromFlags_of_hardwareBits hflags hf
      · exact hinv.bits p hp f hf

theorem runCalls_treeInv (calls : List Call) (hinv : TreeInv as)
    (hcalls : ∀ c ∈ calls, c.Ok) : ∃ as', runCalls as calls = some as' ∧ TreeInv as' := by
  induction calls generalizing as with
  | nil => exact ⟨as, rfl, hinv⟩
  | cons c calls ih =>
    obtain ⟨as₁, hrun, hinv₁⟩ := runCall_treeInv hinv (hcalls c (by simp))
    obtain ⟨as', hrest, hinv'⟩ := ih hinv₁ fun c' hc' => hcalls c' (by simp [hc'])
    refine ⟨as', ?_, hinv'⟩
    rw [runCalls, List.foldlM_cons, hrun]
    exact hrest

/-- **The tree depends on the final page map only.**  Two sequences of calls from the boot
    tree that leave every page with the same reported flags leave identical trees and count
    the same tables: calls that undo a sequence return the tree it started from. -/
theorem runCalls_canonical (calls calls' : List Call) (hcalls : ∀ c ∈ calls, c.Ok)
    (hcalls' : ∀ c ∈ calls', c.Ok) :
    ∃ as as', runCalls asIdentityMapping calls = some as ∧
      runCalls asIdentityMapping calls' = some as' ∧
      as.frames = asTableCount as ∧ as'.frames = asTableCount as' ∧
      ((∀ a, a % PAGE_SIZE = 0 → a < 2 ^ 48 → asGetinfo as a = asGetinfo as' a) →
        as.root = as'.root ∧ asTableCount as = asTableCount as') := by
  obtain ⟨as, hrun, hinv⟩ := runCalls_treeInv calls treeInv_asIdentityMapping hcalls
  obtain ⟨as', hrun', hinv'⟩ := runCalls_treeInv calls' treeInv_asIdentityMapping hcalls'
  have hleak := hinv.leaked
  have hleak' := hinv'.leaked
  rw [leaked] at hleak hleak'
  refine ⟨as, as', hrun, hrun', by omega, by omega, fun hinfo => ?_⟩
  have hroot : as.root = as'.root := by
    apply root_eq_of_pageBits_eq hinv.root hinv'.root hinv.canonical hinv'.canonical
    intro p hp
    refine pageBits_eq_of_getinfo hinv.root hinv'.root hinv.bits hinv'.bits hp (hinfo _ ?_ ?_)
    · exact Nat.mul_mod_left p PAGE_SIZE
    · exact page_base_lt hp
  exact ⟨hroot, by rw [asTableCount, asTableCount, hroot]⟩

theorem runCalls_canonical_undo :
    ∃ as as', runCalls asIdentityMapping [.flag 0x1000 0x2000 0,
        .flag 0x1000 0x2000 PAGE_KERNEL_PRISTINE] = some as ∧
      runCalls asIdentityMapping [] = some as' ∧
      as.root = as'.root ∧ asTableCount as = asTableCount as' := by
  obtain ⟨as, as', hrun, hrun', -, -, heq⟩ := runCalls_canonical
    [.flag 0x1000 0x2000 0, .flag 0x1000 0x2000 PAGE_KERNEL_PRISTINE] [] (by decide) (by decide)
  obtain rfl : asIdentityMapping = as' := Option.some.inj hrun'
  obtain ⟨as₁, hrun₁, hroot₁, -, -, hmap₁⟩ := asFlag_spec 0x1000 0x2000 0
    rootOk_asIdentityMapping (by decide) (by decide) (by decide) (by decide) (by decide)
  obtain ⟨as₂, hrun₂, hroot₂, -, -, hmap₂⟩ := asFlag_spec 0x1000 0x2000
    PAGE_KERNEL_PRISTINE hroot₁ (by decide) (by decide) (by decide) (by decide)
    (by decide)
  obtain rfl : as₂ = as := by
    have hstep : runCalls asIdentityMapping [.flag 0x1000 0x2000 0,
        .flag 0x1000 0x2000 PAGE_KERNEL_PRISTINE] = some as₂ := by
      rw [runCalls, List.foldlM_cons, runCall, hrun₁]
      simp only [bind, Option.bind, List.foldlM_cons, runCall, hrun₂, List.foldlM_nil]
      rfl
    exact Option.some.inj (hstep.symm.trans hrun)
  have hmap : ∀ p < 512 ^ 4, pageBits as₂.root p = pageBits asIdentityMapping.root p := by
    intro p hp
    rw [hmap₂ p hp, hmap₁ p hp, pageBits_asIdentityMapping hp]
    split
    · rename_i hin
      have hlow : p < 2 := hin.2
      rw [if_pos (by omega)]
      decide
    · rfl
  obtain ⟨as₃, hrun₃, hinv₃⟩ := runCalls_treeInv
    [.flag 0x1000 0x2000 0, .flag 0x1000 0x2000 PAGE_KERNEL_PRISTINE] treeInv_asIdentityMapping
    (by decide)
  obtain rfl : as₂ = as₃ := Option.some.inj (hrun.symm.trans hrun₃)
  refine ⟨as₂, asIdentityMapping, hrun, rfl, heq fun a _ ha => ?_⟩
  rw [asGetinfo_eq hinv₃.root hinv₃.bits ha,
    asGetinfo_eq rootOk_asIdentityMapping treeInv_asIdentityMapping.bits ha, hmap _ (page_lt ha)]

end GovinDos.Paging
