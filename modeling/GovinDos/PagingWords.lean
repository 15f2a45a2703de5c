/-
  **Bit facts about page-table words.**

  A leaf word has three parts: the address field `PTE_ADDR`, the `PTE_PS` bit that says
  "leaf" above level 1, and the flag bits (`pteBits`).  A well-formed leaf is `leafWord` of
  its parts, and the parts can be read back.
-/
import Mathlib
import GovinDos.Paging

namespace GovinDos.Paging

variable {f : PagingFlags}

/-! ## 1. The address field -/

theorem PTE_ADDR_getLsbD : ∀ i < 64, PTE_ADDR.getLsbD i = decide (12 ≤ i ∧ i < 52) := by
  decide

theorem ofNat_and_addr {a : Nat} (halign : a % PAGE_SIZE = 0) (hlt : a < 2 ^ 52) :
    BitVec.ofNat 64 a &&& PTE_ADDR = BitVec.ofNat 64 a := by
  apply BitVec.eq_of_getLsbD_eq
  intro i hi
  rw [BitVec.getLsbD_and, PTE_ADDR_getLsbD i hi, BitVec.getLsbD_ofNat]
  by_cases hlow : i < 12
  · have hzero : a.testBit i = false := by
      obtain ⟨m, rfl⟩ := Nat.dvd_of_mod_eq_zero halign
      rw [show PAGE_SIZE = 2 ^ 12 from rfl, Nat.testBit_two_pow_mul]
      simp [hlow]
    simp [hzero]
  · by_cases hhigh : i < 52
    · simp [Nat.not_lt.mp hlow, hhigh]
    · have hzero : a.testBit i = false :=
        Nat.testBit_lt_two_pow (lt_of_lt_of_le hlt (Nat.pow_le_pow_right (by decide) (by omega)))
      simp [hzero]

theorem ofNat_and_mask {a : Nat} {m : Pte} (halign : a % PAGE_SIZE = 0) (hlt : a < 2 ^ 52)
    (hm : PTE_ADDR &&& m = 0) : BitVec.ofNat 64 a &&& m = 0 := by
  rw [← ofNat_and_addr halign hlt, BitVec.and_assoc, hm]
  simp

/-! ## 2. The word of a leaf -/

structure FlagBits (f : Pte) : Prop where
  noAddr : f &&& PTE_ADDR = 0
  noPs : f &&& PTE_PS = 0
  present : f &&& PTE_P ≠ 0

def psBit (l : Nat) : Pte := if 2 ≤ l then PTE_PS else 0

def leafWord (l base : Nat) (f : Pte) : Pte := BitVec.ofNat 64 base ||| f ||| psBit l

structure LeafOk (l base : Nat) (e : Pte) : Prop where
  addr : e &&& PTE_ADDR = BitVec.ofNat 64 base
  present : e &&& PTE_P ≠ 0
  ps : e &&& PTE_PS ≠ 0 ↔ 2 ≤ l

theorem psBit_cases (l : Nat) : psBit l = PTE_PS ∧ 2 ≤ l ∨ psBit l = 0 ∧ ¬ 2 ≤ l := by
  by_cases hl : 2 ≤ l
  · exact Or.inl ⟨if_pos hl, hl⟩
  · exact Or.inr ⟨if_neg hl, hl⟩

section LeafWord

variable {l base : Nat} {f : Pte}

theorem leafWord_and_addr (halign : base % PAGE_SIZE = 0) (hlt : base < 2 ^ 52)
    (hf : FlagBits f) : leafWord l base f &&& PTE_ADDR = BitVec.ofNat 64 base := by
  have hps : psBit l &&& PTE_ADDR = 0 := by
    rcases psBit_cases l with ⟨h, -⟩ | ⟨h, -⟩ <;> rw [h] <;> decide
  rw [leafWord, BitVec.and_or_distrib_right, BitVec.and_or_distrib_right,
    ofNat_and_addr halign hlt, hf.noAddr, hps]
  simp

theorem leafWord_and_ps (halign : base % PAGE_SIZE = 0) (hlt : base < 2 ^ 52)
    (hf : FlagBits f) : leafWord l base f &&& PTE_PS = psBit l := by
  have hps : psBit l &&& PTE_PS = psBit l := by
    rcases psBit_cases l with ⟨h, -⟩ | ⟨h, -⟩ <;> rw [h] <;> decide
  rw [leafWord, BitVec.and_or_distrib_right, BitVec.and_or_distrib_right,
    ofNat_and_mask halign hlt (by decide), hf.noPs, hps]
  simp

theorem leafWord_and_mask {m : Pte} (halign : base % PAGE_SIZE = 0) (hlt : base < 2 ^ 52)
    (hm : PTE_ADDR &&& m = 0) (hps : PTE_PS &&& m = 0) :
    leafWord l base f &&& m = f &&& m := by
  have hps' : psBit l &&& m = 0 := by
    rcases psBit_cases l with ⟨h, -⟩ | ⟨h, -⟩ <;> rw [h]
    · exact hps
    · exact BitVec.zero_and
  rw [leafWord, BitVec.and_or_distrib_right, BitVec.and_or_distrib_right,
    ofNat_and_mask halign hlt hm, hps']
  simp

theorem leafWord_ok (halign : base % PAGE_SIZE = 0) (hlt : base < 2 ^ 52) (hf : FlagBits f) :
    LeafOk l base (leafWord l base f) where
  addr := leafWord_and_addr halign hlt hf
  present := by
    rw [leafWord_and_mask halign hlt (by decide) (by decide)]
    exact hf.present
  ps := by
    rw [leafWord_and_ps halign hlt hf]
    rcases psBit_cases l with ⟨h, hl⟩ | ⟨h, hl⟩
    · simp only [h, hl, iff_true]
      decide
    · simp [h, hl]

end LeafWord

theorem word_split (e : Pte) : e = (e &&& PTE_ADDR) ||| pteBits e ||| (e &&& PTE_PS) := by
  apply BitVec.eq_of_getLsbD_eq
  intro i hi
  have hdisj : PTE_ADDR.getLsbD i = true → PTE_PS.getLsbD i = false := by
    revert i
    decide
  simp only [pteBits, BitVec.getLsbD_or, BitVec.getLsbD_and, BitVec.getLsbD_not, hi, decide_true,
    Bool.true_and]
  cases e.getLsbD i <;> cases ha : PTE_ADDR.getLsbD i <;> cases hp : PTE_PS.getLsbD i <;> simp

theorem pteBits_and_addr (e : Pte) : pteBits e &&& PTE_ADDR = 0 := by
  rw [pteBits, BitVec.and_assoc, BitVec.and_comm (~~~PTE_PS), ← BitVec.and_assoc,
    BitVec.and_assoc e, BitVec.not_and_self]
  simp

theorem pteBits_and_ps (e : Pte) : pteBits e &&& PTE_PS = 0 := by
  rw [pteBits, BitVec.and_assoc, BitVec.not_and_self]
  simp

theorem pteBits_and_mask {m : Pte} (e : Pte) (hm : ~~~PTE_ADDR &&& ~~~PTE_PS &&& m = m) :
    pteBits e &&& m = e &&& m := by
  rw [pteBits, BitVec.and_assoc e, BitVec.and_assoc, hm]

variable {l base : Nat}

theorem LeafOk.flagBits {e : Pte} (he : LeafOk l base e) : FlagBits (pteBits e) where
  noAddr := pteBits_and_addr e
  noPs := pteBits_and_ps e
  present := by
    rw [pteBits_and_mask e (by decide)]
    exact he.present

theorem and_ps_cases (e : Pte) : e &&& PTE_PS = 0 ∨ e &&& PTE_PS = PTE_PS := by
  by_cases hbit : e.getLsbD 7 = true
  · right
    apply BitVec.eq_of_getLsbD_eq
    intro i hi
    have hps : PTE_PS.getLsbD i = decide (i = 7) := by
      revert i
      decide
    rw [BitVec.getLsbD_and, hps]
    by_cases h7 : i = 7
    · subst h7
      simp [hbit]
    · simp [h7]
  · left
    apply BitVec.eq_of_getLsbD_eq
    intro i hi
    have hps : PTE_PS.getLsbD i = decide (i = 7) := by
      revert i
      decide
    rw [BitVec.getLsbD_and, hps]
    by_cases h7 : i = 7
    · subst h7
      simpa using hbit
    · simp [h7]

/-- **A well-formed leaf is determined by its level, base and flag bits.** -/
theorem LeafOk.eq_leafWord {e : Pte} (he : LeafOk l base e) :
    e = leafWord l base (pteBits e) := by
  have hps : e &&& PTE_PS = psBit l := by
    rcases psBit_cases l with ⟨h, hl⟩ | ⟨h, hl⟩
    · rw [h]
      exact (and_ps_cases e).resolve_left (he.ps.mpr hl)
    · rw [h]
      by_contra hne
      exact hl (he.ps.mp hne)
  have hsplit := word_split e
  rw [he.addr, hps] at hsplit
  exact hsplit

theorem pteBits_leafWord {f : Pte} (halign : base % PAGE_SIZE = 0) (hlt : base < 2 ^ 52)
    (hf : FlagBits f) : pteBits (leafWord l base f) = f := by
  have hrest : ∀ m : Pte, m &&& (~~~PTE_ADDR &&& ~~~PTE_PS) =
      m &&& ~~~PTE_ADDR &&& ~~~PTE_PS := fun m => (BitVec.and_assoc _ _ _).symm
  rw [pteBits, ← hrest, leafWord_and_mask halign hlt (by decide) (by decide), hrest]
  have hsplit := word_split f
  rw [hf.noAddr, hf.noPs, pteBits] at hsplit
  simpa using hsplit.symm

/-! ## 3. Flag translation -/

theorem and_cache_cases (f : PagingFlags) :
    f &&& PAGE_CACHE_MASK = PAGE_WB ∨ f &&& PAGE_CACHE_MASK = PAGE_UC ∨
      f &&& PAGE_CACHE_MASK = PAGE_WC ∨ f &&& PAGE_CACHE_MASK = PAGE_WT := by
  have hbits : ∀ i < 32, (f &&& PAGE_CACHE_MASK).getLsbD i =
      (decide (i = 4) && f.getLsbD 4 || decide (i = 5) && f.getLsbD 5) := by
    intro i hi
    have hmask : PAGE_CACHE_MASK.getLsbD i = decide (i = 4 ∨ i = 5) := by
      revert i
      decide
    rw [BitVec.getLsbD_and, hmask]
    by_cases h4 : i = 4
    · subst h4
      simp
    · by_cases h5 : i = 5
      · subst h5
        simp
      · simp [h4, h5]
  -- the two cache bits decide which of the four types it is
  cases h4 : f.getLsbD 4 <;> cases h5 : f.getLsbD 5
  · left
    apply BitVec.eq_of_getLsbD_eq
    intro i hi
    rw [hbits i hi, h4, h5]
    revert i
    decide
  · right; right; left
    apply BitVec.eq_of_getLsbD_eq
    intro i hi
    rw [hbits i hi, h4, h5]
    revert i
    decide
  · right; left
    apply BitVec.eq_of_getLsbD_eq
    intro i hi
    rw [hbits i hi, h4, h5]
    revert i
    decide
  · right; right; right
    apply BitVec.eq_of_getLsbD_eq
    intro i hi
    rw [hbits i hi, h4, h5]
    revert i
    decide

theorem leafFlagsToPte_absent (hf : f &&& PAGE_ACCESS = 0) :
    leafFlagsToPte f = some 0 := by
  rw [leafFlagsToPte, if_pos hf]

theorem access_of_read (hf : f &&& PAGE_R ≠ 0) : f &&& PAGE_ACCESS ≠ 0 := by
  intro h0
  apply hf
  rw [show PAGE_R = PAGE_ACCESS &&& PAGE_R by decide, ← BitVec.and_assoc, h0]
  simp

def flagWord (write user noExec : Bool) (cache : Pte) : Pte :=
  PTE_P ||| (if write then PTE_RW else 0) ||| (if user then PTE_US else 0) |||
    (if noExec then PTE_NX else 0) ||| cache

/-- The cache bits of the four memory types; write-combining and write-through
    share one encoding. -/
def cacheWords : List Pte := [0, PTE_PCD, PTE_PWT]

theorem forall_cacheWords {p : Pte → Prop} (hwb : p 0) (huc : p PTE_PCD) (hwt : p PTE_PWT) :
    ∀ cache ∈ cacheWords, p cache := by
  intro cache hcache
  simp only [cacheWords, List.mem_cons, List.not_mem_nil, or_false] at hcache
  rcases hcache with rfl | rfl | rfl
  · exact hwb
  · exact huc
  · exact hwt

theorem leafFlagsToPte_eq_flagWord (hf : f &&& PAGE_R ≠ 0) :
    ∃ cache ∈ cacheWords, leafFlagsToPte f =
      some (flagWord (f &&& PAGE_W ≠ 0) (f &&& PAGE_U ≠ 0) (f &&& PAGE_X = 0) cache) := by
  have hUCWB : PAGE_UC ≠ PAGE_WB := by decide
  have hWTWB : PAGE_WT ≠ PAGE_WB := by decide
  have hWTUC : PAGE_WT ≠ PAGE_UC := by decide
  have hWCWB : PAGE_WC ≠ PAGE_WB := by decide
  have hWCUC : PAGE_WC ≠ PAGE_UC := by decide
  have hWCWT : PAGE_WC ≠ PAGE_WT := by decide
  -- the access bits, before the cache type is added
  have haccess : (if f &&& PAGE_X = 0 then
      (if f &&& PAGE_U ≠ 0 then (if f &&& PAGE_W ≠ 0 then PTE_P ||| PTE_RW else PTE_P) ||| PTE_US
        else (if f &&& PAGE_W ≠ 0 then PTE_P ||| PTE_RW else PTE_P)) ||| PTE_NX
      else (if f &&& PAGE_U ≠ 0 then (if f &&& PAGE_W ≠ 0 then PTE_P ||| PTE_RW else PTE_P) ||| PTE_US
        else (if f &&& PAGE_W ≠ 0 then PTE_P ||| PTE_RW else PTE_P))) =
      flagWord (f &&& PAGE_W ≠ 0) (f &&& PAGE_U ≠ 0) (f &&& PAGE_X = 0) 0 := by
    by_cases hw : f &&& PAGE_W = 0#32 <;> by_cases hu : f &&& PAGE_U = 0#32 <;>
      by_cases hx : f &&& PAGE_X = 0#32 <;> simp [flagWord, hw, hu, hx]
  have hcache : ∀ write user noExec cache,
      flagWord write user noExec 0 ||| cache = flagWord write user noExec cache := by
    intro write user noExec cache
    simp [flagWord]
  rw [leafFlagsToPte, if_neg (access_of_read hf), if_neg hf]
  simp only [haccess, hcache]
  rcases and_cache_cases f with hc | hc | hc | hc
  all_goals simp only [hc, if_true, hUCWB, hWTWB, hWTUC, hWCWB, hWCUC, hWCWT, if_false]
  · exact ⟨0, by decide, rfl⟩
  · exact ⟨PTE_PCD, by decide, rfl⟩
  · exact ⟨PTE_PWT, by decide, rfl⟩
  · exact ⟨PTE_PWT, by decide, rfl⟩

theorem flagWord_flagBits (write user noExec : Bool) : ∀ cache ∈ cacheWords,
    flagWord write user noExec cache &&& PTE_ADDR = 0 ∧
      flagWord write user noExec cache &&& PTE_PS = 0 ∧
      flagWord write user noExec cache &&& PTE_P ≠ 0 := by
  refine forall_cacheWords ?_ ?_ ?_ <;> cases write <;> cases user <;> cases noExec <;> decide

theorem leafFlagsToPte_pteToFlags (write user noExec : Bool) : ∀ cache ∈ cacheWords,
    leafFlagsToPte (pteToFlags (flagWord write user noExec cache)) =
      some (flagWord write user noExec cache) := by
  refine forall_cacheWords ?_ ?_ ?_ <;> cases write <;> cases user <;> cases noExec <;> decide

theorem leafFlagsToPte_present (hf : f &&& PAGE_R ≠ 0) :
    ∃ b, leafFlagsToPte f = some b ∧ FlagBits b := by
  obtain ⟨cache, hcache, hbits⟩ := leafFlagsToPte_eq_flagWord hf
  obtain ⟨haddr, hps, hpres⟩ := flagWord_flagBits _ _ _ cache hcache
  exact ⟨_, hbits, haddr, hps, hpres⟩

end GovinDos.Paging
