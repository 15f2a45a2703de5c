/-
  **Ranges accepted from user space (`user_range_ok`).**

  The test asks `as_getinfo` about every page of the range.  Its walk keeps nine bits of the
  address a level and drops the others, the processor does not: an address above `2 ^ 47`
  passes for the user page of its low 48 bits.
-/
import GovinDos.UmemIsolation

namespace GovinDos.Umem

open Paging PlatformMem

/-! ## 1. The model -/

def userPageOk (as : AddressSpace) (page : Nat) (need_write : Bool) : Bool :=
  let (flags, present) := asGetinfo as page
  if present = false ∨ flags &&& PAGE_U = 0 ∨ flags &&& PAGE_R = 0 then false
  else if need_write ∧ flags &&& PAGE_W = 0 then false
  else true

/-- The loop from `page` on, for at most `n` rounds.  After the last page of the 64-bit
    space it comes round to page 0. -/
def userPagesOk (as : AddressSpace) (end_ : Nat) (need_write : Bool) : Nat → Nat → Option Bool
  | 0, _ => none
  | n + 1, page =>
    if page < end_ then
      if userPageOk as page need_write then
        userPagesOk as end_ need_write n ((page + PAGE_SIZE) % 2 ^ 64)
      else some false
    else some true

def userRangeOk (as : AddressSpace) (addr len : Nat) (need_write : Bool) (n : Nat) :
    Option Bool :=
  if len = 0 then some true
  else if 2 ^ 64 ≤ addr + len then some false
  else userPagesOk as (addr + len) need_write n (addr / PAGE_SIZE * PAGE_SIZE)

def Canonical (a : Nat) : Prop := a < 2 ^ 47 ∨ 2 ^ 64 - 2 ^ 47 ≤ a

def Accessible (as : AddressSpace) (need_write : Bool) (a : Nat) : Prop :=
  Canonical a ∧ ∃ bits, translate as.root a = some (a, bits) ∧ bits &&& PTE_P ≠ 0 ∧
    bits &&& PTE_US ≠ 0 ∧ (need_write = true → bits &&& PTE_RW ≠ 0)

section

variable {as : AddressSpace} {need_write : Bool} {addr len page a n : Nat}

/-! ## 2. What the test finds -/

theorem us_of_pteToFlags {e : Pte} (h : pteToFlags e &&& PAGE_U ≠ 0) : e &&& PTE_US ≠ 0 := by
  intro hzero
  apply h
  simp only [pteToFlags, hzero, ne_eq, not_true_eq_false, if_false]
  split_ifs <;> decide

theorem rw_of_pteToFlags {e : Pte} (h : pteToFlags e &&& PAGE_W ≠ 0) : e &&& PTE_RW ≠ 0 := by
  intro hzero
  apply h
  simp only [pteToFlags, hzero, ne_eq, not_true_eq_false, if_false]
  split_ifs <;> decide

theorem leafAt_of_userPageOk (h : userPageOk as page need_write = true) :
    ∃ l e, leafAt 4 as.root page = some (l, e) ∧ e &&& PTE_P ≠ 0 ∧ e &&& PTE_US ≠ 0 ∧
      (need_write = true → e &&& PTE_RW ≠ 0) := by
  dsimp only [userPageOk] at h
  split at h
  · cases h
  rename_i hpage
  split at h
  · cases h
  rename_i hwrite
  obtain ⟨hpresent, huser, -⟩ := not_or.mp hpage |>.imp_right not_or.mp
  cases hleaf : leafAt 4 as.root page with
  | none => simp [asGetinfo, walk, hleaf] at hpresent
  | some le =>
    have hbit : le.2 &&& PTE_P ≠ 0 := by simpa [asGetinfo, walk, hleaf] using hpresent
    have hflags : (asGetinfo as page).1 = pteToFlags le.2 := by
      rw [asGetinfo, walk, hleaf]
      exact if_pos (decide_eq_true hbit)
    rw [hflags] at huser hwrite
    exact ⟨le.1, le.2, rfl, hbit, us_of_pteToFlags huser,
      fun hw => rw_of_pteToFlags fun hzero => hwrite ⟨hw, hzero⟩⟩

theorem userPageOk_of_userPagesOk {end_ q : Nat}
    (h : userPagesOk as end_ need_write n page = some true) (hpage : page ≤ q) (hq : q < end_)
    (haligned : PAGE_SIZE ∣ page) (haligned' : PAGE_SIZE ∣ q) :
    userPageOk as q need_write = true := by
  induction n generalizing page with
  | zero => cases h
  | succ n ih =>
    rw [userPagesOk, if_pos (by omega)] at h
    split at h
    · rename_i hok
      rcases Nat.eq_or_lt_of_le hpage with rfl | hlt
      · exact hok
      · refine ih h ?_ ?_
        · -- also where the loop comes round, it has only `q` ahead
          have hle := Nat.mod_le (page + PAGE_SIZE) (2 ^ 64)
          simp only [PAGE_SIZE] at *
          omega
        · simp only [PAGE_SIZE] at *
          omega
    · cases h

theorem userPageOk_of_userRangeOk (h : userRangeOk as addr len need_write n = some true)
    (hlo : addr ≤ a) (hhi : a < addr + len) :
    userPageOk as (a / PAGE_SIZE * PAGE_SIZE) need_write = true := by
  rw [userRangeOk, if_neg (by omega)] at h
  split at h
  · cases h
  · refine userPageOk_of_userPagesOk h ?_ ?_ (Nat.dvd_mul_left ..) (Nat.dvd_mul_left ..)
    · exact Nat.mul_le_mul_right _ (Nat.div_le_div_right hlo)
    · exact lt_of_le_of_lt (Nat.div_mul_le_self ..) hhi

/-! ## 3. What the processor does -/

theorem accessible_of_userPageOk (hroot : RootOk as.root) (ha : a < 2 ^ 47)
    (h : userPageOk as (a / PAGE_SIZE * PAGE_SIZE) need_write = true) :
    Accessible as need_write a := by
  obtain ⟨l, e, hleaf, hp, hus, hrw⟩ := leafAt_of_userPageOk h
  have hbelow : a / PAGE_SIZE * PAGE_SIZE < 2 ^ 48 :=
    lt_of_le_of_lt (Nat.div_mul_le_self ..) (by omega)
  have hpage := translate_eq_pageBits hroot hbelow
  rw [Nat.mul_div_cancel _ (by decide), Paging.translate, hleaf] at hpage
  obtain ⟨f, hf, heq⟩ := Option.map_eq_some_iff.mp hpage.symm
  obtain rfl : f = pteBits e := congrArg Prod.snd heq
  refine ⟨.inl ha, pteBits e, ?_, ?_, ?_, fun hw => ?_⟩
  · rw [translate_eq_pageBits hroot (by omega), hf]
    rfl
  · rwa [pteBits_and_mask _ (by decide)]
  · rwa [pteBits_and_mask _ (by decide)]
  · rw [pteBits_and_mask _ (by decide)]
    exact hrw hw

theorem level_of_leafAt {l h : Nat} {root : Table} {e : Pte}
    (hleaf : leafAt h root a = some (l, e)) : ∃ k < h, l = k + 1 := by
  induction h generalizing root with
  | zero => cases hleaf
  | succ h ih =>
    rw [leafAt] at hleaf
    split at hleaf
    · cases hleaf
    · cases hleaf
      exact ⟨h, h.lt_succ_self, rfl⟩
    · obtain ⟨k, hk, hl⟩ := ih hleaf
      exact ⟨k, hk.trans h.lt_succ_self, hl⟩

theorem lt_of_accessible (h : Accessible as need_write a) : a < 2 ^ 47 := by
  obtain ⟨hcanonical, bits, htrans, -⟩ := h
  refine hcanonical.resolve_right fun hhigh => ?_
  obtain ⟨⟨l, e⟩, hleaf, heq⟩ := Option.map_eq_some_iff.mp htrans
  have hphys : (e &&& PTE_ADDR).toNat + a % LEVEL_SIZE l = a := congrArg Prod.fst heq
  have hbase : (e &&& PTE_ADDR).toNat ≤ PTE_ADDR.toNat := by
    rw [BitVec.toNat_and]
    exact Nat.and_le_right
  have hmask : PTE_ADDR.toNat < 2 ^ 52 := by decide
  obtain ⟨k, hk, rfl⟩ := level_of_leafAt hleaf
  have hoffset := Nat.mod_lt a (LEVEL_SIZE_pos k)
  have hsize : LEVEL_SIZE (k + 1) ≤ LEVEL_SIZE 4 :=
    Nat.mul_le_mul_left _ (Nat.pow_le_pow_right (by decide) (show k ≤ 3 by omega))
  rw [show LEVEL_SIZE 4 = 2 ^ 39 from rfl] at hsize
  omega

/-! ## 4. Runs -/

/-- Where the device ranges end inside the address space, every byte of a range that
    `user_range_ok` accepts is accessible as was checked, exactly where the range ends at
    or below `2 ^ 47`. -/
theorem run_user_range (pl : Platform) (bt : Boot) (ops : List Op) (s : State)
    (hrun : Run (step pl) (fun s op => Legal bt.held s op ∧ LowDevice op) bt.state ops s)
    (p : Nat) (pr : Process) (as : AddressSpace) (hp : s.g_procs.get p = some pr)
    (has : pr.as = some as) (addr len : Nat) (need_write : Bool) (n : Nat)
    (hok : userRangeOk as addr len need_write n = some true) :
    (∀ a, addr ≤ a → a < addr + len → Accessible as need_write a) ↔
      len = 0 ∨ addr + len ≤ 2 ^ 47 := by
  have hroot := (run_tidy hrun).1.tree p pr as hp has
  constructor
  · intro hall
    by_contra hnot
    have hlast := lt_of_accessible (hall (addr + len - 1) (by omega) (by omega))
    omega
  · intro hlow a hlo hhi
    exact accessible_of_userPageOk hroot (by omega) (userPageOk_of_userRangeOk hok hlo hhi)

end

theorem run_user_range_init : ∃ as, userRangeOk as PAGE_SIZE PAGE_SIZE true 2 = some true ∧
    ∀ a, PAGE_SIZE ≤ a → a < PAGE_SIZE + PAGE_SIZE → Accessible as true a := by
  obtain ⟨s, hrun, hpage⟩ : ∃ s, Run (step ⟨[], [], []⟩)
      (fun s op => Legal bareBoot.held s op ∧ LowDevice op) bareBoot.state
      [.create none, initAlloc] s ∧ ((s.g_procs.get 1).bind (·.as)).map
        (userRangeOk · PAGE_SIZE PAGE_SIZE true 2) = some (some true) :=
    exists_run_init ⟨trivial, trivial⟩ ⟨legal_initAlloc, trivial⟩ nofun (by decide +kernel)
  obtain ⟨as, has, hok⟩ := Option.map_eq_some_iff.mp hpage
  obtain ⟨pr, hp, has⟩ := Option.bind_eq_some_iff.mp has
  exact ⟨as, hok, (run_user_range ⟨[], [], []⟩ bareBoot _ s hrun 1 pr as hp has _ _ _ _ hok).mpr
    (.inr (by decide))⟩

/-- The page of `init` is accepted a second time, at an address no processor accesses. -/
theorem run_user_range_high : ∃ s pr as, Run (step ⟨[], [], []⟩) (Legal bareBoot.held)
    bareBoot.state [.create none, initAlloc] s ∧ s.g_procs.get 1 = some pr ∧ pr.as = some as ∧
    userRangeOk as (2 ^ 48 + PAGE_SIZE) PAGE_SIZE true 2 = some true ∧
    ¬ Canonical (2 ^ 48 + PAGE_SIZE) := by
  obtain ⟨s, hrun, hpage⟩ : ∃ s, Run (step ⟨[], [], []⟩) (Legal bareBoot.held) bareBoot.state
      [.create none, initAlloc] s ∧ ((s.g_procs.get 1).bind (·.as)).map
        (userRangeOk · (2 ^ 48 + PAGE_SIZE) PAGE_SIZE true 2) = some (some true) :=
    exists_run_init trivial legal_initAlloc nofun (by decide +kernel)
  obtain ⟨as, has, hok⟩ := Option.map_eq_some_iff.mp hpage
  obtain ⟨pr, hp, has⟩ := Option.bind_eq_some_iff.mp has
  exact ⟨s, pr, as, hrun, hp, has, hok, by rw [Canonical]; decide⟩

end GovinDos.Umem
