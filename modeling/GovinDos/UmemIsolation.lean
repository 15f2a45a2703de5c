/-
  **User isolation.**

  A leaf with the user bit in the tree of a process lies inside a live block that the process
  owns or that has a share edge to it.  This is tidiness for "no user bit".  `level_idx`
  keeps nine bits of each shift, so a device range above `2 ^ 48` lands on the pages of its
  low 48 bits, and `platform_mem_validate_device` lets a firmware-described region up there
  through.
-/
import GovinDos.UmemSystem

namespace GovinDos.Umem

open Paging PlatformMem Custody Function

/-! ## 1. The property -/

def Isolated (s : State) : Prop :=
  ∀ p pr as a, s.g_procs.get p = some pr → pr.as = some as → a < 2 ^ 48 →
    walk as.root a &&& PTE_US ≠ 0 →
    ∃ id b, s.heap.get id = some b ∧ b.base ≤ a ∧ a < b.base + b.bytes ∧
      (b.owner = p ∨ (b.sharers.get p).isSome)

def NoUser (_ : Nat) (o : Option Pte) : Prop := ∀ f ∈ o, f &&& PTE_US = 0

theorem pageBits_of_walk {root : Table} {a : Nat} (hroot : RootOk root) (ha : a < 2 ^ 48)
    (huser : walk root a &&& PTE_US ≠ 0) :
    ∃ f, pageBits root (a / PAGE_SIZE) = some f ∧ f &&& PTE_US ≠ 0 := by
  have htrans := translate_eq_pageBits hroot ha
  unfold walk at huser
  rw [Paging.translate] at htrans
  cases hleaf : leafAt 4 root a with
  | none =>
    rw [hleaf] at huser
    exact absurd (by decide) huser
  | some le =>
    rw [hleaf] at huser htrans
    obtain ⟨f, hf, heq⟩ := Option.map_eq_some_iff.mp htrans.symm
    have hbits : f = pteBits le.2 := congrArg Prod.snd heq
    refine ⟨f, hf, ?_⟩
    rw [hbits, pteBits_and_mask _ (by decide)]
    exact huser

theorem isolated_of_tidy {s : State} (hv : Valid s) (ht : Tidy NoUser (abs s)) : Isolated s := by
  intro p pr as a hp has ha huser
  obtain ⟨f, hf, hfuser⟩ := pageBits_of_walk (hv.tree p pr as hp has) ha huser
  have hheld : (abs s).Holds p (a / PAGE_SIZE) := by
    by_contra hout
    refine hfuser (ht.outside p _ (abs_map hp has) _ hout f ?_)
    rw [pagesOf, if_pos (page_lt ha)]
    exact hf
  obtain ⟨id, h, hid, hholds, hpage⟩ := hheld
  -- a holder of a block is a holder of a live one
  change ((s.heap.get id).map holding).or ((s.releasing.get id).map vacant) = _ at hid
  cases hheap : s.heap.get id with
  | none =>
    rw [hheap] at hid
    obtain ⟨b, -, rfl⟩ := Option.map_eq_some_iff.mp hid
    exact absurd hholds (Set.notMem_empty p)
  | some b =>
    rw [hheap] at hid
    cases hid
    have halign := (hv.placed id b hheap).base
    obtain ⟨hlo, hhi⟩ := mem_pageRange.mp hpage
    refine ⟨id, b, hheap, ?_, ?_, hholds.imp Eq.symm fun h => h⟩
    · rw [show PAGE_SIZE = 4096 from rfl] at *
      omega
    · rw [show PAGE_SIZE = 4096 from rfl] at *
      omega

/-! ## 2. Every run that stays below the end of the address space -/

def LowDevice : Op → Prop
  | .mapDevice _ base len _ _ => base + len ≤ 2 ^ 48
  | _ => True

instance (op : Op) : Decidable (LowDevice op) := by
  unfold LowDevice
  split <;> infer_instance

theorem noUser_kernel_flags {flags : PagingFlags}
    (h : flags = PAGE_KERNEL_PRISTINE ∨ flags = DEVICE_KERNEL_FLAGS ∨ flags = 0 ∨
      flags = MMIO_FLAGS) (x : Nat) : NoUser x (hardwareBits flags) := by
  have hall : (hardwareBits flags).all (fun f => f &&& PTE_US == 0) = true := by
    rcases h with rfl | rfl | rfl | rfl
    · decide
    · decide
    · decide
    · decide
  intro f hf
  rw [hf, Option.all_some, beq_iff_eq] at hall
  exact hall

theorem noUser_pristineMap (x : Nat) : NoUser x (pristineMap x) := by
  unfold pristineMap
  split
  · rintro _ ⟨⟩
    decide
  · rintro _ ⟨⟩

theorem admissible_noUser {pl : Platform} {s : State} {op : Op} (hlow : LowDevice op) :
    Admissible NoUser (fun _ _ => True) pl s op := by
  unfold Admissible
  split
  · intro as _ b _
    exact ⟨fun x _ => noUser_kernel_flags (Or.inl rfl) x, trivial⟩
  · refine ⟨hlow, fun kernel_flags delegatable hval x => ?_, fun _ _ => trivial⟩
    rcases (platformMemValidateDevice_some hval).kind with ⟨-, -, -, h⟩ | ⟨-, -, h⟩
    · exact noUser_kernel_flags (Or.inl h) x
    · exact noUser_kernel_flags (Or.inr (Or.inl h)) x
  · trivial

theorem run_tidy {pl : Platform} {bt : Boot} {ops : List Op} {s : State}
    (hrun : Run (step pl) (fun s op => Legal bt.held s op ∧ LowDevice op) bt.state ops s) :
    Valid s ∧ Tidy NoUser (abs s) := by
  refine hrun.invariant (P := fun s => Valid s ∧ Tidy NoUser (abs s)) ⟨bt.valid, ?_⟩ ?_
  · refine bt.tidy noUser_pristineMap fun g hg => ?_
    exact noUser_kernel_flags (Or.inr (Or.inr (bt.ok g hg).flags)) _
  · rintro s op s' ⟨hv, ht⟩ ⟨hlegal, hlow⟩ hstep
    have href := step_refines hv hlegal (admissible_noUser hlow) hstep
    exact ⟨href.1, Moves.tidy href.2 ht⟩

/-- **User isolation.**  In every run from boot whose device ranges end at or
    below `2 ^ 48`, every state reached is isolated. -/
theorem run_isolated (pl : Platform) (bt : Boot) (ops : List Op) (s : State)
    (hrun : Run (step pl) (fun s op => Legal bt.held s op ∧ LowDevice op) bt.state ops s) :
    Isolated s :=
  isolated_of_tidy (run_tidy hrun).1 (run_tidy hrun).2

theorem run_isolated_init : ∃ s pr as, s.g_procs.get 1 = some pr ∧ pr.as = some as ∧
    walk as.root PAGE_SIZE &&& PTE_US ≠ 0 ∧ Isolated s := by
  obtain ⟨s, hrun, hpage⟩ : ∃ s, Run (step ⟨[], [], []⟩)
      (fun s op => Legal bareBoot.held s op ∧ LowDevice op) bareBoot.state
      [.create none, initAlloc] s ∧ ((s.g_procs.get 1).bind (·.as)).map
        (fun as => walk as.root PAGE_SIZE &&& PTE_US) = some PTE_US :=
    exists_run_init ⟨trivial, trivial⟩ ⟨legal_initAlloc, trivial⟩ nofun (by decide +kernel)
  obtain ⟨as, has, huser⟩ := Option.map_eq_some_iff.mp hpage
  obtain ⟨pr, hp, has⟩ := Option.bind_eq_some_iff.mp has
  exact ⟨s, pr, as, hp, has, by rw [huser]; decide, run_isolated ⟨[], [], []⟩ bareBoot _ s hrun⟩

/-! ## 3. A device range above the address space -/

def highMmio : Platform :=
  { mmap := [⟨ EFI_MEMORY_MAPPED_IO, 2 ^ 48, 1⟩], protected_ := [], ecam := [] }

def mapHigh : Op := .mapDevice 1 (2 ^ 48) PAGE_SIZE VM_DEVICE_READ (some 0)

/-- One process, one device mapping at `2 ^ 48`: page 0, where no block is, has
    the user bit. -/
theorem run_high_not_isolated : ∃ s, Run (step highMmio) (Legal bareBoot.held) bareBoot.state
    [.create none, .mapDevice 1 (2 ^ 48) PAGE_SIZE VM_DEVICE_READ (some 0)] s ∧ ¬ Isolated s := by
  obtain ⟨s, hs, hpage, hheap⟩ : ∃ s, step highMmio initState mapHigh = some s ∧
      ((s.g_procs.get 1).bind (·.as)).map (fun as => walk as.root 0 &&& PTE_US) = some PTE_US ∧
      s.heap.entries.all (fun e => decide (0 < e.2.base)) = true := by
    have heval : ((step highMmio initState mapHigh).map fun s =>
        (((s.g_procs.get 1).bind (·.as)).map (fun as => walk as.root 0 &&& PTE_US),
          s.heap.entries.all fun e => decide (0 < e.2.base))) = some (some PTE_US, true) := by
      decide +kernel
    obtain ⟨s, hs, heq⟩ := Option.map_eq_some_iff.mp heval
    exact ⟨s, hs, Prod.mk.inj heq⟩
  obtain ⟨as, has, huser⟩ := Option.map_eq_some_iff.mp hpage
  obtain ⟨pr, hp, has⟩ := Option.bind_eq_some_iff.mp has
  refine ⟨s, .cons trivial (step_create_init highMmio)
    (.single ⟨OrdMap.get_empty 0, OrdMap.get_empty 0⟩ hs), fun hiso => ?_⟩
  obtain ⟨id, b, hb, hlo, -⟩ := hiso 1 pr as 0 hp has (by decide) (by rw [huser]; decide)
  have hpos := of_decide_eq_true (List.all_eq_true.mp hheap _ (OrdMap.get_eq_some_iff.mp hb))
  exact Nat.not_lt_of_le hlo hpos

/-! ## 4. Device blocks are apart -/

end GovinDos.Umem
