/-
  **Every operation of `Umem` is a sequence of custody moves.**

  The bits a block gives back and the pages a new block may have are parameters here; the
  modules that follow choose them.
-/
import GovinDos.UmemView

namespace GovinDos.Umem

open Paging PlatformMem Custody Function

variable {Q : Nat → Option Pte → Prop} {N : MemView → Set Nat → Prop}

def Refines (Q : Nat → Option Pte → Prop) (N : MemView → Set Nat → Prop) (s s' : State) : Prop :=
  Valid s' ∧ Moves Q N (abs s) (abs s')

theorem Refines.refl {s : State} (hv : Valid s) : Refines Q N s s := ⟨hv, .refl⟩

theorem Refines.of_abs_eq {s s' : State} (hv : Valid s') (h : abs s' = abs s) : Refines Q N s s' :=
  ⟨hv, h ▸ .refl⟩

theorem Refines.of_move {s s' : State} (hv : Valid s') (h : Move Q N (abs s) (abs s')) :
    Refines Q N s s' := ⟨hv, .single h⟩

theorem Valid.setUblocks {s : State} (hv : Valid s) (g : OrdMap Nat BlockId) :
    Valid { s with g_ublocks := g } :=
  ⟨hv.kernel, hv.tree, hv.owned, hv.viewed, hv.placed, hv.parked, hv.apart⟩

/-! ## 1. Allocation -/

section alloc

variable {s s' : State} {p len : Nat} {prot : PagingFlags} {o : AllocOutcome} {r : Option Nat}

def ramBlock (p base order : Nat) : Ublock :=
  { base := base, order := order, bytes := PAGE_SIZE * 2 ^ order, backing := .RAM, device_flags := 0,
    kernel_flags := PAGE_KERNEL_PRISTINE, delegatable := true, owner := p, sharers := .empty,
    ring := false, dma_maps := false, thread_pins := 0 }

theorem umemAlloc_cases (h : umemAlloc s p len prot o = some (s', r)) :
    s' = s ∨ ∃ page_id node, o = .got page_id node ∧
      ∃ as s₁ pr₁ blocks g_ublocks,
        let b := ramBlock p (allocBase page_id) (blockOrder len)
        (s.g_procs.get p).bind (·.as) = some as ∧ memsetOk as b.base b.bytes ∧
        s.reflag p b.base (b.base + b.bytes) (prot ||| PAGE_U) = some s₁ ∧
        s₁.g_procs.get p = some pr₁ ∧ pr₁.blocks.insert b.base node = some blocks ∧
        s' = { (s₁.setBlock node b).setProc p { pr₁ with blocks := blocks }
          with g_ublocks := g_ublocks } := by
  unfold umemAlloc at h
  split at h
  · cases h
    exact Or.inl rfl
  simp only at h
  cases o with
  | exhausted =>
    cases h
    exact Or.inl rfl
  | noNode page_id =>
    simp only [Option.bind_eq_bind, Option.bind_eq_some_iff] at h
    obtain ⟨pr, -, as, -, h⟩ := h
    split at h
    · cases h
      exact Or.inl rfl
    · cases h
  | got page_id node =>
    simp only [Option.bind_eq_bind, Option.bind_eq_some_iff] at h
    obtain ⟨pr, hp, as, has, h⟩ := h
    split at h
    case isFalse => cases h
    case isTrue hset =>
      simp only [Option.bind_eq_some_iff] at h
      obtain ⟨s₁, hs₁, pr₁, hp₁, blocks, hblocks, g_ublocks, -, h⟩ := h
      cases h
      refine Or.inr ⟨page_id, node, rfl, as, s₁, pr₁, blocks, g_ublocks, ?_, hset, hs₁, hp₁,
        hblocks, rfl⟩
      rw [hp, Option.bind_some, has]

theorem memsetOk_page {as : AddressSpace} {base bytes x : Nat} (h : memsetOk as base bytes)
    (hbase : base % PAGE_SIZE = 0) (hx : x ∈ pageRange base (base + bytes)) :
    x * PAGE_SIZE < 2 ^ 47 ∧ (translate as.root (x * PAGE_SIZE)).isSome := by
  have hpage : PAGE_SIZE = 4096 := rfl
  obtain ⟨hlo, hhi⟩ := mem_pageRange.mp hx
  rw [hpage] at hbase hlo hhi
  have hi : x - base / PAGE_SIZE < bytes / PAGE_SIZE := by
    rw [hpage]
    omega
  have haddr : base + (x - base / PAGE_SIZE) * PAGE_SIZE = x * PAGE_SIZE := by
    rw [hpage]
    omega
  have hall := List.all_eq_true.mp h _ (List.mem_range.mpr hi)
  rw [haddr, Bool.and_eq_true, decide_eq_true_eq] at hall
  exact hall

theorem memsetOk_end {as : AddressSpace} {base order : Nat}
    (h : memsetOk as base (PAGE_SIZE * 2 ^ order)) :
    base + PAGE_SIZE * 2 ^ order ≤ 2 ^ 48 := by
  have hpos : 0 < 2 ^ order := Nat.two_pow_pos order
  have hdiv : PAGE_SIZE * 2 ^ order / PAGE_SIZE = 2 ^ order :=
    Nat.mul_div_cancel_left _ (by decide)
  -- the last page is below `2 ^ 47`
  have hall := List.all_eq_true.mp h (2 ^ order - 1)
    (List.mem_range.mpr (by rw [hdiv]; omega))
  rw [Bool.and_eq_true, decide_eq_true_eq] at hall
  have hlast := hall.1
  rw [show PAGE_SIZE = 4096 from rfl] at *
  omega

theorem allocBase_aligned (page_id : Nat) : allocBase page_id % PAGE_SIZE = 0 := by
  rw [allocBase, show PAGE_SIZE = 4096 from rfl]
  omega

theorem Valid.setBlock_fresh {id : BlockId} {b : Ublock} (hv : Valid s)
    (hplaced : Placed b) (hheap : s.heap.get id = none)
    (hrel : s.releasing.get id = none) : Valid (s.setBlock id b) := by
  refine hv.setBlock hplaced hrel ?_ ?_
  · grind [→ Valid.owned, OwnsAt]
  · grind [→ Valid.viewed, ViewsAt]

theorem Valid.own {pr : Process} {id : BlockId} {b : Ublock} {blocks : OrdMap Nat BlockId}
    (hv : Valid s) (hp : s.g_procs.get p = some pr) (hb : s.heap.get id = some b)
    (hblocks : pr.blocks.insert b.base id = some blocks) (howner : b.owner = p) :
    Valid (s.setProc p { pr with blocks := blocks }) := by
  obtain ⟨-, rfl⟩ := OrdMap.insert_eq_some_iff.mp hblocks
  refine hv.setProc (fun as => hv.tree p pr as hp) ?_ (fun base e => hv.viewed p pr base e hp)
  grind [OwnsAt, → Valid.owned]

theorem refines_hold {s₁ : State} {pr₁ : Process} {node : BlockId} (b : Ublock)
    {blocks : OrdMap Nat BlockId} (g_ublocks : OrdMap Nat BlockId) {flags : PagingFlags} (hv : Valid s)
    (hflag : s.reflag p b.base (b.base + b.bytes) flags = some s₁)
    (hp₁ : s₁.g_procs.get p = some pr₁) (hblocks : pr₁.blocks.insert b.base node = some blocks)
    (hplaced : Placed b) (hheap : s.heap.get node = none)
    (hrel : s.releasing.get node = none) (howner : b.owner = p)
    (hQ : ∀ x ∈ pageRange b.base (b.base + b.bytes), Q x (hardwareBits b.kernel_flags))
    (hN : N (abs s) (pageRange b.base (b.base + b.bytes))) :
    Refines Q N s { (s₁.setBlock node b).setProc p { pr₁ with blocks := blocks }
      with g_ublocks := g_ublocks } := by
  obtain ⟨hv₁, habs, pr, as', -, hs₁⟩ := reflag_spec hflag hv hplaced.low
  have hset : Valid (s₁.setBlock node b) :=
    hv₁.setBlock_fresh hplaced (hs₁ ▸ hheap) (hs₁ ▸ hrel)
  have hread : abs ((s₁.setBlock node b).setProc p { pr₁ with blocks := blocks }) =
      ((abs s).setBlock node (some (holding b))).paint p (holding b).pages (hardwareBits flags) := by
    rw [abs_setProc_of_as (s := s₁.setBlock node b) { pr₁ with blocks := blocks } hp₁ rfl,
      abs_setBlock, habs]
    rfl
  refine .of_move ((hset.own hp₁ (OrdMap.get_set_self _ _ _) hblocks howner).setUblocks _) ?_
  change Move Q N (abs s) (abs ((s₁.setBlock node b).setProc p { pr₁ with blocks := blocks }))
  rw [hread]
  exact .hold _ _ _ _ _ (abs_block_eq_none hheap hrel) (Or.inl howner.symm) hQ hN

theorem umemAlloc_refines (hv : Valid s) (h : umemAlloc s p len prot o = some (s', r))
    (hnew : ∀ page_id node, o = .got page_id node →
      s.heap.get node = none ∧ s.releasing.get node = none)
    (hQN : ∀ page_id node as, o = .got page_id node → (s.g_procs.get p).bind (·.as) = some as →
      let b := ramBlock p (allocBase page_id) (blockOrder len)
      memsetOk as b.base b.bytes →
        (∀ x ∈ pageRange b.base (b.base + b.bytes), Q x (hardwareBits PAGE_KERNEL_PRISTINE)) ∧
        N (abs s) (pageRange b.base (b.base + b.bytes))) :
    Refines Q N s s' := by
  rcases umemAlloc_cases h with rfl | ⟨page_id, node, rfl, as, s₁, pr₁, blocks, g_ublocks, has,
    hset, hflag, hp₁, hblocks, rfl⟩
  · exact .refl hv
  · obtain ⟨hheap, hrel⟩ := hnew page_id node rfl
    obtain ⟨hQ, hN⟩ := hQN page_id node as rfl has hset
    exact refines_hold _ _ hv hflag hp₁ hblocks 
      ⟨Nat.mul_pos (by decide) (Nat.two_pow_pos _), allocBase_aligned page_id, Nat.mul_mod_right _ _,
        memsetOk_end hset⟩ hheap hrel rfl hQ hN

end alloc

/-! ## 2. Device blocks -/

section device

variable {pl : Platform} {s s' : State} {p base len lo hi : Nat} {flags : BitVec 32}
  {kernel_flags : PagingFlags} {node : Option BlockId} {r : SysResult}

def deviceBlock (p base len : Nat) (flags : BitVec 32) (kernel_flags : PagingFlags)
    (delegatable : Bool) : Ublock :=
  { base := base, order := 0, bytes := len, backing := .DEVICE, device_flags := deviceFlags flags,
    kernel_flags := kernel_flags, delegatable := delegatable, owner := p, sharers := .empty,
    ring := false, dma_maps := false, thread_pins := 0 }

theorem umemMapDeviceLocked_cases
    (h : umemMapDeviceLocked pl s p base len flags node = some (s', r)) :
    s' = s ∧ r ≠ .ok 0 ∨ ∃ kernel_flags delegatable g_as_kernel g_procs,
      platformMemValidateDevice pl base len flags = some (kernel_flags, delegatable) ∧
      deviceOverlap s base (base + len) = false ∧
      (asFlag s.g_as_kernel base (base + len) kernel_flags).map asFlush = some g_as_kernel ∧
      s.g_procs.mapM (flagProcess base (base + len) kernel_flags) = some g_procs ∧
      let s₀ := { s with g_as_kernel := g_as_kernel, g_procs := g_procs }
      s' = s₀ ∧ r ≠ .ok 0 ∨ ∃ id s₁ pr₁, node = some id ∧
        s₀.reflag p base (base + len) (deviceFlags flags ||| PAGE_U) = some s₁ ∧
        s₁.g_procs.get p = some pr₁ ∧
        (s₁.reflag p base (base + len) kernel_flags = some s' ∧ r ≠ .ok 0 ∨
          ∃ blocks g_ublocks, pr₁.blocks.insert base id = some blocks ∧
            s' = { (s₁.setBlock id (deviceBlock p base len flags kernel_flags delegatable)).setProc p
              { pr₁ with blocks := blocks } with g_ublocks := g_ublocks }) := by
  unfold umemMapDeviceLocked at h
  split at h
  · cases h
    exact Or.inl ⟨rfl, nofun⟩
  case h_2 kernel_flags delegatable hval =>
    simp only at h
    split at h
    · cases h
      exact Or.inl ⟨rfl, nofun⟩
    rename_i hapart
    simp only [Option.bind_eq_bind, Option.bind_eq_some_iff] at h
    obtain ⟨g_as_kernel, hkernel, g_procs, hprocs, h⟩ := h
    refine Or.inr ⟨kernel_flags, delegatable, g_as_kernel, g_procs, hval,
      Bool.eq_false_of_not_eq_true hapart, hkernel, hprocs, ?_⟩
    cases node with
    | none =>
      cases h
      exact Or.inl ⟨rfl, nofun⟩
    | some id =>
      simp only [Option.bind_eq_some_iff] at h
      obtain ⟨s₁, hs₁, pr₁, hp₁, h⟩ := h
      refine Or.inr ⟨id, s₁, pr₁, rfl, hs₁, hp₁, ?_⟩
      split at h
      · simp only [Option.bind_eq_some_iff] at h
        obtain ⟨s₂, hs₂, h⟩ := h
        cases h
        exact Or.inl ⟨hs₂, nofun⟩
      case h_2 blocks hblocks =>
        simp only [Option.bind_eq_some_iff] at h
        obtain ⟨g_ublocks, -, h⟩ := h
        cases h
        exact Or.inr ⟨blocks, g_ublocks, hblocks, rfl⟩

theorem flagProcess_spec {q : Nat} {pr pr' : Process}
    (h : flagProcess lo hi kernel_flags q pr = some pr') (hmax : hi ≤ 2 ^ 48)
    (hroot : ∀ as, pr.as = some as → RootOk as.root) :
    pr'.blocks = pr.blocks ∧ pr'.views = pr.views ∧ (∀ as, pr'.as = some as → RootOk as.root) ∧
      mapOf pr' = (mapOf pr).map (paint (pageRange lo hi) (hardwareBits kernel_flags)) := by
  unfold flagProcess at h
  split at h
  case h_1 has =>
    cases h
    refine ⟨rfl, rfl, hroot, ?_⟩
    rw [mapOf, has]
    rfl
  case h_2 as has =>
    obtain ⟨as', has', rfl⟩ := Option.map_eq_some_iff.mp h
    obtain ⟨hroot', -, hpages⟩ := asFlag_paint has' (hroot as has) hmax
    refine ⟨rfl, rfl, ?_, ?_⟩
    · rintro _ ⟨⟩
      exact hroot'
    · rw [mapOf, mapOf, has, Option.map_some, Option.map_some, Option.map_some, ← hpages]
      rfl

theorem alias_spec {g_as_kernel : AddressSpace} {g_procs : OrdMap Nat Process} (hv : Valid s)
    (hkernel : (asFlag s.g_as_kernel lo hi kernel_flags).map asFlush = some g_as_kernel)
    (hprocs : s.g_procs.mapM (flagProcess lo hi kernel_flags) = some g_procs)
    (hmax : hi ≤ 2 ^ 48) :
    Valid { s with g_as_kernel := g_as_kernel, g_procs := g_procs } ∧
      abs { s with g_as_kernel := g_as_kernel, g_procs := g_procs } =
        (abs s).paintAll (pageRange lo hi) (hardwareBits kernel_flags) := by
  obtain ⟨as₁, has₁, rfl⟩ := Option.map_eq_some_iff.mp hkernel
  obtain ⟨hroot, -, hpages⟩ := asFlag_paint has₁ hv.kernel hmax
  -- every process of the new registry comes from one of the old
  have hback : ∀ q pr', g_procs.get q = some pr' → ∃ pr, s.g_procs.get q = some pr ∧
      flagProcess lo hi kernel_flags q pr = some pr' := by
    intro q pr' hq
    cases hget : s.g_procs.get q with
    | none => cases (OrdMap.get_mapM_of_none hprocs hget).symm.trans hq
    | some pr =>
      obtain ⟨pr'', hf, hq'⟩ := OrdMap.get_mapM_of_some hprocs hget
      cases hq'.symm.trans hq
      exact ⟨pr, rfl, hf⟩
  have hspec : ∀ q pr pr', s.g_procs.get q = some pr →
      flagProcess lo hi kernel_flags q pr = some pr' → _ :=
    fun q pr pr' hq hf => flagProcess_spec hf hmax fun as => hv.tree q pr as hq
  constructor
  · refine ⟨hroot, ?_, ?_, ?_, hv.placed, hv.parked, hv.apart⟩
    · intro q pr' as hq has
      obtain ⟨pr, hq₀, hf⟩ := hback q pr' hq
      exact (hspec q pr pr' hq₀ hf).2.2.1 as has
    · intro q pr' base id hq hid
      obtain ⟨pr, hq₀, hf⟩ := hback q pr' hq
      rw [(hspec q pr pr' hq₀ hf).1] at hid
      exact hv.owned q pr base id hq₀ hid
    · intro q pr' base e hq he
      obtain ⟨pr, hq₀, hf⟩ := hback q pr' hq
      rw [(hspec q pr pr' hq₀ hf).2.1] at he
      exact hv.viewed q pr base e hq₀ he
  · have hmap : (fun q => (g_procs.get q).bind mapOf) = fun q =>
        ((s.g_procs.get q).bind mapOf).map
          (paint (pageRange lo hi) (hardwareBits kernel_flags)) := by
      funext q
      cases hget : s.g_procs.get q with
      | none =>
        rw [OrdMap.get_mapM_of_none hprocs hget]
        rfl
      | some pr =>
        obtain ⟨pr', hf, hq'⟩ := OrdMap.get_mapM_of_some hprocs hget
        rw [hq', Option.bind_some, Option.bind_some]
        exact (hspec q pr pr' hget hf).2.2.2
    unfold abs View.paintAll
    exact congrArg₂ (fun a m => View.mk a m _) hpages hmap

theorem umemMapDeviceLocked_refines (hv : Valid s)
    (h : umemMapDeviceLocked pl s p base len flags node = some (s', r))
    (hmax : base + len ≤ 2 ^ 48)
    (hnew : ∀ id, node = some id → s.heap.get id = none ∧ s.releasing.get id = none)
    (hQ : ∀ kernel_flags delegatable,
      platformMemValidateDevice pl base len flags = some (kernel_flags, delegatable) →
      ∀ x, Q x (hardwareBits kernel_flags)) (hN : ∀ v R, N v R) : Refines Q N s s' := by
  rcases umemMapDeviceLocked_cases h with ⟨rfl, -⟩ | ⟨kernel_flags, delegatable, g_as_kernel, g_procs,
    hval, -, hkernel, hprocs, hcase⟩
  · exact .refl hv
  obtain ⟨hv₀, habs₀⟩ := alias_spec hv hkernel hprocs hmax
  have halias : Refines Q N s { s with g_as_kernel := g_as_kernel, g_procs := g_procs } := by
    refine .of_move hv₀ ?_
    rw [habs₀]
    exact .recolor _ _ _ fun x _ => hQ kernel_flags delegatable hval x
  rcases hcase with ⟨rfl, -⟩ | ⟨id, s₁, pr₁, hid, hs₁, hp₁, ⟨hs', -⟩ | ⟨blocks, g_ublocks, hblocks, rfl⟩⟩
  · exact halias
  · -- the mapping is painted over with the alias again
    obtain ⟨hv₁, habs₁, -⟩ := reflag_spec hs₁ hv₀ hmax
    obtain ⟨hv₂, habs₂, -⟩ := reflag_spec hs' hv₁ hmax
    refine ⟨hv₂, ?_⟩
    rw [habs₂, habs₁, View.paint_paint, habs₀, View.paint_paintAll, ← habs₀]
    exact halias.2
  · obtain ⟨hheap, hrel⟩ := hnew id hid
    have hpassed := platformMemValidateDevice_some hval
    have hhold := refines_hold (Q := Q) (N := N)
      (deviceBlock p base len flags kernel_flags delegatable) g_ublocks hv₀ hs₁ hp₁ hblocks
      ⟨Nat.pos_of_ne_zero hpassed.nonempty, hpassed.aligned, hpassed.pages, hmax⟩ hheap hrel rfl
      (fun x _ => hQ kernel_flags delegatable hval x) (hN _ _)
    exact ⟨hhold.1, halias.2.trans hhold.2⟩

end device

/-! ## 3. Protection -/

section protect

variable {s s' : State} {p base len addr : Nat} {prot : PagingFlags} {id : BlockId}

def HoldsRange (s : State) (p : Nat) (id : BlockId) (addr len : Nat) : Prop :=
  ∃ b, s.heap.get id = some b ∧ p ∈ (holding b).holders ∧ b.base ≤ addr ∧
    addr + len ≤ b.base + b.bytes

theorem viewedLocked_spec {pr : Process} (hv : Valid s) (hp : s.g_procs.get p = some pr)
    (h : viewedLocked s pr addr len = some (some id)) : HoldsRange s p id addr len := by
  unfold viewedLocked at h
  split at h
  · cases h
  case h_2 k e hfloor =>
    obtain ⟨b, hb, hfound⟩ := Option.bind_eq_some_iff.mp h
    rw [Option.some.injEq] at hfound
    split at hfound
    case isTrue hle =>
      cases hfound
      obtain ⟨hget, hk⟩ := OrdMap.get_of_floor hfloor
      obtain ⟨-, b', hb', hbase, hsharer⟩ := hv.viewed p pr k e hp hget
      cases hb.symm.trans hb'
      exact ⟨b, hb, Or.inr hsharer, by rw [hbase]; exact hk, hle.trans (Nat.mod_le _ _)⟩
    · cases hfound

theorem umemViewLocked_spec {pr : Process} (hv : Valid s) (hp : s.g_procs.get p = some pr)
    (h : umemViewLocked s pr addr len = some (some id)) : HoldsRange s p id addr len := by
  unfold umemViewLocked at h
  split at h
  · cases h
  split at h
  · exact viewedLocked_spec hv hp h
  case h_2 k id' hfloor =>
    obtain ⟨b, hb, hfound⟩ := Option.bind_eq_some_iff.mp h
    split at hfound
    case isTrue hle =>
      obtain ⟨hget, hk⟩ := OrdMap.get_of_floor hfloor
      obtain ⟨b', hb', hbase, howner⟩ := hv.owned p pr k id' hp hget
      cases hb.symm.trans hb'
      rw [umemOwnedLocked, hbase, hget] at hfound
      cases hfound
      exact ⟨b, hb, Or.inl howner.symm, by rw [hbase]; exact hk, hle.trans (Nat.mod_le _ _)⟩
    · exact viewedLocked_spec hv hp hfound

theorem pageRange_subset {lo hi lo' hi' : Nat} (hlo : lo' ≤ lo) (hhi : hi ≤ hi') :
    pageRange lo hi ⊆ pageRange lo' hi' := by
  intro x hx
  exact ⟨(Nat.div_le_div_right hlo).trans hx.1, hx.2.trans_le (Nat.div_le_div_right hhi)⟩

theorem refines_repaint {lo hi : Nat} {b : Ublock} (hv : Valid s) (hb : s.heap.get id = some b)
    (hheld : p ∈ (holding b).holders) (hlo : b.base ≤ lo) (hhi : hi ≤ b.base + b.bytes)
    {flags : PagingFlags} (hflag : s.reflag p lo hi flags = some s') : Refines Q N s s' := by
  obtain ⟨hv', habs, -⟩ := reflag_spec hflag hv (hhi.trans (hv.low hb))
  refine .of_move hv' ?_
  rw [habs]
  exact .repaint _ id _ p _ _ (abs_block hb) hheld (pageRange_subset hlo hhi)

theorem umemProtect_refines {done : Bool} (hv : Valid s)
    (h : umemProtect s p base len prot = some (s', done)) : Refines Q N s s' := by
  unfold umemProtect at h
  split at h
  · cases h
    exact .refl hv
  simp only [Option.bind_eq_bind, Option.bind_eq_some_iff] at h
  obtain ⟨pr, hp, v, hview, h⟩ := h
  cases v with
  | none =>
    cases h
    exact .refl hv
  | some id =>
    simp only [Option.bind_eq_some_iff] at h
    obtain ⟨b, hb, h⟩ := h
    split at h
    · cases h
      exact .refl hv
    simp only [Option.bind_eq_some_iff] at h
    obtain ⟨s₁, hs₁, h⟩ := h
    cases h
    obtain ⟨b', hb', hheld, hlo, hhi⟩ := umemViewLocked_spec hv hp hview
    exact refines_repaint hv hb' hheld hlo hhi hs₁

end protect

/-! ## 4. Share edges -/

section share

variable {s s' : State} {p base target : Nat} {id : BlockId} {e : EdgeRef}

def PendingOnly (s s' : State) : Prop :=
  s' = s ∨ ∃ p pr l, s.g_procs.get p = some pr ∧ s' = s.setProc p { pr with unnotified := l }

theorem PendingOnly.spec (h : PendingOnly s s') (hv : Valid s) :
    Valid s' ∧ abs s' = abs s ∧ s'.heap = s.heap := by
  rcases h with rfl | ⟨q, pr, l, hq, rfl⟩
  · exact ⟨hv, rfl, rfl⟩
  · exact ⟨hv.setProc_of_sub hq rfl (fun _ _ h => h) (fun _ _ h => h),
      abs_setProc_of_as { pr with unnotified := l } hq rfl, rfl⟩

theorem PendingOnly.entries (h : PendingOnly s s') {q : Nat} {qr : Process}
    (hq : s'.g_procs.get q = some qr) :
    ∃ qr₀, s.g_procs.get q = some qr₀ ∧ qr.views = qr₀.views ∧ qr.blocks = qr₀.blocks := by
  rcases h with rfl | ⟨q', pr, l, hq', rfl⟩
  · exact ⟨qr, hq, rfl, rfl⟩
  · grind [State.setProc]

theorem pendingLink_pendingOnly (h : pendingLink s e = some s') : PendingOnly s s' := by
  obtain ⟨pr, hp, h⟩ := Option.bind_eq_some_iff.mp h
  cases h
  exact Or.inr ⟨e.to_, pr, _, hp, rfl⟩

theorem pendingUnlink_pendingOnly {notified : Bool}
    (h : umemEdgePendingUnlinkLocked s e notified = some s') : PendingOnly s s' := by
  unfold umemEdgePendingUnlinkLocked at h
  split at h
  · cases h
    exact Or.inl rfl
  · obtain ⟨pr, hp, h⟩ := Option.bind_eq_some_iff.mp h
    cases h
    exact Or.inr ⟨e.to_, pr, _, hp, rfl⟩

theorem Valid.setBlock_of_sub {b b' : Ublock} (hv : Valid s) (hb : s.heap.get id = some b)
    (hbase : b'.base = b.base) (hbytes : b'.bytes = b.bytes) (howner : b'.owner = b.owner)
    (hsharers : ∀ p pr base e, s.g_procs.get p = some pr → pr.views.get base = some e →
      e.block = id → (b'.sharers.get p).isSome) : Valid (s.setBlock id b') := by
  refine hv.setBlock ?_ (hv.releasing_none hb) ?_ ?_
  · exact (hv.placed id b hb).congr hbase hbytes
  · grind [→ Valid.owned, OwnsAt]
  · grind [→ Valid.viewed, ViewsAt]

theorem setBlock_same {b : Ublock} (b' : Ublock) (hv : Valid s) (hb : s.heap.get id = some b)
    (hbase : b'.base = b.base) (hbytes : b'.bytes = b.bytes) (howner : b'.owner = b.owner)
    (hkernel : b'.kernel_flags = b.kernel_flags)
    (hsharers : ∀ q, (b'.sharers.get q).isSome = (b.sharers.get q).isSome) :
    Valid (s.setBlock id b') ∧ abs (s.setBlock id b') = abs s := by
  constructor
  · refine hv.setBlock_of_sub hb hbase hbytes howner ?_
    grind [→ Valid.viewed, ViewsAt]
  · have hhold : holding b' = holding b := by
      simp only [holding, hbase, hbytes, howner, hkernel, hsharers]
    rw [abs_setBlock, hhold, ← abs_block hb, View.setBlock, update_eq_self]

theorem channelEdgeNotify_spec {posted : Bool} (hv : Valid s)
    (h : channelEdgeNotify s e posted = some s')
    (hedge : ∀ b, s.heap.get e.block = some b → (b.sharers.get e.to_).isSome) :
    Valid s' ∧ abs s' = abs s := by
  unfold channelEdgeNotify at h
  split at h
  · simp only [Option.bind_eq_bind, Option.bind_eq_some_iff] at h
    obtain ⟨s₁, hs₁, b, hb, h⟩ := h
    cases h
    obtain ⟨hv₁, habs₁, hheap₁⟩ := (pendingUnlink_pendingOnly hs₁).spec hv
    have hset := setBlock_same { b with sharers := b.sharers.set e.to_ true } hv₁ hb rfl
      rfl rfl rfl ?_
    · exact ⟨hset.1, hset.2.trans habs₁⟩
    · grind
  · cases h
    exact ⟨hv, rfl⟩

theorem Valid.view {tr : Process} {b : Ublock} {views : OrdMap Nat EdgeRef} (hv : Valid s)
    (htr : s.g_procs.get target = some tr) (hb : s.heap.get id = some b)
    (hviews : tr.views.insert b.base ⟨id, target⟩ = some views)
    (hsharer : (b.sharers.get target).isSome) :
    Valid (s.setProc target { tr with views := views }) := by
  obtain ⟨-, rfl⟩ := OrdMap.insert_eq_some_iff.mp hviews
  refine hv.setProc (fun as => hv.tree target tr as htr)
    (fun base id => hv.owned target tr base id htr) ?_
  grind [ViewsAt, → Valid.viewed]

theorem isSome_get_set {m : OrdMap Nat Bool} {k q : Nat} {v : Bool} :
    ((m.set k v).get q).isSome ↔ q = k ∨ (m.get q).isSome := by
  grind

theorem umemShare_refines {prot : PagingFlags} {nodes posted : Bool} {r : SysResult} (hv : Valid s)
    (h : umemShare s p base target prot nodes posted = some (s', r)) : Refines Q N s s' := by
  unfold umemShare at h
  split at h
  · cases h
    exact .refl hv
  obtain ⟨pr, hp, h⟩ := Option.bind_eq_some_iff.mp h
  split at h
  case h_2 =>
    cases h
    exact .refl hv
  case h_1 id tr₀ hid _ =>
    simp only [Option.bind_eq_bind, Option.bind_eq_some_iff] at h
    obtain ⟨b, hb, h⟩ := h
    split at h
    · cases h
      exact .refl hv
    split at h
    · cases h
      exact .refl hv
    simp only [Option.bind_eq_some_iff] at h
    obtain ⟨s₁, hs₁, tr, htr, views, hviews, s₂, hs₂, s₃, hs₃, h⟩ := h
    cases h
    -- the record has the new edge from here on
    have hv₀ : Valid (s.setBlock id { b with sharers := b.sharers.set target false }) := by
      refine hv.setBlock_of_sub hb rfl rfl rfl ?_
      grind [→ Valid.viewed, ViewsAt]
    have hheap₀ : (s.setBlock id { b with sharers := b.sharers.set target false }).heap.get id =
        some { b with sharers := b.sharers.set target false } := OrdMap.get_set_self _ _ _
    obtain ⟨hv₁, habs₁, hheap₁⟩ := (pendingLink_pendingOnly hs₁).spec hv₀
    rw [← hheap₁] at hheap₀
    have hedge : ((b.sharers.set target false).get target).isSome :=
      isSome_get_set.mpr (Or.inl rfl)
    have hview := hv₁.view htr hheap₀ hviews hedge
    obtain ⟨hv₂, habs₂, tr', as', -, hset₂⟩ := reflag_spec hs₂ hview (hv.low hb)
    obtain ⟨hv₃, habs₃⟩ := channelEdgeNotify_spec hv₂ hs₃ (by
      intro b' hb'
      rw [hset₂] at hb'
      cases hheap₀.symm.trans hb'
      exact hedge)
    have hhold : holding { b with sharers := b.sharers.set target false } =
        { holding b with holders := insert target (holding b).holders } := by
      have hholders : { q | q = b.owner ∨ ((b.sharers.set target false).get q).isSome } =
          insert target { q | q = b.owner ∨ (b.sharers.get q).isSome } := by
        ext q
        rw [Set.mem_insert_iff, Set.mem_ofPred_eq, Set.mem_ofPred_eq, isSome_get_set]
        exact or_left_comm
      rw [holding, holding, hholders]
    refine .of_move hv₃ ?_
    rw [habs₃, habs₂, abs_setProc_of_as { tr with views := views } htr rfl, habs₁, abs_setBlock,
      hhold]
    exact .extend _ id (holding b) target _ (abs_block hb)

theorem dropEdge_refines {r : SysResult} (hv : Valid s)
    (h : dropEdge s e target base = some (s', r)) : Refines Q N s s' := by
  unfold dropEdge at h
  simp only [Option.bind_eq_bind, Option.bind_eq_some_iff, Prod.exists] at h
  obtain ⟨tr, htr, removed, views, hviews, h⟩ := h
  split at h
  case isFalse => cases h
  case isTrue heq =>
    simp only [Option.bind_eq_some_iff, Prod.exists] at h
    obtain ⟨b, hb, notified, sharers, hsharers, s₁, hs₁, s₂, hs₂, h⟩ := h
    cases h
    rw [heq] at hviews
    obtain ⟨hget, rfl⟩ := OrdMap.remove_eq_some_iff.mp hviews
    obtain ⟨hshare, rfl⟩ := OrdMap.remove_eq_some_iff.mp hsharers
    obtain ⟨hto, b', hb', hbase, -⟩ := hv.viewed target tr base e htr hget
    cases hb.symm.trans hb'
    have hv₀ : Valid (s.setProc target { tr with views := tr.views.erase base }) := by
      refine hv.setProc_of_sub htr rfl (fun _ _ h => h) fun base' e' he' => ?_
      exact (OrdMap.get_erase_eq_some_iff.mp he').2
    have hpend := pendingUnlink_pendingOnly hs₁
    obtain ⟨hv₁, habs₁, hheap₁⟩ := hpend.spec hv₀
    have hb₁ : s₁.heap.get e.block = some b := hheap₁ ▸ hb
    have hv₂ : Valid (s₁.setBlock e.block { b with sharers := b.sharers.erase target }) := by
      refine hv₁.setBlock_of_sub hb₁ rfl rfl rfl ?_
      intro q qr base' e' hq he' heq'
      obtain ⟨-, b₁, hb₁', hbase', hq₁⟩ := hv₁.viewed q qr base' e' hq he'
      rw [heq'] at hb₁'
      cases hb₁.symm.trans hb₁'
      have hne : q ≠ target := by
        -- the target's only view of this block was at `base`
        rintro rfl
        obtain ⟨qr₀, hq₀, hviews₀, -⟩ := hpend.entries hq
        cases (OrdMap.get_set_self _ _ _).symm.trans hq₀
        rw [hviews₀] at he'
        exact (OrdMap.get_erase_eq_some_iff.mp he').1 (hbase'.symm.trans hbase)
      change ((b.sharers.erase target).get q).isSome
      rw [OrdMap.get_erase_of_ne _ hne]
      exact hq₁
    obtain ⟨hv₃, habs₃, -⟩ := reflag_spec hs₂ hv₂ (hv.low hb)
    refine .of_move hv₃ ?_
    rw [habs₃, abs_setBlock, habs₁, abs_setProc_of_as { tr with views := tr.views.erase base } htr rfl]
    refine .evict _ e.block (holding b) target
      { q | q = b.owner ∨ ((b.sharers.erase target).get q).isSome } (abs_block hb) ?_
    intro q hq
    rcases hq with hq | hq
    · exact Or.inr (Or.inl hq)
    · by_cases hqt : q = target
      · exact Or.inl hqt
      · refine Or.inr (Or.inr ?_)
        rw [OrdMap.get_erase_of_ne _ hqt]
        exact hq

theorem umemDropshare_refines {caller pid : Nat} {r : SysResult} (hv : Valid s)
    (h : umemDropshare s caller base pid = some (s', r)) : Refines Q N s s' := by
  unfold umemDropshare at h
  simp only at h
  generalize (if pid = 0 ∨ pid = caller then caller else pid) = target at h
  split at h
  · cases h
    exact .refl hv
  split at h
  · cases h
    exact .refl hv
  split at h
  · cases h
    exact .refl hv
  · exact dropEdge_refines hv h

theorem umemUnshare_refines {caller pid : Nat} {r : SysResult} (hv : Valid s)
    (h : umemUnshare s caller base pid = some (s', r)) : Refines Q N s s' := by
  unfold umemUnshare at h
  split at h
  · cases h
    exact .refl hv
  obtain ⟨b, hb, h⟩ := Option.bind_eq_some_iff.mp h
  split at h
  · cases h
    exact .refl hv
  split at h
  · exact dropEdge_refines hv h
  · cases h
    exact .refl hv

end share

/-! ## 5. Release -/

section release

variable {s s' : State} {base : Nat} {id : BlockId} {r : SysResult}

def State.park (s : State) (id : BlockId) (b : Ublock) : State :=
  { s with heap := s.heap.erase id, releasing := s.releasing.set id b }

theorem abs_park (s : State) (id : BlockId) {b b' : Ublock} (hb' : vacant b' = vacant b) :
    abs (s.park id b') =
      (abs s).setBlock id (some (vacant b)) := by
  rw [State.park, View.setBlock, abs, abs]
  exact congrArg (fun m => View.mk _ _ m) (by grind [update_apply])

theorem Valid.park {p : Nat} {pr : Process} {b : Ublock} (b' : Ublock) (hv : Valid s)
    (hb' : Placed b')
    (hp : s.g_procs.get p = some pr) (hb : s.heap.get id = some b) (hbase : b.base = base)
    (howner : b.owner = p) (hempty : ∀ q, b.sharers.get q = none) :
    Valid ((s.park id b').setProc p { pr with blocks := pr.blocks.erase base }) := by
  have hsub : Valid (s.setProc p { pr with blocks := pr.blocks.erase base }) :=
    hv.setProc_of_sub hp rfl (fun _ _ h => (OrdMap.get_erase_eq_some_iff.mp h).2) (fun _ _ h => h)
  refine ⟨hv.kernel, hsub.tree, ?_, ?_, ?_, ?_, ?_⟩
  · -- the entry of the parked block is the one that was erased
    intro q qr base' id' hq hid'
    have hown := hsub.owned q qr base' id' hq hid'
    grind [OwnsAt, State.setProc, State.park]
  · intro q qr base' e hq he
    have hview := hsub.viewed q qr base' e hq he
    grind [ViewsAt, State.setProc, State.park]
  · grind [State.setProc, State.park, hv.placed]
  · grind [State.setProc, State.park, hv.parked]
  · grind [State.setProc, State.park, hv.apart]

theorem freeLocked_refines {p : Nat} {destroyable : Bool} (hv : Valid s)
    (h : freeLocked s p base destroyable = some (s', r)) : Refines Q N s s' := by
  unfold freeLocked at h
  obtain ⟨pr, hp, h⟩ := Option.bind_eq_some_iff.mp h
  split at h
  · cases h
    exact .refl hv
  case h_2 id hid =>
    obtain ⟨b, hb, h⟩ := Option.bind_eq_some_iff.mp h
    split at h
    · cases h
      exact .refl hv
    case isFalse hgate =>
      simp only [Option.bind_eq_bind, Option.bind_eq_some_iff, Prod.exists] at h
      obtain ⟨removed, g_ublocks, -, h⟩ := h
      split at h
      case isFalse => cases h
      simp only [Option.bind_eq_some_iff] at h
      obtain ⟨s₁, hs₁, h⟩ := h
      have hempty : ∀ q, b.sharers.get q = none := by
        refine OrdMap.len_eq_zero_iff.mp ?_
        by_contra hne
        exact hgate (Or.inr (Or.inr (Or.inl hne)))
      obtain ⟨b', hb', hbase, howner⟩ := hv.owned p pr base id hp hid
      cases hb.symm.trans hb'
      -- the same change of the tree, after the record has moved to `releasing`
      have hpark := hv.park { b with ring := false }
        ((hv.placed id b hb).congr rfl rfl) hp hb hbase howner hempty
      obtain ⟨hs₂, hs₁'⟩ := withAs_registry ((s.park id { b with ring := false }).setProc p
        { pr with blocks := pr.blocks.erase base }) hs₁ rfl
      obtain ⟨hv₂, habs₂, -⟩ := withAs_spec
        (paint (holding b).pages (holding b).restore) hs₂ hpark (by
          intro as as' has hroot
          obtain ⟨as₁, has₁, rfl⟩ := Option.map_eq_some_iff.mp has
          obtain ⟨hroot₁, -, hpages⟩ := asFlag_paint has₁ hroot (hv.low hb)
          exact ⟨hroot₁, hpages⟩)
      have hread : abs s' = ((abs s).setBlock id (some (vacant b))).paint p (holding b).pages
          (holding b).restore := by
        rw [hs₁'] at h
        cases h
        refine habs₂.trans ?_
        rw [abs_setProc_of_as (s := s.park id { b with ring := false })
          { pr with blocks := pr.blocks.erase base } hp rfl, abs_park s id (show vacant { b with ring := false } = vacant b from rfl), howner]
        rfl
      rw [hs₁'] at h
      cases h
      refine .of_move (hv₂.setUblocks g_ublocks) ?_
      rw [hread]
      refine .evict _ id (holding b) p ∅ (abs_block hb) ?_
      rintro q (rfl | hq)
      · exact Or.inl howner
      · rw [hempty] at hq
        cases hq

theorem umemFree_refines {caller : Nat} {destroyable : Bool} (hv : Valid s)
    (h : umemFree s caller base destroyable = some (s', r)) : Refines Q N s s' := by
  unfold umemFree at h
  split at h
  · cases h
    exact .refl hv
  obtain ⟨b, hb, h⟩ := Option.bind_eq_some_iff.mp h
  split at h
  · cases h
    exact .refl hv
  · exact freeLocked_refines hv h

theorem Valid.finish (hv : Valid s) (id : BlockId) :
    Valid { s with releasing := s.releasing.erase id } :=
  ⟨hv.kernel, hv.tree, hv.owned, hv.viewed, hv.placed,
    fun id' b hb => hv.parked id' b (OrdMap.get_erase_eq_some_iff.mp hb).2,
    fun id' b hb => hv.apart id' b (OrdMap.get_erase_eq_some_iff.mp hb).2⟩

theorem abs_finish (hheap : s.heap.get id = none) :
    abs { s with releasing := s.releasing.erase id } = (abs s).setBlock id none := by
  rw [View.setBlock, abs, abs]
  exact congrArg (fun m => View.mk _ _ m) (by grind [update_apply])

theorem flushUnpin_spec {p : Nat} (hv : Valid s) (h : s.withAs p flushUnpin = some s') :
    Valid s' ∧ abs s' = abs s := by
  obtain ⟨pr, as, as', hp, has, hflush, rfl⟩ := withAs_eq_some h
  have hroot : as'.root = as.root := by
    unfold flushUnpin at hflush
    split at hflush
    · cases hflush
    · cases hflush
      rfl
  constructor
  · refine hv.setProc ?_ (fun base id => hv.owned p pr base id hp)
      (fun base e => hv.viewed p pr base e hp)
    rintro _ ⟨⟩
    rw [hroot]
    exact hv.tree p pr as hp has
  · rw [abs_setProc, View.setMap, mapOf, Option.map_some, hroot, ← abs_map hp has,
      update_eq_self]

theorem umemReleaseFinish_refines {node : BlockId} (hv : Valid s)
    (h : umemReleaseFinish s node = some s') : Refines Q N s s' := by
  unfold umemReleaseFinish at h
  simp only [Option.bind_eq_bind, Option.bind_eq_some_iff] at h
  obtain ⟨b, hb, s₁, hs₁, h⟩ := h
  cases h
  obtain ⟨hv₁, habs₁⟩ := flushUnpin_spec hv hs₁
  obtain ⟨-, hrest⟩ := withAs_registry s hs₁ rfl
  have hrel : s₁.releasing.get node = some b := by
    rw [hrest]
    exact hb
  have hheap := hv₁.apart node b hrel
  refine .of_move (hv₁.finish node) ?_
  rw [abs_finish hheap, ← habs₁]
  refine .drop _ node (vacant b) ?_ rfl
  change ((s₁.heap.get node).map holding).or _ = _
  rw [hheap, hrel]
  rfl

end release

/-! ## 6. Ownership transfer -/

section transfer

variable {s s' : State} {id : BlockId} {src dst : Nat} {r : SysResult}

theorem dropOldView_spec {b b' : Ublock} (hv : Valid s)
    (h : dropOldView s b dst = some (s', b')) :
    Valid s' ∧ abs s' = abs s ∧ s'.heap = s.heap ∧
      (b' = b ∨ b' = { b with sharers := b.sharers.erase dst }) ∧
      (∀ q qr, s'.g_procs.get q = some qr →
        ∃ qr₀, s.g_procs.get q = some qr₀ ∧ qr.blocks = qr₀.blocks) ∧
      ∀ tr, s'.g_procs.get dst = some tr → tr.views.get b.base = none := by
  unfold dropOldView at h
  obtain ⟨tr, htr, h⟩ := Option.bind_eq_some_iff.mp h
  split at h
  case h_1 hnone =>
    cases h
    refine ⟨hv, rfl, rfl, Or.inl rfl, fun q qr hq => ⟨qr, hq, rfl⟩, fun tr' htr' => ?_⟩
    cases htr.symm.trans htr'
    exact OrdMap.remove_eq_none_iff.mp hnone
  case h_2 old_view views hviews =>
    simp only [Option.bind_eq_bind, Option.bind_eq_some_iff, Prod.exists] at h
    obtain ⟨ob, -, notified, -, s₁, hs₁, removed, sharers, hsharers, h⟩ := h
    cases h
    obtain ⟨-, rfl⟩ := OrdMap.remove_eq_some_iff.mp hviews
    obtain ⟨-, rfl⟩ := OrdMap.remove_eq_some_iff.mp hsharers
    have hv₀ : Valid (s.setProc dst { tr with views := tr.views.erase b.base }) :=
      hv.setProc_of_sub htr rfl (fun _ _ h => h)
        fun _ _ h => (OrdMap.get_erase_eq_some_iff.mp h).2
    have hpend := pendingUnlink_pendingOnly hs₁
    obtain ⟨hv₁, habs₁, hheap₁⟩ := hpend.spec hv₀
    refine ⟨hv₁, habs₁.trans (abs_setProc_of_as _ htr rfl), hheap₁, Or.inr rfl, ?_, ?_⟩
    · grind [PendingOnly.entries, State.setProc]
    · grind [PendingOnly.entries, State.setProc]

theorem Valid.transfer {s₁ : State} {b b₁ : Ublock} {fr : Process} (hv : Valid s)
    (hb : s.heap.get id = some b) (hfr : s.g_procs.get src = some fr)
    (howns : fr.blocks.get b.base = some id)
    (hdrop : dropOldView (s.setProc src { fr with blocks := fr.blocks.erase b.base }) b dst =
      some (s₁, b₁)) :
    Valid (s₁.setBlock id { b₁ with owner := dst }) ∧
      abs (s₁.setBlock id { b₁ with owner := dst }) =
        (abs s).setBlock id (some (holding { b₁ with owner := dst })) ∧
      (b₁ = b ∨ b₁ = { b with sharers := b.sharers.erase dst }) := by
  have hv₀ : Valid (s.setProc src { fr with blocks := fr.blocks.erase b.base }) :=
    hv.setProc_of_sub hfr rfl (fun _ _ h => (OrdMap.get_erase_eq_some_iff.mp h).2) (fun _ _ h => h)
  obtain ⟨hv₁, habs₁, hheap₁, hb₁, hblocks, hviews⟩ := dropOldView_spec hv₀ hdrop
  have hheap : s₁.heap.get id = some b := hheap₁ ▸ hb
  have hbase : b₁.base = b.base ∧ b₁.bytes = b.bytes := by
    rcases hb₁ with rfl | rfl
    · exact ⟨rfl, rfl⟩
    · exact ⟨rfl, rfl⟩
  refine ⟨?_, ?_, hb₁⟩
  · refine hv₁.setBlock ?_ (hv₁.releasing_none hheap) ?_ ?_
    · exact (hv.placed id b hb).congr hbase.1 hbase.2
    · -- the old owner's entry was the only one
      intro q qr base' hq hid
      exfalso
      obtain ⟨qr₀, hq₀, hqb⟩ := hblocks q qr hq
      obtain ⟨b', hb', hbase', howner'⟩ := hv₁.owned q qr base' id hq hid
      cases hheap.symm.trans hb'
      obtain ⟨b'', hb'', -, howner⟩ := hv.owned src fr b.base id hfr howns
      cases hb.symm.trans hb''
      rw [howner'] at howner
      subst howner
      cases (OrdMap.get_set_self _ _ _).symm.trans hq₀
      rw [hqb] at hid
      exact (OrdMap.get_erase_eq_some_iff.mp hid).1 hbase'.symm
    · intro q qr base' e hq he heq
      obtain ⟨-, b', hb', hbase', hsharer⟩ := hv₁.viewed q qr base' e hq he
      rw [heq] at hb'
      cases hheap.symm.trans hb'
      refine ⟨hbase.1.trans hbase', ?_⟩
      rcases hb₁ with rfl | rfl
      · exact hsharer
      · change ((b.sharers.erase dst).get q).isSome
        rw [OrdMap.get_erase_of_ne]
        · exact hsharer
        · rintro rfl
          rw [← hbase', hviews qr hq] at he
          cases he
  · rw [abs_setBlock, habs₁,
      abs_setProc_of_as { fr with blocks := fr.blocks.erase b.base } hfr rfl]

theorem umemMoveLocked_refines (hv : Valid s) (h : umemMoveLocked s id src dst = some (s', r)) :
    Refines Q N s s' := by
  unfold umemMoveLocked at h
  obtain ⟨b, hb, h⟩ := Option.bind_eq_some_iff.mp h
  split at h
  · cases h
    exact .refl hv
  split at h
  · cases h
    exact .refl hv
  simp only [Option.bind_eq_bind, Option.bind_eq_some_iff, Prod.exists] at h
  obtain ⟨fr, hfr, moved_id, blocks, hblocks, h⟩ := h
  split at h
  case isFalse => cases h
  case isTrue hmoved =>
    simp only [Option.bind_eq_some_iff, Prod.exists] at h
    obtain ⟨s₁, b₁, hdrop, s₂, hs₂, s₃, hs₃, tr, htr, blocks', hins, h⟩ := h
    cases h
    rw [hmoved] at hblocks
    obtain ⟨howns, rfl⟩ := OrdMap.remove_eq_some_iff.mp hblocks
    obtain ⟨b', hb', -, howner⟩ := hv.owned src fr b.base id hfr howns
    cases hb.symm.trans hb'
    obtain ⟨hv₁, habs₁, hb₁⟩ := hv.transfer hb hfr howns hdrop
    have hnew : (s₁.setBlock id { b₁ with owner := dst }).heap.get id =
        some { b₁ with owner := dst } := OrdMap.get_set_self _ _ _
    have hlow := hv₁.low hnew
    obtain ⟨hv₂, habs₂, fr₂, as₂, -, hset₂⟩ := reflag_spec hs₂ hv₁ hlow
    obtain ⟨hv₃, habs₃, tr₃, as₃, -, hset₃⟩ := reflag_spec hs₃ hv₂ hlow
    have hheap₃ : s₃.heap.get id = some { b₁ with owner := dst } := by
      rw [hset₃, hset₂]
      exact hnew
    have hheap₂ : s₂.heap.get id = some { b₁ with owner := dst } := by
      rw [hset₂]
      exact hnew
    refine ⟨hv₃.own htr hheap₃ hins rfl, ?_⟩
    rw [abs_setProc_of_as { tr with blocks := blocks' } htr rfl, habs₃]
    -- first the old owner, then the new one
    refine .tail (.single (b := abs s₂) ?_)
      (.repaint (abs s₂) id _ dst _ _ (abs_block hheap₂) (Or.inl rfl) subset_rfl)
    rw [habs₂, habs₁]
    have hrest : holding { b₁ with owner := dst } =
        { holding b with holders := (holding { b₁ with owner := dst }).holders } := by
      rcases hb₁ with rfl | rfl
      · rfl
      · rfl
    have hmove := Move.evict (Q := Q) (N := N) (abs s) id (holding b) src
      (holding { b₁ with owner := dst }).holders (abs_block hb) ?_
    · rw [← hrest] at hmove
      rcases hb₁ with rfl | rfl
      · exact hmove
      · exact hmove
    · rintro q (rfl | hq)
      · exact Or.inl howner
      · refine Or.inr ?_
        rcases hb₁ with rfl | rfl
        · exact Or.inr hq
        · by_cases hqd : q = dst
          · exact Or.inl hqd
          · exact Or.inr (by rw [OrdMap.get_erase_of_ne _ hqd]; exact hq)

end transfer

/-! ## 7. Processes -/

section processes

variable {s s' : State} {pid : Nat}

theorem refines_links {p : Nat} {pr : Process} (pr' : Process) (hv : Valid s) (hp : s.g_procs.get p = some pr)
    (has : pr'.as = pr.as) (hblocks : pr'.blocks = pr.blocks) (hviews : pr'.views = pr.views) :
    Refines Q N s (s.setProc p pr') :=
  .of_abs_eq (hv.setProc_of_sub hp has (fun _ _ h => hblocks ▸ h) (fun _ _ h => hviews ▸ h))
    (abs_setProc_of_as pr' hp has)

theorem Valid.setNextPid (hv : Valid s) (n : Nat) : Valid { s with g_next_pid := n } :=
  ⟨hv.kernel, hv.tree, hv.owned, hv.viewed, hv.placed, hv.parked, hv.apart⟩

theorem processCreate_refines {parent : Option Nat} (hv : Valid s)
    (h : processCreate s parent = some (s', pid)) : Refines Q N s s' := by
  unfold processCreate at h
  obtain ⟨g_procs, hins, h⟩ := Option.bind_eq_some_iff.mp h
  obtain ⟨-, rfl⟩ := OrdMap.insert_eq_some_iff.mp hins
  have hroot : (asClone s.g_as_kernel).root = s.g_as_kernel.root := asClone_root hv.kernel
  have hjoin : Refines Q N s { s.setProc s.g_next_pid
      { parent := parent, dead := false, as := some (asClone s.g_as_kernel), children := .empty,
        nthreads := 0, blocks := .empty, views := .empty, unnotified := [] }
      with g_next_pid := s.g_next_pid + 1 } := by
    refine .of_move (Valid.setNextPid ?_ _) ?_
    · refine hv.setProc ?_ ?_ ?_
      · rintro _ ⟨⟩
        rw [hroot]
        exact hv.kernel
      · intro base id hid
        cases (OrdMap.get_empty base).symm.trans hid
      · intro base e he
        cases (OrdMap.get_empty base).symm.trans he
    · have hmove := Move.join (Q := Q) (N := N) (abs s) s.g_next_pid
      change Move Q N (abs s) (abs (s.setProc s.g_next_pid _))
      rw [abs_setProc, mapOf, Option.map_some, hroot]
      exact hmove
  cases parent with
  | none =>
    cases h
    exact hjoin
  | some q =>
    simp only [Option.bind_eq_bind, Option.bind_eq_some_iff] at h
    obtain ⟨qr, hq, children, -, h⟩ := h
    cases h
    have hlink := refines_links (Q := Q) (N := N) { qr with children := children } hjoin.1 hq rfl
      rfl rfl
    exact ⟨hlink.1, hjoin.2.trans hlink.2⟩

theorem Valid.removeProc (hv : Valid s) (pid : Nat) :
    Valid { s with g_procs := s.g_procs.erase pid } :=
  ⟨hv.kernel,
    fun q qr as hq => hv.tree q qr as (OrdMap.get_erase_eq_some_iff.mp hq).2,
    fun q qr base id hq => hv.owned q qr base id (OrdMap.get_erase_eq_some_iff.mp hq).2,
    fun q qr base e hq => hv.viewed q qr base e (OrdMap.get_erase_eq_some_iff.mp hq).2,
    hv.placed, hv.parked, hv.apart⟩

theorem abs_removeProc (hnone : (abs s).map pid = none) :
    abs { s with g_procs := s.g_procs.erase pid } = abs s := by
  have hmap : (fun q => ((s.g_procs.erase pid).get q).bind mapOf) =
      fun q => (s.g_procs.get q).bind mapOf := by
    funext q
    by_cases hq : q = pid
    · subst hq
      rw [OrdMap.get_erase, if_pos rfl]
      exact hnone.symm
    · rw [OrdMap.get_erase_of_ne _ hq]
  rw [abs, abs]
  exact congrArg (fun m => View.mk _ m _) hmap

theorem procSysDestroy_refines {caller : Nat} {running : Bool} {r : SysResult} (hv : Valid s)
    (h : procSysDestroy s caller pid running = some (s', r)) : Refines Q N s s' := by
  unfold procSysDestroy at h
  split at h
  · cases h
    exact .refl hv
  case h_2 target htarget =>
    split at h
    · cases h
      exact .refl hv
    split at h
    · cases h
      exact .refl hv
    split at h
    · split at h
      · cases h
        exact .refl hv
      · cases h
        refine .of_move ?_ ?_
        · exact hv.setProc (fun _ h => by cases h) (fun base id => hv.owned pid target base id htarget)
            (fun base e => hv.viewed pid target base e htarget)
        · rw [abs_setProc]
          exact .leave _ _
    case h_2 has =>
      simp only [Option.bind_eq_bind, Option.bind_eq_some_iff, Prod.exists] at h
      obtain ⟨parent, -, qr, hq, -, children, -, h⟩ := h
      cases h
      have hlink := refines_links (Q := Q) (N := N) { qr with children := children } hv hq rfl
        rfl rfl
      have hnone : (abs (s.setProc parent { qr with children := children })).map pid = none := by
        rw [abs_setProc_of_as { qr with children := children } hq rfl]
        change (s.g_procs.get pid).bind mapOf = none
        rw [show s.g_procs.get pid = some target from htarget, Option.bind_some, mapOf, has]
        rfl
      refine ⟨hlink.1.removeProc pid, ?_⟩
      rw [abs_removeProc hnone]
      exact hlink.2

end processes

end GovinDos.Umem
