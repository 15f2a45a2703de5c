/-
  **The memory system from boot: its operations, its runs, and the refinement.**

  An operation is one call with the answers of the allocators it gets; `Legal` is what the
  allocators guarantee.  Besides the calls there are the events that the calls read about: a
  process is marked dead, a thread comes or goes, an attachment of a block changes.
-/
import GovinDos.Lib.Run
import GovinDos.UmemMoves

namespace GovinDos.Umem

open Paging PlatformMem Custody

/-! ## 1. Operations -/

inductive Op where
  | create (parent : Option Nat)
  | alloc (p len : Nat) (prot : PagingFlags) (o : AllocOutcome)
  | mapDevice (p base len : Nat) (flags : BitVec 32) (node : Option BlockId)
  | protect (p base len : Nat) (prot : PagingFlags)
  | share (p base target : Nat) (prot : PagingFlags) (nodes posted : Bool)
  | dropshare (caller base pid : Nat)
  | unshare (caller base pid : Nat)
  | move (id : BlockId) (src dst : Nat)
  | free (caller base : Nat) (destroyable : Bool)
  | releaseFinish (node : BlockId)
  | destroy (caller pid : Nat) (running : Bool)
  | image (p : Nat) (id : BlockId) (lo hi : Nat) (flags : PagingFlags)
  | kill (p : Nat)
  | threads (p nthreads : Nat)
  | attach (id : BlockId) (ring dma_maps : Bool) (thread_pins : Nat)

def markDead (s : State) (p : Nat) : Option State := do
  let pr ← s.g_procs.get p
  some (s.setProc p { pr with dead := true })

def setThreads (s : State) (p nthreads : Nat) : Option State := do
  let pr ← s.g_procs.get p
  some (s.setProc p { pr with nthreads := nthreads })

def setAttachments (s : State) (id : BlockId) (ring dma_maps : Bool) (thread_pins : Nat) :
    Option State := do
  let b ← s.heap.get id
  some (s.setBlock id { b with ring := ring, dma_maps := dma_maps, thread_pins := thread_pins })

def step (pl : Platform) (s : State) : Op → Option State
  | .create parent => (processCreate s parent).map (·.1)
  | .alloc p len prot o => (umemAlloc s p len prot o).map (·.1)
  | .mapDevice p base len flags node => (umemMapDeviceLocked pl s p base len flags node).map (·.1)
  | .protect p base len prot => (umemProtect s p base len prot).map (·.1)
  | .share p base target prot nodes posted =>
    (umemShare s p base target prot nodes posted).map (·.1)
  | .dropshare caller base pid => (umemDropshare s caller base pid).map (·.1)
  | .unshare caller base pid => (umemUnshare s caller base pid).map (·.1)
  | .move id src dst => (umemMoveLocked s id src dst).map (·.1)
  | .free caller base destroyable => (umemFree s caller base destroyable).map (·.1)
  | .releaseFinish node => umemReleaseFinish s node
  | .destroy caller pid running => (procSysDestroy s caller pid running).map (·.1)
  | .image p _ lo hi flags => s.reflag p lo hi flags
  | .kill p => markDead s p
  | .threads p nthreads => setThreads s p nthreads
  | .attach id ring dma_maps thread_pins => setAttachments s id ring dma_maps thread_pins

def FreshNode (s : State) (id : BlockId) : Prop :=
  s.heap.get id = none ∧ s.releasing.get id = none

/-- Pages the buddy allocator may return: a block aligned to its size, apart from
    every block that is held or on its way back, and from what boot keeps. -/
structure FreshPages (s : State) (held : Set Nat) (page_id order : Nat) : Prop where
  aligned : page_id % 2 ^ order = 0
  small : page_id * PAGE_SIZE < 2 ^ 64
  apart : ∀ id b, s.heap.get id = some b ∨ s.releasing.get id = some b →
    Disjoint (pageRange (page_id * PAGE_SIZE) (page_id * PAGE_SIZE + PAGE_SIZE * 2 ^ order))
      (pageRange b.base (b.base + b.bytes))
  kept : Disjoint (pageRange (page_id * PAGE_SIZE) (page_id * PAGE_SIZE + PAGE_SIZE * 2 ^ order))
    held

def Legal (held : Set Nat) (s : State) : Op → Prop
  | .alloc _ len _ (.got page_id node) => FreshNode s node ∧ FreshPages s held page_id (blockOrder len)
  | .mapDevice _ _ _ _ (some node) => FreshNode s node
  | .image p id lo hi _ => ∃ b, s.heap.get id = some b ∧ b.owner = p ∧ b.base ≤ lo ∧
      hi ≤ b.base + b.bytes
  | _ => True

/-! ## 2. Boot -/

/-- A page of the kernel's tree that boot changes: the guard page of a stack, or
    a page of device registers. -/
structure BootPage where
  base : Nat
  flags : PagingFlags

def MMIO_FLAGS : PagingFlags := PAGE_R ||| PAGE_W ||| PAGE_UC

structure BootPage.Ok (g : BootPage) : Prop where
  aligned : g.base % PAGE_SIZE = 0
  low : g.base + PAGE_SIZE ≤ 2 ^ 48
  flags : g.flags = 0 ∨ g.flags = MMIO_FLAGS

def bootKernel (pages : List BootPage) : Option AddressSpace :=
  pages.foldlM (fun as g => asFlag as g.base (g.base + PAGE_SIZE) g.flags) asIdentityMapping

structure Boot where
  pages : List BootPage
  ok : ∀ g ∈ pages, g.Ok
  kernel : AddressSpace
  booted : bootKernel pages = some kernel

def Boot.held (bt : Boot) : Set Nat := { x | ∃ g ∈ bt.pages, x = g.base / PAGE_SIZE }

def Boot.state (bt : Boot) : State where
  g_as_kernel := bt.kernel
  g_procs := .empty
  heap := .empty
  g_ublocks := .empty
  releasing := .empty
  g_next_pid := 1

def pristineMap (x : Nat) : Option Pte := if x < 512 ^ 3 then some PRISTINE_BITS else none

theorem pagesOf_asIdentityMapping : pagesOf asIdentityMapping.root = pristineMap := by
  funext x
  unfold pagesOf pristineMap
  by_cases hx : x < 512 ^ 4
  · rw [if_pos hx, pageBits_asIdentityMapping hx]
  · rw [if_neg hx, if_neg (by omega)]

theorem bootKernel_pages {Q : Nat → Option Pte → Prop} (pages : List BootPage)
    {as₀ as : AddressSpace} (hok : ∀ g ∈ pages, g.Ok) (hroot : RootOk as₀.root)
    (hQ₀ : ∀ x, Q x (pagesOf as₀.root x))
    (hQ : ∀ g ∈ pages, Q (g.base / PAGE_SIZE) (hardwareBits g.flags))
    (h : pages.foldlM (fun as g => asFlag as g.base (g.base + PAGE_SIZE) g.flags) as₀ = some as) :
    RootOk as.root ∧ ∀ x, Q x (pagesOf as.root x) := by
  induction pages generalizing as₀ with
  | nil =>
    cases h
    exact ⟨hroot, hQ₀⟩
  | cons g rest ih =>
    rw [List.foldlM_cons, Option.bind_eq_bind, Option.bind_eq_some_iff] at h
    obtain ⟨as₁, has₁, h⟩ := h
    have hg := hok g List.mem_cons_self
    obtain ⟨hroot₁, -, hpages⟩ := asFlag_paint has₁ hroot hg.low
    refine ih (fun g' hg' => hok g' (List.mem_cons_of_mem g hg')) hroot₁ (fun x => ?_)
      (fun g' hg' => hQ g' (List.mem_cons_of_mem g hg')) h
    rw [hpages]
    by_cases hx : x ∈ pageRange g.base (g.base + PAGE_SIZE)
    · -- the range is that one page
      have hpage : x = g.base / PAGE_SIZE := by
        obtain ⟨hlo, hhi⟩ := mem_pageRange.mp hx
        rw [show PAGE_SIZE = 4096 from rfl] at *
        omega
      rw [paint_mem hx, hpage]
      exact hQ g List.mem_cons_self
    · rw [paint_not_mem hx]
      exact hQ₀ x

section boot

variable (bt : Boot)

theorem Boot.kernel_pages {Q : Nat → Option Pte → Prop} (hQ₀ : ∀ x, Q x (pristineMap x))
    (hQ : ∀ g ∈ bt.pages, Q (g.base / PAGE_SIZE) (hardwareBits g.flags)) :
    RootOk bt.kernel.root ∧ ∀ x, Q x (pagesOf bt.kernel.root x) :=
  bootKernel_pages bt.pages bt.ok rootOk_asIdentityMapping
    (fun x => by rw [pagesOf_asIdentityMapping]; exact hQ₀ x) hQ bt.booted

theorem Boot.valid : Valid bt.state where
  kernel := (bt.kernel_pages (Q := fun _ _ => True) (fun _ => trivial) fun _ _ => trivial).1
  tree := fun p _ _ hp => by cases (OrdMap.get_empty p).symm.trans hp
  owned := fun p _ _ _ hp => by cases (OrdMap.get_empty p).symm.trans hp
  viewed := fun p _ _ _ hp => by cases (OrdMap.get_empty p).symm.trans hp
  placed := fun id _ hb => by cases (OrdMap.get_empty id).symm.trans hb
  parked := fun id _ hb => by cases (OrdMap.get_empty id).symm.trans hb
  apart := fun id _ hb => by cases (OrdMap.get_empty id).symm.trans hb

theorem Boot.no_map (p : Nat) : (abs bt.state).map p = none := by
  change ((OrdMap.empty : OrdMap Nat Process).get p).bind mapOf = none
  rw [OrdMap.get_empty]
  rfl

theorem Boot.no_block (id : BlockId) : (abs bt.state).block id = none :=
  abs_block_eq_none (OrdMap.get_empty id) (OrdMap.get_empty id)

theorem Boot.tidy {Q : Nat → Option Pte → Prop} (hQ₀ : ∀ x, Q x (pristineMap x))
    (hQ : ∀ g ∈ bt.pages, Q (g.base / PAGE_SIZE) (hardwareBits g.flags)) :
    Tidy Q (abs bt.state) where
  master := (bt.kernel_pages hQ₀ hQ).2
  outside := fun p t ht => by
    rw [bt.no_map p] at ht
    cases ht
  restore := fun id h hid => by
    rw [bt.no_block id] at hid
    cases hid

end boot

/-! ## 3. The refinement -/

def Admissible (Q : Nat → Option Pte → Prop) (N : MemView → Set Nat → Prop) (pl : Platform)
    (s : State) : Op → Prop
  | .alloc p len _ (.got page_id _) => ∀ as, (s.g_procs.get p).bind (·.as) = some as →
      let b := ramBlock p (allocBase page_id) (blockOrder len)
      memsetOk as b.base b.bytes →
        (∀ x ∈ pageRange b.base (b.base + b.bytes), Q x (hardwareBits PAGE_KERNEL_PRISTINE)) ∧
        N (abs s) (pageRange b.base (b.base + b.bytes))
  | .mapDevice _ base len flags _ => base + len ≤ 2 ^ 48 ∧
      (∀ kernel_flags delegatable,
        platformMemValidateDevice pl base len flags = some (kernel_flags, delegatable) →
        ∀ x, Q x (hardwareBits kernel_flags)) ∧ ∀ v R, N v R
  | _ => True

/-- **Every step of the system is a sequence of custody moves.** -/
theorem step_refines {Q : Nat → Option Pte → Prop} {N : MemView → Set Nat → Prop} {pl : Platform}
    {held : Set Nat} {s s' : State} {op : Op} (hv : Valid s) (hlegal : Legal held s op)
    (hadm : Admissible Q N pl s op) (h : step pl s op = some s') : Refines Q N s s' := by
  cases op with
  | create parent =>
    obtain ⟨⟨s₁, pid⟩, h₁, rfl⟩ := Option.map_eq_some_iff.mp h
    exact processCreate_refines hv h₁
  | alloc p len prot o =>
    obtain ⟨⟨s₁, r⟩, h₁, rfl⟩ := Option.map_eq_some_iff.mp h
    refine umemAlloc_refines hv h₁ ?_ ?_
    · rintro page_id node rfl
      exact hlegal.1
    · rintro page_id node as rfl has
      exact hadm as has
  | mapDevice p base len flags node =>
    obtain ⟨⟨s₁, r⟩, h₁, rfl⟩ := Option.map_eq_some_iff.mp h
    obtain ⟨hmax, hQ, hN⟩ := hadm
    refine umemMapDeviceLocked_refines hv h₁ hmax ?_ hQ hN
    rintro id rfl
    exact hlegal
  | protect p base len prot =>
    obtain ⟨⟨s₁, r⟩, h₁, rfl⟩ := Option.map_eq_some_iff.mp h
    exact umemProtect_refines hv h₁
  | share p base target prot nodes posted =>
    obtain ⟨⟨s₁, r⟩, h₁, rfl⟩ := Option.map_eq_some_iff.mp h
    exact umemShare_refines hv h₁
  | dropshare caller base pid =>
    obtain ⟨⟨s₁, r⟩, h₁, rfl⟩ := Option.map_eq_some_iff.mp h
    exact umemDropshare_refines hv h₁
  | unshare caller base pid =>
    obtain ⟨⟨s₁, r⟩, h₁, rfl⟩ := Option.map_eq_some_iff.mp h
    exact umemUnshare_refines hv h₁
  | move id src dst =>
    obtain ⟨⟨s₁, r⟩, h₁, rfl⟩ := Option.map_eq_some_iff.mp h
    exact umemMoveLocked_refines hv h₁
  | free caller base destroyable =>
    obtain ⟨⟨s₁, r⟩, h₁, rfl⟩ := Option.map_eq_some_iff.mp h
    exact umemFree_refines hv h₁
  | releaseFinish node => exact umemReleaseFinish_refines hv h
  | destroy caller pid running =>
    obtain ⟨⟨s₁, r⟩, h₁, rfl⟩ := Option.map_eq_some_iff.mp h
    exact procSysDestroy_refines hv h₁
  | image p id lo hi flags =>
    obtain ⟨b, hb, howner, hlo, hhi⟩ := hlegal
    exact refines_repaint hv hb (Or.inl howner.symm) hlo hhi h
  | kill p | threads p nthreads =>
    obtain ⟨pr, hp, h⟩ := Option.bind_eq_some_iff.mp h
    cases h
    exact refines_links _ hv hp rfl rfl rfl
  | attach id ring dma_maps thread_pins =>
    obtain ⟨b, hb, h⟩ := Option.bind_eq_some_iff.mp h
    cases h
    obtain ⟨hv', habs⟩ := setBlock_same
      { b with ring := ring, dma_maps := dma_maps, thread_pins := thread_pins } hv hb rfl rfl rfl
      rfl fun _ => rfl
    exact .of_abs_eq hv' habs

/-! ## 4. A first run -/

def bareBoot : Boot where
  pages := []
  ok := fun _ h => by cases h
  kernel := asIdentityMapping
  booted := rfl

def loneProcess (as : AddressSpace) (blocks : OrdMap Nat BlockId) : Process :=
  { parent := none, dead := false, as := some as, children := .empty, nthreads := 0,
    blocks := blocks, views := .empty, unnotified := [] }

def initState : State :=
  { bareBoot.state with
    g_procs := OrdMap.empty.set 1 (loneProcess (asClone asIdentityMapping) .empty)
    g_next_pid := 2 }

theorem step_create_init (pl : Platform) :
    step pl bareBoot.state (.create none) = some initState := by
  rw [step, processCreate, Boot.state, OrdMap.insert_of_get_none (OrdMap.get_empty _)]
  rfl

def initAlloc : Op := .alloc 1 PAGE_SIZE (PAGE_R ||| PAGE_W) (.got 1 0)

theorem legal_initAlloc : Legal bareBoot.held initState initAlloc := by
  refine ⟨⟨OrdMap.get_empty 0, OrdMap.get_empty 0⟩, by decide, by decide, ?_, ?_⟩
  · rintro id b (hb | hb)
    · cases (OrdMap.get_empty id).symm.trans hb
    · cases (OrdMap.get_empty id).symm.trans hb
  · rw [Set.disjoint_right]
    rintro x ⟨g, hg, -⟩
    cases hg

theorem exists_run_init {ok : State → Op → Prop} {P : State → Prop} [DecidablePred P] {ops : List Op}
    (hcreate : ok bareBoot.state (.create none)) (halloc : ok initState initAlloc)
    (hok : ∀ op ∈ ops, ∀ s, ok s op)
    (h : ((initAlloc :: ops).foldlM (step ⟨[], [], []⟩) initState).map (fun s => decide (P s)) =
      some true) :
    ∃ s, Run (step ⟨[], [], []⟩) ok bareBoot.state (.create none :: initAlloc :: ops) s ∧ P s := by
  obtain ⟨s, hs, hP⟩ := Option.map_eq_some_iff.mp h
  rw [List.foldlM_cons] at hs
  obtain ⟨s₁, hs₁, hrest⟩ := Option.bind_eq_some_iff.mp hs
  exact ⟨s, .cons hcreate (step_create_init _) (.cons halloc hs₁ (.of_foldlM hok hrest)),
    of_decide_eq_true hP⟩

end GovinDos.Umem
