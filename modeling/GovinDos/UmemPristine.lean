/-
  **Pristine on release.**

  When `umem_release_finish` gives the pages of a block back, every tree maps them as boot
  did: identity, kernel-only, read-write-execute.  This is tidiness for "as at boot": between
  the two phases of a release nobody holds the block.  The runs are those of RAM blocks;
  device ranges set an alias of their own in every tree.
-/
import GovinDos.UmemSystem

namespace GovinDos.Umem

open Paging PlatformMem Custody

variable {s s' : State}

/-! ## 1. As at boot -/

def AsAtBoot (held : Set Nat) (x : Nat) (o : Option Pte) : Prop := x ∉ held → o = pristineMap x

/-- The pages no block may have: those boot keeps, and those the identity
    mapping does not reach. -/
def offLimits (held : Set Nat) : Set Nat := held ∪ { x | 512 ^ 3 ≤ x }

def NoDevice : Op → Prop
  | .mapDevice .. => False
  | _ => True

structure PristineInv (held : Set Nat) (s : State) : Prop where
  valid : Valid s
  tidy : Tidy (AsAtBoot held) (abs s)
  spread : Spread (offLimits held) (abs s)

theorem Boot.pristineInv (bt : Boot) : PristineInv bt.held bt.state where
  valid := bt.valid
  tidy := bt.tidy (fun _ _ => rfl) fun g hg hout => absurd ⟨g, hg, rfl⟩ hout
  spread := by
    constructor
    · intro id id' h h' _ hid
      rw [bt.no_block id] at hid
      cases hid
    · intro id h hid
      rw [bt.no_block id] at hid
      cases hid

theorem abs_block_cases {id : BlockId} {h : Holding Nat (Option Pte) Nat}
    (hid : (abs s).block id = some h) :
    ∃ b, (s.heap.get id = some b ∨ s.releasing.get id = some b) ∧
      h.pages = pageRange b.base (b.base + b.bytes) := by
  change ((s.heap.get id).map holding).or ((s.releasing.get id).map vacant) = _ at hid
  cases hheap : s.heap.get id with
  | none =>
    rw [hheap] at hid
    obtain ⟨b, hb, rfl⟩ := Option.map_eq_some_iff.mp hid
    exact ⟨b, Or.inr hb, rfl⟩
  | some b =>
    rw [hheap] at hid
    cases hid
    exact ⟨b, Or.inl rfl, rfl⟩

/-! ## 2. Steps -/

theorem admissible_pristine {held : Set Nat} {pl : Platform} {op : Op}
    (hinv : PristineInv held s) (hlegal : Legal held s op) (hop : NoDevice op) :
    Admissible (AsAtBoot held) (Unheld (offLimits held)) pl s op := by
  unfold Admissible
  split
  case h_1 p len prot page_id node =>
    intro as has b hset
    obtain ⟨-, hpages⟩ := hlegal
    have hbase : allocBase page_id = page_id * PAGE_SIZE := Nat.mod_eq_of_lt hpages.small
    have hrange : pageRange b.base (b.base + b.bytes) = pageRange (page_id * PAGE_SIZE)
        (page_id * PAGE_SIZE + PAGE_SIZE * 2 ^ blockOrder len) := by
      change pageRange (allocBase page_id) (allocBase page_id + _) = _
      rw [hbase]
      rfl
    have hapart : ∀ id h, (abs s).block id = some h →
        Disjoint (pageRange b.base (b.base + b.bytes)) h.pages := by
      intro id h hid
      obtain ⟨b', hb', hh⟩ := abs_block_cases hid
      rw [hrange, hh]
      exact hpages.apart id b' hb'
    have hkept : Disjoint (pageRange b.base (b.base + b.bytes)) held := hrange ▸ hpages.kept
    have hlow : ∀ x ∈ pageRange b.base (b.base + b.bytes), x < 512 ^ 3 := by
      intro x hx
      obtain ⟨haddr, hpresent⟩ := memsetOk_page hset (allocBase_aligned page_id) hx
      obtain ⟨pr, hp, has'⟩ := Option.bind_eq_some_iff.mp has
      have hout : ¬ (abs s).Holds p x := by
        rintro ⟨id, h, hid, -, hx'⟩
        exact Set.disjoint_left.mp (hapart id h hid) hx hx'
      have hboot := hinv.tidy.outside p _ (abs_map hp has') x hout (Set.disjoint_left.mp hkept hx)
      have hx4 : x * PAGE_SIZE / PAGE_SIZE = x := Nat.mul_div_cancel x (by decide)
      rw [translate_eq_pageBits (hinv.valid.tree p pr as hp has') (by omega), hx4,
        Option.isSome_map] at hpresent
      by_contra hge
      rw [pagesOf, pristineMap, if_neg hge] at hboot
      split at hboot
      · rw [hboot] at hpresent
        cases hpresent
      case isFalse hx' =>
        rw [show PAGE_SIZE = 4096 from rfl] at haddr
        omega
    refine ⟨fun x hx _ => ?_, hapart, ?_⟩
    · rw [pristineMap, if_pos (hlow x hx)]
      decide
    · rw [offLimits, Set.disjoint_union_right]
      refine ⟨hkept, Set.disjoint_left.mpr fun x hx hge => ?_⟩
      exact absurd (hlow x hx) (Nat.not_lt.mpr hge)
  · exact hop.elim
  · trivial

theorem step_pristineInv {held : Set Nat} {pl : Platform} {op : Op}
    (hinv : PristineInv held s) (hlegal : Legal held s op) (hop : NoDevice op)
    (h : step pl s op = some s') : PristineInv held s' := by
  have href := step_refines hinv.valid hlegal (admissible_pristine hinv hlegal hop) h
  exact ⟨href.1, Moves.tidy href.2 hinv.tidy, Moves.spread href.2 hinv.spread⟩

/-! ## 3. The release -/

def MapsPristine (s : State) (b : Ublock) : Prop :=
  ∀ a, b.base ≤ a → a < b.base + b.bytes →
    translate s.g_as_kernel.root a = some (a, PRISTINE_BITS) ∧
    ∀ p pr as, s.g_procs.get p = some pr → pr.as = some as →
      translate as.root a = some (a, PRISTINE_BITS)

theorem translate_of_pristine {root : Table} {a : Nat} (hroot : RootOk root) (ha : a < 2 ^ 48)
    (hlow : a / PAGE_SIZE < 512 ^ 3)
    (hmap : pagesOf root (a / PAGE_SIZE) = pristineMap (a / PAGE_SIZE)) :
    translate root a = some (a, PRISTINE_BITS) := by
  rw [pagesOf, if_pos (page_lt ha), pristineMap, if_pos hlow] at hmap
  rw [translate_eq_pageBits hroot ha, hmap]
  rfl

theorem PristineInv.releasing {held : Set Nat} {node : BlockId} {b : Ublock}
    (hinv : PristineInv held s) (hnode : s.releasing.get node = some b) : MapsPristine s b := by
  have hblock : (abs s).block node = some (vacant b) := by
    change ((s.heap.get node).map holding).or ((s.releasing.get node).map vacant) = _
    rw [hinv.valid.apart node b hnode, hnode]
    rfl
  obtain ⟨hbase, hbytes, hend⟩ := hinv.valid.parked node b hnode
  intro a hlo hhi
  have ha : a < 2 ^ 48 := by omega
  have hx : a / PAGE_SIZE ∈ (vacant b).pages := by
    refine mem_pageRange.mpr ?_
    rw [show PAGE_SIZE = 4096 from rfl] at *
    omega
  have hoff := Set.disjoint_left.mp (hinv.spread.off node _ hblock) hx
  rw [offLimits, Set.mem_union, not_or] at hoff
  have hlow : a / PAGE_SIZE < 512 ^ 3 := Nat.not_le.mp hoff.2
  constructor
  · exact translate_of_pristine hinv.valid.kernel ha hlow (hinv.tidy.master _ hoff.1)
  · intro p pr as hp has
    exact translate_of_pristine (hinv.valid.tree p pr as hp has) ha hlow
      (hinv.tidy.vacant hinv.spread hblock rfl (abs_map hp has) hx hoff.1)

theorem umemReleaseFinish_trees {node : BlockId}
    (h : umemReleaseFinish s node = some s') : s'.g_as_kernel = s.g_as_kernel ∧
      ∀ p pr' as', s'.g_procs.get p = some pr' → pr'.as = some as' →
        ∃ pr as, s.g_procs.get p = some pr ∧ pr.as = some as ∧ as'.root = as.root := by
  unfold umemReleaseFinish at h
  simp only [Option.bind_eq_bind, Option.bind_eq_some_iff] at h
  obtain ⟨b, -, s₁, hs₁, h⟩ := h
  cases h
  obtain ⟨pr, as, as₁, hp, has, hflush, rfl⟩ := withAs_eq_some hs₁
  refine ⟨rfl, fun q qr as' hq has' => ?_⟩
  change (s.g_procs.set b.owner { pr with as := some as₁ }).get q = some qr at hq
  rw [OrdMap.get_set] at hq
  split at hq
  case isTrue heq =>
    cases hq
    cases has'
    refine ⟨pr, as, heq ▸ hp, has, ?_⟩
    unfold flushUnpin at hflush
    split at hflush
    · cases hflush
    · cases hflush
      rfl
  · exact ⟨qr, as', hq, has', rfl⟩

/-- **Pristine on release.**  When the pages of a block go back to the allocator, the
    kernel's tree and every process's tree map them as boot did, just before and after. -/
theorem run_release_pristine (pl : Platform) (bt : Boot) (ops : List Op) (s s' : State)
    (node : BlockId) (b : Ublock)
    (hrun : Run (step pl) (fun s op => Legal bt.held s op ∧ NoDevice op) bt.state ops s)
    (hnode : s.releasing.get node = some b)
    (hfinish : step pl s (.releaseFinish node) = some s') :
    MapsPristine s b ∧ MapsPristine s' b := by
  have hinv : PristineInv bt.held s :=
    hrun.invariant bt.pristineInv fun s op s' h ⟨hlegal, hop⟩ hstep =>
      step_pristineInv h hlegal hop hstep
  have hpristine := hinv.releasing hnode
  refine ⟨hpristine, fun a hlo hhi => ?_⟩
  obtain ⟨hkernel, htrees⟩ := umemReleaseFinish_trees hfinish
  refine ⟨hkernel ▸ (hpristine a hlo hhi).1, fun p pr' as' hp has => ?_⟩
  obtain ⟨pr, as, hp₀, has₀, hroot⟩ := htrees p pr' as' hp has
  rw [hroot]
  exact (hpristine a hlo hhi).2 p pr as hp₀ has₀

theorem run_release_pristine_init : ∃ s s', s.releasing.get 0 = some (ramBlock 1 PAGE_SIZE 0) ∧
    MapsPristine s (ramBlock 1 PAGE_SIZE 0) ∧ MapsPristine s' (ramBlock 1 PAGE_SIZE 0) := by
  obtain ⟨s, hrun, hnode, hfinish⟩ : ∃ s, Run (step ⟨[], [], []⟩)
      (fun s op => Legal bareBoot.held s op ∧ NoDevice op) bareBoot.state
      [.create none, initAlloc, .free 1 PAGE_SIZE false] s ∧
      s.releasing.get 0 = some (ramBlock 1 PAGE_SIZE 0) ∧
      (step ⟨[], [], []⟩ s (.releaseFinish 0)).isSome = true :=
    exists_run_init ⟨trivial, trivial⟩ ⟨legal_initAlloc, trivial⟩ (by simp [Legal, NoDevice])
      (by decide +kernel)
  obtain ⟨s', hs'⟩ := Option.isSome_iff_exists.mp hfinish
  exact ⟨s, s', hnode, run_release_pristine ⟨[], [], []⟩ bareBoot _ s s' 0 _ hrun hnode hs'⟩

/-! ## 4. The block of a range -/

theorem PristineInv.heldApart {held : Set Nat} (h : PristineInv held s) (pr : Process) :
    HeldApart s pr := by
  intro id id' b b' _ _ hne hb hb'
  have hapart := h.spread.pairwise id id' _ _ hne (abs_block hb) (abs_block hb')
  obtain ⟨hpos, hbase, hbytes, -⟩ := h.valid.placed id b hb
  obtain ⟨hpos', hbase', hbytes', -⟩ := h.valid.placed id' b' hb'
  by_contra hmeet
  -- blocks are made of whole pages: those that meet have a page in common
  have hcommon : max b.base b'.base / PAGE_SIZE ∈ pageRange b.base (b.base + b.bytes) ∧
      max b.base b'.base / PAGE_SIZE ∈ pageRange b'.base (b'.base + b'.bytes) := by
    simp only [mem_pageRange]
    unfold PAGE_SIZE at *
    omega
  exact Set.disjoint_left.mp hapart hcommon.1 hcommon.2

/-- Along every run of RAM blocks, whatever is asked of `umem_view_locked`: no pointer is
    dangling, and the block it finds is the one around the range that the process holds. -/
theorem run_view_exact (pl : Platform) (bt : Boot) (ops : List Op) (s : State) (p : Nat)
    (pr : Process) (hrun : Run (step pl) (fun s op => Legal bt.held s op ∧ NoDevice op) bt.state ops s)
    (hp : s.g_procs.get p = some pr) (addr len : Nat) : ∃ r, umemViewLocked s pr addr len = some r ∧
      ∀ id, r = some id ↔ HeldAround s pr addr len id := by
  have hinv : PristineInv bt.held s :=
    hrun.invariant bt.pristineInv fun s op s' h ⟨hlegal, hop⟩ hstep =>
      step_pristineInv h hlegal hop hstep
  exact (hinv.valid.indexed hp).umemViewLocked_eq (hinv.heldApart pr) addr len

theorem run_view_exact_init : ∃ s pr, s.g_procs.get 1 = some pr ∧
    pr.blocks.get PAGE_SIZE = some 0 ∧ ∃ r, umemViewLocked s pr PAGE_SIZE 8 = some r ∧
      ∀ id, r = some id ↔ HeldAround s pr PAGE_SIZE 8 id := by
  obtain ⟨s, hrun, hget⟩ : ∃ s, Run (step ⟨[], [], []⟩)
      (fun s op => Legal bareBoot.held s op ∧ NoDevice op) bareBoot.state [.create none, initAlloc] s ∧
      (s.g_procs.get 1).map (·.blocks.get PAGE_SIZE) = some (some 0) :=
    exists_run_init ⟨trivial, trivial⟩ ⟨legal_initAlloc, trivial⟩ nofun (by decide +kernel)
  obtain ⟨pr, hp, hblock⟩ := Option.map_eq_some_iff.mp hget
  exact ⟨s, pr, hp, hblock, run_view_exact ⟨[], [], []⟩ bareBoot _ s 1 pr hrun hp PAGE_SIZE 8⟩

end GovinDos.Umem
