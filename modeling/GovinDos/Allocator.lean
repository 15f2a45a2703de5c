/-
  **The boot allocator (`allocator_init`, `get_mmap.c`).**

  `allocator_init` sizes the tree by the highest conventional region, puts it into the first
  one that is large enough, and marks it and every other region unusable.  The marks land
  `2 ^ (max_level - 1) - 1` pages below the pages they are meant for: the theorems say for
  which maps nothing but free RAM is handed out, for which all of it is, and for which the
  marks stay inside the tree.
-/
import Mathlib
import GovinDos.BuddyReady
import GovinDos.Lib.Run
import GovinDos.PlatformMem

namespace GovinDos.Allocator

open Buddy BuddyTree Paging PlatformMem

variable {ba : BuddyAllocator}

/-! ## 1. The memory map -/

def EFI_MEMORY_DESCRIPTOR_SIZE : Nat := 40

def memmove (mem : Nat → UInt8) (dst src len : Nat) : Nat → UInt8 := fun j =>
  if dst ≤ j ∧ j < dst + len then mem (src + (j - dst)) else mem j

def compactMmapTable (mem : Nat → UInt8) (mmap_size desc_size : Nat) : Nat → UInt8 :=
  (List.range (mmap_size / desc_size)).foldl (fun mem i =>
    memmove mem (i * EFI_MEMORY_DESCRIPTOR_SIZE) (i * desc_size) EFI_MEMORY_DESCRIPTOR_SIZE) mem

def numberAt (mem : Nat → UInt8) (offset : Nat) : Nat → Nat
  | 0 => 0
  | n + 1 => numberAt mem offset n + (mem (offset + n)).toNat * 256 ^ n

def descriptorAt (mem : Nat → UInt8) (offset : Nat) : MemoryDescriptor where
  type := numberAt mem offset 4
  physical_start := numberAt mem (offset + 8) 8
  pages := numberAt mem (offset + 24) 8

def mmapTable (mem : Nat → UInt8) (n stride : Nat) : List MemoryDescriptor :=
  (List.range n).map fun i => descriptorAt mem (i * stride)

theorem compact_rounds (mem : Nat → UInt8) {desc_size : Nat}
    (hdesc : EFI_MEMORY_DESCRIPTOR_SIZE ≤ desc_size) (n : Nat) :
    let mem' := (List.range n).foldl (fun mem i => memmove mem (i * EFI_MEMORY_DESCRIPTOR_SIZE)
      (i * desc_size) EFI_MEMORY_DESCRIPTOR_SIZE) mem
    (∀ i < n, ∀ j < EFI_MEMORY_DESCRIPTOR_SIZE,
      mem' (i * EFI_MEMORY_DESCRIPTOR_SIZE + j) = mem (i * desc_size + j)) ∧
    ∀ j, n * EFI_MEMORY_DESCRIPTOR_SIZE ≤ j → mem' j = mem j := by
  induction n with
  | zero => exact ⟨fun i hi => absurd hi (Nat.not_lt_zero i), fun _ _ => rfl⟩
  | succ n ih =>
    obtain ⟨hmoved, hrest⟩ := ih
    rw [List.range_succ, List.foldl_append]
    simp only [List.foldl_cons, List.foldl_nil, memmove]
    constructor
    · intro i hi j hj
      rcases Nat.lt_succ_iff_lt_or_eq.mp hi with hlt | rfl
      · have hbefore : (i + 1) * EFI_MEMORY_DESCRIPTOR_SIZE ≤ n * EFI_MEMORY_DESCRIPTOR_SIZE :=
          Nat.mul_le_mul_right _ hlt
        rw [Nat.succ_mul] at hbefore
        rw [if_neg (by omega), hmoved i hlt j hj]
      · rw [if_pos (by omega), Nat.add_sub_cancel_left]
        -- the source is not behind what has been moved
        have hsrc := Nat.mul_le_mul_left i hdesc
        exact hrest _ (by omega)
    · intro j hj
      rw [Nat.succ_mul] at hj
      rw [if_neg (by omega), hrest j (by omega)]

theorem numberAt_congr {mem mem' : Nat → UInt8} {offset offset' n : Nat}
    (h : ∀ j < n, mem' (offset' + j) = mem (offset + j)) :
    numberAt mem' offset' n = numberAt mem offset n := by
  induction n with
  | zero => rfl
  | succ n ih =>
    rw [numberAt, numberAt, ih fun j hj => h j (Nat.lt_succ_of_lt hj), h n (Nat.lt_succ_self n)]

theorem mmapTable_compactMmapTable {mem : Nat → UInt8} {mmap_size desc_size : Nat}
    (hdesc : EFI_MEMORY_DESCRIPTOR_SIZE ≤ desc_size) :
    mmapTable (compactMmapTable mem mmap_size desc_size) (mmap_size / desc_size)
        EFI_MEMORY_DESCRIPTOR_SIZE =
      mmapTable mem (mmap_size / desc_size) desc_size := by
  obtain ⟨hmoved, -⟩ := compact_rounds mem hdesc (mmap_size / desc_size)
  refine List.map_congr_left fun i hi => ?_
  have hbytes (j : Nat) (hj : j < EFI_MEMORY_DESCRIPTOR_SIZE) :
      compactMmapTable mem mmap_size desc_size (i * EFI_MEMORY_DESCRIPTOR_SIZE + j) =
        mem (i * desc_size + j) := hmoved i (List.mem_range.mp hi) j hj
  unfold EFI_MEMORY_DESCRIPTOR_SIZE at hbytes ⊢
  simp only [descriptorAt, MemoryDescriptor.mk.injEq]
  refine ⟨numberAt_congr fun j hj => ?_, numberAt_congr fun j hj => ?_, numberAt_congr fun j hj => ?_⟩
  · exact hbytes j (by omega)
  · rw [Nat.add_assoc, Nat.add_assoc]
    exact hbytes (8 + j) (by omega)
  · rw [Nat.add_assoc, Nat.add_assoc]
    exact hbytes (24 + j) (by omega)

theorem mmapTable_compactMmapTable_two :
    mmapTable (compactMmapTable UInt8.ofNat 96 48) 2 40 = mmapTable UInt8.ofNat 2 48 :=
  mmapTable_compactMmapTable (by decide : 40 ≤ 48)

def pageId (d : MemoryDescriptor) : Nat := d.physical_start / PAGE_SIZE

structure WellFormed (mmap : List MemoryDescriptor) : Prop where
  aligned : ∀ d ∈ mmap, d.physical_start % PAGE_SIZE = 0
  bounded : ∀ d ∈ mmap, d.physical_start + d.pages * PAGE_SIZE ≤ 2 ^ 64
  disjoint : mmap.Pairwise fun d e => pageId d + d.pages ≤ pageId e ∨ pageId e + e.pages ≤ pageId d

instance (mmap : List MemoryDescriptor) : Decidable (WellFormed mmap) :=
  decidable_of_iff ((∀ d ∈ mmap, d.physical_start % PAGE_SIZE = 0) ∧
    (∀ d ∈ mmap, d.physical_start + d.pages * PAGE_SIZE ≤ 2 ^ 64) ∧
    mmap.Pairwise fun d e => pageId d + d.pages ≤ pageId e ∨ pageId e + e.pages ≤ pageId d)
    ⟨fun h => ⟨h.1, h.2.1, h.2.2⟩, fun h => ⟨h.aligned, h.bounded, h.disjoint⟩⟩

/-! ## 2. `allocator_init` -/

def higherFreePage (max_free_page : Nat) (d : MemoryDescriptor) : Nat :=
  if d.type = EFI_CONVENTIONAL_MEMORY then max max_free_page (pageId d) else max_free_page

def maxFreePage (mmap : List MemoryDescriptor) : Nat := mmap.foldl higherFreePage 0

def allocatorStart (mmap : List MemoryDescriptor) (pages_for_allocator : Nat) : Option Nat :=
  (mmap.find? fun d => d.type = EFI_CONVENTIONAL_MEMORY && d.pages > pages_for_allocator).map pageId

def markReserved (ba : BuddyAllocator) (mmap : List MemoryDescriptor) : Option BuddyAllocator :=
  mmap.foldlM (fun ba d =>
    if d.type ≠ EFI_CONVENTIONAL_MEMORY then buddyMarkUnusable ba (pageId d) (pageId d + d.pages)
    else some ba) ba

inductive InitStop where
  | fatal
  | undefined
deriving DecidableEq, Repr

structure Boot where
  ba : BuddyAllocator
  n_pages : Nat
  allocator_start_page_id : Nat
  pages_for_allocator : Nat

def allocatorInit (junk : Nat → Nat) (mmap : List MemoryDescriptor) : Except InitStop Boot :=
  let n_pages := maxFreePage mmap + 1
  let pages_for_allocator := buddyGetBytes n_pages / PAGE_SIZE
  match allocatorStart mmap pages_for_allocator with
  | none => .error .fatal
  | some start =>
    let marked := do
      let ba ← buddyMarkUnusable (buddyInit junk n_pages) start (start + pages_for_allocator)
      markReserved ba mmap
    match marked with
    | none => .error .undefined
    | some ba => .ok ⟨buddyReady ba, n_pages, start, pages_for_allocator⟩

variable {mmap : List MemoryDescriptor} {junk : Nat → Nat} {a : Boot}

theorem le_maxFreePage {d : MemoryDescriptor} (hd : d ∈ mmap)
    (htype : d.type = EFI_CONVENTIONAL_MEMORY) : pageId d ≤ maxFreePage mmap := by
  have hmono (ds : List MemoryDescriptor) (m : Nat) : m ≤ ds.foldl higherFreePage m := by
    induction ds generalizing m with
    | nil => exact Nat.le_refl m
    | cons e ds ih =>
      refine Nat.le_trans ?_ (ih _)
      unfold higherFreePage
      split <;> omega
  obtain ⟨before, after, rfl⟩ := List.append_of_mem hd
  rw [maxFreePage, List.foldl_append, List.foldl_cons, higherFreePage, if_pos htype]
  exact Nat.le_trans (Nat.le_max_right _ _) (hmono after _)

theorem maxFreePage_le (hmap : WellFormed mmap) : maxFreePage mmap ≤ 2 ^ 52 := by
  have hfold (ds : List MemoryDescriptor) (m : Nat) (hm : m ≤ 2 ^ 52) (hds : ∀ d ∈ ds, d ∈ mmap) :
      ds.foldl higherFreePage m ≤ 2 ^ 52 := by
    induction ds generalizing m with
    | nil => exact hm
    | cons e ds ih =>
      refine ih _ ?_ fun d hd => hds d (List.mem_cons_of_mem e hd)
      have hbound := hmap.bounded e (hds e List.mem_cons_self)
      have hpage : pageId e ≤ 2 ^ 52 := by
        unfold pageId PAGE_SIZE
        omega
      unfold higherFreePage
      split <;> omega
  exact hfold mmap 0 (Nat.zero_le _) fun _ => id

def marks (L lo hi : Nat) : List Nat := (List.range' lo (hi + 1 - lo)).map (· + 2 ^ (L - 1))

def allMarks (mmap : List MemoryDescriptor) (L start pages : Nat) : List Nat :=
  marks L start (start + pages) ++ (mmap.filter (·.type ≠ EFI_CONVENTIONAL_MEMORY)).flatMap fun d =>
    marks L (pageId d) (pageId d + d.pages)

theorem setAll_append (v : Nat) (ba : BuddyAllocator) (is js : List Nat) :
    setAll v (setAll v ba is) js = setAll v ba (is ++ js) := (List.foldl_append ..).symm

theorem buddyMarkUnusable_eq (hL : ba.max_level ≠ 0) (lo hi : Nat) :
    buddyMarkUnusable ba lo hi = some (setAll BUDDY_LEVEL_UNUSABLE ba (marks ba.max_level lo hi)) :=
  if_neg hL

theorem markReserved_eq (hL : ba.max_level ≠ 0) :
    markReserved ba mmap = some (setAll BUDDY_LEVEL_UNUSABLE ba
      ((mmap.filter (·.type ≠ EFI_CONVENTIONAL_MEMORY)).flatMap fun d =>
        marks ba.max_level (pageId d) (pageId d + d.pages))) := by
  induction mmap generalizing ba with
  | nil => rfl
  | cons d mmap ih =>
    rw [markReserved, List.foldlM_cons]
    by_cases htype : d.type ≠ EFI_CONVENTIONAL_MEMORY
    · have hL' := max_level_setAll BUDDY_LEVEL_UNUSABLE ba
        (marks ba.max_level (pageId d) (pageId d + d.pages))
      rw [if_pos htype, buddyMarkUnusable_eq hL, Option.bind_eq_bind, Option.bind_some,
        List.filter_cons_of_pos (by simpa using htype), List.flatMap_cons, ← setAll_append]
      have hrest := @ih (setAll BUDDY_LEVEL_UNUSABLE ba
        (marks ba.max_level (pageId d) (pageId d + d.pages))) (by rwa [hL'])
      rwa [hL'] at hrest
    · rw [if_neg htype, Option.bind_eq_bind, Option.bind_some,
        List.filter_cons_of_neg (by simpa using htype)]
      exact ih hL

theorem allocatorInit_eq (h : allocatorInit junk mmap = .ok a) :
    a.n_pages = maxFreePage mmap + 1 ∧ uint64CeilLog2 a.n_pages ≠ 0 ∧
    a.pages_for_allocator = buddyGetBytes a.n_pages / PAGE_SIZE ∧
    (∃ d ∈ mmap, d.type = EFI_CONVENTIONAL_MEMORY ∧ a.pages_for_allocator < d.pages ∧
      pageId d = a.allocator_start_page_id) ∧
    a.ba = buddyReady (setAll BUDDY_LEVEL_UNUSABLE (buddyInit junk a.n_pages)
      (allMarks mmap (uint64CeilLog2 a.n_pages) a.allocator_start_page_id a.pages_for_allocator)) := by
  simp only [allocatorInit] at h
  split at h
  · cases h
  · rename_i start hstart
    split at h
    · cases h
    · rename_i ba hmarked
      cases h
      obtain ⟨d, hfind, rfl⟩ := Option.map_eq_some_iff.mp hstart
      have hd := List.find?_some hfind
      have hmem := List.mem_of_find?_eq_some hfind
      simp only [Bool.and_eq_true, decide_eq_true_eq] at hd
      have hmax : (buddyInit junk (maxFreePage mmap + 1)).max_level =
        uint64CeilLog2 (maxFreePage mmap + 1) := max_level_buddyInit
      have hL : uint64CeilLog2 (maxFreePage mmap + 1) ≠ 0 := by
        intro hzero
        rw [buddyMarkUnusable, if_pos (hmax.trans hzero)] at hmarked
        cases hmarked
      refine ⟨rfl, hL, rfl, ⟨d, hmem, hd.1, hd.2, rfl⟩, ?_⟩
      have hL' := max_level_setAll BUDDY_LEVEL_UNUSABLE (buddyInit junk (maxFreePage mmap + 1))
        (marks (uint64CeilLog2 (maxFreePage mmap + 1)) (pageId d)
          (pageId d + buddyGetBytes (maxFreePage mmap + 1) / PAGE_SIZE))
      rw [buddyMarkUnusable_eq (by rwa [hmax]), hmax, Option.bind_eq_bind, Option.bind_some,
        markReserved_eq (by rwa [hL', hmax]), setAll_append, hL', hmax] at hmarked
      exact congrArg buddyReady (Option.some.inj hmarked).symm

/-- The pages for which `allocator_init` asks to be marked: both ends are included. -/
def Marked (mmap : List MemoryDescriptor) (a : Boot) (i : Nat) : Prop :=
  (a.allocator_start_page_id ≤ i ∧ i ≤ a.allocator_start_page_id + a.pages_for_allocator) ∨
    ∃ d ∈ mmap, d.type ≠ EFI_CONVENTIONAL_MEMORY ∧ pageId d ≤ i ∧ i ≤ pageId d + d.pages

instance (mmap : List MemoryDescriptor) (a : Boot) (i : Nat) : Decidable (Marked mmap a i) :=
  inferInstanceAs (Decidable ((_ ∧ _) ∨ ∃ d ∈ mmap, d.type ≠ EFI_CONVENTIONAL_MEMORY ∧ _ ∧ _))

/-- The pages the tree starts with: below the highest free one, and not marked. -/
def Usable (mmap : List MemoryDescriptor) (a : Boot) (p : Nat) : Prop :=
  p < a.n_pages ∧ ¬ Marked mmap a (p + 2 ^ (uint64CeilLog2 a.n_pages - 1) - 1)

instance (mmap : List MemoryDescriptor) (a : Boot) (p : Nat) : Decidable (Usable mmap a p) :=
  inferInstanceAs (Decidable (_ ∧ ¬ Marked mmap a _))

theorem mem_allMarks (hL : 0 < uint64CeilLog2 a.n_pages) {p : Nat} :
    2 ^ uint64CeilLog2 a.n_pages - 1 + p ∈ allMarks mmap (uint64CeilLog2 a.n_pages)
        a.allocator_start_page_id a.pages_for_allocator ↔
      Marked mmap a (p + 2 ^ (uint64CeilLog2 a.n_pages - 1) - 1) := by
  unfold allMarks Marked marks
  rw [List.mem_append, mem_marks hL]
  refine or_congr Iff.rfl ?_
  simp only [List.mem_flatMap, List.mem_filter, mem_marks hL]
  simp only [ne_eq, decide_not, Bool.not_eq_eq_eq_not, Bool.not_true, decide_eq_false_iff_not,
    and_assoc]

theorem uint64CeilLog2_valid (hmap : WellFormed mmap) (hn : a.n_pages = maxFreePage mmap + 1) :
    uint64CeilLog2 a.n_pages < BUDDY_LEVEL_UNUSABLE := by
  have hle := maxFreePage_le hmap
  have hceil : uint64CeilLog2 a.n_pages ≤ 53 := uint64CeilLog2_le (by omega) (by omega)
  exact Nat.lt_of_le_of_lt hceil (by decide)

theorem allocatorInit_represents (hmap : WellFormed mmap) (h : allocatorInit junk mmap = .ok a) :
    a.ba.max_level = uint64CeilLog2 a.n_pages ∧
      Represents a.ba (ofPages (fun p => decide (Usable mmap a p)) a.ba.max_level 0) := by
  obtain ⟨hn, hL, -, -, hba⟩ := allocatorInit_eq h
  have hvalid := uint64CeilLog2_valid hmap hn
  have hmax : a.ba.max_level = uint64CeilLog2 a.n_pages := by
    rw [hba, max_level_buddyReady, max_level_setAll, max_level_buddyInit]
  refine ⟨hmax, ?_⟩
  generalize hmarked : setAll BUDDY_LEVEL_UNUSABLE (buddyInit junk a.n_pages) (allMarks mmap
    (uint64CeilLog2 a.n_pages) a.allocator_start_page_id a.pages_for_allocator) = ba at hba
  have hmax' : ba.max_level = uint64CeilLog2 a.n_pages := by
    rw [← hmarked, max_level_setAll, max_level_buddyInit]
  rw [hmax, ← hmax', hba]
  refine buddyReady_represents (hmax' ▸ hvalid) fun p hp => ?_
  rw [hmax'] at hp ⊢
  rw [← hmarked, heap_setAll, heap_buddyInit hvalid hp]
  by_cases hm : Marked mmap a (p + 2 ^ (uint64CeilLog2 a.n_pages - 1) - 1)
  · have hno : ¬ Usable mmap a p := fun husable => husable.2 hm
    rw [if_pos ((mem_allMarks (Nat.pos_of_ne_zero hL)).mpr hm), if_neg (by simpa using hno)]
  · rw [if_neg (mt (mem_allMarks (Nat.pos_of_ne_zero hL)).mp hm)]
    have hiff : p < a.n_pages ↔ decide (Usable mmap a p) = true := by
      rw [decide_eq_true_iff]
      exact (and_iff_left hm).symm
    exact if_congr hiff rfl rfl

theorem allocatorInit_free_iff (hmap : WellFormed mmap) (h : allocatorInit junk mmap = .ok a) {q : Nat} :
    (ofPages (fun p => decide (Usable mmap a p)) a.ba.max_level 0).Free a.ba.max_level 0 q ↔
      Usable mmap a q := by
  obtain ⟨hmax, -⟩ := allocatorInit_represents hmap h
  rw [ofPages_free_iff, decide_eq_true_iff]
  refine and_iff_right_of_imp fun husable => ⟨Nat.zero_le q, ?_⟩
  have hn := le_two_pow_uint64CeilLog2 a.n_pages
  have hlt := husable.1
  rw [hmax]
  omega

/-! ## 3. Page allocations and frees -/

/-- The allocator and, not in the code, the blocks it has returned: first page and
    number of pages. -/
structure Heap where
  ba : BuddyAllocator
  returned : List (Nat × Nat)

inductive HeapOp where
  | alloc (n_pages : Nat)
  | free (page_id : Nat)

def heapStep (s : Heap) : HeapOp → Option Heap
  | .alloc n_pages => match buddyPageAlloc s.ba n_pages with
    | none => none
    | some (.error _) => some s
    | some (.ok (ba, page_id)) =>
      some ⟨ba, (page_id, 2 ^ uint64CeilLog2 (if n_pages = 0 then 1 else n_pages)) :: s.returned⟩
  | .free page_id => match buddyPageFree s.ba page_id with
    | .error _ => some s
    | .ok ba => some { s with ba := ba }

def PreviouslyAllocated (s : Heap) : HeapOp → Prop
  | .alloc _ => True
  | .free page_id => ∃ n, (page_id, n) ∈ s.returned

structure HeapInv (U : Nat → Prop) (s : Heap) : Prop where
  tree : ∃ t, Represents s.ba t ∧ ∀ q, t.Owned s.ba.max_level 0 q → U q
  returned : ∀ x ∈ s.returned, ∀ q, x.1 ≤ q → q < x.1 + x.2 → U q

theorem HeapInv.step {U : Nat → Prop} {s s' : Heap} {o : HeapOp} (h : HeapInv U s)
    (hstep : heapStep s o = some s') : HeapInv U s' := by
  obtain ⟨t, hrep, howned⟩ := h.tree
  cases o with
  | alloc n =>
    rcases buddyPageAlloc_cases hrep n with ⟨ba, p, t', halloc, hrep', hmax, htaken⟩ | ⟨e, halloc, -⟩
    · simp only [heapStep, halloc] at hstep
      cases hstep
      refine ⟨⟨t', hrep', fun q hq => ?_⟩, fun x hx q hp hq => ?_⟩
      · simp only [hmax] at hq
        exact howned q (htaken.owned_iff.mp hq)
      · rcases List.mem_cons.mp hx with rfl | hold
        · exact howned q (htaken.free_iff.mpr (.inr ⟨hp, hq⟩)).owned
        · exact h.returned x hold q hp hq
    · simp only [heapStep, halloc] at hstep
      cases hstep
      exact h
  | free p =>
    simp only [heapStep] at hstep
    split at hstep
    · cases hstep
      exact h
    · rename_i ba hfree
      cases hstep
      obtain ⟨t', hrelease, hrep', hmax⟩ := buddyPageFree_release hrep hfree
      refine ⟨⟨t', hrep', fun q hq => ?_⟩, h.returned⟩
      simp only [hmax] at hq
      exact howned q (hrelease.owned_iff.mp hq)

/-- Single pages are allocated until it fails; `none` where `n` rounds do not end it. -/
def drain : Nat → BuddyAllocator → Option (List Nat)
  | 0, _ => none
  | n + 1, ba => match buddyPageAlloc ba 1 with
    | none => none
    | some (.error _) => some []
    | some (.ok (ba, page_id)) => (drain n ba).map (page_id :: ·)

theorem drain_mem {n : Nat} {t : BuddyTree} {pages : List Nat}
    (hrep : Represents ba t) (h : drain n ba = some pages) :
    pages.Nodup ∧ ∀ q, q ∈ pages ↔ t.Free ba.max_level 0 q := by
  induction n generalizing ba t pages with
  | zero => cases h
  | succ n ih =>
    rcases buddyPageAlloc_cases hrep 1 with ⟨ba', p, t', halloc, hrep', hmax, htaken⟩ | ⟨e, halloc, hnone⟩
    · simp only [drain, halloc] at h
      obtain ⟨rest, hrest, rfl⟩ := Option.map_eq_some_iff.mp h
      obtain ⟨hnodup, hmem⟩ := ih hrep' hrest
      rw [hmax] at hmem
      have hone : uint64CeilLog2 (if 1 = 0 then 1 else 1) = 0 := rfl
      rw [hone] at htaken
      constructor
      · refine List.nodup_cons.mpr ⟨fun hp => ?_, hnodup⟩
        exact htaken.not_free (Nat.le_refl p) (Nat.lt_succ_self p) ((hmem p).mp hp)
      · intro q
        rw [List.mem_cons, htaken.free_iff, hmem, or_comm]
        refine or_congr Iff.rfl ?_
        rw [Nat.pow_zero]
        omega
    · simp only [drain, halloc] at h
      cases h
      refine ⟨List.nodup_nil, fun q => ?_⟩
      exact ⟨fun hq => absurd hq List.not_mem_nil, fun hq => absurd hq.freeBlock (hnone q)⟩

theorem drain_ends {m : Nat} {t : BuddyTree} {S : Finset Nat}
    (hrep : Represents ba t) (hS : ∀ q, t.Free ba.max_level 0 q → q ∈ S) (hcard : S.card ≤ m) :
    ∃ pages, drain (m + 1) ba = some pages := by
  induction m generalizing ba t S with
  | zero =>
    rcases buddyPageAlloc_cases hrep 1 with ⟨ba', p, t', halloc, -, -, htaken⟩ | ⟨e, halloc, -⟩
    · have hfree := hS p (htaken.free_iff.mpr (.inr ⟨Nat.le_refl p, by simp⟩))
      rw [Finset.card_eq_zero.mp (Nat.le_zero.mp hcard)] at hfree
      exact absurd hfree (Finset.notMem_empty p)
    · exact ⟨[], by simp only [drain, halloc]⟩
  | succ m ih =>
    rcases buddyPageAlloc_cases hrep 1 with ⟨ba', p, t', halloc, hrep', hmax, htaken⟩ | ⟨e, halloc, -⟩
    · have hblock : p ≤ p ∧ p < p + 2 ^ uint64CeilLog2 (if 1 = 0 then 1 else 1) :=
        ⟨Nat.le_refl p, Nat.lt_add_of_pos_right (Nat.two_pow_pos _)⟩
      have hfree := hS p (htaken.free_iff.mpr (.inr hblock))
      have hcard' : (S.erase p).card ≤ m := by
        rw [Finset.card_erase_of_mem hfree]
        omega
      have hS' (q : Nat) (hq : t'.Free ba'.max_level 0 q) : q ∈ S.erase p := by
        rw [hmax] at hq
        refine Finset.mem_erase.mpr ⟨?_, hS q (htaken.free_iff.mpr (.inl hq))⟩
        rintro rfl
        exact htaken.not_free hblock.1 hblock.2 hq
      obtain ⟨pages, hpages⟩ := ih hrep' hS' hcard'
      refine ⟨p :: pages, ?_⟩
      rw [drain, halloc]
      exact congrArg (Option.map (p :: ·)) hpages
    · exact ⟨[], by simp only [drain, halloc]⟩

theorem drain_run {n : Nat} {pages : List Nat} (h : drain n ba = some pages)
    (old : List (Nat × Nat)) : ∃ os s, Run heapStep PreviouslyAllocated ⟨ba, old⟩ os s ∧
      (∀ p ∈ pages, (p, 1) ∈ s.returned) ∧ ∀ x ∈ old, x ∈ s.returned := by
  induction n generalizing ba pages old with
  | zero => cases h
  | succ n ih =>
    simp only [drain] at h
    split at h
    · cases h
    · cases h
      exact ⟨[], _, .nil _, nofun, fun _ => id⟩
    · rename_i ba' p halloc
      obtain ⟨rest, hrest, rfl⟩ := Option.map_eq_some_iff.mp h
      obtain ⟨os, s, hrun, hpages, hold⟩ := ih hrest ((p, 1) :: old)
      have hstep : heapStep ⟨ba, old⟩ (.alloc 1) = some ⟨ba', (p, 1) :: old⟩ := by
        simp only [heapStep, halloc]
        rfl
      refine ⟨.alloc 1 :: os, s, .cons trivial hstep hrun, ?_, ?_⟩
      · intro q hq
        rcases List.mem_cons.mp hq with rfl | hrest
        · exact hold _ List.mem_cons_self
        · exact hpages q hrest
      · exact fun x hx => hold x (List.mem_cons_of_mem _ hx)

/-! ## 4. What is handed out -/

def TreePage (a : Boot) (q : Nat) : Prop :=
  a.allocator_start_page_id ≤ q ∧
    q * PAGE_SIZE < a.allocator_start_page_id * PAGE_SIZE + buddyGetBytes a.n_pages

def FreeRam (mmap : List MemoryDescriptor) (a : Boot) (q : Nat) : Prop :=
  (∃ d ∈ mmap, d.type = EFI_CONVENTIONAL_MEMORY ∧ pageId d ≤ q ∧ q < pageId d + d.pages) ∧
    q ≠ 0 ∧ ¬ TreePage a q

instance (a : Boot) (q : Nat) : Decidable (TreePage a q) := inferInstanceAs (Decidable (_ ∧ _))

instance (mmap : List MemoryDescriptor) (a : Boot) (q : Nat) : Decidable (FreeRam mmap a q) :=
  inferInstanceAs (Decidable ((∃ d ∈ mmap, d.type = EFI_CONVENTIONAL_MEMORY ∧ _ ∧ _) ∧
    q ≠ 0 ∧ ¬ TreePage a q))

theorem exists_of_eval {P : Boot → Prop} [DecidablePred P]
    (h : (match allocatorInit junk mmap with
      | .ok a => decide (P a)
      | .error _ => false) = true) : ∃ a, allocatorInit junk mmap = .ok a ∧ P a := by
  split at h
  · exact ⟨_, ‹_›, of_decide_eq_true h⟩
  · cases h

theorem drain_allocatorInit (hmap : WellFormed mmap) (h : allocatorInit junk mmap = .ok a) :
    (∃ n pages, drain n a.ba = some pages) ∧ ∀ n pages, drain n a.ba = some pages →
      pages.Nodup ∧ ∀ q, q ∈ pages ↔ Usable mmap a q := by
  obtain ⟨-, hrep⟩ := allocatorInit_represents hmap h
  constructor
  · obtain ⟨pages, hpages⟩ := drain_ends (S := Finset.range (2 ^ a.ba.max_level)) hrep (fun q hq => by
      have hmem := hq.mem
      rw [Finset.mem_range]
      omega) (Nat.le_refl _)
    exact ⟨_, pages, hpages⟩
  · intro n pages hdrain
    obtain ⟨hnodup, hmem⟩ := drain_mem hrep hdrain
    exact ⟨hnodup, fun q => (hmem q).trans (allocatorInit_free_iff hmap h)⟩

/-- The allocator hands out free RAM only, exactly where every other page below the
    highest free one has a marked page `2 ^ (max_level - 1) - 1` above it. -/
theorem hands_out_free_ram_iff (hmap : WellFormed mmap) (hinit : allocatorInit junk mmap = .ok a) :
    (∀ os s, Run heapStep PreviouslyAllocated ⟨a.ba, []⟩ os s → ∀ x ∈ s.returned,
      ∀ q, x.1 ≤ q → q < x.1 + x.2 → FreeRam mmap a q) ↔
    ∀ p < a.n_pages, ¬ FreeRam mmap a p →
      Marked mmap a (p + 2 ^ (uint64CeilLog2 a.n_pages - 1) - 1) := by
  constructor
  · intro hreturned p hp hno
    by_contra hmarked
    obtain ⟨⟨n, pages, hdrain⟩, hexact⟩ := drain_allocatorInit hmap hinit
    have hin : p ∈ pages := ((hexact n pages hdrain).2 p).mpr ⟨hp, hmarked⟩
    obtain ⟨os, s, hrun, hpages, -⟩ := drain_run hdrain []
    exact hno (hreturned os s hrun (p, 1) (hpages p hin) p (Nat.le_refl p) (Nat.lt_succ_self p))
  · intro hcovered os s hrun x hx q hp hq
    have husable (q : Nat) (h : Usable mmap a q) : FreeRam mmap a q := by
      by_contra hno
      exact h.2 (hcovered q h.1 hno)
    obtain ⟨-, hrep⟩ := allocatorInit_represents hmap hinit
    have hboot : HeapInv (FreeRam mmap a) ⟨a.ba, []⟩ := by
      refine ⟨⟨_, hrep, fun q hq => husable q ?_⟩, nofun⟩
      exact (allocatorInit_free_iff hmap hinit).mp (ofPages_owned_iff.mp hq)
    have hinv : HeapInv (FreeRam mmap a) s :=
      hrun.invariant (P := HeapInv (FreeRam mmap a)) hboot fun _ _ _ h _ hstep => h.step hstep
    exact hinv.returned x hx q hp hq

def fourPages : List MemoryDescriptor := [⟨7, 0x3000, 1⟩, ⟨0, 0x0, 1⟩, ⟨7, 0x1000, 2⟩, ⟨0, 0x4000, 1⟩]

theorem hands_out_free_ram_fourPages : ∃ a, allocatorInit (fun _ => 0) fourPages = .ok a ∧
    Usable fourPages a 1 ∧
    ∀ os s, Run heapStep PreviouslyAllocated ⟨a.ba, []⟩ os s → ∀ x ∈ s.returned,
      ∀ q, x.1 ≤ q → q < x.1 + x.2 → FreeRam fourPages a q := by
  obtain ⟨a, hinit, husable, hcovered⟩ : ∃ a, allocatorInit (fun _ => 0) fourPages = .ok a ∧
      Usable fourPages a 1 ∧ ∀ p < a.n_pages, ¬ FreeRam fourPages a p →
        Marked fourPages a (p + 2 ^ (uint64CeilLog2 a.n_pages - 1) - 1) :=
    exists_of_eval (by decide +kernel)
  exact ⟨a, hinit, husable, (hands_out_free_ram_iff (by decide) hinit).mpr hcovered⟩

def eightPages : List MemoryDescriptor := [⟨7, 0x2000, 2⟩, ⟨0, 0x1000, 1⟩, ⟨7, 0x4000, 4⟩]

/-- Page zero, the reserved page and the page of the tree are handed out. -/
theorem hands_out_its_own_tree : WellFormed eightPages ∧
    ∃ a s, allocatorInit (fun _ => 0) eightPages = .ok a ∧
      Run heapStep PreviouslyAllocated ⟨a.ba, []⟩ (List.replicate 5 (.alloc 1)) s ∧
      (0, 1) ∈ s.returned ∧ (1, 1) ∈ s.returned ∧ (2, 1) ∈ s.returned ∧ TreePage a 2 ∧
      ¬ FreeRam eightPages a 0 ∧ ¬ FreeRam eightPages a 1 ∧ ¬ FreeRam eightPages a 2 := by
  refine ⟨by decide, ?_⟩
  obtain ⟨a, hinit, hrun, htree⟩ : ∃ a, allocatorInit (fun _ => 0) eightPages = .ok a ∧
      ((List.replicate 5 (HeapOp.alloc 1)).foldlM heapStep ⟨a.ba, []⟩).map (fun s => decide
        ((0, 1) ∈ s.returned ∧ (1, 1) ∈ s.returned ∧ (2, 1) ∈ s.returned)) = some true ∧
      TreePage a 2 ∧ ¬ FreeRam eightPages a 0 ∧ ¬ FreeRam eightPages a 1 ∧ ¬ FreeRam eightPages a 2 :=
    exists_of_eval (by decide +kernel)
  obtain ⟨s, hs, hreturned⟩ := Option.map_eq_some_iff.mp hrun
  obtain ⟨hzero, hone, htwo⟩ := of_decide_eq_true hreturned
  refine ⟨a, s, hinit, .of_foldlM (fun o ho s => ?_) hs, hzero, hone, htwo, htree⟩
  rw [List.eq_of_mem_replicate ho]
  trivial

/-- The allocator loses no memory, exactly where the free RAM is what lies below the
    highest free page and has no marked page `2 ^ (max_level - 1) - 1` above it. -/
theorem hands_out_all_free_ram_iff (hmap : WellFormed mmap) (hinit : allocatorInit junk mmap = .ok a) :
    (∃ n pages, drain n a.ba = some pages ∧ pages.Nodup ∧ ∀ q, q ∈ pages ↔ FreeRam mmap a q) ↔
    ∀ q, FreeRam mmap a q ↔ q < a.n_pages ∧
      ¬ Marked mmap a (q + 2 ^ (uint64CeilLog2 a.n_pages - 1) - 1) := by
  obtain ⟨⟨n, pages, hdrain⟩, hexact⟩ := drain_allocatorInit hmap hinit
  constructor
  · rintro ⟨n', pages', hdrain', -, hmem⟩ q
    exact (hmem q).symm.trans ((hexact n' pages' hdrain').2 q)
  · intro hall
    obtain ⟨hnodup, hmem⟩ := hexact n pages hdrain
    exact ⟨n, pages, hdrain, hnodup, fun q => (hmem q).trans (hall q).symm⟩

def fourPagesHole : List MemoryDescriptor :=
  [⟨7, 0x3000, 1⟩, ⟨0, 0x0, 1⟩, ⟨7, 0x1000, 1⟩, ⟨0, 0x4000, 1⟩]

theorem hands_out_all_free_ram_fourPagesHole : ∃ a,
    allocatorInit (fun _ => 0) fourPagesHole = .ok a ∧
    ∃ n pages, drain n a.ba = some pages ∧ pages.Nodup ∧
      ∀ q, q ∈ pages ↔ FreeRam fourPagesHole a q := by
  obtain ⟨a, hinit, hpages, hexact⟩ : ∃ a, allocatorInit (fun _ => 0) fourPagesHole = .ok a ∧
      a.n_pages = 4 ∧ ∀ q < 5, FreeRam fourPagesHole a q ↔ q < a.n_pages ∧
        ¬ Marked fourPagesHole a (q + 2 ^ (uint64CeilLog2 a.n_pages - 1) - 1) :=
    exists_of_eval (by decide +kernel)
  refine ⟨a, hinit, (hands_out_all_free_ram_iff (by decide) hinit).mpr fun q => ?_⟩
  by_cases hq : q < 5
  · exact hexact q hq
  · refine ⟨fun hfree => ?_, fun h => by omega⟩
    obtain ⟨⟨d, hd, -, -, hlt⟩, -⟩ := hfree
    have hend : ∀ d ∈ fourPagesHole, pageId d + d.pages ≤ 5 := by decide
    have := hend d hd
    omega

/-- The pages of the highest region after its first are never handed out. -/
theorem loses_the_highest_region : WellFormed eightPages ∧
    ∃ a, allocatorInit (fun _ => 0) eightPages = .ok a ∧ FreeRam eightPages a 7 ∧
      ¬ ∃ n pages, drain n a.ba = some pages ∧ pages.Nodup ∧
        ∀ q, q ∈ pages ↔ FreeRam eightPages a q := by
  refine ⟨by decide, ?_⟩
  obtain ⟨a, hinit, hfree, hlost⟩ : ∃ a, allocatorInit (fun _ => 0) eightPages = .ok a ∧
      FreeRam eightPages a 7 ∧ ¬ Usable eightPages a 7 := exists_of_eval (by decide +kernel)
  refine ⟨a, hinit, hfree, ?_⟩
  rintro ⟨n, pages, hdrain, -, hmem⟩
  obtain ⟨-, hexact⟩ := (drain_allocatorInit (by decide) hinit).2 n pages hdrain
  exact hlost ((hexact 7).mp ((hmem 7).mpr hfree))

/-! ## 5. What is written -/

theorem bytes_lt_storage (h : allocatorInit junk mmap = .ok a) (hmap : WellFormed mmap) :
    BUDDY_ALLOCATOR_SIZE + (2 ^ (uint64CeilLog2 a.n_pages + 1) - 1) <
      (a.pages_for_allocator + 1) * PAGE_SIZE := by
  obtain ⟨hn, -, hpages, -⟩ := allocatorInit_eq h
  have hvalid : uint64CeilLog2 a.n_pages < 253 := uint64CeilLog2_valid hmap hn
  rw [hpages, buddyGetBytes, heapSize_eq (by omega)]
  unfold PAGE_SIZE
  omega

theorem mem_written_allocatorInit (hmap : WellFormed mmap) (h : allocatorInit junk mmap = .ok a)
    {j : Nat} : j ∈ a.ba.written ↔ j < 2 ^ (uint64CeilLog2 a.n_pages + 1) - 1 ∨
      j ∈ allMarks mmap (uint64CeilLog2 a.n_pages) a.allocator_start_page_id
        a.pages_for_allocator := by
  obtain ⟨hn, -, -, -, hba⟩ := allocatorInit_eq h
  have hvalid := uint64CeilLog2_valid hmap hn
  have hpos := Nat.two_pow_pos (uint64CeilLog2 a.n_pages)
  rw [hba, mem_written_buddyReady, mem_written_setAll, mem_written_buddyInit hvalid,
    max_level_setAll, max_level_buddyInit, or_left_comm, or_comm]
  · refine or_congr ?_ Iff.rfl
    rw [Nat.pow_succ]
    omega
  · rwa [max_level_setAll, max_level_buddyInit]

theorem marks_lt_iff {L lo hi v : Nat} (hle : lo ≤ hi) :
    (∀ j ∈ marks L lo hi, BUDDY_HEAP_OFFSET + j < v) ↔ BUDDY_HEAP_OFFSET + (hi + 2 ^ (L - 1)) < v := by
  constructor
  · intro h
    exact h _ (List.mem_map_of_mem (List.mem_range'_1.mpr ⟨hle, by omega⟩))
  · intro h j hj
    obtain ⟨i, hi', rfl⟩ := List.mem_map.mp hj
    have hrange := List.mem_range'_1.mp hi'
    omega

theorem storage_marks_lt (hmap : WellFormed mmap) (h : allocatorInit junk mmap = .ok a) :
    BUDDY_HEAP_OFFSET + (a.allocator_start_page_id + a.pages_for_allocator +
      2 ^ (uint64CeilLog2 a.n_pages - 1)) < (a.pages_for_allocator + 1) * PAGE_SIZE := by
  obtain ⟨hn, hL, hpages, ⟨d, hd, htype, -, hstart⟩, -⟩ := allocatorInit_eq h
  have hbytes := bytes_lt_storage h hmap
  have hvalid : uint64CeilLog2 a.n_pages < 253 := uint64CeilLog2_valid hmap hn
  have hfirst := le_maxFreePage hd htype
  have hall := le_two_pow_uint64CeilLog2 a.n_pages
  obtain ⟨k, hk⟩ := Nat.exists_eq_succ_of_ne_zero hL
  rw [hpages, buddyGetBytes, heapSize_eq (by omega)] at hbytes ⊢
  rw [hk] at hbytes hall ⊢
  simp only [Nat.succ_eq_add_one, Nat.add_sub_cancel, Nat.pow_succ, BUDDY_ALLOCATOR_SIZE,
    BUDDY_HEAP_OFFSET, PAGE_SIZE] at hbytes hall ⊢
  have hpos := Nat.two_pow_pos k
  omega

/-- The tree is written inside its storage, which is inside one conventional region,
    exactly where the marks of every other region are. -/
theorem writes_inside_storage_iff (hmap : WellFormed mmap) (hinit : allocatorInit junk mmap = .ok a) :
    ((∀ j ∈ a.ba.written, BUDDY_HEAP_OFFSET + j < (a.pages_for_allocator + 1) * PAGE_SIZE) ∧
      ∃ d ∈ mmap, d.type = EFI_CONVENTIONAL_MEMORY ∧ pageId d ≤ a.allocator_start_page_id ∧
        a.allocator_start_page_id + (a.pages_for_allocator + 1) ≤ pageId d + d.pages) ↔
    ∀ d ∈ mmap, d.type ≠ EFI_CONVENTIONAL_MEMORY →
      BUDDY_HEAP_OFFSET + (pageId d + d.pages + 2 ^ (uint64CeilLog2 a.n_pages - 1)) <
        (a.pages_for_allocator + 1) * PAGE_SIZE := by
  obtain ⟨-, -, -, ⟨r, hr, hconv, hfits, hstart⟩, -⟩ := allocatorInit_eq hinit
  have hregion : ∃ d ∈ mmap, d.type = EFI_CONVENTIONAL_MEMORY ∧
      pageId d ≤ a.allocator_start_page_id ∧
      a.allocator_start_page_id + (a.pages_for_allocator + 1) ≤ pageId d + d.pages :=
    ⟨r, hr, hconv, by omega, by omega⟩
  rw [and_iff_left hregion]
  constructor
  · intro h d hd hother
    refine (marks_lt_iff (Nat.le_add_right _ _)).mp fun j hj =>
      h j ((mem_written_allocatorInit hmap hinit).mpr (.inr ?_))
    refine List.mem_append_right _ (List.mem_flatMap.mpr ⟨d, ?_, hj⟩)
    exact List.mem_filter.mpr ⟨hd, by simpa using hother⟩
  · intro h j hj
    rcases (mem_written_allocatorInit hmap hinit).mp hj with htree | hmark
    · have hbytes := bytes_lt_storage hinit hmap
      unfold BUDDY_ALLOCATOR_SIZE at hbytes
      unfold BUDDY_HEAP_OFFSET
      omega
    · rcases List.mem_append.mp hmark with hown | hother
      · exact (marks_lt_iff (Nat.le_add_right _ _)).mpr (storage_marks_lt hmap hinit) j hown
      · obtain ⟨d, hd, hj⟩ := List.mem_flatMap.mp hother
        obtain ⟨hd, htype⟩ := List.mem_filter.mp hd
        exact (marks_lt_iff (Nat.le_add_right _ _)).mpr (h d hd (by simpa using htype)) j hj

theorem writes_inside_storage_fourPages : ∃ a, allocatorInit (fun _ => 0) fourPages = .ok a ∧
    ∀ j ∈ a.ba.written, BUDDY_HEAP_OFFSET + j < (a.pages_for_allocator + 1) * PAGE_SIZE := by
  obtain ⟨a, hinit, hinside⟩ : ∃ a, allocatorInit (fun _ => 0) fourPages = .ok a ∧
      ∀ d ∈ fourPages, d.type ≠ EFI_CONVENTIONAL_MEMORY →
        BUDDY_HEAP_OFFSET + (pageId d + d.pages + 2 ^ (uint64CeilLog2 a.n_pages - 1)) <
          (a.pages_for_allocator + 1) * PAGE_SIZE := exists_of_eval (by decide +kernel)
  exact ⟨a, hinit, ((writes_inside_storage_iff (by decide) hinit).mpr hinside).1⟩

def registersAbove : List MemoryDescriptor := [⟨7, 0x1000, 2⟩, ⟨11, 0xFEE00000, 1⟩]

/-- A mark for the registers is a megabyte beyond a tree of one page. -/
theorem marks_beyond_storage : WellFormed registersAbove ∧
    ∃ a, allocatorInit (fun _ => 0) registersAbove = .ok a ∧
      (a.pages_for_allocator + 1) * PAGE_SIZE = 4096 ∧
      ∃ j ∈ a.ba.written, 1043969 ≤ j ∧ (a.pages_for_allocator + 1) * PAGE_SIZE ≤ BUDDY_HEAP_OFFSET + j := by
  refine ⟨by decide, exists_of_eval ?_⟩
  decide +kernel

/-! ## 6. Blocks that are out -/

/-- Clients give back what they have, and it is then no longer out. -/
def poolStep (s : Heap) : HeapOp → Option Heap
  | .alloc n_pages => heapStep s (.alloc n_pages)
  | .free page_id => match buddyPageFree s.ba page_id with
    | .error _ => some s
    | .ok ba => some ⟨ba, s.returned.filter (·.1 ≠ page_id)⟩

def Apart (x y : Nat × Nat) : Prop := x.1 + x.2 ≤ y.1 ∨ y.1 + y.2 ≤ x.1

/-- The blocks of the list are those that are out of a tree over the pages of `U`. -/
structure PoolInv (L : Nat) (U : Nat → Prop) (s : Heap) (t : BuddyTree) : Prop where
  tree : Represents s.ba t
  level : s.ba.max_level = L
  owned : ∀ q, t.Owned L 0 q ↔ U q
  out : ∀ x, x ∈ s.returned ↔ ∃ k, x.2 = 2 ^ k ∧ t.Out L 0 k x.1
  apart : s.returned.Pairwise Apart

theorem PoolInv.alloc {L k p : Nat} {U : Nat → Prop} {s : Heap} {t t' : BuddyTree}
    (h : PoolInv L U s t) (hrep : Represents ba t') (hmax : ba.max_level = L)
    (htaken : Alloc L 0 t k p t') : PoolInv L U ⟨ba, (p, 2 ^ k) :: s.returned⟩ t' := by
  refine ⟨hrep, hmax, fun q => htaken.owned_iff.trans (h.owned q), fun x => ?_,
    List.pairwise_cons.mpr ⟨fun y hy => ?_, h.apart⟩⟩
  · rw [List.mem_cons, h.out, or_comm]
    simp only [htaken.out_iff, and_or_left, exists_or]
    refine or_congr Iff.rfl ⟨?_, ?_⟩
    · rintro rfl
      exact ⟨_, rfl, rfl, rfl⟩
    · rintro ⟨k, hk, rfl, hp⟩
      exact Prod.ext hp hk
  · -- the new block was free, so none of those that are out is the same
    obtain ⟨k, hk, hy⟩ := (h.out y).mp hy
    have hpos := Nat.two_pow_pos k
    rcases (htaken.out_iff.mpr (.inr ⟨rfl, rfl⟩)).apart (htaken.out_iff.mpr (.inl hy)) with
      ⟨rfl, rfl⟩ | hapart
    · exact absurd (htaken.freeBlock.free _ (Nat.le_refl _) (by omega))
        (hy.not_free (Nat.le_refl _) (by omega))
    · rwa [Apart, hk]

theorem PoolInv.step {L : Nat} {U : Nat → Prop} {s s' : Heap} {t : BuddyTree} {o : HeapOp}
    (h : PoolInv L U s t) (hok : PreviouslyAllocated s o) (hstep : poolStep s o = some s') :
    ∃ t', PoolInv L U s' t' := by
  obtain ⟨htree, rfl, howned, hout, hapart⟩ := id h
  cases o with
  | alloc n =>
    rcases buddyPageAlloc_cases htree n with ⟨ba, p, t', halloc, hrep, hmax, htaken⟩ | ⟨e, halloc, -⟩
    · simp only [poolStep, heapStep, halloc] at hstep
      cases hstep
      exact ⟨t', h.alloc hrep hmax htaken⟩
    · simp only [poolStep, heapStep, halloc] at hstep
      cases hstep
      exact ⟨t, h⟩
  | free p =>
    obtain ⟨n, hn⟩ := hok
    obtain ⟨k, -, hk⟩ := (hout _).mp hn
    obtain ⟨ba, hba⟩ := buddyPageFree_of_out htree hk
    obtain ⟨t', hrelease, hrep, hmax⟩ := buddyPageFree_release htree hba
    simp only [poolStep, hba] at hstep
    cases hstep
    have hpos := Nat.two_pow_pos k
    have hblock := hk.block
    have hfree : t'.Free s.ba.max_level 0 p := hrelease.free (by omega)
    refine ⟨t', hrep, hmax, fun q => hrelease.owned_iff.trans (howned q), fun x => ?_, hapart.filter _⟩
    simp only [List.mem_filter, hout, decide_eq_true_eq, hrelease.out_iff hk]
    constructor
    · rintro ⟨⟨k', hk', hx | ⟨-, hp⟩⟩, hne⟩
      · exact ⟨k', hk', hx⟩
      · exact absurd hp hne
    · rintro ⟨k', hk', hx⟩
      refine ⟨⟨k', hk', .inl hx⟩, ?_⟩
      rintro rfl
      exact hx.not_free (Nat.le_refl _) (Nat.lt_add_of_pos_right (Nat.two_pow_pos k')) hfree

theorem poolInv_of_run (hmap : WellFormed mmap) (hinit : allocatorInit junk mmap = .ok a)
    {os : List HeapOp} {s : Heap} (hrun : Run poolStep PreviouslyAllocated ⟨a.ba, []⟩ os s) :
    ∃ t, PoolInv a.ba.max_level (Usable mmap a) s t := by
  obtain ⟨-, hboot⟩ := allocatorInit_represents hmap hinit
  refine hrun.invariant (P := fun s => ∃ t, PoolInv a.ba.max_level (Usable mmap a) s t)
    ⟨_, hboot, rfl, fun q => ?_, fun x => ?_, .nil⟩ ?_
  · exact ofPages_owned_iff.trans (allocatorInit_free_iff hmap hinit)
  · -- at boot the tree owns what is free, so no block is out
    refine iff_of_false List.not_mem_nil ?_
    rintro ⟨k, -, hk⟩
    have hlt := Nat.lt_add_of_pos_right (n := x.1) (Nat.two_pow_pos k)
    refine hk.not_free (Nat.le_refl _) hlt (ofPages_owned_iff.mp ?_)
    exact (owned_iff (ofPages_fits _ _)).mpr (.inr ⟨k, x.1, hk, Nat.le_refl _, hlt⟩)
  · rintro s o s' ⟨t, ht⟩ hok hstep
    exact ht.step hok hstep

/-- A block is aligned to its size, made of usable pages, and can be given back. -/
structure BlockOk (mmap : List MemoryDescriptor) (a : Boot) (s : Heap) (x : Nat × Nat) : Prop where
  aligned : ∃ k, x.2 = 2 ^ k ∧ x.1 % 2 ^ k = 0
  usable : ∀ q, x.1 ≤ q → q < x.1 + x.2 → Usable mmap a q
  returns : ∃ ba, buddyPageFree s.ba x.1 = .ok ba

/-- **Blocks that are out are nobody else's.**  Along every run in which clients give back
    what they have, in any order, the blocks that are out are aligned, pairwise apart and of
    usable pages, and each of them can be given back. -/
theorem blocks_out_apart (hmap : WellFormed mmap) (hinit : allocatorInit junk mmap = .ok a)
    {os : List HeapOp} {s : Heap} (hrun : Run poolStep PreviouslyAllocated ⟨a.ba, []⟩ os s) :
    s.returned.Pairwise Apart ∧ ∀ x ∈ s.returned, BlockOk mmap a s x := by
  obtain ⟨t, htree, hlevel, howned, hout, hapart⟩ := poolInv_of_run hmap hinit hrun
  refine ⟨hapart, fun x hx => ?_⟩
  obtain ⟨k, hk, hxout⟩ := (hout x).mp hx
  obtain ⟨-, -, -, j, hj⟩ := hxout.block
  refine ⟨⟨k, hk, by rw [hj, Nat.zero_add, Nat.mul_mod_left]⟩, fun q hlow hhigh => ?_,
    buddyPageFree_of_out htree (hlevel ▸ hxout)⟩
  exact (howned q).mp ((owned_iff (hlevel ▸ htree.fits)).mpr (.inr ⟨k, x.1, hxout, hlow, hk ▸ hhigh⟩))

/-- The aligned block of `2 ^ k` pages at `p` is of usable pages, none of which is out. -/
def Vacant (mmap : List MemoryDescriptor) (a : Boot) (s : Heap) (k p : Nat) : Prop :=
  p % 2 ^ k = 0 ∧ ∀ q, p ≤ q → q < p + 2 ^ k →
    Usable mmap a q ∧ ∀ x ∈ s.returned, ¬ (x.1 ≤ q ∧ q < x.1 + x.2)

/-- **The allocator refuses only what is not there.**  Whatever was allocated and given back
    before, a request is answered exactly where an aligned block of its size is vacant. -/
theorem allocation_exact (hmap : WellFormed mmap) (hinit : allocatorInit junk mmap = .ok a)
    {os : List HeapOp} {s : Heap} (hrun : Run poolStep PreviouslyAllocated ⟨a.ba, []⟩ os s)
    {n : Nat} (hn : n ≠ 0) : (∃ ba p, buddyPageAlloc s.ba n = some (.ok (ba, p))) ↔
      ∃ p, Vacant mmap a s (uint64CeilLog2 n) p := by
  obtain ⟨t, htree, hlevel, howned, hout, -⟩ := poolInv_of_run hmap hinit hrun
  have hfits := htree.fits
  rw [hlevel] at hfits
  have hfree (q : Nat) : t.Free a.ba.max_level 0 q ↔
      Usable mmap a q ∧ ∀ x ∈ s.returned, ¬ (x.1 ≤ q ∧ q < x.1 + x.2) := by
    constructor
    · refine fun hq => ⟨(howned q).mp hq.owned, fun x hx hmem => ?_⟩
      obtain ⟨k, hk, hxout⟩ := (hout x).mp hx
      exact hxout.not_free hmem.1 (hk ▸ hmem.2) hq
    · rintro ⟨husable, hnot⟩
      rcases (owned_iff hfits).mp ((howned q).mpr husable) with hq | ⟨k, p, hk, hmem⟩
      · exact hq
      · exact absurd hmem (hnot (p, 2 ^ k) ((hout _).mpr ⟨k, rfl, hk⟩))
  rw [buddyPageAlloc_ok_iff htree hn, hlevel]
  refine exists_congr fun p => ⟨fun hp => ?_, fun hp => ?_⟩
  · obtain ⟨⟨j, hj⟩, hall⟩ := hp
    refine ⟨by rw [hj, Nat.zero_add, Nat.mul_mod_left], fun q hlow hhigh => ?_⟩
    exact (hfree q).mp (hall q hlow hhigh)
  · refine ⟨⟨p / 2 ^ uint64CeilLog2 n, ?_⟩, fun q hlow hhigh => (hfree q).mpr (hp.2 q hlow hhigh)⟩
    rw [Nat.zero_add, Nat.div_mul_cancel (Nat.dvd_of_mod_eq_zero hp.1)]

theorem poolRun_fourPages : ∃ a s, allocatorInit (fun _ => 0) fourPages = .ok a ∧
    Run poolStep PreviouslyAllocated ⟨a.ba, []⟩ [.alloc 1] s ∧ s.returned ≠ [] := by
  obtain ⟨a, hinit, hrun⟩ : ∃ a, allocatorInit (fun _ => 0) fourPages = .ok a ∧
      (poolStep ⟨a.ba, []⟩ (.alloc 1)).map (fun s => decide (s.returned ≠ [])) = some true :=
    exists_of_eval (by decide +kernel)
  obtain ⟨s, hs, hreturned⟩ := Option.map_eq_some_iff.mp hrun
  exact ⟨a, s, hinit, .cons trivial hs (.nil s), of_decide_eq_true hreturned⟩

theorem blocks_out_apart_fourPages : ∃ a s, allocatorInit (fun _ => 0) fourPages = .ok a ∧
    s.returned ≠ [] ∧ ∀ x ∈ s.returned, BlockOk fourPages a s x := by
  obtain ⟨a, s, hinit, hrun, hout⟩ := poolRun_fourPages
  exact ⟨a, s, hinit, hout, (blocks_out_apart (by decide) hinit hrun).2⟩

theorem allocation_exact_fourPages : ∃ a s, allocatorInit (fun _ => 0) fourPages = .ok a ∧
    s.returned ≠ [] ∧ ((∃ ba p, buddyPageAlloc s.ba 2 = some (.ok (ba, p))) ↔
      ∃ p, Vacant fourPages a s 1 p) := by
  obtain ⟨a, s, hinit, hrun, hout⟩ := poolRun_fourPages
  exact ⟨a, s, hinit, hout, allocation_exact (by decide) hinit hrun two_ne_zero⟩

end GovinDos.Allocator
