/-
  **What the memory system is for, and how its state is read that way.**

  `abs` reads a state of `Umem` in the terms of `Lib/Custody`: the map of a process is what
  its page tree says of every page, the master map is the kernel's tree, a block is held by
  its owner and by every process it has a share edge to, and between the two phases of
  `umem_free` by nobody.
-/
import GovinDos.Lib.Custody
import GovinDos.Umem

namespace GovinDos.Umem

open Paging PlatformMem Custody Function

/-! ## 1. Page trees as maps -/

def pagesOf (root : Table) (x : Nat) : Option Pte := if x < 512 ^ 4 then pageBits root x else none

def pageRange (lo hi : Nat) : Set Nat := { x | lo / PAGE_SIZE ≤ x ∧ x < hi / PAGE_SIZE }

theorem mem_pageRange {lo hi x : Nat} :
    x ∈ pageRange lo hi ↔ lo / PAGE_SIZE ≤ x ∧ x < hi / PAGE_SIZE := Iff.rfl

theorem flagsOk_of_leafFlagsToPte {flags : PagingFlags} {bits : Pte}
    (h : leafFlagsToPte flags = some bits) : FlagsOk flags := by
  unfold leafFlagsToPte at h
  by_cases hnone : flags &&& PAGE_ACCESS = 0
  · exact Or.inr hnone
  · rw [if_neg hnone] at h
    by_cases hr : flags &&& PAGE_R = 0
    · rw [if_pos hr] at h
      cases h
    · exact Or.inl hr

theorem asFlag_paint {as as' : AddressSpace} {lo hi : Nat} {flags : PagingFlags}
    (h : asFlag as lo hi flags = some as') (hroot : RootOk as.root) (hmax : hi ≤ 2 ^ 48) :
    RootOk as'.root ∧ as'.pins = as.pins ∧
      pagesOf as'.root = paint (pageRange lo hi) (hardwareBits flags) (pagesOf as.root) := by
  have h' := h
  rw [asFlag] at h'
  by_cases hguard : lo % PAGE_SIZE = 0 ∧ hi % PAGE_SIZE = 0 ∧ lo ≤ hi
  · rw [if_pos hguard] at h'
    by_cases hempty : lo = hi
    · rw [if_pos hempty] at h'
      cases h'
      refine ⟨hroot, rfl, funext fun x => ?_⟩
      rw [paint_not_mem]
      intro hx
      have := hx.1
      have := hx.2
      rw [hempty] at *
      omega
    · rw [if_neg hempty, Option.bind_eq_some_iff] at h'
      obtain ⟨bits, hbits, -⟩ := h'
      obtain ⟨as₁, has₁, hroot₁, -, hpins, hpages⟩ := asFlag_spec lo hi flags hroot hguard.1
        hguard.2.1 hguard.2.2 hmax (flagsOk_of_leafFlagsToPte hbits)
      rw [h] at has₁
      cases has₁
      refine ⟨hroot₁, hpins, funext fun x => ?_⟩
      unfold pagesOf
      by_cases hx : x < 512 ^ 4
      · rw [if_pos hx, hpages x hx]
        by_cases hxR : x ∈ pageRange lo hi
        · rw [if_pos (mem_pageRange.mp hxR), paint_mem hxR]
        · rw [if_neg (mt mem_pageRange.mpr hxR), paint_not_mem hxR, if_pos hx]
      · rw [if_neg hx, paint_not_mem, if_neg hx]
        rintro ⟨-, hxhi⟩
        have : hi / PAGE_SIZE ≤ 2 ^ 48 / PAGE_SIZE := Nat.div_le_div_right hmax
        rw [show 2 ^ 48 / PAGE_SIZE = 512 ^ 4 from rfl] at this
        omega
  · rw [if_neg hguard] at h'
    cases h'

/-! ## 2. The reading of a state -/

def holding (b : Ublock) : Holding Nat (Option Pte) Nat where
  pages := pageRange b.base (b.base + b.bytes)
  holders := { q | q = b.owner ∨ (b.sharers.get q).isSome }
  restore := hardwareBits b.kernel_flags

def vacant (b : Ublock) : Holding Nat (Option Pte) Nat := { holding b with holders := ∅ }

def mapOf (pr : Process) : Option (Nat → Option Pte) := pr.as.map fun as => pagesOf as.root

abbrev MemView := View Nat (Option Pte) Nat BlockId

def abs (s : State) : MemView where
  master := pagesOf s.g_as_kernel.root
  map := fun p => (s.g_procs.get p).bind mapOf
  block := fun id => ((s.heap.get id).map holding).or ((s.releasing.get id).map vacant)

def OwnsAt (s : State) (p base : Nat) (id : BlockId) : Prop :=
  ∃ b, s.heap.get id = some b ∧ b.base = base ∧ b.owner = p

def ViewsAt (s : State) (p base : Nat) (e : EdgeRef) : Prop :=
  e.to_ = p ∧ ∃ b, s.heap.get e.block = some b ∧ b.base = base ∧ (b.sharers.get p).isSome

structure Placed (b : Ublock) : Prop where
  pos : 0 < b.bytes
  base : b.base % PAGE_SIZE = 0
  bytes : b.bytes % PAGE_SIZE = 0
  low : b.base + b.bytes ≤ 2 ^ 48

theorem Placed.congr {b b' : Ublock} (h : Placed b) (hbase : b'.base = b.base)
    (hbytes : b'.bytes = b.bytes) : Placed b' :=
  ⟨hbytes ▸ h.pos, hbase ▸ h.base, hbytes ▸ h.bytes, hbase ▸ hbytes ▸ h.low⟩

structure Valid (s : State) : Prop where
  kernel : RootOk s.g_as_kernel.root
  tree : ∀ p pr as, s.g_procs.get p = some pr → pr.as = some as → RootOk as.root
  owned : ∀ p pr base id, s.g_procs.get p = some pr → pr.blocks.get base = some id →
    OwnsAt s p base id
  viewed : ∀ p pr base e, s.g_procs.get p = some pr → pr.views.get base = some e →
    ViewsAt s p base e
  placed : ∀ id b, s.heap.get id = some b → Placed b
  parked : ∀ id b, s.releasing.get id = some b → Placed b
  apart : ∀ id b, s.releasing.get id = some b → s.heap.get id = none

theorem Valid.low {s : State} {id : BlockId} {b : Ublock} (hv : Valid s)
    (hb : s.heap.get id = some b) : b.base + b.bytes ≤ 2 ^ 48 := (hv.placed id b hb).low

/-! ## 3. Elementary updates -/

section updates

variable {s s' : State} {p : Nat} {id : BlockId}

theorem abs_setProc (s : State) (p : Nat) (pr : Process) :
    abs (s.setProc p pr) = (abs s).setMap p (mapOf pr) := by
  rw [State.setProc, View.setMap, abs, abs]
  exact congrArg (fun m => View.mk _ m _) (by grind [update_apply])

theorem abs_setProc_of_as {pr : Process} (pr' : Process) (hp : s.g_procs.get p = some pr)
    (has : pr'.as = pr.as) : abs (s.setProc p pr') = abs s := by
  rw [abs_setProc]
  have hself : (abs s).map p = mapOf pr' := by
    rw [abs, mapOf, has]
    exact (congrArg (Option.bind · mapOf) hp).trans rfl
  rw [View.setMap, ← hself, update_eq_self]

theorem abs_setBlock (s : State) (id : BlockId) (b : Ublock) :
    abs (s.setBlock id b) = (abs s).setBlock id (some (holding b)) := by
  rw [State.setBlock, View.setBlock, abs, abs]
  exact congrArg (fun m => View.mk _ _ m) (by grind [update_apply])

theorem abs_map {pr : Process} {as : AddressSpace} (hp : s.g_procs.get p = some pr)
    (has : pr.as = some as) : (abs s).map p = some (pagesOf as.root) := by
  change (s.g_procs.get p).bind mapOf = _
  rw [hp, Option.bind_some, mapOf, has, Option.map_some]

theorem abs_block {b : Ublock} (hb : s.heap.get id = some b) :
    (abs s).block id = some (holding b) := by
  change ((s.heap.get id).map holding).or _ = _
  rw [hb, Option.map_some, Option.some_or]

theorem abs_block_eq_none (hheap : s.heap.get id = none) (hrel : s.releasing.get id = none) :
    (abs s).block id = none := by
  change ((s.heap.get id).map holding).or ((s.releasing.get id).map vacant) = _
  rw [hheap, hrel]
  rfl

theorem Valid.setProc {pr : Process} (hv : Valid s) (htree : ∀ as, pr.as = some as → RootOk as.root)
    (howned : ∀ base id, pr.blocks.get base = some id → OwnsAt s p base id)
    (hviewed : ∀ base e, pr.views.get base = some e → ViewsAt s p base e) :
    Valid (s.setProc p pr) where
  kernel := hv.kernel
  tree := by grind [State.setProc, hv.tree]
  owned := by grind [State.setProc, OwnsAt, → Valid.owned]
  viewed := by grind [State.setProc, ViewsAt, → Valid.viewed]
  placed := hv.placed
  parked := hv.parked
  apart := hv.apart

theorem Valid.setProc_of_sub {pr pr' : Process} (hv : Valid s) (hp : s.g_procs.get p = some pr)
    (has : pr'.as = pr.as)
    (hblocks : ∀ base id, pr'.blocks.get base = some id → pr.blocks.get base = some id)
    (hviews : ∀ base e, pr'.views.get base = some e → pr.views.get base = some e) :
    Valid (s.setProc p pr') :=
  hv.setProc (fun as h => hv.tree p pr as hp (has ▸ h))
    (fun base id h => hv.owned p pr base id hp (hblocks base id h))
    (fun base e h => hv.viewed p pr base e hp (hviews base e h))

theorem Valid.setBlock {b : Ublock} (hv : Valid s) (hplaced : Placed b)
    (hrel : s.releasing.get id = none)
    (howned : ∀ p pr base, s.g_procs.get p = some pr → pr.blocks.get base = some id →
      b.base = base ∧ b.owner = p)
    (hviewed : ∀ p pr base e, s.g_procs.get p = some pr → pr.views.get base = some e →
      e.block = id → b.base = base ∧ (b.sharers.get p).isSome) :
    Valid (s.setBlock id b) where
  kernel := hv.kernel
  tree := hv.tree
  owned := by grind [State.setBlock, OwnsAt, → Valid.owned]
  viewed := by grind [State.setBlock, ViewsAt, → Valid.viewed]
  placed := by grind [State.setBlock, hv.placed]
  parked := hv.parked
  apart := by grind [State.setBlock, hv.apart]

theorem Valid.releasing_none {b : Ublock} (hv : Valid s) (hb : s.heap.get id = some b) :
    s.releasing.get id = none := by
  cases hr : s.releasing.get id with
  | none => rfl
  | some b' =>
    rw [hv.apart id b' hr] at hb
    cases hb

end updates

/-! ## 4. Updates of page trees -/

section trees

variable {s s' : State} {p lo hi : Nat} {flags : PagingFlags}
  {f : AddressSpace → Option AddressSpace}

theorem withAs_eq_some (h : s.withAs p f = some s') :
    ∃ pr as as', s.g_procs.get p = some pr ∧ pr.as = some as ∧ f as = some as' ∧
      s' = s.setProc p { pr with as := some as' } := by
  simp only [State.withAs, Option.bind_eq_bind, Option.bind_eq_some_iff, Option.some.injEq] at h
  obtain ⟨pr, hp, as, has, as', hf, rfl⟩ := h
  exact ⟨pr, as, as', hp, has, hf, rfl⟩

theorem withAs_registry (t : State)
    (h : s.withAs p f = some s') (ht : t.g_procs = s.g_procs) :
    t.withAs p f = some { t with g_procs := s'.g_procs } ∧
      s' = { s with g_procs := s'.g_procs } := by
  obtain ⟨pr, as, as', hp, has, hf, rfl⟩ := withAs_eq_some h
  refine ⟨?_, rfl⟩
  have hset : t.setProc p { pr with as := some as' } =
      { t with g_procs := (s.setProc p { pr with as := some as' }).g_procs } := by
    rw [State.setProc, ht]
    rfl
  rw [← hset, State.withAs, ht, hp, Option.bind_eq_bind, Option.bind_some, has,
    Option.bind_eq_bind, Option.bind_some, hf]
  rfl

theorem withAs_spec
    (g : (Nat → Option Pte) → Nat → Option Pte) (h : s.withAs p f = some s') (hv : Valid s)
    (hf : ∀ as as', f as = some as' → RootOk as.root →
      RootOk as'.root ∧ pagesOf as'.root = g (pagesOf as.root)) :
    Valid s' ∧ abs s' = (abs s).setMap p (((abs s).map p).map g) ∧
      ∃ pr as', s.g_procs.get p = some pr ∧ s' = s.setProc p { pr with as := some as' } := by
  obtain ⟨pr, as, as', hp, has, hfas, rfl⟩ := withAs_eq_some h
  obtain ⟨hroot, hpages⟩ := hf as as' hfas (hv.tree p pr as hp has)
  refine ⟨?_, ?_, pr, as', hp, rfl⟩
  · refine hv.setProc ?_ (fun base id => hv.owned p pr base id hp)
      (fun base e => hv.viewed p pr base e hp)
    rintro _ ⟨⟩
    exact hroot
  · rw [abs_setProc, abs_map hp has, Option.map_some, ← hpages]
    rfl

theorem reflag_spec (h : s.reflag p lo hi flags = some s') (hv : Valid s) (hmax : hi ≤ 2 ^ 48) :
    Valid s' ∧ abs s' = (abs s).paint p (pageRange lo hi) (hardwareBits flags) ∧
      ∃ pr as', s.g_procs.get p = some pr ∧ s' = s.setProc p { pr with as := some as' } := by
  refine withAs_spec (paint (pageRange lo hi) (hardwareBits flags)) h hv ?_
  intro as as' hflag hroot
  obtain ⟨as₁, has₁, rfl⟩ := Option.map_eq_some_iff.mp hflag
  have := asFlag_paint has₁ hroot hmax
  exact ⟨this.1, this.2.2⟩

end trees

/-! ## 5. The block of a range -/

section lookup

variable {s : State} {pr : Process} {addr : Nat} {id : BlockId}

/-- The trees of a process are keyed by the bases of live blocks, which end below `2 ^
    64`. -/
structure Indexed (s : State) (pr : Process) : Prop where
  owned : ∀ base id, pr.blocks.get base = some id →
    ∃ b, s.heap.get id = some b ∧ b.base = base ∧ 0 < b.bytes ∧ b.base + b.bytes < 2 ^ 64
  viewed : ∀ base e, pr.views.get base = some e →
    ∃ b, s.heap.get e.block = some b ∧ b.base = base ∧ 0 < b.bytes ∧ b.base + b.bytes < 2 ^ 64

theorem Valid.indexed {p : Nat} (hv : Valid s) (hp : s.g_procs.get p = some pr) : Indexed s pr := by
  have hplaced : ∀ id b, s.heap.get id = some b → 0 < b.bytes ∧ b.base + b.bytes < 2 ^ 64 := by
    intro id b hb
    exact ⟨(hv.placed id b hb).pos, (hv.low hb).trans_lt (by decide)⟩
  constructor
  · intro base id hid
    obtain ⟨b, hb, hbase, -⟩ := hv.owned p pr base id hp hid
    exact ⟨b, hb, hbase, hplaced id b hb⟩
  · intro base e he
    obtain ⟨-, b, hb, hbase, -⟩ := hv.viewed p pr base e hp he
    exact ⟨b, hb, hbase, hplaced e.block b hb⟩

def Held (pr : Process) (id : BlockId) : Prop :=
  (∃ base, pr.blocks.get base = some id) ∨ ∃ base e, pr.views.get base = some e ∧ e.block = id

def HeldApart (s : State) (pr : Process) : Prop :=
  ∀ id id' b b', Held pr id → Held pr id' → id ≠ id' → s.heap.get id = some b →
    s.heap.get id' = some b' → b.base + b.bytes ≤ b'.base ∨ b'.base + b'.bytes ≤ b.base

def HeldAround (s : State) (pr : Process) (addr len : Nat) (id : BlockId) : Prop :=
  Held pr id ∧ 0 < len ∧ addr + len < 2 ^ 64 ∧
    ∃ b, s.heap.get id = some b ∧ b.base ≤ addr ∧ addr + len ≤ b.base + b.bytes

theorem HeldApart.eq_of_meet {id' : BlockId} {b b' : Ublock} (h : HeldApart s pr) (hid : Held pr id)
    (hid' : Held pr id') (hb : s.heap.get id = some b) (hb' : s.heap.get id' = some b')
    (hlo : b.base < b'.base + b'.bytes) (hhi : b'.base < b.base + b.bytes) : id' = id := by
  by_contra hne
  rcases h id id' b b' hid hid' (Ne.symm hne) hb hb' with hle | hle
  · omega
  · omega

theorem HeldApart.floor_around {V : Type} {m : OrdMap Nat V} {g : V → BlockId} {base : Nat} {v : V}
    {c : Ublock} (hapart : HeldApart s pr)
    (hm : ∀ base v, m.get base = some v → Held pr (g v) ∧
      ∃ b, s.heap.get (g v) = some b ∧ b.base = base ∧ 0 < b.bytes)
    (hv : m.get base = some v) (hc : s.heap.get (g v) = some c) (hlo : c.base ≤ addr)
    (hhi : addr < c.base + c.bytes) : ∃ k f, m.floor addr = some (k, f) ∧ g f = g v := by
  obtain ⟨hheld, c', hc', hbase, -⟩ := hm base v hv
  cases hc.symm.trans hc'
  obtain ⟨⟨k, f⟩, hfloor, hle⟩ := OrdMap.exists_floor hv (hbase ▸ hlo)
  obtain ⟨hget, hk⟩ := OrdMap.get_of_floor hfloor
  obtain ⟨hheld', b, hb, hbk, hpos⟩ := hm k f hget
  have hle : base ≤ k := hle
  exact ⟨k, f, hfloor, hapart.eq_of_meet hheld hheld' hc hb (by omega) (by omega)⟩

theorem Ublock.end_eq {b : Ublock} (hfits : b.base + b.bytes < 2 ^ 64) :
    b.end_ = b.base + b.bytes := Nat.mod_eq_of_lt hfits

theorem Indexed.viewedLocked_eq (h : Indexed s pr) (hapart : HeldApart s pr) {addr len : Nat}
    (hlen : 0 < len) (hwrap : addr + len < 2 ^ 64) :
    ∃ r, viewedLocked s pr addr len = some r ∧ (∀ id, r = some id → HeldAround s pr addr len id) ∧
      ∀ base e, pr.views.get base = some e → HeldAround s pr addr len e.block →
        r = some e.block := by
  have hfinds : ∀ base e, pr.views.get base = some e → HeldAround s pr addr len e.block →
      ∃ k f, pr.views.floor addr = some (k, f) ∧ f.block = e.block := by
    rintro base e he ⟨-, -, -, c, hc, hlo, hhi⟩
    refine hapart.floor_around (fun base f hf => ⟨.inr ⟨base, f, hf, rfl⟩, ?_⟩) he hc hlo (by omega)
    obtain ⟨b, hb, hbase, hpos, -⟩ := h.viewed base f hf
    exact ⟨b, hb, hbase, hpos⟩
  unfold viewedLocked
  cases hfloor : pr.views.floor addr with
  | none =>
    refine ⟨none, rfl, ?_, ?_⟩
    · intro id hr
      cases hr
    · intro base e he haround
      obtain ⟨k, f, hf, -⟩ := hfinds base e he haround
      cases hfloor.symm.trans hf
  | some x =>
    obtain ⟨k, f⟩ := x
    obtain ⟨hget, hk⟩ := OrdMap.get_of_floor hfloor
    obtain ⟨b, hb, hbase, -, hfits⟩ := h.viewed k f hget
    refine ⟨_, by simp only [hb]; rfl, ?_, ?_⟩
    · intro id hr
      split at hr
      · rename_i hle
        cases hr
        rw [Ublock.end_eq hfits] at hle
        exact ⟨.inr ⟨k, f, hget, rfl⟩, hlen, hwrap, b, hb, hbase ▸ hk, hle⟩
      · cases hr
    · intro base e he haround
      obtain ⟨k', f', hf, hsame⟩ := hfinds base e he haround
      cases hfloor.symm.trans hf
      obtain ⟨-, -, -, c, hc, -, hhi⟩ := haround
      rw [← hsame] at hc
      cases hb.symm.trans hc
      rw [if_pos (by rw [Ublock.end_eq hfits]; exact hhi), hsame]

theorem Indexed.umemViewLocked_eq (h : Indexed s pr) (hapart : HeldApart s pr) (addr len : Nat) :
    ∃ r, umemViewLocked s pr addr len = some r ∧ ∀ id, r = some id ↔ HeldAround s pr addr len id := by
  unfold umemViewLocked
  split
  · rename_i hguard
    refine ⟨none, rfl, fun id => iff_of_false (by simp) ?_⟩
    rintro ⟨-, hlen, hwrap, -⟩
    omega
  rename_i hguard
  have hlen : 0 < len := by omega
  have hwrap : addr + len < 2 ^ 64 := by omega
  obtain ⟨r, hr, hsound, hviews⟩ := h.viewedLocked_eq hapart hlen hwrap
  have hfinds : ∀ base id, pr.blocks.get base = some id → HeldAround s pr addr len id →
      ∃ k, pr.blocks.floor addr = some (k, id) := by
    rintro base id hid ⟨-, -, -, c, hc, hlo, hhi⟩
    obtain ⟨k, f, hf, rfl⟩ := hapart.floor_around (m := pr.blocks) (g := fun id => id)
      (fun base f hf => ⟨.inl ⟨base, hf⟩, by
        obtain ⟨b, hb, hbase, hpos, -⟩ := h.owned base f hf
        exact ⟨b, hb, hbase, hpos⟩⟩) hid hc hlo (by omega)
    exact ⟨k, hf⟩
  -- where the owned block does not contain the range, the views decide
  have hrest : (∀ base id, pr.blocks.get base = some id → ¬ HeldAround s pr addr len id) →
      ∀ id, r = some id ↔ HeldAround s pr addr len id := by
    intro hnot id
    refine ⟨hsound id, fun haround => ?_⟩
    rcases haround.1 with ⟨base, hid⟩ | ⟨base, e, he, rfl⟩
    · exact absurd haround (hnot base id hid)
    · exact hviews base e he haround
  cases hfloor : pr.blocks.floor addr with
  | none =>
    refine ⟨r, hr, hrest fun base id hid haround => ?_⟩
    obtain ⟨k, hk⟩ := hfinds base id hid haround
    cases hfloor.symm.trans hk
  | some x =>
    obtain ⟨k, f⟩ := x
    obtain ⟨hget, hk⟩ := OrdMap.get_of_floor hfloor
    obtain ⟨b, hb, hbase, -, hfits⟩ := h.owned k f hget
    simp only [hb, Option.bind_eq_bind, Option.bind_some, Ublock.end_eq hfits]
    split
    · rename_i hle
      have hown : HeldAround s pr addr len f :=
        ⟨.inl ⟨k, hget⟩, hlen, hwrap, b, hb, hbase ▸ hk, hle⟩
      refine ⟨some f, by rw [umemOwnedLocked, hbase, hget]; rfl, fun id => ?_⟩
      constructor
      · rintro ⟨⟩
        exact hown
      · rintro ⟨hheld, hlen, -, c, hc, hlo, hhi⟩
        rw [hapart.eq_of_meet hheld hown.1 hc hb (by omega) (by omega)]
    · rename_i hout
      refine ⟨r, hr, hrest fun base id hid haround => ?_⟩
      obtain ⟨k', hk'⟩ := hfinds base id hid haround
      cases hfloor.symm.trans hk'
      obtain ⟨-, -, -, c, hc, -, hhi⟩ := haround
      cases hb.symm.trans hc
      exact hout hhi

/-- **`umem_view_locked` finds exactly the block around the range.**  Where the blocks that
    the process holds are apart, the call returns the pointer of the record in the owner's
    tree exactly when a block that is owned or viewed contains the whole range, which is
    not empty and does not wrap. -/
theorem umemViewLocked_finds (s : State) (pr : Process) (addr len : Nat) (h : Indexed s pr)
    (hapart : HeldApart s pr) :
    (umemViewLocked s pr addr len).isSome ∧
    ∀ id, umemViewLocked s pr addr len = some (some id) ↔ HeldAround s pr addr len id := by
  obtain ⟨r, hr, hiff⟩ := h.umemViewLocked_eq hapart addr len
  rw [hr]
  exact ⟨rfl, fun id => by rw [Option.some_inj]; exact hiff id⟩

def pageAt (base owner : Nat) : Ublock :=
  { base := base, order := 0, bytes := PAGE_SIZE, backing := .RAM, device_flags := 0,
    kernel_flags := PAGE_KERNEL_PRISTINE, delegatable := true, owner := owner, sharers := .empty,
    ring := false, dma_maps := false, thread_pins := 0 }

def twoPages : State where
  g_as_kernel := asIdentityMapping
  g_procs := .empty
  heap := (OrdMap.empty.set 7 (pageAt 0x1000 1)).set 9 (pageAt 0x2000 2)
  g_ublocks := .empty
  releasing := .empty
  g_next_pid := 3

def ownerAndViewer : Process where
  parent := none
  dead := false
  as := none
  children := .empty
  nthreads := 1
  blocks := OrdMap.empty.set 0x1000 7
  views := OrdMap.empty.set 0x2000 ⟨9, 1⟩
  unnotified := []

theorem umemViewLocked_finds_view :
    umemViewLocked twoPages ownerAndViewer 0x2F00 0x100 = some (some 9) ∧
    umemViewLocked twoPages ownerAndViewer 0x1FFF 2 ≠ some (some 7) := by
  have h7 : twoPages.heap.get 7 = some (pageAt 0x1000 1) := by decide
  have h9 : twoPages.heap.get 9 = some (pageAt 0x2000 2) := by decide
  have hindexed : Indexed twoPages ownerAndViewer := by
    constructor
    · intro base id hid
      obtain ⟨rfl, rfl⟩ : 0x1000 = base ∧ 7 = id := by
        grind [ownerAndViewer]
      exact ⟨_, h7, rfl, by decide, by decide⟩
    · intro base e he
      obtain ⟨rfl, rfl⟩ : 0x2000 = base ∧ (⟨9, 1⟩ : EdgeRef) = e := by
        grind [ownerAndViewer]
      exact ⟨_, h9, rfl, by decide, by decide⟩
  have hheld : ∀ id, Held ownerAndViewer id → id = 7 ∨ id = 9 := by
    grind [Held, ownerAndViewer]
  have hapart : HeldApart twoPages ownerAndViewer := by
    intro id id' b b' hid hid' hne hb hb'
    rcases hheld id hid with rfl | rfl <;> rcases hheld id' hid' with rfl | rfl
    · exact absurd rfl hne
    · cases h7.symm.trans hb
      cases h9.symm.trans hb'
      exact .inl (by decide)
    · cases h9.symm.trans hb
      cases h7.symm.trans hb'
      exact .inr (by decide)
    · exact absurd rfl hne
  constructor
  · refine ((umemViewLocked_finds _ _ _ _ hindexed hapart).2 9).mpr ?_
    exact ⟨.inr ⟨0x2000, ⟨9, 1⟩, by decide, rfl⟩, by decide, by decide, _, h9, by decide, by decide⟩
  · intro hfound
    obtain ⟨-, -, -, b, hb, -, hhi⟩ := ((umemViewLocked_finds _ _ _ _ hindexed hapart).2 7).mp hfound
    cases h7.symm.trans hb
    revert hhi
    decide

end lookup

end GovinDos.Umem
