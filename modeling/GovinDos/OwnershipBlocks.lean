/-
  **Blocks appear, change hands and go (`kernel/src/umem.c`, `channel.c`).**

  Each section keeps `Ok`, runs to its end and says who may gain a block by it.  Assumed of
  the allocators are a fresh node, and a range that no live block has.
-/
import GovinDos.OwnershipGraph

namespace GovinDos.Ownership

open LinkedList Announcement Paging Function
open Umem (BlockId EdgeRef Backing)

section

variable {g g' : State} {id : BlockId} {p base len n pins dst : Nat} {b : Ublock}
  {o : Board EdgeRef Nat}

/-! ## 1. A new block -/

structure Fresh (g : State) (id : BlockId) (base bytes : Nat) : Prop where
  node : g.heap id = none
  idle : g.releasing id = none
  sized : 0 < bytes
  apart : ∀ id' b', g.heap id' = some b' → base + bytes ≤ b'.base ∨ b'.base + b'.bytes ≤ base

def State.publish (g : State) (id : BlockId) (b : Ublock) : State :=
  { (g.setMem b.owner { g.mem b.owner with
      blocks := (g.mem b.owner).blocks.set b.base id }).addBlock id b with
    g_ublocks := g.g_ublocks.set b.base id }

section

variable {id : BlockId} {b : Ublock}

theorem Fresh.base_ne (h : Fresh g id b.base b.bytes) (hc : Core g) {id' : BlockId} {b' : Ublock}
    (hb' : g.heap id' = some b') : b'.base ≠ b.base := by
  intro heq
  have hsize := h.sized
  have hsize' := hc.sized id' b' hb'
  rcases h.apart id' b' hb' with hle | hle <;> omega

theorem Fresh.blocks_get (h : Fresh g id b.base b.bytes) (hc : Core g) (p : Nat) :
    (g.mem p).blocks.get b.base = none := by
  rw [Option.eq_none_iff_forall_ne_some]
  intro id' hid'
  obtain ⟨b', hb', -, hbase⟩ := (hc.owned p b.base id').mp hid'
  exact h.base_ne hc hb' hbase

theorem Fresh.g_ublocks_get (h : Fresh g id b.base b.bytes) (hc : Core g) :
    g.g_ublocks.get b.base = none := by
  rw [Option.eq_none_iff_forall_ne_some]
  intro id' hid'
  obtain ⟨b', hb', hbase⟩ := (hc.indexed b.base id').mp hid'
  exact h.base_ne hc hb' hbase

theorem Fresh.edge_eq_none (h : Fresh g id b.base b.bytes) (hc : Core g) (q : Nat) :
    g.edge ⟨id, q⟩ = none := by
  have hedged := hc.edged ⟨id, q⟩
  rw [h.node] at hedged
  simpa using hedged

@[grind =] theorem heap_publish (id' : BlockId) :
    (g.publish id b).heap id' = if id' = id then some b else g.heap id' := by
  simp only [State.publish, State.addBlock, State.setBlock, State.setMem, update_apply]

@[grind =] theorem mem_publish (p : Nat) : (g.publish id b).mem p =
    { g.mem p with blocks :=
        if p = b.owner then (g.mem p).blocks.set b.base id else (g.mem p).blocks } := by
  by_cases hp : p = b.owner
  · subst hp
    simp [State.publish, State.addBlock, State.setBlock, State.setMem]
  · simp [State.publish, State.addBlock, State.setBlock, State.setMem, hp]

theorem Fresh.edge_publish (h : Fresh g id b.base b.bytes) (hc : Core g) (e : EdgeRef) :
    (g.publish id b).edge e = g.edge e := by
  obtain ⟨id', q⟩ := e
  by_cases hid : id' = id
  · subst hid
    rw [h.edge_eq_none hc q]
    simp [State.publish, State.addBlock, State.edge]
  · simp [State.publish, State.addBlock, State.setBlock, State.setMem, State.edge, hid]

theorem Fresh.sameEdges (h : Fresh g id b.base b.bytes) (hc : Core g) :
    SameEdges g (g.publish id b) where
  edge := h.edge_publish hc
  head q := by rw [mem_publish]
  tail q := by rw [mem_publish]

theorem Core.publish (hc : Core g) (h : Fresh g id b.base b.bytes) (hring : b.ring = none)
    (has : (g.mem b.owner).as.isSome) : Core (g.publish id b) := by
  have hnew (e : EdgeRef) (he : e.block = id) : g.edge e = none := by
    rw [← h.edge_eq_none hc e.to_, ← he]
  have hindex (base : Nat) : (g.publish id b).g_ublocks.get base =
    if base = b.base then some id else g.g_ublocks.get base := OrdMap.get_set ..
  have hnode := h.node
  constructor
  case owned =>
    intro p base id'
    have hbase (b' : Ublock) (hb' : g.heap id' = some b') : b'.base ≠ b.base := h.base_ne hc hb'
    grind [hc.owned p base id']
  case indexed => grind [Core.indexed, h.base_ne hc]
  case viewed => grind [Core.viewed, h.edge_publish hc]
  case edged => grind [Core.edged, h.edge_publish hc]
  case noself => grind [Core.noself, h.edge_publish hc]
  case apart => grind [Core.apart, h.apart, Apart]
  case sized => grind [Core.sized, h.sized]
  case anchored => exact fun p sc id' => by grind [hc.anchored p sc id']
  case hasAs => grind [Core.hasAs]

theorem Ok.publish (ho : Ok g) (h : Fresh g id b.base b.bytes) (hring : b.ring = none)
    (has : (g.mem b.owner).as.isSome) : Change (Only b.owner) Nobody g (g.publish id b) where
  ok := by
    refine ⟨ho.core.publish h hring has, (h.sameEdges ho.core).pending ho.pending, fun p => ?_,
      fun id' hid' => ?_⟩
    · exact (ho.pinned p).congr rfl (by rw [mem_publish])
    · change g.releasing id' = none
      grind [ho.parked id', h.idle]
  steady id' b' hb' := by grind [h.node]
  blocks p base _ hp hg := by grind [Only]
  views p base _ _ hg := by grind
  as p := by rw [mem_publish]

theorem Ok.publishKept (ho : Ok g) (h : Fresh g id b.base b.bytes) (hring : b.ring = none)
    (hpins : b.thread_pins = 0) (has : (g.mem b.owner).as.isSome) :
    Kept (Only b.owner) Nobody g (g.publish id b) := by
  refine ⟨ho.publish h hring has, fun id' => ?_, rfl, fun id' b' hb' => ?_⟩
  · grind [pinsOf, h.node]
  · grind [h.node]

end

theorem umemAllocPublish_spec (h : Ok g) {p base order : Nat}
    (hfresh : Fresh g id base (PAGE_SIZE * 2 ^ order)) (has : (g.mem p).as.isSome) :
    ∃ g', umemAllocPublish g p base order id = .ok g' ∧ Kept (Only p) Nobody g g' ∧
      SameEdges g g' := by
  let b : Ublock := ⟨base, order, PAGE_SIZE * 2 ^ order, .RAM, 0, true, p, none, 0, 0⟩
  have hb : Fresh g id b.base b.bytes := hfresh
  refine ⟨g.publish id b, ?_, h.publishKept hb rfl rfl has, hb.sameEdges h.core⟩
  have hget : (g.mem p).blocks.get base = none := hb.blocks_get h.core p
  have hget' : g.g_ublocks.get base = none := hb.g_ublocks_get h.core
  simp only [umemAllocPublish, OrdMap.insert_of_get_none hget, assertSome, bind, Except.bind,
    State.addBlock, State.setBlock, State.setMem, OrdMap.insert_of_get_none hget']
  rfl

theorem deviceOverlap_apart (h : Core g)
    (ho : deviceOverlap g base (base + len) = false)
    (hram : ∀ id b, g.heap id = some b → b.backing = .RAM →
      base + len ≤ b.base ∨ b.base + b.bytes ≤ base)
    (hb : g.heap id = some b) : base + len ≤ b.base ∨ b.base + b.bytes ≤ base := by
  cases hback : b.backing with
  | RAM => exact hram id b hb hback
  | DEVICE =>
    have hmem : (b.base, id) ∈ g.g_ublocks.entries :=
      OrdMap.get_eq_some_iff.mp ((h.indexed b.base id).mpr ⟨b, hb, rfl⟩)
    have hno := (List.any_eq_false.mp ho) _ hmem
    simp only [hb, hback, decide_true, Bool.true_and, Bool.and_eq_true, decide_eq_true_eq] at hno
    omega

theorem umemMapDeviceLocked_spec (pl : PlatformMem.Platform) (h : Ok g)
    (flags : BitVec 32) (node : Option BlockId)
    (hnode : ∀ id, node = some id → g.heap id = none ∧ g.releasing id = none)
    (hram : ∀ id b, g.heap id = some b → b.backing = .RAM →
      base + len ≤ b.base ∨ b.base + b.bytes ≤ base) (has : (g.mem p).as.isSome) :
    ∃ g' r, umemMapDeviceLocked pl g p base len flags node = .ok (g', r) ∧
      Kept (Only p) Nobody g g' ∧ SameEdges g g' := by
  unfold umemMapDeviceLocked
  split
  · exact ⟨g, _, rfl, .refl h, .refl g⟩
  rename_i kernel_flags delegatable hvalid
  have hlen : 0 < len :=
    Nat.pos_of_ne_zero (PlatformMem.platformMemValidateDevice_some hvalid).nonempty
  split
  · exact ⟨g, _, rfl, .refl h, .refl g⟩
  rename_i ho
  split
  · exact ⟨g, _, rfl, .refl h, .refl g⟩
  rename_i id
  let b : Ublock := ⟨base, 0, len, .DEVICE, Umem.deviceFlags flags, delegatable, p, none, 0, 0⟩
  have hb : Fresh g id b.base b.bytes := ⟨(hnode id rfl).1, (hnode id rfl).2, hlen,
    fun id' b' hb' => deviceOverlap_apart h.core (by simpa using ho) hram hb'⟩
  have hget : (g.mem p).blocks.get base = none := hb.blocks_get h.core p
  have hget' : g.g_ublocks.get base = none := hb.g_ublocks_get h.core
  obtain ⟨n, hn⟩ := Option.isSome_iff_exists.mp has
  refine ⟨g.publish id b, .ok 0, ?_, h.publishKept hb rfl rfl has, hb.sameEdges h.core⟩
  simp only [OrdMap.insert_of_get_none hget, hn, deref, assertSome, bind, Except.bind,
    State.addBlock, State.setBlock, State.setMem, OrdMap.insert_of_get_none hget']
  simp only [State.publish, State.addBlock, State.setBlock, State.setMem, b, hn]
  rfl

/-! ## 2. A block goes -/

theorem Core.retire (h : Core g) (hb : g.heap id = some b)
    (hnone : ∀ q, g.edge ⟨id, q⟩ = none)
    (hheap : ∀ id', g'.heap id' = if id' = id then none else g.heap id')
    (hindex : ∀ base, g'.g_ublocks.get base = if base = b.base then none else g.g_ublocks.get base)
    (hblocks : ∀ p base, (g'.mem p).blocks.get base =
      if p = b.owner ∧ base = b.base then none else (g.mem p).blocks.get base)
    (hviews : ∀ p, (g'.mem p).views = (g.mem p).views)
    (hanchor : ∀ p sc, (g'.mem p).anchor sc =
      if p = b.owner ∧ b.ring = some sc then none else (g.mem p).anchor sc)
    (has : ∀ p, (g'.mem p).as.isSome = (g.mem p).as.isSome) (hedge : ∀ e, g'.edge e = g.edge e) :
    Core g' := by
  have hgone (e : EdgeRef) (he : e.block = id) : g.edge e = none := by
    rw [← hnone e.to_, ← he]
  constructor
  case owned => grind [Core.owned, h.base_inj hb]
  case indexed => grind [Core.indexed, h.base_inj hb]
  case viewed => grind [Core.viewed]
  case edged => grind [Core.edged]
  case noself => grind [Core.noself]
  case apart => grind [Core.apart]
  case sized => grind [Core.sized]
  case anchored =>
    -- an anchor names one block
    exact fun p sc id' => by grind [h.anchored p sc id', h.anchored p sc id]
  case hasAs => exact fun p base => by grind [h.hasAs p base]

theorem channelRingDestroy_spec (h : Core g) (hb : g.heap id = some b)
    (g₀ : State) (hanchor : (g₀.mem b.owner).anchor = (g.mem b.owner).anchor) :
    ∃ anchor, channelRingDestroy g₀ id b = .ok (g₀.setMem b.owner { g₀.mem b.owner with
        anchor := anchor }) ∧
      ∀ sc, anchor sc = if b.ring = some sc then none else (g.mem b.owner).anchor sc := by
  have hsame : g₀.setMem b.owner { g₀.mem b.owner with anchor := (g₀.mem b.owner).anchor } = g₀ := by
    simp [State.setMem]
  cases hring : b.ring with
  | none =>
    refine ⟨(g₀.mem b.owner).anchor, ?_, fun sc => by rw [hanchor]; rfl⟩
    rw [hsame]
    simp [channelRingDestroy, hring, pure, Except.pure]
  | some sc =>
    have hthis := h.anchored b.owner sc id
    cases hsc : sc.anchored with
    | true =>
      refine ⟨update (g₀.mem b.owner).anchor sc none, ?_, fun sc' => ?_⟩
      · simp [channelRingDestroy, hring, hsc, hanchor, hthis.mpr ⟨hsc, b, hb, rfl, hring⟩, asserts,
          bind, Except.bind, pure, Except.pure]
      · grind [update_apply]
    | false =>
      refine ⟨(g₀.mem b.owner).anchor, ?_, fun sc' => ?_⟩
      · rw [hsame]
        simp [channelRingDestroy, hring, hsc, pure, Except.pure]
      · have hnone : (g.mem b.owner).anchor sc = none := by
          rw [Option.eq_none_iff_forall_ne_some]
          grind [h.anchored b.owner sc]
        grind

theorem Pinned.add (h : Pinned g p)
    (hid : g.releasing id = none) (hn : (g.mem p).as = some n)
    (hreleasing : g'.releasing = update g.releasing id (some p))
    (has : (g'.mem p).as = some (n + 1)) : Pinned g' p := by
  obtain ⟨l, hl, hmem, hlen, -⟩ := h
  have hnew : id ∉ l := by simp [hmem, hid]
  refine ⟨id :: l, List.nodup_cons.mpr ⟨hnew, hl⟩, fun id' => ?_, fun m hm => ?_, fun _ => ?_⟩
  · rw [List.mem_cons, hmem, hreleasing, update_apply]
    grind
  · rw [has, Option.some_inj] at hm
    rw [← hm, hlen n hn, List.length_cons]
  · rw [has]
    rfl

theorem Pinned.remove (h : Pinned g p) (hid : g.releasing id = some p) :
    ∃ n, (g.mem p).as = some (n + 1) ∧ ∀ g' : State,
      g'.releasing = update g.releasing id none → (g'.mem p).as = some n →
      Pinned g' p := by
  obtain ⟨l, hl, hmem, hlen, hsome⟩ := h
  have hin : id ∈ l := (hmem id).mpr hid
  obtain ⟨m, hm⟩ := Option.isSome_iff_exists.mp (hsome (List.ne_nil_of_mem hin))
  have hpos := List.length_pos_of_mem hin
  have hm' := hlen m hm
  refine ⟨m - 1, by rw [hm]; congr 1; omega, fun g' hreleasing has => ?_⟩
  refine ⟨l.erase id, hl.erase id, fun id' => ?_, fun k hk => ?_, fun _ => by rw [has]; rfl⟩
  · rw [hl.mem_erase_iff, hmem, hreleasing, update_apply]
    by_cases hid' : id' = id <;> simp [hid']
  · rw [has, Option.some_inj] at hk
    rw [List.length_erase_of_mem hin]
    omega

theorem Pinned.other (h : Pinned g p) (id : BlockId) (o : Option Nat)
    (hid : g.releasing id ≠ some p) (ho : o ≠ some p)
    (hreleasing : g'.releasing = update g.releasing id o)
    (has : (g'.mem p).as = (g.mem p).as) : Pinned g' p := by
  obtain ⟨l, hl, hmem, hlen, hsome⟩ := h
  refine ⟨l, hl, fun id' => ?_, by rwa [has], by rwa [has]⟩
  rw [hmem, hreleasing, update_apply]
  by_cases hid' : id' = id <;> simp [hid', hid, ho]

/-- A release of the block has begun: the block is gone, its owner's address space pinned. -/
def State.retire (g : State) (id : BlockId) (b : Ublock) (anchor : Scheme → Option BlockId)
    (pins : Nat) : State :=
  { g.setMem b.owner { g.mem b.owner with
      as := some (pins + 1), blocks := (g.mem b.owner).blocks.erase b.base, anchor := anchor } with
    heap := Function.update g.heap id none
    g_ublocks := g.g_ublocks.erase b.base
    releasing := Function.update g.releasing id (some b.owner) }

theorem mem_retire {anchor : Scheme → Option BlockId}
    (p : Nat) : (g.retire id b anchor pins).mem p = if p = b.owner then { g.mem p with
      as := some (pins + 1), blocks := (g.mem p).blocks.erase b.base, anchor := anchor }
      else g.mem p := by
  by_cases hp : p = b.owner <;> simp [State.retire, State.setMem, hp]

theorem SameEdges.retire {anchor : Scheme → Option BlockId} :
    SameEdges g (g.retire id b anchor pins) where
  edge _ := rfl
  head q := by
    rw [mem_retire]
    split <;> rfl
  tail q := by
    rw [mem_retire]
    split <;> rfl

theorem Ok.retire (h : Ok g) {anchor : Scheme → Option BlockId}
    (hb : g.heap id = some b) (hnone : ∀ q, g.edge ⟨id, q⟩ = none)
    (hanchor : ∀ sc, anchor sc = if b.ring = some sc then none else (g.mem b.owner).anchor sc)
    (hpins : (g.mem b.owner).as = some pins) :
    Change Nobody Nobody g (g.retire id b anchor pins) := by
  have hheap : ∀ id', (g.retire id b anchor pins).heap id' =
      if id' = id then none else g.heap id' := fun id' => update_apply ..
  have hreleasing : (g.retire id b anchor pins).releasing =
      update g.releasing id (some b.owner) := rfl
  have hidle := h.parked id (by rw [hb]; rfl)
  have hblocks : ∀ p base, ((g.retire id b anchor pins).mem p).blocks.get base =
      if p = b.owner ∧ base = b.base then none else (g.mem p).blocks.get base := by
    grind [mem_retire]
  have hviews : ∀ p, ((g.retire id b anchor pins).mem p).views = (g.mem p).views := by
    grind [mem_retire]
  have has : ∀ p, ((g.retire id b anchor pins).mem p).as.isSome = (g.mem p).as.isSome := by
    grind [mem_retire]
  refine ⟨⟨?_, SameEdges.retire.pending h.pending, fun p => ?_, fun id' hid' => ?_⟩,
    fun id' b' hb' => ?_, ?_, ?_, has⟩
  · refine h.core.retire hb hnone hheap (fun base => OrdMap.get_erase ..) hblocks hviews ?_ has
      fun e => rfl
    grind [mem_retire]
  · by_cases hp : p = b.owner
    · subst hp
      exact (h.pinned b.owner).add hidle hpins hreleasing (by rw [mem_retire, if_pos rfl])
    · exact (h.pinned p).other id _ (by simp [hidle]) (by simpa using Ne.symm hp) hreleasing
        (by rw [mem_retire, if_neg hp])
  · rw [hreleasing, update_apply]
    grind [h.parked id']
  · grind
  · grind
  · grind

structure Freed (g g' : State) (base : Nat) (r : SysResult) : Prop where
  change : Change Nobody Nobody g g'
  pins : ∀ id, pinsOf g' id = pinsOf g id
  outcome : (∃ e, r = .error e ∧ g' = g) ∨ ∃ id b, r = .ok 0 ∧ g.g_ublocks.get base = some id ∧
    g.heap id = some b ∧ g'.heap = Function.update g.heap id none ∧
    g'.releasing = Function.update g.releasing id (some b.owner)

theorem Freed.refused (h : Ok g) {e : SysErr} : Freed g g base (.error e) :=
  ⟨.refl h, fun _ => rfl, .inl ⟨e, rfl, rfl⟩⟩

theorem freeLocked_spec (h : Ok g) (p base : Nat) (destroyable : Bool) :
    ∃ g' r, freeLocked g p base destroyable = .ok (g', r) ∧ Freed g g' base r ∧
      SameEdges g g' := by
  unfold freeLocked
  split
  · exact ⟨g, _, rfl, .refused h, .refl g⟩
  rename_i id hid
  obtain ⟨b, hb, rfl, rfl⟩ := (h.core.owned p base id).mp hid
  simp only [hb, deref, bind, Except.bind]
  split
  · exact ⟨g, _, rfl, .refused h, .refl g⟩
  rename_i hgate
  simp only [Bool.or_eq_true, not_or, decide_eq_true_eq, ne_eq, not_not] at hgate
  obtain ⟨⟨⟨-, hpins⟩, hlen⟩, -⟩ := hgate
  have hnone : ∀ q, g.edge ⟨id, q⟩ = none := OrdMap.len_eq_zero_iff.mp hlen
  have hremove : (g.mem b.owner).blocks.remove b.base =
      some (id, (g.mem b.owner).blocks.erase b.base) := OrdMap.remove_eq_some_iff.mpr ⟨hid, rfl⟩
  have hremove' : g.g_ublocks.remove b.base = some (id, g.g_ublocks.erase b.base) :=
    OrdMap.remove_eq_some_iff.mpr ⟨(h.core.indexed b.base id).mpr ⟨b, hb, rfl⟩, rfl⟩
  obtain ⟨n, hn⟩ := Option.isSome_iff_exists.mp
    (h.core.hasAs b.owner b.base (.inl (by rw [hid]; rfl)))
  obtain ⟨anchor, hrun, hanchor⟩ := channelRingDestroy_spec h.core hb
    { g.setMem b.owner { g.mem b.owner with blocks := (g.mem b.owner).blocks.erase b.base }
      with g_ublocks := g.g_ublocks.erase b.base } (by simp [State.setMem])
  refine ⟨g.retire id b anchor n, .ok 0, ?_, ⟨h.retire hb hnone hanchor hn, fun id' => ?_,
    .inr ⟨id, b, rfl, (h.core.indexed b.base id).mpr ⟨b, hb, rfl⟩, hb, rfl, rfl⟩⟩, .retire⟩
  rotate_left
  · rw [pinsOf, pinsOf, show (g.retire id b anchor n).heap id' = _ from update_apply ..]
    grind
  simp only [State.setMem, hn] at hrun
  simp only [hremove, hremove', assertSome, asserts, State.setMem, decide_true, if_true, hn, hrun,
    update_self, update_idem]
  rfl

theorem umemFree_spec (tab : ProcTable) (h : Ok g) (caller base : Nat) (destroyable : Bool) :
    ∃ g' r, umemFree tab g caller base destroyable = .ok (g', r) ∧ Freed g g' base r ∧
      SameEdges g g' := by
  unfold umemFree
  split
  · exact ⟨g, _, rfl, .refused h, .refl g⟩
  rename_i id hid
  obtain ⟨b, hb, -⟩ := (h.core.indexed base id).mp hid
  simp only [hb, deref, bind, Except.bind]
  split
  · exact ⟨g, _, rfl, .refused h, .refl g⟩
  · exact freeLocked_spec h b.owner base destroyable

def State.unpin (g : State) (p : Nat) (id : BlockId) (pins : Nat) : State :=
  { g.setMem p { g.mem p with as := some pins } with
    releasing := Function.update g.releasing id none }

theorem mem_unpin (p : Nat) (id : BlockId) (pins q : Nat) : (g.unpin p id pins).mem q =
    { g.mem q with as := if q = p then some pins else (g.mem q).as } := by
  by_cases hq : q = p <;> simp [State.unpin, State.setMem, hq]

theorem SameEdges.unpin (p : Nat) (id : BlockId) (pins : Nat) : SameEdges g (g.unpin p id pins) :=
  ⟨fun _ => rfl, fun q => by rw [mem_unpin], fun q => by rw [mem_unpin]⟩

theorem umemReleaseFinish_spec (h : Ok g) (hid : g.releasing id = some p) :
    ∃ n, umemReleaseFinish g id = .ok (g.unpin p id n) ∧
      Change Nobody Nobody g (g.unpin p id n) := by
  obtain ⟨n, hn, hpinned⟩ := (h.pinned p).remove hid
  have has : ∀ q, ((g.unpin p id n).mem q).as.isSome = (g.mem q).as.isSome := by
    intro q
    by_cases hq : q = p <;> simp [mem_unpin, hq, hn]
  refine ⟨n, ?_, ⟨⟨?_, (SameEdges.unpin p id n).pending h.pending, fun q => ?_,
    fun id' hid' => ?_⟩, fun id' b' hb' => .inr ⟨b', hb', rfl, rfl⟩, fun q base _ _ hq => ?_, fun q base _ _ hq => ?_, has⟩⟩
  · simp only [umemReleaseFinish, hid, hn, deref, asserts, bind, Except.bind]
    rfl
  · refine h.core.frame rfl rfl (fun q => ?_) (fun q => ?_) (fun q => ?_) has fun _ => rfl <;>
      rw [mem_unpin]
  · by_cases hq : q = p
    · subst hq
      exact hpinned _ rfl (by simp [mem_unpin])
    · refine (h.pinned q).other id none ?_ (by simp) rfl (by simp [mem_unpin, hq])
      rw [hid, ne_eq, Option.some_inj]
      exact Ne.symm hq
  · have hidle := h.parked id' hid'
    by_cases hid'' : id' = id
    · simp [State.unpin, hid'']
    · rwa [← show _ = g.releasing id' from update_of_ne hid'' none g.releasing] at hidle
  · rwa [mem_unpin] at hq
  · rwa [mem_unpin] at hq

/-! ## 3. A block changes hands -/

theorem Core.give (h : Core g) (hb : g.heap id = some b)
    (hring : b.ring = none) (hnone : g.edge ⟨id, dst⟩ = none)
    (hdst : (g.mem dst).as.isSome)
    (hheap : ∀ id', g'.heap id' = if id' = id then some { b with owner := dst } else g.heap id')
    (hindex : g'.g_ublocks = g.g_ublocks)
    (hblocks : ∀ p base, (g'.mem p).blocks.get base = if base = b.base then
      (if p = dst then some id else if p = b.owner then none else (g.mem p).blocks.get base)
      else (g.mem p).blocks.get base)
    (hviews : ∀ p, (g'.mem p).views = (g.mem p).views)
    (hanchor : ∀ p, (g'.mem p).anchor = (g.mem p).anchor)
    (has : ∀ p, (g'.mem p).as.isSome = (g.mem p).as.isSome)
    (hedge : ∀ e, (g'.edge e).isSome = (g.edge e).isSome) : Core g' := by
  constructor
  case owned => grind [Core.owned, h.base_inj hb]
  case indexed => grind [Core.indexed]
  case viewed => grind [Core.viewed]
  case edged => grind [Core.edged]
  case noself => grind [Core.noself, Option.isSome_iff_ne_none]
  case apart => grind [→ Core.apart, Apart]
  case sized => grind [Core.sized]
  case anchored => exact fun p sc id' => by grind [h.anchored p sc id']
  case hasAs => exact fun p base => by grind [h.hasAs p base]

theorem dropOldView_spec (ho : Shows g o)
    (hview : ∀ e, (g.mem dst).views.get b.base = some e ↔
      e = ⟨id, dst⟩ ∧ (g.edge ⟨id, dst⟩).isSome) :
    ∃ g', dropOldView g id b dst = .ok g' ∧ Announces o [] g' ∧
      Still ((g.eraseView dst b.base).eraseEdge ⟨id, dst⟩) g' := by
  unfold dropOldView
  cases hget : (g.mem dst).views.get b.base with
  | none =>
    have hnone : g.edge ⟨id, dst⟩ = none := by
      rw [← Option.not_isSome_iff_eq_none]
      intro hsome
      have hthis := (hview _).mpr ⟨rfl, hsome⟩
      rw [hget] at hthis
      cases hthis
    refine ⟨g, ?_, .keep ho, ?_⟩
    · simp only [OrdMap.remove_eq_none_iff.mpr hget]
      rfl
    · have hviews : ∀ q base, ((g.eraseView dst b.base).mem q).views.get base =
          (g.mem q).views.get base := by
        intro q base
        rw [views_eraseView]
        split
        · rename_i heq
          rw [heq.1, heq.2, hget]
        · rfl
      refine ⟨rfl, rfl, rfl, fun q => ?_, fun q => ?_, fun q => ?_, fun q => ?_, fun e => ?_⟩
      · exact (as_eraseView ..).symm
      · exact (blocks_eraseView ..).symm
      · exact OrdMap.ext_get fun base => (hviews q base).symm
      · exact (anchor_eraseView ..).symm
      · rw [edge_eraseEdge]
        split
        · rename_i heq
          rw [heq, hnone]
        · rfl
  | some e =>
    obtain ⟨rfl, hsome⟩ := (hview e).mp hget
    obtain ⟨g₁, hrun, hs, hshows⟩ :=
      ((SameEdges.eraseView dst b.base).shows ho).erase (e := ⟨id, dst⟩) hsome
    obtain ⟨x, hx⟩ := remove_edge (g := g₁) (e := ⟨id, dst⟩) (by rw [hs.isSome]; exact hsome)
    refine ⟨g₁.eraseEdge ⟨id, dst⟩, ?_, .drop hsome ho hshows, hs.eraseEdge _⟩
    rw [State.eraseView] at hrun
    simp only [OrdMap.remove_eq_some_iff.mpr ⟨hget, rfl⟩, hrun, hx, assertSome, bind, Except.bind]
    rfl

def State.setBlocks (g : State) (p : Nat) (blocks : OrdMap Nat BlockId) : State :=
  g.setMem p { g.mem p with blocks := blocks }

section

variable (p q : Nat) (blocks : OrdMap Nat BlockId)

theorem mem_setBlocks : (g.setBlocks p blocks).mem q =
    { g.mem q with blocks := if q = p then blocks else (g.mem q).blocks } := by
  by_cases hq : q = p <;> simp [State.setBlocks, hq]

@[simp] theorem blocks_setBlocks : ((g.setBlocks p blocks).mem q).blocks =
    if q = p then blocks else (g.mem q).blocks := by rw [mem_setBlocks]

@[simp] theorem views_setBlocks : ((g.setBlocks p blocks).mem q).views = (g.mem q).views := by
  rw [mem_setBlocks]

@[simp] theorem anchor_setBlocks : ((g.setBlocks p blocks).mem q).anchor = (g.mem q).anchor := by
  rw [mem_setBlocks]

@[simp] theorem as_setBlocks : ((g.setBlocks p blocks).mem q).as = (g.mem q).as := by
  rw [mem_setBlocks]

end

theorem SameEdges.setBlocks (p : Nat) (blocks : OrdMap Nat BlockId) :
    SameEdges g (g.setBlocks p blocks) := .setMem rfl rfl

theorem Ok.give (h : Ok g) (hb : g.heap id = some b)
    (hring : b.ring = none) (hne : b.owner ≠ dst) (hdst : (g.mem dst).as.isSome) {g₁ : State}
    (ho : Shows g₁ o)
    (hs : Still (((g.setBlocks b.owner ((g.mem b.owner).blocks.erase b.base)).eraseView dst
      b.base).eraseEdge ⟨id, dst⟩) g₁) {g₂ : State}
    (hg₂ : g₂ = (g₁.setBlock id { b with owner := dst }).setBlocks dst
      ((g₁.mem dst).blocks.set b.base id)) : Change (Only dst) Nobody g g₂ ∧ Shows g₂ o := by
  have hheap : ∀ id', g₂.heap id' =
      if id' = id then some { b with owner := dst } else g.heap id' := by
    intro id'
    rw [hg₂]
    refine (update_apply ..).trans ?_
    rw [show g₁.heap = g.heap from hs.heap]
  have has : ∀ p, (g₂.mem p).as = (g.mem p).as := by
    intro p
    rw [hg₂, as_setBlocks]
    exact (hs.as p).trans ((as_eraseView ..).trans (as_setBlocks ..))
  have hviews : ∀ p, (g₂.mem p).views = ((g.eraseView dst b.base).mem p).views := by
    intro p
    rw [hg₂, views_setBlocks]
    refine (hs.views p).trans (OrdMap.ext_get fun base => (views_eraseView ..).trans ?_)
    rw [views_eraseView, views_setBlocks]
  have hblocks₁ : ∀ p, (g₁.mem p).blocks =
      if p = b.owner then (g.mem b.owner).blocks.erase b.base else (g.mem p).blocks :=
    fun p => (hs.blocks p).trans ((blocks_eraseView ..).trans (blocks_setBlocks ..))
  have hblocks : ∀ p base, (g₂.mem p).blocks.get base = if base = b.base then
      (if p = dst then some id else if p = b.owner then none else (g.mem p).blocks.get base)
      else (g.mem p).blocks.get base := by
    intro p base
    rw [hg₂, blocks_setBlocks]
    change (if p = dst then _ else (g₁.mem p).blocks).get base = _
    grind
  have hcore : Core ((g.eraseView dst b.base).eraseEdge ⟨id, dst⟩) := h.core.eraseEdge hb
  have hindex : g₂.g_ublocks = g.g_ublocks := by rw [hg₂]; exact hs.g_ublocks
  have hreleasing : g₂.releasing = g.releasing := by rw [hg₂]; exact hs.releasing
  have hshows : Shows g₂ o := by
    rw [hg₂]
    exact ((SameEdges.setBlock id _).trans (.setBlocks dst _)).shows ho
  refine ⟨⟨⟨?_, hshows.pending, fun p => ?_, fun id' hid' => ?_⟩, fun id' b' hb' => ?_, ?_, ?_, ?_⟩,
    hshows⟩
  · refine hcore.give hb hring (by simp) ?_ hheap hindex (fun p base => ?_) hviews (fun p => ?_)
      (fun p => ?_) fun e => ?_
    · exact (congrArg Option.isSome (as_eraseView ..)).trans hdst
    · rw [hblocks, show (((g.eraseView dst b.base).eraseEdge ⟨id, dst⟩).mem p).blocks =
        (g.mem p).blocks from blocks_eraseView ..]
    · rw [hg₂, anchor_setBlocks]
      exact (hs.anchor p).trans ((anchor_eraseView ..).trans ((anchor_setBlocks ..).trans
        (anchor_eraseView ..).symm))
    · rw [has]
      exact (congrArg Option.isSome (as_eraseView ..)).symm
    · rw [hg₂]
      exact hs.isSome e
  · exact (h.pinned p).congr hreleasing (has p)
  · rw [hreleasing]
    grind [h.parked id']
  · grind
  · grind [Only]
  · grind [views_eraseView]
  · exact fun p => by rw [has]

theorem umemMoveLocked_spec (h : Ok g) (ho : Shows g o)
    (hb : g.heap id = some b) (hring : b.ring = none) (hne : b.owner ≠ dst)
    (hdst : (g.mem dst).as.isSome) :
    ∃ g' r, umemMoveLocked g id b.owner dst = .ok (g', r) ∧ Kept (Only dst) Nobody g g' ∧
      Announces o [] g' := by
  unfold umemMoveLocked
  simp only [hb, deref, bind, Except.bind]
  split
  · exact ⟨g, _, rfl, .refl h, .keep ho⟩
  rename_i hgate
  have hpins : b.thread_pins = 0 := by
    simp only [Bool.or_eq_true, not_or, decide_eq_true_eq, ne_eq, not_not] at hgate
    exact hgate.2
  split
  · exact ⟨g, _, rfl, .refl h, .keep ho⟩
  have hid : (g.mem b.owner).blocks.get b.base = some id :=
    (h.core.owned b.owner b.base id).mpr ⟨b, hb, rfl, rfl⟩
  -- the source has given the block up; its views and its list are as before
  have hview : ∀ e, ((g.setBlocks b.owner ((g.mem b.owner).blocks.erase b.base)).mem dst).views.get
      b.base = some e ↔ e = ⟨id, dst⟩ ∧ (g.edge ⟨id, dst⟩).isSome := by
    intro e
    rw [views_setBlocks, h.core.viewed]
    constructor
    · rintro ⟨hto, hsome, b', hb', hbase⟩
      obtain rfl := h.core.edgeRef_eq hb hb' hbase hto
      exact ⟨rfl, hsome⟩
    · rintro ⟨rfl, hsome⟩
      exact ⟨rfl, hsome, b, hb, rfl⟩
  obtain ⟨g₁, hrun, ⟨o', hturn, hshows, -⟩, hs⟩ :=
    dropOldView_spec ((SameEdges.setBlocks _ _).shows ho) hview
  have has : ∀ p, (g₁.mem p).as = (g.mem p).as := fun p =>
    (hs.as p).trans ((as_eraseView ..).trans (as_setBlocks ..))
  obtain ⟨n, hn⟩ : ∃ n, (g₁.mem dst).as = some n :=
    Option.isSome_iff_exists.mp (by rw [has]; exact hdst)
  obtain ⟨n', hn'⟩ : ∃ n, (g₁.mem b.owner).as = some n :=
    Option.isSome_iff_exists.mp (by
      rw [has]
      exact h.core.hasAs b.owner b.base (.inl (by rw [hid]; rfl)))
  have hget : (g₁.mem dst).blocks.get b.base = none := by
    rw [show (g₁.mem dst).blocks = (g.mem dst).blocks from (hs.blocks dst).trans
      ((blocks_eraseView ..).trans ((blocks_setBlocks ..).trans (if_neg hne.symm))),
      Option.eq_none_iff_forall_ne_some]
    grind [h.core.owned dst b.base, h.core.base_inj hb]
  have hheap : ∀ id', ((g₁.setBlock id { b with owner := dst }).setBlocks dst
      ((g₁.mem dst).blocks.set b.base id)).heap id' =
        if id' = id then some { b with owner := dst } else g.heap id' := by
    intro id'
    refine (update_apply ..).trans ?_
    rw [show g₁.heap = g.heap from hs.heap]
  obtain ⟨hchange, hshows'⟩ := h.give hb hring hne hdst hshows hs rfl
  refine ⟨_, .ok 0, ?_, ⟨hchange, fun id' => ?_, hs.releasing, fun id' b' hb' => ?_⟩,
    o', hturn, hshows', by simp⟩
  rotate_left
  · grind [pinsOf]
  · grind
  rw [State.setBlocks] at hrun
  simp only [OrdMap.remove_eq_some_iff.mpr ⟨hid, rfl⟩, assertSome, asserts, decide_true, if_true,
    hrun, State.setBlock, hn, hn', OrdMap.insert_of_get_none hget]
  simp only [State.setBlocks, hn]
  rfl

theorem procSysVmMove_spec (tab : ProcTable) (h : Ok g) (ho : Shows g o) {me base pid : Nat}
    (hne : (tab pid).bind (·.parent) = some me → me ≠ pid)
    (has : live tab pid = true → (g.mem pid).as.isSome) :
    ∃ g' r, procSysVmMove tab g me base pid = .ok (g', r) ∧
      Kept (fun q => q = pid ∧ live tab pid = true) Nobody g g' ∧ Announces o [] g' := by
  unfold procSysVmMove
  split
  · rename_i hlive
    simp only [Bool.and_eq_true, decide_eq_true_eq] at hlive
    split
    · exact ⟨g, _, rfl, .refl h, .keep ho⟩
    rename_i id hid
    obtain ⟨b, hb, rfl, -⟩ := (h.core.owned me base id).mp hid
    simp only [hb, deref, bind, Except.bind]
    split
    · exact ⟨g, _, rfl, .refl h, .keep ho⟩
    · rename_i hring
      obtain ⟨g', r, hrun, hchange, hturn⟩ :=
        umemMoveLocked_spec h ho hb (by simpa using hring) (hne hlive.2) (has hlive.1)
      exact ⟨g', r, hrun, ⟨⟨hchange.ok, hchange.steady, fun p base id' hp =>
        hchange.blocks p base id' fun heq => hp ⟨heq, hlive.1⟩, hchange.views, hchange.as⟩,
        hchange.pins, hchange.releasing, hchange.alive⟩, hturn⟩
  · exact ⟨g, _, rfl, .refl h, .keep ho⟩

/-! ## 4. A record changes in place -/

def State.relabel (g : State) (id : BlockId) (b : Ublock) (anchor : Scheme → Option BlockId) :
    State :=
  (g.setBlock id b).setMem b.owner { g.mem b.owner with anchor := anchor }

section

variable {id : BlockId} {b b' : Ublock} {anchor : Scheme → Option BlockId}

@[grind =] theorem heap_relabel (id' : BlockId) :
    (g.relabel id b anchor).heap id' = if id' = id then some b else g.heap id' :=
  update_apply ..

@[grind =] theorem mem_relabel (p : Nat) : (g.relabel id b anchor).mem p =
    { g.mem p with anchor := if p = b.owner then anchor else (g.mem p).anchor } := by
  by_cases hp : p = b.owner <;> simp [State.relabel, State.setMem, State.setBlock, hp]

@[grind =] theorem edge_relabel (e : EdgeRef) : (g.relabel id b anchor).edge e = g.edge e := rfl

/-- Base, size and owner stay.  The ring may appear, with an anchor that was free. -/
structure Relabels (g : State) (id : BlockId) (b b' : Ublock)
    (anchor : Scheme → Option BlockId) : Prop where
  base : b'.base = b.base
  bytes : b'.bytes = b.bytes
  owner : b'.owner = b.owner
  keep : ∀ sc, b.ring = some sc → b'.ring = some sc
  free : ∀ sc id', b'.ring = some sc → (g.mem b.owner).anchor sc = some id' → id' = id
  anchor : ∀ sc, anchor sc =
    if b'.ring = some sc ∧ sc.anchored = true then some id else (g.mem b.owner).anchor sc

theorem Core.relabel (h : Core g) (hb : g.heap id = some b) (hr : Relabels g id b b' anchor) :
    Core (g.relabel id b' anchor) := by
  constructor
  case owned => grind [Core.owned, hr.base, hr.owner]
  case indexed => exact fun base id₁ => (h.indexed base id₁).trans (by grind [hr.base])
  case viewed => exact fun q base e => by grind [h.viewed q base e, hr.base]
  case edged => exact fun e he => by grind [h.edged e he]
  case noself => grind [→ Core.noself, hr.owner]
  case apart => grind [→ Core.apart, Apart, hr.base, hr.bytes]
  case sized => grind [→ Core.sized, hr.bytes]
  case anchored =>
    intro p sc id₁
    grind [h.anchored p sc id₁, h.anchored p sc id, hr.anchor sc, hr.keep sc, hr.free sc id₁, hr.owner]
  case hasAs => grind [Core.hasAs]

theorem SameEdges.relabel : SameEdges g (g.relabel id b anchor) :=
  (SameEdges.setBlock _ _).trans (.setMem rfl rfl)

theorem Ok.relabel (h : Ok g) (hb : g.heap id = some b) (hr : Relabels g id b b' anchor) :
    Change Nobody Nobody g (g.relabel id b' anchor) where
  ok := by
    refine ⟨h.core.relabel hb hr, SameEdges.relabel.pending h.pending, fun p => ?_,
      fun id₁ hid₁ => h.parked id₁ ?_⟩
    · exact (h.pinned p).congr rfl (by rw [mem_relabel])
    · grind
  steady id₁ b₁ hb₁ := by grind [hr.base, hr.bytes]
  blocks p base _ _ hp := by rwa [mem_relabel] at hp
  views p base _ _ hp := by rwa [mem_relabel] at hp
  as p := by rw [mem_relabel]

theorem pinsOf_setBlock (hb : g.heap id = some b) (howner : b'.owner = b.owner)
    (hpins : b'.thread_pins = b.thread_pins) (id' : BlockId) :
    pinsOf (g.setBlock id b') id' = pinsOf g id' := by
  rw [pinsOf, pinsOf, show (g.setBlock id b').heap id' = _ from update_apply ..]
  grind

theorem alive_setBlock (hb : g.heap id = some b) (hbase : b'.base = b.base)
    (hbytes : b'.bytes = b.bytes) (id' : BlockId) (b₁ : Ublock) (hb₁ : g.heap id' = some b₁) :
    ∃ b₂, (g.setBlock id b').heap id' = some b₂ ∧ b₂.base = b₁.base ∧ b₂.bytes = b₁.bytes := by
  rw [show (g.setBlock id b').heap id' = _ from update_apply ..]
  grind

theorem Ok.setBlock (h : Ok g) (hb : g.heap id = some b) (hbase : b'.base = b.base)
    (hbytes : b'.bytes = b.bytes) (howner : b'.owner = b.owner) (hring : b'.ring = b.ring) :
    Change Nobody Nobody g (g.setBlock id b') := by
  have heq : g.setBlock id b' = g.relabel id b' (g.mem b'.owner).anchor := by
    simp [State.relabel, State.setMem, State.setBlock]
  have hthis : ∀ sc, b.ring = some sc → sc.anchored = true → (g.mem b.owner).anchor sc = some id :=
    fun sc hsc hanch => (h.core.anchored b.owner sc id).mpr ⟨hanch, b, hb, rfl, hsc⟩
  rw [heq]
  refine h.relabel hb ⟨hbase, hbytes, howner, fun sc hsc => hring.trans hsc, fun sc id' hsc hid' => ?_,
    fun sc => ?_⟩
  · grind [h.core.anchored b.owner sc id']
  · grind

end

theorem channelSchemeCreate_spec (h : Ok g) (p base : Nat) (scheme : Option Scheme) :
    ∃ g' r, channelSchemeCreate g p base scheme = .ok (g', r) ∧ Kept Nobody Nobody g g' ∧
      SameEdges g g' := by
  unfold channelSchemeCreate
  split
  · exact ⟨g, _, rfl, .refl h, .refl g⟩
  rename_i id hid
  obtain ⟨b, hb, rfl, -⟩ := (h.core.owned p base id).mp hid
  simp only [hb, deref, bind, Except.bind]
  split
  · exact ⟨g, _, rfl, .refl h, .refl g⟩
  rename_i hgate
  have hring : b.ring = none := by
    simp only [Bool.or_eq_true, not_or] at hgate
    simpa using hgate.1.1.2
  split
  · exact ⟨g, _, rfl, .refl h, .refl g⟩
  rename_i sc
  split
  · exact ⟨g, _, rfl, .refl h, .refl g⟩
  rename_i hfree
  cases hsc : sc.anchored with
  | true =>
    have hnone : (g.mem b.owner).anchor sc = none := by simpa [hsc] using hfree
    refine ⟨g.relabel id { b with ring := some sc } (update (g.mem b.owner).anchor sc
      (some id)), .ok 0, rfl, ⟨h.relabel hb ⟨rfl, rfl, rfl, ?_, ?_, ?_⟩,
      pinsOf_setBlock hb rfl rfl, rfl, alive_setBlock hb rfl rfl⟩,
      .relabel⟩
    · grind
    · grind
    · grind [update_apply]
  | false =>
    have heq : g.setBlock id { b with ring := some sc } =
        g.relabel id { b with ring := some sc } (g.mem b.owner).anchor := by
      simp [State.relabel, State.setMem, State.setBlock]
    refine ⟨g.setBlock id { b with ring := some sc }, .ok 0, rfl, ⟨?_, pinsOf_setBlock hb rfl rfl,
      rfl, alive_setBlock hb rfl rfl⟩, .setBlock _ _⟩
    rw [heq]
    refine h.relabel hb ⟨rfl, rfl, rfl, ?_, ?_, ?_⟩
    · grind
    · grind [h.core.anchored b.owner sc]
    · grind

structure Repinned (g g' : State) (id : BlockId) (o : Option (Nat × Nat)) : Prop where
  change : Change Nobody Nobody g g'
  releasing : g'.releasing = g.releasing
  alive : ∀ id b, g.heap id = some b → ∃ b', g'.heap id = some b' ∧ b'.base = b.base ∧
    b'.bytes = b.bytes
  this : pinsOf g' id = o
  others : ∀ id', id' ≠ id → pinsOf g' id' = pinsOf g id'

theorem Ok.setPins (h : Ok g) (hb : g.heap id = some b) (n : Nat) :
    Repinned g (g.setBlock id { b with thread_pins := n }) id
      (if n = 0 then none else some (b.owner, n)) where
  change := h.setBlock hb rfl rfl rfl rfl
  releasing := rfl
  alive := alive_setBlock hb rfl rfl
  this := by simp [pinsOf, State.setBlock]
  others id' hid' := by simp [pinsOf, State.setBlock, hid']

theorem pinCompletion_spec (h : Ok g) (hg' : pinCompletion g p id = some g') :
    (∃ n, (pinsOf g id = none ∧ n = 0 ∨ pinsOf g id = some (p, n)) ∧
      Repinned g g' id (some (p, n + 1))) ∧ SameEdges g g' := by
  unfold pinCompletion at hg'
  split at hg'
  · cases hg'
  rename_i b hb
  split at hg'
  · rename_i howner
    obtain ⟨rfl, -⟩ := howner
    cases hg'
    refine ⟨⟨b.thread_pins, ?_, ?_⟩, .setBlock _ _⟩
    · by_cases hz : b.thread_pins = 0 <;> simp [pinsOf, hb, hz]
    · have hset := h.setPins hb (b.thread_pins + 1)
      rwa [if_neg (Nat.succ_ne_zero _)] at hset
  · cases hg'

theorem channelThreadCompleteLocked_spec (h : Ok g)
    (hid : pinsOf g id = some (p, n + 1)) :
    ∃ g', channelThreadCompleteLocked g p id = .ok g' ∧
      Repinned g g' id (if n = 0 then none else some (p, n)) ∧ SameEdges g g' := by
  obtain ⟨b, hb, hpins⟩ := Option.bind_eq_some_iff.mp hid
  split at hpins
  · cases hpins
  rename_i hz
  obtain ⟨rfl, hn⟩ := Prod.mk.inj (Option.some_inj.mp hpins)
  refine ⟨g.setBlock id { b with thread_pins := b.thread_pins - 1 }, ?_, ?_, .setBlock _ _⟩
  · simp [channelThreadCompleteLocked, hb, deref, asserts, hz, bind, Except.bind, pure, Except.pure]
  · have hset := h.setPins hb (b.thread_pins - 1)
    rwa [show b.thread_pins - 1 = n by omega] at hset ⊢

theorem setDmaMaps_spec (h : Ok g) (id : BlockId) (dma_maps : Nat) :
    Kept Nobody Nobody g (setDmaMaps g id dma_maps) := by
  unfold setDmaMaps
  split
  · exact .refl h
  · rename_i b hb
    exact ⟨h.setBlock hb rfl rfl rfl rfl, pinsOf_setBlock hb rfl rfl, rfl,
      alive_setBlock hb rfl rfl⟩

/-! ## 5. A process appears or goes -/

theorem Ok.mem_eq_none (h : Ok g) (hblocks : ∀ base, (g.mem p).blocks.get base = none)
    (hviews : ∀ base, (g.mem p).views.get base = none) (has : (g.mem p).as = none) :
    g.mem p = .none := by
  obtain ⟨l, hl, hmem⟩ := h.pending p
  have hnil : l = [] := by
    rw [List.eq_nil_iff_forall_not_mem]
    intro e he
    obtain ⟨hto, x, hx, -⟩ := (hmem e).mp he
    obtain ⟨b, hb⟩ := Option.isSome_iff_exists.mp (h.core.edged e (by rw [hx]; rfl))
    grind [h.core.viewed p b.base e]
  subst hnil
  have hanchor : (g.mem p).anchor = fun _ => none := by
    funext sc
    rw [Option.eq_none_iff_forall_ne_some]
    intro id hid
    obtain ⟨-, b, hb, howner, -⟩ := (h.core.anchored p sc id).mp hid
    grind [h.core.owned p b.base id]
  have hhead : (g.mem p).unnotified_head = none := hl.forth
  have htail : (g.mem p).unnotified_tail = none := hl.back
  have hblocks' : (g.mem p).blocks = .empty := OrdMap.ext_get hblocks
  have hviews' : (g.mem p).views = .empty := OrdMap.ext_get hviews
  calc g.mem p = ⟨(g.mem p).as, (g.mem p).blocks, (g.mem p).views, (g.mem p).unnotified_head,
        (g.mem p).unnotified_tail, (g.mem p).anchor⟩ := rfl
    _ = .none := by rw [has, hblocks', hviews', hhead, htail, hanchor]; rfl

def State.setAs (g : State) (p : Nat) (o : Option Nat) : State :=
  g.setMem p { g.mem p with as := o }

theorem mem_setAs (p : Nat) (o : Option Nat) (q : Nat) : (g.setAs p o).mem q =
    { g.mem q with as := if q = p then o else (g.mem q).as } := by
  by_cases hq : q = p <;> simp [State.setAs, hq]

theorem Ok.setAs (h : Ok g) {o : Option Nat} (hfree : ∀ id, g.releasing id ≠ some p)
    (ho : o = some 0 ∨ o = none ∧ (∀ base, (g.mem p).blocks.get base = none) ∧
      ∀ base, (g.mem p).views.get base = none) : Ok (g.setAs p o) where
  core := by
    constructor
    case owned => exact fun q base id => by rw [mem_setAs]; exact h.core.owned q base id
    case viewed => exact fun q base e => by rw [mem_setAs]; exact h.core.viewed q base e
    case anchored => exact fun q sc id => by rw [mem_setAs]; exact h.core.anchored q sc id
    case hasAs => exact fun q base => by grind [h.core.hasAs q base, mem_setAs]
    case indexed => exact h.core.indexed
    case edged => exact h.core.edged
    case noself => exact h.core.noself
    case apart => exact h.core.apart
    case sized => exact h.core.sized
  pending := SameEdges.pending (.setMem rfl rfl) h.pending
  pinned q := by
    by_cases hq : q = p
    · subst hq
      refine ⟨[], List.nodup_nil, fun id => ?_, fun n hn => ?_, fun hne => absurd rfl hne⟩
      · exact iff_of_false List.not_mem_nil (hfree id)
      · grind [mem_setAs]
    · exact (h.pinned q).congr rfl (by rw [mem_setAs, if_neg hq])
  parked := h.parked

theorem Ok.not_releasing (h : Ok g) (has : (g.mem p).as = some 0 ∨ (g.mem p).as = none)
    (id : BlockId) : g.releasing id ≠ some p := by
  intro hid
  obtain ⟨n, hn, -⟩ := (h.pinned p).remove hid
  rcases has with has | has <;> rw [has] at hn <;> cases hn

end

end GovinDos.Ownership
