/-
  **The five indices agree (`kernel/src/umem.c`).**

  `Core` relates the owners' block trees, the base index, the view trees, the sharer trees
  and the scheme anchors; `Ok` adds the pending lists and the pins.  Each function keeps `Ok`
  and runs to its end.  `Change` also records who may gain a block or a view, which is what a
  death has to stop.
-/
import GovinDos.Lib.Announcement
import GovinDos.OwnershipPending

namespace GovinDos.Ownership

open LinkedList Announcement Paging
open Umem (BlockId EdgeRef Backing)

/-! ## 1. The invariant -/

def Apart (b b' : Ublock) : Prop := b.base + b.bytes ≤ b'.base ∨ b'.base + b'.bytes ≤ b.base

structure Core (g : State) : Prop where
  owned : ∀ p base id, (g.mem p).blocks.get base = some id ↔
    ∃ b, g.heap id = some b ∧ b.owner = p ∧ b.base = base
  indexed : ∀ base id, g.g_ublocks.get base = some id ↔ ∃ b, g.heap id = some b ∧ b.base = base
  viewed : ∀ q base e, (g.mem q).views.get base = some e ↔
    e.to_ = q ∧ (g.edge e).isSome ∧ ∃ b, g.heap e.block = some b ∧ b.base = base
  edged : ∀ e, (g.edge e).isSome → (g.heap e.block).isSome
  noself : ∀ id b, g.heap id = some b → g.edge ⟨id, b.owner⟩ = none
  apart : ∀ id id' b b', g.heap id = some b → g.heap id' = some b' → id ≠ id' → Apart b b'
  sized : ∀ id b, g.heap id = some b → 0 < b.bytes
  anchored : ∀ p sc id, (g.mem p).anchor sc = some id ↔
    sc.anchored = true ∧ ∃ b, g.heap id = some b ∧ b.owner = p ∧ b.ring = some sc
  hasAs : ∀ p base, ((g.mem p).blocks.get base).isSome ∨ ((g.mem p).views.get base).isSome →
    (g.mem p).as.isSome

def Pending (g : State) (q : Nat) : Prop :=
  ∃ l, Chain g q l ∧ ∀ e, e ∈ l ↔ e.to_ = q ∧ g.Unnotified e

def Pinned (g : State) (p : Nat) : Prop :=
  ∃ l : List BlockId, l.Nodup ∧ (∀ id, id ∈ l ↔ g.releasing id = some p) ∧
    (∀ n, (g.mem p).as = some n → n = l.length) ∧ (l ≠ [] → (g.mem p).as.isSome)

structure Ok (g : State) : Prop where
  core : Core g
  pending : ∀ q, Pending g q
  pinned : ∀ p, Pinned g p
  parked : ∀ id, (g.heap id).isSome → g.releasing id = none

/-- What a section may do to the graph: `B` are the processes that may gain a block,
    `V` those that may gain a view. -/
structure Change (B V : Nat → Prop) (g g' : State) : Prop where
  ok : Ok g'
  steady : ∀ id b, g.heap id = some b → g'.heap id = none ∨
    ∃ b', g'.heap id = some b' ∧ b'.base = b.base ∧ b'.bytes = b.bytes
  blocks : ∀ p base id, ¬ B p → (g'.mem p).blocks.get base = some id →
    (g.mem p).blocks.get base = some id
  views : ∀ p base e, ¬ V p → (g'.mem p).views.get base = some e →
    (g.mem p).views.get base = some e
  as : ∀ p, (g'.mem p).as.isSome = (g.mem p).as.isSome

def pinsOf (g : State) (id : BlockId) : Option (Nat × Nat) :=
  (g.heap id).bind fun b => if b.thread_pins = 0 then none else some (b.owner, b.thread_pins)

/-- A change that no thread's completion and no release in flight notices. -/
structure Kept (B V : Nat → Prop) (g g' : State) : Prop extends Change B V g g' where
  pins : ∀ id, pinsOf g' id = pinsOf g id
  releasing : g'.releasing = g.releasing
  alive : ∀ id b, g.heap id = some b → ∃ b', g'.heap id = some b' ∧ b'.base = b.base ∧
    b'.bytes = b.bytes

structure SameEdges (g g' : State) : Prop where
  edge : ∀ e, g'.edge e = g.edge e
  head : ∀ q, (g'.mem q).unnotified_head = (g.mem q).unnotified_head
  tail : ∀ q, (g'.mem q).unnotified_tail = (g.mem q).unnotified_tail

def Nobody : Nat → Prop := fun _ => False

def Only (p : Nat) : Nat → Prop := fun q => q = p

section

variable {g g' g'' : State} {B V B' V' : Nat → Prop} {q p target : Nat} {b b' : Ublock}
  {id : BlockId} {e : EdgeRef} {o : Board EdgeRef Nat}

theorem Change.refl (h : Ok g) : Change B V g g where
  ok := h
  steady _ b hb := .inr ⟨b, hb, rfl, rfl⟩
  blocks _ _ _ _ h := h
  views _ _ _ _ h := h
  as _ := rfl

theorem alive_of_eq (hheap : g'.heap = g.heap) (id : BlockId) (b : Ublock)
    (hb : g.heap id = some b) :
    ∃ b', g'.heap id = some b' ∧ b'.base = b.base ∧ b'.bytes = b.bytes :=
  ⟨b, by rw [hheap]; exact hb, rfl, rfl⟩

theorem Kept.refl (h : Ok g) : Kept B V g g := ⟨.refl h, fun _ => rfl, rfl, alive_of_eq rfl⟩

theorem pinsOf_congr (hheap : g'.heap = g.heap) (id : BlockId) : pinsOf g' id = pinsOf g id := by
  rw [pinsOf, pinsOf, hheap]

theorem SameEdges.refl (g : State) : SameEdges g g := ⟨fun _ => rfl, fun _ => rfl, fun _ => rfl⟩

theorem SameEdges.trans (h : SameEdges g g') (h' : SameEdges g' g'') : SameEdges g g'' where
  edge e := (h'.edge e).trans (h.edge e)
  head q := (h'.head q).trans (h.head q)
  tail q := (h'.tail q).trans (h.tail q)

theorem SameEdges.setMem {p : Nat} {m : ProcMem}
    (hhead : m.unnotified_head = (g.mem p).unnotified_head)
    (htail : m.unnotified_tail = (g.mem p).unnotified_tail) : SameEdges g (g.setMem p m) where
  edge _ := rfl
  head q := by
    by_cases hq : q = p <;> simp [hq, hhead]
  tail q := by
    by_cases hq : q = p <;> simp [hq, htail]

theorem SameEdges.setBlock (id : BlockId) (blk : Ublock) : SameEdges g (g.setBlock id blk) :=
  ⟨fun _ => rfl, fun _ => rfl, fun _ => rfl⟩

theorem Core.base_inj (h : Core g) {id id' : BlockId} (hb : g.heap id = some b)
    (hb' : g.heap id' = some b') (hbase : b.base = b'.base) : id = id' := by
  by_contra hne
  have hsize := h.sized id b hb
  have hsize' := h.sized id' b' hb'
  rcases h.apart id id' b b' hb hb' hne with hle | hle <;> omega

theorem Core.edgeRef_eq (h : Core g)
    (hb : g.heap id = some b) (hb' : g.heap e.block = some b') (hbase : b'.base = b.base)
    (hto : e.to_ = q) : e = ⟨id, q⟩ := by
  rw [← h.base_inj hb' hb hbase, ← hto]

theorem Core.frame (h : Core g) (hheap : g'.heap = g.heap) (hindex : g'.g_ublocks = g.g_ublocks)
    (hblocks : ∀ p, (g'.mem p).blocks = (g.mem p).blocks)
    (hviews : ∀ p, (g'.mem p).views = (g.mem p).views)
    (hanchor : ∀ p, (g'.mem p).anchor = (g.mem p).anchor)
    (has : ∀ p, (g'.mem p).as.isSome = (g.mem p).as.isSome)
    (hedge : ∀ e, (g'.edge e).isSome = (g.edge e).isSome) : Core g' where
  owned p base id := by simpa only [hblocks, hheap] using h.owned p base id
  indexed base id := by simpa only [hindex, hheap] using h.indexed base id
  viewed q base e := by simpa only [hviews, hheap, hedge] using h.viewed q base e
  edged e := by simpa only [hheap, hedge] using h.edged e
  noself id b hb := by
    rw [hheap] at hb
    simpa [h.noself id b hb] using hedge ⟨id, b.owner⟩
  apart := by simpa only [hheap] using h.apart
  sized := by simpa only [hheap] using h.sized
  anchored p sc id := by simpa only [hanchor, hheap] using h.anchored p sc id
  hasAs p base := by simpa only [hblocks, hviews, has] using h.hasAs p base

theorem Core.still (h : Core g) (hs : Still g g') : Core g' :=
  h.frame hs.heap hs.g_ublocks hs.blocks hs.views hs.anchor (fun p => by rw [hs.as]) hs.isSome

theorem Pinned.congr (h : Pinned g p) (hreleasing : g'.releasing = g.releasing)
    (has : (g'.mem p).as = (g.mem p).as) : Pinned g' p := by
  unfold Pinned
  rw [hreleasing, has]
  exact h

end

/-! ## 2. The graph as a board -/

def State.eraseEdge (g : State) (e : EdgeRef) : State :=
  { g with sharers := Function.update g.sharers e.block ((g.sharers e.block).erase e.to_) }

@[simp] theorem edge_eraseEdge (g : State) (e e' : EdgeRef) :
    (g.eraseEdge e).edge e' = if e' = e then none else g.edge e' := by
  obtain ⟨id, q⟩ := e
  obtain ⟨id', q'⟩ := e'
  simp only [State.edge, State.eraseEdge, Function.update_apply, EdgeRef.mk.injEq]
  by_cases hid : id' = id
  · simp [hid, OrdMap.get_erase]
  · simp [hid]

structure ShareEvent where
  edge : EdgeRef
  a : Nat
  b : Nat
deriving DecidableEq

def keventShare (g : State) (e : EdgeRef) : Option ShareEvent :=
  (g.heap e.block).map fun b => ⟨e, b.owner, b.base ||| b.order⟩

def replayPosts : Nat → State → Nat → List ShareEvent
  | 0, _, _ => []
  | room + 1, g, p => match (g.mem p).unnotified_head with
    | none => []
    | some e => (keventShare g e).toList ++ match announce g e with
      | .ok g => replayPosts room g p
      | .error _ => []

structure Shows (g : State) (b : Board EdgeRef Nat) : Prop where
  told : ∀ e, b.told e = (g.edge e).map (·.notified)
  chain : ∀ q, Chain g q (b.queue q)
  sound : b.Sound EdgeRef.to_

section

variable {g g' g'' : State} {b : Board EdgeRef Nat} {e : EdgeRef}

theorem SameEdges.shows (h : SameEdges g g') (hb : Shows g b) : Shows g' b where
  told e := by rw [hb.told, h.edge]
  chain q := (hb.chain q).frame (fun e _ => h.edge e) (h.head q) (h.tail q)
  sound := hb.sound

theorem Shows.setMem (h : Shows g b) {p : Nat} {m : ProcMem}
    (hhead : m.unnotified_head = (g.mem p).unnotified_head)
    (htail : m.unnotified_tail = (g.mem p).unnotified_tail) : Shows (g.setMem p m) b :=
  (SameEdges.setMem hhead htail).shows h

theorem Shows.pending (h : Shows g b) (q : Nat) : Pending g q := by
  refine ⟨b.queue q, h.chain q, fun e => ?_⟩
  rw [h.sound.mem, h.told, Option.map_eq_some_iff]
  rfl

theorem exists_shows (h : ∀ q, Pending g q) : ∃ b, Shows g b := by
  choose l hl hmem using h
  refine ⟨⟨fun e => (g.edge e).map (·.notified), l⟩, fun _ => rfl, hl, fun q e => ?_, fun q =>
    (hl q).nodup⟩
  rw [hmem, Option.map_eq_some_iff]
  rfl

theorem SameEdges.pending (h : SameEdges g g') (hp : ∀ q, Pending g q) (q : Nat) :
    Pending g' q := by
  obtain ⟨b, hb⟩ := exists_shows hp
  exact (h.shows hb).pending q

theorem Shows.isSome_edge (h : Shows g b) (e : EdgeRef) : b.told e ≠ none ↔ (g.edge e).isSome := by
  rw [h.told]
  cases g.edge e <;> simp

theorem Shows.unnotified (h : Shows g b) {q : Nat} {y : EdgeRef} (hy : y ∈ b.queue q) :
    y.to_ = q ∧ (g.edge y).isSome := by
  obtain ⟨hto, hfalse⟩ := (h.sound.mem q y).mp hy
  exact ⟨hto, (h.isSome_edge y).mp (by simp [hfalse])⟩

theorem remove_edge (he : (g.edge e).isSome) :
    ∃ x, (g.sharers e.block).remove e.to_ = some (x, (g.sharers e.block).erase e.to_) := by
  obtain ⟨x, hx⟩ := Option.isSome_iff_exists.mp he
  exact ⟨x, OrdMap.remove_eq_some_iff.mpr ⟨hx, rfl⟩⟩

theorem Shows.unlink (h : Shows g b) (he : (g.edge e).isSome) :
    ∃ g', umemEdgePendingUnlinkLocked g e = .ok g' ∧ Quiet g g' ∧
      ∀ q, Chain g' q ((b.queue q).erase e) := by
  obtain ⟨x, hx⟩ := Option.isSome_iff_exists.mp he
  cases hn : x.notified with
  | true =>
    refine ⟨g, unlink_notified hx hn, ⟨.refl g, fun _ => rfl⟩, fun q => ?_⟩
    rw [List.erase_of_not_mem (h.sound.not_mem (by simp [h.told, hx, hn]) q)]
    exact h.chain q
  | false =>
    have hel : e ∈ b.queue e.to_ := (h.sound.mem _ e).mpr ⟨rfl, by simp [h.told, hx, hn]⟩
    obtain ⟨g', hrun, hr⟩ := unlink_spec hx hn (h.chain e.to_) hel fun y hy => h.unnotified hy
    refine ⟨g', hrun, hr.quiet, fun q => ?_⟩
    by_cases hq : q = e.to_
    · subst hq
      exact hr.chain
    · have hout : e ∉ b.queue q := by
        intro hmem
        exact hq ((h.sound.mem q e).mp hmem).1.symm
      rw [List.erase_of_not_mem hout]
      refine (h.chain q).frame (fun y hy => hr.others y ?_) ?_ ?_
      · rw [(h.unnotified hy).1]
        exact hq
      · rw [hr.mems q hq]
      · rw [hr.mems q hq]

theorem Shows.announce (h : Shows g b) (he : b.told e = some false) :
    ∃ g', announce g e = .ok g' ∧ Shows g' (b.tell e) ∧ Still g g' := by
  have hsome : (g.edge e).isSome := (h.isSome_edge e).mp (by simp [he])
  obtain ⟨g₁, hrun, hquiet, hchain⟩ := h.unlink hsome
  obtain ⟨y, hy⟩ := Option.isSome_iff_exists.mp (hquiet.isSome e ▸ hsome)
  refine ⟨g₁.setEdge e { y with notified := true }, ?_, ⟨fun z => ?_, fun q => ?_, h.sound.tell e⟩,
    hquiet.toStill.trans (.setEdge _ hy)⟩
  · simp [Ownership.announce, hrun, hy, deref, bind, Except.bind, pure, Except.pure]
  · by_cases hz : z = e
    · simp [Board.tell, hz]
    · simp [Board.tell, hz, h.told, hquiet.notified]
  · refine Chain.frame (hchain q) (fun z hz => ?_) rfl rfl
    have hne : z ≠ e := ((h.sound.nodup q).mem_erase_iff.mp hz).1
    simp [hne]

theorem Shows.replay (h : Shows g b) (hcore : Core g) (room q : Nat) :
    ∃ g', sharesReplay room g q = .ok g' ∧ Shows g' (b.tellAll ((b.queue q).take room)) ∧
      Still g g' ∧ replayPosts room g q = ((b.queue q).take room).filterMap (keventShare g) := by
  induction room generalizing g b with
  | zero => exact ⟨g, rfl, h, .refl g, rfl⟩
  | succ room ih =>
    rw [sharesReplay, replayPosts]
    have hlink := (h.chain q).forth
    cases hqueue : b.queue q with
    | nil =>
      rw [hqueue] at hlink
      have hhead : (g.mem q).unnotified_head = none := hlink
      simp only [hhead]
      exact ⟨g, rfl, h, .refl g, rfl⟩
    | cons e rest =>
      rw [hqueue] at hlink
      have hfalse : b.told e = some false := ((h.sound.mem q e).mp (by simp [hqueue])).2
      obtain ⟨g₁, hrun, hshows, hstill⟩ := h.announce hfalse
      have hrest : (b.tell e).queue q = rest := by simp [Board.tell, hqueue]
      obtain ⟨g₂, hrun₂, hshows₂, hstill₂, hposts⟩ := ih hshows (hcore.still hstill)
      have hsome : (g.edge e).isSome := (h.isSome_edge e).mp (by simp [hfalse])
      obtain ⟨blk, hblk⟩ := Option.isSome_iff_exists.mp (hcore.edged e hsome)
      rw [hrest] at hshows₂ hposts
      have hsame : keventShare g₁ = keventShare g := by
        funext y
        rw [keventShare, keventShare, hstill.heap]
      refine ⟨g₂, ?_, hshows₂, hstill.trans hstill₂, ?_⟩
      · simp [hlink.1, hrun, hrun₂, bind, Except.bind]
      · simp [hlink.1, hrun, hposts, hsame, keventShare, hblk]

theorem Shows.link (h : Shows g b) (he : g.edge e = none) :
    ∃ g', pendingLink (g.setEdge e ⟨false, none, none⟩) e = .ok g' ∧
      Shows g' (b.make EdgeRef.to_ e) ∧ Quiet (g.setEdge e ⟨false, none, none⟩) g' := by
  have hnone : b.told e = none := by simp [h.told, he]
  have hfresh : ∀ q, e ∉ b.queue q := h.sound.not_mem (by simp [hnone])
  have hne : ∀ q, ∀ y ∈ b.queue q, y ≠ e := by
    rintro q y hy rfl
    exact hfresh q hy
  have hl : ∀ q, Chain (g.setEdge e ⟨false, none, none⟩) q (b.queue q) := fun q =>
    (h.chain q).frame (fun y hy => by simp [hne q y hy]) rfl rfl
  obtain ⟨g', hrun, hr⟩ := pendingLink_spec (e := e) (by simp) (hl e.to_)
    (fun y hy => by simpa [hne _ y hy] using h.unnotified hy) (hfresh e.to_)
  refine ⟨g', hrun, ⟨fun y => ?_, fun q => ?_, h.sound.make hnone⟩, hr.quiet⟩
  · rw [hr.quiet.notified]
    by_cases hy : y = e
    · simp [Board.make, hy]
    · simp [Board.make, hy, h.told]
  · by_cases hq : q = e.to_
    · subst hq
      simpa [Board.make] using hr.chain
    · simp only [Board.make, Function.update_of_ne hq]
      refine (hl q).frame (fun y hy => hr.others y ?_) ?_ ?_
      · rw [(h.unnotified hy).1]
        exact hq
      · rw [hr.mems q hq]
      · rw [hr.mems q hq]

theorem Shows.erase (h : Shows g b) (he : (g.edge e).isSome) :
    ∃ g', umemEdgePendingUnlinkLocked g e = .ok g' ∧ Still g g' ∧
      Shows (g'.eraseEdge e) (b.drop e) := by
  obtain ⟨g', hrun, hquiet, hchain⟩ := h.unlink he
  refine ⟨g', hrun, hquiet.toStill, fun y => ?_, fun q => ?_, h.sound.drop e⟩
  · by_cases hy : y = e
    · simp [Board.drop, hy]
    · simp [Board.drop, hy, h.told, hquiet.notified]
  · refine Chain.frame (hchain q) (fun y hy => ?_) rfl rfl
    have hne : y ≠ e := ((h.sound.nodup q).mem_erase_iff.mp hy).1
    simp [hne]


/-- A section that leaves `g'` has taken one turn and posted `xs`, as their edges say in
    `g'`. -/
def Announces (b : Board EdgeRef Nat) (xs : List ShareEvent) (g' : State) : Prop :=
  ∃ b', Turn EdgeRef.to_ b (xs.map ShareEvent.edge) b' ∧ Shows g' b' ∧
    ∀ x ∈ xs, keventShare g' x.edge = some x

theorem Announces.keep (h : Shows g b) : Announces b [] g := ⟨b, .keep, h, by simp⟩

theorem SameEdges.announces (hsame : SameEdges g g') (h : Shows g b) : Announces b [] g' :=
  .keep (hsame.shows h)

theorem Announces.drop {e : EdgeRef} (hsome : (g.edge e).isSome) (h : Shows g b)
    (h' : Shows g' (b.drop e)) : Announces b [] g' :=
  ⟨b.drop e, .drop ((h.isSome_edge e).mpr hsome), h', by simp⟩

end

/-! ## 3. Announcing edges -/

section

variable {g g' g'' : State} {B V : Nat → Prop} {target p : Nat} {b : Ublock} {id : BlockId}
  {e : EdgeRef} {o : Board EdgeRef Nat}

theorem Ok.still (h : Ok g) (hs : Still g g') (hb : Shows g' o) : Ok g' where
  core := h.core.still hs
  pending := hb.pending
  pinned p := (h.pinned p).congr hs.releasing (hs.as p)
  parked := by simpa only [hs.heap, hs.releasing] using h.parked

theorem channelEdgeNotify_spec (hb : Shows g o) (he : o.told e = some false) (room : Bool) :
    ∃ g', channelEdgeNotify g e room = .ok g' ∧ Still g g' ∧
      Shows g' (if ((g'.mem e.to_).anchor .SHARES).isSome && room then o.tell e else o) := by
  unfold channelEdgeNotify
  split
  · rename_i hroom
    obtain ⟨g', hrun, hshows, hstill⟩ := hb.announce he
    refine ⟨g', hrun, hstill, ?_⟩
    rw [hstill.anchor, if_pos hroom]
    exact hshows
  · rename_i hroom
    refine ⟨g, rfl, .refl g, ?_⟩
    rw [if_neg hroom]
    exact hb

theorem Change.still (h : Change B V g g') (hok : Ok g'') (hs : Still g' g'') :
    Change B V g g'' where
  ok := hok
  steady := by simpa only [hs.heap] using h.steady
  blocks := by simpa only [hs.blocks] using h.blocks
  views := by simpa only [hs.views] using h.views
  as := by simpa only [hs.as] using h.as

theorem Kept.still (h : Kept B V g g') (hok : Ok g'') (hs : Still g' g'') : Kept B V g g'' :=
  ⟨h.toChange.still hok hs, fun id => (pinsOf_congr hs.heap id).trans (h.pins id),
    hs.releasing.trans h.releasing, by simpa only [hs.heap] using h.alive⟩

/-! ## 4. Edges -/

theorem Core.setEdge (h : Core g) {v : Option EdgeRef} (hb : g.heap id = some b)
    (hv : ∀ e, v = some e → e = ⟨id, target⟩ ∧ target ≠ b.owner ∧ (g.mem target).as.isSome)
    (hheap : g'.heap = g.heap) (hindex : g'.g_ublocks = g.g_ublocks)
    (hblocks : ∀ p, (g'.mem p).blocks = (g.mem p).blocks)
    (hviews : ∀ p base, (g'.mem p).views.get base =
      if p = target ∧ base = b.base then v else (g.mem p).views.get base)
    (hanchor : ∀ p, (g'.mem p).anchor = (g.mem p).anchor)
    (has' : ∀ p, (g'.mem p).as = (g.mem p).as)
    (hedge : ∀ e, (g'.edge e).isSome = if e = ⟨id, target⟩ then v.isSome else (g.edge e).isSome) :
    Core g' where
  owned p base id := by simpa only [hblocks, hheap] using h.owned p base id
  indexed base id := by simpa only [hindex, hheap] using h.indexed base id
  viewed q base e := by cases v <;> grind [h.viewed q base e, Core.edgeRef_eq]
  edged e he := by grind [h.edged e]
  noself id' b' hb' := by cases v <;> grind [h.noself id' b', Option.isSome_iff_ne_none]
  apart := by simpa only [hheap] using h.apart
  sized := by simpa only [hheap] using h.sized
  anchored p sc id := by simpa only [hanchor, hheap] using h.anchored p sc id
  hasAs p base hp := by cases v <;> grind [h.hasAs p base]

theorem Ok.addEdge (h : Ok g) (ho : Shows g o)
    (hb : g.heap id = some b) (hne : target ≠ b.owner) (has : (g.mem target).as.isSome)
    (hnone : g.edge ⟨id, target⟩ = none) :
    ∃ g₁ views g₂, pendingLink (g.setEdge ⟨id, target⟩ ⟨false, none, none⟩) ⟨id, target⟩ = .ok g₁ ∧
      (g₁.mem target).views.insert b.base ⟨id, target⟩ = some views ∧
      g₂ = g₁.setMem target { g₁.mem target with views := views } ∧ (g₁.mem target).as.isSome ∧
      Kept Nobody (Only target) g g₂ ∧ Shows g₂ (o.make EdgeRef.to_ ⟨id, target⟩) ∧
      g₂.heap = g.heap := by
  obtain ⟨g₁, hrun, hmade, hq⟩ := ho.link hnone
  have hview : (g.mem target).views.get b.base = none := by
    rw [Option.eq_none_iff_forall_ne_some]
    intro e he
    obtain ⟨hto, hsome, b', hb', hbase⟩ := (h.core.viewed target b.base e).mp he
    simp [h.core.edgeRef_eq hb hb' hbase hto, hnone] at hsome
  have hins := OrdMap.insert_of_get_none (v := (⟨id, target⟩ : EdgeRef)) hview
  have hshows : Shows (g₁.setMem target { g₁.mem target with
      views := (g.mem target).views.set b.base ⟨id, target⟩ })
      (o.make EdgeRef.to_ ⟨id, target⟩) := hmade.setMem rfl rfl
  generalize hg₂ : g₁.setMem target { g₁.mem target with
    views := (g.mem target).views.set b.base ⟨id, target⟩ } = g₂ at hshows
  have hmem₂ : ∀ p, g₂.mem p = if p = target then { g₁.mem target with
      views := (g.mem target).views.set b.base ⟨id, target⟩ } else g₁.mem p :=
    fun p => hg₂ ▸ mem_setMem g₁ target p _
  have hviews : ∀ p base, (g₂.mem p).views.get base =
      if p = target ∧ base = b.base then some ⟨id, target⟩ else (g.mem p).views.get base := by
    grind [hq.views]
  have has' : ∀ p, (g₂.mem p).as = (g.mem p).as := by grind [hq.as]
  have hblocks : ∀ p, (g₂.mem p).blocks = (g.mem p).blocks := by grind [hq.blocks]
  have hheap : g₂.heap = g.heap := hg₂ ▸ hq.heap
  have hreleasing : g₂.releasing = g.releasing := hg₂ ▸ hq.releasing
  refine ⟨g₁, _, g₂, hrun, by rw [hq.views]; exact hins, hg₂.symm, by rw [hq.as]; exact has,
    ⟨⟨⟨?_, hshows.pending, fun p => (h.pinned p).congr hreleasing (has' p), ?_⟩, fun id' b' hb' => ?_,
      fun p base id' _ hp => ?_, fun p base e hp hget => ?_, fun p => by rw [has']⟩,
      pinsOf_congr hheap, hreleasing, alive_of_eq hheap⟩, hshows, hheap⟩
  · refine h.core.setEdge hb (fun e he => ⟨(Option.some_inj.mp he).symm, hne, has⟩) hheap
      (hg₂ ▸ hq.g_ublocks) hblocks hviews (fun p => ?_) has' fun e => ?_
    · grind [hq.anchor]
    · rw [show g₂.edge e = g₁.edge e from hg₂ ▸ rfl, hq.isSome]
      by_cases he : e = ⟨id, target⟩ <;> simp [he]
  · simpa only [hheap, hreleasing] using h.parked
  · exact .inr ⟨b', by rw [hheap]; exact hb', rfl, rfl⟩
  · rwa [hblocks] at hp
  · rwa [hviews, if_neg fun hpt => hp hpt.1] at hget

inductive Shared (g : State) (p base target : Nat) (room : Bool) (b : Board EdgeRef Nat) (g' : State) :
    SysResult → Prop
  | refused (hb : Shows g' b) (e : SysErr) : Shared g p base target room b g' (.error e)
  | made {id : BlockId} (hid : (g.mem p).blocks.get base = some id)
      (hnone : b.told ⟨id, target⟩ = none) (hheap : g'.heap = g.heap)
      (hb : Shows g' (if ((g'.mem target).anchor .SHARES).isSome && room then
        (b.make EdgeRef.to_ ⟨id, target⟩).tell ⟨id, target⟩ else b.make EdgeRef.to_ ⟨id, target⟩)) :
      Shared g p base target room b g' (.ok 0)

theorem umemShare_spec (tab : ProcTable) (h : Ok g) (ho : Shows g o) (p base target : Nat)
    (prot : PagingFlags) (nodes room : Bool)
    (has : live tab target = true → (g.mem target).as.isSome) :
    ∃ g' r, umemShare tab g p base target prot nodes room = .ok (g', r) ∧
      Kept Nobody (fun q => q = target ∧ live tab target = true) g g' ∧
      Shared g p base target room o g' r := by
  have hsame : ∀ e, ∃ g' r', (pure (g, .error e) : Except Stop (State × SysResult)) = .ok (g', r') ∧
      Kept Nobody (fun q => q = target ∧ live tab target = true) g g' ∧
      Shared g p base target room o g' r' :=
    fun e => ⟨g, .error e, rfl, .refl h, .refused ho e⟩
  unfold umemShare
  split
  · exact hsame _
  split
  · exact hsame _
  rename_i id hid
  obtain ⟨b, hb, howner, hbase⟩ := (h.core.owned p base id).mp hid
  simp only [hb, deref, bind, Except.bind]
  split
  · exact hsame _
  rename_i hrefuse
  split
  · exact hsame _
  rename_i hnew
  simp only [Bool.or_eq_true, not_or, Bool.not_eq_true', decide_eq_true_eq] at hrefuse
  obtain ⟨⟨⟨⟨⟨hlive, hpt⟩, -⟩, -⟩, -⟩, -⟩ := hrefuse
  have hlive : live tab target = true := by simpa using hlive
  have hnone : g.edge ⟨id, target⟩ = none := by simpa [State.edge] using hnew
  obtain ⟨g₁, views, g₂, hlink, hins, hg₂, has₁, hchange, hmade, hheap⟩ :=
    h.addEdge ho hb (by rwa [howner]) (has hlive) hnone
  obtain ⟨g₃, hnotify, hstill, hshows⟩ :=
    channelEdgeNotify_spec (e := ⟨id, target⟩) hmade (by simp [Board.make]) room
  obtain ⟨n, hn⟩ := Option.isSome_iff_exists.mp has₁
  refine ⟨g₃, .ok 0, ?_, ?_, .made hid (by simp [ho.told, hnone]) (hstill.heap.trans hheap) hshows⟩
  · simp only [hg₂, hn] at hnotify
    simp only [hlink, hins, hn, assertSome, hnotify]
    rfl
  · exact Kept.still ⟨⟨hchange.ok, hchange.steady, hchange.blocks, fun q base' e hq =>
      hchange.views q base' e fun heq => hq ⟨heq, hlive⟩, hchange.as⟩, hchange.pins,
      hchange.releasing, hchange.alive⟩ (hchange.ok.still hstill hshows) hstill

def State.eraseView (g : State) (p base : Nat) : State :=
  g.setMem p { g.mem p with views := (g.mem p).views.erase base }

theorem views_eraseView (p base q base' : Nat) : ((g.eraseView p base).mem q).views.get base' =
    if q = p ∧ base' = base then none else (g.mem q).views.get base' := by
  by_cases hq : q = p
  · simp [State.eraseView, hq, OrdMap.get_erase]
  · simp [State.eraseView, hq]

theorem mem_eraseView (p base q : Nat) : (g.eraseView p base).mem q =
    { g.mem q with views := ((g.eraseView p base).mem q).views } := by
  by_cases hq : q = p <;> simp [State.eraseView, hq]

@[simp] theorem blocks_eraseView (p base q : Nat) :
    ((g.eraseView p base).mem q).blocks = (g.mem q).blocks := by rw [mem_eraseView]

@[simp] theorem anchor_eraseView (p base q : Nat) :
    ((g.eraseView p base).mem q).anchor = (g.mem q).anchor := by rw [mem_eraseView]

@[simp] theorem as_eraseView (p base q : Nat) :
    ((g.eraseView p base).mem q).as = (g.mem q).as := by rw [mem_eraseView]

theorem SameEdges.eraseView (p base : Nat) : SameEdges g (g.eraseView p base) := .setMem rfl rfl

theorem Core.eraseEdge (h : Core g) (hb : g.heap id = some b) :
    Core ((g.eraseView target b.base).eraseEdge ⟨id, target⟩) := by
  refine h.setEdge (v := none) hb nofun rfl rfl (fun p => ?_) (fun p base => views_eraseView ..) (fun p => ?_)
    (fun p => ?_) fun e => ?_
  · exact blocks_eraseView ..
  · exact anchor_eraseView ..
  · exact as_eraseView ..
  · rw [edge_eraseEdge]
    by_cases he : e = ⟨id, target⟩ <;> simp [he, State.eraseView]

theorem Still.eraseEdge (h : Still g g') (e : EdgeRef) : Still (g.eraseEdge e) (g'.eraseEdge e) where
  heap := h.heap
  g_ublocks := h.g_ublocks
  releasing := h.releasing
  blocks := h.blocks
  views := h.views
  anchor := h.anchor
  as := h.as
  isSome e' := by
    rw [edge_eraseEdge, edge_eraseEdge]
    split
    · rfl
    · exact h.isSome e'

theorem Ok.removeEdge (h : Ok g) (ho : Shows g o)
    (hb : g.heap id = some b) (he : (g.edge ⟨id, target⟩).isSome) :
    ∃ g₁, umemEdgePendingUnlinkLocked (g.eraseView target b.base) ⟨id, target⟩ = .ok g₁ ∧
      (g₁.edge ⟨id, target⟩).isSome ∧ Kept Nobody Nobody g (g₁.eraseEdge ⟨id, target⟩) ∧
      Announces o [] (g₁.eraseEdge ⟨id, target⟩) := by
  obtain ⟨g₁, hrun, hs, hshows⟩ :=
    ((SameEdges.eraseView target b.base).shows ho).erase (e := ⟨id, target⟩) he
  have has : ∀ p, (g₁.mem p).as = (g.mem p).as := by
    intro p
    rw [hs.as, mem_eraseView]
  refine ⟨g₁, hrun, by rw [hs.isSome]; exact he, ⟨⟨⟨(h.core.eraseEdge hb).still (hs.eraseEdge _),
    hshows.pending, fun p => (h.pinned p).congr hs.releasing (has p), ?_⟩, ?_, ?_, ?_, fun p => ?_⟩,
    pinsOf_congr hs.heap, hs.releasing, alive_of_eq hs.heap⟩, .drop he ho hshows⟩
  · have hparked := h.parked
    rwa [← show (g₁.eraseEdge ⟨id, target⟩).heap = g.heap from hs.heap,
      ← show (g₁.eraseEdge ⟨id, target⟩).releasing = g.releasing from hs.releasing] at hparked
  · intro id' b' hb'
    exact .inr ⟨b', (congrFun hs.heap id').trans hb', rfl, rfl⟩
  · intro p base id' _ hp
    rwa [show ((g₁.eraseEdge ⟨id, target⟩).mem p).blocks = _ from hs.blocks p,
      mem_eraseView] at hp
  · intro p base e _ hp
    rw [show ((g₁.eraseEdge ⟨id, target⟩).mem p).views = _ from hs.views p,
      views_eraseView] at hp
    split at hp
    · cases hp
    · exact hp
  · rw [show ((g₁.eraseEdge ⟨id, target⟩).mem p).as = _ from has p]

theorem dropEdge_spec (h : Ok g) (ho : Shows g o)
    (hb : g.heap id = some b) (he : (g.edge ⟨id, target⟩).isSome) :
    ∃ g', dropEdge g ⟨id, target⟩ target b.base = .ok (g', .ok 0) ∧ Kept Nobody Nobody g g' ∧
      Announces o [] g' := by
  have hview : (g.mem target).views.get b.base = some ⟨id, target⟩ :=
    (h.core.viewed target b.base _).mpr ⟨rfl, he, b, hb, rfl⟩
  have hremove : (g.mem target).views.remove b.base =
      some (⟨id, target⟩, (g.mem target).views.erase b.base) :=
    OrdMap.remove_eq_some_iff.mpr ⟨hview, rfl⟩
  obtain ⟨g₁, hrun, he₁, hchange, hturn⟩ := h.removeEdge ho hb he
  obtain ⟨x, hx⟩ := remove_edge he₁
  obtain ⟨n, hn⟩ : ∃ n, ((g₁.eraseEdge ⟨id, target⟩).mem target).as = some n := by
    rw [← Option.isSome_iff_exists, hchange.as]
    exact h.core.hasAs target b.base (.inr (by rw [hview]; rfl))
  have hn₁ : (g₁.mem target).as = some n := hn
  refine ⟨g₁.eraseEdge ⟨id, target⟩, ?_, hchange, hturn⟩
  rw [State.eraseView] at hrun
  simp only [dropEdge, hremove, hrun, hx, hn₁, assertSome, asserts, deref, bind, Except.bind,
    decide_true, if_true]
  rfl

theorem umemDropshare_spec (tab : ProcTable) (h : Ok g) (ho : Shows g o) (caller base pid : Nat) :
    ∃ g' r, umemDropshare tab g caller base pid = .ok (g', r) ∧ Kept Nobody Nobody g g' ∧
      Announces o [] g' := by
  unfold umemDropshare
  simp only
  generalize (if pid = 0 ∨ pid = caller then caller else pid) = target
  split
  · exact ⟨g, _, rfl, .refl h, .keep ho⟩
  split
  · exact ⟨g, _, rfl, .refl h, .keep ho⟩
  · rename_i e he
    obtain ⟨hto, hsome, b, hb, rfl⟩ := (h.core.viewed target base e).mp he
    obtain ⟨id, q⟩ := e
    obtain rfl : q = target := hto
    obtain ⟨g', hrun, hkept⟩ := dropEdge_spec h ho hb hsome
    refine ⟨g', .ok 0, ?_, hkept⟩
    simp only [hb, deref, bind, Except.bind, hrun]

theorem umemUnshare_spec (tab : ProcTable) (h : Ok g) (ho : Shows g o) (caller base pid : Nat) :
    ∃ g' r, umemUnshare tab g caller base pid = .ok (g', r) ∧ Kept Nobody Nobody g g' ∧
      Announces o [] g' := by
  unfold umemUnshare
  split
  · exact ⟨g, _, rfl, .refl h, .keep ho⟩
  · rename_i id hid
    obtain ⟨b, hb, rfl⟩ := (h.core.indexed base id).mp hid
    simp only [hb, deref, bind, Except.bind]
    split
    · exact ⟨g, _, rfl, .refl h, .keep ho⟩
    split
    · exact ⟨g, _, rfl, .refl h, .keep ho⟩
    · rename_i hedge
      have he : (g.edge ⟨id, pid⟩).isSome := by
        simp only [Bool.or_eq_true, not_or] at hedge
        cases hget : (g.sharers id).get pid with
        | none => simp [hget] at hedge
        | some x => simp [State.edge, hget]
      obtain ⟨g', hrun, hkept⟩ := dropEdge_spec h ho hb he
      exact ⟨g', _, hrun, hkept⟩

end

end GovinDos.Ownership
