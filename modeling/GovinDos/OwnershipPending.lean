/-
  **The pending lists of the ownership graph.**

  `Relinked` says once what linking and unlinking touch; what everything else reads is the
  same before and after (`Quiet`).
-/
import GovinDos.Lib.LinkedList
import GovinDos.Ownership

namespace GovinDos.Ownership

open LinkedList
open Umem (BlockId EdgeRef)

variable {g g' : State} {x : ShareEdge} {e : EdgeRef} {l : List EdgeRef}

/-! ## 1. Reading back -/

section

variable (g : State)

def State.next (e : EdgeRef) : Option EdgeRef := (g.edge e).bind (·.pending_next)

def State.prev (e : EdgeRef) : Option EdgeRef := (g.edge e).bind (·.pending_prev)

def State.Unnotified (e : EdgeRef) : Prop := ∃ x, g.edge e = some x ∧ x.notified = false

@[simp, grind =] theorem mem_setMem (p q : Nat) (m : ProcMem) :
    (g.setMem p m).mem q = if q = p then m else g.mem q := by
  simp only [State.setMem, Function.update_apply]

@[simp, grind =] theorem edge_setMem (p : Nat) (m : ProcMem) (e : EdgeRef) :
    (g.setMem p m).edge e = g.edge e := rfl

@[simp, grind =] theorem mem_setEdge (e : EdgeRef) (x : ShareEdge) (p : Nat) :
    (g.setEdge e x).mem p = g.mem p := rfl

@[simp, grind =] theorem edge_setEdge (e e' : EdgeRef) (x : ShareEdge) :
    (g.setEdge e x).edge e' = if e' = e then some x else g.edge e' := by
  obtain ⟨id, q⟩ := e
  obtain ⟨id', q'⟩ := e'
  simp only [State.edge, State.setEdge, Function.update_apply, EdgeRef.mk.injEq]
  by_cases hid : id' = id
  · simp [hid, OrdMap.get_set]
  · simp [hid]

@[simp] theorem mem_setHead (p q : Nat) (v : Option EdgeRef) :
    (g.setHead p v).mem q = if q = p then { g.mem p with unnotified_head := v } else g.mem q :=
  mem_setMem g p q _

@[simp] theorem mem_setTail (p q : Nat) (v : Option EdgeRef) :
    (g.setTail p v).mem q = if q = p then { g.mem p with unnotified_tail := v } else g.mem q :=
  mem_setMem g p q _

@[simp] theorem edge_setHead (p : Nat) (v : Option EdgeRef) (e : EdgeRef) :
    (g.setHead p v).edge e = g.edge e := rfl

@[simp] theorem edge_setTail (p : Nat) (v : Option EdgeRef) (e : EdgeRef) :
    (g.setTail p v).edge e = g.edge e := rfl

@[simp, grind =] theorem heap_setMem (p : Nat) (m : ProcMem) : (g.setMem p m).heap = g.heap := rfl

@[simp, grind =] theorem heap_setEdge (e : EdgeRef) (x : ShareEdge) : (g.setEdge e x).heap = g.heap := rfl

end

theorem setNext_eq (v : Option EdgeRef)
    (h : g.edge e = some x) : setNext g e v = .ok (g.setEdge e { x with pending_next := v }) := by
  rw [setNext, h]
  rfl

theorem setPrev_eq (v : Option EdgeRef)
    (h : g.edge e = some x) : setPrev g e v = .ok (g.setEdge e { x with pending_prev := v }) := by
  rw [setPrev, h]
  rfl

theorem deref_some {α : Type} (a : α) : deref (some a) = .ok a := rfl

theorem assertSome_some {α : Type} (a : α) : assertSome (some a) = .ok a := rfl

/-! ## 2. What stays -/

structure Still (g g' : State) : Prop where
  heap : g'.heap = g.heap
  g_ublocks : g'.g_ublocks = g.g_ublocks
  releasing : g'.releasing = g.releasing
  as : ∀ p, (g'.mem p).as = (g.mem p).as
  blocks : ∀ p, (g'.mem p).blocks = (g.mem p).blocks
  views : ∀ p, (g'.mem p).views = (g.mem p).views
  anchor : ∀ p, (g'.mem p).anchor = (g.mem p).anchor
  isSome : ∀ e, (g'.edge e).isSome = (g.edge e).isSome

structure Quiet (g g' : State) : Prop extends Still g g' where
  notified : ∀ e, (g'.edge e).map (·.notified) = (g.edge e).map (·.notified)

namespace Still

variable {g g' g'' : State}

theorem refl (g : State) : Still g g :=
  ⟨rfl, rfl, rfl, fun _ => rfl, fun _ => rfl, fun _ => rfl, fun _ => rfl, fun _ => rfl⟩

theorem trans (h : Still g g') (h' : Still g' g'') : Still g g'' where
  heap := h'.heap.trans h.heap
  g_ublocks := h'.g_ublocks.trans h.g_ublocks
  releasing := h'.releasing.trans h.releasing
  as p := (h'.as p).trans (h.as p)
  blocks p := (h'.blocks p).trans (h.blocks p)
  views p := (h'.views p).trans (h.views p)
  anchor p := (h'.anchor p).trans (h.anchor p)
  isSome e := (h'.isSome e).trans (h.isSome e)

theorem setEdge {e : EdgeRef} {x : ShareEdge} (y : ShareEdge) (hx : g.edge e = some x) :
    Still g (g.setEdge e y) where
  heap := rfl
  g_ublocks := rfl
  releasing := rfl
  as _ := rfl
  blocks _ := rfl
  views _ := rfl
  anchor _ := rfl
  isSome e' := by
    by_cases he : e' = e <;> simp [he, hx]

theorem setMem {p : Nat} {m : ProcMem} (has : m.as = (g.mem p).as)
    (hblocks : m.blocks = (g.mem p).blocks) (hviews : m.views = (g.mem p).views)
    (hanchor : m.anchor = (g.mem p).anchor) : Still g (g.setMem p m) where
  heap := rfl
  g_ublocks := rfl
  releasing := rfl
  as q := by
    by_cases hq : q = p <;> simp [hq, has]
  blocks q := by
    by_cases hq : q = p <;> simp [hq, hblocks]
  views q := by
    by_cases hq : q = p <;> simp [hq, hviews]
  anchor q := by
    by_cases hq : q = p <;> simp [hq, hanchor]
  isSome _ := rfl

end Still

namespace Quiet

variable {g g' g'' : State}

theorem trans (h : Quiet g g') (h' : Quiet g' g'') : Quiet g g'' where
  toStill := h.toStill.trans h'.toStill
  notified e := (h'.notified e).trans (h.notified e)

theorem setEdge {e : EdgeRef} {x : ShareEdge} (y : ShareEdge) (hx : g.edge e = some x)
    (hn : y.notified = x.notified) : Quiet g (g.setEdge e y) where
  toStill := .setEdge y hx
  notified e' := by
    by_cases he : e' = e
    · simp [he, hx, hn]
    · simp [he]

theorem setHead (p : Nat) (v : Option EdgeRef) : Quiet g (g.setHead p v) where
  toStill := .setMem rfl rfl rfl rfl
  notified _ := rfl

theorem setTail (p : Nat) (v : Option EdgeRef) : Quiet g (g.setTail p v) where
  toStill := .setMem rfl rfl rfl rfl
  notified _ := rfl

end Quiet

/-! ## 3. The lists -/

def Chain (g : State) (q : Nat) (l : List EdgeRef) : Prop :=
  Queued g.next g.prev (g.mem q).unnotified_head (g.mem q).unnotified_tail l

structure Relinked (g g' : State) (q : Nat) (l : List EdgeRef) : Prop where
  quiet : Quiet g g'
  chain : Chain g' q l
  others : ∀ e, e.to_ ≠ q → g'.edge e = g.edge e
  mems : ∀ p, p ≠ q → g'.mem p = g.mem p

theorem Chain.frame {q : Nat} (h : Chain g q l)
    (hl : ∀ e ∈ l, g'.edge e = g.edge e)
    (hhead : (g'.mem q).unnotified_head = (g.mem q).unnotified_head)
    (htail : (g'.mem q).unnotified_tail = (g.mem q).unnotified_tail) : Chain g' q l := by
  unfold Chain
  rw [hhead, htail]
  refine h.congr (fun e he => ?_) fun e he => ?_
  · simp only [State.next, hl e he]
  · simp only [State.prev, hl e he]

theorem Chain.append {tail : Option EdgeRef}
    (hl : Chain g e.to_ l) (hfresh : e ∉ l) (htail : (g.mem e.to_).unnotified_tail = tail)
    (he : g'.edge e = some ⟨false, tail, none⟩)
    (hedge : ∀ y ∈ l, g'.edge y =
      (g.edge y).map fun x => if tail = some y then { x with pending_next := some e } else x)
    (hsome : ∀ y ∈ l, (g.edge y).isSome)
    (hhead : (g'.mem e.to_).unnotified_head =
      if tail = none then some e else (g.mem e.to_).unnotified_head)
    (htail' : (g'.mem e.to_).unnotified_tail = some e) : Chain g' e.to_ (l ++ [e]) := by
  unfold Chain
  rw [hhead, htail', ← htail]
  refine Queued.append hl hfresh ?_ ?_ (fun y hy => ?_) fun y hy => ?_
  · simp [State.next, he]
  · simp [State.prev, he, htail]
  · obtain ⟨x, hx⟩ := Option.isSome_iff_exists.mp (hsome y hy)
    by_cases hlast : tail = some y <;> simp [State.next, hedge y hy, hx, htail, hlast]
  · obtain ⟨x, hx⟩ := Option.isSome_iff_exists.mp (hsome y hy)
    by_cases hlast : tail = some y <;> simp [State.prev, hedge y hy, hx, hlast]

theorem pendingLink_spec
    (he : g.edge e = some ⟨false, none, none⟩) (hl : Chain g e.to_ l)
    (hto : ∀ y ∈ l, y.to_ = e.to_ ∧ (g.edge y).isSome) (hfresh : e ∉ l) :
    ∃ g', pendingLink g e = .ok g' ∧ Relinked g g' e.to_ (l ++ [e]) := by
  have hne : ∀ y ∈ l, y ≠ e := fun y hy heq => hfresh (heq ▸ hy)
  have hsome := fun y hy => (hto y hy).2
  have hother : ∀ y : EdgeRef, y.to_ ≠ e.to_ → y ≠ e := fun y hy heq => hy (heq ▸ rfl)
  cases htail : (g.mem e.to_).unnotified_tail with
  | none =>
    -- the list was empty: the edge is its head too
    have hrun : pendingLink g e = .ok (((g.setEdge e ⟨false, none, none⟩).setHead e.to_
        (some e)).setTail e.to_ (some e)) := by
      simp only [pendingLink, he, deref_some, htail, setPrev_eq none he]
      rfl
    refine ⟨_, hrun, ((Quiet.setEdge _ he rfl).trans (.setHead _ _)).trans (.setTail _ _), ?_, ?_, ?_⟩
    · refine hl.append hfresh htail (by simp) (fun y hy => ?_) hsome (by simp) (by simp)
      simp [hne y hy]
    · intro y hy
      simp [hother y hy]
    · intro p hp
      simp [hp]
  | some t =>
    have ht : t ∈ l := List.mem_of_getLast? (hl.tail_eq.symm.trans htail)
    obtain ⟨y, hy⟩ := Option.isSome_iff_exists.mp (hsome t ht)
    have hy₁ : (g.setEdge e ⟨false, some t, none⟩).edge t = some y := by simp [hne t ht, hy]
    have hrun : pendingLink g e = .ok (((g.setEdge e ⟨false, some t, none⟩).setEdge t
        { y with pending_next := some e }).setTail e.to_ (some e)) := by
      simp only [pendingLink, he, deref_some, htail, setPrev_eq (some t) he]
      change (setNext _ t (some e)).bind _ = _
      rw [setNext_eq (some e) hy₁]
      rfl
    have hquiet := (Quiet.setEdge ⟨false, some t, none⟩ he rfl).trans
      (.setEdge { y with pending_next := some e } hy₁ rfl)
    refine ⟨_, hrun, hquiet.trans (.setTail _ _), ?_, ?_, ?_⟩
    · refine hl.append hfresh htail (by simp [(hne t ht).symm]) (fun z hz => ?_) hsome (by simp)
        (by simp)
      by_cases hzt : z = t
      · subst hzt
        simp [hy]
      · simp [hzt, hne z hz, Ne.symm hzt]
    · intro z hz
      have hzt : z ≠ t := fun heq => hz (heq ▸ (hto t ht).1)
      simp [hother z hz, hzt]
    · intro p hp
      simp [hp]

theorem unlinkPrev_spec (e : EdgeRef)
    (hq : ∀ q, x.pending_prev = some q → (g.edge q).isSome) :
    ∃ g', unlinkPrev g e x = .ok g' ∧ Quiet g g' ∧
      (∀ y, g'.edge y = (g.edge y).map fun z =>
        if x.pending_prev = some y then { z with pending_next := x.pending_next } else z) ∧
      ∀ p, g'.mem p = if p = e.to_ ∧ x.pending_prev = none then
        { g.mem p with unnotified_head := x.pending_next } else g.mem p := by
  cases hprev : x.pending_prev with
  | none =>
    refine ⟨g.setHead e.to_ x.pending_next, by simp only [unlinkPrev, hprev]; rfl, .setHead _ _,
      ?_, ?_⟩
    · simp
    · intro p
      by_cases hp : p = e.to_ <;> simp [hp]
  | some q =>
    obtain ⟨z, hz⟩ := Option.isSome_iff_exists.mp (hq q hprev)
    refine ⟨g.setEdge q { z with pending_next := x.pending_next },
      by simp only [unlinkPrev, hprev, setNext_eq _ hz], .setEdge _ hz rfl, ?_, ?_⟩
    · intro y
      by_cases hy : y = q
      · simp [hy, hz]
      · simp [hy, Ne.symm hy]
    · simp

theorem unlinkNext_spec (e : EdgeRef)
    (hn : ∀ n, x.pending_next = some n → (g.edge n).isSome) :
    ∃ g', unlinkNext g e x = .ok g' ∧ Quiet g g' ∧
      (∀ y, g'.edge y = (g.edge y).map fun z =>
        if x.pending_next = some y then { z with pending_prev := x.pending_prev } else z) ∧
      ∀ p, g'.mem p = if p = e.to_ ∧ x.pending_next = none then
        { g.mem p with unnotified_tail := x.pending_prev } else g.mem p := by
  cases hnext : x.pending_next with
  | none =>
    refine ⟨g.setTail e.to_ x.pending_prev, by simp only [unlinkNext, hnext]; rfl, .setTail _ _,
      ?_, ?_⟩
    · simp
    · intro p
      by_cases hp : p = e.to_ <;> simp [hp]
  | some n =>
    obtain ⟨z, hz⟩ := Option.isSome_iff_exists.mp (hn n hnext)
    refine ⟨g.setEdge n { z with pending_prev := x.pending_prev },
      by simp only [unlinkNext, hnext, setPrev_eq _ hz], .setEdge _ hz rfl, ?_, ?_⟩
    · intro y
      by_cases hy : y = n
      · simp [hy, hz]
      · simp [hy, Ne.symm hy]
    · simp

theorem Chain.unlink
    (hl : Chain g e.to_ l) (he : g.edge e = some x) (hel : e ∈ l)
    (hedge : ∀ y ∈ l, y ≠ e → ∃ w, g.edge y = some w ∧ g'.edge y = some ⟨w.notified,
      if x.pending_next = some y then x.pending_prev else w.pending_prev,
      if x.pending_prev = some y then x.pending_next else w.pending_next⟩)
    (hhead : (g'.mem e.to_).unnotified_head =
      if x.pending_prev = none then x.pending_next else (g.mem e.to_).unnotified_head)
    (htail : (g'.mem e.to_).unnotified_tail =
      if x.pending_next = none then x.pending_prev else (g.mem e.to_).unnotified_tail) :
    Chain g' e.to_ (l.erase e) := by
  have hprev : g.prev e = x.pending_prev := by simp [State.prev, he]
  have hnext : g.next e = x.pending_next := by simp [State.next, he]
  unfold Chain
  rw [hhead, htail, ← hprev, ← hnext]
  refine Queued.unlink hl hel (fun y hy hne => ?_) fun y hy hne => ?_
  · obtain ⟨w, hw, hw'⟩ := hedge y hy hne
    simp [State.next, State.prev, hw, hw', he]
  · obtain ⟨w, hw, hw'⟩ := hedge y hy hne
    simp [State.next, State.prev, hw, hw', he]

theorem unlink_notified (he : g.edge e = some x)
    (hn : x.notified = true) : umemEdgePendingUnlinkLocked g e = .ok g := by
  simp only [umemEdgePendingUnlinkLocked, he, deref_some]
  change (if x.notified = true then pure g else _) = _
  rw [if_pos hn]
  rfl

theorem unlink_spec
    (he : g.edge e = some x) (hn : x.notified = false) (hl : Chain g e.to_ l) (hel : e ∈ l)
    (hto : ∀ y ∈ l, y.to_ = e.to_ ∧ (g.edge y).isSome) :
    ∃ g', umemEdgePendingUnlinkLocked g e = .ok g' ∧ Relinked g g' e.to_ (l.erase e) := by
  have hprev : g.prev e = x.pending_prev := by simp [State.prev, he]
  have hnext : g.next e = x.pending_next := by simp [State.next, he]
  have hpl : ∀ q, x.pending_prev = some q → q ∈ l := fun q hq =>
    Queued.prev_mem hl hel (hprev.trans hq)
  have hnl : ∀ n, x.pending_next = some n → n ∈ l := fun n hn =>
    Queued.next_mem hl hel (hnext.trans hn)
  obtain ⟨g₁, hrun₁, hquiet₁, hedge₁, hmem₁⟩ :=
    unlinkPrev_spec e (g := g) (x := x) fun q hq => (hto q (hpl q hq)).2
  obtain ⟨g₂, hrun₂, hquiet₂, hedge₂, hmem₂⟩ :=
    unlinkNext_spec e (g := g₁) (x := x) fun n hn => by
      rw [hquiet₁.isSome]
      exact (hto n (hnl n hn)).2
  have hsome₂ : (g₂.edge e).isSome := by
    rw [hquiet₂.isSome, hquiet₁.isSome, he]
    rfl
  obtain ⟨z, hz⟩ := Option.isSome_iff_exists.mp hsome₂
  have hz' : (g₂.setEdge e { z with pending_prev := none }).edge e =
      some { z with pending_prev := none } := by simp
  have hrun : umemEdgePendingUnlinkLocked g e = .ok ((g₂.setEdge e
      { z with pending_prev := none }).setEdge e
        { z with pending_prev := none, pending_next := none }) := by
    simp only [umemEdgePendingUnlinkLocked, he, deref_some]
    change (if x.notified = true then pure g else _) = _
    rw [if_neg (by simp [hn])]
    change (unlinkPrev g e x).bind _ = _
    rw [hrun₁]
    change (unlinkNext g₁ e x).bind _ = _
    rw [hrun₂]
    change (setPrev g₂ e none).bind _ = _
    rw [setPrev_eq none hz]
    exact setNext_eq none hz'
  have hquiet := ((hquiet₁.trans hquiet₂).trans
    (.setEdge { z with pending_prev := none } hz rfl)).trans
      (.setEdge { z with pending_prev := none, pending_next := none } hz' rfl)
  refine ⟨_, hrun, hquiet, ?_, ?_, ?_⟩
  · refine hl.unlink he hel (fun y hy hne => ?_) ?_ ?_
    · obtain ⟨w, hw⟩ := Option.isSome_iff_exists.mp (hto y hy).2
      refine ⟨w, hw, ?_⟩
      by_cases hp : x.pending_prev = some y <;> by_cases hn : x.pending_next = some y <;>
        simp [hne, hedge₂, hedge₁, hw, hp, hn]
    · by_cases hp : x.pending_prev = none <;> by_cases hn : x.pending_next = none <;>
        simp [hmem₂, hmem₁, hp, hn]
    · by_cases hp : x.pending_prev = none <;> by_cases hn : x.pending_next = none <;>
        simp [hmem₂, hmem₁, hp, hn]
  · intro y hy
    have hye : y ≠ e := fun heq => hy (heq ▸ rfl)
    have hp : x.pending_prev ≠ some y := fun h => hy (hto y (hpl y h)).1
    have hn : x.pending_next ≠ some y := fun h => hy (hto y (hnl y h)).1
    simp [hye, hedge₂, hedge₁, hp, hn]
  · intro p hp
    simp [hmem₂, hmem₁, hp]

end GovinDos.Ownership
