/-
  **The grant tree behind the pointers.**

  A record is read as its core and its three links, and each pointer operation is an update
  of one of these functions; the links are a doubly linked list of children under every
  grant.  `Shape` says nothing of the parameters, which `subgrant` checks after it has
  already linked the child.
-/
import GovinDos.Capability
import GovinDos.Lib.LinkedList

namespace GovinDos.Capability

open LinkedList Function

/-! ## 1. Cores and links -/

def Grant.core (g : Grant) : Grant :=
  { g with first_child := none, next_sibling := none, prev_sibling := none }

def State.core (s : State) (p : Ptr) : Option Grant := (s.heap.get p).map Grant.core

def State.first (s : State) (p : Ptr) : Option Ptr := (s.heap.get p).bind (·.first_child)
def State.next (s : State) (p : Ptr) : Option Ptr := (s.heap.get p).bind (·.next_sibling)
def State.prev (s : State) (p : Ptr) : Option Ptr := (s.heap.get p).bind (·.prev_sibling)

def State.put (s : State) (p : Ptr) (g : Grant) : State := { s with heap := s.heap.set p g }

section updates

variable {s s' : State} {p : Ptr} {g : Grant}

theorem modify_eq {f : Grant → Grant} (hg : s.heap.get p = some g) :
    s.modify p f = some (s.put p (f g)) := by
  rw [State.modify, hg, Option.bind_eq_bind, Option.bind_some]
  rfl

theorem modify_eq_some {f : Grant → Grant} (h : s.modify p f = some s') :
    ∃ g, s.heap.get p = some g ∧ s' = s.put p (f g) := by
  obtain ⟨g, hg, h⟩ := Option.bind_eq_some_iff.mp h
  cases h
  exact ⟨g, hg, rfl⟩

theorem apply_of_update {A : Type} {f f' : Ptr → A} {v : A} (h : f' = update f p v)
    (x : Ptr) : f' x = if x = p then v else f x := by
  rw [h, update_apply]

theorem read_put {A : Type} (read : Option Grant → A) (s : State) (p : Ptr) (g : Grant) :
    (fun x => read ((s.put p g).heap.get x)) =
      update (fun x => read (s.heap.get x)) p (read (some g)) := by
  funext x
  by_cases hx : x = p
  · subst hx
    rw [update_self, State.put, OrdMap.get_set_self]
  · rw [update_of_ne hx, State.put, OrdMap.get_set_of_ne _ _ hx]

theorem core_put (s : State) (p : Ptr) (g : Grant) :
    (s.put p g).core = update s.core p (some g.core) := read_put (Option.map Grant.core) s p g

theorem first_put (s : State) (p : Ptr) (g : Grant) :
    (s.put p g).first = update s.first p g.first_child :=
  read_put (fun r => r.bind (·.first_child)) s p g

theorem next_put (s : State) (p : Ptr) (g : Grant) :
    (s.put p g).next = update s.next p g.next_sibling :=
  read_put (fun r => r.bind (·.next_sibling)) s p g

theorem prev_put (s : State) (p : Ptr) (g : Grant) :
    (s.put p g).prev = update s.prev p g.prev_sibling :=
  read_put (fun r => r.bind (·.prev_sibling)) s p g

theorem core_of_get (hg : s.heap.get p = some g) : s.core p = some g.core := by
  rw [State.core, hg, Option.map_some]

theorem get_of_core {c : Grant} (hc : s.core p = some c) :
    ∃ g, s.heap.get p = some g ∧ g.core = c := Option.map_eq_some_iff.mp hc

theorem first_of_get (hg : s.heap.get p = some g) : s.first p = g.first_child := by
  rw [State.first, hg, Option.bind_some]

theorem next_of_get (hg : s.heap.get p = some g) : s.next p = g.next_sibling := by
  rw [State.next, hg, Option.bind_some]

theorem prev_of_get (hg : s.heap.get p = some g) : s.prev p = g.prev_sibling := by
  rw [State.prev, hg, Option.bind_some]

def SameBooks (s s' : State) : Prop :=
  s'.g_grants = s.g_grants ∧ s'.g_next_grant_id = s.g_next_grant_id ∧ s'.minted = s.minted

theorem core_update_self (hg : s.heap.get p = some g) :
    update s.core p (some g.core) = s.core :=
  update_eq_self_iff.mpr (core_of_get hg).symm

theorem first_update_self (hg : s.heap.get p = some g) :
    update s.first p g.first_child = s.first :=
  update_eq_self_iff.mpr (first_of_get hg).symm

theorem next_update_self (hg : s.heap.get p = some g) :
    update s.next p g.next_sibling = s.next :=
  update_eq_self_iff.mpr (next_of_get hg).symm

theorem prev_update_self (hg : s.heap.get p = some g) :
    update s.prev p g.prev_sibling = s.prev :=
  update_eq_self_iff.mpr (prev_of_get hg).symm

variable {c : Grant}

theorem modify_first (v : Option Ptr) (hc : s.core p = some c) :
    ∃ s', s.modify p (fun g => { g with first_child := v }) = some s' ∧ SameBooks s s' ∧
      s'.core = s.core ∧ s'.first = update s.first p v ∧ s'.next = s.next ∧ s'.prev = s.prev := by
  obtain ⟨g, hg, -⟩ := get_of_core hc
  exact ⟨_, modify_eq hg, ⟨rfl, rfl, rfl⟩, (core_put s p _).trans (core_update_self (g := g) hg),
    first_put s p _, (next_put s p _).trans (next_update_self (g := g) hg),
    (prev_put s p _).trans (prev_update_self (g := g) hg)⟩

theorem modify_next (v : Option Ptr) (hc : s.core p = some c) :
    ∃ s', s.modify p (fun g => { g with next_sibling := v }) = some s' ∧ SameBooks s s' ∧
      s'.core = s.core ∧ s'.first = s.first ∧ s'.next = update s.next p v ∧ s'.prev = s.prev := by
  obtain ⟨g, hg, -⟩ := get_of_core hc
  exact ⟨_, modify_eq hg, ⟨rfl, rfl, rfl⟩, (core_put s p _).trans (core_update_self (g := g) hg),
    (first_put s p _).trans (first_update_self (g := g) hg), next_put s p _,
    (prev_put s p _).trans (prev_update_self (g := g) hg)⟩

theorem modify_prev (v : Option Ptr) (hc : s.core p = some c) :
    ∃ s', s.modify p (fun g => { g with prev_sibling := v }) = some s' ∧ SameBooks s s' ∧
      s'.core = s.core ∧ s'.first = s.first ∧ s'.next = s.next ∧ s'.prev = update s.prev p v := by
  obtain ⟨g, hg, -⟩ := get_of_core hc
  exact ⟨_, modify_eq hg, ⟨rfl, rfl, rfl⟩, (core_put s p _).trans (core_update_self (g := g) hg),
    (first_put s p _).trans (first_update_self (g := g) hg),
    (next_put s p _).trans (next_update_self (g := g) hg), prev_put s p _⟩

theorem put_core {f : Grant → Grant} (hg : s.heap.get p = some g)
    (hf : ∀ g, (f g).first_child = g.first_child ∧ (f g).next_sibling = g.next_sibling ∧
      (f g).prev_sibling = g.prev_sibling) :
    SameBooks s (s.put p (f g)) ∧ (s.put p (f g)).core = update s.core p (some (f g).core) ∧
      (s.put p (f g)).first = s.first ∧ (s.put p (f g)).next = s.next ∧
      (s.put p (f g)).prev = s.prev := by
  obtain ⟨hfirst, hnext, hprev⟩ := hf g
  rw [first_put, next_put, prev_put, hfirst, hnext, hprev]
  exact ⟨⟨rfl, rfl, rfl⟩, core_put s p _, first_update_self hg, next_update_self hg,
    prev_update_self hg⟩

theorem SameBooks.trans {s'' : State} (h : SameBooks s s') (h' : SameBooks s' s'') :
    SameBooks s s'' := ⟨h'.1.trans h.1, h'.2.1.trans h.2.1, h'.2.2.trans h.2.2⟩

end updates

/-! ## 2. What linking and unlinking do -/

section links

variable {s s' : State} {p q : Ptr} {g pg : Grant}

def Valid (s : State) (c : Option Ptr) : Prop := ∀ x, c = some x → ∃ g, s.core x = some g

theorem setPrev_spec {c : Option Ptr} (v : Option Ptr) (hc : Valid s c) :
    ∃ s', s.setPrev c v = some s' ∧ SameBooks s s' ∧ s'.core = s.core ∧ s'.first = s.first ∧
      s'.next = s.next ∧ ∀ y, s'.prev y = if c = some y then v else s.prev y := by
  cases c with
  | none => exact ⟨s, rfl, ⟨rfl, rfl, rfl⟩, rfl, rfl, rfl, fun y => by rw [if_neg (by simp)]⟩
  | some c =>
    obtain ⟨g, hg⟩ := hc c rfl
    obtain ⟨s', hrun, hbooks, hcore, hfirst, hnext, hprev⟩ := modify_prev v hg
    refine ⟨s', hrun, hbooks, hcore, hfirst, hnext, fun y => ?_⟩
    rw [hprev, update_apply]
    simp only [Option.some.injEq, eq_comm]

theorem linkChild_spec (hp : s.core p = none) (hq : s.heap.get q = some pg)
    (hhead : Valid s (s.first q)) (hg : g.first_child = none ∧ g.prev_sibling = none) :
    ∃ s', linkChild s q p pg g = some s' ∧
      SameBooks s s' ∧ s'.core = update s.core p (some g.core) ∧
      s'.first = update (update s.first p none) q (some p) ∧
      s'.next = update s.next p (s.first q) ∧
      ∀ y, s'.prev y = if s.first q = some y then some p else update s.prev p none y := by
  -- the grants that were there are still
  have hkeep : ∀ x c, s.core x = some c →
      (s.put p { g with next_sibling := pg.first_child }).core x = some c := by
    intro x c hc
    have hx : x ≠ p := by
      rintro rfl
      cases hp.symm.trans hc
    rw [core_put, update_of_ne hx, hc]
  have hvalid : Valid (s.put p { g with next_sibling := pg.first_child }) pg.first_child := by
    intro x hx
    obtain ⟨c, hc⟩ := hhead x ((first_of_get hq).trans hx)
    exact ⟨c, hkeep x c hc⟩
  obtain ⟨s₁, hrun₁, hbooks', hcore', hfirst', hnext', hprev'⟩ := setPrev_spec (some p) hvalid
  obtain ⟨s', hrun, hbooks, hcore, hfirst, hnext, hprev⟩ := modify_first (some p)
    (hcore' ▸ hkeep q pg.core (core_of_get hq))
  have hfirst₀ := (first_put s p { g with next_sibling := pg.first_child }).trans
    (congrArg (update s.first p) hg.1)
  have hprev₀ := (prev_put s p { g with next_sibling := pg.first_child }).trans
    (congrArg (update s.prev p) hg.2)
  rw [first_of_get hq]
  refine ⟨s', Option.bind_eq_some_iff.mpr ⟨s₁, hrun₁, hrun⟩, hbooks'.trans hbooks,
    (hcore.trans hcore').trans (core_put s p _), ?_, (hnext.trans hnext').trans (next_put s p _),
    fun y => ?_⟩
  · rw [hfirst, hfirst']
    exact congrArg (update · q (some p)) hfirst₀
  · rw [hprev, hprev', ← hprev₀]

theorem linkPast_spec (hq : s.core q = some pg) (hp : Valid s g.prev_sibling) :
    ∃ s', linkPast s g q = some s' ∧ SameBooks s s' ∧ s'.core = s.core ∧
      s'.first = (if g.prev_sibling = none then update s.first q g.next_sibling
        else s.first) ∧
      (∀ y, s'.next y = if g.prev_sibling = some y then g.next_sibling else s.next y) ∧
      s'.prev = s.prev := by
  rw [linkPast]
  cases hprev : g.prev_sibling with
  | some c =>
    obtain ⟨cg, hcg⟩ := hp c hprev
    obtain ⟨s', hrun, hbooks, hcore, hfirst, hnext, hprev⟩ := modify_next g.next_sibling hcg
    refine ⟨s', hrun, hbooks, hcore, by simp [hfirst], fun y => ?_, hprev⟩
    rw [hnext, update_apply]
    simp only [Option.some.injEq, eq_comm]
  | none =>
    obtain ⟨s', hrun, hbooks, hcore, hfirst, hnext, hprev⟩ := modify_first g.next_sibling hq
    exact ⟨s', hrun, hbooks, hcore, by simp [hfirst], fun y => by simp [hnext], hprev⟩

theorem unlinkChild_spec (hq : s.core q = some pg) (hp : Valid s g.prev_sibling)
    (hn : Valid s g.next_sibling) :
    ∃ s', unlinkChild s g q = some s' ∧ SameBooks s s' ∧ s'.core = s.core ∧
      s'.first = (if g.prev_sibling = none then update s.first q g.next_sibling
        else s.first) ∧
      (∀ y, s'.next y = if g.prev_sibling = some y then g.next_sibling else s.next y) ∧
      ∀ y, s'.prev y = if g.next_sibling = some y then g.prev_sibling else s.prev y := by
  obtain ⟨s₁, hrun₁, hbooks, hcore, hfirst, hnext, hprev⟩ := linkPast_spec hq hp
  have hvalid : Valid s₁ g.next_sibling := by rwa [Valid, hcore]
  obtain ⟨s', hrun, hbooks', hcore', hfirst', hnext', hprev'⟩ := setPrev_spec g.prev_sibling hvalid
  refine ⟨s', Option.bind_eq_some_iff.mpr ⟨s₁, hrun₁, hrun⟩, hbooks.trans hbooks',
    hcore'.trans hcore, hfirst'.trans hfirst, fun y => ?_, fun y => ?_⟩
  · rw [hnext', hnext]
  · rw [hprev', hprev]

end links

/-! ## 3. The shape of the tree -/

def State.parentOf (s : State) (p : Ptr) : Option Ptr := (s.core p).bind (·.parent)

structure Books (s : State) : Prop where
  index : ∀ id p, s.g_grants.get id = some p ↔ ∃ g, s.core p = some g ∧ g.id = id
  nodup : s.minted.Nodup
  bound : ∀ id ∈ s.minted, id ≠ 0 ∧ (s.g_next_grant_id = 0 ∨ id < s.g_next_grant_id)
  next_lt : s.g_next_grant_id < 2 ^ 64
  ids : ∀ p g, s.core p = some g → g.id ∈ s.minted

structure Children (s : State) (q : Ptr) (l : List Ptr) : Prop where
  linked : Linked s.next s.prev none (s.first q) l
  nodup : l.Nodup
  mem : ∀ c, c ∈ l ↔ s.parentOf c = some q

structure Tree (s : State) : Prop where
  parent : ∀ p g q, s.core p = some g → g.parent = some q →
    ∃ pg, s.core q = some pg ∧ g.depth = pg.depth + 1
  root : ∀ p g, s.core p = some g → g.parent = none → g.depth = 0
  depth : ∀ p g, s.core p = some g → g.depth ≤ KCAP_MAX_DEPTH
  children : ∀ q g, s.core q = some g → ∃ l, Children s q l

structure Shape (s : State) : Prop extends Books s, Tree s

section recore

variable {s s' : State} {p : Ptr} {g g' : Grant}

def SameTree (s s' : State) : Prop :=
  ∀ p, (s.core p).map (fun g => (g.id, g.depth, g.parent)) =
    (s'.core p).map (fun g => (g.id, g.depth, g.parent))

theorem sameTree_update (hg : s.core p = some g)
    (hcore : s'.core = update s.core p (some g'))
    (hsame : g'.id = g.id ∧ g'.depth = g.depth ∧ g'.parent = g.parent) : SameTree s s' := by
  intro x
  rw [hcore, update_apply]
  by_cases hx : x = p
  · rw [if_pos hx, hx, hg, Option.map_some, Option.map_some, hsame.1, hsame.2.1, hsame.2.2]
  · rw [if_neg hx]

theorem SameTree.symm (h : SameTree s s') : SameTree s' s := fun p => (h p).symm

theorem SameTree.get (h : SameTree s s') (hg : s.core p = some g) :
    ∃ g', s'.core p = some g' ∧ g'.id = g.id ∧ g'.depth = g.depth ∧ g'.parent = g.parent := by
  have hp := h p
  rw [hg, Option.map_some] at hp
  obtain ⟨g', hg', heq⟩ := Option.map_eq_some_iff.mp hp.symm
  simp only [Prod.mk.injEq] at heq
  exact ⟨g', hg', heq⟩

theorem SameTree.parentOf (h : SameTree s s') (p : Ptr) : s'.parentOf p = s.parentOf p := by
  have hp := congrArg (Option.bind · fun t => t.2.2) (h p)
  simp only [Option.bind_map] at hp
  exact hp.symm

theorem Books.recore (hs : Books s) (hbooks : SameBooks s s') (h : SameTree s s') : Books s' := by
  obtain ⟨hgrants, hnext, hminted⟩ := hbooks
  refine ⟨fun id x => ?_, hminted ▸ hs.nodup, ?_, hnext ▸ hs.next_lt, fun x c hc => ?_⟩
  · have hiff := hs.index id x
    grind [SameTree.get, SameTree.symm]
  · rw [hminted, hnext]
    exact hs.bound
  · obtain ⟨c', hc', hsame, -⟩ := h.symm.get hc
    rw [hminted, ← hsame]
    exact hs.ids x c' hc'

theorem Tree.recore (hs : Tree s) (h : SameTree s s') (hfirst : s'.first = s.first)
    (hnext : s'.next = s.next) (hprev : s'.prev = s.prev) : Tree s' := by
  refine ⟨fun x c q hc hq => ?_, fun x c hc hroot => ?_, fun x c hc => ?_, fun q c hc => ?_⟩
  · obtain ⟨c', hc', -, hdepth, hparent⟩ := h.symm.get hc
    obtain ⟨pg, hpg, hd⟩ := hs.parent x c' q hc' (hparent.trans hq)
    obtain ⟨pg', hpg', -, hdepth', -⟩ := h.get hpg
    exact ⟨pg', hpg', by rw [← hdepth, hd, hdepth']⟩
  · obtain ⟨c', hc', -, hdepth, hparent⟩ := h.symm.get hc
    exact hdepth.symm.trans (hs.root x c' hc' (hparent.trans hroot))
  · obtain ⟨c', hc', -, hdepth, -⟩ := h.symm.get hc
    exact hdepth ▸ hs.depth x c' hc'
  · obtain ⟨c', hc', -⟩ := h.symm.get hc
    obtain ⟨l, hl⟩ := hs.children q c' hc'
    refine ⟨l, ?_, hl.nodup, fun c => ?_⟩
    · rw [hfirst, hnext, hprev]
      exact hl.linked
    · rw [h.parentOf]
      exact hl.mem c

theorem Tree.of_heap (hs : Tree s) (hheap : s'.heap = s.heap) : Tree s' := by
  refine hs.recore (fun x => ?_) (funext fun x => ?_) (funext fun x => ?_) (funext fun x => ?_)
  · rw [State.core, State.core, hheap]
  · rw [State.first, State.first, hheap]
  · rw [State.next, State.next, hheap]
  · rw [State.prev, State.prev, hheap]

theorem Shape.recore (hs : Shape s) (hbooks : SameBooks s s') (hg : s.core p = some g)
    (hcore : s'.core = update s.core p (some g'))
    (hsame : g'.id = g.id ∧ g'.depth = g.depth ∧ g'.parent = g.parent)
    (hlinks : s'.first = s.first ∧ s'.next = s.next ∧ s'.prev = s.prev) : Shape s' := by
  have h := sameTree_update hg hcore hsame
  exact ⟨hs.toBooks.recore hbooks h, hs.toTree.recore h hlinks.1 hlinks.2.1 hlinks.2.2⟩

end recore

/-! ## 4. A new grant -/

section insert

variable {s s' : State} {p q : Ptr} {g : Grant}

theorem Tree.parentOf_some (hs : Tree s) (h : s.parentOf p = some q) : ∃ pg, s.core q = some pg := by
  obtain ⟨g, hg, hq⟩ := Option.bind_eq_some_iff.mp h
  obtain ⟨pg, hpg, -⟩ := hs.parent p g q hg hq
  exact ⟨pg, hpg⟩

theorem parentOf_update {v : Option Grant} (hcore : s'.core = update s.core p v) :
    s'.parentOf = update s.parentOf p (v.bind (·.parent)) := by
  funext x
  rw [State.parentOf, hcore, update_apply, update_apply]
  split <;> rfl

theorem Books.insert (hs : Books s) (hp : s.core p = none) (hid : g.id = s.g_next_grant_id)
    (hid0 : s.g_next_grant_id ≠ 0) (hcore : s'.core = update s.core p (some g))
    (hgrants : s'.g_grants = s.g_grants.set g.id p)
    (hnext : s'.g_next_grant_id = (s.g_next_grant_id + 1) % 2 ^ 64)
    (hminted : s'.minted = s.g_next_grant_id :: s.minted) : Books s' := by
  have hlt : ∀ id ∈ s.minted, id < s.g_next_grant_id := fun id h =>
    ((hs.bound id h).2).resolve_left hid0
  replace hcore := apply_of_update hcore
  have hnew : g.id ∉ s.minted := fun h => Nat.lt_irrefl _ (hid ▸ hlt _ h)
  refine ⟨fun id x => ?_, ?_, ?_, ?_, fun x c hc => ?_⟩
  · have hiff := hs.index id x
    grind [hs.ids x]
  · rw [hminted]
    exact List.nodup_cons.mpr ⟨hid ▸ hnew, hs.nodup⟩
  · have hwrap : (s.g_next_grant_id + 1) % 2 ^ 64 = 0 ∨
        (s.g_next_grant_id + 1) % 2 ^ 64 = s.g_next_grant_id + 1 := by
      have := hs.next_lt
      omega
    grind [hs.bound]
  · rw [hnext]
    exact Nat.mod_lt _ (by decide)
  · grind [hs.ids x]

theorem Tree.parentOf_ne (hs : Tree s) (hp : s.core p = none) (x : Ptr) : s.parentOf x ≠ some p := by
  intro hx
  obtain ⟨pg, hpg⟩ := hs.parentOf_some hx
  rw [hp] at hpg
  cases hpg

theorem Tree.insert (hs : Tree s) (hp : s.core p = none)
    (hcore : s'.core = update s.core p (some g)) (hself : s'.first p = none)
    (hparent : ∀ q, g.parent = some q → ∃ pg, s.core q = some pg ∧ g.depth = pg.depth + 1)
    (hroot : g.parent = none → g.depth = 0) (hdepth : g.depth ≤ KCAP_MAX_DEPTH)
    (hchildren : ∀ x c, s.core x = some c → ∃ l, Children s' x l) : Tree s' := by
  have hparentOf := apply_of_update (parentOf_update hcore)
  replace hcore := apply_of_update hcore
  refine ⟨fun x c q hc hq => ?_, fun x c hc => ?_, fun x c hc => ?_, fun x c hc => ?_⟩
  · have hold := hs.parent x c q
    grind
  · have hold := hs.root x c
    grind
  · have hold := hs.depth x c
    grind
  · by_cases hx : x = p
    · subst hx
      refine ⟨[], hself, List.nodup_nil, fun y => iff_of_false (List.not_mem_nil) fun hy => ?_⟩
      grind [hs.parentOf_ne hp y]
    · grind

theorem Children.disjoint {x y : Ptr} {l l' : List Ptr} (h : Children s x l) (h' : Children s y l')
    (hxy : x ≠ y) {c : Ptr} (hc : c ∈ l) : c ∉ l' := by
  grind [h.mem c, h'.mem c]

theorem Children.ne_of_core {x : Ptr} {l : List Ptr} (h : Children s x l) (hp : s.core p = none)
    {c : Ptr} (hc : c ∈ l) : c ≠ p := by
  grind [h.mem c, State.parentOf]

theorem Children.insert_root {x : Ptr} {l : List Ptr} (h : Children s x l) (hp : s.core p = none)
    (hxp : x ≠ p) (hcore : s'.core = update s.core p (some g)) (hroot : g.parent = none)
    (hfirst : s'.first = update s.first p none)
    (hnext : s'.next = update s.next p none)
    (hprev : s'.prev = update s.prev p none) : Children s' x l := by
  have hne : ∀ y ∈ l, y ≠ p := fun y hy => h.ne_of_core hp hy
  refine ⟨?_, h.nodup, fun c => ?_⟩
  · rw [hfirst, update_of_ne hxp]
    refine h.linked.congr ?_ ?_
    all_goals grind [apply_of_update hnext, apply_of_update hprev]
  · rw [h.mem, apply_of_update (parentOf_update hcore)]
    grind [State.parentOf]

theorem Children.insert_child {x : Ptr} {l lq : List Ptr} (h : Children s x l)
    (hq : Children s q lq) (hp : s.core p = none) (hxp : x ≠ p)
    (hcore : s'.core = update s.core p (some g)) (hparent : g.parent = some q)
    (hfirst : s'.first = update (update s.first p none) q (some p))
    (hnext : s'.next = update s.next p (s.first q))
    (hprev : ∀ y, s'.prev y = if s.first q = some y then some p else
      update s.prev p none y) :
    Children s' x (if x = q then p :: l else l) := by
  replace hnext := apply_of_update hnext
  have hne : ∀ y ∈ l, y ≠ p := fun y hy => h.ne_of_core hp hy
  have hmem : ∀ c, s'.parentOf c = some x ↔ (c = p ∧ x = q) ∨ s.parentOf c = some x := by
    grind [apply_of_update (parentOf_update hcore), State.parentOf]
  -- the head that gets a new predecessor is in the list of `q`
  have hhead : ∀ y, s.first q = some y → y ∈ lq := fun y hy => (hy ▸ hq.linked).head_mem
  by_cases hxq : x = q
  · subst hxq
    rw [if_pos rfl]
    refine ⟨?_, List.nodup_cons.mpr ⟨fun hmem => hne p hmem rfl, h.nodup⟩, by grind [h.mem]⟩
    rw [hfirst, update_self]
    refine h.linked.push (fun hmem => hne p hmem rfl) h.nodup ?_ ?_ ?_
    all_goals grind [update_apply, hq.ne_of_core hp]
  · rw [if_neg hxq]
    refine ⟨?_, h.nodup, by grind [h.mem]⟩
    rw [hfirst, update_of_ne hxq, update_of_ne hxp]
    refine h.linked.congr ?_ ?_
    all_goals grind [update_apply, h.disjoint hq hxq]

end insert

/-! ## 5. A deleted leaf -/

section remove

variable {s s' : State} {p q : Ptr} {g : Grant}

theorem read_erase {A : Type} (read : Option Grant → A) (s : State) (p : Ptr) :
    (fun x => read ((s.heap.erase p).get x)) =
      update (fun x => read (s.heap.get x)) p (read none) := by
  funext x
  rw [OrdMap.get_erase, update_apply]
  split <;> rfl

theorem core_erase (h : s'.heap = s.heap.erase p) : s'.core = update s.core p none := by
  rw [show s'.core = fun x => (s'.heap.get x).map Grant.core from rfl, h]
  exact read_erase (Option.map Grant.core) s p

theorem first_erase (h : s'.heap = s.heap.erase p) : s'.first = update s.first p none := by
  rw [show s'.first = fun x => (s'.heap.get x).bind (·.first_child) from rfl, h]
  exact read_erase (fun r => r.bind (·.first_child)) s p

theorem next_erase (h : s'.heap = s.heap.erase p) : s'.next = update s.next p none := by
  rw [show s'.next = fun x => (s'.heap.get x).bind (·.next_sibling) from rfl, h]
  exact read_erase (fun r => r.bind (·.next_sibling)) s p

theorem prev_erase (h : s'.heap = s.heap.erase p) : s'.prev = update s.prev p none := by
  rw [show s'.prev = fun x => (s'.heap.get x).bind (·.prev_sibling) from rfl, h]
  exact read_erase (fun r => r.bind (·.prev_sibling)) s p

theorem Books.remove (hs : Books s) (hg : s.core p = some g)
    (hcore : s'.core = update s.core p none)
    (hgrants : s'.g_grants = s.g_grants.erase g.id)
    (hnext : s'.g_next_grant_id = s.g_next_grant_id) (hminted : s'.minted = s.minted) :
    Books s' := by
  replace hcore := apply_of_update hcore
  refine ⟨fun id x => ?_, hminted ▸ hs.nodup, ?_, hnext ▸ hs.next_lt, fun x c hc => ?_⟩
  · have hiff := hs.index id x
    grind [hs.index g.id p]
  · rw [hminted, hnext]
    exact hs.bound
  · grind [hs.ids x c]

theorem Tree.remove (hs : Tree s) (hleaf : ∀ x, s.parentOf x ≠ some p)
    (hcore : s'.core = update s.core p none)
    (hchildren : ∀ x c, x ≠ p → s.core x = some c → ∃ l, Children s' x l) : Tree s' := by
  replace hcore := apply_of_update hcore
  have hback : ∀ x c, s'.core x = some c ↔ x ≠ p ∧ s.core x = some c := by
    grind
  refine ⟨fun x c q hc hq => ?_, fun x c hc => ?_, fun x c hc => ?_, by grind⟩
  · have hold := hs.parent x c q
    grind [hleaf x, State.parentOf]
  · exact hs.root x c ((hback x c).mp hc).2
  · exact hs.depth x c ((hback x c).mp hc).2

theorem Tree.no_children (hs : Tree s) (hg : s.core p = some g) (hfirst : s.first p = none) (x : Ptr) :
    s.parentOf x ≠ some p := by
  obtain ⟨l, hl⟩ := hs.children p g hg
  grind [hl.mem x, hl.linked.nil_iff]

theorem Tree.sibling (hs : Tree s) (hp : s.parentOf p = some q) {y : Ptr}
    (hy : s.prev p = some y ∨ s.next p = some y) : s.parentOf y = some q := by
  obtain ⟨pg, hpg⟩ := hs.parentOf_some hp
  obtain ⟨l, hl⟩ := hs.children q pg hpg
  have hmem : p ∈ l := (hl.mem p).mpr hp
  grind [hl.mem y, hl.linked.prev_mem hmem, hl.linked.next_mem hmem]

theorem Children.remove {x : Ptr} {l : List Ptr} (h : Children s x l)
    (hcore : s'.core = update s.core p none)
    (hfirst : s'.first x = if s.parentOf p = some x ∧ s.prev p = none then s.next p else s.first x)
    (hnext : ∀ y ∈ l, y ≠ p → s'.next y = if s.parentOf p = some x ∧ s.prev p = some y then
      s.next p else s.next y)
    (hprev : ∀ y ∈ l, y ≠ p → s'.prev y = if s.parentOf p = some x ∧ s.next p = some y then
      s.prev p else s.prev y) :
    Children s' x (l.erase p) := by
  refine ⟨?_, h.nodup.erase p, fun c => ?_⟩
  · by_cases hx : s.parentOf p = some x
    · have hp : p ∈ l := (h.mem p).mpr hx
      have hfree : ∀ b, (none : Option Ptr) = some b → b ∉ l := by
        intro b hb
        cases hb
      have hhead : s'.first x = if s.first x = some p then s.next p else s.first x := by
        simp only [hfirst, hx, true_and, h.linked.prev_eq_none_iff h.nodup hp]
      rw [hhead]
      refine h.linked.unlink h.nodup hfree hp (fun y hy hyp => ?_) fun y hy hyp => ?_
      · simp only [hnext y hy hyp, hx, true_and, h.linked.next_eq_iff h.nodup hfree hp hy]
      · simp only [hprev y hy hyp, hx, true_and, h.linked.next_eq_iff h.nodup hfree hy hp]
    · have hp : p ∉ l := fun hp => hx ((h.mem p).mp hp)
      rw [List.erase_of_not_mem hp, hfirst, if_neg fun h => hx h.1]
      exact h.linked.congr (by grind) (by grind)
  · rw [h.nodup.mem_erase_iff, h.mem, apply_of_update (parentOf_update hcore)]
    grind

end remove

/-! ## 6. The operations keep the shape -/

section operations

variable {s s' : State} {p q : Ptr} {g : Grant} {parent : Option (Ptr × Grant)}

def newborn (parent : Option (Ptr × Grant)) (id type : Nat) (wildcard : Bool) : Grant :=
  freshGrant id type (parent.elim 0 (·.2.depth + 1)) wildcard (parent.map (·.1))

def FitParent (s : State) (parent : Option (Ptr × Grant)) : Prop :=
  ∀ q pg, parent = some (q, pg) → s.heap.get q = some pg ∧ pg.depth < KCAP_MAX_DEPTH

theorem core_none_iff : s.core p = none ↔ s.heap.get p = none := Option.map_eq_none_iff

theorem Tree.parentOf_first (hs : Tree s) (hfirst : s.first p = some q) : s.parentOf q = some p := by
  obtain ⟨g, hg, -⟩ := Option.bind_eq_some_iff.mp hfirst
  obtain ⟨l, hl⟩ := hs.children p _ (core_of_get hg)
  exact (hl.mem q).mp ((hfirst ▸ hl.linked).head_mem)

theorem place_spec (id type : Nat) (wildcard : Bool)
    (hs : Tree s) (hp : s.heap.get p = none) (hparent : FitParent s parent) :
    ∃ s', place s parent id type wildcard p = some s' ∧ SameBooks s s' ∧
      s'.core = update s.core p (some (newborn parent id type wildcard)) ∧ Tree s' := by
  have hp' : s.core p = none := core_none_iff.mpr hp
  have hne : ∀ x c, s.core x = some c → x ≠ p := by
    rintro x c hc rfl
    rw [hp'] at hc
    cases hc
  cases parent with
  | none =>
    have hcore := core_put s p (freshGrant id type 0 wildcard none)
    have hfirst := first_put s p (freshGrant id type 0 wildcard none)
    refine ⟨_, rfl, ⟨rfl, rfl, rfl⟩, hcore, hs.insert hp' hcore ?_ ?_ (fun _ => rfl) (Nat.zero_le _) ?_⟩
    · exact (congrFun hfirst p).trans (update_self ..)
    · intro q hq
      cases hq
    · intro x c hc
      obtain ⟨l, hl⟩ := hs.children x c hc
      exact ⟨l, hl.insert_root hp' (hne x c hc) hcore rfl hfirst (next_put s p _) (prev_put s p _)⟩
  | some par =>
    obtain ⟨q, pg⟩ := par
    obtain ⟨hq, hdepth⟩ := hparent q pg rfl
    have hqp : q ≠ p := hne q _ (core_of_get hq)
    have hhead : Valid s (s.first q) := by
      intro x hx
      obtain ⟨c, hc, -⟩ := Option.bind_eq_some_iff.mp (hs.parentOf_first hx)
      exact ⟨c, hc⟩
    obtain ⟨s', hrun, hbooks, hcore, hfirst, hnext, hprev⟩ :=
      linkChild_spec (g := freshGrant id type (pg.depth + 1) wildcard (some q)) hp' hq hhead ⟨rfl, rfl⟩
    refine ⟨s', hrun, hbooks, hcore, hs.insert hp' hcore ?_ ?_ ?_ hdepth ?_⟩
    · rw [hfirst, update_of_ne hqp.symm, update_self]
    · rintro _ ⟨⟩
      exact ⟨pg.core, core_of_get hq, rfl⟩
    · intro hroot
      cases hroot
    · intro x c hc
      obtain ⟨l, hl⟩ := hs.children x c hc
      obtain ⟨lq, hlq⟩ := hs.children q _ (core_of_get hq)
      exact ⟨_, hl.insert_child hlq hp' (hne x c hc) hcore rfl hfirst hnext hprev⟩

theorem enter_spec (type : Nat) (wildcard : Bool)
    (hs : Shape s) (hp : s.heap.get p = none) (hparent : FitParent s parent)
    (hid : s.g_next_grant_id ≠ 0) :
    ∃ s', enter (takeId s) parent s.g_next_grant_id type wildcard p = some s' ∧
      s'.core = update s.core p (some (newborn parent s.g_next_grant_id type wildcard)) ∧
      s'.minted = s.g_next_grant_id :: s.minted ∧
      s'.g_next_grant_id = (s.g_next_grant_id + 1) % 2 ^ 64 ∧ Shape s' := by
  obtain ⟨s₁, hrun, ⟨hg, hn, hm⟩, hcore, htree⟩ := place_spec (s := takeId s) s.g_next_grant_id
    type wildcard (hs.toTree.of_heap rfl) hp hparent
  have hfree : s₁.g_grants.get s.g_next_grant_id = none := by
    rw [hg, Option.eq_none_iff_forall_ne_some]
    intro x hx
    obtain ⟨g, hg, hgid⟩ := (hs.index _ x).mp hx
    exact Nat.lt_irrefl _ (hgid ▸ ((hs.bound _ (hs.ids x g hg)).2).resolve_left hid)
  refine ⟨{ s₁ with g_grants := s₁.g_grants.set s.g_next_grant_id p },
    Option.bind_eq_some_iff.mpr ⟨s₁, hrun, Option.bind_eq_some_iff.mpr
      ⟨_, OrdMap.insert_of_get_none hfree, rfl⟩⟩, hcore, hm, hn, ?_, htree.of_heap rfl⟩
  exact hs.toBooks.insert (core_none_iff.mpr hp) rfl hid hcore
    (congrArg (fun m => OrdMap.set m _ p) hg) hn hm

theorem Tree.sibling_core (hs : Tree s) (hp : s.parentOf p = some q) {y : Ptr}
    (hy : s.prev p = some y ∨ s.next p = some y) : ∃ g, s.core y = some g := by
  obtain ⟨g, hg, -⟩ := Option.bind_eq_some_iff.mp (hs.sibling hp hy)
  exact ⟨g, hg⟩

theorem unlink_spec (hs : Tree s) (hg : s.heap.get p = some g) :
    ∃ s', unlink s g = some s' ∧ SameBooks s s' ∧ s'.core = s.core ∧
      (∀ x, s'.first x = if s.parentOf p = some x ∧ s.prev p = none then s.next p else s.first x) ∧
      (∀ y, s'.next y = if s.parentOf p ≠ none ∧ s.prev p = some y then s.next p else s.next y) ∧
      ∀ y, s'.prev y = if s.parentOf p ≠ none ∧ s.next p = some y then s.prev p else s.prev y := by
  have hparent : s.parentOf p = g.parent := by rw [State.parentOf, core_of_get hg]; rfl
  rw [next_of_get hg, prev_of_get hg, hparent, unlink]
  cases hq : g.parent with
  | none => exact ⟨s, rfl, ⟨rfl, rfl, rfl⟩, rfl, fun x => by simp, fun y => by simp, fun y => by simp⟩
  | some q =>
    have hp := hparent.trans hq
    obtain ⟨pg, hpg⟩ := hs.parentOf_some hp
    obtain ⟨s', hrun, hbooks, hcore, hfirst, hnext, hprev⟩ := unlinkChild_spec hpg
      (fun x hx => hs.sibling_core hp (.inl ((prev_of_get hg).trans hx)))
      (fun x hx => hs.sibling_core hp (.inr ((next_of_get hg).trans hx)))
    refine ⟨s', hrun, hbooks, hcore, fun x => ?_, fun y => by simp [hnext], fun y => by simp [hprev]⟩
    rw [hfirst]
    by_cases hp : g.prev_sibling = none
    · simp only [hp, if_true, update_apply, and_true, Option.some.injEq, eq_comm]
    · simp only [hp, if_false, and_false]

theorem grantDeleteLeaf_spec (hs : Shape s) (hc : s.core p = some g) (hfirst : s.first p = none) :
    ∃ s', grantDeleteLeaf s p = some s' ∧ (∀ x, s.parentOf x ≠ some p) ∧
      s'.core = update s.core p none ∧ s'.minted = s.minted ∧ Shape s' := by
  obtain ⟨r, hr, rfl⟩ := get_of_core hc
  obtain ⟨s₁, hs₁, ⟨hgr, hn, hm⟩, hcore, hfirst', hnext', hprev'⟩ := unlink_spec hs.toTree hr
  have hindex : s₁.g_grants.get r.id = some p := hgr ▸ (hs.index r.id p).mpr ⟨r.core, hc, rfl⟩
  have hremove : s₁.g_grants.remove r.id = some (p, s₁.g_grants.erase r.id) :=
    OrdMap.remove_eq_some_iff.mpr ⟨hindex, rfl⟩
  have hrun : grantDeleteLeaf s p =
      some { s₁ with g_grants := s₁.g_grants.erase r.id, heap := s₁.heap.erase p } := by
    rw [grantDeleteLeaf, hr, Option.bind_eq_bind, Option.bind_some,
      if_pos ((first_of_get hr).symm.trans hfirst), hs₁, Option.bind_eq_bind, Option.bind_some,
      hremove, Option.bind_eq_bind, Option.bind_some]
    exact if_pos rfl
  have hleaf := hs.no_children hc hfirst
  have hcore' : State.core { s₁ with g_grants := s₁.g_grants.erase r.id
                                     heap := s₁.heap.erase p } = update s.core p none :=
    (core_erase rfl).trans (congrArg (update · p none) hcore)
  refine ⟨_, hrun, hleaf, hcore', hm, ?_, hs.toTree.remove hleaf hcore' ?_⟩
  · exact hs.toBooks.remove hc hcore' (congrArg (OrdMap.erase · r.id) hgr) hn hm
  · intro x c hx hc
    obtain ⟨l, hl⟩ := hs.children x c hc
    -- a neighbour in this list makes it the list of the leaf
    have hside : ∀ y ∈ l, (s.prev p = some y ∨ s.next p = some y) →
        (s.parentOf p ≠ none ↔ s.parentOf p = some x) := by
      intro y hy hnear
      refine ⟨fun hne => ?_, fun heq => by rw [heq]; simp⟩
      obtain ⟨q, hq⟩ := Option.ne_none_iff_exists'.mp hne
      rw [hq, ← (hl.mem y).mp hy]
      exact (hs.toTree.sibling hq hnear).symm
    refine ⟨l.erase p, hl.remove hcore' ?_ (fun y hy hyp => ?_) fun y hy hyp => ?_⟩
    · rw [first_erase (s := s₁) rfl, update_of_ne hx, hfirst']
    · rw [next_erase (s := s₁) rfl, update_of_ne hyp, hnext']
      exact if_congr (and_congr_left fun h => hside y hy (Or.inl h)) rfl rfl
    · rw [prev_erase (s := s₁) rfl, update_of_ne hyp, hprev']
      exact if_congr (and_congr_left fun h => hside y hy (Or.inr h)) rfl rfl

theorem first_of_delete (h : grantDeleteLeaf s p = some s') : s.first p = none := by
  obtain ⟨g, hg, h⟩ := Option.bind_eq_some_iff.mp h
  split at h
  · exact (first_of_get hg).trans ‹_›
  · cases h

def Over (s : State) : Ptr → Ptr → Prop := Relation.ReflTransGen fun p q => s.parentOf q = some p

theorem deepest_spec (hs : Tree s) {n : Nat} (hg : s.core p = some g)
    (hn : KCAP_MAX_DEPTH < n + g.depth) :
    ∃ leaf, deepest s n p = some leaf ∧ Over s p leaf ∧ s.first leaf = none := by
  induction n generalizing p g with
  | zero =>
    have := hs.depth p g hg
    omega
  | succ n ih =>
    obtain ⟨r, hr, hrg⟩ := get_of_core hg
    rw [deepest, hr, Option.bind_eq_bind, Option.bind_some]
    cases hfirst : r.first_child with
    | none => exact ⟨p, rfl, .refl, (first_of_get hr).trans hfirst⟩
    | some c =>
      have hparent := hs.parentOf_first ((first_of_get hr).trans hfirst)
      obtain ⟨cg, hcg, hcp⟩ := Option.bind_eq_some_iff.mp hparent
      obtain ⟨pg, hpg, hdepth⟩ := hs.parent c cg p hcg hcp
      rw [hg] at hpg
      cases hpg
      obtain ⟨leaf, hleaf, hover, hend⟩ := ih hcg (by omega)
      exact ⟨leaf, hleaf, .head hparent hover, hend⟩

end operations

end GovinDos.Capability
