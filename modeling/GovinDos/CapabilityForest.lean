/-
  **The grants as a forest on their ids.**

  Pointers are reused once a grant is freed and ids are not, so what a history of commands
  does is told in ids: each command is one move of `forest`.
-/
import GovinDos.CapabilityTree
import GovinDos.Lib.Forest

namespace GovinDos.Capability

open Function

/-! ## 1. Reading the forest -/

structure Label where
  ptr : Ptr
  type : Nat
  depth : Nat
  wildcard : Bool
  devmem : DevMem
  irq : IrqAuth
  iommu : Nat

def Grant.label (g : Grant) (p : Ptr) : Label :=
  { ptr := p, type := g.type, depth := g.depth, wildcard := g.wildcard, devmem := g.devmem,
    irq := g.irq, iommu := g.iommu }

def entryOf (s : State) (p : Ptr) (g : Grant) : Forest.Entry Nat Label :=
  { parent := g.parent.bind fun q => (s.core q).map (·.id), dead := g.dead, label := g.label p }

def forest (s : State) : Forest Nat Label :=
  { node := fun id => (s.g_grants.get id).bind fun p => (s.core p).map (entryOf s p)
    used := {id | id ∈ s.minted} }

structure Contained (c p : Label) : Prop where
  type : c.type = p.type
  depth : c.depth = p.depth + 1
  devmem : p.wildcard = false → p.type = KCAP_GRANT_DEVMEM →
    p.devmem.base ≤ c.devmem.base ∧
      c.devmem.base + c.devmem.len ≤ p.devmem.base + p.devmem.len ∧
      c.devmem.flags &&& ~~~p.devmem.flags = 0
  irq : p.wildcard = false → p.type = KCAP_GRANT_IRQ_ROUTE → c.irq = p.irq
  iommu : p.wildcard = false → p.type = KCAP_GRANT_IOMMU_DEV → c.iommu = p.iommu

section reading

variable {s s' : State} {p q : Ptr} {g pg : Grant}

theorem Books.unique (hs : Books s) {p' : Ptr} {g' : Grant} (hg : s.core p = some g)
    (hg' : s.core p' = some g') (hid : g.id = g'.id) : p = p' := by
  have h := (hs.index g.id p).mpr ⟨g, hg, rfl⟩
  rw [(hs.index g.id p').mpr ⟨g', hg', hid.symm⟩] at h
  exact (Option.some.inj h).symm

theorem node_of_core (hs : Books s) (hg : s.core p = some g) :
    (forest s).node g.id = some (entryOf s p g) := by
  have hindex := (hs.index g.id p).mpr ⟨g, hg, rfl⟩
  simp only [forest, hindex, Option.bind_some, hg, Option.map_some]

theorem core_of_node (hs : Books s) {id : Nat} {e : Forest.Entry Nat Label}
    (he : (forest s).node id = some e) :
    ∃ p g, s.core p = some g ∧ g.id = id ∧ e = entryOf s p g := by
  obtain ⟨p, hp, he⟩ := Option.bind_eq_some_iff.mp he
  obtain ⟨g, hg, rfl⟩ := Option.map_eq_some_iff.mp he
  obtain ⟨g', hg', hid⟩ := (hs.index id p).mp hp
  rw [hg] at hg'
  cases hg'
  exact ⟨p, g, hg, hid, rfl⟩

theorem parent_of_parentOf (hs : Books s) (hg : s.core p = some g) (hpg : s.core q = some pg)
    (h : s.parentOf p = some q) : (forest s).Parent pg.id g.id := by
  refine ⟨entryOf s p g, node_of_core hs hg, ?_⟩
  rw [State.parentOf, hg, Option.bind_some] at h
  simp only [entryOf, h, Option.bind_some, hpg, Option.map_some]

theorem parentOf_of_parent (hs : Books s) {i : Nat} (hpg : s.core q = some pg)
    (h : (forest s).Parent pg.id i) : ∃ p g, s.core p = some g ∧ g.id = i ∧ s.parentOf p = some q := by
  obtain ⟨e, he, hparent⟩ := h
  obtain ⟨p, g, hg, hid, rfl⟩ := core_of_node hs he
  obtain ⟨q', hq', hid'⟩ := Option.bind_eq_some_iff.mp hparent
  obtain ⟨pg', hpg', hid'⟩ := Option.map_eq_some_iff.mp hid'
  cases hs.unique hpg hpg' hid'.symm
  exact ⟨p, g, hg, hid, by rw [State.parentOf, hg, Option.bind_some, hq']⟩

theorem over_of_over (hs : Shape s) (hg : s.core p = some g) (hpg : s.core q = some pg)
    (h : Over s q p) : (forest s).Over pg.id g.id := by
  induction h generalizing g with
  | refl =>
    rw [hg] at hpg
    cases hpg
    exact .refl
  | tail _ hparent ih =>
    obtain ⟨bg, hbg⟩ := hs.parentOf_some hparent
    exact (ih hbg).tail (parent_of_parentOf hs.toBooks hg hbg hparent)

theorem no_parent_of_leaf (hs : Books s) (hg : s.core p = some g)
    (hleaf : ∀ x, s.parentOf x ≠ some p) (i : Nat) : ¬ (forest s).Parent g.id i := by
  intro h
  obtain ⟨x, gx, -, -, hx⟩ := parentOf_of_parent hs hg h
  exact hleaf x hx

theorem forest_sound (hs : Shape s) : (forest s).Sound := by
  refine ⟨fun i e he => ?_, fun a i h => ?_⟩
  · obtain ⟨p, g, hg, rfl, -⟩ := core_of_node hs.toBooks he
    exact hs.ids p g hg
  · obtain ⟨e, he, hparent⟩ := h
    obtain ⟨p, g, hg, -, rfl⟩ := core_of_node hs.toBooks he
    obtain ⟨q, -, hq⟩ := Option.bind_eq_some_iff.mp hparent
    obtain ⟨pg, hpg, rfl⟩ := Option.map_eq_some_iff.mp hq
    exact ⟨_, node_of_core hs.toBooks hpg⟩

theorem liveWalk_spec (hs : Shape s) {n : Nat} (hg : s.core p = some g) (hn : g.depth < n) :
    liveWalk s n (some p) = some (.ok ()) ∧ (forest s).Live g.id ∨
      liveWalk s n (some p) = some (.error .DEAD) ∧ ¬ (forest s).Live g.id := by
  induction n generalizing p g with
  | zero => exact absurd hn (Nat.not_lt_zero _)
  | succ n ih =>
    obtain ⟨r, hr, rfl⟩ := get_of_core hg
    rw [Forest.live_iff_parent (node_of_core hs.toBooks hg)]
    rw [liveWalk, hr, Option.bind_eq_bind, Option.bind_some]
    cases hdead : r.dead with
    | true => exact Or.inr ⟨if_pos rfl, fun h => by cases h.1.symm.trans hdead⟩
    | false =>
      rw [if_neg (by simp)]
      cases hparent : r.parent with
      | none =>
        refine Or.inl ⟨by simp only [liveWalk], hdead, fun q hq => ?_⟩
        simp only [entryOf, Grant.core, hparent, Option.bind_none, reduceCtorEq] at hq
      | some q =>
        obtain ⟨pg, hpg, hdepth⟩ := hs.parent p r.core q hg hparent
        have heq : (entryOf s p r.core).parent = some pg.id := by
          simp only [entryOf, Grant.core, hparent, Option.bind_some, hpg, Option.map_some]
        have hlive : (∀ i, (entryOf s p r.core).parent = some i → (forest s).Live i) ↔
            (forest s).Live pg.id := by
          rw [heq]
          simp only [Option.some.injEq, forall_eq']
        rw [hlive]
        refine (ih hpg (by omega)).imp (And.imp_right fun h => ⟨hdead, h⟩) ?_
        exact And.imp_right fun h h' => h h'.2

end reading

/-! ## 2. One record changes -/

section updating

variable {s s' : State} {p : Ptr} {g : Grant}

theorem forest_update {id : Nat} {v : Option Grant} (hs : Books s) (hs' : Books s')
    (hcore : s'.core = update s.core p v) (hold : ∀ c, s.core p = some c → c.id = id)
    (hnew : ∀ c, v = some c → c.id = id) (hone : s.core p ≠ none ∨ v ≠ none)
    (hbelow : (s.core p).map (·.id) = v.map (·.id) ∨ ∀ x, s.parentOf x ≠ some p) :
    (forest s').node = update (forest s).node id (v.map (entryOf s' p)) := by
  have hself : s'.core p = v := by rw [hcore, update_self]
  have hother : ∀ x, x ≠ p → s'.core x = s.core x := by
    intro x hx
    rw [hcore, update_of_ne hx]
  -- the parents of the other records keep their ids
  have hentry : ∀ x c, s.core x = some c → entryOf s' x c = entryOf s x c := by
    intro x c hc
    have hparent : (c.parent.bind fun q => (s'.core q).map (·.id)) =
        c.parent.bind fun q => (s.core q).map (·.id) := by
      cases hq : c.parent with
      | none => rfl
      | some q =>
        by_cases hqp : q = p
        · subst hqp
          rcases hbelow with heq | hleaf
          · rw [Option.bind_some, Option.bind_some, hself, heq]
          · exact absurd (by rw [State.parentOf, hc, Option.bind_some, hq]) (hleaf x)
        · rw [Option.bind_some, Option.bind_some, hother q hqp]
    simp only [entryOf, hparent]
  funext i
  by_cases hi : i = id
  · subst hi
    rw [update_self]
    cases v with
    | some c =>
      rw [← hnew c rfl]
      exact node_of_core hs' hself
    | none =>
      rw [Option.map_none, Option.eq_none_iff_forall_ne_some]
      intro e he
      obtain ⟨x, c, hc, hid, -⟩ := core_of_node hs' he
      have hx : x ≠ p := by
        rintro rfl
        rw [hself] at hc
        cases hc
      obtain ⟨c₀, hc₀⟩ := Option.ne_none_iff_exists'.mp (hone.resolve_right (fun h => h rfl))
      rw [hother x hx] at hc
      exact hx (hs.unique hc hc₀ (hid.trans (hold c₀ hc₀).symm))
  · rw [update_of_ne hi]
    cases he : (forest s).node i with
    | some e =>
      obtain ⟨x, c, hc, rfl, rfl⟩ := core_of_node hs he
      have hx : x ≠ p := by
        rintro rfl
        exact hi (hold c hc)
      rw [node_of_core hs' ((hother x hx).trans hc), hentry x c hc]
    | none =>
      rw [Option.eq_none_iff_forall_ne_some]
      intro e' he'
      obtain ⟨x, c, hc, rfl, -⟩ := core_of_node hs' he'
      have hx : x ≠ p := by
        rintro rfl
        exact hi (hnew c (hself.symm.trans hc))
      rw [hother x hx] at hc
      rw [node_of_core hs hc] at he
      cases he

theorem forest_recore {g' : Grant} (hs : Books s) (hs' : Books s') (hg : s.core p = some g)
    (hcore : s'.core = update s.core p (some g')) (hid : g'.id = g.id) :
    (forest s').node = update (forest s).node g.id (some (entryOf s' p g')) := by
  refine forest_update hs hs' hcore (fun c hc => ?_) (fun c hc => ?_) (Or.inr (by simp))
    (Or.inl (by rw [hg, Option.map_some, Option.map_some, hid]))
  · rw [hg] at hc
    cases hc
    rfl
  · cases hc
    exact hid

theorem forest_insert (hs : Shape s) (hs' : Books s') (hp : s.core p = none)
    (hcore : s'.core = update s.core p (some g)) :
    (forest s').node = update (forest s).node g.id (some (entryOf s' p g)) := by
  refine forest_update hs.toBooks hs' hcore (fun c hc => ?_) (fun c hc => ?_) (Or.inr (by simp))
    (Or.inr (hs.toTree.parentOf_ne hp))
  · rw [hp] at hc
    cases hc
  · cases hc
    rfl

theorem forest_remove (hs : Books s) (hs' : Books s') (hg : s.core p = some g)
    (hcore : s'.core = update s.core p none) (hleaf : ∀ x, s.parentOf x ≠ some p) :
    (forest s').node = update (forest s).node g.id none := by
  refine forest_update hs hs' hcore (fun c hc => ?_) (fun c hc => ?_) (Or.inl (by rw [hg]; simp))
    (Or.inr hleaf)
  · rw [hg] at hc
    cases hc
    rfl
  · cases hc

end updating

/-! ## 3. Revocation -/

section revoke

variable {s s' : State} {p t : Ptr} {g : Grant}

theorem SameTree.parent_id (h : SameTree s s') (q : Ptr) :
    (s'.core q).map (·.id) = (s.core q).map (·.id) := by
  have hq := congrArg (Option.map Prod.fst) (h q)
  rw [Option.map_map, Option.map_map] at hq
  exact hq.symm

theorem SameTree.over_eq (h : SameTree s s') : Over s' = Over s := by
  have hp : s'.parentOf = s.parentOf := funext h.parentOf
  rw [Over, Over, hp]

theorem over_core (hg : s.core p = some g) (h : Over s p t) :
    ∃ gt, s.core t = some gt := by
  rcases Relation.ReflTransGen.cases_tail h with rfl | ⟨q, -, hq⟩
  · exact ⟨g, hg⟩
  · obtain ⟨gt, hgt, -⟩ := Option.bind_eq_some_iff.mp hq
    exact ⟨gt, hgt⟩

theorem markDead_spec (hs : Shape s) (hg : s.core t = some g) :
    ∃ s', s.modify t (fun g => { g with dead := true }) = some s' ∧ Shape s' ∧ SameTree s s' ∧
      (forest s').node = update (forest s).node g.id
        (some ⟨(entryOf s t g).parent, true, g.label t⟩) ∧ (forest s').used = (forest s).used := by
  obtain ⟨r, hr, hrg⟩ := get_of_core hg
  obtain ⟨hbooks, hcore, hfirst, hnext, hprev⟩ :=
    put_core (f := fun g => { g with dead := true }) hr fun g => ⟨rfl, rfl, rfl⟩
  have hsame := sameTree_update hg hcore (by rw [← hrg]; exact ⟨rfl, rfl, rfl⟩)
  have hshape := hs.recore hbooks hg hcore (by rw [← hrg]; exact ⟨rfl, rfl, rfl⟩)
    ⟨hfirst, hnext, hprev⟩
  refine ⟨_, modify_eq hr, hshape, hsame, ?_, ?_⟩
  · rw [forest_recore hs.toBooks hshape.toBooks hg hcore (by rw [← hrg]; rfl), ← hrg]
    simp only [entryOf, hsame.parent_id]
    rfl
  · simp only [forest, hbooks.2.2]

theorem revokeStep_spec (hs : Shape s) (hg : s.core t = some g) :
    ∃ s' r, revokeStep s t = some (s', r) ∧ Shape s' ∧
      Forest.Move Contained (forest s) (some g.id) (forest s') ∧
      ((forest s').node g.id = none ∧ r = .ok 0 ∨
        (forest s').node g.id ≠ none ∧ r = .error .AGAIN) := by
  obtain ⟨s₁, h₁, hs₁, hsame, hnode₁, hused₁⟩ := markDead_spec hs hg
  obtain ⟨g₁, hg₁, hid₁, -⟩ := hsame.get hg
  obtain ⟨leaf, hdeep, hover, hfirst⟩ :=
    deepest_spec (n := KCAP_MAX_DEPTH + 1) hs₁.toTree hg₁ (by omega)
  obtain ⟨lg₁, hlg₁⟩ := over_core hg₁ hover
  obtain ⟨lg, hlg, hlid, -⟩ := hsame.symm.get hlg₁
  obtain ⟨s', h', hleaf, hcore, hminted, hs'⟩ := grantDeleteLeaf_spec hs₁ hlg₁ hfirst
  have hnode := forest_remove hs₁.toBooks hs'.toBooks hlg₁ hcore hleaf
  rw [hnode₁, ← hlid] at hnode
  refine ⟨s', if leaf = t then .ok 0 else .error .AGAIN, ?_, hs', ?_, ?_⟩
  · rw [revokeStep, h₁, Option.bind_eq_bind, Option.bind_some, hdeep, Option.bind_eq_bind,
      Option.bind_some, h', Option.bind_some]
  · refine .revoke g.id lg.id (entryOf s t g) (node_of_core hs.toBooks hg) ?_ ?_ hnode ?_
    · exact over_of_over hs hlg hg (hsame.over_eq ▸ hover)
    · refine no_parent_of_leaf hs.toBooks hlg fun x => ?_
      rw [← hsame.parentOf]
      exact hleaf x
    · rw [← hused₁]
      simp only [forest, hminted]
  · by_cases hlt : leaf = t
    · subst hlt
      rw [hg] at hlg
      cases hlg
      exact Or.inl ⟨by rw [hnode, update_self], if_pos rfl⟩
    · have hne : g.id ≠ lg.id := fun h => hlt (hs.unique hg hlg h).symm
      refine Or.inr ⟨?_, if_neg hlt⟩
      rw [hnode, update_of_ne hne, update_self]
      simp

end revoke

/-! ## 4. New grants -/

section mint

variable {s s' s'' : State} {p q c : Ptr} {g pg : Grant} {type : Nat} {wildcard : Bool}
  {slab o : Option Ptr} {parent : Option (Ptr × Grant)}

def FreshSlab (s : State) (slab : Option Ptr) : Prop := ∀ p, slab = some p → s.heap.get p = none

structure Made (s : State) (parent : Option (Ptr × Grant)) (type : Nat) (wildcard : Bool) (c : Ptr)
    (s' : State) : Prop where
  shape : Shape s'
  free : s.core c = none
  core : s'.core = update s.core c (some (newborn parent s.g_next_grant_id type wildcard))
  minted : s'.minted = s.g_next_grant_id :: s.minted
  fresh : s.g_next_grant_id ∉ s.minted
  next : s'.g_next_grant_id = (s.g_next_grant_id + 1) % 2 ^ 64

theorem grantNew_made (type : Nat) (wildcard : Bool) (hs : Shape s) (hc : s.heap.get c = none)
    (hfit : FitParent s parent) (hid : s.g_next_grant_id ≠ 0) :
    ∃ s', grantNew s parent type wildcard (some c) = some (s', some c) ∧
      Made s parent type wildcard c s' := by
  have hdepth : ¬ (parent.any fun par => KCAP_MAX_DEPTH ≤ par.2.depth) = true := by
    cases parent with
    | none => simp
    | some par =>
      obtain ⟨q, pg⟩ := par
      have := (hfit q pg rfl).2
      simpa only [Option.any_some, decide_eq_true_eq, not_le] using this
  obtain ⟨s', hs', hcore, hminted, hnext, hshape⟩ := enter_spec type wildcard hs hc hfit hid
  refine ⟨s', ?_, hshape, core_none_iff.mpr hc, hcore, hminted, fun hmem => ?_, hnext⟩
  · unfold grantNew
    simp only [if_neg hdepth, if_neg hid, hs', Option.bind_eq_bind, Option.bind_some]
  · exact Nat.lt_irrefl _ (((hs.bound _ hmem).2).resolve_left hid)

theorem grantNew_spec (hs : Shape s) (hslab : FreshSlab s slab)
    (hparent : ∀ q pg, parent = some (q, pg) → s.heap.get q = some pg)
    (h : grantNew s parent type wildcard slab = some (s', o)) :
    o = none ∧ s' = s ∨ ∃ c, o = some c ∧ slab = some c ∧ Made s parent type wildcard c s' := by
  have hnew := h
  unfold grantNew at h
  split at h
  case isTrue =>
    cases h
    exact Or.inl ⟨rfl, rfl⟩
  case isFalse hdepth =>
  split at h
  · cases h
    exact Or.inl ⟨rfl, rfl⟩
  · rename_i c
    split at h
    · cases h
    · rename_i hid
      have hfit : FitParent s parent := by
        intro q pg hq
        refine ⟨hparent q pg hq, ?_⟩
        simpa only [hq, Option.any_some, decide_eq_true_eq, not_le] using hdepth
      obtain ⟨_, hrun, hmade⟩ := grantNew_made type wildcard hs (hslab c rfl) hfit hid
      cases hrun.symm.trans hnew
      exact Or.inr ⟨c, rfl, rfl, hmade⟩

structure SetsParams (f : Grant → Grant) : Prop where
  links : ∀ g, (f g).first_child = g.first_child ∧ (f g).next_sibling = g.next_sibling ∧
    (f g).prev_sibling = g.prev_sibling
  tree : ∀ g, (f g).id = g.id ∧ (f g).depth = g.depth ∧ (f g).parent = g.parent
  dead : ∀ g, (f g).dead = g.dead
  core : ∀ g, (f g).core = f g.core

structure Born (s : State) (pg : Grant) (c : Ptr) (g : Grant) (s' : State) : Prop where
  shape : Shape s'
  fresh : s.g_next_grant_id ∉ s.minted
  core : s'.core = update s.core c (some g)
  node : (forest s').node =
    update (forest s).node s.g_next_grant_id (some ⟨some pg.id, false, g.label c⟩)
  used : (forest s').used = insert s.g_next_grant_id (forest s).used

theorem Made.born {f : Grant → Grant} (hf : SetsParams f) (hs : Shape s)
    (h : Made s (some (q, pg)) type wildcard c s') (hq : s.heap.get q = some pg)
    (hmodify : s'.modify c f = some s'') :
    Born s pg c (f (newborn (some (q, pg)) s.g_next_grant_id type wildcard)) s'' := by
  obtain ⟨r, hr, hput⟩ := modify_eq_some hmodify
  obtain ⟨hbooks, hcore', hfirst, hnext, hprev⟩ := hput ▸ put_core hr hf.links
  have hself : s'.core c = some (newborn (some (q, pg)) s.g_next_grant_id type wildcard) := by
    rw [h.core, update_self]
  rw [hf.core, Option.some.inj ((core_of_get hr).symm.trans hself)] at hcore'
  obtain ⟨hid, hdepth, hparent⟩ := hf.tree (newborn (some (q, pg)) s.g_next_grant_id type wildcard)
  have hs'' := h.shape.recore hbooks hself hcore' ⟨hid, hdepth, hparent⟩ ⟨hfirst, hnext, hprev⟩
  have hqc : q ≠ c := by
    rintro rfl
    have hc := h.free
    rw [core_none_iff, hq] at hc
    cases hc
  have hq'' : s''.core q = some pg.core := by
    rw [hcore', update_of_ne hqc, h.core, update_of_ne hqc, core_of_get hq]
  refine ⟨hs'', h.fresh, by rw [hcore', h.core, update_idem], ?_, ?_⟩
  · have hentry : entryOf s'' c (f (newborn (some (q, pg)) s.g_next_grant_id type wildcard)) =
        ⟨some pg.id, false, (f (newborn (some (q, pg)) s.g_next_grant_id type wildcard)).label c⟩ := by
      rw [entryOf, hparent, hf.dead]
      simp only [newborn, freshGrant, Option.map_some, Option.bind_some, hq'', Grant.core]
    rw [forest_recore h.shape.toBooks hs''.toBooks hself hcore' hid,
      forest_insert hs h.shape.toBooks h.free h.core, hentry]
    exact update_idem ..
  · ext id
    simp only [forest, hbooks.2.2, h.minted, Set.mem_insert_iff, Set.mem_ofPred_eq, List.mem_cons]

theorem Born.move (h : Born s pg c g s') (hs : Shape s) (hq : s.heap.get q = some pg)
    (hlive : (forest s).Live pg.id) (hcontained : Contained (g.label c) (pg.label q)) :
    Forest.Move Contained (forest s) none (forest s') := by
  refine .mint s.g_next_grant_id _ h.fresh rfl ?_ ?_ h.node h.used
  · rintro _ ⟨⟩
    exact hlive
  · rintro _ e ⟨⟩ he
    have hnode := node_of_core hs.toBooks (core_of_get hq)
    rw [show pg.core.id = pg.id from rfl, he] at hnode
    cases hnode
    exact hcontained

end mint

end GovinDos.Capability
