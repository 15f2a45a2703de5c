/-
  **Blocks of pages in the custody of parties that each have a map of all pages.**

  A master map is what new parties start from.  A block is a set of pages with the parties
  that hold it and the bits its pages get back when a party stops holding it.  `Tidy Q` says
  that wherever a party holds nothing its map is as `Q` wants it; the moves keep it whatever
  `Q` is, as long as the bits that blocks give back satisfy `Q`.
-/
import Mathlib

namespace Custody

open Function

variable {X B P I : Type}

/-! ## 1. Views and moves -/

structure Holding (X B P : Type) where
  pages : Set X
  holders : Set P
  restore : B

structure View (X B P I : Type) where
  master : X → B
  map : P → Option (X → B)
  block : I → Option (Holding X B P)

open Classical in

noncomputable def paint (R : Set X) (o : B) (t : X → B) : X → B := fun x => if x ∈ R then o else t x

theorem paint_mem {R : Set X} {o : B} {t : X → B} {x : X} (hx : x ∈ R) : paint R o t x = o :=
  if_pos hx

theorem paint_not_mem {R : Set X} {o : B} {t : X → B} {x : X} (hx : x ∉ R) :
    paint R o t x = t x := if_neg hx

theorem paint_paint (R : Set X) (o o' : B) (t : X → B) :
    paint R o (paint R o' t) = paint R o t := by
  funext x
  by_cases hx : x ∈ R
  · rw [paint_mem hx, paint_mem hx]
  · rw [paint_not_mem hx, paint_not_mem hx, paint_not_mem hx]

noncomputable def View.paint [DecidableEq P] (v : View X B P I) (q : P) (R : Set X) (o : B) : View X B P I :=
  { v with map := Function.update v.map q ((v.map q).map (Custody.paint R o)) }

def View.setBlock [DecidableEq I] (v : View X B P I) (id : I) (h : Option (Holding X B P)) :
    View X B P I :=
  { v with block := Function.update v.block id h }

def View.setMap [DecidableEq P] (v : View X B P I) (q : P) (t : Option (X → B)) : View X B P I :=
  { v with map := Function.update v.map q t }

noncomputable def View.paintAll (v : View X B P I) (R : Set X) (o : B) : View X B P I :=
  { v with master := Custody.paint R o v.master, map := fun q => (v.map q).map (Custody.paint R o) }

/-- What may happen.  `Q` says which bits a page may have where nobody holds it,
    `N` which pages a new block may have. -/
inductive Move [DecidableEq P] [DecidableEq I] (Q : X → B → Prop)
    (N : View X B P I → Set X → Prop) : View X B P I → View X B P I → Prop
  | join (v : View X B P I) (q : P) : Move Q N v (v.setMap q (some v.master))
  | leave (v : View X B P I) (q : P) : Move Q N v (v.setMap q none)
  | hold (v : View X B P I) (id : I) (q : P) (h : Holding X B P) (o : B)
      (hfresh : v.block id = none) (hq : q ∈ h.holders) (hrestore : ∀ x ∈ h.pages, Q x h.restore)
      (hnew : N v h.pages) :
      Move Q N v ((v.setBlock id (some h)).paint q h.pages o)
  | repaint (v : View X B P I) (id : I) (h : Holding X B P) (q : P) (R : Set X) (o : B)
      (hid : v.block id = some h) (hq : q ∈ h.holders) (hR : R ⊆ h.pages) : Move Q N v (v.paint q R o)
  | extend (v : View X B P I) (id : I) (h : Holding X B P) (q : P) (o : B)
      (hid : v.block id = some h) :
      Move Q N v ((v.setBlock id (some { h with holders := insert q h.holders })).paint q h.pages o)
  | evict (v : View X B P I) (id : I) (h : Holding X B P) (q : P) (H : Set P)
      (hid : v.block id = some h) (hH : h.holders ⊆ insert q H) :
      Move Q N v ((v.setBlock id (some { h with holders := H })).paint q h.pages h.restore)
  | drop (v : View X B P I) (id : I) (h : Holding X B P) (hid : v.block id = some h)
      (hH : h.holders = ∅) : Move Q N v (v.setBlock id none)
  | recolor (v : View X B P I) (R : Set X) (o : B) (ho : ∀ x ∈ R, Q x o) : Move Q N v (v.paintAll R o)

abbrev Moves [DecidableEq P] [DecidableEq I] (Q : X → B → Prop)
    (N : View X B P I → Set X → Prop) : View X B P I → View X B P I → Prop :=
  Relation.ReflTransGen (Move Q N)

/-! ## 2. Tidiness -/

def View.Holds (v : View X B P I) (q : P) (x : X) : Prop :=
  ∃ id h, v.block id = some h ∧ q ∈ h.holders ∧ x ∈ h.pages

structure Tidy (Q : X → B → Prop) (v : View X B P I) : Prop where
  master : ∀ x, Q x (v.master x)
  outside : ∀ q t, v.map q = some t → ∀ x, ¬ v.Holds q x → Q x (t x)
  restore : ∀ id h, v.block id = some h → ∀ x ∈ h.pages, Q x h.restore

section rules

variable {Q : X → B → Prop} {N : View X B P I → Set X → Prop} {v v' : View X B P I}

section paint

variable [DecidableEq P]

theorem View.map_paint_some {q p : P} {R : Set X} {o : B} {t' : X → B}
    (h : (v.paint q R o).map p = some t') :
    ∃ t, v.map p = some t ∧ (p = q ∧ t' = Custody.paint R o t ∨ p ≠ q ∧ t' = t) := by
  change update v.map q _ p = _ at h
  by_cases hp : p = q
  · subst hp
    rw [update_self, Option.map_eq_some_iff] at h
    obtain ⟨t, ht, rfl⟩ := h
    exact ⟨t, ht, Or.inl ⟨rfl, rfl⟩⟩
  · rw [update_of_ne hp] at h
    exact ⟨t', h, Or.inr ⟨hp, rfl⟩⟩

theorem View.paint_paint (v : View X B P I) (q : P) (R : Set X) (o o' : B) :
    (v.paint q R o').paint q R o = v.paint q R o := by
  simp only [View.paint, update_self, update_idem, Option.map_map]
  congr 2
  exact congrArg (Option.map · _) (funext (Custody.paint_paint R o o'))

theorem View.paint_paintAll (v : View X B P I) (q : P) (R : Set X) (o : B) :
    (v.paintAll R o).paint q R o = v.paintAll R o := by
  have hself : ((v.map q).map (Custody.paint R o)).map (Custody.paint R o) =
      (v.map q).map (Custody.paint R o) := by
    rw [Option.map_map]
    exact congrArg (Option.map · _) (funext (Custody.paint_paint R o o))
  simp only [View.paint, View.paintAll, hself]
  congr 1
  exact update_eq_self q _

theorem Tidy.outside_paint {q : P} {R : Set X} {o : B}
    (hout : ∀ p t, v.map p = some t → ∀ x, ¬ v.Holds p x → (p = q → x ∉ R) → Q x (t x))
    (hR : ∀ x ∈ R, ¬ v.Holds q x → Q x o) :
    ∀ p t, (v.paint q R o).map p = some t → ∀ x, ¬ (v.paint q R o).Holds p x → Q x (t x) := by
  intro p t' ht' x hx
  have hx' : ¬ v.Holds p x := hx
  obtain ⟨t, ht, ⟨rfl, rfl⟩ | ⟨hne, rfl⟩⟩ := View.map_paint_some ht'
  · by_cases hxR : x ∈ R
    · rw [paint_mem hxR]
      exact hR x hxR hx'
    · rw [paint_not_mem hxR]
      exact hout p t ht x hx' fun _ => hxR
  · exact hout p t' ht x hx' fun h => absurd h hne

end paint

section blocks

variable [DecidableEq I] {h : Option (Holding X B P)}

@[simp] theorem View.block_setBlock_self (v : View X B P I) (id : I)
    (h : Option (Holding X B P)) : (v.setBlock id h).block id = h := by
  rw [View.setBlock]
  exact update_self id h v.block

theorem View.block_setBlock_of_ne {id id' : I} (hne : id' ≠ id) :
    (v.setBlock id h).block id' = v.block id' := by
  rw [View.setBlock]
  exact update_of_ne hne h v.block

theorem Tidy.restore_setBlock {id : I} (hv : Tidy Q v)
    (hnew : ∀ h' ∈ h, ∀ x ∈ h'.pages, Q x h'.restore) :
    ∀ id' h', (v.setBlock id h).block id' = some h' → ∀ x ∈ h'.pages, Q x h'.restore := by
  intro id' h' hid'
  by_cases hne : id' = id
  · subst hne
    rw [View.block_setBlock_self] at hid'
    exact hnew h' hid'
  · rw [View.block_setBlock_of_ne hne] at hid'
    exact hv.restore id' h' hid'

theorem View.Holds.setBlock {id : I} {p : P} {x : X}
    (hx : v.Holds p x)
    (hkeep : ∀ h₀, v.block id = some h₀ → p ∈ h₀.holders → x ∈ h₀.pages →
      ∃ h' ∈ h, p ∈ h'.holders ∧ x ∈ h'.pages) : (v.setBlock id h).Holds p x := by
  obtain ⟨id', h', hid', hp, hpage⟩ := hx
  by_cases hne : id' = id
  · subst hne
    obtain ⟨h'', hmem, hp', hpage'⟩ := hkeep h' hid' hp hpage
    exact ⟨id', h'', by rw [View.block_setBlock_self]; exact hmem, hp', hpage'⟩
  · exact ⟨id', h', by rw [View.block_setBlock_of_ne hne, hid'], hp, hpage⟩

end blocks

variable [DecidableEq P] [DecidableEq I]

theorem Tidy.enlarge {id : I} {h : Holding X B P} {q : P} {o : B} (hv : Tidy Q v)
    (hq : q ∈ h.holders) (hrestore : ∀ x ∈ h.pages, Q x h.restore)
    (hkeep : ∀ h₀, v.block id = some h₀ → h₀.holders ⊆ h.holders ∧ h₀.pages ⊆ h.pages) :
    Tidy Q ((v.setBlock id (some h)).paint q h.pages o) where
  master := hv.master
  outside := by
    apply Tidy.outside_paint
    · intro p t ht x hx _
      refine hv.outside p t ht x fun hx₀ => hx (hx₀.setBlock fun h₀ hid hp hpage => ?_)
      exact ⟨h, rfl, (hkeep h₀ hid).1 hp, (hkeep h₀ hid).2 hpage⟩
    · intro x hxR hx
      exact absurd ⟨id, h, View.block_setBlock_self v id _, hq, hxR⟩ hx
  restore := hv.restore_setBlock (by rintro _ ⟨⟩; exact hrestore)

/-- **One move keeps every map tidy.** -/
theorem Move.tidy (hm : Move Q N v v') (hv : Tidy Q v) : Tidy Q v' := by
  cases hm with
  | join q =>
    refine ⟨hv.master, fun p t ht x hx => ?_, hv.restore⟩
    change update v.map q _ p = _ at ht
    by_cases hp : p = q
    · rw [hp, update_self] at ht
      cases ht
      exact hv.master x
    · rw [update_of_ne hp] at ht
      exact hv.outside p t ht x hx
  | leave q =>
    refine ⟨hv.master, fun p t ht x hx => ?_, hv.restore⟩
    change update v.map q _ p = _ at ht
    by_cases hp : p = q
    · rw [hp, update_self] at ht
      cases ht
    · rw [update_of_ne hp] at ht
      exact hv.outside p t ht x hx
  | hold id q h o hfresh hq hrestore hnew =>
    refine hv.enlarge hq hrestore fun h₀ hid => ?_
    rw [hfresh] at hid
    cases hid
  | repaint id h q R o hid hq hR =>
    refine ⟨hv.master, ?_, hv.restore⟩
    apply Tidy.outside_paint
    · intro p t ht x hx _
      exact hv.outside p t ht x hx
    · intro x hxR hx
      exact absurd ⟨id, h, hid, hq, hR hxR⟩ hx
  | extend id h q o hid =>
    refine hv.enlarge (h := { h with holders := insert q h.holders }) (Set.mem_insert q _)
      (hv.restore id h hid) fun h₀ hid₀ => ?_
    rw [hid] at hid₀
    cases hid₀
    exact ⟨Set.subset_insert q _, subset_rfl⟩
  | evict id h q H hid hH =>
    refine ⟨hv.master, ?_, hv.restore_setBlock (by rintro _ ⟨⟩; exact hv.restore id h hid)⟩
    apply Tidy.outside_paint
    · -- a page that `p` held before and does not now is in the block, so `p` is `q`
      intro p t ht x hx hR
      refine hv.outside p t ht x fun hx₀ => hx (hx₀.setBlock fun h₀ hid₀ hp hpage => ?_)
      rw [hid] at hid₀
      cases hid₀
      rcases hH hp with rfl | hp'
      · exact absurd hpage (hR rfl)
      · exact ⟨_, rfl, hp', hpage⟩
    · intro x hxR _
      exact hv.restore id h hid x hxR
  | drop id h hid hH =>
    refine ⟨hv.master, fun p t ht x hx => ?_, hv.restore_setBlock (by rintro _ ⟨⟩)⟩
    refine hv.outside p t ht x fun hx₀ => hx (hx₀.setBlock fun h₀ hid₀ hp _ => ?_)
    rw [hid] at hid₀
    cases hid₀
    rw [hH] at hp
    exact absurd hp (Set.notMem_empty p)
  | recolor R o ho =>
    have hpaint : ∀ t x, (x ∉ R → Q x (t x)) → Q x (Custody.paint R o t x) := by
      intro t x h
      by_cases hx : x ∈ R
      · rw [paint_mem hx]
        exact ho x hx
      · rw [paint_not_mem hx]
        exact h hx
    refine ⟨fun x => hpaint _ x fun _ => hv.master x, fun p t ht x hx => ?_, hv.restore⟩
    obtain ⟨t₀, ht₀, rfl⟩ := Option.map_eq_some_iff.mp ht
    exact hpaint t₀ x fun _ => hv.outside p t₀ ht₀ x hx

theorem Moves.tidy (hm : Moves Q N v v') (hv : Tidy Q v) : Tidy Q v' := by
  induction hm with
  | refl => exact hv
  | tail _ hmove ih => exact hmove.tidy ih

/-! ## 3. Blocks that do not overlap -/

structure Spread (Z : Set X) (v : View X B P I) : Prop where
  pairwise : ∀ id id' h h', id ≠ id' → v.block id = some h → v.block id' = some h' →
    Disjoint h.pages h'.pages
  off : ∀ id h, v.block id = some h → Disjoint h.pages Z

def Unheld (Z : Set X) (v : View X B P I) (R : Set X) : Prop :=
  (∀ id h, v.block id = some h → Disjoint R h.pages) ∧ Disjoint R Z

omit [DecidableEq P] in
theorem Spread.setBlock {Z : Set X} {id : I} {h : Option (Holding X B P)} (hv : Spread Z v)
    (hpages : ∀ h' ∈ h, (∀ id' h₀, id' ≠ id → v.block id' = some h₀ → Disjoint h'.pages h₀.pages) ∧
      Disjoint h'.pages Z) : Spread Z (v.setBlock id h) where
  pairwise := by
    intro i j hi hj hne hgi hgj
    by_cases hid : i = id
    · subst hid
      rw [View.block_setBlock_self] at hgi
      rw [View.block_setBlock_of_ne (Ne.symm hne)] at hgj
      exact (hpages hi hgi).1 j hj (Ne.symm hne) hgj
    · rw [View.block_setBlock_of_ne hid] at hgi
      by_cases hjd : j = id
      · subst hjd
        rw [View.block_setBlock_self] at hgj
        exact ((hpages hj hgj).1 i hi hid hgi).symm
      · rw [View.block_setBlock_of_ne hjd] at hgj
        exact hv.pairwise i j hi hj hne hgi hgj
  off := by
    intro i hi hgi
    by_cases hid : i = id
    · subst hid
      rw [View.block_setBlock_self] at hgi
      exact (hpages hi hgi).2
    · rw [View.block_setBlock_of_ne hid] at hgi
      exact hv.off i hi hgi

omit [DecidableEq P] in
theorem Spread.setHolders {Z : Set X} {id : I} {h : Holding X B P} (hv : Spread Z v)
    (hid : v.block id = some h) (H : Set P) :
    Spread Z (v.setBlock id (some { h with holders := H })) := by
  refine hv.setBlock ?_
  rintro _ ⟨⟩
  exact ⟨fun id' h₀ hne hid' => hv.pairwise id id' h h₀ (Ne.symm hne) hid hid', hv.off id h hid⟩

theorem Move.spread {Z : Set X} (hm : Move Q (Unheld Z) v v') (hv : Spread Z v) : Spread Z v' := by
  cases hm with
  | hold id q h o hfresh hq hrestore hnew =>
    have hset : Spread Z (v.setBlock id (some h)) := by
      refine hv.setBlock ?_
      rintro _ ⟨⟩
      exact ⟨fun id' h₀ _ hid' => hnew.1 id' h₀ hid', hnew.2⟩
    exact ⟨hset.pairwise, hset.off⟩
  | extend id h q o hid =>
    have hset := hv.setHolders hid (insert q h.holders)
    exact ⟨hset.pairwise, hset.off⟩
  | evict id h q H hid hH =>
    have hset := hv.setHolders hid H
    exact ⟨hset.pairwise, hset.off⟩
  | drop id h hid hH => exact hv.setBlock (by rintro _ ⟨⟩)
  | _ => exact ⟨hv.pairwise, hv.off⟩

theorem Moves.spread {Z : Set X} (hm : Moves Q (Unheld Z) v v') (hv : Spread Z v) :
    Spread Z v' := by
  induction hm with
  | refl => exact hv
  | tail _ hmove ih => exact hmove.spread ih

omit [DecidableEq P] [DecidableEq I] in
/-- **A block that nobody holds is tidy in every map.** -/
theorem Tidy.vacant {Z : Set X} {id : I} {h : Holding X B P} (hv : Tidy Q v) (hs : Spread Z v)
    (hid : v.block id = some h) (hH : h.holders = ∅) {q : P} {t : X → B} (ht : v.map q = some t)
    {x : X} (hx : x ∈ h.pages) : Q x (t x) := by
  refine hv.outside q t ht x ?_
  rintro ⟨id', h', hid', hq, hx'⟩
  by_cases hne : id' = id
  · subst hne
    rw [hid] at hid'
    cases hid'
    rw [hH] at hq
    exact hq
  · exact Set.disjoint_left.mp (hs.pairwise id' id h' h hne hid' hid) hx' hx

end rules

end Custody
