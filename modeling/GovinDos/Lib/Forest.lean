/-
  **Forests that grow below live nodes and lose leaves.**

  Nodes are named by ids that are used once.  A node is minted below a live one, or revoked,
  which marks it dead and takes one leaf below it.  A node is live when no node above it,
  itself included, is dead: one that stopped being live stays so, nothing grows below it,
  and whether another is live depends only on the revocations above that one.
-/
import Mathlib

@[ext]
structure Forest.Entry (I A : Type) where
  parent : Option I
  dead : Bool
  label : A

structure Forest (I A : Type) where
  node : I → Option (Forest.Entry I A)
  used : Set I

namespace Forest

open Function

variable {I A : Type}

def Parent (f : Forest I A) (a i : I) : Prop := ∃ e, f.node i = some e ∧ e.parent = some a

def Over (f : Forest I A) : I → I → Prop := Relation.ReflTransGen f.Parent

def Live (f : Forest I A) (i : I) : Prop :=
  ∀ a, f.Over a i → ∃ e, f.node a = some e ∧ e.dead = false

def Below (f : Forest I A) (t : I) : Set I := {i | f.Over t i ∧ i ≠ t}

structure Sound (f : Forest I A) : Prop where
  known : ∀ i e, f.node i = some e → i ∈ f.used
  closed : ∀ a i, f.Parent a i → ∃ e, f.node a = some e

def Graded (R : A → A → Prop) (f : Forest I A) : Prop :=
  ∀ i e q eq, f.node i = some e → e.parent = some q → f.node q = some eq → R e.label eq.label

variable {f : Forest I A} {a i t : I}

theorem Live.node (h : f.Live i) : ∃ e, f.node i = some e ∧ e.dead = false := h i .refl

theorem Live.above (h : f.Live i) (ha : f.Over a i) : f.Live a := fun b hb => h b (hb.trans ha)

theorem live_iff_parent {e : Entry I A} (he : f.node i = some e) :
    f.Live i ↔ e.dead = false ∧ ∀ q, e.parent = some q → f.Live q := by
  constructor
  · intro h
    obtain ⟨e', he', hdead⟩ := h.node
    rw [he] at he'
    cases he'
    exact ⟨hdead, fun q hq => h.above (.single ⟨e, he, hq⟩)⟩
  · rintro ⟨hdead, hparent⟩ a ha
    rcases Relation.ReflTransGen.cases_tail ha with rfl | ⟨q, haq, e', he', hq⟩
    · exact ⟨e, he, hdead⟩
    · rw [he] at he'
      cases he'
      exact hparent q hq a haq

theorem eq_of_over_leaf (hleaf : ∀ i, ¬ f.Parent a i) (h : f.Over a i) : i = a := by
  rcases Relation.ReflTransGen.cases_head h with heq | ⟨b, hb, -⟩
  · exact heq.symm
  · exact absurd hb (hleaf b)

theorem node_of_below (h : i ∈ f.Below t) : ∃ e, f.node i = some e := by
  rcases Relation.ReflTransGen.cases_tail h.1 with heq | ⟨q, -, e, he, -⟩
  · exact absurd heq h.2
  · exact ⟨e, he⟩

theorem Sound.over_node (hf : f.Sound) (h : f.Over a i) {e : Entry I A} (hi : f.node i = some e) :
    ∃ e, f.node a = some e := by
  rcases Relation.ReflTransGen.cases_head h with rfl | ⟨b, hb, -⟩
  · exact ⟨e, hi⟩
  · exact hf.closed a b hb

/-! ## Moves -/

section moves

variable [DecidableEq I] {R : A → A → Prop} {f f' g g' : Forest I A} {target : Option I} {a i t : I}
  {e' e : Entry I A}

inductive Move (R : A → A → Prop) (f : Forest I A) : Option I → Forest I A → Prop
  | skip {target : Option I} {f' : Forest I A} (hnode : f'.node = f.node) (hused : f.used ⊆ f'.used)
      (htarget : ∀ t, target = some t → f.node t = none) : Move R f target f'
  | mint {f' : Forest I A} (i : I) (e : Entry I A) (hi : i ∉ f.used) (hdead : e.dead = false)
      (hlive : ∀ q, e.parent = some q → f.Live q)
      (hlabel : ∀ q eq, e.parent = some q → f.node q = some eq → R e.label eq.label)
      (hnode : f'.node = Function.update f.node i (some e)) (hused : f'.used = insert i f.used) :
      Move R f none f'
  | revoke {f' : Forest I A} (t leaf : I) (e : Entry I A) (ht : f.node t = some e)
      (hover : f.Over t leaf) (hleaf : ∀ i, ¬ f.Parent leaf i)
      (hnode : f'.node =
        Function.update (Function.update f.node t (some { e with dead := true })) leaf none)
      (hused : f'.used = f.used) : Move R f (some t) f'

theorem Move.used (h : Move R f target f') : f.used ⊆ f'.used := by
  cases h with
  | skip hnode hused htarget => exact hused
  | mint i e hi hdead hlive hlabel hnode hused => exact hused ▸ Set.subset_insert i f.used
  | revoke t leaf e ht hover hleaf hnode hused => exact hused ▸ subset_rfl

theorem Move.entry (h : Move R f target f') (hi : i ∈ f.used)
    (he' : f'.node i = some e') :
    ∃ e, f.node i = some e ∧ e.parent = e'.parent ∧ e.label = e'.label ∧
      (e'.dead = false → e.dead = false) := by
  cases h with
  | skip hnode hused htarget =>
    rw [hnode] at he'
    exact ⟨e', he', rfl, rfl, fun hd => hd⟩
  | mint j e hj hdead hlive hlabel hnode hused =>
    have hij : i ≠ j := by
      rintro rfl
      exact hj hi
    rw [hnode, update_of_ne hij] at he'
    exact ⟨e', he', rfl, rfl, fun hd => hd⟩
  | revoke t leaf e ht hover hleaf hnode hused =>
    rw [hnode, update_apply] at he'
    split at he'
    · cases he'
    · rw [update_apply] at he'
      split at he'
      · rename_i hit
        cases he'
        exact ⟨e, hit ▸ ht, rfl, rfl, fun hd => by cases hd⟩
      · exact ⟨e', he', rfl, rfl, fun hd => hd⟩

theorem Move.keeps (h : Move R f none f') (hi : i ∈ f.used) : f'.node i = f.node i := by
  cases h with
  | skip hnode hused htarget => rw [hnode]
  | mint j e hj hdead hlive hlabel hnode hused =>
    have hij : i ≠ j := by
      rintro rfl
      exact hj hi
    rw [hnode, update_of_ne hij]

theorem Move.sound (hf : f.Sound) (h : Move R f target f') : f'.Sound := by
  cases h with
  | skip hnode hused htarget =>
    refine ⟨fun j e he => hused (hf.known j e (hnode ▸ he)), fun a j ha => ?_⟩
    obtain ⟨e, he, hp⟩ := ha
    rw [hnode] at he ⊢
    exact hf.closed a j ⟨e, he, hp⟩
  | mint j e hj hdead hlive hlabel hnode hused =>
    have hkeep : ∀ a e, f.node a = some e → f'.node a = some e := by
      intro a ea ha
      have haj : a ≠ j := by
        rintro rfl
        exact hj (hf.known a ea ha)
      rw [hnode, update_of_ne haj, ha]
    refine ⟨fun k ek hk => ?_, fun a k hak => ?_⟩
    · rw [hnode, update_apply] at hk
      rw [hused]
      split at hk
      · rename_i hkj
        exact Or.inl hkj
      · exact Or.inr (hf.known k ek hk)
    · obtain ⟨ek, hk, hp⟩ := hak
      rw [hnode, update_apply] at hk
      split at hk
      · cases hk
        obtain ⟨ea, ha, -⟩ := (hlive a hp).node
        exact ⟨ea, hkeep a ea ha⟩
      · obtain ⟨ea, ha⟩ := hf.closed a k ⟨ek, hk, hp⟩
        exact ⟨ea, hkeep a ea ha⟩
  | revoke t leaf e ht hover hleaf hnode hused =>
    have hback : ∀ k ek, f'.node k = some ek → ∃ e₀, f.node k = some e₀ ∧ e₀.parent = ek.parent := by
      intro k ek hk
      rw [hnode, update_apply] at hk
      split at hk
      · cases hk
      · rw [update_apply] at hk
        split at hk
        · rename_i hkt
          cases hk
          exact ⟨e, hkt ▸ ht, rfl⟩
        · exact ⟨ek, hk, rfl⟩
    refine ⟨fun k ek hk => ?_, fun a k hak => ?_⟩
    · obtain ⟨e₀, he₀, -⟩ := hback k ek hk
      exact hused ▸ hf.known k e₀ he₀
    · obtain ⟨ek, hk, hp⟩ := hak
      obtain ⟨e₀, he₀, hp₀⟩ := hback k ek hk
      have hak' : f.Parent a k := ⟨e₀, he₀, hp₀.trans hp⟩
      have hal : a ≠ leaf := by
        rintro rfl
        exact hleaf k hak'
      obtain ⟨ea, ha⟩ := hf.closed a k hak'
      rw [hnode, update_of_ne hal, update_apply]
      split
      · exact ⟨_, rfl⟩
      · exact ⟨ea, ha⟩

theorem Move.graded (hf : f.Sound) (h : Move R f target f') (hR : f.Graded R) : f'.Graded R := by
  have hf' := h.sound hf
  intro i e q eq hi hp hq
  by_cases hnew : i ∈ f.used
  · obtain ⟨e₀, he₀, hp₀, hl₀, -⟩ := h.entry hnew hi
    obtain ⟨eq₀, heq₀⟩ := hf.closed q i ⟨e₀, he₀, hp₀.trans hp⟩
    obtain ⟨eq₁, heq₁, -, hl₁, -⟩ := h.entry (hf.known q eq₀ heq₀) hq
    rw [← hl₀, ← hl₁]
    exact hR i e₀ q eq₁ he₀ (hp₀.trans hp) heq₁
  · -- a node that was not there before is the minted one
    cases h with
    | skip hnode hused htarget => exact absurd (hf.known i e (hnode ▸ hi)) hnew
    | mint j ej hj hdead hlive hlabel hnode hused =>
      rw [hnode, update_apply] at hi
      split at hi
      · cases hi
        obtain ⟨eq₀, heq₀, -⟩ := (hlive q hp).node
        have hqj : q ≠ j := by
          rintro rfl
          exact hj (hf.known q eq₀ heq₀)
        rw [hnode, update_of_ne hqj] at hq
        exact hlabel q eq hp hq
      · exact absurd (hf.known i e hi) hnew
    | revoke t leaf et ht hover hleaf hnode hused =>
      exact absurd (hused ▸ hf'.known i e hi) hnew

theorem Move.over_iff (hf : f.Sound) (h : Move R f target f') (hi : i ∈ f.used)
    (he' : f'.node i = some e') : f'.Over a i ↔ f.Over a i := by
  have hf' := h.sound hf
  constructor
  · intro hover
    induction hover generalizing e' with
    | refl => exact .refl
    | @tail b c _ hbc ih =>
      obtain ⟨ec, hc, hp⟩ := hbc
      obtain ⟨e₀, he₀, hp₀, -⟩ := h.entry hi hc
      have hbc₀ : f.Parent b c := ⟨e₀, he₀, hp₀.trans hp⟩
      obtain ⟨eb, hb⟩ := hf.closed b c hbc₀
      obtain ⟨eb', hb'⟩ := hf'.closed b c ⟨ec, hc, hp⟩
      exact (ih (hf.known b eb hb) hb').tail hbc₀
  · intro hover
    induction hover generalizing e' with
    | refl => exact .refl
    | @tail b c _ hbc ih =>
      obtain ⟨e₀, he₀, hp₀, -⟩ := h.entry hi he'
      obtain ⟨ec, hc, hp⟩ := hbc
      rw [he₀] at hc
      cases hc
      have hbc' : f'.Parent b c := ⟨e', he', hp₀.symm.trans hp⟩
      obtain ⟨eb, hb⟩ := hf.closed b c ⟨e₀, he₀, hp⟩
      obtain ⟨eb', hb'⟩ := hf'.closed b c hbc'
      exact (ih (hf.known b eb hb) hb').tail hbc'

theorem Move.live_mono (hf : f.Sound) (h : Move R f target f') (hi : i ∈ f.used) (hlive : f'.Live i) :
    f.Live i := by
  obtain ⟨e', he', -⟩ := hlive.node
  intro a ha
  obtain ⟨e, he, -⟩ := h.entry hi he'
  obtain ⟨ea, hea⟩ := hf.over_node ha he
  obtain ⟨ea', hea', hdead⟩ := hlive a ((h.over_iff hf hi he').mpr ha)
  obtain ⟨ea₀, hea₀, -, -, hback⟩ := h.entry (hf.known a ea hea) hea'
  exact ⟨ea₀, hea₀, hback hdead⟩

theorem Move.live_iff (hf : f.Sound) (h : Move R f target f') (hi : i ∈ f.used) :
    f'.Live i ↔ f.Live i ∧ ∀ t, target = some t → ¬ f.Over t i := by
  constructor
  · intro hlive
    have hlive₀ := h.live_mono hf hi hlive
    obtain ⟨e', he', -⟩ := hlive.node
    refine ⟨hlive₀, ?_⟩
    rintro t rfl hover
    have hover' := (h.over_iff hf hi he').mpr hover
    cases h with
    | skip hnode hused htarget =>
      obtain ⟨et, het, -⟩ := hlive₀ t hover
      rw [htarget t rfl] at het
      cases het
    | revoke t leaf e ht hbelow hleaf hnode hused =>
      obtain ⟨et, het, hdead⟩ := hlive t hover'
      rw [hnode, update_apply] at het
      split at het
      · cases het
      · rw [update_self] at het
        cases het
        cases hdead
  · rintro ⟨hlive, hout⟩
    -- neither the target nor its leaf is above the node
    have hkeep : ∀ a, f.Over a i → f'.node a = f.node a := by
      intro a ha
      obtain ⟨ea, hea, -⟩ := hlive a ha
      have hmove := h
      cases h with
      | skip hnode hused htarget => rw [hnode]
      | mint j e hj hdead hlive hlabel hnode hused => exact hmove.keeps (hf.known a ea hea)
      | revoke t leaf e ht hbelow hleaf hnode hused =>
        have hat : a ≠ t := by
          rintro rfl
          exact hout a rfl ha
        have hal : a ≠ leaf := by
          rintro rfl
          cases eq_of_over_leaf hleaf ha
          exact hout t rfl hbelow
        rw [hnode, update_of_ne hal, update_of_ne hat]
    obtain ⟨e, he, hd⟩ := hlive.node
    intro a ha
    rw [h.over_iff hf hi (hkeep i .refl ▸ he)] at ha
    rw [hkeep a ha]
    exact hlive a ha

theorem Move.over_old (hf : f.Sound) (h : Move R f target f') (ht : t ∈ f.used) (hdead : ¬ f.Live t)
    (hover : f'.Over t i) (he' : f'.node i = some e') : f.Over t i := by
  by_cases hi : i ∈ f.used
  · exact (h.over_iff hf hi he').mp hover
  · exfalso
    have hmove := h
    cases h with
    | skip hnode hused htarget => exact hi (hf.known i e' (hnode ▸ he'))
    | mint j e hj hd hlive hlabel hnode hused =>
      rcases Relation.ReflTransGen.cases_tail hover with rfl | ⟨q, htq, eq, heq, hp⟩
      · exact hi ht
      · rw [hnode, update_apply] at heq
        split at heq
        · cases heq
          obtain ⟨e₀, he₀, -⟩ := (hlive q hp).node
          have hq := hf.known q e₀ he₀
          have htq' := (hmove.over_iff hf hq ((hmove.keeps hq).trans he₀)).mp htq
          exact hdead ((hlive q hp).above htq')
        · exact hi (hf.known i eq heq)
    | revoke t leaf e ht' hbelow hleaf hnode hused =>
      exact hi (hused ▸ (hmove.sound hf).known i e' he')

theorem Move.gone (h : Move R f target f') (hi : i ∈ f.used) (hgone : f.node i = none) :
    f'.node i = none := by
  rw [Option.eq_none_iff_forall_ne_some]
  intro e' he'
  obtain ⟨e, he, -⟩ := h.entry hi he'
  rw [hgone] at he
  cases he

theorem Move.revoked (hf : f.Sound) (h : Move R f (some t) f')
    (ht : f.node t = some e) (hfin : (f.Below t).Finite) :
    ¬ f'.Live t ∧ ((f.Below t).ncard = 0 ∧ f'.node t = none ∨
      (f.Below t).ncard = (f'.Below t).ncard + 1 ∧ f'.Below t ⊆ f.Below t ∧
        ∃ e', f'.node t = some e') := by
  have hused := hf.known t e ht
  have hdead : ¬ f'.Live t := fun hlive => ((h.live_iff hf hused).mp hlive).2 t rfl .refl
  refine ⟨hdead, ?_⟩
  have hmove := h
  cases h with
  | skip hnode hu htarget =>
    rw [htarget t rfl] at ht
    cases ht
  | revoke t leaf et ht' hbelow hleaf hnode hu =>
    by_cases hl : leaf = t
    · subst hl
      refine Or.inl ⟨?_, by rw [hnode, update_self]⟩
      rw [Set.ncard_eq_zero hfin, Set.eq_empty_iff_forall_notMem]
      exact fun i hi => hi.2 (eq_of_over_leaf hleaf hi.1)
    · have ht₁ : f'.node t = some { et with dead := true } := by
        rw [hnode, update_of_ne (Ne.symm hl), update_self]
      have hset : f'.Below t = f.Below t \ {leaf} := by
        ext i
        constructor
        · rintro ⟨hover, hit⟩
          obtain ⟨ei, hei⟩ := node_of_below ⟨hover, hit⟩
          have hiu : i ∈ f.used := hu ▸ (hmove.sound hf).known i ei hei
          refine ⟨⟨(hmove.over_iff hf hiu hei).mp hover, hit⟩, ?_⟩
          rintro rfl
          rw [hnode, update_self] at hei
          cases hei
        · rintro ⟨⟨hover, hit⟩, hil⟩
          obtain ⟨ei, hei⟩ := node_of_below ⟨hover, hit⟩
          have hei' : f'.node i = some ei := by
            rw [hnode, update_of_ne hil, update_of_ne hit, hei]
          exact ⟨(hmove.over_iff hf (hf.known i ei hei) hei').mpr hover, hit⟩
      have hmem : leaf ∈ f.Below t := ⟨hbelow, hl⟩
      refine Or.inr ⟨?_, hset ▸ Set.sdiff_subset, _, ht₁⟩
      rw [hset, Set.ncard_sdiff_singleton_add_one hmem hfin]

def Spares (t : I) (f f' : Forest I A) : Prop :=
  ∀ i e, f.Over t i → f.node i = some e → ∃ e', f'.node i = some e'

theorem Move.old (h : Move R f (some t) f') :
    (∀ i e, f'.node i = some e → ∃ e₀, f.node i = some e₀) ∧
      ∀ i, ¬ f.Over t i → f'.node i = f.node i := by
  cases h with
  | skip hnode hused htarget => exact ⟨fun i e he => ⟨e, hnode ▸ he⟩, fun i _ => by rw [hnode]⟩
  | revoke t leaf et ht hbelow hleaf hnode hused =>
    refine ⟨fun i e he => ?_, fun i hout => ?_⟩
    · rw [hnode, update_apply] at he
      split at he
      · cases he
      · rw [update_apply] at he
        split at he
        · rename_i hit
          exact ⟨et, hit ▸ ht⟩
        · exact ⟨e, he⟩
    · have hil : i ≠ leaf := by
        rintro rfl
        exact hout hbelow
      have hit : i ≠ t := by
        rintro rfl
        exact hout .refl
      rw [hnode, update_of_ne hil, update_of_ne hit]

theorem Move.spared (hf : f.Sound) (h : Move R f target f')
    (ht : f.node t = some e) (hdead : ¬ f.Live t) (hspare : Spares t f f') :
    f'.Below t = f.Below t := by
  have hf' := h.sound hf
  have hused := hf.known t e ht
  ext i
  constructor
  · rintro ⟨hover, hit⟩
    obtain ⟨ei, hei⟩ := node_of_below ⟨hover, hit⟩
    exact ⟨h.over_old hf hused hdead hover hei, hit⟩
  · rintro ⟨hover, hit⟩
    obtain ⟨ei, hei⟩ := node_of_below ⟨hover, hit⟩
    obtain ⟨e', he'⟩ := hspare i ei hover hei
    exact ⟨(h.over_iff hf (hf.known i ei hei) he').mpr hover, hit⟩

theorem Move.live_node (h : Move R f target f') (hi : i ∈ f.used) (hlive : f'.Live i) :
    f'.node i = f.node i := by
  obtain ⟨e', he', hdead'⟩ := hlive.node
  obtain ⟨e, he, hparent, hlabel, hdead⟩ := h.entry hi he'
  rw [he, he']
  exact congrArg some (Entry.ext hparent.symm (hdead'.trans (hdead hdead').symm) hlabel.symm)

end moves

/-! ## Sequences of moves -/

section trails

variable [DecidableEq I] {R : A → A → Prop} {f f' g g' : Forest I A} {target : Option I}
  {ts : List (Option I)} {a i t : I}

inductive Trail (step : Forest I A → Option I → Forest I A → Prop) :
    Forest I A → List (Option I) → Forest I A → Prop
  | nil (f : Forest I A) : Trail step f [] f
  | cons {f f' f'' : Forest I A} {target : Option I} {ts : List (Option I)}
      (hmove : step f target f') (hrest : Trail step f' ts f'') : Trail step f (target :: ts) f''

theorem Trail.final (hf : f.Sound) (h : Trail (Move R) f ts f') (ht : t ∈ f.used)
    (hdead : ¬ f.Live t) :
    ¬ f'.Live t ∧ ∀ i e, f'.Over t i → f'.node i = some e → f.Over t i := by
  induction h with
  | nil f => exact ⟨hdead, fun i e hover _ => hover⟩
  | cons hmove hrest ih =>
    have hdead' := fun hlive => hdead (hmove.live_mono hf ht hlive)
    obtain ⟨hend, hold⟩ := ih (hmove.sound hf) (hmove.used ht) hdead'
    refine ⟨hend, fun i e hover hi => ?_⟩
    by_cases hit : i = t
    · exact hit ▸ .refl
    · obtain ⟨e', he'⟩ := node_of_below ⟨hold i e hover hi, hit⟩
      exact hmove.over_old hf ht hdead (hold i e hover hi) he'

structure Agree (i : I) (f g : Forest I A) : Prop where
  used : i ∈ f.used ∧ i ∈ g.used
  live : f.Live i ↔ g.Live i
  above : f.Live i → ∀ a, f.Over a i ↔ g.Over a i
  node : f.Live i → f.node i = g.node i

theorem Agree.step (hf : f.Sound) (hg : g.Sound) (h : Agree i f g) (hmove : Move R f target f')
    (hmove' : Move R g target g') : Agree i f' g' := by
  obtain ⟨hif, hig⟩ := h.used
  have hlive : f'.Live i ↔ g'.Live i := by
    rw [hmove.live_iff hf hif, hmove'.live_iff hg hig, ← h.live]
    refine and_congr_right fun hlive => forall_congr' fun t => imp_congr_right fun _ => ?_
    rw [h.above hlive]
  refine ⟨⟨hmove.used hif, hmove'.used hig⟩, hlive, fun hl a => ?_, fun hl => ?_⟩
  · obtain ⟨e, he, -⟩ := hl.node
    obtain ⟨e', he', -⟩ := (hlive.mp hl).node
    rw [hmove.over_iff hf hif he, hmove'.over_iff hg hig he']
    exact h.above (hmove.live_mono hf hif hl) a
  · rw [hmove.live_node hif hl, hmove'.live_node hig (hlive.mp hl)]
    exact h.node (hmove.live_mono hf hif hl)

theorem Trail.agree (hf : f.Sound) (hg : g.Sound) (h : Agree i f g) (hrun : Trail (Move R) f ts f')
    (hrun' : Trail (Move R) g ts g') : Agree i f' g' := by
  induction hrun generalizing g with
  | nil f =>
    cases hrun'
    exact h
  | cons hmove hrest ih =>
    cases hrun' with
    | cons hmove' hrest' =>
      exact ih (hmove.sound hf) (hmove'.sound hg) (h.step hf hg hmove hmove') hrest'

theorem Move.agree (hf : f.Sound) (h : Move R f (some t) f') (hi : i ∈ f.used)
    (hout : ¬ f.Over t i) : Agree i f f' := by
  have hlive : f.Live i ↔ f'.Live i := by
    rw [h.live_iff hf hi]
    refine ⟨fun hl => ⟨hl, ?_⟩, And.left⟩
    rintro _ ⟨⟩
    exact hout
  refine ⟨⟨hi, h.used hi⟩, hlive, fun hl a => ?_, fun hl => ?_⟩
  · obtain ⟨e, he, -⟩ := (hlive.mp hl).node
    exact (h.over_iff hf hi he).symm
  · exact (h.live_node hi (hlive.mp hl)).symm

def Alone (R : A → A → Prop) (t : I) (f : Forest I A) (target : Option I) (f' : Forest I A) : Prop :=
  Move R f target f' ∧ (target ≠ some t → Spares t f f')

theorem Trail.gone (h : Trail (Alone R t) f ts f') (hi : i ∈ f.used) (hgone : f.node i = none) :
    f'.node i = none := by
  induction h with
  | nil f => exact hgone
  | cons hmove hrest ih => exact ih (hmove.1.used hi) (hmove.1.gone hi hgone)

theorem Trail.countdown (hf : f.Sound) (h : Trail (Alone R t) f ts f') {e : Entry I A}
    (ht : f.node t = some e) (hdead : ¬ f.Live t) (hfin : (f.Below t).Finite) :
    (ts.count (some t) ≤ (f.Below t).ncard → (∃ e', f'.node t = some e') ∧ (f'.Below t).Finite ∧
      (f'.Below t).ncard + ts.count (some t) = (f.Below t).ncard) ∧
    ((f.Below t).ncard < ts.count (some t) → f'.node t = none) := by
  induction h generalizing e with
  | nil f =>
    refine ⟨fun _ => ⟨⟨e, ht⟩, hfin, rfl⟩, fun hlt => ?_⟩
    exact absurd hlt (Nat.not_lt_zero _)
  | @cons f f₁ f' target ts hmove hrest ih =>
    obtain ⟨hmove, hspare⟩ := hmove
    have hused := hf.known t e ht
    by_cases htarget : target = some t
    · subst htarget
      rw [List.count_cons_self]
      obtain ⟨hdead₁, ⟨hzero, hgone⟩ | ⟨hcard, hsub, e₁, he₁⟩⟩ := hmove.revoked hf ht hfin
      · rw [hzero]
        refine ⟨fun hle => ?_, fun _ => hrest.gone (hmove.used hused) hgone⟩
        exact absurd hle (Nat.not_succ_le_zero _)
      · obtain ⟨hmore, hend⟩ := ih (hmove.sound hf) he₁ hdead₁ (hfin.subset hsub)
        rw [hcard]
        refine ⟨fun hle => ?_, fun hlt => hend (Nat.lt_of_succ_lt_succ hlt)⟩
        obtain ⟨hthere, hfin', hsum⟩ := hmore (Nat.le_of_succ_le_succ hle)
        exact ⟨hthere, hfin', by omega⟩
    · have hsame := hmove.spared hf ht hdead (hspare htarget)
      obtain ⟨e₁, he₁⟩ := hspare htarget t e .refl ht
      have hdead₁ := fun hlive => hdead (hmove.live_mono hf hused hlive)
      rw [List.count_cons_of_ne htarget, ← hsame]
      exact ih (hmove.sound hf) he₁ hdead₁ (hsame ▸ hfin)

end trails

end Forest
