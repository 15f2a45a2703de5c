/-
  **Radix trees whose leaves may sit at several heights.**

  An entry of height `h` stands for the `k ^ h` consecutive positions that share one quotient
  by `k ^ h`.  A leaf gives one value to all of them, an absent entry gives none, and a node
  of height `h + 1` splits the span into `k` entries of height `h`.  Leaves are allowed up to
  a height `M` only.

    * `put` sets one aligned span of height `L`, splitting leaves and creating nodes;
    * `collapse` replaces a node whose children are uniform by a leaf or by nothing;
    * `collapsePath` collapses upward along the path of one position.

  A tree without a uniform node is *canonical*, and determined by the map it denotes
  (`eq_of_get_eq`).  `Reduced` is canonicity with an exemption: `reduced_put` says which
  nodes a `put` may leave uniform, `reduced_collapsePath` that a pass repairs its path.
-/
import Mathlib

inductive RadixTree (k : Nat) (α : Type) where
  | absent
  | leaf (v : α)
  | node (child : Fin k → RadixTree k α)

set_option linter.unusedSectionVars false

namespace RadixTree

open Function

variable {k : Nat} [NeZero k] {α : Type} {h p q l b L c x : Nat} {child : Fin k → RadixTree k α}

/-! ## 1. Positions and digits -/

def digit (k : Nat) [NeZero k] (h p : Nat) : Fin k := Fin.ofNat k (p / k ^ h)

@[simp] theorem digit_val (h p : Nat) : (digit k h p).val = p / k ^ h % k := rfl

theorem div_pow_succ (h p : Nat) : p / k ^ (h + 1) = p / k ^ h / k := by
  rw [Nat.pow_succ, Nat.div_div_eq_div_mul]

theorem index_split (h p : Nat) :
    p / k ^ h = p / k ^ (h + 1) * k + (digit k h p).val := by
  rw [div_pow_succ, digit_val, Nat.div_add_mod']

theorem digit_eq_iff (hup : q / k ^ (h + 1) = p / k ^ (h + 1)) :
    digit k h q = digit k h p ↔ q / k ^ h = p / k ^ h := by
  rw [index_split h q, index_split h p, hup]
  constructor
  · intro hd
    rw [hd]
  · intro hsum
    exact Fin.ext (Nat.add_left_cancel hsum)

theorem index_mono (hl : l ≤ h) (hq : q / k ^ l = p / k ^ l) :
    q / k ^ h = p / k ^ h := by
  obtain ⟨d, rfl⟩ := Nat.exists_eq_add_of_le hl
  rw [Nat.pow_add, ← Nat.div_div_eq_div_mul, ← Nat.div_div_eq_div_mul, hq]

theorem index_child {i : Fin k} (hp : p / k ^ h = b * k + i.val) :
    p / k ^ (h + 1) = b ∧ digit k h p = i := by
  have hk : 0 < k := Nat.pos_of_neZero k
  constructor
  · rw [div_pow_succ, hp, Nat.add_comm, Nat.add_mul_div_right _ _ hk,
      Nat.div_eq_of_lt i.isLt, Nat.zero_add]
  · apply Fin.ext
    rw [digit_val, hp, Nat.add_comm, Nat.add_mul_mod_self_right, Nat.mod_eq_of_lt i.isLt]

/-! ## 2. Lookup -/

def get : Nat → RadixTree k α → Nat → Option α
  | _, absent, _ => none
  | _, leaf v, _ => some v
  | 0, node _, _ => none
  | h + 1, node child, p => get h (child (digit k h p)) p

@[simp] theorem get_absent (h p : Nat) : get h (absent : RadixTree k α) p = none := by
  cases h <;> rfl

@[simp] theorem get_leaf (h p : Nat) (v : α) : get h (leaf v : RadixTree k α) p = some v := by
  cases h <;> rfl

@[simp] theorem get_node (h p : Nat) (child : Fin k → RadixTree k α) :
    get (h + 1) (node child) p = get h (child (digit k h p)) p := rfl

def Fits (M : Nat) : Nat → RadixTree k α → Prop
  | _, absent => True
  | h, leaf _ => h ≤ M
  | 0, node _ => False
  | h + 1, node child => ∀ i, Fits M h (child i)

@[simp] theorem fits_absent (M h : Nat) : Fits M h (absent : RadixTree k α) := by
  cases h <;> trivial

@[simp] theorem fits_leaf (M h : Nat) (v : α) : Fits M h (leaf v : RadixTree k α) ↔ h ≤ M := by
  cases h <;> rfl

/-! ## 3. Setting one aligned span -/

def ofOption : Option α → RadixTree k α
  | none => absent
  | some v => leaf v

@[simp] theorem get_ofOption (h p : Nat) (v : Option α) :
    get h (ofOption v : RadixTree k α) p = v := by
  cases v <;> simp [ofOption]

/-- Give `v` to the span of height `L` around position `p`.  Clearing an absent
    entry creates no node. -/
def put (L p : Nat) (v : Option α) : Nat → RadixTree k α → RadixTree k α
  | 0, _ => ofOption v
  | h + 1, e =>
    if h + 1 = L then ofOption v
    else match e with
      | absent =>
        if v.isNone then absent
        else node (Function.update (fun _ => absent) (digit k h p) (put L p v h absent))
      | leaf w =>
        node (Function.update (fun _ => leaf w) (digit k h p) (put L p v h (leaf w)))
      | node child =>
        node (Function.update child (digit k h p) (put L p v h (child (digit k h p))))

theorem put_self (L p : Nat) (v : Option α) (e : RadixTree k α) :
    put L p v L e = ofOption v := by
  cases L with
  | zero => rfl
  | succ L => simp [put]

theorem put_absent_none (hL : L ≤ h) :
    put L p none h (absent : RadixTree k α) = absent := by
  cases h with
  | zero => rfl
  | succ h =>
    by_cases hh : h + 1 = L
    · simp [put, hh, ofOption]
    · simp [put, hh]

theorem put_absent_some (v : α) (hL : L ≤ h) :
    put L p (some v) (h + 1) (absent : RadixTree k α) =
      node (update (fun _ => absent) (digit k h p) (put L p (some v) h absent)) := by
  have hne : h + 1 ≠ L := by omega
  simp [put, hne]

theorem put_leaf (v : Option α) (w : α) (hL : L ≤ h) :
    put L p v (h + 1) (leaf w : RadixTree k α) =
      node (update (fun _ => leaf w) (digit k h p) (put L p v h (leaf w))) := by
  have hne : h + 1 ≠ L := by omega
  simp [put, hne]

theorem put_node (v : Option α) (child : Fin k → RadixTree k α) (hL : L ≤ h) :
    put L p v (h + 1) (node child) =
      node (update child (digit k h p) (put L p v h (child (digit k h p)))) := by
  have hne : h + 1 ≠ L := by omega
  simp [put, hne]

private theorem get_update_node {v : Option α}
    {c : RadixTree k α} (hL : L ≤ h)
    (hq : q / k ^ (h + 1) = p / k ^ (h + 1))
    (hc : q / k ^ h = p / k ^ h →
      get h c q = if q / k ^ L = p / k ^ L then v else get h (child (digit k h p)) q) :
    get (h + 1) (node (update child (digit k h p) c)) q =
      if q / k ^ L = p / k ^ L then v else get (h + 1) (node child) q := by
  by_cases hd : digit k h q = digit k h p
  · rw [get_node, get_node, hd, update_self]
    exact hc ((digit_eq_iff hq).mp hd)
  · -- off the path the child is untouched, and the positions differ at height `L` too
    have hne : ¬ q / k ^ L = p / k ^ L := fun he =>
      hd ((digit_eq_iff hq).mpr (index_mono hL he))
    rw [get_node, get_node, update_of_ne hd, if_neg hne]

/-- **`put` sets exactly the span of height `L` around `p`.** -/
theorem get_put (v : Option α) (e : RadixTree k α) (hL : L ≤ h)
    (hq : q / k ^ h = p / k ^ h) :
    get h (put L p v h e) q = if q / k ^ L = p / k ^ L then v else get h e q := by
  induction h generalizing e with
  | zero =>
    obtain rfl : L = 0 := by omega
    rw [put_self, get_ofOption, if_pos hq]
  | succ h ih =>
    by_cases hh : L = h + 1
    · subst hh
      rw [put_self, get_ofOption, if_pos hq]
    · have hL' : L ≤ h := by omega
      cases e with
      | absent =>
        cases v with
        | none =>
          rw [put_absent_none hL]
          simp
        | some v =>
          rw [put_absent_some v hL', get_update_node hL' hq (fun hi => ih absent hL' hi)]
          simp
      | leaf w =>
        rw [put_leaf v w hL', get_update_node hL' hq (fun hi => ih (leaf w) hL' hi)]
        simp
      | node child =>
        rw [put_node v child hL']
        exact get_update_node hL' hq (fun hi => ih _ hL' hi)

/-! ## 4. Uniform nodes and canonical trees -/

def Uniform (M h : Nat) (child : Fin k → RadixTree k α) : Prop :=
  (∀ i, child i = absent) ∨ (h ≤ M ∧ ∃ v, ∀ i, child i = leaf v)

/-- No node is uniform, apart from those that `P` exempts.  `P` sees the height
    of a node and its index, `b` is the index of the entry itself. -/
def Reduced (M : Nat) (P : Nat → Nat → Prop) : Nat → Nat → RadixTree k α → Prop
  | _, _, absent => True
  | _, _, leaf _ => True
  | 0, _, node _ => True
  | h + 1, b, node child =>
    (¬ P (h + 1) b → ¬ Uniform M (h + 1) child) ∧
      ∀ i : Fin k, Reduced M P h (b * k + i.val) (child i)

def Canonical (M h b : Nat) (e : RadixTree k α) : Prop := Reduced M (fun _ _ => False) h b e

variable {M : Nat} {P P' : Nat → Nat → Prop}

@[simp] theorem reduced_absent (h b : Nat) : Reduced M P h b (absent : RadixTree k α) := by
  cases h <;> trivial

@[simp] theorem reduced_leaf (h b : Nat) (v : α) :
    Reduced M P h b (leaf v : RadixTree k α) := by
  cases h <;> trivial

theorem reduced_node :
    Reduced M P (h + 1) b (node child) ↔
      (¬ P (h + 1) b → ¬ Uniform M (h + 1) child) ∧
        ∀ i : Fin k, Reduced M P h (b * k + i.val) (child i) := Iff.rfl

theorem reduced_ofOption (h b : Nat) (v : Option α) :
    Reduced M P h b (ofOption v : RadixTree k α) := by
  cases v <;> simp [ofOption]

theorem Reduced.mono {e : RadixTree k α} (he : Reduced M P h b e)
    (hP : ∀ l c, l ≤ h → c / k ^ (h - l) = b → P l c → P' l c) : Reduced M P' h b e := by
  induction h generalizing b e with
  | zero => cases e <;> trivial
  | succ h ih =>
    cases e with
    | absent => exact reduced_absent _ _
    | leaf v => exact reduced_leaf _ _ v
    | node child =>
      rw [reduced_node] at he ⊢
      refine ⟨fun hnP => he.1 (fun hp => hnP (hP _ _ (Nat.le_refl _) (by simp) hp)), ?_⟩
      intro i
      apply ih (he.2 i)
      intro l c hl hc hp
      apply hP l c (by omega) _ hp
      have hsub : h + 1 - l = (h - l) + 1 := by omega
      rw [hsub, div_pow_succ, hc, Nat.add_comm, Nat.add_mul_div_right _ _ (Nat.pos_of_neZero k),
        Nat.div_eq_of_lt i.isLt, Nat.zero_add]

private theorem index_off_path (hl : l ≤ h) (hc : c / k ^ (h - l) = b)
    (hb : b ≠ p / k ^ h) : c ≠ p / k ^ l := by
  rintro rfl
  apply hb
  rw [← hc, Nat.div_div_eq_div_mul, ← Nat.pow_add, Nat.add_sub_cancel' hl]

theorem Reduced.sibling {i : Fin k} {e : RadixTree k α}
    (hi : i ≠ digit k h p)
    (he : Reduced M P h (p / k ^ (h + 1) * k + i.val) e)
    (hoff : ∀ l c, c ≠ p / k ^ l → P l c → P' l c) :
    Reduced M P' h (p / k ^ (h + 1) * k + i.val) e := by
  apply he.mono
  intro l c hl hc
  apply hoff l c
  apply index_off_path hl hc
  intro heq
  exact hi (index_child heq.symm).2.symm

private theorem reduced_update_node
    {c : RadixTree k α}
    (hroot : ¬ P' (h + 1) (p / k ^ (h + 1)) →
      ¬ Uniform M (h + 1) (update child (digit k h p) c))
    (hc : Reduced M P' h (p / k ^ h) c)
    (hchild : ∀ i : Fin k, Reduced M P h (p / k ^ (h + 1) * k + i.val) (child i))
    (hoff : ∀ l c, c ≠ p / k ^ l → P l c → P' l c) :
    Reduced M P' (h + 1) (p / k ^ (h + 1)) (node (update child (digit k h p) c)) := by
  rw [reduced_node]
  refine ⟨hroot, ?_⟩
  intro i
  by_cases hi : i = digit k h p
  · subst hi
    rw [update_self, ← index_split]
    exact hc
  · rw [update_of_ne hi]
    exact (hchild i).sibling hi hoff

/-- **A `put` leaves uniform nodes on the path of its span only.**  Exempting
    the path above height `L` is enough, whatever was exempt before. -/
theorem reduced_put (v : Option α) {e : RadixTree k α} (hL : L ≤ h)
    (he : Reduced M P h (p / k ^ h) e)
    (hpath : ∀ l, L < l → l ≤ h → P' l (p / k ^ l))
    (hoff : ∀ l c, c ≠ p / k ^ l → P l c → P' l c) :
    Reduced M P' h (p / k ^ h) (put L p v h e) := by
  induction h generalizing e with
  | zero =>
    obtain rfl : L = 0 := by omega
    rw [put_self]
    exact reduced_ofOption _ _ v
  | succ h ih =>
    by_cases hh : L = h + 1
    · subst hh
      rw [put_self]
      exact reduced_ofOption _ _ v
    · have hL' : L ≤ h := by omega
      have hroot : P' (h + 1) (p / k ^ (h + 1)) := hpath _ (by omega) (Nat.le_refl _)
      have hpath' : ∀ l, L < l → l ≤ h → P' l (p / k ^ l) :=
        fun l hl hlh => hpath l hl (by omega)
      cases e with
      | absent =>
        cases v with
        | none =>
          rw [put_absent_none hL]
          exact reduced_absent _ _
        | some v =>
          rw [put_absent_some v hL']
          exact reduced_update_node (fun hn => absurd hroot hn)
            (ih hL' (reduced_absent _ _) hpath') (fun _ => reduced_absent _ _) hoff
      | leaf w =>
        rw [put_leaf v w hL']
        exact reduced_update_node (fun hn => absurd hroot hn)
          (ih hL' (reduced_leaf _ _ w) hpath') (fun _ => reduced_leaf _ _ w) hoff
      | node child =>
        rw [put_node v child hL']
        rw [reduced_node] at he
        refine reduced_update_node (fun hn => absurd hroot hn) (ih hL' ?_ hpath') he.2 hoff
        rw [index_split]
        exact he.2 _

def Splits (k l c x : Nat) : Prop := c * k ^ l < x ∧ x < (c + 1) * k ^ l

theorem index_of_mem_span (hlow : c * k ^ l ≤ x) (hhigh : x < (c + 1) * k ^ l) :
    c = x / k ^ l := by
  have hpos : 0 < k ^ l := Nat.pow_pos (Nat.pos_of_neZero k)
  exact Nat.le_antisymm ((Nat.le_div_iff_mul_le hpos).mpr hlow)
    (Nat.lt_succ_iff.mp ((Nat.div_lt_iff_lt_mul hpos).mpr hhigh))

theorem Splits.eq_index (h : Splits k l c x) : c = x / k ^ l :=
  index_of_mem_span (Nat.le_of_lt h.1) h.2

theorem Splits.eq_index_pred (h : Splits k l c x) : c = (x - 1) / k ^ l := by
  have h1 := h.1
  have h2 := h.2
  exact index_of_mem_span (by omega) (by omega)

/-! ## 5. Collapsing uniform nodes -/

def isAbsent : RadixTree k α → Bool
  | absent => true
  | _ => false

@[simp] theorem isAbsent_iff {e : RadixTree k α} : e.isAbsent = true ↔ e = absent := by
  cases e <;> simp [isAbsent]

section Collapse

variable [DecidableEq α]

def isLeafOf (v : α) : RadixTree k α → Bool
  | leaf w => decide (w = v)
  | _ => false

@[simp] theorem isLeafOf_iff {v : α} {e : RadixTree k α} :
    e.isLeafOf v = true ↔ e = leaf v := by
  cases e <;> simp [isLeafOf]

def collapse (M h : Nat) (child : Fin k → RadixTree k α) : RadixTree k α :=
  if ∀ i, (child i).isAbsent = true then absent
  else match child 0 with
    | leaf v => if h ≤ M ∧ ∀ i, (child i).isLeafOf v = true then leaf v else node child
    | _ => node child

theorem collapse_cases (M h : Nat) (child : Fin k → RadixTree k α) :
    ((∀ i, child i = absent) ∧ collapse M h child = absent) ∨
    (∃ v, h ≤ M ∧ (∀ i, child i = leaf v) ∧ collapse M h child = leaf v) ∨
    (¬ Uniform M h child ∧ collapse M h child = node child) := by
  have hAbs : (∀ i, (child i).isAbsent = true) ↔ ∀ i, child i = absent := by
    simp only [isAbsent_iff]
  have hLeaf : ∀ v, (∀ i, (child i).isLeafOf v = true) ↔ ∀ i, child i = leaf v := by
    simp only [isLeafOf_iff, implies_true]
  unfold collapse
  by_cases habs : ∀ i, child i = absent
  · exact Or.inl ⟨habs, if_pos (hAbs.mpr habs)⟩
  · right
    rw [if_neg (fun h => habs (hAbs.mp h))]
    cases h0 : child 0 with
    | absent | node c =>
      right
      refine ⟨?_, rfl⟩
      rintro (h | ⟨_, v, hv⟩)
      · exact habs h
      · rw [hv 0] at h0
        cases h0
    | leaf v =>
      by_cases hv : h ≤ M ∧ ∀ i, child i = leaf v
      · exact Or.inl ⟨v, hv.1, hv.2, if_pos ⟨hv.1, (hLeaf v).mpr hv.2⟩⟩
      · right
        refine ⟨?_, if_neg (fun h => hv ⟨h.1, (hLeaf v).mp h.2⟩)⟩
        rintro (h | ⟨hM, w, hw⟩)
        · exact habs h
        · rw [hw 0] at h0
          cases h0
          exact hv ⟨hM, hw⟩

theorem get_collapse (h p : Nat) (child : Fin k → RadixTree k α) :
    get (h + 1) (collapse M (h + 1) child) p = get (h + 1) (node child) p := by
  rcases collapse_cases M (h + 1) child with ⟨habs, hc⟩ | ⟨v, _, hv, hc⟩ | ⟨_, hc⟩
  · rw [hc, get_node, habs]
    simp
  · rw [hc, get_node, hv]
    simp
  · rw [hc]

/-- Collapse upward along the path of `p`, stopping at the first node that
    stays one. -/
def collapsePath (M p : Nat) : Nat → RadixTree k α → RadixTree k α
  | h + 1, node child =>
    let c := collapsePath M p h (child (digit k h p))
    let child' := Function.update child (digit k h p) c
    match c with
    | node _ => node child'
    | _ => collapse M (h + 1) child'
  | _, e => e

@[simp] theorem collapsePath_absent (h p : Nat) :
    collapsePath M p h (absent : RadixTree k α) = absent := by
  cases h <;> rfl

@[simp] theorem collapsePath_leaf (h p : Nat) (v : α) :
    collapsePath M p h (leaf v : RadixTree k α) = leaf v := by
  cases h <;> rfl

theorem collapsePath_node_of_node {p h : Nat} {child c : Fin k → RadixTree k α}
    (hc : collapsePath M p h (child (digit k h p)) = node c) :
    collapsePath M p (h + 1) (node child) =
      node (update child (digit k h p) (node c)) := by
  simp only [collapsePath, hc]

theorem collapsePath_node_of_ne {p h : Nat} {child : Fin k → RadixTree k α}
    (hc : ∀ c, collapsePath M p h (child (digit k h p)) ≠ node c) :
    collapsePath M p (h + 1) (node child) =
      collapse M (h + 1) (update child (digit k h p)
        (collapsePath M p h (child (digit k h p)))) := by
  cases hent : collapsePath M p h (child (digit k h p)) with
  | absent | leaf v => simp only [collapsePath, hent]
  | node c => exact absurd hent (hc c)

theorem collapsePath_node (M p h : Nat) (child : Fin k → RadixTree k α) :
    (∃ c, collapsePath M p h (child (digit k h p)) = node c ∧
      collapsePath M p (h + 1) (node child) =
        node (update child (digit k h p) (node c))) ∨
    collapsePath M p (h + 1) (node child) =
      collapse M (h + 1) (update child (digit k h p)
        (collapsePath M p h (child (digit k h p)))) := by
  by_cases hnode : ∃ c, collapsePath M p h (child (digit k h p)) = node c
  · obtain ⟨c, hc⟩ := hnode
    exact Or.inl ⟨c, hc, collapsePath_node_of_node hc⟩
  · exact Or.inr (collapsePath_node_of_ne fun c hc => hnode ⟨c, hc⟩)

theorem get_collapsePath (h p q : Nat) (e : RadixTree k α) :
    get h (collapsePath M p h e) q = get h e q := by
  induction h generalizing e with
  | zero => cases e <;> rfl
  | succ h ih =>
    cases e with
    | absent => simp
    | leaf v => simp
    | node child =>
      have hstep : get (h + 1) (node (update child (digit k h p)
          (collapsePath M p h (child (digit k h p))))) q = get (h + 1) (node child) q := by
        rw [get_node, get_node]
        by_cases hd : digit k h q = digit k h p
        · rw [hd, update_self]
          exact ih _
        · rw [update_of_ne hd]
      rcases collapsePath_node M p h child with ⟨c, hc, heq⟩ | heq
      · rw [heq, ← hc]
        exact hstep
      · rw [heq, get_collapse]
        exact hstep

/-- **A pass along the path of `p` repairs every node on that path.** -/
theorem reduced_collapsePath {h p : Nat} {e : RadixTree k α}
    (he : Reduced M P h (p / k ^ h) e) :
    Reduced M (fun l c => P l c ∧ c ≠ p / k ^ l) h (p / k ^ h) (collapsePath M p h e) := by
  induction h generalizing e with
  | zero => cases e <;> trivial
  | succ h ih =>
    cases e with
    | absent => simp
    | leaf v => simp
    | node child =>
      rw [reduced_node] at he
      have hpathChild : Reduced M P h (p / k ^ h) (child (digit k h p)) := by
        rw [index_split]
        exact he.2 _
      have hoff : ∀ l c, c ≠ p / k ^ l → P l c → P l c ∧ c ≠ p / k ^ l :=
        fun _ _ hne hp => ⟨hp, hne⟩
      rcases collapsePath_node M p h child with ⟨c, hc, heq⟩ | heq
      · -- the pass stopped below: a child is still a node, so this one is not uniform
        rw [heq]
        refine reduced_update_node (fun _ => ?_) (hc ▸ ih hpathChild) he.2 hoff
        rintro (habs | ⟨_, v, hv⟩)
        · have := habs (digit k h p)
          rw [update_self] at this
          cases this
        · have := hv (digit k h p)
          rw [update_self] at this
          cases this
      · rw [heq]
        rcases collapse_cases M (h + 1) (update child (digit k h p)
            (collapsePath M p h (child (digit k h p)))) with
          ⟨_, hcol⟩ | ⟨v, _, _, hcol⟩ | ⟨hnot, hcol⟩
        · rw [hcol]
          exact reduced_absent _ _
        · rw [hcol]
          exact reduced_leaf _ _ v
        · rw [hcol]
          exact reduced_update_node (fun _ => hnot) (ih hpathChild) he.2 hoff

end Collapse

/-! ## 6. Canonical trees are determined by what they denote -/

/-- **Canonical entries that denote the same map are equal.** -/
theorem eq_of_get_eq {e e' : RadixTree k α} (hf : Fits M h e) (hf' : Fits M h e')
    (hc : Canonical M h b e) (hc' : Canonical M h b e')
    (hget : ∀ p, p / k ^ h = b → get h e p = get h e' p) : e = e' := by
  induction h generalizing b e e' with
  | zero =>
    have h0 := hget b (by simp)
    cases e <;> cases e' <;> simp_all [Fits]
  | succ h ih =>
    have hpos : 0 < k ^ (h + 1) := Nat.pow_pos (Nat.pos_of_neZero k)
    have h0 := hget (b * k ^ (h + 1)) (Nat.mul_div_cancel b hpos)
    -- every entry below, compared with a constant or with its counterpart
    have hchild : ∀ (child child' : Fin k → RadixTree k α),
        (∀ i, Fits M h (child i)) → (∀ i, Fits M h (child' i)) →
        (∀ i : Fin k, Canonical M h (b * k + i.val) (child i)) →
        (∀ i : Fin k, Canonical M h (b * k + i.val) (child' i)) →
        (∀ p, p / k ^ (h + 1) = b →
          get (h + 1) (node child) p = get (h + 1) (node child') p) →
        ∀ i, child i = child' i := by
      intro child child' hfc hfc' hcc hcc' hg i
      apply ih (hfc i) (hfc' i) (hcc i) (hcc' i)
      intro p hp
      obtain ⟨hup, hd⟩ := index_child hp
      have := hg p hup
      rwa [get_node, get_node, hd] at this
    have hleaf : ∀ v : α, h + 1 ≤ M → ∀ _ : Fin k, Fits M h (leaf v : RadixTree k α) :=
      fun v hM _ => (fits_leaf M h v).mpr (by omega)
    -- a node that denotes a constant map has uniform children
    have hnode : ∀ (o : Option α) (child : Fin k → RadixTree k α),
        (∀ v, o = some v → h + 1 ≤ M) →
        Fits M (h + 1) (node child) → Canonical M (h + 1) b (node child) →
        (∀ p, p / k ^ (h + 1) = b → get (h + 1) (node child) p = o) → False := by
      intro o child hM hfn hcn hg
      obtain ⟨hroot, hsub⟩ := reduced_node.mp hcn
      apply hroot not_false
      cases o with
      | none =>
        left
        exact hchild child (fun _ => absent) hfn (fun _ => fits_absent M h) hsub
          (fun _ => reduced_absent _ _) (fun p hp => by rw [hg p hp]; simp)
      | some v =>
        right
        refine ⟨hM v rfl, v, ?_⟩
        exact hchild child (fun _ => leaf v) hfn (hleaf v (hM v rfl)) hsub
          (fun _ => reduced_leaf _ _ v) (fun p hp => by rw [hg p hp]; simp)
    cases e with
    | absent =>
      cases e' with
      | absent => rfl
      | leaf v => simp at h0
      | node child' =>
        exact (hnode none child' (by simp) hf' hc' (fun p hp => by rw [← hget p hp]; simp)).elim
    | leaf v =>
      cases e' with
      | absent => simp at h0
      | leaf v' =>
        simp only [get_leaf, Option.some.injEq] at h0
        rw [h0]
      | node child' =>
        have hM : h + 1 ≤ M := (fits_leaf M _ v).mp hf
        exact (hnode (some v) child' (fun _ _ => hM) hf' hc'
          (fun p hp => by rw [← hget p hp]; simp)).elim
    | node child =>
      cases e' with
      | absent =>
        exact (hnode none child (by simp) hf hc (fun p hp => by rw [hget p hp]; simp)).elim
      | leaf v =>
        have hM : h + 1 ≤ M := (fits_leaf M _ v).mp hf'
        exact (hnode (some v) child (fun _ _ => hM) hf hc
          (fun p hp => by rw [hget p hp]; simp)).elim
      | node child' =>
        obtain ⟨-, hsub⟩ := reduced_node.mp hc
        obtain ⟨-, hsub'⟩ := reduced_node.mp hc'
        exact congrArg node (funext (hchild child child' hf hf' hsub hsub' hget))

end RadixTree
