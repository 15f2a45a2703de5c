/-
  **Intrusive doubly linked lists.**

  `Linked next prev before head l` says that from `head` the links run through exactly `l`,
  with `before` in front of the first node: a node is put in front, or taken out wherever it
  is.  `Queued` is the list with a tail pointer too, and a node can be put at the end.
-/
import Mathlib

namespace LinkedList

variable {P : Type} {next prev next' prev' : P → Option P} {before head : Option P} {l : List P}
  {x y : P}

def Linked (next prev : P → Option P) : Option P → Option P → List P → Prop
  | _, head, [] => head = none
  | before, head, x :: xs => head = some x ∧ prev x = before ∧ Linked next prev (some x) (next x) xs

theorem Linked.head_mem (h : Linked next prev before (some x) l) : x ∈ l := by
  cases l with
  | nil => cases h
  | cons y ys =>
    cases h.1
    exact List.mem_cons_self

theorem Linked.nil_iff (h : Linked next prev before head l) : head = none ↔ l = [] := by
  cases l with
  | nil => exact iff_of_true h rfl
  | cons y ys =>
    rw [h.1]
    exact iff_of_false (fun h' => by cases h') (fun h' => by cases h')

theorem Linked.next_mem (h : Linked next prev before head l) (hx : x ∈ l)
    (hy : next x = some y) : y ∈ l := by
  induction l generalizing before head with
  | nil => cases hx
  | cons z zs ih =>
    rcases List.mem_cons.mp hx with rfl | hx'
    · have htail := h.2.2
      rw [hy] at htail
      exact List.mem_cons_of_mem _ htail.head_mem
    · exact List.mem_cons_of_mem z (ih h.2.2 hx')

theorem Linked.prev_mem (h : Linked next prev before head l) (hx : x ∈ l) :
    prev x = before ∨ ∃ y ∈ l, prev x = some y := by
  induction l generalizing before head with
  | nil => cases hx
  | cons z zs ih =>
    rcases List.mem_cons.mp hx with rfl | hx'
    · exact Or.inl h.2.1
    · rcases ih h.2.2 hx' with heq | ⟨y, hy, hprev⟩
      · exact Or.inr ⟨z, List.mem_cons_self, heq⟩
      · exact Or.inr ⟨y, List.mem_cons_of_mem z hy, hprev⟩

theorem Linked.congr (h : Linked next prev before head l) (hnext : ∀ x ∈ l, next' x = next x)
    (hprev : ∀ x ∈ l, prev' x = prev x) : Linked next' prev' before head l := by
  induction l generalizing before head with
  | nil => exact h
  | cons z zs ih =>
    refine ⟨h.1, (hprev z List.mem_cons_self).trans h.2.1, ?_⟩
    rw [hnext z List.mem_cons_self]
    exact ih h.2.2 (fun x hx => hnext x (List.mem_cons_of_mem z hx))
      (fun x hx => hprev x (List.mem_cons_of_mem z hx))

theorem Linked.push [DecidableEq P] (h : Linked next prev none head l) (hfresh : x ∉ l) (hnodup : l.Nodup)
    (hx : next' x = head ∧ prev' x = none) (hnext : ∀ y ∈ l, next' y = next y)
    (hprev : ∀ y ∈ l, prev' y = if head = some y then some x else prev y) :
    Linked next' prev' none (some x) (x :: l) := by
  refine ⟨rfl, hx.2, ?_⟩
  rw [hx.1]
  cases l with
  | nil => exact h
  | cons y ys =>
    obtain ⟨hhead, hbefore, htail⟩ := h
    have hy : prev' y = some x := by
      rw [hprev y List.mem_cons_self, if_pos hhead]
    refine ⟨hhead, hy, ?_⟩
    rw [hnext y List.mem_cons_self]
    refine htail.congr (fun z hz => hnext z (List.mem_cons_of_mem y hz)) fun z hz => ?_
    rw [hprev z (List.mem_cons_of_mem y hz), if_neg]
    rw [hhead]
    rintro ⟨⟩
    exact (List.nodup_cons.mp hnodup).1 hz

theorem Linked.next_eq_iff (h : Linked next prev before head l) (hnodup : l.Nodup)
    (hbefore : ∀ b, before = some b → b ∉ l) (hx : x ∈ l) (hy : y ∈ l) :
    next y = some x ↔ prev x = some y := by
  induction l generalizing before head with
  | nil => cases hx
  | cons z zs ih =>
    obtain ⟨hz, hzs⟩ := List.nodup_cons.mp hnodup
    have htail := h.2.2
    have hzfree : ∀ b, some z = some b → b ∉ zs := by
      rintro _ ⟨⟩
      exact hz
    rcases List.mem_cons.mp hx with rfl | hx'
    · -- nothing in the list comes before its first node
      refine iff_of_false (fun hnext => ?_) fun hprev => ?_
      · rcases List.mem_cons.mp hy with rfl | hy'
        · rw [hnext] at htail
          exact hz htail.head_mem
        · exact hz (htail.next_mem hy' hnext)
      · exact hbefore y (h.2.1.symm.trans hprev) hy
    · rcases List.mem_cons.mp hy with rfl | hy'
      · cases zs with
        | nil => cases hx'
        | cons w ws =>
          rcases List.mem_cons.mp hx' with rfl | hxw
          · exact iff_of_true htail.1 htail.2.1
          · have hxw' : x ≠ w := by
              rintro rfl
              exact (List.nodup_cons.mp hzs).1 hxw
            refine iff_of_false (fun hnext => ?_) fun hprev => ?_
            · rw [htail.1] at hnext
              cases hnext
              exact hxw' rfl
            · rcases htail.2.2.prev_mem hxw with heq | ⟨v, hv, heq⟩
              · rw [hprev] at heq
                cases heq
                exact hz List.mem_cons_self
              · rw [hprev] at heq
                cases heq
                exact hz (List.mem_cons_of_mem _ hv)
      · exact ih htail hzs hzfree hx' hy'

theorem Linked.prev_eq_none_iff (h : Linked next prev none head l) (hnodup : l.Nodup)
    (hx : x ∈ l) : prev x = none ↔ head = some x := by
  cases l with
  | nil => cases hx
  | cons z zs =>
    obtain ⟨hhead, hz, htail⟩ := h
    rw [hhead, Option.some.injEq]
    constructor
    · intro hprev
      rcases List.mem_cons.mp hx with rfl | hx'
      · rfl
      · rcases htail.prev_mem hx' with heq | ⟨y, -, heq⟩
        · rw [hprev] at heq
          cases heq
        · rw [hprev] at heq
          cases heq
    · rintro rfl
      exact hz

theorem Linked.unlink [DecidableEq P] (h : Linked next prev before head l)
    (hnodup : l.Nodup) (hbefore : ∀ b, before = some b → b ∉ l) (hx : x ∈ l)
    (hnext : ∀ y ∈ l, y ≠ x → next' y = if next y = some x then next x else next y)
    (hprev : ∀ y ∈ l, y ≠ x → prev' y = if prev y = some x then prev x else prev y) :
    Linked next' prev' before (if head = some x then next x else head) (l.erase x) := by
  induction l generalizing before head with
  | nil => cases hx
  | cons z zs ih =>
    obtain ⟨hz, hzs⟩ := List.nodup_cons.mp hnodup
    obtain ⟨hhead, hzprev, htail⟩ := h
    have hzfree : ∀ b, some z = some b → b ∉ zs := by
      rintro _ ⟨⟩
      exact hz
    by_cases hxz : x = z
    · subst hxz
      rw [List.erase_cons_head, if_pos hhead]
      have hne : ∀ y ∈ zs, y ≠ x := by
        rintro y hy rfl
        exact hz hy
      cases zs with
      | nil => exact htail
      | cons w ws =>
        have htail' := htail
        obtain ⟨hw, hwprev, hrest⟩ := htail
        have hkeep : ∀ y ∈ w :: ws, next' y = next y := by
          intro y hy
          rw [hnext y (List.mem_cons_of_mem x hy) (hne y hy), if_neg]
          intro hyx
          exact hz (htail'.next_mem hy hyx)
        refine ⟨hw, ?_, ?_⟩
        · rw [hprev w (List.mem_cons_of_mem x List.mem_cons_self) (hne w List.mem_cons_self),
            if_pos hwprev, hzprev]
        · rw [hkeep w List.mem_cons_self]
          refine hrest.congr (fun y hy => hkeep y (List.mem_cons_of_mem w hy)) fun y hy => ?_
          have hyw : y ∈ x :: w :: ws := List.mem_cons_of_mem x (List.mem_cons_of_mem w hy)
          rw [hprev y hyw (hne y (List.mem_cons_of_mem w hy)), if_neg]
          intro hyx
          rcases hrest.prev_mem hy with heq | ⟨v, hv, heq⟩
          · rw [hyx] at heq
            cases heq
            exact hz List.mem_cons_self
          · rw [hyx] at heq
            cases heq
            exact hz (List.mem_cons_of_mem w hv)
    · have hxs : x ∈ zs := (List.mem_cons.mp hx).resolve_left hxz
      have hzx : z ≠ x := Ne.symm hxz
      rw [List.erase_cons_tail (by simpa using hzx), hhead, if_neg (by simpa using hzx)]
      refine ⟨rfl, ?_, ?_⟩
      · rw [hprev z List.mem_cons_self hzx, if_neg, hzprev]
        intro hzp
        exact hbefore x (hzprev.symm.trans hzp) hx
      · rw [hnext z List.mem_cons_self hzx]
        exact ih htail hzs hzfree hxs (fun y hy => hnext y (List.mem_cons_of_mem z hy))
          (fun y hy => hprev y (List.mem_cons_of_mem z hy))

/-! ## Queues -/

theorem Linked.append [DecidableEq P] (h : Linked next prev before head l) (hnodup : l.Nodup)
    (hx : next' x = none) (hlast : prev' x = l.getLast?.or before)
    (hnext : ∀ y ∈ l, next' y = if l.getLast? = some y then some x else next y)
    (hprev : ∀ y ∈ l, prev' y = prev y) :
    Linked next' prev' before (if l = [] then some x else head) (l ++ [x]) := by
  induction l generalizing before head with
  | nil =>
    simp only [List.getLast?_nil, Option.none_or] at hlast
    simp [Linked, hx, hlast]
  | cons z zs ih =>
    obtain ⟨hhead, hz, htail⟩ := h
    obtain ⟨hzs, hnodup⟩ := List.nodup_cons.mp hnodup
    simp only [reduceCtorEq, if_false, List.cons_append]
    refine ⟨hhead, (hprev z List.mem_cons_self).trans hz, ?_⟩
    have hnextz : next' z = if zs = [] then some x else next z := by
      rw [hnext z List.mem_cons_self]
      cases zs with
      | nil => simp
      | cons w ws =>
        rw [if_neg, if_neg (by simp)]
        rw [List.getLast?_cons_cons]
        intro hlast
        exact hzs (List.mem_of_getLast? hlast)
    rw [hnextz]
    refine ih htail hnodup ?_ (fun y hy => ?_) fun y hy => hprev y (List.mem_cons_of_mem z hy)
    · rw [hlast]
      cases zs with
      | nil => simp
      | cons w ws =>
        rw [List.getLast?_cons_cons]
        cases hw : (w :: ws).getLast? with
        | none => simp at hw
        | some v => simp
    · rw [hnext y (List.mem_cons_of_mem z hy)]
      cases zs with
      | nil => cases hy
      | cons w ws => rw [List.getLast?_cons_cons]

structure Queued (next prev : P → Option P) (head tail : Option P) (l : List P) : Prop where
  nodup : l.Nodup
  forth : Linked next prev none head l
  back : Linked prev next none tail l.reverse

namespace Queued

variable {tail : Option P} {x y : P}

theorem congr (h : Queued next prev head tail l) (hnext : ∀ x ∈ l, next' x = next x)
    (hprev : ∀ x ∈ l, prev' x = prev x) : Queued next' prev' head tail l where
  nodup := h.nodup
  forth := h.forth.congr hnext hprev
  back := h.back.congr (fun x hx => hprev x (List.mem_reverse.mp hx))
    (fun x hx => hnext x (List.mem_reverse.mp hx))

theorem tail_eq (h : Queued next prev head tail l) : tail = l.getLast? := by
  have hback := h.back
  rw [List.getLast?_eq_head?_reverse]
  cases hl : l.reverse with
  | nil =>
    rw [hl] at hback
    exact hback
  | cons x xs =>
    rw [hl] at hback
    exact hback.1

theorem tail_eq_none_iff (h : Queued next prev head tail l) : tail = none ↔ l = [] := by
  rw [h.back.nil_iff, List.reverse_eq_nil_iff]

theorem prev_eq_none_iff (h : Queued next prev head tail l) (hx : x ∈ l) :
    prev x = none ↔ head = some x :=
  h.forth.prev_eq_none_iff h.nodup hx

theorem next_eq_none_iff (h : Queued next prev head tail l) (hx : x ∈ l) :
    next x = none ↔ tail = some x :=
  h.back.prev_eq_none_iff (List.nodup_reverse.mpr h.nodup) (List.mem_reverse.mpr hx)

theorem next_eq_iff (h : Queued next prev head tail l) (hx : x ∈ l) (hy : y ∈ l) :
    next y = some x ↔ prev x = some y :=
  h.forth.next_eq_iff h.nodup (by simp) hx hy

theorem next_mem (h : Queued next prev head tail l) (hx : x ∈ l)
    (hy : next x = some y) : y ∈ l :=
  h.forth.next_mem hx hy

theorem prev_mem (h : Queued next prev head tail l) (hx : x ∈ l)
    (hy : prev x = some y) : y ∈ l :=
  List.mem_reverse.mp (h.back.next_mem (List.mem_reverse.mpr hx) hy)

theorem append [DecidableEq P] (h : Queued next prev head tail l) (hfresh : x ∉ l)
    (hx : next' x = none) (hxprev : prev' x = tail)
    (hnext : ∀ y ∈ l, next' y = if tail = some y then some x else next y)
    (hprev : ∀ y ∈ l, prev' y = prev y) :
    Queued next' prev' (if tail = none then some x else head) (some x) (l ++ [x]) where
  nodup := by
    rw [List.nodup_append]
    refine ⟨h.nodup, List.nodup_singleton x, ?_⟩
    intro y hy z hz
    rw [List.mem_singleton.mp hz]
    rintro rfl
    exact hfresh hy
  forth := by
    have happ := h.forth.append h.nodup hx (by simpa [h.tail_eq] using hxprev)
      (by simpa only [h.tail_eq] using hnext) hprev
    simpa only [h.tail_eq_none_iff] using happ
  back := by
    rw [List.reverse_append]
    refine h.back.push (fun hmem => hfresh (List.mem_reverse.mp hmem))
      (List.nodup_reverse.mpr h.nodup) ⟨hxprev, hx⟩ (fun y hy => ?_) fun y hy => ?_
    · exact hprev y (List.mem_reverse.mp hy)
    · exact hnext y (List.mem_reverse.mp hy)

theorem unlink [DecidableEq P] (h : Queued next prev head tail l) (hx : x ∈ l)
    (hnext : ∀ y ∈ l, y ≠ x → next' y = if prev x = some y then next x else next y)
    (hprev : ∀ y ∈ l, y ≠ x → prev' y = if next x = some y then prev x else prev y) :
    Queued next' prev' (if prev x = none then next x else head)
      (if next x = none then prev x else tail) (l.erase x) where
  nodup := h.nodup.erase x
  forth := by
    simp only [h.prev_eq_none_iff hx]
    refine h.forth.unlink h.nodup (by simp) hx (fun y hy hne => ?_) fun y hy hne => ?_
    · simp only [hnext y hy hne, h.next_eq_iff hx hy]
    · simp only [hprev y hy hne, ← h.next_eq_iff hy hx]
  back := by
    have hrev : (l.erase x).reverse = l.reverse.erase x := by
      rw [h.nodup.erase_eq_filter, (List.nodup_reverse.mpr h.nodup).erase_eq_filter,
        List.filter_reverse]
    rw [hrev]
    simp only [h.next_eq_none_iff hx]
    refine h.back.unlink (List.nodup_reverse.mpr h.nodup) (by simp) (List.mem_reverse.mpr hx)
      (fun y hy hne => ?_) fun y hy hne => ?_
    · simp only [hprev y (List.mem_reverse.mp hy) hne,
        ← h.next_eq_iff (List.mem_reverse.mp hy) hx]
    · simp only [hnext y (List.mem_reverse.mp hy) hne,
        h.next_eq_iff hx (List.mem_reverse.mp hy)]

end Queued

end LinkedList
