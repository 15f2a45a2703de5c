/-
  **Sweeping a changing sorted set with a cursor.**

  A visit returns the first elements above the cursor, as many as fit; the next starts above
  the last one returned.  Between two visits the set may change in any way.
-/
import GovinDos.Lib.OrdMap

namespace Sweep

variable {K : Type} [LinearOrder K]

/-! ## 1. One visit -/

def gatherLoop (cap : Nat) (after : K) : Nat → List K → List K
  | _, [] => []
  | count, k :: rest =>
    if count < cap then
      if after < k then k :: gatherLoop cap after (count + 1) rest
      else gatherLoop cap after count rest
    else []

def gather (cap : Nat) (after : K) (l : List K) : List K :=
  gatherLoop cap after 0 (l.dropWhile (· < after))

theorem gatherLoop_eq (cap : Nat) (after : K) (count : Nat) (l : List K) :
    gatherLoop cap after count l = (l.filter (after < ·)).take (cap - count) := by
  induction l generalizing count with
  | nil => simp [gatherLoop]
  | cons k rest ih =>
    rw [gatherLoop]
    by_cases hcount : count < cap
    · rw [if_pos hcount]
      by_cases hk : after < k
      · have hcap : cap - count = cap - (count + 1) + 1 := by omega
        rw [if_pos hk, ih, List.filter_cons_of_pos (by simpa using hk), hcap, List.take_succ_cons]
      · rw [if_neg hk, ih, List.filter_cons_of_neg (by simpa using hk)]
    · rw [if_neg hcount, show cap - count = 0 by omega, List.take_zero]

theorem filter_dropWhile (after : K) (l : List K) :
    (l.dropWhile (· < after)).filter (after < ·) = l.filter (after < ·) := by
  induction l with
  | nil => rfl
  | cons k rest ih =>
    by_cases hk : k < after
    · rw [List.dropWhile_cons_of_pos (by simpa using hk), ih,
        List.filter_cons_of_neg (by simpa using hk.le)]
    · rw [List.dropWhile_cons_of_neg (by simpa using hk)]

theorem gather_eq (cap : Nat) (after : K) (l : List K) :
    gather cap after l = (l.filter (after < ·)).take cap := by
  rw [gather, gatherLoop_eq, filter_dropWhile, Nat.sub_zero]

section visit

variable {cap : Nat} {after k : K} {l : List K}

theorem mem_of_mem_gather (h : k ∈ gather cap after l) : after < k ∧ k ∈ l := by
  rw [gather_eq] at h
  have hmem := List.mem_filter.mp (List.mem_of_mem_take h)
  exact ⟨by simpa using hmem.2, hmem.1⟩

theorem sorted_gather (hl : l.Pairwise (· < ·)) : (gather cap after l).Pairwise (· < ·) := by
  rw [gather_eq]
  exact (hl.filter _).take

theorem mem_gather_or_lt (cap : Nat) (hl : l.Pairwise (· < ·)) (hk : k ∈ l) (hafter : after < k) :
    k ∈ gather cap after l ∨
      (gather cap after l).length = cap ∧ ∀ x ∈ gather cap after l, x < k := by
  rw [gather_eq]
  exact OrdMap.mem_take_or_lt (hl.filter _) (List.mem_filter.mpr ⟨hk, by simpa using hafter⟩) cap

end visit

/-! ## 2. A sweep -/

structure Visit (K : Type) where
  elements : List K
  cap : Nat
  values : List K

def cursor (after : K) (values : List K) : K := values.getLast?.getD after

inductive Run : K → List (Visit K) → Prop
  | nil (after : K) : Run after []
  | cons {after : K} {v : Visit K} {vs : List (Visit K)} (hl : v.elements.Pairwise (· < ·))
      (hv : v.values = gather v.cap after v.elements) (h : Run (cursor after v.values) vs) :
      Run after (v :: vs)

def returned (vs : List (Visit K)) : List K := vs.flatMap (·.values)

section sweep

variable {after k : K} {vs : List (Visit K)}

theorem le_cursor_of_mem {values : List K} (hs : values.Pairwise (· < ·)) (hk : k ∈ values) :
    k ≤ cursor after values := by
  obtain ⟨init, last, rfl⟩ := List.eq_nil_or_concat values |>.resolve_left (List.ne_nil_of_mem hk)
  rw [List.concat_eq_append] at hs hk ⊢
  rw [cursor, List.getLast?_append, List.getLast?_singleton, Option.some_or, Option.getD_some]
  rcases List.mem_append.mp hk with hinit | hlast
  · exact ((List.pairwise_append.mp hs).2.2 k hinit last List.mem_cons_self).le
  · rw [List.mem_singleton.mp hlast]

omit [LinearOrder K] in
theorem cursor_mem_or_eq (after : K) (values : List K) :
    cursor after values ∈ values ∨ cursor after values = after := by
  rw [cursor]
  cases hlast : values.getLast? with
  | none => exact .inr rfl
  | some k => exact .inl (List.mem_of_getLast? hlast)

theorem le_cursor {values : List K} (h : ∀ x ∈ values, after < x) :
    after ≤ cursor after values := by
  rcases cursor_mem_or_eq after values with hmem | heq
  · exact (h _ hmem).le
  · exact heq.ge

theorem Run.sorted (h : Run after vs) :
    (returned vs).Pairwise (· < ·) ∧ ∀ x ∈ returned vs, after < x := by
  induction h with
  | nil after => exact ⟨List.Pairwise.nil, nofun⟩
  | @cons after v vs hl hv h ih =>
    obtain ⟨hsorted, habove⟩ := ih
    have hs : v.values.Pairwise (· < ·) := hv ▸ sorted_gather hl
    have hmem : ∀ x ∈ v.values, after < x := by
      intro x hx
      rw [hv] at hx
      exact (mem_of_mem_gather hx).1
    constructor
    · apply List.pairwise_append.mpr
      refine ⟨hs, hsorted, ?_⟩
      intro x hx y hy
      exact (le_cursor_of_mem hs hx).trans_lt (habove y hy)
    · intro x hx
      rcases List.mem_append.mp hx with hx | hx
      · exact hmem x hx
      · exact (le_cursor hmem).trans_lt (habove x hx)

theorem Run.present (h : Run after vs) (hk : k ∈ returned vs) : ∃ v ∈ vs, k ∈ v.elements := by
  induction h with
  | nil after => cases hk
  | @cons after v vs hl hv h ih =>
    rcases List.mem_append.mp hk with hk | hk
    · have hmem : k ∈ gather v.cap after v.elements := hv ▸ hk
      exact ⟨v, List.mem_cons_self, (mem_of_mem_gather hmem).2⟩
    · obtain ⟨v', hv', hk'⟩ := ih hk
      exact ⟨v', List.mem_cons_of_mem v hv', hk'⟩

theorem Run.complete {pre : List (Visit K)} {v : Visit K} (h : Run after (pre ++ [v]))
    (hk : after < k) (hstay : ∀ w ∈ pre ++ [v], k ∈ w.elements)
    (hshort : v.values.length < v.cap) : k ∈ returned (pre ++ [v]) := by
  induction pre generalizing after with
  | nil =>
    obtain _ | ⟨hl, hv, -⟩ := h
    rcases mem_gather_or_lt v.cap hl (hstay v List.mem_cons_self) hk with hmem | ⟨hlen, -⟩
    · rw [← hv] at hmem
      exact List.mem_append_left _ hmem
    · rw [← hv] at hlen
      omega
  | cons w pre ih =>
    obtain _ | ⟨hl, hw, h⟩ := h
    rcases mem_gather_or_lt w.cap hl (hstay w List.mem_cons_self) hk with hmem | ⟨-, hlt⟩
    · rw [← hw] at hmem
      exact List.mem_append_left _ hmem
    · -- the cursor stays below the element
      rw [← hw] at hlt
      have hcursor : cursor after w.values < k := by
        rcases cursor_mem_or_eq after w.values with hmem | heq
        · exact hlt _ hmem
        · rw [heq]
          exact hk
      have hrest := ih h hcursor fun w' hw' => hstay w' (List.mem_cons_of_mem w hw')
      exact List.mem_append_right _ hrest

theorem Run.left {ws : List (Visit K)} (h : Run after (vs ++ ws)) : Run after vs := by
  induction vs generalizing after with
  | nil => exact .nil after
  | cons v vs ih =>
    obtain _ | ⟨hl, hv, h⟩ := h
    exact .cons hl hv (ih h)

omit [LinearOrder K] in
theorem cursor_append (after : K) (l l' : List K) :
    cursor after (l ++ l') = cursor (cursor after l) l' := by
  rw [cursor, List.getLast?_append, cursor, cursor]
  cases l'.getLast? <;> rfl

theorem Run.visit {pre ws : List (Visit K)} {v : Visit K} (h : Run after (pre ++ v :: ws)) :
    v.elements.Pairwise (· < ·) ∧
      v.values = gather v.cap (cursor after (returned pre)) v.elements := by
  induction pre generalizing after with
  | nil =>
    obtain _ | ⟨hl, hv, -⟩ := h
    exact ⟨hl, hv⟩
  | cons w pre ih =>
    obtain _ | ⟨-, -, h⟩ := h
    rw [show returned (w :: pre) = w.values ++ returned pre from rfl, cursor_append]
    exact ih h

end sweep

end Sweep
