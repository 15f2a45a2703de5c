/-
  **Ordered maps.**

  A list of entries with strictly increasing keys.  The operations are those of a search
  tree that does not overwrite: `insert` fails on a key that is present, `remove` on one that
  is not, `floor` and `lowerBound` look for neighbours.  Everything is stated through `get`.
-/
import Mathlib

structure OrdMap (K V : Type) [LinearOrder K] where
  entries : List (K × V)
  sorted : entries.Pairwise fun a b => a.1 < b.1
deriving DecidableEq

namespace OrdMap

variable {K V W : Type} [LinearOrder K] {m m' : OrdMap K V} {k k' : K} {f : K → V → Option W}
  {l : List (K × V)} {v : V}

/-! ## 1. Lookup -/

def empty : OrdMap K V := ⟨[], List.Pairwise.nil⟩

def get (m : OrdMap K V) (k : K) : Option V :=
  (m.entries.find? fun e => e.1 = k).map (·.2)

def len (m : OrdMap K V) : Nat := m.entries.length

@[simp, grind =] theorem get_empty (k : K) : (empty : OrdMap K V).get k = none := rfl

theorem find_eq_some_iff (hl : l.Pairwise fun a b => a.1 < b.1)
    {e : K × V} : (l.find? fun e => e.1 = k) = some e ↔ e ∈ l ∧ e.1 = k := by
  induction l with
  | nil => simp
  | cons hd tl ih =>
    obtain ⟨hhd, htl⟩ := List.pairwise_cons.mp hl
    by_cases hk : hd.1 = k
    · rw [List.find?_cons_of_pos (by simpa using hk)]
      constructor
      · intro h
        cases h
        exact ⟨List.mem_cons_self, hk⟩
      · rintro ⟨hmem, he⟩
        rcases List.mem_cons.mp hmem with rfl | hin
        · rfl
        · exact absurd (hhd e hin) (by rw [he, hk]; exact lt_irrefl k)
    · rw [List.find?_cons_of_neg (by simpa using hk), ih htl]
      constructor
      · rintro ⟨hmem, he⟩
        exact ⟨List.mem_cons_of_mem _ hmem, he⟩
      · rintro ⟨hmem, he⟩
        rcases List.mem_cons.mp hmem with rfl | hin
        · exact absurd he hk
        · exact ⟨hin, he⟩

theorem get_eq_some_iff :
    m.get k = some v ↔ (k, v) ∈ m.entries := by
  rw [get, Option.map_eq_some_iff]
  constructor
  · rintro ⟨⟨k', v'⟩, hfind, rfl⟩
    obtain ⟨hmem, rfl⟩ := (find_eq_some_iff m.sorted).mp hfind
    exact hmem
  · intro hmem
    exact ⟨(k, v), (find_eq_some_iff m.sorted).mpr ⟨hmem, rfl⟩, rfl⟩

theorem get_eq_none_iff :
    m.get k = none ↔ ∀ v, (k, v) ∉ m.entries := by
  constructor
  · intro hnone v hmem
    rw [get_eq_some_iff.mpr hmem] at hnone
    cases hnone
  · intro hno
    cases hget : m.get k with
    | none => rfl
    | some v => exact absurd (get_eq_some_iff.mp hget) (hno v)

theorem len_eq_zero_iff : m.len = 0 ↔ ∀ k, m.get k = none := by
  rw [len, List.length_eq_zero_iff]
  constructor
  · intro hnil k
    rw [get_eq_none_iff, hnil]
    intro v hmem
    cases hmem
  · intro hno
    rw [List.eq_nil_iff_forall_not_mem]
    rintro ⟨k, v⟩ hmem
    exact get_eq_none_iff.mp (hno k) v hmem

theorem ext_get (h : ∀ k, m.get k = m'.get k) : m = m' := by
  obtain ⟨l, hl⟩ := m
  obtain ⟨l', hl'⟩ := m'
  have hmem : ∀ e : K × V, e ∈ l ↔ e ∈ l' := by
    rintro ⟨k, v⟩
    have hk := h k
    constructor
    · intro hin
      rw [get_eq_some_iff.mpr hin] at hk
      exact get_eq_some_iff.mp hk.symm
    · intro hin
      rw [get_eq_some_iff (m := ⟨l', hl'⟩) |>.mpr hin] at hk
      exact get_eq_some_iff.mp hk
  have hperm : l.Perm l' := by
    refine (List.perm_ext_iff_of_nodup ?_ ?_).mpr hmem
    · exact hl.imp fun hlt heq => absurd (congrArg Prod.fst heq) (ne_of_lt hlt)
    · exact hl'.imp fun hlt heq => absurd (congrArg Prod.fst heq) (ne_of_lt hlt)
  have heq : l = l' :=
    hperm.eq_of_pairwise (fun a b _ _ hab hba => absurd hab (not_lt.mpr hba.le)) hl hl'
  subst heq
  rfl

def keys (m : OrdMap K V) : List K := m.entries.map (·.1)

theorem mem_keys_iff : k ∈ m.keys ↔ (m.get k).isSome := by
  simp only [keys, List.mem_map, Option.isSome_iff_exists, get_eq_some_iff]
  constructor
  · rintro ⟨⟨k', v⟩, hmem, rfl⟩
    exact ⟨v, hmem⟩
  · rintro ⟨v, hmem⟩
    exact ⟨(k, v), hmem, rfl⟩

theorem sorted_keys (m : OrdMap K V) : m.keys.Pairwise (· < ·) := List.pairwise_map.mpr m.sorted

theorem mem_take_or_lt {l : List K} (hl : l.Pairwise (· < ·)) (hk : k ∈ l) (n : Nat) :
    k ∈ l.take n ∨ (l.take n).length = n ∧ ∀ k' ∈ l.take n, k' < k := by
  induction l generalizing n with
  | nil => cases hk
  | cons x xs ih =>
    obtain ⟨hx, hxs⟩ := List.pairwise_cons.mp hl
    cases n with
    | zero => exact .inr ⟨rfl, nofun⟩
    | succ n =>
      rcases List.mem_cons.mp hk with rfl | hin
      · exact .inl List.mem_cons_self
      · rcases ih hxs hin n with hmem | ⟨hlen, hlt⟩
        · exact .inl (List.mem_cons_of_mem x hmem)
        · refine .inr ⟨by rw [List.take_succ_cons, List.length_cons, hlen], ?_⟩
          intro k' hk'
          rcases List.mem_cons.mp hk' with rfl | hk'
          · exact hx k hin
          · exact hlt k' hk'

/-! ## 2. Insertion -/

def insertList (k : K) (v : V) : List (K × V) → List (K × V)
  | [] => [(k, v)]
  | e :: rest =>
    if k < e.1 then (k, v) :: e :: rest
    else if k = e.1 then (k, v) :: rest
    else e :: insertList k v rest

theorem mem_insertList
    (hl : l.Pairwise fun a b => a.1 < b.1) {e : K × V} :
    e ∈ insertList k v l ↔ e = (k, v) ∨ e ∈ l ∧ e.1 ≠ k := by
  induction l with
  | nil => simp [insertList]
  | cons hd tl ih =>
    obtain ⟨hhd, htl⟩ := List.pairwise_cons.mp hl
    rw [insertList]
    by_cases hlt : k < hd.1
    · -- every key that follows is larger than the one inserted
      have hne : ∀ e ∈ hd :: tl, e.1 ≠ k := by
        intro e hmem
        rcases List.mem_cons.mp hmem with rfl | hin
        · exact ne_of_gt hlt
        · exact ne_of_gt (lt_trans hlt (hhd e hin))
      rw [if_pos hlt, List.mem_cons]
      exact or_congr Iff.rfl ⟨fun h => ⟨h, hne e h⟩, fun h => h.1⟩
    · by_cases heq : k = hd.1
      · have hne : ∀ e ∈ tl, e.1 ≠ k := fun e hin => heq ▸ ne_of_gt (hhd e hin)
        rw [if_neg hlt, if_pos heq, List.mem_cons, List.mem_cons]
        constructor
        · rintro (rfl | hin)
          · exact Or.inl rfl
          · exact Or.inr ⟨Or.inr hin, hne e hin⟩
        · rintro (rfl | ⟨rfl | hin, hk⟩)
          · exact Or.inl rfl
          · exact absurd heq.symm hk
          · exact Or.inr hin
      · rw [if_neg hlt, if_neg heq, List.mem_cons, ih htl, List.mem_cons]
        constructor
        · rintro (rfl | rfl | ⟨hin, hk⟩)
          · exact Or.inr ⟨Or.inl rfl, fun h => heq h.symm⟩
          · exact Or.inl rfl
          · exact Or.inr ⟨Or.inr hin, hk⟩
        · rintro (rfl | ⟨rfl | hin, hk⟩)
          · exact Or.inr (Or.inl rfl)
          · exact Or.inl rfl
          · exact Or.inr (Or.inr ⟨hin, hk⟩)

theorem sorted_insertList
    (hl : l.Pairwise fun a b => a.1 < b.1) :
    (insertList k v l).Pairwise fun a b => a.1 < b.1 := by
  induction l with
  | nil => simp [insertList]
  | cons hd tl ih =>
    obtain ⟨hhd, htl⟩ := List.pairwise_cons.mp hl
    rw [insertList]
    by_cases hlt : k < hd.1
    · rw [if_pos hlt]
      refine List.pairwise_cons.mpr ⟨?_, hl⟩
      intro e hmem
      rcases List.mem_cons.mp hmem with rfl | hin
      · exact hlt
      · exact lt_trans hlt (hhd e hin)
    · by_cases heq : k = hd.1
      · rw [if_neg hlt, if_pos heq]
        exact List.pairwise_cons.mpr ⟨fun e hin => heq ▸ hhd e hin, htl⟩
      · rw [if_neg hlt, if_neg heq]
        refine List.pairwise_cons.mpr ⟨?_, ih htl⟩
        intro e hmem
        rcases (mem_insertList htl).mp hmem with rfl | ⟨hin, -⟩
        · exact lt_of_le_of_ne (not_lt.mp hlt) (fun h => heq h.symm)
        · exact hhd e hin

def set (m : OrdMap K V) (k : K) (v : V) : OrdMap K V :=
  ⟨insertList k v m.entries, sorted_insertList m.sorted⟩

@[grind =] theorem get_set (m : OrdMap K V) (k : K) (v : V) (k' : K) :
    (m.set k v).get k' = if k' = k then some v else m.get k' := by
  have hmem : ∀ w, (m.set k v).get k' = some w ↔ (k', w) = (k, v) ∨ m.get k' = some w ∧ k' ≠ k := by
    intro w
    rw [get_eq_some_iff, get_eq_some_iff]
    exact mem_insertList m.sorted
  by_cases hk : k' = k
  · rw [if_pos hk, hmem]
    exact Or.inl (by rw [hk])
  · rw [if_neg hk]
    cases hget : m.get k' with
    | some w => exact (hmem w).mpr (Or.inr ⟨hget, hk⟩)
    | none =>
      cases hset : (m.set k v).get k' with
      | none => rfl
      | some w =>
        rcases (hmem w).mp hset with heq | ⟨hsome, -⟩
        · exact absurd (congrArg Prod.fst heq) hk
        · rw [hget] at hsome
          cases hsome

@[simp] theorem get_set_self (m : OrdMap K V) (k : K) (v : V) : (m.set k v).get k = some v := by
  rw [get_set, if_pos rfl]

theorem get_set_of_ne (m : OrdMap K V) (v : V) (h : k' ≠ k) :
    (m.set k v).get k' = m.get k' := by
  rw [get_set, if_neg h]

def insert (m : OrdMap K V) (k : K) (v : V) : Option (OrdMap K V) :=
  match m.get k with
  | some _ => none
  | none => some (m.set k v)

theorem insert_eq_some_iff :
    m.insert k v = some m' ↔ m.get k = none ∧ m' = m.set k v := by
  rw [insert]
  cases hget : m.get k with
  | some w => simp
  | none =>
    simp only [Option.some.injEq, true_and]
    exact eq_comm

theorem insert_of_get_none (h : m.get k = none) :
    m.insert k v = some (m.set k v) := insert_eq_some_iff.mpr ⟨h, rfl⟩

/-! ## 3. Removal -/

def erase (m : OrdMap K V) (k : K) : OrdMap K V :=
  ⟨m.entries.filter fun e => e.1 ≠ k, m.sorted.filter _⟩

@[grind =] theorem get_erase (m : OrdMap K V) (k k' : K) :
    (m.erase k).get k' = if k' = k then none else m.get k' := by
  have hmem : ∀ w, (m.erase k).get k' = some w ↔ m.get k' = some w ∧ k' ≠ k := by
    intro w
    rw [get_eq_some_iff, get_eq_some_iff, erase, List.mem_filter]
    simp
  by_cases hk : k' = k
  · rw [if_pos hk]
    cases herase : (m.erase k).get k' with
    | none => rfl
    | some w => exact absurd hk ((hmem w).mp herase).2
  · rw [if_neg hk]
    cases hget : m.get k' with
    | some w => exact (hmem w).mpr ⟨hget, hk⟩
    | none =>
      cases herase : (m.erase k).get k' with
      | none => rfl
      | some w =>
        rw [((hmem w).mp herase).1] at hget
        cases hget

theorem get_erase_eq_some_iff :
    (m.erase k).get k' = some v ↔ k' ≠ k ∧ m.get k' = some v := by
  rw [get_erase]
  split
  case isTrue h => exact iff_of_false (fun h' => by cases h') (fun h' => h'.1 h)
  case isFalse h => exact ⟨fun h' => ⟨h, h'⟩, And.right⟩

theorem get_erase_of_ne (m : OrdMap K V) (h : k' ≠ k) :
    (m.erase k).get k' = m.get k' := by
  rw [get_erase, if_neg h]

def remove (m : OrdMap K V) (k : K) : Option (V × OrdMap K V) :=
  match m.get k with
  | some v => some (v, m.erase k)
  | none => none

theorem remove_eq_some_iff :
    m.remove k = some (v, m') ↔ m.get k = some v ∧ m' = m.erase k := by
  rw [remove]
  cases hget : m.get k with
  | none => simp
  | some w =>
    simp only [Option.some.injEq, Prod.mk.injEq]
    exact and_congr Iff.rfl eq_comm

theorem remove_eq_none_iff : m.remove k = none ↔ m.get k = none := by
  rw [remove]
  cases hget : m.get k with
  | none => simp
  | some w => simp

/-! ## 4. Neighbours -/

def floor (m : OrdMap K V) (k : K) : Option (K × V) :=
  m.entries.reverse.find? fun e => e.1 ≤ k

def lowerBound (m : OrdMap K V) (k : K) : Option (K × V) :=
  m.entries.find? fun e => k ≤ e.1

theorem get_of_floor (h : m.floor k = some (k', v)) :
    m.get k' = some v ∧ k' ≤ k := by
  rw [floor] at h
  have hle := List.find?_some h
  have hmem := List.mem_of_find?_eq_some h
  rw [List.mem_reverse] at hmem
  exact ⟨get_eq_some_iff.mpr hmem, by simpa using hle⟩

theorem exists_floor (hget : m.get k' = some v) (hle : k' ≤ k) :
    ∃ e, m.floor k = some e ∧ k' ≤ e.1 := by
  have hmem := get_eq_some_iff.mp hget
  cases hfind : m.floor k with
  | none =>
    have hnot := List.find?_eq_none.mp hfind (k', v) (List.mem_reverse.mpr hmem)
    simp [hle] at hnot
  | some e =>
    refine ⟨e, rfl, ?_⟩
    -- the entries behind `e` are above the bound
    obtain ⟨-, l, r, hl, habove⟩ := List.find?_eq_some_iff_append.mp hfind
    have hsorted := List.pairwise_reverse.mpr m.sorted
    rw [← List.mem_reverse, hl] at hmem
    rw [hl] at hsorted
    rcases List.mem_append.mp hmem with hin | hin
    · have := habove (k', v) hin
      simp [hle] at this
    · rcases List.mem_cons.mp hin with rfl | hin
      · exact le_rfl
      · exact ((List.pairwise_cons.mp (List.pairwise_append.mp hsorted).2.1).1 _ hin).le

theorem get_of_lowerBound
    (h : m.lowerBound k = some (k', v)) : m.get k' = some v ∧ k ≤ k' := by
  rw [lowerBound] at h
  have hle := List.find?_some h
  exact ⟨get_eq_some_iff.mpr (List.mem_of_find?_eq_some h), by simpa using hle⟩

theorem exists_lowerBound (hget : m.get k' = some v)
    (hle : k ≤ k') : ∃ e, m.lowerBound k = some e ∧ e.1 ≤ k' := by
  have hmem := get_eq_some_iff.mp hget
  cases hfind : m.lowerBound k with
  | none =>
    have hnot := List.find?_eq_none.mp hfind (k', v) hmem
    simp [hle] at hnot
  | some e =>
    refine ⟨e, rfl, ?_⟩
    -- the entries before `e` are below the bound
    obtain ⟨-, l, r, hl, hbelow⟩ := List.find?_eq_some_iff_append.mp hfind
    have hsorted := m.sorted
    rw [hl] at hmem hsorted
    rcases List.mem_append.mp hmem with hin | hin
    · have := hbelow (k', v) hin
      simp [hle] at this
    · rcases List.mem_cons.mp hin with rfl | hin
      · exact le_rfl
      · exact ((List.pairwise_cons.mp (List.pairwise_append.mp hsorted).2.1).1 _ hin).le

/-! ## 5. Traversal -/
private theorem sorted_of_keys_eq {l' : List (K × W)}
    (hkeys : l'.map (·.1) = l.map (·.1)) (hl : l.Pairwise fun a b => a.1 < b.1) :
    l'.Pairwise fun a b => a.1 < b.1 := by
  have h : (l.map (·.1)).Pairwise (· < ·) := List.pairwise_map.mpr hl
  rw [← hkeys] at h
  exact List.pairwise_map.mp h

def mapList (f : K → V → Option W) : List (K × V) → Option (List (K × W))
  | [] => some []
  | e :: rest =>
    match f e.1 e.2, mapList f rest with
    | some w, some rest => some ((e.1, w) :: rest)
    | _, _ => none

omit [LinearOrder K] in
theorem mapList_cons {e : K × V} {rest : List (K × V)}
    {l : List (K × W)} :
    mapList f (e :: rest) = some l ↔
      ∃ w rest', f e.1 e.2 = some w ∧ mapList f rest = some rest' ∧ l = (e.1, w) :: rest' := by
  rw [mapList]
  cases hf : f e.1 e.2 with
  | none => simp
  | some w =>
    cases hrest : mapList f rest with
    | none => simp
    | some rest' =>
      simp only [Option.some.injEq, exists_and_left, exists_eq_left']
      exact eq_comm

omit [LinearOrder K] in
theorem mapList_keys {l' : List (K × W)}
    (h : mapList f l = some l') : l'.map (·.1) = l.map (·.1) := by
  induction l generalizing l' with
  | nil =>
    cases h
    rfl
  | cons e rest ih =>
    obtain ⟨w, rest', -, hrest, rfl⟩ := mapList_cons.mp h
    rw [List.map_cons, List.map_cons, ih hrest]

omit [LinearOrder K] in
theorem mem_mapList {l' : List (K × W)}
    (h : mapList f l = some l') (hmem : (k, v) ∈ l) :
    ∃ w, f k v = some w ∧ (k, w) ∈ l' := by
  induction l generalizing l' with
  | nil => cases hmem
  | cons e rest ih =>
    obtain ⟨w', rest', hf, hrest, rfl⟩ := mapList_cons.mp h
    rcases List.mem_cons.mp hmem with heq | hin
    · subst heq
      exact ⟨w', hf, List.mem_cons_self⟩
    · obtain ⟨w, hw, hin'⟩ := ih hrest hin
      exact ⟨w, hw, List.mem_cons_of_mem _ hin'⟩

def mapM (f : K → V → Option W) (m : OrdMap K V) : Option (OrdMap K W) :=
  match h : mapList f m.entries with
  | some l => some ⟨l, sorted_of_keys_eq (mapList_keys h) m.sorted⟩
  | none => none

theorem mapM_eq_some {m' : OrdMap K W}
    (h : m.mapM f = some m') : mapList f m.entries = some m'.entries := by
  rw [mapM] at h
  split at h
  · rename_i l hl
    cases h
    exact hl
  · cases h

theorem get_mapM_of_some {m' : OrdMap K W}
    (h : m.mapM f = some m') (hget : m.get k = some v) :
    ∃ w, f k v = some w ∧ m'.get k = some w := by
  obtain ⟨w, hw, hmem⟩ := mem_mapList (mapM_eq_some h) (get_eq_some_iff.mp hget)
  exact ⟨w, hw, get_eq_some_iff.mpr hmem⟩

theorem get_mapM_of_none {m' : OrdMap K W}
    (h : m.mapM f = some m') (hget : m.get k = none) : m'.get k = none := by
  rw [get_eq_none_iff] at hget ⊢
  intro w hmem
  have hkeys := mapList_keys (mapM_eq_some h)
  have hin : k ∈ m'.entries.map (·.1) := List.mem_map.mpr ⟨(k, w), hmem, rfl⟩
  rw [hkeys, List.mem_map] at hin
  obtain ⟨⟨k', v⟩, hmem', rfl⟩ := hin
  exact hget v hmem'

end OrdMap
