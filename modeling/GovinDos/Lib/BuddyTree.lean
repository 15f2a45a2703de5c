/-
  **A block of pages, halved as often as needed.**

  The pages of a block of height `h` are the `2 ^ h` from `b` on.  Taking a block out of a
  free one halves it on the way down; giving it back joins the halves on the way up.
-/
import Mathlib

inductive BuddyTree where
  | free
  | allocated
  | unusable
  | split (l r : BuddyTree)
deriving DecidableEq, Repr

namespace BuddyTree

/-- A tree over a block of height `h` in which no two halves could be joined. -/
inductive Fits : Nat → BuddyTree → Prop
  | free (h : Nat) : Fits h .free
  | allocated (h : Nat) : Fits h .allocated
  | unusable (h : Nat) : Fits h .unusable
  | split {h : Nat} {l r : BuddyTree} (hl : Fits h l) (hr : Fits h r) (hfree : l = .free → r ≠ .free)
      (hunusable : l = .unusable → r ≠ .unusable) : Fits (h + 1) (.split l r)

def Free : BuddyTree → Nat → Nat → Nat → Prop
  | free, h, b, q => b ≤ q ∧ q < b + 2 ^ h
  | split l r, h + 1, b, q => l.Free h b q ∨ r.Free h (b + 2 ^ h) q
  | _, _, _, _ => False

def Owned : BuddyTree → Nat → Nat → Nat → Prop
  | free, h, b, q => b ≤ q ∧ q < b + 2 ^ h
  | allocated, h, b, q => b ≤ q ∧ q < b + 2 ^ h
  | split l r, h + 1, b, q => l.Owned h b q ∨ r.Owned h (b + 2 ^ h) q
  | _, _, _, _ => False

variable {t t' l r l' r' : BuddyTree} {h b k k' p p' q : Nat}

theorem mem_halves : b ≤ q ∧ q < b + 2 ^ (h + 1) ↔
    (b ≤ q ∧ q < b + 2 ^ h) ∨ (b + 2 ^ h ≤ q ∧ q < b + 2 ^ h + 2 ^ h) := by
  rw [Nat.pow_succ]
  omega

theorem Free.mem : ∀ {t : BuddyTree} {h b : Nat}, t.Free h b q → b ≤ q ∧ q < b + 2 ^ h
  | .free, _, _, hfree => hfree
  | .split _ _, _ + 1, _, hfree => mem_halves.mpr (hfree.imp Free.mem Free.mem)

theorem Free.owned : ∀ {t : BuddyTree} {h b : Nat}, t.Free h b q → t.Owned h b q
  | .free, _, _, hfree => hfree
  | .split _ _, _ + 1, _, hfree => hfree.imp Free.owned Free.owned

/-! ## Taking a block -/

inductive Alloc : (h b : Nat) → BuddyTree → (k p : Nat) → BuddyTree → Prop
  | here (h b : Nat) : Alloc h b .free h b .allocated
  | halve {h b k p : Nat} {t' : BuddyTree} (ht : Alloc h b .free k p t') :
      Alloc (h + 1) b .free k p (.split t' .free)
  | left {h b k p : Nat} {l l' r : BuddyTree} (hl : Alloc h b l k p l') :
      Alloc (h + 1) b (.split l r) k p (.split l' r)
  | right {h b k p : Nat} {l r r' : BuddyTree} (hr : Alloc h (b + 2 ^ h) r k p r') :
      Alloc (h + 1) b (.split l r) k p (.split l r')

namespace Alloc

theorem ne (ht : Alloc h b t k p t') : t' ≠ .free ∧ t' ≠ .unusable := by
  cases ht <;> exact ⟨nofun, nofun⟩

theorem fits (hfits : Fits h t) (ht : Alloc h b t k p t') : Fits h t' := by
  induction ht with
  | here h => exact .allocated h
  | halve ht ih => exact .split (ih (.free _)) (.free _) (fun hf => absurd hf ht.ne.1) nofun
  | left hl ih =>
    cases hfits with
    | split hfl hfr =>
      exact .split (ih hfl) hfr (fun hf => absurd hf hl.ne.1) fun hu => absurd hu hl.ne.2
  | right hr ih =>
    cases hfits with
    | split hfl hfr => exact .split hfl (ih hfr) (fun _ => hr.ne.1) fun _ => hr.ne.2

theorem block (ht : Alloc h b t k p t') : b ≤ p ∧ p + 2 ^ k ≤ b + 2 ^ h := by
  induction ht with
  | here => exact ⟨Nat.le_refl _, Nat.le_refl _⟩
  | halve _ ih | left _ ih =>
    rw [Nat.pow_succ]
    omega
  | @right h b k p l r r' _ ih =>
    have hpos := Nat.two_pow_pos h
    rw [Nat.pow_succ]
    omega

theorem owned_iff (ht : Alloc h b t k p t') : t'.Owned h b q ↔ t.Owned h b q := by
  induction ht with
  | here => rfl
  | halve _ ih => exact (or_congr ih Iff.rfl).trans mem_halves.symm
  | left _ ih => exact or_congr ih Iff.rfl
  | right _ ih => exact or_congr Iff.rfl ih

theorem free_iff (ht : Alloc h b t k p t') :
    t.Free h b q ↔ t'.Free h b q ∨ p ≤ q ∧ q < p + 2 ^ k := by
  induction ht with
  | here => exact (or_iff_right id).symm
  | halve _ ih =>
    refine mem_halves.trans ((or_congr ih Iff.rfl).trans ?_)
    exact or_right_comm
  | left _ ih => exact (or_congr ih Iff.rfl).trans or_right_comm
  | right _ ih => exact (or_congr Iff.rfl ih).trans or_assoc.symm

theorem not_free (ht : Alloc h b t k p t') (hp : p ≤ q) (hq : q < p + 2 ^ k) : ¬ t'.Free h b q := by
  induction ht with
  | here => exact id
  | halve ht ih | left ht ih =>
    rintro (hl | hr)
    · exact ih hp hq hl
    · have hblock := ht.block
      have hmem := hr.mem
      omega
  | right ht ih =>
    rintro (hl | hr)
    · have hblock := ht.block
      have hmem := hl.mem
      omega
    · exact ih hp hq hr

end Alloc

/-! ## Giving one back -/

def join : BuddyTree → BuddyTree → BuddyTree
  | free, free => free
  | unusable, unusable => unusable
  | l, r => split l r

theorem join_eq_split (hfree : l = .free → r ≠ .free) (hunusable : l = .unusable → r ≠ .unusable) :
    join l r = .split l r := by
  cases l with
  | free => cases r with
    | free => exact absurd rfl (hfree rfl)
    | _ => rfl
  | unusable => cases r with
    | unusable => exact absurd rfl (hunusable rfl)
    | _ => rfl
  | _ => rfl

theorem join_cases (l r : BuddyTree) :
    (l = .free ∧ r = .free) ∨ (l = .unusable ∧ r = .unusable) ∨
      (l = .free → r ≠ .free) ∧ (l = .unusable → r ≠ .unusable) := by
  by_cases hl : l = .free
  · by_cases hr : r = .free
    · exact .inl ⟨hl, hr⟩
    · exact .inr (.inr ⟨fun _ => hr, fun hu => by rw [hl] at hu; cases hu⟩)
  · by_cases hu : l = .unusable ∧ r = .unusable
    · exact .inr (.inl hu)
    · exact .inr (.inr ⟨fun hf => absurd hf hl, fun hlu hru => hu ⟨hlu, hru⟩⟩)

theorem join_fits (hl : Fits h l) (hr : Fits h r) : Fits (h + 1) (join l r) := by
  rcases join_cases l r with ⟨rfl, rfl⟩ | ⟨rfl, rfl⟩ | ⟨hfree, hunusable⟩
  · exact .free _
  · exact .unusable _
  · rw [join_eq_split hfree hunusable]
    exact .split hl hr hfree hunusable

theorem join_free_iff : (join l r).Free (h + 1) b q ↔ l.Free h b q ∨ r.Free h (b + 2 ^ h) q := by
  rcases join_cases l r with ⟨rfl, rfl⟩ | ⟨rfl, rfl⟩ | ⟨hfree, hunusable⟩
  · exact mem_halves
  · exact (or_iff_left id).symm
  · rw [join_eq_split hfree hunusable]
    rfl

theorem join_owned_iff :
    (join l r).Owned (h + 1) b q ↔ l.Owned h b q ∨ r.Owned h (b + 2 ^ h) q := by
  rcases join_cases l r with ⟨rfl, rfl⟩ | ⟨rfl, rfl⟩ | ⟨hfree, hunusable⟩
  · exact mem_halves
  · exact (or_iff_left id).symm
  · rw [join_eq_split hfree hunusable]
    rfl

inductive Release (q : Nat) : (h b : Nat) → BuddyTree → BuddyTree → Prop
  | here (h b : Nat) : Release q h b .allocated .free
  | left {h b : Nat} {l l' r : BuddyTree} (hq : q < b + 2 ^ h) (hl : Release q h b l l') :
      Release q (h + 1) b (.split l r) (join l' r)
  | right {h b : Nat} {l r r' : BuddyTree} (hq : b + 2 ^ h ≤ q) (hr : Release q h (b + 2 ^ h) r r') :
      Release q (h + 1) b (.split l r) (join l r')

namespace Release

theorem fits (hfits : Fits h t) (ht : Release q h b t t') : Fits h t' := by
  induction ht with
  | here => exact .free _
  | left _ _ ih =>
    cases hfits with
    | split hl hr => exact join_fits (ih hl) hr
  | right _ _ ih =>
    cases hfits with
    | split hl hr => exact join_fits hl (ih hr)

theorem owned_iff (ht : Release p h b t t') : t'.Owned h b q ↔ t.Owned h b q := by
  induction ht with
  | here => rfl
  | left _ _ ih => exact join_owned_iff.trans (or_congr ih Iff.rfl)
  | right _ _ ih => exact join_owned_iff.trans (or_congr Iff.rfl ih)

end Release

/-! ## The blocks that are out -/

/-- A block of height `k` at `p` is allocated. -/
def Out : BuddyTree → Nat → Nat → Nat → Nat → Prop
  | allocated, h, b, k, p => k = h ∧ p = b
  | split l r, h + 1, b, k, p => l.Out h b k p ∨ r.Out h (b + 2 ^ h) k p
  | _, _, _, _, _ => False

theorem Out.block : ∀ {t : BuddyTree} {h b : Nat}, t.Out h b k p →
    k ≤ h ∧ b ≤ p ∧ p + 2 ^ k ≤ b + 2 ^ h ∧ ∃ j, p = b + j * 2 ^ k
  | .allocated, _, _, ⟨hk, hp⟩ => by
    subst hk hp
    exact ⟨Nat.le_refl _, Nat.le_refl _, Nat.le_refl _, 0, by omega⟩
  | .split _ _, h + 1, b, hout => by
    have hpow := Nat.pow_succ 2 h
    rcases hout with hl | hr
    · obtain ⟨hk, hlow, hhigh, hj⟩ := hl.block
      exact ⟨by omega, hlow, by omega, hj⟩
    · obtain ⟨hk, hlow, hhigh, j, hj⟩ := hr.block
      refine ⟨by omega, by omega, by omega, 2 ^ (h - k) + j, ?_⟩
      rw [hj, Nat.add_mul, ← Nat.pow_add, Nat.sub_add_cancel hk, Nat.add_assoc]

theorem Out.apart : ∀ {t : BuddyTree} {h b : Nat}, t.Out h b k p → t.Out h b k' p' →
    k = k' ∧ p = p' ∨ p + 2 ^ k ≤ p' ∨ p' + 2 ^ k' ≤ p
  | .allocated, _, _, ⟨hk, hp⟩, ⟨hk', hp'⟩ => .inl ⟨hk.trans hk'.symm, hp.trans hp'.symm⟩
  | .split _ _, _ + 1, _, hout, hout' => by
    rcases hout with hl | hr <;> rcases hout' with hl' | hr'
    · exact hl.apart hl'
    · have := hl.block
      have := hr'.block
      omega
    · have := hr.block
      have := hl'.block
      omega
    · exact hr.apart hr'

theorem Out.not_free : ∀ {t : BuddyTree} {h b : Nat}, t.Out h b k p → p ≤ q → q < p + 2 ^ k →
    ¬ t.Free h b q
  | .allocated, _, _, _, _, _, hfree => hfree
  | .split _ _, _ + 1, _, hout, hp, hq, hfree => by
    rcases hout with hl | hr <;> rcases hfree with hl' | hr'
    · exact hl.not_free hp hq hl'
    · have := hl.block
      have := hr'.mem
      omega
    · have := hr.block
      have := hl'.mem
      omega
    · exact hr.not_free hp hq hr'

theorem owned_iff (hfits : Fits h t) : t.Owned h b q ↔
    t.Free h b q ∨ ∃ k p, t.Out h b k p ∧ p ≤ q ∧ q < p + 2 ^ k := by
  induction hfits generalizing b with
  | free | unusable | allocated => simp [Owned, Free, Out]
  | split _ _ _ _ ihl ihr =>
    simp only [Owned, Free, Out, ihl, ihr, or_and_right, exists_or]
    exact or_or_or_comm

theorem Alloc.out_iff (ht : Alloc h b t k p t') :
    t'.Out h b k' p' ↔ t.Out h b k' p' ∨ k' = k ∧ p' = p := by
  induction ht with
  | here => exact (or_iff_right id).symm
  | halve _ ih => exact (or_iff_left id).trans ih
  | left _ ih => exact (or_congr ih Iff.rfl).trans or_right_comm
  | right _ ih => exact (or_congr Iff.rfl ih).trans or_assoc.symm

theorem join_out_iff :
    (join l r).Out (h + 1) b k p ↔ l.Out h b k p ∨ r.Out h (b + 2 ^ h) k p := by
  rcases join_cases l r with ⟨rfl, rfl⟩ | ⟨rfl, rfl⟩ | ⟨hfree, hunusable⟩
  · exact (or_self_iff).symm
  · exact (or_self_iff).symm
  · rw [join_eq_split hfree hunusable]
    rfl

theorem Release.out_iff (ht : Release q h b t t') (hout : t.Out h b k q) :
    t.Out h b k' p ↔ t'.Out h b k' p ∨ k' = k ∧ p = q := by
  induction ht with
  | here =>
    obtain ⟨rfl, rfl⟩ := hout
    exact (or_iff_right id).symm
  | left hq _ ih =>
    rcases hout with hl | hr
    · rw [join_out_iff]
      exact (or_congr (ih hl) Iff.rfl).trans or_right_comm
    · have := hr.block
      omega
  | right hq _ ih =>
    rcases hout with hl | hr
    · have := hl.block
      have := Nat.two_pow_pos k
      omega
    · rw [join_out_iff]
      exact (or_congr Iff.rfl (ih hr)).trans or_assoc.symm

theorem Release.free (ht : Release q h b t t') (hq : b ≤ q ∧ q < b + 2 ^ h) : t'.Free h b q := by
  induction ht with
  | here => exact hq
  | left hlt _ ih => exact join_free_iff.mpr (.inl (ih ⟨hq.1, hlt⟩))
  | @right h b _ _ _ hle _ ih =>
    have hpow := Nat.pow_succ 2 h
    exact join_free_iff.mpr (.inr (ih ⟨hle, by omega⟩))

/-- A block of height `k` could be taken at `p`. -/
structure FreeBlock (t : BuddyTree) (h b k p : Nat) : Prop where
  aligned : ∃ j, p = b + j * 2 ^ k
  free : ∀ q, p ≤ q → q < p + 2 ^ k → t.Free h b q

theorem FreeBlock.le (hp : t.FreeBlock h b k p) : p + 2 ^ k ≤ b + 2 ^ h := by
  have hpos := Nat.two_pow_pos k
  have hmem := (hp.free (p + 2 ^ k - 1) (by omega) (by omega)).mem
  omega

theorem Free.freeBlock (hq : t.Free h b q) : t.FreeBlock h b 0 q := by
  obtain ⟨j, rfl⟩ := Nat.exists_eq_add_of_le hq.mem.1
  refine ⟨⟨j, by rw [Nat.pow_zero, Nat.mul_one]⟩, fun q hlow hhigh => ?_⟩
  rwa [Nat.le_antisymm (Nat.le_of_lt_succ hhigh) hlow]

theorem Alloc.freeBlock (ht : Alloc h b t k p t') : t.FreeBlock h b k p := by
  obtain ⟨-, -, -, haligned⟩ := (ht.out_iff.mpr (.inr ⟨rfl, rfl⟩)).block
  exact ⟨haligned, fun q hlow hhigh => ht.free_iff.mpr (.inr ⟨hlow, hhigh⟩)⟩

theorem eq_free_of_all (hfits : Fits h t) (hall : ∀ q, b ≤ q → q < b + 2 ^ h → t.Free h b q) :
    t = .free := by
  induction hfits generalizing b with
  | free => rfl
  | allocated h | unusable h =>
    have := Nat.two_pow_pos h
    exact (hall b (Nat.le_refl b) (by omega)).elim
  | @split h l r _ _ hfree _ ihl ihr =>
    have hpow := Nat.pow_succ 2 h
    refine absurd (ihr (b := b + 2 ^ h) fun q hlow hhigh => ?_) (hfree (ihl (b := b) fun q hlow hhigh => ?_))
    · refine (hall q (by omega) (by omega)).resolve_left fun hl => ?_
      have := hl.mem
      omega
    · refine (hall q hlow (by omega)).resolve_right fun hr => ?_
      have := hr.mem
      omega

/-- In a tree whose halves could not be joined, a free block is in one of them. -/
theorem FreeBlock.half (hfits : Fits (h + 1) (.split l r)) (hp : (split l r).FreeBlock (h + 1) b k p) :
    l.FreeBlock h b k p ∨ r.FreeBlock h (b + 2 ^ h) k p := by
  have hpow := Nat.pow_succ 2 h
  have hpos := Nat.two_pow_pos k
  have hle := hp.le
  obtain ⟨⟨j, rfl⟩, hall⟩ := hp
  rcases Nat.lt_or_ge h k with hlt | hk
  · have hmono := Nat.pow_le_pow_right (Nat.zero_lt_two) hlt
    obtain rfl : j = 0 := by
      by_contra hj
      have := Nat.mul_le_mul_right (2 ^ k) (Nat.one_le_iff_ne_zero.mpr hj)
      omega
    cases eq_free_of_all hfits fun q hlow hhigh => hall q (by omega) (by omega)
  · have hhalf : 2 ^ h = 2 ^ (h - k) * 2 ^ k := by rw [← Nat.pow_add, Nat.sub_add_cancel hk]
    rcases Nat.lt_or_ge j (2 ^ (h - k)) with hj | hj
    · have hmul := Nat.mul_le_mul_right (2 ^ k) (Nat.succ_le_of_lt hj)
      rw [Nat.succ_mul] at hmul
      refine .inl ⟨⟨j, rfl⟩, fun q hlow hq => (hall q hlow hq).resolve_right fun hr => ?_⟩
      have := hr.mem
      omega
    · have hmul := Nat.mul_le_mul_right (2 ^ k) hj
      refine .inr ⟨⟨j - 2 ^ (h - k), ?_⟩, fun q hlow hq => (hall q hlow hq).resolve_left fun hl => ?_⟩
      · rw [Nat.sub_mul]
        omega
      · have := hl.mem
        omega

/-! ## From the pages up -/

def ofPages (usable : Nat → Bool) : Nat → Nat → BuddyTree
  | 0, b => if usable b then free else unusable
  | h + 1, b => join (ofPages usable h b) (ofPages usable h (b + 2 ^ h))

variable {usable : Nat → Bool}

theorem ofPages_fits (h b : Nat) : Fits h (ofPages usable h b) := by
  induction h generalizing b with
  | zero =>
    unfold ofPages
    split
    · exact .free 0
    · exact .unusable 0
  | succ h ih => exact join_fits (ih b) (ih (b + 2 ^ h))

theorem ofPages_free_iff {h b : Nat} : (ofPages usable h b).Free h b q ↔
    (b ≤ q ∧ q < b + 2 ^ h) ∧ usable q = true := by
  induction h generalizing b with
  | zero =>
    unfold ofPages
    split
    · rename_i husable
      refine ⟨fun hq => ⟨hq, ?_⟩, fun hq => hq.1⟩
      have hq : b ≤ q ∧ q < b + 1 := hq
      rwa [show q = b by omega]
    · rename_i husable
      refine ⟨False.elim, fun hq => husable ?_⟩
      have hmem : b ≤ q ∧ q < b + 1 := hq.1
      rw [show b = q by omega]
      exact hq.2
  | succ h ih => rw [ofPages, join_free_iff, ih, ih, mem_halves, or_and_right]

theorem ofPages_owned_iff {h b : Nat} :
    (ofPages usable h b).Owned h b q ↔ (ofPages usable h b).Free h b q := by
  induction h generalizing b with
  | zero =>
    unfold ofPages
    split <;> rfl
  | succ h ih => rw [ofPages, join_owned_iff, join_free_iff, ih, ih]

theorem exists_free_of_ofPages {h b : Nat} (hne : ofPages usable h b ≠ .unusable) :
    ∃ q, (ofPages usable h b).Free h b q := by
  induction h generalizing b with
  | zero =>
    by_cases husable : usable b = true
    · rw [ofPages, if_pos husable]
      exact ⟨b, Nat.le_refl b, Nat.lt_succ_self b⟩
    · rw [ofPages, if_neg husable] at hne
      exact absurd rfl hne
  | succ h ih =>
    simp only [ofPages, join_free_iff]
    by_cases hl : ofPages usable h b = .unusable
    · have hr : ofPages usable h (b + 2 ^ h) ≠ .unusable := by
        intro hr
        rw [ofPages, hl, hr] at hne
        exact hne rfl
      exact (ih hr).imp fun _ => .inr
    · exact (ih hl).imp fun _ => .inl

end BuddyTree
