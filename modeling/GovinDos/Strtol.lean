/-
  **Number parsing (`parse_magnitude`, `strtol`, `strtoul`, `strtoll`, `strtoull` of
  `gdos-libc-dev/source/stdlib.c`).**

  A pointer into a zero-terminated string is what is left of the string.  `Parts` is the
  standard's subject sequence, written down without the parser.  Two things go wrong: a
  prefix `0x` with no digit behind it is not given back, and the unsigned calls negate the
  limit they saturate at.
-/
import Mathlib

namespace GovinDos.Strtol

/-! ## 1. The model -/

def deref (s : List UInt8) : UInt8 := s.headD 0

def isspace (c : UInt8) : Bool :=
  c = ' '.toUInt8 || c = '\t'.toUInt8 || c = '\n'.toUInt8 || c = '\r'.toUInt8 || c = 12 || c = 11

def digitValue (c : UInt8) : Int :=
  if '0'.toUInt8 ≤ c ∧ c ≤ '9'.toUInt8 then c.toNat - '0'.toUInt8.toNat
  else if 'a'.toUInt8 ≤ c ∧ c ≤ 'z'.toUInt8 then c.toNat - 'a'.toUInt8.toNat + 10
  else if 'A'.toUInt8 ≤ c ∧ c ≤ 'Z'.toUInt8 then c.toNat - 'A'.toUInt8.toNat + 10
  else -1

inductive Errno where
  | EINVAL | ERANGE
deriving DecidableEq

structure Acc where
  value : Nat
  any : Bool
  overflow : Bool

def Acc.step (limit base : Nat) (a : Acc) (digit : Nat) : Acc :=
  if (2 ^ 64 + limit - digit) % 2 ^ 64 / base < a.value then ⟨limit, true, true⟩
  else ⟨if a.overflow then a.value else (a.value * base + digit) % 2 ^ 64, true, a.overflow⟩

def digitLoop (limit : Nat) (base : Int) : List UInt8 → Acc → Acc × List UInt8
  | [], a => (a, [])
  | c :: s, a =>
    if digitValue c < 0 ∨ base ≤ digitValue c then (a, c :: s)
    else digitLoop limit base s (a.step limit base.toNat (digitValue c).toNat)

/-- What a call leaves behind: `end_` is the offset stored in `*end`. -/
structure Parsed where
  value : Nat
  end_ : Nat
  negative : Bool
  overflow : Bool
  errno : Option Errno

def skipSign (s : List UInt8) : List UInt8 :=
  if deref s = '+'.toUInt8 ∨ deref s = '-'.toUInt8 then s.tail else s

def strip (s : List UInt8) : List UInt8 := skipSign (s.dropWhile isspace)

def hexPrefix (base : Int) (s : List UInt8) : Bool :=
  (base = 0 || base = 16) && deref s = '0'.toUInt8 &&
    (deref s.tail = 'x'.toUInt8 || deref s.tail = 'X'.toUInt8)

def actualBase (base : Int) (s : List UInt8) : Int :=
  if hexPrefix base s then 16
  else if base = 0 then (if deref s = '0'.toUInt8 then 8 else 10) else base

def skipPrefix (base : Int) (s : List UInt8) : List UInt8 :=
  if hexPrefix base s then s.drop 2 else s

def parseMagnitude (start : List UInt8) (base : Int) (positive_limit negative_limit : Nat) :
    Parsed :=
  let negative : Bool := deref (start.dropWhile isspace) = '-'.toUInt8
  let s := strip start
  let radix := actualBase base s
  if radix < 2 ∨ 36 < radix then ⟨0, 0, false, false, some .EINVAL⟩
  else
    let limit := if negative then negative_limit else positive_limit
    let (a, rest) := digitLoop limit radix (skipPrefix base s) ⟨0, false, false⟩
    ⟨a.value, if a.any then start.length - rest.length else 0, negative, a.overflow,
      if a.overflow then some .ERANGE else none⟩

structure Out (α : Type) where
  result : α
  end_ : Nat
  errno : Option Errno

def strtoUnsigned (w : Nat) (s : List UInt8) (base : Int) : Out Nat :=
  let p := parseMagnitude s base (2 ^ w - 1) (2 ^ w - 1)
  let magnitude := p.value % 2 ^ w
  ⟨if p.negative then (2 ^ w - magnitude) % 2 ^ w else magnitude, p.end_, p.errno⟩

def strtoSigned (w : Nat) (s : List UInt8) (base : Int) : Out Int :=
  let max := 2 ^ (w - 1) - 1
  let min : Int := -2 ^ (w - 1)
  let p := parseMagnitude s base max (max + 1)
  let cast := (p.value : Int).bmod (2 ^ w)
  ⟨if p.overflow then (if p.negative then min else max)
    else if p.negative ∧ p.value = max + 1 then min
    else if p.negative then -cast else cast, p.end_, p.errno⟩

def strtoul := strtoUnsigned 32
def strtol := strtoSigned 32
def strtoull := strtoUnsigned 64
def strtoll := strtoSigned 64

/-! ## 2. The subject sequence -/

structure Parts where
  space : List UInt8
  sign : List UInt8
  pre : List UInt8
  digits : List UInt8

def Parts.text (x : Parts) : List UInt8 := x.space ++ (x.sign ++ (x.pre ++ x.digits))

def Parts.radix (base : Int) (x : Parts) : Int :=
  if x.pre ≠ [] then 16
  else if base = 0 then (if x.digits.head? = some '0'.toUInt8 then 8 else 10) else base

def IsDigit (radix : Int) (c : UInt8) : Prop := 0 ≤ digitValue c ∧ digitValue c < radix

instance (radix : Int) (c : UInt8) : Decidable (IsDigit radix c) := inferInstanceAs (Decidable (_ ∧ _))

structure Parts.Ok (base : Int) (x : Parts) : Prop where
  space : ∀ c ∈ x.space, isspace c = true
  sign : x.sign = [] ∨ x.sign = ['+'.toUInt8] ∨ x.sign = ['-'.toUInt8]
  pre : x.pre = [] ∨ (base = 0 ∨ base = 16) ∧
    (x.pre = ['0'.toUInt8, 'x'.toUInt8] ∨ x.pre = ['0'.toUInt8, 'X'.toUInt8])
  nonempty : x.digits ≠ []
  digits : ∀ c ∈ x.digits, IsDigit (x.radix base) c

def Reads (base : Int) (s : List UInt8) (x : Parts) : Prop := x.Ok base ∧ x.text <+: s

def Longest (base : Int) (s : List UInt8) (x : Parts) : Prop :=
  Reads base s x ∧ ∀ y, Reads base s y → y.text.length ≤ x.text.length

def EndOk (base : Int) (s : List UInt8) (e : Nat) : Prop :=
  (∃ x, Longest base s x ∧ e = x.text.length) ∨ (∀ x, ¬ Reads base s x) ∧ e = 0

/-! ## 3. What the parser skips -/

section

variable {base : Int} {s : List UInt8} {x : Parts} {c : UInt8}

theorem digitValue_of_lead (h : isspace c = true ∨ c = '+'.toUInt8 ∨ c = '-'.toUInt8) :
    digitValue c = -1 := by
  simp only [isspace, Bool.or_eq_true, decide_eq_true_eq] at h
  rcases h with ((((h | h) | h) | h) | h) | h
  all_goals first | (rcases h with h | h <;> subst h <;> decide) | (subst h; decide)

def signOf (s : List UInt8) : List UInt8 :=
  if deref s = '+'.toUInt8 ∨ deref s = '-'.toUInt8 then s.take 1 else []

theorem signOf_append_strip (s : List UInt8) :
    s.takeWhile isspace ++ (signOf (s.dropWhile isspace) ++ strip s) = s := by
  have htail : signOf (s.dropWhile isspace) ++ strip s = s.dropWhile isspace := by
    simp only [strip, skipSign, signOf]
    split
    · cases s.dropWhile isspace <;> rfl
    · rfl
  rw [htail, List.takeWhile_append_dropWhile]

theorem Parts.Ok.body (h : x.Ok base) :
    ∃ c r, x.pre ++ x.digits = c :: r ∧ isspace c = false ∧ c ≠ '+'.toUInt8 ∧ c ≠ '-'.toUInt8 := by
  rcases h.pre with hpre | ⟨-, hpre | hpre⟩
  · cases hd : x.digits with
    | nil => exact absurd hd h.nonempty
    | cons c r =>
      have hdigit := (h.digits c (by rw [hd]; exact List.mem_cons_self)).1
      have hlead : ¬ (isspace c = true ∨ c = '+'.toUInt8 ∨ c = '-'.toUInt8) := by
        intro hc
        rw [digitValue_of_lead hc] at hdigit
        omega
      simp only [not_or, Bool.not_eq_true] at hlead
      exact ⟨c, r, by rw [hpre, List.nil_append], hlead⟩
  all_goals
    rw [hpre]
    exact ⟨_, _, rfl, by decide, by decide, by decide⟩

theorem parts_of_reads (h : Reads base s x) :
    x.space = s.takeWhile isspace ∧ x.sign = signOf (s.dropWhile isspace) ∧
      x.pre ++ x.digits <+: strip s := by
  obtain ⟨hok, r, rfl⟩ := h
  obtain ⟨c, b, hbody, hspace, hplus, hminus⟩ := hok.body
  have hlead : (x.sign ++ (x.pre ++ x.digits ++ r)).takeWhile isspace = [] := by
    rcases hok.sign with hs | hs | hs <;> rw [hs]
    · rw [hbody]
      simp [hspace]
    all_goals rfl
  have htext : x.text ++ r = x.space ++ (x.sign ++ (x.pre ++ x.digits ++ r)) := by
    simp [Parts.text]
  have hdrop : (x.text ++ r).dropWhile isspace = x.sign ++ (x.pre ++ x.digits ++ r) := by
    rw [htext, List.dropWhile_append_of_pos hok.space]
    exact List.dropWhile_eq_self_iff.mpr fun hlt => by
      simpa using List.takeWhile_eq_nil_iff.mp hlead hlt
  refine ⟨?_, ?_, r, ?_⟩
  · rw [htext, List.takeWhile_append_of_pos hok.space, hlead, List.append_nil]
  · rw [hdrop, signOf]
    rcases hok.sign with hs | hs | hs <;> rw [hs]
    · rw [hbody, if_neg (by simp [deref, hplus, hminus])]
    all_goals rfl
  · rw [strip, hdrop, skipSign]
    rcases hok.sign with hs | hs | hs <;> rw [hs]
    · rw [hbody, if_neg (by simp [deref, hplus, hminus])]
      rfl
    all_goals rfl

def digitsOf (base : Int) (t : List UInt8) : List UInt8 :=
  (skipPrefix base t).takeWhile fun c => IsDigit (actualBase base t) c

def parsed (base : Int) (s : List UInt8) : Parts :=
  ⟨s.takeWhile isspace, signOf (s.dropWhile isspace),
    (strip s).take (if hexPrefix base (strip s) then 2 else 0), digitsOf base (strip s)⟩

theorem pre_append_skipPrefix (base : Int) (t : List UInt8) :
    t.take (if hexPrefix base t then 2 else 0) ++ skipPrefix base t = t := by
  unfold skipPrefix
  split
  · exact List.take_append_drop 2 t
  · rfl

theorem hexPrefix_iff {t : List UInt8} : hexPrefix base t = true ↔
    (base = 0 ∨ base = 16) ∧ ∃ c r, (c = 'x'.toUInt8 ∨ c = 'X'.toUInt8) ∧ t = '0'.toUInt8 :: c :: r := by
  simp only [hexPrefix, Bool.and_eq_true, Bool.or_eq_true, decide_eq_true_eq, and_assoc]
  refine and_congr_right fun _ => ⟨fun h => ?_, ?_⟩
  · rcases t with _ | ⟨a, _ | ⟨c, r⟩⟩
    · exact absurd h.1 (by decide)
    · exact absurd h.2 (by simp only [deref, List.tail_cons, List.headD_nil]; decide)
    · exact ⟨c, r, h.2, by rw [← h.1]; rfl⟩
  · rintro ⟨c, r, hc, rfl⟩
    exact ⟨rfl, hc⟩

theorem digitValue_x (hc : c = 'x'.toUInt8 ∨ c = 'X'.toUInt8) : digitValue c = 33 := by
  rcases hc with rfl | rfl <;> decide

theorem prefix_takeWhile {p : UInt8 → Bool} {ds t : List UInt8} (h : ds <+: t)
    (hds : ∀ c ∈ ds, p c = true) : ds <+: t.takeWhile p := by
  obtain ⟨r, rfl⟩ := h
  rw [List.takeWhile_append_of_pos hds]
  exact List.prefix_append _ _

theorem reads_of_hexPrefix (h : Reads base s x) (hhex : hexPrefix base (strip s) = true) :
    x.pre = [] ∧ x.digits = ['0'.toUInt8] ∨
    x.pre = (parsed base s).pre ∧ x.radix base = actualBase base (strip s) ∧
      x.digits <+: digitsOf base (strip s) := by
  obtain ⟨-, -, hbody⟩ := parts_of_reads h
  obtain ⟨hbase, c, r, hc, ht⟩ := hexPrefix_iff.mp hhex
  rw [ht] at hbody
  have hx := digitValue_x hc
  rcases h.1.pre with hpre | ⟨-, hpre⟩
  · left
    refine ⟨hpre, ?_⟩
    rw [hpre, List.nil_append] at hbody
    -- the digits start with 0 and stop before the x
    rcases hd : x.digits with _ | ⟨a, _ | ⟨b, ds⟩⟩
    · exact absurd hd h.1.nonempty
    · rw [hd] at hbody
      rw [(List.cons_prefix_cons.mp hbody).1]
    · rw [hd] at hbody
      obtain ⟨ha, hbody⟩ := List.cons_prefix_cons.mp hbody
      obtain ⟨hb, -⟩ := List.cons_prefix_cons.mp hbody
      have hdigit := (h.1.digits b (by rw [hd]; simp)).2
      rw [hb, hx, Parts.radix, hpre, hd, ha] at hdigit
      rcases hbase with rfl | rfl <;> simp at hdigit
  · right
    have hpre' : x.pre = ['0'.toUInt8, c] ∧ x.digits <+: r := by
      rcases hpre with hpre | hpre <;>
      · rw [hpre] at hbody ⊢
        simp only [List.cons_append, List.nil_append, List.cons_prefix_cons] at hbody
        obtain ⟨-, rfl, hbody⟩ := hbody
        exact ⟨rfl, hbody⟩
    have hradix : x.radix base = 16 := by simp [Parts.radix, hpre'.1]
    refine ⟨?_, by rw [hradix, actualBase, if_pos hhex], ?_⟩
    · simp only [parsed, if_pos hhex]
      rw [hpre'.1, ht]
      rfl
    · rw [digitsOf, skipPrefix, if_pos hhex, actualBase, if_pos hhex, ht]
      refine prefix_takeWhile hpre'.2 fun d hd => ?_
      have := h.1.digits d hd
      rw [hradix] at this
      exact decide_eq_true this

theorem reads_of_plain (h : Reads base s x) (hhex : ¬ hexPrefix base (strip s) = true) :
    x.pre = (parsed base s).pre ∧ x.radix base = actualBase base (strip s) ∧
      x.digits <+: digitsOf base (strip s) := by
  obtain ⟨-, -, hbody⟩ := parts_of_reads h
  have hpre : x.pre = [] := by
    refine h.1.pre.resolve_right fun hpre => hhex (hexPrefix_iff.mpr ⟨hpre.1, ?_⟩)
    obtain ⟨r, hr⟩ := hbody
    rcases hpre.2 with hp | hp <;> rw [hp] at hr
    · exact ⟨_, x.digits ++ r, .inl rfl, by rw [← hr]; rfl⟩
    · exact ⟨_, x.digits ++ r, .inr rfl, by rw [← hr]; rfl⟩
  rw [hpre, List.nil_append] at hbody
  have hradix : x.radix base = actualBase base (strip s) := by
    rw [Parts.radix, hpre, actualBase, if_neg hhex]
    obtain ⟨r, hr⟩ := hbody
    rw [← hr]
    cases hd : x.digits with
    | nil => exact absurd hd h.1.nonempty
    | cons c ds => simp [deref]
  refine ⟨by simp [parsed, hhex, hpre], hradix, ?_⟩
  rw [digitsOf, skipPrefix, if_neg hhex, ← hradix]
  exact prefix_takeWhile hbody fun d hd => decide_eq_true (h.1.digits d hd)

theorem reads_cases (h : Reads base s x) :
    hexPrefix base (strip s) = true ∧ x.pre = [] ∧ x.digits = ['0'.toUInt8] ∨
    x.pre = (parsed base s).pre ∧ x.radix base = actualBase base (strip s) ∧
      x.digits <+: digitsOf base (strip s) := by
  by_cases hhex : hexPrefix base (strip s) = true
  · exact (reads_of_hexPrefix h hhex).imp_left fun hzero => ⟨hhex, hzero⟩
  · exact .inr (reads_of_plain h hhex)

/-! ## 4. The end pointer -/

theorem text_parsed (base : Int) (s : List UInt8) : (parsed base s).text ++
    (skipPrefix base (strip s)).dropWhile (fun c => IsDigit (actualBase base (strip s)) c) = s := by
  simp only [Parts.text, parsed, digitsOf, List.append_assoc, List.takeWhile_append_dropWhile,
    pre_append_skipPrefix, signOf_append_strip]

theorem head_takeWhile {p : UInt8 → Bool} {t : List UInt8} (h : t.takeWhile p ≠ []) :
    (t.takeWhile p).head? = some (deref t) := by
  cases t with
  | nil => exact absurd rfl h
  | cons c r =>
    by_cases hc : p c = true
    · simp [hc, deref]
    · simp [hc] at h

theorem radix_parsed (hd : digitsOf base (strip s) ≠ []) :
    (parsed base s).radix base = actualBase base (strip s) := by
  unfold Parts.radix actualBase
  by_cases hhex : hexPrefix base (strip s) = true
  · obtain ⟨-, c, r, -, ht⟩ := hexPrefix_iff.mp hhex
    have hpre : (parsed base s).pre ≠ [] := by
      simp only [parsed, if_pos hhex]
      simp [ht]
    rw [if_pos hpre, if_pos hhex]
  · have hpre : (parsed base s).pre = [] := by simp [parsed, hhex]
    have hhead : (parsed base s).digits.head? = some (deref (strip s)) := by
      show (digitsOf base (strip s)).head? = _
      rw [digitsOf, skipPrefix, if_neg hhex] at hd ⊢
      exact head_takeWhile hd
    rw [if_neg (not_not.mpr hpre), if_neg hhex, hhead]
    simp only [Option.some_inj]

theorem parsed_sign (base : Int) (s : List UInt8) : (parsed base s).sign = [] ∨
    (parsed base s).sign = ['+'.toUInt8] ∨ (parsed base s).sign = ['-'.toUInt8] := by
  simp only [parsed, signOf]
  split
  · rename_i h
    cases hs : s.dropWhile isspace with
    | nil => exact .inl rfl
    | cons c r =>
      rw [hs] at h
      rcases h with h | h
      · exact .inr (.inl (congrArg (fun b => [b]) h))
      · exact .inr (.inr (congrArg (fun b => [b]) h))
  · exact .inl rfl

theorem parsed_reads (hd : digitsOf base (strip s) ≠ []) : Reads base s (parsed base s) := by
  refine ⟨⟨fun c hc => ?_, ?_, ?_, hd, fun c hc => ?_⟩, _, text_parsed base s⟩
  · exact List.mem_takeWhile_imp hc
  · exact parsed_sign base s
  · by_cases hhex : hexPrefix base (strip s) = true
    · obtain ⟨hbase, c, r, hc, ht⟩ := hexPrefix_iff.mp hhex
      refine .inr ⟨hbase, ?_⟩
      simp only [parsed, if_pos hhex]
      rw [ht]
      rcases hc with rfl | rfl <;> simp
    · exact .inl (by simp [parsed, hhex])
  · rw [radix_parsed hd]
    have hc : c ∈ digitsOf base (strip s) := hc
    simpa using List.mem_takeWhile_imp hc

theorem parsed_longest (hd : digitsOf base (strip s) ≠ []) : Longest base s (parsed base s) := by
  refine ⟨parsed_reads hd, fun y hy => ?_⟩
  obtain ⟨hspace, hsign, -⟩ := parts_of_reads hy
  have hpos := List.length_pos_iff.mpr hd
  simp only [Parts.text, List.length_append, hspace, hsign]
  rcases reads_cases hy with ⟨-, hpre, hdigits⟩ | ⟨hpre, -, hdigits⟩
  · rw [hpre, hdigits]
    simp only [parsed, List.length_nil, List.length_singleton]
    omega
  · have hle := hdigits.length_le
    rw [hpre]
    simp only [parsed]
    omega

def Dangling (base : Int) (s : List UInt8) : Prop :=
  hexPrefix base (strip s) = true ∧ ¬ IsDigit 16 (deref ((strip s).drop 2))

theorem takeWhile_eq_nil {p : UInt8 → Bool} (h0 : p 0 = false) {t : List UInt8} :
    t.takeWhile p = [] ↔ p (deref t) = false := by
  cases t with
  | nil => simp [deref, h0]
  | cons c r => simp [deref, List.takeWhile_cons]

theorem dangling_iff : Dangling base s ↔
    digitsOf base (strip s) = [] ∧ hexPrefix base (strip s) = true := by
  rw [Dangling, and_comm]
  refine and_congr_left fun hhex => ?_
  rw [digitsOf, takeWhile_eq_nil (decide_eq_false fun h => absurd h.1 (by decide)), skipPrefix, if_pos hhex, actualBase,
    if_pos hhex, decide_eq_false_iff_not]

theorem Dangling.reads (h : Dangling base s) : Reads base s
    ⟨s.takeWhile isspace, signOf (s.dropWhile isspace), [], ['0'.toUInt8]⟩ := by
  obtain ⟨hbase, c, r, -, ht⟩ := hexPrefix_iff.mp h.1
  have hsign := (parsed_sign base s)
  refine ⟨⟨fun c hc => List.mem_takeWhile_imp hc, hsign, .inl rfl, by simp, ?_⟩, c :: r, ?_⟩
  · intro d hd
    obtain rfl := List.mem_singleton.mp hd
    rcases hbase with rfl | rfl
    · show IsDigit 8 _
      decide
    · show IsDigit 16 _
      decide
  · have := signOf_append_strip s
    rw [ht] at this
    simpa [Parts.text] using this

theorem Reads.dangling (h : Reads base s x) (hd : digitsOf base (strip s) = []) :
    Dangling base s := by
  rcases reads_cases h with ⟨hhex, -⟩ | ⟨-, -, hdigits⟩
  · exact dangling_iff.mpr ⟨hd, hhex⟩
  · rw [hd, List.prefix_nil] at hdigits
    exact absurd hdigits h.1.nonempty

def endOf (base : Int) (s : List UInt8) : Nat :=
  if digitsOf base (strip s) = [] then 0 else (parsed base s).text.length

theorem endOk_endOf_iff : EndOk base s (endOf base s) ↔ ¬ Dangling base s := by
  unfold endOf
  split
  · rename_i hd
    constructor
    · rintro (⟨x, hx, he⟩ | ⟨hnone, -⟩) hdang
      · have := hx.1.1.nonempty
        simp only [Parts.text, List.length_append] at he
        exact this (List.length_eq_zero_iff.mp (by omega))
      · exact hnone _ hdang.reads
    · intro hdang
      exact .inr ⟨fun x hx => hdang (hx.dangling hd), rfl⟩
  · rename_i hd
    exact iff_of_true (.inl ⟨_, parsed_longest hd, rfl⟩) fun h => hd (dangling_iff.mp h).1

/-! ### The loop -/

theorem digitLoop_eq (limit : Nat) (radix : Int) (t : List UInt8) (a : Acc) :
    digitLoop limit radix t a = ((t.takeWhile (fun c => IsDigit radix c)).foldl
      (fun a c => a.step limit radix.toNat (digitValue c).toNat) a,
      t.dropWhile (fun c => IsDigit radix c)) := by
  induction t generalizing a with
  | nil => rfl
  | cons c t ih =>
    rw [digitLoop, List.takeWhile_cons, List.dropWhile_cons]
    by_cases hc : IsDigit radix c
    · rw [if_neg (by unfold IsDigit at hc; omega), ih]
      simp [hc]
    · rw [if_pos (by unfold IsDigit at hc; omega)]
      simp [hc]

@[simp]
theorem Acc.step_any (limit base : Nat) (a : Acc) (digit : Nat) :
    (a.step limit base digit).any = true := by
  unfold Acc.step
  split <;> rfl

theorem foldl_any (limit base : Nat) (ds : List UInt8) (a : Acc) : (ds.foldl
    (fun a c => a.step limit base (digitValue c).toNat) a).any = (a.any || !ds.isEmpty) := by
  induction ds generalizing a with
  | nil => simp
  | cons c ds ih => simp [ih]

def numeral (radix : Nat) (ds : List UInt8) : Nat :=
  ds.foldl (fun v c => v * radix + (digitValue c).toNat) 0

structure Acc.Holds (limit v : Nat) (a : Acc) : Prop where
  exact_ : v ≤ limit → a.value = v ∧ a.overflow = false
  saturated : limit < v → a.value = limit ∧ a.overflow = true

theorem Acc.Holds.step {limit v radix digit : Nat} {a : Acc} (h : a.Holds limit v)
    (hradix : 2 ≤ radix) (hdigit : digit < radix) (hlow : radix ≤ limit) (hhigh : limit < 2 ^ 64) :
    (a.step limit radix digit).Holds limit (v * radix + digit) := by
  -- the limit is above every digit, so the subtraction does not wrap
  have hsub : (2 ^ 64 + limit - digit) % 2 ^ 64 = limit - digit := by
    rw [show 2 ^ 64 + limit - digit = limit - digit + 2 ^ 64 by omega, Nat.add_mod_right,
      Nat.mod_eq_of_lt (by omega)]
  unfold Acc.step
  rw [hsub]
  by_cases hv : v ≤ limit
  · obtain ⟨hvalue, hover⟩ := h.exact_ hv
    have htest : (limit - digit) / radix < v ↔ limit - digit < v * radix :=
      Nat.div_lt_iff_lt_mul (by omega)
    rw [hvalue, hover]
    split
    · rename_i hlt
      have := htest.mp hlt
      exact ⟨fun hle => absurd hle (by omega), fun _ => ⟨rfl, rfl⟩⟩
    · rename_i hge
      have := mt htest.mpr hge
      refine ⟨fun hle => ⟨?_, rfl⟩, fun hlt => absurd hlt (by omega)⟩
      exact Nat.mod_eq_of_lt (by omega)
  · obtain ⟨hvalue, -⟩ := h.saturated (by omega)
    have hgrow : v * 1 ≤ v * radix := Nat.mul_le_mul_left v (by omega)
    have hdiv : (limit - digit) / radix < limit := by
      refine (Nat.div_lt_iff_lt_mul (by omega)).mpr ?_
      have : limit * 2 ≤ limit * radix := Nat.mul_le_mul_left limit hradix
      omega
    rw [hvalue, if_pos hdiv]
    exact ⟨fun hle => absurd hle (by omega), fun _ => ⟨rfl, rfl⟩⟩

theorem Acc.Holds.foldl {limit radix v : Nat} {a : Acc} (hradix : 2 ≤ radix) (hlow : radix ≤ limit)
    (hhigh : limit < 2 ^ 64) {ds : List UInt8} (hds : ∀ c ∈ ds, (digitValue c).toNat < radix)
    (h : a.Holds limit v) :
    (ds.foldl (fun a c => a.step limit radix (digitValue c).toNat) a).Holds limit
      (ds.foldl (fun v c => v * radix + (digitValue c).toNat) v) := by
  induction ds generalizing a v with
  | nil => exact h
  | cons c ds ih =>
    refine ih (fun d hd => hds d (List.mem_cons_of_mem _ hd)) ?_
    exact h.step hradix (hds c List.mem_cons_self) hlow hhigh

/-! ## 5. The calls -/

def ValidBase (base : Int) : Prop := base = 0 ∨ 2 ≤ base ∧ base ≤ 36

theorem ValidBase.actualBase (h : ValidBase base) (t : List UInt8) :
    2 ≤ actualBase base t ∧ actualBase base t ≤ 36 := by
  unfold Strtol.actualBase
  rcases h with rfl | h
  · split
    · decide
    · rw [if_pos rfl]
      split <;> decide
  · split
    · decide
    · rw [if_neg (by omega)]
      exact h

theorem signOf_eq_minus {t : List UInt8} :
    signOf t = ['-'.toUInt8] ↔ deref t = '-'.toUInt8 := by
  unfold signOf
  cases t with
  | nil => decide
  | cons c r =>
    by_cases hc : c = '-'.toUInt8
    · simp [deref, hc]
    · by_cases hplus : c = '+'.toUInt8
      · simp only [hplus, deref, List.headD_cons, true_or, if_true, List.take_succ_cons,
          List.take_zero]
        decide
      · simp [deref, hc, hplus]

def magnitudeOf (base : Int) (s : List UInt8) : Nat :=
  numeral (actualBase base (strip s)).toNat (digitsOf base (strip s))

theorem parseMagnitude_spec (h : ValidBase base) (s : List UInt8) (pos neg : Nat)
    (hpos : 36 ≤ pos ∧ pos < 2 ^ 64) (hneg : 36 ≤ neg ∧ neg < 2 ^ 64) :
    let p := parseMagnitude s base pos neg
    p.end_ = endOf base s ∧ (p.negative = true ↔ (parsed base s).sign = ['-'.toUInt8]) ∧
      (p.errno = if p.overflow then some .ERANGE else none) ∧
      (let limit := if p.negative then neg else pos
       (magnitudeOf base s ≤ limit → p.value = magnitudeOf base s ∧ p.overflow = false) ∧
       (limit < magnitudeOf base s → p.value = limit ∧ p.overflow = true)) := by
  obtain ⟨hlow, hhigh⟩ := h.actualBase (strip s)
  have hradix : ¬ (actualBase base (strip s) < 2 ∨ 36 < actualBase base (strip s)) := by omega
  have hdigits : ∀ c ∈ digitsOf base (strip s), (digitValue c).toNat <
      (actualBase base (strip s)).toNat := by
    intro c hc
    have : IsDigit (actualBase base (strip s)) c := by simpa using List.mem_takeWhile_imp hc
    unfold IsDigit at this
    omega
  simp only [parseMagnitude, if_neg hradix, digitLoop_eq]
  refine ⟨?_, ?_, trivial, ?_⟩
  · have hlen := congrArg List.length (text_parsed base s)
    rw [List.length_append] at hlen
    rw [foldl_any, endOf, ← digitsOf]
    by_cases hd : digitsOf base (strip s) = []
    · simp [hd]
    · rw [if_neg hd, if_pos (by simpa using hd)]
      omega
  · rw [decide_eq_true_eq]
    exact signOf_eq_minus.symm
  · simp only [decide_eq_true_eq]
    generalize hlimit : (if deref (s.dropWhile isspace) = '-'.toUInt8 then neg else pos) = limit
    have hlimit : 36 ≤ limit ∧ limit < 2 ^ 64 := by
      rw [← hlimit]
      split
      · exact hneg
      · exact hpos
    have hstart : Acc.Holds limit 0 ⟨0, false, false⟩ :=
      ⟨fun _ => ⟨rfl, rfl⟩, fun h => absurd h (by omega)⟩
    have hholds := hstart.foldl (by omega) (by omega) hlimit.2 hdigits
    exact ⟨hholds.exact_, hholds.saturated⟩

theorem Longest.magnitude (h : Longest base s x) :
    numeral (x.radix base).toNat x.digits = magnitudeOf base s := by
  obtain ⟨hspace, hsign, -⟩ := parts_of_reads h.1
  by_cases hd : digitsOf base (strip s) = []
  · rcases reads_cases h.1 with ⟨-, -, hx⟩ | ⟨-, -, hdigits⟩
    · rw [magnitudeOf, hd, hx]
      show 0 * _ + (digitValue _).toNat = 0
      rw [Nat.zero_mul]
      rfl
    · rw [hd, List.prefix_nil] at hdigits
      exact absurd hdigits h.1.1.nonempty
  · have hlong := h.2 _ (parsed_reads hd)
    simp only [Parts.text, List.length_append, hspace, hsign, parsed] at hlong
    have hpos := List.length_pos_iff.mpr hd
    rcases reads_cases h.1 with ⟨hhex, hpre, hx⟩ | ⟨hpre, hradix, hdigits⟩
    · -- a prefix with a digit behind it is longer than the zero alone
      obtain ⟨-, c, r, -, ht⟩ := hexPrefix_iff.mp hhex
      rw [hpre, hx, if_pos hhex, ht] at hlong
      simp only [List.take_succ_cons, List.length_cons, List.length_nil] at hlong
      omega
    · rw [hpre] at hlong
      rw [magnitudeOf, hradix, hdigits.eq_of_length_le (by simp only [parsed] at hlong; omega)]

theorem ends (h : ValidBase base) (s : List UInt8) :
    (strtol s base).end_ = endOf base s ∧ (strtoul s base).end_ = endOf base s ∧
      (strtoll s base).end_ = endOf base s ∧ (strtoull s base).end_ = endOf base s :=
  ⟨(parseMagnitude_spec h s _ _ (by decide) (by decide)).1,
    (parseMagnitude_spec h s _ _ (by decide) (by decide)).1,
    (parseMagnitude_spec h s _ _ (by decide) (by decide)).1,
    (parseMagnitude_spec h s _ _ (by decide) (by decide)).1⟩

/-- **The four calls end behind the longest subject sequence exactly where no prefix `0x`
    dangles**: the prefix is skipped before a digit is seen and is not given back. -/
theorem ends_iff (base : Int) (h : ValidBase base) (s : List UInt8) :
    (EndOk base s (strtol s base).end_ ∧ EndOk base s (strtoul s base).end_ ∧
      EndOk base s (strtoll s base).end_ ∧ EndOk base s (strtoull s base).end_) ↔
    ¬ (hexPrefix base (strip s) = true ∧ ¬ IsDigit 16 (deref ((strip s).drop 2))) := by
  obtain ⟨h₁, h₂, h₃, h₄⟩ := ends h s
  rw [h₁, h₂, h₃, h₄, and_self, and_self, and_self]
  exact endOk_endOf_iff

theorem ends_iff_hex : EndOk 16 [32, 45, 48, 120, 49, 103] 5 :=
  ((ends_iff 16 (.inr (by decide)) [32, 45, 48, 120, 49, 103]).mpr (by decide)).1

/-- `"0xg"`: the call stores the start, though the `0` is a subject sequence. -/
theorem strtol_dangling : (strtol [48, 120, 103] 0).end_ = 0 ∧
    Reads 0 [48, 120, 103] ⟨[], [], [], [48]⟩ ∧
    ¬ EndOk 0 [48, 120, 103] (strtol [48, 120, 103] 0).end_ := by
  have hdang : Dangling 0 [48, 120, 103] := by
    unfold Dangling
    decide
  refine ⟨by decide, hdang.reads, fun h => ?_⟩
  rw [(ends (.inl rfl) _).1] at h
  exact endOk_endOf_iff.mp h hdang

def SignedOk (w : Nat) (negative : Prop) [Decidable negative] (m : Nat) (o : Out Int) : Prop :=
  let v : Int := if negative then -m else m
  if -2 ^ (w - 1) ≤ v ∧ v ≤ 2 ^ (w - 1) - 1 then o.result = v
  else o.result = (if negative then -2 ^ (w - 1) else 2 ^ (w - 1) - 1) ∧ o.errno = some .ERANGE

def UnsignedOk (w : Nat) (negative : Prop) [Decidable negative] (m : Nat) (o : Out Nat) : Prop :=
  if m < 2 ^ w then (o.result : Int) = (if negative then -(m : Int) else m) % 2 ^ w
  else o.result = 2 ^ w - 1 ∧ o.errno = some .ERANGE

theorem negative_iff (hx : Longest base s x) :
    (parsed base s).sign = ['-'.toUInt8] ↔ x.sign = ['-'.toUInt8] := by
  rw [(parts_of_reads hx.1).2.1]
  rfl

theorem signed_limits {w : Nat} (hw : 7 ≤ w ∧ w ≤ 64) :
    2 ^ 6 ≤ 2 ^ (w - 1) ∧ 2 ^ (w - 1) ≤ 2 ^ 63 ∧ 2 ^ w = 2 * 2 ^ (w - 1) := by
  refine ⟨Nat.pow_le_pow_right (by omega) (by omega), Nat.pow_le_pow_right (by omega) (by omega), ?_⟩
  rw [← Nat.pow_succ', Nat.succ_eq_add_one, Nat.sub_add_cancel (by omega)]

theorem signed_ok (h : ValidBase base) (hx : Longest base s x) {w : Nat} (hw : 7 ≤ w ∧ w ≤ 64) :
    SignedOk w (x.sign = ['-'.toUInt8]) (numeral (x.radix base).toNat x.digits)
      (strtoSigned w s base) := by
  obtain ⟨hlow, hhigh, hdouble⟩ := signed_limits hw
  have hcast : (2 : Int) ^ (w - 1) = ((2 ^ (w - 1) : Nat) : Int) := by norm_cast
  obtain ⟨-, hsign, herrno, hexact, hover⟩ := parseMagnitude_spec h s
    (2 ^ (w - 1) - 1) (2 ^ (w - 1) - 1 + 1) (by omega) (by omega)
  rw [negative_iff hx] at hsign
  simp only [SignedOk, strtoSigned, hx.magnitude, ← hsign, hcast, hdouble]
  clear hdouble hcast hsign
  generalize parseMagnitude s base _ _ = p at *
  generalize magnitudeOf base s = m at *
  generalize 2 ^ (w - 1) = q at *
  have hbmod : m < q → (m : Int).bmod (2 * q) = m := by
    intro hm
    exact Int.bmod_eq_of_le (by omega) (by omega)
  by_cases hneg : p.negative = true
  · simp only [hneg, if_true, true_and] at hexact hover ⊢
    split
    · obtain ⟨hvalue, hov⟩ := hexact (by omega)
      rw [hov, hvalue, if_neg Bool.false_ne_true]
      split
      · omega
      · rw [hbmod (by omega)]
    · obtain ⟨-, hov⟩ := hover (by omega)
      rw [herrno, hov]
      exact ⟨rfl, rfl⟩
  · simp only [hneg, if_false, Bool.false_eq_true, false_and] at hexact hover ⊢
    split
    · obtain ⟨hvalue, hov⟩ := hexact (by omega)
      rw [hov, hvalue, if_neg Bool.false_ne_true, hbmod (by omega)]
    · obtain ⟨-, hov⟩ := hover (by omega)
      rw [herrno, hov, if_pos rfl, if_pos rfl]
      exact ⟨by omega, rfl⟩

theorem unsigned_ok_iff (h : ValidBase base) (hx : Longest base s x) {w : Nat}
    (hw : 6 ≤ w ∧ w ≤ 64) :
    UnsignedOk w (x.sign = ['-'.toUInt8]) (numeral (x.radix base).toNat x.digits)
      (strtoUnsigned w s base) ↔
    ¬ (x.sign = ['-'.toUInt8] ∧ 2 ^ w ≤ numeral (x.radix base).toNat x.digits) := by
  have hlow : 2 ^ 6 ≤ 2 ^ w := Nat.pow_le_pow_right (by omega) (by omega)
  have hhigh : 2 ^ w ≤ 2 ^ 64 := Nat.pow_le_pow_right (by omega) (by omega)
  have hcast : (2 : Int) ^ w = ((2 ^ w : Nat) : Int) := by norm_cast
  obtain ⟨-, hsign, herrno, hexact, hover⟩ := parseMagnitude_spec h s
    (2 ^ w - 1) (2 ^ w - 1) (by omega) (by omega)
  rw [negative_iff hx] at hsign
  simp only [UnsignedOk, strtoUnsigned, hx.magnitude, ← hsign, hcast, ite_self] at hexact hover ⊢
  clear hcast hsign
  generalize parseMagnitude s base _ _ = p at *
  generalize magnitudeOf base s = m at *
  generalize 2 ^ w = q at *
  split
  · rename_i hm
    obtain ⟨hvalue, -⟩ := hexact (by omega)
    refine iff_of_true ?_ (by omega)
    rw [hvalue, Nat.mod_eq_of_lt hm]
    split
    · rw [Int.natCast_mod, Nat.cast_sub hm.le, sub_eq_neg_add, Int.add_emod_right]
    · rw [Int.emod_eq_of_lt (by omega) (by omega)]
  · rename_i hm
    obtain ⟨hvalue, hov⟩ := hover (by omega)
    have hmod : (q - 1) % q = q - 1 := Nat.mod_eq_of_lt (by omega)
    rw [hvalue, herrno, hov, hmod, if_pos rfl]
    split
    · rename_i hneg
      rw [show q - (q - 1) = 1 by omega, Nat.mod_eq_of_lt (by omega)]
      exact iff_of_false (fun h => absurd h.1 (by omega)) (not_not.mpr ⟨hneg, by omega⟩)
    · rename_i hneg
      exact iff_of_true ⟨rfl, rfl⟩ fun h => hneg h.1

/-- **The four calls return the number or the limit of their type exactly where no negative
    number is too large for `strtoul`**: the unsigned calls saturate and then negate the
    limit, so that they return 1. -/
theorem values_iff (base : Int) (h : ValidBase base) (s : List UInt8) (x : Parts)
    (hx : Longest base s x) :
    let negative := x.sign = ['-'.toUInt8]
    let m := numeral (x.radix base).toNat x.digits
    (SignedOk 32 negative m (strtol s base) ∧ SignedOk 64 negative m (strtoll s base) ∧
      UnsignedOk 32 negative m (strtoul s base) ∧ UnsignedOk 64 negative m (strtoull s base)) ↔
    ¬ (negative ∧ 2 ^ 32 ≤ m) := by
  intro negative m
  have hul := unsigned_ok_iff h hx (w := 32) (by decide)
  have hull := unsigned_ok_iff h hx (w := 64) (by decide)
  constructor
  · rintro ⟨-, -, hok, -⟩
    exact hul.mp hok
  · intro hm
    refine ⟨signed_ok h hx (by decide), signed_ok h hx (by decide), hul.mpr hm, hull.mpr ?_⟩
    rintro ⟨hneg, hlarge⟩
    exact hm ⟨hneg, le_trans (by decide) hlarge⟩

theorem values_iff_minus : (strtol [45, 50, 53] 10).result = -25 ∧
    ((strtoul [45, 50, 53] 10).result : Int) = -25 % 2 ^ 32 := by
  have hd : digitsOf 10 (strip [45, 50, 53]) ≠ [] := by decide
  obtain ⟨hs, -, hu, -⟩ := (values_iff 10 (.inr (by decide)) [45, 50, 53] _
    (parsed_longest hd)).mpr (by decide)
  exact ⟨hs, hu⟩

/-- `"-4294967296"`: the magnitude does not fit, and `strtoul` returns 1. -/
theorem strtoul_minus_overflow :
    Longest 10 [45, 52, 50, 57, 52, 57, 54, 55, 50, 57, 54]
      ⟨[], [45], [], [52, 50, 57, 52, 57, 54, 55, 50, 57, 54]⟩ ∧
    numeral 10 [52, 50, 57, 52, 57, 54, 55, 50, 57, 54] = 2 ^ 32 ∧
    (strtoul [45, 52, 50, 57, 52, 57, 54, 55, 50, 57, 54] 10).result = 1 := by
  refine ⟨?_, by decide, by decide⟩
  exact parsed_longest (s := [45, 52, 50, 57, 52, 57, 54, 55, 50, 57, 54]) (by decide)

end

end GovinDos.Strtol
