/-
  **The archive reader (`packages/gdoslib-dev/cpio.c`).**

  `cpio_find` walks a newc archive entry by entry.  The loop test keeps the header fields
  inside the archive; the name of a member is compared with `strcmp`, which looks at neither
  `name_size` nor the end of the archive.  A read past the end is `none` here.  Offsets are
  numbers: an archive is an object in memory, so no sum of an offset and two 32-bit sizes
  wraps.
-/
import Mathlib

namespace GovinDos.Cpio

abbrev Bytes := List UInt8

abbrev CString := { s : Bytes // 0 ∉ s }

/-! ## 1. The reader -/

def CPIO_HDR_SIZE : Nat := 110
def CPIO_FILESIZE_OFF : Nat := 6 + 6 * 8
def CPIO_NAMESIZE_OFF : Nat := 6 + 11 * 8

def align4 (v : Nat) : Nat := (v + 3) / 4 * 4

def hexDigit (c : UInt8) : Option Nat :=
  if 48 ≤ c.toNat ∧ c.toNat ≤ 57 then some (c.toNat - 48)
  else if 97 ≤ c.toNat ∧ c.toNat ≤ 102 then some (c.toNat - 97 + 10)
  else if 65 ≤ c.toNat ∧ c.toNat ≤ 70 then some (c.toNat - 65 + 10)
  else none

/-- The loop of `hex8`: `n` digits to go, `v` read so far.  `some none` is `-1`. -/
def hex : Nat → Nat → Bytes → Option (Option Nat)
  | 0, v, _ => some (some v)
  | _ + 1, _, [] => none
  | n + 1, v, c :: p => match hexDigit c with
    | none => some none
    | some d => hex n (16 * v + d) p

def hex8 (p : Bytes) : Option (Option Nat) := hex 8 0 p

def begins : Bytes → Bytes → Option Bool
  | _, [] => some true
  | [], _ :: _ => none
  | x :: p, c :: s => if x = c then begins p s else some false

/-- `strcmp(p, s) == 0`: the terminator is compared like the characters before it. -/
def strcmp (p : Bytes) (s : CString) : Option Bool := begins p (s.1 ++ [0])

def magic (h : Bytes) : Option Bool :=
  match begins h [48, 55, 48, 55, 48], h[5]? with
  | some true, some c => some (c = 49 ∨ c = 50)
  | some true, none => none
  | r, _ => r

def TRAILER : CString := ⟨[84, 82, 65, 73, 76, 69, 82, 33, 33, 33], by decide⟩

inductive Visit where
  | done (r : Option (Nat × Nat))
  | next (name_size file_size : Nat)
deriving DecidableEq

def member (archive : Bytes) (off : Nat) : Bytes := (archive.drop off).drop CPIO_HDR_SIZE

/-- The end of the loop's body, with both sizes read.  `done none` is `-1`, `done (some
    (data, size))` is `0`. -/
def compare (archive : Bytes) (name : CString) (off name_size file_size : Nat) : Option Visit :=
  let data := off + align4 (CPIO_HDR_SIZE + name_size)
  match strcmp (member archive off) TRAILER with
  | none => none
  | some true => some (.done none)
  | some false =>
    if data + file_size > archive.length then some (.done none)
    else
      match strcmp (member archive off) name with
      | none => none
      | some true => some (.done (some (data, file_size)))
      | some false => some (.next name_size file_size)

def entry (archive : Bytes) (name : CString) (off : Nat) : Option Visit :=
  let h := archive.drop off
  if off + CPIO_HDR_SIZE > archive.length then some (.done none)
  else
    match magic h, hex8 (h.drop CPIO_FILESIZE_OFF), hex8 (h.drop CPIO_NAMESIZE_OFF) with
    | some true, some (some file_size), some (some name_size) =>
      if off + CPIO_HDR_SIZE + name_size > archive.length then some (.done none)
      else compare archive name off name_size file_size
    | some _, some _, some _ => some (.done none)
    | _, _, _ => none

theorem le_align4 (v : Nat) : v ≤ align4 v := by
  unfold align4
  omega

def behind (off name_size file_size : Nat) : Nat :=
  off + align4 (align4 (CPIO_HDR_SIZE + name_size) + file_size)

theorem lt_behind (off name_size file_size : Nat) : off < behind off name_size file_size := by
  have h := le_align4 (CPIO_HDR_SIZE + name_size)
  have h' := le_align4 (align4 (CPIO_HDR_SIZE + name_size) + file_size)
  simp only [behind, CPIO_HDR_SIZE] at *
  omega

theorem entry_next_fits {archive : Bytes} {name : CString} {off name_size file_size : Nat}
    (h : entry archive name off = some (.next name_size file_size)) :
    off + CPIO_HDR_SIZE ≤ archive.length := by
  by_contra hnot
  simp [entry, Nat.lt_of_not_le hnot] at h

def scan (archive : Bytes) (name : CString) (off : Nat) : Option (Option (Nat × Nat)) :=
  match _hturn : entry archive name off with
  | none => none
  | some (.done r) => some r
  | some (.next name_size file_size) => scan archive name (behind off name_size file_size)
termination_by archive.length - off
decreasing_by
  have h := lt_behind off name_size file_size
  have hfits := entry_next_fits _hturn
  simp only [CPIO_HDR_SIZE] at hfits
  omega

def cpioFind (archive : Bytes) (name : CString) : Option (Option (Nat × Nat)) :=
  scan archive name 0

/-! ## 2. Where it reads -/

theorem begins_eq (p s : Bytes) :
    begins p s = if s <+: p then some true else if p <+: s then none else some false := by
  induction s generalizing p with
  | nil => simp [begins]
  | cons c s ih =>
    cases p with
    | nil => simp [begins]
    | cons x p =>
      rw [begins, ih]
      by_cases hx : x = c
      · simp [hx]
      · simp [hx, Ne.symm hx]

theorem strcmp_eq_none_iff (p : Bytes) (s : CString) : strcmp p s = none ↔ p <+: s.1 := by
  rw [strcmp, begins_eq]
  constructor
  · intro h
    split at h
    · cases h
    rename_i hnot
    split at h
    · rename_i hp
      rcases List.prefix_concat_iff.mp hp with rfl | hs
      · exact absurd (List.prefix_rfl) hnot
      · exact hs
    · cases h
  · intro hp
    have hlen := hp.length_le
    rw [if_neg, if_pos (hp.trans (List.prefix_append _ _))]
    intro hs
    have hlen' := hs.length_le
    simp only [List.length_append, List.length_singleton] at hlen'
    omega

theorem strcmp_eq_true_iff (p : Bytes) (s : CString) : strcmp p s = some true ↔ s.1 ++ [0] <+: p := by
  rw [strcmp, begins_eq]
  split
  · simp_all
  · split <;> simp_all

theorem hex_ne_none {n : Nat} {p : Bytes} (h : n ≤ p.length) (v : Nat) : hex n v p ≠ none := by
  induction n generalizing v p with
  | zero => simp [hex]
  | succ n ih =>
    cases p with
    | nil => simp at h
    | cons c p =>
      rw [hex]
      cases hexDigit c with
      | none => simp
      | some d => exact ih (by simpa using h) _

theorem magic_ne_none {h : Bytes} (hlen : 6 ≤ h.length) : magic h ≠ none := by
  unfold magic
  have hmatch : begins h [48, 55, 48, 55, 48] ≠ none := by
    rw [begins_eq]
    split
    · simp
    split
    · rename_i hp
      have hle := hp.length_le
      simp at hle
      omega
    · simp
  have hget : h[5]? ≠ none := by
    simp
    omega
  cases hm : begins h [48, 55, 48, 55, 48] with
  | none => exact absurd hm hmatch
  | some b =>
    cases b with
    | false => simp
    | true =>
      cases hc : h[5]? with
      | none => exact absurd hc hget
      | some c => simp

structure Header (archive : Bytes) (off name_size file_size : Nat) : Prop where
  fits : off + CPIO_HDR_SIZE ≤ archive.length
  magic : magic (archive.drop off) = some true
  file : hex8 ((archive.drop off).drop CPIO_FILESIZE_OFF) = some (some file_size)
  name : hex8 ((archive.drop off).drop CPIO_NAMESIZE_OFF) = some (some name_size)
  named : off + CPIO_HDR_SIZE + name_size ≤ archive.length

inductive Visited (archive : Bytes) (name : CString) : Nat → Nat → Prop
  | here (off : Nat) : Visited archive name off off
  | next {off off' name_size file_size : Nat}
      (hnext : entry archive name off = some (.next name_size file_size))
      (hrest : Visited archive name (behind off name_size file_size) off') :
      Visited archive name off off'

/-- Neither comparison of an accepted entry at `off` reaches the end of the archive. -/
def NameEnds (archive : Bytes) (name : CString) (off : Nat) : Prop :=
  ∀ name_size file_size, Header archive off name_size file_size →
    ¬ member archive off <+: TRAILER.1 ∧
    (off + align4 (CPIO_HDR_SIZE + name_size) + file_size ≤ archive.length →
      ¬ member archive off <+: name.1)

section

variable {archive : Bytes} {name : CString} {off name_size file_size data size : Nat}

theorem Header.entry (h : Header archive off name_size file_size) (name : CString) :
    entry archive name off = compare archive name off name_size file_size := by
  unfold Cpio.entry
  simp only [h.magic, h.file, h.name]
  rw [if_neg (Nat.not_lt.mpr h.fits), if_neg (Nat.not_lt.mpr h.named)]

theorem entry_cases (archive : Bytes) (name : CString) (off : Nat) :
    (∃ name_size file_size, Header archive off name_size file_size) ∨
      entry archive name off = some (.done none) ∧ NameEnds archive name off := by
  by_cases hsome : ∃ name_size file_size, Header archive off name_size file_size
  · exact .inl hsome
  refine .inr ⟨?_, fun n f h => absurd ⟨n, f, h⟩ hsome⟩
  unfold entry
  split
  · rfl
  rename_i hfits
  have hfits := Nat.le_of_not_lt hfits
  have hlen : CPIO_HDR_SIZE ≤ (archive.drop off).length := by
    rw [List.length_drop]
    omega
  have hfield : ∀ k, k + 8 ≤ CPIO_HDR_SIZE → ∃ r, hex8 ((archive.drop off).drop k) = some r := by
    intro k hk
    apply Option.ne_none_iff_exists'.mp
    apply hex_ne_none
    rw [List.length_drop]
    omega
  obtain ⟨good, hm⟩ := Option.ne_none_iff_exists'.mp
    (magic_ne_none (h := archive.drop off) (Nat.le_trans (by decide) hlen))
  obtain ⟨file, hf⟩ := hfield CPIO_FILESIZE_OFF (by decide)
  obtain ⟨named, hn⟩ := hfield CPIO_NAMESIZE_OFF (by decide)
  simp only [hm, hf, hn]
  rcases good with _ | _
  · rfl
  rcases file with _ | file_size
  · rfl
  rcases named with _ | name_size
  · rfl
  apply if_pos
  apply Nat.lt_of_not_le
  intro hnamed
  exact hsome ⟨name_size, file_size, hfits, hm, hf, hn, hnamed⟩

theorem compare_ne_none_iff (archive : Bytes) (name : CString) (off name_size file_size : Nat) :
    compare archive name off name_size file_size ≠ none ↔
      ¬ member archive off <+: TRAILER.1 ∧
      (off + align4 (CPIO_HDR_SIZE + name_size) + file_size ≤ archive.length →
        ¬ member archive off <+: name.1) := by
  rw [← strcmp_eq_none_iff, ← strcmp_eq_none_iff, compare]
  cases ht : strcmp (member archive off) TRAILER with
  | none => simp
  | some found =>
    cases found with
    | true =>
      -- a name has no zero byte, so what begins with the trailer is not part of it
      have hzero : strcmp (member archive off) name ≠ none := by
        rw [ne_eq, strcmp_eq_none_iff]
        intro hp
        exact name.2 ((((strcmp_eq_true_iff _ _).mp ht).trans hp).subset (by simp))
      simp [hzero]
    | false =>
      by_cases hle : off + align4 (CPIO_HDR_SIZE + name_size) + file_size ≤ archive.length
      · simp only [Nat.not_lt.mpr hle, hle, if_false]
        cases strcmp (member archive off) name with
        | none => simp
        | some found => cases found <;> simp
      · simp [Nat.lt_of_not_le hle, hle]

theorem entry_ne_none_iff (archive : Bytes) (name : CString) (off : Nat) :
    entry archive name off ≠ none ↔ NameEnds archive name off := by
  rcases entry_cases archive name off with ⟨name_size, file_size, hh⟩ | ⟨hdone, hends⟩
  · rw [hh.entry, compare_ne_none_iff]
    constructor
    · intro hends n f h
      have hn := hh.name.symm.trans h.name
      have hf := hh.file.symm.trans h.file
      simp only [Option.some.injEq] at hn hf
      rwa [← hn, ← hf]
    · intro hends
      exact hends name_size file_size hh
  · simp [hdone, hends]

theorem entry_inside (h : entry archive name off = some (.done (some (data, size)))) :
    data + size ≤ archive.length := by
  rcases entry_cases archive name off with ⟨name_size, file_size, hh⟩ | ⟨hdone, -⟩
  · rw [hh.entry, compare] at h
    split at h
    · cases h
    · cases h
    split at h
    · cases h
    rename_i hle
    split at h
    · cases h
    · simp only [Option.some.injEq, Visit.done.injEq, Prod.mk.injEq] at h
      omega
    · cases h
  · rw [hdone] at h
    cases h

theorem scan_of_done {r : Option (Nat × Nat)} (h : entry archive name off = some (.done r)) :
    scan archive name off = some r := by
  rw [scan]
  split <;> simp_all

theorem scan_of_next (h : entry archive name off = some (.next name_size file_size)) :
    scan archive name off = scan archive name (behind off name_size file_size) := by
  rw [scan]
  split <;> simp_all

theorem scan_of_none (h : entry archive name off = none) : scan archive name off = none := by
  rw [scan]
  split <;> simp_all

theorem scan_inside (h : scan archive name off = some (some (data, size))) :
    data + size ≤ archive.length := by
  induction off using scan.induct archive name with
  | case1 off hturn =>
    rw [scan_of_none hturn] at h
    cases h
  | case2 off r hturn =>
    rw [scan_of_done hturn] at h
    exact entry_inside (Option.some.inj h ▸ hturn)
  | case3 off name_size file_size hturn ih =>
    rw [scan_of_next hturn] at h
    exact ih h

end

theorem scan_ne_none_iff (archive : Bytes) (name : CString) (off : Nat) :
    scan archive name off ≠ none ↔
      ∀ off', Visited archive name off off' → NameEnds archive name off' := by
  have hiff := fun off => entry_ne_none_iff archive name off
  induction off using scan.induct archive name with
  | case1 off hturn =>
    have hnot : ¬ NameEnds archive name off := by simp [← hiff, hturn]
    constructor
    · intro h
      exact absurd (scan_of_none hturn) h
    · intro h
      exact absurd (h off (.here off)) hnot
  | case2 off r hturn =>
    have hends : NameEnds archive name off := by simp [← hiff, hturn]
    constructor
    · intro _ off' hoff'
      cases hoff' with
      | here => exact hends
      | next hnext _ => simp [hturn] at hnext
    · intro _
      simp [scan_of_done hturn]
  | case3 off name_size file_size hturn ih =>
    have hends : NameEnds archive name off := by simp [← hiff, hturn]
    rw [scan_of_next hturn]
    apply ih.trans
    constructor
    · intro h off' hoff'
      cases hoff' with
      | here => exact hends
      | next hnext hrest =>
        rw [hturn] at hnext
        cases hnext
        exact h off' hrest
    · intro h off' hoff'
      exact h off' (.next hturn hoff')

/-- The call reads only inside the archive and the name exactly where every name it
    comes to ends, and what it reports lies inside the archive. -/
theorem cpioFind_in_bounds (archive : Bytes) (name : CString) :
    (cpioFind archive name ≠ none ↔
      ∀ off, Visited archive name 0 off → NameEnds archive name off) ∧
    ∀ data size, cpioFind archive name = some (some (data, size)) →
      data + size ≤ archive.length := by
  constructor
  · exact scan_ne_none_iff archive name 0
  · intro data size h
    exact scan_inside h

/-- A header of zeros: an empty name at the very end of the archive, where `strcmp`
    reads the byte behind it. -/
theorem cpioFind_reads_past_end :
    cpioFind ([48, 55, 48, 55, 48, 49] ++ List.replicate 104 48) ⟨[97], by decide⟩ = none := by
  rw [cpioFind, scan]
  decide

/-! ## 3. Archives that were written by the rules -/

structure Member where
  name : CString
  data : Bytes
  crc : Bool
  upper : Bool
  front : Bytes
  middle : Bytes
  check : Bytes
  hname : name.1.length + 1 < 2 ^ 32
  hdata : data.length < 2 ^ 32
  hfront : front.length = 48
  hmiddle : middle.length = 32
  hcheck : check.length = 8

def digit (upper : Bool) (d : Nat) : UInt8 :=
  .ofNat (if d < 10 then 48 + d else if upper then 55 + d else 87 + d)

def encodeHex (upper : Bool) : Nat → Nat → Bytes
  | 0, _ => []
  | n + 1, v => encodeHex upper n (v / 16) ++ [digit upper (v % 16)]

def pad (n : Nat) : Bytes := List.replicate (align4 n - n) 0

def header (m : Member) : Bytes :=
  [48, 55, 48, 55, 48, if m.crc then 50 else 49] ++ m.front ++ encodeHex m.upper 8 m.data.length ++
    m.middle ++ encodeHex m.upper 8 (m.name.1.length + 1) ++ m.check

def encodeMember (m : Member) : Bytes :=
  header m ++ (m.name.1 ++ [0]) ++ pad (CPIO_HDR_SIZE + (m.name.1.length + 1)) ++ m.data ++
    pad m.data.length

theorem hexDigit_digit (upper : Bool) : ∀ d < 16, hexDigit (digit upper d) = some d := by
  cases upper <;> decide

theorem hex_append (upper : Bool) (n k v w : Nat) (p : Bytes) :
    hex (n + k) w (encodeHex upper n v ++ p) = hex k (16 ^ n * w + v % 16 ^ n) p := by
  induction n generalizing k v p with
  | zero => simp [encodeHex, Nat.mod_one]
  | succ n ih =>
    rw [encodeHex, List.append_assoc, Nat.add_right_comm, Nat.add_assoc, ih, List.singleton_append,
      hex, hexDigit_digit upper _ (Nat.mod_lt _ (by decide))]
    simp only
    congr 1
    rw [Nat.pow_succ, Nat.mul_comm (16 ^ n) 16, Nat.mod_mul, Nat.mul_assoc, Nat.mul_add]
    omega

theorem hex8_encodeHex (upper : Bool) {v : Nat} (hv : v < 2 ^ 32) (p : Bytes) :
    hex8 (encodeHex upper 8 v ++ p) = some (some v) := by
  have h := hex_append upper 8 0 v 0 p
  rw [Nat.mul_zero, Nat.zero_add, Nat.mod_eq_of_lt (show v < 16 ^ 8 from hv)] at h
  exact h

theorem length_encodeHex (upper : Bool) (n v : Nat) : (encodeHex upper n v).length = n := by
  induction n generalizing v with
  | zero => rfl
  | succ n ih => simp [encodeHex, ih]

theorem strcmp_append (s s' : CString) (p : Bytes) :
    strcmp (s.1 ++ [0] ++ p) s' = some (decide (s = s')) := by
  obtain ⟨s, hs⟩ := s
  obtain ⟨s', hs'⟩ := s'
  simp only [strcmp, Subtype.mk.injEq]
  induction s generalizing s' with
  | nil =>
    cases s' with
    | nil => simp [begins]
    | cons c s' =>
      have hc : (0 : UInt8) ≠ c := by
        rintro rfl
        exact hs' List.mem_cons_self
      simp [begins, hc]
  | cons c s ih =>
    have hc : c ≠ 0 := by
      rintro rfl
      exact hs List.mem_cons_self
    cases s' with
    | nil => simp [begins, hc]
    | cons c' s' =>
      have hrest := ih (fun h => hs (List.mem_cons_of_mem c h)) s'
        fun h => hs' (List.mem_cons_of_mem c' h)
      by_cases hcc : c = c'
      · simpa [begins, hcc] using hrest
      · simp [begins, hcc]

theorem length_header (m : Member) : (header m).length = CPIO_HDR_SIZE := by
  simp [header, length_encodeHex, m.hfront, m.hmiddle, m.hcheck, CPIO_HDR_SIZE]

section

variable {archive tail : Bytes} {off : Nat} {m : Member}

theorem length_encodeMember (m : Member) : (encodeMember m).length =
    align4 (align4 (CPIO_HDR_SIZE + (m.name.1.length + 1)) + m.data.length) := by
  simp only [encodeMember, List.length_append, length_header, pad, List.length_replicate,
    List.length_singleton, align4]
  omega

theorem header_encodeMember (hdrop : archive.drop off = encodeMember m ++ tail) :
    Header archive off (m.name.1.length + 1) m.data.length := by
  have hlen := congrArg List.length hdrop
  rw [List.length_drop, List.length_append, length_encodeMember] at hlen
  have hname := le_align4 (CPIO_HDR_SIZE + (m.name.1.length + 1))
  have hall := le_align4 (align4 (CPIO_HDR_SIZE + (m.name.1.length + 1)) + m.data.length)
  constructor
  · simp only [CPIO_HDR_SIZE] at *
    omega
  · rw [hdrop]
    cases hcrc : m.crc <;> simp [encodeMember, header, magic, begins, hcrc]
  · rw [hdrop, encodeMember, header]
    simp only [List.append_assoc]
    rw [← List.append_assoc, List.drop_left' (by simp [m.hfront, CPIO_FILESIZE_OFF])]
    exact hex8_encodeHex m.upper m.hdata _
  · rw [hdrop, encodeMember, header]
    simp only [List.append_assoc]
    rw [← List.append_assoc, ← List.append_assoc, ← List.append_assoc, List.drop_left'
      (by simp [m.hfront, m.hmiddle, length_encodeHex, CPIO_NAMESIZE_OFF])]
    exact hex8_encodeHex m.upper m.hname _
  · simp only [CPIO_HDR_SIZE] at *
    omega

theorem entry_encodeMember (hdrop : archive.drop off = encodeMember m ++ tail) (name : CString) :
    entry archive name off =
      if m.name = TRAILER then some (.done none)
      else if m.name = name then
        some (.done (some (off + align4 (CPIO_HDR_SIZE + (m.name.1.length + 1)), m.data.length)))
      else some (.next (m.name.1.length + 1) m.data.length) := by
  have hh := header_encodeMember hdrop
  have hmember : ∃ p, member archive off = m.name.1 ++ [0] ++ p := by
    refine ⟨pad (CPIO_HDR_SIZE + (m.name.1.length + 1)) ++ m.data ++ pad m.data.length ++ tail, ?_⟩
    rw [member, hdrop, encodeMember]
    simp only [List.append_assoc]
    rw [List.drop_left' (length_header m)]
  obtain ⟨p, hp⟩ := hmember
  have hlen := congrArg List.length hdrop
  rw [List.length_drop, List.length_append, length_encodeMember] at hlen
  have hall := le_align4 (align4 (CPIO_HDR_SIZE + (m.name.1.length + 1)) + m.data.length)
  have hin : off + align4 (CPIO_HDR_SIZE + (m.name.1.length + 1)) + m.data.length ≤
      archive.length := by
    have hfits := hh.fits
    omega
  rw [hh.entry, compare, hp, strcmp_append, strcmp_append]
  simp only [Nat.not_lt.mpr hin, if_false]
  by_cases ht : m.name = TRAILER
  · simp [ht]
  · by_cases hn : m.name = name
    · subst hn
      simp [ht]
    · simp [ht, hn]

theorem data_encodeMember (hdrop : archive.drop off = encodeMember m ++ tail) :
    (archive.drop (off + align4 (CPIO_HDR_SIZE + (m.name.1.length + 1)))).take m.data.length =
      m.data := by
  have hname := le_align4 (CPIO_HDR_SIZE + (m.name.1.length + 1))
  rw [← List.drop_drop, hdrop, encodeMember]
  simp only [List.append_assoc]
  rw [← List.append_assoc, ← List.append_assoc, ← List.append_assoc, List.drop_left',
    List.take_left]
  simp only [List.length_append, length_header, pad, List.length_replicate, List.length_singleton]
  omega

end

abbrev File := { m : Member // m.name ≠ TRAILER }

def encode (ms : List File) (trailer : Member) (rest : Bytes) : Bytes :=
  (ms.map (encodeMember ·.1)).flatten ++
    (encodeMember { trailer with name := TRAILER, hname := by decide } ++ rest)

theorem scan_encode (ms : List File) (trailer : Member) (rest : Bytes) (name : CString)
    {archive : Bytes} {off : Nat} (hdrop : archive.drop off = encode ms trailer rest) :
    match ms.find? (·.1.name = name) with
    | none => scan archive name off = some none
    | some m => ∃ data size, scan archive name off = some (some (data, size)) ∧
        (archive.drop data).take size = m.1.data := by
  induction ms generalizing off with
  | nil =>
    apply scan_of_done
    rw [entry_encodeMember hdrop, if_pos rfl]
  | cons m ms ih =>
    have hm : archive.drop off = encodeMember m.1 ++ encode ms trailer rest := by
      rw [hdrop]
      simp [encode]
    have hentry := entry_encodeMember hm name
    rw [if_neg m.2] at hentry
    by_cases hn : m.1.name = name
    · rw [if_pos hn] at hentry
      rw [List.find?_cons_of_pos (by simpa using hn)]
      exact ⟨_, _, scan_of_done hentry, data_encodeMember hm⟩
    · rw [if_neg hn] at hentry
      rw [List.find?_cons_of_neg (by simpa using hn), scan_of_next hentry]
      apply ih
      rw [behind, ← length_encodeMember, ← List.drop_drop, hm, List.drop_left]

/-- On every archive that was written by the rules, `cpio_find` returns the contents of
    the first file of that name, and reports absence where there is none. -/
theorem cpioFind_encode (ms : List File) (trailer : Member) (rest : Bytes) (name : CString) :
    match ms.find? (·.1.name = name) with
    | none => cpioFind (encode ms trailer rest) name = some none
    | some m => ∃ data size, cpioFind (encode ms trailer rest) name = some (some (data, size)) ∧
        ((encode ms trailer rest).drop data).take size = m.1.data :=
  scan_encode ms trailer rest name rfl

end GovinDos.Cpio
