/-
  **A ring is two queues.**

  A queue of submissions and one of completions, which keeps an entry's slot until the client
  acknowledges it.  `Rep` relates the block, the kernel's indices and the client's shadows to
  the queues, half by half, and every step of either side is a move of the queues or leaves
  them alone.
-/
import GovinDos.Lib.RingBuffer
import GovinDos.Lib.Run
import GovinDos.Ring

namespace GovinDos.Channel

open RingBuffer Function

/-! ## 1. The queues -/

/-- `sq` is submitted and not executed, `cq` is posted and not read, `held` is read
    and not acknowledged. -/
structure Queues where
  sq : List Ksqe
  cq : List Kcqe
  held : List Kcqe

def Queues.step (n : Nat) (q : Queues) : Event → Option Queues
  | .submit sqes => some { q with sq := q.sq ++ sqes }
  | .execute sqe _ =>
    match q.sq with
    | [] => none
    | x :: rest => if x = sqe then some { q with sq := rest } else none
  | .post _ cqe =>
    if q.held.length + q.cq.length < n then some { q with cq := q.cq ++ [cqe] } else none
  | .read cqe =>
    match q.cq with
    | [] => none
    | x :: rest => if x = cqe then some { q with cq := rest, held := q.held ++ [x] } else none
  | .ack => some { q with held := [] }

def Queues.run (n : Nat) (log : List Event) : Option Queues :=
  log.foldlM (Queues.step n) ⟨[], [], []⟩

structure Queues.Sound (n : Nat) (log : List Event) (q : Queues) : Prop where
  sq : submitted log = executed log ++ q.sq
  cq : posted log = read log ++ q.cq
  held : q.held <:+ read log
  room : q.held.length + q.cq.length ≤ n

theorem Queues.Sound.step {n : Nat} {log : List Event} {q q' : Queues} {e : Event}
    (hq : q.Sound n log) (h : q.step n e = some q') : q'.Sound n (log ++ [e]) := by
  obtain ⟨sq, cq, held⟩ := q
  obtain ⟨hsq, hcq, hheld, hroom⟩ := hq
  simp only [submitted, executed, posted, read] at hsq hcq hheld
  cases e with
  | submit sqes =>
    cases h
    exact ⟨by simp [submitted, executed, hsq], by simp [posted, read, hcq],
      by simpa [read] using hheld, hroom⟩
  | execute sqe cqe =>
    cases sq with
    | nil => cases h
    | cons x rest =>
      simp only [Queues.step] at h
      split at h <;> cases h
      subst x
      exact ⟨by simp [submitted, executed, hsq], by simp [posted, read, hcq],
        by simpa [read] using hheld, hroom⟩
  | post poster cqe =>
    simp only [Queues.step] at h
    split at h <;> cases h
    exact ⟨by simp [submitted, executed, hsq], by simp [posted, read, hcq],
      by simpa [read] using hheld, by simp; omega⟩
  | read cqe =>
    cases cq with
    | nil => cases h
    | cons x rest =>
      simp only [Queues.step] at h
      split at h <;> cases h
      subst x
      refine ⟨by simp [submitted, executed, hsq], by simp [posted, read, hcq], ?_, ?_⟩
      · simp only [read, List.flatMap_append, List.flatMap_singleton]
        obtain ⟨gone, hgone⟩ := hheld
        exact ⟨gone, by rw [← hgone, List.append_assoc]⟩
      · simp only [List.length_append, List.length_cons, List.length_nil] at hroom ⊢
        omega
  | ack =>
    cases h
    exact ⟨by simp [submitted, executed, hsq], by simp [posted, read, hcq],
      List.nil_suffix, by simp at hroom ⊢; omega⟩

theorem Queues.Sound.steps {n : Nat} {log es : List Event} {q q' : Queues} (hq : q.Sound n log)
    (h : es.foldlM (Queues.step n) q = some q') : q'.Sound n (log ++ es) := by
  induction es generalizing q log with
  | nil =>
    cases h
    simpa using hq
  | cons e es ih =>
    rw [List.foldlM_cons] at h
    obtain ⟨q₁, hq₁, hrest⟩ := Option.bind_eq_some_iff.mp h
    rw [List.append_cons]
    exact ih (hq.step hq₁) hrest

theorem Queues.sound_run {n : Nat} {log : List Event} {q : Queues} (h : Queues.run n log = some q) :
    q.Sound n log := by
  have hnil : Queues.Sound n [] ⟨[], [], []⟩ := ⟨rfl, rfl, List.nil_suffix, Nat.zero_le n⟩
  exact hnil.steps h

/-! ## 2. The submission half -/

def Chunk.inFlight : Chunk → List Ksqe
  | .fetched _ _ _ sqe => [sqe]
  | _ => []

def Chunk.tail : Chunk → Option UInt32
  | .idle => none
  | .loop tail _ _ => some tail
  | .copied tail _ _ _ => some tail
  | .fetched tail _ _ _ => some tail
  | .executed tail _ _ _ => some tail

/-- `fetched` entries have left the ring, `w` are in it, and behind them those the
    client has taken. -/
structure SqRep (k : Kernel) (b : Block) (r : Kring) (sq : List Ksqe) (fetched : Nat)
    (w : List Ksqe) : Prop where
  nslots : r.nslots = k.ring.nslots
  queue : sq = k.chunk.inFlight ++ w
  sq_head : k.ring.sq_head = UInt32.ofNat fetched
  mirror : b.hdr.sq_head = k.ring.sq_head
  sq_tail : b.hdr.sq_tail = UInt32.ofNat (fetched + w.length)
  shadow : r.sq_tail = UInt32.ofNat (fetched + w.length + r.taken.length)
  room : w.length + r.taken.length ≤ k.ring.nslots.toNat
  holds : Holds b.sq k.ring.nslots.toNat fetched w
  taken : ∀ i (h : i < r.taken.length),
    r.taken[i] = (fetched + w.length + i) % k.ring.nslots.toNat
  tail : ∀ tail, k.chunk.tail = some tail → ∃ m ≤ w.length, tail = UInt32.ofNat (fetched + m)
  copied : ∀ tail done budget sqe, k.chunk = .copied tail done budget sqe →
    k.ring.sq_head ≠ tail ∧ w.head? = some sqe

/-! ## 3. The completion half -/

/-- `acked` entries are acknowledged; behind them stand those the client has read and
    those it has not. -/
structure CqRep (k : Kernel) (b : Block) (r : Kring) (cq held : List Kcqe) (acked : Nat) :
    Prop where
  nslots : r.nslots = k.ring.nslots
  cq_count : k.ring.cq_count = UInt32.ofNat (acked + (held ++ cq).length)
  mirror : b.hdr.cq_count = k.ring.cq_count
  cq_head : b.hdr.cq_head = UInt32.ofNat acked
  shadow : r.cq_head = UInt32.ofNat (acked + held.length)
  room : (held ++ cq).length ≤ k.ring.nslots.toNat
  holds : Holds b.cq k.ring.nslots.toNat acked (held ++ cq)
  peeked : r.peeked = true → cq ≠ []
  copy : r.call = .copy → cq ≠ []
  free : ∀ p, k.post = some p → p.stage = .room ∨ p.stage = .written →
    (held ++ cq).length < k.ring.nslots.toNat
  written : ∀ p, k.post = some p → p.stage = .written →
    b.cq ((acked + (held ++ cq).length) % k.ring.nslots.toNat) = p.cqe

structure Rep (s : System) (q : Queues) : Prop where
  dvd : s.kernel.ring.nslots.toNat ∣ 2 ^ 32
  sq : ∃ fetched w, SqRep s.kernel s.block s.client q.sq fetched w
  cq : ∃ acked, CqRep s.kernel s.block s.client q.cq q.held acked

section kernel

variable {ring : Ring} {chunk chunk' : Chunk} {post post' : Option Post} {b : Block} {r : Kring}
  {sq : List Ksqe} {fetched : Nat} {w : List Ksqe} {cq held : List Kcqe} {acked : Nat}
  {tail : UInt32} {done budget : Nat} {sqe : Ksqe} {poster : Poster} {cqe : Kcqe}

theorem SqRep.keep (h : SqRep ⟨ring, chunk, post⟩ b r sq fetched w)
    (hflight : chunk'.inFlight = chunk.inFlight)
    (htail : ∀ tail, chunk'.tail = some tail → ∃ m ≤ w.length, tail = UInt32.ofNat (fetched + m))
    (hcopied : ∀ tail done budget sqe, chunk' ≠ .copied tail done budget sqe) :
    SqRep ⟨ring, chunk', post'⟩ b r sq fetched w where
  nslots := h.nslots
  queue := by simpa [hflight] using h.queue
  sq_head := h.sq_head
  mirror := h.mirror
  sq_tail := h.sq_tail
  shadow := h.shadow
  room := h.room
  holds := h.holds
  taken := h.taken
  tail := htail
  copied := fun tail done budget sqe heq => absurd heq (hcopied tail done budget sqe)

theorem SqRep.copySqe (h : SqRep ⟨ring, .loop tail done budget, post⟩ b r sq fetched w)
    (hdvd : ring.nslots.toNat ∣ 2 ^ 32) (hne : ring.sq_head ≠ tail)
    (hload : b.sq ring.sqSlot = sqe) :
    SqRep ⟨ring, .copied tail done budget sqe, post⟩ b r sq fetched w := by
  obtain ⟨m, hm, rfl⟩ := h.tail tail rfl
  have hhead : ring.sq_head = UInt32.ofNat fetched := h.sq_head
  have hslot : ring.sqSlot = fetched % ring.nslots.toNat := by
    rw [Ring.sqSlot, hhead, slot_ofNat hdvd]
  have hpos : m ≠ 0 := by
    rintro rfl
    exact hne hhead
  have hhd : w.head? = some sqe := by
    cases hw : w with
    | nil =>
      rw [hw] at hm
      exact absurd (Nat.le_zero.mp hm) hpos
    | cons x rest =>
      have hx := (hw ▸ h.holds).head
      rw [← hload, hslot, hx]
      rfl
  refine { h with queue := h.queue, tail := ?_, copied := ?_ }
  · rintro _ ⟨⟩
    exact ⟨m, hm, rfl⟩
  · rintro _ _ _ _ ⟨⟩
    exact ⟨hne, hhd⟩

theorem SqRep.storeHead (h : SqRep ⟨ring, .copied tail done budget sqe, post⟩ b r sq fetched w) :
    ∃ rest, SqRep ⟨{ ring with sq_head := ring.sq_head + 1 }, .fetched tail done budget sqe, post⟩
      { b with hdr := b.hdr.set .sq_head (ring.sq_head + 1) } r sq (fetched + 1) rest := by
  obtain ⟨hne, hhd⟩ := h.copied tail done budget sqe rfl
  obtain ⟨m, hm, rfl⟩ := h.tail tail rfl
  have hhead : ring.sq_head = UInt32.ofNat fetched := h.sq_head
  obtain ⟨rest, rfl⟩ : ∃ rest, w = sqe :: rest := by
    cases w with
    | nil => cases hhd
    | cons x rest =>
      cases hhd
      exact ⟨rest, rfl⟩
  have hlen : ∀ i, fetched + 1 + rest.length + i = fetched + (sqe :: rest).length + i := by
    intro i
    simp only [List.length_cons]
    omega
  refine ⟨rest, ?_⟩
  exact {
    nslots := h.nslots
    queue := h.queue
    sq_head := by rw [hhead, ofNat_succ]
    mirror := rfl
    sq_tail := by rw [← Nat.add_zero (fetched + 1 + rest.length), hlen 0]; exact h.sq_tail
    shadow := by rw [hlen]; exact h.shadow
    room := by
      have hroom := h.room
      simp only [List.length_cons] at hroom
      exact Nat.le_trans (Nat.add_le_add_right (Nat.le_succ _) _) hroom
    holds := h.holds.tail
    taken := fun i hi => by rw [hlen]; exact h.taken i hi
    tail := by
      rintro _ ⟨⟩
      have hpos : m ≠ 0 := by
        rintro rfl
        exact hne hhead
      refine ⟨m - 1, ?_, ?_⟩
      · simp only [List.length_cons] at hm
        omega
      · rw [show fetched + 1 + (m - 1) = fetched + m by omega]
    copied := by rintro _ _ _ _ ⟨⟩ }

theorem SqRep.exec (h : SqRep ⟨ring, .fetched tail done budget sqe, post⟩ b r sq fetched w) :
    sq = sqe :: w ∧ SqRep ⟨ring, .executed tail done budget cqe, post⟩ b r w fetched w := by
  refine ⟨h.queue, { h with queue := rfl, tail := h.tail, copied := ?_ }⟩
  rintro _ _ _ _ ⟨⟩

theorem CqRep.count (h : CqRep ⟨ring, chunk, post⟩ b r cq held acked) :
    (ring.cq_count - b.hdr.cq_head).toNat = (held ++ cq).length := by
  have hcount : ring.cq_count = UInt32.ofNat (acked + (held ++ cq).length) := h.cq_count
  have hlt := Nat.lt_of_le_of_lt h.room ring.nslots.toNat_lt
  rw [hcount, h.cq_head, toNat_sub_ofNat (Nat.le_add_right _ _) (by omega)]
  omega

theorem CqRep.slot (h : CqRep ⟨ring, chunk, post⟩ b r cq held acked)
    (hdvd : ring.nslots.toNat ∣ 2 ^ 32) :
    ring.cqSlot = (acked + (held ++ cq).length) % ring.nslots.toNat := by
  have hcount : ring.cq_count = UInt32.ofNat (acked + (held ++ cq).length) := h.cq_count
  rw [Ring.cqSlot, hcount, slot_ofNat hdvd]

theorem CqRep.keep (h : CqRep ⟨ring, chunk, post⟩ b r cq held acked)
    (hpost : ∀ p, post' = some p → p.stage = .locked ∨ p.stage = .stored) :
    CqRep ⟨ring, chunk', post'⟩ b r cq held acked := by
  refine { h with free := ?_, written := ?_ }
  · intro p hp hstage
    rcases hpost p hp with h | h <;> rw [h] at hstage <;> simp at hstage
  · intro p hp hstage
    rcases hpost p hp with h | h <;> rw [h] at hstage <;> cases hstage

theorem CqRep.findRoom (h : CqRep ⟨ring, chunk, some ⟨poster, cqe, .locked⟩⟩ b r cq held acked)
    (hroom : ring.cq_count - b.hdr.cq_head < ring.nslots) :
    CqRep ⟨ring, chunk, some ⟨poster, cqe, .room⟩⟩ b r cq held acked := by
  have hlt := UInt32.lt_iff_toNat_lt.mp hroom
  rw [h.count] at hlt
  refine { h with free := fun _ _ _ => hlt, written := ?_ }
  rintro _ ⟨⟩ ⟨⟩

theorem CqRep.writeCqe (h : CqRep ⟨ring, chunk, some ⟨poster, cqe, .room⟩⟩ b r cq held acked)
    (hdvd : ring.nslots.toNat ∣ 2 ^ 32) :
    CqRep ⟨ring, chunk, some ⟨poster, cqe, .written⟩⟩
      { b with cq := update b.cq ring.cqSlot cqe } r cq held acked := by
  have hlt := h.free _ rfl (.inl rfl)
  have hslot := h.slot hdvd
  refine { h with holds := ?_, free := fun _ _ _ => hlt, written := ?_ }
  · rw [hslot]
    exact h.holds.write (Nat.le_refl _) (Nat.add_lt_add_left hlt acked)
  · rintro _ ⟨⟩ -
    rw [hslot]
    exact update_self ..

theorem CqRep.storeCount
    (h : CqRep ⟨ring, chunk, some ⟨poster, cqe, .written⟩⟩ b r cq held acked) :
    CqRep ⟨{ ring with cq_count := ring.cq_count + 1 }, chunk, some ⟨poster, cqe, .stored⟩⟩
      { b with hdr := b.hdr.set .cq_count (ring.cq_count + 1) } r (cq ++ [cqe]) held acked := by
  have hlt := h.free _ rfl (.inr rfl)
  have hcount : ring.cq_count = UInt32.ofNat (acked + (held ++ cq).length) := h.cq_count
  have hcqe := h.written _ rfl rfl
  refine { h with cq_count := ?_, mirror := rfl, room := ?_, holds := ?_, peeked := ?_, copy := ?_,
                  free := ?_, written := ?_ }
  · show ring.cq_count + 1 = _
    rw [hcount, ofNat_succ]
    simp [Nat.add_assoc]
  · rw [← List.append_assoc, List.length_append]
    exact hlt
  · rw [← List.append_assoc]
    exact h.holds.snoc hcqe
  · intro hp
    simp
  · intro hc
    simp
  · rintro _ ⟨⟩ hstage
    simp at hstage
  · rintro _ ⟨⟩ ⟨⟩

end kernel

/-! ## 4. Steps of the client -/

section client

variable {k : Kernel} {b : Block} {r : Kring} {sq : List Ksqe} {fetched : Nat} {w : List Ksqe}
  {cq held : List Kcqe} {acked : Nat} {x : Kcqe} {call : Call}

theorem SqRep.keepClient {b' : Block} {r' : Kring} (h : SqRep k b r sq fetched w)
    (hb : b'.hdr.sq_head = b.hdr.sq_head ∧ b'.hdr.sq_tail = b.hdr.sq_tail ∧ b'.sq = b.sq)
    (hr : r'.nslots = r.nslots ∧ r'.sq_tail = r.sq_tail ∧ r'.taken = r.taken) :
    SqRep k b' r' sq fetched w where
  nslots := hr.1.trans h.nslots
  queue := h.queue
  sq_head := h.sq_head
  mirror := hb.1.trans h.mirror
  sq_tail := hb.2.1.trans h.sq_tail
  shadow := by rw [hr.2.1, hr.2.2]; exact h.shadow
  room := by rw [hr.2.2]; exact h.room
  holds := by rw [hb.2.2]; exact h.holds
  taken := by rw [hr.2.2]; exact h.taken
  tail := h.tail
  copied := h.copied

theorem SqRep.getSqe (h : SqRep k b r sq fetched w) (hdvd : k.ring.nslots.toNat ∣ 2 ^ 32) :
    SqRep k b (kringGetSqe r b) sq fetched w := by
  by_cases hfull : r.nslots ≤ r.sq_tail - b.hdr.sq_head
  · rw [kringGetSqe, if_pos hfull]
    exact h
  · rw [kringGetSqe, if_neg hfull]
    have hroom : w.length + r.taken.length < k.ring.nslots.toNat := by
      have hlt := UInt32.lt_iff_toNat_lt.mp (UInt32.not_le.mp hfull)
      have hle := Nat.lt_of_le_of_lt h.room k.ring.nslots.toNat_lt
      rw [h.shadow, h.mirror, h.sq_head, h.nslots, Nat.add_assoc,
        toNat_sub_ofNat (Nat.le_add_right _ _) (by omega)] at hlt
      omega
    refine { h with shadow := ?_, room := ?_, taken := ?_ }
    · rw [h.shadow, ofNat_succ, List.length_append]
      rfl
    · rw [List.length_append]
      exact hroom
    · intro i hi
      rw [List.length_append] at hi
      by_cases hlt : i < r.taken.length
      · rw [List.getElem_append_left hlt]
        exact h.taken i hlt
      · have hlast : i = r.taken.length := Nat.le_antisymm (Nat.le_of_lt_succ hi) (Nat.le_of_not_lt hlt)
        subst hlast
        rw [List.getElem_concat_length rfl, h.shadow, h.nslots, slot_ofNat hdvd]

theorem SqRep.fill {slot : Nat} {sqe : Ksqe} (h : SqRep k b r sq fetched w)
    (hslot : slot ∈ r.taken) :
    SqRep k { b with sq := update b.sq slot sqe } r sq fetched w := by
  obtain ⟨i, hi, rfl⟩ := List.getElem_of_mem hslot
  have hroom := h.room
  refine { h with holds := ?_ }
  rw [h.taken i hi]
  exact h.holds.write (Nat.le_add_right _ _) (by omega)

theorem SqRep.submit (h : SqRep k b r sq fetched w) :
    SqRep k (kringSubmit r b).2 (kringSubmit r b).1 (sq ++ r.taken.map b.sq) fetched
      (w ++ r.taken.map b.sq) := by
  refine { h with queue := ?_, sq_tail := ?_, shadow := ?_, room := ?_, holds := ?_, taken := ?_,
                  tail := ?_, copied := ?_ }
  · rw [h.queue, List.append_assoc]
  · rw [List.length_append, List.length_map, ← Nat.add_assoc]
    exact h.shadow
  · rw [List.length_append, List.length_map, ← Nat.add_assoc]
    exact h.shadow
  · rw [List.length_append, List.length_map]
    exact h.room
  · apply h.holds.append
    intro i hi
    rw [List.length_map] at hi
    rw [List.getElem_map, h.taken i hi]
  · intro i hi
    exact absurd hi (Nat.not_lt_zero i)
  · intro tail htail
    obtain ⟨m, hm, heq⟩ := h.tail tail htail
    exact ⟨m, Nat.le_trans hm (by simp), heq⟩
  · intro tail done budget sqe hchunk
    obtain ⟨hne, hhd⟩ := h.copied tail done budget sqe hchunk
    exact ⟨hne, by rw [List.head?_append, hhd]; rfl⟩

theorem CqRep.peek (h : CqRep k b r cq held acked) : (kringPeekCqe r b).isSome ↔ cq ≠ [] := by
  have hlt := Nat.lt_of_le_of_lt h.room k.ring.nslots.toNat_lt
  rw [List.length_append] at hlt
  have heq := ofNat_eq_iff (a := acked + (held.length + cq.length)) (b := acked + held.length)
    (by omega) (by omega)
  rw [kringPeekCqe, h.mirror, h.cq_count, h.shadow, List.length_append]
  split
  · rename_i hsame
    have : cq.length = 0 := by
      have := heq.mp hsame
      omega
    simp [List.length_eq_zero_iff.mp this]
  · rename_i hdiff
    have : cq ≠ [] := by
      rintro rfl
      exact hdiff rfl
    simp [this]

theorem CqRep.current (h : CqRep k b r (x :: cq) held acked)
    (hdvd : k.ring.nslots.toNat ∣ 2 ^ 32) : r.current b = x := by
  rw [Kring.current, h.shadow, h.nslots, slot_ofNat hdvd]
  exact h.holds.drop.head

theorem CqRep.seen (h : CqRep k b r (x :: cq) held acked) (hcall : call ≠ .copy) :
    CqRep k b { kringCqeSeen r with call := call } cq (held ++ [x]) acked := by
  have happ : held ++ [x] ++ cq = held ++ x :: cq := by simp
  refine { h with cq_count := ?_, shadow := ?_, room := ?_, holds := ?_, peeked := ?_, copy := ?_,
                  free := ?_, written := ?_ }
  · rw [happ]
    exact h.cq_count
  · show r.cq_head + 1 = _
    rw [h.shadow, ofNat_succ, List.length_append]
    rfl
  · rw [happ]
    exact h.room
  · rw [happ]
    exact h.holds
  · intro hp
    cases hp
  · intro hc
    exact absurd hc hcall
  · rw [happ]
    exact h.free
  · rw [happ]
    exact h.written

theorem CqRep.ack (h : CqRep k b r cq held acked) :
    CqRep k (kringAck r b).2 (kringAck r b).1 cq [] (acked + held.length) := by
  have hlen : acked + held.length + ([] ++ cq).length = acked + (held ++ cq).length := by
    simp [Nat.add_assoc]
  have hle : ([] ++ cq).length ≤ (held ++ cq).length := by simp
  refine { h with cq_count := ?_, cq_head := h.shadow, shadow := h.shadow, room := ?_, holds := ?_,
                  copy := ?_, free := ?_, written := ?_ }
  · rw [hlen]
    exact h.cq_count
  · exact Nat.le_trans hle h.room
  · exact h.holds.drop
  · intro hc
    cases hc
  · intro p hp hstage
    exact Nat.lt_of_le_of_lt hle (h.free p hp hstage)
  · rw [hlen]
    exact h.written

end client

end GovinDos.Channel
