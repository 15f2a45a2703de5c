/-
  **The ring refines the queues.**

  The log of every run is a log of the queues, and from every state the kernel alone can
  execute all that was submitted.
-/
import GovinDos.RingDrain
import GovinDos.RingQueues

namespace GovinDos.Channel

open RingBuffer

variable {s s' : System} {b b' : Block}

/-! ## 1. Every step is a move of the queues -/

def System.nslots (s : System) : Nat := s.kernel.ring.nslots.toNat

theorem SqRep.unlock {ring : Ring} {chunk : Chunk} {post : Option Post} {r : Kring}
    {sq w : List Ksqe} {fetched : Nat} (h : SqRep ⟨ring, chunk, post⟩ b r sq fetched w)
    (poster : Poster) : SqRep (Kernel.unlock ⟨ring, chunk, post⟩ poster) b r sq fetched w := by
  rcases Kernel.unlock_spec ring chunk post poster with heq | ⟨tail, done, budget, cqe, rfl, heq⟩
  · rw [heq]
    exact { h with }
  · rw [heq]
    refine h.keep rfl h.tail ?_
    rintro _ _ _ _ ⟨⟩

theorem CqRep.unlock {ring : Ring} {chunk : Chunk} {post : Option Post} {r : Kring}
    {cq held : List Kcqe} {acked : Nat} (h : CqRep ⟨ring, chunk, post⟩ b r cq held acked)
    (poster : Poster) : CqRep (Kernel.unlock ⟨ring, chunk, post⟩ poster) b r cq held acked := by
  have hnone : ∀ p, (none : Option Post) = some p → p.stage = .locked ∨ p.stage = .stored := by
    rintro p ⟨⟩
  rcases Kernel.unlock_spec ring chunk post poster with heq | ⟨tail, done, budget, cqe, -, heq⟩
  · rw [heq]
    exact h.keep hnone
  · rw [heq]
    exact h.keep hnone

theorem Rep.kernel {q : Queues} {op : KernelOp} {k' : Kernel} {access : Option Access}
    {log : List Event} (h : Rep s q) (hmove : s.kernel.Move op k' access)
    (hb : s.block.perform access = some b') :
    k'.ring.nslots = s.kernel.ring.nslots ∧
      ∃ q', (s.kernel.events op).foldlM (Queues.step s.nslots) q = some q' ∧
        Rep ⟨k', b', s.client, log⟩ q' := by
  obtain ⟨k, b, r, _⟩ := s
  obtain ⟨hdvd, ⟨fetched, w, hsq⟩, ⟨acked, hcq⟩⟩ := h
  cases hmove with
  | lying hlie | cqeConsumed =>
    obtain ⟨-, rfl⟩ := Block.perform_load hb
    exact ⟨rfl, q, rfl, hdvd, ⟨fetched, w, hsq⟩, ⟨acked, hcq⟩⟩
  | runChunk hok =>
    obtain ⟨htail, rfl⟩ := Block.perform_load hb
    refine ⟨rfl, q, rfl, hdvd, ⟨fetched, w, hsq.keep rfl ?_ ?_⟩, ⟨acked, { hcq with }⟩⟩
    · rintro _ ⟨⟩
      exact ⟨w.length, Nat.le_refl _, htail.symm.trans hsq.sq_tail⟩
    · rintro _ _ _ _ ⟨⟩
  | copySqe hne hdone =>
    simp only [Block.perform, Block.access] at hb
    split at hb <;> cases hb
    exact ⟨rfl, q, rfl, hdvd, ⟨fetched, w, hsq.copySqe hdvd hne ‹_›⟩, ⟨acked, { hcq with }⟩⟩
  | storeHead =>
    cases hb
    obtain ⟨rest, hsq'⟩ := hsq.storeHead
    exact ⟨rfl, q, rfl, hdvd, ⟨fetched + 1, rest, hsq'⟩, ⟨acked, { hcq with }⟩⟩
  | exec =>
    cases hb
    obtain ⟨heq, hsq'⟩ := hsq.exec
    refine ⟨rfl, { q with sq := w }, ?_, hdvd, ⟨fetched, w, hsq'⟩, ⟨acked, { hcq with }⟩⟩
    simp [Kernel.events, Queues.step, heq]
  | postCompletion | postEvent =>
    cases hb
    refine ⟨rfl, q, rfl, hdvd, ⟨fetched, w, { hsq with }⟩, ⟨acked, hcq.keep ?_⟩⟩
    rintro _ ⟨⟩
    exact .inl rfl
  | endChunk hend =>
    cases hb
    refine ⟨rfl, q, rfl, hdvd, ⟨fetched, w, hsq.keep rfl ?_ ?_⟩, ⟨acked, { hcq with }⟩⟩
    · rintro _ ⟨⟩
    · rintro _ _ _ _ ⟨⟩
  | full hfull =>
    obtain ⟨-, rfl⟩ := Block.perform_load hb
    exact ⟨by rw [Kernel.unlock_ring], q, rfl, by rw [Kernel.unlock_ring]; exact hdvd,
      ⟨fetched, w, hsq.unlock _⟩, ⟨acked, hcq.unlock _⟩⟩
  | room hroom =>
    obtain ⟨hhead, rfl⟩ := Block.perform_load hb
    rw [← hhead] at hroom
    exact ⟨rfl, q, rfl, hdvd, ⟨fetched, w, { hsq with }⟩, ⟨acked, hcq.findRoom hroom⟩⟩
  | writeCqe =>
    cases hb
    exact ⟨rfl, q, rfl, hdvd, ⟨fetched, w, { hsq with }⟩, ⟨acked, hcq.writeCqe hdvd⟩⟩
  | storeCount =>
    cases hb
    have hlt := hcq.free _ rfl (.inr rfl)
    rw [List.length_append] at hlt
    refine ⟨rfl, { q with cq := q.cq ++ [_] }, ?_, hdvd, ⟨fetched, w, { hsq with }⟩,
      ⟨acked, hcq.storeCount⟩⟩
    simp only [Kernel.events, List.foldlM_cons, List.foldlM_nil, Queues.step, System.nslots]
    rw [if_pos hlt]
    rfl
  | wake =>
    cases hb
    exact ⟨by rw [Kernel.unlock_ring], q, rfl, by rw [Kernel.unlock_ring]; exact hdvd,
      ⟨fetched, w, hsq.unlock _⟩, ⟨acked, hcq.unlock _⟩⟩

theorem Rep.client {q : Queues} {op : ClientOp} {r' : Kring}
    {events log : List Event} (h : Rep s q) (hstep : s.client.step s.block op = some (r', b', events)) :
    ∃ q', events.foldlM (Queues.step s.nslots) q = some q' ∧ Rep ⟨s.kernel, b', r', log⟩ q' := by
  obtain ⟨k, b, r, _⟩ := s
  obtain ⟨hdvd, ⟨fetched, w, hsq⟩, ⟨acked, hcq⟩⟩ := h
  -- the two ways to read: the queue has a first entry, and the client gets it
  have hread : ∀ call : Call, call ≠ .copy → q.cq ≠ [] →
      ∃ q', [Event.read (r.current b)].foldlM (Queues.step k.ring.nslots.toNat) q = some q' ∧
        Rep ⟨k, b, { kringCqeSeen r with call := call }, log⟩ q' := by
    intro call hcall hne
    obtain ⟨qsq, qcq, held⟩ := q
    cases qcq with
    | nil => exact absurd rfl hne
    | cons x rest =>
      have hx : r.current b = x := hcq.current hdvd
      refine ⟨⟨qsq, rest, held ++ [x]⟩, ?_, hdvd, ⟨fetched, w, ?_⟩, ⟨acked, hcq.seen hcall⟩⟩
      · simp [Queues.step, hx]
      · exact hsq.keepClient ⟨rfl, rfl, rfl⟩ ⟨rfl, rfl, rfl⟩
  cases op with
  | getSqe =>
    simp only [Kring.step] at hstep
    split at hstep <;> cases hstep
    refine ⟨q, rfl, hdvd, ⟨fetched, w, hsq.getSqe hdvd⟩, ⟨acked, ?_⟩⟩
    unfold kringGetSqe
    split
    · exact { hcq with }
    · exact { hcq with }
  | fill slot sqe =>
    simp only [Kring.step] at hstep
    split at hstep <;> cases hstep
    rename_i hok
    exact ⟨q, rfl, hdvd, ⟨fetched, w, hsq.fill hok.2⟩, ⟨acked, { hcq with }⟩⟩
  | submit =>
    simp only [Kring.step] at hstep
    split at hstep <;> cases hstep
    refine ⟨{ q with sq := q.sq ++ r.taken.map b.sq }, rfl, hdvd,
      ⟨fetched, _, hsq.submit⟩, ⟨acked, { hcq with copy := ?_ }⟩⟩
    rintro ⟨⟩
  | peek =>
    simp only [Kring.step] at hstep
    split at hstep <;> cases hstep
    rename_i hcall
    refine ⟨q, rfl, hdvd, ⟨fetched, w, { hsq with }⟩, ⟨acked, { hcq with peeked := ?_ }⟩⟩
    exact hcq.peek.mp
  | seen =>
    simp only [Kring.step] at hstep
    split at hstep <;> cases hstep
    rename_i hok
    have hseen := hread .none (by simp) (hcq.peeked hok.2)
    rwa [← hok.1] at hseen
  | wait =>
    simp only [Kring.step] at hstep
    split at hstep <;> cases hstep
    refine ⟨q, rfl, hdvd, ⟨fetched, w, { hsq with }⟩, ⟨acked, { hcq with copy := ?_ }⟩⟩
    rintro ⟨⟩
  | waitPeek =>
    simp only [Kring.step] at hstep
    split at hstep
    · split at hstep <;> cases hstep
      · rename_i hsome
        refine ⟨q, rfl, hdvd, ⟨fetched, w, { hsq with }⟩, ⟨acked, { hcq with copy := ?_ }⟩⟩
        intro _
        exact hcq.peek.mp (by rw [hsome]; rfl)
      · refine ⟨q, rfl, hdvd, ⟨fetched, w, { hsq with }⟩, ⟨acked, { hcq with copy := ?_ }⟩⟩
        rintro ⟨⟩
    · cases hstep
  | waitCopy =>
    simp only [Kring.step] at hstep
    split at hstep <;> cases hstep
    exact hread _ (by simp) (hcq.copy ‹_›)
  | ack =>
    simp only [Kring.step] at hstep
    split at hstep <;> cases hstep
    exact ⟨{ q with held := [] }, rfl, hdvd,
      ⟨fetched, w, hsq.keepClient ⟨rfl, rfl, rfl⟩ ⟨rfl, rfl, rfl⟩⟩, ⟨_, hcq.ack⟩⟩
  | woken rc =>
    simp only [Kring.step] at hstep
    obtain ⟨r₁, hr₁, hstep⟩ := Option.bind_eq_some_iff.mp hstep
    cases hstep
    have hkeep : r'.call ≠ .copy ∧ r' = { r with call := r'.call } := by
      simp only [kringWoken] at hr₁
      split at hr₁
      · split at hr₁ <;> cases hr₁
        · rename_i hcall _
          exact ⟨by rw [hcall]; simp, rfl⟩
        · exact ⟨by simp, rfl⟩
      · cases hr₁
        exact ⟨by simp, rfl⟩
      · split at hr₁ <;> cases hr₁
        · exact ⟨by simp, rfl⟩
        · exact ⟨by simp, rfl⟩
      · cases hr₁
    rw [hkeep.2]
    refine ⟨q, rfl, hdvd, ⟨fetched, w, { hsq with }⟩, ⟨acked, { hcq with copy := ?_ }⟩⟩
    intro hc
    exact absurd hc hkeep.1

theorem Rep.step {q : Queues} {op : Op} (h : Rep s q) (hstep : s.step op = some s') :
    s'.nslots = s.nslots ∧ ∃ q' events, s'.log = s.log ++ events ∧
      events.foldlM (Queues.step s.nslots) q = some q' ∧ Rep s' q' := by
  cases op with
  | kernel op =>
    simp only [System.step] at hstep
    obtain ⟨⟨k', access⟩, hk, hstep⟩ := Option.bind_eq_some_iff.mp hstep
    obtain ⟨b', hb, hstep⟩ := Option.bind_eq_some_iff.mp hstep
    cases hstep
    obtain ⟨hn, q', hq', hrep⟩ := h.kernel (Kernel.move_of_step hk) hb
    exact ⟨congrArg UInt32.toNat hn, q', _, rfl, hq', hrep⟩
  | client op =>
    simp only [System.step] at hstep
    obtain ⟨⟨r', b', events⟩, hr, hstep⟩ := Option.bind_eq_some_iff.mp hstep
    cases hstep
    obtain ⟨q', hq', hrep⟩ := h.client hr
    exact ⟨rfl, q', events, rfl, hq', hrep⟩

def Refines (n : Nat) (s : System) : Prop :=
  s.nslots = n ∧ ∃ q, Queues.run n s.log = some q ∧ Rep s q

theorem Refines.step {n : Nat} {op : Op} (h : Refines n s)
    (hstep : s.step op = some s') : Refines n s' := by
  obtain ⟨rfl, q, hq, hrep⟩ := h
  obtain ⟨hn, q', events, hlog, hevents, hrep'⟩ := hrep.step hstep
  refine ⟨hn, q', ?_, hrep'⟩
  rw [hlog, Queues.run, List.foldlM_append]
  exact Option.bind_eq_some_iff.mpr ⟨q, hq, hevents⟩

theorem refines_create {order : Nat} (hpow : ∃ j, (KRING_NSLOTS order).toNat = 2 ^ j)
    (sq : Nat → Ksqe) (cq : Nat → Kcqe) :
    Refines (KRING_NSLOTS order).toNat (.create order sq cq) := by
  obtain ⟨j, hj⟩ := hpow
  have hdvd : (KRING_NSLOTS order).toNat ∣ 2 ^ 32 := by
    have hlt := (KRING_NSLOTS order).toNat_lt
    rw [hj] at hlt ⊢
    exact Nat.pow_dvd_pow 2 (Nat.le_of_lt ((Nat.pow_lt_pow_iff_right (by decide)).mp hlt))
  refine ⟨rfl, ⟨[], [], []⟩, rfl, hdvd, ⟨0, [], ?_⟩, ⟨0, ?_⟩⟩
  · exact {
      nslots := rfl, queue := rfl, sq_head := rfl, mirror := rfl, sq_tail := rfl, shadow := rfl
      room := Nat.zero_le _, holds := holds_nil
      taken := fun i hi => absurd hi (Nat.not_lt_zero i)
      tail := by rintro _ ⟨⟩
      copied := by rintro _ _ _ _ ⟨⟩ }
  · exact {
      nslots := rfl, cq_count := rfl, mirror := rfl, cq_head := rfl, shadow := rfl
      room := Nat.zero_le _, holds := holds_nil
      peeked := by rintro ⟨⟩
      copy := by rintro ⟨⟩
      free := by rintro _ ⟨⟩
      written := by rintro _ ⟨⟩ }

theorem refines_run {order : Nat} (hpow : ∃ j, (KRING_NSLOTS order).toNat = 2 ^ j)
    {sq : Nat → Ksqe} {cq : Nat → Kcqe} {ok : System → Op → Prop} {ops : List Op}
    (hrun : Run System.step ok (.create order sq cq) ops s) :
    Refines (KRING_NSLOTS order).toNat s :=
  hrun.invariant (refines_create hpow sq cq) fun _ _ _ h _ hstep => h.step hstep

/-! ## 2. Nothing submitted is stuck -/

theorem Refines.rest {n : Nat} {d : Rest} {r : Kring} (h : Refines n (d.system .idle r)) :
    d.block.hdr.sq_head = d.ring.sq_head ∧ (d.publish r).pending ≤ d.ring.nslots.toNat ∧
      d.pending ≤ d.ring.nslots.toNat ∧ (d.pending = 0 → executed d.log = submitted d.log) := by
  obtain ⟨-, q, hq, -, ⟨fetched, xs, hsq⟩, -⟩ := h
  have hroom : xs.length + r.taken.length ≤ d.ring.nslots.toNat := hsq.room
  have hlt := Nat.lt_of_le_of_lt hroom d.ring.nslots.toNat_lt
  have hhead : d.ring.sq_head = UInt32.ofNat fetched := hsq.sq_head
  have htail : d.block.hdr.sq_tail = UInt32.ofNat (fetched + xs.length) := hsq.sq_tail
  have hshadow : r.sq_tail = UInt32.ofNat (fetched + xs.length + r.taken.length) := hsq.shadow
  have hpending : d.pending = xs.length := by
    rw [Rest.pending, htail, hhead, toNat_sub_ofNat (by omega) (by omega)]
    omega
  refine ⟨hsq.mirror, ?_, by omega, fun hzero => ?_⟩
  · change (r.sq_tail - d.ring.sq_head).toNat ≤ _
    rw [hshadow, hhead, toNat_sub_ofNat (by omega) (by omega)]
    omega
  · have hnil : xs = [] := List.eq_nil_of_length_eq_zero (hpending.symm.trans hzero)
    have hqueue : q.sq = [] := hsq.queue.trans hnil
    have hall := (Queues.sound_run hq).sq
    rw [hqueue, List.append_nil] at hall
    exact hall.symm

theorem Reaches.refines {n : Nat} (h : Reaches s s') (href : Refines n s) : Refines n s' := by
  obtain ⟨ops, hrun⟩ := h
  exact hrun.invariant href fun _ _ _ h _ hstep => h.step hstep

theorem Refines.exists_drained {n : Nat} (h : Refines n s) :
    ∃ ops s', Run System.step (fun _ op => op.IsKernel) s ops s' ∧
      submitted s'.log = submitted s.log ∧ executed s'.log = submitted s.log := by
  obtain ⟨d, hrest⟩ := settles s
  obtain ⟨-, -, hhonest, -⟩ := (hrest.refines h).rest
  obtain ⟨-, hdrains⟩ := ringRunChunk_drains .still d.pending hhonest
  have hreach := hrest.trans (hdrains.reaches s.client)
  obtain ⟨-, -, -, hall⟩ := (hreach.refines h).rest
  have hzero := hdrains.pending (Nat.min_le_left _ _)
  rw [Nat.min_self, Nat.sub_self] at hzero
  have hsub := hreach.submitted
  obtain ⟨ops, hrun⟩ := hreach
  exact ⟨ops, _, hrun, hsub, (hall hzero).trans hsub⟩

/-! ## 3. The two queues of a ring -/

def System.ackSlot (s : System) (i : Nat) : Nat :=
  ((s.block.hdr.cq_head + UInt32.ofNat i) % s.kernel.ring.nslots).toNat

structure TwoQueues (n : Nat) (s : System) (q : Queues) : Prop where
  log : Queues.run n s.log = some q
  sq : submitted s.log = executed s.log ++ q.sq
  drained : ∃ ops s', Run System.step (fun _ op => op.IsKernel) s ops s' ∧
    submitted s'.log = submitted s.log ∧ executed s'.log = submitted s.log
  cq : posted s.log = read s.log ++ q.cq
  peek : (kringPeekCqe s.client s.block).isSome ↔ q.cq ≠ []
  current : ∀ x rest, q.cq = x :: rest → s.client.current s.block = x
  kept : ∀ i (h : i < (q.held ++ q.cq).length), s.block.cq (s.ackSlot i) = (q.held ++ q.cq)[i]
  spared : ∀ op k' slot cqe, s.kernel.step op = some (k', some (.writeCqe slot cqe)) →
    ∀ i < (q.held ++ q.cq).length, slot ≠ s.ackSlot i

theorem Refines.twoQueues {n : Nat} (h : Refines n s) : ∃ q, TwoQueues n s q := by
  have hdrained := h.exists_drained
  obtain ⟨rfl, q, hq, hrep⟩ := h
  have hsound := Queues.sound_run hq
  obtain ⟨hdvd, -, ⟨acked, hcq⟩⟩ := hrep
  have hslot : ∀ i, s.ackSlot i = (acked + i) % s.kernel.ring.nslots.toNat := by
    intro i
    rw [System.ackSlot, hcq.cq_head, ← UInt32.ofNat_add, slot_ofNat hdvd]
  refine ⟨q, hq, hsound.sq, hdrained, hsound.cq, hcq.peek, ?_, ?_, ?_⟩
  · intro x rest hx
    rw [hx] at hcq
    exact hcq.current hdvd
  · intro i hi
    rw [hslot]
    exact hcq.holds i hi
  · intro op k' slot cqe hstep i hi
    rw [hslot]
    have hmove := Kernel.move_of_step hstep
    generalize hk : s.kernel = k at hmove hcq hdvd
    cases hmove with
    | writeCqe =>
      have hfree := hcq.free _ rfl (.inl rfl)
      dsimp only at hfree
      rw [hcq.slot hdvd]
      exact (slot_ne (by omega) (by omega)).symm

/-- A ring with a power of two of slots is two queues, in every state of every run. -/
theorem ring_is_two_queues (order : Nat) (hpow : ∃ j, (KRING_NSLOTS order).toNat = 2 ^ j)
    (sq : Nat → Ksqe) (cq : Nat → Kcqe) {ops : List Op} {s : System}
    (hrun : Run System.step (fun _ _ => True) (.create order sq cq) ops s) :
    ∃ q, TwoQueues (KRING_NSLOTS order).toNat s q :=
  (refines_run hpow hrun).twoQueues

def oneCommand : List Op :=
  [.client .getSqe, .client (.fill 0 ⟨1, 2, 3, 4⟩), .client .submit,
    .kernel (.chunk (.runChunk 64 1)), .kernel (.chunk (.copySqe ⟨1, 2, 3, 4⟩)),
    .kernel (.chunk .storeHead), .kernel (.chunk (.exec (.ok 0) 2 3)),
    .kernel (.chunk .postCompletion), .kernel (.post (.loadConsumed 0)), .kernel (.post .writeCqe),
    .kernel (.post .storeCount), .kernel (.post .wake), .kernel (.chunk .endChunk),
    .client (.woken (.ok 0)), .client .wait, .client .waitPeek, .client .waitCopy, .client .ack]

theorem ring_is_two_queues_oneCommand :
    ∃ s, Run System.step (fun _ _ => True)
        (.create 0 (fun _ => ⟨0, 0, 0, 0⟩) (fun _ => ⟨0, 0, 0, .ok 0⟩)) oneCommand s ∧
      read s.log = [⟨1, 2, 3, .ok 0⟩] ∧ ∃ q, TwoQueues (KRING_NSLOTS 0).toNat s q := by
  have hrun : ∃ s, Run System.step (fun _ _ => True)
      (.create 0 (fun _ => ⟨0, 0, 0, 0⟩) (fun _ => ⟨0, 0, 0, .ok 0⟩)) oneCommand s ∧
        read s.log = [⟨1, 2, 3, .ok 0⟩] :=
    Run.exists_of_eval (fun _ _ _ => trivial) (by decide +kernel)
  obtain ⟨s, hrun, hread⟩ := hrun
  exact ⟨s, hrun, hread, ring_is_two_queues 0 ⟨5, by decide⟩ _ _ hrun⟩

/-! ## 4. A submission -/

/-- What is published is executed: a chunk and a drain run exactly what is pending, up to
    their budgets; a submission rings no more often than it has batches. -/
theorem submit_drains (w : Answers) (hw : ∀ log, w.resolves log = true) :
    (∀ d budget, d.pending ≤ d.ring.nslots.toNat →
      (ringRunChunk w d budget).2 = min d.pending budget ∧
        Drains (min d.pending budget) d (ringRunChunk w d budget).1) ∧
    (∀ d, d.pending ≤ d.ring.nslots.toNat → ∃ d', channelRingDrain w d = some (.ok 0, d') ∧
      Drains (min d.pending RING_SQ_BATCH) d d') ∧
    (∀ d r, d.block.hdr.sq_head = d.ring.sq_head → (d.publish r).pending ≤ d.ring.nslots.toNat →
      ∃ d', submitCall w ((d.publish r).pending / RING_SQ_BATCH + 1) d r =
          some (d', { r with call := .none, taken := [] }) ∧
        Drains (d.publish r).pending (d.publish r) d' ∧ d'.pending = 0 ∧
        d'.block.hdr.sq_head = r.sq_tail) ∧
    ∀ order sq cq ops d r, (∃ j, (KRING_NSLOTS order).toNat = 2 ^ j) →
      Run System.step (fun _ _ => True) (.create order sq cq) ops (d.system .idle r) →
      r.call = .none →
      ∃ d', submitCall w ((d.publish r).pending / RING_SQ_BATCH + 1) d r =
          some (d', { r with call := .none, taken := [] }) ∧
        submitted d'.log = submitted d.log ++ r.taken.map d.block.sq ∧
        executed d'.log = submitted d'.log ∧ d'.block.hdr.sq_head = r.sq_tail := by
  refine ⟨fun d budget h => ringRunChunk_drains w budget h, fun d h => channelRingDrain_drains hw h,
    fun d r hmirror h => submitCall_drains hw hmirror h, fun order sq cq ops d r hpow hrun hcall => ?_⟩
  have href := refines_run hpow hrun
  obtain ⟨hmirror, hhonest, -⟩ := href.rest
  obtain ⟨d', hcalled, hdrains, hzero, hmirror'⟩ := submitCall_drains hw hmirror hhonest
  have hstep : System.step (d.system .idle r) (.client .submit) =
      some ((d.publish r).system .idle (kringSubmit r d.block).1) := by
    simp [System.step, Kring.step, Rest.system, Rest.publish, hcall]
  obtain ⟨-, -, -, hall⟩ := ((hdrains.reaches _).refines (href.step hstep)).rest
  refine ⟨d', hcalled, ?_, hall hzero, hmirror'⟩
  rw [hdrains.submitted, Rest.publish, submitted_append]
  simp [submitted]

theorem submit_drains_one : ∃ (w : Answers) (d : Rest) (r : Kring) (ops : List Op),
    (∀ log, w.resolves log = true) ∧ Run System.step (fun _ _ => True)
      (.create 0 (fun _ => ⟨0, 0, 0, 0⟩) (fun _ => ⟨0, 0, 0, .ok 0⟩)) ops (d.system .idle r) ∧
    ∃ d', submitCall w ((d.publish r).pending / RING_SQ_BATCH + 1) d r =
        some (d', { r with call := .none, taken := [] }) ∧
      executed d'.log = [⟨1, 2, 3, 4⟩] := by
  let d : Rest := ⟨⟨32, 0, 0⟩, ⟨⟨0, 0, 0, 0⟩, Function.update (fun _ => ⟨0, 0, 0, 0⟩) 0 ⟨1, 2, 3, 4⟩,
    fun _ => ⟨0, 0, 0, .ok 0⟩⟩, []⟩
  let r : Kring := ⟨32, 1, 0, .none, [0], false⟩
  have hrun : Run System.step (fun _ _ => True)
      (.create 0 (fun _ => ⟨0, 0, 0, 0⟩) (fun _ => ⟨0, 0, 0, .ok 0⟩))
      [.client .getSqe, .client (.fill 0 ⟨1, 2, 3, 4⟩)] (d.system .idle r) :=
    Run.of_foldlM (fun _ _ _ => trivial) rfl
  obtain ⟨d', hcalled, hsub, hexec, -⟩ := (submit_drains .still fun _ => rfl).2.2.2 0 _ _ _ d r
    ⟨5, by decide⟩ hrun rfl
  exact ⟨.still, d, r, _, fun _ => rfl, hrun, d', hcalled, hexec.trans hsub⟩

end GovinDos.Channel
