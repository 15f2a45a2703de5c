/-
  **Draining a ring (`channel_ring_drain`, `kring_submit`).**

  A drain runs chunks until one comes back short or the budget is spent, and the client rings
  until the mirror has caught up.  They are functions here, with the commands and the replay
  of the scheme as whatever they answer; each is a run of the kernel's machine.
-/
import GovinDos.Lib.RingBuffer
import GovinDos.Lib.Run
import GovinDos.Ring

namespace GovinDos.Channel

open RingBuffer

/-! ## 1. The loops -/

def RING_SQ_BATCH : Nat := 1024
def RING_SQ_CHUNK : Nat := 64

/-- What the rest of the kernel answers: a command its status and its arguments as it left
    them, a replay the events it posts, and whether the address is still a ring. -/
structure Answers where
  exec : List Event → Ksqe → SysResult × Nat × Nat
  replay : List Event → List Kcqe
  resolves : List Event → Bool

def Answers.still : Answers := ⟨fun _ _ => (.ok 0, 0, 0), fun _ => [], fun _ => true⟩

structure Rest where
  ring : Ring
  block : Block
  log : List Event

def Rest.system (d : Rest) (chunk : Chunk) (r : Kring) : System :=
  ⟨⟨d.ring, chunk, none⟩, d.block, r, d.log⟩

def Rest.pending (d : Rest) : Nat := (d.block.hdr.sq_tail - d.ring.sq_head).toNat

def channelPost (poster : Poster) (d : Rest) (cqe : Kcqe) : Rest :=
  if d.ring.full d.block.hdr.cq_head then d
  else
    { ring := { d.ring with cq_count := d.ring.cq_count + 1 }
      block := { d.block with
        hdr := d.block.hdr.set .cq_count (d.ring.cq_count + 1)
        cq := Function.update d.block.cq d.ring.cqSlot cqe }
      log := d.log ++ [.post poster cqe] }

def Rest.consume (d : Rest) (sqe : Ksqe) (cqe : Kcqe) : Rest where
  ring := { d.ring with sq_head := d.ring.sq_head + 1 }
  block := { d.block with hdr := d.block.hdr.set .sq_head (d.ring.sq_head + 1) }
  log := d.log ++ [.execute sqe cqe]

def runEntry (w : Answers) (d : Rest) : Rest :=
  let sqe := d.block.sq d.ring.sqSlot
  let (status, a, b) := w.exec d.log sqe
  let cqe : Kcqe := ⟨sqe.op, a, b, status⟩
  channelPost .chunk (d.consume sqe cqe) cqe

def runEntries (w : Answers) (tail : UInt32) : Nat → Rest → Rest × Nat
  | 0, d => (d, 0)
  | budget + 1, d =>
    if d.ring.sq_head = tail then (d, 0)
    else ((runEntries w tail budget (runEntry w d)).1, (runEntries w tail budget (runEntry w d)).2 + 1)

def ringRunChunk (w : Answers) (d : Rest) (budget : Nat) : Rest × Nat :=
  if d.ring.nslots < d.block.hdr.sq_tail - d.ring.sq_head then (d, 0)
  else runEntries w d.block.hdr.sq_tail budget d

def ringReplay (w : Answers) (d : Rest) : Rest := (w.replay d.log).foldl (channelPost .event) d

def drainLoop (w : Answers) : Nat → Nat → Bool → Rest → Option (SysResult × Rest)
  | 0, _, _, _ => none
  | rounds + 1, budget, first, d =>
    if w.resolves d.log then
      let chunk := if budget < RING_SQ_CHUNK then budget else RING_SQ_CHUNK
      let (d', done) := ringRunChunk w d chunk
      if done < chunk || budget - done = 0 then some (.ok 0, ringReplay w d')
      else drainLoop w rounds (budget - done) false (ringReplay w d')
    else some (if first then .error .INVAL else .ok 0, d)

def channelRingDrain (w : Answers) (d : Rest) : Option (SysResult × Rest) :=
  drainLoop w (RING_SQ_BATCH / RING_SQ_CHUNK) RING_SQ_BATCH true d

def ringUntilDrained (w : Answers) : Nat → Rest → Kring → Option (Rest × Kring)
  | 0, _, _ => none
  | doorbells + 1, d, r =>
    (channelRingDrain w d).bind fun (rc, d) => (kringWoken r d.block rc).bind fun r =>
      if r.call = .submit then ringUntilDrained w doorbells d r else some (d, r)

/-- The store of `kring_submit`, which publishes the entries the client has taken. -/
def Rest.publish (d : Rest) (r : Kring) : Rest :=
  { d with block := (kringSubmit r d.block).2, log := d.log ++ [.submit (r.taken.map d.block.sq)] }

def submitCall (w : Answers) (doorbells : Nat) (d : Rest) (r : Kring) : Option (Rest × Kring) :=
  ringUntilDrained w doorbells (d.publish r) (kringSubmit r d.block).1

variable {w : Answers} {d d' d'' : Rest} {n m : Nat} {tail : UInt32} {r : Kring}

/-! ## 2. The steps of the machine -/

def Op.IsKernel : Op → Prop
  | .kernel _ => True
  | .client _ => False

theorem submitted_append (log log' : List Event) :
    submitted (log ++ log') = submitted log ++ submitted log' := List.flatMap_append

theorem System.step_of_move {k k' : Kernel} {op : KernelOp} {access : Option Access}
    {b b' : Block} (hmove : k.Move op k' access) (hb : b.perform access = some b') (r : Kring) (log : List Event) :
    System.step ⟨k, b, r, log⟩ (.kernel op) = some ⟨k', b', r, log ++ k.events op⟩ := by
  simp only [System.step, Kernel.step_of_move hmove, Option.bind_eq_bind, Option.bind_some, hb]

def Reaches (s s' : System) : Prop := ∃ ops, Run System.step (fun _ op => op.IsKernel) s ops s'

theorem Reaches.refl (s : System) : Reaches s s := ⟨[], .nil s⟩

theorem Reaches.trans {s s' s'' : System} (h : Reaches s s') (h' : Reaches s' s'') :
    Reaches s s'' := by
  obtain ⟨ops, hrun⟩ := h
  obtain ⟨ops', hrun'⟩ := h'
  exact ⟨ops ++ ops', hrun.append hrun'⟩

theorem Reaches.head {k k' : Kernel} {op : KernelOp} {access : Option Access} {b b' : Block}
    {log : List Event} {s' : System} (hmove : k.Move op k' access)
    (hb : b.perform access = some b') (h : Reaches ⟨k', b', r, log ++ k.events op⟩ s') :
    Reaches ⟨k, b, r, log⟩ s' := by
  obtain ⟨ops, hrun⟩ := h
  exact ⟨.kernel op :: ops, .cons trivial (System.step_of_move hmove hb r log) hrun⟩

theorem Reaches.quiet {k k' : Kernel} {op : KernelOp} {access : Option Access} {b b' : Block}
    {log : List Event} {s' : System} (hmove : k.Move op k' access)
    (hb : b.perform access = some b') (hnone : k.events op = [])
    (h : Reaches ⟨k', b', r, log⟩ s') : Reaches ⟨k, b, r, log⟩ s' := by
  apply Reaches.head hmove hb
  rwa [hnone, List.append_nil]

theorem submitted_events (k : Kernel) (op : KernelOp) : submitted (k.events op) = [] := by
  unfold Kernel.events
  split
  · split <;> rfl
  · split <;> rfl
  · rfl

theorem Reaches.submitted {s s' : System} (h : Reaches s s') : submitted s'.log = submitted s.log := by
  obtain ⟨ops, hrun⟩ := h
  refine hrun.invariant (P := fun s' => Channel.submitted s'.log = Channel.submitted s.log) rfl
    fun s₁ op s₂ h₁ hop hstep => ?_
  cases op with
  | client op => cases hop
  | kernel op =>
    obtain ⟨⟨k', access⟩, -, hstep⟩ := Option.bind_eq_some_iff.mp hstep
    obtain ⟨b', -, hstep⟩ := Option.bind_eq_some_iff.mp hstep
    cases hstep
    rw [submitted_append, submitted_events, List.append_nil, h₁]

theorem perform_load (b : Block) (x : Word) :
    b.perform (some (.load x (b.hdr.get x))) = some b := by
  simp [Block.perform, Block.access]

theorem unlock_some (ring : Ring) (chunk : Chunk) (p : Post) (poster : Poster) :
    Kernel.unlock ⟨ring, chunk, some p⟩ poster = Kernel.unlock ⟨ring, chunk, none⟩ poster := by
  cases poster <;> cases chunk <;> rfl

theorem channelPost_reaches (poster : Poster) (d : Rest) (cqe : Kcqe) (chunk : Chunk) :
    Reaches ⟨⟨d.ring, chunk, some ⟨poster, cqe, .locked⟩⟩, d.block, r, d.log⟩
      ⟨Kernel.unlock ⟨(channelPost poster d cqe).ring, chunk, none⟩ poster,
        (channelPost poster d cqe).block, r, (channelPost poster d cqe).log⟩ := by
  unfold channelPost
  split
  · rename_i hfull
    refine .quiet (.full (of_decide_eq_true hfull)) (perform_load _ .cq_head) rfl ?_
    rw [unlock_some]
    exact .refl _
  · rename_i hroom
    have hlt := UInt32.not_le.mp fun hle => hroom (decide_eq_true hle)
    refine .quiet (.room hlt) (perform_load _ .cq_head) rfl (.quiet .writeCqe rfl rfl ?_)
    refine .head .storeCount rfl (.quiet .wake rfl rfl ?_)
    rw [unlock_some]
    exact .refl _

theorem runEntry_reaches {done budget : Nat} (hne : d.ring.sq_head ≠ tail) (hdone : done < budget) :
    Reaches (d.system (.loop tail done budget) r)
      ((runEntry w d).system (.loop tail (done + 1) budget) r) := by
  rcases hexec : w.exec d.log (d.block.sq d.ring.sqSlot) with ⟨status, a, b⟩
  have hcopy : d.block.perform (some (.copySqe d.ring.sqSlot (d.block.sq d.ring.sqSlot))) =
      some d.block := by
    simp [Block.perform, Block.access]
  refine .quiet (.copySqe hne hdone) hcopy rfl (.quiet .storeHead rfl rfl ?_)
  refine .head (@Kernel.Move.exec _ _ _ _ _ _ status a b) rfl (.quiet .postCompletion rfl rfl ?_)
  simp only [runEntry, hexec]
  exact channelPost_reaches .chunk (d.consume _ ⟨_, a, b, status⟩) _ (.executed tail done budget _)

theorem runEntries_reaches (budget done : Nat) (d : Rest) :
    Reaches (d.system (.loop tail done (done + budget)) r)
      ((runEntries w tail budget d).1.system .idle r) := by
  induction budget generalizing done d with
  | zero => exact .quiet (.endChunk (.inr (Nat.le_refl done))) rfl rfl (.refl _)
  | succ budget ih =>
    unfold runEntries
    split
    · rename_i heq
      exact .quiet (.endChunk (.inl heq)) rfl rfl (.refl _)
    · rename_i hne
      have hrest := ih (done + 1) (runEntry w d)
      rw [Nat.succ_add_eq_add_succ] at hrest
      exact (runEntry_reaches hne (by omega)).trans hrest

def Settles (s : System) : Prop := ∃ d : Rest, Reaches s (d.system .idle s.client)

theorem Settles.step {k k' : Kernel} {op : KernelOp} {access : Option Access} {b b' : Block}
    {log : List Event} (hmove : k.Move op k' access) (hb : b.perform access = some b')
    (h : Settles ⟨k', b', r, log ++ k.events op⟩) : Settles ⟨k, b, r, log⟩ := by
  obtain ⟨d, hreach⟩ := h
  exact ⟨d, .head hmove hb hreach⟩

theorem settles_post {chunk : Chunk} {poster : Poster}
    (hunlocked : ∀ ring b log, Settles ⟨Kernel.unlock ⟨ring, chunk, none⟩ poster, b, r, log⟩)
    (ring : Ring) (cqe : Kcqe) (stage : Stage) (b : Block) (log : List Event) :
    Settles ⟨⟨ring, chunk, some ⟨poster, cqe, stage⟩⟩, b, r, log⟩ := by
  have hstored (ring : Ring) (b : Block) (log : List Event) :
      Settles ⟨⟨ring, chunk, some ⟨poster, cqe, .stored⟩⟩, b, r, log⟩ := by
    refine .step .wake rfl ?_
    rw [unlock_some]
    exact hunlocked _ _ _
  have hwritten (b : Block) (log : List Event) :
      Settles ⟨⟨ring, chunk, some ⟨poster, cqe, .written⟩⟩, b, r, log⟩ :=
    .step .storeCount rfl (hstored _ _ _)
  have hroom (log : List Event) : Settles ⟨⟨ring, chunk, some ⟨poster, cqe, .room⟩⟩, b, r, log⟩ :=
    .step .writeCqe rfl (hwritten _ _)
  cases stage with
  | locked =>
    by_cases hfull : ring.nslots ≤ ring.cq_count - b.hdr.cq_head
    · refine .step (.full hfull) (perform_load _ .cq_head) ?_
      rw [unlock_some]
      exact hunlocked _ _ _
    · exact .step (.room (UInt32.not_le.mp hfull)) (perform_load _ .cq_head) (hroom _)
  | room => exact hroom log
  | written => exact hwritten b log
  | stored => exact hstored ring b log

theorem settles_chunk (ring : Ring) (chunk : Chunk) (b : Block) (log : List Event) :
    Settles ⟨⟨ring, chunk, none⟩, b, r, log⟩ := by
  have hloop (ring : Ring) (tail : UInt32) (done budget : Nat) (b : Block) (log : List Event) :
      Settles ⟨⟨ring, .loop tail done budget, none⟩, b, r, log⟩ := by
    by_cases hle : done ≤ budget
    · obtain ⟨left, rfl⟩ := Nat.exists_eq_add_of_le hle
      exact ⟨_, runEntries_reaches (w := .still) left done ⟨ring, b, log⟩⟩
    · exact .step (.endChunk (.inr (Nat.le_of_not_le hle))) rfl ⟨⟨ring, b, _⟩, .refl _⟩
  have hexecuted (ring : Ring) (tail : UInt32) (done budget : Nat) (cqe : Kcqe) (b : Block)
      (log : List Event) : Settles ⟨⟨ring, .executed tail done budget cqe, none⟩, b, r, log⟩ := by
    refine .step .postCompletion rfl (settles_post (fun ring b log => ?_) _ _ _ _ _)
    exact hloop ring tail (done + 1) budget b log
  have hfetched (ring : Ring) (tail : UInt32) (done budget : Nat) (sqe : Ksqe) (b : Block)
      (log : List Event) : Settles ⟨⟨ring, .fetched tail done budget sqe, none⟩, b, r, log⟩ :=
    .step (@Kernel.Move.exec _ _ _ _ _ _ (.ok 0) 0 0) rfl (hexecuted _ _ _ _ _ _ _)
  cases chunk with
  | idle => exact ⟨⟨ring, b, log⟩, .refl _⟩
  | loop tail done budget => exact hloop ring tail done budget b log
  | copied tail done budget sqe => exact .step .storeHead rfl (hfetched _ _ _ _ _ _ _)
  | fetched tail done budget sqe => exact hfetched ring tail done budget sqe b log
  | executed tail done budget cqe => exact hexecuted ring tail done budget cqe b log

theorem settles (s : System) : Settles s := by
  obtain ⟨⟨ring, chunk, post⟩, b, r, log⟩ := s
  cases post with
  | none => exact settles_chunk ring chunk b log
  | some p =>
    refine settles_post (fun ring b log => ?_) ring p.cqe p.stage b log
    rcases Kernel.unlock_spec ring chunk none p.poster with heq | ⟨tail, done, budget, _, -, heq⟩
    · rw [heq]
      exact settles_chunk _ _ _ _
    · rw [heq]
      exact settles_chunk _ _ _ _

/-! ## 3. What they consume -/

structure Consumes (n : Nat) (d d' : Rest) : Prop where
  head : d'.ring.sq_head = d.ring.sq_head + UInt32.ofNat n
  nslots : d'.ring.nslots = d.ring.nslots
  tail : d'.block.hdr.sq_tail = d.block.hdr.sq_tail
  mirror : d.block.hdr.sq_head = d.ring.sq_head → d'.block.hdr.sq_head = d'.ring.sq_head
  executed : (executed d'.log).length = (executed d.log).length + n
  submitted : submitted d'.log = submitted d.log

structure Drains (n : Nat) (d d' : Rest) : Prop extends Consumes n d d' where
  reaches : ∀ r, Reaches (d.system .idle r) (d'.system .idle r)

theorem Consumes.refl (d : Rest) : Consumes 0 d d :=
  ⟨(UInt32.add_zero _).symm, rfl, rfl, id, rfl, rfl⟩

theorem Consumes.trans (h : Consumes n d d') (h' : Consumes m d' d'') : Consumes (n + m) d d'' where
  head := by rw [h'.head, h.head, UInt32.ofNat_add, UInt32.add_assoc]
  nslots := h'.nslots.trans h.nslots
  tail := h'.tail.trans h.tail
  mirror hm := h'.mirror (h.mirror hm)
  executed := by rw [h'.executed, h.executed, Nat.add_assoc]
  submitted := h'.submitted.trans h.submitted

theorem Drains.trans (h : Drains n d d') (h' : Drains m d' d'') : Drains (n + m) d d'' :=
  ⟨h.toConsumes.trans h'.toConsumes, fun r => (h.reaches r).trans (h'.reaches r)⟩

theorem Consumes.pending (h : Consumes n d d') (hn : n ≤ d.pending) :
    d'.pending = d.pending - n := by
  rw [Rest.pending, h.tail, h.head, toNat_sub_add hn]
  rfl

theorem channelPost_consumes (poster : Poster) (d : Rest) (cqe : Kcqe) :
    Consumes 0 d (channelPost poster d cqe) := by
  unfold channelPost
  split
  · exact .refl d
  · exact ⟨(UInt32.add_zero _).symm, rfl, rfl, id, by simp [executed], by simp [submitted]⟩

theorem ringReplay_drains (w : Answers) (d : Rest) : Drains 0 d (ringReplay w d) := by
  unfold ringReplay
  generalize w.replay d.log = events
  induction events generalizing d with
  | nil => exact ⟨.refl d, fun _ => .refl _⟩
  | cons cqe events ih =>
    refine Drains.trans ⟨channelPost_consumes .event d cqe, fun r => ?_⟩ (ih _)
    exact .quiet .postEvent rfl rfl (channelPost_reaches .event d cqe .idle)

theorem runEntry_consumes (w : Answers) (d : Rest) : Consumes 1 d (runEntry w d) := by
  have hentry (sqe : Ksqe) (cqe : Kcqe) : Consumes 1 d (d.consume sqe cqe) :=
    ⟨rfl, rfl, rfl, fun _ => rfl, by simp [Rest.consume, executed], by simp [Rest.consume, submitted]⟩
  exact (hentry _ _).trans (channelPost_consumes ..)

theorem runEntries_consumes (budget : Nat) (d : Rest) :
    (runEntries w tail budget d).2 = min (tail - d.ring.sq_head).toNat budget ∧
      Consumes (min (tail - d.ring.sq_head).toNat budget) d (runEntries w tail budget d).1 := by
  induction budget generalizing d with
  | zero => exact ⟨(Nat.min_zero _).symm, (Nat.min_zero _).symm ▸ .refl d⟩
  | succ budget ih =>
    unfold runEntries
    split
    · rename_i heq
      rw [heq, UInt32.sub_self, UInt32.toNat_zero, Nat.zero_min]
      exact ⟨rfl, .refl d⟩
    · rename_i hne
      have hone := runEntry_consumes w d
      obtain ⟨hdone, hrest⟩ := ih (runEntry w d)
      have hsucc := toNat_sub_succ hne
      have hhead : (runEntry w d).ring.sq_head = d.ring.sq_head + 1 := hone.head
      rw [hhead] at hdone hrest
      have hmin : 1 + min (tail - (d.ring.sq_head + 1)).toNat budget =
          min (tail - d.ring.sq_head).toNat (budget + 1) := by omega
      exact ⟨by rw [hdone, ← hmin, Nat.add_comm], hmin ▸ hone.trans hrest⟩

theorem ringRunChunk_drains (w : Answers) (budget : Nat) (h : d.pending ≤ d.ring.nslots.toNat) :
    (ringRunChunk w d budget).2 = min d.pending budget ∧
      Drains (min d.pending budget) d (ringRunChunk w d budget).1 := by
  have hhonest := UInt32.le_iff_toNat_le.mpr h
  unfold ringRunChunk
  rw [if_neg (UInt32.not_lt.mpr hhonest)]
  obtain ⟨hdone, hcons⟩ := runEntries_consumes (w := w) budget d
  refine ⟨hdone, hcons, fun r => ?_⟩
  have hloop : Reaches (d.system (.loop d.block.hdr.sq_tail 0 (0 + budget)) r) _ :=
    runEntries_reaches (w := w) budget 0 d
  rw [Nat.zero_add] at hloop
  exact .quiet (.runChunk hhonest) (perform_load _ .sq_tail) rfl hloop

theorem drainLoop_drains (hw : ∀ log, w.resolves log = true) {rounds : Nat} (budget : Nat)
    (first : Bool) (d : Rest) (hpos : 0 < rounds) (hbudget : budget ≤ RING_SQ_CHUNK * rounds)
    (h : d.pending ≤ d.ring.nslots.toNat) :
    ∃ d', drainLoop w rounds budget first d = some (.ok 0, d') ∧
      Drains (min d.pending budget) d d' := by
  induction rounds generalizing budget first d with
  | zero => exact absurd hpos (Nat.lt_irrefl 0)
  | succ rounds ih =>
    unfold drainLoop
    rw [if_pos (hw d.log)]
    generalize hchunk : (if budget < RING_SQ_CHUNK then budget else RING_SQ_CHUNK) = chunk
    have hle : chunk ≤ budget ∧ (chunk = budget ∨ chunk = RING_SQ_CHUNK) := by
      rw [← hchunk]
      split <;> omega
    obtain ⟨hdone, hrun⟩ := ringRunChunk_drains w chunk h
    have hfirst := hrun.trans (ringReplay_drains w _)
    simp only [hdone, Bool.or_eq_true, decide_eq_true_eq]
    split
    · -- the chunk came back short, or it was the last of the budget
      have hall : min d.pending chunk + 0 = min d.pending budget := by omega
      exact ⟨_, rfl, hall ▸ hfirst⟩
    · have hfull : min d.pending chunk = chunk := by omega
      rw [Nat.mul_succ] at hbudget
      have hrounds : 0 < rounds := by
        apply Nat.pos_of_ne_zero
        rintro rfl
        omega
      rw [hfull] at hfirst ⊢
      have hpending := hfirst.pending (by omega)
      obtain ⟨d', hloop, hrest⟩ := ih (budget - chunk) false
        (ringReplay w (ringRunChunk w d chunk).1) hrounds (by omega)
        (by rw [hpending, hfirst.nslots]; omega)
      rw [hpending] at hrest
      have hall : chunk + 0 + min (d.pending - (chunk + 0)) (budget - chunk) =
          min d.pending budget := by omega
      exact ⟨d', hloop, hall ▸ hfirst.trans hrest⟩

theorem channelRingDrain_drains (hw : ∀ log, w.resolves log = true)
    (h : d.pending ≤ d.ring.nslots.toNat) : ∃ d', channelRingDrain w d = some (.ok 0, d') ∧
      Drains (min d.pending RING_SQ_BATCH) d d' :=
  drainLoop_drains hw RING_SQ_BATCH true d (by decide) (by decide) h

/-! ## 4. A submission -/

theorem ringUntilDrained_drains (hw : ∀ log, w.resolves log = true) {doorbells : Nat} (d : Rest)
    (hpos : 0 < doorbells) (hbound : d.pending ≤ RING_SQ_BATCH * doorbells)
    (h : d.pending ≤ d.ring.nslots.toNat) (hmirror : d.block.hdr.sq_head = d.ring.sq_head)
    (hcall : r.call = .submit) (htail : r.sq_tail = d.block.hdr.sq_tail) :
    ∃ d', ringUntilDrained w doorbells d r = some (d', { r with call := .none }) ∧
      Drains d.pending d d' := by
  induction doorbells generalizing d with
  | zero => exact absurd hpos (Nat.lt_irrefl 0)
  | succ doorbells ih =>
    obtain ⟨d₁, hdrain, hfirst⟩ := channelRingDrain_drains hw h
    have hpending := hfirst.pending (Nat.min_le_left _ _)
    have hmirror₁ := hfirst.mirror hmirror
    have htail₁ : r.sq_tail = d₁.block.hdr.sq_tail := htail.trans hfirst.tail.symm
    have hcaught : d₁.block.hdr.sq_head = r.sq_tail ↔ d₁.pending = 0 := by
      rw [hmirror₁, htail₁, Rest.pending, toNat_sub_eq_zero]
    unfold ringUntilDrained
    simp only [hdrain, Option.bind_some, kringWoken, hcall]
    by_cases hz : d₁.pending = 0
    · have hall : min d.pending RING_SQ_BATCH = d.pending := by omega
      refine ⟨d₁, ?_, hall ▸ hfirst⟩
      simp [hcaught.mpr hz]
    · have hlarge : min d.pending RING_SQ_BATCH = RING_SQ_BATCH := by omega
      rw [Nat.mul_succ] at hbound
      have hdoorbells : 0 < doorbells := by
        apply Nat.pos_of_ne_zero
        rintro rfl
        omega
      obtain ⟨d', hloop, hrest⟩ := ih d₁ hdoorbells (by omega)
        (by rw [hpending, hfirst.nslots]; omega) hmirror₁ htail₁
      refine ⟨d', ?_, ?_⟩
      · simp [mt hcaught.mp hz, hcall, hloop, Except.toBool]
      · have hall := hfirst.trans hrest
        rwa [hpending, Nat.add_sub_cancel' (Nat.min_le_left _ _)] at hall

theorem submitCall_drains (hw : ∀ log, w.resolves log = true)
    (hmirror : d.block.hdr.sq_head = d.ring.sq_head)
    (h : (d.publish r).pending ≤ d.ring.nslots.toNat) :
    ∃ d', submitCall w ((d.publish r).pending / RING_SQ_BATCH + 1) d r =
        some (d', { r with call := .none, taken := [] }) ∧
      Drains (d.publish r).pending (d.publish r) d' ∧ d'.pending = 0 ∧
      d'.block.hdr.sq_head = r.sq_tail := by
  have hbound := Nat.le_of_lt (Nat.lt_mul_div_succ (d.publish r).pending
    (show 0 < RING_SQ_BATCH by decide))
  obtain ⟨d', hloop, hdrains⟩ := ringUntilDrained_drains (r := (kringSubmit r d.block).1)
    hw (d.publish r) (Nat.succ_pos _) hbound h hmirror rfl rfl
  have hzero : d'.pending = 0 := by
    rw [hdrains.pending (Nat.le_refl _), Nat.sub_self]
  refine ⟨d', hloop, hdrains, hzero, (hdrains.mirror hmirror).trans ?_⟩
  exact (toNat_sub_eq_zero.mp hzero).trans hdrains.tail

end GovinDos.Channel
