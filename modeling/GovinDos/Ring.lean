/-
  **Kernel rings (`kernel/src/channel.c`) and their client library
  (`packages/gdoslib-dev/kring.c`).**

  A ring block starts with a header of four 32-bit indices; `nslots` submissions and `nslots`
  completions follow.  The kernel keeps its own `sq_head` and `cq_count` and only mirrors
  them into the block; the client keeps shadows of `sq_tail` and `cq_head`.

  Both sides are machines that touch the block at most once a step.  What a load of the
  kernel returns comes with its step; `System` puts the kernel together with a block and with
  a client that keeps to the library.  `g_umem` admits one chunk at a time, `cq_lock` one
  post; chunks and posts are otherwise free to interleave.
-/
import GovinDos.Abi
import Mathlib

namespace GovinDos.Channel

/-! ## 1. The block -/

structure Kcqe where
  type : Nat
  a : Nat
  b : Nat
  status : SysResult
deriving DecidableEq, Repr

def KRING_HDR_SIZE : Nat := 64

def KRING_ENTRY_SIZE : Nat := 32

def KRING_NSLOTS (order : Nat) : UInt32 := UInt32.ofNat (32 * 2 ^ order)

inductive Word
  | cq_count
  | cq_head
  | sq_head
  | sq_tail
deriving DecidableEq, Repr

def Word.off : Word → Nat
  | .cq_count => 0
  | .cq_head => 4
  | .sq_head => 8
  | .sq_tail => 12

/-- One access to the block: an index, a submission copied out of its slot, or a
    completion written into its slot. -/
inductive Access
  | load (w : Word) (v : UInt32)
  | store (w : Word) (v : UInt32)
  | copySqe (slot : Nat) (sqe : Ksqe)
  | writeCqe (slot : Nat) (cqe : Kcqe)
deriving DecidableEq, Repr

/-! ## 2. The kernel's side -/

structure Ring where
  nslots : UInt32
  sq_head : UInt32
  cq_count : UInt32
deriving DecidableEq, Repr

/-- Where `ring_run_chunk` is: outside, at its loop head, with an entry copied, given
    back, executed. -/
inductive Chunk
  | idle
  | loop (tail : UInt32) (done budget : Nat)
  | copied (tail : UInt32) (done budget : Nat) (sqe : Ksqe)
  | fetched (tail : UInt32) (done budget : Nat) (sqe : Ksqe)
  | executed (tail : UInt32) (done budget : Nat) (cqe : Kcqe)
deriving DecidableEq, Repr

/-- Who holds `cq_lock`: the chunk for a completion, or any CPU for an event. -/
inductive Poster
  | chunk
  | event
deriving DecidableEq, Repr

/-- Where `ring_post_locked` is: before its load, room found, slot written, count
    published. -/
inductive Stage
  | locked
  | room
  | written
  | stored
deriving DecidableEq, Repr

structure Post where
  poster : Poster
  cqe : Kcqe
  stage : Stage
deriving DecidableEq, Repr

structure Kernel where
  ring : Ring
  chunk : Chunk
  post : Option Post
deriving DecidableEq, Repr

/-- The steps of a chunk, with what their loads return and what `scheme_exec` answers.
    -/
inductive ChunkOp
  | runChunk (budget : Nat) (tail : UInt32)
  | copySqe (sqe : Ksqe)
  | storeHead
  | exec (status : SysResult) (a b : Nat)
  | postCompletion
  | endChunk
deriving DecidableEq, Repr

inductive PostOp
  | loadConsumed (consumed : UInt32)
  | writeCqe
  | storeCount
  | wake
deriving DecidableEq, Repr

/-- `cqeConsumed` is the load of `cqe_consumed`, with which a scheme retires an event. -/
inductive KernelOp
  | chunk (op : ChunkOp)
  | postEvent (cqe : Kcqe)
  | post (op : PostOp)
  | cqeConsumed (consumed : UInt32)
deriving DecidableEq, Repr

def Ring.full (ring : Ring) (consumed : UInt32) : Bool := ring.nslots ≤ ring.cq_count - consumed

def Ring.sqSlot (ring : Ring) : Nat := (ring.sq_head % ring.nslots).toNat
def Ring.cqSlot (ring : Ring) : Nat := (ring.cq_count % ring.nslots).toNat

def Ring.more (ring : Ring) (tail : UInt32) (done budget : Nat) : Bool :=
  ring.sq_head ≠ tail && done < budget

/-- `channel_post` returns; a chunk goes on to its next entry, whatever the result. -/
def Kernel.unlock (k : Kernel) (poster : Poster) : Kernel :=
  match poster, k.chunk with
  | .chunk, .executed tail done budget _ =>
    { k with post := none, chunk := .loop tail (done + 1) budget }
  | _, _ => { k with post := none }

def Kernel.chunkStep (k : Kernel) : ChunkOp → Option (Kernel × Option Access)
  | .runChunk budget tail =>
    match k.chunk with
    | .idle =>
      -- a lying tail: the drain completes nothing
      if k.ring.nslots < tail - k.ring.sq_head then some (k, some (.load .sq_tail tail))
      else some ({ k with chunk := .loop tail 0 budget }, some (.load .sq_tail tail))
    | _ => none
  | .copySqe sqe =>
    match k.chunk with
    | .loop tail done budget =>
      if k.ring.more tail done budget then
        some ({ k with chunk := .copied tail done budget sqe }, some (.copySqe k.ring.sqSlot sqe))
      else none
    | _ => none
  | .storeHead =>
    match k.chunk with
    | .copied tail done budget sqe =>
      some ({ k with ring := { k.ring with sq_head := k.ring.sq_head + 1 },
                     chunk := .fetched tail done budget sqe },
        some (.store .sq_head (k.ring.sq_head + 1)))
    | _ => none
  | .exec status a b =>
    match k.chunk with
    | .fetched tail done budget sqe =>
      some ({ k with chunk := .executed tail done budget ⟨sqe.op, a, b, status⟩ }, none)
    | _ => none
  | .postCompletion =>
    match k.chunk, k.post with
    | .executed _ _ _ cqe, none => some ({ k with post := some ⟨.chunk, cqe, .locked⟩ }, none)
    | _, _ => none
  | .endChunk =>
    match k.chunk with
    | .loop tail done budget =>
      if k.ring.more tail done budget then none else some ({ k with chunk := .idle }, none)
    | _ => none

def Kernel.postStep (k : Kernel) (p : Post) : PostOp → Option (Kernel × Option Access)
  | .loadConsumed consumed =>
    if p.stage = .locked then
      if k.ring.full consumed then some (k.unlock p.poster, some (.load .cq_head consumed))
      else some ({ k with post := some { p with stage := .room } }, some (.load .cq_head consumed))
    else none
  | .writeCqe =>
    if p.stage = .room then
      some ({ k with post := some { p with stage := .written } },
        some (.writeCqe k.ring.cqSlot p.cqe))
    else none
  | .storeCount =>
    if p.stage = .written then
      some ({ k with ring := { k.ring with cq_count := k.ring.cq_count + 1 },
                     post := some { p with stage := .stored } },
        some (.store .cq_count (k.ring.cq_count + 1)))
    else none
  | .wake => if p.stage = .stored then some (k.unlock p.poster, none) else none

def Kernel.postEvent (k : Kernel) (cqe : Kcqe) : Option (Kernel × Option Access) :=
  match k.post with
  | none => some ({ k with post := some ⟨.event, cqe, .locked⟩ }, none)
  | some _ => none

def Kernel.step (k : Kernel) : KernelOp → Option (Kernel × Option Access)
  | .chunk op => k.chunkStep op
  | .postEvent cqe => k.postEvent cqe
  | .post op => k.post.bind fun p => k.postStep p op
  | .cqeConsumed consumed => some (k, some (.load .cq_head consumed))

/-- The endpoint `channel_scheme_create` makes for a block of the given order. -/
def Kernel.create (order : Nat) : Kernel := ⟨⟨KRING_NSLOTS order, 0, 0⟩, .idle, none⟩

theorem Kernel.unlock_spec (ring : Ring) (chunk : Chunk) (post : Option Post) (poster : Poster) :
    Kernel.unlock ⟨ring, chunk, post⟩ poster = ⟨ring, chunk, none⟩ ∨
      ∃ tail done budget cqe, chunk = .executed tail done budget cqe ∧
        Kernel.unlock ⟨ring, chunk, post⟩ poster = ⟨ring, .loop tail (done + 1) budget, none⟩ := by
  cases poster with
  | event => exact .inl rfl
  | chunk =>
    cases chunk with
    | executed tail done budget cqe => exact .inr ⟨tail, done, budget, cqe, rfl, rfl⟩
    | _ => exact .inl rfl

theorem Kernel.unlock_ring (k : Kernel) (poster : Poster) : (k.unlock poster).ring = k.ring := by
  rcases Kernel.unlock_spec k.ring k.chunk k.post poster with heq | ⟨_, _, _, _, -, heq⟩
  · exact (congrArg Kernel.ring heq :)
  · exact (congrArg Kernel.ring heq :)

inductive Kernel.Move : Kernel → KernelOp → Kernel → Option Access → Prop
  | lying {ring : Ring} {post : Option Post} {budget : Nat} {tail : UInt32}
      (h : ring.nslots < tail - ring.sq_head) :
      Move ⟨ring, .idle, post⟩ (.chunk (.runChunk budget tail)) ⟨ring, .idle, post⟩
        (some (.load .sq_tail tail))
  | runChunk {ring : Ring} {post : Option Post} {budget : Nat} {tail : UInt32}
      (h : tail - ring.sq_head ≤ ring.nslots) :
      Move ⟨ring, .idle, post⟩ (.chunk (.runChunk budget tail)) ⟨ring, .loop tail 0 budget, post⟩
        (some (.load .sq_tail tail))
  | copySqe {ring : Ring} {post : Option Post} {tail : UInt32} {done budget : Nat} {sqe : Ksqe}
      (hne : ring.sq_head ≠ tail) (hdone : done < budget) :
      Move ⟨ring, .loop tail done budget, post⟩ (.chunk (.copySqe sqe))
        ⟨ring, .copied tail done budget sqe, post⟩ (some (.copySqe ring.sqSlot sqe))
  | storeHead {ring : Ring} {post : Option Post} {tail : UInt32} {done budget : Nat} {sqe : Ksqe} :
      Move ⟨ring, .copied tail done budget sqe, post⟩ (.chunk .storeHead)
        ⟨{ ring with sq_head := ring.sq_head + 1 }, .fetched tail done budget sqe, post⟩
        (some (.store .sq_head (ring.sq_head + 1)))
  | exec {ring : Ring} {post : Option Post} {tail : UInt32} {done budget : Nat} {sqe : Ksqe}
      {status : SysResult} {a b : Nat} :
      Move ⟨ring, .fetched tail done budget sqe, post⟩ (.chunk (.exec status a b))
        ⟨ring, .executed tail done budget ⟨sqe.op, a, b, status⟩, post⟩ none
  | postCompletion {ring : Ring} {tail : UInt32} {done budget : Nat} {cqe : Kcqe} :
      Move ⟨ring, .executed tail done budget cqe, none⟩ (.chunk .postCompletion)
        ⟨ring, .executed tail done budget cqe, some ⟨.chunk, cqe, .locked⟩⟩ none
  | endChunk {ring : Ring} {post : Option Post} {tail : UInt32} {done budget : Nat}
      (h : ring.sq_head = tail ∨ budget ≤ done) :
      Move ⟨ring, .loop tail done budget, post⟩ (.chunk .endChunk) ⟨ring, .idle, post⟩ none
  | postEvent {ring : Ring} {chunk : Chunk} {cqe : Kcqe} :
      Move ⟨ring, chunk, none⟩ (.postEvent cqe) ⟨ring, chunk, some ⟨.event, cqe, .locked⟩⟩ none
  | full {ring : Ring} {chunk : Chunk} {poster : Poster} {cqe : Kcqe} {consumed : UInt32}
      (h : ring.nslots ≤ ring.cq_count - consumed) :
      Move ⟨ring, chunk, some ⟨poster, cqe, .locked⟩⟩ (.post (.loadConsumed consumed))
        (Kernel.unlock ⟨ring, chunk, some ⟨poster, cqe, .locked⟩⟩ poster)
        (some (.load .cq_head consumed))
  | room {ring : Ring} {chunk : Chunk} {poster : Poster} {cqe : Kcqe} {consumed : UInt32}
      (h : ring.cq_count - consumed < ring.nslots) :
      Move ⟨ring, chunk, some ⟨poster, cqe, .locked⟩⟩ (.post (.loadConsumed consumed))
        ⟨ring, chunk, some ⟨poster, cqe, .room⟩⟩ (some (.load .cq_head consumed))
  | writeCqe {ring : Ring} {chunk : Chunk} {poster : Poster} {cqe : Kcqe} :
      Move ⟨ring, chunk, some ⟨poster, cqe, .room⟩⟩ (.post .writeCqe)
        ⟨ring, chunk, some ⟨poster, cqe, .written⟩⟩ (some (.writeCqe ring.cqSlot cqe))
  | storeCount {ring : Ring} {chunk : Chunk} {poster : Poster} {cqe : Kcqe} :
      Move ⟨ring, chunk, some ⟨poster, cqe, .written⟩⟩ (.post .storeCount)
        ⟨{ ring with cq_count := ring.cq_count + 1 }, chunk, some ⟨poster, cqe, .stored⟩⟩
        (some (.store .cq_count (ring.cq_count + 1)))
  | wake {ring : Ring} {chunk : Chunk} {poster : Poster} {cqe : Kcqe} :
      Move ⟨ring, chunk, some ⟨poster, cqe, .stored⟩⟩ (.post .wake)
        (Kernel.unlock ⟨ring, chunk, some ⟨poster, cqe, .stored⟩⟩ poster) none
  | cqeConsumed {k : Kernel} {consumed : UInt32} :
      Move k (.cqeConsumed consumed) k (some (.load .cq_head consumed))

theorem Kernel.move_of_chunkStep {k k' : Kernel} {op : ChunkOp} {access : Option Access}
    (h : k.chunkStep op = some (k', access)) : k.Move (.chunk op) k' access := by
  obtain ⟨ring, chunk, post⟩ := k
  cases op with
  | runChunk budget tail =>
    cases chunk with
    | idle =>
      simp only [chunkStep] at h
      split at h <;> cases h
      · exact .lying ‹_›
      · exact .runChunk (UInt32.not_lt.mp ‹_›)
    | _ => cases h
  | copySqe sqe =>
    cases chunk with
    | loop tail done budget =>
      simp only [chunkStep, Ring.more, Bool.and_eq_true, decide_eq_true_eq] at h
      split at h <;> cases h
      rename_i hmore
      exact .copySqe hmore.1 hmore.2
    | _ => cases h
  | storeHead =>
    cases chunk with
    | copied tail done budget sqe =>
      cases h
      exact .storeHead
    | _ => cases h
  | exec status a b =>
    cases chunk with
    | fetched tail done budget sqe =>
      cases h
      exact .exec
    | _ => cases h
  | postCompletion =>
    cases chunk with
    | executed tail done budget cqe =>
      cases post with
      | none =>
        cases h
        exact .postCompletion
      | some p => cases h
    | _ => cases h
  | endChunk =>
    cases chunk with
    | loop tail done budget =>
      simp only [chunkStep, Ring.more, Bool.and_eq_true, decide_eq_true_eq] at h
      split at h <;> cases h
      rename_i hmore
      rcases Decidable.not_and_iff_or_not.mp hmore with heq | hdone
      · exact .endChunk (.inl (not_not.mp heq))
      · exact .endChunk (.inr (Nat.le_of_not_lt hdone))
    | _ => cases h

theorem Kernel.move_of_postStep {ring : Ring} {chunk : Chunk} {p : Post} {k' : Kernel} {op : PostOp}
    {access : Option Access} (h : Kernel.postStep ⟨ring, chunk, some p⟩ p op = some (k', access)) :
    Kernel.Move ⟨ring, chunk, some p⟩ (.post op) k' access := by
  obtain ⟨poster, cqe, stage⟩ := p
  cases op with
  | loadConsumed consumed =>
    cases stage with
    | locked =>
      simp only [postStep, if_pos, Ring.full, decide_eq_true_eq] at h
      split at h <;> cases h
      · exact .full ‹_›
      · exact .room (UInt32.not_le.mp ‹_›)
    | _ => cases h
  | writeCqe =>
    cases stage with
    | room =>
      cases h
      exact .writeCqe
    | _ => cases h
  | storeCount =>
    cases stage with
    | written =>
      cases h
      exact .storeCount
    | _ => cases h
  | wake =>
    cases stage with
    | stored =>
      cases h
      exact .wake
    | _ => cases h

theorem Kernel.move_of_step {k k' : Kernel} {op : KernelOp} {access : Option Access}
    (h : k.step op = some (k', access)) : k.Move op k' access := by
  cases op with
  | chunk op => exact move_of_chunkStep h
  | postEvent cqe =>
    obtain ⟨ring, chunk, post⟩ := k
    cases post with
    | none =>
      cases h
      exact .postEvent
    | some p => cases h
  | post op =>
    obtain ⟨ring, chunk, post⟩ := k
    cases post with
    | none => cases h
    | some p => exact move_of_postStep h
  | cqeConsumed consumed =>
    cases h
    exact .cqeConsumed

theorem Kernel.step_of_move {k k' : Kernel} {op : KernelOp} {access : Option Access}
    (h : k.Move op k' access) : k.step op = some (k', access) := by
  cases h with
  | lying h => simp [step, chunkStep, h]
  | runChunk h => simp [step, chunkStep, UInt32.not_lt.mpr h]
  | copySqe hne hdone => simp [step, chunkStep, Ring.more, hne, hdone]
  | endChunk h =>
    rcases h with heq | hdone
    · simp [step, chunkStep, Ring.more, heq]
    · simp [step, chunkStep, Ring.more, Nat.not_lt.mpr hdone]
  | full h => simp [step, postStep, Ring.full, h]
  | room h => simp [step, postStep, Ring.full, UInt32.not_le.mpr h]
  | _ => rfl

/-! ## 3. The client's side -/

structure Header where
  cq_count : UInt32
  cq_head : UInt32
  sq_head : UInt32
  sq_tail : UInt32
deriving DecidableEq, Repr

def Header.get (h : Header) : Word → UInt32
  | .cq_count => h.cq_count
  | .cq_head => h.cq_head
  | .sq_head => h.sq_head
  | .sq_tail => h.sq_tail

def Header.set (h : Header) (w : Word) (v : UInt32) : Header :=
  match w with
  | .cq_count => { h with cq_count := v }
  | .cq_head => { h with cq_head := v }
  | .sq_head => { h with sq_head := v }
  | .sq_tail => { h with sq_tail := v }

structure Block where
  hdr : Header
  sq : Nat → Ksqe
  cq : Nat → Kcqe

def Block.access (b : Block) : Access → Option Block
  | .load w v => if b.hdr.get w = v then some b else none
  | .store w v => some { b with hdr := b.hdr.set w v }
  | .copySqe slot sqe => if b.sq slot = sqe then some b else none
  | .writeCqe slot cqe => some { b with cq := Function.update b.cq slot cqe }

/-- The library call the client is in: after the store of `kring_submit` or `kring_ack`,
    or in `kring_wait_cqe`. -/
inductive Call
  | none
  | submit
  | ack
  | wait
  | copy
  | park
deriving DecidableEq, Repr

/-- `struct kring`, with the slots of the entries the client took and did not submit
    yet, and whether the last peek is still to be marked seen. -/
structure Kring where
  nslots : UInt32
  sq_tail : UInt32
  cq_head : UInt32
  call : Call
  taken : List Nat
  peeked : Bool
deriving DecidableEq, Repr

inductive Event
  | submit (sqes : List Ksqe)
  | execute (sqe : Ksqe) (cqe : Kcqe)
  | post (poster : Poster) (cqe : Kcqe)
  | read (cqe : Kcqe)
  | ack
deriving DecidableEq, Repr

inductive ClientOp
  | getSqe
  | fill (slot : Nat) (sqe : Ksqe)
  | submit
  | peek
  | seen
  | wait
  | waitPeek
  | waitCopy
  | ack
  | woken (rc : SysResult)
deriving DecidableEq, Repr

def kringGetSqe (r : Kring) (b : Block) : Kring :=
  if r.nslots ≤ r.sq_tail - b.hdr.sq_head then r
  else { r with sq_tail := r.sq_tail + 1, taken := r.taken ++ [(r.sq_tail % r.nslots).toNat] }

def kringPeekCqe (r : Kring) (b : Block) : Option Nat :=
  if b.hdr.cq_count = r.cq_head then none else some (r.cq_head % r.nslots).toNat

def kringCqeSeen (r : Kring) : Kring := { r with cq_head := r.cq_head + 1, peeked := false }

def kringSubmit (r : Kring) (b : Block) : Kring × Block :=
  ({ r with call := .submit, taken := [] }, { b with hdr := b.hdr.set .sq_tail r.sq_tail })

def kringAck (r : Kring) (b : Block) : Kring × Block :=
  ({ r with call := .ack }, { b with hdr := b.hdr.set .cq_head r.cq_head })

/-- What follows a system call.  `kring_submit` rings again until the mirror has
    caught up; `kring_wait_cqe` looks again unless the call failed. -/
def kringWoken (r : Kring) (b : Block) (rc : SysResult) : Option Kring :=
  match r.call with
  | .submit =>
    if rc.toBool && b.hdr.sq_head ≠ r.sq_tail then some r else some { r with call := .none }
  | .ack => some { r with call := .none }
  | .park =>
    if rc = .ok 0 ∨ rc = .error .AGAIN then some { r with call := .wait }
    else some { r with call := .none }
  | _ => none

def Kring.current (r : Kring) (b : Block) : Kcqe := b.cq (r.cq_head % r.nslots).toNat

def Kring.step (r : Kring) (b : Block) : ClientOp → Option (Kring × Block × List Event)
  | .getSqe => if r.call = .none then some (kringGetSqe r b, b, []) else none
  | .fill slot sqe =>
    if r.call = .none ∧ slot ∈ r.taken then
      some (r, { b with sq := Function.update b.sq slot sqe }, [])
    else none
  | .submit =>
    if r.call = .none then
      some ((kringSubmit r b).1, (kringSubmit r b).2, [.submit (r.taken.map b.sq)])
    else none
  | .peek =>
    if r.call = .none then some ({ r with peeked := (kringPeekCqe r b).isSome }, b, []) else none
  | .seen =>
    if r.call = .none ∧ r.peeked then some (kringCqeSeen r, b, [.read (r.current b)]) else none
  | .wait => if r.call = .none then some ({ r with call := .wait }, b, []) else none
  | .waitPeek =>
    if r.call = .wait then
      match kringPeekCqe r b with
      | some _ => some ({ r with call := .copy }, b, [])
      | none => some ({ r with call := .park }, b, [])
    else none
  | .waitCopy =>
    if r.call = .copy then
      some ({ kringCqeSeen r with call := .none }, b, [.read (r.current b)])
    else none
  | .ack => if r.call = .none then some ((kringAck r b).1, (kringAck r b).2, [.ack]) else none
  | .woken rc => do
    let r ← kringWoken r b rc
    some (r, b, [])

/-! ## 4. The two together -/

structure System where
  kernel : Kernel
  block : Block
  client : Kring
  log : List Event

inductive Op
  | kernel (op : KernelOp)
  | client (op : ClientOp)
deriving DecidableEq, Repr

def Kernel.events (k : Kernel) : KernelOp → List Event
  | .chunk (.exec status a b) =>
    match k.chunk with
    | .fetched _ _ _ sqe => [.execute sqe ⟨sqe.op, a, b, status⟩]
    | _ => []
  | .post .storeCount =>
    match k.post with
    | some p => [.post p.poster p.cqe]
    | none => []
  | _ => []

def Block.perform (b : Block) (access : Option Access) : Option Block :=
  match access with
  | none => some b
  | some a => b.access a

theorem Block.perform_load {b b' : Block} {w : Word} {v : UInt32}
    (h : b.perform (some (.load w v)) = some b') : b.hdr.get w = v ∧ b' = b := by
  simp only [Block.perform, Block.access] at h
  split at h <;> cases h
  exact ⟨‹_›, rfl⟩

def System.step (s : System) : Op → Option System
  | .kernel op => do
    let (kernel, access) ← s.kernel.step op
    let block ← s.block.perform access
    some { s with kernel := kernel, block := block, log := s.log ++ s.kernel.events op }
  | .client op => do
    let (client, block, events) ← s.client.step s.block op
    some { s with client := client, block := block, log := s.log ++ events }

/-- After `channel_scheme_create` and `kring_attach`: the header is cleared, the
    slots hold what the block held. -/
def System.create (order : Nat) (sq : Nat → Ksqe) (cq : Nat → Kcqe) : System where
  kernel := .create order
  block := ⟨⟨0, 0, 0, 0⟩, sq, cq⟩
  client := ⟨KRING_NSLOTS order, 0, 0, .none, [], false⟩
  log := []

def submitted (log : List Event) : List Ksqe :=
  log.flatMap fun
    | .submit sqes => sqes
    | _ => []

def executed (log : List Event) : List Ksqe :=
  log.flatMap fun
    | .execute sqe _ => [sqe]
    | _ => []

def posted (log : List Event) : List Kcqe :=
  log.flatMap fun
    | .post _ cqe => [cqe]
    | _ => []

def read (log : List Event) : List Kcqe :=
  log.flatMap fun
    | .read cqe => [cqe]
    | _ => []

end GovinDos.Channel
