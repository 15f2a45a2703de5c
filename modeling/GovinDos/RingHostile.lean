/-
  **Hostile ring memory.**

  The block belongs to the user, who may change it under every load: the kernel's machine is
  run here with loads that return anything.
-/
import GovinDos.Lib.RingBuffer
import GovinDos.Lib.Run
import GovinDos.Ring
import GovinDos.RingCommands

namespace GovinDos.Channel

variable {k k' k₁ k₂ k₁' k₂' : Kernel} {op : KernelOp} {access : Option Access}

/-! ## 1. Bytes -/

def Access.off (ring : Ring) : Access → Nat
  | .load w _ => w.off
  | .store w _ => w.off
  | .copySqe slot _ => KRING_HDR_SIZE + slot * KRING_ENTRY_SIZE
  | .writeCqe slot _ =>
    KRING_HDR_SIZE + ring.nslots.toNat * KRING_ENTRY_SIZE + slot * KRING_ENTRY_SIZE

def Access.len : Access → Nat
  | .load _ _ => 4
  | .store _ _ => 4
  | .copySqe _ _ => KRING_ENTRY_SIZE
  | .writeCqe _ _ => KRING_ENTRY_SIZE

def Chunk.count : Chunk → Nat
  | .idle => 0
  | .loop _ done _ => done
  | .copied _ done _ _ => done
  | .fetched _ done _ _ => done
  | .executed _ done _ _ => done + 1

def Chunk.budget : Chunk → Option Nat
  | .idle => none
  | .loop _ _ budget => some budget
  | .copied _ _ budget _ => some budget
  | .fetched _ _ budget _ => some budget
  | .executed _ _ budget _ => some budget

def Chunk.Bounded (ring : Ring) : Chunk → Prop
  | .idle => True
  | .loop tail done budget =>
    done ≤ budget ∧ done + (tail - ring.sq_head).toNat ≤ ring.nslots.toNat
  | .copied tail done budget _ =>
    done < budget ∧ ring.sq_head ≠ tail ∧ done + (tail - ring.sq_head).toNat ≤ ring.nslots.toNat
  | .fetched tail done budget _ =>
    done < budget ∧ done + 1 + (tail - ring.sq_head).toNat ≤ ring.nslots.toNat
  | .executed tail done budget _ =>
    done < budget ∧ done + 1 + (tail - ring.sq_head).toNat ≤ ring.nslots.toNat

structure Kernel.Bounded (k : Kernel) : Prop where
  chunk : k.chunk.Bounded k.ring
  post : ∀ p, k.post = some p → p.stage = .room → 0 < k.ring.nslots.toNat

theorem Kernel.Bounded.unlock {ring : Ring} {chunk : Chunk} {p : Post}
    (h : Kernel.Bounded ⟨ring, chunk, some p⟩) :
    (Kernel.unlock ⟨ring, chunk, some p⟩ p.poster).Bounded := by
  obtain ⟨poster, cqe, stage⟩ := p
  have hchunk : chunk.Bounded ring := h.chunk
  cases chunk with
  | executed tail done budget cqe =>
    cases poster with
    | event => exact ⟨hchunk, by rintro _ ⟨⟩⟩
    | chunk => exact ⟨⟨hchunk.1, hchunk.2⟩, by rintro _ ⟨⟩⟩
  | _ => cases poster <;> exact ⟨hchunk, by rintro _ ⟨⟩⟩

theorem Kernel.Move.bounded
    (h : k.Move op k' access) (hk : k.Bounded) : k'.Bounded := by
  cases h with
  | lying hlie => exact hk
  | runChunk hok =>
    refine ⟨⟨Nat.zero_le _, ?_⟩, hk.post⟩
    rw [Nat.zero_add]
    exact UInt32.le_iff_toNat_le.mp hok
  | copySqe hne hdone => exact ⟨⟨hdone, hne, hk.chunk.2⟩, hk.post⟩
  | storeHead =>
    obtain ⟨hdone, hne, hroom⟩ := hk.chunk
    have hcloser := RingBuffer.toNat_sub_succ hne
    refine ⟨⟨hdone, ?_⟩, hk.post⟩
    dsimp only at hcloser hroom ⊢
    omega
  | exec => exact ⟨hk.chunk, hk.post⟩
  | endChunk hend => exact ⟨trivial, hk.post⟩
  | full hfull => exact hk.unlock
  | room hroom =>
    refine ⟨hk.chunk, ?_⟩
    intro _ _ _
    exact Nat.lt_of_le_of_lt (Nat.zero_le _) (UInt32.lt_iff_toNat_lt.mp hroom)
  | wake => exact hk.unlock
  | cqeConsumed => exact hk
  | _ =>
    refine ⟨hk.chunk, ?_⟩
    rintro _ ⟨⟩ ⟨⟩

theorem Kernel.Move.nslots
    (h : k.Move op k' access) : k'.ring.nslots = k.ring.nslots := by
  cases h with
  | full hfull => rw [Kernel.unlock_ring]
  | wake => rw [Kernel.unlock_ring]
  | _ => rfl

theorem Kernel.Move.inside {access : Access} {n : Nat}
    (h : k.Move op k' (some access)) (hk : k.Bounded)
    (hfit : KRING_HDR_SIZE + k.ring.nslots.toNat * KRING_ENTRY_SIZE +
      k.ring.nslots.toNat * KRING_ENTRY_SIZE ≤ n) :
    access.off k.ring + access.len ≤ n := by
  have hword : ∀ w : Word, w.off + 4 ≤ n := by
    intro w
    simp only [KRING_HDR_SIZE] at hfit
    cases w <;> simp only [Word.off] <;> omega
  have hslot : ∀ x : UInt32, 0 < k.ring.nslots.toNat →
      (x % k.ring.nslots).toNat * KRING_ENTRY_SIZE + KRING_ENTRY_SIZE ≤
        k.ring.nslots.toNat * KRING_ENTRY_SIZE := by
    intro x hpos
    rw [UInt32.toNat_mod, ← Nat.succ_mul]
    exact Nat.mul_le_mul_right _ (Nat.mod_lt _ hpos)
  cases h with
  | lying hlie => exact hword .sq_tail
  | runChunk hok => exact hword .sq_tail
  | @copySqe ring post tail done budget sqe hne hdone =>
    have hpos : 0 < ring.nslots.toNat := by
      have hcloser := RingBuffer.toNat_sub_succ hne
      have hroom := hk.chunk.2
      dsimp only at hroom
      omega
    have := hslot ring.sq_head hpos
    simp only [Access.off, Access.len, Ring.sqSlot] at hfit this ⊢
    omega
  | storeHead => exact hword .sq_head
  | @writeCqe ring chunk poster cqe =>
    have := hslot ring.cq_count (hk.post _ rfl rfl)
    simp only [Access.off, Access.len, Ring.cqSlot] at hfit this ⊢
    omega
  | storeCount => exact hword .cq_count
  | _ => exact hword .cq_head

/-! ## 3. How much a chunk executes -/

def KernelOp.isExec : KernelOp → Bool
  | .chunk (.exec _ _ _) => true
  | _ => false

def KernelOp.isRunChunk : KernelOp → Bool
  | .chunk (.runChunk _ _) => true
  | _ => false

theorem Kernel.unlock_count (ring : Ring) (chunk : Chunk) (p : Post) :
    (Kernel.unlock ⟨ring, chunk, some p⟩ p.poster).chunk.budget = chunk.budget ∧
      (Kernel.unlock ⟨ring, chunk, some p⟩ p.poster).chunk.count = chunk.count := by
  obtain ⟨poster, cqe, stage⟩ := p
  rcases Kernel.unlock_spec ring chunk (some ⟨poster, cqe, stage⟩) poster with
    heq | ⟨tail, done, budget, cqe, rfl, heq⟩
  · rw [heq]
    exact ⟨rfl, rfl⟩
  · rw [heq]
    exact ⟨rfl, rfl⟩

theorem Kernel.Move.count
    (h : k.Move op k' access) (hno : op.isRunChunk = false) :
    op.isExec = false ∧ k'.chunk = .idle ∨
      k'.chunk.budget = k.chunk.budget ∧
        k'.chunk.count = k.chunk.count + if op.isExec then 1 else 0 := by
  cases h with
  | lying hlie => cases hno
  | runChunk hok => cases hno
  | endChunk hend => exact .inl ⟨rfl, rfl⟩
  | full hfull | wake => exact .inr (Kernel.unlock_count ..)
  | _ => exact .inr ⟨rfl, rfl⟩

def Chunk.shape : Chunk → Chunk
  | .idle => .idle
  | .loop tail done budget => .loop tail done budget
  | .copied tail done budget _ => .copied tail done budget ⟨0, 0, 0, 0⟩
  | .fetched tail done budget _ => .fetched tail done budget ⟨0, 0, 0, 0⟩
  | .executed tail done budget _ => .executed tail done budget ⟨0, 0, 0, .ok 0⟩

def Post.shape (p : Post) : Post := { p with cqe := ⟨0, 0, 0, .ok 0⟩ }

def Kernel.shape (k : Kernel) : Kernel := ⟨k.ring, k.chunk.shape, k.post.map Post.shape⟩

def KernelOp.shape : KernelOp → KernelOp
  | .chunk (.copySqe _) => .chunk (.copySqe ⟨0, 0, 0, 0⟩)
  | .chunk (.exec _ _ _) => .chunk (.exec (.ok 0) 0 0)
  | .postEvent _ => .postEvent ⟨0, 0, 0, .ok 0⟩
  | .cqeConsumed _ => .cqeConsumed 0
  | op => op

/-- Two steps tell the machine the same: all but the contents of entries, a tail that
    is refused, and an acknowledgement beyond whether it leaves the queue full. -/
inductive Agree (ring : Ring) : KernelOp → KernelOp → Prop
  | refused {budget : Nat} {t₁ t₂ : UInt32} (h₁ : ring.nslots < t₁ - ring.sq_head)
      (h₂ : ring.nslots < t₂ - ring.sq_head) :
      Agree ring (.chunk (.runChunk budget t₁)) (.chunk (.runChunk budget t₂))
  | consumed {c₁ c₂ : UInt32} (h : ring.full c₁ = ring.full c₂) :
      Agree ring (.post (.loadConsumed c₁)) (.post (.loadConsumed c₂))
  | contents {op₁ op₂ : KernelOp} (h : op₁.shape = op₂.shape) : Agree ring op₁ op₂

theorem Kernel.shape_unlock (k : Kernel) (poster : Poster) :
    (k.unlock poster).shape = k.shape.unlock poster := by
  obtain ⟨ring, chunk, post⟩ := k
  cases poster <;> cases chunk <;> rfl

theorem Kernel.Move.shape
    (h : k.Move op k' access) : ∃ access', k.shape.Move op.shape k'.shape access' := by
  cases h with
  | lying hlie => exact ⟨_, .lying hlie⟩
  | runChunk hok => exact ⟨_, .runChunk hok⟩
  | copySqe hne hdone => exact ⟨_, .copySqe hne hdone⟩
  | storeHead => exact ⟨_, .storeHead⟩
  | exec => exact ⟨_, .exec⟩
  | postCompletion => exact ⟨_, .postCompletion⟩
  | endChunk hend => exact ⟨_, .endChunk hend⟩
  | postEvent => exact ⟨_, .postEvent⟩
  | full hfull =>
    rw [Kernel.shape_unlock]
    exact ⟨_, .full hfull⟩
  | room hroom => exact ⟨_, .room hroom⟩
  | writeCqe => exact ⟨_, .writeCqe⟩
  | storeCount => exact ⟨_, .storeCount⟩
  | wake =>
    rw [Kernel.shape_unlock]
    exact ⟨_, .wake⟩
  | cqeConsumed => exact ⟨_, .cqeConsumed⟩

end GovinDos.Channel
