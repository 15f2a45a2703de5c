/-
  **TLBs and their shootdown (`kernel/archsrc/x86_64/paging.c`).**

  A step is a section under an address space's lock, a section under the shootdown slot, or
  one access to a word other CPUs read.  A CPU may cache the current leaf of any page of the
  address space in its CR3 at any time, and nothing makes it forget one but a reload of CR3
  or `tlb_invalidate_local`.

  Two parts of the state are not in the source.  `clock` counts the calls of `as_flag` and
  `flags` lists them; a translation carries the time it was cached at, a call of
  `as_flush_multi` the times at which it began and took a dirty range.
-/
import GovinDos.Paging

namespace GovinDos.Shootdown

open Paging

/-! ## 1. State -/

structure TlbEntry where
  as : Nat
  page : Nat
  leaf : Nat × Pte
  cached : Nat
deriving DecidableEq

structure Flagging where
  as : Nat
  lo : Nat
  hi : Nat
  time : Nat
deriving DecidableEq

inductive FlushPc where
  | taking (todo : List Nat)
  | spinning
  /-- The request is published; CPUs below `i` have been looked at. -/
  | scanning (i : Nat) (targets : List Nat)
  /-- `need_mask` is stored, the local flush still to do. -/
  | invalidating
  | waiting
deriving DecidableEq

structure FlushCall where
  ases : List Nat
  min : Nat
  max : Nat
  pc : FlushPc
  start : Nat
  taken : List (Nat × Nat)
deriving DecidableEq

inductive Act where
  | idle
  | switching (as : Nat)
  | flushing (call : FlushCall)
deriving DecidableEq

inductive Service where
  | idle
  | seen
  | invalidated
deriving DecidableEq

structure Cpu where
  current_as : Nat
  cr3 : Nat
  tlb : List TlbEntry
  act : Act
  service : Service

/-- `g_tlb_req`; of `need_mask` the bits that are set. -/
structure TlbReq where
  ases : List Nat
  min : Nat
  max : Nat
  need_mask : List Nat

structure State where
  g_cpu_state_table_len : Nat
  as : Nat → AddressSpace
  cpu : Nat → Cpu
  g_tlb_busy : Option Nat
  g_tlb_req : TlbReq
  clock : Nat
  flags : List Flagging

def State.setCpu (s : State) (c : Nat) (k : Cpu) : State :=
  { s with cpu := Function.update s.cpu c k }

def State.setAct (s : State) (c : Nat) (a : Act) : State := s.setCpu c { s.cpu c with act := a }

def State.setAs (s : State) (a : Nat) (as : AddressSpace) : State :=
  { s with as := Function.update s.as a as }

/-! ## 2. Local invalidation -/

def INVLPG_THRESHOLD_PAGES : Nat := 8

def invlpgHits (min max page : Nat) : Bool :=
  (List.range ((max - min + PAGE_SIZE - 1) / PAGE_SIZE)).any fun k =>
    (min + k * PAGE_SIZE) / PAGE_SIZE == page

def tlbInvalidateLocal (min max : Nat) (tlb : List TlbEntry) : List TlbEntry :=
  if (max - min) / PAGE_SIZE < INVLPG_THRESHOLD_PAGES then
    tlb.filter fun e => !invlpgHits min max e.page
  else []

def tlbReqMatches (req : TlbReq) (as : Nat) : Bool := req.ases.contains as

/-! ## 3. `as_flush_multi` and `tlb_service_local` -/

def takeDirty (s : State) (c : Nat) (call : FlushCall) (a : Nat) (todo : List Nat) : State :=
  let as := s.as a
  let call := { call with pc := .taking todo, taken := (a, s.clock) :: call.taken }
  if hasDirty as.toEffects then
    (s.setAs a { as with toEffects := clearDirty as.toEffects }).setAct c (.flushing { call with
      min := if as.min_dirty < call.min then as.min_dirty else call.min
      max := if call.max < as.max_dirty then as.max_dirty else call.max })
  else s.setAct c (.flushing call)

def flushStep (s : State) (c : Nat) (call : FlushCall) : Option State :=
  match call.pc with
  | .taking (a :: todo) => some (takeDirty s c call a todo)
  | .taking [] =>
    if call.max ≤ call.min then some (s.setAct c .idle)
    else some (s.setAct c (.flushing { call with pc := .spinning }))
  | .spinning => match s.g_tlb_busy with
    | some _ => none
    | none =>
      let s := { s with
        g_tlb_busy := some c
        g_tlb_req := { s.g_tlb_req with ases := call.ases, min := call.min, max := call.max } }
      some (s.setAct c (.flushing { call with pc := .scanning 0 [] }))
  | .scanning i targets =>
    if i < s.g_cpu_state_table_len then
      let hit := i ≠ c ∧ tlbReqMatches s.g_tlb_req (s.cpu i).current_as
      some (s.setAct c (.flushing { call with
        pc := .scanning (i + 1) (if hit then i :: targets else targets) }))
    else
      let s := { s with g_tlb_req := { s.g_tlb_req with need_mask := targets } }
      some (s.setAct c (.flushing { call with pc := .invalidating }))
  | .invalidating =>
    let k := s.cpu c
    some (s.setCpu c { k with
      tlb := if tlbReqMatches s.g_tlb_req k.current_as then
        tlbInvalidateLocal call.min call.max k.tlb else k.tlb
      act := .flushing { call with pc := .waiting } })
  | .waiting =>
    if s.g_tlb_req.need_mask = [] then
      some ({ s with g_tlb_busy := none }.setAct c .idle)
    else none

def serviceStep (s : State) (c : Nat) : State :=
  let k := s.cpu c
  match k.service with
  | .idle => if c ∈ s.g_tlb_req.need_mask then s.setCpu c { k with service := .seen } else s
  | .seen =>
    s.setCpu c { k with
      tlb := if tlbReqMatches s.g_tlb_req k.current_as then
        tlbInvalidateLocal s.g_tlb_req.min s.g_tlb_req.max k.tlb else k.tlb
      service := .invalidated }
  | .invalidated =>
    let s := { s with
      g_tlb_req := { s.g_tlb_req with need_mask := s.g_tlb_req.need_mask.filter (· ≠ c) } }
    s.setCpu c { k with service := .idle }

/-! ## 4. The system -/

inductive Op where
  | flag (a lo hi : Nat) (flags : PagingFlags)
  | cache (c page : Nat)
  | switch (c a : Nat)
  | loadCr3 (c : Nat)
  | flush (c : Nat) (ases : List Nat)
  | advance (c : Nat)
  | service (c : Nat)

/-- `as_switch` runs with interrupts off and polls nothing. -/
def Act.switches : Act → Bool
  | .switching _ => true
  | _ => false

def cacheLeaf (s : State) (c page : Nat) : Option State :=
  let k := s.cpu c
  (translate (s.as k.cr3).root (page * PAGE_SIZE)).map fun leaf =>
    s.setCpu c { k with tlb := ⟨k.cr3, page, leaf, s.clock⟩ :: k.tlb }

def step (s : State) : Op → Option State
  | .flag a lo hi flags =>
    if lo < hi ∧ hi < 2 ^ 64 then
      (asFlag (s.as a) lo hi flags).map fun as =>
        { s.setAs a as with clock := s.clock + 1, flags := ⟨a, lo, hi, s.clock + 1⟩ :: s.flags }
    else none
  | .cache c page => if c < s.g_cpu_state_table_len then cacheLeaf s c page else none
  | .switch c a =>
    let k := s.cpu c
    match k.act, k.service with
    | .idle, .idle =>
      if c < s.g_cpu_state_table_len then
        some (s.setCpu c { k with current_as := a, act := .switching a })
      else none
    | _, _ => none
  | .loadCr3 c =>
    let k := s.cpu c
    match k.act with
    | .switching a => some (s.setCpu c { k with cr3 := a, tlb := [], act := .idle })
    | _ => none
  | .flush c ases =>
    let k := s.cpu c
    match k.act, k.service with
    | .idle, .idle =>
      if c < s.g_cpu_state_table_len ∧ s.g_cpu_state_table_len ≤ 64 then
        some (s.setAct c (.flushing
          ⟨ases, DIRTY_EMPTY_MIN, DIRTY_EMPTY_MAX, .taking ases, s.clock, []⟩))
      else none
    | _, _ => none
  | .advance c =>
    let k := s.cpu c
    match k.act, k.service with
    | .flushing call, .idle => flushStep s c call
    | _, _ => none
  | .service c =>
    if c < s.g_cpu_state_table_len ∧ (s.cpu c).act.switches = false then some (serviceStep s c)
    else none

def boot (ncpus : Nat) (as : Nat → AddressSpace) (current : Nat → Nat) : State where
  g_cpu_state_table_len := ncpus
  as := fun a => { as a with toEffects := clearDirty (as a).toEffects }
  cpu := fun c => ⟨current c, current c, [], .idle, .idle⟩
  g_tlb_busy := none
  g_tlb_req := ⟨[], 0, 0, []⟩
  clock := 0
  flags := []

end GovinDos.Shootdown
