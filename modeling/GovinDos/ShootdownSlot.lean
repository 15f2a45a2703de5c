/-
  **The moves of a shootdown, and who holds the slot.**

  TLBs hold translations of the address space in CR3, a running call knows what it has taken,
  and the slot has one holder whose request the CPUs in `need_mask` serve.
-/
import GovinDos.PagingDirty
import GovinDos.Shootdown

namespace GovinDos.Shootdown

open Paging Function

/-! ## 1. Where a call is -/

def FlushCall.Took (call : FlushCall) (a : Nat) : Prop := ∃ t, (a, t) ∈ call.taken

def FlushPc.todo : FlushPc → List Nat
  | .taking todo => todo
  | _ => []

def FlushPc.holds : FlushPc → Prop
  | .taking _ => False
  | .spinning => False
  | _ => True

def FlushPc.awaits : FlushPc → Prop
  | .invalidating => True
  | .waiting => True
  | _ => False

theorem FlushPc.awaits.holds {pc : FlushPc} (h : pc.awaits) : pc.holds := by
  cases pc <;> first | exact h | trivial

/-! ## 2. The moves -/

/-- What the section under the lock of `a` makes of the call: `call'` has its time in
    `taken`, and the dirty range, if any, in its own. -/
structure Taken (s : State) (call : FlushCall) (a : Nat) (todo : List Nat) (as' : AddressSpace)
    (call' : FlushCall) : Prop where
  ases : call'.ases = call.ases
  start : call'.start = call.start
  pc : call'.pc = .taking todo
  taken : call'.taken = (a, s.clock) :: call.taken
  min_le : call'.min ≤ call.min
  le_max : call.max ≤ call'.max
  min_eq : call'.min = call.min ∨ call'.min = (s.as a).min_dirty
  dirty : ∀ lo hi, lo < hi → (s.as a).Covers lo hi → call'.min ≤ lo ∧ hi ≤ call'.max
  aligned : (s.as a).Aligned → as'.Aligned

theorem takeDirty_taken (s : State) (c : Nat) (call : FlushCall) (a : Nat) (todo : List Nat) :
    ∃ as' call', takeDirty s c call a todo = (s.setAs a as').setAct c (.flushing call') ∧
      Taken s call a todo as' call' := by
  simp only [takeDirty]
  split
  · refine ⟨_, _, rfl, rfl, rfl, rfl, rfl, ?_, ?_, ?_, ?_, fun _ => .inl rfl⟩
    · dsimp only
      split <;> omega
    · dsimp only
      split <;> omega
    · dsimp only
      split
      · exact .inr rfl
      · exact .inl rfl
    · intro lo hi _ hcov
      dsimp only [Effects.Covers] at hcov ⊢
      constructor <;> split <;> omega
  · -- nothing dirty: there is no range to cover
    rename_i hclean
    refine ⟨s.as a, { call with pc := .taking todo, taken := (a, s.clock) :: call.taken }, ?_,
      rfl, rfl, rfl, rfl, le_rfl, le_rfl, .inl rfl, ?_, id⟩
    · rw [State.setAs, update_eq_self]
    · intro lo hi hlt hcov
      dsimp only [Effects.Covers] at hcov
      simp only [hasDirty, decide_eq_true_eq] at hclean
      omega

section

variable {s s' : State} {op : Op} {c d : Nat} {call call' : FlushCall} {k : Cpu}

@[simp] theorem cpu_setCpu (s : State) (c d : Nat) (k : Cpu) :
    (s.setCpu c k).cpu d = if d = c then k else s.cpu d := by
  simp only [State.setCpu, update_apply]

@[simp] theorem cpu_setAct (s : State) (c d : Nat) (a : Act) :
    (s.setAct c a).cpu d = if d = c then { s.cpu c with act := a } else s.cpu d :=
  cpu_setCpu s c d _

inductive Moves (s : State) : Op → State → Prop
  | flag {a lo hi : Nat} {flags : PagingFlags} {as : AddressSpace} (hlt : lo < hi)
      (hhi : hi < 2 ^ 64) (hflag : asFlag (s.as a) lo hi flags = some as) :
      Moves s (.flag a lo hi flags)
        { s.setAs a as with clock := s.clock + 1, flags := ⟨a, lo, hi, s.clock + 1⟩ :: s.flags }
  | cache {c page : Nat} (leaf : Nat × Pte) : Moves s (.cache c page)
      (s.setCpu c { s.cpu c with tlb := ⟨(s.cpu c).cr3, page, leaf, s.clock⟩ :: (s.cpu c).tlb })
  | switch {c a : Nat} (hact : (s.cpu c).act = .idle) :
      Moves s (.switch c a) (s.setCpu c { s.cpu c with current_as := a, act := .switching a })
  | loadCr3 {c a : Nat} (hact : (s.cpu c).act = .switching a) :
      Moves s (.loadCr3 c) (s.setCpu c { s.cpu c with cr3 := a, tlb := [], act := .idle })
  | flush {c : Nat} {ases : List Nat} (hact : (s.cpu c).act = .idle) :
      Moves s (.flush c ases) (s.setAct c (.flushing
        ⟨ases, DIRTY_EMPTY_MIN, DIRTY_EMPTY_MAX, .taking ases, s.clock, []⟩))
  | take {c a : Nat} {todo : List Nat} {call call' : FlushCall} {as' : AddressSpace}
      (hact : (s.cpu c).act = .flushing call) (hpc : call.pc = .taking (a :: todo))
      (htaken : Taken s call a todo as' call') :
      Moves s (.advance c) ((s.setAs a as').setAct c (.flushing call'))
  | done {c : Nat} {call : FlushCall} (hact : (s.cpu c).act = .flushing call)
      (hpc : call.pc = .taking []) (hempty : call.max ≤ call.min) :
      Moves s (.advance c) (s.setAct c .idle)
  | spin {c : Nat} {call : FlushCall} (hact : (s.cpu c).act = .flushing call)
      (hpc : call.pc = .taking []) :
      Moves s (.advance c) (s.setAct c (.flushing { call with pc := .spinning }))
  | acquire {c : Nat} {call : FlushCall} (hact : (s.cpu c).act = .flushing call)
      (hpc : call.pc = .spinning) (hfree : s.g_tlb_busy = none) :
      Moves s (.advance c) (State.setAct { s with
        g_tlb_busy := some c
        g_tlb_req := { s.g_tlb_req with ases := call.ases, min := call.min, max := call.max } }
        c (.flushing { call with pc := .scanning 0 [] }))
  | scan {c i : Nat} {targets : List Nat} {call : FlushCall}
      (hact : (s.cpu c).act = .flushing call) (hpc : call.pc = .scanning i targets) :
      Moves s (.advance c) (s.setAct c (.flushing { call with
        pc := .scanning (i + 1) (if i ≠ c ∧ tlbReqMatches s.g_tlb_req (s.cpu i).current_as
          then i :: targets else targets) }))
  | publish {c i : Nat} {targets : List Nat} {call : FlushCall}
      (hact : (s.cpu c).act = .flushing call) (hpc : call.pc = .scanning i targets)
      (hi : s.g_cpu_state_table_len ≤ i) :
      Moves s (.advance c) (State.setAct { s with
        g_tlb_req := { s.g_tlb_req with need_mask := targets } }
        c (.flushing { call with pc := .invalidating }))
  | invalidate {c : Nat} {call : FlushCall} (hact : (s.cpu c).act = .flushing call)
      (hpc : call.pc = .invalidating) :
      Moves s (.advance c) (s.setCpu c { s.cpu c with
        tlb := if tlbReqMatches s.g_tlb_req (s.cpu c).current_as then
          tlbInvalidateLocal call.min call.max (s.cpu c).tlb else (s.cpu c).tlb
        act := .flushing { call with pc := .waiting } })
  | release {c : Nat} {call : FlushCall} (hact : (s.cpu c).act = .flushing call)
      (hpc : call.pc = .waiting)
      (hneed : s.g_tlb_req.need_mask = []) :
      Moves s (.advance c) ({ s with g_tlb_busy := none }.setAct c .idle)
  | pass {c : Nat} : Moves s (.service c) s
  | see {c : Nat} (hbit : c ∈ s.g_tlb_req.need_mask) :
      Moves s (.service c) (s.setCpu c { s.cpu c with service := .seen })
  | serve {c : Nat} (hact : (s.cpu c).act.switches = false) (hseen : (s.cpu c).service = .seen) :
      Moves s (.service c) (s.setCpu c { s.cpu c with
        tlb := if tlbReqMatches s.g_tlb_req (s.cpu c).current_as then
          tlbInvalidateLocal s.g_tlb_req.min s.g_tlb_req.max (s.cpu c).tlb else (s.cpu c).tlb
        service := .invalidated })
  | ack {c : Nat} (hdone : (s.cpu c).service = .invalidated) :
      Moves s (.service c) (State.setCpu { s with
        g_tlb_req := { s.g_tlb_req with
          need_mask := s.g_tlb_req.need_mask.filter (· ≠ c) } }
        c { s.cpu c with service := .idle })

theorem flushStep_moves (hact : (s.cpu c).act = .flushing call)
    (h : flushStep s c call = some s') : Moves s (.advance c) s' := by
  unfold flushStep at h
  split at h
  · cases h
    obtain ⟨as', call', heq, htaken⟩ := takeDirty_taken s c call _ _
    rw [heq]
    exact .take hact ‹_› htaken
  · split at h
    · cases h
      exact .done hact ‹_› ‹_›
    · cases h
      exact .spin hact ‹_›
  · split at h
    · cases h
    · cases h
      exact .acquire hact ‹_› ‹_›
  · split at h
    · cases h
      exact .scan hact ‹_›
    · cases h
      exact .publish hact ‹_› (not_lt.mp ‹_›)
  · cases h
    exact .invalidate hact ‹_›
  · split at h
    · cases h
      exact .release hact ‹_› ‹_›
    · cases h

theorem serviceStep_moves (hact : (s.cpu c).act.switches = false) :
    Moves s (.service c) (serviceStep s c) := by
  simp only [serviceStep]
  cases hservice : (s.cpu c).service with
  | idle =>
    simp only
    split
    · exact .see ‹_›
    · exact .pass
  | seen => exact .serve hact hservice
  | invalidated => exact .ack hservice

theorem step_moves (h : step s op = some s') : Moves s op s' := by
  unfold step at h
  split at h
  · split at h
    · rename_i hrange
      obtain ⟨as, hflag, rfl⟩ := Option.map_eq_some_iff.mp h
      exact .flag hrange.1 hrange.2 hflag
    · cases h
  · split at h
    · obtain ⟨leaf, -, rfl⟩ := Option.map_eq_some_iff.mp h
      exact .cache leaf
    · cases h
  · simp only at h
    split at h
    · split at h
      · cases h
        exact .switch ‹_›
      · cases h
    · cases h
  · simp only at h
    split at h
    · cases h
      exact .loadCr3 ‹_›
    · cases h
  · simp only at h
    split at h
    · split at h
      · cases h
        exact .flush ‹_›
      · cases h
    · cases h
  · simp only at h
    split at h
    · exact flushStep_moves ‹_› h
    · cases h
  · split at h
    · rename_i hc
      cases h
      exact serviceStep_moves hc.2
    · cases h

/-! ## 3. TLBs follow CR3 -/

/-- A TLB holds translations of the address space in CR3, which is `current_as`
    except inside `as_switch`. -/
structure Cpu.Loaded (k : Cpu) : Prop where
  entries : ∀ e ∈ k.tlb, e.as = k.cr3
  current : k.act.switches = false → k.cr3 = k.current_as
  switching : ∀ a, k.act = .switching a → k.current_as = a

theorem mem_of_mem_tlbInvalidateLocal {min max : Nat} {tlb : List TlbEntry} {e : TlbEntry}
    (h : e ∈ tlbInvalidateLocal min max tlb) : e ∈ tlb := by
  rw [tlbInvalidateLocal] at h
  split at h
  · exact (List.mem_filter.mp h).1
  · cases h

namespace Cpu.Loaded

variable {k : Cpu}

theorem setAct {a : Act} (h : k.Loaded) (hk : k.act.switches = false) (ha : a.switches = false) :
    { k with act := a }.Loaded where
  entries := h.entries
  current _ := h.current hk
  switching b hb := by
    rw [show a = .switching b from hb] at ha
    cases ha

theorem setService (v : Service) (h : k.Loaded) : { k with service := v }.Loaded :=
  ⟨h.entries, h.current, h.switching⟩

theorem shrink {tlb : List TlbEntry} (h : k.Loaded) (hsub : ∀ e ∈ tlb, e ∈ k.tlb) :
    { k with tlb := tlb }.Loaded :=
  ⟨fun e he => h.entries e (hsub e he), h.current, h.switching⟩

theorem invalidate {req : TlbReq} {min max : Nat} (h : k.Loaded) :
    { k with tlb := if tlbReqMatches req k.current_as then tlbInvalidateLocal min max k.tlb
      else k.tlb }.Loaded := by
  refine h.shrink fun e he => ?_
  split at he
  · exact mem_of_mem_tlbInvalidateLocal he
  · exact he

end Cpu.Loaded

theorem switches_flushing (h : k.act = .flushing call) :
    k.act.switches = false := by
  rw [h]
  rfl

theorem Moves.loaded (h : Moves s op s') (hs : ∀ d, (s.cpu d).Loaded) (d : Nat) :
    (s'.cpu d).Loaded := by
  -- a move changes one CPU; `hset` is what it has to show for it
  have hset : ∀ (t : State) (c : Nat) (k : Cpu), t.cpu = s.cpu → k.Loaded →
      ((t.setCpu c k).cpu d).Loaded := by
    intro t c k ht hk
    rw [cpu_setCpu]
    split
    · exact hk
    · rw [ht]
      exact hs d
  cases h with
  | flag => exact hs d
  | pass => exact hs d
  | @cache c page leaf =>
    refine hset _ c _ rfl ⟨fun e he => ?_, (hs c).current, (hs c).switching⟩
    rcases List.mem_cons.mp he with rfl | he
    · rfl
    · exact (hs c).entries e he
  | @switch c a hact =>
    refine hset _ c _ rfl ⟨(hs c).entries, nofun, fun b hb => ?_⟩
    injection hb
  | @loadCr3 c a hact =>
    refine hset _ c _ rfl ⟨nofun, fun _ => ?_, nofun⟩
    exact ((hs c).switching a hact).symm
  | @flush c _ hact => exact hset _ c _ rfl ((hs c).setAct (by rw [hact]; rfl) rfl)
  | @take c _ _ _ _ _ hact | @done c _ hact | @spin c _ hact | @acquire c _ hact
  | @scan c _ _ _ hact | @publish c _ _ _ hact | @release c _ hact =>
    exact hset _ c _ rfl ((hs c).setAct (switches_flushing hact) rfl)
  | @invalidate c _ hact =>
    exact hset _ c _ rfl ((hs c).invalidate.setAct (switches_flushing hact) rfl)
  | @see c | @ack c => exact hset _ c _ rfl ((hs c).setService _)
  | @serve c => exact hset _ c _ rfl ((hs c).invalidate.setService _)

/-! ## 4. Calls and the slot -/

structure FlushCall.Ok (call : FlushCall) (clock : Nat) : Prop where
  started : call.start ≤ clock
  taken : ∀ a t, (a, t) ∈ call.taken → t ≤ clock ∧ a ∈ call.ases
  todo : ∀ a ∈ call.pc.todo, a ∈ call.ases
  covered : ∀ a ∈ call.ases, call.Took a ∨ a ∈ call.pc.todo
  aligned : call.min = DIRTY_EMPTY_MIN ∨ PAGE_SIZE ∣ call.min

theorem FlushCall.Ok.mono {clock clock' : Nat} (h : call.Ok clock)
    (hle : clock ≤ clock') : call.Ok clock' :=
  { h with
    started := le_trans h.started hle
    taken := fun a t hat => ⟨le_trans (h.taken a t hat).1 hle, (h.taken a t hat).2⟩ }

theorem FlushCall.Ok.goto {clock : Nat} {pc : FlushPc} (h : call.Ok clock)
    (hdone : call.pc.todo = []) (hpc : pc.todo = []) : { call with pc := pc }.Ok clock :=
  { h with
    todo := fun a ha => by
      rw [show FlushPc.todo pc = [] from hpc] at ha
      cases ha
    covered := fun a ha => by
      have hcov := h.covered a ha
      rw [hdone] at hcov
      exact .inl (hcov.resolve_right List.not_mem_nil) }

theorem FlushCall.Ok.take {a : Nat} {todo : List Nat} {as' : AddressSpace}
    (h : call.Ok s.clock) (hpc : call.pc = .taking (a :: todo))
    (ht : Taken s call a todo as' call') (halign : (s.as a).Aligned) : call'.Ok s.clock where
  started := ht.start ▸ h.started
  taken b t hbt := by
    rw [ht.taken] at hbt
    rw [ht.ases]
    rcases List.mem_cons.mp hbt with heq | hbt
    · cases heq
      exact ⟨le_rfl, h.todo a (by rw [hpc]; exact List.mem_cons_self)⟩
    · exact h.taken b t hbt
  todo b hb := by
    rw [ht.pc] at hb
    rw [ht.ases]
    exact h.todo b (by rw [hpc]; exact List.mem_cons_of_mem a hb)
  covered b hb := by
    rw [ht.ases] at hb
    rw [ht.pc, FlushCall.Took, ht.taken]
    rcases h.covered b hb with ⟨t, hbt⟩ | htodo
    · exact .inl ⟨t, List.mem_cons_of_mem _ hbt⟩
    · rw [hpc] at htodo
      rcases List.mem_cons.mp htodo with rfl | htodo
      · exact .inl ⟨_, List.mem_cons_self⟩
      · exact .inr htodo
  aligned := by
    rcases ht.min_eq with heq | heq
    · rw [heq]
      exact h.aligned
    · rw [heq]
      exact halign

structure Ready (s : State) : Prop where
  calls : ∀ c call, (s.cpu c).act = .flushing call → call.Ok s.clock
  aligned : ∀ a, (s.as a).Aligned
  dated : ∀ f ∈ s.flags, f.time ≤ s.clock ∧ f.lo < f.hi ∧ f.hi < 2 ^ 64

structure Slot (s : State) : Prop where
  held : ∀ c call, (s.cpu c).act = .flushing call → call.pc.holds →
    s.g_tlb_busy = some c ∧ s.g_tlb_req.ases = call.ases ∧ s.g_tlb_req.min = call.min ∧
      s.g_tlb_req.max = call.max
  masked : ∀ d ∈ s.g_tlb_req.need_mask, ∃ c call, (s.cpu c).act = .flushing call ∧ call.pc.awaits
  serving : ∀ d, (s.cpu d).service ≠ .idle → d ∈ s.g_tlb_req.need_mask

theorem Slot.unique (h : Slot s) (hc : (s.cpu c).act = .flushing call)
    (hh : call.pc.holds) (hd : (s.cpu d).act = .flushing call') (hh' : call'.pc.holds) :
    c = d :=
  Option.some.inj ((h.held c call hc hh).1.symm.trans (h.held d call' hd hh').1)

theorem Slot.quiet (h : Slot s) (hno : ∀ c call, (s.cpu c).act = .flushing call →
    ¬ call.pc.awaits) (d : Nat) : d ∉ s.g_tlb_req.need_mask ∧ (s.cpu d).service = .idle := by
  have hneed : d ∉ s.g_tlb_req.need_mask := by
    intro hbit
    obtain ⟨c, call, hc, haw⟩ := h.masked d hbit
    exact hno c call hc haw
  exact ⟨hneed, by_contra fun hserve => hneed (h.serving d hserve)⟩

theorem Slot.not_awaits (h : Slot s) (hc : (s.cpu c).act = .flushing call)
    (hh : call.pc.holds) (hno : ¬ call.pc.awaits) (d : Nat) (call' : FlushCall)
    (hd : (s.cpu d).act = .flushing call') : ¬ call'.pc.awaits := by
  intro haw
  cases h.unique hc hh hd haw.holds
  cases hc.symm.trans hd
  exact hno haw

theorem act_setCpu (s : State) (c d : Nat) (k : Cpu) :
    ((s.setCpu c k).cpu d).act = if d = c then k.act else (s.cpu d).act := by
  rw [cpu_setCpu]
  split <;> rfl

theorem act_setAct (s : State) (c d : Nat) (a : Act) :
    ((s.setAct c a).cpu d).act = if d = c then a else (s.cpu d).act :=
  act_setCpu s c d _

theorem act_setCpu_same (h : k.act = (s.cpu c).act) (d : Nat) (call : FlushCall) :
    ((s.setCpu c k).cpu d).act = .flushing call ↔ (s.cpu d).act = .flushing call := by
  rw [act_setCpu]
  split
  · rename_i hdc
    rw [hdc, h]
  · rfl

theorem service_setCpu (s : State) (c d : Nat) (k : Cpu) (h : k.service = (s.cpu c).service) :
    ((s.setCpu c k).cpu d).service = (s.cpu d).service := by
  rw [cpu_setCpu]
  split
  · rename_i hdc
    rw [hdc, h]
  · rfl

theorem service_of_setCpu {v : Service} (hd : ((s.setCpu c k).cpu d).service = v)
    (h : k.service = (s.cpu c).service) : (s.cpu d).service = v := by
  rwa [service_setCpu s c d k h] at hd

theorem service_setAct (s : State) (c d : Nat) (a : Act) :
    ((s.setAct c a).cpu d).service = (s.cpu d).service :=
  service_setCpu s c d _ rfl

theorem Moves.ready (h : Moves s op s') (hs : Ready s) : Ready s' := by
  -- moves of one CPU's act
  have hset : ∀ (t : State) (c : Nat) (k : Cpu), t.cpu = s.cpu → t.as = s.as →
      t.clock = s.clock → t.flags = s.flags → (∀ call, k.act = .flushing call → call.Ok s.clock) →
      Ready (t.setCpu c k) := by
    intro t c k hcpu has hclock hflags hk
    refine ⟨fun d call hd => ?_, fun a => ?_, fun f hf => ?_⟩
    · rw [act_setCpu] at hd
      change call.Ok t.clock
      rw [hclock]
      split at hd
      · exact hk call hd
      · rw [hcpu] at hd
        exact hs.calls d call hd
    · change (t.as a).Aligned
      rw [has]
      exact hs.aligned a
    · change f ∈ t.flags at hf
      rw [hflags] at hf
      change f.time ≤ t.clock ∧ _
      rw [hclock]
      exact hs.dated f hf
  cases h with
  | @flag a lo hi flags as hlt hhi hflag =>
    refine ⟨fun c call hc => (hs.calls c call hc).mono (Nat.le_succ _), fun b => ?_,
      fun f hf => ?_⟩
    · change (update s.as a as b).Aligned
      rw [update_apply]
      split
      · exact (asFlag_widens hflag).aligned (hs.aligned a)
      · exact hs.aligned b
    · rcases List.mem_cons.mp hf with rfl | hf
      · exact ⟨le_rfl, hlt, hhi⟩
      · exact ⟨le_trans (hs.dated f hf).1 (Nat.le_succ _), (hs.dated f hf).2⟩
  | pass => exact hs
  | @cache c | @see c | @serve c | @ack c => exact hset _ c _ rfl rfl rfl rfl (hs.calls c)
  | @switch c | @loadCr3 c | @done c | @release c => exact hset _ c _ rfl rfl rfl rfl nofun
  | @flush c ases =>
    refine hset _ c _ rfl rfl rfl rfl fun call h => ?_
    cases h
    exact ⟨le_rfl, nofun, fun a h => h, fun a h => .inr h, .inl rfl⟩
  | @take c a todo call call' as' hact hpc ht =>
    refine ⟨fun d call₁ hd => ?_, fun b => ?_, hs.dated⟩
    · rw [act_setAct] at hd
      split at hd
      · cases hd
        exact (hs.calls c call hact).take hpc ht (hs.aligned a)
      · exact hs.calls d call₁ hd
    · change (update s.as a as' b).Aligned
      rw [update_apply]
      split
      · exact ht.aligned (hs.aligned a)
      · exact hs.aligned b
  | @spin c call hact hpc | @acquire c call hact hpc | @scan c i targets call hact hpc
  | @publish c i targets call hact hpc | @invalidate c call hact hpc =>
    refine hset _ c _ rfl rfl rfl rfl fun call' h => ?_
    cases h
    exact (hs.calls c call hact).goto (by rw [hpc]; rfl) rfl

theorem not_holds_taking {todo : List Nat} {pc : FlushPc} (h : pc = .taking todo) : ¬ pc.holds :=
  fun hh => by rw [h] at hh; exact hh

theorem Slot.setCpu (h : Slot s)
    (hheld : ∀ call, k.act = .flushing call → call.pc.holds →
      ∃ call₀, (s.cpu c).act = .flushing call₀ ∧ call₀.pc.holds ∧ call.ases = call₀.ases ∧
        call.min = call₀.min ∧ call.max = call₀.max)
    (hawaits : ∀ call₀, (s.cpu c).act = .flushing call₀ → call₀.pc.awaits →
      ∃ call, k.act = .flushing call ∧ call.pc.awaits)
    (hserving : k.service ≠ .idle → c ∈ s.g_tlb_req.need_mask) : Slot (s.setCpu c k) where
  held d call hd hh := by
    rw [act_setCpu] at hd
    split at hd
    · rename_i hdc
      obtain ⟨call₀, hc, hh₀, hases, hmin, hmax⟩ := hheld call hd hh
      rw [hdc, hases, hmin, hmax]
      exact h.held c call₀ hc hh₀
    · exact h.held d call hd hh
  masked d hd := by
    obtain ⟨e, call₀, he, haw⟩ := h.masked d hd
    rcases eq_or_ne e c with rfl | hne
    · obtain ⟨call, hk, haw'⟩ := hawaits call₀ he haw
      exact ⟨e, call, by rw [act_setCpu, if_pos rfl]; exact hk, haw'⟩
    · exact ⟨e, call₀, by rw [act_setCpu, if_neg hne]; exact he, haw⟩
  serving d hd := by
    rw [cpu_setCpu] at hd
    split at hd
    · rename_i hdc
      rw [hdc]
      exact hserving hd
    · exact h.serving d hd

theorem Slot.setCpu_same (h : Slot s) (hact : k.act = (s.cpu c).act)
    (hserving : k.service ≠ .idle → c ∈ s.g_tlb_req.need_mask) : Slot (s.setCpu c k) :=
  h.setCpu (fun call hk hh => ⟨call, hact ▸ hk, hh, rfl, rfl, rfl⟩)
    (fun call hc haw => ⟨call, hact.trans hc, haw⟩) hserving

theorem Slot.setCpu_outside (h : Slot s)
    (hk : ∀ call, k.act = .flushing call → ¬ call.pc.holds)
    (hc : ∀ call, (s.cpu c).act = .flushing call → ¬ call.pc.holds)
    (hserving : k.service = (s.cpu c).service) : Slot (s.setCpu c k) :=
  h.setCpu (fun call hcall hh => absurd hh (hk call hcall))
    (fun call hcall haw => absurd haw.holds (hc call hcall))
    (fun hne => h.serving c (hserving ▸ hne))

theorem Moves.slot (h : Moves s op s') (hs : Slot s) : Slot s' := by
  -- where the CPU is not in a call, or in one before the slot
  have hout : ∀ {c call}, (s.cpu c).act = .flushing call → ¬ call.pc.holds →
      ∀ call', (s.cpu c).act = .flushing call' → ¬ call'.pc.holds := by
    intro c call hact hno call' hact'
    cases hact.symm.trans hact'
    exact hno
  cases h with
  | flag => exact ⟨hs.held, hs.masked, hs.serving⟩
  | pass => exact hs
  | @cache c => exact hs.setCpu_same rfl (hs.serving c)
  | @switch c a hact | @loadCr3 c a hact => exact hs.setCpu_outside nofun (by rw [hact]; nofun) rfl
  | @flush c ases hact =>
    refine hs.setCpu_outside (fun call hcall => ?_) (by rw [hact]; nofun) rfl
    cases hcall
    exact not_holds_taking rfl
  | @take c a todo call call' as' hact hpc ht =>
    have hs' : Slot (s.setAct c (.flushing call')) := by
      refine hs.setCpu_outside (fun call₁ hcall => ?_) (hout hact (not_holds_taking hpc)) rfl
      cases hcall
      exact not_holds_taking ht.pc
    exact ⟨hs'.held, hs'.masked, hs'.serving⟩
  | @done c call hact hpc =>
    exact hs.setCpu_outside nofun (hout hact (not_holds_taking hpc)) rfl
  | @spin c call hact hpc =>
    refine hs.setCpu_outside (fun call₁ hcall => ?_) (hout hact (not_holds_taking hpc)) rfl
    cases hcall
    exact id
  | @acquire c call hact hpc hfree =>
    -- nobody held the slot, so nobody is asked
    have hnone : ∀ d call', (s.cpu d).act = .flushing call' → ¬ call'.pc.holds := by
      intro d call' hd hh
      rw [(hs.held d call' hd hh).1] at hfree
      cases hfree
    have hquiet := hs.quiet fun d call' hd haw => hnone d call' hd haw.holds
    refine ⟨fun d call' hd hh => ?_, fun d hd => absurd hd (hquiet d).1, fun d hd => ?_⟩
    · rw [act_setAct] at hd
      split at hd
      · rename_i hdc
        cases hd
        exact ⟨by rw [hdc]; rfl, rfl, rfl, rfl⟩
      · exact absurd hh (hnone d call' hd)
    · rw [cpu_setAct] at hd
      refine absurd ?_ hd
      split
      · exact (hquiet c).2
      · exact (hquiet d).2
  | @scan c i targets call hact hpc =>
    have hh : call.pc.holds := by rw [hpc]; trivial
    refine hs.setCpu (fun call' hk _ => ?_) (fun call₀ hc haw => ?_) (hs.serving c)
    · cases hk
      exact ⟨call, hact, hh, rfl, rfl, rfl⟩
    · cases hact.symm.trans hc
      rw [hpc] at haw
      exact absurd haw id
  | @publish c i targets call hact hpc hi =>
    have hh : call.pc.holds := by rw [hpc]; trivial
    have hquiet := hs.quiet (hs.not_awaits hact hh (by rw [hpc]; exact id))
    refine ⟨fun d call' hd hh' => ?_, fun d _ => ⟨c, { call with pc := .invalidating }, ?_, trivial⟩,
      fun d hd => ?_⟩
    · rw [act_setAct] at hd
      split at hd
      · rename_i hdc
        cases hd
        rw [hdc]
        exact hs.held c call hact hh
      · exact hs.held d call' hd hh'
    · rw [act_setAct, if_pos rfl]
    · rw [cpu_setAct] at hd
      refine absurd ?_ hd
      split
      · exact (hquiet c).2
      · exact (hquiet d).2
  | @invalidate c call hact hpc =>
    have hh : call.pc.holds := by rw [hpc]; trivial
    refine hs.setCpu (fun call' hk _ => ?_) (fun _ _ _ => ⟨_, rfl, trivial⟩) (hs.serving c)
    cases hk
    exact ⟨call, hact, hh, rfl, rfl, rfl⟩
  | @release c call hact hpc hneed =>
    have hh : call.pc.holds := by rw [hpc]; trivial
    refine ⟨fun d call' hd hh' => ?_, fun d hd => ?_, fun d hd => ?_⟩
    · rw [act_setAct] at hd
      split at hd
      · cases hd
      · rename_i hne
        exact absurd (hs.unique hd hh' hact hh) hne
    · change d ∈ s.g_tlb_req.need_mask at hd
      rw [hneed] at hd
      cases hd
    · rw [cpu_setAct] at hd
      split at hd
      · rename_i hdc
        rw [hdc]
        exact hs.serving c hd
      · exact hs.serving d hd
  | @see c hbit => exact hs.setCpu_same rfl fun _ => hbit
  | @serve c _ hseen => exact hs.setCpu_same rfl fun _ => hs.serving c (by rw [hseen]; nofun)
  | @ack c hdone =>
    refine ⟨fun d call hd hh => ?_, fun d hd => ?_, fun d hd => ?_⟩
    · rw [act_setCpu] at hd
      refine hs.held d call ?_ hh
      split at hd
      · rename_i hdc
        rw [hdc]
        exact hd
      · exact hd
    · obtain ⟨e, call, he, haw⟩ := hs.masked d ((List.mem_filter.mp hd).1)
      refine ⟨e, call, ?_, haw⟩
      rw [act_setCpu]
      split
      · rename_i hec
        rw [← hec]
        exact he
      · exact he
    · rw [cpu_setCpu] at hd
      split at hd
      · exact absurd rfl hd
      · rename_i hne
        exact List.mem_filter.mpr ⟨hs.serving d hd, by simpa using hne⟩

end

end GovinDos.Shootdown
