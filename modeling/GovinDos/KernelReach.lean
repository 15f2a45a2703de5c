/-
  **In every reachable state the tree and the graph are consistent
  (`kernel/src/process.c`, `umem.c`).**
-/
import GovinDos.KernelSteps
import GovinDos.Lib.Run

namespace GovinDos.Kernel

open Ownership PlatformMem
open Umem (BlockId EdgeRef Backing)

variable {c t p q me pid : Nat}

/-! ## 1. Boot -/

variable {pl : Platform} {ncpus : Nat} {s s' : State} {ops : List Op}

theorem get_boot (p : Nat) : (boot pl ncpus).g_procs.get p =
    if p = INIT then some { Process.fresh none with
      threads := OrdMap.empty.set 1 1, nthreads := 1 } else none := by
  change (OrdMap.empty.set INIT _).get p = _
  rw [OrdMap.get_set, OrdMap.get_empty]

theorem boot_registry : Registry (boot pl ncpus) where
  bound p b hb := by
    rw [get_boot] at hb
    split at hb
    · rename_i hp
      rw [hp]
      exact Nat.lt_succ_self INIT
    · cases hb
  parent p b q hb hq := by
    rw [get_boot] at hb
    split at hb <;> cases hb
    cases hq
  child q b p v hb hv := by
    rw [get_boot] at hb
    split at hb <;> cases hb
    cases hv
  linked p b q b' hb hq _ := by
    rw [get_boot] at hb
    split at hb <;> cases hb
    cases hq
  unborn c p hp := by cases hp
  minted c t p th hjob _ := by cases hjob
  unbornOnce c d p hp _ := by cases hp
  adopts c t p th hjob _ := by cases hjob
  linkOnce c d p hp _ := by cases hp

theorem boot_threads : Threads (boot pl ncpus) where
  listed p b t v hb hv := by
    rw [get_boot] at hb
    split at hb <;> cases hb
    rename_i hp
    change (OrdMap.empty.set 1 1).get t = some v at hv
    rw [OrdMap.get_set] at hv
    split at hv <;> cases hv
    rename_i ht
    subst ht hp
    exact ⟨rfl, _, rfl, rfl⟩
  lists t th hth := by
    change (if t = 1 then some (⟨INIT, .RUNNABLE, none⟩ : Thread) else none) = some th at hth
    split at hth <;> cases hth
    rename_i ht
    subst ht
    refine ⟨_, by rw [get_boot, if_pos rfl], ?_⟩
    exact OrdMap.get_set_self ..
  bound t th hth := by
    change (if t = 1 then some (⟨INIT, .RUNNABLE, none⟩ : Thread) else none) = some th at hth
    split at hth <;> cases hth
    rename_i ht
    subst ht
    exact Nat.lt_succ_self 1
  onCpu c t hc := by cases hc
  once c d t hc _ := by cases hc

theorem boot_own : Ok (boot pl ncpus).own := by
  have hblocks : ∀ p, ((boot pl ncpus).own.mem p).blocks = .empty := by
    intro p
    by_cases hp : p = INIT <;> simp [boot, hp, ProcMem.none]
  have hviews : ∀ p, ((boot pl ncpus).own.mem p).views = .empty := by
    intro p
    by_cases hp : p = INIT <;> simp [boot, hp, ProcMem.none]
  have hanchor : ∀ p sc, ((boot pl ncpus).own.mem p).anchor sc = none := by
    intro p sc
    by_cases hp : p = INIT <;> simp [boot, hp, ProcMem.none]
  have hhead : ∀ p, ((boot pl ncpus).own.mem p).unnotified_head = none := by
    intro p
    by_cases hp : p = INIT <;> simp [boot, hp, ProcMem.none]
  have htail : ∀ p, ((boot pl ncpus).own.mem p).unnotified_tail = none := by
    intro p
    by_cases hp : p = INIT <;> simp [boot, hp, ProcMem.none]
  have has : ∀ p n, ((boot pl ncpus).own.mem p).as = some n → n = 0 := by
    intro p n hn
    by_cases hp : p = INIT
    · simp [boot, hp] at hn
      exact hn.symm
    · simp [boot, hp, ProcMem.none] at hn
  have hheap : ∀ id, (boot pl ncpus).own.heap id = none := fun _ => rfl
  have hedge : ∀ e, (boot pl ncpus).own.edge e = none := fun _ => rfl
  have hrel : ∀ id, (boot pl ncpus).own.releasing id = none := fun _ => rfl
  refine ⟨⟨?_, ?_, ?_, by simp [hedge], by simp [hheap], by simp [hheap], by simp [hheap], ?_, ?_⟩,
    fun q => ?_, fun p => ?_, by simp [hrel]⟩
  · intro p base id
    simp [hblocks, hheap]
  · intro base id
    simp [boot]
  · intro q base e
    simp [hviews, hedge]
  · intro p sc id
    simp [hanchor, hheap]
  · intro p base hp
    rw [hblocks, hviews] at hp
    simp at hp
  · refine ⟨[], ⟨List.nodup_nil, hhead q, htail q⟩, fun e => iff_of_false List.not_mem_nil ?_⟩
    rintro ⟨-, x, hx, -⟩
    cases hx
  · exact ⟨[], List.nodup_nil, fun id => iff_of_false List.not_mem_nil (by simp [hrel]), has p,
      fun hne => absurd rfl hne⟩

theorem boot_memory : Memory (boot pl ncpus) where
  ok := boot_own
  home p hp := by
    rw [get_boot] at hp
    split at hp
    · cases hp
    · rename_i hne
      simp [boot, hne]
  as p b hb hp := by
    rw [get_boot] at hb
    split at hb
    · rename_i heq
      simp [boot, heq] at hp
    · cases hb
  node c id hc := by cases hc
  nodeOnce c d id hc _ := by cases hc
  completing id := by
    refine ⟨[], List.nodup_nil, fun t => iff_of_false List.not_mem_nil ?_, fun _ => rfl,
      fun hne => absurd rfl hne⟩
    rintro ⟨th, hth, hid⟩
    change (if t = 1 then some (⟨INIT, .RUNNABLE, none⟩ : Thread) else none) = some th at hth
    split at hth <;> cases hth
    cases hid

theorem boot_inv : Inv (boot pl ncpus) where
  registry := boot_registry
  threads := boot_threads
  memory := boot_memory
  announced p b hb hn := by
    rw [get_boot] at hb
    split at hb <;> cases hb
    cases hn

theorem reachable_inv (h : Run step Legal (boot pl ncpus) ops s) : Inv s :=
  h.invariant boot_inv fun _ _ _ h hlegal hstep => step_inv h hlegal hstep

/-! ## 2. Runs by evaluation -/

def legal (s : State) : Op → Bool
  | .advance c env => match (s.cpu c).job with
    | .publishing _ base order node =>
      (s.own.heap node).isNone && (s.own.releasing node).isNone &&
        s.own.g_ublocks.entries.all fun e => match s.own.heap e.2 with
          | none => true
          | some b => base + Paging.PAGE_SIZE * 2 ^ order ≤ b.base || b.base + b.bytes ≤ base
    | .call _ (.vmMapDevice base len _) =>
      env.node.all (fun id => (s.own.heap id).isNone && (s.own.releasing id).isNone) &&
        s.own.g_ublocks.entries.all fun e => match s.own.heap e.2 with
          | none => true
          | some b => b.backing ≠ .RAM || base + len ≤ b.base || b.base + b.bytes ≤ base
    | _ => true
  | _ => true

theorem Inv.legal_sound (h : Inv s) {op : Op} (hop : legal s op = true) : Legal s op := by
  have hall : ∀ {f : Ublock → Bool}, (s.own.g_ublocks.entries.all fun e =>
      match s.own.heap e.2 with
      | none => true
      | some b => f b) = true → ∀ id b, s.own.heap id = some b → f b = true := by
    intro f hf id b hb
    have hin := (h.memory.ok.core.indexed b.base id).mpr ⟨b, hb, rfl⟩
    simpa [hb] using List.all_eq_true.mp hf _ (OrdMap.get_eq_some_iff.mp hin)
  cases op with
  | advance c env =>
    simp only [legal] at hop
    cases hjob : (s.cpu c).job with
    | publishing t base order node =>
      simp only [hjob, Bool.and_eq_true, Option.isNone_iff_eq_none] at hop
      simp only [Legal, hjob]
      refine ⟨hop.1.1, hop.1.2, fun id b hb => ?_⟩
      simpa using hall (f := fun b => _) hop.2 id b hb
    | call t call =>
      cases call with
      | vmMapDevice base len flags =>
        simp only [hjob, Bool.and_eq_true, Option.all_eq_true, Option.isNone_iff_eq_none] at hop
        simp only [Legal, hjob]
        refine ⟨hop.1, fun id b hb hram => ?_⟩
        simpa [hram, or_assoc] using hall (f := fun b => _) hop.2 id b hb
      | _ => simp only [Legal, hjob]
    | _ => simp only [Legal, hjob]
  | _ => exact trivial

theorem exists_run {P : State → Prop} [DecidablePred P]
    (h : (ops.foldlM (fun s o => if legal s o then step s o else none) (boot pl ncpus)).map
      (fun s => decide (P s)) = some true) :
    ∃ s, Run step Legal (boot pl ncpus) ops s ∧ P s :=
  Run.exists_of_checked legal boot_inv (fun _ _ h hop => h.legal_sound hop)
    (fun _ _ _ h hlegal => step_inv h hlegal) h

def bare : Platform := ⟨[], [], []⟩

def Env.giving (node base : Nat) : Env where
  node := some node
  base := base
  order := 0
  nodes := true
  room := true
  rooms := 1
  destroyable := true
  granted := true
  start := true
  claimed := true
  parks := true
  mapped := 0
  dma_maps := 0

def schedules (c t : Nat) : List Op := [.dispatch c t, .install c, .load c]

def calls (c : Nat) (call : Call) (env : Env) (n : Nat) : List Op :=
  .enter c call :: List.replicate n (.advance c env)

/-! ## 3. The ownership graph -/

def Call.onBlocks : Call → Bool
  | .vmFree _ => true
  | .vmShare _ _ _ => true
  | .vmDropshare _ _ => true
  | .vmUnshare _ _ => true
  | .vmMove _ _ => true
  | _ => false

theorem returning_runs {x : Except Stop (Ownership.State × SysResult)}
    {Q : Ownership.State → SysResult → Prop} (hspec : ∃ g' r, x = .ok (g', r) ∧ Q g' r) :
    ∃ s', returning s c t x = .ok s' := by
  obtain ⟨g', r, rfl, -⟩ := hspec
  exact ⟨_, rfl⟩

theorem Inv.onBlocks_runs (h : Inv s) {th : Thread} (env : Env) {call : Call} (hcall : call.onBlocks = true) :
    ∃ s', syscall s c t th env call = .ok s' := by
  obtain ⟨o, ho⟩ := exists_shows h.memory.ok.pending
  cases call with
  | vmFree base =>
    obtain ⟨g', r, hrun, -⟩ := umemFree_spec s.links h.memory.ok th.proc base env.destroyable
    simp only [syscall, hrun]
    exact ⟨_, rfl⟩
  | vmShare base target prot =>
    exact returning_runs (umemShare_spec s.links h.memory.ok ho th.proc base target prot env.nodes
      env.room fun hlive => (h.isSome_as_of_live hlive).1)
  | vmDropshare base pid =>
    exact returning_runs (umemDropshare_spec s.links h.memory.ok ho th.proc base pid)
  | vmUnshare base pid =>
    exact returning_runs (umemUnshare_spec s.links h.memory.ok ho th.proc base pid)
  | vmMove base pid =>
    exact returning_runs (procSysVmMove_spec s.links h.memory.ok ho
      h.registry.parent_ne fun hlive => (h.isSome_as_of_live hlive).1)
  | _ => cases hcall

theorem Inv.finishing_runs (h : Inv s) {id : BlockId} (env : Env)
    (hjob : (s.cpu c).job = .finishing t id) : ∃ s', advance s c env = .ok s' := by
  obtain ⟨p, hp⟩ := Option.isSome_iff_exists.mp (h.memory.node c id (by rw [hjob]; rfl))
  obtain ⟨n, hrun, -⟩ := umemReleaseFinish_spec h.memory.ok hp
  simp only [advance, hjob, hrun]
  exact ⟨_, rfl⟩

theorem step_steady (h : Inv s) {op : Op} (hlegal : Legal s op) (hx : step s op = some s')
    {id : BlockId} {b : Ublock} (hb : s.own.heap id = some b) : s'.own.heap id = none ∨
      ∃ b', s'.own.heap id = some b' ∧ b'.base = b.base ∧ b'.bytes = b.bytes := by
  have hnot : ¬ Ends s op id := by
    rintro ⟨c, env, t, -, hjob⟩
    have hsome := h.memory.node c id (by rw [hjob]; rfl)
    rw [h.memory.ok.parked id (by rw [hb]; rfl)] at hsome
    cases hsome
  rcases (Moves.steady (step_moves h hlegal hx) h).stays id b hnot hb with hrel | hstay
  · cases hgone : s'.own.heap id with
    | none => exact .inl rfl
    | some b' =>
      rw [(step_inv h hlegal hx).memory.ok.parked id (by rw [hgone]; rfl)] at hrel
      cases hrel
  · exact .inr hstay

/-- The block trees, the base index, the view trees and the sharer trees say the same, the
    pending lists are complete, blocks do not overlap, and the calls that work on the graph
    come to their end. -/
theorem graph_consistent (hrun : Run step Legal (boot pl ncpus) ops s) :
    (∀ id b, s.own.heap id = some b → s.own.g_ublocks.get b.base = some id ∧
      ∀ p base, (s.own.mem p).blocks.get base = some id ↔ p = b.owner ∧ base = b.base) ∧
    (∀ p base id, (s.own.mem p).blocks.get base = some id ∨ s.own.g_ublocks.get base = some id →
      (s.own.heap id).isSome) ∧
    (∀ id b q, s.own.heap id = some b → (((s.own.sharers id).get q).isSome ↔
      (s.own.mem q).views.get b.base = some ⟨id, q⟩)) ∧
    (∀ q base e, (s.own.mem q).views.get base = some e → e.to_ = q ∧
      ∃ b, s.own.heap e.block = some b ∧ b.base = base) ∧
    (∀ id q, ((s.own.sharers id).get q).isSome → (s.own.heap id).isSome) ∧
    (∀ id b, s.own.heap id = some b → (s.own.sharers id).get b.owner = none) ∧
    (∀ q, ∃ l, Chain s.own q l ∧ ∀ e, e ∈ l ↔ e.to_ = q ∧ s.own.Unnotified e) ∧
    (∀ id id' b b', s.own.heap id = some b → s.own.heap id' = some b' → id ≠ id' → Apart b b') ∧
    (∀ p base, ((s.own.mem p).blocks.get base).isSome ∨ ((s.own.mem p).views.get base).isSome →
      (s.own.mem p).as.isSome) ∧
    (∀ op s', Legal s op → step s op = some s' → ∀ id b, s.own.heap id = some b →
      s'.own.heap id = none ∨
        ∃ b', s'.own.heap id = some b' ∧ b'.base = b.base ∧ b'.bytes = b.bytes) ∧
    ∀ c t env, c < s.g_cpu_state_table_len →
      (∃ call, (s.cpu c).job = .call t call ∧ call.onBlocks = true) ∨
        (∃ id, (s.cpu c).job = .finishing t id) →
      ∃ s', exec s (.advance c env) = .ok s' := by
  have h := reachable_inv hrun
  have hc := h.memory.ok.core
  refine ⟨fun id b hb => ⟨(hc.indexed _ _).mpr ⟨b, hb, rfl⟩, fun p base => ?_⟩,
    fun p base id hget => ?_, fun id b q hb => ?_, fun q base e he => ?_,
    fun id q he => hc.edged ⟨id, q⟩ he, hc.noself, h.memory.ok.pending, hc.apart, hc.hasAs,
    fun op s' hlegal hx id b hb => step_steady h hlegal hx hb, fun c t env hcpu hjob => ?_⟩
  · rw [hc.owned]
    constructor
    · rintro ⟨b', hb', rfl, rfl⟩
      cases hb.symm.trans hb'
      exact ⟨rfl, rfl⟩
    · rintro ⟨rfl, rfl⟩
      exact ⟨b, hb, rfl, rfl⟩
  · rcases hget with hget | hget
    · obtain ⟨b, hb, -⟩ := (hc.owned p base id).mp hget
      rw [hb]
      rfl
    · obtain ⟨b, hb, -⟩ := (hc.indexed base id).mp hget
      rw [hb]
      rfl
  · rw [hc.viewed]
    exact ⟨fun he => ⟨rfl, he, b, hb, rfl⟩, fun he => he.2.1⟩
  · obtain ⟨hto, -, hb⟩ := (hc.viewed q base e).mp he
    exact ⟨hto, hb⟩
  · have hexec : exec s (.advance c env) = advance s c env := by simp [exec, Op.cpu, hcpu, act]
    rw [hexec]
    rcases hjob with ⟨call, hjob, hcall⟩ | ⟨id, hjob⟩
    · obtain ⟨th, hth, -⟩ := h.threads.onCpu c t (by rw [hjob]; rfl)
      obtain ⟨s', hs'⟩ := h.onBlocks_runs (c := c) env hcall
      exact ⟨s', by simpa [advance, hjob, hth, deref, bind, Except.bind] using hs'⟩
    · exact h.finishing_runs env hjob

theorem graph_consistent_shared : ∃ ops s, Run step Legal (boot bare 1) ops s ∧
    ((s.own.sharers 5).get 2).isSome = true ∧ (s.own.mem 2).views.get 65536 = some ⟨5, 2⟩ := by
  refine ⟨schedules 0 1 ++ calls 0 .vmAlloc (.giving 5 65536) 2 ++
    calls 0 .procCreate (.giving 0 0) 4 ++ calls 0 (.vmShare 65536 2 0) (.giving 0 0) 1,
    Run.exists_imp (P := fun s => ((s.own.sharers 5).get 2).isSome = true ∧
      (s.own.heap 5).map (·.base) = some 65536) (exists_run (by decide +kernel))
      fun s hrun ⟨hedge, hblock⟩ => ⟨hedge, ?_⟩⟩
  obtain ⟨b, hb, hbase⟩ := Option.map_eq_some_iff.mp hblock
  rw [← hbase]
  exact ((graph_consistent hrun).2.2.1 5 b 2 hb).mp hedge

/-! ## 4. The process tree -/

/-- `process_create` has registered `p` and has not put it into its parent's tree. -/
def Linking (s : State) (p : Nat) : Prop := ∃ c, (s.cpu c).job.unlinked = some p

theorem Registry.get_child (h : Registry s) {b : Process}
    (hb : s.g_procs.get p = some b) (hq : b.parent = some q) :
    ∃ b', s.g_procs.get q = some b' ∧ (b'.children.get p = some p ↔ ¬ Linking s p) := by
  obtain ⟨b', hb'⟩ := Option.isSome_iff_exists.mp (h.parent p b q hb hq).2
  refine ⟨b', hb', ?_⟩
  rw [Linking, ← h.linked p b q b' hb hq hb']
  cases hv : b'.children.get p with
  | none => exact iff_of_false nofun fun hne => hne rfl
  | some v =>
    obtain ⟨rfl, -⟩ := h.child q b' p v hb' hv
    exact iff_of_true rfl nofun

theorem Inv.procSysDestroy_stops (h : Inv s) {e : Stop}
    (hx : procSysDestroy s me pid = .error e) : e = .assert ∧ Linking s pid := by
  unfold procSysDestroy at hx
  split at hx
  · cases hx
  rename_i hauth
  simp only [Bool.or_eq_true, not_or, Bool.not_eq_true', Bool.not_eq_false,
    Option.isNone_iff_eq_none] at hauth
  obtain ⟨-, -, l, q, hl, hq⟩ := processReaperAuthorizedLocked_spec hauth.2
  obtain ⟨b, hb, rfl⟩ := Option.map_eq_some_iff.mp hl
  replace hq : b.parent = some q := hq
  obtain ⟨b', hb', hin⟩ := h.registry.get_child hb hq
  have hne : pid ≠ q := Nat.ne_of_gt (h.registry.parent pid b q hb hq).1
  simp only [hb, deref, bind, Except.bind] at hx
  split at hx
  · cases hx
  rename_i hgate
  simp only [Bool.or_eq_true, not_or, decide_eq_true_eq, ne_eq, not_not] at hgate
  obtain ⟨⟨⟨hblocks, hviews⟩, -⟩, -⟩ := hgate
  split at hx
  · split at hx <;> cases hx
  by_cases hlink : Linking s pid
  · refine ⟨?_, hlink⟩
    have hnone : b'.children.remove pid = none := by
      rw [OrdMap.remove_eq_none_iff]
      exact (h.registry.linked pid b q b' hb hq hb').mpr hlink
    simp only [freeProcess, hq, hb', hnone, deref, assertSome, bind, Except.bind] at hx
    cases hx
    rfl
  · have hremove := OrdMap.remove_eq_some_iff.mpr ⟨hin.mpr hlink, rfl⟩
    have herase : (s.setProc q { b' with children := b'.children.erase pid }).g_procs.remove pid =
        some (b, _) := OrdMap.remove_eq_some_iff.mpr ⟨by rw [get_setProc, if_neg hne, hb], rfl⟩
    simp [freeProcess, hq, hb', hremove, herase, deref, assertSome, asserts, bind, Except.bind,
      hblocks, hviews, pure, Except.pure] at hx

theorem Inv.procSysChildren_batch (h : Inv s) {me pid q cap after : Nat} {l : List Nat}
    (hq : resourceSubjectLocked s me pid = some q)
    (hl : procSysChildren s me pid cap after = .ok l) :
    (p ∈ l → ∃ b, s.g_procs.get p = some b ∧ b.parent = some q) ∧
      ((∃ b, s.g_procs.get p = some b ∧ b.parent = some q) → after < p → ¬ Linking s p →
        p ∈ l ∨ l.length = cap ∧ ∀ r ∈ l, r < p) := by
  simp only [procSysChildren, hq] at hl
  split at hl
  · cases hl
  rename_i bq hbq
  cases hl
  constructor
  · intro hin
    have hmem := (List.mem_filter.mp (List.mem_of_mem_take hin)).1
    obtain ⟨v, hv⟩ := Option.isSome_iff_exists.mp (OrdMap.mem_keys_iff.mp hmem)
    exact (h.registry.child q bq p v hbq hv).2
  · rintro ⟨b, hb, hparent⟩ hafter hnot
    obtain ⟨b', hb', hin⟩ := h.registry.get_child hb hparent
    cases hbq.symm.trans hb'
    have hmem : p ∈ bq.children.keys := OrdMap.mem_keys_iff.mpr (by rw [hin.mpr hnot]; rfl)
    exact OrdMap.mem_take_or_lt (bq.children.sorted_keys.sublist List.filter_sublist)
      (List.mem_filter.mpr ⟨hmem, decide_eq_true hafter⟩) cap

/-- What a children tree holds is registered with that parent.  The other way holds exactly
    outside the window in `process_create` between registering the child and linking it;
    only inside it can destruction stop. -/
theorem tree_agrees (hrun : Run step Legal (boot pl ncpus) ops s) :
    (∀ q b p v, s.g_procs.get q = some b → b.children.get p = some v →
      v = p ∧ ∃ b', s.g_procs.get p = some b' ∧ b'.parent = some q) ∧
    (∀ p b q, s.g_procs.get p = some b → b.parent = some q →
      ∃ b', s.g_procs.get q = some b' ∧ (b'.children.get p = some p ↔ ¬ Linking s p)) ∧
    (∀ me pid q cap after l, resourceSubjectLocked s me pid = some q →
      procSysChildren s me pid cap after = .ok l → ∀ p,
        (p ∈ l → ∃ b, s.g_procs.get p = some b ∧ b.parent = some q) ∧
        ((∃ b, s.g_procs.get p = some b ∧ b.parent = some q) → after < p → ¬ Linking s p →
          p ∈ l ∨ l.length = cap ∧ ∀ r ∈ l, r < p)) ∧
    ∀ me pid e, procSysDestroy s me pid = .error e → e = .assert ∧ Linking s pid := by
  have h := reachable_inv hrun
  exact ⟨h.registry.child, fun p b q hb hq => h.registry.get_child hb hq,
    fun me pid q cap after l hq hl p => h.procSysChildren_batch hq hl,
    fun me pid e hx => h.procSysDestroy_stops hx⟩

theorem tree_agrees_child : ∃ ops s, Run step Legal (boot bare 1) ops s ∧
    (∃ b, s.g_procs.get 2 = some b ∧ b.parent = some 1) ∧ ¬ Linking s 2 := by
  let ops := schedules 0 1 ++ calls 0 .procCreate (.giving 0 0) 4
  obtain ⟨s, hrun, hparent, hin⟩ : ∃ s, Run step Legal (boot bare 1) ops s ∧
      (s.g_procs.get 2).map (·.parent) = some (some 1) ∧
      (s.g_procs.get 1).map (·.children.get 2) = some (some 2) :=
    exists_run (by decide +kernel)
  obtain ⟨b, hb, hq⟩ := Option.map_eq_some_iff.mp hparent
  obtain ⟨b', hb', hv⟩ := Option.map_eq_some_iff.mp hin
  refine ⟨ops, s, hrun, ⟨b, hb, hq⟩, ?_⟩
  obtain ⟨b'', hb'', hiff⟩ := (tree_agrees hrun).2.1 2 b 1 hb hq
  cases hb'.symm.trans hb''
  exact hiff.mp hv

def stopOf (r : Except Stop State) : Option Stop :=
  match r with
  | .ok _ => none
  | .error e => some e

/-- While one thread of init is between registering pid 2 and linking it, another kills and
    destroys pid 2: the assert of `proc_sys_destroy` fails. -/
theorem destroy_child_missing : ∃ ops s, Run step Legal (boot bare 2) ops s ∧
    (s.g_procs.get 2).map (·.parent) = some (some 1) ∧
    (s.g_procs.get 1).map (·.children.get 2) = some none ∧
    stopOf (exec s (.advance 1 (.giving 0 0))) = some .assert := by
  refine ⟨schedules 0 1 ++ calls 0 (.threadSpawn 1 none) (.giving 0 0) 1 ++ schedules 1 2 ++
    calls 0 .procCreate (.giving 0 0) 2 ++ calls 1 (.procKill 2) (.giving 0 0) 1 ++
    calls 1 (.procDestroy 2) (.giving 0 0) 1 ++ calls 1 (.procDestroy 2) (.giving 0 0) 0, ?_⟩
  exact exists_run (by decide +kernel)

end GovinDos.Kernel
