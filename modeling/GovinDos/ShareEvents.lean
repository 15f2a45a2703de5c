/-
  **Every share is announced once (`kernel/src/schemes/shares.c`, `umem.c`).**

  A `Watch` follows a run of the kernel and writes down when each share edge was made and
  which events were posted for it.  An edge that was dropped and made anew is another share,
  known by the step that made it.
-/
import GovinDos.KernelReach

namespace GovinDos.Kernel

open Announcement Ownership PlatformMem
open Umem (BlockId EdgeRef Backing)

/-! ## 1. Watching a run -/

/-- `born e` is the number of the step that made the edge `e`; `log` has the events
    that were posted, each with the birth of its edge. -/
structure Watch where
  kernel : State
  clock : Nat
  born : EdgeRef → Nat
  log : List (Nat × ShareEvent)

namespace Watch

def boot (pl : Platform) (ncpus : Nat) : Watch := ⟨Kernel.boot pl ncpus, 0, fun _ => 0, []⟩

def step (w : Watch) (op : Op) : Option Watch :=
  (Kernel.step w.kernel op).map fun s =>
    let born := fun e =>
      if w.kernel.own.edge e = none ∧ s.own.edge e ≠ none then w.clock else w.born e
    ⟨s, w.clock + 1, born, w.log ++ (posts w.kernel op).map fun x => (born x.edge, x)⟩

def announced (w : Watch) : List (Nat × EdgeRef) := w.log.map fun x => (x.1, x.2.edge)

def ledger (w : Watch) (b : Board EdgeRef Nat) : Ledger EdgeRef Nat :=
  ⟨b, w.clock, w.born, w.announced⟩

structure Sound (w : Watch) : Prop where
  inv : Inv w.kernel
  board : ∃ b, Shows w.kernel.own b ∧ (w.ledger b).Sound EdgeRef.to_

variable {pl : Platform} {ncpus : Nat} {w w' : Watch} {op : Op} {ops : List Op}

theorem edge_eq_none_iff {g : Ownership.State} {b : Board EdgeRef Nat} (h : Shows g b) (e : EdgeRef) :
    g.edge e = none ↔ b.told e = none := by
  rw [h.told, Option.map_eq_none_iff]

theorem ledger_step {b b' : Board EdgeRef Nat} {s : State} (h : Shows w.kernel.own b)
    (h' : Shows s.own b') (hs : Kernel.step w.kernel op = some s) (hstep : w.step op = some w') :
    w'.kernel = s ∧
      w'.ledger b' = (w.ledger b).next ((posts w.kernel op).map ShareEvent.edge) b' := by
  simp only [step, hs, Option.map_some, Option.some.injEq] at hstep
  subst hstep
  simp only [ledger, announced, Ledger.next, List.map_append, List.map_map, ne_eq,
    edge_eq_none_iff h, edge_eq_none_iff h', true_and]
  rfl

theorem Sound.boot : (boot pl ncpus).Sound where
  inv := boot_inv
  board := by
    refine ⟨⟨fun _ => none, fun _ => []⟩, ⟨fun e => ?_, fun q => ?_, ?_⟩, ?_⟩
    · simp [Watch.boot, Kernel.boot, State.edge]
    · refine ⟨List.nodup_nil, ?_, ?_⟩ <;>
        by_cases hq : q = INIT <;>
          simp [Watch.boot, Kernel.boot, hq, ProcMem.none, LinkedList.Linked]
    · exact ⟨by simp, by simp⟩
    · refine ⟨⟨?_, ?_⟩, ?_, ?_, ?_, ?_, ?_⟩ <;> simp [ledger, announced, Watch.boot]

theorem Sound.step (h : w.Sound) (hlegal : Legal w.kernel op) (hstep : w.step op = some w') :
    w'.Sound ∧ ∀ x ∈ posts w.kernel op,
      (w'.kernel.own.edge x.edge).isSome ∧ keventShare w'.kernel.own x.edge = some x := by
  obtain ⟨s, hs, -⟩ := Option.map_eq_some_iff.mp hstep
  obtain ⟨b, hb, hl⟩ := h.board
  obtain ⟨b', hturn, hb', hevents⟩ := (step_turns h.inv hlegal hs).board b hb
  obtain ⟨rfl, hledger⟩ := ledger_step hb hb' hs hstep
  refine ⟨⟨step_inv h.inv hlegal hs, b', hb', ?_⟩, fun x hx => ⟨?_, hevents x hx⟩⟩
  · rw [hledger]
    exact Turn.sound hturn hl
  · have htold := hturn.told_of_mem (List.mem_map_of_mem hx)
    exact (hb'.isSome_edge x.edge).mp (by simp [htold])

theorem Sound.run (hrun : Run Watch.step (fun w op => Legal w.kernel op) (Watch.boot pl ncpus) ops w) :
    w.Sound :=
  hrun.invariant Sound.boot fun _ _ _ h hlegal hstep => (h.step hlegal hstep).1

theorem Sound.pending (h : w.Sound) (q : Nat) :
    ∃ l, Chain w.kernel.own q l ∧
      (∀ e, e ∈ l ↔ e.to_ = q ∧ (w.kernel.own.edge e).isSome ∧ (w.born e, e) ∉ w.announced) ∧
      l.Pairwise (w.born · < w.born ·) ∧
      ∀ room, ∃ g, sharesReplay room w.kernel.own q = .ok g ∧
        (replayPosts room w.kernel.own q).map ShareEvent.edge = l.take room := by
  obtain ⟨b, hb, hl⟩ := h.board
  refine ⟨b.queue q, hb.chain q, fun e => ?_, hl.ordered q, fun room => ?_⟩
  · rw [hb.sound.mem, ← hb.isSome_edge]
    have hiff := fun v => hl.told_iff e v
    change ∀ v, b.told e = some v → (v = true ↔ (w.born e, e) ∈ w.announced) at hiff
    cases htold : b.told e with
    | none => simp
    | some v =>
      rw [← hiff v htold]
      cases v <;> simp
  · obtain ⟨g, hrun, -, -, -, hedges⟩ :=
      replayPosts_edges hb h.inv.memory.ok.core room q
    exact ⟨g, hrun, hedges⟩

end Watch

/-- On every run, each share is announced at most once, while its edge exists; and a share
    that was not announced waits in its target's list, which is in the order the shares
    were made and which a replay announces from the front, as far as there is room. -/
theorem shares_announced_once {pl : Platform} {ncpus : Nat} {ops : List Op} {w : Watch}
    (hrun : Run Watch.step (fun w op => Legal w.kernel op) (Watch.boot pl ncpus) ops w) :
    w.announced.Nodup ∧
    (∀ op w', Legal w.kernel op → w.step op = some w' →
      ∃ new, w'.log = w.log ++ new ∧ ∀ x ∈ new, x.1 = w'.born x.2.edge ∧
        (w'.kernel.own.edge x.2.edge).isSome ∧
        ∃ b, w'.kernel.own.heap x.2.edge.block = some b ∧ x.2.a = b.owner ∧
          x.2.b = b.base ||| b.order) ∧
    ∀ q, ∃ l, Chain w.kernel.own q l ∧
      (∀ e, e ∈ l ↔ e.to_ = q ∧ (w.kernel.own.edge e).isSome ∧ (w.born e, e) ∉ w.announced) ∧
      l.Pairwise (w.born · < w.born ·) ∧
      ∀ room, ∃ g, sharesReplay room w.kernel.own q = .ok g ∧
        (replayPosts room w.kernel.own q).map ShareEvent.edge = l.take room := by
  have h := Watch.Sound.run hrun
  refine ⟨?_, fun op w' hlegal hstep => ?_, h.pending⟩
  · obtain ⟨b, -, hl⟩ := h.board
    exact hl.once
  · obtain ⟨-, hposts⟩ := h.step hlegal hstep
    obtain ⟨s, hs, rfl⟩ := Option.map_eq_some_iff.mp hstep
    refine ⟨_, rfl, fun x hx => ?_⟩
    obtain ⟨y, hy, rfl⟩ := List.mem_map.mp hx
    obtain ⟨hsome, hevent⟩ := hposts y hy
    obtain ⟨b, hb, heq⟩ := Option.map_eq_some_iff.mp hevent
    refine ⟨rfl, hsome, b, hb, ?_, ?_⟩
    · exact congrArg ShareEvent.a heq.symm
    · exact congrArg ShareEvent.b heq.symm

theorem shares_announced_once_backfill : ∃ ops w,
    Run Watch.step (fun w op => Legal w.kernel op) (Watch.boot bare 2) ops w ∧
    w.announced = [(w.born ⟨0, 2⟩, ⟨0, 2⟩)] ∧ w.born ⟨0, 2⟩ ≠ w.born ⟨1, 2⟩ ∧
    ∃ l, Chain w.kernel.own 2 l ∧ ⟨1, 2⟩ ∈ l := by
  let ops := schedules 0 1 ++ calls 0 .procCreate (.giving 0 0) 4 ++
    calls 0 .vmAlloc (.giving 0 4096) 2 ++ calls 0 .vmAlloc (.giving 1 8192) 2 ++
    calls 0 (.vmShare 4096 2 0) (.giving 0 0) 1 ++ calls 0 (.vmShare 8192 2 0) (.giving 0 0) 1 ++
    calls 0 (.threadSpawn 2 none) (.giving 0 0) 1 ++ schedules 1 2 ++
    calls 1 .vmAlloc (.giving 2 12288) 2 ++
    calls 1 (.vmScheme 12288 (some .SHARES)) (.giving 0 0) 1
  obtain ⟨w, hrun, hlog, hne, hsome⟩ : ∃ w,
      Run Watch.step (fun w op => Legal w.kernel op) (Watch.boot bare 2) ops w ∧
      w.announced = [(w.born ⟨0, 2⟩, ⟨0, 2⟩)] ∧ w.born ⟨0, 2⟩ ≠ w.born ⟨1, 2⟩ ∧
      (w.kernel.own.edge ⟨1, 2⟩).isSome = true := by
    refine Run.exists_of_checked (fun w op => legal w.kernel op) Watch.Sound.boot
      (fun w op h hop => h.inv.legal_sound hop) (fun _ _ _ h hlegal hstep => (h.step hlegal hstep).1) ?_
    decide +kernel
  obtain ⟨l, hl, hmem, -⟩ := (shares_announced_once hrun).2.2 2
  refine ⟨ops, w, hrun, hlog, hne, l, hl, (hmem _).mpr ⟨rfl, hsome, ?_⟩⟩
  rw [hlog]
  simp

end GovinDos.Kernel
