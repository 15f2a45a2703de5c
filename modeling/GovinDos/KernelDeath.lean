/-
  **What a death stops, and how it is announced (`kernel/src/process.c`,
  `schemes/tree.c`).**

  A call tests for death on its way in, so a thread that is already past the test may still
  publish a block, map a device or link a child, or bring a second `PROC_EXIT`.  Without
  such steps a dead process only shrinks, and its death is announced once.
-/
import GovinDos.KernelReach

namespace GovinDos.Kernel

open Ownership PlatformMem
open Umem (BlockId EdgeRef Backing)

variable {M : May} {pl : Platform} {ncpus : Nat} {s s' s'' : State}
  {ops ops' : List Op} {p : Nat}

/-! ## 1. Pids are not reused -/

def Taken (s : State) (p : Nat) : Prop :=
  p < s.g_next_pid ∧ ∀ c, (s.cpu c).job.unborn ≠ some p

theorem Inv.taken (h : Inv s) (hp : (s.g_procs.get p).isSome) : Taken s p := by
  obtain ⟨b, hb⟩ := Option.isSome_iff_exists.mp hp
  refine ⟨h.registry.bound p b hb, fun c hc => ?_⟩
  cases hb.symm.trans (h.registry.unborn c p hc).2

theorem Move.taken (hm : Move M s s') (h : Taken s p) : Taken s' p := by
  have hsame : s'.g_next_pid = s.g_next_pid → s'.cpu = s.cpu → Taken s' p := by
    intro hnext hcpu
    rw [Taken, hnext, hcpu]
    exact h
  have hset : ∀ {c : Nat} {j : Job}, j.unborn = none → s'.g_next_pid = s.g_next_pid →
      (∀ d, (s'.cpu d).job = if d = c then j else (s.cpu d).job) → Taken s' p := by
    intro c j hj hnext hjob
    refine ⟨by rw [hnext]; exact h.1, fun d => ?_⟩
    rw [hjob]
    split
    · rw [hj]
      nofun
    · exact h.2 d
  have hcpu : ∀ {c : Nat} {k : Cpu}, k.job.unborn = none → s' = s.setCpu c k → Taken s' p := by
    intro c k hk heq
    refine hset (c := c) hk (by rw [heq]; rfl) fun d => ?_
    rw [heq, cpu_setCpu]
    split <;> rfl
  cases hm with
  | job _ _ hnew => exact hset hnew.unborn rfl (job_setJob s _ _)
  | take _ _ _ _ _ _ hnew => exact hset hnew.unborn rfl (job_setJob (s.setThread _ _) _ _)
  | leave | park => exact hset rfl rfl (job_setJob (s.setThread _ _) _ _)
  | switch _ _ hnew _ | load _ _ hnew => exact hcpu hnew.unborn rfl
  | free | finish => exact hset rfl rfl (job_setJob (s.setOwn _) _ _)
  | @mint c t _ _ =>
    refine ⟨Nat.lt_succ_of_lt h.1, fun d => ?_⟩
    rw [job_setJob]
    split
    · intro heq
      exact Nat.ne_of_gt h.1 (Option.some_inj.mp heq)
    · exact h.2 d
  | register => exact hset rfl rfl (job_setJob _ _ _)
  | link => exact hset rfl rfl (job_setJob (s.setProc _ _) _ _)
  | adopt => exact hset rfl rfl (job_setJob s _ _)
  | _ => exact hsame rfl rfl

theorem Move.body_of_taken (hm : Move M s s') (h : Taken s p) {b' : Process}
    (hb' : s'.g_procs.get p = some b') : ∃ b, s.g_procs.get p = some b ∧ Body M s p b b' := by
  rcases hm.body hb' with hbody | ⟨c, t, q, hjob, -⟩
  · exact hbody
  · exact absurd (by rw [hjob]; rfl) (h.2 c)

/-! ## 2. A dead process only shrinks -/

structure Shrinks (p : Nat) (s s' : State) : Prop where
  body : ∀ b', s'.g_procs.get p = some b' → ∃ b, s.g_procs.get p = some b ∧
    (∀ t v, b'.threads.get t = some v → b.threads.get t = some v) ∧
    ∀ c v, b'.children.get c = some v → b.children.get c = some v
  blocks : ∀ base id, (s'.own.mem p).blocks.get base = some id →
    (s.own.mem p).blocks.get base = some id
  views : ∀ base e, (s'.own.mem p).views.get base = some e →
    (s.own.mem p).views.get base = some e

theorem Shrinks.refl (p : Nat) (s : State) : Shrinks p s s :=
  ⟨fun b hb => ⟨b, hb, fun _ _ h => h, fun _ _ h => h⟩, fun _ _ h => h, fun _ _ h => h⟩

theorem Shrinks.trans (h : Shrinks p s s') (h' : Shrinks p s' s'') : Shrinks p s s'' where
  body b'' hb'' := by
    obtain ⟨b', hb', hthreads', hchildren'⟩ := h'.body b'' hb''
    obtain ⟨b, hb, hthreads, hchildren⟩ := h.body b' hb'
    exact ⟨b, hb, fun t v hv => hthreads t v (hthreads' t v hv),
      fun c v hv => hchildren c v (hchildren' c v hv)⟩
  blocks base id hid := h.blocks base id (h'.blocks base id hid)
  views base e he := h.views base e (h'.views base e he)

theorem Move.memory_shrinks (hm : Move M s s') (h : Inv s) (hdead : DeadIn s.links p)
    (hG : ¬ M.gains p) :
    (∀ base id, (s'.own.mem p).blocks.get base = some id →
      (s.own.mem p).blocks.get base = some id) ∧
    ∀ base e, (s'.own.mem p).views.get base = some e → (s.own.mem p).views.get base = some e := by
  have hsame : (s'.own.mem p).blocks = (s.own.mem p).blocks →
      (s'.own.mem p).views = (s.own.mem p).views →
      (∀ base id, (s'.own.mem p).blocks.get base = some id →
        (s.own.mem p).blocks.get base = some id) ∧
      ∀ base e, (s'.own.mem p).views.get base = some e →
        (s.own.mem p).views.get base = some e := by
    intro hblocks hviews
    rw [hblocks, hviews]
    exact ⟨fun _ _ h => h, fun _ _ h => h⟩
  have hchange : ∀ {B V : Nat → Prop}, Change B V s.own s'.own → ¬ B p → ¬ V p →
      (∀ base id, (s'.own.mem p).blocks.get base = some id →
        (s.own.mem p).blocks.get base = some id) ∧
      ∀ base e, (s'.own.mem p).views.get base = some e →
        (s.own.mem p).views.get base = some e :=
    fun hc hB hV => ⟨fun base id => hc.blocks p base id hB, fun base e => hc.views p base e hV⟩
  have hother : ∀ {q : Nat} {m : ProcMem}, p ≠ q → s'.own = s.own.setMem q m →
      s'.own.mem p = s.own.mem p := by
    intro q m hne heq
    rw [heq]
    exact Function.update_of_ne hne ..
  cases hm with
  | own hkept hB hV =>
    exact hchange hkept.toChange (fun hp => (hB p hp).2.elim (fun hlive => hlive hdead) hG)
      fun hp => (hV p hp).2 hdead
  | free _ _ hfree _ _ _ _ => exact hchange hfree id id
  | finish _ hfinish _ => exact hchange hfinish id id
  | @register c t child th hjob _ =>
    have hne : p ≠ child := by
      rintro rfl
      have hsome := hdead.isSome
      rw [links_get, (h.registry.unborn c p (by rw [hjob]; rfl)).2] at hsome
      cases hsome
    have heq := hother hne rfl
    exact hsame (by rw [heq]) (by rw [heq])
  | spawn _ _ hpin | reap _ _ _ hpin => exact hchange (hpin.ok h.memory.ok).1 id id
  | @freeAs q b _ _ _ _ _ _ _ _ _ =>
    by_cases hq : p = q
    · subst hq
      refine hsame ?_ ?_ <;> simp [State.setMem]
    · have heq := hother hq rfl
      exact hsame (by rw [heq]) (by rw [heq])
  | @unregister r q b bq _ _ _ _ _ _ _ _ _ _ _ =>
    by_cases hr : p = r
    · subst hr
      have hnone : (s.own.setMem p .none).mem p = .none := Function.update_self ..
      refine ⟨fun base id hget => ?_, fun base e hget => ?_⟩
      · change ((s.own.setMem p .none).mem p).blocks.get base = some id at hget
        rw [hnone] at hget
        cases hget
      · change ((s.own.setMem p .none).mem p).views.get base = some e at hget
        rw [hnone] at hget
        cases hget
    · have heq := hother hr rfl
      exact hsame (by rw [heq]) (by rw [heq])
  | _ => exact hsame rfl rfl

theorem Move.shrinks (hm : Move M s s') (h : Inv s) (htaken : Taken s p)
    (hdead : (s.g_procs.get p).isSome → DeadIn s.links p) (hG : ¬ M.gains p) : Shrinks p s s' := by
  cases hb : s.g_procs.get p with
  | none =>
    have hnone : s'.g_procs.get p = none := by
      rw [Option.eq_none_iff_forall_ne_some]
      intro b' hb'
      obtain ⟨b, hb₀, -⟩ := hm.body_of_taken htaken hb'
      cases hb.symm.trans hb₀
    have hmem := (hm.inv h).memory.home p hnone
    refine ⟨fun b' hb' => ?_, fun base id hid => ?_, fun base e he => ?_⟩
    · cases hnone.symm.trans hb'
    · simp [hmem, ProcMem.none] at hid
    · simp [hmem, ProcMem.none] at he
  | some b =>
    have hd := hdead (by rw [hb]; rfl)
    obtain ⟨hblocks, hviews⟩ := hm.memory_shrinks h hd hG
    refine ⟨fun b' hb' => ?_, hblocks, hviews⟩
    have hbody := hm.keeps h.registry hb hb'
    exact ⟨b, hb, fun t v hv => (hbody.threads t v hv).resolve_right fun hlive => hlive hd,
      fun c v hv => (hbody.children c v hv).resolve_right fun hor =>
        hor.elim (fun hlive => hlive hd) hG⟩

structure Ghost (p : Nat) (s : State) : Prop where
  inv : Inv s
  taken : Taken s p
  dead : (s.g_procs.get p).isSome → DeadIn s.links p

theorem Move.ghost (hm : Move M s s') (h : Ghost p s) : Ghost p s' where
  inv := hm.inv h.inv
  taken := hm.taken h.taken
  dead hp := by
    obtain ⟨b', hb'⟩ := Option.isSome_iff_exists.mp hp
    obtain ⟨b, hb, -⟩ := hm.body_of_taken h.taken hb'
    exact hm.dead h.inv.registry h.inv.threads (h.dead (by rw [hb]; rfl)) hp

theorem Moves.shrinks (hm : Moves M s s') (h : Ghost p s) (hG : ¬ M.gains p) :
    Ghost p s' ∧ Shrinks p s s' := by
  induction hm with
  | refl => exact ⟨h, .refl p s⟩
  | tail _ hm ih =>
    obtain ⟨hghost, hshrinks⟩ := ih
    exact ⟨hm.ghost hghost,
      hshrinks.trans (hm.shrinks hghost.inv hghost.taken hghost.dead hG)⟩

/-- No thread of `p` publishes a block, maps a device or links a child while `p` is
    dead. -/
def Quiet (p : Nat) (s : State) (op : Op) : Prop := Gains s op p → ¬ DeadIn s.links p

theorem dead_shrinks (hrun : Run step Legal (boot pl ncpus) ops s) (hdead : DeadIn s.links p)
    (hafter : Run step (fun s op => Legal s op ∧ Quiet p s op) s ops' s') : Shrinks p s s' := by
  have h := reachable_inv hrun
  have hghost : Ghost p s := by
    refine ⟨h, h.taken ?_, fun _ => hdead⟩
    have hsome := hdead.isSome
    rwa [links_get, Option.isSome_map] at hsome
  refine (hafter.invariant (P := fun s₁ => Ghost p s₁ ∧ Shrinks p s s₁) ⟨hghost, .refl p s⟩
    fun s₁ op s₂ ih hok hstep => ?_).2
  obtain ⟨hghost, hshrinks⟩ := ih
  have hmoves := step_moves hghost.inv hok.1 hstep
  have hG : ¬ Gains s₁ op p := by
    intro hG
    have hnot := hok.2 hG
    obtain ⟨c, env, t, th, -, hth, rfl, -⟩ := hG
    obtain ⟨b, hb, -⟩ := hghost.inv.threads.lists t th hth
    exact hnot (hghost.dead (by rw [hb]; rfl))
  obtain ⟨hghost', hshrinks'⟩ := Moves.shrinks hmoves hghost hG
  exact ⟨hghost', hshrinks.trans hshrinks'⟩

def withChild : List Op :=
  schedules 0 1 ++ calls 0 .procCreate (.giving 0 0) 4 ++
    calls 0 (.threadSpawn 2 none) (.giving 0 0) 1 ++ schedules 1 2

theorem dead_shrinks_thread : ∃ ops s ops' s', Run step Legal (boot bare 2) ops s ∧
    DeadIn s.links 2 ∧ Run step (fun s op => Legal s op ∧ Quiet 2 s op) s ops' s' ∧
    Shrinks 2 s s' ∧ (s.g_procs.get 2).map (·.threads.len) = some 1 ∧
    (s'.g_procs.get 2).map (·.threads.len) = some 0 := by
  let ops' : List Op := [.interrupt 1 false, .exited 1 true]
  obtain ⟨s, hrun, hdead, hlen, hafter⟩ : ∃ s, Run step Legal (boot bare 2)
      (withChild ++ calls 0 (.procKill 2) (.giving 0 0) 1) s ∧ s.isDead 2 = true ∧
      (s.g_procs.get 2).map (·.threads.len) = some 1 ∧
      (ops'.foldlM step s).map (fun s' => (s'.g_procs.get 2).map (·.threads.len)) =
        some (some 0) := exists_run (by decide +kernel)
  have hdead := ((reachable_inv hrun).registry.isDead_iff 2).mp hdead
  obtain ⟨s', hs', hlen'⟩ := Option.map_eq_some_iff.mp hafter
  have hrun' : Run step (fun s op => Legal s op ∧ Quiet 2 s op) s ops' s' := by
    refine .of_foldlM (fun op hop s => ?_) hs'
    have hop : op = .interrupt 1 false ∨ op = .exited 1 true := by simpa [ops'] using hop
    rcases hop with rfl | rfl
    · exact ⟨trivial, fun ⟨_, _, _, _, h, _⟩ => by cases h⟩
    · exact ⟨trivial, fun ⟨_, _, _, _, h, _⟩ => by cases h⟩
  exact ⟨_, s, ops', s', hrun, hdead, hrun', dead_shrinks hrun hdead hrun', hlen, hlen'⟩

/-- The kill falls between the test on the way into `VM_ALLOC` and the section that
    publishes: the dead child gets a block; likewise in `PROC_CREATE` a child. -/
theorem dead_process_grows :
    (∃ ops s op s', Run step Legal (boot bare 2) ops s ∧ DeadIn s.links 2 ∧ Legal s op ∧
      step s op = some s' ∧ (s.own.mem 2).blocks.get 65536 = none ∧
      (s'.own.mem 2).blocks.get 65536 = some 5) ∧
    ∃ ops s op s', Run step Legal (boot bare 2) ops s ∧ DeadIn s.links 2 ∧ Legal s op ∧
      step s op = some s' ∧ (s.g_procs.get 2).map (·.children.get 3) = some none ∧
      (s'.g_procs.get 2).map (·.children.get 3) = some (some 3) := by
  constructor
  · let op : Op := .advance 1 (.giving 0 0)
    obtain ⟨s, hrun, hdead, hlegal, hold, hstep⟩ : ∃ s, Run step Legal (boot bare 2)
        (withChild ++ calls 1 .vmAlloc (.giving 5 65536) 1 ++
          calls 0 (.procKill 2) (.giving 0 0) 1) s ∧ s.isDead 2 = true ∧ legal s op = true ∧
        (s.own.mem 2).blocks.get 65536 = none ∧
        (step s op).map (fun s' => (s'.own.mem 2).blocks.get 65536) = some (some 5) :=
      exists_run (by decide +kernel)
    have h := reachable_inv hrun
    obtain ⟨s', hs', hnew⟩ := Option.map_eq_some_iff.mp hstep
    exact ⟨_, s, op, s', hrun, (h.registry.isDead_iff 2).mp hdead, h.legal_sound hlegal, hs',
      hold, hnew⟩
  · let op : Op := .advance 1 (.giving 0 0)
    obtain ⟨s, hrun, hdead, hlegal, hold, hstep⟩ : ∃ s, Run step Legal (boot bare 2)
        (withChild ++ calls 1 .procCreate (.giving 0 0) 2 ++
          calls 0 (.procKill 2) (.giving 0 0) 1) s ∧ s.isDead 2 = true ∧ legal s op = true ∧
        (s.g_procs.get 2).map (·.children.get 3) = some none ∧
        (step s op).map (fun s' => (s'.g_procs.get 2).map (·.children.get 3)) =
          some (some (some 3)) := exists_run (by decide +kernel)
    have h := reachable_inv hrun
    obtain ⟨s', hs', hnew⟩ := Option.map_eq_some_iff.mp hstep
    exact ⟨_, s, op, s', hrun, (h.registry.isDead_iff 2).mp hdead, h.legal_sound hlegal, hs',
      hold, hnew⟩

/-! ## 3. The death of a child is announced once -/

theorem Move.posted (hm : Move M s s') : s'.posted = s.posted ∨
    ∃ q r b, s.g_procs.get q = some b ∧ b.parent = some r ∧ b.dead = true ∧
      (b.death_notified = false ∨ M.again q) ∧ s' = postChildDead s r q b := by
  cases hm with
  | @post q r b hb hparent hdead hA => exact .inr ⟨q, r, b, hb, hparent, hdead, hA, rfl⟩
  | _ => exact .inl rfl

structure Told (p : Nat) (s : State) : Prop where
  once : (s.posted.filter (·.child = p)).length ≤ 1
  heard : ∀ e ∈ s.posted, e.child = p → Taken s p ∧ ∀ b, s.g_procs.get p = some b →
    b.dead = true ∧ b.death_notified = true ∧ b.parent = some e.parent ∧ b.exit_status = e.status

theorem Move.told (hm : Move M s s') (h : Inv s) (hA : ¬ M.again p) (ht : Told p s) : Told p s' := by
  have hold : ∀ e ∈ s.posted, e.child = p → Taken s' p ∧ ∀ b', s'.g_procs.get p = some b' →
      b'.dead = true ∧ b'.death_notified = true ∧ b'.parent = some e.parent ∧
        b'.exit_status = e.status := by
    intro e he hchild
    obtain ⟨htaken, hbody⟩ := ht.heard e he hchild
    refine ⟨hm.taken htaken, fun b' hb' => ?_⟩
    obtain ⟨b, hb, hkeep⟩ := hm.body_of_taken htaken hb'
    obtain ⟨hdead, htold, hparent, hstatus⟩ := hbody b hb
    exact ⟨hkeep.dead hdead, hkeep.told htold, hkeep.parent.trans hparent,
      (hkeep.status.resolve_right fun hagain => hA (hagain hdead)).trans hstatus⟩
  rcases hm.posted with heq | ⟨q, r, b, hb, hparent, hdead, hor, rfl⟩
  · exact ⟨by rw [heq]; exact ht.once, fun e he => hold e (by rwa [heq] at he)⟩
  · have hposted : (postChildDead s r q b).posted = s.posted ++ [⟨r, q, b.exit_status⟩] := rfl
    by_cases hq : q = p
    · subst hq
      -- the bit was clear, so this is the first event
      have hnone : s.posted.filter (·.child = q) = [] := by
        rw [List.filter_eq_nil_iff]
        intro e he hchild
        have hbit := ((ht.heard e he (of_decide_eq_true hchild)).2 b hb).2.1
        rw [hor.resolve_right hA] at hbit
        cases hbit
      refine ⟨?_, fun e he hchild => ?_⟩
      · rw [hposted, List.filter_append, hnone]
        simp
      · rw [hposted, List.mem_append, List.mem_singleton] at he
        rcases he with he | rfl
        · exact hold e he hchild
        · refine ⟨hm.taken (h.taken (by rw [hb]; rfl)), fun b' hb' => ?_⟩
          have hb'' : (s.setProc q { b with death_notified := true }).g_procs.get q = some b' := hb'
          rw [get_setProc, if_pos rfl] at hb''
          cases hb''
          exact ⟨hdead, rfl, hparent, rfl⟩
    · refine ⟨?_, fun e he hchild => ?_⟩
      · rw [hposted, List.filter_append]
        simpa [hq] using ht.once
      · rw [hposted, List.mem_append, List.mem_singleton] at he
        rcases he with he | rfl
        · exact hold e he hchild
        · exact absurd hchild hq

theorem Moves.told (hm : Moves M s s') (h : Inv s) (hA : ¬ M.again p) (ht : Told p s) :
    Told p s' := by
  induction hm with
  | refl => exact ht
  | tail hms hm ih => exact hm.told (Moves.inv hms h) hA ih

/-- `p` carries the mark for as long as it is there, and its exit status is `x`. -/
structure Settled (p x : Nat) (s : State) : Prop where
  inv : Inv s
  taken : Taken s p
  body : ∀ b, s.g_procs.get p = some b → b.dead = true ∧ b.exit_status = x
  posted : ∀ e ∈ s.posted, e.child = p → e.status = x

theorem Move.settled {x : Nat} (hm : Move M s s') (hA : ¬ M.again p) (h : Settled p x s) :
    Settled p x s' where
  inv := hm.inv h.inv
  taken := hm.taken h.taken
  body b' hb' := by
    obtain ⟨b, hb, hkeep⟩ := hm.body_of_taken h.taken hb'
    obtain ⟨hdead, hstatus⟩ := h.body b hb
    exact ⟨hkeep.dead hdead,
      (hkeep.status.resolve_right fun hagain => hA (hagain hdead)).trans hstatus⟩
  posted := by
    rcases hm.posted with heq | ⟨q, r, b, hb, -, -, -, rfl⟩
    · rw [heq]
      exact h.posted
    · intro e he hchild
      rcases List.mem_append.mp he with he | he
      · exact h.posted e he hchild
      · obtain rfl := List.mem_singleton.mp he
        obtain rfl : q = p := hchild
        exact (h.body b hb).2

theorem Moves.settled {x : Nat} (hm : Moves M s s') (hA : ¬ M.again p) (h : Settled p x s) :
    Settled p x s' := by
  induction hm with
  | refl => exact h
  | tail _ hm ih => exact hm.settled hA ih

/-- No thread of `p` gets through `PROC_EXIT` when `p` is marked already. -/
def ExitsOnce (p : Nat) (s : State) (op : Op) : Prop := ¬ Again s op p

/-- Along every run without such steps there is at most one event about `p`.  It goes to
    the parent, with the status that `p` has from its first mark on. -/
theorem death_announced_once
    (hrun : Run step (fun s op => Legal s op ∧ ExitsOnce p s op) (boot pl ncpus) ops s) :
    (s.posted.filter (·.child = p)).length ≤ 1 ∧
    (∀ e ∈ s.posted, e.child = p → ∀ b, s.g_procs.get p = some b →
      b.dead = true ∧ b.parent = some e.parent ∧ b.exit_status = e.status) ∧
    ∀ b, s.g_procs.get p = some b → b.dead = true → ∀ ops' s',
      Run step (fun s op => Legal s op ∧ ExitsOnce p s op) s ops' s' →
      (∀ b', s'.g_procs.get p = some b' → b'.exit_status = b.exit_status) ∧
      ∀ e ∈ s'.posted, e.child = p → e.status = b.exit_status := by
  have h := reachable_inv (hrun.mono fun _ _ hok => hok.1)
  have htold : Told p s := by
    refine (hrun.invariant (P := fun s₁ => Inv s₁ ∧ Told p s₁) ⟨boot_inv, by simp [boot], nofun⟩
      fun s₁ op s₂ ih hok hstep => ?_).2
    have hmoves := step_moves ih.1 hok.1 hstep
    exact ⟨hmoves.inv ih.1, Moves.told hmoves ih.1 hok.2 ih.2⟩
  refine ⟨htold.once, fun e he hchild b hb => ?_, fun b hb hdead ops' s' hafter => ?_⟩
  · obtain ⟨hdead, -, hparent, hstatus⟩ := (htold.heard e he hchild).2 b hb
    exact ⟨hdead, hparent, hstatus⟩
  · have hsettled : Settled p b.exit_status s := by
      refine ⟨h, h.taken (by rw [hb]; rfl), fun b' hb' => ?_, fun e he hchild => ?_⟩
      · cases hb.symm.trans hb'
        exact ⟨hdead, rfl⟩
      · exact ((htold.heard e he hchild).2 b hb).2.2.2.symm
    have hlast := hafter.invariant hsettled fun s₁ op s₂ ih hok hstep =>
      Moves.settled (step_moves ih.inv hok.1 hstep) hok.2 ih
    exact ⟨fun b' hb' => (hlast.body b' hb').2, hlast.posted⟩

def withTreeChannel : List Op :=
  schedules 0 1 ++ calls 0 .vmAlloc (.giving 5 65536) 2 ++
    calls 0 (.vmScheme 65536 (some .TREE)) (.giving 0 0) 1 ++
    calls 0 .procCreate (.giving 0 0) 4 ++ calls 0 (.threadSpawn 2 none) (.giving 0 0) 1 ++
    calls 0 (.threadSpawn 2 none) (.giving 0 0) 1 ++ schedules 1 2 ++ schedules 2 3

theorem death_announced_once_exit : ∃ ops s,
    Run step (fun s op => Legal s op ∧ ExitsOnce 2 s op) (boot bare 3) ops s ∧
    s.posted = [⟨1, 2, 7⟩] ∧ ∃ b, s.g_procs.get 2 = some b ∧ b.exit_status = 7 := by
  let marked : State → Bool := fun s => (s.g_procs.get 2).any (·.dead)
  obtain ⟨s, hrun, hposted, hsome⟩ : ∃ s,
      Run step (fun s op => Legal s op ∧ ExitsOnce 2 s op) (boot bare 3)
        (withTreeChannel ++ calls 1 (.procExit 7) (.giving 0 0) 1) s ∧
      s.posted = [⟨1, 2, 7⟩] ∧ (s.g_procs.get 2).isSome = true := by
    refine Run.exists_of_checked (fun s op => legal s op && !marked s) boot_inv
      (fun s op h hop => ?_) (fun _ _ _ h hok => step_inv h hok.1) (by decide +kernel)
    obtain ⟨hlegal, hnot⟩ := (Bool.and_eq_true _ _).mp hop
    refine ⟨h.legal_sound hlegal, ?_⟩
    rintro ⟨c, env, t, th, status, b, -, -, -, -, hb, hdead⟩
    simp [marked, hb, hdead] at hnot
  obtain ⟨b, hb⟩ := Option.isSome_iff_exists.mp hsome
  refine ⟨_, s, hrun, hposted, b, hb, ?_⟩
  exact ((death_announced_once hrun).2.1 ⟨1, 2, 7⟩ (by rw [hposted]; simp) rfl b hb).2.2

/-- Both threads are past the test when the first exits with 7; the second exits with
    9, and the parent hears of both. -/
theorem death_announced_twice : ∃ ops s, Run step Legal (boot bare 3) ops s ∧
    s.posted = [⟨1, 2, 7⟩, ⟨1, 2, 9⟩] := by
  refine ⟨withTreeChannel ++ calls 1 (.procExit 7) (.giving 0 0) 0 ++
    calls 2 (.procExit 9) (.giving 0 0) 0 ++ [.advance 1 (.giving 0 0), .advance 2 (.giving 0 0)], ?_⟩
  exact exists_run (by decide +kernel)

end GovinDos.Kernel
