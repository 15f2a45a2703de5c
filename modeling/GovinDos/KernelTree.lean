/-
  **The pid index, the children trees and the thread trees agree
  (`kernel/src/process.c`).**
-/
import GovinDos.KernelMoves

namespace GovinDos.Kernel

open Ownership Function
open Umem (BlockId EdgeRef Backing)

variable {M : May} {s s' : State} {p t q c child : Nat} {b' b bq : Process} {th th' : Thread}
  {own : Ownership.State}

attribute [grind →] Registry.bound Registry.parent Registry.child Registry.unborn Registry.minted
  Registry.unbornOnce Registry.adopts Registry.linkOnce Threads.listed Threads.lists Threads.bound
  Threads.onCpu Threads.once

/-! ## 1. Frames -/

def Same {α : Type} (f : Process → α) (s s' : State) : Prop :=
  ∀ p, (s'.g_procs.get p).map f = (s.g_procs.get p).map f

def Process.tree (b : Process) : Option Nat × OrdMap Nat Nat := (b.parent, b.children)

section

variable {α : Type} {f : Process → α}

theorem Same.of_eq (h : s'.g_procs = s.g_procs) : Same f s s' := fun p => by rw [h]

theorem Same.setProc {p : Nat} {b b' : Process} (hb : s.g_procs.get p = some b)
    (hprocs : s'.g_procs = s.g_procs.set p b') (hf : f b' = f b) : Same f s s' := by
  intro q
  grind

theorem Same.symm (h : Same f s s') : Same f s' s := fun p => (h p).symm

theorem Same.back (h : Same f s s') {p : Nat} {b' : Process} (hb : s'.g_procs.get p = some b') :
    ∃ b, s.g_procs.get p = some b ∧ f b = f b' := by
  have hp := h p
  rw [hb] at hp
  exact Option.map_eq_some_iff.mp hp.symm

theorem Same.isSome (h : Same f s s') (p : Nat) :
    (s'.g_procs.get p).isSome = (s.g_procs.get p).isSome := by
  simpa using congrArg Option.isSome (h p)

end

theorem Same.tree_back (h : Same Process.tree s s')
    (hb : s'.g_procs.get p = some b') :
    ∃ b, s.g_procs.get p = some b ∧ b.parent = b'.parent ∧ b.children = b'.children := by
  obtain ⟨b, hb, heq⟩ := h.back hb
  exact ⟨b, hb, congrArg Prod.fst heq, congrArg Prod.snd heq⟩

def SameChild (j j' : Job) : Prop :=
  j' = j ∨ (j.unborn = none ∧ j.unlinked = none) ∧ j'.unborn = none ∧ j'.unlinked = none

section

variable {j j' : Job}

theorem SameChild.unborn (h : SameChild j j') : j'.unborn = j.unborn := by grind [SameChild]

theorem SameChild.unlinked (h : SameChild j j') : j'.unlinked = j.unlinked := by grind [SameChild]

theorem SameChild.linking (h : SameChild j j') {t p : Nat} (hj : j' = .linking t p) :
    j = .linking t p := by grind [SameChild, Job.unborn, Job.unlinked]

theorem SameChild.creating (h : SameChild j j') {t p : Nat} (hj : j' = .creating t p) :
    j = .creating t p := by grind [SameChild, Job.unborn, Job.unlinked]

theorem Job.Plain.sameChild (h : j.Plain) (h' : j'.Plain) : SameChild j j' :=
  .inr ⟨⟨h.unborn, h.unlinked⟩, h'.unborn, h'.unlinked⟩

theorem Job.unlinked_eq_some {p : Nat} (h : j.unlinked = some p) : ∃ t, j = .linking t p := by
  cases j <;> cases h
  exact ⟨_, rfl⟩

end

def SameProc (s s' : State) : Prop :=
  ∀ t th', s'.thread t = some th' → ∃ th, s.thread t = some th ∧ th.proc = th'.proc

theorem SameProc.of_eq (h : s'.thread = s.thread) : SameProc s s' := by
  intro t th' hth'
  rw [h] at hth'
  exact ⟨th', hth', rfl⟩

theorem SameProc.setThread (hth : s.thread t = some th)
    (hthread : s'.thread = update s.thread t (some th')) (hproc : th'.proc = th.proc) :
    SameProc s s' := by
  intro t₁ th₁ hth₁
  rw [hthread, update_apply] at hth₁
  grind

theorem Registry.frame (h : Registry s) (hnext : s'.g_next_pid = s.g_next_pid)
    (htree : Same Process.tree s s') (hjob : ∀ c, SameChild (s.cpu c).job (s'.cpu c).job)
    (hproc : ∀ c t th', (s.cpu c).job.thread = some t → s'.thread t = some th' →
      ∃ th, s.thread t = some th ∧ th.proc = th'.proc) : Registry s' where
  bound p b hb := by
    obtain ⟨b₀, hb₀, -⟩ := htree.back hb
    rw [hnext]
    exact h.bound p b₀ hb₀
  parent p b q hb hq := by
    obtain ⟨b₀, hb₀, hparent, -⟩ := htree.tree_back hb
    rw [htree.isSome]
    exact h.parent p b₀ q hb₀ (hparent.trans hq)
  child q b p v hb hv := by
    obtain ⟨b₀, hb₀, -, hchildren⟩ := htree.tree_back hb
    obtain ⟨hvp, b₁, hb₁, hparent⟩ := h.child q b₀ p v hb₀ (by rw [hchildren]; exact hv)
    obtain ⟨b₂, hb₂, hparent₂, -⟩ := htree.symm.tree_back hb₁
    exact ⟨hvp, b₂, hb₂, hparent₂.trans hparent⟩
  linked p b q b' hb hq hb' := by
    obtain ⟨b₀, hb₀, hparent, -⟩ := htree.tree_back hb
    obtain ⟨b₁, hb₁, -, hchildren⟩ := htree.tree_back hb'
    rw [← hchildren, h.linked p b₀ q b₁ hb₀ (hparent.trans hq) hb₁]
    simp only [(hjob _).unlinked]
  unborn c p hp := by
    rw [(hjob c).unborn] at hp
    obtain ⟨hlt, hnone⟩ := h.unborn c p hp
    refine ⟨by rw [hnext]; exact hlt, ?_⟩
    rw [← Option.not_isSome_iff_eq_none, htree.isSome, hnone]
    simp
  minted c t p th' hjob' hth' := by
    have hold := (hjob c).creating hjob'
    obtain ⟨th, hth, hproc⟩ := hproc c t th' (by rw [hold]; rfl) hth'
    rw [← hproc]
    exact h.minted c t p th hold hth
  unbornOnce c d p hc hd := by
    rw [(hjob _).unborn] at hc hd
    exact h.unbornOnce c d p hc hd
  adopts c t p th' hjob' hth' := by
    have hold := (hjob c).linking hjob'
    obtain ⟨th, hth, hproc⟩ := hproc c t th' (by rw [hold]; rfl) hth'
    obtain ⟨b, hb, hparent⟩ := h.adopts c t p th hold hth
    obtain ⟨b₂, hb₂, hparent₂, -⟩ := htree.symm.tree_back hb
    exact ⟨b₂, hb₂, by rw [hparent₂, hparent, hproc]⟩
  linkOnce c d p hc hd := by
    rw [(hjob _).unlinked] at hc hd
    exact h.linkOnce c d p hc hd

theorem Threads.frame (h : Threads s) (hnext : s'.g_next_tid = s.g_next_tid)
    (hsame : Same Process.threads s s') (hproc : SameProc s s') (hproc' : SameProc s' s)
    (hon : ∀ c t, (s'.cpu c).job.thread = some t →
      ∃ th, s'.thread t = some th ∧ th.status ≠ .RUNNABLE ∧ th.status ≠ .BLOCKED)
    (honce : ∀ c d t, (s'.cpu c).job.thread = some t → (s'.cpu d).job.thread = some t → c = d) :
    Threads s' where
  listed p b t v hb hv := by
    obtain ⟨b₀, hb₀, hthreads⟩ := hsame.back hb
    obtain ⟨hvt, th, hth, hp⟩ := h.listed p b₀ t v hb₀ (by rw [hthreads]; exact hv)
    obtain ⟨th', hth', hp'⟩ := hproc' t th hth
    exact ⟨hvt, th', hth', hp'.trans hp⟩
  lists t th' hth' := by
    obtain ⟨th, hth, hp⟩ := hproc t th' hth'
    obtain ⟨b, hb, hin⟩ := h.lists t th hth
    obtain ⟨b', hb', hthreads⟩ := hsame.symm.back hb
    exact ⟨b', by rw [← hp]; exact hb', by rw [hthreads]; exact hin⟩
  bound t th' hth' := by
    obtain ⟨th, hth, -⟩ := hproc t th' hth'
    rw [hnext]
    exact h.bound t th hth
  onCpu := hon
  once := honce

theorem Threads.still (h : Threads s) (hnext : s'.g_next_tid = s.g_next_tid)
    (hsame : Same Process.threads s s') (hthread : s'.thread = s.thread)
    (hjob : ∀ c, (s'.cpu c).job.thread = (s.cpu c).job.thread) : Threads s' := by
  refine h.frame hnext hsame (.of_eq hthread) (.of_eq hthread.symm) (fun c t hc => ?_)
    fun c d t hc hd => ?_
  · rw [hjob] at hc
    rw [hthread]
    exact h.onCpu c t hc
  · rw [hjob] at hc hd
    exact h.once c d t hc hd

/-! ## 2. The registry -/

theorem links_get (s : State) (p : Nat) :
    s.links p = (s.g_procs.get p).map fun b => ⟨b.parent, b.dead⟩ := rfl

theorem Registry.grows (h : Registry s) : Grows s.links := by
  intro p l q hp hq
  rw [links_get] at hp
  obtain ⟨b, hb, rfl⟩ := Option.map_eq_some_iff.mp hp
  exact (h.parent p b q hb hq).1

theorem Registry.parent_ne (h : Registry s) (hq : (s.links p).bind (·.parent) = some q) :
    q ≠ p := by
  obtain ⟨l, hl, hq⟩ := Option.bind_eq_some_iff.mp hq
  exact Nat.ne_of_lt (h.grows p l q hl hq)

theorem Registry.isDead_iff (h : Registry s) (p : Nat) : s.isDead p = true ↔ DeadIn s.links p :=
  processIsDead_iff h.grows p

theorem sameChild_setJob (s : State) {j : Job} (h : SameChild (s.cpu c).job j) (d : Nat) :
    SameChild (s.cpu d).job ((s.setJob c j).cpu d).job := by grind [job_setJob, SameChild]

theorem sameChild_setCpu (s : State) {k : Cpu} (h : SameChild (s.cpu c).job k.job)
    (d : Nat) : SameChild (s.cpu d).job ((s.setCpu c k).cpu d).job := by grind [cpu_setCpu, SameChild]

theorem Registry.setProc (h : Registry s)
    (hb : s.g_procs.get p = some b) (htree : b'.tree = b.tree) : Registry (s.setProc p b') :=
  h.frame rfl (.setProc hb rfl htree) (fun _ => .inl rfl) fun _ _ th' _ hth' => ⟨th', hth', rfl⟩

theorem Registry.isSome_unlinked (h : Registry s) (ht : Threads s)
    (hp : (s.cpu c).job.unlinked = some p) :
    ∃ t th b, (s.cpu c).job = .linking t p ∧ s.thread t = some th ∧ s.g_procs.get p = some b ∧
      b.parent = some th.proc := by
  obtain ⟨t, hjob⟩ := Job.unlinked_eq_some hp
  obtain ⟨th, hth, -⟩ := ht.onCpu c t (by rw [hjob]; rfl)
  obtain ⟨b, hb, hparent⟩ := h.adopts c t p th hjob hth
  exact ⟨t, th, b, hjob, hth, hb, hparent⟩

theorem Registry.mint (h : Registry s) (ht : Threads s)
    (hold : (s.cpu c).job.Calm)
    (hs' : { s with g_next_pid := s.g_next_pid + 1 }.setJob c (.creating t s.g_next_pid) = s') :
    Registry s' := by
  have hjob : ∀ d, (s'.cpu d).job = if d = c then .creating t s.g_next_pid else (s.cpu d).job :=
    fun d => hs' ▸ job_setJob ..
  have hnext : s'.g_next_pid = s.g_next_pid + 1 := hs' ▸ rfl
  have hprocs : s'.g_procs = s.g_procs := hs' ▸ rfl
  have hthread : ∀ t, s'.thread t = s.thread t := fun _ => hs' ▸ rfl
  have hunlinked : ∀ d, (s'.cpu d).job.unlinked = (s.cpu d).job.unlinked := by
    grind [Job.unlinked, hold.unlinked]
  have hnone : s.g_procs.get s.g_next_pid = none := by
    rw [Option.eq_none_iff_forall_ne_some]
    exact fun b hb => Nat.lt_irrefl _ (h.bound _ b hb)
  constructor
  case bound => grind
  case parent => grind
  case child => grind
  case linked => grind [h.linked]
  case unborn => grind [Job.unborn]
  case minted =>
    -- the creator was registered before the pid was taken
    grind
  case unbornOnce => grind [Job.unborn]
  case adopts => grind
  case linkOnce => grind

theorem Registry.register (h : Registry s) (ht : Threads s)
    (hjob : (s.cpu c).job = .creating t child) (hth : s.thread t = some th)
    (hs' : ({ s with g_procs := s.g_procs.set child (.fresh (some th.proc)) }.setOwn own).setJob c
      (.linking t child) = s') : Registry s' := by
  have hunborn : (s.cpu c).job.unborn = some child := by rw [hjob]; rfl
  obtain ⟨hlt, hnone⟩ := h.unborn c child hunborn
  have hmint := h.minted c t child th hjob hth
  obtain ⟨bp, hbp, -⟩ := ht.lists t th hth
  have hget : ∀ p, s'.g_procs.get p =
      if p = child then some (.fresh (some th.proc)) else s.g_procs.get p :=
    fun p => hs' ▸ OrdMap.get_set ..
  have hjob' : ∀ d, (s'.cpu d).job = if d = c then .linking t child else (s.cpu d).job :=
    fun d => hs' ▸ job_setJob ..
  have hunlinked : ∀ d p, p ≠ child →
      ((s'.cpu d).job.unlinked = some p ↔ (s.cpu d).job.unlinked = some p) := by
    grind [Job.unlinked]
  have hfree : ∀ d, (s.cpu d).job.unlinked ≠ some child := by
    intro d hd
    obtain ⟨-, -, b, -, -, hb, -⟩ := h.isSome_unlinked ht hd
    cases hnone.symm.trans hb
  have hthread : ∀ t, s'.thread t = s.thread t := fun _ => hs' ▸ rfl
  have hnext : s'.g_next_pid = s.g_next_pid := hs' ▸ rfl
  constructor
  case bound => grind
  case parent => grind [Process.fresh]
  case child => grind [Process.fresh]
  case linked =>
    intro p b q b' hb hq hb'
    by_cases hp : p = child
    · -- nobody's children tree had the new pid
      refine iff_of_true ?_ ⟨c, by rw [hjob', if_pos rfl, hp]; rfl⟩
      rw [Option.eq_none_iff_forall_ne_some]
      grind [Process.fresh]
    · have hb₀ : s.g_procs.get p = some b := by grind
      have hb₀' : s.g_procs.get q = some b' := by grind [h.parent p b q hb₀ hq]
      rw [h.linked p b q b' hb₀ hq hb₀']
      exact exists_congr fun d => (hunlinked d p hp).symm
  case unborn => grind [Job.unborn]
  case minted => grind
  case unbornOnce => grind [Job.unborn]
  case adopts => grind [Process.fresh]
  case linkOnce =>
    intro d e p hd he
    by_cases hp : p = child
    · grind
    · exact h.linkOnce d e p ((hunlinked d p hp).mp hd) ((hunlinked e p hp).mp he)

theorem Registry.link (h : Registry s)
    (hjob : (s.cpu c).job = .linking t child) (hth : s.thread t = some th)
    (hb : s.g_procs.get th.proc = some b)
    (hs' : (s.setProc th.proc { b with children := b.children.set child child }).setJob c
      (.returning t child) = s') : Registry s' := by
  obtain ⟨bc, hbc, hparent⟩ := h.adopts c t child th hjob hth
  have hget : ∀ p, s'.g_procs.get p = if p = th.proc then
      some { b with children := b.children.set child child } else s.g_procs.get p :=
    fun p => hs' ▸ OrdMap.get_set ..
  have hjob' : ∀ d, (s'.cpu d).job = if d = c then .returning t child else (s.cpu d).job :=
    fun d => hs' ▸ job_setJob ..
  have hlinking : (s.cpu c).job.unlinked = some child := by rw [hjob]; rfl
  have hunlinked : ∀ d p,
      ((s'.cpu d).job.unlinked = some p ↔ p ≠ child ∧ (s.cpu d).job.unlinked = some p) := by
    grind [Job.unlinked]
  have hthread : ∀ t, s'.thread t = s.thread t := fun _ => hs' ▸ rfl
  have hnext : s'.g_next_pid = s.g_next_pid := hs' ▸ rfl
  constructor
  case bound => grind
  case parent => grind
  case child => grind
  case linked =>
    intro p b₁ q b₂ hb₁ hq hb₂
    simp only [hunlinked]
    by_cases hp : p = child
    · grind
    · grind [h.linked p]
  case unborn => grind [Job.unborn]
  case minted => grind
  case unbornOnce => grind [Job.unborn]
  case adopts => grind
  case linkOnce => grind

theorem Registry.not_unlinked_of_no_threads (h : Registry s) (ht : Threads s) {p r c : Nat}
    {b br : Process} (hb : s.g_procs.get p = some b) (hthreads : ∀ t, b.threads.get t = none)
    (hbr : s.g_procs.get r = some br) (hparent : br.parent = some p) :
    (s.cpu c).job.unlinked ≠ some r := by
  intro hc
  obtain ⟨t, th, b', -, hth, hb', hparent'⟩ := h.isSome_unlinked ht hc
  cases hbr.symm.trans hb'
  obtain rfl : p = th.proc := Option.some_inj.mp (hparent.symm.trans hparent')
  obtain ⟨b₁, hb₁, hin⟩ := ht.lists t th hth
  cases hb.symm.trans hb₁
  rw [hthreads t] at hin
  cases hin

theorem Registry.unregister (h : Registry s) (ht : Threads s)
    (hb : s.g_procs.get p = some b) (hparent : b.parent = some q) (hq : s.g_procs.get q = some bq)
    (hin : bq.children.get p = some p) (hthreads : ∀ t, b.threads.get t = none)
    (hchildren : ∀ r, b.children.get r = none)
    (hs' : { s with g_procs :=
      (s.g_procs.set q { bq with children := bq.children.erase p }).erase p }.setOwn own = s') :
    Registry s' := by
  have hqp : q ≠ p := Nat.ne_of_lt (h.parent p b q hb hparent).1
  have hget : ∀ r, s'.g_procs.get r = if r = p then none else if r = q then
      some { bq with children := bq.children.erase p } else s.g_procs.get r := by
    intro r
    rw [← hs']
    exact (OrdMap.get_erase ..).trans (by rw [OrdMap.get_set])
  -- the process has no children left, linked or not
  have horphan : ∀ {r br}, s.g_procs.get r = some br → br.parent ≠ some p := by
    intro r br hbr hbrp
    obtain ⟨c, hc⟩ := (h.linked r br p b hbr hbrp hb).mp (hchildren r)
    exact h.not_unlinked_of_no_threads ht hb hthreads hbr hbrp hc
  have hlinked : ∀ c, (s.cpu c).job.unlinked ≠ some p := by
    intro c hc
    have hnone := (h.linked p b q bq hb hparent hq).mpr ⟨c, hc⟩
    cases hin.symm.trans hnone
  have hcpu : ∀ d, s'.cpu d = s.cpu d := fun _ => hs' ▸ rfl
  have hthread : ∀ t, s'.thread t = s.thread t := fun _ => hs' ▸ rfl
  have hnext : s'.g_next_pid = s.g_next_pid := hs' ▸ rfl
  constructor
  case bound => grind
  case parent => grind
  case child => grind
  case linked =>
    intro r b₁ q' b₂ hb₁ hq' hb₂
    simp only [hcpu]
    grind [h.linked r]
  case unborn => grind
  case minted => simpa only [hcpu, hthread] using h.minted
  case unbornOnce => simpa only [hcpu] using h.unbornOnce
  case adopts => grind [Job.unlinked]
  case linkOnce => simpa only [hcpu] using h.linkOnce

theorem Move.registry (hm : Move M s s') (h : Registry s) (ht : Threads s) : Registry s' := by
  have hkeep : ∀ {s'' : State}, s''.g_next_pid = s.g_next_pid → Same Process.tree s s'' →
      (∀ c, SameChild (s.cpu c).job (s''.cpu c).job) → SameProc s s'' → Registry s'' :=
    fun hnext htree hjob hproc => h.frame hnext htree hjob fun _ t th' _ => hproc t th'
  cases hm with
  | job hthread hold hnew =>
    exact hkeep rfl (.of_eq rfl) (sameChild_setJob s (hold.sameChild hnew)) (.of_eq rfl)
  | take hjob hth _ _ _ _ hnew =>
    refine hkeep rfl (.of_eq rfl) (sameChild_setJob (s.setThread _ _) ?_)
      (.setThread hth rfl rfl)
    change SameChild (s.cpu _).job _
    rw [hjob]
    exact Job.Plain.sameChild ⟨rfl, rfl, rfl, rfl⟩ hnew
  | leave hjob hold hth | park hjob hold hth =>
    exact hkeep rfl (.of_eq rfl)
      (sameChild_setJob (s.setThread _ _) (hold.sameChild ⟨rfl, rfl, rfl, rfl⟩)) (.setThread hth rfl rfl)
  | wake hth _ => exact hkeep rfl (.of_eq rfl) (fun _ => .inl rfl) (.setThread hth rfl rfl)
  | switch hthread hold hnew _ | load hthread hold hnew =>
    exact hkeep rfl (.of_eq rfl) (sameChild_setCpu s (hold.sameChild hnew)) (.of_eq rfl)
  | own | freeAs => exact hkeep rfl (.of_eq rfl) (fun _ => .inl rfl) (.of_eq rfl)
  | free _ hold =>
    exact hkeep rfl (.of_eq rfl) (sameChild_setJob (s.setOwn _)
      (.inr ⟨⟨hold.unborn, hold.unlinked⟩, rfl, rfl⟩)) (.of_eq rfl)
  | finish hjob _ _ =>
    refine hkeep rfl (.of_eq rfl) (sameChild_setJob (s.setOwn _) ?_) (.of_eq rfl)
    change SameChild (s.cpu _).job _
    rw [hjob]
    exact .inr ⟨⟨rfl, rfl⟩, rfl, rfl⟩
  | status hb _ => exact h.setProc hb rfl
  | mark hb _ => exact h.setProc hb rfl
  | mute hb _ => exact h.setProc hb rfl
  | post hb _ _ _ =>
    exact hkeep rfl (.setProc hb rfl rfl) (fun _ => .inl rfl) (.of_eq rfl)
  | mint _ hold => exact h.mint ht hold rfl
  | register hjob hth => exact h.register ht hjob hth rfl
  | link hjob hth hb _ => exact h.link hjob hth hb rfl
  | adopt hjob _ =>
    refine hkeep rfl (.of_eq rfl) (sameChild_setJob s ?_) (.of_eq rfl)
    rw [hjob]
    exact .inr ⟨⟨rfl, rfl⟩, rfl, rfl⟩
  | spawn hb _ _ =>
    refine h.frame rfl (.setProc hb rfl rfl) (fun _ => .inl rfl) fun c t th' hc hth' => ?_
    -- the new thread is on no CPU
    obtain ⟨th, hth, -⟩ := ht.onCpu c t hc
    have hne : t ≠ s.g_next_tid := Nat.ne_of_lt (ht.bound t th hth)
    refine ⟨th', ?_, rfl⟩
    exact (update_of_ne hne _ s.thread).symm.trans hth'
  | reap hth hb _ _ =>
    refine hkeep rfl (.setProc hb rfl rfl) (fun _ => .inl rfl) fun t' th' hth' => ⟨th', ?_, rfl⟩
    change update s.thread _ none t' = some th' at hth'
    rw [update_apply] at hth'
    split at hth'
    · cases hth'
    · exact hth'
  | unregister hb _ hparent hq hin hthreads hchildren _ _ _ _ =>
    exact h.unregister ht hb hparent hq hin hthreads hchildren rfl

/-! ## 3. The threads -/

theorem thread_setJob_of_eq (s : State) {j : Job} (h : j.thread = (s.cpu c).job.thread)
    (d : Nat) : ((s.setJob c j).cpu d).job.thread = (s.cpu d).job.thread := by grind [job_setJob]

theorem thread_setCpu_of_eq (s : State) {k : Cpu} (h : k.job.thread = (s.cpu c).job.thread)
    (d : Nat) : ((s.setCpu c k).cpu d).job.thread = (s.cpu d).job.thread := by grind [cpu_setCpu]

theorem SameProc.setThread' (hth : s.thread t = some th)
    (hthread : s'.thread = update s.thread t (some th')) (hproc : th'.proc = th.proc) :
    SameProc s' s := by
  intro t₁ th₁ hth₁
  rw [hthread, update_apply]
  grind

theorem Threads.setStatus (h : Threads s) {status : Status} {j : Job}
    (hth : s.thread t = some th) (hj : j.thread = none ∨ j.thread = some t)
    (hon : j.thread = some t → status ≠ .RUNNABLE ∧ status ≠ .BLOCKED)
    (hoff : ∀ d, d ≠ c → (s.cpu d).job.thread ≠ some t) :
    Threads ((s.setThread t (some { th with status := status })).setJob c j) := by
  refine h.frame rfl (.of_eq rfl) (.setThread hth rfl rfl) (.setThread' hth rfl rfl) ?_ ?_
  · intro d t' hd
    rw [job_setJob, cpu_setThread] at hd
    change ∃ th', update s.thread t _ t' = some th' ∧ _
    rw [update_apply]
    grind [h.onCpu d t']
  · intro d e t' hd he
    rw [job_setJob, cpu_setThread] at hd he
    grind [h.once d e t']

theorem Threads.not_onCpu (h : Threads s) (hth : s.thread t = some th)
    (hstatus : th.status = .RUNNABLE ∨ th.status = .BLOCKED) : (s.cpu c).job.thread ≠ some t := by
  intro hc
  grind [h.onCpu c t hc]

theorem Threads.spawn (h : Threads s) (hb : s.g_procs.get p = some b) {completion : Option BlockId}
    (hs' : ({ s.setOwn own with g_next_tid := s.g_next_tid + 1 }.setThread s.g_next_tid
      (some ⟨p, .RUNNABLE, completion⟩)).setProc p { b with
        threads := b.threads.set s.g_next_tid s.g_next_tid, nthreads := b.nthreads + 1 } = s') :
    Threads s' := by
  have hthread : ∀ t, s'.thread t =
      if t = s.g_next_tid then some ⟨p, .RUNNABLE, completion⟩ else s.thread t :=
    fun t => hs' ▸ update_apply ..
  have hget : ∀ q, s'.g_procs.get q = if q = p then some { b with
      threads := b.threads.set s.g_next_tid s.g_next_tid, nthreads := b.nthreads + 1 } else
        s.g_procs.get q := fun q => hs' ▸ OrdMap.get_set ..
  have hcpu : ∀ d, s'.cpu d = s.cpu d := fun _ => hs' ▸ rfl
  have hnext : s'.g_next_tid = s.g_next_tid + 1 := hs' ▸ rfl
  have hne : ∀ {t th}, s.thread t = some th → t ≠ s.g_next_tid := fun hth =>
    Nat.ne_of_lt (h.bound _ _ hth)
  constructor
  case listed => grind
  case lists => grind
  case bound => grind
  case onCpu => grind
  case once => simpa only [hcpu] using h.once

theorem Threads.reap (h : Threads s)
    (hth : s.thread t = some th) (hb : s.g_procs.get th.proc = some b)
    (hoff : ∀ c, (s.cpu c).job.thread ≠ some t)
    (hs' : ((s.setOwn own).setThread t none).setProc th.proc { b with
      threads := b.threads.erase t, nthreads := b.nthreads - 1 } = s') : Threads s' := by
  have hthread : ∀ t', s'.thread t' = if t' = t then none else s.thread t' :=
    fun t' => hs' ▸ update_apply ..
  have hget : ∀ q, s'.g_procs.get q = if q = th.proc then some { b with
      threads := b.threads.erase t, nthreads := b.nthreads - 1 } else s.g_procs.get q :=
    fun q => hs' ▸ OrdMap.get_set ..
  have hcpu : ∀ d, s'.cpu d = s.cpu d := fun _ => hs' ▸ rfl
  have hnext : s'.g_next_tid = s.g_next_tid := hs' ▸ rfl
  constructor
  case listed => grind
  case lists => grind
  case bound => grind
  case onCpu => grind
  case once => simpa only [hcpu] using h.once

theorem Threads.register (h : Threads s)
    (hjob : (s.cpu c).job = .creating t child) (hnone : s.g_procs.get child = none)
    {parent : Option Nat}
    (hs' : ({ s with g_procs := s.g_procs.set child (.fresh parent) }.setOwn own).setJob c
      (.linking t child) = s') : Threads s' := by
  have hget : ∀ p, s'.g_procs.get p =
      if p = child then some (.fresh parent) else s.g_procs.get p :=
    fun p => hs' ▸ OrdMap.get_set ..
  have hcpu : ∀ d, (s'.cpu d).job.thread = (s.cpu d).job.thread := by
    intro d
    rw [← hs']
    refine thread_setJob_of_eq ({ s with g_procs := s.g_procs.set child (.fresh parent) }.setOwn own)
      ?_ d
    exact (congrArg Job.thread hjob).symm
  have hthread : ∀ t, s'.thread t = s.thread t := fun _ => hs' ▸ rfl
  have hnext : s'.g_next_tid = s.g_next_tid := hs' ▸ rfl
  constructor
  case listed => grind [Process.fresh]
  case lists => grind
  case bound => simpa only [hthread, hnext] using h.bound
  case onCpu => simpa only [hcpu, hthread] using h.onCpu
  case once => simpa only [hcpu] using h.once

theorem Threads.unregister (h : Threads s)
    (hb : s.g_procs.get p = some b) (hq : s.g_procs.get q = some bq)
    (hthreads : ∀ t, b.threads.get t = none) {children : OrdMap Nat Nat}
    (hs' : { s with g_procs :=
      (s.g_procs.set q { bq with children := children }).erase p }.setOwn own = s') :
    Threads s' := by
  have hget : ∀ r, s'.g_procs.get r = if r = p then none else if r = q then
      some { bq with children := children } else s.g_procs.get r := by
    intro r
    rw [← hs']
    exact (OrdMap.get_erase ..).trans (by rw [OrdMap.get_set])
  have hcpu : ∀ d, s'.cpu d = s.cpu d := fun _ => hs' ▸ rfl
  have hthread : ∀ t, s'.thread t = s.thread t := fun _ => hs' ▸ rfl
  have hnext : s'.g_next_tid = s.g_next_tid := hs' ▸ rfl
  constructor
  case listed => grind
  case lists => grind
  case bound => simpa only [hthread, hnext] using h.bound
  case onCpu => simpa only [hcpu, hthread] using h.onCpu
  case once => simpa only [hcpu] using h.once

theorem Move.threads (hm : Move M s s') (hr : Registry s) (h : Threads s) : Threads s' := by
  cases hm with
  | job hthread _ _ => exact h.still rfl (.of_eq rfl) rfl (thread_setJob_of_eq s hthread)
  | take _ hth hrun hr hb hj _ =>
    exact h.setStatus hth (.inr hj) (fun _ => ⟨hr, hb⟩) fun d _ => h.not_onCpu hth (.inl hrun)
  | leave hjob _ hth =>
    exact h.setStatus hth (.inr rfl) (fun _ => ⟨nofun, nofun⟩) fun d hd hd' =>
      hd (h.once d _ _ hd' hjob)
  | park hjob _ hth =>
    exact h.setStatus hth (.inl rfl) nofun fun d hd hd' => hd (h.once d _ _ hd' hjob)
  | wake hth hb =>
    refine h.frame rfl (.of_eq rfl) (.setThread hth rfl rfl) (.setThread' hth rfl rfl) ?_ h.once
    intro c t' hc
    obtain ⟨th', hth', hstatus⟩ := h.onCpu c t' hc
    refine ⟨th', ?_, hstatus⟩
    rw [thread_setThread, if_neg]
    · exact hth'
    · rintro rfl
      exact h.not_onCpu hth (.inr hb) hc
  | switch hthread _ _ _ | load hthread _ _ =>
    exact h.still rfl (.of_eq rfl) rfl (thread_setCpu_of_eq s hthread)
  | own | freeAs => exact h.still rfl (.of_eq rfl) rfl fun _ => rfl
  | free hthread _ _ _ _ _ _ =>
    exact h.still rfl (.of_eq rfl) rfl (thread_setJob_of_eq (s.setOwn _) hthread.symm)
  | finish hjob _ _ =>
    refine h.still rfl (.of_eq rfl) rfl (thread_setJob_of_eq (s.setOwn _) ?_)
    exact (congrArg Job.thread hjob).symm
  | status hb _ | mark hb _ | mute hb _ | post hb _ _ _ =>
    exact h.still rfl (.setProc hb rfl rfl) rfl fun _ => rfl
  | mint hthread _ =>
    exact h.still rfl (.of_eq rfl) rfl
      (thread_setJob_of_eq { s with g_next_pid := s.g_next_pid + 1 } hthread.symm)
  | @register c t child th hjob hth =>
    have hnone := (hr.unborn c child (by rw [hjob]; rfl)).2
    exact h.register hjob hnone rfl
  | link hjob hth hb _ =>
    refine h.still rfl (.setProc hb rfl rfl) rfl (thread_setJob_of_eq (s.setProc _ _) ?_)
    exact (congrArg Job.thread hjob).symm
  | adopt hjob _ =>
    refine h.still rfl (.of_eq rfl) rfl (thread_setJob_of_eq s ?_)
    exact (congrArg Job.thread hjob).symm
  | spawn hb _ _ => exact h.spawn hb rfl
  | reap hth hb hoff _ => exact h.reap hth hb hoff rfl
  | unregister hb _ _ hq _ hthreads _ _ _ _ _ => exact h.unregister hb hq hthreads rfl

end GovinDos.Kernel
