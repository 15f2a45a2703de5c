/-
  **Every step is made of moves (`kernel/src/process.c`, `syscall.c`).**

  One lemma for each function of the model: the moves it makes, the share events it posts,
  and that it follows no pointer to what is gone.  The one place where that can happen is
  `proc_sys_create`, which reads the pid of its child once more after the child is linked.
-/
import GovinDos.KernelGraph
import GovinDos.ShareEdges

namespace GovinDos.Kernel

open Ownership Function
open Umem (BlockId EdgeRef Backing)

variable {c p me pid t : Nat} {th : Thread}

/-! ## 1. Results of a section -/

theorem bind_ok {α β : Type} {x : Except Stop α} {f : α → Except Stop β} {r : β}
    (h : x >>= f = .ok r) : ∃ a, x = .ok a ∧ f a = .ok r := by
  cases x with
  | error e => cases h
  | ok a => exact ⟨a, rfl, h⟩

theorem pure_ok {α : Type} {a r : α} (h : (pure a : Except Stop α) = .ok r) : r = a :=
  (Except.ok.inj h).symm

theorem deref_ok {α : Type} {o : Option α} {a : α} (h : deref o = .ok a) : o = some a := by
  cases o with
  | none => cases h
  | some b => exact congrArg some (Except.ok.inj h)

/-- `x` follows a pointer to what is gone only if `F`, and what it returns has `P`. -/
structure Meets {α : Type} (F : Prop) (x : Except Stop α) (P : α → Prop) : Prop where
  faults : x = .error .fault → F
  ok : ∀ a, x = .ok a → P a

section

variable {α β : Type} {F : Prop} {P P' : α → Prop} {Q : β → Prop} {x : Except Stop α}
  {f : α → Except Stop β} {o : Option α}

theorem Meets.pure {a : α} (h : P a) : Meets F (pure a) P :=
  ⟨nofun, fun _ ha => pure_ok ha ▸ h⟩

theorem Meets.disabled : Meets F (.error .disabled) P := ⟨nofun, nofun⟩

theorem Meets.mono (h : Meets F x P) (hP : ∀ a, P a → P' a) : Meets F x P' :=
  ⟨h.faults, fun a ha => hP a (h.ok a ha)⟩

theorem Meets.bind (h : Meets F x P) (hf : ∀ a, P a → Meets F (f a) Q) : Meets F (x >>= f) Q := by
  cases x with
  | error e =>
    refine ⟨fun he => h.faults ?_, nofun⟩
    cases he
    rfl
  | ok a => exact hf a (h.ok a rfl)

theorem Meets.deref (h : o.isSome) (hf : ∀ a, o = some a → Meets F (f a) Q) :
    Meets F (deref o >>= f) Q := by
  obtain ⟨a, rfl⟩ := Option.isSome_iff_exists.mp h
  exact hf a rfl

theorem Meets.asserts {b : Bool} {f : Unit → Except Stop β} (hf : b = true → Meets F (f ()) Q) :
    Meets F (asserts b >>= f) Q := by
  cases b with
  | false => exact ⟨nofun, nofun⟩
  | true => exact hf rfl

theorem Meets.assertSome (hf : ∀ a, o = some a → Meets F (f a) Q) :
    Meets F (assertSome o >>= f) Q := by
  cases o with
  | none => exact ⟨nofun, nofun⟩
  | some a => exact hf a rfl

end

variable {F : Prop} {M : May} {xs : List ShareEvent} {s s₁ s' : State}

structure Turns (M : May) (xs : List ShareEvent) (s s' : State) : Prop where
  moves : Moves M s s'
  board : ∀ b, Shows s.own b → Announces b xs s'.own

theorem Turns.refl (s : State) : Turns M [] s s := ⟨.refl, fun _ => .keep⟩

theorem Turns.single (hm : Move M s s') (hsame : SameEdges s.own s'.own) : Turns M [] s s' :=
  ⟨.single hm, fun _ => hsame.announces⟩

theorem Turns.head (hm : Moves M s s₁) (hsame : SameEdges s.own s₁.own) (h : Turns M xs s₁ s') :
    Turns M xs s s' :=
  ⟨hm.trans h.moves, fun b hb => h.board b (hsame.shows hb)⟩

structure Aside (M : May) (xs : List ShareEvent) (s s' : State) : Prop extends Turns M xs s s' where
  cpu : s'.cpu = s.cpu

theorem Aside.refl (s : State) : Aside M [] s s := ⟨.refl s, rfl⟩

theorem Aside.single (hm : Move M s s') (hcpu : s'.cpu = s.cpu) (hsame : SameEdges s.own s'.own) :
    Aside M [] s s' := ⟨.single hm hsame, hcpu⟩

theorem Aside.setJob (h : Aside M xs s s') {j : Job} (hthread : j.thread = (s.cpu c).job.thread)
    (hold : (s.cpu c).job.Calm) (hnew : j.Plain) : Turns M xs s (s'.setJob c j) := by
  refine ⟨h.moves.tail (.job ?_ ?_ hnew), h.board⟩
  · rw [h.cpu, hthread]
  · rwa [h.cpu]

theorem Moves.own {own' : Ownership.State} (h : Kept Nobody Nobody s.own own') :
    Moves M s (s.setOwn own') :=
  .single (.own h (fun _ => False.elim) fun _ => False.elim)

structure Inner (M : May) (s s' : State) : Prop where
  moves : Moves M s s'
  cpu : s'.cpu = s.cpu
  thread : s'.thread = s.thread
  own : s'.own = s.own

theorem Inner.refl (s : State) : Inner M s s := ⟨.refl, rfl, rfl, rfl⟩

theorem Inner.trans (h : Inner M s s₁) (h' : Inner M s₁ s') : Inner M s s' :=
  ⟨h.moves.trans h'.moves, h'.cpu.trans h.cpu, h'.thread.trans h.thread, h'.own.trans h.own⟩

theorem Inner.aside (h : Inner M s s') : Aside M [] s s' :=
  ⟨⟨h.moves, fun _ hb => h.own ▸ .keep hb⟩, h.cpu⟩

/-! ## 2. Death -/

theorem isSome_setProc {q : Nat} {b : Process} (h : (s.g_procs.get q).isSome) :
    ((s.setProc p b).g_procs.get q).isSome := by
  rw [get_setProc]
  split
  · rfl
  · exact h

theorem deadIn_of_dead {b : Process} (hb : s.g_procs.get p = some b)
    (hdead : b.dead = true) : DeadIn s.links p :=
  .here (l := ⟨b.parent, b.dead⟩) (by rw [links_get, hb]; rfl) hdead

theorem markDeadLocked_meets (hr : Registry s) (hp : (s.g_procs.get p).isSome) :
    Meets F (markDeadLocked s p) fun s' => s' = s ∧ DeadIn s.links p ∨
      ∃ b, s.g_procs.get p = some b ∧ ¬ DeadIn s.links p ∧
        s' = s.setProc p { b with dead := true } := by
  unfold markDeadLocked
  split
  · rename_i hd
    exact .pure (.inl ⟨rfl, (hr.isDead_iff p).mp hd⟩)
  · rename_i hd
    refine .asserts fun _ => .deref hp fun b hb => .pure (.inr ⟨b, hb, fun hd' => ?_, rfl⟩)
    exact hd ((hr.isDead_iff p).mpr hd')

theorem notifyParentLocked_meets (hr : Registry s) {room : Bool} (hd : DeadIn s.links p)
    (hp : (s.g_procs.get p).isSome)
    (hA : ∀ b, s.g_procs.get p = some b → b.dead = true → b.death_notified = false ∨ M.again p) :
    Meets F (notifyParentLocked s p room) (Inner M s) := by
  refine .deref hp fun b hb => ?_
  have hmute : Inner M s (s.setProc p { b with death_notified := true }) :=
    ⟨.single (.mute hb hd), rfl, rfl, rfl⟩
  split
  · exact .pure hmute
  rename_i parent hparent
  split
  · exact .pure hmute
  rename_i hlive
  unfold channelChildDeadNotify
  split
  · refine .deref hp fun b' hb' => .pure ?_
    cases hb.symm.trans hb'
    -- under a live parent the mark is the process's own
    have hdead : b.dead = true :=
      hd.direct (l := ⟨b.parent, b.dead⟩) (by rw [links_get, hb]; rfl) hparent fun hq =>
        hlive ((hr.isDead_iff parent).mpr hq)
    exact ⟨.single (.post hb hparent hdead (hA b hb hdead)), rfl, rfl, rfl⟩
  · exact .pure (.refl s)

theorem markNotify_meets (h : Inv s) {room : Bool} (hp : (s.g_procs.get p).isSome)
    (hA : ∀ b, s.g_procs.get p = some b → b.dead = true → M.again p) :
    Meets F (markDeadLocked s p) fun s₁ => Meets F (notifyParentLocked s₁ p room) (Inner M s) := by
  refine (markDeadLocked_meets h.registry hp).mono fun s₁ hs₁ => ?_
  rcases hs₁ with ⟨rfl, hd⟩ | ⟨b, hb, hlive, rfl⟩
  · exact notifyParentLocked_meets h.registry hd hp fun b hb hdead => .inr (hA b hb hdead)
  · have hm : Move M s (s.setProc p { b with dead := true }) := .mark hb hlive
    have hget : (s.setProc p { b with dead := true }).g_procs.get p = some { b with dead := true } := by
      rw [get_setProc, if_pos rfl]
    refine (notifyParentLocked_meets (hm.registry h.registry h.threads)
      (deadIn_of_dead hget rfl) (isSome_setProc hp) (fun b' hb' _ => ?_)).mono
      fun s' => .trans ⟨.single hm, rfl, rfl, rfl⟩
    rw [hget] at hb'
    cases hb'
    left
    cases hn : b.death_notified with
    | false => rfl
    | true => exact absurd (h.announced p b hb hn) hlive

theorem Inv.isSome_as (h : Inv s) (hth : s.thread t = some th) :
    (s.own.mem th.proc).as.isSome := by
  cases has : (s.own.mem th.proc).as with
  | some n => rfl
  | none =>
    obtain ⟨b, hb, hin⟩ := h.threads.lists t th hth
    have hno := (h.memory.as th.proc b hb has).2.1 t
    rw [hin] at hno
    cases hno

theorem Inv.isSome_as_of_live (h : Inv s) (hlive : live s.links p = true) :
    (s.own.mem p).as.isSome ∧ (s.g_procs.get p).isSome ∧ ¬ DeadIn s.links p := by
  simp only [live, Bool.and_eq_true, Bool.not_eq_true'] at hlive
  obtain ⟨hsome, hnot⟩ := hlive
  have hnd : ¬ DeadIn s.links p := by
    intro hd
    have hd' : processIsDead s.links p = true := (h.registry.isDead_iff p).mpr hd
    rw [hnot] at hd'
    cases hd'
  rw [links_get, Option.isSome_map] at hsome
  obtain ⟨b, hb⟩ := Option.isSome_iff_exists.mp hsome
  refine ⟨?_, hsome, hnd⟩
  cases has : (s.own.mem p).as with
  | some n => rfl
  | none => exact absurd (h.memory.as p b hb has).1 hnd

theorem procSysKill_meets (h : Inv s) {room : Bool} :
    Meets F (procSysKill s me pid room) fun x => Aside M [] s x.1 := by
  unfold procSysKill
  split
  · exact .pure (.refl s)
  rename_i hgate
  split
  · exact .pure (.refl s)
  simp only [Bool.or_eq_true, not_or, Bool.not_eq_true', Bool.not_eq_false] at hgate
  obtain ⟨-, hp, hlive⟩ := h.isSome_as_of_live hgate.1
  refine (markNotify_meets h hp fun b hb hdead => ?_).bind fun s₁ hs₁ =>
    hs₁.bind fun s₂ hs₂ => .pure hs₂.aside
  exact absurd (deadIn_of_dead hb hdead) hlive

theorem treeReplay_meets (room : Nat) (children : List Nat)
    (hchildren : ∀ c ∈ children, ∃ b, s.g_procs.get c = some b ∧ b.parent = some p) :
    Meets F (treeReplay s p room children) (Inner M s) := by
  induction children generalizing s room with
  | nil => exact .pure (.refl s)
  | cons c rest ih =>
    rw [treeReplay.eq_def]
    obtain ⟨b, hb, hparent⟩ := hchildren c List.mem_cons_self
    have hrest : ∀ c ∈ rest, ∃ b, s.g_procs.get c = some b ∧ b.parent = some p :=
      fun c' hc' => hchildren c' (List.mem_cons_of_mem c hc')
    refine .deref (by rw [hb]; rfl) fun b₁ hb₁ => ?_
    cases hb.symm.trans hb₁
    split
    · rename_i hgate
      simp only [Bool.and_eq_true, Bool.not_eq_true'] at hgate
      split
      · exact .pure (.refl s)
      · have hpost : Inner M s (postChildDead s p c b) :=
          ⟨.single (.post hb hparent hgate.1 (.inl hgate.2)), rfl, rfl, rfl⟩
        refine (ih _ fun c' hc' => ?_).mono fun s' => hpost.trans
        change ∃ b', (s.setProc c { b with death_notified := true }).g_procs.get c' = some b' ∧ _
        rw [get_setProc]
        split
        · exact ⟨_, rfl, hparent⟩
        · exact hrest c' hc'
    · exact ih _ hrest

theorem replay_meets (h : Inv s) {p room : Nat} {scheme : Scheme} (hp : (s.g_procs.get p).isSome) :
    Meets F (replay s p scheme room)
      (Aside M (if scheme = .SHARES then replayPosts room s.own p else []) s) := by
  cases scheme with
  | SHARES =>
    obtain ⟨o, ho⟩ := exists_shows h.memory.ok.pending
    obtain ⟨g', hrun, hshows, hstill, -⟩ := ho.replay h.memory.ok.core room p
    have hkept : Kept Nobody Nobody s.own g' :=
      (Kept.refl h.memory.ok).still (h.memory.ok.still hstill hshows) hstill
    simp only [replay, hrun]
    exact .pure ⟨⟨.own hkept, fun _ hb => sharesReplay_announces hb h.memory.ok.core room p hrun⟩, rfl⟩
  | TREE =>
    refine .deref hp fun b hb => ?_
    refine (treeReplay_meets room _ fun c hc => ?_).mono fun s' => Inner.aside
    obtain ⟨⟨k, v⟩, hkv, rfl⟩ := List.mem_map.mp hc
    obtain ⟨rfl, hchild⟩ := h.registry.child p b k v hb (OrdMap.get_eq_some_iff.mpr hkv)
    exact hchild
  | _ => exact .pure (.refl s)

/-! ## 3. Threads -/

theorem Inv.isSome_proc (h : Inv s) (hth : s.thread t = some th) :
    (s.g_procs.get th.proc).isSome := by
  obtain ⟨b, hb, -⟩ := h.threads.lists t th hth
  rw [hb]
  rfl

theorem completeThread_spec (hok : Ok s.own) (hcomp : ∀ id, Completing s id)
    (hth : s.thread t = some th) : ∃ own', completeThread s th = .ok (s.setOwn own') ∧
      Repins s.own own' th.completion_block th.proc false ∧ SameEdges s.own own' := by
  cases hid : th.completion_block with
  | none => exact ⟨s.own, by rw [completeThread, hid]; rfl, rfl, .refl _⟩
  | some id =>
    -- the thread is one of those that the pins count
    obtain ⟨l, -, hmem, -, hcons⟩ := hcomp id
    have hin : t ∈ l := (hmem t).mpr ⟨th, hth, hid⟩
    obtain ⟨p, hp, hproc⟩ := hcons (List.ne_nil_of_mem hin)
    obtain ⟨th', hth', rfl⟩ := hproc t hin
    cases hth.symm.trans hth'
    obtain ⟨n, hn⟩ : ∃ n, l.length = n + 1 :=
      Nat.exists_eq_succ_of_ne_zero (Nat.ne_of_gt (List.length_pos_of_mem hin))
    rw [hn] at hp
    obtain ⟨g', hrun, hr, hsame⟩ := channelThreadCompleteLocked_spec hok hp
    exact ⟨g', by simp only [completeThread, hid, hrun]; rfl, ⟨n, hp, hr⟩, hsame⟩

theorem reap_meets (h : Inv s) (hth : s.thread t = some th)
    (hoff : ∀ c, (s.cpu c).job.thread ≠ some t) :
    Meets F (completeThread s th) fun s₁ => Meets F (removeThread s₁ th.proc t) fun s' =>
      Move M s s' ∧ s'.cpu = s.cpu ∧ SameEdges s.own s'.own ∧ (s'.g_procs.get th.proc).isSome := by
  have hp := h.isSome_proc hth
  obtain ⟨own', hrun, hpin, hsame⟩ := completeThread_spec h.memory.ok h.memory.completing hth
  rw [hrun]
  refine .pure (.deref hp fun b hb => .assertSome fun x hremove => .asserts fun _ => .pure ?_)
  obtain ⟨removed, threads⟩ := x
  obtain ⟨-, rfl⟩ := OrdMap.remove_eq_some_iff.mp hremove
  exact ⟨.reap hth hb hoff hpin, rfl, hsame, isSome_setProc hp⟩

theorem processThreadExited_meets (h : Inv s) {room : Bool} (hth : s.thread t = some th)
    (hoff : ∀ c, (s.cpu c).job.thread ≠ some t) :
    Meets F (processThreadExited s t room) (Turns M [] s) := by
  refine .deref (by rw [hth]; rfl) fun th' hth' => ?_
  cases hth.symm.trans hth'
  refine (reap_meets (M := M) h hth hoff).bind fun s₁ hs₁ => hs₁.bind fun s₂ hs₂ => ?_
  obtain ⟨hm, -, hsame, hp⟩ := hs₂
  refine .deref hp fun b hb => ?_
  split
  · rename_i hgate
    refine (markNotify_meets (hm.inv h) hp fun b' hb' hdead => ?_).bind fun s₃ hs₃ =>
      hs₃.mono fun s' hs' => hs'.aside.toTurns.head (.single hm) hsame
    have hd' := ((hm.inv h).registry.isDead_iff th.proc).mpr (deadIn_of_dead hb' hdead)
    simp [hd'] at hgate
  · exact .pure (.single hm hsame)

theorem processSpawnThreadLocked_meets (h : Inv s) {completion : Option BlockId}
    {own' : Ownership.State} (hp : (s.g_procs.get p).isSome)
    (hpin : Repins s.own own' completion p true) (hsame : SameEdges s.own own') :
    Meets F (processSpawnThreadLocked (s.setOwn own') p completion) (Aside M [] s) := by
  refine .asserts fun hlive => .deref hp fun b hb => .assertSome fun threads hinsert => .pure ?_
  obtain ⟨-, rfl⟩ := OrdMap.insert_eq_some_iff.mp hinsert
  refine .single (.spawn hb (fun hd => ?_) hpin) rfl hsame
  have hd' : (s.setOwn own').isDead p = true := (h.registry.isDead_iff p).mpr hd
  rw [hd'] at hlive
  cases hlive

theorem procSysThreadSpawn_meets (h : Inv s) {completion : Option BlockId} {start : Bool} :
    Meets F (procSysThreadSpawn s me pid completion start) fun x => Aside M [] s x.1 := by
  unfold procSysThreadSpawn
  split
  · exact .pure (.refl s)
  rename_i hlive
  obtain ⟨has, hp, -⟩ := h.isSome_as_of_live (p := pid) (by simpa using hlive)
  refine .deref hp fun target _ => ?_
  split
  · exact .pure (.refl s)
  refine .deref has fun _ _ => ?_
  split
  · exact .pure (.refl s)
  split
  · exact (processSpawnThreadLocked_meets h hp (show Repins s.own s.own none pid true from rfl)
      (.refl _)).bind fun _ hs' => .pure hs'
  split
  · exact .pure (.refl s)
  split
  · exact .pure (.refl s)
  · rename_i id _ _ own' hpin
    obtain ⟨hpins, hsame⟩ := pinCompletion_spec h.memory.ok hpin
    exact (processSpawnThreadLocked_meets h hp (show Repins s.own own' (some id) pid true from hpins)
      hsame).bind fun _ hs' => .pure hs'

theorem isSome_subject {q : Nat} (hme : (s.g_procs.get me).isSome)
    (hq : resourceSubjectLocked s me pid = some q) : (s.g_procs.get q).isSome := by
  unfold resourceSubjectLocked at hq
  split at hq
  · cases hq
    exact hme
  · split at hq
    · rename_i hgate
      cases hq
      simp only [Bool.and_eq_true] at hgate
      rw [links_get, Option.isSome_map] at hgate
      exact hgate.1
    · cases hq

theorem procSysThreadDestroy_meets (h : Inv s) {tid : Nat} {claimed : Bool}
    (hme : (s.g_procs.get me).isSome) :
    Meets F (procSysThreadDestroy s me pid tid claimed) fun x => Aside M [] s x.1 := by
  unfold procSysThreadDestroy
  split
  · exact .pure (.refl s)
  rename_i target htarget
  split
  · exact .pure (.refl s)
  refine .deref (isSome_subject hme htarget) fun b hb => ?_
  split
  · exact .pure (.refl s)
  rename_i victim hvictim
  obtain ⟨rfl, th, hth, rfl⟩ := h.threads.listed target b tid victim hb hvictim
  refine .deref (by rw [hth]; rfl) fun th' hth' => ?_
  cases hth.symm.trans hth'
  split
  · exact .pure (.refl s)
  rename_i hgate
  have hblocked : th.status = .BLOCKED := by
    simp only [Bool.or_eq_true, not_or, decide_eq_true_eq, ne_eq, not_not] at hgate
    exact hgate.1
  exact (reap_meets h hth fun c => h.threads.not_onCpu hth (.inr hblocked)).bind fun s₁ hs₁ =>
    hs₁.bind fun s₂ hs₂ => .pure (.single hs₂.1 hs₂.2.1 hs₂.2.2.1)

/-! ## 4. Destruction -/

theorem asIsCurrent_eq_false (h : asIsCurrent s pid = false)
    (hc : c < s.g_cpu_state_table_len) : (s.cpu c).current_as ≠ some pid := by
  intro heq
  have hno := List.any_eq_false.mp h c (List.mem_range.mpr hc)
  simp [heq] at hno

structure Empty (s : State) (p : Nat) (b : Process) : Prop where
  body : s.g_procs.get p = some b
  dead : DeadIn s.links p
  blocks : ∀ base, (s.own.mem p).blocks.get base = none
  views : ∀ base, (s.own.mem p).views.get base = none
  children : ∀ q, b.children.get q = none
  threads : ∀ t, b.threads.get t = none

inductive Destroyed (s : State) (p : Nat) : State → Prop
  | refused : Destroyed s p s
  | space {b : Process} (he : Empty s p b) (has : (s.own.mem p).as = some 0)
      (hcur : ∀ c, c < s.g_cpu_state_table_len → (s.cpu c).current_as ≠ some p) :
      Destroyed s p (s.setOwn (s.own.setMem p { s.own.mem p with as := none }))
  | body {q : Nat} {b bq : Process} (he : Empty s p b) (has : (s.own.mem p).as = none)
      (hparent : b.parent = some q) (hq : s.g_procs.get q = some bq)
      (hin : bq.children.get p = some p) :
      Destroyed s p ({ s with g_procs :=
        (s.g_procs.set q { bq with children := bq.children.erase p }).erase p }.setOwn
          (s.own.setMem p .none))

theorem freeProcess_meets {b : Process} {q : Nat} (he : Empty s pid b)
    (has : (s.own.mem pid).as = none) (hq : b.parent = some q) (hbq : (s.g_procs.get q).isSome) :
    Meets F (freeProcess s pid b) (Destroyed s pid) := by
  refine .deref (by rw [hq]; rfl) fun q' hq' => ?_
  cases hq.symm.trans hq'
  refine .deref hbq fun bq hbq => .assertSome fun ⟨removed, children⟩ hremove =>
    .asserts fun hsame => .assertSome fun ⟨body, g_procs⟩ herase => .asserts fun _ => .pure ?_
  obtain ⟨hin, rfl⟩ := OrdMap.remove_eq_some_iff.mp hremove
  obtain rfl : removed = pid := by simpa using hsame
  obtain ⟨-, rfl⟩ := OrdMap.remove_eq_some_iff.mp herase
  exact .body he has hq hbq hin

theorem procSysDestroy_meets (h : Inv s) :
    Meets F (procSysDestroy s me pid) fun x => Destroyed s pid x.1 := by
  unfold procSysDestroy
  split
  · exact .pure .refused
  rename_i hauth
  simp only [Bool.or_eq_true, not_or, Bool.not_eq_true', Bool.not_eq_false] at hauth
  obtain ⟨-, hdead, l, q, hl, hq⟩ := processReaperAuthorizedLocked_spec hauth.2
  obtain ⟨b, hb, rfl⟩ := Option.map_eq_some_iff.mp hl
  refine .deref (by rw [hb]; rfl) fun b' hb' => ?_
  cases hb.symm.trans hb'
  simp only
  split
  · exact .pure .refused
  rename_i hgate
  simp only [Bool.or_eq_true, not_or, decide_eq_true_eq, ne_eq, not_not] at hgate
  obtain ⟨⟨⟨hblocks, hviews⟩, hchildren⟩, hthreads⟩ := hgate
  have he : Empty s pid b := ⟨hb, (h.registry.isDead_iff pid).mp hdead,
    OrdMap.len_eq_zero_iff.mp hblocks, OrdMap.len_eq_zero_iff.mp hviews,
    OrdMap.len_eq_zero_iff.mp hchildren, OrdMap.len_eq_zero_iff.mp hthreads⟩
  split
  · rename_i pins has
    split
    · exact .pure .refused
    rename_i hpins
    simp only [Bool.or_eq_true, not_or, decide_eq_true_eq, ne_eq, not_not,
      Bool.not_eq_true] at hpins
    obtain ⟨rfl, hcur⟩ := hpins
    exact .pure (.space he has fun c hc => asIsCurrent_eq_false hcur hc)
  · rename_i has
    exact (freeProcess_meets he has hq (h.registry.parent pid b q hb hq).2).bind
      fun _ hs' => .pure hs'

theorem Destroyed.aside (h : Destroyed s p s') (hok : Ok s.own) (hfrees : M.frees p) :
    Aside M [] s s' := by
  cases h with
  | refused => exact .refl s
  | space he has hcur =>
    exact .single (.freeAs he.body he.dead he.blocks he.views he.threads he.children has hcur
      hfrees) rfl (.setMem rfl rfl)
  | body he has hparent hq hin =>
    refine .single (.unregister he.body he.dead hparent hq hin he.threads he.children he.blocks
      he.views has hfrees) rfl ?_
    have hmem := hok.mem_eq_none he.blocks he.views has
    apply SameEdges.setMem <;> rw [hmem]

/-! ## 5. System calls -/

theorem channelRingDrain_meets (h : Inv s) {base : Nat} {env : Env}
    (hp : (s.g_procs.get th.proc).isSome) : Meets F (channelRingDrain s th.proc base env)
      (Aside M (callPosts s th env (.drain base)) s) := by
  unfold channelRingDrain callPosts
  split
  · rename_i hid
    simp only [hid, Option.bind_none]
    exact .pure (.refl s)
  rename_i id hid
  obtain ⟨b, hb, -⟩ := (h.memory.ok.core.owned th.proc base id).mp hid
  simp only [hid, Option.bind_some, hb]
  obtain ⟨bs, order, bytes, backing, device_flags, delegatable, owner, ring, dma_maps, pins⟩ := b
  refine .deref rfl fun b hb => ?_
  cases hb
  cases ring with
  | none => exact .pure (.refl s)
  | some scheme =>
    cases scheme with
    | IOMMU =>
      exact .pure ⟨⟨.own (setDmaMaps_spec h.memory.ok _ _),
        fun _ => (setDmaMaps_same _ _ _).announces⟩, rfl⟩
    | _ => exact replay_meets h hp

theorem schemeReplay_meets (h : Inv s) {base : Nat} {scheme : Option Scheme} {env : Env}
    {own : Ownership.State} {r : SysResult} (hp : (s.g_procs.get th.proc).isSome)
    (hrun : channelSchemeCreate s.own th.proc base scheme = .ok (own, r))
    (hkept : Kept Nobody Nobody s.own own) (hsame : SameEdges s.own own) :
    Meets F (schemeReplay (s.setOwn own) th.proc r scheme env.rooms)
      (Aside M (callPosts s th env (.vmScheme base scheme)) s) := by
  simp only [callPosts, hrun]
  have hown : Aside M [] s (s.setOwn own) := ⟨⟨.own hkept, fun _ => hsame.announces⟩, rfl⟩
  cases r with
  | error e => exact .pure hown
  | ok v =>
    cases scheme with
    | none => exact .pure hown
    | some scheme =>
      refine (replay_meets (M := M) (hown.moves.inv h) hp).mono fun s' hs' => ?_
      cases scheme <;> exact ⟨hs'.toTurns.head hown.moves hsame, hs'.cpu⟩

theorem umemMapDeviceLocked_meets (pl : PlatformMem.Platform) {g : Ownership.State}
    (has : (g.mem p).as.isSome) (base len : Nat) (flags : BitVec 32) (node : Option BlockId) :
    Meets F (umemMapDeviceLocked pl g p base len flags node) fun _ => True := by
  unfold umemMapDeviceLocked
  split
  · exact .pure trivial
  split
  · exact .pure trivial
  split
  · exact .pure trivial
  refine .deref has fun _ _ => ?_
  split
  · exact .pure trivial
  · exact .assertSome fun _ _ => .pure trivial

theorem returning_meets (h : Inv s) {x : Except Stop (Ownership.State × SysResult)}
    {B V : Nat → Prop} (hthread : (s.cpu c).job.thread = some t) (hold : (s.cpu c).job.Calm)
    (hspec : ∀ b, Shows s.own b →
      ∃ g' r, x = .ok (g', r) ∧ Kept B V s.own g' ∧ Announces b xs g')
    (hB : ∀ p, B p → (s.g_procs.get p).isSome ∧ (¬ DeadIn s.links p ∨ M.gains p))
    (hV : ∀ p, V p → (s.g_procs.get p).isSome ∧ ¬ DeadIn s.links p) :
    Meets F (returning s c t x) (Turns M xs s) := by
  obtain ⟨o, ho⟩ := exists_shows h.memory.ok.pending
  obtain ⟨g', r, rfl, hkept, -⟩ := hspec o ho
  refine .pure (Aside.setJob ⟨⟨.single (.own hkept hB hV), fun b hb => ?_⟩, rfl⟩ hthread.symm hold
    ⟨rfl, rfl, rfl, rfl⟩)
  obtain ⟨g'', r', heq, -, hturn⟩ := hspec b hb
  cases heq
  exact hturn

theorem syscall_meets (h : Inv s) {env : Env} {call : Call}
    (hjob : (s.cpu c).job = .call t call) (hth : s.thread t = some th) :
    Meets F (syscall s c t th env call) fun s' => Legal s (.advance c env) →
      Turns (may s (.advance c env)) (callPosts s th env call) s s' := by
  have hthread : (s.cpu c).job.thread = some t := by rw [hjob]; rfl
  have hold : (s.cpu c).job.Calm := by
    rw [hjob]
    exact ⟨⟨rfl, rfl, rfl, rfl⟩, rfl⟩
  -- only the node and the range of a device come from an allocator
  have hany : ∀ {x xs}, Meets F x (Turns (may s (.advance c env)) xs s) → Meets F x fun s' =>
      Legal s (.advance c env) → Turns (may s (.advance c env)) xs s s' :=
    fun hx => hx.mono fun _ hm _ => hm
  have huser : ∀ {s₁ xs}, Aside (may s (.advance c env)) xs s s₁ →
      Meets F (pure (s₁.setJob c (.user t))) (Turns (may s (.advance c env)) xs s) :=
    fun hs₁ => .pure (hs₁.setJob hthread.symm hold ⟨rfl, rfl, rfl, rfl⟩)
  have hback := huser (.refl s)
  have hnoB : ∀ p, Nobody p → (s.g_procs.get p).isSome ∧
      (¬ DeadIn s.links p ∨ Gains s (.advance c env) p) := fun _ => False.elim
  have hnoV : ∀ p, Nobody p → (s.g_procs.get p).isSome ∧ ¬ DeadIn s.links p := fun _ => False.elim
  have hok := h.memory.ok
  have hme := h.isSome_proc hth
  cases call with
  | vmAlloc =>
    refine hany (.deref (h.isSome_as hth) fun _ _ => ?_)
    split
    · exact hback
    · exact .pure ((Aside.refl s).setJob hthread.symm hold ⟨rfl, rfl, rfl, rfl⟩)
  | vmFree base =>
    obtain ⟨g', r, hrun, hfreed, hsame⟩ := umemFree_spec s.links hok th.proc base env.destroyable
    simp only [syscall, hrun]
    apply hany
    rcases hfreed.outcome with ⟨e, rfl, rfl⟩ | ⟨id, b, rfl, hget, hb, hheap, hrel⟩
    · exact hback
    · simp only [hget]
      exact .pure (.single (.free hthread hold hfreed.change hfreed.pins hb hheap hrel) hsame)
  | vmShare base target prot =>
    refine hany (returning_meets (V := fun q => q = target ∧ live s.links target = true) h hthread hold
      (fun b hb => ?_) hnoB fun p hp => ?_)
    · obtain ⟨g', r, hrun, hkept, hshared⟩ := umemShare_spec s.links hok hb th.proc base target prot
        env.nodes env.room fun hlive => (h.isSome_as_of_live hlive).1
      exact ⟨g', r, hrun, hkept, hshared.announces hok.core hrun⟩
    · obtain ⟨rfl, hlive⟩ := hp
      exact (h.isSome_as_of_live hlive).2
  | vmScheme base scheme =>
    obtain ⟨g', r, hrun, hkept, hsame⟩ := channelSchemeCreate_spec hok th.proc base scheme
    simp only [syscall, hrun]
    exact hany ((schemeReplay_meets h hme hrun hkept hsame).bind fun _ => huser)
  | vmDropshare base pid =>
    exact hany (returning_meets h hthread hold
      (fun _ hb => umemDropshare_spec s.links hok hb th.proc base pid) hnoB hnoV)
  | vmUnshare base pid =>
    exact hany (returning_meets h hthread hold
      (fun _ hb => umemUnshare_spec s.links hok hb th.proc base pid) hnoB hnoV)
  | vmMove base pid =>
    refine hany (returning_meets h hthread hold (fun _ hb => procSysVmMove_spec s.links hok hb
      h.registry.parent_ne fun hlive => (h.isSome_as_of_live hlive).1) (fun p hp => ?_) hnoV)
    obtain ⟨rfl, hlive⟩ := hp
    obtain ⟨-, hsome, hnd⟩ := h.isSome_as_of_live hlive
    exact ⟨hsome, .inl hnd⟩
  | vmMapDevice base len flags =>
    unfold syscall
    simp only
    split
    · have has := h.isSome_as hth
      refine ⟨((umemMapDeviceLocked_meets s.platform has base len flags env.node).bind
        fun _ _ => .pure trivial : Meets F _ fun _ => True).faults, fun s' hx hlegal => ?_⟩
      simp only [Legal, hjob] at hlegal
      refine (returning_meets (F := True) (B := Only th.proc) h hthread hold (fun b hb => ?_)
        (fun p hp => ?_) hnoV).ok s' hx
      · obtain ⟨g', r, hrun, hkept, hsame⟩ := umemMapDeviceLocked_spec s.platform hok flags env.node
          hlegal.1 hlegal.2 has
        exact ⟨g', r, hrun, hkept, hsame.announces hb⟩
      · obtain rfl : p = th.proc := hp
        exact ⟨hme, .inr ⟨c, env, t, th, rfl, hth, rfl, .inr (.inl ⟨base, len, flags, hjob⟩)⟩⟩
    · exact hany hback
  | dmaRevoke =>
    exact hany (huser ⟨⟨.own (setDmaMaps_spec hok env.mapped env.dma_maps),
      fun _ => (setDmaMaps_same _ _ _).announces⟩, rfl⟩)
  | drain base => exact hany ((channelRingDrain_meets h hme).bind fun _ => huser)
  | futexWait =>
    unfold syscall
    apply hany
    simp only
    split
    · exact .pure (.single (.leave hthread hold hth) (.refl _))
    split
    · exact .pure (.single (.park hthread hold hth) (.refl _))
    · exact hback
  | procCreate => exact hany (.pure (.single (.mint hthread hold) (.refl _)))
  | threadSpawn pid completion => exact hany ((procSysThreadSpawn_meets h).bind fun _ => huser)
  | procKill pid => exact hany ((procSysKill_meets h).bind fun _ => huser)
  | threadDestroy pid tid => exact hany ((procSysThreadDestroy_meets h hme).bind fun _ => huser)
  | procDestroy pid =>
    exact hany ((procSysDestroy_meets h).bind fun _ hx => huser (hx.aside hok ⟨c, env, t, rfl, hjob⟩))
  | procExit status =>
    obtain ⟨b, hb⟩ := Option.isSome_iff_exists.mp hme
    have hagain : b.dead = true → Again s (.advance c env) th.proc := fun hd =>
      ⟨c, env, t, th, status, b, rfl, hjob, hth, rfl, hb, hd⟩
    have hfirst : Inner (may s (.advance c env)) s
        (s.setProc th.proc { b with exit_status := status }) :=
      ⟨.single (.status hb hagain), rfl, rfl, rfl⟩
    have hstatus : setStatus s th.proc status =
        .ok (s.setProc th.proc { b with exit_status := status }) := by
      rw [setStatus, hb]
      rfl
    simp only [syscall, hstatus]
    refine hany ((markNotify_meets (M := may s (.advance c env)) (hfirst.moves.inv h)
      (isSome_setProc hme) fun b' hb' hd => ?_).bind fun s₁ hs₁ => hs₁.bind fun s₂ hs₂ => ?_)
    · rw [get_setProc, if_pos rfl] at hb'
      cases hb'
      exact hagain hd
    · have hin := hfirst.trans hs₂
      refine .pure (Turns.head hin.moves (hin.own ▸ .refl _) (.single (.leave ?_ ?_ ?_) (.refl _)))
      · rw [hin.cpu, hthread]
      · rwa [hin.cpu]
      · rw [hin.thread, hth]
  | threadExit => exact hany (.pure (.single (.leave hthread hold hth) (.refl _)))
  | yield => exact hany (.pure (.single (.park hthread hold hth) (.refl _)))

/-! ## 6. Steps -/

theorem advance_meets (h : Inv s) {env : Env}
    (hF : ∀ p, (s.cpu c).job.made = some p → s.g_procs.get p = none → F) :
    Meets F (advance s c env) fun s' => Legal s (.advance c env) →
      Turns (may s (.advance c env)) (posts s (.advance c env)) s s' := by
  have hthread : ∀ {t}, (s.cpu c).job.thread = some t → (s.thread t).isSome := by
    intro t ht
    obtain ⟨th, hth, -⟩ := h.threads.onCpu c t ht
    rw [hth]
    rfl
  unfold advance posts
  split
  · rename_i t call hjob
    refine .deref (hthread (by rw [hjob]; rfl)) fun th hth => ?_
    simp only [hjob, hth, Option.map_some, Option.getD_some]
    exact syscall_meets h hjob hth
  · rename_i t base order node hjob
    simp only [hjob]
    refine .deref (hthread (by rw [hjob]; rfl)) fun th hth => ?_
    refine ⟨(Meets.bind (P := fun _ => True) (.assertSome fun _ _ => .assertSome fun _ _ => .pure trivial)
      fun _ _ => .pure trivial : Meets F _ fun _ => True).faults, fun s' hx hlegal => ?_⟩
    simp only [Legal, hjob] at hlegal
    have hfresh : Fresh s.own node base (Paging.PAGE_SIZE * 2 ^ order) :=
      ⟨hlegal.1, hlegal.2.1, Nat.mul_pos (by decide) (Nat.two_pow_pos order), hlegal.2.2⟩
    obtain ⟨g', hrun, hkept, hsame⟩ := umemAllocPublish_spec h.memory.ok hfresh (h.isSome_as hth)
    rw [hrun] at hx
    rw [pure_ok hx]
    refine (Aside.single (.own hkept (fun p hp => ?_) fun _ => False.elim) rfl hsame).setJob
      (by rw [hjob]; rfl) (by rw [hjob]; exact ⟨⟨rfl, rfl, rfl, rfl⟩, rfl⟩) ⟨rfl, rfl, rfl, rfl⟩
    obtain rfl : p = th.proc := hp
    exact ⟨h.isSome_proc hth, .inr ⟨c, env, t, th, rfl, hth, rfl, .inl ⟨base, order, node, hjob⟩⟩⟩
  · rename_i t node hjob
    simp only [hjob]
    obtain ⟨p, hp⟩ := Option.isSome_iff_exists.mp (h.memory.node c node (by rw [hjob]; rfl))
    obtain ⟨n, hrun, hchange⟩ := umemReleaseFinish_spec h.memory.ok hp
    rw [hrun]
    exact .pure fun _ => .single (.finish hjob hchange ⟨c, env, t, rfl, hjob⟩) (.unpin p node n)
  · rename_i t child hjob
    simp only [hjob]
    refine .deref (hthread (by rw [hjob]; rfl)) fun th hth => ?_
    simp only [umemProcessRegister, bind_assoc, pure_bind]
    refine .assertSome fun g_procs hinsert => .pure fun _ => ?_
    obtain ⟨hnone, rfl⟩ := OrdMap.insert_eq_some_iff.mp hinsert
    have hmem := h.memory.home child hnone
    refine .single (.register hjob hth) ?_
    apply SameEdges.setMem <;> rw [hmem]
  · rename_i t child hjob
    simp only [hjob]
    refine .deref (hthread (by rw [hjob]; rfl)) fun th hth => ?_
    simp only [linkChild, bind_assoc, pure_bind]
    refine .deref (h.isSome_proc hth) fun b hb => .assertSome fun children hinsert =>
      .pure fun _ => ?_
    obtain ⟨-, rfl⟩ := OrdMap.insert_eq_some_iff.mp hinsert
    exact .single (.link hjob hth hb
      (.inr ⟨c, env, t, th, rfl, hth, rfl, .inr (.inr ⟨child, hjob⟩)⟩)) (.refl _)
  · rename_i t child hjob
    simp only [hjob]
    cases hchild : s.g_procs.get child with
    | none => exact ⟨fun _ => hF child (by rw [hjob]; rfl) hchild, nofun⟩
    | some b => exact .pure fun _ => .single (.adopt hjob (by rw [hchild]; rfl)) (.refl _)
  · exact .disabled

theorem dispatch_meets (h : Inv s) : Meets F (dispatch s c t) (Turns M [] s) := by
  unfold dispatch
  split
  · rename_i th hjob hth
    split
    · rename_i hrun
      refine .deref (h.isSome_proc hth) fun _ _ => ?_
      split <;> exact .pure
        (.single (.take hjob hth hrun nofun nofun rfl ⟨rfl, rfl, rfl, rfl⟩) (.refl _))
    · exact .disabled
  · exact .disabled

theorem install_meets (h : Inv s) (hc : c < s.g_cpu_state_table_len) :
    Meets F (install s c) (Turns M [] s) := by
  unfold install
  split
  · rename_i t hjob
    have hold : (s.cpu c).job.Calm := by
      rw [hjob]
      exact ⟨⟨rfl, rfl, rfl, rfl⟩, rfl⟩
    obtain ⟨th, hth, -⟩ := h.threads.onCpu c t (by rw [hjob]; rfl)
    rw [hth]
    refine .deref rfl fun _ hth' => ?_
    cases hth'
    refine .deref (h.isSome_proc hth) fun _ _ => .assertSome fun n hn => ?_
    split
    · exact .pure (.single (.job (by rw [hjob]; rfl) hold ⟨rfl, rfl, rfl, rfl⟩) (.refl _))
    · exact .pure (.single (.switch (by rw [hjob]; rfl) hold ⟨rfl, rfl, rfl, rfl⟩
        (.inl ⟨t, th, rfl, hth, rfl, by rw [hn]; rfl, hc⟩)) (.refl _))
  · exact .disabled

theorem load_meets : Meets F (load s c) (Turns M [] s) := by
  unfold load
  split
  · rename_i t hjob
    exact .pure (.single (.load (by rw [hjob]; rfl) (by rw [hjob]; exact ⟨rfl, rfl, rfl, rfl⟩)
      ⟨rfl, rfl, rfl, rfl⟩) (.refl _))
  · rename_i hjob
    exact .pure (.single (.load (by rw [hjob]; rfl) (by rw [hjob]; exact ⟨rfl, rfl, rfl, rfl⟩)
      ⟨rfl, rfl, rfl, rfl⟩) (.refl _))
  · exact .disabled

theorem idle_meets : Meets F (idle s c) (Turns M [] s) := by
  unfold idle
  split
  · rename_i hjob
    split
    · exact .pure (.refl s)
    · exact .pure (.single (.switch (by rw [hjob]; rfl)
        (by rw [hjob]; exact ⟨⟨rfl, rfl, rfl, rfl⟩, rfl⟩) ⟨rfl, rfl, rfl, rfl⟩ (.inr ⟨rfl, rfl⟩))
        (.refl _))
  · exact .disabled

theorem inUser_meets (h : Inv s) : Meets F (inUser s c) fun x =>
    (s.cpu c).job.thread = some x.1 ∧ (s.cpu c).job.Calm ∧ s.thread x.1 = some x.2 := by
  unfold inUser
  split
  · rename_i t hjob
    obtain ⟨th, hth, -⟩ := h.threads.onCpu c t (by rw [hjob]; rfl)
    refine .deref (by rw [hth]; rfl) fun th' hth' => .deref (h.isSome_proc hth') fun _ _ => .pure ?_
    rw [hjob]
    exact ⟨rfl, ⟨⟨rfl, rfl, rfl, rfl⟩, rfl⟩, hth'⟩
  · exact .disabled

theorem exited_meets (h : Inv s) (room : Bool) (hjob : (s.cpu c).job = .disposing t) :
    Meets F (processThreadExited (s.setJob c .loop) t room) (Turns M [] s) := by
  have hthread : (s.cpu c).job.thread = some t := by rw [hjob]; rfl
  obtain ⟨th, hth, -⟩ := h.threads.onCpu c t hthread
  have hm : Move M s (s.setJob c .loop) := by
    have hpark : Move M s (park s c t th th.status) :=
      .park hthread (by rw [hjob]; exact ⟨⟨rfl, rfl, rfl, rfl⟩, rfl⟩) hth
    have heq : park s c t th th.status = s.setJob c .loop := by
      have hself : update s.thread t (some th) = s.thread := by
        rw [← hth, update_eq_self]
      rw [park, State.setThread, hself]
    rwa [heq] at hpark
  refine (processThreadExited_meets (hm.inv h) hth fun d hd => ?_).mono
    fun s' hs' => hs'.head (.single hm) (.refl _)
  rw [job_setJob] at hd
  split at hd
  · cases hd
  · rename_i hdc
    exact hdc (h.threads.once d c t hd hthread)

theorem act_meets (h : Inv s) {op : Op} (hcpu : op.cpu.all (· < s.g_cpu_state_table_len) = true)
    (hF : ∀ c p, c < s.g_cpu_state_table_len → (s.cpu c).job.made = some p →
      s.g_procs.get p = none → F) :
    Meets F (act s op) fun s' => Legal s op → Turns (may s op) (posts s op) s s' := by
  have hany : ∀ {x}, Meets F x (Turns (may s op) [] s) →
      Meets F x fun s' => Legal s op → Turns (may s op) [] s s' :=
    fun hx => hx.mono fun _ hs' _ => hs'
  cases op with
  | dispatch c t => exact hany (dispatch_meets h)
  | install c => exact hany (install_meets h (of_decide_eq_true hcpu))
  | load c => exact hany load_meets
  | idle c => exact hany idle_meets
  | enter c call =>
    refine hany ((inUser_meets h).bind fun ⟨t, th⟩ ⟨hthread, hold, hth⟩ => ?_)
    simp only
    split
    · exact .pure (.single (.leave hthread hold hth) (.refl _))
    · exact .pure (.single (.job hthread.symm hold ⟨rfl, rfl, rfl, rfl⟩) (.refl _))
  | advance c env => exact advance_meets h fun p => hF c p (of_decide_eq_true hcpu)
  | interrupt c preempt =>
    refine hany ((inUser_meets h).bind fun ⟨t, th⟩ ⟨hthread, hold, hth⟩ => ?_)
    simp only
    split
    · exact .pure (.single (.leave hthread hold hth) (.refl _))
    split
    · exact .pure (.single (.park hthread hold hth) (.refl _))
    · exact .pure (.refl s)
  | fault c =>
    exact hany ((inUser_meets h).bind fun ⟨t, th⟩ ⟨hthread, hold, hth⟩ =>
      .pure (.single (.leave hthread hold hth) (.refl _)))
  | exited c room =>
    simp only [act]
    split
    · rename_i t hjob
      exact hany (exited_meets h room hjob)
    · exact .disabled
  | wake t =>
    apply hany
    simp only [act]
    split
    · rename_i th hth
      split
      · rename_i hb
        refine .deref (h.isSome_proc hth) fun _ _ => ?_
        split
        · exact .pure (.refl s)
        · exact .pure (.single (.wake hth hb) (.refl _))
      · exact .disabled
    · exact .disabled

theorem step_turns (h : Inv s) {op : Op} (hlegal : Legal s op) (hx : step s op = some s') :
    Turns (may s op) (posts s op) s s' := by
  unfold step exec at hx
  split at hx
  · rename_i hcpu
    cases hact : act s op with
    | error e =>
      rw [hact] at hx
      cases hx
    | ok s₁ =>
      rw [hact] at hx
      cases hx
      exact (act_meets (F := True) h hcpu fun _ _ _ _ _ => trivial).ok s' hact hlegal
  · cases hx

theorem step_moves (h : Inv s) {op : Op} (hlegal : Legal s op) (hx : step s op = some s') :
    Moves (may s op) s s' := (step_turns h hlegal hx).moves

theorem step_inv (h : Inv s) {op : Op} (hlegal : Legal s op) (hx : step s op = some s') : Inv s' :=
  (step_moves h hlegal hx).inv h

/-! ## 7. Faults -/

def Made (s : State) : Prop := ∀ c p, c < s.g_cpu_state_table_len →
  (s.cpu c).job.made = some p → (s.g_procs.get p).isSome

end GovinDos.Kernel
