/-
  **The ownership graph under all interleavings (`kernel/src/umem.c`,
  `process.c`).**

  `Memory` is kept by every move: a process that is not registered has nothing in the graph,
  only a dead and empty one is without an address space, and the pins of a block count the
  threads that complete into it.
-/
import GovinDos.KernelTree

namespace GovinDos.Kernel

open Ownership Function
open Umem (BlockId EdgeRef Backing)

variable {M : May} {s s' : State} {p t c : Nat} {g g' own' : Ownership.State}
  {completion : Option BlockId}

/-! ## 1. What becomes of a process -/

structure Body (M : May) (s : State) (p : Nat) (b b' : Process) : Prop where
  parent : b'.parent = b.parent
  dead : b.dead = true → b'.dead = true
  status : b'.exit_status = b.exit_status ∨ (b.dead = true → M.again p)
  told : b.death_notified = true → b'.death_notified = true
  heard : b'.death_notified = true → b.death_notified = true ∨ DeadIn s.links p
  threads : ∀ t v, b'.threads.get t = some v → b.threads.get t = some v ∨ ¬ DeadIn s.links p
  children : ∀ c v, b'.children.get c = some v →
    b.children.get c = some v ∨ ¬ DeadIn s.links p ∨ M.gains p

theorem Body.refl (b : Process) : Body M s p b b where
  parent := rfl
  dead h := h
  status := .inl rfl
  told h := h
  heard := .inl
  threads _ _ := .inl
  children _ _ := .inl

theorem Move.body (hm : Move M s s') {b' : Process}
    (hb' : s'.g_procs.get p = some b') : (∃ b, s.g_procs.get p = some b ∧ Body M s p b b') ∨
      ∃ c t q, (s.cpu c).job = .creating t p ∧ b' = .fresh (some q) := by
  have hsame : s'.g_procs = s.g_procs → (∃ b, s.g_procs.get p = some b ∧ Body M s p b b') ∨
      ∃ c t q, (s.cpu c).job = .creating t p ∧ b' = .fresh (some q) := by
    intro heq
    rw [heq] at hb'
    exact .inl ⟨b', hb', .refl b'⟩
  have hset : ∀ {q b₀ b₁}, s.g_procs.get q = some b₀ → s'.g_procs = s.g_procs.set q b₁ →
      Body M s q b₀ b₁ → (∃ b, s.g_procs.get p = some b ∧ Body M s p b b') ∨
      ∃ c t q, (s.cpu c).job = .creating t p ∧ b' = .fresh (some q) := by
    intro q b₀ b₁ hb₀ heq hbody
    rw [heq, OrdMap.get_set] at hb'
    split at hb'
    · rename_i hpq
      cases hb'
      subst hpq
      exact .inl ⟨b₀, hb₀, hbody⟩
    · exact .inl ⟨b', hb', .refl b'⟩
  cases hm with
  | job | take | leave | park | wake | switch | load | own | free | finish | mint | adopt | freeAs =>
    exact hsame rfl
  | @status q x b hq hA => exact hset hq rfl { Body.refl (M := M) b with status := .inr hA }
  | @mark q b hq _ => exact hset hq rfl { Body.refl b with dead := fun _ => rfl }
  | @mute q b hq hdead =>
    exact hset hq rfl { Body.refl b with told := fun _ => rfl, heard := fun _ => .inr hdead }
  | @post q r b hq _ hdead _ =>
    have hdead' : DeadIn s.links q := .here (by rw [links_get, hq]; rfl) hdead
    exact hset hq rfl { Body.refl b with told := fun _ => rfl, heard := fun _ => .inr hdead' }
  | @register c t child th hjob hth =>
    have hb'' : (s.g_procs.set child (.fresh (some th.proc))).get p = some b' := hb'
    rw [OrdMap.get_set] at hb''
    split at hb''
    · rename_i hpc
      cases hb''
      exact .inr ⟨c, t, th.proc, hpc ▸ hjob, rfl⟩
    · exact .inl ⟨b', hb'', .refl b'⟩
  | @link c t child th b _ _ hq hG =>
    exact hset hq rfl { Body.refl (M := M) b with children := fun _ _ _ => .inr hG }
  | @spawn q b _ _ hq hlive _ =>
    exact hset hq rfl { Body.refl b with threads := fun _ _ _ => .inr hlive }
  | @reap t th b _ _ hq _ _ =>
    exact hset hq rfl { Body.refl b with
      threads := fun _ _ hget => .inl (OrdMap.get_erase_eq_some_iff.mp hget).2 }
  | @unregister r q br bq _ _ _ hq _ _ _ _ _ _ _ =>
    have hb'' : (s.g_procs.set q { bq with children := bq.children.erase r }).get p = some b' :=
      (OrdMap.get_erase_eq_some_iff.mp hb').2
    rw [OrdMap.get_set] at hb''
    split at hb''
    · rename_i hpq
      cases hb''
      subst hpq
      exact .inl ⟨bq, hq, { Body.refl (M := M) bq with
        children := fun _ _ hget => .inl (OrdMap.get_erase_eq_some_iff.mp hget).2 }⟩
    · exact .inl ⟨b', hb'', .refl b'⟩

theorem Move.keeps (hm : Move M s s') (hr : Registry s) {b b' : Process}
    (hb : s.g_procs.get p = some b) (hb' : s'.g_procs.get p = some b') : Body M s p b b' := by
  rcases hm.body hb' with ⟨b₀, hb₀, hbody⟩ | ⟨c, t, q, hjob, -⟩
  · cases hb.symm.trans hb₀
    exact hbody
  · cases hb.symm.trans (hr.unborn c p (by rw [hjob]; rfl)).2

theorem Move.dead (hm : Move M s s') (hr : Registry s) (ht : Threads s)
    (h : DeadIn s.links p) (hp : (s'.g_procs.get p).isSome) : DeadIn s'.links p := by
  refine h.mono (fun q l l' hl hl' => ?_) (fun q l r hl hr' => ?_) ?_
  · obtain ⟨b, hb, rfl⟩ := Option.map_eq_some_iff.mp hl
    obtain ⟨b', hb', rfl⟩ := Option.map_eq_some_iff.mp hl'
    have hbody := hm.keeps hr hb hb'
    exact ⟨hbody.parent, hbody.dead⟩
  · obtain ⟨b, hb, rfl⟩ := Option.map_eq_some_iff.mp hl
    rw [links_get, Option.isSome_map]
    exact ((hm.registry hr ht).parent q b r hb hr').2
  · rwa [links_get, Option.isSome_map]

/-! ## 2. Pins -/

theorem Completing.frame {id : BlockId} (h : Completing s id)
    (hpins : pinsOf s'.own id = pinsOf s.own id)
    (hthread : ∀ t, (s'.thread t).map (fun th => (th.proc, th.completion_block)) =
      (s.thread t).map fun th => (th.proc, th.completion_block)) : Completing s' id := by
  have hforth : ∀ {t th}, s.thread t = some th → ∃ th', s'.thread t = some th' ∧
      th'.proc = th.proc ∧ th'.completion_block = th.completion_block := by
    intro t th hth
    have ht := hthread t
    rw [hth] at ht
    obtain ⟨th', hth', heq⟩ := Option.map_eq_some_iff.mp ht
    exact ⟨th', hth', Prod.mk.inj heq⟩
  have hback : ∀ {t th'}, s'.thread t = some th' → ∃ th, s.thread t = some th ∧
      th'.completion_block = th.completion_block := by
    intro t th' hth'
    have ht := hthread t
    rw [hth'] at ht
    obtain ⟨th, hth, heq⟩ := Option.map_eq_some_iff.mp ht.symm
    exact ⟨th, hth, (Prod.mk.inj heq).2.symm⟩
  obtain ⟨l, hl, hmem, hnil, hcons⟩ := h
  refine ⟨l, hl, fun t => ?_, fun hl => hpins.trans (hnil hl), fun hl => ?_⟩
  · grind
  · grind

theorem completion_setStatus {th : Thread} {status : Status} (hth : s.thread t = some th)
    (hthread : s'.thread = update s.thread t (some { th with status := status }))
    (t' : Nat) : (s'.thread t').map (fun th => (th.proc, th.completion_block)) =
      (s.thread t').map fun th => (th.proc, th.completion_block) := by
  rw [hthread, update_apply]
  grind

theorem Repins.repinned
    {add : Bool} (h : Repins g g' completion p add) :
    g' = g ∨ ∃ id o, completion = some id ∧ Repinned g g' id o := by
  cases completion <;> cases add <;> grind [Repins]

theorem Repins.ok {add : Bool}
    (h : Repins g g' completion p add) (hok : Ok g) :
    Change Nobody Nobody g g' ∧ g'.releasing = g.releasing ∧
      ∀ id, completion ≠ some id → pinsOf g' id = pinsOf g id := by
  obtain rfl | ⟨id, o, rfl, hr⟩ := h.repinned
  · exact ⟨.refl hok, rfl, fun _ _ => rfl⟩
  · refine ⟨hr.change, hr.releasing, fun id' hne => hr.others id' ?_⟩
    rintro rfl
    exact hne rfl

theorem Completing.spawn {id : BlockId} (h : Completing s id) (ht : Threads s)
    (hpin : Repins s.own s'.own completion p true) (hok : Ok s.own)
    (hthread : s'.thread = update s.thread s.g_next_tid
      (some ⟨p, .RUNNABLE, completion⟩)) : Completing s' id := by
  have hthread : ∀ t, s'.thread t = if t = s.g_next_tid then some ⟨p, .RUNNABLE, completion⟩ else
      s.thread t := fun t => by rw [hthread, update_apply]
  have hne : ∀ {t th}, s.thread t = some th → t ≠ s.g_next_tid := fun hth =>
    Nat.ne_of_lt (ht.bound _ _ hth)
  obtain ⟨l, hl, hmem, hnil, hcons⟩ := h
  have hnew : s.g_next_tid ∉ l := by grind
  by_cases hid : completion = some id
  · subst hid
    obtain ⟨n, hn, hr⟩ := hpin
    have hlen : n = l.length ∧ ∀ t ∈ l, ∃ th, s.thread t = some th ∧ th.proc = p := by
      by_cases hl : l = [] <;> grind
    refine ⟨s.g_next_tid :: l, List.nodup_cons.mpr ⟨hnew, hl⟩, fun t => ?_, nofun, fun _ =>
      ⟨p, ?_, fun t ht => ?_⟩⟩
    · grind
    · rw [hr.this, hlen.1, List.length_cons]
    · grind
  · have hpins := (hpin.ok hok).2.2 id hid
    exact ⟨l, hl, by grind, fun hl => hpins.trans (hnil hl), by grind⟩

theorem Completing.reap {id : BlockId} (h : Completing s id) {th : Thread}
    (hth : s.thread t = some th) (hpin : Repins s.own s'.own th.completion_block th.proc false)
    (hok : Ok s.own) (hthread : s'.thread = update s.thread t none) :
    Completing s' id := by
  have hthread : ∀ t', s'.thread t' = if t' = t then none else s.thread t' :=
    fun t' => by rw [hthread, update_apply]
  obtain ⟨l, hl, hmem, hnil, hcons⟩ := h
  by_cases hid : th.completion_block = some id
  · rw [hid] at hpin
    obtain ⟨n, hn, hr⟩ := hpin
    have hin : t ∈ l := (hmem t).mpr ⟨th, hth, hid⟩
    obtain ⟨p, hp, hproc⟩ := hcons (List.ne_nil_of_mem hin)
    obtain ⟨rfl, hlen⟩ := Prod.mk.inj (Option.some_inj.mp (hn.symm.trans hp))
    have hlen' : (l.erase t).length = n := by
      rw [List.length_erase_of_mem hin, ← hlen, Nat.add_sub_cancel]
    refine ⟨l.erase t, hl.erase t, fun t' => ?_, fun hnil' => ?_, fun hne => ⟨th.proc, ?_, ?_⟩⟩
    · grind [hl.mem_erase_iff (a := t) (b := t')]
    · rw [hr.this, if_pos (by rw [← hlen', hnil', List.length_nil])]
    · rw [hr.this, if_neg, hlen']
      exact fun hn => hne (List.eq_nil_of_length_eq_zero (hlen'.trans hn))
    · intro t' ht'
      grind [hl.mem_erase_iff (a := t) (b := t')]
  · have hpins := (hpin.ok hok).2.2 id hid
    exact ⟨l, hl, by grind, fun hl => hpins.trans (hnil hl), by grind⟩

/-! ## 3. Memory -/

def SameNode (s s' : State) : Prop := ∀ c, (s'.cpu c).job.node = (s.cpu c).job.node

theorem SameNode.setJob {j : Job} (h : j.node = (s.cpu c).job.node) (s₁ : State)
    (hcpu : s₁.cpu = s.cpu) : SameNode s (s₁.setJob c j) := by
  intro d
  rw [job_setJob, hcpu]
  grind

theorem SameNode.setCpu {k : Cpu} (h : k.job.node = (s.cpu c).job.node) :
    SameNode s (s.setCpu c k) := by
  intro d
  grind [cpu_setCpu]

def Fewer (s s' : State) : Prop := ∀ p b', s'.g_procs.get p = some b' →
  ∃ b, s.g_procs.get p = some b ∧ (∀ t, b.threads.get t = none → b'.threads.get t = none) ∧
    b'.children = b.children

theorem Fewer.of_eq (h : s'.g_procs = s.g_procs) : Fewer s s' := by
  intro p b' hb'
  rw [h] at hb'
  exact ⟨b', hb', fun _ ht => ht, rfl⟩

theorem Fewer.setProc {b b' : Process} (hb : s.g_procs.get p = some b)
    (hprocs : s'.g_procs = s.g_procs.set p b')
    (hthreads : ∀ t, b.threads.get t = none → b'.threads.get t = none)
    (hchildren : b'.children = b.children) : Fewer s s' := by
  intro q b₁ hb₁
  grind

theorem Memory.home_change (h : Memory s) {B V : Nat → Prop}
    (hc : Change B V s.own own') (hB : ∀ p, B p → (s.g_procs.get p).isSome)
    (hV : ∀ p, V p → (s.g_procs.get p).isSome) (hp : s.g_procs.get p = none) :
    own'.mem p = .none := by
  have hmem := h.home p hp
  refine hc.ok.mem_eq_none (fun base => ?_) (fun base => ?_) ?_
  · rw [Option.eq_none_iff_forall_ne_some]
    intro id hget
    have hold := hc.blocks p base id (fun hBp => by simpa [hp] using hB p hBp) hget
    simp [hmem, ProcMem.none] at hold
  · rw [Option.eq_none_iff_forall_ne_some]
    intro e hget
    have hold := hc.views p base e (fun hVp => by simpa [hp] using hV p hVp) hget
    simp [hmem, ProcMem.none] at hold
  · rw [← Option.not_isSome_iff_eq_none, hc.as p, hmem]
    nofun

theorem Memory.emptied (h : Memory s) (hfewer : Fewer s s') {b' : Process}
    (hb' : s'.g_procs.get p = some b') (has : (s.own.mem p).as = none) :
    DeadIn s.links p ∧ (∀ t, b'.threads.get t = none) ∧ ∀ q, b'.children.get q = none := by
  obtain ⟨b, hb, hthreads, hchildren⟩ := hfewer p b' hb'
  obtain ⟨hd, hno, hno'⟩ := h.as p b hb has
  rw [hchildren]
  exact ⟨hd, fun t => hthreads t (hno t), hno'⟩

theorem Memory.frame (h : Memory s) (hok : Ok s'.own)
    (hhome : ∀ p, s'.g_procs.get p = none → s'.own.mem p = .none)
    (has : ∀ p b', s'.g_procs.get p = some b' → (s'.own.mem p).as = none →
      DeadIn s.links p ∧ (∀ t, b'.threads.get t = none) ∧ ∀ q, b'.children.get q = none)
    (hdead : ∀ p, DeadIn s.links p → (s'.g_procs.get p).isSome → DeadIn s'.links p)
    (hnode : SameNode s s') (hrel : s'.own.releasing = s.own.releasing)
    (hcomp : ∀ id, Completing s' id) : Memory s' where
  ok := hok
  home := hhome
  as p b' hb' hp := (has p b' hb' hp).imp_left fun hd => hdead p hd (by rw [hb']; rfl)
  node c id hc := by
    rw [hnode] at hc
    rw [hrel]
    exact h.node c id hc
  nodeOnce c d id hc hd := by
    rw [hnode] at hc hd
    exact h.nodeOnce c d id hc hd
  completing := hcomp

theorem Memory.still (h : Memory s) (hown : s'.own = s.own) (hfewer : Fewer s s')
    (hgone : ∀ p, s'.g_procs.get p = none → s.g_procs.get p = none)
    (hdead : ∀ p, DeadIn s.links p → (s'.g_procs.get p).isSome → DeadIn s'.links p)
    (hnode : SameNode s s')
    (hthread : ∀ t, (s'.thread t).map (fun th => (th.proc, th.completion_block)) =
      (s.thread t).map fun th => (th.proc, th.completion_block)) : Memory s' := by
  refine h.frame (by rw [hown]; exact h.ok) (fun p hp => ?_) (fun p b' hb' hp => ?_)
    hdead hnode (by rw [hown]) fun id => (h.completing id).frame (by rw [hown]) hthread
  · rw [hown]
    exact h.home p (hgone p hp)
  · rw [hown] at hp
    exact h.emptied hfewer hb' hp

theorem get_none_of_setProc {b' : Process}
    (hprocs : s'.g_procs = s.g_procs.set p b') (q : Nat) (hq : s'.g_procs.get q = none) :
    s.g_procs.get q = none := by grind

theorem as_none_of_change {B V : Nat → Prop} (hc : Change B V s.own own')
    (hp : (own'.mem p).as = none) : (s.own.mem p).as = none := by
  rw [← Option.not_isSome_iff_eq_none] at hp ⊢
  rwa [← hc.as p]

theorem Move.memory (hm : Move M s s') (hr : Registry s) (ht : Threads s) (h : Memory s) :
    Memory s' := by
  have hdead := fun p => hm.dead hr ht (p := p)
  cases hm with
  | job _ hold hnew =>
    exact h.still rfl (.of_eq rfl) (fun _ hp => hp) hdead
      (.setJob (by rw [hold.node, hnew.node]) s rfl) fun _ => rfl
  | take hjob hth _ _ _ _ hnew =>
    exact h.still rfl (.of_eq rfl) (fun _ hp => hp) hdead
      (.setJob (by rw [hjob, hnew.node]; rfl) (s.setThread _ _) rfl)
      (completion_setStatus hth rfl)
  | leave _ hold hth | park _ hold hth =>
    exact h.still rfl (.of_eq rfl) (fun _ hp => hp) hdead
      (.setJob (by rw [hold.node]; rfl) (s.setThread _ _) rfl) (completion_setStatus hth rfl)
  | wake hth _ =>
    exact h.still rfl (.of_eq rfl) (fun _ hp => hp) hdead (fun _ => rfl)
      (completion_setStatus hth rfl)
  | switch _ hold hnew _ | load _ hold hnew =>
    exact h.still rfl (.of_eq rfl) (fun _ hp => hp) hdead
      (.setCpu (by rw [hold.node]; exact hnew.node)) fun _ => rfl
  | own hkept hB hV =>
    refine h.frame hkept.ok (fun p hp => ?_) (fun p b' hb' hp => ?_) hdead (fun _ => rfl)
      hkept.releasing fun id => (h.completing id).frame (hkept.pins id) fun _ => rfl
    · exact h.home_change hkept.toChange (fun q hq => (hB q hq).1) (fun q hq => (hV q hq).1) hp
    · exact h.as p b' hb' (as_none_of_change hkept.toChange hp)
  | @free c t id b own' _ hold hchange hpins hb _ hrel =>
    have hidle := h.ok.parked id (by rw [hb]; rfl)
    have hnode : ∀ d, (((s.setOwn own').setJob c (.finishing t id)).cpu d).job.node =
        if d = c then some id else (s.cpu d).job.node := by
      grind [job_setJob, Job.node, cpu_setOwn]
    -- nobody else is finishing a release of a block that was still there
    have hother : ∀ d, (s.cpu d).job.node ≠ some id :=
      fun d hd => by simpa [hidle] using h.node d id hd
    refine ⟨hchange.ok, fun p hp => h.home_change hchange (fun _ => False.elim)
      (fun _ => False.elim) hp, fun p b' hb' hp => ?_, fun d id' hd => ?_, fun d e id' hd he => ?_,
      fun id' => (h.completing id').frame (hpins id') fun _ => rfl⟩
    · obtain ⟨hd, hno⟩ := h.as p b' hb' (as_none_of_change hchange hp)
      exact ⟨hdead p hd (by rw [hb']; rfl), hno⟩
    · change (own'.releasing id').isSome
      rw [hrel, update_apply]
      grind [h.node d id']
    · grind [h.nodeOnce d e id']
  | @finish c t p n id hjob hchange _ =>
    have hnode : ∀ d, (((s.setOwn (s.own.unpin p id n)).setJob c (.user t)).cpu d).job.node =
        if d = c then none else (s.cpu d).job.node := by
      grind [job_setJob, Job.node, cpu_setOwn]
    have hthis : (s.cpu c).job.node = some id := by rw [hjob]; rfl
    refine ⟨hchange.ok, fun q hq => h.home_change hchange (fun _ => False.elim)
      (fun _ => False.elim) hq, fun q b' hb' hq => ?_, fun d id' hd => ?_, fun d e id' hd he => ?_,
      fun id' => (h.completing id').frame rfl fun _ => rfl⟩
    · obtain ⟨hd, hno⟩ := h.as q b' hb' (as_none_of_change hchange hq)
      exact ⟨hdead q hd (by rw [hb']; rfl), hno⟩
    · change (update s.own.releasing id none id').isSome
      rw [update_apply]
      grind [h.node d id', h.nodeOnce d c]
    · grind [h.nodeOnce d e id']
  | status hb _ | mark hb _ | mute hb _ | post hb _ _ _ =>
    exact h.still rfl (.setProc hb rfl (fun _ ht => ht) rfl) (get_none_of_setProc rfl) hdead
      (fun _ => rfl) fun _ => rfl
  | mint _ hold =>
    exact h.still rfl (.of_eq rfl) (fun _ hp => hp) hdead
      (.setJob (by rw [hold.node]; rfl) { s with g_next_pid := s.g_next_pid + 1 } rfl) fun _ => rfl
  | @register c t child th hjob hth =>
    have hnone := (hr.unborn c child (by rw [hjob]; rfl)).2
    have hmem := h.home child hnone
    have hown : s.own.setMem child { ProcMem.none with as := some 0 } =
        s.own.setAs child (some 0) := by
      rw [State.setAs, hmem]
    rw [hown] at hdead ⊢
    have hnode : SameNode s (({ s with g_procs := s.g_procs.set child (.fresh (some th.proc)) }.setOwn
        (s.own.setAs child (some 0))).setJob c (.linking t child))  :=
      SameNode.setJob (s := s) (j := .linking t child) (by rw [hjob]; rfl) ({ s with
        g_procs := s.g_procs.set child (.fresh (some th.proc)) }.setOwn
          (s.own.setAs child (some 0))) rfl
    refine h.frame (h.ok.setAs (h.ok.not_releasing (.inr (by rw [hmem]; rfl))) (.inl rfl))
      (fun p hp => ?_) (fun p b hb hp => ?_) hdead hnode rfl
      fun id => (h.completing id).frame rfl fun _ => rfl
    · change (s.own.setAs child (some 0)).mem p = .none
      change (s.g_procs.set child (.fresh (some th.proc))).get p = none at hp
      grind [mem_setAs, h.home p]
    · change ((s.own.setAs child (some 0)).mem p).as = none at hp
      change (s.g_procs.set child (.fresh (some th.proc))).get p = some b at hb
      exact h.as p b (by grind [mem_setAs]) (by grind [mem_setAs])
  | @link c t child th b hjob hth hb _ =>
    obtain ⟨b₁, hb₁, hin⟩ := ht.lists t th hth
    cases hb.symm.trans hb₁
    refine h.frame h.ok (fun p hp => h.home p (get_none_of_setProc (s := s) (p := th.proc) rfl p hp))
      (fun p b' hb' hp => ?_) hdead (.setJob (by rw [hjob]; rfl) (s.setProc _ _) rfl) rfl
      fun id => (h.completing id).frame rfl fun _ => rfl
    rw [g_procs_setJob, get_setProc] at hb'
    split at hb'
    · rename_i hpt
      -- the creator's own process has a thread
      have hno := (h.as p b (by rw [hpt]; exact hb) hp).2.1 t
      cases hin.symm.trans hno
    · exact h.as p b' hb' hp
  | adopt hjob _ =>
    exact h.still rfl (.of_eq rfl) (fun _ hp => hp) hdead
      (.setJob (by rw [hjob]; rfl) s rfl) fun _ => rfl
  | @spawn p b completion own' hb hlive hpin =>
    obtain ⟨hchange, hrel, -⟩ := hpin.ok h.ok
    refine h.frame hchange.ok (fun q hq => ?_) (fun q b' hb' hq => ?_) hdead (fun _ => rfl) hrel
      fun id => (h.completing id).spawn ht hpin h.ok rfl
    · exact h.home_change hchange (fun _ => False.elim) (fun _ => False.elim)
        (get_none_of_setProc (s := s) (p := p) rfl q hq)
    · have hq' := as_none_of_change hchange hq
      by_cases hqp : q = p
      · rw [hqp] at hq'
        exact absurd (h.as p b hb hq').1 hlive
      · exact h.as q b' ((OrdMap.get_set_of_ne s.g_procs _ hqp).symm.trans hb') hq'
  | @reap t th b own' hth hb _ hpin =>
    obtain ⟨hchange, hrel, -⟩ := hpin.ok h.ok
    refine h.frame hchange.ok (fun q hq => ?_) (fun q b' hb' hq => ?_) hdead (fun _ => rfl) hrel
      fun id => (h.completing id).reap hth hpin h.ok rfl
    · exact h.home_change hchange (fun _ => False.elim) (fun _ => False.elim)
        (get_none_of_setProc (s := s) (p := th.proc) rfl q hq)
    · refine h.emptied (.setProc hb rfl (fun t' ht' => ?_) ?_) hb' (as_none_of_change hchange hq)
      · rw [OrdMap.get_erase, ht', ite_self]
      · rfl
  | @freeAs p b hb hd hblocks hviews hthreads hchildren has _ _ =>
    refine h.frame (h.ok.setAs (h.ok.not_releasing (.inl has)) (.inr ⟨rfl, hblocks, hviews⟩))
      (fun q hq => ?_) (fun q b' hb' hq => ?_) hdead (fun _ => rfl) rfl
      fun id => (h.completing id).frame rfl fun _ => rfl
    · have hqp : q ≠ p := by
        rintro rfl
        cases hb.symm.trans hq
      exact (mem_setMem ..).trans ((if_neg hqp).trans (h.home q hq))
    · by_cases hqp : q = p
      · subst hqp
        cases hb.symm.trans hb'
        exact ⟨hd, hthreads, hchildren⟩
      · rw [own_setOwn, mem_setMem, if_neg hqp] at hq
        exact h.as q b' hb' hq
  | @unregister p q b bq hb _ hparent hq hin hthreads hchildren hblocks hviews has _ =>
    have hmem := h.ok.mem_eq_none hblocks hviews has
    have hown : s.own.setMem p .none = s.own := by
      rw [State.setMem, ← hmem, update_eq_self]
    rw [hown] at hdead ⊢
    have hget : ∀ r b', ((s.g_procs.set q { bq with children := bq.children.erase p }).erase p).get
        r = some b' → r = q ∧ b' = { bq with children := bq.children.erase p } ∨
          s.g_procs.get r = some b' := by
      grind
    refine h.frame h.ok (fun r hr => ?_) (fun r b' hb' hr => ?_) hdead (fun _ => rfl) rfl
      fun id => (h.completing id).frame rfl fun _ => rfl
    · change ((s.g_procs.set q { bq with children := bq.children.erase p }).erase p).get r = none
        at hr
      change s.own.mem r = .none
      grind [h.home r]
    · rcases hget r b' hb' with ⟨rfl, -⟩ | hr'
      · cases hin.symm.trans ((h.as r bq hq hr).2.2 p)
      · exact h.as r b' hr' hr

/-! ## 4. Every reachable state -/

theorem Move.inv (hm : Move M s s') (h : Inv s) : Inv s' where
  registry := hm.registry h.registry h.threads
  threads := hm.threads h.registry h.threads
  memory := hm.memory h.registry h.threads h.memory
  announced := by
    intro p b' hb' hn
    refine hm.dead h.registry h.threads ?_ (by rw [hb']; rfl)
    rcases hm.body hb' with ⟨b, hb, hbody⟩ | ⟨c, t, q, -, rfl⟩
    · exact (hbody.heard hn).elim (h.announced p b hb) fun hd => hd
    · cases hn

theorem Moves.inv (hm : Moves M s s') (h : Inv s) : Inv s' := by
  induction hm with
  | refl => exact h
  | tail _ hm ih => exact hm.inv ih

/-! ## 5. The life of a block -/

structure Steady (M : May) (s s' : State) : Prop where
  stays : ∀ id b, ¬ M.ends id → s.own.heap id = some b → (s'.own.releasing id).isSome ∨
    ∃ b', s'.own.heap id = some b' ∧ b'.base = b.base ∧ b'.bytes = b.bytes
  gone : ∀ id, ¬ M.ends id → (s.own.releasing id).isSome → (s'.own.releasing id).isSome

theorem Steady.of_alive (hrel : s'.own.releasing = s.own.releasing)
    (halive : ∀ id b, s.own.heap id = some b → ∃ b', s'.own.heap id = some b' ∧
      b'.base = b.base ∧ b'.bytes = b.bytes) : Steady M s s' where
  stays id b _ hb := .inr (halive id b hb)
  gone id _ h := by rwa [hrel]

theorem Steady.of_heap (hrel : s'.own.releasing = s.own.releasing)
    (hheap : s'.own.heap = s.own.heap) : Steady M s s' := .of_alive hrel (alive_of_eq hheap)

theorem Steady.trans {s'' : State} (h : Steady M s s') (h' : Steady M s' s'') :
    Steady M s s'' where
  stays id b hF hb := by
    rcases h.stays id b hF hb with hrel | ⟨b', hb', hbase, hbytes⟩
    · exact .inl (h'.gone id hF hrel)
    · rcases h'.stays id b' hF hb' with hrel | ⟨b'', hb'', hbase', hbytes'⟩
      · exact .inl hrel
      · exact .inr ⟨b'', hb'', hbase'.trans hbase, hbytes'.trans hbytes⟩
  gone id hF hrel := h'.gone id hF (h.gone id hF hrel)

theorem Repins.alive {add : Bool}
    (h : Repins g g' completion p add) (id : BlockId) (b : Ublock) (hb : g.heap id = some b) :
    ∃ b', g'.heap id = some b' ∧ b'.base = b.base ∧ b'.bytes = b.bytes := by
  obtain rfl | ⟨id', o, -, hr⟩ := h.repinned
  · exact ⟨b, hb, rfl, rfl⟩
  · exact hr.alive id b hb

theorem Move.steady (hm : Move M s s') (h : Ok s.own) : Steady M s s' := by
  cases hm with
  | job | take | leave | park | wake | switch | load | status | mark | mute | post | mint
  | register | link | adopt | freeAs | unregister =>
    exact .of_heap rfl rfl
  | own hkept _ _ => exact .of_alive hkept.releasing hkept.alive
  | @free c t id b own' _ _ _ _ hb hheap hrel =>
    refine ⟨fun id' b' _ hb' => ?_, fun id' _ hsome => ?_⟩
    · change (own'.releasing id').isSome ∨ ∃ b'', own'.heap id' = some b'' ∧ _
      rw [hheap, hrel]
      by_cases hid : id' = id
      · subst hid
        exact .inl (by rw [update_self]; rfl)
      · exact .inr ⟨b', by rwa [update_of_ne hid], rfl, rfl⟩
    · change (own'.releasing id').isSome
      rw [hrel, update_of_ne]
      · exact hsome
      · rintro rfl
        rw [h.parked id' (by rw [hb]; rfl)] at hsome
        cases hsome
  | @finish c t p n id _ _ hF =>
    refine ⟨fun id' b' _ hb' => .inr ⟨b', hb', rfl, rfl⟩, fun id' hnot hsome => ?_⟩
    change (update s.own.releasing id none id').isSome
    rwa [update_of_ne]
    rintro rfl
    exact hnot hF
  | spawn _ _ hpin | reap _ _ _ hpin => exact .of_alive (hpin.ok h).2.1 hpin.alive

theorem Moves.steady (hm : Moves M s s') (h : Inv s) : Steady M s s' := by
  induction hm with
  | refl => exact .of_heap rfl rfl
  | tail hms hm ih => exact ih.trans (hm.steady (Moves.inv hms h).memory.ok)

end GovinDos.Kernel
