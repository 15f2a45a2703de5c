/-
  **What holds of parks and run queues in every reachable state.**
-/
import GovinDos.ThreadAsserts

namespace GovinDos.Thread

open Kernel (Status bind_ok pure_ok deref_ok)
open Occurrence

variable {hash : Nat → Nat} {κ : Prop} {op : Op} {s s' : State} {c t : Nat} {x : Tcb}
  {holder : Option (Nat × Stage)} {phase : Phase} {hooked : Bool} {queued : Option Nat}
  {seated : Option (Nat × Seat)}

/-! ## 1. Nodes and deadline entries -/

theorem Life.get_node_iff (h : Life hash t (s.view t) x holder phase hooked queued seated) (b : Nat)
    (key : FutexKey) : (s.waiters b).get key = some t ↔
      hooked = true ∧ b = hash x.wait_key.address ∧ key = x.wait_key := by
  have hmem : (s.waiters b).get key = some t ↔ (b, key) ∈ (s.view t).nodes := Iff.rfl
  rw [hmem, h.nodes]
  cases hooked <;> simp [Wait.node, Tcb.wait]

theorem Life.get_entry_iff (h : Life hash t (s.view t) x holder phase hooked queued seated) (d : Nat)
    (key : TdeadlineKey) : (s.deadlines d).get key = some t ↔
      x.deadline ≠ 0 ∧ d = x.deadline_cpu ∧ key = ⟨x.deadline, t⟩ := by
  have hmem : (s.deadlines d).get key = some t ↔ (d, key) ∈ (s.view t).entries := Iff.rfl
  rw [hmem, h.entries, Wait.due]
  by_cases hd : x.deadline = 0 <;> simp [Tcb.wait, hd]

theorem Fits.of_unparked {w : Wait} (h : Fits t w holder phase hooked)
    (hs : w.state = .IDLE ∨ w.state = .REAPABLE) : hooked = false ∧ w.deadline = 0 := by
  cases h <;> simp_all

/-- The park protocol: a parked thread is in one bucket under its key, and in the deadline
    tree it names where it has a deadline; an idle or reapable one is in none. -/
theorem park_protocol {word : Nat → UInt32} {ops : List Op}
    (hrun : Run (step hash) (fun _ _ => True) (boot word) ops s) :
    (∀ t x, s.thread t = some x →
      (x.wake_state = .PARKED →
        (∀ b key, (s.waiters b).get key = some t ↔
          b = hash x.wait_key.address ∧ key = x.wait_key) ∧
        ∀ c key, (s.deadlines c).get key = some t ↔
          x.deadline ≠ 0 ∧ c = x.deadline_cpu ∧ key = ⟨x.deadline, t⟩) ∧
      (x.wake_state = .IDLE ∨ x.wake_state = .REAPABLE →
        (∀ b key, (s.waiters b).get key ≠ some t) ∧ ∀ c key, (s.deadlines c).get key ≠ some t)) ∧
    ∀ op, exec hash s op ≠ .error .assert := by
  have hsound := (boot_sound word).of_run hrun
  refine ⟨fun t x hx => ⟨fun hs => ?_, fun hs => ?_⟩, fun op => (exec_clean hsound op).assert⟩
  · obtain ⟨queued, seated, h⟩ := (hsound.inv.ok t).shape.of_parked hx hs
    refine ⟨fun b key => ?_, h.get_entry_iff⟩
    rw [h.get_node_iff b key]
    simp
  · obtain ⟨holder, phase, hooked, queued, seated, h⟩ := (hsound.inv.ok t).shape.of_tcb hx
    obtain ⟨rfl, hd⟩ := h.fits.of_unparked hs
    have hd : x.deadline = 0 := hd
    refine ⟨fun b key hget => ?_, fun d key hget => ?_⟩
    · cases ((h.get_node_iff b key).mp hget).1
    · exact ((h.get_entry_iff d key).mp hget).1 hd

def parkOne (deadline : Nat) : List Op :=
  [.spawn 1 0 none, .act 0 .popLocal, .act 0 .install, .act 0 .trap, .act 0 (.wait 8 0 deadline),
    .act 0 (.comparePark true true)]

theorem park_protocol_timed : ∃ s x,
    Run (step id) (fun _ _ => True) (boot fun _ => 0) (parkOne 5) s ∧ s.thread 1 = some x ∧
    x.wake_state = .PARKED ∧ (s.waiters 8).get x.wait_key = some 1 ∧
    (s.deadlines 0).get ⟨5, 1⟩ = some 1 := by
  obtain ⟨s, hrun, hx⟩ : ∃ s, Run (step id) (fun _ _ => True) (boot fun _ => 0) (parkOne 5) s ∧
      (s.thread 1).map (fun x => (x.wake_state, x.wait_key.address, x.deadline, x.deadline_cpu)) =
        some (.PARKED, 8, 5, 0) :=
    Run.exists_of_eval (fun _ _ _ => trivial) (by decide +kernel)
  obtain ⟨x, hx, heq⟩ := Option.map_eq_some_iff.mp hx
  simp only [Prod.mk.injEq] at heq
  obtain ⟨hs, haddr, hd, hc⟩ := heq
  obtain ⟨hnode, hentry⟩ := ((park_protocol hrun).1 1 x hx).1 hs
  exact ⟨s, x, hrun, hx, hs, (hnode 8 _).mpr ⟨haddr.symm, rfl⟩,
    (hentry 0 _).mpr ⟨by simp [hd], hc.symm, by rw [hd]⟩⟩

/-! ## 2. How a park ends -/

/-- A thread whose park a winner ended for good: it is reapable, or freed since. -/
structure Shelved (n : Nat) (v : View) : Prop where
  made : v.made
  tcb : ∀ x, v.tcb = some x → x.wake_state = .REAPABLE ∧ x.parks = n
  log : ∀ result, (n, .runnable result) ∉ v.log

theorem Fits.of_reapable {w : Wait} (h : Fits t w holder phase hooked) (hs : w.state = .REAPABLE) :
    phase = .waiting ∧ (holder = none ∨ ∃ c, holder = some (c, .doomed)) := by
  cases h <;> simp_all

theorem Stand.of_waiting {status : Status} {on_cpu : Bool}
    (h : Stand status on_cpu .waiting queued seated) :
    queued = none ∧ ∀ c, seated ≠ some (c, .waiting) := by
  cases h <;> simp

section

variable {v v' : View} {n : Nat}

theorem Shape.hold_of_reapable (h : Shape hash t v) (hx : v.tcb = some x)
    (hs : x.wake_state = .REAPABLE) {st : Stage} (hhold : v.hold = sole c st) : st = .doomed := by
  obtain ⟨holder, phase, hooked, queued, seated, h⟩ := h.of_tcb hx
  obtain rfl := place_eq_sole.mp (h.hold.symm.trans hhold)
  obtain ⟨-, hnone | ⟨d, hd⟩⟩ := h.fits.of_reapable hs
  · cases hnone
  · cases hd
    rfl

theorem Shape.seat_of_reapable (h : Shape hash t v) (hx : v.tcb = some x)
    (hs : x.wake_state = .REAPABLE) : v.seat ≠ sole c .waiting := by
  obtain ⟨holder, phase, hooked, queued, seated, h⟩ := h.of_tcb hx
  obtain ⟨rfl, -⟩ := h.fits.of_reapable hs
  intro hseat
  exact h.stand.of_waiting.2 c (place_eq_sole.mp (h.seat.symm.trans hseat))

theorem Shelved.keep (h : Shelved n v) (hx : v.tcb = some x) {y : Tcb} (hmade : v'.made = v.made)
    (htcb : v'.tcb = some y) (hlog : v'.log = v.log)
    (hy : x.wake_state = .REAPABLE → y.wake_state = .REAPABLE ∧ y.parks = x.parks) :
    Shelved n v' := by
  refine ⟨hmade ▸ h.made, fun z hz => ?_, fun result => hlog ▸ h.log result⟩
  obtain rfl := Option.some_inj.mp (htcb.symm.trans hz)
  obtain ⟨hs, hn⟩ := h.tcb x hx
  exact ⟨(hy hs).1, (hy hs).2.trans hn⟩

theorem Turn.shelved (hshape : Shape hash t v) (h : Shelved n v) (hturn : Turn hash κ t v v') :
    Shelved n v' := by
  cases hturn with
  | stay => exact h
  | kill | unhook => exact ⟨h.made, h.tcb, h.log⟩
  | spawn p c completion hmade => exact absurd h.made hmade
  | pop c x hx | reseat c x r r' hx | prevStatus c x hx | exited c x hx | check c x hx
  | rewatch c x w hx | doom c x hx | removeNode c x st st' hx =>
    exact h.keep hx rfl hx rfl fun hs => ⟨hs, rfl⟩
  | cull c x hx | install c x hx | rollback c x key hx | yield c x hx | exit c x hx | block c x hx
  | switched c x hx | expire c x key hx | cancel c x st st' hx | unblock c x hx =>
    exact h.keep hx rfl rfl rfl fun hs => ⟨hs, rfl⟩
  | pick c x key hx hs | move c x key hx hs | time c x key hx hs | claim c x hx hs =>
    exact h.keep hx rfl rfl rfl fun hs' => by cases hs.symm.trans hs'
  | park c x y hx hseat =>
    exact h.keep hx rfl rfl rfl fun hs => absurd hseat (hshape.seat_of_reapable hx hs)
  | relink c x key key' hx hhold | reapable c x hx hhold | release c x hx hhold =>
    exact h.keep hx rfl rfl rfl fun hs => by cases hshape.hold_of_reapable hx hs hhold
  | enqueue c d x result hx hhold =>
    cases hshape.hold_of_reapable hx (h.tcb x hx).1 hhold
  | close => exact ⟨h.made, nofun, h.log⟩
  | free c x hx => exact ⟨h.made, nofun, fun result => by simpa using h.log result⟩

theorem Shelved.queue (h : Shelved n v) (hshape : Shape hash t v) : v.queue = nowhere := by
  cases hshape with
  | gone hgone => exact hgone.queue
  | life x holder phase hooked queued seated hlife =>
    obtain ⟨rfl, -⟩ := hlife.fits.of_reapable (h.tcb x hlife.tcb).1
    obtain ⟨rfl, -⟩ := hlife.stand.of_waiting
    exact hlife.queue

end

theorem thread_setTcb_ne_none {s₁ : State} {u : Nat} {y : Tcb} (hthread : s₁.thread = s.thread)
    (hx : s.thread t = some x) : (s₁.setTcb u (some y)).thread t ≠ none := by
  by_cases hu : t = u
  · subst hu
    simp [State.setTcb]
  · simp [State.setTcb, hu, hthread, hx]

theorem Move.freed (hinv : Inv hash s) (hmove : Move hash op s s') (hx : s.thread t = some x)
    (hnone : s'.thread t = none) :
    (∃ c, (s.cpu c).ctx = .closing t ∧ (s.cpu c).work = .idle ∧ (s'.cpu c).ctx = .loop) ∨
      ∃ c, (s.cpu c).work = .free t ∧ (s'.cpu c).work = .idle := by
  cases hmove with
  | spawn | spawnPinned =>
    have hne : t ≠ s.g_next_tid := (hinv.made hx).ne
    simp [addThread, State.push, State.setQueue, State.setTcb, State.setBlock, hne, hx] at hnone
  | close c u y hctx hwork =>
    by_cases hu : t = u
    · subst hu
      exact .inl ⟨c, hctx, hwork, by simp [State.switch]⟩
    · simp [State.switch, State.setUmem, State.setTcb, thread_unpin, hu, hx] at hnone
  | free c u y hwork =>
    by_cases hu : t = u
    · subst hu
      exact .inr ⟨c, hwork, by simp [State.goto]⟩
    · simp [State.goto, State.setUmem, State.ended, State.setTcb, thread_unpin, hu, hx] at hnone
  | cull | install | yield | exit | block | switched | rollback | park | parkTimed | pick | cancel
  | settleDead | unblock | release | moving | relink | time | popDeadline | claim =>
    exact absurd hnone (thread_setTcb_ne_none rfl hx)
  | _ => cases hx.symm.trans hnone

theorem Move.freed_unlinked (hinv : Inv hash s) (hmove : Move hash op s s') (hx : s.thread t = some x)
    (hnone : s'.thread t = none) :
    ((∀ b key, (s.waiters b).get key ≠ some t) ∧ ∀ d key, (s.deadlines d).get key ≠ some t) ∧
      ∀ d st, (t, st) ∈ (s.cpu d).work.holds →
        (s.cpu d).work = .free t ∧ (s'.cpu d).work = .idle := by
  obtain ⟨holder, phase, hooked, queued, seated, h⟩ := (hinv.ok t).shape.of_tcb (v := s.view t) hx
  have hlinks (hh : hooked = false) (hd : x.deadline = 0) :
      (∀ b key, (s.waiters b).get key ≠ some t) ∧ ∀ d key, (s.deadlines d).get key ≠ some t := by
    refine ⟨fun b key hget => ?_, fun d key hget => ((h.get_entry_iff d key).mp hget).1 hd⟩
    cases hh.symm.trans ((h.get_node_iff b key).mp hget).1
  have hfits := h.fits
  rcases hmove.freed hinv hx hnone with ⟨c, hctx, hwork, -⟩ | ⟨c, hwork, hdone⟩
  · have hdead : x.status = .DEAD :=
      (hinv.ok t).disposed c (.inr (by simp [State.view, hctx, Ctx.lingers])) x hx
    obtain ⟨rfl, -⟩ := h.stand.of_dead hdead
    cases hfits with
    | idle hs hd =>
      refine ⟨hlinks rfl hd, fun d st hst => ?_⟩
      cases sole_ne_nowhere ((hinv.hold_eq hst).symm.trans h.hold)
  · have hhold : (s.view t).hold = sole c .doomed := hinv.hold_eq (by simp [hwork, Work.holds])
    obtain rfl := place_eq_sole.mp (h.hold.symm.trans hhold)
    cases hfits with
    | doomed _ hs hd =>
      refine ⟨hlinks rfl hd, fun d st hst => ?_⟩
      obtain ⟨rfl, -⟩ := sole_inj.mp (hhold.symm.trans (hinv.hold_eq hst))
      exact ⟨hwork, hdone⟩

theorem settle_shelves (hinv : Inv hash s) {target : Nat} {result : Wake} {rest : List Claim}
    (hwork : (s.cpu c).work = .settle t result rest) (hx : s.thread t = some x)
    (hdead : s.dead x.proc = true) (hstep : step hash s (.advance c target) = some s') :
    Shelved x.parks (s'.view t) := by
  have hs' : s' = (s.setTcb t (some { x with wake_state := .REAPABLE })).goto c (.finish rest) := by
    have hexec := exec_of_step hstep
    simp only [exec, advance, hwork] at hexec
    obtain ⟨y, hy, hset⟩ := bind_ok hexec
    obtain rfl := Option.some_inj.mp (hx.symm.trans (deref_ok hy))
    rw [if_pos hdead] at hset
    exact pure_ok hset
  have hhold : (s.view t).hold = sole c .clear := hinv.hold_eq (by simp [hwork, Work.holds])
  subst hs'
  refine ⟨hinv.made hx, fun y hy => ?_, fun result' hmem => ?_⟩
  · have hy : (s.setTcb t (some { x with wake_state := .REAPABLE })).thread t = some y := hy
    simp only [State.setTcb, Function.update_self, Option.some_inj] at hy
    subst hy
    exact ⟨rfl, rfl⟩
  · -- a park in the log is in nobody's hands
    have hnone := ((hinv.ok t).logged.closed _ hmem x hx rfl).2
    exact sole_ne_nowhere (hhold.symm.trans hnone)

theorem notMem_queue (h : (s.view t).queue = nowhere) (d : Nat) : t ∉ s.queue d := by
  intro hmem
  have hmark : () ∈ (s.view t).queue d := mem_marks.mpr (List.mem_map_of_mem hmem)
  simp [h] at hmark

/-- One disposition for each park: it ends at most once, made runnable or freed; a winner
    that sees the process dead shelves the thread for good. -/
theorem one_disposition_per_park {word : Nat → UInt32} {ops : List Op}
    (hrun : Run (step hash) (fun _ _ => True) (boot word) ops s) :
    (s.log.map fun e => (e.1, e.2.1)).Nodup ∧
    (∀ c target t result rest x, (s.cpu c).work = .settle t result rest → s.thread t = some x →
      s.dead x.proc = true → ∀ ops' s',
        Run (step hash) (fun _ _ => True) s (.advance c target :: ops') s' →
          (∀ d, t ∉ s'.queue d) ∧ ∀ result, (t, x.parks, .runnable result) ∉ s'.log) ∧
    ∀ op s' t x, step hash s op = some s' → s.thread t = some x → s'.thread t = none →
      (∀ b key, (s.waiters b).get key ≠ some t) ∧ (∀ d key, (s.deadlines d).get key ≠ some t) ∧
        ∀ d st, (t, st) ∈ (s.cpu d).work.holds →
          (s.cpu d).work = .free t ∧ (s'.cpu d).work = .idle := by
  have hinv := (boot_inv word).of_run hrun
  refine ⟨nodup_map_of_marks fun t => (hinv.ok t).logged.nodup, ?_, ?_⟩
  · intro c target t result rest x hwork hx hdead ops' s' hrun'
    cases hrun' with
    | @cons _ s₁ _ _ _ _ hstep hrest =>
      have hinv₁ := (step_move hstep).inv hinv
      have hshelved := settle_shelves hinv hwork hx hdead hstep
      obtain ⟨hinv', hlast⟩ : Inv hash s' ∧ Shelved x.parks (s'.view t) := by
        refine hrest.invariant (P := fun s => Inv hash s ∧ Shelved x.parks (s.view t))
          ⟨hinv₁, hshelved⟩ fun s op s' h _ hstep => ?_
        have hmove := step_move hstep
        exact ⟨hmove.inv h.1, (hmove.turn h.1 t).shelved (h.1.ok t).shape h.2⟩
      refine ⟨notMem_queue (hlast.queue (hinv'.ok t).shape), fun result hmem => ?_⟩
      exact hlast.log result (mem_marks.mpr hmem)
  · intro op s' t x hstep hx hnone
    obtain ⟨⟨hnodes, hentries⟩, hholds⟩ := (step_move hstep).freed_unlinked hinv hx hnone
    exact ⟨hnodes, hentries, hholds⟩

def wakeDead : List Op :=
  parkOne 0 ++ [.act 0 .parkBlocked, .act 0 .switched, .act 0 .prevStatus, .act 1 (.call (.wake 8 1)),
    .advance 1 0, .advance 1 0, .advance 1 0, .advance 1 0, .advance 1 0, .kill [1]]

theorem one_disposition_per_park_dead : ∃ s x s',
    Run (step id) (fun _ _ => True) (boot fun _ => 0) wakeDead s ∧ s.thread 1 = some x ∧
    Run (step id) (fun _ _ => True) s [.advance 1 0, .advance 1 0] s' ∧
    ∀ d, 1 ∉ s'.queue d := by
  obtain ⟨s, hrun, hwork, hx, hdead, hnext⟩ : ∃ s,
      Run (step id) (fun _ _ => True) (boot fun _ => 0) wakeDead s ∧
      (s.cpu 1).work = .settle 1 .woken [] ∧ (s.thread 1).map (·.proc) = some 1 ∧ s.dead 1 = true ∧
      ([Op.advance 1 0, .advance 1 0].foldlM (step id) s).isSome :=
    Run.exists_of_eval (fun _ _ _ => trivial) (by decide +kernel)
  obtain ⟨x, hx, hproc⟩ := Option.map_eq_some_iff.mp hx
  obtain ⟨s', hs'⟩ := Option.isSome_iff_exists.mp hnext
  have hrun' : Run (step id) (fun _ _ => True) s _ s' := .of_foldlM (fun _ _ _ => trivial) hs'
  exact ⟨s, x, s', hrun, hx, hrun',
    ((one_disposition_per_park hrun).2.1 1 0 1 .woken [] x hwork hx (hproc ▸ hdead) _ s' hrun').1⟩

/-! ## 3. Where a thread is -/

end GovinDos.Thread
