/-
  **Every move is a turn of each thread.**

  A move leaves the views of all threads but one alone, so what `Turn` keeps of one view
  holds of all threads along every run.
-/
import GovinDos.Lib.Run
import GovinDos.ThreadMoves

namespace GovinDos.Thread

open Kernel (Status)
open Occurrence Function

/-! ## 1. Changes of a state, seen by one thread -/

namespace State

variable {s : State} {t c : Nat}

theorem view_goto (w : Work) : (s.goto c w).view t = { s.view t with
    hold := update (s.view t).hold c (marks t w.holds)
    watch := update (s.view t).watch c (marks t w.watches) } := by
  simp only [view, goto]
  congr 1 <;> funext d <;> by_cases hd : d = c <;> simp [hd]

theorem view_goto_of_eq {w : Work} (hhold : marks t w.holds = marks t (s.cpu c).work.holds)
    (hwatch : marks t w.watches = marks t (s.cpu c).work.watches) :
    (s.goto c w).view t = s.view t := by
  rw [view_goto, hhold, hwatch]
  exact congrArg₂ (fun f g => { s.view t with hold := f, watch := g })
    (update_eq_self c _) (update_eq_self c _)

theorem view_switch (x : Ctx) : (s.switch c x).view t = { s.view t with
    seat := update (s.view t).seat c (marks t x.seats)
    linger := update (s.view t).linger c (marks t x.lingers) } := by
  simp only [view, switch]
  congr 1 <;> funext d <;> by_cases hd : d = c <;> simp [hd]

theorem view_switch_of_eq {x : Ctx} (hseat : marks t x.seats = marks t (s.cpu c).ctx.seats)
    (hlinger : marks t x.lingers = marks t (s.cpu c).ctx.lingers) :
    (s.switch c x).view t = s.view t := by
  rw [view_switch, hseat, hlinger]
  exact congrArg₂ (fun f g => { s.view t with seat := f, linger := g })
    (update_eq_self c _) (update_eq_self c _)

theorem view_setQueue (l : List Nat) : (s.setQueue c l).view t = { s.view t with
    queue := update (s.view t).queue c (marks t (l.map (·, ()))) } := by
  simp only [view, setQueue]
  congr 1
  funext d
  by_cases hd : d = c <;> simp [hd]

theorem view_setQueue_of_eq {l : List Nat}
    (h : marks t (l.map (·, ())) = marks t ((s.queue c).map (·, ()))) :
    (s.setQueue c l).view t = s.view t := by
  rw [view_setQueue, h]
  exact congrArg (fun f => { s.view t with queue := f }) (update_eq_self c _)

@[simp] theorem view_unpin (x : Tcb) : (unpin s x).view t = s.view t := by
  unfold unpin
  split <;> rfl

end State

theorem unpin_eq (s : State) (x : Tcb) : unpin s x = { s with block := (unpin s x).block } := by
  unfold unpin
  split <;> rfl

theorem thread_unpin (s : State) (x : Tcb) : (unpin s x).thread = s.thread := by rw [unpin_eq]
theorem cpu_unpin (s : State) (x : Tcb) : (unpin s x).cpu = s.cpu := by rw [unpin_eq]
theorem word_unpin (s : State) (x : Tcb) : (unpin s x).word = s.word := by rw [unpin_eq]
theorem dead_unpin (s : State) (x : Tcb) : (unpin s x).dead = s.dead := by rw [unpin_eq]
theorem bucketLock_unpin (s : State) (x : Tcb) : (unpin s x).bucketLock = s.bucketLock := by
  rw [unpin_eq]

theorem publisher_unpin (s : State) (x : Tcb) : (unpin s x).publisher = s.publisher := by
  rw [unpin_eq]

theorem waiters_unpin (s : State) (x : Tcb) : (unpin s x).waiters = s.waiters := by rw [unpin_eq]
theorem g_futex_seq_unpin (s : State) (x : Tcb) : (unpin s x).g_futex_seq = s.g_futex_seq := by
  rw [unpin_eq]

theorem g_next_tid_unpin (s : State) (x : Tcb) : (unpin s x).g_next_tid = s.g_next_tid := by
  rw [unpin_eq]

/-- No CPU goes on, and only the view of `t` changes: it becomes `v`. -/
structure Alters (t : Nat) (s s₁ : State) (v : View) : Prop where
  cpu : s₁.cpu = s.cpu
  others : ∀ u, u ≠ t → s₁.view u = s.view u
  self : s₁.view t = v

namespace Alters

open State

variable {s s₁ s₂ : State} {t c b : Nat} {v : View}

theorem refl (s : State) (t : Nat) : Alters t s s (s.view t) := ⟨rfl, fun _ _ => rfl, rfl⟩

theorem step {v' : View} (h : Alters t s s₁ v) (hcpu : s₂.cpu = s₁.cpu)
    (hothers : ∀ u, u ≠ t → s₂.view u = s₁.view u) (hself : s₁.view t = v → s₂.view t = v') :
    Alters t s s₂ v' :=
  ⟨hcpu.trans h.cpu, fun u hu => (hothers u hu).trans (h.others u hu), hself h.self⟩

theorem quiet (h : Alters t s s₁ v) (hcpu : s₂.cpu = s₁.cpu) (hview : ∀ u, s₂.view u = s₁.view u) :
    Alters t s s₂ v := h.step hcpu (fun u _ => hview u) (hview t).trans

theorem setUmem (h : Alters t s s₁ v) (holder : Option Nat) : Alters t s (s₁.setUmem holder) v :=
  h.quiet rfl fun _ => rfl

theorem bumpSeq (h : Alters t s s₁ v) : Alters t s s₁.bumpSeq v := h.quiet rfl fun _ => rfl

theorem unpin (h : Alters t s s₁ v) (x : Tcb) : Alters t s (unpin s₁ x) v :=
  h.quiet (cpu_unpin s₁ x) fun _ => view_unpin x

theorem setTcb (h : Alters t s s₁ v) (x : Option Tcb) :
    Alters t s (s₁.setTcb t x) { v with tcb := x } := by
  refine h.step rfl (fun u hu => ?_) ?_
  · simp [view, State.setTcb, hu]
  · rintro rfl
    simp [view, State.setTcb]

theorem push (h : Alters t s s₁ v) (c : Nat) : Alters t s (s₁.push c t) { v with
    queue := update v.queue c (v.queue c ++ [()]) } := by
  refine h.step rfl (fun u hu => view_setQueue_of_eq (by simp [marks_cons_of_ne hu.symm])) ?_
  rintro rfl
  rw [State.push, view_setQueue, List.map_append, marks_append]
  simp [view]

theorem eraseNode (h : Alters t s s₁ v) {k : FutexKey} (hk : (s₁.waiters b).get k = some t) :
    Alters t s (s₁.eraseNode b k) { v with nodes := v.nodes \ {(b, k)} } := by
  refine h.step rfl (fun u hu => ?_) ?_
  · simp [view, State.eraseNode, setWaiters, owned_erase, owned_diff_of_ne hu hk]
  · rintro rfl
    simp [view, State.eraseNode, setWaiters, owned_erase]

theorem insertNode (h : Alters t s s₁ v) {k : FutexKey} (hk : (s₁.waiters b).get k = none) :
    Alters t s (s₁.insertNode b k t) { v with nodes := insert (b, k) v.nodes } := by
  refine h.step rfl (fun u hu => ?_) ?_
  · simp [view, State.insertNode, setWaiters, owned_set_of_ne hu hk]
  · rintro rfl
    simp [view, State.insertNode, setWaiters, owned_set_self]

theorem eraseEntry (h : Alters t s s₁ v) {k : TdeadlineKey}
    (hk : ∀ u, u ≠ t → (c, k) ∉ (s₁.view u).entries) :
    Alters t s (s₁.eraseEntry c k) { v with entries := v.entries \ {(c, k)} } := by
  have hview (u : Nat) : (s₁.eraseEntry c k).view u =
      { s₁.view u with entries := (s₁.view u).entries \ {(c, k)} } := by
    simp [view, State.eraseEntry, setDeadlines, owned_erase]
  refine h.step rfl (fun u hu => ?_) ?_
  · rw [hview, Set.sdiff_singleton_eq_self (hk u hu)]
  · rintro rfl
    exact hview t

theorem insertEntry (h : Alters t s s₁ v) {k : TdeadlineKey} (hk : (s₁.deadlines c).get k = none) :
    Alters t s (s₁.insertEntry c k t) { v with entries := insert (c, k) v.entries } := by
  refine h.step rfl (fun u hu => ?_) ?_
  · simp [view, State.insertEntry, setDeadlines, owned_set_of_ne hu hk]
  · rintro rfl
    simp [view, State.insertEntry, setDeadlines, owned_set_self]

theorem ended (h : Alters t s s₁ v) (park : Nat) (d : Disposition) :
    Alters t s (s₁.ended t park d) { v with log := v.log ++ [(park, d)] } := by
  refine h.step rfl (fun u hu => ?_) ?_
  · simp [view, State.ended, marks_cons_of_ne hu.symm]
  · rintro rfl
    simp [view, State.ended]

theorem addThread (p target : Nat) (completion : Option (Nat × Nat))
    (hqueue : (s.view s.g_next_tid).queue = nowhere) :
    Alters s.g_next_tid s (addThread s p target completion) { s.view s.g_next_tid with
      made := True, tcb := some (threadNew p completion), queue := sole target () } := by
  refine (((refl s s.g_next_tid).setTcb (some (threadNew p completion))).push target).step rfl
    (fun u hu => ?_) fun h => ?_
  · have hlt : u < s.g_next_tid + 1 ↔ u < s.g_next_tid := by omega
    simp [view, Thread.addThread, State.push, State.setTcb, setQueue, hlt]
  · have hmade : (Thread.addThread s p target completion).view s.g_next_tid =
        { ((s.setTcb s.g_next_tid (some (threadNew p completion))).push target s.g_next_tid).view
          s.g_next_tid with made := True } := by simp [view, Thread.addThread]
    rw [hmade, h]
    simp [hqueue]

end Alters

/-! ## 2. The invariant -/

def Work.destroys : Work → Bool
  | .victim _ => true
  | .victimOff _ => true
  | .victimBlocked _ => true
  | .victimParked _ => true
  | .reap _ => true
  | .reapCancel _ => true
  | .free _ => true
  | _ => false

def Cpu.inUmem (x : Cpu) : Prop := (∃ t, x.ctx = .closing t) ∨ x.work.destroys = true

structure Inv (hash : Nat → Nat) (s : State) : Prop where
  ok : ∀ t, Ok hash t (s.view t)
  umem : ∀ c, (s.cpu c).inUmem → s.umem = some c
  busy : ∀ c, (s.cpu c).work.destroys = true → ∃ t, (s.cpu c).ctx = .kernel t

section

variable {hash : Nat → Nat} {κ : Prop} {op : Op} {s s' : State} {c t u : Nat} {w w₀ w' : Work}
  {s₁ : State} {x x₀ : Ctx} {v : View}

theorem saved_mem_marks : .saved ∈ marks t x.lingers ↔ x = .saved t := by
  rw [mem_marks]
  cases x <;> simp [Ctx.lingers, eq_comm]

theorem unsaved_iff : Unsaved (s.view t) ↔ ∀ d, (s.cpu d).ctx ≠ .saved t :=
  forall_congr' fun _ => not_congr saved_mem_marks

theorem looked_mem_marks (h : ¬ w.Looked t) {m : Watch} (hm : m ∈ marks t w.watches) :
    m = .victim := by
  rw [mem_marks] at hm
  cases w <;> simp_all [Work.watches, Work.Looked]

theorem Inv.seat_eq (h : Inv hash s) {r : Seat} (hctx : (s.cpu c).ctx = x)
    (hr : x.seats = [(t, r)]) : (s.view t).seat = sole c r :=
  (h.ok t).shape.seat_atMostOne.eq_sole (show r ∈ marks t (s.cpu c).ctx.seats by simp [hctx, hr])

theorem Inv.hold_eq (h : Inv hash s) {st : Stage} (hst : (t, st) ∈ (s.cpu c).work.holds) :
    (s.view t).hold = sole c st :=
  (h.ok t).shape.hold_atMostOne.eq_sole (mem_marks.mpr hst)

theorem Inv.seat_tcb (h : Inv hash s) {r : Seat} (hctx : (s.cpu c).ctx = x)
    (hr : x.seats = [(t, r)]) (hpark : r ≠ .parking) (hleft : r ≠ .left) : ∃ x, s.thread t = some x :=
  (h.ok t).shape.exists_tcb (h.seat_eq hctx hr) hpark hleft

theorem Inv.bucket_eq (h : Inv hash s) {b : Nat} {key : FutexKey}
    (hget : (s.waiters b).get key = some t) : b = hash key.address := by
  have hmem : (b, key) ∈ (s.view t).nodes := hget
  cases (h.ok t).shape with
  | gone h => simp [h.nodes] at hmem
  | life x holder phase hooked queued seated h =>
    rw [h.nodes] at hmem
    split at hmem
    · cases hmem
      rfl
    · cases hmem

theorem Inv.queue_cons (h : Inv hash s) {rest : List Nat} (hq : s.queue c = t :: rest) :
    (s.view t).queue = sole c () ∧
      Alters t s (s.setQueue c rest) { s.view t with queue := nowhere } := by
  have hmem : () ∈ (s.view t).queue c := by simp [State.view, hq]
  have hsole := (h.ok t).shape.queue_atMostOne.eq_sole hmem
  have hc : marks t ((s.queue c).map (·, ())) = sole c () c := congrFun hsole c
  rw [hq, List.map_cons, marks_cons_self, sole_self] at hc
  refine ⟨hsole, rfl, fun u hu => State.view_setQueue_of_eq ?_, ?_⟩
  · simp [hq, marks_cons_of_ne hu.symm]
  · rw [State.view_setQueue, hsole, (List.cons.inj hc).2, update_sole_nil]

theorem Inv.entry_eq (h : Inv hash s) {key : TdeadlineKey} (hmem : (c, key) ∈ (s.view t).entries) :
    ∃ x, s.thread t = some x ∧ x.deadline ≠ 0 ∧ c = x.deadline_cpu ∧ key = ⟨x.deadline, t⟩ := by
  cases (h.ok t).shape with
  | gone h => simp [h.entries] at hmem
  | life x holder phase hooked queued seated h => exact ⟨x, h.tcb, h.entry_of_mem hmem⟩

theorem Inv.hold_parked (h : Inv hash s) {x : Tcb} (hx : s.thread t = some x)
    (hs : x.wake_state = .PARKED) : (s.view t).hold = nowhere := by
  obtain ⟨queued, seated, h⟩ := (h.ok t).shape.of_parked (v := s.view t) hx hs
  exact h.hold

theorem Turn.of_frame (t : Nat) (hframe : ∀ u, u ≠ t → s'.view u = s.view u)
    (hself : Turn hash κ t (s.view t) (s'.view t)) (u : Nat) :
    Turn hash κ u (s.view u) (s'.view u) := by
  by_cases hu : u = t
  · subst hu
    exact hself
  · rw [hframe u hu]
    exact .stay

theorem Alters.turn (h : Alters t s s' v) (hself : Turn hash κ t (s.view t) v) (u : Nat) :
    Turn hash κ u (s.view u) (s'.view u) := .of_frame t h.others (h.self ▸ hself) u

theorem turn_seat (u : Nat) (l₀ l : List Seat) (hA : Alters t s s₁ v) (hctx : (s.cpu c).ctx = x₀)
    (hfrom : x₀.seats = l₀.map (t, ·) ∧ x₀.lingers = []) (hto : x.seats = l.map (t, ·) ∧ x.lingers = [])
    (hself : Turn hash κ t (s.view t) { v with seat := update v.seat c l }) :
    Turn hash κ u (s.view u) ((s₁.switch c x).view u) := by
  refine .of_frame t (fun u hu => ?_) ?_ u
  · rw [State.view_switch_of_eq, hA.others u hu]
    · rw [hA.cpu, hctx, hfrom.1, hto.1, marks_map_of_ne hu.symm, marks_map_of_ne hu.symm]
    · rw [hA.cpu, hctx, hfrom.2, hto.2]
  · have hlinger : (s₁.view t).linger c = [] := by simp [State.view, hA.cpu, hctx, hfrom.2]
    rw [State.view_switch, hto.1, hto.2, marks_map_self, marks_nil, ← hlinger, update_eq_self, hA.self]
    exact hself

theorem turn_switch (u : Nat) {r r' : Seat} (hinv : Inv hash s) (hA : Alters t s s₁ v)
    (hv : v.seat = (s.view t).seat) (hctx : (s.cpu c).ctx = x₀)
    (hfrom : x₀.seats = [(t, r)] ∧ x₀.lingers = []) (hto : x.seats = [(t, r')] ∧ x.lingers = [])
    (hself : (s.view t).seat = sole c r → Turn hash κ t (s.view t) { v with seat := sole c r' }) :
    Turn hash κ u (s.view u) ((s₁.switch c x).view u) := by
  have hseat := hinv.seat_eq hctx hfrom.1
  refine turn_seat u [r] [r'] hA hctx hfrom hto ?_
  rw [hv, hseat, update_sole]
  exact hself hseat

theorem turn_reseat (u : Nat) {r r' : Seat} (hinv : Inv hash s)
    (hctx : (s.cpu c).ctx = x₀) (hfrom : x₀.seats = [(t, r)] ∧ x₀.lingers = [])
    (hto : x.seats = [(t, r')] ∧ x.lingers = []) {y : Tcb} (hy : s.thread t = some y)
    (h : Reseat (s.dead y.proc) r r') : Turn hash κ u (s.view u) ((s.switch c x).view u) :=
  turn_switch u hinv (.refl s t) rfl hctx hfrom hto fun hseat => .reseat c y r r' hy hseat h

theorem turn_linger (u : Nat) (l₀ l : List Linger) (hA : Alters t s s₁ v) (hctx : (s.cpu c).ctx = x₀)
    (hfrom : x₀.seats = [] ∧ x₀.lingers = l₀.map (t, ·)) (hto : x.seats = [] ∧ x.lingers = l.map (t, ·))
    (hself : Turn hash κ t (s.view t) { v with linger := update v.linger c l }) :
    Turn hash κ u (s.view u) ((s₁.switch c x).view u) := by
  refine .of_frame t (fun u hu => ?_) ?_ u
  · rw [State.view_switch_of_eq, hA.others u hu]
    · rw [hA.cpu, hctx, hfrom.1, hto.1]
    · rw [hA.cpu, hctx, hfrom.2, hto.2, marks_map_of_ne hu.symm, marks_map_of_ne hu.symm]
  · have hseat : (s₁.view t).seat c = [] := by simp [State.view, hA.cpu, hctx, hfrom.1]
    rw [State.view_switch, hto.1, hto.2, marks_map_self, marks_nil, ← hseat, update_eq_self, hA.self]
    exact hself

def Passes (t : Nat) (o₀ o : Option Stage) (w₀ w : Work) : Prop :=
  (w₀.watches = [] ∧ w.watches = []) ∧ ∃ l l',
    w₀.holds = l ++ ((o₀.map (t, ·)).toList ++ l') ∧ w.holds = l ++ ((o.map (t, ·)).toList ++ l')

theorem Passes.mem {st : Stage} {o : Option Stage} (h : Passes t (some st) o w₀ w) :
    (t, st) ∈ w₀.holds := by
  obtain ⟨-, l, l', hl, -⟩ := h
  simp [hl]

theorem turn_hold (u : Nat) {p o : Option Stage} (hwork : (s.cpu c).work = w₀)
    (hpass : Passes t p o w₀ w) (hA : Alters t s s₁ v) (hv : v.hold = place (p.map (c, ·)))
    (hself : Turn hash κ t (s.view t) { v with hold := place (o.map (c, ·)) }) :
    Turn hash κ u (s.view u) ((s₁.goto c w).view u) := by
  obtain ⟨⟨hw₀, hw⟩, l, l', hfrom, hto⟩ := hpass
  refine .of_frame t (fun u hu => ?_) ?_ u
  · rw [State.view_goto_of_eq, hA.others u hu]
    · rw [hA.cpu, hwork, hfrom, hto]
      cases p <;> cases o <;> simp [marks_cons_of_ne hu.symm]
    · rw [hA.cpu, hwork, hw₀, hw]
  · -- `t` is nowhere else in the list
    have hc : marks t w₀.holds = p.toList := by
      have := congrFun hv c
      rw [← hA.self] at this
      simp only [State.view, hA.cpu, hwork] at this
      rw [this]
      cases p <;> simp [place]
    have hmarks : marks t w.holds = o.toList := by
      rw [hfrom] at hc
      rw [hto]
      cases p <;> cases o <;> simp_all [List.append_eq_singleton_iff]
    have hwatch : (s₁.view t).watch c = [] := by simp [State.view, hA.cpu, hwork, hw₀]
    rw [State.view_goto, hmarks, hw, marks_nil, ← hwatch, update_eq_self, hA.self, hv]
    convert hself using 2
    cases p <;> cases o <;> simp [place]

theorem turn_held (u : Nat) {st : Stage} {o : Option Stage} (hinv : Inv hash s)
    (hwork : (s.cpu c).work = w₀) (hp : Passes t (some st) o w₀ w) (hA : Alters t s s₁ v)
    (hv : v.hold = (s.view t).hold)
    (hself : (s.view t).hold = sole c st →
      Turn hash κ t (s.view t) { v with hold := place (o.map (c, ·)) }) :
    Turn hash κ u (s.view u) ((s₁.goto c w).view u) := by
  have hhold : (s.view t).hold = sole c st := hinv.hold_eq (hwork ▸ hp.mem)
  exact turn_hold u hwork hp hA (hv.trans hhold) (hself hhold)

theorem turn_same (u : Nat) (hwork : (s.cpu c).work = w₀)
    (hholds : w.holds = w₀.holds) (hwatches : w.watches = w₀.watches) (hcpu : s₁.cpu = s.cpu)
    (hview : ∀ u, s₁.view u = s.view u) : Turn hash κ u (s.view u) ((s₁.goto c w).view u) := by
  rw [State.view_goto_of_eq (by rw [hcpu, hwork, hholds]) (by rw [hcpu, hwork, hwatches]), hview u]
  exact .stay

theorem turn_watch (u t : Nat) {y : Tcb} (l₀ l : List Watch) (hwork : (s.cpu c).work.watches = l₀.map (t, ·))
    (hholds : (s.cpu c).work.holds = []) (hto : w.watches = l.map (t, ·) ∧ w.holds = [])
    (hA : Alters t s s₁ (s.view t)) (hy : s.thread t = some y)
    (h : Rewatch y (κ → Unsaved (s.view t)) l₀ l) :
    Turn hash κ u (s.view u) ((s₁.goto c w).view u) := by
  refine .of_frame t (fun u hu => ?_) ?_ u
  · rw [State.view_goto_of_eq, hA.others u hu]
    · rw [hA.cpu, hholds, hto.2]
    · rw [hA.cpu, hwork, hto.1, marks_map_of_ne hu.symm, marks_map_of_ne hu.symm]
  · have hhold : (s.view t).hold c = [] := by simp [State.view, hholds]
    have hwatch : (s.view t).watch c = l₀ := by simp [State.view, hwork, marks_map_self]
    rw [State.view_goto, hA.self, hto.1, hto.2, marks_map_self, marks_nil, ← hhold, update_eq_self]
    exact .rewatch c y l hy (hwatch.symm ▸ h)

theorem Inv.watch_nowhere (hinv : Inv hash s) (hc : s.umem = some c)
    (hwatch : (s.cpu c).work.watches = []) (t : Nat) : (s.view t).watch = nowhere := by
  funext d
  by_cases hd : d = c
  · subst hd
    simp [State.view, hwatch]
  · -- a destroyer elsewhere would hold `g_umem`
    have hdestroys : (s.cpu d).work.destroys = false := by
      by_contra hne
      have := hinv.umem d (.inr (by simpa using hne))
      exact hd (Option.some_inj.mp (this.symm.trans hc))
    simp only [State.view, nowhere_apply]
    cases hw : (s.cpu d).work <;> simp_all [Work.watches, Work.destroys]

theorem destroys_of_doomed (h : (t, .doomed) ∈ w.holds) : w.destroys = true := by
  have hclaim (i : Claim) : i.held ≠ (t, .doomed) := by
    intro hi
    obtain ⟨u, result, hooked⟩ := i
    cases hooked <;> cases hi
  cases w <;> simp_all [Work.holds, Work.destroys]

theorem Inv.hold_reapable (hinv : Inv hash s) {x : Tcb} (hx : s.thread t = some x)
    (hs : x.wake_state = .REAPABLE) (hc : (s.cpu c).work.destroys = true)
    (hholds : (s.cpu c).work.holds = []) : (s.view t).hold = nowhere := by
  obtain ⟨holder, phase, hooked, queued, seated, h⟩ := (hinv.ok t).shape.of_tcb (v := s.view t) hx
  have hfits := h.fits
  have hw : x.wait.state = .REAPABLE := hs
  cases hfits with
  | reapable => exact h.hold
  | doomed d =>
    have hmem : (t, Stage.doomed) ∈ (s.cpu d).work.holds := by
      refine mem_marks.mp (show Stage.doomed ∈ (s.view t).hold d from ?_)
      simp [h.hold, place]
    have hd := hinv.umem d (.inr (destroys_of_doomed hmem))
    obtain rfl := Option.some_inj.mp (hd.symm.trans (hinv.umem c (.inr hc)))
    simp [hholds] at hmem
  | _ => simp_all

theorem Unhooks.passes (h : Unhooks t w w') : ∃ st st', Passes t (some st) (some st') w w' ∧
    (st = .expired ∧ st' = .unhooked ∨ st = .hooked ∧ st' = .reaped) := by
  cases h with
  | expire result rest => exact ⟨_, _, ⟨⟨rfl, rfl⟩, [], _, rfl, rfl⟩, .inl ⟨rfl, rfl⟩⟩
  | reap => exact ⟨_, _, ⟨⟨rfl, rfl⟩, [], _, rfl, rfl⟩, .inr ⟨rfl, rfl⟩⟩

theorem Cancels.passes (h : Cancels t w w') : ∃ st st', Passes t (some st) (some st') w w' ∧
    (st = .unhooked ∧ st' = .clear ∨ st = .reaped ∧ st' = .doomed) := by
  cases h with
  | finish result rest => exact ⟨_, _, ⟨⟨rfl, rfl⟩, [], _, rfl, rfl⟩, .inl ⟨rfl, rfl⟩⟩
  | reap => exact ⟨_, _, ⟨⟨rfl, rfl⟩, [], _, rfl, rfl⟩, .inr ⟨rfl, rfl⟩⟩

/-! ## 3. Moves are turns -/

open State in

theorem Move.turn (hinv : Inv hash s) (hmove : Move hash op s s') (u : Nat) :
    Turn hash (Careful s op) u (s.view u) (s'.view u) := by
  have hmade : ¬ (s.view s.g_next_tid).made := by simp [view]
  have hblank := (hinv.ok s.g_next_tid).fresh hmade
  cases hmove with
  | refused | store | memory => exact .stay
  | spawn p target =>
    exact (Alters.addThread p target none hblank.gone.queue).turn (.spawn p target none hmade hblank) u
  | spawnPinned p target b event =>
    exact ((Alters.addThread p target (some (b, event)) hblank.gone.queue).turn
      (.spawn p target (some (b, event)) hmade hblank) u :)
  | kill ps => exact .kill _ fun p hp => by simp [show s.dead p = true from hp]
  | pop c t rest x hctx hwork hq hx hlive hop =>
    subst hop
    obtain ⟨hqueue, hA⟩ := hinv.queue_cons hq
    exact turn_seat u [] [.popped] hA hctx ⟨rfl, rfl⟩ ⟨rfl, rfl⟩
      (.pop c x hx hqueue (by simp [view, hctx, Ctx.seats]) fun h => unsaved_iff.mpr (h t rest hq))
  | cull c t rest x hctx hwork hq hx hdead hop =>
    subst hop
    obtain ⟨hqueue, hA⟩ := hinv.queue_cons hq
    exact turn_linger u [] [.off] (hA.setTcb _) hctx ⟨rfl, rfl⟩ ⟨rfl, rfl⟩
      (.cull c x hx hqueue (by simp [view, hctx, Ctx.seats]) hdead fun h => unsaved_iff.mpr (h t rest hq))
  | install c t x hctx hx hop =>
    subst hop
    exact turn_switch u hinv ((Alters.refl s t).setTcb _) rfl hctx ⟨rfl, rfl⟩ ⟨rfl, rfl⟩ fun hseat =>
      .install c x hx hseat fun h => (h t x hctx hx).imp id fun h d m hm => looked_mem_marks (h d) hm
  | trap c t hctx =>
    obtain ⟨x, hx⟩ := hinv.seat_tcb hctx rfl (by simp) (by simp)
    exact turn_reseat u hinv hctx ⟨rfl, rfl⟩ ⟨rfl, rfl⟩ hx .trap
  | sysret c t hctx hwork =>
    obtain ⟨x, hx⟩ := hinv.seat_tcb hctx rfl (by simp) (by simp)
    exact turn_reseat u hinv hctx ⟨rfl, rfl⟩ ⟨rfl, rfl⟩ hx .sysret
  | yield c t x hctx hwork hx =>
    exact turn_switch u hinv (((Alters.refl s t).setTcb _).push c) rfl hctx ⟨rfl, rfl⟩ ⟨rfl, rfl⟩
      (.yield c x hx)
  | exit c t x hctx hwork hx =>
    exact turn_switch u hinv ((Alters.refl s t).setTcb _) rfl hctx ⟨rfl, rfl⟩ ⟨rfl, rfl⟩ (.exit c x hx)
  | block c t x hctx hx =>
    exact turn_switch u hinv ((Alters.refl s t).setTcb _) rfl hctx ⟨rfl, rfl⟩ ⟨rfl, rfl⟩ (.block c x hx)
  | switched c t x hctx hx =>
    have hseat : (s.view t).seat = sole c .left := hinv.seat_eq hctx rfl
    have hA := (Alters.refl s t).setTcb (some { x with on_cpu := false })
    refine .of_frame t (fun u hu => ?_) ?_ u
    · rw [view_switch_of_eq, hA.others u hu]
      · simp [hA.cpu, hctx, Ctx.seats, marks_cons_of_ne hu.symm]
      · simp [hA.cpu, hctx, Ctx.lingers, marks_cons_of_ne hu.symm]
    · rw [view_switch, hA.self, hseat]
      simpa [Ctx.seats, Ctx.lingers] using Turn.switched c x hx hseat
  | prevStatus c t x hctx hx =>
    exact turn_linger u [.saved] _ (.refl s t) hctx ⟨rfl, rfl⟩ (by split <;> exact ⟨rfl, rfl⟩)
      (.prevStatus c x hx (by simp [view, hctx, Ctx.lingers]))
  | exited c t x hctx hwork humem hx =>
    exact turn_linger u [.off] [.closing] ((Alters.refl s t).setUmem _) hctx ⟨rfl, rfl⟩
      ⟨rfl, rfl⟩ (.exited c x hx (by simp [view, hctx, Ctx.lingers]))
  | exitedPublish c t x hctx hwork humem hx =>
    rw [view_goto_of_eq]
    · exact turn_linger u [.off] [.closing] ((Alters.refl s t).setUmem _) hctx ⟨rfl, rfl⟩
        ⟨rfl, rfl⟩ (.exited c x hx (by simp [view, hctx, Ctx.lingers]))
    · simp [switch, setUmem, hwork, Work.holds]
    · simp [switch, setUmem, hwork, Work.watches]
  | close c t x hctx hwork hx =>
    have hwatch := hinv.watch_nowhere (hinv.umem c (.inl ⟨t, hctx⟩)) (by rw [hwork]; rfl) t
    exact turn_linger u [.closing] [] ((((Alters.refl s t).unpin x).setTcb none).setUmem none) hctx
      ⟨rfl, rfl⟩ ⟨rfl, rfl⟩ (.close c x hx (by simp [view, hctx, Ctx.lingers]) hwatch)
  | wait c t addr expected deadline x hctx hwork hx hlive =>
    exact turn_reseat u hinv hctx ⟨rfl, rfl⟩ ⟨rfl, rfl⟩ hx (.wait hlive)
  | mismatch c t addr expected deadline hctx | noNode c t addr expected deadline hctx =>
    obtain ⟨x, hx⟩ := hinv.seat_tcb hctx rfl (by simp) (by simp)
    exact turn_reseat u hinv hctx ⟨rfl, rfl⟩ ⟨rfl, rfl⟩ hx .refuse
  | rollback c t addr expected deadline x hctx hx m hm =>
    have hA : Alters t s (s.bumpSeq.setWaiters (hash addr) m) (s.view t) :=
      (Alters.refl s t).quiet rfl fun u => by simp [view, setWaiters, bumpSeq, owned_congr hm]
    exact turn_switch u hinv (hA.setTcb _) rfl hctx ⟨rfl, rfl⟩ ⟨rfl, rfl⟩ (.rollback c x _ hx)
  | park c t addr expected x hctx hx hlock hword hnew =>
    have hA := (Alters.refl s t).bumpSeq.insertNode hnew
    refine turn_switch u hinv (hA.setTcb _) rfl hctx ⟨rfl, rfl⟩ ⟨rfl, rfl⟩ fun hseat => ?_
    have hturn : Turn hash (Careful s op) t (s.view t) _ := .park c x { x with
      wait_key := ⟨addr, s.g_futex_seq⟩, deadline := 0, wake_state := .PARKED
      parks := x.parks + 1, expected := expected } hx hseat rfl rfl rfl rfl rfl
    simpa [Wait.node, Wait.due, Tcb.wait] using hturn
  | parkTimed c t addr expected deadline x hctx hx hlock hword hnew hd hfree =>
    have hA := ((Alters.refl s t).bumpSeq.insertNode hnew).insertEntry hfree
    refine turn_switch u hinv (hA.setTcb _) rfl hctx ⟨rfl, rfl⟩ ⟨rfl, rfl⟩ fun hseat => ?_
    have hturn : Turn hash (Careful s op) t (s.view t) _ := .park c x { x with
      wait_key := ⟨addr, s.g_futex_seq⟩, deadline := deadline, deadline_cpu := c
      wake_state := .PARKED, parks := x.parks + 1, expected := expected } hx hseat rfl rfl rfl rfl rfl
    simpa [Wait.node, Wait.due, Tcb.wait, hd] using hturn
  | callWake c addr cap hfree | post c addr value hfree | callRequeue c src dst expected cap hfree
  | callInterrupt c now hfree => exact turn_same u hfree.work rfl rfl rfl fun u => rfl
  | callDestroy c t v x hfree humem hx =>
    exact turn_watch u t [] [.victim] (by rw [hfree.work]; rfl) (by rw [hfree.work]; rfl) ⟨rfl, rfl⟩
      ((Alters.refl s t).setUmem _) hx .start
  | wake c addr cap hwork | publish c addr value hwork | skip c addr cap next_seq batch key t x hwork
  | finished c hwork | requeue c src dst expected cap hwork | requeueAgain c src dst expected cap hwork
  | scanSkip c src dst cap next_seq moved key hwork | scanned c src dst cap next_seq moved hwork
  | interrupt c now hwork | timeSkip c now seek seek' batch hwork =>
    exact turn_same u hwork rfl rfl rfl fun u => rfl
  | detached c addr cap next_seq batch hwork | expired c now seek batch hwork =>
    exact turn_same u hwork (by simp [Work.holds, Claim.held]) rfl rfl fun u => rfl
  | pick c addr cap next_seq batch key t x hwork hnext hx hs =>
    have hhold := hinv.hold_parked hx hs
    obtain ⟨rfl, hget⟩ := nextWaiter_spec hnext
    exact turn_hold u hwork (p := none) (o := some (.picked key))
      ⟨⟨rfl, rfl⟩, _, [], (List.append_nil _).symm, rfl⟩ ((Alters.refl s t).setTcb _) hhold
      (.pick c x key hx hs hget hhold)
  | unhook c addr cap next_seq batch key t hwork hget =>
    have hkey := hinv.bucket_eq hget
    refine turn_held u hinv (o := some .unhooked) hwork ⟨⟨rfl, rfl⟩, _, [], rfl, List.map_append⟩
      ((Alters.refl s t).eraseNode hget) rfl fun hhold => ?_
    rw [hkey]
    exact .unhook c key hhold
  | removeNode c t x w hwork hx hlock hget =>
    obtain ⟨st, st', hp, hst⟩ := hwork.passes
    exact turn_held u hinv rfl hp ((Alters.refl s t).eraseNode hget) rfl fun hhold =>
      .removeNode c x st st' hx hhold hst
  | cancelNone c t x w hwork hx hd =>
    obtain ⟨st, st', hp, hst⟩ := hwork.passes
    refine turn_held u hinv rfl hp (.refl s t) rfl fun hhold => ?_
    have hturn : Turn hash (Careful s op) t (s.view t) _ := .cancel c x st st' hx hhold hst
    have hxd : ({ x with deadline := 0 } : Tcb) = x := by rw [← hd]
    rw [hxd, Wait.due_of_zero hd, Set.sdiff_empty, ← show (s.view t).tcb = some x from hx] at hturn
    exact hturn
  | cancel c t x w hwork hx hd =>
    obtain ⟨st, st', hp, hst⟩ := hwork.passes
    have hdue : x.wait.due t = {(x.deadline_cpu, ⟨x.deadline, t⟩)} := if_neg hd
    have hA : Alters t s (s.eraseEntry x.deadline_cpu ⟨x.deadline, t⟩) _ :=
      (Alters.refl s t).eraseEntry fun u hu hmem => ?_
    · refine turn_held u hinv rfl hp (hA.setTcb _) rfl fun hhold => ?_
      rw [← hdue]
      exact .cancel c x st st' hx hhold hst
    · -- an entry names its thread
      obtain ⟨y, -, -, -, hkey⟩ := hinv.entry_eq hmem
      exact hu (congrArg TdeadlineKey.tid hkey).symm
  | settleDead c t result rest x hwork hx hdead =>
    exact turn_held u hinv (o := none) hwork ⟨⟨rfl, rfl⟩, [], _, rfl, rfl⟩
      ((Alters.refl s t).setTcb _) rfl fun hhold => .reapable c x hx hhold hdead
  | settleLive c t result rest x hwork hx =>
    exact turn_held u hinv (o := some .checked) hwork ⟨⟨rfl, rfl⟩, [], _, rfl, rfl⟩ (.refl s t) rfl
      (.check c x hx)
  | unblock c t result rest x hwork hx hcpu =>
    exact turn_held u hinv (o := some .runnable) hwork ⟨⟨rfl, rfl⟩, [], _, rfl, rfl⟩
      ((Alters.refl s t).setTcb _) rfl fun hhold => .unblock c x hx hhold hcpu
  | release c t result rest x hwork hx =>
    exact turn_held u hinv (o := some .released) hwork ⟨⟨rfl, rfl⟩, [], _, rfl, rfl⟩
      ((Alters.refl s t).setTcb _) rfl (.release c x hx)
  | enqueue c t target result rest x hwork hx =>
    exact turn_held u hinv (o := none) hwork ⟨⟨rfl, rfl⟩, [], _, rfl, rfl⟩
      (((Alters.refl s t).push target).ended _ _) rfl (.enqueue c target x result hx)
  | moving c src dst cap next_seq moved key t x hwork hnext hx hs =>
    have hhold := hinv.hold_parked hx hs
    obtain ⟨rfl, hget⟩ := nextWaiter_spec hnext
    exact turn_hold u hwork (p := none) (o := some (.moving key)) ⟨⟨rfl, rfl⟩, [], [], rfl, rfl⟩
      ((Alters.refl s t).setTcb _) hhold (.move c x key hx hs hget hhold)
  | relink c src dst cap next_seq moved key t x hwork hget hx hnew =>
    have hkey := hinv.bucket_eq hget
    have hA := (((Alters.refl s t).eraseNode hget).insertNode hnew).bumpSeq
    refine turn_held u hinv (o := none) hwork ⟨⟨rfl, rfl⟩, [], [], rfl, rfl⟩ (hA.setTcb _) rfl
      fun hhold => ?_
    rw [hkey]
    exact .relink c x key ⟨dst, s.g_futex_seq⟩ hx hhold
  | time c now seek key batch t x hwork hget hx hs =>
    have hhold := hinv.hold_parked hx hs
    exact turn_hold u hwork (p := none) (o := some (.timed key))
      ⟨⟨rfl, rfl⟩, _, [], (List.append_nil _).symm, rfl⟩ ((Alters.refl s t).setTcb _) hhold
      (.time c x key hx hs hget hhold)
  | popDeadline c now seek key batch t x hwork hget hx =>
    have hA := (Alters.refl s t).eraseEntry (c := c) (k := key) fun u hu hmem =>
      hu (Option.some_inj.mp ((mem_owned.mp hmem).symm.trans hget))
    exact turn_held u hinv (o := some .expired) hwork ⟨⟨rfl, rfl⟩, _, [], rfl, List.map_append⟩
      (hA.setTcb _) rfl (.expire c x key hx)
  | giveUp c t x w hwork hholds hx =>
    exact turn_watch u t [w] [] hwork hholds ⟨rfl, rfl⟩ ((Alters.refl s t).setUmem _) hx
      (.again w)
  | victim c t x hwork hx hcpu hop =>
    obtain ⟨target, rfl⟩ := hop
    exact turn_watch u t [.victim] [.off] (by rw [hwork]; rfl) (by rw [hwork]; rfl) ⟨rfl, rfl⟩
      (.refl s t) hx (.off hcpu fun h => unsaved_iff.mpr (h t hwork))
  | victimOff c t x hwork hx hs =>
    exact turn_watch u t [.off] [.blocked] (by rw [hwork]; rfl) (by rw [hwork]; rfl) ⟨rfl, rfl⟩
      (.refl s t) hx (.blocked hs)
  | victimBlocked c t x hwork hx hs =>
    exact turn_watch u t [.blocked] [.parked] (by rw [hwork]; rfl) (by rw [hwork]; rfl) ⟨rfl, rfl⟩
      (.refl s t) hx (.parked hs)
  | doom c t x hwork hx hs =>
    have hhold := hinv.hold_reapable hx hs (by rw [hwork]; rfl) (by rw [hwork]; rfl)
    refine .of_frame t (fun u hu => view_goto_of_eq ?_ ?_) ?_ u
    · simp [hwork, Work.holds, marks_cons_of_ne hu.symm]
    · simp [hwork, Work.watches, marks_cons_of_ne hu.symm]
    · rw [view_goto, hhold]
      simpa [Work.holds, Work.watches] using
        Turn.doom c x hx hs (by simp [view, hwork, Work.watches]) hhold
  | claim c t x hwork hx hs =>
    have hhold := hinv.hold_parked hx hs
    have hA := (Alters.refl s t).setTcb (some { x with wake_state := .CLAIMED })
    refine .of_frame t (fun u hu => ?_) ?_ u
    · rw [view_goto_of_eq, hA.others u hu]
      · simp [hA.cpu, hwork, Work.holds, marks_cons_of_ne hu.symm]
      · simp [hA.cpu, hwork, Work.watches, marks_cons_of_ne hu.symm]
    · rw [view_goto, hA.self, hhold]
      simpa [Work.holds, Work.watches] using
        Turn.claim c x hx hs (by simp [view, hwork, Work.watches]) hhold
  | free c t x hwork hx =>
    have hwatch := hinv.watch_nowhere (hinv.umem c (.inr (by rw [hwork]; rfl))) (by rw [hwork]; rfl) t
    have hA := ((Alters.refl s t).unpin x).setTcb none
    exact turn_held u hinv (o := none) hwork ⟨⟨rfl, rfl⟩, [], [], rfl, rfl⟩
      ((hA.ended _ _).setUmem none) rfl fun hhold => .free c x hx hhold hwatch

/-! ## 4. Moves keep the invariant -/

theorem Inv.umem_goto (hinv : Inv hash s) (hcpu : s₁.cpu = s.cpu)
    (humem : s₁.umem = s.umem) (hw : w.destroys = true → (s.cpu c).work.destroys = true) (d : Nat)
    (hd : ((s₁.goto c w).cpu d).inUmem) : (s₁.goto c w).umem = some d := by
  refine humem.trans (hinv.umem d ?_)
  simp only [State.goto, hcpu] at hd
  by_cases hdc : d = c
  · subst hdc
    rw [update_self] at hd
    exact hd.imp id hw
  · rwa [update_of_ne hdc] at hd

theorem Inv.umem_switch (hinv : Inv hash s) (hcpu : s₁.cpu = s.cpu)
    (humem : s₁.umem = s.umem) (hx : ∀ t, x ≠ .closing t) (d : Nat)
    (hd : ((s₁.switch c x).cpu d).inUmem) : (s₁.switch c x).umem = some d := by
  refine humem.trans (hinv.umem d ?_)
  simp only [State.switch, hcpu] at hd
  by_cases hdc : d = c
  · subst hdc
    rw [update_self] at hd
    exact hd.imp (fun ⟨t, ht⟩ => absurd ht (hx t)) id
  · rwa [update_of_ne hdc] at hd

theorem Inv.umem_take (hinv : Inv hash s) (humem : s.umem = none) (hcpu : ∀ d, d ≠ c → s'.cpu d = s.cpu d)
    (humem' : s'.umem = some c) (d : Nat) (hd : (s'.cpu d).inUmem) : s'.umem = some d := by
  by_cases hdc : d = c
  · rw [humem', hdc]
  · rw [hcpu d hdc] at hd
    cases (hinv.umem d hd).symm.trans humem

theorem Inv.umem_give (hinv : Inv hash s) (hc : (s.cpu c).inUmem)
    (hcpu : ∀ d, d ≠ c → s'.cpu d = s.cpu d) (hc' : ¬ (s'.cpu c).inUmem) (d : Nat)
    (hd : (s'.cpu d).inUmem) : s'.umem = some d := by
  by_cases hdc : d = c
  · exact absurd (hdc ▸ hd) hc'
  · rw [hcpu d hdc] at hd
    exact absurd (Option.some_inj.mp ((hinv.umem d hd).symm.trans (hinv.umem c hc))) hdc

theorem Unhooks.destroys (h : Unhooks t w w') (hw : w'.destroys = true) :
    w.destroys = true := by
  cases h with
  | expire => cases hw
  | reap => rfl

theorem Cancels.destroys (h : Cancels t w w') (hw : w'.destroys = true) :
    w.destroys = true := by
  cases h with
  | finish => cases hw
  | reap => rfl

theorem destroys_of_watches {m : Watch} (h : w.watches = [(t, m)]) :
    w.destroys = true := by
  cases w <;> simp_all [Work.watches, Work.destroys]

theorem Move.umem (hinv : Inv hash s) (hmove : Move hash op s s') :
    ∀ c, (s'.cpu c).inUmem → s'.umem = some c := by
  cases hmove with
  | refused | spawn | spawnPinned | kill | store | memory => exact hinv.umem
  | pop | cull | install | trap | sysret | yield | exit | block | switched | wait | mismatch | noNode
  | rollback | park | parkTimed => exact hinv.umem_switch rfl rfl (by simp)
  | prevStatus => exact hinv.umem_switch rfl rfl fun t => by split <;> simp
  | exited c t x hctx hwork humem hx =>
    exact hinv.umem_take humem (fun d hd => by simp [State.switch, State.setUmem, hd]) rfl
  | exitedPublish c t x hctx hwork humem hx =>
    exact hinv.umem_take humem (fun d hd => by simp [State.switch, State.goto, State.setUmem, hd]) rfl
  | close c t x hctx hwork hx =>
    have hcpu : (unpin s x).cpu = s.cpu := cpu_unpin s x
    refine hinv.umem_give (c := c) (.inl ⟨t, hctx⟩) (fun d hd => ?_) ?_
    · simp [State.switch, State.setUmem, State.setTcb, hd, hcpu]
    · simp [State.switch, State.setUmem, State.setTcb, hcpu, hwork, Cpu.inUmem, Work.destroys]
  | callWake | post | callRequeue | callInterrupt | wake | publish | pick | skip | detached | unhook
  | finished | settleDead | settleLive | unblock | release | enqueue | requeue | requeueAgain | moving
  | scanSkip | scanned | relink | interrupt | time | timeSkip | expired | popDeadline =>
    exact hinv.umem_goto rfl rfl fun hw => by cases hw
  | callDestroy c t v x hfree humem hx =>
    exact hinv.umem_take humem (fun d hd => by simp [State.goto, State.setUmem, hd]) rfl
  | removeNode c t x w hwork | cancelNone c t x w hwork | cancel c t x w hwork =>
    exact hinv.umem_goto rfl rfl hwork.destroys
  | giveUp c t x w hwork hholds hx =>
    have hdes := destroys_of_watches hwork
    obtain ⟨v, hctx⟩ := hinv.busy c hdes
    refine hinv.umem_give (c := c) (.inr hdes) (fun d hd => ?_) ?_
    · simp [State.goto, State.setUmem, hd]
    · simp [State.goto, State.setUmem, Cpu.inUmem, hctx, Work.destroys]
  | victim c t x hwork | victimOff c t x hwork | victimBlocked c t x hwork | doom c t x hwork
  | claim c t x hwork => exact hinv.umem_goto rfl rfl fun _ => by rw [hwork]; rfl
  | free c t x hwork hx =>
    have hdes : (s.cpu c).work.destroys = true := by rw [hwork]; rfl
    have hcpu : (unpin s x).cpu = s.cpu := cpu_unpin s x
    obtain ⟨v, hctx⟩ := hinv.busy c hdes
    refine hinv.umem_give (c := c) (.inr hdes) (fun d hd => ?_) ?_
    · simp [State.goto, State.setUmem, State.ended, State.setTcb, hd, hcpu]
    · simp [State.goto, State.setUmem, State.ended, State.setTcb, hcpu, Cpu.inUmem, hctx, Work.destroys]

theorem Inv.busy_switch (hinv : Inv hash s) (hcpu : s₁.cpu = s.cpu)
    (hwork : (s.cpu c).work = .idle) (d : Nat)
    (hd : ((s₁.switch c x).cpu d).work.destroys = true) :
    ∃ t, ((s₁.switch c x).cpu d).ctx = .kernel t := by
  simp only [State.switch, hcpu] at hd ⊢
  by_cases hdc : d = c
  · subst hdc
    rw [update_self] at hd
    rw [hwork] at hd
    cases hd
  · rw [update_of_ne hdc] at hd ⊢
    exact hinv.busy d hd

theorem Inv.busy_goto (hinv : Inv hash s) (hcpu : s₁.cpu = s.cpu)
    (hw : w.destroys = true → ∃ t, (s.cpu c).ctx = .kernel t) (d : Nat)
    (hd : ((s₁.goto c w).cpu d).work.destroys = true) :
    ∃ t, ((s₁.goto c w).cpu d).ctx = .kernel t := by
  simp only [State.goto, hcpu] at hd ⊢
  by_cases hdc : d = c
  · subst hdc
    rw [update_self] at hd ⊢
    exact hw hd
  · rw [update_of_ne hdc] at hd ⊢
    exact hinv.busy d hd

theorem Move.busy (hinv : Inv hash s) (hmove : Move hash op s s') :
    ∀ c, (s'.cpu c).work.destroys = true → ∃ t, (s'.cpu c).ctx = .kernel t := by
  cases hmove with
  | refused | spawn | spawnPinned | kill | store | memory => exact hinv.busy
  | pop | cull | install | trap | sysret | yield | exit | block | switched | wait | mismatch | noNode
  | rollback | park | parkTimed | prevStatus | exited => exact hinv.busy_switch rfl ‹_›
  | exitedPublish c t x hctx hwork humem hx =>
    intro d hd
    by_cases hdc : d = c
    · subst hdc
      simp [State.goto, Work.destroys] at hd
    · simp only [State.goto, State.switch, State.setUmem, update_of_ne hdc] at hd ⊢
      exact hinv.busy d hd
  | close c t x hctx hwork => exact hinv.busy_switch (cpu_unpin s x) hwork
  | callWake | post | callRequeue | callInterrupt | wake | publish | pick | skip | detached | unhook
  | finished | settleDead | settleLive | unblock | release | enqueue | requeue | requeueAgain | moving
  | scanSkip | scanned | relink | interrupt | time | timeSkip | expired | popDeadline | giveUp =>
    exact hinv.busy_goto rfl fun hw => by cases hw
  | callDestroy c t v x hfree humem hx hctx => exact hinv.busy_goto rfl fun _ => ⟨v, hctx⟩
  | removeNode c t x w hwork | cancelNone c t x w hwork | cancel c t x w hwork =>
    exact hinv.busy_goto rfl fun hw => hinv.busy c (hwork.destroys hw)
  | victim c t x hwork | victimOff c t x hwork | victimBlocked c t x hwork | doom c t x hwork
  | claim c t x hwork =>
    exact hinv.busy_goto rfl fun _ => hinv.busy c (by rw [hwork]; rfl)
  | free c t x hwork => exact hinv.busy_goto (cpu_unpin s x) fun hw => by cases hw

theorem Move.inv (hinv : Inv hash s) (hmove : Move hash op s s') : Inv hash s' where
  ok := fun t => (hmove.turn hinv t).ok (hinv.ok t)
  umem := hmove.umem hinv
  busy := hmove.busy hinv

theorem blank_boot (word : Nat → UInt32) (t : Nat) : Blank ((boot word).view t) where
  gone := {
    tcb := rfl
    nodes := Set.eq_empty_of_forall_notMem fun _ h => by cases h
    entries := Set.eq_empty_of_forall_notMem fun _ h => by cases h
    hold := rfl
    queue := rfl
    seat := .inl rfl }
  seat := rfl
  linger := rfl
  watch := rfl
  log := rfl

theorem boot_inv (word : Nat → UInt32) : Inv hash (boot word) where
  ok := fun t => (blank_boot word t).ok
  umem := fun c hc => by simp [boot, Cpu.inUmem, Work.destroys] at hc
  busy := fun c hc => by simp [boot, Work.destroys] at hc

theorem exec_of_step (h : step hash s op = some s') : exec hash s op = .ok s' := by
  unfold step at h
  cases hexec : exec hash s op with
  | ok s₁ => rw [hexec] at h; cases h; rfl
  | error e => rw [hexec] at h; cases h

theorem step_move (h : step hash s op = some s') : Move hash op s s' := by
  obtain ⟨c, hgoes⟩ := exec_goes hash op s
  exact hgoes.move s' (exec_of_step h)

theorem Inv.of_run {ok : State → Op → Prop} {ops : List Op} (hrun : Run (step hash) ok s ops s')
    (h : Inv hash s) : Inv hash s' :=
  hrun.invariant h fun _ _ _ h _ hstep => (step_move hstep).inv h

end

end GovinDos.Thread
