/-
  **Who disposes of a thread (`process.c`, `scheduler.c`, `channel.c`).**

  A destroyer reads `on_cpu`, `status` and `wake_state` one after the other, and a CPU that
  has switched a thread out reads its status after it has cleared `on_cpu`.  Between these
  loads the thread can be woken, run and park again, and then it is freed while a CPU still
  has it.
-/
import GovinDos.ThreadSafety

namespace GovinDos.Thread

open Kernel (Status)
open Occurrence

/-! ## 1. Careful runs -/

def Stage.Reaps : Stage → Prop
  | .hooked => True
  | .reaped => True
  | .doomed => True
  | _ => False

def Watched (v : View) : Prop := ∃ c, ∃ w ∈ v.watch c, w ≠ .victim

def Settled (v : View) (x : Tcb) : Prop :=
  (Unsaved v ∧ (v.seat = nowhere ∨ ∃ d, v.seat = sole d .popped)) ∨
    (v.dead x.proc = true ∧ x.wake_state = .IDLE ∧ ∀ d, v.seat ≠ sole d .waiting)

structure Orderly (v : View) : Prop where
  gone : v.tcb = none → v.seat = nowhere ∧ v.linger = nowhere ∧ v.watch = nowhere
  alone : v.linger = nowhere ∨ v.seat = nowhere ∧ ∃ c m, v.linger = sole c m
  watched : ∀ x, v.tcb = some x → Watched v → Settled v x
  reaped : ∀ c st, v.hold = sole c st → st.Reaps → v.seat = nowhere ∧ v.linger = nowhere

section

variable {hash : Nat → Nat} {κ : Prop} {t c : Nat} {v v' : View} {x y : Tcb} {r : Seat}

theorem Blank.orderly (h : Blank v) : Orderly v where
  gone := fun _ => ⟨h.seat, h.linger, h.watch⟩
  alone := .inl h.linger
  watched := fun x hx => by simp [h.gone.tcb] at hx
  reaped := fun c st hhold => by simp [h.gone.hold] at hhold

theorem Orderly.keep (h : Orderly v) (hx : v.tcb = some x) (htcb : v'.tcb = some y)
    (hproc : y.proc = x.proc) (hidle : x.wake_state = .IDLE → y.wake_state = .IDLE)
    (hseat : v'.seat = v.seat) (hlinger : v'.linger = v.linger) (hwatch : v'.watch = v.watch)
    (hdead : v'.dead = v.dead)
    (hhold : ∀ c st, v'.hold = sole c st → st.Reaps → ∃ d st', v.hold = sole d st' ∧ st'.Reaps) :
    Orderly v' where
  gone := fun hnone => by simp [htcb] at hnone
  alone := by rw [hseat, hlinger]; exact h.alone
  watched := fun z hz hw => by
    obtain rfl := Option.some_inj.mp (htcb.symm.trans hz)
    have hw : Watched v := by rwa [Watched, hwatch] at hw
    rw [Settled, Unsaved, hseat, hlinger, hdead, hproc]
    exact (h.watched x hx hw).imp id fun ⟨hd, hs, hne⟩ => ⟨hd, hidle hs, hne⟩
  reaped := fun c st hst hreaps => by
    obtain ⟨d, st', hst', hreaps'⟩ := hhold c st hst hreaps
    rw [hseat, hlinger]
    exact h.reaped d st' hst' hreaps'

theorem Orderly.linger_of_seat (h : Orderly v) (hseat : v.seat = sole c r) : v.linger = nowhere := by
  rcases h.alone with hnone | ⟨hno, -⟩
  · exact hnone
  · cases sole_ne_nowhere (hseat.symm.trans hno)

theorem Orderly.seated (h : Orderly v) (hseat : v.seat = sole c r) (htcb : v'.tcb = some y)
    (halone : v'.linger = nowhere ∨ v'.seat = nowhere ∧ ∃ c m, v'.linger = sole c m)
    (hhold : v'.hold = v.hold) (hwatch : v'.watch = v.watch) (hset : Watched v → Settled v' y) :
    Orderly v' where
  gone := fun hnone => by simp [htcb] at hnone
  alone := halone
  watched := fun z hz hw => by
    obtain rfl := Option.some_inj.mp (htcb.symm.trans hz)
    exact hset (by rwa [Watched, hwatch] at hw)
  reaped := fun d st hst hreaps => by
    have hno := (h.reaped d st (hhold ▸ hst) hreaps).1
    cases sole_ne_nowhere (hseat.symm.trans hno)

theorem Orderly.running (h : Orderly v) (hx : v.tcb = some x) (hseat : v.seat = sole c r)
    (hr : r ≠ .popped) (hw : Watched v) :
    v.dead x.proc = true ∧ x.wake_state = .IDLE ∧ ∀ d, v.seat ≠ sole d .waiting := by
  rcases h.watched x hx hw with ⟨-, hno | ⟨d, hd⟩⟩ | hset
  · cases sole_ne_nowhere (hseat.symm.trans hno)
  · exact absurd (sole_inj.mp (hseat.symm.trans hd)).2 hr
  · exact hset

theorem Disposed.linger_of_alive (hdis : Disposed v) (h : Orderly v) (hx : v.tcb = some x)
    (hs : x.status ≠ .DEAD) (hunsaved : Unsaved v) : v.linger = nowhere := by
  rcases h.alone with hnone | ⟨-, c, m, hm⟩
  · exact hnone
  · have hmem : m ∈ v.linger c := by simp [hm]
    cases m with
    | saved => exact absurd hmem (hunsaved c)
    | off => exact absurd (hdis c (.inl hmem) x hx) hs
    | closing => exact absurd (hdis c (.inr hmem) x hx) hs

theorem Stand.of_waiting_phase {status : Status} {on_cpu : Bool} {queued : Option Nat}
    {seated : Option (Nat × Seat)} (h : Stand status on_cpu .waiting queued seated) :
    status ≠ .DEAD ∧ ∀ c, seated ≠ some (c, .popped) := by
  cases h <;> simp_all

theorem Orderly.claimed (h : Orderly v) (hshape : Shape hash t v) (hdis : Disposed v)
    (hx : v.tcb = some x) (hs : x.wake_state = .PARKED ∨ x.wake_state = .REAPABLE)
    (hw : Watched v) : v.seat = nowhere ∧ v.linger = nowhere := by
  obtain ⟨holder, phase, hooked, queued, seated, hlife⟩ := hshape.of_tcb hx
  obtain rfl : phase = .waiting := by
    rcases hs with hs | hs
    · exact (hlife.fits.of_parked hs).2.1
    · exact (hlife.fits.of_reapable hs).1
  obtain ⟨halive, hpopped⟩ := hlife.stand.of_waiting_phase
  rcases h.watched x hx hw with ⟨hunsaved, hseat⟩ | ⟨-, hidle, -⟩
  · refine ⟨?_, hdis.linger_of_alive h hx halive hunsaved⟩
    rcases hseat with hno | ⟨d, hd⟩
    · exact hno
    · exact absurd (place_eq_sole.mp (hlife.seat.symm.trans hd)) (hpopped d)
  · simp [hidle] at hs

theorem Orderly.lingering {m : Linger} (h : Orderly v) (hc : v.linger c = [m]) :
    v.seat = nowhere ∧ v.linger = sole c m := by
  rcases h.alone with hno | ⟨hseat, d, m', hm⟩
  · simp [hno] at hc
  · have hmem : m ∈ v.linger c := by simp [hc]
    rw [hm, mem_sole] at hmem
    obtain ⟨rfl, rfl⟩ := hmem
    exact ⟨hseat, hm⟩

theorem Orderly.popped (h : Orderly v) (hshape : Shape hash t v) (hdis : Disposed v)
    (hx : v.tcb = some x) (hq : v.queue = sole c ()) (hc : v.seat c = []) (hunsaved : Unsaved v) :
    v.seat = nowhere ∧ v.linger = nowhere := by
  obtain ⟨holder, phase, hooked, seated, hlife⟩ := hshape.of_queue hx hq
  cases hlife.stand with
  | queued _ hs hon =>
    exact ⟨hlife.seat, hdis.linger_of_alive h hx (by simp [hs]) hunsaved⟩
  | yielding => simp [hlife.seat, place] at hc

theorem Shape.not_reaps_of_queue {st : Stage} {d : Nat} (h : Shape hash t v) (hx : v.tcb = some x)
    (hq : v.queue = sole c ()) (hst : v.hold = sole d st) : ¬ st.Reaps := by
  obtain ⟨holder, phase, hooked, seated, h⟩ := h.of_queue hx hq
  obtain rfl := place_eq_sole.mp (h.hold.symm.trans hst)
  have hfits := h.fits
  have hstand := h.stand
  cases hstand <;> cases hfits

theorem Shape.hold_of_idle {st : Stage} (h : Shape hash t v) (hx : v.tcb = some x)
    (hs : x.wake_state = .IDLE) (hst : v.hold = sole c st) : st = .released := by
  obtain ⟨holder, phase, hooked, queued, seated, h⟩ := h.of_tcb hx
  obtain rfl := place_eq_sole.mp (h.hold.symm.trans hst)
  have hfits := h.fits
  have hw : x.wait.state = .IDLE := hs
  cases hfits <;> simp_all

theorem Shape.seat_of_off (h : Shape hash t v) (hx : v.tcb = some x) (hcpu : x.on_cpu = false) :
    v.seat = nowhere ∨ ∃ d, v.seat = sole d .popped := by
  obtain ⟨holder, phase, hooked, queued, seated, h⟩ := h.of_tcb hx
  have hseat := h.seat
  have hstand := h.stand
  cases hstand <;> simp_all [place]

theorem Turn.orderly (hshape : Shape hash t v) (hdis : Disposed v) (h : Orderly v) (hκ : κ)
    (hturn : Turn hash κ t v v') : Orderly v' := by
  cases hturn with
  | stay => exact h
  | kill dead hdead =>
    refine ⟨h.gone, h.alone, fun x hx hw => ?_, h.reaped⟩
    exact (h.watched x hx hw).imp id fun hset => ⟨hdead _ hset.1, hset.2⟩
  | spawn p c completion hmade hblank =>
    exact ⟨by simp, .inl hblank.linger, fun x _ hw => by simp [Watched, hblank.watch] at hw,
      fun c st hst => by simp [hblank.gone.hold] at hst⟩
  | pop c x hx hq hc hsaved =>
    obtain ⟨hseat, hlinger⟩ := h.popped hshape hdis hx hq hc (hsaved hκ)
    refine ⟨fun hnone => by simp [hx] at hnone, .inl hlinger, fun y hy hw => ?_, fun d st hst hr => ?_⟩
    · obtain rfl := Option.some_inj.mp (hx.symm.trans hy)
      refine (h.watched x hx hw).imp (fun _ => ⟨hsaved hκ, .inr ⟨c, by simp [hseat]⟩⟩) fun hset => ?_
      exact ⟨hset.1, hset.2.1, fun d => by simp [hseat]⟩
    · exact absurd hr (hshape.not_reaps_of_queue hx hq hst)
  | cull c x hx hq hc hdead hsaved =>
    obtain ⟨hseat, hlinger⟩ := h.popped hshape hdis hx hq hc (hsaved hκ)
    refine ⟨by simp, .inr ⟨hseat, c, .off, by simp [hlinger]⟩, fun y hy hw => ?_, fun d st hst hr => ?_⟩
    · refine .inl ⟨fun d => ?_, .inl hseat⟩
      simp [hlinger, mem_sole]
    · exact absurd hr (hshape.not_reaps_of_queue hx hq hst)
  | install c x hx hseat hwatch =>
    refine h.seated hseat rfl (.inl (h.linger_of_seat hseat)) rfl rfl fun hw => ?_
    have hidle := hshape.idle_of_seat hx hseat (by simp) (by simp)
    rcases hwatch hκ with hdead | hno
    · exact .inr ⟨hdead, hidle, fun d => by simp⟩
    · obtain ⟨d, w, hmem, hne⟩ := hw
      exact absurd (hno d w hmem) hne
  | reseat c x r r' hx hseat hre =>
    refine h.seated hseat hx (.inl (h.linger_of_seat hseat)) rfl rfl fun hw => ?_
    have hr : r ≠ .popped := by cases hre <;> simp
    obtain ⟨hdead, hidle, hne⟩ := h.running hx hseat hr hw
    refine .inr ⟨hdead, hidle, fun d hd => ?_⟩
    obtain ⟨-, rfl⟩ := sole_inj.mp hd
    cases hre with
    | wait hlive => cases hlive.symm.trans hdead
  | rollback c x key hx hseat | park c x y hx hseat =>
    refine h.seated hseat rfl (.inl (h.linger_of_seat hseat)) rfl rfl fun hw => ?_
    exact absurd hseat ((h.running hx hseat (by simp) hw).2.2 c)
  | yield c x hx hseat | exit c x hx hseat | block c x hx hseat =>
    refine h.seated hseat rfl (.inl (h.linger_of_seat hseat)) rfl rfl fun hw => ?_
    obtain ⟨hdead, hidle, -⟩ := h.running hx hseat (by simp) hw
    exact .inr ⟨hdead, hidle, fun d => by simp⟩
  | switched c x hx hseat =>
    have hlinger := h.linger_of_seat hseat
    refine h.seated hseat rfl (.inr ⟨rfl, c, .saved, by simp [hlinger]⟩) rfl rfl fun hw => ?_
    obtain ⟨hdead, hidle, -⟩ := h.running hx hseat (by simp) hw
    exact .inr ⟨hdead, hidle, fun d => by simp⟩
  | prevStatus c x hx hc =>
    obtain ⟨hseat, hlinger⟩ := h.lingering hc
    refine ⟨fun hnone => by simp [hx] at hnone, ?_, fun y hy hw => ?_, fun d st hst hr => ?_⟩
    · rw [hlinger]
      split
      · exact .inr ⟨hseat, c, .off, by simp⟩
      · exact .inl (by simp)
    · obtain rfl := Option.some_inj.mp (hx.symm.trans hy)
      rcases h.watched x hx hw with ⟨hunsaved, -⟩ | hset
      · exact absurd (by simp [hc]) (hunsaved c)
      · exact .inr hset
    · cases sole_ne_nowhere (hlinger.symm.trans (h.reaped d st hst hr).2)
  | exited c x hx hc =>
    obtain ⟨hseat, hlinger⟩ := h.lingering hc
    refine ⟨fun hnone => by simp [hx] at hnone, .inr ⟨hseat, c, .closing, by simp [hlinger]⟩,
      fun y hy hw => ?_, fun d st hst hr => ?_⟩
    · refine .inl ⟨fun d => ?_, .inl hseat⟩
      simp [hlinger, mem_sole]
    · cases sole_ne_nowhere (hlinger.symm.trans (h.reaped d st hst hr).2)
  | close c x hx hc hwatch =>
    obtain ⟨hseat, hlinger⟩ := h.lingering hc
    refine ⟨fun _ => ⟨hseat, by simp [hlinger], hwatch⟩, .inl (by simp [hlinger]), by simp, ?_⟩
    exact fun d st hst hr => by cases sole_ne_nowhere (hlinger.symm.trans (h.reaped d st hst hr).2)
  | pick c x key hx hs | move c x key hx hs | time c x key hx hs =>
    refine h.keep hx rfl rfl (fun hs' => by cases hs.symm.trans hs') rfl rfl rfl rfl fun d st hst hr => ?_
    obtain ⟨-, rfl⟩ := sole_inj.mp hst
    exact hr.elim
  | unhook c key hhold =>
    obtain ⟨x, _, _, _, _, hlife⟩ := hshape.of_hold hhold
    refine h.keep hlife.tcb hlife.tcb rfl id rfl rfl rfl rfl fun d st hst hr => ?_
    obtain ⟨-, rfl⟩ := sole_inj.mp hst
    exact hr.elim
  | check c x hx hhold =>
    refine h.keep hx hx rfl id rfl rfl rfl rfl fun d st hst hr => ?_
    obtain ⟨-, rfl⟩ := sole_inj.mp hst
    exact hr.elim
  | expire c x key hx | unblock c x hx =>
    refine h.keep hx rfl rfl ?_ rfl rfl rfl rfl fun d st hst hr => ?_
    · exact id
    · obtain ⟨-, rfl⟩ := sole_inj.mp hst
      exact hr.elim
  | release c x hx hhold =>
    refine h.keep hx rfl rfl (fun _ => rfl) rfl rfl rfl rfl fun d st hst hr => ?_
    obtain ⟨-, rfl⟩ := sole_inj.mp hst
    exact hr.elim
  | relink c x key key' hx hhold | reapable c x hx hhold =>
    refine h.keep hx rfl rfl (fun hs => ?_) rfl rfl rfl rfl fun d st hst => by simp at hst
    cases hshape.hold_of_idle hx hs hhold
  | removeNode c x st st' hx hhold hst =>
    refine h.keep hx hx rfl id rfl rfl rfl rfl fun d st₁ hst₁ hr => ?_
    obtain ⟨rfl, rfl⟩ := sole_inj.mp hst₁
    rcases hst with ⟨-, rfl⟩ | ⟨rfl, -⟩
    · exact hr.elim
    · exact ⟨c, .hooked, hhold, trivial⟩
  | cancel c x st st' hx hhold hst =>
    refine h.keep hx rfl rfl ?_ rfl rfl rfl rfl fun d st₁ hst₁ hr => ?_
    · exact id
    · obtain ⟨rfl, rfl⟩ := sole_inj.mp hst₁
      rcases hst with ⟨-, rfl⟩ | ⟨rfl, -⟩
      · exact hr.elim
      · exact ⟨c, .reaped, hhold, trivial⟩
  | enqueue c d x result hx hhold =>
    exact h.keep hx hx rfl id rfl rfl rfl rfl fun d st hst => by simp at hst
  | claim c x hx hs hc hhold =>
    obtain ⟨hseat, hlinger⟩ := h.claimed hshape hdis hx (.inl hs) ⟨c, .parked, by simp [hc], by simp⟩
    exact ⟨by simp, .inl hlinger, fun y _ _ => .inl ⟨fun d => by simp [hlinger], .inl hseat⟩,
      fun d st _ _ => ⟨hseat, hlinger⟩⟩
  | doom c x hx hs hc hhold =>
    obtain ⟨hseat, hlinger⟩ := h.claimed hshape hdis hx (.inr hs) ⟨c, .blocked, by simp [hc], by simp⟩
    exact ⟨fun hnone => by simp [hx] at hnone, .inl hlinger,
      fun y _ _ => .inl ⟨fun d => by simp [hlinger], .inl hseat⟩, fun d st _ _ => ⟨hseat, hlinger⟩⟩
  | rewatch c x w hx hre =>
    refine ⟨fun hnone => by simp [hx] at hnone, h.alone, fun y hy hw => ?_, h.reaped⟩
    obtain rfl := Option.some_inj.mp (hx.symm.trans hy)
    obtain ⟨d, w', hmem, hne⟩ := hw
    by_cases hd : d = c
    · subst hd
      simp only [Function.update_self] at hmem
      generalize hold : v.watch d = l at hre
      cases hre with
      | start => exact absurd (List.mem_singleton.mp hmem) hne
      | off hcpu hquiet => exact .inl ⟨hquiet hκ, hshape.seat_of_off hx hcpu⟩
      | blocked => exact h.watched x hx ⟨d, .off, by simp [hold], by simp⟩
      | parked => exact h.watched x hx ⟨d, .blocked, by simp [hold], by simp⟩
      | again => cases hmem
    · exact h.watched x hx ⟨d, w', by simpa [hd] using hmem, hne⟩
  | free c x hx hhold hwatch =>
    obtain ⟨hseat, hlinger⟩ := h.reaped c .doomed hhold trivial
    exact ⟨fun _ => ⟨hseat, hlinger, hwatch⟩, .inl hlinger, by simp, fun d st hst => by simp at hst⟩

theorem Turn.tcb_none (hturn : Turn hash κ t v v') (hmade : v.made) (hnone : v.tcb = none) :
    v'.tcb = none := by
  cases hturn with
  | stay | kill | unhook => exact hnone
  | spawn p c completion hnew => exact absurd hmade hnew
  | _ => simp_all

end

section

variable {hash : Nat → Nat} {op : Op} {s s' : State} {t : Nat} {x : Tcb}

theorem orderly_of_run {word : Nat → UInt32} {ops : List Op}
    (hrun : Run (step hash) Careful (boot word) ops s) : ∀ t, Orderly (s.view t) := by
  have hinv : Inv hash s ∧ ∀ t, Orderly (s.view t) := by
    refine hrun.invariant (P := fun s => Inv hash s ∧ ∀ t, Orderly (s.view t))
      ⟨boot_inv word, fun t => (blank_boot word t).orderly⟩ fun s op s' h hok hstep => ?_
    have hmove := step_move hstep
    refine ⟨hmove.inv h.1, fun t => ?_⟩
    exact (hmove.turn h.1 t).orderly (h.1.ok t).shape (h.1.ok t).disposed (h.2 t) hok
  exact hinv.2

theorem Move.freed_alone (hinv : Inv hash s) (h : Orderly (s.view t)) (hmove : Move hash op s s')
    (hx : s.thread t = some x) (hnone : s'.thread t = none) (d : Nat) :
    t ∉ s.queue d ∧ (∀ r, (t, r) ∉ (s.cpu d).ctx.seats) ∧
      ∀ r, (t, r) ∈ (s.cpu d).ctx.lingers → (s.cpu d).ctx = .closing t ∧ (s'.cpu d).ctx = .loop := by
  have hseats (hseat : (s.view t).seat = nowhere) (r : Seat) : (t, r) ∉ (s.cpu d).ctx.seats := by
    intro hmem
    have hmark : r ∈ (s.view t).seat d := mem_marks.mpr hmem
    simp [hseat] at hmark
  obtain ⟨holder, phase, hooked, queued, seated, hlife⟩ := (hinv.ok t).shape.of_tcb (v := s.view t) hx
  have hq (hnone : queued = none) : t ∉ s.queue d := by
    subst hnone
    exact notMem_queue hlife.queue d
  rcases hmove.freed hinv hx hnone with ⟨c, hctx, -, hloop⟩ | ⟨c, hwork, -⟩
  · obtain ⟨hseat, hlinger⟩ := h.lingering (c := c) (m := .closing) (by simp [State.view, hctx, Ctx.lingers])
    have hdead : x.status = .DEAD :=
      (hinv.ok t).disposed c (.inr (by simp [State.view, hctx, Ctx.lingers])) x hx
    refine ⟨hq (hlife.stand.of_dead hdead).2, hseats hseat, fun r hmem => ?_⟩
    have hmark : r ∈ (s.view t).linger d := mem_marks.mpr hmem
    obtain ⟨rfl, -⟩ := mem_sole.mp (hlinger ▸ hmark)
    exact ⟨hctx, hloop⟩
  · have hhold : (s.view t).hold = sole c .doomed := hinv.hold_eq (by simp [hwork, Work.holds])
    obtain ⟨hseat, hlinger⟩ := h.reaped c .doomed hhold trivial
    obtain rfl := place_eq_sole.mp (hlife.hold.symm.trans hhold)
    cases hlife.fits with
    | doomed _ _ _ =>
      refine ⟨hq hlife.stand.of_waiting.1, hseats hseat, fun r hmem => ?_⟩
      have hmark : r ∈ (s.view t).linger d := mem_marks.mpr hmem
      simp [hlinger] at hmark

/-- Along careful runs disposal is exclusive: no step follows a stale pointer; a control
    block goes once, and when no run queue and no CPU has the thread but the one that
    closes it; and the block a thread has still to complete into is as it was reserved,
    whatever memory call comes. -/
theorem disposal_exclusive {word : Nat → UInt32} {ops : List Op}
    (hrun : Run (step hash) Careful (boot word) ops s) :
    (∀ op, exec hash s op ≠ .error .fault ∧ exec hash s op ≠ .error .assert) ∧
    (∀ op s' t, step hash s op = some s' →
      (∀ x, s.thread t = some x → s'.thread t = none → ∀ d,
        t ∉ s.queue d ∧ (∀ r, (t, r) ∉ (s.cpu d).ctx.seats) ∧
          ∀ r, (t, r) ∈ (s.cpu d).ctx.lingers →
            (s.cpu d).ctx = .closing t ∧ (s'.cpu d).ctx = .loop) ∧
      (t < s.g_next_tid → s.thread t = none → s'.thread t = none)) ∧
    (∀ b blk, s.block b = some blk → blk.thread_pins = (s.pinners b).card) ∧
    ∀ t x b, s.thread t = some x → x.completion_block = some b → ∃ blk,
      s.block b = some blk ∧ blk.Reserved x.proc ∧
        ∀ call o, MemoryCall.run call (some blk) = some o → o = some blk := by
  have hsound := (boot_sound word).of_run hrun
  have horderly := orderly_of_run hrun
  have htracked : Tracked s := fun t hnone => (horderly t).gone hnone
  refine ⟨fun op => ?_, fun op s' t hstep => ⟨fun x hx hnone => ?_, fun hlt hnone => ?_⟩,
    hsound.pins.count, fun t x b hx hb => ?_⟩
  · exact ⟨(exec_clean hsound op).fault htracked, (exec_clean hsound op).assert⟩
  · exact (step_move hstep).freed_alone hsound.inv (horderly t) hx hnone
  · exact ((step_move hstep).turn hsound.inv t).tcb_none hlt hnone
  · have hpin : s.pin t = some (b, x.proc) := by simp [pin_eq hx, hb]
    obtain ⟨blk, hblk, hres⟩ := hsound.pins.reserved t b x.proc hpin
    refine ⟨blk, hblk, hres, fun call o hcall => ?_⟩
    exact call.run_pinned hcall (hsound.pins.thread_pins_ne_zero hsound.inv hpin hblk) hres

end

def killQueued : List Op := [.memory 5 (.alloc 1), .spawn 1 0 (some (5, 8)), .kill [1]]

theorem disposal_exclusive_cull : ∃ s s',
    Run (step id) Careful (boot fun _ => 0)
      (killQueued ++ [.act 0 .popLocal, .act 0 .exited]) s ∧
    step id s (.act 0 .close) = some s' ∧ (∃ x, s.thread 1 = some x) ∧ s'.thread 1 = none ∧
    ∀ d, 1 ∉ s.queue d := by
  -- every CPU is in its idle loop when the thread is popped
  have hrun : Run (step id) Careful (boot fun _ => 0)
      (killQueued ++ [.act 0 .popLocal, .act 0 .exited]) _ :=
    .cons trivial rfl <| .cons trivial rfl <| .cons trivial rfl <| .cons nofun rfl <|
      .cons trivial rfl <| .nil _
  obtain ⟨s, hrun, ⟨x, hx⟩, s', hs', hnone⟩ : ∃ s, Run (step id) Careful (boot fun _ => 0)
      (killQueued ++ [.act 0 .popLocal, .act 0 .exited]) s ∧ (∃ x, s.thread 1 = some x) ∧
      ∃ s', step id s (.act 0 .close) = some s' ∧ s'.thread 1 = none :=
    ⟨_, hrun, ⟨_, rfl⟩, _, rfl, rfl⟩
  refine ⟨s, s', hrun, hs', ⟨x, hx⟩, hnone, fun d => ?_⟩
  exact (((disposal_exclusive hrun).2.1 (.act 0 .close) s' 1 hs').1 x hx hnone d).1

def twoThreads : List Op :=
  [.spawn 1 0 none, .spawn 1 1 none, .act 1 .popLocal, .act 1 .install, .act 1 .trap, .act 0 .popLocal,
    .act 0 .install, .act 0 .trap, .act 0 (.wait 8 0 0), .act 0 (.comparePark true true),
    .act 0 .parkBlocked, .act 0 .switched]

def wakeFrom2 (target : Nat) : List Op :=
  .act 2 (.call (.wake 8 1)) :: List.replicate 10 (.advance 2 target)

/-- Thread 2 has read that thread 1 is off its CPU; thread 1 is woken, parks again, and
    is freed before CPU 0 has switched it out. -/
def destroyRunning : List Op :=
  twoThreads ++ [.act 0 .prevStatus, .act 1 (.call (.destroy 1)), .advance 1 0] ++ wakeFrom2 0 ++
    [.act 0 .popLocal, .act 0 .install, .act 0 .trap, .act 0 (.wait 8 0 0),
      .act 0 (.comparePark true true), .act 0 .parkBlocked] ++ List.replicate 5 (.advance 1 0)

/-- CPU 0 has cleared `on_cpu`; thread 1 runs on CPU 2 and exits before CPU 0 reads its
    status, and both dispose of it. -/
def exitTwice : List Op :=
  twoThreads ++ wakeFrom2 2 ++
    [.act 2 .popLocal, .act 2 .install, .act 2 .trap, .act 2 .exit, .act 0 .prevStatus, .act 2 .switched,
      .act 2 .prevStatus, .act 0 .exited]

theorem disposal_not_exclusive :
    (∃ s s', Run (step id) (fun _ _ => True) (boot fun _ => 0) destroyRunning s ∧
      step id s (.advance 1 0) = some s' ∧ (s.thread 1).isSome ∧ s'.thread 1 = none ∧
      (s.cpu 0).ctx = .left 1 ∧ exec id s' (.act 0 .switched) = .error .fault) ∧
    ∃ s s', Run (step id) (fun _ _ => True) (boot fun _ => 0) exitTwice s ∧
      step id s (.act 0 .close) = some s' ∧ (s.thread 1).isSome ∧ s'.thread 1 = none ∧
      (s.cpu 2).ctx = .off 1 ∧ exec id s' (.act 2 .exited) = .error .fault := by
  constructor
  · obtain ⟨s, hrun, hx, hctx, hnext⟩ : ∃ s,
        Run (step id) (fun _ _ => True) (boot fun _ => 0) destroyRunning s ∧ (s.thread 1).isSome ∧
        (s.cpu 0).ctx = .left 1 ∧ (step id s (.advance 1 0)).map (fun s' =>
          ((s'.thread 1).isNone, (s'.cpu 0).ctx, (s'.cpu 0).work)) = some (true, .left 1, .idle) :=
      Run.exists_of_eval (fun _ _ _ => trivial) (by decide +kernel)
    obtain ⟨s', hs', heq⟩ := Option.map_eq_some_iff.mp hnext
    simp only [Prod.mk.injEq, Option.isNone_iff_eq_none] at heq
    obtain ⟨hnone, hctx', hwork'⟩ := heq
    refine ⟨s, s', hrun, hs', hx, hnone, hctx, ?_⟩
    simp only [exec, hwork', hctx', act, switched, hnone]
    rfl
  · obtain ⟨s, hrun, hx, hctx, hnext⟩ : ∃ s,
        Run (step id) (fun _ _ => True) (boot fun _ => 0) exitTwice s ∧ (s.thread 1).isSome ∧
        (s.cpu 2).ctx = .off 1 ∧ (step id s (.act 0 .close)).map (fun s' =>
          ((s'.thread 1).isNone, (s'.cpu 2).ctx, (s'.cpu 2).work, s'.umem)) =
            some (true, .off 1, .idle, none) :=
      Run.exists_of_eval (fun _ _ _ => trivial) (by decide +kernel)
    obtain ⟨s', hs', heq⟩ := Option.map_eq_some_iff.mp hnext
    simp only [Prod.mk.injEq, Option.isNone_iff_eq_none] at heq
    obtain ⟨hnone, hctx', hwork', humem⟩ := heq
    refine ⟨s, s', hrun, hs', hx, hnone, hctx, ?_⟩
    simp only [exec, hwork', hctx', act, processThreadExited, humem, hnone]
    rfl

end GovinDos.Thread
