/-
  **One-time initialisation (`pthread_once`).**

  The word is 0, 1 while the routine runs and 2 when it has finished.  The compare and the
  park are one step, so nobody parks after the store of the 2.  The initialising thread then
  wakes a batch at a time and stops at the first that is not full.
-/
import Mathlib
import GovinDos.Lib.Interleaving
import GovinDos.Pthread

namespace GovinDos.Pthread

open Function

/-! ## 1. The model -/

structure Once (T : Type) where
  word : Nat
  parked : List T
  /-- Not in the code: who has started `init_routine`, and how often it has returned. -/
  started : List T
  finished : Nat

def Once.init (T : Type) : Once T where
  word := 0
  parked := []
  started := []
  finished := 0

inductive OncePc where
  | idle
  | ret (rc : Rc)
  | load
  | cas
  | routine
  | store
  | wakeAll
  /-- The test of the loop, the load of `observed`, `futex_wait`, and parked in it. -/
  | loop
  | observe
  | wait (observed : Nat)
  | parked
deriving DecidableEq, Repr

section

variable {T : Type} [DecidableEq T]

def Once.wakeable (m : Once T) : Nat := min (wakeCap UINT64_MAX) m.parked.length

def Once.next (t : T) (m : Once T) : OncePc → Option (Once T × OncePc)
  | .idle | .ret _ => none
  | .load => some (m, if m.word = 2 then .ret .ok else .cas)
  | .cas =>
    if m.word = 0 then some ({ m with word := 1, started := t :: m.started }, .routine)
    else some (m, .loop)
  | .routine => some ({ m with finished := m.finished + 1 }, .store)
  | .store => some ({ m with word := 2 }, .wakeAll)
  | .wakeAll => some ({ m with parked := m.parked.drop m.wakeable },
      if m.wakeable = FUTEX_WAKE_BATCH then .wakeAll else .ret .ok)
  | .loop => some (m, if m.word = 2 then .ret .ok else .observe)
  | .observe => some (m, if m.word = 2 then .loop else .wait m.word)
  | .wait observed =>
    if m.word = observed then some ({ m with parked := m.parked ++ [t] }, .parked)
    else some (m, .loop)
  | .parked => if t ∉ m.parked then some (m, .loop) else none

inductive OnceEvent where
  | call (null : Bool)
  | go
  | noMem
deriving DecidableEq, Repr

def onceThread (t : T) (m : Once T) (pc : OncePc) : OnceEvent → Option (Once T × OncePc)
  | .call null => match pc with
    | .idle | .ret _ => some (m, if null then .ret .EINVAL else .load)
    | _ => none
  | .go => m.next t pc
  | .noMem => match pc with
    | .wait _ => some (m, .ret .EINVAL)
    | _ => none

def onceBoot (T : Type) : Threads T (Once T) OncePc where
  mem := .init T
  loc := fun _ => .idle

/-! ## 2. What a step can do -/

inductive OnceLook (t : T) (m : Once T) : OncePc → OncePc → Prop
  | call (pc : OncePc) (h : pc = .idle ∨ ∃ rc, pc = .ret rc) : OnceLook t m pc .load
  | fail (pc : OncePc) (h : pc ≠ .wakeAll) : OnceLook t m pc (.ret .EINVAL)
  | done (pc : OncePc) (hpc : pc = .load ∨ pc = .loop) (h : m.word = 2) : OnceLook t m pc (.ret .ok)
  | test (h : m.word ≠ 2) : OnceLook t m .load .cas
  | lost (h : m.word ≠ 0) : OnceLook t m .cas .loop
  | observe (h : m.word ≠ 2) : OnceLook t m .loop .observe
  | wait (h : m.word ≠ 2) : OnceLook t m .observe (.wait m.word)
  | again (pc : OncePc) (hpc : pc = .observe ∨ (∃ observed, pc = .wait observed) ∨ pc = .parked) :
      OnceLook t m pc .loop

inductive OnceMove (t : T) (m : Once T) : OncePc → Once T → OncePc → Prop
  | look {pc pc' : OncePc} (h : OnceLook t m pc pc') : OnceMove t m pc m pc'
  | start (h : m.word = 0) :
      OnceMove t m .cas { m with word := 1, started := t :: m.started } .routine
  | finish : OnceMove t m .routine { m with finished := m.finished + 1 } .store
  | store : OnceMove t m .store { m with word := 2 } .wakeAll
  | wake : OnceMove t m .wakeAll { m with parked := m.parked.drop m.wakeable }
      (if m.wakeable = FUTEX_WAKE_BATCH then .wakeAll else .ret .ok)
  | park : OnceMove t m (.wait m.word) { m with parked := m.parked ++ [t] } .parked

variable {t : T} {m m' : Once T} {pc pc' : OncePc} {loc : T → OncePc}
  {s s' : Threads T (Once T) OncePc}

theorem Once.next_move (h : m.next t pc = some (m', pc')) : OnceMove t m pc m' pc' := by
  cases pc with
  | idle | ret => cases h
  | load =>
    cases h
    apply OnceMove.look
    split
    · exact .done _ (.inl rfl) ‹_›
    · exact .test ‹_›
  | cas =>
    simp only [Once.next] at h
    split at h <;> cases h
    · exact .start ‹_›
    · exact .look (.lost ‹_›)
  | routine =>
    cases h
    exact .finish
  | store =>
    cases h
    exact .store
  | wakeAll =>
    cases h
    exact .wake
  | loop =>
    cases h
    apply OnceMove.look
    split
    · exact .done _ (.inr rfl) ‹_›
    · exact .observe ‹_›
  | observe =>
    cases h
    apply OnceMove.look
    split
    · exact .again _ (.inl rfl)
    · exact .wait ‹_›
  | wait observed =>
    simp only [Once.next] at h
    split at h
    · rename_i hsame
      subst hsame
      cases h
      exact .park
    · cases h
      exact .look (.again _ (.inr (.inl ⟨observed, rfl⟩)))
  | parked =>
    simp only [Once.next] at h
    split at h <;> cases h
    exact .look (.again _ (.inr (.inr rfl)))

theorem onceStep_move {o : T × OnceEvent} (h : Threads.step onceThread s o = some s') :
    ∃ m pc, OnceMove o.1 s.mem (s.loc o.1) m pc ∧ s' = ⟨m, update s.loc o.1 pc⟩ := by
  obtain ⟨t, e⟩ := o
  obtain ⟨m, pc, hnext, rfl⟩ := Threads.step_eq_some h
  refine ⟨m, pc, ?_, rfl⟩
  generalize s.loc t = pc₀ at hnext
  cases e with
  | call null =>
    simp only [onceThread] at hnext
    split at hnext <;> cases hnext
    all_goals
      apply OnceMove.look
      split
      · exact .fail _ (by simp)
      · exact .call _ (by simp)
  | go => exact Once.next_move hnext
  | noMem =>
    simp only [onceThread] at hnext
    split at hnext <;> cases hnext
    exact .look (.fail _ (by simp))

/-! ## 3. The invariant -/

inductive OnceWord (m : Once T) : Prop
  | fresh (hword : m.word = 0) (hstarted : m.started = []) (hfinished : m.finished = 0)
  | begun (t : T) (hword : m.word = 1) (hstarted : m.started = [t]) (hfinished : m.finished ≤ 1)
  | done (t : T) (hword : m.word = 2) (hstarted : m.started = [t]) (hfinished : m.finished = 1)

def OnceFits (t : T) (m : Once T) : OncePc → Prop
  | .routine => m.word = 1 ∧ m.started = [t] ∧ m.finished = 0
  | .store => m.word = 1 ∧ m.started = [t] ∧ m.finished = 1
  | .wakeAll => m.word = 2 ∧ m.started = [t]
  | .ret .ok => m.word = 2
  | .loop | .observe | .parked => m.word ≠ 0
  | .wait observed => m.word ≠ 0 ∧ observed ≠ 2
  | _ => True

omit [DecidableEq T] in
theorem OnceWord.started_of_ne (h : OnceWord m) (hne : m.word ≠ 0) : ∃ t, m.started = [t] := by
  cases h with
  | fresh hword => exact absurd hword hne
  | begun t _ hstarted | done t _ hstarted => exact ⟨t, hstarted⟩

omit [DecidableEq T] in
theorem OnceMove.word (h : OnceWord m) (hfits : OnceFits t m pc) (hmove : OnceMove t m pc m' pc') :
    OnceWord m' := by
  cases hmove with
  | look => exact h
  | start hzero =>
    cases h with
    | fresh _ hstarted hfinished =>
      refine .begun t rfl ?_ ?_
      · simp [hstarted]
      · simp [hfinished]
    | begun _ hword | done _ hword => omega
  | finish =>
    obtain ⟨hword, hstarted, hfinished⟩ := hfits
    refine .begun t hword hstarted ?_
    simp [hfinished]
  | store =>
    obtain ⟨-, hstarted, hfinished⟩ := hfits
    exact .done t rfl hstarted hfinished
  | wake | park => cases h with
    | fresh hword hstarted hfinished => exact .fresh hword hstarted hfinished
    | begun u hword hstarted hfinished => exact .begun u hword hstarted hfinished
    | done u hword hstarted hfinished => exact .done u hword hstarted hfinished

omit [DecidableEq T] in
theorem OnceMove.fits (h : OnceWord m) (hfits : OnceFits t m pc) (hmove : OnceMove t m pc m' pc') :
    OnceFits t m' pc' := by
  cases hmove with
  | look hlook => cases hlook with
    | call | fail | test => trivial
    | done _ _ hword => exact hword
    | lost hne => exact hne
    | observe => exact hfits
    | wait hne => exact ⟨hfits, hne⟩
    | again _ hpc =>
      rcases hpc with rfl | ⟨observed, rfl⟩ | rfl
      · exact hfits
      · exact hfits.1
      · exact hfits
  | start hzero =>
    cases h with
    | fresh _ hstarted hfinished => exact ⟨rfl, by simp [hstarted], hfinished⟩
    | begun _ hword | done _ hword => omega
  | finish =>
    obtain ⟨hword, hstarted, hfinished⟩ := hfits
    exact ⟨hword, hstarted, by simp [hfinished]⟩
  | store => exact ⟨rfl, hfits.2.1⟩
  | wake =>
    split
    · exact hfits
    · exact hfits.1
  | park => exact hfits.1

omit [DecidableEq T] in
theorem OnceFits.mono (h : OnceFits t m pc) (hnot : m.started ≠ [t])
    (hne : m.word ≠ 0 → m'.word ≠ 0) (hdone : m.word = 2 → m'.word = 2) : OnceFits t m' pc := by
  cases pc with
  | routine | store => exact absurd h.2.1 hnot
  | wakeAll => exact absurd h.2 hnot
  | ret rc => cases rc with
    | ok => exact hdone h
    | _ => trivial
  | loop | observe | parked => exact hne h
  | wait => exact ⟨hne h.1, h.2⟩
  | _ => trivial

omit [DecidableEq T] in
theorem OnceMove.fits_other {u : T} {pc₀ : OncePc} (hu : u ≠ t) (hword : OnceWord m)
    (hfits : OnceFits t m pc) (h : OnceFits u m pc₀) (hmove : OnceMove t m pc m' pc') :
    OnceFits u m' pc₀ := by
  have hother : m.started = [t] → m.started ≠ [u] := by
    intro ht heq
    exact hu (List.singleton_inj.mp (heq.symm.trans ht))
  cases hmove with
  | look | wake | park => exact h
  | start hzero =>
    refine h.mono ?_ (fun _ => one_ne_zero) fun hdone => ?_
    · cases hword with
      | fresh _ hstarted => simp [hstarted]
      | begun _ hword | done _ hword => omega
    · omega
  | finish => exact h.mono (hother hfits.2.1) id id
  | store => exact h.mono (hother hfits.2.1) (fun _ => two_ne_zero) fun _ => rfl

structure OnceInv (s : Threads T (Once T) OncePc) : Prop where
  word : OnceWord s.mem
  fits : ∀ t, OnceFits t s.mem (s.loc t)
  waker : s.mem.word = 2 → s.mem.parked ≠ [] → ∃ u, s.loc u = .wakeAll

theorem OnceMove.waker (h : OnceInv ⟨m, loc⟩) (hmove : OnceMove t m (loc t) m' pc')
    (hdone : m'.word = 2) (hne : m'.parked ≠ []) : ∃ u, update loc t pc' u = .wakeAll := by
  have hfits : OnceFits t m (loc t) := h.fits t
  generalize hpc : loc t = pc at hmove hfits
  cases hmove with
  | look hlook =>
    obtain ⟨u, hu⟩ : ∃ u, loc u = .wakeAll := h.waker hdone hne
    refine ⟨u, ?_⟩
    have hut : u ≠ t := by
      rintro rfl
      have hu : loc u = .wakeAll := hu
      rw [← hpc, hu] at hlook
      cases hlook with
      | call _ hidle => simp at hidle
      | fail _ hloop => exact hloop rfl
      | done _ hload => simp at hload
      | again _ hwait => simp at hwait
    rwa [update_of_ne hut]
  | start => cases hdone
  | finish =>
    -- the word is still 1
    have hword : m.word = 2 := hdone
    rw [hfits.1] at hword
    cases hword
  | store => exact ⟨t, update_self ..⟩
  | wake =>
    by_cases hfull : m.wakeable = FUTEX_WAKE_BATCH
    · refine ⟨t, ?_⟩
      rw [update_self, if_pos hfull]
    · exact absurd (drop_min hfull) hne
  | park => exact absurd hdone hfits.2

theorem OnceInv.step {o : T × OnceEvent} (h : OnceInv s)
    (hstep : Threads.step onceThread s o = some s') : OnceInv s' := by
  obtain ⟨m, pc, hmove, rfl⟩ := onceStep_move hstep
  constructor
  · exact hmove.word h.word (h.fits _)
  · refine Threads.forall_update (P := fun t pc => OnceFits t m pc) ?_ fun u hu => ?_
    · exact hmove.fits h.word (h.fits _)
    · exact hmove.fits_other hu h.word (h.fits _) (h.fits u)
  · exact hmove.waker h

theorem onceInv_of_run {ok : Threads T (Once T) OncePc → T × OnceEvent → Prop}
    {os : List (T × OnceEvent)} (hrun : Run (Threads.step onceThread) ok (onceBoot T) os s) :
    OnceInv s := by
  refine hrun.invariant (P := OnceInv) ⟨.fresh rfl rfl rfl, fun _ => trivial, ?_⟩ ?_
  · intro hdone
    cases hdone
  · intro s₁ o s₂ h _ hstep
    exact h.step hstep

/-! ## 4. One start, and nobody left behind -/

def OncePc.early (pc : OncePc) : Prop := pc = .load ∨ pc = .cas

def OncePc.late (pc : OncePc) : Prop :=
  pc ≠ .idle ∧ pc ≠ .load ∧ pc ≠ .cas ∧ ∀ rc, pc = .ret rc → rc = .ok

omit [DecidableEq T] in
theorem OnceInv.started_of_late (h : OnceInv s) (hlate : (s.loc t).late) :
    ∃ u, s.mem.started = [u] := by
  refine h.word.started_of_ne ?_
  have hfits := h.fits t
  obtain ⟨hidle, hload, hcas, hret⟩ := hlate
  generalize s.loc t = pc at *
  cases pc with
  | idle => exact absurd rfl hidle
  | load => exact absurd rfl hload
  | cas => exact absurd rfl hcas
  | ret rc =>
    obtain rfl := hret rc rfl
    exact ne_of_eq_of_ne hfits two_ne_zero
  | routine | store => exact ne_of_eq_of_ne hfits.1 one_ne_zero
  | wakeAll => exact ne_of_eq_of_ne hfits.1 two_ne_zero
  | loop | observe | parked => exact hfits
  | wait => exact hfits.1

theorem step_cas (hzero : s.mem.word = 0) (hnone : s.mem.started = []) (hpc : s.loc t = .cas) :
    ∃ s', Threads.step onceThread s (t, .go) = some s' ∧ s'.mem.started = [t] := by
  refine ⟨⟨{ s.mem with word := 1, started := [t] }, update s.loc t .routine⟩, ?_, rfl⟩
  simp [Threads.step, onceThread, Once.next, hpc, hzero, hnone]

theorem OnceInv.starts (h : OnceInv s) (hnone : s.mem.started = []) (hearly : (s.loc t).early) :
    ∃ os s', (∀ o ∈ os, o = (t, .go)) ∧
      Run (Threads.step onceThread) (fun _ _ => True) s os s' ∧ s'.mem.started = [t] := by
  have hzero : s.mem.word = 0 := by
    by_contra hne
    obtain ⟨u, hu⟩ := h.word.started_of_ne hne
    simp [hnone] at hu
  rcases hearly with hpc | hpc
  · have hload : Threads.step onceThread s (t, .go) = some ⟨s.mem, update s.loc t .cas⟩ := by
      simp [Threads.step, onceThread, Once.next, hpc, hzero]
    obtain ⟨s', hstep, hs'⟩ := step_cas (s := ⟨s.mem, update s.loc t .cas⟩) hzero hnone
      (update_self ..)
    refine ⟨[(t, .go), (t, .go)], s', by simp, ?_, hs'⟩
    exact .cons trivial hload (.single trivial hstep)
  · obtain ⟨s', hstep, hs'⟩ := step_cas hzero hnone hpc
    exact ⟨[(t, .go)], s', by simp, .single trivial hstep, hs'⟩

/-- **The routine is started once, nobody is told of success before it has returned, and
    nobody stays parked.**  It has been started where a call is past its exchange or has
    returned success, and where it has not, each call starts it with its own next accesses;
    when the word is 2, the thread that started it is in its wake loop as long as somebody
    is parked. -/
theorem once_starts_and_releases {os : List (T × OnceEvent)}
    (hrun : Run (Threads.step onceThread) (fun _ _ => True) (onceBoot T) os s) :
    s.mem.started.length ≤ 1 ∧
    (∀ t, (s.loc t).late → s.mem.started.length = 1) ∧
    (∀ t, (s.loc t).early → s.mem.started.length = 1 ∨ ∃ os s', (∀ o ∈ os, o = (t, .go)) ∧
      Run (Threads.step onceThread) (fun _ _ => True) s os s' ∧ s'.mem.started = [t]) ∧
    (∀ t, s.loc t = .ret .ok → s.mem.finished = 1) ∧
    (s.mem.word = 2 → s.mem.parked ≠ [] → ∃ u, s.mem.started = [u] ∧ s.loc u = .wakeAll) := by
  have h := onceInv_of_run hrun
  refine ⟨?_, ?_, ?_, ?_, ?_⟩
  · cases h.word with
    | fresh _ hstarted | begun _ _ hstarted | done _ _ hstarted => simp [hstarted]
  · intro t hlate
    obtain ⟨u, hu⟩ := h.started_of_late hlate
    simp [hu]
  · intro t hearly
    by_cases hzero : s.mem.word = 0
    · cases h.word with
      | fresh _ hstarted => exact .inr (h.starts hstarted hearly)
      | begun _ hword | done _ hword => omega
    · obtain ⟨u, hu⟩ := h.word.started_of_ne hzero
      exact .inl (by simp [hu])
  · intro t hret
    have hdone : s.mem.word = 2 := by simpa [hret, OnceFits] using h.fits t
    cases h.word with
    | fresh hword | begun _ hword => omega
    | done _ _ _ hfinished => exact hfinished
  · intro hdone hne
    obtain ⟨u, hu⟩ := h.waker hdone hne
    have hfits := h.fits u
    rw [hu] at hfits
    exact ⟨u, hfits.2, hu⟩

end

theorem once_starts_and_releases_two : ∃ s,
    Run (Threads.step onceThread) (fun _ _ => True) (onceBoot (Fin 2))
      [(0, .call false), (0, .go), (0, .go), (1, .call false), (1, .go), (1, .go), (1, .go),
        (1, .go), (1, .go), (0, .go), (0, .go)] s ∧
    s.mem.word = 2 ∧ s.mem.parked = [1] ∧ s.mem.started.length ≤ 1 ∧
    ∃ u, s.mem.started = [u] ∧ s.loc u = .wakeAll := by
  refine Run.exists_imp (P := fun s => s.mem.word = 2 ∧ s.mem.parked = [1])
    (Run.exists_of_eval (fun _ _ _ => trivial) (by decide)) fun s hrun hs => ?_
  obtain ⟨hstarts, -, -, -, hwakes⟩ := once_starts_and_releases hrun
  exact ⟨hs.1, hs.2, hstarts, hwakes hs.1 (by simp [hs.2])⟩

end GovinDos.Pthread
