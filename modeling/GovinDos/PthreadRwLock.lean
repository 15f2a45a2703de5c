/-
  **Read-write locks (`pthread_rwlock_tryrdlock` .. `pthread_rwlock_unlock`).**

  The word counts the readers, or is -1 under a writer.  A thread whose try failed loads the
  word once more and parks on what it finds there, which may be 0: the holder has unlocked,
  and woken whoever was parked, between the try and the load.  Such a thread is parked on a
  free lock and nobody has to wake it.
-/
import Mathlib
import GovinDos.Lib.Interleaving
import GovinDos.Pthread

namespace GovinDos.Pthread

open Function

/-! ## 1. The model -/

def INT32_MAX : Int := 2 ^ 31 - 1

theorem zero_le_INT32_MAX : 0 ≤ INT32_MAX := by decide

structure RwLock (T : Type) where
  state : Int
  parked : List T
  /-- Not in the code: the read locks and the write locks that are held, each by the
      thread that took it. -/
  readers : List T
  writers : List T

def RwLock.init (T : Type) : RwLock T where
  state := 0
  parked := []
  readers := []
  writers := []

inductive Mode where
  | read
  | write
deriving DecidableEq, Repr

inductive RwCaller where
  | trylock
  | lock
deriving DecidableEq, Repr

inductive RwPc where
  | ret (rc : Rc)
  /-- `pthread_rwlock_tryrdlock`: the load, and the exchange that counts a reader. -/
  | tryrdlock (k : RwCaller)
  | rdCas (k : RwCaller) (state : Int)
  | trywrlock (k : RwCaller)
  /-- `pthread_rwlock_rdlock` and `wrlock` after a try that failed: the load of the
      value to park on, `futex_wait`, and parked in it. -/
  | observe (mode : Mode)
  | wait (mode : Mode) (observed : Int)
  | parked (mode : Mode)
  /-- `pthread_rwlock_unlock`: the load, the store or the subtraction, and
      `futex_wake_all`. -/
  | unlock
  | unlockStore
  | unlockSub
  | wakeAll
deriving DecidableEq, Repr

def RwCaller.busy (mode : Mode) : RwCaller → RwPc
  | .trylock => .ret .EBUSY
  | .lock => .observe mode

def Mode.retry : Mode → RwPc
  | .read => .tryrdlock .lock
  | .write => .trywrlock .lock

/-- What `pthread_rwlock_tryrdlock` makes of a value of the word. -/
def rdTest (k : RwCaller) (state : Int) : RwPc :=
  if state < 0 ∨ state = INT32_MAX then k.busy .read else .rdCas k state

section

variable {T : Type} [DecidableEq T]

def RwLock.wakeable (m : RwLock T) : Nat := min (wakeCap UINT64_MAX) m.parked.length

/-- The next access of a thread; `weak` says whether a weak exchange fails for no
    reason. -/
def RwLock.next (t : T) (m : RwLock T) (weak : Bool) : RwPc → Option (RwLock T × RwPc)
  | .ret _ => none
  | .tryrdlock k => some (m, rdTest k m.state)
  | .rdCas k state =>
    if m.state = state ∧ weak = false then
      some ({ m with state := state + 1, readers := t :: m.readers }, .ret .ok)
    else some (m, rdTest k m.state)
  | .trywrlock k =>
    if m.state = 0 then some ({ m with state := -1, writers := t :: m.writers }, .ret .ok)
    else some (m, k.busy .write)
  | .observe mode => some (m, .wait mode m.state)
  | .wait mode observed =>
    if m.state = observed then some ({ m with parked := m.parked ++ [t] }, .parked mode)
    else some (m, mode.retry)
  | .parked mode => if t ∉ m.parked then some (m, mode.retry) else none
  | .unlock =>
    some (m, if m.state = -1 then .unlockStore else if m.state ≤ 0 then .ret .EPERM else .unlockSub)
  | .unlockStore => some ({ m with state := 0, writers := m.writers.erase t }, .wakeAll)
  | .unlockSub =>
    some ({ m with state := (m.state - 1).bmod (2 ^ 32), readers := m.readers.erase t }, .wakeAll)
  | .wakeAll => some ({ m with parked := m.parked.drop m.wakeable },
      if m.wakeable = FUTEX_WAKE_BATCH then .wakeAll else .ret .ok)

inductive RwCall where
  | rdlock
  | tryrdlock
  | wrlock
  | trywrlock
  | unlock
deriving DecidableEq, Repr

def RwCall.enter : RwCall → RwPc
  | .rdlock => .tryrdlock .lock
  | .tryrdlock => .tryrdlock .trylock
  | .wrlock => .trywrlock .lock
  | .trywrlock => .trywrlock .trylock
  | .unlock => .unlock

inductive RwEvent where
  | call (c : RwCall)
  | go
  | weak
deriving DecidableEq, Repr

def rwThread (t : T) (m : RwLock T) (pc : RwPc) : RwEvent → Option (RwLock T × RwPc)
  | .call c => match pc with
    | .ret _ => some (m, c.enter)
    | _ => none
  | .go => m.next t false pc
  | .weak => m.next t true pc

def rwBoot (T : Type) : Threads T (RwLock T) RwPc where
  mem := .init T
  loc := fun _ => .ret .ok

/-! ## 2. What a step can do -/

inductive RwLook (t : T) (m : RwLock T) : RwPc → RwPc → Prop
  | test (k : RwCaller) : RwLook t m (.tryrdlock k) (rdTest k m.state)
  | lost (k : RwCaller) (state : Int) : RwLook t m (.rdCas k state) (rdTest k m.state)
  | busy (k : RwCaller) : RwLook t m (.trywrlock k) (k.busy .write)
  | observe (mode : Mode) : RwLook t m (.observe mode) (.wait mode m.state)
  | again (mode : Mode) (observed : Int) : RwLook t m (.wait mode observed) mode.retry
  | released (mode : Mode) (h : t ∉ m.parked) : RwLook t m (.parked mode) mode.retry
  | unlockWriter (h : m.state = -1) : RwLook t m .unlock .unlockStore
  | unlockFree : RwLook t m .unlock (.ret .EPERM)
  | unlockReader (h : 0 < m.state) : RwLook t m .unlock .unlockSub

inductive RwMove (t : T) (m : RwLock T) : RwPc → RwLock T → RwPc → Prop
  | look {pc pc' : RwPc} (h : RwLook t m pc pc') : RwMove t m pc m pc'
  | read (k : RwCaller) :
      RwMove t m (.rdCas k m.state) { m with state := m.state + 1, readers := t :: m.readers } (.ret .ok)
  | write (k : RwCaller) (h : m.state = 0) :
      RwMove t m (.trywrlock k) { m with state := -1, writers := t :: m.writers } (.ret .ok)
  | park (mode : Mode) :
      RwMove t m (.wait mode m.state) { m with parked := m.parked ++ [t] } (.parked mode)
  | store : RwMove t m .unlockStore { m with state := 0, writers := m.writers.erase t } .wakeAll
  | sub : RwMove t m .unlockSub
      { m with state := (m.state - 1).bmod (2 ^ 32), readers := m.readers.erase t } .wakeAll
  | wake : RwMove t m .wakeAll { m with parked := m.parked.drop m.wakeable }
      (if m.wakeable = FUTEX_WAKE_BATCH then .wakeAll else .ret .ok)

variable {t : T} {m m' : RwLock T} {pc pc' : RwPc} {loc : T → RwPc} {s s' : Threads T (RwLock T) RwPc}

theorem RwLock.next_move {weak : Bool} (h : m.next t weak pc = some (m', pc')) :
    RwMove t m pc m' pc' := by
  cases pc with
  | ret rc => cases h
  | tryrdlock k =>
    cases h
    exact .look (.test k)
  | rdCas k state =>
    simp only [RwLock.next] at h
    split at h
    · rename_i hsame
      obtain ⟨rfl, -⟩ := hsame
      cases h
      exact .read k
    · cases h
      exact .look (.lost k state)
  | trywrlock k =>
    simp only [RwLock.next] at h
    split at h <;> cases h
    · exact .write k ‹_›
    · exact .look (.busy k)
  | observe mode =>
    cases h
    exact .look (.observe mode)
  | wait mode observed =>
    simp only [RwLock.next] at h
    split at h
    · rename_i hsame
      subst hsame
      cases h
      exact .park mode
    · cases h
      exact .look (.again mode observed)
  | parked mode =>
    simp only [RwLock.next] at h
    split at h <;> cases h
    exact .look (.released mode ‹_›)
  | unlock =>
    cases h
    apply RwMove.look
    split
    · exact .unlockWriter ‹_›
    · split
      · exact .unlockFree
      · exact .unlockReader (Int.not_le.mp ‹_›)
  | unlockStore =>
    cases h
    exact .store
  | unlockSub =>
    cases h
    exact .sub
  | wakeAll =>
    cases h
    exact .wake

theorem rwStep_cases {o : T × RwEvent} (h : Threads.step rwThread s o = some s') :
    (∃ c rc, o.2 = .call c ∧ s.loc o.1 = .ret rc ∧
      s' = ⟨s.mem, update s.loc o.1 c.enter⟩) ∨
    ∃ m pc, RwMove o.1 s.mem (s.loc o.1) m pc ∧ s' = ⟨m, update s.loc o.1 pc⟩ := by
  obtain ⟨t, e⟩ := o
  obtain ⟨m, pc, hnext, rfl⟩ := Threads.step_eq_some h
  cases e with
  | call c =>
    simp only [rwThread] at hnext
    split at hnext <;> cases hnext
    exact .inl ⟨c, _, rfl, ‹_›, rfl⟩
  | go | weak => exact .inr ⟨m, pc, RwLock.next_move hnext, rfl⟩

/-! ## 3. Exclusion -/

inductive RwWord (m : RwLock T) : Prop
  | writer (t : T) (hstate : m.state = -1) (hreaders : m.readers = []) (hwriters : m.writers = [t])
  | readers (hstate : m.state = m.readers.length) (hmax : m.state ≤ INT32_MAX)
      (hwriters : m.writers = [])

def RwFits (t : T) (m : RwLock T) : RwPc → Prop
  | .rdCas _ state => 0 ≤ state ∧ state < INT32_MAX
  | .unlock => t ∈ m.readers ∨ t ∈ m.writers
  | .unlockStore => t ∈ m.writers
  | .unlockSub => t ∈ m.readers
  | _ => True

omit [DecidableEq T] in
theorem rwFits_busy (k : RwCaller) (mode : Mode) : RwFits t m (k.busy mode) := by
  cases k <;> trivial

omit [DecidableEq T] in
theorem rwFits_retry (mode : Mode) : RwFits t m mode.retry := by
  cases mode <;> trivial

omit [DecidableEq T] in
theorem rwFits_rdTest (k : RwCaller) (hword : RwWord m) : RwFits t m (rdTest k m.state) := by
  unfold rdTest
  split
  · exact rwFits_busy k .read
  · rename_i hno
    have hle : m.state ≤ INT32_MAX := by
      cases hword with
      | writer t hstate => rw [hstate]; decide
      | readers hstate hmax => exact hmax
    change 0 ≤ m.state ∧ m.state < INT32_MAX
    omega

omit [DecidableEq T] in
theorem RwFits.mono (h : RwFits t m pc) (hreaders : t ∈ m.readers → t ∈ m'.readers)
    (hwriters : t ∈ m.writers → t ∈ m'.writers) : RwFits t m' pc := by
  cases pc with
  | rdCas => exact h
  | unlock => exact h.imp hreaders hwriters
  | unlockStore => exact hwriters h
  | unlockSub => exact hreaders h
  | _ => trivial

omit [DecidableEq T] in
theorem RwLook.fits (hword : RwWord m) (h : RwFits t m pc) (hlook : RwLook t m pc pc') :
    RwFits t m pc' := by
  cases hlook with
  | test k | lost k => exact rwFits_rdTest k hword
  | busy k => exact rwFits_busy k .write
  | observe => trivial
  | again mode | released mode => exact rwFits_retry mode
  | unlockWriter hstate =>
    cases hword with
    | writer u _ hreaders => exact h.resolve_left (by simp [hreaders])
    | readers hlen => omega
  | unlockFree => trivial
  | unlockReader hstate =>
    cases hword with
    | writer u hone => omega
    | readers _ _ hwriters => exact h.resolve_right (by simp [hwriters])

theorem RwMove.word (hword : RwWord m) (h : RwFits t m pc) (hmove : RwMove t m pc m' pc') :
    RwWord m' := by
  cases hmove with
  | look => exact hword
  | read k =>
    obtain ⟨hpos, hlt⟩ := h
    cases hword with
    | writer u hstate => omega
    | readers hstate hmax hwriters =>
      refine .readers ?_ ?_ hwriters
      · simp [hstate]
      · change m.state + 1 ≤ INT32_MAX
        omega
  | write k hfree =>
    cases hword with
    | writer u hstate => omega
    | readers hstate hmax hwriters =>
      have hnone : m.readers = [] := List.length_eq_zero_iff.mp (by omega)
      refine .writer t rfl hnone ?_
      simp [hwriters]
  | park | wake => cases hword with
    | writer u hstate hreaders hwriters => exact .writer u hstate hreaders hwriters
    | readers hstate hmax hwriters => exact .readers hstate hmax hwriters
  | store =>
    have hin : t ∈ m.writers := h
    cases hword with
    | writer u hstate hreaders hwriters =>
      obtain rfl : t = u := by simpa [hwriters] using hin
      refine .readers ?_ zero_le_INT32_MAX ?_
      · simp [hreaders]
      · simp [hwriters]
    | readers _ _ hwriters => simp [hwriters] at hin
  | sub =>
    have hin : t ∈ m.readers := h
    cases hword with
    | writer u hstate hreaders => simp [hreaders] at hin
    | readers hstate hmax hwriters =>
      have hlen := List.length_pos_of_mem hin
      have herase : (m.readers.erase t).length = m.readers.length - 1 := List.length_erase_of_mem hin
      have hmod : (m.state - 1).bmod (2 ^ 32) = m.state - 1 := by
        unfold INT32_MAX at hmax
        exact Int.bmod_eq_of_le_mul_two (by omega) (by omega)
      refine .readers ?_ ?_ hwriters
      · change (m.state - 1).bmod (2 ^ 32) = (m.readers.erase t).length
        omega
      · change (m.state - 1).bmod (2 ^ 32) ≤ INT32_MAX
        omega

theorem RwMove.fits (hword : RwWord m) (h : RwFits t m pc) (hmove : RwMove t m pc m' pc') :
    RwFits t m' pc' := by
  cases hmove with
  | look hlook => exact hlook.fits hword h
  | wake => split <;> trivial
  | _ => trivial

theorem RwMove.fits_other {u : T} {pc₀ : RwPc} (hu : u ≠ t) (h : RwFits u m pc₀)
    (hmove : RwMove t m pc m' pc') : RwFits u m' pc₀ := by
  cases hmove with
  | look => exact h
  | read => exact h.mono (List.mem_cons_of_mem t) id
  | write => exact h.mono id (List.mem_cons_of_mem t)
  | park | wake => exact h.mono id id
  | store => exact h.mono id (List.mem_erase_of_ne hu).mpr
  | sub => exact h.mono (List.mem_erase_of_ne hu).mpr id

def RwCorrect (s : Threads T (RwLock T) RwPc) (o : T × RwEvent) : Prop :=
  o.2 = .call .unlock → o.1 ∈ s.mem.readers ∨ o.1 ∈ s.mem.writers

instance (s : Threads T (RwLock T) RwPc) (o : T × RwEvent) : Decidable (RwCorrect s o) :=
  inferInstanceAs (Decidable (o.2 = .call .unlock → o.1 ∈ s.mem.readers ∨ o.1 ∈ s.mem.writers))

structure RwInv (s : Threads T (RwLock T) RwPc) : Prop where
  word : RwWord s.mem
  fits : ∀ t, RwFits t s.mem (s.loc t)

omit [DecidableEq T] in
theorem rwBoot_inv : RwInv (rwBoot T) where
  word := .readers rfl zero_le_INT32_MAX rfl
  fits := fun _ => trivial

theorem RwInv.step {o : T × RwEvent} (h : RwInv s) (hcorrect : RwCorrect s o)
    (hstep : Threads.step rwThread s o = some s') : RwInv s' := by
  rcases rwStep_cases hstep with ⟨c, rc, hcall, -, rfl⟩ | ⟨m, pc, hmove, rfl⟩
  · constructor
    · exact h.word
    · refine Threads.forall_update (P := fun t pc => RwFits t s.mem pc) ?_ fun u _ => h.fits u
      cases c with
      | unlock => exact hcorrect hcall
      | _ => trivial
  · constructor
    · exact hmove.word h.word (h.fits _)
    · refine Threads.forall_update (P := fun t pc => RwFits t m pc) ?_ fun u hu => ?_
      · exact hmove.fits h.word (h.fits _)
      · exact hmove.fits_other hu (h.fits u)

theorem rwInv_of_run {os : List (T × RwEvent)}
    (hrun : Run (Threads.step rwThread) RwCorrect (rwBoot T) os s) : RwInv s :=
  hrun.invariant (P := RwInv) rwBoot_inv fun _ _ _ h hok hstep => h.step hok hstep

/-! ## 4. Nobody is left parked -/

def RwPc.observing : RwPc → Bool
  | .observe _ => true
  | _ => false

def FindsTaken (s : Threads T (RwLock T) RwPc) (o : T × RwEvent) : Prop :=
  (s.loc o.1).observing = true → s.mem.state ≠ 0

instance (s : Threads T (RwLock T) RwPc) (o : T × RwEvent) : Decidable (FindsTaken s o) :=
  inferInstanceAs (Decidable ((s.loc o.1).observing = true → s.mem.state ≠ 0))

structure RwAwake (s : Threads T (RwLock T) RwPc) : Prop where
  observed : ∀ t mode, s.loc t ≠ .wait mode 0
  waker : s.mem.state = 0 → s.mem.parked ≠ [] → ∃ u, s.loc u = .wakeAll

theorem rdTest_ne_wait (k : RwCaller) (state : Int) (mode : Mode) : rdTest k state ≠ .wait mode 0 := by
  unfold rdTest
  split
  · cases k <;> exact nofun
  · exact nofun

theorem RwMove.observed (hmove : RwMove t m pc m' pc')
    (hfinds : pc.observing = true → m.state ≠ 0) (mode : Mode) : pc' ≠ .wait mode 0 := by
  cases hmove with
  | look hlook => cases hlook with
    | test k | lost k => exact rdTest_ne_wait k _ mode
    | busy k => cases k <;> exact nofun
    | observe mode' =>
      intro hwait
      injection hwait with _ hzero
      exact hfinds rfl hzero
    | again mode' | released mode' => cases mode' <;> exact nofun
    | unlockWriter | unlockFree | unlockReader => exact nofun
  | wake => split <;> exact nofun
  | read | write | park | store | sub => exact nofun

theorem RwMove.waker (h : RwAwake ⟨m, loc⟩) (hfits : RwFits t m (loc t))
    (hmove : RwMove t m (loc t) m' pc') (hfree : m'.state = 0) (hne : m'.parked ≠ []) :
    ∃ u, update loc t pc' u = .wakeAll := by
  generalize hpc : loc t = pc at hmove hfits
  cases hmove with
  | look hlook =>
    obtain ⟨u, hu⟩ : ∃ u, loc u = .wakeAll := h.waker hfree hne
    refine ⟨u, ?_⟩
    have hut : u ≠ t := by
      rintro rfl
      have hu : loc u = .wakeAll := hu
      rw [← hpc, hu] at hlook
      cases hlook
    rwa [update_of_ne hut]
  | read k =>
    obtain ⟨hpos, -⟩ := hfits
    have hzero : m.state + 1 = 0 := hfree
    omega
  | write => cases hfree
  | park mode =>
    have hzero : m.state = 0 := hfree
    rw [hzero] at hpc
    exact absurd hpc (h.observed t mode)
  | store | sub => exact ⟨t, update_self ..⟩
  | wake =>
    by_cases hfull : m.wakeable = FUTEX_WAKE_BATCH
    · refine ⟨t, ?_⟩
      rw [update_self, if_pos hfull]
    · exact absurd (drop_min hfull) hne

theorem RwAwake.step {o : T × RwEvent} (h : RwAwake s) (hinv : RwInv s) (hfinds : FindsTaken s o)
    (hstep : Threads.step rwThread s o = some s') : RwAwake s' := by
  rcases rwStep_cases hstep with ⟨c, rc, -, hpc, rfl⟩ | ⟨m, pc, hmove, rfl⟩
  · constructor
    · refine Threads.forall_update (P := fun _ (pc : RwPc) => ∀ mode, pc ≠ .wait mode 0) ?_
        fun u _ => h.observed u
      cases c <;> exact nofun
    · intro hfree hne
      obtain ⟨u, hu⟩ := h.waker hfree hne
      refine ⟨u, ?_⟩
      have hut : u ≠ o.1 := by
        rintro rfl
        cases hpc.symm.trans hu
      exact (update_of_ne hut _ _).trans hu
  · constructor
    · refine Threads.forall_update (P := fun _ (pc : RwPc) => ∀ mode, pc ≠ .wait mode 0) ?_
        fun u _ => h.observed u
      exact hmove.observed hfinds
    · exact hmove.waker h (hinv.fits _)

/-- A writer holds the lock alone.  And where no thread finds the lock free when it loads
    the value to park on, a thread parked on a free lock has an unlock that has still to
    wake. -/
theorem rwlock_excludes_and_wakes {os : List (T × RwEvent)}
    (hrun : Run (Threads.step rwThread) RwCorrect (rwBoot T) os s) :
    (∀ t ∈ s.mem.writers, s.mem.writers = [t] ∧ s.mem.readers = []) ∧
    (Run (Threads.step rwThread) (fun s o => RwCorrect s o ∧ FindsTaken s o) (rwBoot T) os s →
      s.mem.state = 0 → ∀ t ∈ s.mem.parked, ∃ u, s.loc u = .wakeAll) := by
  constructor
  · intro t ht
    cases (rwInv_of_run hrun).word with
    | writer u _ hreaders hwriters =>
      obtain rfl : t = u := by simpa [hwriters] using ht
      exact ⟨hwriters, hreaders⟩
    | readers _ _ hwriters =>
      rw [hwriters] at ht
      cases ht
  · intro hfinds hfree t ht
    obtain ⟨-, h⟩ : RwInv s ∧ RwAwake s := by
      refine hfinds.invariant (P := fun s => RwInv s ∧ RwAwake s)
        ⟨rwBoot_inv, fun _ _ => nofun, fun _ hne => absurd rfl hne⟩ ?_
      rintro s₁ o s₂ ⟨hinv, h⟩ ⟨hcorrect, hfinds⟩ hstep
      exact ⟨hinv.step hcorrect hstep, h.step hinv hfinds hstep⟩
    exact h.waker hfree (List.ne_nil_of_mem ht)

end

theorem rwlock_excludes_and_wakes_two : ∃ s,
    Run (Threads.step rwThread) (fun s o => RwCorrect s o ∧ FindsTaken s o) (rwBoot (Fin 2))
      [(0, .call .wrlock), (0, .go), (1, .call .rdlock), (1, .go), (1, .go), (1, .go),
        (0, .call .unlock), (0, .go), (0, .go)] s ∧
    s.mem.state = 0 ∧ s.mem.parked = [1] ∧
    (∀ t ∈ s.mem.writers, s.mem.writers = [t] ∧ s.mem.readers = []) ∧
    ∃ u, s.loc u = .wakeAll := by
  refine Run.exists_imp (P := fun s => s.mem.state = 0 ∧ s.mem.parked = [1]) ?_
    fun s hrun ⟨hfree, hparked⟩ => ?_
  · exact Run.exists_of_checked (I := fun _ => True)
      (fun s o => decide (RwCorrect s o ∧ FindsTaken s o)) trivial
      (fun _ _ _ hok => of_decide_eq_true hok) (fun _ _ _ _ _ _ => trivial) (by decide +kernel)
  have hcorrect : Run (Threads.step rwThread) RwCorrect (rwBoot (Fin 2)) _ s :=
    hrun.mono fun _ _ h => h.1
  obtain ⟨hexcludes, hwakes⟩ := rwlock_excludes_and_wakes hcorrect
  exact ⟨hfree, hparked, hexcludes, hwakes hrun hfree 1 (by simp [hparked])⟩

/-- The try of thread 1 fails while thread 0 has the lock; it parks after thread 0 has
    unlocked and woken. -/
theorem rwlock_parks_on_free : ∃ s,
    Run (Threads.step rwThread) RwCorrect (rwBoot (Fin 2))
      [(0, .call .wrlock), (0, .go), (1, .call .rdlock), (1, .go), (0, .call .unlock), (0, .go),
        (0, .go), (0, .go), (1, .go), (1, .go)] s ∧
    s.mem.state = 0 ∧ s.mem.parked = [1] ∧ s.loc 0 = .ret .ok ∧ s.loc 1 = .parked .read :=
  Run.exists_of_checked (I := fun _ => True) (fun s o => decide (RwCorrect s o)) trivial
    (fun _ _ _ hok => of_decide_eq_true hok) (fun _ _ _ _ _ _ => trivial) (by decide +kernel)

end GovinDos.Pthread
