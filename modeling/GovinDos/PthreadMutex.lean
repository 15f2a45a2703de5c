/-
  **Mutexes (`pthread_mutex_trylock`, `mutex_lock_deadline`,
  `pthread_mutex_unlock`).**

  A step is one access to the mutex, or the futex call.  A thread that parks has seen the
  word marked 2, and what takes the mark off is an unlock that goes on to wake; a thread that
  a wake released takes the mutex as 2 or marks it again.
-/
import Mathlib
import GovinDos.Lib.Interleaving
import GovinDos.Pthread

namespace GovinDos.Pthread

open Function

/-! ## 1. The model -/

inductive MutexType where
  | NORMAL | RECURSIVE | ERRORCHECK
deriving DecidableEq, Repr

def UINT32_MAX : Nat := 2 ^ 32 - 1

structure Mutex (T : Type) where
  locked : Nat
  owner : Option T
  recursion : Nat
  type : MutexType
  parked : List T
  /-- Not in the code: the threads a wake of `locked` released which have not seen,
      marked or taken the word since. -/
  handed : List T

def Mutex.init (T : Type) (type : MutexType) : Mutex T where
  locked := 0
  owner := none
  recursion := 0
  type := type
  parked := []
  handed := []

inductive Caller where
  | trylock
  | lock (deadline : UInt64)
deriving DecidableEq, Repr

inductive MutexPc where
  | ret (rc : Rc)
  /-- `pthread_mutex_trylock`: the loads of `locked` and `owner`; past them where the
      thread is the owner, or not. -/
  | tryLocked (k : Caller)
  | tryOwner (k : Caller)
  | tryOwn (k : Caller)
  | tryCas (k : Caller)
  | acquired
  | counted
  /-- `mutex_lock_deadline`: the load of `locked`, the exchanges 0 to 2 and 1 to 2,
      `futex_wait`, and parked in it. -/
  | load (deadline : UInt64)
  | cas0 (deadline : UInt64)
  | cas1 (deadline : UInt64)
  | wait (deadline : UInt64)
  | parked (deadline : UInt64)
  | unlock
  | unlockOwner
  | unlockRecursion
  | unlockStore
  | unlockXchg
  | unlockWake
deriving DecidableEq, Repr

/-- A thread; `nest` counts its locks that succeeded and have not been undone. -/
structure MutexLocal where
  pc : MutexPc
  nest : Nat
deriving DecidableEq, Repr

def MutexLocal.goto (l : MutexLocal) (pc : MutexPc) : MutexLocal := { l with pc := pc }

def Caller.busy : Caller → MutexPc
  | .trylock => .ret .EBUSY
  | .lock deadline => .load deadline

section

variable {T : Type} [DecidableEq T]

def Mutex.acted (m : Mutex T) (t : T) : Mutex T := { m with handed := m.handed.filter (· ≠ t) }

def Mutex.wake (m : Mutex T) : Mutex T :=
  { m with parked := m.parked.drop 1, handed := m.parked.take 1 ++ m.handed }

def Mutex.next (t : T) (m : Mutex T) (l : MutexLocal) (expire : Bool) :
    Option (Mutex T × MutexLocal) :=
  match l.pc with
  | .ret _ => none
  | .tryLocked k => some (m, l.goto (if m.locked ≠ 0 then .tryOwner k else .tryCas k))
  | .tryOwner k => some (m, l.goto (if m.owner = some t then .tryOwn k else .tryCas k))
  | .tryOwn k => match m.type with
    | .RECURSIVE =>
      if m.recursion = UINT32_MAX then some (m, l.goto (.ret .EAGAIN))
      else some ({ m with recursion := m.recursion + 1 }, ⟨.ret .ok, l.nest + 1⟩)
    | .ERRORCHECK => some (m, l.goto (.ret .EDEADLK))
    | .NORMAL => some (m, l.goto k.busy)
  | .tryCas k =>
    if m.locked = 0 then some ({ m.acted t with locked := 1 }, ⟨.acquired, l.nest + 1⟩)
    else some (m, l.goto k.busy)
  | .acquired => some ({ m with owner := some t }, l.goto .counted)
  | .counted => some ({ m with recursion := 1 }, l.goto (.ret .ok))
  | .load deadline =>
    if m.locked = 0 then some (m, l.goto (.cas0 deadline))
    else if m.locked = 1 then some (m, l.goto (.cas1 deadline))
    else some (m.acted t, l.goto (.wait deadline))
  | .cas0 deadline =>
    if m.locked = 0 then some ({ m.acted t with locked := 2 }, ⟨.acquired, l.nest + 1⟩)
    else some (m, l.goto (.load deadline))
  | .cas1 deadline =>
    if m.locked = 1 then some ({ m.acted t with locked := 2 }, l.goto (.wait deadline))
    else some (m, l.goto (.load deadline))
  | .wait deadline =>
    if m.locked = 2 then some ({ m with parked := m.parked ++ [t] }, l.goto (.parked deadline))
    else some (m, l.goto (.load deadline))
  | .parked deadline =>
    if t ∉ m.parked then some (m, l.goto (.load deadline))
    else if expire ∧ deadline ≠ 0 then
      some ({ m with parked := m.parked.erase t }, l.goto (.ret .ETIMEDOUT))
    else none
  | .unlock => some (m, l.goto (if m.locked = 0 then .ret .EPERM else .unlockOwner))
  | .unlockOwner => some (m, l.goto (if m.owner = some t then .unlockRecursion else .ret .EPERM))
  | .unlockRecursion =>
    if m.type = .RECURSIVE ∧ m.recursion > 1 then
      some ({ m with recursion := m.recursion - 1 }, ⟨.ret .ok, l.nest - 1⟩)
    else some ({ m with recursion := 0 }, l.goto .unlockStore)
  | .unlockStore => some ({ m with owner := none }, l.goto .unlockXchg)
  | .unlockXchg =>
    some ({ m with locked := 0 }, ⟨if m.locked = 2 then .unlockWake else .ret .ok, l.nest - 1⟩)
  | .unlockWake => some (m.wake, l.goto (.ret .ok))

inductive MutexCall where
  | trylock
  | lock
  | timedlock (abstime : Timespec)
  | unlock

def MutexCall.enter : MutexCall → MutexPc
  | .trylock => .tryLocked .trylock
  | .lock => .tryLocked (.lock 0)
  | .timedlock abstime => match abstimeToDeadline abstime with
    | none => .ret .EINVAL
    | some deadline => .tryLocked (.lock deadline)
  | .unlock => .unlock

inductive MutexEvent where
  | call (c : MutexCall)
  | go
  | expire

def mutexThread (t : T) (m : Mutex T) (l : MutexLocal) : MutexEvent → Option (Mutex T × MutexLocal)
  | .call c => match l.pc with
    | .ret _ => some (m, l.goto c.enter)
    | _ => none
  | .go => m.next t l false
  | .expire => m.next t l true

def mutexBoot (type : MutexType) : Threads T (Mutex T) MutexLocal where
  mem := .init T type
  loc := fun _ => ⟨.ret .ok, 0⟩

/-! ## 2. What a step can do -/

inductive MutexLook (t : T) (m : Mutex T) : MutexPc → MutexPc → Prop
  | locked (k : Caller) : MutexLook t m (.tryLocked k) (.tryOwner k)
  | unlocked (k : Caller) : MutexLook t m (.tryLocked k) (.tryCas k)
  | own (k : Caller) (h : m.owner = some t) : MutexLook t m (.tryOwner k) (.tryOwn k)
  | foreign (k : Caller) : MutexLook t m (.tryOwner k) (.tryCas k)
  | refuse (k : Caller) (rc : Rc) : MutexLook t m (.tryOwn k) (.ret rc)
  | deadlock (k : Caller) : MutexLook t m (.tryOwn k) k.busy
  | busy (k : Caller) : MutexLook t m (.tryCas k) k.busy
  | free (deadline : UInt64) : MutexLook t m (.load deadline) (.cas0 deadline)
  | held (deadline : UInt64) : MutexLook t m (.load deadline) (.cas1 deadline)
  | lost0 (deadline : UInt64) : MutexLook t m (.cas0 deadline) (.load deadline)
  | lost1 (deadline : UInt64) : MutexLook t m (.cas1 deadline) (.load deadline)
  | again (deadline : UInt64) : MutexLook t m (.wait deadline) (.load deadline)
  | released (deadline : UInt64) (h : t ∉ m.parked) :
      MutexLook t m (.parked deadline) (.load deadline)
  | unlock : MutexLook t m .unlock .unlockOwner
  | unlockFree : MutexLook t m .unlock (.ret .EPERM)
  | unlockOwn (h : m.owner = some t) : MutexLook t m .unlockOwner .unlockRecursion
  | unlockForeign : MutexLook t m .unlockOwner (.ret .EPERM)

inductive MutexMove (t : T) (m : Mutex T) (l : MutexLocal) : Mutex T → MutexLocal → Prop
  | look (pc : MutexPc) (h : MutexLook t m l.pc pc) : MutexMove t m l m (l.goto pc)
  | recurse (k : Caller) (hpc : l.pc = .tryOwn k) (htype : m.type = .RECURSIVE) :
      MutexMove t m l { m with recursion := m.recursion + 1 } ⟨.ret .ok, l.nest + 1⟩
  | take (k : Caller) (hpc : l.pc = .tryCas k) (hfree : m.locked = 0) :
      MutexMove t m l { m.acted t with locked := 1 } ⟨.acquired, l.nest + 1⟩
  | takeMarked (deadline : UInt64) (hpc : l.pc = .cas0 deadline) (hfree : m.locked = 0) :
      MutexMove t m l { m.acted t with locked := 2 } ⟨.acquired, l.nest + 1⟩
  | own (hpc : l.pc = .acquired) : MutexMove t m l { m with owner := some t } (l.goto .counted)
  | count (hpc : l.pc = .counted) : MutexMove t m l { m with recursion := 1 } (l.goto (.ret .ok))
  | marked (deadline : UInt64) (hpc : l.pc = .load deadline) (h0 : m.locked ≠ 0)
      (h1 : m.locked ≠ 1) : MutexMove t m l (m.acted t) (l.goto (.wait deadline))
  | mark (deadline : UInt64) (hpc : l.pc = .cas1 deadline) (hheld : m.locked = 1) :
      MutexMove t m l { m.acted t with locked := 2 } (l.goto (.wait deadline))
  | park (deadline : UInt64) (hpc : l.pc = .wait deadline) (hmarked : m.locked = 2) :
      MutexMove t m l { m with parked := m.parked ++ [t] } (l.goto (.parked deadline))
  | expire (deadline : UInt64) (hpc : l.pc = .parked deadline) (hmem : t ∈ m.parked) :
      MutexMove t m l { m with parked := m.parked.erase t } (l.goto (.ret .ETIMEDOUT))
  | unnest (hpc : l.pc = .unlockRecursion) (htype : m.type = .RECURSIVE) (hrec : m.recursion > 1) :
      MutexMove t m l { m with recursion := m.recursion - 1 } ⟨.ret .ok, l.nest - 1⟩
  | uncount (hpc : l.pc = .unlockRecursion) (h : m.type = .RECURSIVE → m.recursion ≤ 1) :
      MutexMove t m l { m with recursion := 0 } (l.goto .unlockStore)
  | disown (hpc : l.pc = .unlockStore) :
      MutexMove t m l { m with owner := none } (l.goto .unlockXchg)
  | release (hpc : l.pc = .unlockXchg) (hno : m.locked ≠ 2) :
      MutexMove t m l { m with locked := 0 } ⟨.ret .ok, l.nest - 1⟩
  | releaseMarked (hpc : l.pc = .unlockXchg) (hmarked : m.locked = 2) :
      MutexMove t m l { m with locked := 0 } ⟨.unlockWake, l.nest - 1⟩
  | wake (hpc : l.pc = .unlockWake) : MutexMove t m l m.wake (l.goto (.ret .ok))

variable {t u : T} {m m' : Mutex T} {l l' : MutexLocal} {expire : Bool}

theorem Mutex.next_move (h : m.next t l expire = some (m', l')) : MutexMove t m l m' l' := by
  obtain ⟨pc, nest⟩ := l
  cases pc with
  | ret rc => cases h
  | tryLocked k =>
    cases h
    refine .look _ ?_
    split
    · exact .locked k
    · exact .unlocked k
  | tryOwner k =>
    cases h
    refine .look _ ?_
    split
    · exact .own k ‹_›
    · exact .foreign k
  | tryOwn k =>
    simp only [Mutex.next] at h
    split at h
    · rename_i htype
      split at h <;> cases h
      · exact .look _ (.refuse k _)
      · exact .recurse k rfl htype
    · cases h
      exact .look _ (.refuse k _)
    · cases h
      exact .look _ (.deadlock k)
  | tryCas k =>
    simp only [Mutex.next] at h
    split at h <;> cases h
    · exact .take k rfl ‹_›
    · exact .look _ (.busy k)
  | acquired =>
    cases h
    exact .own rfl
  | counted =>
    cases h
    exact .count rfl
  | load deadline =>
    simp only [Mutex.next] at h
    split at h
    · cases h
      exact .look _ (.free deadline)
    · rename_i h0
      split at h <;> cases h
      · exact .look _ (.held deadline)
      · exact .marked deadline rfl h0 ‹_›
  | cas0 deadline =>
    simp only [Mutex.next] at h
    split at h <;> cases h
    · exact .takeMarked deadline rfl ‹_›
    · exact .look _ (.lost0 deadline)
  | cas1 deadline =>
    simp only [Mutex.next] at h
    split at h <;> cases h
    · exact .mark deadline rfl ‹_›
    · exact .look _ (.lost1 deadline)
  | wait deadline =>
    simp only [Mutex.next] at h
    split at h <;> cases h
    · exact .park deadline rfl ‹_›
    · exact .look _ (.again deadline)
  | parked deadline =>
    simp only [Mutex.next] at h
    split at h
    · cases h
      exact .look _ (.released deadline ‹_›)
    · rename_i hmem
      split at h <;> cases h
      exact .expire deadline rfl (not_not.mp hmem)
  | unlock =>
    cases h
    refine .look _ ?_
    split
    · exact .unlockFree
    · exact .unlock
  | unlockOwner =>
    cases h
    refine .look _ ?_
    split
    · exact .unlockOwn ‹_›
    · exact .unlockForeign
  | unlockRecursion =>
    simp only [Mutex.next] at h
    split at h <;> cases h
    · rename_i hrec
      exact .unnest rfl hrec.1 hrec.2
    · rename_i hrec
      refine .uncount rfl fun htype => ?_
      simpa [htype] using hrec
  | unlockStore =>
    cases h
    exact .disown rfl
  | unlockXchg =>
    cases h
    by_cases hmarked : m.locked = 2
    · rw [if_pos hmarked]
      exact .releaseMarked rfl hmarked
    · rw [if_neg hmarked]
      exact .release rfl hmarked
  | unlockWake =>
    cases h
    exact .wake rfl

end

/-! ## 3. Who holds the mutex -/

def MutexPc.stores : MutexPc → Bool
  | .acquired => true
  | .counted => true
  | .unlockStore => true
  | .unlockXchg => true
  | _ => false

def MutexPc.owns : MutexPc → Bool
  | .tryOwn _ => true
  | .unlockRecursion => true
  | _ => false

inductive MutexFits {T : Type} (t : T) (m : Mutex T) : MutexPc → Nat → Prop
  | outside (pc : MutexPc) (hstores : pc.stores = false) (howns : pc.owns = false)
      (howner : m.owner ≠ some t) : MutexFits t m pc 0
  | inside (pc : MutexPc) (n : Nat) (hstores : pc.stores = false) (howner : m.owner = some t)
      (hn : 0 < n) (hrec : m.type = .RECURSIVE → m.recursion = n)
      (hplain : m.type ≠ .RECURSIVE → n = 1) : MutexFits t m pc n
  | acquired (howner : m.owner = none) : MutexFits t m .acquired 1
  | counted (howner : m.owner = some t) : MutexFits t m .counted 1
  | unlockStore (howner : m.owner = some t) : MutexFits t m .unlockStore 1
  | unlockXchg (howner : m.owner = none) : MutexFits t m .unlockXchg 1

section

variable {T : Type} {t : T} {m m' : Mutex T} {pc pc' : MutexPc} {n : Nat}

theorem Caller.busy_plain (k : Caller) : k.busy.stores = false ∧ k.busy.owns = false := by
  cases k <;> exact ⟨rfl, rfl⟩

theorem MutexLook.plain (h : MutexLook t m pc pc') :
    pc.stores = false ∧ pc'.stores = false ∧ (pc'.owns = false ∨ m.owner = some t) := by
  cases h with
  | own _ howner | unlockOwn howner => exact ⟨rfl, rfl, .inr howner⟩
  | deadlock k | busy k => exact ⟨rfl, k.busy_plain.1, .inl k.busy_plain.2⟩
  | _ => exact ⟨rfl, rfl, .inl rfl⟩

theorem MutexFits.goto (h : MutexFits t m pc n) (hpc : pc.stores = false) (hpc' : pc'.stores = false)
    (howns : pc'.owns = false ∨ m.owner = some t) : MutexFits t m pc' n := by
  cases h with
  | outside pc _ _ howner => exact .outside pc' hpc' (howns.resolve_right howner) howner
  | inside pc n _ howner hn hrec hplain => exact .inside pc' n hpc' howner hn hrec hplain
  | _ => cases hpc

theorem MutexFits.keep (h : MutexFits t m pc n) (howner : m'.owner = m.owner)
    (hrec : m'.recursion = m.recursion) (htype : m'.type = m.type) : MutexFits t m' pc n := by
  cases h with
  | outside pc hstores howns ho => exact .outside pc hstores howns (howner ▸ ho)
  | inside pc n hstores ho hn hr hp =>
    exact .inside pc n hstores (howner ▸ ho) hn (by rwa [htype, hrec]) (by rwa [htype])
  | acquired ho => exact .acquired (howner ▸ ho)
  | counted ho => exact .counted (howner ▸ ho)
  | unlockStore ho => exact .unlockStore (howner ▸ ho)
  | unlockXchg ho => exact .unlockXchg (howner ▸ ho)

theorem MutexFits.owner_ne (h : MutexFits t m pc 0) : m.owner ≠ some t := by
  cases h with
  | outside _ _ _ howner => exact howner
  | inside _ _ _ _ hn => exact absurd hn (Nat.lt_irrefl 0)

theorem MutexFits.of_zero (h : MutexFits t m pc 0) (howner : m'.owner ≠ some t) :
    MutexFits t m' pc 0 := by
  cases h with
  | outside pc hstores howns _ => exact .outside pc hstores howns howner
  | inside pc _ _ _ hn => exact absurd hn (Nat.lt_irrefl 0)

theorem MutexFits.of_owns (h : MutexFits t m pc n) (hpc : pc.owns = true) :
    0 < n ∧ m.owner = some t ∧ (m.type = .RECURSIVE → m.recursion = n) ∧
      (m.type ≠ .RECURSIVE → n = 1) := by
  cases h with
  | outside _ _ hno => cases hno.symm.trans hpc
  | inside _ _ _ howner hn hrec hplain => exact ⟨hn, howner, hrec, hplain⟩
  | _ => cases hpc

theorem MutexFits.of_stores (h : MutexFits t m pc n) (hpc : pc.stores = true) :
    n = 1 ∧ (pc = .counted ∨ pc = .unlockStore → m.owner = some t) := by
  cases h with
  | outside _ hno | inside _ _ hno => cases hno.symm.trans hpc
  | counted howner | unlockStore howner => exact ⟨rfl, fun _ => howner⟩
  | acquired => exact ⟨rfl, by simp⟩
  | unlockXchg => exact ⟨rfl, by simp⟩

end

structure MutexSound {T : Type} (m : Mutex T) (loc : T → MutexLocal) : Prop where
  locked_le : m.locked ≤ 2
  held : ∀ t, 0 < (loc t).nest → m.locked ≠ 0
  excl : ∀ t u, 0 < (loc t).nest → 0 < (loc u).nest → t = u
  fits : ∀ t, MutexFits t m (loc t).pc (loc t).nest

section

variable {T : Type} [DecidableEq T] {t u : T} {m m' : Mutex T} {l' : MutexLocal} {loc : T → MutexLocal}

omit [DecidableEq T] in
theorem MutexSound.nest_eq_zero (h : MutexSound m loc) (ht : 0 < (loc t).nest) (hu : u ≠ t) :
    (loc u).nest = 0 := by
  by_contra hne
  exact hu (h.excl u t (Nat.pos_of_ne_zero hne) ht)

omit [DecidableEq T] in
theorem MutexSound.fits_others (h : MutexSound m loc) (ht : 0 < (loc t).nest)
    (howner : ∀ u, u ≠ t → m'.owner ≠ some u) (u : T) (hu : u ≠ t) :
    MutexFits u m' (loc u).pc (loc u).nest := by
  have hfits := h.fits u
  rw [h.nest_eq_zero ht hu] at hfits ⊢
  exact hfits.of_zero (howner u hu)

theorem MutexSound.update (h : MutexSound m loc) (hle : m'.locked ≤ 2)
    (hheld : 0 < l'.nest → m'.locked ≠ 0)
    (hother : ∀ u, u ≠ t → 0 < (loc u).nest → m'.locked ≠ 0 ∧ l'.nest = 0)
    (hself : MutexFits t m' l'.pc l'.nest)
    (hfits : ∀ u, u ≠ t → MutexFits u m' (loc u).pc (loc u).nest) :
    MutexSound m' (Function.update loc t l') where
  locked_le := hle
  held := Threads.forall_update (P := fun _ (l : MutexLocal) => 0 < l.nest → m'.locked ≠ 0) hheld
    fun u hu hn => (hother u hu hn).1
  excl := by
    intro v w hv hw
    by_cases hvt : v = t
    · by_cases hwt : w = t
      · rw [hvt, hwt]
      · rw [hvt, update_self] at hv
        rw [update_of_ne hwt] at hw
        exact absurd (hother w hwt hw).2 (Nat.pos_iff_ne_zero.mp hv)
    · rw [update_of_ne hvt] at hv
      by_cases hwt : w = t
      · rw [hwt, update_self] at hw
        exact absurd (hother v hvt hv).2 (Nat.pos_iff_ne_zero.mp hw)
      · rw [update_of_ne hwt] at hw
        exact h.excl v w hv hw
  fits := Threads.forall_update (P := fun u (l : MutexLocal) => MutexFits u m' l.pc l.nest) hself hfits

theorem MutexSound.keep (h : MutexSound m loc) (hle : m'.locked ≤ 2)
    (hlocked : m.locked ≠ 0 → m'.locked ≠ 0) (hnest : l'.nest = (loc t).nest)
    (hself : MutexFits t m' l'.pc l'.nest)
    (hfits : ∀ u, u ≠ t → MutexFits u m' (loc u).pc (loc u).nest) :
    MutexSound m' (Function.update loc t l') := by
  refine h.update hle (fun hn => ?_) (fun u hu hn => ⟨?_, ?_⟩) hself hfits
  · exact hlocked (h.held t (hnest ▸ hn))
  · exact hlocked (h.held u hn)
  · rw [hnest]
    exact h.nest_eq_zero hn (Ne.symm hu)

theorem MutexSound.goto (h : MutexSound m loc) {pc : MutexPc} (hpc : (loc t).pc.stores = false)
    (hpc' : pc.stores = false) (howns : pc.owns = false ∨ m.owner = some t) (hle : m'.locked ≤ 2)
    (hlocked : m.locked ≠ 0 → m'.locked ≠ 0) (howner : m'.owner = m.owner)
    (hrec : m'.recursion = m.recursion) (htype : m'.type = m.type) :
    MutexSound m' (Function.update loc t ((loc t).goto pc)) := by
  refine h.keep hle hlocked rfl ?_ fun u _ => (h.fits u).keep howner hrec htype
  exact ((h.fits t).goto hpc hpc' howns).keep howner hrec htype

theorem MutexSound.take (h : MutexSound m loc) (hfree : m.locked = 0) (hle : m'.locked ≤ 2)
    (hlocked : m'.locked ≠ 0) (howner : m'.owner = m.owner) (hrec : m'.recursion = m.recursion)
    (htype : m'.type = m.type) :
    MutexSound m' (Function.update loc t ⟨.acquired, (loc t).nest + 1⟩) := by
  have hzero (u : T) : (loc u).nest = 0 := by
    by_contra hne
    exact h.held u (Nat.pos_of_ne_zero hne) hfree
  refine h.update hle (fun _ => hlocked) (fun u _ hn => ?_) ?_ fun u _ => ?_
  · exact absurd (hzero u) (Nat.pos_iff_ne_zero.mp hn)
  · rw [hzero t]
    refine .acquired ?_
    rw [howner, Option.eq_none_iff_forall_ne_some]
    intro u
    have hfits := h.fits u
    rw [hzero u] at hfits
    exact hfits.owner_ne
  · exact (h.fits u).keep howner hrec htype

theorem MutexSound.holder (h : MutexSound m loc) (hpos : 0 < (loc t).nest)
    (hlocked : m'.locked = m.locked) (howner : ∀ u, u ≠ t → m'.owner ≠ some u)
    (hself : MutexFits t m' l'.pc l'.nest) : MutexSound m' (Function.update loc t l') := by
  refine h.update (hlocked ▸ h.locked_le) (fun _ => ?_) (fun u hu hn => ?_) hself
    (h.fits_others hpos howner)
  · rw [hlocked]
    exact h.held t hpos
  · exact absurd (h.nest_eq_zero hpos hu) (Nat.pos_iff_ne_zero.mp hn)

theorem MutexSound.release (h : MutexSound m loc) {pc : MutexPc} (hpc : (loc t).pc = .unlockXchg)
    (hpc' : pc.stores = false) (howns : pc.owns = false) :
    MutexSound { m with locked := 0 } (Function.update loc t ⟨pc, (loc t).nest - 1⟩) := by
  have hfits := h.fits t
  rw [hpc] at hfits
  have hone : (loc t).nest = 1 := (hfits.of_stores rfl).1
  have hpos : 0 < (loc t).nest := hone ▸ Nat.one_pos
  have howner : m.owner = none := by
    generalize (loc t).nest = n at hfits
    cases hfits with
    | outside _ hno => cases hno
    | inside _ _ hno => cases hno
    | unlockXchg howner => exact howner
  rw [hone]
  refine h.update (Nat.zero_le _) (by simp) (fun u hu hn => ?_) ?_ ?_
  · exact absurd (h.nest_eq_zero hpos hu) (Nat.pos_iff_ne_zero.mp hn)
  · exact .outside pc hpc' howns (by simp [howner])
  · exact h.fits_others hpos (by simp [howner])

theorem MutexMove.sound (h : MutexSound m loc) (hmove : MutexMove t m (loc t) m' l') :
    MutexSound m' (update loc t l') := by
  have hfits := h.fits t
  have howner_ne (howner : m.owner = some t) (u : T) (hu : u ≠ t) : m.owner ≠ some u := by
    intro heq
    exact hu (Option.some_inj.mp (heq.symm.trans howner))
  cases hmove with
  | look pc hlook =>
    obtain ⟨hpc, hpc', howns⟩ := hlook.plain
    exact h.goto hpc hpc' howns h.locked_le id rfl rfl rfl
  | take k hpc hfree | takeMarked deadline hpc hfree =>
    exact h.take hfree (by simp) (by simp) rfl rfl rfl
  | mark deadline hpc hheld =>
    exact h.goto (by rw [hpc]; rfl) rfl (.inl rfl) (by simp) (by simp) rfl rfl rfl
  | marked deadline hpc | park deadline hpc | expire deadline hpc | wake hpc =>
    refine h.goto (by rw [hpc]; rfl) rfl (.inl rfl) ?_ ?_ rfl rfl rfl
    · exact h.locked_le
    · exact id
  | recurse k hpc htype =>
    rw [hpc] at hfits
    obtain ⟨hpos, howner, hrec, -⟩ := hfits.of_owns rfl
    refine h.holder hpos rfl (howner_ne howner) ?_
    refine .inside _ _ rfl howner (Nat.succ_pos _) (fun _ => ?_) fun hno => absurd htype hno
    rw [hrec htype]
  | unnest hpc htype hgt =>
    rw [hpc] at hfits
    obtain ⟨hpos, howner, hrec, -⟩ := hfits.of_owns rfl
    have hrec := hrec htype
    have hmore : 0 < (loc t).nest - 1 := by omega
    refine h.holder hpos rfl (howner_ne howner) ?_
    refine .inside _ _ rfl howner hmore (fun _ => ?_) fun hno => absurd htype hno
    rw [hrec]
  | uncount hpc hle =>
    rw [hpc] at hfits
    obtain ⟨hpos, howner, hrec, hplain⟩ := hfits.of_owns rfl
    have hone : (loc t).nest = 1 := by
      by_cases htype : m.type = .RECURSIVE
      · have := hrec htype
        have := hle htype
        omega
      · exact hplain htype
    refine h.holder hpos rfl (howner_ne howner) ?_
    change MutexFits t _ .unlockStore (loc t).nest
    rw [hone]
    exact .unlockStore howner
  | own hpc =>
    rw [hpc] at hfits
    obtain ⟨hone, -⟩ := hfits.of_stores rfl
    refine h.holder (hone ▸ Nat.one_pos) rfl (fun u hu heq => hu (Option.some_inj.mp heq).symm) ?_
    change MutexFits t _ .counted (loc t).nest
    rw [hone]
    exact .counted rfl
  | count hpc =>
    rw [hpc] at hfits
    obtain ⟨hone, howner⟩ := hfits.of_stores rfl
    have howner := howner (.inl rfl)
    refine h.holder (hone ▸ Nat.one_pos) rfl (howner_ne howner) ?_
    exact .inside _ _ rfl howner (hone ▸ Nat.one_pos) (fun _ => hone.symm) fun _ => hone
  | disown hpc =>
    rw [hpc] at hfits
    obtain ⟨hone, -⟩ := hfits.of_stores rfl
    refine h.holder (hone ▸ Nat.one_pos) rfl (by simp) ?_
    change MutexFits t _ .unlockXchg (loc t).nest
    rw [hone]
    exact .unlockXchg rfl
  | release hpc | releaseMarked hpc => exact h.release hpc rfl rfl

/-! ## 4. Who answers for the parked threads -/

/-- While a thread is parked the word is marked, or somebody answers for it: an unlocker
    before its wake, a released thread, or `B`. -/
def MutexGuarded (B : Prop) (m : Mutex T) (loc : T → MutexLocal) : Prop :=
  m.parked ≠ [] → m.locked = 2 ∨ (∃ t, (loc t).pc = .unlockWake) ∨ m.handed ≠ [] ∨ B

variable {B : Prop}

theorem MutexGuarded.keep (h : MutexGuarded B m loc) (hpc : (loc t).pc ≠ .unlockWake)
    (hparked : m'.parked ≠ [] → m.parked ≠ []) (hlocked : m.locked = 2 → m'.locked = 2)
    (hhanded : m.handed ≠ [] → m'.handed ≠ []) : MutexGuarded B m' (update loc t l') := by
  intro hne
  rcases h (hparked hne) with hmarked | hwake | hhand | hB
  · exact .inl (hlocked hmarked)
  · have hex := Threads.exists_update (P := fun _ (l : MutexLocal) => l.pc = .unlockWake) (l := l')
      (R := False) hwake fun hself => absurd hself hpc
    exact .inr (.inl (hex.resolve_right id))
  · exact .inr (.inr (.inl (hhanded hhand)))
  · exact .inr (.inr (.inr hB))

omit [DecidableEq T] in
theorem MutexLook.ne_wake {pc pc' : MutexPc} (h : MutexLook t m pc pc') : pc ≠ .unlockWake := by
  cases h <;> simp

theorem MutexMove.guarded (hle : m.locked ≤ 2) (h : MutexGuarded B m loc)
    (hfast : ∀ k, (loc t).pc = .tryCas k → m.locked = 0 → t ∈ m.handed → m.parked = [])
    (hmove : MutexMove t m (loc t) m' l') : MutexGuarded B m' (update loc t l') := by
  cases hmove with
  | look pc hlook => exact h.keep hlook.ne_wake id id id
  | recurse k hpc | own hpc | count hpc | unnest hpc | uncount hpc | disown hpc =>
    exact h.keep (by simp [hpc]) id id id
  | expire deadline hpc hmem =>
    refine h.keep (by simp [hpc]) (fun _ hnil => ?_) id id
    rw [hnil] at hmem
    cases hmem
  | take k hpc hfree =>
    by_cases hmem : t ∈ m.handed
    · intro hne
      exact absurd (hfast k hpc hfree hmem) hne
    · refine h.keep (by simp [hpc]) id (fun h2 => by omega) fun hne => ?_
      have hsame : m.handed.filter (· ≠ t) = m.handed := by
        apply List.filter_eq_self.mpr
        intro u hu
        exact decide_eq_true fun heq => hmem (heq ▸ hu)
      change m.handed.filter (· ≠ t) ≠ []
      rwa [hsame]
  | takeMarked deadline | mark deadline => exact fun _ => .inl rfl
  | marked deadline hpc h0 h1 =>
    intro _
    left
    change m.locked = 2
    omega
  | park deadline hpc hmarked => exact fun _ => .inl hmarked
  | release hpc hno => exact h.keep (by simp [hpc]) id (fun h2 => absurd h2 hno) id
  | releaseMarked hpc =>
    intro _
    exact .inr (.inl ⟨t, by rw [update_self]⟩)
  | wake hpc =>
    intro hne
    right; right; left
    have hne : m.parked.drop 1 ≠ [] := hne
    cases hparked : m.parked with
    | nil => simp [hparked] at hne
    | cons u rest => simp [Mutex.wake, hparked]

def MutexPc.returning : MutexPc → Bool
  | .parked _ => true
  | .load _ => true
  | .cas0 _ => true
  | .cas1 _ => true
  | _ => false

structure MutexQueue (m : Mutex T) (loc : T → MutexLocal) : Prop where
  nodup : m.parked.Nodup
  parked : ∀ t ∈ m.parked, ∃ deadline, (loc t).pc = .parked deadline
  handed : ∀ t ∈ m.handed, t ∉ m.parked ∧ (loc t).pc.returning = true

theorem MutexQueue.step (h : MutexQueue m loc) (hno : t ∉ m.parked)
    (hparked : m'.parked = m.parked) (hhanded : ∀ u ∈ m'.handed, u ∈ m.handed)
    (hself : t ∈ m'.handed → l'.pc.returning = true) : MutexQueue m' (update loc t l') where
  nodup := hparked ▸ h.nodup
  parked := by
    intro u hu
    rw [hparked] at hu
    rw [update_of_ne (ne_of_mem_of_not_mem hu hno)]
    exact h.parked u hu
  handed := by
    intro u hu
    obtain ⟨hout, hret⟩ := h.handed u (hhanded u hu)
    refine ⟨hparked ▸ hout, ?_⟩
    by_cases hut : u = t
    · subst hut
      rw [update_self]
      exact hself hu
    · rwa [update_of_ne hut]

omit [DecidableEq T] in
theorem MutexQueue.notMem (h : MutexQueue m loc) (hpc : ∀ deadline, (loc t).pc ≠ .parked deadline) :
    t ∉ m.parked := by
  intro hmem
  obtain ⟨deadline, hparked⟩ := h.parked t hmem
  exact hpc deadline hparked

omit [DecidableEq T] in
theorem MutexQueue.notHanded (h : MutexQueue m loc) (hpc : (loc t).pc.returning = false) :
    t ∉ m.handed := by
  intro hmem
  cases hpc.symm.trans (h.handed t hmem).2

omit [DecidableEq T] in
theorem MutexLook.returning {pc pc' : MutexPc} (h : MutexLook t m pc pc')
    (hpc : pc.returning = true) : pc'.returning = true ∧ (∀ d, pc = .parked d → t ∉ m.parked) := by
  cases h with
  | free | held | lost0 | lost1 => exact ⟨rfl, nofun⟩
  | released d hno => exact ⟨rfl, fun _ _ => hno⟩
  | _ => cases hpc

theorem MutexMove.queue (h : MutexQueue m loc) (hmove : MutexMove t m (loc t) m' l') :
    MutexQueue m' (update loc t l') := by
  cases hmove with
  | look pc hlook =>
    have hno : t ∉ m.parked := by
      intro hmem
      obtain ⟨deadline, hpc⟩ := h.parked t hmem
      exact (hlook.returning (by rw [hpc]; rfl)).2 deadline hpc hmem
    exact h.step hno rfl (fun _ => id) fun hmem => (hlook.returning (h.handed t hmem).2).1
  | recurse k hpc | own hpc | count hpc | unnest hpc | uncount hpc | disown hpc | release hpc
  | releaseMarked hpc =>
    have hhanded := h.notHanded (t := t) (by rw [hpc]; rfl)
    exact h.step (h.notMem (by simp [hpc])) rfl (fun _ => id) fun hmem => absurd hmem hhanded
  | take k hpc | takeMarked deadline hpc | marked deadline hpc | mark deadline hpc =>
    refine h.step (h.notMem (by simp [hpc])) rfl (fun u hu => List.mem_of_mem_filter hu) fun hmem => ?_
    simp [Mutex.acted] at hmem
  | park deadline hpc =>
    have hno : t ∉ m.parked := h.notMem (by simp [hpc])
    have hhanded : t ∉ m.handed := h.notHanded (by rw [hpc]; rfl)
    refine ⟨?_, fun u hu => ?_, fun u hu => ?_⟩
    · simpa using h.nodup.concat hno
    · rcases List.mem_append.mp hu with hold | hnew
      · rw [update_of_ne (ne_of_mem_of_not_mem hold hno)]
        exact h.parked u hold
      · rw [List.mem_singleton.mp hnew, update_self]
        exact ⟨deadline, rfl⟩
    · have hut : u ≠ t := ne_of_mem_of_not_mem hu hhanded
      obtain ⟨hout, hret⟩ := h.handed u hu
      rw [update_of_ne hut]
      exact ⟨by simp [hout, hut], hret⟩
  | expire deadline hpc hmem =>
    refine ⟨h.nodup.erase t, fun u hu => ?_, fun u hu => ?_⟩
    · obtain ⟨hut, hold⟩ := h.nodup.mem_erase_iff.mp hu
      rw [update_of_ne hut]
      exact h.parked u hold
    · obtain ⟨hout, hret⟩ := h.handed u hu
      rw [update_of_ne (ne_of_mem_of_not_mem hmem hout).symm]
      exact ⟨fun hold => hout (List.mem_of_mem_erase hold), hret⟩
  | wake hpc =>
    have hno : t ∉ m.parked := h.notMem (by simp [hpc])
    have hhanded : t ∉ m.handed := h.notHanded (by rw [hpc]; rfl)
    cases hparked : m.parked with
    | nil =>
      refine h.step hno (by simp [Mutex.wake, hparked]) (fun u hu => ?_) fun hmem => ?_
      · simpa [Mutex.wake, hparked] using hu
      · simp [Mutex.wake, hparked, hhanded] at hmem
    | cons x rest =>
      have hnodup := h.nodup
      rw [hparked, List.nodup_cons] at hnodup
      have hxt : x ≠ t := fun heq => hno (by simp [hparked, heq])
      refine ⟨by simpa [Mutex.wake, hparked] using hnodup.2, fun u hu => ?_, fun u hu => ?_⟩
      · have hu : u ∈ m.parked := List.mem_of_mem_drop hu
        rw [update_of_ne (ne_of_mem_of_not_mem hu hno)]
        exact h.parked u hu
      · have hu : u = x ∨ u ∈ m.handed := by simpa [Mutex.wake, hparked] using hu
        rcases hu with rfl | hold
        · rw [update_of_ne hxt]
          obtain ⟨d, hd⟩ := h.parked u (by simp [hparked])
          exact ⟨by simpa [Mutex.wake, hparked] using hnodup.1, by rw [hd]; rfl⟩
        · rw [update_of_ne (ne_of_mem_of_not_mem hold hhanded)]
          obtain ⟨hout, hret⟩ := h.handed u hold
          exact ⟨fun hmem => hout (List.mem_of_mem_drop hmem), hret⟩

/-! ## 5. Programs with one mutex -/

structure MutexInv (s : Threads T (Mutex T) MutexLocal) : Prop where
  sound : MutexSound s.mem s.loc
  guarded : MutexGuarded False s.mem s.loc
  queue : MutexQueue s.mem s.loc

theorem MutexCall.enter_plain (c : MutexCall) : c.enter.stores = false ∧ c.enter.owns = false := by
  cases c with
  | timedlock abstime =>
    simp only [MutexCall.enter]
    split <;> exact ⟨rfl, rfl⟩
  | _ => exact ⟨rfl, rfl⟩

omit [DecidableEq T] in
theorem mutexBoot_inv (type : MutexType) : MutexInv (mutexBoot (T := T) type) where
  sound := ⟨Nat.zero_le _, nofun, nofun, fun _ => .outside _ rfl rfl nofun⟩
  guarded := fun hne => absurd rfl hne
  queue := ⟨List.nodup_nil, nofun, nofun⟩

variable {s s' : Threads T (Mutex T) MutexLocal} {e : MutexEvent}

theorem mutexStep_cases (h : Threads.step mutexThread s (t, e) = some s') :
    (∃ c rc, (s.loc t).pc = .ret rc ∧
        s' = ⟨s.mem, update s.loc t ((s.loc t).goto (MutexCall.enter c))⟩) ∨
      ∃ m l, MutexMove t s.mem (s.loc t) m l ∧ s' = ⟨m, update s.loc t l⟩ := by
  obtain ⟨m, l, hnext, rfl⟩ := Threads.step_eq_some h
  cases e with
  | call c =>
    left
    simp only [mutexThread] at hnext
    split at hnext
    · rename_i rc hpc
      cases hnext
      exact ⟨c, rc, hpc, rfl⟩
    · cases hnext
  | go | expire => exact .inr ⟨m, l, Mutex.next_move hnext, rfl⟩

theorem MutexInv.step (h : MutexInv s) (hstep : Threads.step mutexThread s (t, e) = some s') :
    MutexInv s' := by
  rcases mutexStep_cases hstep with ⟨c, rc, hpc, rfl⟩ | ⟨m, l, hmove, rfl⟩
  · obtain ⟨hstores, howns⟩ := c.enter_plain
    have hno : t ∉ s.mem.parked := h.queue.notMem (by simp [hpc])
    have hhanded : t ∉ s.mem.handed := h.queue.notHanded (by rw [hpc]; rfl)
    refine ⟨?_, ?_, ?_⟩
    · exact h.sound.goto (by rw [hpc]; rfl) hstores (.inl howns) h.sound.locked_le id rfl rfl rfl
    · exact h.guarded.keep (by simp [hpc]) id id id
    · exact h.queue.step hno rfl (fun _ => id) fun hmem => absurd hmem hhanded
  · refine ⟨hmove.sound h.sound, hmove.guarded h.sound.locked_le h.guarded ?_, hmove.queue h.queue⟩
    intro k hpc _ hmem
    exact absurd hmem (h.queue.notHanded (by rw [hpc]; rfl))

theorem MutexMove.release_once {loc : T → MutexLocal} (h : MutexSound m loc)
    (hmove : MutexMove t m (loc t) m' l') (hlocked : m.locked ≠ 0) (hfree : m'.locked = 0) :
    (loc t).nest = 1 ∧ l'.nest = 0 := by
  have hfits := h.fits t
  cases hmove with
  | release hpc | releaseMarked hpc =>
    rw [hpc] at hfits
    have hone := (hfits.of_stores rfl).1
    exact ⟨hone, by rw [hone]⟩
  | take | takeMarked | mark => cases hfree
  | _ => exact absurd hfree hlocked

/-- Mutexes exclude and strand nobody: at most one thread has the mutex, what frees the word
    is the unlock that undoes the holder's one remaining lock, and where the word is free
    and a thread is parked, an unlocker is about to wake or a released thread is on its way
    back to the word. -/
theorem mutex_excludes {type : MutexType} {os : List (T × MutexEvent)}
    (hrun : Run (Threads.step mutexThread) (fun _ _ => True) (mutexBoot type) os s) :
    (∀ t u, 0 < (s.loc t).nest → 0 < (s.loc u).nest → t = u) ∧
    (∀ t e s', Threads.step mutexThread s (t, e) = some s' → s.mem.locked ≠ 0 → s'.mem.locked = 0 →
      (s.loc t).nest = 1 ∧ (s'.loc t).nest = 0) ∧
    (s.mem.locked = 0 → s.mem.parked ≠ [] → (∃ t, (s.loc t).pc = .unlockWake) ∨
      ∃ t ∈ s.mem.handed, t ∉ s.mem.parked ∧ (s.loc t).pc.returning = true) := by
  have h : MutexInv s :=
    hrun.invariant (P := MutexInv) (mutexBoot_inv type) fun _ _ _ h _ hstep => h.step hstep
  refine ⟨h.sound.excl, fun t e s' hstep hlocked hfree => ?_, fun hfree hne => ?_⟩
  · rcases mutexStep_cases hstep with ⟨c, rc, hpc, rfl⟩ | ⟨m, l, hmove, rfl⟩
    · exact absurd hfree hlocked
    · simpa using hmove.release_once h.sound hlocked hfree
  · rcases h.guarded hne with hmarked | hwake | hhanded | hfalse
    · omega
    · exact .inl hwake
    · obtain ⟨t, ht⟩ := List.exists_mem_of_ne_nil _ hhanded
      exact .inr ⟨t, ht, h.queue.handed t ht⟩
    · exact hfalse.elim

end

def handOver : List (Nat × MutexEvent) :=
  (0, .call .lock) :: List.replicate 4 (0, .go) ++ (1, .call .lock) :: List.replicate 6 (1, .go) ++
    (0, .call .unlock) :: List.replicate 5 (0, .go)

theorem mutex_excludes_handOver : ∃ s,
    Run (Threads.step mutexThread) (fun _ _ => True) (mutexBoot .NORMAL) handOver s ∧
    s.mem.locked = 0 ∧ s.mem.parked = [1] ∧ ((∃ t, (s.loc t).pc = .unlockWake) ∨
      ∃ t ∈ s.mem.handed, t ∉ s.mem.parked ∧ (s.loc t).pc.returning = true) := by
  refine Run.exists_imp (P := fun s => s.mem.locked = 0 ∧ s.mem.parked = [1]) ?_
    fun s hrun ⟨hfree, hparked⟩ => ?_
  · exact Run.exists_of_eval (fun _ _ _ => trivial) (by decide +kernel)
  exact ⟨hfree, hparked, (mutex_excludes hrun).2.2 hfree (by simp [hparked])⟩

end GovinDos.Pthread
