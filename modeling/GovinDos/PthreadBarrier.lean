/-
  **Barriers (`pthread_barrier_wait`).**

  A call loads the generation, then counts itself; the last of `trip_count` resets the count,
  then increments the generation, then wakes.  A call that counts itself between the reset
  and the increment belongs to no group: its arrival is wiped, or counted for the next group,
  while it leaves with this one.  The same holds of a call whose generation is over when it
  counts itself.
-/
import Mathlib
import GovinDos.Lib.Interleaving
import GovinDos.Pthread

namespace GovinDos.Pthread

open Function

/-! ## 1. The model -/

inductive BarrierRc where
  | ok
  | SERIAL_THREAD
  | EINVAL
deriving DecidableEq, Repr

structure BarrierReturn where
  call : Nat
  rc : BarrierRc
  started : Nat
deriving DecidableEq, Repr

structure Barrier (T : Type) where
  count : UInt32
  generation : UInt32
  trip_count : UInt32
  parked : List T
  /-- Not in the code: the calls, numbered as they start.  `current` have counted
      themselves since the last increment of the generation, `groups` had at each one. -/
  started : Nat
  current : List Nat
  groups : List (List Nat)
  returns : List BarrierReturn

def Barrier.init (T : Type) (count : UInt32) : Barrier T where
  count := 0
  generation := 0
  trip_count := count
  parked := []
  started := 0
  current := []
  groups := []
  returns := []

inductive BarrierPc where
  | ret
  | load
  | arrive
  /-- The last call of a group: the reset, the increment, `futex_wake_all`. -/
  | store
  | bump
  | wakeAll
  /-- The others: the load of the generation, `futex_wait`, and parked in it. -/
  | check
  | wait
  | parked
deriving DecidableEq, Repr

structure BarrierLocal where
  pc : BarrierPc
  generation : UInt32
  /-- Not in the code: the number of the call. -/
  call : Nat
deriving DecidableEq, Repr

def BarrierLocal.goto (l : BarrierLocal) (pc : BarrierPc) : BarrierLocal := { l with pc := pc }

section

variable {T : Type}

def Barrier.begin (m : Barrier T) : Barrier T := { m with started := m.started + 1 }

def Barrier.arrive (m : Barrier T) (call : Nat) : Barrier T :=
  { m with count := m.count + 1, current := m.current ++ [call] }

def Barrier.bump (m : Barrier T) : Barrier T :=
  { m with generation := m.generation + 1, groups := m.groups ++ [m.current], current := [] }

def Barrier.leave (m : Barrier T) (call : Nat) (rc : BarrierRc) : Barrier T :=
  { m with returns := m.returns ++ [⟨call, rc, m.started⟩] }

def Barrier.wakeable (m : Barrier T) : Nat := min (wakeCap UINT64_MAX) m.parked.length

def Barrier.wake (m : Barrier T) : Barrier T := { m with parked := m.parked.drop m.wakeable }

def Barrier.next [DecidableEq T] (t : T) (m : Barrier T) (l : BarrierLocal) : Option (Barrier T × BarrierLocal) :=
  match l.pc with
  | .ret => none
  | .load => some (m, ⟨.arrive, m.generation, l.call⟩)
  | .arrive =>
    some (m.arrive l.call, l.goto (if m.count + 1 = m.trip_count then .store else .check))
  | .store => some ({ m with count := 0 }, l.goto .bump)
  | .bump => some (m.bump, l.goto .wakeAll)
  | .wakeAll =>
    if m.wakeable = FUTEX_WAKE_BATCH then some (m.wake, l)
    else some (m.wake.leave l.call .SERIAL_THREAD, l.goto .ret)
  | .check =>
    if m.generation = l.generation then some (m, l.goto .wait)
    else some (m.leave l.call .ok, l.goto .ret)
  | .wait =>
    if m.generation = l.generation then
      some ({ m with parked := m.parked ++ [t] }, l.goto .parked)
    else some (m, l.goto .check)
  | .parked => if t ∉ m.parked then some (m, l.goto .check) else none

inductive BarrierEvent where
  | call
  | go
deriving DecidableEq, Repr

def barrierThread [DecidableEq T] (t : T) (m : Barrier T) (l : BarrierLocal) :
    BarrierEvent → Option (Barrier T × BarrierLocal)
  | .call => match l.pc with
    | .ret =>
      if m.trip_count = 0 then some (m.begin.leave m.started .EINVAL, l)
      else some (m.begin, ⟨.load, l.generation, m.started⟩)
    | _ => none
  | .go => m.next t l

def barrierBoot (T : Type) (count : UInt32) : Threads T (Barrier T) BarrierLocal where
  mem := .init T count
  loc := fun _ => ⟨.ret, 0, 0⟩

/-! ## 2. What a step can do -/

inductive BarrierLook (t : T) (m : Barrier T) (l : BarrierLocal) : BarrierLocal → Prop
  | load (hpc : l.pc = .load) : BarrierLook t m l ⟨.arrive, m.generation, l.call⟩
  | again (hpc : l.pc = .check) (h : m.generation = l.generation) : BarrierLook t m l (l.goto .wait)
  | retry (hpc : l.pc = .wait) : BarrierLook t m l (l.goto .check)
  | released (hpc : l.pc = .parked) (h : t ∉ m.parked) : BarrierLook t m l (l.goto .check)

inductive BarrierMove (t : T) (m : Barrier T) (l : BarrierLocal) : Barrier T → BarrierLocal → Prop
  | look (l' : BarrierLocal) (h : BarrierLook t m l l') : BarrierMove t m l m l'
  | last (hpc : l.pc = .arrive) (h : m.count + 1 = m.trip_count) :
      BarrierMove t m l (m.arrive l.call) (l.goto .store)
  | join (hpc : l.pc = .arrive) (h : m.count + 1 ≠ m.trip_count) :
      BarrierMove t m l (m.arrive l.call) (l.goto .check)
  | store (hpc : l.pc = .store) : BarrierMove t m l { m with count := 0 } (l.goto .bump)
  | bump (hpc : l.pc = .bump) : BarrierMove t m l m.bump (l.goto .wakeAll)
  | more (hpc : l.pc = .wakeAll) : BarrierMove t m l m.wake l
  | serial (hpc : l.pc = .wakeAll) (h : m.wakeable ≠ FUTEX_WAKE_BATCH) :
      BarrierMove t m l (m.wake.leave l.call .SERIAL_THREAD) (l.goto .ret)
  | leave (hpc : l.pc = .check) (h : m.generation ≠ l.generation) :
      BarrierMove t m l (m.leave l.call .ok) (l.goto .ret)
  | park (hpc : l.pc = .wait) (h : m.generation = l.generation) :
      BarrierMove t m l { m with parked := m.parked ++ [t] } (l.goto .parked)

variable {t : T} {m m' : Barrier T} {l l' : BarrierLocal} {loc : T → BarrierLocal}
  {s s' : Threads T (Barrier T) BarrierLocal}

theorem Barrier.next_move [DecidableEq T] (h : m.next t l = some (m', l')) : BarrierMove t m l m' l' := by
  obtain ⟨pc, generation, call⟩ := l
  cases pc with
  | ret => cases h
  | load =>
    cases h
    exact .look _ (.load rfl)
  | arrive =>
    simp only [Barrier.next] at h
    split at h <;> cases h
    · exact .last rfl ‹_›
    · exact .join rfl ‹_›
  | store =>
    cases h
    exact .store rfl
  | bump =>
    cases h
    exact .bump rfl
  | wakeAll =>
    simp only [Barrier.next] at h
    split at h <;> cases h
    · exact .more rfl
    · exact .serial rfl ‹_›
  | check =>
    simp only [Barrier.next] at h
    split at h <;> cases h
    · exact .look _ (.again rfl ‹_›)
    · exact .leave rfl ‹_›
  | wait =>
    simp only [Barrier.next] at h
    split at h <;> cases h
    · exact .park rfl ‹_›
    · exact .look _ (.retry rfl)
  | parked =>
    simp only [Barrier.next] at h
    split at h <;> cases h
    exact .look _ (.released rfl ‹_›)

theorem barrierStep_cases [DecidableEq T] {o : T × BarrierEvent} (hcount : s.mem.trip_count ≠ 0)
    (h : Threads.step barrierThread s o = some s') :
    (o.2 = .call ∧ (s.loc o.1).pc = .ret ∧ s' = ⟨s.mem.begin,
      update s.loc o.1 ⟨.load, (s.loc o.1).generation, s.mem.started⟩⟩) ∨
    ∃ m l, BarrierMove o.1 s.mem (s.loc o.1) m l ∧ s' = ⟨m, update s.loc o.1 l⟩ := by
  obtain ⟨t, e⟩ := o
  obtain ⟨m, l, hnext, rfl⟩ := Threads.step_eq_some h
  cases e with
  | call =>
    simp only [barrierThread] at hnext
    split at hnext
    · rw [if_neg hcount] at hnext
      cases hnext
      exact .inl ⟨rfl, ‹_›, rfl⟩
    · cases hnext
  | go => exact .inr ⟨m, l, Barrier.next_move hnext, rfl⟩

/-! ## 3. Groups -/

def BarrierPc.tripping : BarrierPc → Bool
  | .store => true
  | .bump => true
  | _ => false

def BarrierPc.looping : BarrierPc → Bool
  | .check => true
  | .wait => true
  | .parked => true
  | _ => false

/-- A call counts itself in the generation it has loaded and while no group is being
    released; and the generation does not come round to a value that is waited on. -/
structure InTurn (s : Threads T (Barrier T) BarrierLocal) (o : T × BarrierEvent) : Prop where
  current : (s.loc o.1).pc = .arrive → s.mem.generation = (s.loc o.1).generation
  settled : (s.loc o.1).pc = .arrive → ∀ u, (s.loc u).pc.tripping = false
  fresh : (s.loc o.1).pc = .bump → ∀ u, (s.loc u).pc.looping = true →
    s.mem.generation + 1 ≠ (s.loc u).generation

def Barrier.arrived (m : Barrier T) : List Nat := m.groups.flatten ++ m.current

structure BarrierSound (m : Barrier T) : Prop where
  full : ∀ g ∈ m.groups, g.length = m.trip_count.toNat
  nodup : m.arrived.Nodup
  started : ∀ c ∈ m.arrived, c < m.started
  returns : ∀ x ∈ m.returns, ∃ g ∈ m.groups, x.call ∈ g ∧
    (x.rc = .SERIAL_THREAD ↔ g.getLast? = some x.call) ∧ ∀ c ∈ g, c < x.started

inductive BarrierPhase (m : Barrier T) (loc : T → BarrierLocal) : Prop
  | gathering (hnone : ∀ u, (loc u).pc.tripping = false)
      (hcount : m.count.toNat = m.current.length) (hlt : m.current.length < m.trip_count.toNat)
  | tripping (u : T) (hpc : (loc u).pc.tripping = true)
      (hother : ∀ v, v ≠ u → (loc v).pc.tripping = false)
      (hlen : m.current.length = m.trip_count.toNat)
      (hlast : m.current.getLast? = some (loc u).call)
      (hcount : (loc u).pc = .bump → m.count = 0)

inductive BarrierJoined (m : Barrier T) (call : Nat) (generation : UInt32) : Prop
  | released (g : List Nat) (hg : g ∈ m.groups) (hmem : call ∈ g)
      (hlast : g.getLast? ≠ some call) (hne : m.generation ≠ generation)
  | gathering (hmem : call ∈ m.current) (heq : m.generation = generation)
      (hlast : m.current.length = m.trip_count.toNat → m.current.getLast? ≠ some call)

def BarrierFits (m : Barrier T) (l : BarrierLocal) : Prop :=
  match l.pc with
  | .load => l.call ∉ m.arrived
  | .arrive => l.call ∉ m.arrived
  | .wakeAll => ∃ g ∈ m.groups, g.getLast? = some l.call
  | .check => BarrierJoined m l.call l.generation
  | .wait => BarrierJoined m l.call l.generation
  | .parked => BarrierJoined m l.call l.generation
  | _ => True

structure BarrierCalls (m : Barrier T) (loc : T → BarrierLocal) : Prop where
  started : ∀ t, (loc t).pc ≠ .ret → (loc t).call < m.started
  inj : ∀ t u, (loc t).pc ≠ .ret → (loc u).pc ≠ .ret → (loc t).call = (loc u).call → t = u

structure BarrierQueue (m : Barrier T) (loc : T → BarrierLocal) : Prop where
  parked : ∀ t ∈ m.parked, (loc t).pc = .parked
  waker : ∀ t ∈ m.parked, m.generation ≠ (loc t).generation → ∃ u, (loc u).pc = .wakeAll

theorem Barrier.arrived_arrive (m : Barrier T) (call : Nat) :
    (m.arrive call).arrived = m.arrived ++ [call] := by
  simp [Barrier.arrived, Barrier.arrive]

theorem Barrier.arrived_bump (m : Barrier T) : m.bump.arrived = m.arrived := by
  simp [Barrier.arrived, Barrier.bump]

theorem Barrier.mem_arrived {g : List Nat} {c : Nat} (hg : g ∈ m.groups) (hc : c ∈ g) :
    c ∈ m.arrived := List.mem_append_left _ (List.mem_flatten_of_mem hg hc)

theorem BarrierMove.keeps (h : BarrierMove t m l m' l') : l.pc ≠ .ret ∧ l'.call = l.call ∧
    m'.started = m.started ∧ m'.trip_count = m.trip_count := by
  cases h with
  | look l' hlook => cases hlook <;> exact ⟨by simp [*], rfl, rfl, rfl⟩
  | _ => exact ⟨by simp [*], rfl, rfl, rfl⟩

theorem BarrierSound.leave (h : BarrierSound m) {call : Nat} {rc : BarrierRc} {g : List Nat}
    (hg : g ∈ m.groups) (hmem : call ∈ g)
    (hserial : rc = .SERIAL_THREAD ↔ g.getLast? = some call) : BarrierSound (m.leave call rc) := by
  refine ⟨h.full, h.nodup, h.started, fun x hx => ?_⟩
  rcases List.mem_append.mp hx with hold | hnew
  · exact h.returns x hold
  · rw [List.mem_singleton.mp hnew]
    exact ⟨g, hg, hmem, hserial, fun c hc => h.started c (Barrier.mem_arrived hg hc)⟩

theorem BarrierSound.arrive (h : BarrierSound m) {call : Nat} (hnew : call ∉ m.arrived)
    (hstarted : call < m.started) : BarrierSound (m.arrive call) := by
  refine ⟨h.full, ?_, ?_, h.returns⟩
  · rw [Barrier.arrived_arrive]
    simpa using h.nodup.concat hnew
  · intro c hc
    rw [Barrier.arrived_arrive] at hc
    rcases List.mem_append.mp hc with hold | hlast
    · exact h.started c hold
    · exact List.mem_singleton.mp hlast ▸ hstarted

theorem BarrierSound.bump (h : BarrierSound m) (hlen : m.current.length = m.trip_count.toNat) :
    BarrierSound m.bump := by
  refine ⟨?_, ?_, ?_, ?_⟩
  · intro g hg
    rcases List.mem_append.mp hg with hold | hnew
    · exact h.full g hold
    · rw [List.mem_singleton.mp hnew]
      exact hlen
  · rw [Barrier.arrived_bump]
    exact h.nodup
  · rw [Barrier.arrived_bump]
    exact h.started
  · intro x hx
    obtain ⟨g, hg, hrest⟩ := h.returns x hx
    exact ⟨g, List.mem_append_left _ hg, hrest⟩

theorem BarrierPhase.tripper (h : BarrierPhase m loc) (hpc : (loc t).pc.tripping = true) :
    (∀ v, v ≠ t → (loc v).pc.tripping = false) ∧ m.current.length = m.trip_count.toNat ∧
      m.current.getLast? = some (loc t).call ∧ ((loc t).pc = .bump → m.count = 0) := by
  cases h with
  | gathering hnone => simp [hnone t] at hpc
  | tripping u hu hother hlen hlast hcount =>
    obtain rfl : t = u := by
      by_contra hne
      simp [hother t hne] at hpc
    exact ⟨hother, hlen, hlast, hcount⟩

theorem BarrierPhase.settled (h : BarrierPhase m loc) (hnone : ∀ u, (loc u).pc.tripping = false) :
    m.count.toNat = m.current.length ∧ m.current.length < m.trip_count.toNat := by
  cases h with
  | gathering _ hcount hlt => exact ⟨hcount, hlt⟩
  | tripping u hu => simp [hnone u] at hu

theorem Barrier.toNat_count (hcount : m.count.toNat = m.current.length)
    (hlt : m.current.length < m.trip_count.toNat) :
    (m.count + 1).toNat = m.current.length + 1 := by
  have hmax := m.trip_count.toNat_lt
  rw [UInt32.toNat_add, hcount]
  exact Nat.mod_eq_of_lt (by change m.current.length + 1 < 2 ^ 32; omega)

theorem BarrierMove.sound (h : BarrierSound m) (hphase : BarrierPhase m loc)
    (hcalls : BarrierCalls m loc) (hfits : BarrierFits m (loc t))
    (hmove : BarrierMove t m (loc t) m' l') : BarrierSound m' := by
  cases hmove with
  | look => exact h
  | last hpc | join hpc =>
    rw [BarrierFits, hpc] at hfits
    exact h.arrive hfits (hcalls.started t (by simp [hpc]))
  | store | more | park => exact ⟨h.full, h.nodup, h.started, h.returns⟩
  | bump hpc =>
    obtain ⟨-, hlen, -⟩ := hphase.tripper (t := t) (by rw [hpc]; rfl)
    exact h.bump hlen
  | serial hpc =>
    rw [BarrierFits, hpc] at hfits
    obtain ⟨g, hg, hlast⟩ := hfits
    have hwake : BarrierSound m.wake := ⟨h.full, h.nodup, h.started, h.returns⟩
    exact hwake.leave hg (List.mem_of_getLast? hlast) (by simp [hlast])
  | leave hpc hne =>
    rw [BarrierFits, hpc] at hfits
    cases hfits with
    | released g hg hmem hlast => exact h.leave hg hmem (by simp [hlast])
    | gathering _ heq => exact absurd heq hne

variable [DecidableEq T]

theorem BarrierMove.calls (h : BarrierCalls m loc) (hmove : BarrierMove t m (loc t) m' l') :
    BarrierCalls m' (update loc t l') := by
  obtain ⟨hpc, hcall, hstarted, -⟩ := hmove.keeps
  have hsame (u : T) : (update loc t l' u).call = (loc u).call :=
    Threads.forall_update (P := fun u (l : BarrierLocal) => l.call = (loc u).call) hcall (fun _ _ => rfl) u
  have hbusy (u : T) (hu : (update loc t l' u).pc ≠ .ret) : (loc u).pc ≠ .ret := by
    by_cases hut : u = t
    · exact hut ▸ hpc
    · rwa [update_of_ne hut] at hu
  constructor
  · intro u hu
    rw [hsame, hstarted]
    exact h.started u (hbusy u hu)
  · intro u v hu hv heq
    rw [hsame, hsame] at heq
    exact h.inj u v (hbusy u hu) (hbusy v hv) heq

theorem BarrierPhase.keep (h : BarrierPhase m loc) (hpc : (loc t).pc.tripping = false)
    (hpc' : l'.pc.tripping = false) (hcurrent : m'.current = m.current) (hcount : m'.count = m.count)
    (htrip : m'.trip_count = m.trip_count) : BarrierPhase m' (update loc t l') := by
  cases h with
  | gathering hnone hlen hlt =>
    refine .gathering ?_ (by rw [hcurrent, hcount, hlen]) (by rwa [hcurrent, htrip])
    exact Threads.forall_update (P := fun _ (l : BarrierLocal) => l.pc.tripping = false) hpc'
      fun u _ => hnone u
  | tripping u hu hother hlen hlast hzero =>
    have hut : u ≠ t := by
      rintro rfl
      simp [hpc] at hu
    have hsame : update loc t l' u = loc u := update_of_ne hut _ _
    refine .tripping u (by rwa [hsame]) (fun v hv => ?_) (by rwa [hcurrent, htrip])
      (by rwa [hcurrent, hsame]) (by rwa [hsame, hcount])
    exact Threads.forall_update (P := fun v (l : BarrierLocal) => v ≠ u → l.pc.tripping = false)
      (fun _ => hpc') (fun v _ => hother v) v hv

theorem BarrierMove.phase (hpos : 0 < m.trip_count.toNat) (h : BarrierPhase m loc)
    (hsettled : (loc t).pc = .arrive → ∀ u, (loc u).pc.tripping = false)
    (hmove : BarrierMove t m (loc t) m' l') : BarrierPhase m' (update loc t l') := by
  have hquiet (hpc : l'.pc.tripping = false) (hnone : ∀ v, v ≠ t → (loc v).pc.tripping = false) :
      ∀ u, (update loc t l' u).pc.tripping = false :=
    Threads.forall_update (P := fun _ (l : BarrierLocal) => l.pc.tripping = false) hpc hnone
  have hloud (hnone : ∀ v, v ≠ t → (loc v).pc.tripping = false) (v : T) (hv : v ≠ t) :
      (update loc t l' v).pc.tripping = false := by
    rw [update_of_ne hv]
    exact hnone v hv
  cases hmove with
  | look l' hlook =>
    cases hlook with
    | load hpc | again hpc | retry hpc | released hpc =>
      exact h.keep (by rw [hpc]; rfl) rfl rfl rfl rfl
  | last hpc hfull =>
    have hnone := hsettled hpc
    obtain ⟨hcount, hlt⟩ := h.settled hnone
    have hlen := Barrier.toNat_count hcount hlt
    rw [hfull] at hlen
    refine .tripping t (by simp [BarrierLocal.goto, BarrierPc.tripping]) (hloud fun v _ => hnone v)
      ?_ ?_ ?_
    · simp [Barrier.arrive, hlen]
    · simp [Barrier.arrive, BarrierLocal.goto]
    · simp [BarrierLocal.goto]
  | join hpc hmore =>
    have hnone := hsettled hpc
    obtain ⟨hcount, hlt⟩ := h.settled hnone
    have hlen := Barrier.toNat_count hcount hlt
    have hne : m.current.length + 1 ≠ m.trip_count.toNat := by
      intro heq
      exact hmore (UInt32.toNat_inj.mp (hlen.trans heq))
    refine .gathering (hquiet rfl fun v _ => hnone v) ?_ ?_
    · simpa [Barrier.arrive] using hlen
    · change (m.current ++ [_]).length < m.trip_count.toNat
      rw [List.length_append, List.length_singleton]
      omega
  | store hpc =>
    obtain ⟨hother, hlen, hlast, -⟩ := h.tripper (t := t) (by rw [hpc]; rfl)
    refine .tripping t (by simp [BarrierLocal.goto, BarrierPc.tripping]) (hloud hother) hlen ?_ ?_
    · simpa [BarrierLocal.goto] using hlast
    · exact fun _ => rfl
  | bump hpc =>
    obtain ⟨hother, -, -, hcount⟩ := h.tripper (t := t) (by rw [hpc]; rfl)
    have hzero : m.count = 0 := hcount hpc
    refine .gathering (hquiet rfl hother) ?_ hpos
    simp [Barrier.bump, hzero]
  | more hpc => exact h.keep (by rw [hpc]; rfl) (by rw [hpc]; rfl) rfl rfl rfl
  | serial hpc | leave hpc | park hpc => exact h.keep (by rw [hpc]; rfl) rfl rfl rfl rfl

omit [DecidableEq T] in
theorem BarrierMove.fits (h : BarrierFits m (loc t)) (hphase : BarrierPhase m loc)
    (hcurrent : (loc t).pc = .arrive → m.generation = (loc t).generation)
    (hsettled : (loc t).pc = .arrive → ∀ u, (loc u).pc.tripping = false)
    (hmove : BarrierMove t m (loc t) m' l') : BarrierFits m' l' := by
  cases hmove with
  | look l' hlook =>
    cases hlook with
    | load hpc | again hpc | retry hpc | released hpc =>
      rw [BarrierFits, hpc] at h
      exact h
  | last | store | serial | leave => trivial
  | join hpc hmore =>
    obtain ⟨hcount, hlt⟩ := hphase.settled (hsettled hpc)
    have hlen := Barrier.toNat_count hcount hlt
    refine BarrierJoined.gathering ?_ (hcurrent hpc) fun hfull => absurd ?_ hmore
    · simp [Barrier.arrive, BarrierLocal.goto]
    · have hfull : (m.current ++ [(loc t).call]).length = m.trip_count.toNat := hfull
      rw [List.length_append, List.length_singleton] at hfull
      exact UInt32.toNat_inj.mp (hlen.trans hfull)
  | bump hpc =>
    obtain ⟨-, -, hlast, -⟩ := hphase.tripper (t := t) (by rw [hpc]; rfl)
    exact ⟨m.current, List.mem_append_right _ (List.mem_singleton_self _), hlast⟩
  | more hpc =>
    rw [BarrierFits, hpc] at h ⊢
    exact h
  | park hpc =>
    rw [BarrierFits, hpc] at h
    cases h with
    | released g hg hmem hlast hne => exact BarrierJoined.released g hg hmem hlast hne
    | gathering hmem heq hlast => exact BarrierJoined.gathering hmem heq hlast

omit [DecidableEq T] in
theorem BarrierFits.mono (h : BarrierFits m l) (hgroups : m'.groups = m.groups)
    (hcurrent : m'.current = m.current) (hgen : m'.generation = m.generation)
    (htrip : m'.trip_count = m.trip_count) : BarrierFits m' l := by
  have hjoined (h : BarrierJoined m l.call l.generation) :
      BarrierJoined m' l.call l.generation := by
    cases h with
    | released g hg hmem hlast hne =>
      exact .released g (hgroups ▸ hg) hmem hlast (hgen ▸ hne)
    | gathering hmem heq hlast =>
      refine .gathering (hcurrent ▸ hmem) (hgen ▸ heq) ?_
      rwa [hcurrent, htrip]
  have harrived : m'.arrived = m.arrived := by simp [Barrier.arrived, hgroups, hcurrent]
  unfold BarrierFits at h ⊢
  split at h
  · rwa [harrived]
  · rwa [harrived]
  · rwa [hgroups]
  · exact hjoined h
  · exact hjoined h
  · exact hjoined h
  · trivial

omit [DecidableEq T] in
theorem BarrierFits.arrive (h : BarrierFits m l) {call : Nat} (hne : l.pc ≠ .ret → l.call ≠ call) :
    BarrierFits (m.arrive call) l := by
  have hjoined (hne : l.call ≠ call) (h : BarrierJoined m l.call l.generation) :
      BarrierJoined (m.arrive call) l.call l.generation := by
    cases h with
    | released g hg hmem hlast hgen => exact .released g hg hmem hlast hgen
    | gathering hmem heq hlast =>
      refine .gathering (List.mem_append_left _ hmem) heq fun _ => ?_
      simp [Barrier.arrive, hne.symm]
  have hnew (hne : l.call ≠ call) (h : l.call ∉ m.arrived) : l.call ∉ (m.arrive call).arrived := by
    simp [Barrier.arrived_arrive, h, hne]
  obtain ⟨pc, generation, c⟩ := l
  cases pc with
  | load | arrive => exact hnew (hne nofun) h
  | check | wait | parked => exact hjoined (hne nofun) h
  | wakeAll => exact h
  | ret | store | bump => trivial

omit [DecidableEq T] in
theorem BarrierFits.bump (h : BarrierFits m l) (hlen : m.current.length = m.trip_count.toNat)
    (hfresh : l.pc.looping = true → m.generation + 1 ≠ l.generation) : BarrierFits m.bump l := by
  have hjoined (hfresh : m.generation + 1 ≠ l.generation)
      (h : BarrierJoined m l.call l.generation) : BarrierJoined m.bump l.call l.generation := by
    cases h with
    | released g hg hmem hlast =>
      exact .released g (List.mem_append_left _ hg) hmem hlast hfresh
    | gathering hmem _ hlast =>
      have hin : m.current ∈ m.bump.groups := List.mem_append_right _ (List.mem_singleton_self _)
      exact .released m.current hin hmem (hlast hlen) hfresh
  obtain ⟨pc, generation, c⟩ := l
  cases pc with
  | load | arrive =>
    change c ∉ m.bump.arrived
    rw [Barrier.arrived_bump]
    exact h
  | check | wait | parked => exact hjoined (hfresh rfl) h
  | wakeAll =>
    obtain ⟨g, hg, hlast⟩ := h
    exact ⟨g, List.mem_append_left _ hg, hlast⟩
  | ret | store | bump => trivial

omit [DecidableEq T] in
theorem BarrierMove.fits_other {u : T} (hu : u ≠ t) (h : BarrierFits m (loc u))
    (hphase : BarrierPhase m loc) (hcalls : BarrierCalls m loc)
    (hfresh : (loc t).pc = .bump → (loc u).pc.looping = true → m.generation + 1 ≠ (loc u).generation)
    (hmove : BarrierMove t m (loc t) m' l') : BarrierFits m' (loc u) := by
  cases hmove with
  | look => exact h
  | last hpc | join hpc =>
    refine h.arrive fun hbusy heq => hu ?_
    exact hcalls.inj u t hbusy (by simp [hpc]) heq
  | bump hpc =>
    obtain ⟨-, hlen, -⟩ := hphase.tripper (t := t) (by rw [hpc]; rfl)
    exact h.bump hlen (hfresh hpc)
  | store | more | serial | leave | park => exact h.mono rfl rfl rfl rfl

theorem BarrierMove.queue (h : BarrierQueue m loc) (hmove : BarrierMove t m (loc t) m' l') :
    BarrierQueue m' (update loc t l') := by
  -- a thread that is not parked, before and after
  have hstep (hno : t ∉ m.parked) (hparked : ∀ u ∈ m'.parked, u ∈ m.parked)
      (hwaker : ∀ u ∈ m'.parked, m'.generation ≠ (loc u).generation →
        ∃ w, (update loc t l' w).pc = .wakeAll) :
      BarrierQueue m' (update loc t l') := by
    have hne {u : T} (hu : u ∈ m'.parked) : u ≠ t := ne_of_mem_of_not_mem (hparked u hu) hno
    constructor
    · intro u hu
      rw [update_of_ne (hne hu)]
      exact h.parked u (hparked u hu)
    · intro u hu hgen
      rw [update_of_ne (hne hu)] at hgen
      exact hwaker u hu hgen
  have hnotin (hpc : (loc t).pc ≠ .parked) : t ∉ m.parked := fun hmem => hpc (h.parked t hmem)
  have hwakes (hpc : (loc t).pc ≠ .wakeAll) (u : T) (hu : u ∈ m.parked)
      (hgen : m.generation ≠ (loc u).generation) : ∃ w, (update loc t l' w).pc = .wakeAll := by
    have hex := Threads.exists_update (P := fun _ (l : BarrierLocal) => l.pc = .wakeAll) (l := l')
      (R := False) (h.waker u hu hgen) fun hself => absurd hself hpc
    exact hex.resolve_right id
  cases hmove with
  | look l' hlook =>
    cases hlook with
    | load hpc | again hpc | retry hpc =>
      exact hstep (hnotin (by simp [hpc])) (fun _ => id) (hwakes (by simp [hpc]))
    | released hpc hno => exact hstep hno (fun _ => id) (hwakes (by simp [hpc]))
  | last hpc | join hpc | store hpc | leave hpc =>
    exact hstep (hnotin (by simp [hpc])) (fun _ => id) (hwakes (by simp [hpc]))
  | bump hpc =>
    refine hstep (hnotin (by simp [hpc])) (fun _ => id) fun _ _ _ => ⟨t, ?_⟩
    rw [update_self]
    rfl
  | more hpc =>
    refine hstep (hnotin (by simp [hpc])) (fun _ => List.mem_of_mem_drop) fun _ _ _ => ⟨t, ?_⟩
    rwa [update_self]
  | serial hpc hlast =>
    have hnone : (m.wake.leave (loc t).call .SERIAL_THREAD).parked = [] := drop_min hlast
    refine hstep (hnotin (by simp [hpc])) (fun _ => List.mem_of_mem_drop) fun u hu => ?_
    rw [hnone] at hu
    cases hu
  | park hpc heq =>
    have hno := hnotin (by simp [hpc])
    constructor
    · intro u hu
      rcases List.mem_append.mp hu with hold | hnew
      · rw [update_of_ne (ne_of_mem_of_not_mem hold hno)]
        exact h.parked u hold
      · rw [List.mem_singleton.mp hnew, update_self]
        rfl
    · intro u hu hgen
      rcases List.mem_append.mp hu with hold | hnew
      · rw [update_of_ne (ne_of_mem_of_not_mem hold hno)] at hgen
        exact hwakes (by simp [hpc]) u hold hgen
      · rw [List.mem_singleton.mp hnew, update_self] at hgen
        exact absurd heq hgen

/-! ## 4. Every run -/

variable {n : UInt32}

structure BarrierInv (n : UInt32) (s : Threads T (Barrier T) BarrierLocal) : Prop where
  trip_count : s.mem.trip_count = n
  sound : BarrierSound s.mem
  phase : BarrierPhase s.mem s.loc
  fits : ∀ t, BarrierFits s.mem (s.loc t)
  calls : BarrierCalls s.mem s.loc
  queue : BarrierQueue s.mem s.loc

omit [DecidableEq T] in
theorem barrierBoot_inv (hn : 0 < n.toNat) : BarrierInv n (barrierBoot T n) where
  trip_count := rfl
  sound := ⟨nofun, List.nodup_nil, nofun, nofun⟩
  phase := .gathering (fun _ => rfl) rfl hn
  fits := fun _ => trivial
  calls := ⟨fun _ hret => absurd rfl hret, fun _ _ hret => absurd rfl hret⟩
  queue := ⟨nofun, nofun⟩

theorem BarrierCalls.begin {g : UInt32} (h : BarrierCalls m loc) :
    BarrierCalls m.begin (update loc t ⟨.load, g, m.started⟩) := by
  have hold {u : T} (hu : (loc u).pc ≠ .ret) : (loc u).call ≠ m.started :=
    Nat.ne_of_lt (h.started u hu)
  constructor
  · refine Threads.forall_update
      (P := fun _ (l : BarrierLocal) => l.pc ≠ .ret → l.call < m.started + 1) ?_ ?_
    · exact fun _ => Nat.lt_succ_self _
    · exact fun u _ hu => Nat.lt_succ_of_lt (h.started u hu)
  · intro u v hu hv heq
    by_cases hut : u = t
    · subst hut
      by_contra hvu
      rw [update_of_ne (Ne.symm hvu)] at hv heq
      rw [update_self] at heq
      exact hold hv heq.symm
    · rw [update_of_ne hut] at hu heq
      by_cases hvt : v = t
      · rw [hvt, update_self] at heq
        exact absurd heq (hold hu)
      · rw [update_of_ne hvt] at hv heq
        exact h.inj u v hu hv heq

theorem BarrierQueue.begin {g : UInt32} (h : BarrierQueue m loc) (hpc : (loc t).pc = .ret) :
    BarrierQueue m.begin (update loc t ⟨.load, g, m.started⟩) := by
  have hno : t ∉ m.parked := fun hmem => by cases hpc.symm.trans (h.parked t hmem)
  constructor
  · intro u hu
    rw [update_of_ne (ne_of_mem_of_not_mem hu hno)]
    exact h.parked u hu
  · intro u hu hgen
    rw [update_of_ne (ne_of_mem_of_not_mem hu hno)] at hgen
    obtain ⟨w, hw⟩ := h.waker u hu hgen
    have hwt : w ≠ t := by
      rintro rfl
      cases hpc.symm.trans hw
    exact ⟨w, by rwa [update_of_ne hwt]⟩

theorem BarrierInv.begin (h : BarrierInv n s) (hpc : (s.loc t).pc = .ret) :
    BarrierInv n ⟨s.mem.begin,
      update s.loc t ⟨.load, (s.loc t).generation, s.mem.started⟩⟩ := by
  refine ⟨h.trip_count, ⟨h.sound.full, h.sound.nodup, ?_, h.sound.returns⟩, ?_, ?_, ?_, ?_⟩
  · intro c hc
    exact Nat.lt_succ_of_lt (h.sound.started c hc)
  · exact h.phase.keep (by rw [hpc]; rfl) rfl rfl rfl rfl
  · refine Threads.forall_update (P := fun _ (l : BarrierLocal) => BarrierFits s.mem.begin l) ?_
      fun u _ => (h.fits u).mono rfl rfl rfl rfl
    intro hmem
    exact Nat.lt_irrefl _ (h.sound.started _ hmem)
  · exact h.calls.begin
  · exact h.queue.begin hpc

theorem BarrierInv.step {o : T × BarrierEvent} (hpos : 0 < n.toNat) (h : BarrierInv n s)
    (hturn : InTurn s o) (hstep : Threads.step barrierThread s o = some s') : BarrierInv n s' := by
  have hpos : 0 < s.mem.trip_count.toNat := h.trip_count ▸ hpos
  have hcount : s.mem.trip_count ≠ 0 := by
    intro hzero
    rw [hzero] at hpos
    exact Nat.lt_irrefl 0 hpos
  rcases barrierStep_cases hcount hstep with ⟨-, hpc, rfl⟩ | ⟨m, l, hmove, rfl⟩
  · exact h.begin hpc
  · obtain ⟨-, -, -, htrip⟩ := hmove.keeps
    refine ⟨htrip.trans h.trip_count, ?_, ?_, ?_, ?_, ?_⟩
    · exact hmove.sound h.sound h.phase h.calls (h.fits o.1)
    · exact hmove.phase hpos h.phase hturn.settled
    · refine Threads.forall_update (P := fun _ (l : BarrierLocal) => BarrierFits m l) ?_ ?_
      · exact hmove.fits (h.fits o.1) h.phase hturn.current hturn.settled
      · intro u hu
        exact hmove.fits_other hu (h.fits u) h.phase h.calls fun hpc => hturn.fresh hpc u
    · exact hmove.calls h.calls
    · exact hmove.queue h.queue

/-- The calls that have returned, in disjoint groups of `n`: one of each is the serial
    one, and none returned before all of its group had started. -/
def Grouped (n : Nat) (m : Barrier T) : Prop :=
  ∃ groups : List (List Nat), groups.flatten.Nodup ∧ (∀ x ∈ m.returns, ∃ g ∈ groups, x.call ∈ g) ∧
    ∀ g ∈ groups, g.length = n ∧ ∃ c ∈ g, ∀ x ∈ m.returns, x.call ∈ g →
      (x.rc = .SERIAL_THREAD ↔ x.call = c) ∧ ∀ d ∈ g, d < x.started

def BarrierWaiting (s : Threads T (Barrier T) BarrierLocal) (t : T) : Prop :=
  t ∈ s.mem.parked ∨
    ((s.loc t).pc = .check ∨ (s.loc t).pc = .wait) ∧ s.mem.generation = (s.loc t).generation

def BarrierPc.releasing : BarrierPc → Bool
  | .store => true
  | .bump => true
  | .wakeAll => true
  | _ => false

omit [DecidableEq T] in
theorem BarrierSound.grouped (h : BarrierSound m) (hpos : 0 < m.trip_count.toNat) :
    Grouped m.trip_count.toNat m := by
  have hnodup : m.groups.flatten.Nodup := h.nodup.of_append_left
  -- a call is in one group
  have honly {g g' : List Nat} (hg : g ∈ m.groups) (hg' : g' ∈ m.groups) {c : Nat} (hc : c ∈ g)
      (hc' : c ∈ g') : g = g' := by
    by_contra hne
    have : Std.Symm (@List.Disjoint Nat) := ⟨fun _ _ h _ hb ha => h ha hb⟩
    exact (List.nodup_flatten.mp hnodup).2.forall hg hg' hne hc hc'
  refine ⟨m.groups, hnodup, ?_, ?_⟩
  · intro x hx
    obtain ⟨g, hg, hmem, -⟩ := h.returns x hx
    exact ⟨g, hg, hmem⟩
  · intro g hg
    have hlen := h.full g hg
    have hne : g ≠ [] := List.ne_nil_of_length_pos (by omega)
    refine ⟨hlen, g.getLast hne, List.getLast_mem hne, ?_⟩
    intro x hx hmem
    obtain ⟨g', hg', hmem', hserial, hstarted⟩ := h.returns x hx
    obtain rfl := honly hg hg' hmem hmem'
    refine ⟨?_, hstarted⟩
    rw [hserial, List.getLast?_eq_some_getLast hne, Option.some_inj]
    exact eq_comm

omit [DecidableEq T] in
theorem BarrierInv.mem_current (h : BarrierInv n s) (hnone : ∀ u, (s.loc u).pc.releasing = false)
    (ht : BarrierWaiting s t) : (s.loc t).pc ≠ .ret ∧ (s.loc t).call ∈ s.mem.current := by
  have hgen : s.mem.generation = (s.loc t).generation := by
    rcases ht with hparked | ⟨-, hgen⟩
    · by_contra hne
      obtain ⟨u, hu⟩ := h.queue.waker t hparked hne
      have hrel := hnone u
      rw [hu] at hrel
      cases hrel
    · exact hgen
  have hpc : (s.loc t).pc = .check ∨ (s.loc t).pc = .wait ∨ (s.loc t).pc = .parked := by
    rcases ht with hparked | ⟨hcheck | hwait, -⟩
    · exact .inr (.inr (h.queue.parked t hparked))
    · exact .inl hcheck
    · exact .inr (.inl hwait)
  have hjoined : BarrierJoined s.mem (s.loc t).call (s.loc t).generation := by
    have hfits := h.fits t
    unfold BarrierFits at hfits
    rcases hpc with hpc | hpc | hpc <;> simpa only [hpc] using hfits
  constructor
  · rcases hpc with hpc | hpc | hpc <;> simp [hpc]
  · cases hjoined with
    | released _ _ _ _ hne => exact absurd hgen hne
    | gathering hmem => exact hmem

/-- Barriers release complete groups, where the calls arrive in turn; and where
    `trip_count` or more wait, one is still releasing them. -/
theorem barrier_releases_groups {os : List (T × BarrierEvent)} (hn : 1 ≤ n)
    (hrun : Run (Threads.step barrierThread) InTurn (barrierBoot T n) os s) :
    Grouped n.toNat s.mem ∧ ∀ ts : List T, ts.Nodup → (∀ t ∈ ts, BarrierWaiting s t) →
      n.toNat ≤ ts.length → ∃ u, (s.loc u).pc.releasing = true := by
  have hpos : 0 < n.toNat := UInt32.le_iff_toNat_le.mp hn
  have h : BarrierInv n s :=
    hrun.invariant (P := BarrierInv n) (barrierBoot_inv hpos) fun _ _ _ h hturn hstep =>
      h.step hpos hturn hstep
  constructor
  · have hgrouped := h.sound.grouped (h.trip_count ▸ hpos)
    rwa [h.trip_count] at hgrouped
  · intro ts hnodup hwait hle
    by_contra hno
    have hnone (u : T) : (s.loc u).pc.releasing = false := by
      by_contra hu
      exact hno ⟨u, by simpa using hu⟩
    have hin {t : T} (ht : t ∈ ts) := h.mem_current hnone (hwait t ht)
    have hsettled (u : T) : (s.loc u).pc.tripping = false := by
      have hu := hnone u
      cases hpc : (s.loc u).pc <;> simp_all [BarrierPc.releasing, BarrierPc.tripping]
    obtain ⟨-, hlt⟩ := h.phase.settled hsettled
    have hcalls : (ts.map fun t => (s.loc t).call).Nodup := by
      refine hnodup.map_on fun t ht u hu heq => ?_
      exact h.calls.inj t u (hin ht).1 (hin hu).1 heq
    have hsub : (ts.map fun t => (s.loc t).call) ⊆ s.mem.current := by
      intro c hc
      obtain ⟨t, ht, rfl⟩ := List.mem_map.mp hc
      exact (hin ht).2
    have hlen := (hcalls.subperm hsub).length_le
    rw [List.length_map] at hlen
    rw [h.trip_count] at hlt
    omega

end

def calls {T : Type} (n : Nat) (t : T) : List (T × BarrierEvent) :=
  (t, .call) :: List.replicate n (t, .go)

/-- A barrier of two: thread 0 has parked, thread 1 has still to wake it, and thread 2
    has parked in the next group. -/
theorem barrier_releases_groups_three : ∃ s,
    Run (Threads.step barrierThread) InTurn (barrierBoot (Fin 3) 2)
      (calls 4 0 ++ calls 4 1 ++ calls 4 2) s ∧
    s.mem.parked = [0, 2] ∧ Grouped 2 s.mem ∧ ∃ u, (s.loc u).pc.releasing = true := by
  refine Run.exists_imp (P := fun s => s.mem.parked = [0, 2]) ?_ fun s hrun hparked => ?_
  · refine Run.exists_of_checked (I := fun _ => True) (fun s o => decide
      (((s.loc o.1).pc = .arrive → s.mem.generation = (s.loc o.1).generation) ∧
        ((s.loc o.1).pc = .arrive → ∀ u, (s.loc u).pc.tripping = false) ∧
        ((s.loc o.1).pc = .bump → ∀ u, (s.loc u).pc.looping = true →
          s.mem.generation + 1 ≠ (s.loc u).generation))) trivial
      (fun s o _ hok => ?_) (fun _ _ _ _ _ _ => trivial) (by decide +kernel)
    obtain ⟨hcurrent, hsettled, hfresh⟩ := of_decide_eq_true hok
    exact ⟨hcurrent, hsettled, hfresh⟩
  obtain ⟨hgrouped, hreleased⟩ := barrier_releases_groups (by decide) hrun
  refine ⟨hparked, hgrouped, hreleased [0, 2] (by decide) ?_ (Nat.le_refl 2)⟩
  intro t ht
  exact .inl (by rwa [hparked])

/-- A barrier of one: thread 1 counts itself between the last arrival and the reset, and
    leaves in no group. -/
theorem barrier_late_arrival : ∃ s,
    Run (Threads.step barrierThread) (fun _ _ => True) (barrierBoot (Fin 2) 1)
      (calls 2 0 ++ calls 2 1 ++ [(0, .go), (0, .go), (0, .go), (1, .go)]) s ∧
    (∀ t, (s.loc t).pc = .ret) ∧ ¬ Grouped 1 s.mem := by
  refine Run.exists_imp (P := fun s => (∀ t, (s.loc t).pc = .ret) ∧
    s.mem.returns = [⟨0, .SERIAL_THREAD, 2⟩, ⟨1, .ok, 2⟩]) ?_ fun s _ ⟨hret, hreturns⟩ => ?_
  · exact Run.exists_of_eval (fun _ _ _ => trivial) (by decide +kernel)
  refine ⟨hret, ?_⟩
  rintro ⟨groups, -, hin, hgroups⟩
  rw [hreturns] at hin hgroups
  obtain ⟨g, hg, hmem⟩ := hin ⟨1, .ok, 2⟩ (by decide)
  obtain ⟨hlen, c, hc, hserial⟩ := hgroups g hg
  obtain ⟨d, rfl⟩ := List.length_eq_one_iff.mp hlen
  obtain rfl : 1 = d := List.mem_singleton.mp hmem
  obtain rfl : c = 1 := List.mem_singleton.mp hc
  have hrc := (hserial ⟨1, .ok, 2⟩ (by decide) hmem).1.mpr rfl
  cases hrc

end GovinDos.Pthread
