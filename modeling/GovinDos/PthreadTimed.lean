/-
  **Timed calls and the clock (`nanosleep`, `pthread_mutex_timedlock`,
  `pthread_cond_timedwait`).**

  A time is scaled to nanoseconds, and for `nanosleep` added to the clock, in 64 bits: where
  the result does not fit, the deadline may be one long past.
-/
import GovinDos.PthreadCond

namespace GovinDos.Pthread

/-! ## 1. The model -/

def Timespec.ns (ts : Timespec) : Int := ts.tv_sec * 1000000000 + ts.tv_nsec

structure Timespec.Valid (ts : Timespec) : Prop where
  sec : 0 ≤ ts.tv_sec
  nsec : 0 ≤ ts.tv_nsec
  below : ts.tv_nsec < 1000000000

/-- The loop of `nanosleep`, over what `sys_gettime` returns: the reading it ends at. -/
def sleepUntil (deadline : UInt64) : List UInt64 → Option UInt64
  | [] => none
  | now :: readings => if now < deadline then sleepUntil deadline readings else some now

def nanosleep (req : Timespec) (start : UInt64) (readings : List UInt64) : Option (Rc × UInt64) :=
  if req.tv_sec < 0 ∨ req.tv_nsec < 0 ∨ req.tv_nsec ≥ 1000000000 then some (.EINVAL, start)
  else
    let duration := UInt64.ofInt req.tv_sec * 1000000000 + UInt64.ofInt req.tv_nsec
    let deadline := start + duration
    (sleepUntil (if deadline = 0 then 1 else deadline) readings).map (.ok, ·)

@[simp] def CondLocal.parkedUntil (l : CondLocal) : Option UInt64 :=
  match l.pc, l.mutex.pc with
  | .mutex _, .parked deadline => some deadline
  | .waitParked _ deadline, _ => some deadline
  | _, _ => none

/-- A thread's next access finds memory as it may be by then, or the timer ends its
    park; the clock goes on. -/
inductive TimedEvent (T : Type) where
  | go (m : CondMem T)
  | expire (m : CondMem T)
  | tick (now : UInt64)

section

variable {T : Type} [DecidableEq T]

/-- A thread and the clock, whatever the other threads do.  The timer ends a park only
    when the clock has reached its deadline. -/
def timedStep (t : T) (s : CondLocal × UInt64) : TimedEvent T → Option (CondLocal × UInt64)
  | .go m => (condNext t m s.1 false).map fun r => (r.2, s.2)
  | .expire m =>
    if s.1.parkedUntil.any (s.2 < ·) then none
    else (condNext t m s.1 true).map fun r => (r.2, s.2)
  | .tick now => if s.2 ≤ now then some (s.1, now) else none

/-! ## 2. Deadlines -/

theorem toNat_ofInt {x : Int} (h : 0 ≤ x) : (UInt64.ofInt x).toNat = x.toNat % 2 ^ 64 := by
  rw [UInt64.ofInt, UInt64.toNat_ofNat']
  omega

theorem toNat_scaled (ts : Timespec) (h : ts.Valid) :
    (UInt64.ofInt ts.tv_sec * 1000000000 + UInt64.ofInt ts.tv_nsec).toNat =
      ts.ns.toNat % 2 ^ 64 := by
  have hsec := h.sec
  have hnsec := h.nsec
  have hscale : (1000000000 : UInt64).toNat = 1000000000 := rfl
  rw [UInt64.toNat_add, UInt64.toNat_mul, toNat_ofInt hsec, toNat_ofInt hnsec, Timespec.ns, hscale]
  omega

theorem ns_le_of_abstimeToDeadline {abstime : Timespec} {deadline : UInt64}
    (h : abstimeToDeadline abstime = some deadline) (hfits : abstime.ns < 2 ^ 64) :
    abstime.ns ≤ deadline.toNat := by
  unfold abstimeToDeadline at h
  split at h
  · cases h
  rename_i hvalid
  have hscaled := toNat_scaled abstime ⟨by omega, by omega, by omega⟩
  simp only [Option.some_inj] at h
  split at h
  · rename_i hzero
    rw [hzero] at hscaled
    have hone : deadline.toNat = 1 := h ▸ rfl
    have hnone : (0 : UInt64).toNat = 0 := rfl
    omega
  · rw [← h]
    omega

theorem le_of_sleepUntil {deadline now : UInt64} {readings : List UInt64}
    (h : sleepUntil deadline readings = some now) : deadline ≤ now := by
  induction readings with
  | nil => cases h
  | cons reading readings ih =>
    rw [sleepUntil] at h
    split at h
    · exact ih h
    · rename_i hpast
      cases h
      exact UInt64.not_lt.mp hpast

theorem nanosleep_long_iff {req : Timespec} (hreq : req.Valid) (start : UInt64) :
    (∀ readings now, nanosleep req start readings = some (.ok, now) →
      start.toNat + req.ns ≤ now.toNat) ↔ start.toNat + req.ns < 2 ^ 64 := by
  obtain ⟨hsec, hnsec, hbelow⟩ := hreq
  have hns : 0 ≤ req.ns := by
    rw [Timespec.ns]
    omega
  have hscaled := toNat_scaled req ⟨hsec, hnsec, hbelow⟩
  have hvalid : ¬ (req.tv_sec < 0 ∨ req.tv_nsec < 0 ∨ req.tv_nsec ≥ 1000000000) := by omega
  simp only [nanosleep, if_neg hvalid, Option.map_eq_some_iff, Prod.mk.injEq, true_and,
    exists_eq_right]
  generalize UInt64.ofInt req.tv_sec * 1000000000 + UInt64.ofInt req.tv_nsec = duration at hscaled ⊢
  have hsum := UInt64.toNat_add start duration
  constructor
  · intro hlong
    -- a clock at its end is past every deadline
    have hend := hlong [UInt64.ofNat (2 ^ 64 - 1)] _ (if_neg ?_)
    · rw [UInt64.toNat_ofNat'] at hend
      omega
    · rw [UInt64.not_lt, UInt64.le_iff_toNat_le]
      exact Nat.le_of_lt_succ (UInt64.toNat_lt _)
  · intro hfits readings now hnow
    have hle := UInt64.le_iff_toNat_le.mp (le_of_sleepUntil hnow)
    have hone : (1 : UInt64).toNat = 1 ∧ (0 : UInt64).toNat = 0 := ⟨rfl, rfl⟩
    split at hle
    · rename_i hzero
      rw [hzero] at hsum
      omega
    · omega

/-! ## 3. What a place remembers -/

@[simp] def MutexPc.deadlines : MutexPc → List UInt64
  | .tryLocked (.lock deadline) | .tryOwner (.lock deadline) | .tryOwn (.lock deadline)
  | .tryCas (.lock deadline) | .load deadline | .cas0 deadline | .cas1 deadline | .wait deadline
  | .parked deadline => [deadline]
  | _ => []

@[simp] def After.deadlines : After → List UInt64
  | .wait _ deadline => [deadline]
  | _ => []

@[simp] def CondLocal.deadlines (l : CondLocal) : List UInt64 :=
  match l.pc with
  | .mutex k => k.deadlines ++ l.mutex.pc.deadlines
  | .waitLoad deadline | .waitRecord _ deadline | .waitCheck _ deadline | .waitFutex _ deadline
  | .waitParked _ deadline => [deadline]
  | _ => []

@[simp] def CondLocal.TimedOut (l : CondLocal) : Prop :=
  match l.pc with
  | .ret rc => rc = .ETIMEDOUT
  | .mutex k => k = .relock .ETIMEDOUT ∨ l.mutex.pc = .ret .ETIMEDOUT
  | _ => False

variable {t : T} {expire : Bool}

theorem Mutex.next_deadlines {m m' : Mutex T} {l l' : MutexLocal}
    (h : m.next t l expire = some (m', l')) : (∀ d ∈ l'.pc.deadlines, d ∈ l.pc.deadlines) ∧
      (l'.pc = .ret .ETIMEDOUT → expire = true ∧ ∃ d ≠ 0, l.pc = .parked d) := by
  obtain ⟨pc, nest⟩ := l
  cases pc <;> simp only [Mutex.next, MutexLocal.goto] at h
  case tryLocked k | tryOwner k | tryOwn k | tryCas k =>
    cases k <;> (repeat' split at h) <;> simp at h <;> obtain ⟨-, rfl⟩ := h <;>
      simp [Caller.busy]
  all_goals
    (repeat' split at h) <;> simp at h <;> obtain ⟨-, rfl⟩ := h <;> simp_all

theorem condNext_deadlines {m m' : CondMem T} {l l' : CondLocal}
    (h : condNext t m l expire = some (m', l')) :
    (∀ d ∈ l'.deadlines, d = 0 ∨ d ∈ l.deadlines) ∧
      (l'.TimedOut → l.TimedOut ∨
        expire = true ∧ ∃ d ≠ 0, l.parkedUntil = some d ∧ d ∈ l.deadlines) := by
  obtain ⟨pc, ml⟩ := l
  cases pc with
  | mutex k =>
    simp only [condNext] at h
    split at h
    · rename_i rc hret
      cases h
      cases k with
      | program => exact ⟨by simp [CondLocal.goto, After.resume], fun hend => .inl (.inr (hret.trans (congrArg _ hend)))⟩
      | wait sequence deadline =>
        by_cases hrc : rc = .ok
        · simp [CondLocal.goto, After.resume, hrc]
        · refine ⟨by simp [CondLocal.goto, After.resume, hrc], fun hend => ?_⟩
          simp_all [CondLocal.goto, After.resume]
      | relock wait_rc =>
        refine ⟨by simp [CondLocal.goto, After.resume], fun hend => .inl ?_⟩
        by_cases hrc : rc = .ok <;> simp_all [CondLocal.goto, After.resume]
    · obtain ⟨⟨x, ml'⟩, hnext, heq⟩ := Option.map_eq_some_iff.mp h
      cases heq
      obtain ⟨hkeep, hend⟩ := Mutex.next_deadlines hnext
      refine ⟨fun d hd => ?_, ?_⟩
      · rcases List.mem_append.mp hd with hd | hd
        · exact .inr (List.mem_append_left _ hd)
        · exact .inr (List.mem_append_right _ (hkeep d hd))
      · rintro (hk | hret)
        · exact .inl (.inl hk)
        · obtain ⟨hexp, d, hd, hparked⟩ := hend hret
          simp [hexp, hparked, hd]
  | requeue sequence moved =>
    have hafter (n : Nat) : (∀ d ∈ (⟨afterRequeue n, ml⟩ : CondLocal).deadlines, d = 0) ∧
        ¬ (⟨afterRequeue n, ml⟩ : CondLocal).TimedOut := by
      unfold afterRequeue
      split <;> simp
    simp only [condNext] at h
    (repeat' split at h) <;> cases h
    · simp [CondLocal.goto]
    · exact ⟨fun d hd => .inl ((hafter _).1 d hd), fun hend => absurd hend (hafter _).2⟩
    · exact ⟨fun d hd => .inl ((hafter _).1 d hd), fun hend => absurd hend (hafter _).2⟩
  | _ =>
    simp only [condNext] at h
    (repeat' split at h) <;> simp at h <;> obtain ⟨-, rfl⟩ := h <;>
      simp_all [CondLocal.goto, CondLocal.enter, CondLocal.relock, MutexLocal.goto]

/-! ## 4. Runs -/

structure Punctual (deadline : UInt64) (s : CondLocal × UInt64) : Prop where
  due : ∀ d ∈ s.1.deadlines, d = 0 ∨ d = deadline
  ended : s.1.TimedOut → deadline ≤ s.2

theorem Punctual.next {deadline now : UInt64} {m m' : CondMem T} {l l' : CondLocal}
    (h : Punctual deadline (l, now)) (hnext : condNext t m l expire = some (m', l'))
    (hexpire : expire = true → ∀ d, l.parkedUntil = some d → d ≤ now) :
    Punctual deadline (l', now) := by
  obtain ⟨hkeep, hend⟩ := condNext_deadlines hnext
  constructor
  · intro d hd
    rcases hkeep d hd with hzero | hd
    · exact .inl hzero
    · exact h.due d hd
  · intro hout
    rcases hend hout with hout | ⟨hexp, d, hne, hparked, hd⟩
    · exact h.ended hout
    · rcases h.due d hd with hzero | rfl
      · exact absurd hzero hne
      · exact hexpire hexp d hparked

theorem Punctual.step {deadline : UInt64} {s s' : CondLocal × UInt64} {e : TimedEvent T}
    (h : Punctual deadline s) (hstep : timedStep t s e = some s') : Punctual deadline s' := by
  cases e with
  | go m =>
    obtain ⟨r, hnext, rfl⟩ := Option.map_eq_some_iff.mp hstep
    exact h.next hnext nofun
  | expire m =>
    rw [timedStep] at hstep
    split at hstep
    · cases hstep
    rename_i hpast
    obtain ⟨r, hnext, rfl⟩ := Option.map_eq_some_iff.mp hstep
    refine h.next hnext fun _ d hd => ?_
    rw [hd] at hpast
    simpa using hpast
  | tick now =>
    rw [timedStep] at hstep
    split at hstep
    · rename_i hle
      cases hstep
      exact ⟨h.due, fun hout => UInt64.le_trans (h.ended hout) hle⟩
    · cases hstep

theorem punctual_enter {abstime : Timespec} {deadline : UInt64} {c : CondCall} (l : CondLocal)
    (now : UInt64) (hc : c = .mutex (.timedlock abstime) ∨ c = .timedwait abstime)
    (hd : abstimeToDeadline abstime = some deadline) : Punctual deadline (c.enter l, now) := by
  rcases hc with rfl | rfl
  · constructor <;> simp [CondCall.enter, CondLocal.enter, MutexCall.enter, hd, MutexLocal.goto]
  · constructor <;> simp [CondCall.enter, hd, CondLocal.goto]

/-- A sleep that ends has lasted, exactly where the clock and the duration together fit
    into 64 bits; and a call given a time that fits times out no earlier. -/
theorem timed_calls_not_early (t : T) (req : Timespec) (hreq : req.Valid) :
    (∀ start : UInt64, (∀ readings now, nanosleep req start readings = some (.ok, now) →
      start.toNat + req.ns ≤ now.toNat) ↔ start.toNat + req.ns < 2 ^ 64) ∧
    (req.ns < 2 ^ 64 → ∀ c : CondCall, c = .mutex (.timedlock req) ∨ c = .timedwait req →
      ∀ (l l' : CondLocal) (now now' : UInt64) (es : List (TimedEvent T)),
      Run (timedStep t) (fun _ _ => True) (c.enter l, now) es (l', now') →
        l'.pc = .ret .ETIMEDOUT → req.ns ≤ now'.toNat) := by
  refine ⟨nanosleep_long_iff hreq, fun hfits c hc l l' now now' es hrun hret => ?_⟩
  obtain ⟨deadline, hd⟩ : ∃ deadline, abstimeToDeadline req = some deadline :=
    ⟨_, if_neg (by have := hreq.sec; have := hreq.nsec; have := hreq.below; omega)⟩
  have hend := hrun.invariant (punctual_enter l now hc hd) fun _ _ _ h _ hstep => h.step hstep
  have hpast : deadline ≤ now' := hend.ended (by simp [hret])
  rw [UInt64.le_iff_toNat_le] at hpast
  have := ns_le_of_abstimeToDeadline hd hfits
  omega

theorem nanosleep_one_second : Timespec.Valid ⟨1, 0⟩ ∧
    ∀ readings now, nanosleep ⟨1, 0⟩ 7 readings = some (.ok, now) → (1000000007 : Int) ≤ now.toNat := by
  have hvalid : Timespec.Valid ⟨1, 0⟩ := ⟨by decide, by decide, by decide⟩
  exact ⟨hvalid, ((timed_calls_not_early () ⟨1, 0⟩ hvalid).1 7).mpr (by decide)⟩

/-- A sleep of `2 ^ 55` seconds ends at once: `2 ^ 55 * 10 ^ 9` is a multiple of
    `2 ^ 64`. -/
theorem nanosleep_early :
    nanosleep ⟨2 ^ 55, 0⟩ 5 [5] = some (.ok, 5) ∧ (5 : Int) < 5 + (⟨2 ^ 55, 0⟩ : Timespec).ns := by
  decide +kernel

end

end GovinDos.Pthread
