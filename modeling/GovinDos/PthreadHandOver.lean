/-
  **Who wakes the threads a broadcast has moved to the mutex.**

  A thread that comes back from a wait takes the mutex with the compare-and-swap of trylock,
  without the mark, so its unlock does not wake the next moved one.
-/
import GovinDos.PthreadBroadcast

namespace GovinDos.Pthread

open Function

variable {T : Type} [DecidableEq T] {t : T} {m m' : CondMem T} {l l' : CondLocal}
  {s s' : Threads T (CondMem T) CondLocal}

/-! ## 1. The mutex of a program with a condition variable -/

def mutexes (loc : T → CondLocal) (t : T) : MutexLocal := (loc t).mutex

theorem mutexes_update (loc : T → CondLocal) (t : T) (l : CondLocal) :
    mutexes (update loc t l) = update (mutexes loc) t l.mutex :=
  comp_update CondLocal.mutex loc t l

def MutexPc.returned : MutexPc → Bool
  | .ret _ => true
  | _ => false

inductive Unlocking : MutexPc → Nat → Prop
  | unlock : Unlocking .unlock 1
  | owner : Unlocking .unlockOwner 1
  | recursion : Unlocking .unlockRecursion 1
  | store : Unlocking .unlockStore 1
  | xchg : Unlocking .unlockXchg 1
  | wake : Unlocking .unlockWake 0
  | done : Unlocking (.ret .ok) 0
  | failed (rc : Rc) (n : Nat) (h : rc ≠ .ok) : Unlocking (.ret rc) n

def CondFits : CondPc → MutexLocal → Prop
  | .mutex (.wait _ _), x => Unlocking x.pc x.nest
  | .mutex _, _ => True
  | .waitLoad _, x => x.pc.returned = true ∧ x.nest = 1
  | .waitRecord _ _, x => x.pc.returned = true ∧ x.nest = 1
  | .waitCheck _ _, x => x.pc.returned = true ∧ x.nest = 0
  | .waitFutex _ _, x => x.pc.returned = true ∧ x.nest = 0
  | .waitParked _ _, x => x.pc.returned = true ∧ x.nest = 0
  | _, x => x.pc.returned = true

theorem CondFits.returned {pc : CondPc} {x : MutexLocal} (h : CondFits pc x)
    (hpc : ∀ k, pc ≠ .mutex k) : x.pc.returned = true := by
  cases pc with
  | mutex k => exact absurd rfl (hpc k)
  | waitLoad | waitRecord | waitCheck | waitFutex | waitParked => exact h.1
  | _ => exact h

theorem MutexPc.plain_of_returned {pc : MutexPc} (h : pc.returned = true) :
    pc.stores = false ∧ pc.owns = false ∧ pc ≠ .unlockWake := by
  cases pc with
  | ret rc => exact ⟨rfl, rfl, nofun⟩
  | _ => cases h

theorem Unlocking.move {x x' : Mutex T} {y : MutexLocal} {loc : T → MutexLocal}
    (hsound : MutexSound x loc) (h : Unlocking (loc t).pc (loc t).nest)
    (hmove : MutexMove t x (loc t) x' y) : Unlocking y.pc y.nest := by
  have hfits := hsound.fits t
  generalize hl : loc t = l at h hmove hfits
  obtain ⟨pc, n⟩ := l
  cases h with
  | unlock =>
    cases hmove with
    | look pc' hlook => cases hlook with
      | unlock => exact .owner
      | unlockFree => exact .failed _ _ nofun
    | _ => contradiction
  | owner =>
    cases hmove with
    | look pc' hlook => cases hlook with
      | unlockOwn => exact .recursion
      | unlockForeign => exact .failed _ _ nofun
    | _ => contradiction
  | recursion =>
    cases hmove with
    | look pc' hlook => cases hlook
    | unnest hpc htype hrec =>
      have hone := (hfits.of_owns rfl).2.2.1 htype
      exact absurd hrec (by simp [hone])
    | uncount => exact .store
    | _ => contradiction
  | store =>
    cases hmove with
    | look pc' hlook => cases hlook
    | disown => exact .xchg
    | _ => contradiction
  | xchg =>
    cases hmove with
    | look pc' hlook => cases hlook
    | release => exact .done
    | releaseMarked => exact .wake
    | _ => contradiction
  | wake =>
    cases hmove with
    | look pc' hlook => cases hlook
    | wake => exact .done
    | _ => contradiction
  | done | failed =>
    cases hmove with
    | look pc' hlook => cases hlook
    | _ => contradiction

variable {loc : T → CondLocal}

theorem CondMove.fits (hsound : MutexSound m.mutex (mutexes loc))
    (h : CondFits (loc t).pc (loc t).mutex) (hmove : CondMove t m (loc t) m' l') :
    CondFits l'.pc l'.mutex := by
  have hret (hpc : ∀ k, (loc t).pc ≠ .mutex k) : (loc t).mutex.pc.returned = true := h.returned hpc
  cases hmove with
  | mutex k x y hpc hx =>
    simp only [hpc] at h ⊢
    cases k with
    | wait sequence deadline => exact Unlocking.move hsound h hx
    | _ => trivial
  | resume k rc hpc hrc =>
    have hret : (loc t).mutex.pc.returned = true := by rw [hrc]; rfl
    cases k with
    | wait sequence deadline =>
      rw [hpc] at h
      have h : Unlocking (loc t).mutex.pc (loc t).mutex.nest := h
      rw [hrc] at h
      change CondFits (if rc ≠ .ok then _ else _) _
      split
      · exact hret
      · rename_i hok
        obtain rfl := not_not.mp hok
        generalize hn : (loc t).mutex.nest = n at h
        cases h with
        | done => exact ⟨hret, hn⟩
        | failed _ _ hne => exact absurd rfl hne
    | _ => exact hret
  | load d hpc =>
    rw [hpc] at h
    exact h
  | record q d hpc =>
    rw [hpc] at h
    change Unlocking .unlock (loc t).mutex.nest
    rw [h.2]
    exact .unlock
  | same q d hpc | park q d hpc | again q d hpc | released q d hpc =>
    rw [hpc] at h
    exact h
  | relock q d hpc | expire q d hpc => trivial
  | broadcastWake q mutex hpc =>
    have hret := hret (by simp [hpc])
    cases mutex <;> exact hret
  | broadcastAll hpc =>
    have hret := hret (by simp [hpc])
    change CondFits (if _ then _ else _) _
    split <;> exact hret
  | requeue q moved hpc =>
    have hret := hret (by simp [hpc])
    change CondFits (if _ then _ else afterRequeue _) _
    unfold afterRequeue
    split
    · exact hret
    · split <;> exact hret
  | guard q moved hpc =>
    have hret := hret (by simp [hpc])
    change CondFits (afterRequeue _) _
    unfold afterRequeue
    split <;> exact hret
  | signalAdd hpc | signalWake hpc | broadcastAdd hpc | broadcastMutex q hpc | free hpc | marked hpc
  | held hpc | wake hpc | mark hpc | lost hpc => exact hret (by simp [hpc])

theorem MutexSound.outside {x x' : Mutex T} (h : MutexSound x (mutexes loc))
    (hret : (loc t).mutex.pc.returned = true) {pc : MutexPc} (hstores : pc.stores = false)
    (howns : pc.owns = false) (hl : l'.mutex = (loc t).mutex.goto pc)
    (hlocked : x'.locked = x.locked ∨ x'.locked = 2) (howner : x'.owner = x.owner)
    (hrec : x'.recursion = x.recursion) (htype : x'.type = x.type) :
    MutexSound x' (mutexes (Function.update loc t l')) := by
  rw [mutexes_update, hl]
  refine h.goto (MutexPc.plain_of_returned hret).1 hstores (.inl howns) ?_ ?_ howner hrec htype
  · rcases hlocked with hsame | htwo
    · exact hsame ▸ h.locked_le
    · omega
  · intro hne
    rcases hlocked with hsame | htwo
    · rwa [hsame]
    · omega

theorem CondMove.sound (h : MutexSound m.mutex (mutexes loc))
    (hfits : CondFits (loc t).pc (loc t).mutex) (hmove : CondMove t m (loc t) m' l') :
    MutexSound m'.mutex (mutexes (update loc t l')) := by
  have hplain {pc : CondPc} {x' : Mutex T} (hret : (loc t).mutex.pc.returned = true)
      (hlocked : x'.locked = m.mutex.locked ∨ x'.locked = 2) (howner : x'.owner = m.mutex.owner)
      (hrec : x'.recursion = m.mutex.recursion) (htype : x'.type = m.mutex.type) :
      MutexSound x' (mutexes (update loc t ((loc t).goto pc))) := by
    obtain ⟨hstores, howns, -⟩ := MutexPc.plain_of_returned hret
    exact h.outside hret hstores howns rfl hlocked howner hrec htype
  have hret (hpc : ∀ k, (loc t).pc ≠ .mutex k) : (loc t).mutex.pc.returned = true :=
    hfits.returned hpc
  cases hmove with
  | mutex k x y hpc hx =>
    rw [mutexes_update]
    exact hx.sound h
  | resume k rc hpc hrc => exact hplain (by rw [hrc]; rfl) (.inl rfl) rfl rfl rfl
  | record q d hpc | relock q d hpc | expire q d hpc =>
    exact h.outside (hret (by simp [hpc])) rfl rfl rfl (.inl rfl) rfl rfl rfl
  | mark hpc => exact hplain (hret (by simp [hpc])) (.inr rfl) rfl rfl rfl
  | load d hpc | same q d hpc | park q d hpc | again q d hpc | released q d hpc | signalAdd hpc
  | signalWake hpc | broadcastAdd hpc | broadcastMutex q hpc | broadcastWake q mutex hpc
  | broadcastAll hpc | requeue q moved hpc | guard q moved hpc | free hpc | marked hpc | held hpc
  | wake hpc | lost hpc => exact hplain (hret (by simp [hpc])) (.inl rfl) rfl rfl rfl

/-! ## 2. Parked, and on the way back -/

def CondParked (l : CondLocal) : Prop :=
  (∃ sequence deadline, l.pc = .waitParked sequence deadline) ∨
    ∃ k deadline, l.pc = .mutex k ∧ l.mutex.pc = .parked deadline

/-- Released, and on the way to the mutex: out of the wait, or in the lock and not
    past the word. -/
def CondReturning (l : CondLocal) : Prop :=
  match l.pc with
  | .waitParked _ _ => True
  | .waitCheck _ _ => True
  | .mutex _ => l.mutex.pc.returning = true ∨ l.mutex.nest = 0 ∧
      (l.mutex.pc = .tryLocked (.lock 0) ∨ l.mutex.pc = .tryOwner (.lock 0) ∨
        l.mutex.pc = .tryCas (.lock 0))
  | _ => False

structure CondQueue (m : CondMem T) (loc : T → CondLocal) : Prop where
  nodup : m.parked.Nodup
  waiting : ∀ x ∈ m.cond.parked, ∃ sequence deadline, (loc x.2).pc = .waitParked sequence deadline
  parked : ∀ t ∈ m.mutex.parked, CondParked (loc t)
  handed : ∀ t ∈ m.mutex.handed, t ∉ m.parked ∧ CondReturning (loc t)

omit [DecidableEq T] in
theorem mem_parked {u : T} : u ∈ m.parked ↔ (∃ n, (n, u) ∈ m.cond.parked) ∨ u ∈ m.mutex.parked := by
  simp [CondMem.parked]

theorem CondQueue.step (h : CondQueue m loc) (hno : t ∉ m'.parked) (hnodup : m'.parked.Nodup)
    (hcond : ∀ x ∈ m'.cond.parked, x ∈ m.cond.parked)
    (hmutex : ∀ u ∈ m'.mutex.parked, u ∈ m.parked)
    (hhanded : ∀ u ∈ m'.mutex.handed, u ∈ m.mutex.handed ∨ u ∈ m.mutex.parked ∧ u ∉ m'.parked)
    (hself : t ∈ m'.mutex.handed → CondReturning l') : CondQueue m' (update loc t l') := by
  have hne {u : T} (hu : u ∈ m'.parked) : u ≠ t := ne_of_mem_of_not_mem hu hno
  have hsub {u : T} (hu : u ∈ m'.parked) : u ∈ m.parked := by
    rcases mem_parked.mp hu with ⟨n, hn⟩ | hmem
    · exact mem_parked.mpr (.inl ⟨n, hcond _ hn⟩)
    · exact hmutex u hmem
  refine ⟨hnodup, fun x hx => ?_, fun u hu => ?_, fun u hu => ?_⟩
  · rw [update_of_ne (hne (mem_parked.mpr (.inl ⟨x.1, hx⟩)))]
    exact h.waiting x (hcond x hx)
  · rw [update_of_ne (hne (mem_parked.mpr (.inr hu)))]
    rcases mem_parked.mp (hmutex u hu) with ⟨n, hn⟩ | hmem
    · exact .inl (h.waiting _ hn)
    · exact h.parked u hmem
  · by_cases hut : u = t
    · subst hut
      rw [update_self]
      exact ⟨hno, hself hu⟩
    · rw [update_of_ne hut]
      rcases hhanded u hu with hold | ⟨hmem, hout⟩
      · obtain ⟨hout, hret⟩ := h.handed u hold
        exact ⟨fun hmem => hout (hsub hmem), hret⟩
      · refine ⟨hout, ?_⟩
        rcases h.parked u hmem with ⟨q, d, hpc⟩ | ⟨k, d, hpc, hx⟩
        · simp [CondReturning, hpc]
        · simp [CondReturning, hpc, hx, MutexPc.returning]

theorem CondQueue.wake (h : CondQueue m loc) (hno : t ∉ m.parked) (hhanded : t ∉ m.mutex.handed) :
    CondQueue (m.setMutex m.mutex.wake) (update loc t l') := by
  have hsub : ((m.setMutex m.mutex.wake).parked).Sublist m.parked :=
    (List.Sublist.refl _).append (List.drop_sublist 1 m.mutex.parked)
  have hfirst {u : T} (hu : u ∈ m.mutex.parked.take 1) : u ∉ (m.setMutex m.mutex.wake).parked := by
    have hnodup := h.nodup
    unfold CondMem.parked at hnodup
    cases hparked : m.mutex.parked with
    | nil => simp [hparked] at hu
    | cons v rest =>
      rw [hparked, List.nodup_middle, List.nodup_cons] at hnodup
      obtain rfl : u = v := by simpa [hparked] using hu
      simpa [CondMem.parked, CondMem.setMutex, Mutex.wake, hparked] using hnodup.1
  refine h.step (fun hmem => hno (hsub.subset hmem)) (h.nodup.sublist hsub) (fun _ => id) ?_ ?_ ?_
  · intro u hu
    exact mem_parked.mpr (.inr (List.mem_of_mem_drop hu))
  · intro u hu
    rcases List.mem_append.mp hu with hnew | hold
    · exact .inr ⟨List.mem_of_mem_take hnew, hfirst hnew⟩
    · exact .inl hold
  · intro ht
    rcases List.mem_append.mp ht with hnew | hold
    · exact absurd (mem_parked.mpr (.inr (List.mem_of_mem_take hnew))) hno
    · exact absurd hold hhanded

omit [DecidableEq T] in
theorem CondQueue.notMem (h : CondQueue m loc)
    (hwait : ∀ sequence deadline, (loc t).pc ≠ .waitParked sequence deadline)
    (hpark : ∀ k deadline, (loc t).pc = .mutex k → (loc t).mutex.pc = .parked deadline →
      t ∉ m.mutex.parked) : t ∉ m.parked := by
  intro hmem
  rcases mem_parked.mp hmem with ⟨n, hn⟩ | hmutex
  · obtain ⟨q, d, hpc⟩ := h.waiting _ hn
    exact hwait q d hpc
  · rcases h.parked t hmutex with ⟨q, d, hpc⟩ | ⟨k, d, hpc, hx⟩
    · exact hwait q d hpc
    · exact hpark k d hpc hx hmutex

omit [DecidableEq T] in
theorem CondQueue.notHanded (h : CondQueue m loc) (hpc : ¬ CondReturning (loc t)) :
    t ∉ m.mutex.handed := fun hmem => hpc (h.handed t hmem).2

omit [DecidableEq T] in
theorem CondReturning.look {x : Mutex T} {l : CondLocal} {k : After} {pc : MutexPc}
    (h : CondReturning l) (hpc : l.pc = .mutex k) (hown : l.mutex.nest = 0 → x.owner ≠ some t)
    (hlook : MutexLook t x l.mutex.pc pc) :
    CondReturning { l with mutex := l.mutex.goto pc } := by
  simp only [CondReturning, hpc, MutexLocal.goto] at h ⊢
  rcases h with hret | ⟨hn, hpc'⟩
  · exact .inl (hlook.returning hret).1
  · have hown := hown hn
    rcases hpc' with hpc' | hpc' | hpc' <;> rw [hpc'] at hlook
    · cases hlook <;> simp [hn]
    · cases hlook with
      | own _ howner => exact absurd howner hown
      | foreign => simp [hn]
    · cases hlook
      exact .inl rfl

theorem CondQueue.mutex (h : CondQueue m loc) (hsound : MutexSound m.mutex (mutexes loc)) {k : After}
    {x : Mutex T} {y : MutexLocal} (hpc : (loc t).pc = .mutex k)
    (hmove : MutexMove t m.mutex (loc t).mutex x y) :
    CondQueue (m.setMutex x) (update loc t { loc t with mutex := y }) := by
  have hnotin (hx : ∀ d, (loc t).mutex.pc ≠ .parked d) : t ∉ m.parked :=
    h.notMem (by simp [hpc]) fun _ d _ hd => absurd hd (hx d)
  have hmem {u : T} (hu : u ∈ m.mutex.parked) : u ∈ m.parked := mem_parked.mpr (.inr hu)
  cases hmove with
  | look pc' hlook =>
    have hno : t ∉ m.parked := by
      refine h.notMem (by simp [hpc]) fun _ d _ hd => ?_
      exact (hlook.returning (by rw [hd]; rfl)).2 d hd
    refine h.step hno h.nodup (fun _ => id) (fun _ => hmem) (fun _ => .inl) fun ht => ?_
    refine (h.handed t ht).2.look hpc (fun hn => ?_) hlook
    have hfits := hsound.fits t
    change MutexFits t m.mutex (loc t).mutex.pc (loc t).mutex.nest at hfits
    rw [hn] at hfits
    exact hfits.owner_ne
  | recurse _ hx | own hx | count hx | unnest hx | uncount hx | disown hx | release hx
  | releaseMarked hx =>
    have hhanded := h.notHanded (t := t) (by simp [CondReturning, hpc, hx, MutexPc.returning])
    exact h.step (hnotin (by simp [hx])) h.nodup (fun _ => id) (fun _ => hmem) (fun _ => .inl)
      fun ht => absurd ht hhanded
  | take _ hx | takeMarked _ hx | marked _ hx | mark _ hx =>
    refine h.step (hnotin (by simp [hx])) h.nodup (fun _ => id) (fun _ => hmem)
      (fun u hu => .inl (List.mem_of_mem_filter hu)) fun ht => ?_
    simp [CondMem.setMutex, Mutex.acted] at ht
  | park d hx =>
    have hno : t ∉ m.parked := hnotin (by simp [hx])
    have hhanded : t ∉ m.mutex.handed :=
      h.notHanded (by simp [CondReturning, hpc, hx, MutexPc.returning])
    have hparked : (m.setMutex { m.mutex with parked := m.mutex.parked ++ [t] }).parked =
        m.parked ++ [t] := by simp [CondMem.parked, CondMem.setMutex]
    refine ⟨?_, fun z hz => ?_, fun u hu => ?_, fun u hu => ?_⟩
    · rw [hparked]
      simpa using h.nodup.concat hno
    · have hz' : z.2 ∈ m.parked := mem_parked.mpr (.inl ⟨z.1, hz⟩)
      rw [update_of_ne (ne_of_mem_of_not_mem hz' hno)]
      exact h.waiting z hz
    · rcases List.mem_append.mp hu with hold | hnew
      · rw [update_of_ne (ne_of_mem_of_not_mem (hmem hold) hno)]
        exact h.parked u hold
      · rw [List.mem_singleton.mp hnew, update_self]
        exact .inr ⟨k, d, hpc, rfl⟩
    · have hut : u ≠ t := ne_of_mem_of_not_mem hu hhanded
      obtain ⟨hout, hret⟩ := h.handed u hu
      rw [update_of_ne hut, hparked]
      exact ⟨by simp [hout, hut], hret⟩
  | expire d hx hin =>
    have hsub : ((m.setMutex { m.mutex with parked := m.mutex.parked.erase t }).parked).Sublist
        m.parked := (List.Sublist.refl _).append List.erase_sublist
    have hhanded : t ∉ m.mutex.handed := fun hmem => (h.handed t hmem).1 (mem_parked.mpr (.inr hin))
    refine h.step ?_ (h.nodup.sublist hsub) (fun _ => id) ?_ (fun _ => .inl) fun ht => ?_
    · intro hmem
      rcases mem_parked.mp hmem with ⟨n, hn⟩ | hmutex
      · obtain ⟨q, d, hwait⟩ := h.waiting _ hn
        cases hpc.symm.trans hwait
      · exact absurd hmutex (h.nodup.of_append_right.not_mem_erase)
    · intro u hu
      exact mem_parked.mpr (.inr (List.mem_of_mem_erase hu))
    · exact absurd ht hhanded
  | wake hx =>
    have hhanded : t ∉ m.mutex.handed :=
      h.notHanded (by simp [CondReturning, hpc, hx, MutexPc.returning])
    exact h.wake (hnotin (by simp [hx])) hhanded

theorem CondMove.queue (h : CondQueue m loc) (hsound : MutexSound m.mutex (mutexes loc))
    (hfits : CondFits (loc t).pc (loc t).mutex)
    (hagain : ∀ q d, (loc t).pc = .waitCheck q d → m.cond.sequence = q → t ∉ m.mutex.handed)
    (hmove : CondMove t m (loc t) m' l') : CondQueue m' (update loc t l') := by
  have hmem {u : T} (hu : u ∈ m.mutex.parked) : u ∈ m.parked := mem_parked.mpr (.inr hu)
  -- steps that leave the queues alone
  have hstay {x : CondMem T} (hcond : x.cond.parked = m.cond.parked) (hmutex : x.mutex = m.mutex)
      (hno : t ∉ m.parked) (hself : t ∈ m.mutex.handed → CondReturning l') :
      CondQueue x (update loc t l') := by
    have hparked : x.parked = m.parked := by simp [CondMem.parked, hcond, hmutex]
    refine h.step (hparked ▸ hno) (hparked ▸ h.nodup) (fun _ => hcond ▸ id) ?_ ?_ ?_
    · exact fun u hu => hmem (hmutex ▸ hu)
    · exact fun u hu => .inl (hmutex ▸ hu)
    · exact fun ht => hself (hmutex ▸ ht)
  have hidle (hwait : ∀ q d, (loc t).pc ≠ .waitParked q d) (hmutex : ∀ k, (loc t).pc ≠ .mutex k) :
      t ∉ m.parked := h.notMem hwait fun k _ hpc => absurd hpc (hmutex k)
  have hwoken (n : Nat) (hwait : ∀ q d, (loc t).pc ≠ .waitParked q d)
      (hmutex : ∀ k, (loc t).pc ≠ .mutex k) (hhanded : t ∉ m.mutex.handed) :
      CondQueue (m.wakeCond n) (update loc t l') := by
    have hsub : (m.wakeCond n).parked.Sublist m.parked :=
      ((List.drop_sublist n _).map _).append (List.Sublist.refl _)
    refine h.step ?_ (h.nodup.sublist hsub) ?_ (fun _ => hmem) (fun _ => .inl) ?_
    · exact fun hin => hidle hwait hmutex (hsub.subset hin)
    · exact fun x hx => List.mem_of_mem_drop hx
    · exact fun ht => absurd ht hhanded
  cases hmove with
  | mutex k x y hpc hx => exact h.mutex hsound hpc hx
  | resume k rc hpc hrc =>
    have hhanded : t ∉ m.mutex.handed :=
      h.notHanded (by simp [CondReturning, hpc, hrc, MutexPc.returning])
    refine hstay rfl rfl ?_ fun ht => absurd ht hhanded
    exact h.notMem (by simp [hpc]) fun _ _ _ hd => by cases hrc.symm.trans hd
  | load d hpc | record q d hpc | again q d hpc | signalAdd hpc | broadcastAdd hpc
  | broadcastMutex q hpc | guard q moved hpc | free hpc | marked hpc | held hpc | lost hpc =>
    have hhanded : t ∉ m.mutex.handed := h.notHanded (by simp [CondReturning, hpc])
    exact hstay rfl rfl (hidle (by simp [hpc]) (by simp [hpc])) fun ht => absurd ht hhanded
  | same q d hpc heq =>
    have hhanded := hagain q d hpc heq
    exact hstay rfl rfl (hidle (by simp [hpc]) (by simp [hpc])) fun ht => absurd ht hhanded
  | relock q d hpc =>
    rw [hpc] at hfits
    refine hstay rfl rfl (hidle (by simp [hpc]) (by simp [hpc])) fun _ => ?_
    simp [CondReturning, CondLocal.relock, CondLocal.enter, MutexLocal.goto, hfits.2]
  | released q d hpc hno => exact hstay rfl rfl hno fun _ => trivial
  | signalWake hpc | broadcastWake q mutex hpc | broadcastAll hpc =>
    have hhanded : t ∉ m.mutex.handed := h.notHanded (by simp [CondReturning, hpc])
    exact hwoken _ (by simp [hpc]) (by simp [hpc]) hhanded
  | wake hpc =>
    have hhanded : t ∉ m.mutex.handed := h.notHanded (by simp [CondReturning, hpc])
    exact h.wake (hidle (by simp [hpc]) (by simp [hpc])) hhanded
  | mark hpc =>
    have hhanded : t ∉ m.mutex.handed := h.notHanded (by simp [CondReturning, hpc])
    have hno := hidle (by simp [hpc]) (by simp [hpc])
    exact h.step hno h.nodup (fun _ => id) (fun _ => hmem) (fun _ => .inl) fun ht => absurd ht hhanded
  | park q d hpc =>
    have hno := hidle (by simp [hpc]) (by simp [hpc])
    have hperm : (m.park t).parked.Perm (m.parked ++ [t]) := by
      simp only [CondMem.parked, CondMem.park, Mutex.acted, List.map_append, List.map_cons,
        List.map_nil, List.append_assoc]
      exact List.perm_append_comm.append_left _
    refine ⟨?_, fun x hx => ?_, fun u hu => ?_, fun u hu => ?_⟩
    · rw [hperm.nodup_iff]
      simpa using h.nodup.concat hno
    · rcases List.mem_append.mp hx with hold | hnew
      · have hin : x.2 ∈ m.parked := mem_parked.mpr (.inl ⟨x.1, hold⟩)
        rw [update_of_ne (ne_of_mem_of_not_mem hin hno)]
        exact h.waiting x hold
      · rw [List.mem_singleton.mp hnew, update_self]
        exact ⟨q, d, rfl⟩
    · rw [update_of_ne (ne_of_mem_of_not_mem (hmem hu) hno)]
      exact h.parked u hu
    · obtain ⟨hold, hut⟩ := List.mem_filter.mp hu
      have hut : u ≠ t := of_decide_eq_true hut
      obtain ⟨hout, hret⟩ := h.handed u hold
      rw [update_of_ne hut, hperm.mem_iff]
      exact ⟨by simp [hout, hut], hret⟩
  | expire q d hpc hin =>
    have hhanded : t ∉ m.mutex.handed := fun ht => (h.handed t ht).1 hin
    have hsub : (m.unpark t).parked.Sublist m.parked :=
      (List.filter_sublist.map _).append List.erase_sublist
    refine h.step (fun hleft => ?_) (h.nodup.sublist hsub) ?_ ?_ (fun _ => .inl) ?_
    · rcases mem_parked.mp hleft with ⟨n, hn⟩ | hmutex
      · simp [CondMem.unpark] at hn
      · exact absurd hmutex h.nodup.of_append_right.not_mem_erase
    · exact fun x hx => List.mem_of_mem_filter hx
    · exact fun u hu => hmem (List.mem_of_mem_erase hu)
    · exact fun ht => absurd ht hhanded
  | requeue q moved hpc =>
    have hhanded : t ∉ m.mutex.handed := h.notHanded (by simp [CondReturning, hpc])
    have hperm : (m.move m.movable).parked.Perm m.parked := by
      have hsplit : m.parked = (m.cond.parked.take m.movable).map (·.2) ++
          ((m.cond.parked.drop m.movable).map (·.2) ++ m.mutex.parked) := by
        rw [← List.append_assoc, ← List.map_append, List.take_append_drop]
        rfl
      rw [hsplit]
      change ((m.cond.parked.drop m.movable).map (·.2) ++
        (m.mutex.parked ++ (m.cond.parked.take m.movable).map (·.2))).Perm _
      rw [← List.append_assoc]
      exact List.perm_append_comm
    refine h.step ?_ (hperm.nodup_iff.mpr h.nodup) ?_ ?_ (fun _ => .inl) ?_
    · exact fun hin => hidle (by simp [hpc]) (by simp [hpc]) (hperm.mem_iff.mp hin)
    · exact fun x hx => List.mem_of_mem_drop hx
    · exact fun u hu => hperm.mem_iff.mp (mem_parked.mpr (.inr hu))
    · exact fun ht => absurd ht hhanded

/-! ## 3. Who answers for the moved threads -/

def CondPc.marking : CondPc → Bool
  | .requeue _ moved => moved != 0
  | .mark => true
  | .markWake => true
  | .markCas => true
  | _ => false

/-- While a thread is parked on the mutex word, the word is marked or somebody
    answers for it. -/
def CondGuarded (m : CondMem T) (loc : T → CondLocal) : Prop :=
  MutexGuarded (∃ t, (loc t).pc.marking = true) m.mutex (mutexes loc)

theorem CondGuarded.step (h : CondGuarded m loc) (hret : (loc t).mutex.pc.returned = true)
    (hparked : m'.mutex.parked ≠ [] → m.mutex.parked ≠ [])
    (hlocked : m.mutex.locked = 2 → m'.mutex.locked = 2)
    (hhanded : m.mutex.handed ≠ [] → m'.mutex.handed ≠ [])
    (hmarking : (loc t).pc.marking = true → l'.pc.marking = true ∨ m'.mutex.locked = 2 ∨
      m'.mutex.handed ≠ [] ∨ m'.mutex.parked = []) :
    CondGuarded m' (update loc t l') := by
  intro hne
  have hwake : (mutexes loc t).pc ≠ .unlockWake := (MutexPc.plain_of_returned hret).2.2
  rw [mutexes_update]
  rcases h (hparked hne) with hmarked | hunlock | hhand | hB
  · exact .inl (hlocked hmarked)
  · have hex := Threads.exists_update (P := fun _ (l : MutexLocal) => l.pc = .unlockWake)
      (l := l'.mutex) (R := False) hunlock fun hself => absurd hself hwake
    exact .inr (.inl (hex.resolve_right id))
  · exact .inr (.inr (.inl (hhanded hhand)))
  · have hex := Threads.exists_update (P := fun _ (l : CondLocal) => l.pc.marking = true)
      (l := l') hB hmarking
    rcases hex with hB' | hmarked | hhand | hnone
    · exact .inr (.inr (.inr hB'))
    · exact .inl hmarked
    · exact .inr (.inr (.inl hhand))
    · exact absurd hnone hne

theorem CondMove.guarded (hle : m.mutex.locked ≤ 2) (hqueue : CondQueue m loc)
    (hfits : CondFits (loc t).pc (loc t).mutex) (h : CondGuarded m loc)
    (hfast : ∀ k, (loc t).mutex.pc = .tryCas k → m.mutex.locked = 0 → t ∈ m.mutex.handed →
      m.mutex.parked = [])
    (hmove : CondMove t m (loc t) m' l') : CondGuarded m' (update loc t l') := by
  have hret (hpc : ∀ k, (loc t).pc ≠ .mutex k) : (loc t).mutex.pc.returned = true :=
    hfits.returned hpc
  cases hmove with
  | mutex k x y hpc hx =>
    have hx : MutexGuarded (∃ t, (loc t).pc.marking = true) x (update (mutexes loc) t y) :=
      hx.guarded hle h hfast
    intro hne
    rw [mutexes_update]
    refine (hx hne).imp id (.imp id (.imp id ?_))
    rintro ⟨u, hu⟩
    have hut : u ≠ t := by
      rintro rfl
      simp [hpc, CondPc.marking] at hu
    exact ⟨u, by rwa [update_of_ne hut]⟩
  | resume k rc hpc hrc =>
    exact h.step (by rw [hrc]; rfl) id id id fun hm => by simp [hpc, CondPc.marking] at hm
  | load d hpc | record q d hpc | same q d hpc | relock q d hpc | again q d hpc | released q d hpc
  | signalAdd hpc | signalWake hpc | broadcastAdd hpc | broadcastMutex q hpc
  | broadcastWake q mutex hpc | broadcastAll hpc =>
    exact h.step (hret (by simp [hpc])) id id id fun hm => by simp [hpc, CondPc.marking] at hm
  | park q d hpc =>
    have hhanded : t ∉ m.mutex.handed := hqueue.notHanded (by simp [CondReturning, hpc])
    refine h.step (hret (by simp [hpc])) id id (fun hne => ?_) fun hm => by
      simp [hpc, CondPc.marking] at hm
    obtain ⟨u, hu⟩ := List.exists_mem_of_ne_nil _ hne
    refine List.ne_nil_of_mem (a := u) (List.mem_filter.mpr ⟨hu, ?_⟩)
    exact decide_eq_true (ne_of_mem_of_not_mem hu hhanded)
  | expire q d hpc =>
    refine h.step (hret (by simp [hpc])) (fun hne hnil => hne ?_) id id fun hm => by
      simp [hpc, CondPc.marking] at hm
    change m.mutex.parked.erase t = []
    rw [hnil]
    rfl
  | requeue q moved hpc =>
    by_cases hzero : moved + m.movable = 0
    · obtain ⟨hmoved, hmovable⟩ := Nat.add_eq_zero_iff.mp hzero
      refine h.step (hret (by simp [hpc])) (fun hne => ?_) id id fun hm => ?_
      · simpa [CondMem.move, hmovable] using hne
      · simp [hpc, hmoved, CondPc.marking] at hm
    · refine fun _ => .inr (.inr (.inr ⟨t, ?_⟩))
      rw [update_self]
      change CondPc.marking (if _ then _ else afterRequeue _) = true
      split
      · simpa [CondPc.marking] using hzero
      · rw [afterRequeue, if_pos hzero]
        rfl
  | guard q moved hpc =>
    refine h.step (hret (by simp [hpc])) id id id fun hm => .inl ?_
    have hmoved : moved ≠ 0 := by simpa [hpc, CondPc.marking] using hm
    simp [CondLocal.goto, afterRequeue, hmoved, CondPc.marking]
  | free hpc | held hpc | lost hpc =>
    exact h.step (hret (by simp [hpc])) id id id fun _ => .inl rfl
  | marked hpc hlocked =>
    exact h.step (hret (by simp [hpc])) id id id fun _ => .inr (.inl hlocked)
  | mark hpc => exact fun _ => .inl rfl
  | wake hpc =>
    refine h.step (hret (by simp [hpc])) (fun hne hnil => hne ?_) id (fun hne => ?_) fun _ => ?_
    · simp [CondMem.setMutex, Mutex.wake, hnil]
    · simp [CondMem.setMutex, Mutex.wake, hne]
    · right; right
      cases hparked : m.mutex.parked with
      | nil => exact .inr (by simp [CondMem.setMutex, Mutex.wake, hparked])
      | cons u rest => exact .inl (by simp [CondMem.setMutex, Mutex.wake, hparked])

def CondCall.waits : CondCall → Bool
  | .wait => true
  | .timedwait _ => true
  | _ => false

def Correct (s : Threads T (CondMem T) CondLocal) (o : T × CondEvent) : Prop :=
  match o.2 with
  | .call c => c.waits = true → (s.loc o.1).mutex.nest = 1
  | _ => True

instance (s : Threads T (CondMem T) CondLocal) (o : T × CondEvent) : Decidable (Correct s o) :=
  match o with
  | (t, .call c) => inferInstanceAs (Decidable (c.waits = true → (s.loc t).mutex.nest = 1))
  | (_, .go) => isTrue trivial
  | (_, .expire) => isTrue trivial

/-- A released thread does not find the sequence it waited for, and does not take the
    mutex unmarked while others are parked. -/
def HandsOn (s : Threads T (CondMem T) CondLocal) (o : T × CondEvent) : Prop :=
  o.1 ∈ s.mem.mutex.handed →
    (∀ q d, (s.loc o.1).pc = .waitCheck q d → s.mem.cond.sequence ≠ q) ∧
    ∀ k, (s.loc o.1).mutex.pc = .tryCas k → s.mem.mutex.locked = 0 → s.mem.mutex.parked = []

structure CondInv (s : Threads T (CondMem T) CondLocal) : Prop where
  sound : MutexSound s.mem.mutex (mutexes s.loc)
  fits : ∀ t, CondFits (s.loc t).pc (s.loc t).mutex
  queue : CondQueue s.mem s.loc
  guarded : CondGuarded s.mem s.loc

omit [DecidableEq T] in
theorem condBoot_inv (type : MutexType) : CondInv (condBoot T type) where
  sound := ⟨Nat.zero_le _, nofun, nofun, fun _ => .outside _ rfl rfl nofun⟩
  fits := fun _ => rfl
  queue := ⟨List.nodup_nil, nofun, nofun, nofun⟩
  guarded := fun hne => absurd rfl hne

theorem CondCall.enter_mutex (l : CondLocal) (c : CondCall) (hret : l.mutex.pc.returned = true) :
    ∃ pc, (c.enter l).mutex = l.mutex.goto pc ∧ pc.stores = false ∧ pc.owns = false := by
  obtain ⟨hstores, howns, -⟩ := MutexPc.plain_of_returned hret
  cases c with
  | mutex c => exact ⟨c.enter, rfl, c.enter_plain⟩
  | timedwait abstime =>
    refine ⟨l.mutex.pc, ?_, hstores, howns⟩
    simp only [CondCall.enter]
    split <;> rfl
  | _ => exact ⟨l.mutex.pc, rfl, hstores, howns⟩

theorem CondCall.enter_fits (l : CondLocal) (c : CondCall) (hret : l.mutex.pc.returned = true)
    (hwait : c.waits = true → l.mutex.nest = 1) :
    CondFits (c.enter l).pc (c.enter l).mutex ∧ (c.enter l).pc.marking = false := by
  cases c with
  | mutex c => exact ⟨trivial, rfl⟩
  | wait => exact ⟨⟨hret, hwait rfl⟩, rfl⟩
  | timedwait abstime =>
    simp only [CondCall.enter]
    split
    · exact ⟨hret, rfl⟩
    · exact ⟨⟨hret, hwait rfl⟩, rfl⟩
  | signal => exact ⟨hret, rfl⟩
  | broadcast => exact ⟨hret, rfl⟩

theorem CondInv.step {o : T × CondEvent} (h : CondInv s) (hcorrect : Correct s o) (hands : HandsOn s o)
    (hstep : Threads.step condThread s o = some s') : CondInv s' := by
  obtain ⟨t, e⟩ := o
  have hfits := h.fits t
  rcases condStep_cases hstep with ⟨c, rc, rfl, hpc, rfl⟩ | ⟨m, l, hmove, rfl⟩
  · have hret : (s.loc t).mutex.pc.returned = true := hfits.returned (by simp [hpc])
    have hhanded : t ∉ s.mem.mutex.handed := h.queue.notHanded (by simp [CondReturning, hpc])
    have hno : t ∉ s.mem.parked := h.queue.notMem (by simp [hpc]) (by simp [hpc])
    obtain ⟨pc, hmutex, hstores, howns⟩ := c.enter_mutex (s.loc t) hret
    obtain ⟨hfits', hmarking⟩ := c.enter_fits (s.loc t) hret hcorrect
    refine ⟨?_, ?_, ?_, ?_⟩
    · exact h.sound.outside hret hstores howns hmutex (.inl rfl) rfl rfl rfl
    · exact Threads.forall_update (P := fun _ (l : CondLocal) => CondFits l.pc l.mutex) hfits'
        fun u _ => h.fits u
    · exact h.queue.step hno h.queue.nodup (fun _ => id) (fun _ hu => mem_parked.mpr (.inr hu))
        (fun _ => .inl) fun ht => absurd ht hhanded
    · exact h.guarded.step hret id id id fun hm => by simp [hpc, CondPc.marking] at hm
  · have hfast (k : Caller) (hx : (s.loc t).mutex.pc = .tryCas k) (hfree : s.mem.mutex.locked = 0)
        (ht : t ∈ s.mem.mutex.handed) : s.mem.mutex.parked = [] := (hands ht).2 k hx hfree
    refine ⟨hmove.sound h.sound hfits, ?_, ?_, ?_⟩
    · exact Threads.forall_update (P := fun _ (l : CondLocal) => CondFits l.pc l.mutex)
        (hmove.fits h.sound hfits) fun u _ => h.fits u
    · refine hmove.queue h.queue h.sound hfits fun q d hpc heq ht => ?_
      exact (hands ht).1 q d hpc heq
    · exact hmove.guarded h.sound.locked_le h.queue hfits h.guarded hfast

def CondPc.broadcasting : CondPc → Bool
  | .broadcastAdd => true
  | .broadcastMutex _ => true
  | .broadcastWake _ _ => true
  | .broadcastAll => true
  | .requeue _ _ => true
  | .mark => true
  | .markWake => true
  | .markCas => true
  | _ => false

theorem CondPc.broadcasting_of_marking {pc : CondPc} (h : pc.marking = true) :
    pc.broadcasting = true := by
  cases pc <;> first | rfl | cases h

/-- A broadcast strands nobody, where the released threads hand the mutex on: where it is
    free and a thread is parked on its word, a thread is in unlock before its wake, or in
    broadcast, or was released and is on its way to the mutex. -/
theorem broadcast_strands_nobody {type : MutexType} {os : List (T × CondEvent)}
    (hrun : Run (Threads.step condThread) (fun s o => Correct s o ∧ HandsOn s o)
      (condBoot T type) os s)
    (hfree : s.mem.mutex.locked = 0) (ht : t ∈ s.mem.mutex.parked) :
    (∃ u, (s.loc u).mutex.pc = .unlockWake) ∨ (∃ u, (s.loc u).pc.broadcasting = true) ∨
      ∃ u ∈ s.mem.mutex.handed, u ∉ s.mem.parked ∧ CondReturning (s.loc u) := by
  have h : CondInv s :=
    hrun.invariant (P := CondInv) (condBoot_inv type) fun _ _ _ h hok hstep =>
      h.step hok.1 hok.2 hstep
  rcases h.guarded (List.ne_nil_of_mem ht) with hmarked | hunlock | hhanded | ⟨u, hu⟩
  · omega
  · exact .inl hunlock
  · obtain ⟨u, hu⟩ := List.exists_mem_of_ne_nil _ hhanded
    exact .inr (.inr ⟨u, hu, h.queue.handed u hu⟩)
  · exact .inr (.inl ⟨u, CondPc.broadcasting_of_marking hu⟩)

theorem broadcast_strands_nobody_moved : ∃ s,
    Run (Threads.step condThread) (fun s o => Correct s o ∧ HandsOn s o) (condBoot (Fin 5) .NORMAL)
      (threeWait ++ goes 6 0) s ∧
    s.mem.mutex.locked = 0 ∧ s.mem.mutex.parked = [3] ∧
    ((∃ u, (s.loc u).mutex.pc = .unlockWake) ∨ (∃ u, (s.loc u).pc.broadcasting = true) ∨
      ∃ u ∈ s.mem.mutex.handed, u ∉ s.mem.parked ∧ CondReturning (s.loc u)) := by
  refine Run.exists_imp (P := fun s => s.mem.mutex.locked = 0 ∧ s.mem.mutex.parked = [3]) ?_
    fun s hrun ⟨hfree, hparked⟩ => ?_
  · -- nobody is released by a wake of the mutex word before the last step
    refine Run.exists_of_checked (I := fun _ => True)
      (fun s o => s.mem.mutex.handed.isEmpty && decide (Correct s o)) trivial
      (fun s o _ hok => ?_) (fun _ _ _ _ _ _ => trivial) (by decide +kernel)
    obtain ⟨hnone, hcorrect⟩ : s.mem.mutex.handed = [] ∧ Correct s o := by simpa using hok
    refine ⟨hcorrect, fun hin => ?_⟩
    rw [hnone] at hin
    cases hin
  have ht : (3 : Fin 5) ∈ s.mem.mutex.parked := by simp [hparked]
  exact ⟨hfree, hparked, broadcast_strands_nobody hrun hfree ht⟩

def back (t : Fin 5) : List (Fin 5 × CondEvent) :=
  goes 7 t ++ (t, .call (.mutex .unlock)) :: goes 6 t

/-- Thread 2 was moved and woken; it took the mutex without the mark, so its unlock did
    not wake thread 3. -/
theorem broadcast_strands_moved : ∃ s,
    Run (Threads.step condThread) Correct (condBoot (Fin 5) .NORMAL)
      (threeWait ++ goes 6 0 ++ back 1 ++ back 2) s ∧
    s.mem.mutex.locked = 0 ∧ s.mem.mutex.parked = [3] ∧ s.mem.mutex.handed = [] ∧
    ∀ u, u ≠ 3 → (s.loc u).pc.returned = true :=
  Run.exists_of_checked (I := fun _ => True) (fun s o => decide (Correct s o)) trivial
    (fun _ _ _ hok => of_decide_eq_true hok) (fun _ _ _ _ _ _ => trivial) (by decide +kernel)

end GovinDos.Pthread
