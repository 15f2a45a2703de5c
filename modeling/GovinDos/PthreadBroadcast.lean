/-
  **What a broadcast does for the waiters.**

  The requeue of a broadcast is refused when the sequence is not the broadcast's own any
  more; then it returns and has moved nobody.
-/
import GovinDos.PthreadCond

namespace GovinDos.Pthread

variable {T : Type} [DecidableEq T] {t : T} {m m' : CondMem T} {l l' : CondLocal}
  {s s' : Threads T (CondMem T) CondLocal}

theorem CondMove.numbers (h : CondMove t m l m' l') :
    m.g_futex_seq ≤ m'.g_futex_seq ∧ ∀ x ∈ m'.cond.parked,
      x ∈ m.cond.parked ∨ m.g_futex_seq ≤ x.1 ∧ x.1 < m'.g_futex_seq := by
  cases h with
  | park =>
    refine ⟨Nat.le_succ _, fun x hx => ?_⟩
    rcases List.mem_append.mp hx with hold | hnew
    · exact .inl hold
    · right
      rw [List.mem_singleton.mp hnew]
      exact ⟨Nat.le_refl _, Nat.lt_succ_self _⟩
  | expire => exact ⟨Nat.le_refl _, fun x hx => .inl (List.mem_of_mem_filter hx)⟩
  | signalWake | broadcastWake | broadcastAll =>
    exact ⟨Nat.le_refl _, fun x hx => .inl (List.mem_of_mem_drop hx)⟩
  | requeue => exact ⟨Nat.le_add_right _ _, fun x hx => .inl (List.mem_of_mem_drop hx)⟩
  | _ => exact ⟨Nat.le_refl _, fun x hx => .inl hx⟩

theorem CondMove.sequence_eq (h : CondMove t m l m' l') (hsignal : l.pc ≠ .signalAdd)
    (hbroadcast : l.pc ≠ .broadcastAdd) : m'.cond.sequence = m.cond.sequence := by
  cases h with
  | signalAdd hpc => exact absurd hpc hsignal
  | broadcastAdd hpc => exact absurd hpc hbroadcast
  | _ => rfl

/-- Steps during the call of `b`, none of which is the add of another call. -/
def Alone (b : T) (s : Threads T (CondMem T) CondLocal) (o : T × CondEvent) : Prop :=
  (s.loc b).pc.returned = false ∧
    (o.1 ≠ b → (s.loc o.1).pc ≠ .signalAdd ∧ (s.loc o.1).pc ≠ .broadcastAdd)

def Reaches (n : Nat) (m : CondMem T) : CondPc → Prop
  | .broadcastAdd => True
  | .broadcastMutex sequence => m.cond.sequence = sequence
  | .broadcastWake sequence _ => m.cond.sequence = sequence
  | .requeue sequence _ => m.cond.sequence = sequence
  | .broadcastAll => True
  | .mark => ∀ x ∈ m.cond.parked, n ≤ x.1
  | .markWake => ∀ x ∈ m.cond.parked, n ≤ x.1
  | .markCas => ∀ x ∈ m.cond.parked, n ≤ x.1
  | .ret _ => ∀ x ∈ m.cond.parked, n ≤ x.1
  | _ => False

omit [DecidableEq T] in
theorem Reaches.other {n : Nat} {pc : CondPc} (h : Reaches n m pc)
    (hseq : m'.cond.sequence = m.cond.sequence)
    (hparked : ∀ x ∈ m'.cond.parked, x ∈ m.cond.parked ∨ n ≤ x.1) : Reaches n m' pc := by
  have hgone (h : ∀ x ∈ m.cond.parked, n ≤ x.1) (x : Nat × T) (hx : x ∈ m'.cond.parked) :
      n ≤ x.1 := (hparked x hx).elim (h x) id
  cases pc with
  | broadcastAdd | broadcastAll => trivial
  | broadcastMutex | broadcastWake | requeue => exact hseq.trans h
  | mark | markWake | markCas | ret => exact hgone h
  | _ => exact h.elim

theorem CondMove.reaches {n : Nat} (h : Reaches n m l.pc) (hmove : CondMove t m l m' l') :
    Reaches n m' l'.pc := by
  have hno (hpc : Reaches n m l.pc = False) : Reaches n m' l'.pc := (hpc ▸ h).elim
  have hgone {x : CondMem T} {moved : Nat} (hx : ∀ y ∈ x.cond.parked, n ≤ y.1) :
      Reaches n x (afterRequeue moved) := by
    unfold afterRequeue
    split <;> exact hx
  cases hmove with
  | mutex k x l' hpc | resume k rc hpc | load d hpc | record q d hpc | same q d hpc
  | relock q d hpc | park q d hpc | again q d hpc | released q d hpc | expire q d hpc
  | signalAdd hpc | signalWake hpc => exact hno (by rw [hpc]; rfl)
  | broadcastAdd hpc => rfl
  | broadcastMutex q hpc =>
    rw [hpc] at h
    exact h
  | broadcastWake q mutex hpc =>
    rw [hpc] at h
    cases mutex with
    | false => trivial
    | true => exact h
  | broadcastAll hpc =>
    change Reaches n _ (if _ then _ else _)
    split
    · trivial
    · rename_i hfull
      have hnil : (m.wakeCond m.wakeable).cond.parked = [] := drop_min hfull
      intro x hx
      rw [hnil] at hx
      cases hx
  | requeue q moved hpc heq =>
    change Reaches n _ (if _ then _ else _)
    split
    · exact heq
    · rename_i hfull
      have hnil : (m.move m.movable).cond.parked = [] := drop_min hfull
      refine hgone fun x hx => ?_
      rw [hnil] at hx
      cases hx
  | guard q moved hpc hne =>
    rw [hpc] at h
    exact absurd h hne
  | free hpc | marked hpc | held hpc | wake hpc | mark hpc | lost hpc =>
    rw [hpc] at h
    exact h

def Numbered (s : Threads T (CondMem T) CondLocal) : Prop :=
  ∀ x ∈ s.mem.cond.parked, x.1 < s.mem.g_futex_seq

theorem Numbered.step {o : T × CondEvent} (h : Numbered s)
    (hstep : Threads.step condThread s o = some s') : Numbered s' := by
  rcases condStep_cases hstep with ⟨c, rc, -, -, rfl⟩ | ⟨m, l, hmove, rfl⟩
  · exact h
  · obtain ⟨hle, hparked⟩ := hmove.numbers
    intro x hx
    rcases hparked x hx with hold | ⟨-, hlt⟩
    · exact Nat.lt_of_lt_of_le (h x hold) hle
    · exact hlt

/-- A broadcast that no other signal or broadcast overtakes reaches every waiter that was
    parked on the condition variable when it began. -/
theorem broadcast_reaches_all {type : MutexType} {os₀ os : List (T × CondEvent)} {b : T} {rc : Rc}
    (hreach : Run (Threads.step condThread) (fun _ _ => True) (condBoot T type) os₀ s)
    (hbegin : (s.loc b).pc = .broadcastAdd)
    (hcall : Run (Threads.step condThread) (Alone b) s os s') (hend : (s'.loc b).pc = .ret rc) :
    ∀ x ∈ s.mem.cond.parked, x ∉ s'.mem.cond.parked := by
  have hnum : Numbered s :=
    hreach.invariant (P := Numbered) nofun fun _ _ _ h _ hstep => h.step hstep
  obtain ⟨-, hreaches⟩ : s.mem.g_futex_seq ≤ s'.mem.g_futex_seq ∧
      Reaches s.mem.g_futex_seq s'.mem (s'.loc b).pc := by
    refine hcall.invariant (P := fun s' => s.mem.g_futex_seq ≤ s'.mem.g_futex_seq ∧
      Reaches s.mem.g_futex_seq s'.mem (s'.loc b).pc) ⟨Nat.le_refl _, ?_⟩ ?_
    · rw [hbegin]
      trivial
    · rintro s₁ ⟨t, e⟩ s₂ ⟨hle, h⟩ ⟨hret, hother⟩ hstep
      rcases condStep_cases hstep with ⟨c, rc, -, hpc, rfl⟩ | ⟨m, l, hmove, rfl⟩
      · have htb : b ≠ t := by
          rintro rfl
          rw [hpc] at hret
          cases hret
        exact ⟨hle, by simpa [htb] using h⟩
      · obtain ⟨hmono, hparked⟩ := hmove.numbers
        refine ⟨Nat.le_trans hle hmono, ?_⟩
        by_cases htb : b = t
        · subst htb
          simpa using hmove.reaches h
        · obtain ⟨hsignal, hbroadcast⟩ := hother (Ne.symm htb)
          have h' : Reaches s.mem.g_futex_seq m (s₁.loc b).pc := by
            refine h.other (hmove.sequence_eq hsignal hbroadcast) fun x hx => ?_
            exact (hparked x hx).imp id fun hnew => Nat.le_trans hle hnew.1
          simpa [htb] using h'
  rw [hend] at hreaches
  intro x hx hx'
  exact absurd (hreaches x hx') (Nat.not_le.mpr (hnum x hx))

def goes {T : Type} (n : Nat) (t : T) : List (T × CondEvent) := List.replicate n (t, .go)

def parks (t : Fin 5) : List (Fin 5 × CondEvent) :=
  (t, .call (.mutex .lock)) :: goes 5 t ++ (t, .call .wait) :: goes 10 t

def threeWait : List (Fin 5 × CondEvent) :=
  parks 1 ++ parks 2 ++ parks 3 ++ [(0, .call .broadcast)]

theorem broadcast_reaches_all_three : ∃ s s',
    Run (Threads.step condThread) (fun _ _ => True) (condBoot (Fin 5) .NORMAL) threeWait s ∧
    s.mem.cond.parked = [(0, 1), (1, 2), (2, 3)] ∧
    Run (Threads.step condThread) (Alone 0) s (goes 6 0) s' ∧
    ∀ x ∈ s.mem.cond.parked, x ∉ s'.mem.cond.parked := by
  let check (s : Threads (Fin 5) (CondMem (Fin 5)) CondLocal) (o : Fin 5 × CondEvent) : Bool :=
    o.1 = 0 && !(s.loc 0).pc.returned
  obtain ⟨s, hreach, hparked, hbegin, hnext⟩ : ∃ s,
      Run (Threads.step condThread) (fun _ _ => True) (condBoot (Fin 5) .NORMAL) threeWait s ∧
      s.mem.cond.parked = [(0, 1), (1, 2), (2, 3)] ∧ (s.loc 0).pc = .broadcastAdd ∧
      ((goes 6 0).foldlM (fun s o => if check s o then Threads.step condThread s o else none) s).map
        (fun s' => decide ((s'.loc 0).pc = .ret .ok)) = some true :=
    Run.exists_of_eval (fun _ _ _ => trivial) (by decide +kernel)
  obtain ⟨s', hcall, hend⟩ : ∃ s', Run (Threads.step condThread) (Alone 0) s (goes 6 0) s' ∧
      (s'.loc 0).pc = .ret .ok := by
    refine Run.exists_of_checked (I := fun _ => True) check trivial (fun s o _ hok => ?_)
      (fun _ _ _ _ _ _ => trivial) hnext
    have hok : o.1 = 0 ∧ (s.loc 0).pc.returned = false := by simpa [check] using hok
    exact ⟨hok.2, fun hne => absurd hok.1 hne⟩
  exact ⟨s, s', hreach, hparked, hcall, broadcast_reaches_all hreach hbegin hcall hend⟩

def overtake : List (Fin 5 × CondEvent) := goes 1 0 ++ (4, .call .signal) :: goes 2 4 ++ goes 3 0

/-- The broadcast returns, and thread 3 is parked as before. -/
theorem broadcast_overtaken : ∃ s s',
    Run (Threads.step condThread) (fun _ _ => True) (condBoot (Fin 5) .NORMAL) threeWait s ∧
    (s.loc 0).pc = .broadcastAdd ∧ (2, 3) ∈ s.mem.cond.parked ∧
    Run (Threads.step condThread) (fun _ _ => True) s overtake s' ∧
    (s'.loc 0).pc = .ret .ok ∧ (2, 3) ∈ s'.mem.cond.parked := by
  obtain ⟨s, hrun, hbegin, hmem, hnext⟩ : ∃ s,
      Run (Threads.step condThread) (fun _ _ => True) (condBoot (Fin 5) .NORMAL) threeWait s ∧
      (s.loc 0).pc = .broadcastAdd ∧ (2, 3) ∈ s.mem.cond.parked ∧
      (overtake.foldlM (Threads.step condThread) s).map (fun s' => decide
        ((s'.loc 0).pc = .ret .ok ∧ (2, 3) ∈ s'.mem.cond.parked)) = some true :=
    Run.exists_of_eval (fun _ _ _ => trivial) (by decide +kernel)
  obtain ⟨s', hs', hend⟩ := Option.map_eq_some_iff.mp hnext
  exact ⟨s, s', hrun, hbegin, hmem, .of_foldlM (fun _ _ _ => trivial) hs', of_decide_eq_true hend⟩

end GovinDos.Pthread
