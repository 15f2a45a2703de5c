/-
  **Whom a wake reaches (`detach_batch_locked`, `finish_claimed`).**

  A wake claims up to `cap` of the threads parked on the word, oldest first, and looks at
  their processes afterwards: a thread of a dead process is left `REAPABLE` and has used up
  a place in the batch.
-/
import GovinDos.FutexLossless
import GovinDos.ThreadDisposal

namespace GovinDos.Thread

open Occurrence

variable {hash : Nat → Nat} {op : Op} {s s' : State} {addr cap next_seq c t : Nat} {wins : List Nat}
  {w w' : Work} {s₁ : State}

/-! ## 1. Bucket locks -/

def Work.locks (hash : Nat → Nat) : Work → List Nat
  | .detach addr _ _ _ => [hash addr]
  | .unhook addr _ _ _ _ _ => [hash addr]
  | .scan src dst _ _ _ => [hash src, hash dst]
  | .relink src dst _ _ _ _ _ => [hash src, hash dst]
  | _ => []

def Locked (hash : Nat → Nat) (s : State) : Prop :=
  ∀ c, ∀ b ∈ (s.cpu c).work.locks hash, s.bucketLock b = some c

theorem Locked.step (h : Locked hash s) (c : Nat)
    (hother : ∀ d, d ≠ c → (s'.cpu d).work = (s.cpu d).work)
    (hself : ∀ b ∈ (s'.cpu c).work.locks hash, s'.bucketLock b = some c)
    (hlock : ∀ b, s.bucketLock b = none ∨ s.bucketLock b = some c ∨
      s'.bucketLock b = s.bucketLock b) : Locked hash s' := by
  intro d b hb
  by_cases hd : d = c
  · subst hd
    exact hself b hb
  · rw [hother d hd] at hb
    have hb := h d b hb
    rcases hlock b with hnone | hsome | hsame
    · cases hb.symm.trans hnone
    · cases hb.symm.trans hsome
      exact absurd rfl hd
    · exact hsame.trans hb

theorem cpu_goto_of_ne (hcpu : s₁.cpu = s.cpu) {d : Nat} (hd : d ≠ c) :
    (s₁.goto c w).cpu d = s.cpu d := by
  simp [State.goto, hcpu, hd]

theorem Locked.goto (h : Locked hash s) (hcpu : s₁.cpu = s.cpu)
    (hlock : s₁.bucketLock = s.bucketLock)
    (hw : ∀ b ∈ w.locks hash, b ∈ (s.cpu c).work.locks hash) : Locked hash (s₁.goto c w) := by
  refine h.step c (fun d hd => by rw [cpu_goto_of_ne hcpu hd]) (fun b hb => ?_) fun b => ?_
  · have hb : b ∈ w.locks hash := by simpa [State.goto] using hb
    exact (congrFun hlock b).trans (h c b (hw b hb))
  · exact .inr (.inr (congrFun hlock b))

theorem Locked.switch (h : Locked hash s) {x : Ctx} (hcpu : s₁.cpu = s.cpu)
    (hlock : s₁.bucketLock = s.bucketLock) : Locked hash (s₁.switch c x) := by
  intro d b hb
  rw [work_switch hcpu] at hb
  exact (congrFun hlock b).trans (h d b hb)

theorem Unhooks.locks (h : Unhooks t w w') : w'.locks hash = [] := by cases h <;> rfl
theorem Cancels.locks (h : Cancels t w w') : w'.locks hash = [] := by cases h <;> rfl

theorem Move.locked (h : Locked hash s) (hmove : Move hash op s s') : Locked hash s' := by
  cases hmove with
  | refused | spawn | spawnPinned | kill | store | memory => exact h
  | pop | cull | install | trap | sysret | yield | exit | block | switched | prevStatus | exited | wait
  | mismatch | noNode | rollback | park | parkTimed => exact h.switch rfl rfl
  | exitedPublish c u =>
    have hsw : Locked hash ((s.setUmem (some c)).switch c (.closing u)) := h.switch rfl rfl
    exact hsw.goto rfl rfl nofun
  | close c u x => exact h.switch (cpu_unpin s x) (bucketLock_unpin s x)
  | callWake | post | callRequeue | callInterrupt | callDestroy | finished | settleDead | settleLive
  | unblock | release | enqueue | requeueAgain | interrupt | time | timeSkip | expired | popDeadline
  | giveUp | victim | victimOff | victimBlocked | doom | claim => exact h.goto rfl rfl nofun
  | removeNode c u x w hwork | cancelNone c u x w hwork | cancel c u x w hwork =>
    exact h.goto rfl rfl fun b hb => by simp [hwork.locks] at hb
  | free c u x => exact h.goto (cpu_unpin s x) (bucketLock_unpin s x) nofun
  | pick c addr cap next_seq batch key u x hwork | skip c addr cap next_seq batch key u x hwork
  | unhook c addr cap next_seq batch key u hwork
  | moving c src dst cap next_seq moved key u x hwork
  | scanSkip c src dst cap next_seq moved key hwork
  | relink c src dst cap next_seq moved key u x hwork =>
    exact h.goto rfl rfl fun b hb => by rw [hwork]; exact hb
  | wake c addr cap hwork hlock | publish c addr value hwork hlock =>
    refine h.step c (fun d hd => by rw [cpu_goto_of_ne rfl hd]; rfl) (fun b hb => ?_) fun b => ?_
    · obtain rfl : b = hash addr := by simpa [State.goto, Work.locks] using hb
      simp [State.goto, State.publishWord, State.setWord, State.lockBucket]
    · by_cases hb : b = hash addr
      · exact .inl (hb ▸ hlock)
      · refine .inr (.inr ?_)
        simp [State.goto, State.publishWord, State.setWord, State.lockBucket, hb]
  | detached c addr cap next_seq batch hwork =>
    have hown := h c (hash addr) (by rw [hwork]; exact List.mem_cons_self)
    refine h.step c (fun d hd => by rw [cpu_goto_of_ne rfl hd]; rfl) (fun b hb => ?_) fun b => ?_
    · simp [State.goto, Work.locks] at hb
    · by_cases hb : b = hash addr
      · exact .inr (.inl (hb ▸ hown))
      · exact .inr (.inr (by simp [State.goto, State.lockBucket, hb]))
  | requeue c src dst expected cap hwork hsrc hdst =>
    refine h.step c (fun d hd => by rw [cpu_goto_of_ne rfl hd]; rfl) (fun b hb => ?_) fun b => ?_
    · have hb : b = hash src ∨ b = hash dst := by simpa [State.goto, Work.locks] using hb
      rcases hb with rfl | rfl <;> simp [State.goto, State.lockBucket, Function.update_apply]
    · by_cases hs : b = hash src
      · exact .inl (hs ▸ hsrc)
      · by_cases hd : b = hash dst
        · exact .inl (hd ▸ hdst)
        · exact .inr (.inr (by simp [State.goto, State.lockBucket, hs, hd]))
  | scanned c src dst cap next_seq moved hwork =>
    refine h.step c (fun d hd => by rw [cpu_goto_of_ne rfl hd]; rfl) (fun b hb => ?_) fun b => ?_
    · simp [State.goto, Work.locks] at hb
    · by_cases hmem : b ∈ [hash src, hash dst]
      · exact .inr (.inl (h c b (by rw [hwork]; exact hmem)))
      · simp only [List.mem_cons, List.not_mem_nil, or_false, not_or] at hmem
        exact .inr (.inr (by simp [State.goto, State.lockBucket, hmem.1, hmem.2]))

theorem Locked.samePark (h : Locked hash s) (hinv : Inv hash s) (hmove : Move hash op s s')
    (hc : hash addr ∈ (s.cpu c).work.locks hash) (hno : ∀ src dst cap next_seq moved key u,
      (s.cpu c).work ≠ .relink src dst cap next_seq moved key u) {y : Tcb}
    (hy : s'.thread t = some y) (hs : y.wake_state = .PARKED) (ha : y.wait_key.address = addr) :
    ∃ x, s.thread t = some x ∧ x.wake_state = .PARKED ∧ x.wait_key = y.wait_key ∧
      x.proc = y.proc := by
  have hown := h c _ hc
  rcases hmove.samePark hinv t with hsame | hnew
  · obtain ⟨x, hx, hxs, hkey, -, hproc⟩ := hsame y hy hs
    exact ⟨x, hx, hxs, hkey, hproc⟩
  · rcases hnew y hy with ⟨hfree, -⟩ | ⟨d, src, cap, next_seq, moved, key, hwork⟩
    · rw [ha, hown] at hfree
      cases hfree
    · have hd := h d (hash addr) (by rw [hwork, ha]; simp [Work.locks])
      cases hown.symm.trans hd
      exact absurd hwork (hno _ _ _ _ _ _ _)

/-! ## 2. Threads in the hands of a waker -/

def Waits (addr t : Nat) (s : State) : Prop :=
  ∃ x, s.thread t = some x ∧ x.wait_key.address = addr ∧ s.dead x.proc = false

theorem Fits.hold_of_idle {w : Wait} {holder : Option (Nat × Stage)} {hooked : Bool}
    (h : Fits t w holder .idle hooked) : holder = none := by
  cases h
  rfl

theorem Turn.held {κ : Prop} {v v' : View} {x : Tcb} {st : Stage} (hok : Ok hash t v)
    (hx : v.tcb = some x) (hhold : v.hold = sole c st) (hst : ¬ st.Reaps)
    (hmoving : ∀ key, st ≠ .moving key) (hturn : Turn hash κ t v v') :
    ∃ y, v'.tcb = some y ∧ y.wait_key = x.wait_key ∧ y.proc = x.proc := by
  obtain ⟨holder, phase, hooked, queued, seated, hlife⟩ := hok.shape.of_tcb hx
  obtain rfl := place_eq_sole.mp (hlife.hold.symm.trans hhold)
  have hidle : phase ≠ .idle := by
    rintro rfl
    cases hlife.fits.hold_of_idle
  have hseated (d : Nat) : v.seat ≠ sole d .waiting := by
    intro hseat
    obtain rfl := place_eq_sole.mp (hlife.seat.symm.trans hseat)
    cases hlife.stand
    exact hidle rfl
  cases hturn with
  | stay | kill | pop | reseat | prevStatus | exited | unhook | removeNode | check | enqueue | rewatch
  | doom => exact ⟨x, hx, rfl, rfl⟩
  | cull d y hy | install d y hy | yield d y hy | exit d y hy | block d y hy | switched d y hy
  | pick d y key hy | move d y key hy | time d y key hy | expire d y key hy | claim d y hy
  | cancel d y st st' hy | reapable d y hy | unblock d y hy | release d y hy =>
    obtain rfl := Option.some_inj.mp (hx.symm.trans hy)
    exact ⟨_, rfl, rfl, rfl⟩
  | spawn p d completion hmade hblank => cases hblank.gone.tcb.symm.trans hx
  | rollback d y key hy hseat | park d y z hy hseat => exact absurd hseat (hseated d)
  | relink d y key key' hy hhold' =>
    obtain ⟨-, rfl⟩ := sole_inj.mp (hhold.symm.trans hhold')
    exact absurd rfl (hmoving key)
  | close d y hy hc =>
    have hdead := hok.disposed d (.inr (by simp [hc])) x hx
    exact absurd (hlife.stand.of_dead hdead).1 hidle
  | free d y hy hhold' =>
    obtain ⟨-, rfl⟩ := sole_inj.mp (hhold.symm.trans hhold')
    exact absurd trivial hst

def Spares (addr : Nat) (s : State) (op : Op) : Prop :=
  ∀ ps, op = .kill ps → ∀ t x, s.thread t = some x → x.wait_key.address = addr → x.proc ∉ ps

theorem Move.live (hmove : Move hash op s s') (hspares : Spares addr s op) {x : Tcb}
    (hx : s.thread t = some x) (ha : x.wait_key.address = addr) (hlive : s.dead x.proc = false) :
    s'.dead x.proc = false := by
  cases hmove with
  | kill ps hop =>
    have hnot := hspares ps hop t x hx ha
    simp [hlive, hnot]
  | close c u y | free c u y => exact (congrFun (dead_unpin s y) x.proc).trans hlive
  | _ => exact hlive

theorem Waits.move (hinv : Inv hash s) (h : Waits addr t s) (hspares : Spares addr s op)
    {st : Stage} (hheld : (t, st) ∈ (s.cpu c).work.holds) (hst : ¬ st.Reaps)
    (hmoving : ∀ key, st ≠ .moving key) (hmove : Move hash op s s') : Waits addr t s' := by
  obtain ⟨x, hx, ha, hlive⟩ := h
  obtain ⟨y, hy, hkey, hproc⟩ :=
    (hmove.turn hinv t).held (hinv.ok t) hx (hinv.hold_eq hheld) hst hmoving
  refine ⟨y, hy, by rw [hkey, ha], ?_⟩
  rw [hproc]
  exact hmove.live hspares hx ha hlive

def Work.claims : Work → List (Nat × Wake)
  | .finish batch => batch.map fun i => (i.thread, i.result)
  | .settle t result rest => (t, result) :: rest.map fun i => (i.thread, i.result)
  | .unblock t result rest => (t, result) :: rest.map fun i => (i.thread, i.result)
  | .release t result rest => (t, result) :: rest.map fun i => (i.thread, i.result)
  | .enqueue t result rest => (t, result) :: rest.map fun i => (i.thread, i.result)
  | _ => []

theorem Work.holds_of_claims {result : Wake} (h : (t, result) ∈ w.claims) :
    ∃ st, (t, st) ∈ w.holds ∧ ¬ st.Reaps ∧ ∀ key, st ≠ .moving key := by
  have hrest {l : List Claim} (hmem : (t, result) ∈ l.map fun i => (i.thread, i.result)) :
      ∃ st, (t, st) ∈ l.map Claim.held ∧ ¬ st.Reaps ∧ ∀ key, st ≠ .moving key := by
    obtain ⟨i, hi, heq⟩ := List.mem_map.mp hmem
    obtain ⟨rfl, -⟩ := Prod.mk.inj heq
    refine ⟨_, List.mem_map.mpr ⟨i, hi, rfl⟩, ?_⟩
    split <;> exact ⟨id, nofun⟩
  have hcons {l : List Claim} {u : Nat} {r : Wake} {st : Stage} (hst : ¬ st.Reaps)
      (hmoving : ∀ key, st ≠ .moving key)
      (hmem : (t, result) ∈ (u, r) :: l.map fun i => (i.thread, i.result)) :
      ∃ st', (t, st') ∈ (u, st) :: l.map Claim.held ∧ ¬ st'.Reaps ∧ ∀ key, st' ≠ .moving key := by
    rcases List.mem_cons.mp hmem with heq | hmem
    · obtain ⟨rfl, -⟩ := Prod.mk.inj heq
      exact ⟨st, List.mem_cons_self, hst, hmoving⟩
    · obtain ⟨st', hst', hnot⟩ := hrest hmem
      exact ⟨st', List.mem_cons_of_mem _ hst', hnot⟩
  cases w with
  | finish batch => exact hrest h
  | settle | unblock | release | enqueue => exact hcons id nofun h
  | _ => cases h

def WakesLive (c : Nat) (s : State) (op : Op) (s' : State) : Prop :=
  ∃ target t x, op = .advance c target ∧ s.thread t = some x ∧ s.dead x.proc = false ∧
    s'.log = s.log ++ [(t, x.parks, .runnable .woken)]

theorem claims_goto {d : Nat} {i : Nat × Wake} {R : Prop}
    (hcpu : s₁.cpu = s.cpu) (h : i ∈ (s.cpu c).work.claims)
    (hself : i ∈ (s.cpu d).work.claims → c = d → i ∈ w.claims ∨ R) :
    i ∈ ((s₁.goto d w).cpu c).work.claims ∨ R := by
  by_cases hd : c = d
  · subst hd
    simpa [State.goto] using hself h rfl
  · left
    rwa [cpu_goto_of_ne hcpu hd]

theorem claims_switch {x : Ctx} {d : Nat} {i : Nat × Wake} (hcpu : s₁.cpu = s.cpu)
    (h : i ∈ (s.cpu c).work.claims) : i ∈ ((s₁.switch d x).cpu c).work.claims := by
  rwa [work_switch hcpu]

theorem Unhooks.claims (h : Unhooks t w w') : w'.claims = w.claims := by cases h <;> rfl
theorem Cancels.claims (h : Cancels t w w') : w'.claims = w.claims := by cases h <;> rfl
theorem claims_of_watches {m : Watch} (h : w.watches = [(t, m)]) : w.claims = [] := by
  cases w <;> first | rfl | cases h

theorem Move.claims (hmove : Move hash op s s') {result : Wake}
    (h : (t, result) ∈ (s.cpu c).work.claims) :
    (t, result) ∈ (s'.cpu c).work.claims ∨ (∃ x, s.thread t = some x ∧ s.dead x.proc = true) ∨
      ∃ target x, op = .advance c target ∧ s.thread t = some x ∧
        s'.log = s.log ++ [(t, x.parks, .runnable result)] := by
  cases hmove with
  | refused | spawn | spawnPinned | kill | store | memory => exact .inl h
  | pop | cull | install | trap | sysret | yield | exit | block | switched | prevStatus | exited | wait
  | mismatch | noNode | rollback | park | parkTimed => exact .inl (claims_switch rfl h)
  | exitedPublish d u x hctx hwork =>
    refine claims_goto (s := (s.setUmem (some d)).switch d (.closing u)) rfl (claims_switch rfl h) ?_
    intro hmem
    simp [State.switch, State.setUmem, hwork, Work.claims] at hmem
  | close d u x => exact .inl (claims_switch (cpu_unpin s x) h)
  | callWake d addr cap hfree | post d addr value hfree | callRequeue d src dst expected cap hfree
  | callInterrupt d now hfree | callDestroy d u v x hfree =>
    exact claims_goto (s := s) rfl h fun hmem _ => by simp [hfree.work, Work.claims] at hmem
  | wake d addr cap hwork | publish d addr value hwork | pick d addr cap next_seq batch key u x hwork
  | skip d addr cap next_seq batch key u x hwork | detached d addr cap next_seq batch hwork
  | unhook d addr cap next_seq batch key u hwork | finished d hwork
  | requeue d src dst expected cap hwork | requeueAgain d src dst expected cap hwork
  | moving d src dst cap next_seq moved key u x hwork
  | scanSkip d src dst cap next_seq moved key hwork | scanned d src dst cap next_seq moved hwork
  | relink d src dst cap next_seq moved key u x hwork
  | interrupt d now hwork | time d now seek key batch u x hwork | timeSkip d now seek seek' batch hwork
  | expired d now seek batch hwork | popDeadline d now seek key batch u x hwork
  | victim d u x hwork | victimOff d u x hwork | victimBlocked d u x hwork | doom d u x hwork
  | claim d u x hwork =>
    exact claims_goto (s := s) rfl h fun hmem _ => by simp [hwork, Work.claims] at hmem
  | free d u x hwork =>
    exact claims_goto (s := s) (cpu_unpin s x) h fun hmem _ => by simp [hwork, Work.claims] at hmem
  | giveUp d u x w hwork =>
    exact claims_goto (s := s) rfl h fun hmem _ => by simp [claims_of_watches hwork] at hmem
  | removeNode d u x w hwork | cancelNone d u x w hwork | cancel d u x w hwork =>
    exact claims_goto (s := s) rfl h fun hmem _ => .inl (hwork.claims ▸ hmem)
  | settleLive d u r rest x hwork | unblock d u r rest x hwork | release d u r rest x hwork =>
    exact claims_goto (s := s) rfl h fun hmem _ => .inl (by rwa [hwork] at hmem)
  | settleDead d u r rest x hwork hx hdead =>
    refine claims_goto (s := s) rfl h fun hmem _ => ?_
    rw [hwork] at hmem
    rcases List.mem_cons.mp hmem with heq | hrest
    · obtain ⟨rfl, -⟩ := Prod.mk.inj heq
      exact .inr (.inl ⟨x, hx, hdead⟩)
    · exact .inl hrest
  | enqueue d u target r rest x hwork hx hop =>
    refine claims_goto (s := s) rfl h fun hmem hd => ?_
    rw [hwork] at hmem
    rcases List.mem_cons.mp hmem with heq | hrest
    · obtain ⟨rfl, rfl⟩ := Prod.mk.inj heq
      exact .inr (.inr ⟨target, x, hd ▸ hop, hx, rfl⟩)
    · exact .inl hrest

def Carries (c addr : Nat) (s : State) : Prop :=
  ∃ t, (t, .woken) ∈ (s.cpu c).work.claims ∧ Waits addr t s

theorem Move.carries (hinv : Inv hash s) (hspares : Spares addr s op) (h : Carries c addr s)
    (hmove : Move hash op s s') : Carries c addr s' ∨ WakesLive c s op s' := by
  obtain ⟨t, hmem, hwaits⟩ := h
  rcases hmove.claims hmem with hmem' | ⟨x, hx, hdead⟩ | ⟨target, x, hop, hx, hlog⟩
  · obtain ⟨st, hheld, hst, hmoving⟩ := Work.holds_of_claims hmem
    exact .inl ⟨t, hmem', hwaits.move hinv hspares hheld hst hmoving hmove⟩
  · obtain ⟨y, hy, -, hlive⟩ := hwaits
    cases hx.symm.trans hy
    cases hlive.symm.trans hdead
  · obtain ⟨y, hy, -, hlive⟩ := hwaits
    cases hx.symm.trans hy
    exact .inr ⟨target, t, x, hop, hx, hlive, hlog⟩

/-! ## 3. The scan -/

/-- How far a scan of the word has come: the next number, and the threads claimed. -/
def Work.progress (addr cap : Nat) : Work → Option (Nat × List Nat)
  | .detach a k next_seq batch => if a = addr ∧ k = cap then some (next_seq, batch) else none
  | .unhook a k next_seq batch _ t =>
    if a = addr ∧ k = cap then some (next_seq, batch ++ [t]) else none
  | _ => none

theorem Work.progress_eq (h : w.progress addr cap = some (next_seq, wins)) :
    w = .detach addr cap next_seq wins ∨
      ∃ batch key t, w = .unhook addr cap next_seq batch key t ∧ wins = batch ++ [t] := by
  unfold Work.progress at h
  split at h
  · split at h
    · rename_i heq
      obtain ⟨rfl, rfl⟩ := heq
      cases h
      exact .inl rfl
    · cases h
  · split at h
    · rename_i heq
      obtain ⟨rfl, rfl⟩ := heq
      cases h
      exact .inr ⟨_, _, _, rfl, rfl⟩
    · cases h
  · cases h

inductive Advances (hash : Nat → Nat) (c addr cap : Nat) (s s' : State) (next_seq : Nat)
    (wins : List Nat) : Prop
  | same (h : (s'.cpu c).work.progress addr cap = some (next_seq, wins))
  | past (key : FutexKey) (t : Nat) (wins' : List Nat)
      (hnext : nextWaiter hash s addr next_seq = some (key, t))
      (h : (s'.cpu c).work.progress addr cap = some (key.seq + 1, wins'))
      (hpark : ∀ y, s'.thread t = some y → y.wake_state ≠ .PARKED)
      (hwins : ∀ u ∈ wins', u ∈ wins ∨ ∃ x, u = t ∧ s.thread t = some x ∧
        x.wake_state = .PARKED ∧ s'.thread t = some { x with wake_state := .CLAIMED })
  | done (hwork : (s.cpu c).work = .detach addr cap next_seq wins)
      (h : (s'.cpu c).work.claims = wins.map (·, .woken))
      (hend : wins.length < cap → nextWaiter hash s addr next_seq = none)

theorem advances_goto {d : Nat} (hcpu : s₁.cpu = s.cpu)
    (h : (s.cpu c).work.progress addr cap = some (next_seq, wins))
    (hself : c = d → Advances hash c addr cap s (s₁.goto d w) next_seq wins) :
    Advances hash c addr cap s (s₁.goto d w) next_seq wins := by
  by_cases hd : c = d
  · exact hself hd
  · apply Advances.same
    rwa [cpu_goto_of_ne hcpu hd]

theorem advances_switch {x : Ctx} {d : Nat} (hcpu : s₁.cpu = s.cpu)
    (h : (s.cpu c).work.progress addr cap = some (next_seq, wins)) :
    Advances hash c addr cap s (s₁.switch d x) next_seq wins := by
  apply Advances.same
  rwa [work_switch hcpu]

theorem Unhooks.progress (h : Unhooks t w w') : w.progress addr cap = none := by
  cases h <;> rfl

theorem Cancels.progress (h : Cancels t w w') : w.progress addr cap = none := by
  cases h <;> rfl

theorem progress_of_watches {m : Watch} (h : w.watches = [(t, m)]) :
    w.progress addr cap = none := by
  cases w <;> first | rfl | cases h

theorem Move.advances (hmove : Move hash op s s')
    (h : (s.cpu c).work.progress addr cap = some (next_seq, wins)) :
    Advances hash c addr cap s s' next_seq wins := by
  cases hmove with
  | refused | spawn | spawnPinned | kill | store | memory => exact .same h
  | pop | cull | install | trap | sysret | yield | exit | block | switched | prevStatus | exited | wait
  | mismatch | noNode | rollback | park | parkTimed => exact advances_switch rfl h
  | exitedPublish d u x hctx hwork =>
    apply Advances.same
    by_cases hd : c = d
    · subst hd
      simp [hwork, Work.progress] at h
    · simpa [State.goto, State.switch, State.setUmem, hd] using h
  | close d u x => exact advances_switch (cpu_unpin s x) h
  | callWake d addr cap hfree | post d addr value hfree | callRequeue d src dst expected cap hfree
  | callInterrupt d now hfree | callDestroy d u v x hfree =>
    exact advances_goto rfl h fun hd => by simp [hd, hfree.work, Work.progress] at h
  | wake d addr cap hwork | publish d addr value hwork | finished d hwork
  | settleLive d u r rest x hwork | settleDead d u r rest x hwork | unblock d u r rest x hwork
  | release d u r rest x hwork | enqueue d u target r rest x hwork
  | requeue d src dst expected cap hwork | requeueAgain d src dst expected cap hwork
  | moving d src dst cap next_seq moved key u x hwork
  | scanSkip d src dst cap next_seq moved key hwork | scanned d src dst cap next_seq moved hwork
  | relink d src dst cap next_seq moved key u x hwork
  | interrupt d now hwork | time d now seek key batch u x hwork | timeSkip d now seek seek' batch hwork
  | expired d now seek batch hwork | popDeadline d now seek key batch u x hwork
  | victim d u x hwork | victimOff d u x hwork | victimBlocked d u x hwork | doom d u x hwork
  | claim d u x hwork =>
    exact advances_goto rfl h fun hd => by simp [hd, hwork, Work.progress] at h
  | free d u x hwork =>
    exact advances_goto (cpu_unpin s x) h fun hd => by simp [hd, hwork, Work.progress] at h
  | giveUp d u x w hwork =>
    exact advances_goto rfl h fun hd => by simp [hd, progress_of_watches hwork] at h
  | removeNode d u x w hwork | cancelNone d u x w hwork | cancel d u x w hwork =>
    exact advances_goto rfl h fun hd => by simp [hd, hwork.progress] at h
  | unhook d a k n batch key u hwork =>
    refine advances_goto rfl h fun hd => .same ?_
    subst hd
    rw [hwork] at h
    simpa [State.goto, Work.progress] using h
  | pick d a k n batch key u x hwork hnext hx hs =>
    refine advances_goto rfl h fun hd => ?_
    subst hd
    rw [hwork] at h
    rcases Work.progress_eq h with heq | ⟨_, _, _, heq, -⟩
    · cases heq
      refine .past key u (wins ++ [u]) hnext ?_ (fun y hy => ?_) fun v hv => ?_
      · simp [State.goto, Work.progress]
      · simp only [State.goto, State.setTcb, Function.update_self, Option.some_inj] at hy
        rw [← hy]
        simp
      · rcases List.mem_append.mp hv with hold | hnew
        · exact .inl hold
        · right
          refine ⟨x, List.mem_singleton.mp hnew, hx, hs, ?_⟩
          simp [State.goto, State.setTcb]
    · cases heq
  | skip d a k n batch key u x hwork hnext hx hs =>
    refine advances_goto rfl h fun hd => ?_
    subst hd
    rw [hwork] at h
    rcases Work.progress_eq h with heq | ⟨_, _, _, heq, -⟩
    · cases heq
      refine .past key u wins hnext ?_ (fun y hy => ?_) fun v hv => .inl hv
      · simp [State.goto, Work.progress]
      · cases hx.symm.trans hy
        exact hs
    · cases heq
  | detached d a k n batch hwork hend =>
    refine advances_goto rfl h fun hd => ?_
    subst hd
    rw [hwork] at h
    rcases Work.progress_eq h with heq | ⟨_, _, _, heq, -⟩
    · cases heq
      refine .done hwork ?_ hend
      simp [State.goto, Work.claims]
    · cases heq

/-- Who is still parked on the word is ahead of the scan, and of a live process, as the
    claimed are. -/
structure Scan (c addr cap : Nat) (s : State) (next_seq : Nat) (wins : List Nat) : Prop where
  work : (s.cpu c).work.progress addr cap = some (next_seq, wins)
  ahead : ∀ t x, s.thread t = some x → x.wake_state = .PARKED → x.wait_key.address = addr →
    next_seq ≤ x.wait_key.seq ∧ s.dead x.proc = false
  wins : ∀ t ∈ wins, Waits addr t s

/-- CPU `c` is in the bucket, has claimed nobody, and nobody is parked on the word. -/
def Deserted (c addr cap : Nat) (s : State) : Prop :=
  (∃ next_seq, (s.cpu c).work = .detach addr cap next_seq []) ∧
    ∀ t x, s.thread t = some x → x.wake_state = .PARKED → x.wait_key.address ≠ addr

theorem Inv.nextWaiter_le (hinv : Inv hash s) {x : Tcb} {key : FutexKey} {u : Nat}
    (hnext : nextWaiter hash s addr next_seq = some (key, u)) (hx : s.thread t = some x)
    (hs : x.wake_state = .PARKED) (ha : x.wait_key.address = addr)
    (hle : next_seq ≤ x.wait_key.seq) : t = u ∨ key.seq + 1 ≤ x.wait_key.seq := by
  obtain ⟨hget, e, he, hele⟩ := hinv.lowerBound_le hx hs ha hle
  obtain ⟨haddr, hget'⟩ := nextWaiter_spec hnext
  have hlow := (Option.filter_eq_some_iff.mp hnext).1
  obtain rfl := Option.some_inj.mp (he.symm.trans hlow)
  rcases FutexKey.le_iff.mp hele with hlt | ⟨heq, hseq⟩
  · exact absurd (haddr.trans ha.symm) (Nat.ne_of_lt hlt)
  · rcases Nat.eq_or_lt_of_le hseq with hsame | hlt
    · left
      have hkey : key = x.wait_key :=
        calc key = ⟨key.address, key.seq⟩ := rfl
          _ = ⟨x.wait_key.address, x.wait_key.seq⟩ := congrArg₂ FutexKey.mk heq hsame
      rw [hkey] at hget'
      exact Option.some_inj.mp (hget.symm.trans hget')
    · exact .inr hlt

theorem le_of_nextWaiter {key : FutexKey}
    (hnext : nextWaiter hash s addr next_seq = some (key, t)) : next_seq ≤ key.seq := by
  have hbound := (OrdMap.get_of_lowerBound (Option.filter_eq_some_iff.mp hnext).1).2
  rcases FutexKey.le_iff.mp hbound with hlt | ⟨-, hle⟩
  · exact absurd (nextWaiter_spec hnext).1 (Nat.ne_of_gt hlt)
  · exact hle

theorem Inv.key_of_nextWaiter (hinv : Inv hash s) {x : Tcb} {key : FutexKey}
    (hnext : nextWaiter hash s addr next_seq = some (key, t)) (hx : s.thread t = some x)
    (hs : x.wake_state = .PARKED) : key = x.wait_key := by
  obtain ⟨hkey, hget⟩ := nextWaiter_spec hnext
  obtain ⟨queued, seated, hlife⟩ := (hinv.ok t).shape.of_parked (v := s.view t) hx hs
  exact hlife.key_of_mem (hkey ▸ hget)

theorem Work.held_of_progress {w : Work} (h : w.progress addr cap = some (next_seq, wins))
    (ht : t ∈ wins) : ∃ st, (t, st) ∈ w.holds ∧ ¬ st.Reaps ∧ ∀ key, st ≠ .moving key := by
  rcases Work.progress_eq h with hwork | ⟨batch, key, u, hwork, rfl⟩
  · refine ⟨.unhooked, ?_, id, by simp⟩
    simpa [hwork, Work.holds] using ht
  · rcases List.mem_append.mp ht with hbatch | hlast
    · refine ⟨.unhooked, ?_, id, by simp⟩
      simpa [hwork, Work.holds] using hbatch
    · refine ⟨.picked key, ?_, id, by simp⟩
      simpa [hwork, Work.holds] using hlast

theorem Work.locks_of_progress (hash : Nat → Nat) {w : Work}
    (h : w.progress addr cap = some (next_seq, wins)) :
    hash addr ∈ w.locks hash ∧ ∀ src dst cap next_seq moved key u,
      w ≠ .relink src dst cap next_seq moved key u := by
  rcases Work.progress_eq h with hwork | ⟨batch, key, u, hwork, -⟩
  · simp [hwork, Work.locks]
  · simp [hwork, Work.locks]

theorem Move.scan (hinv : Inv hash s) (hlocked : Locked hash s) (hspares : Spares addr s op)
    (hcap : 0 < cap) (h : Scan c addr cap s next_seq wins) (hmove : Move hash op s s') :
    (∃ next_seq wins, Scan c addr cap s' next_seq wins) ∨ Carries c addr s' ∨
      Deserted c addr cap s := by
  have hkeep (t : Nat) (ht : t ∈ wins) : Waits addr t s' := by
    obtain ⟨st, hheld, hst, hmoving⟩ := Work.held_of_progress h.work ht
    exact (h.wins t ht).move hinv hspares hheld hst hmoving hmove
  obtain ⟨hlock, hno⟩ := Work.locks_of_progress hash h.work
  -- who is parked now was parked before
  have hback {t : Nat} {y : Tcb} (hy : s'.thread t = some y) (hs : y.wake_state = .PARKED)
      (ha : y.wait_key.address = addr) : ∃ x, s.thread t = some x ∧ x.wake_state = .PARKED ∧
        x.wait_key = y.wait_key ∧ next_seq ≤ y.wait_key.seq ∧ s'.dead y.proc = false := by
    obtain ⟨x, hx, hxs, hkey, hproc⟩ := hlocked.samePark hinv hmove hlock hno hy hs ha
    have hxa : x.wait_key.address = addr := hkey ▸ ha
    obtain ⟨hle, hlive⟩ := h.ahead t x hx hxs hxa
    exact ⟨x, hx, hxs, hkey, hkey ▸ hle, hproc ▸ hmove.live hspares hx hxa hlive⟩
  cases hmove.advances h.work with
  | same hwork =>
    refine .inl ⟨next_seq, wins, hwork, fun t y hy hs ha => ?_, hkeep⟩
    obtain ⟨-, -, -, -, hle, hlive⟩ := hback hy hs ha
    exact ⟨hle, hlive⟩
  | past key u wins' hnext hwork hpark hwins =>
    refine .inl ⟨key.seq + 1, wins', hwork, fun t y hy hs ha => ?_, fun t ht => ?_⟩
    · obtain ⟨x, hx, hxs, hkey, hle, hlive⟩ := hback hy hs ha
      rw [← hkey] at ha hle ⊢
      rcases hinv.nextWaiter_le hnext hx hxs ha hle with rfl | hlt
      · exact absurd hs (hpark y hy)
      · exact ⟨hlt, hlive⟩
    · rcases hwins t ht with hold | ⟨x, rfl, hx, hxs, hy⟩
      · exact hkeep t hold
      · obtain rfl := hinv.key_of_nextWaiter hnext hx hxs
        have ha := (nextWaiter_spec hnext).1
        have hlive := hmove.live hspares hx ha (h.ahead t x hx hxs ha).2
        exact ⟨_, hy, ha, hlive⟩
  | done hwork hclaims hend =>
    cases wins with
    | nil =>
      refine .inr (.inr ⟨⟨next_seq, hwork⟩, fun t x hx hs ha => ?_⟩)
      exact hinv.nextWaiter_isSome hx hs ha (h.ahead t x hx hs ha).1 (hend hcap)
    | cons t rest =>
      refine .inr (.inl ⟨t, ?_, hkeep t List.mem_cons_self⟩)
      simp [hclaims]

/-! ## 4. Whom a wake reaches -/

/-- Threads 1 and 2, of processes 1 and 2, park on word 8; CPU 2 locks the bucket to
    wake one of them. -/
def parkTwo (kills : List Op) : List Op :=
  parkOne 0 ++ [.spawn 2 1 none, .act 1 .popLocal, .act 1 .install, .act 1 .trap, .act 1 (.wait 8 0 0),
    .act 1 (.comparePark true true), .act 0 .parkBlocked, .act 0 .switched] ++ kills ++
    [.act 2 (.call (.wake 8 1)), .advance 2 0]

/-- Thread `t` waits on the word and came before number `n`. -/
def CameBefore (addr n t : Nat) (s : State) : Prop :=
  ∃ x, s.thread t = some x ∧ x.wait_key.address = addr ∧ x.wait_key.seq < n

/-- Who is parked on the word came at number `n` or after. -/
def ParkedFrom (addr n : Nat) (s : State) : Prop :=
  ∀ t x, s.thread t = some x → x.wake_state = .PARKED → x.wait_key.address = addr →
    n ≤ x.wait_key.seq

/-- The scan of CPU `c` has passed the claimed threads and none that is still parked. -/
structure InOrder (c addr cap : Nat) (s : State) (next_seq : Nat) (wins : List Nat) : Prop where
  work : (s.cpu c).work.progress addr cap = some (next_seq, wins)
  ahead : ParkedFrom addr next_seq s
  behind : ∀ t ∈ wins, CameBefore addr next_seq t s

/-- The scan ends with this step: the claimed threads came before all that are still
    parked, and only a full batch leaves any. -/
def TakesOldest (c addr cap : Nat) (s : State) (_ : Op) (s' : State) : Prop :=
  ∃ (n : Nat) (wins : List Nat), (s.cpu c).work = .detach addr cap n wins ∧
    (s'.cpu c).work.claims = wins.map (·, .woken) ∧ (∀ t ∈ wins, CameBefore addr n t s') ∧
    ParkedFrom addr n s' ∧ (wins.length < cap → ∀ m, ParkedFrom addr m s')

theorem Move.inOrder (hinv : Inv hash s) (hlocked : Locked hash s)
    (h : InOrder c addr cap s next_seq wins) (hmove : Move hash op s s') :
    (∃ next_seq wins, InOrder c addr cap s' next_seq wins) ∨ TakesOldest c addr cap s op s' := by
  have hkeep (t : Nat) (ht : t ∈ wins) : CameBefore addr next_seq t s' := by
    obtain ⟨x, hx, ha, hlt⟩ := h.behind t ht
    obtain ⟨st, hheld, hst, hmoving⟩ := Work.held_of_progress h.work ht
    obtain ⟨y, hy, hkey, -⟩ :=
      (hmove.turn hinv t).held (hinv.ok t) hx (hinv.hold_eq hheld) hst hmoving
    exact ⟨y, hy, hkey ▸ ha, hkey ▸ hlt⟩
  obtain ⟨hlock, hno⟩ := Work.locks_of_progress hash h.work
  -- the bucket is locked, so who is parked now was parked before
  have hback {n : Nat} (hn : ∀ t x y, s.thread t = some x → x.wake_state = .PARKED →
      x.wait_key.address = addr → next_seq ≤ x.wait_key.seq → s'.thread t = some y →
      y.wake_state = .PARKED → n ≤ x.wait_key.seq) : ParkedFrom addr n s' := by
    intro t y hy hs ha
    obtain ⟨x, hx, hxs, hkey, -⟩ := hlocked.samePark hinv hmove hlock hno hy hs ha
    have hxa : x.wait_key.address = addr := hkey ▸ ha
    exact hkey ▸ hn t x y hx hxs hxa (h.ahead t x hx hxs hxa) hy hs
  cases hmove.advances h.work with
  | same hwork => exact .inl ⟨next_seq, wins, hwork, hback fun _ _ _ _ _ _ hle _ _ => hle, hkeep⟩
  | past key u wins' hnext hwork hpark hwins =>
    refine .inl ⟨key.seq + 1, wins', hwork, hback fun t x y hx hxs ha hle hy hs => ?_, fun t ht => ?_⟩
    · rcases hinv.nextWaiter_le hnext hx hxs ha hle with rfl | hlt
      · exact absurd hs (hpark y hy)
      · exact hlt
    · rcases hwins t ht with hold | ⟨x, rfl, hx, hxs, hx'⟩
      · obtain ⟨y, hy, hya, hlt⟩ := hkeep t hold
        exact ⟨y, hy, hya, Nat.lt_succ_of_lt (hlt.trans_le (le_of_nextWaiter hnext))⟩
      · obtain rfl := hinv.key_of_nextWaiter hnext hx hxs
        exact ⟨_, hx', (nextWaiter_spec hnext).1, Nat.lt_succ_self _⟩
  | done hwork hclaims hend =>
    refine .inr ⟨next_seq, wins, hwork, hclaims, hkeep, hback fun _ _ _ _ _ _ hle _ _ => hle, ?_⟩
    intro hlt m
    refine hback fun t x y hx hxs ha hle _ _ => ?_
    exact absurd (hend hlt) (hinv.nextWaiter_isSome hx hxs ha hle)

/-- **A wake takes the oldest waiters.**  From the moment a wake has locked the bucket to
    the end of its scan, whatever the other CPUs do meanwhile: the threads it has claimed
    came to the word before every thread that is still parked on it, and a batch that is
    not full leaves nobody. -/
theorem wake_takes_oldest {word : Nat → UInt32} {ops₀ ops : List Op}
    (hreach : Run (step hash) (fun _ _ => True) (boot word) ops₀ s)
    (hwork : (s.cpu c).work = .detach addr cap 0 [])
    (hscan : Run (step hash) (fun s _ => (s.cpu c).work.progress addr cap ≠ none) s ops s')
    (hend : (s'.cpu c).work.progress addr cap = none) :
    Run.Has (step hash) (TakesOldest c addr cap) s ops := by
  have hinv : Inv hash s := .of_run hreach (boot_inv word)
  have hlocked : Locked hash s := by
    refine hreach.invariant (P := Locked hash) nofun fun s op s' h _ hstep => ?_
    exact (step_move hstep).locked h
  refine hscan.has_of_until (Q := fun s => Inv hash s ∧ Locked hash s ∧
    ∃ next_seq wins, InOrder c addr cap s next_seq wins) ?_ ?_ ?_
  · refine ⟨hinv, hlocked, 0, [], ?_, fun _ _ _ _ _ => Nat.zero_le _, fun t ht => ?_⟩
    · simp [hwork, Work.progress]
    · cases ht
  · rintro s op s' ⟨hinv, hlocked, next_seq, wins, horder⟩ - hstep
    have hmove := step_move hstep
    rcases hmove.inOrder hinv hlocked horder with hnext | htakes
    · exact .inl ⟨hmove.inv hinv, hmove.locked hlocked, hnext⟩
    · exact .inr htakes
  · rintro ⟨-, -, next_seq, wins, horder⟩
    cases hend.symm.trans horder.work

theorem wake_takes_oldest_two : ∃ s s',
    Run (step id) (fun _ _ => True) (boot fun _ => 0) (parkTwo []) s ∧
    Run (step id) (fun s _ => (s.cpu 2).work.progress 8 1 ≠ none) s
      (List.replicate 3 (.advance 2 0)) s' ∧
    Run.Has (step id) (TakesOldest 2 8 1) s (List.replicate 3 (.advance 2 0)) := by
  obtain ⟨s, s', hreach, hscan, hwork, hend⟩ : ∃ s s',
      Run (step id) (fun _ _ => True) (boot fun _ => 0) (parkTwo []) s ∧
      Run (step id) (fun s _ => (s.cpu 2).work.progress 8 1 ≠ none) s
        (List.replicate 3 (.advance 2 0)) s' ∧
      (s.cpu 2).work = .detach 8 1 0 [] ∧ (s'.cpu 2).work.progress 8 1 = none :=
    ⟨_, _, .of_foldlM (fun _ _ _ => trivial) rfl,
      .cons nofun rfl <| .cons nofun rfl <| .cons nofun rfl <| .nil _, rfl, rfl⟩
  exact ⟨s, s', hreach, hscan, wake_takes_oldest hreach hwork hscan hend⟩

end GovinDos.Thread
