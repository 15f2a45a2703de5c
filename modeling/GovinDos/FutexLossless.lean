/-
  **No wake-up is lost between publish and park (`kernel/src/futex.c`,
  `channel.c`).**

  A word has one client, no requeue touches it, and what stores it are the posts of a ring
  (a store, then a wake) and `futex_publish_wake` (one bucket section).  The client compares
  and parks in one bucket section too, so a stale park is one whose publisher has still its
  wake to do.
-/
import GovinDos.ThreadSafety

namespace GovinDos.Thread

open Function

variable {hash : Nat → Nat} {op : Op} {s s' : State} {a c t : Nat} {u seq addr next_seq : Nat}
  {s₁ : State} {w w' : Work}

/-! ## 1. The one client -/

def Private (a t : Nat) (s : State) : Op → Prop
  | .store addr _ => addr ≠ a
  | .act c (.wait addr _ _) => addr = a → (s.cpu c).ctx = .kernel t
  | .act _ (.call (.requeue src dst _ _)) => src ≠ a ∧ dst ≠ a
  | _ => True

def Work.Apart (a : Nat) : Work → Prop
  | .requeue src dst _ _ => src ≠ a ∧ dst ≠ a
  | .scan src dst _ _ _ => src ≠ a ∧ dst ≠ a
  | .relink src dst _ _ _ _ _ => src ≠ a ∧ dst ≠ a
  | _ => True

structure Client (a t : Nat) (s : State) : Prop where
  apart : ∀ c, (s.cpu c).work.Apart a
  waiting : ∀ c u expected deadline, (s.cpu c).ctx = .waiting u a expected deadline → u = t
  nodes : ∀ b key u, (s.waiters b).get key = some u → key.address = a → u = t

theorem Client.goto (h : Client a t s) (hcpu : s₁.cpu = s.cpu)
    (hw : w.Apart a)
    (hnodes : ∀ b key u, (s₁.waiters b).get key = some u → key.address = a → u = t) :
    Client a t (s₁.goto c w) := by
  refine ⟨fun d => ?_, fun d u expected deadline hctx => ?_, hnodes⟩
  · simp only [State.goto, hcpu]
    by_cases hd : d = c
    · simpa [hd] using hw
    · simpa [hd] using h.apart d
  · apply h.waiting d u expected deadline
    by_cases hd : d = c
    · simpa [State.goto, hcpu, hd] using hctx
    · simpa [State.goto, hcpu, hd] using hctx

theorem Client.switch (h : Client a t s) {x : Ctx} (hcpu : s₁.cpu = s.cpu)
    (hx : ∀ u expected deadline, x = .waiting u a expected deadline → u = t)
    (hnodes : ∀ b key u, (s₁.waiters b).get key = some u → key.address = a → u = t) :
    Client a t (s₁.switch c x) := by
  refine ⟨fun d => ?_, fun d u expected deadline hctx => ?_, hnodes⟩
  · have := h.apart d
    by_cases hd : d = c
    · simpa [State.switch, hcpu, hd] using hd ▸ this
    · simpa [State.switch, hcpu, hd] using this
  · by_cases hd : d = c
    · apply hx u expected deadline
      simpa [State.switch, hd] using hctx
    · apply h.waiting d u expected deadline
      simpa [State.switch, hcpu, hd] using hctx

theorem Client.nodes_erase (h : Client a t s) (b : Nat) (k : FutexKey) (b' : Nat) (key : FutexKey)
    (u : Nat) (hget : ((s.eraseNode b k).waiters b').get key = some u) (ha : key.address = a) :
    u = t :=
  h.nodes b' key u (get_eraseNode hget) ha

theorem Move.client (hp : Private a t s op) (h : Client a t s) (hmove : Move hash op s s') :
    Client a t s' := by
  cases hmove with
  | refused | spawn | spawnPinned | kill | store | memory => exact ⟨h.apart, h.waiting, h.nodes⟩
  | pop | cull | install | trap | sysret | yield | exit | block | switched | mismatch | noNode | exited =>
    exact h.switch rfl (by simp) h.nodes
  | prevStatus =>
    refine h.switch rfl (fun u expected deadline heq => ?_) h.nodes
    split at heq <;> cases heq
  | exitedPublish c u =>
    have hsw : Client a t ((s.setUmem (some c)).switch c (.closing u)) := h.switch rfl (by simp) h.nodes
    exact hsw.goto rfl trivial h.nodes
  | close c u x =>
    refine h.switch (cpu_unpin s x) (by simp) fun b key v hget => ?_
    apply h.nodes b key v
    rw [← waiters_unpin s x]
    exact hget
  | wait c u addr expected deadline x hctx hwork hx hlive hop =>
    subst hop
    refine h.switch rfl (fun v e d heq => ?_) h.nodes
    cases heq
    cases hctx.symm.trans (hp rfl)
    rfl
  | rollback c u addr expected deadline x hctx hx m hm =>
    refine h.switch rfl (by simp) fun b key v hget => ?_
    apply h.nodes b key v
    by_cases hb : b = hash addr
    · subst hb
      rw [← hm]
      simpa [State.setTcb, State.setWaiters] using hget
    · simpa [State.setTcb, State.setWaiters, State.bumpSeq, hb] using hget
  | park c u addr expected x hctx =>
    refine h.switch rfl (by simp) fun b key v hget ha => ?_
    rcases get_insertNode hget with ⟨rfl, rfl⟩ | hold
    · cases ha
      exact h.waiting c v expected 0 hctx
    · exact h.nodes b key v hold ha
  | parkTimed c u addr expected deadline x hctx =>
    refine h.switch rfl (by simp) fun b key v hget ha => ?_
    rcases get_insertNode hget with ⟨rfl, rfl⟩ | hold
    · cases ha
      exact h.waiting c v expected deadline hctx
    · exact h.nodes b key v hold ha
  | callRequeue c src dst expected cap hfree hne hop =>
    subst hop
    exact h.goto rfl hp h.nodes
  | callWake | post | callInterrupt | callDestroy | wake | publish | pick | skip | detached | finished
  | settleDead | settleLive | unblock | release | enqueue | requeueAgain | interrupt | time | timeSkip
  | expired | popDeadline | giveUp | victim | victimOff | victimBlocked | doom | claim =>
    exact h.goto rfl (by trivial) h.nodes
  | requeue c src dst expected cap hwork | moving c src dst cap next_seq moved key u x hwork
  | scanSkip c src dst cap next_seq moved key hwork | scanned c src dst cap next_seq moved hwork =>
    have hapart := h.apart c
    rw [hwork] at hapart
    exact h.goto rfl (by first | exact hapart | trivial) h.nodes
  | unhook c addr cap next_seq batch key =>
    exact h.goto rfl trivial (h.nodes_erase (hash addr) key)
  | removeNode c u x w hwork =>
    refine h.goto rfl ?_ (h.nodes_erase _ _)
    generalize (s.cpu c).work = w₀ at hwork
    cases hwork <;> trivial
  | cancelNone c u x w hwork | cancel c u x w hwork =>
    refine h.goto rfl ?_ h.nodes
    generalize (s.cpu c).work = w₀ at hwork
    cases hwork <;> trivial
  | relink c src dst cap next_seq moved key u x hwork =>
    have hapart := h.apart c
    rw [hwork] at hapart
    refine h.goto rfl hapart fun b k v hget ha => ?_
    rcases get_insertNode hget with ⟨rfl, -⟩ | hold
    · exact absurd ha hapart.2
    · exact h.nodes_erase _ _ b k v hold ha
  | free c u x =>
    refine h.goto (cpu_unpin s x) trivial fun b key v hget => ?_
    apply h.nodes b key v
    rw [← waiters_unpin s x]
    exact hget

/-! ## 2. Parks across a step -/

def SamePark (t : Nat) (s s' : State) : Prop :=
  ∀ y, s'.thread t = some y → y.wake_state = .PARKED →
    ∃ x, s.thread t = some x ∧ x.wake_state = .PARKED ∧ x.wait_key = y.wait_key ∧
      x.expected = y.expected ∧ x.proc = y.proc

def NewPark (hash : Nat → Nat) (t : Nat) (s s' : State) : Prop :=
  ∀ y, s'.thread t = some y →
    (s.bucketLock (hash y.wait_key.address) = none ∧ y.expected = s'.word y.wait_key.address) ∨
      ∃ c src cap next_seq moved key,
        (s.cpu c).work = .relink src y.wait_key.address cap next_seq moved key t

theorem SamePark.of_eq (h : s'.thread t = s.thread t) : SamePark t s s' := by
  intro y hy hs
  exact ⟨y, h ▸ hy, hs, rfl, rfl, rfl⟩

theorem SamePark.setTcb {y : Tcb} (hthread : s₁.thread = s.thread)
    (hy : y.wake_state = .PARKED → ∃ x, s.thread u = some x ∧ x.wake_state = .PARKED ∧
      x.wait_key = y.wait_key ∧ x.expected = y.expected ∧ x.proc = y.proc) :
    SamePark t s (s₁.setTcb u (some y)) := by
  intro z hz hs
  by_cases hu : t = u
  · subst hu
    simp only [State.setTcb, update_self, Option.some_inj] at hz
    subst hz
    exact hy hs
  · exact ⟨z, by simpa [State.setTcb, hu, hthread] using hz, hs, rfl, rfl, rfl⟩

theorem SamePark.removed {x : Tcb}
    (hthread : s'.thread = update (unpin s x).thread u none) : SamePark t s s' := by
  intro y hy hs
  rw [hthread, thread_unpin] at hy
  by_cases hu : t = u
  · simp [hu] at hy
  · exact ⟨y, by simpa [hu] using hy, hs, rfl, rfl, rfl⟩

theorem samePark_or_new {y : Tcb} (hthread : s'.thread = update s.thread u (some y))
    (hnew : (s.bucketLock (hash y.wait_key.address) = none ∧ y.expected = s'.word y.wait_key.address) ∨
      ∃ c src cap next_seq moved key,
        (s.cpu c).work = .relink src y.wait_key.address cap next_seq moved key u) :
    SamePark t s s' ∨ NewPark hash t s s' := by
  by_cases hu : t = u
  · subst hu
    right
    intro z hz
    simp only [hthread, update_self, Option.some_inj] at hz
    exact hz ▸ hnew
  · left
    apply SamePark.of_eq
    rw [hthread, update_of_ne hu]

theorem Move.samePark (hinv : Inv hash s) (hmove : Move hash op s s') (t : Nat) :
    SamePark t s s' ∨ NewPark hash t s s' := by
  cases hmove with
  | spawn | spawnPinned | pick | settleDead | release | moving | time | claim =>
    exact .inl (.setTcb rfl nofun)
  | cull c u rest x hctx hwork hq hx | install c u x hctx hx | yield c u x hctx hwork hx
  | exit c u x hctx hwork hx | block c u x hctx hx | switched c u x hctx hx
  | unblock c u result rest x hwork hx | popDeadline c now seek key batch u x hwork hget hx
  | cancel c u x w hwork hx =>
    exact .inl (.setTcb rfl fun hs => ⟨x, hx, hs, rfl, rfl, rfl⟩)
  | rollback c u addr expected deadline x hctx hx =>
    have hidle := (hinv.ok u).shape.idle_of_seat (v := s.view u) hx
      (hinv.seat_eq hctx rfl) (by simp) (by simp)
    exact .inl (.setTcb rfl fun hs => by cases hidle.symm.trans hs)
  | close | free => exact .inl (.removed rfl)
  | park c u addr expected x hctx hx hlock hword
  | parkTimed c u addr expected deadline x hctx hx hlock hword =>
    exact samePark_or_new rfl (.inl ⟨hlock, hword.symm⟩)
  | relink c src dst cap next_seq moved key u x hwork =>
    exact samePark_or_new rfl (.inr ⟨c, src, cap, next_seq, moved, key, hwork⟩)
  | _ => exact .inl (.of_eq rfl)

/-! ## 3. Stale parks -/

/-- A CPU that has still to come past the node with number `seq` of the word at `a`. -/
def Work.Pending (a seq : Nat) : Work → Prop
  | .wake addr cap => addr = a ∧ 0 < cap
  | .detach addr cap next_seq batch => addr = a ∧ batch.length < cap ∧ next_seq ≤ seq
  | _ => False

/-- Where the client is parked on a value the word no longer has, the CPU that
    stored the word has its wake still to do. -/
def Answered (a t : Nat) (s : State) : Prop :=
  ∀ x, s.thread t = some x → x.wake_state = .PARKED → x.wait_key.address = a →
    x.expected ≠ s.word a →
      ∃ c, s.publisher a = some c ∧ (s.cpu c).work.Pending a x.wait_key.seq

theorem Answered.keep (h : Answered a t s) (hpark : SamePark t s s') (hword : s'.word a = s.word a)
    (hpub : s'.publisher a = s.publisher a)
    (hpend : ∀ c seq, (∃ x, s.thread t = some x ∧ x.wake_state = .PARKED ∧
        x.wait_key = ⟨a, seq⟩) → (s.cpu c).work.Pending a seq → (s'.cpu c).work.Pending a seq) :
    Answered a t s' := by
  intro y hy hs ha hne
  obtain ⟨x, hx, hxs, hkey, hexp, -⟩ := hpark y hy hs
  rw [← hkey] at ha ⊢
  rw [hword, ← hexp] at hne
  obtain ⟨c, hc, hwork⟩ := h x hx hxs ha hne
  refine ⟨c, hpub.trans hc, hpend c _ ⟨x, hx, hxs, ?_⟩ hwork⟩
  rw [← ha]

theorem work_switch {x : Ctx} (hcpu : s₁.cpu = s.cpu) (d : Nat) :
    ((s₁.switch c x).cpu d).work = (s.cpu d).work := by
  by_cases hd : d = c <;> simp [State.switch, hcpu, hd]

theorem pending_goto (hcpu : s₁.cpu = s.cpu)
    (hw : (s.cpu c).work.Pending a seq → w.Pending a seq) (d : Nat)
    (h : (s.cpu d).work.Pending a seq) : ((s₁.goto c w).cpu d).work.Pending a seq := by
  by_cases hd : d = c
  · subst hd
    simpa [State.goto] using hw h
  · simpa [State.goto, hcpu, hd] using h

theorem Answered.goto (h : Answered a t s) (hcpu : s₁.cpu = s.cpu)
    (hpark : SamePark t s (s₁.goto c w)) (hword : s₁.word a = s.word a)
    (hpub : s₁.publisher a = s.publisher a)
    (hnot : ∀ seq, ¬ (s.cpu c).work.Pending a seq) : Answered a t (s₁.goto c w) :=
  h.keep hpark hword hpub fun d seq _ hd => pending_goto hcpu (fun hc => absurd hc (hnot seq)) d hd

theorem Answered.switch (h : Answered a t s) {x : Ctx} (hcpu : s₁.cpu = s.cpu)
    (hpark : SamePark t s (s₁.switch c x)) (hword : s₁.word a = s.word a)
    (hpub : s₁.publisher a = s.publisher a) : Answered a t (s₁.switch c x) :=
  h.keep hpark hword hpub fun d seq _ hd => by rwa [work_switch hcpu]

theorem Answered.publish (h : Answered a t s) {value : UInt32}
    (hcpu : s₁.cpu = s.cpu) (hthread : s₁.thread = s.thread) (hword : s₁.word = s.word)
    (hpub : s₁.publisher = s.publisher) (hw : ∀ seq, w.Pending addr seq)
    (hnot : ∀ seq, ¬ (s.cpu c).work.Pending a seq) :
    Answered a t ((s₁.publishWord c addr value).goto c w) := by
  by_cases haddr : addr = a
  · subst haddr
    intro y hy hs ha hne
    refine ⟨c, by simp [State.goto, State.publishWord], ?_⟩
    simpa [State.goto] using hw _
  · refine h.goto hcpu (.of_eq (congrFun hthread t)) ?_ ?_ hnot
    · simp [State.publishWord, State.setWord, Ne.symm haddr, hword]
    · simp [State.publishWord, Ne.symm haddr, hpub]

theorem FutexKey.le_iff {k k' : FutexKey} :
    k ≤ k' ↔ k.address < k'.address ∨ k.address = k'.address ∧ k.seq ≤ k'.seq := by
  change toLex (k.address, k.seq) ≤ toLex (k'.address, k'.seq) ↔ _
  simp [Prod.Lex.toLex_le_toLex]

theorem Inv.lowerBound_le (hinv : Inv hash s) {x : Tcb} (hx : s.thread t = some x)
    (hs : x.wake_state = .PARKED) (ha : x.wait_key.address = a) (hle : next_seq ≤ x.wait_key.seq) :
    (s.waiters (hash a)).get x.wait_key = some t ∧
      ∃ e, (s.waiters (hash a)).lowerBound ⟨a, next_seq⟩ = some e ∧ e.1 ≤ x.wait_key := by
  obtain ⟨queued, seated, hlife⟩ := (hinv.ok t).shape.of_parked (v := s.view t) hx hs
  have hget := hlife.get_node
  rw [ha] at hget
  exact ⟨hget, OrdMap.exists_lowerBound hget (FutexKey.le_iff.mpr (.inr ⟨ha.symm, hle⟩))⟩

theorem Inv.nextWaiter_isSome (hinv : Inv hash s) {x : Tcb}
    (hx : s.thread t = some x) (hs : x.wake_state = .PARKED) (ha : x.wait_key.address = a)
    (hle : next_seq ≤ x.wait_key.seq) : nextWaiter hash s a next_seq ≠ none := by
  obtain ⟨-, e, he, hele⟩ := hinv.lowerBound_le hx hs ha hle
  have hbound := (OrdMap.get_of_lowerBound he).2
  have haddr : e.1.address = a := by
    rcases FutexKey.le_iff.mp hele with hlt | ⟨heq, -⟩
    · rcases FutexKey.le_iff.mp hbound with hlt' | ⟨heq', -⟩
      · exact absurd (hlt.trans (ha ▸ hlt')) (lt_irrefl _)
      · exact heq'.symm
    · exact heq.trans ha
  intro hnone
  unfold nextWaiter at hnone
  rw [he, Option.filter_some_pos (by simpa using haddr)] at hnone
  cases hnone

theorem Unhooks.not_pending (h : Unhooks u w w') : ¬ w.Pending a seq := by
  cases h <;> exact id

theorem Cancels.not_pending (h : Cancels u w w') : ¬ w.Pending a seq := by
  cases h <;> exact id

theorem Client.next_eq (h : Client a t s) {key : FutexKey}
    (hnext : nextWaiter hash s addr next_seq = some (key, u)) (hne : u ≠ t) : addr ≠ a := by
  intro haddr
  obtain ⟨hkey, hget⟩ := nextWaiter_spec hnext
  exact hne (h.nodes _ key u hget (hkey.trans haddr))

theorem Move.answered (hinv : Inv hash s) (hp : Private a t s op) (hclient : Client a t s)
    (h : Answered a t s) (hmove : Move hash op s s') : Answered a t s' := by
  rcases hmove.samePark hinv t with hsame | hnew
  swap
  · -- the client parks on the value the word has
    intro y hy hs ha hne
    rcases hnew y hy with ⟨-, heq⟩ | ⟨c, src, cap, next_seq, moved, key, hwork⟩
    · exact absurd (ha ▸ heq) hne
    · have hapart := hclient.apart c
      rw [hwork] at hapart
      exact absurd ha hapart.2
  cases hmove with
  | refused | kill | memory => exact h
  | spawn | spawnPinned => exact h.keep hsame rfl rfl fun _ _ _ hd => hd
  | store addr value hop =>
    subst hop
    have hne : a ≠ addr := Ne.symm hp
    refine h.keep hsame ?_ rfl fun _ _ _ hd => hd
    simp [State.setWord, hne]
  | pop | trap | sysret | prevStatus | exited | wait | mismatch | noNode | cull | install | yield | exit
  | block | switched | rollback | park | parkTimed => exact h.switch rfl hsame rfl rfl
  | exitedPublish c u x hctx hwork =>
    have hsw : Answered a t ((s.setUmem (some c)).switch c (.closing u)) :=
      h.switch rfl (.of_eq rfl) rfl rfl
    refine hsw.goto rfl (.of_eq rfl) rfl rfl fun seq => ?_
    simp [State.switch, State.setUmem, hwork, Work.Pending]
  | close c u x =>
    refine h.switch (cpu_unpin s x) hsame ?_ ?_
    · exact congrFun (word_unpin s x) a
    · exact congrFun (publisher_unpin s x) a
  | callWake c addr cap hfree | callRequeue c src dst expected cap hfree | callInterrupt c now hfree
  | callDestroy c u v x hfree =>
    exact h.goto rfl hsame rfl rfl fun seq => by simp [hfree.work, Work.Pending]
  | post c addr value hfree =>
    refine h.publish rfl rfl rfl rfl (fun seq => ⟨rfl, Nat.one_pos⟩) fun seq => ?_
    simp [hfree.work, Work.Pending]
  | wake c addr cap hwork =>
    refine h.keep hsame rfl rfl fun d seq _ hd => pending_goto (s := s) rfl (fun hc => ?_) d hd
    rw [hwork] at hc
    exact ⟨hc.1, hc.2, Nat.zero_le _⟩
  | publish c addr value hwork =>
    refine h.publish rfl rfl rfl rfl (fun seq => ⟨rfl, Nat.one_pos, Nat.zero_le _⟩) fun seq => ?_
    simp [hwork, Work.Pending]
  | pick c addr cap next_seq batch key u x hwork hnext =>
    by_cases hu : u = t
    · subst hu
      intro y hy hs
      have hy : (s.setTcb u (some { x with wake_state := .CLAIMED })).thread u = some y := hy
      simp only [State.setTcb, update_self, Option.some_inj] at hy
      subst hy
      cases hs
    · refine h.goto rfl hsame rfl rfl fun seq => ?_
      simp [hwork, Work.Pending, hclient.next_eq hnext hu]
  | skip c addr cap next_seq batch key u x hwork hnext hx hs =>
    by_cases hu : u = t
    · subst hu
      intro y hy hs'
      cases hx.symm.trans hy
      exact absurd hs' hs
    · refine h.goto rfl hsame rfl rfl fun seq => ?_
      simp [hwork, Work.Pending, hclient.next_eq hnext hu]
  | detached c addr cap next_seq batch hwork hend =>
    refine h.keep hsame rfl rfl fun d seq hparked hd => pending_goto (s := s) rfl (fun hc => ?_) d hd
    rw [hwork] at hc
    obtain ⟨rfl, hlt, hle⟩ := hc
    obtain ⟨x, hx, hs, hkey⟩ := hparked
    refine absurd (hend hlt) (hinv.nextWaiter_isSome hx hs ?_ ?_)
    · rw [hkey]
    · rwa [hkey]
  | unhook c addr cap next_seq batch key u hwork | finished c hwork
  | settleLive c u result rest x hwork | settleDead c u result rest x hwork
  | unblock c u result rest x hwork | release c u result rest x hwork
  | enqueue c u target result rest x hwork
  | requeue c src dst expected cap hwork | requeueAgain c src dst expected cap hwork
  | moving c src dst cap next_seq moved key u x hwork
  | scanSkip c src dst cap next_seq moved key hwork | scanned c src dst cap next_seq moved hwork
  | relink c src dst cap next_seq moved key u x hwork
  | interrupt c now hwork | time c now seek key batch u x hwork | timeSkip c now seek seek' batch hwork
  | expired c now seek batch hwork | popDeadline c now seek key batch u x hwork
  | victim c u x hwork | victimOff c u x hwork | victimBlocked c u x hwork | doom c u x hwork
  | claim c u x hwork =>
    exact h.goto rfl hsame rfl rfl fun seq => by simp [hwork, Work.Pending]
  | giveUp c u x w hwork =>
    refine h.goto rfl hsame rfl rfl fun seq hc => ?_
    cases hw : (s.cpu c).work <;> simp_all [Work.Pending, Work.watches]
  | removeNode c u x w hwork | cancelNone c u x w hwork | cancel c u x w hwork =>
    exact h.goto rfl hsame rfl rfl fun seq => hwork.not_pending
  | free c u x hwork =>
    refine h.goto (cpu_unpin s x) hsame ?_ ?_ fun seq => by simp [hwork, Work.Pending]
    · exact congrFun (word_unpin s x) a
    · exact congrFun (publisher_unpin s x) a

/-- No wake-up is lost: where `t` is the only client of the word at `a`, whenever `t` is
    parked on a value that is not the word's, the CPU that stored the word is still on its
    way to the bucket, or in it and not past the node of `t`. -/
theorem no_lost_wake {word : Nat → UInt32} {ops : List Op} {x : Tcb}
    (hrun : Run (step hash) (Private a t) (boot word) ops s) (hx : s.thread t = some x)
    (hs : x.wake_state = .PARKED) (ha : x.wait_key.address = a) (hne : x.expected ≠ s.word a) :
    ∃ c, s.publisher a = some c ∧ (s.cpu c).work.Pending a x.wait_key.seq := by
  obtain ⟨-, -, h⟩ : Inv hash s ∧ Client a t s ∧ Answered a t s := by
    refine hrun.invariant (P := fun s => Inv hash s ∧ Client a t s ∧ Answered a t s)
      ⟨boot_inv word, ⟨fun _ => trivial, nofun, nofun⟩, nofun⟩ fun s op s' h hok hstep => ?_
    obtain ⟨hinv, hclient, h⟩ := h
    have hmove := step_move hstep
    exact ⟨hmove.inv hinv, hmove.client hok hclient, hmove.answered hinv hok hclient h⟩
  exact h x hx hs ha hne

theorem no_lost_wake_post : ∃ s, Run (step id) (Private 8 1) (boot fun _ => 0)
      (parkOne 0 ++ [.act 1 (.call (.post 8 1))]) s ∧
    ∃ c, s.publisher 8 = some c ∧ (s.cpu c).work.Pending 8 0 := by
  have hrun : Run (step id) (Private 8 1) (boot fun _ => 0)
      (parkOne 0 ++ [.act 1 (.call (.post 8 1))]) _ :=
    .cons trivial rfl <| .cons trivial rfl <| .cons trivial rfl <| .cons trivial rfl <|
      .cons (fun _ => rfl) rfl <| .cons trivial rfl <| .cons trivial rfl <| .nil _
  exact ⟨_, hrun, no_lost_wake hrun rfl rfl rfl (by decide)⟩

end GovinDos.Thread
