/-
  **No interrupt is lost, as long as the indices tell (`kernel/src/schemes/irq.c`).**

  An event that was consumed and not retired looks outstanding again to `cqe_consumed` once
  the client is `2 ^ 31` events past it, and from then on nothing is posted for the route.
-/
import GovinDos.IrqDelivery

namespace GovinDos.Irq

open RingBuffer Function

/-! ## 1. The invariant -/

structure Queue.Ok (q : Queue) : Prop where
  count : q.cq_count = UInt32.ofNat q.posted
  head : q.cq_head = UInt32.ofNat q.taken
  order : q.taken ≤ q.posted
  room : q.posted ≤ q.taken + q.nslots.toNat
  slots : q.nslots.toNat ≤ 2 ^ 31

/-- The events of a route: all consumed, or all but the last, which the route still
    keeps as posted. -/
inductive Outstanding (q : Queue) : Bool → Nat → List Nat → Prop
  | idle {ev : Nat} {events : List Nat} (h : ∀ k ∈ events, k < q.taken) :
      Outstanding q false ev events
  | posted {old : List Nat} {k : Nat} (h : ∀ j ∈ old, j < q.taken) (hk : k < q.posted) :
      Outstanding q true (UInt32.ofNat k).toNat (old ++ [k])

structure RouteOk (irq : State) (queue : Nat → Queue) (held : Bool) (events : List Nat) (i : Nat) :
    Prop where
  claimed : ∀ ring, (irq.g_routes i).ring = some ring →
    ∃ r, irq.rings.get ring = some r ∧ i ∈ r.irq_claims
  event : ∀ ring, (irq.g_routes i).ring = some ring →
    Outstanding (queue ring) (irq.g_routes i).posted (irq.g_routes i).ev_index events
  held : held = true → (irq.g_routes i).pending = true

structure System.Sound (s : System) : Prop where
  queue : ∀ ring, (s.queue ring).Ok
  route : ∀ i, RouteOk s.irq s.queue (s.held i) (s.events i) i

namespace Queue.Ok

variable {q : Queue}

theorem fresh {nslots : UInt32} (h : nslots.toNat ≤ 2 ^ 31) : (Queue.fresh nslots).Ok :=
  ⟨rfl, rfl, Nat.le_refl 0, Nat.zero_le _, h⟩

theorem push (h : q.Ok) (hroom : q.full = false) : q.push.Ok where
  count := by
    rw [Queue.push, h.count]
    exact ofNat_succ q.posted
  head := h.head
  order := Nat.le_succ_of_le h.order
  room := by
    have hlt : q.nslots.toNat < 2 ^ 32 := q.nslots.toNat_lt
    have hnear := h.room
    have hsub := toNat_sub_ofNat h.order (by have := h.slots; omega)
    simp only [Queue.full, h.count, h.head, decide_eq_false_iff_not, UInt32.le_iff_toNat_le, hsub]
      at hroom
    simp only [Queue.push]
    omega
  slots := h.slots

theorem take (h : q.Ok) {n : Nat} (hn : q.taken + n ≤ q.posted) : (q.take n).Ok where
  count := h.count
  head := by
    rw [Queue.take, h.head]
    exact (UInt32.ofNat_add q.taken n).symm
  order := hn
  room := by
    have := h.room
    simp only [Queue.take]
    omega
  slots := h.slots

end Queue.Ok

theorem Outstanding.mono {q q' : Queue} {posted : Bool} {ev : Nat} {events : List Nat}
    (h : Outstanding q posted ev events) (htaken : q.taken ≤ q'.taken)
    (hposted : q.posted ≤ q'.posted) : Outstanding q' posted ev events := by
  cases h with
  | idle h => exact .idle fun k hk => Nat.lt_of_lt_of_le (h k hk) htaken
  | posted h hk =>
    exact .posted (fun j hj => Nat.lt_of_lt_of_le (h j hj) htaken) (Nat.lt_of_lt_of_le hk hposted)

theorem Outstanding.nil (q : Queue) (ev : Nat) : Outstanding q false ev [] :=
  .idle fun _ hk => absurd hk List.not_mem_nil

theorem Outstanding.of_consumed {q : Queue} {ev : Nat} {events : List Nat} (hq : q.Ok)
    (h : Outstanding q true ev events) (hyes : cqeConsumed q.cq_head (UInt32.ofNat ev) = true) :
    ∀ k ∈ events, k < q.taken := by
  cases h with
  | posted hold hk =>
    rename_i old k
    simp only [cqeConsumed, hq.head, UInt32.ofNat_toNat, decide_eq_true_eq] at hyes
    have hlt : k < q.taken := by
      by_contra hge
      have := hq.room
      have := hq.slots
      exact not_passed (by omega) (by omega) hyes
    intro j hj
    simp only [List.mem_append, List.mem_singleton] at hj
    rcases hj with hj | rfl
    · exact hold j hj
    · exact hlt

/-! ## 2. Steps -/

structure SameClaim (r r' : Route) : Prop where
  ring : r'.ring = r.ring
  posted : r'.posted = r.posted
  ev_index : r'.ev_index = r.ev_index

section

variable {s s' : System} {i j : Nat} {ring : Nat}

theorem RouteOk.frame {irq irq' : State} {queue queue' : Nat → Queue} {held : Bool}
    {events : List Nat} (h : RouteOk irq queue held events i)
    (hroute : irq'.g_routes i = irq.g_routes i)
    (hrings : ∀ ring r, (irq.g_routes i).ring = some ring → irq.rings.get ring = some r →
      i ∈ r.irq_claims → ∃ r', irq'.rings.get ring = some r' ∧ i ∈ r'.irq_claims)
    (hqueue : ∀ ring, (irq.g_routes i).ring = some ring →
      (queue ring).taken ≤ (queue' ring).taken ∧ (queue ring).posted ≤ (queue' ring).posted) :
    RouteOk irq' queue' held events i where
  claimed ring hring := by
    rw [hroute] at hring
    obtain ⟨r, hr, hin⟩ := h.claimed ring hring
    exact hrings ring r hring hr hin
  event ring hring := by
    rw [hroute] at hring ⊢
    exact (h.event ring hring).mono (hqueue ring hring).1 (hqueue ring hring).2
  held hh := by
    rw [hroute]
    exact h.held hh

theorem retireLocked_ring (ans : Answers) (i : Nat) (r : Route) :
    (retireLocked ans i r).ring = r.ring := by
  unfold retireLocked
  split <;> rfl

theorem System.Sound.retire (h : s.Sound) {route : Route}
    (hsame : SameClaim (s.irq.g_routes i) route) (hring : route.ring = some ring) :
    Outstanding (s.queue ring) (retireLocked s.answers i route).posted
      (retireLocked s.answers i route).ev_index (s.events i) := by
  have hring' : (s.irq.g_routes i).ring = some ring := by rw [← hsame.ring, hring]
  have hout := (h.route i).event ring hring'
  rw [← hsame.posted, ← hsame.ev_index] at hout
  unfold retireLocked
  split
  · rename_i hyes
    obtain ⟨hposted, -, hconsumed⟩ := hyes
    rw [hposted] at hout
    apply Outstanding.idle
    apply hout.of_consumed (h.queue ring)
    simpa [System.answers, hring', hsame.ev_index] using hconsumed
  · exact hout

theorem System.Sound.enter (h : s.Sound) {route : Route}
    (hsame : SameClaim (s.irq.g_routes i) route) : (s.enter i route).Sound where
  queue := h.queue
  route j := by
    by_cases hj : j = i
    · subst hj
      have hkeep := retireLocked_ring s.answers j route
      refine ⟨fun ring hring => ?_, fun ring hring => ?_, fun hheld => ?_⟩
      · simp only [System.enter, State.setRoute, update_self, hkeep, hsame.ring] at hring
        exact (h.route j).claimed ring hring
      · simp only [System.enter, State.setRoute, update_self] at hring ⊢
        rw [hkeep] at hring
        exact h.retire hsame hring
      · simpa [System.enter, State.setRoute] using hheld
    · have hheld : (s.enter i route).held j = s.held j := by simp [System.enter, hj]
      rw [hheld]
      refine (h.route j).frame ?_ (fun ring r _ hr hin => ⟨r, hr, hin⟩) fun _ _ =>
        ⟨Nat.le_refl _, Nat.le_refl _⟩
      simp [System.enter, State.setRoute, hj]

theorem System.Sound.post (h : s.Sound) (hheld : s.held i = true) : (s.post i).Sound := by
  have hpending := (h.route i).held hheld
  -- the lock is given back
  have hfree : ({ s with held := update s.held i false } : System).Sound := by
    refine ⟨h.queue, fun j => ?_⟩
    by_cases hj : j = i
    · subst hj
      simp only [update_self]
      exact ⟨(h.route j).claimed, (h.route j).event, fun hh => absurd hh Bool.false_ne_true⟩
    · simpa [hj] using h.route j
  unfold System.post
  dsimp only
  split
  · exact hfree
  rename_i ring hring
  split
  · exact hfree
  rename_i hroom
  have hroom : (s.queue ring).full = false := by simpa using hroom
  refine ⟨fun ring' => ?_, fun j => ?_⟩
  · by_cases hr : ring' = ring
    · subst hr
      simpa using (h.queue ring').push hroom
    · simpa [hr] using h.queue ring'
  have hgrow : ∀ ring', (s.queue ring').taken ≤
        (update s.queue ring (s.queue ring).push ring').taken ∧
      (s.queue ring').posted ≤ (update s.queue ring (s.queue ring).push ring').posted := by
    intro ring'
    by_cases hr : ring' = ring
    · subst hr
      simp [Queue.push]
    · simp [hr]
  by_cases hj : j = i
  · subst hj
    have hout := (h.route j).event ring hring
    have hposted : (s.irq.g_routes j).posted = false := by
      by_contra hyes
      have hno := (Route.not_pending_iff (s.irq.g_routes j)).mpr (.inr (.inl (by simpa using hyes)))
      rw [hpending] at hno
      cases hno
    rw [hposted] at hout
    refine ⟨fun ring' hring' => ?_, fun ring' hring' => ?_, fun hh => ?_⟩
    · simp only [State.setRoute, update_self] at hring'
      exact (h.route j).claimed ring' hring'
    · simp only [State.setRoute, update_self] at hring' ⊢
      obtain rfl : ring = ring' := Option.some.inj (hring.symm.trans hring')
      rw [(h.queue ring).count, update_self]
      cases hout with
      | idle hall => exact .posted hall (Nat.lt_succ_self _)
    · simp at hh
  · simp only [update_of_ne hj]
    refine (h.route j).frame ?_ (fun ring r _ hr hin => ⟨r, hr, hin⟩) fun ring' _ => hgrow ring'
    simp [State.setRoute, hj]

theorem System.Sound.setQueue (h : s.Sound) {q : Queue} (hq : q.Ok)
    (htaken : (s.queue ring).taken ≤ q.taken) (hposted : (s.queue ring).posted ≤ q.posted) :
    ({ s with queue := update s.queue ring q } : System).Sound where
  queue ring' := by
    by_cases hr : ring' = ring
    · subst hr
      simpa using hq
    · simpa [hr] using h.queue ring'
  route j := by
    refine (h.route j).frame rfl (fun ring r _ hr hin => ⟨r, hr, hin⟩) fun ring' _ => ?_
    by_cases hr : ring' = ring
    · subst hr
      simp [htaken, hposted]
    · simp [hr]

theorem System.Sound.rebind (h : s.Sound) {irq : State} {events : Nat → List Nat}
    (hheld : s.held i = false) (hposted : (irq.g_routes i).posted = false)
    (hclaimed : ∀ ring, (irq.g_routes i).ring = some ring →
      ∃ r, irq.rings.get ring = some r ∧ i ∈ r.irq_claims)
    (hevents : (irq.g_routes i).ring ≠ none → events i = [])
    (hroutes : ∀ j, j ≠ i → irq.g_routes j = s.irq.g_routes j ∧ events j = s.events j)
    (hrings : ∀ j ring r, j ≠ i → s.irq.rings.get ring = some r → j ∈ r.irq_claims →
      ∃ r', irq.rings.get ring = some r' ∧ j ∈ r'.irq_claims) :
    ({ s with irq := irq, events := events } : System).Sound where
  queue := h.queue
  route j := by
    by_cases hj : j = i
    · subst hj
      refine ⟨hclaimed, fun ring hring => ?_, fun hh => ?_⟩
      · have hring' : (irq.g_routes j).ring = some ring := hring
        simp only [hposted, hevents (by simp [hring'])]
        exact .nil _ _
      · simp [hheld] at hh
    · obtain ⟨hroute, hev⟩ := hroutes j hj
      simp only [hev]
      exact (h.route j).frame hroute (fun ring r _ hr hin => hrings j ring r hj hr hin) fun _ _ =>
        ⟨Nat.le_refl _, Nat.le_refl _⟩

theorem get_setRing (irq : State) (ring ring' : Nat) (r : Ring) :
    (irq.setRing ring r).rings.get ring' = if ring' = ring then some r else irq.rings.get ring' := by
  simp [State.setRing, OrdMap.get_set]

theorem mem_push {irq : State} {r : Ring} (hr : irq.rings.get ring = some r) (i : Nat)
    {j ring' : Nat} {r' : Ring} (hr' : irq.rings.get ring' = some r') (hin : j ∈ r'.irq_claims)
    {irq' : State} (hrings : irq'.rings = irq.rings) :
    ∃ r'', (irq'.setRing ring (r.push i)).rings.get ring' = some r'' ∧ j ∈ r''.irq_claims := by
  rw [get_setRing, hrings]
  by_cases heq : ring' = ring
  · subst heq
    cases hr.symm.trans hr'
    exact ⟨_, if_pos rfl, List.mem_cons_of_mem i hin⟩
  · exact ⟨r', by rw [if_neg heq, hr'], hin⟩

theorem System.Sound.claim (h : s.Sound) {ring cookie : Nat} {program : Bool}
    (hstep : s.claim ring i cookie program = some s') : s'.Sound := by
  unfold System.claim at hstep
  split at hstep
  · cases hstep
  rename_i hheld
  obtain ⟨⟨irq, reply⟩, hclaim, rfl⟩ := Option.map_eq_some_iff.mp hstep
  -- a refused claim changes nothing, and a free route has no event that counts
  have hsame : (if (s.irq.g_routes i).ring = none then s.bound i s.irq else s).Sound := by
    split
    · rename_i hnone
      refine ⟨h.queue, fun j => ?_⟩
      by_cases hj : j = i
      · subst hj
        refine ⟨(h.route j).claimed, fun ring hring => ?_, (h.route j).held⟩
        have hcontra : (s.irq.g_routes j).ring = some ring := hring
        rw [hnone] at hcontra
        cases hcontra
      · simpa [System.bound, hj] using h.route j
    · exact h
  unfold Irq.claim at hclaim
  simp only at hclaim
  obtain ⟨r, hr, hclaim⟩ := Option.bind_eq_some_iff.mp hclaim
  split at hclaim
  · cases hclaim
    exact hsame
  split at hclaim
  · cases hclaim
    exact hsame
  rename_i hfree
  split at hclaim
  · cases hclaim
    exact hsame
  cases hclaim
  have hfree : (s.irq.g_routes i).ring = none := by simpa using hfree
  have hroute : ((s.irq.setRoute i ((s.irq.g_routes i).bind ring cookie)).setRing ring
      (r.push i)).g_routes i = (s.irq.g_routes i).bind ring cookie := update_self ..
  rw [if_pos hfree]
  refine h.rebind (by simpa using hheld) ?_ (fun ring' hring' => ?_) (fun _ => ?_) (fun j hj => ?_)
    fun j ring' r' _ hr' hin => mem_push hr i hr' hin rfl
  · rw [hroute]
    rfl
  · rw [hroute] at hring'
    obtain rfl : ring = ring' := Option.some.inj hring'
    exact ⟨r.push i, by simp [get_setRing], List.mem_cons_self⟩
  · simp
  · simp [State.setRoute, State.setRing, hj]

theorem unbind_spec (irq : State) (i : Nat) :
    ((irq.unbind i).g_routes i).ring = none ∧ ((irq.unbind i).g_routes i).posted = false ∧
      (∀ j, j ≠ i → (irq.unbind i).g_routes j = irq.g_routes j) ∧ (irq.unbind i).rings = irq.rings := by
  unfold State.unbind
  dsimp only
  split
  · refine ⟨?_, ?_, fun j hj => ?_, rfl⟩
    · simp [State.setRoute]
    · simp [State.setRoute]
    · simp [State.setRoute, hj]
  · refine ⟨?_, ?_, fun j hj => ?_, rfl⟩
    · simp [State.setRoute, State.bump]
    · simp [State.setRoute, State.bump]
    · simp [State.setRoute, State.bump, hj]

theorem System.Sound.release (h : s.Sound) {ring gsi : Nat} (hstep : s.release ring gsi = some s') :
    s'.Sound := by
  unfold System.release at hstep
  split at hstep
  · cases hstep
  rename_i hheld
  obtain ⟨⟨irq, reply⟩, hrelease, rfl⟩ := Option.map_eq_some_iff.mp hstep
  unfold Irq.release at hrelease
  split at hrelease
  · cases hrelease
    exact h
  rename_i i hi
  split at hrelease
  · cases hrelease
    exact h
  obtain ⟨r, hr, hrelease⟩ := Option.bind_eq_some_iff.mp hrelease
  split at hrelease
  · cases hrelease
    obtain ⟨hnone, hposted, hothers, hrings⟩ := unbind_spec s.irq i
    refine h.rebind (i := i) (by simpa [hi] using hheld) hposted (fun ring' hring' => ?_)
      (fun hne => absurd hnone hne) (fun j hj => ⟨hothers j hj, rfl⟩)
      fun j ring' r' hj hr' hin => ?_
    · have hcontra : ((s.irq.unbind i).g_routes i).ring = some ring' := hring'
      rw [hnone] at hcontra
      cases hcontra
    · rw [get_setRing, hrings]
      by_cases heq : ring' = ring
      · subst heq
        cases hr.symm.trans hr'
        exact ⟨_, if_pos rfl, (List.mem_erase_of_ne hj).mpr hin⟩
      · exact ⟨r', by rw [if_neg heq, hr'], hin⟩
  · cases hrelease

theorem System.Sound.msi (h : s.Sound) {made : Bool}
    (hstep : s.msi ring made = some s') : s'.Sound := by
  obtain ⟨r, hr, hstep⟩ := Option.bind_eq_some_iff.mp hstep
  split at hstep
  · cases hstep
    exact h
  split at hstep
  · cases hstep
    exact h
  rename_i i _
  split at hstep
  · cases hstep
  rename_i hheld
  cases hstep
  have htaken : ∀ j, j ≠ i → (s.irq.allocate ring r i).g_routes j = s.irq.g_routes j := by
    intro j hj
    simp [State.allocate, State.bump, State.setRoute, State.setRing, hj]
  have hmore : ∀ j ring' r', s.irq.rings.get ring' = some r' → j ∈ r'.irq_claims →
      ∃ r'', (s.irq.allocate ring r i).rings.get ring' = some r'' ∧ j ∈ r''.irq_claims :=
    fun j ring' r' hr' hin => mem_push hr i hr' hin rfl
  cases made with
  | true =>
    have hroute : ((s.irq.allocate ring r i).g_routes i).ring = some ring ∧
        ((s.irq.allocate ring r i).g_routes i).posted = false := by
      simp [State.allocate, State.bump, State.setRoute, State.setRing, Route.bind]
    change (s.bound i (s.irq.allocate ring r i)).Sound
    refine h.rebind (i := i) (by simpa using hheld) hroute.2 (fun ring' hring' => ?_) (fun _ => ?_)
      (fun j hj => ⟨htaken j hj, ?_⟩) fun j ring' r' _ hr' hin => hmore j ring' r' hr' hin
    · obtain rfl : ring = ring' := Option.some.inj (hroute.1.symm.trans hring')
      refine ⟨r.push i, ?_, List.mem_cons_self⟩
      exact (get_setRing ..).trans (if_pos rfl)
    · simp
    · simp [hj]
  | false =>
    have hroute : (((s.irq.allocate ring r i).abandon ring r i).g_routes i).ring = none ∧
        (((s.irq.allocate ring r i).abandon ring r i).g_routes i).posted = false := by
      simp [State.abandon, State.allocate, State.bump, State.setRoute, State.setRing, Route.bind]
    change (s.bound i ((s.irq.allocate ring r i).abandon ring r i)).Sound
    refine h.rebind (i := i) (by simpa using hheld) hroute.2 (fun ring' hring' => ?_)
      (fun hne => absurd hroute.1 hne) (fun j hj => ⟨?_, ?_⟩) fun j ring' r' _ hr' hin => ?_
    · have hcontra : (((s.irq.allocate ring r i).abandon ring r i).g_routes i).ring = some ring' :=
        hring'
      rw [hroute.1] at hcontra
      cases hcontra
    · simp [State.abandon, State.bump, State.setRoute, State.setRing, hj, htaken j hj]
    · simp [hj]
    · refine ⟨r', ?_, hin⟩
      rw [State.abandon, get_setRing]
      by_cases heq : ring' = ring
      · subst heq
        rw [if_pos rfl, ← hr, hr']
      · rw [if_neg heq]
        exact (get_setRing ..).trans ((if_neg heq).trans hr')

theorem System.Sound.complete (h : s.Sound) (ring : Nat) : (s.complete ring).Sound := by
  unfold System.complete
  split
  · exact h
  · rename_i hroom
    exact h.setQueue ((h.queue ring).push (by simpa using hroom)) (Nat.le_refl _)
      (Nat.le_succ _)

theorem System.Sound.consume (h : s.Sound) {ring n : Nat} (hstep : s.consume ring n = some s') :
    s'.Sound := by
  unfold System.consume at hstep
  split at hstep
  · rename_i hn
    cases hstep
    exact h.setQueue ((h.queue ring).take hn) (Nat.le_add_right _ _) (Nat.le_refl _)
  · cases hstep

theorem nslots_le (order : Nat) : (Channel.KRING_NSLOTS order).toNat ≤ 2 ^ 31 := by
  rw [Channel.KRING_NSLOTS, UInt32.toNat_ofNat']
  -- `32 << order` is a power of two, so below `2 ^ 32` it is at most `2 ^ 31`
  by_cases ho : order ≤ 26
  · have hle : 2 ^ order ≤ 2 ^ 26 := Nat.pow_le_pow_right (by decide) ho
    omega
  · obtain ⟨k, rfl⟩ := Nat.exists_eq_add_of_le (show 27 ≤ order by omega)
    have hmod : 32 * 2 ^ (27 + k) % 2 ^ 32 = 0 := by
      rw [Nat.pow_add, ← Nat.mul_assoc]
      exact Nat.mul_mod_right _ _
    omega

theorem System.Sound.create (h : s.Sound) {ring order : Nat} (hstep : s.create ring order = some s') :
    s'.Sound := by
  unfold System.create at hstep
  split at hstep
  · rename_i hnone
    cases hstep
    -- no route is bound to a ring that does not exist
    have hother : ∀ j, (s.irq.g_routes j).ring ≠ some ring := by
      intro j hj
      obtain ⟨r, hr, -⟩ := (h.route j).claimed ring hj
      rw [hnone] at hr
      cases hr
    refine ⟨fun ring' => ?_, fun j => ?_⟩
    · by_cases heq : ring' = ring
      · subst heq
        simpa using Queue.Ok.fresh (nslots_le order)
      · simpa [heq] using h.queue ring'
    · refine (h.route j).frame rfl (fun ring' r hring' hr hin => ⟨r, ?_, hin⟩) fun ring' hring' => ?_
      · have hne : ring' ≠ ring := fun heq => hother j (heq ▸ hring')
        rw [get_setRing, if_neg hne, hr]
      · have hne : ring' ≠ ring := fun heq => hother j (heq ▸ hring')
        simp [hne]
  · cases hstep

theorem foldl_unbind_spec (l : List Nat) (irq : State) :
    (∀ j ∈ l, ((l.foldl State.unbind irq).g_routes j).ring = none) ∧
      (∀ j, j ∉ l → (l.foldl State.unbind irq).g_routes j = irq.g_routes j) ∧
      (l.foldl State.unbind irq).rings = irq.rings := by
  induction l generalizing irq with
  | nil => simp
  | cons i l ih =>
    obtain ⟨hnone, -, hothers, hrings⟩ := unbind_spec irq i
    obtain ⟨hin, hout, hkeep⟩ := ih (irq.unbind i)
    refine ⟨fun j hj => ?_, fun j hj => ?_, hkeep.trans hrings⟩
    · by_cases hjl : j ∈ l
      · exact hin j hjl
      · have hji : j = i := by
          rcases List.mem_cons.mp hj with heq | hmem
          · exact heq
          · exact absurd hmem hjl
        subst hji
        simp only [List.foldl_cons, hout j hjl, hnone]
    · simp only [List.mem_cons, not_or] at hj
      simp only [List.foldl_cons, hout j hj.2, hothers j hj.1]

theorem System.Sound.destroy (h : s.Sound) (hstep : s.destroy ring = some s') :
    s'.Sound := by
  obtain ⟨r, hr, hstep⟩ := Option.bind_eq_some_iff.mp hstep
  split at hstep
  · cases hstep
  rename_i hheld
  obtain ⟨irq, hdestroy, rfl⟩ := Option.map_eq_some_iff.mp hstep
  obtain ⟨r', hr', hdestroy⟩ := Option.bind_eq_some_iff.mp hdestroy
  cases hr.symm.trans hr'
  cases hdestroy
  obtain ⟨hin, hout, hrings⟩ := foldl_unbind_spec r.irq_claims s.irq
  refine ⟨h.queue, fun j => ?_⟩
  by_cases hj : j ∈ r.irq_claims
  · have hno : ∀ ring', ((r.irq_claims.foldl State.unbind s.irq).g_routes j).ring ≠ some ring' := by
      intro ring'
      rw [hin j hj]
      simp
    refine ⟨fun ring' hring' => absurd hring' (hno ring'), fun ring' hring' =>
      absurd hring' (hno ring'), fun hh => ?_⟩
    have hfree : s.held j = false := by
      simp only [List.any_eq_true, not_exists, not_and, Bool.not_eq_true] at hheld
      exact hheld j hj
    rw [hfree] at hh
    cases hh
  · refine (h.route j).frame (hout j hj) (fun ring' r₁ hring' hr₁ hin' => ⟨r₁, ?_, hin'⟩)
      fun _ _ => ⟨Nat.le_refl _, Nat.le_refl _⟩
    -- what is bound to the ring is in its list
    have hne : ring' ≠ ring := by
      rintro rfl
      rw [Option.some.inj (hr₁.symm.trans hr)] at hin'
      exact hj hin'
    simp only [hrings, OrdMap.get_erase, if_neg hne, hr₁]

theorem System.Sound.step (h : s.Sound) {op : System.Op} (hstep : s.step op = some s') :
    s'.Sound := by
  cases op with
  | deliver vector =>
    simp only [System.step, System.deliver] at hstep
    split at hstep
    · cases hstep
    rename_i hheld
    split at hstep
    · rename_i hnone
      cases hstep
      refine ⟨h.queue, fun j => ?_⟩
      by_cases hj : j = vector - VECTOR_DEVICE_BASE
      · subst hj
        refine ⟨fun ring hring => ?_, fun ring hring => ?_, fun hh => absurd hh hheld⟩ <;>
          simp [State.setRoute, hnone] at hring
      · refine (h.route j).frame ?_ (fun ring r _ hr hin => ⟨r, hr, hin⟩) fun _ _ =>
          ⟨Nat.le_refl _, Nat.le_refl _⟩
        simp [State.setRoute, hj]
    · cases hstep
      exact h.enter ⟨rfl, rfl, rfl⟩
  | ack ring gsi seq =>
    simp only [System.step, System.ack] at hstep
    split at hstep
    · cases hstep
      exact h
    split at hstep
    · cases hstep
    split at hstep
    · cases hstep
      exact h
    · cases hstep
      exact h.enter ⟨rfl, rfl, rfl⟩
  | replay ring i =>
    obtain ⟨r, -, hstep⟩ := Option.bind_eq_some_iff.mp hstep
    split at hstep
    · cases hstep
    split at hstep
    · cases hstep
      exact h.enter ⟨rfl, rfl, rfl⟩
    · cases hstep
      exact h
  | post i =>
    simp only [System.step] at hstep
    split at hstep
    · rename_i hheld
      cases hstep
      exact h.post hheld
    · cases hstep
  | claim ring i cookie program => exact h.claim hstep
  | release ring gsi => exact h.release hstep
  | msi ring made => exact h.msi hstep
  | complete ring =>
    cases hstep
    exact h.complete ring
  | consume ring n => exact h.consume hstep
  | create ring order => exact h.create hstep
  | destroy ring => exact h.destroy hstep

end

theorem System.Sound.boot (cap : Capability.State) (pins : Nat → Option TriggerMode) (apic : Nat) :
    (System.boot (irqSchemeInit cap pins apic)).Sound where
  queue ring := .fresh (by decide)
  route i := ⟨nofun, nofun, nofun⟩

/-! ## 3. After a section -/

def System.Unconsumed (s : System) (i : Nat) : Prop :=
  ∃ ring, (s.irq.g_routes i).ring = some ring ∧ ∃ k ∈ s.events i, (s.queue ring).taken ≤ k

/-- The first half of a section of route `i`: a delivery while it is claimed, an
    acknowledgement or a turn of a replay by its ring. -/
inductive Section (s : System) : System.Op → Nat → Prop
  | deliver (vector : Nat) (h : (s.irq.g_routes (vector - VECTOR_DEVICE_BASE)).ring ≠ none) :
      Section s (.deliver vector) (vector - VECTOR_DEVICE_BASE)
  | ack {ring gsi seq i : Nat} (hi : routeForId s.irq gsi = some i)
      (h : (s.irq.g_routes i).ring = some ring) : Section s (.ack ring gsi seq) i
  | replay {ring i : Nat} (h : (s.irq.g_routes i).ring = some ring) : Section s (.replay ring i) i

/-- Of a consumed event that route `i` keeps as posted: the number of events consumed from
    that one on is, modulo `2 ^ 32`, above zero and below `2 ^ 31`. -/
def System.Timely (s : System) (i : Nat) : Prop :=
  ∀ ring k, (s.irq.g_routes i).ring = some ring → (s.irq.g_routes i).posted = true →
    (s.events i).getLast? = some k → k < (s.queue ring).taken →
      0 < ((s.queue ring).taken - k) % 2 ^ 32 ∧ ((s.queue ring).taken - k) % 2 ^ 32 < 2 ^ 31

section

variable {s s' : System} {i : Nat} {op : System.Op}

theorem Section.enter (hsec : Section s op i) (hstep : s.step op = some s') :
    ∃ route, s' = s.enter i route ∧ SameClaim (s.irq.g_routes i) route ∧
      (s.irq.g_routes i).ring ≠ none := by
  cases hsec with
  | deliver vector h =>
    simp only [System.step, System.deliver] at hstep
    split at hstep
    · cases hstep
    cases hstep
    exact ⟨_, rfl, ⟨rfl, rfl, rfl⟩, h⟩
  | ack hi h =>
    simp only [System.step, System.ack, hi] at hstep
    split at hstep
    · cases hstep
    rw [if_neg (by simpa using h)] at hstep
    cases hstep
    exact ⟨_, rfl, ⟨rfl, rfl, rfl⟩, by simp [h]⟩
  | replay h =>
    obtain ⟨r, -, hstep⟩ := Option.bind_eq_some_iff.mp hstep
    split at hstep
    · cases hstep
    cases hstep
    exact ⟨_, rfl, ⟨rfl, rfl, rfl⟩, by simp [h]⟩

theorem System.Sound.unconsumed_iff (h : s.Sound) (hsec : Section s op i)
    (hstep : s.step op = some s') (hfree : s'.held i = false)
    (hdiffer : (s'.irq.g_routes i).raised ≠ (s'.irq.g_routes i).acked) :
    s'.Unconsumed i ↔ s.Timely i := by
  obtain ⟨route, rfl, hsame, hne⟩ := hsec.enter hstep
  obtain ⟨ring, hring⟩ := Option.ne_none_iff_exists'.mp hne
  have hring' : route.ring = some ring := by rw [hsame.ring, hring]
  have hroute : (s.enter i route).irq.g_routes i = retireLocked s.answers i route := by
    simp [System.enter, State.setRoute]
  have hkeep := retireLocked_ring s.answers i route
  -- the event is still posted, so the test has said no
  have hposted : (retireLocked s.answers i route).posted = true := by
    have hpending : (retireLocked s.answers i route).pending = false := by
      simpa [System.enter] using hfree
    rw [hroute] at hdiffer
    rcases (Route.not_pending_iff _).mp hpending with hnone | hyes | heq
    · rw [hkeep, hring'] at hnone
      cases hnone
    · exact hyes
    · exact absurd heq hdiffer
  have hno : ¬ cqeConsumed (s.queue ring).cq_head (UInt32.ofNat (s.irq.g_routes i).ev_index) = true := by
    intro hyes
    have hconsumed : s.answers.consumed i = true := by
      simp only [System.answers, hring]
      exact hyes
    unfold retireLocked at hposted
    split at hposted
    · simp at hposted
    · rename_i hcond
      exact hcond ⟨hposted, by simp [hring'], hconsumed⟩
  have hold : (s.irq.g_routes i).posted = true := by
    rw [← hsame.posted]
    unfold retireLocked at hposted
    split at hposted
    · simp at hposted
    · exact hposted
  have hout := (h.route i).event ring hring
  rw [hold] at hout
  generalize hev : (s.irq.g_routes i).ev_index = ev at hout hno
  generalize hevents : s.events i = events at hout
  cases hout with
  | posted hall hk =>
    rename_i old k
    rw [UInt32.ofNat_toNat, cqeConsumed, (h.queue ring).head, decide_eq_true_eq] at hno
    have hun : (s.enter i route).Unconsumed i ↔ (s.queue ring).taken ≤ k := by
      constructor
      · rintro ⟨ring', hr', j, hj, hle⟩
        rw [hroute, hkeep, hring'] at hr'
        obtain rfl := Option.some.inj hr'
        have hj' : j ∈ old ++ [k] := hevents ▸ hj
        rcases List.mem_append.mp hj' with hmem | hmem
        · exact absurd (hall j hmem) (Nat.not_lt.mpr hle)
        · rw [List.mem_singleton.mp hmem] at hle
          exact hle
      · intro hle
        refine ⟨ring, by rw [hroute, hkeep, hring'], k, ?_, hle⟩
        change k ∈ s.events i
        simp [hevents]
    rw [hun]
    constructor
    · intro hle ring' k' hr' _ hlast hlt
      rw [hring] at hr'
      obtain rfl := Option.some.inj hr'
      have hkk : k = k' := by simpa [hevents] using hlast
      omega
    · intro htimely
      by_contra hlt
      have hlt : k < (s.queue ring).taken := by omega
      have hwindow := htimely ring k hring hold (by simp [hevents]) hlt
      exact hno ((passed_iff hlt.le).mpr hwindow)

theorem System.Sound.unconsumed_post (h : s.Sound) (hstep : s.step (.post i) = some s') :
    s'.Unconsumed i ∨ ∃ ring, (s.irq.g_routes i).ring = some ring ∧ (s.queue ring).full = true := by
  simp only [System.step] at hstep
  split at hstep
  · rename_i hheld
    cases hstep
    have hpending := (h.route i).held hheld
    cases hring : (s.irq.g_routes i).ring with
    | none =>
      rw [(Route.not_pending_iff _).mpr (.inl hring)] at hpending
      cases hpending
    | some ring =>
      cases hfull : (s.queue ring).full with
      | true => exact .inr ⟨ring, rfl, hfull⟩
      | false =>
        left
        refine ⟨ring, ?_, (s.queue ring).posted, ?_, ?_⟩
        · simp [System.post, hring, hfull, State.setRoute]
        · simp [System.post, hring, hfull]
        · simpa [System.post, hring, hfull, Queue.push] using (h.queue ring).order
  · cases hstep

theorem System.Sound.one_unconsumed (h : s.Sound) {ring : Nat}
    (hring : (s.irq.g_routes i).ring = some ring) :
    ((s.events i).filter ((s.queue ring).taken ≤ ·)).length ≤ 1 := by
  have hout := (h.route i).event ring hring
  generalize (s.irq.g_routes i).posted = posted at hout
  generalize (s.irq.g_routes i).ev_index = ev at hout
  generalize s.events i = events at hout
  have hnil : ∀ l : List Nat, (∀ k ∈ l, k < (s.queue ring).taken) →
      l.filter (fun k => decide ((s.queue ring).taken ≤ k)) = [] := by
    intro l hl
    rw [List.filter_eq_nil_iff]
    intro k hk
    have := hl k hk
    simpa using this
  cases hout with
  | idle hall => simp [hnil _ hall]
  | posted hall hk =>
    rw [List.filter_append, hnil _ hall, List.nil_append]
    exact List.length_filter_le _ _

end

/-! ## 4. Runs -/

def Anything (_ : System) (_ : System.Op) : Prop := True

theorem System.Sound.run {cap : Capability.State} {pins : Nat → Option TriggerMode} {apic : Nat}
    {ops : List System.Op} {s : System}
    (hrun : Run System.step Anything (.boot (irqSchemeInit cap pins apic)) ops s) : s.Sound :=
  hrun.invariant (.boot cap pins apic) fun _ _ _ h _ hstep => h.step hstep

/-- A section that ends without a post although the counts differ leaves an event of its
    route in the queue exactly when the indices could tell; one that posts leaves an event,
    or the queue was full; and a route never has two events that are not consumed. -/
theorem interrupt_kept_iff {cap : Capability.State} {pins : Nat → Option TriggerMode} {apic : Nat}
    {ops : List System.Op} {s : System}
    (hrun : Run System.step Anything (.boot (irqSchemeInit cap pins apic)) ops s) :
    (∀ op i s', Section s op i → s.step op = some s' → s'.held i = false →
      (s'.irq.g_routes i).raised ≠ (s'.irq.g_routes i).acked →
        (s'.Unconsumed i ↔ s.Timely i)) ∧
    (∀ i s', s.step (.post i) = some s' → s'.Unconsumed i ∨
      ∃ ring, (s.irq.g_routes i).ring = some ring ∧ (s.queue ring).full = true) ∧
    ∀ i ring, (s.irq.g_routes i).ring = some ring →
      ((s.events i).filter ((s.queue ring).taken ≤ ·)).length ≤ 1 := by
  have h := System.Sound.run hrun
  exact ⟨fun op i s' hsec hstep hfree hdiffer => h.unconsumed_iff hsec hstep hfree hdiffer,
    fun i s' hstep => h.unconsumed_post hstep, fun i ring hring => h.one_unconsumed hring⟩

def twoPins (i : Nat) : Option TriggerMode := if i < 2 then some .EDGE else none

def claimBoth : List System.Op := [.create 0 0, .claim 0 0 0 true, .claim 0 1 0 true]

theorem interrupt_kept_replay : ∃ ops s s',
    Run System.step Anything (.boot (irqSchemeInit ⟨.empty, .empty, 1, []⟩ twoPins 0)) ops s ∧
    s.step (.replay 0 0) = some s' ∧ s'.Unconsumed 0 := by
  obtain ⟨s, hrun, hring, htaken, hnext⟩ : ∃ s, Run System.step Anything
      (.boot (irqSchemeInit ⟨.empty, .empty, 1, []⟩ twoPins 0))
      (claimBoth ++ [.deliver 0x30, .post 0]) s ∧ (s.irq.g_routes 0).ring = some 0 ∧
      (s.queue 0).taken = 0 ∧ (s.step (.replay 0 0)).map (fun s' => (s'.held 0,
        decide ((s'.irq.g_routes 0).raised = (s'.irq.g_routes 0).acked))) = some (false, false) :=
    Run.exists_of_eval (fun _ _ _ => trivial) (by decide +kernel)
  obtain ⟨s', hs', heq⟩ := Option.map_eq_some_iff.mp hnext
  simp only [Prod.mk.injEq, decide_eq_false_iff_not] at heq
  refine ⟨_, s, s', hrun, hs', ?_⟩
  apply ((interrupt_kept_iff hrun).1 _ 0 s' (.replay hring) hs' heq.1 heq.2).mpr
  intro ring k hring' _ _ hlt
  obtain rfl := Option.some.inj (hring.symm.trans hring')
  simp [htaken] at hlt

/-- `n` interrupts of pin 1 after one of pin 0 whose event was consumed and never
    retired. -/
structure Round (s : System) (n : Nat) : Prop where
  quiet : s.held 0 = false ∧ s.held 1 = false
  first : (s.irq.g_routes 0).ring = some 0 ∧ (s.irq.g_routes 0).posted = true ∧
    (s.irq.g_routes 0).ev_index = 0 ∧ (s.irq.g_routes 0).raised = 1 ∧
    (s.irq.g_routes 0).acked = 0 ∧ s.events 0 = [0]
  second : (s.irq.g_routes 1).ring = some 0 ∧ (s.irq.g_routes 1).raised = n ∧
    (s.irq.g_routes 1).acked = 0
  retired : (s.irq.g_routes 1).posted = true →
    (s.irq.g_routes 1).ev_index = (UInt32.ofNat n).toNat
  queue : s.queue 0 = ⟨32, UInt32.ofNat (n + 1), UInt32.ofNat (n + 1), n + 1, n + 1⟩

def another : List System.Op := [.deliver 0x31, .post 1, .consume 0 1]

theorem Round.next {s : System} {n : Nat} (h : Round s n) (hn : n + 1 < 2 ^ 64) :
    ∃ s', Run System.step Anything s another s' ∧ Round s' (n + 1) := by
  obtain ⟨hring, hraised, hacked⟩ := h.second
  -- whatever was out before is retired, and there is something to post
  have hretire : retireLocked s.answers 1 { s.irq.g_routes 1 with raised := n + 1 } =
      { s.irq.g_routes 1 with raised := n + 1, posted := false } := by
    unfold retireLocked
    split
    · rfl
    · rename_i hno
      have hposted : (s.irq.g_routes 1).posted = false := by
        by_contra hyes
        have hyes : (s.irq.g_routes 1).posted = true := by simpa using hyes
        refine hno ⟨hyes, by simp [hring], ?_⟩
        have hone : (n + 1 - n) % 2 ^ 32 = 1 := by omega
        simp only [System.answers, hring, h.queue, h.retired hyes, UInt32.ofNat_toNat, cqeConsumed,
          decide_eq_true_eq]
        exact (passed_iff (Nat.le_succ n)).mpr (by omega)
      rw [← hposted]
  let r₁ : Route := { s.irq.g_routes 1 with raised := n + 1, posted := false }
  let s₁ : System := { s with
    irq := s.irq.setRoute 1 r₁, held := update s.held 1 true }
  have hdeliver : s.step (.deliver 0x31) = some s₁ := by
    have hslot : 0x31 - VECTOR_DEVICE_BASE = 1 := rfl
    have hpending : r₁.pending = true := by simp [Route.pending, r₁, hring, hacked]
    simp only [System.step, System.deliver, hslot]
    rw [if_neg (by simp [h.quiet.2]), if_neg (by simp [hring]), hraised, Nat.mod_eq_of_lt hn]
    unfold System.enter
    dsimp only at hretire ⊢
    rw [hretire]
    simp only [s₁, ← hpending, r₁]
  let s₂ : System :=
    { irq := s.irq.setRoute 1 { r₁ with posted := true, ev_index := (UInt32.ofNat (n + 1)).toNat }
      queue := update s.queue 0 (s.queue 0).push
      held := update s.held 1 false
      events := update s.events 1 (s.events 1 ++ [n + 1]) }
  have hpost : s₁.step (.post 1) = some s₂ := by
    have hroom : (s.queue 0).full = false := by
      simp [Queue.full, h.queue, UInt32.le_iff_toNat_le]
    have hcount : (s.queue 0).cq_count = UInt32.ofNat (n + 1) ∧ (s.queue 0).posted = n + 1 := by
      rw [h.queue]
      exact ⟨rfl, rfl⟩
    have hring₁ : r₁.ring = some 0 := hring
    simp only [System.step, System.post, hring₁, s₁, update_self, hroom,
      Bool.false_eq_true, if_false, if_true, hcount, State.setRoute, update_idem, s₂]
  have hconsume : s₂.step (.consume 0 1) = some { s₂ with
      queue := update s₂.queue 0 ((s₂.queue 0).take 1) } := by
    have hle : (s₂.queue 0).taken + 1 ≤ (s₂.queue 0).posted := by
      simp [s₂, Queue.push, h.queue]
    simp only [System.step, System.consume, if_pos hle]
  refine ⟨_, .cons trivial hdeliver (.cons trivial hpost (.single trivial hconsume)), ?_⟩
  refine ⟨?_, ?_, ?_, fun _ => ?_, ?_⟩
  · simpa [s₂] using h.quiet.1
  · simpa [s₂, State.setRoute] using h.first
  · simp [s₂, r₁, State.setRoute, hring, hacked]
  · simp [s₂, State.setRoute]
  · simp [s₂, Queue.push, Queue.take, h.queue, UInt32.ofNat_add]

theorem Round.rounds {s : System} (h : Round s 0) (n : Nat) (hn : n < 2 ^ 64) :
    ∃ ops s', Run System.step Anything s ops s' ∧ Round s' n := by
  induction n with
  | zero => exact ⟨[], s, .nil s, h⟩
  | succ n ih =>
    obtain ⟨ops, s₁, hrun, hround⟩ := ih (by omega)
    obtain ⟨s₂, hmore, hround'⟩ := hround.next hn
    exact ⟨_, s₂, hrun.append hmore, hround'⟩

/-- Pin 0 interrupts once; its event is consumed.  Pin 1 interrupts `2 ^ 31 - 1` times, and
    the client consumes each event and never rings: pin 0's old event then looks
    outstanding, and nothing is posted for its next interrupt. -/
theorem interrupt_lost : ∃ ops s s',
    Run System.step Anything (.boot (irqSchemeInit ⟨.empty, .empty, 1, []⟩ twoPins 0)) ops s ∧
    Section s (.deliver 0x30) 0 ∧ s.step (.deliver 0x30) = some s' ∧ s'.held 0 = false ∧
    (s'.irq.g_routes 0).raised ≠ (s'.irq.g_routes 0).acked ∧ ¬ s'.Unconsumed 0 ∧
    ∀ ring, (s.irq.g_routes 0).ring = some ring → (s.queue ring).full = false := by
  obtain ⟨s₀, hrun₀, hquiet, hfirst, hsecond, hposted, hqueue⟩ : ∃ s, Run System.step Anything
      (.boot (irqSchemeInit ⟨.empty, .empty, 1, []⟩ twoPins 0))
      (claimBoth ++ [.deliver 0x30, .post 0, .consume 0 1]) s ∧
      (s.held 0 = false ∧ s.held 1 = false) ∧
      ((s.irq.g_routes 0).ring = some 0 ∧ (s.irq.g_routes 0).posted = true ∧
        (s.irq.g_routes 0).ev_index = 0 ∧ (s.irq.g_routes 0).raised = 1 ∧
        (s.irq.g_routes 0).acked = 0 ∧ s.events 0 = [0]) ∧
      ((s.irq.g_routes 1).ring = some 0 ∧ (s.irq.g_routes 1).raised = 0 ∧
        (s.irq.g_routes 1).acked = 0) ∧ (s.irq.g_routes 1).posted = false ∧
      s.queue 0 = ⟨32, 1, 1, 1, 1⟩ :=
    Run.exists_of_eval (fun _ _ _ => trivial) (by decide +kernel)
  have hround₀ : Round s₀ 0 := ⟨hquiet, hfirst, hsecond, fun h => absurd h (by simp [hposted]), hqueue⟩
  obtain ⟨ops, s, hrun, hround⟩ := hround₀.rounds (2 ^ 31 - 1) (by decide)
  obtain ⟨hring, hposted, hev, hraised, hacked, hevents⟩ := hround.first
  have hsec : Section s (.deliver 0x30) 0 := .deliver 0x30 (by simp [hring, VECTOR_DEVICE_BASE])
  -- the client is `2 ^ 31` events past the event of pin 0
  have hno : s.answers.consumed 0 = false := by
    simp only [System.answers, hring, hround.queue, hev, cqeConsumed]
    decide
  have hretire : ∀ r : Route, retireLocked s.answers 0 r = r := by
    intro r
    unfold retireLocked
    simp [hno]
  have hstep : s.step (.deliver 0x30) =
      some (s.enter 0 { s.irq.g_routes 0 with raised := 2 }) := by
    have hslot : 0x30 - VECTOR_DEVICE_BASE = 0 := rfl
    simp [System.step, System.deliver, hslot, hround.quiet.1, hring, hraised]
  refine ⟨_, s, _, hrun₀.append hrun, hsec, hstep, ?_, ?_, ?_, fun ring hring' => ?_⟩
  · simp [System.enter, hretire, Route.pending, hposted]
  · simp [System.enter, hretire, State.setRoute, hacked]
  · rintro ⟨ring, hring', k, hk, hle⟩
    have hring'' : ring = 0 := by
      simp only [System.enter, hretire, State.setRoute, update_self, hring] at hring'
      exact (Option.some.inj hring').symm
    have hk' : k ∈ s.events 0 := hk
    subst hring''
    have hle' : (s.queue 0).taken ≤ k := hle
    rw [hround.queue] at hle'
    simp only [hevents, List.mem_singleton] at hk'
    subst hk'
    exact absurd hle' (by decide)
  · obtain rfl := Option.some.inj (hring.symm.trans hring')
    rw [hround.queue]
    simp [Queue.full, UInt32.le_iff_toNat_le]

end GovinDos.Irq
