/-
  **How far a route's generation tells its users apart.**

  A route token names a slot and the id the route had when it was minted.  The generation
  has 16 bits: after 65535 advances the old token passes again.  The count of advances is a
  ghost of the model.
-/
import GovinDos.IrqRoute
import GovinDos.CapabilityRevocation
import GovinDos.Lib.Generation

namespace GovinDos.Irq

open Function

open Capability (CapToken TokenHead forest Shape move_stay FreshSlab)

/-! ## 1. One advance -/

def GENERATIONS : Nat := 2 ^ 16 - 1

theorem toNat_nextGeneration (g : BitVec 16) :
    (nextGeneration g).toNat = Generation.next GENERATIONS g.toNat := by
  have hlt := g.isLt
  have hsucc : (g + 1).toNat = (g.toNat + 1) % 2 ^ 16 := BitVec.toNat_add g 1
  have hzero : g + 1 = 0 ↔ (g + 1).toNat = 0 := by
    rw [← BitVec.toNat_inj]
    rfl
  rw [nextGeneration, Generation.next, show GENERATIONS = 65535 from rfl]
  split
  · rename_i h
    have h0 := hzero.mp h
    rw [h]
    show 1 = _
    omega
  · rename_i h
    have h0 := mt hzero.mpr h
    omega

theorem toNat_iterate (g : BitVec 16) (k : Nat) :
    (nextGeneration^[k] g).toNat = (Generation.next GENERATIONS)^[k] g.toNat := by
  induction k with
  | zero => rfl
  | succ k ih =>
    rw [iterate_succ_apply', iterate_succ_apply', toNat_nextGeneration, ih]

theorem routeId_eq_iff {r r' : Route} (hgsi : r.gsi = r'.gsi) (hlt : r'.gsi < 2 ^ 16) :
    routeId r = routeId r' ↔ r.generation = r'.generation := by
  rw [routeId, routeId, hgsi, ← Nat.shiftLeft_add_eq_or_of_lt hlt, ← Nat.shiftLeft_add_eq_or_of_lt hlt,
    Nat.shiftLeft_eq, Nat.shiftLeft_eq, ← BitVec.toNat_inj]
  omega

/-! ## 2. What a step does to a slot -/

/-- Slot `i` is the same slot, its generation was advanced as often as the ghost says,
    and an allocation stands until it is. -/
structure Turned (s s' : State) (i : Nat) : Prop where
  gsi : (s'.g_routes i).gsi = (s.g_routes i).gsi
  present : (s'.g_routes i).present = (s.g_routes i).present
  count : ∃ k, s'.bumps i = s.bumps i + k ∧
    (s'.g_routes i).generation = nextGeneration^[k] (s.g_routes i).generation
  stands : s'.bumps i = s.bumps i → (s.g_routes i).present = false →
    (s.g_routes i).allocated = true → (s.g_routes i).ring ≠ none →
      (s'.g_routes i).allocated = true ∧ (s'.g_routes i).ring = (s.g_routes i).ring

section turned

variable {s s' s'' : State} {i j : Nat}

theorem Turned.of_eq (hroute : s'.g_routes i = s.g_routes i) (hbumps : s'.bumps i = s.bumps i) :
    Turned s s' i := by
  refine ⟨by rw [hroute], by rw [hroute], ⟨0, hbumps, by rw [hroute]; rfl⟩, ?_⟩
  intro _ _ halloc _
  rw [hroute]
  exact ⟨halloc, rfl⟩

theorem Turned.refl (s : State) (i : Nat) : Turned s s i := .of_eq rfl rfl

theorem Turned.trans (h : Turned s s' i) (h' : Turned s' s'' i) : Turned s s'' i := by
  obtain ⟨k, hk, hgen⟩ := h.count
  obtain ⟨k', hk', hgen'⟩ := h'.count
  refine ⟨h'.gsi.trans h.gsi, h'.present.trans h.present, ⟨k' + k, by omega, ?_⟩, ?_⟩
  · rw [hgen', hgen, iterate_add_apply]
  · intro hbumps hpresent halloc hring
    obtain ⟨halloc', hring'⟩ := h.stands (by omega) hpresent halloc hring
    obtain ⟨halloc'', hring''⟩ := h'.stands (by omega) (h.present.trans hpresent) halloc'
      (hring' ▸ hring)
    exact ⟨halloc'', hring''.trans hring'⟩

theorem turned_setRoute {r : Route} (hgsi : r.gsi = (s.g_routes i).gsi)
    (hpresent : r.present = (s.g_routes i).present)
    (hgen : r.generation = (s.g_routes i).generation)
    (hstands : (s.g_routes i).present = false → (s.g_routes i).allocated = true →
      (s.g_routes i).ring ≠ none → r.allocated = true ∧ r.ring = (s.g_routes i).ring) (j : Nat) :
    Turned s (s.setRoute i r) j := by
  by_cases hj : j = i
  · subst hj
    have hroute : (s.setRoute j r).g_routes j = r := update_self ..
    refine ⟨by rw [hroute, hgsi], by rw [hroute, hpresent], ⟨0, rfl, by rw [hroute, hgen]; rfl⟩, ?_⟩
    rw [hroute]
    exact fun _ => hstands
  · exact .of_eq (update_of_ne hj ..) rfl

theorem turned_bump {r : Route} (hgsi : r.gsi = (s.g_routes i).gsi)
    (hpresent : r.present = (s.g_routes i).present)
    (hgen : r.generation = (s.g_routes i).generation) (j : Nat) :
    Turned s ((s.setRoute i r).bump i) j := by
  by_cases hj : j = i
  · subst hj
    have hroute : (((s.setRoute j r).bump j).g_routes j) =
        { r with generation := nextGeneration r.generation } := by
      simp only [State.bump, State.setRoute, update_self]
    have hbumps : ((s.setRoute j r).bump j).bumps j = s.bumps j + 1 := update_self ..
    refine ⟨by rw [hroute, hgsi], by rw [hroute, hpresent], ⟨1, hbumps, by rw [hroute, hgen]; rfl⟩, ?_⟩
    intro h
    omega
  · refine .of_eq ?_ (update_of_ne hj ..)
    simp only [State.bump, State.setRoute, update_of_ne hj]

theorem turned_setRing {ring : Nat} {r : Ring} (j : Nat) : Turned s (s.setRing ring r) j := .of_eq rfl rfl

theorem turned_unbind (s : State) (i j : Nat) : Turned s (s.unbind i) j := by
  unfold State.unbind
  dsimp only
  have hroute : (s.setRoute i { s.g_routes i with ring := none, posted := false }).g_routes i =
      { s.g_routes i with ring := none, posted := false } := update_self ..
  rw [hroute]
  split
  · rename_i hpresent
    refine turned_setRoute (r := { s.g_routes i with ring := none, posted := false }) rfl rfl rfl
      (fun hfalse => ?_) j
    exact absurd hfalse (by rw [show (s.g_routes i).present = true from hpresent]; simp)
  · have htwice : (s.setRoute i { s.g_routes i with ring := none, posted := false }).setRoute i
        { s.g_routes i with ring := none, posted := false, allocated := false } =
        s.setRoute i { s.g_routes i with ring := none, posted := false, allocated := false } := by
      simp only [State.setRoute, update_idem]
    rw [htwice]
    exact turned_bump
      (r := { s.g_routes i with ring := none, posted := false, allocated := false }) rfl rfl rfl j

theorem turned_foldl {f : State → Nat → State} (hf : ∀ s i j, Turned s (f s i) j) (l : List Nat)
    (s : State) (j : Nat) : Turned s (l.foldl f s) j := by
  induction l generalizing s with
  | nil => exact .refl s j
  | cons i l ih => exact (hf s i j).trans (ih (f s i))

theorem postPendingLocked_keeps (ans : Answers) (i : Nat) (r : Route) :
    (postPendingLocked ans i r).gsi = r.gsi ∧ (postPendingLocked ans i r).present = r.present ∧
      (postPendingLocked ans i r).generation = r.generation ∧
      (postPendingLocked ans i r).allocated = r.allocated ∧
      (postPendingLocked ans i r).ring = r.ring := by
  have hretire : (retireLocked ans i r).gsi = r.gsi ∧ (retireLocked ans i r).present = r.present ∧
      (retireLocked ans i r).generation = r.generation ∧
      (retireLocked ans i r).allocated = r.allocated ∧ (retireLocked ans i r).ring = r.ring := by
    unfold retireLocked
    split <;> exact ⟨rfl, rfl, rfl, rfl, rfl⟩
  unfold postPendingLocked
  dsimp only
  split
  · exact hretire
  · split <;> exact hretire

theorem turned_post (ans : Answers) {r : Route} (hgsi : r.gsi = (s.g_routes i).gsi)
    (hpresent : r.present = (s.g_routes i).present)
    (hgen : r.generation = (s.g_routes i).generation)
    (halloc : r.allocated = (s.g_routes i).allocated) (hring : r.ring = (s.g_routes i).ring) (j : Nat) :
    Turned s (s.setRoute i (postPendingLocked ans i r)) j := by
  obtain ⟨h₁, h₂, h₃, h₄, h₅⟩ := postPendingLocked_keeps ans i r
  refine turned_setRoute (h₁.trans hgsi) (h₂.trans hpresent) (h₃.trans hgen) (fun _ ha _ => ?_) j
  exact ⟨h₄.trans (halloc.trans ha), h₅.trans hring⟩

theorem turned_irqDeliver (ans : Answers) (s : State) (vector j : Nat) :
    Turned s (irqDeliver ans s vector) j := by
  unfold irqDeliver
  dsimp only
  split
  · rename_i hring
    refine turned_setRoute
      (r := { s.g_routes (vector - VECTOR_DEVICE_BASE) with spurious_logged := true })
      rfl rfl rfl (fun _ _ hne => absurd hring hne) j
  · exact turned_post ans
      (r := { s.g_routes (vector - VECTOR_DEVICE_BASE) with
              raised := ((s.g_routes (vector - VECTOR_DEVICE_BASE)).raised + 1) % 2 ^ 64 })
      rfl rfl rfl rfl rfl j

theorem unbind_cap (s : State) (i : Nat) : (s.unbind i).cap = s.cap := by
  unfold State.unbind
  dsimp only
  split <;> rfl

theorem foldl_cap {f : State → Nat → State} (hf : ∀ s i, (f s i).cap = s.cap) (l : List Nat)
    (s : State) : (l.foldl f s).cap = s.cap := by
  induction l generalizing s with
  | nil => rfl
  | cons i l ih => exact (ih (f s i)).trans (hf s i)

theorem irqReplay_spec {ans : Answers} {ring : Nat} (h : irqReplay ans s ring = some s') :
    (∀ j, Turned s s' j) ∧ s'.cap = s.cap := by
  obtain ⟨r, -, h⟩ := Option.bind_eq_some_iff.mp h
  cases h
  constructor
  · refine turned_foldl (fun s i j => ?_) _ _
    split
    · exact turned_post ans rfl rfl rfl rfl rfl j
    · exact .refl s j
  · refine foldl_cap (fun s i => ?_) _ _
    split <;> rfl

theorem irqEndpointDestroy_spec {ring : Nat} (h : irqEndpointDestroy s ring = some s') :
    (∀ j, Turned s s' j) ∧ s'.cap = s.cap := by
  obtain ⟨r, -, h⟩ := Option.bind_eq_some_iff.mp h
  cases h
  exact ⟨fun j => (turned_foldl turned_unbind _ _ j).trans (.of_eq rfl rfl), foldl_cap unbind_cap _ _⟩

theorem claim_spec {ans : Answers} {ring : Nat} {route : Option Nat} {cookie : Nat} {reply : Reply}
    (h : claim ans s ring route cookie = some (s', reply)) :
    (∀ j, Turned s s' j) ∧ s'.cap = s.cap ∧ reply.token = none := by
  unfold claim at h
  split at h
  · cases h
    exact ⟨.refl _, rfl, rfl⟩
  · rename_i i
    obtain ⟨r, -, h⟩ := Option.bind_eq_some_iff.mp h
    split at h
    · cases h
      exact ⟨.refl _, rfl, rfl⟩
    · split at h
      · cases h
        exact ⟨.refl _, rfl, rfl⟩
      · rename_i hring
        split at h
        · cases h
          exact ⟨.refl _, rfl, rfl⟩
        · cases h
          refine ⟨fun j => ?_, rfl, rfl⟩
          exact (turned_setRoute (r := (s.g_routes i).bind ring cookie) rfl rfl rfl
            (fun _ _ hne => absurd hne hring) j).trans (turned_setRing j)

theorem release_spec {ring gsi : Nat} {reply : Reply} (h : release s ring gsi = some (s', reply)) :
    (∀ j, Turned s s' j) ∧ s'.cap = s.cap ∧ reply.token = none := by
  unfold release at h
  split at h
  · cases h
    exact ⟨.refl _, rfl, rfl⟩
  · split at h
    · cases h
      exact ⟨.refl _, rfl, rfl⟩
    · obtain ⟨r, -, h⟩ := Option.bind_eq_some_iff.mp h
      split at h
      · cases h
        exact ⟨fun j => (turned_unbind s _ j).trans (turned_setRing j), unbind_cap s _, rfl⟩
      · cases h

theorem ack_spec (ans : Answers) (s : State) (ring gsi seq : Nat) :
    (∀ j, Turned s (ack ans s ring gsi seq).1 j) ∧ (ack ans s ring gsi seq).1.cap = s.cap ∧
      (ack ans s ring gsi seq).2.token = none := by
  unfold ack
  split
  · exact ⟨.refl s, rfl, rfl⟩
  · rename_i i _
    split
    · exact ⟨.refl s, rfl, rfl⟩
    · exact ⟨turned_post ans (r := { s.g_routes i with acked := seq }) rfl rfl rfl rfl rfl, rfl, rfl⟩

theorem msiAddress_token (s : State) (route : Option Nat) : (msiAddress s route).token = none := by
  unfold msiAddress
  split
  · rfl
  · split <;> rfl

/-! ## 3. Allocation -/

theorem freeSlot_spec (h : freeSlot s = some i) :
    i < IRQ_ROUTE_COUNT ∧ (s.g_routes i).present = false ∧ (s.g_routes i).allocated = false := by
  have hmem := List.mem_of_find?_eq_some h
  have hfree := List.find?_some h
  rw [List.mem_reverse, List.mem_range] at hmem
  simp only [Bool.and_eq_true, Bool.not_eq_true'] at hfree
  exact ⟨hmem, hfree⟩

theorem allocate_route (s : State) (ring : Nat) (r : Ring) (i : Nat) :
    ((s.allocate ring r i).g_routes i).gsi = (s.g_routes i).gsi ∧
      ((s.allocate ring r i).g_routes i).present = (s.g_routes i).present ∧
      ((s.allocate ring r i).g_routes i).generation = nextGeneration (s.g_routes i).generation ∧
      ((s.allocate ring r i).g_routes i).allocated = true ∧
      ((s.allocate ring r i).g_routes i).ring = some ring := by
  simp only [State.allocate, State.bump, State.setRoute, State.setRing, update_self,
    Route.bind, and_self]

theorem allocate_bumps (s : State) (ring : Nat) (r : Ring) (i : Nat) :
    (s.allocate ring r i).bumps = update s.bumps i (s.bumps i + 1) := rfl

theorem turned_allocate (ring : Nat) (r : Ring) (halloc : (s.g_routes i).allocated = false) (j : Nat) :
    Turned s (s.allocate ring r i) j := by
  by_cases hj : j = i
  · subst hj
    obtain ⟨hgsi, hpresent, hgen, -⟩ := allocate_route s ring r j
    refine ⟨hgsi, hpresent, ⟨1, ?_, hgen⟩, fun _ _ hyes => ?_⟩
    · rw [allocate_bumps, update_self]
    · rw [halloc] at hyes
      cases hyes
  · refine .of_eq ?_ ?_
    · simp only [State.allocate, State.bump, State.setRoute, State.setRing, update_of_ne hj]
    · rw [allocate_bumps, update_of_ne hj]

theorem turned_abandon (s : State) (ring : Nat) (r : Ring) (i j : Nat) :
    Turned s (s.abandon ring r i) j :=
  (turned_bump (r := { s.g_routes i with ring := none, allocated := false }) rfl rfl rfl j).trans
    (turned_setRing j)

end turned

/-- What a token of an MSI route stands for when it is handed out: a slot bound to the
    ring, and a grant with the id the slot has. -/
structure Minted (mac : TokenHead → BitVec 128) (s : State) (ring i : Nat) (token : CapToken) :
    Prop where
  slot : i < IRQ_ROUTE_COUNT
  pool : (s.g_routes i).present = false
  bound : (s.g_routes i).allocated = true ∧ (s.g_routes i).ring = some ring
  used : ∃ g, (s.g_routes i).generation = nextGeneration g
  genuine : Capability.Genuine mac token
  live : (forest s.cap).Live token.grant_id_le
  granted : ∃ e, (forest s.cap).node token.grant_id_le = some e ∧
    e.label.type = Capability.KCAP_GRANT_IRQ_ROUTE ∧
    e.label.irq = ⟨some i, routeId (s.g_routes i)⟩

section exec

variable {mac : TokenHead → BitVec 128} {s s' : State} {ans : Answers} {ring : Nat}
  {mem : Capability.Ring} {sqe : Ksqe} {reply : Reply}

structure Executed (mac : TokenHead → BitVec 128) (s : State) (ring : Nat) (s' : State)
    (reply : Reply) : Prop where
  turned : ∀ j, Turned s s' j
  shape : Shape s'.cap
  move : Forest.Move Capability.Contained (forest s.cap) none (forest s'.cap)
  minted : ∀ token, reply.token = some token → ∃ i, Minted mac s' ring i token

theorem executed_of_quiet (hs : Shape s.cap) (hturn : ∀ j, Turned s s' j)
    (hcap : s'.cap = s.cap) (htoken : reply.token = none) : Executed mac s ring s' reply := by
  refine ⟨hturn, hcap ▸ hs, hcap ▸ move_stay s.cap, fun token ht => ?_⟩
  rw [htoken] at ht
  cases ht

theorem allocateMsiOnRing_spec (hs : Shape s.cap)
    (hslab : FreshSlab s.cap ans.slab)
    (h : allocateMsiOnRing mac ans s ring mem sqe = some (s', reply)) :
    Executed mac s ring s' reply := by
  obtain ⟨resolved, hres, hrest⟩ := Option.bind_eq_some_iff.mp h
  cases resolved with
  | error e =>
    cases hrest
    exact executed_of_quiet hs (.refl _) rfl rfl
  | ok parent =>
    obtain ⟨pg, hpg, hlive⟩ := Capability.capVerifyRingLocked_ok hs hres
    dsimp only at hrest
    split at hrest
    · cases hrest
      exact executed_of_quiet hs (.refl _) rfl rfl
    · obtain ⟨r, -, hrest⟩ := Option.bind_eq_some_iff.mp hrest
      split at hrest
      · cases hrest
        exact executed_of_quiet hs (.refl _) rfl rfl
      · split at hrest
        · cases hrest
          exact executed_of_quiet hs (.refl _) rfl rfl
        · rename_i i hfree
          obtain ⟨hslot, hpool, halloc⟩ := freeSlot_spec hfree
          obtain ⟨⟨cap, made⟩, hmade, hrest⟩ := Option.bind_eq_some_iff.mp hrest
          obtain ⟨hcap, hmove, htoken⟩ :=
            Capability.capCreateIrqRouteLocked_spec hs hslab hpg hlive hmade
          have hturn := turned_allocate ring r halloc
          cases made with
          | error e =>
            cases hrest
            refine ⟨fun j => ?_, hcap, hmove, fun token ht => (by cases ht)⟩
            exact (hturn j).trans ((turned_abandon _ ring r i j).trans (.of_eq rfl rfl))
          | ok token =>
            cases hrest
            refine ⟨fun j => (hturn j).trans (.of_eq rfl rfl), hcap, hmove, ?_⟩
            rintro _ ⟨⟩
            obtain ⟨hgsi, hpresent, hgen, hyes, hring⟩ := allocate_route s ring r i
            obtain ⟨hgenuine, hlive, e, he⟩ := htoken token rfl
            exact ⟨i, hslot, hpresent.trans hpool, ⟨hyes, hring⟩, ⟨_, hgen⟩, hgenuine, hlive, e, he⟩

theorem irqExec_spec (hs : Shape s.cap) (hslab : FreshSlab s.cap ans.slab)
    (h : irqExec mac ans s ring mem sqe = some (s', reply)) : Executed mac s ring s' reply := by
  unfold irqExec at h
  split at h
  · obtain ⟨g, -, hrest⟩ := Option.bind_eq_some_iff.mp h
    cases g with
    | error e =>
      cases hrest
      exact executed_of_quiet hs (.refl _) rfl rfl
    | ok g =>
      obtain ⟨hturn, hcap, htoken⟩ := claim_spec hrest
      exact executed_of_quiet hs hturn hcap htoken
  · split at h
    · obtain ⟨hturn, hcap, htoken⟩ := release_spec h
      exact executed_of_quiet hs hturn hcap htoken
    · split at h
      · obtain ⟨hturn, hcap, htoken⟩ := ack_spec ans s ring sqe.a sqe.b
        rw [Option.some.inj h] at hturn hcap htoken
        exact executed_of_quiet hs hturn hcap htoken
      · split at h
        · exact allocateMsiOnRing_spec hs hslab h
        · split at h
          · obtain ⟨g, -, hrest⟩ := Option.bind_eq_some_iff.mp h
            cases g with
            | error e =>
              cases hrest
              exact executed_of_quiet hs (.refl _) rfl rfl
            | ok g =>
              cases hrest
              exact executed_of_quiet hs (.refl _) rfl (msiAddress_token _ _)
          · cases h
            exact executed_of_quiet hs (.refl _) rfl rfl

end exec

/-! ## 4. The system -/

inductive Op
  | irq (ring : Nat) (mem : Capability.Ring) (sqe : Ksqe) (ans : Answers)
  | cap (mem : Capability.Ring) (sqe : Ksqe) (slab : Option Capability.Ptr)
  | create (ring nslots : Nat)
  | destroy (ring : Nat)
  | deliver (vector : Nat) (ans : Answers)
  | replay (ring : Nat) (ans : Answers)

def step (mac : TokenHead → BitVec 128) (s : State) : Op → Option State
  | .irq ring mem sqe ans => (irqExec mac ans s ring mem sqe).map (·.1)
  | .cap mem sqe slab => (capExec mac slab s mem sqe).map (·.1)
  | .create ring nslots => some (s.setRing ring ⟨nslots, 0, []⟩)
  | .destroy ring => irqEndpointDestroy s ring
  | .deliver vector ans => some (irqDeliver ans s vector)
  | .replay ring ans => irqReplay ans s ring

def Legal (s : State) : Op → Prop
  | .irq _ _ _ ans => FreshSlab s.cap ans.slab
  | .cap _ _ slab => FreshSlab s.cap slab
  | .create ring _ => s.rings.get ring = none
  | .deliver vector _ => VECTOR_DEVICE_BASE ≤ vector ∧ vector ≤ VECTOR_DEVICE_END
  | .destroy _ | .replay _ _ => True

def Booted (s : State) : Prop :=
  ∃ cap pins apic, Capability.Booted cap ∧ s = irqSchemeInit cap pins apic

section runs

variable {mac : TokenHead → BitVec 128} {s s' : State} {ops : List Op}

theorem step_spec {op : Op} (hs : Shape s.cap) (hlegal : Legal s op)
    (h : step mac s op = some s') :
    (∀ j, Turned s s' j) ∧ Shape s'.cap ∧ ∃ target,
      Forest.Move Capability.Contained (forest s.cap) target (forest s'.cap) := by
  cases op with
  | irq ring mem sqe ans =>
    obtain ⟨⟨s₁, reply⟩, hexec, rfl⟩ := Option.map_eq_some_iff.mp h
    obtain ⟨hturn, hshape, hmove, -⟩ := irqExec_spec hs hlegal hexec
    exact ⟨hturn, hshape, none, hmove⟩
  | cap mem sqe slab =>
    obtain ⟨⟨s₁, reply⟩, hexec, rfl⟩ := Option.map_eq_some_iff.mp h
    obtain ⟨⟨cap, reply'⟩, hcap, hrest⟩ := Option.bind_eq_some_iff.mp hexec
    have hexec : Capability.exec mac s.cap (.cap mem sqe, ⟨slab, routes s, none⟩) =
        some (cap, reply') := hcap
    cases hrest
    have hfresh : Capability.Fresh s.cap (.cap mem sqe, ⟨slab, routes s, none⟩) := hlegal
    have hrefines := Capability.exec_refines hs hfresh hexec
    exact ⟨fun j => .of_eq rfl rfl, hrefines.shape, _, hrefines.move⟩
  | create ring nslots =>
    cases h
    exact ⟨fun j => turned_setRing j, hs, none, move_stay _⟩
  | destroy ring =>
    obtain ⟨hturn, hcap⟩ := irqEndpointDestroy_spec h
    exact ⟨hturn, hcap ▸ hs, none, hcap ▸ move_stay _⟩
  | deliver vector ans =>
    cases h
    have hcap : (irqDeliver ans s vector).cap = s.cap := by
      unfold irqDeliver
      dsimp only
      split <;> rfl
    exact ⟨turned_irqDeliver ans s vector, hcap ▸ hs, none, hcap ▸ move_stay _⟩
  | replay ring ans =>
    obtain ⟨hturn, hcap⟩ := irqReplay_spec h
    exact ⟨hturn, hcap ▸ hs, none, hcap ▸ move_stay _⟩

theorem run_spec (hs : Shape s.cap) (hrun : Run (step mac) Legal s ops s') :
    (∀ j, Turned s s' j) ∧ Shape s'.cap ∧
      (forest s.cap).used ⊆ (forest s'.cap).used ∧
      ∀ t ∈ (forest s.cap).used, ∀ e', (forest s'.cap).node t = some e' →
        ∃ e, (forest s.cap).node t = some e ∧ e.label = e'.label := by
  induction hrun with
  | nil s => exact ⟨.refl s, hs, subset_rfl, fun t _ e' he' => ⟨e', he', rfl⟩⟩
  | cons hlegal hstep _ ih =>
    obtain ⟨hturn, hshape, target, hmove⟩ := step_spec hs hlegal hstep
    obtain ⟨hturn', hshape', hused, hlabel⟩ := ih hshape
    refine ⟨fun j => (hturn j).trans (hturn' j), hshape', hmove.used.trans hused, ?_⟩
    intro t ht e' he'
    obtain ⟨e₁, he₁, hl₁⟩ := hlabel t (hmove.used ht) e' he'
    obtain ⟨e, he, -, hl, -⟩ := hmove.entry ht he₁
    exact ⟨e, he, hl.trans hl₁⟩

theorem booted_spec {s₀ : State} (hboot : Booted s₀) :
    Shape s₀.cap ∧ ∀ i, (s₀.g_routes i).gsi = i := by
  obtain ⟨cap, pins, apic, hcap, rfl⟩ := hboot
  exact ⟨(Capability.booted_shape hcap).1, fun i => rfl⟩

theorem generation_eq_iff {i : Nat} (hturn : Turned s s' i)
    (hused : ∃ g, (s.g_routes i).generation = nextGeneration g) :
    (s'.g_routes i).generation = (s.g_routes i).generation ↔
      GENERATIONS ∣ s'.bumps i - s.bumps i := by
  obtain ⟨k, hk, hgen⟩ := hturn.count
  obtain ⟨g, hg⟩ := hused
  have htoNat : (s.g_routes i).generation.toNat = Generation.next GENERATIONS g.toNat := by
    rw [hg, toNat_nextGeneration]
  have hpos : 0 < (s.g_routes i).generation.toNat := htoNat ▸ Generation.next_pos
  have hle : (s.g_routes i).generation.toNat ≤ GENERATIONS :=
    htoNat ▸ Generation.next_le (by decide)
  rw [hgen, ← BitVec.toNat_inj, toNat_iterate, Generation.iterate_next_eq_self_iff hpos hle, hk,
    Nat.add_sub_cancel_left]

theorem minted_passes {s₂ s₃ : State} {ring i : Nat} {token : CapToken} {p : Capability.Ptr}
    {g : Capability.Grant} (hs₂ : Shape s₂.cap) (hi : Minted mac s₂ ring i token)
    (hgsi : (s₂.g_routes i).gsi = i) (hrun : Run (step mac) Legal s₂ ops s₃)
    (hresolve : Capability.tokenResolve mac s₃.cap token true Capability.KCAP_GRANT_IRQ_ROUTE =
      some (.ok p))
    (hg : s₃.cap.heap.get p = some g) :
    (capIrqRoute s₃ g = if GENERATIONS ∣ s₃.bumps i - s₂.bumps i then some i else none) ∧
      ((msiAddress s₃ (capIrqRoute s₃ g)).status = .ok 0 ↔
        GENERATIONS ∣ s₃.bumps i - s₂.bumps i ∧ (s₃.g_routes i).allocated = true) := by
  obtain ⟨hturn, hs₃, -, hlabel⟩ := run_spec hs₂ hrun
  obtain ⟨e, he, -, hirq⟩ := hi.granted
  -- the grant the token finds is the one that was minted
  have hgirq : g.irq = ⟨some i, routeId (s₂.g_routes i)⟩ := by
    obtain ⟨-, c, hc, hid, -, -⟩ := (Capability.tokenResolve_ok_iff hs₃).mp hresolve
    rw [Capability.core_of_get hg] at hc
    cases hc
    have hnode := Capability.node_of_core hs₃.toBooks (Capability.core_of_get hg)
    rw [hid] at hnode
    obtain ⟨e', he', hl⟩ := hlabel _ ((Capability.forest_sound hs₂).known _ e he) _ hnode
    rw [he] at he'
    cases he'
    exact (congrArg Capability.Label.irq hl).symm.trans hirq
  have hlt : (s₂.g_routes i).gsi < 2 ^ 16 := by
    rw [hgsi]
    exact Nat.lt_of_lt_of_le hi.slot (by decide)
  have hid : routeId (s₃.g_routes i) = routeId (s₂.g_routes i) ↔
      GENERATIONS ∣ s₃.bumps i - s₂.bumps i :=
    (routeId_eq_iff (hturn i).gsi hlt).trans (generation_eq_iff (hturn i) hi.used)
  have hroute : capIrqRoute s₃ g = if GENERATIONS ∣ s₃.bumps i - s₂.bumps i then some i else none := by
    simp only [capIrqRoute, hgirq, ite_not, hid]
  have hpool : (s₃.g_routes i).present = false := (hturn i).present.trans hi.pool
  refine ⟨hroute, ?_⟩
  rw [hroute]
  by_cases h : GENERATIONS ∣ s₃.bumps i - s₂.bumps i
  · rw [if_pos h, msiAddress]
    simp only [hpool, h, true_and, Bool.false_eq_true, false_or, Bool.not_eq_true']
    split
    · rename_i halloc
      rw [halloc]
      exact iff_of_false (fun hok => (by cases hok)) (by simp)
    · rename_i halloc
      exact iff_of_true rfl (by simpa using halloc)
  · rw [if_neg h]
    exact iff_of_false (fun hok => (by cases hok)) fun hok => h hok.1

theorem Minted.stands {s₂ s₃ : State} {ring i : Nat} {token : CapToken}
    (hi : Minted mac s₂ ring i token) (hturn : Turned s₂ s₃ i) (h : s₃.bumps i = s₂.bumps i) :
    (s₃.g_routes i).allocated = true ∧ (s₃.g_routes i).ring = some ring := by
  obtain ⟨halloc, hring⟩ := hturn.stands h hi.pool hi.bound.1 (by rw [hi.bound.2]; simp)
  exact ⟨halloc, hring.trans hi.bound.2⟩

end runs

end GovinDos.Irq
