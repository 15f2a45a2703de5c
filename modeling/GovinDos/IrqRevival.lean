/-
  **When a stale route token passes again.**

  Two rings take turns with the last slot of the pool.  The first allocates it, keeps the
  token and releases the slot; the second allocates and releases it 65534 times and then
  once more.  That is 131070 advances of the generation, twice its period: the slot is the
  second ring's, and the first ring's token gives out its address.
-/
import GovinDos.IrqGeneration

namespace GovinDos.Irq

open Capability (CapToken TokenHead KCAP_GRANT_IRQ_ROUTE forest Grant CAP_TOKEN_SIZE tokenResolve
  Ptr ringRange initRing freshGrant forest_sound capVerifyRingLocked booted_bootState bootState
  Shape)

/-! ## 1. The pool and the ring memory -/

def LAST : Nat := IRQ_ROUTE_COUNT - 1

theorem freeSlot_last {s : State} (hpresent : (s.g_routes LAST).present = false)
    (halloc : (s.g_routes LAST).allocated = false) : freeSlot s = some LAST := by
  rw [freeSlot, show IRQ_ROUTE_COUNT = LAST + 1 from rfl, List.range_succ, List.reverse_append,
    List.reverse_singleton, List.singleton_append, List.find?_cons_of_pos]
  simp [hpresent, halloc]

def rootMem (mac : TokenHead → BitVec 128) : Capability.Ring :=
  { initRing mac with
    token := fun _ => Capability.tokenWrite mac
      (freshGrant 2 KCAP_GRANT_IRQ_ROUTE 0 true none) }

def msiSqe : Ksqe := { op := KIRQ_MSI, a := 0, b := CAP_TOKEN_SIZE, c := 64 }

def releaseSqe (id : Nat) : Ksqe := { op := KIRQ_RELEASE, a := id, b := 0, c := 0 }

def answers (slab : Option Ptr) : Answers := ⟨slab, false, fun _ => false, fun _ => none⟩

structure RootReady (cap : Capability.State) (n : Nat) : Prop where
  shape : Shape cap
  root : cap.core 2 =
    some (freshGrant 2 KCAP_GRANT_IRQ_ROUTE 0 true none)
  free : ∀ p, n ≤ p → cap.heap.get p = none
  next : cap.g_next_grant_id = n
  pos : 0 < n

structure Ready (s : State) (n : Nat) : Prop where
  cap : RootReady s.cap n
  gsi : (s.g_routes LAST).gsi = LAST
  pool : (s.g_routes LAST).present = false
  free : (s.g_routes LAST).allocated = false
  rings : ∀ ring, ring = 0 ∨ ring = 1 → s.rings.get ring = some ⟨4, 0, []⟩

structure Taken (s : State) (ring n : Nat) : Prop where
  cap : RootReady s.cap n
  gsi : (s.g_routes LAST).gsi = LAST
  pool : (s.g_routes LAST).present = false
  bound : (s.g_routes LAST).allocated = true ∧ (s.g_routes LAST).ring = some ring
  used : ∃ g, (s.g_routes LAST).generation = nextGeneration g
  self : s.rings.get ring = some ⟨4, 1, [LAST]⟩
  other : ∀ r, r = 0 ∨ r = 1 → r ≠ ring → s.rings.get r = some ⟨4, 0, []⟩

section cycle

variable {mac : TokenHead → BitVec 128} {s : State} {ring n : Nat}

theorem RootReady.resolve {cap : Capability.State} (mac : TokenHead → BitVec 128)
    (h : RootReady cap n) :
    capVerifyRingLocked mac cap (rootMem mac) 0 CAP_TOKEN_SIZE
      KCAP_GRANT_IRQ_ROUTE = some (.ok 2) ∧ (forest cap).Live 2 := by
  have hnode := Capability.node_of_core h.shape.toBooks h.root
  have hlive : (forest cap).Live 2 := by
    refine (Forest.live_iff_parent hnode).mpr ⟨rfl, fun q hq => ?_⟩
    cases hq
  have hring : capVerifyRingLocked mac cap (rootMem mac) 0 CAP_TOKEN_SIZE
      KCAP_GRANT_IRQ_ROUTE = tokenResolve mac cap (Capability.tokenWrite mac
        (freshGrant 2 KCAP_GRANT_IRQ_ROUTE 0 true none)) true
        KCAP_GRANT_IRQ_ROUTE := by
    unfold capVerifyRingLocked Capability.resolveRing
    rw [if_neg]
    · rfl
    · simp [ringRange, rootMem, initRing, CAP_TOKEN_SIZE]
  rw [hring]
  exact ⟨(Capability.tokenResolve_ok_iff h.shape).mpr
    ⟨Capability.genuine_tokenWrite _, _, h.root, rfl, Or.inr rfl, fun _ => hlive⟩, hlive⟩

theorem RootReady.create {cap : Capability.State} (mac : TokenHead → BitVec 128)
    (h : RootReady cap n) (hn : n + 1 < 2 ^ 64) (slot id : Nat) :
    ∃ cap' token, Capability.capCreateIrqRouteLocked mac cap 2 slot id (some n) =
      some (cap', .ok token) ∧ RootReady cap' (n + 1) ∧ Capability.Genuine mac token ∧
      (forest cap').Live token.grant_id_le ∧ ∃ e,
        (forest cap').node token.grant_id_le = some e ∧
          e.label.type = KCAP_GRANT_IRQ_ROUTE ∧ e.label.irq = ⟨some slot, id⟩ := by
  obtain ⟨pg, hpg, hcore⟩ := Capability.get_of_core h.root
  have hfield : pg.type = KCAP_GRANT_IRQ_ROUTE ∧ pg.dead = false ∧ pg.wildcard = true ∧
      pg.depth = 0 ∧ pg.id = 2 :=
    ⟨congrArg Grant.type hcore, congrArg Grant.dead hcore,
      congrArg Grant.wildcard hcore, congrArg Grant.depth hcore,
      congrArg Grant.id hcore⟩
  obtain ⟨htype, hdead, hwild, hdepth, hid⟩ := hfield
  have hfree := h.free n (Nat.le_refl n)
  have hpos := h.pos
  obtain ⟨cap', token, heq, hkeep, hnext⟩ := Capability.capCreateIrqRouteLocked_made mac
    slot id h.shape hfree hpg htype hdead hwild (hdepth ▸ by decide) (by rw [h.next]; omega)
  have hslab : Capability.FreshSlab cap (some n) := by
    rintro _ ⟨⟩
    exact hfree
  have hlive : (forest cap).Live pg.id := hid ▸ (h.resolve mac).2
  obtain ⟨hshape, -, htoken⟩ := Capability.capCreateIrqRouteLocked_spec h.shape hslab hpg hlive heq
  refine ⟨cap', token, heq, ⟨hshape, ?_, fun p hp => ?_, ?_, by omega⟩, htoken token rfl⟩
  · rw [hkeep 2 ?_, h.root]
    rintro rfl
    rw [hpg] at hfree
    cases hfree
  · rw [← Capability.core_none_iff, hkeep p (Nat.ne_of_gt hp), Capability.core_none_iff]
    exact h.free p (by omega)
  · rw [hnext, h.next]
    exact Nat.mod_eq_of_lt hn

theorem Ready.allocate (mac : TokenHead → BitVec 128) (h : Ready s n) (hn : n + 1 < 2 ^ 64)
    (hring : ring = 0 ∨ ring = 1) :
    ∃ s' reply token, irqExec mac (answers (some n)) s ring (rootMem mac) msiSqe = some (s', reply) ∧
      reply.token = some token ∧ Minted mac s' ring LAST token ∧ Taken s' ring (n + 1) ∧
      s'.bumps LAST = s.bumps LAST + 1 := by
  obtain ⟨cap', token, hcreate, hcap', hgenuine, hlive, hgranted⟩ := h.cap.create mac hn LAST
    (routeId ((s.allocate ring ⟨4, 0, []⟩ LAST).g_routes LAST))
  obtain ⟨hgsi, hpresent, hgen, halloc, hbound⟩ := allocate_route s ring ⟨4, 0, []⟩ LAST
  have hrange : (!ringRange (rootMem mac) msiSqe.c CAP_TOKEN_SIZE) = false := by
    simp [ringRange, rootMem, initRing, CAP_TOKEN_SIZE, msiSqe]
  have hexec : irqExec mac (answers (some n)) s ring (rootMem mac) msiSqe =
      some ({ s.allocate ring ⟨4, 0, []⟩ LAST with cap := cap' },
        ⟨.ok 0, some token, some (routeId ((s.allocate ring ⟨4, 0, []⟩ LAST).g_routes LAST)), none⟩) := by
    have hop : irqExec mac (answers (some n)) s ring (rootMem mac) msiSqe =
        allocateMsiOnRing mac (answers (some n)) s ring (rootMem mac) msiSqe := rfl
    rw [hop, allocateMsiOnRing, show msiSqe.a = 0 from rfl,
      show msiSqe.b = CAP_TOKEN_SIZE from rfl, (h.cap.resolve mac).1, Option.bind_eq_bind,
      Option.bind_some]
    simp only [hrange, h.rings ring hring, freeSlot_last h.pool h.free, answers, hcreate,
      Option.bind_eq_bind, Option.bind_some]
    rfl
  refine ⟨_, _, token, hexec, rfl, ⟨by decide, hpresent.trans h.pool, ⟨halloc, hbound⟩, ⟨_, hgen⟩,
    hgenuine, hlive, hgranted⟩, ⟨hcap', hgsi.trans h.gsi, hpresent.trans h.pool, ⟨halloc, hbound⟩,
    ⟨_, hgen⟩, OrdMap.get_set_self .., fun r hr hne => ?_⟩,
    (congrFun (allocate_bumps s ring ⟨4, 0, []⟩ LAST) LAST).trans (Function.update_self ..)⟩
  exact (OrdMap.get_set_of_ne _ _ hne).trans (h.rings r hr)

theorem Taken.routeForId (h : Taken s ring n) :
    routeForId s (routeId (s.g_routes LAST)) = some LAST := by
  obtain ⟨g, hg⟩ := h.used
  have hpos : 0 < (s.g_routes LAST).generation.toNat := by
    rw [hg, toNat_nextGeneration]
    exact Generation.next_pos
  have hlt := (s.g_routes LAST).generation.isLt
  have hid : routeId (s.g_routes LAST) = (s.g_routes LAST).generation.toNat * 2 ^ 16 + LAST := by
    rw [routeId, h.gsi, ← Nat.shiftLeft_add_eq_or_of_lt (show LAST < 2 ^ 16 by decide),
      Nat.shiftLeft_eq]
  have hlast : LAST = 191 := rfl
  have hidx : routeId (s.g_routes LAST) % 2 ^ 16 = LAST := by omega
  have hgen : routeId (s.g_routes LAST) / 2 ^ 16 % 2 ^ 16 = (s.g_routes LAST).generation.toNat := by
    omega
  have hpin : ¬ routeId (s.g_routes LAST) < IRQ_ROUTE_COUNT := by
    have : IRQ_ROUTE_COUNT = 192 := rfl
    omega
  rw [Irq.routeForId, if_neg fun hbad => hpin hbad.1]
  simp only [hidx, hgen]
  rw [if_neg, if_pos ⟨h.bound.1, trivial⟩]
  rintro (hbad | hbad)
  · exact absurd hbad (by decide)
  · omega

theorem unbind_pool {i : Nat} (hpool : (s.g_routes i).present = false) :
    ((s.unbind i).g_routes i).allocated = false ∧ (s.unbind i).bumps i = s.bumps i + 1 ∧
      (s.unbind i).rings = s.rings := by
  simp [State.unbind, State.setRoute, State.bump, hpool]

theorem Taken.release (mac : TokenHead → BitVec 128) (h : Taken s ring n) (ans : Answers)
    (mem : Capability.Ring) :
    ∃ s', irqExec mac ans s ring mem (releaseSqe (routeId (s.g_routes LAST))) =
        some (s', .of (.ok 0)) ∧ Ready s' n ∧ s'.bumps LAST = s.bumps LAST + 1 := by
  have hexec : irqExec mac ans s ring mem (releaseSqe (routeId (s.g_routes LAST))) =
      some ((s.unbind LAST).setRing ring ⟨4, 0, []⟩, .of (.ok 0)) := by
    have hop : irqExec mac ans s ring mem (releaseSqe (routeId (s.g_routes LAST))) =
        Irq.release s ring (routeId (s.g_routes LAST)) := rfl
    have hmem : LAST ∈ [LAST] := List.mem_singleton_self LAST
    rw [hop, Irq.release, h.routeForId]
    simp only [h.bound.2, ne_eq, not_true_eq_false, if_false, h.self, Option.bind_eq_bind,
      Option.bind_some, if_pos hmem, List.erase_cons_head]
  obtain ⟨halloc, hbumps, hrings⟩ := unbind_pool h.pool
  have hturn := turned_unbind s LAST LAST
  refine ⟨_, hexec, ⟨?_, hturn.gsi.trans h.gsi, hturn.present.trans h.pool, halloc, ?_⟩, hbumps⟩
  · exact (unbind_cap s LAST).symm ▸ h.cap
  · intro r hr
    by_cases hne : r = ring
    · subst hne
      exact OrdMap.get_set_self ..
    · refine (OrdMap.get_set_of_ne _ _ hne).trans ?_
      rw [hrings]
      exact h.other r hr hne

def KeepsLive (s s' : State) : Prop :=
  ∀ t, (forest s.cap).Live t → (forest s'.cap).Live t

theorem KeepsLive.trans {s' s'' : State} (h : KeepsLive s s') (h' : KeepsLive s' s'') :
    KeepsLive s s'' := fun t ht => h' t (h t ht)

theorem Executed.keepsLive {s' : State} {reply : Reply} (hs : Shape s.cap)
    (h : Executed mac s ring s' reply) : KeepsLive s s' := by
  intro t ht
  obtain ⟨e, he, -⟩ := ht.node
  have hused := (forest_sound hs).known t e he
  exact (h.move.live_iff (forest_sound hs) hused).mpr ⟨ht, fun t ht => (by cases ht)⟩

theorem Ready.legal (h : Ready s n) (ring : Nat) (mem : Capability.Ring) (sqe : Ksqe) :
    Legal s (.irq ring mem sqe (answers (some n))) := by
  rintro _ ⟨⟩
  exact h.cap.free n (Nat.le_refl n)

theorem legal_none (s : State) (ring : Nat) (mem : Capability.Ring) (sqe : Ksqe) :
    Legal s (.irq ring mem sqe (answers none)) := fun p hp => (by cases hp)

theorem step_irq {s' : State} {mem : Capability.Ring} {sqe : Ksqe} {ans : Answers} {reply : Reply}
    (h : irqExec mac ans s ring mem sqe = some (s', reply)) :
    step mac s (.irq ring mem sqe ans) = some s' := by
  rw [step, h, Option.map_some]

theorem Ready.cycle (mac : TokenHead → BitVec 128) (h : Ready s n) (hn : n + 1 < 2 ^ 64) :
    ∃ ops s', Run (step mac) Legal s ops s' ∧ Ready s' (n + 1) ∧
      s'.bumps LAST = s.bumps LAST + 2 ∧ KeepsLive s s' := by
  obtain ⟨s₁, reply, token, hexec, -, -, htaken, hbumps⟩ := h.allocate mac hn (Or.inr rfl)
  obtain ⟨s₂, hexec', hready, hbumps'⟩ := htaken.release mac (answers none) (rootMem mac)
  refine ⟨_, s₂, .cons (h.legal _ _ _) (step_irq hexec) (.single (legal_none _ _ _ _) (step_irq hexec')),
    hready, by omega, ?_⟩
  have hmint := irqExec_spec h.cap.shape (h.legal 1 (rootMem mac) msiSqe) hexec
  exact (hmint.keepsLive h.cap.shape).trans
    ((irqExec_spec hmint.shape (legal_none s₁ 1 (rootMem mac) msiSqe) hexec').keepsLive
      hmint.shape)

theorem Ready.cycles (mac : TokenHead → BitVec 128) (h : Ready s n) (k : Nat)
    (hn : n + k < 2 ^ 64) :
    ∃ ops s', Run (step mac) Legal s ops s' ∧ Ready s' (n + k) ∧
      s'.bumps LAST = s.bumps LAST + 2 * k ∧ KeepsLive s s' := by
  induction k with
  | zero => exact ⟨[], s, .nil s, h, rfl, fun t ht => ht⟩
  | succ k ih =>
    obtain ⟨ops, s', hrun, hready, hbumps, hlive⟩ := ih (by omega)
    obtain ⟨ops', s'', hrun', hready', hbumps', hlive'⟩ := hready.cycle mac (by omega)
    exact ⟨ops ++ ops', s'', hrun.append hrun', hready', by omega, hlive.trans hlive'⟩

theorem Minted.resolves {s' : State} {token : CapToken} {ops : List Op}
    (h : Minted mac s ring LAST token) (hs : Shape s.cap)
    (hrun : Run (step mac) Legal s ops s')
    (hlive : (forest s'.cap).Live token.grant_id_le) :
    ∃ p g, tokenResolve mac s'.cap token true KCAP_GRANT_IRQ_ROUTE =
      some (.ok p) ∧ s'.cap.heap.get p = some g := by
  obtain ⟨-, hs', -, hlabel⟩ := run_spec hs hrun
  obtain ⟨e, he, htype, -⟩ := h.granted
  obtain ⟨e', he', -⟩ := hlive.node
  obtain ⟨e₀, he₀, hl⟩ := hlabel _ ((forest_sound hs).known _ e he) e' he'
  obtain ⟨p, c, hc, hid, rfl⟩ := Capability.core_of_node hs'.toBooks he'
  obtain ⟨g, hg, -⟩ := Capability.get_of_core hc
  rw [he] at he₀
  cases he₀
  have hctype : c.type = KCAP_GRANT_IRQ_ROUTE :=
    (congrArg Capability.Label.type hl).symm.trans htype
  exact ⟨p, g, (Capability.tokenResolve_ok_iff hs').mpr
    ⟨h.genuine, c, hc, hid, Or.inr hctype, fun _ => hid.symm ▸ hlive⟩, hg⟩

end cycle

/-! ## 2. From boot -/

def poolBoot : State := irqSchemeInit bootState (fun _ => none) 0

theorem rootReady_bootState : RootReady bootState 4 := by
  refine ⟨(Capability.booted_shape booted_bootState).1, rfl, fun p hp => ?_, rfl,
    by decide⟩
  rw [OrdMap.get_eq_none_iff]
  intro g hmem
  have hkeys : bootState.heap.entries.map (·.1) = [1, 2, 3] := rfl
  have hp' := List.mem_map_of_mem (f := Prod.fst) hmem
  rw [hkeys] at hp'
  simp only [List.mem_cons, List.not_mem_nil, or_false] at hp'
  rcases hp' with rfl | rfl | rfl
  all_goals exact absurd hp (by decide)

theorem ready_boot (mac : TokenHead → BitVec 128) :
    ∃ s, Run (step mac) Legal poolBoot [.create 0 4, .create 1 4] s ∧ Ready s 4 := by
  refine ⟨_, .cons rfl rfl (.single rfl rfl), rootReady_bootState, rfl, rfl, rfl, ?_⟩
  rintro ring (rfl | rfl)
  · rfl
  · rfl

/-- A route token, any number of steps after it was minted, stands for as long as the
    generation has not been advanced.  From then on it passes exactly when the advances
    since are a multiple of 65535; the address is given out if the slot is in use again. -/
theorem msi_token_passes_iff {mac : TokenHead → BitVec 128} {s₀ s₁ s₂ s₃ : State}
    {ops ops' : List Op} {ring : Nat} {mem : Capability.Ring} {sqe : Ksqe} {ans : Answers}
    {reply : Reply} {token : CapToken} {p : Ptr} {g : Grant} (hboot : Booted s₀)
    (hrun : Run (step mac) Legal s₀ ops s₁) (hlegal : Legal s₁ (.irq ring mem sqe ans))
    (hmint : irqExec mac ans s₁ ring mem sqe = some (s₂, reply))
    (htoken : reply.token = some token) (hrun' : Run (step mac) Legal s₂ ops' s₃)
    (hresolve : tokenResolve mac s₃.cap token true KCAP_GRANT_IRQ_ROUTE =
      some (.ok p))
    (hg : s₃.cap.heap.get p = some g) :
    ∃ i, Minted mac s₂ ring i token ∧
      (s₃.bumps i = s₂.bumps i →
        (s₃.g_routes i).allocated = true ∧ (s₃.g_routes i).ring = some ring) ∧
      (capIrqRoute s₃ g ≠ none ↔ GENERATIONS ∣ s₃.bumps i - s₂.bumps i) ∧
      ((msiAddress s₃ (capIrqRoute s₃ g)).status = .ok 0 ↔
        GENERATIONS ∣ s₃.bumps i - s₂.bumps i ∧ (s₃.g_routes i).allocated = true) := by
  obtain ⟨hs₀, hgsi₀⟩ := booted_spec hboot
  obtain ⟨hturn₁, hs₁, -, -⟩ := run_spec hs₀ hrun
  obtain ⟨hturn₂, hs₂, -, hminted⟩ := irqExec_spec hs₁ hlegal hmint
  obtain ⟨hturn₃, -, -, -⟩ := run_spec hs₂ hrun'
  obtain ⟨i, hi⟩ := hminted token htoken
  have hgsi : (s₂.g_routes i).gsi = i :=
    (hturn₂ i).gsi.trans ((hturn₁ i).gsi.trans (hgsi₀ i))
  obtain ⟨hroute, haddress⟩ := minted_passes hs₂ hi hgsi hrun' hresolve hg
  refine ⟨i, hi, hi.stands (hturn₃ i), ?_, haddress⟩
  rw [hroute]
  split
  · rename_i h
    exact iff_of_true (by simp) h
  · rename_i h
    exact iff_of_false (by simp) h

theorem msi_token_passes_new : ∃ (s : State) (token : CapToken) (p : Ptr)
    (g : Grant), tokenResolve (fun _ => 0) s.cap token true
        KCAP_GRANT_IRQ_ROUTE = some (.ok p) ∧ s.cap.heap.get p = some g ∧
      ∃ i, Minted (fun _ => 0) s 0 i token ∧ capIrqRoute s g ≠ none ∧
        (msiAddress s (capIrqRoute s g)).status = .ok 0 := by
  obtain ⟨s₁, hrun, hready⟩ := ready_boot fun _ => 0
  obtain ⟨s₂, reply, token, hmint, htoken, hminted, htaken, -⟩ :=
    hready.allocate (fun _ => 0) (by decide) (Or.inl rfl)
  obtain ⟨p, g, hresolve, hg⟩ := hminted.resolves htaken.cap.shape (.nil s₂) hminted.live
  obtain ⟨i, hi, -, hroute, haddress⟩ := msi_token_passes_iff
    ⟨_, _, _, booted_bootState, rfl⟩ hrun (hready.legal _ _ _) hmint htoken (.nil s₂)
    hresolve hg
  have hdvd : GENERATIONS ∣ s₂.bumps i - s₂.bumps i := by rw [Nat.sub_self]; exact ⟨0, rfl⟩
  exact ⟨s₂, token, p, g, hresolve, hg, i, hi, hroute.mpr hdvd, haddress.mpr ⟨hdvd, hi.bound.1⟩⟩

theorem msi_token_revived : ∃ (s₀ s₁ s₂ s₃ : State) (ops ops' : List Op) (reply : Reply)
    (token : CapToken) (p : Ptr) (g : Grant),
    Booted s₀ ∧ Run (step fun _ => 0) Legal s₀ ops s₁ ∧
      irqExec (fun _ => 0) (answers (some 4)) s₁ 0 (rootMem fun _ => 0) msiSqe = some (s₂, reply) ∧
      reply.token = some token ∧ Minted (fun _ => 0) s₂ 0 LAST token ∧
      Run (step fun _ => 0) Legal s₂ ops' s₃ ∧ s₂.bumps LAST < s₃.bumps LAST ∧
      tokenResolve (fun _ => 0) s₃.cap token true KCAP_GRANT_IRQ_ROUTE =
        some (.ok p) ∧ s₃.cap.heap.get p = some g ∧
      (s₃.g_routes LAST).ring = some 1 ∧ capIrqRoute s₃ g = some LAST ∧
      (msiAddress s₃ (capIrqRoute s₃ g)).status = .ok 0 := by
  obtain ⟨s₁, hrun, hready⟩ := ready_boot fun _ => 0
  obtain ⟨s₂, reply, token, hmint, htoken, hminted, htaken, hbumps⟩ :=
    hready.allocate (fun _ => 0) (by decide) (Or.inl rfl)
  -- the release, the cycles and the last allocation
  obtain ⟨s₃, hrelease, hready₃, hbumps₃⟩ :=
    htaken.release (fun _ => 0) (answers none) (rootMem fun _ => 0)
  obtain ⟨ops, s₄, hcycles, hready₄, hbumps₄, hlive₄⟩ :=
    hready₃.cycles (fun _ => 0) 65534 (by decide)
  obtain ⟨s₅, reply₅, token₅, hexec₅, -, -, htaken₅, hbumps₅⟩ :=
    hready₄.allocate (fun _ => 0) (by decide) (Or.inr rfl)
  have hlegal₅ := hready₄.legal 1 (rootMem fun _ => 0) msiSqe
  have hrun' := Run.cons (legal_none s₂ 0 (rootMem fun _ => 0) _) (step_irq hrelease)
    (hcycles.append (.single hlegal₅ (step_irq hexec₅)))
  have hadvances : s₅.bumps LAST - s₂.bumps LAST = 2 * GENERATIONS := by
    rw [hbumps₅, hbumps₄, hbumps₃, GENERATIONS]
    omega
  -- no step of it kills a grant
  have hreleased := irqExec_spec htaken.cap.shape
    (legal_none s₂ 0 (rootMem fun _ => 0) msiSqe) hrelease
  have hlive₅ := (irqExec_spec hready₄.cap.shape hlegal₅ hexec₅).keepsLive hready₄.cap.shape _
    (hlive₄ _ (hreleased.keepsLive htaken.cap.shape _ hminted.live))
  obtain ⟨p, g, hresolve, hg⟩ := hminted.resolves htaken.cap.shape hrun' hlive₅
  obtain ⟨hroute, haddress⟩ :=
    minted_passes htaken.cap.shape hminted htaken.gsi hrun' hresolve hg
  have hdvd : GENERATIONS ∣ s₅.bumps LAST - s₂.bumps LAST := ⟨2, by rw [hadvances, Nat.mul_comm]⟩
  exact ⟨poolBoot, s₁, s₂, s₅, _, _, reply, token, p, g,
    ⟨_, _, _, booted_bootState, rfl⟩, hrun, hmint, htoken, hminted, hrun', by omega,
    hresolve, hg, htaken₅.bound.2, by rw [hroute, if_pos hdvd],
    haddress.mpr ⟨hdvd, htaken₅.bound.1⟩⟩

end GovinDos.Irq
