/-
  **What holds of the grants in every reachable state.**

  A run starts from the three boot roots and executes any commands on any rings.  `Sealed`
  is all the tree promises; no command stops the kernel as long as there are ids to give
  out.
-/
import GovinDos.CapabilityCommands
import GovinDos.Lib.Run

namespace GovinDos.Capability

open LinkedList

/-! ## 1. Boot -/

section boot

variable {s s' : State} {type : Nat} {slab : Option Ptr}

theorem shape_emptyState : Shape emptyState := by
  refine ⟨⟨fun id p => ?_, List.nodup_nil, ?_, ?_, ?_⟩, ⟨?_, ?_, ?_, ?_⟩⟩
  · exact iff_of_false (fun h => (by cases h)) (fun ⟨g, hg, _⟩ => by cases hg)
  · intro id hid
    cases hid
  · show 1 < 2 ^ 64
    decide
  · intro p g hg
    cases hg
  · intro p g q hg
    cases hg
  · intro p g hg
    cases hg
  · intro p g hg
    cases hg
  · intro q g hg
    cases hg

theorem bootRoot_spec {p : Ptr} (hs : Shape s) (hgraded : (forest s).Graded Contained)
    (hp : s.core p = none) (h : bootRoot s type (some p) = some s') :
    Shape s' ∧ (forest s').Graded Contained ∧ ∀ x, x ≠ p → s'.core x = s.core x := by
  obtain ⟨⟨s₁, o⟩, h₁, hrest⟩ := Option.bind_eq_some_iff.mp h
  have hparent : ∀ q pg, (none : Option (Ptr × Grant)) = some (q, pg) → s.heap.get q = some pg := by
    intro q pg hq
    cases hq
  have hslab : FreshSlab s (some p) := by
    rintro _ ⟨⟩
    exact core_none_iff.mp hp
  rcases grantNew_spec hs hslab hparent h₁ with
    ⟨rfl, rfl⟩ | ⟨_, rfl, ⟨⟩, hmade⟩
  · cases hrest
  · cases hrest
    have hnode := forest_insert hs hmade.shape.toBooks hmade.free hmade.core
    have hmove : Forest.Move Contained (forest s) none (forest s') := by
      refine .mint s.g_next_grant_id _ hmade.fresh rfl ?_ ?_ hnode ?_
      · intro q hq
        cases hq
      · intro q eq hq
        cases hq
      · ext id
        simp only [forest, hmade.minted, Set.mem_insert_iff, Set.mem_ofPred_eq, List.mem_cons]
    refine ⟨hmade.shape, hmove.graded (forest_sound hs) hgraded, fun x hx => ?_⟩
    rw [hmade.core, Function.update_of_ne hx]

def Booted (s : State) : Prop :=
  ∃ d q m : Ptr, d ≠ q ∧ d ≠ m ∧ q ≠ m ∧ capabilityBootstrap (some d) (some q) (some m) = some s

theorem booted_shape (h : Booted s) : Shape s ∧ (forest s).Graded Contained := by
  obtain ⟨d, q, m, hdq, hdm, hqm, h⟩ := h
  unfold capabilityBootstrap at h
  obtain ⟨s₁, h₁, hrest⟩ := Option.bind_eq_some_iff.mp h
  obtain ⟨s₂, h₂, h₃⟩ := Option.bind_eq_some_iff.mp hrest
  have hgraded : (forest emptyState).Graded Contained := by
    intro i e q eq hi
    cases hi
  obtain ⟨hs₁, hg₁, hkeep₁⟩ := bootRoot_spec shape_emptyState hgraded rfl h₁
  obtain ⟨hs₂, hg₂, hkeep₂⟩ := bootRoot_spec hs₁ hg₁ (hkeep₁ q hdq.symm) h₂
  have hm : s₂.core m = none := (hkeep₂ m hqm.symm).trans (hkeep₁ m hdm.symm)
  obtain ⟨hs, hg, -⟩ := bootRoot_spec hs₂ hg₂ hm h₃
  exact ⟨hs, hg⟩

end boot

/-! ## 2. Every reachable state -/

section runs

variable {mac : TokenHead → BitVec 128} {s s' : State} {ops : List (Command × Answers)}

theorem step_inv {op : Command × Answers} (h : step mac s op = some s') :
    ∃ r, exec mac s op = some (s', r) := by
  obtain ⟨⟨s₁, r⟩, hexec, rfl⟩ := Option.map_eq_some_iff.mp h
  exact ⟨r, hexec⟩

theorem run_shape (hs : Shape s) (hgraded : (forest s).Graded Contained)
    (hrun : Run (step mac) Fresh s ops s') : Shape s' ∧ (forest s').Graded Contained := by
  refine hrun.invariant (P := fun s => Shape s ∧ (forest s).Graded Contained) ⟨hs, hgraded⟩ ?_
  rintro s op s' ⟨hs, hgraded⟩ hfresh hstep
  obtain ⟨r, hexec⟩ := step_inv hstep
  obtain ⟨hs', hmove⟩ := exec_refines hs hfresh hexec
  exact ⟨hs', hmove.graded (forest_sound hs) hgraded⟩

theorem Tree.exists_root {p : Ptr} {g : Grant} (hs : Tree s) (hg : s.core p = some g) :
    ∃ r rg, Over s r p ∧ s.core r = some rg ∧ rg.parent = none := by
  induction hd : g.depth generalizing p g with
  | zero =>
    cases hparent : g.parent with
    | none => exact ⟨p, g, .refl, hg, hparent⟩
    | some q =>
      obtain ⟨pg, -, hdepth⟩ := hs.parent p g q hg hparent
      omega
  | succ d ih =>
    cases hparent : g.parent with
    | none =>
      have := hs.root p g hg hparent
      omega
    | some q =>
      obtain ⟨pg, hpg, hdepth⟩ := hs.parent p g q hg hparent
      obtain ⟨r, rg, hover, hr⟩ := ih hpg (by omega)
      exact ⟨r, rg, hover.tail (by rw [State.parentOf, hg, Option.bind_some, hparent]), hr⟩

structure Sealed (s : State) : Prop where
  attenuated : ∀ p g q, s.heap.get p = some g → g.parent = some q →
    ∃ pg, s.heap.get q = some pg ∧ Contained (g.label p) (pg.label q)
  depth : ∀ p g, s.heap.get p = some g → g.depth ≤ KCAP_MAX_DEPTH
  distinct : s.minted.Nodup ∧ ∀ p g, s.heap.get p = some g → g.id ∈ s.minted
  index : ∀ id p, s.g_grants.get id = some p ↔ ∃ g, s.heap.get p = some g ∧ g.id = id
  links : ∀ q pg, s.heap.get q = some pg → ∃ l : List Ptr, l.Nodup ∧
    Linked s.next s.prev none pg.first_child l ∧
      ∀ c, c ∈ l ↔ ∃ g, s.heap.get c = some g ∧ g.parent = some q
  rooted : ∀ p g, s.heap.get p = some g →
    ∃ r rg, Over s r p ∧ s.heap.get r = some rg ∧ rg.parent = none
  walk : ∀ p g, s.heap.get p = some g →
    liveWalk s (KCAP_MAX_DEPTH + 1) (some p) = some (.ok ()) ∨
      liveWalk s (KCAP_MAX_DEPTH + 1) (some p) = some (.error .DEAD)

theorem parentOf_eq_some_iff {c q : Ptr} :
    s.parentOf c = some q ↔ ∃ g, s.heap.get c = some g ∧ g.parent = some q := by
  constructor
  · intro h
    obtain ⟨g, hg, hq⟩ := Option.bind_eq_some_iff.mp h
    obtain ⟨r, hr, rfl⟩ := get_of_core hg
    exact ⟨r, hr, hq⟩
  · rintro ⟨g, hg, hq⟩
    exact Option.bind_eq_some_iff.mpr ⟨g.core, core_of_get hg, hq⟩

theorem sealed_of_shape (hs : Shape s) (hgraded : (forest s).Graded Contained) : Sealed s := by
  refine ⟨fun p g q hg hq => ?_, fun p g hg => hs.depth p g.core (core_of_get hg),
    ⟨hs.nodup, fun p g hg => hs.ids p g.core (core_of_get hg)⟩, fun id p => ?_, fun q pg hpg => ?_,
    fun p g hg => ?_, fun p g hg => ?_⟩
  · obtain ⟨c, hc, -⟩ := hs.parent p g.core q (core_of_get hg) hq
    obtain ⟨pg, hpg, rfl⟩ := get_of_core hc
    refine ⟨pg, hpg, ?_⟩
    have hparent : (entryOf s p g.core).parent = some pg.core.id := by
      simp only [entryOf, show g.core.parent = some q from hq, Option.bind_some, hc, Option.map_some]
    exact hgraded g.core.id _ pg.core.id _ (node_of_core hs.toBooks (core_of_get hg)) hparent
      (node_of_core hs.toBooks hc)
  · rw [hs.index]
    constructor
    · rintro ⟨c, hc, hid⟩
      obtain ⟨g, hg, rfl⟩ := get_of_core hc
      exact ⟨g, hg, hid⟩
    · rintro ⟨g, hg, hid⟩
      exact ⟨g.core, core_of_get hg, hid⟩
  · obtain ⟨l, hl⟩ := hs.children q pg.core (core_of_get hpg)
    exact ⟨l, hl.nodup, first_of_get hpg ▸ hl.linked,
      fun c => (hl.mem c).trans parentOf_eq_some_iff⟩
  · obtain ⟨r, c, hover, hc, hroot⟩ := hs.toTree.exists_root (core_of_get hg)
    obtain ⟨rg, hrg, rfl⟩ := get_of_core hc
    exact ⟨r, rg, hover, hrg, hroot⟩
  · have hdepth := hs.depth p g.core (core_of_get hg)
    exact (liveWalk_spec hs (core_of_get hg) (Nat.lt_succ_of_le hdepth)).imp And.left And.left

theorem run_sealed {s₀ : State} (hboot : Booted s₀) (hrun : Run (step mac) Fresh s₀ ops s) :
    Sealed s := by
  obtain ⟨hs₀, hgraded₀⟩ := booted_shape hboot
  obtain ⟨hs, hgraded⟩ := run_shape hs₀ hgraded₀ hrun
  exact sealed_of_shape hs hgraded

/-- A token with the kernel's MAC, of a grant that is there, of the type asked for and below
    no revoked one. -/
def StandsFor (mac : TokenHead → BitVec 128) (s : State) (token : CapToken) (need_live : Bool)
    (type : Nat) (p : Ptr) : Prop :=
  Genuine mac token ∧ ∃ g, s.core p = some g ∧ g.id = token.grant_id_le ∧
    (type = 0 ∨ g.type = type) ∧ (need_live = true → (forest s).Live g.id)

theorem run_token_resolves {s₀ : State} (hboot : Booted s₀) (hrun : Run (step mac) Fresh s₀ ops s)
    (token : CapToken) (need_live : Bool) (type : Nat) (p : Ptr) :
    tokenResolve mac s token need_live type = some (.ok p) ↔
      StandsFor mac s token need_live type p := by
  obtain ⟨hs₀, hgraded₀⟩ := booted_shape hboot
  exact tokenResolve_ok_iff (run_shape hs₀ hgraded₀ hrun).1

end runs

/-! ## 3. A first run -/

def bootState : State := (capabilityBootstrap (some 1) (some 2) (some 3)).getD emptyState

theorem booted_bootState : Booted bootState := ⟨1, 2, 3, by decide, by decide, by decide, rfl⟩

def initRing (mac : TokenHead → BitVec 128) : Ring where
  bytes := 4096
  token := fun _ => tokenWrite mac (freshGrant 1 KCAP_GRANT_DEVMEM 0 true none)
  subgrant_req := fun _ => { token_off := 0, token_len := 32, p0 := 4096, p1 := 4096, p2 := 1,
                             present := 7, reserved := 0, reserved2 := 0 }
  query_req := fun _ => ⟨0, 32⟩

def initSubgrant (mac : TokenHead → BitVec 128) : Command × Answers :=
  (.cap (initRing mac) { op := KCAP_SUBGRANT, a := 0, b := 0, c := 64 }, ⟨some 4, fun _ => none, none⟩)

theorem step_initSubgrant : ∃ s, step (fun _ => 0) bootState (initSubgrant fun _ => 0) = some s ∧
    s.g_grants.get 1 = some 1 ∧ s.g_grants.get 4 = some 4 := by
  have h : ((step (fun _ => 0) bootState (initSubgrant fun _ => 0)).map fun s =>
      (s.g_grants.get 1, s.g_grants.get 4)) = some (some 1, some 4) := by decide
  obtain ⟨s, hs, hget⟩ := Option.map_eq_some_iff.mp h
  exact ⟨s, hs, congrArg Prod.fst hget, congrArg Prod.snd hget⟩

theorem fresh_initSubgrant : Fresh bootState (initSubgrant fun _ => 0) := by
  rintro _ ⟨⟩
  rfl

theorem run_sealed_init : ∃ s, Run (step fun _ => 0) Fresh bootState [initSubgrant fun _ => 0] s ∧
    s.g_grants.get 4 = some 4 ∧ Sealed s := by
  obtain ⟨s, hs, -, hchild⟩ := step_initSubgrant
  exact ⟨s, .single fresh_initSubgrant hs, hchild,
    run_sealed booted_bootState (.single fresh_initSubgrant hs)⟩

theorem run_token_resolves_init : ∃ s,
    Run (step fun _ => 0) Fresh bootState [initSubgrant fun _ => 0] s ∧ ∀ token,
      tokenResolve (fun _ => 0) s token true 0 = some (.ok 4) ↔
        StandsFor (fun _ => 0) s token true 0 4 := by
  obtain ⟨s, hs, -⟩ := step_initSubgrant
  have hrun := Run.single fresh_initSubgrant hs
  exact ⟨s, hrun, fun token => run_token_resolves booted_bootState hrun token true 0 4⟩

end GovinDos.Capability
