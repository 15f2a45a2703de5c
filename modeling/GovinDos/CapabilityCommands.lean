/-
  **Every command is one move of the forest.**

  Under the shape, `token_resolve` never runs out of depth.  Against arbitrary ring memory,
  a refused command leaves the forest alone, a subgrant mints below a live grant and inside
  its authority, a revoke takes one leaf below the grant it names.
-/
import GovinDos.CapabilityForest

namespace GovinDos.Capability

open Function

/-! ## 1. Tokens -/

section tokens

variable (mac : TokenHead → BitVec 128)

def Genuine (token : CapToken) : Prop :=
  token.version = CAP_TOKEN_VERSION ∧ token.nres = 0 ∧ token.reserved = 0 ∧
    token.mac = mac token.toTokenHead

instance (token : CapToken) : Decidable (Genuine mac token) :=
  inferInstanceAs (Decidable (_ ∧ _ ∧ _ ∧ _))

variable {mac} {s : State} {token : CapToken} {need_live : Bool} {type : Nat} {p : Ptr} {g : Grant}

theorem genuine_tokenWrite (g : Grant) : Genuine mac (tokenWrite mac g) := ⟨rfl, rfl, rfl, rfl⟩

theorem tokenResolve_forged (h : ¬ Genuine mac token) :
    ∃ e, ∀ s need_live type, tokenResolve mac s token need_live type = some (.error e) := by
  by_cases h₁ : token.version ≠ CAP_TOKEN_VERSION ∨ token.nres ≠ 0
  · exact ⟨.INVAL, fun s need_live type => if_pos h₁⟩
  · by_cases h₂ : token.reserved ≠ 0
    · exact ⟨.INVAL, fun s need_live type => (if_neg h₁).trans (if_pos h₂)⟩
    · have h₃ : token.mac ≠ mac token.toTokenHead := by
        intro hmac
        simp only [not_or, not_not] at h₁ h₂
        exact h ⟨h₁.1, h₁.2, h₂, hmac⟩
      exact ⟨.PERM, fun s need_live type =>
        (if_neg h₁).trans ((if_neg h₂).trans (if_pos h₃))⟩

open Classical in

noncomputable def answer (f : Forest Nat Label) (id : Nat) (need_live : Bool) (type : Nat) :
    Except SysErr Ptr :=
  match f.node id with
  | none => .error .DEAD
  | some e =>
    if type ≠ 0 ∧ e.label.type ≠ type then .error .PERM
    else if need_live = true ∧ ¬ f.Live id then .error .DEAD
    else .ok e.label.ptr

theorem tokenResolve_genuine (hs : Shape s) (h : Genuine mac token) (need_live : Bool) (type : Nat) :
    tokenResolve mac s token need_live type =
      some (answer (forest s) token.grant_id_le need_live type) := by
  obtain ⟨h₁, h₂, h₃, h₄⟩ := h
  rw [tokenResolve, if_neg (by simp [h₁, h₂]), if_neg (by simp [h₃]), if_neg (by simp [h₄]),
    resolveId, answer]
  cases hp : s.g_grants.get token.grant_id_le with
  | none => simp only [forest, hp, Option.bind_none]
  | some p =>
    obtain ⟨g, hg, hid⟩ := (hs.index _ p).mp hp
    obtain ⟨r, hr, rfl⟩ := get_of_core hg
    rw [← hid, node_of_core hs.toBooks hg]
    simp only [hr, Option.bind_eq_bind, Option.bind_some]
    by_cases hty : type ≠ 0 ∧ r.type ≠ type
    · rw [if_pos hty]
      exact congrArg some (if_pos hty).symm
    · rw [if_neg hty]
      refine Eq.trans ?_ (congrArg some (if_neg hty).symm)
      have hdepth := Nat.lt_succ_of_le (hs.depth p _ hg)
      cases need_live with
      | false => rfl
      | true =>
        rcases liveWalk_spec hs hg hdepth with ⟨hwalk, hlive⟩ | ⟨hwalk, hdead⟩
        · rw [if_pos rfl, if_neg fun h => h.2 hlive, hwalk]
          rfl
        · rw [if_pos rfl, if_pos ⟨rfl, hdead⟩, hwalk]
          rfl

theorem tokenResolve_ok_iff (hs : Shape s) :
    tokenResolve mac s token need_live type = some (.ok p) ↔
      Genuine mac token ∧ ∃ g, s.core p = some g ∧ g.id = token.grant_id_le ∧
        (type = 0 ∨ g.type = type) ∧ (need_live = true → (forest s).Live g.id) := by
  by_cases hgen : Genuine mac token
  · rw [tokenResolve_genuine hs hgen, Option.some_inj, answer]
    constructor
    · intro h
      cases hnode : (forest s).node token.grant_id_le with
      | none => simp [hnode] at h
      | some e =>
        obtain ⟨p', g, hg, hid, rfl⟩ := core_of_node hs.toBooks hnode
        simp only [hnode] at h
        split at h
        · cases h
        rename_i hty
        split at h
        · cases h
        rename_i hlive
        cases h
        refine ⟨hgen, g, hg, hid, ?_, fun hn => not_not.mp fun hdead => hlive ⟨hn, hid ▸ hdead⟩⟩
        exact (Classical.em _).imp_right fun h0 => not_not.mp fun hne => hty ⟨h0, hne⟩
    · rintro ⟨-, g, hg, hid, hty, hlive⟩
      rw [← hid, node_of_core hs.toBooks hg]
      refine (if_neg fun h => not_or.mpr h hty).trans (if_neg fun h => h.2 (hlive h.1))
  · obtain ⟨e, he⟩ := tokenResolve_forged hgen
    simp [he, hgen]

end tokens

/-! ## 2. Attenuation -/

section attenuation

variable {routes : Nat → Option (Nat × Nat)} {req : SubgrantReq} {pg : Grant}

theorem setsParams_setParams (routes : Nat → Option (Nat × Nat)) (req : SubgrantReq) (pg : Grant) :
    SetsParams (setParams routes req pg) := by
  unfold setParams
  split
  · exact ⟨fun g => ⟨rfl, rfl, rfl⟩, fun g => ⟨rfl, rfl, rfl⟩, fun g => rfl, fun g => rfl⟩
  · split
    · exact ⟨fun g => ⟨rfl, rfl, rfl⟩, fun g => ⟨rfl, rfl, rfl⟩, fun g => rfl, fun g => rfl⟩
    · split
      · exact ⟨fun g => ⟨rfl, rfl, rfl⟩, fun g => ⟨rfl, rfl, rfl⟩, fun g => rfl, fun g => rfl⟩
      · exact ⟨fun g => ⟨rfl, rfl, rfl⟩, fun g => ⟨rfl, rfl, rfl⟩, fun g => rfl, fun g => rfl⟩

theorem devmemCheck_contained (h : devmemCheck req pg = none) (hw : pg.wildcard = false) :
    pg.devmem.base ≤ (devmemRequest req pg).base ∧
      (devmemRequest req pg).base + (devmemRequest req pg).len ≤ pg.devmem.base + pg.devmem.len ∧
      (devmemRequest req pg).flags &&& ~~~pg.devmem.flags = 0 := by
  dsimp only [devmemCheck] at h
  split at h
  · cases h
  · rename_i hok
    simp only [hw, Bool.not_false, true_and, not_or, not_lt, not_not] at hok
    exact ⟨hok.2.2.1.2.1, hok.2.2.1.2.2, hok.2.2.2⟩

theorem iommuCheck_contained (h : iommuCheck req pg = none) (hw : pg.wildcard = false) :
    iommuRequest req pg % 2 ^ 32 = pg.iommu := by
  unfold iommuCheck at h
  split at h
  · cases h
  · rename_i hok
    simp only [hw, Bool.not_false, true_and, not_or, not_not] at hok
    have := hok.1
    rw [← hok.2.2.1]
    exact Nat.mod_eq_of_lt (by omega)

theorem contained_setParams (h : subgrantCheck routes req pg = none) (q c : Ptr) (id : Nat) :
    Contained ((setParams routes req pg (newborn (some (q, pg)) id pg.type false)).label c)
      (pg.label q) := by
  have hkeep : ∀ g, (setParams routes req pg g).type = g.type ∧
      (setParams routes req pg g).depth = g.depth := by
    intro g
    unfold setParams
    split
    · exact ⟨rfl, rfl⟩
    · split
      · exact ⟨rfl, rfl⟩
      · split <;> exact ⟨rfl, rfl⟩
  refine ⟨(hkeep _).1, (hkeep _).2, fun hw hty => ?_, fun hw hty => ?_, fun hw hty => ?_⟩
  · replace hty : pg.type = KCAP_GRANT_DEVMEM := hty
    rw [subgrantCheck, if_pos hty] at h
    simp only [setParams, if_pos hty, Grant.label]
    exact devmemCheck_contained h hw
  · replace hty : pg.type = KCAP_GRANT_IRQ_ROUTE := hty
    replace hw : pg.wildcard = false := hw
    simp only [setParams, hty, Grant.label, irqRequest, hw]
    rfl
  · replace hty : pg.type = KCAP_GRANT_IOMMU_DEV := hty
    rw [subgrantCheck, hty] at h
    simp only [setParams, hty, Grant.label]
    exact iommuCheck_contained h hw

end attenuation

/-! ## 3. Commands as moves -/

section commands

variable {mac : TokenHead → BitVec 128} {routes : Nat → Option (Nat × Nat)} {s s' : State}
  {ring : Ring} {sqe : Ksqe} {req : SubgrantReq} {q : Ptr} {pg : Grant} {slab : Option Ptr}

theorem move_stay (s : State) : Forest.Move Contained (forest s) none (forest s) :=
  .skip rfl subset_rfl fun t ht => (by cases ht)

theorem Born.refused {s₁ s₂ : State} {c : Ptr} {child : Grant} (hs : Shape s)
    (hborn : Born s pg c child s₁) (hid : child.id = s.g_next_grant_id)
    (h : grantDeleteLeaf s₁ c = some s₂) :
    Shape s₂ ∧ Forest.Move Contained (forest s) none (forest s₂) := by
  have hchild := (congrFun hborn.core c).trans (update_self ..)
  obtain ⟨_, hrun, hleaf, hcore, hminted, hs₂⟩ :=
    grantDeleteLeaf_spec hborn.shape hchild (first_of_delete h)
  cases hrun.symm.trans h
  refine ⟨hs₂, .skip ?_ ?_ fun t ht => (by cases ht)⟩
  · rw [forest_remove hborn.shape.toBooks hs₂.toBooks hchild hcore hleaf, hid, hborn.node, update_idem,
      update_eq_self_iff]
    cases hn : (forest s).node s.g_next_grant_id with
    | none => rfl
    | some e => exact absurd ((forest_sound hs).known _ e hn) hborn.fresh
  · have hsame : (forest s₂).used = (forest s₁).used := by simp only [forest, hminted]
    rw [hsame, hborn.used]
    exact Set.subset_insert _ _

theorem subgrant_spec {r : Except SysErr CapToken} (hs : Shape s) (hslab : FreshSlab s slab)
    (hq : s.heap.get q = some pg) (hlive : (forest s).Live pg.id)
    (h : subgrant mac routes s req q slab = some (s', r)) :
    Shape s' ∧ Forest.Move Contained (forest s) none (forest s') := by
  unfold subgrant at h
  rw [hq, Option.bind_eq_bind, Option.bind_some] at h
  split at h
  · cases h
    exact ⟨hs, move_stay s⟩
  · split at h
    · cases h
      exact ⟨hs, move_stay s⟩
    · obtain ⟨⟨s₁, o⟩, h₁, hrest⟩ := Option.bind_eq_some_iff.mp h
      have hparent : ∀ q' pg', some (q, pg) = some (q', pg') → s.heap.get q' = some pg' := by
        rintro _ _ ⟨⟩
        exact hq
      rcases grantNew_spec hs hslab hparent h₁ with ⟨rfl, rfl⟩ | ⟨c, rfl, -, hmade⟩
      · cases hrest
        exact ⟨hs, move_stay _⟩
      · obtain ⟨s₂, h₂, hrest⟩ := Option.bind_eq_some_iff.mp hrest
        have hborn := hmade.born (setsParams_setParams routes req pg) hs hq h₂
        split at hrest
        · obtain ⟨s₃, h₃, hrest⟩ := Option.bind_eq_some_iff.mp hrest
          cases hrest
          exact hborn.refused hs ((setsParams_setParams routes req pg).tree _).1 h₃
        · rename_i hcheck
          obtain ⟨g, -, hrest⟩ := Option.bind_eq_some_iff.mp hrest
          cases hrest
          exact ⟨hborn.shape, hborn.move hs hq hlive (contained_setParams hcheck q c _)⟩

theorem capCreateIrqRouteLocked_spec {slot id : Nat} {r : Except SysErr CapToken} (hs : Shape s)
    (hslab : FreshSlab s slab) (hq : s.heap.get q = some pg) (hlive : (forest s).Live pg.id)
    (h : capCreateIrqRouteLocked mac s q slot id slab = some (s', r)) :
    Shape s' ∧ Forest.Move Contained (forest s) none (forest s') ∧
      ∀ token, r = .ok token → Genuine mac token ∧ (forest s').Live token.grant_id_le ∧ ∃ e,
        (forest s').node token.grant_id_le = some e ∧ e.label.type = KCAP_GRANT_IRQ_ROUTE ∧
          e.label.irq = ⟨some slot, id⟩ := by
  unfold capCreateIrqRouteLocked at h
  rw [hq, Option.bind_eq_bind, Option.bind_some] at h
  split at h
  · cases h
    exact ⟨hs, move_stay s, fun token ht => (by cases ht)⟩
  · rename_i hok
    simp only [not_or, not_not, Bool.not_eq_true, Bool.not_eq_false'] at hok
    obtain ⟨⟨s₁, o⟩, h₁, hrest⟩ := Option.bind_eq_some_iff.mp h
    have hparent : ∀ q' pg', some (q, pg) = some (q', pg') → s.heap.get q' = some pg' := by
      rintro _ _ ⟨⟩
      exact hq
    rcases grantNew_spec hs hslab hparent h₁ with ⟨rfl, rfl⟩ | ⟨c, rfl, -, hmade⟩
    · cases hrest
      exact ⟨hs, move_stay _, fun token ht => (by cases ht)⟩
    · obtain ⟨s₂, h₂, hrest⟩ := Option.bind_eq_some_iff.mp hrest
      obtain ⟨g, hg, hrest⟩ := Option.bind_eq_some_iff.mp hrest
      cases hrest
      have hsets : SetsParams fun g : Grant => { g with irq := ⟨some slot, id⟩ } :=
        ⟨fun g => ⟨rfl, rfl, rfl⟩, fun g => ⟨rfl, rfl, rfl⟩, fun g => rfl, fun g => rfl⟩
      have hborn := hmade.born hsets hs hq h₂
      have hwild : (pg.label q).wildcard ≠ false := by
        rw [show (pg.label q).wildcard = pg.wildcard from rfl, hok.2.2]
        simp
      have hmove := hborn.move hs hq hlive ⟨hok.1.symm, rfl, fun hw => absurd hw hwild,
        fun hw => absurd hw hwild, fun hw => absurd hw hwild⟩
      refine ⟨hborn.shape, hmove, ?_⟩
      rintro _ ⟨⟩
      have hgid : g.id = s.g_next_grant_id := by
        have hgc := (core_of_get hg).symm.trans ((congrFun hborn.core c).trans (update_self ..))
        exact congrArg Grant.id (Option.some.inj hgc)
      have hself := (congrFun hborn.node (tokenWrite mac g).grant_id_le).trans
        ((congrArg _ hgid).trans (update_self ..))
      refine ⟨genuine_tokenWrite g, (Forest.live_iff_parent hself).mpr ⟨rfl, ?_⟩, _, hself, rfl, rfl⟩
      rintro _ ⟨⟩
      have hused : pg.id ∈ (forest s).used := hs.ids q pg.core (core_of_get hq)
      exact (hmove.live_iff (forest_sound hs) hused).mpr ⟨hlive, fun t ht => (by cases ht)⟩

end commands

/-! ## 4. The system -/

/-- An entry for the capability scheme, or one that asks for an MSI route. -/
inductive Command
  | cap (ring : Ring) (sqe : Ksqe)
  | msi (ring : Ring) (sqe : Ksqe)

structure Answers where
  slab : Option Ptr
  routes : Nat → Option (Nat × Nat)
  free : Option (Nat × Nat)

section system

variable (mac : TokenHead → BitVec 128)

def exec (s : State) : Command × Answers → Option (State × Reply)
  | (.cap ring sqe, ans) => capExec mac ans.routes s ring sqe ans.slab
  | (.msi ring sqe, ans) => msiExec mac s ring sqe ans.free ans.slab

def step (s : State) (op : Command × Answers) : Option State := (exec mac s op).map (·.1)

def Fresh (s : State) (op : Command × Answers) : Prop := FreshSlab s op.2.slab

def Command.target : Command → Option Nat
  | .cap ring sqe =>
    if sqe.op = KCAP_REVOKE ∧ sqe.b = CAP_TOKEN_SIZE ∧ ringRange ring sqe.a sqe.b = true ∧
        Genuine mac (ring.token sqe.a) then
      some (ring.token sqe.a).grant_id_le
    else none
  | .msi _ _ => none

structure Refines (s : State) (c : Command) (s' : State) : Prop where
  shape : Shape s'
  move : Forest.Move Contained (forest s) (c.target mac) (forest s')

variable {mac} {s s' : State} {ring : Ring} {sqe : Ksqe} {ans : Answers} {r : Reply}

theorem capVerifyRingLocked_ok {off len type : Nat} {p : Ptr} (hs : Shape s)
    (h : capVerifyRingLocked mac s ring off len type = some (.ok p)) :
    ∃ g, s.heap.get p = some g ∧ (forest s).Live g.id := by
  unfold capVerifyRingLocked resolveRing at h
  split at h
  · cases h
  · obtain ⟨-, c, hc, -, -, hlive⟩ := (tokenResolve_ok_iff hs).mp h
    obtain ⟨g, hg, rfl⟩ := get_of_core hc
    exact ⟨g, hg, hlive rfl⟩

theorem subgrantExec_spec (hs : Shape s) (hslab : FreshSlab s ans.slab)
    (h : subgrantExec mac ans.routes s ring sqe ans.slab = some (s', r)) :
    Shape s' ∧ Forest.Move Contained (forest s) none (forest s') := by
  unfold subgrantExec at h
  split at h
  · cases h
    exact ⟨hs, move_stay s⟩
  · obtain ⟨resolved, hres, hrest⟩ := Option.bind_eq_some_iff.mp h
    cases resolved with
    | error e =>
      cases hrest
      exact ⟨hs, move_stay _⟩
    | ok parent =>
      obtain ⟨pg, hpg, hlive⟩ := capVerifyRingLocked_ok hs hres
      obtain ⟨⟨s₁, made⟩, hsub, hrest⟩ := Option.bind_eq_some_iff.mp hrest
      have hspec := subgrant_spec hs hslab hpg hlive hsub
      cases made with
      | error e =>
        cases hrest
        exact hspec
      | ok token =>
        cases hrest
        exact hspec

theorem msiExec_spec (hs : Shape s) (hslab : FreshSlab s ans.slab)
    (h : msiExec mac s ring sqe ans.free ans.slab = some (s', r)) :
    Shape s' ∧ Forest.Move Contained (forest s) none (forest s') := by
  obtain ⟨resolved, hres, hrest⟩ := Option.bind_eq_some_iff.mp h
  cases resolved with
  | error e =>
    cases hrest
    exact ⟨hs, move_stay _⟩
  | ok parent =>
    obtain ⟨pg, hpg, hlive⟩ := capVerifyRingLocked_ok hs hres
    dsimp only at hrest
    split at hrest
    · cases hrest
      exact ⟨hs, move_stay _⟩
    · split at hrest
      · cases hrest
        exact ⟨hs, move_stay _⟩
      · obtain ⟨⟨s₁, made⟩, hmade, hrest⟩ := Option.bind_eq_some_iff.mp hrest
        obtain ⟨hs', hmove, -⟩ := capCreateIrqRouteLocked_spec hs hslab hpg hlive hmade
        have hspec := And.intro hs' hmove
        cases made with
        | error e =>
          cases hrest
          exact hspec
        | ok token =>
          cases hrest
          exact hspec

theorem queryExec_spec (h : queryExec mac s ring sqe = some (s', r)) : s' = s := by
  unfold queryExec at h
  split at h
  · cases h
    rfl
  · obtain ⟨resolved, -, hrest⟩ := Option.bind_eq_some_iff.mp h
    cases resolved with
    | error e =>
      cases hrest
      rfl
    | ok p =>
      obtain ⟨g, -, hrest⟩ := Option.bind_eq_some_iff.mp hrest
      obtain ⟨live, -, hrest⟩ := Option.bind_eq_some_iff.mp hrest
      cases hrest
      rfl

theorem exec_revoke {c : Command} {t : Nat} (ans : Answers) (hs : Shape s) (hc : c.target mac = some t) :
    (forest s).node t = none ∧ exec mac s (c, ans) = some (s, .of (.error .DEAD)) ∨
    (forest s).node t ≠ none ∧ ∃ s' status, exec mac s (c, ans) = some (s', .of status) ∧ Shape s' ∧
      Forest.Move Contained (forest s) (some t) (forest s') ∧
      ((forest s').node t = none ∧ status = .ok 0 ∨
        (forest s').node t ≠ none ∧ status = .error .AGAIN) := by
  cases c with
  | msi ring sqe => cases hc
  | cap ring sqe =>
    simp only [Command.target] at hc
    split at hc
    case isFalse => cases hc
    case isTrue hok =>
    obtain ⟨hop, hlen, hrange, hgen⟩ := hok
    cases hc
    have hexec : exec mac s (.cap ring sqe, ans) = revokeExec mac s ring sqe := by
      simp only [exec, capExec, hop]
      rfl
    have hbad : ¬ (sqe.b ≠ CAP_TOKEN_SIZE ∨ (!ringRange ring sqe.a sqe.b) = true) := by
      rw [hrange]
      simp [hlen]
    rw [hexec, revokeExec, if_neg hbad]
    cases hnode : (forest s).node (ring.token sqe.a).grant_id_le with
    | none =>
      rw [tokenResolve_genuine hs hgen, answer, hnode]
      exact Or.inl ⟨rfl, rfl⟩
    | some e =>
      obtain ⟨p, g, hg, hid, -⟩ := core_of_node hs.toBooks hnode
      have hresolve : tokenResolve mac s (ring.token sqe.a) false 0 = some (.ok p) :=
        (tokenResolve_ok_iff hs).mpr ⟨hgen, g, hg, hid, Or.inl rfl, fun h => (by cases h)⟩
      obtain ⟨s', status, hstep, hs', hmove, hreply⟩ := revokeStep_spec hs hg
      rw [hid] at hmove hreply
      refine Or.inr ⟨by simp, s', status, ?_, hs', hmove, hreply⟩
      rw [hresolve, Option.bind_eq_bind, Option.bind_some]
      simp only [hstep, Option.bind_eq_bind, Option.bind_some]

theorem revokeExec_refused (hs : (Command.cap ring sqe).target mac = none) (hop : sqe.op = KCAP_REVOKE) :
    ∃ e, revokeExec mac s ring sqe = some (s, .of (.error e)) := by
  simp only [Command.target, hop, true_and] at hs
  split at hs
  case isTrue => cases hs
  case isFalse hbad =>
  by_cases hlen : sqe.b ≠ CAP_TOKEN_SIZE ∨ !ringRange ring sqe.a sqe.b
  · exact ⟨.INVAL, if_pos hlen⟩
  · have hforged : ¬ Genuine mac (ring.token sqe.a) := by
      intro hgen
      simp only [not_or, not_not, Bool.not_eq_true', Bool.not_eq_false] at hlen
      exact hbad ⟨hlen.1, hlen.2, hgen⟩
    obtain ⟨e, he⟩ := tokenResolve_forged hforged
    refine ⟨e, (if_neg hlen).trans ?_⟩
    rw [he]
    rfl

theorem exec_refines {op : Command × Answers} (hs : Shape s) (hfresh : Fresh s op)
    (h : exec mac s op = some (s', r)) : Refines mac s op.1 s' := by
  obtain ⟨c, ans⟩ := op
  cases hc : c.target mac with
  | some t =>
    rcases exec_revoke ans hs hc with ⟨hgone, heq⟩ | ⟨-, s₁, status, heq, hs₁, hmove, -⟩
    · rw [heq] at h
      cases h
      refine ⟨hs, hc ▸ .skip rfl subset_rfl ?_⟩
      rintro _ ⟨⟩
      exact hgone
    · rw [heq] at h
      cases h
      exact ⟨hs₁, hc ▸ hmove⟩
  | none =>
    suffices hspec : Shape s' ∧ Forest.Move Contained (forest s) none (forest s') from
      ⟨hspec.1, hc ▸ hspec.2⟩
    cases c with
    | msi ring sqe => exact msiExec_spec hs hfresh h
    | cap ring sqe =>
      simp only [exec, capExec] at h
      split at h
      · exact subgrantExec_spec hs hfresh h
      · split at h
        · rename_i hop
          obtain ⟨e, he⟩ := revokeExec_refused hc hop
          rw [he] at h
          cases h
          exact ⟨hs, move_stay _⟩
        · split at h
          · cases queryExec_spec h
            exact ⟨hs, move_stay _⟩
          · cases h
            exact ⟨hs, move_stay _⟩

end system

/-! ## 5. The grant of a route -/

section route

variable {mac : TokenHead → BitVec 128} {routes : Nat → Option (Nat × Nat)} {s : State}
  {ring : Ring} {sqe : Ksqe} {req : SubgrantReq} {q : Ptr} {pg : Grant} {slab : Option Ptr}

theorem capCreateIrqRouteLocked_made {c : Ptr} (mac : TokenHead → BitVec 128) (slot id : Nat)
    (hs : Shape s)
    (hc : s.heap.get c = none) (hq : s.heap.get q = some pg) (htype : pg.type = KCAP_GRANT_IRQ_ROUTE)
    (hdead : pg.dead = false) (hwild : pg.wildcard = true) (hdepth : pg.depth < KCAP_MAX_DEPTH)
    (hid : s.g_next_grant_id ≠ 0) :
    ∃ s' token, capCreateIrqRouteLocked mac s q slot id (some c) = some (s', .ok token) ∧
      (∀ x, x ≠ c → s'.core x = s.core x) ∧
      s'.g_next_grant_id = (s.g_next_grant_id + 1) % 2 ^ 64 := by
  have hfit : FitParent s (some (q, pg)) := by
    rintro _ _ ⟨⟩
    exact ⟨hq, hdepth⟩
  obtain ⟨s₁, h₁, hmade⟩ := grantNew_made KCAP_GRANT_IRQ_ROUTE false hs hc hfit hid
  obtain ⟨r, hr, -⟩ := get_of_core ((congrFun hmade.core c).trans (update_self ..))
  have h₂ := modify_eq (f := fun g : Grant => { g with irq := ⟨some slot, id⟩ }) hr
  have hcore₂ := core_put s₁ c { r with irq := ⟨some slot, id⟩ }
  obtain ⟨g, hg, -⟩ := get_of_core ((congrFun hcore₂ c).trans (update_self ..))
  refine ⟨s₁.put c { r with irq := ⟨some slot, id⟩ }, tokenWrite mac g, ?_, fun x hx => ?_,
    hmade.next⟩
  · unfold capCreateIrqRouteLocked
    simp only [hq, Option.bind_eq_bind, Option.bind_some, htype, hdead, hwild, h₁, h₂, hg]
    rfl
  · rw [hcore₂, update_of_ne hx, hmade.core, update_of_ne hx]

end route

end GovinDos.Capability
